import KyroKernel.Foundations.Refinement
import KyroKernel.Users.AccountHistory
import KyroKernel.Users.Listing

/-!
# What the user system is for

A store of accounts with names, passwords, roles and ids. The functions of `kernel/user.c` give its
answers in every sequence of calls, with the checks of `add_user` in their order and the ids going on
after `user_init`.
-/

namespace KyroKernel

open Foundations

/-! ## §1 The store -/

/-- An account, as the callers know it. -/
structure Account where
  name : List Byte
  secret : List Byte
  isAdmin : Bool
  uid : Word
  gid : Word

/-- The accounts, oldest first, and the id of the next one. -/
structure AccountStore where
  accounts : List Account
  nextUid : Word

/-- What a call returns, what it prints, and the account that it finds. -/
structure UserAnswer where
  result : Bool
  output : List Byte
  found : Option Account

/-- An account of this name. -/
def Account.named (name : CString) (account : Account) : Bool := account.name == name.toList

/-- The line of an account in the listing. -/
def Account.text (account : Account) : List Byte :=
  chars "  " ++ account.name ++ chars " (UID: " ++ signedText account.uid ++ roleText account.isAdmin

/-- Administrators are in group 0. -/
def groupOf (isAdmin : Bool) : Word := if isAdmin then 0 else 1000

namespace AccountStore

/-- A call that fails and says why. -/
def refuse (store : AccountStore) (message : String) : UserAnswer × AccountStore :=
  (⟨false, chars message, none⟩, store)

/-- A new account comes last, with the next id. -/
def add (store : AccountStore) (name secret : CString) (isAdmin : Bool) : UserAnswer × AccountStore :=
  if 100 ≤ store.accounts.length then store.refuse "Maximum number of users reached.\n"
  else if 32 ≤ name.toList.length then store.refuse "Username too long.\n"
  else if 64 ≤ secret.toList.length then store.refuse "Password too long.\n"
  else if store.accounts.any (Account.named name) then store.refuse "User already exists.\n"
  else
    (⟨true, [], none⟩,
      { accounts := store.accounts ++
          [⟨name.toList, secret.toList, isAdmin, store.nextUid, groupOf isAdmin⟩]
        nextUid := store.nextUid + 1 })

def remove (store : AccountStore) (name : CString) : UserAnswer × AccountStore :=
  (⟨store.accounts.any (Account.named name), [], none⟩,
    { store with accounts := store.accounts.eraseP (Account.named name) })

/-- The account of this name. -/
def get (store : AccountStore) (name : CString) : UserAnswer × AccountStore :=
  (⟨store.accounts.any (Account.named name), [], store.accounts.find? (Account.named name)⟩, store)

/-- Whether there is an account of this name and password. -/
def authenticate (store : AccountStore) (name secret : CString) : UserAnswer × AccountStore :=
  (⟨store.accounts.any fun account => account.named name && account.secret == secret.toList, [], none⟩,
    store)

/-- One line for each account. -/
def list (store : AccountStore) : UserAnswer × AccountStore :=
  (⟨true, chars "Users:\n" ++ joinLines (ascii '\n') (store.accounts.map Account.text), none⟩, store)

end AccountStore

/-- The calls, with those that change nothing. -/
inductive AccountCall where
  | user (call : UserCall)
  | authenticate (name secret : CString)
  | getUser (name : CString)
  | listUsers

/-- Carry out a call on the store. -/
def AccountCall.onStore (store : AccountStore) : AccountCall → UserAnswer × AccountStore
  | .user .userInit =>
    (⟨true, chars "User system initialized.\n", none⟩, { store with accounts := [] })
  | .user (.addUser name secret isAdmin) => store.add name secret isAdmin
  | .user (.removeUser name) => store.remove name
  | .authenticate name secret => store.authenticate name secret
  | .getUser name => store.get name
  | .listUsers => store.list

/-! ## §2 The array stands for a store -/

def User.account (user : User) : Account :=
  ⟨user.name, user.secret, user.isAdmin, user.uid, user.gid⟩

def UserSystem.store (s : UserSystem) : AccountStore := ⟨s.accounts.map User.account, s.nextUid⟩

/-- What a call returns and prints, and the accounts after it. -/
def UserResult.answer (r : UserResult) : UserAnswer × UserSystem :=
  (⟨r.result, r.output, none⟩, r.state)

/-- Carry out a call on the array. `get_user` returns a pointer to the record. -/
def AccountCall.exec (s : UserSystem) : AccountCall → UserAnswer × UserSystem
  | .user call => (call.exec s).answer
  | .authenticate name secret => (⟨authenticateUser s name secret, [], none⟩, s)
  | .getUser name =>
    (⟨(KyroKernel.getUser s name).isSome, [],
      (KyroKernel.getUser s name).map fun i => (s.users i).account⟩, s)
  | .listUsers => (KyroKernel.listUsers s).answer

variable {s : UserSystem} {name secret : CString} {i : Int}

theorem named_account (name : CString) (user : User) :
    user.account.named name = (strcmp user.username name.toList == 0) := by
  rw [Bool.eq_iff_iff, strcmp_username]
  exact beq_iff_eq

/-- A search of the array that succeeds is a search of the store. -/
theorem exists_firstHit_user (h : AccountsInv s) (hfind : findUser s name.toList = some i) :
    ∃ pre post, FirstHit (Account.named name) s.store.accounts pre post (s.users i).account ∧
      (tableList (shiftRows s.users i (s.userCount - 1 - i).toNat) (s.userCount - 1).toNat).map
        User.account = pre ++ post := by
  obtain ⟨pre, post, hrow⟩ := exists_firstRow hfind
  have hnonneg := h.count_nonneg
  have hlt := hrow.lt
  have hlo := hrow.nonneg
  have hfirst : FirstHit (fun user : User => strcmp user.username name.toList == 0) s.accounts pre post
      (s.users i) := ⟨hrow.list, hrow.hit, hrow.before⟩
  refine ⟨_, _, hfirst.map (named_account name), ?_⟩
  rw [hrow.removed (s.userCount - 1) (by omega), List.map_append]

/-- A search that fails. -/
theorem notNamed_of_none (hfind : findUser s name.toList = none) :
    ∀ account ∈ s.store.accounts, ¬ account.named name = true := by
  rw [UserSystem.store, List.forall_mem_map]
  intro user huser hnamed
  rw [named_account, strcmp_username] at hnamed
  exact findUser_none hfind (List.mem_map.mpr ⟨user, huser, hnamed⟩)

/-- The search decides whether there is an account of the name. -/
theorem any_named (h : AccountsInv s) (name : CString) :
    s.store.accounts.any (Account.named name) = (findUser s name.toList).isSome := by
  cases hfind : findUser s name.toList with
  | some i =>
    obtain ⟨pre, post, hfirst, -⟩ := exists_firstHit_user h hfind
    rw [hfirst.list, List.any_append, List.any_cons, hfirst.hit]
    exact Bool.or_true _
  | none => exact List.any_eq_false.mpr (notNamed_of_none hfind)

theorem length_accounts (h : AccountsInv s) : (s.store.accounts.length : Int) = s.userCount := by
  rw [UserSystem.store, List.length_map, UserSystem.accounts, tableList, rowsFrom_length]
  exact Int.toNat_of_nonneg h.count_nonneg

/-! ## §3 The calls -/

/-- The result `r` of a call is the answer `a` of the store. -/
structure UserAnswersAs (r : UserResult) (a : UserAnswer × AccountStore) : Prop where
  result : r.result = a.1.result
  output : r.output = a.1.output
  found : a.1.found = none
  state : r.state.store = a.2

theorem userFail_answersAs (s : UserSystem) {message : String} (hplain : ascii '%' ∉ chars message) :
    UserAnswersAs (userFail s message) (s.store.refuse message) where
  result := rfl
  output := printed_of_plain hplain []
  found := rfl
  state := rfl

theorem addUser_answersAs (h : AccountsInv s) (name secret : CString) (isAdmin : Bool) :
    UserAnswersAs (addUser s name secret isAdmin) (s.store.add name secret isAdmin) := by
  have hlength := length_accounts h
  have hnonneg := h.count_nonneg
  have hfull : s.userCount ≥ maxUsers ↔ 100 ≤ s.store.accounts.length := by
    unfold maxUsers
    omega
  have hname : strlen name.toList ≥ usernameLength ↔ 32 ≤ name.toList.length := by
    rw [strlen_string]
    rfl
  have hsecret : strlen secret.toList ≥ passwordLength ↔ 64 ≤ secret.toList.length := by
    rw [strlen_string]
    rfl
  unfold addUser AccountStore.add
  simp only [hfull, hname, hsecret, any_named h]
  split_ifs with h₁ h₂ h₃ h₄
  · exact userFail_answersAs s (by decide)
  · exact userFail_answersAs s (by decide)
  · exact userFail_answersAs s (by decide)
  · obtain ⟨i, hi⟩ := Option.isSome_iff_exists.mp h₄
    rw [hi]
    exact userFail_answersAs s (by decide)
  · rw [Bool.not_eq_true, Option.isSome_eq_false_iff, Option.isNone_iff_eq_none] at h₄
    rw [h₄]
    refine ⟨rfl, rfl, rfl, ?_⟩
    have happend := tableList_append s.users s.userCount.toNat
      (newUser (s.users s.userCount) name secret isAdmin s.nextUid)
    have hcount : s.userCount.toNat + 1 = (s.userCount + 1).toNat := by omega
    rw [Int.toNat_of_nonneg hnonneg, hcount] at happend
    have haccount : (newUser (s.users s.userCount) name secret isAdmin s.nextUid).account =
        ⟨name.toList, secret.toList, isAdmin, s.nextUid, groupOf isAdmin⟩ := by
      rw [User.account, User.name, User.secret, newUser, cstr_strcpy name.nul_free,
        cstr_strcpy secret.nul_free]
      rfl
    simp only [UserSystem.store, UserSystem.accounts]
    rw [happend, List.map_append, List.map_singleton, haccount]

theorem removeUser_answersAs (h : AccountsInv s) (name : CString) :
    UserAnswersAs (removeUser s name) (s.store.remove name) := by
  unfold removeUser AccountStore.remove
  rw [any_named h]
  cases hfind : findUser s name.toList with
  | some i =>
    obtain ⟨pre, post, hfirst, hremoved⟩ := exists_firstHit_user h hfind
    rw [hfirst.eraseP_eq, ← hremoved]
    exact ⟨rfl, rfl, rfl, rfl⟩
  | none =>
    rw [List.eraseP_of_forall_not (notNamed_of_none hfind)]
    exact ⟨rfl, rfl, rfl, rfl⟩

theorem listUsers_answersAs (s : UserSystem) : UserAnswersAs (listUsers s) s.store.list where
  result := rfl
  output := by
    rw [listUsers_output, AccountStore.list, UserSystem.store, List.map_map]
    rfl
  found := rfl
  state := rfl

theorem userInit_answersAs (s : UserSystem) :
    UserAnswersAs (userInit s)
      (⟨true, chars "User system initialized.\n", none⟩, { s.store with accounts := [] }) where
  result := rfl
  output := by
    simp only [userInit]
    rw [printed_of_plain (by decide)]
  found := rfl
  state := rfl

/-- `authenticate_user` stops at the first account of the name; there is no other. -/
theorem authenticateUser_eq (h : AccountsInv s) (name secret : CString) :
    authenticateUser s name secret =
      s.store.accounts.any fun account => account.named name && account.secret == secret.toList := by
  rw [Bool.eq_iff_iff, authenticateUser_iff h, UserSystem.store, List.any_map, List.any_eq_true]
  refine exists_congr fun user => and_congr_right fun _ => ?_
  rw [Function.comp_apply, Bool.and_eq_true, Account.named, beq_iff_eq, beq_iff_eq]
  rfl

theorem getUser_eq (h : AccountsInv s) (name : CString) :
    (getUser s name).map (fun i => (s.users i).account) =
      s.store.accounts.find? (Account.named name) := by
  unfold getUser
  cases hfind : findUser s name.toList with
  | some i =>
    obtain ⟨pre, post, hfirst, -⟩ := exists_firstHit_user h hfind
    rw [hfirst.find?_eq]
    rfl
  | none =>
    rw [List.find?_eq_none.mpr (notNamed_of_none hfind)]
    rfl

/-- Every call. -/
theorem AccountCall.exec_answersAs (h : AccountsInv s) (call : AccountCall) :
    (call.exec s).1 = (call.onStore s.store).1 ∧ (call.exec s).2.store = (call.onStore s.store).2 := by
  have hanswer {r : UserResult} {a : UserAnswer × AccountStore} (ha : UserAnswersAs r a) :
      r.answer.1 = a.1 ∧ r.answer.2.store = a.2 := by
    obtain ⟨⟨result, output, found⟩, store⟩ := a
    obtain ⟨hresult, houtput, hfound, hstate⟩ := ha
    dsimp only at hresult houtput hfound hstate
    rw [← hresult, ← houtput, hfound, ← hstate]
    exact ⟨rfl, rfl⟩
  cases call with
  | user call =>
    cases call with
    | userInit => exact hanswer (userInit_answersAs s)
    | addUser name secret isAdmin => exact hanswer (addUser_answersAs h name secret isAdmin)
    | removeUser name => exact hanswer (removeUser_answersAs h name)
  | authenticate name secret =>
    simp only [AccountCall.exec, AccountCall.onStore, AccountStore.authenticate,
      authenticateUser_eq h, and_self]
  | getUser name =>
    simp only [AccountCall.exec, AccountCall.onStore, AccountStore.get, getUser_eq h, any_named h,
      and_true]
    rfl
  | listUsers => exact hanswer (listUsers_answersAs s)

/-! ## §4 Sequences of calls -/

theorem accounts_implement_store :
    Implements (fun s (call : AccountCall) => call.exec s) (fun store call => call.onStore store)
      AccountsInv UserSystem.store where
  answer s call h := (call.exec_answersAs h).1
  state s call h := (call.exec_answersAs h).2
  inv s call h := by
    cases call with
    | user call => exact h.exec call
    | authenticate | getUser | listUsers => exact h

/-- From boot on, whatever the calls: the user system gives the answers of the empty store, whose
first id is 1000. -/
theorem userSystem_answers (calls : List AccountCall) :
    answers (fun s (call : AccountCall) => call.exec s) bootUsers calls =
      answers (fun store call => call.onStore store) ⟨[], 1000⟩ calls :=
  accounts_implement_store.answers_eq accountsInv_boot calls

end KyroKernel
