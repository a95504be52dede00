import Mathlib.Data.List.Nodup
import KyroKernel.Foundations.Run
import KyroKernel.Users.Accounts

/-!
# Authentication reflects the account history

`authenticate_user` stops at the first account of a name. Names are unique, since `add_user` looks
for the name first, so the account found is the one that the latest event about the name left
there, with the password of that event.
-/

namespace KyroKernel

open Foundations

/-! ## §1 Events -/

/-- A step is an event about the name `u`: it empties the table, or it succeeds in adding or
removing `u`. -/
def isEventOf (u : CString) (p : UserSystem × UserCall) : Bool :=
  match p.2 with
  | .userInit => true
  | .addUser username _ _ => username.toList == u.toList && (p.2.exec p.1).result
  | .removeUser username => username.toList == u.toList && (p.2.exec p.1).result

/-- The latest event about the name `u`, in steps that are listed latest first. -/
def latestEvent (u : CString) (tr : List (UserSystem × UserCall)) : Option UserCall :=
  (tr.find? (isEventOf u)).map Prod.snd

/-- There is an account of this name and password. -/
def HasAccount (s : UserSystem) (u p : CString) : Prop :=
  ∃ user ∈ s.accounts, user.name = u.toList ∧ user.secret = p.toList

variable {s : UserSystem} {u p : CString} {i : Int} {tr : List (UserSystem × UserCall)}

theorem latestEvent_of_event {call : UserCall} (h : isEventOf u (s, call) = true) :
    latestEvent u ((s, call) :: tr) = some call := by
  rw [latestEvent, List.find?_cons_of_pos h]
  rfl

theorem latestEvent_of_not_event {call : UserCall} (h : isEventOf u (s, call) = false) :
    latestEvent u ((s, call) :: tr) = latestEvent u tr := by
  rw [latestEvent, List.find?_cons_of_neg (by rw [h]; exact Bool.false_ne_true)]
  rfl

/-! ## §2 The invariant -/

/-- The fields have their sizes, and a NUL in each. -/
structure UserOk (user : User) : Prop where
  username_length : user.username.length = usernameLength
  password_length : user.password.length = passwordLength
  username_terminated : Terminated user.username
  password_terminated : Terminated user.password

/-- The invariant of the accounts: the count is in range, every record of the array is fine, and
no name is used twice. -/
structure AccountsInv (s : UserSystem) : Prop where
  count_nonneg : 0 ≤ s.userCount
  count_le : s.userCount ≤ 100
  records : ∀ i, UserOk (s.users i)
  names_nodup : (s.accounts.map User.name).Nodup

theorem accountsInv_boot : AccountsInv bootUsers where
  count_nonneg := Int.le_refl _
  count_le := by decide
  records := fun _ =>
    ⟨List.length_replicate, List.length_replicate, List.mem_replicate.mpr ⟨by decide, rfl⟩,
      List.mem_replicate.mpr ⟨by decide, rfl⟩⟩
  names_nodup := List.nodup_nil

/-! ## §3 Searches -/

theorem strcmp_username (user : User) (u : CString) :
    (strcmp user.username u.toList == 0) = true ↔ user.name = u.toList :=
  strcmp_string user.username u

/-- A search that fails: nobody has this name. -/
theorem findUser_none (hfind : findUser s u.toList = none) :
    u.toList ∉ s.accounts.map User.name := by
  intro hmem
  obtain ⟨user, huser, hname⟩ := List.mem_map.mp hmem
  have := findRow_none hfind user huser
  rw [(strcmp_username _ _).mpr hname] at this
  cases this

/-- A search that succeeds: it splits the list at the account of this name, and shifting the
later records down takes that account out. -/
theorem findUser_some (h : AccountsInv s) (hfind : findUser s u.toList = some i) :
    0 < s.userCount ∧ (s.users i).name = u.toList ∧
      ∃ pre post, s.accounts = pre ++ s.users i :: post ∧
        tableList (shiftRows s.users i (s.userCount - 1 - i).toNat) (s.userCount - 1).toNat =
          pre ++ post := by
  obtain ⟨pre, post, hrow⟩ := exists_firstRow hfind
  have hnonneg := h.count_nonneg
  have hlt := hrow.lt
  have hlo := hrow.nonneg
  refine ⟨by omega, (strcmp_username _ _).mp hrow.hit, pre, post, hrow.list, ?_⟩
  exact hrow.removed (s.userCount - 1) (by omega)

/-- Two accounts of one name are one account. -/
theorem AccountsInv.eq_of_name (h : AccountsInv s) {a b : User} (ha : a ∈ s.accounts)
    (hb : b ∈ s.accounts) (hname : a.name = b.name) : a = b :=
  List.inj_on_of_nodup_map h.names_nodup ha hb hname

/-- `authenticate_user` decides whether there is an account of this name and password. -/
theorem authenticateUser_iff (h : AccountsInv s) :
    authenticateUser s u p = true ↔ HasAccount s u p := by
  unfold authenticateUser
  cases hfind : findUser s u.toList with
  | none =>
    -- Nobody has this name: false, and there is no such account.
    constructor
    · exact fun hfalse => nomatch hfalse
    · rintro ⟨user, huser, hname, -⟩
      exact absurd (hname ▸ List.mem_map_of_mem huser) (findUser_none hfind)
  | some i =>
    obtain ⟨-, hname, pre, post, hlist, -⟩ := findUser_some h hfind
    have hmem : s.users i ∈ s.accounts := by
      rw [hlist]
      exact List.mem_append_right _ List.mem_cons_self
    have hpass : (strcmp (s.users i).password p.toList == 0) = true ↔
        (s.users i).secret = p.toList := strcmp_string _ p
    rw [hpass]
    constructor
    · intro hsecret
      exact ⟨s.users i, hmem, hname, hsecret⟩
    · rintro ⟨user, huser, huname, hsecret⟩
      -- The account is the one the search stops at.
      rw [h.eq_of_name hmem huser (hname.trans huname.symm)]
      exact hsecret

/-- `get_user` finds an account exactly when there is one of this name. -/
theorem getUser_isSome_iff (h : AccountsInv s) :
    (getUser s u).isSome = true ↔ u.toList ∈ s.accounts.map User.name := by
  unfold getUser
  cases hfind : findUser s u.toList with
  | none =>
    constructor
    · exact fun hfalse => nomatch hfalse
    · exact fun hmem => absurd hmem (findUser_none hfind)
  | some i =>
    obtain ⟨-, hname, pre, post, hlist, -⟩ := findUser_some h hfind
    constructor
    · rintro -
      rw [hlist, ← hname]
      exact List.mem_map_of_mem (List.mem_append_right _ List.mem_cons_self)
    · exact fun _ => rfl

/-! ## §4 The calls -/

/-- `add_user` fails without a trace, or appends an account of a new name. -/
theorem addUser_cases (h : AccountsInv s) (username password : CString) (isAdmin : Bool) :
    (∃ message, addUser s username password isAdmin = userFail s message) ∨
    ((addUser s username password isAdmin).result = true ∧
      AccountsInv (addUser s username password isAdmin).state ∧
      username.toList ∉ s.accounts.map User.name ∧
      ∃ user : User,
        (addUser s username password isAdmin).state.accounts = s.accounts ++ [user] ∧
        user.name = username.toList ∧ user.secret = password.toList ∧
        user.isAdmin = isAdmin ∧ user.uid = s.nextUid) := by
  unfold addUser
  rw [strlen_string, strlen_string]
  -- The four checks, in their order.
  by_cases hfull : s.userCount ≥ maxUsers
  · exact .inl ⟨_, if_pos hfull⟩
  by_cases hlong : username.toList.length ≥ usernameLength
  · left
    rw [if_neg hfull, if_pos hlong]
    exact ⟨_, rfl⟩
  by_cases hlong' : password.toList.length ≥ passwordLength
  · left
    rw [if_neg hfull, if_neg hlong, if_pos hlong']
    exact ⟨_, rfl⟩
  cases hfind : findUser s username.toList with
  | some i =>
    left
    rw [if_neg hfull, if_neg hlong, if_neg hlong']
    exact ⟨_, rfl⟩
  | none =>
    right
    rw [if_neg hfull, if_neg hlong, if_neg hlong']
    have hlt : s.userCount < 100 := Int.not_le.mp hfull
    have hnonneg := h.count_nonneg
    have hfresh := findUser_none hfind
    obtain ⟨hname, hpass, -, -⟩ := h.records s.userCount
    -- The record that goes into the first free place.
    have hok : UserOk (newUser (s.users s.userCount) username password isAdmin s.nextUid) :=
      { username_length := by
          rw [newUser, strcpy_length username.nul_free (by rw [hname]; omega), hname]
        password_length := by
          rw [newUser, strcpy_length password.nul_free (by rw [hpass]; omega), hpass]
        username_terminated := terminated_strcpy username.nul_free _
        password_terminated := terminated_strcpy password.nul_free _ }
    have happend := tableList_append s.users s.userCount.toNat
      (newUser (s.users s.userCount) username password isAdmin s.nextUid)
    have hcount : s.userCount.toNat + 1 = (s.userCount + 1).toNat := by omega
    rw [Int.toNat_of_nonneg hnonneg, hcount] at happend
    have hnew : (newUser (s.users s.userCount) username password isAdmin s.nextUid).name =
        username.toList := cstr_strcpy username.nul_free _
    refine ⟨rfl, ⟨by simp only; omega, by simp only; omega, ?_, ?_⟩, hfresh, _, happend, hnew,
      cstr_strcpy password.nul_free _, rfl, rfl⟩
    · -- Only the record at `user_count` is new.
      intro j
      by_cases hj : j = s.userCount
      · simp only [hj, Function.update_self]
        exact hok
      · simp only [Function.update_of_ne hj]
        exact h.records j
    · simp only [UserSystem.accounts]
      rw [happend, List.map_append, List.map_singleton, hnew, ← List.concat_eq_append,
        List.nodup_concat]
      exact ⟨hfresh, h.names_nodup⟩

/-- `remove_user` fails without a trace, or takes out the one account of the name. -/
theorem removeUser_cases (h : AccountsInv s) (username : CString) :
    (removeUser s username = ⟨false, [], s⟩ ∧ username.toList ∉ s.accounts.map User.name) ∨
    ((removeUser s username).result = true ∧ AccountsInv (removeUser s username).state ∧
      (removeUser s username).state.nextUid = s.nextUid ∧
      ∃ pre user post, s.accounts = pre ++ user :: post ∧ user.name = username.toList ∧
        (removeUser s username).state.accounts = pre ++ post ∧
        username.toList ∉ (pre ++ post).map User.name) := by
  unfold removeUser
  cases hfind : findUser s username.toList with
  | none => exact .inl ⟨rfl, findUser_none hfind⟩
  | some i =>
    right
    obtain ⟨hpos, hname, pre, post, hlist, hremoved⟩ := findUser_some h hfind
    -- The names are distinct, so the name is gone with its account.
    have hnodup := h.names_nodup
    rw [hlist, List.map_append, List.map_cons, List.nodup_middle, ← List.map_append, hname] at hnodup
    obtain ⟨hgone, hrest⟩ := List.nodup_cons.mp hnodup
    have hcount := h.count_le
    refine ⟨rfl, ⟨by simp only; omega, by simp only; omega, ?_, ?_⟩, rfl, pre, s.users i, post,
      hlist, hname, hremoved, hgone⟩
    · intro j
      simp only [shiftRows_apply]
      split
      · exact h.records (j + 1)
      · exact h.records j
    · simp only [UserSystem.accounts]
      rw [hremoved]
      exact hrest

/-- Every call keeps the invariant. -/
theorem AccountsInv.exec (h : AccountsInv s) (call : UserCall) : AccountsInv (call.exec s).state := by
  cases call with
  | userInit => exact ⟨Int.le_refl _, Int.natCast_nonneg 100, h.records, List.nodup_nil⟩
  | addUser username password isAdmin =>
    rcases addUser_cases h username password isAdmin with ⟨message, hfail⟩ | ⟨-, hinv, -⟩
    · simp only [UserCall.exec, hfail]
      exact h
    · exact hinv
  | removeUser username =>
    rcases removeUser_cases h username with ⟨hfail, -⟩ | ⟨-, hinv, -⟩
    · simp only [UserCall.exec, hfail]
      exact h
    · exact hinv

/-- A call that returns false changes nothing. -/
theorem exec_state_of_false (h : AccountsInv s) (call : UserCall)
    (hresult : (call.exec s).result = false) : (call.exec s).state = s := by
  cases call with
  | userInit => cases hresult
  | addUser username password isAdmin =>
    rcases addUser_cases h username password isAdmin with ⟨message, hfail⟩ | ⟨htrue, -⟩
    · simp only [UserCall.exec, hfail]
      rfl
    · exact absurd hresult (by simp [UserCall.exec, htrue])
  | removeUser username =>
    rcases removeUser_cases h username with ⟨hfail, -⟩ | ⟨htrue, -⟩
    · simp only [UserCall.exec, hfail]
    · exact absurd hresult (by simp [UserCall.exec, htrue])

/-! ## §5 Accounts and events -/

/-- An event about a name leaves exactly the account it adds. -/
theorem hasAccount_event (h : AccountsInv s) {call : UserCall} (hevent : isEventOf u (s, call) = true) :
    HasAccount (call.exec s).state u p ↔ ∃ isAdmin, call = .addUser u p isAdmin := by
  cases call with
  | userInit =>
    -- No account is left.
    constructor
    · rintro ⟨user, huser, -⟩
      exact absurd huser List.not_mem_nil
    · rintro ⟨isAdmin, hcall⟩
      cases hcall
  | addUser username password isAdmin =>
    obtain ⟨hname, hresult⟩ := Bool.and_eq_true_iff.mp hevent
    obtain rfl : username = u := CString.ext (beq_iff_eq.mp hname)
    rcases addUser_cases h username password isAdmin with
      ⟨message, hfail⟩ | ⟨-, -, hfresh, user, haccounts, huser, hsecret, -⟩
    · simp [UserCall.exec, hfail, userFail] at hresult
    · -- No older account has this name, so only the new one counts.
      have hiff : HasAccount (UserCall.exec s (.addUser username password isAdmin)).state username p ↔
          password.toList = p.toList := by
        simp only [HasAccount, UserCall.exec, haccounts]
        constructor
        · rintro ⟨user', hmem, hname', hsecret'⟩
          rcases List.mem_append.mp hmem with hold | hnew
          · exact absurd (hname' ▸ List.mem_map_of_mem hold) hfresh
          · rw [List.mem_singleton.mp hnew] at hsecret'
            exact hsecret.symm.trans hsecret'
        · intro hpass
          exact ⟨user, List.mem_append_right _ List.mem_cons_self, huser, hsecret.trans hpass⟩
      rw [hiff]
      constructor
      · intro hpass
        exact ⟨isAdmin, by rw [CString.ext hpass]⟩
      · rintro ⟨isAdmin', hcall⟩
        rw [(UserCall.addUser.inj hcall).2.1]
  | removeUser username =>
    obtain ⟨hname, hresult⟩ := Bool.and_eq_true_iff.mp hevent
    obtain rfl : username = u := CString.ext (beq_iff_eq.mp hname)
    rcases removeUser_cases h username with
      ⟨hfail, -⟩ | ⟨-, -, -, pre, user, post, -, -, haccounts, hgone⟩
    · simp [UserCall.exec, hfail] at hresult
    · -- No other account has this name.
      constructor
      · rintro ⟨user', hmem, hname', -⟩
        simp only [UserCall.exec, haccounts] at hmem
        exact absurd (hname' ▸ List.mem_map_of_mem hmem) hgone
      · rintro ⟨isAdmin, hcall⟩
        cases hcall

/-- Any other step leaves the accounts of the name alone. -/
theorem hasAccount_not_event (h : AccountsInv s) {call : UserCall}
    (hevent : isEventOf u (s, call) = false) :
    HasAccount (call.exec s).state u p ↔ HasAccount s u p := by
  cases call with
  | userInit => cases hevent
  | addUser username password isAdmin =>
    rcases addUser_cases h username password isAdmin with
      ⟨message, hfail⟩ | ⟨hresult, -, -, user, haccounts, huser, -⟩
    · simp only [UserCall.exec, hfail]
      exact Iff.rfl
    · -- The new account has another name.
      have hother : user.name ≠ u.toList := by
        rw [huser]
        intro hname
        simp [isEventOf, UserCall.exec, hresult, hname] at hevent
      simp only [HasAccount, UserCall.exec, haccounts]
      constructor
      · rintro ⟨user', hmem, hname, hsecret⟩
        rcases List.mem_append.mp hmem with hold | hnew
        · exact ⟨user', hold, hname, hsecret⟩
        · exact absurd (List.mem_singleton.mp hnew ▸ hname) hother
      · rintro ⟨user', hmem, hboth⟩
        exact ⟨user', List.mem_append_left _ hmem, hboth⟩
  | removeUser username =>
    rcases removeUser_cases h username with
      ⟨hfail, -⟩ | ⟨hresult, -, -, pre, user, post, hlist, huser, haccounts, -⟩
    · simp only [UserCall.exec, hfail]
    · -- The account taken out has another name.
      have hother : user.name ≠ u.toList := by
        rw [huser]
        intro hname
        simp [isEventOf, UserCall.exec, hresult, hname] at hevent
      simp only [HasAccount, UserCall.exec, haccounts, hlist]
      constructor
      · rintro ⟨user', hmem, hboth⟩
        refine ⟨user', ?_, hboth⟩
        rcases List.mem_append.mp hmem with hpre | hpost
        · exact List.mem_append_left _ hpre
        · exact List.mem_append_right _ (List.mem_cons_of_mem _ hpost)
      · rintro ⟨user', hmem, hname, hsecret⟩
        refine ⟨user', ?_, hname, hsecret⟩
        rcases List.mem_append.mp hmem with hpre | hpost
        · exact List.mem_append_left _ hpre
        · rcases List.mem_cons.mp hpost with rfl | hpost
          · exact absurd hname hother
          · exact List.mem_append_right _ hpost

/-! ## §6 Runs -/

/-- The runs of calls from the boot state. -/
abbrev UserRun (tr : List (UserSystem × UserCall)) (s : UserSystem) : Prop :=
  Run (· = bootUsers) UserStep tr s

theorem AccountsInv.of_run (h : UserRun tr s) : AccountsInv s := by
  apply Run.inv AccountsInv ?_ ?_ h
  · rintro _ rfl
    exact accountsInv_boot
  · rintro s call _ hs rfl
    exact hs.exec call

/-- The accounts of a name are what its latest event left. -/
theorem hasAccount_iff_latestEvent (h : UserRun tr s) (u p : CString) :
    HasAccount s u p ↔ ∃ isAdmin, latestEvent u tr = some (.addUser u p isAdmin) := by
  -- Over the run: an event decides the account, any other step leaves it.
  induction h with
  | start hinit =>
    obtain rfl := hinit
    constructor
    · rintro ⟨user, huser, -⟩
      exact absurd huser List.not_mem_nil
    · rintro ⟨isAdmin, hnone⟩
      cases hnone
  | @snoc tr s s' call hrun hstep ih =>
    obtain rfl := hstep
    have hinv := AccountsInv.of_run hrun
    cases hevent : isEventOf u (s, call) with
    | true =>
      rw [latestEvent_of_event hevent, hasAccount_event hinv hevent]
      simp only [Option.some.injEq]
    | false =>
      rw [latestEvent_of_not_event hevent, hasAccount_not_event hinv hevent]
      exact ih

/-- What the accounts are after a run. -/
structure AccountsReflect (tr : List (UserSystem × UserCall)) (s : UserSystem) : Prop where
  authenticate : ∀ u p, authenticateUser s u p = true ↔
    ∃ isAdmin, latestEvent u tr = some (.addUser u p isAdmin)
  names_distinct : (s.accounts.map User.name).Nodup
  count_range : 0 ≤ s.userCount ∧ s.userCount ≤ 100
  accounts_length : s.accounts.length = s.userCount.toNat
  /-- The strings end inside their fields. -/
  fields : ∀ user ∈ s.accounts, UserOk user
  /-- `get_user` finds the names that `authenticate_user` knows. -/
  get : ∀ u, (getUser s u).isSome = true ↔ u.toList ∈ s.accounts.map User.name
  /-- A successful `remove_user` takes out the account of the name and keeps the other records in
  their order. -/
  remove : ∀ u, (removeUser s u).result = true → ∃ pre user post,
    s.accounts = pre ++ user :: post ∧ user.name = u.toList ∧
      (removeUser s u).state.accounts = pre ++ post
  /-- A call that returns false changes nothing: no record, not the count, not the next id. -/
  unchanged : ∀ call : UserCall, (call.exec s).result = false → (call.exec s).state = s

/-- After every run of `user_init`, `add_user` and `remove_user`, authentication is decided by
the latest event about the name, names are distinct, removal is exact and failure is clean. -/
theorem accounts_reflect_history (h : UserRun tr s) : AccountsReflect tr s := by
  have hinv := AccountsInv.of_run h
  exact
    { authenticate := by
        intro u p
        rw [authenticateUser_iff hinv]
        exact hasAccount_iff_latestEvent h u p
      names_distinct := hinv.names_nodup
      count_range := ⟨hinv.count_nonneg, hinv.count_le⟩
      accounts_length := rowsFrom_length _ _ _
      fields := by
        intro user huser
        obtain ⟨j, -, -, rfl⟩ := mem_rowsFrom.mp huser
        exact hinv.records j
      get := fun u => getUser_isSome_iff hinv
      remove := by
        intro u hresult
        rcases removeUser_cases hinv u with
          ⟨hfail, -⟩ | ⟨-, -, -, pre, user, post, hlist, hname, haccounts, -⟩
        · rw [hfail] at hresult
          cases hresult
        · exact ⟨pre, user, post, hlist, hname, haccounts⟩
      unchanged := exec_state_of_false hinv }

/-- A name and a password. -/
def root : CString := ⟨chars "root", by decide⟩

/-- One account is added after `user_init`. -/
theorem accounts_reflect_history_root :
    AccountsReflect
      [((UserCall.userInit).exec bootUsers |>.state, .addUser root root true),
        (bootUsers, .userInit)]
      (UserCall.exec ((UserCall.userInit).exec bootUsers).state (.addUser root root true)).state :=
  accounts_reflect_history (.snoc (.snoc (.start rfl) rfl) rfl)

end KyroKernel
