import KyroKernel.Foundations.Counter
import KyroKernel.Users.AccountHistory

/-!
# User ids

`add_user` takes the next value of a 32-bit counter as the uid. Nothing bounds the number of
successful calls, since accounts can be removed again, so the counter wraps and meets the uid of an
account that is still there.
-/

namespace KyroKernel

open Foundations

/-- A step is a successful `add_user`. -/
def isAddition (p : UserSystem × UserCall) : Bool :=
  match p.2 with
  | .addUser .. => (p.2.exec p.1).result
  | _ => false

/-- The number of successful `add_user` calls. -/
def additions (tr : List (UserSystem × UserCall)) : Nat := tr.countP isAddition

/-- The names of the accounts that the steps leave, each with the number of successful `add_user`
calls before the one that added it. -/
def survivors : List (UserSystem × UserCall) → List (List Byte × Nat)
  | [] => []
  | (s, call) :: tr =>
    if (call.exec s).result then
      match call with
      | .userInit => []
      | .addUser username _ _ => survivors tr ++ [(username.toList, additions tr)]
      | .removeUser username => (survivors tr).filter (·.1 ≠ username.toList)
    else survivors tr

/-- The uids of the accounts in the table. -/
def UserSystem.uids (s : UserSystem) : List Word := s.accounts.map User.uid

/-! ## §1 One step -/

variable {s : UserSystem} {tr : List (UserSystem × UserCall)}

theorem addUser_nextUid (username password : CString) (isAdmin : Bool)
    (h : (addUser s username password isAdmin).result = true) :
    (addUser s username password isAdmin).state.nextUid = s.nextUid + 1 := by
  unfold addUser at h ⊢
  split_ifs at h ⊢ with hfull hlong hlong'
  · cases h
  · cases h
  · cases h
  · cases hfind : findUser s username.toList with
    | some i =>
      rw [hfind] at h
      cases h
    | none => rfl

/-- `add_user` succeeds with a free place, short strings and a new name. -/
theorem addUser_result (h : AccountsInv s) {username password : CString} (isAdmin : Bool)
    (hfree : s.userCount < 100) (hname : username.toList.length < 32)
    (hpass : password.toList.length < 64) (hnew : username.toList ∉ s.accounts.map User.name) :
    (addUser s username password isAdmin).result = true := by
  have hfind : findUser s username.toList = none := by
    cases hfind : findUser s username.toList with
    | none => rfl
    | some i =>
      obtain ⟨-, hi, pre, post, hlist, -⟩ := findUser_some h hfind
      refine absurd ?_ hnew
      rw [hlist, ← hi]
      exact List.mem_map_of_mem (List.mem_append_right _ List.mem_cons_self)
  have hfull : ¬ s.userCount ≥ maxUsers := Int.not_le.mpr hfree
  have hlong : ¬ username.toList.length ≥ usernameLength := Nat.not_le.mpr hname
  have hlong' : ¬ password.toList.length ≥ passwordLength := Nat.not_le.mpr hpass
  unfold addUser
  rw [strlen_string, strlen_string, if_neg hfull, if_neg hlong, if_neg hlong', hfind]

/-! ### The history after a step -/

theorem survivors_of_false {call : UserCall} (hresult : (call.exec s).result = false) :
    survivors ((s, call) :: tr) = survivors tr := by
  have hne : ¬ (call.exec s).result = true := by
    rw [hresult]
    exact Bool.false_ne_true
  exact if_neg hne

theorem additions_of_false {call : UserCall} (hresult : (call.exec s).result = false) :
    additions ((s, call) :: tr) = additions tr := by
  have hadd : isAddition (s, call) = false := by
    cases call <;> first | exact hresult | rfl
  exact List.countP_cons_of_neg (by rw [hadd]; exact Bool.false_ne_true)

theorem survivors_add {username password : CString} {isAdmin : Bool}
    (hresult : (addUser s username password isAdmin).result = true) :
    survivors ((s, .addUser username password isAdmin) :: tr) =
      survivors tr ++ [(username.toList, additions tr)] :=
  if_pos hresult

theorem additions_add {username password : CString} {isAdmin : Bool}
    (hresult : (addUser s username password isAdmin).result = true) :
    additions ((s, .addUser username password isAdmin) :: tr) = additions tr + 1 :=
  List.countP_cons_of_pos hresult

theorem survivors_remove {username : CString} (hresult : (removeUser s username).result = true) :
    survivors ((s, .removeUser username) :: tr) =
      (survivors tr).filter (·.1 ≠ username.toList) :=
  if_pos hresult

/-- Only `add_user` counts. -/
theorem additions_of_not_add {call : UserCall} (h : isAddition (s, call) = false) :
    additions ((s, call) :: tr) = additions tr :=
  List.countP_cons_of_neg (by rw [h]; exact Bool.false_ne_true)

/-! ### The invariant -/

/-- The accounts are the surviving ones, in their order, with the uids that the counter handed out
for them. -/
structure UidInv (tr : List (UserSystem × UserCall)) (s : UserSystem) : Prop where
  accounts : AccountsInv s
  nextUid : s.nextUid = issued 1000 (additions tr)
  ids : s.accounts.map (fun user => (user.name, user.uid)) =
    (survivors tr).map fun e => (e.1, issued 1000 e.2)

theorem uidInv_boot : UidInv [] bootUsers :=
  ⟨accountsInv_boot, (issued_zero 1000).symm, rfl⟩

/-- Taking out the one entry of a name. -/
theorem filter_removed {pre post : List User} {user : User}
    (hgone : user.name ∉ (pre ++ post).map User.name) :
    ((pre ++ user :: post).map fun user => (user.name, user.uid)).filter (·.1 ≠ user.name) =
      (pre ++ post).map fun user => (user.name, user.uid) := by
  have hkeep : ∀ l : List User, (∀ a ∈ l, a ∈ pre ++ post) →
      (l.map fun user => (user.name, user.uid)).filter (·.1 ≠ user.name) =
        l.map fun user => (user.name, user.uid) := by
    intro l hl
    rw [List.filter_eq_self]
    intro e he
    obtain ⟨a, ha, rfl⟩ := List.mem_map.mp he
    have hne : a.name ≠ user.name := fun heq => hgone (heq ▸ List.mem_map_of_mem (hl a ha))
    exact decide_eq_true hne
  rw [List.map_append, List.filter_append, List.map_cons, List.filter_cons_of_neg (by simp),
    hkeep pre fun a ha => List.mem_append_left _ ha,
    hkeep post fun a ha => List.mem_append_right _ ha, List.map_append]

theorem UidInv.step (h : UidInv tr s) (call : UserCall) :
    UidInv ((s, call) :: tr) (call.exec s).state := by
  have hinv := h.accounts.exec call
  cases hresult : (call.exec s).result with
  | false =>
    -- Nothing changes.
    rw [exec_state_of_false h.accounts call hresult]
    refine ⟨h.accounts, ?_, ?_⟩
    · rw [additions_of_false hresult]
      exact h.nextUid
    · rw [survivors_of_false hresult]
      exact h.ids
  | true =>
    cases call with
    | userInit =>
      refine ⟨hinv, ?_, rfl⟩
      rw [additions_of_not_add rfl]
      exact h.nextUid
    | addUser username password isAdmin =>
      rcases addUser_cases h.accounts username password isAdmin with
        ⟨message, hfail⟩ | ⟨-, -, -, user, haccounts, hname, -, -, huid⟩
      · simp [UserCall.exec, hfail, userFail] at hresult
      · refine ⟨hinv, ?_, ?_⟩
        · rw [additions_add hresult, issued_succ]
          exact (addUser_nextUid _ _ _ hresult).trans (congrArg (· + 1) h.nextUid)
        · rw [survivors_add hresult]
          simp only [UserCall.exec, haccounts, List.map_append, List.map_singleton, h.ids, hname,
            huid, h.nextUid]
    | removeUser username =>
      rcases removeUser_cases h.accounts username with
        ⟨hfail, -⟩ | ⟨-, -, hnext, pre, user, post, hlist, hname, haccounts, hgone⟩
      · simp [UserCall.exec, hfail] at hresult
      · refine ⟨hinv, ?_, ?_⟩
        · rw [additions_of_not_add rfl]
          exact hnext.trans h.nextUid
        · rw [← hname] at hgone
          have hfilter := filter_removed hgone
          rw [← hlist, h.ids, List.filter_map, hname] at hfilter
          rw [survivors_remove hresult]
          simp only [UserCall.exec, haccounts]
          exact hfilter.symm

theorem UidInv.names_eq (h : UidInv tr s) :
    s.accounts.map User.name = (survivors tr).map Prod.fst := by
  have hnames := congrArg (List.map Prod.fst) h.ids
  rw [List.map_map, List.map_map] at hnames
  exact hnames

theorem UidInv.uids_eq (h : UidInv tr s) :
    s.uids = ((survivors tr).map Prod.snd).map (issued 1000) := by
  have huids := congrArg (List.map Prod.snd) h.ids
  rw [List.map_map, List.map_map] at huids
  rw [List.map_map]
  exact huids

theorem UidInv.userCount_eq (h : UidInv tr s) : s.userCount = (survivors tr).length := by
  have hlength := congrArg List.length h.names_eq
  rw [List.length_map, List.length_map, UserSystem.accounts, tableList, rowsFrom_length] at hlength
  have hnonneg := h.accounts.count_nonneg
  omega

/-! ## §2 Runs -/

theorem uidInv_run (h : UserRun tr s) : UidInv tr s := by
  induction h with
  | start hinit =>
    obtain rfl := hinit
    exact uidInv_boot
  | @snoc tr s s' call hrun hstep ih =>
    obtain rfl := hstep
    exact ih.step call

/-- The uids of the accounts are distinct exactly when no two of the accounts were added a
multiple of `2 ^ 32` successful `add_user` calls apart. -/
theorem uids_nodup_iff (h : UserRun tr s) :
    s.uids.Nodup ↔ (survivors tr).Pairwise fun e f => ¬ e.2 ≡ f.2 [MOD 2 ^ 32] := by
  rw [(uidInv_run h).uids_eq, nodup_issued_iff, List.pairwise_map]

/-! ## §3 The counter wraps -/

theorem nul_notMem_userA : (0 : Byte) ∉ chars "a" := by decide

/-- The two names of the run that wraps the counter. -/
def userA : CString := ⟨chars "a", nul_notMem_userA⟩
def userB : CString := ⟨chars "b", by decide⟩

/-- A run with `n` successful `add_user` calls that leaves only the account of the first one. -/
structure OnlyFirst (n : Nat) (tr : List (UserSystem × UserCall)) (s : UserSystem) : Prop where
  run : UserRun tr s
  count : additions tr = n
  left : survivors tr = [(userA.toList, 0)]

theorem exists_onlyFirst_one : ∃ tr s, OnlyFirst 1 tr s := by
  have hresult : (addUser bootUsers userA userA false).result = true :=
    addUser_result accountsInv_boot false (by decide) (by decide) (by decide) List.not_mem_nil
  exact ⟨[(bootUsers, .addUser userA userA false)], _, .snoc (.start rfl) rfl,
    additions_add hresult, survivors_add hresult⟩

/-- Another account can be added to the first one. -/
theorem OnlyFirst.add_result {n : Nat} (h : OnlyFirst n tr s) :
    (addUser s userB userB false).result = true := by
  have hinv := uidInv_run h.run
  have hcount := hinv.userCount_eq
  have hnames := hinv.names_eq
  rw [h.left] at hcount hnames
  refine addUser_result hinv.accounts false ?_ (by decide) (by decide) ?_
  · rw [hcount]
    decide
  · rw [hnames]
    decide

/-- It is added and removed again: the counter has moved on. -/
theorem OnlyFirst.next {n : Nat} (h : OnlyFirst n tr s) : ∃ tr' s', OnlyFirst (n + 1) tr' s' := by
  have hadd := h.add_result
  have hrun : UserRun ((s, .addUser userB userB false) :: tr) (addUser s userB userB false).state :=
    h.run.snoc rfl
  have hinv := uidInv_run hrun
  have hleft : survivors ((s, .addUser userB userB false) :: tr) = _ := survivors_add hadd
  rw [h.left] at hleft
  have hnames := hinv.names_eq
  rw [hleft] at hnames
  have hremove : (removeUser (addUser s userB userB false).state userB).result = true := by
    rcases removeUser_cases hinv.accounts userB with ⟨-, hnone⟩ | ⟨htrue, -⟩
    · rw [hnames] at hnone
      exact absurd hnone (by simp)
    · exact htrue
  refine ⟨_, _, hrun.snoc (i := .removeUser userB) rfl, ?_, ?_⟩
  · rw [additions_of_not_add rfl, additions_add hadd, h.count]
  · rw [survivors_remove hremove, hleft]
    rfl

theorem exists_onlyFirst (n : Nat) : ∃ tr s, OnlyFirst (n + 1) tr s := by
  induction n with
  | zero => exact exists_onlyFirst_one
  | succ n ih =>
    obtain ⟨tr, s, h⟩ := ih
    exact h.next

/-- The account `a` stays while `b` is added and removed `2 ^ 32 - 1` times; the next account `b`
gets the uid of `a`. -/
theorem not_forall_uids_nodup : ¬ ∀ (tr : List (UserSystem × UserCall)) (s : UserSystem),
    UserRun tr s → s.uids.Nodup := by
  intro hall
  obtain ⟨tr, s, h⟩ := exists_onlyFirst (2 ^ 32 - 1)
  have hadd := h.add_result
  have hrun : UserRun ((s, .addUser userB userB false) :: tr) (addUser s userB userB false).state :=
    h.run.snoc rfl
  have hnodup := hall _ _ hrun
  rw [(uidInv_run hrun).uids_eq, survivors_add hadd, h.left, h.count] at hnodup
  simp only [List.cons_append, List.nil_append, List.map_cons, List.map_nil,
    List.nodup_cons, List.mem_singleton] at hnodup
  exact hnodup.1 (issued_eq_iff.mpr (by decide))

/-- Two accounts added one after the other have different uids. -/
theorem uids_nodup_iff_pair : ∃ tr s, UserRun tr s ∧ s.uids.length = 2 ∧ s.uids.Nodup := by
  obtain ⟨tr, s, h⟩ := exists_onlyFirst_one
  have hadd := h.add_result
  have hrun : UserRun ((s, .addUser userB userB false) :: tr) (addUser s userB userB false).state :=
    h.run.snoc rfl
  have hleft : survivors ((s, .addUser userB userB false) :: tr) = _ := survivors_add hadd
  rw [h.left, h.count] at hleft
  refine ⟨_, _, hrun, ?_, (uids_nodup_iff hrun).mpr ?_⟩
  · rw [(uidInv_run hrun).uids_eq, hleft]
    rfl
  · rw [hleft]
    decide

end KyroKernel
