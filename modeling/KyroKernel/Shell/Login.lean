import KyroKernel.Console.LineEcho
import KyroKernel.Users.AccountHistory

/-!
# The login

`login_prompt` of `kernel/login.c` reads a name and a password, shows both while they are typed, and
says whether they are those of an account. `init_users` of `tools/init.c` adds the two accounts that
there are when the kernel calls it.
-/

namespace KyroKernel

open Foundations

/-! ## §1 The prompt -/

/-- The string in a buffer of 64 bytes. -/
def loginString (buffer : Int → Byte) : CString := ⟨bufferString buffer 64, nul_notMem_cstr _⟩

/-- What `login_prompt` does to the screen, what `authenticate_user` has returned, and the input not
read. -/
structure LoginResult where
  screen : List ScreenCall
  granted : Bool
  rest : List Byte

/-- The message at the end. -/
def loginAnswer (granted : Bool) : ScreenCall :=
  if granted then message "Login successful! Welcome to Kyro OS.\n"
  else message "Login failed. Using default access.\n"

/-- `login_prompt`, with buffers that hold anything; `none` while it waits. -/
def loginPrompt (users : UserSystem) (username password : Int → Byte) (input : List Byte) :
    Option LoginResult := do
  let r ← terminalGetLine username 64 input
  let r' ← terminalGetLine password 64 r.rest
  let granted := authenticateUser users (loginString r.buffer) (loginString r'.buffer)
  some
    { screen :=
        message "\n=== Login ===\n" :: message "Username: " :: (putcharCalls r.output ++
          message "Password: " :: (putcharCalls r'.output ++ [loginAnswer granted]))
      granted := granted
      rest := r'.rest }

variable {users : UserSystem} {tr : List (UserSystem × UserCall)} {username password : Int → Byte}
  {input : List Byte} {t : Terminal Byte}

/-- The two lines that readers of 63 characters get. -/
structure TypedLogin (input : List Byte) (name secret : CString) (rest : List Byte) : Prop where
  reads : Reads lineKey 63 [name.toList, secret.toList] input rest

/-- The prompt reads two lines and looks them up. -/
theorem loginPrompt_reads {r : LoginResult} (h : loginPrompt users username password input = some r) :
    ∃ name secret, TypedLogin input name secret r.rest ∧
      r.granted = authenticateUser users name secret := by
  simp only [loginPrompt, Option.bind_eq_bind, Option.bind_eq_some_iff] at h
  obtain ⟨g, hg, g', hg', hr⟩ := h
  cases hr
  have hname := terminalGetLine_eq username (by decide : (1 : Int) ≤ 64) input
  have hsecret := terminalGetLine_eq password (by decide : (1 : Int) ≤ 64) g.rest
  rw [hg] at hname
  rw [hg'] at hsecret
  exact ⟨loginString g.buffer, loginString g'.buffer,
    ⟨.cons hname.symm (.cons hsecret.symm (.nil _))⟩, rfl⟩

/-- It returns when there are two lines. -/
theorem loginPrompt_isSome (users : UserSystem) (username password : Int → Byte)
    {name secret : CString} {rest : List Byte}
    (h : TypedLogin input name secret rest) :
    ∃ r, loginPrompt users username password input = some r ∧
      r.granted = authenticateUser users name secret ∧ r.rest = rest := by
  obtain ⟨⟩ | ⟨hname, ⟨⟩ | ⟨hsecret, ⟨⟩⟩⟩ := h.reads
  obtain ⟨g, hg, hpair⟩ := Option.map_eq_some_iff.mp
    ((terminalGetLine_eq username (by decide : (1 : Int) ≤ 64) input).trans hname)
  obtain ⟨hbuffer, rfl⟩ := Prod.mk.inj hpair
  obtain ⟨g', hg', hpair'⟩ := Option.map_eq_some_iff.mp
    ((terminalGetLine_eq password (by decide : (1 : Int) ≤ 64) g.rest).trans hsecret)
  obtain ⟨hbuffer', rfl⟩ := Prod.mk.inj hpair'
  have hstrings : loginString g.buffer = name ∧ loginString g'.buffer = secret :=
    ⟨CString.ext hbuffer, CString.ext hbuffer'⟩
  refine ⟨_, by simp only [loginPrompt, hg, hg', Option.bind_eq_bind, Option.bind_some]; rfl, ?_, rfl⟩
  rw [hstrings.1, hstrings.2]

/-- The login is granted for the lines that are the name and the password of an account. -/
theorem granted_iff_hasAccount (h : AccountsInv users) (username password : Int → Byte)
    (input : List Byte) :
    (∃ r, loginPrompt users username password input = some r ∧ r.granted = true) ↔
      ∃ name secret rest, TypedLogin input name secret rest ∧ HasAccount users name secret := by
  constructor
  · rintro ⟨r, hr, hgranted⟩
    obtain ⟨name, secret, htyped, hsame⟩ := loginPrompt_reads hr
    rw [hgranted, eq_comm, authenticateUser_iff h] at hsame
    exact ⟨name, secret, r.rest, htyped, hsame⟩
  · rintro ⟨name, secret, rest, htyped, haccount⟩
    obtain ⟨r, hr, hgranted, -⟩ := loginPrompt_isSome users username password htyped
    exact ⟨r, hr, hgranted.trans ((authenticateUser_iff h).mpr haccount)⟩

/-- The login is granted if and only if the two lines typed are a name and a password, and the latest
event about the name is that an account with this password was added. -/
theorem loginPrompt_granted_iff (h : UserRun tr users) (username password : Int → Byte)
    (input : List Byte) :
    (∃ r, loginPrompt users username password input = some r ∧ r.granted = true) ↔
      ∃ name secret rest, TypedLogin input name secret rest ∧
        ∃ isAdmin, latestEvent name tr = some (.addUser name secret isAdmin) := by
  rw [granted_iff_hasAccount (AccountsInv.of_run h)]
  simp only [hasAccount_iff_latestEvent h]

/-! ## §2 The accounts of the kernel -/

/-- The accounts when `kernel_init` calls `init_users`. -/
def afterUserInit : UserSystem := (userInit bootUsers).state

def admin : CString := literal "admin"
def adminPassword : CString := literal "password1"
def user1 : CString := literal "user1"
def user1Password : CString := literal "userpass1"

/-- `init_users`. -/
def initUsers (s : UserSystem) : UserResult :=
  let s := (addUser s admin adminPassword true).state
  let s := (addUser s user1 user1Password false).state
  { result := true
    output := printed (chars "User system initialized with %d users.\n")
      [.word (BitVec.ofInt 32 s.userCount)]
    state := s }

/-- The accounts when `login_prompt` is called. -/
def kernelAccounts : UserSystem := (initUsers afterUserInit).state

/-- The calls that have made them, latest first. -/
def kernelUserCalls : List (UserSystem × UserCall) :=
  [((addUser afterUserInit admin adminPassword true).state, .addUser user1 user1Password false),
    (afterUserInit, .addUser admin adminPassword true), (bootUsers, .userInit)]

theorem userRun_kernel : UserRun kernelUserCalls kernelAccounts :=
  .snoc (.snoc (.snoc (.start rfl) rfl) rfl) rfl

/-- Both calls of `init_users` succeed. -/
theorem initUsers_succeeds : (addUser afterUserInit admin adminPassword true).result = true ∧
    (addUser (addUser afterUserInit admin adminPassword true).state user1 user1Password
      false).result = true := by
  decide

/-- The latest event about a name is its addition, or that there were no accounts. -/
theorem latestEvent_kernel (name : CString) :
    latestEvent name kernelUserCalls = some
      (if user1.toList = name.toList then .addUser user1 user1Password false
        else if admin.toList = name.toList then .addUser admin adminPassword true
        else .userInit) := by
  have hadmin : isEventOf name (afterUserInit, .addUser admin adminPassword true) =
      decide (admin.toList = name.toList) := by
    change (_ && (addUser afterUserInit admin adminPassword true).result) = _
    rw [initUsers_succeeds.1, Bool.and_true, Bool.beq_eq_decide_eq]
  have huser : isEventOf name ((addUser afterUserInit admin adminPassword true).state,
      .addUser user1 user1Password false) = decide (user1.toList = name.toList) := by
    change (_ && (addUser _ user1 user1Password false).result) = _
    rw [initUsers_succeeds.2, Bool.and_true, Bool.beq_eq_decide_eq]
  unfold latestEvent kernelUserCalls
  by_cases h₁ : user1.toList = name.toList
  · rw [List.find?_cons_of_pos (huser.trans (decide_eq_true h₁)), if_pos h₁]
    rfl
  rw [List.find?_cons_of_neg (by rw [huser, decide_eq_false h₁]; exact Bool.false_ne_true),
    if_neg h₁]
  by_cases h₂ : admin.toList = name.toList
  · rw [List.find?_cons_of_pos (hadmin.trans (decide_eq_true h₂)), if_pos h₂]
    rfl
  · rw [List.find?_cons_of_neg (by rw [hadmin, decide_eq_false h₂]; exact Bool.false_ne_true),
      if_neg h₂]
    rfl

/-- A login with the accounts of the kernel. -/
theorem loginPrompt_granted_iff_kernel :
    (∃ r, loginPrompt kernelAccounts (fun _ => 0) (fun _ => 0) (chars "admin\npassword1\n") = some r ∧
        r.granted = true) ↔
      ∃ name secret rest, TypedLogin (chars "admin\npassword1\n") name secret rest ∧
        ∃ isAdmin, latestEvent name kernelUserCalls = some (.addUser name secret isAdmin) :=
  loginPrompt_granted_iff userRun_kernel _ _ _

/-- After `kernel_init`, whatever is typed: the login is granted for two pairs of lines and no others. -/
theorem kernelLogin_granted_iff (username password : Int → Byte) (input : List Byte) :
    (∃ r, loginPrompt kernelAccounts username password input = some r ∧ r.granted = true) ↔
      ∃ rest, TypedLogin input admin adminPassword rest ∨ TypedLogin input user1 user1Password rest := by
  rw [granted_iff_hasAccount (AccountsInv.of_run userRun_kernel)]
  simp only [hasAccount_iff_latestEvent userRun_kernel, latestEvent_kernel]
  constructor
  · rintro ⟨name, secret, rest, htyped, isAdmin, hlatest⟩
    split_ifs at hlatest with h₁ h₂
    · obtain ⟨rfl, rfl, -⟩ := UserCall.addUser.inj (Option.some.inj hlatest)
      exact ⟨rest, .inr htyped⟩
    · obtain ⟨rfl, rfl, -⟩ := UserCall.addUser.inj (Option.some.inj hlatest)
      exact ⟨rest, .inl htyped⟩
    · cases Option.some.inj hlatest
  · have hne : user1.toList ≠ admin.toList := by decide
    rintro ⟨rest, htyped | htyped⟩
    · exact ⟨admin, adminPassword, rest, htyped, true, by rw [if_neg hne, if_pos rfl]⟩
    · exact ⟨user1, user1Password, rest, htyped, false, by rw [if_pos rfl]⟩

/-! ## §3 On the screen -/

/-- While no line comes to 63 characters, the screen shows the name and the password, as they are in
the end. -/
theorem loginPrompt_shows (users : UserSystem) (username password : Int → Byte) {console : Console}
    (hshows : Shows console t) (hbelow : BlankBelow t) (hshort : NeverFills lineKey 63 [] input)
    {name secret : List Byte} {lines : List (List Byte)}
    (hlines : endedLines lineKey input = name :: secret :: lines) :
    ∃ r console', loginPrompt users username password input = some r ∧
      runScreen console r.screen = some console' ∧
      Shows console' (screenTerminal t
        [message "\n=== Login ===\n",
          message "Username: ", lineMessage (edit lineKey name), message "\n",
          message "Password: ", lineMessage (edit lineKey secret), message "\n",
          loginAnswer r.granted]) := by
  obtain ⟨rest, hname, hrest⟩ := exists_splitLine hlines
  obtain ⟨rest', hsecret, -⟩ := exists_splitLine hrest
  obtain ⟨hline, hshort'⟩ := hshort.of_splitLine hname
  obtain ⟨hline', -⟩ := hshort'.of_splitLine hsecret
  obtain ⟨g, hget, rfl, -, houtput⟩ := terminalGetLine_short username
    (by decide : (1 : Int) ≤ 64) hname hline
  obtain ⟨g', hget', rfl, -, houtput'⟩ := terminalGetLine_short password
    (by decide : (1 : Int) ≤ 64) hsecret hline'
  let granted := authenticateUser users (loginString g.buffer) (loginString g'.buffer)
  let screen := [message "\n=== Login ===\n"] ++ ((message "Username: " :: putcharCalls g.output) ++
    ((message "Password: " :: putcharCalls g'.output) ++ [loginAnswer granted]))
  obtain ⟨console', hrun, hshows'⟩ := hshows.runScreen screen
  refine ⟨⟨screen, granted, g'.rest⟩, console', ?_, hrun, ?_⟩
  · simp only [loginPrompt, hget, hget', Option.bind_eq_bind, Option.bind_some]
    rfl
  · -- The two prompts, each at the start of a fresh row.
    have hfresh : FreshRow (screenTerminal t [message "\n=== Login ===\n"]) :=
      freshRow_message hbelow (by decide)
    have hprompts : (∀ c ∈ (literal "Username: ").toList, lineKey c = .text) ∧
        ∀ c ∈ (literal "Password: ").toList, lineKey c = .text := by decide
    obtain ⟨hshown, hfresh₁⟩ := hfresh.promptLine hprompts.1 (by decide)
      (splitLine_spec hname).1 hline
    obtain ⟨hshown', -⟩ := hfresh₁.promptLine hprompts.2 (by decide)
      (splitLine_spec hsecret).1 hline'
    have hterminal : screenTerminal t screen = screenTerminal t
        ([message "\n=== Login ===\n"] ++
          ([message "Username: ", lineMessage (edit lineKey name), message "\n"] ++
            ([message "Password: ", lineMessage (edit lineKey secret), message "\n"] ++
              [loginAnswer granted]))) := by
      simp only [screen, screenTerminal_append, houtput, houtput']
      exact congrArg (screenTerminal · [loginAnswer granted])
        ((congrArg (screenTerminal · _) hshown).trans hshown')
    exact hterminal ▸ hshows'

/-- A password with a typing error. -/
def typedLogin : List Byte := chars "user1\nuserpasx\x08s1\n"

theorem loginPrompt_shows_typed :
    ∃ r console', loginPrompt kernelAccounts (fun _ => 0) (fun _ => 0) typedLogin = some r ∧
      runScreen blankConsole r.screen = some console' ∧
      Shows console' (screenTerminal (Terminal.clear 0x20)
        [message "\n=== Login ===\n",
          message "Username: ", lineMessage (edit lineKey (chars "user1")), message "\n",
          message "Password: ", lineMessage (edit lineKey (chars "userpasx\x08s1")), message "\n",
          loginAnswer r.granted]) :=
  loginPrompt_shows kernelAccounts _ _ shows_blankConsole freshRow_clear.below (by decide)
    (by decide : endedLines lineKey typedLogin = [chars "user1", chars "userpasx\x08s1"])

end KyroKernel
