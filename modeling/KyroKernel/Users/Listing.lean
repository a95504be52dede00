import KyroKernel.Console.FormatTexts
import KyroKernel.Console.Numbers
import KyroKernel.Foundations.Lines
import KyroKernel.Users.Accounts

/-!
# The listing of users

`list_users` prints a line for every account, with its name, its uid and whether it is an
administrator. A line is read from its end, where the name cannot get in the way, so the accounts can
be told from the listing unless a name has a newline in it.
-/

namespace KyroKernel

open Foundations

/-- The string in the field `username`. -/
def User.nameCString (user : User) : CString := ⟨user.name, nul_notMem_cstr _⟩

/-- What `list_users` prints for an account. -/
def userLine (user : User) : List Byte :=
  printed (chars "  %s (UID: %d, %s)\n")
    [.string (some user.nameCString), .word user.uid,
      .string (some (if user.isAdmin then ⟨chars "admin", by decide⟩ else ⟨chars "user", by decide⟩))]

/-- `list_users`; it returns nothing. -/
def listUsers (s : UserSystem) : UserResult :=
  ⟨true, printed (chars "Users:\n") [] ++ printRows userLine s.users 0 s.userCount.toNat, s⟩

/-! ## Reading it -/

/-- An account in a listing: its name, its uid and whether it is an administrator. -/
structure ListedUser where
  name : List Byte
  uid : Int
  isAdmin : Bool
  deriving DecidableEq

/-- What is listed of an account. -/
def User.listed (user : User) : ListedUser := ⟨user.name, user.uid.toInt, user.isAdmin⟩

/-- What follows the uid. -/
def roleText (isAdmin : Bool) : List Byte := if isAdmin then chars ", admin)" else chars ", user)"

/-- Read the end of a line, from the right. -/
def readRole (reversed : List Byte) : Option (Bool × List Byte) :=
  match (roleText true).reverse.isPrefixOf? reversed with
  | some rest => some (true, rest)
  | none => ((roleText false).reverse.isPrefixOf? reversed).map (false, ·)

/-- Read a line, from the right: no uid has a blank in it. -/
def readUserLine (line : List Byte) : Option ListedUser := do
  let (isAdmin, reversed) ← readRole line.reverse
  let uid ← readInteger 10 (reversed.takeWhile (· ≠ ascii ' ')).reverse
  let name ← (chars " (UID: ").reverse.isPrefixOf? (reversed.dropWhile (· ≠ ascii ' '))
  let name ← (chars "  ").isPrefixOf? name.reverse
  some ⟨name, uid, isAdmin⟩

/-- The users in a listing. -/
def readUsers (text : List Byte) : Option (List ListedUser) :=
  ((chars "Users:\n").isPrefixOf? text).bind (readLines (ascii '\n') readUserLine)

/-! ## The lines -/

/-- The text of a line without its end. -/
def userText (user : User) : List Byte :=
  chars "  " ++ user.name ++ chars " (UID: " ++ signedText user.uid ++ roleText user.isAdmin

theorem userLine_eq (user : User) : userLine user = userText user ++ [ascii '\n'] := by
  have hformat : chars "  %s (UID: %d, %s)\n" =
      chars "  " ++ ascii '%' :: ascii 's' :: (chars " (UID: " ++ ascii '%' :: ascii 'd' ::
        (chars ", " ++ ascii '%' :: ascii 's' :: (chars ")\n" ++ []))) := rfl
  have htext (role : CString) :
      printed (chars "  %s (UID: %d, %s)\n") [.string (some user.nameCString), .word user.uid,
        .string (some role)] =
        chars "  " ++ (user.name ++ (chars " (UID: " ++ (signedText user.uid ++
          (chars ", " ++ (role.toList ++ (chars ")\n" ++ [])))))) := by
    rw [hformat]
    exact (((((((Formats.nil []).chars (by decide)).conversion (.string role [])).chars
      (by decide)).conversion (.signed (by decide) user.uid _)).chars
      (by decide)).conversion (.string user.nameCString _) |>.chars (by decide)).printed_eq
  rw [userLine, htext, userText]
  simp only [List.append_assoc]
  cases user.isAdmin <;> rfl

/-- A number has no blank and no newline in it. -/
theorem digitChar_ne {d : Nat} (hd : d < 16) :
    digitChar d ≠ ascii ' ' ∧ digitChar d ≠ ascii '\n' := by
  have hall : ∀ d < 16, digitChar d ≠ ascii ' ' ∧ digitChar d ≠ ascii '\n' := by decide
  exact hall d hd

theorem forall_mem_numeral {base : Nat} (hlo : 2 ≤ base) (hhi : base ≤ 16) (n : Nat) {c : Byte}
    (hc : c ∈ numeral base n) : ∃ d < 16, c = digitChar d := by
  unfold numeral at hc
  split at hc
  · exact ⟨0, by decide, List.mem_singleton.mp hc⟩
  · rw [List.mem_reverse, List.mem_map] at hc
    obtain ⟨d, hd, rfl⟩ := hc
    exact ⟨d, Nat.lt_of_lt_of_le (Nat.digits_lt_base hlo hd) hhi, rfl⟩

theorem ne_of_mem_signedText (n : Word) {c : Byte} (hc : c ∈ signedText n) :
    c ≠ ascii ' ' ∧ c ≠ ascii '\n' := by
  have hnumeral {k : Nat} (hc : c ∈ numeral 10 k) : c ≠ ascii ' ' ∧ c ≠ ascii '\n' := by
    obtain ⟨d, hd, rfl⟩ := forall_mem_numeral (by decide) (by decide) k hc
    exact digitChar_ne hd
  unfold signedText at hc
  split at hc
  · rcases List.mem_cons.mp hc with rfl | hrest
    · decide
    · exact hnumeral hrest
  · exact hnumeral hc

theorem readRole_reverse (isAdmin : Bool) (rest : List Byte) :
    readRole ((roleText isAdmin).reverse ++ rest) = some (isAdmin, rest) := by
  cases isAdmin <;> rfl

/-- Every line is read back, whatever the name. -/
theorem readUserLine_userText (user : User) : readUserLine (userText user) = some user.listed := by
  have hreverse : (userText user).reverse = (roleText user.isAdmin).reverse ++
      ((signedText user.uid).reverse ++ ((chars " (UID: ").reverse ++
        (chars "  " ++ user.name).reverse)) := by
    simp only [userText, List.reverse_append, List.append_assoc]
  have hdigits : ∀ c ∈ (signedText user.uid).reverse, decide (c ≠ ascii ' ') = true := fun c hc =>
    decide_eq_true (ne_of_mem_signedText _ (List.mem_reverse.mp hc)).1
  have hblank (rest : List Byte) : (chars " (UID: ").reverse ++ rest =
      ascii ' ' :: ((chars " (UID:").reverse ++ rest) := rfl
  have htake : ((signedText user.uid).reverse ++ ((chars " (UID: ").reverse ++
      (chars "  " ++ user.name).reverse)).takeWhile (· ≠ ascii ' ') =
        (signedText user.uid).reverse := by
    rw [List.takeWhile_append_of_pos hdigits, hblank,
      List.takeWhile_cons_of_neg (by decide), List.append_nil]
  have hdrop : ((signedText user.uid).reverse ++ ((chars " (UID: ").reverse ++
      (chars "  " ++ user.name).reverse)).dropWhile (· ≠ ascii ' ') =
        (chars " (UID: ").reverse ++ (chars "  " ++ user.name).reverse := by
    rw [List.dropWhile_append_of_pos hdigits, hblank, List.dropWhile_cons_of_neg (by decide)]
  have hstrip (rest : List Byte) :
      (chars " (UID: ").reverse.isPrefixOf? ((chars " (UID: ").reverse ++ rest) = some rest := rfl
  have hindent : (chars "  ").isPrefixOf? (chars "  " ++ user.name) = some user.name := rfl
  simp only [readUserLine, hreverse, readRole_reverse, Option.bind_eq_bind, Option.bind_some,
    htake, hdrop, List.reverse_reverse, readInteger_signedText, hstrip, hindent]
  rfl

theorem newline_mem_userText (user : User) :
    ascii '\n' ∈ userText user ↔ ascii '\n' ∈ user.name := by
  have hrole : ascii '\n' ∉ roleText user.isAdmin := by cases user.isAdmin <;> decide
  have hdigits : ascii '\n' ∉ signedText user.uid := fun h => (ne_of_mem_signedText _ h).2 rfl
  have hblanks : ascii '\n' ∉ chars "  " := by decide
  have huid : ascii '\n' ∉ chars " (UID: " := by decide
  simp only [userText, List.mem_append, hrole, hdigits, hblanks, huid, or_false, false_or]

/-- The lines after the first. -/
theorem listUsers_output (s : UserSystem) :
    (listUsers s).output =
      chars "Users:\n" ++ joinLines (ascii '\n') (s.accounts.map userText) := by
  have hlines : userLine = fun user => userText user ++ [ascii '\n'] := funext userLine_eq
  simp only [listUsers]
  rw [printed_of_plain (by decide), printRows_eq, joinLines, List.flatMap_map, hlines]
  rfl

/-- The accounts can be read from the listing, with their names, their uids as signed numbers, which
are administrators, and their order, exactly when no name has a newline in it. -/
theorem readUsers_listUsers_iff (s : UserSystem) :
    readUsers (listUsers s).output = some (s.accounts.map User.listed) ↔
      ∀ user ∈ s.accounts, ascii '\n' ∉ user.name := by
  have hheading (rest : List Byte) : (chars "Users:\n").isPrefixOf? (chars "Users:\n" ++ rest) =
      some rest := rfl
  rw [readUsers, listUsers_output, hheading, Option.bind_some, readLines_joinLines_iff]
  refine forall₂_congr fun user _ => ?_
  rw [newline_mem_userText, and_iff_left (readUserLine_userText user)]

end KyroKernel
