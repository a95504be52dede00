import KyroKernel.Foundations.CString

/-!
# Formatted output

`printf` and `vsprintf` of `kernel/printf.c`, each with the number printer it calls. `printf`
passes characters to `putchar`, here the list `out`; `vsprintf` stores them through `buffer`.
Every argument is one word on the stack: a number, or a pointer to a string or NULL. A `va_arg`
of the wrong type or past the last argument, and a `%` at the end of the format, make the
model fail: there the code reads what its caller did not pass.
-/

namespace KyroKernel

open Foundations

/-- An argument: a number or pointer value, or a `char *`, `none` for NULL. -/
inductive VaArg where
  | word (v : Word)
  | string (s : Option CString)

/-- `va_arg` of a number. -/
def vaWord : List VaArg → Option (Word × List VaArg)
  | .word v :: args => some (v, args)
  | _ => none

/-- `va_arg` of a `char *`. -/
def vaString : List VaArg → Option (Option CString × List VaArg)
  | .string s :: args => some (s, args)
  | _ => none

/-- `digits`. -/
def digitChars : List Byte := chars "0123456789ABCDEF"

/-- `while (num > 0) { temp[i++] = digits[num % base]; num /= base; }`: the digits stored, the
last one first; `none` when `room` bytes are not enough for them. -/
def storeDigits (base : Word) : Nat → Word → List Byte → Option (List Byte)
  | 0, num, temp => if num > 0 then none else some temp
  | room + 1, num, temp =>
    if num > 0 then
      storeDigits base room (num / base) (digitChars.getD (num % base).toNat 0 :: temp)
    else some temp

/-! ## `printf` -/

/-- The characters passed to `putchar`, the remaining arguments, the count. -/
structure PrintState where
  out : List Byte
  args : List VaArg
  count : Int

/-- `putchar(c)`. -/
def PrintState.putchar (s : PrintState) (c : Byte) : PrintState := { s with out := s.out ++ [c] }

/-- `puts`. -/
def PrintState.puts (s : PrintState) (str : List Byte) : PrintState := str.foldl putchar s

/-- `count += n`. -/
def PrintState.add (s : PrintState) (n : Int) : PrintState := { s with count := s.count + n }

/-- `print_number`: the digits come out of `buffer` in reverse. -/
def printNumber (s : PrintState) (num base : Word) : Option PrintState :=
  if num = 0 then some (s.putchar (ascii '0'))
  else do
    let buffer ← storeDigits base 32 num []
    some (buffer.foldl PrintState.putchar s)

/-- The `switch` of `printf`. -/
def printfConversion (s : PrintState) (c : Byte) : Option PrintState :=
  if c = ascii 'd' ∨ c = ascii 'i' then do
    let (num, args) ← vaWord s.args
    let s := { s with args := args }
    let (num, s) := if num.slt 0 then (-num, (s.putchar (ascii '-')).add 1) else (num, s)
    let s ← printNumber s num 10
    some (s.add 1)
  else if c = ascii 'u' then do
    let (num, args) ← vaWord s.args
    let s ← printNumber { s with args := args } num 10
    some (s.add 1)
  else if c = ascii 'x' then do
    let (num, args) ← vaWord s.args
    let s ← printNumber { s with args := args } num 16
    some (s.add 1)
  else if c = ascii 'X' then do
    let (num, args) ← vaWord s.args
    let s ← printNumber { s with args := args } num 16
    some (s.add 1)
  else if c = ascii 'p' then do
    let s := (s.putchar (ascii '0')).putchar (ascii 'x')
    let (num, args) ← vaWord s.args
    let s ← printNumber { s with args := args } num 16
    some (s.add 1)
  else if c = ascii 'c' then do
    let (num, args) ← vaWord s.args
    some (({ s with args := args }.putchar (num.setWidth 8)).add 1)
  else if c = ascii 's' then do
    let (str, args) ← vaString s.args
    let s := { s with args := args }
    match str with
    | some str => some ((s.puts str.toList).add 1)
    | none => some ((s.puts (chars "(null)")).add 1)
  else if c = ascii '%' then some ((s.putchar (ascii '%')).add 1)
  else some (((s.putchar (ascii '%')).putchar c).add 2)

/-- The loop of `printf` over the characters of the format before its NUL. -/
def printfLoop : List Byte → PrintState → Option PrintState
  | [], s => some s
  | c :: format, s =>
    if c = ascii '%' then
      match format with
      | [] => none
      | d :: format => do
        let s ← printfConversion s d
        printfLoop format s
    else printfLoop format ((s.putchar c).add 1)

theorem printfLoop_char {c : Byte} (hc : c ≠ ascii '%') (format : List Byte) (s : PrintState) :
    printfLoop (c :: format) s = printfLoop format ((s.putchar c).add 1) := by
  rw [printfLoop.eq_def]
  exact if_neg hc

theorem printfLoop_percent (d : Byte) (format : List Byte) (s : PrintState) :
    printfLoop (ascii '%' :: d :: format) s =
      (printfConversion s d).bind (printfLoop format) := by
  rw [printfLoop.eq_def]
  exact if_pos rfl

/-- `printf`: the characters passed to `putchar`, the remaining arguments and the result. -/
def printf (format : List Byte) (args : List VaArg) : Option PrintState :=
  printfLoop format ⟨[], args, 0⟩

/-! ## `vsprintf` -/

/-- The memory from `str` on, the offset of `buffer` in it, the remaining arguments, the count. -/
structure SprintState where
  str : Nat → Byte
  buffer : Nat
  args : List VaArg
  count : Int

/-- `*buffer++ = c`. -/
def SprintState.store (s : SprintState) (c : Byte) : SprintState :=
  { s with str := Function.update s.str s.buffer c, buffer := s.buffer + 1 }

/-- `while (*src) *buffer++ = *src++;` -/
def SprintState.copy (s : SprintState) (src : List Byte) : SprintState := src.foldl store s

/-- `count += n`. -/
def SprintState.add (s : SprintState) (n : Int) : SprintState := { s with count := s.count + n }

/-- `print_number_to_buffer`. -/
def printNumberToBuffer (s : SprintState) (num base : Word) : Option SprintState :=
  if num = 0 then some (s.store (ascii '0'))
  else do
    let temp ← storeDigits base 32 num []
    some (temp.foldl SprintState.store s)

/-- The `switch` of `vsprintf`. -/
def vsprintfConversion (s : SprintState) (c : Byte) : Option SprintState :=
  if c = ascii 'd' ∨ c = ascii 'i' then do
    let (num, args) ← vaWord s.args
    let s := { s with args := args }
    let (num, s) := if num.slt 0 then (-num, (s.store (ascii '-')).add 1) else (num, s)
    let s ← printNumberToBuffer s num 10
    some (s.add 1)
  else if c = ascii 'u' then do
    let (num, args) ← vaWord s.args
    let s ← printNumberToBuffer { s with args := args } num 10
    some (s.add 1)
  else if c = ascii 'x' then do
    let (num, args) ← vaWord s.args
    let s ← printNumberToBuffer { s with args := args } num 16
    some (s.add 1)
  else if c = ascii 'X' then do
    let (num, args) ← vaWord s.args
    let s ← printNumberToBuffer { s with args := args } num 16
    some (s.add 1)
  else if c = ascii 'p' then do
    let s := (s.store (ascii '0')).store (ascii 'x')
    let (num, args) ← vaWord s.args
    let s ← printNumberToBuffer { s with args := args } num 16
    some (s.add 1)
  else if c = ascii 'c' then do
    let (num, args) ← vaWord s.args
    some (({ s with args := args }.store (num.setWidth 8)).add 1)
  else if c = ascii 's' then do
    let (src, args) ← vaString s.args
    let s := { s with args := args }
    match src with
    | some src => some ((s.copy src.toList).add 1)
    | none => some ((s.copy (chars "(null)")).add 1)
  else if c = ascii '%' then some ((s.store (ascii '%')).add 1)
  else some (((s.store (ascii '%')).store c).add 2)

/-- The loop of `vsprintf`. -/
def vsprintfLoop : List Byte → SprintState → Option SprintState
  | [], s => some s
  | c :: format, s =>
    if c = ascii '%' then
      match format with
      | [] => none
      | d :: format => do
        let s ← vsprintfConversion s d
        vsprintfLoop format s
    else vsprintfLoop format ((s.store c).add 1)

theorem vsprintfLoop_char {c : Byte} (hc : c ≠ ascii '%') (format : List Byte)
    (s : SprintState) : vsprintfLoop (c :: format) s = vsprintfLoop format ((s.store c).add 1) := by
  rw [vsprintfLoop.eq_def]
  exact if_neg hc

theorem vsprintfLoop_percent (d : Byte) (format : List Byte) (s : SprintState) :
    vsprintfLoop (ascii '%' :: d :: format) s =
      (vsprintfConversion s d).bind (vsprintfLoop format) := by
  rw [vsprintfLoop.eq_def]
  exact if_pos rfl

/-- `vsprintf`: the memory from `str` on with the final NUL at `buffer`, the remaining arguments
and the result. -/
def vsprintf (str : Nat → Byte) (format : List Byte) (args : List VaArg) : Option SprintState := do
  let s ← vsprintfLoop format ⟨str, 0, args, 0⟩
  some { s with str := Function.update s.str s.buffer 0 }

/-- The characters `printf` puts on the screen. -/
def printed (format : List Byte) (args : List VaArg) : List Byte :=
  match printf format args with
  | some s => s.out
  | none => []

/-! ## Formats and their arguments -/

/-- The conversions that take a number. -/
def takesWord (c : Byte) : Bool :=
  [ascii 'd', ascii 'i', ascii 'u', ascii 'x', ascii 'X', ascii 'p', ascii 'c'].contains c

/-- The first arguments are those the conversion takes, and `args'` are left. -/
def ConversionArgs (c : Byte) (args args' : List VaArg) : Prop :=
  if takesWord c then ∃ v, args = .word v :: args'
  else if c = ascii 's' then ∃ s, args = .string s :: args'
  else args = args'

/-- Each `%` that starts a conversion is followed by a character, and the arguments match the
conversions. -/
inductive FormatArgs : List Byte → List VaArg → Prop where
  | nil (args : List VaArg) : FormatArgs [] args
  | char {c : Byte} {format : List Byte} {args : List VaArg} (hc : c ≠ ascii '%')
      (h : FormatArgs format args) : FormatArgs (c :: format) args
  | conversion {c : Byte} {format : List Byte} {args args' : List VaArg}
      (hargs : ConversionArgs c args args') (h : FormatArgs format args') :
      FormatArgs (ascii '%' :: c :: format) args

end KyroKernel
