import KyroKernel.Console.Printf
import KyroKernel.Foundations.ArrayTable
import KyroKernel.Utils.Strings

/-!
# User accounts

`include/user.h` and `kernel/user.c`: an array of account records, the number of accounts and the
next user id. The id counter is static data and `user_init` does not reset it.
-/

namespace KyroKernel

open Foundations

def maxUsers : Int := 100
def usernameLength : Nat := 32
def passwordLength : Nat := 64

/-- `user_t`. The fields `username` and `password` are the bytes of the arrays. -/
structure User where
  username : List Byte
  password : List Byte
  isAdmin : Bool
  uid : Word
  gid : Word
  deriving DecidableEq

/-- `users`, `user_count` and `next_uid`. -/
structure UserSystem where
  users : Int → User
  userCount : Int
  nextUid : Word

/-- What a call returns, what it prints, and the accounts after it. -/
structure UserResult where
  result : Bool
  output : List Byte
  state : UserSystem

/-- The search loop that the functions share: the first record with this name. -/
def findUser (s : UserSystem) (username : List Byte) : Option Int :=
  findRow (fun user => strcmp user.username username == 0) s.users 0 s.userCount.toNat

/-- `user_init`; it returns nothing. -/
def userInit (s : UserSystem) : UserResult :=
  ⟨true, printed (chars "User system initialized.\n") [], { s with userCount := 0 }⟩

/-- The record that `add_user` fills in. -/
def newUser (user : User) (username password : CString) (isAdmin : Bool) (uid : Word) : User :=
  { username := strcpy user.username username.toList
    password := strcpy user.password password.toList
    isAdmin := isAdmin
    uid := uid
    gid := if isAdmin then 0 else 1000 }

/-- `add_user` when it refuses. -/
def userFail (s : UserSystem) (message : String) : UserResult :=
  ⟨false, printed (chars message) [], s⟩

/-- `add_user`. -/
def addUser (s : UserSystem) (username password : CString) (isAdmin : Bool) : UserResult :=
  if s.userCount ≥ maxUsers then userFail s "Maximum number of users reached.\n"
  else if strlen username.toList ≥ usernameLength then userFail s "Username too long.\n"
  else if strlen password.toList ≥ passwordLength then userFail s "Password too long.\n"
  else
    match findUser s username.toList with
    | some _ => userFail s "User already exists.\n"
    | none =>
      let user := newUser (s.users s.userCount) username password isAdmin s.nextUid
      ⟨true, [],
        { users := Function.update s.users s.userCount user
          userCount := s.userCount + 1
          nextUid := s.nextUid + 1 }⟩

/-- `remove_user`. -/
def removeUser (s : UserSystem) (username : CString) : UserResult :=
  match findUser s username.toList with
  | some i =>
    ⟨true, [],
      { s with
        users := shiftRows s.users i (s.userCount - 1 - i).toNat
        userCount := s.userCount - 1 }⟩
  | none => ⟨false, [], s⟩

/-- `authenticate_user`. -/
def authenticateUser (s : UserSystem) (username password : CString) : Bool :=
  match findUser s username.toList with
  | some i => strcmp (s.users i).password password.toList == 0
  | none => false

/-- `get_user`: the index of the record. -/
def getUser (s : UserSystem) (username : CString) : Option Int := findUser s username.toList

/-! ## Calls and runs -/

/-- The calls that change the accounts. -/
inductive UserCall where
  | userInit
  | addUser (username password : CString) (isAdmin : Bool)
  | removeUser (username : CString)

/-- Carry out a call. -/
def UserCall.exec (s : UserSystem) : UserCall → UserResult
  | .userInit => KyroKernel.userInit s
  | .addUser username password isAdmin => KyroKernel.addUser s username password isAdmin
  | .removeUser username => KyroKernel.removeUser s username

/-- The accounts before the first call: static data. -/
def bootUsers : UserSystem :=
  { users := fun _ =>
      ⟨List.replicate usernameLength 0, List.replicate passwordLength 0, false, 0, 0⟩
    userCount := 0
    nextUid := 1000 }

/-- The steps of a run. -/
abbrev UserStep (s : UserSystem) (call : UserCall) (s' : UserSystem) : Prop :=
  s' = (call.exec s).state

/-- The accounts: `users[0..user_count)`. -/
def UserSystem.accounts (s : UserSystem) : List User := tableList s.users s.userCount.toNat

/-- The name of an account. -/
def User.name (user : User) : List Byte := cstr user.username

/-- The password of an account. -/
def User.secret (user : User) : List Byte := cstr user.password

end KyroKernel
