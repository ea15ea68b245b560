import UnixProgramming.Text.CString

/-!
# One row of the list of open files

What the kernel answers about the paths of one process, and the row made of a path: a
descriptor with the letter of its access, a type, an inode and a name.

* `ProcFs` — the answers of the kernel while one process is examined.
* `File.ofFields`, `File.ofPath` — the two constructors of `file`.
* `File.ofPath_eq_none_iff` — the second throws exactly when one of its two calls fails.
-/

namespace Lsof

open CString

/-- A value of `errno`. -/
abbrev Errno := Int

/-- `EACCES`. -/
def eacces : Errno := 13

/-- What is read of a `struct stat`. -/
structure Stat where
  mode : BitVec 32
  ino : BitVec 64
  uid : BitVec 32

/-- What the kernel answers while one process is examined: whether each call on a path
succeeds, and with what.  A directory is the names `readdir` hands out, a stream what
can be read of it. -/
structure ProcFs where
  openFile : Str → Option Nat
  read : Nat → Option Str
  stat : Str → Option Stat
  lstat : Str → Option Stat
  readlink : Str → Except Errno Str
  fopen : Str → Except Errno Str
  opendir : Str → Except Errno (List Str)

/-- What can stop the program while it examines a process. -/
inductive Fault where
  /-- A store past the end of a buffer, or before its start. -/
  | overrun
  /-- A string made of a null pointer. -/
  | nullToken
  deriving DecidableEq

/-- A row: `file`. -/
structure File where
  fd : Str
  type : Str
  inode : Str
  name : Str
  deriving DecidableEq

/-- `file(fd_field, path, inode_field, type_field)`. -/
def File.ofFields (fdField path inodeField typeField : Str) : File :=
  ⟨fdField, typeField, inodeField, path⟩

/-- The bits `S_IRUSR` and `S_IWUSR`. -/
def readable (mode : BitVec 32) : Bool := decide (mode &&& 0o400 ≠ 0)
def writable (mode : BitVec 32) : Bool := decide (mode &&& 0o200 ≠ 0)

/-- Does the whole text match `\d+`? -/
def isNumber (s : Str) : Bool := !s.isEmpty && s.all Char.isDigit

/-- `set_fd_field`: the number of a descriptor gets the letter of its access.  It stays
empty where the link can be neither read nor written. -/
def setFdField (fdField : Str) (mode : BitVec 32) : Str :=
  if isNumber fdField = false then fdField
  else if readable mode && writable mode then fdField ++ "u".toList
  else if readable mode then fdField ++ "r".toList
  else if writable mode then fdField ++ "w".toList
  else []

/-- `set_type_field`. -/
def setTypeField (mode : BitVec 32) : Str :=
  let type := mode &&& 0o170000
  if type = 0o040000 then "DIR".toList
  else if type = 0o100000 then "REG".toList
  else if type = 0o020000 then "CHR".toList
  else if type = 0o010000 then "FIFO".toList
  else if type = 0o140000 then "SOCK".toList
  else "unknown".toList

/-- `file(fd_field, path, file_name)`; `none` is the exception it throws. -/
def File.ofPath (fs : ProcFs) (fdField path fileName : Str) : Option File :=
  match fs.stat path with
  | none => none
  | some statbuf =>
      match fs.lstat path with
      | none => none
      | some lstatbuf =>
          some
            { fd := setFdField fdField lstatbuf.mode
              type := setTypeField statbuf.mode
              inode := (toString statbuf.ino.toNat).toList
              name := fileName }

theorem File.ofPath_eq_none_iff {fs : ProcFs} {fdField path fileName : Str} :
    File.ofPath fs fdField path fileName = none ↔ fs.stat path = none ∨ fs.lstat path = none := by
  unfold File.ofPath
  cases hs : fs.stat path with
  | none => simp
  | some statbuf =>
      cases hl : fs.lstat path with
      | none => simp
      | some lstatbuf => simp

end Lsof
