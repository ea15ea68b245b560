import UnixProgramming.Machine.Traces
import UnixProgramming.Text.CString

/-!
# The library call logger

The functions of the preloaded library.  Each looks up the original function of its
name, calls it, finds out what the names and buffers among its arguments stand for,
and writes a line to the descriptor in `OUT_FD`.  What the dynamic loader, the kernel
and the originals answer is left open.

* `getOriginFunc`, `getAbsPath`, `getAbsPathFd`, `getAbsPathFile`, `getBuffer` — the helpers.
* `forward` — what the wrappers share.
* `chmod` … `tmpfile` — the wrappers, under the names of the functions they stand for.
* `interposed` — the function a call of a program reaches.
-/

namespace Logger

open Requests CString

/-- An address, also of a function. -/
abbrev Ptr := BitVec 64

/-- The functions the logger stands in front of. -/
inductive Func where
  | chmod | chown | close | creat | fclose | fopen | fread | fwrite | «open» | read | write
  | remove | rename | tmpfile

/-- The name the loader knows a function by. -/
def Func.name : Func → String
  | .chmod => "chmod"
  | .chown => "chown"
  | .close => "close"
  | .creat => "creat"
  | .fclose => "fclose"
  | .fopen => "fopen"
  | .fread => "fread"
  | .fwrite => "fwrite"
  | .open => "open"
  | .read => "read"
  | .write => "write"
  | .remove => "remove"
  | .rename => "rename"
  | .tmpfile => "tmpfile"

/-- What a function returns: an `int`, or a `size_t`, an `ssize_t` or a pointer. -/
abbrev Func.Ret : Func → Type
  | .fopen | .fread | .fwrite | .read | .write | .tmpfile => BitVec 64
  | _ => BitVec 32

/-- A call with its arguments.  Strings, buffers and streams are addresses in the
caller's memory; `open` has its third argument when the caller passes one. -/
inductive Call : Func → Type where
  | chmod (path : Ptr) (mode : BitVec 32) : Call .chmod
  | chown (path : Ptr) (owner group : BitVec 32) : Call .chown
  | close (fd : BitVec 32) : Call .close
  | creat (path : Ptr) (mode : BitVec 32) : Call .creat
  | fclose (stream : Ptr) : Call .fclose
  | fopen (pathname mode : Ptr) : Call .fopen
  | fread (ptr : Ptr) (size nmemb : BitVec 64) (stream : Ptr) : Call .fread
  | fwrite (ptr : Ptr) (size nmemb : BitVec 64) (stream : Ptr) : Call .fwrite
  | «open» (pathname : Ptr) (flags : BitVec 32) (mode : Option (BitVec 32)) : Call .open
  | read (fd : BitVec 32) (buf : Ptr) (nbyte : BitVec 64) : Call .read
  | write (fd : BitVec 32) (buf : Ptr) (nbyte : BitVec 64) : Call .write
  | remove (pathname : Ptr) : Call .remove
  | rename (oldp newp : Ptr) : Call .rename
  | tmpfile : Call .tmpfile

/-- The name `realpath` is given: the caller's, or one the logger has read. -/
inductive PathArg where
  | caller (path : Ptr)
  | text (s : Str)

/-- An argument of `dprintf`: the text of a string, the address of one, an `int`, a `long`. -/
inductive Arg where
  | text (s : Str)
  | cstring (p : Ptr)
  | int (v : BitVec 32)
  | long (v : BitVec 64)

/-- A line of the log: its format and the arguments after it. -/
structure Line where
  format : String
  args : List Arg

/-- What the logger asks of the loader, the C library and the kernel. -/
inductive Req where
  /-- `dlopen(LIBM_SO, RTLD_LAZY)`. -/
  | dlopen
  | dlsym (handle : Ptr) (name : String)
  | dlerror
  | dlclose (handle : Option Ptr)
  /-- Call the function at an address. -/
  | call {f : Func} (p : Ptr) (c : Call f)
  | realpath (path : PathArg)
  | getpid
  | readlink (link : Str)
  /-- The `st_mode` of a file. -/
  | stat (path : Str)
  | fileno (stream : Ptr)
  /-- Read a byte of the caller's memory. -/
  | load (a : Ptr)
  | getenv (name : String)
  | dprintf (fd : Int) (line : Line)

/-- What `realpath` leaves in the buffer: the name or, where it fails, the part it has
resolved, which may be nothing. -/
inductive Resolution where
  | resolved (name : Str)
  | failed (stored : Str)

def Resolution.stored : Resolution → Str
  | .resolved name => name
  | .failed stored => stored

/-- What they answer; `none` is a null pointer, -1, or a byte that cannot be read. -/
abbrev Ans : Req → Type
  | .dlopen => Option Ptr
  | .dlsym _ _ => Option Ptr
  | .dlerror | .dlclose _ => Unit
  | .call (f := f) _ _ => f.Ret
  | .realpath _ => Resolution
  | .readlink _ | .getenv _ => Option Str
  | .getpid => BitVec 32
  | .stat _ => Option (BitVec 32)
  | .fileno _ => BitVec 32
  | .load _ => Option (BitVec 8)
  | .dprintf _ _ => BitVec 32

/-- What can stop the process inside a wrapper. -/
inductive Fault where
  /-- A store past the end of a buffer. -/
  | overrun
  /-- A byte that cannot be read. -/
  | unreadable
  /-- A call of a null pointer. -/
  | nullFunction
  /-- `atoi(NULL)`. -/
  | nullString
  /-- `va_arg` for an argument that was not passed. -/
  | noArgument
  deriving DecidableEq

abbrev LogM := Prog Req Ans Fault

/-- Make one request. -/
abbrev ask (r : Req) : LogM (Ans r) := Prog.ask r

/-! ## Helpers -/

/-- `BUFFER_SIZE`. -/
def bufferSize : Nat := 1024

/-- `get_origin_func`. -/
def getOriginFunc (funcName : String) : LogM (Option Ptr) := do
  let handle ← ask .dlopen
  let originFunc ← match handle with
    | none => pure none
    | some h => ask (.dlsym h funcName)
  ask .dlerror
  ask (.dlclose handle)
  return originFunc

/-- `get_buffer` with `n` of its 32 rounds to go. -/
def getBufferFrom (bfPtr : Ptr) (len : BitVec 64) : Nat → LogM Str
  | 0 => pure []
  | n + 1 => do
      let i := 32 - (n + 1)
      if len.toNat ≤ i then return []
      match ← ask (.load (bfPtr + BitVec.ofNat 64 i)) with
      | none => .fault .unreadable
      | some b =>
          let rest ← getBufferFrom bfPtr len n
          return (if isprint b then Char.ofNat b.toNat else '.') :: rest

/-- `get_buffer`: up to 32 bytes, a dot for those that do not print. -/
def getBuffer (bfPtr : Ptr) (len : BitVec 64) : LogM Str := getBufferFrom bfPtr len 32

/-- `get_abs_path` of a name.  What `realpath` stores has to fit the buffer also where
it fails. -/
def getAbsPath (fileName : PathArg) : LogM Str := do
  let answer ← ask (.realpath fileName)
  if bufferSize ≤ answer.stored.length then .fault .overrun
  else
    match answer with
    | .resolved absPath => return absPath
    | .failed _ => return "(null)".toList

/-- `S_IFMT`, `S_IFDIR` and `S_IFREG`. -/
def sIfmt : BitVec 32 := 0o170000
def sIfdir : BitVec 32 := 0o040000
def sIfreg : BitVec 32 := 0o100000

/-- The name under which the kernel lists a descriptor. -/
def fdLink (pid fd : BitVec 32) : Str :=
  ("/proc/" ++ toString pid.toInt ++ "/fd/" ++ toString fd.toInt).toList

/-- `get_abs_path` of a descriptor.  The terminator goes after what `readlink` has
filled in, also when that is the whole buffer. -/
def getAbsPathFd (fd : BitVec 32) : LogM Str := do
  let link := fdLink (← ask .getpid) fd
  match ← ask (.readlink link) with
  | none => return []
  | some fileName =>
      if bufferSize ≤ fileName.length then .fault .overrun
      else
        match ← ask (.stat link) with
        | none => return []
        | some stMode =>
            let type := stMode &&& sIfmt
            if type = sIfdir ∨ type = sIfreg then getAbsPath (.text fileName) else return fileName

/-- `get_abs_path` of a stream. -/
def getAbsPathFile (fp : Ptr) : LogM Str := do
  let fd ← ask (.fileno fp)
  if fd = -1 then return [] else getAbsPathFd fd

/-- Call the function a pointer holds. -/
def callOrigin {f : Func} (origin : Option Ptr) (c : Call f) : LogM f.Ret :=
  match origin with
  | none => .fault .nullFunction
  | some p => ask (.call p c)

/-- `atoi(getenv("OUT_FD"))`. -/
def outFd : LogM Int := do
  match ← ask (.getenv "OUT_FD") with
  | none => .fault .nullString
  | some s => return atoi s

/-- Write a line to the log and hand back a value. -/
def report {α : Type} (line : LogM Line) (retVal : α) : LogM α := do
  let l ← line
  let fd ← outFd
  let _ ← ask (.dprintf fd l)
  return retVal

/-- What the wrappers share: the original is looked up and called as `c`, between the
lookups `before` and those of `line`, which are what the log shows. -/
def forward {f : Func} {α : Type} (c : Call f) (before : LogM α) (line : α → f.Ret → LogM Line) :
    LogM f.Ret := do
  let origin ← getOriginFunc f.name
  let known ← before
  let retVal ← callOrigin origin c
  report (line known retVal) retVal

/-! ## The wrappers -/

def chmod (path : Ptr) (mode : BitVec 32) : LogM (BitVec 32) :=
  forward (.chmod path mode) (pure ()) fun _ retVal => do
    let absPath ← getAbsPath (.caller path)
    return ⟨"[logger] chmod(\"%s\", %o) = %d\n", [.text absPath, .int mode, .int retVal]⟩

def chown (path : Ptr) (owner group : BitVec 32) : LogM (BitVec 32) :=
  forward (.chown path owner group) (pure ()) fun _ retVal => do
    let absPath ← getAbsPath (.caller path)
    return ⟨"[logger] chown(\"%s\", %d, %d) = %d\n",
      [.text absPath, .int owner, .int group, .int retVal]⟩

def close (fd : BitVec 32) : LogM (BitVec 32) :=
  forward (.close fd) (getAbsPathFd fd) fun absPath retVal =>
    return ⟨"[logger] close(\"%s\") = %d\n", [.text absPath, .int retVal]⟩

def creat (path : Ptr) (mode : BitVec 32) : LogM (BitVec 32) :=
  forward (.creat path mode) (pure ()) fun _ retVal => do
    let absPath ← getAbsPath (.caller path)
    return ⟨"[logger] creat(\"%s\", %o) = %d\n", [.text absPath, .int mode, .int retVal]⟩

def fclose (stream : Ptr) : LogM (BitVec 32) :=
  forward (.fclose stream) (getAbsPathFile stream) fun absPath retVal =>
    return ⟨"[logger] fclose(\"%s\") = %d\n", [.text absPath, .int retVal]⟩

def fopen (pathname mode : Ptr) : LogM (BitVec 64) :=
  forward (.fopen pathname mode) (pure ()) fun _ retFp => do
    let absPath ← getAbsPath (.caller pathname)
    return ⟨"[logger] fopen(\"%s\", \"%s\") = %p\n", [.text absPath, .cstring mode, .long retFp]⟩

def fread (ptr : Ptr) (size nmemb : BitVec 64) (stream : Ptr) : LogM (BitVec 64) :=
  forward (.fread ptr size nmemb stream) (pure ()) fun _ retVal => do
    let absPath ← getAbsPathFile stream
    let msg ← getBuffer ptr (size * retVal)
    return ⟨"[logger] fread(\"%s\", %ld, %ld, \"%s\") = %ld\n",
      [.text msg, .long size, .long nmemb, .text absPath, .long retVal]⟩

def fwrite (ptr : Ptr) (size nmemb : BitVec 64) (stream : Ptr) : LogM (BitVec 64) :=
  forward (.fwrite ptr size nmemb stream) (pure ()) fun _ retVal => do
    let absPath ← getAbsPathFile stream
    let msg ← getBuffer ptr (size * retVal)
    return ⟨"[logger] fwrite(\"%s\", %ld, %ld, \"%s\") = %ld\n",
      [.text msg, .long size, .long nmemb, .text absPath, .long retVal]⟩

/-- `O_CREAT`, and the bits of `O_TMPFILE`. -/
def oCreat : BitVec 32 := 0o100
def oTmpfile : BitVec 32 := 0o20200000

/-- `__OPEN_NEEDS_MODE`. -/
def openNeedsMode (flags : BitVec 32) : Bool :=
  decide (flags &&& oCreat ≠ 0 ∨ flags &&& oTmpfile = oTmpfile)

/-- The mode `open` fetches for its log line. -/
def fetchMode (flags : BitVec 32) (arg : Option (BitVec 32)) : LogM (BitVec 32) :=
  if openNeedsMode flags then
    match arg with
    | some mode => pure mode
    | none => .fault .noArgument
  else pure 0

/-- The original is called through a pointer to a function of two arguments: the mode
goes into the log only. -/
def «open» (pathname : Ptr) (flags : BitVec 32) (arg : Option (BitVec 32)) : LogM (BitVec 32) := do
  let mode ← fetchMode flags arg
  forward (.open pathname flags none) (pure ()) fun _ retVal => do
    let absPath ← getAbsPath (.caller pathname)
    return ⟨"[logger] open(\"%s\", %o, %o) = %d\n",
      [.text absPath, .int flags, .int mode, .int retVal]⟩

def read (fd : BitVec 32) (buf : Ptr) (nbyte : BitVec 64) : LogM (BitVec 64) :=
  forward (.read fd buf nbyte) (pure ()) fun _ retVal => do
    let absPath ← getAbsPathFd fd
    let msg ← getBuffer buf retVal
    return ⟨"[logger] read(\"%s\", \"%s\", %ld) = %ld\n",
      [.text absPath, .text msg, .long nbyte, .long retVal]⟩

def write (fd : BitVec 32) (buf : Ptr) (nbyte : BitVec 64) : LogM (BitVec 64) :=
  forward (.write fd buf nbyte) (pure ()) fun _ retVal => do
    let absPath ← getAbsPathFd fd
    let msg ← getBuffer buf retVal
    return ⟨"[logger] write(\"%s\", \"%s\", %ld) = %ld\n",
      [.text absPath, .text msg, .long nbyte, .long retVal]⟩

def remove (pathname : Ptr) : LogM (BitVec 32) :=
  forward (.remove pathname) (getAbsPath (.caller pathname)) fun absPath retVal =>
    return ⟨"[logger] remove(\"%s\") = %d\n", [.text absPath, .int retVal]⟩

def rename (oldp newp : Ptr) : LogM (BitVec 32) :=
  forward (.rename oldp newp) (getAbsPath (.caller oldp)) fun absOldp retVal => do
    let absNewp ← getAbsPath (.caller newp)
    return ⟨"[logger] rename(\"%s\", \"%s\") = %d\n", [.text absOldp, .text absNewp, .int retVal]⟩

def tmpfile : LogM (BitVec 64) :=
  forward .tmpfile (pure ()) fun _ retPtr =>
    return ⟨"[logger] tmpfile() = %p\n", [.long retPtr]⟩

/-- The function a call reaches when the logger is preloaded. -/
def interposed {f : Func} : Call f → LogM f.Ret
  | .chmod path mode => chmod path mode
  | .chown path owner group => chown path owner group
  | .close fd => close fd
  | .creat path mode => creat path mode
  | .fclose stream => fclose stream
  | .fopen pathname mode => fopen pathname mode
  | .fread ptr size nmemb stream => fread ptr size nmemb stream
  | .fwrite ptr size nmemb stream => fwrite ptr size nmemb stream
  | .open pathname flags mode => «open» pathname flags mode
  | .read fd buf nbyte => read fd buf nbyte
  | .write fd buf nbyte => write fd buf nbyte
  | .remove pathname => remove pathname
  | .rename oldp newp => rename oldp newp
  | .tmpfile => tmpfile

end Logger
