import UnixProgramming.Libmini.Open
import UnixProgramming.Libmini.SignalMask

/-!
# The wrappers of the system calls

The functions of `libmini.c` that make one system call each and turn its result into a
value and `errno` by one of two macros.  The kernel's result is a `long`, and so is
`errno`.

* `SysCall` — the system calls with their arguments.
* `retval`, `retptr` — the macros `WRAPPER_RETval` and `WRAPPER_RETptr`.
* `alarm`, `read`, … — the wrappers, each under its name.
* `runs_sigprocmask` — the wrapper of `sigprocmask` and the function on a process agree.
* `Call`, `Invocation` — a call of one of them in C, and of any of the library.
* `convention_iff` — they keep the convention of the C interface, but for `getcwd`.
-/

namespace Libmini

open ByteMemory X86 Requests

/-! ## System calls -/

/-- The system calls that return, with what the wrappers pass to them. -/
inductive SysCall where
  | alarm (sec : BitVec 32)
  | read (fd : BitVec 32) (buf : Addr) (count : Word)
  | write (fd : BitVec 32) (buf : Addr) (count : Word)
  | close (fd : BitVec 32)
  | mmap (addr : Addr) (len : Word) (prot flags fd : BitVec 32) (off : Word)
  | mprotect (addr : Addr) (len : Word) (prot : BitVec 32)
  | munmap (addr : Addr) (len : Word)
  | pipe (filedes : Addr)
  | dup (filedes : BitVec 32)
  | dup2 (oldfd newfd : BitVec 32)
  | pause
  | nanosleep (rqtp rmtp : Addr)
  | fork
  | getcwd (buf : Addr) (size : Word)
  | chdir (pathname : Addr)
  | rename (oldname newname : Addr)
  | mkdir (pathname : Addr) (mode : BitVec 32)
  | rmdir (pathname : Addr)
  | creat (pathname : Addr) (mode : BitVec 32)
  | link (oldname newname : Addr)
  | unlink (pathname : Addr)
  | readlink (path buf : Addr) (bufsz : Word)
  | chmod (filename : Addr) (mode : BitVec 32)
  | chown (filename : Addr) (user group : BitVec 32)
  | umask (mask : BitVec 32)
  | gettimeofday (tv tz : Addr)
  | getuid
  | getgid
  | setuid (uid : BitVec 32)
  | setgid (gid : BitVec 32)
  | geteuid
  | getegid
  | rtSigpending (set : Addr) (sigsetsize : Word)
  | rtSigprocmask (how : BitVec 32) (set oldset : Addr) (sigsetsize : Word)
  deriving DecidableEq

/-- What the library asks of the kernel: a call that returns, or `exit`. -/
inductive Sys where
  | call (c : SysCall)
  | exit (errorCode : BitVec 32)
  deriving DecidableEq

/-- What it answers: the result in `rax`, and nothing after `exit`. -/
abbrev Sys.Ans : Sys → Type
  | .call _ => Word
  | .exit _ => Empty

/-- A function of the library. -/
abbrev Libc := Prog Sys Sys.Ans Empty

/-! ## The macros -/

/-- `WRAPPER_RETval(type)` for a type of `n` bits: the value, and what is in `errno`. -/
def retval (n : Nat) (ret : Word) : BitVec n × Word :=
  if ret.toInt < 0 then (-1, -ret) else (ret.setWidth n, 0)

/-- `WRAPPER_RETptr(type)`. -/
def retptr (ret : Word) : Addr × Word := if ret.toInt < 0 then (0, -ret) else (ret, 0)

/-- A call whose result is a number of `n` bits. -/
def wrapval (n : Nat) (c : SysCall) : Libc (BitVec n × Word) := do
  let ret ← Prog.ask (.call c)
  return retval n ret

/-- A call whose result is a pointer. -/
def wrapptr (c : SysCall) : Libc (Addr × Word) := do
  let ret ← Prog.ask (.call c)
  return retptr ret

/-! ## The wrappers -/

namespace Wrapper

def alarm (sec : BitVec 32) : Libc (BitVec 32 × Word) := wrapval 32 (.alarm sec)

def read (fd : BitVec 32) (buf : Addr) (count : Word) : Libc (BitVec 64 × Word) :=
  wrapval 64 (.read fd buf count)

def write (fd : BitVec 32) (buf : Addr) (count : Word) : Libc (BitVec 64 × Word) :=
  wrapval 64 (.write fd buf count)

def close (fd : BitVec 32) : Libc (BitVec 32 × Word) := wrapval 32 (.close fd)

def mmap (addr : Addr) (len : Word) (prot flags fd : BitVec 32) (off : Word) : Libc (Addr × Word) :=
  wrapptr (.mmap addr len prot flags fd off)

def mprotect (addr : Addr) (len : Word) (prot : BitVec 32) : Libc (BitVec 32 × Word) :=
  wrapval 32 (.mprotect addr len prot)

def munmap (addr : Addr) (len : Word) : Libc (BitVec 32 × Word) := wrapval 32 (.munmap addr len)

def pipe (filedes : Addr) : Libc (BitVec 32 × Word) := wrapval 32 (.pipe filedes)

def dup (filedes : BitVec 32) : Libc (BitVec 32 × Word) := wrapval 32 (.dup filedes)

def dup2 (oldfd newfd : BitVec 32) : Libc (BitVec 32 × Word) := wrapval 32 (.dup2 oldfd newfd)

def pause : Libc (BitVec 32 × Word) := wrapval 32 .pause

def nanosleep (rqtp rmtp : Addr) : Libc (BitVec 32 × Word) := wrapval 32 (.nanosleep rqtp rmtp)

def fork : Libc (BitVec 32 × Word) := wrapval 32 .fork

def getcwd (buf : Addr) (size : Word) : Libc (Addr × Word) := wrapptr (.getcwd buf size)

def chdir (pathname : Addr) : Libc (BitVec 32 × Word) := wrapval 32 (.chdir pathname)

def rename (oldname newname : Addr) : Libc (BitVec 32 × Word) :=
  wrapval 32 (.rename oldname newname)

def mkdir (pathname : Addr) (mode : BitVec 32) : Libc (BitVec 32 × Word) :=
  wrapval 32 (.mkdir pathname mode)

def rmdir (pathname : Addr) : Libc (BitVec 32 × Word) := wrapval 32 (.rmdir pathname)

def creat (pathname : Addr) (mode : BitVec 32) : Libc (BitVec 32 × Word) :=
  wrapval 32 (.creat pathname mode)

def link (oldname newname : Addr) : Libc (BitVec 32 × Word) := wrapval 32 (.link oldname newname)

def unlink (pathname : Addr) : Libc (BitVec 32 × Word) := wrapval 32 (.unlink pathname)

def readlink (path buf : Addr) (bufsz : Word) : Libc (BitVec 64 × Word) :=
  wrapval 64 (.readlink path buf bufsz)

def chmod (filename : Addr) (mode : BitVec 32) : Libc (BitVec 32 × Word) :=
  wrapval 32 (.chmod filename mode)

def chown (filename : Addr) (user group : BitVec 32) : Libc (BitVec 32 × Word) :=
  wrapval 32 (.chown filename user group)

def umask (mask : BitVec 32) : Libc (BitVec 32 × Word) := wrapval 32 (.umask mask)

def gettimeofday (tv tz : Addr) : Libc (BitVec 32 × Word) := wrapval 32 (.gettimeofday tv tz)

def getuid : Libc (BitVec 32 × Word) := wrapval 32 .getuid

def getgid : Libc (BitVec 32 × Word) := wrapval 32 .getgid

def setuid (uid : BitVec 32) : Libc (BitVec 32 × Word) := wrapval 32 (.setuid uid)

def setgid (gid : BitVec 32) : Libc (BitVec 32 × Word) := wrapval 32 (.setgid gid)

def geteuid : Libc (BitVec 32 × Word) := wrapval 32 .geteuid

def getegid : Libc (BitVec 32 × Word) := wrapval 32 .getegid

def sigpending (set : Addr) : Libc (BitVec 32 × Word) := wrapval 32 (.rtSigpending set 8)

def sigprocmask (how : BitVec 32) (set oldset : Addr) : Libc (BitVec 32 × Word) :=
  wrapval 32 (.rtSigprocmask how set oldset 8)

/-- `exit` does not return. -/
def exit (errorCode : BitVec 32) : Libc Unit := do
  let x ← Prog.ask (.exit errorCode)
  nomatch x

end Wrapper

/-! ## The mask of a process -/

/-- The macro, with a result that is an `int` and `errno` as whole numbers. -/
theorem wrapperRetval_toInt {ret : Word} (hlo : -4095 ≤ ret.toInt) (hhi : ret.toInt < 2 ^ 31)
    (p : Process) : wrapperRetval ret.toInt p =
      ((retval 32 ret).1.toInt, { p with errno := (retval 32 ret).2.toInt }) := by
  rw [wrapperRetval, retval]
  by_cases herr : ret.toInt < 0
  · have hneg : (-ret).toInt = -ret.toInt := by
      rw [BitVec.toInt_neg, Int.bmod_eq_of_le (by omega) (by omega)]
    rw [if_pos herr, if_pos herr, hneg]
    rfl
  · have hnat : (ret.toNat : Int) = ret.toInt := by
      have hcases := BitVec.toInt_eq_toNat_cond ret
      split at hcases
      · exact hcases.symm
      · have hlt := ret.isLt
        omega
    have hvalue : (ret.setWidth 32).toInt = ret.toInt := by
      rw [BitVec.toInt_setWidth, hnat, Int.bmod_eq_of_le (by omega) (by omega)]
    rw [if_neg herr, if_neg herr, hvalue]
    rfl

/-- A kernel that changes the mask of a process and answers nothing else. -/
def maskKernel : Kernel Sys Sys.Ans Process
  | p, .call (.rtSigprocmask how set oldset sigsetsize), ret, q =>
      (ret.toInt, q) = sysRtSigprocmask how set oldset sigsetsize.toNat p
  | _, _, _, _ => False

/-- The result of the system call is 0 or an error. -/
theorem sysRtSigprocmask_fst (how : BitVec 32) (set oldset : Addr) (n : Nat) (p : Process) :
    (sysRtSigprocmask how set oldset n p).1 = 0 ∨
      (sysRtSigprocmask how set oldset n p).1 = -einval := by
  rw [sysRtSigprocmask]
  split
  · exact Or.inr rfl
  · dsimp only
    split
    · exact Or.inr rfl
    · exact Or.inl rfl

/-- There the wrapper ends with what `sigprocmask` makes of the process. -/
theorem runs_sigprocmask {how : BitVec 32} {set oldset : Addr} {p q : Process} {v : BitVec 32}
    {errno : Word}
    (h : Runs maskKernel (Wrapper.sigprocmask how set oldset) p (.done (v, errno)) q) :
    sigprocmask how set oldset p = (v.toInt, { q with errno := errno.toInt }) := by
  obtain ⟨ret, q, hcall, hend, rfl⟩ := h
  have hcall : (ret.toInt, q) = sysRtSigprocmask how set oldset 8 p := hcall
  have hbounds : -4095 ≤ ret.toInt ∧ ret.toInt < 2 ^ 31 := by
    have hfst := sysRtSigprocmask_fst how set oldset 8 p
    rw [← hcall, einval] at hfst
    omega
  have hval : (v, errno) = retval 32 ret := Result.done.inj hend
  have hv : v = (retval 32 ret).1 := congrArg Prod.fst hval
  have herrno : errno = (retval 32 ret).2 := congrArg Prod.snd hval
  rw [sigprocmask, ← hcall, hv, herrno]
  exact wrapperRetval_toInt hbounds.1 hbounds.2 q

/-! ## Calls -/

/-- A call of one of the wrappers in C. -/
inductive Call where
  | alarm (sec : BitVec 32)
  | read (fd : BitVec 32) (buf : Addr) (count : Word)
  | write (fd : BitVec 32) (buf : Addr) (count : Word)
  | close (fd : BitVec 32)
  | mmap (addr : Addr) (len : Word) (prot flags fd : BitVec 32) (off : Word)
  | mprotect (addr : Addr) (len : Word) (prot : BitVec 32)
  | munmap (addr : Addr) (len : Word)
  | pipe (filedes : Addr)
  | dup (filedes : BitVec 32)
  | dup2 (oldfd newfd : BitVec 32)
  | pause
  | nanosleep (rqtp rmtp : Addr)
  | fork
  | getcwd (buf : Addr) (size : Word)
  | chdir (pathname : Addr)
  | rename (oldname newname : Addr)
  | mkdir (pathname : Addr) (mode : BitVec 32)
  | rmdir (pathname : Addr)
  | creat (pathname : Addr) (mode : BitVec 32)
  | link (oldname newname : Addr)
  | unlink (pathname : Addr)
  | readlink (path buf : Addr) (bufsz : Word)
  | chmod (filename : Addr) (mode : BitVec 32)
  | chown (filename : Addr) (user group : BitVec 32)
  | umask (mask : BitVec 32)
  | gettimeofday (tv tz : Addr)
  | getuid
  | getgid
  | setuid (uid : BitVec 32)
  | setgid (gid : BitVec 32)
  | geteuid
  | getegid
  | sigpending (set : Addr)
  | sigprocmask (how : BitVec 32) (set oldset : Addr)

namespace Call

/-- The size of its declared type in bits. -/
def width : Call → Nat
  | .read _ _ _ => 64
  | .write _ _ _ => 64
  | .mmap _ _ _ _ _ _ => 64
  | .getcwd _ _ => 64
  | .readlink _ _ _ => 64
  | _ => 32

/-- The wrapper it runs. -/
def run : (c : Call) → Libc (BitVec c.width × Word)
  | .alarm sec => Wrapper.alarm sec
  | .read fd buf count => Wrapper.read fd buf count
  | .write fd buf count => Wrapper.write fd buf count
  | .close fd => Wrapper.close fd
  | .mmap addr len prot flags fd off => Wrapper.mmap addr len prot flags fd off
  | .mprotect addr len prot => Wrapper.mprotect addr len prot
  | .munmap addr len => Wrapper.munmap addr len
  | .pipe filedes => Wrapper.pipe filedes
  | .dup filedes => Wrapper.dup filedes
  | .dup2 oldfd newfd => Wrapper.dup2 oldfd newfd
  | .pause => Wrapper.pause
  | .nanosleep rqtp rmtp => Wrapper.nanosleep rqtp rmtp
  | .fork => Wrapper.fork
  | .getcwd buf size => Wrapper.getcwd buf size
  | .chdir pathname => Wrapper.chdir pathname
  | .rename oldname newname => Wrapper.rename oldname newname
  | .mkdir pathname mode => Wrapper.mkdir pathname mode
  | .rmdir pathname => Wrapper.rmdir pathname
  | .creat pathname mode => Wrapper.creat pathname mode
  | .link oldname newname => Wrapper.link oldname newname
  | .unlink pathname => Wrapper.unlink pathname
  | .readlink path buf bufsz => Wrapper.readlink path buf bufsz
  | .chmod filename mode => Wrapper.chmod filename mode
  | .chown filename user group => Wrapper.chown filename user group
  | .umask mask => Wrapper.umask mask
  | .gettimeofday tv tz => Wrapper.gettimeofday tv tz
  | .getuid => Wrapper.getuid
  | .getgid => Wrapper.getgid
  | .setuid uid => Wrapper.setuid uid
  | .setgid gid => Wrapper.setgid gid
  | .geteuid => Wrapper.geteuid
  | .getegid => Wrapper.getegid
  | .sigpending set => Wrapper.sigpending set
  | .sigprocmask how set oldset => Wrapper.sigprocmask how set oldset

/-- What it is to return on failure: a null pointer, or -1. -/
def failure : (c : Call) → BitVec c.width
  | .mmap _ _ _ _ _ _ => 0
  | .getcwd _ _ => 0
  | _ => -1

/-- What it is to return when the kernel's result is `r`: the buffer it was given, or the
result in the declared type. -/
def success : (c : Call) → Word → BitVec c.width
  | .getcwd buf _, _ => buf
  | c, r => r.setWidth c.width

/-- What it does return then. -/
def converted (c : Call) (r : Word) : BitVec c.width := r.setWidth c.width

/-- It makes a system call and, answered `r`, returns by the convention. -/
def Follows (c : Call) (r : Word) : Prop :=
  ∃ q k, c.run = .request (.call q) k ∧
    k r = .done (if r.toInt < 0 then (c.failure, -r) else (c.success r, 0))

/-- Every wrapper makes one system call, and the macro does the rest. -/
theorem run_eq (c : Call) : ∃ q, c.run = .request (.call q) fun r =>
    .done (if r.toInt < 0 then (c.failure, -r) else (c.converted r, 0)) := by
  cases c
  all_goals exact ⟨_, rfl⟩

/-- So only what it returns on success is left to compare. -/
theorem follows_iff (c : Call) (r : Word) :
    c.Follows r ↔ (0 ≤ r.toInt → c.converted r = c.success r) := by
  obtain ⟨q, hrun⟩ := c.run_eq
  constructor
  · rintro ⟨q', k, hq', hk⟩ hok
    rw [hrun] at hq'
    cases hq'
    simp only [if_neg (not_lt.2 hok)] at hk
    exact congrArg Prod.fst (Prog.done.inj hk)
  · intro h
    refine ⟨q, _, hrun, ?_⟩
    by_cases herr : r.toInt < 0
    · rw [if_pos herr, if_pos herr]
    · rw [if_neg herr, if_neg herr, h (not_lt.1 herr)]

/-- `getcwd` alone means something else by its result than the kernel does. -/
theorem converted_eq_success {c : Call} (hc : ∀ buf size, c ≠ .getcwd buf size) (r : Word) :
    c.converted r = c.success r := by
  cases c with
  | getcwd buf size => exact absurd rfl (hc buf size)
  | _ => rfl

theorem converted_getcwd (buf : Addr) (size r : Word) :
    (getcwd buf size).converted r = r := BitVec.setWidth_eq r

theorem success_getcwd (buf : Addr) (size r : Word) : (getcwd buf size).success r = buf := rfl

end Call

/-! ## The convention -/

/-- A call of any wrapper of the library: one of those in C, `exit`, or `open` with the
address of `errno` and the line after its call of the kernel. -/
inductive Invocation where
  | inC (c : Call)
  | exit (errorCode : BitVec 32)
  | «open» (errno : Addr) (link : Word) (s : State) (apart : ErrnoApart errno s)

namespace Invocation

/-- It keeps the convention when the kernel answers `r`; `exit` gets no answer and does
not return. -/
def Follows : Invocation → Word → Prop
  | .inC c, r => c.Follows r
  | .exit errorCode, _ =>
      ∀ (W : Type) (K : Kernel Sys Sys.Ans W) w o w', ¬ Runs K (Wrapper.exit errorCode) w o w'
  | .open errno link s _, r =>
      ∃ k, runLines openCalls none (Libmini.«open» errno link) s =
          .request ⟨s.cpu.regs .rdi, s.cpu.regs .rsi, s.cpu.regs .rdx⟩ k ∧
        ∀ rcx r11, ∃ u, k ⟨r, rcx, r11⟩ = .done (returnAddress s.cpu, u) ∧
          CameBack s (returnAddress s.cpu, u) ∧
          (eax u.cpu, readWord u.cpu.mem errno) =
            if r.toInt < 0 then (-1, -r) else (r.setWidth 32, 0)

theorem follows_exit (errorCode : BitVec 32) (r : Word) :
    (Invocation.exit errorCode).Follows r := by
  rintro W K w o w' ⟨x, -⟩
  exact nomatch x

theorem follows_open (errno : Addr) (link : Word) (s : State) (hapart : ErrnoApart errno s)
    (r : Word) : (Invocation.open errno link s hapart).Follows r :=
  ⟨_, runLines_open link s errno, fun rcx r11 => open_returns hapart link ⟨r, rcx, r11⟩⟩

end Invocation

/-- The wrappers keep the convention, all but `getcwd`: it returns the kernel's result,
which is the length of the path, where the buffer is asked for. -/
theorem convention_iff (i : Invocation) (r : Word) :
    i.Follows r ↔ ∀ buf size, i = .inC (.getcwd buf size) → r.toInt < 0 ∨ r = buf := by
  cases i with
  | exit errorCode => exact iff_of_true (Invocation.follows_exit errorCode r) (by rintro _ _ ⟨⟩)
  | «open» errno link s hapart =>
      exact iff_of_true (Invocation.follows_open errno link s hapart r) (by rintro _ _ ⟨⟩)
  | inC c =>
      rw [Invocation.Follows, Call.follows_iff]
      constructor
      · rintro h buf size ⟨⟩
        rcases lt_or_ge r.toInt 0 with herr | hok
        · exact Or.inl herr
        · have heq := h hok
          rw [Call.converted_getcwd, Call.success_getcwd] at heq
          exact Or.inr heq
      · intro h hok
        by_cases hc : ∃ buf size, c = .getcwd buf size
        · obtain ⟨buf, size, rfl⟩ := hc
          rw [Call.converted_getcwd, Call.success_getcwd]
          rcases h buf size rfl with herr | heq
          · exact absurd herr (not_lt.2 hok)
          · exact heq
        · exact Call.converted_eq_success (fun buf size heq => hc ⟨buf, size, heq⟩) r

/-- A failed `getcwd` is reported as the others are. -/
theorem convention_erange : (Invocation.inC (.getcwd 0x7ffc0000 4)).Follows (-34) :=
  (convention_iff (.inC (.getcwd 0x7ffc0000 4)) (-34)).2
    fun _ _ _ => Or.inl (by decide)

/-- The kernel has written five characters and a zero, and `getcwd` returns 6. -/
theorem getcwd_returns_length :
    ¬ (Invocation.inC (.getcwd 0x7ffc0000 64)).Follows 6 := by
  intro h
  have hsame := (Call.follows_iff (.getcwd 0x7ffc0000 64) 6).1 h (by decide)
  rw [Call.converted_getcwd, Call.success_getcwd] at hsame
  have hne : (6 : Word) ≠ 0x7ffc0000 := by decide
  exact hne hsame

end Libmini
