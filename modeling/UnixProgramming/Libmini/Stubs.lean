import UnixProgramming.Libmini.Wrappers

/-!
# The stubs of the system calls, and `_start`

Between the wrappers in C and the kernel there is one stub of assembly for each system call, all
written by the macro `gensys`; and the program's first instructions, which call `main` and then
`exit`.

* `Stub`, `Stub.lines`, `start` — the assembly, line by line.
* `StubCall` — the calls of the stubs: which one, and with what arguments.
* `runLines_stub` — what a stub asks the kernel, and where it goes on.
* `stub_call` — every call of a stub reaches the kernel with its arguments, and comes back
  with the result, if the kernel leaves the stub's part of the stack alone.
* `start_runs` — a process is `main` with its arguments, and then `exit` with its value.
-/

namespace Libmini

open ByteMemory X86 Requests

/-! ## The kernel -/

/-- What a system call is asked: its number, the six registers and the memory. -/
structure Asked where
  number : Word
  args : List Word
  mem : Memory

/-- What it answers: its result, the two registers it overwrites, and the memory. -/
structure Answer where
  ret : Word
  rcx : Word
  r11 : Word
  mem : Memory

/-- Where the kernel takes its arguments from. -/
def kernelArgs : List Reg := [.rdi, .rsi, .rdx, .r10, .r8, .r9]

/-- The thread back from the kernel. -/
def Answer.back (x : Answer) (c : Cpu) : Cpu :=
  { ((c.set .rax x.ret).set .rcx x.rcx).set .r11 x.r11 with mem := x.mem }

/-- Code that makes any system call. -/
abbrev Calling := Prog Asked (fun _ => Answer) Astray

/-- `syscall`. -/
def enterSystem (s : State) : Calling State := do
  let x ← Prog.ask ⟨s.cpu.regs .rax, kernelArgs.map s.cpu.regs, s.cpu.mem⟩
  return { s with cpu := x.back s.cpu }

/-! ## The stubs -/

/-- What `gensys` is expanded for. -/
inductive Stub where
  | read
  | write
  | «open»
  | close
  | mmap
  | mprotect
  | munmap
  | rtSigaction
  | rtSigprocmask
  | pipe
  | dup
  | dup2
  | pause
  | nanosleep
  | alarm
  | fork
  | exit
  | getcwd
  | chdir
  | rename
  | mkdir
  | rmdir
  | creat
  | link
  | unlink
  | readlink
  | chmod
  | chown
  | umask
  | gettimeofday
  | getuid
  | getgid
  | setuid
  | setgid
  | geteuid
  | getegid
  | rtSigpending
  deriving DecidableEq

namespace Stub

/-- Its number. -/
def number : Stub → Word
  | read => 0
  | write => 1
  | «open» => 2
  | close => 3
  | mmap => 9
  | mprotect => 10
  | munmap => 11
  | rtSigaction => 13
  | rtSigprocmask => 14
  | pipe => 22
  | dup => 32
  | dup2 => 33
  | pause => 34
  | nanosleep => 35
  | alarm => 37
  | fork => 57
  | exit => 60
  | getcwd => 79
  | chdir => 80
  | rename => 82
  | mkdir => 83
  | rmdir => 84
  | creat => 85
  | link => 86
  | unlink => 88
  | readlink => 89
  | chmod => 90
  | chown => 92
  | umask => 95
  | gettimeofday => 96
  | getuid => 102
  | getgid => 104
  | setuid => 105
  | setgid => 106
  | geteuid => 107
  | getegid => 108
  | rtSigpending => 127

/-- Its lines. -/
def lines (f : Stub) : List (Line Empty Empty) := gensys f.number

end Stub

/-- What the stubs run in. -/
def stubs : Surroundings Empty Asked (fun _ => Answer) Astray := ⟨enterSystem, nofun, .ranOff⟩

/-! ## What the library calls -/

/-- An argument in C: an `int`, or something as wide as a register. -/
inductive Arg where
  | int (v : BitVec 32)
  | long (v : Word)

/-- A register holds it; of an `int` the upper half is left open. -/
def Arg.In : Arg → Word → Prop
  | int v, w => w.setWidth 32 = v
  | long v, w => w = v

/-- Where arguments are passed in C. -/
def callArgs : List Reg := [.rdi, .rsi, .rdx, .rcx, .r8, .r9]

namespace SysCall

/-- The stub that makes the call. -/
def stub : SysCall → Stub
  | alarm _ => .alarm
  | read _ _ _ => .read
  | write _ _ _ => .write
  | close _ => .close
  | mmap _ _ _ _ _ _ => .mmap
  | mprotect _ _ _ => .mprotect
  | munmap _ _ => .munmap
  | pipe _ => .pipe
  | dup _ => .dup
  | dup2 _ _ => .dup2
  | pause => .pause
  | nanosleep _ _ => .nanosleep
  | fork => .fork
  | getcwd _ _ => .getcwd
  | chdir _ => .chdir
  | rename _ _ => .rename
  | mkdir _ _ => .mkdir
  | rmdir _ => .rmdir
  | creat _ _ => .creat
  | link _ _ => .link
  | unlink _ => .unlink
  | readlink _ _ _ => .readlink
  | chmod _ _ => .chmod
  | chown _ _ _ => .chown
  | umask _ => .umask
  | gettimeofday _ _ => .gettimeofday
  | getuid => .getuid
  | getgid => .getgid
  | setuid _ => .setuid
  | setgid _ => .setgid
  | geteuid => .geteuid
  | getegid => .getegid
  | rtSigpending _ _ => .rtSigpending
  | rtSigprocmask _ _ _ _ => .rtSigprocmask

/-- Its arguments, as the header declares them. -/
def args : SysCall → List Arg
  | alarm sec => [.int sec]
  | read fd buf count => [.int fd, .long buf, .long count]
  | write fd buf count => [.int fd, .long buf, .long count]
  | close fd => [.int fd]
  | mmap addr len prot flags fd off =>
      [.long addr, .long len, .int prot, .int flags, .int fd, .long off]
  | mprotect addr len prot => [.long addr, .long len, .int prot]
  | munmap addr len => [.long addr, .long len]
  | pipe filedes => [.long filedes]
  | dup filedes => [.int filedes]
  | dup2 oldfd newfd => [.int oldfd, .int newfd]
  | nanosleep rqtp rmtp => [.long rqtp, .long rmtp]
  | getcwd buf size => [.long buf, .long size]
  | chdir pathname => [.long pathname]
  | rename oldname newname => [.long oldname, .long newname]
  | mkdir pathname mode => [.long pathname, .int mode]
  | rmdir pathname => [.long pathname]
  | creat pathname mode => [.long pathname, .int mode]
  | link oldname newname => [.long oldname, .long newname]
  | unlink pathname => [.long pathname]
  | readlink path buf bufsz => [.long path, .long buf, .long bufsz]
  | chmod filename mode => [.long filename, .int mode]
  | chown filename user group => [.long filename, .int user, .int group]
  | umask mask => [.int mask]
  | gettimeofday tv tz => [.long tv, .long tz]
  | setuid uid => [.int uid]
  | setgid gid => [.int gid]
  | rtSigpending set sigsetsize => [.long set, .long sigsetsize]
  | rtSigprocmask how set oldset sigsetsize =>
      [.int how, .long set, .long oldset, .long sigsetsize]
  | pause => []
  | fork => []
  | getuid => []
  | getgid => []
  | geteuid => []
  | getegid => []

end SysCall

/-- A call of a stub: by a wrapper, by `sigaction`, by `open` or by `exit`. -/
inductive StubCall where
  | call (c : SysCall)
  | rtSigaction (signo : BitVec 32) (act oldact : Addr) (sigsetsize : Word)
  | «open» (filename : Addr) (flags mode : BitVec 32)
  | exit (errorCode : BitVec 32)

namespace StubCall

/-- The stub. -/
def stub : StubCall → Stub
  | call c => c.stub
  | rtSigaction _ _ _ _ => .rtSigaction
  | «open» _ _ _ => .open
  | exit _ => .exit

/-- Its arguments. -/
def args : StubCall → List Arg
  | call c => c.args
  | rtSigaction signo act oldact sigsetsize =>
      [.int signo, .long act, .long oldact, .long sigsetsize]
  | «open» filename flags mode => [.long filename, .int flags, .int mode]
  | exit errorCode => [.int errorCode]

/-- Words hold its arguments, and there may be more of them. -/
def In (c : StubCall) (ws : List Word) : Prop :=
  List.Forall₂ Arg.In c.args (ws.take c.args.length)

end StubCall

/-! ## A stub -/

/-- The thread in the kernel. -/
def inStub (f : Stub) (t : State) : Cpu :=
  let c := (t.cpu.set .rsp (t.cpu.regs .rsp - 8)).store (t.cpu.regs .rsp - 8) (t.cpu.regs .r10)
  (c.set .r10 (c.regs .rcx)).set .rax f.number

/-- And on its return to the caller. -/
def fromStub (f : Stub) (t : State) (x : Answer) : Cpu :=
  let c := x.back (inStub f t)
  let c := (c.set .rsp (c.regs .rsp + 8)).set .r10 (readWord c.mem (c.regs .rsp))
  c.set .rsp (c.regs .rsp + 8)

/-- The memory in the kernel: `r10` is below the address to return to. -/
def stubMem (t : State) : Memory :=
  writeWord t.cpu.mem (t.cpu.regs .rsp - 8) (t.cpu.regs .r10)

/-- The request has the number of the stub and the registers of the call. -/
theorem runLines_stub (f : Stub) (t : State) :
    runLines stubs none f.lines t =
      .request ⟨f.number, callArgs.map t.cpu.regs, stubMem t⟩ fun x =>
        .done (readWord x.mem (t.cpu.regs .rsp - 8 + 8), ⟨fromStub f t x, t.flags⟩) := rfl

/-- The kernel leaves the two words of the stub alone. -/
def LeavesStub (t : State) (x : Answer) : Prop :=
  ∀ a, InBlock (t.cpu.regs .rsp - 8) 16 a → x.mem a = stubMem t a

section Stub

variable {f : Stub} {t : State} {x : Answer}

theorem readWord_stub_r10 (h : LeavesStub t x) :
    readWord x.mem (t.cpu.regs .rsp - 8) = t.cpu.regs .r10 := by
  have hsame : readWord x.mem (t.cpu.regs .rsp - 8) = readWord (stubMem t) (t.cpu.regs .rsp - 8) :=
    readWord_congr fun a ha => h a (lt_of_lt_of_le ha (by norm_num))
  rw [hsame, stubMem, readWord_writeWord]

theorem readWord_stub_returnAddress (h : LeavesStub t x) :
    readWord x.mem (t.cpu.regs .rsp - 8 + 8) = returnAddress t.cpu := by
  have hsame : readWord x.mem (t.cpu.regs .rsp - 8 + 8) =
      readWord (stubMem t) (t.cpu.regs .rsp - 8 + 8) :=
    readWord_congr fun a ha => h a (inBlock_of_inWord ha (by norm_num) (by norm_num))
  rw [hsame, stubMem, BitVec.sub_add_cancel, readWord_writeWord_of_apart, returnAddress]
  all_goals bv_omega

/-- A stub comes back with the result; what it uses of the registers is put back. -/
theorem stub_comesBack (h : LeavesStub t x) :
    CameBack t (readWord x.mem (t.cpu.regs .rsp - 8 + 8), ⟨fromStub f t x, t.flags⟩) ∧
      (fromStub f t x).regs .rax = x.ret ∧ (fromStub f t x).regs .r10 = t.cpu.regs .r10 ∧
      (fromStub f t x).mem = x.mem := by
  refine ⟨⟨readWord_stub_returnAddress h, ?_, ?_⟩, rfl, readWord_stub_r10 h, rfl⟩
  · have hrsp : (fromStub f t x).regs .rsp = t.cpu.regs .rsp - 8 + 8 + 8 := rfl
    exact hrsp.trans (congrArg (· + 8) (BitVec.sub_add_cancel _ _))
  · intro r hr
    simp only [calleeSaved, List.mem_cons, List.not_mem_nil, or_false] at hr
    rcases hr with rfl | rfl | rfl | rfl | rfl | rfl
    all_goals rfl

end Stub

/-- **A call reaches the kernel.**  The stub asks the kernel for its call with the arguments it
was called with; and if the kernel answers and leaves the stub's words alone, whatever else it
writes, the stub comes back to its caller with the kernel's result and memory and the registers
the caller counts on. -/
theorem stub_call (c : StubCall) (t : State) (hargs : c.In (callArgs.map t.cpu.regs)) :
    ∃ q k, runLines stubs none c.stub.lines t = .request q k ∧
      q.number = c.stub.number ∧ c.In q.args ∧
      (∀ a, ¬ InWord (t.cpu.regs .rsp - 8) a → q.mem a = t.cpu.mem a) ∧
      ∀ x, LeavesStub t x → ∃ r, k x = .done r ∧ CameBack t r ∧
        r.2.cpu.regs .rax = x.ret ∧ r.2.cpu.regs .r10 = t.cpu.regs .r10 ∧ r.2.cpu.mem = x.mem :=
  ⟨_, _, runLines_stub c.stub t, rfl, hargs, fun _ => writeWord_of_not_inWord,
    fun _ hx => ⟨_, rfl, stub_comesBack hx⟩⟩

namespace Sample

/-- A call of `sys_write(1, 0x6000, 5)`, with something left in the upper half of `rdi`. -/
def writer : State where
  cpu :=
    { regs r :=
        match r with
        | .rdi => 0x700000001
        | .rsi => 0x6000
        | .rdx => 5
        | .rsp => 0x7fff0000
        | _ => 0
      mem := writeWord (fun _ => 0) 0x7fff0000 0x401000 }
  flags := ⟨false, false⟩

theorem in_writer : (StubCall.call (.write 1 0x6000 5)).In (callArgs.map writer.cpu.regs) :=
  .cons rfl (.cons rfl (.cons rfl .nil))

theorem returnAddress_writer : returnAddress writer.cpu = 0x401000 := readWord_writeWord _ _ _

end Sample

/-- The kernel is asked for call 1, and a kernel that writes nothing is come back from. -/
theorem stub_call_writer :
    ∃ q k, runLines stubs none Stub.write.lines Sample.writer = .request q k ∧ q.number = 1 ∧
      ∃ u, k ⟨5, 0, 0, q.mem⟩ = .done (0x401000, u) ∧ u.cpu.regs .rax = 5 := by
  have hreq := runLines_stub Stub.write Sample.writer
  obtain ⟨q, k, hrun, hnumber, -, -, hback⟩ := stub_call (.call (.write 1 0x6000 5))
    Sample.writer Sample.in_writer
  have hq : q.mem = stubMem Sample.writer := by
    have hsame := hrun.symm.trans hreq
    exact congrArg Asked.mem (Prog.request.inj hsame).1
  have hleaves : LeavesStub Sample.writer ⟨5, 0, 0, q.mem⟩ := fun a _ => congrFun hq a
  obtain ⟨⟨target, u⟩, hdone, hcame, hrax, -⟩ := hback _ hleaves
  have htarget : target = 0x401000 := hcame.target.trans Sample.returnAddress_writer
  rw [htarget] at hdone
  exact ⟨q, k, hrun, hnumber, u, hdone, hrax⟩

/-! ## `_start` -/

/-- What `_start` calls. -/
inductive StartCallee where
  | main
  | exit
  deriving DecidableEq

/-- `_start` from the line after the call of `main` on. -/
def startExit (afterExit : Word) : List (Line Empty StartCallee) :=
  [ .instr (.mov .rdi .rax),        -- exit code
    .call .exit afterExit,
    .instr .ret ]

/-- `_start`; `afterMain` and `afterExit` are the addresses of the lines after its calls. -/
def start (afterMain afterExit : Word) : List (Line Empty StartCallee) :=
  [ .instr (.load .rdi .rsp 0),     -- argc
    .op (.lea .rsi .rsp 8),         -- argv
    .call .main afterMain ] ++ startExit afterExit

/-- A program, as `_start` calls it. -/
abbrev Main := State → Prog Sys Sys.Ans Astray (Word × State)

/-- `exit(error_code)`: it gets no answer. -/
def exitRoutine : Main := fun s =>
  .request (.exit ((s.cpu.regs .rdi).setWidth 32)) Empty.elim

/-- What `_start` runs in. -/
def startCalls (main : Main) : Surroundings StartCallee Sys Sys.Ans Astray where
  syscall s := .fault (.systemCall (s.cpu.regs .rax))
  routine
    | .main => main
    | .exit => exitRoutine
  runsOff := .ranOff

/-- The thread in `main`. -/
def atMain (afterMain : Word) (s : State) : State :=
  let c := s.cpu.set .rdi (readWord s.cpu.mem (offset (s.cpu.regs .rsp) 0))
  State.enter ⟨c.set .rsi (offset (c.regs .rsp) 8), s.flags⟩ afterMain

theorem runLines_startExit (main : Main) (afterExit : Word) (s : State) :
    runLines (startCalls main) none (startExit afterExit) s =
      .request (.exit (eax s.cpu)) Empty.elim := by
  have hexit : runLines (startCalls main) none (startExit afterExit) s =
      .request (.exit (eax s.cpu)) fun x =>
        (Empty.elim x : Prog Sys Sys.Ans Astray (Word × State)) >>= fun r =>
          if r.1 = afterExit then runLines (startCalls main) none [.instr .ret] r.2
          else .done (r.1, r.2) := rfl
  rw [hexit]
  exact congrArg (Prog.request _) (funext fun x => x.elim)

theorem runLines_start (main : Main) (afterMain afterExit : Word) (s : State) :
    runLines (startCalls main) none (start afterMain afterExit) s =
      main (atMain afterMain s) >>= fun r =>
        if r.1 = afterMain then .request (.exit (eax r.2.cpu)) Empty.elim else .done (r.1, r.2) := by
  have hcall : runLines (startCalls main) none (start afterMain afterExit) s =
      main (atMain afterMain s) >>= fun r =>
        if r.1 = afterMain then runLines (startCalls main) none (startExit afterExit) r.2
        else .done (r.1, r.2) := rfl
  rw [hcall]
  simp only [runLines_startExit]

/-- The program returns to its caller, if it ends, whatever it is answered. -/
def Returns (main : Main) : Prop :=
  ∀ s, Within (fun _ => True) (fun _ => True) (fun r => r.1 = returnAddress s.cpu) (main s)

theorem returnAddress_atMain (afterMain : Word) (s : State) :
    returnAddress (atMain afterMain s).cpu = afterMain := readWord_writeWord _ _ _

/-- **A process is its `main`.**  `_start` hands `main` the count and the address of its
arguments, on a stack that is aligned as a function expects it; whatever `main` does then, with
the value it returns the process exits, and it comes to nothing behind that. -/
theorem start_runs {main : Main} (hmain : Returns main) (afterMain afterExit : Word) (s : State) :
    (runLines (startCalls main) none (start afterMain afterExit) s =
      main (atMain afterMain s) >>= fun r => .request (.exit (eax r.2.cpu)) Empty.elim) ∧
    (atMain afterMain s).cpu.regs .rdi = returnAddress s.cpu ∧
    (atMain afterMain s).cpu.regs .rsi = s.cpu.regs .rsp + 8 ∧
    (s.cpu.regs .rsp % 16 = 0 → ((atMain afterMain s).cpu.regs .rsp + 8) % 16 = 0) ∧
    ∀ (W : Type) (K : Kernel Sys Sys.Ans W) w r w',
      ¬ Runs K (runLines (startCalls main) none (start afterMain afterExit) s) w (.done r) w' := by
  have hruns : runLines (startCalls main) none (start afterMain afterExit) s =
      main (atMain afterMain s) >>= fun r => .request (.exit (eax r.2.cpu)) Empty.elim := by
    rw [runLines_start]
    refine (hmain (atMain afterMain s)).bind_congr fun r hr => if_pos ?_
    rw [hr, returnAddress_atMain]
  refine ⟨hruns, ?_, rfl, fun h => ?_, ?_⟩
  · exact congrArg (readWord s.cpu.mem) (offset_zero _)
  · have hrsp : (atMain afterMain s).cpu.regs .rsp = s.cpu.regs .rsp - 8 := rfl
    rw [hrsp, BitVec.sub_add_cancel, h]
  · intro W K w r w' h
    rw [hruns, runs_bind] at h
    rcases h with ⟨r', w₁, -, x, -⟩ | ⟨e, -, heq⟩
    · exact x.elim
    · cases heq

namespace Sample

/-- A program that returns the number of its arguments. -/
def counting : Main := fun s =>
  .done (returnAddress s.cpu, { s with cpu := s.cpu.set .rax (s.cpu.regs .rdi) })

/-- A process that is started with three arguments. -/
def threeArgs : State where
  cpu :=
    { regs := Function.update (fun _ => 0) .rsp 0x7fff0000
      mem := writeWord (fun _ => 0) 0x7fff0000 3 }
  flags := ⟨false, false⟩

end Sample

/-- It exits with 3. -/
theorem start_runs_counting :
    runLines (startCalls Sample.counting) none (start 0x401010 0x401020) Sample.threeArgs =
      .request (.exit 3) Empty.elim := by
  have hmain : Returns Sample.counting := fun _ => rfl
  obtain ⟨hruns, hargc, -⟩ := start_runs hmain 0x401010 0x401020 Sample.threeArgs
  have hthree : returnAddress Sample.threeArgs.cpu = 3 := readWord_writeWord _ _ _
  rw [hthree] at hargc
  rw [hruns]
  have heax : eax ((atMain 0x401010 Sample.threeArgs).cpu.set .rax
      ((atMain 0x401010 Sample.threeArgs).cpu.regs .rdi)) = 3 := by
    rw [hargc]
    rfl
  have hexit : ∀ v : BitVec 32, v = 3 →
      (.request (.exit v) Empty.elim : Prog Sys Sys.Ans Astray (Word × State)) =
        .request (.exit 3) Empty.elim := by
    rintro v rfl
    rfl
  exact hexit _ heax

end Libmini
