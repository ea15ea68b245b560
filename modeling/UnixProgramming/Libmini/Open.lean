import UnixProgramming.Libmini.Sleep

/-!
# `open`

The wrapper of `open` is in assembly, because of its optional argument.  It repeats by
hand what the macros do for the wrappers in C.

* `sysOpen`, `«open»` — the assembly, line by line.
* `runLines_open` — what it asks, and how it goes on.
* `runLines_openResult` — the two ways it ends.
* `open_returns` — the value in `eax` and the one in `errno`.
-/

namespace Libmini

open ByteMemory X86 Requests

/-- What `open` is asked. -/
structure SysOpen where
  filename : Word
  flags : Word
  mode : Word
  deriving DecidableEq

/-- What it answers: its result, and the two registers every system call overwrites. -/
structure Opened where
  ret : Word
  rcx : Word
  r11 : Word

/-- Code that opens a file. -/
abbrev Opening := Prog SysOpen (fun _ => Opened) Astray

/-- The thread back from the kernel. -/
def Opened.back (x : Opened) (c : Cpu) : Cpu := ((c.set .rax x.ret).set .rcx x.rcx).set .r11 x.r11

/-- `syscall`, for call 2. -/
def enterOpen (s : State) : Opening State :=
  if s.cpu.regs .rax = 2 then do
    let x ← Prog.ask ⟨s.cpu.regs .rdi, s.cpu.regs .rsi, s.cpu.regs .rdx⟩
    return { s with cpu := x.back s.cpu }
  else .fault (.systemCall (s.cpu.regs .rax))

/-- `sys_open`. -/
def sysOpen : List (Line Empty Empty) := gensys 2

/-- The labels of `open`. -/
inductive OpenLabel where
  | openError
  | openSuccess
  | openQuit
  deriving DecidableEq

/-- The routine it calls. -/
inductive OpenCallee where
  | sysOpen
  deriving DecidableEq

/-- What `open` runs in. -/
def openCalls : Surroundings OpenCallee SysOpen (fun _ => Opened) Astray where
  syscall := enterOpen
  routine
    | .sysOpen => runLines ⟨enterOpen, nofun, .ranOff⟩ none sysOpen
  runsOff := .ranOff

/-- `open` from the line after the call on; `errno` is the address the linker has put
into the table of addresses. -/
def openResult (errno : Addr) : List (Line OpenLabel OpenCallee) :=
  [ .op (.cmpImm .rax 0),
    .jge .openSuccess,              -- no error
    .label .openError,
    .op (.neg .rax),
    .op (.movImm .rdi errno),
    .instr (.store .rdi 0 .rax),    -- errno = -rax
    .op (.movImm .rax (-1)),
    .jmp .openQuit,
    .label .openSuccess,
    .op (.movImm .rdi errno),
    .op (.storeImm .rdi 0 0),       -- errno = 0
    .label .openQuit,
    .instr .ret ]

/-- `open(filename, flags, mode)`; `link` is the address of the line after the call. -/
def «open» (errno : Addr) (link : Word) : List (Line OpenLabel OpenCallee) :=
  .call .sysOpen link :: openResult errno

/-! ## The call -/

/-- The thread in the kernel, from a call of `sys_open`. -/
def inOpen (t : State) : Cpu :=
  let c := (t.cpu.set .rsp (t.cpu.regs .rsp - 8)).store (t.cpu.regs .rsp - 8) (t.cpu.regs .r10)
  (c.set .r10 (c.regs .rcx)).set .rax 2

/-- And on its return to the caller. -/
def fromOpen (t : State) (x : Opened) : Cpu :=
  let c := x.back (inOpen t)
  let c := (c.set .rsp (c.regs .rsp + 8)).set .r10 (readWord c.mem (c.regs .rsp))
  c.set .rsp (c.regs .rsp + 8)

theorem runLines_sysOpen (t : State) :
    openCalls.routine .sysOpen t =
      .request ⟨t.cpu.regs .rdi, t.cpu.regs .rsi, t.cpu.regs .rdx⟩ fun x =>
        .done (readWord (inOpen t).mem (t.cpu.regs .rsp - 8 + 8), ⟨fromOpen t x, t.flags⟩) := rfl

/-- The thread after the call, on the way to its caller. -/
def afterOpen (link : Word) (s : State) (x : Opened) : State :=
  ⟨fromOpen (s.enter link) x, s.flags⟩

/-- The memory in the kernel: the address to return to, and `r10`. -/
def openMem (link : Word) (s : State) : Memory :=
  writeWord (writeWord s.cpu.mem (s.cpu.regs .rsp - 8) link) (s.cpu.regs .rsp - 8 - 8)
    (s.cpu.regs .r10)

section Call

variable (link : Word) (s : State)

theorem mem_inOpen : (inOpen (s.enter link)).mem = openMem link s := rfl

theorem readWord_openMem_link : readWord (openMem link s) (s.cpu.regs .rsp - 8) = link := by
  rw [openMem, readWord_writeWord_of_apart, readWord_writeWord]
  all_goals bv_omega

theorem readWord_openMem_returnAddress :
    readWord (openMem link s) (s.cpu.regs .rsp) = returnAddress s.cpu := by
  rw [openMem, readWord_writeWord_of_apart, readWord_writeWord_of_apart, returnAddress]
  all_goals bv_omega

/-- The request is in the registers, and the call returns. -/
theorem routine_sysOpen :
    openCalls.routine .sysOpen (s.enter link) =
      (Prog.request ⟨s.cpu.regs .rdi, s.cpu.regs .rsi, s.cpu.regs .rdx⟩ fun x =>
        .done (afterOpen link s x)) >>= fun t => .done (link, t) := by
  have hroutine := runLines_sysOpen (s.enter link)
  have hentry : s.cpu.regs .rsp - 8 - 8 + 8 = s.cpu.regs .rsp - 8 := BitVec.sub_add_cancel _ _
  have hlink :
      readWord (inOpen (s.enter link)).mem ((s.enter link).cpu.regs .rsp - 8 + 8) = link := by
    rw [mem_inOpen]
    change readWord _ (s.cpu.regs .rsp - 8 - 8 + 8) = link
    rw [hentry, readWord_openMem_link]
  rw [hlink] at hroutine
  exact hroutine

theorem runLines_open (errno : Addr) :
    runLines openCalls none («open» errno link) s =
      .request ⟨s.cpu.regs .rdi, s.cpu.regs .rsi, s.cpu.regs .rdx⟩ fun x =>
        runLines openCalls none (openResult errno) (afterOpen link s x) := by
  rw [«open», runLines_call _ _ _ (routine_sysOpen link s)]
  rfl

theorem afterOpen_rax (x : Opened) : (afterOpen link s x).cpu.regs .rax = x.ret := rfl

theorem afterOpen_mem (x : Opened) : (afterOpen link s x).cpu.mem = openMem link s := rfl

theorem afterOpen_rsp (x : Opened) : (afterOpen link s x).cpu.regs .rsp = s.cpu.regs .rsp := by
  have hrsp : (afterOpen link s x).cpu.regs .rsp = s.cpu.regs .rsp - 8 - 8 + 8 + 8 := rfl
  rw [hrsp, BitVec.sub_add_cancel, BitVec.sub_add_cancel]

theorem afterOpen_calleeSaved (x : Opened) :
    ∀ q ∈ calleeSaved, (afterOpen link s x).cpu.regs q = s.cpu.regs q := by
  intro q hq
  simp only [calleeSaved, List.mem_cons, List.not_mem_nil, or_false] at hq
  rcases hq with rfl | rfl | rfl | rfl | rfl | rfl
  all_goals rfl

end Call

/-! ## The result -/

/-- `errno` does not lie on the address to return to. -/
def ErrnoApart (errno : Addr) (s : State) : Prop :=
  8 ≤ (errno - s.cpu.regs .rsp).toNat ∧ 8 ≤ (s.cpu.regs .rsp - errno).toNat

/-- The two ways `open` ends, both with a return to its caller. -/
theorem runLines_openResult {errno : Addr} {t : State} (hapart : ErrnoApart errno t) :
    ∃ u, runLines openCalls none (openResult errno) t = .done (returnAddress t.cpu, u) ∧
      (u.cpu.regs .rax, readWord u.cpu.mem errno) =
        (if (t.cpu.regs .rax).toInt < 0 then (-1, -t.cpu.regs .rax) else (t.cpu.regs .rax, 0)) ∧
      u.cpu.regs .rsp = t.cpu.regs .rsp + 8 ∧
      ∀ q ∈ calleeSaved, u.cpu.regs q = t.cpu.regs q := by
  have hreturn : ∀ v : Word,
      readWord (writeWord t.cpu.mem (offset errno 0) v) (t.cpu.regs .rsp) =
        returnAddress t.cpu := by
    intro v
    rw [offset_zero, readWord_writeWord_of_apart hapart.1 hapart.2, returnAddress]
  have herrno : ∀ v : Word, readWord (writeWord t.cpu.mem (offset errno 0) v) errno = v := by
    intro v
    rw [offset_zero, readWord_writeWord]
  rw [openResult, runLines_op, runLines_jge]
  by_cases herr : (t.cpu.regs .rax).toInt < 0
  · have hflag : (execOp (.cmpImm .rax 0) t).flags.less = true := by
      simp [execOp, Flags.ofSub, herr]
    rw [hflag, if_pos rfl, if_pos herr, runLines_label, ← hreturn (-t.cpu.regs .rax)]
    refine ⟨_, rfl, ?_, ?_, ?_⟩
    · refine Prod.ext rfl ?_
      exact herrno (-t.cpu.regs .rax)
    · rfl
    · simp [execOp, calleeSaved]
  · have hflag : (execOp (.cmpImm .rax 0) t).flags.less = false := by
      simp [execOp, Flags.ofSub]
      omega
    rw [hflag, if_neg Bool.false_ne_true, if_neg herr, ← hreturn 0]
    refine ⟨_, rfl, ?_, ?_, ?_⟩
    · refine Prod.ext rfl ?_
      exact herrno 0
    · rfl
    · simp [execOp, calleeSaved]

/-- `open` asks for the file and, answered, comes back to its caller with the value and
with `errno` set. -/
theorem open_returns {errno : Addr} {s : State} (hapart : ErrnoApart errno s) (link : Word)
    (x : Opened) :
    ∃ u, runLines openCalls none (openResult errno) (afterOpen link s x) =
        .done (returnAddress s.cpu, u) ∧ CameBack s (returnAddress s.cpu, u) ∧
      (eax u.cpu, readWord u.cpu.mem errno) =
        if x.ret.toInt < 0 then (-1, -x.ret) else (x.ret.setWidth 32, 0) := by
  have hapart' : ErrnoApart errno (afterOpen link s x) := by
    rw [ErrnoApart, afterOpen_rsp]
    exact hapart
  obtain ⟨u, hrun, hvalue, hrsp, hkept⟩ := runLines_openResult hapart'
  have hreturn : returnAddress (afterOpen link s x).cpu = returnAddress s.cpu := by
    rw [returnAddress, afterOpen_rsp, afterOpen_mem, readWord_openMem_returnAddress]
  rw [afterOpen_rax] at hvalue
  rw [afterOpen_rsp] at hrsp
  refine ⟨u, by rw [hrun, hreturn], ⟨rfl, hrsp, fun q hq => ?_⟩, ?_⟩
  · rw [hkept q hq, afterOpen_calleeSaved link s x q hq]
  · rw [eax]
    split
    · next herr =>
        rw [if_pos herr, Prod.mk.injEq] at hvalue
        rw [hvalue.1, hvalue.2]
        rfl
    · next hok =>
        rw [if_neg hok, Prod.mk.injEq] at hvalue
        rw [hvalue.1, hvalue.2]

end Libmini
