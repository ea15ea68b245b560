import UnixProgramming.Libmini.Setjmp
import UnixProgramming.Machine.Routines

/-!
# `sleep`

There are two versions of `sleep`: one in C, which is not compiled, and the one in
assembly that stands for it.  Both ask the kernel to sleep and turn its answer into
an `unsigned int`.

* `sysNanosleep`, `sleep` — the assembly, line by line.
* `sleepC` — the version in C.
* `runLines_sysNanosleep`, `runLines_sleep` — what the assembly asks, and how it goes on.
* `runLines_sleepResult` — the three ways it ends.
* `sleep_eq_sleepC_iff` — the two are the same exactly when nothing stands in the
  upper half of `rdi`.
-/

namespace Libmini

open ByteMemory X86 Requests

/-! ## The system call -/

/-- What `nanosleep` is asked: the time at the address it is given. -/
structure Nanosleep where
  sec : Word
  nsec : Word
  deriving DecidableEq

/-- What it answers: its result, the time that remained if it stores one, and the
two registers every system call overwrites. -/
structure Slept where
  ret : Word
  rem : Option (Word × Word)
  rcx : Word
  r11 : Word

/-- What stops the code. -/
inductive Astray where
  | ranOff
  /-- No other system call is made here. -/
  | systemCall (number : Word)

/-- Code that sleeps. -/
abbrev Sleeping := Prog Nanosleep (fun _ => Slept) Astray

/-- The memory once the time that remained is stored at `a`. -/
def Slept.storeRem (x : Slept) (a : Addr) (m : Memory) : Memory :=
  match x.rem with
  | none => m
  | some (sec, nsec) => writeWord (writeWord m a sec) (offset a 8) nsec

/-- The thread back from the kernel. -/
def Slept.back (x : Slept) (c : Cpu) : Cpu :=
  let c := ((c.set .rax x.ret).set .rcx x.rcx).set .r11 x.r11
  { c with mem := x.storeRem (c.regs .rsi) c.mem }

/-- `syscall`, for call 35: the request is at `rdi`, and the rest goes to `rsi`. -/
def enterKernel (s : State) : Sleeping State :=
  if s.cpu.regs .rax = 35 then do
    let x ← Prog.ask ⟨readWord s.cpu.mem (s.cpu.regs .rdi),
      readWord s.cpu.mem (offset (s.cpu.regs .rdi) 8)⟩
    return { s with cpu := x.back s.cpu }
  else .fault (.systemCall (s.cpu.regs .rax))

/-- The macro `gensys`, for the call with this number. -/
def gensys (number : Word) : List (Line Empty Empty) :=
  [ .instr (.push .r10),
    .instr (.mov .r10 .rcx),
    .op (.movImm .rax number),
    .syscall,
    .instr (.pop .r10),
    .instr .ret ]

/-- `sys_nanosleep`. -/
def sysNanosleep : List (Line Empty Empty) := gensys 35

/-- A routine that calls no other. -/
def leaf : Surroundings Empty Nanosleep (fun _ => Slept) Astray := ⟨enterKernel, nofun, .ranOff⟩

/-! ## The two versions -/

/-- The labels of `sleep`. -/
inductive SleepLabel where
  | sleepError
  | sleepInterrupted
  | sleepFailed
  | sleepQuit
  deriving DecidableEq

/-- The routine it calls. -/
inductive SleepCallee where
  | sysNanosleep
  deriving DecidableEq

/-- What `sleep` runs in. -/
def sleepCalls : Surroundings SleepCallee Nanosleep (fun _ => Slept) Astray where
  syscall := enterKernel
  routine
    | .sysNanosleep => runLines leaf none sysNanosleep
  runsOff := .ranOff

/-- `sleep` from the line after the call on. -/
def sleepResult : List (Line SleepLabel SleepCallee) :=
  [ .op (.cmpImm .rax 0),
    .jge .sleepQuit,                -- no error
    .label .sleepError,
    .op (.neg .rax),
    .op (.cmpImm .rax 4),           -- EINTR
    .jne .sleepFailed,
    .label .sleepInterrupted,
    .op (.lea .rsi .rsp 16),
    .instr (.load .rax .rsi 0),     -- return rem.tv_sec
    .jmp .sleepQuit,
    .label .sleepFailed,
    .op (.movImm .rax 0),           -- return 0 on error
    .label .sleepQuit,
    .op (.addImm .rsp 32),
    .instr .ret ]

/-- `sleep(seconds)`, with `seconds` in the low half of `rdi`; `link` is the address
of the line after the call. -/
def sleep (link : Word) : List (Line SleepLabel SleepCallee) :=
  [ .op (.subImm .rsp 32),          -- allocate timespec * 2
    .instr (.store .rsp 0 .rdi),    -- req.tv_sec
    .op (.storeImm .rsp 8 0),       -- req.tv_nsec
    .instr (.mov .rdi .rsp),        -- req at rsp
    .op (.lea .rsi .rsp 16),        -- rem at rsp + 16
    .call .sysNanosleep link ] ++ sleepResult

/-- The version in C; `rem` is what the uninitialised structure holds at first. -/
def sleepC (seconds : BitVec 32) (rem : Word × Word) : Sleeping (BitVec 32) := do
  let x ← Prog.ask ⟨seconds.setWidth 64, 0⟩
  let rem := x.rem.getD rem
  if 0 ≤ x.ret.toInt then return x.ret.setWidth 32
  else if x.ret = -4 then return rem.1.setWidth 32
  else return 0

/-! ## The call -/

/-- The thread where `sleep` makes its call. -/
def atCall (s : State) : State :=
  let bottom := s.cpu.regs .rsp - 32
  let c := ((s.cpu.set .rsp bottom).store (offset bottom 0) (s.cpu.regs .rdi)).store
    (offset bottom 8) 0
  ⟨(c.set .rdi bottom).set .rsi (offset bottom 16), .ofSub (s.cpu.regs .rsp) 32⟩

theorem runLines_sleep_atCall (link : Word) (s : State) :
    runLines sleepCalls none (sleep link) s =
      runLines sleepCalls none (.call .sysNanosleep link :: sleepResult) (atCall s) := rfl

/-- The thread in the kernel, from a call of `sys_nanosleep`. -/
def inKernel (t : State) : Cpu :=
  let c := (t.cpu.set .rsp (t.cpu.regs .rsp - 8)).store (t.cpu.regs .rsp - 8) (t.cpu.regs .r10)
  (c.set .r10 (c.regs .rcx)).set .rax 35

/-- And on its return to the caller. -/
def fromKernel (t : State) (x : Slept) : Cpu :=
  let c := x.back (inKernel t)
  let c := (c.set .rsp (c.regs .rsp + 8)).set .r10 (readWord c.mem (c.regs .rsp))
  c.set .rsp (c.regs .rsp + 8)

theorem runLines_sysNanosleep (t : State) :
    runLines leaf none sysNanosleep t =
      .request ⟨readWord (inKernel t).mem (t.cpu.regs .rdi),
        readWord (inKernel t).mem (offset (t.cpu.regs .rdi) 8)⟩ fun x =>
        .done (readWord (x.back (inKernel t)).mem (t.cpu.regs .rsp - 8 + 8),
          ⟨fromKernel t x, t.flags⟩) := rfl

/-- The memory in the kernel: the request, the address to return to, and `r10`. -/
def kernelMem (link : Word) (s : State) : Memory :=
  let bottom := s.cpu.regs .rsp - 32
  writeWord
    (writeWord
      (writeWord (writeWord s.cpu.mem (offset bottom 0) (s.cpu.regs .rdi)) (offset bottom 8) 0)
      (bottom - 8) link)
    (bottom - 8 - 8) (s.cpu.regs .r10)

theorem mem_inKernel (link : Word) (s : State) :
    (inKernel ((atCall s).enter link)).mem = kernelMem link s := rfl

/-- What a word of the frame holds once the rest is stored. -/
theorem readWord_storeRem_of_apart {x : Slept} {m : Memory} {a b : Addr}
    (h : ∀ y, InWord b y → ¬ InBlock a 16 y) : readWord (x.storeRem a m) b = readWord m b := by
  cases hrem : x.rem with
  | none => rw [Slept.storeRem, hrem]
  | some rem =>
      have hstored : x.storeRem a m = storeWords m a [rem.1, rem.2] := by
        rw [Slept.storeRem, hrem]
        rfl
      rw [hstored]
      exact readWord_storeWords_of_apart (by simp) (by simpa using h)

/-- The first word of the rest. -/
theorem readWord_storeRem (x : Slept) (m : Memory) (a : Addr) :
    readWord (x.storeRem a m) a =
      (x.rem.getD (readWord m a, readWord m (offset a 8))).1 := by
  cases hrem : x.rem with
  | none => rw [Slept.storeRem, hrem, Option.getD_none]
  | some rem =>
      rw [Slept.storeRem, hrem, Option.getD_some, readWord_writeWord_of_apart, readWord_writeWord]
      · bv_omega
      · bv_omega

section Kernel

variable (link : Word) (s : State)

theorem readWord_kernelMem_sec :
    readWord (kernelMem link s) (s.cpu.regs .rsp - 32) = s.cpu.regs .rdi := by
  rw [kernelMem, readWord_writeWord_of_apart, readWord_writeWord_of_apart,
    readWord_writeWord_of_apart, offset_zero, readWord_writeWord]
  all_goals bv_omega

theorem readWord_kernelMem_nsec :
    readWord (kernelMem link s) (offset (s.cpu.regs .rsp - 32) 8) = 0 := by
  rw [kernelMem, readWord_writeWord_of_apart, readWord_writeWord_of_apart, readWord_writeWord]
  all_goals bv_omega

theorem readWord_kernelMem_link :
    readWord (kernelMem link s) (s.cpu.regs .rsp - 32 - 8) = link := by
  rw [kernelMem, readWord_writeWord_of_apart, readWord_writeWord]
  all_goals bv_omega

/-- The words from `rem` on are those there were. -/
theorem readWord_kernelMem_above {k : Nat} (hk : 16 ≤ k) (hk' : k ≤ 32) :
    readWord (kernelMem link s) (offset (s.cpu.regs .rsp - 32) k) =
      readWord s.cpu.mem (offset (s.cpu.regs .rsp - 32) k) := by
  rw [kernelMem, readWord_writeWord_of_apart, readWord_writeWord_of_apart,
    readWord_writeWord_of_apart, readWord_writeWord_of_apart]
  all_goals bv_omega

end Kernel

/-- What `rem` holds before the call. -/
def remBefore (s : State) : Word × Word :=
  (readWord s.cpu.mem (offset (s.cpu.regs .rsp - 32) 16),
    readWord s.cpu.mem (offset (s.cpu.regs .rsp - 32) 24))

/-- The thread after the call, on the way to its caller. -/
def afterCall (link : Word) (s : State) (x : Slept) : State :=
  ⟨fromKernel ((atCall s).enter link) x, ((atCall s).enter link).flags⟩

/-- Nothing the kernel stores reaches the address to return to. -/
theorem readWord_back_link (link : Word) (s : State) (x : Slept) :
    readWord (x.back (inKernel ((atCall s).enter link))).mem (s.cpu.regs .rsp - 32 - 8) = link := by
  have hmem : (x.back (inKernel ((atCall s).enter link))).mem =
      x.storeRem (offset (s.cpu.regs .rsp - 32) 16) (kernelMem link s) := rfl
  rw [hmem, readWord_storeRem_of_apart, readWord_kernelMem_link]
  intro y hy
  simp only [InWord, InBlock] at hy ⊢
  bv_omega

/-- The request is what stands at `req`, and the call returns. -/
theorem routine_sysNanosleep (link : Word) (s : State) :
    sleepCalls.routine .sysNanosleep ((atCall s).enter link) =
      (Prog.request ⟨s.cpu.regs .rdi, 0⟩ fun x => .done (afterCall link s x)) >>= fun t =>
        .done (link, t) := by
  have hreq : (⟨readWord (kernelMem link s) (s.cpu.regs .rsp - 32),
      readWord (kernelMem link s) (offset (s.cpu.regs .rsp - 32) 8)⟩ : Nanosleep) =
        ⟨s.cpu.regs .rdi, 0⟩ := by
    rw [readWord_kernelMem_sec, readWord_kernelMem_nsec]
  have hentry : s.cpu.regs .rsp - 32 - 8 - 8 + 8 = s.cpu.regs .rsp - 32 - 8 :=
    BitVec.sub_add_cancel _ _
  have hroutine := runLines_sysNanosleep ((atCall s).enter link)
  rw [mem_inKernel] at hroutine
  refine hroutine.trans ?_
  rw [Prog.request_bind, ← hreq]
  refine congrArg (Prog.request _) (funext fun x => ?_)
  have hback := readWord_back_link link s x
  rw [← hentry] at hback
  exact congrArg (fun target => Prog.done (target, afterCall link s x)) hback

/-- What `sleep` asks is the whole of `rdi`. -/
theorem runLines_sleep (link : Word) (s : State) :
    runLines sleepCalls none (sleep link) s =
      .request ⟨s.cpu.regs .rdi, 0⟩ fun x =>
        runLines sleepCalls none sleepResult (afterCall link s x) := by
  rw [runLines_sleep_atCall, runLines_call _ _ _ (routine_sysNanosleep link s)]
  rfl

/-! ## The result -/

/-- The value of a call that was answered `ret`, `sec` being what `rem` holds. -/
def sleepValue (ret sec : Word) : Word :=
  if 0 ≤ ret.toInt then ret else if ret = -4 then sec else 0

/-- The three ways `sleep` ends, all of them with a return to its caller. -/
theorem runLines_sleepResult (t : State) :
    ∃ u, runLines sleepCalls none sleepResult t =
        .done (readWord t.cpu.mem (t.cpu.regs .rsp + 32), u) ∧
      u.cpu.regs .rax =
        sleepValue (t.cpu.regs .rax) (readWord t.cpu.mem (offset (t.cpu.regs .rsp) 16)) ∧
      u.cpu.regs .rsp = t.cpu.regs .rsp + 32 + 8 ∧
      ∀ r ∈ calleeSaved, u.cpu.regs r = t.cpu.regs r := by
  rw [sleepResult, runLines_op, runLines_jge]
  by_cases hok : 0 ≤ (t.cpu.regs .rax).toInt
  · have hflag : (execOp (.cmpImm .rax 0) t).flags.less = false := by
      simp [execOp, Flags.ofSub, hok]
    rw [hflag, sleepValue, if_pos hok]
    refine ⟨_, rfl, ?_, ?_, ?_⟩
    · simp [execOp]
    · simp [execOp]
    · simp [execOp, calleeSaved]
  · have hflag : (execOp (.cmpImm .rax 0) t).flags.less = true := by
      simp [execOp, Flags.ofSub]
      omega
    rw [hflag, if_pos rfl, runLines_label, runLines_op, runLines_op, runLines_jne, sleepValue,
      if_neg hok]
    have hzero : ∀ t : State, (execOp (.cmpImm .rax 4) (execOp (.neg .rax) t)).flags.zero =
        decide (t.cpu.regs .rax = -4) := by
      intro t
      simp only [execOp, Flags.ofSub, Cpu.set_regs, if_true]
      congr 1
      rw [eq_iff_iff, neg_eq_iff_eq_neg]
    rw [hzero]
    by_cases hintr : t.cpu.regs .rax = -4
    · rw [decide_eq_true (show (execOp (.cmpImm .rax 0) t).cpu.regs .rax = -4 from hintr),
        if_pos hintr]
      refine ⟨_, rfl, ?_, ?_, ?_⟩
      · simp [execOp]
      · simp [execOp]
      · simp [execOp, calleeSaved]
    · rw [decide_eq_false (show ¬ (execOp (.cmpImm .rax 0) t).cpu.regs .rax = -4 from hintr),
        if_neg hintr]
      refine ⟨_, rfl, ?_, ?_, ?_⟩
      · simp [execOp]
      · simp [execOp]
      · simp [execOp, calleeSaved]

/-! ## The call as a whole -/

section AfterCall

variable (link : Word) (s : State) (x : Slept)

theorem afterCall_mem :
    (afterCall link s x).cpu.mem =
      x.storeRem (offset (s.cpu.regs .rsp - 32) 16) (kernelMem link s) := rfl

theorem afterCall_rax : (afterCall link s x).cpu.regs .rax = x.ret := rfl

theorem afterCall_rsp : (afterCall link s x).cpu.regs .rsp = s.cpu.regs .rsp - 32 := by
  have hrsp : (afterCall link s x).cpu.regs .rsp =
      s.cpu.regs .rsp - 32 - 8 - 8 + 8 + 8 := rfl
  rw [hrsp, BitVec.sub_add_cancel, BitVec.sub_add_cancel]

theorem afterCall_calleeSaved :
    ∀ r ∈ calleeSaved, (afterCall link s x).cpu.regs r = s.cpu.regs r := by
  intro r hr
  simp only [calleeSaved, List.mem_cons, List.not_mem_nil, or_false] at hr
  rcases hr with rfl | rfl | rfl | rfl | rfl | rfl
  all_goals rfl

/-- `rem` holds the time that remained, or what it held before. -/
theorem readWord_afterCall_rem :
    readWord (afterCall link s x).cpu.mem (offset ((afterCall link s x).cpu.regs .rsp) 16) =
      (x.rem.getD (remBefore s)).1 := by
  have hnext : offset (offset (s.cpu.regs .rsp - 32) 16) 8 = offset (s.cpu.regs .rsp - 32) 24 := by
    rw [offset, offset, BitVec.add_assoc]
    rfl
  rw [afterCall_rsp, afterCall_mem, readWord_storeRem, hnext,
    readWord_kernelMem_above _ _ (by norm_num) (by norm_num),
    readWord_kernelMem_above _ _ (by norm_num) (by norm_num), remBefore]

theorem readWord_afterCall_returnAddress :
    readWord (afterCall link s x).cpu.mem ((afterCall link s x).cpu.regs .rsp + 32) =
      returnAddress s.cpu := by
  have htop : s.cpu.regs .rsp - 32 + 32 = s.cpu.regs .rsp := BitVec.sub_add_cancel _ _
  have hoffset : offset (s.cpu.regs .rsp - 32) 32 = s.cpu.regs .rsp := htop
  have habove := readWord_kernelMem_above link s (k := 32) (by norm_num) (le_refl _)
  rw [hoffset] at habove
  rw [afterCall_rsp, afterCall_mem, htop, readWord_storeRem_of_apart, habove, returnAddress]
  intro y hy
  simp only [InWord, InBlock] at hy ⊢
  bv_omega

end AfterCall

/-- The argument of a call. -/
def seconds (s : State) : BitVec 32 := (s.cpu.regs .rdi).setWidth 32

/-- A call has come back to its caller: the stack pointer and the registers it has to
hand back are as they were. -/
structure CameBack (s : State) (r : Word × State) : Prop where
  target : r.1 = returnAddress s.cpu
  rsp : r.2.cpu.regs .rsp = s.cpu.regs .rsp + 8
  kept : ∀ q ∈ calleeSaved, r.2.cpu.regs q = s.cpu.regs q

/-- After the call the assembly goes on like the C version. -/
theorem runLines_afterCall (link : Word) (s : State) (x : Slept) :
    ∃ r, runLines sleepCalls none sleepResult (afterCall link s x) = .done r ∧ CameBack s r ∧
      r.2.cpu.regs .rax = sleepValue x.ret (x.rem.getD (remBefore s)).1 := by
  obtain ⟨u, hrun, hrax, hrsp, hkept⟩ := runLines_sleepResult (afterCall link s x)
  rw [readWord_afterCall_returnAddress] at hrun
  rw [afterCall_rax, readWord_afterCall_rem] at hrax
  rw [afterCall_rsp, BitVec.sub_add_cancel] at hrsp
  refine ⟨_, hrun, ⟨rfl, hrsp, fun q hq => ?_⟩, hrax⟩
  rw [hkept q hq, afterCall_calleeSaved link s x q hq]

/-- What the C version does with an answer. -/
theorem sleepC_eq (sec : BitVec 32) (rem : Word × Word) :
    sleepC sec rem = .request ⟨sec.setWidth 64, 0⟩ fun x =>
      .done ((sleepValue x.ret (x.rem.getD rem).1).setWidth 32) := by
  have hC : sleepC sec rem = .request ⟨sec.setWidth 64, 0⟩ fun x =>
      if 0 ≤ x.ret.toInt then .done (x.ret.setWidth 32)
      else if x.ret = -4 then .done ((x.rem.getD rem).1.setWidth 32)
      else .done 0 := rfl
  refine hC.trans (congrArg (Prog.request _) (funext fun x => ?_))
  rw [sleepValue]
  by_cases hok : 0 ≤ x.ret.toInt
  · rw [if_pos hok, if_pos hok]
  · rw [if_neg hok, if_neg hok]
    by_cases hintr : x.ret = -4
    · rw [if_pos hintr, if_pos hintr]
    · rw [if_neg hintr, if_neg hintr]
      rfl

/-- A word is its low half exactly when the upper half is empty. -/
theorem setWidth_setWidth_eq_iff (v : Word) :
    (v.setWidth 32).setWidth 64 = v ↔ v.toNat < 2 ^ 32 := by
  rw [← BitVec.toNat_inj, BitVec.toNat_setWidth, BitVec.toNat_setWidth]
  omega

/-- The assembly asks what the C version asks, returns what it returns, and comes back
to its caller with the registers as they were, exactly when the upper half of `rdi`,
which is not part of the argument, is empty. -/
theorem sleep_eq_sleepC_iff (link : Word) (s : State) :
    ((runLines sleepCalls none (sleep link) s >>= fun r => .done (eax r.2.cpu)) =
        sleepC (seconds s) (remBefore s) ∧
      Within (fun _ => True) (fun _ => False) (CameBack s)
        (runLines sleepCalls none (sleep link) s)) ↔
      (s.cpu.regs .rdi).toNat < 2 ^ 32 := by
  have hback : Within (fun _ => True) (fun _ => False) (CameBack s)
      (runLines sleepCalls none (sleep link) s) := by
    rw [runLines_sleep]
    refine ⟨trivial, fun x => ?_⟩
    obtain ⟨r, hrun, hr, -⟩ := runLines_afterCall link s x
    show Within _ _ _ (runLines sleepCalls none sleepResult (afterCall link s x))
    rw [hrun]
    exact hr
  have hresult : ∀ x : Slept,
      (runLines sleepCalls none sleepResult (afterCall link s x) >>= fun r => .done (eax r.2.cpu)) =
        (.done ((sleepValue x.ret (x.rem.getD (remBefore s)).1).setWidth 32) :
          Sleeping (BitVec 32)) := by
    intro x
    obtain ⟨r, hrun, -, hrax⟩ := runLines_afterCall link s x
    rw [hrun, Prog.done_bind, eax, hrax]
  rw [and_iff_left hback, runLines_sleep, sleepC_eq, Prog.request_bind, ← setWidth_setWidth_eq_iff]
  constructor
  · intro h
    have hreq := (Prog.request.inj h).1
    exact (Nanosleep.mk.inj hreq).1.symm
  · intro h
    have hreq : s.cpu.regs .rdi = (seconds s).setWidth 64 := h.symm
    rw [← hreq]
    exact congrArg (Prog.request _) (funext hresult)

namespace Sample

/-- A call of `sleep` with 5 in `edi`, and something left in the upper half. -/
def sleeper : State where
  cpu :=
    { regs := Function.update (Function.update (fun _ => 0) .rsp 0x7fff0000) .rdi 0x100000005
      mem := fun _ => 0 }
  flags := ⟨false, false⟩

end Sample

/-- Asked for five seconds, the assembly asks the kernel for four billion. -/
theorem sleep_upper_half :
    seconds Sample.sleeper = 5 ∧
      (runLines sleepCalls none (sleep 0x401000) Sample.sleeper >>= fun r =>
        .done (eax r.2.cpu)) ≠ sleepC (seconds Sample.sleeper) (remBefore Sample.sleeper) := by
  refine ⟨rfl, ?_⟩
  rw [runLines_sleep, sleepC_eq, Prog.request_bind]
  intro h
  have hreq := (Prog.request.inj h).1
  exact absurd hreq (by decide)

end Libmini
