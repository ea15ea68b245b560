import UnixProgramming.Libmini.Setjmp

/-!
# The signal mask across `longjmp`

A process is its registers and memory, the set of signals it blocks, and
`errno`.  The mask changes through `sigprocmask`, through the delivery of a
signal and through the return from a handler; `setjmp` and `longjmp` make no
system call, and the `mask` of a `jmp_buf` is a field neither of them touches.

* `newMask`, `sysRtSigprocmask`, `sigprocmask` — the system call and its wrapper.
* `Step`, `Steps` — what may happen between the two calls.
* `Steps.sameEnv` — the buffer lasts over any number of steps.
* `longjmp_mask_and_value` — the mask is the old one, and the value tells the
  return from the first one, exactly when nothing had to be done for either.
-/

namespace Libmini

open ByteMemory X86

/-- A set of signals, one bit each. -/
abbrev SigSet := Word

/-- A process, as far as these calls can see it. -/
structure Process where
  cpu : Cpu
  blocked : SigSet
  errno : Int

/-! ## `sigprocmask` -/

/-- The set with one signal. -/
def sigmask (sig : Nat) : SigSet := 1#64 <<< (sig - 1)

/-- `SIGKILL` and `SIGSTOP`: the kernel takes them out of every set to block. -/
def unblockable : SigSet := sigmask 9 ||| sigmask 19

/-- `EINVAL`. -/
def einval : Int := 22

theorem einval_pos : 0 < einval := by decide

/-- The mask after `how` is applied to a set; `none` for an unknown `how`. -/
def newMask (how : BitVec 32) (set blocked : SigSet) : Option SigSet :=
  if how = 0 then some (blocked ||| set)            -- SIG_BLOCK
  else if how = 1 then some (blocked &&& ~~~set)    -- SIG_UNBLOCK
  else if how = 2 then some set                     -- SIG_SETMASK
  else none

/-- The system call: with a null `set` it only reports the mask, with a null
`oldset` it only changes it. -/
def sysRtSigprocmask (how : BitVec 32) (set oldset : Addr) (sigsetsize : Nat) (p : Process) :
    Int × Process :=
  if sigsetsize ≠ 8 then (-einval, p) else
  let changed :=
    if set = 0 then some p.blocked
    else newMask how (readWord p.cpu.mem set &&& ~~~unblockable) p.blocked
  match changed with
  | none => (-einval, p)
  | some blocked =>
      let mem := if oldset = 0 then p.cpu.mem else writeWord p.cpu.mem oldset p.blocked
      (0, { p with blocked := blocked, cpu := { p.cpu with mem := mem } })

/-- `WRAPPER_RETval`: a negative result becomes `errno` and -1. -/
def wrapperRetval (ret : Int) (p : Process) : Int × Process :=
  if ret < 0 then (-1, { p with errno := -ret }) else (ret, { p with errno := 0 })

/-- `sigprocmask(how, set, oldset)`. -/
def sigprocmask (how : BitVec 32) (set oldset : Addr) (p : Process) : Int × Process :=
  let (ret, q) := sysRtSigprocmask how set oldset 8 p
  wrapperRetval ret q

/-- A set of blocked signals is added to the mask. -/
theorem sigprocmask_block {p : Process} {set : Addr} (hset : set ≠ 0) :
    sigprocmask 0 set 0 p =
      (0, { p with
        blocked := p.blocked ||| (readWord p.cpu.mem set &&& ~~~unblockable)
        errno := 0 }) := by
  have hset' : ¬ set = 0#64 := hset
  simp [sigprocmask, sysRtSigprocmask, newMask, wrapperRetval, hset']

/-! ## The two calls in a process -/

/-- A call of `setjmp`: where it returns to, and the process then. -/
def Process.setjmp (p : Process) : Option (Word × Process) :=
  (run Libmini.setjmp p.cpu).map fun r => (r.1, { p with cpu := r.2 })

/-- A call of `longjmp`: where it goes, and the process then. -/
def Process.longjmp (p : Process) : Option (Word × Process) :=
  (run Libmini.longjmp p.cpu).map fun r => (r.1, { p with cpu := r.2 })

/-- Wherever the buffer lies, its last word is the return address. -/
theorem readWord_stored (s : Cpu) :
    readWord (stored s) (offset (env s) 56) = returnAddress s := by
  have hlast : offset (env s) 56 = offset (env s + 16) (8 * 5) := by
    rw [offset, offset, BitVec.add_assoc]
    rfl
  rw [hlast, stored]
  exact readWord_storeWords _ _ (by simp) rfl

/-- `setjmp` leaves the mask alone, and the buffer knows where it returns to. -/
theorem setjmp_process (p : Process) :
    ∃ target u, p.setjmp = some (target, u) ∧ u.blocked = p.blocked ∧
      readWord u.cpu.mem (offset (env p.cpu) 56) = returnAddress p.cpu := by
  obtain ⟨u, hrun, hmem, -⟩ := run_setjmp_stored p.cpu
  refine ⟨readWord (stored p.cpu) (p.cpu.regs .rsp), { p with cpu := u }, ?_, rfl, ?_⟩
  · rw [Process.setjmp, hrun]
    rfl
  · rw [hmem]
    exact readWord_stored p.cpu

/-- `longjmp` leaves the mask alone, and its value is the one it was given. -/
theorem longjmp_process (v : Process) :
    ∃ w, v.longjmp = some (readWord v.cpu.mem (offset (env v.cpu) 56), w) ∧
      w.blocked = v.blocked ∧ eax w.cpu = val v.cpu := by
  obtain ⟨w, hrun, heax, -⟩ := run_longjmp_loaded v.cpu
  refine ⟨{ v with cpu := w }, ?_, rfl, heax⟩
  rw [Process.longjmp, hrun]
  rfl

/-! ## Between the calls -/

/-- All of a `jmp_buf` at `a`, the registers and the mask, is the same. -/
def SameEnv (a : Addr) (m m' : Memory) : Prop := ∀ x, InBlock a 72 x → m' x = m x

/-- What may happen without touching the `jmp_buf` at `a`. -/
inductive Step (a : Addr) : Process → Process → Prop where
  /-- Computation, and calls that do not change the mask. -/
  | compute (p : Process) (c : Cpu) (e : Int) :
      SameEnv a p.cpu.mem c.mem → Step a p { p with cpu := c, errno := e }
  | sigprocmask (p : Process) (how : BitVec 32) (set oldset : Addr) :
      SameEnv a p.cpu.mem (sigprocmask how set oldset p).2.cpu.mem →
        Step a p (sigprocmask how set oldset p).2
  /-- A handler is entered: its signals are blocked on top. -/
  | deliver (p : Process) (c : Cpu) (set : SigSet) :
      SameEnv a p.cpu.mem c.mem →
        Step a p { p with cpu := c, blocked := (p.blocked ||| set) &&& ~~~unblockable }
  /-- A handler returns: the mask is the one on its frame. -/
  | sigreturn (p : Process) (c : Cpu) (set : SigSet) :
      SameEnv a p.cpu.mem c.mem →
        Step a p { p with cpu := c, blocked := set &&& ~~~unblockable }

/-- Any number of steps. -/
abbrev Steps (a : Addr) : Process → Process → Prop := Relation.ReflTransGen (Step a)

theorem Step.sameEnv {a : Addr} {p q : Process} (h : Step a p q) :
    SameEnv a p.cpu.mem q.cpu.mem := by
  cases h with
  | compute c e hm => exact hm
  | sigprocmask how set oldset hm => exact hm
  | deliver c set hm => exact hm
  | sigreturn c set hm => exact hm

theorem Steps.sameEnv {a : Addr} {p q : Process} (h : Steps a p q) :
    SameEnv a p.cpu.mem q.cpu.mem := by
  induction h with
  | refl => exact fun _ _ => rfl
  | tail _ hstep ih => exact fun x hx => (hstep.sameEnv x hx).trans (ih x hx)

/-- The return address is still in the buffer. -/
theorem Steps.returnAddress {a : Addr} {p q : Process} (h : Steps a p q) :
    readWord q.cpu.mem (offset a 56) = readWord p.cpu.mem (offset a 56) := by
  apply readWord_congr
  intro x hx
  exact h.sameEnv x (inBlock_of_inWord hx (by norm_num) (by norm_num))

/-! ## What `longjmp` brings back -/

/-- Through any steps, `longjmp(env, val)` returns from the `setjmp` once more.
It brings the mask back and its value is `val`, or 1 for 0, exactly when the
mask at the call of `longjmp` is the old one already and `val` is not 0. -/
theorem longjmp_mask_and_value (p : Process) :
    ∃ target u, p.setjmp = some (target, u) ∧
      ∀ v, Steps (env p.cpu) u v → env v.cpu = env p.cpu →
        ∃ w, v.longjmp = some (returnAddress p.cpu, w) ∧
          ((w.blocked = p.blocked ∧ eax w.cpu = if val v.cpu = 0 then 1 else val v.cpu) ↔
            v.blocked = p.blocked ∧ val v.cpu ≠ 0) := by
  obtain ⟨target, u, hset, -, hslot⟩ := setjmp_process p
  refine ⟨target, u, hset, ?_⟩
  intro v hsteps henv
  obtain ⟨w, hjump, hblocked, heax⟩ := longjmp_process v
  rw [henv, hsteps.returnAddress, hslot] at hjump
  refine ⟨w, hjump, ?_⟩
  rw [hblocked, heax]
  by_cases hval : val v.cpu = 0
  · rw [if_pos hval]
    simp [hval]
  · rw [if_neg hval]
    exact ⟨fun h => ⟨h.1, hval⟩, fun h => ⟨h.1, rfl⟩⟩

namespace Sample

/-- The process of `caller`; it blocks nothing. -/
def unblocked : Process := ⟨caller, 0, 0⟩

/-- A word for the set that is to be blocked, away from the buffer. -/
theorem sameEnv_writeWord (m : Memory) (v : Word) : SameEnv 0x5000 m (writeWord m 0x6000 v) := by
  intro x hx
  apply writeWord_of_not_inWord
  simp only [InWord, InBlock] at hx ⊢
  bv_omega

/-- `u`, at the call of `longjmp(0x5000, val)` after `sigprocmask(SIG_BLOCK,
&set, NULL)` with the set `blocked`. -/
def jumping (u : Process) (blocked : SigSet) (val : BitVec 32) : Process where
  cpu :=
    { regs := Function.update jumper .rsi (val.setWidth 64)
      mem := writeWord u.cpu.mem 0x6000 blocked }
  blocked := u.blocked ||| (blocked &&& ~~~unblockable)
  errno := 0

theorem steps_jumping (u : Process) (blocked : SigSet) (val : BitVec 32) :
    Steps 0x5000 u (jumping u blocked val) := by
  let mem := writeWord u.cpu.mem 0x6000 blocked
  let p : Process := { u with cpu := { u.cpu with mem := mem }, errno := u.errno }
  have hset : Step 0x5000 u p := .compute u _ _ (sameEnv_writeWord u.cpu.mem blocked)
  have hset0 : (0x6000 : Addr) ≠ 0 := by decide
  have hcall := sigprocmask_block (p := p) hset0
  have hblock : Step 0x5000 p (sigprocmask 0 0x6000 0 p).2 :=
    .sigprocmask p _ _ _ (by rw [hcall]; exact fun _ _ => rfl)
  have hargs : Step 0x5000 (sigprocmask 0 0x6000 0 p).2 (jumping u blocked val) := by
    rw [hcall, show readWord p.cpu.mem 0x6000 = blocked from readWord_writeWord _ _ _]
    exact .compute _ _ 0 fun _ _ => rfl
  exact (Relation.ReflTransGen.single hset).tail hblock |>.tail hargs

theorem val_jumping (u : Process) (blocked : SigSet) (v : BitVec 32) :
    val (jumping u blocked v).cpu = v := by
  have hrsi : (jumping u blocked v).cpu.regs .rsi = v.setWidth 64 := by simp [jumping]
  rw [val, hrsi, BitVec.setWidth_setWidth_of_le _ (by norm_num), BitVec.setWidth_eq]

end Sample

/-- Between the calls nothing is blocked and the value is 5: both come back. -/
theorem longjmp_mask_and_value_unblocked :
    ∃ target u w, Sample.unblocked.setjmp = some (target, u) ∧
      (Sample.jumping u 0 5).longjmp = some (0x401000, w) ∧ w.blocked = 0 ∧ eax w.cpu = 5 := by
  obtain ⟨target, u, hset, hjump⟩ := longjmp_mask_and_value Sample.unblocked
  obtain ⟨w, hlong, hiff⟩ := hjump _ (Sample.steps_jumping u 0 5) rfl
  rw [show returnAddress Sample.unblocked.cpu = 0x401000 from Sample.returnAddress_caller] at hlong
  have hu : u.blocked = 0 := by
    obtain ⟨_, _, hset', hblocked, -⟩ := setjmp_process Sample.unblocked
    rw [hset] at hset'
    cases hset'
    exact hblocked
  have hback := hiff.2 ⟨by simp [Sample.jumping, hu, Sample.unblocked], by
    rw [Sample.val_jumping]
    decide⟩
  rw [Sample.val_jumping] at hback
  exact ⟨target, u, w, hset, hlong, hback⟩

/-- `SIGALRM` is blocked between the calls and stays blocked, and a jump with 0
looks like the first return. -/
theorem longjmp_keeps_new_mask_and_zero :
    ∃ target u w, Sample.unblocked.setjmp = some (target, u) ∧
      Steps (env Sample.unblocked.cpu) u (Sample.jumping u (sigmask 14) 0) ∧
      (Sample.jumping u (sigmask 14) 0).longjmp = some (0x401000, w) ∧
      w.blocked ≠ Sample.unblocked.blocked ∧ eax w.cpu = 0 := by
  obtain ⟨target, u, hset, hblocked, hslot⟩ := setjmp_process Sample.unblocked
  have hsteps := Sample.steps_jumping u (sigmask 14) 0
  obtain ⟨w, hlong, hw, heax⟩ := longjmp_process (Sample.jumping u (sigmask 14) 0)
  have htarget : readWord (Sample.jumping u (sigmask 14) 0).cpu.mem (offset 0x5000 56) = 0x401000 := by
    rw [hsteps.returnAddress]
    exact hslot.trans Sample.returnAddress_caller
  refine ⟨target, u, w, hset, hsteps, ?_, ?_, ?_⟩
  · rw [hlong]
    exact congrArg (fun a => some (a, w)) htarget
  · rw [hw]
    simp only [Sample.jumping, hblocked, Sample.unblocked]
    decide
  · rw [heax, Sample.val_jumping]

end Libmini
