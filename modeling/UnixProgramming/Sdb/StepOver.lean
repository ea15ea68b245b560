import UnixProgramming.Sdb.Primitives

/-!
# Stepping over a breakpoint

`check_then_restore_si_reput` restores one byte, steps, and writes the whole
word it had read before the step back.

* `runs_checkThenRestoreSiReput` — its runs, one for each way the step can end.
* `stepOver_keeps_stores_iff` — the stores of the instruction survive exactly
  when it leaves the seven bytes after the breakpoint as they were.
-/

namespace Sdb

open ByteMemory CString Requests Overlay

/-- The tracee an instruction at a breakpoint is executed in: the byte it starts
with is the program's. -/
def Tracee.restored (t : Tracee) (addr : Addr) (orig : Memory) : Tracee :=
  { t with mem := Function.update t.mem addr (orig addr) }

/-- The tracee after the word that was read before the step is written back. -/
def Tracee.reput (t₁ : Tracee) (addr : Addr) (before : Memory) : Tracee :=
  { t₁ with mem := writeWord t₁.mem addr (readWord before addr) }

section StepOver

variable {env : Env} {d : Debugger} {f : Bool} {t t₁ : Tracee} {orig : Memory} {addr : Addr}

/-- The step is made in the restored tracee; if it leaves the tracee stopped,
the old word is written back. -/
theorem runs_checkThenRestoreSiReput (hg : env.Grants) (hr : d.state = .running)
    (hcode : ∀ bp ∈ d.bptab.data, byteOf bp.code 0 = orig bp.addr) (hA : addr ∈ d.bptab.addrs)
    {o : Result Fault Debugger} {w' : World} :
    Runs (kernel env) (checkThenRestoreSiReput addr d) ⟨f, .stopped d.pid t⟩ o w' ↔
      ∃ st t₁, env.stops .singlestep (t.restored addr orig) st t₁ ∧
        match st with
        | .stopped _ => o = .done d ∧ w' = ⟨f, .stopped d.pid (t₁.reput addr t.mem)⟩
        | .exited code =>
            o = .done (d.say (.terminated d.pid (.exited code))).release ∧ w' = ⟨f, .absent⟩
        | .signaled _ => o = .fault .assertion ∧ w' = ⟨f, .absent⟩ := by
  obtain ⟨bp, hbp, hat, haddr⟩ :=
    BreakpointTable.atAddr_of_includeAddr (BreakpointTable.includeAddr_iff.2 hA)
  have hinc : ¬ d.bptab.includeAddr addr = false := by
    simp [BreakpointTable.includeAddr_iff.2 hA]
  have hrestore : (⟨t.regs, writeWord t.mem addr ((readWord t.mem addr &&& 0xffffffffffffff00#64)
      ||| (bp.code &&& 0x00000000000000ff#64))⟩ : Tracee) = t.restored addr orig := by
    rw [writeWord_restore, hcode bp hbp, haddr]
    rfl
  unfold checkThenRestoreSiReput
  rw [if_neg hinc, runs_peektext hg, entryAt, hat, Prog.done_bind, runs_poketext hg, hrestore,
    runs_singlestep hg, runs_bind]
  simp only [runs_waitThenCheckExit]
  constructor
  · rintro (⟨d', w₁, ⟨st, t₁, hst, hend⟩, hrest⟩ | ⟨e, ⟨st, t₁, hst, hend⟩, rfl⟩)
    · refine ⟨st, t₁, hst, ?_⟩
      cases st with
      | stopped sig =>
          obtain ⟨heq, rfl⟩ := hend
          cases heq
          rw [if_neg (not_not.2 hr), runs_poketext hg] at hrest
          exact hrest
      | exited code =>
          obtain ⟨heq, rfl⟩ := hend
          cases heq
          rw [if_pos (by simp [Debugger.release])] at hrest
          exact hrest
      | signaled sig => cases hend.1
    · refine ⟨st, t₁, hst, ?_⟩
      cases st with
      | stopped sig => cases hend.1
      | exited code => cases hend.1
      | signaled sig => exact hend
  · rintro ⟨st, t₁, hst, hend⟩
    cases st with
    | stopped sig =>
        refine Or.inl ⟨d, _, ⟨_, t₁, hst, rfl, rfl⟩, ?_⟩
        rw [if_neg (not_not.2 hr), runs_poketext hg]
        exact hend
    | exited code =>
        refine Or.inl ⟨_, _, ⟨_, t₁, hst, rfl, rfl⟩, ?_⟩
        rw [if_pos (by simp [Debugger.release])]
        exact hend
    | signaled sig => exact Or.inr ⟨_, ⟨_, t₁, hst, rfl, hend.2⟩, hend.1⟩

/-- What is to hold after an instruction at a breakpoint has taken the restored
tracee to `t₁`: the trap is back and everything else is as the instruction left it. -/
def LosesNoStore (env : Env) (d : Debugger) (f : Bool) (t : Tracee) (addr : Addr)
    (t₁ : Tracee) : Prop :=
  ∀ o w', Runs (kernel env) (checkThenRestoreSiReput addr d) ⟨f, .stopped d.pid t⟩ o w' →
    o = .done d ∧ ∃ t', w' = ⟨f, .stopped d.pid t'⟩ ∧ t'.regs = t₁.regs ∧ t'.mem addr = int3 ∧
      ∀ x, x ≠ addr → t'.mem x = t₁.mem x

/-- The memory after the old word is written back. -/
theorem reput_mem (addr x : Addr) (before : Memory) :
    (t₁.reput addr before).mem x = if InWord addr x then before x else t₁.mem x :=
  writeWord_readWord_apply before t₁.mem addr x

/-- Stepping over a breakpoint loses no store exactly when the instruction
leaves the seven bytes after its first one as they were. -/
theorem stepOver_keeps_stores_iff (hg : env.Grants) (hr : d.state = .running)
    (hcode : ∀ bp ∈ d.bptab.data, byteOf bp.code 0 = orig bp.addr)
    (htrap : ∀ a ∈ d.bptab.addrs, t.mem a = int3) (hA : addr ∈ d.bptab.addrs)
    {sig : Nat}
    (hstep : ∀ st t', env.stops .singlestep (t.restored addr orig) st t' ↔
      st = .stopped sig ∧ t' = t₁) :
    LosesNoStore env d f t addr t₁ ↔
      ∀ k, 1 ≤ k → k < 8 → t₁.mem (offset addr k) = t.mem (offset addr k) := by
  have hruns : ∀ o w', Runs (kernel env) (checkThenRestoreSiReput addr d) ⟨f, .stopped d.pid t⟩ o w'
      ↔ o = .done d ∧ w' = ⟨f, .stopped d.pid (t₁.reput addr t.mem)⟩ := by
    intro o w'
    rw [runs_checkThenRestoreSiReput hg hr hcode hA]
    constructor
    · rintro ⟨st, t', hst, hend⟩
      obtain ⟨rfl, rfl⟩ := (hstep _ _).1 hst
      exact hend
    · intro h
      exact ⟨.stopped sig, t₁, (hstep _ _).2 ⟨rfl, rfl⟩, h⟩
  constructor
  · intro h k hk hk8
    obtain ⟨-, t', hw, -, -, hkeep⟩ := h _ _ ((hruns _ _).2 ⟨rfl, rfl⟩)
    cases hw
    have hne : offset addr k ≠ addr := by
      intro heq
      have := offset_inj addr hk8 (by norm_num : (0 : Nat) < 8) (by rw [heq, offset_zero])
      omega
    rw [← hkeep _ hne, reput_mem, if_pos (inWord_offset addr hk8)]
  · intro h o w' hrun
    obtain ⟨rfl, rfl⟩ := (hruns o w').1 hrun
    refine ⟨rfl, _, rfl, rfl, ?_, fun x hx => ?_⟩
    · rw [reput_mem, if_pos (inWord_self addr), htrap addr hA]
    · rw [reput_mem]
      split
      · next hin =>
          obtain ⟨k, hk8, rfl⟩ := inWord_iff.1 hin
          have hk : k ≠ 0 := by
            rintro rfl
            exact hx (offset_zero addr)
          exact (h k (Nat.one_le_iff_ne_zero.2 hk) hk8).symm
      · rfl

end StepOver

/-! ## An instruction that stores into the next bytes -/

namespace Sample

/-- `mov [rax], al` at `0x1000`, with `rax` two bytes further on. -/
def storeText : Memory := overlay [0x1000] 0x88 (overlay [0x1001] 0x00 fun _ => 0x90)

def storeRegs : UserRegs := { regs with rax := 0x1002 }

/-- The instruction behind a breakpoint. -/
def storing : Tracee := ⟨storeRegs, Function.update storeText 0x1000 int3⟩

def storeTable : Debugger := { started with bptab := ⟨[⟨0x9090909090900088, 0x1000⟩]⟩ }

/-- The tracee as the instruction leaves it. -/
def stored : Tracee := ⟨{ storeRegs with rip := 0x1002 }, Function.update storeText 0x1002 0x02⟩

/-- A step makes the store. -/
def storeEnv : Env :=
  env (fun _ => False) fun how _ st t' => how = .singlestep ∧ st = .stopped sigtrap ∧ t' = stored

theorem storeEnv_grants : storeEnv.Grants := ⟨fun _ _ h => h, fun _ _ _ h => h, fun _ h => h⟩

theorem storeTable_code :
    ∀ bp ∈ storeTable.bptab.data, byteOf bp.code 0 = storeText bp.addr := by decide

theorem storing_trapped : ∀ a ∈ storeTable.bptab.addrs, storing.mem a = int3 := by
  intro a ha
  obtain rfl := List.mem_singleton.1 ha
  exact Function.update_self (0x1000 : Addr) int3 storeText

theorem storeEnv_step (st : WaitStatus) (t' : Tracee) :
    storeEnv.stops .singlestep (storing.restored 0x1000 storeText) st t' ↔
      st = .stopped sigtrap ∧ t' = stored := by
  simp [storeEnv, env]

end Sample

/-- A store into the next bytes is lost. -/
theorem stepOver_loses_a_store :
    (∀ a ∈ Sample.storeTable.bptab.addrs, Sample.storing.mem a = int3) ∧
      Sample.storing.regs.rip = 0x1000 ∧ (0x1000 : Addr) ∈ Sample.storeTable.bptab.addrs ∧
      Sample.stored.mem 0x1000 = Sample.storeText 0x1000 ∧
      ¬ LosesNoStore Sample.storeEnv Sample.storeTable false Sample.storing 0x1000
        Sample.stored := by
  refine ⟨Sample.storing_trapped, rfl, by decide, by decide, fun h => ?_⟩
  have hrun := (runs_checkThenRestoreSiReput (d := Sample.storeTable) (f := false)
    (t := Sample.storing) Sample.storeEnv_grants rfl Sample.storeTable_code (by decide)).2
    ⟨.stopped sigtrap, Sample.stored, (Sample.storeEnv_step _ _).2 ⟨rfl, rfl⟩, rfl, rfl⟩
  obtain ⟨-, t', hw, -, -, hkeep⟩ := h _ _ hrun
  cases hw
  have hlost := hkeep 0x1002 (by decide)
  rw [reput_mem] at hlost
  revert hlost
  decide

/-- The condition fails for the store, and with it the property. -/
theorem stepOver_keeps_stores_iff_storing :
    LosesNoStore Sample.storeEnv Sample.storeTable false Sample.storing 0x1000 Sample.stored ↔
      ∀ k, 1 ≤ k → k < 8 →
        Sample.stored.mem (offset 0x1000 k) = Sample.storing.mem (offset 0x1000 k) :=
  stepOver_keeps_stores_iff (d := Sample.storeTable) (t := Sample.storing)
    Sample.storeEnv_grants rfl Sample.storeTable_code Sample.storing_trapped (by decide)
    Sample.storeEnv_step

end Sdb
