import UnixProgramming.Sdb.StepOver
import UnixProgramming.Sdb.Frame

/-!
# Why a tracee stopped

After `PTRACE_CONT` the debugger looks up the byte before `rip` and takes the
stop for its own trap when that byte is at an address of the table.  It does not
look at the signal, so a tracee that is stopped by another signal one byte past
a breakpoint it has just been stepped over is moved back.

* `Recognises` — a breakpoint is reported, and `rip` set back, exactly for a trap
  of the debugger, and nothing happens to the registers otherwise.
* `runs_contFrom_stop` — what `cont` does with a stop.
* `cont_recognises_iff` — it recognises a stop exactly when that was by a trap,
  or `rip` is not one byte past a breakpoint.
-/

namespace Sdb

open ByteMemory CString Requests Overlay

/-- Why a tracee has stopped. -/
inductive StopCause where
  /-- It has executed the `int3` one byte before `rip`. -/
  | trap
  /-- A signal is to be delivered. -/
  | signal (sig : Nat)
  deriving DecidableEq

/-- The status of a stop. -/
def StopCause.status : StopCause → WaitStatus
  | .trap => .stopped sigtrap
  | .signal sig => .stopped sig

/-- A tracee that is let run with `PTRACE_CONT` stops for the reason `c` as `t'`.
What a single step does is left open. -/
def StopsAs (env : Env) (c : StopCause) (t' : Tracee) : Prop :=
  ∀ t st t₁, env.stops .cont t st t₁ ↔ st = c.status ∧ t₁ = t'

/-- `PTRACE_CONT` and the requests about registers are not refused; the requests
of the step over a breakpoint may be. -/
structure Env.Continues (env : Env) : Prop where
  cont : ∀ p, ¬ env.mayFail (.cont p)
  getregs : ∀ p, ¬ env.mayFail (.getregs p)
  setregs : ∀ p regs, ¬ env.mayFail (.setregs p regs)

/-- The first text of the report of a breakpoint. -/
def hitMsg : Msg := .info "** breakpoint @"

/-- Since `d` the debugger has reported a breakpoint. -/
def Reports (d d' : Debugger) : Prop :=
  ∃ printed, d'.out = d.out ++ printed ∧ hitMsg ∈ printed

/-- The registers with `rip` one byte back. -/
def UserRegs.back (r : UserRegs) : UserRegs := { r with rip := r.rip - 1 }

/-- The stop is by the `int3` the debugger has placed one byte before `rip`. -/
def OwnTrap (d : Debugger) (c : StopCause) (t' : Tracee) : Prop :=
  c = .trap ∧ t'.regs.rip - 1 ∈ d.bptab.addrs

/-- What is to become of a stop: an own trap is reported and `rip` set back, and
after every other stop the registers are left as they were. -/
structure Recognises (d : Debugger) (c : StopCause) (t' : Tracee) (d' : Debugger)
    (t'' : Tracee) : Prop where
  reports : Reports d d' ↔ OwnTrap d c t'
  movesBack : t''.regs = t'.regs.back ↔ OwnTrap d c t'
  leaves : ¬ OwnTrap d c t' → t''.regs = t'.regs

theorem UserRegs.back_ne (r : UserRegs) : r ≠ r.back := by
  intro h
  have hrip : r.rip = r.rip - 1 := congrArg UserRegs.rip h
  bv_omega

section Recognise

variable {cs : Capstone} {env : Env} {c : StopCause} {d d' : Debugger} {f : Bool}
  {t t' t'' : Tracee}

theorem StopCause.exists_status (c : StopCause) : ∃ sig, c.status = .stopped sig := by
  cases c with
  | trap => exact ⟨sigtrap, rfl⟩
  | signal sig => exact ⟨sig, rfl⟩

/-- What `cont` does with a stop depends on `rip` alone. -/
theorem runs_contFrom_stop (hc : env.Continues) (hstop : StopsAs env c t')
    (hr : d.state = .running) {o : Result Fault Debugger} {w' : World} :
    Runs (kernel env) (contFrom cs d) ⟨f, .stopped d.pid t⟩ o w' ↔
      match d.bptab.atAddr (t'.regs.rip - 1) with
      | some bp =>
          o = .done { (translate cs (t'.regs.rip - 1) bp.code (d.say hitMsg)).2 with
            lastCmdIsSetRip := false } ∧
            w' = ⟨f, .stopped d.pid { t' with regs := t'.regs.back }⟩
      | none =>
          o = .done { d.say (.info "** hit no breakpoint\n") with lastCmdIsSetRip := false } ∧
            w' = ⟨f, .stopped d.pid t'⟩ := by
  have hwait : ∀ o w', Runs (kernel env) (waitThenCheckExit d) ⟨f, .resumed d.pid .cont t⟩ o w' ↔
      o = .done d ∧ w' = ⟨f, .stopped d.pid t'⟩ := by
    intro o w'
    obtain ⟨sig, hsig⟩ := c.exists_status
    rw [runs_waitThenCheckExit]
    constructor
    · rintro ⟨st, t₁, hst, hend⟩
      obtain ⟨rfl, rfl⟩ := (hstop _ _ _).1 hst
      rw [hsig] at hend
      exact hend
    · intro hend
      exact ⟨.stopped sig, t', (hstop _ _ _).2 ⟨hsig.symm, rfl⟩, hend⟩
  unfold contFrom
  rw [runs_cont (hc.cont _), runs_bind_of_done hwait, if_neg (not_not.2 hr)]
  have hcheck : ∀ o w', Runs (kernel env) (checkHitBreakPointOrNot cs .forCont d)
      ⟨f, .stopped d.pid t'⟩ o w' ↔ _ :=
    fun o w' => runs_checkHit_forCont (hc.getregs _) (hc.setregs _)
  cases hat : d.bptab.atAddr (t'.regs.rip - 1) with
  | none =>
      simp only [hat] at hcheck
      exact runs_bind_of_done hcheck
  | some bp =>
      simp only [hat] at hcheck
      exact runs_bind_of_done hcheck

/-- What a stop is taken for, whatever has been printed before it: its own trap
when the byte before `rip` is at an address of the table. -/
theorem recognises_contFrom (hc : env.Continues) (hstop : StopsAs env c t')
    (hr : d.state = .running) {printed : List Msg} (hprinted : hitMsg ∉ printed)
    (hrun : Runs (kernel env) (contFrom cs { d with out := d.out ++ printed })
      ⟨f, .stopped d.pid t⟩ (.done d') ⟨f, .stopped d.pid t''⟩) :
    Recognises d c t' d' t'' ↔ c = .trap ∨ t'.regs.rip - 1 ∉ d.bptab.addrs := by
  have hend := (runs_contFrom_stop (d := { d with out := d.out ++ printed }) hc hstop hr).1 hrun
  by_cases hB : t'.regs.rip - 1 ∈ d.bptab.addrs
  · -- reported and moved back, whatever the cause
    obtain ⟨bp, -, hat, -⟩ :=
      BreakpointTable.atAddr_of_includeAddr (BreakpointTable.includeAddr_iff.2 hB)
    simp only [hat] at hend
    obtain ⟨heq, hw⟩ := hend
    injection heq with heq
    injection hw with _ hchild
    injection hchild with _ ht
    obtain ⟨m, hm⟩ := translate_say cs (t'.regs.rip - 1) bp.code
      ({ d with out := d.out ++ printed }.say hitMsg)
    have hreports : Reports d d' := ⟨printed ++ [hitMsg, m], by rw [heq, hm]; simp, by simp⟩
    have hback : t''.regs = t'.regs.back := congrArg Tracee.regs ht
    constructor
    · intro h
      exact Or.inl (h.reports.1 hreports).1
    · rintro (rfl | hno)
      · have hown : OwnTrap d .trap t' := ⟨rfl, hB⟩
        exact ⟨iff_of_true hreports hown, iff_of_true hback hown, fun h => absurd hown h⟩
      · exact absurd hB hno
  · -- no report, and nothing happens
    have hown : ¬ OwnTrap d c t' := fun h => hB h.2
    simp only [BreakpointTable.atAddr_eq_none hB] at hend
    obtain ⟨heq, hw⟩ := hend
    injection heq with heq
    injection hw with _ hchild
    injection hchild with _ ht
    have hsilent : ¬ Reports d d' := by
      rintro ⟨new, hout, hmem⟩
      have hnew : new = printed ++ [.info "** hit no breakpoint\n"] := by
        have : d.out ++ new = d.out ++ (printed ++ [.info "** hit no breakpoint\n"]) := by
          rw [← hout, heq]
          simp
        exact List.append_cancel_left this
      rw [hnew, List.mem_append, List.mem_singleton] at hmem
      rcases hmem with hmem | hmem
      · exact hprinted hmem
      · simp [hitMsg] at hmem
    have hleft : t''.regs = t'.regs := congrArg Tracee.regs ht
    refine iff_of_true ⟨iff_of_false hsilent hown, iff_of_false ?_ hown, fun _ => hleft⟩ (Or.inr hB)
    rw [hleft]
    exact UserRegs.back_ne _

/-- `cont` recognises a stop exactly when that was by a trap, or `rip` is not
one byte past an address of the table: for every tracee and table, whether a
breakpoint has to be stepped over first or not. -/
theorem cont_recognises_iff (hc : env.Continues) (hstop : StopsAs env c t')
    (hr : d.state = .running)
    (hrun : Runs (kernel env) (cont cs d) ⟨f, .stopped d.pid t⟩ (.done d')
      ⟨f, .stopped d.pid t''⟩) :
    Recognises d c t' d' t'' ↔ c = .trap ∨ t'.regs.rip - 1 ∉ d.bptab.addrs := by
  have hplain : ∀ t₁ w', Runs (kernel env) (contFrom cs d) ⟨f, .stopped d.pid t₁⟩ (.done d') w' →
      w' = ⟨f, .stopped d.pid t''⟩ →
      (Recognises d c t' d' t'' ↔ c = .trap ∨ t'.regs.rip - 1 ∉ d.bptab.addrs) := by
    rintro t₁ w' h rfl
    have hnone : hitMsg ∉ ([] : List Msg) := by simp
    exact recognises_contFrom hc hstop hr hnone (by simpa using h)
  unfold cont at hrun
  rw [if_neg (not_not.2 hr), runs_getregs (hc.getregs _)] at hrun
  simp only [] at hrun
  by_cases hover : d.lastCmdIsSetRip = false ∧ d.bptab.includeAddr t.regs.rip = true
  · rw [if_pos hover] at hrun
    have hsteps : Ensures (kernel env) (fun _ _ => True)
        (fun d' w' => w' = ⟨f, .stopped d.pid t''⟩ →
          (Recognises d c t' d' t'' ↔ c = .trap ∨ t'.regs.rip - 1 ∉ d.bptab.addrs))
        (do let d₁ ← checkThenRestoreSiReput t.regs.rip d
            if d₁.state ≠ .running then pure d₁ else contFrom cs d₁) ⟨f, .stopped d.pid t⟩ := by
      rw [ensures_bind]
      refine ensures_stepOver hr (fun _ _ _ _ => trivial) ?stopped ?exited t.regs.rip
      case stopped =>
        intro errors t₁ herrors
        have hprinted : hitMsg ∉ errors := by
          intro hmem
          obtain ⟨what, heq⟩ := herrors _ hmem
          cases heq
        rw [if_neg (not_not.2 hr), ensures_iff_runs]
        refine ⟨fun d' w' h hw => ?_, fun _ _ _ => trivial⟩
        subst hw
        exact recognises_contFrom hc hstop hr hprinted h
      case exited =>
        intro code
        rw [if_pos (by simp [Debugger.release])]
        intro hw
        cases hw
    exact hsteps.runs hrun rfl
  · rw [if_neg hover] at hrun
    exact hplain _ _ hrun rfl

end Recognise

/-! ## A signal one byte past a breakpoint -/

namespace Sample

/-- `SIGALRM`. -/
def sigalrm : Nat := 14

/-- The registers after the `nop` at `0x1000`. -/
def nextRegs : UserRegs := { regs with rip := 0x1001 }

/-- The tracee as the alarm stops it: it has not moved since the step. -/
def alarmed : Tracee := { trapped with regs := nextRegs }

/-- A system on which a step executes a `nop`, and the alarm is due after it. -/
def alarm : Env :=
  env (fun _ => False) fun how t st t' =>
    match how with
    | .singlestep => st = .stopped sigtrap ∧ t' = { t with regs := nextRegs }
    | .cont => st = .stopped sigalrm ∧ t' = alarmed

theorem alarm_continues : alarm.Continues := ⟨fun _ h => h, fun _ h => h, fun _ _ h => h⟩

theorem alarm_grants : alarm.Grants := ⟨fun _ _ h => h, fun _ _ _ h => h, fun _ h => h⟩

theorem alarm_stopsAs : StopsAs alarm (.signal sigalrm) alarmed := fun _ _ _ => Iff.rfl

/-- The debugger after it has taken the alarm for its trap. -/
def misled : Debugger :=
  { planted with out := planted.out ++ [hitMsg, .insn 0x1000 [0x90] "nop".toList []] }

/-- The tracee, sent back to the breakpoint. -/
def sentBack : Tracee := { alarmed with regs := regs }

/-- `cont` from the breakpoint: the step over it, and the alarm. -/
theorem runs_cont_alarm :
    Runs (kernel alarm) (cont capstone planted) ⟨false, .stopped 1 trapped⟩ (.done misled)
      ⟨false, .stopped 1 sentBack⟩ := by
  have hcode : ∀ bp ∈ planted.bptab.data, byteOf bp.code 0 = tracee.mem bp.addr := by decide
  change Runs _ _ (⟨false, .stopped planted.pid trapped⟩ : World) _ _
  unfold cont
  rw [if_neg (by decide), runs_getregs (alarm_continues.getregs _)]
  simp only []
  rw [if_pos (by decide), runs_bind]
  refine Or.inl ⟨planted, _, (runs_checkThenRestoreSiReput alarm_grants rfl hcode (by decide)).2
    ⟨.stopped sigtrap, _, ⟨rfl, rfl⟩, rfl, rfl⟩, ?_⟩
  rw [if_neg (by decide)]
  exact (runs_contFrom_stop alarm_continues alarm_stopsAs rfl).2 ⟨rfl, rfl⟩

end Sample

/-- The alarm is reported as the breakpoint that was just stepped over, and `rip`
is set back onto it. -/
theorem alarm_taken_for_trap :
    Runs (kernel Sample.alarm) (cont Sample.capstone Sample.planted)
        ⟨false, .stopped 1 Sample.trapped⟩ (.done Sample.misled) ⟨false, .stopped 1 Sample.sentBack⟩ ∧
      ¬ OwnTrap Sample.planted (.signal Sample.sigalrm) Sample.alarmed ∧
      Sample.sentBack.regs ≠ Sample.alarmed.regs ∧
      ¬ Recognises Sample.planted (.signal Sample.sigalrm) Sample.alarmed Sample.misled
        Sample.sentBack := by
  have hown : ¬ OwnTrap Sample.planted (.signal Sample.sigalrm) Sample.alarmed :=
    fun h => StopCause.noConfusion h.1
  have hregs : Sample.sentBack.regs ≠ Sample.alarmed.regs := by decide
  exact ⟨Sample.runs_cont_alarm, hown, hregs, fun h => hregs (h.leaves hown)⟩

theorem cont_recognises_iff_alarm :
    Recognises Sample.planted (.signal Sample.sigalrm) Sample.alarmed Sample.misled
        Sample.sentBack ↔
      StopCause.signal Sample.sigalrm = .trap ∨
        Sample.alarmed.regs.rip - 1 ∉ Sample.planted.bptab.addrs :=
  cont_recognises_iff Sample.alarm_continues Sample.alarm_stopsAs rfl Sample.runs_cont_alarm

end Sdb
