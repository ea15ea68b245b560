import UnixProgramming.Sdb.Hardware

/-!
# Debugged execution refines native execution

A user who steps and continues sees the program as it runs by itself: `si` is
one native step, and `cont` is the native run up to its next breakpoint.  The
traps, the byte taken out to step over one of them and the instruction pointer
one byte too far are not to be seen.

* `NativeState`, `NativeStep` — the commands on the native program.
* `runs_stepIn`, `runs_cont` — what `step_in` and `cont` do on a processor.
* `runs_runCmd` — a command of the debugger is a native one.
* `debugged_refines_native` — the same for every sequence of commands.
-/

namespace Sdb

open ByteMemory CString Requests Overlay Stepping

/-! ## The commands on the native program -/

/-- The two commands. -/
inductive RunCmd where
  | si
  | cont
  deriving DecidableEq

/-- What a command reports. -/
inductive Report where
  | breakpoint (addr : Addr)
  | noBreakpoint
  | terminated (code : Nat)
  | notRunning
  deriving DecidableEq

/-- The native program under the commands: where it is and whether `rip` has
just been set, or that it has exited. -/
inductive NativeState where
  | live (s : Tracee) (isSetRip : Bool)
  | exited

/-- What a step that ends at `rip` reports. -/
def reportAt (B : List Addr) (rip : Addr) : Report :=
  if rip ∈ B then .breakpoint rip else .noBreakpoint

/-- The first step at which `cont` looks for a breakpoint: the one it starts at
counts only when `rip` has just been set to it. -/
def firstLook (B : List Addr) (s : Tracee) (isSetRip : Bool) : Nat :=
  if s.regs.rip ∈ B ∧ isSetRip = false then 1 else 0

/-- A command on the native program, with the breakpoints `B`. -/
def NativeStep (native : Program) (B : List Addr) :
    RunCmd → NativeState → Report → NativeState → Prop
  | _, .exited, r, a' => r = .notRunning ∧ a' = .exited
  | .si, .live s _, r, a' =>
      match native s with
      | .next s' => r = reportAt B s'.regs.rip ∧ a' = .live s' false
      | .exits code => r = .terminated code ∧ a' = .exited
  | .cont, .live s isSetRip, r, a' =>
      (∃ n s', FirstHit native (AtBreakpoint B) (firstLook B s isSetRip) n s s' ∧
        r = .breakpoint s'.regs.rip ∧ a' = .live s' false) ∨
      ∃ code, ExitsUnhit native (AtBreakpoint B) (firstLook B s isSetRip) s code ∧
        r = .terminated code ∧ a' = .exited

/-! ## The debugger around it -/

/-- The debugger's member function for a command. -/
def RunCmd.run (cs : Capstone) : RunCmd → Debugger → Dbg Debugger
  | .si => stepIn cs
  | .cont => Sdb.cont cs

/-- A report as it is printed. -/
def Report.print (cs : Capstone) : Report → Debugger → Debugger
  | .breakpoint addr, d =>
      match d.bptab.atAddr addr with
      | some bp => (translate cs addr bp.code (d.say (.info "** breakpoint @"))).2
      | none => d
  | .noBreakpoint, d => d.say (.info "** hit no breakpoint\n")
  | .terminated code, d => d.say (.terminated d.pid (.exited code))
  | .notRunning, d => d.say (.err "** state must be RUNNING\n")

/-- The members of the debugger in a state of the native program. -/
def NativeState.members : NativeState → Debugger → Debugger
  | .live _ isSetRip, d => { d with lastCmdIsSetRip := isSetRip }
  | .exited, d => d.release

/-- The world in a state of the native program: the tracee is the native one
with the traps in place. -/
def NativeState.world (f : Bool) (pid : Int) (B : List Addr) : NativeState → World
  | .live s _ => ⟨f, .stopped pid (s.trapped B)⟩
  | .exited => ⟨f, .absent⟩

/-- The debugger `d` is on the native tracee `s`. -/
structure Live (native : Program) (d : Debugger) (s : Tracee) : Prop where
  running : d.state = .running
  codes : ∀ bp ∈ d.bptab.data, byteOf bp.code 0 = s.mem bp.addr
  undisturbed : ∀ n u, after native n s = some u → Undisturbed native d.bptab.addrs u

section Commands

variable {cs : Capstone} {native : Program} {d : Debugger} {f : Bool} {s s' : Tracee}
  {o : Result Fault Debugger} {w' : World}

theorem Live.congr {d' : Debugger} (h : Live native d s) (hstate : d'.state = d.state)
    (hbptab : d'.bptab = d.bptab) : Live native d' s := by
  refine ⟨hstate.trans h.running, ?_, ?_⟩
  · rw [hbptab]
    exact h.codes
  · rw [hbptab]
    exact h.undisturbed

/-- The program does not write its breakpoint bytes. -/
theorem Live.next (h : Live native d s) (hs : native s = .next s') : Live native d s' := by
  refine ⟨h.running, ?_, ?_⟩
  · intro bp hbp
    have hmem : bp.addr ∈ d.bptab.addrs := BreakpointTable.mem_addrs.2 ⟨bp, hbp, rfl⟩
    rw [h.codes bp hbp, (h.undisturbed 0 s rfl).aside s' hs _ hmem _ (inWord_self _)]
  · intro n u hu
    exact h.undisturbed (n + 1) u (after_succ_eq_some.2 ⟨s', hs, hu⟩)

theorem Live.after {n : Nat} (h : Live native d s) (hs : after native n s = some s') :
    Live native d s' := by
  induction n generalizing s with
  | zero =>
      cases hs
      exact h
  | succ n ih =>
      obtain ⟨s₁, hnext, hrest⟩ := after_succ_eq_some.1 hs
      exact ih (h.next hnext) hrest

/-- A report only prints. -/
theorem sameButOut_print (r : Report) : SameButOut d (r.print cs d) := by
  cases r with
  | breakpoint addr =>
      rw [Report.print]
      split
      · exact (sameButOut_say d _).trans (sameButOut_translate cs addr _ _)
      · exact SameButOut.refl d
  | noBreakpoint => exact sameButOut_say d _
  | terminated code => exact sameButOut_say d _
  | notRunning => exact sameButOut_say d _

/-! ## What the parts of the commands do on a processor -/

/-- Looking for a breakpoint after a single step. -/
theorem runs_checkHit_singlestep {t : Tracee} :
    Runs (kernel (hardware native)) (checkHitBreakPointOrNot cs .forSinglestep d)
        ⟨f, .stopped d.pid t⟩ o w' ↔
      o = .done ((reportAt d.bptab.addrs t.regs.rip).print cs d) ∧ w' = ⟨f, .stopped d.pid t⟩ := by
  unfold checkHitBreakPointOrNot
  rw [runs_getregs ((hardware_grants native).getregs _)]
  simp only [candAddr, reduceCtorEq, if_false]
  by_cases hB : t.regs.rip ∈ d.bptab.addrs
  · obtain ⟨bp, -, hat, -⟩ :=
      BreakpointTable.atAddr_of_includeAddr (BreakpointTable.includeAddr_iff.2 hB)
    rw [if_neg (by simp [BreakpointTable.includeAddr_iff.2 hB]), entryAt, hat, reportAt, if_pos hB]
    simp only [Prog.done_bind, Prog.pure_eq, runs_done, Report.print, hat]
  · rw [if_pos (BreakpointTable.includeAddr_eq_false_iff.2 hB), reportAt, if_neg hB]
    exact Iff.rfl

/-- Looking for a breakpoint one byte past its trap: `rip` is set back. -/
theorem runs_checkHit_cont (hB : s.regs.rip ∈ d.bptab.addrs) :
    Runs (kernel (hardware native)) (checkHitBreakPointOrNot cs .forCont d)
        ⟨f, .stopped d.pid (s.trapped d.bptab.addrs).pastTrap⟩ o w' ↔
      o = .done ((Report.breakpoint s.regs.rip).print cs d) ∧
        w' = ⟨f, .stopped d.pid (s.trapped d.bptab.addrs)⟩ := by
  obtain ⟨bp, -, hat, -⟩ :=
    BreakpointTable.atAddr_of_includeAddr (BreakpointTable.includeAddr_iff.2 hB)
  have hcand : (s.trapped d.bptab.addrs).pastTrap.regs.rip - 1 = s.regs.rip :=
    Tracee.pastTrap_rip _
  rw [runs_checkHit_forCont ((hardware_grants native).getregs _)
    ((hardware_grants native).setregs _)]
  simp only [hcand, hat]
  rw [← hcand, Tracee.pastTrap_back, hcand, Report.print, hat]

/-- A single step away from the breakpoints is a native step. -/
theorem runs_stepOff (h : Live native d s) (hB : s.regs.rip ∉ d.bptab.addrs) :
    Runs (kernel (hardware native)) (waitThenCheckExit d)
        ⟨f, .resumed d.pid .singlestep (s.trapped d.bptab.addrs)⟩ o w' ↔
      match native s with
      | .next s' => o = .done d ∧ w' = ⟨f, .stopped d.pid (s'.trapped d.bptab.addrs)⟩
      | .exits code =>
          o = .done (d.say (.terminated d.pid (.exited code))).release ∧ w' = ⟨f, .absent⟩ := by
  have hu := h.undisturbed 0 s rfl
  have hrip : ¬ (s.trapped d.bptab.addrs).mem (s.trapped d.bptab.addrs).regs.rip = int3 :=
    mt hu.trapped_rip.1 hB
  rw [runs_waitThenCheckExit]
  simp only [hardware, Stepped, if_neg hrip]
  cases hs : native s with
  | next s' =>
      simp only [hu.native_trapped hB hs]
      constructor
      · rintro ⟨st, t', ⟨rfl, rfl⟩, hend⟩
        exact hend
      · intro hend
        exact ⟨_, _, ⟨rfl, rfl⟩, hend⟩
  | exits code =>
      simp only [hu.native_trapped_exits hB hs]
      constructor
      · rintro ⟨st, t', rfl, hend⟩
        exact hend
      · intro hend
        exact ⟨_, s, rfl, hend⟩

/-- Stepping over a breakpoint is a native step. -/
theorem runs_stepOver (h : Live native d s) (hB : s.regs.rip ∈ d.bptab.addrs) :
    Runs (kernel (hardware native)) (checkThenRestoreSiReput s.regs.rip d)
        ⟨f, .stopped d.pid (s.trapped d.bptab.addrs)⟩ o w' ↔
      match native s with
      | .next s' => o = .done d ∧ w' = ⟨f, .stopped d.pid (s'.trapped d.bptab.addrs)⟩
      | .exits code =>
          o = .done (d.say (.terminated d.pid (.exited code))).release ∧ w' = ⟨f, .absent⟩ := by
  have hu := h.undisturbed 0 s rfl
  rw [runs_checkThenRestoreSiReput (hardware_grants native).toGrants h.running h.codes hB]
  simp only [hardware, Stepped]
  have hrip : ¬ ((s.trapped d.bptab.addrs).restored s.regs.rip s.mem).mem
      ((s.trapped d.bptab.addrs).restored s.regs.rip s.mem).regs.rip = int3 := hu.restored_rip
  simp only [if_neg hrip]
  cases hs : native s with
  | next s' =>
      obtain ⟨t₁, hstep, hreput⟩ := hu.native_restored hB hs
      simp only [hstep]
      constructor
      · rintro ⟨st, t', ⟨rfl, rfl⟩, hend⟩
        rw [hreput] at hend
        exact hend
      · intro hend
        refine ⟨_, t₁, ⟨rfl, rfl⟩, ?_⟩
        rw [hreput]
        exact hend
  | exits code =>
      simp only [hu.native_restored_exits hs]
      constructor
      · rintro ⟨st, t', rfl, hend⟩
        exact hend
      · intro hend
        exact ⟨_, s, rfl, hend⟩

/-- From `PTRACE_CONT` on: the native run up to its next breakpoint. -/
theorem runs_contFrom (h : Live native d s) :
    Runs (kernel (hardware native)) (contFrom cs d)
        ⟨f, .stopped d.pid (s.trapped d.bptab.addrs)⟩ o w' ↔
      (∃ n s', FirstHit native (AtBreakpoint d.bptab.addrs) 0 n s s' ∧
        o = .done { (Report.breakpoint s'.regs.rip).print cs d with lastCmdIsSetRip := false } ∧
        w' = ⟨f, .stopped d.pid (s'.trapped d.bptab.addrs)⟩) ∨
      ∃ code, ExitsUnhit native (AtBreakpoint d.bptab.addrs) 0 s code ∧
        o = .done (d.say (.terminated d.pid (.exited code))).release ∧ w' = ⟨f, .absent⟩ := by
  have hreleased : ∀ m, (d.say m).release.state ≠ .running := fun m => by simp [Debugger.release]
  unfold contFrom
  rw [runs_cont ((hardware_grants native).cont _), runs_bind]
  simp only [runs_waitThenCheckExit]
  constructor
  · rintro (⟨d₁, w₁, ⟨st, t', hst, hend⟩, hrest⟩ | ⟨e, ⟨st, t', hst, hend⟩, rfl⟩)
    · rcases (runsTo_trapped_iff h.undisturbed).1 hst with
        ⟨n, s', hhit, rfl, rfl⟩ | ⟨code, hexit, rfl⟩
      · obtain ⟨heq, rfl⟩ := hend
        cases heq
        rw [if_neg (not_not.2 h.running), runs_bind] at hrest
        rcases hrest with ⟨d₂, w₂, hcheck, hend⟩ | ⟨e, hcheck, -⟩
        · obtain ⟨heq, rfl⟩ := (runs_checkHit_cont hhit.2.2.1).1 hcheck
          cases heq
          exact Or.inl ⟨n, s', hhit, hend⟩
        · cases ((runs_checkHit_cont hhit.2.2.1).1 hcheck).1
      · obtain ⟨heq, rfl⟩ := hend
        cases heq
        rw [if_pos (hreleased _)] at hrest
        exact Or.inr ⟨code, hexit, hrest⟩
    · rcases (runsTo_trapped_iff h.undisturbed).1 hst with
        ⟨n, s', hhit, rfl, rfl⟩ | ⟨code, hexit, rfl⟩
      · cases hend.1
      · cases hend.1
  · rintro (⟨n, s', hhit, rfl, rfl⟩ | ⟨code, hexit, rfl, rfl⟩)
    · have hst := (runsTo_trapped_iff h.undisturbed).2 (Or.inl ⟨n, s', hhit, rfl, rfl⟩)
      refine Or.inl ⟨d, _, ⟨_, _, hst, rfl, rfl⟩, ?_⟩
      rw [if_neg (not_not.2 h.running), runs_bind]
      exact Or.inl ⟨_, _, (runs_checkHit_cont hhit.2.2.1).2 ⟨rfl, rfl⟩, rfl, rfl⟩
    · have hst : RunsTo native (s.trapped d.bptab.addrs) (.exited code) s :=
        (runsTo_trapped_iff h.undisturbed).2 (Or.inr ⟨code, hexit, rfl⟩)
      refine Or.inl ⟨_, _, ⟨_, _, hst, rfl, rfl⟩, ?_⟩
      rw [if_pos (hreleased _)]
      exact ⟨rfl, rfl⟩

/-! ## The two commands -/

/-- After a step that may have ended the program: the rest of `step_in`. -/
theorem runs_afterStep {p : Dbg Debugger} {w : World} {rest : Debugger → Dbg Debugger}
    (h : Live native d s)
    (hp : ∀ o w', Runs (kernel (hardware native)) p w o w' ↔
      match native s with
      | .next s' => o = .done d ∧ w' = ⟨f, .stopped d.pid (s'.trapped d.bptab.addrs)⟩
      | .exits code =>
          o = .done (d.say (.terminated d.pid (.exited code))).release ∧ w' = ⟨f, .absent⟩) :
    Runs (kernel (hardware native))
        (p >>= fun d => if d.state ≠ .running then pure d else rest d) w o w' ↔
      match native s with
      | .next s' => Runs (kernel (hardware native)) (rest d)
          ⟨f, .stopped d.pid (s'.trapped d.bptab.addrs)⟩ o w'
      | .exits code =>
          o = .done (d.say (.terminated d.pid (.exited code))).release ∧ w' = ⟨f, .absent⟩ := by
  rw [runs_bind]
  simp only [hp]
  cases native s with
  | next s' =>
      constructor
      · rintro (⟨d₁, w₁, ⟨heq, rfl⟩, hrest⟩ | ⟨e, ⟨heq, -⟩, -⟩)
        · cases heq
          rw [if_neg (not_not.2 h.running)] at hrest
          exact hrest
        · cases heq
      · intro hrest
        refine Or.inl ⟨d, _, ⟨rfl, rfl⟩, ?_⟩
        rw [if_neg (not_not.2 h.running)]
        exact hrest
  | exits code =>
      constructor
      · rintro (⟨d₁, w₁, ⟨heq, rfl⟩, hrest⟩ | ⟨e, ⟨heq, -⟩, -⟩)
        · cases heq
          rw [if_pos (by simp [Debugger.release])] at hrest
          exact hrest
        · cases heq
      · intro hend
        refine Or.inl ⟨_, _, ⟨rfl, rfl⟩, ?_⟩
        rw [if_pos (by simp [Debugger.release])]
        exact hend

/-- `si` is one native step, or sees the exit. -/
theorem runs_stepIn (h : Live native d s) :
    Runs (kernel (hardware native)) (stepIn cs d)
        ⟨f, .stopped d.pid (s.trapped d.bptab.addrs)⟩ o w' ↔
      match native s with
      | .next s' =>
          o = .done { (reportAt d.bptab.addrs s'.regs.rip).print cs d with
            lastCmdIsSetRip := false } ∧
          w' = ⟨f, .stopped d.pid (s'.trapped d.bptab.addrs)⟩
      | .exits code =>
          o = .done (d.say (.terminated d.pid (.exited code))).release ∧ w' = ⟨f, .absent⟩ := by
  have hrest : ∀ s' : Tracee, Runs (kernel (hardware native)) (do
        let d ← checkHitBreakPointOrNot cs .forSinglestep d
        pure { d with lastCmdIsSetRip := false })
        ⟨f, .stopped d.pid (s'.trapped d.bptab.addrs)⟩ o w' ↔
      o = .done { (reportAt d.bptab.addrs s'.regs.rip).print cs d with lastCmdIsSetRip := false } ∧
        w' = ⟨f, .stopped d.pid (s'.trapped d.bptab.addrs)⟩ := by
    intro s'
    rw [runs_bind]
    simp only [runs_checkHit_singlestep]
    constructor
    · rintro (⟨d₁, w₁, ⟨heq, rfl⟩, hend⟩ | ⟨e, ⟨heq, -⟩, -⟩)
      · cases heq
        exact hend
      · cases heq
    · intro hend
      exact Or.inl ⟨_, _, ⟨rfl, rfl⟩, hend⟩
  unfold stepIn
  rw [if_neg (not_not.2 h.running), runs_getregs ((hardware_grants native).getregs _)]
  by_cases hB : s.regs.rip ∈ d.bptab.addrs
  · have hinc : d.bptab.includeAddr (s.trapped d.bptab.addrs).regs.rip = true :=
      BreakpointTable.includeAddr_iff.2 hB
    simp only []
    rw [if_pos hinc, Tracee.trapped_regs, runs_afterStep h fun o w' => runs_stepOver h hB]
    simp only [hrest]
  · have hinc : ¬ d.bptab.includeAddr (s.trapped d.bptab.addrs).regs.rip = true :=
      mt BreakpointTable.includeAddr_iff.1 hB
    simp only []
    rw [if_neg hinc, runs_singlestep (hardware_grants native).toGrants,
      runs_afterStep h fun o w' => runs_stepOff h hB]
    simp only [hrest]

/-- `cont` is the native run up to the first breakpoint it looks for, or sees
the exit. -/
theorem runs_contCmd (h : Live native d s) :
    Runs (kernel (hardware native)) (cont cs d)
        ⟨f, .stopped d.pid (s.trapped d.bptab.addrs)⟩ o w' ↔
      (∃ n s', FirstHit native (AtBreakpoint d.bptab.addrs)
          (firstLook d.bptab.addrs s d.lastCmdIsSetRip) n s s' ∧
        o = .done { (Report.breakpoint s'.regs.rip).print cs d with lastCmdIsSetRip := false } ∧
        w' = ⟨f, .stopped d.pid (s'.trapped d.bptab.addrs)⟩) ∨
      ∃ code, ExitsUnhit native (AtBreakpoint d.bptab.addrs)
          (firstLook d.bptab.addrs s d.lastCmdIsSetRip) s code ∧
        o = .done (d.say (.terminated d.pid (.exited code))).release ∧ w' = ⟨f, .absent⟩ := by
  unfold cont
  rw [if_neg (not_not.2 h.running), runs_getregs ((hardware_grants native).getregs _)]
  simp only [BreakpointTable.includeAddr_iff, Tracee.trapped_regs, firstLook]
  by_cases hstep : s.regs.rip ∈ d.bptab.addrs ∧ d.lastCmdIsSetRip = false
  · rw [if_pos hstep.symm, if_pos hstep,
      runs_afterStep h fun o w' => runs_stepOver (f := f) h hstep.1]
    cases hs : native s with
    | next s' =>
        simp only [runs_contFrom (h.next hs), firstHit_succ_iff hs, exitsUnhit_succ_iff hs]
        constructor
        · rintro (⟨n, s'', hhit, hend⟩ | hexit)
          · exact Or.inl ⟨n + 1, s'', ⟨n, rfl, hhit⟩, hend⟩
          · exact Or.inr hexit
        · rintro (⟨n, s'', ⟨m, -, hhit⟩, hend⟩ | hexit)
          · exact Or.inl ⟨m, s'', hhit, hend⟩
          · exact Or.inr hexit
    | exits code =>
        constructor
        · intro hend
          exact Or.inr ⟨code, (exitsUnhit_of_exits hs).2 rfl, hend⟩
        · rintro (⟨n, s'', hhit, -⟩ | ⟨code', hexit, hend⟩)
          · exact absurd hhit (not_firstHit_of_exits hs)
          · obtain rfl := (exitsUnhit_of_exits hs).1 hexit
            exact hend
  · rw [if_neg fun hno => hstep hno.symm, if_neg hstep]
    exact runs_contFrom h

/-! ## A command is a native one -/

/-- The debugger and a state of the native program go together. -/
def Matches (native : Program) (p : Int) (B : List Addr) (d : Debugger) : NativeState → Prop
  | .live s isSetRip =>
      d.lastCmdIsSetRip = isSetRip ∧ d.pid = p ∧ d.bptab.addrs = B ∧ Live native d s
  | .exited => d.release = d

variable {p : Int} {B : List Addr} {a a' : NativeState} {c : RunCmd} {r : Report}

/-- A command of the debugger does what it does on the native program, and
prints what is to be reported. -/
theorem runs_runCmd (h : Matches native p B d a) :
    Runs (kernel (hardware native)) (c.run cs d) (a.world f p B) o w' ↔
      ∃ r a', NativeStep native B c a r a' ∧ o = .done (a'.members (r.print cs d)) ∧
        w' = a'.world f p B := by
  cases a with
  | live s isSetRip =>
      obtain ⟨rfl, rfl, rfl, hlive⟩ := h
      cases c with
      | si =>
          rw [NativeState.world, RunCmd.run, runs_stepIn hlive]
          simp only [NativeStep]
          cases native s with
          | next s' =>
              constructor
              · intro hend
                exact ⟨_, _, ⟨rfl, rfl⟩, hend⟩
              · rintro ⟨r, a', ⟨rfl, rfl⟩, hend⟩
                exact hend
          | exits code =>
              constructor
              · intro hend
                exact ⟨_, _, ⟨rfl, rfl⟩, hend⟩
              · rintro ⟨r, a', ⟨rfl, rfl⟩, hend⟩
                exact hend
      | cont =>
          rw [NativeState.world, RunCmd.run, runs_contCmd hlive]
          constructor
          · rintro (⟨n, s', hhit, hend⟩ | ⟨code, hexit, hend⟩)
            · exact ⟨_, .live s' false, Or.inl ⟨n, s', hhit, rfl, rfl⟩, hend⟩
            · exact ⟨_, .exited, Or.inr ⟨code, hexit, rfl, rfl⟩, hend⟩
          · rintro ⟨r, a', ⟨n, s', hhit, rfl, rfl⟩ | ⟨code, hexit, rfl, rfl⟩, hend⟩
            · exact Or.inl ⟨n, s', hhit, hend⟩
            · exact Or.inr ⟨code, hexit, hend⟩
  | exited =>
      have hloaded : d.state ≠ .running := by
        rw [← show d.release = d from h]
        simp [Debugger.release]
      have hsaid : NativeState.exited.members (Report.notRunning.print cs d) =
          d.say (.err "** state must be RUNNING\n") :=
        congrArg (fun d => d.say (.err "** state must be RUNNING\n")) (show d.release = d from h)
      have hrun : c.run cs d = pure (d.say (.err "** state must be RUNNING\n")) := by
        cases c with
        | si => exact if_pos hloaded
        | cont => exact if_pos hloaded
      rw [hrun, Prog.pure_eq, runs_done]
      constructor
      · rintro ⟨rfl, rfl⟩
        exact ⟨.notRunning, .exited, by cases c <;> exact ⟨rfl, rfl⟩, by rw [hsaid], rfl⟩
      · rintro ⟨r, a', hstep, rfl, rfl⟩
        obtain ⟨rfl, rfl⟩ : r = .notRunning ∧ a' = .exited := by cases c <;> exact hstep
        rw [hsaid]
        exact ⟨rfl, rfl⟩

theorem Matches.step (h : Matches native p B d a) (hstep : NativeStep native B c a r a') :
    Matches native p B (a'.members (r.print cs d)) a' := by
  obtain ⟨out, hprint⟩ : SameButOut d (r.print cs d) := sameButOut_print r
  have hnext : ∀ s n s', Matches native p B d (.live s d.lastCmdIsSetRip) →
      Stepping.after native n s = some s' →
      Matches native p B (NativeState.members (.live s' false) (r.print cs d)) (.live s' false) := by
    rintro s n s' ⟨-, rfl, rfl, hlive⟩ hs
    rw [hprint]
    exact ⟨rfl, rfl, rfl, (hlive.after hs).congr rfl rfl⟩
  cases a with
  | live s isSetRip =>
      obtain rfl : d.lastCmdIsSetRip = isSetRip := h.1
      cases c with
      | si =>
          rw [NativeStep] at hstep
          cases hs : native s with
          | next s' =>
              rw [hs] at hstep
              obtain ⟨-, rfl⟩ := hstep
              exact hnext s 1 s' h (after_succ_eq_some.2 ⟨s', hs, rfl⟩)
          | exits code =>
              rw [hs] at hstep
              obtain ⟨-, rfl⟩ := hstep
              exact rfl
      | cont =>
          rcases hstep with ⟨n, s', hhit, -, rfl⟩ | ⟨code, -, -, rfl⟩
          · exact hnext s n s' h hhit.2.1
          · exact rfl
  | exited =>
      obtain ⟨-, rfl⟩ : r = .notRunning ∧ a' = .exited := by cases c <;> exact hstep
      exact rfl

/-! ## Sequences of commands -/

/-- Commands one after another. -/
def session (cs : Capstone) : List RunCmd → Debugger → Dbg Debugger
  | [], d => pure d
  | c :: rest, d => do session cs rest (← c.run cs d)

/-- The commands on the native program, each report printed: the state and the
debugger's members at the end. -/
def Follows (cs : Capstone) (native : Program) (B : List Addr) :
    List RunCmd → NativeState → Debugger → NativeState → Debugger → Prop
  | [], a, d, a', d' => a' = a ∧ d' = d
  | c :: rest, a, d, a', d' => ∃ r a₁, NativeStep native B c a r a₁ ∧
      Follows cs native B rest a₁ (a₁.members (r.print cs d)) a' d'

theorem runs_session (cmds : List RunCmd) (h : Matches native p B d a) :
    Runs (kernel (hardware native)) (session cs cmds d) (a.world f p B) o w' ↔
      ∃ a' d', Follows cs native B cmds a d a' d' ∧ o = .done d' ∧ w' = a'.world f p B := by
  induction cmds generalizing d a with
  | nil =>
      constructor
      · rintro ⟨rfl, rfl⟩
        exact ⟨a, d, ⟨rfl, rfl⟩, rfl, rfl⟩
      · rintro ⟨a', d', ⟨rfl, rfl⟩, rfl, rfl⟩
        exact ⟨rfl, rfl⟩
  | cons c rest ih =>
      rw [session, runs_bind]
      simp only [runs_runCmd h]
      constructor
      · rintro (⟨d₁, w₁, ⟨r, a₁, hstep, heq, rfl⟩, hrest⟩ | ⟨e, ⟨r, a₁, -, heq, -⟩, -⟩)
        · cases heq
          obtain ⟨a', d', hfollows, hend⟩ := (ih (h.step hstep)).1 hrest
          exact ⟨a', d', ⟨r, a₁, hstep, hfollows⟩, hend⟩
        · cases heq
      · rintro ⟨a', d', ⟨r, a₁, hstep, hfollows⟩, hend⟩
        refine Or.inl ⟨_, _, ⟨r, a₁, hstep, rfl, rfl⟩, ?_⟩
        exact (ih (h.step hstep)).2 ⟨a', d', hfollows, hend⟩

end Commands

/-! ## From any tracee with its traps in place -/

/-- The program's own memory: the bytes the table remembers, at its addresses. -/
def BreakpointTable.originalMem (tab : BreakpointTable) (m : Memory) : Memory := fun x =>
  match tab.atAddr x with
  | some bp => byteOf bp.code 0
  | none => m x

/-- The tracee as it would be without the debugger. -/
def Tracee.original (tab : BreakpointTable) (t : Tracee) : Tracee :=
  { t with mem := tab.originalMem t.mem }

theorem BreakpointTable.originalMem_of_mem {tab : BreakpointTable} {m : Memory}
    (hnd : tab.addrs.Nodup) {bp : BreakpointInfo} (hbp : bp ∈ tab.data) :
    tab.originalMem m bp.addr = byteOf bp.code 0 := by
  simp only [originalMem, atAddr_eq_of_nodup hnd hbp]

theorem BreakpointTable.originalMem_of_not_mem {tab : BreakpointTable} {m : Memory} {x : Addr}
    (hx : x ∉ tab.addrs) : tab.originalMem m x = m x := by
  have hnone : tab.atAddr x = none := by
    rcases tab.dictAddr2idx_spec x with ⟨hidx, -⟩ | ⟨j, bp, -, hget, haddr⟩
    · simp [atAddr, atIdx, hidx]
    · exact absurd (mem_addrs.2 ⟨bp, List.mem_of_getElem? hget, haddr⟩) hx
  simp only [originalMem, hnone]

/-- The tracee is its original with the traps in place. -/
theorem Tracee.trapped_original {tab : BreakpointTable} {t : Tracee}
    (htrap : ∀ A ∈ tab.addrs, t.mem A = int3) : (t.original tab).trapped tab.addrs = t := by
  have hmem : overlay tab.addrs int3 (t.original tab).mem = t.mem := by
    funext x
    by_cases hx : x ∈ tab.addrs
    · rw [overlay_of_mem hx, htrap x hx]
    · rw [overlay_of_not_mem hx]
      exact BreakpointTable.originalMem_of_not_mem hx
  rw [trapped, hmem]
  rfl

/-- From any tracee with its traps in place, over a program that has nothing to
do with the breakpoints, any sequence of `si` and `cont` does what it does on
the native program: it ends as that ends, with the native registers, the native
memory under the traps, and the native reports printed. -/
theorem debugged_refines_native {native : Program} {d : Debugger} {t : Tracee} {f : Bool}
    (cs : Capstone) (hrunning : d.state = .running) (hnd : d.bptab.addrs.Nodup)
    (htrap : ∀ A ∈ d.bptab.addrs, t.mem A = int3)
    (hundisturbed : ∀ n u, after native n (t.original d.bptab) = some u →
      Undisturbed native d.bptab.addrs u)
    (cmds : List RunCmd) (o : Result Fault Debugger) (w' : World) :
    Runs (kernel (hardware native)) (session cs cmds d) ⟨f, .stopped d.pid t⟩ o w' ↔
      ∃ a' d', Follows cs native d.bptab.addrs cmds
          (.live (t.original d.bptab) d.lastCmdIsSetRip) d a' d' ∧
        o = .done d' ∧ w' = a'.world f d.pid d.bptab.addrs := by
  have hlive : Live native d (t.original d.bptab) :=
    ⟨hrunning, fun bp hbp => (BreakpointTable.originalMem_of_mem hnd hbp).symm, hundisturbed⟩
  have hmatches : Matches native d.pid d.bptab.addrs d
      (.live (t.original d.bptab) d.lastCmdIsSetRip) := ⟨rfl, rfl, rfl, hlive⟩
  have hworld : (NativeState.live (t.original d.bptab) d.lastCmdIsSetRip).world f d.pid
      d.bptab.addrs = ⟨f, .stopped d.pid t⟩ := by
    rw [NativeState.world, Tracee.trapped_original htrap]
  rw [← hworld]
  exact runs_session cmds hmatches

namespace Sample

/-- `nop; jmp $-1`, for ever. -/
def looping : Program := fun t =>
  .next { t with regs := { t.regs with rip := if t.regs.rip = 0x1000 then 0x1001 else 0x1000 } }

theorem after_looping {n : Nat} {s u : Tracee} (h : after looping n s = some u) :
    u.mem = s.mem := by
  induction n generalizing s with
  | zero =>
      cases h
      rfl
  | succ n ih =>
      obtain ⟨s₁, hs, hrest⟩ := after_succ_eq_some.1 h
      cases hs
      have hkeep := ih hrest
      exact hkeep

/-- It neither looks at its memory nor changes it. -/
theorem undisturbed_looping {B : List Addr} {s : Tracee} (h : s.mem s.regs.rip ≠ int3) :
    Undisturbed looping B s := by
  refine ⟨h, ?_, ?_⟩
  · intro m hm
    refine ⟨m, rfl, ?_⟩
    intro x
    split
    · rfl
    · next hx => exact hm x hx
  · rintro s' hs A - x -
    cases hs
    rfl

/-- The process at its breakpoint. -/
def atTrap : Tracee := tracee.trapped [0x1000]

theorem atTrap_original : atTrap.original planted.bptab = tracee := by
  have hmem : planted.bptab.originalMem atTrap.mem = tracee.mem := by
    funext x
    by_cases hx : x = 0x1000
    · subst hx
      exact BreakpointTable.originalMem_of_mem (by decide) (List.mem_singleton_self _)
    · have hno : x ∉ planted.bptab.addrs := by simpa [planted, BreakpointTable.addrs] using hx
      rw [BreakpointTable.originalMem_of_not_mem hno]
      exact overlay_of_not_mem (by simpa using hx)
  rw [Tracee.original, hmem]
  rfl

end Sample

/-- `cont` from the breakpoint goes once round the loop and stops there again. -/
theorem debugged_refines_native_looping :
    Runs (kernel (hardware Sample.looping)) (session Sample.capstone [.cont] Sample.planted)
      ⟨false, .stopped 1 Sample.atTrap⟩
      (.done { (Report.breakpoint 0x1000).print Sample.capstone Sample.planted with
        lastCmdIsSetRip := false })
      ⟨false, .stopped 1 Sample.atTrap⟩ := by
  have htrap : ∀ A ∈ Sample.planted.bptab.addrs, Sample.atTrap.mem A = int3 := fun A hA =>
    overlay_of_mem (B := [0x1000]) hA
  have hundisturbed : ∀ n u, after Sample.looping n (Sample.atTrap.original Sample.planted.bptab) =
      some u → Undisturbed Sample.looping Sample.planted.bptab.addrs u := by
    intro n u hu
    rw [Sample.atTrap_original] at hu
    apply Sample.undisturbed_looping
    rw [Sample.after_looping hu]
    exact show (0x90 : Byte) ≠ int3 by decide
  refine (debugged_refines_native Sample.capstone rfl (by decide) htrap hundisturbed [.cont] _ _).2 ?_
  rw [Sample.atTrap_original]
  refine ⟨.live Sample.tracee false, _, ⟨_, _, Or.inl ⟨2, Sample.tracee, ?_, rfl, rfl⟩, rfl, rfl⟩,
    rfl, rfl⟩
  refine ⟨by decide, rfl, ?_, ?_⟩
  · exact List.mem_singleton_self _
  · intro m u hm hlt hu
    obtain rfl : m = 1 := by
      have : 1 ≤ m := hm
      omega
    cases hu
    exact show (0x1001 : Addr) ∉ [(0x1000 : Addr)] by decide

end Sdb
