import UnixProgramming.Sdb.Session

/-!
# The debugger and its child

`start` and `wait_then_check_exit` keep the debugger's state in step with its
child as long as every child that is forked gets executed and none is killed by
a signal: there the child goes back to the command loop, or an assertion fails.

* `Orderly` — the system under which that does not happen.
* `lifecycleSession` — the invariant: nothing is left of a child that does not
  run, and `lifecycleSession_stable`, what preserves it.
* `state_tracks_child` — in every reachable state.
-/

namespace Sdb

open ByteMemory CString Requests

/-- Every forked child is traced and executed and then stops, and no child is
killed by a signal.  Every other request may fail. -/
structure Orderly (env : Env) : Prop where
  traceme : ¬ env.mayFail .traceme
  execvp : ∀ path, ¬ env.mayFail (.execvp path)
  starts : ∀ st, ¬ env.startEnds st
  notKilled : ∀ how t sig t', ¬ env.stops how t (.signaled sig) t'

/-- This process is the debugger itself, and it has a child only while it is
running. -/
def lifecycleSession : SessionInv where
  live _ f _ := f = false
  idle _ w := w = ⟨false, .absent⟩

section Lifecycle

variable {env : Env} {d : Debugger} {w : World} {f : Bool} {t : Tracee}

/-- A program that at most pokes and does not change the state keeps it. -/
theorem lifecycle_pokes {p : Dbg Debugger} (h : lifecycleSession.Holds d w)
    (hr : d.state = .running)
    (hp : Within Req.Pokes Fault.OfParser (fun d' => d'.state = d.state ∧ d'.pid = d.pid) p) :
    Ensures (kernel env) (fun e _ => e ≠ .assertion) lifecycleSession.Holds p w := by
  obtain ⟨f, t, rfl, hf⟩ := h.1 hr
  refine (ensures_of_pokes hp f d.pid t).mono (fun _ _ he => he.ne_assertion) ?_
  rintro d' w' ⟨⟨hs, hpid⟩, mem, rfl⟩
  rw [← hpid]
  exact SessionInv.Holds.of_live (hs.trans hr) hf

/-- Stepping over a breakpoint, whatever is refused on the way. -/
theorem lifecycle_stepOver (ho : Orderly env) (hr : d.state = .running)
    (hf : lifecycleSession.live d f t) (addr : Word) :
    Ensures (kernel env) (fun e _ => e ≠ .assertion) lifecycleSession.Holds
      (checkThenRestoreSiReput addr d) ⟨f, .stopped d.pid t⟩ := by
  refine ensures_stepOver hr (fun _ _ _ hst => absurd hst (ho.notKilled _ _ _ _))
    (fun errors t' _ => ?_) (fun code => ?_) addr
  · exact SessionInv.Holds.of_live (d := { d with out := d.out ++ errors }) hr hf
  · refine SessionInv.Holds.of_idle (by simp [Debugger.release]) ?_
    rw [show f = false from hf]
    rfl

/-- A start that is not refused leaves a stopped tracee. -/
theorem lifecycle_start (cs : Capstone) (ho : Orderly env) (hl : d.state = .loaded)
    (h : lifecycleSession.idle d w) :
    Ensures (kernel env) (fun e _ => e ≠ .assertion) lifecycleSession.Holds (start cs d) w := by
  obtain rfl : w = ⟨false, .absent⟩ := h
  refine ensures_start hl (fun _ => ?_) (fun hf => absurd hf ho.traceme)
    (fun hf => absurd hf (ho.execvp _)) (fun st _ he => absurd he (ho.starts st))
    fun pid t _ _ => ?_
  · exact SessionInv.Holds.of_idle (by simp [hl]) rfl
  · refine (ensures_of_pokes (pokes_reputFrom { d with pid := pid } _ _) false pid t).mono
      (fun _ _ he => he.ne_assertion) ?_
    rintro d₁ w₁ ⟨⟨out, rfl⟩, mem, rfl⟩
    exact ⟨out, mem, rfl, rfl, fun regs out' => SessionInv.Holds.of_live rfl rfl⟩

/-- What preserves the agreement of state and child. -/
theorem lifecycleSession_stable (cs : Capstone) (ho : Orderly env) :
    lifecycleSession.Stable cs env fun e _ => e ≠ .assertion where
  live_out h _ _ := h
  idle_out h _ _ := h
  regs h _ := h
  stopped _ h _ := h
  exited _ h := by
    rw [show _ = false from h]
    rfl
  killed _ _ hst := absurd hst (ho.notKilled _ _ _ _)
  faults _ _ he := he
  stepOver hr h addr _ := lifecycle_stepOver ho hr h addr
  start hl h := lifecycle_start cs ho hl h

/-- One line of input keeps state and child in agreement, and no assertion fails. -/
theorem lifecycle_dispatch (cs : Capstone) (ho : Orderly env) (h : lifecycleSession.Holds d w)
    (line c : Str) (cmds : List Str) :
    Ensures (kernel env) (fun e _ => e ≠ .assertion) lifecycleSession.Holds
      (dispatch cs line cmds c d) w := by
  have hI := lifecycleSession_stable cs ho
  refine SessionInv.holds_dispatch hI h ?load (fun _ => ?point) ?delete
  case load =>
    by_cases hl : d.state = .noload
    · refine (ensures_of_looks (looks_load d cmds) w).mono (fun _ _ he => he.1.ne_assertion) ?_
      rintro d' w' ⟨⟨-, hs⟩, rfl⟩
      refine SessionInv.Holds.of_idle ?_ (h.2 (by simp [hl]))
      rcases hs with hs | ⟨hs, -, -⟩
      · simp [hs]
      · simp [hs, hl]
    · rw [load_of_loaded cmds hl]
      exact hI.say h _
  case point =>
    by_cases hr : d.state = .running
    · refine lifecycle_pokes h hr ((pokes_setBreakPoint d cmds).imp fun d' hd' => ?_)
      rcases hd' with ⟨out, rfl⟩ | ⟨-, _, _, _, _, _, -, -, -, rfl⟩
      · exact ⟨rfl, rfl⟩
      · exact ⟨rfl, rfl⟩
    · unfold setBreakPoint
      rw [if_pos hr]
      exact hI.say h _
  case delete =>
    by_cases hr : d.state = .running
    · refine lifecycle_pokes h hr ((pokes_deleteBreakPoint d cmds).imp fun d' hd' => ?_)
      rcases hd' with ⟨out, rfl⟩ | ⟨-, _, _, -, rfl⟩
      · exact ⟨rfl, rfl⟩
      · exact ⟨rfl, rfl⟩
    · unfold deleteBreakPoint
      rw [if_pos hr]
      exact hI.say h _

/-- No line of input makes an assertion fail. -/
theorem lifecycle_commandLoop (cs : Capstone) (ho : Orderly env) (h : lifecycleSession.Holds d w)
    (line : Str) :
    Ensures (kernel env) (fun e _ => e ≠ .assertion) (fun _ _ => True) (commandLoop cs line d) w := by
  unfold commandLoop
  cases dbgcmdParser line ' ' with
  | nil => exact Fault.noConfusion
  | cons c args =>
      simp only [ensures_ite]
      refine ⟨fun _ => trivial, fun _ => ?_⟩
      exact (lifecycle_dispatch cs ho h line c (c :: args)).bind fun _ _ _ => trivial

/-- Only a line that leaves the tracee running changes the table. -/
theorem yields_dispatch_table (cs : Capstone) (d : Debugger) (line c : Str) (cmds : List Str) :
    Yields (fun d' => d'.bptab = d.bptab ∨ d'.state = .running) (dispatch cs line cmds c d) := by
  have hkeeps : ∀ d', Keeps d d' → d'.bptab = d.bptab ∨ d'.state = .running :=
    fun d' hk => Or.inl hk.bptab
  have hsame : ∀ d', SameButOut d d' → d'.bptab = d.bptab ∨ d'.state = .running :=
    fun d' hs => hkeeps d' hs.keeps
  refine dispatch_cases cs (P := Yields _) hsame ?load ((keeps_start cs d).yields.imp hkeeps)
    ((keeps_cont cs d).yields.imp hkeeps) (fun _ => ?point) ((keeps_stepIn cs d).yields.imp hkeeps) ?delete
    ((looks_getSingleReg d _).yields.imp hsame) ((looks_getAllRegs d).yields.imp hsame)
    ((keeps_setReg d _).yields.imp hkeeps) ((looks_vmmap d).yields.imp hsame)
    ((looks_disasm cs d _).yields.imp hsame) ((looks_dump d _).yields.imp hsame)
    ((keeps_run cs d).yields.imp hkeeps)
  case load => exact (looks_load d _).yields.imp fun d' hd' => Or.inl hd'.1
  case point =>
    refine (pokes_setBreakPoint d _).yields.imp fun d' hd' => ?_
    rcases hd' with hs | ⟨hr, _, _, _, _, _, -, -, -, rfl⟩
    · exact hsame d' hs
    · exact Or.inr hr
  case delete =>
    refine (pokes_deleteBreakPoint d _).yields.imp fun d' hd' => ?_
    rcases hd' with hs | ⟨hr, _, _, -, rfl⟩
    · exact hsame d' hs
    · exact Or.inr hr

/-! ## Every reachable state -/

theorem lifecycle_of_reachable {cs : Capstone} (ho : Orderly env)
    (h : Reachable cs env (fun _ _ => True) d w) : lifecycleSession.Holds d w := by
  induction h with
  | init => exact SessionInv.Holds.of_idle (by decide) rfl
  | step _ _ hr ih =>
      obtain ⟨c, args, -, -, hr⟩ := runs_commandLoop.1 hr
      exact (lifecycle_dispatch cs ho ih _ c (c :: args)).runs hr

/-- After a line that leaves a loaded program without a child, the table is as
before and `start` forks again. -/
theorem lifecycle_restart {cs : Capstone} (ho : Orderly env) (h : lifecycleSession.Holds d w)
    (hl : d.state ≠ .noload) {line : Str} {d' : Debugger} {w' : World}
    (hr : Runs (kernel env) (commandLoop cs line d) w (.done (.next d')) w')
    (hgone : w'.child = .absent) :
    d'.state = .loaded ∧ d'.bptab = d.bptab ∧ ∃ k, start cs d' = .request .fork k := by
  obtain ⟨c, args, -, -, hr⟩ := runs_commandLoop.1 hr
  have h' := (lifecycle_dispatch cs ho h line c (c :: args)).runs hr
  have hno : d'.state ≠ .running := by
    intro hrun
    obtain ⟨f, t, rfl, -⟩ := h'.1 hrun
    cases hgone
  have hl' := ((yields_dispatch_of_loaded cs d line (c :: args) c hl).runs hr).1
  have hloaded : d'.state = .loaded := by
    cases hs : d'.state with
    | loaded => rfl
    | noload => exact absurd hs hl'
    | running => exact absurd hs hno
  refine ⟨hloaded, ?_, ?_⟩
  · rcases (yields_dispatch_table cs d line c (c :: args)).runs hr with htab | hrun
    · exact htab
    · exact absurd hrun hno
  · unfold start
    rw [if_neg (not_not.2 hloaded)]
    exact ⟨_, rfl⟩

/-- As long as every forked child is executed and none is killed by a signal, in
every reachable state this process is the debugger, it is running exactly when
its child is stopped, no line makes an assertion fail, and a line after which
the child is gone leaves a loaded program that can be started again. -/
theorem state_tracks_child (cs : Capstone) (ho : Orderly env)
    (h : Reachable cs env (fun _ _ => True) d w) :
    w.forked = false ∧ (d.state = .running ↔ ∃ t, w.child = .stopped d.pid t) ∧
      (∀ line w', ¬ Runs (kernel env) (commandLoop cs line d) w (.fault .assertion) w') ∧
      ∀ line d' w', Runs (kernel env) (commandLoop cs line d) w (.done (.next d')) w' →
        d.state ≠ .noload → w'.child = .absent →
          d'.state = .loaded ∧ d'.bptab = d.bptab ∧ ∃ k, start cs d' = .request .fork k := by
  have hinv := lifecycle_of_reachable ho h
  refine ⟨?_, ⟨fun hr => ?_, ?_⟩, fun line w' hr => ?_, fun line d' w' hr hl hgone =>
    lifecycle_restart ho hinv hl hr hgone⟩
  · by_cases hr : d.state = .running
    · obtain ⟨f, t, rfl, hf⟩ := hinv.1 hr
      exact hf
    · rw [show w = _ from hinv.2 hr]
  · obtain ⟨f, t, rfl, -⟩ := hinv.1 hr
    exact ⟨t, rfl⟩
  · rintro ⟨t, ht⟩
    by_contra hno
    rw [show w = _ from hinv.2 hno] at ht
    cases ht
  · exact (ensures_iff_runs.1 (lifecycle_commandLoop cs ho hinv line)).2 _ _ hr rfl

end Lifecycle

/-! ## A child that is not executed, and one that is killed -/

namespace Sample

/-- A system on which the program cannot be executed. -/
def noExec : Env := env (fun r => ∃ path, r = .execvp path) fun _ t _ t' => t' = t

/-- A system on which a tracee that is let run is killed. -/
def deadly : Env := env (fun _ => False) fun _ _ st _ => st = .signaled 9

/-- The forked process after its failed `execvp`. -/
def failedExec : Debugger := { loaded with pid := 0 }.say (.perror "** execvp")

theorem runs_start_noExec :
    Runs (kernel noExec) (commandLoop capstone "start".toList loaded) ⟨false, .absent⟩
      (.done (.next failedExec)) ⟨true, .absent⟩ := by
  refine runs_commandLoop.2 ⟨"start".toList, [], ?_, by decide, ?_⟩
  · rw [dbgcmdParser_eq]
    rfl
  · refine ⟨0, ⟨true, .absent⟩, Or.inr (Or.inl ⟨rfl, rfl⟩), true, _, ⟨Or.inl rfl, rfl⟩, ?_⟩
    exact ⟨(), _, ⟨⟨_, rfl⟩, rfl⟩, rfl, rfl⟩

theorem runs_cont_deadly :
    Runs (kernel deadly) (commandLoop capstone "c".toList started) ⟨false, .stopped 1 tracee⟩
      (.fault .assertion) ⟨false, .absent⟩ := by
  have hwords : dbgcmdParser "c".toList ' ' = ["c".toList] := by
    rw [dbgcmdParser_eq]
    rfl
  unfold commandLoop
  rw [hwords]
  refine ⟨some regs, _, kernel_getregs.2 (Or.inl ⟨rfl, rfl⟩), true, _,
    kernel_cont.2 (Or.inl ⟨rfl, rfl⟩), some (.signaled 9), ⟨false, .absent⟩, ?_, rfl, rfl⟩
  exact kernel_waitpid_resumed.2 ⟨.signaled 9, tracee, rfl, rfl, rfl⟩

theorem quiet_orderly : Orderly (env (fun _ => False) fun _ t st t' => st = .stopped 5 ∧ t' = t) :=
  ⟨fun h => h, fun _ h => h, fun _ h => h, fun _ _ _ _ h => by cases h.1⟩

end Sample

/-- After a failed `execvp` the child reads commands as well; and a child that is
killed makes an assertion fail. -/
theorem two_readers_and_failed_assertion :
    (∃ d w, Reachable Sample.capstone Sample.noExec (fun _ _ => True) d w ∧ w.forked = true ∧
      d.state = .loaded) ∧
    ∃ d w w', Reachable Sample.capstone Sample.deadly (fun _ _ => True) d w ∧
      Runs (kernel Sample.deadly) (commandLoop Sample.capstone "c".toList d) w
        (.fault .assertion) w' := by
  constructor
  · have hload := Reachable.init.step (G := fun _ _ => True) trivial
      (Sample.runs_load Sample.capstone (fun r => ∃ path, r = .execvp path) fun _ t _ t' => t' = t)
    exact ⟨_, _, hload.step trivial Sample.runs_start_noExec, rfl, rfl⟩
  · exact ⟨_, _, _, Sample.reachable_started Sample.capstone _ _ trivial trivial,
      Sample.runs_cont_deadly⟩

theorem state_tracks_child_started :
    (⟨false, .stopped 1 Sample.tracee⟩ : World).forked = false ∧
      (Sample.started.state = .running ↔
        ∃ t, (⟨false, .stopped 1 Sample.tracee⟩ : World).child = .stopped Sample.started.pid t) ∧
      (∀ line w', ¬ Runs (kernel (Sample.env (fun _ => False) fun _ t st t' =>
          st = .stopped 5 ∧ t' = t)) (commandLoop Sample.capstone line Sample.started)
        ⟨false, .stopped 1 Sample.tracee⟩ (.fault .assertion) w') ∧
      ∀ line d' w', Runs (kernel (Sample.env (fun _ => False) fun _ t st t' =>
          st = .stopped 5 ∧ t' = t)) (commandLoop Sample.capstone line Sample.started)
        ⟨false, .stopped 1 Sample.tracee⟩ (.done (.next d')) w' →
        Sample.started.state ≠ .noload → w'.child = .absent →
          d'.state = .loaded ∧ d'.bptab = Sample.started.bptab ∧
            ∃ k, start Sample.capstone d' = .request .fork k :=
  state_tracks_child Sample.capstone Sample.quiet_orderly
    (Sample.reachable_started Sample.capstone _ _ trivial trivial)

end Sdb
