import UnixProgramming.Sdb.Frame

/-!
# Invariants of a session

An invariant of the debugger says one thing while the tracee is stopped under
it and another while nothing runs.  Most commands only print, let the tracee
run or change its registers, and preserve it for the same few reasons; these
are the fields of `SessionInv.Stable`.

* `SessionInv.Holds` — the invariant over the debugger and its world.
* `SessionInv.Stable` — what makes it survive.
* `holds_stepIn`, `holds_cont`, `holds_run`, `holds_setReg` — the commands.
* `holds_dispatch` — one line of input, with `load`, `break` and `delete` left
  to the invariant.
-/

namespace Sdb

open ByteMemory CString Requests

/-- What holds of a debugger and its tracee while that is stopped, and what
holds of a debugger and its world otherwise. -/
structure SessionInv where
  live : Debugger → Bool → Tracee → Prop
  idle : Debugger → World → Prop

namespace SessionInv

/-- The invariant: a running debugger has a stopped tracee under its number. -/
def Holds (I : SessionInv) (d : Debugger) (w : World) : Prop :=
  (d.state = .running → ∃ f t, w = ⟨f, .stopped d.pid t⟩ ∧ I.live d f t) ∧
    (d.state ≠ .running → I.idle d w)

/-- What preserves an invariant through the commands that let the tracee run. -/
structure Stable (I : SessionInv) (cs : Capstone) (env : Env) (F : Fault → World → Prop) :
    Prop where
  live_out : ∀ {d f t}, I.live d f t → ∀ b out,
    I.live { d with lastCmdIsSetRip := b, out := out } f t
  idle_out : ∀ {d w}, I.idle d w → ∀ b out, I.idle { d with lastCmdIsSetRip := b, out := out } w
  regs : ∀ {d f t}, I.live d f t → ∀ regs, I.live d f { t with regs := regs }
  /-- The tracee has stopped again. -/
  stopped : ∀ {d f t how sig t'}, d.state = .running → I.live d f t →
    env.stops how t (.stopped sig) t' → I.live d f t'
  /-- The tracee has exited. -/
  exited : ∀ {d f t}, d.state = .running → I.live d f t → I.idle d.release ⟨f, .absent⟩
  /-- The tracee was killed. -/
  killed : ∀ {d f t how sig t'}, d.state = .running → I.live d f t →
    env.stops how t (.signaled sig) t' → F .assertion ⟨f, .absent⟩
  /-- The other faults are not looked at. -/
  faults : ∀ e w, e ≠ .assertion → F e w
  /-- Stepping over a breakpoint. -/
  stepOver : ∀ {d f t}, d.state = .running → I.live d f t → ∀ addr,
    d.bptab.includeAddr addr = true →
      Ensures (kernel env) F I.Holds (checkThenRestoreSiReput addr d) ⟨f, .stopped d.pid t⟩
  /-- Starting a process. -/
  start : ∀ {d w}, d.state = .loaded → I.idle d w → Ensures (kernel env) F I.Holds (start cs d) w

variable {I : SessionInv} {d d' : Debugger} {w : World} {f : Bool} {t : Tracee}

theorem Holds.of_live (hr : d.state = .running) (h : I.live d f t) :
    I.Holds d ⟨f, .stopped d.pid t⟩ :=
  ⟨fun _ => ⟨f, t, rfl, h⟩, fun hno => absurd hr hno⟩

theorem Holds.of_idle (hr : d.state ≠ .running) (h : I.idle d w) : I.Holds d w :=
  ⟨fun hyes => absurd hyes hr, fun _ => h⟩

section Stable

variable {cs : Capstone} {env : Env} {F : Fault → World → Prop} (hI : I.Stable cs env F)
include hI

/-- Neither the output nor the flag matters. -/
theorem Stable.out (h : I.Holds d w) (b : Bool) (out : List Msg) :
    I.Holds { d with lastCmdIsSetRip := b, out := out } w := by
  refine ⟨fun hr => ?_, fun hr => hI.idle_out (h.2 hr) b out⟩
  obtain ⟨f, t, rfl, hl⟩ := h.1 hr
  exact ⟨f, t, rfl, hI.live_out hl b out⟩

theorem Stable.sameButOut (h : I.Holds d w) (hs : SameButOut d d') : I.Holds d' w := by
  obtain ⟨out, rfl⟩ := hs
  exact hI.out h d.lastCmdIsSetRip out

theorem Stable.say (h : I.Holds d w) (m : Msg) : I.Holds (d.say m) w :=
  hI.sameButOut h (sameButOut_say d m)

theorem Stable.setLastCmd (h : I.Holds d w) (b : Bool) :
    I.Holds { d with lastCmdIsSetRip := b } w :=
  hI.out h b d.out

/-! ## The commands that let the tracee run -/

/-- The end of `si` and `cont`. -/
theorem holds_checkHit_clear (cbpt : CandBp) (hr : d.state = .running) (h : I.live d f t) :
    Ensures (kernel env) F I.Holds
      (do let d ← checkHitBreakPointOrNot cs cbpt d
          pure { d with lastCmdIsSetRip := false }) ⟨f, .stopped d.pid t⟩ := by
  refine (ensures_checkHit cs cbpt).bind ?_
  rintro d₁ w₁ ⟨⟨out, rfl⟩, regs, rfl⟩
  exact Holds.of_live hr (hI.live_out (hI.regs h regs) false out)

/-- What follows every resumption of `si` and `cont`. -/
theorem holds_wait_checkHit (cbpt : CandBp) {how : Resume} (hr : d.state = .running)
    (h : I.live d f t) :
    Ensures (kernel env) F I.Holds
      (do let d ← waitThenCheckExit d
          if d.state ≠ .running then pure d
          else do
            let d ← checkHitBreakPointOrNot cs cbpt d
            pure { d with lastCmdIsSetRip := false }) ⟨f, .resumed d.pid how t⟩ := by
  rw [ensures_bind, ensures_waitThenCheckExit]
  intro st t' hst
  cases st with
  | exited code =>
      have hidle := hI.idle_out (hI.exited hr h) false (d.say (.terminated d.pid (.exited code))).out
      have hno : (d.say (.terminated d.pid (.exited code))).release.state ≠ .running := by
        simp [Debugger.release]
      simp only [if_pos hno]
      exact Holds.of_idle hno hidle
  | signaled sig => exact hI.killed hr h hst
  | stopped sig =>
      simp only [if_neg (not_not.2 hr)]
      exact holds_checkHit_clear hI cbpt hr (hI.stopped hr h hst)

theorem holds_stepIn (h : I.Holds d w) :
    Ensures (kernel env) F I.Holds (stepIn cs d) w := by
  unfold stepIn
  rw [ensures_ite]
  refine ⟨fun _ => hI.say h _, fun hr => ?_⟩
  have hr : d.state = .running := not_not.1 hr
  obtain ⟨f, t, rfl, hl⟩ := h.1 hr
  rw [ensures_ask_bind]
  intro x w₁ hx
  rcases kernel_getregs.1 hx with ⟨rfl, rfl⟩ | ⟨rfl, -, rfl⟩
  swap
  · exact hI.say h _
  simp only []
  rw [ensures_ite]
  refine ⟨fun hinc => ?_, fun _ => ?_⟩
  · refine (hI.stepOver hr hl _ hinc).bind fun d₁ w₁ h₁ => ?_
    rw [ensures_ite]
    refine ⟨fun _ => h₁, fun hr₁ => ?_⟩
    obtain ⟨f₁, t₁, rfl, hl₁⟩ := h₁.1 (not_not.1 hr₁)
    exact holds_checkHit_clear hI _ (not_not.1 hr₁) hl₁
  · rw [ensures_ask_bind]
    intro x w₁ hx
    rcases kernel_singlestep.1 hx with ⟨rfl, rfl⟩ | ⟨rfl, -, rfl⟩
    · exact holds_wait_checkHit hI .forSinglestep hr hl
    · exact hI.say h _

theorem holds_contFrom (h : I.Holds d w) (hr : d.state = .running) :
    Ensures (kernel env) F I.Holds (contFrom cs d) w := by
  obtain ⟨f, t, rfl, hl⟩ := h.1 hr
  unfold contFrom
  rw [ensures_ask_bind]
  intro x w₁ hx
  rcases kernel_cont.1 hx with ⟨rfl, rfl⟩ | ⟨rfl, -, rfl⟩
  · exact holds_wait_checkHit hI .forCont hr hl
  · exact hI.say h _

theorem holds_cont (h : I.Holds d w) : Ensures (kernel env) F I.Holds (cont cs d) w := by
  unfold cont
  rw [ensures_ite]
  refine ⟨fun _ => hI.say h _, fun hr => ?_⟩
  have hr : d.state = .running := not_not.1 hr
  obtain ⟨f, t, rfl, hl⟩ := h.1 hr
  rw [ensures_ask_bind]
  intro x w₁ hx
  rcases kernel_getregs.1 hx with ⟨rfl, rfl⟩ | ⟨rfl, -, rfl⟩
  swap
  · exact hI.say h _
  simp only []
  rw [ensures_ite]
  refine ⟨fun hinc => ?_, fun _ => holds_contFrom hI h hr⟩
  refine (hI.stepOver hr hl _ hinc.2).bind fun d₁ w₁ h₁ => ?_
  rw [ensures_ite]
  exact ⟨fun _ => h₁, fun hr₁ => holds_contFrom hI h₁ (not_not.1 hr₁)⟩

theorem holds_start (h : I.Holds d w) : Ensures (kernel env) F I.Holds (start cs d) w := by
  by_cases hl : d.state = .loaded
  · exact hI.start hl (h.2 (by simp [hl]))
  · unfold Sdb.start
    rw [if_pos hl]
    exact hI.say h _

theorem holds_run (h : I.Holds d w) : Ensures (kernel env) F I.Holds (run cs d) w := by
  unfold run
  simp only [ensures_ite]
  refine ⟨fun _ => hI.say h _, fun _ => ⟨fun _ => ?_, fun _ => ?_⟩⟩
  · refine (holds_start hI h).bind fun d₁ w₁ h₁ => ?_
    exact (holds_cont hI h₁).bind fun d₂ w₂ h₂ => hI.setLastCmd h₂ false
  · exact (holds_cont hI (hI.say h _)).bind fun d₂ w₂ h₂ => hI.setLastCmd h₂ false

/-! ## The other commands -/

theorem holds_setReg (h : I.Holds d w) (cmds : List Str) :
    Ensures (kernel env) F I.Holds (setReg cmds d) w := by
  by_cases hr : d.state = .running
  · obtain ⟨f, t, rfl, hl⟩ := h.1 hr
    refine (ensures_setReg cmds).imp ?_
    rintro d' w' ⟨b, out, regs, rfl, rfl⟩
    exact Holds.of_live hr (hI.live_out (hI.regs hl regs) b out)
  · unfold setReg
    rw [if_pos hr]
    exact hI.say h _

/-- A command that only looks. -/
theorem holds_looks {p : Dbg Debugger} (h : I.Holds d w)
    (hp : Within Req.Looks Fault.OfParser (SameButOut d) p) :
    Ensures (kernel env) F I.Holds p w := by
  refine (ensures_of_looks hp w).mono ?_ ?_
  · rintro e w' ⟨he, -⟩
    exact hI.faults e w' he.ne_assertion
  · rintro d' w' ⟨hs, rfl⟩
    exact hI.sameButOut h hs

/-- One line of input, given what `load`, `break` and `delete` do. -/
theorem holds_dispatch (h : I.Holds d w) {line c : Str} {cmds : List Str}
    (hload : Ensures (kernel env) F I.Holds (load cmds d) w)
    (hbreak : c = "break".toList ∨ c = "b".toList →
      Ensures (kernel env) F I.Holds (setBreakPoint cmds d) w)
    (hdelete : Ensures (kernel env) F I.Holds (deleteBreakPoint cmds d) w) :
    Ensures (kernel env) F I.Holds (dispatch cs line cmds c d) w :=
  dispatch_cases cs (P := fun p => Ensures (kernel env) F I.Holds p w)
    (fun _ hs => hI.sameButOut h hs) hload (holds_start hI h) (holds_cont hI h) hbreak
    (holds_stepIn hI h) hdelete (holds_looks hI h (looks_getSingleReg d _))
    (holds_looks hI h (looks_getAllRegs d)) (holds_setReg hI h _)
    (holds_looks hI h (looks_vmmap d)) (holds_looks hI h (looks_disasm cs d _))
    (holds_looks hI h (looks_dump d _)) (holds_run hI h)

end Stable

end SessionInv

end Sdb
