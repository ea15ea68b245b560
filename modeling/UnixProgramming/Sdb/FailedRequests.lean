import UnixProgramming.Sdb.OverlayInvariant

/-!
# Failing requests

`break`, `delete`, `si` and `cont` under a pattern of failures: any of the
requests that write memory, step, continue or access the registers may fail,
and then has no effect.

* `Req.refusal` — the requests of the pattern.
* `Consistent` — the text is the program's under the overlay of the table.
* `HalfDone` — a step over a breakpoint is left between its two pokes.
* `stepOver_failing` — what a step over a breakpoint does to the text.
* `consistent_iff_not_halfDone` — the four commands keep the text consistent
  exactly when no step over a breakpoint is left half done.
-/

namespace Sdb

open ByteMemory CString Requests Overlay

/-! ## The pattern -/

/-- What a request of the pattern answers when it fails. -/
def Req.refusal : (r : Req) → Option (Ans r)
  | .poketext _ _ _ => some false
  | .singlestep _ => some false
  | .cont _ => some false
  | .getregs _ => some none
  | .setregs _ _ => some false
  | _ => none

/-- The system under a pattern of failures. -/
abbrev failingKernel (env : Env) (fails : Nat → Prop) : Kernel Req Ans (Nat × World) :=
  failing (kernel env) Req.refusal fails

/-- The system in which each of these requests may fail. -/
def Env.flaky (env : Env) : Env :=
  { env with mayFail := fun r => env.mayFail r ∨ (Req.refusal r).isSome }

section Flaky

variable {env : Env}

theorem Refused.flaky {w w' : World} {pid : Int} {r : Req} (h : Refused env w pid r w') :
    Refused env.flaky w pid r w' :=
  ⟨h.1.imp Or.inl id, h.2⟩

/-- What a system does, it may do when requests may fail. -/
theorem kernel_flaky {w w' : World} {r : Req} {x : Ans r} (h : kernel env w r x w') :
    kernel env.flaky w r x w' := by
  cases r with
  | fork => exact h.imp (fun h => ⟨h.1, Or.inl h.2.1, h.2.2⟩) id
  | traceme => exact ⟨h.1.imp id Or.inl, h.2⟩
  | execvp path => exact ⟨Or.inl h.1, h.2⟩
  | waitpid pid => exact h
  | setoptions pid => exact h
  | peektext pid addr => exact h.imp id fun h => ⟨h.1, h.2.flaky⟩
  | poketext pid addr data => exact h.imp id fun h => ⟨h.1, h.2.flaky⟩
  | singlestep pid => exact h.imp id fun h => ⟨h.1, h.2.flaky⟩
  | cont pid => exact h.imp id fun h => ⟨h.1, h.2.flaky⟩
  | getregs pid => exact h.imp id fun h => ⟨h.1, h.2.flaky⟩
  | setregs pid regs => exact h.imp id fun h => ⟨h.1, h.2.flaky⟩
  | readFile path => exact h
  | readMaps pid => exact h

/-- A failing request is one the system may refuse. -/
theorem kernel_flaky_refusal {w : World} {r : Req} {no : Ans r} (h : Req.refusal r = some no) :
    kernel env.flaky w r no w := by
  have hmay : env.flaky.mayFail r := Or.inr (by rw [h]; rfl)
  cases r with
  | poketext pid addr data => cases h; exact Or.inr ⟨rfl, Or.inl hmay, rfl⟩
  | singlestep pid => cases h; exact Or.inr ⟨rfl, Or.inl hmay, rfl⟩
  | cont pid => cases h; exact Or.inr ⟨rfl, Or.inl hmay, rfl⟩
  | getregs pid => cases h; exact Or.inr ⟨rfl, Or.inl hmay, rfl⟩
  | setregs pid regs => cases h; exact Or.inr ⟨rfl, Or.inl hmay, rfl⟩
  | _ => cases h

theorem runs_flaky {α : Type} {fails : Nat → Prop} {p : Dbg α} {n : Nat} {w : World}
    {o : Result Fault α} {w' : Nat × World} (h : Runs (failingKernel env fails) p (n, w) o w') :
    Runs (kernel env.flaky) p w o w'.2 :=
  Runs.of_failing (fun _ _ _ _ => kernel_flaky) (fun _ _ _ => kernel_flaky_refusal) h

end Flaky

/-! ## The text of a running tracee -/

/-- The addresses of `.text`. -/
def Debugger.text (d : Debugger) : Set Addr := {a | d.textBegin ≤ a ∧ a ≤ d.textEnd}

/-- The table is in order, and the text is the program's under its overlay. -/
structure Consistent (orig : Memory) (d : Debugger) (t : Tracee) : Prop where
  table : TableOk orig d.textBegin d.textEnd d.bptab
  text : Set.EqOn t.mem (overlay d.bptab.addrs int3 orig) d.text

/-- A tracee that is let run does not write to the text. -/
def KeepsText (env : Env) (T : Set Addr) : Prop :=
  ∀ how t st t', env.stops how t st t' → Set.EqOn t'.mem t.mem T

/-- A step over a breakpoint whose first request is the `n`-th is left between
its two pokes: the first succeeds, and `PTRACE_SINGLESTEP` or the second fails. -/
def HalfDone (fails : Nat → Prop) (n : Nat) : Prop :=
  ¬ fails (n + 1) ∧ (fails (n + 2) ∨ fails (n + 4))

section Requests

variable {α : Type} {env : Env} {fails : Nat → Prop} {f : Bool} {p : Int} {t : Tracee} {n : Nat}
  {refused granted : Dbg α} {o : Result Fault α} {w' : Nat × World}

theorem runs_failing_peektext (hg : env.Grants) {addr : Word} {k : Word → Dbg α} :
    Runs (failingKernel env fails) (sys (.peektext p addr) >>= k) (n, ⟨f, .stopped p t⟩) o w' ↔
      Runs (failingKernel env fails) (k (readWord t.mem addr)) (n + 1, ⟨f, .stopped p t⟩) o w' := by
  rw [runs_failing_none rfl]
  simp [hg.peektext]

theorem runs_failing_poketext (hg : env.Grants) {addr data : Word} :
    Runs (failingKernel env fails)
        (sys (.poketext p addr data) >>= fun ok => if ok = false then refused else granted)
        (n, ⟨f, .stopped p t⟩) o w' ↔
      (fails n ∧ Runs (failingKernel env fails) refused (n + 1, ⟨f, .stopped p t⟩) o w') ∨
        (¬ fails n ∧ Runs (failingKernel env fails) granted
          (n + 1, ⟨f, .stopped p { t with mem := writeWord t.mem addr data }⟩) o w') := by
  rw [runs_failing_some rfl]
  simp [hg.poketext]

theorem runs_failing_singlestep (hg : env.Grants) :
    Runs (failingKernel env fails)
        (sys (.singlestep p) >>= fun ok => if ok = false then refused else granted)
        (n, ⟨f, .stopped p t⟩) o w' ↔
      (fails n ∧ Runs (failingKernel env fails) refused (n + 1, ⟨f, .stopped p t⟩) o w') ∨
        (¬ fails n ∧ Runs (failingKernel env fails) granted
          (n + 1, ⟨f, .resumed p .singlestep t⟩) o w') := by
  rw [runs_failing_some rfl]
  simp [hg.singlestep]

theorem runs_failing_getregs (hg : ¬ env.mayFail (.getregs p)) {k : Option UserRegs → Dbg α} :
    Runs (failingKernel env fails) (sys (.getregs p) >>= k) (n, ⟨f, .stopped p t⟩) o w' ↔
      (fails n ∧ Runs (failingKernel env fails) (k none) (n + 1, ⟨f, .stopped p t⟩) o w') ∨
        (¬ fails n ∧
          Runs (failingKernel env fails) (k (some t.regs)) (n + 1, ⟨f, .stopped p t⟩) o w') := by
  rw [runs_failing_some rfl]
  simp [hg]

end Requests

section Steps

variable {cs : Capstone} {env : Env} {orig : Memory} {fails : Nat → Prop} {d d₁ d' : Debugger}
  {f : Bool} {t : Tracee} {n : Nat}

/-- Waiting, under a pattern of failures. -/
theorem runs_failing_wait {how : Resume} {o : Result Fault Debugger} {w' : Nat × World} :
    Runs (failingKernel env fails) (waitThenCheckExit d) (n, ⟨f, .resumed d.pid how t⟩) o w' ↔
      ∃ st t', env.stops how t st t' ∧
        match st with
        | .stopped _ => o = .done d ∧ w' = (n + 1, ⟨f, .stopped d.pid t'⟩)
        | .exited code =>
            o = .done (d.say (.terminated d.pid (.exited code))).release ∧
              w' = (n + 1, ⟨f, .absent⟩)
        | .signaled _ => o = .fault .assertion ∧ w' = (n + 1, ⟨f, .absent⟩) := by
  unfold waitThenCheckExit
  rw [runs_failing_none rfl]
  simp only [kernel_waitpid_resumed]
  constructor
  · rintro ⟨x, w₁, ⟨st, t', rfl, hst, rfl⟩, hend⟩
    refine ⟨st, t', hst, ?_⟩
    cases st <;> exact hend
  · rintro ⟨st, t', hst, hend⟩
    refine ⟨some st, _, ⟨st, t', rfl, hst, rfl⟩, ?_⟩
    cases st <;> exact hend

/-- A step over a breakpoint that leaves the tracee running leaves the text as
it was, or, half done, without the trap. -/
theorem stepOver_failing (hg : env.Grants) (hkeep : KeepsText env d.text)
    (hr : d.state = .running) (hcode : ∀ bp ∈ d.bptab.data, byteOf bp.code 0 = orig bp.addr)
    {addr : Addr} (hA : addr ∈ d.bptab.addrs) {w₁ : Nat × World}
    (hrun : Runs (failingKernel env fails) (checkThenRestoreSiReput addr d)
      (n, ⟨f, .stopped d.pid t⟩) (.done d₁) w₁) (hr₁ : d₁.state = .running) :
    ∃ out t₁, d₁ = { d with out := out } ∧ w₁.2 = ⟨f, .stopped d.pid t₁⟩ ∧
      ((HalfDone fails n ∧ Set.EqOn t₁.mem (Function.update t.mem addr (orig addr)) d.text) ∨
        (¬ HalfDone fails n ∧ Set.EqOn t₁.mem t.mem d.text)) := by
  have hinc := BreakpointTable.includeAddr_iff.2 hA
  obtain ⟨bp, hbp, hat, haddr⟩ := BreakpointTable.atAddr_of_includeAddr hinc
  unfold checkThenRestoreSiReput at hrun
  rw [hinc, if_neg (by decide), runs_failing_peektext hg, entryAt, hat, Prog.done_bind,
    runs_failing_poketext hg, writeWord_restore, hcode bp hbp, haddr] at hrun
  rcases hrun with ⟨hf₁, hd, hw⟩ | ⟨hf₁, hrun⟩
  · -- nothing has been restored
    cases hd
    exact ⟨_, t, rfl, congrArg Prod.snd hw, Or.inr ⟨fun h => h.1 hf₁, Set.eqOn_refl _ _⟩⟩
  rw [runs_failing_singlestep hg] at hrun
  rcases hrun with ⟨hf₂, hd, hw⟩ | ⟨hf₂, hrun⟩
  · cases hd
    exact ⟨_, _, rfl, congrArg Prod.snd hw, Or.inl ⟨⟨hf₁, Or.inl hf₂⟩, Set.eqOn_refl _ _⟩⟩
  rw [runs_bind] at hrun
  obtain ⟨d₂, w₂, hwait, hrun⟩ | ⟨e, -, he⟩ := hrun
  swap
  · cases he
  obtain ⟨st, t₂, hst, hend⟩ := runs_failing_wait.1 hwait
  cases st with
  | stopped sig =>
      obtain ⟨hd, rfl⟩ := hend
      cases hd
      have hstep : Set.EqOn t₂.mem (Function.update t.mem addr (orig addr)) d.text :=
        hkeep _ _ _ _ hst
      rw [if_neg (not_not.2 hr), runs_failing_poketext hg] at hrun
      rcases hrun with ⟨hf₄, hd, hw⟩ | ⟨hf₄, hd, hw⟩
      · cases hd
        exact ⟨_, t₂, rfl, congrArg Prod.snd hw, Or.inl ⟨⟨hf₁, Or.inr hf₄⟩, hstep⟩⟩
      · cases hd
        have hnot : ¬ HalfDone fails n := fun h => h.2.elim hf₂ hf₄
        exact ⟨d.out, _, rfl, congrArg Prod.snd hw,
          Or.inr ⟨hnot, eqOn_writeWord_readWord hstep⟩⟩
  | exited code =>
      obtain ⟨hd, rfl⟩ := hend
      cases hd
      rw [if_pos (by simp [Debugger.release])] at hrun
      cases hrun.1
      simp [Debugger.release] at hr₁
  | signaled sig => cases hend.1

end Steps

/-! ## The rest of a command -/

/-- If the tracee is still running, the flag and the output have changed at most
and the bytes of `T` are as before. -/
def KeepsOn (T : Set Addr) (d : Debugger) (f : Bool) (m : Memory) (d' : Debugger)
    (w' : World) : Prop :=
  d'.state = .running → ∃ b out t', d' = { d with lastCmdIsSetRip := b, out := out } ∧
    w' = ⟨f, .stopped d.pid t'⟩ ∧ Set.EqOn t'.mem m T

section Rest

variable {cs : Capstone} {env : Env} {T : Set Addr} {d : Debugger} {f : Bool} {t : Tracee}
  {F : Fault → World → Prop}

theorem keepsOn_sameButOut {d' : Debugger} (h : SameButOut d d') :
    KeepsOn T d f t.mem d' ⟨f, .stopped d.pid t⟩ := by
  obtain ⟨out, rfl⟩ := h
  exact fun _ => ⟨d.lastCmdIsSetRip, out, t, rfl, rfl, Set.eqOn_refl _ _⟩

theorem keepsOn_checkHit (cbpt : CandBp) :
    Ensures (kernel env) F (KeepsOn T d f t.mem)
      (do let d ← checkHitBreakPointOrNot cs cbpt d
          pure { d with lastCmdIsSetRip := false }) ⟨f, .stopped d.pid t⟩ := by
  refine (ensures_checkHit cs cbpt).bind ?_
  rintro d₁ w₁ ⟨⟨out, rfl⟩, regs, rfl⟩
  exact fun _ => ⟨false, out, _, rfl, rfl, Set.eqOn_refl _ _⟩

theorem keepsOn_wait (hkeep : KeepsText env T) (cbpt : CandBp) {how : Resume}
    (hr : d.state = .running) :
    Ensures (kernel env) (fun _ _ => True) (KeepsOn T d f t.mem)
      (do let d ← waitThenCheckExit d
          if d.state ≠ .running then pure d
          else do
            let d ← checkHitBreakPointOrNot cs cbpt d
            pure { d with lastCmdIsSetRip := false }) ⟨f, .resumed d.pid how t⟩ := by
  rw [ensures_bind, ensures_waitThenCheckExit]
  intro st t' hst
  cases st with
  | exited code =>
      have hno : (d.say (.terminated d.pid (.exited code))).release.state ≠ .running := by
        simp [Debugger.release]
      simp only [if_pos hno]
      exact fun hrun => absurd hrun hno
  | signaled sig => trivial
  | stopped sig =>
      simp only [if_neg (not_not.2 hr)]
      refine (keepsOn_checkHit (T := T) cbpt).imp ?_
      intro d' w' h hrun
      obtain ⟨b, out, t'', hd, hw, heq⟩ := h hrun
      exact ⟨b, out, t'', hd, hw, heq.trans (hkeep _ _ _ _ hst)⟩

theorem keepsOn_contFrom (hkeep : KeepsText env T) (hr : d.state = .running) :
    Ensures (kernel env) (fun _ _ => True) (KeepsOn T d f t.mem) (contFrom cs d)
      ⟨f, .stopped d.pid t⟩ := by
  unfold contFrom
  rw [ensures_ask_bind]
  intro x w₁ hx
  rcases kernel_cont.1 hx with ⟨rfl, rfl⟩ | ⟨rfl, -, rfl⟩
  · exact keepsOn_wait hkeep .forCont hr
  · exact keepsOn_sameButOut (sameButOut_say d _)

theorem keepsOn_singlestep (hkeep : KeepsText env T) (hr : d.state = .running) :
    Ensures (kernel env) (fun _ _ => True) (KeepsOn T d f t.mem)
      (do if (← sys (.singlestep d.pid)) = false then
            pure (d.say (.perror "** ptrace SINGLESTEP"))
          else
            let d ← waitThenCheckExit d
            if d.state ≠ .running then pure d
            else
              let d ← checkHitBreakPointOrNot cs .forSinglestep d
              pure { d with lastCmdIsSetRip := false }) ⟨f, .stopped d.pid t⟩ := by
  rw [ensures_ask_bind]
  intro x w₁ hx
  rcases kernel_singlestep.1 hx with ⟨rfl, rfl⟩ | ⟨rfl, -, rfl⟩
  · exact keepsOn_wait hkeep .forSinglestep hr
  · exact keepsOn_sameButOut (sameButOut_say d _)

end Rest

/-! ## The four commands -/

/-- The commands that read or write breakpoints in the tracee, with their words. -/
inductive PointCommand where
  | setBreakPoint (cmds : List Str)
  | deleteBreakPoint (cmds : List Str)
  | stepIn
  | cont

/-- The member function of a command. -/
def PointCommand.prog (cs : Capstone) : PointCommand → Debugger → Dbg Debugger
  | .setBreakPoint cmds => Sdb.setBreakPoint cmds
  | .deleteBreakPoint cmds => Sdb.deleteBreakPoint cmds
  | .stepIn => Sdb.stepIn cs
  | .cont => Sdb.cont cs

/-- A `break` must name an address that is not in the table. -/
def PointCommand.Fresh (d : Debugger) : PointCommand → Prop
  | .setBreakPoint (_ :: word :: _) => breakAddr word ∉ d.bptab.addrs
  | _ => True

/-- The command steps over a breakpoint first. -/
def PointCommand.StepsOver (d : Debugger) (rip : Word) : PointCommand → Prop
  | .stepIn => rip ∈ d.bptab.addrs
  | .cont => d.lastCmdIsSetRip = false ∧ rip ∈ d.bptab.addrs
  | _ => False

/-- The command reads the registers, steps over the breakpoint at `rip` and is
left between the two pokes, where the byte it has restored is not that of a trap. -/
def PointCommand.LeftHalfDone (c : PointCommand) (orig : Memory) (d : Debugger) (t : Tracee)
    (fails : Nat → Prop) : Prop :=
  c.StepsOver d t.regs.rip ∧ orig t.regs.rip ≠ int3 ∧ ¬ fails 0 ∧ HalfDone fails 1

section Commands

variable {cs : Capstone} {env : Env} {orig : Memory} {fails : Nat → Prop} {d d' : Debugger}
  {f : Bool} {t : Tracee} {n : Nat} {w' : Nat × World} {m : Memory}

/-- The tracee is stopped and its text is consistent. -/
def Restored (orig : Memory) (f : Bool) (pid : Int) (d' : Debugger) (w' : World) : Prop :=
  ∃ t', w' = ⟨f, .stopped pid t'⟩ ∧ Consistent orig d' t'

/-- After the rest of a command the text is consistent if it was before it. -/
theorem restored_iff_of_keepsOn (hc : Consistent orig d t) {w : World}
    (h : KeepsOn d.text d f m d' w) (hr : d'.state = .running) :
    Restored orig f d.pid d' w ↔ Set.EqOn m (overlay d.bptab.addrs int3 orig) d.text := by
  obtain ⟨b, out, t', rfl, rfl, heq⟩ := h hr
  constructor
  · rintro ⟨t'', hw, hc'⟩
    injection hw with _ hchild
    injection hchild with _ ht
    subst ht
    exact heq.symm.trans hc'.text
  · intro hm
    exact ⟨t', rfl, hc.table, heq.trans hm⟩

/-- Without its trap the text is not consistent, unless the program has a trap there. -/
theorem eqOn_restored_iff (hc : Consistent orig d t) {addr : Addr} (hA : addr ∈ d.bptab.addrs)
    (h : Set.EqOn m (Function.update t.mem addr (orig addr)) d.text) :
    Set.EqOn m (overlay d.bptab.addrs int3 orig) d.text ↔ orig addr = int3 := by
  obtain ⟨bp, hbp, rfl⟩ := BreakpointTable.mem_addrs.1 hA
  have hin : bp.addr ∈ d.text := hc.table.inText bp hbp
  constructor
  · intro hm
    have := (h hin).symm.trans (hm hin)
    rwa [Function.update_self, overlay_of_mem hA] at this
  · intro horig
    have hmem : t.mem bp.addr = orig bp.addr := by
      rw [hc.text hin, overlay_of_mem hA, horig]
    rw [← hmem, Function.update_eq_self] at h
    exact h.trans hc.text

/-- A command that steps over a breakpoint, its registers read, and then does the rest. -/
theorem restored_iff_of_stepOver (hg : env.Grants) (hkeep : KeepsText env d.text)
    (hr : d.state = .running) (hc : Consistent orig d t) {addr : Addr}
    (hA : addr ∈ d.bptab.addrs) (rest : Debugger → Dbg Debugger)
    (hrest : ∀ out t₁, Ensures (kernel env.flaky) (fun _ _ => True)
      (KeepsOn d.text { d with out := out } f t₁.mem) (rest { d with out := out })
      ⟨f, .stopped d.pid t₁⟩)
    (hrun : Runs (failingKernel env fails)
      (checkThenRestoreSiReput addr d >>= fun d => if d.state ≠ .running then pure d else rest d)
      (1, ⟨f, .stopped d.pid t⟩) (.done d') w') (hr' : d'.state = .running) :
    Restored orig f d.pid d' w'.2 ↔ ¬ (orig addr ≠ int3 ∧ HalfDone fails 1) := by
  rw [runs_bind] at hrun
  obtain ⟨d₁, ⟨n₁, w₁⟩, hstep, hrun⟩ | ⟨e, -, he⟩ := hrun
  swap
  · cases he
  by_cases hr₁ : d₁.state = .running
  swap
  · rw [if_pos hr₁] at hrun
    cases hrun.1
    exact absurd hr' hr₁
  obtain ⟨out, t₁, rfl, hw, hend⟩ := stepOver_failing hg hkeep hr hc.table.code hA hstep hr₁
  obtain rfl : w₁ = ⟨f, .stopped d.pid t₁⟩ := hw
  rw [if_neg (not_not.2 hr₁)] at hrun
  have hkept := (hrest out t₁).runs (runs_flaky hrun)
  rw [restored_iff_of_keepsOn (d := { d with out := out }) (t := t) ⟨hc.table, hc.text⟩ hkept hr']
  rcases hend with ⟨hhalf, heq⟩ | ⟨hhalf, heq⟩
  · refine (eqOn_restored_iff hc hA heq).trans ⟨fun h h' => h'.1 h, fun h => ?_⟩
    by_contra hne
    exact h ⟨hne, hhalf⟩
  · exact iff_of_true (heq.trans hc.text) fun h => hhalf h.2

/-- Printing leaves the text as it is. -/
theorem restored_sameButOut (hc : Consistent orig d t) (hs : SameButOut d d') :
    Restored orig f d.pid d' ⟨f, .stopped d.pid t⟩ := by
  obtain ⟨out, rfl⟩ := hs
  exact ⟨t, rfl, hc.table, hc.text⟩

theorem restored_say (hc : Consistent orig d t) {m : Msg}
    (hrun : Runs (failingKernel env fails) (pure (d.say m) : Dbg Debugger)
      (n, ⟨f, .stopped d.pid t⟩) (.done d') w') : Restored orig f d.pid d' w'.2 := by
  obtain ⟨hd, rfl⟩ := hrun
  cases hd
  exact restored_sameButOut hc (sameButOut_say d m)

/-- `break` plants its trap and records it, or does neither. -/
theorem restored_setBreakPoint (hg : env.Grants) (hr : d.state = .running)
    (hc : Consistent orig d t) {cmds : List Str}
    (hfresh : PointCommand.Fresh d (.setBreakPoint cmds))
    (hrun : Runs (failingKernel env fails) (setBreakPoint cmds d) (0, ⟨f, .stopped d.pid t⟩)
      (.done d') w') : Restored orig f d.pid d' w'.2 := by
  unfold setBreakPoint at hrun
  rw [if_neg (not_not.2 hr)] at hrun
  match cmds with
  | [] => exact restored_say hc hrun
  | [_] => exact restored_say hc hrun
  | _ :: word :: _ =>
      have hnew : breakAddr word ∉ d.bptab.addrs := hfresh
      simp only [BreakpointTable.includeAddr_eq_false_iff.2 hnew, Bool.false_eq_true,
        if_false] at hrun
      split at hrun
      · exact restored_say hc hrun
      next hrange =>
        simp only [not_or, BitVec.not_lt] at hrange
        rw [plantBreakPoint, runs_failing_peektext hg, runs_failing_poketext hg,
          writeWord_trap] at hrun
        rcases hrun with ⟨-, hrun⟩ | ⟨-, hd, rfl⟩
        · exact restored_say hc hrun
        · cases hd
          have hcode : byteOf (readWord t.mem (breakAddr word)) 0 = orig (breakAddr word) := by
            rw [byteOf_readWord_zero, hc.text hrange, overlay_of_not_mem hnew]
          exact ⟨_, rfl, hc.table.add hrange.1 hrange.2 hcode hnew,
            eqOn_overlay_insert hc.text (by simp)⟩

/-- `delete` gives a byte back and takes the entry out, or does neither. -/
theorem restored_deleteBreakPoint (hg : env.Grants) (hr : d.state = .running)
    (hc : Consistent orig d t) {cmds : List Str}
    (hrun : Runs (failingKernel env fails) (deleteBreakPoint cmds d) (0, ⟨f, .stopped d.pid t⟩)
      (.done d') w') : Restored orig f d.pid d' w'.2 := by
  unfold deleteBreakPoint at hrun
  rw [if_neg (not_not.2 hr)] at hrun
  match cmds with
  | [] => exact restored_say hc hrun
  | [_] => exact restored_say hc hrun
  | _ :: word :: _ =>
      simp only [] at hrun
      split at hrun
      · exact restored_say hc hrun
      next hidx =>
        obtain ⟨j, bp, hj, hget, hat⟩ := BreakpointTable.atIdx_of_includeIdx (by simpa using hidx)
        have hcode := hc.table.code bp (List.mem_of_getElem? hget)
        rw [entryAtIdx, hat, Prog.done_bind, runs_failing_peektext hg, runs_failing_poketext hg,
          writeWord_restore, hcode] at hrun
        rcases hrun with ⟨-, hrun⟩ | ⟨-, hd, rfl⟩
        · exact restored_say hc hrun
        · cases hd
          refine ⟨_, rfl, hc.table.del _, ?_⟩
          simp only [Debugger.say_bptab, hj]
          exact eqOn_overlay_remove hc.text fun x =>
            BreakpointTable.mem_addrs_del_of_nodup hc.table.distinct hget

/-- A command that reads the registers first. -/
theorem restored_iff_of_getregs (hg : env.GrantsAll) (hc : Consistent orig d t) {P : Prop}
    {k : UserRegs → Dbg Debugger}
    (hrun : Runs (failingKernel env fails)
      (sys (.getregs d.pid) >>= fun x => match x with
        | none => pure (d.say (.perror "** ptrace GETREGS"))
        | some regs => k regs) (0, ⟨f, .stopped d.pid t⟩) (.done d') w')
    (hk : Runs (failingKernel env fails) (k t.regs) (1, ⟨f, .stopped d.pid t⟩) (.done d') w' →
      (Restored orig f d.pid d' w'.2 ↔ ¬ P)) :
    Restored orig f d.pid d' w'.2 ↔ ¬ (¬ fails 0 ∧ P) := by
  rw [runs_failing_getregs (hg.getregs _)] at hrun
  rcases hrun with ⟨hf, hrun⟩ | ⟨hf, hrun⟩
  · exact iff_of_true (restored_say hc hrun) fun h => h.1 hf
  · rw [hk hrun]
    exact ⟨fun h h' => h h'.2, fun h h' => h ⟨hf, h'⟩⟩

theorem restored_stepIn_iff (hg : env.GrantsAll) (hkeep : KeepsText env d.text)
    (hr : d.state = .running) (hc : Consistent orig d t)
    (hrun : Runs (failingKernel env fails) (stepIn cs d) (0, ⟨f, .stopped d.pid t⟩)
      (.done d') w') (hr' : d'.state = .running) :
    Restored orig f d.pid d' w'.2 ↔
      ¬ (¬ fails 0 ∧ t.regs.rip ∈ d.bptab.addrs ∧ orig t.regs.rip ≠ int3 ∧ HalfDone fails 1) := by
  unfold stepIn at hrun
  rw [if_neg (not_not.2 hr)] at hrun
  refine restored_iff_of_getregs hg hc hrun fun hrun => ?_
  by_cases hA : t.regs.rip ∈ d.bptab.addrs
  · rw [if_pos (BreakpointTable.includeAddr_iff.2 hA)] at hrun
    rw [restored_iff_of_stepOver hg.toGrants hkeep hr hc hA
      (fun d => do
        let d ← checkHitBreakPointOrNot cs .forSinglestep d
        pure { d with lastCmdIsSetRip := false })
      (fun out t₁ => keepsOn_checkHit _) hrun hr']
    exact not_congr ⟨fun h => ⟨hA, h⟩, fun h => h.2⟩
  · rw [if_neg (by simpa [BreakpointTable.includeAddr_iff] using hA)] at hrun
    have hkeep' : KeepsText env.flaky d.text := hkeep
    have hkept := (keepsOn_singlestep hkeep' hr).runs (runs_flaky hrun)
    exact iff_of_true ((restored_iff_of_keepsOn hc hkept hr').2 hc.text) fun h => hA h.1

theorem restored_cont_iff (hg : env.GrantsAll) (hkeep : KeepsText env d.text)
    (hr : d.state = .running) (hc : Consistent orig d t)
    (hrun : Runs (failingKernel env fails) (cont cs d) (0, ⟨f, .stopped d.pid t⟩)
      (.done d') w') (hr' : d'.state = .running) :
    Restored orig f d.pid d' w'.2 ↔
      ¬ (¬ fails 0 ∧ (d.lastCmdIsSetRip = false ∧ t.regs.rip ∈ d.bptab.addrs) ∧
        orig t.regs.rip ≠ int3 ∧ HalfDone fails 1) := by
  unfold cont at hrun
  rw [if_neg (not_not.2 hr)] at hrun
  refine restored_iff_of_getregs hg hc hrun fun hrun => ?_
  by_cases hover : d.lastCmdIsSetRip = false ∧ t.regs.rip ∈ d.bptab.addrs
  · rw [if_pos ⟨hover.1, BreakpointTable.includeAddr_iff.2 hover.2⟩] at hrun
    rw [restored_iff_of_stepOver hg.toGrants hkeep hr hc hover.2 (contFrom cs)
      (fun out t₁ => keepsOn_contFrom hkeep hr) hrun hr']
    exact not_congr ⟨fun h => ⟨hover, h⟩, fun h => h.2⟩
  · rw [if_neg (by rwa [BreakpointTable.includeAddr_iff])] at hrun
    have hkeep' : KeepsText env.flaky d.text := hkeep
    have hkept := (keepsOn_contFrom hkeep' hr).runs (runs_flaky hrun)
    exact iff_of_true ((restored_iff_of_keepsOn hc hkept hr').2 hc.text) fun h => hover h.1

/-- For every pattern of failures a command that returns with the tracee running
leaves the text consistent exactly when it has not left a step over a breakpoint
half done. -/
theorem consistent_iff_not_halfDone (hg : env.GrantsAll) (hkeep : KeepsText env d.text)
    (hr : d.state = .running) (hc : Consistent orig d t) (c : PointCommand) (hfresh : c.Fresh d)
    (hrun : Runs (failingKernel env fails) (c.prog cs d) (0, ⟨f, .stopped d.pid t⟩)
      (.done d') w') (hr' : d'.state = .running) :
    (∃ t', w'.2 = ⟨f, .stopped d.pid t'⟩ ∧ Consistent orig d' t') ↔
      ¬ c.LeftHalfDone orig d t fails := by
  cases c with
  | setBreakPoint cmds =>
      exact iff_of_true (restored_setBreakPoint hg.toGrants hr hc hfresh hrun) fun h => h.1
  | deleteBreakPoint cmds =>
      exact iff_of_true (restored_deleteBreakPoint hg.toGrants hr hc hrun) fun h => h.1
  | stepIn =>
      refine (restored_stepIn_iff hg hkeep hr hc hrun hr').trans (not_congr ?_)
      exact ⟨fun h => ⟨h.2.1, h.2.2.1, h.1, h.2.2.2⟩, fun h => ⟨h.2.2.1, h.1, h.2.1, h.2.2.2⟩⟩
  | cont =>
      refine (restored_cont_iff hg hkeep hr hc hrun hr').trans (not_congr ?_)
      exact ⟨fun h => ⟨h.2.1, h.2.2.1, h.1, h.2.2.2⟩, fun h => ⟨h.2.2.1, h.1, h.2.1, h.2.2.2⟩⟩

end Commands

/-! ## A single step that fails -/

namespace Sample

theorem quiet_grantsAll : quiet.GrantsAll :=
  ⟨quiet_grants, fun _ h => h, fun _ h => h, fun _ _ h => h⟩

theorem quiet_keepsText (T : Set Addr) : KeepsText quiet T := by
  rintro how t st t' rfl
  exact Set.eqOn_refl _ _

theorem trapped_mem : trapped.mem = overlay [0x1000] int3 tracee.mem := by
  have hword : (0x90909090909090cc : Word) =
      (readWord tracee.mem 0x1000 &&& 0xffffffffffffff00#64) ||| 0xcc#64 := by decide
  change writeWord tracee.mem 0x1000 0x90909090909090cc = _
  rw [hword, writeWord_trap]
  have hinsert : Function.update (overlay [] int3 tracee.mem) 0x1000 int3 =
      overlay [0x1000] int3 tracee.mem := update_overlay_insert (by simp)
  rwa [overlay_nil] at hinsert

theorem trapped_consistent : Consistent tracee.mem planted trapped where
  table := ⟨by decide, by decide, by decide⟩
  text := by
    rw [trapped_mem]
    exact Set.eqOn_refl _ _

/-- The debugger after a `si` whose single step has failed. -/
def unstepped : Debugger :=
  { planted with
    out := planted.out ++ [.perror "** ptrace SINGLESTEP", .info "** breakpoint @",
      .insn 0x1000 [0x90] "nop".toList []] }

/-- The tracee then: the trap is gone. -/
def bare : Tracee := { trapped with mem := Function.update trapped.mem 0x1000 0x90 }

/-- The registers, the word and the first poke succeed, the step fails, and the
registers are read again. -/
theorem runs_stepIn_failing :
    Runs (failingKernel quiet fun n => n = 3) (stepIn capstone planted)
      (0, ⟨false, .stopped 1 trapped⟩) (.done unstepped) (5, ⟨false, .stopped 1 bare⟩) := by
  have hover : Runs (failingKernel quiet fun n => n = 3) (checkThenRestoreSiReput 0x1000 planted)
      (1, ⟨false, .stopped 1 trapped⟩) (.done (planted.say (.perror "** ptrace SINGLESTEP")))
      (4, ⟨false, .stopped 1 bare⟩) := by
    change Runs _ _ ((1, ⟨false, .stopped planted.pid trapped⟩) : Nat × World) _ _
    unfold checkThenRestoreSiReput
    rw [if_neg (by decide), runs_failing_peektext quiet_grants]
    refine (runs_failing_poketext quiet_grants).2 (Or.inr ⟨by decide, ?_⟩)
    refine (runs_failing_singlestep quiet_grants).2 (Or.inl ⟨rfl, rfl, ?_⟩)
    rw [writeWord_restore]
    rfl
  change Runs _ _ ((0, ⟨false, .stopped planted.pid trapped⟩) : Nat × World) _ _
  unfold stepIn
  rw [if_neg (by decide)]
  refine (runs_failing_getregs fun h => h).2 (Or.inr ⟨by decide, ?_⟩)
  simp only []
  rw [if_pos (by decide), runs_bind]
  refine Or.inl ⟨_, _, hover, ?_⟩
  rw [if_neg (by decide), runs_bind]
  refine Or.inl ⟨unstepped, _, ?_, rfl, rfl⟩
  change Runs _ _ ((4, ⟨false, .stopped planted.pid bare⟩) : Nat × World) _ _
  unfold checkHitBreakPointOrNot
  refine (runs_failing_getregs fun h => h).2 (Or.inr ⟨by decide, ?_⟩)
  exact ⟨rfl, rfl⟩

end Sample

/-- When the single step fails, `si` returns with the breakpoint in the table
and without its trap in the text. -/
theorem failed_step_loses_trap :
    Consistent Sample.tracee.mem Sample.planted Sample.trapped ∧
      Runs (failingKernel Sample.quiet fun n => n = 3) (stepIn Sample.capstone Sample.planted)
        (0, ⟨false, .stopped 1 Sample.trapped⟩) (.done Sample.unstepped)
        (5, ⟨false, .stopped 1 Sample.bare⟩) ∧
      Sample.unstepped.state = .running ∧ (0x1000 : Addr) ∈ Sample.unstepped.bptab.addrs ∧
      Sample.bare.mem 0x1000 = 0x90 ∧
      ¬ ∃ t', (⟨false, .stopped 1 Sample.bare⟩ : World) = ⟨false, .stopped 1 t'⟩ ∧
        Consistent Sample.tracee.mem Sample.unstepped t' := by
  have hbare : Sample.bare.mem 0x1000 = 0x90 := rfl
  have hin : (0x1000 : Addr) ∈ Sample.unstepped.text := ⟨by decide, by decide⟩
  refine ⟨Sample.trapped_consistent, Sample.runs_stepIn_failing, rfl, by decide, hbare, ?_⟩
  rintro ⟨t', hw, hc⟩
  injection hw with _ hchild
  injection hchild with _ ht
  have htrap := hc.text hin
  rw [← ht, hbare, overlay_of_mem (by decide)] at htrap
  revert htrap
  decide

/-- The condition fails for that run, and with it the property. -/
theorem consistent_iff_not_halfDone_failing :
    (∃ t', (⟨false, .stopped 1 Sample.bare⟩ : World) = ⟨false, .stopped 1 t'⟩ ∧
        Consistent Sample.tracee.mem Sample.unstepped t') ↔
      ¬ PointCommand.stepIn.LeftHalfDone Sample.tracee.mem Sample.planted Sample.trapped
        fun n => n = 3 :=
  consistent_iff_not_halfDone Sample.quiet_grantsAll (Sample.quiet_keepsText _) rfl
    Sample.trapped_consistent .stepIn trivial Sample.runs_stepIn_failing rfl

end Sdb
