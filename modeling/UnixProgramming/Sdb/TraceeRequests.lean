import UnixProgramming.Sdb.Frame

/-!
# Requests about a tracee

`si` and `cont` ask the system about the tracee only, so they do the same in
systems that start other programs or have other files.

* `Req.OfTracee` — the requests they make.
* `ofTracee_stepIn`, `ofTracee_cont` — they make no others.
* `runs_congr_env` — what that means for two systems.
-/

namespace Sdb

open ByteMemory Requests

/-! ## Systems that differ in what they start -/

/-- The requests other than those that start a process or open a file. -/
def Req.OfTracee : Req → Prop
  | .fork => False
  | .readFile _ => False
  | _ => True

/-- A program that makes no other requests. -/
abbrev OfTracee (p : Dbg Debugger) : Prop :=
  Within Req.OfTracee (fun _ => True) (fun _ => True) p

section OfTracee

variable {cs : Capstone} {d : Debugger}

theorem ofTracee_waitThenCheckExit : OfTracee (waitThenCheckExit d) := by
  refine Within.ask trivial fun x => ?_
  match x with
  | none => exact trivial
  | some (.exited code) => exact trivial
  | some (.stopped sig) => exact trivial
  | some (.signaled sig) => exact trivial

theorem ofTracee_checkThenRestoreSiReput (addr : Word) :
    OfTracee (checkThenRestoreSiReput addr d) := by
  unfold checkThenRestoreSiReput
  refine iteInduction (fun _ => trivial) fun hinc => ?_
  refine Within.ask trivial fun curCode => ?_
  refine Within.bind (within_entryAt (by simpa using hinc)) ?_
  intro bp _
  refine Within.ask trivial fun poked => ?_
  refine iteInduction (fun _ => trivial) fun _ => ?_
  refine Within.ask trivial fun stepped => ?_
  refine iteInduction (fun _ => trivial) fun _ => ?_
  refine Within.bind ofTracee_waitThenCheckExit fun d₁ _ => ?_
  refine iteInduction (fun _ => trivial) fun _ => ?_
  refine Within.ask trivial fun poked => ?_
  exact iteInduction (fun _ => trivial) fun _ => trivial

theorem ofTracee_checkHit_clear (cbpt : CandBp) :
    OfTracee (do
      let d ← checkHitBreakPointOrNot cs cbpt d
      pure { d with lastCmdIsSetRip := false }) := by
  refine Within.bind (P := fun _ => True) ?_ fun d₁ _ => trivial
  refine Within.ask trivial fun x => ?_
  match x with
  | none => exact trivial
  | some regs =>
      have htell : ∀ addr, ¬ d.bptab.includeAddr addr = false → OfTracee (do
          let bp ← entryAt d.bptab addr
          pure (translate cs addr bp.code (d.say (.info "** breakpoint @"))).2) := by
        intro addr hinc
        exact Within.bind (within_entryAt (by simpa using hinc)) fun bp _ => trivial
      refine iteInduction (fun _ => trivial) fun hinc => ?_
      refine iteInduction (fun _ => ?_) fun _ => htell _ hinc
      refine Within.ask trivial fun set => ?_
      exact iteInduction (fun _ => trivial) fun _ => htell _ hinc

theorem ofTracee_stepIn : OfTracee (stepIn cs d) := by
  unfold stepIn
  refine iteInduction (fun _ => trivial) fun _ => ?_
  refine Within.ask trivial fun x => ?_
  match x with
  | none => exact trivial
  | some regs =>
      refine iteInduction (fun _ => ?_) fun _ => ?_
      · refine Within.bind (ofTracee_checkThenRestoreSiReput regs.rip) fun d₁ _ => ?_
        exact iteInduction (fun _ => trivial) fun _ => ofTracee_checkHit_clear .forSinglestep
      · refine Within.ask trivial fun stepped => ?_
        refine iteInduction (fun _ => trivial) fun _ => ?_
        refine Within.bind ofTracee_waitThenCheckExit fun d₁ _ => ?_
        exact iteInduction (fun _ => trivial) fun _ => ofTracee_checkHit_clear .forSinglestep

theorem ofTracee_cont : OfTracee (cont cs d) := by
  have hfrom : ∀ d, OfTracee (contFrom cs d) := by
    intro d
    refine Within.ask trivial fun x => ?_
    refine iteInduction (fun _ => trivial) fun _ => ?_
    refine Within.bind ofTracee_waitThenCheckExit fun d₁ _ => ?_
    exact iteInduction (fun _ => trivial) fun _ => ofTracee_checkHit_clear .forCont
  unfold cont
  refine iteInduction (fun _ => trivial) fun _ => ?_
  refine Within.ask trivial fun x => ?_
  match x with
  | none => exact trivial
  | some regs =>
      refine iteInduction (fun _ => ?_) fun _ => hfrom d
      refine Within.bind (ofTracee_checkThenRestoreSiReput regs.rip) fun d₁ _ => ?_
      exact iteInduction (fun _ => trivial) fun _ => hfrom d₁

/-- A child that has been forked and not been waited for. -/
def World.Starting (w : World) : Prop := ∃ p, w.child = .starting p

/-- Requests about the tracee leave no child starting. -/
theorem not_starting_of_ofTracee {env : Env} {w w' : World} {r : Req} {x : Ans r}
    (hr : r.OfTracee) (hw : ¬ w.Starting) (h : kernel env w r x w') : ¬ w'.Starting := by
  have hat : ∀ {pid : Int} {t' : Tracee → World}, (∀ t, ¬ (t' t).Starting) →
      (w.child.at pid fun t => w' = t' t) → ¬ w'.Starting := by
    intro pid t' ht' hat
    obtain ⟨t, -, rfl⟩ := Child.at_iff.1 hat
    exact ht' t
  have hstopped : ∀ (f : Bool) (pid : Int) (t : Tracee), ¬ (World.mk f (.stopped pid t)).Starting := by
    rintro f pid t ⟨p, hp⟩
    cases hp
  have hresumed : ∀ (f : Bool) (pid : Int) (how : Resume) (t : Tracee),
      ¬ (World.mk f (.resumed pid how t)).Starting := by
    rintro f pid how t ⟨p, hp⟩
    cases hp
  cases r with
  | fork => exact hr.elim
  | readFile path => exact hr.elim
  | traceme => exact h.2 ▸ hw
  | execvp path => exact h.2 ▸ hw
  | setoptions pid => exact (show w' = w from h) ▸ hw
  | readMaps pid => exact (show w' = w from h) ▸ hw
  | peektext pid addr =>
      rcases h with ⟨-, rfl⟩ | ⟨-, -, rfl⟩
      · exact hw
      · exact hw
  | getregs pid =>
      rcases h with ⟨-, rfl⟩ | ⟨-, -, rfl⟩
      · exact hw
      · exact hw
  | poketext pid addr data =>
      rcases h with ⟨-, h⟩ | ⟨-, -, rfl⟩
      · exact hat (fun t => hstopped _ _ _) h
      · exact hw
  | singlestep pid =>
      rcases h with ⟨-, h⟩ | ⟨-, -, rfl⟩
      · exact hat (fun t => hresumed _ _ _ _) h
      · exact hw
  | cont pid =>
      rcases h with ⟨-, h⟩ | ⟨-, -, rfl⟩
      · exact hat (fun t => hresumed _ _ _ _) h
      · exact hw
  | setregs pid regs =>
      rcases h with ⟨-, h⟩ | ⟨-, -, rfl⟩
      · exact hat (fun t => hstopped _ _ _) h
      · exact hw
  | waitpid pid =>
      simp only [kernel, waits] at h
      cases hchild : w.child with
      | absent =>
          rw [hchild] at h
          exact h.2 ▸ hw
      | starting p => exact absurd ⟨p, hchild⟩ hw
      | stopped p t =>
          rw [hchild] at h
          exact h.elim
      | resumed p how t =>
          rw [hchild] at h
          simp only at h
          split at h
          · obtain ⟨st, t', -, -, rfl⟩ := h
            rintro ⟨q, hq⟩
            cases st <;> cases hq
          · exact h.2 ▸ hw

/-- Systems that differ only in what they start and in their files: a program
about the tracee does the same in both. -/
theorem runs_congr_env {env env' : Env} (hmay : env.mayFail = env'.mayFail)
    (hstops : env.stops = env'.stops) {p : Dbg Debugger} (hp : OfTracee p) {w w' : World}
    (hw : ¬ w.Starting) {o : Result Fault Debugger} :
    Runs (kernel env) p w o w' ↔ Runs (kernel env') p w o w' := by
  refine hp.runs_congr (I := fun w => ¬ w.Starting) ?_ ?_ hw
  · exact fun w r x w' hr hw h => not_starting_of_ofTracee hr hw h
  · intro w r x w' hr hw
    cases r with
    | fork => exact hr.elim
    | readFile path => exact hr.elim
    | waitpid pid =>
        simp only [kernel, waits]
        cases hchild : w.child with
        | starting p => exact absurd ⟨p, hchild⟩ hw
        | resumed p how t => rw [hstops]
        | _ => exact Iff.rfl
    | _ => simp only [kernel, Refused, hmay]

end OfTracee

end Sdb
