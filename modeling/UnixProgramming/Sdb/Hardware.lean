import UnixProgramming.Machine.Stepping
import UnixProgramming.Sdb.StepOver

/-!
# A processor under the debugger

The program is a native step function; the processor runs it, except that a
byte `0xcc` at the instruction pointer is a trap.  The kernel reports traps and
single steps as `SIGTRAP`; of a process that has exited it keeps nothing.

* `Stepped`, `RunsTo` — what `PTRACE_SINGLESTEP` and `PTRACE_CONT` lead to.
* `Undisturbed` — an instruction that has nothing to do with the breakpoints.
* `native_trapped`, `native_restored` — such an instruction, run in a tracee with
  the traps in place, and with the one it starts at taken out.
* `runsTo_trapped_iff` — let run, the tracee stops one byte past the first
  breakpoint on the native run.
-/

namespace Sdb

open ByteMemory CString Requests Overlay Stepping

/-- A program: what one instruction does. -/
abbrev Program := Tracee → Outcome Tracee Nat

/-- One byte past a trap. -/
def Tracee.pastTrap (t : Tracee) : Tracee :=
  { t with regs := { t.regs with rip := t.regs.rip + 1 } }

theorem Tracee.pastTrap_rip (t : Tracee) : t.pastTrap.regs.rip - 1 = t.regs.rip :=
  BitVec.add_sub_cancel _ _

/-- Setting `rip` back by one undoes it. -/
theorem Tracee.pastTrap_back (t : Tracee) :
    (⟨{ t.pastTrap.regs with rip := t.pastTrap.regs.rip - 1 }, t.pastTrap.mem⟩ : Tracee) = t := by
  rw [pastTrap_rip]
  rfl

/-- The processor makes one step. -/
def Stepped (native : Program) (t : Tracee) (st : WaitStatus) (t' : Tracee) : Prop :=
  if t.mem t.regs.rip = int3 then st = .stopped sigtrap ∧ t' = t.pastTrap
  else
    match native t with
    | .next t₁ => st = .stopped sigtrap ∧ t' = t₁
    | .exits code => st = .exited code

/-- The processor runs until something is reported. -/
inductive RunsTo (native : Program) : Tracee → WaitStatus → Tracee → Prop where
  | trap {t : Tracee} : t.mem t.regs.rip = int3 →
      RunsTo native t (.stopped sigtrap) t.pastTrap
  | exit {t t' : Tracee} {code : Nat} : t.mem t.regs.rip ≠ int3 → native t = .exits code →
      RunsTo native t (.exited code) t'
  | next {t t₁ t' : Tracee} {st : WaitStatus} : t.mem t.regs.rip ≠ int3 →
      native t = .next t₁ → RunsTo native t₁ st t' → RunsTo native t st t'

/-- A system in which the processor runs the tracee and no request is refused. -/
def hardware (native : Program) : Env where
  mayFail _ := False
  boots _ := False
  stops how t st t' :=
    match how with
    | .singlestep => Stepped native t st t'
    | .cont => RunsTo native t st t'
  startEnds _ := False
  file _ x := x = none

theorem hardware_grants (native : Program) : (hardware native).GrantsAll where
  peektext _ _ h := h
  poketext _ _ _ h := h
  singlestep _ h := h
  cont _ h := h
  getregs _ h := h
  setregs _ _ h := h

/-! ## Instructions away from the breakpoints -/

/-- The native tracee with a trap at each of the addresses. -/
def Tracee.trapped (s : Tracee) (B : List Addr) : Tracee :=
  { s with mem := overlay B int3 s.mem }

@[simp] theorem Tracee.trapped_regs (s : Tracee) (B : List Addr) :
    (s.trapped B).regs = s.regs := rfl

/-- The breakpoint bytes an instruction has nothing to do with: all but the one
it starts at. -/
def Hidden (B : List Addr) (s : Tracee) (x : Addr) : Prop := x ∈ B ∧ x ≠ s.regs.rip

instance (B : List Addr) (s : Tracee) (x : Addr) : Decidable (Hidden B s x) :=
  inferInstanceAs (Decidable (_ ∧ _))

/-- The instruction at `s` is not an `int3`.  It does the same whatever is in the
hidden bytes, and leaves them as they are (`blind`); it writes none of the eight
bytes from a breakpoint on (`aside`). -/
structure Undisturbed (native : Program) (B : List Addr) (s : Tracee) : Prop where
  notInt3 : s.mem s.regs.rip ≠ int3
  blind : ∀ m, (∀ x, ¬ Hidden B s x → m x = s.mem x) →
    match native s with
    | .exits code => native { s with mem := m } = .exits code
    | .next s' => ∃ m', native { s with mem := m } = .next { s' with mem := m' } ∧
        ∀ x, m' x = if Hidden B s x then m x else s'.mem x
  aside : ∀ s', native s = .next s' → ∀ A ∈ B, ∀ x, InWord A x → s'.mem x = s.mem x

section Undisturbed

variable {native : Program} {B : List Addr} {s s' : Tracee} {code : Nat}

/-- Traps, and the memory of the native tracee elsewhere: an instruction makes
of it the same with the memory it leaves. -/
theorem Undisturbed.next_of_overlay (hu : Undisturbed native B s) (hs : native s = .next s')
    {m : Memory} (hm : ∀ x, m x = if Hidden B s x then int3 else s.mem x) :
    ∃ m', native { s with mem := m } = .next { s' with mem := m' } ∧
      ∀ x, m' x = if Hidden B s x then int3 else s'.mem x := by
  have hb := hu.blind m fun x hx => by rw [hm, if_neg hx]
  rw [hs] at hb
  obtain ⟨m', hstep, hm'⟩ := hb
  refine ⟨m', hstep, ?_⟩
  intro x
  rw [hm']
  by_cases hx : Hidden B s x
  · rw [if_pos hx, if_pos hx, hm, if_pos hx]
  · rw [if_neg hx, if_neg hx]

theorem Undisturbed.exits_of_overlay (hu : Undisturbed native B s) (hs : native s = .exits code)
    {m : Memory} (hm : ∀ x, m x = if Hidden B s x then int3 else s.mem x) :
    native { s with mem := m } = .exits code := by
  have hb := hu.blind m fun x hx => by rw [hm, if_neg hx]
  rw [hs] at hb
  exact hb

/-- Away from the breakpoints every one of them is hidden. -/
theorem trapped_mem_of_off (hrip : s.regs.rip ∉ B) (x : Addr) :
    (s.trapped B).mem x = if Hidden B s x then int3 else s.mem x := by
  by_cases hx : x ∈ B
  · have hne : x ≠ s.regs.rip := by
      rintro rfl
      exact hrip hx
    rw [if_pos ⟨hx, hne⟩]
    exact overlay_of_mem hx
  · rw [if_neg fun h => hx h.1]
    exact overlay_of_not_mem hx

/-- With the trap at the instruction taken out, the others are hidden. -/
theorem restored_mem (x : Addr) :
    ((s.trapped B).restored s.regs.rip s.mem).mem x = if Hidden B s x then int3 else s.mem x := by
  by_cases hx : x = s.regs.rip
  · subst hx
    rw [if_neg fun h => h.2 rfl]
    exact Function.update_self _ _ _
  · have hmem : ((s.trapped B).restored s.regs.rip s.mem).mem x = (s.trapped B).mem x :=
      Function.update_of_ne hx _ _
    rw [hmem]
    by_cases hB : x ∈ B
    · rw [if_pos ⟨hB, hx⟩]
      exact overlay_of_mem hB
    · rw [if_neg fun h => hB h.1]
      exact overlay_of_not_mem hB

theorem Undisturbed.trapped_rip (hu : Undisturbed native B s) :
    (s.trapped B).mem s.regs.rip = int3 ↔ s.regs.rip ∈ B := by
  constructor
  · intro h
    by_contra hrip
    exact hu.notInt3 ((overlay_of_not_mem hrip).symm.trans h)
  · exact fun h => overlay_of_mem h

theorem Undisturbed.restored_rip (hu : Undisturbed native B s) :
    ((s.trapped B).restored s.regs.rip s.mem).mem s.regs.rip ≠ int3 := by
  rw [restored_mem, if_neg fun h => h.2 rfl]
  exact hu.notInt3

/-- A step away from the breakpoints. -/
theorem Undisturbed.native_trapped (hu : Undisturbed native B s) (hrip : s.regs.rip ∉ B)
    (hs : native s = .next s') : native (s.trapped B) = .next (s'.trapped B) := by
  obtain ⟨m', hstep, hm'⟩ := hu.next_of_overlay hs (trapped_mem_of_off hrip)
  have hmem : m' = overlay B int3 s'.mem := by
    funext x
    rw [hm', overlay]
    by_cases hx : x ∈ B
    · have hne : x ≠ s.regs.rip := by
        rintro rfl
        exact hrip hx
      rw [if_pos ⟨hx, hne⟩, if_pos hx]
    · rw [if_neg fun h => hx h.1, if_neg hx]
  rw [hmem] at hstep
  exact hstep

theorem Undisturbed.native_trapped_exits (hu : Undisturbed native B s) (hrip : s.regs.rip ∉ B)
    (hs : native s = .exits code) : native (s.trapped B) = .exits code :=
  hu.exits_of_overlay hs (trapped_mem_of_off hrip)

/-- What the trapped tracee does away from the breakpoints, the native one does. -/
theorem Undisturbed.of_native_trapped (hu : Undisturbed native B s) (hrip : s.regs.rip ∉ B)
    {t₁ : Tracee} (h : native (s.trapped B) = .next t₁) :
    ∃ s', native s = .next s' ∧ t₁ = s'.trapped B := by
  cases hs : native s with
  | next s' =>
      rw [hu.native_trapped hrip hs] at h
      cases h
      exact ⟨s', rfl, rfl⟩
  | exits code =>
      rw [hu.native_trapped_exits hrip hs] at h
      cases h

theorem Undisturbed.of_native_trapped_exits (hu : Undisturbed native B s) (hrip : s.regs.rip ∉ B)
    (h : native (s.trapped B) = .exits code) : native s = .exits code := by
  cases hs : native s with
  | next s' =>
      rw [hu.native_trapped hrip hs] at h
      cases h
  | exits code' =>
      rw [hu.native_trapped_exits hrip hs] at h
      cases h
      rfl

/-- A step at a breakpoint, made in the restored tracee: once the old word is
back, the traps are in place again. -/
theorem Undisturbed.native_restored (hu : Undisturbed native B s) (hrip : s.regs.rip ∈ B)
    (hs : native s = .next s') :
    ∃ t₁, native ((s.trapped B).restored s.regs.rip s.mem) = .next t₁ ∧
      t₁.reput s.regs.rip (s.trapped B).mem = s'.trapped B := by
  obtain ⟨m', hstep, hm'⟩ := hu.next_of_overlay hs restored_mem
  refine ⟨{ s' with mem := m' }, hstep, ?_⟩
  have hmem : (Tracee.reput ⟨s'.regs, m'⟩ s.regs.rip (s.trapped B).mem).mem =
      overlay B int3 s'.mem := by
    funext x
    rw [reput_mem]
    by_cases hin : InWord s.regs.rip x
    · rw [if_pos hin, overlay, hu.aside s' hs _ hrip x hin]
      rfl
    · have hne : x ≠ s.regs.rip := by
        rintro rfl
        exact hin (inWord_self _)
      rw [if_neg hin]
      refine (hm' x).trans ?_
      rw [overlay]
      by_cases hx : x ∈ B
      · rw [if_pos ⟨hx, hne⟩, if_pos hx]
      · rw [if_neg fun h => hx h.1, if_neg hx]
  exact congrArg (fun m => (⟨s'.regs, m⟩ : Tracee)) hmem

theorem Undisturbed.native_restored_exits (hu : Undisturbed native B s)
    (hs : native s = .exits code) :
    native ((s.trapped B).restored s.regs.rip s.mem) = .exits code :=
  hu.exits_of_overlay hs restored_mem

end Undisturbed

/-! ## Letting it run -/

/-- The instruction pointer is at a breakpoint. -/
def AtBreakpoint (B : List Addr) (s : Tracee) : Prop := s.regs.rip ∈ B

section Run

variable {native : Program} {B : List Addr} {s t' : Tracee} {st : WaitStatus}

/-- Undisturbed from `s` on, so from the state after it. -/
theorem undisturbed_next {s₁ : Tracee} (hs : native s = .next s₁)
    (hu : ∀ n u, after native n s = some u → Undisturbed native B u) :
    ∀ n u, after native n s₁ = some u → Undisturbed native B u :=
  fun n u h => hu (n + 1) u (after_succ_eq_some.2 ⟨s₁, hs, h⟩)

/-- What a run of the trapped tracee says of the native run. -/
theorem RunsTo.hit_or_exits (hu : ∀ n u, after native n s = some u → Undisturbed native B u)
    (h : RunsTo native (s.trapped B) st t') :
    (∃ n s', FirstHit native (AtBreakpoint B) 0 n s s' ∧ st = .stopped sigtrap ∧
      t' = (s'.trapped B).pastTrap) ∨
      ∃ code, ExitsUnhit native (AtBreakpoint B) 0 s code ∧ st = .exited code := by
  generalize ht : s.trapped B = t at h
  induction h generalizing s with
  | trap hrip =>
      subst ht
      have hB := (hu 0 s rfl).trapped_rip.1 hrip
      exact Or.inl ⟨0, s, (firstHit_of_hit (P := AtBreakpoint B) hB).2 ⟨rfl, rfl⟩, rfl, rfl⟩
  | exit hrip hexit =>
      subst ht
      have hB : ¬ AtBreakpoint B s := fun hB => hrip ((hu 0 s rfl).trapped_rip.2 hB)
      have hs := (hu 0 s rfl).of_native_trapped_exits hB hexit
      exact Or.inr ⟨_, (exitsUnhit_zero_iff hB).2 ((exitsUnhit_of_exits hs).2 rfl), rfl⟩
  | next hrip hnext _ ih =>
      subst ht
      have hB : ¬ AtBreakpoint B s := fun hB => hrip ((hu 0 s rfl).trapped_rip.2 hB)
      obtain ⟨s₁, hs, rfl⟩ := (hu 0 s rfl).of_native_trapped hB hnext
      rcases ih (undisturbed_next hs hu) rfl with ⟨n, s', hhit, hst, ht'⟩ | ⟨code, hexit, hst⟩
      · refine Or.inl ⟨n + 1, s', ?_, hst, ht'⟩
        exact (firstHit_zero_iff hB).2 ((firstHit_succ_iff hs).2 ⟨n, rfl, hhit⟩)
      · refine Or.inr ⟨code, ?_, hst⟩
        exact (exitsUnhit_zero_iff hB).2 ((exitsUnhit_succ_iff hs).2 hexit)

/-- A native run that comes to a breakpoint is stopped there. -/
theorem runsTo_of_firstHit (hu : ∀ n u, after native n s = some u → Undisturbed native B u)
    {n : Nat} {s' : Tracee} (hhit : FirstHit native (AtBreakpoint B) 0 n s s') :
    RunsTo native (s.trapped B) (.stopped sigtrap) (s'.trapped B).pastTrap := by
  induction n generalizing s with
  | zero =>
      obtain ⟨-, hafter, hB, -⟩ := hhit
      rw [after_zero, Option.some.injEq] at hafter
      subst hafter
      exact .trap ((hu 0 s rfl).trapped_rip.2 hB)
  | succ n ih =>
      have hB : ¬ AtBreakpoint B s := hhit.2.2.2 0 s (le_refl 0) (Nat.succ_pos n) rfl
      obtain ⟨s₁, hs, -⟩ := after_succ_eq_some.1 hhit.2.1
      obtain ⟨m, hm, hrest⟩ := (firstHit_succ_iff hs).1 ((firstHit_zero_iff hB).1 hhit)
      obtain rfl := Nat.succ.inj hm
      refine .next (mt (hu 0 s rfl).trapped_rip.1 hB) ((hu 0 s rfl).native_trapped hB hs) ?_
      exact ih (undisturbed_next hs hu) hrest

/-- A native run that exits before any breakpoint exits trapped, too. -/
theorem runsTo_of_exitsUnhit (hu : ∀ n u, after native n s = some u → Undisturbed native B u)
    {code : Nat} (h : ExitsUnhit native (AtBreakpoint B) 0 s code) :
    RunsTo native (s.trapped B) (.exited code) t' := by
  obtain ⟨n, u, hafter, hexit, hno⟩ := h
  induction n generalizing s with
  | zero =>
      rw [after_zero, Option.some.injEq] at hafter
      subst hafter
      have hB : ¬ AtBreakpoint B s := hno 0 s (le_refl 0) (le_refl 0) rfl
      exact .exit (mt (hu 0 s rfl).trapped_rip.1 hB)
        ((hu 0 s rfl).native_trapped_exits hB hexit)
  | succ n ih =>
      have hB : ¬ AtBreakpoint B s := hno 0 s (le_refl 0) (Nat.zero_le _) rfl
      obtain ⟨s₁, hs, hrest⟩ := after_succ_eq_some.1 hafter
      refine .next (mt (hu 0 s rfl).trapped_rip.1 hB) ((hu 0 s rfl).native_trapped hB hs) ?_
      refine ih (undisturbed_next hs hu) hrest ?_
      intro m v _ hm hv
      exact hno (m + 1) v (Nat.zero_le _) (by omega) (after_succ_eq_some.2 ⟨s₁, hs, hv⟩)

/-- Let run, a trapped tracee stops one byte past the first breakpoint its
native run comes to, or exits where the native run exits before. -/
theorem runsTo_trapped_iff (hu : ∀ n u, after native n s = some u → Undisturbed native B u) :
    RunsTo native (s.trapped B) st t' ↔
      (∃ n s', FirstHit native (AtBreakpoint B) 0 n s s' ∧ st = .stopped sigtrap ∧
        t' = (s'.trapped B).pastTrap) ∨
      ∃ code, ExitsUnhit native (AtBreakpoint B) 0 s code ∧ st = .exited code := by
  constructor
  · exact RunsTo.hit_or_exits hu
  · rintro (⟨n, s', hhit, rfl, rfl⟩ | ⟨code, hexit, rfl⟩)
    · exact runsTo_of_firstHit hu hhit
    · exact runsTo_of_exitsUnhit hu hexit

end Run

end Sdb
