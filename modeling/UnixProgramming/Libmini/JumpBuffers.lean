import UnixProgramming.Libmini.SignalMask

/-!
# Several jump buffers

A program may keep any number of jump buffers, fill them again, copy them and give them up,
with computation, signals and jumps in between.  Buffers that do not overlap are a map from
addresses to continuations: a jump goes on after the last call of `setjmp` that filled the
buffer, or the one that it is a copy of.

* `Continuations` — what each buffer in use stands for.
* `Proceeds` — the run of a program, with the continuations it has.
* `Holds.of_copied`, `Held` — a copied buffer, and the invariant: every buffer in use holds
  what the call it stands for has stored.
* `Proceeds.held` — it lasts through any run.
* `jumps_to_continuation` — so every jump of every run goes on with the continuation of its
  buffer, in the memory and with the mask it was made in.
-/

namespace Libmini

open ByteMemory X86

/-! ## The run of a program -/

/-- For each buffer in use, the thread at the call of `setjmp` it stands for. -/
abbrev Continuations := Addr → Option Cpu

/-- The buffer at `a` overlaps no other buffer in use. -/
def Continuations.Clear (t : Continuations) (a : Addr) : Prop :=
  ∀ b s, t b = some s → b ≠ a → ∀ x, InBlock b 64 x → ¬ InBlock a 64 x

/-- What happens in memory leaves the buffers in use alone, but for the one at `a`. -/
def Continuations.Spares (t : Continuations) (a : Option Addr) (m m' : Memory) : Prop :=
  ∀ b s, t b = some s → a ≠ some b → SameBuffer b m m'

/-- The buffer at `b` has the bytes that the one at `a` had. -/
def Copied (a b : Addr) (m m' : Memory) : Prop := ∀ x, InBlock b 64 x → m' x = m (x - b + a)

/-- The run of a program from `p₀`, and the continuations it has. -/
inductive Proceeds (p₀ : Process) : Continuations → Process → Prop where
  | start : Proceeds p₀ (fun _ => none) p₀
  /-- Computation, system calls and signals, whatever they do to the registers, the mask and the
  memory outside the buffers. -/
  | compute {t : Continuations} {p q : Process} :
      Proceeds p₀ t p → t.Spares none p.cpu.mem q.cpu.mem → Proceeds p₀ t q
  | setjmp {t : Continuations} {p q : Process} {target : Word} :
      Proceeds p₀ t p → BufferApart p.cpu → t.Clear (env p.cpu) →
        p.setjmp = some (target, q) →
          Proceeds p₀ (Function.update t (env p.cpu) (some p.cpu)) q
  | longjmp {t : Continuations} {p q : Process} {target : Word} :
      Proceeds p₀ t p → p.longjmp = some (target, q) → Proceeds p₀ t q
  /-- A buffer is assigned to another one. -/
  | copy {t : Continuations} {p q : Process} (a b : Addr) :
      Proceeds p₀ t p → Copied a b p.cpu.mem q.cpu.mem →
        t.Spares (some b) p.cpu.mem q.cpu.mem → Proceeds p₀ (Function.update t b (t a)) q
  /-- A buffer is no longer in use, and its memory is free. -/
  | release {t : Continuations} {p : Process} (a : Addr) :
      Proceeds p₀ t p → Proceeds p₀ (Function.update t a none) p

/-! ## What the buffers hold -/

section Buffers

variable {s : Cpu} {a b : Addr} {m m' : Memory} {t : Continuations}

theorem readWord_of_copied (h : Copied a b m m') {i : Nat} (hi : i < 8) :
    readWord m' (offset b (8 * i)) = readWord m (offset a (8 * i)) := by
  apply word_ext
  intro k hk
  have hin : InBlock b 64 (offset (offset b (8 * i)) k) :=
    inBlock_of_inWord (inWord_offset _ hk) (by omega) (by norm_num)
  have hsame : offset (offset b (8 * i)) k - b + a = offset (offset a (8 * i)) k := by
    simp only [offset]
    bv_omega
  rw [byteOf_readWord _ _ hk, byteOf_readWord _ _ hk, h _ hin, hsame]

theorem Holds.of_copied (h : Holds s a m) (hcopied : Copied a b m m') : Holds s b m' := by
  intro i v hi
  have hlt : i < 8 := by
    have hlen := (List.getElem?_eq_some_iff.1 hi).1
    simpa [saved] using hlen
  rw [readWord_of_copied hcopied hlt, h i v hi]

/-- Every buffer in use holds what the call that it stands for has stored. -/
def Continuations.Held (t : Continuations) (m : Memory) : Prop :=
  ∀ a s, t a = some s → Holds s a m

theorem Continuations.Held.of_spares (h : t.Held m) (hm : t.Spares none m m') : t.Held m' :=
  fun a s hs => (h a s hs).of_sameBuffer (hm a s hs (by simp))

/-- A buffer is filled, and the others are left alone. -/
theorem Continuations.Held.update (h : t.Held m) (hm : t.Spares (some a) m m') {c : Option Cpu}
    (hc : ∀ s, c = some s → Holds s a m') : Continuations.Held (Function.update t a c) m' := by
  intro b s hs
  by_cases hab : b = a
  · subst hab
    rw [Function.update_self] at hs
    exact hc s hs
  · rw [Function.update_of_ne hab] at hs
    exact (h b s hs).of_sameBuffer (hm b s hs fun heq => hab (Option.some.inj heq).symm)

end Buffers

/-! ## The calls in a process -/

section Calls

variable {p q : Process} {target : Word}

theorem setjmp_returned (h : BufferApart p.cpu) (hrun : p.setjmp = some (target, q)) :
    Returned p.cpu q.cpu := by
  obtain ⟨u, hset, hu⟩ := run_setjmp h
  rw [Process.setjmp, hset] at hrun
  cases hrun
  exact hu

theorem longjmp_mem (hrun : p.longjmp = some (target, q)) : q.cpu.mem = p.cpu.mem := by
  obtain ⟨w, hjump, -, hmem, -⟩ := run_longjmp_loaded p.cpu
  rw [Process.longjmp, hjump] at hrun
  cases hrun
  exact hmem

end Calls

/-- Through any run the buffers in use hold what they stand for. -/
theorem Proceeds.held {p₀ p : Process} {t : Continuations} (h : Proceeds p₀ t p) :
    t.Held p.cpu.mem := by
  induction h with
  | start => exact fun a s hs => absurd hs (by simp)
  | compute _ hm ih => exact ih.of_spares hm
  | setjmp _ happart hclear hrun ih =>
      have hreturned := setjmp_returned happart hrun
      refine ih.update (fun b s hs hb x hx => ?_) ?_
      · exact hreturned.frame (hclear b s hs (fun heq => hb (congrArg some heq.symm)) x hx)
      · rintro s ⟨⟩
        exact hreturned.holds
  | longjmp _ hrun ih =>
      rw [longjmp_mem hrun]
      exact ih
  | copy a b _ hcopied hm ih =>
      exact ih.update hm fun s hs => (ih a s hs).of_copied hcopied
  | release a _ ih =>
      exact ih.update (fun _ _ _ _ _ _ => rfl) fun s hs => absurd hs (by simp)

/-- A call of `setjmp` comes back, and there is one continuation more. -/
theorem Proceeds.takes {p₀ p : Process} {t : Continuations} (h : Proceeds p₀ t p)
    (happart : BufferApart p.cpu) (hclear : t.Clear (env p.cpu)) :
    ∃ q, Proceeds p₀ (Function.update t (env p.cpu) (some p.cpu)) q := by
  obtain ⟨u, hset, -⟩ := run_setjmp happart
  have hrun : p.setjmp = some (returnAddress p.cpu, { p with cpu := u }) := by
    rw [Process.setjmp, hset]
    rfl
  exact ⟨_, .setjmp h happart hclear hrun⟩

/-- **Jumping through any of several buffers.**  In every run a jump through a buffer in use
returns from the call of `setjmp` that the buffer stands for: to its caller, with the stack and
the registers of that call and the value it was given; the memory is as it was before the jump,
and so are the mask, which a buffer has no part in, and `errno`. -/
theorem jumps_to_continuation {p₀ p : Process} {t : Continuations} (h : Proceeds p₀ t p) {s : Cpu}
    (hs : t (env p.cpu) = some s) :
    ∃ q, p.longjmp = some (returnAddress s, q) ∧ Restored s p.cpu q.cpu ∧
      q.blocked = p.blocked ∧ q.errno = p.errno := by
  obtain ⟨w, hjump, hw⟩ := run_longjmp (h.held _ s hs)
  refine ⟨{ p with cpu := w }, ?_, hw, rfl, rfl⟩
  rw [Process.longjmp, hjump]
  rfl

namespace Sample

/-- The registers at a call of `setjmp(0x6000)`, deeper in the stack. -/
def inner : Reg → Word
  | .rdi => 0x6000
  | .rsp => 0x7000
  | _ => 0

theorem clear_inner : Continuations.Clear (Function.update (fun _ => none) 0x5000 (some caller))
    0x6000 := by
  intro b s hs hb x hx hin
  obtain rfl : b = 0x5000 := by
    by_contra hne
    rw [Function.update_of_ne hne] at hs
    cases hs
  simp only [InBlock] at hx hin
  bv_omega

/-- The slot of its return address is not in its buffer. -/
theorem bufferApart_inner {m : Memory} : BufferApart ⟨inner, m⟩ := by
  intro x hx hin
  simp only [InWord, InBlock, env, inner] at hx hin
  bv_omega

end Sample

/-- A jump back over a call of `setjmp` through another buffer. -/
theorem jumps_to_continuation_outer :
    ∃ t p q, Proceeds Sample.unblocked t p ∧ t 0x6000 ≠ none ∧
      p.longjmp = some (0x401000, q) ∧ eax q.cpu = 5 ∧ q.cpu.regs .rbx = 0x11 := by
  have hstart : Proceeds Sample.unblocked (fun _ => none) Sample.unblocked := .start
  obtain ⟨u, houter⟩ := hstart.takes Sample.bufferApart_caller fun b s hs => absurd hs (by simp)
  have hdeeper := houter.compute (q := ⟨⟨Sample.inner, u.cpu.mem⟩, 0, 0⟩) fun _ _ _ _ _ _ => rfl
  obtain ⟨v, hinner⟩ := hdeeper.takes Sample.bufferApart_inner Sample.clear_inner
  have hjumper := hinner.compute (q := ⟨⟨Sample.jumper, v.cpu.mem⟩, 0, 0⟩) fun _ _ _ _ _ _ => rfl
  obtain ⟨q, hjump, hq, -⟩ := jumps_to_continuation hjumper (s := Sample.caller) rfl
  rw [Sample.returnAddress_caller] at hjump
  refine ⟨_, _, q, hjumper, ?_, hjump, hq.eax, hq.kept .rbx (by simp [calleeSaved])⟩
  exact Option.some_ne_none _

end Libmini
