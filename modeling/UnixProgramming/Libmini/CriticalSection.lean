import UnixProgramming.Libmini.SignalSets

/-!
# Critical sections

`sigprocmask(SIG_BLOCK, &set, &old)` at its beginning and `sigprocmask(SIG_SETMASK, &old, NULL)`
at its end make a piece of a program a critical section.  Sections nest, and signals may arrive
at any point between two instructions: their handlers run with more signals blocked, may contain
sections of their own, and return.

* `Sheltered` — such an execution, with the signals that were delivered in it.
* `sigprocmask_begin`, `sigprocmask_end` — the two calls.
* `Sheltered.restores` — it ends with the mask it began with.
* `Sheltered.not_delivered` — a signal blocked at its beginning is never delivered in it.
* `critical_section` — a section puts the mask back, and the signals that can be delivered in it
  are exactly those that were not blocked before and are not in its set.
-/

namespace Libmini

open ByteMemory X86

/-- The signal is in the set. -/
def InSet (set : SigSet) (sig : Nat) : Prop := set.getLsbD (sig - 1) = true

instance (set : SigSet) (sig : Nat) : Decidable (InSet set sig) :=
  inferInstanceAs (Decidable (_ = true))

/-- `SIGKILL` and `SIGSTOP` are not blocked. -/
def Process.Lawful (p : Process) : Prop := p.blocked &&& unblockable = 0

/-! ## Executions -/

/-- An execution in which signals are blocked in critical sections only.  The memory of `kept`,
where the sections around it keep their masks, is not written; the list tells which signals
were delivered. -/
inductive Sheltered : Set Addr → Process → List Nat → Process → Prop
  | done (kept : Set Addr) (p : Process) : Sheltered kept p [] p
  /-- Computation, and calls that do not change the mask. -/
  | compute {kept : Set Addr} {p q : Process} {delivered : List Nat} (c : Cpu) (errno : Int)
      (hkeep : Set.EqOn c.mem p.cpu.mem kept)
      (rest : Sheltered kept { p with cpu := c, errno := errno } delivered q) :
      Sheltered kept p delivered q
  /-- A signal that is not blocked is delivered, and its handler returns. -/
  | handler {kept : Set Addr} {p r q : Process} {inner delivered : List Nat} (sig : Nat)
      (hsig : 1 ≤ sig ∧ sig ≤ 64) (set : SigSet) (c c' : Cpu) (hopen : ¬ InSet p.blocked sig)
      (hkeep : Set.EqOn c.mem p.cpu.mem kept)
      (body : Sheltered kept
        { p with cpu := c, blocked := (p.blocked ||| set) &&& ~~~unblockable } inner r)
      (hkeep' : Set.EqOn c'.mem r.cpu.mem kept)
      (rest : Sheltered kept
        { r with cpu := c', blocked := p.blocked &&& ~~~unblockable } delivered q) :
      Sheltered kept p (sig :: inner ++ delivered) q
  /-- A critical section. -/
  | critical {kept : Set Addr} {p r q : Process} {inner delivered : List Nat} (set old : Addr)
      (hset : set ≠ 0) (hold : old ≠ 0) (hapart : ∀ x ∈ kept, ¬ InWord old x)
      (body : Sheltered (kept ∪ {x | InWord old x}) (sigprocmask 0 set old p).2 inner r)
      (rest : Sheltered kept (sigprocmask 2 old 0 r).2 delivered q) :
      Sheltered kept p (inner ++ delivered) q

/-! ## The two calls -/

section Calls

variable {p : Process} {set old : Addr}

/-- The set is added to the mask, and the mask there was is in `*old`. -/
theorem sigprocmask_begin (hset : set ≠ 0) (hold : old ≠ 0) :
    sigprocmask 0 set old p =
      (0, { cpu := { p.cpu with mem := writeWord p.cpu.mem old p.blocked }
            blocked := p.blocked ||| (readWord p.cpu.mem set &&& ~~~unblockable)
            errno := 0 }) := by
  have hset' : ¬ set = 0#64 := hset
  have hold' : ¬ old = 0#64 := hold
  simp [sigprocmask, sysRtSigprocmask, newMask, wrapperRetval, hset', hold']

/-- The mask is the one in `*old`. -/
theorem sigprocmask_end (hold : old ≠ 0) :
    sigprocmask 2 old 0 p =
      (0, { p with blocked := readWord p.cpu.mem old &&& ~~~unblockable, errno := 0 }) := by
  have hold' : ¬ old = 0#64 := hold
  simp [sigprocmask, sysRtSigprocmask, newMask, wrapperRetval, hold']

end Calls

/-! ## Masks -/

section Masks

variable {m s : SigSet} {sig : Nat}

theorem getLsbD_of_and_eq_zero (h : m &&& s = 0) (b : Nat) :
    m.getLsbD b = false ∨ s.getLsbD b = false := by
  have hbit : (m &&& s).getLsbD b = false := by rw [h, BitVec.ofNat_eq_ofNat, BitVec.getLsbD_zero]
  rwa [BitVec.getLsbD_and, Bool.and_eq_false_iff] at hbit

/-- A mask without the signals of `s` has nothing to lose. -/
theorem and_not_eq (h : m &&& s = 0) : m &&& ~~~s = m := by
  apply BitVec.eq_of_getLsbD_eq
  intro b hb
  rcases getLsbD_of_and_eq_zero h b with hm | hs
  · rw [BitVec.getLsbD_and, hm, Bool.false_and]
  · rw [BitVec.getLsbD_and, BitVec.getLsbD_not, hs, decide_eq_true hb, Bool.not_false,
      Bool.and_self, Bool.and_true]

theorem and_not_and_eq_zero (m s : SigSet) : m &&& ~~~s &&& s = 0 := by
  rw [BitVec.and_assoc, BitVec.and_comm (~~~s), BitVec.and_not_self]
  exact BitVec.and_zero

/-- Signals that may be blocked are added. -/
theorem or_and_eq_zero {t : SigSet} (h : m &&& s = 0) (ht : t &&& s = 0) :
    (m ||| t) &&& s = 0 := by
  rw [BitVec.and_comm, BitVec.and_or_distrib_left, BitVec.and_comm s m, BitVec.and_comm s t, h, ht]
  rfl

theorem inSet_or {t : SigSet} : InSet (m ||| t) sig ↔ InSet m sig ∨ InSet t sig := by
  rw [InSet, BitVec.getLsbD_or, Bool.or_eq_true]
  rfl

theorem inSet_and_not :
    InSet (m &&& ~~~s) sig ↔ InSet m sig ∧ ¬ InSet s sig := by
  rw [InSet, InSet, InSet, BitVec.getLsbD_and, BitVec.getLsbD_not, Bool.and_eq_true,
    Bool.and_eq_true, Bool.not_eq_true', Bool.not_eq_true]
  constructor
  · rintro ⟨hm, -, hs⟩
    exact ⟨hm, hs⟩
  · rintro ⟨hm, hs⟩
    exact ⟨hm, decide_eq_true (BitVec.lt_of_getLsbD hm), hs⟩

theorem not_inSet_of_and_eq_zero (h : m &&& s = 0) (hm : InSet m sig) : ¬ InSet s sig := by
  rcases getLsbD_of_and_eq_zero h (sig - 1) with hno | hno
  · exact absurd hm (by simp [InSet, hno])
  · simp [InSet, hno]

end Masks

/-! ## What an execution preserves -/

/-- The mask after the beginning of a section. -/
theorem lawful_begin {p : Process} (h : p.Lawful) (set : SigSet) :
    (p.blocked ||| (set &&& ~~~unblockable)) &&& unblockable = 0 :=
  or_and_eq_zero h (and_not_and_eq_zero set unblockable)

/-- The mask at the end of a section, if `*old` has lasted. -/
theorem blocked_end {p r : Process} {kept : Set Addr} {old : Addr} (h : p.Lawful)
    (hbody : Set.EqOn r.cpu.mem (writeWord p.cpu.mem old p.blocked)
      (kept ∪ {x | InWord old x})) :
    readWord r.cpu.mem old &&& ~~~unblockable = p.blocked := by
  have hsaved : readWord r.cpu.mem old = p.blocked :=
    (readWord_congr fun x hx => hbody (Or.inr hx)).trans (readWord_writeWord _ _ _)
  rw [hsaved, and_not_eq h]

/-- **The mask comes back**, and what the sections around it keep lasts. -/
theorem Sheltered.restores {kept : Set Addr} {p q : Process} {delivered : List Nat}
    (h : Sheltered kept p delivered q) (hlawful : p.Lawful) :
    q.blocked = p.blocked ∧ Set.EqOn q.cpu.mem p.cpu.mem kept := by
  induction h with
  | done kept p => exact ⟨rfl, fun _ _ => rfl⟩
  | compute c errno hkeep rest ih =>
      obtain ⟨hblocked, hmem⟩ := ih hlawful
      exact ⟨hblocked, hmem.trans hkeep⟩
  | @handler kept p r q inner delivered sig hrange set c c' hopen hkeep body hkeep' rest ihBody ihRest =>
      have hsame : p.blocked &&& ~~~unblockable = p.blocked := and_not_eq hlawful
      obtain ⟨-, hbody⟩ := ihBody (and_not_and_eq_zero _ _)
      obtain ⟨hblocked, hmem⟩ := ihRest (and_not_and_eq_zero _ _)
      exact ⟨hblocked.trans hsame, ((hmem.trans hkeep').trans hbody).trans hkeep⟩
  | @critical kept p r q inner delivered set old hset hold hapart body rest ihBody ihRest =>
      rw [sigprocmask_begin hset hold] at ihBody
      rw [sigprocmask_end hold] at ihRest
      obtain ⟨-, hbody⟩ := ihBody (lawful_begin hlawful _)
      obtain ⟨hblocked, hmem⟩ := ihRest (and_not_and_eq_zero _ _)
      refine ⟨hblocked.trans (blocked_end hlawful hbody), fun x hx => ?_⟩
      refine ((hmem hx).trans (hbody (Or.inl hx))).trans ?_
      exact writeWord_of_not_inWord (hapart x hx)

/-- **A blocked signal is not delivered**, at whatever depth. -/
theorem Sheltered.not_delivered {kept : Set Addr} {p q : Process} {delivered : List Nat}
    (h : Sheltered kept p delivered q) (hlawful : p.Lawful) {sig : Nat}
    (hsig : InSet p.blocked sig) : sig ∉ delivered := by
  induction h with
  | done kept p => exact List.not_mem_nil
  | compute c errno hkeep rest ih => exact ih hlawful hsig
  | @handler kept p r q inner delivered sig' hrange set c c' hopen hkeep body hkeep' rest ihBody ihRest =>
      have hsame : p.blocked &&& ~~~unblockable = p.blocked := and_not_eq hlawful
      have hfree : ¬ InSet unblockable sig := not_inSet_of_and_eq_zero hlawful hsig
      have hbody := ihBody (and_not_and_eq_zero _ _)
        (inSet_and_not.2 ⟨inSet_or.2 (Or.inl hsig), hfree⟩)
      have hrest := ihRest (and_not_and_eq_zero _ _) (inSet_and_not.2 ⟨hsig, hfree⟩)
      rw [List.cons_append, List.mem_cons, List.mem_append]
      rintro (rfl | hmem | hmem)
      · exact hopen hsig
      · exact hbody hmem
      · exact hrest hmem
  | @critical kept p r q inner delivered set old hset hold hapart body rest ihBody ihRest =>
      rw [sigprocmask_begin hset hold] at body ihBody
      rw [sigprocmask_end hold] at ihRest
      have hback := blocked_end hlawful (body.restores (lawful_begin hlawful _)).2
      have hbody := ihBody (lawful_begin hlawful _) (inSet_or.2 (Or.inl hsig))
      have hrest := ihRest (and_not_and_eq_zero _ _) (hback ▸ hsig)
      rw [List.mem_append]
      rintro (hmem | hmem)
      · exact hbody hmem
      · exact hrest hmem

/-! ## A section -/

/-- **A critical section.**  Whatever happens in it, sections and handlers at any depth
included, both calls succeed and it ends with the mask there was; and the signals that can be
delivered in it are those that were not blocked before and are not in its set, or that nothing
blocks. -/
theorem critical_section {p : Process} (hlawful : p.Lawful) {set old : Addr} (hset : set ≠ 0)
    (hold : old ≠ 0) {kept : Set Addr} :
    (∀ inner r, Sheltered (kept ∪ {x | InWord old x}) (sigprocmask 0 set old p).2 inner r →
      (sigprocmask 0 set old p).1 = 0 ∧ (sigprocmask 2 old 0 r).1 = 0 ∧
        (sigprocmask 2 old 0 r).2.blocked = p.blocked) ∧
    ∀ sig, 1 ≤ sig ∧ sig ≤ 64 →
      ((∃ inner r, Sheltered (kept ∪ {x | InWord old x}) (sigprocmask 0 set old p).2 inner r ∧
          sig ∈ inner) ↔
        ¬ InSet p.blocked sig ∧ (InSet (readWord p.cpu.mem set) sig → InSet unblockable sig)) := by
  rw [sigprocmask_begin hset hold]
  refine ⟨fun inner r hrun => ?_, fun sig hsig => ?_⟩
  · rw [sigprocmask_end hold]
    exact ⟨rfl, rfl, blocked_end hlawful (hrun.restores (lawful_begin hlawful _)).2⟩
  · have hopen : ¬ InSet (p.blocked ||| (readWord p.cpu.mem set &&& ~~~unblockable)) sig ↔
        ¬ InSet p.blocked sig ∧ (InSet (readWord p.cpu.mem set) sig → InSet unblockable sig) := by
      rw [inSet_or, inSet_and_not, not_or, not_and, not_not]
    rw [← hopen]
    constructor
    · rintro ⟨inner, r, hrun, hmem⟩ hblocked
      exact hrun.not_delivered (lawful_begin hlawful _) hblocked hmem
    · intro hno
      -- it arrives at once, and its handler does nothing
      refine ⟨_, _, .handler sig hsig 0 _ _ hno (fun _ _ => rfl) (.done _ _) (fun _ _ => rfl) (.done _ _),
        List.mem_cons_self⟩

namespace Sample

/-- A process that has `SIGALRM` in a set and blocks nothing. -/
def alarmed : Process where
  cpu := { caller with mem := writeWord (fun _ => 0) 0x6000 (sigmask 14) }
  blocked := 0
  errno := 0

theorem set_alarmed : readWord alarmed.cpu.mem 0x6000 = sigmask 14 := readWord_writeWord _ _ _

end Sample

/-- In the section `SIGALRM` cannot be delivered, and `SIGINT` can. -/
theorem critical_section_alarmed :
    (¬ ∃ inner r, Sheltered (∅ ∪ {x | InWord 0x6008 x})
        (sigprocmask 0 0x6000 0x6008 Sample.alarmed).2 inner r ∧ 14 ∈ inner) ∧
      ∃ inner r, Sheltered (∅ ∪ {x | InWord 0x6008 x})
        (sigprocmask 0 0x6000 0x6008 Sample.alarmed).2 inner r ∧ 2 ∈ inner := by
  have hlawful : Sample.alarmed.Lawful := by
    show (0 : SigSet) &&& unblockable = 0
    decide
  have hset : (0x6000 : Addr) ≠ 0 := by decide
  have hold : (0x6008 : Addr) ≠ 0 := by decide
  obtain ⟨-, hdelivered⟩ := @critical_section _ hlawful _ _ hset hold ∅
  rw [Sample.set_alarmed] at hdelivered
  refine ⟨fun h => ?_, (hdelivered 2 (by decide)).2 ⟨?_, by decide⟩⟩
  · have hblocked := ((hdelivered 14 (by decide)).1 h).2
    exact absurd (hblocked (by decide)) (by decide)
  · exact show ¬ InSet 0 2 by decide

end Libmini
