import UnixProgramming.Libmini.Sigaction

/-!
# Sets of signals

A set of signals is a word in memory with one bit for each signal.  Two calls
change a bit of it, and a third tests one.  All of them turn a null set and a
number that is not of a signal away.

* `sigismember`, `sigaddset`, `sigdelset` — the three calls.
* `getLsbD_sigmaskOf` — the mask of a signal is its own bit.
* `SetCall.bit_call`, `bit_runCalls` — what one call does to a bit, and what any
  number of calls do: the last that names the signal decides.
* `sigset_calls` — the set as its callers see it.
-/

namespace Libmini

open ByteMemory X86

/-- Write a word of the memory. -/
def Process.store (p : Process) (a : Addr) (v : Word) : Process := { p with cpu := p.cpu.store a v }

@[simp] theorem Process.store_mem (p : Process) (a : Addr) (v : Word) :
    (p.store a v).cpu.mem = writeWord p.cpu.mem a v := rfl

/-- `__sigmask(sig)`; the remainder is taken by an `unsigned long`. -/
def sigmaskOf (sig : BitVec 32) : SigSet := 1#64 <<< ((sig - 1).signExtend 64 % 64#64)

/-- What every call refuses: a null set, or a number that is not of a signal. -/
def Refused (set : Addr) (sig : BitVec 32) : Prop := set = 0 ∨ sig.toInt ≤ 0 ∨ sig.toInt ≥ 32

instance (set : Addr) (sig : BitVec 32) : Decidable (Refused set sig) :=
  inferInstanceAs (Decidable (_ ∨ _))

/-- `sigismember(set, sig)`. -/
def sigismember (set : Addr) (sig : BitVec 32) (p : Process) : Int × Process :=
  if Refused set sig then wrapperRetval (-einval) p
  else (if readWord p.cpu.mem set &&& sigmaskOf sig = 0 then 0 else 1, p)

/-- `sigaddset(set, sig)`. -/
def sigaddset (set : Addr) (sig : BitVec 32) (p : Process) : Int × Process :=
  if Refused set sig then wrapperRetval (-einval) p
  else wrapperRetval 0 (p.store set (readWord p.cpu.mem set ||| sigmaskOf sig))

/-- `sigdelset(set, sig)`. -/
def sigdelset (set : Addr) (sig : BitVec 32) (p : Process) : Int × Process :=
  if Refused set sig then wrapperRetval (-einval) p
  else wrapperRetval 0 (p.store set (readWord p.cpu.mem set &&& ~~~sigmaskOf sig))

/-! ## The mask of a signal -/

/-- The number of a signal, as a natural number. -/
theorem toInt_signal {sig : BitVec 32} (h1 : 1 ≤ sig.toInt) (h31 : sig.toInt ≤ 31) :
    sig.toInt = sig.toNat ∧ 1 ≤ sig.toNat ∧ sig.toNat ≤ 31 := by
  rw [BitVec.toInt_eq_toNat_cond] at h1 h31 ⊢
  split at h1 <;> omega

/-- The remainder does nothing to the number of a signal. -/
theorem sigmaskOf_eq_sigmask {sig : BitVec 32} (h1 : 1 ≤ sig.toInt) (h31 : sig.toInt ≤ 31) :
    sigmaskOf sig = sigmask sig.toNat := by
  obtain ⟨-, hlow, hhigh⟩ := toInt_signal h1 h31
  have hsub : (sig - 1).toNat = sig.toNat - 1 := by bv_omega
  have hpos : (sig - 1).msb = false := by
    rw [BitVec.msb_eq_false_iff_two_mul_lt, hsub]
    omega
  have hshift : ((sig - 1).signExtend 64 % 64#64).toNat = sig.toNat - 1 := by
    rw [BitVec.toNat_umod, BitVec.signExtend_eq_setWidth_of_msb_false hpos,
      BitVec.toNat_setWidth_of_le (by norm_num), hsub]
    exact Nat.mod_eq_of_lt (by simp; omega)
  rw [sigmaskOf, BitVec.shiftLeft_eq', hshift, sigmask]

/-- The mask of a signal is one bit, its own. -/
theorem getLsbD_sigmask {sig : Nat} (h1 : 1 ≤ sig) (h64 : sig ≤ 64) (b : Nat) :
    (sigmask sig).getLsbD b = decide (b + 1 = sig) := by
  rw [sigmask, ← BitVec.twoPow_eq, BitVec.getLsbD_twoPow]
  by_cases hb : b + 1 = sig
  · simp [show sig - 1 = b by omega, hb]
    omega
  · simp [hb]
    omega

theorem getLsbD_sigmaskOf {sig : BitVec 32} (h1 : 1 ≤ sig.toInt) (h31 : sig.toInt ≤ 31) (b : Nat) :
    (sigmaskOf sig).getLsbD b = decide (((b : Int) + 1) = sig.toInt) := by
  obtain ⟨heq, hlow, hhigh⟩ := toInt_signal h1 h31
  rw [sigmaskOf_eq_sigmask h1 h31, getLsbD_sigmask hlow (by omega), heq]
  congr 1
  apply propext
  omega

/-- A test with the mask is a test of the bit. -/
theorem and_sigmaskOf_eq_zero {sig : BitVec 32} (h1 : 1 ≤ sig.toInt) (h31 : sig.toInt ≤ 31)
    (w : Word) : w &&& sigmaskOf sig = 0 ↔ w.getLsbD (sig.toNat - 1) = false := by
  obtain ⟨heq, hlow, hhigh⟩ := toInt_signal h1 h31
  constructor
  · intro h
    have hbit := congrArg (fun v : Word => v.getLsbD (sig.toNat - 1)) h
    simp only [BitVec.getLsbD_and, getLsbD_sigmaskOf h1 h31] at hbit
    rw [decide_eq_true (by omega), Bool.and_true] at hbit
    simpa using hbit
  · intro h
    apply BitVec.eq_of_getLsbD_eq
    intro b hb
    rw [BitVec.getLsbD_and, getLsbD_sigmaskOf h1 h31]
    by_cases hown : ((b : Int) + 1) = sig.toInt
    · rw [show b = sig.toNat - 1 by omega, h]
      simp
    · simp [hown]

/-! ## Sequences of calls -/

/-- A call that changes a set. -/
inductive SetCall where
  | add (sig : BitVec 32)
  | del (sig : BitVec 32)
  deriving DecidableEq

/-- The number a call names. -/
def SetCall.sig : SetCall → BitVec 32
  | .add sig => sig
  | .del sig => sig

/-- Whether a call puts a signal in. -/
def SetCall.adds : SetCall → Bool
  | .add _ => true
  | .del _ => false

/-- A call on the set at `set`. -/
def SetCall.call (set : Addr) (p : Process) : SetCall → Int × Process
  | .add sig => sigaddset set sig p
  | .del sig => sigdelset set sig p

/-- The calls, one after another. -/
def runCalls (set : Addr) (calls : List SetCall) (p : Process) : Process :=
  calls.foldl (fun p c => (c.call set p).2) p

/-- The last of the calls that names a signal. -/
def lastNaming (k : BitVec 32) (calls : List SetCall) : Option SetCall :=
  (calls.filter fun c => c.sig = k).getLast?

/-- A refused call says so and changes nothing. -/
theorem SetCall.call_of_refused {set : Addr} {c : SetCall} (h : Refused set c.sig) (p : Process) :
    c.call set p = (-1, { p with errno := einval }) := by
  cases c with
  | add sig => exact if_pos h
  | del sig => exact if_pos h

/-- Any other call writes the set. -/
theorem SetCall.call_of_not_refused {set : Addr} {c : SetCall} (h : ¬ Refused set c.sig)
    (p : Process) :
    (c.call set p).2.cpu.mem = writeWord p.cpu.mem set
      (if c.adds then readWord p.cpu.mem set ||| sigmaskOf c.sig
        else readWord p.cpu.mem set &&& ~~~sigmaskOf c.sig) := by
  cases c with
  | add sig =>
      have hsig : ¬ Refused set sig := h
      rw [SetCall.call, sigaddset, if_neg hsig]
      rfl
  | del sig =>
      have hsig : ¬ Refused set sig := h
      rw [SetCall.call, sigdelset, if_neg hsig]
      rfl

theorem bounds_of_not_refused {set : Addr} {sig : BitVec 32} (h : ¬ Refused set sig) :
    1 ≤ sig.toInt ∧ sig.toInt ≤ 31 := by
  simp only [Refused, not_or, not_le, ge_iff_le] at h
  omega

/-- What a call does to one bit: its own becomes what it says, the others stay. -/
theorem SetCall.bit_call (set : Addr) (c : SetCall) (p : Process) {b : Nat} (hb : b < 64) :
    (readWord (c.call set p).2.cpu.mem set).getLsbD b =
      if ¬ Refused set c.sig ∧ ((b : Int) + 1) = c.sig.toInt then c.adds
      else (readWord p.cpu.mem set).getLsbD b := by
  by_cases hrefused : Refused set c.sig
  · rw [SetCall.call_of_refused hrefused, if_neg (fun h => h.1 hrefused)]
  · obtain ⟨h1, h31⟩ := bounds_of_not_refused hrefused
    have hmask := getLsbD_sigmaskOf h1 h31 b
    rw [SetCall.call_of_not_refused hrefused, readWord_writeWord]
    by_cases hown : ((b : Int) + 1) = c.sig.toInt
    · have hnamed : ¬ Refused set c.sig ∧ ((b : Int) + 1) = c.sig.toInt := ⟨hrefused, hown⟩
      rw [if_pos hnamed]
      rw [decide_eq_true hown] at hmask
      cases c.adds with
      | true => rw [if_pos rfl, BitVec.getLsbD_or, hmask, Bool.or_true]
      | false =>
          rw [if_neg (by decide), BitVec.getLsbD_and, BitVec.getLsbD_not, hmask]
          simp
    · have hother : ¬ (¬ Refused set c.sig ∧ ((b : Int) + 1) = c.sig.toInt) := fun h => hown h.2
      rw [if_neg hother]
      rw [decide_eq_false hown] at hmask
      cases c.adds with
      | true => rw [if_pos rfl, BitVec.getLsbD_or, hmask, Bool.or_false]
      | false =>
          rw [if_neg (by decide), BitVec.getLsbD_and, BitVec.getLsbD_not, hmask, decide_eq_true hb]
          simp

/-- After any number of calls a bit is what the last call that names it says. -/
theorem bit_runCalls {set : Addr} (hset : set ≠ 0) (calls : List SetCall) (p : Process)
    {k : BitVec 32} (h1 : 1 ≤ k.toInt) (h31 : k.toInt ≤ 31) :
    (readWord (runCalls set calls p).cpu.mem set).getLsbD (k.toNat - 1) =
      match lastNaming k calls with
      | some c => c.adds
      | none => (readWord p.cpu.mem set).getLsbD (k.toNat - 1) := by
  obtain ⟨heq, hlow, hhigh⟩ := toInt_signal h1 h31
  induction calls using List.reverseRecOn with
  | nil => rfl
  | append_singleton calls c ih =>
      rw [runCalls, List.foldl_append, List.foldl_cons, List.foldl_nil,
        SetCall.bit_call set c _ (by omega)]
      by_cases hk : c.sig = k
      · have hlast : lastNaming k (calls ++ [c]) = some c := by simp [lastNaming, hk]
        have hgood : ¬ Refused set c.sig := by
          rw [hk, Refused]
          simp only [hset, false_or]
          omega
        rw [hlast, if_pos ⟨hgood, by rw [hk]; omega⟩]
      · have hlast : lastNaming k (calls ++ [c]) = lastNaming k calls := by simp [lastNaming, hk]
        have hother : ¬ (((k.toNat - 1 : Nat) : Int) + 1) = c.sig.toInt := by
          intro h
          exact hk (BitVec.eq_of_toInt_eq (by omega))
        rw [hlast, if_neg (fun h => hother h.2)]
        exact ih

/-- A bit that no call names is as it was. -/
theorem bit_runCalls_of_unnamed {set : Addr} (calls : List SetCall) (p : Process) {b : Nat}
    (hb : b < 64) (h : ∀ c ∈ calls, c.sig.toInt ≤ 31 → c.sig.toInt ≠ (b : Int) + 1) :
    (readWord (runCalls set calls p).cpu.mem set).getLsbD b =
      (readWord p.cpu.mem set).getLsbD b := by
  induction calls generalizing p with
  | nil => rfl
  | cons c calls ih =>
      have hrest := ih (c.call set p).2 fun d hd => h d (List.mem_cons_of_mem _ hd)
      rw [runCalls, List.foldl_cons]
      refine hrest.trans ?_
      rw [SetCall.bit_call set c p hb]
      apply if_neg
      rintro ⟨hgood, hown⟩
      exact h c List.mem_cons_self (bounds_of_not_refused hgood).2 hown.symm

/-- The calls leave everything but the set alone. -/
theorem runCalls_of_not_inWord {set x : Addr} (calls : List SetCall) (p : Process)
    (hx : ¬ InWord set x) : (runCalls set calls p).cpu.mem x = p.cpu.mem x := by
  induction calls generalizing p with
  | nil => rfl
  | cons c calls ih =>
      rw [runCalls, List.foldl_cons]
      refine (ih (c.call set p).2).trans ?_
      by_cases hrefused : Refused set c.sig
      · rw [SetCall.call_of_refused hrefused]
      · rw [SetCall.call_of_not_refused hrefused, writeWord_of_not_inWord hx]

theorem sigismember_of_refused {set : Addr} {sig : BitVec 32} (h : Refused set sig) (p : Process) :
    sigismember set sig p = (-1, { p with errno := einval }) := if_pos h

theorem sigismember_signal {set : Addr} (hset : set ≠ 0) {k : BitVec 32} (h1 : 1 ≤ k.toInt)
    (h31 : k.toInt ≤ 31) (p : Process) :
    sigismember set k p =
      (if (readWord p.cpu.mem set).getLsbD (k.toNat - 1) = true then 1 else 0, p) := by
  have hgood : ¬ Refused set k := by
    simp only [Refused, hset, false_or]
    omega
  rw [sigismember, if_neg hgood]
  by_cases hbit : (readWord p.cpu.mem set).getLsbD (k.toNat - 1) = true
  · rw [if_neg (by rw [and_sigmaskOf_eq_zero h1 h31]; simp [hbit]), if_pos hbit]
  · rw [if_pos (by rw [and_sigmaskOf_eq_zero h1 h31]; simpa using hbit), if_neg hbit]

/-- Sets of signals are sets.  After any calls on a set, `sigismember` tells whether
the last call that named the signal put it in, or, if none did, whether it was
in at first; the bits of the signals no call named and those from 31 on are as
they were, and so is the rest of the memory.  A call on a null set, or with a
number that is not of a signal, returns -1 with `errno` set to `EINVAL` and
changes nothing. -/
theorem sigset_calls (set : Addr) (calls : List SetCall) (p : Process) :
    (set ≠ 0 → ∀ k : BitVec 32, 1 ≤ k.toInt → k.toInt ≤ 31 →
      (sigismember set k (runCalls set calls p)).1 =
        match lastNaming k calls with
        | some c => if c.adds then 1 else 0
        | none => if (readWord p.cpu.mem set).getLsbD (k.toNat - 1) then 1 else 0) ∧
    (∀ b : Nat, b < 64 → (31 ≤ b ∨ ∀ c ∈ calls, c.sig.toInt ≠ (b : Int) + 1) →
      (readWord (runCalls set calls p).cpu.mem set).getLsbD b =
        (readWord p.cpu.mem set).getLsbD b) ∧
    (∀ x, ¬ InWord set x → (runCalls set calls p).cpu.mem x = p.cpu.mem x) ∧
    (∀ (a : Addr) (sig : BitVec 32) (q : Process), a = 0 ∨ sig.toInt ≤ 0 ∨ sig.toInt ≥ 32 →
      sigaddset a sig q = (-1, { q with errno := einval }) ∧
      sigdelset a sig q = (-1, { q with errno := einval }) ∧
      sigismember a sig q = (-1, { q with errno := einval })) := by
  refine ⟨?_, ?_, fun x hx => runCalls_of_not_inWord calls p hx, ?_⟩
  · intro hset k h1 h31
    rw [sigismember_signal hset h1 h31, bit_runCalls hset calls p h1 h31]
    cases lastNaming k calls with
    | some c => rfl
    | none => rfl
  · intro b hb hfree
    apply bit_runCalls_of_unnamed calls p hb
    intro c hc h31
    rcases hfree with hhigh | hunnamed
    · omega
    · exact hunnamed c hc
  · intro a sig q h
    have hadd := SetCall.call_of_refused (c := .add sig) h q
    have hdel := SetCall.call_of_refused (c := .del sig) h q
    exact ⟨hadd, hdel, sigismember_of_refused h q⟩

/-- `SIGALRM` is put in and stays, `SIGKILL` is put in and taken out, and there is
no signal 40. -/
theorem sigset_calls_alarm :
    let q := runCalls 0x6000 [.add 9, .add 14, .add 40, .del 9] Sample.unblocked
    (sigismember 0x6000 14 q).1 = 1 ∧ (sigismember 0x6000 9 q).1 = 0 ∧
      (sigaddset 0x6000 40 q).1 = -1 := by
  obtain ⟨hmember, -, -, hrefused⟩ :=
    sigset_calls 0x6000 [.add 9, .add 14, .add 40, .del 9] Sample.unblocked
  have hset : (0x6000 : Addr) ≠ 0 := by decide
  refine ⟨hmember hset 14 (by decide) (by decide), hmember hset 9 (by decide) (by decide), ?_⟩
  rw [(hrefused 0x6000 40 _ (Or.inr (Or.inr (by decide)))).1]

end Libmini
