import Mathlib

/-!
# Byte-addressed memory with 64-bit words

A memory maps every 64-bit address to a byte.  `readWord` and `writeWord` move
eight bytes at once in little-endian order, and addresses wrap around at
`2 ^ 64`, so nothing here needs a bound on an address.

* `byteOf_readWord`, `writeWord_at` — a word is its eight bytes, both ways.
* `readWord_writeWord`, `writeWord_readWord` — the two operations undo each other.
* `readWord_congr`, `writeWord_of_not_inWord` — frame laws: a read depends only on
  its own window, and a write leaves what is outside it alone.
* `readWord_storeWords`, `storeWords_of_not_inBlock` — the same for words stored
  one after another.
* `byteOf_withLowByte` — replacing the low byte by masks touches that byte only,
  so writing such a word back is a one-byte update (`writeWord_withLowByte`).
-/

namespace ByteMemory

/-- An address; arithmetic on it wraps around. -/
abbrev Addr := BitVec 64

/-- A machine word. -/
abbrev Word := BitVec 64

/-- A byte. -/
abbrev Byte := BitVec 8

/-- The contents of an address space. -/
abbrev Memory := Addr → Byte

/-! ## Words and their bytes -/

/-- The `k`-th byte of a word, the low byte first. -/
def byteOf (v : Word) (k : Nat) : Byte := v.extractLsb' (8 * k) 8

/-- The eight bytes of a word, the low byte first. -/
def bytesOf (v : Word) : List Byte := (List.range 8).map (byteOf v)

theorem getLsbD_byteOf (v : Word) (k i : Nat) :
    (byteOf v k).getLsbD i = (decide (i < 8) && v.getLsbD (8 * k + i)) := by
  simp [byteOf, BitVec.getLsbD_extractLsb']

/-- Two words with the same bytes are equal. -/
theorem word_ext {v w : Word} (h : ∀ k, k < 8 → byteOf v k = byteOf w k) : v = w := by
  apply BitVec.eq_of_getLsbD_eq
  intro i hi
  have hb := congrArg (fun b : Byte => b.getLsbD (i % 8)) (h (i / 8) (by omega))
  simp only [getLsbD_byteOf, Nat.div_add_mod, Nat.mod_lt i (by norm_num : 8 > 0), decide_true,
    Bool.true_and] at hb
  exact hb

theorem length_bytesOf (v : Word) : (bytesOf v).length = 8 := by simp [bytesOf]

/-- The first `n` bytes of a word. -/
theorem take_bytesOf (v : Word) {n : Nat} (hn : n ≤ 8) :
    (bytesOf v).take n = (List.range n).map (byteOf v) := by
  rw [bytesOf, ← List.map_take, List.take_range, Nat.min_eq_left hn]

/-- Words with the same first bytes. -/
theorem take_bytesOf_congr {v w : Word} {n : Nat} (hn : n ≤ 8)
    (h : ∀ k, k < n → byteOf v k = byteOf w k) : (bytesOf v).take n = (bytesOf w).take n := by
  rw [take_bytesOf v hn, take_bytesOf w hn]
  exact List.map_congr_left fun k hk => h k (List.mem_range.1 hk)

/-! ## Reading and writing -/

/-- The address `k` bytes after `a`. -/
abbrev offset (a : Addr) (k : Nat) : Addr := a + BitVec.ofNat 64 k

/-- The little-endian word at `a`. -/
def readWord (m : Memory) (a : Addr) : Word :=
  m (a + 7) ++ m (a + 6) ++ m (a + 5) ++ m (a + 4) ++ m (a + 3) ++ m (a + 2) ++ m (a + 1) ++ m a

/-- `x` is one of the eight addresses a word at `a` occupies. -/
def InWord (a x : Addr) : Prop := (x - a).toNat < 8

instance (a x : Addr) : Decidable (InWord a x) := inferInstanceAs (Decidable (_ < _))

/-- Store a word at `a`. -/
def writeWord (m : Memory) (a : Addr) (v : Word) : Memory :=
  fun x => if InWord a x then byteOf v (x - a).toNat else m x

theorem sub_offset_of_lt (a : Addr) {k : Nat} (hk : k < 2 ^ 64) : (offset a k - a).toNat = k := by
  rw [offset, BitVec.add_comm, BitVec.add_sub_cancel, BitVec.toNat_ofNat, Nat.mod_eq_of_lt hk]

theorem sub_offset (a : Addr) {k : Nat} (hk : k < 8) : (offset a k - a).toNat = k :=
  sub_offset_of_lt a (by omega)

/-- An address is as far from `a` as it is. -/
theorem offset_sub (a x : Addr) : offset a (x - a).toNat = x := by
  rw [offset, BitVec.ofNat_toNat, BitVec.setWidth_eq, BitVec.add_comm, BitVec.sub_add_cancel]

theorem inWord_offset (a : Addr) {k : Nat} (hk : k < 8) : InWord a (offset a k) := by
  rw [InWord, sub_offset a hk]
  exact hk

theorem inWord_self (a : Addr) : InWord a a := by simp [InWord]

/-- The addresses of a word are the eight offsets from its start. -/
theorem inWord_iff {a x : Addr} : InWord a x ↔ ∃ k, k < 8 ∧ x = offset a k := by
  constructor
  · intro h
    exact ⟨(x - a).toNat, h, (offset_sub a x).symm⟩
  · rintro ⟨k, hk, rfl⟩
    exact inWord_offset a hk

theorem offset_zero (a : Addr) : offset a 0 = a := by simp [offset]

theorem offset_inj (a : Addr) {j k : Nat} (hj : j < 8) (hk : k < 8)
    (h : offset a j = offset a k) : j = k := by
  rw [← sub_offset a hj, ← sub_offset a hk, h]

theorem byteOf_readWord (m : Memory) (a : Addr) {k : Nat} (hk : k < 8) :
    byteOf (readWord m a) k = m (offset a k) := by
  apply BitVec.eq_of_getLsbD_eq
  intro i hi
  rw [getLsbD_byteOf, readWord]
  simp only [BitVec.getLsbD_append]
  interval_cases k <;> simp [hi] <;> grind

theorem byteOf_readWord_zero (m : Memory) (a : Addr) : byteOf (readWord m a) 0 = m a := by
  rw [byteOf_readWord m a (by norm_num), offset_zero]

theorem writeWord_at (m : Memory) (a : Addr) (v : Word) {k : Nat} (hk : k < 8) :
    writeWord m a v (offset a k) = byteOf v k := by
  rw [writeWord, if_pos (inWord_offset a hk), sub_offset a hk]

theorem writeWord_of_not_inWord {m : Memory} {a x : Addr} {v : Word} (h : ¬ InWord a x) :
    writeWord m a v x = m x := if_neg h

/-- A read depends only on the eight bytes of its window. -/
theorem readWord_congr {m m' : Memory} {a : Addr} (h : ∀ x, InWord a x → m' x = m x) :
    readWord m' a = readWord m a := by
  apply word_ext
  intro k hk
  rw [byteOf_readWord m' a hk, byteOf_readWord m a hk]
  exact h _ (inWord_offset a hk)

theorem readWord_writeWord (m : Memory) (a : Addr) (v : Word) :
    readWord (writeWord m a v) a = v := by
  apply word_ext
  intro k hk
  rw [byteOf_readWord _ a hk, writeWord_at m a v hk]

/-- Words that begin eight bytes apart or more do not overlap. -/
theorem not_inWord_of_apart {a b : Addr} (hab : 8 ≤ (a - b).toNat) (hba : 8 ≤ (b - a).toNat)
    {x : Addr} (hx : InWord b x) : ¬ InWord a x := by
  simp only [InWord] at hx ⊢
  bv_omega

theorem readWord_writeWord_of_apart {m : Memory} {a b : Addr} {v : Word}
    (hab : 8 ≤ (a - b).toNat) (hba : 8 ≤ (b - a).toNat) :
    readWord (writeWord m a v) b = readWord m b :=
  readWord_congr fun _ hx => writeWord_of_not_inWord (not_inWord_of_apart hab hba hx)

/-- Writing a word read from another memory copies its eight bytes. -/
theorem writeWord_readWord_apply (m m' : Memory) (a x : Addr) :
    writeWord m' a (readWord m a) x = if InWord a x then m x else m' x := by
  by_cases hx : InWord a x
  · obtain ⟨k, hk, rfl⟩ := inWord_iff.1 hx
    rw [if_pos hx, writeWord_at m' a _ hk, byteOf_readWord m a hk]
  · rw [if_neg hx, writeWord_of_not_inWord hx]

theorem writeWord_readWord (m : Memory) (a : Addr) : writeWord m a (readWord m a) = m := by
  funext x
  rw [writeWord_readWord_apply, ite_self]

/-! ## Consecutive words -/

/-- Store words one after another from `a` on. -/
def storeWords (m : Memory) (a : Addr) : List Word → Memory
  | [] => m
  | v :: vs => storeWords (writeWord m a v) (a + 8) vs

/-- `x` is one of the `n` addresses from `a` on. -/
def InBlock (a : Addr) (n : Nat) (x : Addr) : Prop := (x - a).toNat < n

/-- A block begins with its first word and goes on eight bytes further. -/
theorem inBlock_succ {a x : Addr} {n : Nat} (hn : n + 8 ≤ 2 ^ 64) :
    InBlock a (n + 8) x ↔ InWord a x ∨ InBlock (a + 8) n x := by
  rw [InBlock, InWord, InBlock]
  bv_omega

/-- The first word of a block is not in the rest of it. -/
theorem not_inBlock_of_inWord {a x : Addr} {n : Nat} (hn : n + 8 ≤ 2 ^ 64) (h : InWord a x) :
    ¬ InBlock (a + 8) n x := by
  rw [InWord] at h
  rw [InBlock]
  bv_omega

theorem InBlock.mono {a x : Addr} {k n : Nat} (h : InBlock a k x) (hkn : k ≤ n) : InBlock a n x :=
  Nat.lt_of_lt_of_le h hkn

/-- A word inside a block. -/
theorem inBlock_of_inWord {a x : Addr} {k n : Nat} (hx : InWord (offset a k) x) (hk : k + 8 ≤ n)
    (hn : n ≤ 2 ^ 64) : InBlock a n x := by
  obtain ⟨j, hj, rfl⟩ := inWord_iff.1 hx
  rw [InBlock]
  bv_omega

theorem storeWords_of_not_inBlock {m : Memory} {a x : Addr} {vs : List Word}
    (hlen : 8 * vs.length ≤ 2 ^ 64) (h : ¬ InBlock a (8 * vs.length) x) :
    storeWords m a vs x = m x := by
  induction vs generalizing m a with
  | nil => rfl
  | cons v vs ih =>
      rw [List.length_cons, Nat.mul_succ] at hlen h
      rw [inBlock_succ hlen, not_or] at h
      rw [storeWords, ih (by omega) h.2, writeWord_of_not_inWord h.1]

/-- A word outside the block is still there. -/
theorem readWord_storeWords_of_apart {m : Memory} {a b : Addr} {vs : List Word}
    (hlen : 8 * vs.length ≤ 2 ^ 64) (h : ∀ x, InWord b x → ¬ InBlock a (8 * vs.length) x) :
    readWord (storeWords m a vs) b = readWord m b :=
  readWord_congr fun x hx => storeWords_of_not_inBlock hlen (h x hx)

/-- Each stored word is read back. -/
theorem readWord_storeWords (m : Memory) (a : Addr) {vs : List Word}
    (hlen : 8 * vs.length ≤ 2 ^ 64) {i : Nat} {v : Word} (hi : vs[i]? = some v) :
    readWord (storeWords m a vs) (offset a (8 * i)) = v := by
  induction vs generalizing m a i with
  | nil => simp at hi
  | cons w vs ih =>
      rw [List.length_cons, Nat.mul_succ] at hlen
      cases i with
      | zero =>
          simp only [List.getElem?_cons_zero, Option.some.injEq] at hi
          subst hi
          rw [Nat.mul_zero, offset_zero, storeWords]
          have hframe : ∀ x, InWord a x →
              storeWords (writeWord m a w) (a + 8) vs x = writeWord m a w x := fun x hx =>
            storeWords_of_not_inBlock (by omega) (not_inBlock_of_inWord hlen hx)
          rw [readWord_congr hframe, readWord_writeWord]
      | succ i =>
          have hnext : offset a (8 * (i + 1)) = offset (a + 8) (8 * i) := by
            simp only [offset, Nat.mul_succ, BitVec.ofNat_add]
            rw [BitVec.add_assoc, BitVec.add_comm (BitVec.ofNat 64 (8 * i))]
            rfl
          rw [hnext, storeWords]
          exact ih _ _ (by omega) (by simpa using hi)

/-! ## Replacing the low byte -/

/-- `v` with its low byte taken from `b`, written with the two masks. -/
def withLowByte (v b : Word) : Word := (v &&& 0xffffffffffffff00#64) ||| (b &&& 0x00000000000000ff#64)

theorem getLsbD_lowMask (j : Nat) : (0xff#64).getLsbD j = decide (j < 8) := by
  rw [show (0xff#64) = (BitVec.allOnes 8).setWidth 64 from rfl, BitVec.getLsbD_setWidth,
    BitVec.getLsbD_allOnes]
  simp only [Bool.and_eq_right_iff_imp, decide_eq_true_eq]
  omega

theorem getLsbD_highMask {j : Nat} (h : j < 64) :
    (0xffffffffffffff00#64).getLsbD j = decide (8 ≤ j) := by
  rw [show (0xffffffffffffff00#64) = ~~~0xff#64 from rfl, BitVec.getLsbD_not, getLsbD_lowMask]
  by_cases hj : j < 8
  · simp [h, hj]
  · simp [h, hj, Nat.le_of_not_lt hj]

theorem byteOf_withLowByte (v b : Word) {k : Nat} (hk : k < 8) :
    byteOf (withLowByte v b) k = if k = 0 then byteOf b 0 else byteOf v k := by
  apply BitVec.eq_of_getLsbD_eq
  intro i hi
  have hmask : (0xffffffffffffff00#64).getLsbD (8 * k + i) = decide (8 ≤ 8 * k + i) :=
    getLsbD_highMask (by omega)
  have hlow : (0xff#64).getLsbD (8 * k + i) = decide (8 * k + i < 8) := getLsbD_lowMask _
  rw [getLsbD_byteOf, withLowByte, BitVec.getLsbD_or, BitVec.getLsbD_and, BitVec.getLsbD_and,
    hmask, hlow]
  split
  · subst k
    rw [getLsbD_byteOf]
    simp [hi, show ¬ 8 ≤ i by omega]
  · rw [getLsbD_byteOf]
    simp [hi, show 8 ≤ 8 * k + i by omega, show ¬ 8 * k + i < 8 by omega]

/-- Reading a word, replacing its low byte and writing it back changes one byte. -/
theorem writeWord_withLowByte (m : Memory) (a : Addr) (b : Word) :
    writeWord m a (withLowByte (readWord m a) b) = Function.update m a (byteOf b 0) := by
  funext x
  by_cases hx : InWord a x
  · obtain ⟨k, hk, rfl⟩ := inWord_iff.1 hx
    rw [writeWord_at m a _ hk, byteOf_withLowByte _ b hk]
    by_cases h0 : k = 0
    · subst h0
      rw [if_pos rfl, offset_zero, Function.update_self]
    · have hne : offset a k ≠ a := by
        intro h
        exact h0 (offset_inj a hk (by norm_num) (by rw [h, offset_zero]))
      rw [if_neg h0, Function.update_of_ne hne, byteOf_readWord m a hk]
  · have hne : x ≠ a := by
      rintro rfl
      exact hx (inWord_self x)
    rw [writeWord_of_not_inWord hx, Function.update_of_ne hne]

end ByteMemory
