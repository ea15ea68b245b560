import UnixProgramming.Sdb.FileParsers

/-!
# Objects a file has been read into

`fread` stores what the file still has, so an object holds the bytes that were
obtained and, after them, bytes that nothing was stored into.  A parser goes on
exactly as long as it looks at the former.

* `stored` — an object with the bytes obtained, and `Stream.read_fresh`.
* `field_eq_ok_iff` — a field is read exactly when all its bytes were obtained.
* `matchesAt_eq_ok_iff` — a comparison ends at a difference or at the end of the
  pattern, and fails where the obtained bytes run out before.
* `read_bind`, `field_bind`, `matchesAt_bind` — when a parser goes on, and with what.
-/

namespace Sdb

open ByteMemory

/-! ## Results -/

section Bind

variable {ε α β : Type} {x : Except ε α} {f : α → Except ε β} {b : β}

theorem except_bind_eq_ok : (x >>= f) = .ok b ↔ ∃ a, x = .ok a ∧ f a = .ok b := by
  cases x with
  | error e =>
      constructor
      · intro h
        cases h
      · rintro ⟨a, ha, -⟩
        cases ha
  | ok a =>
      constructor
      · intro h
        exact ⟨a, rfl, h⟩
      · rintro ⟨a', ha, h⟩
        cases ha
        exact h

end Bind

/-! ## Bytes -/

/-- The bytes a read of `len` at `pos` obtains. -/
def obtained (file : List Byte) (pos len : Nat) : List Byte := (file.drop pos).take len

/-- A little-endian number. -/
def leNat : List Byte → Nat
  | [] => 0
  | b :: bs => b.toNat + 256 * leNat bs

/-- The number in the `len` bytes at `off`. -/
def numAt (bytes : List Byte) (off len : Nat) : Nat := leNat (obtained bytes off len)

/-- An object of `size` bytes into which `got` has been read. -/
def stored (got : List Byte) (size : Nat) : Buffer :=
  got.map some ++ List.replicate (size - got.length) none

theorem length_obtained (file : List Byte) (pos len : Nat) :
    (obtained file pos len).length = min len (file.length - pos) := by
  simp [obtained]

theorem obtained_succ {bytes : List Byte} {off : Nat} (len : Nat) (h : off < bytes.length) :
    obtained bytes off (len + 1) = bytes[off] :: obtained bytes (off + 1) len := by
  rw [obtained, List.drop_eq_getElem_cons h, List.take_succ_cons]
  rfl

/-! ## Reading into an object -/

/-- Where a stream stands after `fseek`: a negative offset is refused. -/
def seekTo (pos : Nat) (off : Word) : Nat := if off.toInt < 0 then pos else off.toNat

theorem Stream.seek_mk (file : List Byte) (pos : Nat) (off : Word) :
    Stream.seek ⟨file, pos⟩ off = ⟨file, seekTo pos off⟩ := by
  unfold Stream.seek seekTo
  split
  · rfl
  · rfl

/-- A read succeeds unless it obtains more than its object holds. -/
theorem Stream.read_fresh {file : List Byte} {pos n size : Nat} {r : Buffer × Stream} :
    Stream.read ⟨file, pos⟩ n (.fresh size) = .ok r ↔
      (obtained file pos n).length ≤ size ∧
        r = (stored (obtained file pos n) size, ⟨file, pos + (obtained file pos n).length⟩) := by
  unfold Stream.read
  by_cases h : size < (obtained file pos n).length
  · have hover : (Buffer.fresh size).length < ((file.drop pos).take n).length := by
      simpa [Buffer.fresh, obtained] using h
    rw [if_pos hover]
    constructor
    · intro heq
      cases heq
    · rintro ⟨hle, -⟩
      omega
  · have hfits : ¬ (Buffer.fresh size).length < ((file.drop pos).take n).length := by
      simpa [Buffer.fresh, obtained] using h
    rw [if_neg hfits, Except.ok.injEq, eq_comm]
    have hbuf : ((file.drop pos).take n).map some ++
        (Buffer.fresh size).drop ((file.drop pos).take n).length =
        stored (obtained file pos n) size := by
      rw [Buffer.fresh, List.drop_replicate]
      rfl
    simp only [hbuf]
    constructor
    · intro heq
      exact ⟨by omega, heq⟩
    · intro heq
      exact heq.2

/-! ## Looking at an object -/

section Stored

variable {got : List Byte} {size : Nat}

theorem byteAt_stored {i : Nat} (h : i < got.length) : (stored got size).byteAt i = .ok got[i] := by
  have hget : (stored got size)[i]? = some (some got[i]) := by
    rw [stored, List.getElem?_append_left (by simpa using h)]
    simp [h]
  rw [Buffer.byteAt, hget]

theorem byteAt_stored_of_le {i : Nat} (h : got.length ≤ i) (b : Byte) :
    (stored got size).byteAt i ≠ .ok b := by
  have hget : (stored got size)[i]? = none ∨ (stored got size)[i]? = some none := by
    rw [stored, List.getElem?_append_right (by simpa using h), List.getElem?_replicate]
    split
    · exact Or.inr rfl
    · exact Or.inl rfl
  rw [Buffer.byteAt]
  rcases hget with hget | hget
  · simp [hget]
  · simp [hget]

/-- A field is read exactly when all its bytes were obtained. -/
theorem field_eq_ok_iff {off len : Nat} (hlen : 0 < len) {v : Nat} :
    (stored got size).field off len = .ok v ↔ off + len ≤ got.length ∧ v = numAt got off len := by
  induction len generalizing off v with
  | zero => omega
  | succ len ih =>
      rw [Buffer.field, except_bind_eq_ok]
      by_cases hoff : off < got.length
      · simp only [byteAt_stored hoff, Except.ok.injEq, exists_eq_left', except_bind_eq_ok]
        rcases Nat.eq_zero_or_pos len with rfl | hpos
        · -- the last byte
          have hnum : numAt got off 1 = got[off].toNat + 256 * 0 := by
            rw [numAt, obtained_succ 0 hoff]
            rfl
          rw [hnum]
          constructor
          · rintro ⟨rest, hrest, heq⟩
            cases hrest
            cases heq
            exact ⟨by omega, rfl⟩
          · rintro ⟨-, rfl⟩
            exact ⟨0, rfl, rfl⟩
        · have hnum : numAt got off (len + 1) = got[off].toNat + 256 * numAt got (off + 1) len := by
            rw [numAt, obtained_succ len hoff]
            rfl
          rw [hnum]
          constructor
          · rintro ⟨rest, hrest, heq⟩
            obtain ⟨hle, rfl⟩ := (ih hpos).1 hrest
            cases heq
            exact ⟨by omega, rfl⟩
          · rintro ⟨hle, rfl⟩
            exact ⟨_, (ih hpos).2 ⟨by omega, rfl⟩, rfl⟩
      · constructor
        · rintro ⟨b, hb, -⟩
          exact absurd hb (byteAt_stored_of_le (by omega) b)
        · rintro ⟨hle, -⟩
          omega

/-- A comparison with a pattern ends with a match, or at a difference before the
obtained bytes run out. -/
theorem matchesAt_eq_ok_iff {i : Nat} {pat : List Byte} {b : Bool} :
    (stored got size).matchesAt i pat = .ok b ↔
      if pat <+: got.drop i then b = true else b = false ∧ ¬ got.drop i <+: pat := by
  induction pat generalizing i with
  | nil => simp [Buffer.matchesAt, eq_comm]
  | cons p ps ih =>
      rw [Buffer.matchesAt, except_bind_eq_ok]
      by_cases hi : i < got.length
      · simp only [byteAt_stored hi, Except.ok.injEq, exists_eq_left']
        rw [List.drop_eq_getElem_cons hi]
        by_cases hp : got[i] = p
        · subst hp
          simp only [if_true, ih, List.cons_prefix_cons, true_and]
        · have hno : ¬ (p :: ps <+: got[i] :: got.drop (i + 1)) := by
            rw [List.cons_prefix_cons]
            exact fun h => hp h.1.symm
          have hno' : ¬ (got[i] :: got.drop (i + 1) <+: p :: ps) := by
            rw [List.cons_prefix_cons]
            exact fun h => hp h.1
          simp only [if_neg hp, if_neg hno, hno', not_false_eq_true, and_true]
          constructor
          · intro h
            cases h
            rfl
          · rintro rfl
            rfl
      · have hnil : got.drop i = [] := List.drop_eq_nil_of_le (by omega)
        rw [hnil]
        constructor
        · rintro ⟨b', hb', -⟩
          exact absurd hb' (byteAt_stored_of_le (by omega) b')
        · intro h
          simp at h

/-! ## Going on -/

variable {α : Type} {r : α}

theorem read_bind {file : List Byte} {pos n : Nat}
    {k : Buffer × Stream → Except ParserFault α} :
    (Stream.read ⟨file, pos⟩ n (.fresh size) >>= k) = .ok r ↔
      (obtained file pos n).length ≤ size ∧
        k (stored (obtained file pos n) size, ⟨file, pos + (obtained file pos n).length⟩) = .ok r := by
  rw [except_bind_eq_ok]
  constructor
  · rintro ⟨a, ha, hk⟩
    obtain ⟨hle, rfl⟩ := Stream.read_fresh.1 ha
    exact ⟨hle, hk⟩
  · rintro ⟨hle, hk⟩
    exact ⟨_, Stream.read_fresh.2 ⟨hle, rfl⟩, hk⟩

theorem field_bind {off len : Nat} (hlen : 0 < len) {k : Nat → Except ParserFault α} :
    ((stored got size).field off len >>= k) = .ok r ↔
      off + len ≤ got.length ∧ k (numAt got off len) = .ok r := by
  rw [except_bind_eq_ok]
  constructor
  · rintro ⟨v, hv, hk⟩
    obtain ⟨hle, rfl⟩ := (field_eq_ok_iff hlen).1 hv
    exact ⟨hle, hk⟩
  · rintro ⟨hle, hk⟩
    exact ⟨_, (field_eq_ok_iff hlen).2 ⟨hle, rfl⟩, hk⟩

theorem matchesAt_bind {i : Nat} {pat : List Byte} {k : Bool → Except ParserFault α} :
    ((stored got size).matchesAt i pat >>= k) = .ok r ↔
      (pat <+: got.drop i ∧ k true = .ok r) ∨
        (¬ pat <+: got.drop i ∧ ¬ got.drop i <+: pat ∧ k false = .ok r) := by
  rw [except_bind_eq_ok]
  simp only [matchesAt_eq_ok_iff]
  by_cases hpat : pat <+: got.drop i
  · simp [hpat]
  · simp [hpat, and_assoc]

end Stored

end Sdb
