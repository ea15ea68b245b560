import Mathlib

/-!
# Text the way the C library reads it

Texts are lists of characters.  This file has the library routines the programs
share: the conversions of `strtol` and `atoi`, the tokens `strtok` yields, the
pieces in which `fgets` hands out a stream, and find-and-erase on strings.

* `strtol`, `atoi` — with the saturation of the one and the truncation of the other.
* `words`, with `words_cons_sep`, `words_of_no_sep` and `words_append_sep` — the
  words of a text, read off its front.
* `words_eq_runs` — these words are the maximal runs of the text.
* `fgetsPieces`, `fgetsPieces_full` — a line longer than the buffer comes in several pieces.
-/

namespace CString

/-- A text. -/
abbrev Str := List Char

/-! ## Numbers -/

/-- `isspace` in the C locale. -/
def isspace (c : Char) : Bool := decide (c = ' ' ∨ (9 ≤ c.toNat ∧ c.toNat ≤ 13))

/-- The value of a digit, letters counting from ten. -/
def digitVal (c : Char) : Option Nat :=
  if '0' ≤ c ∧ c ≤ '9' then some (c.toNat - '0'.toNat)
  else if 'a' ≤ c ∧ c ≤ 'z' then some (c.toNat - 'a'.toNat + 10)
  else if 'A' ≤ c ∧ c ≤ 'Z' then some (c.toNat - 'A'.toNat + 10)
  else none

/-- Is `c` a digit in this base? -/
def isDigit (base : Nat) (c : Char) : Bool :=
  match digitVal c with
  | some d => decide (d < base)
  | none => false

/-- The value of the longest run of digits the text starts with, onto `acc`. -/
def readDigits (base : Nat) : Nat → Str → Nat
  | acc, [] => acc
  | acc, c :: cs =>
      match digitVal c with
      | some d => if d < base then readDigits base (acc * base + d) cs else acc
      | none => acc

theorem readDigits_eq_foldl {base : Nat} {ds : Str} (h : ∀ c ∈ ds, isDigit base c = true)
    (acc : Nat) :
    readDigits base acc ds = ds.foldl (fun acc c => acc * base + (digitVal c).getD 0) acc := by
  induction ds generalizing acc with
  | nil => rfl
  | cons c ds ih =>
      have hc := h c List.mem_cons_self
      rw [readDigits, List.foldl_cons]
      unfold isDigit at hc
      cases hd : digitVal c with
      | none =>
          rw [hd] at hc
          cases hc
      | some k =>
          rw [hd, decide_eq_true_eq] at hc
          simp only [if_pos hc, Option.getD_some]
          exact ih (fun c hc => h c (List.mem_cons_of_mem _ hc)) _

/-- The base a number is read in, and the text after its prefix.  Base 0 takes
the base from the prefix; `0x` counts only before a hexadecimal digit. -/
def radix (base : Nat) (s : Str) : Nat × Str :=
  match s with
  | '0' :: x :: c :: t =>
      if (base = 0 ∨ base = 16) ∧ (x = 'x' ∨ x = 'X') ∧ isDigit 16 c = true then (16, c :: t)
      else if base = 0 then (8, s) else (base, s)
  | '0' :: _ => if base = 0 then (8, s) else (base, s)
  | _ => if base = 0 then (10, s) else (base, s)

/-- The sign of a number and the text after it. -/
def sign (s : Str) : Bool × Str :=
  match s with
  | '-' :: t => (true, t)
  | '+' :: t => (false, t)
  | _ => (false, s)

/-- `LONG_MAX` where a `long` has 64 bits. -/
def longMax : Int := 2 ^ 63 - 1

/-- `LONG_MIN` where a `long` has 64 bits. -/
def longMin : Int := -2 ^ 63

/-- `strtol(s, NULL, base)`: out of range values saturate. -/
def strtol (s : Str) (base : Nat) : Int :=
  let (neg, t) := sign (s.dropWhile isspace)
  let (b, u) := radix base t
  let v : Int := readDigits b 0 u
  if neg then max longMin (-v) else min longMax v

/-- `atoi(s)`: the low 32 bits of `strtol` in base ten. -/
def atoi (s : Str) : Int := (BitVec.ofInt 32 (strtol s 10)).toInt

/-- `strtoul(s, NULL, base)`: a negative number is reduced mod `2 ^ 64`. -/
def strtoul (s : Str) (base : Nat) : BitVec 64 :=
  let (neg, t) := sign (s.dropWhile isspace)
  let (b, u) := radix base t
  let v := readDigits b 0 u
  if 2 ^ 64 ≤ v then BitVec.allOnes 64 else if neg then -BitVec.ofNat 64 v else BitVec.ofNat 64 v

/-- `isprint` in the C locale. -/
def isprint (b : BitVec 8) : Bool := decide (0x20 ≤ b.toNat ∧ b.toNat ≤ 0x7e)

/-! ## Words -/

/-- The maximal runs of characters that are no separators, in order.  These are
the tokens `strtok` yields with the separators as delimiters. -/
def words (sep : Char → Bool) (s : Str) : List Str :=
  (s.splitOnP sep).filter (· ≠ [])

@[simp] theorem words_nil (sep : Char → Bool) : words sep [] = [] := by
  simp [words, List.splitOnP_nil]

theorem words_cons_sep {sep : Char → Bool} {c : Char} (h : sep c = true) (s : Str) :
    words sep (c :: s) = words sep s := by
  simp [words, List.splitOnP_cons_eq_if_modifyHead, h]

theorem words_of_no_sep {sep : Char → Bool} {s : Str} (h : ∀ c ∈ s, sep c = false) (hs : s ≠ []) :
    words sep s = [s] := by
  rw [words, List.splitOnP_eq_singleton h]
  simp [hs]

/-- A separator ends the word before it. -/
theorem words_append_sep {sep : Char → Bool} {u : Str} (hu : ∀ c ∈ u, sep c = false) (hne : u ≠ [])
    {c : Char} (hc : sep c = true) (s : Str) : words sep (u ++ c :: s) = u :: words sep s := by
  rw [words, List.splitOnP_append_cons_of_forall_mem hu c hc, List.filter_cons,
    if_pos (by simpa using hne), ← words]

/-- Words with a separator behind each. -/
theorem words_flatMap_sep {sep : Char → Bool} {x : Char} (hx : sep x = true) {ws : List Str}
    (hws : ∀ w ∈ ws, w ≠ [] ∧ ∀ c ∈ w, sep c = false) (s : Str) :
    words sep ((ws.flatMap fun w => w ++ [x]) ++ s) = ws ++ words sep s := by
  induction ws with
  | nil => rfl
  | cons w ws ih =>
      obtain ⟨hne, hfree⟩ := hws w List.mem_cons_self
      have hrest := ih fun v hv => hws v (List.mem_cons_of_mem _ hv)
      rw [List.flatMap_cons, List.append_assoc, List.append_assoc, List.singleton_append,
        words_append_sep hfree hne hx, hrest, List.cons_append]

theorem words_replicate_sep {sep : Char → Bool} {x : Char} (hx : sep x = true) (n : Nat) (s : Str) :
    words sep (List.replicate n x ++ s) = words sep s := by
  induction n with
  | zero => rfl
  | succ n ih => rw [List.replicate_succ, List.cons_append, words_cons_sep hx, ih]

/-- A text is cut at the first character that stops the search. -/
theorem takeWhile_append_cons {p : Char → Bool} {u : Str} {x : Char} (hu : ∀ c ∈ u, p c = true)
    (hx : p x = false) (s : Str) : (u ++ x :: s).takeWhile p = u := by
  rw [List.takeWhile_append_of_pos hu, List.takeWhile_cons_of_neg (by simp [hx]),
    List.append_nil]

theorem dropWhile_append_cons {p : Char → Bool} {u : Str} {x : Char} (hu : ∀ c ∈ u, p c = true)
    (hx : p x = false) (s : Str) : (u ++ x :: s).dropWhile p = x :: s := by
  rw [List.dropWhile_append_of_pos hu, List.dropWhile_cons_of_neg (by simp [hx])]

/-- Each word but the last has a separator behind it. -/
theorem length_words_le (sep : Char → Bool) (s : Str) :
    (words sep s).length ≤ s.countP sep + 1 := by
  have hsplit : (s.splitOnP sep).length = s.countP sep + 1 := by
    induction s with
    | nil => rfl
    | cons c s ih =>
        rw [List.splitOnP_cons_eq_if_modifyHead, List.countP_cons]
        split
        · rw [List.length_cons, ih]
        · rw [List.length_modifyHead, ih]
  rw [← hsplit]
  exact List.length_filter_le _ _

/-! ## Maximal runs -/

/-- The characters from index `i` up to `j` are no separators, and the run ends
on both sides at a separator or where the text ends. -/
structure MaxRun (sep : Char → Bool) (s : Str) (i j : Nat) : Prop where
  nonempty : i < j
  inside : j ≤ s.length
  free : ∀ k c, i ≤ k → k < j → s[k]? = some c → sep c = false
  left : ∀ k c, i = k + 1 → s[k]? = some c → sep c = true
  right : ∀ c, s[j]? = some c → sep c = true

variable {sep : Char → Bool} {s u : Str} {i j : Nat}

theorem not_maxRun_nil : ¬ MaxRun sep [] i j := fun h => by
  have hlt := h.nonempty
  have hle : j ≤ 0 := h.inside
  omega

/-- Without separators the whole text is the only run. -/
theorem maxRun_of_no_sep (hs : ∀ c ∈ s, sep c = false) (hne : s ≠ []) :
    MaxRun sep s i j ↔ i = 0 ∧ j = s.length := by
  have hget : ∀ k c, s[k]? = some c → sep c = false := fun k c hk =>
    hs c (List.mem_of_getElem? hk)
  constructor
  · intro h
    constructor
    · cases i with
      | zero => rfl
      | succ i =>
          have hlt : i < s.length := by
            have := h.nonempty
            have := h.inside
            omega
          have hsep := h.left i s[i] rfl (List.getElem?_eq_getElem hlt)
          rw [hs _ (List.getElem_mem hlt)] at hsep
          cases hsep
    · by_contra hj
      have hlt : j < s.length := lt_of_le_of_ne h.inside hj
      have hsep := h.right s[j] (List.getElem?_eq_getElem hlt)
      rw [hs _ (List.getElem_mem hlt)] at hsep
      cases hsep
  · rintro ⟨rfl, rfl⟩
    refine ⟨List.length_pos_iff.2 hne, le_refl _, fun k c _ _ => hget k c, ?_, ?_⟩
    · intro k c hk
      omega
    · intro c hc
      rw [List.getElem?_eq_none (le_refl _)] at hc
      cases hc

section Cut

variable {x : Char}

theorem getElem?_cut (u s : Str) (x : Char) (k : Nat) :
    (u ++ x :: s)[u.length + 1 + k]? = s[k]? := by
  rw [List.getElem?_append_right (by omega), show u.length + 1 + k - u.length = k + 1 by omega]
  rfl

theorem getElem?_cut_sep (u s : Str) (x : Char) : (u ++ x :: s)[u.length]? = some x := by simp

theorem length_cut (u s : Str) (x : Char) : (u ++ x :: s).length = u.length + 1 + s.length := by
  simp
  omega

/-- The runs behind a separator are those of the rest. -/
theorem maxRun_cut (hx : sep x = true) :
    MaxRun sep (u ++ x :: s) (u.length + 1 + i) (u.length + 1 + j) ↔ MaxRun sep s i j := by
  have hlen := length_cut u s x
  constructor
  · intro h
    have hin := h.inside
    have hnonempty := h.nonempty
    refine ⟨by omega, by omega, ?_, ?_, ?_⟩
    · intro k c hik hkj hk
      exact h.free (u.length + 1 + k) c (by omega) (by omega) (by rw [getElem?_cut, hk])
    · intro k c hik hk
      exact h.left (u.length + 1 + k) c (by omega) (by rw [getElem?_cut, hk])
    · intro c hc
      exact h.right c (by rw [getElem?_cut, hc])
  · intro h
    have hin := h.inside
    have hnonempty := h.nonempty
    refine ⟨by omega, by omega, ?_, ?_, ?_⟩
    · intro k c hik hkj hk
      obtain ⟨k', rfl⟩ := Nat.exists_eq_add_of_le (show u.length + 1 ≤ k by omega)
      rw [getElem?_cut] at hk
      exact h.free k' c (by omega) (by omega) hk
    · intro k c hik hk
      cases i with
      | zero =>
          obtain rfl : k = u.length := by omega
          rw [getElem?_cut_sep] at hk
          cases hk
          exact hx
      | succ m =>
          obtain rfl : k = u.length + 1 + m := by omega
          rw [getElem?_cut] at hk
          exact h.left m c rfl hk
    · intro c hc
      rw [getElem?_cut] at hc
      exact h.right c hc

/-- The run before the first separator. -/
theorem maxRun_before (hu : ∀ c ∈ u, sep c = false) (hx : sep x = true) (hi : i ≤ u.length) :
    MaxRun sep (u ++ x :: s) i j ↔ u ≠ [] ∧ i = 0 ∧ j = u.length := by
  have hfree : ∀ k c, k < u.length → (u ++ x :: s)[k]? = some c → sep c = false := by
    intro k c hk hc
    rw [List.getElem?_append_left hk] at hc
    exact hu c (List.mem_of_getElem? hc)
  have hget : ∀ k, (hk : k < u.length) → (u ++ x :: s)[k]? = some u[k] := fun k hk => by
    rw [List.getElem?_append_left hk, List.getElem?_eq_getElem hk]
  constructor
  · intro h
    have hj : j ≤ u.length := by
      by_contra hj
      have hno := h.free u.length x hi (by omega) (getElem?_cut_sep u s x)
      rw [hx] at hno
      cases hno
    have hpos : i < u.length := lt_of_lt_of_le h.nonempty hj
    refine ⟨List.length_pos_iff.1 (by omega), ?_, ?_⟩
    · cases i with
      | zero => rfl
      | succ k =>
          have hk : k < u.length := by omega
          have hsep := h.left k u[k] rfl (hget k hk)
          rw [hfree k _ hk (hget k hk)] at hsep
          cases hsep
    · by_contra hne
      have hlt : j < u.length := lt_of_le_of_ne hj hne
      have hsep := h.right u[j] (hget j hlt)
      rw [hfree j _ hlt (hget j hlt)] at hsep
      cases hsep
  · rintro ⟨hne, rfl, rfl⟩
    have hlen := length_cut u s x
    refine ⟨List.length_pos_iff.2 hne, by omega, fun k c _ hk => hfree k c hk, ?_, ?_⟩
    · intro k c hk
      omega
    · intro c hc
      rw [getElem?_cut_sep] at hc
      cases hc
      exact hx

/-- The runs of a text whose first separator stands after `u`: `u` itself, if
there is something of it, and the runs of the rest. -/
theorem maxRun_append_sep (hu : ∀ c ∈ u, sep c = false) (hx : sep x = true) :
    MaxRun sep (u ++ x :: s) i j ↔
      (u ≠ [] ∧ i = 0 ∧ j = u.length) ∨
        ∃ i' j', i = u.length + 1 + i' ∧ j = u.length + 1 + j' ∧ MaxRun sep s i' j' := by
  -- the separator is on one side of the run or on the other
  rcases Nat.lt_or_ge u.length i with hi | hi
  · have hno : ¬ (u ≠ [] ∧ i = 0 ∧ j = u.length) := by
      rintro ⟨-, rfl, -⟩
      omega
    rw [or_iff_right hno]
    constructor
    · intro h
      obtain ⟨i', rfl⟩ := Nat.exists_eq_add_of_le (show u.length + 1 ≤ i from hi)
      obtain ⟨j', rfl⟩ := Nat.exists_eq_add_of_le (show u.length + 1 ≤ j from hi.trans h.nonempty)
      exact ⟨i', j', rfl, rfl, (maxRun_cut hx).1 h⟩
    · rintro ⟨i', j', rfl, rfl, h⟩
      exact (maxRun_cut hx).2 h
  · rw [maxRun_before hu hx hi]
    refine (or_iff_left ?_).symm
    rintro ⟨i', j', rfl, -⟩
    omega

end Cut

/-- A text with a separator, cut at the first. -/
theorem exists_first_sep (h : ¬ ∀ c ∈ s, sep c = false) :
    ∃ u x s', s = u ++ x :: s' ∧ (∀ c ∈ u, sep c = false) ∧ sep x = true := by
  induction s with
  | nil => exact absurd (fun c hc => by cases hc) h
  | cons c s ih =>
      by_cases hc : sep c = true
      · exact ⟨[], c, s, rfl, by simp, hc⟩
      · have hs : ¬ ∀ c ∈ s, sep c = false := by
          intro hall
          refine h fun b hb => ?_
          rcases List.mem_cons.1 hb with rfl | hb
          · exact Bool.eq_false_iff.2 hc
          · exact hall b hb
        obtain ⟨u, x, s', rfl, hu, hx⟩ := ih hs
        refine ⟨c :: u, x, s', rfl, fun b hb => ?_, hx⟩
        rcases List.mem_cons.1 hb with rfl | hb
        · exact Bool.eq_false_iff.2 hc
        · exact hu b hb

/-- A run of a text, behind `n` more characters. -/
def shiftRun (n : Nat) (r : Nat × Nat) : Nat × Nat := (n + r.1, n + r.2)

theorem pairwise_map_shiftRun {R : List (Nat × Nat)} (n : Nat)
    (h : R.Pairwise fun r r' => r.2 < r'.1) :
    (R.map (shiftRun n)).Pairwise fun r r' => r.2 < r'.1 :=
  List.pairwise_map.2 (h.imp fun h => Nat.add_lt_add_left h n)

theorem mem_map_shiftRun {R : List (Nat × Nat)} {n : Nat} :
    (i, j) ∈ R.map (shiftRun n) ↔ ∃ i' j', i = n + i' ∧ j = n + j' ∧ (i', j') ∈ R := by
  simp only [List.mem_map, Prod.exists, shiftRun, Prod.mk.injEq]
  constructor
  · rintro ⟨i', j', h, rfl, rfl⟩
    exact ⟨i', j', rfl, rfl, h⟩
  · rintro ⟨i', j', rfl, rfl, h⟩
    exact ⟨i', j', h, rfl, rfl⟩

/-- What stands there. -/
theorem slice_shiftRun (u s : Str) (x : Char) (r : Nat × Nat) :
    ((u ++ x :: s).drop (shiftRun (u.length + 1) r).1).take
        ((shiftRun (u.length + 1) r).2 - (shiftRun (u.length + 1) r).1) =
      (s.drop r.1).take (r.2 - r.1) := by
  have hdrop : (u ++ x :: s).drop (u.length + 1 + r.1) = s.drop r.1 := by
    rw [← List.drop_drop, ← List.drop_drop, List.drop_left]
    rfl
  simp only [shiftRun, hdrop]
  congr 1
  omega

/-- The words of a text are its maximal runs, in the order they stand in it. -/
theorem words_eq_runs (sep : Char → Bool) (s : Str) :
    ∃ R : List (Nat × Nat), R.Pairwise (fun r r' => r.2 < r'.1) ∧
      (∀ i j, (i, j) ∈ R ↔ MaxRun sep s i j) ∧
      words sep s = R.map fun r => (s.drop r.1).take (r.2 - r.1) := by
  induction hn : s.length using Nat.strong_induction_on generalizing s with
  | _ n ih =>
      subst hn
      by_cases hs : ∀ c ∈ s, sep c = false
      · by_cases hne : s = []
        · subst hne
          exact ⟨[], List.Pairwise.nil, fun i j => by simp [not_maxRun_nil], by simp⟩
        · refine ⟨[(0, s.length)], List.pairwise_singleton _ _, fun i j => ?_, ?_⟩
          · rw [maxRun_of_no_sep hs hne, List.mem_singleton, Prod.mk.injEq]
          · rw [words_of_no_sep hs hne]
            simp
      · obtain ⟨u, x, s', rfl, hu, hx⟩ := exists_first_sep hs
        obtain ⟨R, hsorted, hruns, hwords⟩ := ih s'.length (by simp; omega) s' rfl
        have hshifted := pairwise_map_shiftRun (u.length + 1) hsorted
        have hslice : (R.map (shiftRun (u.length + 1))).map
            (fun r => ((u ++ x :: s').drop r.1).take (r.2 - r.1)) = words sep s' := by
          rw [hwords, List.map_map]
          exact List.map_congr_left fun r _ => slice_shiftRun u s' x r
        by_cases hne : u = []
        · subst hne
          refine ⟨R.map (shiftRun 1), hshifted, fun i j => ?_, ?_⟩
          · rw [mem_map_shiftRun, maxRun_append_sep hu hx]
            simp [hruns]
          · exact (words_cons_sep hx s').trans hslice.symm
        · refine ⟨(0, u.length) :: R.map (shiftRun (u.length + 1)), ?_, fun i j => ?_, ?_⟩
          · refine List.pairwise_cons.2 ⟨fun r hr => ?_, hshifted⟩
            obtain ⟨r', -, rfl⟩ := List.mem_map.1 hr
            simp only [shiftRun]
            omega
          · rw [List.mem_cons, mem_map_shiftRun, maxRun_append_sep hu hx, Prod.mk.injEq]
            simp [hne, hruns]
          · rw [List.map_cons, hslice, words_append_sep hu hne hx]
            simp

/-! ## Streams -/

/-- The characters of a buffer up to its first NUL. -/
def cstr (s : Str) : Str := s.takeWhile (· ≠ Char.ofNat 0)

/-- A text without a NUL is read to its end. -/
theorem cstr_of_notMem {s : Str} (h : Char.ofNat 0 ∉ s) : cstr s = s := by
  rw [cstr, List.takeWhile_eq_self_iff]
  intro c hc
  have hne : c ≠ Char.ofNat 0 := fun heq => h (heq ▸ hc)
  simpa using hne

/-- The pieces `fgets` hands out with a buffer that has room for `cap`
characters besides the NUL: a piece ends after a newline, or when it is full.
`acc` is the piece begun, backwards, and `room` what still fits in it. -/
def fgetsFrom (cap : Nat) : Str → Nat → Str → List Str
  | acc, _, [] => if acc = [] then [] else [acc.reverse]
  | acc, room, c :: cs =>
      if c = '\n' ∨ room ≤ 1 then (c :: acc).reverse :: fgetsFrom cap [] cap cs
      else fgetsFrom cap (c :: acc) (room - 1) cs

/-- The pieces in which `fgets(buffer, size, fp)` reads a stream. -/
def fgetsPieces (size : Nat) (s : Str) : List Str := fgetsFrom (size - 1) [] (size - 1) s

/-- Characters that fill the room left are a piece, if no newline comes before. -/
theorem fgetsFrom_full {cap : Nat} {acc s : Str} (hs : s ≠ []) (hline : '\n' ∉ s) (t : Str) :
    fgetsFrom cap acc s.length (s ++ t) = (acc.reverse ++ s) :: fgetsFrom cap [] cap t := by
  induction s generalizing acc with
  | nil => exact absurd rfl hs
  | cons c s ih =>
      rw [List.mem_cons, not_or] at hline
      obtain ⟨hc, hline⟩ := hline
      rw [List.cons_append, fgetsFrom]
      by_cases hnil : s = []
      · subst hnil
        simp
      · have hpos : 0 < s.length := List.length_pos_iff.2 hnil
        rw [if_neg (by simp only [List.length_cons]; rintro (h | h); exact hc h.symm; omega)]
        simp only [List.length_cons, Nat.add_sub_cancel]
        rw [ih hnil hline]
        simp

/-- A line that is longer than the buffer comes in more than one piece. -/
theorem fgetsPieces_full {size : Nat} {s : Str} (hs : s ≠ []) (hsize : s.length + 1 = size)
    (hline : '\n' ∉ s) (t : Str) : fgetsPieces size (s ++ t) = s :: fgetsPieces size t := by
  subst hsize
  exact fgetsFrom_full hs hline t

/-! ## Searching -/

/-- Where a text first occurs in another, if it does. -/
def findSub (pat : Str) : Str → Option Nat
  | [] => if pat = [] then some 0 else none
  | c :: cs => if pat <+: c :: cs then some 0 else (findSub pat cs).map (· + 1)

/-- Remove the first occurrence of a text, as `s.erase(s.find(pat), pat.size())`. -/
def eraseFirst (pat s : Str) : Str :=
  match findSub pat s with
  | some i => s.take i ++ s.drop (i + pat.length)
  | none => s

end CString
