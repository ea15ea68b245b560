import UnixProgramming.Text.CString

/-!
# Numbers in texts

Numbers as `printf` writes them, with lower-case digits and zeros up to a width,
and what the library's conversions read in such a text.

* `isDigit_of_mem_numeral`, `numeral_ne_nil` — the text of a number.
* `readDigits_numeral` — its digits have its value, whatever the width.
* `strtol_of_scan`, `strtoul_of_scan` — the conversions, by what they pass over first.
* `strtoul_numeral`, `strtol_numeral` — the two conversions read back what was written.
* `strtoul_prefixed` — also behind white space and `0x`.
* `atoi_toDecimal` — an `int` written in decimal is read back.
-/

namespace CString

/-- A number in a base, with zeros in front up to a width: `%x`, `%0*x` or `%u`. -/
def numeral (base width n : Nat) : Str := (Nat.toDigits base n).leftpad width '0'

theorem digitVal_digitChar {d : Nat} (hd : d < 16) : digitVal d.digitChar = some d := by
  interval_cases d <;> rfl

theorem isDigit_digitChar {base d : Nat} (hbase : base ≤ 16) (hd : d < base) :
    isDigit base d.digitChar = true := by
  rw [isDigit, digitVal_digitChar (by omega)]
  exact decide_eq_true hd

/-! ## The text -/

theorem isDigit_of_mem_toDigits {base : Nat} (hlo : 1 < base) (hhi : base ≤ 16) (n : Nat) :
    ∀ c ∈ Nat.toDigits base n, isDigit base c = true := by
  induction n using Nat.strong_induction_on with
  | _ n ih =>
      intro c hc
      rw [Nat.toDigits_eq_if hlo] at hc
      split at hc
      · next hlt =>
          rw [List.mem_singleton.1 hc]
          exact isDigit_digitChar hhi hlt
      · next hge =>
          rcases List.mem_append.1 hc with hc | hc
          · exact ih _ (Nat.div_lt_self (by omega) hlo) c hc
          · rw [List.mem_singleton.1 hc]
            exact isDigit_digitChar hhi (Nat.mod_lt _ (by omega))

theorem isDigit_of_mem_numeral {base : Nat} (hlo : 1 < base) (hhi : base ≤ 16) {width n : Nat}
    {c : Char} (hc : c ∈ numeral base width n) : isDigit base c = true := by
  rw [numeral, List.leftpad] at hc
  rcases List.mem_append.1 hc with hc | hc
  · rw [List.eq_of_mem_replicate hc]
    exact isDigit_digitChar hhi (by omega : 0 < base)
  · exact isDigit_of_mem_toDigits hlo hhi n c hc

theorem numeral_ne_nil (base width n : Nat) : numeral base width n ≠ [] := by
  rw [numeral, List.leftpad]
  exact List.append_ne_nil_of_right_ne_nil _ Nat.toDigits_ne_nil

/-! ## Reading the digits -/

theorem readDigits_toDigits {base : Nat} (hlo : 1 < base) (hhi : base ≤ 16) (n : Nat) :
    readDigits base 0 (Nat.toDigits base n) = n := by
  rw [readDigits_eq_foldl (isDigit_of_mem_toDigits hlo hhi n)]
  induction n using Nat.strong_induction_on with
  | _ n ih =>
      rw [Nat.toDigits_eq_if hlo]
      split
      · next hlt =>
          rw [List.foldl_cons, List.foldl_nil, digitVal_digitChar (by omega)]
          simp
      · next hge =>
          have hmod : n % base < base := Nat.mod_lt _ (by omega)
          rw [List.foldl_append, ih _ (Nat.div_lt_self (by omega) hlo), List.foldl_cons,
            List.foldl_nil, digitVal_digitChar (by omega)]
          exact Nat.div_add_mod' n base

/-- Zeros in front do not count. -/
theorem readDigits_zeros {base : Nat} (hbase : 0 < base) (k : Nat) (s : Str) :
    readDigits base 0 (List.replicate k '0' ++ s) = readDigits base 0 s := by
  induction k with
  | zero => rfl
  | succ k ih =>
      have hzero : digitVal '0' = some 0 := rfl
      rw [List.replicate_succ, List.cons_append, readDigits, hzero]
      simp only [if_pos hbase, Nat.zero_mul, Nat.add_zero]
      exact ih

theorem readDigits_numeral {base : Nat} (hlo : 1 < base) (hhi : base ≤ 16) (width n : Nat) :
    readDigits base 0 (numeral base width n) = n := by
  rw [numeral, List.leftpad, readDigits_zeros (by omega), readDigits_toDigits hlo hhi]

/-! ## The conversions -/

/-- A digit is a digit or a letter. -/
theorem range_of_isDigit {base : Nat} {c : Char} (h : isDigit base c = true) :
    ('0' ≤ c ∧ c ≤ '9') ∨ ('a' ≤ c ∧ c ≤ 'z') ∨ ('A' ≤ c ∧ c ≤ 'Z') := by
  unfold isDigit digitVal at h
  grind

/-- What stands between digits and letters, or below them, is no digit. -/
theorem ne_of_isDigit {base : Nat} {c x : Char} (hx : digitVal x = none)
    (h : isDigit base c = true) : c ≠ x := by
  rintro rfl
  rw [isDigit, hx] at h
  cases h

theorem isspace_of_isDigit {base : Nat} {c : Char} (h : isDigit base c = true) :
    isspace c = false := by
  rw [isspace, decide_eq_false_iff_not, not_or]
  refine ⟨ne_of_isDigit rfl h, fun hc => ?_⟩
  have hle : ('0' ≤ c ∨ 'a' ≤ c ∨ 'A' ≤ c) := by
    rcases range_of_isDigit h with h | h | h
    · exact Or.inl h.1
    · exact Or.inr (Or.inl h.1)
    · exact Or.inr (Or.inr h.1)
  have hval : 48 ≤ c.toNat := by
    rcases hle with h | h | h
    · exact h
    · exact le_trans (by decide) h
    · exact le_trans (by decide) h
  omega

/-- `strtol` reads the digits behind white space, the sign and the prefix of the base. -/
theorem strtol_of_scan {s t u : Str} {base b : Nat}
    (hsign : sign (s.dropWhile isspace) = (false, t)) (hradix : radix base t = (b, u)) :
    strtol s base = min longMax (readDigits b 0 u) := by
  unfold strtol
  simp only [hsign, hradix]
  rfl

theorem strtoul_of_scan {s t u : Str} {base b : Nat}
    (hsign : sign (s.dropWhile isspace) = (false, t)) (hradix : radix base t = (b, u))
    (hv : readDigits b 0 u < 2 ^ 64) :
    strtoul s base = BitVec.ofNat 64 (readDigits b 0 u) := by
  unfold strtoul
  simp only [hsign, hradix]
  rw [if_neg (by omega)]
  rfl

/-! ### Digits alone -/

theorem sign_of_digits {base : Nat} {ds : Str} (hds : ∀ c ∈ ds, isDigit base c = true) :
    sign (ds.dropWhile isspace) = (false, ds) := by
  have hspace : ds.dropWhile isspace = ds := by
    cases ds with
    | nil => rfl
    | cons c ds =>
        rw [List.dropWhile_cons_of_neg]
        rw [isspace_of_isDigit (hds c List.mem_cons_self)]
        exact Bool.false_ne_true
  rw [hspace]
  unfold sign
  split
  · exact absurd rfl (ne_of_isDigit rfl (hds _ List.mem_cons_self))
  · exact absurd rfl (ne_of_isDigit rfl (hds _ List.mem_cons_self))
  · rfl

/-- Digits alone have no prefix: neither `x` nor `X` is one of them. -/
theorem radix_of_digits {ds : Str} (hds : ∀ c ∈ ds, isDigit 16 c = true) :
    radix 16 ds = (16, ds) := by
  unfold radix
  split
  · next x c t =>
      have hx : isDigit 16 x = true := hds x (by simp)
      have hno : ¬ (x = 'x' ∨ x = 'X') := by
        rintro (rfl | rfl)
        · exact absurd hx (by decide)
        · exact absurd hx (by decide)
      rw [if_neg (fun h => hno h.2.1), if_neg (by decide)]
  · rw [if_neg (by decide)]
  · rw [if_neg (by decide)]

/-- There is no prefix in base ten. -/
theorem radix_ten (s : Str) : radix 10 s = (10, s) := by
  unfold radix
  split <;> simp

/-! ### A prefix -/

theorem sign_prefixed (ds : Str) : sign (('0' :: 'x' :: ds).dropWhile isspace) =
    (false, '0' :: 'x' :: ds) := by
  rw [List.dropWhile_cons_of_neg (by decide)]
  rfl

theorem radix_prefixed {base : Nat} (hbase : base = 0 ∨ base = 16) {ds : Str} (hne : ds ≠ [])
    (hds : ∀ c ∈ ds, isDigit 16 c = true) : radix base ('0' :: 'x' :: ds) = (16, ds) := by
  obtain ⟨c, ds, rfl⟩ := List.exists_cons_of_ne_nil hne
  exact if_pos ⟨hbase, Or.inl rfl, hds c List.mem_cons_self⟩

/-! ### What was written -/

section Hexadecimal

variable (width : Nat)

theorem isDigit_numeral_sixteen (n : Nat) : ∀ c ∈ numeral 16 width n, isDigit 16 c = true :=
  fun _ hc => isDigit_of_mem_numeral (by decide) (by decide) hc

theorem readDigits_numeral_sixteen (n : Nat) : readDigits 16 0 (numeral 16 width n) = n :=
  readDigits_numeral (by decide) (by decide) width n

/-- `strtoul` reads an unsigned number back. -/
theorem strtoul_numeral (v : BitVec 64) : strtoul (numeral 16 width v.toNat) 16 = v := by
  have hdigits := isDigit_numeral_sixteen width v.toNat
  have hread := readDigits_numeral_sixteen width v.toNat
  rw [strtoul_of_scan (sign_of_digits hdigits) (radix_of_digits hdigits)
    (by rw [hread]; exact v.isLt), hread,
    BitVec.ofNat_toNat, BitVec.setWidth_eq]

/-- `strtol` reads a number back that is a `long`. -/
theorem strtol_numeral {n : Nat} (hn : n < 2 ^ 63) : strtol (numeral 16 width n) 16 = n := by
  have hdigits := isDigit_numeral_sixteen width n
  rw [strtol_of_scan (sign_of_digits hdigits) (radix_of_digits hdigits),
    readDigits_numeral_sixteen, longMax]
  omega

/-- `strtoul` passes over white space and `0x`. -/
theorem strtoul_prefixed {blank : Char} (hblank : isspace blank = true) (v : BitVec 64) :
    strtoul (blank :: '0' :: 'x' :: numeral 16 width v.toNat) 16 = v := by
  have hsign : sign ((blank :: '0' :: 'x' :: numeral 16 width v.toNat).dropWhile isspace) =
      (false, '0' :: 'x' :: numeral 16 width v.toNat) := by
    rw [List.dropWhile_cons_of_pos hblank, sign_prefixed]
  have hradix := radix_prefixed (Or.inr rfl) (numeral_ne_nil 16 width v.toNat)
    (isDigit_numeral_sixteen width v.toNat)
  have hread := readDigits_numeral_sixteen width v.toNat
  rw [strtoul_of_scan hsign hradix (by rw [hread]; exact v.isLt), hread, BitVec.ofNat_toNat,
    BitVec.setWidth_eq]

end Hexadecimal

/-! ### Numbers with a sign -/

/-- `std::to_string` of an `int`. -/
def toDecimal (n : Int) : Str :=
  if n < 0 then '-' :: Nat.toDigits 10 n.natAbs else Nat.toDigits 10 n.natAbs

theorem strtol_minus (ds : Str) :
    strtol ('-' :: ds) 10 = max longMin (-(readDigits 10 0 ds : Int)) := by
  have hsign : sign (('-' :: ds).dropWhile isspace) = (true, ds) := by
    rw [List.dropWhile_cons_of_neg (by decide)]
    rfl
  unfold strtol
  simp only [hsign, radix_ten]
  rfl

/-- `atoi` reads an `int` back. -/
theorem atoi_toDecimal {n : Int} (hlo : -2 ^ 31 ≤ n) (hhi : n < 2 ^ 31) :
    atoi (toDecimal n) = n := by
  have hdigits : ∀ c ∈ Nat.toDigits 10 n.natAbs, isDigit 10 c = true :=
    isDigit_of_mem_toDigits (by decide) (by decide) n.natAbs
  have hread : readDigits 10 0 (Nat.toDigits 10 n.natAbs) = n.natAbs :=
    readDigits_toDigits (by decide) (by decide) n.natAbs
  have hlong : strtol (toDecimal n) 10 = n := by
    rw [toDecimal]
    split
    · rw [strtol_minus, hread, longMin]
      omega
    · rw [strtol_of_scan (sign_of_digits hdigits) (radix_ten _), hread, longMax]
      omega
  rw [atoi, hlong]
  exact BitVec.toInt_ofInt_eq_self (by decide) hlo (by omega)

end CString
