import UnixProgramming.Text.CString

/-!
# Searching and erasing

What `find` finds, and what is left when it is erased.

* `findSub_eq_none_iff`, `findSub_isSome_iff` — a text is found exactly when it occurs.
* `findSub_eq_some_iff` — where it is found, and that it is not there earlier.
* `eraseFirst_of_not_infix`, `eraseFirst_of_infix` — erasing the first occurrence.
* `eraseFirst_append_self_iff` — when erasing takes off just what was appended.
-/

namespace CString

variable {pat s : Str}

theorem findSub_eq_none_iff : findSub pat s = none ↔ ¬ pat <:+: s := by
  induction s with
  | nil =>
      rw [findSub, List.infix_nil]
      split <;> simp_all
  | cons c s ih =>
      rw [findSub, List.infix_cons_iff]
      split
      · rename_i h
        simp [h]
      · rename_i h
        simp [h, ih]

theorem findSub_isSome_iff : (findSub pat s).isSome = true ↔ pat <:+: s := by
  rw [← not_iff_not, ← findSub_eq_none_iff]
  simp

/-- A text is found where it begins, and begins nowhere before. -/
theorem findSub_eq_some_iff {i : Nat} :
    findSub pat s = some i ↔ pat <+: s.drop i ∧ i ≤ s.length ∧ ∀ j < i, ¬ pat <+: s.drop j := by
  induction s generalizing i with
  | nil =>
      rw [findSub]
      constructor
      · intro h
        split at h
        · rename_i hpat
          cases h
          subst hpat
          simp
        · cases h
      · rintro ⟨hpre, hi, -⟩
        have h0 : i = 0 := by simpa using hi
        subst h0
        rw [if_pos (by simpa using hpre)]
  | cons c s ih =>
      rw [findSub]
      by_cases h : pat <+: c :: s
      · rw [if_pos h, Option.some.injEq]
        constructor
        · rintro rfl
          exact ⟨h, Nat.zero_le _, fun j hj => absurd hj (Nat.not_lt_zero j)⟩
        · rintro ⟨-, -, hfirst⟩
          by_contra hi
          exact hfirst 0 (Nat.pos_of_ne_zero fun h0 => hi h0.symm) h
      · rw [if_neg h, Option.map_eq_some_iff]
        constructor
        · rintro ⟨k, hk, rfl⟩
          obtain ⟨hpre, hle, hfirst⟩ := ih.1 hk
          refine ⟨hpre, by simpa using hle, fun j hj => ?_⟩
          cases j with
          | zero => exact h
          | succ j => exact hfirst j (by omega)
        · rintro ⟨hpre, hle, hfirst⟩
          cases i with
          | zero => exact absurd hpre h
          | succ k =>
              exact ⟨k, ih.2 ⟨hpre, by simpa using hle, fun j hj => hfirst (j + 1) (by omega)⟩, rfl⟩

/-- What does not occur is not erased. -/
theorem eraseFirst_of_not_infix (h : ¬ pat <:+: s) : eraseFirst pat s = s := by
  rw [eraseFirst, findSub_eq_none_iff.2 h]

/-- Of a text that occurs its first occurrence is erased. -/
theorem eraseFirst_of_infix (h : pat <:+: s) :
    ∃ u v, s = u ++ pat ++ v ∧ (∀ j < u.length, ¬ pat <+: s.drop j) ∧
      eraseFirst pat s = u ++ v := by
  obtain ⟨i, hi⟩ := Option.isSome_iff_exists.1 (findSub_isSome_iff.2 h)
  obtain ⟨⟨v, hv⟩, hle, hfirst⟩ := findSub_eq_some_iff.1 hi
  refine ⟨s.take i, v, ?_, ?_, ?_⟩
  · rw [List.append_assoc, hv, List.take_append_drop]
  · rw [List.length_take, Nat.min_eq_left hle]
    exact hfirst
  · rw [eraseFirst, hi]
    show s.take i ++ s.drop (i + pat.length) = s.take i ++ v
    rw [← List.drop_drop, ← hv, List.drop_left]

/-- Erasing changes a text in which something occurs. -/
theorem eraseFirst_eq_self_iff (hpat : pat ≠ []) : eraseFirst pat s = s ↔ ¬ pat <:+: s := by
  constructor
  · intro h hin
    obtain ⟨u, v, hs, -, herase⟩ := eraseFirst_of_infix hin
    have hlen := congrArg List.length (herase.symm.trans (h.trans hs))
    simp only [List.length_append] at hlen
    exact hpat (List.length_eq_zero_iff.1 (by omega))
  · exact eraseFirst_of_not_infix

/-! ## Texts that do not overlap themselves -/

section Unbordered

variable {c : Char} {rest u v w : Str}

/-- A text whose first character comes only once begins nowhere across its own start. -/
theorem not_prefix_before (hrest : c ∉ rest) (hu : ¬ c :: rest <:+: u) {j : Nat}
    (hj : j < u.length) : ¬ c :: rest <+: (u ++ c :: w).drop j := by
  intro hpre
  rw [List.drop_append_of_le_length hj.le] at hpre
  rcases Nat.lt_or_ge (u.drop j).length (c :: rest).length with hshort | hlong
  · -- the first character would stand inside as well
    have hpos : 0 < (u.drop j).length := by rw [List.length_drop]; omega
    have hget := hpre.getElem hshort
    rw [List.getElem_append_right (le_refl _)] at hget
    simp only [Nat.sub_self, List.getElem_cons_zero] at hget
    rw [List.getElem_cons, dif_neg (by omega)] at hget
    exact hrest (hget ▸ List.getElem_mem _)
  · have hin : c :: rest <+: u.drop j := List.prefix_of_prefix_length_le hpre
      (List.prefix_append _ _) hlong
    exact hu (hin.isInfix.trans (List.drop_suffix j u).isInfix)

/-- Behind a text without it, it is what is erased. -/
theorem eraseFirst_append (hrest : c ∉ rest) (hu : ¬ c :: rest <:+: u) :
    eraseFirst (c :: rest) (u ++ (c :: rest ++ w)) = u ++ w := by
  have hfind : findSub (c :: rest) (u ++ (c :: rest ++ w)) = some u.length := by
    rw [findSub_eq_some_iff, List.drop_left]
    refine ⟨List.prefix_append _ _, by simp, fun j hj => ?_⟩
    exact not_prefix_before hrest hu hj
  rw [eraseFirst, hfind]
  show (u ++ (c :: rest ++ w)).take u.length ++ (u ++ (c :: rest ++ w)).drop _ = u ++ w
  rw [List.take_left, ← List.drop_drop, List.drop_left, List.drop_left]

/-- Copies of a text, one after another. -/
def copies (pat : Str) (k : Nat) : Str := (List.replicate k pat).flatten

theorem copies_succ (pat : Str) (k : Nat) : copies pat (k + 1) = pat ++ copies pat k := by
  rw [copies, List.replicate_succ, List.flatten_cons, copies]

theorem length_copies (pat : Str) (k : Nat) : (copies pat k).length = k * pat.length := by
  rw [copies, List.length_flatten, List.map_replicate, List.sum_replicate, smul_eq_mul]

theorem mem_of_mem_copies {a : Char} {k : Nat} (h : a ∈ copies pat k) : a ∈ pat := by
  obtain ⟨l, hl, ha⟩ := List.mem_flatten.1 h
  rwa [List.eq_of_mem_replicate hl] at ha

theorem copies_append_self (pat : Str) (k : Nat) : copies pat k ++ pat = pat ++ copies pat k := by
  induction k with
  | zero => simp [copies]
  | succ k ih => rw [copies_succ, List.append_assoc, ih]

/-- Only its copies commute with it. -/
theorem eq_copies_of_append_comm (hrest : c ∉ rest) (h : v ++ c :: rest = c :: rest ++ v) :
    ∃ k, v = copies (c :: rest) k := by
  induction hn : v.length using Nat.strong_induction_on generalizing v with
  | _ n ih =>
      subst hn
      rcases Nat.lt_or_ge v.length (c :: rest).length with hshort | hlong
      · by_cases hnil : v = []
        · exact ⟨0, hnil⟩
        · -- the first character would stand inside as well
          exfalso
          have hpos : 0 < v.length := List.length_pos_iff.2 hnil
          have hget : (v ++ c :: rest)[v.length]? = (c :: rest ++ v)[v.length]? := by rw [h]
          rw [List.getElem?_append_right (le_refl _), List.getElem?_append_left hshort,
            Nat.sub_self, List.getElem?_cons_zero, List.getElem?_cons, if_neg (by omega)] at hget
          exact hrest (List.mem_of_getElem? hget.symm)
      · have hpre : c :: rest <+: v := by
          have hboth : c :: rest <+: v ++ c :: rest := h ▸ List.prefix_append _ _
          exact List.prefix_of_prefix_length_le hboth (List.prefix_append _ _) hlong
        obtain ⟨w, rfl⟩ := hpre
        rw [List.append_assoc, List.append_cancel_left_eq] at h
        obtain ⟨k, hk⟩ := ih w.length (by simp) h rfl
        exact ⟨k + 1, by rw [copies_succ, hk]⟩

/-- Erasing takes off just what was appended, exactly when all there is of it in the text
before are copies at its end. -/
theorem eraseFirst_append_self_iff (hrest : c ∉ rest) :
    eraseFirst (c :: rest) (v ++ c :: rest) = v ↔
      ∃ u k, v = u ++ copies (c :: rest) k ∧ ¬ c :: rest <:+: u := by
  constructor
  · intro h
    obtain ⟨u, w, hs, hfirst, herase⟩ := eraseFirst_of_infix (List.suffix_append v (c :: rest)).isInfix
    have hv : v = u ++ w := h.symm.trans herase
    have hcomm : w ++ c :: rest = c :: rest ++ w := by
      rw [hv, List.append_assoc, List.append_assoc, List.append_cancel_left_eq] at hs
      exact hs
    obtain ⟨k, rfl⟩ := eq_copies_of_append_comm hrest hcomm
    refine ⟨u, k, hv, fun hin => ?_⟩
    obtain ⟨a, b, hab⟩ := hin
    apply hfirst a.length
    · rw [← hab]
      simp
    · rw [hs, ← hab, List.append_assoc, List.append_assoc, List.append_assoc, List.drop_left]
      exact List.prefix_append _ _
  · rintro ⟨u, k, rfl, hu⟩
    have htail : u ++ copies (c :: rest) k ++ c :: rest =
        u ++ (c :: rest ++ copies (c :: rest) k) := by
      rw [List.append_assoc, copies_append_self]
    rw [htail, eraseFirst_append hrest hu]

end Unbordered

end CString
