import UnixProgramming.Text.CString

/-!
# Lines

The lines of a text, each with its newline, and what `fgets` makes of them: a buffer
with room for every line reads one at a time.

* `lines`, `lines_append_newline`, `lines_of_no_newline` — the lines, read off the front.
* `lines_flatten_append` — lines that were put together come apart again.
* `fgetsPieces_of_short` — the pieces of `fgets` are the lines, if these fit.
* `fgetsPieces_flatten_lines` — they are those of each line, one after the other.
-/

namespace CString

/-- The lines of a text; the last may lack its newline. -/
def lines : Str → List Str
  | [] => []
  | c :: cs =>
      if c = '\n' then [c] :: lines cs
      else
        match lines cs with
        | [] => [[c]]
        | l :: ls => (c :: l) :: ls

theorem lines_of_no_newline {s : Str} (h : '\n' ∉ s) (hs : s ≠ []) : lines s = [s] := by
  induction s with
  | nil => exact absurd rfl hs
  | cons c s ih =>
      rw [List.mem_cons, not_or] at h
      rw [lines, if_neg fun hc => h.1 hc.symm]
      by_cases hnil : s = []
      · subst hnil
        rfl
      · rw [ih h.2 hnil]

/-- A newline ends the line before it. -/
theorem lines_append_newline {u : Str} (h : '\n' ∉ u) (t : Str) :
    lines (u ++ '\n' :: t) = (u ++ ['\n']) :: lines t := by
  induction u with
  | nil => rw [List.nil_append, lines, if_pos rfl, List.nil_append]
  | cons c u ih =>
      rw [List.mem_cons, not_or] at h
      rw [List.cons_append, lines, if_neg fun hc => h.1 hc.symm, ih h.2]
      rfl

/-- Texts that end with their only newline are the first lines of what they make together. -/
theorem lines_flatten_append {ls : List Str} (h : ∀ l ∈ ls, ∃ u, l = u ++ ['\n'] ∧ '\n' ∉ u)
    (t : Str) : lines (ls.flatten ++ t) = ls ++ lines t := by
  induction ls with
  | nil => rfl
  | cons l ls ih =>
      obtain ⟨u, rfl, hu⟩ := h l List.mem_cons_self
      rw [List.flatten_cons, List.append_assoc, List.append_assoc, List.singleton_append,
        lines_append_newline hu, ih fun m hm => h m (List.mem_cons_of_mem _ hm)]
      rfl

/-- The rest of a line that fits is the end of the piece begun. -/
theorem fgetsFrom_newline {cap room : Nat} {acc u : Str} (hu : '\n' ∉ u) (hroom : u.length < room)
    (t : Str) :
    fgetsFrom cap acc room (u ++ '\n' :: t) =
      (acc.reverse ++ (u ++ ['\n'])) :: fgetsFrom cap [] cap t := by
  induction u generalizing acc room with
  | nil => simp [fgetsFrom]
  | cons c u ih =>
      rw [List.mem_cons, not_or] at hu
      rw [List.length_cons] at hroom
      have hmore : ¬ (c = '\n' ∨ room ≤ 1) := by
        rintro (hc | hle)
        · exact hu.1 hc.symm
        · omega
      rw [List.cons_append, fgetsFrom, if_neg hmore, ih hu.2 (by omega)]
      simp

/-- A last line without a newline is one piece. -/
theorem fgetsFrom_of_no_newline {cap room : Nat} {acc s : Str} (hs : '\n' ∉ s)
    (hroom : s.length ≤ room) (hne : acc ≠ [] ∨ s ≠ []) :
    fgetsFrom cap acc room s = [acc.reverse ++ s] := by
  induction s generalizing acc room with
  | nil => simpa [fgetsFrom] using hne
  | cons c s ih =>
      rw [List.mem_cons, not_or] at hs
      rw [List.length_cons] at hroom
      rw [fgetsFrom]
      split
      · rename_i hfull
        have hnil : s = [] := by
          rcases hfull with hc | hle
          · exact absurd hc.symm hs.1
          · exact List.length_eq_zero_iff.1 (by omega)
        subst hnil
        simp [fgetsFrom]
      · rw [ih hs.2 (by omega) (Or.inl (by simp))]
        simp

/-- A text without a newline, or cut at its first. -/
theorem exists_first_newline (s : Str) :
    '\n' ∉ s ∨ ∃ u t, s = u ++ '\n' :: t ∧ '\n' ∉ u := by
  by_cases h : ∀ c ∈ s, decide (c = '\n') = false
  · refine Or.inl fun hmem => ?_
    have hfree := h _ hmem
    simp at hfree
  · obtain ⟨u, x, t, rfl, hu, hx⟩ := @exists_first_sep (fun c => decide (c = '\n')) s h
    refine Or.inr ⟨u, t, by rw [of_decide_eq_true hx], fun hmem => ?_⟩
    have hfree := hu _ hmem
    simp at hfree

/-- With room for every line, `fgets` reads the lines one at a time. -/
theorem fgetsPieces_of_short {size : Nat} {s : Str} (h : ∀ l ∈ lines s, l.length < size) :
    fgetsPieces size s = lines s := by
  induction hn : s.length using Nat.strong_induction_on generalizing s with
  | _ n ih =>
      subst hn
      rcases exists_first_newline s with hs | ⟨u, t, rfl, hu⟩
      · by_cases hnil : s = []
        · subst hnil
          rfl
        · rw [lines_of_no_newline hs hnil] at h ⊢
          have hlen := h s List.mem_cons_self
          rw [fgetsPieces, fgetsFrom_of_no_newline hs (by omega) (Or.inr hnil)]
          rfl
      · rw [lines_append_newline hu] at h ⊢
        have hlen := h _ List.mem_cons_self
        rw [List.length_append, List.length_singleton] at hlen
        have hrest := ih t.length (by simp; omega) (fun l hl => h l (List.mem_cons_of_mem _ hl)) rfl
        rw [fgetsPieces, fgetsFrom_newline hu (by omega), ← hrest]
        rfl

/-- Nothing is lost between the pieces. -/
theorem fgetsFrom_flatten (cap room : Nat) (acc s : Str) :
    (fgetsFrom cap acc room s).flatten = acc.reverse ++ s := by
  induction s generalizing acc room with
  | nil =>
      rw [fgetsFrom]
      split
      · next hnil => simp [hnil]
      · simp
  | cons c s ih =>
      rw [fgetsFrom]
      split
      · rw [List.flatten_cons, ih]
        simp
      · rw [ih]
        simp

/-- A newline ends the piece it is in. -/
theorem fgetsFrom_append_newline {cap room : Nat} {acc u : Str} (hu : '\n' ∉ u) (t : Str) :
    fgetsFrom cap acc room (u ++ '\n' :: t) =
      fgetsFrom cap acc room (u ++ ['\n']) ++ fgetsFrom cap [] cap t := by
  induction u generalizing acc room with
  | nil => simp [fgetsFrom]
  | cons c u ih =>
      rw [List.mem_cons, not_or] at hu
      rw [List.cons_append, List.cons_append, fgetsFrom, fgetsFrom]
      split
      · rw [ih hu.2, List.cons_append]
      · rw [ih hu.2]

/-- The pieces of a text are those of its lines. -/
theorem fgetsPieces_flatten_lines {size : Nat} {ls : List Str}
    (h : ∀ l ∈ ls, ∃ u, l = u ++ ['\n'] ∧ '\n' ∉ u) :
    fgetsPieces size ls.flatten = ls.flatMap (fgetsPieces size) := by
  induction ls with
  | nil => rfl
  | cons l ls ih =>
      obtain ⟨u, rfl, hu⟩ := h l List.mem_cons_self
      rw [List.flatten_cons, List.append_assoc, List.singleton_append, fgetsPieces,
        fgetsFrom_append_newline hu, List.flatMap_cons,
        ← ih fun m hm => h m (List.mem_cons_of_mem _ hm)]
      rfl

end CString
