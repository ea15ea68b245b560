import UnixProgramming.Text.CString

/-!
# Splitting a command line

`dbgcmd_parser` of `hw4/parser.hpp`: a loop with two cursors that looks for the
next delimiter, skips empty words and, at the end, appends whatever is left of
the line, empty or not.

* `dbgcmdParser_eq` — the result: the words of the line, and one empty word more
  when the line is empty or ends with the delimiter.
* `dbgcmdParser_words` — the same by positions: the maximal runs of the line.
-/

namespace Sdb

open CString

/-- `line.find(delimiter, pos)`. -/
def findFrom (line : Str) (delimiter : Char) (pos : Nat) : Option Nat :=
  ((line.drop pos).findIdx? (· == delimiter)).map (pos + ·)

theorem lt_length_of_findFrom {line : Str} {delimiter : Char} {pos pos2 : Nat}
    (h : findFrom line delimiter pos = some pos2) : pos ≤ pos2 ∧ pos2 < line.length := by
  obtain ⟨i, hi, rfl⟩ := Option.map_eq_some_iff.1 h
  obtain ⟨hlt, -⟩ := List.findIdx?_eq_some_iff_getElem.1 hi
  rw [List.length_drop] at hlt
  omega

/-- The loop of `dbgcmd_parser` at cursor `pos1`, with the words found so far. -/
def dbgcmdParserLoop (line : Str) (delimiter : Char) (pos1 : Nat) (result : List Str) : List Str :=
  match _h : findFrom line delimiter pos1 with
  | none => result ++ [line.drop pos1]
  | some pos2 =>
      let word := (line.drop pos1).take (pos2 - pos1)
      if word = [] then dbgcmdParserLoop line delimiter (pos1 + 1) result
      else dbgcmdParserLoop line delimiter (pos2 + 1) (result ++ [word])
termination_by line.length - pos1
decreasing_by
  · have := lt_length_of_findFrom _h
    omega
  · have := lt_length_of_findFrom _h
    omega

/-- `dbgcmd_parser(line, delimiter)`. -/
def dbgcmdParser (line : Str) (delimiter : Char) : List Str := dbgcmdParserLoop line delimiter 0 []

/-! ## What the loop returns -/

/-- Does the line end with nothing after the last delimiter? -/
def endsEmpty (delimiter : Char) (line : Str) : Bool :=
  match line.getLast? with
  | none => true
  | some c => c == delimiter

theorem endsEmpty_append {delimiter : Char} {u s : Str} (hs : s ≠ []) :
    endsEmpty delimiter (u ++ s) = endsEmpty delimiter s := by
  obtain ⟨t, x, rfl⟩ := List.eq_nil_or_concat s |>.resolve_left hs
  simp [endsEmpty, ← List.append_assoc]

/-- The words of a text and, if it ends with nothing, one empty word. -/
def wordsThenRest (delimiter : Char) (s : Str) : List Str :=
  words (· == delimiter) s ++ if endsEmpty delimiter s then [[]] else []

/-- No delimiter left: the rest of the line is its last word. -/
theorem wordsThenRest_of_no_delimiter {delimiter : Char} {s : Str}
    (h : ∀ c ∈ s, (c == delimiter) = false) : wordsThenRest delimiter s = [s] := by
  by_cases hs : s = []
  · subst hs
    simp [wordsThenRest, endsEmpty]
  · have hlast : endsEmpty delimiter s = false := by
      rw [endsEmpty, List.getLast?_eq_some_getLast hs]
      exact h _ (List.getLast_mem hs)
    rw [wordsThenRest, words_of_no_sep h hs, hlast]
    simp

/-- A delimiter met at once is skipped. -/
theorem wordsThenRest_delimiter (delimiter : Char) (s : Str) :
    wordsThenRest delimiter (delimiter :: s) = wordsThenRest delimiter s := by
  have hend : endsEmpty delimiter (delimiter :: s) = endsEmpty delimiter s := by
    by_cases hs : s = []
    · subst hs
      simp [endsEmpty]
    · exact endsEmpty_append (u := [delimiter]) hs
  rw [wordsThenRest, words_cons_sep (by simp), hend, ← wordsThenRest]

/-- A delimiter met later ends a word. -/
theorem wordsThenRest_word {delimiter : Char} {u : Str} (hu : ∀ c ∈ u, (c == delimiter) = false)
    (hne : u ≠ []) (s : Str) :
    wordsThenRest delimiter (u ++ delimiter :: s) = u :: wordsThenRest delimiter s := by
  have hend : endsEmpty delimiter (u ++ delimiter :: s) = endsEmpty delimiter s := by
    rw [endsEmpty_append (by simp)]
    by_cases hs : s = []
    · subst hs
      simp [endsEmpty]
    · exact endsEmpty_append (u := [delimiter]) hs
  rw [wordsThenRest, words_append_sep hu hne (by simp), hend, List.cons_append, ← wordsThenRest]

theorem findFrom_none {line : Str} {delimiter : Char} {pos : Nat}
    (h : findFrom line delimiter pos = none) : ∀ c ∈ line.drop pos, (c == delimiter) = false := by
  rw [findFrom, Option.map_eq_none_iff, List.findIdx?_eq_none_iff] at h
  exact h

/-- Where the next delimiter stands: what precedes it is free of delimiters. -/
theorem findFrom_some {line : Str} {delimiter : Char} {pos pos2 : Nat}
    (h : findFrom line delimiter pos = some pos2) :
    (∀ c ∈ (line.drop pos).take (pos2 - pos), (c == delimiter) = false) ∧
      line.drop pos =
        (line.drop pos).take (pos2 - pos) ++ delimiter :: line.drop (pos2 + 1) := by
  obtain ⟨i, hi, rfl⟩ := Option.map_eq_some_iff.1 h
  obtain ⟨hlt, hat, hbefore⟩ := List.findIdx?_eq_some_iff_getElem.1 hi
  rw [Nat.add_sub_cancel_left]
  constructor
  · intro c hc
    obtain ⟨j, hj, rfl⟩ := List.getElem_of_mem hc
    rw [List.getElem_take]
    rw [List.length_take] at hj
    have hb := hbefore j (by omega)
    simpa using hb
  · have hcons : (line.drop pos).drop i = delimiter :: line.drop (pos + i + 1) := by
      rw [List.drop_eq_getElem_cons hlt, List.drop_drop, eq_of_beq hat]
      rfl
    rw [← hcons, List.take_append_drop]

theorem dbgcmdParserLoop_eq (line : Str) (delimiter : Char) (pos1 : Nat) (result : List Str) :
    dbgcmdParserLoop line delimiter pos1 result =
      result ++ wordsThenRest delimiter (line.drop pos1) := by
  fun_induction dbgcmdParserLoop line delimiter pos1 result with
  | case1 pos1 result h =>
      rw [wordsThenRest_of_no_delimiter (findFrom_none h)]
  | case2 pos1 result pos2 h word hword ih =>
      -- an empty word: the delimiter stands right at the cursor
      obtain ⟨-, hsplit⟩ := findFrom_some h
      have hpos := (lt_length_of_findFrom h).1
      have hcut : line.drop pos1 = delimiter :: line.drop (pos2 + 1) := by
        rw [hsplit, show (line.drop pos1).take (pos2 - pos1) = [] from hword]
        rfl
      have hnext : line.drop (pos1 + 1) = line.drop (pos2 + 1) := by
        rw [← List.drop_drop, hcut]
        rfl
      rw [ih, hnext, hcut, wordsThenRest_delimiter]
  | case3 pos1 result pos2 h word hword ih =>
      obtain ⟨hfree, hsplit⟩ := findFrom_some h
      rw [ih, List.append_assoc]
      conv_rhs => rw [hsplit, wordsThenRest_word hfree hword]
      rfl

/-- The words of the line and, if nothing follows the last delimiter, an empty one. -/
theorem dbgcmdParser_eq (line : Str) (delimiter : Char) :
    dbgcmdParser line delimiter = wordsThenRest delimiter line := by
  rw [dbgcmdParser, dbgcmdParserLoop_eq]
  rfl

/-- The last word is appended whatever is left. -/
theorem dbgcmdParserLoop_ne_nil (line : Str) (delimiter : Char) (pos1 : Nat) (result : List Str) :
    dbgcmdParserLoop line delimiter pos1 result ≠ [] := by
  fun_induction dbgcmdParserLoop line delimiter pos1 result with
  | case1 pos1 result h => simp
  | case2 pos1 result pos2 h word hword ih => exact ih
  | case3 pos1 result pos2 h word hword ih => exact ih

/-- What the parser returns: at least one word; the words that are not empty are
the maximal runs of the line, in order; only the last can be empty, and it is
when the line is empty or ends with the delimiter. -/
theorem dbgcmdParser_words (line : Str) (delimiter : Char) :
    dbgcmdParser line delimiter ≠ [] ∧
      (∃ R : List (Nat × Nat), R.Pairwise (fun r r' => r.2 < r'.1) ∧
        (∀ i j, (i, j) ∈ R ↔ MaxRun (· == delimiter) line i j) ∧
        (dbgcmdParser line delimiter).filter (· ≠ []) =
          R.map fun r => (line.drop r.1).take (r.2 - r.1)) ∧
      (∀ w ∈ (dbgcmdParser line delimiter).dropLast, w ≠ []) ∧
      ((dbgcmdParser line delimiter).getLast? = some [] ↔
        line = [] ∨ line.getLast? = some delimiter) := by
  have hwords : ∀ w ∈ words (· == delimiter) line, w ≠ [] := fun w hw => by
    simpa using (List.mem_filter.1 hw).2
  have hends : endsEmpty delimiter line = true ↔ line = [] ∨ line.getLast? = some delimiter := by
    rw [endsEmpty]
    cases h : line.getLast? with
    | none => simp [List.getLast?_eq_none_iff.1 h]
    | some c =>
        have hne : line ≠ [] := by
          rintro rfl
          cases h
        simp [hne]
  have hne := dbgcmdParserLoop_ne_nil line delimiter 0 []
  rw [← dbgcmdParser, dbgcmdParser_eq, wordsThenRest] at hne
  rw [dbgcmdParser_eq, wordsThenRest, ← hends]
  obtain ⟨R, hsorted, hruns, hR⟩ := words_eq_runs (· == delimiter) line
  have hfilter : (words (· == delimiter) line).filter (· ≠ []) = words (· == delimiter) line :=
    List.filter_eq_self.2 fun w hw => by simpa using hwords w hw
  cases hend : endsEmpty delimiter line with
  | true =>
      refine ⟨by simp, ⟨R, hsorted, hruns, ?_⟩, ?_, by simp⟩
      · rw [if_pos rfl, List.filter_append, hfilter, ← hR]
        simp
      · rw [if_pos rfl, List.dropLast_concat]
        exact hwords
  | false =>
      rw [hend] at hne
      simp only [Bool.false_eq_true, if_false, List.append_nil] at hne ⊢
      refine ⟨hne, ⟨R, hsorted, hruns, hfilter.trans hR⟩, ?_, ?_⟩
      · exact fun w hw => hwords w (List.dropLast_subset _ hw)
      · exact iff_of_false (fun h => hwords _ (List.mem_of_getLast? h) rfl) not_false

end Sdb
