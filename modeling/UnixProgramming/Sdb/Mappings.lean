import UnixProgramming.Sdb.FileParsers
import UnixProgramming.Text.Lines
import UnixProgramming.Text.Numerals

/-!
# The mappings `maps_parser` finds

The mappings of a process as the kernel prints them, and what `maps_parser` makes of
the text.  The order of its map compares both ends of a range, and so does not order
ranges that lie in one another; ranges that do not overlap it does.

* `Vma`, `Vma.line` — a mapping, and its line in `/proc/[pid]/maps`.
* `words_line`, `mapsLine_line` — the fields of a line are read back.
* `Range.lt_of_apart` — of two ranges that do not overlap one is the smaller.
* `insertMapping_perm`, `insertMapping_sorted` — so no insertion overwrites another entry.
* `mapsParser_named` — the map holds the mappings with a name and nothing else.
-/

namespace Sdb

open ByteMemory CString

/-! ## The lines of the kernel -/

/-- A character of a field: no delimiter and no NUL. -/
def Plain (c : Char) : Prop := mapsDelimiter c = false ∧ c ≠ Char.ofNat 0

/-- The values of a mapping; `pad` is how far the name stands behind the other fields. -/
structure VmaFields where
  beginAddr : Word
  endAddr : Word
  perm : Str
  offset : Nat
  major : Nat
  minor : Nat
  inode : Nat
  pad : Nat
  name : Option Str

namespace VmaFields

variable (m : VmaFields)

/-- `%08lx-%08lx`. -/
def rangeText : Str := numeral 16 8 m.beginAddr.toNat ++ '-' :: numeral 16 8 m.endAddr.toNat

/-- `%02x:%02x`. -/
def deviceText : Str := numeral 16 2 m.major ++ ':' :: numeral 16 2 m.minor

/-- The fields every line has. -/
def fields : List Str :=
  [m.rangeText, m.perm, numeral 16 8 m.offset, m.deviceText, numeral 10 0 m.inode]

/-- The name, at its place. -/
def nameText : Str :=
  match m.name with
  | none => []
  | some name => List.replicate m.pad ' ' ++ name

/-- The line of the mapping, but for its newline. -/
def line : Str := (m.fields.flatMap fun w => w ++ [' ']) ++ m.nameText

end VmaFields

/-- A mapping with a range that is not empty, an offset that is a `long`, four
permission characters, a name without blanks if it has one, and a line that fits
the buffer of `maps_parser`. -/
structure Vma extends VmaFields where
  nonempty : beginAddr < endAddr
  perm_length : perm.length = 4
  perm_plain : ∀ c ∈ perm, Plain c
  offset_lt : offset < 2 ^ 63
  name_ne_nil : ∀ s ∈ name, s ≠ []
  name_plain : ∀ s ∈ name, ∀ c ∈ s, Plain c
  fits : toVmaFields.line.length ≤ 254

/-- What `/proc/[pid]/maps` says. -/
def procMaps (ms : List Vma) : Str := (ms.map fun m => m.line ++ ['\n']).flatten

/-! ## The fields are read back -/

theorem plain_of_isDigit {base : Nat} {c : Char} (h : isDigit base c = true) : Plain c := by
  refine ⟨?_, ne_of_isDigit rfl h⟩
  rw [mapsDelimiter, decide_eq_false_iff_not]
  rintro (hc | hc | hc | hc)
  · exact ne_of_isDigit rfl h hc
  · exact ne_of_isDigit rfl h hc
  · exact ne_of_isDigit rfl h hc
  · exact ne_of_isDigit rfl h hc

theorem plain_numeral_sixteen {width n : Nat} {c : Char} (hc : c ∈ numeral 16 width n) : Plain c :=
  plain_of_isDigit (isDigit_numeral_sixteen width n c hc)

/-- Two numbers with a mark between them. -/
theorem plain_numerals {w₁ w₂ n₁ n₂ : Nat} {x c : Char} (hx : Plain x)
    (hc : c ∈ numeral 16 w₁ n₁ ++ x :: numeral 16 w₂ n₂) : Plain c := by
  rcases List.mem_append.1 hc with hc | hc
  · exact plain_numeral_sixteen hc
  · rcases List.mem_cons.1 hc with rfl | hc
    · exact hx
    · exact plain_numeral_sixteen hc

namespace Vma

variable (m : Vma)

/-- The fields are words. -/
theorem fields_plain : ∀ w ∈ m.fields, w ≠ [] ∧ ∀ c ∈ w, Plain c := by
  have hdash : Plain '-' := ⟨rfl, by decide⟩
  have hcolon : Plain ':' := ⟨rfl, by decide⟩
  intro w hw
  simp only [VmaFields.fields, List.mem_cons, List.not_mem_nil, or_false] at hw
  rcases hw with rfl | rfl | rfl | rfl | rfl
  · exact ⟨by simp [VmaFields.rangeText], fun c hc => plain_numerals hdash hc⟩
  · refine ⟨fun hnil => ?_, m.perm_plain⟩
    have hlen := m.perm_length
    rw [hnil] at hlen
    cases hlen
  · exact ⟨numeral_ne_nil 16 8 _, fun c hc => plain_numeral_sixteen hc⟩
  · exact ⟨by simp [VmaFields.deviceText], fun c hc => plain_numerals hcolon hc⟩
  · exact ⟨numeral_ne_nil 10 0 _, fun c hc =>
      plain_of_isDigit (isDigit_of_mem_numeral (by decide) (by decide) hc)⟩

theorem nameText_plain : ∀ c ∈ m.nameText, c = ' ' ∨ Plain c := by
  intro c hc
  rw [VmaFields.nameText] at hc
  cases hname : m.name with
  | none =>
      rw [hname] at hc
      cases hc
  | some name =>
      rw [hname] at hc
      rcases List.mem_append.1 hc with hc | hc
      · exact Or.inl (List.eq_of_mem_replicate hc)
      · exact Or.inr (m.name_plain name hname c hc)

theorem line_plain : ∀ c ∈ m.line, c = ' ' ∨ Plain c := by
  intro c hc
  rcases List.mem_append.1 hc with hc | hc
  · obtain ⟨w, hw, hc⟩ := List.mem_flatMap.1 hc
    rcases List.mem_append.1 hc with hc | hc
    · exact Or.inr ((m.fields_plain w hw).2 c hc)
    · exact Or.inl (List.mem_singleton.1 hc)
  · exact m.nameText_plain c hc

theorem newline_notMem_line : '\n' ∉ m.line := by
  intro hc
  rcases m.line_plain _ hc with h | ⟨h, -⟩
  · cases h
  · cases h

theorem nul_notMem_line : Char.ofNat 0 ∉ m.line ++ ['\n'] := by
  rw [List.mem_append, not_or]
  refine ⟨fun hc => ?_, by decide⟩
  rcases m.line_plain _ hc with h | ⟨-, h⟩
  · exact absurd h (by decide)
  · exact h rfl

/-- The words of a line: its fields, and the name if there is one. -/
theorem words_line : words mapsDelimiter (m.line ++ ['\n']) = m.fields ++ m.name.toList := by
  have hfields : ∀ w ∈ m.fields, w ≠ [] ∧ ∀ c ∈ w, mapsDelimiter c = false := fun w hw =>
    ⟨(m.fields_plain w hw).1, fun c hc => ((m.fields_plain w hw).2 c hc).1⟩
  rw [VmaFields.line, List.append_assoc, words_flatMap_sep rfl hfields, VmaFields.nameText]
  congr 1
  cases hname : m.name with
  | none => rfl
  | some name =>
      rw [List.append_assoc, words_replicate_sep rfl,
        words_append_sep (fun c hc => (m.name_plain name hname c hc).1)
          (m.name_ne_nil name hname) rfl]
      rfl

/-- The entry of a mapping under a name. -/
def entry (name : Str) : MapEntry where
  range := ⟨m.beginAddr, m.endAddr⟩
  perm := m.perm.take 3
  offset := m.offset
  name := name

theorem not_dash_of_mem_numeral {width n : Nat} :
    ∀ c ∈ numeral 16 width n, decide (c ≠ '-') = true := fun c hc =>
  decide_eq_true (ne_of_isDigit rfl (isDigit_numeral_sixteen width n c hc))

/-- The line of a mapping with a name is read as its entry, the others are passed over. -/
theorem mapsLine_line : mapsLine (m.line ++ ['\n']) = .ok (m.name.map m.entry) := by
  rw [mapsLine, cstr_of_notMem m.nul_notMem_line, m.words_line]
  cases hname : m.name with
  | none => rfl
  | some name =>
      have hperm : ¬ m.perm.length < 3 := by rw [m.perm_length]; decide
      have hdash : '-' ∈ m.rangeText := by simp [VmaFields.rangeText]
      have hbegin : m.rangeText.takeWhile (fun c => decide (c ≠ '-')) =
          numeral 16 8 m.beginAddr.toNat :=
        takeWhile_append_cons not_dash_of_mem_numeral rfl _
      have hend : (m.rangeText.dropWhile (fun c => decide (c ≠ '-'))).drop 1 =
          numeral 16 8 m.endAddr.toNat := by
        rw [VmaFields.rangeText, dropWhile_append_cons not_dash_of_mem_numeral rfl]
        rfl
      simp only [VmaFields.fields, Option.toList_some, List.cons_append, List.nil_append,
        if_neg hperm, if_pos hdash]
      rw [hbegin, hend, strtoul_numeral, strtoul_numeral, strtol_numeral 8 m.offset_lt]
      rfl

end Vma

/-! ## The order of the map -/

namespace Range

variable {r r' r'' : Range}

/-- Two ranges without a common address. -/
def Apart (r r' : Range) : Prop := r.endAddr ≤ r'.beginAddr ∨ r'.endAddr ≤ r.beginAddr

theorem lt_iff : r.lt r' = true ↔ r.beginAddr < r'.beginAddr ∧ r.endAddr < r'.endAddr :=
  decide_eq_true_iff

theorem lt_irrefl (r : Range) : r.lt r = false :=
  Bool.eq_false_iff.2 fun h => absurd (lt_iff.1 h).1 (BitVec.lt_irrefl _)

theorem lt_trans (h : r.lt r' = true) (h' : r'.lt r'' = true) : r.lt r'' = true := by
  rw [lt_iff] at h h' ⊢
  exact ⟨BitVec.lt_trans h.1 h'.1, BitVec.lt_trans h.2 h'.2⟩

/-- Of two ranges that are apart and not empty one is the smaller. -/
theorem lt_of_apart (h : r.beginAddr < r.endAddr) (h' : r'.beginAddr < r'.endAddr)
    (hapart : r.Apart r') : r.lt r' = true ∨ r'.lt r = true := by
  rw [BitVec.lt_def] at h h'
  rw [lt_iff, lt_iff]
  simp only [Apart, BitVec.lt_def, BitVec.le_def] at hapart ⊢
  omega

/-- Ranges within one another are not ordered. -/
example : Range.lt ⟨0, 4⟩ ⟨1, 3⟩ = false ∧ Range.lt ⟨1, 3⟩ ⟨0, 4⟩ = false := by decide

end Range

/-- What a `map` needs of its order on the keys it is given, and no two of them
that differ are taken for the same. -/
structure OrdersKeys (keys : List Range) : Prop where
  irrefl : ∀ r ∈ keys, r.lt r = false
  trans : ∀ r ∈ keys, ∀ r' ∈ keys, ∀ r'' ∈ keys,
    r.lt r' = true → r'.lt r'' = true → r.lt r'' = true
  connected : ∀ r ∈ keys, ∀ r' ∈ keys, r.lt r' = true ∨ r = r' ∨ r'.lt r = true

/-- `loaded.find(r)`: the first entry that is not smaller, if it is not greater. -/
def findMapping (r : Range) : List MapEntry → Option MapEntry
  | [] => none
  | x :: rest =>
      if x.range.lt r then findMapping r rest
      else if r.lt x.range then none
      else some x

namespace MapEntry

/-- In the order of the map. -/
def Before (e e' : MapEntry) : Prop := e.range.lt e'.range = true

/-- One is before the other. -/
def Comparable (e e' : MapEntry) : Prop := e.Before e' ∨ e'.Before e

theorem Comparable.symm {e e' : MapEntry} (h : e.Comparable e') : e'.Comparable e := Or.symm h

end MapEntry

section Insert

variable {e : MapEntry} {l : List MapEntry}

/-- An entry comparable with all others is added to them. -/
theorem insertMapping_perm (h : ∀ x ∈ l, e.Comparable x) : (insertMapping e l).Perm (e :: l) := by
  induction l with
  | nil => exact List.Perm.refl _
  | cons x l ih =>
      have hrest : ∀ y ∈ l, e.Comparable y := fun y hy => h y (List.mem_cons_of_mem _ hy)
      rw [insertMapping]
      by_cases hx : x.range.lt e.range = true
      · rw [if_pos hx]
        exact ((ih hrest).cons x).trans (List.Perm.swap e x l)
      · have hbefore : e.range.lt x.range = true := (h x List.mem_cons_self).resolve_right hx
        rw [if_neg hx, if_pos hbefore]

theorem insertMapping_sorted (h : ∀ x ∈ l, e.Comparable x) (hl : l.Pairwise MapEntry.Before) :
    (insertMapping e l).Pairwise MapEntry.Before := by
  induction l with
  | nil => exact List.pairwise_singleton _ _
  | cons x l ih =>
      obtain ⟨hfirst, htail⟩ := List.pairwise_cons.1 hl
      have hrest : ∀ y ∈ l, e.Comparable y := fun y hy => h y (List.mem_cons_of_mem _ hy)
      rw [insertMapping]
      by_cases hx : x.range.lt e.range = true
      · rw [if_pos hx, List.pairwise_cons]
        refine ⟨fun y hy => ?_, ih hrest htail⟩
        rcases List.mem_cons.1 ((insertMapping_perm hrest).mem_iff.1 hy) with rfl | hy
        · exact hx
        · exact hfirst y hy
      · have hbefore : e.range.lt x.range = true := (h x List.mem_cons_self).resolve_right hx
        rw [if_neg hx, if_pos hbefore, List.pairwise_cons]
        refine ⟨fun y hy => ?_, hl⟩
        rcases List.mem_cons.1 hy with rfl | hy
        · exact hbefore
        · exact Range.lt_trans hbefore (hfirst y hy)

/-- An entry of the map is found under its range. -/
theorem findMapping_of_mem (hl : l.Pairwise MapEntry.Before) (he : e ∈ l) :
    findMapping e.range l = some e := by
  induction l with
  | nil => cases he
  | cons x l ih =>
      obtain ⟨hfirst, htail⟩ := List.pairwise_cons.1 hl
      rw [findMapping]
      rcases List.mem_cons.1 he with rfl | he
      · rw [Range.lt_irrefl, if_neg Bool.false_ne_true, if_neg Bool.false_ne_true]
      · have hx : x.range.lt e.range = true := hfirst e he
        rw [if_pos hx]
        exact ih htail he

end Insert

/-- Entries that are pairwise comparable, inserted one after the other. -/
theorem foldl_insertMapping {es loaded : List MapEntry}
    (hcmp : (es ++ loaded).Pairwise MapEntry.Comparable)
    (hsorted : loaded.Pairwise MapEntry.Before) :
    (es.foldl (fun l e => insertMapping e l) loaded).Perm (es ++ loaded) ∧
      (es.foldl (fun l e => insertMapping e l) loaded).Pairwise MapEntry.Before := by
  induction es generalizing loaded with
  | nil => exact ⟨List.Perm.refl _, hsorted⟩
  | cons e es ih =>
      obtain ⟨hfirst, -⟩ := List.pairwise_cons.1 hcmp
      have hnew : ∀ x ∈ loaded, e.Comparable x := fun x hx => hfirst x (List.mem_append_right _ hx)
      have hperm : (es ++ insertMapping e loaded).Perm (e :: es ++ loaded) :=
        ((insertMapping_perm hnew).append_left es).trans List.perm_middle
      have hcmp' := (hperm.pairwise_iff fun h => MapEntry.Comparable.symm h).2 hcmp
      obtain ⟨hall, hsort⟩ := ih hcmp' (insertMapping_sorted hnew hsorted)
      exact ⟨hall.trans hperm, hsort⟩

/-! ## The parser -/

/-- The entry of a mapping, if it has a name. -/
def Vma.entry? (m : Vma) : Option MapEntry := m.name.map m.entry

/-- The loop over the lines of mappings. -/
theorem mapsLines_lines (ms : List Vma) (loaded : List MapEntry) :
    mapsLines (ms.map fun m => m.line ++ ['\n']) loaded =
      .ok (ms.filterMap Vma.entry?,
        (ms.filterMap Vma.entry?).foldl (fun l e => insertMapping e l) loaded) := by
  induction ms generalizing loaded with
  | nil => rfl
  | cons m ms ih =>
      rw [List.map_cons, mapsLines, m.mapsLine_line]
      cases hname : m.name with
      | none =>
          have hentry : m.entry? = none := by rw [Vma.entry?, hname]; rfl
          rw [List.filterMap_cons_none hentry]
          exact ih loaded
      | some name =>
          have hentry : m.entry? = some (m.entry name) := by rw [Vma.entry?, hname]; rfl
          rw [List.filterMap_cons_some hentry, List.foldl_cons]
          change (mapsLines _ (insertMapping (m.entry name) loaded) >>= _) = _
          rw [ih]
          rfl

/-- `fgets` hands out a line at a time. -/
theorem fgetsPieces_procMaps (ms : List Vma) :
    fgetsPieces 256 (procMaps ms) = ms.map fun m => m.line ++ ['\n'] := by
  have hends : ∀ l ∈ ms.map (fun m => m.line ++ ['\n']), ∃ u, l = u ++ ['\n'] ∧ '\n' ∉ u := by
    intro l hl
    obtain ⟨m, -, rfl⟩ := List.mem_map.1 hl
    exact ⟨m.line, rfl, m.newline_notMem_line⟩
  have hlines : lines (procMaps ms) = ms.map fun m => m.line ++ ['\n'] := by
    have h := lines_flatten_append hends []
    rwa [List.append_nil, lines, List.append_nil] at h
  rw [fgetsPieces_of_short, hlines]
  intro l hl
  rw [hlines] at hl
  obtain ⟨m, -, rfl⟩ := List.mem_map.1 hl
  have hfits := m.fits
  rw [List.length_append, List.length_singleton]
  omega

/-- The range of a mapping. -/
def Vma.range (m : Vma) : Range := ⟨m.beginAddr, m.endAddr⟩

/-- The map holds the mappings with a name and nothing else. -/
structure HoldsNamed (ms : List Vma) (loaded : List MapEntry) : Prop where
  /-- Its size is their number. -/
  count : loaded.length = ms.countP fun m => m.name.isSome
  /-- Each is under its range, with its values. -/
  found : ∀ m ∈ ms, ∀ name, m.name = some name →
    findMapping m.range loaded = some
      { range := ⟨m.beginAddr, m.endAddr⟩, perm := m.perm.take 3, offset := m.offset, name := name }
  /-- Nothing else is. -/
  only : ∀ e ∈ loaded, ∃ m ∈ ms, ∃ name, m.name = some name ∧ e = m.entry name

theorem Vma.comparable_entry {m m' : Vma} (h : m.range.Apart m'.range) (name name' : Str) :
    (m.entry name).Comparable (m'.entry name') :=
  Range.lt_of_apart m.nonempty m'.nonempty h

theorem ordersKeys_of_apart {ms : List Vma}
    (hapart : ms.Pairwise fun m m' => m.range.Apart m'.range) :
    OrdersKeys (ms.map Vma.range) where
  irrefl r _ := r.lt_irrefl
  trans _ _ _ _ _ _ := Range.lt_trans
  connected := by
    have hcmp : (ms.map Vma.range).Pairwise fun r r' => r.lt r' = true ∨ r'.lt r = true :=
      List.pairwise_map.2 (hapart.imp fun {m m'} h => Range.lt_of_apart m.nonempty m'.nonempty h)
    have : Std.Symm fun r r' : Range => r.lt r' = true ∨ r'.lt r = true := ⟨fun _ _ h => h.symm⟩
    intro r hr r' hr'
    by_cases heq : r = r'
    · exact Or.inr (Or.inl heq)
    · rcases hcmp.forall hr hr' heq with h | h
      · exact Or.inl h
      · exact Or.inr (Or.inr h)

/-- The map after the loop. -/
theorem holdsNamed_of_apart {ms : List Vma}
    (hapart : ms.Pairwise fun m m' => m.range.Apart m'.range) :
    HoldsNamed ms ((ms.filterMap Vma.entry?).foldl (fun l e => insertMapping e l) []) := by
  have hcmp : (ms.filterMap Vma.entry? ++ []).Pairwise MapEntry.Comparable := by
    rw [List.append_nil, List.pairwise_filterMap]
    refine hapart.imp fun {m m'} h e he e' he' => ?_
    obtain ⟨name, -, rfl⟩ := Option.map_eq_some_iff.1 he
    obtain ⟨name', -, rfl⟩ := Option.map_eq_some_iff.1 he'
    exact Vma.comparable_entry h name name'
  obtain ⟨hperm, hsorted⟩ := foldl_insertMapping hcmp List.Pairwise.nil
  rw [List.append_nil] at hperm
  have hmem : ∀ e, e ∈ (ms.filterMap Vma.entry?).foldl (fun l e => insertMapping e l) [] ↔
      ∃ m ∈ ms, ∃ name, m.name = some name ∧ e = m.entry name := by
    intro e
    rw [hperm.mem_iff, List.mem_filterMap]
    refine exists_congr fun m => and_congr_right fun _ => ?_
    rw [Vma.entry?, Option.map_eq_some_iff]
    exact exists_congr fun name => and_congr_right fun _ => eq_comm
  refine ⟨?_, fun m hm name hname => ?_, fun e he => (hmem e).1 he⟩
  · rw [hperm.length_eq, List.length_filterMap_eq_countP]
    simp only [Vma.entry?, Option.isSome_map]
  · exact findMapping_of_mem (e := m.entry name) hsorted ((hmem _).2 ⟨m, hm, name, hname, rfl⟩)

/-- Mappings that do not overlap, in any order, with and without names: the order is
one on their ranges, the parser returns, and its map holds those with a name.  What
`maps_parser` returns is the size of the map. -/
theorem mapsParser_named (ms : List Vma)
    (hapart : ms.Pairwise fun m m' => m.range.Apart m'.range) :
    OrdersKeys (ms.map Vma.range) ∧
      ∃ printed loaded, mapsParser (procMaps ms) = .ok (printed, loaded) ∧
        HoldsNamed ms loaded := by
  refine ⟨ordersKeys_of_apart hapart, ms.filterMap Vma.entry?, _, ?_, holdsNamed_of_apart hapart⟩
  rw [mapsParser, fgetsPieces_procMaps, mapsLines_lines]

namespace Sample

/-- A mapping of `/bin/a`. -/
def program : Vma where
  beginAddr := 0x400000
  endAddr := 0x401000
  perm := "r-xp".toList
  offset := 0x1000
  major := 8
  minor := 1
  inode := 42
  pad := 3
  name := some "/bin/a".toList
  nonempty := by decide
  perm_length := rfl
  perm_plain := by simp [Plain, mapsDelimiter]
  offset_lt := by decide
  name_ne_nil := by simp
  name_plain := by simp [Plain, mapsDelimiter]
  fits := by decide

/-- A mapping below it, without a name. -/
def anonymous : Vma where
  beginAddr := 0x10000
  endAddr := 0x20000
  perm := "rw-p".toList
  offset := 0
  major := 0
  minor := 0
  inode := 0
  pad := 0
  name := none
  nonempty := by decide
  perm_length := rfl
  perm_plain := by simp [Plain, mapsDelimiter]
  offset_lt := by decide
  name_ne_nil := by simp
  name_plain := by simp
  fits := by decide

end Sample

theorem mapsParser_named_sample :
    OrdersKeys ([Sample.program, Sample.anonymous].map Vma.range) ∧
      ∃ printed loaded,
        mapsParser (procMaps [Sample.program, Sample.anonymous]) = .ok (printed, loaded) ∧
          HoldsNamed [Sample.program, Sample.anonymous] loaded :=
  mapsParser_named _ (by
    rw [List.pairwise_pair]
    exact Or.inr (by decide))

end Sdb
