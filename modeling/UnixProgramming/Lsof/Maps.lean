import UnixProgramming.Lsof.Listing
import UnixProgramming.Text.Lines
import UnixProgramming.Text.Search

/-!
# Mapped files

What the rows of `maps` say about its lines: which files they list, in what order, and
whether a removed file is told from one that is there.

* `ListedOnce`, `mapRows_listedOnce` — the rows of a list of entries.
* `maps_listed_once` — the rows of `maps`, if its lines are complete and fit the buffer.
* `MapLine`, `mapTokens_text` — a line as the kernel writes it, and its tokens.
* `maps_marked_iff` — a row says that its file was removed exactly when the kernel does,
  for just the lines whose name has the letters of the mark when they have the mark.
-/

namespace Lsof

open CString

variable {fs : ProcFs} {p : Process}

/-! ## Each name once -/

/-- The place of the first entry with a name. -/
def firstAt (entries : List (Str × Str)) (name : Str) : Nat :=
  entries.findIdx fun e => e.2 = name

/-- The rows list the names of the entries that are not known, each once, in the order in
which they come first, and with the inode they have there. -/
structure ListedOnce (known : List Str) (entries : List (Str × Str)) (rows : List File) :
    Prop where
  nodup : (rows.map File.name).Nodup
  fresh : ∀ f ∈ rows, f.name ∉ known
  ordered : rows.Pairwise fun f g => firstAt entries f.name < firstAt entries g.name
  first : ∀ f ∈ rows, entries.find? (fun e => e.2 = f.name) = some (f.inode, f.name)
  fields : ∀ f ∈ rows, f = File.ofFields (mapField f.name) f.name f.inode "REG".toList
  complete : ∀ e ∈ entries, e.2 ∈ rows.map File.name ∨ e.2 ∈ known

theorem firstAt_cons_self (e : Str × Str) (entries : List (Str × Str)) :
    firstAt (e :: entries) e.2 = 0 := by
  simp [firstAt, List.findIdx_cons]

theorem firstAt_cons_of_ne {e : Str × Str} {name : Str} (h : name ≠ e.2)
    (entries : List (Str × Str)) : firstAt (e :: entries) name = firstAt entries name + 1 := by
  simp [firstAt, List.findIdx_cons, Ne.symm h]

/-- An entry that has no row leaves the rows of the rest as they are. -/
theorem ListedOnce.cons_of_mem {known : List Str} {e : Str × Str} {entries : List (Str × Str)}
    {rows : List File} (he : e.2 ∈ known) (h : ListedOnce known entries rows) :
    ListedOnce known (e :: entries) rows := by
  have hne : ∀ f ∈ rows, f.name ≠ e.2 := by
    intro f hf heq
    exact h.fresh f hf (heq ▸ he)
  refine ⟨h.nodup, h.fresh, ?_, ?_, h.fields, ?_⟩
  · refine h.ordered.imp_of_mem fun hf hg hlt => ?_
    rw [firstAt_cons_of_ne (hne _ hf), firstAt_cons_of_ne (hne _ hg)]
    omega
  · intro f hf
    rw [List.find?_cons_of_neg (by simpa using Ne.symm (hne f hf))]
    exact h.first f hf
  · intro d hd
    rcases List.mem_cons.1 hd with rfl | hd
    · exact Or.inr he
    · exact h.complete d hd

/-- An entry with a new name has the first row. -/
theorem ListedOnce.cons_of_notMem {known : List Str} {inode name : Str}
    {entries : List (Str × Str)} {rows : List File} (hname : name ∉ known)
    (h : ListedOnce (known ++ [name]) entries rows) :
    ListedOnce known ((inode, name) :: entries)
      (File.ofFields (mapField name) name inode "REG".toList :: rows) := by
  have hfresh : ∀ f ∈ rows, f.name ∉ known ∧ f.name ≠ name := by
    intro f hf
    have hnew := h.fresh f hf
    rw [List.mem_append, not_or, List.mem_singleton] at hnew
    exact hnew
  refine ⟨?_, ?_, ?_, ?_, ?_, ?_⟩
  · rw [List.map_cons, List.nodup_cons]
    refine ⟨fun hmem => ?_, h.nodup⟩
    obtain ⟨f, hf, heq⟩ := List.mem_map.1 hmem
    exact (hfresh f hf).2 heq
  · intro f hf
    rcases List.mem_cons.1 hf with rfl | hf
    · exact hname
    · exact (hfresh f hf).1
  · rw [List.pairwise_cons]
    constructor
    · intro f hf
      have hself : firstAt ((inode, name) :: entries) name = 0 := firstAt_cons_self _ _
      show firstAt ((inode, name) :: entries) name < firstAt ((inode, name) :: entries) f.name
      rw [hself, firstAt_cons_of_ne (hfresh f hf).2]
      omega
    · refine h.ordered.imp_of_mem fun hf hg hlt => ?_
      rw [firstAt_cons_of_ne (hfresh _ hf).2, firstAt_cons_of_ne (hfresh _ hg).2]
      omega
  · intro f hf
    rcases List.mem_cons.1 hf with rfl | hf
    · exact List.find?_cons_of_pos (by simp [File.ofFields])
    · rw [List.find?_cons_of_neg (by simpa using Ne.symm (hfresh f hf).2)]
      exact h.first f hf
  · intro f hf
    rcases List.mem_cons.1 hf with rfl | hf
    · rfl
    · exact h.fields f hf
  · intro d hd
    rcases List.mem_cons.1 hd with rfl | hd
    · exact Or.inl List.mem_cons_self
    · rcases h.complete d hd with hrow | hknown
      · exact Or.inl (List.mem_cons_of_mem _ hrow)
      · rcases List.mem_append.1 hknown with hknown | hself
        · exact Or.inr hknown
        · exact Or.inl (by rw [List.mem_singleton.1 hself]; exact List.mem_cons_self)

theorem mapRows_listedOnce (known : List Str) (entries : List (Str × Str)) :
    ListedOnce known entries (mapRows known entries) := by
  induction entries generalizing known with
  | nil =>
      constructor <;> simp [mapRows_nil]
  | cons e entries ih =>
      obtain ⟨inode, name⟩ := e
      rw [mapRows_cons]
      split
      · rename_i hknown
        exact (ih known).cons_of_mem hknown
      · rename_i hnew
        exact ListedOnce.cons_of_notMem hnew (ih _)

/-- What is read of `maps`, if all of it is complete. -/
theorem handleMemoryMaps_of_complete (halive : p.alive = true) {text : Str}
    (hopen : fs.fopen (mapsPath p.path) = .ok text)
    (h : ∀ piece ∈ fgetsPieces bufferSize text, Complete piece) :
    ∃ known, handleMemoryMaps fs p = .ok { p with
      fileList := p.fileList ++
        mapRows p.hash ((fgetsPieces bufferSize text).filterMap mapEntry)
      hash := known } := by
  have hdead : ¬ p.alive = false := by simp [halive]
  rw [handleMemoryMaps, if_neg hdead, hopen]
  exact mapLines_of_complete h

/-- **Mapped files are listed once each, and none is lost.**  If every line of `maps` fits
the buffer and has an inode, and a name unless that is 0, then the rows that are added
have names that differ from each other and from those known; they come in the order in
which the names first stand on a line whose inode is not 0, and with the inode there;
and every name on such a line is listed or known. -/
theorem maps_listed_once (halive : p.alive = true) {text : Str}
    (hopen : fs.fopen (mapsPath p.path) = .ok text)
    (hlines : ∀ l ∈ lines text, l.length < bufferSize ∧ Complete l) :
    ∃ q rows, handleMemoryMaps fs p = .ok q ∧ q.fileList = p.fileList ++ rows ∧
      ListedOnce p.hash ((lines text).filterMap mapEntry) rows := by
  have hpieces : fgetsPieces bufferSize text = lines text :=
    fgetsPieces_of_short fun l hl => (hlines l hl).1
  obtain ⟨known, hr⟩ := handleMemoryMaps_of_complete halive hopen fun piece hpiece =>
    (hlines piece (hpieces ▸ hpiece)).2
  rw [hpieces] at hr
  exact ⟨_, _, hr, rfl, mapRows_listedOnce _ _⟩

/-! ## Lines of the kernel -/

/-- NUL. -/
def nul : Char := Char.ofNat 0

/-- A text without blanks, and not empty. -/
structure Solid (s : Str) : Prop where
  ne_nil : s ≠ []
  not_blank : ∀ c ∈ s, isBlank c = false
  not_nul : nul ∉ s

/-- A line of `maps` as the kernel writes it: five fields, then blanks and the name of the
file, if there is one, and behind it the mark of a file that was removed.  The kernel
writes no newline in a name. -/
structure MapLine where
  range : Str
  perms : Str
  offset : Str
  dev : Str
  inode : Str
  /-- The blanks that align the name, but for the first. -/
  pad : Nat
  pathname : Str
  deleted : Bool
  solid : ∀ f ∈ [range, perms, offset, dev, inode], Solid f
  path_nul : nul ∉ pathname
  path_newline : '\n' ∉ pathname
  path_start : ∀ c, pathname.head? = some c → isBlank c = false
  path_of_inode : inode ≠ "0".toList → pathname ≠ []

/-- What is appended to the name of a removed file. -/
def deletedMark : Str := " (deleted)".toList

namespace MapLine

/-- The name as it is written, with its mark. -/
def marked (l : MapLine) : Str := l.pathname ++ if l.deleted then deletedMark else []

/-- The line but for its newline. -/
def body (l : MapLine) : Str :=
  l.range ++ ' ' :: (l.perms ++ ' ' :: (l.offset ++ ' ' :: (l.dev ++ ' ' :: (l.inode ++ ' ' ::
    (List.replicate l.pad ' ' ++ l.marked)))))

/-- The line. -/
def text (l : MapLine) : Str := l.body ++ ['\n']

/-- The name up to its first blank. -/
def name (l : MapLine) : Str := l.pathname.takeWhile fun c => !isBlank c

/-- What the row of the line is to show. -/
def mark (l : MapLine) : Str := if l.deleted then "DEL".toList else "mem".toList

end MapLine

/-- What `maps` says. -/
def mapsText (ls : List MapLine) : Str := (ls.map MapLine.text).flatten

theorem isBlank_space : isBlank ' ' = true := rfl

namespace MapLine

variable (l : MapLine)

/-- What is in a line is in a field, in the name or the mark, or a blank. -/
theorem notMem_body {c : Char} (hfields : ∀ f ∈ [l.range, l.perms, l.offset, l.dev, l.inode], c ∉ f)
    (hpath : c ∉ l.pathname) (hspace : c ≠ ' ') (hmark : c ∉ deletedMark) : c ∉ l.body := by
  simp only [List.mem_cons, List.not_mem_nil, or_false, forall_eq_or_imp, forall_eq] at hfields
  obtain ⟨h1, h2, h3, h4, h5⟩ := hfields
  have hrep : c ∉ List.replicate l.pad ' ' := fun h => hspace (List.eq_of_mem_replicate h)
  have hmarked : c ∉ l.marked := by
    rw [marked, List.mem_append, not_or]
    refine ⟨hpath, ?_⟩
    cases l.deleted with
    | true => exact hmark
    | false => exact List.not_mem_nil
  simp only [body, List.mem_append, List.mem_cons, not_or]
  exact ⟨h1, hspace, h2, hspace, h3, hspace, h4, hspace, h5, hspace, hrep, hmarked⟩

theorem nul_notMem_text : nul ∉ l.text := by
  rw [text, List.mem_append, not_or]
  exact ⟨l.notMem_body (fun f hf => (l.solid f hf).not_nul) l.path_nul (by decide) (by decide),
    by decide⟩

theorem newline_notMem_body : '\n' ∉ l.body := by
  refine l.notMem_body (fun f hf hmem => ?_) l.path_newline (by decide) (by decide)
  have hblank := (l.solid f hf).not_blank _ hmem
  cases hblank

/-- The five fields are tokens, and the rest is read behind them. -/
theorem mapTokens_text :
    mapTokens l.text =
      [l.range, l.perms, l.offset, l.dev, l.inode] ++
        words isBlank (l.marked ++ ['\n']) := by
  have hfield : ∀ f ∈ [l.range, l.perms, l.offset, l.dev, l.inode], ∀ s : Str,
      words isBlank (f ++ ' ' :: s) = f :: words isBlank s := fun f hf s =>
    words_append_sep (l.solid f hf).not_blank (l.solid f hf).ne_nil isBlank_space s
  simp only [List.mem_cons, List.not_mem_nil, or_false, forall_eq_or_imp, forall_eq] at hfield
  obtain ⟨h1, h2, h3, h4, h5⟩ := hfield
  rw [mapTokens, cstr_of_notMem l.nul_notMem_text, text, body]
  simp only [List.append_assoc, List.cons_append]
  rw [h1, h2, h3, h4, h5, words_replicate_sep isBlank_space]
  rfl

theorem name_ne_nil (h : l.pathname ≠ []) : l.name ≠ [] := by
  cases hp : l.pathname with
  | nil => exact absurd hp h
  | cons c cs =>
      have hc : isBlank c = false := l.path_start c (by rw [hp]; rfl)
      rw [name, hp, List.takeWhile_cons_of_pos (by rw [hc]; rfl)]
      simp

/-- The first token of the name is the name up to its first blank, whatever follows. -/
theorem words_pathname (h : l.pathname ≠ []) :
    ∃ rest, words isBlank (l.marked ++ ['\n']) = l.name :: rest := by
  have hword : ∀ c ∈ l.name, isBlank c = false := by
    intro c hc
    have hall := List.mem_takeWhile_imp hc
    simpa using hall
  have hsplit := List.takeWhile_append_dropWhile (p := fun c => !isBlank c) (l := l.pathname)
  cases hrest : l.pathname.dropWhile (fun c => !isBlank c) with
  | nil =>
      rw [hrest, List.append_nil] at hsplit
      have hname : l.name = l.pathname := hsplit
      -- the blank that ends the word is that of the mark, or the newline
      rw [marked, ← hname]
      cases l.deleted with
      | true =>
          rw [if_pos rfl, List.append_assoc]
          exact ⟨_, words_append_sep hword (l.name_ne_nil h) (c := ' ') rfl _⟩
      | false =>
          rw [if_neg (by decide), List.append_nil]
          exact ⟨_, words_append_sep hword (l.name_ne_nil h) (c := '\n') rfl []⟩
  | cons b rest =>
      have hb : isBlank b = true := by
        have hhead := List.head?_dropWhile_not (fun c => !isBlank c) l.pathname
        rw [hrest] at hhead
        simpa using hhead
      rw [hrest] at hsplit
      rw [marked, ← hsplit]
      simp only [List.append_assoc, List.cons_append]
      exact ⟨_, words_append_sep hword (l.name_ne_nil h) hb _⟩

theorem inode_token : (mapTokens l.text)[4]? = some l.inode := by
  rw [l.mapTokens_text]
  rfl

theorem name_token (h : l.inode ≠ "0".toList) : (mapTokens l.text)[5]? = some l.name := by
  obtain ⟨rest, hrest⟩ := l.words_pathname (l.path_of_inode h)
  rw [l.mapTokens_text, hrest]
  rfl

theorem complete_text : Complete l.text := by
  refine ⟨l.inode, l.inode_token, ?_⟩
  by_cases h : l.inode = "0".toList
  · exact Or.inl h
  · exact Or.inr ⟨l.name, l.name_token h⟩

theorem mapEntry_text :
    mapEntry l.text = if l.inode = "0".toList then none else some (l.inode, l.name) := by
  rw [mapEntry, l.inode_token]
  by_cases h : l.inode = "0".toList
  · rw [if_pos h]
    cases (mapTokens l.text)[5]? with
    | none => rfl
    | some fileName => exact if_pos h
  · rw [if_neg h, l.name_token h]
    exact if_neg h

end MapLine

/-- The only newline of a line is at its end. -/
theorem MapLine.newline_end (ls : List MapLine) :
    ∀ t ∈ ls.map MapLine.text, ∃ u, t = u ++ ['\n'] ∧ '\n' ∉ u := by
  intro t ht
  obtain ⟨l, -, rfl⟩ := List.mem_map.1 ht
  exact ⟨l.body, rfl, l.newline_notMem_body⟩

theorem lines_mapsText (ls : List MapLine) : lines (mapsText ls) = ls.map MapLine.text := by
  have hflat := lines_flatten_append (MapLine.newline_end ls) []
  rw [List.append_nil] at hflat
  rw [mapsText, hflat, lines, List.append_nil]

/-! ## Removed files -/

/-- A line makes the row of a name if it is the first with this name whose inode is not 0. -/
def MakesRow (ls : List MapLine) (l : MapLine) (name : Str) : Prop :=
  ls.find? (fun l => l.inode ≠ "0".toList && l.name = name) = some l

theorem MakesRow.of_find {ls : List MapLine} {inode name : Str}
    (h : ((ls.map MapLine.text).filterMap mapEntry).find? (fun e => e.2 = name) =
      some (inode, name)) :
    ∃ l, MakesRow ls l name ∧ l.inode = inode ∧ l.name = name := by
  rw [List.filterMap_map, List.find?_filterMap, Option.bind_eq_some_iff] at h
  obtain ⟨l, hfind, hentry⟩ := h
  have hany : ∀ m : MapLine, ((mapEntry ∘ MapLine.text) m).any (fun e => e.2 = name) =
      (m.inode ≠ "0".toList && m.name = name) := by
    intro m
    rw [Function.comp_apply, m.mapEntry_text]
    by_cases hzero : m.inode = "0".toList
    · rw [if_pos hzero]
      show false = (decide (m.inode ≠ "0".toList) && decide (m.name = name))
      rw [decide_eq_false (not_not.2 hzero), Bool.false_and]
    · rw [if_neg hzero]
      show decide (m.name = name) = (decide (m.inode ≠ "0".toList) && decide (m.name = name))
      rw [decide_eq_true hzero, Bool.true_and]
  simp only [hany] at hfind
  rw [Function.comp_apply, l.mapEntry_text] at hentry
  by_cases hzero : l.inode = "0".toList
  · rw [if_pos hzero] at hentry
    cases hentry
  · rw [if_neg hzero] at hentry
    cases hentry
    exact ⟨l, hfind, rfl, rfl⟩

theorem mapField_eq_mark_iff (l : MapLine) :
    mapField l.name = l.mark ↔ ("deleted".toList <:+: l.name ↔ l.deleted = true) := by
  have hne : "DEL".toList ≠ "mem".toList := by decide
  have hfound : (findSub "deleted".toList l.name).isSome = true ↔ "deleted".toList <:+: l.name :=
    findSub_isSome_iff
  rw [mapField, MapLine.mark]
  by_cases hname : "deleted".toList <:+: l.name
  · rw [if_pos (hfound.2 hname)]
    cases l.deleted with
    | true => exact iff_of_true rfl (iff_of_true hname rfl)
    | false => exact iff_of_false hne fun h => absurd (h.1 hname) (by decide)
  · rw [if_neg fun h => hname (hfound.1 h)]
    cases l.deleted with
    | true => exact iff_of_false hne.symm fun h => hname (h.2 rfl)
    | false => exact iff_of_true rfl (iff_of_false hname (by decide))

/-- **When a row tells a removed file.**  Of lines the kernel has written, all short enough
for the buffer, each row has the inode and, up to its first blank, the name of the line
that makes it; and it shows `DEL` for a file marked as removed and `mem` for any other
exactly when the name up to its first blank has the letters `deleted` if and only if
the file is marked. -/
theorem maps_marked_iff (halive : p.alive = true) {ls : List MapLine}
    (hopen : fs.fopen (mapsPath p.path) = .ok (mapsText ls))
    (hshort : ∀ l ∈ ls, l.text.length < bufferSize) :
    ∃ q rows, handleMemoryMaps fs p = .ok q ∧ q.fileList = p.fileList ++ rows ∧
      ∀ f ∈ rows, ∃ l, MakesRow ls l f.name ∧ f.name = l.name ∧ f.inode = l.inode ∧
        (f.fd = l.mark ↔ ("deleted".toList <:+: l.name ↔ l.deleted = true)) := by
  have hpieces : fgetsPieces bufferSize (mapsText ls) = ls.map MapLine.text := by
    rw [fgetsPieces_of_short, lines_mapsText]
    rw [lines_mapsText]
    intro t ht
    obtain ⟨l, hl, rfl⟩ := List.mem_map.1 ht
    exact hshort l hl
  obtain ⟨known, hr⟩ := handleMemoryMaps_of_complete halive hopen (by
    rw [hpieces]
    intro t ht
    obtain ⟨l, -, rfl⟩ := List.mem_map.1 ht
    exact l.complete_text)
  rw [hpieces] at hr
  refine ⟨_, _, hr, rfl, fun f hf => ?_⟩
  have hrows := mapRows_listedOnce p.hash ((ls.map MapLine.text).filterMap mapEntry)
  obtain ⟨l, hmakes, hinode, hname⟩ := MakesRow.of_find (hrows.first f hf)
  refine ⟨l, hmakes, hname.symm, hinode.symm, ?_⟩
  rw [hrows.fields f hf, ← mapField_eq_mark_iff, ← hname]
  rfl

/-! ## A sample -/

theorem solid_of_decide {s : Str}
    (h : (decide (s ≠ []) && s.all (fun c => !isBlank c) && !s.contains nul) = true) : Solid s := by
  simp only [Bool.and_eq_true, decide_eq_true_eq, List.all_eq_true, Bool.not_eq_true',
    List.contains_eq_mem, decide_eq_false_iff_not] at h
  exact ⟨h.1.1, h.1.2, h.2⟩

/-- A line whose file was removed. -/
def removedLine : MapLine where
  range := "00400000-0040b000".toList
  perms := "r-xp".toList
  offset := "00000000".toList
  dev := "08:02".toList
  inode := "173521".toList
  pad := 4
  pathname := "/tmp/a".toList
  deleted := true
  solid f hf := by
    simp only [List.mem_cons, List.not_mem_nil, or_false] at hf
    rcases hf with rfl | rfl | rfl | rfl | rfl
    all_goals exact solid_of_decide (by decide)
  path_nul := by decide
  path_newline := by decide
  path_start c hc := by
    cases hc
    rfl
  path_of_inode _ := by decide

/-- A line of a file that is there. -/
def keptLine : MapLine :=
  { removedLine with
    inode := "173522".toList
    pathname := "/tmp/deleted.txt".toList
    deleted := false
    solid f hf := by
      simp only [List.mem_cons, List.not_mem_nil, or_false] at hf
      rcases hf with rfl | rfl | rfl | rfl | rfl
      all_goals exact solid_of_decide (by decide)
    path_nul := by decide
    path_newline := by decide
    path_start := fun c hc => by
      cases hc
      rfl
    path_of_inode := fun _ => by decide }

/-- A process that maps these files. -/
def mapsProc (ls : List MapLine) : ProcFs where
  openFile _ := none
  read _ := none
  stat _ := none
  lstat _ := none
  readlink _ := .error 2
  fopen _ := .ok (mapsText ls)
  opendir _ := .error 2

/-- The first file is mapped again, and has one row. -/
theorem sample_listed_once :
    ∃ q, handleMemoryMaps (mapsProc [removedLine, keptLine, removedLine]) (fresh "7".toList) =
        .ok q ∧
      q.fileList = [File.ofFields "mem".toList removedLine.name removedLine.inode "REG".toList,
        File.ofFields "DEL".toList keptLine.name keptLine.inode "REG".toList] ∧
      ListedOnce [] ((lines (mapsText [removedLine, keptLine, removedLine])).filterMap mapEntry)
        q.fileList := by
  have hlines : ∀ t ∈ lines (mapsText [removedLine, keptLine, removedLine]),
      t.length < bufferSize ∧ Complete t := by
    intro t ht
    rw [lines_mapsText] at ht
    obtain ⟨l, hl, rfl⟩ := List.mem_map.1 ht
    refine ⟨?_, l.complete_text⟩
    simp only [List.mem_cons, List.not_mem_nil, or_false] at hl
    rcases hl with rfl | rfl | rfl
    · decide
    · decide
    · decide
  obtain ⟨q, rows, hr, hrows, hlisted⟩ := @maps_listed_once
    (mapsProc [removedLine, keptLine, removedLine]) (fresh "7".toList) rfl _ rfl hlines
  have hconcrete : ∃ q₁,
      handleMemoryMaps (mapsProc [removedLine, keptLine, removedLine]) (fresh "7".toList) = .ok q₁ ∧
        q₁.fileList = [File.ofFields "mem".toList removedLine.name removedLine.inode "REG".toList,
          File.ofFields "DEL".toList keptLine.name keptLine.inode "REG".toList] := by
    refine ⟨_, rfl, ?_⟩
    decide
  obtain ⟨q₁, hr₁, hlist⟩ := hconcrete
  obtain rfl : q = q₁ := Except.ok.inj (hr.symm.trans hr₁)
  have hsame : q.fileList = rows := hrows
  exact ⟨q, hr, hlist, hsame ▸ hlisted⟩

theorem sample_marked :
    ∃ q rows, handleMemoryMaps (mapsProc [removedLine, keptLine]) (fresh "7".toList) = .ok q ∧
      q.fileList = rows ∧
      ∀ f ∈ rows, ∃ l, MakesRow [removedLine, keptLine] l f.name ∧ f.name = l.name ∧
        f.inode = l.inode ∧ (f.fd = l.mark ↔ ("deleted".toList <:+: l.name ↔ l.deleted = true)) := by
  refine @maps_marked_iff (mapsProc [removedLine, keptLine]) (fresh "7".toList) rfl _ rfl ?_
  intro l hl
  simp only [List.mem_cons, List.not_mem_nil, or_false] at hl
  rcases hl with rfl | rfl
  · decide
  · decide

/-- The removed file is not marked, and the other is. -/
theorem marked_wrongly :
    ∃ q, handleMemoryMaps (mapsProc [removedLine, keptLine]) (fresh "7".toList) = .ok q ∧
      q.fileList = [File.ofFields "mem".toList removedLine.name removedLine.inode "REG".toList,
        File.ofFields "DEL".toList keptLine.name keptLine.inode "REG".toList] ∧
      "mem".toList ≠ removedLine.mark ∧ "DEL".toList ≠ keptLine.mark := by
  refine ⟨_, rfl, ?_, by decide, by decide⟩
  decide

end Lsof
