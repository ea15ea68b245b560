import UnixProgramming.Lsof.Maps
import UnixProgramming.Logger.Transparency

/-!
# Names in their buffers

Links are read into buffers of 1024 characters, and the terminator goes behind what was
read; `realpath` fills a buffer of this size with a name of any length, and where it fails
with the part it got to; and a line of `maps` that is longer comes in several pieces.

* `Stage.ok_iff`, `handleMemoryMaps_ok_iff` — when the listing is not stopped.
* `MapLine.whole_of_short`, `MapLine.whole_iff` — which lines have their tokens.
* `getAbsPath_done_iff`, `getAbsPathFd_done_iff` — when the logger is not stopped.
* `names_in_bounds_iff` — all of them; `long_names_out_of_bounds`, names that are too long.
-/

/-! ## The listing -/

namespace Lsof

open CString

variable {fs : ProcFs} {p : Process}

/-- What is left alone of a process that is gone, and otherwise ends just if something fits. -/
theorem ok_iff_of_alive {fit : Prop} {r : Except Fault Process}
    (hdead : p.alive = false → r = .ok p) (halive : p.alive = true → ((∃ q, r = .ok q) ↔ fit)) :
    (∃ q, r = .ok q) ↔ (p.alive = true → fit) := by
  cases h : p.alive with
  | true => exact (halive h).trans ⟨fun hfit _ => hfit, fun hfit => hfit rfl⟩
  | false => exact iff_of_true ⟨p, hdead h⟩ fun h => by cases h

/-- A stage is not stopped exactly when what it reads fits. -/
theorem Stage.ok_iff {fit lost : Prop} {rows : List File} {recorded : List Str → Prop}
    {r : Except Fault Process} (h : Stage fit lost rows recorded p r) :
    (∃ q, r = .ok q) ↔ fit := by
  cases h with
  | gone hfit _ q hr _ => exact iff_of_true ⟨q, hr⟩ hfit
  | kept hfit _ _ _ hr => exact iff_of_true ⟨_, hr⟩ hfit
  | stopped hfit e hr =>
      refine iff_of_false ?_ hfit
      rintro ⟨q, hq⟩
      rw [hr] at hq
      cases hq

theorem handleSpecialFiles_ok_iff :
    (∃ q, handleSpecialFiles fs p = .ok q) ↔
      (p.alive = true → LinksFit fs (specialTargets p.path)) :=
  ok_iff_of_alive handleSpecialFiles_of_dead fun halive =>
    (handleSpecialFiles_stage halive).ok_iff

theorem handleFileDescriptors_ok_iff :
    (∃ q, handleFileDescriptors fs p = .ok q) ↔ (p.alive = true → FdsFit fs p.path) :=
  ok_iff_of_alive handleFileDescriptors_of_dead fun halive =>
    (handleFileDescriptors_stage halive).ok_iff

namespace MapLine

/-- Every piece in which the line is read has its tokens. -/
def Whole (l : MapLine) : Prop := ∀ piece ∈ fgetsPieces bufferSize l.text, Complete piece

/-- The line before the name. -/
def start (l : MapLine) : Str :=
  l.range ++ ' ' :: (l.perms ++ ' ' :: (l.offset ++ ' ' :: (l.dev ++ ' ' :: (l.inode ++
    ' ' :: List.replicate l.pad ' '))))

theorem text_eq (l : MapLine) : l.text = l.start ++ (l.marked ++ ['\n']) := by
  simp [text, body, start]

theorem length_pathname_lt (l : MapLine) : l.pathname.length < l.text.length := by
  rw [text_eq, marked]
  simp only [List.length_append, List.length_singleton]
  omega

/-- A line that fits is one piece. -/
theorem whole_of_short {l : MapLine} (h : l.text.length < bufferSize) : l.Whole := by
  have hlines : lines l.text = [l.text] := by
    rw [text, lines_append_newline l.newline_notMem_body, lines]
  have hpieces : fgetsPieces bufferSize l.text = [l.text] := by
    rw [fgetsPieces_of_short, hlines]
    rw [hlines]
    intro t ht
    rwa [List.mem_singleton.1 ht]
  intro piece hpiece
  rw [hpieces, List.mem_singleton] at hpiece
  rw [hpiece]
  exact l.complete_text

/-- Of a line that does not fit, the first piece fills the buffer. -/
theorem fgetsPieces_of_long {l : MapLine} (h : bufferSize ≤ l.text.length) :
    fgetsPieces bufferSize l.text =
      l.text.take (bufferSize - 1) :: fgetsPieces bufferSize (l.text.drop (bufferSize - 1)) := by
  have hlen : (l.text.take (bufferSize - 1)).length + 1 = bufferSize := by
    rw [List.length_take]
    have hpos : 0 < bufferSize := by decide
    omega
  have hne : l.text.take (bufferSize - 1) ≠ [] := by
    intro hnil
    rw [hnil] at hlen
    revert hlen
    decide
  have hline : '\n' ∉ l.text.take (bufferSize - 1) := by
    have hbody : l.text.take (bufferSize - 1) = l.body.take (bufferSize - 1) := by
      rw [text, List.length_append, List.length_singleton] at h
      rw [text, List.take_append_of_le_length (by omega)]
    rw [hbody]
    exact fun hmem => l.newline_notMem_body (List.mem_of_mem_take hmem)
  calc fgetsPieces bufferSize l.text
      = fgetsPieces bufferSize
          (l.text.take (bufferSize - 1) ++ l.text.drop (bufferSize - 1)) := by
        rw [List.take_append_drop]
    _ = _ := fgetsPieces_full hne hlen hline _

/-- Behind the start of a line whose name has no blanks there are two at most. -/
theorem countP_isBlank_le {l : MapLine} (h : ∀ c ∈ l.pathname, isBlank c = false) :
    (l.marked ++ ['\n']).countP isBlank ≤ 2 := by
  have hpath : l.pathname.countP isBlank = 0 := by
    rw [List.countP_eq_zero]
    intro c hc
    rw [h c hc]
    decide
  rw [List.countP_append, marked, List.countP_append, hpath]
  cases l.deleted with
  | true => decide
  | false => decide

/-- A name without blanks has too few tokens for a piece of its own, so just the lines
that fit have all of them. -/
theorem whole_iff {l : MapLine} (hstart : l.start.length < bufferSize)
    (hpath : ∀ c ∈ l.pathname, isBlank c = false) :
    l.Whole ↔ l.text.length < bufferSize := by
  refine ⟨fun hwhole => ?_, whole_of_short⟩
  by_contra hlong
  rw [Nat.not_lt] at hlong
  have hrest : l.text.drop (bufferSize - 1) ≠ [] := by
    rw [Ne, List.drop_eq_nil_iff]
    have hpos : 0 < bufferSize := by decide
    omega
  have hflat : (fgetsPieces bufferSize (l.text.drop (bufferSize - 1))).flatten =
      l.text.drop (bufferSize - 1) := fgetsFrom_flatten _ _ _ _
  cases hpieces : fgetsPieces bufferSize (l.text.drop (bufferSize - 1)) with
  | nil =>
      rw [hpieces] at hflat
      exact hrest hflat.symm
  | cons piece pieces =>
      have hmem : piece ∈ fgetsPieces bufferSize l.text := by
        rw [fgetsPieces_of_long hlong, hpieces]
        exact List.mem_cons_of_mem _ List.mem_cons_self
      have hsub : List.Sublist (cstr piece) (l.marked ++ ['\n']) := by
        rw [hpieces, text_eq, List.drop_append, List.drop_of_length_le (by omega),
          List.nil_append, List.flatten_cons] at hflat
        have hpiece : List.Sublist piece ((l.marked ++ ['\n']).drop _) :=
          hflat ▸ List.sublist_append_left piece pieces.flatten
        exact (List.takeWhile_sublist _).trans (hpiece.trans (List.drop_sublist _ _))
      have hfew : (mapTokens piece).length ≤ 3 := by
        have hwords := length_words_le isBlank (cstr piece)
        have hcount := hsub.countP_le (p := isBlank)
        have htail := countP_isBlank_le hpath
        rw [mapTokens]
        omega
      obtain ⟨inode, hinode, -⟩ := hwhole piece hmem
      rw [List.getElem?_eq_none (by omega)] at hinode
      cases hinode

end MapLine

theorem handleMemoryMaps_ok_iff {ls : List MapLine}
    (hopen : fs.fopen (mapsPath p.path) = .ok (mapsText ls)) :
    (∃ q, handleMemoryMaps fs p = .ok q) ↔ (p.alive = true → ∀ l ∈ ls, l.Whole) := by
  have hall : (∀ piece ∈ fgetsPieces bufferSize (mapsText ls), Complete piece) ↔
      ∀ l ∈ ls, l.Whole := by
    rw [mapsText, fgetsPieces_flatten_lines (MapLine.newline_end ls), List.flatMap_map,
      List.forall_mem_flatMap]
    rfl
  refine ok_iff_of_alive handleMemoryMaps_of_dead fun halive => ?_
  have hdead : ¬ p.alive = false := by simp [halive]
  rw [handleMemoryMaps, if_neg hdead, hopen, ← hall]
  by_cases hfit : ∀ piece ∈ fgetsPieces bufferSize (mapsText ls), Complete piece
  · obtain ⟨known, hr⟩ := mapLines_of_complete (p := p) hfit
    exact iff_of_true ⟨_, hr⟩ hfit
  · refine iff_of_false ?_ hfit
    rintro ⟨q, hq⟩
    have hmaps : mapLines (fgetsPieces bufferSize (mapsText ls)) p = .ok q := hq
    rw [mapLines_of_not_complete hfit] at hmaps
    cases hmaps

end Lsof

/-! ## The logger -/

namespace Logger

open Requests CString

variable {W : Type} {K : Kernel Req Ans W} {w w' : W} {tr : List (Event Req Ans W)}
  {o : Result Fault Str}

/-- A name that is read, and what is stored of one, leave room for a terminator. -/
def ShortAnswer : Event Req Ans W → Prop
  | ⟨.readlink _, x, _⟩ => ∀ s, x = some s → s.length < bufferSize
  | ⟨.realpath _, x, _⟩ => x.stored.length < bufferSize
  | _ => True

theorem getAbsPath_done_iff {fileName : PathArg}
    (h : Traces K (getAbsPath fileName) w tr o w') :
    (∃ s, o = .done s) ↔ ∀ e ∈ tr, ShortAnswer e := by
  obtain ⟨x, w₁, rest, rfl, -, h⟩ := h
  rw [List.forall_mem_cons]
  change Traces K (if bufferSize ≤ x.stored.length then _ else _) w₁ rest o w' at h
  by_cases hlong : bufferSize ≤ x.stored.length
  · rw [if_pos hlong] at h
    obtain ⟨rfl, rfl, -⟩ := h
    refine iff_of_false ?_ fun hshort => absurd hshort.1 (Nat.not_lt.2 hlong)
    rintro ⟨s, hs⟩
    cases hs
  · rw [if_neg hlong] at h
    have hshort : x.stored.length < bufferSize := Nat.not_le.1 hlong
    cases x with
    | resolved absPath =>
        obtain ⟨rfl, rfl, -⟩ := h
        exact iff_of_true ⟨_, rfl⟩ ⟨hshort, fun e he => by cases he⟩
    | failed stored =>
        obtain ⟨rfl, rfl, -⟩ := h
        exact iff_of_true ⟨_, rfl⟩ ⟨hshort, fun e he => by cases he⟩

theorem getAbsPathFd_done_iff {fd : BitVec 32} (h : Traces K (getAbsPathFd fd) w tr o w') :
    (∃ s, o = .done s) ↔ ∀ e ∈ tr, ShortAnswer e := by
  obtain ⟨pid, w₁, rest, rfl, -, x, w₂, rest, rfl, -, h⟩ := h
  rw [List.forall_mem_cons, List.forall_mem_cons]
  cases x with
  | none =>
      obtain ⟨rfl, rfl, -⟩ := h
      refine iff_of_true ⟨_, rfl⟩ ⟨trivial, fun s hs => ?_, fun e he => ?_⟩
      · cases hs
      · cases he
  | some fileName =>
      change Traces K (if bufferSize ≤ fileName.length then _ else _) w₂ rest o w' at h
      by_cases hlong : bufferSize ≤ fileName.length
      · rw [if_pos hlong] at h
        obtain ⟨rfl, rfl, -⟩ := h
        refine iff_of_false ?_ fun hshort => ?_
        · rintro ⟨s, hs⟩
          cases hs
        · exact absurd (hshort.2.1 fileName rfl) (by omega)
      · have hlink : ∀ s, some fileName = some s → s.length < bufferSize := by
          intro s hs
          cases hs
          omega
        rw [if_neg hlong] at h
        obtain ⟨st, w₃, rest, rfl, -, h⟩ := h
        rw [List.forall_mem_cons]
        -- the rest of the run makes no request, or resolves the name
        have hrest : (∃ s, o = .done s) ↔ ∀ e ∈ rest, ShortAnswer e := by
          cases st with
          | none =>
              obtain ⟨rfl, rfl, -⟩ := h
              exact iff_of_true ⟨_, rfl⟩ fun e he => by cases he
          | some stMode =>
              change Traces K (if stMode &&& sIfmt = sIfdir ∨ stMode &&& sIfmt = sIfreg
                then _ else _) w₃ rest o w' at h
              split at h
              · exact getAbsPath_done_iff h
              · obtain ⟨rfl, rfl, -⟩ := h
                exact iff_of_true ⟨_, rfl⟩ fun e he => by cases he
        rw [hrest]
        exact ⟨fun hshort => ⟨trivial, hlink, trivial, hshort⟩, fun hshort => hshort.2.2.2⟩

end Logger

/-! ## Both -/

namespace NameBounds

open Requests CString

/-- **When names stay in their buffers.**  The terminators of the links of a process, up to
the first that is lost, and of its descriptors are stored in the buffer exactly when
these are shorter than the buffer.  No string is made of a null pointer exactly when
every line of `maps` has its tokens in all the pieces it is read in; these are the lines
that fit the buffer, and no others unless there are blanks in a name.  In the logger,
links and what `realpath` stores stay in their buffers exactly when those a run reads are
shorter. -/
theorem names_in_bounds_iff (fs : Lsof.ProcFs) (p : Lsof.Process) (ls : List Lsof.MapLine)
    {W : Type} (K : Kernel Logger.Req Logger.Ans W) :
    ((∃ q, Lsof.handleSpecialFiles fs p = .ok q) ↔
      (p.alive = true → Lsof.LinksFit fs (Lsof.specialTargets p.path))) ∧
    ((∃ q, Lsof.handleFileDescriptors fs p = .ok q) ↔
      (p.alive = true → Lsof.FdsFit fs p.path)) ∧
    (fs.fopen (Lsof.mapsPath p.path) = .ok (Lsof.mapsText ls) →
      ((∃ q, Lsof.handleMemoryMaps fs p = .ok q) ↔ (p.alive = true → ∀ l ∈ ls, l.Whole))) ∧
    (∀ l : Lsof.MapLine, l.text.length < Lsof.bufferSize → l.Whole) ∧
    (∀ l : Lsof.MapLine, l.start.length < Lsof.bufferSize →
      (∀ c ∈ l.pathname, Lsof.isBlank c = false) →
        (l.Whole ↔ l.text.length < Lsof.bufferSize)) ∧
    (∀ fd w tr o w', Traces K (Logger.getAbsPathFd fd) w tr o w' →
      ((∃ s, o = .done s) ↔ ∀ e ∈ tr, Logger.ShortAnswer e)) ∧
    (∀ fileName w tr o w', Traces K (Logger.getAbsPath fileName) w tr o w' →
      ((∃ s, o = .done s) ↔ ∀ e ∈ tr, Logger.ShortAnswer e)) := by
  refine ⟨Lsof.handleSpecialFiles_ok_iff, Lsof.handleFileDescriptors_ok_iff, ?_, ?_, ?_, ?_, ?_⟩
  · exact fun hopen => Lsof.handleMemoryMaps_ok_iff hopen
  · exact fun l hshort => Lsof.MapLine.whole_of_short hshort
  · exact fun l hstart hpath => Lsof.MapLine.whole_iff hstart hpath
  · exact fun fd w tr o w' h => Logger.getAbsPathFd_done_iff h
  · exact fun fileName w tr o w' h => Logger.getAbsPath_done_iff h

/-! ## A sample -/

/-- The processes of the samples: one that maps two files, and the sample process of the
logger. -/
theorem sample_in_bounds :
    (∃ q, Lsof.handleMemoryMaps (Lsof.mapsProc [Lsof.removedLine, Lsof.keptLine])
      (Lsof.fresh "7".toList) = .ok q) ∧
    (Lsof.removedLine.Whole ↔ Lsof.removedLine.text.length < Lsof.bufferSize) ∧
    ∃ s, ((Logger.getAbsPath (.caller 0x2000)).eval
      (Logger.sample none "/etc/passwd".toList) 0).2.1 = .done s := by
  obtain ⟨-, -, hmaps, hwhole, hiff, -, hpath⟩ := names_in_bounds_iff
    (Lsof.mapsProc [Lsof.removedLine, Lsof.keptLine]) (Lsof.fresh "7".toList)
    [Lsof.removedLine, Lsof.keptLine]
    (kernelOf (Logger.sample none "/etc/passwd".toList))
  refine ⟨(hmaps rfl).2 fun _ l hl => hwhole l ?_, hiff _ (by decide) ?_, ?_⟩
  · simp only [List.mem_cons, List.not_mem_nil, or_false] at hl
    rcases hl with rfl | rfl
    · decide
    · decide
  · intro c hc
    have hsolid : ("/tmp/a".toList.all fun c => !Lsof.isBlank c) = true := by decide
    simpa using List.all_eq_true.1 hsolid c hc
  · refine (hpath _ _ _ _ _ (traces_kernelOf _ _ _)).2 fun e he => ?_
    rw [List.mem_singleton.1 he]
    show "/etc/passwd".toList.length < Logger.bufferSize
    decide

/-- A name that fills the buffer, and is shorter than any the kernel refuses. -/
def longName : Str := copies "/a".toList 512

theorem length_longName : longName.length = 1024 := length_copies _ _

theorem mem_longName {c : Char} (h : c ∈ longName) : c = '/' ∨ c = 'a' := by
  have hmem : c ∈ ['/', 'a'] := mem_of_mem_copies h
  simpa using hmem

/-- A line with such a name. -/
def longLine : Lsof.MapLine :=
  { Lsof.removedLine with
    pathname := longName
    deleted := false
    path_nul := fun h => by
      rcases mem_longName h with h | h <;> revert h <;> decide
    path_newline := fun h => by
      rcases mem_longName h with h | h <;> revert h <;> decide
    path_start := fun c hc => by
      rcases mem_longName (List.mem_of_mem_head? hc) with rfl | rfl <;> rfl
    path_of_inode := fun _ h => by
      have hlen := length_longName
      rw [h] at hlen
      cases hlen }

/-- A process whose links stand for that name, and that maps a file of that name. -/
def longLinks : Lsof.ProcFs :=
  { Lsof.mapsProc [longLine] with
    readlink := fun _ => .ok longName
    opendir := fun _ => .ok ["0".toList] }

/-- The logger in a process with such names. -/
def longSample : (r : Logger.Req) → BitVec 32 → Logger.Ans r × BitVec 32
  | .readlink _, e => (some longName, e)
  | r, e => Logger.sample none longName r e

/-- The logger in a process in which the directory of a file has such a name, and the file
is gone. -/
def goneSample : (r : Logger.Req) → BitVec 32 → Logger.Ans r × BitVec 32
  | .realpath _, _ => (.failed longName, 2)
  | r, e => Logger.sample none longName r e

/-- With a name of 1024 characters every one of the functions is stopped, `realpath` also
where it fails. -/
theorem long_names_out_of_bounds :
    longName.length = 1024 ∧
    (¬ ∃ q, Lsof.handleSpecialFiles longLinks (Lsof.fresh "7".toList) = .ok q) ∧
    (¬ ∃ q, Lsof.handleFileDescriptors longLinks (Lsof.fresh "7".toList) = .ok q) ∧
    (¬ ∃ q, Lsof.handleMemoryMaps longLinks (Lsof.fresh "7".toList) = .ok q) ∧
    ((Logger.getAbsPathFd 5).eval longSample 0).2.1 = .fault .overrun ∧
    ((Logger.getAbsPath (.caller 0x2000)).eval longSample 0).2.1 = .fault .overrun ∧
    ((Logger.getAbsPath (.caller 0x2000)).eval goneSample 0).2.1 = .fault .overrun := by
  have hlong : ¬ longName.length < Lsof.bufferSize := by
    rw [length_longName]
    decide
  have hover : Logger.bufferSize ≤ longName.length := by
    rw [length_longName]
    decide
  refine ⟨length_longName, ?_, ?_, ?_, ?_, ?_, ?_⟩
  · rw [Lsof.handleSpecialFiles_ok_iff]
    exact fun h => hlong ((h rfl).1 longName rfl)
  · rw [Lsof.handleFileDescriptors_ok_iff]
    exact fun h => hlong (h rfl _ rfl "0".toList List.mem_cons_self (by decide) longName rfl)
  · rw [@Lsof.handleMemoryMaps_ok_iff longLinks (Lsof.fresh "7".toList) [longLine] rfl]
    intro h
    have hwhole := h rfl longLine List.mem_cons_self
    have hstart : longLine.start.length < Lsof.bufferSize := by
      show Lsof.removedLine.start.length < Lsof.bufferSize
      decide
    have hpath : ∀ c ∈ longLine.pathname, Lsof.isBlank c = false := by
      intro c hc
      rcases mem_longName hc with rfl | rfl
      · rfl
      · rfl
    rw [Lsof.MapLine.whole_iff hstart hpath] at hwhole
    exact hlong ((Lsof.MapLine.length_pathname_lt longLine).trans hwhole)
  · simp [Logger.getAbsPathFd, Prog.ask, Prog.eval, longSample, Logger.sample, hover]
  · simp [Logger.getAbsPath, Logger.Resolution.stored, Prog.ask, Prog.eval, longSample,
      Logger.sample, hover]
  · simp [Logger.getAbsPath, Logger.Resolution.stored, Prog.ask, Prog.eval, goneSample, hover]

end NameBounds
