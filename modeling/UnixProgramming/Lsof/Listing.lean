import UnixProgramming.Lsof.Process
import UnixProgramming.Text.Search

/-!
# A process is listed completely or not at all

What is to be printed of a process is said without its stages: when the process counts
as gone, and which rows it has.  The constructor prints just that wherever nothing it
reads overruns a buffer or lacks a token; there it is stopped.

* `LinkLost`, `Lost` — the failures after which no row is printed.
* `specialRow`, `mapRows`, `fdRow`, `openFiles` — the rows, in order.
* `Fits` — nothing that is read overruns.
* `Stage`, `Stage.bind` — what a stage makes of a process: it adds its rows, or finds the
  process gone, or is stopped; and stages in sequence.
* `stages_stage`, `process_outcome` — all of them together.
* `listed_iff` — when a process is listed as it should be; `long_map_not_listed`, when not.
-/

namespace Lsof

open CString

variable {fs : ProcFs} {path dirName : Str} {p : Process}

/-! ## What is to be listed -/

/-- Reading the link failed, not for want of permission, or what it stands for is gone. -/
def LinkLost (fs : ProcFs) (link : Str) : Prop :=
  match fs.readlink link with
  | .error errsv => errsv ≠ eacces
  | .ok _ => fs.stat link = none ∨ fs.lstat link = none

/-- What is read of `comm`. -/
def commText (fs : ProcFs) (path : Str) : Option Str :=
  (fs.openFile (commPath path)).bind fs.read

/-- A special link is lost. -/
def LinksLost (fs : ProcFs) (path : Str) : Prop :=
  ∃ tar ∈ specialTargets path, LinkLost fs tar.2

/-- `maps` cannot be opened, not for want of permission. -/
def MapsLost (fs : ProcFs) (path : Str) : Prop :=
  ∃ errsv, fs.fopen (mapsPath path) = .error errsv ∧ errsv ≠ eacces

/-- Nor can the directory of the descriptors. -/
def FdsLost (fs : ProcFs) (path : Str) : Prop :=
  ∃ errsv, fs.opendir (fdDir path) = .error errsv ∧ errsv ≠ eacces

/-- The process is gone: a failure after which nothing is known of it. -/
def Lost (fs : ProcFs) (path : Str) : Prop :=
  commText fs path = none ∨ fs.stat path = none ∨
    LinksLost fs path ∨ MapsLost fs path ∨ FdsLost fs path

/-- The row of a special link, a placeholder where it is denied. -/
def specialRow (fs : ProcFs) (tar : Str × Str) : Option File :=
  match fs.readlink tar.2 with
  | .error errsv =>
      if errsv = eacces then
        some (File.ofFields tar.1 (tar.2 ++ " (Permission denied)".toList) [] "unknown".toList)
      else none
  | .ok text => File.ofPath fs tar.1 tar.2 (linkName text)

/-- The name a special link records. -/
def specialName (fs : ProcFs) (tar : Str × Str) : Option Str :=
  match fs.readlink tar.2 with
  | .error _ => none
  | .ok text => some (linkName text)

/-- The inode and the name on a line of `maps`, if it is the line of a file. -/
def mapEntry (piece : Str) : Option (Str × Str) :=
  match (mapTokens piece)[4]?, (mapTokens piece)[5]? with
  | some inode, some fileName => if inode = "0".toList then none else some (inode, fileName)
  | _, _ => none

/-- The rows of mapped files: each name once, and none that is known. -/
def mapRows : List Str → List (Str × Str) → List File
  | _, [] => []
  | known, (inode, fileName) :: rest =>
      if fileName ∈ known then mapRows known rest
      else
        File.ofFields (mapField fileName) fileName inode "REG".toList ::
          mapRows (known ++ [fileName]) rest

theorem mapRows_nil (known : List Str) : mapRows known [] = [] := rfl

theorem mapRows_cons (known : List Str) (inode fileName : Str) (rest : List (Str × Str)) :
    mapRows known ((inode, fileName) :: rest) =
      if fileName ∈ known then mapRows known rest
      else
        File.ofFields (mapField fileName) fileName inode "REG".toList ::
          mapRows (known ++ [fileName]) rest := rfl

/-- The row of a descriptor, if its link and what it stands for can be read. -/
def fdRow (fs : ProcFs) (path fileDescriptor : Str) : Option File :=
  if fileDescriptor = ".".toList ∨ fileDescriptor = "..".toList then none
  else
    match fs.readlink (fdLink path fileDescriptor) with
    | .error _ => none
    | .ok text =>
        File.ofPath fs fileDescriptor (fdLink path fileDescriptor) (linkName text)

/-- The rows of the special links. -/
def specialRows (fs : ProcFs) (path : Str) : List File :=
  (specialTargets path).filterMap (specialRow fs)

/-- The rows of `maps`, after the names the special links have recorded. -/
def mapFiles (fs : ProcFs) (path : Str) : List File :=
  match fs.fopen (mapsPath path) with
  | .error _ => []
  | .ok text =>
      mapRows ((specialTargets path).filterMap (specialName fs))
        ((fgetsPieces bufferSize text).filterMap mapEntry)

/-- The rows of the descriptors, or the one that says they are denied. -/
def fdRows (fs : ProcFs) (path : Str) : List File :=
  match fs.opendir (fdDir path) with
  | .error _ =>
      [File.ofFields "NOFD".toList (fdDir path ++ " (Permission denied)".toList) [] []]
  | .ok names => names.filterMap (fdRow fs path)

/-- The rows of a process, in order. -/
def openFiles (fs : ProcFs) (path : Str) : List File :=
  specialRows fs path ++ (mapFiles fs path ++ fdRows fs path)

/-- The command of a process: what is read of `comm` but for its last character. -/
def commandOf (fs : ProcFs) (path : Str) : Str :=
  match commText fs path with
  | none => []
  | some text => cstr ((text.take bufferSize).dropLast)

/-- The name of its user. -/
def userOf (fs : ProcFs) (userTable : UserTable) (path : Str) : Str :=
  match fs.stat path with
  | none => []
  | some statbuf => (userTable statbuf.uid).getD []

/-- The rows that are to be printed. -/
def expected (fs : ProcFs) (userTable : UserTable) (dirName : Str) (filters : Filters) : List Str :=
  let path := procPath dirName
  ((openFiles fs path).filter fun f => filters.type f.type && filters.fileName f.name).map
    (rowText (commandOf fs path) dirName (userOf fs userTable path))

/-- The process is listed completely or not at all: the constructor returns, having
printed nothing if the process is gone, and otherwise, where the command passes its
filter, the rows that are to be printed. -/
structure Listed (fs : ProcFs) (userTable : UserTable) (dirName : Str) (filters : Filters) :
    Prop where
  gone : Lost fs (procPath dirName) → process fs userTable dirName filters = .ok []
  listed : ¬ Lost fs (procPath dirName) → filters.command (commandOf fs (procPath dirName)) = true →
    process fs userTable dirName filters = .ok (expected fs userTable dirName filters)

/-! ## What is read -/

/-- The text of a link, if it can be read, leaves room for a terminator. -/
def LinkFits (fs : ProcFs) (link : Str) : Prop :=
  ∀ text, fs.readlink link = .ok text → text.length < bufferSize

/-- The links up to the first that is lost. -/
def LinksFit (fs : ProcFs) : List (Str × Str) → Prop
  | [] => True
  | tar :: rest => LinkFits fs tar.2 ∧ (¬ LinkLost fs tar.2 → LinksFit fs rest)

/-- A piece of `maps` has an inode, and a name unless that is 0. -/
def Complete (piece : Str) : Prop :=
  ∃ inode, (mapTokens piece)[4]? = some inode ∧
    (inode = "0".toList ∨ ∃ fileName, (mapTokens piece)[5]? = some fileName)

/-- The pieces of `maps` are complete. -/
def MapsFit (fs : ProcFs) (path : Str) : Prop :=
  ∀ text, fs.fopen (mapsPath path) = .ok text →
    ∀ piece ∈ fgetsPieces bufferSize text, Complete piece

/-- The name is one the loop over the descriptors passes over, or its link fits. -/
def FdFits (fs : ProcFs) (path n : Str) : Prop :=
  ¬ (n = ".".toList ∨ n = "..".toList) → LinkFits fs (fdLink path n)

/-- The links of the descriptors leave room for a terminator. -/
def FdsFit (fs : ProcFs) (path : Str) : Prop :=
  ∀ names, fs.opendir (fdDir path) = .ok names → ∀ n ∈ names, FdFits fs path n

/-- What the stages read fits, each as far as the one before has not found the
process gone. -/
def StagesFit (fs : ProcFs) (path : Str) : Prop :=
  LinksFit fs (specialTargets path) ∧
    (¬ LinksLost fs path → MapsFit fs path ∧ (¬ MapsLost fs path → FdsFit fs path))

/-- Nothing that is read overruns: a text of `comm` is not empty, and what is read after
it fits. -/
def Fits (fs : ProcFs) (path : Str) : Prop :=
  ∀ text, commText fs path = some text → text ≠ [] ∧ (fs.stat path ≠ none → StagesFit fs path)

/-! ## The stages -/

/-- A stage leaves a process alone that is gone. -/
theorem handleSpecialFiles_of_dead (h : p.alive = false) : handleSpecialFiles fs p = .ok p :=
  if_pos h

theorem handleMemoryMaps_of_dead (h : p.alive = false) : handleMemoryMaps fs p = .ok p := if_pos h

theorem handleFileDescriptors_of_dead (h : p.alive = false) :
    handleFileDescriptors fs p = .ok p := if_pos h

theorem printOpeningFiles_of_dead {filters : Filters} (h : p.alive = false) :
    printOpeningFiles filters p = [] := if_pos h

theorem setUserName_of_dead {userTable : UserTable} (h : p.alive = false) :
    setUserName fs userTable (setPid dirName p) = p := by
  have hpid : setPid dirName p = p := if_pos h
  rw [hpid]
  exact if_pos h

theorem setUserName_of_lost {userTable : UserTable} (hp : p.alive = true)
    (h : fs.stat p.path = none) : (setUserName fs userTable (setPid dirName p)).alive = false := by
  simp [setUserName, setPid, hp, h]

theorem setUserName_of_stat {userTable : UserTable} (hp : p.alive = true) {statbuf : Stat}
    (h : fs.stat p.path = some statbuf) :
    setUserName fs userTable (setPid dirName p) =
      { p with pid := dirName, userName := (userTable statbuf.uid).getD [] } := by
  simp [setUserName, setPid, hp, h]

theorem setCommand_of_lost (hp : p.alive = true) (h : commText fs p.path = none) :
    setCommand fs p = .ok { p with alive := false } := by
  unfold setCommand
  unfold commText at h
  cases ho : fs.openFile (commPath p.path) with
  | none => simp [hp]
  | some fd =>
      have hr : fs.read fd = none := by simpa [ho] using h
      simp [hp, hr]

/-- The last of what is read of `comm` is replaced by the terminator, so there has to be one. -/
theorem setCommand_of_read (hp : p.alive = true) {text : Str}
    (h : commText fs p.path = some text) :
    setCommand fs p =
      if text = [] then .error .overrun
      else .ok { p with command := cstr (text.take bufferSize).dropLast } := by
  unfold setCommand
  unfold commText at h
  obtain ⟨fd, ho, hr⟩ := Option.bind_eq_some_iff.1 h
  cases text with
  | nil => simp [hp, ho, hr]
  | cons c text => simp [hp, ho, hr, List.dropLast_eq_take, bufferSize]

/-! ### Special links -/

section Special

variable {tar : Str × Str} {rest : List (Str × Str)}

theorem specialFiles_cons_of_not_fits (h : ¬ LinkFits fs tar.2) :
    specialFiles fs (tar :: rest) p = .error .overrun := by
  simp only [LinkFits, not_forall, Nat.not_lt] at h
  obtain ⟨text, htext, hlen⟩ := h
  simp [specialFiles, htext, hlen]

theorem specialFiles_cons_of_lost (hfit : LinkFits fs tar.2) (h : LinkLost fs tar.2) :
    specialFiles fs (tar :: rest) p = .ok { p with alive := false } := by
  unfold LinkLost at h
  unfold specialFiles
  cases hr : fs.readlink tar.2 with
  | error errsv =>
      have hne : errsv ≠ eacces := by simpa [hr] using h
      simp [hne]
  | ok text =>
      have hlen : text.length < bufferSize := hfit text hr
      have hnone : File.ofPath fs tar.1 tar.2 (linkName text) = none :=
        File.ofPath_eq_none_iff.2 (by simpa [hr] using h)
      simp [List.take_of_length_le hlen.le, hlen.ne, hnone]

/-- A link that is there, or denied, adds its row, and its name if it was read. -/
theorem specialFiles_cons_of_kept (hfit : LinkFits fs tar.2) (h : ¬ LinkLost fs tar.2) :
    specialFiles fs (tar :: rest) p = specialFiles fs rest { p with
      fileList := p.fileList ++ (specialRow fs tar).toList
      hash := p.hash ++ (specialName fs tar).toList } := by
  unfold LinkLost at h
  rw [specialFiles]
  unfold specialRow specialName
  cases hr : fs.readlink tar.2 with
  | error errsv =>
      have heq : errsv = eacces := by simpa [hr] using h
      simp [heq]
  | ok text =>
      have hlen : text.length < bufferSize := hfit text hr
      cases hf : File.ofPath fs tar.1 tar.2 (linkName text) with
      | none =>
          have hgone := File.ofPath_eq_none_iff.1 hf
          exact absurd (by simpa [hr] using hgone) h
      | some f => simp [List.take_of_length_le hlen.le, hlen.ne, hf]

/-- Links of which none is lost all add their rows. -/
theorem specialFiles_of_kept {ls : List (Str × Str)} (hfit : LinksFit fs ls)
    (h : ∀ tar ∈ ls, ¬ LinkLost fs tar.2) :
    specialFiles fs ls p = .ok { p with
      fileList := p.fileList ++ ls.filterMap (specialRow fs)
      hash := p.hash ++ ls.filterMap (specialName fs) } := by
  induction ls generalizing p with
  | nil => simp [specialFiles]
  | cons tar rest ih =>
      have htar : ¬ LinkLost fs tar.2 := h tar List.mem_cons_self
      rw [specialFiles_cons_of_kept hfit.1 htar,
        ih (hfit.2 htar) fun t ht => h t (List.mem_cons_of_mem _ ht)]
      cases hrow : specialRow fs tar <;> cases hname : specialName fs tar <;>
        simp [hrow, hname]

/-- The first that is lost ends the examination. -/
theorem specialFiles_of_lost {ls : List (Str × Str)} (hfit : LinksFit fs ls)
    (h : ∃ tar ∈ ls, LinkLost fs tar.2) :
    ∃ q, specialFiles fs ls p = .ok q ∧ q.alive = false := by
  induction ls generalizing p with
  | nil =>
      obtain ⟨tar, hmem, -⟩ := h
      cases hmem
  | cons tar rest ih =>
      by_cases htar : LinkLost fs tar.2
      · exact ⟨_, specialFiles_cons_of_lost hfit.1 htar, rfl⟩
      · rw [specialFiles_cons_of_kept hfit.1 htar]
        refine ih (hfit.2 htar) ?_
        obtain ⟨t, hmem, ht⟩ := h
        rcases List.mem_cons.1 hmem with rfl | hmem
        · exact absurd ht htar
        · exact ⟨t, hmem, ht⟩

/-- A text that fills the buffer, met before that, stops it. -/
theorem specialFiles_of_not_fits {ls : List (Str × Str)} (h : ¬ LinksFit fs ls) :
    specialFiles fs ls p = .error .overrun := by
  induction ls generalizing p with
  | nil => exact absurd trivial h
  | cons tar rest ih =>
      by_cases hfit : LinkFits fs tar.2
      · have hrest : ¬ LinkLost fs tar.2 ∧ ¬ LinksFit fs rest := by
          by_contra hcon
          exact h ⟨hfit, fun hk => by_contra fun hr => hcon ⟨hk, hr⟩⟩
        rw [specialFiles_cons_of_kept hfit hrest.1]
        exact ih hrest.2
      · exact specialFiles_cons_of_not_fits hfit

end Special

/-! ### Mapped files -/

/-- Complete pieces add the rows of the names that are new. -/
theorem mapLines_of_complete {pieces : List Str} (h : ∀ piece ∈ pieces, Complete piece) :
    ∃ known, mapLines pieces p = .ok { p with
      fileList := p.fileList ++ mapRows p.hash (pieces.filterMap mapEntry)
      hash := known } := by
  induction pieces generalizing p with
  | nil => exact ⟨p.hash, by simp [mapLines, mapRows_nil]⟩
  | cons piece rest ih =>
      have hrest : ∀ q ∈ rest, Complete q := fun q hq => h q (List.mem_cons_of_mem _ hq)
      obtain ⟨inode, hinode, hname⟩ := h piece List.mem_cons_self
      by_cases hzero : inode = "0".toList
      · have hentry : mapEntry piece = none := by
          unfold mapEntry
          cases hn : (mapTokens piece)[5]? <;> simp [hinode, hzero]
        have hskip : mapLines (piece :: rest) p = mapLines rest p := by
          simp only [mapLines, hinode]
          exact if_pos hzero
        rw [hskip, List.filterMap_cons_none hentry]
        exact ih hrest
      · obtain ⟨fileName, hfile⟩ := hname.resolve_left hzero
        have hentry : mapEntry piece = some (inode, fileName) := by
          simp only [mapEntry, hinode, hfile]
          exact if_neg hzero
        rw [List.filterMap_cons_some hentry, mapRows_cons]
        simp only [mapLines, hinode, hfile, if_neg hzero]
        split
        · exact ih hrest
        · obtain ⟨known, hr⟩ := ih hrest (p := { p with
            hash := p.hash ++ [fileName]
            fileList := p.fileList ++
              [File.ofFields (mapField fileName) fileName inode "REG".toList] })
          exact ⟨known, by rw [hr]; simp⟩

/-- A piece that is not makes a string of a null pointer. -/
theorem mapLines_of_not_complete {pieces : List Str} (h : ¬ ∀ piece ∈ pieces, Complete piece) :
    mapLines pieces p = .error .nullToken := by
  induction pieces generalizing p with
  | nil => exact absurd (fun piece hpiece => by cases hpiece) h
  | cons piece rest ih =>
      by_cases hpiece : Complete piece
      · have hrest : ¬ ∀ q ∈ rest, Complete q := fun hall => h fun q hq => by
          rcases List.mem_cons.1 hq with rfl | hq
          · exact hpiece
          · exact hall q hq
        obtain ⟨inode, hinode, hname⟩ := hpiece
        simp only [mapLines, hinode]
        split
        · exact ih hrest
        · rename_i hzero
          obtain ⟨fileName, hfile⟩ := hname.resolve_left hzero
          simp only [hfile]
          split
          · exact ih hrest
          · exact ih hrest
      · cases hinode : (mapTokens piece)[4]? with
        | none => simp [mapLines, hinode]
        | some inode =>
            have hzero : inode ≠ "0".toList := fun hz => hpiece ⟨inode, hinode, Or.inl hz⟩
            have hfile : (mapTokens piece)[5]? = none := by
              cases hf : (mapTokens piece)[5]? with
              | none => rfl
              | some fileName => exact absurd ⟨inode, hinode, Or.inr ⟨fileName, hf⟩⟩ hpiece
            simp only [mapLines, hinode, hfile]
            exact if_neg hzero

/-! ### Descriptors -/

section Descriptors

variable {n : Str} {rest : List Str}

theorem fileDescriptors_cons_of_not_fits (h : ¬ FdFits fs p.path n) :
    fileDescriptors fs (n :: rest) p = .error .overrun := by
  simp only [FdFits, LinkFits, not_forall, Nat.not_lt] at h
  obtain ⟨hdots, text, htext, hlen⟩ := h
  rw [fileDescriptors, if_neg hdots]
  simp [htext, hlen]

/-- A descriptor adds its row, if it has one. -/
theorem fileDescriptors_cons_of_fits (rest : List Str) (h : FdFits fs p.path n) :
    ∃ known, fileDescriptors fs (n :: rest) p = fileDescriptors fs rest { p with
      fileList := p.fileList ++ (fdRow fs p.path n).toList
      hash := known } := by
  unfold fdRow
  rw [fileDescriptors]
  by_cases hdots : n = ".".toList ∨ n = "..".toList
  · exact ⟨p.hash, by simp only [if_pos hdots, Option.toList_none, List.append_nil]⟩
  · simp only [if_neg hdots]
    cases hr : fs.readlink (fdLink p.path n) with
    | error errsv => exact ⟨p.hash, by simp⟩
    | ok text =>
        have hlen : text.length < bufferSize := h hdots text hr
        have htake : text.take bufferSize = text := List.take_of_length_le hlen.le
        simp only [htake, if_neg hlen.ne]
        cases hf : File.ofPath fs n (fdLink p.path n) (linkName text) with
        | none => exact ⟨p.hash, by simp⟩
        | some f => exact ⟨_, rfl⟩

theorem fileDescriptors_of_fits {names : List Str} (h : ∀ n ∈ names, FdFits fs p.path n) :
    ∃ known, fileDescriptors fs names p = .ok { p with
      fileList := p.fileList ++ names.filterMap (fdRow fs p.path)
      hash := known } := by
  induction names generalizing p with
  | nil => exact ⟨p.hash, by simp [fileDescriptors]⟩
  | cons n rest ih =>
      obtain ⟨known, hstep⟩ := fileDescriptors_cons_of_fits rest (h n List.mem_cons_self)
      obtain ⟨known', hr⟩ := ih (p := { p with
        fileList := p.fileList ++ (fdRow fs p.path n).toList
        hash := known }) fun m hm => h m (List.mem_cons_of_mem _ hm)
      refine ⟨known', ?_⟩
      rw [hstep, hr]
      cases hrow : fdRow fs p.path n <;> simp [hrow]

theorem fileDescriptors_of_not_fits {names : List Str}
    (h : ¬ ∀ n ∈ names, FdFits fs p.path n) :
    fileDescriptors fs names p = .error .overrun := by
  induction names generalizing p with
  | nil => exact absurd (fun n hn => by cases hn) h
  | cons n rest ih =>
      by_cases hn : FdFits fs p.path n
      · obtain ⟨known, hstep⟩ := fileDescriptors_cons_of_fits rest hn
        rw [hstep]
        apply ih
        intro hall
        refine h fun m hm => ?_
        rcases List.mem_cons.1 hm with rfl | hm
        · exact hn
        · exact hall m hm
      · exact fileDescriptors_cons_of_not_fits hn

end Descriptors

/-! ## The whole examination -/

/-- What a stage makes of a process: it finds it gone, it adds its rows, or, where
what it reads does not fit, it is stopped. -/
inductive Stage (fit lost : Prop) (rows : List File) (recorded : List Str → Prop) (p : Process)
    (r : Except Fault Process) : Prop where
  | gone (hfit : fit) (hlost : lost) (q : Process) (hr : r = .ok q) (hq : q.alive = false)
  | kept (hfit : fit) (hlost : ¬ lost) (known : List Str) (hknown : recorded known)
      (hr : r = .ok { p with fileList := p.fileList ++ rows, hash := known })
  | stopped (hfit : ¬ fit) (e : Fault) (hr : r = .error e)

/-- Stages in sequence: the second reads only if the first has not found the process
gone, and its rows come after the others. -/
theorem Stage.bind {fit fit' lost lost' : Prop} {rows rows' : List File}
    {recorded recorded' : List Str → Prop} {r : Except Fault Process}
    {g : Process → Except Fault Process} (h : Stage fit lost rows recorded p r)
    (hg : ∀ known, recorded known → Stage fit' lost' rows' recorded'
      { p with fileList := p.fileList ++ rows, hash := known }
      (g { p with fileList := p.fileList ++ rows, hash := known }))
    (hdead : ∀ q : Process, q.alive = false → g q = .ok q) :
    Stage (fit ∧ (¬ lost → fit')) (lost ∨ lost') (rows ++ rows') recorded' p (r >>= g) := by
  cases h with
  | gone hfit hlost q hr hq =>
      subst hr
      exact .gone ⟨hfit, fun hkept => absurd hlost hkept⟩ (Or.inl hlost) q (hdead q hq) hq
  | stopped hfit e hr =>
      subst hr
      exact .stopped (fun h => hfit h.1) e rfl
  | kept hfit hlost known hknown hr =>
      subst hr
      cases hg known hknown with
      | gone hfit' hlost' q hr' hq =>
          exact .gone ⟨hfit, fun _ => hfit'⟩ (Or.inr hlost') q hr' hq
      | stopped hfit' e hr' => exact .stopped (fun h => hfit' (h.2 hlost)) e hr'
      | kept hfit' hlost' known' hknown' hr' =>
          refine .kept ⟨hfit, fun _ => hfit'⟩ (not_or.2 ⟨hlost, hlost'⟩) known' hknown' ?_
          rw [← List.append_assoc]
          exact hr'

theorem handleSpecialFiles_stage (hp : p.alive = true) :
    Stage (LinksFit fs (specialTargets p.path)) (LinksLost fs p.path) (specialRows fs p.path)
      (fun known => known = p.hash ++ (specialTargets p.path).filterMap (specialName fs)) p
      (handleSpecialFiles fs p) := by
  have halive : ¬ p.alive = false := by simp [hp]
  rw [handleSpecialFiles, if_neg halive]
  by_cases hfit : LinksFit fs (specialTargets p.path)
  · by_cases hlost : LinksLost fs p.path
    · obtain ⟨q, hr, hq⟩ := specialFiles_of_lost (p := p) hfit hlost
      exact .gone hfit hlost q hr hq
    · have hkept : ∀ tar ∈ specialTargets p.path, ¬ LinkLost fs tar.2 :=
        fun tar hmem htar => hlost ⟨tar, hmem, htar⟩
      exact .kept hfit hlost _ rfl (specialFiles_of_kept hfit hkept)
  · exact .stopped hfit _ (specialFiles_of_not_fits hfit)

theorem handleMemoryMaps_stage (hp : p.alive = true)
    (hhash : p.hash = (specialTargets p.path).filterMap (specialName fs)) :
    Stage (MapsFit fs p.path) (MapsLost fs p.path) (mapFiles fs p.path) (fun _ => True) p
      (handleMemoryMaps fs p) := by
  have halive : ¬ p.alive = false := by simp [hp]
  unfold handleMemoryMaps MapsFit MapsLost mapFiles
  rw [if_neg halive]
  cases hm : fs.fopen (mapsPath p.path) with
  | error errsv =>
      by_cases hdenied : errsv = eacces
      · refine .kept (by simp) (by simp [hdenied]) p.hash trivial ?_
        simp only [if_pos hdenied, List.append_nil]
      · refine .gone (by simp) ⟨errsv, rfl, hdenied⟩ { p with alive := false } ?_ rfl
        exact if_neg hdenied
  | ok text =>
      by_cases hfit : ∀ piece ∈ fgetsPieces bufferSize text, Complete piece
      · obtain ⟨known, hr⟩ := mapLines_of_complete (p := p) hfit
        rw [hhash] at hr
        exact .kept (by simpa using hfit) (by simp) known trivial hr
      · exact .stopped (by simpa using hfit) _ (mapLines_of_not_complete hfit)

theorem handleFileDescriptors_stage (hp : p.alive = true) :
    Stage (FdsFit fs p.path) (FdsLost fs p.path) (fdRows fs p.path) (fun _ => True) p
      (handleFileDescriptors fs p) := by
  have halive : ¬ p.alive = false := by simp [hp]
  unfold handleFileDescriptors FdsFit FdsLost fdRows
  rw [if_neg halive]
  cases hd : fs.opendir (fdDir p.path) with
  | error errsv =>
      by_cases hdenied : errsv = eacces
      · exact .kept (by simp) (by simp [hdenied]) p.hash trivial (if_pos hdenied)
      · exact .gone (by simp) ⟨errsv, rfl, hdenied⟩ { p with alive := false } (if_neg hdenied) rfl
  | ok names =>
      by_cases hfit : ∀ n ∈ names, FdFits fs p.path n
      · obtain ⟨known, hr⟩ := fileDescriptors_of_fits (p := p) hfit
        exact .kept (by simpa using hfit) (by simp) known trivial hr
      · exact .stopped (by simpa using hfit) _ (fileDescriptors_of_not_fits hfit)

/-- What is known of a process that has a command and a user. -/
def started (fs : ProcFs) (userTable : UserTable) (dirName : Str) : Process where
  path := procPath dirName
  command := commandOf fs (procPath dirName)
  pid := dirName
  userName := userOf fs userTable (procPath dirName)
  hash := []
  fileList := []
  alive := true

/-- The stages after the command and the user. -/
def stages (fs : ProcFs) (p : Process) : Except Fault Process :=
  handleSpecialFiles fs p >>= fun p => handleMemoryMaps fs p >>= handleFileDescriptors fs

/-- Together they are a stage, with all the rows. -/
theorem stages_stage (fs : ProcFs) (p : Process) (hp : p.alive = true) (hhash : p.hash = []) :
    Stage (StagesFit fs p.path) (LinksLost fs p.path ∨ MapsLost fs p.path ∨ FdsLost fs p.path)
      (openFiles fs p.path) (fun _ => True) p (stages fs p) := by
  refine (handleSpecialFiles_stage hp).bind ?_ ?_
  · intro known hknown
    rw [hhash, List.nil_append] at hknown
    refine (handleMemoryMaps_stage (p := { p with fileList := _, hash := known }) hp hknown).bind
      ?_ ?_
    · intro known' _
      exact handleFileDescriptors_stage (p := { p with fileList := _, hash := known' }) hp
    · intro q hq
      exact handleFileDescriptors_of_dead hq
  · intro q hq
    show (handleMemoryMaps fs q >>= handleFileDescriptors fs) = _
    rw [handleMemoryMaps_of_dead hq]
    exact handleFileDescriptors_of_dead hq

variable {userTable : UserTable} {filters : Filters}

/-- A process with a path and no more. -/
def fresh (dirName : Str) : Process := ⟨procPath dirName, [], [], [], [], [], true⟩

theorem process_eq {q : Process} (h : setCommand fs (fresh dirName) = .ok q) :
    process fs userTable dirName filters =
      (stages fs (setUserName fs userTable (setPid dirName q))).map
        (printOpeningFiles filters) := by
  unfold process
  rw [← fresh, h]
  show (handleSpecialFiles fs _ >>= _) = (handleSpecialFiles fs _ >>= _).map _
  cases handleSpecialFiles fs (setUserName fs userTable (setPid dirName q)) with
  | error e => rfl
  | ok p₁ =>
      show (handleMemoryMaps fs p₁ >>= _) = (handleMemoryMaps fs p₁ >>= _).map _
      cases handleMemoryMaps fs p₁ with
      | error e => rfl
      | ok p₂ =>
          show (handleFileDescriptors fs p₂ >>= _) = (handleFileDescriptors fs p₂).map _
          cases handleFileDescriptors fs p₂ with
          | error e => rfl
          | ok p₃ => rfl

/-- Nothing is printed of a process found gone before its stages. -/
theorem stages_of_dead (h : p.alive = false) :
    (stages fs p).map (printOpeningFiles filters) = .ok [] := by
  unfold stages
  rw [handleSpecialFiles_of_dead h]
  show (handleMemoryMaps fs p >>= _).map _ = _
  rw [handleMemoryMaps_of_dead h]
  show (handleFileDescriptors fs p).map _ = _
  rw [handleFileDescriptors_of_dead h]
  exact congrArg Except.ok (printOpeningFiles_of_dead h)

theorem process_of_comm_lost (h : commText fs (procPath dirName) = none) :
    process fs userTable dirName filters = .ok [] := by
  have hq : setCommand fs (fresh dirName) = .ok { fresh dirName with alive := false } :=
    setCommand_of_lost rfl h
  rw [process_eq hq, setUserName_of_dead rfl]
  exact stages_of_dead rfl

theorem process_of_empty (h : commText fs (procPath dirName) = some []) :
    process fs userTable dirName filters = .error .overrun := by
  have hq := setCommand_of_read (p := fresh dirName) rfl h
  unfold process
  rw [← fresh, hq]
  rfl

/-- After a command the directory of the process decides whether anything follows. -/
theorem process_of_read (userTable : UserTable) (filters : Filters) {text : Str}
    (h : commText fs (procPath dirName) = some text) (hne : text ≠ []) :
    process fs userTable dirName filters =
      if fs.stat (procPath dirName) = none then .ok []
      else (stages fs (started fs userTable dirName)).map (printOpeningFiles filters) := by
  have hq := setCommand_of_read (p := fresh dirName) rfl h
  rw [if_neg hne] at hq
  rw [process_eq hq]
  cases hs : fs.stat (procPath dirName) with
  | none =>
      rw [if_pos rfl]
      exact stages_of_dead (setUserName_of_lost rfl hs)
  | some statbuf =>
      rw [if_neg (by simp), setUserName_of_stat rfl hs]
      simp only [started, commandOf, userOf, h, hs, fresh]

theorem printOpeningFiles_started {known : List Str} :
    printOpeningFiles filters { started fs userTable dirName with
        fileList := (started fs userTable dirName).fileList ++ openFiles fs (procPath dirName)
        hash := known } =
      if filters.command (commandOf fs (procPath dirName)) = true
        then expected fs userTable dirName filters else [] := by
  unfold printOpeningFiles expected
  cases hc : filters.command (commandOf fs (procPath dirName)) with
  | false => simp [started, hc]
  | true => simp [started, hc]

/-- What becomes of a process: it is gone, it has its rows, or, where something that is
read does not fit, the constructor is stopped. -/
inductive Outcome (fs : ProcFs) (userTable : UserTable) (dirName : Str) (filters : Filters) :
    Prop where
  | gone (hfit : Fits fs (procPath dirName)) (hlost : Lost fs (procPath dirName))
      (hr : process fs userTable dirName filters = .ok [])
  | kept (hfit : Fits fs (procPath dirName)) (hlost : ¬ Lost fs (procPath dirName))
      (hr : process fs userTable dirName filters =
        .ok (if filters.command (commandOf fs (procPath dirName)) = true
          then expected fs userTable dirName filters else []))
  | stopped (hfit : ¬ Fits fs (procPath dirName)) (e : Fault)
      (hr : process fs userTable dirName filters = .error e)

theorem process_outcome (fs : ProcFs) (userTable : UserTable) (dirName : Str)
    (filters : Filters) : Outcome fs userTable dirName filters := by
  cases hcomm : commText fs (procPath dirName) with
  | none =>
      refine .gone ?_ (Or.inl hcomm) (process_of_comm_lost hcomm)
      intro text htext
      rw [hcomm] at htext
      cases htext
  | some text =>
      by_cases hempty : text = []
      · subst hempty
        exact .stopped (fun hfit => (hfit [] hcomm).1 rfl) _ (process_of_empty hcomm)
      · have hfits : Fits fs (procPath dirName) ↔
            (fs.stat (procPath dirName) ≠ none → StagesFit fs (procPath dirName)) := by
          simp [Fits, hcomm, hempty]
        have hrun := process_of_read userTable filters hcomm hempty
        by_cases hstat : fs.stat (procPath dirName) = none
        · rw [if_pos hstat] at hrun
          exact .gone (hfits.2 fun hs => absurd hstat hs) (Or.inr (Or.inl hstat)) hrun
        · rw [if_neg hstat] at hrun
          have hlost : Lost fs (procPath dirName) ↔ LinksLost fs (procPath dirName) ∨
              MapsLost fs (procPath dirName) ∨ FdsLost fs (procPath dirName) := by
            simp [Lost, hcomm, hstat]
          cases stages_stage fs (started fs userTable dirName) rfl rfl with
          | gone hfit hgone q hr hq =>
              refine .gone (hfits.2 fun _ => hfit) (hlost.2 hgone) ?_
              rw [hrun, hr]
              exact congrArg Except.ok (printOpeningFiles_of_dead hq)
          | kept hfit hkept known _ hr =>
              refine .kept (hfits.2 fun _ => hfit) (fun h => hkept (hlost.1 h)) ?_
              rw [hrun, hr]
              exact congrArg Except.ok printOpeningFiles_started
          | stopped hfit e hr =>
              refine .stopped (fun h => hfit (hfits.1 h hstat)) e ?_
              rw [hrun, hr]
              rfl

theorem process_of_not_fits (userTable : UserTable) (filters : Filters)
    (h : ¬ Fits fs (procPath dirName)) :
    ∃ e, process fs userTable dirName filters = .error e := by
  cases process_outcome fs userTable dirName filters with
  | gone hfit _ _ => exact absurd hfit h
  | kept hfit _ _ => exact absurd hfit h
  | stopped _ e hr => exact ⟨e, hr⟩

/-- Where something was to be said of a process, it has to fit. -/
theorem Listed.fits (h : Listed fs userTable dirName filters)
    (hsaid : ¬ Lost fs (procPath dirName) →
      filters.command (commandOf fs (procPath dirName)) = true) : Fits fs (procPath dirName) := by
  by_contra hfit
  obtain ⟨e, hr⟩ := process_of_not_fits userTable filters hfit
  by_cases hlost : Lost fs (procPath dirName)
  · have hgone := h.gone hlost
    rw [hr] at hgone
    cases hgone
  · have hlisted := h.listed hlost (hsaid hlost)
    rw [hr] at hlisted
    cases hlisted

/-- **When a process is listed as it should be.**  Either nothing that is read of it
overruns, or it is not gone and its command does not pass the filter, so that nothing
was to be said of it. -/
theorem listed_iff (fs : ProcFs) (userTable : UserTable) (dirName : Str) (filters : Filters) :
    Listed fs userTable dirName filters ↔
      Fits fs (procPath dirName) ∨
        (¬ Lost fs (procPath dirName) ∧
          filters.command (commandOf fs (procPath dirName)) = false) := by
  constructor
  · intro h
    by_contra hcon
    rw [not_or, not_and] at hcon
    refine hcon.1 (h.fits fun hlost => ?_)
    simpa using hcon.2 hlost
  · rintro (hfit | ⟨hlost, hcommand⟩)
    · cases process_outcome fs userTable dirName filters with
      | gone _ hlost hr => exact ⟨fun _ => hr, fun hkept => absurd hlost hkept⟩
      | kept _ hlost hr =>
          refine ⟨fun h => absurd h hlost, fun _ hpass => ?_⟩
          rw [hr, if_pos hpass]
      | stopped hnot _ _ => exact absurd hfit hnot
    · refine ⟨fun h => absurd h hlost, fun _ hpass => ?_⟩
      rw [hcommand] at hpass
      cases hpass

/-! ## A line that is longer than the buffer -/

/-- What is before the name on a line of `maps`. -/
def longHead : Str := "00400000-0040b000 r-xp 00000000 08:02 173521 ".toList

/-- As much of a long name as fits into the buffer after it. -/
def longPath : Str := (List.replicate 489 ['/', 'a']).flatten

/-- What the first `fgets` reads. -/
def longStart : Str := longHead ++ longPath

/-- The end of the name. -/
def longEnd : Str := "/a\n".toList

theorem length_longStart : longStart.length = 1023 := by
  have hhead : longHead.length = 45 := by decide
  have hpath : longPath.length = 978 := length_copies ['/', 'a'] 489
  show (longHead ++ longPath).length = 1023
  rw [List.length_append, hhead, hpath]

theorem newline_not_mem_longStart : '\n' ∉ longStart := by
  intro h
  rcases List.mem_append.1 (show '\n' ∈ longHead ++ longPath from h) with h | h
  · revert h
    decide
  · have hmem : '\n' ∈ ['/', 'a'] := @mem_of_mem_copies _ _ 489 h
    revert hmem
    decide

/-- A process that maps a file of such a name. -/
def longProc : ProcFs where
  openFile _ := some 3
  read _ := some "bash\n".toList
  stat _ := some ⟨0o100755, 173521, 0⟩
  lstat _ := some ⟨0o120777, 20, 0⟩
  readlink _ := .ok "/".toList
  fopen _ := .ok (longStart ++ longEnd)
  opendir _ := .ok []

/-- The second piece of the line is the end of the name. -/
theorem longEnd_mem : longEnd ∈ fgetsPieces bufferSize (longStart ++ longEnd) := by
  have hne : longStart ≠ [] := by
    intro h
    have hlen := length_longStart
    rw [h] at hlen
    cases hlen
  have hsize : longStart.length + 1 = bufferSize := by rw [length_longStart]; rfl
  rw [fgetsPieces_full hne hsize newline_not_mem_longStart]
  have hend : fgetsPieces bufferSize longEnd = [longEnd] := by decide
  rw [hend]
  exact List.mem_cons_of_mem _ List.mem_cons_self

/-- The examination of that process ends with a string made of a null pointer. -/
theorem long_map_not_listed :
    ¬ Listed longProc (fun _ => none) "7".toList ⟨fun _ => true, fun _ => true, fun _ => true⟩ := by
  intro h
  have hfit : Fits longProc (procPath "7".toList) := h.fits fun _ => rfl
  obtain ⟨-, hstages⟩ := hfit "bash\n".toList rfl
  have hkept : ¬ LinksLost longProc (procPath "7".toList) := by
    rintro ⟨tar, -, hlost⟩
    rcases hlost with hlost | hlost
    · cases hlost
    · cases hlost
  have hmaps := ((hstages (by simp [longProc])).2 hkept).1
  obtain ⟨inode, hinode, -⟩ := hmaps _ rfl longEnd longEnd_mem
  have hnone : (mapTokens longEnd)[4]? = none := by decide
  rw [hnone] at hinode
  cases hinode

end Lsof
