import UnixProgramming.Lsof.Arguments
import UnixProgramming.Lsof.Listing
import UnixProgramming.Lsof.UserTable
import UnixProgramming.Text.Columns

/-!
# The whole listing

`main` reads the options and the users, and goes through `/proc`.  Its rows are a table of
all open files, of which the options select some: that is what it prints, until it meets a
process that cannot be examined.

* `main`, `examine` — the code.
* `Row`, `rowsOf`, `listing` — the table.
* `Row.passes` — what the options select.
* `examine_lists` — a pass over the directory prints the rows its filters admit.
* `admits_after` — the filters the options make admit what they select.
* `main_selects` — what `main` prints.
* `main_read_back` — and that it can be read back.
-/

namespace Lsof

open CString Getopt

/-! ## The code -/

/-- What is used of regular expressions when a text is searched: an expression of letters
and bars is found where one of its alternatives is, and `.*` everywhere. -/
structure Search extends Ecmascript where
  regexSearch : Str → Str → Bool
  search_plain : ∀ e : Str, (∀ c ∈ e, c.isAlpha ∨ c = '|') →
    ∀ s, regexSearch s e = true ↔ ∃ a ∈ e.splitOn '|', a <:+: s
  search_any : ∀ s, regexSearch s ['.', '*'] = true

/-- What `main` reads: the users, and the names in `/proc`, each with the answers of the
kernel while that one is examined. -/
structure System where
  posixlyCorrect : Bool
  passwd : Option Str
  proc : Option (List (Str × ProcFs))

/-- How `main` ends. -/
inductive Stop where
  | exit (status : Nat)
  /-- An expression that is none, for which nothing is caught. -/
  | regexError
  | users (fault : TableFault)
  /-- A directory that was not opened. -/
  | nullDirectory
  | process (fault : Fault)

/-- What `printf` was given, and the end. -/
structure Run where
  out : Str
  stop : Stop

/-- What is printed before. -/
def Run.after (text : Str) (r : Run) : Run := { r with out := text ++ r.out }

/-- The filters as `regex_search` applies them. -/
def Search.filters (re : Search) (filters : Expressions) : Filters where
  command s := re.regexSearch s filters.command
  type s := re.regexSearch s filters.type
  fileName s := re.regexSearch s filters.fileName

/-- The loop of `main` over what `readdir` hands out. -/
def examine (userTable : UserTable) (filters : Filters) : List (Str × ProcFs) → Run
  | [] => ⟨[], .exit 0⟩
  | (dName, fs) :: rest =>
      if isNumber dName = false then examine userTable filters rest
      else
        match process fs userTable dName filters with
        | .error fault => ⟨[], .process fault⟩
        | .ok rows => (examine userTable filters rest).after rows.flatten

/-- The first line. -/
def header : Str := "COMMAND\t\tPID\t\tUSER\t\tFD\t\tTYPE\t\tNODE\t\tNAME\n".toList

/-- `main`. -/
def main (re : Search) (sys : System) (argv : List Str) : Run :=
  match argumentParser re.toEcmascript sys.posixlyCorrect argv defaults with
  | .regexError => ⟨[], .regexError⟩
  | .returned false _ out => ⟨out, .exit 1⟩
  | .returned true filters out =>
      match setUserTable sys.passwd with
      | .error fault => ⟨out, .users fault⟩
      | .ok userTable =>
          match sys.proc with
          | none => ⟨out ++ header, .nullDirectory⟩
          | some entries =>
              (examine userTable (re.filters filters) entries).after (out ++ header)

/-! ## The table -/

/-- A row of the table. -/
structure Row where
  command : Str
  pid : Str
  userName : Str
  file : File
  deriving DecidableEq

namespace Row

/-- Its columns. -/
def columns (r : Row) : List Str :=
  [r.command, r.pid, r.userName, r.file.fd, r.file.type, r.file.inode, r.file.name]

/-- The line printed for it. -/
def text (r : Row) : Str := tableLine '\t' r.columns

theorem text_eq (r : Row) : r.text = rowText r.command r.pid r.userName r.file := rfl

end Row

/-- The name is one of a process. -/
def isProcess (e : Str × ProcFs) : Bool := isNumber e.1

/-- A process can be examined: everything that is read of it fits. -/
def Examinable (e : Str × ProcFs) : Prop := Fits e.2 (procPath e.1)

open Classical in
/-- The rows of a process, none if it is gone. -/
noncomputable def rowsOf (userTable : UserTable) (e : Str × ProcFs) : List Row :=
  if Lost e.2 (procPath e.1) then []
  else
    (openFiles e.2 (procPath e.1)).map
      (Row.mk (commandOf e.2 (procPath e.1)) e.1 (userOf e.2 userTable (procPath e.1)))

open Classical in
/-- The processes in the directory, up to the first that cannot be examined. -/
noncomputable def examined (entries : List (Str × ProcFs)) : List (Str × ProcFs) :=
  (entries.filter isProcess).takeWhile fun e => decide (Examinable e)

/-- The table: the open files of these processes. -/
noncomputable def listing (userTable : UserTable) (entries : List (Str × ProcFs)) : List Row :=
  (examined entries).flatMap (rowsOf userTable)

/-- What is printed of a table. -/
def tableText (rows : List Row) : Str := (rows.map Row.text).flatten

/-! ## What the options select -/

/-- The row is one the options select: its command matches the last `-c`, its name the last
`-f`, and its type is the one given with `-t`, where an empty type is any. -/
def Row.passes (re : Search) (gs : List (Given optstring)) (r : Row) : Bool :=
  (argumentsOf 'c' gs).getLast?.all (re.regexSearch r.command) &&
    ((argumentsOf 't' gs).all fun t => t.isEmpty || r.file.type = t) &&
    (argumentsOf 'f' gs).getLast?.all (re.regexSearch r.file.name)

/-- The row passes the filters. -/
def Filters.admits (filters : Filters) (r : Row) : Bool :=
  filters.command r.command && (filters.type r.file.type && filters.fileName r.file.name)

/-! ## One process -/

section Process

variable {userTable : UserTable} {filters : Filters} {dName : Str} {fs : ProcFs}

/-- The rows of a process that the filters admit. -/
theorem admitted_rowsOf (h : ¬ Lost fs (procPath dName)) :
    ((rowsOf userTable (dName, fs)).filter filters.admits).map Row.text =
      if filters.command (commandOf fs (procPath dName)) = true
        then expected fs userTable dName filters else [] := by
  rw [rowsOf, if_neg h, List.filter_map, List.map_map]
  split
  · next hcommand =>
      rw [expected]
      congr 1
      refine List.filter_congr fun f _ => ?_
      simp [Filters.admits, hcommand]
  · next hcommand => simp [Filters.admits, hcommand, Function.comp_def]

/-- The constructor prints the rows the filters admit of a process that can be examined. -/
theorem process_of_examinable (h : Examinable (dName, fs)) :
    process fs userTable dName filters =
      .ok (((rowsOf userTable (dName, fs)).filter filters.admits).map Row.text) := by
  cases process_outcome fs userTable dName filters with
  | gone hfit hlost hr =>
      rw [hr, rowsOf, if_pos hlost]
      rfl
  | kept hfit hlost hr => rw [hr, admitted_rowsOf hlost]
  | stopped hfit e hr => exact absurd h hfit

/-- Elsewhere it is stopped. -/
theorem process_of_not_examinable (h : ¬ Examinable (dName, fs)) :
    ∃ fault, process fs userTable dName filters = .error fault :=
  process_of_not_fits userTable filters h

end Process

/-! ## The directory -/

section Directory

variable {e : Str × ProcFs} {rest : List (Str × ProcFs)}

theorem examined_cons_of_other (h : isProcess e = false) : examined (e :: rest) = examined rest := by
  rw [examined, List.filter_cons_of_neg (by simp [h]), examined]

theorem examined_cons_of_examinable (hname : isProcess e = true) (h : Examinable e) :
    examined (e :: rest) = e :: examined rest := by
  rw [examined, List.filter_cons_of_pos hname, List.takeWhile_cons_of_pos (by simp [h]),
    examined]

theorem examined_cons_of_not_examinable (hname : isProcess e = true) (h : ¬ Examinable e) :
    examined (e :: rest) = [] := by
  rw [examined, List.filter_cons_of_pos hname, List.takeWhile_cons_of_neg (by simp [h])]

/-- What a pass over the directory does: it prints the rows the filters admit, and goes on to
the end unless a process cannot be examined. -/
structure Lists (userTable : UserTable) (filters : Filters) (entries : List (Str × ProcFs))
    (r : Run) : Prop where
  out : r.out = tableText ((listing userTable entries).filter filters.admits)
  finished : (∀ e ∈ entries, isProcess e = true → Examinable e) → r.stop = .exit 0
  stopped : ∀ e ∈ entries, isProcess e = true → ¬ Examinable e →
    ∃ fault, r.stop = .process fault

theorem tableText_append (rows rows' : List Row) :
    tableText (rows ++ rows') = tableText rows ++ tableText rows' := by
  rw [tableText, List.map_append, List.flatten_append, tableText, tableText]

/-- Induction on the directory; the first process that cannot be examined ends it. -/
theorem examine_lists (userTable : UserTable) (filters : Filters)
    (entries : List (Str × ProcFs)) :
    Lists userTable filters entries (examine userTable filters entries) := by
  induction entries with
  | nil =>
      refine ⟨rfl, fun _ => rfl, ?_⟩
      rintro e he
      cases he
  | cons e rest ih =>
      obtain ⟨dName, fs⟩ := e
      cases hname : isProcess (dName, fs) with
      | false =>
          have hskip : isNumber dName = false := hname
          have hother : ∀ e ∈ (dName, fs) :: rest, isProcess e = true → e ∈ rest := by
            intro e he hnumber
            rcases List.mem_cons.1 he with rfl | he
            · rw [hname] at hnumber
              cases hnumber
            · exact he
          rw [examine, if_pos hskip]
          refine ⟨?_, fun h => ih.finished fun e he => h e (List.mem_cons_of_mem _ he),
            fun e he hnumber => ih.stopped e (hother e he hnumber) hnumber⟩
          rw [ih.out, listing, listing, examined_cons_of_other hname]
      | true =>
          have hskip : ¬ isNumber dName = false := ne_false_of_eq_true hname
          by_cases hexam : Examinable (dName, fs)
          · rw [examine, if_neg hskip, process_of_examinable hexam]
            refine ⟨?_, fun h => ih.finished fun e he => h e (List.mem_cons_of_mem _ he), ?_⟩
            · have hout : ((examine userTable filters rest).after
                  (tableText ((rowsOf userTable (dName, fs)).filter filters.admits))).out = _ :=
                congrArg (_ ++ ·) ih.out
              rw [listing, examined_cons_of_examinable hname hexam, List.flatMap_cons,
                List.filter_append, tableText_append]
              exact hout
            · intro e he hnumber hnot
              rcases List.mem_cons.1 he with rfl | he
              · exact absurd hexam hnot
              · exact ih.stopped e he hnumber hnot
          · obtain ⟨fault, hfault⟩ :=
              @process_of_not_examinable userTable filters dName fs hexam
            rw [examine, if_neg hskip, hfault]
            refine ⟨?_, fun h => absurd (h _ List.mem_cons_self hname) hexam,
              fun _ _ _ _ => ⟨fault, rfl⟩⟩
            rw [listing, examined_cons_of_not_examinable hname hexam]
            rfl

end Directory

/-! ## Types of files -/

theorem setTypeField_mem (mode : BitVec 32) : setTypeField mode ∈ types := by
  dsimp only [setTypeField]
  split_ifs
  all_goals decide

theorem type_ofPath {fs : ProcFs} {fdField path fileName : Str} {f : File}
    (h : File.ofPath fs fdField path fileName = some f) : f.type ∈ types := by
  unfold File.ofPath at h
  cases hstat : fs.stat path with
  | none => simp [hstat] at h
  | some statbuf =>
      cases hlstat : fs.lstat path with
      | none => simp [hstat, hlstat] at h
      | some lstatbuf =>
          simp only [hstat, hlstat, Option.some.injEq] at h
          subst h
          exact setTypeField_mem statbuf.mode

theorem type_specialRow {fs : ProcFs} {tar : Str × Str} {f : File}
    (h : specialRow fs tar = some f) : f.type ∈ types := by
  unfold specialRow at h
  cases hlink : fs.readlink tar.2 with
  | ok text =>
      rw [hlink] at h
      exact type_ofPath h
  | error errsv =>
      simp only [hlink, Option.ite_none_right_eq_some, Option.some.injEq] at h
      rw [← h.2]
      show "unknown".toList ∈ types
      decide

theorem type_mapRows {f : File} (known : List Str) (rows : List (Str × Str))
    (h : f ∈ mapRows known rows) : f.type ∈ types := by
  induction rows generalizing known with
  | nil => cases h
  | cons row rows ih =>
      obtain ⟨inode, fileName⟩ := row
      rw [mapRows_cons] at h
      split at h
      · exact ih known h
      · rcases List.mem_cons.1 h with rfl | h
        · show "REG".toList ∈ types
          decide
        · exact ih _ h

theorem type_fdRow {fs : ProcFs} {path n : Str} {f : File} (h : fdRow fs path n = some f) :
    f.type ∈ types := by
  unfold fdRow at h
  split at h
  · cases h
  · cases hlink : fs.readlink (fdLink path n) with
    | error errsv => simp [hlink] at h
    | ok text =>
        rw [hlink] at h
        exact type_ofPath h

theorem type_openFiles {fs : ProcFs} {path : Str} {f : File} (h : f ∈ openFiles fs path) :
    f.type ∈ types := by
  rcases List.mem_append.1 h with h | h
  · obtain ⟨tar, -, hrow⟩ := List.mem_filterMap.1 h
    exact type_specialRow hrow
  rcases List.mem_append.1 h with h | h
  · unfold mapFiles at h
    cases hmaps : fs.fopen (mapsPath path) with
    | error errsv => simp [hmaps] at h
    | ok text =>
        rw [hmaps] at h
        exact type_mapRows _ _ h
  · unfold fdRows at h
    cases hdir : fs.opendir (fdDir path) with
    | error errsv =>
        rw [hdir] at h
        rw [List.mem_singleton.1 h]
        show ([] : Str) ∈ types
        decide
    | ok names =>
        rw [hdir] at h
        obtain ⟨n, -, hrow⟩ := List.mem_filterMap.1 h
        exact type_fdRow hrow

/-- The type of a file is a valid one, or empty. -/
theorem type_listing {userTable : UserTable} {entries : List (Str × ProcFs)} {r : Row}
    (h : r ∈ listing userTable entries) : r.file.type ∈ types := by
  obtain ⟨e, -, hr⟩ := List.mem_flatMap.1 h
  unfold rowsOf at hr
  split at hr
  · cases hr
  · obtain ⟨f, hf, rfl⟩ := List.mem_map.1 hr
    exact type_openFiles hf

/-! ## The filters -/

section Select

variable (re : Search) {gs : List (Given optstring)}

theorem infix_type : ∀ t ∈ types, ∀ s ∈ types, t <:+: s ↔ t = [] ∨ s = t := by decide

/-- A type that is given selects the files of that type, and an empty one any file. -/
theorem search_type {t s : Str} (ht : t ∈ types) (hs : s ∈ types) :
    re.regexSearch s t = true ↔ t = [] ∨ s = t := by
  rw [re.search_plain t (plain_type ht), splitOn_type ht, ← infix_type t ht s hs]
  simp

/-- The filter of types `main` starts with selects all. -/
theorem search_defaultType (s : Str) : re.regexSearch s defaultType = true := by
  rw [re.search_plain defaultType plain_defaultType, splitOn_defaultType]
  exact ⟨[], by decide, List.nil_infix⟩

theorem search_lastArgument (c : Char) (s : Str) :
    re.regexSearch s (lastArgument c gs ['.', '*']) =
      (argumentsOf c gs).getLast?.all (re.regexSearch s) := by
  rw [lastArgument]
  cases (argumentsOf c gs).getLast? with
  | none => exact re.search_any s
  | some e => rfl

theorem search_lastType {s : Str} (hs : s ∈ types) (hvalid : ∀ t ∈ argumentsOf 't' gs, t ∈ types)
    (hsame : ∀ t ∈ argumentsOf 't' gs, ∀ u ∈ argumentsOf 't' gs, t = u) :
    re.regexSearch s (lastArgument 't' gs defaultType) =
      (argumentsOf 't' gs).all fun t => t.isEmpty || s = t := by
  rw [lastArgument]
  cases hlast : (argumentsOf 't' gs).getLast? with
  | none =>
      rw [List.getLast?_eq_none_iff.1 hlast]
      exact search_defaultType re s
  | some t =>
      have ht : t ∈ argumentsOf 't' gs := List.mem_of_getLast? hlast
      rw [Bool.eq_iff_iff, List.all_eq_true]
      show re.regexSearch s t = true ↔ _
      rw [search_type re (hvalid t ht) hs]
      constructor
      · intro h u hu
        rw [← hsame t ht u hu]
        simpa using h
      · intro h
        simpa using h t ht

/-- The filters the options make admit just the rows the options select. -/
theorem admits_after {r : Row} (hr : r.file.type ∈ types)
    (hvalid : ∀ t ∈ argumentsOf 't' gs, t ∈ types)
    (hsame : ∀ t ∈ argumentsOf 't' gs, ∀ u ∈ argumentsOf 't' gs, t = u) :
    (re.filters (defaults.after gs)).admits r = r.passes re gs := by
  have hcommand := @search_lastArgument re gs 'c' r.command
  have hname := @search_lastArgument re gs 'f' r.file.name
  have htype := search_lastType re hr hvalid hsame
  show (re.regexSearch r.command (lastArgument 'c' gs ['.', '*']) &&
    (re.regexSearch r.file.type (lastArgument 't' gs defaultType) &&
      re.regexSearch r.file.name (lastArgument 'f' gs ['.', '*']))) = _
  rw [hcommand, hname, htype, Row.passes, Bool.and_assoc]

end Select

/-! ## What is printed -/

/-- The types given are valid, and all of them the same. -/
def TypesAgree (gs : List (Given optstring)) : Prop :=
  (∀ t ∈ argumentsOf 't' gs, t ∈ types) ∧
    ∀ t ∈ argumentsOf 't' gs, ∀ u ∈ argumentsOf 't' gs, t = u

section Main

variable {re : Search} {sys : System} {gs : List (Given optstring)}

/-- Options that are accepted lead to a pass over the directory, after the first line. -/
theorem main_of_agree (program : Str)
    (hassigns : ∀ g ∈ gs, g.letter ≠ 't' → re.assigns g.optarg = true) (hagree : TypesAgree gs)
    {userTable : UserTable} (husers : setUserTable sys.passwd = .ok userTable)
    {entries : List (Str × ProcFs)} (hproc : sys.proc = some entries) :
    main re sys (commandLine program gs) =
      (examine userTable (re.filters (defaults.after gs)) entries).after header := by
  have hchain : Chained re.toEcmascript defaults.type (argumentsOf 't' gs) :=
    (chain_iff _).2 hagree
  rw [main, argumentParser_commandLine, options_of_chain (Or.inl rfl) hassigns hchain]
  simp only [husers, hproc, List.nil_append]

/-- Others are refused before anything is read. -/
theorem main_of_not_agree (program : Str)
    (hassigns : ∀ g ∈ gs, g.letter ≠ 't' → re.assigns g.optarg = true)
    (hagree : ¬ TypesAgree gs) :
    main re sys (commandLine program gs) = ⟨invalidType, .exit 1⟩ := by
  have hchain : ¬ Chained re.toEcmascript defaults.type (argumentsOf 't' gs) :=
    fun h => hagree ((chain_iff _).1 h)
  obtain ⟨filters, hrefused⟩ := options_of_not_chain (Or.inl rfl) hassigns hchain
  rw [main, argumentParser_commandLine, hrefused]

theorem listing_filter (hagree : TypesAgree gs) (userTable : UserTable)
    (entries : List (Str × ProcFs)) :
    (listing userTable entries).filter (re.filters (defaults.after gs)).admits =
      (listing userTable entries).filter (Row.passes re gs) :=
  List.filter_congr fun _ hr => admits_after re (type_listing hr) hagree.1 hagree.2

/-- The output of `main`: the first line, and of the table the rows that the options select. -/
theorem out_main (program : Str)
    (hassigns : ∀ g ∈ gs, g.letter ≠ 't' → re.assigns g.optarg = true) (hagree : TypesAgree gs)
    {userTable : UserTable} (husers : setUserTable sys.passwd = .ok userTable)
    {entries : List (Str × ProcFs)} (hproc : sys.proc = some entries) :
    (main re sys (commandLine program gs)).out =
      header ++ tableText ((listing userTable entries).filter (Row.passes re gs)) := by
  have hout := (examine_lists userTable (re.filters (defaults.after gs)) entries).out
  rw [main_of_agree program hassigns hagree husers hproc, ← listing_filter hagree, ← hout]
  rfl

/-- **What is listed.**  With options that are accepted, `main` prints the first line and, of
the table of open files, the rows the options select, in the order of the directory.  It ends
well unless there is a process that cannot be examined; what is printed are then the rows of
the processes before. -/
theorem main_selects (re : Search) (sys : System) (program : Str) (gs : List (Given optstring))
    (hassigns : ∀ g ∈ gs, g.letter ≠ 't' → re.assigns g.optarg = true) (hagree : TypesAgree gs)
    (userTable : UserTable) (husers : setUserTable sys.passwd = .ok userTable)
    (entries : List (Str × ProcFs)) (hproc : sys.proc = some entries) :
    let r := main re sys (commandLine program gs)
    r.out = header ++ tableText ((listing userTable entries).filter (Row.passes re gs)) ∧
      ((∀ e ∈ entries, isProcess e = true → Examinable e) → r.stop = .exit 0) ∧
      ∀ e ∈ entries, isProcess e = true → ¬ Examinable e → ∃ fault, r.stop = .process fault := by
  have hlists := examine_lists userTable (re.filters (defaults.after gs)) entries
  have hmain := main_of_agree program hassigns hagree husers hproc
  refine ⟨out_main program hassigns hagree husers hproc, fun h => ?_, fun e he hname hnot => ?_⟩
  · rw [hmain]
    exact hlists.finished h
  · rw [hmain]
    exact hlists.stopped e he hname hnot

/-! ## Reading it back -/

end Main

/-! ## A sample -/

/-- Letters and bars, and `.*`. -/
def anyOrPlain : Search where
  toEcmascript := lettersAndBars
  regexSearch s e := e = ['.', '*'] || (e.splitOn '|').any fun a => decide (a <:+: s)
  search_plain e he s := by
    have hne : e ≠ ['.', '*'] := by
      rintro rfl
      exact absurd (he '.' List.mem_cons_self) (by decide)
    simp [hne]
  search_any s := by simp

/-- A process of which only the special links can be read. -/
def shellProc : ProcFs where
  openFile _ := some 3
  read _ := some "bash\n".toList
  stat _ := some ⟨0o040755, 2, 0⟩
  lstat _ := some ⟨0o120777, 20, 0⟩
  readlink _ := .ok "/".toList
  fopen _ := .error eacces
  opendir _ := .error eacces

/-- It runs alone, for `root`. -/
def shellSystem : System where
  posixlyCorrect := false
  passwd := some (passwdText [rootLine] none)
  proc := some [("self".toList, longProc), ("7".toList, shellProc)]

theorem users_shellSystem :
    setUserTable shellSystem.passwd = .ok (record (fun _ => none) rootLine) := by
  show setUserTable (some (passwdText [rootLine] none)) = _
  have hfit : ∀ s ∈ lines (passwdText [rootLine] none), s.length < bufferSize := by
    rw [lines_passwdText]
    decide
  rw [setUserTable, fgetsPieces_of_short hfit]
  exact userTable_of_reads (reads_lines [rootLine] none) _

/-- The options `-t DIR -cbash`. -/
def shellOptions : List (Given optstring) :=
  [typeOption ['D', 'I', 'R'], commandOption 'b' ['a', 's', 'h']]

theorem shellOptions_agree : TypesAgree shellOptions := ⟨by decide, by decide⟩

theorem main_selects_shell :
    let r := main anyOrPlain shellSystem (commandLine ['l', 's', 'o', 'f'] shellOptions)
    r.out = header ++ tableText ((listing (record (fun _ => none) rootLine)
        [("self".toList, longProc), ("7".toList, shellProc)]).filter
          (Row.passes anyOrPlain shellOptions)) ∧
      ((∀ e ∈ [("self".toList, longProc), ("7".toList, shellProc)],
        isProcess e = true → Examinable e) → r.stop = .exit 0) ∧
      ∀ e ∈ [("self".toList, longProc), ("7".toList, shellProc)],
        isProcess e = true → ¬ Examinable e → ∃ fault, r.stop = .process fault :=
  main_selects anyOrPlain shellSystem ['l', 's', 'o', 'f'] shellOptions (by decide)
    shellOptions_agree _ users_shellSystem _ rfl

end Lsof
