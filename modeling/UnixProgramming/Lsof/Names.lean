import UnixProgramming.Lsof.Maps

/-!
# The name of a removed file

The kernel marks the text of a link whose file was removed, and the mark is taken off by
erasing the first text of its form.

* `Followed`, `SpecialRecords`, `FdRecords` — a link that can be followed, and the name a
  loop records for it.
* `records_iff`, with `specialRecords_iff` and `fdRecords_iff` — the name is what erasing leaves.
* `name_recovered_iff` — when that is the name of the file.
-/

namespace Lsof

open CString

variable {fs : ProcFs}

/-- The link has a text, and what it stands for is there. -/
structure Followed (fs : ProcFs) (link text : Str) : Prop where
  readlink : fs.readlink link = .ok text
  stat : fs.stat link ≠ none
  lstat : fs.lstat link ≠ none

/-- Whatever was examined before, the loop over the special links adds a row with this
name for the link, records the name, and goes on. -/
def SpecialRecords (fs : ProcFs) (tar : Str × Str) (name : Str) : Prop :=
  ∀ p : Process, ∃ f : File, f.name = name ∧ ∀ rest,
    specialFiles fs (tar :: rest) p = specialFiles fs rest { p with
      fileList := p.fileList ++ [f]
      hash := p.hash ++ [name] }

/-- And so does the loop over the descriptors of a process. -/
def FdRecords (fs : ProcFs) (dirName fileDescriptor name : Str) : Prop :=
  ∀ p : Process, p.path = procPath dirName → ∃ f : File, f.name = name ∧ ∀ rest,
    fileDescriptors fs (fileDescriptor :: rest) p = fileDescriptors fs rest { p with
      fileList := p.fileList ++ [f]
      hash := p.hash ++ [name] }

/-- What stands for a link that can be followed makes a row, with any name. -/
theorem Followed.ofPath {link text : Str} (h : Followed fs link text) (fdField name : Str) :
    ∃ f, File.ofPath fs fdField link name = some f ∧ f.name = name := by
  cases hs : fs.stat link with
  | none => exact absurd hs h.stat
  | some statbuf =>
      cases hl : fs.lstat link with
      | none => exact absurd hl h.lstat
      | some lstatbuf => exact ⟨_, by rw [File.ofPath, hs, hl], rfl⟩

/-- A loop that goes on with the name that erasing leaves of a text that fits the buffer,
and is stopped by one that does not, records just this name. -/
theorem records_iff {β : Type} {loop : List β → Process → Except Fault Process} {x : β}
    {A : Process → Prop} {p : Process} {f : File} {text name : Str}
    (hf : f.name = linkName text) (hp : A p) (hnil : ∀ q, loop [] q = .ok q)
    (hstep : text.length < bufferSize → ∀ rest q, A q → loop (x :: rest) q = loop rest { q with
      fileList := q.fileList ++ [f]
      hash := q.hash ++ [linkName text] })
    (hstop : ¬ text.length < bufferSize → loop [x] p = .error .overrun) :
    (∀ q, A q → ∃ g : File, g.name = name ∧ ∀ rest,
      loop (x :: rest) q = loop rest { q with
        fileList := q.fileList ++ [g]
        hash := q.hash ++ [name] }) ↔ text.length < bufferSize ∧ linkName text = name := by
  constructor
  · intro hrecords
    obtain ⟨g, -, hloop⟩ := hrecords p hp
    have hend := hloop []
    rw [hnil] at hend
    by_cases hlen : text.length < bufferSize
    · rw [hstep hlen _ _ hp, hnil] at hend
      refine ⟨hlen, ?_⟩
      have hhash := congrArg Process.hash (Except.ok.inj hend)
      exact List.singleton_inj.1 (List.append_cancel_left hhash)
    · rw [hstop hlen] at hend
      cases hend
  · rintro ⟨hlen, rfl⟩ q hq
    exact ⟨f, hf, fun rest => hstep hlen rest q hq⟩

/-- The name is what erasing leaves of a text that fits the buffer. -/
theorem specialRecords_iff {tar : Str × Str} {text name : Str} (h : Followed fs tar.2 text) :
    SpecialRecords fs tar name ↔ text.length < bufferSize ∧ linkName text = name := by
  obtain ⟨f, hf, hname⟩ := h.ofPath tar.1 (linkName text)
  have hrecords : SpecialRecords fs tar name ↔ ∀ p : Process, True → _ :=
    forall_congr' fun _ => (forall_const True).symm
  rw [hrecords]
  refine records_iff (p := fresh []) hname trivial (fun _ => rfl) ?_ fun hlen => ?_
  · intro hlen rest p _
    rw [specialFiles, h.readlink]
    simp only [List.take_of_length_le hlen.le, if_neg hlen.ne, hf]
  · exact specialFiles_cons_of_not_fits fun hfit => hlen (hfit text h.readlink)

theorem fdRecords_iff {dirName n text name : Str} (hn : ¬ (n = ".".toList ∨ n = "..".toList))
    (h : Followed fs (fdLink (procPath dirName) n) text) :
    FdRecords fs dirName n name ↔ text.length < bufferSize ∧ linkName text = name := by
  obtain ⟨f, hf, hname⟩ := h.ofPath n (linkName text)
  refine records_iff (p := fresh dirName) hname rfl (fun _ => rfl) ?_ fun hlen => ?_
  · intro hlen rest p hp
    rw [fileDescriptors, if_neg hn, hp]
    simp only [h.readlink, List.take_of_length_le hlen.le, if_neg hlen.ne, hf]
  · exact fileDescriptors_cons_of_not_fits fun hfit => hlen (hfit hn text h.readlink)

/-! ## When the name is right -/

theorem space_notMem : ' ' ∉ "(deleted)".toList := by decide

/-- All there is of the mark in the name of a file are copies of it at its end. -/
def MarkedAtEnd (path : Str) : Prop :=
  ∃ u k, path = u ++ copies deletedMark k ∧ ¬ deletedMark <:+: u

theorem linkName_marked_iff {path : Str} (hnul : nul ∉ path) :
    linkName (path ++ deletedMark) = path ↔ MarkedAtEnd path := by
  have hmark : nul ∉ path ++ deletedMark := by
    rw [List.mem_append, not_or]
    exact ⟨hnul, by decide⟩
  rw [linkName, cstr_of_notMem hmark]
  exact eraseFirst_append_self_iff space_notMem

theorem linkName_unmarked_iff {text : Str} (hnul : nul ∉ text) :
    linkName text = text ↔ ¬ deletedMark <:+: text := by
  rw [linkName, cstr_of_notMem hnul]
  exact eraseFirst_eq_self_iff (by decide)

/-- **When the name of a file is recovered.**  For a link whose text is a path name with
the mark of a removed file, both loops record the path name exactly when the text leaves
room for a terminator and all there is of the mark in the path name are copies of it at its
end; and for a link whose text does not end in the mark they record the text exactly when it
leaves room and nothing in it looks like the mark. -/
theorem name_recovered_iff {path : Str} (hnul : nul ∉ path) :
    (∀ tar : Str × Str, Followed fs tar.2 (path ++ deletedMark) →
      (SpecialRecords fs tar path ↔
        (path ++ deletedMark).length < bufferSize ∧ MarkedAtEnd path)) ∧
    (∀ dirName n : Str, ¬ (n = ".".toList ∨ n = "..".toList) →
      Followed fs (fdLink (procPath dirName) n) (path ++ deletedMark) →
      (FdRecords fs dirName n path ↔
        (path ++ deletedMark).length < bufferSize ∧ MarkedAtEnd path)) ∧
    (¬ deletedMark <:+ path →
      (∀ tar : Str × Str, Followed fs tar.2 path →
        (SpecialRecords fs tar path ↔ path.length < bufferSize ∧ ¬ deletedMark <:+: path)) ∧
      ∀ dirName n : Str, ¬ (n = ".".toList ∨ n = "..".toList) →
        Followed fs (fdLink (procPath dirName) n) path →
        (FdRecords fs dirName n path ↔ path.length < bufferSize ∧ ¬ deletedMark <:+: path)) := by
  refine ⟨fun tar h => ?_, fun dirName n hn h => ?_, fun _ =>
    ⟨fun tar h => ?_, fun dirName n hn h => ?_⟩⟩
  · rw [specialRecords_iff h, linkName_marked_iff hnul]
  · rw [fdRecords_iff hn h, linkName_marked_iff hnul]
  · rw [specialRecords_iff h, linkName_unmarked_iff hnul]
  · rw [fdRecords_iff hn h, linkName_unmarked_iff hnul]

/-! ## A sample -/

/-- A process all of whose links have one text. -/
def linkProc (text : Str) : ProcFs where
  openFile _ := none
  read _ := none
  stat _ := some ⟨0o100644, 7, 0⟩
  lstat _ := some ⟨0o120700, 8, 0⟩
  readlink _ := .ok text
  fopen _ := .error 2
  opendir _ := .error 2

theorem followed_linkProc (text link : Str) : Followed (linkProc text) link text :=
  ⟨rfl, by simp [linkProc], by simp [linkProc]⟩

/-- The usual names are recovered: nothing in them looks like the mark. -/
theorem usual_name_recovered :
    SpecialRecords (linkProc ("/tmp/a (b)".toList ++ deletedMark))
      ("txt".toList, "/proc/7/exe".toList) "/tmp/a (b)".toList := by
  obtain ⟨hspecial, -, -⟩ := @name_recovered_iff
    (linkProc ("/tmp/a (b)".toList ++ deletedMark)) "/tmp/a (b)".toList (by decide)
  refine (hspecial _ (followed_linkProc _ _)).2 ⟨by decide, "/tmp/a (b)".toList, 0, rfl, ?_⟩
  rw [← findSub_eq_none_iff]
  decide

/-- A file that is there, and has the mark inside its name. -/
def oddName : Str := "/tmp/a (deleted) b".toList

/-- Its name is not recovered. -/
theorem odd_name_lost :
    ¬ deletedMark <:+ oddName ∧
      ¬ SpecialRecords (linkProc oddName) ("txt".toList, "/proc/7/exe".toList) oddName := by
  refine ⟨by decide, ?_⟩
  rw [specialRecords_iff (followed_linkProc _ _)]
  rintro ⟨-, h⟩
  revert h
  decide

end Lsof
