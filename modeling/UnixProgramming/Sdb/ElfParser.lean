import UnixProgramming.Sdb.ObtainedBytes

/-!
# The section headers of a program file

`elf64_parser` reads a header, the header of the section of names, that section,
and section headers up to the first one named `.text`.  None of the lengths it
gets back from `fread` is looked at, and the fields of the file say where it
reads next, how much, and where in the names it compares.

* `Elf.names`, `Elf.entry` — the bytes it obtains for the section of names and
  for each section header.
* `elf64Parser_eq_ok_iff` — when it returns, and what.
* `elf64Parser_safe_iff` — it looks only at bytes of the file exactly for the
  files of `Elf.Sound`.
-/

namespace Sdb

open ByteMemory

/-! ## What is read -/

namespace Elf

/-- The name that is looked for, with its end. -/
def textKey : List Byte := textName ++ [0]

variable (file : List Byte)

/-- The bytes obtained for the ELF header. -/
def header : List Byte := obtained file 0 headerSize

def eEntry : Nat := numAt (header file) 24 8
def eShoff : Nat := numAt (header file) 40 8
def eShentsize : Nat := numAt (header file) 58 2
def eShnum : Nat := numAt (header file) 60 2
def eShstrndx : Nat := numAt (header file) 62 2

/-- The offset computed for a section header. -/
def sectionOffset (i : Nat) : Word := BitVec.ofNat 64 (eShoff file) + intMul i (eShentsize file)

/-- Where the stream stands after the first section header, which is not used. -/
def unusedEnd : Nat :=
  seekTo (header file).length (BitVec.ofNat 64 (eShoff file)) +
    (obtained file (seekTo (header file).length (BitVec.ofNat 64 (eShoff file))) headerSize).length

/-- Where the header of the section of names is read. -/
def strPos : Nat := seekTo (unusedEnd file) (sectionOffset file (eShstrndx file))

/-- The bytes obtained for it. -/
def strHeader : List Byte := obtained file (strPos file) headerSize

/-- Where the section of names is read. -/
def namesPos : Nat :=
  seekTo (strPos file + (strHeader file).length) (BitVec.ofNat 64 (numAt (strHeader file) 24 8))

/-- The size it has. -/
def namesSize : Nat := numAt (strHeader file) 32 8

/-- The bytes obtained for it. -/
def names : List Byte := obtained file (namesPos file) (namesSize file)

/-- Where a section header is read: a refused seek stays after the one before. -/
def entryPos : Nat → Nat
  | 0 => seekTo (namesPos file + (names file).length) (sectionOffset file 0)
  | i + 1 =>
      seekTo (entryPos i + (obtained file (entryPos i) (eShentsize file)).length)
        (sectionOffset file (i + 1))

/-- The bytes obtained for a section header. -/
def entry (i : Nat) : List Byte := obtained file (entryPos file i) (eShentsize file)

/-- The names from that of a section on. -/
def nameFrom (i : Nat) : List Byte := (names file).drop (numAt (entry file i) 0 4)

/-- A section is named `.text`. -/
def IsText (i : Nat) : Prop := textKey <+: nameFrom file i

instance (i : Nat) : Decidable (IsText file i) := inferInstanceAs (Decidable (_ <+: _))

/-- The first section that is named `.text`. -/
def textSection (first n : Nat) : Option Nat :=
  (List.range' first n).find? fun i => decide (IsText file i)

/-- What is stored when that section is found. -/
def found (text : ElfText) : Option Nat → ElfText
  | none => text
  | some i =>
      { text with
        textBegin := BitVec.ofNat 64 (numAt (entry file i) 16 8)
        textEnd := BitVec.ofNat 64 (numAt (entry file i) 16 8) +
          BitVec.ofNat 64 (numAt (entry file i) 32 8) - 1 }

/-- A section header that is read safely: no more is obtained than the object
holds, its name is there and compared inside the names obtained, and so are its
address and size if it is that of `.text`. -/
structure EntryOk (i : Nat) : Prop where
  fits : (entry file i).length ≤ headerSize
  name : 4 ≤ (entry file i).length
  compared : IsText file i ∨ ¬ nameFrom file i <+: textKey
  range : IsText file i → 40 ≤ (entry file i).length

/-- Every section header up to the first one named `.text` is read safely. -/
def EntriesOk (first n : Nat) : Prop :=
  ∀ j, first ≤ j → j < first + n → (∀ k, first ≤ k → k < j → ¬ IsText file k) → EntryOk file j

end Elf

/-! ## The loop over the sections -/

section Sections

open Elf

variable {file : List Byte} {r : ElfText}

theorem entriesOk_succ {first n : Nat} :
    EntriesOk file first (n + 1) ↔
      EntryOk file first ∧ (¬ IsText file first → EntriesOk file (first + 1) n) := by
  constructor
  · intro h
    refine ⟨h first le_rfl (by omega) fun k hk hk' => by omega, fun hno j hj hjn hbefore => ?_⟩
    refine h j (by omega) (by omega) fun k hk hkj => ?_
    rcases Nat.eq_or_lt_of_le hk with rfl | hk
    · exact hno
    · exact hbefore k hk hkj
  · rintro ⟨hfirst, hrest⟩ j hj hjn hbefore
    rcases Nat.eq_or_lt_of_le hj with rfl | hj
    · exact hfirst
    · exact hrest (hbefore first le_rfl hj) j hj (by omega) fun k hk hkj =>
        hbefore k (by omega) hkj

/-- The loop returns exactly when it reads every header it looks at safely, and
then it has found the first section named `.text`. -/
theorem elfSections_eq_ok_iff (text : ElfText) (size n first pos : Nat)
    (hpos : seekTo pos (sectionOffset file first) = entryPos file first) :
    elfSections (BitVec.ofNat 64 (eShoff file)) (eShentsize file) (stored (names file) size) text
        n first ⟨file, pos⟩ = .ok r ↔
      EntriesOk file first n ∧ r = found file text (textSection file first n) := by
  induction n generalizing first pos with
  | zero =>
      have hno : EntriesOk file first 0 := fun j hj hj' _ => by omega
      simp [elfSections, textSection, found, hno, eq_comm]
  | succ n ih =>
      have hnext := ih (first + 1) (entryPos file first + (entry file first).length) rfl
      rw [elfSections, Stream.seek_mk]
      change (Stream.read ⟨file, seekTo pos (sectionOffset file first)⟩ _ _ >>= _) = _ ↔ _
      rw [hpos, read_bind, entriesOk_succ, textSection, List.range'_succ]
      simp only [Buffer.strcmpAt]
      change (entry file first).length ≤ headerSize ∧
        ((stored (entry file first) headerSize).field 0 4 >>= _) = _ ↔ _
      rw [field_bind (by norm_num), matchesAt_bind]
      by_cases htext : IsText file first
      · -- the section that is looked for
        have hmatch : textName ++ [0] <+: (names file).drop (numAt (entry file first) 0 4) := htext
        rw [List.find?_cons_of_pos (by simpa using htext)]
        simp only [hmatch, true_and, not_true_eq_false, false_and, or_false, if_true]
        rw [field_bind (by norm_num), field_bind (by norm_num)]
        constructor
        · rintro ⟨hfits, hname, -, hrange, heq⟩
          cases heq
          exact ⟨⟨⟨hfits, hname, Or.inl htext, fun _ => hrange⟩, fun hno => absurd htext hno⟩, rfl⟩
        · rintro ⟨⟨hok, -⟩, rfl⟩
          have hrange : 40 ≤ (entry file first).length := hok.range htext
          exact ⟨hok.fits, hok.name, by change 24 ≤ (entry file first).length; omega, hrange, rfl⟩
      · -- the next one
        have hmatch : ¬ textName ++ [0] <+: (names file).drop (numAt (entry file first) 0 4) := htext
        rw [List.find?_cons_of_neg (by simpa using htext)]
        simp only [hmatch, false_and, not_false_eq_true, true_and, false_or, Bool.false_eq_true,
          if_false]
        change _ ∧ _ ∧ _ ∧ elfSections _ _ _ _ n (first + 1)
          ⟨file, entryPos file first + (entry file first).length⟩ = .ok r ↔ _
        rw [hnext]
        constructor
        · rintro ⟨hfits, hname, hcompared, hrest, hr⟩
          refine ⟨⟨⟨hfits, hname, Or.inr hcompared, fun h => absurd h htext⟩, fun _ => hrest⟩, hr⟩
        · rintro ⟨⟨hok, hrest⟩, hr⟩
          exact ⟨hok.fits, hok.name, hok.compared.resolve_left htext, hrest htext, hr⟩

end Sections

/-! ## The parser -/

section Parser

open Elf

variable {file : List Byte} {text : ElfText}

/-- The files of which the parser looks only at bytes it has obtained: a byte
before the end of the magic differs; or the file has its whole header, the
offset and size of the section of names are in the file, the names obtained fit
the array, and every section header up to the first one named `.text` is read
safely. -/
def Elf.Sound (file : List Byte) : Prop :=
  ¬ file.take 4 <+: elfmag ∨
    elfmag <+: file ∧ headerSize ≤ file.length ∧ 40 ≤ (strHeader file).length ∧
      (names file).length ≤ arrayRoom (namesSize file) ∧ EntriesOk file 0 (eShnum file)

theorem elfmag_prefix_header : elfmag <+: header file ↔ elfmag <+: file := by
  rw [header, obtained, List.drop_zero, List.prefix_take_iff]
  exact and_iff_left (by decide)

/-- The comparison with the magic ends at a difference. -/
theorem magic_differs_iff :
    (¬ elfmag <+: header file ∧ ¬ header file <+: elfmag) ↔ ¬ file.take 4 <+: elfmag := by
  have htake : file.take 4 <+: header file := by
    rw [header, obtained, List.drop_zero]
    exact List.take_prefix_take_left (by decide)
  constructor
  · rintro ⟨hno, hno'⟩ hpre
    by_cases hlen : 4 ≤ file.length
    · -- the whole magic is there
      have heq : file.take 4 = elfmag := by
        refine hpre.eq_of_length ?_
        rw [List.length_take, Nat.min_eq_left hlen]
        rfl
      exact hno (heq ▸ htake)
    · have hshort : header file = file.take 4 := by
        rw [header, obtained, List.drop_zero, headerSize, List.take_of_length_le (by omega),
          List.take_of_length_le (by omega)]
      exact hno' (hshort ▸ hpre)
  · intro h
    refine ⟨fun hmag => h ?_, fun hpre => h (htake.trans hpre)⟩
    have heq : file.take 4 = elfmag := by
      obtain ⟨rest, hrest⟩ := elfmag_prefix_header.1 hmag
      rw [← hrest]
      rfl
    rw [heq]

/-- When the parser returns, and what. -/
theorem elf64Parser_eq_ok_iff {r : Option ElfText} :
    elf64Parser file text = .ok r ↔
      (¬ file.take 4 <+: elfmag ∧ r = none) ∨
        (elfmag <+: file ∧ headerSize ≤ file.length ∧ 40 ≤ (strHeader file).length ∧
          (names file).length ≤ arrayRoom (namesSize file) ∧ EntriesOk file 0 (eShnum file) ∧
          r = some (found file { text with entryPoint := BitVec.ofNat 64 (eEntry file) }
            (textSection file 0 (eShnum file)))) := by
  have hheader : (header file).length = min headerSize file.length := by
    rw [header, length_obtained, Nat.sub_zero]
  have hfits : ∀ pos n, (obtained file pos n).length ≤ n := fun pos n => by
    rw [length_obtained]
    exact Nat.min_le_left _ _
  unfold elf64Parser
  rw [read_bind, and_iff_right (hfits _ _)]
  change ((stored (header file) headerSize).matchesAt 0 elfmag >>= _) = _ ↔ _
  rw [matchesAt_bind, List.drop_zero, ← and_assoc, magic_differs_iff, elfmag_prefix_header, or_comm]
  refine or_congr ?_ (and_congr_right fun _ => ?_)
  · simp only [Bool.not_false, if_true]
    exact and_congr_right fun _ => by simp [pure, Except.pure, eq_comm]
  -- the fields of the header
  simp only [Bool.not_true, Bool.false_eq_true, if_false]
  rw [field_bind (by norm_num), field_bind (by norm_num), field_bind (by norm_num),
    field_bind (by norm_num), field_bind (by norm_num), Stream.seek_mk, Nat.zero_add, read_bind,
    and_iff_right (hfits _ _)]
  simp only []
  rw [Stream.seek_mk, read_bind, and_iff_right (hfits _ _)]
  change _ ∧ _ ∧ _ ∧ _ ∧ _ ∧ ((stored (strHeader file) headerSize).field 24 8 >>= _) = _ ↔ _
  rw [field_bind (by norm_num), field_bind (by norm_num)]
  simp only []
  rw [Stream.seek_mk, read_bind, except_bind_eq_ok]
  -- the sections
  have hpos : seekTo (namesPos file + (names file).length) (sectionOffset file 0) =
      entryPos file 0 := rfl
  have hloop := fun r => elfSections_eq_ok_iff (r := r)
    { text with entryPoint := BitVec.ofNat 64 (eEntry file) } (arrayRoom (namesSize file))
    (eShnum file) 0 _ hpos
  constructor
  · rintro ⟨-, -, -, -, h64, -, h40, hroom, a, ha, hr⟩
    have h64 : 64 ≤ (header file).length := h64
    have h40 : 40 ≤ (strHeader file).length := h40
    obtain ⟨hok, rfl⟩ := (hloop a).1 ha
    cases hr
    refine ⟨?_, h40, hroom, hok, rfl⟩
    rw [hheader] at h64
    exact h64.trans (Nat.min_le_right _ _)
  · rintro ⟨hlen, h40, hroom, hok, rfl⟩
    have hall : ∀ k, k ≤ 64 → k ≤ (obtained file 0 headerSize).length := by
      intro k hk
      change k ≤ (header file).length
      rw [hheader, Nat.min_eq_left hlen]
      exact hk
    exact ⟨hall _ (by norm_num), hall _ (by norm_num), hall _ (by norm_num), hall _ (by norm_num),
      hall _ (by norm_num), Nat.le_trans (by norm_num) h40, h40, hroom, _, (hloop _).2 ⟨hok, rfl⟩,
      rfl⟩

end Parser

/-! ## Malformed files -/

namespace Sample

/-- A file with one section, which is both the table of names and `.text`: the
size of its section headers, the index of the section's name and its size. -/
def sized (shentsize shName : Byte) (shSize : Word) : List Byte :=
  elfmag ++ List.replicate 36 0 ++ bytesOf 64 ++ List.replicate 10 0 ++ [shentsize, 0, 1, 0, 0, 0] ++
    [shName, 0, 0, 0] ++ List.replicate 12 0 ++ bytesOf 0x1000 ++ bytesOf 128 ++ bytesOf shSize ++
    List.replicate 24 0 ++ textName ++ [0, 0, 0]

/-- Such a file, whose section has the eight bytes after the headers. -/
def image (shentsize shName : Byte) : List Byte := sized shentsize shName 8

def unset : ElfText := ⟨-1, -1, -1⟩

end Sample

end Sdb
