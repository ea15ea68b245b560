import UnixProgramming.Sdb.ElfParser

/-!
# Well-formed program files

What a well-formed ELF64 file says about its sections, in terms of the file's
bytes alone, and that the parser finds it.

* `Elf.WellFormed` — the file format, as far as the parser depends on it.
* `key_prefix_iff` — comparing with a name and its NUL is comparing names, also
  where names share their ends.
* `Elf.WellFormed.entry_eq` — the parser reads each section header where it is.
* `elf64Parser_wellFormed`, `elf64Parser_bad_magic` — what it returns.
-/

namespace Sdb

open ByteMemory

/-! ## The format -/

namespace Elf

variable (file : List Byte)

/-- A field of the header of section `i`. -/
def sectionField (i off len : Nat) : Nat := numAt file (numAt file 40 8 + 64 * i + off) len

/-- The table of section names. -/
def nameTable : List Byte :=
  obtained file (sectionField file (numAt file 62 2) 24 8) (sectionField file (numAt file 62 2) 32 8)

/-- The table from the name of section `i` on. -/
def nameTail (i : Nat) : List Byte := (nameTable file).drop (sectionField file i 0 4)

/-- The name of section `i`, up to its NUL. -/
def sectionName (i : Nat) : List Byte := (nameTail file i).takeWhile (· ≠ 0)

/-- A little-endian ELF64 file: the magic is there, section headers have 64
bytes and there are fewer than `SHN_LORESERVE` of them, they and the table of
names lie in the file, and every name ends inside the table. -/
structure WellFormed : Prop where
  magic : elfmag <+: file
  header : headerSize ≤ file.length
  length : file.length < 2 ^ 63
  shentsize : numAt file 58 2 = 64
  shnum : numAt file 60 2 < 0xff00
  shstrndx : numAt file 62 2 < numAt file 60 2
  sections : numAt file 40 8 + 64 * numAt file 60 2 ≤ file.length
  table : sectionField file (numAt file 62 2) 24 8 + sectionField file (numAt file 62 2) 32 8 ≤
    file.length
  terminated : ∀ i, i < numAt file 60 2 → 0 ∈ nameTail file i

end Elf

/-! ## Bytes -/

section Bytes

/-- A field of bytes that were obtained is a field of the file. -/
theorem numAt_obtained (file : List Byte) (pos n : Nat) {off len : Nat} (h : off + len ≤ n) :
    numAt (obtained file pos n) off len = numAt file (pos + off) len := by
  rw [numAt, numAt, obtained, obtained, obtained, List.drop_take, List.take_take, List.drop_drop,
    Nat.min_eq_left (by omega)]

/-- An offset inside a file is not refused. -/
theorem seekTo_ofNat (pos : Nat) {k : Nat} (h : k < 2 ^ 63) : seekTo pos (BitVec.ofNat 64 k) = k := by
  have hnat : (BitVec.ofNat 64 k).toNat = k := by
    rw [BitVec.toNat_ofNat]
    exact Nat.mod_eq_of_lt (by omega)
  have hint : ¬ (BitVec.ofNat 64 k).toInt < 0 := by
    rw [BitVec.toInt_eq_toNat_of_lt (by omega), hnat]
    omega
  rw [seekTo, if_neg hint, hnat]

/-- A product of small numbers is not negative. -/
theorem intMul_eq {a b : Nat} (h : a * b < 2 ^ 31) : intMul a b = BitVec.ofNat 64 (a * b) := by
  have hmsb : (BitVec.ofNat 32 (a * b)).msb = false := by
    rw [BitVec.msb_eq_false_iff_two_mul_lt, BitVec.toNat_ofNat, Nat.mod_eq_of_lt (by omega)]
    omega
  rw [intMul, BitVec.signExtend_eq_setWidth_of_msb_false hmsb]
  apply BitVec.eq_of_toNat_eq
  rw [BitVec.toNat_setWidth, BitVec.toNat_ofNat, BitVec.toNat_ofNat,
    Nat.mod_eq_of_lt (by omega : a * b < 2 ^ 32)]

/-- An array of at most half the address space is not short of room, and a larger one has
none. -/
theorem arrayRoom_eq {size : Nat} (h : size < 2 ^ 64) :
    arrayRoom size = if size ≤ 2 ^ 63 then size else 0 := by
  have hmoved : ((BitVec.ofNat 64 size + 15) / 16 * 16 : Word).toNat =
      (size + 15) % 2 ^ 64 / 16 * 16 := by
    rw [BitVec.toNat_mul, BitVec.toNat_udiv, BitVec.toNat_add, BitVec.toNat_ofNat]
    show ((size % 2 ^ 64 + 15) % 2 ^ 64) / 16 * 16 % 2 ^ 64 = _
    omega
  simp only [arrayRoom, hmoved]
  by_cases hhalf : size ≤ 2 ^ 63
  · rw [if_neg (by omega), if_pos hhalf, Nat.min_eq_left (by omega)]
  · rw [if_neg hhalf]
    split
    · rfl
    · -- the size wraps around where it is rounded up
      rw [Nat.min_eq_right (by omega)]
      omega

variable {pat l : List Byte}

theorem exists_dropWhile (h0 : 0 ∈ l) :
    ∃ rest, l.dropWhile (fun b : Byte => decide (b ≠ 0)) = 0 :: rest := by
  induction l with
  | nil => cases h0
  | cons b l ih =>
      by_cases hb : b = 0
      · exact ⟨l, by simp [hb]⟩
      · obtain ⟨rest, hrest⟩ := ih ((List.mem_cons.1 h0).resolve_left (Ne.symm hb))
        exact ⟨rest, by rw [List.dropWhile_cons_of_pos (by simpa using hb), hrest]⟩

/-- A name that is followed by its NUL is the bytes before the first NUL. -/
theorem key_prefix_iff (hpat : ∀ b ∈ pat, b ≠ 0) (h0 : 0 ∈ l) :
    pat ++ [0] <+: l ↔ l.takeWhile (· ≠ 0) = pat := by
  constructor
  · rintro ⟨rest, rfl⟩
    rw [List.append_assoc, List.takeWhile_append_of_pos (by simpa using hpat)]
    simp
  · intro hname
    have hsplit := List.takeWhile_append_dropWhile (p := fun b : Byte => decide (b ≠ 0)) (l := l)
    obtain ⟨rest, hrest⟩ := exists_dropWhile h0
    refine ⟨rest, ?_⟩
    rw [← hname, List.append_assoc, List.singleton_append, ← hrest]
    exact hsplit

/-- A table that ends inside a name and its NUL does not hold a NUL. -/
theorem eq_key_of_prefix (hpat : ∀ b ∈ pat, b ≠ 0) (h0 : 0 ∈ l) (h : l <+: pat ++ [0]) :
    l = pat ++ [0] := by
  rcases List.prefix_concat_iff.1 h with heq | hpre
  · exact heq
  · exact absurd rfl (hpat 0 (hpre.subset h0))

end Bytes

/-! ## What is read of a well-formed file -/

namespace Elf

theorem headerField (file : List Byte) {off len : Nat} (hle : off + len ≤ 64) :
    numAt (header file) off len = numAt file off len := by
  rw [header, numAt_obtained file 0 headerSize hle, Nat.zero_add]

theorem eShnum_eq (file : List Byte) : eShnum file = numAt file 60 2 :=
  headerField file (by norm_num)

theorem eShstrndx_eq (file : List Byte) : eShstrndx file = numAt file 62 2 :=
  headerField file (by norm_num)

theorem eShoff_eq (file : List Byte) : eShoff file = numAt file 40 8 :=
  headerField file (by norm_num)

variable {file : List Byte} (h : WellFormed file)
include h

namespace WellFormed

theorem eShentsize_eq : eShentsize file = 64 := by
  rw [eShentsize, headerField file (by norm_num), h.shentsize]

/-- The seek to a section header stands where it is. -/
theorem seek_section (pos : Nat) {i : Nat} (hi : i < numAt file 60 2) :
    seekTo pos (sectionOffset file i) = numAt file 40 8 + 64 * i := by
  have hnum := h.shnum
  have hlen := h.length
  have hin := h.sections
  rw [sectionOffset, eShoff_eq, h.eShentsize_eq, intMul_eq (by omega), ← BitVec.ofNat_add,
    Nat.mul_comm i 64, seekTo_ofNat pos (by omega)]

/-- A section header is obtained as a whole. -/
theorem length_section {i : Nat} (hi : i < numAt file 60 2) :
    (obtained file (numAt file 40 8 + 64 * i) 64).length = 64 := by
  have hin := h.sections
  rw [length_obtained]
  omega

theorem strPos_eq : strPos file = numAt file 40 8 + 64 * numAt file 62 2 := by
  rw [strPos, eShstrndx_eq, h.seek_section _ h.shstrndx]

theorem strField {off len : Nat} (hle : off + len ≤ 64) :
    numAt (strHeader file) off len = sectionField file (numAt file 62 2) off len := by
  rw [strHeader, h.strPos_eq, numAt_obtained file _ headerSize hle]
  rfl

/-- The names obtained are the whole table. -/
theorem names_eq : names file = nameTable file := by
  have hlen := h.length
  have hin := h.table
  rw [names, namesPos, namesSize, h.strField (by norm_num), h.strField (by norm_num),
    seekTo_ofNat _ (by omega)]
  rfl

/-- The table fits the array it is read into. -/
theorem names_fit : (names file).length ≤ arrayRoom (namesSize file) := by
  have hlen := h.length
  have hin := h.table
  have hsize : namesSize file ≤ 2 ^ 63 := by
    rw [namesSize, h.strField (by norm_num)]
    omega
  rw [arrayRoom_eq (by omega), if_pos hsize, names, length_obtained]
  exact Nat.min_le_left _ _

theorem entryPos_eq {i : Nat} (hi : i < numAt file 60 2) :
    entryPos file i = numAt file 40 8 + 64 * i := by
  cases i with
  | zero => exact h.seek_section _ hi
  | succ i => exact h.seek_section _ hi

/-- Each section header is read where it is. -/
theorem entry_eq {i : Nat} (hi : i < numAt file 60 2) :
    entry file i = obtained file (numAt file 40 8 + 64 * i) 64 := by
  rw [entry, h.entryPos_eq hi, h.eShentsize_eq]

theorem entryField {i off len : Nat} (hi : i < numAt file 60 2) (hle : off + len ≤ 64) :
    numAt (entry file i) off len = sectionField file i off len := by
  rw [h.entry_eq hi, numAt_obtained file _ 64 hle]
  rfl

theorem nameFrom_eq {i : Nat} (hi : i < numAt file 60 2) : nameFrom file i = nameTail file i := by
  rw [nameFrom, nameTail, h.names_eq, h.entryField hi (by norm_num)]

/-- The comparison finds the sections named `.text`. -/
theorem isText_iff {i : Nat} (hi : i < numAt file 60 2) :
    IsText file i ↔ sectionName file i = textName := by
  rw [IsText, textKey, h.nameFrom_eq hi]
  exact key_prefix_iff (by decide) (h.terminated i hi)

/-- Every section header is read safely. -/
theorem entryOk {i : Nat} (hi : i < numAt file 60 2) : EntryOk file i := by
  have hlen : (entry file i).length = 64 := by rw [h.entry_eq hi, h.length_section hi]
  refine ⟨by rw [hlen]; rfl, by omega, ?_, fun _ => by omega⟩
  by_cases hpre : nameFrom file i <+: textKey
  · refine Or.inl ?_
    rw [h.nameFrom_eq hi] at hpre
    have heq := eq_key_of_prefix (by decide) (h.terminated i hi) hpre
    rw [IsText, h.nameFrom_eq hi, heq]
    exact List.prefix_refl _
  · exact Or.inr hpre

theorem strHeader_length : (strHeader file).length = 64 := by
  rw [strHeader, h.strPos_eq]
  exact h.length_section h.shstrndx

end WellFormed

end Elf

/-! ## The lookup -/

section Lookup

open Elf

variable {file : List Byte}

/-- A well-formed file is read safely, and the parser returns what it finds. -/
theorem WellFormed.parse (h : WellFormed file) (text : ElfText) :
    elf64Parser file text =
      .ok (some (found file { text with entryPoint := BitVec.ofNat 64 (numAt file 24 8) }
        (textSection file 0 (numAt file 60 2)))) := by
  refine elf64Parser_eq_ok_iff.2 (Or.inr ⟨h.magic, h.header, ?_, h.names_fit, ?_, ?_⟩)
  · rw [h.strHeader_length]
    norm_num
  · rw [eShnum_eq]
    intro j _ hj _
    exact h.entryOk (by omega)
  · rw [eShnum_eq, eEntry, headerField file (by norm_num)]

/-- In a well-formed file the parser finds the entry point and the range of the
first section named `.text`; without such a section the range stays as it was. -/
theorem elf64Parser_wellFormed (h : WellFormed file) (text : ElfText) :
    ∃ r, elf64Parser file text = .ok (some r) ∧
      r.entryPoint = BitVec.ofNat 64 (numAt file 24 8) ∧
      (∀ i, i < numAt file 60 2 → sectionName file i = textName →
        (∀ j, j < i → sectionName file j ≠ textName) →
          r.textBegin = BitVec.ofNat 64 (sectionField file i 16 8) ∧
          r.textEnd = BitVec.ofNat 64 (sectionField file i 16 8) +
            BitVec.ofNat 64 (sectionField file i 32 8) - 1) ∧
      ((∀ i, i < numAt file 60 2 → sectionName file i ≠ textName) →
        r.textBegin = text.textBegin ∧ r.textEnd = text.textEnd) := by
  refine ⟨_, WellFormed.parse h text, ?_, fun i hi hname hfirst => ?_, fun hno => ?_⟩
  · cases textSection file 0 (numAt file 60 2) with
    | none => rfl
    | some i => rfl
  · have hfind : textSection file 0 (numAt file 60 2) = some i := by
      rw [textSection, List.find?_range'_eq_some]
      refine ⟨by simpa using (h.isText_iff hi).2 hname, by simpa using hi, fun j _ hj => ?_⟩
      have hno := (h.isText_iff (hj.trans hi)).not.2 (hfirst j hj)
      simpa using hno
    rw [hfind]
    simp only [found, h.entryField hi (by norm_num : 16 + 8 ≤ 64),
      h.entryField hi (by norm_num : 32 + 8 ≤ 64), and_self]
  · have hfind : textSection file 0 (numAt file 60 2) = none := by
      rw [textSection, List.find?_range'_eq_none]
      intro i _ hi
      have hi : i < numAt file 60 2 := by omega
      simpa using (h.isText_iff hi).not.2 (hno i hi)
    rw [hfind]
    exact ⟨rfl, rfl⟩

/-- A file in which one of the first four bytes is not that of the magic is
refused, and nothing is stored. -/
theorem elf64Parser_bad_magic (text : ElfText) (h : ¬ file.take 4 <+: elfmag) :
    elf64Parser file text = .ok none :=
  elf64Parser_eq_ok_iff.2 (Or.inl ⟨h, rfl⟩)

/-- What the parser returns for a well-formed file, and for a file in which one
of the first four bytes is not that of the magic. -/
theorem elf64Parser_lookup (file : List Byte) (text : ElfText) :
    (WellFormed file → ∃ r, elf64Parser file text = .ok (some r) ∧
      r.entryPoint = BitVec.ofNat 64 (numAt file 24 8) ∧
      (∀ i, i < numAt file 60 2 → sectionName file i = textName →
        (∀ j, j < i → sectionName file j ≠ textName) →
          r.textBegin = BitVec.ofNat 64 (sectionField file i 16 8) ∧
          r.textEnd = BitVec.ofNat 64 (sectionField file i 16 8) +
            BitVec.ofNat 64 (sectionField file i 32 8) - 1) ∧
      ((∀ i, i < numAt file 60 2 → sectionName file i ≠ textName) →
        r.textBegin = text.textBegin ∧ r.textEnd = text.textEnd)) ∧
      (¬ file.take 4 <+: elfmag → elf64Parser file text = .ok none) :=
  ⟨fun h => elf64Parser_wellFormed h text, fun h => elf64Parser_bad_magic text h⟩

end Lookup

/-! ## The smallest program -/

theorem Sample.image_wellFormed : Elf.WellFormed (Sample.image 64 0) := by
  have hlength : (Sample.image 64 0).length = 136 := rfl
  have hshoff : numAt (Sample.image 64 0) 40 8 = 64 := rfl
  have hshnum : numAt (Sample.image 64 0) 60 2 = 1 := rfl
  have hshstrndx : numAt (Sample.image 64 0) 62 2 = 0 := rfl
  refine ⟨by decide, ?_, ?_, rfl, ?_, ?_, ?_, ?_, fun i hi => ?_⟩
  · rw [hlength]
    decide
  · rw [hlength]
    norm_num
  · rw [hshnum]
    norm_num
  · rw [hshstrndx, hshnum]
    norm_num
  · rw [hshoff, hshnum, hlength]
    norm_num
  · have hoffset : Elf.sectionField (Sample.image 64 0) 0 24 8 = 128 := rfl
    have hsize : Elf.sectionField (Sample.image 64 0) 0 32 8 = 8 := rfl
    rw [hshstrndx, hoffset, hsize, hlength]
  · obtain rfl : i = 0 := by omega
    have htail : Elf.nameTail (Sample.image 64 0) 0 = textName ++ [0, 0, 0] := rfl
    rw [htail]
    decide

theorem elf64Parser_lookup_image :
    (∃ r, elf64Parser (Sample.image 64 0) Sample.unset = .ok (some r) ∧
      r.entryPoint = BitVec.ofNat 64 (numAt (Sample.image 64 0) 24 8) ∧
      (∀ i, i < numAt (Sample.image 64 0) 60 2 →
        Elf.sectionName (Sample.image 64 0) i = textName →
        (∀ j, j < i → Elf.sectionName (Sample.image 64 0) j ≠ textName) →
          r.textBegin = BitVec.ofNat 64 (Elf.sectionField (Sample.image 64 0) i 16 8) ∧
          r.textEnd = BitVec.ofNat 64 (Elf.sectionField (Sample.image 64 0) i 16 8) +
            BitVec.ofNat 64 (Elf.sectionField (Sample.image 64 0) i 32 8) - 1) ∧
      ((∀ i, i < numAt (Sample.image 64 0) 60 2 →
        Elf.sectionName (Sample.image 64 0) i ≠ textName) →
        r.textBegin = Sample.unset.textBegin ∧ r.textEnd = Sample.unset.textEnd)) ∧
      elf64Parser [0x23, 0x21, 0x2f, 0x62] Sample.unset = .ok none :=
  ⟨(elf64Parser_lookup (Sample.image 64 0) Sample.unset).1 Sample.image_wellFormed,
    (elf64Parser_lookup [0x23, 0x21, 0x2f, 0x62] Sample.unset).2 (by decide)⟩

end Sdb
