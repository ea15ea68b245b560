import UnixProgramming.Machine.ByteMemory
import UnixProgramming.Text.CString

/-!
# Reading program files and memory maps

`elf64_parser` and `maps_parser` of `hw4/parser.hpp`.  A local variable starts
out uninitialised: its bytes are `none` until something is read into them, and
a decision on such a byte, a store or a read outside the object it belongs to,
stops the program with a `ParserFault`.

* `elf64Parser` — the entry point and the range of `.text` of a program file.
* `mapsParser` — the mappings of a process with a name, keyed by their range.
-/

namespace Sdb

open ByteMemory CString

/-- What stops a parser other than its own return. -/
inductive ParserFault where
  /-- A value was used that nothing had been stored into. -/
  | uninitialised
  /-- A store past the end of its destination. -/
  | overflow
  /-- A read past the end of its object. -/
  | overread
  deriving DecidableEq

/-! ## Buffers and streams -/

/-- A local object: bytes that may not have been stored yet. -/
abbrev Buffer := List (Option Byte)

/-- An object nothing has been stored into. -/
def Buffer.fresh (size : Nat) : Buffer := List.replicate size none

/-- The byte at an index. -/
def Buffer.byteAt (buf : Buffer) (i : Nat) : Except ParserFault Byte :=
  match buf[i]? with
  | none => .error .overread
  | some none => .error .uninitialised
  | some (some b) => .ok b

/-- The little-endian number in the `len` bytes at `off`. -/
def Buffer.field (buf : Buffer) (off : Nat) : Nat → Except ParserFault Nat
  | 0 => .ok 0
  | len + 1 => do
      let b ← buf.byteAt off
      let rest ← buf.field (off + 1) len
      return b.toNat + 256 * rest

/-- `memcmp(buf, pat, n) == 0`, up to the first difference. -/
def Buffer.matchesAt (buf : Buffer) (i : Nat) : List Byte → Except ParserFault Bool
  | [] => .ok true
  | p :: ps => do
      let b ← buf.byteAt i
      if b = p then buf.matchesAt (i + 1) ps else return false

/-- `strcmp(buf + i, text) == 0`: the terminating NUL is compared as well. -/
def Buffer.strcmpAt (buf : Buffer) (i : Nat) (text : List Byte) : Except ParserFault Bool :=
  buf.matchesAt i (text ++ [0])

/-- An open file: its bytes and the position of the next read. -/
structure Stream where
  bytes : List Byte
  pos : Nat

/-- `fseek(fp, off, SEEK_SET)`; the offset is a `long`, and a negative one is refused. -/
def Stream.seek (f : Stream) (off : Word) : Stream :=
  if off.toInt < 0 then f else { f with pos := off.toNat }

/-- `fread` of `n` bytes into an object: what the file still has is stored. -/
def Stream.read (f : Stream) (n : Nat) (buf : Buffer) : Except ParserFault (Buffer × Stream) :=
  let got := (f.bytes.drop f.pos).take n
  if buf.length < got.length then .error .overflow
  else .ok (got.map some ++ buf.drop got.length, { f with pos := f.pos + got.length })

/-! ## The ELF header -/

/-- `ELFMAG`. -/
def elfmag : List Byte := [0x7f, 0x45, 0x4c, 0x46]

/-- `".text"`. -/
def textName : List Byte := [0x2e, 0x74, 0x65, 0x78, 0x74]

/-- `sizeof(Elf64_Ehdr)` and `sizeof(Elf64_Shdr)`. -/
def headerSize : Nat := 64

/-- The product of two `uint16_t`: an `int`, widened when it is added to an offset. -/
def intMul (a b : Nat) : Word := (BitVec.ofNat 32 (a * b)).signExtend 64

/-- The bytes there are of `char a[size]`.  The stack pointer is moved by the size,
rounded up to 16 in a register; moved by more than half the address space it ends on the
other side, on what is in use. -/
def arrayRoom (size : Nat) : Nat :=
  let moved : Word := (BitVec.ofNat 64 size + 15) / 16 * 16
  if 2 ^ 63 < moved.toNat then 0 else min size moved.toNat

/-- What `elf64_parser` stores through its references. -/
structure ElfText where
  entryPoint : Word
  textBegin : Word
  textEnd : Word
  deriving DecidableEq

/-- The loop over the section headers: `n` headers are left, the next has index
`i`, and `text` holds what the references held before. -/
def elfSections (eShoff : Word) (eShentsize : Nat) (shstr : Buffer) (text : ElfText) :
    Nat → Nat → Stream → Except ParserFault ElfText
  | 0, _, _ => .ok text
  | n + 1, i, f => do
      let f := f.seek (eShoff + intMul i eShentsize)
      let (curEntry, f) ← f.read eShentsize (.fresh headerSize)
      let shName ← curEntry.field 0 4
      if ← shstr.strcmpAt shName textName then
        let shAddr ← curEntry.field 16 8
        let shSize ← curEntry.field 32 8
        return { text with
          textBegin := BitVec.ofNat 64 shAddr
          textEnd := BitVec.ofNat 64 shAddr + BitVec.ofNat 64 shSize - 1 }
      else elfSections eShoff eShentsize shstr text n (i + 1) f

/-- `elf64_parser` on the bytes of an opened file, `text` being what the
references hold before; `none` when it returns -1. -/
def elf64Parser (file : List Byte) (text : ElfText) : Except ParserFault (Option ElfText) := do
  let f : Stream := ⟨file, 0⟩
  let (elfHeader, f) ← f.read headerSize (.fresh headerSize)
  if !(← elfHeader.matchesAt 0 elfmag) then return none
  else
    let eEntry ← elfHeader.field 24 8
    let eShoff ← elfHeader.field 40 8
    let eShentsize ← elfHeader.field 58 2
    let eShnum ← elfHeader.field 60 2
    let eShstrndx ← elfHeader.field 62 2
    let shoff := BitVec.ofNat 64 eShoff
    -- the first section header is read and not used
    let f := f.seek shoff
    let (_, f) ← f.read headerSize (.fresh headerSize)
    let f := f.seek (shoff + intMul eShstrndx eShentsize)
    let (shstrEntry, f) ← f.read headerSize (.fresh headerSize)
    let shOffset ← shstrEntry.field 24 8
    let shSize ← shstrEntry.field 32 8
    let f := f.seek (BitVec.ofNat 64 shOffset)
    let (shstrSection, f) ← f.read shSize (.fresh (arrayRoom shSize))
    let text ← elfSections shoff eShentsize shstrSection
      { text with entryPoint := BitVec.ofNat 64 eEntry } eShnum 0 f
    return some text

/-! ## Memory maps -/

/-- `range_t`. -/
structure Range where
  beginAddr : Word
  endAddr : Word
  deriving DecidableEq

/-- `operator<(range_t, range_t)`. -/
def Range.lt (r₁ r₂ : Range) : Bool :=
  decide (r₁.beginAddr < r₂.beginAddr ∧ r₁.endAddr < r₂.endAddr)

/-- `map_entry_t`. -/
structure MapEntry where
  range : Range
  perm : Str
  offset : Int
  name : Str
  deriving DecidableEq

/-- `loaded[m.range] = m` on a `map` kept in the order of `operator<`. -/
def insertMapping (m : MapEntry) : List MapEntry → List MapEntry
  | [] => [m]
  | x :: rest =>
      if x.range.lt m.range then x :: insertMapping m rest
      else if m.range.lt x.range then m :: x :: rest
      else m :: rest

/-- The delimiters of `maps_parser`. -/
def mapsDelimiter (c : Char) : Bool := decide (c = ' ' ∨ c = '\t' ∨ c = '\n' ∨ c = '\r')

/-- One line: nothing to store when it has fewer than six words.  The kernel
prints four characters of permissions; cutting a shorter field would store into
the next one. -/
def mapsLine (buf : Str) : Except ParserFault (Option MapEntry) :=
  match words mapsDelimiter (cstr buf) with
  | arg₀ :: arg₁ :: arg₂ :: _ :: _ :: arg₅ :: _ =>
      if arg₁.length < 3 then .error .overflow
      else if '-' ∈ arg₀ then
        .ok (some
          { range :=
              { beginAddr := strtoul (arg₀.takeWhile (· ≠ '-')) 16
                endAddr := strtoul ((arg₀.dropWhile (· ≠ '-')).drop 1) 16 }
            perm := arg₁.take 3
            offset := strtol arg₂ 16
            name := arg₅ })
      else .error .uninitialised
  | _ => .ok none

/-- The loop of `maps_parser` over the pieces `fgets` yields: the mappings it
prints, in order, and the map it fills. -/
def mapsLines : List Str → List MapEntry → Except ParserFault (List MapEntry × List MapEntry)
  | [], loaded => .ok ([], loaded)
  | buf :: rest, loaded => do
      match ← mapsLine buf with
      | none => mapsLines rest loaded
      | some m =>
          let (printed, loaded) ← mapsLines rest (insertMapping m loaded)
          return (m :: printed, loaded)

/-- `maps_parser` on the contents of `/proc/[pid]/maps`. -/
def mapsParser (maps : Str) : Except ParserFault (List MapEntry × List MapEntry) :=
  mapsLines (fgetsPieces 256 maps) []

end Sdb
