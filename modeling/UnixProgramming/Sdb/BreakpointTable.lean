import UnixProgramming.Machine.ByteMemory

/-!
# The breakpoint table

`breakpoint_table` of `hw4/breakpoint.hpp`: a vector of breakpoints, each the
address it is set at and the eight bytes of code read there when it was set.
Entries are looked up by address (the first with that address) and by index.

* `includeAddr_iff` — `include(addr)` says whether some entry has the address.
* `atAddr_of_includeAddr` — looking such an address up stays inside the vector
  and finds an entry with that address.
* `atAddr_eq_of_nodup` — with distinct addresses it finds *the* entry.
* `mem_addrs_del_of_nodup` — deleting the entry at an index takes its address out.
-/

namespace Sdb

open ByteMemory

/-- `breakpoint_info`: the code at a breakpoint when it was set, and its address. -/
structure BreakpointInfo where
  code : Word
  addr : Word
  deriving DecidableEq

/-- `breakpoint_table`. -/
structure BreakpointTable where
  data : List BreakpointInfo
  deriving DecidableEq

namespace BreakpointTable

/-- `size()`. -/
def size (t : BreakpointTable) : Int := t.data.length

/-- The loop of `dict_addr2idx`, looking for `addr` from the index `i` on. -/
def dictAddr2idxFrom (addr : Word) : List BreakpointInfo → Nat → Int
  | [], _ => -1
  | bp :: rest, i => if bp.addr = addr then (i : Int) else dictAddr2idxFrom addr rest (i + 1)

/-- `dict_addr2idx(addr)`: the first index with that address, or -1. -/
def dictAddr2idx (t : BreakpointTable) (addr : Word) : Int := dictAddr2idxFrom addr t.data 0

/-- `operator[](int)`; `none` where the source indexes outside the vector. -/
def atIdx (t : BreakpointTable) (idx : Int) : Option BreakpointInfo :=
  if idx < 0 then none else t.data[idx.toNat]?

/-- `operator[](unsigned long long)`. -/
def atAddr (t : BreakpointTable) (addr : Word) : Option BreakpointInfo :=
  t.atIdx (t.dictAddr2idx addr)

/-- `add(addr, code)`. -/
def add (t : BreakpointTable) (addr code : Word) : BreakpointTable := ⟨t.data ++ [⟨code, addr⟩]⟩

/-- `del(idx)`, without its message. -/
def del (t : BreakpointTable) (idx : Int) : BreakpointTable := ⟨t.data.eraseIdx idx.toNat⟩

/-- `include(int)`. -/
def includeIdx (t : BreakpointTable) (idx : Int) : Bool := decide (0 ≤ idx ∧ idx < t.data.length)

/-- `include(unsigned long long)`. -/
def includeAddr (t : BreakpointTable) (addr : Word) : Bool := t.includeIdx (t.dictAddr2idx addr)

/-- The addresses in the table, in the order `show` lists them. -/
def addrs (t : BreakpointTable) : List Word := t.data.map BreakpointInfo.addr

@[simp] theorem addrs_add (t : BreakpointTable) (addr code : Word) :
    (t.add addr code).addrs = t.addrs ++ [addr] := by
  simp [addrs, add]

@[simp] theorem data_add (t : BreakpointTable) (addr code : Word) :
    (t.add addr code).data = t.data ++ [⟨code, addr⟩] := rfl

theorem mem_addrs {t : BreakpointTable} {addr : Word} :
    addr ∈ t.addrs ↔ ∃ bp ∈ t.data, bp.addr = addr := by
  simp [addrs]

/-! ## Looking up -/

/-- What the search for an address finds: the first entry with it, or nothing. -/
theorem dictAddr2idxFrom_spec (addr : Word) (l : List BreakpointInfo) (i : Nat) :
    (dictAddr2idxFrom addr l i = -1 ∧ ∀ bp ∈ l, bp.addr ≠ addr) ∨
      ∃ j bp, dictAddr2idxFrom addr l i = ((i + j : Nat) : Int) ∧ l[j]? = some bp ∧
        bp.addr = addr := by
  induction l generalizing i with
  | nil => exact Or.inl ⟨rfl, by simp⟩
  | cons bp rest ih =>
      rw [dictAddr2idxFrom]
      by_cases h : bp.addr = addr
      · exact Or.inr ⟨0, bp, by simp [h], rfl, h⟩
      · rw [if_neg h]
        rcases ih (i + 1) with ⟨hnone, hall⟩ | ⟨j, bp', hj, hget, haddr⟩
        · refine Or.inl ⟨hnone, ?_⟩
          intro b hb
          rcases List.mem_cons.1 hb with rfl | hb
          · exact h
          · exact hall b hb
        · exact Or.inr ⟨j + 1, bp', by rw [hj]; congr 1; omega, by simpa using hget, haddr⟩

theorem dictAddr2idx_spec (t : BreakpointTable) (addr : Word) :
    (t.dictAddr2idx addr = -1 ∧ addr ∉ t.addrs) ∨
      ∃ (j : Nat) (bp : BreakpointInfo), t.dictAddr2idx addr = j ∧ t.data[j]? = some bp ∧
        bp.addr = addr := by
  rcases dictAddr2idxFrom_spec addr t.data 0 with ⟨hnone, hall⟩ | ⟨j, bp, hj, hget, haddr⟩
  · refine Or.inl ⟨hnone, ?_⟩
    rw [mem_addrs]
    rintro ⟨bp, hbp, h⟩
    exact hall bp hbp h
  · exact Or.inr ⟨j, bp, by simpa [dictAddr2idx] using hj, hget, haddr⟩

theorem includeAddr_iff {t : BreakpointTable} {addr : Word} :
    t.includeAddr addr = true ↔ addr ∈ t.addrs := by
  rw [includeAddr]
  rcases t.dictAddr2idx_spec addr with ⟨hidx, hmem⟩ | ⟨j, bp, hidx, hget, haddr⟩
  · simp [includeIdx, hidx, hmem]
  · have hj : j < t.data.length := (List.getElem?_eq_some_iff.1 hget).1
    have hmem : addr ∈ t.addrs := mem_addrs.2 ⟨bp, List.mem_of_getElem? hget, haddr⟩
    simp [includeIdx, hidx, hj, hmem]

theorem includeAddr_eq_false_iff {t : BreakpointTable} {addr : Word} :
    t.includeAddr addr = false ↔ addr ∉ t.addrs := by
  rw [← includeAddr_iff, Bool.not_eq_true]

/-- An address in the table is found inside the vector. -/
theorem atAddr_of_includeAddr {t : BreakpointTable} {addr : Word} (h : t.includeAddr addr = true) :
    ∃ bp ∈ t.data, t.atAddr addr = some bp ∧ bp.addr = addr := by
  rcases t.dictAddr2idx_spec addr with ⟨-, hmem⟩ | ⟨j, bp, hidx, hget, haddr⟩
  · exact absurd (includeAddr_iff.1 h) hmem
  · exact ⟨bp, List.mem_of_getElem? hget, by simp [atAddr, atIdx, hidx, hget], haddr⟩

theorem atAddr_eq_none {t : BreakpointTable} {addr : Word} (h : addr ∉ t.addrs) :
    t.atAddr addr = none := by
  rcases t.dictAddr2idx_spec addr with ⟨hidx, -⟩ | ⟨j, bp, -, hget, haddr⟩
  · simp [atAddr, atIdx, hidx]
  · exact absurd (mem_addrs.2 ⟨bp, List.mem_of_getElem? hget, haddr⟩) h

/-- An index `include(int)` accepts is inside the vector. -/
theorem atIdx_of_includeIdx {t : BreakpointTable} {idx : Int} (h : t.includeIdx idx = true) :
    ∃ (j : Nat) (bp : BreakpointInfo), idx = j ∧ t.data[j]? = some bp ∧ t.atIdx idx = some bp := by
  simp only [includeIdx, decide_eq_true_eq] at h
  obtain ⟨j, rfl⟩ := Int.eq_ofNat_of_zero_le h.1
  have hj : j < t.data.length := by omega
  exact ⟨j, t.data[j], rfl, List.getElem?_eq_getElem hj, by simp [atIdx, hj]⟩

/-! ## Distinct addresses -/

theorem eq_of_mem_of_addr_eq {t : BreakpointTable} (hnd : t.addrs.Nodup) {bp bp' : BreakpointInfo}
    (h : bp ∈ t.data) (h' : bp' ∈ t.data) (haddr : bp.addr = bp'.addr) : bp = bp' :=
  List.inj_on_of_nodup_map hnd h h' haddr

/-- With distinct addresses, looking an entry up by its address finds it. -/
theorem atAddr_eq_of_nodup {t : BreakpointTable} (hnd : t.addrs.Nodup) {bp : BreakpointInfo}
    (h : bp ∈ t.data) : t.atAddr bp.addr = some bp := by
  have hinc : t.includeAddr bp.addr = true := includeAddr_iff.2 (mem_addrs.2 ⟨bp, h, rfl⟩)
  obtain ⟨bp', hmem, hat, haddr⟩ := atAddr_of_includeAddr hinc
  rw [hat, eq_of_mem_of_addr_eq hnd hmem h haddr]

theorem nodup_add {t : BreakpointTable} {addr code : Word} (hnd : t.addrs.Nodup)
    (hnew : addr ∉ t.addrs) : (t.add addr code).addrs.Nodup := by
  rw [addrs_add, List.nodup_append]
  exact ⟨hnd, by simp, by rintro a ha b hb rfl; exact hnew (by simpa using List.mem_singleton.1 hb ▸ ha)⟩

theorem mem_of_mem_del {t : BreakpointTable} {idx : Int} {bp : BreakpointInfo}
    (h : bp ∈ (t.del idx).data) : bp ∈ t.data :=
  (List.eraseIdx_sublist t.data idx.toNat).subset h

theorem addrs_del (t : BreakpointTable) (idx : Int) :
    (t.del idx).addrs = t.addrs.eraseIdx idx.toNat := by
  simp [addrs, del, List.eraseIdx_map]

theorem nodup_del {t : BreakpointTable} (hnd : t.addrs.Nodup) (idx : Int) :
    (t.del idx).addrs.Nodup := by
  rw [addrs_del]
  exact hnd.sublist (List.eraseIdx_sublist _ _)

/-- With distinct addresses, deleting the entry at an index takes exactly its
address out of the table. -/
theorem mem_addrs_del_of_nodup {t : BreakpointTable} (hnd : t.addrs.Nodup) {j : Nat}
    {bp : BreakpointInfo} (hget : t.data[j]? = some bp) {addr : Word} :
    addr ∈ (t.del j).addrs ↔ addr ∈ t.addrs ∧ addr ≠ bp.addr := by
  have hj : t.addrs[j]? = some bp.addr := by simp [addrs, hget]
  obtain ⟨hlt, hval⟩ := List.getElem?_eq_some_iff.1 hj
  rw [addrs_del, Int.toNat_natCast, ← List.Nodup.erase_getElem hnd j hlt, hval,
    hnd.mem_erase_iff, and_comm]

end BreakpointTable

end Sdb
