import UnixProgramming.Machine.OrderedMap
import UnixProgramming.Sdb.Frame

/-!
# The breakpoint table is an ordered map

`breakpoint_table` against a finite map from addresses to code whose keys stand in the
order `show` lists them, over every sequence of calls that adds addresses that are not
there and deletes at indices that are.  Indices are whole numbers here; an `int` holds
them up to `2 ^ 31` entries.

* `History` — the table and the map after a sequence of calls.
* `represents_of_history` — each call keeps the two in step.
* `Refines`, `RemovesEntry` — what the table's functions say about the map.
* `reputLoop_eq` — the loop of `reput_all_breakpoints_from`, index by index.
* `table_refines_map` — the refinement, and no command looks outside the table.
-/

namespace Sdb

open ByteMemory CString Requests

/-- The map a table stands for: addresses in their order, each with the code at it. -/
abbrev BreakpointMap := OrderedMap Word Word

/-! ## Calls -/

/-- The table and the map after a sequence of `add` calls with addresses that are not
there and `del` calls with indices for which `include(int)` holds. -/
inductive History : BreakpointTable → BreakpointMap → Prop where
  | empty : History ⟨[]⟩ .empty
  | add {t : BreakpointTable} {m : BreakpointMap} {addr : Word} : History t m →
      (hnew : addr ∉ m.keys) → (code : Word) → History (t.add addr code) (m.insert addr code hnew)
  | del {t : BreakpointTable} {m : BreakpointMap} {idx : Int} : History t m →
      t.includeIdx idx = true → History (t.del idx) (m.eraseAt idx.toNat)

/-- The entries of the table are those of the map, in its order. -/
structure Represents (t : BreakpointTable) (m : BreakpointMap) : Prop where
  addrs : t.addrs = m.keys
  codes : ∀ bp ∈ t.data, m.value bp.addr = some bp.code

section Represents

variable {t : BreakpointTable} {m : BreakpointMap}

theorem represents_empty : Represents ⟨[]⟩ .empty := ⟨rfl, by simp⟩

theorem represents_add (h : Represents t m) {addr : Word} (hnew : addr ∉ m.keys) (code : Word) :
    Represents (t.add addr code) (m.insert addr code hnew) where
  addrs := by rw [BreakpointTable.addrs_add, h.addrs, OrderedMap.keys_insert]
  codes bp hbp := by
    rw [BreakpointTable.data_add, List.mem_append, List.mem_singleton] at hbp
    rcases hbp with hbp | rfl
    · have hmem : bp.addr ∈ m.keys := h.addrs ▸ BreakpointTable.mem_addrs.2 ⟨bp, hbp, rfl⟩
      have hne : bp.addr ≠ addr := by
        rintro rfl
        exact hnew hmem
      rw [m.value_insert_of_ne code hnew hne]
      exact h.codes bp hbp
    · exact m.value_insert_self code hnew

theorem represents_del (h : Represents t m) (idx : Int) :
    Represents (t.del idx) (m.eraseAt idx.toNat) where
  addrs := by rw [BreakpointTable.addrs_del, h.addrs, OrderedMap.keys_eraseAt]
  codes bp hbp := by
    have hmem : bp.addr ∈ (m.eraseAt idx.toNat).keys := by
      rw [OrderedMap.keys_eraseAt, ← h.addrs, ← BreakpointTable.addrs_del]
      exact BreakpointTable.mem_addrs.2 ⟨bp, hbp, rfl⟩
    rw [m.value_eraseAt _ ((m.mem_eraseAt _).1 hmem).2]
    exact h.codes bp (BreakpointTable.mem_of_mem_del hbp)

/-- Every sequence of calls keeps the table and the map in step. -/
theorem represents_of_history (h : History t m) : Represents t m := by
  induction h with
  | empty => exact represents_empty
  | add _ hnew code ih => exact represents_add ih hnew code
  | del _ _ ih => exact represents_del ih _

end Represents

/-! ## What the functions say -/

theorem mem_showFrom {l : List BreakpointInfo} {i j : Nat} {a : Word} :
    Msg.listed j a ∈ showFrom l i ↔
      ∃ k, j = i + k ∧ (l.map BreakpointInfo.addr)[k]? = some a := by
  induction l generalizing i with
  | nil => simp [showFrom]
  | cons bp l ih =>
      rw [showFrom, List.mem_cons, ih, List.map_cons]
      constructor
      · rintro (heq | ⟨k, rfl, hk⟩)
        · cases heq
          exact ⟨0, rfl, rfl⟩
        · exact ⟨k + 1, by omega, hk⟩
      · rintro ⟨k, rfl, hk⟩
        cases k with
        | zero =>
            cases hk
            exact Or.inl rfl
        | succ k => exact Or.inr ⟨k, by omega, hk⟩

/-- `show` lists an address at its index. -/
theorem shows_iff {t : BreakpointTable} {j : Nat} {a : Word} :
    Msg.listed j a ∈ showFrom t.data 0 ↔ t.addrs[j]? = some a := by
  rw [mem_showFrom]
  constructor
  · rintro ⟨k, rfl, hk⟩
    rw [Nat.zero_add]
    exact hk
  · intro hj
    exact ⟨j, (Nat.zero_add j).symm, hj⟩

/-- Deleting at an index takes out the entry listed there; the others keep their order,
and those above move down by one. -/
structure RemovesEntry (t : BreakpointTable) (idx : Int) (t' : BreakpointTable) : Prop where
  size : t'.size = t.size - 1
  below : ∀ (j : Nat) a, (j : Int) < idx →
    (Msg.listed j a ∈ showFrom t'.data 0 ↔ Msg.listed j a ∈ showFrom t.data 0)
  above : ∀ (j : Nat) a, idx ≤ j →
    (Msg.listed j a ∈ showFrom t'.data 0 ↔ Msg.listed (j + 1) a ∈ showFrom t.data 0)
  included : ∀ a, t'.includeAddr a = true ↔
    t.includeAddr a = true ∧ Msg.listed idx.toNat a ∉ showFrom t.data 0
  index : ∀ a, t'.includeAddr a = true →
    t'.dictAddr2idx a = if t.dictAddr2idx a < idx then t.dictAddr2idx a else t.dictAddr2idx a - 1
  entries : ∀ a, t'.includeAddr a = true → t'.atAddr a = t.atAddr a

/-- What the functions of the table say about the map. -/
structure Refines (t : BreakpointTable) (m : BreakpointMap) : Prop where
  /-- An address is included when it is a key. -/
  includeAddr : ∀ a, t.includeAddr a = true ↔ a ∈ m.keys
  /-- `show` lists the keys in their order. -/
  shown : ∀ (j : Nat) a, Msg.listed j a ∈ showFrom t.data 0 ↔ m.keys[j]? = some a
  /-- The index found for an address is the only one it is listed at. -/
  index : ∀ a ∈ m.keys, ∃ j : Nat, t.dictAddr2idx a = j ∧
    ∀ j' : Nat, Msg.listed j' a ∈ showFrom t.data 0 ↔ j' = j
  /-- Both lookups yield the entry with the code last added. -/
  entry : ∀ a code, m.value a = some code →
    t.atAddr a = some ⟨code, a⟩ ∧ t.atIdx (t.dictAddr2idx a) = some ⟨code, a⟩
  /-- The indices included. -/
  includeIdx : ∀ i, t.includeIdx i = true ↔ 0 ≤ i ∧ i < t.size
  /-- Deletion at an index. -/
  del : ∀ i, t.includeIdx i = true → RemovesEntry t i (t.del i)

section Refines

variable {t : BreakpointTable} {m : BreakpointMap}

theorem Represents.mem (h : Represents t m) {a : Word} : t.includeAddr a = true ↔ a ∈ m.keys := by
  rw [BreakpointTable.includeAddr_iff, h.addrs]

/-- The index of an address is its place. -/
theorem Represents.dictAddr2idx (h : Represents t m) {j : Nat} {a : Word}
    (hj : m.keys[j]? = some a) : t.dictAddr2idx a = j := by
  rcases t.dictAddr2idx_spec a with ⟨-, hno⟩ | ⟨j', bp, hidx, hget, rfl⟩
  · rw [h.addrs] at hno
    exact absurd (m.mem_iff_place.2 ⟨j, hj⟩) hno
  · have hj' : m.keys[j']? = some bp.addr := by
      rw [← h.addrs, BreakpointTable.addrs, List.getElem?_map, hget]
      rfl
    rw [hidx, m.place_unique hj hj']

theorem Represents.atAddr (h : Represents t m) {a code : Word} (hval : m.value a = some code) :
    t.atAddr a = some ⟨code, a⟩ := by
  have hmem : a ∈ m.keys := (m.dom a).1 (by rw [hval]; rfl)
  obtain ⟨bp, hbp, hat, rfl⟩ := BreakpointTable.atAddr_of_includeAddr (h.mem.2 hmem)
  have hcode := h.codes bp hbp
  rw [hval, Option.some.injEq] at hcode
  rw [hat, hcode]

/-- A place before the removal, from the one after it. -/
theorem place_before {i j : Nat} {a : Word} (hj : (m.eraseAt i).keys[j]? = some a) :
    m.keys[if j < i then j else j + 1]? = some a := by
  split
  · next hlt => rwa [m.getElem?_eraseAt_of_lt i hlt] at hj
  · next hge => rwa [m.getElem?_eraseAt_of_ge i (by omega)] at hj

theorem Represents.removesEntry (h : Represents t m) {idx : Int} (hinc : t.includeIdx idx = true) :
    RemovesEntry t idx (t.del idx) := by
  obtain ⟨i, bp, rfl, hget, -⟩ := BreakpointTable.atIdx_of_includeIdx hinc
  have hdel : Represents (t.del i) (m.eraseAt i) := represents_del h i
  have hlt : i < t.data.length := (List.getElem?_eq_some_iff.1 hget).1
  refine ⟨?_, fun j a hj => ?_, fun j a hj => ?_, fun a => ?_, fun a ha => ?_, fun a ha => ?_⟩
  · have hlen : (t.data.eraseIdx i).length = t.data.length - 1 := List.length_eraseIdx_of_lt hlt
    simp only [BreakpointTable.size, BreakpointTable.del, Int.toNat_natCast, hlen]
    omega
  · rw [shows_iff, shows_iff, h.addrs, hdel.addrs, m.getElem?_eraseAt_of_lt i (by omega)]
  · rw [shows_iff, shows_iff, h.addrs, hdel.addrs, m.getElem?_eraseAt_of_ge i (by omega)]
  · rw [hdel.mem, h.mem, m.mem_eraseAt, shows_iff, h.addrs, Int.toNat_natCast]
  · obtain ⟨j, hj⟩ := (m.eraseAt i).mem_iff_place.1 (hdel.mem.1 ha)
    rw [hdel.dictAddr2idx hj, h.dictAddr2idx (place_before hj)]
    by_cases hji : j < i
    · rw [if_pos hji, if_pos (by omega)]
    · rw [if_neg hji, if_neg (by omega)]
      omega
  · obtain ⟨code, hcode⟩ := (m.eraseAt i).value_of_mem (hdel.mem.1 ha)
    have hsame := m.value_eraseAt i ((m.mem_eraseAt i).1 (hdel.mem.1 ha)).2
    rw [hdel.atAddr hcode, h.atAddr (hsame ▸ hcode)]

theorem Represents.refines (h : Represents t m) : Refines t m where
  includeAddr _ := h.mem
  shown j a := by rw [shows_iff, h.addrs]
  index a ha := by
    obtain ⟨j, hj⟩ := m.mem_iff_place.1 ha
    refine ⟨j, h.dictAddr2idx hj, fun j' => ?_⟩
    rw [shows_iff, h.addrs]
    constructor
    · intro hj'
      exact m.place_unique hj' hj
    · rintro rfl
      exact hj
  entry a code hval := ⟨h.atAddr hval, h.atAddr hval⟩
  includeIdx i := decide_eq_true_iff
  del _ hinc := h.removesEntry hinc

end Refines

/-! ## No index outside the table -/

/-- The loop of `reput_all_breakpoints_from` over the index: `n` entries are left, the
next is `i`. -/
def reputLoop (beginAddr : Word) : Nat → Nat → Debugger → Dbg Debugger
  | 0, _, d => pure d
  | n + 1, i, d => do
      let bp ← entryAtIdx d.bptab i
      if bp.addr < beginAddr then reputLoop beginAddr n (i + 1) d
      else do
        let code ← sys (.peektext d.pid bp.addr)
        if (← sys (.poketext d.pid bp.addr ((code &&& 0xffffffffffffff00#64) ||| 0xcc#64))) = false
        then pure (d.say (.perror "** ptrace POKETEXT"))
        else reputLoop beginAddr n (i + 1) d

/-- Each index of the loop is in the table. -/
theorem reputLoop_eq (beginAddr : Word) (d : Debugger) {i : Nat} {l : List BreakpointInfo}
    (hl : d.bptab.data.drop i = l) :
    reputLoop beginAddr l.length i d = reputFrom beginAddr l d := by
  induction l generalizing i with
  | nil => rfl
  | cons bp l ih =>
      have hget : d.bptab.data[i]? = some bp := by
        rw [← List.head?_drop, hl]
        rfl
      have hrest : d.bptab.data.drop (i + 1) = l := by
        rw [← List.drop_drop, hl]
        rfl
      have hat : d.bptab.atIdx i = some bp := by simp [BreakpointTable.atIdx, hget]
      rw [List.length_cons, reputLoop, reputFrom, entryAtIdx, hat, Prog.done_bind, ih hrest]

variable (cs : Capstone) (d : Debugger)

/-- No command looks outside the table. -/
theorem indexed_dispatch (line : Str) (cmds : List Str) (c : Str) :
    Indexed (fun _ => True) (dispatch cs line cmds c d) :=
  have keeps {p : Dbg Debugger} (h : Indexed (Keeps d) p) : Indexed (fun _ => True) p :=
    h.imp fun _ _ => trivial
  have only {A : Req → Prop} {P : Debugger → Prop} {p : Dbg Debugger}
      (h : Within A Fault.OfParser P p) : Indexed (fun _ => True) p :=
    (indexed_of_ofParser h).imp fun _ _ => trivial
  dispatch_cases cs (fun _ _ => trivial) (only (looks_load d cmds)) (keeps (keeps_start cs d))
    (keeps (keeps_cont cs d)) (fun _ => only (pokes_setBreakPoint d cmds))
    (keeps (keeps_stepIn cs d)) (only (pokes_deleteBreakPoint d cmds))
    (only (looks_getSingleReg d cmds)) (only (looks_getAllRegs d)) (keeps (keeps_setReg d cmds))
    (only (looks_vmmap d)) (only (looks_disasm cs d cmds)) (only (looks_dump d cmds))
    (keeps (keeps_run cs d))

theorem indexed_commandLoop (line : Str) : Indexed (fun _ => True) (commandLoop cs line d) := by
  unfold commandLoop
  cases hwords : dbgcmdParser line ' ' with
  | nil => exact absurd hwords (dbgcmdParserLoop_ne_nil line ' ' 0 [])
  | cons c args =>
      refine iteInduction (fun _ => trivial) fun _ => ?_
      exact (indexed_dispatch cs d line (c :: args) c).bind fun _ _ => trivial

/-- After every sequence of calls the table says what the map does; whatever is in the
table and whatever the system answers, no line makes the debugger look outside it. -/
theorem table_refines_map {t : BreakpointTable} {m : BreakpointMap} (h : History t m) :
    Refines t m ∧
      (∀ (beginAddr : Word) (d : Debugger),
        reputLoop beginAddr d.bptab.data.length 0 d = reputAllBreakpointsFrom beginAddr d) ∧
      ∀ (cs : Capstone) {W : Type} (K : Kernel Req Ans W) (line : Str) (d : Debugger) (w w' : W),
        ¬ Runs K (commandLoop cs line d) w (.fault .badIndex) w' := by
  refine ⟨(represents_of_history h).refines, fun beginAddr d => ?_, fun cs W K line d w w' hr => ?_⟩
  · exact reputLoop_eq beginAddr d (List.drop_zero ..)
  · have hens := (indexed_commandLoop cs d line).ensures (K := K) (I := fun _ => True)
      (fun _ _ _ _ _ _ _ => trivial) (w := w) trivial
    exact ((ensures_iff_runs.1 hens).2 _ _ hr).1 rfl

/-- Two breakpoints, the first deleted and set again with other code. -/
theorem table_refines_map_sample :
    ∃ m : BreakpointMap, Refines ⟨[⟨2, 0x2000⟩, ⟨3, 0x1000⟩]⟩ m ∧
      m.keys = [0x2000, 0x1000] ∧ m.value 0x1000 = some 3 := by
  have h₁ := History.empty.add (by decide : (0x1000 : Word) ∉ _) 1
  have h₂ := h₁.add (by decide : (0x2000 : Word) ∉ _) 2
  have h₃ := h₂.del (by decide : BreakpointTable.includeIdx _ 0 = true)
  have h₄ := h₃.add (by decide : (0x1000 : Word) ∉ _) 3
  exact ⟨_, (table_refines_map h₄).1, rfl, rfl⟩

end Sdb
