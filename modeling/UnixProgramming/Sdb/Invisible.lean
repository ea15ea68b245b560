import UnixProgramming.Sdb.Disassembly

/-!
# Breakpoints and the disassembler

At a breakpoint `disasm` decodes the word saved in the table, elsewhere what
memory holds.  Both may hold traps, the saved word those of its neighbours at
the time, but only where other instructions start.

* `Capstone.Local`, `Boundaries` — what is asked of the decoder and of the
  places where breakpoints are set.
* `BreakHistory` — any sequence of `break` and `delete`.
* `UnderTraps` — the invariant of such a sequence, `underTraps_of_history`.
* `sweepRows_congr` — words that decode alike along a sweep print the same rows.
* `breakpoints_invisible` — the rows are those printed without breakpoints.
-/

namespace Sdb

open ByteMemory CString Requests Overlay

/-! ## Instruction boundaries -/

/-- An instruction is decoded from its own bytes: any window that begins with
them gives the same instruction. -/
def Capstone.Local (cs : Capstone) : Prop :=
  ∀ bytes bytes' addr insn, bytes'.length = bytes.length → cs.csDisasm bytes addr = some insn →
    bytes'.take insn.size = bytes.take insn.size → cs.csDisasm bytes' addr = some insn

/-- An instruction of the text `orig` starts at `a`, no other address of `S` lies
inside it, and it ends at an address of `S` or where a sweep ends. -/
structure BoundaryAt (cs : Capstone) (orig : Memory) (lo hi : Word) (S : Set Addr) (a : Addr)
    (insn : Insn) : Prop where
  decodes : cs.csDisasm ((bytesOf (readWord orig a)).take 7) a = some insn
  nonempty : 1 ≤ insn.size
  window : insn.size ≤ 7
  apart : ∀ k, 1 ≤ k → k < insn.size → offset a k ∉ S
  next : offset a insn.size ∈ S ∨ OutOfText lo hi (offset a insn.size)

/-- `S` is a set of instruction boundaries of the text. -/
def Boundaries (cs : Capstone) (orig : Memory) (lo hi : Word) (S : Set Addr) : Prop :=
  ∀ a ∈ S, ∃ insn, BoundaryAt cs orig lo hi S a insn

/-! ## A history of breakpoints -/

/-- A `break` names an address of `S` that is not in the table. -/
def BreaksIn (S : Set Addr) (d : Debugger) (cmds : List Str) : Prop :=
  ∀ c word rest, cmds = c :: word :: rest → breakAddr word ∈ S ∧ breakAddr word ∉ d.bptab.addrs

/-- What `break` and `delete` commands lead to, in any order and number. -/
inductive BreakHistory (env : Env) (S : Set Addr) (d₀ : Debugger) (w₀ : World) :
    Debugger → World → Prop where
  | nil : BreakHistory env S d₀ w₀ d₀ w₀
  | set {d d' : Debugger} {w w' : World} {cmds : List Str} : BreakHistory env S d₀ w₀ d w →
      BreaksIn S d cmds → Runs (kernel env) (setBreakPoint cmds d) w (.done d') w' →
      BreakHistory env S d₀ w₀ d' w'
  | delete {d d' : Debugger} {w w' : World} {cmds : List Str} : BreakHistory env S d₀ w₀ d w →
      Runs (kernel env) (deleteBreakPoint cmds d) w (.done d') w' → BreakHistory env S d₀ w₀ d' w'

/-- A saved word holds the program's bytes except where other breakpoints can be. -/
def SavedAt (S : Set Addr) (orig : Memory) (bp : BreakpointInfo) : Prop :=
  ∀ k, k < 8 → k = 0 ∨ offset bp.addr k ∉ S → byteOf bp.code k = orig (offset bp.addr k)

/-- A table of breakpoints at addresses of `S` over a memory that holds their traps. -/
structure HiddenTable (S : Set Addr) (orig : Memory) (tab : BreakpointTable) (m : Memory) :
    Prop where
  mem : m = overlay tab.addrs int3 orig
  distinct : tab.addrs.Nodup
  inSet : ∀ a ∈ tab.addrs, a ∈ S
  saved : ∀ bp ∈ tab.data, SavedAt S orig bp

/-- The invariant of a history: only the table, the output and the memory have changed. -/
def UnderTraps (S : Set Addr) (d₀ : Debugger) (f : Bool) (t₀ : Tracee) (d : Debugger) (w : World) :
    Prop :=
  ∃ tab out m, d = { d₀ with bptab := tab, out := out } ∧
    w = ⟨f, .stopped d₀.pid { t₀ with mem := m }⟩ ∧ HiddenTable S t₀.mem tab m

section History

variable {cs : Capstone} {env : Env} {S : Set Addr} {d₀ d : Debugger} {f : Bool} {t₀ : Tracee}
  {w : World} {orig m : Memory} {tab : BreakpointTable} {lo hi : Word}

theorem HiddenTable.add (h : HiddenTable S orig tab m) {a : Addr} (ha : a ∈ S)
    (hnew : a ∉ tab.addrs) :
    HiddenTable S orig (tab.add a (readWord m a)) (Function.update m a int3) where
  mem := by
    rw [h.mem]
    exact update_overlay_insert (by simp)
  distinct := BreakpointTable.nodup_add h.distinct hnew
  inSet := by
    intro x hx
    rw [BreakpointTable.addrs_add, List.mem_append, List.mem_singleton] at hx
    rcases hx with hx | rfl
    · exact h.inSet x hx
    · exact ha
  saved := by
    intro bp hbp
    rw [BreakpointTable.data_add, List.mem_append, List.mem_singleton] at hbp
    rcases hbp with hbp | rfl
    · exact h.saved bp hbp
    · intro k hk hout
      have hno : offset a k ∉ tab.addrs := by
        rcases hout with rfl | hout
        · rwa [offset_zero]
        · exact fun hin => hout (h.inSet _ hin)
      change byteOf (readWord m a) k = orig (offset a k)
      rw [byteOf_readWord m a hk, h.mem, overlay_of_not_mem hno]

theorem HiddenTable.del (h : HiddenTable S orig tab m) {j : Nat} {bp : BreakpointInfo}
    (hget : tab.data[j]? = some bp) :
    HiddenTable S orig (tab.del j) (Function.update m bp.addr (byteOf bp.code 0)) where
  mem := by
    have hcode := h.saved bp (List.mem_of_getElem? hget) 0 (by norm_num) (Or.inl rfl)
    rw [offset_zero] at hcode
    rw [h.mem, hcode]
    exact update_overlay_remove fun x => BreakpointTable.mem_addrs_del_of_nodup h.distinct hget
  distinct := BreakpointTable.nodup_del h.distinct _
  inSet a ha := h.inSet a ((BreakpointTable.mem_addrs_del_of_nodup h.distinct hget).1 ha).1
  saved b hb := h.saved b (BreakpointTable.mem_of_mem_del hb)

theorem UnderTraps.say (h : UnderTraps S d₀ f t₀ d w) (m : Msg) : UnderTraps S d₀ f t₀ (d.say m) w := by
  obtain ⟨tab, out, mem, rfl, rfl, htab⟩ := h
  exact ⟨tab, out ++ [m], mem, rfl, rfl, htab⟩

/-- A new breakpoint in `S` keeps the invariant. -/
theorem underTraps_setBreakPoint (hg : env.Grants) (hr : d₀.state = .running)
    (h : UnderTraps S d₀ f t₀ d w) {cmds : List Str} (hin : BreaksIn S d cmds) :
    Ensures (kernel env) (fun _ _ => True) (UnderTraps S d₀ f t₀) (setBreakPoint cmds d) w := by
  have hsay := h.say
  obtain ⟨tab, out, m, rfl, rfl, htab⟩ := h
  unfold setBreakPoint
  rw [if_neg (not_not.2 hr)]
  match cmds with
  | [] => exact hsay _
  | [_] => exact hsay _
  | c :: word :: rest =>
      obtain ⟨hS, hnew⟩ := hin c word rest rfl
      simp only [ensures_ite, BreakpointTable.includeAddr_eq_false_iff.2 hnew]
      refine ⟨fun _ => hsay _, fun _ => ⟨nofun, fun _ => ?_⟩⟩
      rw [plantBreakPoint, ensures_peektext hg, ensures_poketext hg, writeWord_trap]
      exact ⟨_, _, _, rfl, rfl, htab.add hS hnew⟩

/-- Deleting one does. -/
theorem underTraps_deleteBreakPoint (hg : env.Grants) (hr : d₀.state = .running)
    (h : UnderTraps S d₀ f t₀ d w) (cmds : List Str) :
    Ensures (kernel env) (fun _ _ => True) (UnderTraps S d₀ f t₀) (deleteBreakPoint cmds d) w := by
  have hsay := h.say
  obtain ⟨tab, out, m, rfl, rfl, htab⟩ := h
  unfold deleteBreakPoint
  rw [if_neg (not_not.2 hr)]
  match cmds with
  | [] => exact hsay _
  | [_] => exact hsay _
  | c :: word :: rest =>
      simp only [ensures_ite]
      refine ⟨fun _ => hsay _, fun hidx => ?_⟩
      obtain ⟨j, bp, hj, hget, hat⟩ := BreakpointTable.atIdx_of_includeIdx (by simpa using hidx)
      rw [entryAtIdx, hat, Prog.done_bind, ensures_peektext hg, ensures_poketext hg,
        writeWord_restore, hj]
      exact ⟨_, _, _, rfl, rfl, htab.del hget⟩

/-- The invariant holds after every history from an empty table. -/
theorem underTraps_of_history (hg : env.Grants) (hr : d₀.state = .running)
    (hempty : d₀.bptab = ⟨[]⟩)
    (h : BreakHistory env S d₀ ⟨f, .stopped d₀.pid t₀⟩ d w) : UnderTraps S d₀ f t₀ d w := by
  induction h with
  | nil =>
      refine ⟨⟨[]⟩, d₀.out, t₀.mem, by rw [← hempty], rfl, ?_⟩
      exact ⟨overlay_nil.symm, List.nodup_nil, by simp [BreakpointTable.addrs], by simp⟩
  | set _ hin hrun ih => exact (underTraps_setBreakPoint hg hr ih hin).runs hrun
  | delete _ hrun ih => exact (underTraps_deleteBreakPoint hg hr ih _).runs hrun

/-! ## The words that are decoded -/

/-- Where breakpoints cannot be, the word decoded at `a` holds the program's bytes. -/
theorem byteOf_codeAt (h : HiddenTable S orig tab m) {a : Addr} {k : Nat} (hk : k < 8)
    (hout : k = 0 ∨ offset a k ∉ S) : byteOf (codeAt tab m a) k = orig (offset a k) := by
  by_cases hA : a ∈ tab.addrs
  · obtain ⟨bp, hbp, hat, rfl⟩ :=
      BreakpointTable.atAddr_of_includeAddr (BreakpointTable.includeAddr_iff.2 hA)
    rw [codeAt, hat]
    exact h.saved bp hbp k hk hout
  · have hno : offset a k ∉ tab.addrs := by
      rcases hout with rfl | hout
      · rwa [offset_zero]
      · exact fun hin => hout (h.inSet _ hin)
    rw [codeAt, BreakpointTable.atAddr_eq_none hA]
    simp only []
    rw [byteOf_readWord m a hk, h.mem, overlay_of_not_mem hno]

/-- The instruction bytes at a boundary are the program's. -/
theorem take_codeAt (h : HiddenTable S orig tab m) {a : Addr} {insn : Insn}
    (hb : BoundaryAt cs orig lo hi S a insn) :
    (bytesOf (codeAt tab m a)).take insn.size = (bytesOf (readWord orig a)).take insn.size := by
  have hwindow := hb.window
  refine take_bytesOf_congr (by omega) fun k hk => ?_
  have hk8 : k < 8 := by omega
  rw [byteOf_readWord orig a hk8]
  refine byteOf_codeAt h hk8 ?_
  rcases Nat.eq_zero_or_pos k with rfl | hpos
  · exact Or.inl rfl
  · exact Or.inr (hb.apart k hpos hk)

/-- The decoder finds the program's instruction at a boundary. -/
theorem decode_codeAt (hlocal : cs.Local) (hopen : cs.csOpen = true)
    (h : HiddenTable S orig tab m) {a : Addr} {insn : Insn}
    (hb : BoundaryAt cs orig lo hi S a insn) : cs.decode a (codeAt tab m a) = some insn := by
  rw [Capstone.decode, if_pos hopen]
  refine hlocal _ _ _ _ ?_ hb.decodes ?_
  · rw [List.length_take, List.length_take, length_bytesOf, length_bytesOf]
  · rw [List.take_take, List.take_take, Nat.min_eq_left hb.window]
    exact take_codeAt h hb

end History

/-! ## The rows -/

section Rows

variable {cs : Capstone} {lo hi : Word} {code code' : Word → Word}

/-- Words that give the same row and the same next address wherever the sweep
goes print the same rows. -/
theorem sweepRows_congr (P : Word → Prop)
    (hrow : ∀ a, P a → cs.row a (code a) = cs.row a (code' a) ∧
      cs.advance a (code a) = cs.advance a (code' a) ∧
      (P (a + cs.advance a (code' a)) ∨ OutOfText lo hi (a + cs.advance a (code' a))))
    (n : Nat) {a : Word} (ha : P a) :
    sweepRows cs lo hi code n a = sweepRows cs lo hi code' n a := by
  induction n generalizing a with
  | zero => rfl
  | succ n ih =>
      by_cases hout : OutOfText lo hi a
      · rw [sweepRows, sweepRows, attempts_of_out _ hout, attempts_of_out _ hout]
        rfl
      · obtain ⟨heq, hadv, hnext⟩ := hrow a ha
        have hrest : sweepRows cs lo hi code n (a + cs.advance a (code' a)) =
            sweepRows cs lo hi code' n (a + cs.advance a (code' a)) := by
          rcases hnext with hP | hout'
          · exact ih hP
          · rw [sweepRows, sweepRows, attempts_of_out _ hout', attempts_of_out _ hout']
            rfl
        rw [sweepRows, sweepRows] at hrest ⊢
        rw [attempts_succ _ hout, attempts_succ _ hout, List.map_cons, List.map_cons, heq, hadv,
          hrest]

variable {S : Set Addr} {orig m : Memory} {tab : BreakpointTable}

/-- Over a table of breakpoints at boundaries the sweep prints the rows of the program. -/
theorem sweepRows_hidden (hlocal : cs.Local) (hS : Boundaries cs orig lo hi S)
    (h : HiddenTable S orig tab m) (n : Nat) {a : Word} (ha : a ∈ S) :
    sweepRows cs lo hi (codeAt tab m) n a = sweepRows cs lo hi (readWord orig) n a := by
  cases hopen : cs.csOpen with
  | false =>
      -- nothing is decoded, whatever the words
      refine sweepRows_congr (fun _ => True) (fun a _ => ?_) n trivial
      simp [Capstone.row, Capstone.advance, Capstone.decode, hopen]
  | true =>
      refine sweepRows_congr (· ∈ S) (fun a ha => ?_) n ha
      obtain ⟨insn, hb⟩ := hS a ha
      have hdec : cs.decode a (codeAt tab m a) = some insn := decode_codeAt hlocal hopen h hb
      have horig : cs.decode a (readWord orig a) = some insn := by
        rw [Capstone.decode, if_pos hopen]
        exact hb.decodes
      simp only [Capstone.row, Capstone.advance, hdec, horig, take_codeAt h hb]
      exact ⟨trivial, trivial, hb.next⟩

/-- An instruction row shows the bytes of the words that were decoded. -/
theorem sweepRows_bytes (n : Nat) {a addr : Word} {bytes : List Byte} {mnemonic opStr : Str}
    (hrow : .insn addr bytes mnemonic opStr ∈ sweepRows cs lo hi (readWord orig) n a) :
    bytes = (List.range bytes.length).map fun k => orig (offset addr k) := by
  obtain ⟨b, -, hb⟩ := List.mem_map.1 hrow
  unfold Capstone.row at hb
  cases hdec : cs.decode b (readWord orig b) with
  | none =>
      rw [hdec] at hb
      cases hb
  | some insn =>
      rw [hdec] at hb
      injection hb with haddr hbytes
      subst haddr
      have htake : bytes = (List.range (min insn.size 8)).map (byteOf (readWord orig b)) := by
        rw [← hbytes, bytesOf, ← List.map_take, List.take_range]
      have hlen : bytes.length = min insn.size 8 := by
        rw [htake, List.length_map, List.length_range]
      rw [hlen, htake]
      refine List.map_congr_left fun k hk => byteOf_readWord orig b ?_
      have := List.mem_range.1 hk
      omega

end Rows

/-! ## Two runs -/

/-- What `disasm` prints. -/
def DisasmPrints (cs : Capstone) (env : Env) (cmds : List Str) (d : Debugger) (w : World)
    (rows : List Msg) : Prop :=
  ∀ o w', Runs (kernel env) (disasm cs cmds d) w o w' ↔
    o = .done { d with out := d.out ++ rows } ∧ w' = w

section Invisible

variable {cs : Capstone} {env : Env} {S : Set Addr} {d₀ d : Debugger} {f : Bool} {t₀ t : Tracee}
  {w : World}

/-- What it prints of an address outside the text. -/
theorem disasmPrints_out (hr : d.state = .running) {c word : Str} {l : List Str}
    (hout : breakAddr word < d.textBegin ∨ d.textEnd < breakAddr word) :
    DisasmPrints cs env (c :: word :: l) d w [.outOfRange d.textBegin d.textEnd] := by
  intro o w'
  unfold disasm
  rw [if_neg (not_not.2 hr)]
  change Runs (kernel env) (if breakAddr word < d.textBegin ∨ d.textEnd < breakAddr word then _
    else disasmLoop cs nDisasmIns (breakAddr word) d) _ _ _ ↔ _
  rw [if_pos hout]
  exact Iff.rfl

theorem disasmPrints_sweep (hg : env.Grants) (hr : d.state = .running) {c word : Str}
    {l : List Str} (hin : ¬ OutOfText d.textBegin d.textEnd (breakAddr word)) :
    DisasmPrints cs env (c :: word :: l) d ⟨f, .stopped d.pid t⟩
      (sweepRows cs d.textBegin d.textEnd (codeAt d.bptab t.mem) nDisasmIns (breakAddr word)) := by
  simp only [OutOfText, not_or, BitVec.not_lt] at hin
  exact fun o w' => runs_disasm hg hr hin.1 hin.2

/-- With an empty table memory is decoded. -/
theorem codeAt_empty (m : Memory) : codeAt ⟨[]⟩ m = readWord m := rfl

/-- After any history of breakpoints at boundaries, `disasm` prints from a
boundary the rows it prints without any, and their bytes are the program's. -/
theorem breakpoints_invisible (hg : env.Grants) (hlocal : cs.Local) (hr : d₀.state = .running)
    (hempty : d₀.bptab = ⟨[]⟩) (hS : Boundaries cs t₀.mem d₀.textBegin d₀.textEnd S)
    (h : BreakHistory env S d₀ ⟨f, .stopped d₀.pid t₀⟩ d w) {c word : Str} {l : List Str}
    (hstart : breakAddr word ∈ S) :
    ∃ rows, DisasmPrints cs env (c :: word :: l) d w rows ∧
      DisasmPrints cs env (c :: word :: l) d₀ ⟨f, .stopped d₀.pid t₀⟩ rows ∧
      ∀ addr bytes mnemonic opStr, .insn addr bytes mnemonic opStr ∈ rows →
        bytes = (List.range bytes.length).map fun k => t₀.mem (offset addr k) := by
  obtain ⟨tab, out, m, rfl, rfl, htab⟩ := underTraps_of_history hg hr hempty h
  by_cases hout : OutOfText d₀.textBegin d₀.textEnd (breakAddr word)
  · refine ⟨[.outOfRange d₀.textBegin d₀.textEnd], ?_, disasmPrints_out hr hout, ?_⟩
    · exact disasmPrints_out (d := { d₀ with bptab := tab, out := out }) hr hout
    · intro addr bytes mnemonic opStr hmem
      simp at hmem
  · refine ⟨sweepRows cs d₀.textBegin d₀.textEnd (readWord t₀.mem) nDisasmIns (breakAddr word),
      ?_, ?_, fun addr bytes mnemonic opStr hmem => sweepRows_bytes nDisasmIns hmem⟩
    · rw [← sweepRows_hidden hlocal hS htab nDisasmIns hstart]
      exact disasmPrints_sweep (d := { d₀ with bptab := tab, out := out })
        (t := { t₀ with mem := m }) hg hr hout
    · have hprints : DisasmPrints cs env (c :: word :: l) d₀ ⟨f, .stopped d₀.pid t₀⟩ _ :=
        disasmPrints_sweep hg hr hout
      rwa [hempty, codeAt_empty] at hprints

end Invisible

/-! ## A program of `nop`s -/

namespace Sample

theorem capstone_local : capstone.Local := by
  intro bytes bytes' addr insn _ hdec htake
  simp only [capstone] at hdec ⊢
  split at hdec
  · next hhead =>
      cases hdec
      have hhead' : bytes'.head? = some 0x90 := by
        rw [← hhead]
        cases bytes <;> cases bytes' <;> simp_all
      rw [if_pos hhead']
  · cases hdec

/-- Every address of the text is a boundary. -/
def boundaries : Set Addr := {a | 0x1000 ≤ a ∧ a ≤ 0x1007}

theorem boundaries_ok : Boundaries capstone tracee.mem 0x1000 0x1007 boundaries := by
  rintro a ⟨hlo, hhi⟩
  refine ⟨⟨1, "nop".toList, []⟩, ?_, by decide, by decide, ?_, ?_⟩
  · have hwords : readWord tracee.mem a = readWord tracee.mem 0x1000 := rfl
    rw [hwords]
    rfl
  · intro k hk hk1
    have hk1 : k < 1 := hk1
    omega
  · by_cases hlast : a = 0x1007
    · subst hlast
      exact Or.inr (Or.inr (by decide))
    · refine Or.inl ⟨?_, ?_⟩
      · bv_omega
      · bv_omega

theorem history_planted :
    BreakHistory quiet boundaries started ⟨false, .stopped started.pid tracee⟩ planted
      ⟨false, .stopped 1 trapped⟩ := by
  have hbreaks : BreaksIn boundaries started ["b".toList, "0x1000".toList] := by
    intro c word rest heq
    cases heq
    exact ⟨⟨by decide, by decide⟩, by decide⟩
  refine BreakHistory.nil.set hbreaks ?_
  refine ⟨_, _, kernel_peektext.2 (Or.inl ⟨rfl, rfl⟩), ?_⟩
  exact ⟨true, _, kernel_poketext.2 (Or.inl ⟨rfl, rfl⟩), rfl, rfl⟩

end Sample

theorem breakpoints_invisible_planted :
    ∃ rows, DisasmPrints Sample.capstone Sample.quiet ["d".toList, "0x1000".toList]
        Sample.planted ⟨false, .stopped 1 Sample.trapped⟩ rows ∧
      DisasmPrints Sample.capstone Sample.quiet ["d".toList, "0x1000".toList] Sample.started
        ⟨false, .stopped Sample.started.pid Sample.tracee⟩ rows ∧
      ∀ addr bytes mnemonic opStr, .insn addr bytes mnemonic opStr ∈ rows →
        bytes = (List.range bytes.length).map fun k => Sample.tracee.mem (offset addr k) :=
  breakpoints_invisible Sample.quiet_grants Sample.capstone_local rfl rfl Sample.boundaries_ok
    Sample.history_planted ⟨by decide, by decide⟩

end Sdb
