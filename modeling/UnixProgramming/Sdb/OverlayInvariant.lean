import UnixProgramming.Sdb.Session
import UnixProgramming.Sdb.StepOver

/-!
# The breakpoint overlay

While a process runs under the debugger, its text is the program's text with
`0xcc` at the addresses of the breakpoint table, and the table remembers the
byte each of them hides.

* `TextPreserved` — what is asked of the system: memory requests succeed, every
  process starts with the same text and no tracee writes to it.
* `TableOk` — what the entries of the table are.
* `overlaySession` — the invariant over table, memory and state, and
  `overlaySession_stable`, what preserves it.
* `overlay_invariant` — it holds in every reachable state.
-/

namespace Sdb

open ByteMemory CString Requests Overlay

/-! ## The text -/

/-- The bytes a breakpoint in `[textBegin, textEnd]` can touch. -/
def textRegion (textBegin textEnd : Word) : Set Addr := {a | textBegin ≤ a ∧ a ≤ textEnd + 7}

/-- Memory requests succeed, every started process has the text `orig`, and a
tracee that is let run does not write to it. -/
structure TextPreserved (env : Env) (orig : Memory) (textBegin textEnd : Word) : Prop where
  grants : env.Grants
  nonempty : textBegin ≤ textEnd
  room : textEnd.toNat + 8 ≤ 2 ^ 64
  boots : ∀ t, env.boots t → Set.EqOn t.mem orig (textRegion textBegin textEnd)
  stops : ∀ how t st t', env.stops how t st t' →
    Set.EqOn t'.mem t.mem (textRegion textBegin textEnd)

/-- A word that starts in the text lies in the region. -/
theorem mem_textRegion {lo hi a : Word} (hroom : hi.toNat + 8 ≤ 2 ^ 64) (hlo : lo ≤ a)
    (hhi : a ≤ hi) : a ∈ textRegion lo hi := by
  refine ⟨hlo, ?_⟩
  bv_omega

/-- The entries of the table lie in the text, each remembers the byte of the
program at its address, and no two have the same address. -/
structure TableOk (orig : Memory) (textBegin textEnd : Word) (t : BreakpointTable) : Prop where
  inText : ∀ bp ∈ t.data, textBegin ≤ bp.addr ∧ bp.addr ≤ textEnd
  code : ∀ bp ∈ t.data, byteOf bp.code 0 = orig bp.addr
  distinct : t.addrs.Nodup

theorem TableOk.empty (orig : Memory) (lo hi : Word) : TableOk orig lo hi ⟨[]⟩ where
  inText := by simp
  code := by simp
  distinct := by simp [BreakpointTable.addrs]

theorem TableOk.add {orig : Memory} {lo hi : Word} {t : BreakpointTable} (h : TableOk orig lo hi t)
    {addr code : Word} (hlo : lo ≤ addr) (hhi : addr ≤ hi) (hcode : byteOf code 0 = orig addr)
    (hnew : addr ∉ t.addrs) : TableOk orig lo hi (t.add addr code) where
  inText := by
    intro bp hbp
    rw [BreakpointTable.data_add, List.mem_append, List.mem_singleton] at hbp
    rcases hbp with hbp | rfl
    · exact h.inText bp hbp
    · exact ⟨hlo, hhi⟩
  code := by
    intro bp hbp
    rw [BreakpointTable.data_add, List.mem_append, List.mem_singleton] at hbp
    rcases hbp with hbp | rfl
    · exact h.code bp hbp
    · exact hcode
  distinct := BreakpointTable.nodup_add h.distinct hnew

theorem TableOk.del {orig : Memory} {lo hi : Word} {t : BreakpointTable} (h : TableOk orig lo hi t)
    (idx : Int) : TableOk orig lo hi (t.del idx) where
  inText bp hbp := h.inText bp (BreakpointTable.mem_of_mem_del hbp)
  code bp hbp := h.code bp (BreakpointTable.mem_of_mem_del hbp)
  distinct := BreakpointTable.nodup_del h.distinct idx

/-! ## The invariant -/

/-- The program's text range is `[lo, hi]`, and its table is in order. -/
structure TextTable (orig : Memory) (lo hi : Word) (d : Debugger) : Prop where
  textBegin : d.textBegin = lo
  textEnd : d.textEnd = hi
  table : TableOk orig lo hi d.bptab

/-- The overlay invariant: the text of a stopped tracee is the program's under
the overlay of the table. -/
def overlaySession (orig : Memory) (lo hi : Word) : SessionInv where
  live d _ t := TextTable orig lo hi d ∧
    Set.EqOn t.mem (overlay d.bptab.addrs int3 orig) (textRegion lo hi)
  idle d _ := TextTable orig lo hi d

/-- Writing back the word that was read before the step brings the whole text
back, whatever the step has done to the byte at the breakpoint. -/
theorem eqOn_writeWord_readWord {m m' : Memory} {a : Addr} {b : Byte} {T : Set Addr}
    (h : Set.EqOn m' (Function.update m a b) T) : Set.EqOn (writeWord m' a (readWord m a)) m T := by
  intro x hx
  rw [writeWord_readWord_apply]
  by_cases hin : InWord a x
  · rw [if_pos hin]
  · have hne : x ≠ a := by
      rintro rfl
      exact hin (inWord_self x)
    rw [if_neg hin, h hx, Function.update_of_ne hne]

section Commands

variable {env : Env} {orig : Memory} {lo hi : Word} {d : Debugger} {w : World} {f : Bool}
  {t : Tracee}

theorem TextTable.of_eq {d' : Debugger} (h : TextTable orig lo hi d)
    (hb : d'.textBegin = d.textBegin) (he : d'.textEnd = d.textEnd) (ht : d'.bptab = d.bptab) :
    TextTable orig lo hi d' :=
  ⟨hb.trans h.textBegin, he.trans h.textEnd, ht ▸ h.table⟩

/-- Stepping over a breakpoint: the text is the same again afterwards. -/
theorem overlay_stepOver (hok : TextPreserved env orig lo hi) (hr : d.state = .running)
    (h : (overlaySession orig lo hi).live d f t) (addr : Word)
    (hinc : d.bptab.includeAddr addr = true) :
    Ensures (kernel env) (fun _ _ => True) (overlaySession orig lo hi).Holds
      (checkThenRestoreSiReput addr d) ⟨f, .stopped d.pid t⟩ := by
  obtain ⟨htab, heq⟩ := h
  have hA : addr ∈ d.bptab.addrs := BreakpointTable.includeAddr_iff.1 hinc
  rw [ensures_iff_runs]
  simp only [runs_checkThenRestoreSiReput hok.grants hr htab.table.code hA]
  refine ⟨?_, fun _ _ _ => trivial⟩
  rintro d' w' ⟨st, t₁, hst, hend⟩
  cases st with
  | stopped sig =>
      obtain ⟨hd, rfl⟩ := hend
      cases hd
      have hstep : Set.EqOn t₁.mem (t.restored addr orig).mem (textRegion lo hi) :=
        hok.stops _ _ _ _ hst
      exact SessionInv.Holds.of_live hr ⟨htab, (eqOn_writeWord_readWord hstep).trans heq⟩
  | exited code =>
      obtain ⟨hd, rfl⟩ := hend
      cases hd
      exact SessionInv.Holds.of_idle (by simp [Debugger.release]) (htab.of_eq rfl rfl rfl)
  | signaled sig => cases hend.1

/-- A started process gets every breakpoint of the table again. -/
theorem overlay_start (cs : Capstone) (hok : TextPreserved env orig lo hi)
    (hl : d.state = .loaded) (h : TextTable orig lo hi d) :
    Ensures (kernel env) (fun _ _ => True) (overlaySession orig lo hi).Holds (start cs d) w := by
  have hidle : ∀ pid m w', (overlaySession orig lo hi).Holds ({ d with pid := pid }.say m) w' :=
    fun pid m w' => SessionInv.Holds.of_idle (by simp [hl]) (h.of_eq rfl rfl rfl)
  refine ensures_start hl (fun _ => hidle _ _ _) (fun _ => hidle _ _ _) (fun _ => hidle _ _ _)
    (fun _ _ _ => trivial) fun pid t _ hboot => ?_
  have hreput := ensures_reputFrom (F := fun _ _ => True) (f := w.forked) (t := t)
    (d := { d with pid := pid }) hok.grants d.textBegin d.bptab.data
    (fun bp hbp => h.textBegin ▸ (h.table.inText bp hbp).1) [] t.mem overlay_nil.symm
  refine hreput.imp ?_
  rintro d₁ w₁ ⟨rfl, rfl⟩
  refine ⟨d.out, _, rfl, rfl, fun regs out => SessionInv.Holds.of_live rfl ⟨?_, ?_⟩⟩
  · exact h.of_eq rfl rfl rfl
  · exact eqOn_overlay (hok.boots t hboot)

/-- What preserves the overlay. -/
theorem overlaySession_stable (cs : Capstone) (hok : TextPreserved env orig lo hi) :
    (overlaySession orig lo hi).Stable cs env fun _ _ => True where
  live_out h _ _ := ⟨h.1.of_eq rfl rfl rfl, h.2⟩
  idle_out h _ _ := TextTable.of_eq h rfl rfl rfl
  regs h _ := h
  stopped _ h hst := ⟨h.1, (hok.stops _ _ _ _ hst).trans h.2⟩
  exited _ h := h.1.of_eq rfl rfl rfl
  killed _ _ _ := trivial
  faults _ _ _ := trivial
  stepOver hr h addr hinc := overlay_stepOver hok hr h addr hinc
  start hl h := overlay_start cs hok hl h

/-! ## The commands that change the table -/

/-- A breakpoint at a new address hides the program's own byte. -/
theorem overlay_setBreakPoint (cs : Capstone) (hok : TextPreserved env orig lo hi)
    (h : (overlaySession orig lo hi).Holds d w) (cmds : List Str)
    (hnew : d.state = .running → ∀ c word rest, cmds = c :: word :: rest →
      breakAddr word ∉ d.bptab.addrs) :
    Ensures (kernel env) (fun _ _ => True) (overlaySession orig lo hi).Holds
      (setBreakPoint cmds d) w := by
  have hsay := (overlaySession_stable cs hok).say h
  unfold setBreakPoint
  rw [ensures_ite]
  refine ⟨fun _ => hsay _, fun hr => ?_⟩
  have hr : d.state = .running := not_not.1 hr
  obtain ⟨f, t, rfl, htab, heq⟩ := h.1 hr
  match cmds with
  | [] => exact hsay _
  | [_] => exact hsay _
  | c :: word :: rest =>
      have hnew : breakAddr word ∉ d.bptab.addrs := hnew hr c word rest rfl
      have hinc : d.bptab.includeAddr (breakAddr word) = false :=
        BreakpointTable.includeAddr_eq_false_iff.2 hnew
      simp only [ensures_ite, hinc]
      refine ⟨fun _ => hsay _, fun hrange => ⟨nofun, fun _ => ?_⟩⟩
      simp only [not_or, BitVec.not_lt, htab.textBegin, htab.textEnd] at hrange
      have hmem : breakAddr word ∈ textRegion lo hi := mem_textRegion hok.room hrange.1 hrange.2
      have hcode : byteOf (readWord t.mem (breakAddr word)) 0 = orig (breakAddr word) := by
        rw [byteOf_readWord_zero, heq hmem, overlay_of_not_mem hnew]
      rw [plantBreakPoint, ensures_peektext hok.grants, ensures_poketext hok.grants, writeWord_trap]
      refine SessionInv.Holds.of_live hr ⟨⟨htab.textBegin, htab.textEnd, ?_⟩, ?_⟩
      · exact htab.table.add hrange.1 hrange.2 hcode hnew
      · exact eqOn_overlay_insert heq (by simp)

/-- Deleting an entry gives the byte at its address back. -/
theorem overlay_deleteBreakPoint (cs : Capstone) (hok : TextPreserved env orig lo hi)
    (h : (overlaySession orig lo hi).Holds d w) (cmds : List Str) :
    Ensures (kernel env) (fun _ _ => True) (overlaySession orig lo hi).Holds
      (deleteBreakPoint cmds d) w := by
  have hsay := (overlaySession_stable cs hok).say h
  by_cases hr : d.state = .running
  swap
  · unfold deleteBreakPoint
    rw [if_pos hr]
    exact hsay _
  obtain ⟨f, t, rfl, htab, heq⟩ := h.1 hr
  match cmds with
  | [] => simp only [deleteBreakPoint, ensures_ite]; exact ⟨fun _ => hsay _, fun _ => hsay _⟩
  | [_] => simp only [deleteBreakPoint, ensures_ite]; exact ⟨fun _ => hsay _, fun _ => hsay _⟩
  | c :: word :: rest =>
      by_cases hidx : d.bptab.includeIdx (atoi word) = true
      · obtain ⟨j, bp, hj, hget, hat⟩ := BreakpointTable.atIdx_of_includeIdx hidx
        have hcode := htab.table.code bp (List.mem_of_getElem? hget)
        rw [ensures_iff_runs]
        simp only [runs_deleteBreakPoint hok.grants hr hidx hat]
        refine ⟨?_, fun _ _ _ => trivial⟩
        rintro d' w' ⟨hd, rfl⟩
        cases hd
        refine SessionInv.Holds.of_live hr
          ⟨⟨htab.textBegin, htab.textEnd, htab.table.del _⟩, ?_⟩
        simp only [hcode, Debugger.say_bptab, hj]
        exact eqOn_overlay_remove heq fun x =>
          BreakpointTable.mem_addrs_del_of_nodup htab.table.distinct hget
      · have hidx' : d.bptab.includeIdx (atoi word) = false := by simpa using hidx
        unfold deleteBreakPoint
        rw [if_neg (not_not.2 hr)]
        simp only [if_pos hidx']
        exact hsay _

/-! ## One line of input -/

/-- A `break` of a running process must name an address that is not in the table. -/
def FreshBreak (line : Str) (d : Debugger) : Prop :=
  d.state = .running → ∀ c word rest, dbgcmdParser line ' ' = c :: word :: rest →
    c = "break".toList ∨ c = "b".toList → breakAddr word ∉ d.bptab.addrs

/-- One line of input preserves the overlay. -/
theorem overlay_dispatch (cs : Capstone) (hok : TextPreserved env orig lo hi)
    (h : (overlaySession orig lo hi).Holds d w) (hl : d.state ≠ .noload) {line : Str} {c : Str}
    {args : List Str} (hwords : dbgcmdParser line ' ' = c :: args) (hfresh : FreshBreak line d) :
    Ensures (kernel env) (fun _ _ => True) (overlaySession orig lo hi).Holds
      (dispatch cs line (c :: args) c d) w := by
  have hI := overlaySession_stable cs hok
  refine SessionInv.holds_dispatch hI h ?load ?point (overlay_deleteBreakPoint cs hok h _)
  case load =>
    rw [load_of_loaded _ hl]
    exact hI.say h _
  case point =>
    intro hc
    refine overlay_setBreakPoint cs hok h _ ?_
    rintro hr c' word rest heq
    cases heq
    exact hfresh hr c word rest hwords hc

end Commands

/-! ## Every reachable state -/

/-- The table is empty as long as no program is loaded, and for a loaded program
the overlay invariant holds. -/
theorem overlay_of_reachable {cs : Capstone} {env : Env} (orig : Memory) {d : Debugger}
    {w : World} (h : Reachable cs env FreshBreak d w) :
    (d.state = .noload → d.bptab = ⟨[]⟩) ∧
      (d.state ≠ .noload → TextPreserved env orig d.textBegin d.textEnd →
        (overlaySession orig d.textBegin d.textEnd).Holds d w) := by
  induction h with
  | init => exact ⟨fun _ => rfl, fun h => absurd rfl h⟩
  | @step d d' w w' line _ hfresh hr ih =>
      obtain ⟨c, args, hwords, -, hr⟩ := runs_commandLoop.1 hr
      by_cases hl : d.state = .noload
      · obtain ⟨htab, hno⟩ := (yields_dispatch_of_noload cs d line (c :: args) c hl).runs hr
        have hempty : d'.bptab = ⟨[]⟩ := htab.trans (ih.1 hl)
        refine ⟨fun _ => hempty, fun _ _ => SessionInv.Holds.of_idle hno ⟨rfl, rfl, ?_⟩⟩
        rw [hempty]
        exact TableOk.empty _ _ _
      · obtain ⟨hl', hb, he⟩ := (yields_dispatch_of_loaded cs d line (c :: args) c hl).runs hr
        refine ⟨fun h => absurd h hl', fun _ hok => ?_⟩
        rw [hb, he] at hok ⊢
        exact (overlay_dispatch cs hok (ih.2 hl hok) hl hwords hfresh).runs hr

/-- The overlay invariant keeps the table in order, whether or not a tracee runs. -/
theorem overlay_textTable {orig : Memory} {lo hi : Word} {d : Debugger} {w : World}
    (h : (overlaySession orig lo hi).Holds d w) : TextTable orig lo hi d := by
  by_cases hr : d.state = .running
  · obtain ⟨f, t, -, htab, -⟩ := h.1 hr
    exact htab
  · exact h.2 hr

/-- In every reachable state the entries lie in the text and remember the
program's own bytes, and a running tracee's text is the program's under the
overlay of the table. -/
theorem overlay_invariant (cs : Capstone) (env : Env) (orig : Memory) {d : Debugger} {w : World}
    (h : Reachable cs env FreshBreak d w)
    (hok : d.state ≠ .noload → TextPreserved env orig d.textBegin d.textEnd) :
    (∀ bp ∈ d.bptab.data, d.textBegin ≤ bp.addr ∧ bp.addr ≤ d.textEnd) ∧
      (∀ bp ∈ d.bptab.data, byteOf bp.code 0 = orig bp.addr) ∧
      (d.state = .running → ∃ t, w.child = .stopped d.pid t ∧
        ∀ a, d.textBegin ≤ a → a ≤ d.textEnd + 7 →
          t.mem a = if a ∈ d.bptab.addrs then 0xcc else orig a) := by
  obtain ⟨hempty, hinv⟩ := overlay_of_reachable orig h
  by_cases hl : d.state = .noload
  · rw [hempty hl]
    refine ⟨by simp, by simp, fun hr => ?_⟩
    rw [hl] at hr
    cases hr
  · have hinv := hinv hl (hok hl)
    have htab := overlay_textTable hinv
    refine ⟨htab.table.inText, htab.table.code, fun hr => ?_⟩
    obtain ⟨f, t, rfl, -, heq⟩ := hinv.1 hr
    exact ⟨t, rfl, fun a hlo hhi => heq ⟨hlo, hhi⟩⟩

theorem Sample.textPreserved (d : Debugger) (hb : d.textBegin = 0x1000) (he : d.textEnd = 0x1007) :
    TextPreserved Sample.quiet Sample.tracee.mem d.textBegin d.textEnd := by
  rw [hb, he]
  refine ⟨Sample.quiet_grants, by decide, by decide, ?_, ?_⟩
  · rintro t rfl
    exact Set.eqOn_refl _ _
  · rintro how t st t' rfl
    exact Set.eqOn_refl _ _

theorem freshBreak_of_empty {line : Str} {d : Debugger} (h : d.bptab = ⟨[]⟩) :
    FreshBreak line d := by
  intro _ c word rest _ _
  simp [h, BreakpointTable.addrs]

theorem overlay_invariant_planted :
    (∀ bp ∈ Sample.planted.bptab.data, 0x1000 ≤ bp.addr ∧ bp.addr ≤ 0x1007) ∧
      (∀ bp ∈ Sample.planted.bptab.data, byteOf bp.code 0 = Sample.tracee.mem bp.addr) ∧
      (Sample.planted.state = .running → ∃ t, Child.stopped 1 Sample.trapped = .stopped 1 t ∧
        ∀ a, 0x1000 ≤ a → a ≤ 0x1007 + 7 →
          t.mem a = if a ∈ Sample.planted.bptab.addrs then 0xcc else Sample.tracee.mem a) :=
  overlay_invariant Sample.capstone Sample.quiet Sample.tracee.mem
    (Sample.reachable_planted Sample.capstone _ _ (freshBreak_of_empty rfl) (freshBreak_of_empty rfl)
      (freshBreak_of_empty rfl))
    fun _ => Sample.textPreserved Sample.planted rfl rfl

end Sdb
