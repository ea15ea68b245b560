import UnixProgramming.Sdb.OverlayInvariant

/-!
# One breakpoint per address

`set_break_point` reports an address that is already in the table and then adds
it once more.  As long as no `break` of a running process names such an address the
table has one entry per address, whatever the system answers.

* `nodup_of_reachable` — no two entries have the same address.
* `overlay_delete_line` — a `delete` gives the byte back and takes the address
  out of the table.
* `breakpoints_unique` — both, in every reachable state.
-/

namespace Sdb

open ByteMemory CString Requests Overlay

/-- One line of input keeps the addresses distinct, whatever is answered. -/
theorem nodup_dispatch (cs : Capstone) {d : Debugger} (hnd : d.bptab.addrs.Nodup) {line c : Str}
    {args : List Str} (hwords : dbgcmdParser line ' ' = c :: args) (hfresh : FreshBreak line d) :
    Yields (fun d' => d'.bptab.addrs.Nodup) (dispatch cs line (c :: args) c d) := by
  have hkeeps : ∀ d', Keeps d d' → d'.bptab.addrs.Nodup := by
    intro d' hk
    rw [hk.bptab]
    exact hnd
  have hsame : ∀ d', SameButOut d d' → d'.bptab.addrs.Nodup := fun d' hs => hkeeps d' hs.keeps
  refine dispatch_cases cs (P := Yields _) hsame ?load ((keeps_start cs d).yields.imp hkeeps)
    ((keeps_cont cs d).yields.imp hkeeps) ?point ((keeps_stepIn cs d).yields.imp hkeeps) ?delete
    ((looks_getSingleReg d _).yields.imp hsame) ((looks_getAllRegs d).yields.imp hsame)
    ((keeps_setReg d _).yields.imp hkeeps) ((looks_vmmap d).yields.imp hsame)
    ((looks_disasm cs d _).yields.imp hsame) ((looks_dump d _).yields.imp hsame)
    ((keeps_run cs d).yields.imp hkeeps)
  case load =>
    refine (looks_load d _).yields.imp fun d' hd' => ?_
    rw [hd'.1]
    exact hnd
  case point =>
    intro hc
    refine (pokes_setBreakPoint d _).yields.imp fun d' hd' => ?_
    rcases hd' with hs | ⟨hr, c', word, rest, code, out, heq, -, -, rfl⟩
    · exact hsame d' hs
    · cases heq
      exact BreakpointTable.nodup_add hnd (hfresh hr c word rest hwords hc)
  case delete =>
    refine (pokes_deleteBreakPoint d _).yields.imp fun d' hd' => ?_
    rcases hd' with hs | ⟨-, idx, out, -, rfl⟩
    · exact hsame d' hs
    · exact BreakpointTable.nodup_del hnd idx

/-- The addresses of the table are distinct in every reachable state. -/
theorem nodup_of_reachable {cs : Capstone} {env : Env} {d : Debugger} {w : World}
    (h : Reachable cs env FreshBreak d w) : d.bptab.addrs.Nodup := by
  induction h with
  | init => simp [Debugger.init, BreakpointTable.addrs]
  | step _ hfresh hr ih =>
      obtain ⟨c, args, hwords, -, hr⟩ := runs_commandLoop.1 hr
      exact (nodup_dispatch cs ih hwords hfresh).runs hr

/-- A line that deletes the entry `bp` of a running tracee's table. -/
structure Deletes (line : Str) (d : Debugger) (bp : BreakpointInfo) : Prop where
  running : d.state = .running
  words : ∃ c word rest, dbgcmdParser line ' ' = c :: word :: rest ∧
    c ∈ ArgCommand.delete.names ∧ d.bptab.includeIdx (atoi word) = true ∧
      d.bptab.atIdx (atoi word) = some bp

/-- With distinct addresses, a `delete` takes the address out of the table and
gives the byte at it back. -/
theorem overlay_delete_line {cs : Capstone} {env : Env} {orig : Memory} {d d' : Debugger}
    {w w' : World} {line : Str} {bp : BreakpointInfo}
    (hok : TextPreserved env orig d.textBegin d.textEnd)
    (h : (overlaySession orig d.textBegin d.textEnd).Holds d w) (hdel : Deletes line d bp)
    (hr : Runs (kernel env) (commandLoop cs line d) w (.done (.next d')) w') :
    bp.addr ∉ d'.bptab.addrs ∧
      ∃ t, w'.child = .stopped d'.pid t ∧ t.mem bp.addr = orig bp.addr := by
  obtain ⟨c, word, rest, hwords, hc, hinc, hat⟩ := hdel.words
  obtain ⟨f, t, rfl, htab, -⟩ := h.1 hdel.running
  have hne : c ≠ [] := ArgCommand.ne_nil_of_mem_names hc
  obtain ⟨c', args, hwords', -, hr⟩ := runs_commandLoop.1 hr
  rw [hwords] at hwords'
  cases hwords'
  rw [dispatch_argCommand cs .delete (ne_nil_of_words hwords hne) hc, ArgCommand.run,
    runs_deleteBreakPoint hok.grants hdel.running hinc hat] at hr
  obtain ⟨heq, rfl⟩ := hr
  cases heq
  obtain ⟨j, bp', hj, hget, hat'⟩ := BreakpointTable.atIdx_of_includeIdx hinc
  rw [hat] at hat'
  cases hat'
  refine ⟨?_, _, rfl, ?_⟩
  · simp only [Debugger.say_bptab, hj]
    intro hmem
    exact ((BreakpointTable.mem_addrs_del_of_nodup htab.table.distinct hget).1 hmem).2 rfl
  · have hbyte : byteOf bp.code 0 = orig bp.addr := htab.table.code bp (List.mem_of_getElem? hget)
    exact (Function.update_self _ _ _).trans hbyte

/-- As long as no `break` of a running process names an address of the table, no two
entries have the same address; so deleting an entry leaves no entry for its address and, where
the text is preserved, the program's own byte at it. -/
theorem breakpoints_unique (cs : Capstone) (env : Env) {d : Debugger} {w : World}
    (h : Reachable cs env FreshBreak d w) :
    d.bptab.addrs.Nodup ∧
      ∀ orig, TextPreserved env orig d.textBegin d.textEnd → ∀ line bp, Deletes line d bp →
        ∀ d' w', Runs (kernel env) (commandLoop cs line d) w (.done (.next d')) w' →
          bp.addr ∉ d'.bptab.addrs ∧
            ∃ t, w'.child = .stopped d'.pid t ∧ t.mem bp.addr = orig bp.addr := by
  refine ⟨nodup_of_reachable h, fun orig hok line bp hdel d' w' hr => ?_⟩
  have hl : d.state ≠ .noload := by simp [hdel.running]
  have hinv := (overlay_of_reachable orig h).2 hl hok
  exact overlay_delete_line hok hinv hdel hr

/-! ## The same address twice -/

namespace Sample

/-- The word the second `b 0x1000` reads: its low byte is the trap's. -/
def twiceCode : Word := readWord trapped.mem 0x1000

/-- The debugger after `b 0x1000` has been given twice. -/
def twice : Debugger :=
  { planted with
    bptab := planted.bptab.add 0x1000 twiceCode
    out := planted.out ++ [.alreadyExists 0] }

def twiceTrapped : Tracee :=
  { trapped with
    mem := writeWord trapped.mem 0x1000 ((twiceCode &&& 0xffffffffffffff00#64) ||| 0xcc#64) }

theorem runs_break_twice :
    Runs (kernel quiet) (commandLoop capstone "b 0x1000".toList planted)
      ⟨false, .stopped 1 trapped⟩ (.done (.next twice)) ⟨false, .stopped 1 twiceTrapped⟩ := by
  refine runs_commandLoop.2 ⟨"b".toList, ["0x1000".toList], ?_, by decide, ?_⟩
  · rw [dbgcmdParser_eq]
    rfl
  · refine ⟨_, _, kernel_peektext.2 (Or.inl ⟨rfl, rfl⟩), ?_⟩
    exact ⟨true, _, kernel_poketext.2 (Or.inl ⟨rfl, rfl⟩), rfl, rfl⟩

/-- `del 0` on a running sample. -/
theorem runs_delete {d : Debugger} {t : Tracee} (bp : BreakpointInfo) (hr : d.state = .running)
    (hpid : d.pid = 1) (hinc : d.bptab.includeIdx 0 = true) (hat : d.bptab.atIdx 0 = some bp) :
    Runs (kernel quiet) (commandLoop capstone "del 0".toList d) ⟨false, .stopped 1 t⟩
      (.done (.next ({ d with bptab := d.bptab.del 0 }.say (.deleted 0 bp.addr))))
      ⟨false, .stopped 1 { t with mem := Function.update t.mem bp.addr (byteOf bp.code 0) }⟩ := by
  refine runs_commandLoop.2 ⟨"del".toList, ["0".toList], ?_, by decide, ?_⟩
  · rw [dbgcmdParser_eq]
    rfl
  · have hidx : atoi "0".toList = 0 := by decide
    rw [← hidx] at hinc hat
    rw [dispatch_argCommand capstone .delete (by decide) (by decide), ArgCommand.run, ← hpid]
    exact (runs_deleteBreakPoint quiet_grants hr hinc hat).2 ⟨rfl, rfl⟩

end Sample

/-- Two `break` commands for one address: the table has it twice, and once both
entries are deleted the trap is still in the tracee. -/
theorem breakpoint_twice :
    ∃ env d w, Reachable Sample.capstone env (fun _ _ => True) d w ∧ ¬ d.bptab.addrs.Nodup ∧
      ∃ d' w', Reachable Sample.capstone env (fun _ _ => True) d' w' ∧ d'.bptab.addrs = [] ∧
        ∃ t, w'.child = .stopped d'.pid t ∧ Sample.tracee.mem 0x1000 = 0x90 ∧
          t.mem 0x1000 = 0xcc := by
  have hplanted := Sample.reachable_planted (G := fun _ _ => True) Sample.capstone
    (fun _ => False) (fun _ t _ t' => t' = t) trivial trivial trivial
  have htwice := hplanted.step trivial Sample.runs_break_twice
  have honce := htwice.step trivial
    (Sample.runs_delete ⟨0x9090909090909090, 0x1000⟩ rfl rfl (by decide) rfl)
  have hdel := honce.step trivial
    (Sample.runs_delete ⟨Sample.twiceCode, 0x1000⟩ rfl rfl (by decide) rfl)
  refine ⟨_, _, _, htwice, by decide, _, _, hdel, rfl, _, rfl, rfl, ?_⟩
  have hbyte : byteOf Sample.twiceCode 0 = 0xcc := by
    rw [Sample.twiceCode, byteOf_readWord_zero]
    decide
  have hput : ∀ m : Memory,
      Function.update m 0x1000 (byteOf Sample.twiceCode 0) (0x1000 : Addr) = 0xcc := fun m =>
    (Function.update_self _ _ _).trans hbyte
  exact hput (Function.update Sample.twiceTrapped.mem 0x1000 (byteOf 0x9090909090909090 0))

theorem breakpoints_unique_planted :
    Sample.planted.bptab.addrs.Nodup ∧
      ∀ orig, TextPreserved Sample.quiet orig 0x1000 0x1007 →
        ∀ line bp, Deletes line Sample.planted bp → ∀ d' w',
          Runs (kernel Sample.quiet)
            (commandLoop Sample.capstone line Sample.planted) ⟨false, .stopped 1 Sample.trapped⟩
            (.done (.next d')) w' →
          bp.addr ∉ d'.bptab.addrs ∧
            ∃ t, w'.child = .stopped d'.pid t ∧ t.mem bp.addr = orig bp.addr :=
  breakpoints_unique Sample.capstone _
    (Sample.reachable_planted Sample.capstone _ _ (freshBreak_of_empty rfl) (freshBreak_of_empty rfl)
      (freshBreak_of_empty rfl))

end Sdb
