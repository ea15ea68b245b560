import UnixProgramming.Machine.Overlay
import UnixProgramming.Sdb.Kernel

/-!
# What the shared parts of the commands do

One lemma for each private member function of the debugger, over any system
unless it says otherwise.

* `ensures_waitThenCheckExit` — the three kinds of status.
* `ensures_checkHit` — it prints, and at most changes the tracee's registers;
  `runs_checkHit_forCont`, what it does after `PTRACE_CONT`.
* `ensures_setReg` — it changes the registers, the flag and the output at most.
* `runs_deleteBreakPoint` — it writes the remembered byte back.
* `ensures_reputFrom` — with no request refused, the traps it plants.
* `ensures_start` — the five ways a start can go.
* `writeWord_trap`, `writeWord_restore` — the two one-byte pokes as updates.
-/

namespace Sdb

open ByteMemory CString Requests Overlay

/-- The byte of an `int3` instruction. -/
def int3 : Byte := 0xcc

/-! ## The two pokes -/

/-- Planting a trap changes one byte. -/
theorem writeWord_trap (m : Memory) (a : Addr) :
    writeWord m a ((readWord m a &&& 0xffffffffffffff00#64) ||| 0xcc#64) =
      Function.update m a int3 := by
  have h := writeWord_withLowByte m a 0xcc#64
  rw [withLowByte] at h
  exact h

/-- Restoring the low byte of a saved word changes one byte. -/
theorem writeWord_restore (m : Memory) (a : Addr) (code : Word) :
    writeWord m a
        ((readWord m a &&& 0xffffffffffffff00#64) ||| (code &&& 0x00000000000000ff#64)) =
      Function.update m a (byteOf code 0) :=
  writeWord_withLowByte m a code

/-! ## No request refused -/

/-- The memory of a stopped tracee can be read and written, and it can be stepped. -/
structure Env.Grants (env : Env) : Prop where
  peektext : ∀ p a, ¬ env.mayFail (.peektext p a)
  poketext : ∀ p a v, ¬ env.mayFail (.poketext p a v)
  singlestep : ∀ p, ¬ env.mayFail (.singlestep p)

/-- No request about a stopped tracee is refused. -/
structure Env.GrantsAll (env : Env) : Prop extends env.Grants where
  cont : ∀ p, ¬ env.mayFail (.cont p)
  getregs : ∀ p, ¬ env.mayFail (.getregs p)
  setregs : ∀ p regs, ¬ env.mayFail (.setregs p regs)

theorem Sample.quiet_grants : Sample.quiet.Grants :=
  ⟨fun _ _ h => h, fun _ _ _ h => h, fun _ h => h⟩

variable {env : Env} {F : Fault → World → Prop} {f : Bool}

section Granted

variable {α : Type} {Q : α → World → Prop} {p : Int} {t : Tracee} {refused granted : Dbg α}
  {o : Result Fault α} {w' : World}

theorem runs_peektext (hg : env.Grants) {addr : Word} {k : Word → Dbg α} :
    Runs (kernel env) (sys (.peektext p addr) >>= k) ⟨f, .stopped p t⟩ o w' ↔
      Runs (kernel env) (k (readWord t.mem addr)) ⟨f, .stopped p t⟩ o w' := by
  simp [hg.peektext]

/-- A granted request that is tested for success: the branch of its failure is
not taken. -/
theorem runs_poketext (hg : env.Grants) {addr data : Word} :
    Runs (kernel env)
        (sys (.poketext p addr data) >>= fun ok => if ok = false then refused else granted)
        ⟨f, .stopped p t⟩ o w' ↔
      Runs (kernel env) granted ⟨f, .stopped p { t with mem := writeWord t.mem addr data }⟩ o w' := by
  simp [hg.poketext]

theorem runs_singlestep (hg : env.Grants) :
    Runs (kernel env) (sys (.singlestep p) >>= fun ok => if ok = false then refused else granted)
        ⟨f, .stopped p t⟩ o w' ↔
      Runs (kernel env) granted ⟨f, .resumed p .singlestep t⟩ o w' := by
  simp [hg.singlestep]

theorem runs_cont (hg : ¬ env.mayFail (.cont p)) :
    Runs (kernel env) (sys (.cont p) >>= fun ok => if ok = false then refused else granted)
        ⟨f, .stopped p t⟩ o w' ↔
      Runs (kernel env) granted ⟨f, .resumed p .cont t⟩ o w' := by
  simp [hg]

theorem runs_getregs (hg : ¬ env.mayFail (.getregs p)) {k : Option UserRegs → Dbg α} :
    Runs (kernel env) (sys (.getregs p) >>= k) ⟨f, .stopped p t⟩ o w' ↔
      Runs (kernel env) (k (some t.regs)) ⟨f, .stopped p t⟩ o w' := by
  simp [hg]

theorem runs_setregs {regs : UserRegs} (hg : ¬ env.mayFail (.setregs p regs)) :
    Runs (kernel env) (sys (.setregs p regs) >>= fun ok => if ok = false then refused else granted)
        ⟨f, .stopped p t⟩ o w' ↔
      Runs (kernel env) granted ⟨f, .stopped p { t with regs := regs }⟩ o w' := by
  simp [hg]

theorem ensures_peektext (hg : env.Grants) {addr : Word} {k : Word → Dbg α} :
    Ensures (kernel env) F Q (sys (.peektext p addr) >>= k) ⟨f, .stopped p t⟩ ↔
      Ensures (kernel env) F Q (k (readWord t.mem addr)) ⟨f, .stopped p t⟩ :=
  ensures_congr fun _ _ => runs_peektext hg

theorem ensures_poketext (hg : env.Grants) {addr data : Word} :
    Ensures (kernel env) F Q
        (sys (.poketext p addr data) >>= fun ok => if ok = false then refused else granted)
        ⟨f, .stopped p t⟩ ↔
      Ensures (kernel env) F Q granted
        ⟨f, .stopped p { t with mem := writeWord t.mem addr data }⟩ :=
  ensures_congr fun _ _ => runs_poketext hg

end Granted

/-! ## Waiting -/

variable {Q : Debugger → World → Prop} {t : Tracee} {d : Debugger}

/-- Waiting for a tracee that was let run: it has stopped, it has exited and is
released, or it was killed and the assertion fails. -/
theorem runs_waitThenCheckExit {how : Resume} {o : Result Fault Debugger} {w' : World} :
    Runs (kernel env) (waitThenCheckExit d) ⟨f, .resumed d.pid how t⟩ o w' ↔
      ∃ st t', env.stops how t st t' ∧
        match st with
        | .stopped _ => o = .done d ∧ w' = ⟨f, .stopped d.pid t'⟩
        | .exited code =>
            o = .done (d.say (.terminated d.pid (.exited code))).release ∧ w' = ⟨f, .absent⟩
        | .signaled _ => o = .fault .assertion ∧ w' = ⟨f, .absent⟩ := by
  unfold waitThenCheckExit
  simp only [Prog.ask_bind, runs_request, kernel_waitpid_resumed]
  constructor
  · rintro ⟨x, w', ⟨st, t', rfl, hst, rfl⟩, h⟩
    refine ⟨st, t', hst, ?_⟩
    cases st <;> exact h
  · rintro ⟨st, t', hst, h⟩
    refine ⟨some st, _, ⟨st, t', rfl, hst, rfl⟩, ?_⟩
    cases st <;> exact h

theorem ensures_waitThenCheckExit {how : Resume} :
    Ensures (kernel env) F Q (waitThenCheckExit d) ⟨f, .resumed d.pid how t⟩ ↔
      ∀ st t', env.stops how t st t' →
        match st with
        | .stopped _ => Q d ⟨f, .stopped d.pid t'⟩
        | .exited code => Q (d.say (.terminated d.pid (.exited code))).release ⟨f, .absent⟩
        | .signaled _ => F .assertion ⟨f, .absent⟩ := by
  unfold waitThenCheckExit
  simp only [ensures_ask_bind, kernel_waitpid_resumed]
  constructor
  · intro h st t' hst
    have := h (some st) _ ⟨st, t', rfl, hst, rfl⟩
    cases st <;> exact this
  · rintro h x w' ⟨st, t', rfl, hst, rfl⟩
    have := h st t' hst
    cases st <;> exact this

/-! ## Looking for a breakpoint -/

theorem ensures_entryAt {addr : Word} {w : World} {Q : BreakpointInfo → World → Prop}
    (hinc : d.bptab.includeAddr addr = true)
    (hQ : ∀ bp ∈ d.bptab.data, bp.addr = addr → d.bptab.atAddr addr = some bp → Q bp w) :
    Ensures (kernel env) F Q (entryAt d.bptab addr) w := by
  obtain ⟨bp, hmem, hat, haddr⟩ := BreakpointTable.atAddr_of_includeAddr hinc
  rw [entryAt, hat]
  exact hQ bp hmem haddr hat

/-- `check_hit_break_point_or_not` only prints, and at most changes the registers. -/
theorem ensures_checkHit (cs : Capstone) (cbpt : CandBp) :
    Ensures (kernel env) F
      (fun d' w' => SameButOut d d' ∧ ∃ regs, w' = ⟨f, .stopped d.pid { t with regs := regs }⟩)
      (checkHitBreakPointOrNot cs cbpt d) ⟨f, .stopped d.pid t⟩ := by
  have hsame : ∀ regs : UserRegs, ∀ addr : Word, d.bptab.includeAddr addr = true →
      Ensures (kernel env) F
        (fun d' w' => SameButOut d d' ∧ ∃ regs, w' = ⟨f, .stopped d.pid { t with regs := regs }⟩)
        (do let bp ← entryAt d.bptab addr
            pure (translate cs addr bp.code (d.say (.info "** breakpoint @"))).2)
        ⟨f, .stopped d.pid { t with regs := regs }⟩ := by
    intro regs addr hinc
    rw [ensures_bind]
    refine ensures_entryAt hinc fun bp _ _ _ => ?_
    exact ⟨(sameButOut_say d _).trans (sameButOut_translate cs addr bp.code _), regs, rfl⟩
  unfold checkHitBreakPointOrNot
  rw [Prog.ask_bind, ensures_request]
  intro x w₁ hx
  rcases kernel_getregs.1 hx with ⟨rfl, rfl⟩ | ⟨rfl, -, rfl⟩
  · cases hinc : d.bptab.includeAddr (candAddr cbpt t.regs.rip) with
    | false =>
        simp only [hinc, if_true]
        exact ⟨sameButOut_say d _, t.regs, rfl⟩
    | true =>
        simp only [hinc, Bool.true_eq_false, if_false]
        split
        · rw [Prog.ask_bind, ensures_request]
          intro y w₂ hy
          rcases kernel_setregs.1 hy with ⟨rfl, rfl⟩ | ⟨rfl, -, rfl⟩
          · exact hsame _ _ hinc
          · exact ⟨sameButOut_say d _, t.regs, rfl⟩
        · exact hsame t.regs _ hinc
  · exact ⟨sameButOut_say d _, t.regs, rfl⟩

/-- After `PTRACE_CONT`, with the registers read and written: where the byte
before `rip` is at an address of the table, `rip` is set back and a breakpoint
is reported, and otherwise nothing changes. -/
theorem runs_checkHit_forCont {cs : Capstone} (hget : ¬ env.mayFail (.getregs d.pid))
    (hset : ∀ regs, ¬ env.mayFail (.setregs d.pid regs)) {o : Result Fault Debugger} {w' : World} :
    Runs (kernel env) (checkHitBreakPointOrNot cs .forCont d) ⟨f, .stopped d.pid t⟩ o w' ↔
      match d.bptab.atAddr (t.regs.rip - 1) with
      | some bp =>
          o = .done (translate cs (t.regs.rip - 1) bp.code (d.say (.info "** breakpoint @"))).2 ∧
            w' = ⟨f, .stopped d.pid { t with regs := { t.regs with rip := t.regs.rip - 1 } }⟩
      | none => o = .done (d.say (.info "** hit no breakpoint\n")) ∧ w' = ⟨f, .stopped d.pid t⟩ := by
  unfold checkHitBreakPointOrNot
  rw [runs_getregs hget]
  simp only [candAddr, if_true]
  by_cases hB : t.regs.rip - 1 ∈ d.bptab.addrs
  · have hinc := BreakpointTable.includeAddr_iff.2 hB
    obtain ⟨bp, -, hat, -⟩ := BreakpointTable.atAddr_of_includeAddr hinc
    rw [hinc, if_neg (by decide), runs_setregs (hset _), entryAt, hat]
    exact Iff.rfl
  · rw [if_pos (BreakpointTable.includeAddr_eq_false_iff.2 hB),
      BreakpointTable.atAddr_eq_none hB]
    exact Iff.rfl

/-! ## Setting a register -/

/-- `set` changes the registers of a stopped tracee, the flag and the output at most. -/
theorem ensures_setReg (cmds : List Str) :
    Ensures (kernel env) F
      (fun d' w' => ∃ b out regs, d' = { d with lastCmdIsSetRip := b, out := out } ∧
        w' = ⟨f, .stopped d.pid { t with regs := regs }⟩)
      (setReg cmds d) ⟨f, .stopped d.pid t⟩ := by
  have hsame : ∀ d', SameButOut d d' → ∃ b out regs,
      d' = { d with lastCmdIsSetRip := b, out := out } ∧
        (⟨f, .stopped d.pid t⟩ : World) = ⟨f, .stopped d.pid { t with regs := regs }⟩ := by
    rintro d' ⟨out, rfl⟩
    exact ⟨d.lastCmdIsSetRip, out, t.regs, rfl, rfl⟩
  unfold setReg
  rw [ensures_ite]
  refine ⟨fun _ => hsame _ (sameButOut_say d _), fun _ => ?_⟩
  match cmds with
  | [] => exact hsame _ (sameButOut_say d _)
  | [_] => exact hsame _ (sameButOut_say d _)
  | [_, _] => exact hsame _ (sameButOut_say d _)
  | _ :: tarReg :: val :: _ =>
      change Ensures _ _ _ (sys (.getregs d.pid) >>= _) _
      rw [ensures_ask_bind]
      intro x w₁ hx
      rcases kernel_getregs.1 hx with ⟨rfl, rfl⟩ | ⟨rfl, -, rfl⟩
      · have hs := sameButOut_regHandler tarReg (BitVec.ofInt 64 (strtol val 0)) t.regs d
        simp only []
        generalize regHandler tarReg (BitVec.ofInt 64 (strtol val 0)) t.regs d = reg at hs ⊢
        obtain ⟨res, regs, d₁⟩ := reg
        obtain ⟨out, rfl⟩ := hs
        simp only [ensures_ite, ensures_ask_bind]
        refine ⟨fun _ => ⟨_, out, t.regs, rfl, rfl⟩, fun _ y w₂ hy => ?_⟩
        rcases kernel_setregs.1 hy with ⟨rfl, rfl⟩ | ⟨rfl, -, rfl⟩
        · exact ⟨nofun, fun _ => ⟨fun _ => ⟨true, out, _, rfl, rfl⟩, fun _ => ⟨_, out, _, rfl, rfl⟩⟩⟩
        · exact ⟨fun _ => ⟨_, _, t.regs, rfl, rfl⟩, fun h => absurd rfl h⟩
      · exact hsame _ (sameButOut_say d _)

/-! ## Deleting a breakpoint -/

/-- `delete` on an entry of the table: the byte the entry remembers is written
back and the entry is gone. -/
theorem runs_deleteBreakPoint (hg : env.Grants) (hr : d.state = .running) {c word : Str}
    {l : List Str} {bp : BreakpointInfo} (hinc : d.bptab.includeIdx (atoi word) = true)
    (hat : d.bptab.atIdx (atoi word) = some bp) {o : Result Fault Debugger} {w' : World} :
    Runs (kernel env) (deleteBreakPoint (c :: word :: l) d) ⟨f, .stopped d.pid t⟩ o w' ↔
      o = .done ({ d with bptab := d.bptab.del (atoi word) }.say (.deleted (atoi word) bp.addr)) ∧
        w' = ⟨f, .stopped d.pid
          { t with mem := Function.update t.mem bp.addr (byteOf bp.code 0) }⟩ := by
  have hinc' : ¬ d.bptab.includeIdx (atoi word) = false := by simp [hinc]
  unfold deleteBreakPoint
  rw [if_neg (not_not.2 hr)]
  simp only [if_neg hinc']
  rw [entryAtIdx, hat, Prog.done_bind, runs_peektext hg, runs_poketext hg, writeWord_restore]
  exact Iff.rfl

/-! ## Planting every trap again -/

/-- With no request refused, the loop over the table plants a trap at each
address from `beginAddr` on and changes nothing else. -/
theorem ensures_reputFrom (hg : env.Grants) (beginAddr : Word) (l : List BreakpointInfo)
    (hl : ∀ bp ∈ l, beginAddr ≤ bp.addr) (B : List Addr) (orig : Memory)
    (hmem : t.mem = overlay B int3 orig) :
    Ensures (kernel env) F
      (fun d' w' => d' = d ∧ w' = ⟨f, .stopped d.pid
        { t with mem := overlay (B ++ l.map BreakpointInfo.addr) int3 orig }⟩)
      (reputFrom beginAddr l d) ⟨f, .stopped d.pid t⟩ := by
  induction l generalizing t B with
  | nil => exact ⟨rfl, by rw [List.map_nil, List.append_nil, ← hmem]⟩
  | cons bp rest ih =>
      have hge : ¬ bp.addr < beginAddr := BitVec.not_lt.2 (hl bp (List.mem_cons_self ..))
      have hput : Function.update t.mem bp.addr int3 = overlay (B ++ [bp.addr]) int3 orig := by
        rw [hmem]
        exact update_overlay_insert (by simp)
      rw [reputFrom, if_neg hge, ensures_peektext hg, ensures_poketext hg, writeWord_trap]
      have := ih (t := { t with mem := Function.update t.mem bp.addr int3 })
        (fun b hb => hl b (List.mem_cons_of_mem _ hb)) (B ++ [bp.addr]) hput
      simpa using this

/-! ## Starting -/

/-- `start` on a loaded program: the fork fails, or the child comes back to the
loop because it cannot be traced or executed, or its first status is not a stop
and the assertion fails, or the parent plants the traps and is running. -/
theorem ensures_start {cs : Capstone} {w : World} (hl : d.state = .loaded)
    (hfork : env.mayFail .fork → Q ({ d with pid := -1 }.say (.perror "** fork")) w)
    (htraceme : env.mayFail .traceme →
      Q ({ d with pid := 0 }.say (.perror "** ptrace TRACEME")) ⟨true, .absent⟩)
    (hexecvp : env.mayFail (.execvp d.progPath) →
      Q ({ d with pid := 0 }.say (.perror "** execvp")) ⟨true, .absent⟩)
    (hends : ∀ st, (∀ sig, st ≠ .stopped sig) → env.startEnds st →
      F .assertion { w with child := .absent })
    (hboot : ∀ pid t, 0 < pid → env.boots t →
      Ensures (kernel env) F
        (fun d₁ w₁ => ∃ out mem, d₁ = { d with pid := pid, out := out } ∧
          w₁ = ⟨w.forked, .stopped pid { t with mem := mem }⟩ ∧
          ∀ regs out', Q
            { d with pid := pid, state := .running, lastCmdIsSetRip := false, out := out' }
            ⟨w.forked, .stopped pid ⟨regs, mem⟩⟩)
        (reputAllBreakpointsFrom d.textBegin { d with pid := pid })
        ⟨w.forked, .stopped pid t⟩) :
    Ensures (kernel env) F Q (start cs d) w := by
  unfold start
  rw [if_neg (not_not.2 hl), ensures_ask_bind]
  intro (pid : Int) w₁ hpid
  rcases hpid with ⟨rfl, hf, rfl⟩ | ⟨rfl, rfl⟩ | ⟨hpos, rfl⟩
  · exact hfork hf
  · change Ensures (kernel env) F Q (sys .traceme >>= _) _
    rw [ensures_ask_bind]
    rintro traced w₂ ⟨htr, rfl⟩
    rw [ensures_ite]
    refine ⟨fun hfail => ?_, fun _ => ?_⟩
    · rcases htr with rfl | hf
      · cases hfail
      · exact htraceme hf
    · rw [ensures_ask_bind]
      rintro _ w₃ ⟨hf, rfl⟩
      exact hexecvp hf
  · have hpos : (0 : Int) < pid := hpos
    have h1 : pid ≠ -1 := by omega
    have h0 : pid ≠ 0 := by omega
    simp only [if_neg h1, if_neg h0]
    rw [ensures_ask_bind]
    intro x w₂ hx
    rcases kernel_waitpid_starting.1 hx with ⟨sig, t, rfl, hb, rfl⟩ | ⟨st, rfl, hno, he, rfl⟩
    · rw [ensures_ask_bind]
      rintro _ w₃ rfl
      refine (hboot pid t hpos hb).bind ?_
      rintro d₁ w₁ ⟨out, mem, rfl, rfl, hQ⟩
      refine (ensures_checkHit cs .forStart).bind ?_
      rintro d₂ w₂ ⟨⟨out₂, rfl⟩, regs, rfl⟩
      exact hQ regs _
    · cases st with
      | exited code => exact hends _ hno he
      | signaled sig => exact hends _ hno he
      | stopped sig => exact absurd rfl (hno sig)

end Sdb
