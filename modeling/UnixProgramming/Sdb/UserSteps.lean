import UnixProgramming.Sdb.MissingArgument
import UnixProgramming.Sdb.Registers
import UnixProgramming.Sdb.TraceeRequests
import UnixProgramming.Sdb.UserView

/-!
# Every command is a step on the user's view

Over any program whose instructions have nothing to do with the breakpoints,
each command of the debugger does to the traced process and prints what its
user sees happen to the program itself.

* `Machine.Disciplined` — what is asked of the program.
* `Allowed` — what is asked of `break` and `set`.
* `View.Ok` — the invariant over the table, the members and the native tracee.
* `Performs` — a program of the debugger is a step on the view.
* `performs_live`, `performs_idle` — every command, on a running program and
  while none runs.
-/

namespace Sdb

open ByteMemory CString Requests Overlay Stepping

/-! ## The program and the lines -/

/-- The program of the machine: of the states `P` it runs through, none has
anything to do with breakpoints at addresses of `S`. -/
structure Machine.Disciplined (m : Machine) (S : Set Addr) (P : Tracee → Prop) : Prop where
  image : P m.image
  next : ∀ {s s'}, P s → m.native s = .next s' → P s'
  undisturbed : ∀ {s}, P s → ∀ B : List Addr, (∀ a ∈ B, a ∈ S) → Undisturbed m.native B s

/-- A breakpoint in the text is set at an address of `S` that is not in the
table, and a register is set to go on within `P`. -/
def Allowed (S : Set Addr) (P : Tracee → Prop) (c : Command) (v : View) : Prop :=
  match v.child, c with
  | some _, .break a =>
      ¬ (a < v.members.textBegin ∨ v.members.textEnd < a) → a ∈ S ∧ a ∉ v.members.bptab.addrs
  | some (_, s), .set reg value =>
      P { s with regs := (regHandler reg value s.regs v.members).2.1 }
  | _, _ => True

/-- The table remembers bytes of the program, at distinct addresses of `S`. -/
structure Remembers (m : Machine) (S : Set Addr) (d : Debugger) : Prop where
  inS : ∀ bp ∈ d.bptab.data, bp.addr ∈ S
  begins : ∀ bp ∈ d.bptab.data, d.textBegin ≤ bp.addr
  codes : ∀ bp ∈ d.bptab.data, byteOf bp.code 0 = m.image.mem bp.addr
  distinct : d.bptab.addrs.Nodup

/-- The members go with the native tracee, which is in a state of `P` and has
the bytes the table remembers still. -/
structure View.Ok (m : Machine) (S : Set Addr) (P : Tracee → Prop) (v : View) : Prop where
  idle : v.child = none → v.members.state ≠ .running
  running : ∀ {p s}, v.child = some (p, s) → v.members.state = .running
  pid : ∀ {p s}, v.child = some (p, s) → v.members.pid = p
  within : ∀ {p s}, v.child = some (p, s) → P s
  text : ∀ {p s}, v.child = some (p, s) → Set.EqOn s.mem m.image.mem S
  noload : v.members.state = .noload → v.members.bptab = ⟨[]⟩
  table : Remembers m S v.members

section Ok

variable {m : Machine} {S : Set Addr} {P : Tracee → Prop} {d : Debugger} {p : Int} {s : Tracee}

theorem View.Ok.of_live (hr : d.state = .running) (hpid : d.pid = p) (hs : P s)
    (htext : Set.EqOn s.mem m.image.mem S) (htable : Remembers m S d) :
    View.Ok m S P ⟨d, some (p, s)⟩ where
  idle := by
    intro hc
    cases hc
  running _ := hr
  pid := by
    intro q u hc
    cases hc
    exact hpid
  within := by
    intro q u hc
    cases hc
    exact hs
  text := by
    intro q u hc
    cases hc
    exact htext
  noload := by
    intro hn
    rw [show d.state = .running from hr] at hn
    cases hn
  table := htable

theorem View.Ok.of_idle (hr : d.state ≠ .running) (hn : d.state = .noload → d.bptab = ⟨[]⟩)
    (htable : Remembers m S d) : View.Ok m S P ⟨d, none⟩ where
  idle _ := hr
  running := by
    intro q u hc
    cases hc
  pid := by
    intro q u hc
    cases hc
  within := by
    intro q u hc
    cases hc
  text := by
    intro q u hc
    cases hc
  noload := hn
  table := htable

end Ok

/-! ## Programs that are steps -/

/-- The result of a command that ended with this fault or these members. -/
def ended (e : Option Fault) (d : Debugger) : Result Fault Debugger :=
  match e with
  | none => .done d
  | some e => .fault e

/-- From the view `v`, the program does what the step `T` says. -/
def Performs (m : Machine) (p : Dbg Debugger) (v : View) (T : Option Fault → View → Prop) : Prop :=
  ∀ o w', Runs (kernel m.env) p v.world o w' ↔
    ∃ e v', T e v' ∧ o = ended e v'.members ∧ w' = v'.world

section Performs

variable {cs : Capstone} {m : Machine} {S : Set Addr} {P : Tracee → Prop} {d : Debugger} {p : Int}
  {s : Tracee} {v v₁ : View} {q : Dbg Debugger}

theorem Machine.grantsAll (m : Machine) : m.env.GrantsAll where
  peektext _ _ h := h
  poketext _ _ _ h := h
  singlestep _ h := h
  cont _ h := h
  getregs _ h := h
  setregs _ _ h := h

theorem performs_ends (h : ∀ o w', Runs (kernel m.env) q v.world o w' ↔
    o = .done v₁.members ∧ w' = v₁.world) : Performs m q v (Ends v₁) := by
  intro o w'
  rw [h]
  constructor
  · rintro ⟨rfl, rfl⟩
    exact ⟨none, v₁, ⟨rfl, rfl⟩, rfl, rfl⟩
  · rintro ⟨e, v', ⟨rfl, rfl⟩, rfl, rfl⟩
    exact ⟨rfl, rfl⟩

/-- A command that only prints. -/
theorem performs_pure (h : v₁.world = v.world) : Performs m (pure v₁.members) v (Ends v₁) :=
  performs_ends fun o w' => by rw [h, Prog.pure_eq, runs_done]

/-- A command that goes on with the answer of a parser. -/
theorem performs_parsed {α : Type} {answer : Except ParserFault α} {k : α → Dbg Debugger}
    {T : α → Option Fault → View → Prop} (h : ∀ a, answer = .ok a → Performs m (k a) v (T a)) :
    Performs m (liftParser answer >>= k) v (Parsed v answer T) := by
  cases answer with
  | ok a => exact h a rfl
  | error f =>
      intro o w'
      constructor
      · rintro ⟨rfl, rfl⟩
        exact ⟨some (.parser f), v, ⟨rfl, rfl⟩, rfl, rfl⟩
      · rintro ⟨e, v', ⟨rfl, rfl⟩, rfl, rfl⟩
        exact ⟨rfl, rfl⟩

/-! ## On a running program -/

theorem View.Ok.live (h : View.Ok m S P ⟨d, some (p, s)⟩) (hm : m.Disciplined S P) :
    Live m.native d s := by
  refine ⟨h.running rfl, ?_, ?_⟩
  · intro bp hbp
    rw [h.table.codes bp hbp]
    exact (h.text rfl (h.table.inS bp hbp)).symm
  · have hafter : ∀ n s u, P s → after m.native n s = some u → P u := by
      intro n
      induction n with
      | zero =>
          rintro s u hs hu
          cases hu
          exact hs
      | succ n ih =>
          intro s u hs hu
          obtain ⟨s₁, hnext, hrest⟩ := after_succ_eq_some.1 hu
          exact ih s₁ u (hm.next hs hnext) hrest
    intro n u hu
    refine hm.undisturbed (hafter n s u (h.within rfl) hu) _ fun a ha => ?_
    obtain ⟨bp, hbp, rfl⟩ := BreakpointTable.mem_addrs.1 ha
    exact h.table.inS bp hbp

/-- `si` and `cont` are steps of the native program. -/
theorem performs_resumes (c : RunCmd) (hlive : Live m.native d s) :
    Performs m (c.run cs d) ⟨d, some (d.pid, s)⟩ (Resumes cs m c d d.pid s) := by
  intro o w'
  have htracee : OfTracee (c.run cs d) := by
    cases c with
    | si => exact ofTracee_stepIn
    | cont => exact ofTracee_cont
  have hnot : ¬ (View.world ⟨d, some (d.pid, s)⟩).Starting := by
    rintro ⟨q, hq⟩
    cases hq
  have hmatches : Matches m.native d.pid d.bptab.addrs d (.live s d.lastCmdIsSetRip) :=
    ⟨rfl, rfl, rfl, hlive⟩
  have hworld : ∀ (r : Report) (a : NativeState),
      (View.ofNative d.pid (a.members (r.print cs d)) a).world = a.world false d.pid d.bptab.addrs := by
    intro r a
    obtain ⟨out, hout⟩ : SameButOut d (r.print cs d) := sameButOut_print r
    rw [hout]
    cases a <;> rfl
  have hmembers : ∀ (e : Debugger) (a : NativeState), (View.ofNative d.pid e a).members = e := by
    intro e a
    cases a <;> rfl
  have hmay : m.env.mayFail = (hardware m.native).mayFail := rfl
  have hstops : m.env.stops = (hardware m.native).stops := rfl
  have henv : Runs (kernel m.env) (c.run cs d) (View.world ⟨d, some (d.pid, s)⟩) o w' ↔
      Runs (kernel (hardware m.native)) (c.run cs d) (View.world ⟨d, some (d.pid, s)⟩) o w' :=
    runs_congr_env hmay hstops htracee hnot
  refine henv.trans ((runs_runCmd (f := false) hmatches).trans ?_)
  constructor
  · rintro ⟨r, a', hstep, rfl, rfl⟩
    exact ⟨none, _, ⟨r, a', hstep, rfl, rfl⟩, by rw [hmembers]; rfl, (hworld r a').symm⟩
  · rintro ⟨e, v', ⟨r, a', hstep, rfl, rfl⟩, rfl, rfl⟩
    exact ⟨r, a', hstep, by rw [hmembers]; rfl, hworld r a'⟩

/-! ## The commands on a running program -/

/-- The members change, but not their table. -/
theorem world_of_bptab {d' : Debugger} (h : d'.bptab = d.bptab) (child : Option (Int × Tracee)) :
    View.world ⟨d', child⟩ = View.world ⟨d, child⟩ := by
  rw [View.world, View.world]
  simp only [h]

theorem performs_same {d' : Debugger} {child : Option (Int × Tracee)} (h : d'.bptab = d.bptab) :
    Performs m (pure d') ⟨d, child⟩ (Ends ⟨d', child⟩) := by
  have hworld := world_of_bptab h child
  exact performs_pure hworld

/-- A command with too few words after its name. -/
theorem performs_few (k : ArgCommand) (hd : d.state = k.state) {c : Str} (args : List Str)
    (hfew : args.length < k.needed) {child : Option (Int × Tracee)} :
    Performs m (k.run cs (c :: args) d) ⟨d, child⟩
      (Ends ⟨d.say (.err k.missingText), child⟩) := by
  rw [argCommand_few cs k hfew hd]
  exact performs_same rfl

theorem performs_break (hr : d.state = .running) (c word : Str) (l : List Str) :
    Performs m (setBreakPoint (c :: word :: l) d) ⟨d, some (d.pid, s)⟩
      (LiveStep cs m d d.pid s (.break (breakAddr word))) := by
  have hplant : ∀ d', d'.pid = d.pid → d'.bptab = d.bptab →
      ∀ code, code = readWord (s.trapped d.bptab.addrs).mem (breakAddr word) →
      Performs m (plantBreakPoint (breakAddr word) d') ⟨d, some (d.pid, s)⟩
        (Ends ⟨{ d' with bptab := d.bptab.add (breakAddr word) code }, some (d.pid, s)⟩) := by
    rintro d' hpid hbptab code rfl
    apply performs_ends
    intro o w'
    have hput : Function.update (s.trapped d.bptab.addrs).mem (breakAddr word) int3 =
        overlay (d.bptab.addrs ++ [breakAddr word]) int3 s.mem := update_overlay_insert (by simp)
    unfold plantBreakPoint
    rw [hpid, View.world]
    simp only []
    rw [runs_peektext m.grantsAll.toGrants, runs_poketext m.grantsAll.toGrants, writeWord_trap,
      hput, hbptab, View.world]
    simp only [BreakpointTable.addrs_add]
    exact Iff.rfl
  unfold setBreakPoint
  rw [if_neg (not_not.2 hr)]
  simp only [LiveStep]
  by_cases hout : breakAddr word < d.textBegin ∨ d.textEnd < breakAddr word
  · rw [if_pos hout, if_pos hout]
    exact performs_same rfl
  · rw [if_neg hout, if_neg hout]
    by_cases hinc : d.bptab.includeAddr (breakAddr word) = true
    · rw [if_pos hinc, if_pos hinc]
      exact hplant (d.say _) rfl rfl _ rfl
    · rw [if_neg hinc, if_neg hinc]
      exact hplant d rfl rfl _ rfl

theorem performs_delete (hr : d.state = .running) (hnd : d.bptab.addrs.Nodup)
    (hcodes : ∀ bp ∈ d.bptab.data, byteOf bp.code 0 = s.mem bp.addr) (c word : Str)
    (l : List Str) :
    Performs m (deleteBreakPoint (c :: word :: l) d) ⟨d, some (d.pid, s)⟩
      (LiveStep cs m d d.pid s (.delete (atoi word))) := by
  simp only [LiveStep]
  cases hinc : d.bptab.includeIdx (atoi word) with
  | false =>
      have hat : d.bptab.atIdx (atoi word) = none := by
        rw [BreakpointTable.includeIdx, decide_eq_false_iff_not] at hinc
        rw [BreakpointTable.atIdx]
        split
        · rfl
        · exact List.getElem?_eq_none (by omega)
      unfold deleteBreakPoint
      rw [if_neg (not_not.2 hr), hat]
      simp only [if_pos hinc]
      exact performs_same rfl
  | true =>
      obtain ⟨j, bp, hj, hget, hat⟩ := BreakpointTable.atIdx_of_includeIdx hinc
      have hrestore : Function.update (s.trapped d.bptab.addrs).mem bp.addr (byteOf bp.code 0) =
          overlay (d.bptab.del (atoi word)).addrs int3 s.mem := by
        rw [hcodes bp (List.mem_of_getElem? hget), hj]
        exact update_overlay_remove fun x => BreakpointTable.mem_addrs_del_of_nodup hnd hget
      rw [hat]
      apply performs_ends
      intro o w'
      refine (runs_deleteBreakPoint m.grantsAll.toGrants hr hinc hat).trans ?_
      rw [hrestore]
      exact Iff.rfl

theorem performs_get (hr : d.state = .running) (c reg : Str) (l : List Str) :
    Performs m (getSingleReg (c :: reg :: l) d) ⟨d, some (d.pid, s)⟩
      (LiveStep cs m d d.pid s (.get reg)) := by
  have hsame := sameButOut_regHandler reg 0 s.regs d
  unfold getSingleReg
  rw [if_neg (not_not.2 hr)]
  simp only [LiveStep]
  apply performs_ends
  intro o w'
  rw [View.world]
  refine (runs_getregs (m.grantsAll.getregs _)).trans ?_
  obtain ⟨out, hout⟩ := hsame
  simp only [Tracee.trapped_regs, hout]
  by_cases hval : (regHandler reg 0 s.regs d).1 = -1
  · simp only [if_pos hval]
    exact Iff.rfl
  · simp only [if_neg hval]
    exact Iff.rfl

theorem performs_set (hr : d.state = .running) (c reg word : Str) (l : List Str) :
    Performs m (setReg (c :: reg :: word :: l) d) ⟨d, some (d.pid, s)⟩
      (LiveStep cs m d d.pid s (.set reg (BitVec.ofInt 64 (strtol word 0)))) := by
  have hsame := sameButOut_regHandler reg (BitVec.ofInt 64 (strtol word 0)) s.regs d
  have hruns : ∀ o w', Runs (kernel m.env) (setReg (c :: reg :: word :: l) d)
      (View.world ⟨d, some (d.pid, s)⟩) o w' ↔ _ := fun o w' =>
    runs_setReg hr (m.grantsAll.getregs _) (m.grantsAll.setregs _)
  simp only [LiveStep]
  rw [Tracee.trapped_regs] at hruns
  generalize regHandler reg (BitVec.ofInt 64 (strtol word 0)) s.regs d = res at hsame hruns ⊢
  obtain ⟨val, regs, d'⟩ := res
  obtain ⟨out, rfl⟩ := hsame
  by_cases hval : val = -1
  · simp only [if_pos hval] at hruns ⊢
    exact performs_ends hruns
  · simp only [if_neg hval] at hruns ⊢
    exact performs_ends hruns

theorem performs_disasm (hr : d.state = .running) (c word : Str) (l : List Str) :
    Performs m (disasm cs (c :: word :: l) d) ⟨d, some (d.pid, s)⟩
      (LiveStep cs m d d.pid s (.disasm (breakAddr word))) := by
  simp only [LiveStep]
  by_cases hout : breakAddr word < d.textBegin ∨ d.textEnd < breakAddr word
  · unfold disasm
    rw [if_neg (not_not.2 hr), if_pos hout]
    simp only []
    rw [if_pos (show BitVec.ofInt 64 (strtol word 0) < d.textBegin ∨
      d.textEnd < BitVec.ofInt 64 (strtol word 0) from hout)]
    exact performs_same rfl
  · rw [if_neg hout]
    rw [not_or, BitVec.not_lt, BitVec.not_lt] at hout
    exact performs_ends fun o w' => runs_disasm m.grantsAll.toGrants hr hout.1 hout.2

theorem performs_dump (hr : d.state = .running) (c word : Str) (l : List Str) :
    Performs m (dump (c :: word :: l) d) ⟨d, some (d.pid, s)⟩
      (LiveStep cs m d d.pid s (.dump (breakAddr word))) := by
  have hdump : dump (c :: word :: l) d = dumpRows 5 (breakAddr word) d := by
    rw [dump, if_neg (not_not.2 hr)]
    rfl
  rw [hdump]
  exact performs_ends fun o w' => runs_dumpRows fun i _ => m.grantsAll.peektext _ _

/-- What `vmmap` does with the contents of the file. -/
theorem performs_mappings (answer : Option Str) (child : Option (Int × Tracee)) :
    Performs m
      (match answer with
        | none => pure (d.say (.err "** fail to load memory mappings\n"))
        | some maps => liftParser (mapsParser maps) >>= fun found =>
            pure { d with out := d.out ++ found.1.map .mapping })
      ⟨d, child⟩
      (match answer with
        | none => Ends ⟨d.say (.err "** fail to load memory mappings\n"), child⟩
        | some maps => Parsed ⟨d, child⟩ (mapsParser maps) fun found =>
            Ends ⟨{ d with out := d.out ++ found.1.map .mapping }, child⟩) := by
  cases answer with
  | none => exact performs_same rfl
  | some maps => exact performs_parsed fun found _ => performs_same rfl

theorem performs_vmmap (hr : d.state = .running) :
    Performs m (vmmap d) ⟨d, some (d.pid, s)⟩ (LiveStep cs m d d.pid s .vmmap) := by
  intro o w'
  have hanswer := fun answer : Option Str =>
    performs_mappings (m := m) (d := d) answer (some (d.pid, s)) o w'
  unfold vmmap
  rw [if_neg (not_not.2 hr), Prog.ask_bind, runs_request]
  constructor
  · rintro ⟨answer, w₁, hw₁, hr⟩
    obtain rfl : w₁ = View.world ⟨d, some (d.pid, s)⟩ := hw₁
    obtain ⟨e, v', hv', hend⟩ := (hanswer answer).1 (by cases answer <;> exact hr)
    exact ⟨e, v', ⟨answer, by cases answer <;> exact hv'⟩, hend⟩
  · rintro ⟨e, v', ⟨answer, hv'⟩, hend⟩
    refine ⟨answer, View.world ⟨d, some (d.pid, s)⟩, rfl, ?_⟩
    have hrun := (hanswer answer).2 ⟨e, v', by cases answer <;> exact hv', hend⟩
    cases answer <;> exact hrun

/-- The end of `run`: `cont` has lowered the flag already. -/
theorem performs_run_cont (hlive : Live m.native d s) :
    Performs m (do
        let d ← cont cs d
        pure { d with lastCmdIsSetRip := false }) ⟨d, some (d.pid, s)⟩
      (Resumes cs m .cont d d.pid s) := by
  have hclear : ∀ e v', Resumes cs m .cont d d.pid s e v' → e = none ∧
      ({ v'.members with lastCmdIsSetRip := false } : Debugger) = v'.members := by
    rintro e v' ⟨r, a', ⟨n, s', -, -, rfl⟩ | ⟨code, -, -, rfl⟩, rfl, rfl⟩
    · exact ⟨rfl, rfl⟩
    · exact ⟨rfl, rfl⟩
  intro o w'
  have hcont : Performs m (cont cs d) _ _ := performs_resumes .cont hlive
  rw [runs_bind]
  constructor
  · rintro (⟨d₁, w₁, hr, rfl, rfl⟩ | ⟨e, hr, rfl⟩)
    · obtain ⟨e, v', hv', heq, rfl⟩ := (hcont _ _).1 hr
      obtain ⟨rfl, hflag⟩ := hclear e v' hv'
      cases heq
      exact ⟨none, v', hv', by rw [hflag]; rfl, rfl⟩
    · obtain ⟨e', v', hv', heq, -⟩ := (hcont _ _).1 hr
      obtain ⟨rfl, -⟩ := hclear e' v' hv'
      cases heq
  · rintro ⟨e, v', hv', rfl, rfl⟩
    obtain ⟨rfl, hflag⟩ := hclear e v' hv'
    exact Or.inl ⟨v'.members, v'.world, (hcont _ _).2 ⟨none, v', hv', rfl, rfl⟩, by rw [hflag]; rfl,
      rfl⟩

theorem performs_run (hlive : Live m.native d s) :
    Performs m (run cs d) ⟨d, some (d.pid, s)⟩ (LiveStep cs m d d.pid s .run) := by
  have hrun : run cs d = (do
      let d ← cont cs (d.say (.alreadyRunning d.progPath))
      pure { d with lastCmdIsSetRip := false }) := by
    unfold run
    rw [if_neg (by simp [hlive.running]), if_neg (by simp [hlive.running])]
  rw [hrun]
  exact performs_run_cont (d := d.say (.alreadyRunning d.progPath)) (hlive.congr rfl rfl)

/-- Every command on a running program is its step. -/
theorem performs_live (hm : m.Disciplined S P) (h : View.Ok m S P ⟨d, some (p, s)⟩) (verb : Verb)
    (c : Str) (args : List Str) :
    Performs m (verb.exec cs (c :: args) d) ⟨d, some (p, s)⟩
      (LiveStep cs m d p s (verb.command args)) := by
  obtain rfl : d.pid = p := h.pid rfl
  have hlive := h.live hm
  have hr : d.state = .running := hlive.running
  cases verb with
  | help => exact performs_same rfl
  | start =>
      have hstart : start cs d = pure (d.say (.err "** state must be LOADED\n")) :=
        if_pos (by simp [hr])
      rw [Verb.exec, hstart]
      exact performs_same rfl
  | cont => exact performs_resumes .cont hlive
  | list => exact performs_same rfl
  | si => exact performs_resumes .si hlive
  | getregs =>
      apply performs_ends
      intro o w'
      rw [Verb.exec, View.world]
      exact runs_getregs (m.grantsAll.getregs _)
  | vmmap => exact performs_vmmap hr
  | run => exact performs_run hlive
  | unknown => exact performs_same rfl
  | withArgs k =>
      rw [Verb.exec]
      cases k with
      | load =>
          rw [ArgCommand.run, load_of_loaded _ (by simp [hr])]
          cases args <;> exact performs_same rfl
      | «break» =>
          cases args with
          | nil => exact performs_few .break hr [] Nat.zero_lt_one
          | cons word l => exact performs_break hr c word l
      | delete =>
          cases args with
          | nil => exact performs_few .delete hr [] Nat.zero_lt_one
          | cons word l => exact performs_delete hr h.table.distinct hlive.codes c word l
      | get =>
          cases args with
          | nil => exact performs_few .get hr [] Nat.zero_lt_one
          | cons reg l => exact performs_get hr c reg l
      | disasm =>
          cases args with
          | nil => exact performs_few .disasm hr [] Nat.zero_lt_one
          | cons word l => exact performs_disasm hr c word l
      | dump =>
          cases args with
          | nil => exact performs_few .dump hr [] Nat.zero_lt_one
          | cons word l => exact performs_dump hr c word l
      | set =>
          cases args with
          | nil => exact performs_few .set hr [] Nat.zero_lt_two
          | cons reg rest =>
              cases rest with
              | nil => exact performs_few .set hr [reg] Nat.one_lt_two
              | cons word l => exact performs_set hr c reg word l

/-! ## The commands while no program runs -/

/-- Looking for a breakpoint anywhere but after `PTRACE_CONT`. -/
theorem runs_checkHit_at {env : Env} {cbpt : CandBp} (hc : cbpt ≠ .forCont)
    (hget : ¬ env.mayFail (.getregs d.pid)) {f : Bool} {t : Tracee} {o : Result Fault Debugger}
    {w' : World} :
    Runs (kernel env) (checkHitBreakPointOrNot cs cbpt d) ⟨f, .stopped d.pid t⟩ o w' ↔
      o = .done ((reportAt d.bptab.addrs t.regs.rip).print cs d) ∧ w' = ⟨f, .stopped d.pid t⟩ := by
  unfold checkHitBreakPointOrNot
  rw [runs_getregs hget]
  simp only [candAddr, if_neg hc]
  by_cases hB : t.regs.rip ∈ d.bptab.addrs
  · obtain ⟨bp, -, hat, -⟩ :=
      BreakpointTable.atAddr_of_includeAddr (BreakpointTable.includeAddr_iff.2 hB)
    rw [if_neg (by simp [BreakpointTable.includeAddr_iff.2 hB]), entryAt, hat, reportAt, if_pos hB]
    simp only [Prog.done_bind, Prog.pure_eq, runs_done, Report.print, hat]
  · rw [if_pos (BreakpointTable.includeAddr_eq_false_iff.2 hB), reportAt, if_neg hB]
    exact Iff.rfl

/-- The loop over the table plants a trap at each address. -/
theorem runs_reputFrom {env : Env} (hg : env.Grants) {beginAddr : Word} {l : List BreakpointInfo}
    (hl : ∀ bp ∈ l, beginAddr ≤ bp.addr) (B : List Addr) {f : Bool} {o : Result Fault Debugger}
    {w' : World} :
    Runs (kernel env) (reputFrom beginAddr l d) ⟨f, .stopped d.pid (s.trapped B)⟩ o w' ↔
      o = .done d ∧ w' = ⟨f, .stopped d.pid (s.trapped (B ++ l.map BreakpointInfo.addr))⟩ := by
  induction l generalizing B with
  | nil =>
      rw [List.map_nil, List.append_nil]
      exact Iff.rfl
  | cons bp rest ih =>
      have hge : ¬ bp.addr < beginAddr := BitVec.not_lt.2 (hl bp (List.mem_cons_self ..))
      have hput : Function.update (s.trapped B).mem bp.addr int3 =
          overlay (B ++ [bp.addr]) int3 s.mem := update_overlay_insert (by simp)
      have hrest := ih (fun b hb => hl b (List.mem_cons_of_mem _ hb)) (B ++ [bp.addr])
      rw [reputFrom, if_neg hge, runs_peektext hg, runs_poketext hg, writeWord_trap, hput]
      rw [List.append_assoc] at hrest
      exact hrest

/-- `start` on a loaded program: the child never comes back from `execvp`, and
the parent stops the process at its first instruction with the traps planted. -/
theorem runs_start (hl : d.state = .loaded) (hbegins : ∀ bp ∈ d.bptab.data, d.textBegin ≤ bp.addr)
    {o : Result Fault Debugger} {w' : World} :
    Runs (kernel m.env) (start cs d) ⟨false, .absent⟩ o w' ↔
      ∃ p : Int, 0 < p ∧ o = .done (startedMembers cs d p m.image) ∧
        w' = ⟨false, .stopped p (m.image.trapped d.bptab.addrs)⟩ := by
  -- the parent, once its child has stopped
  have hparent : ∀ (p : Int) o w', Runs (kernel m.env) (do
        let d ← reputAllBreakpointsFrom d.textBegin { d with pid := p }
        let d ← checkHitBreakPointOrNot cs .forStart d
        pure { d.say (.pid p) with state := .running, lastCmdIsSetRip := false })
      ⟨false, .stopped p m.image⟩ o w' ↔
        o = .done (startedMembers cs d p m.image) ∧
          w' = ⟨false, .stopped p (m.image.trapped d.bptab.addrs)⟩ := by
    intro p o w'
    have hreput : ∀ o w', Runs (kernel m.env)
        (reputAllBreakpointsFrom d.textBegin { d with pid := p }) ⟨false, .stopped p m.image⟩ o w' ↔
          o = .done { d with pid := p } ∧
            w' = ⟨false, .stopped p (m.image.trapped d.bptab.addrs)⟩ := by
      intro o w'
      have h : Runs (kernel m.env) (reputAllBreakpointsFrom d.textBegin { d with pid := p })
          ⟨false, .stopped p (m.image.trapped [])⟩ o w' ↔ _ :=
        runs_reputFrom (d := { d with pid := p }) m.grantsAll.toGrants hbegins []
      simp only [Tracee.trapped, overlay_nil, List.nil_append] at h
      exact h
    have hne : CandBp.forStart ≠ .forCont := by decide
    have hcheck : ∀ o w', Runs (kernel m.env)
        (checkHitBreakPointOrNot cs .forStart { d with pid := p })
        ⟨false, .stopped p (m.image.trapped d.bptab.addrs)⟩ o w' ↔ _ := fun o w' =>
      runs_checkHit_at (d := { d with pid := p }) hne (m.grantsAll.getregs p)
    rw [runs_bind_of_done hreput, runs_bind_of_done hcheck]
    exact Iff.rfl
  unfold start
  rw [if_neg (not_not.2 hl), Prog.ask_bind, runs_request]
  constructor
  · rintro ⟨(p : Int), w₁, ⟨-, hf, -⟩ | ⟨rfl, rfl⟩ | ⟨hpos, rfl⟩, hr⟩
    · exact hf.elim
    · obtain ⟨traced, w₂, ⟨htr, rfl⟩, hr⟩ := hr
      obtain rfl : traced = true := htr.resolve_right fun h => h
      obtain ⟨u, w₃, ⟨hf, -⟩, -⟩ := hr
      exact hf.elim
    · have hpos : (0 : Int) < p := hpos
      have h1 : p ≠ -1 := by omega
      have h0 : p ≠ 0 := by omega
      simp only [if_neg h1, if_neg h0, Prog.ask_bind, runs_request] at hr
      obtain ⟨x, w₂, hx, hr⟩ := hr
      rcases kernel_waitpid_starting.1 hx with ⟨sig, t, rfl, hb, rfl⟩ | ⟨st, -, -, hends, -⟩
      · obtain rfl : t = m.image := hb
        obtain ⟨u, w₃, rfl, hr⟩ := hr
        exact ⟨p, hpos, (hparent p o w').1 hr⟩
      · exact hends.elim
  · rintro ⟨p, hpos, hend⟩
    have h1 : p ≠ -1 := by omega
    have h0 : p ≠ 0 := by omega
    refine ⟨p, ⟨false, .starting p⟩, Or.inr (Or.inr ⟨hpos, rfl⟩), ?_⟩
    simp only [if_neg h1, if_neg h0, Prog.ask_bind, runs_request]
    refine ⟨some (.stopped sigtrap), ⟨false, .stopped p m.image⟩, ?_, ?_⟩
    · exact kernel_waitpid_starting.2 (Or.inl ⟨sigtrap, m.image, rfl, rfl, rfl⟩)
    · exact ⟨(), ⟨false, .stopped p m.image⟩, rfl, (hparent p o w').2 hend⟩

/-- What `load` does with the contents of the file. -/
theorem performs_answer (path : Str) (answer : Option (List Byte)) :
    Performs m
      (match answer with
        | none => pure ({ d with progPath := path }.say (.perror "** fopen"))
        | some file =>
            liftParser (elf64Parser file ⟨d.entryPoint, d.textBegin, d.textEnd⟩) >>= fun found =>
              match found with
              | none => pure ({ d with progPath := path }.say (.err "** invalid elf file\n"))
              | some text => pure { d with
                  progPath := path
                  entryPoint := text.entryPoint
                  textBegin := text.textBegin
                  textEnd := text.textEnd
                  state := .loaded
                  lastCmdIsSetRip := false
                  out := d.out ++ [.programLoaded path text.entryPoint] })
      ⟨d, none⟩ (LoadStep { m with file := fun _ => answer } path d) := by
  cases answer with
  | none => exact performs_same rfl
  | some file =>
      refine performs_parsed fun found _ => ?_
      cases found with
      | none => exact performs_same rfl
      | some text => exact performs_same rfl

theorem performs_load (hd : d.state = .noload) (c path : Str) (l : List Str) :
    Performs m (load (c :: path :: l) d) ⟨d, none⟩ (LoadStep m path d) := by
  have hno : ¬ (d.state = .loaded ∨ d.state = .running) := by simp [hd]
  intro o w'
  have hload := performs_answer (m := m) (d := d) path (m.file path) o w'
  unfold load
  rw [if_neg hno]
  refine Iff.trans ?_ hload
  constructor
  · rintro ⟨answer, w₁, ⟨rfl, rfl⟩, hr⟩
    cases hfile : m.file path <;> rw [hfile] at hr <;> exact hr
  · intro hr
    refine ⟨m.file path, View.world ⟨d, none⟩, ⟨rfl, rfl⟩, ?_⟩
    cases hfile : m.file path <;> rw [hfile] at hr <;> exact hr

theorem bptab_startedMembers (p : Int) (s : Tracee) :
    (startedMembers cs d p s).bptab = d.bptab := by
  obtain ⟨out, hout⟩ : SameButOut { d with pid := p }
      ((reportAt d.bptab.addrs s.regs.rip).print cs { d with pid := p }) := sameButOut_print _
  rw [startedMembers, hout]
  rfl

theorem pid_startedMembers (p : Int) (s : Tracee) : (startedMembers cs d p s).pid = p := by
  obtain ⟨out, hout⟩ : SameButOut { d with pid := p }
      ((reportAt d.bptab.addrs s.regs.rip).print cs { d with pid := p }) := sameButOut_print _
  rw [startedMembers, hout]
  rfl

/-- A started process is the program of the machine. -/
theorem View.Ok.started (h : View.Ok m S P ⟨d, none⟩) (hm : m.Disciplined S P) (p : Int) :
    View.Ok m S P ⟨startedMembers cs d p m.image, some (p, m.image)⟩ := by
  obtain ⟨out, hout⟩ : SameButOut { d with pid := p }
      ((reportAt d.bptab.addrs m.image.regs.rip).print cs { d with pid := p }) := sameButOut_print _
  rw [startedMembers, hout]
  exact .of_live rfl rfl hm.image (fun _ _ => rfl)
    ⟨h.table.inS, h.table.begins, h.table.codes, h.table.distinct⟩

/-- The rest of `run` after the start of a process. -/
theorem performs_run_started (h : View.Ok m S P ⟨d, none⟩) (hm : m.Disciplined S P) (p : Int)
    (o : Result Fault Debugger) (w' : World) :
    Runs (kernel m.env) (do
        let d ← cont cs (startedMembers cs d p m.image)
        pure { d with lastCmdIsSetRip := false })
        ⟨false, .stopped p (m.image.trapped d.bptab.addrs)⟩ o w' ↔
      ∃ e v', Resumes cs m .cont (startedMembers cs d p m.image) p m.image e v' ∧
        o = ended e v'.members ∧ w' = v'.world := by
  have hok : View.Ok m S P ⟨startedMembers cs d p m.image, some (p, m.image)⟩ := h.started hm p
  have hrun : Runs (kernel m.env) (do
      let d ← cont cs (startedMembers cs d p m.image)
      pure { d with lastCmdIsSetRip := false }) _ o w' ↔ _ := performs_run_cont (hok.live hm) o w'
  rw [View.world, bptab_startedMembers, pid_startedMembers] at hrun
  exact hrun

/-- The other commands with arguments say that nothing runs. -/
theorem argCommand_idle {k : ArgCommand} (hk : k.state = .running) (hd : d.state ≠ .running)
    (cmds : List Str) : k.run cs cmds d = pure (d.say (.err "** state must be RUNNING\n")) := by
  cases k with
  | load => cases hk
  | _ => exact if_pos hd

/-- Every command while no program runs is its step. -/
theorem performs_idle (hm : m.Disciplined S P) (h : View.Ok m S P ⟨d, none⟩) (verb : Verb)
    (c : Str) (args : List Str) :
    Performs m (verb.exec cs (c :: args) d) ⟨d, none⟩
      (IdleStep cs m d (verb.command args)) := by
  have hd : d.state ≠ .running := h.idle rfl
  cases verb with
  | help => exact performs_same rfl
  | list => exact performs_same rfl
  | unknown => exact performs_same rfl
  | cont =>
      rw [Verb.exec, cont, if_pos hd]
      exact performs_same rfl
  | si =>
      rw [Verb.exec, stepIn, if_pos hd]
      exact performs_same rfl
  | vmmap =>
      rw [Verb.exec, vmmap, if_pos hd]
      exact performs_same rfl
  | getregs =>
      apply performs_ends
      intro o w'
      rw [Verb.exec]
      constructor
      · rintro ⟨x, w₁, ⟨hat, -⟩ | ⟨rfl, -, rfl⟩, hr⟩
        · exact hat.elim
        · exact hr
      · intro hr
        exact ⟨none, View.world ⟨d, none⟩, Or.inr ⟨rfl, Or.inr id, rfl⟩, hr⟩
  | start =>
      rw [Verb.exec, Verb.command, IdleStep]
      by_cases hl : d.state = .loaded
      · rw [if_pos hl]
        intro o w'
        refine (runs_start hl h.table.begins).trans ?_
        have hworld : ∀ p, View.world ⟨startedMembers cs d p m.image, some (p, m.image)⟩ =
            ⟨false, .stopped p (m.image.trapped d.bptab.addrs)⟩ := by
          intro p
          rw [View.world, bptab_startedMembers]
        constructor
        · rintro ⟨p, hpos, rfl, rfl⟩
          exact ⟨none, _, ⟨p, hpos, rfl, rfl⟩, rfl, (hworld p).symm⟩
        · rintro ⟨e, v', ⟨p, hpos, rfl, rfl⟩, rfl, rfl⟩
          exact ⟨p, hpos, rfl, hworld p⟩
      · rw [if_neg hl]
        rw [start, if_pos hl]
        exact performs_same rfl
  | run =>
      rw [Verb.exec, Verb.command, IdleStep]
      by_cases hl : d.state = .loaded
      · rw [if_pos hl]
        have hrun : run cs d = start cs d >>= fun d => cont cs d >>= fun d =>
            pure { d with lastCmdIsSetRip := false } := by
          unfold run
          rw [if_neg (by simp [hl]), if_pos hl]
        have hstart : ∀ o w', Runs (kernel m.env) (start cs d) (View.world ⟨d, none⟩) o w' ↔ _ :=
          fun o w' => runs_start hl h.table.begins
        intro o w'
        rw [hrun, runs_bind]
        constructor
        · rintro (⟨d₁, w₁, hs, hr⟩ | ⟨e, hs, -⟩)
          · obtain ⟨p, hpos, heq, rfl⟩ := (hstart _ _).1 hs
            cases heq
            obtain ⟨e, v', hv', hend⟩ := (performs_run_started h hm p o w').1 hr
            exact ⟨e, v', ⟨p, hpos, hv'⟩, hend⟩
          · obtain ⟨p, hpos, heq, -⟩ := (hstart _ _).1 hs
            cases heq
        · rintro ⟨e, v', ⟨p, hpos, hv'⟩, hend⟩
          refine Or.inl ⟨_, _, (hstart _ _).2 ⟨p, hpos, rfl, rfl⟩, ?_⟩
          exact (performs_run_started h hm p o w').2 ⟨e, v', hv', hend⟩
      · rw [if_neg hl, run, if_pos ⟨hl, hd⟩]
        exact performs_same rfl
  | withArgs k =>
      rw [Verb.exec]
      cases k with
      | load =>
          by_cases hl : d.state = .noload
          · cases args with
            | nil =>
                change Performs m _ _ (IdleStep cs m d (.missing .load))
                rw [IdleStep, if_pos hl]
                exact performs_few .load hl [] Nat.zero_lt_one
            | cons path l =>
                rw [Verb.command, IdleStep, if_pos hl]
                exact performs_load hl c path l
          · rw [ArgCommand.run, load_of_loaded _ hl]
            cases args with
            | nil =>
                change Performs m _ _ (IdleStep cs m d (.missing .load))
                rw [IdleStep, if_neg hl]
                exact performs_same rfl
            | cons path l =>
                rw [Verb.command, IdleStep, if_neg hl]
                exact performs_same rfl
      | set =>
          rw [argCommand_idle rfl hd]
          cases args with
          | nil => exact performs_same rfl
          | cons reg rest => cases rest <;> exact performs_same rfl
      | _ =>
          rw [argCommand_idle rfl hd]
          cases args <;> exact performs_same rfl

end Performs

end Sdb
