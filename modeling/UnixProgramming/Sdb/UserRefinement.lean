import UnixProgramming.Sdb.UserSteps

/-!
# A whole session refines the user's view

From the first line of input to the last, over any program whose instructions
have nothing to do with the breakpoints: what the debugger does to the traced
process and what it prints is what its user sees happen to the program itself.

* `View.Ok.step` — every command preserves the invariant.
* `runs_commandLoop_line` — a line of input is the step of its command.
* `performs_mainLoop` — the loop of `main`, from any view in order.
* `mainLoop_refines_view` — every script.
-/

namespace Sdb

open ByteMemory CString Requests Overlay Stepping

section Performs

variable {cs : Capstone} {m : Machine} {S : Set Addr} {P : Tracee → Prop} {d : Debugger} {p : Int}
  {s : Tracee} {v v₁ : View}

/-! ## The invariant -/

theorem Remembers.congr {d' : Debugger} (h : Remembers m S d) (hbptab : d'.bptab = d.bptab)
    (hbegin : d'.textBegin = d.textBegin) : Remembers m S d' where
  inS bp hbp := h.inS bp (hbptab ▸ hbp)
  begins bp hbp := hbegin ▸ h.begins bp (hbptab ▸ hbp)
  codes bp hbp := h.codes bp (hbptab ▸ hbp)
  distinct := hbptab ▸ h.distinct

/-- What matters of the members is as before. -/
theorem View.Ok.congr {d' : Debugger} {child : Option (Int × Tracee)} (h : View.Ok m S P ⟨d, child⟩)
    (hstate : d'.state = d.state) (hpid : d'.pid = d.pid) (hbptab : d'.bptab = d.bptab)
    (hbegin : d'.textBegin = d.textBegin) : View.Ok m S P ⟨d', child⟩ where
  idle hc := hstate ▸ h.idle hc
  running hc := hstate.trans (h.running hc)
  pid hc := hpid.trans (h.pid hc)
  within hc := h.within hc
  text hc := h.text hc
  noload hn := hbptab.trans (h.noload (hstate ▸ hn))
  table := h.table.congr hbptab hbegin

theorem View.Ok.say {child : Option (Int × Tracee)} (h : View.Ok m S P ⟨d, child⟩) (msg : Msg) :
    View.Ok m S P ⟨d.say msg, child⟩ := h.congr rfl rfl rfl rfl

theorem View.Ok.out {child : Option (Int × Tracee)} (h : View.Ok m S P ⟨d, child⟩)
    {d' : Debugger} (hs : SameButOut d d') : View.Ok m S P ⟨d', child⟩ := by
  obtain ⟨out, rfl⟩ := hs
  exact h.congr rfl rfl rfl rfl

/-- Steps of the program keep it in `P` and the bytes of `S` as they are. -/
theorem Machine.Disciplined.after (hm : m.Disciplined S P) {n : Nat} {s s' : Tracee} (hs : P s)
    (h : after m.native n s = some s') : P s' ∧ Set.EqOn s'.mem s.mem S := by
  induction n generalizing s with
  | zero =>
      cases h
      exact ⟨hs, fun _ _ => rfl⟩
  | succ n ih =>
      obtain ⟨s₁, hnext, hrest⟩ := after_succ_eq_some.1 h
      obtain ⟨hP, htext⟩ := ih (hm.next hs hnext) hrest
      refine ⟨hP, fun a ha => ?_⟩
      have hu := hm.undisturbed hs [a] (fun b hb => by rw [List.mem_singleton.1 hb]; exact ha)
      rw [htext ha]
      exact hu.aside s₁ hnext a (List.mem_singleton_self a) a (inWord_self a)

/-- The process has exited. -/
theorem View.Ok.release {d' : Debugger} (h : View.Ok m S P ⟨d, some (p, s)⟩)
    (hs : SameButOut d d') : View.Ok m S P ⟨d'.release, none⟩ := by
  obtain ⟨out, rfl⟩ := hs
  have hloaded : ({ d with out := out }.release).state = .loaded := rfl
  exact .of_idle (by simp [hloaded]) (by simp [hloaded]) (h.table.congr rfl rfl)

/-- The program has gone on. -/
theorem View.Ok.goesOn {d' : Debugger} {n : Nat} {s' : Tracee} (hm : m.Disciplined S P)
    (h : View.Ok m S P ⟨d, some (p, s)⟩) (hs : SameButOut d d') (hafter : after m.native n s = some s') :
    View.Ok m S P ⟨{ d' with lastCmdIsSetRip := false }, some (p, s')⟩ := by
  obtain ⟨out, rfl⟩ := hs
  obtain ⟨hP, htext⟩ := hm.after (h.within rfl) hafter
  exact .of_live (h.running rfl) (h.pid rfl) hP (htext.trans (h.text rfl)) (h.table.congr rfl rfl)

theorem View.Ok.resumes {c : RunCmd} {e : Option Fault} (hm : m.Disciplined S P)
    (h : View.Ok m S P ⟨d, some (p, s)⟩) (hstep : Resumes cs m c d p s e v) : View.Ok m S P v := by
  obtain ⟨r, a', hnative, -, rfl⟩ := hstep
  have hprint : SameButOut d (r.print cs d) := sameButOut_print r
  cases c with
  | si =>
      simp only [NativeStep] at hnative
      cases hs : m.native s with
      | next s' =>
          rw [hs] at hnative
          obtain ⟨-, rfl⟩ := hnative
          exact h.goesOn hm hprint (n := 1) (after_succ_eq_some.2 ⟨s', hs, rfl⟩)
      | exits code =>
          rw [hs] at hnative
          obtain ⟨-, rfl⟩ := hnative
          exact h.release hprint
  | cont =>
      rcases hnative with ⟨n, s', hhit, -, rfl⟩ | ⟨code, -, -, rfl⟩
      · exact h.goesOn hm hprint hhit.2.1
      · exact h.release hprint

theorem View.Ok.load {path : Str} {e : Option Fault} (h : View.Ok m S P ⟨d, none⟩)
    (hd : d.state = .noload) (hstep : LoadStep m path d e v) : View.Ok m S P v := by
  have hempty : d.bptab.data = [] := by rw [h.noload hd]
  unfold LoadStep at hstep
  cases hfile : m.file path with
  | none =>
      rw [hfile] at hstep
      exact hstep.2 ▸ h.congr rfl rfl rfl rfl
  | some file =>
      simp only [hfile, Parsed] at hstep
      cases hparsed : elf64Parser file ⟨d.entryPoint, d.textBegin, d.textEnd⟩ with
      | error f =>
          rw [hparsed] at hstep
          exact hstep.2 ▸ h
      | ok found =>
          rw [hparsed] at hstep
          cases found with
          | none => exact hstep.2 ▸ h.congr rfl rfl rfl rfl
          | some text =>
              obtain ⟨-, rfl⟩ := hstep
              refine .of_idle (by simp) (by simp) ⟨h.table.inS, ?_, h.table.codes, h.table.distinct⟩
              intro bp hbp
              rw [show bp ∈ d.bptab.data ↔ bp ∈ [] by rw [hempty]] at hbp
              cases hbp

theorem View.Ok.idleStep {c : Command} {e : Option Fault} (hm : m.Disciplined S P)
    (h : View.Ok m S P ⟨d, none⟩) (hc : c ≠ .quit) (hstep : IdleStep cs m d c e v) :
    View.Ok m S P v := by
  cases c with
  | quit => exact absurd rfl hc
  | nothing => exact hstep.2 ▸ h
  | list => exact hstep.2 ▸ h.congr rfl rfl rfl rfl
  | start =>
      rw [IdleStep] at hstep
      split at hstep
      · obtain ⟨p, -, -, rfl⟩ := hstep
        exact h.started hm p
      · exact hstep.2 ▸ h.say _
  | run =>
      rw [IdleStep] at hstep
      split at hstep
      · obtain ⟨p, -, hresumes⟩ := hstep
        exact (h.started hm p).resumes hm hresumes
      · exact hstep.2 ▸ h.say _
  | load path =>
      rw [IdleStep] at hstep
      split at hstep
      · next hd => exact h.load hd hstep
      · exact hstep.2 ▸ h.say _
  | missing k =>
      cases k with
      | load =>
          rw [IdleStep] at hstep
          split at hstep
          · exact hstep.2 ▸ h.say _
          · exact hstep.2 ▸ h.say _
      | _ => exact hstep.2 ▸ h.say _
  | _ => exact hstep.2 ▸ h.say _

theorem View.Ok.liveStep {c : Command} {e : Option Fault} (hm : m.Disciplined S P)
    (h : View.Ok m S P ⟨d, some (p, s)⟩) (hc : c ≠ .quit) (hallowed : Allowed S P c ⟨d, some (p, s)⟩)
    (hstep : LiveStep cs m d p s c e v) : View.Ok m S P v := by
  cases c with
  | quit => exact absurd rfl hc
  | nothing => exact hstep.2 ▸ h
  | list => exact hstep.2 ▸ h.congr rfl rfl rfl rfl
  | si => exact h.resumes hm hstep
  | cont => exact h.resumes hm hstep
  | run => exact (h.say (.alreadyRunning d.progPath)).resumes hm hstep
  | missing k =>
      cases k with
      | _ => exact hstep.2 ▸ h.say _
  | get reg =>
      have hsame := sameButOut_regHandler reg 0 s.regs d
      simp only [LiveStep] at hstep
      obtain ⟨-, rfl⟩ := hstep
      split
      · exact h.out hsame
      · exact h.out (hsame.trans (sameButOut_say _ _))
  | set reg value =>
      obtain ⟨out, hout⟩ := sameButOut_regHandler reg value s.regs d
      simp only [LiveStep] at hstep
      split at hstep
      · exact hstep.2 ▸ h.out ⟨out, hout⟩
      · obtain ⟨-, rfl⟩ := hstep
        rw [hout]
        have htext : Set.EqOn s.mem m.image.mem S := h.text rfl
        exact .of_live (h.running rfl) (h.pid rfl) hallowed htext (h.table.congr rfl rfl)
  | «break» a =>
      simp only [LiveStep] at hstep
      split at hstep
      · exact hstep.2 ▸ h.say _
      · next hout =>
          obtain ⟨haS, hnew⟩ := hallowed hout
          have hinc : ¬ d.bptab.includeAddr a = true := mt BreakpointTable.includeAddr_iff.1 hnew
          rw [if_neg hinc] at hstep
          obtain ⟨-, rfl⟩ := hstep
          rw [not_or, BitVec.not_lt, BitVec.not_lt] at hout
          have hcode : byteOf (readWord (s.trapped d.bptab.addrs).mem a) 0 = m.image.mem a := by
            rw [byteOf_readWord_zero, ← h.text rfl haS]
            exact overlay_of_not_mem hnew
          have hmem : ∀ {Q : BreakpointInfo → Prop} {code : Word}, (∀ bp ∈ d.bptab.data, Q bp) →
              Q ⟨code, a⟩ → ∀ bp ∈ (d.bptab.add a code).data, Q bp := by
            intro Q code hold hadded bp hbp
            rw [BreakpointTable.data_add, List.mem_append, List.mem_singleton] at hbp
            rcases hbp with hbp | rfl
            · exact hold bp hbp
            · exact hadded
          exact .of_live (h.running rfl) (h.pid rfl) (h.within rfl) (h.text rfl)
            ⟨hmem h.table.inS haS, hmem h.table.begins hout.1, hmem h.table.codes hcode,
              BreakpointTable.nodup_add h.table.distinct hnew⟩
  | delete idx =>
      simp only [LiveStep] at hstep
      cases hat : d.bptab.atIdx idx with
      | none =>
          rw [hat] at hstep
          exact hstep.2 ▸ h.say _
      | some bp =>
          rw [hat] at hstep
          obtain ⟨-, rfl⟩ := hstep
          exact .of_live (h.running rfl) (h.pid rfl) (h.within rfl) (h.text rfl)
            ⟨fun b hb => h.table.inS b (BreakpointTable.mem_of_mem_del hb),
              fun b hb => h.table.begins b (BreakpointTable.mem_of_mem_del hb),
              fun b hb => h.table.codes b (BreakpointTable.mem_of_mem_del hb),
              BreakpointTable.nodup_del h.table.distinct idx⟩
  | disasm a =>
      simp only [LiveStep] at hstep
      split at hstep
      · exact hstep.2 ▸ h.say _
      · exact hstep.2 ▸ h.congr rfl rfl rfl rfl
  | dump a => exact hstep.2 ▸ h.congr rfl rfl rfl rfl
  | vmmap =>
      obtain ⟨answer, hstep⟩ := hstep
      cases answer with
      | none => exact hstep.2 ▸ h.say _
      | some maps =>
          simp only [Parsed] at hstep
          cases hparsed : mapsParser maps with
          | error f =>
              rw [hparsed] at hstep
              exact hstep.2 ▸ h
          | ok found =>
              rw [hparsed] at hstep
              exact hstep.2 ▸ h.congr rfl rfl rfl rfl
  | _ => exact hstep.2 ▸ h.say _

/-- A command preserves the invariant. -/
theorem View.Ok.step {c : Command} {e : Option Fault} {v' : View} (hm : m.Disciplined S P)
    (h : View.Ok m S P v) (hc : c ≠ .quit) (hallowed : Allowed S P c v)
    (hstep : Step cs m c v e v') : View.Ok m S P v' := by
  obtain ⟨d, child⟩ := v
  cases child with
  | none => exact h.idleStep hm hc hstep
  | some child => exact h.liveStep hm hc hallowed hstep

/-! ## A line of input, and the next -/

/-- What is asked of every line that is read, on the view it is read in. -/
def Respects (cs : Capstone) (m : Machine) (S : Set Addr) (P : Tracee → Prop) :
    List Str → View → Prop
  | [], _ => True
  | line :: rest, v => Command.ofLine line ≠ .quit →
      Allowed S P (Command.ofLine line) v ∧
        ∀ v₁, Step cs m (Command.ofLine line) v none v₁ → Respects cs m S P rest v₁

/-- The result of a line that ended with this fault or these members. -/
def endedLine (e : Option Fault) (d : Debugger) : Result Fault Flow :=
  match e with
  | none => .done (.next d)
  | some e => .fault e

theorem ofLine_eq {line c : Str} {args : List Str} (hwords : dbgcmdParser line ' ' = c :: args) :
    Command.ofLine line =
      if c = "exit".toList ∨ c = "q".toList then .quit
      else if line = [] then .nothing else (Verb.ofWord c).command args := by
  rw [Command.ofLine, hwords]

theorem Verb.command_ne_quit (verb : Verb) (args : List Str) : verb.command args ≠ .quit := by
  intro h
  cases verb with
  | withArgs k =>
      cases k with
      | set =>
          cases args with
          | nil => cases h
          | cons reg rest => cases rest <;> cases h
      | _ => cases args <;> cases h
  | _ => cases h

/-- Every command is its step. -/
theorem performs_step (hm : m.Disciplined S P) (h : View.Ok m S P v) (verb : Verb) (c : Str)
    (args : List Str) :
    Performs m (verb.exec cs (c :: args) v.members) v (Step cs m (verb.command args) v) := by
  obtain ⟨d, child⟩ := v
  cases child with
  | none => exact performs_idle hm h verb c args
  | some child => exact performs_live hm h verb c args

/-- A line that says `exit` ends the loop. -/
theorem commandLoop_quit {line : Str} (hquit : Command.ofLine line = .quit) :
    commandLoop cs line d = pure (.quit d.release) := by
  obtain ⟨c, args, hwords⟩ := exists_words line
  rw [ofLine_eq hwords] at hquit
  unfold commandLoop
  rw [hwords]
  by_cases hc : c = "exit".toList ∨ c = "q".toList
  · simp only [if_pos hc]
  · rw [if_neg hc] at hquit
    split at hquit
    · cases hquit
    · exact absurd hquit (Verb.command_ne_quit _ _)

/-- Any other line is the step of the command it asks for. -/
theorem runs_commandLoop_line (hm : m.Disciplined S P) (h : View.Ok m S P v) {line : Str}
    (hquit : Command.ofLine line ≠ .quit) {o : Result Fault Flow} {w' : World} :
    Runs (kernel m.env) (commandLoop cs line v.members) v.world o w' ↔
      ∃ e v', Step cs m (Command.ofLine line) v e v' ∧ o = endedLine e v'.members ∧
        w' = v'.world := by
  obtain ⟨c, args, hwords⟩ := exists_words line
  have hc : ¬ (c = "exit".toList ∨ c = "q".toList) := by
    intro hc
    rw [ofLine_eq hwords, if_pos hc] at hquit
    exact hquit rfl
  rw [ofLine_eq hwords, if_neg hc]
  by_cases hline : line = []
  · subst hline
    rw [dbgcmdParser_eq] at hwords
    cases hwords
    have hstep : ∀ e v', Step cs m .nothing v e v' ↔ Ends v e v' := by
      intro e v'
      obtain ⟨d, child⟩ := v
      cases child <;> exact Iff.rfl
    have hnothing : commandLoop cs [] v.members = pure (.next v.members) := by
      unfold commandLoop
      rw [dbgcmdParser_eq]
      rfl
    rw [if_pos rfl, hnothing]
    simp only [hstep]
    constructor
    · rintro ⟨rfl, rfl⟩
      exact ⟨none, v, ⟨rfl, rfl⟩, rfl, rfl⟩
    · rintro ⟨e, v', ⟨rfl, rfl⟩, rfl, rfl⟩
      exact ⟨rfl, rfl⟩
  · rw [if_neg hline, runs_commandLoop_of_words hwords hc hline, runs_bind]
    have hperforms : Performs m ((Verb.ofWord c).exec cs (c :: args) v.members) v _ :=
      performs_step hm h (Verb.ofWord c) c args
    constructor
    · rintro (⟨d', w₁, hr, rfl, rfl⟩ | ⟨e, hr, rfl⟩)
      · obtain ⟨e, v', hstep, heq, rfl⟩ := (hperforms _ _).1 hr
        cases e with
        | none =>
            cases heq
            exact ⟨none, v', hstep, rfl, rfl⟩
        | some f => cases heq
      · obtain ⟨e', v', hstep, heq, rfl⟩ := (hperforms _ _).1 hr
        cases e' with
        | none => cases heq
        | some f =>
            cases heq
            exact ⟨some e, v', hstep, rfl, rfl⟩
    · rintro ⟨e, v', hstep, rfl, rfl⟩
      have hr := (hperforms _ _).2 ⟨e, v', hstep, rfl, rfl⟩
      cases e with
      | none => exact Or.inl ⟨v'.members, v'.world, hr, rfl, rfl⟩
      | some f => exact Or.inr ⟨f, hr, rfl⟩

/-! ## Every script -/

theorem userRun_quit {line : Str} {rest : List Str} (hquit : Command.ofLine line = .quit)
    {e : Option Fault} {v' : View} :
    UserRun cs m (line :: rest) v e v' ↔ Ends ⟨v.members.release, v.child⟩ e v' := by
  rw [UserRun, hquit]
  obtain ⟨d, child⟩ := v
  cases child <;> exact Iff.rfl

theorem userRun_next {line : Str} {rest : List Str} {c : Command} (hline : Command.ofLine line = c)
    (hquit : c ≠ .quit) {e : Option Fault} {v' : View} :
    UserRun cs m (line :: rest) v e v' ↔
      (∃ v₁, Step cs m c v none v₁ ∧ UserRun cs m rest v₁ e v') ∨
        e ≠ none ∧ Step cs m c v e v' := by
  subst hline
  rw [UserRun]
  split
  · next h => exact absurd h hquit
  · exact Iff.rfl

/-- From any view in order, the loop of `main` on a script is the user's run. -/
theorem performs_mainLoop (hm : m.Disciplined S P) {lines : List Str} (h : View.Ok m S P v)
    (hr : Respects cs m S P lines v) :
    Performs m (mainLoop cs lines v.members) v (UserRun cs m lines v) := by
  induction lines generalizing v with
  | nil => exact performs_pure rfl
  | cons line rest ih =>
      intro o w'
      rw [mainLoop, runs_bind]
      by_cases hquit : Command.ofLine line = .quit
      · simp only [userRun_quit hquit, commandLoop_quit hquit]
        have hworld : View.world ⟨v.members.release, v.child⟩ = v.world := rfl
        constructor
        · rintro (⟨flow, w₁, ⟨heq, rfl⟩, hend⟩ | ⟨e, ⟨heq, -⟩, -⟩)
          · cases heq
            exact ⟨none, _, ⟨rfl, rfl⟩, hend.1, hend.2.trans hworld.symm⟩
          · cases heq
        · rintro ⟨e, v', ⟨rfl, rfl⟩, rfl, rfl⟩
          exact Or.inl ⟨_, _, ⟨rfl, rfl⟩, rfl, hworld⟩
      · obtain ⟨hallowed, hrest⟩ := hr hquit
        simp only [userRun_next rfl hquit, runs_commandLoop_line hm h hquit]
        constructor
        · rintro (⟨flow, w₁, ⟨e, v₁, hstep, heq, rfl⟩, hend⟩ | ⟨f, ⟨e, v₁, hstep, heq, rfl⟩, rfl⟩)
          · cases e with
            | some f => cases heq
            | none =>
                cases heq
                have hok := h.step hm hquit hallowed hstep
                obtain ⟨e, v', hrun, hend⟩ := (ih hok (hrest v₁ hstep) o w').1 hend
                exact ⟨e, v', Or.inl ⟨v₁, hstep, hrun⟩, hend⟩
          · cases e with
            | none => cases heq
            | some f' =>
                cases heq
                exact ⟨some f, v₁, Or.inr ⟨Option.some_ne_none f, hstep⟩, rfl, rfl⟩
        · rintro ⟨e, v', ⟨v₁, hstep, hrun⟩ | ⟨hfault, hstep⟩, rfl, rfl⟩
          · have hok := h.step hm hquit hallowed hstep
            refine Or.inl ⟨.next v₁.members, v₁.world, ⟨none, v₁, hstep, rfl, rfl⟩, ?_⟩
            exact (ih hok (hrest v₁ hstep) _ _).2 ⟨e, v', hrun, rfl, rfl⟩
          · cases e with
            | none => exact absurd rfl hfault
            | some f => exact Or.inr ⟨f, ⟨some f, v', hstep, rfl, rfl⟩, rfl⟩

theorem View.Ok.init : View.Ok m S P .init := by
  refine .of_idle ?_ (fun _ => rfl) ⟨?_, ?_, ?_, List.nodup_nil⟩
  · intro h
    cases h
  · intro bp hbp
    cases hbp
  · intro bp hbp
    cases hbp
  · intro bp hbp
    cases hbp

end Performs

/-- Over a program whose instructions have nothing to do with breakpoints at
addresses of `S`, with breakpoints set at such addresses and none twice: a
script does in the debugger what it does on the user's view, and prints that. -/
theorem mainLoop_refines_view (cs : Capstone) {m : Machine} {S : Set Addr} {P : Tracee → Prop}
    (hm : m.Disciplined S P) {lines : List Str} (hr : Respects cs m S P lines .init)
    (o : Result Fault Debugger) (w' : World) :
    Runs (kernel m.env) (mainLoop cs lines .init) ⟨false, .absent⟩ o w' ↔
      ∃ e v', UserRun cs m lines .init e v' ∧ o = ended e v'.members ∧ w' = v'.world :=
  performs_mainLoop hm View.Ok.init hr o w'

namespace Sample

/-- The machine with the one program, which goes round its loop. -/
def machine : Machine where
  native := looping
  image := tracee
  file path := if path = "a".toList then some file else none

theorem machine_disciplined : machine.Disciplined Set.univ fun s => s.mem = tracee.mem where
  image := rfl
  next := by
    rintro s s' hs hnext
    cases hnext
    exact hs
  undisturbed := by
    intro s hs B _
    refine undisturbed_looping ?_
    rw [hs]
    exact show (0x90 : Byte) ≠ int3 by decide

theorem ofLine_load : Command.ofLine "load a".toList = .load "a".toList := by
  rw [ofLine_eq (c := "load".toList) (by rw [dbgcmdParser_eq]; rfl), if_neg (by decide),
    if_neg (by decide)]
  rfl

theorem ofLine_start : Command.ofLine "start".toList = .start := by
  rw [ofLine_eq (c := "start".toList) (by rw [dbgcmdParser_eq]; rfl), if_neg (by decide),
    if_neg (by decide)]
  rfl

theorem ofLine_break : Command.ofLine "b 0x1000".toList = .break 0x1000 := by
  rw [ofLine_eq (c := "b".toList) (by rw [dbgcmdParser_eq]; rfl), if_neg (by decide),
    if_neg (by decide)]
  rfl

theorem ofLine_cont : Command.ofLine "c".toList = .cont := by
  rw [ofLine_eq (c := "c".toList) (by rw [dbgcmdParser_eq]; rfl), if_neg (by decide),
    if_neg (by decide)]
  rfl

/-- Load the program, start it, set a breakpoint and go on. -/
def script : List Str := ["load a".toList, "start".toList, "b 0x1000".toList, "c".toList]

theorem respects_script :
    Respects capstone machine Set.univ (fun s => s.mem = tracee.mem) script .init := by
  refine fun _ => ⟨trivial, ?_⟩
  rw [ofLine_load]
  rintro v₁ ⟨-, rfl⟩
  refine fun _ => ⟨trivial, ?_⟩
  rw [ofLine_start]
  rintro v₂ ⟨p, -, -, rfl⟩
  refine fun _ => ⟨?_, ?_⟩
  · rw [ofLine_break]
    rintro -
    refine ⟨Set.mem_univ _, ?_⟩
    rw [bptab_startedMembers]
    exact List.not_mem_nil
  · rw [ofLine_break]
    intro v₃ _ _
    refine ⟨?_, fun v₄ _ => trivial⟩
    rw [ofLine_cont]
    obtain ⟨d, _ | ⟨p, s⟩⟩ := v₃ <;> trivial

/-- Once round the loop. -/
theorem firstHit_looping : FirstHit looping (AtBreakpoint [0x1000]) 1 2 tracee tracee := by
  refine ⟨by decide, rfl, List.mem_singleton_self _, ?_⟩
  intro m u hm hlt hu
  obtain rfl : m = 1 := by omega
  cases hu
  exact show (0x1001 : Addr) ∉ [(0x1000 : Addr)] by decide

/-- The view at the end of the script. -/
def stopped : View where
  members := { (Report.breakpoint 0x1000).print capstone planted with lastCmdIsSetRip := false }
  child := some (1, tracee)

/-- The script stops at its breakpoint, after one round of the loop. -/
theorem userRun_script : UserRun capstone machine script .init none stopped := by
  refine (userRun_next ofLine_load (by intro h; cases h)).2 (Or.inl ⟨⟨loaded, none⟩, ?_, ?_⟩)
  · exact ⟨rfl, rfl⟩
  refine (userRun_next ofLine_start (by intro h; cases h)).2
    (Or.inl ⟨⟨started, some (1, tracee)⟩, ?_, ?_⟩)
  · exact ⟨1, by decide, rfl, rfl⟩
  refine (userRun_next ofLine_break (by intro h; cases h)).2
    (Or.inl ⟨⟨planted, some (1, tracee)⟩, ?_, ?_⟩)
  · exact ⟨rfl, rfl⟩
  refine (userRun_next ofLine_cont (by intro h; cases h)).2 (Or.inl ⟨_, ?_, rfl, rfl⟩)
  exact ⟨_, _, Or.inl ⟨2, tracee, firstHit_looping, rfl, rfl⟩, rfl, rfl⟩

end Sample

/-- The script stops at its breakpoint in the debugger. -/
theorem mainLoop_refines_view_looping :
    Runs (kernel Sample.machine.env) (mainLoop Sample.capstone Sample.script .init)
      ⟨false, .absent⟩
      (.done { (Report.breakpoint 0x1000).print Sample.capstone Sample.planted with
        lastCmdIsSetRip := false })
      ⟨false, .stopped 1 (Sample.tracee.trapped [0x1000])⟩ :=
  (mainLoop_refines_view Sample.capstone Sample.machine_disciplined Sample.respects_script
    _ _).2 ⟨none, Sample.stopped, Sample.userRun_script, rfl, rfl⟩

end Sdb
