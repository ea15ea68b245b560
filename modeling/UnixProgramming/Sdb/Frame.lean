import UnixProgramming.Sdb.Primitives

/-!
# What a command leaves alone

Whatever the system answers, every command but `break` and `delete` keeps the
breakpoint table, and every command keeps the range of `.text` once a program
has been loaded.

* `Keeps` — the members a command must not change.
* `keeps_start`, `keeps_cont`, `keeps_stepIn`, `keeps_run` — the commands that
  let the tracee run keep them, and so do those that only look.
* `looks_getSingleReg` and the like — the commands that only look ask for
  nothing else and change nothing but the output.
* `Indexed`, `within_entryAt` — none of them looks outside the table.
* `yields_dispatch_of_loaded`, `yields_dispatch_of_noload` — one line of input,
  with a program loaded and without.
-/

namespace Sdb

open ByteMemory CString Requests

/-! ## Requests that let nothing run -/

/-- The requests that change nothing. -/
def Req.Looks : Req → Prop
  | .peektext _ _ => True
  | .getregs _ => True
  | .readFile _ => True
  | .readMaps _ => True
  | _ => False

/-- The requests that change nothing but the tracee's memory. -/
def Req.Pokes : Req → Prop
  | .poketext _ _ _ => True
  | r => r.Looks

section Kernel

variable {env : Env} {α : Type} {B : Fault → Prop} {P : α → Prop} {p : Dbg α}

theorem kernel_of_looks {w w' : World} {r : Req} {x : Ans r} (hr : r.Looks)
    (hK : kernel env w r x w') : w' = w := by
  cases r with
  | peektext pid addr =>
      rcases hK with ⟨-, rfl⟩ | ⟨-, -, rfl⟩
      · rfl
      · rfl
  | getregs pid =>
      rcases hK with ⟨-, rfl⟩ | ⟨-, -, rfl⟩
      · rfl
      · rfl
  | readFile path => exact hK.2
  | readMaps pid => exact hK
  | _ => exact hr.elim

/-- A program that only looks leaves the world as it is. -/
theorem ensures_of_looks (h : Within Req.Looks B P p) (w : World) :
    Ensures (kernel env) (fun e w' => B e ∧ w' = w) (fun a w' => P a ∧ w' = w) p w :=
  h.ensures (I := fun w' => w' = w) (fun _ _ _ _ hr hw hK => (kernel_of_looks hr hK).trans hw) rfl

theorem kernel_of_pokes {f : Bool} {pid : Int} {t : Tracee} {w' : World} {r : Req} {x : Ans r}
    (hr : r.Pokes) (hK : kernel env ⟨f, .stopped pid t⟩ r x w') :
    ∃ mem, w' = ⟨f, .stopped pid { t with mem := mem }⟩ := by
  cases r with
  | poketext pid' addr data =>
      rcases hK with ⟨-, rfl, rfl⟩ | ⟨-, -, rfl⟩
      · exact ⟨_, rfl⟩
      · exact ⟨t.mem, rfl⟩
  | peektext pid' addr => exact ⟨t.mem, kernel_of_looks (r := .peektext pid' addr) hr hK⟩
  | getregs pid' => exact ⟨t.mem, kernel_of_looks (r := .getregs pid') hr hK⟩
  | readFile path => exact ⟨t.mem, kernel_of_looks (r := .readFile path) hr hK⟩
  | readMaps pid' => exact ⟨t.mem, kernel_of_looks (r := .readMaps pid') hr hK⟩
  | _ => exact hr.elim

/-- A program that at most pokes leaves the tracee stopped with its registers. -/
theorem ensures_of_pokes (h : Within Req.Pokes B P p) (f : Bool) (pid : Int) (t : Tracee) :
    Ensures (kernel env) (fun e _ => B e)
      (fun a w' => P a ∧ ∃ mem, w' = ⟨f, .stopped pid { t with mem := mem }⟩) p
      ⟨f, .stopped pid t⟩ := by
  have hinv : ∀ w r x w', r.Pokes → (∃ mem, w = ⟨f, .stopped pid { t with mem := mem }⟩) →
      kernel env w r x w' → ∃ mem, w' = ⟨f, .stopped pid { t with mem := mem }⟩ := by
    rintro w r x w' hr ⟨mem, rfl⟩ hK
    exact kernel_of_pokes (t := { t with mem := mem }) hr hK
  exact (h.ensures hinv ⟨t.mem, rfl⟩).mono (fun _ _ he => he.1) fun _ _ ha => ha

end Kernel

/-! ## What a command must not change -/

/-- The table, the program and its text range are as before, and a loaded
program stays loaded. -/
structure Keeps (d d' : Debugger) : Prop where
  bptab : d'.bptab = d.bptab
  progPath : d'.progPath = d.progPath
  entryPoint : d'.entryPoint = d.entryPoint
  textBegin : d'.textBegin = d.textBegin
  textEnd : d'.textEnd = d.textEnd
  state : d.state ≠ .noload → d'.state ≠ .noload

theorem Keeps.refl (d : Debugger) : Keeps d d := ⟨rfl, rfl, rfl, rfl, rfl, id⟩

theorem Keeps.trans {d d' d'' : Debugger} (h : Keeps d d') (h' : Keeps d' d'') : Keeps d d'' where
  bptab := h'.bptab.trans h.bptab
  progPath := h'.progPath.trans h.progPath
  entryPoint := h'.entryPoint.trans h.entryPoint
  textBegin := h'.textBegin.trans h.textBegin
  textEnd := h'.textEnd.trans h.textEnd
  state hs := h'.state (h.state hs)

theorem SameButOut.keeps {d d' : Debugger} (h : SameButOut d d') : Keeps d d' := by
  obtain ⟨out, rfl⟩ := h
  exact ⟨rfl, rfl, rfl, rfl, rfl, id⟩

theorem keeps_say (d : Debugger) (m : Msg) : Keeps d (d.say m) := (sameButOut_say d m).keeps

theorem keeps_release (d : Debugger) : Keeps d d.release :=
  ⟨rfl, rfl, rfl, rfl, rfl, fun _ h => by cases h⟩

theorem keeps_setPid (d : Debugger) (pid : Int) : Keeps d { d with pid := pid } :=
  ⟨rfl, rfl, rfl, rfl, rfl, id⟩

theorem keeps_setLastCmd (d : Debugger) (b : Bool) : Keeps d { d with lastCmdIsSetRip := b } :=
  ⟨rfl, rfl, rfl, rfl, rfl, id⟩

theorem keeps_setRunning (d : Debugger) (b : Bool) :
    Keeps d { d with state := .running, lastCmdIsSetRip := b } :=
  ⟨rfl, rfl, rfl, rfl, rfl, fun _ h => by cases h⟩

/-! ## Faults -/

/-- The faults of the parsers. -/
def Fault.OfParser : Fault → Prop
  | .parser _ => True
  | _ => False

theorem Fault.OfParser.ne_assertion {e : Fault} (h : e.OfParser) : e ≠ .assertion := by
  rintro rfl
  exact h

theorem Fault.OfParser.ne_badIndex {e : Fault} (h : e.OfParser) : e ≠ .badIndex := by
  rintro rfl
  exact h

/-- Whatever it is answered, the program stays inside the table, and every value it
can end with satisfies `P`. -/
abbrev Indexed {α : Type} (P : α → Prop) (p : Dbg α) : Prop :=
  Within (fun _ => True) (· ≠ .badIndex) P p

theorem Indexed.ask {α : Type} {P : α → Prop} {r : Req} {f : Ans r → Dbg α}
    (h : ∀ x, Indexed P (f x)) : Indexed P (Prog.ask r >>= f) := ⟨trivial, h⟩

theorem indexed_of_ofParser {α : Type} {A : Req → Prop} {P : α → Prop} {p : Dbg α}
    (h : Within A Fault.OfParser P p) : Indexed P p :=
  h.mono (fun _ _ => trivial) (fun _ he => he.ne_badIndex) fun _ ha => ha

/-- The entry of an address in the table is found. -/
theorem within_entryAt {A : Req → Prop} {B : Fault → Prop} {t : BreakpointTable} {addr : Word}
    (hinc : t.includeAddr addr = true) : Within A B (fun _ => True) (entryAt t addr) := by
  obtain ⟨bp, -, hat, -⟩ := BreakpointTable.atAddr_of_includeAddr hinc
  rw [entryAt, hat]
  trivial

/-! ## The shared parts -/

variable (cs : Capstone) (d : Debugger)

theorem keeps_waitThenCheckExit : Indexed (Keeps d) (waitThenCheckExit d) := by
  refine Indexed.ask fun x => ?_
  match x with
  | none => exact keeps_say d _
  | some (.exited code) => exact (keeps_say d _).trans (keeps_release _)
  | some (.stopped sig) => exact Keeps.refl d
  | some (.signaled sig) => exact Fault.noConfusion

theorem keeps_checkThenRestoreSiReput (addr : Word) :
    Indexed (Keeps d) (checkThenRestoreSiReput addr d) := by
  unfold checkThenRestoreSiReput
  refine iteInduction (fun _ => Keeps.refl d) fun hinc => ?_
  refine Indexed.ask fun curCode => ?_
  refine Within.bind (within_entryAt (by simpa using hinc)) ?_
  intro bp _
  refine Indexed.ask fun poked => ?_
  refine iteInduction (fun _ => keeps_say d _) fun _ => ?_
  refine Indexed.ask fun stepped => ?_
  refine iteInduction (fun _ => keeps_say d _) fun _ => ?_
  refine Within.bind (keeps_waitThenCheckExit d) fun d₁ h₁ => ?_
  refine iteInduction (fun _ => h₁) fun _ => ?_
  refine Indexed.ask fun poked => ?_
  exact iteInduction (fun _ => h₁.trans (keeps_say d₁ _)) fun _ => h₁

theorem sameButOut_checkHit (cbpt : CandBp) :
    Indexed (SameButOut d) (checkHitBreakPointOrNot cs cbpt d) := by
  refine Indexed.ask fun x => ?_
  match x with
  | none => exact sameButOut_say d _
  | some regs =>
      have htell : ∀ addr, ¬ d.bptab.includeAddr addr = false → Indexed (SameButOut d) (do
          let bp ← entryAt d.bptab addr
          pure (translate cs addr bp.code (d.say (.info "** breakpoint @"))).2 : Dbg Debugger) := by
        intro addr hinc
        refine Within.bind (within_entryAt (by simpa using hinc)) ?_
        intro bp _
        exact (sameButOut_say d _).trans (sameButOut_translate cs addr bp.code _)
      refine iteInduction (fun _ => sameButOut_say d _) fun hinc => ?_
      refine iteInduction (fun _ => ?_) fun _ => htell _ hinc
      refine Indexed.ask fun set => ?_
      exact iteInduction (fun _ => sameButOut_say d _) fun _ => htell _ hinc

theorem pokes_reputFrom (beginAddr : Word) (l : List BreakpointInfo) :
    Within Req.Pokes Fault.OfParser (SameButOut d) (reputFrom beginAddr l d) := by
  induction l with
  | nil => exact SameButOut.refl d
  | cons bp rest ih =>
      rw [reputFrom]
      refine iteInduction (fun _ => ih) fun _ => ?_
      refine Within.ask trivial fun code => Within.ask trivial fun poked => ?_
      exact iteInduction (fun _ => sameButOut_say d _) fun _ => ih

/-! ## The commands -/

/-- The end of `si` and `cont`: look for a breakpoint and clear the flag. -/
theorem keeps_checkHit_clear (cbpt : CandBp) {d d₁ : Debugger} (h : Keeps d d₁) :
    Indexed (Keeps d) (do
      let d₂ ← checkHitBreakPointOrNot cs cbpt d₁
      pure { d₂ with lastCmdIsSetRip := false } : Dbg Debugger) := by
  refine Within.bind (sameButOut_checkHit cs d₁ cbpt) fun d₂ h₂ => ?_
  exact (h.trans h₂.keeps).trans (keeps_setLastCmd d₂ false)

theorem keeps_stepIn : Indexed (Keeps d) (stepIn cs d) := by
  unfold stepIn
  refine iteInduction (fun _ => keeps_say d _) fun _ => ?_
  refine Indexed.ask fun x => ?_
  match x with
  | none => exact keeps_say d _
  | some regs =>
      refine iteInduction (fun _ => ?_) fun _ => ?_
      · refine Within.bind (keeps_checkThenRestoreSiReput d regs.rip) fun d₁ h₁ => ?_
        exact iteInduction (fun _ => h₁) fun _ => keeps_checkHit_clear cs .forSinglestep h₁
      · refine Indexed.ask fun stepped => ?_
        refine iteInduction (fun _ => keeps_say d _) fun _ => ?_
        refine Within.bind (keeps_waitThenCheckExit d) fun d₁ h₁ => ?_
        exact iteInduction (fun _ => h₁) fun _ => keeps_checkHit_clear cs .forSinglestep h₁

theorem keeps_contFrom : Indexed (Keeps d) (contFrom cs d) := by
  refine Indexed.ask fun x => ?_
  refine iteInduction (fun _ => keeps_say d _) fun _ => ?_
  refine Within.bind (keeps_waitThenCheckExit d) fun d₁ h₁ => ?_
  exact iteInduction (fun _ => h₁) fun _ => keeps_checkHit_clear cs .forCont h₁

theorem keeps_cont : Indexed (Keeps d) (cont cs d) := by
  unfold cont
  refine iteInduction (fun _ => keeps_say d _) fun _ => ?_
  refine Indexed.ask fun x => ?_
  match x with
  | none => exact keeps_say d _
  | some regs =>
      refine iteInduction (fun _ => ?_) fun _ => keeps_contFrom cs d
      refine Within.bind (keeps_checkThenRestoreSiReput d regs.rip) fun d₁ h₁ => ?_
      refine iteInduction (fun _ => h₁) fun _ => ?_
      exact (keeps_contFrom cs d₁).imp fun d₂ h₂ => h₁.trans h₂

theorem keeps_start : Indexed (Keeps d) (start cs d) := by
  unfold start
  refine iteInduction (fun _ => keeps_say d _) fun _ => ?_
  refine Indexed.ask fun pid => ?_
  have hpid := keeps_setPid d pid
  refine iteInduction (fun _ => hpid.trans (keeps_say _ _)) fun _ => ?_
  refine iteInduction (fun _ => ?_) fun _ => ?_
  · refine Indexed.ask fun traced => ?_
    refine iteInduction (fun _ => hpid.trans (keeps_say _ _)) fun _ => ?_
    refine Indexed.ask fun failed => ?_
    exact hpid.trans (keeps_say _ _)
  · refine Indexed.ask fun x => ?_
    match x with
    | none => exact hpid.trans (keeps_say _ _)
    | some (.exited _) => exact Fault.noConfusion
    | some (.signaled _) => exact Fault.noConfusion
    | some (.stopped sig) =>
        refine Indexed.ask fun _ => ?_
        refine Within.bind
          (indexed_of_ofParser (pokes_reputFrom { d with pid := pid } d.textBegin d.bptab.data)) ?_
        intro d₁ h₁
        refine Within.bind (sameButOut_checkHit cs d₁ .forStart) fun d₂ h₂ => ?_
        exact ((hpid.trans h₁.keeps).trans h₂.keeps).trans
          ((keeps_say d₂ _).trans (keeps_setRunning _ false))

theorem keeps_run : Indexed (Keeps d) (run cs d) := by
  unfold run
  refine iteInduction (fun _ => keeps_say d _) fun _ => ?_
  refine iteInduction (fun _ => ?_) fun _ => ?_
  · refine Within.bind (keeps_start cs d) fun d₁ h₁ => ?_
    refine Within.bind (keeps_cont cs d₁) fun d₂ h₂ => ?_
    exact (h₁.trans h₂).trans (keeps_setLastCmd d₂ false)
  · refine Within.bind (keeps_cont cs _) fun d₂ h₂ => ?_
    exact ((keeps_say d _).trans h₂).trans (keeps_setLastCmd d₂ false)

theorem keeps_setReg (cmds : List Str) : Indexed (Keeps d) (setReg cmds d) := by
  unfold setReg
  refine iteInduction (fun _ => keeps_say d _) fun _ => ?_
  match cmds with
  | [] => exact keeps_say d _
  | [_] => exact keeps_say d _
  | [_, _] => exact keeps_say d _
  | _ :: tarReg :: val :: _ =>
      refine Indexed.ask fun x => ?_
      match x with
      | none => exact keeps_say d _
      | some regs =>
          have h := (sameButOut_regHandler tarReg (BitVec.ofInt 64 (strtol val 0)) regs d).keeps
          refine iteInduction (fun _ => h) fun _ => ?_
          refine Indexed.ask fun set => ?_
          refine iteInduction (fun _ => h.trans (keeps_say _ _)) fun _ => ?_
          exact iteInduction (fun _ => h.trans (keeps_setLastCmd _ true)) fun _ => h

/-! ## Commands that only look -/

theorem looks_getSingleReg (cmds : List Str) :
    Within Req.Looks Fault.OfParser (SameButOut d) (getSingleReg cmds d) := by
  unfold getSingleReg
  refine iteInduction (fun _ => sameButOut_say d _) fun _ => ?_
  match cmds with
  | [] => exact sameButOut_say d _
  | [_] => exact sameButOut_say d _
  | _ :: tarReg :: _ =>
      refine Within.ask trivial fun x => ?_
      match x with
      | none => exact sameButOut_say d _
      | some regs =>
          have h := sameButOut_regHandler tarReg 0 regs d
          exact iteInduction (fun _ => h) fun _ => h.trans (sameButOut_say _ _)

theorem looks_getAllRegs : Within Req.Looks Fault.OfParser (SameButOut d) (getAllRegs d) := by
  refine Within.ask trivial fun x => ?_
  match x with
  | none => exact sameButOut_say d _
  | some regs => exact sameButOut_say d _

theorem looks_vmmap : Within Req.Looks Fault.OfParser (SameButOut d) (vmmap d) := by
  unfold vmmap
  refine iteInduction (fun _ => sameButOut_say d _) fun _ => ?_
  refine Within.ask trivial fun x => ?_
  match x with
  | none => exact sameButOut_say d _
  | some maps =>
      show Within Req.Looks Fault.OfParser (SameButOut d) (liftParser (mapsParser maps) >>= _)
      cases mapsParser maps with
      | error e => exact trivial
      | ok printed => exact ⟨_, rfl⟩

theorem looks_dumpWords (pid : Int) (tarAddr : Word) (n j : Nat) :
    Within Req.Looks Fault.OfParser (fun _ => True) (dumpWords pid tarAddr n j) := by
  induction n generalizing j with
  | zero => trivial
  | succ n ih =>
      refine Within.ask trivial fun code => ?_
      exact Within.bind (ih (j + 1)) fun _ _ => trivial

theorem looks_dumpRows (n : Nat) (tarAddr : Word) :
    Within Req.Looks Fault.OfParser (SameButOut d) (dumpRows n tarAddr d) := by
  induction n generalizing d tarAddr with
  | zero => exact SameButOut.refl d
  | succ n ih =>
      refine Within.bind (looks_dumpWords d.pid tarAddr nDumpAmt 0) fun hex _ => ?_
      refine Within.bind (looks_dumpWords d.pid tarAddr nDumpAmt 0) fun chars _ => ?_
      exact (ih _ _).imp fun d' h => (sameButOut_say d _).trans h

theorem looks_dump (cmds : List Str) :
    Within Req.Looks Fault.OfParser (SameButOut d) (dump cmds d) := by
  unfold dump
  refine iteInduction (fun _ => sameButOut_say d _) fun _ => ?_
  match cmds with
  | [] => exact sameButOut_say d _
  | [_] => exact sameButOut_say d _
  | _ :: _ :: _ => exact looks_dumpRows d _ _

theorem looks_disasmLoop (n : Nat) (tarAddr : Word) :
    Within Req.Looks Fault.OfParser (SameButOut d) (disasmLoop cs n tarAddr d) := by
  induction n generalizing d tarAddr with
  | zero => exact SameButOut.refl d
  | succ n ih =>
      rw [disasmLoop]
      refine iteInduction (fun _ => SameButOut.refl d) fun _ => ?_
      refine iteInduction (fun hinc => ?_) fun _ => ?_
      · refine Within.bind (within_entryAt hinc) ?_
        intro bp _
        exact (ih _ _).imp fun d' h => (sameButOut_translate cs tarAddr bp.code d).trans h
      · refine Within.ask trivial fun code => ?_
        exact (ih _ _).imp fun d' h => (sameButOut_translate cs tarAddr code d).trans h

theorem looks_disasm (cmds : List Str) :
    Within Req.Looks Fault.OfParser (SameButOut d) (disasm cs cmds d) := by
  unfold disasm
  refine iteInduction (fun _ => sameButOut_say d _) fun _ => ?_
  match cmds with
  | [] => exact sameButOut_say d _
  | [_] => exact sameButOut_say d _
  | _ :: _ :: _ =>
      exact iteInduction (fun _ => sameButOut_say d _) fun _ => looks_disasmLoop cs d _ _

/-! ## Loading and the table -/

/-- `load` does nothing but print when a program is loaded already. -/
theorem load_of_loaded {d : Debugger} (cmds : List Str) (h : d.state ≠ .noload) :
    load cmds d = pure (d.say (.err "** state must be NOT LOADED\n")) := by
  have hstate : d.state = .loaded ∨ d.state = .running := by
    cases hs : d.state with
    | loaded => exact Or.inl rfl
    | noload => exact absurd hs h
    | running => exact Or.inr rfl
  unfold load
  exact if_pos hstate

/-- `load` keeps the table; it ends with a program loaded, or with everything as
before but the output and the path. -/
theorem looks_load (cmds : List Str) :
    Within Req.Looks Fault.OfParser (fun d' => d'.bptab = d.bptab ∧
      (d'.state = .loaded ∨ d'.state = d.state ∧ d'.textBegin = d.textBegin ∧
        d'.textEnd = d.textEnd)) (load cmds d) := by
  unfold load
  refine iteInduction (fun _ => ⟨rfl, Or.inr ⟨rfl, rfl, rfl⟩⟩) fun _ => ?_
  match cmds with
  | [] => exact ⟨rfl, Or.inr ⟨rfl, rfl, rfl⟩⟩
  | [_] => exact ⟨rfl, Or.inr ⟨rfl, rfl, rfl⟩⟩
  | _ :: path :: _ =>
      refine Within.ask trivial fun x => ?_
      match x with
      | none => exact ⟨rfl, Or.inr ⟨rfl, rfl, rfl⟩⟩
      | some file =>
          show Within _ _ _
            (liftParser (elf64Parser file ⟨d.entryPoint, d.textBegin, d.textEnd⟩) >>= _)
          cases elf64Parser file ⟨d.entryPoint, d.textBegin, d.textEnd⟩ with
          | error e => exact trivial
          | ok res =>
              cases res with
              | none => exact ⟨rfl, Or.inr ⟨rfl, rfl, rfl⟩⟩
              | some text => exact ⟨rfl, Or.inl rfl⟩

theorem pokes_plantBreakPoint (tarAddr : Word) :
    Within Req.Pokes Fault.OfParser
      (fun d' => SameButOut d d' ∨ ∃ code, d' = { d with bptab := d.bptab.add tarAddr code })
      (plantBreakPoint tarAddr d) := by
  refine Within.ask trivial fun code => Within.ask trivial fun poked => ?_
  refine iteInduction (fun _ => Or.inl (sameButOut_say d _)) fun _ => ?_
  exact Or.inr ⟨code, rfl⟩

/-- `break` only prints, or adds an entry for the address it names, which lies
in the text. -/
theorem pokes_setBreakPoint (cmds : List Str) :
    Within Req.Pokes Fault.OfParser (fun d' => SameButOut d d' ∨
      d.state = .running ∧ ∃ c word rest code out, cmds = c :: word :: rest ∧
        d.textBegin ≤ breakAddr word ∧ breakAddr word ≤ d.textEnd ∧
        d' = { d with bptab := d.bptab.add (breakAddr word) code, out := out })
      (setBreakPoint cmds d) := by
  unfold setBreakPoint
  refine iteInduction (fun _ => Or.inl (sameButOut_say d _)) fun hr => ?_
  have hr : d.state = .running := not_not.1 hr
  match cmds with
  | [] => exact Or.inl (sameButOut_say d _)
  | [_] => exact Or.inl (sameButOut_say d _)
  | c :: word :: rest =>
      refine iteInduction (fun _ => Or.inl (sameButOut_say d _)) fun hrange => ?_
      simp only [not_or, BitVec.not_lt] at hrange
      refine iteInduction (fun _ => ?_) fun _ => ?_
      · refine (pokes_plantBreakPoint (d.say _) _).imp fun d' hd' => ?_
        rcases hd' with hs | ⟨code, rfl⟩
        · exact Or.inl ((sameButOut_say d _).trans hs)
        · exact Or.inr ⟨hr, c, word, rest, code, _, rfl, hrange.1, hrange.2, rfl⟩
      · refine (pokes_plantBreakPoint d _).imp fun d' hd' => ?_
        rcases hd' with hs | ⟨code, rfl⟩
        · exact Or.inl hs
        · exact Or.inr ⟨hr, c, word, rest, code, d.out, rfl, hrange.1, hrange.2, rfl⟩

/-- `delete` only prints, or deletes the entry at some index of the table. -/
theorem pokes_deleteBreakPoint (cmds : List Str) :
    Within Req.Pokes Fault.OfParser (fun d' => SameButOut d d' ∨
      d.state = .running ∧ ∃ idx out, d.bptab.includeIdx idx = true ∧
        d' = { d with bptab := d.bptab.del idx, out := out }) (deleteBreakPoint cmds d) := by
  unfold deleteBreakPoint
  refine iteInduction (fun _ => Or.inl (sameButOut_say d _)) fun hr => ?_
  have hr : d.state = .running := not_not.1 hr
  match cmds with
  | [] => exact Or.inl (sameButOut_say d _)
  | [_] => exact Or.inl (sameButOut_say d _)
  | c :: word :: rest =>
      refine iteInduction (fun _ => Or.inl (sameButOut_say d _)) fun hidx => ?_
      have hinc : d.bptab.includeIdx (atoi word) = true := by simpa using hidx
      obtain ⟨j, bp, -, -, hat⟩ := BreakpointTable.atIdx_of_includeIdx hinc
      rw [entryAtIdx, hat]
      refine Within.ask trivial fun curCode => Within.ask trivial fun poked => ?_
      refine iteInduction (fun _ => Or.inl (sameButOut_say d _)) fun _ => ?_
      exact Or.inr ⟨hr, atoi word, _, hinc, rfl⟩

/-! ## One line of input -/

/-- Once a program is loaded, no line changes it or its text range. -/
theorem yields_dispatch_of_loaded (line : Str) (cmds : List Str) (c : Str)
    (h : d.state ≠ .noload) :
    Yields (fun d' => d'.state ≠ .noload ∧ d'.textBegin = d.textBegin ∧ d'.textEnd = d.textEnd)
      (dispatch cs line cmds c d) := by
  have hkeeps : ∀ d', Keeps d d' →
      d'.state ≠ .noload ∧ d'.textBegin = d.textBegin ∧ d'.textEnd = d.textEnd :=
    fun d' hk => ⟨hk.state h, hk.textBegin, hk.textEnd⟩
  have hsame : ∀ d', SameButOut d d' →
      d'.state ≠ .noload ∧ d'.textBegin = d.textBegin ∧ d'.textEnd = d.textEnd :=
    fun d' hs => hkeeps d' hs.keeps
  refine dispatch_cases cs (P := Yields _) hsame ?load ((keeps_start cs d).yields.imp hkeeps)
    ((keeps_cont cs d).yields.imp hkeeps) (fun _ => ?point) ((keeps_stepIn cs d).yields.imp hkeeps) ?delete
    ((looks_getSingleReg d cmds).yields.imp hsame) ((looks_getAllRegs d).yields.imp hsame)
    ((keeps_setReg d cmds).yields.imp hkeeps) ((looks_vmmap d).yields.imp hsame)
    ((looks_disasm cs d cmds).yields.imp hsame) ((looks_dump d cmds).yields.imp hsame)
    ((keeps_run cs d).yields.imp hkeeps)
  case load =>
    rw [load_of_loaded cmds h]
    exact hsame _ (sameButOut_say d _)
  case point =>
    refine (pokes_setBreakPoint d cmds).yields.imp fun d' hd' => ?_
    rcases hd' with hs | ⟨-, _, _, _, _, _, -, -, -, rfl⟩
    · exact hsame d' hs
    · exact ⟨h, rfl, rfl⟩
  case delete =>
    refine (pokes_deleteBreakPoint d cmds).yields.imp fun d' hd' => ?_
    rcases hd' with hs | ⟨-, _, _, -, rfl⟩
    · exact hsame d' hs
    · exact ⟨h, rfl, rfl⟩

/-- With no program loaded, a line leaves the table alone and starts nothing. -/
theorem yields_dispatch_of_noload (line : Str) (cmds : List Str) (c : Str)
    (h : d.state = .noload) :
    Yields (fun d' => d'.bptab = d.bptab ∧ d'.state ≠ .running) (dispatch cs line cmds c d) := by
  have hno : d.state ≠ .running := by simp [h]
  have hsame : ∀ d', SameButOut d d' → d'.bptab = d.bptab ∧ d'.state ≠ .running := by
    rintro d' ⟨out, rfl⟩
    exact ⟨rfl, hno⟩
  have hsay : ∀ m, Yields (fun d' => d'.bptab = d.bptab ∧ d'.state ≠ .running)
      (pure (d.say m) : Dbg Debugger) := fun m => hsame _ (sameButOut_say d m)
  -- every command for a running tracee begins with the same test
  have hguard : ∀ m p, Yields (fun d' => d'.bptab = d.bptab ∧ d'.state ≠ .running)
      (if d.state ≠ .running then pure (d.say m) else p : Dbg Debugger) := by
    intro m p
    rw [if_pos hno]
    exact hsay m
  refine dispatch_cases cs (P := Yields _) hsame ?load ?start ?cont (fun _ => ?point) ?si ?delete
    ((looks_getSingleReg d cmds).yields.imp hsame) ((looks_getAllRegs d).yields.imp hsame)
    ?set ((looks_vmmap d).yields.imp hsame)
    ((looks_disasm cs d cmds).yields.imp hsame) ((looks_dump d cmds).yields.imp hsame) ?run
  case load =>
    refine (looks_load d cmds).yields.imp fun d' hd' => ⟨hd'.1, ?_⟩
    rcases hd'.2 with hl | ⟨hs, -, -⟩
    · simp [hl]
    · simp [hs, h]
  case start =>
    rw [start, if_pos (by simp [h])]
    exact hsay _
  case cont => exact hguard _ _
  case point => exact hguard _ _
  case si => exact hguard _ _
  case delete => exact hguard _ _
  case set => exact hguard _ _
  case run =>
    rw [run, if_pos (by simp [h])]
    exact hsay _

/-! ## Stepping over a breakpoint -/

/-- Stepping over a breakpoint, whatever is refused on the way: errors are
printed and the tracee is stopped, or it has exited and is released, or it was
killed and the assertion fails. -/
theorem ensures_stepOver {env : Env} {F : Fault → World → Prop} {Q : Debugger → World → Prop}
    {f : Bool} {t : Tracee} {d : Debugger} (hr : d.state = .running)
    (hkill : ∀ t sig t', env.stops .singlestep t (.signaled sig) t' → F .assertion ⟨f, .absent⟩)
    (hstop : ∀ errors t', (∀ m ∈ errors, ∃ what, m = .perror what) →
      Q { d with out := d.out ++ errors } ⟨f, .stopped d.pid t'⟩)
    (hexit : ∀ code, Q (d.say (.terminated d.pid (.exited code))).release ⟨f, .absent⟩)
    (addr : Word) :
    Ensures (kernel env) F Q (checkThenRestoreSiReput addr d) ⟨f, .stopped d.pid t⟩ := by
  have hsame : ∀ t', Q d ⟨f, .stopped d.pid t'⟩ := fun t' => by
    have := hstop [] t' (by simp)
    rwa [List.append_nil] at this
  have hperror : ∀ what t', Q (d.say (.perror what)) ⟨f, .stopped d.pid t'⟩ := fun what t' =>
    hstop [.perror what] t' (by simp)
  unfold checkThenRestoreSiReput
  rw [ensures_ite]
  refine ⟨fun _ => hsame t, fun hinc => ?_⟩
  rw [ensures_ask_bind]
  intro curCode w₁ hpeek
  obtain ⟨m₁, rfl⟩ := kernel_of_pokes (r := .peektext d.pid addr) trivial hpeek
  rw [ensures_bind]
  refine ensures_entryAt (by simpa using hinc) fun bp _ _ _ => ?_
  rw [ensures_ask_bind]
  intro poked w₂ hpoke
  obtain ⟨m₂, rfl⟩ := kernel_of_pokes (t := { t with mem := m₁ })
    (r := .poketext d.pid addr _) trivial hpoke
  rw [ensures_ite]
  refine ⟨fun _ => hperror _ _, fun _ => ?_⟩
  rw [ensures_ask_bind]
  intro stepped w₃ hstep
  rcases kernel_singlestep.1 hstep with ⟨rfl, rfl⟩ | ⟨rfl, -, rfl⟩
  swap
  · exact hperror _ _
  rw [if_neg Bool.false_ne_true.symm, ensures_bind, ensures_waitThenCheckExit]
  intro st t₃ hst
  cases st with
  | exited code =>
      have hno : (d.say (.terminated d.pid (.exited code))).release.state ≠ .running := by
        simp [Debugger.release]
      simp only [if_pos hno]
      exact hexit code
  | signaled sig => exact hkill _ _ _ hst
  | stopped sig =>
      simp only [if_neg (not_not.2 hr)]
      rw [ensures_ask_bind]
      intro poked w₄ hpoke
      obtain ⟨m₄, rfl⟩ := kernel_of_pokes (r := .poketext d.pid addr curCode) trivial hpoke
      rw [ensures_ite]
      exact ⟨fun _ => hperror _ _, fun _ => hsame _⟩

end Sdb
