import UnixProgramming.Sdb.Lifecycle

/-!
# Missing arguments

A command that needs arguments counts the words of `dbgcmd_parser`, which
returns one empty word more when the line ends with a blank.

* `argCommand_few`, `argCommand_enough` — with too few words the command says so
  and does nothing else, with enough it never says so.
* `missing_argument_noticed_iff` — when a missing argument is noticed.
-/

namespace Sdb

open ByteMemory CString Requests

/-! ## Too few words -/

/-- With too few words the command prints its message and does nothing else. -/
theorem argCommand_few (cs : Capstone) (k : ArgCommand) {c : Str} {args : List Str}
    (hfew : args.length < k.needed) {d : Debugger} (hd : d.state = k.state) :
    k.run cs (c :: args) d = pure (d.say (.err k.missingText)) := by
  cases k with
  | load =>
      obtain rfl : args = [] := List.length_eq_zero_iff.1 (Nat.lt_one_iff.1 hfew)
      have hno : ¬ (d.state = .loaded ∨ d.state = .running) := by simp [hd, ArgCommand.state]
      exact if_neg hno
  | set =>
      have hyes : ¬ d.state ≠ .running := not_not.2 hd
      match args, hfew with
      | [], _ => exact if_neg hyes
      | [_], _ => exact if_neg hyes
  | _ =>
      obtain rfl : args = [] := List.length_eq_zero_iff.1 (Nat.lt_one_iff.1 hfew)
      have hyes : ¬ d.state ≠ .running := not_not.2 hd
      exact if_neg hyes

/-! ## Enough words -/

/-- The messages about a missing argument. -/
def IsMissing (m : Msg) : Prop := ∃ k : ArgCommand, m = .err k.missingText

/-- What is printed on the way from `d` to `d'` tells of no missing argument. -/
def NotMissing (d d' : Debugger) : Prop := ∃ l, d'.out = d.out ++ l ∧ ∀ m ∈ l, ¬ IsMissing m

theorem NotMissing.refl {d d' : Debugger} (h : d'.out = d.out) : NotMissing d d' :=
  ⟨[], by simp [h], by simp⟩

theorem NotMissing.trans {d d' d'' : Debugger} (h : NotMissing d d') (h' : NotMissing d' d'') :
    NotMissing d d'' := by
  obtain ⟨l, hl, hm⟩ := h
  obtain ⟨l', hl', hm'⟩ := h'
  refine ⟨l ++ l', by rw [hl', hl, List.append_assoc], fun m hmem => ?_⟩
  rcases List.mem_append.1 hmem with hmem | hmem
  · exact hm m hmem
  · exact hm' m hmem

theorem not_isMissing_err {text : String} (h : ∀ k : ArgCommand, text ≠ k.missingText) :
    ¬ IsMissing (.err text) := by
  rintro ⟨k, hk⟩
  exact h k (Msg.err.inj hk)

/-- The fixed texts on `stderr`. -/
def Msg.IsErr : Msg → Prop
  | .err _ => True
  | _ => False

theorem notMissing_say {d d' : Debugger} {m : Msg} (hm : ¬ IsMissing m)
    (hout : d'.out = d.out ++ [m]) : NotMissing d d' := by
  refine ⟨[m], hout, fun x hx => ?_⟩
  obtain rfl := List.mem_singleton.1 hx
  exact hm

/-- A message with values is not about a missing argument. -/
theorem notMissing_value {d d' : Debugger} {m : Msg} (hout : d'.out = d.out ++ [m])
    (hm : ¬ m.IsErr) : NotMissing d d' := by
  refine notMissing_say ?_ hout
  rintro ⟨k, rfl⟩
  exact hm trivial

/-- A text that none of the commands prints about a missing argument is not. -/
theorem notMissing_err {d d' : Debugger} {text : String}
    (h : ∀ k : ArgCommand, text ≠ k.missingText) (hout : d'.out = d.out ++ [.err text]) :
    NotMissing d d' :=
  notMissing_say (not_isMissing_err h) hout

section Enough

variable (cs : Capstone) (d : Debugger)

theorem notMissing_translate (addr code : Word) : NotMissing d (translate cs addr code d).2 := by
  unfold translate
  split
  · exact notMissing_err (fun k => by cases k <;> decide) rfl
  · split
    · exact notMissing_err (fun k => by cases k <;> decide) rfl
    · exact notMissing_value rfl not_false

theorem notMissing_regHandler (tarReg : Str) (inputVal : Word) (regs : UserRegs) :
    NotMissing d (regHandler tarReg inputVal regs d).2.2 := by
  unfold regHandler
  split
  · exact notMissing_err (fun k => by cases k <;> decide) rfl
  · split
    · exact NotMissing.refl rfl
    · exact NotMissing.refl rfl

theorem notMissing_notRunning : NotMissing d (d.say (.err "** state must be RUNNING\n")) :=
  notMissing_err (fun k => by cases k <;> decide) rfl

theorem notMissing_load (c path : Str) (rest : List Str) :
    Yields (NotMissing d) (load (c :: path :: rest) d) := by
  unfold load
  refine iteInduction (fun _ => notMissing_err (fun k => by cases k <;> decide) rfl) fun _ => ?_
  refine Yields.ask fun x => ?_
  match x with
  | none => exact notMissing_value rfl not_false
  | some file =>
      show Yields _ (liftParser (elf64Parser file ⟨d.entryPoint, d.textBegin, d.textEnd⟩) >>= _)
      cases elf64Parser file ⟨d.entryPoint, d.textBegin, d.textEnd⟩ with
      | error e => trivial
      | ok res =>
          cases res with
          | none => exact notMissing_err (fun k => by cases k <;> decide) rfl
          | some text => exact notMissing_value rfl not_false

theorem notMissing_plantBreakPoint (addr : Word) :
    Yields (NotMissing d) (plantBreakPoint addr d) := by
  refine Yields.ask fun code => Yields.ask fun poked => ?_
  exact iteInduction (fun _ => notMissing_value rfl not_false) fun _ => NotMissing.refl rfl

theorem notMissing_setBreakPoint (c word : Str) (rest : List Str) :
    Yields (NotMissing d) (setBreakPoint (c :: word :: rest) d) := by
  unfold setBreakPoint
  refine iteInduction (fun _ => notMissing_notRunning d) fun _ => ?_
  refine iteInduction (fun _ => notMissing_value rfl not_false) fun _ => ?_
  refine iteInduction (fun _ => ?_) fun _ => notMissing_plantBreakPoint d _
  have hsay : NotMissing d (d.say (.alreadyExists (d.bptab.dictAddr2idx (breakAddr word)))) :=
    notMissing_value rfl not_false
  exact (notMissing_plantBreakPoint (d.say _) _).imp fun d' hd' => hsay.trans hd'

theorem notMissing_deleteBreakPoint (c word : Str) (rest : List Str) :
    Yields (NotMissing d) (deleteBreakPoint (c :: word :: rest) d) := by
  unfold deleteBreakPoint
  refine iteInduction (fun _ => notMissing_notRunning d) fun _ => ?_
  refine iteInduction (fun _ => notMissing_value rfl not_false) fun _ => ?_
  rw [entryAtIdx]
  split
  · refine Yields.ask fun curCode => Yields.ask fun poked => ?_
    exact iteInduction (fun _ => notMissing_value rfl not_false) fun _ => notMissing_value rfl not_false
  · trivial

theorem notMissing_getSingleReg (c tarReg : Str) (rest : List Str) :
    Yields (NotMissing d) (getSingleReg (c :: tarReg :: rest) d) := by
  unfold getSingleReg
  refine iteInduction (fun _ => notMissing_notRunning d) fun _ => ?_
  refine Yields.ask fun x => ?_
  match x with
  | none => exact notMissing_value rfl not_false
  | some regs =>
      have h := notMissing_regHandler d tarReg 0 regs
      exact iteInduction (fun _ => h) fun _ => h.trans (notMissing_value rfl not_false)

theorem notMissing_setReg (c tarReg val : Str) (rest : List Str) :
    Yields (NotMissing d) (setReg (c :: tarReg :: val :: rest) d) := by
  unfold setReg
  refine iteInduction (fun _ => notMissing_notRunning d) fun _ => ?_
  refine Yields.ask fun x => ?_
  match x with
  | none => exact notMissing_value rfl not_false
  | some regs =>
      have h := notMissing_regHandler d tarReg (BitVec.ofInt 64 (strtol val 0)) regs
      refine iteInduction (fun _ => h) fun _ => ?_
      refine Yields.ask fun set => ?_
      refine iteInduction (fun _ => h.trans (notMissing_value rfl not_false)) fun _ => ?_
      exact iteInduction (fun _ => h.trans (NotMissing.refl rfl)) fun _ => h

theorem notMissing_dumpRows (n : Nat) (tarAddr : Word) :
    Yields (NotMissing d) (dumpRows n tarAddr d) := by
  induction n generalizing d tarAddr with
  | zero => exact NotMissing.refl rfl
  | succ n ih =>
      refine Within.bind (looks_dumpWords d.pid tarAddr nDumpAmt 0).yields fun hex _ => ?_
      refine Within.bind (looks_dumpWords d.pid tarAddr nDumpAmt 0).yields fun chars _ => ?_
      have hsay : NotMissing d (d.say (.dumpRow tarAddr hex (chars.map dumpChar))) :=
        notMissing_value rfl not_false
      exact (ih (d.say _) _).imp fun d' hd' => hsay.trans hd'

theorem notMissing_disasmLoop (n : Nat) (tarAddr : Word) :
    Yields (NotMissing d) (disasmLoop cs n tarAddr d) := by
  induction n generalizing d tarAddr with
  | zero => exact NotMissing.refl rfl
  | succ n ih =>
      rw [disasmLoop]
      refine iteInduction (fun _ => NotMissing.refl rfl) fun _ => ?_
      refine iteInduction (fun hinc => ?_) fun _ => ?_
      · refine Within.bind (within_entryAt hinc) fun bp _ => ?_
        exact (ih _ _).imp fun d' h => (notMissing_translate cs d tarAddr bp.code).trans h
      · refine Yields.ask fun code => ?_
        exact (ih _ _).imp fun d' h => (notMissing_translate cs d tarAddr code).trans h

/-- With enough words no command tells of a missing argument. -/
theorem argCommand_enough (k : ArgCommand) {c : Str} {args : List Str}
    (henough : k.needed ≤ args.length) : Yields (NotMissing d) (k.run cs (c :: args) d) := by
  cases k with
  | set =>
      match args, henough with
      | tarReg :: val :: rest, _ => exact notMissing_setReg d c tarReg val rest
  | load =>
      match args, henough with
      | path :: rest, _ => exact notMissing_load d c path rest
  | «break» =>
      match args, henough with
      | word :: rest, _ => exact notMissing_setBreakPoint d c word rest
  | delete =>
      match args, henough with
      | word :: rest, _ => exact notMissing_deleteBreakPoint d c word rest
  | get =>
      match args, henough with
      | tarReg :: rest, _ => exact notMissing_getSingleReg d c tarReg rest
  | disasm =>
      match args, henough with
      | word :: rest, _ =>
          show Yields _ (disasm cs (c :: word :: rest) d)
          unfold disasm
          refine iteInduction (fun _ => notMissing_notRunning d) fun _ => ?_
          exact iteInduction (fun _ => notMissing_value rfl not_false) fun _ =>
            notMissing_disasmLoop cs d _ _
  | dump =>
      match args, henough with
      | word :: rest, _ =>
          show Yields _ (dump (c :: word :: rest) d)
          unfold dump
          exact iteInduction (fun _ => notMissing_notRunning d) fun _ => notMissing_dumpRows d _ _

end Enough

/-! ## Every request is answered -/

/-- The requests of the commands with arguments. -/
def Req.Edits : Req → Prop
  | .setregs _ _ => True
  | r => r.Pokes

theorem Req.Pokes.edits {r : Req} (h : r.Pokes) : r.Edits := by
  cases r with
  | setregs pid regs => trivial
  | _ => exact h

theorem Req.Looks.edits {r : Req} (h : r.Looks) : r.Edits := by
  cases r with
  | poketext pid addr data => trivial
  | setregs pid regs => trivial
  | _ => exact h

theorem edits_setReg (d : Debugger) (cmds : List Str) :
    Within Req.Edits (fun _ => True) (fun _ => True) (setReg cmds d) := by
  unfold setReg
  refine iteInduction (fun _ => trivial) fun _ => ?_
  match cmds with
  | [] => trivial
  | [_] => trivial
  | [_, _] => trivial
  | _ :: tarReg :: val :: _ =>
      refine Within.ask trivial fun x => ?_
      match x with
      | none => trivial
      | some regs =>
          refine iteInduction (fun _ => trivial) fun _ => Within.ask trivial fun set => ?_
          refine iteInduction (fun _ => trivial) fun _ => ?_
          exact iteInduction (fun _ => trivial) fun _ => trivial

theorem edits_argCommand (cs : Capstone) (k : ArgCommand) (cmds : List Str) (d : Debugger) :
    Within Req.Edits (fun _ => True) (fun _ => True) (k.run cs cmds d) := by
  have hlooks : ∀ {P p}, Within Req.Looks Fault.OfParser P (p : Dbg Debugger) →
      Within Req.Edits (fun _ => True) (fun _ => True) p := fun h =>
    h.mono (fun _ hr => hr.edits) (fun _ _ => trivial) fun _ _ => trivial
  have hpokes : ∀ {P p}, Within Req.Pokes Fault.OfParser P (p : Dbg Debugger) →
      Within Req.Edits (fun _ => True) (fun _ => True) p := fun h =>
    h.mono (fun _ hr => hr.edits) (fun _ _ => trivial) fun _ _ => trivial
  cases k with
  | load => exact hlooks (looks_load d cmds)
  | «break» => exact hpokes (pokes_setBreakPoint d cmds)
  | delete => exact hpokes (pokes_deleteBreakPoint d cmds)
  | get => exact hlooks (looks_getSingleReg d cmds)
  | disasm => exact hlooks (looks_disasm cs d cmds)
  | dump => exact hlooks (looks_dump d cmds)
  | set => exact edits_setReg d cmds

/-- Where every path can be tried to open, the kernel answers each of them. -/
theorem kernel_answers_edits {env : Env} (hfile : ∀ path, ∃ x, env.file path x) (w : World)
    (r : Req) (hr : r.Edits) : ∃ x w', kernel env w r x w' := by
  have hchild : ∀ pid, (∃ t, w.child = .stopped pid t) ∨ ¬ w.child.at pid fun _ => True := by
    intro pid
    by_cases h : w.child.at pid fun _ => True
    · obtain ⟨t, ht, -⟩ := Child.at_iff.1 h
      exact Or.inl ⟨t, ht⟩
    · exact Or.inr h
  cases r with
  | peektext pid addr =>
      rcases hchild pid with ⟨t, ht⟩ | hno
      · exact ⟨_, w, Or.inl ⟨Child.at_iff.2 ⟨t, ht, rfl⟩, rfl⟩⟩
      · exact ⟨_, w, Or.inr ⟨rfl, Or.inr hno, rfl⟩⟩
  | poketext pid addr data =>
      rcases hchild pid with ⟨t, ht⟩ | hno
      · exact ⟨_, _, Or.inl ⟨rfl, Child.at_iff.2 ⟨t, ht, rfl⟩⟩⟩
      · exact ⟨_, w, Or.inr ⟨rfl, Or.inr hno, rfl⟩⟩
  | getregs pid =>
      rcases hchild pid with ⟨t, ht⟩ | hno
      · exact ⟨_, w, Or.inl ⟨Child.at_iff.2 ⟨t, ht, rfl⟩, rfl⟩⟩
      · exact ⟨_, w, Or.inr ⟨rfl, Or.inr hno, rfl⟩⟩
  | setregs pid regs =>
      rcases hchild pid with ⟨t, ht⟩ | hno
      · exact ⟨_, _, Or.inl ⟨rfl, Child.at_iff.2 ⟨t, ht, rfl⟩⟩⟩
      · exact ⟨_, w, Or.inr ⟨rfl, Or.inr hno, rfl⟩⟩
  | readFile path =>
      obtain ⟨x, hx⟩ := hfile path
      exact ⟨x, w, hx, rfl⟩
  | readMaps pid => exact ⟨none, w, rfl⟩
  | _ => exact hr.elim

/-! ## When a missing argument is noticed -/

/-- Every run of a line reports the missing argument and leaves the table, the
tracee, the state and the flag as they were. -/
def Noticed (cs : Capstone) (env : Env) (line : Str) (d : Debugger) (w : World) (text : String) :
    Prop :=
  ∀ o w', Runs (kernel env) (commandLoop cs line d) w o w' →
    ∃ d', o = .done (.next d') ∧ (∃ l, d'.out = d.out ++ l ∧ .err text ∈ l) ∧
      d'.bptab = d.bptab ∧ d'.state = d.state ∧ d'.lastCmdIsSetRip = d.lastCmdIsSetRip ∧ w' = w

/-- The words a command is given, for a line with these words. -/
theorem dbgcmdParser_of_words {line c : Str} {args : List Str}
    (hwords : words (· == ' ') line = c :: args) :
    dbgcmdParser line ' ' = c :: (args ++ if line.getLast? = some ' ' then [[]] else []) := by
  have hline : line ≠ [] := by
    rintro rfl
    cases hwords
  have hend : endsEmpty ' ' line = decide (line.getLast? = some ' ') := by
    rw [endsEmpty, List.getLast?_eq_some_getLast hline]
    simp [beq_eq_decide]
  rw [dbgcmdParser_eq, wordsThenRest, hwords, hend, List.cons_append]
  simp

/-- A missing argument is noticed exactly when the line does not end with a
blank or more than one word is missing. -/
theorem missing_argument_noticed_iff (cs : Capstone) {env : Env}
    (hfile : ∀ path, ∃ x, env.file path x) (k : ArgCommand) {line c : Str} {args : List Str}
    (hwords : words (· == ' ') line = c :: args) (hc : c ∈ k.names)
    (hfew : args.length < k.needed) {d : Debugger} (hd : d.state = k.state) (w : World) :
    Noticed cs env line d w k.missingText ↔
      line.getLast? ≠ some ' ' ∨ args.length + 1 < k.needed := by
  have hparsed := dbgcmdParser_of_words hwords
  have hloop := commandLoop_argCommand cs k hc hparsed d
  by_cases hcount : line.getLast? ≠ some ' ' ∨ args.length + 1 < k.needed
  · refine iff_of_true (fun o w' hr => ?_) hcount
    have hfew' : (args ++ if line.getLast? = some ' ' then [[]] else []).length < k.needed := by
      rcases hcount with hlast | hmore
      · simpa [hlast] using hfew
      · split
        · simpa using hmore
        · simpa using hfew
    rw [hloop, argCommand_few cs k hfew' hd] at hr
    obtain ⟨rfl, rfl⟩ := hr
    exact ⟨_, rfl, ⟨[.err k.missingText], rfl, by simp⟩, rfl, rfl, rfl, rfl⟩
  · refine iff_of_false (fun hnoticed => ?_) hcount
    simp only [ne_eq, not_or, not_not, Nat.not_lt] at hcount
    have henough : k.needed ≤
        (args ++ if line.getLast? = some ' ' then [[]] else []).length := by
      simpa [hcount.1] using hcount.2
    obtain ⟨o₁, w₁, hr₁⟩ :=
      (edits_argCommand cs k (c :: (args ++ if line.getLast? = some ' ' then [[]] else [])) d).exists_run
        (kernel_answers_edits hfile) w
    cases o₁ with
    | fault e =>
        have hr : Runs (kernel env) (commandLoop cs line d) w (.fault e) w₁ := by
          rw [hloop, runs_bind]
          exact Or.inr ⟨e, hr₁, rfl⟩
        obtain ⟨d', ho, -⟩ := hnoticed _ _ hr
        cases ho
    | done d₁ =>
        obtain ⟨d', ho, ⟨l, hl, hmem⟩, -⟩ :=
          hnoticed _ _ (runs_commandLoop_of_argCommand cs hc hparsed hr₁)
        cases ho
        -- what the run prints is what the command prints, and that is nothing of the kind
        obtain ⟨l', hl', hno⟩ := (argCommand_enough cs d k henough).runs hr₁
        obtain rfl : l = l' := List.append_cancel_left (hl.symm.trans hl')
        exact hno _ hmem ⟨k, rfl⟩

/-- `del ` with nothing but a blank deletes breakpoint 0. -/
theorem trailing_blank_not_noticed :
    words (· == ' ') "del ".toList = ["del".toList] ∧ Sample.planted.state = .running ∧
      Sample.planted.bptab.addrs = [0x1000] ∧
      (∃ d' w', Runs (kernel Sample.quiet) (commandLoop Sample.capstone "del ".toList Sample.planted)
        ⟨false, .stopped 1 Sample.trapped⟩ (.done (.next d')) w' ∧ d'.bptab.addrs = []) ∧
      ¬ Noticed Sample.capstone Sample.quiet "del ".toList Sample.planted
        ⟨false, .stopped 1 Sample.trapped⟩ "** no break-point-id is given\n" := by
  have hwords : words (· == ' ') "del ".toList = ["del".toList] := by decide
  have hparsed : dbgcmdParser "del ".toList ' ' = ["del".toList, []] :=
    dbgcmdParser_of_words hwords
  have hinc : Sample.planted.bptab.includeIdx (atoi []) = true := by decide
  have hat : Sample.planted.bptab.atIdx (atoi []) = some ⟨0x9090909090909090, 0x1000⟩ := rfl
  have hrun := (runs_deleteBreakPoint (f := false) (t := Sample.trapped) (c := "del".toList)
    (l := []) Sample.quiet_grants rfl hinc hat).2 ⟨rfl, rfl⟩
  have hr := runs_commandLoop_of_argCommand Sample.capstone (k := .delete) (by decide)
    hparsed hrun
  refine ⟨hwords, rfl, rfl, ⟨_, _, hr, rfl⟩, fun hnoticed => ?_⟩
  obtain ⟨d', hd, -, htab, -⟩ := hnoticed _ _ hr
  cases hd
  exact absurd htab (by decide)

theorem missing_argument_noticed_iff_planted :
    Noticed Sample.capstone Sample.quiet " del".toList Sample.planted
        ⟨false, .stopped 1 Sample.trapped⟩ ArgCommand.delete.missingText ↔
      " del".toList.getLast? ≠ some ' ' ∨ ([] : List Str).length + 1 < ArgCommand.delete.needed :=
  missing_argument_noticed_iff Sample.capstone (fun _ => ⟨_, rfl⟩) .delete
    (c := "del".toList) (by decide) (by decide) (by decide) rfl _

end Sdb
