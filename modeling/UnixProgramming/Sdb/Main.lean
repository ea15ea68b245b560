import UnixProgramming.Sdb.UserRefinement
import UnixProgramming.Text.Lines
import UnixProgramming.Text.Operands

/-!
# The debugger from its command line on

`sdb` takes a script with `-s` and the program to debug as its operand.  The program is
loaded before the first line is read; the lines are those of the script, or of the standard
input, and only there the user is prompted.

* `argParser`, `main` — the code.
* `main_eq_promptLoop` — a program on the command line is a `load` before the first line.
* `Watched`, `runs_promptLoop` — the user's run with what is seen after each line, and where
  the prompts stand in it.
* `promptLoop_prompts` — a prompt before the first line, and one after each line that was not
  empty, up to the one that says `exit`.
* `main_refines_view` — what `sdb` does, whatever its command line, is the user's run on the
  lines of the session.
-/

namespace Sdb

open ByteMemory CString Getopt Requests

/-! ## The code -/

/-- The options it knows. -/
def optstring : Str := ['s', ':']

/-- The loop over the options.  Those that are not known are passed by. -/
def options : List Returned → Str → Str
  | [], script => script
  | .option 's' (some optarg) :: rest, _ => options rest optarg
  | _ :: rest, script => options rest script

/-- `script` and `program`, empty where they are not given. -/
structure Arguments where
  script : Str
  program : Str

/-- `arg_parser`. -/
def argParser (posixlyCorrect : Bool) (argv : List Str) : Arguments where
  script := options (calls optstring posixlyCorrect ⟨[], argv.tail⟩) []
  program := (operands optstring posixlyCorrect ⟨[], argv.tail⟩).headD []

/-- Where lines can be read from: the standard input, and the files that can be opened. -/
structure Sources where
  cin : Str
  open? : Str → Option Str

/-- The lines `getline` reads, without their newlines. -/
def getlines (text : Str) : List Str :=
  (lines text).map fun l => if l.getLast? = some '\n' then l.dropLast else l

/-- The lines `main` reads.  From a script that was not opened there are none. -/
def Sources.lines (src : Sources) (script : Str) : List Str :=
  if script = [] then getlines src.cin else getlines ((src.open? script).getD [])

/-- The members and, of each prompt, how many messages stand before it. -/
structure Prompted where
  members : Debugger
  prompts : List Nat

/-- `if(script == "") cout << "sdb> "`. -/
def Prompted.prompt (script : Str) (s : Prompted) : Prompted :=
  if script = [] then { s with prompts := s.prompts ++ [s.members.out.length] } else s

/-- The loop of `main`, with its prompts.  The empty line goes on to the next at once. -/
def promptLoop (cs : Capstone) (script : Str) : List Str → Prompted → Dbg Prompted
  | [], s => pure s
  | line :: rest, s => do
      match ← commandLoop cs line s.members with
      | .quit d => pure { s with members := d }
      | .next d =>
          if line = [] then promptLoop cs script rest { s with members := d }
          else promptLoop cs script rest (Prompted.prompt script { s with members := d })

/-- The line that loads a program. -/
def loadLine (program : Str) : Str := "load ".toList ++ program

/-- The program on the command line. -/
def loadGiven (program : Str) : Dbg Debugger :=
  if program = [] then pure .init else load (dbgcmdParser (loadLine program) ' ') .init

/-- `main`. -/
def main (cs : Capstone) (src : Sources) (posixlyCorrect : Bool) (argv : List Str) :
    Dbg Prompted := do
  let args := argParser posixlyCorrect argv
  let d ← loadGiven args.program
  promptLoop cs args.script (src.lines args.script) (Prompted.prompt args.script ⟨d, []⟩)

/-! ## The lines of a session -/

/-- What the debugger is told: to load its program, and then the lines that are read. -/
def inputLines (src : Sources) (args : Arguments) : List Str :=
  (if args.program = [] then [] else [loadLine args.program]) ++ src.lines args.script

/-- A prompt before the first line, with nothing printed yet.  With a program there is none:
the load comes first. -/
def firstPrompts (args : Arguments) : List Nat :=
  if args.script = [] ∧ args.program = [] then [0] else []

theorem members_prompt (script : Str) (s : Prompted) :
    (Prompted.prompt script s).members = s.members := by
  unfold Prompted.prompt
  split <;> rfl

section Loop

variable (cs : Capstone) (script : Str)

/-- The prompts apart it is the loop on the members. -/
theorem members_promptLoop (lines : List Str) (s : Prompted) :
    (promptLoop cs script lines s >>= fun s => pure s.members) =
      mainLoop cs lines s.members := by
  induction lines generalizing s with
  | nil => rfl
  | cons line rest ih =>
      rw [promptLoop, mainLoop, Prog.bind_assoc]
      congr 1
      funext flow
      cases flow with
      | quit d => rfl
      | next d =>
          by_cases hline : line = []
          · simp only [if_pos hline]
            exact ih _
          · simp only [if_neg hline]
            rw [ih, members_prompt]

/-- The words of the line that loads a program. -/
theorem dbgcmdParser_loadLine (program : Str) :
    dbgcmdParser (loadLine program) ' ' = "load".toList :: wordsThenRest ' ' program := by
  have hword : ∀ c ∈ "load".toList, (c == ' ') = false := by simp
  have hline : loadLine program = "load".toList ++ ' ' :: program := rfl
  rw [dbgcmdParser_eq, hline, wordsThenRest_word hword (by simp)]

/-- That line loads it. -/
theorem commandLoop_loadLine (program : Str) (d : Debugger) :
    commandLoop cs (loadLine program) d =
      load (dbgcmdParser (loadLine program) ' ') d >>= fun d' => pure (.next d') := by
  rw [dbgcmdParser_loadLine]
  exact commandLoop_argCommand cs .load (List.mem_singleton_self _)
    (dbgcmdParser_loadLine program) d

/-- **A program on the command line is a line of input.** -/
theorem main_eq_promptLoop (src : Sources) (posixlyCorrect : Bool) (argv : List Str) :
    main cs src posixlyCorrect argv =
      promptLoop cs (argParser posixlyCorrect argv).script
        (inputLines src (argParser posixlyCorrect argv))
        ⟨.init, firstPrompts (argParser posixlyCorrect argv)⟩ := by
  generalize hargs : argParser posixlyCorrect argv = args
  simp only [main, hargs]
  by_cases hprogram : args.program = []
  · have hfirst : Prompted.prompt args.script ⟨.init, []⟩ = ⟨.init, firstPrompts args⟩ := by
      by_cases hscript : args.script = []
      · rw [Prompted.prompt, if_pos hscript, firstPrompts, if_pos ⟨hscript, hprogram⟩]
        rfl
      · rw [Prompted.prompt, if_neg hscript, firstPrompts, if_neg fun h => hscript h.1]
    rw [loadGiven, if_pos hprogram, inputLines, if_pos hprogram, ← hfirst]
    rfl
  · have hline : ¬ loadLine args.program = [] := by simp [loadLine]
    rw [loadGiven, if_neg hprogram, inputLines, if_neg hprogram, firstPrompts,
      if_neg fun h => hprogram h.2, List.singleton_append, promptLoop, commandLoop_loadLine,
      Prog.bind_assoc]
    simp only [Prog.pure_eq, Prog.done_bind, if_neg hline]

theorem members_main (src : Sources) (posixlyCorrect : Bool) (argv : List Str) :
    (main cs src posixlyCorrect argv >>= fun s => pure s.members) =
      mainLoop cs (inputLines src (argParser posixlyCorrect argv)) .init := by
  rw [main_eq_promptLoop, members_promptLoop]

end Loop

/-! ## The prompts -/

/-- The user's run to its end, without a fault.  Of each line that was read before the one
that says `exit`, `seen` has the view it leaves. -/
inductive Watched (cs : Capstone) (m : Machine) :
    List Str → View → List (Str × View) → View → Prop
  | over (v : View) : Watched cs m [] v [] v
  | quit {line : Str} {rest : List Str} {v : View} (h : Command.ofLine line = .quit) :
      Watched cs m (line :: rest) v [] ⟨v.members.release, v.child⟩
  | next {line : Str} {rest : List Str} {v v₁ v' : View} {seen : List (Str × View)}
      (h : Command.ofLine line ≠ .quit) (hstep : Step cs m (Command.ofLine line) v none v₁)
      (hrest : Watched cs m rest v₁ seen v') :
      Watched cs m (line :: rest) v ((line, v₁) :: seen) v'

/-- Every run that ends without a fault can be watched. -/
theorem exists_watched {cs : Capstone} {m : Machine} {lines : List Str} {v v' : View}
    (h : UserRun cs m lines v none v') : ∃ seen, Watched cs m lines v seen v' := by
  induction lines generalizing v with
  | nil =>
      obtain ⟨-, rfl⟩ := h
      exact ⟨[], .over v'⟩
  | cons line rest ih =>
      by_cases hquit : Command.ofLine line = .quit
      · obtain ⟨-, rfl⟩ := (userRun_quit hquit).1 h
        exact ⟨[], .quit hquit⟩
      · rcases (userRun_next rfl hquit).1 h with ⟨v₁, hstep, hrest⟩ | ⟨hfault, -⟩
        · obtain ⟨seen, hwatched⟩ := ih hrest
          exact ⟨(line, v₁) :: seen, .next hquit hstep hwatched⟩
        · exact absurd rfl hfault

/-- Where the prompts after those lines stand: each behind what has been printed by then, and
none after an empty line. -/
def promptsAfter (script : Str) (seen : List (Str × View)) : List Nat :=
  if script = [] then
    (seen.filter fun x => x.1 ≠ []).map fun x => x.2.members.out.length
  else []

theorem promptsAfter_nil (script : Str) : promptsAfter script [] = [] := by
  simp [promptsAfter]

theorem promptsAfter_cons (script line : Str) (v : View) (seen : List (Str × View)) :
    promptsAfter script ((line, v) :: seen) =
      promptsAfter script [(line, v)] ++ promptsAfter script seen := by
  unfold promptsAfter
  split
  · rw [← List.singleton_append, List.filter_append, List.map_append]
  · rfl

/-- What follows a line, with its prompt. -/
theorem promptLoop_next (cs : Capstone) (script line : Str) (rest : List Str) (v : View)
    (ps : List Nat) :
    (if line = [] then promptLoop cs script rest ⟨v.members, ps⟩
      else promptLoop cs script rest (Prompted.prompt script ⟨v.members, ps⟩)) =
    promptLoop cs script rest ⟨v.members, ps ++ promptsAfter script [(line, v)]⟩ := by
  by_cases hscript : script = []
  · by_cases hline : line = []
    · simp [promptsAfter, hscript, hline]
    · simp [promptsAfter, hscript, hline, Prompted.prompt]
  · simp [promptsAfter, hscript, Prompted.prompt]

section Loop

variable {cs : Capstone} {m : Machine} {S : Set Addr} {P : Tracee → Prop} {v : View}

/-- One line without a fault: `exit`, or the step of its command. -/
theorem runs_line (hm : m.Disciplined S P) (h : View.Ok m S P v) {line : Str} {flow : Flow}
    {w₁ : World} :
    Runs (kernel m.env) (commandLoop cs line v.members) v.world (.done flow) w₁ ↔
      (Command.ofLine line = .quit ∧ flow = .quit v.members.release ∧ w₁ = v.world) ∨
        Command.ofLine line ≠ .quit ∧ ∃ v₁, Step cs m (Command.ofLine line) v none v₁ ∧
          flow = .next v₁.members ∧ w₁ = v₁.world := by
  by_cases hquit : Command.ofLine line = .quit
  · rw [commandLoop_quit hquit]
    simp only [Prog.pure_eq, runs_done, Result.done.injEq, hquit, true_and, ne_eq, not_true_eq_false,
      false_and, or_false]
  · rw [runs_commandLoop_line hm h hquit]
    simp only [hquit, false_and, ne_eq, not_false_eq_true, true_and, false_or]
    constructor
    · rintro ⟨e, v₁, hstep, heq, rfl⟩
      cases e with
      | some f => cases heq
      | none =>
          cases heq
          exact ⟨v₁, hstep, rfl, rfl⟩
    · rintro ⟨v₁, hstep, rfl, rfl⟩
      exact ⟨none, v₁, hstep, rfl, rfl⟩

/-- The loop is a user's run, with the prompts where that has them. -/
theorem runs_promptLoop (hm : m.Disciplined S P) {script : Str} {lines : List Str}
    (h : View.Ok m S P v) (hr : Respects cs m S P lines v) {ps : List Nat} {s : Prompted}
    {w' : World} :
    Runs (kernel m.env) (promptLoop cs script lines ⟨v.members, ps⟩) v.world (.done s) w' ↔
      ∃ seen v', Watched cs m lines v seen v' ∧
        s = ⟨v'.members, ps ++ promptsAfter script seen⟩ ∧ w' = v'.world := by
  induction lines generalizing v ps with
  | nil =>
      constructor
      · rintro ⟨heq, rfl⟩
        exact ⟨[], v, .over v, by rw [Result.done.inj heq, promptsAfter_nil, List.append_nil], rfl⟩
      · rintro ⟨seen, v', hwatched, rfl, rfl⟩
        cases hwatched
        exact ⟨by rw [promptsAfter_nil, List.append_nil], rfl⟩
  | cons line rest ih =>
      rw [promptLoop, runs_bind_done]
      simp only [runs_line hm h]
      constructor
      · rintro ⟨flow, w₁, ⟨hquit, rfl, rfl⟩ | ⟨hquit, v₁, hstep, rfl, rfl⟩, hend⟩
        · obtain ⟨heq, rfl⟩ := hend
          exact ⟨[], _, .quit hquit,
            by rw [Result.done.inj heq, promptsAfter_nil, List.append_nil], rfl⟩
        · obtain ⟨hallowed, hrest⟩ := hr hquit
          simp only [promptLoop_next] at hend
          obtain ⟨seen, v', hwatched, rfl, rfl⟩ :=
            (ih (h.step hm hquit hallowed hstep) (hrest v₁ hstep)).1 hend
          refine ⟨_, v', .next hquit hstep hwatched, ?_, rfl⟩
          rw [promptsAfter_cons script line v₁ seen, List.append_assoc]
      · rintro ⟨seen, v', hwatched, rfl, rfl⟩
        cases hwatched with
        | quit hquit =>
            exact ⟨_, _, Or.inl ⟨hquit, rfl, rfl⟩, by rw [promptsAfter_nil, List.append_nil], rfl⟩
        | @next _ _ _ v₁ _ seen hquit hstep hwatched =>
            obtain ⟨hallowed, hrest⟩ := hr hquit
            refine ⟨.next v₁.members, v₁.world, Or.inr ⟨hquit, v₁, hstep, rfl, rfl⟩, ?_⟩
            simp only [promptLoop_next]
            refine (ih (h.step hm hquit hallowed hstep) (hrest v₁ hstep)).2
              ⟨seen, v', hwatched, ?_, rfl⟩
            rw [promptsAfter_cons script line v₁ seen, List.append_assoc]

end Loop

/-- The lines after which `main` prompts: those before the one that says `exit`, less the
empty ones. -/
def answeredLines : List Str → List Str
  | [] => []
  | line :: rest =>
      if asksExit line = true then []
      else if line = [] then answeredLines rest
      else line :: answeredLines rest
where
  asksExit (line : Str) : Bool :=
    match dbgcmdParser line ' ' with
    | [] => false
    | c :: _ => c = "exit".toList ∨ c = "q".toList

/-- How many prompts there are. -/
def promptCount (script : Str) (lines : List Str) : Nat :=
  if script = [] then 1 + (answeredLines lines).length else 0

theorem prompts_prompt (script : Str) (s : Prompted) :
    (Prompted.prompt script s).prompts.length =
      s.prompts.length + if script = [] then 1 else 0 := by
  unfold Prompted.prompt
  split
  · rw [List.length_append, List.length_singleton]
  · rfl

/-- A line that says `exit` is the only one that ends the loop. -/
theorem commandLoop_flow (cs : Capstone) (line : Str) (d : Debugger) :
    Yields (fun flow => match flow with
      | .quit _ => answeredLines.asksExit line = true
      | .next _ => answeredLines.asksExit line = false) (commandLoop cs line d) := by
  obtain ⟨c, args, hwords⟩ := exists_words line
  have hexit : answeredLines.asksExit line = decide (c = "exit".toList ∨ c = "q".toList) := by
    rw [answeredLines.asksExit, hwords]
  unfold commandLoop
  rw [hwords, hexit]
  by_cases hc : c = "exit".toList ∨ c = "q".toList
  · simp only [if_pos hc]
    exact decide_eq_true hc
  · simp only [if_neg hc]
    exact (yields_true _).bind fun d' _ => decide_eq_false hc

theorem promptLoop_prompts (cs : Capstone) (script : Str) (lines : List Str) (s : Prompted) :
    Yields (fun s' => s'.prompts.length = s.prompts.length +
      if script = [] then (answeredLines lines).length else 0) (promptLoop cs script lines s) := by
  have hnone : ∀ s : Prompted,
      s.prompts.length = s.prompts.length + if script = [] then 0 else 0 :=
    fun s => by rw [ite_self, Nat.add_zero]
  induction lines generalizing s with
  | nil => exact hnone s
  | cons line rest ih =>
      refine (commandLoop_flow cs line s.members).bind fun flow hflow => ?_
      cases flow with
      | quit d =>
          rw [answeredLines, if_pos hflow]
          exact hnone s
      | next d =>
          have hgoes : ¬ answeredLines.asksExit line = true := by simp [hflow]
          rw [answeredLines, if_neg hgoes]
          by_cases hline : line = []
          · simp only [if_pos hline]
            exact ih { s with members := d }
          · simp only [if_neg hline]
            refine (ih _).imp fun s' hs' => ?_
            rw [hs', prompts_prompt]
            split
            · rw [List.length_cons, Nat.add_assoc, Nat.add_comm 1]
            · rfl

/-- Without a script there is a prompt before the first line and one after each line that is
answered; with one there is none. -/
theorem main_prompts (cs : Capstone) (src : Sources) (posixlyCorrect : Bool) (argv : List Str) :
    Yields (fun s => s.prompts.length =
        promptCount (argParser posixlyCorrect argv).script
          (src.lines (argParser posixlyCorrect argv).script))
      (main cs src posixlyCorrect argv) := by
  generalize hargs : argParser posixlyCorrect argv = args
  simp only [main, hargs]
  refine (yields_true _).bind fun d _ => (promptLoop_prompts cs _ _ _).imp fun s hs => ?_
  rw [hs, prompts_prompt, promptCount]
  split
  · rw [List.length_nil, Nat.zero_add]
  · rfl

/-! ## The command line -/

theorem letter_eq (g : Given optstring) : g.letter = 's' := by
  have htakes := g.takes
  simp only [takesArgument, takesArgument.look, optstring] at htakes
  by_contra hletter
  split at htakes
  · cases htakes
  · next hcolon =>
      rw [not_or] at hcolon
      rw [if_neg (Ne.symm hletter), if_neg (Ne.symm hcolon.1)] at htakes
      cases htakes

/-- The script is the one given last. -/
theorem options_given (gs : List (Given optstring)) (script : Str) :
    options (gs.map Given.returned) script = lastGiven 's' gs script := by
  induction gs generalizing script with
  | nil => rfl
  | cons g gs ih =>
      have hread : options ((g :: gs).map Given.returned) script =
          options (gs.map Given.returned) g.optarg := by
        rw [List.map_cons, Given.returned, letter_eq g, options]
      rw [hread, ih, lastGiven_cons, if_pos (letter_eq g)]

/-- The script last given, and the first operand. -/
def Arguments.ofItems (items : List (Item optstring)) : Arguments where
  script := lastGiven 's' (items.filterMap Item.option?) []
  program := (items.filterMap Item.operand?).headD []

/-- Options are taken from anywhere on the command line. -/
theorem argParser_items (sdb : Str) (items : List (Item optstring)) :
    argParser false (sdb :: items.flatMap Item.words) = .ofItems items := by
  obtain ⟨hcalls, hoperands⟩ := getopt_items items []
  rw [calls_of_none (s := ⟨[], []⟩) rfl, List.append_nil, List.append_nil] at hcalls
  rw [operands_nil, List.append_nil, List.append_nil] at hoperands
  rw [argParser, List.tail_cons, hcalls, hoperands, options_given]
  rfl

/-- **The debugger is its user's run.**  Over a program whose instructions have nothing to do
with breakpoints, set at addresses of `S` and none twice: `sdb`, with options and operands in
any order, does what the user sees done by loading the first operand and then by the lines of
the script last given, or of the standard input.  Without a script it prompts where the first
line is read and then behind what every line that is answered prints. -/
theorem main_refines_view (cs : Capstone) {m : Machine} {S : Set Addr} {P : Tracee → Prop}
    (hm : m.Disciplined S P) (src : Sources) (sdb : Str) (items : List (Item optstring))
    (hr : Respects cs m S P (inputLines src (.ofItems items)) .init) :
    (∀ o w', Runs (kernel m.env)
        (main cs src false (sdb :: items.flatMap Item.words) >>= fun s => pure s.members)
        ⟨false, .absent⟩ o w' ↔
      ∃ e v', UserRun cs m (inputLines src (.ofItems items)) .init e v' ∧
        o = ended e v'.members ∧ w' = v'.world) ∧
    (∀ s w', Runs (kernel m.env) (main cs src false (sdb :: items.flatMap Item.words))
        ⟨false, .absent⟩ (.done s) w' ↔
      ∃ seen v', Watched cs m (inputLines src (.ofItems items)) .init seen v' ∧
        s = ⟨v'.members, firstPrompts (.ofItems items) ++
          promptsAfter (Arguments.ofItems items).script seen⟩ ∧ w' = v'.world) ∧
    ∀ s w', Runs (kernel m.env) (main cs src false (sdb :: items.flatMap Item.words))
        ⟨false, .absent⟩ (.done s) w' →
      s.prompts.length = promptCount (Arguments.ofItems items).script
        (src.lines (Arguments.ofItems items).script) := by
  refine ⟨fun o w' => ?_, fun s w' => ?_, fun s w' hrun => ?_⟩
  · rw [members_main, argParser_items]
    exact performs_mainLoop hm View.Ok.init hr o w'
  · rw [main_eq_promptLoop, argParser_items]
    exact runs_promptLoop hm View.Ok.init hr
  · have hprompts := (main_prompts cs src false (sdb :: items.flatMap Item.words)).runs hrun
    rw [argParser_items] at hprompts
    exact hprompts

namespace Sample

/-- `-s f`. -/
def scriptOption : Given optstring where
  letter := 's'
  optarg := ['f']
  joined := false
  takes := rfl
  notDash := by decide
  nonempty := by simp

/-- The script is in the file `f`. -/
def sources : Sources where
  cin := []
  open? path := if path = ['f'] then some "start\nb 0x1000\nc\n".toList else none

/-- The command line `sdb a -s f`. -/
def items : List (Item optstring) := [.operand ['a'] rfl, .option scriptOption]

theorem inputLines_items : inputLines sources (.ofItems items) = script := by decide

end Sample

/-- `sdb a -s f` stops at the breakpoint of the script, and has not prompted. -/
theorem main_refines_view_looping :
    Runs (kernel Sample.machine.env)
      (main Sample.capstone Sample.sources false
        ("sdb".toList :: Sample.items.flatMap Item.words))
      ⟨false, .absent⟩
      (.done ⟨{ (Report.breakpoint 0x1000).print Sample.capstone Sample.planted with
        lastCmdIsSetRip := false }, []⟩)
      ⟨false, .stopped 1 (Sample.tracee.trapped [0x1000])⟩ := by
  have hr : Respects Sample.capstone Sample.machine Set.univ
      (fun s => s.mem = Sample.tracee.mem)
      (inputLines Sample.sources (.ofItems Sample.items)) .init := by
    rw [Sample.inputLines_items]
    exact Sample.respects_script
  obtain ⟨seen, hwatched⟩ := exists_watched Sample.userRun_script
  rw [← Sample.inputLines_items] at hwatched
  exact ((main_refines_view Sample.capstone Sample.machine_disciplined Sample.sources
    "sdb".toList Sample.items hr).2.1 _ _).2 ⟨seen, Sample.stopped, hwatched, rfl, rfl⟩

end Sdb
