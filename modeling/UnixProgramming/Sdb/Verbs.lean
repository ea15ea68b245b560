import UnixProgramming.Sdb.Command

/-!
# What a line of input asks for

`main` of `hw4/hw4.cpp` compares the first word of a line with the names of the
commands, and the member function it calls reads the rest of the words.  Here
the two are taken apart: the line is read, and the command it asks for is run.

* `Verb.ofWord` — the member function a word names.
* `Command.ofLine` — the line with its arguments read.
* `dispatch_eq_run` — the comparisons of `main` are that.
* `mainLoop` — the loop of `main` over the lines of its input.
-/

namespace Sdb

open ByteMemory CString Requests

/-! ## The member functions -/

/-- The member functions `main` calls, and its answer to any other word. -/
inductive Verb where
  | help
  | start
  | cont
  | list
  | si
  | getregs
  | vmmap
  | run
  | unknown
  | withArgs (k : ArgCommand)

namespace Verb

/-- The member function a word names, in the order `main` tests them. -/
def ofWord (c : Str) : Verb :=
  if c = "help".toList ∨ c = "h".toList then help
  else if c = "load".toList then withArgs .load
  else if c = "start".toList then start
  else if c = "cont".toList ∨ c = "c".toList then cont
  else if c = "break".toList ∨ c = "b".toList then withArgs .break
  else if c = "list".toList ∨ c = "l".toList then list
  else if c = "si".toList then si
  else if c = "delete".toList ∨ c = "del".toList then withArgs .delete
  else if c = "get".toList ∨ c = "g".toList then withArgs .get
  else if c = "getregs".toList then getregs
  else if c = "set".toList ∨ c = "s".toList then withArgs .set
  else if c = "vmmap".toList ∨ c = "m".toList then vmmap
  else if c = "disasm".toList ∨ c = "d".toList then withArgs .disasm
  else if c = "dump".toList ∨ c = "x".toList then withArgs .dump
  else if c = "run".toList ∨ c = "r".toList then run
  else unknown

/-- The member function, on the words of the line. -/
def exec (cs : Capstone) : Verb → List Str → Debugger → Dbg Debugger
  | help, _, d => pure (Sdb.help d)
  | start, _, d => Sdb.start cs d
  | cont, _, d => Sdb.cont cs d
  | list, _, d => pure (Sdb.list d)
  | si, _, d => stepIn cs d
  | getregs, _, d => getAllRegs d
  | vmmap, _, d => Sdb.vmmap d
  | run, _, d => Sdb.run cs d
  | unknown, _, d => pure (d.say (.err "** nothing happened\n"))
  | withArgs k, cmds, d => k.run cs cmds d

end Verb

/-- `main` calls the member function its comparisons find. -/
theorem dispatch_eq_exec (cs : Capstone) {line : Str} (hline : line ≠ []) (cmds : List Str)
    (c : Str) (d : Debugger) :
    dispatch cs line cmds c d = (Verb.ofWord c).exec cs cmds d := by
  have ite : ∀ {q : Prop} [Decidable q] {a b : Dbg Debugger} {u v : Verb},
      a = u.exec cs cmds d → b = v.exec cs cmds d →
        (if q then a else b) = (if q then u else v).exec cs cmds d := by
    rintro q _ _ _ u v rfl rfl
    exact (apply_ite (fun v => v.exec cs cmds d) q u v).symm
  unfold dispatch Verb.ofWord
  rw [if_neg hline]
  refine ite rfl (ite rfl (ite rfl (ite rfl (ite rfl (ite rfl (ite rfl (ite rfl ?_)))))))
  exact ite rfl (ite rfl (ite rfl (ite rfl (ite rfl (ite rfl (ite rfl rfl))))))

/-! ## Reading the arguments -/

/-- A line of input with its arguments read: the words after the command's name
that it does not need are not looked at. -/
inductive Command where
  /-- The empty line. -/
  | nothing
  /-- `exit`. -/
  | quit
  /-- A word that names no command. -/
  | unknown
  | help
  | start
  | cont
  | list
  | si
  | getregs
  | vmmap
  | run
  | load (path : Str)
  | «break» (addr : Word)
  | delete (idx : Int)
  | get (reg : Str)
  | set (reg : Str) (value : Word)
  | disasm (addr : Word)
  | dump (addr : Word)
  /-- A command with too few words after its name. -/
  | missing (k : ArgCommand)

/-- The command with its arguments. -/
def Verb.command : Verb → List Str → Command
  | help, _ => .help
  | start, _ => .start
  | cont, _ => .cont
  | list, _ => .list
  | si, _ => .si
  | getregs, _ => .getregs
  | vmmap, _ => .vmmap
  | run, _ => .run
  | unknown, _ => .unknown
  | withArgs .load, path :: _ => .load path
  | withArgs .break, word :: _ => .break (breakAddr word)
  | withArgs .delete, word :: _ => .delete (atoi word)
  | withArgs .get, reg :: _ => .get reg
  | withArgs .set, reg :: word :: _ => .set reg (BitVec.ofInt 64 (strtol word 0))
  | withArgs .disasm, word :: _ => .disasm (breakAddr word)
  | withArgs .dump, word :: _ => .dump (breakAddr word)
  | withArgs k, _ => .missing k

/-- The command a line asks for. -/
def Command.ofLine (line : Str) : Command :=
  match dbgcmdParser line ' ' with
  | [] => .nothing
  | c :: args =>
      if c = "exit".toList ∨ c = "q".toList then .quit
      else if line = [] then .nothing
      else (Verb.ofWord c).command args

/-! ## The loop of `main` -/

/-- The loop of `main`: a line after another, until the input ends or a line
says `exit`. -/
def mainLoop (cs : Capstone) : List Str → Debugger → Dbg Debugger
  | [], d => pure d
  | line :: rest, d => do
      match ← commandLoop cs line d with
      | .quit d => pure d
      | .next d => mainLoop cs rest d

section Line

variable {cs : Capstone} {W : Type} {K : Kernel Req Ans W} {line c : Str} {args : List Str}
  {d : Debugger} {w w' : W} {o : Result Fault Flow}

theorem exists_words (line : Str) : ∃ c args, dbgcmdParser line ' ' = c :: args :=
  List.exists_cons_of_ne_nil (dbgcmdParserLoop_ne_nil line ' ' 0 [])

/-- A line that does not say `exit` runs the member function its first word
names; the empty line runs none. -/
theorem runs_commandLoop_of_words (hwords : dbgcmdParser line ' ' = c :: args)
    (hquit : ¬ (c = "exit".toList ∨ c = "q".toList)) (hline : line ≠ []) :
    Runs K (commandLoop cs line d) w o w' ↔
      Runs K ((Verb.ofWord c).exec cs (c :: args) d >>= fun d' => pure (.next d')) w o w' := by
  unfold commandLoop
  rw [hwords]
  simp only [if_neg hquit]
  rw [dispatch_eq_exec cs hline]

end Line

end Sdb
