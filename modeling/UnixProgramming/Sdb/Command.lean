import UnixProgramming.Sdb.CommandLine
import UnixProgramming.Sdb.Debugger

/-!
# The commands

The member functions of `class debugger` of `hw4/command.hpp` and the command
loop of `hw4/hw4.cpp`, each as a program that takes the debugger's members to
the members afterwards and makes the system calls of the source in its order.

* `start`, `cont`, `stepIn`, `run` — the commands that let the tracee run.
* `setBreakPoint`, `deleteBreakPoint` — the commands that change the table.
* `commandLoop` — one line of input, from the words to the command.
* `ArgCommand` — the seven commands that read words after the command word, with
  the number each needs, and `dispatch_argCommand`, which runs them.
-/

namespace Sdb

open ByteMemory CString Requests

variable (cs : Capstone)

/-! ## Stepping and waiting -/

/-- `wait_then_check_exit()`. -/
def waitThenCheckExit (d : Debugger) : Dbg Debugger := do
  match ← sys (.waitpid d.pid) with
  | none => pure (d.say (.perror "** waitpid"))
  | some (.exited code) => pure (d.say (.terminated d.pid (.exited code))).release
  | some (.stopped _) => pure d
  | some (.signaled _) => .fault .assertion

/-- `check_then_restore_si_reput(addr)`. -/
def checkThenRestoreSiReput (addr : Word) (d : Debugger) : Dbg Debugger :=
  if d.bptab.includeAddr addr = false then pure d
  else do
    -- restore code (one byte)
    let curCode ← sys (.peektext d.pid addr)
    let bp ← entryAt d.bptab addr
    let restored := (curCode &&& 0xffffffffffffff00#64) ||| (bp.code &&& 0x00000000000000ff#64)
    if (← sys (.poketext d.pid addr restored)) = false then
      pure (d.say (.perror "** ptrace POKETEXT"))
    -- single step
    else if (← sys (.singlestep d.pid)) = false then
      pure (d.say (.perror "** ptrace SINGLESTEP"))
    else
      let d ← waitThenCheckExit d
      if d.state ≠ .running then pure d
      -- reput 0xcc: the whole word read before the step is written back
      else if (← sys (.poketext d.pid addr curCode)) = false then
        pure (d.say (.perror "** ptrace POKETEXT"))
      else pure d

/-- The address `check_hit_break_point_or_not` looks up: after `PTRACE_CONT` the
tracee has executed the trap and stands one byte past it. -/
def candAddr (cbpt : CandBp) (rip : Word) : Word := if cbpt = .forCont then rip - 1 else rip

/-- `check_hit_break_point_or_not(cbpt)`. -/
def checkHitBreakPointOrNot (cbpt : CandBp) (d : Debugger) : Dbg Debugger := do
  match ← sys (.getregs d.pid) with
  | none => pure (d.say (.perror "** ptrace GETREGS"))
  | some regs =>
      let addr := candAddr cbpt regs.rip
      if d.bptab.includeAddr addr = false then pure (d.say (.info "** hit no breakpoint\n"))
      else if cbpt = .forCont then do
        if (← sys (.setregs d.pid { regs with rip := regs.rip - 1 })) = false then
          pure (d.say (.perror "** ptrace SETREGS"))
        else
          let bp ← entryAt d.bptab addr
          pure (translate cs addr bp.code (d.say (.info "** breakpoint @"))).2
      else do
        let bp ← entryAt d.bptab addr
        pure (translate cs addr bp.code (d.say (.info "** breakpoint @"))).2

/-- The loop of `reput_all_breakpoints_from` over the entries not yet done. -/
def reputFrom (beginAddr : Word) : List BreakpointInfo → Debugger → Dbg Debugger
  | [], d => pure d
  | bp :: rest, d =>
      if bp.addr < beginAddr then reputFrom beginAddr rest d
      else do
        let code ← sys (.peektext d.pid bp.addr)
        if (← sys (.poketext d.pid bp.addr ((code &&& 0xffffffffffffff00#64) ||| 0xcc#64))) = false
        then pure (d.say (.perror "** ptrace POKETEXT"))
        else reputFrom beginAddr rest d

/-- `reput_all_breakpoints_from(begin_addr)`. -/
def reputAllBreakpointsFrom (beginAddr : Word) (d : Debugger) : Dbg Debugger :=
  reputFrom beginAddr d.bptab.data d

/-- `step_in()`. -/
def stepIn (d : Debugger) : Dbg Debugger :=
  if d.state ≠ .running then pure (d.say (.err "** state must be RUNNING\n"))
  else do
    match ← sys (.getregs d.pid) with
    | none => pure (d.say (.perror "** ptrace GETREGS"))
    | some regs =>
        if d.bptab.includeAddr regs.rip = true then
          let d ← checkThenRestoreSiReput regs.rip d
          if d.state ≠ .running then pure d
          else
            let d ← checkHitBreakPointOrNot cs .forSinglestep d
            pure { d with lastCmdIsSetRip := false }
        else if (← sys (.singlestep d.pid)) = false then
          pure (d.say (.perror "** ptrace SINGLESTEP"))
        else
          let d ← waitThenCheckExit d
          if d.state ≠ .running then pure d
          else
            let d ← checkHitBreakPointOrNot cs .forSinglestep d
            pure { d with lastCmdIsSetRip := false }

/-- The second half of `cont()`, from `PTRACE_CONT` on. -/
def contFrom (d : Debugger) : Dbg Debugger := do
  if (← sys (.cont d.pid)) = false then pure (d.say (.perror "** ptrace CONT"))
  else
    let d ← waitThenCheckExit d
    if d.state ≠ .running then pure d
    else
      let d ← checkHitBreakPointOrNot cs .forCont d
      pure { d with lastCmdIsSetRip := false }

/-- `cont()`. -/
def cont (d : Debugger) : Dbg Debugger :=
  if d.state ≠ .running then pure (d.say (.err "** state must be RUNNING\n"))
  else do
    match ← sys (.getregs d.pid) with
    | none => pure (d.say (.perror "** ptrace GETREGS"))
    | some regs =>
        if d.lastCmdIsSetRip = false ∧ d.bptab.includeAddr regs.rip = true then
          let d ← checkThenRestoreSiReput regs.rip d
          if d.state ≠ .running then pure d else contFrom cs d
        else contFrom cs d

/-! ## Starting -/

/-- `start()`.  `fork` answers 0 in the child, which goes through the same code. -/
def start (d : Debugger) : Dbg Debugger :=
  if d.state ≠ .loaded then pure (d.say (.err "** state must be LOADED\n"))
  else do
    let pid ← sys .fork
    let d := { d with pid := pid }
    if pid = -1 then pure (d.say (.perror "** fork"))
    else if pid = 0 then
      -- child process
      if (← sys .traceme) = false then pure (d.say (.perror "** ptrace TRACEME"))
      else
        let () ← sys (.execvp d.progPath)
        pure (d.say (.perror "** execvp"))
    else
      -- parent process
      match ← sys (.waitpid pid) with
      | none => pure (d.say (.perror "** waitpid"))
      | some (.exited _) => .fault .assertion
      | some (.signaled _) => .fault .assertion
      | some (.stopped _) =>
          let () ← sys (.setoptions pid)
          let d ← reputAllBreakpointsFrom d.textBegin d
          let d ← checkHitBreakPointOrNot cs .forStart d
          pure { d.say (.pid pid) with state := .running, lastCmdIsSetRip := false }

/-- `run()`. -/
def run (d : Debugger) : Dbg Debugger :=
  if d.state ≠ .loaded ∧ d.state ≠ .running then
    pure (d.say (.err "** state must be LOADED or RUNNING\n"))
  else if d.state = .loaded then do
    let d ← start cs d
    let d ← cont cs d
    pure { d with lastCmdIsSetRip := false }
  else do
    let d ← cont cs (d.say (.alreadyRunning d.progPath))
    pure { d with lastCmdIsSetRip := false }

/-- `load(cmds)`. -/
def load (cmds : List Str) (d : Debugger) : Dbg Debugger :=
  if d.state = .loaded ∨ d.state = .running then
    pure (d.say (.err "** state must be NOT LOADED\n"))
  else
    match cmds with
    | _ :: path :: _ => do
        let d := { d with progPath := path }
        match ← sys (.readFile path) with
        | none => pure (d.say (.perror "** fopen"))
        | some file =>
            match ← liftParser (elf64Parser file ⟨d.entryPoint, d.textBegin, d.textEnd⟩) with
            | none => pure (d.say (.err "** invalid elf file\n"))
            | some text =>
                let d := { d with
                  entryPoint := text.entryPoint
                  textBegin := text.textBegin
                  textEnd := text.textEnd }
                pure { d.say (.programLoaded path text.entryPoint) with
                  state := .loaded
                  lastCmdIsSetRip := false }
    | _ => pure (d.say (.err "** no program path is given\n"))

/-! ## Breakpoints -/

/-- The address a `break` command names: `strtol(word, NULL, 0)`. -/
def breakAddr (word : Str) : Word := BitVec.ofInt 64 (strtol word 0)

/-- The end of `set_break_point`: plant the trap and record it. -/
def plantBreakPoint (tarAddr : Word) (d : Debugger) : Dbg Debugger := do
  -- get the original code at target address
  let code ← sys (.peektext d.pid tarAddr)
  -- set break point by 0xcc (one byte)
  if (← sys (.poketext d.pid tarAddr ((code &&& 0xffffffffffffff00#64) ||| 0xcc#64))) = false then
    pure (d.say (.perror "** ptrace POKETEXT"))
  else pure { d with bptab := d.bptab.add tarAddr code }

/-- `set_break_point(cmds)`.  After the message about an address already in the
table the source goes on as for any other address. -/
def setBreakPoint (cmds : List Str) (d : Debugger) : Dbg Debugger :=
  if d.state ≠ .running then pure (d.say (.err "** state must be RUNNING\n"))
  else
    match cmds with
    | _ :: word :: _ =>
        let tarAddr := breakAddr word
        if tarAddr < d.textBegin ∨ d.textEnd < tarAddr then
          pure (d.say (.outOfRange d.textBegin d.textEnd))
        else if d.bptab.includeAddr tarAddr = true then
          plantBreakPoint tarAddr (d.say (.alreadyExists (d.bptab.dictAddr2idx tarAddr)))
        else plantBreakPoint tarAddr d
    | _ => pure (d.say (.err "** no address is given\n"))

/-- `delete_break_point(cmds)`. -/
def deleteBreakPoint (cmds : List Str) (d : Debugger) : Dbg Debugger :=
  if d.state ≠ .running then pure (d.say (.err "** state must be RUNNING\n"))
  else
    match cmds with
    | _ :: word :: _ =>
        let tarIdx := atoi word
        if d.bptab.includeIdx tarIdx = false then pure (d.say (.noSuchBreakpoint tarIdx))
        else do
          let bp ← entryAtIdx d.bptab tarIdx
          -- restore original code
          let curCode ← sys (.peektext d.pid bp.addr)
          let restored := (curCode &&& 0xffffffffffffff00#64) ||| (bp.code &&& 0x00000000000000ff#64)
          if (← sys (.poketext d.pid bp.addr restored)) = false then
            pure (d.say (.perror "** ptrace POKETEXT"))
          else pure ({ d with bptab := d.bptab.del tarIdx }.say (.deleted tarIdx bp.addr))
    | _ => pure (d.say (.err "** no break-point-id is given\n"))

/-- The loop of `breakpoint_table::show` from the index `i` on. -/
def showFrom : List BreakpointInfo → Nat → List Msg
  | [], _ => []
  | bp :: rest, i => .listed i bp.addr :: showFrom rest (i + 1)

/-- `list()`. -/
def list (d : Debugger) : Debugger := { d with out := d.out ++ showFrom d.bptab.data 0 }

/-! ## Registers -/

/-- `get_single_reg(cmds)`. -/
def getSingleReg (cmds : List Str) (d : Debugger) : Dbg Debugger :=
  if d.state ≠ .running then pure (d.say (.err "** state must be RUNNING\n"))
  else
    match cmds with
    | _ :: tarReg :: _ => do
        match ← sys (.getregs d.pid) with
        | none => pure (d.say (.perror "** ptrace GETREGS"))
        | some regs =>
            let (val, _, d) := regHandler tarReg 0 regs d
            if val = -1 then pure d else pure (d.say (.reg tarReg val))
    | _ => pure (d.say (.err "** no register is given\n"))

/-- `set_reg(cmds)`. -/
def setReg (cmds : List Str) (d : Debugger) : Dbg Debugger :=
  if d.state ≠ .running then pure (d.say (.err "** state must be RUNNING\n"))
  else
    match cmds with
    | _ :: tarReg :: val :: _ => do
        let inputVal : Word := BitVec.ofInt 64 (strtol val 0)
        match ← sys (.getregs d.pid) with
        | none => pure (d.say (.perror "** ptrace GETREGS"))
        | some regs =>
            let (res, regs, d) := regHandler tarReg inputVal regs d
            if res = -1 then pure d
            else if (← sys (.setregs d.pid regs)) = false then
              pure (d.say (.perror "** ptrace SETREGS"))
            else if tarReg = "rip".toList then pure { d with lastCmdIsSetRip := true }
            else pure d
    | _ => pure (d.say (.err "** Not enough input arguments\n"))

/-- `get_all_regs()`. -/
def getAllRegs (d : Debugger) : Dbg Debugger := do
  match ← sys (.getregs d.pid) with
  | none => pure (d.say (.perror "** ptrace GETREGS"))
  | some regs => pure (d.say (.allRegs regs))

/-! ## Showing memory -/

/-- `N_DUMP_AMT`, the words in a row of a dump. -/
def nDumpAmt : Nat := 2

/-- `N_DUMP_SIZE`, the bytes in a dump. -/
def nDumpSize : Nat := 80

/-- `N_DISASM_INS`, the instructions `disasm` shows. -/
def nDisasmIns : Nat := 10

/-- A loop of `dump` over the words of a row: `n` words are left, the next is `j`. -/
def dumpWords (pid : Int) (tarAddr : Word) : Nat → Nat → Dbg (List Byte)
  | 0, _ => pure []
  | n + 1, j => do
      let code ← sys (.peektext pid (tarAddr + BitVec.ofNat 64 (j * 8)))
      let rest ← dumpWords pid tarAddr n (j + 1)
      pure (bytesOf code ++ rest)

/-- The character `dump` shows for a byte. -/
def dumpChar (b : Byte) : Char := if isprint b then Char.ofNat b.toNat else '.'

/-- The rows of a dump: `n` of them are left.  Each row reads its words twice. -/
def dumpRows : Nat → Word → Debugger → Dbg Debugger
  | 0, _, d => pure d
  | n + 1, tarAddr, d => do
      let hex ← dumpWords d.pid tarAddr nDumpAmt 0
      let chars ← dumpWords d.pid tarAddr nDumpAmt 0
      dumpRows n (tarAddr + BitVec.ofNat 64 (nDumpAmt * 8))
        (d.say (.dumpRow tarAddr hex (chars.map dumpChar)))

/-- `dump(cmds)`. -/
def dump (cmds : List Str) (d : Debugger) : Dbg Debugger :=
  if d.state ≠ .running then pure (d.say (.err "** state must be RUNNING\n"))
  else
    match cmds with
    | _ :: word :: _ =>
        dumpRows (nDumpSize / (nDumpAmt * 8)) (BitVec.ofInt 64 (strtol word 0)) d
    | _ => pure (d.say (.err "** no addr is given\n"))

/-- The loop of `disasm`: at most `n` instructions more. -/
def disasmLoop : Nat → Word → Debugger → Dbg Debugger
  | 0, _, d => pure d
  | n + 1, tarAddr, d =>
      if tarAddr < d.textBegin ∨ d.textEnd < tarAddr then pure d
      else if d.bptab.includeAddr tarAddr = true then do
        let bp ← entryAt d.bptab tarAddr
        let (count, d) := translate cs tarAddr bp.code d
        disasmLoop n (tarAddr + count) d
      else do
        let code ← sys (.peektext d.pid tarAddr)
        let (count, d) := translate cs tarAddr code d
        disasmLoop n (tarAddr + count) d

/-- `disasm(cmds)`. -/
def disasm (cmds : List Str) (d : Debugger) : Dbg Debugger :=
  if d.state ≠ .running then pure (d.say (.err "** state must be RUNNING\n"))
  else
    match cmds with
    | _ :: word :: _ =>
        let tarAddr : Word := BitVec.ofInt 64 (strtol word 0)
        if tarAddr < d.textBegin ∨ d.textEnd < tarAddr then
          pure (d.say (.outOfRange d.textBegin d.textEnd))
        else disasmLoop cs nDisasmIns tarAddr d
    | _ => pure (d.say (.err "** no addr is given\n"))

/-- `vmmap()`. -/
def vmmap (d : Debugger) : Dbg Debugger :=
  if d.state ≠ .running then pure (d.say (.err "** state must be RUNNING\n"))
  else do
    match ← sys (.readMaps d.pid) with
    | none => pure (d.say (.err "** fail to load memory mappings\n"))
    | some maps =>
        let (printed, _) ← liftParser (mapsParser maps)
        pure { d with out := d.out ++ printed.map .mapping }

/-- `help()`. -/
def help (d : Debugger) : Debugger :=
  d.say (.info ("- break \x7binstruction-address\x7d: add a break point\n" ++
    "- cont: continue execution\n" ++
    "- delete \x7bbreak-point-id\x7d: remove a break point\n" ++
    "- disasm addr: disassemble instructions in a file or a memory region\n" ++
    "- dump addr: dump memory content\n" ++
    "- exit: terminate the debugger\n" ++
    "- get reg: get a single value from a register\n" ++
    "- getregs: show registers\n" ++
    "- help: show this message\n" ++
    "- list: list break points\n" ++
    "- load \x7bpath/to/a/program\x7d: load a program\n" ++
    "- run: run the program\n" ++
    "- vmmap: show memory layout\n" ++
    "- set reg val: get a single value to a register\n" ++
    "- si: step into instruction\n" ++
    "- start: start the program and stop at the first instruction\n"))

/-! ## The command loop -/

/-- How a line leaves the loop of `main`. -/
inductive Flow where
  /-- The next line is read. -/
  | next (d : Debugger)
  /-- `exit(0)`. -/
  | quit (d : Debugger)

/-- The command a line's words name, in the order `main` tests them. -/
def dispatch (line : Str) (cmds : List Str) (c : Str) (d : Debugger) : Dbg Debugger :=
  if line = [] then pure d
  else if c = "help".toList ∨ c = "h".toList then pure (help d)
  else if c = "load".toList then load cmds d
  else if c = "start".toList then start cs d
  else if c = "cont".toList ∨ c = "c".toList then cont cs d
  else if c = "break".toList ∨ c = "b".toList then setBreakPoint cmds d
  else if c = "list".toList ∨ c = "l".toList then pure (list d)
  else if c = "si".toList then stepIn cs d
  else if c = "delete".toList ∨ c = "del".toList then deleteBreakPoint cmds d
  else if c = "get".toList ∨ c = "g".toList then getSingleReg cmds d
  else if c = "getregs".toList then getAllRegs d
  else if c = "set".toList ∨ c = "s".toList then setReg cmds d
  else if c = "vmmap".toList ∨ c = "m".toList then vmmap d
  else if c = "disasm".toList ∨ c = "d".toList then disasm cs cmds d
  else if c = "dump".toList ∨ c = "x".toList then dump cmds d
  else if c = "run".toList ∨ c = "r".toList then run cs d
  else pure (d.say (.err "** nothing happened\n"))

/-- One turn of the loop of `main` on a line. -/
def commandLoop (line : Str) (d : Debugger) : Dbg Flow :=
  match dbgcmdParser line ' ' with
  | [] => .fault .badIndex
  | c :: args =>
      if c = "exit".toList ∨ c = "q".toList then pure (.quit d.release)
      else do
        let d ← dispatch cs line (c :: args) c d
        pure (.next d)

/-- A property of programs holds of the command a line names if it holds of each
command; `break` comes with the words that name it. -/
theorem dispatch_cases {P : Dbg Debugger → Prop} {line : Str} {cmds : List Str} {c : Str}
    {d : Debugger} (hpure : ∀ d', SameButOut d d' → P (pure d')) (hload : P (load cmds d))
    (hstart : P (start cs d)) (hcont : P (cont cs d))
    (hbreak : c = "break".toList ∨ c = "b".toList → P (setBreakPoint cmds d))
    (hsi : P (stepIn cs d)) (hdelete : P (deleteBreakPoint cmds d)) (hget : P (getSingleReg cmds d))
    (hgetregs : P (getAllRegs d)) (hset : P (setReg cmds d)) (hvmmap : P (vmmap d))
    (hdisasm : P (disasm cs cmds d)) (hdump : P (dump cmds d)) (hrun : P (run cs d)) :
    P (dispatch cs line cmds c d) := by
  have ite : ∀ {q : Prop} [Decidable q] {a b : Dbg Debugger}, (q → P a) → P b →
      P (if q then a else b) := fun ha hb => iteInduction ha fun _ => hb
  unfold dispatch
  refine ite (fun _ => hpure d (SameButOut.refl d)) ?_
  refine ite (fun _ => hpure _ (sameButOut_say d _)) ?_
  refine ite (fun _ => hload) (ite (fun _ => hstart) (ite (fun _ => hcont) (ite hbreak ?_)))
  refine ite (fun _ => hpure _ ⟨d.out ++ showFrom d.bptab.data 0, rfl⟩) ?_
  refine ite (fun _ => hsi) (ite (fun _ => hdelete) (ite (fun _ => hget) ?_))
  refine ite (fun _ => hgetregs) (ite (fun _ => hset) (ite (fun _ => hvmmap) ?_))
  refine ite (fun _ => hdisasm) (ite (fun _ => hdump) (ite (fun _ => hrun) ?_))
  exact hpure _ (sameButOut_say d _)

/-- A line with a command word is not the empty line. -/
theorem ne_nil_of_words {line c : Str} {args : List Str} (h : dbgcmdParser line ' ' = c :: args)
    (hc : c ≠ []) : line ≠ [] := by
  rintro rfl
  rw [dbgcmdParser_eq] at h
  cases h
  exact hc rfl

/-! ## Commands with arguments -/

/-- The commands that need words after the command word. -/
inductive ArgCommand where
  | load
  | «break»
  | delete
  | get
  | disasm
  | dump
  | set

namespace ArgCommand

/-- The words that name the command. -/
def names : ArgCommand → List Str
  | load => ["load".toList]
  | «break» => ["break".toList, "b".toList]
  | delete => ["delete".toList, "del".toList]
  | get => ["get".toList, "g".toList]
  | disasm => ["disasm".toList, "d".toList]
  | dump => ["dump".toList, "x".toList]
  | set => ["set".toList, "s".toList]

/-- How many words it needs after its name. -/
def needed : ArgCommand → Nat
  | set => 2
  | _ => 1

/-- What it prints when one is missing. -/
def missingText : ArgCommand → String
  | load => "** no program path is given\n"
  | «break» => "** no address is given\n"
  | delete => "** no break-point-id is given\n"
  | get => "** no register is given\n"
  | disasm => "** no addr is given\n"
  | dump => "** no addr is given\n"
  | set => "** Not enough input arguments\n"

/-- The state it is allowed in. -/
def state : ArgCommand → State
  | load => .noload
  | _ => .running

/-- The member function that runs it. -/
def run (cs : Capstone) : ArgCommand → List Str → Debugger → Dbg Debugger
  | load => Sdb.load
  | «break» => setBreakPoint
  | delete => deleteBreakPoint
  | get => getSingleReg
  | disasm => Sdb.disasm cs
  | dump => Sdb.dump
  | set => setReg

end ArgCommand

theorem ArgCommand.ne_nil_of_mem_names {k : ArgCommand} {c : Str} (h : c ∈ k.names) : c ≠ [] := by
  rintro rfl
  revert h
  cases k <;> decide

/-- A line whose first word names a command runs it. -/
theorem dispatch_argCommand (cs : Capstone) (k : ArgCommand) {line c : Str} (hline : line ≠ [])
    (hc : c ∈ k.names) (cmds : List Str) (d : Debugger) :
    dispatch cs line cmds c d = k.run cs cmds d := by
  unfold dispatch
  rw [if_neg hline]
  cases k with
  | load =>
      obtain rfl := List.mem_singleton.1 hc
      rfl
  | _ =>
      simp only [ArgCommand.names, List.mem_cons, List.not_mem_nil, or_false] at hc
      rcases hc with rfl | rfl
      · rfl
      · rfl

/-- The line runs the command on these words. -/
theorem commandLoop_argCommand (cs : Capstone) (k : ArgCommand) {line c : Str} {args : List Str}
    (hc : c ∈ k.names) (hwords : dbgcmdParser line ' ' = c :: args) (d : Debugger) :
    commandLoop cs line d = k.run cs (c :: args) d >>= fun d' => pure (.next d') := by
  have hquit : ¬ (c = "exit".toList ∨ c = "q".toList) := by
    rintro (rfl | rfl)
    · revert hc
      cases k <;> decide
    · revert hc
      cases k <;> decide
  have hline := ne_nil_of_words hwords (ArgCommand.ne_nil_of_mem_names hc)
  unfold commandLoop
  rw [hwords]
  simp only [if_neg hquit]
  rw [dispatch_argCommand cs k hline hc]

/-- What the line does is what the command does. -/
theorem runs_commandLoop_argCommand (cs : Capstone) {k : ArgCommand} {W : Type}
    {K : Kernel Req Ans W} {line c : Str} {args : List Str} (hc : c ∈ k.names)
    (hwords : dbgcmdParser line ' ' = c :: args) {d : Debugger} {w w' : W}
    {o : Result Fault Flow} :
    Runs K (commandLoop cs line d) w o w' ↔
      (∃ d', Runs K (k.run cs (c :: args) d) w (.done d') w' ∧ o = .done (.next d')) ∨
        ∃ e, Runs K (k.run cs (c :: args) d) w (.fault e) w' ∧ o = .fault e := by
  rw [commandLoop_argCommand cs k hc hwords d, runs_bind]
  constructor
  · rintro (⟨d', w₁, hr, rfl, rfl⟩ | hfault)
    · exact Or.inl ⟨d', hr, rfl⟩
    · exact Or.inr hfault
  · rintro (⟨d', hr, rfl⟩ | hfault)
    · exact Or.inl ⟨d', w', hr, rfl, rfl⟩
    · exact Or.inr hfault

theorem runs_commandLoop_of_argCommand (cs : Capstone) {k : ArgCommand} {W : Type}
    {K : Kernel Req Ans W} {line c : Str} {args : List Str} (hc : c ∈ k.names)
    (hwords : dbgcmdParser line ' ' = c :: args) {d d' : Debugger} {w w' : W}
    (hr : Runs K (k.run cs (c :: args) d) w (.done d') w') :
    Runs K (commandLoop cs line d) w (.done (.next d')) w' :=
  (runs_commandLoop_argCommand cs hc hwords).2 (Or.inl ⟨d', hr, rfl⟩)

end Sdb
