import UnixProgramming.Machine.Requests
import UnixProgramming.Sdb.BreakpointTable
import UnixProgramming.Sdb.FileParsers

/-!
# The debugger's state and what it asks of the system

The members of `class debugger` of `hw4/command.hpp`, the messages it prints and
the system calls it makes.  Every command is a program over these requests; the
pure parts (registers by name, the disassembler's `translate`) are here too.

* `Debugger` — the members, and what has been printed so far.
* `Req`, `Ans` — the system calls and what each answers.
* `regPtr`, `regHandler` — `reg_handler`, used to get and to set a register.
* `translate` — one decoded instruction, over any disassembler.
-/

namespace Sdb

open ByteMemory CString Requests

/-! ## Registers -/

/-- `struct user_regs_struct`, as far as the debugger names its fields. -/
structure UserRegs where
  r15 : Word
  r14 : Word
  r13 : Word
  r12 : Word
  rbp : Word
  rbx : Word
  r11 : Word
  r10 : Word
  r9 : Word
  r8 : Word
  rax : Word
  rcx : Word
  rdx : Word
  rsi : Word
  rdi : Word
  rip : Word
  eflags : Word
  rsp : Word
  deriving DecidableEq

/-- A pointer to a field of a register file. -/
structure RegPtr where
  get : UserRegs → Word
  set : UserRegs → Word → UserRegs

/-- The register a name stands for. -/
def regPtr (name : Str) : Option RegPtr :=
  if name = "r15".toList then some ⟨(·.r15), fun r v => { r with r15 := v }⟩
  else if name = "r14".toList then some ⟨(·.r14), fun r v => { r with r14 := v }⟩
  else if name = "r13".toList then some ⟨(·.r13), fun r v => { r with r13 := v }⟩
  else if name = "r12".toList then some ⟨(·.r12), fun r v => { r with r12 := v }⟩
  else if name = "r11".toList then some ⟨(·.r11), fun r v => { r with r11 := v }⟩
  else if name = "r10".toList then some ⟨(·.r10), fun r v => { r with r10 := v }⟩
  else if name = "r9".toList then some ⟨(·.r9), fun r v => { r with r9 := v }⟩
  else if name = "r8".toList then some ⟨(·.r8), fun r v => { r with r8 := v }⟩
  else if name = "rbp".toList then some ⟨(·.rbp), fun r v => { r with rbp := v }⟩
  else if name = "rsp".toList then some ⟨(·.rsp), fun r v => { r with rsp := v }⟩
  else if name = "rsi".toList then some ⟨(·.rsi), fun r v => { r with rsi := v }⟩
  else if name = "rdi".toList then some ⟨(·.rdi), fun r v => { r with rdi := v }⟩
  else if name = "rip".toList then some ⟨(·.rip), fun r v => { r with rip := v }⟩
  else if name = "rax".toList then some ⟨(·.rax), fun r v => { r with rax := v }⟩
  else if name = "rbx".toList then some ⟨(·.rbx), fun r v => { r with rbx := v }⟩
  else if name = "rcx".toList then some ⟨(·.rcx), fun r v => { r with rcx := v }⟩
  else if name = "rdx".toList then some ⟨(·.rdx), fun r v => { r with rdx := v }⟩
  else if name = "flags".toList then some ⟨(·.eflags), fun r v => { r with eflags := v }⟩
  else none

/-! ## The tracee as `wait` reports it -/

/-- What `waitpid` reports of a child. -/
inductive WaitStatus where
  /-- It has exited with a code. -/
  | exited (code : Nat)
  /-- It was killed by a signal. -/
  | signaled (sig : Nat)
  /-- It was stopped by a signal. -/
  | stopped (sig : Nat)
  deriving DecidableEq

/-- `SIGTRAP`. -/
def sigtrap : Nat := 5

/-! ## Messages -/

/-- What the debugger prints.  A fixed text stands as it is in the source; the
others carry the values their format string takes.  The prompt is left out. -/
inductive Msg where
  /-- A fixed text on `stderr`. -/
  | err (text : String)
  /-- A fixed text on `stdout`. -/
  | info (text : String)
  /-- `perror(what)`; the description of `errno` follows. -/
  | perror (what : String)
  /-- `"** child process %d terminiated normally (code %d)\n"`. -/
  | terminated (pid : Int) (status : WaitStatus)
  /-- `"\t %PRIx64: "`, each byte as `"%2.2x "`, then `"\t%s\t%s\n"`. -/
  | insn (address : Word) (bytes : List Byte) (mnemonic opStr : Str)
  /-- `"\t0x%llx: "`, each byte as `"%2.2x "`, then `"\t |"`, the characters and `"|\n"`. -/
  | dumpRow (address : Word) (bytes : List Byte) (chars : List Char)
  /-- `"%s = %lld (0x%llx)\n"`. -/
  | reg (name : Str) (value : Word)
  /-- The five lines of `getregs`. -/
  | allRegs (regs : UserRegs)
  /-- `"** the address is out of the range of the text segment [0x%llx - 0x%llx]\n"`. -/
  | outOfRange (textBegin textEnd : Word)
  /-- `"** the breakpoint is already exists. (breakpoint %d)\n"`. -/
  | alreadyExists (idx : Int)
  /-- `"** breakpoint %d does not exist\n"`. -/
  | noSuchBreakpoint (idx : Int)
  /-- `"** delete breakpoint %d @ 0x%llx\n"`. -/
  | deleted (idx : Int) (addr : Word)
  /-- `"%d: %llx\n"`. -/
  | listed (idx : Nat) (addr : Word)
  /-- `"** program '%s' loaded. entry point 0x%llx \n"`. -/
  | programLoaded (path : Str) (entryPoint : Word)
  /-- `"** pid %d\n"`. -/
  | pid (pid : Int)
  /-- `"** program %s is already running\n"`. -/
  | alreadyRunning (path : Str)
  /-- `"%016llx-%016llx %s\t%ld\t%s\n"`. -/
  | mapping (m : MapEntry)
  deriving DecidableEq

/-! ## The members of the class -/

/-- `state_t`. -/
inductive State where
  | loaded
  | noload
  | running
  deriving DecidableEq

/-- `candbp_t`. -/
inductive CandBp where
  | forCont
  | forSinglestep
  | forStart
  deriving DecidableEq

/-- The members of `class debugger`, and `out`, what it has printed. -/
structure Debugger where
  lastCmdIsSetRip : Bool
  bptab : BreakpointTable
  progPath : Str
  entryPoint : Word
  textBegin : Word
  textEnd : Word
  pid : Int
  state : State
  out : List Msg
  deriving DecidableEq

/-- `debugger::debugger()`. -/
def Debugger.init : Debugger where
  lastCmdIsSetRip := false
  bptab := ⟨[]⟩
  progPath := []
  entryPoint := -1
  textBegin := -1
  textEnd := -1
  pid := -1
  state := .noload
  out := []

namespace Debugger

/-- Print a message. -/
def say (d : Debugger) (m : Msg) : Debugger := { d with out := d.out ++ [m] }

@[simp] theorem say_lastCmdIsSetRip (d : Debugger) (m : Msg) :
    (d.say m).lastCmdIsSetRip = d.lastCmdIsSetRip := rfl
@[simp] theorem say_bptab (d : Debugger) (m : Msg) : (d.say m).bptab = d.bptab := rfl
@[simp] theorem say_progPath (d : Debugger) (m : Msg) : (d.say m).progPath = d.progPath := rfl
@[simp] theorem say_textBegin (d : Debugger) (m : Msg) : (d.say m).textBegin = d.textBegin := rfl
@[simp] theorem say_textEnd (d : Debugger) (m : Msg) : (d.say m).textEnd = d.textEnd := rfl
@[simp] theorem say_pid (d : Debugger) (m : Msg) : (d.say m).pid = d.pid := rfl
@[simp] theorem say_state (d : Debugger) (m : Msg) : (d.say m).state = d.state := rfl
@[simp] theorem say_out (d : Debugger) (m : Msg) : (d.say m).out = d.out ++ [m] := rfl

/-- `release()`: the breakpoint table is kept. -/
def release (d : Debugger) : Debugger :=
  { d with pid := -1, lastCmdIsSetRip := false, state := .loaded }

end Debugger

/-! ## System calls -/

/-- The system calls of the debugger. -/
inductive Req where
  | fork
  | traceme
  | execvp (path : Str)
  | waitpid (pid : Int)
  /-- `PTRACE_SETOPTIONS` with `PTRACE_O_EXITKILL`; the result is not looked at. -/
  | setoptions (pid : Int)
  | peektext (pid : Int) (addr : Word)
  | poketext (pid : Int) (addr data : Word)
  | singlestep (pid : Int)
  | cont (pid : Int)
  | getregs (pid : Int)
  | setregs (pid : Int) (regs : UserRegs)
  /-- `fopen(path, "rb")`, and the bytes the file has. -/
  | readFile (path : Str)
  /-- `fopen` of `/proc/[pid]/maps`, and its contents. -/
  | readMaps (pid : Int)
  deriving DecidableEq

/-- What they answer.  A request that is only tested for success answers a
`Bool`; `execvp` answers only when it fails. -/
abbrev Ans : Req → Type
  | .fork => Int
  | .traceme => Bool
  | .execvp _ => Unit
  | .waitpid _ => Option WaitStatus
  | .setoptions _ => Unit
  | .peektext _ _ => Word
  | .poketext _ _ _ => Bool
  | .singlestep _ => Bool
  | .cont _ => Bool
  | .getregs _ => Option UserRegs
  | .setregs _ _ => Bool
  | .readFile _ => Option (List Byte)
  | .readMaps _ => Option Str

/-- What stops the debugger other than its own return. -/
inductive Fault where
  /-- `assert` failed. -/
  | assertion
  /-- `operator[]` of a vector outside the vector. -/
  | badIndex
  | parser (e : ParserFault)
  deriving DecidableEq

/-- A part of the debugger. -/
abbrev Dbg := Prog Req Ans Fault

/-- Make a system call. -/
abbrev sys (r : Req) : Dbg (Ans r) := Prog.ask r

/-- `bptab[addr]`. -/
def entryAt (t : BreakpointTable) (addr : Word) : Dbg BreakpointInfo :=
  match t.atAddr addr with
  | some bp => .done bp
  | none => .fault .badIndex

/-- `bptab[idx]`. -/
def entryAtIdx (t : BreakpointTable) (idx : Int) : Dbg BreakpointInfo :=
  match t.atIdx idx with
  | some bp => .done bp
  | none => .fault .badIndex

/-- The result of a parser, inside the debugger. -/
def liftParser {α : Type} : Except ParserFault α → Dbg α
  | .ok a => .done a
  | .error e => .fault (.parser e)

/-! ## The disassembler -/

/-- An instruction as the disassembler reports it. -/
structure Insn where
  size : Nat
  mnemonic : Str
  opStr : Str

/-- The disassembler library: does it open, and the first instruction it decodes
in a window of bytes at an address. -/
structure Capstone where
  csOpen : Bool
  csDisasm : List Byte → Word → Option Insn

/-- `disassembler::translate`: the size it returns, `(size_t)-1` on failure. -/
def translate (cs : Capstone) (addr code : Word) (d : Debugger) : Word × Debugger :=
  if !cs.csOpen then (-1, d.say (.err "disasm cs_open error\n"))
  else
    -- `sizeof(code)-1` is the size of a pointer less one
    match cs.csDisasm ((bytesOf code).take 7) addr with
    | none => (-1, d.say (.err "** cs_disasm reads no instruction\n"))
    | some insn =>
        (BitVec.ofNat 64 insn.size,
          d.say (.insn addr ((bytesOf code).take insn.size) insn.mnemonic insn.opStr))

/-- Everything but the output is as before. -/
def SameButOut (d d' : Debugger) : Prop := ∃ out, d' = { d with out := out }

theorem SameButOut.refl (d : Debugger) : SameButOut d d := ⟨d.out, rfl⟩

theorem sameButOut_say (d : Debugger) (m : Msg) : SameButOut d (d.say m) := ⟨d.out ++ [m], rfl⟩

theorem SameButOut.trans {d d' d'' : Debugger} (h : SameButOut d d') (h' : SameButOut d' d'') :
    SameButOut d d'' := by
  obtain ⟨out, rfl⟩ := h
  obtain ⟨out', rfl⟩ := h'
  exact ⟨out', rfl⟩

/-- `translate` prints one message. -/
theorem translate_say (cs : Capstone) (addr code : Word) (d : Debugger) :
    ∃ m, (translate cs addr code d).2 = d.say m := by
  unfold translate
  split
  · exact ⟨_, rfl⟩
  · split
    · exact ⟨_, rfl⟩
    · exact ⟨_, rfl⟩

theorem sameButOut_translate (cs : Capstone) (addr code : Word) (d : Debugger) :
    SameButOut d (translate cs addr code d).2 := by
  obtain ⟨m, hm⟩ := translate_say cs addr code d
  rw [hm]
  exact sameButOut_say d m

/-! ## Getting and setting a register -/

/-- `reg_handler(tar_reg, input_val, regs)`: the value it returns, the registers
and the debugger afterwards.  The input value 0 asks for the register. -/
def regHandler (tarReg : Str) (inputVal : Word) (regs : UserRegs) (d : Debugger) :
    Word × UserRegs × Debugger :=
  match regPtr tarReg with
  | none => (-1, regs, d.say (.err "** no such register\n"))
  | some r => if inputVal = 0 then (r.get regs, regs, d) else (0, r.set regs inputVal, d)

theorem sameButOut_regHandler (tarReg : Str) (inputVal : Word) (regs : UserRegs) (d : Debugger) :
    SameButOut d (regHandler tarReg inputVal regs d).2.2 := by
  unfold regHandler
  split
  · exact sameButOut_say d _
  · split
    · exact SameButOut.refl d
    · exact SameButOut.refl d

end Sdb
