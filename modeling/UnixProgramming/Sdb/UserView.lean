import UnixProgramming.Sdb.Disassembly
import UnixProgramming.Sdb.Dump
import UnixProgramming.Sdb.NativeRefinement
import UnixProgramming.Sdb.Verbs

/-!
# The debugger as its user sees it

What a debugger is for, without a trap anywhere: the user sees the debugger's
members and, while a program runs, the program as it would be by itself.  Every
command is one step on that view.

* `Machine` — the machine a session takes place on: what an instruction does,
  what a started process looks like and what files hold.
* `View` — the members and the native tracee.
* `Step` — what each command does to the view.
* `UserRun` — line after line of input.
-/

namespace Sdb

open ByteMemory CString Requests Overlay Stepping

/-! ## The machine -/

/-- What the debugger is used on: a processor, a program it starts and files. -/
structure Machine where
  /-- What one instruction does. -/
  native : Program
  /-- A started process. -/
  image : Tracee
  /-- The files that can be opened, and what they hold. -/
  file : Str → Option (List Byte)

/-- The system: no request is refused, and the processor runs the tracee. -/
def Machine.env (m : Machine) : Env where
  mayFail _ := False
  boots t := t = m.image
  stops := (hardware m.native).stops
  startEnds _ := False
  file path x := x = m.file path

/-! ## The view -/

/-- The members of the debugger and, while a program runs, the number of its
process and the tracee as it is without the traps. -/
structure View where
  members : Debugger
  child : Option (Int × Tracee)

namespace View

/-- The view at the start of the debugger. -/
def init : View := ⟨.init, none⟩

/-- The world behind the view: the traps are in place. -/
def world (v : View) : World :=
  match v.child with
  | some (p, s) => ⟨false, .stopped p (s.trapped v.members.bptab.addrs)⟩
  | none => ⟨false, .absent⟩

/-- The view in a state of the native program. -/
def ofNative (p : Int) (d : Debugger) : NativeState → View
  | .live s _ => ⟨d, some (p, s)⟩
  | .exited => ⟨d, none⟩

end View

/-! ## The steps -/

/-- How a command ends: with the view `v`. -/
def Ends (v : View) (e : Option Fault) (v' : View) : Prop := e = none ∧ v' = v

/-- A command that needs a parser's answer ends with its fault, or goes on. -/
def Parsed {α : Type} (v : View) (answer : Except ParserFault α) (k : α → Option Fault → View → Prop)
    (e : Option Fault) (v' : View) : Prop :=
  match answer with
  | .error f => e = some (.parser f) ∧ v' = v
  | .ok a => k a e v'

variable (cs : Capstone) (m : Machine)

/-- `si` or `cont` on the native program: where it comes to, and what is reported. -/
def Resumes (c : RunCmd) (d : Debugger) (p : Int) (s : Tracee) (e : Option Fault) (v' : View) :
    Prop :=
  ∃ r a', NativeStep m.native d.bptab.addrs c (.live s d.lastCmdIsSetRip) r a' ∧
    Ends (.ofNative p (a'.members (r.print cs d)) a') e v'

/-- The members after the start of a process. -/
def startedMembers (d : Debugger) (p : Int) (s : Tracee) : Debugger :=
  { ((reportAt d.bptab.addrs s.regs.rip).print cs { d with pid := p }).say (.pid p) with
    state := .running
    lastCmdIsSetRip := false }

/-- Loading a program: the file is read and its text looked up. -/
def LoadStep (path : Str) (d : Debugger) : Option Fault → View → Prop :=
  match m.file path with
  | none => Ends ⟨{ d with progPath := path }.say (.perror "** fopen"), none⟩
  | some file =>
      Parsed ⟨d, none⟩ (elf64Parser file ⟨d.entryPoint, d.textBegin, d.textEnd⟩) fun found =>
        match found with
        | none => Ends ⟨{ d with progPath := path }.say (.err "** invalid elf file\n"), none⟩
        | some text =>
            Ends ⟨{ d with
              progPath := path
              entryPoint := text.entryPoint
              textBegin := text.textBegin
              textEnd := text.textEnd
              state := .loaded
              lastCmdIsSetRip := false
              out := d.out ++ [.programLoaded path text.entryPoint] }, none⟩

/-- The step of a command while no program runs. -/
def IdleStep (d : Debugger) : Command → Option Fault → View → Prop
  | .nothing => Ends ⟨d, none⟩
  | .quit => Ends ⟨d.release, none⟩
  | .unknown => Ends ⟨d.say (.err "** nothing happened\n"), none⟩
  | .help => Ends ⟨help d, none⟩
  | .list => Ends ⟨list d, none⟩
  | .getregs => Ends ⟨d.say (.perror "** ptrace GETREGS"), none⟩
  | .start =>
      if d.state = .loaded then fun e v' =>
        ∃ p : Int, 0 < p ∧ Ends ⟨startedMembers cs d p m.image, some (p, m.image)⟩ e v'
      else Ends ⟨d.say (.err "** state must be LOADED\n"), none⟩
  | .run =>
      if d.state = .loaded then fun e v' =>
        ∃ p : Int, 0 < p ∧ Resumes cs m .cont (startedMembers cs d p m.image) p m.image e v'
      else Ends ⟨d.say (.err "** state must be LOADED or RUNNING\n"), none⟩
  | .load path =>
      if d.state = .noload then LoadStep m path d
      else Ends ⟨d.say (.err "** state must be NOT LOADED\n"), none⟩
  | .missing .load =>
      if d.state = .noload then Ends ⟨d.say (.err ArgCommand.load.missingText), none⟩
      else Ends ⟨d.say (.err "** state must be NOT LOADED\n"), none⟩
  | _ => Ends ⟨d.say (.err "** state must be RUNNING\n"), none⟩

/-- The step of a command on a running program. -/
def LiveStep (d : Debugger) (p : Int) (s : Tracee) : Command → Option Fault → View → Prop
  | .nothing => Ends ⟨d, some (p, s)⟩
  | .quit => Ends ⟨d.release, some (p, s)⟩
  | .unknown => Ends ⟨d.say (.err "** nothing happened\n"), some (p, s)⟩
  | .help => Ends ⟨help d, some (p, s)⟩
  | .list => Ends ⟨list d, some (p, s)⟩
  | .start => Ends ⟨d.say (.err "** state must be LOADED\n"), some (p, s)⟩
  | .load _ => Ends ⟨d.say (.err "** state must be NOT LOADED\n"), some (p, s)⟩
  | .missing .load => Ends ⟨d.say (.err "** state must be NOT LOADED\n"), some (p, s)⟩
  | .missing k => Ends ⟨d.say (.err k.missingText), some (p, s)⟩
  | .si => Resumes cs m .si d p s
  | .cont => Resumes cs m .cont d p s
  | .run => Resumes cs m .cont (d.say (.alreadyRunning d.progPath)) p s
  | .getregs => Ends ⟨d.say (.allRegs s.regs), some (p, s)⟩
  | .get reg =>
      match regHandler reg 0 s.regs d with
      | (val, _, d') => Ends ⟨if val = -1 then d' else d'.say (.reg reg val), some (p, s)⟩
  | .set reg value =>
      match regHandler reg value s.regs d with
      | (res, regs, d') =>
          if res = -1 then Ends ⟨d', some (p, s)⟩
          else
            Ends ⟨{ d' with
              lastCmdIsSetRip := if reg = "rip".toList then true else d'.lastCmdIsSetRip },
              some (p, { s with regs := regs })⟩
  | .break a =>
      if a < d.textBegin ∨ d.textEnd < a then
        Ends ⟨d.say (.outOfRange d.textBegin d.textEnd), some (p, s)⟩
      else
        -- an address in the table is told, and entered once more
        let told :=
          if d.bptab.includeAddr a = true then d.say (.alreadyExists (d.bptab.dictAddr2idx a)) else d
        Ends ⟨{ told with
          bptab := d.bptab.add a (readWord (s.trapped d.bptab.addrs).mem a) }, some (p, s)⟩
  | .delete idx =>
      match d.bptab.atIdx idx with
      | none => Ends ⟨d.say (.noSuchBreakpoint idx), some (p, s)⟩
      | some bp =>
          Ends ⟨{ d with bptab := d.bptab.del idx }.say (.deleted idx bp.addr), some (p, s)⟩
  | .disasm a =>
      if a < d.textBegin ∨ d.textEnd < a then
        Ends ⟨d.say (.outOfRange d.textBegin d.textEnd), some (p, s)⟩
      else
        Ends ⟨{ d with
          out := d.out ++ sweepRows cs d.textBegin d.textEnd
            (codeAt d.bptab (s.trapped d.bptab.addrs).mem) nDisasmIns a }, some (p, s)⟩
  | .dump a =>
      Ends ⟨{ d with
        out := d.out ++ (rowsFrom (s.trapped d.bptab.addrs).mem 5 a).map DumpRow.msg },
        some (p, s)⟩
  | .vmmap => fun e v' => ∃ answer : Option Str,
      match answer with
      | none => Ends ⟨d.say (.err "** fail to load memory mappings\n"), some (p, s)⟩ e v'
      | some maps =>
          Parsed ⟨d, some (p, s)⟩ (mapsParser maps) (fun found =>
            Ends ⟨{ d with out := d.out ++ found.1.map .mapping }, some (p, s)⟩) e v'

/-- The step of a command. -/
def Step (c : Command) (v : View) : Option Fault → View → Prop :=
  match v.child with
  | none => IdleStep cs m v.members c
  | some (p, s) => LiveStep cs m v.members p s c

/-- Line after line of input, until it ends, a line says `exit` or a command
ends with a fault. -/
def UserRun : List Str → View → Option Fault → View → Prop
  | [], v => Ends v
  | line :: rest, v => fun e v' =>
      match Command.ofLine line with
      | .quit => Step cs m .quit v e v'
      | c =>
          (∃ v₁, Step cs m c v none v₁ ∧ UserRun rest v₁ e v') ∨
            e ≠ none ∧ Step cs m c v e v'

end Sdb
