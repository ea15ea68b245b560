import UnixProgramming.Machine.Requests
import UnixProgramming.Machine.X86

/-!
# x86-64 code with branches, calls and system calls

The straight-line instructions again, now with the flags, and with them the lines
that branch, call another routine or enter the kernel.  Every jump goes forward:
it skips the lines up to its label.  What a called routine and a system call do is
left to the environment of the code, so that a routine can be run on top of what
is known about those it calls.

* `execOp` — the instructions with an immediate operand and those that set flags.
* `runLines` — a routine, as a program that makes requests.
* `runLines_instr`, `runLines_op`, … — running it one line at a time.
-/

namespace X86

open ByteMemory Requests

/-- The flags the branches read: `ZF`, and whether `SF` and `OF` differ. -/
structure Flags where
  zero : Bool
  less : Bool
  deriving DecidableEq

/-- The flags a sum leaves. -/
def Flags.ofAdd (a b : Word) : Flags := ⟨decide (a + b = 0), decide (a.toInt + b.toInt < 0)⟩

/-- The flags a difference leaves, or a comparison. -/
def Flags.ofSub (a b : Word) : Flags := ⟨decide (a = b), decide (a.toInt < b.toInt)⟩

/-- The flags a logical operation on the low halves leaves. -/
def Flags.ofLogic32 (v : BitVec 32) : Flags := ⟨decide (v = 0), v.msb⟩

/-- A thread with its flags. -/
structure State where
  cpu : Cpu
  flags : Flags

/-- Instructions with an immediate operand, and those that set flags. -/
inductive Op where
  | movImm (dst : Reg) (v : Word)
  /-- `mov QWORD [base+disp], v`. -/
  | storeImm (base : Reg) (disp : Nat) (v : Word)
  | lea (dst base : Reg) (disp : Nat)
  | addImm (dst : Reg) (v : Word)
  | subImm (dst : Reg) (v : Word)
  | neg (dst : Reg)
  | cmpImm (r : Reg) (v : Word)
  deriving DecidableEq

/-- One of these instructions. -/
def execOp : Op → State → State
  | .movImm dst v, s => { s with cpu := s.cpu.set dst v }
  | .storeImm base disp v, s => { s with cpu := s.cpu.store (offset (s.cpu.regs base) disp) v }
  | .lea dst base disp, s => { s with cpu := s.cpu.set dst (offset (s.cpu.regs base) disp) }
  | .addImm dst v, s => ⟨s.cpu.set dst (s.cpu.regs dst + v), .ofAdd (s.cpu.regs dst) v⟩
  | .subImm dst v, s => ⟨s.cpu.set dst (s.cpu.regs dst - v), .ofSub (s.cpu.regs dst) v⟩
  | .neg dst, s => ⟨s.cpu.set dst (-s.cpu.regs dst), .ofSub 0 (s.cpu.regs dst)⟩
  | .cmpImm r v, s => { s with flags := .ofSub (s.cpu.regs r) v }

/-- The flags after a straight-line instruction. -/
def flagsAfter : Instr → State → Flags
  | .xor32 dst src, s => .ofLogic32 ((s.cpu.regs dst ^^^ s.cpu.regs src).setWidth 32)
  | _, s => s.flags

/-- A line of code, with labels `L` and routines `F`. -/
inductive Line (L F : Type) where
  | instr (i : Instr)
  | op (o : Op)
  | label (l : L)
  | jge (l : L)
  | jne (l : L)
  | jmp (l : L)
  /-- `call f`, `link` being the address of the line that follows. -/
  | call (f : F) (link : Word)
  | syscall
  deriving DecidableEq

variable {L F : Type} [DecidableEq L] [DecidableEq F] {R : Type} {Ans : R → Type} {E : Type}

/-- What code runs in: the kernel, the routines it calls, each with the address it
returns to, and the fault of code that runs off its end. -/
structure Surroundings (F R : Type) (Ans : R → Type) (E : Type) where
  syscall : State → Prog R Ans E State
  routine : F → State → Prog R Ans E (Word × State)
  runsOff : E

/-- The state at the entry of a called routine. -/
def State.enter (s : State) (link : Word) : State :=
  { s with cpu :=
      (s.cpu.set .rsp (s.cpu.regs .rsp - 8)).store (s.cpu.regs .rsp - 8) link }

/-- Run a routine: where it jumps to, and the state it leaves.  While a label is
looked for, the lines before it are skipped. -/
def runLines (e : Surroundings F R Ans E) :
    Option L → List (Line L F) → State → Prog R Ans E (Word × State)
  | _, [], _ => .fault e.runsOff
  | some l, line :: rest, s =>
      if line = .label l then runLines e none rest s else runLines e (some l) rest s
  | none, .instr i :: rest, s =>
      match exec i s.cpu with
      | .next cpu => runLines e none rest ⟨cpu, flagsAfter i s⟩
      | .jump target cpu => .done (target, ⟨cpu, flagsAfter i s⟩)
  | none, .op o :: rest, s => runLines e none rest (execOp o s)
  | none, .label _ :: rest, s => runLines e none rest s
  | none, .jge l :: rest, s => runLines e (if s.flags.less then none else some l) rest s
  | none, .jne l :: rest, s => runLines e (if s.flags.zero then none else some l) rest s
  | none, .jmp l :: rest, s => runLines e (some l) rest s
  | none, .call f link :: rest, s =>
      e.routine f (s.enter link) >>= fun (target, s) =>
        if target = link then runLines e none rest s else .done (target, s)
  | none, .syscall :: rest, s => e.syscall s >>= fun s => runLines e none rest s

section Equations

variable (e : Surroundings F R Ans E) (l : L) (rest : List (Line L F)) (s : State)

theorem runLines_op (o : Op) :
    runLines e none (.op o :: rest) s = runLines e none rest (execOp o s) := rfl

theorem runLines_label : runLines e none (.label l :: rest) s = runLines e none rest s := rfl

theorem runLines_jge :
    runLines e none (.jge l :: rest) s =
      runLines e (if s.flags.less then none else some l) rest s := rfl

theorem runLines_jne :
    runLines e none (.jne l :: rest) s =
      runLines e (if s.flags.zero then none else some l) rest s := rfl

/-- A routine that returns to its caller is followed by the rest. -/
theorem runLines_call {f : F} {link : Word} {p : Prog R Ans E State}
    (h : e.routine f (s.enter link) = p >>= fun s => .done (link, s)) :
    runLines e none (.call f link :: rest) s = p >>= fun s => runLines e none rest s := by
  have hcall : runLines e none (.call f link :: rest) s =
      e.routine f (s.enter link) >>= fun r =>
        if r.1 = link then runLines e none rest r.2 else .done (r.1, r.2) := rfl
  rw [hcall, h, Prog.bind_assoc]
  simp

end Equations

end X86
