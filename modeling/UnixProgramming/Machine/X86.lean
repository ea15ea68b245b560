import UnixProgramming.Machine.ByteMemory

/-!
# Straight-line x86-64 code

The registers and the memory of a thread, the instructions a routine without
branches is made of, and its run from the first instruction to the one that
leaves it.  The instructions are not part of the memory, and the flags are left
out: nothing here reads them.

* `exec` — one instruction: the next one, or a jump out of the routine.
* `run` — a routine, up to the jump that leaves it.
* `run_push`, `run_pop`, … — running it one instruction at a time.
-/

namespace X86

open ByteMemory

/-- The general purpose registers. -/
inductive Reg where
  | rax
  | rbx
  | rcx
  | rdx
  | rsi
  | rdi
  | rbp
  | rsp
  | r8
  | r9
  | r10
  | r11
  | r12
  | r13
  | r14
  | r15
  deriving DecidableEq

/-- The registers and the memory. -/
structure Cpu where
  regs : Reg → Word
  mem : Memory

namespace Cpu

/-- Write a register. -/
def set (s : Cpu) (r : Reg) (v : Word) : Cpu := { s with regs := Function.update s.regs r v }

/-- Write a word of the memory. -/
def store (s : Cpu) (a : Addr) (v : Word) : Cpu := { s with mem := writeWord s.mem a v }

@[simp] theorem set_regs (s : Cpu) (r : Reg) (v : Word) (q : Reg) :
    (s.set r v).regs q = if q = r then v else s.regs q :=
  Function.update_apply s.regs r v q

@[simp] theorem set_mem (s : Cpu) (r : Reg) (v : Word) : (s.set r v).mem = s.mem := rfl

@[simp] theorem store_regs (s : Cpu) (a : Addr) (v : Word) : (s.store a v).regs = s.regs := rfl

@[simp] theorem store_mem (s : Cpu) (a : Addr) (v : Word) :
    (s.store a v).mem = writeWord s.mem a v := rfl

end Cpu

/-- The low half of a word, the upper half cleared: what a 32-bit move leaves. -/
def low32 (v : Word) : Word := (v.setWidth 32).setWidth 64

@[simp] theorem low32_zero : low32 0#64 = 0#64 := rfl

@[simp] theorem setWidth_low32 (v : Word) : (low32 v).setWidth 32 = v.setWidth 32 := by
  rw [low32, BitVec.setWidth_setWidth_of_le _ (by norm_num), BitVec.setWidth_eq]

/-- The instructions. -/
inductive Instr where
  | push (src : Reg)
  | pop (dst : Reg)
  | mov (dst src : Reg)
  /-- `mov` of the low halves. -/
  | mov32 (dst src : Reg)
  /-- `xor` of the low halves. -/
  | xor32 (dst src : Reg)
  /-- `mov dst, [base+disp]`. -/
  | load (dst base : Reg) (disp : Nat)
  /-- `mov [base+disp], src`. -/
  | store (base : Reg) (disp : Nat) (src : Reg)
  | ret
  /-- `jmp [base+disp]`. -/
  | jmpMem (base : Reg) (disp : Nat)
  deriving DecidableEq

/-- Where an instruction leads. -/
inductive Outcome where
  /-- To the instruction that follows. -/
  | next (s : Cpu)
  /-- Out of the routine, to an address. -/
  | jump (target : Word) (s : Cpu)

/-- One instruction. -/
def exec : Instr → Cpu → Outcome
  | .push src, s =>
      .next ((s.set .rsp (s.regs .rsp - 8)).store (s.regs .rsp - 8) (s.regs src))
  | .pop dst, s =>
      .next ((s.set .rsp (s.regs .rsp + 8)).set dst (readWord s.mem (s.regs .rsp)))
  | .mov dst src, s => .next (s.set dst (s.regs src))
  | .mov32 dst src, s => .next (s.set dst (low32 (s.regs src)))
  | .xor32 dst src, s => .next (s.set dst (low32 (s.regs dst ^^^ s.regs src)))
  | .load dst base disp, s =>
      .next (s.set dst (readWord s.mem (offset (s.regs base) disp)))
  | .store base disp src, s => .next (s.store (offset (s.regs base) disp) (s.regs src))
  | .ret, s => .jump (readWord s.mem (s.regs .rsp)) (s.set .rsp (s.regs .rsp + 8))
  | .jmpMem base disp, s => .jump (readWord s.mem (offset (s.regs base) disp)) s

/-- Run a routine: where it jumps to, and the state it leaves; `none` when it
has no jump. -/
def run : List Instr → Cpu → Option (Word × Cpu)
  | [], _ => none
  | i :: rest, s =>
      match exec i s with
      | .next s' => run rest s'
      | .jump target s' => some (target, s')

section Equations

variable (dst src base : Reg) (disp : Nat) (rest : List Instr) (s : Cpu)

theorem run_push :
    run (.push src :: rest) s =
      run rest ((s.set .rsp (s.regs .rsp - 8)).store (s.regs .rsp - 8) (s.regs src)) := rfl

theorem run_pop :
    run (.pop dst :: rest) s =
      run rest ((s.set .rsp (s.regs .rsp + 8)).set dst (readWord s.mem (s.regs .rsp))) := rfl

theorem run_mov32 : run (.mov32 dst src :: rest) s = run rest (s.set dst (low32 (s.regs src))) := rfl

theorem run_xor32 :
    run (.xor32 dst src :: rest) s = run rest (s.set dst (low32 (s.regs dst ^^^ s.regs src))) := rfl

theorem run_load :
    run (.load dst base disp :: rest) s =
      run rest (s.set dst (readWord s.mem (offset (s.regs base) disp))) := rfl

theorem run_store :
    run (.store base disp src :: rest) s =
      run rest (s.store (offset (s.regs base) disp) (s.regs src)) := rfl

theorem run_ret :
    run (.ret :: rest) s = some (readWord s.mem (s.regs .rsp), s.set .rsp (s.regs .rsp + 8)) := rfl

theorem run_jmpMem :
    run (.jmpMem base disp :: rest) s = some (readWord s.mem (offset (s.regs base) disp), s) := rfl

end Equations

end X86
