import UnixProgramming.Machine.X86

/-!
# `setjmp` and `longjmp`

The two routines of `libmini64.asm`, instruction by instruction.  `setjmp`
stores eight words from `env` on: the registers a function has to hand back, the
stack pointer its caller will see, and the address it returns to.  `longjmp`
loads them again.

* `run_setjmp` — a call returns 0 and leaves memory alone but for the buffer.
* `run_longjmp` — a jump through a buffer in which nothing changed since.
* `setjmp_longjmp` — the round trip, over whatever runs in between, and again
  for every later jump.
-/

namespace Libmini

open ByteMemory X86

/-- `setjmp(env)`, with `env` in `rdi`. -/
def setjmp : List Instr :=
  [ .pop .rsi,                -- return address, and adjust the stack
    .xor32 .rax .rax,         -- return value
    .store .rdi 0 .rbx,
    .store .rdi 8 .rsp,
    .push .rsi,               -- make the call/return stack happy
    .store .rdi 16 .rbp,
    .store .rdi 24 .r12,
    .store .rdi 32 .r13,
    .store .rdi 40 .r14,
    .store .rdi 48 .r15,
    .store .rdi 56 .rsi,      -- return address
    .ret ]

/-- `longjmp(env, val)`, with `env` in `rdi` and `val` in `esi`. -/
def longjmp : List Instr :=
  [ .mov32 .rax .rsi,         -- return value (int)
    .load .rbx .rdi 0,
    .load .rsp .rdi 8,
    .load .rbp .rdi 16,
    .load .r12 .rdi 24,
    .load .r13 .rdi 32,
    .load .r14 .rdi 40,
    .load .r15 .rdi 48,
    .jmpMem .rdi 56 ]

/-- The registers a function hands back as it found them. -/
def calleeSaved : List Reg := [.rbx, .rbp, .r12, .r13, .r14, .r15]

/-- The first argument of a call: `env`. -/
def env (s : Cpu) : Addr := s.regs .rdi

/-- The second argument of a call: `val`, an `int`. -/
def val (s : Cpu) : BitVec 32 := (s.regs .rsi).setWidth 32

/-- What a call returns, an `int`. -/
def eax (s : Cpu) : BitVec 32 := (s.regs .rax).setWidth 32

/-- The address a call will return to. -/
def returnAddress (s : Cpu) : Word := readWord s.mem (s.regs .rsp)

/-- `reg` of the buffer, as a call of `setjmp` fills it. -/
def saved (s : Cpu) : List Word :=
  [s.regs .rbx, s.regs .rsp + 8, s.regs .rbp, s.regs .r12, s.regs .r13, s.regs .r14, s.regs .r15,
    returnAddress s]

/-- The buffer does not reach into the slot of the return address. -/
def BufferApart (s : Cpu) : Prop := ∀ x, InWord (s.regs .rsp) x → ¬ InBlock (env s) 64 x

/-- The eight words at `a` are those a call of `setjmp` stored. -/
def Holds (s : Cpu) (a : Addr) (m : Memory) : Prop :=
  ∀ i v, (saved s)[i]? = some v → readWord m (offset a (8 * i)) = v

/-! ## The first return -/

/-- What a call of `setjmp` leaves behind. -/
structure Returned (s u : Cpu) : Prop where
  rax : u.regs .rax = 0
  rsp : u.regs .rsp = s.regs .rsp + 8
  kept : ∀ r ∈ calleeSaved, u.regs r = s.regs r
  mem : u.mem = storeWords s.mem (env s) (saved s)

/-- The slot is apart from the words stored up to any point. -/
theorem BufferApart.slot {s : Cpu} (h : BufferApart s) {vs : List Word} (hlen : vs.length ≤ 8) :
    readWord (storeWords s.mem (env s) vs) (s.regs .rsp) = returnAddress s := by
  apply readWord_storeWords_of_apart (by omega)
  intro x hx hin
  exact h x hx (hin.mono (by omega))

/-- The memory the stores leave, in the order they come: the `push` stands
between the second and the third. -/
def stored (s : Cpu) : Memory :=
  let pushed := writeWord (storeWords s.mem (env s) [s.regs .rbx, s.regs .rsp + 8])
    (s.regs .rsp) (returnAddress s)
  storeWords pushed (env s + 16)
    [s.regs .rbp, s.regs .r12, s.regs .r13, s.regs .r14, s.regs .r15, returnAddress s]

/-- `setjmp`, run to its end, wherever the buffer lies. -/
theorem run_setjmp_stored (s : Cpu) :
    ∃ u, run setjmp s = some (readWord (stored s) (s.regs .rsp), u) ∧ u.mem = stored s ∧
      u.regs .rax = 0 ∧ u.regs .rsp = s.regs .rsp + 8 ∧ ∀ r ∈ calleeSaved, u.regs r = s.regs r := by
  simp [setjmp, run_pop, run_xor32, run_store, run_push, run_ret, stored, storeWords, env,
    returnAddress, calleeSaved, BitVec.add_assoc]

/-- With the buffer apart, the `push` writes back the word the `pop` has read. -/
theorem BufferApart.stored_eq {s : Cpu} (h : BufferApart s) :
    stored s = storeWords s.mem (env s) (saved s) := by
  have hslot : readWord (storeWords s.mem (env s) [s.regs .rbx, s.regs .rsp + 8]) (s.regs .rsp) =
      returnAddress s := h.slot (by simp)
  have hpush : writeWord (storeWords s.mem (env s) [s.regs .rbx, s.regs .rsp + 8])
      (s.regs .rsp) (returnAddress s) =
        storeWords s.mem (env s) [s.regs .rbx, s.regs .rsp + 8] := by
    rw [← hslot, writeWord_readWord]
  rw [stored, hpush]
  simp [saved, storeWords, BitVec.add_assoc]

/-- A call of `setjmp` returns to its caller. -/
theorem run_setjmp {s : Cpu} (h : BufferApart s) :
    ∃ u, run setjmp s = some (returnAddress s, u) ∧ Returned s u := by
  obtain ⟨u, hrun, hmem, hrax, hrsp, hkept⟩ := run_setjmp_stored s
  rw [h.stored_eq] at hrun hmem
  rw [h.slot (by simp [saved])] at hrun
  exact ⟨u, hrun, hrax, hrsp, hkept, hmem⟩

theorem Returned.holds {s u : Cpu} (h : Returned s u) : Holds s (env s) u.mem := by
  intro i v hi
  rw [h.mem]
  exact readWord_storeWords s.mem (env s) (by simp [saved]) hi

/-- Nothing but the buffer is written. -/
theorem Returned.frame {s u : Cpu} (h : Returned s u) {x : Addr} (hx : ¬ InBlock (env s) 64 x) :
    u.mem x = s.mem x := by
  rw [h.mem]
  exact storeWords_of_not_inBlock (by simp [saved]) (by simpa [saved] using hx)

/-! ## The jump -/

/-- What a jump through the buffer of the call `s` leaves behind. -/
structure Restored (s v w : Cpu) : Prop where
  eax : eax w = val v
  rsp : w.regs .rsp = s.regs .rsp + 8
  kept : ∀ r ∈ calleeSaved, w.regs r = s.regs r
  mem : w.mem = v.mem

/-- `longjmp`, run to its end, whatever is in the buffer. -/
theorem run_longjmp_loaded (v : Cpu) :
    ∃ w, run longjmp v = some (readWord v.mem (offset (env v) 56), w) ∧ eax w = val v ∧
      w.mem = v.mem ∧ w.regs .rsp = readWord v.mem (offset (env v) 8) ∧
      calleeSaved.map w.regs =
        [0, 16, 24, 32, 40, 48].map fun k => readWord v.mem (offset (env v) k) := by
  simp only [longjmp, run_mov32, run_load, run_jmpMem]
  refine ⟨_, rfl, ?_⟩
  simp [env, eax, val, calleeSaved]

/-- A jump through a buffer that still holds what the call `s` stored. -/
theorem run_longjmp {s v : Cpu} (h : Holds s (env v) v.mem) :
    ∃ w, run longjmp v = some (returnAddress s, w) ∧ Restored s v w := by
  obtain ⟨w, hrun, heax, hmem, hrsp, hregs⟩ := run_longjmp_loaded v
  have hslots : ([0, 16, 24, 32, 40, 48].map fun k => readWord v.mem (offset (env v) k)) =
      calleeSaved.map s.regs := by
    simp only [calleeSaved, List.map_cons, List.map_nil]
    rw [h 0 _ rfl, h 2 _ rfl, h 3 _ rfl, h 4 _ rfl, h 5 _ rfl, h 6 _ rfl]
  rw [hslots] at hregs
  rw [h 7 _ rfl] at hrun
  rw [h 1 _ rfl] at hrsp
  exact ⟨w, hrun, heax, hrsp, List.map_inj_left.1 hregs, hmem⟩

/-! ## The round trip -/

/-- The buffer at `a` has the same bytes in both memories. -/
def SameBuffer (a : Addr) (m m' : Memory) : Prop := ∀ x, InBlock a 64 x → m' x = m x

theorem Holds.of_sameBuffer {s : Cpu} {a : Addr} {m m' : Memory} (h : Holds s a m)
    (hm : SameBuffer a m m') : Holds s a m' := by
  intro i v hi
  have hlt : i < 8 := by
    have hlen := (List.getElem?_eq_some_iff.1 hi).1
    simpa [saved] using hlen
  rw [readWord_congr fun x hx => hm x (inBlock_of_inWord hx (by omega) (by norm_num)), h i v hi]

/-- A later state: any computation that leaves the buffer alone, and jumps
through the buffer. -/
inductive Later (a : Addr) (u : Cpu) : Cpu → Prop where
  | returned : Later a u u
  | compute {v w : Cpu} : Later a u v → SameBuffer a v.mem w.mem → Later a u w
  | jump {v w : Cpu} {target : Word} :
      Later a u v → env v = a → run longjmp v = some (target, w) → Later a u w

/-- A jump writes no memory, so the buffer lasts. -/
theorem Later.sameBuffer {a : Addr} {u v : Cpu} (h : Later a u v) : SameBuffer a u.mem v.mem := by
  induction h with
  | returned => exact fun _ _ => rfl
  | compute _ hsame ih => exact fun x hx => (hsame x hx).trans (ih x hx)
  | @jump v w target _ _ hrun ih =>
      obtain ⟨w', hrun', -, hmem, -⟩ := run_longjmp_loaded v
      rw [hrun, Option.some.injEq, Prod.mk.injEq] at hrun'
      obtain ⟨-, rfl⟩ := hrun'
      intro x hx
      rw [hmem, ih x hx]

/-- `setjmp` returns 0 to its caller, keeps the caller's registers and writes
the buffer only; every later `longjmp(env, val)` returns from the same call once
more, with the same registers and stack, and `val` as its value. -/
theorem setjmp_longjmp (s : Cpu) (happart : BufferApart s) :
    ∃ u, run setjmp s = some (returnAddress s, u) ∧ u.regs .rax = 0 ∧
      u.regs .rsp = s.regs .rsp + 8 ∧ (∀ r ∈ calleeSaved, u.regs r = s.regs r) ∧
      (∀ x, ¬ InBlock (env s) 64 x → u.mem x = s.mem x) ∧
      readWord u.mem (s.regs .rsp) = returnAddress s ∧
      ∀ v, Later (env s) u v → env v = env s →
        ∃ w, run longjmp v = some (returnAddress s, w) ∧ eax w = val v ∧
          w.regs .rsp = u.regs .rsp ∧ ∀ r ∈ calleeSaved, w.regs r = s.regs r := by
  obtain ⟨u, hrun, hu⟩ := run_setjmp happart
  refine ⟨u, hrun, hu.rax, hu.rsp, hu.kept, fun x hx => hu.frame hx, ?_, ?_⟩
  · exact readWord_congr fun x hx => hu.frame (happart x hx)
  · intro v hlater henv
    have hholds : Holds s (env v) v.mem := by
      rw [henv]
      exact hu.holds.of_sameBuffer hlater.sameBuffer
    obtain ⟨w, hjump, hw⟩ := run_longjmp hholds
    exact ⟨w, hjump, hw.eax, hw.rsp.trans hu.rsp.symm, hw.kept⟩

namespace Sample

/-- A call of `setjmp(0x5000)` that will return to `0x401000`. -/
def caller : Cpu where
  regs
    | .rdi => 0x5000
    | .rsp => 0x7ff0
    | .rbx => 0x11
    | _ => 0
  mem := writeWord (fun _ => 0) 0x7ff0 0x401000

/-- The registers at a call of `longjmp(0x5000, 5)`, deeper in the stack. -/
def jumper : Reg → Word
  | .rdi => 0x5000
  | .rsi => 5
  | .rsp => 0x7000
  | _ => 0

theorem bufferApart_caller : BufferApart caller := by
  intro x hx hin
  simp only [InWord, InBlock, env, caller] at hx hin
  bv_omega

theorem returnAddress_caller : returnAddress caller = 0x401000 := readWord_writeWord _ _ _

end Sample

theorem setjmp_longjmp_caller :
    ∃ u v w, run setjmp Sample.caller = some (0x401000, u) ∧ u.regs .rax = 0 ∧
      v = { u with regs := Sample.jumper } ∧ run longjmp v = some (0x401000, w) ∧
      eax w = 5 ∧ w.regs .rsp = 0x7ff8 ∧ w.regs .rbx = 0x11 := by
  obtain ⟨u, hrun, hrax, hrsp, -, -, -, hjump⟩ :=
    setjmp_longjmp Sample.caller Sample.bufferApart_caller
  obtain ⟨w, hlong, heax, hwrsp, hkept⟩ :=
    hjump { u with regs := Sample.jumper } (.compute .returned fun _ _ => rfl) rfl
  rw [Sample.returnAddress_caller] at hrun hlong
  refine ⟨u, _, w, hrun, hrax, rfl, hlong, heax, ?_, ?_⟩
  · rw [hwrsp, hrsp]
    rfl
  · exact hkept .rbx (by simp [calleeSaved])

end Libmini
