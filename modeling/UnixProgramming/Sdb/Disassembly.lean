import UnixProgramming.Sdb.Primitives

/-!
# Disassembling

`disasm` decodes up to ten instructions, each at the address where the one
before it ends.  A decode that fails returns `(size_t)-1`, which is added to the
address like a size.

* `attempts` — the addresses at which it attempts a decode.
* `runs_disasm` — it prints one row for each of them and changes nothing else.
* `MovesForward` — the addresses increase by the sizes of the instructions.
* `disasm_moves_forward_iff` — they do exactly when every decode but the last
  succeeds, or the sweep ends with it.
-/

namespace Sdb

open ByteMemory CString Requests

/-! ## One instruction -/

section Decode

variable (cs : Capstone) (addr code : Word)

/-- The instruction decoded in a word. -/
def Capstone.decode : Option Insn :=
  if cs.csOpen then cs.csDisasm ((bytesOf code).take 7) addr else none

/-- What is printed of it. -/
def Capstone.row : Msg :=
  match cs.decode addr code with
  | some insn => .insn addr ((bytesOf code).take insn.size) insn.mnemonic insn.opStr
  | none =>
      .err (if cs.csOpen then "** cs_disasm reads no instruction\n" else "disasm cs_open error\n")

/-- How far it moves the address. -/
def Capstone.advance : Word :=
  match cs.decode addr code with
  | some insn => BitVec.ofNat 64 insn.size
  | none => -1

variable {cs addr code}

theorem translate_eq (d : Debugger) :
    translate cs addr code d = (cs.advance addr code, d.say (cs.row addr code)) := by
  unfold translate Capstone.advance Capstone.row Capstone.decode
  cases hopen : cs.csOpen with
  | false => rfl
  | true =>
      simp only [Bool.not_true, Bool.false_eq_true, if_false, if_true]
      cases cs.csDisasm ((bytesOf code).take 7) addr with
      | none => rfl
      | some insn => rfl

end Decode

/-! ## The sweep -/

/-- The word that is decoded at an address: the code saved in the table, or what
memory holds. -/
def codeAt (tab : BreakpointTable) (m : Memory) (addr : Word) : Word :=
  match tab.atAddr addr with
  | some bp => bp.code
  | none => readWord m addr

/-- The addresses at which at most `n` decodes are attempted. -/
def attempts (cs : Capstone) (lo hi : Word) (code : Word → Word) : Nat → Word → List Word
  | 0, _ => []
  | n + 1, a =>
      if a < lo ∨ hi < a then []
      else a :: attempts cs lo hi code n (a + cs.advance a (code a))

/-- The rows printed for them. -/
def sweepRows (cs : Capstone) (lo hi : Word) (code : Word → Word) (n : Nat) (a : Word) : List Msg :=
  (attempts cs lo hi code n a).map fun b => cs.row b (code b)

section Sweep

variable {cs : Capstone} {env : Env} {d : Debugger} {f : Bool} {t : Tracee}

theorem runs_disasmLoop (hg : env.Grants) (n : Nat) (a : Word) {o : Result Fault Debugger}
    {w' : World} :
    Runs (kernel env) (disasmLoop cs n a d) ⟨f, .stopped d.pid t⟩ o w' ↔
      o = .done { d with
        out := d.out ++ sweepRows cs d.textBegin d.textEnd (codeAt d.bptab t.mem) n a } ∧
        w' = ⟨f, .stopped d.pid t⟩ := by
  induction n generalizing a d with
  | zero => simp [disasmLoop, sweepRows, attempts]
  | succ n ih =>
      rw [disasmLoop, sweepRows, attempts]
      by_cases hout : a < d.textBegin ∨ d.textEnd < a
      · simp [if_pos hout]
      rw [if_neg hout, if_neg hout]
      -- one row, and then the rest of the loop
      have hrest := ih (d := d.say (cs.row a (codeAt d.bptab t.mem a)))
        (a + cs.advance a (codeAt d.bptab t.mem a))
      simp only [sweepRows, Debugger.say_pid, Debugger.say_textBegin, Debugger.say_textEnd,
        Debugger.say_bptab, Debugger.say_out, List.append_assoc] at hrest
      by_cases hA : a ∈ d.bptab.addrs
      · have hinc := BreakpointTable.includeAddr_iff.2 hA
        obtain ⟨bp, -, hat, -⟩ := BreakpointTable.atAddr_of_includeAddr hinc
        have hcode : codeAt d.bptab t.mem a = bp.code := by rw [codeAt, hat]
        rw [hinc, if_pos rfl, entryAt, hat, Prog.done_bind, ← hcode]
        simp only [translate_eq]
        exact hrest
      · have hcode : codeAt d.bptab t.mem a = readWord t.mem a := by
          rw [codeAt, BreakpointTable.atAddr_eq_none hA]
        rw [BreakpointTable.includeAddr_eq_false_iff.2 hA, if_neg (by decide), runs_peektext hg,
          ← hcode]
        simp only [translate_eq]
        exact hrest

/-- `disasm` of an address in the text prints the rows of its attempts. -/
theorem runs_disasm (hg : env.Grants) (hr : d.state = .running) {c word : Str} {l : List Str}
    (hlo : d.textBegin ≤ breakAddr word) (hhi : breakAddr word ≤ d.textEnd)
    {o : Result Fault Debugger} {w' : World} :
    Runs (kernel env) (disasm cs (c :: word :: l) d) ⟨f, .stopped d.pid t⟩ o w' ↔
      o = .done { d with
        out := d.out ++ sweepRows cs d.textBegin d.textEnd (codeAt d.bptab t.mem) nDisasmIns
          (breakAddr word) } ∧
        w' = ⟨f, .stopped d.pid t⟩ := by
  have hin : ¬ (breakAddr word < d.textBegin ∨ d.textEnd < breakAddr word) := by
    simp only [not_or, BitVec.not_lt]
    exact ⟨hlo, hhi⟩
  unfold disasm
  rw [if_neg (not_not.2 hr)]
  change Runs (kernel env) (if breakAddr word < d.textBegin ∨ d.textEnd < breakAddr word then _
    else disasmLoop cs nDisasmIns (breakAddr word) d) _ _ _ ↔ _
  rw [if_neg hin]
  exact runs_disasmLoop hg _ _

end Sweep

/-! ## Moving forward -/

/-- What the library promises: an instruction has at least one byte, and none
past the window it was given. -/
def Capstone.Sized (cs : Capstone) : Prop :=
  ∀ bytes addr insn, cs.csDisasm bytes addr = some insn → 1 ≤ insn.size ∧ insn.size ≤ bytes.length

/-- The address is not in the text. -/
def OutOfText (lo hi a : Word) : Prop := a < lo ∨ hi < a

/-- The instruction decoded at `b` ends at `b'`, further on. -/
def EndsAt (cs : Capstone) (code : Word → Word) (b b' : Word) : Prop :=
  b < b' ∧ ∃ insn, cs.decode b (code b) = some insn ∧ b' = b + BitVec.ofNat 64 insn.size

/-- The addresses increase and stay in the text, and each after the first is the
one before it plus the size of the instruction decoded there. -/
structure MovesForward (cs : Capstone) (lo hi : Word) (code : Word → Word) (l : List Word) :
    Prop where
  increasing : l.Pairwise (· < ·)
  inText : ∀ b ∈ l, lo ≤ b ∧ b ≤ hi
  bySize : l.IsChain fun b b' =>
    ∃ insn, cs.decode b (code b) = some insn ∧ b' = b + BitVec.ofNat 64 insn.size

/-- `b` is the start of the `i`-th instruction after `a`, as far as all before it
can be decoded and lie in the text. -/
inductive InsnStart (cs : Capstone) (lo hi : Word) (code : Word → Word) : Nat → Word → Word → Prop
  | here {a : Word} : InsnStart cs lo hi code 0 a a
  | next {i : Nat} {a b : Word} {insn : Insn} : cs.decode a (code a) = some insn →
      ¬ OutOfText lo hi (a + BitVec.ofNat 64 insn.size) →
      InsnStart cs lo hi code i (a + BitVec.ofNat 64 insn.size) b →
      InsnStart cs lo hi code (i + 1) a b

/-- The instruction at `b` ends further on or outside the text; or there is none,
and the byte before `b` is not in the text. -/
def Advances (cs : Capstone) (lo hi : Word) (code : Word → Word) (b : Word) : Prop :=
  match cs.decode b (code b) with
  | some insn =>
      b < b + BitVec.ofNat 64 insn.size ∨ OutOfText lo hi (b + BitVec.ofNat 64 insn.size)
  | none => OutOfText lo hi (b - 1)

section Forward

variable {cs : Capstone} {lo hi : Word} {code : Word → Word} {a b : Word}

theorem Capstone.advance_of_decode {insn : Insn} (h : cs.decode a (code a) = some insn) :
    cs.advance a (code a) = BitVec.ofNat 64 insn.size := by
  rw [Capstone.advance, h]

theorem advances_iff :
    Advances cs lo hi code b ↔ EndsAt cs code b (b + cs.advance b (code b)) ∨
      OutOfText lo hi (b + cs.advance b (code b)) := by
  unfold Advances EndsAt Capstone.advance
  cases hdec : cs.decode b (code b) with
  | none =>
      simp only [reduceCtorEq, false_and, exists_false, and_false, false_or]
      rw [show b + (-1 : Word) = b - 1 by bv_omega]
  | some insn => simp

theorem attempts_of_out (n : Nat) (h : OutOfText lo hi a) : attempts cs lo hi code n a = [] := by
  cases n with
  | zero => rfl
  | succ n => exact if_pos h

theorem attempts_succ (n : Nat) (h : ¬ OutOfText lo hi a) :
    attempts cs lo hi code (n + 1) a =
      a :: attempts cs lo hi code n (a + cs.advance a (code a)) := if_neg h

theorem mem_attempts {n : Nat} (h : b ∈ attempts cs lo hi code n a) : lo ≤ b ∧ b ≤ hi := by
  induction n generalizing a with
  | zero => cases h
  | succ n ih =>
      by_cases hout : OutOfText lo hi a
      · rw [attempts_of_out _ hout] at h
        cases h
      · rw [attempts_succ _ hout, List.mem_cons] at h
        rcases h with rfl | h
        · simpa [OutOfText] using hout
        · exact ih h

/-- One attempt after another ends further on as long as each but the last
advances. -/
theorem isChain_attempts_iff (n : Nat) (ha : ¬ OutOfText lo hi a) :
    (attempts cs lo hi code n a).IsChain (EndsAt cs code) ↔
      ∀ i b, i + 1 < n → InsnStart cs lo hi code i a b → Advances cs lo hi code b := by
  induction n generalizing a with
  | zero => simp [attempts]
  | succ n ih =>
      cases n with
      | zero =>
          rw [attempts_succ 0 ha]
          simp [attempts]
      | succ n =>
          rw [attempts_succ _ ha]
          by_cases hout : OutOfText lo hi (a + cs.advance a (code a))
          · -- the sweep ends here
            rw [attempts_of_out _ hout]
            refine iff_of_true (List.isChain_singleton _) ?_
            intro i b _ hstart
            cases hstart with
            | here => exact advances_iff.2 (Or.inr hout)
            | next hdec hin _ =>
                rw [Capstone.advance_of_decode hdec] at hout
                exact absurd hout hin
          · have hchain := ih hout
            rw [attempts_succ _ hout] at hchain ⊢
            rw [List.isChain_cons_cons, hchain]
            constructor
            · rintro ⟨hends, hrest⟩ i b hi hstart
              cases hstart with
              | here => exact advances_iff.2 (Or.inl hends)
              | next hdec _ hstart =>
                  have hadv : cs.advance a (code a) = _ := Capstone.advance_of_decode hdec
                  rw [← hadv] at hstart
                  exact hrest _ b (by omega) hstart
            · intro h
              have hends : EndsAt cs code a (a + cs.advance a (code a)) :=
                (advances_iff.1 (h 0 a (by omega) .here)).resolve_right hout
              refine ⟨hends, fun i b hi hstart => h (i + 1) b (by omega) ?_⟩
              obtain ⟨-, insn, hdec, -⟩ := hends
              rw [Capstone.advance_of_decode hdec] at hstart hout
              exact .next hdec hout hstart

theorem movesForward_iff (n : Nat) (ha : ¬ OutOfText lo hi a) :
    MovesForward cs lo hi code (attempts cs lo hi code n a) ↔
      ∀ i b, i + 1 < n → InsnStart cs lo hi code i a b → Advances cs lo hi code b := by
  rw [← isChain_attempts_iff n ha]
  constructor
  · intro h
    have hincreasing := List.isChain_iff_getElem.1 (List.isChain_iff_pairwise.2 h.increasing)
    have hsize := List.isChain_iff_getElem.1 h.bySize
    exact List.isChain_iff_getElem.2 fun i hi => ⟨hincreasing i hi, hsize i hi⟩
  · intro h
    refine ⟨List.isChain_iff_pairwise.1 (h.imp fun _ _ h => h.1), fun b hb => mem_attempts hb,
      h.imp fun _ _ h => h.2⟩

end Forward

/-- The addresses at which `disasm` attempts a decode move forward exactly when
each of the first nine instructions from the start can be decoded and does not
end past the last address back in the text, or is where the sweep ends. -/
theorem disasm_moves_forward_iff (cs : Capstone) {env : Env} (hg : env.Grants) {d : Debugger}
    (hr : d.state = .running) {f : Bool} {t : Tracee} {c word : Str} {l : List Str}
    (hlo : d.textBegin ≤ breakAddr word) (hhi : breakAddr word ≤ d.textEnd) :
    let code := codeAt d.bptab t.mem
    let visited := attempts cs d.textBegin d.textEnd code nDisasmIns (breakAddr word)
    (∀ o w', Runs (kernel env) (disasm cs (c :: word :: l) d) ⟨f, .stopped d.pid t⟩ o w' ↔
        o = .done { d with out := d.out ++ visited.map fun b => cs.row b (code b) } ∧
          w' = ⟨f, .stopped d.pid t⟩) ∧
      (MovesForward cs d.textBegin d.textEnd code visited ↔
        ∀ i b, i < 9 → InsnStart cs d.textBegin d.textEnd code i (breakAddr word) b →
          Advances cs d.textBegin d.textEnd code b) := by
  have hin : ¬ OutOfText d.textBegin d.textEnd (breakAddr word) := by
    simp only [OutOfText, not_or, BitVec.not_lt]
    exact ⟨hlo, hhi⟩
  refine ⟨fun o w' => runs_disasm hg hr hlo hhi, ?_⟩
  rw [movesForward_iff _ hin]
  have hlast : ∀ i, i + 1 < nDisasmIns ↔ i < 9 := by
    intro i
    rw [nDisasmIns]
    omega
  simp only [hlast]

/-! ## A long instruction -/

namespace Sample

/-- `nop`, and then `movabs rax, imm64`, which has ten bytes. -/
def longText : Memory :=
  Function.update (Function.update tracee.mem 0x1001 0x48) 0x1002 0xb8

def longTracee : Tracee := { tracee with mem := longText }

theorem capstone_sized : capstone.Sized := by
  intro bytes addr insn h
  simp only [capstone] at h
  split at h
  · next hhead =>
      cases h
      cases bytes with
      | nil => cases hhead
      | cons b rest => simp
  · cases h

end Sample

/-- The sweep goes back and forth before an instruction that is longer than the window. -/
theorem disasm_moves_back :
    Sample.capstone.Sized ∧
      Runs (kernel Sample.quiet) (disasm Sample.capstone ["d".toList, "0x1000".toList] Sample.started)
        ⟨false, .stopped 1 Sample.longTracee⟩
        (.done { Sample.started with
          out := Sample.started.out ++
            ([0x1000, 0x1001, 0x1000, 0x1001, 0x1000, 0x1001, 0x1000, 0x1001, 0x1000, 0x1001].map
              fun b => Sample.capstone.row b (codeAt ⟨[]⟩ Sample.longText b)) })
        ⟨false, .stopped 1 Sample.longTracee⟩ ∧
      ¬ MovesForward Sample.capstone 0x1000 0x1007 (codeAt ⟨[]⟩ Sample.longText)
        [0x1000, 0x1001, 0x1000, 0x1001, 0x1000, 0x1001, 0x1000, 0x1001, 0x1000, 0x1001] := by
  refine ⟨Sample.capstone_sized, ?_, fun h => ?_⟩
  · have haddr : breakAddr "0x1000".toList = 0x1000 := by rfl
    refine (runs_disasm (d := Sample.started) (t := Sample.longTracee) Sample.quiet_grants rfl
      (by rw [haddr]; decide) (by rw [haddr]; decide)).2 ⟨?_, rfl⟩
    rw [haddr]
    rfl
  · have := h.increasing
    revert this
    decide

theorem disasm_moves_forward_iff_long :
    let code := codeAt ⟨[]⟩ Sample.longText
    let visited := attempts Sample.capstone 0x1000 0x1007 code nDisasmIns
      (breakAddr "0x1000".toList)
    (∀ o w', Runs (kernel Sample.quiet)
        (disasm Sample.capstone ["d".toList, "0x1000".toList] Sample.started)
        ⟨false, .stopped 1 Sample.longTracee⟩ o w' ↔
        o = .done { Sample.started with
          out := Sample.started.out ++ visited.map fun b => Sample.capstone.row b (code b) } ∧
          w' = ⟨false, .stopped 1 Sample.longTracee⟩) ∧
      (MovesForward Sample.capstone 0x1000 0x1007 code visited ↔
        ∀ i b, i < 9 → InsnStart Sample.capstone 0x1000 0x1007 code i
          (breakAddr "0x1000".toList) b → Advances Sample.capstone 0x1000 0x1007 code b) :=
  disasm_moves_forward_iff Sample.capstone (d := Sample.started) (t := Sample.longTracee)
    Sample.quiet_grants rfl (by decide) (by decide)

end Sdb
