import UnixProgramming.Sdb.Primitives
import UnixProgramming.Text.Numerals

/-!
# Getting and setting a register

`get` and `set` share `reg_handler`, which tells its modes and its errors apart
by register values: the input 0 asks for a register, and the result -1 says
that there is none of that name.

* `regPtr_eq_some` — the eighteen names, and `Register.get_set`: they are
  eighteen different registers.
* `strtol_hexLiteral` — a literal is read up to the largest `long`.
* `set_writes_iff` — `set` writes the value exactly when it is a `long` and is
  not the input that asks for the register.
* `get_shows_iff` — `get` shows the value exactly when it is not -1.
-/

namespace Sdb

open ByteMemory CString Requests

/-! ## The eighteen registers -/

/-- The registers `reg_handler` knows. -/
inductive Register where
  | r15
  | r14
  | r13
  | r12
  | r11
  | r10
  | r9
  | r8
  | rbp
  | rsp
  | rsi
  | rdi
  | rip
  | rax
  | rbx
  | rcx
  | rdx
  | flags
  deriving DecidableEq

namespace Register

/-- Its name. -/
def name : Register → Str
  | r15 => "r15".toList
  | r14 => "r14".toList
  | r13 => "r13".toList
  | r12 => "r12".toList
  | r11 => "r11".toList
  | r10 => "r10".toList
  | r9 => "r9".toList
  | r8 => "r8".toList
  | rbp => "rbp".toList
  | rsp => "rsp".toList
  | rsi => "rsi".toList
  | rdi => "rdi".toList
  | rip => "rip".toList
  | rax => "rax".toList
  | rbx => "rbx".toList
  | rcx => "rcx".toList
  | rdx => "rdx".toList
  | flags => "flags".toList

/-- Its place in the register file. -/
def ptr : Register → RegPtr
  | r15 => ⟨(·.r15), fun r v => { r with r15 := v }⟩
  | r14 => ⟨(·.r14), fun r v => { r with r14 := v }⟩
  | r13 => ⟨(·.r13), fun r v => { r with r13 := v }⟩
  | r12 => ⟨(·.r12), fun r v => { r with r12 := v }⟩
  | r11 => ⟨(·.r11), fun r v => { r with r11 := v }⟩
  | r10 => ⟨(·.r10), fun r v => { r with r10 := v }⟩
  | r9 => ⟨(·.r9), fun r v => { r with r9 := v }⟩
  | r8 => ⟨(·.r8), fun r v => { r with r8 := v }⟩
  | rbp => ⟨(·.rbp), fun r v => { r with rbp := v }⟩
  | rsp => ⟨(·.rsp), fun r v => { r with rsp := v }⟩
  | rsi => ⟨(·.rsi), fun r v => { r with rsi := v }⟩
  | rdi => ⟨(·.rdi), fun r v => { r with rdi := v }⟩
  | rip => ⟨(·.rip), fun r v => { r with rip := v }⟩
  | rax => ⟨(·.rax), fun r v => { r with rax := v }⟩
  | rbx => ⟨(·.rbx), fun r v => { r with rbx := v }⟩
  | rcx => ⟨(·.rcx), fun r v => { r with rcx := v }⟩
  | rdx => ⟨(·.rdx), fun r v => { r with rdx := v }⟩
  | flags => ⟨(·.eflags), fun r v => { r with eflags := v }⟩

theorem name_injective {k k' : Register} (h : k.name = k'.name) : k = k' := by
  revert h
  cases k <;> cases k' <;> decide

/-- Setting one register leaves the others alone. -/
theorem get_set (k k' : Register) (regs : UserRegs) (v : Word) :
    k'.ptr.get (k.ptr.set regs v) = if k' = k then v else k'.ptr.get regs := by
  cases k <;> cases k' <;> rfl

theorem regPtr_name (k : Register) : regPtr k.name = some k.ptr := by
  cases k <;> rfl

end Register

theorem regPtr_of_no_name {name : Str} (h : ∀ k : Register, name ≠ k.name) :
    regPtr name = none := by
  have r15 : name ≠ "r15".toList := h .r15
  have r14 : name ≠ "r14".toList := h .r14
  have r13 : name ≠ "r13".toList := h .r13
  have r12 : name ≠ "r12".toList := h .r12
  have r11 : name ≠ "r11".toList := h .r11
  have r10 : name ≠ "r10".toList := h .r10
  have r9 : name ≠ "r9".toList := h .r9
  have r8 : name ≠ "r8".toList := h .r8
  have rbp : name ≠ "rbp".toList := h .rbp
  have rsp : name ≠ "rsp".toList := h .rsp
  have rsi : name ≠ "rsi".toList := h .rsi
  have rdi : name ≠ "rdi".toList := h .rdi
  have rip : name ≠ "rip".toList := h .rip
  have rax : name ≠ "rax".toList := h .rax
  have rbx : name ≠ "rbx".toList := h .rbx
  have rcx : name ≠ "rcx".toList := h .rcx
  have rdx : name ≠ "rdx".toList := h .rdx
  have flags : name ≠ "flags".toList := h .flags
  rw [regPtr, if_neg r15, if_neg r14, if_neg r13, if_neg r12, if_neg r11, if_neg r10, if_neg r9,
    if_neg r8, if_neg rbp, if_neg rsp, if_neg rsi, if_neg rdi, if_neg rip, if_neg rax,
    if_neg rbx, if_neg rcx, if_neg rdx, if_neg flags]

/-- A name stands for a register exactly when it is one of the eighteen. -/
theorem regPtr_eq_some {name : Str} {r : RegPtr} :
    regPtr name = some r ↔ ∃ k : Register, name = k.name ∧ r = k.ptr := by
  constructor
  · intro h
    by_cases hname : ∃ k : Register, name = k.name
    · obtain ⟨k, rfl⟩ := hname
      rw [k.regPtr_name, Option.some.injEq] at h
      exact ⟨k, rfl, h.symm⟩
    · rw [regPtr_of_no_name fun k hk => hname ⟨k, hk⟩] at h
      cases h
  · rintro ⟨k, rfl, rfl⟩
    exact k.regPtr_name

/-! ## Literals -/

/-- The value of hexadecimal digits. -/
def hexValue (ds : Str) : Nat := ds.foldl (fun acc c => acc * 16 + (digitVal c).getD 0) 0

/-- `s` is `0x` and hexadecimal digits of value `v`. -/
def HexLiteral (s : Str) (v : Word) : Prop :=
  ∃ ds : Str, s = '0' :: 'x' :: ds ∧ ds ≠ [] ∧ (∀ c ∈ ds, isDigit 16 c = true) ∧
    hexValue ds = v.toNat

/-- `strtol` reads a literal, up to `LONG_MAX`. -/
theorem strtol_hexLiteral {s : Str} {v : Word} (h : HexLiteral s v) :
    strtol s 0 = min longMax v.toNat := by
  obtain ⟨ds, rfl, hne, hdigits, hval⟩ := h
  have hread : readDigits 16 0 ds = v.toNat := by
    rw [readDigits_eq_foldl hdigits, ← hval, hexValue]
  rw [strtol_of_scan (sign_prefixed ds) (radix_prefixed (Or.inl rfl) hne hdigits), hread]

/-- A literal below `2 ^ 63` is the value it denotes; the others become the
largest `long`. -/
theorem ofInt_strtol_hexLiteral {s : Str} {v : Word} (h : HexLiteral s v) :
    BitVec.ofInt 64 (strtol s 0) = if v.toNat < 2 ^ 63 then v else BitVec.ofInt 64 longMax := by
  rw [strtol_hexLiteral h]
  split
  · next hlt =>
      have hmin : min longMax (v.toNat : Int) = v.toNat := by
        rw [longMax]
        omega
      rw [hmin, BitVec.ofInt_natCast, BitVec.ofNat_toNat, BitVec.setWidth_eq]
  · next hge =>
      have hmin : min longMax (v.toNat : Int) = longMax := by
        rw [longMax]
        omega
      rw [hmin]

/-! ## Setting -/

section Commands

variable {env : Env} {d : Debugger} {f : Bool} {t : Tracee} {c name word : Str} {l : List Str}
  {o : Result Fault Debugger} {w' : World}

/-- `set` on a running tracee whose registers the kernel hands out and accepts. -/
theorem runs_setReg (hd : d.state = .running) (hget : ¬ env.mayFail (.getregs d.pid))
    (hset : ∀ regs, ¬ env.mayFail (.setregs d.pid regs)) :
    Runs (kernel env) (setReg (c :: name :: word :: l) d) ⟨f, .stopped d.pid t⟩ o w' ↔
      match regHandler name (BitVec.ofInt 64 (strtol word 0)) t.regs d with
      | (res, regs, d₁) =>
          if res = -1 then o = .done d₁ ∧ w' = ⟨f, .stopped d.pid t⟩
          else
            o = .done { d₁ with
              lastCmdIsSetRip := if name = "rip".toList then true else d₁.lastCmdIsSetRip } ∧
            w' = ⟨f, .stopped d.pid { t with regs := regs }⟩ := by
  have hsame := sameButOut_regHandler name (BitVec.ofInt 64 (strtol word 0)) t.regs d
  unfold setReg
  rw [if_neg (not_not.2 hd)]
  refine (runs_getregs hget).trans ?_
  dsimp only
  generalize regHandler name (BitVec.ofInt 64 (strtol word 0)) t.regs d = reg at hsame ⊢
  obtain ⟨res, regs, d₁⟩ := reg
  obtain ⟨out, rfl⟩ := hsame
  by_cases hres : res = -1
  · simp [hres]
  · simp only [if_neg hres]
    refine (runs_setregs (hset regs)).trans ?_
    by_cases hname : name = "rip".toList
    · simp only [if_pos hname]
      exact Iff.rfl
    · simp only [if_neg hname]
      exact Iff.rfl

/-- `set` on a name that is one of the eighteen. -/
theorem regHandler_name (k : Register) (v : Word) (regs : UserRegs) :
    regHandler k.name v regs d =
      if v = 0 then (k.ptr.get regs, regs, d) else (0, k.ptr.set regs v, d) := by
  unfold regHandler
  rw [k.regPtr_name]

theorem regHandler_no_name (hname : ∀ k : Register, name ≠ k.name) (v : Word) (regs : UserRegs) :
    regHandler name v regs d = (-1, regs, d.say (.err "** no such register\n")) := by
  unfold regHandler
  rw [regPtr_of_no_name hname]

/-- `set` on one of the eighteen: the input 0 only asks for the register, and
if that is -1 the command ends there. -/
theorem runs_setReg_name (k : Register) (hd : d.state = .running)
    (hget : ¬ env.mayFail (.getregs d.pid)) (hset : ∀ regs, ¬ env.mayFail (.setregs d.pid regs)) :
    Runs (kernel env) (setReg (c :: k.name :: word :: l) d) ⟨f, .stopped d.pid t⟩ o w' ↔
      if BitVec.ofInt 64 (strtol word 0) = 0 ∧ k.ptr.get t.regs = -1 then
        o = .done d ∧ w' = ⟨f, .stopped d.pid t⟩
      else
        o = .done { d with
          lastCmdIsSetRip := if k = .rip then true else d.lastCmdIsSetRip } ∧
        w' = ⟨f, .stopped d.pid { t with
          regs := if BitVec.ofInt 64 (strtol word 0) = 0 then t.regs
            else k.ptr.set t.regs (BitVec.ofInt 64 (strtol word 0)) }⟩ := by
  have hname : Register.name .rip = "rip".toList := rfl
  have hrip : k.name = "rip".toList ↔ k = .rip := by
    rw [← hname]
    exact ⟨fun h => Register.name_injective h, fun h => by rw [h]⟩
  rw [runs_setReg hd hget hset, regHandler_name]
  by_cases hzero : BitVec.ofInt 64 (strtol word 0) = 0
  · simp only [hzero, if_true, true_and, hrip]
  · have hno : ¬ (0 : Word) = -1 := by decide
    simp only [hzero, false_and, if_false, if_neg hno, hrip]

/-- What `set name v` is to do: the register it names holds `v` and the others
what they held, and the flag is raised for `rip`; another name changes nothing. -/
def WritesRegister (name : Str) (v : Word) (d : Debugger) (f : Bool) (t : Tracee)
    (o : Result Fault Flow) (w' : World) : Prop :=
  (∀ k : Register, name = k.name → ∃ regs,
    (∀ k' : Register, k'.ptr.get regs = if k' = k then v else k'.ptr.get t.regs) ∧
      o = .done (.next { d with
        lastCmdIsSetRip := if k = .rip then true else d.lastCmdIsSetRip }) ∧
      w' = ⟨f, .stopped d.pid { t with regs := regs }⟩) ∧
  ((∀ k : Register, name ≠ k.name) →
    (∃ d', o = .done (.next d') ∧ SameButOut d d') ∧ w' = ⟨f, .stopped d.pid t⟩)

/-- A line of `set` runs `set_reg`, and the loop goes on. -/
theorem runs_setLine (cs : Capstone) (hd : d.state = .running)
    (hget : ¬ env.mayFail (.getregs d.pid)) (hset : ∀ regs, ¬ env.mayFail (.setregs d.pid regs))
    {line : Str} (hwords : dbgcmdParser line ' ' = c :: name :: word :: l)
    (hc : c ∈ ArgCommand.set.names) {o : Result Fault Flow} :
    Runs (kernel env) (commandLoop cs line d) ⟨f, .stopped d.pid t⟩ o w' ↔
      ∃ d', Runs (kernel env) (setReg (c :: name :: word :: l) d) ⟨f, .stopped d.pid t⟩ (.done d') w'
        ∧ o = .done (.next d') := by
  rw [runs_commandLoop_argCommand cs hc hwords]
  refine or_iff_left ?_
  rintro ⟨e, hr, -⟩
  have hno := (runs_setReg (c := c) (l := l) hd hget hset).1 hr
  generalize regHandler name (BitVec.ofInt 64 (strtol word 0)) t.regs d = reg at hno
  obtain ⟨res, regs, d₁⟩ := reg
  dsimp only at hno
  split at hno
  · cases hno.1
  · cases hno.1

/-- A value that is in the register after every run is a `long`, and 0 was there before. -/
theorem isLong_of_written {k : Register} (hd : d.state = .running)
    (hget : ¬ env.mayFail (.getregs d.pid)) (hset : ∀ regs, ¬ env.mayFail (.setregs d.pid regs))
    {v : Word} (hlit : HexLiteral word v)
    (hwrites : ∀ d' w', Runs (kernel env) (setReg (c :: k.name :: word :: l) d)
      ⟨f, .stopped d.pid t⟩ (.done d') w' → ∃ regs, k.ptr.get regs = v ∧
        w' = ⟨f, .stopped d.pid { t with regs := regs }⟩) :
    v.toNat < 2 ^ 63 ∧ (v = 0 → k.ptr.get t.regs = 0) := by
  simp only [runs_setReg_name k hd hget hset] at hwrites
  have hx := ofInt_strtol_hexLiteral hlit
  generalize BitVec.ofInt 64 (strtol word 0) = x at hwrites hx
  have hzero : x = 0 → v = 0 := by
    intro h0
    rw [h0] at hx
    split at hx
    · exact hx.symm
    · exact absurd hx (by decide)
  by_cases hask : x = 0 ∧ k.ptr.get t.regs = -1
  · obtain ⟨regs, hregs, hw⟩ := hwrites d _ (by rw [if_pos hask]; exact ⟨rfl, rfl⟩)
    have hsame : t.regs = regs := by injection hw with _ hc; injection hc with _ ht; rw [ht]
    rw [← hsame, hask.2, hzero hask.1] at hregs
    exact absurd hregs (by decide)
  · obtain ⟨regs, hregs, hw⟩ := hwrites _ _ (by rw [if_neg hask]; exact ⟨rfl, rfl⟩)
    cases hw
    by_cases h0 : x = 0
    · rw [if_pos h0, hzero h0] at hregs
      rw [hzero h0]
      exact ⟨by decide, fun _ => hregs⟩
    · rw [if_neg h0, Register.get_set, if_pos rfl] at hregs
      subst hregs
      refine ⟨?_, fun hv => absurd hv h0⟩
      by_contra hge
      rw [if_neg hge] at hx
      rw [hx] at hge
      exact hge (by decide)

/-- A value that is a `long` is written, 0 if it was there before. -/
theorem written_of_isLong {k : Register} (hd : d.state = .running)
    (hget : ¬ env.mayFail (.getregs d.pid)) (hset : ∀ regs, ¬ env.mayFail (.setregs d.pid regs))
    {v : Word} (hlit : HexLiteral word v) (hlt : v.toNat < 2 ^ 63)
    (hzero : v = 0 → k.ptr.get t.regs = 0) {d' : Debugger}
    (hrun : Runs (kernel env) (setReg (c :: k.name :: word :: l) d) ⟨f, .stopped d.pid t⟩
      (.done d') w') : WritesRegister k.name v d f t (.done (.next d')) w' := by
  have hx : BitVec.ofInt 64 (strtol word 0) = v := by
    rw [ofInt_strtol_hexLiteral hlit, if_pos hlt]
  have hask : ¬ (v = 0 ∧ k.ptr.get t.regs = -1) := by
    rintro ⟨hv, hall⟩
    rw [hzero hv] at hall
    exact absurd hall (by decide)
  rw [runs_setReg_name k hd hget hset, hx, if_neg hask] at hrun
  obtain ⟨heq, rfl⟩ := hrun
  cases heq
  refine ⟨fun k' hk' => ?_, fun hno => absurd rfl (hno k)⟩
  obtain rfl := Register.name_injective hk'
  refine ⟨_, fun k' => ?_, rfl, rfl⟩
  by_cases hv : v = 0
  · rw [if_pos hv]
    by_cases hk : k' = k
    · rw [hk, if_pos rfl, hzero hv, hv]
    · rw [if_neg hk]
  · rw [if_neg hv, Register.get_set]

/-- Another name writes nothing. -/
theorem written_of_no_name (hname : ∀ k : Register, name ≠ k.name) (hd : d.state = .running)
    (hget : ¬ env.mayFail (.getregs d.pid)) (hset : ∀ regs, ¬ env.mayFail (.setregs d.pid regs))
    {v : Word} {d' : Debugger}
    (hrun : Runs (kernel env) (setReg (c :: name :: word :: l) d) ⟨f, .stopped d.pid t⟩
      (.done d') w') : WritesRegister name v d f t (.done (.next d')) w' := by
  rw [runs_setReg hd hget hset, regHandler_no_name hname] at hrun
  obtain ⟨heq, rfl⟩ := hrun
  cases heq
  exact ⟨fun k hk => absurd hk (hname k), fun _ => ⟨⟨_, rfl, sameButOut_say d _⟩, rfl⟩⟩

/-- `set` with a literal writes the register it names exactly when the value is
below `2 ^ 63` and, if it is 0, the register holds it already. -/
theorem set_writes_iff (cs : Capstone) (hd : d.state = .running)
    (hget : ¬ env.mayFail (.getregs d.pid)) (hset : ∀ regs, ¬ env.mayFail (.setregs d.pid regs))
    {line : Str} (hwords : dbgcmdParser line ' ' = c :: name :: word :: l)
    (hc : c ∈ ArgCommand.set.names) {v : Word} (hlit : HexLiteral word v) :
    (∀ o w', Runs (kernel env) (commandLoop cs line d) ⟨f, .stopped d.pid t⟩ o w' →
        WritesRegister name v d f t o w') ↔
      ∀ k : Register, name = k.name → v.toNat < 2 ^ 63 ∧ (v = 0 → k.ptr.get t.regs = 0) := by
  have hline : ∀ o w', Runs (kernel env) (commandLoop cs line d) ⟨f, .stopped d.pid t⟩ o w' ↔
      ∃ d', Runs (kernel env) (setReg (c :: name :: word :: l) d) ⟨f, .stopped d.pid t⟩ (.done d') w'
        ∧ o = .done (.next d') := fun o w' => runs_setLine cs hd hget hset hwords hc
  constructor
  · rintro h k rfl
    -- the run there is, and what the property says of it
    have hwrites : ∀ d' w', Runs (kernel env) (setReg (c :: k.name :: word :: l) d)
        ⟨f, .stopped d.pid t⟩ (.done d') w' → ∃ regs, k.ptr.get regs = v ∧
          w' = ⟨f, .stopped d.pid { t with regs := regs }⟩ := by
      intro d' w' hrun
      obtain ⟨regs, hregs, -, hw⟩ := (h _ _ ((hline _ _).2 ⟨d', hrun, rfl⟩)).1 k rfl
      exact ⟨regs, by rw [hregs, if_pos rfl], hw⟩
    exact isLong_of_written hd hget hset hlit hwrites
  · intro h o w' hr
    obtain ⟨d', hrun, rfl⟩ := (hline o w').1 hr
    by_cases hname : ∃ k : Register, name = k.name
    · obtain ⟨k, rfl⟩ := hname
      obtain ⟨hlt, hzero⟩ := h k rfl
      exact written_of_isLong hd hget hset hlit hlt hzero hrun
    · exact written_of_no_name (fun k hk => hname ⟨k, hk⟩) hd hget hset hrun

/-! ## Showing -/

/-- `get` on a running tracee whose registers the kernel hands out. -/
theorem runs_getSingleReg (hd : d.state = .running) (hget : ¬ env.mayFail (.getregs d.pid)) :
    Runs (kernel env) (getSingleReg (c :: name :: l) d) ⟨f, .stopped d.pid t⟩ o w' ↔
      (o = match regHandler name 0 t.regs d with
        | (val, _, d₁) => if val = -1 then .done d₁ else .done (d₁.say (.reg name val))) ∧
      w' = ⟨f, .stopped d.pid t⟩ := by
  unfold getSingleReg
  rw [if_neg (not_not.2 hd)]
  refine (runs_getregs hget).trans ?_
  dsimp only
  generalize regHandler name 0 t.regs d = reg
  obtain ⟨val, regs, d₁⟩ := reg
  by_cases hval : val = -1
  · simp only [if_pos hval]
    exact Iff.rfl
  · simp only [if_neg hval]
    exact Iff.rfl

/-- What `get name` is to do: print the value of the register it names, and no
value for another name; nothing else changes. -/
def ShowsRegister (name : Str) (d : Debugger) (f : Bool) (t : Tracee) (o : Result Fault Flow)
    (w' : World) : Prop :=
  (∀ k : Register, name = k.name → o = .done (.next (d.say (.reg name (k.ptr.get t.regs))))) ∧
  ((∀ k : Register, name ≠ k.name) → o = .done (.next (d.say (.err "** no such register\n")))) ∧
  w' = ⟨f, .stopped d.pid t⟩

/-- `get` shows the register it names exactly when its value is not -1. -/
theorem get_shows_iff (cs : Capstone) (hd : d.state = .running)
    (hget : ¬ env.mayFail (.getregs d.pid)) {line : Str}
    (hwords : dbgcmdParser line ' ' = c :: name :: l) (hc : c ∈ ArgCommand.get.names) :
    (∀ o w', Runs (kernel env) (commandLoop cs line d) ⟨f, .stopped d.pid t⟩ o w' →
        ShowsRegister name d f t o w') ↔
      ∀ k : Register, name = k.name → k.ptr.get t.regs ≠ -1 := by
  have hline : ∀ o w', Runs (kernel env) (commandLoop cs line d) ⟨f, .stopped d.pid t⟩ o w' ↔
      (o = match regHandler name 0 t.regs d with
        | (val, _, d₁) => if val = -1 then .done (.next d₁)
          else .done (.next (d₁.say (.reg name val)))) ∧
      w' = ⟨f, .stopped d.pid t⟩ := by
    intro o w'
    rw [runs_commandLoop_argCommand cs hc hwords]
    simp only [ArgCommand.run, runs_getSingleReg hd hget]
    generalize regHandler name 0 t.regs d = reg
    obtain ⟨val, regs, d₁⟩ := reg
    dsimp only
    split
    · simp [and_comm]
    · simp [and_comm]
  by_cases hname : ∃ k : Register, name = k.name
  · obtain ⟨k, rfl⟩ := hname
    have hhandler : regHandler k.name 0 t.regs d = (k.ptr.get t.regs, t.regs, d) := by
      rw [regHandler_name, if_pos rfl]
    simp only [hhandler] at hline
    constructor
    · intro h k' hk' hall
      obtain rfl := Register.name_injective hk'
      have hshown := (h _ _ ((hline _ _).2 ⟨rfl, rfl⟩)).1 k rfl
      -- the message is missing
      rw [if_pos hall, Result.done.injEq, Flow.next.injEq] at hshown
      have hout := congrArg Debugger.out hshown
      simp at hout
    · intro h o w' hr
      obtain ⟨rfl, rfl⟩ := (hline o w').1 hr
      refine ⟨fun k' hk' => ?_, fun hno => absurd rfl (hno k), rfl⟩
      obtain rfl := Register.name_injective hk'
      rw [if_neg (h k rfl)]
  · have hother : ∀ k : Register, name ≠ k.name := fun k hk => hname ⟨k, hk⟩
    refine iff_of_true ?_ fun k hk => absurd hk (hother k)
    intro o w' hr
    obtain ⟨rfl, rfl⟩ := (hline o w').1 hr
    refine ⟨fun k hk => absurd hk (hother k), fun _ => ?_, rfl⟩
    rw [regHandler_no_name hother]
    exact if_pos rfl

end Commands

namespace Sample

/-- `set rax 0x8000000000000000`. -/
def bigLine : Str := "set rax 0x8000000000000000".toList

theorem words_bigLine :
    dbgcmdParser bigLine ' ' = ["set".toList, "rax".toList, "0x8000000000000000".toList] := by
  rw [dbgcmdParser_eq]
  rfl

theorem hexLiteral_big : HexLiteral "0x8000000000000000".toList 0x8000000000000000 :=
  ⟨"8000000000000000".toList, rfl, by decide, by rw [← List.all_eq_true]; rfl, rfl⟩

/-- `set rax 0x2a`. -/
theorem words_setLine :
    dbgcmdParser "set rax 0x2a".toList ' ' = ["set".toList, "rax".toList, "0x2a".toList] := by
  rw [dbgcmdParser_eq]
  rfl

theorem hexLiteral_setLine : HexLiteral "0x2a".toList 0x2a :=
  ⟨"2a".toList, rfl, by decide, by rw [← List.all_eq_true]; rfl, rfl⟩

/-- `get rax`. -/
theorem words_getLine : dbgcmdParser "get rax".toList ' ' = ["get".toList, "rax".toList] := by
  rw [dbgcmdParser_eq]
  rfl

/-- The process with all the bits of `rax` set. -/
def allOnes : Tracee := ⟨{ regs with rax := -1 }, tracee.mem⟩

end Sample

/-- A value of `2 ^ 63` or more is not what the register gets. -/
theorem set_writes_another_value :
    ¬ ∀ o w', Runs (kernel Sample.quiet) (commandLoop Sample.capstone Sample.bigLine Sample.started)
        ⟨false, .stopped 1 Sample.tracee⟩ o w' →
      WritesRegister "rax".toList 0x8000000000000000 Sample.started false Sample.tracee o w' := by
  intro h
  have hread : BitVec.ofInt 64 (strtol "0x8000000000000000".toList 0) = 0x7fffffffffffffff := by
    rw [ofInt_strtol_hexLiteral Sample.hexLiteral_big]
    decide
  have hrun : Runs (kernel Sample.quiet)
      (setReg ["set".toList, Register.rax.name, "0x8000000000000000".toList] Sample.started)
      ⟨false, .stopped 1 Sample.tracee⟩ (.done Sample.started)
      ⟨false, .stopped 1 ⟨{ Sample.regs with rax := 0x7fffffffffffffff }, Sample.tracee.mem⟩⟩ := by
    refine (runs_setReg_name .rax rfl (fun h => h) (fun _ h => h)).2 ?_
    rw [hread]
    exact ⟨rfl, rfl⟩
  have hline := runs_commandLoop_of_argCommand Sample.capstone (k := .set) (by decide)
    Sample.words_bigLine hrun
  obtain ⟨regs, hregs, -, hw⟩ := (h _ _ hline).1 .rax rfl
  cases hw
  exact absurd (hregs .rax) (by decide)

theorem set_writes_iff_setLine :
    (∀ o w', Runs (kernel Sample.quiet) (commandLoop Sample.capstone "set rax 0x2a".toList
        Sample.started) ⟨false, .stopped 1 Sample.tracee⟩ o w' →
      WritesRegister "rax".toList 0x2a Sample.started false Sample.tracee o w') ↔
      ∀ k : Register, "rax".toList = k.name →
        (0x2a : Word).toNat < 2 ^ 63 ∧ ((0x2a : Word) = 0 → k.ptr.get Sample.tracee.regs = 0) :=
  set_writes_iff Sample.capstone rfl (fun h => h) (fun _ h => h) Sample.words_setLine (by decide)
    Sample.hexLiteral_setLine

/-- The value -1 is not shown. -/
theorem get_shows_nothing :
    ¬ ∀ o w', Runs (kernel Sample.quiet) (commandLoop Sample.capstone "get rax".toList Sample.started)
        ⟨false, .stopped 1 Sample.allOnes⟩ o w' →
      ShowsRegister "rax".toList Sample.started false Sample.allOnes o w' := by
  intro h
  have hrun : Runs (kernel Sample.quiet)
      (getSingleReg ["get".toList, Register.rax.name] Sample.started)
      ⟨false, .stopped 1 Sample.allOnes⟩ (.done Sample.started)
      ⟨false, .stopped 1 Sample.allOnes⟩ := by
    refine (runs_getSingleReg rfl fun h => h).2 ⟨?_, rfl⟩
    rw [regHandler_name]
    rfl
  have hline := runs_commandLoop_of_argCommand Sample.capstone (k := .get) (by decide)
    Sample.words_getLine hrun
  have hshown := (h _ _ hline).1 .rax rfl
  rw [Result.done.injEq, Flow.next.injEq] at hshown
  exact absurd (congrArg (fun d => d.out.length) hshown) (by decide)

theorem get_shows_iff_getLine :
    (∀ o w', Runs (kernel Sample.quiet) (commandLoop Sample.capstone "get rax".toList Sample.started)
        ⟨false, .stopped 1 Sample.tracee⟩ o w' →
      ShowsRegister "rax".toList Sample.started false Sample.tracee o w') ↔
      ∀ k : Register, "rax".toList = k.name → k.ptr.get Sample.tracee.regs ≠ -1 :=
  get_shows_iff Sample.capstone rfl (fun h => h) Sample.words_getLine (by decide)

end Sdb
