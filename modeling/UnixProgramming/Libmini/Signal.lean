import UnixProgramming.Libmini.SignalSets

/-!
# `memset` and `signal`

`memset` counts with a variable that is never set to 0: the loop starts from
whatever the variable holds.  `sigemptyset` and `sigfillset` fill a set through
it, and `signal` begins the set it blocks with `sigemptyset`.

* `memset`, `sigemptyset`, `sigfillset`, `signalAct`, `signal`.
* `memsetFrom_of_nonneg`, `memsetFrom_of_neg` — what the loop does.
* `memset_eq_fill_iff`, `sigemptyset_eq_zero_iff`, `sigfillset_eq_allOnes_iff`,
  `signalAct_mask_iff` — when the contents are right.
* `exact_contents_iff` — all of these, for the calls as their callers see them.
-/

namespace Libmini

open ByteMemory X86

/-! ## The calls -/

/-- What stops a routine. -/
inductive Fault where
  /-- A store in front of what it was given. -/
  | underrun
  deriving DecidableEq

/-- The loop of `memset`.  `size_t` is a signed type here, so `i` may be negative
at first. -/
def memsetFrom (tar : Addr) (c : Byte) (n i : Int) (m : Memory) : Except Fault Memory :=
  if i < n then
    if i < 0 then .error .underrun
    else memsetFrom tar c n (i + 1) (Function.update m (tar + BitVec.ofInt 64 i) c)
  else .ok m
termination_by (n - i).toNat
decreasing_by omega

/-- `memset(s, c, n)`: the address it returns, and the memory after.  `i` is what
the variable of the loop holds on entry. -/
def memset (s : Addr) (c : BitVec 32) (n i : Word) (m : Memory) : Except Fault (Addr × Memory) :=
  (memsetFrom s (c.setWidth 8) n.toInt i.toInt m).map fun m => (s, m)

/-- `memset(set, c, sizeof (sigset_t))`, unless the set is null. -/
def fillSet (c : BitVec 32) (set : Addr) (i : Word) (p : Process) : Except Fault (Int × Process) :=
  if set = 0 then .ok (wrapperRetval (-einval) p)
  else (memset set c 8 i p.cpu.mem).map fun (_, m) =>
    wrapperRetval 0 { p with cpu := { p.cpu with mem := m } }

/-- `sigemptyset(set)`. -/
def sigemptyset (set : Addr) (i : Word) (p : Process) : Except Fault (Int × Process) :=
  fillSet 0 set i p

/-- `sigfillset(set)`. -/
def sigfillset (set : Addr) (i : Word) (p : Process) : Except Fault (Int × Process) :=
  fillSet 0xff set i p

/-- `SIG_ERR`. -/
def sigErr : Word := -1

/-- `SIGINT`. -/
def sigint : BitVec 32 := 2

/-- `SA_RESTART`. -/
def saRestart : Word := 0x10000000

/-- Where a local `struct sigaction` lies. -/
structure Slot where
  addr : Addr
  /-- The address of its mask is not null. -/
  mask_ne_zero : offset addr 24 ≠ 0

/-- `&act.sa_mask`. -/
def Slot.mask (a : Slot) : Addr := offset a.addr 24

/-- The structure in memory, as a value. -/
def Slot.read (a : Slot) (m : Memory) : SigAction where
  handler := readWord m a.addr
  flags := readWord m (offset a.addr 8)
  restorer := readWord m (offset a.addr 16)
  mask := readWord m a.mask

/-- What the locals of a call of `signal`, and of the calls it makes, are on entry. -/
structure Locals where
  /-- Where `act` lies. -/
  act : Slot
  /-- The variable of the loop of `memset`. -/
  i : Word
  oact : SigAction
  kact : SigAction
  koldact : SigAction

/-- The part of `signal` that fills `act`: the action, and the process then. -/
def signalAct (signum : BitVec 32) (handler : Word) (l : Locals) (p : Process) :
    Except Fault (SigAction × Process) := do
  let p := p.store l.act.addr handler
  let (_, p) ← sigemptyset l.act.mask l.i p
  let (_, p) := sigaddset l.act.mask signum p
  let p := p.store (offset l.act.addr 8) (if signum = sigint then 0 else saRestart)
  return (l.act.read p.cpu.mem, p)

/-- The part after it: the call of `sigaction`, and what becomes of its result. -/
def signalCall (K : SigKernel) (restorer : Word) (signum : BitVec 32) (a : SigAction) (l : Locals)
    (s : Signals) : Word × Signals :=
  let (ret, oact, s) := sigaction K restorer signum (some a) (some l.oact) l.kact l.koldact s
  (if ret < 0 then sigErr else (oact.getD l.oact).handler, s)

/-- `signal(signum, handler)`. -/
def signal (K : SigKernel) (restorer : Word) (signum : BitVec 32) (handler : Word) (l : Locals)
    (s : Signals) : Except Fault (Word × Signals) :=
  if handler = sigErr ∨ signum.toInt < 1 ∨ signum.toInt ≥ 32 then
    .ok (sigErr, { s with process := { s.process with errno := einval } })
  else do
    let (a, p) ← signalAct signum handler l s.process
    return signalCall K restorer signum a l { s with process := p }

/-! ## The loop of `memset` -/

/-- The bytes from `s + i` up to `s + n` hold `c`. -/
def fillFrom (s : Addr) (c : Byte) (n i : Nat) (m : Memory) : Memory :=
  fun x => if i ≤ (x - s).toNat ∧ (x - s).toNat < n then c else m x

/-- The `n` bytes from `s` on hold `c`. -/
def fill (s : Addr) (c : Byte) (n : Nat) (m : Memory) : Memory := fillFrom s c n 0 m

/-- One more byte at the low end. -/
theorem fillFrom_succ {s : Addr} {c : Byte} {n i : Nat} {m : Memory} (hi : i < n)
    (hn : n < 2 ^ 63) :
    fillFrom s c n (i + 1) (Function.update m (offset s i) c) = fillFrom s c n i m := by
  funext x
  rw [fillFrom, fillFrom]
  by_cases hx : x = offset s i
  · have hat := sub_offset_of_lt s (show i < 2 ^ 64 by omega)
    rw [hx, hat, if_neg (by omega), Function.update_self, if_pos (by omega)]
  · have hother : (x - s).toNat ≠ i := by
      intro h
      apply hx
      rw [← h, offset_sub]
    rw [Function.update_of_ne hx]
    exact if_congr (by omega) rfl rfl

/-- From an index that is not negative the loop fills up to `n`. -/
theorem memsetFrom_of_nonneg {tar : Addr} {c : Byte} {n i : Nat} {m : Memory}
    (hn : n < 2 ^ 63) : memsetFrom tar c n i m = .ok (fillFrom tar c n i m) := by
  by_cases hi : i < n
  · have hnext : memsetFrom tar c n ((i : Int) + 1) (Function.update m (offset tar i) c) =
        .ok (fillFrom tar c n (i + 1) (Function.update m (offset tar i) c)) := by
      exact_mod_cast memsetFrom_of_nonneg hn
    rw [memsetFrom, if_pos (by omega), if_neg (by omega), BitVec.ofInt_natCast, hnext,
      fillFrom_succ hi hn]
  · rw [memsetFrom, if_neg (by omega)]
    congr
    funext x
    exact (if_neg (by omega)).symm
termination_by n - i

/-- From a negative index below `n` it begins in front of the buffer. -/
theorem memsetFrom_of_neg {tar : Addr} {c : Byte} {n i : Int} {m : Memory} (hi : i < 0)
    (hn : i < n) : memsetFrom tar c n i m = .error .underrun := by
  rw [memsetFrom, if_pos hn, if_pos hi]

/-- Filling from `i` on is filling all of it exactly when the rest is right. -/
theorem fillFrom_eq_fill_iff {s : Addr} {c : Byte} {n i : Nat} {m : Memory} (hn : n < 2 ^ 63) :
    fillFrom s c n i m = fill s c n m ↔ ∀ k, k < n → k < i → m (offset s k) = c := by
  constructor
  · intro h k hkn hki
    have hk := congrFun h (offset s k)
    rw [fill, fillFrom, fillFrom, sub_offset_of_lt s (show k < 2 ^ 64 by omega),
      if_neg (by omega), if_pos (by omega)] at hk
    exact hk
  · intro h
    funext x
    rw [fill, fillFrom, fillFrom]
    by_cases hlow : (x - s).toNat < n ∧ (x - s).toNat < i
    · rw [if_neg (by omega), if_pos (by omega)]
      have hright := h _ hlow.1 hlow.2
      rwa [offset_sub] at hright
    · exact if_congr (by omega) rfl rfl

/-- A word that is not negative. -/
theorem toInt_of_nonneg {v : Word} (h : 0 ≤ v.toInt) : v.toInt = v.toNat ∧ v.toNat < 2 ^ 63 := by
  rw [BitVec.toInt_eq_toNat_cond] at h ⊢
  split at h <;> omega

theorem memset_of_nonneg {s : Addr} {c : BitVec 32} {n i : Word} {m : Memory} (hn : 0 ≤ n.toInt)
    (hi : 0 ≤ i.toInt) :
    memset s c n i m = .ok (s, fillFrom s (c.setWidth 8) n.toNat i.toNat m) := by
  obtain ⟨hn', hbound⟩ := toInt_of_nonneg hn
  rw [memset, hn', (toInt_of_nonneg hi).1, memsetFrom_of_nonneg hbound]
  rfl

theorem memset_of_neg {s : Addr} {c : BitVec 32} {n i : Word} {m : Memory} (hn : 0 ≤ n.toInt)
    (hi : ¬ 0 ≤ i.toInt) : memset s c n i m = .error .underrun := by
  rw [memset, memsetFrom_of_neg (by omega) (by omega)]
  rfl

/-- `memset` does what it is to do exactly when it starts at 0, or the bytes it
leaves out are right already. -/
theorem memset_eq_fill_iff {s : Addr} {c : BitVec 32} {n i : Word} {m : Memory}
    (hn : 0 ≤ n.toInt) :
    memset s c n i m = .ok (s, fill s (c.setWidth 8) n.toNat m) ↔
      0 ≤ i.toInt ∧ ∀ k, k < n.toNat → k < i.toNat → m (offset s k) = c.setWidth 8 := by
  by_cases hi : 0 ≤ i.toInt
  · rw [memset_of_nonneg hn hi, ← fillFrom_eq_fill_iff (toInt_of_nonneg hn).2]
    simp [hi]
  · rw [memset_of_neg hn hi]
    exact iff_of_false (by simp) (fun h => hi h.1)

/-! ## The sets -/

theorem fillSet_of_nonneg {c : BitVec 32} {set : Addr} {i : Word} {p : Process} (hset : set ≠ 0)
    (hi : 0 ≤ i.toInt) :
    fillSet c set i p =
      .ok (0, { p with
        cpu := { p.cpu with mem := fillFrom set (c.setWidth 8) 8 i.toNat p.cpu.mem }
        errno := 0 }) := by
  rw [fillSet, if_neg hset, memset_of_nonneg (by decide) hi]
  rfl

theorem fillSet_of_neg {c : BitVec 32} {set : Addr} {i : Word} {p : Process} (hset : set ≠ 0)
    (hi : ¬ 0 ≤ i.toInt) : fillSet c set i p = .error .underrun := by
  rw [fillSet, if_neg hset, memset_of_neg (by decide) hi]
  rfl

/-- The bits of a word that was filled from its byte `i` on. -/
theorem getLsbD_readWord_fillFrom (a : Addr) (c : Byte) (i : Nat) (m : Memory) {b : Nat}
    (hb : b < 64) :
    (readWord (fillFrom a c 8 i m) a).getLsbD b =
      if i ≤ b / 8 then c.getLsbD (b % 8) else (readWord m a).getLsbD b := by
  have hk : b / 8 < 8 := by omega
  have hbit : ∀ v : Word, v.getLsbD b = (byteOf v (b / 8)).getLsbD (b % 8) := by
    intro v
    rw [getLsbD_byteOf, decide_eq_true (by omega), Bool.true_and, Nat.div_add_mod]
  rw [hbit, hbit, byteOf_readWord _ a hk, byteOf_readWord _ a hk, fillFrom,
    sub_offset_of_lt a (by omega)]
  by_cases hi : i ≤ b / 8
  · rw [if_pos ⟨hi, hk⟩, if_pos hi]
  · rw [if_neg (fun h => hi h.1), if_neg hi]

/-- A filled set is `w` exactly when the bytes left out were those of `w` already. -/
theorem fillSet_eq_iff {c : BitVec 32} {set : Addr} {i : Word} {p : Process} (hset : set ≠ 0)
    {w : Word} (hw : ∀ b, b < 64 → w.getLsbD b = (c.setWidth 8).getLsbD (b % 8)) :
    (∃ q, fillSet c set i p = .ok (0, q) ∧ readWord q.cpu.mem set = w) ↔
      0 ≤ i.toInt ∧ ∀ b, b < 64 → b / 8 < i.toNat →
        (readWord p.cpu.mem set).getLsbD b = w.getLsbD b := by
  by_cases hi : 0 ≤ i.toInt
  · rw [fillSet_of_nonneg hset hi]
    constructor
    · rintro ⟨q, hq, hword⟩
      simp only [Except.ok.injEq, Prod.mk.injEq, true_and] at hq
      subst hq
      refine ⟨hi, fun b hb hlow => ?_⟩
      have hbit := getLsbD_readWord_fillFrom set (c.setWidth 8) i.toNat p.cpu.mem hb
      rw [if_neg (by omega)] at hbit
      rw [← hbit, ← hword]
    · rintro ⟨-, h⟩
      refine ⟨_, rfl, ?_⟩
      apply BitVec.eq_of_getLsbD_eq
      intro b hb
      rw [getLsbD_readWord_fillFrom _ _ _ _ hb]
      by_cases hlow : i.toNat ≤ b / 8
      · rw [if_pos hlow, hw b hb]
      · rw [if_neg hlow, h b hb (by omega)]
  · rw [fillSet_of_neg hset hi]
    refine iff_of_false ?_ (fun h => hi h.1)
    rintro ⟨q, hq, -⟩
    exact absurd hq (by simp)

theorem sigemptyset_eq_zero_iff {set : Addr} {i : Word} {p : Process} (hset : set ≠ 0) :
    (∃ q, sigemptyset set i p = .ok (0, q) ∧ readWord q.cpu.mem set = 0) ↔
      0 ≤ i.toInt ∧ ∀ b, b < 64 → b / 8 < i.toNat →
        (readWord p.cpu.mem set).getLsbD b = false := by
  have h := fillSet_eq_iff (c := 0) (i := i) (p := p) hset (w := 0) fun b _ => by simp
  exact h.trans (and_congr_right fun _ => forall_congr' fun b => by simp)

theorem sigfillset_eq_allOnes_iff {set : Addr} {i : Word} {p : Process} (hset : set ≠ 0) :
    (∃ q, sigfillset set i p = .ok (0, q) ∧ readWord q.cpu.mem set = BitVec.allOnes 64) ↔
      0 ≤ i.toInt ∧ ∀ b, b < 64 → b / 8 < i.toNat →
        (readWord p.cpu.mem set).getLsbD b = true := by
  have hall : ((0xff#32).setWidth 8) = BitVec.allOnes 8 := by decide
  have h := fillSet_eq_iff (c := 0xff) (i := i) (p := p) hset (w := BitVec.allOnes 64) fun b hb => by
    rw [BitVec.ofNat_eq_ofNat, hall, BitVec.getLsbD_allOnes, BitVec.getLsbD_allOnes,
      decide_eq_true hb, decide_eq_true (Nat.mod_lt _ (by norm_num))]
  refine h.trans (and_congr_right fun _ => forall_congr' fun b => imp_congr_right fun hb => ?_)
  rw [BitVec.getLsbD_allOnes, decide_eq_true hb]

/-! ## The action `signal` asks for -/

/-- The handler, the flags and the mask are three words. -/
theorem Slot.apart (l : Slot) :
    8 ≤ (offset l.addr 8 - l.addr).toNat ∧ 8 ≤ (l.addr - offset l.addr 8).toNat ∧
      8 ≤ (l.mask - l.addr).toNat ∧ 8 ≤ (l.addr - l.mask).toNat ∧
      8 ≤ (offset l.addr 8 - l.mask).toNat ∧ 8 ≤ (l.mask - offset l.addr 8).toNat := by
  rw [Slot.mask]
  refine ⟨?_, ?_, ?_, ?_, ?_, ?_⟩ <;> bv_omega

/-- Filling a set leaves the other words alone. -/
theorem readWord_fillFrom_of_apart {m : Memory} {a b : Addr} {c : Byte} {i : Nat}
    (hab : 8 ≤ (a - b).toNat) (hba : 8 ≤ (b - a).toNat) :
    readWord (fillFrom a c 8 i m) b = readWord m b := by
  apply readWord_congr
  intro x hx
  exact if_neg fun hin => not_inWord_of_apart hab hba hx hin.2

/-- The memory once `act` is filled, the loop having started at `i`. -/
def actMem (signum : BitVec 32) (handler : Word) (act : Slot) (i : Nat) (m : Memory) : Memory :=
  let m := fillFrom act.mask 0 8 i (writeWord m act.addr handler)
  writeWord (writeWord m act.mask (readWord m act.mask ||| sigmaskOf signum)) (offset act.addr 8)
    (if signum = sigint then 0 else saRestart)

theorem readWord_actMem_handler (signum : BitVec 32) (handler : Word) (act : Slot) (i : Nat)
    (m : Memory) : readWord (actMem signum handler act i m) act.addr = handler := by
  obtain ⟨hflags, hflags', hmask, hmask', -, -⟩ := act.apart
  rw [actMem, readWord_writeWord_of_apart hflags hflags', readWord_writeWord_of_apart hmask hmask',
    readWord_fillFrom_of_apart hmask hmask', readWord_writeWord]

theorem readWord_actMem_mask (signum : BitVec 32) (handler : Word) (act : Slot) (i : Nat)
    (m : Memory) :
    readWord (actMem signum handler act i m) act.mask =
      readWord (fillFrom act.mask 0 8 i (writeWord m act.addr handler)) act.mask |||
        sigmaskOf signum := by
  obtain ⟨-, -, -, -, hflags, hflags'⟩ := act.apart
  rw [actMem, readWord_writeWord_of_apart hflags hflags', readWord_writeWord]

/-- The process once `act` is filled. -/
def filled (signum : BitVec 32) (handler : Word) (l : Locals) (p : Process) : Process :=
  { p with
    cpu := { p.cpu with mem := actMem signum handler l.act l.i.toNat p.cpu.mem }
    errno := 0 }

variable {restorer : Word} {signum : BitVec 32} {handler : Word} {l : Locals}
  {p : Process} {s : Signals}

/-- From an index that is not negative `act` is filled. -/
theorem signalAct_of_nonneg (h1 : 1 ≤ signum.toInt) (h31 : signum.toInt ≤ 31)
    (hi : 0 ≤ l.i.toInt) :
    signalAct signum handler l p =
      .ok (l.act.read (filled signum handler l p).cpu.mem, filled signum handler l p) := by
  have hset : l.act.mask ≠ 0 := l.act.mask_ne_zero
  have hgood : ¬ Refused l.act.mask signum := by
    simp only [Refused, hset, false_or]
    omega
  have hempty := fillSet_of_nonneg (c := 0) (p := p.store l.act.addr handler) hset hi
  rw [signalAct, sigemptyset, hempty]
  simp only [sigaddset, if_neg hgood]
  rfl

theorem signalAct_of_neg (hi : ¬ 0 ≤ l.i.toInt) :
    signalAct signum handler l p = .error .underrun := by
  have hset : l.act.mask ≠ 0 := l.act.mask_ne_zero
  rw [signalAct, sigemptyset, fillSet_of_neg hset hi]
  rfl

/-- The mask of `act` is the signal alone exactly when nothing else was left in it. -/
theorem mask_actMem_iff (h1 : 1 ≤ signum.toInt) (h31 : signum.toInt ≤ 31) (act : Slot) (i : Nat)
    (m : Memory) :
    readWord (actMem signum handler act i m) act.mask = sigmask signum.toNat ↔
      ∀ b, b < 64 → b / 8 < i → (readWord m act.mask).getLsbD b = true → b + 1 = signum.toNat := by
  obtain ⟨-, hlow, hhigh⟩ := toInt_signal h1 h31
  obtain ⟨-, -, hmask, hmask', -, -⟩ := act.apart
  have hbit : ∀ b, b < 64 → (readWord (actMem signum handler act i m) act.mask).getLsbD b =
      ((if i ≤ b / 8 then false else (readWord m act.mask).getLsbD b) ||
        decide (b + 1 = signum.toNat)) := by
    intro b hb
    rw [readWord_actMem_mask, BitVec.getLsbD_or, getLsbD_readWord_fillFrom _ _ _ _ hb,
      readWord_writeWord_of_apart hmask' hmask, sigmaskOf_eq_sigmask h1 h31,
      getLsbD_sigmask hlow (by omega), show (0 : Byte).getLsbD (b % 8) = false by simp]
  constructor
  · intro h b hb hleft hin
    have hb' := hbit b hb
    rw [h, getLsbD_sigmask hlow (by omega), if_neg (by omega), hin, Bool.true_or] at hb'
    exact of_decide_eq_true hb'
  · intro h
    apply BitVec.eq_of_getLsbD_eq
    intro b hb
    rw [hbit b hb, getLsbD_sigmask hlow (by omega)]
    by_cases hleft : i ≤ b / 8
    · rw [if_pos hleft, Bool.false_or]
    · rw [if_neg hleft]
      cases hin : (readWord m act.mask).getLsbD b with
      | false => rw [Bool.false_or]
      | true => rw [Bool.true_or, decide_eq_true (h b hb (by omega) hin)]

/-- `signal` asks every kernel for the action `a`, and returns what comes of it. -/
def Asks (restorer : Word) (signum : BitVec 32) (handler : Word) (l : Locals) (s : Signals)
    (a : SigAction) : Prop :=
  ∃ p, ∀ K, signal K restorer signum handler l s =
    .ok (signalCall K restorer signum a l { s with process := p })

/-- A kernel that keeps every action as it is: what a call asks for shows in its
table. -/
def keeper : SigKernel := ⟨fun _ _ => true, fun _ _ => einval, fun _ _ => einval_pos, id⟩

theorem actions_signalCall_keeper (a : SigAction) :
    (signalCall keeper restorer signum a l s).2.actions signum = kact restorer (some a) l.kact := by
  have haccepts : keeper.accepts signum (some (kact restorer (some a) l.kact)) = true := rfl
  rw [signalCall, sigaction_accepted _ _ _ _ _ _ _ _ haccepts]
  exact Function.update_self _ _ _

/-- What `signal` asks for is what it filled `act` with. -/
theorem asks_iff (h1 : 1 ≤ signum.toInt) (h31 : signum.toInt ≤ 31) (hhandler : handler ≠ sigErr)
    {mask : SigSet} :
    (∃ a, Asks restorer signum handler l s a ∧ a.handler = handler ∧ a.mask = mask) ↔
      0 ≤ l.i.toInt ∧
        readWord (actMem signum handler l.act l.i.toNat s.process.cpu.mem) l.act.mask = mask := by
  have hguard : ¬ (handler = sigErr ∨ signum.toInt < 1 ∨ signum.toInt ≥ 32) := by
    simp only [hhandler, false_or]
    omega
  by_cases hi : 0 ≤ l.i.toInt
  · have hact : signalAct signum handler l s.process =
        .ok (l.act.read (filled signum handler l s.process).cpu.mem,
          filled signum handler l s.process) := signalAct_of_nonneg h1 h31 hi
    have hasks : Asks restorer signum handler l s
        (l.act.read (actMem signum handler l.act l.i.toNat s.process.cpu.mem)) := by
      refine ⟨filled signum handler l s.process, fun K => ?_⟩
      rw [signal, if_neg hguard, hact]
      rfl
    constructor
    · rintro ⟨a, ⟨p, ha⟩, -, rfl⟩
      refine ⟨hi, ?_⟩
      obtain ⟨p', ha'⟩ := hasks
      have hcall := Except.ok.inj ((ha keeper).symm.trans (ha' keeper))
      have hsame := congrArg (fun r => r.2.actions signum) hcall
      simp only [actions_signalCall_keeper] at hsame
      exact (congrArg SigAction.mask hsame).symm
    · rintro ⟨-, rfl⟩
      exact ⟨_, hasks, readWord_actMem_handler _ _ _ _ _, rfl⟩
  · refine iff_of_false ?_ (fun h => hi h.1)
    rintro ⟨a, ⟨p, ha⟩, -⟩
    have hfault := ha keeper
    rw [signal, if_neg hguard, signalAct_of_neg hi] at hfault
    exact absurd hfault (by simp [bind, Except.bind])

/-! ## The calls as their callers see them -/

/-- `memset` sets exactly its `n` bytes, `sigemptyset` and `sigfillset` leave the
empty and the full set, and `signal` asks for its handler and for a mask of its
signal alone: each exactly when the loop does not start in front of the buffer
and the bytes it skips hold the right contents already, which for the mask of
`signal` means that they have no other signal in them. -/
theorem exact_contents_iff (s set : Addr) (c : BitVec 32) (n i : Word) (m : Memory)
    (p : Process) (restorer : Word) (signum : BitVec 32) (handler : Word) (l : Locals)
    (sigs : Signals) :
    (0 ≤ n.toInt →
      (memset s c n i m = .ok (s, fill s (c.setWidth 8) n.toNat m) ↔
        0 ≤ i.toInt ∧ ∀ k, k < n.toNat → k < i.toNat → m (offset s k) = c.setWidth 8)) ∧
    (set ≠ 0 →
      ((∃ q, sigemptyset set i p = .ok (0, q) ∧ readWord q.cpu.mem set = 0) ↔
        0 ≤ i.toInt ∧ ∀ b, b < 64 → b / 8 < i.toNat →
          (readWord p.cpu.mem set).getLsbD b = false)) ∧
    (set ≠ 0 →
      ((∃ q, sigfillset set i p = .ok (0, q) ∧ readWord q.cpu.mem set = BitVec.allOnes 64) ↔
        0 ≤ i.toInt ∧ ∀ b, b < 64 → b / 8 < i.toNat →
          (readWord p.cpu.mem set).getLsbD b = true)) ∧
    (1 ≤ signum.toInt → signum.toInt ≤ 31 → handler ≠ sigErr →
      ((∃ a, Asks restorer signum handler l sigs a ∧ a.handler = handler ∧
          a.mask = sigmask signum.toNat) ↔
        0 ≤ l.i.toInt ∧ ∀ b, b < 64 → b / 8 < l.i.toNat →
          (readWord sigs.process.cpu.mem l.act.mask).getLsbD b = true → b + 1 = signum.toNat)) := by
  refine ⟨fun hn => memset_eq_fill_iff hn, fun hset => sigemptyset_eq_zero_iff hset,
    fun hset => sigfillset_eq_allOnes_iff hset, fun h1 h31 hhandler => ?_⟩
  rw [asks_iff h1 h31 hhandler, mask_actMem_iff h1 h31]

namespace Sample

/-- Every byte of the memory is 0xff, and nothing is blocked. -/
def stale : Process := { unblocked with cpu := { unblocked.cpu with mem := fun _ => 0xff } }

/-- The locals of a call of `signal`, the loop of `memset` starting at `i`. -/
def locals (i : Word) : Locals where
  act := ⟨0x7000, by decide⟩
  i := i
  oact := ⟨0, 0, 0, 0⟩
  kact := ⟨0, 0, 0, 0⟩
  koldact := ⟨0, 0, 0, 0⟩

end Sample

/-- When the variable happens to be 0 nothing is left out. -/
theorem exact_contents_from_zero :
    memset 0x6000 0 8 0 Sample.stale.cpu.mem = .ok (0x6000, fill 0x6000 0 8 Sample.stale.cpu.mem) ∧
      (∃ q, sigemptyset 0x6000 0 Sample.stale = .ok (0, q) ∧ readWord q.cpu.mem 0x6000 = 0) ∧
      ∃ a, Asks 0 14 0x401000 (Sample.locals 0) ⟨Sample.stale, fun _ => ⟨0, 0, 0, 0⟩⟩ a ∧
        a.handler = 0x401000 ∧ a.mask = sigmask 14 := by
  obtain ⟨hmemset, hempty, -, hsignal⟩ := exact_contents_iff 0x6000 0x6000 0 8 0
    Sample.stale.cpu.mem Sample.stale 0 14 0x401000 (Sample.locals 0)
    ⟨Sample.stale, fun _ => ⟨0, 0, 0, 0⟩⟩
  have hskips : ∀ k : Nat, ¬ k < (0#64).toNat := fun k => by simp
  refine ⟨?_, ?_, ?_⟩
  · exact (hmemset (by decide)).2 ⟨by decide, fun k _ hk => absurd hk (hskips k)⟩
  · exact (hempty (by decide)).2 ⟨by decide, fun b _ hb => absurd hb (hskips _)⟩
  · exact (hsignal (by decide) (by decide) (by decide)).2
      ⟨by decide, fun b _ hb => absurd hb (hskips _)⟩

/-- The variable holds 8, as the last call of `memset` left it: the set keeps every
signal. -/
theorem sigemptyset_keeps_stale :
    ¬ ∃ q, sigemptyset 0x6000 8 Sample.stale = .ok (0, q) ∧ readWord q.cpu.mem 0x6000 = 0 := by
  have hset : (0x6000 : Addr) ≠ 0 := by decide
  rw [sigemptyset_eq_zero_iff hset]
  rintro ⟨-, h⟩
  exact absurd (h 0 (by decide) (by decide)) (by decide)

end Libmini
