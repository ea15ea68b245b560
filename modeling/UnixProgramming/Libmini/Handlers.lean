import UnixProgramming.Libmini.CriticalSection
import UnixProgramming.Libmini.Dispositions
import UnixProgramming.Libmini.Sleep

/-!
# Handlers that return

The kernel interrupts a thread for a signal: it writes a frame with the whole context of the
thread, puts the address of the restorer in front of it, and goes on in the handler as if it
had been called from there.  `sigaction` makes `sys_rt_sigreturn` the restorer of every action,
and that routine asks the kernel for the context the stack pointer is at.

* `Context`, `FrameFormat`, `deliver` — what the kernel does.
* `sysRtSigreturn`, `ReturnsTo` — the routine, and the way from the end of a handler through it.
* `Restorable` — the actions the library has put in place; `restorable_run` keeps it.
* `Handling` — the run of a thread, with the frames of the handlers that have not returned.
* `Handling.sound` — every frame still holds what was interrupted, behind the restorer.
* `handlers_return` — so no signal is fatal for want of a restorer, and every handler that
  returns resumes exactly what was interrupted.
-/

namespace Libmini

open ByteMemory X86 Requests

/-! ## The kernel -/

/-- All of a thread but its memory. -/
structure Context where
  regs : Reg → Word
  flags : Flags
  rip : Word
  blocked : SigSet

/-- How the kernel keeps a context in memory. -/
structure FrameFormat where
  size : Nat
  size_le : size + 8 ≤ 2 ^ 64
  write : Context → Addr → Memory → Memory
  read : Addr → Memory → Context
  write_apart : ∀ c a m x, ¬ InBlock a size x → write c a m x = m x
  read_write : ∀ c a m, read a (write c a m) = c
  read_congr : ∀ a m m', (∀ x, InBlock a size x → m' x = m x) → read a m' = read a m

/-- A thread, with the actions of its process. -/
structure Thread where
  signals : Signals
  flags : Flags
  rip : Word

namespace Thread

/-- Its registers and its memory. -/
abbrev cpu (t : Thread) : Cpu := t.signals.process.cpu

def context (t : Thread) : Context := ⟨t.cpu.regs, t.flags, t.rip, t.signals.process.blocked⟩

/-- The thread with this context and this memory. -/
def goesOn (t : Thread) (c : Context) (m : Memory) : Thread where
  signals :=
    { t.signals with
      process := { t.signals.process with cpu := ⟨c.regs, m⟩, blocked := c.blocked } }
  flags := c.flags
  rip := c.rip

/-- `rt_sigreturn`, for this context. -/
def resume (t : Thread) (c : Context) : Thread :=
  t.goesOn { c with blocked := c.blocked &&& ~~~unblockable } t.cpu.mem

end Thread

/-- The action is a handler; 0 and 1 are `SIG_DFL` and `SIG_IGN`. -/
def SigAction.Catches (a : SigAction) : Prop := a.handler ≠ 0 ∧ a.handler ≠ 1

/-- The memory with a frame at `f`. -/
def framed (F : FrameFormat) (restorer : Word) (f : Addr) (c : Context) (m : Memory) : Memory :=
  writeWord (F.write c (f + 8) m) f restorer

/-- Deliver a signal with the frame at `f`, the signals of `set` being blocked on top; `none` is
the end of a process that has given no restorer.  What is in the other registers is open. -/
def deliver (F : FrameFormat) (t : Thread) (sig : BitVec 32) (set : SigSet) (f : Addr)
    (regs : Reg → Word) : Option Thread :=
  let act := t.signals.actions sig
  if act.flags &&& saRestorer = 0 then none
  else
    some (t.goesOn
      { regs := Function.update (Function.update regs .rdi (sig.signExtend 64)) .rsp f
        flags := t.flags
        rip := act.handler
        blocked := (t.signals.process.blocked ||| set) &&& ~~~unblockable }
      (framed F act.restorer f t.context t.cpu.mem))

/-! ## The restorer -/

/-- `sys_rt_sigreturn`. -/
def sysRtSigreturn : List (Line Empty Empty) := [.op (.movImm .rax 15), .syscall, .instr .ret]

/-- What it runs in: call 15 goes on with the context the stack pointer is at, and does not come
back. -/
def returning (F : FrameFormat) : Surroundings Empty Context (fun _ => Empty) Astray where
  syscall s :=
    if s.cpu.regs .rax = 15 then .request (F.read (s.cpu.regs .rsp) s.cpu.mem) Empty.elim
    else .fault (.systemCall (s.cpu.regs .rax))
  routine := Empty.elim
  runsOff := .ranOff

/-- A `ret` of the thread leads to the restorer, and this to the context `c`. -/
def ReturnsTo (F : FrameFormat) (restorer : Word) (t : Thread) (c : Context) : Prop :=
  ∃ cpu k, exec .ret t.cpu = .jump restorer cpu ∧
    runLines (returning F) none sysRtSigreturn ⟨cpu, t.flags⟩ = .request c k

/-- From the end of a handler, where the address of the restorer is in place. -/
theorem returnsTo_iff {F : FrameFormat} {restorer : Word} {t : Thread}
    (h : readWord t.cpu.mem (t.cpu.regs .rsp) = restorer) (c : Context) :
    ReturnsTo F restorer t c ↔ c = F.read (t.cpu.regs .rsp + 8) t.cpu.mem := by
  have hret : exec .ret t.cpu = .jump restorer (t.cpu.set .rsp (t.cpu.regs .rsp + 8)) := by
    rw [exec, h]
  have hrun : ∀ flags, runLines (returning F) none sysRtSigreturn
      ⟨t.cpu.set .rsp (t.cpu.regs .rsp + 8), flags⟩ =
        .request (F.read (t.cpu.regs .rsp + 8) t.cpu.mem) fun x => x.elim := by
    intro flags
    exact congrArg (Prog.request _) (funext fun x => x.elim)
  constructor
  · rintro ⟨cpu, k, hjump, hrequest⟩
    rw [hret] at hjump
    obtain ⟨-, rfl⟩ := Outcome.jump.inj hjump
    rw [hrun] at hrequest
    exact (Prog.request.inj hrequest).1.symm
  · rintro rfl
    exact ⟨_, _, hret, hrun _⟩

/-! ## The actions in place -/

/-- The kernel keeps the restorer of an action, and the flag that there is one. -/
structure SigKernel.Retains (K : SigKernel) : Prop where
  flag : ∀ a, (K.keep a).flags &&& saRestorer = a.flags &&& saRestorer
  restorer : ∀ a, (K.keep a).restorer = a.restorer

/-- Every handler in place has this restorer. -/
def Restorable (restorer : Word) (actions : BitVec 32 → SigAction) : Prop :=
  ∀ sig, (actions sig).Catches →
    (actions sig).flags &&& saRestorer ≠ 0 ∧ (actions sig).restorer = restorer

/-- The call is given an action. -/
def Installing.Provided : Installing → Prop
  | .signal _ _ _ => True
  | .sigaction _ act _ _ _ => act ≠ none

/-- The flag is there. -/
theorem or_and_self (v w : Word) : (v ||| w) &&& w = w := by
  apply BitVec.eq_of_getLsbD_eq
  intro i _
  rw [BitVec.getLsbD_and, BitVec.getLsbD_or]
  cases v.getLsbD i <;> cases w.getLsbD i <;> rfl

section Actions

variable {K : SigKernel} {restorer : Word} {s s' : Signals}

theorem restorable_sigaction (hK : K.Retains) (h : Restorable restorer s.actions)
    (signum : BitVec 32) (a : SigAction) (oldact : Option SigAction)
    (garbage oldGarbage : SigAction) :
    Restorable restorer
      (sigaction K restorer signum (some a) oldact garbage oldGarbage s).2.2.actions := by
  by_cases haccepts : K.accepts signum (some (kact restorer (some a) garbage)) = true
  · rw [sigaction_accepted _ _ _ _ _ _ _ _ haccepts]
    intro sig hcatches
    simp only [Function.update_apply] at hcatches ⊢
    split
    · refine ⟨?_, hK.restorer _⟩
      rw [hK.flag, kact, or_and_self]
      decide
    · rename_i hother
      rw [if_neg hother] at hcatches
      exact h sig hcatches
  · have hrejected := sigaction_rejected K restorer signum (some a) oldact garbage oldGarbage s
      (Bool.eq_false_of_not_eq_true haccepts)
    rw [hrejected.actions]
    exact h

/-- One call of `signal` or `sigaction`. -/
theorem restorable_run (hK : K.Retains) (h : Restorable restorer s.actions) {c : Installing}
    (hc : c.Provided) {o : Outcome} (hrun : c.run K restorer s = .ok (o, s')) :
    Restorable restorer s'.actions := by
  by_cases hsteady : c.Steady
  · cases c with
    | signal signum handler l =>
        by_cases hbad : BadSignal signum handler
        · have hrefuses : signal K restorer signum handler l s =
              .ok (sigErr, { s with process := { s.process with errno := einval } }) := if_pos hbad
          rw [Installing.run, hrefuses] at hrun
          cases hrun
          exact h
        · obtain ⟨a, p, -, hcalls⟩ := @signal_calls K restorer s signum handler l hbad
            (hsteady.resolve_left hbad)
          rw [Installing.run, hcalls] at hrun
          have hs' : (signalCall K restorer signum a l { s with process := p }).2 = s' :=
            congrArg Prod.snd (Except.ok.inj hrun)
          rw [← hs']
          exact @restorable_sigaction K restorer { s with process := p } hK h signum a (some l.oact)
            l.kact l.koldact
    | sigaction signum act oldact garbage oldGarbage =>
        obtain ⟨a, rfl⟩ := Option.ne_none_iff_exists'.1 hc
        have hs' : (sigaction K restorer signum (some a) oldact garbage oldGarbage s).2.2 = s' :=
          congrArg Prod.snd (Except.ok.inj hrun)
        rw [← hs']
        exact restorable_sigaction hK h signum a oldact garbage oldGarbage
  · rw [run_fault restorer s hsteady] at hrun
    cases hrun

end Actions

/-! ## What the frames hold -/

/-- The frame at `f`, the address in front of it included, is the same. -/
def SameFrame (F : FrameFormat) (f : Addr) (m m' : Memory) : Prop :=
  ∀ x, InBlock f (F.size + 8) x → m' x = m x

/-- A frame in order: the restorer in front, and behind it what was interrupted. -/
structure InOrder (F : FrameFormat) (restorer : Word) (e : Addr × Context) (m : Memory) : Prop where
  restorer : readWord m e.1 = restorer
  context : F.read (e.1 + 8) m = e.2
  lawful : e.2.blocked &&& unblockable = 0

section InOrder

variable {F : FrameFormat} {restorer : Word} {e : Addr × Context} {m m' : Memory}

theorem InOrder.of_sameFrame (h : InOrder F restorer e m) (hm : SameFrame F e.1 m m') :
    InOrder F restorer e m' where
  restorer := by
    rw [readWord_congr fun x hx => hm x ((inBlock_succ F.size_le).2 (Or.inl hx))]
    exact h.restorer
  context := by
    rw [F.read_congr _ m m' fun x hx => hm x ((inBlock_succ F.size_le).2 (Or.inr hx))]
    exact h.context
  lawful := h.lawful

theorem inOrder_framed (f : Addr) {c : Context} (hc : c.blocked &&& unblockable = 0) (m : Memory) :
    InOrder F restorer (f, c) (framed F restorer f c m) where
  restorer := readWord_writeWord _ _ _
  context := by
    rw [framed, F.read_congr _ (F.write c (f + 8) m), F.read_write]
    intro x hx
    exact writeWord_of_not_inWord fun hin => not_inBlock_of_inWord F.size_le hin hx
  lawful := hc

/-- Nothing else is written. -/
theorem framed_of_not_inBlock {f x : Addr} {c : Context} (hx : ¬ InBlock f (F.size + 8) x) :
    framed F restorer f c m x = m x := by
  rw [inBlock_succ F.size_le, not_or] at hx
  rw [framed, writeWord_of_not_inWord hx.1, F.write_apart _ _ _ _ hx.2]

end InOrder

/-! ## The run of a thread -/

/-- The frame at `f` overlaps none of these. -/
def ApartFrom (F : FrameFormat) (frames : List (Addr × Context)) (f : Addr) : Prop :=
  ∀ e ∈ frames, ∀ x, InBlock e.1 (F.size + 8) x → ¬ InBlock f (F.size + 8) x

/-- The run of a thread from `t₀`, and the frames of the handlers that have not returned, each
with what was interrupted, the innermost first. -/
inductive Handling (F : FrameFormat) (K : SigKernel) (restorer : Word) (t₀ : Thread) :
    List (Addr × Context) → Thread → Prop where
  | start : Handling F K restorer t₀ [] t₀
  /-- Computation, in the program or in a handler, and system calls, also such as change the
  mask; the frames are left alone. -/
  | compute {frames : List (Addr × Context)} {t t' : Thread} :
      Handling F K restorer t₀ frames t → (∀ e ∈ frames, SameFrame F e.1 t.cpu.mem t'.cpu.mem) →
        t'.signals.process.Lawful → t'.signals.actions = t.signals.actions →
          Handling F K restorer t₀ frames t'
  /-- A call of `signal` or `sigaction`. -/
  | install {frames : List (Addr × Context)} {t t' : Thread} {c : Installing} {o : Outcome}
      {s : Signals} :
      Handling F K restorer t₀ frames t → c.Provided →
        c.run K restorer t.signals = .ok (o, s) → t'.signals.actions = s.actions →
          (∀ e ∈ frames, SameFrame F e.1 t.cpu.mem t'.cpu.mem) → t'.signals.process.Lawful →
            Handling F K restorer t₀ frames t'
  /-- A signal comes in; its frame overlaps no other. -/
  | deliver {frames : List (Addr × Context)} {t t' : Thread} {sig : BitVec 32} {set : SigSet}
      {f : Addr} {regs : Reg → Word} :
      Handling F K restorer t₀ frames t → (t.signals.actions sig).Catches →
        ApartFrom F frames f → deliver F t sig set f regs = some t' →
          Handling F K restorer t₀ ((f, t.context) :: frames) t'
  /-- The innermost handler returns. -/
  | return {frames : List (Addr × Context)} {t : Thread} {f : Addr} {c c' : Context} :
      Handling F K restorer t₀ ((f, c) :: frames) t → t.cpu.regs .rsp = f →
        ReturnsTo F restorer t c' → Handling F K restorer t₀ frames (t.resume c')
  /-- It is left by a jump, and does not return. -/
  | leave {frames : List (Addr × Context)} {t : Thread} {e : Addr × Context} :
      Handling F K restorer t₀ (e :: frames) t → Handling F K restorer t₀ frames t

section Delivery

variable {F : FrameFormat} {t t' : Thread} {sig : BitVec 32} {set : SigSet} {f : Addr}
  {regs : Reg → Word}

/-- What delivers a signal. -/
theorem deliver_mem (h : deliver F t sig set f regs = some t') :
    t'.cpu.mem = framed F (t.signals.actions sig).restorer f t.context t.cpu.mem ∧
      t'.signals.actions = t.signals.actions ∧ t'.signals.process.Lawful := by
  rw [deliver] at h
  split at h
  · cases h
  · cases h
    exact ⟨rfl, rfl, and_not_and_eq_zero _ _⟩

/-- Where the handler begins. -/
theorem deliver_entry (h : deliver F t sig set f regs = some t') :
    t'.cpu.regs .rsp = f ∧ t'.rip = (t.signals.actions sig).handler := by
  rw [deliver] at h
  split at h
  · cases h
  · cases h
    have hrsp := Function.update_self Reg.rsp f (Function.update regs .rdi (sig.signExtend 64))
    exact ⟨hrsp, rfl⟩

end Delivery

/-- What is kept: every handler has the restorer, what cannot be blocked is not, and every frame
is in order. -/
structure Sound (F : FrameFormat) (restorer : Word) (frames : List (Addr × Context)) (t : Thread) :
    Prop where
  actions : Restorable restorer t.signals.actions
  lawful : t.signals.process.Lawful
  frames : ∀ e ∈ frames, InOrder F restorer e t.cpu.mem

section Run

variable {F : FrameFormat} {K : SigKernel} {restorer : Word} {t₀ t : Thread}
  {frames : List (Addr × Context)}

/-- The handler at the end returns to what it interrupted. -/
theorem InOrder.returnsTo_iff {f : Addr} {c c' : Context}
    (h : InOrder F restorer (f, c) t.cpu.mem) (hrsp : t.cpu.regs .rsp = f) :
    ReturnsTo F restorer t c' ↔ c' = c := by
  subst hrsp
  rw [Libmini.returnsTo_iff h.restorer, h.context]

theorem resume_context {e : Addr × Context} {m : Memory} (h : InOrder F restorer e m) :
    (t.resume e.2).context = e.2 := by
  have hmask : e.2.blocked &&& ~~~unblockable = e.2.blocked := and_not_eq h.lawful
  have hcontext : (t.resume e.2).context =
      { e.2 with blocked := e.2.blocked &&& ~~~unblockable } := rfl
  rw [hcontext, hmask]

/-- **Every frame is in order**, through any run. -/
theorem Handling.sound (hK : K.Retains) (h₀ : Sound F restorer [] t₀)
    (h : Handling F K restorer t₀ frames t) : Sound F restorer frames t := by
  induction h with
  | start => exact h₀
  | compute _ hsame hlawful hactions ih =>
      exact ⟨hactions ▸ ih.actions, hlawful, fun e he => (ih.frames e he).of_sameFrame (hsame e he)⟩
  | install _ hprovided hrun hactions hsame hlawful ih =>
      refine ⟨?_, hlawful, fun e he => (ih.frames e he).of_sameFrame (hsame e he)⟩
      rw [hactions]
      exact restorable_run hK ih.actions hprovided hrun
  | @deliver frames t t' sig set f regs _ hcatches hapart hdeliver ih =>
      obtain ⟨hmem, hactions, hlawful⟩ := deliver_mem hdeliver
      rw [(ih.actions sig hcatches).2] at hmem
      refine ⟨hactions ▸ ih.actions, hlawful, List.forall_mem_cons.2 ⟨?_, fun e he => ?_⟩⟩
      · have hinterrupted : t.context.blocked &&& unblockable = 0 := ih.lawful
        rw [hmem]
        exact inOrder_framed f hinterrupted t.cpu.mem
      · refine (ih.frames e he).of_sameFrame fun x hx => ?_
        rw [hmem]
        exact framed_of_not_inBlock (hapart e he x hx)
  | @«return» frames t f c c' _ hrsp hreturns ih =>
      obtain ⟨hlast, hrest⟩ := List.forall_mem_cons.1 ih.frames
      exact ⟨ih.actions, and_not_and_eq_zero _ _, hrest⟩
  | leave _ ih => exact ⟨ih.actions, ih.lawful, fun e he => ih.frames e (List.mem_cons_of_mem _ he)⟩

/-- **Handlers return.**  In a process that began without handlers and installs them with
`signal` and `sigaction`, whenever signals come in, in handlers too: no signal that has a
handler ends the process for want of a restorer; and a handler that does its `ret` with the
stack pointer at its frame goes through `sys_rt_sigreturn` to exactly the context that was
interrupted, the registers, the flags, the instruction and the mask, in the memory it leaves. -/
theorem handlers_return (hK : K.Retains) (hfresh : ∀ sig, ¬ (t₀.signals.actions sig).Catches)
    (hlawful : t₀.signals.process.Lawful) (h : Handling F K restorer t₀ frames t) :
    (∀ sig set f regs, (t.signals.actions sig).Catches → deliver F t sig set f regs ≠ none) ∧
      ∀ f c rest, frames = (f, c) :: rest → t.cpu.regs .rsp = f →
        (∀ c', ReturnsTo F restorer t c' ↔ c' = c) ∧ (t.resume c).context = c ∧
          (t.resume c).cpu.mem = t.cpu.mem := by
  have hsound := h.sound hK
    ⟨fun sig hcatches => absurd hcatches (hfresh sig), hlawful,
      fun _ he => absurd he List.not_mem_nil⟩
  refine ⟨fun sig set f regs hcatches => ?_, ?_⟩
  · rw [deliver, if_neg (hsound.actions sig hcatches).1]
    exact Option.some_ne_none _
  · rintro f c rest rfl hrsp
    have hlast := hsound.frames (f, c) List.mem_cons_self
    exact ⟨fun c' => hlast.returnsTo_iff hrsp, resume_context hlast, rfl⟩

end Run

/-! ## The frame of the kernel -/

/-- `eflags`, with `ZF` in bit 6 and `SF` in bit 7, `OF` being clear. -/
def eflags (f : Flags) : Word := (if f.zero then 0x40 else 0) ||| (if f.less then 0x80 else 0)

/-- The flags in it. -/
def flagsOf (v : Word) : Flags := ⟨v.getLsbD 6, v.getLsbD 7 != v.getLsbD 11⟩

theorem flagsOf_eflags (f : Flags) : flagsOf (eflags f) = f := by
  obtain ⟨zero, less⟩ := f
  cases zero <;> cases less <;> decide

/-- The words of a `ucontext`: five in front, the registers in their order, six and eight that
are not of interest, and the mask. -/
def ucontextWords (c : Context) : List Word :=
  [0, 0, 0, 0, 0, c.regs .r8, c.regs .r9, c.regs .r10, c.regs .r11, c.regs .r12, c.regs .r13,
    c.regs .r14, c.regs .r15, c.regs .rdi, c.regs .rsi, c.regs .rbp, c.regs .rbx, c.regs .rdx,
    c.regs .rax, c.regs .rcx, c.regs .rsp, c.rip, eflags c.flags] ++ List.replicate 14 0 ++
      [c.blocked]

/-- The place of a register. -/
def ucontextIndex : Reg → Nat
  | .r8 => 5
  | .r9 => 6
  | .r10 => 7
  | .r11 => 8
  | .r12 => 9
  | .r13 => 10
  | .r14 => 11
  | .r15 => 12
  | .rdi => 13
  | .rsi => 14
  | .rbp => 15
  | .rbx => 16
  | .rdx => 17
  | .rax => 18
  | .rcx => 19
  | .rsp => 20

/-- The context in these words. -/
def contextOf (ws : List Word) : Context where
  regs r := ws.getD (ucontextIndex r) 0
  flags := flagsOf (ws.getD 22 0)
  rip := ws.getD 21 0
  blocked := ws.getD 37 0

theorem contextOf_ucontextWords (c : Context) : contextOf (ucontextWords c) = c := by
  have hregs : (contextOf (ucontextWords c)).regs = c.regs := by
    funext r
    cases r <;> rfl
  exact congrArg₂ (fun r f => Context.mk r f c.rip c.blocked) hregs (flagsOf_eflags c.flags)

/-- The words from `a` on. -/
def wordsAt (n : Nat) (a : Addr) (m : Memory) : List Word :=
  (List.range n).map fun k => readWord m (offset a (8 * k))

theorem wordsAt_storeWords (m : Memory) (a : Addr) (ws : List Word) (h : 8 * ws.length ≤ 2 ^ 64) :
    wordsAt ws.length a (storeWords m a ws) = ws := by
  refine List.ext_getElem (by simp [wordsAt]) fun k hk hk' => ?_
  simp only [wordsAt, List.getElem_map, List.getElem_range]
  exact readWord_storeWords m a h (List.getElem?_eq_getElem hk')

theorem wordsAt_congr {n : Nat} {a : Addr} {m m' : Memory} (hn : 8 * n ≤ 2 ^ 64)
    (h : ∀ x, InBlock a (8 * n) x → m' x = m x) : wordsAt n a m' = wordsAt n a m := by
  refine List.map_congr_left fun k hk => readWord_congr fun x hx => h x ?_
  have hlt := List.mem_range.1 hk
  exact inBlock_of_inWord hx (by omega) hn

theorem ucontext_size : 304 + 8 ≤ 2 ^ 64 := by norm_num

theorem ucontext_write_apart (c : Context) (a : Addr) (m : Memory) (x : Addr)
    (hx : ¬ InBlock a 304 x) : storeWords m a (ucontextWords c) x = m x :=
  storeWords_of_not_inBlock (by simp [ucontextWords]) hx

theorem ucontext_read_write (c : Context) (a : Addr) (m : Memory) :
    contextOf (wordsAt 38 a (storeWords m a (ucontextWords c))) = c := by
  have hwords := wordsAt_storeWords m a (ucontextWords c) (by simp [ucontextWords])
  exact (congrArg contextOf hwords).trans (contextOf_ucontextWords c)

theorem ucontext_read_congr (a : Addr) (m m' : Memory) (h : ∀ x, InBlock a 304 x → m' x = m x) :
    contextOf (wordsAt 38 a m') = contextOf (wordsAt 38 a m) :=
  congrArg contextOf (wordsAt_congr (by norm_num) h)

/-- The kernel's format. -/
def ucontext : FrameFormat where
  size := 304
  size_le := ucontext_size
  write c a m := storeWords m a (ucontextWords c)
  read a m := contextOf (wordsAt 38 a m)
  write_apart := ucontext_write_apart
  read_write := ucontext_read_write
  read_congr := ucontext_read_congr

namespace Sample

theorem retains_acceptAll : acceptAll.Retains := ⟨fun _ => rfl, fun _ => rfl⟩

/-- A process in which every disposition is the default one. -/
def fresh : Thread := ⟨defaults, ⟨false, false⟩, 0x401000⟩

/-- A handler for `SIGALRM`. -/
def onAlarm : SigAction := ⟨0x401200, 0, 0, 0⟩

/-- The call that installs it. -/
def installsOnAlarm : Installing := .sigaction 14 (some onAlarm) none ⟨0, 0, 0, 0⟩ ⟨0, 0, 0, 0⟩

/-- The process with the handler, in place of which `sys_rt_sigreturn` is at `0x401500`. -/
def alarmable : Thread :=
  { fresh with
    signals :=
      { defaults with
        actions := Function.update defaults.actions 14 ⟨0x401200, saRestorer, 0x401500, 0⟩ } }

theorem not_catches_fresh (sig : BitVec 32) : ¬ (fresh.signals.actions sig).Catches :=
  fun h => h.1 rfl

theorem lawful_fresh : fresh.signals.process.Lawful := by
  show (0 : SigSet) &&& unblockable = 0
  decide

theorem catches_alarmable : (alarmable.signals.actions 14).Catches := by
  have hact : alarmable.signals.actions 14 = ⟨0x401200, saRestorer, 0x401500, 0⟩ := rfl
  rw [hact]
  exact ⟨by decide, by decide⟩

theorem handling_alarmable : Handling ucontext acceptAll 0x401500 fresh [] alarmable :=
  .install .start (c := installsOnAlarm) (Option.some_ne_none onAlarm) rfl rfl
    (fun _ he => absurd he List.not_mem_nil) lawful_fresh

end Sample

/-- A signal comes in, and the handler returns at once. -/
theorem handlers_return_alarm :
    ∃ t, Handling ucontext Sample.acceptAll 0x401500 Sample.fresh
        [(0x7000, Sample.alarmable.context)] t ∧ t.rip = 0x401200 ∧
      ReturnsTo ucontext 0x401500 t Sample.alarmable.context := by
  obtain ⟨hrestorer, -⟩ := handlers_return Sample.retains_acceptAll Sample.not_catches_fresh
    Sample.lawful_fresh Sample.handling_alarmable
  obtain ⟨t, ht⟩ := Option.ne_none_iff_exists'.1
    (hrestorer 14 0 0x7000 (fun _ => 0) Sample.catches_alarmable)
  have hdelivered := Sample.handling_alarmable.deliver Sample.catches_alarmable
    (fun _ he => absurd he List.not_mem_nil) ht
  obtain ⟨hrsp, hrip⟩ := deliver_entry ht
  obtain ⟨-, hreturns⟩ := handlers_return Sample.retains_acceptAll Sample.not_catches_fresh
    Sample.lawful_fresh hdelivered
  refine ⟨t, hdelivered, hrip, ?_⟩
  exact ((hreturns _ _ _ rfl hrsp).1 _).2 rfl

end Libmini
