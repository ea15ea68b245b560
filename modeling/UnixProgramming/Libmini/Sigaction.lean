import UnixProgramming.Libmini.SignalMask

/-!
# `sigaction`

The wrapper copies `*act` into a structure of its own and hands the kernel the
address of that structure, whether there was anything to copy or not.  What the
kernel accepts and what it keeps of an action is left open.

* `sysRtSigaction`, `sigaction` — the system call and its wrapper.
* `sysRtSigaction_accepted`, `sysRtSigaction_rejected` — one disposition is
  exchanged, or nothing happens.
* `sigaction_asked_iff` — the call does what it is asked to exactly when there
  is an action, or the kernel refuses, or the uninitialised structure says what
  the kernel has already.
-/

namespace Libmini

open ByteMemory

/-- `struct sigaction`. -/
structure SigAction where
  handler : Word
  flags : Word
  restorer : Word
  mask : SigSet
  deriving DecidableEq

/-- `SA_RESTORER`. -/
def saRestorer : Word := 0x04000000

/-- What the code does not decide: which calls the kernel accepts, the error of
the others, and what it keeps of an action. -/
structure SigKernel where
  accepts : BitVec 32 → Option SigAction → Bool
  error : BitVec 32 → Option SigAction → Int
  error_pos : ∀ signum act, 0 < error signum act
  keep : SigAction → SigAction

/-- A process and its table of dispositions. -/
structure Signals where
  process : Process
  actions : BitVec 32 → SigAction

/-- `rt_sigaction`: the result, the action it reports, and the state after. -/
def sysRtSigaction (K : SigKernel) (signum : BitVec 32) (act : Option SigAction) (s : Signals) :
    Int × Option SigAction × Signals :=
  if K.accepts signum act = false then (-K.error signum act, none, s)
  else
    match act with
    | none => (0, some (s.actions signum), s)
    | some a =>
        (0, some (s.actions signum),
          { s with actions := Function.update s.actions signum (K.keep a) })

/-- `kact`, `restorer` being the address of `sys_rt_sigreturn` and `garbage` what
the uninitialised structure holds. -/
def kact (restorer : Word) (act : Option SigAction) (garbage : SigAction) : SigAction :=
  match act with
  | some a => ⟨a.handler, a.flags ||| saRestorer, restorer, a.mask⟩
  | none => garbage

/-- `sigaction(signum, act, oldact)`: the value it returns, what `*oldact` holds
after, and the state.  A null pointer is `none`; `garbage` and `oldGarbage` are
what `kact` and `koldact` hold at first. -/
def sigaction (K : SigKernel) (restorer : Word) (signum : BitVec 32)
    (act oldact : Option SigAction) (garbage oldGarbage : SigAction) (s : Signals) :
    Int × Option SigAction × Signals :=
  let (ret, reported, s) := sysRtSigaction K signum (some (kact restorer act garbage)) s
  let koldact := reported.getD oldGarbage
  let oldact := if ret = 0 then oldact.map fun _ => koldact else oldact
  let (value, process) := wrapperRetval ret s.process
  (value, oldact, { s with process := process })

section Call

variable {K : SigKernel} {signum : BitVec 32} {a : SigAction} {s : Signals}

theorem sysRtSigaction_accepted (h : K.accepts signum (some a) = true) :
    sysRtSigaction K signum (some a) s =
      (0, some (s.actions signum),
        { s with actions := Function.update s.actions signum (K.keep a) }) := by
  rw [sysRtSigaction, if_neg (by simp [h])]

theorem sysRtSigaction_rejected (h : K.accepts signum (some a) = false) :
    sysRtSigaction K signum (some a) s = (-K.error signum (some a), none, s) := by
  rw [sysRtSigaction, if_pos h]

end Call

/-! ## What a call is asked to do -/

/-- What an accepted call is asked to do: put the action in place, if there is
one, leave the other signals alone, and report the action there was. -/
structure Accepted (K : SigKernel) (restorer : Word) (signum : BitVec 32)
    (act oldact : Option SigAction) (s : Signals) (r : Int × Option SigAction × Signals) : Prop where
  value : r.1 = 0
  own : r.2.2.actions signum =
    match act with
    | some a => K.keep ⟨a.handler, a.flags ||| saRestorer, restorer, a.mask⟩
    | none => s.actions signum
  others : ∀ sig, sig ≠ signum → r.2.2.actions sig = s.actions sig
  reported : r.2.1 = oldact.map fun _ => s.actions signum

/-- What a rejected call is asked to do: say so, and nothing else. -/
structure Rejected (oldact : Option SigAction) (s : Signals)
    (r : Int × Option SigAction × Signals) : Prop where
  value : r.1 = -1
  errno : 0 < r.2.2.process.errno
  actions : r.2.2.actions = s.actions
  reported : r.2.1 = oldact

variable (K : SigKernel) (restorer : Word) (signum : BitVec 32) (act oldact : Option SigAction)
  (garbage oldGarbage : SigAction) (s : Signals)

/-- A rejected call is always what it is to be. -/
theorem sigaction_rejected
    (h : K.accepts signum (some (kact restorer act garbage)) = false) :
    Rejected oldact s (sigaction K restorer signum act oldact garbage oldGarbage s) := by
  have hpos := K.error_pos signum (some (kact restorer act garbage))
  have hne : ¬ -K.error signum (some (kact restorer act garbage)) = 0 := by omega
  have hneg : -K.error signum (some (kact restorer act garbage)) < 0 := by omega
  unfold sigaction
  rw [sysRtSigaction_rejected h]
  simp only [wrapperRetval, if_neg hne, if_pos hneg]
  exact ⟨rfl, by simpa using hpos, rfl, rfl⟩

/-- An accepted call puts whatever `kact` holds in place. -/
theorem sigaction_accepted
    (h : K.accepts signum (some (kact restorer act garbage)) = true) :
    sigaction K restorer signum act oldact garbage oldGarbage s =
      (0, oldact.map fun _ => s.actions signum,
        { process := { s.process with errno := 0 }
          actions := Function.update s.actions signum (K.keep (kact restorer act garbage)) }) := by
  unfold sigaction
  rw [sysRtSigaction_accepted h]
  rfl

/-- `sigaction` does what it is asked to exactly when there is an action, or the
kernel rejects the call, or what the kernel keeps of the uninitialised structure
is the disposition there is. -/
theorem sigaction_asked_iff :
    (if K.accepts signum (some (kact restorer act garbage)) = true then
        Accepted K restorer signum act oldact s
          (sigaction K restorer signum act oldact garbage oldGarbage s)
      else Rejected oldact s (sigaction K restorer signum act oldact garbage oldGarbage s)) ↔
      act ≠ none ∨ K.accepts signum (some garbage) = false ∨ K.keep garbage = s.actions signum := by
  by_cases haccepts : K.accepts signum (some (kact restorer act garbage)) = true
  · rw [if_pos haccepts]
    have hown : Function.update s.actions signum (K.keep (kact restorer act garbage)) signum =
        K.keep (kact restorer act garbage) := Function.update_self _ _ _
    have hothers : ∀ sig, sig ≠ signum →
        Function.update s.actions signum (K.keep (kact restorer act garbage)) sig =
          s.actions sig := fun sig hsig => Function.update_of_ne hsig _ _
    rw [sigaction_accepted _ _ _ _ _ _ _ _ haccepts]
    cases act with
    | some a => exact iff_of_true ⟨rfl, hown, hothers, rfl⟩ (Or.inl (by simp))
    | none =>
        have hno : ¬ K.accepts signum (some garbage) = false := by
          rw [Bool.not_eq_false]
          exact haccepts
        constructor
        · intro h
          exact Or.inr (Or.inr (hown.symm.trans h.own))
        · rintro (hact | hrejects | hsame)
          · exact absurd rfl hact
          · exact absurd hrejects hno
          · exact ⟨rfl, hown.trans hsame, hothers, rfl⟩
  · rw [if_neg haccepts]
    rw [Bool.not_eq_true] at haccepts
    refine iff_of_true (sigaction_rejected _ _ _ _ _ _ _ _ haccepts) ?_
    cases act with
    | some a => exact Or.inl (by simp)
    | none => exact Or.inr (Or.inl haccepts)

namespace Sample

/-- A kernel that accepts every call. -/
def acceptAll : SigKernel := ⟨fun _ _ => true, fun _ _ => einval, fun _ _ => einval_pos, id⟩

/-- Every disposition is the default one. -/
def defaults : Signals := ⟨unblocked, fun _ => ⟨0, 0, 0, 0⟩⟩

end Sample

/-- `sigaction(SIGALRM, NULL, &old)` replaces the handler by whatever lies on the
stack. -/
theorem sigaction_query_changes :
    ¬ Accepted Sample.acceptAll 0 14 none (some ⟨0, 0, 0, 0⟩) Sample.defaults
      (sigaction Sample.acceptAll 0 14 none (some ⟨0, 0, 0, 0⟩) ⟨0xdead, 0, 0, 0⟩ ⟨0, 0, 0, 0⟩
        Sample.defaults) := by
  intro h
  have hown := h.own
  rw [sigaction_accepted _ _ _ _ _ _ _ _ rfl] at hown
  simp only [Function.update_self] at hown
  exact absurd (congrArg SigAction.handler hown) (by decide)

end Libmini
