import UnixProgramming.Libmini.Signal

/-!
# Handlers over a whole run

`signal` and `sigaction` are two ways to the same table of the kernel.  Through any sequence of
calls of both, with whatever uninitialised locals, that table is a map from signals to handlers
in which the last call that was admitted counts.

* `Installing`, `Installing.run`, `runAll` — the calls, one after another.
* `SigKernel.Admits` — what is relied on: the kernel decides by the signal, and it keeps the
  handler it is given.
* `latest` — the value last put under a key.
* `run_ok`, `run_fault` — one call.
* `runAll_handlers` — a run: every call reports the handler put in place last, and the calls
  that are refused change nothing.
-/

namespace Libmini

open ByteMemory

/-! ## What was put last -/

section Latest

variable {κ ν : Type} [DecidableEq κ]

/-- The value last put under `k`, or `d`. -/
def latest (k : κ) (d : ν) : List (κ × ν) → ν
  | [] => d
  | (k', v) :: puts => latest k (if k' = k then v else d) puts

/-- A table takes the puts one after another. -/
def putAll (t : κ → ν) (puts : List (κ × ν)) : κ → ν :=
  puts.foldl (fun t p => Function.update t p.1 p.2) t

theorem putAll_apply (t : κ → ν) (puts : List (κ × ν)) (k : κ) :
    putAll t puts k = latest k (t k) puts := by
  induction puts generalizing t with
  | nil => rfl
  | cons p puts ih =>
      obtain ⟨k', v⟩ := p
      have hnext := ih (Function.update t k' v)
      rw [latest]
      refine hnext.trans (congrArg (latest k · puts) ?_)
      rw [Function.update_apply]
      exact if_congr eq_comm rfl rfl

/-- It is the default, or it was put under that key. -/
theorem latest_mem (k : κ) (d : ν) (puts : List (κ × ν)) :
    latest k d puts = d ∨ (k, latest k d puts) ∈ puts := by
  induction puts generalizing d with
  | nil => exact Or.inl rfl
  | cons p puts ih =>
      obtain ⟨k', v⟩ := p
      rw [latest]
      rcases ih (if k' = k then v else d) with hd | hmem
      · rw [hd]
        by_cases hk : k' = k
        · rw [if_pos hk, hk]
          exact Or.inr List.mem_cons_self
        · exact Or.inl (if_neg hk)
      · exact Or.inr (List.mem_cons_of_mem _ hmem)

end Latest

/-! ## The calls -/

/-- A call of `signal` or of `sigaction`, with what its locals hold on entry. -/
inductive Installing where
  | signal (signum : BitVec 32) (handler : Word) (l : Locals)
  | sigaction (signum : BitVec 32) (act oldact : Option SigAction) (garbage oldGarbage : SigAction)

/-- What the caller has after a call: the value, what `*oldact` holds, and `errno`. -/
inductive Outcome where
  | signal (value : Word) (errno : Int)
  | sigaction (value : Int) (oldact : Option SigAction) (errno : Int)

/-- Make the call. -/
def Installing.run (K : SigKernel) (restorer : Word) :
    Installing → Signals → Except Fault (Outcome × Signals)
  | .signal signum handler l, s => do
      let (value, s) ← Libmini.signal K restorer signum handler l s
      return (.signal value s.process.errno, s)
  | .sigaction signum act oldact garbage oldGarbage, s =>
      let (value, oldact, s) :=
        Libmini.sigaction K restorer signum act oldact garbage oldGarbage s
      return (.sigaction value oldact s.process.errno, s)

/-- Make the calls one after another. -/
def runAll (K : SigKernel) (restorer : Word) :
    List Installing → Signals → Except Fault (List Outcome × Signals)
  | [], s => return ([], s)
  | c :: rest, s => do
      let (o, s) ← c.run K restorer s
      let (os, s) ← runAll K restorer rest s
      return (o :: os, s)

/-! ## The map they keep -/

/-- The kernel lets the actions of these signals be changed, and keeps the handlers. -/
structure SigKernel.Admits (K : SigKernel) (admits : BitVec 32 → Bool) : Prop where
  accepts : ∀ signum a, K.accepts signum (some a) = admits signum
  keep : ∀ a, (K.keep a).handler = a.handler

/-- The handlers in place. -/
def Signals.handlers (s : Signals) : BitVec 32 → Word := fun signum => (s.actions signum).handler

/-- `signal` refuses this itself. -/
def BadSignal (signum : BitVec 32) (handler : Word) : Prop :=
  handler = sigErr ∨ signum.toInt < 1 ∨ signum.toInt ≥ 32

instance (signum : BitVec 32) (handler : Word) : Decidable (BadSignal signum handler) :=
  inferInstanceAs (Decidable (_ ∨ _ ∨ _))

namespace Installing

/-- What the call puts in place, if it is admitted.  Without an action `sigaction` puts what
its own structure held. -/
def put? (admits : BitVec 32 → Bool) : Installing → Option (BitVec 32 × Word)
  | signal signum handler _ =>
      if ¬ BadSignal signum handler ∧ admits signum = true then some (signum, handler) else none
  | sigaction signum act _ garbage _ =>
      if admits signum = true then some (signum, (act.getD garbage).handler) else none

/-- The call does not go astray in `memset`. -/
def Steady : Installing → Prop
  | signal signum handler l => BadSignal signum handler ∨ 0 ≤ l.i.toInt
  | sigaction _ _ _ _ _ => True

/-- What is reported where these handlers are in place: an admitted call reports its own, a
refused one that it was. -/
def Reports (admits : BitVec 32 → Bool) (t : BitVec 32 → Word) : Installing → Outcome → Prop
  | c@(signal signum _ _), .signal value errno =>
      match c.put? admits with
      | some _ => value = t signum ∧ errno = 0
      | none => value = sigErr ∧ 0 < errno
  | c@(sigaction signum _ oldact _ _), .sigaction value reported errno =>
      match c.put? admits with
      | some _ => value = 0 ∧ errno = 0 ∧ reported.map SigAction.handler = oldact.map fun _ => t signum
      | none => value = -1 ∧ 0 < errno ∧ reported = oldact
  | _, _ => False

end Installing

/-! ## One call -/

section Call

variable {K : SigKernel} {admits : BitVec 32 → Bool} (hK : K.Admits admits) (restorer : Word)
  (s : Signals)
include hK

theorem handlers_update (signum : BitVec 32) (a : SigAction) (p : Process) :
    Signals.handlers ⟨p, Function.update s.actions signum (K.keep a)⟩ =
      Function.update s.handlers signum a.handler := by
  funext sig
  have hsig : Signals.handlers ⟨p, Function.update s.actions signum (K.keep a)⟩ sig =
      (Function.update s.actions signum (K.keep a) sig).handler := rfl
  rw [hsig, Function.update_apply, Function.update_apply]
  split
  · exact hK.keep a
  · rfl

/-- `sigaction` with whatever it hands the kernel. -/
theorem run_sigaction (signum : BitVec 32) (act oldact : Option SigAction)
    (garbage oldGarbage : SigAction) :
    ∃ o s', (Installing.sigaction signum act oldact garbage oldGarbage).run K restorer s =
        .ok (o, s') ∧
      (Installing.sigaction signum act oldact garbage oldGarbage).Reports admits s.handlers o ∧
      s'.handlers = putAll s.handlers
        ((Installing.sigaction signum act oldact garbage oldGarbage).put? admits).toList := by
  by_cases hadmits : admits signum = true
  · have hcall := sigaction_accepted K restorer signum act oldact garbage oldGarbage s
      ((hK.accepts signum _).trans hadmits)
    have hhandler : (kact restorer act garbage).handler = (act.getD garbage).handler := by
      cases act <;> rfl
    refine ⟨.sigaction 0 (oldact.map fun _ => s.actions signum) 0, _, ?_, ?_,
      handlers_update hK s signum (kact restorer act garbage) { s.process with errno := 0 } |>.trans
        ?_⟩
    · rw [Installing.run, hcall]
      rfl
    · simp only [Installing.Reports, Installing.put?, if_pos hadmits, true_and, Option.map_map]
      rfl
    · simp only [Installing.put?, if_pos hadmits, hhandler]
      rfl
  · have hcall := sigaction_rejected K restorer signum act oldact garbage oldGarbage s
      ((hK.accepts signum _).trans (Bool.eq_false_of_not_eq_true hadmits))
    obtain ⟨value, reported, s', hs'⟩ : ∃ value reported s',
        sigaction K restorer signum act oldact garbage oldGarbage s = (value, reported, s') :=
      ⟨_, _, _, rfl⟩
    rw [hs'] at hcall
    refine ⟨.sigaction value reported s'.process.errno, s', ?_, ?_, ?_⟩
    · rw [Installing.run, hs']
      rfl
    · simp only [Installing.Reports, Installing.put?, if_neg hadmits]
      exact ⟨hcall.value, hcall.errno, hcall.reported⟩
    · simp only [Installing.put?, if_neg hadmits]
      funext sig
      exact congrArg (fun t => SigAction.handler (t sig)) hcall.actions

omit hK in
/-- A signal that is not refused at once goes to `sigaction` with its handler. -/
theorem signal_calls {signum : BitVec 32} {handler : Word} {l : Locals}
    (hgood : ¬ BadSignal signum handler) (hi : 0 ≤ l.i.toInt) :
    ∃ a p, a.handler = handler ∧ signal K restorer signum handler l s =
      .ok (signalCall K restorer signum a l { s with process := p }) := by
  have hrange : 1 ≤ signum.toInt ∧ signum.toInt ≤ 31 := by
    simp only [BadSignal, not_or] at hgood
    omega
  have hact := @signalAct_of_nonneg signum handler l s.process hrange.1 hrange.2 hi
  refine ⟨l.act.read (filled signum handler l s.process).cpu.mem,
    filled signum handler l s.process, readWord_actMem_handler signum handler l.act _ _, ?_⟩
  refine (if_neg hgood).trans ?_
  rw [hact]
  rfl

/-- `signal`, where the loop of `memset` does not begin in front of the set. -/
theorem run_signal (signum : BitVec 32) (handler : Word) (l : Locals)
    (h : (Installing.signal signum handler l).Steady) :
    ∃ o s', (Installing.signal signum handler l).run K restorer s = .ok (o, s') ∧
      (Installing.signal signum handler l).Reports admits s.handlers o ∧
      s'.handlers = putAll s.handlers
        ((Installing.signal signum handler l).put? admits).toList := by
  by_cases hbad : BadSignal signum handler
  · have hguard : ¬ (¬ BadSignal signum handler ∧ admits signum = true) := fun hno => hno.1 hbad
    refine ⟨.signal sigErr einval, { s with process := { s.process with errno := einval } },
      ?_, ?_, ?_⟩
    · have hrefuses : signal K restorer signum handler l s =
          .ok (sigErr, { s with process := { s.process with errno := einval } }) := if_pos hbad
      rw [Installing.run, hrefuses]
      rfl
    · simp only [Installing.Reports, Installing.put?, if_neg hguard]
      exact ⟨trivial, einval_pos⟩
    · simp only [Installing.put?, if_neg hguard]
      rfl
  · have hi : 0 ≤ l.i.toInt := h.resolve_left hbad
    obtain ⟨a, p, ha, hcalls⟩ := @signal_calls K restorer s signum handler l hbad hi
    by_cases hadmits : admits signum = true
    · have hcall := sigaction_accepted K restorer signum (some a) (some l.oact) l.kact l.koldact
        { s with process := p } ((hK.accepts signum _).trans hadmits)
      refine ⟨.signal (s.handlers signum) 0, _, ?_, ?_,
        handlers_update hK s signum (kact restorer (some a) l.kact) { p with errno := 0 } |>.trans
          ?_⟩
      · rw [Installing.run, hcalls, signalCall, hcall]
        rfl
      · simp only [Installing.Reports, Installing.put?, if_pos (And.intro hbad hadmits), true_and]
      · simp only [Installing.put?, if_pos (And.intro hbad hadmits)]
        rw [← ha]
        rfl
    · have hguard : ¬ (¬ BadSignal signum handler ∧ admits signum = true) :=
        fun hboth => hadmits hboth.2
      have hcall := sigaction_rejected K restorer signum (some a) (some l.oact) l.kact l.koldact
        { s with process := p } ((hK.accepts signum _).trans (Bool.eq_false_of_not_eq_true hadmits))
      obtain ⟨value, reported, s', hs'⟩ : ∃ value reported s',
          sigaction K restorer signum (some a) (some l.oact) l.kact l.koldact
            { s with process := p } = (value, reported, s') := ⟨_, _, _, rfl⟩
      rw [hs'] at hcall
      have hvalue : value = -1 := hcall.value
      refine ⟨.signal sigErr s'.process.errno, s', ?_, ?_, ?_⟩
      · rw [Installing.run, hcalls, signalCall, hs', hvalue]
        rfl
      · simp only [Installing.Reports, Installing.put?, if_neg hguard]
        exact ⟨trivial, hcall.errno⟩
      · simp only [Installing.put?, if_neg hguard]
        funext sig
        exact congrArg (fun t => SigAction.handler (t sig)) hcall.actions

/-- **One call.** -/
theorem run_ok (c : Installing) (h : c.Steady) :
    ∃ o s', c.run K restorer s = .ok (o, s') ∧ c.Reports admits s.handlers o ∧
      s'.handlers = putAll s.handlers (c.put? admits).toList := by
  cases c with
  | signal signum handler l => exact run_signal hK restorer s signum handler l h
  | sigaction signum act oldact garbage oldGarbage =>
      exact run_sigaction hK restorer s signum act oldact garbage oldGarbage

omit hK in
/-- Only `memset` can stop a call. -/
theorem run_fault {c : Installing} (h : ¬ c.Steady) : c.run K restorer s = .error .underrun := by
  cases c with
  | signal signum handler l =>
      obtain ⟨hgood, hi⟩ := not_or.1 h
      have hstops : signal K restorer signum handler l s = .error .underrun := by
        refine (if_neg hgood).trans ?_
        rw [signalAct_of_neg hi]
        rfl
      rw [Installing.run, hstops]
      rfl
  | sigaction signum act oldact garbage oldGarbage => exact absurd trivial h

/-! ## A run -/

/-- The calls that are steady, from the handlers in place. -/
theorem runAll_ok {cs : List Installing} (h : ∀ c ∈ cs, c.Steady) :
    ∃ os s', runAll K restorer cs s = .ok (os, s') ∧
      s'.handlers = putAll s.handlers (cs.filterMap fun c => c.put? admits) ∧
      ∀ before c after, cs = before ++ c :: after → ∃ o, os[before.length]? = some o ∧
        c.Reports admits (putAll s.handlers (before.filterMap fun c => c.put? admits)) o := by
  induction cs generalizing s with
  | nil =>
      refine ⟨[], s, rfl, rfl, ?_⟩
      intro before c after heq
      exact absurd heq.symm (by simp)
  | cons c rest ih =>
      obtain ⟨hc, hrest⟩ := List.forall_mem_cons.1 h
      obtain ⟨o, s₁, hrun, hreports, hhandlers⟩ := run_ok hK restorer s c hc
      obtain ⟨os, s', hruns, hend, hall⟩ := ih s₁ hrest
      have hputs : ∀ cs : List Installing, putAll s₁.handlers (cs.filterMap fun c => c.put? admits) =
          putAll s.handlers ((c :: cs).filterMap fun c => c.put? admits) := by
        intro cs
        rw [hhandlers, List.filterMap_cons]
        cases c.put? admits <;> rfl
      refine ⟨o :: os, s', ?_, hend.trans (hputs rest), ?_⟩
      · rw [runAll, hrun]
        simp only [bind, Except.bind, hruns]
        rfl
      · intro before d after heq
        cases before with
        | nil =>
            cases heq
            exact ⟨o, rfl, hreports⟩
        | cons b before =>
            obtain ⟨rfl, hrest'⟩ := List.cons.inj heq
            obtain ⟨o', hat, hreports'⟩ := hall before d after hrest'
            rw [hputs] at hreports'
            exact ⟨o', hat, hreports'⟩

omit hK in
theorem runAll_fault {cs : List Installing} (hK : K.Admits admits) (h : ∃ c ∈ cs, ¬ c.Steady) :
    runAll K restorer cs s = .error .underrun := by
  induction cs generalizing s with
  | nil =>
      obtain ⟨c, hmem, -⟩ := h
      cases hmem
  | cons c rest ih =>
      by_cases hc : c.Steady
      · obtain ⟨o, s₁, hrun, -⟩ := run_ok hK restorer s c hc
        have hrest : ∃ d ∈ rest, ¬ d.Steady := by
          obtain ⟨d, hmem, hd⟩ := h
          rcases List.mem_cons.1 hmem with rfl | hmem
          · exact absurd hc hd
          · exact ⟨d, hmem, hd⟩
        rw [runAll, hrun]
        simp only [bind, Except.bind, ih s₁ hrest]
      · rw [runAll, run_fault restorer s hc]
        rfl

/-- **The handlers over a run.**  No call stores in front of a set, where a run stops, exactly
when `memset` never begins there.  Then each admitted call reports the handler that the last
admitted call on its signal put in place, or the one there was at first; each refused call says
so; and the handlers at the end are those put last. -/
theorem runAll_handlers (cs : List Installing) :
    ((∃ r, runAll K restorer cs s = .ok r) ↔ ∀ c ∈ cs, c.Steady) ∧
    ∀ os s', runAll K restorer cs s = .ok (os, s') →
      (∀ sig, s'.handlers sig =
        latest sig (s.handlers sig) (cs.filterMap fun c => c.put? admits)) ∧
      ∀ before c after, cs = before ++ c :: after → ∃ o, os[before.length]? = some o ∧
        c.Reports admits (fun sig =>
          latest sig (s.handlers sig) (before.filterMap fun c => c.put? admits)) o := by
  have hlatest : ∀ puts : List (BitVec 32 × Word),
      putAll s.handlers puts = fun sig => latest sig (s.handlers sig) puts :=
    fun puts => funext fun sig => putAll_apply s.handlers puts sig
  have hsteady : ∀ r, runAll K restorer cs s = .ok r → ∀ c ∈ cs, c.Steady := by
    intro r hr c hc
    by_contra hno
    rw [runAll_fault restorer s hK ⟨c, hc, hno⟩] at hr
    cases hr
  refine ⟨⟨fun ⟨r, hr⟩ => hsteady r hr, fun h => ?_⟩, fun os s' hr => ?_⟩
  · obtain ⟨os, s', hr, -⟩ := runAll_ok hK restorer s h
    exact ⟨_, hr⟩
  · obtain ⟨os', s'', hr', hend, hall⟩ := runAll_ok hK restorer s (hsteady _ hr)
    rw [hr] at hr'
    cases hr'
    simp only [hlatest] at hend hall
    exact ⟨fun sig => congrFun hend sig, hall⟩

/-! ## `SIG_ERR` -/

/-- The call does not hand `SIG_ERR` to the kernel as a handler: it is not in the action or,
where there is none, not in what the structure of `sigaction` happens to hold.  `signal` never
does. -/
def Installing.Sane : Installing → Prop
  | .signal _ _ _ => True
  | .sigaction _ act _ garbage _ => (act.getD garbage).handler ≠ sigErr

omit hK in
theorem put_ne_sigErr {c : Installing} (h : c.Sane) {p : BitVec 32 × Word}
    (hp : c.put? admits = some p) : p.2 ≠ sigErr := by
  cases c with
  | signal signum handler l =>
      rw [Installing.put?] at hp
      split at hp
      · next hgood =>
          cases hp
          exact fun heq => hgood.1 (Or.inl heq)
      · cases hp
  | sigaction signum act oldact garbage oldGarbage =>
      rw [Installing.put?] at hp
      split at hp
      · cases hp
        exact h
      · cases hp

omit hK in
/-- `SIG_ERR` never gets into the table. -/
theorem handlers_ne_sigErr (hfirst : ∀ sig, s.handlers sig ≠ sigErr) {cs : List Installing}
    (hsane : ∀ c ∈ cs, c.Sane) (sig : BitVec 32) :
    putAll s.handlers (cs.filterMap fun c => c.put? admits) sig ≠ sigErr := by
  rw [putAll_apply]
  rcases latest_mem sig (s.handlers sig) (cs.filterMap fun c => c.put? admits) with heq | hmem
  · rw [heq]
    exact hfirst sig
  · obtain ⟨c, hc, hput⟩ := List.mem_filterMap.1 hmem
    exact put_ne_sigErr (hsane c hc) hput

/-- **`SIG_ERR` means that a call was refused**, at every call of `signal` in a run: it is no
handler at first, and the kernel is never handed it as one. -/
theorem runAll_sigErr (hfirst : ∀ sig, s.handlers sig ≠ sigErr) {cs : List Installing}
    (hsteady : ∀ c ∈ cs, c.Steady) (hsane : ∀ c ∈ cs, c.Sane) :
    ∃ os s', runAll K restorer cs s = .ok (os, s') ∧
      ∀ before signum handler l after, cs = before ++ .signal signum handler l :: after →
        ∃ value errno, os[before.length]? = some (.signal value errno) ∧
          (value = sigErr ↔ BadSignal signum handler ∨ admits signum = false) := by
  obtain ⟨os, s', hruns, -, hall⟩ := runAll_ok hK restorer s hsteady
  refine ⟨os, s', hruns, ?_⟩
  intro before signum handler l after heq
  obtain ⟨o, hat, hreports⟩ := hall before _ after heq
  have hbefore : ∀ c ∈ before, c.Sane :=
    fun c hc => hsane c (heq ▸ List.mem_append_left _ hc)
  cases o with
  | sigaction value reported errno => exact hreports.elim
  | signal value errno =>
      refine ⟨value, errno, hat, ?_⟩
      rw [Installing.Reports, Installing.put?] at hreports
      by_cases hgood : ¬ BadSignal signum handler ∧ admits signum = true
      · rw [if_pos hgood] at hreports
        refine iff_of_false ?_ ?_
        · rw [hreports.1]
          exact handlers_ne_sigErr s hfirst hbefore signum
        · rintro (hbad | hno)
          · exact hgood.1 hbad
          · rw [hgood.2] at hno
            cases hno
      · rw [if_neg hgood] at hreports
        refine iff_of_true hreports.1 ?_
        by_contra hcon
        rw [not_or, Bool.not_eq_false] at hcon
        exact hgood hcon

end Call

namespace Sample

theorem admits_acceptAll : acceptAll.Admits fun _ => true := ⟨fun _ _ => rfl, fun _ => rfl⟩

/-- `SIGALRM` gets a handler from each function, and then the default one. -/
def installs : List Installing :=
  [.signal 14 0x401000 (locals 0),
    .sigaction 14 (some ⟨0x402000, 0, 0, 0⟩) none ⟨0, 0, 0, 0⟩ ⟨0, 0, 0, 0⟩,
    .signal 14 0 (locals 8)]

theorem steady_installs : ∀ c ∈ installs, c.Steady := by
  intro c hc
  simp only [installs, List.mem_cons, List.not_mem_nil, or_false] at hc
  rcases hc with rfl | rfl | rfl
  · exact Or.inr (by decide)
  · trivial
  · exact Or.inr (by decide)

end Sample

/-- The last call reports the handler that `sigaction` put in place. -/
theorem runAll_handlers_alarm :
    ∃ os s', runAll Sample.acceptAll 0 Sample.installs Sample.defaults = .ok (os, s') ∧
      s'.handlers 14 = 0 ∧ os[2]? = some (.signal 0x402000 0) := by
  have hall := runAll_handlers Sample.admits_acceptAll 0 Sample.defaults Sample.installs
  obtain ⟨⟨os, s'⟩, hr⟩ := hall.1.2 Sample.steady_installs
  obtain ⟨hend, hreports⟩ := hall.2 os s' hr
  obtain ⟨o, hat, ho⟩ := hreports (Sample.installs.take 2) _ [] rfl
  refine ⟨os, s', hr, (hend 14).trans (by decide), ?_⟩
  cases o with
  | sigaction value reported errno => exact ho.elim
  | signal value errno =>
      obtain ⟨hvalue, herrno⟩ := ho
      rw [herrno, hvalue] at hat
      exact hat

/-- No call of the three was refused. -/
theorem runAll_sigErr_alarm :
    ∃ os s', runAll Sample.acceptAll 0 Sample.installs Sample.defaults = .ok (os, s') ∧
      ∃ value errno, os[2]? = some (.signal value errno) ∧ value ≠ sigErr := by
  obtain ⟨os, s', hr, hall⟩ := runAll_sigErr Sample.admits_acceptAll 0 Sample.defaults
    (fun _ => show (0 : Word) ≠ sigErr by decide) Sample.steady_installs (by
      intro c hc
      simp only [Sample.installs, List.mem_cons, List.not_mem_nil, or_false] at hc
      rcases hc with rfl | rfl | rfl
      · trivial
      · exact show (0x402000 : Word) ≠ sigErr by decide
      · trivial)
  obtain ⟨value, errno, hat, hiff⟩ := hall (Sample.installs.take 2) 14 0 (Sample.locals 8) [] rfl
  refine ⟨os, s', hr, value, errno, hat, fun heq => ?_⟩
  rcases hiff.1 heq with hbad | hno
  · exact absurd hbad (by decide)
  · cases hno

end Libmini
