import Mathlib

/-!
# Programs that make requests

A program that talks to its environment is a tree: it stops with a value, stops
with a fault (a failed assertion, an access outside an object), or makes a
request and goes on with the answer.  The program text decides which requests
are made; what they answer, and what they do to the world, is a `Kernel`.

* `Runs` — the runs of a program under a kernel; a request without an answer
  (a wait that never returns) ends no run.
* `Ensures` — every run that ends does so in a given set of results, with the
  rules `ensures_bind`, `Ensures.mono` and `ensures_iff_runs`.
* `Within` — which requests and faults there are and what holds of the value at
  the end, whatever the answers; `Within.ensures` turns it into a statement about runs.
* `Within.exists_run` — a kernel that answers the requests lets the program end.
* `failing` — a kernel under a pattern of failures, and `Runs.of_failing`.
-/

namespace Requests

/-- A program over requests `R`, request `r` being answered by an `Ans r`, that
can stop with a fault `E` or a value `α`. -/
inductive Prog (R : Type) (Ans : R → Type) (E : Type) (α : Type) : Type where
  /-- The program has ended with a value. -/
  | done (a : α)
  /-- The program has been stopped by a fault. -/
  | fault (e : E)
  /-- The program waits for the answer to a request. -/
  | request (r : R) (k : Ans r → Prog R Ans E α)

/-- How a run ends. -/
inductive Result (E α : Type) where
  | done (a : α)
  | fault (e : E)
  deriving DecidableEq

/-- What answers a request can get in a world, and the world each leaves. -/
abbrev Kernel (R : Type) (Ans : R → Type) (W : Type) := W → (r : R) → Ans r → W → Prop

variable {R : Type} {Ans : R → Type} {E W α β : Type}

namespace Prog

/-- Run `p`, then the program `f` makes of its value. -/
def bind : Prog R Ans E α → (α → Prog R Ans E β) → Prog R Ans E β
  | .done a, f => f a
  | .fault e, _ => .fault e
  | .request r k, f => .request r fun x => bind (k x) f

instance : Monad (Prog R Ans E) where
  pure := .done
  bind := bind

/-- Make one request. -/
def ask (r : R) : Prog R Ans E (Ans r) := .request r .done

@[simp] theorem pure_eq (a : α) : (pure a : Prog R Ans E α) = .done a := rfl

@[simp] theorem done_bind (a : α) (f : α → Prog R Ans E β) : (Prog.done a >>= f) = f a := rfl

@[simp] theorem request_bind (r : R) (k : Ans r → Prog R Ans E α) (f : α → Prog R Ans E β) :
    (Prog.request r k >>= f) = .request r fun x => k x >>= f := rfl

@[simp] theorem ask_bind (r : R) (f : Ans r → Prog R Ans E β) :
    (ask r >>= f) = .request r f := rfl

theorem bind_assoc {γ : Type} (p : Prog R Ans E α) (f : α → Prog R Ans E β)
    (g : β → Prog R Ans E γ) : p >>= f >>= g = p >>= fun a => f a >>= g := by
  induction p with
  | done a => rfl
  | fault e => rfl
  | request r k ih => exact congrArg (Prog.request r) (funext ih)

end Prog

/-! ## Runs -/

/-- `Runs K p w o w'`: under the kernel `K`, the program `p` started in the
world `w` can end as `o` in the world `w'`. -/
def Runs (K : Kernel R Ans W) : Prog R Ans E α → W → Result E α → W → Prop
  | .done a, w, o, w' => o = .done a ∧ w' = w
  | .fault e, w, o, w' => o = .fault e ∧ w' = w
  | .request r k, w, o, w' => ∃ x w₁, K w r x w₁ ∧ Runs K (k x) w₁ o w'

variable {K : Kernel R Ans W}

@[simp] theorem runs_done {a : α} {w w' : W} {o : Result E α} :
    Runs K (.done a) w o w' ↔ o = .done a ∧ w' = w := Iff.rfl

@[simp] theorem runs_fault {e : E} {w w' : W} {o : Result E α} :
    Runs K (.fault e) w o w' ↔ o = .fault e ∧ w' = w := Iff.rfl

@[simp] theorem runs_request {r : R} {k : Ans r → Prog R Ans E α} {w w' : W} {o : Result E α} :
    Runs K (.request r k) w o w' ↔ ∃ x w₁, K w r x w₁ ∧ Runs K (k x) w₁ o w' := Iff.rfl

/-- A run of a sequence is a run of its first part, and then of the rest. -/
theorem runs_bind {p : Prog R Ans E α} {f : α → Prog R Ans E β} {w w' : W} {o : Result E β} :
    Runs K (p >>= f) w o w' ↔
      (∃ a w₁, Runs K p w (.done a) w₁ ∧ Runs K (f a) w₁ o w') ∨
        ∃ e, Runs K p w (.fault e) w' ∧ o = .fault e := by
  induction p generalizing w with
  | done a =>
      constructor
      · intro h
        exact Or.inl ⟨a, w, ⟨rfl, rfl⟩, h⟩
      · rintro (⟨b, w₁, ⟨hb, rfl⟩, h⟩ | ⟨e, ⟨he, -⟩, -⟩)
        · cases hb
          exact h
        · cases he
  | fault e =>
      constructor
      · rintro ⟨rfl, rfl⟩
        exact Or.inr ⟨e, ⟨rfl, rfl⟩, rfl⟩
      · rintro (⟨b, w₁, ⟨hb, -⟩, -⟩ | ⟨e', ⟨he, rfl⟩, rfl⟩)
        · cases hb
        · cases he
          exact ⟨rfl, rfl⟩
  | request r k ih =>
      rw [Prog.request_bind, runs_request]
      constructor
      · rintro ⟨x, w₁, hK, h⟩
        rcases (ih x).1 h with ⟨a, w₂, hp, hf⟩ | ⟨e, hp, ho⟩
        · exact Or.inl ⟨a, w₂, ⟨x, w₁, hK, hp⟩, hf⟩
        · exact Or.inr ⟨e, ⟨x, w₁, hK, hp⟩, ho⟩
      · rintro (⟨a, w₂, ⟨x, w₁, hK, hp⟩, hf⟩ | ⟨e, ⟨x, w₁, hK, hp⟩, ho⟩)
        · exact ⟨x, w₁, hK, (ih x).2 (Or.inl ⟨a, w₂, hp, hf⟩)⟩
        · exact ⟨x, w₁, hK, (ih x).2 (Or.inr ⟨e, hp, ho⟩)⟩

/-- A sequence that ends with a value has run its first part to its end. -/
theorem runs_bind_done {p : Prog R Ans E α} {f : α → Prog R Ans E β} {w w' : W} {b : β} :
    Runs K (p >>= f) w (.done b) w' ↔
      ∃ a w₁, Runs K p w (.done a) w₁ ∧ Runs K (f a) w₁ (.done b) w' := by
  rw [runs_bind]
  refine or_iff_left ?_
  rintro ⟨e, -, heq⟩
  cases heq

/-- After a part that can only end in one way. -/
theorem runs_bind_of_done {p : Prog R Ans E α} {f : α → Prog R Ans E β} {a : α} {w w₁ w' : W}
    {o : Result E β} (h : ∀ o w', Runs K p w o w' ↔ o = .done a ∧ w' = w₁) :
    Runs K (p >>= f) w o w' ↔ Runs K (f a) w₁ o w' := by
  simp only [runs_bind, h]
  constructor
  · rintro (⟨b, w₂, ⟨heq, rfl⟩, hr⟩ | ⟨e, ⟨heq, -⟩, -⟩)
    · cases heq
      exact hr
    · cases heq
  · intro hr
    exact Or.inl ⟨a, w₁, ⟨rfl, rfl⟩, hr⟩

/-! ## What every run ensures -/

/-- Every run of the program that ends with a value ends in `Q`, and every run
that ends with a fault ends in `F`. -/
def Ensures (K : Kernel R Ans W) (F : E → W → Prop) (Q : α → W → Prop) :
    Prog R Ans E α → W → Prop
  | .done a, w => Q a w
  | .fault e, w => F e w
  | .request r k, w => ∀ x w₁, K w r x w₁ → Ensures K F Q (k x) w₁

variable {F F' : E → W → Prop} {Q Q' : α → W → Prop}

@[simp] theorem ensures_done {a : α} {w : W} : Ensures K F Q (.done a) w ↔ Q a w := Iff.rfl

@[simp] theorem ensures_fault {e : E} {w : W} : Ensures K F Q (.fault e) w ↔ F e w := Iff.rfl

@[simp] theorem ensures_request {r : R} {k : Ans r → Prog R Ans E α} {w : W} :
    Ensures K F Q (.request r k) w ↔ ∀ x w₁, K w r x w₁ → Ensures K F Q (k x) w₁ := Iff.rfl

theorem ensures_ite {c : Prop} [Decidable c] {p q : Prog R Ans E α} {w : W} :
    Ensures K F Q (if c then p else q) w ↔
      (c → Ensures K F Q p w) ∧ (¬ c → Ensures K F Q q w) := by
  by_cases h : c
  · simp [h]
  · simp [h]

theorem ensures_ask_bind {r : R} {f : Ans r → Prog R Ans E α} {w : W} :
    Ensures K F Q (Prog.ask r >>= f) w ↔ ∀ x w₁, K w r x w₁ → Ensures K F Q (f x) w₁ := Iff.rfl

/-- `Ensures` is a statement about the runs of the program. -/
theorem ensures_iff_runs {p : Prog R Ans E α} {w : W} :
    Ensures K F Q p w ↔
      (∀ a w', Runs K p w (.done a) w' → Q a w') ∧ ∀ e w', Runs K p w (.fault e) w' → F e w' := by
  induction p generalizing w with
  | done a =>
      constructor
      · intro h
        refine ⟨?_, ?_⟩
        · rintro b w' ⟨hb, rfl⟩
          cases hb
          exact h
        · rintro e w' ⟨he, -⟩
          cases he
      · intro h
        exact h.1 a w ⟨rfl, rfl⟩
  | fault e =>
      constructor
      · intro h
        refine ⟨?_, ?_⟩
        · rintro b w' ⟨hb, -⟩
          cases hb
        · rintro e' w' ⟨he, rfl⟩
          cases he
          exact h
      · intro h
        exact h.2 e w ⟨rfl, rfl⟩
  | request r k ih =>
      constructor
      · intro h
        refine ⟨?_, ?_⟩
        · rintro a w' ⟨x, w₁, hK, hr⟩
          exact ((ih x).1 (h x w₁ hK)).1 a w' hr
        · rintro e w' ⟨x, w₁, hK, hr⟩
          exact ((ih x).1 (h x w₁ hK)).2 e w' hr
      · intro h x w₁ hK
        exact (ih x).2 ⟨fun a w' hr => h.1 a w' ⟨x, w₁, hK, hr⟩,
          fun e w' hr => h.2 e w' ⟨x, w₁, hK, hr⟩⟩

/-- Programs with the same runs ensure the same. -/
theorem ensures_congr {p q : Prog R Ans E α} {w w₁ : W}
    (h : ∀ o w', Runs K p w o w' ↔ Runs K q w₁ o w') :
    Ensures K F Q p w ↔ Ensures K F Q q w₁ := by
  simp only [ensures_iff_runs, h]

theorem Ensures.runs {p : Prog R Ans E α} {w w' : W} {a : α} (h : Ensures K F Q p w)
    (hr : Runs K p w (.done a) w') : Q a w' :=
  (ensures_iff_runs.1 h).1 a w' hr

theorem Ensures.mono {p : Prog R Ans E α} {w : W} (h : Ensures K F Q p w)
    (hF : ∀ e w', F e w' → F' e w') (hQ : ∀ a w', Q a w' → Q' a w') : Ensures K F' Q' p w := by
  rw [ensures_iff_runs] at h ⊢
  exact ⟨fun a w' hr => hQ a w' (h.1 a w' hr), fun e w' hr => hF e w' (h.2 e w' hr)⟩

theorem Ensures.imp {p : Prog R Ans E α} {w : W} (h : Ensures K F Q p w)
    (hQ : ∀ a w', Q a w' → Q' a w') : Ensures K F Q' p w :=
  h.mono (fun _ _ h => h) hQ

/-- The rule of sequencing: what the rest needs is what the first part ensures. -/
theorem ensures_bind {p : Prog R Ans E α} {f : α → Prog R Ans E β} {w : W} {Q : β → W → Prop} :
    Ensures K F Q (p >>= f) w ↔ Ensures K F (fun a w₁ => Ensures K F Q (f a) w₁) p w := by
  induction p generalizing w with
  | done a => exact Iff.rfl
  | fault e => exact Iff.rfl
  | request r k ih =>
      constructor
      · intro h x w₁ hK
        exact (ih x).1 (h x w₁ hK)
      · intro h x w₁ hK
        exact (ih x).2 (h x w₁ hK)

theorem Ensures.bind {p : Prog R Ans E α} {f : α → Prog R Ans E β} {w : W} {P : α → W → Prop}
    {Q : β → W → Prop} (hp : Ensures K F P p w)
    (hf : ∀ a w₁, P a w₁ → Ensures K F Q (f a) w₁) : Ensures K F Q (p >>= f) w :=
  ensures_bind.2 (hp.imp hf)

/-! ## Whatever the answers -/

/-- Whatever it is answered, the program makes requests of `A` only, stops with
faults of `B` only, and every value it can end with satisfies `P`. -/
def Within (A : R → Prop) (B : E → Prop) (P : α → Prop) : Prog R Ans E α → Prop
  | .done a => P a
  | .fault e => B e
  | .request r k => A r ∧ ∀ x, Within A B P (k x)

section Within

variable {A : R → Prop} {B : E → Prop}

theorem Within.ask {P : β → Prop} {r : R} {f : Ans r → Prog R Ans E β} (hr : A r)
    (h : ∀ x, Within A B P (f x)) : Within A B P (Prog.ask r >>= f) := ⟨hr, h⟩

theorem Within.mono {A' : R → Prop} {B' : E → Prop} {P P' : α → Prop} {p : Prog R Ans E α}
    (h : Within A B P p) (hA : ∀ r, A r → A' r) (hB : ∀ e, B e → B' e) (hP : ∀ a, P a → P' a) :
    Within A' B' P' p := by
  induction p with
  | done a => exact hP a h
  | fault e => exact hB e h
  | request r k ih => exact ⟨hA r h.1, fun x => ih x (h.2 x)⟩

theorem Within.imp {P P' : α → Prop} {p : Prog R Ans E α} (h : Within A B P p)
    (hP : ∀ a, P a → P' a) : Within A B P' p :=
  h.mono (fun _ h => h) (fun _ h => h) hP

theorem Within.bind {P : α → Prop} {P' : β → Prop} {p : Prog R Ans E α} {f : α → Prog R Ans E β}
    (h : Within A B P p) (hf : ∀ a, P a → Within A B P' (f a)) : Within A B P' (p >>= f) := by
  induction p with
  | done a => exact hf a h
  | fault e => exact h
  | request r k ih => exact ⟨h.1, fun x => ih x (h.2 x)⟩

/-- What follows matters for the values the program can end with only. -/
theorem Within.bind_congr {P : α → Prop} {p : Prog R Ans E α} {f g : α → Prog R Ans E β}
    (h : Within A B P p) (hfg : ∀ a, P a → f a = g a) : (p >>= f) = p >>= g := by
  induction p with
  | done a => exact hfg a h
  | fault e => rfl
  | request r k ih => exact congrArg (Prog.request r) (funext fun x => ih x (h.2 x))

theorem Within.and {A' : R → Prop} {P : α → Prop} {p : Prog R Ans E α} (h : Within A B P p)
    (h' : Within A' B P p) : Within (fun r => A r ∧ A' r) B P p := by
  induction p with
  | done a => exact h
  | fault e => exact h
  | request r k ih => exact ⟨⟨h.1, h'.1⟩, fun x => ih x (h.2 x) (h'.2 x)⟩

/-- What the requests of `A` preserve, a run preserves, and its value satisfies `P`. -/
theorem Within.ensures {P : α → Prop} {p : Prog R Ans E α} {I : W → Prop}
    (h : Within A B P p) (hI : ∀ w r x w', A r → I w → K w r x w' → I w') {w : W} (hw : I w) :
    Ensures K (fun e w' => B e ∧ I w') (fun a w' => P a ∧ I w') p w := by
  induction p generalizing w with
  | done a => exact ⟨h, hw⟩
  | fault e => exact ⟨h, hw⟩
  | request r k ih =>
      intro x w₁ hK
      exact ih x (h.2 x) (hI w r x w₁ h.1 hw hK)

end Within

/-- Every value the program can end with satisfies `P`, whatever it is answered. -/
abbrev Yields (P : α → Prop) (p : Prog R Ans E α) : Prop :=
  Within (fun _ => True) (fun _ => True) P p

theorem Within.yields {A : R → Prop} {B : E → Prop} {P : α → Prop} {p : Prog R Ans E α}
    (h : Within A B P p) : Yields P p :=
  h.mono (fun _ _ => trivial) (fun _ _ => trivial) fun _ h => h

theorem yields_true (p : Prog R Ans E α) : Yields (fun _ => True) p := by
  induction p with
  | done a => trivial
  | fault e => trivial
  | request r k ih => exact ⟨trivial, ih⟩

theorem Yields.ask {P : β → Prop} {r : R} {f : Ans r → Prog R Ans E β}
    (h : ∀ x, Yields P (f x)) : Yields P (Prog.ask r >>= f) := ⟨trivial, h⟩

/-- What holds whatever the answers holds after every run. -/
theorem Yields.runs {P : α → Prop} {p : Prog R Ans E α} {w w' : W} {a : α} (h : Yields P p)
    (hr : Runs K p w (.done a) w') : P a :=
  ((Within.ensures (K := K) (I := fun _ => True) h (fun _ _ _ _ _ _ _ => trivial) trivial).runs
    hr).1

/-! ## Progress -/

/-- Where every request of `A` gets some answer, a program that makes no others
can end. -/
theorem Within.exists_run {A : R → Prop} {B : E → Prop} {P : α → Prop} {p : Prog R Ans E α}
    (h : Within A B P p) (hK : ∀ w r, A r → ∃ x w', K w r x w') (w : W) :
    ∃ o w', Runs K p w o w' := by
  induction p generalizing w with
  | done a => exact ⟨.done a, w, rfl, rfl⟩
  | fault e => exact ⟨.fault e, w, rfl, rfl⟩
  | request r k ih =>
      obtain ⟨x, w₁, hx⟩ := hK w r h.1
      obtain ⟨o, w', hr⟩ := ih x (h.2 x) w₁
      exact ⟨o, w', x, w₁, hx, hr⟩

/-! ## Another kernel -/

/-- What every step of one kernel is in another, every run is in the other. -/
theorem Runs.map {V : Type} {K : Kernel R Ans V} {K' : Kernel R Ans W} {g : V → W}
    (hg : ∀ v r x v', K v r x v' → K' (g v) r x (g v')) {p : Prog R Ans E α} {v v' : V}
    {o : Result E α} (h : Runs K p v o v') : Runs K' p (g v) o (g v') := by
  induction p generalizing v with
  | done a => exact ⟨h.1, congrArg g h.2⟩
  | fault e => exact ⟨h.1, congrArg g h.2⟩
  | request r k ih =>
      obtain ⟨x, v₁, hK, hr⟩ := h
      exact ⟨x, g v₁, hg _ _ _ _ hK, ih x hr⟩

/-- Kernels that answer the requests of `A` alike, in worlds that these requests
keep in `I`, run a program that makes no others alike. -/
theorem Within.runs_congr {A : R → Prop} {B : E → Prop} {P : α → Prop} {p : Prog R Ans E α}
    (h : Within A B P p) {K' : Kernel R Ans W} {I : W → Prop}
    (hI : ∀ w r x w', A r → I w → K w r x w' → I w')
    (hK : ∀ w r x w', A r → I w → (K w r x w' ↔ K' w r x w')) {w w' : W} (hw : I w)
    {o : Result E α} : Runs K p w o w' ↔ Runs K' p w o w' := by
  induction p generalizing w with
  | done a => exact Iff.rfl
  | fault e => exact Iff.rfl
  | request r k ih =>
      constructor
      · rintro ⟨x, w₁, hx, hr⟩
        exact ⟨x, w₁, (hK w r x w₁ h.1 hw).1 hx, (ih x (h.2 x) (hI w r x w₁ h.1 hw hx)).1 hr⟩
      · rintro ⟨x, w₁, hx, hr⟩
        have hx' := (hK w r x w₁ h.1 hw).2 hx
        exact ⟨x, w₁, hx', (ih x (h.2 x) (hI w r x w₁ h.1 hw hx')).2 hr⟩

/-! ## A pattern of failures -/

/-- The kernel `K` with a count of the requests made so far: of those that can be
refused the `n`-th is exactly when `fails n`, and then has no effect. -/
def failing (K : Kernel R Ans W) (refusal : (r : R) → Option (Ans r)) (fails : Nat → Prop) :
    Kernel R Ans (Nat × W) := fun w r x w' =>
  w'.1 = w.1 + 1 ∧
    match refusal r with
    | some no => (fails w.1 ∧ x = no ∧ w'.2 = w.2) ∨ (¬ fails w.1 ∧ K w.2 r x w'.2)
    | none => K w.2 r x w'.2

section Failing

variable {refusal : (r : R) → Option (Ans r)} {fails : Nat → Prop} {r : R} {n : Nat} {w : W}
  {k : Ans r → Prog R Ans E α} {o : Result E α} {w' : Nat × W}

/-- A request that can be refused. -/
theorem runs_failing_some {no : Ans r} (h : refusal r = some no) :
    Runs (failing K refusal fails) (Prog.ask r >>= k) (n, w) o w' ↔
      (fails n ∧ Runs (failing K refusal fails) (k no) (n + 1, w) o w') ∨
        (¬ fails n ∧ ∃ x w₁, K w r x w₁ ∧
          Runs (failing K refusal fails) (k x) (n + 1, w₁) o w') := by
  simp only [Prog.ask_bind, runs_request, failing, h]
  constructor
  · rintro ⟨x, ⟨m, w₁⟩, ⟨rfl, ⟨hf, rfl, rfl⟩ | ⟨hf, hK⟩⟩, hr⟩
    · exact Or.inl ⟨hf, hr⟩
    · exact Or.inr ⟨hf, x, w₁, hK, hr⟩
  · rintro (⟨hf, hr⟩ | ⟨hf, x, w₁, hK, hr⟩)
    · exact ⟨no, (n + 1, w), ⟨rfl, Or.inl ⟨hf, rfl, rfl⟩⟩, hr⟩
    · exact ⟨x, (n + 1, w₁), ⟨rfl, Or.inr ⟨hf, hK⟩⟩, hr⟩

/-- A request that cannot. -/
theorem runs_failing_none (h : refusal r = none) :
    Runs (failing K refusal fails) (Prog.ask r >>= k) (n, w) o w' ↔
      ∃ x w₁, K w r x w₁ ∧ Runs (failing K refusal fails) (k x) (n + 1, w₁) o w' := by
  simp only [Prog.ask_bind, runs_request, failing, h]
  constructor
  · rintro ⟨x, ⟨m, w₁⟩, ⟨rfl, hK⟩, hr⟩
    exact ⟨x, w₁, hK, hr⟩
  · rintro ⟨x, w₁, hK, hr⟩
    exact ⟨x, (n + 1, w₁), ⟨rfl, hK⟩, hr⟩

/-- A run under a pattern of failures is a run of a kernel that may refuse. -/
theorem Runs.of_failing {K' : Kernel R Ans W} {p : Prog R Ans E α}
    (hK : ∀ w r x w', K w r x w' → K' w r x w')
    (hrefuse : ∀ w r no, refusal r = some no → K' w r no w)
    (h : Runs (failing K refusal fails) p (n, w) o w') : Runs K' p w o w'.2 := by
  refine Runs.map (g := Prod.snd) ?_ h
  rintro ⟨m, w⟩ r x ⟨m', w'⟩ ⟨-, hstep⟩
  cases hno : refusal r with
  | none =>
      simp only [hno] at hstep
      exact hK _ _ _ _ hstep
  | some no =>
      simp only [hno] at hstep
      rcases hstep with ⟨-, rfl, rfl⟩ | ⟨-, hstep⟩
      · exact hrefuse _ _ _ hno
      · exact hK _ _ _ _ hstep

end Failing

end Requests
