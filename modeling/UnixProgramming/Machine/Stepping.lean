import Mathlib

/-!
# A machine that steps until it exits

A deterministic machine makes one step at a time, and a step either leads to the
next state or ends with an exit.  A run can be watched for a first state of a
kind, from the start on or from a later step on.

* `after` — the state after a number of steps.
* `FirstHit`, `ExitsUnhit` — the first state of a kind, or an exit before one.
* `firstHit_zero_iff`, `firstHit_succ_iff` — one step of the watch, and the same
  for an exit.
-/

namespace Stepping

/-- Where one step leads. -/
inductive Outcome (σ ε : Type) where
  | next (s : σ)
  | exits (e : ε)

variable {σ ε : Type} (step : σ → Outcome σ ε)

/-- The state after `n` steps; `none` when the machine has exited before. -/
def after : Nat → σ → Option σ
  | 0, s => some s
  | n + 1, s =>
      match step s with
      | .next s' => after n s'
      | .exits _ => none

/-- `s'` is the state after the least number `n` of steps, `k` at least, for
which the state satisfies `P`. -/
def FirstHit (P : σ → Prop) (k n : Nat) (s s' : σ) : Prop :=
  k ≤ n ∧ after step n s = some s' ∧ P s' ∧
    ∀ m u, k ≤ m → m < n → after step m s = some u → ¬ P u

/-- The machine exits, and no state from step `k` on up to there satisfies `P`. -/
def ExitsUnhit (P : σ → Prop) (k : Nat) (s : σ) (e : ε) : Prop :=
  ∃ n u, after step n s = some u ∧ step u = .exits e ∧
    ∀ m v, k ≤ m → m ≤ n → after step m s = some v → ¬ P v

variable {step} {P : σ → Prop} {k n : Nat} {s s' s₁ : σ} {e : ε}

@[simp] theorem after_zero : after step 0 s = some s := rfl

theorem after_succ (h : step s = .next s₁) : after step (n + 1) s = after step n s₁ := by
  rw [after, h]

theorem after_succ_of_exits (h : step s = .exits e) : after step (n + 1) s = none := by
  rw [after, h]

/-- More than one step are a step and the rest. -/
theorem after_succ_eq_some {u : σ} :
    after step (n + 1) s = some u ↔ ∃ s₁, step s = .next s₁ ∧ after step n s₁ = some u := by
  constructor
  · intro h
    cases hs : step s with
    | next s₁ => exact ⟨s₁, rfl, by rw [← after_succ hs]; exact h⟩
    | exits e => simp [after_succ_of_exits hs] at h
  · rintro ⟨s₁, hs, h⟩
    rw [after_succ hs, h]

theorem after_add {j k : Nat} {u v : σ} (h : after step j s = some u)
    (h' : after step k u = some v) : after step (j + k) s = some v := by
  induction j generalizing s with
  | zero =>
      cases h
      rwa [Nat.zero_add]
  | succ j ih =>
      obtain ⟨s₁, hnext, hrest⟩ := after_succ_eq_some.1 h
      rw [Nat.add_right_comm]
      exact after_succ_eq_some.2 ⟨s₁, hnext, ih hrest⟩

theorem firstHit_of_hit (h : P s) : FirstHit step P 0 n s s' ↔ n = 0 ∧ s' = s := by
  constructor
  · rintro ⟨-, hafter, -, hno⟩
    cases n with
    | zero =>
        rw [after_zero, Option.some.injEq] at hafter
        exact ⟨rfl, hafter.symm⟩
    | succ n => exact absurd h (hno 0 s (Nat.zero_le _) (Nat.succ_pos _) rfl)
  · rintro ⟨rfl, rfl⟩
    exact ⟨le_refl 0, rfl, h, fun m u _ hm => absurd hm (Nat.not_lt_zero m)⟩

/-! ## One step of the watch -/

/-- Watching from step `k + 1` on is watching the rest from step `k` on. -/
theorem firstHit_succ_iff (h : step s = .next s₁) :
    FirstHit step P (k + 1) n s s' ↔ ∃ m, n = m + 1 ∧ FirstHit step P k m s₁ s' := by
  constructor
  · rintro ⟨hk, hafter, hP, hno⟩
    cases n with
    | zero => omega
    | succ n =>
        rw [after_succ h] at hafter
        refine ⟨n, rfl, by omega, hafter, hP, ?_⟩
        intro m u hkm hmn hu
        exact hno (m + 1) u (by omega) (by omega) (by rw [after_succ h]; exact hu)
  · rintro ⟨m, rfl, hk, hafter, hP, hno⟩
    refine ⟨by omega, by rw [after_succ h]; exact hafter, hP, ?_⟩
    intro j u hkj hjm hu
    cases j with
    | zero => omega
    | succ j =>
        rw [after_succ h] at hu
        exact hno j u (by omega) (by omega) hu

/-- Where the first state is not a hit, it need not be watched. -/
theorem firstHit_zero_iff (h : ¬ P s) : FirstHit step P 0 n s s' ↔ FirstHit step P 1 n s s' := by
  constructor
  · rintro ⟨-, hafter, hP, hno⟩
    refine ⟨?_, hafter, hP, fun m u _ => hno m u (Nat.zero_le _)⟩
    cases n with
    | zero =>
        rw [after_zero, Option.some.injEq] at hafter
        exact absurd (hafter ▸ hP) h
    | succ n => omega
  · rintro ⟨-, hafter, hP, hno⟩
    refine ⟨Nat.zero_le _, hafter, hP, ?_⟩
    intro m u _ hmn hu
    cases m with
    | zero =>
        cases hu
        exact h
    | succ m => exact hno (m + 1) u (by omega) hmn hu

theorem exitsUnhit_succ_iff (h : step s = .next s₁) :
    ExitsUnhit step P (k + 1) s e ↔ ExitsUnhit step P k s₁ e := by
  constructor
  · rintro ⟨n, u, hafter, hu, hno⟩
    cases n with
    | zero =>
        cases hafter
        rw [h] at hu
        cases hu
    | succ n =>
        rw [after_succ h] at hafter
        refine ⟨n, u, hafter, hu, ?_⟩
        intro m v hkm hmn hv
        exact hno (m + 1) v (by omega) (by omega) (by rw [after_succ h]; exact hv)
  · rintro ⟨n, u, hafter, hu, hno⟩
    refine ⟨n + 1, u, by rw [after_succ h]; exact hafter, hu, ?_⟩
    intro m v hkm hmn hv
    cases m with
    | zero => omega
    | succ m =>
        rw [after_succ h] at hv
        exact hno m v (by omega) (by omega) hv

theorem exitsUnhit_zero_iff (h : ¬ P s) : ExitsUnhit step P 0 s e ↔ ExitsUnhit step P 1 s e := by
  constructor
  · rintro ⟨n, u, hafter, hu, hno⟩
    exact ⟨n, u, hafter, hu, fun m v _ => hno m v (Nat.zero_le _)⟩
  · rintro ⟨n, u, hafter, hu, hno⟩
    refine ⟨n, u, hafter, hu, ?_⟩
    intro m v _ hmn hv
    cases m with
    | zero =>
        cases hv
        exact h
    | succ m => exact hno (m + 1) v (by omega) hmn hv

/-! ## An exit at the first step -/

theorem not_firstHit_of_exits (he : step s = .exits e) : ¬ FirstHit step P (k + 1) n s s' := by
  rintro ⟨hk, hafter, -, -⟩
  cases n with
  | zero => omega
  | succ n => simp [after_succ_of_exits he] at hafter

theorem exitsUnhit_of_exits {e' : ε} (he : step s = .exits e') :
    ExitsUnhit step P (k + 1) s e ↔ e = e' := by
  constructor
  · rintro ⟨n, u, hafter, hu, -⟩
    cases n with
    | zero =>
        cases hafter
        rw [he] at hu
        cases hu
        rfl
    | succ n => simp [after_succ_of_exits he] at hafter
  · rintro rfl
    exact ⟨0, s, rfl, he, fun m v hkm hm => by omega⟩

end Stepping
