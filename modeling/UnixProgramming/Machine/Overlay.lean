import Mathlib

/-!
# Marking points of a function

`overlay B v f` is `f` with the value `v` at every point of the list `B`.  The
points are marked and unmarked one at a time by updates; on a set `T` of points
that matter, a function that agrees with an overlay still agrees with one after
each of them.

* `eqOn_overlay_insert` — marking a point.
* `eqOn_overlay_remove` — giving a point its own value back.
* `eqOn_overlay` — marking the same points on both sides.
-/

namespace Overlay

variable {α β : Type} [DecidableEq α]

/-- `f`, with the value `v` at the points of `B`. -/
def overlay (B : List α) (v : β) (f : α → β) : α → β := fun a => if a ∈ B then v else f a

variable {B B' : List α} {v : β} {f m m' : α → β} {T : Set α} {a : α}

theorem overlay_of_mem (h : a ∈ B) : overlay B v f a = v := if_pos h

theorem overlay_of_not_mem (h : a ∉ B) : overlay B v f a = f a := if_neg h

@[simp] theorem overlay_nil : overlay [] v f = f := by
  funext a
  exact overlay_of_not_mem (List.not_mem_nil)

theorem update_overlay_insert (hB : ∀ x, x ∈ B' ↔ x ∈ B ∨ x = a) :
    Function.update (overlay B v f) a v = overlay B' v f := by
  funext x
  by_cases hx : x = a
  · subst hx
    rw [Function.update_self, overlay_of_mem ((hB x).2 (Or.inr rfl))]
  · rw [Function.update_of_ne hx, overlay, overlay]
    simp only [hB x, hx, or_false]

theorem update_overlay_remove (hB : ∀ x, x ∈ B' ↔ x ∈ B ∧ x ≠ a) :
    Function.update (overlay B v f) a (f a) = overlay B' v f := by
  funext x
  by_cases hx : x = a
  · subst hx
    rw [Function.update_self, overlay_of_not_mem fun h => ((hB x).1 h).2 rfl]
  · rw [Function.update_of_ne hx, overlay, overlay]
    simp only [hB x, hx, ne_eq, not_false_eq_true, and_true]

theorem eqOn_update (h : Set.EqOn m m' T) (b : β) :
    Set.EqOn (Function.update m a b) (Function.update m' a b) T := by
  intro x hx
  by_cases hxa : x = a
  · subst hxa
    simp
  · rw [Function.update_of_ne hxa, Function.update_of_ne hxa, h hx]

/-- Functions that agree still do with the same points marked. -/
theorem eqOn_overlay (h : Set.EqOn m m' T) : Set.EqOn (overlay B v m) (overlay B v m') T := by
  intro x hx
  simp only [overlay, h hx]

theorem eqOn_overlay_insert (h : Set.EqOn m (overlay B v f) T)
    (hB : ∀ x, x ∈ B' ↔ x ∈ B ∨ x = a) :
    Set.EqOn (Function.update m a v) (overlay B' v f) T := by
  rw [← update_overlay_insert hB]
  exact eqOn_update h v

theorem eqOn_overlay_remove (h : Set.EqOn m (overlay B v f) T)
    (hB : ∀ x, x ∈ B' ↔ x ∈ B ∧ x ≠ a) :
    Set.EqOn (Function.update m a (f a)) (overlay B' v f) T := by
  rw [← update_overlay_remove hB]
  exact eqOn_update h (f a)

end Overlay
