import Mathlib

/-!
# Finite maps with an order on their keys

A finite map whose keys stand in the order they were inserted in, and can be removed
by their place in that order.

* `OrderedMap` — the keys, each once, and their values.
* `insert`, `eraseAt` — a new key goes to the end; the key at a place goes.
* `value_insert_self`, `value_insert_of_ne`, `mem_eraseAt`, `value_eraseAt` — what these do to
  the map.
* `getElem?_eraseAt_of_lt`, `getElem?_eraseAt_of_ge` — what they do to the order.
-/

/-- A finite map with an order on its keys. -/
structure OrderedMap (κ ν : Type*) where
  keys : List κ
  value : κ → Option ν
  nodup : keys.Nodup
  dom : ∀ k, (value k).isSome = true ↔ k ∈ keys

namespace OrderedMap

variable {κ ν : Type*}

/-- The map without keys. -/
def empty : OrderedMap κ ν where
  keys := []
  value _ := none
  nodup := List.nodup_nil
  dom _ := by simp

/-- The place of a key is determined. -/
theorem place_unique (m : OrderedMap κ ν) {i j : Nat} {k : κ} (hi : m.keys[i]? = some k)
    (hj : m.keys[j]? = some k) : i = j := by
  obtain ⟨hlti, hgeti⟩ := List.getElem?_eq_some_iff.1 hi
  obtain ⟨hltj, hgetj⟩ := List.getElem?_eq_some_iff.1 hj
  exact (List.Nodup.getElem_inj_iff m.nodup).1 (hgeti.trans hgetj.symm)

theorem mem_iff_place (m : OrderedMap κ ν) {k : κ} :
    k ∈ m.keys ↔ ∃ i : Nat, m.keys[i]? = some k := List.mem_iff_getElem?

theorem value_of_mem (m : OrderedMap κ ν) {k : κ} (hk : k ∈ m.keys) :
    ∃ v, m.value k = some v := Option.isSome_iff_exists.1 ((m.dom k).2 hk)

variable [DecidableEq κ]

/-! ## Insertion -/

/-- Insert a new key, at the end. -/
def insert (m : OrderedMap κ ν) (k : κ) (v : ν) (hnew : k ∉ m.keys) : OrderedMap κ ν where
  keys := m.keys ++ [k]
  value := Function.update m.value k (some v)
  nodup := m.nodup.append (List.nodup_singleton k) (by simpa using hnew)
  dom x := by
    by_cases hx : x = k
    · subst hx
      simp
    · rw [Function.update_of_ne hx, m.dom]
      simp [hx]

section Insert

variable (m : OrderedMap κ ν) {k : κ} (v : ν) (hnew : k ∉ m.keys)

@[simp] theorem keys_insert : (m.insert k v hnew).keys = m.keys ++ [k] := rfl

theorem value_insert_self : (m.insert k v hnew).value k = some v := Function.update_self ..

theorem value_insert_of_ne {x : κ} (hx : x ≠ k) : (m.insert k v hnew).value x = m.value x :=
  Function.update_of_ne hx ..

end Insert

/-! ## Removal by place -/

/-- Remove the key at a place. -/
def eraseAt (m : OrderedMap κ ν) (i : Nat) : OrderedMap κ ν where
  keys := m.keys.eraseIdx i
  value k := if m.keys[i]? = some k then none else m.value k
  nodup := m.nodup.eraseIdx i
  dom k := by
    rw [List.mem_eraseIdx_iff_getElem?]
    split
    · next hi =>
        refine iff_of_false Bool.false_ne_true ?_
        rintro ⟨j, hne, hj⟩
        exact hne (m.place_unique hj hi)
    · next hi =>
        rw [m.dom, m.mem_iff_place]
        refine exists_congr fun j => ⟨fun hj => ⟨?_, hj⟩, fun hj => hj.2⟩
        rintro rfl
        exact hi hj

section Erase

variable (m : OrderedMap κ ν) (i : Nat)

@[simp] theorem keys_eraseAt : (m.eraseAt i).keys = m.keys.eraseIdx i := rfl

/-- The other keys stay. -/
theorem mem_eraseAt {x : κ} : x ∈ (m.eraseAt i).keys ↔ x ∈ m.keys ∧ m.keys[i]? ≠ some x := by
  rw [← (m.eraseAt i).dom, ← m.dom]
  change (if m.keys[i]? = some x then none else m.value x).isSome = true ↔ _
  split
  · next hi => simp [hi]
  · next hi => simp [hi]

theorem value_eraseAt {x : κ} (hx : m.keys[i]? ≠ some x) : (m.eraseAt i).value x = m.value x :=
  if_neg hx

/-- The places below are kept. -/
theorem getElem?_eraseAt_of_lt {j : Nat} (hj : j < i) :
    (m.eraseAt i).keys[j]? = m.keys[j]? :=
  List.getElem?_eraseIdx_of_lt hj

/-- The places above are one less. -/
theorem getElem?_eraseAt_of_ge {j : Nat} (hj : i ≤ j) :
    (m.eraseAt i).keys[j]? = m.keys[j + 1]? :=
  List.getElem?_eraseIdx_of_ge hj

end Erase

end OrderedMap
