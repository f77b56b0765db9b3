import Mathlib.Logic.Function.Basic

/-!
# Conditions in Disjunctive Normal Form

A clause is a conjunction: of some keys it asks for a value, of the others for
nothing. A table of labelled clauses denotes, in a state, the labels of the
clauses that hold there, so a label stands for the disjunction of its clauses.
Whether a value in the state is the one asked for is left to a relation, since a
program may compare loosely.

A program that evaluates such a table may overlook some of the requirements.
`relax` says what it evaluates then. A relaxed clause holds wherever the clause
does, and it holds elsewhere too as soon as there is a requirement it overlooks:
`forall_sat_relax_iff` is the converse of the obvious, and needs that no value
satisfies by itself every requirement.

## Main definitions

* `Clause`: A conjunction of requirements.
* `Sat`: The clause holds in the state.
* `Denotes`: The label of a clause that holds.
* `relax`: A clause without the requirements that are overlooked.

## Theorems

* `sat_relax_iff`: What a relaxed clause asks for.
* `sat_congr`: A clause depends on the keys it mentions.
* `forall_sat_relax_iff`: Relaxing is harmless exactly if nothing is overlooked.
-/

namespace Dnf

variable {κ ν ι : Type*}

/-- For each key, the value the clause asks for, if any. -/
abbrev Clause (κ ν : Type*) := κ → Option ν

/-- The state has every value the clause asks for. -/
def Sat (r : ν → ν → Prop) (s : κ → ν) (c : Clause κ ν) : Prop :=
  ∀ k v, c k = some v → r (s k) v

/-- A clause with the label holds in the state. -/
def Denotes (r : ν → ν → Prop) (rows : List (ι × Clause κ ν)) (s : κ → ν) (i : ι) : Prop :=
  ∃ c, (i, c) ∈ rows ∧ Sat r s c

/-- The clause without the requirements that are overlooked. -/
def relax (overlooked : κ → ν → Bool) (c : Clause κ ν) : Clause κ ν :=
  fun k => (c k).filter fun v => !overlooked k v

theorem sat_relax_iff (overlooked : κ → ν → Bool) (r : ν → ν → Prop) (s : κ → ν)
    (c : Clause κ ν) :
    Sat r s (relax overlooked c) ↔ ∀ k v, c k = some v → overlooked k v = false → r (s k) v := by
  unfold Sat relax
  simp only [Option.filter_eq_some_iff, Bool.not_eq_true', and_imp]

theorem sat_congr {r : ν → ν → Prop} {s s' : κ → ν} {c : Clause κ ν}
    (h : ∀ k v, c k = some v → s k = s' k) : Sat r s c ↔ Sat r s' c := by
  refine forall₃_congr (fun k v hv => ?_)
  rw [h k v hv]

/-- Nothing is overlooked, so the relaxed clause is the clause. -/
theorem relax_eq_self {overlooked : κ → ν → Bool} {c : Clause κ ν}
    (h : ∀ k v, c k = some v → overlooked k v = false) : relax overlooked c = c := by
  funext k
  unfold relax
  cases hc : c k with
  | none => rfl
  | some v => rw [Option.filter_some, h k v hc, Bool.not_false, if_pos rfl]

/-- The relaxed clause holds only where the clause does exactly if it overlooks
    nothing. A state that gives every key the value asked for, but for one that
    is overlooked, tells them apart. -/
theorem forall_sat_relax_iff [DecidableEq κ] {overlooked : κ → ν → Bool} {r : ν → ν → Prop}
    (hrefl : ∀ v, r v v) (hother : ∀ v, ∃ x, ¬ r x v) (c : Clause κ ν) :
    (∀ s, Sat r s (relax overlooked c) → Sat r s c) ↔
      ∀ k v, c k = some v → overlooked k v = false := by
  constructor
  · intro h k v hv
    by_contra hover
    rcases hother v with ⟨x, hx⟩
    have hsat := h (Function.update (fun k => (c k).getD v) k x) ?_ k v hv
    · rw [Function.update_self] at hsat
      exact hx hsat
    · refine (sat_relax_iff _ _ _ _).mpr (fun l w hw hl => ?_)
      have hlk : l ≠ k := by
        rintro rfl
        rw [Option.some.inj (hv.symm.trans hw)] at hover
        exact hover hl
      rw [Function.update_of_ne hlk, hw]
      exact hrefl w
  · intro h s hs
    rwa [relax_eq_self h] at hs

end Dnf
