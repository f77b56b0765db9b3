import Mathlib.Data.List.Induction

/-!
# Machines and Their Runs

A machine is a total step function: every input is answered, and an input the
machine refuses leaves the state where it was. A run is a list of inputs, and
everything that can be said about "every reachable state" or "every order of
steps" is an induction over that list.

The induction is done once, here. `after_invariant` is the plain form, for a
property of the state alone. `history_invariant` carries the past along: the
history of a run is the list of its steps, each recorded as the input together
with the state it was given to, so a property may relate what has happened so
far to what the state is now. Since the step is a function, the recorded pair
determines the answer and the state after it as well.

The order of events is a matter of what they need and what they bring about.
`history_never_after` is for a step that uses up what another needs, and
`history_only_after` for one that needs what only another provides.

The first two rules take the set of admissible inputs as a parameter, so a result about
runs without some operation is the same rule at a smaller set.

## Main definitions

* `after`: The state a run ends in.
* `history`: The steps of a run, oldest first.

## Theorems

* `after_append`: Running one list of inputs after another.
* `history_append`: The history of a run that continues another.
* `after_invariant_along`, `after_invariant`: What every step preserves, every
  run preserves.
* `history_invariant_along`, `history_invariant`: The same, for a property of the past
  and the present.
* `history_before`: A step recorded in a history was taken after a prefix.
* `history_driven`: The steps of a machine that another one drives.
* `forall_prefix_iff`, `forall_prefixes_iff`: What holds all along a run, step by
  step.
* `history_never_after`, `history_only_after`: Steps that rule out, and steps
  that need, earlier ones.
* `countP_le_one_of_pairwise`: A kind of steps that happens once at most.
-/

namespace Machine

variable {σ ι : Type*}

/-- The state after a list of inputs. -/
def after (step : σ → ι → σ) : σ → List ι → σ
  | s, [] => s
  | s, i :: is => after step (step s i) is

/-- The steps of a run, oldest first: each input with the state it met. -/
def history (step : σ → ι → σ) : σ → List ι → List (σ × ι)
  | _, [] => []
  | s, i :: is => (s, i) :: history step (step s i) is

theorem after_append (step : σ → ι → σ) (s : σ) (is js : List ι) :
    after step s (is ++ js) = after step (after step s is) js := by
  induction is generalizing s with
  | nil => rfl
  | cons i is ih => exact ih (step s i)

theorem after_concat (step : σ → ι → σ) (s : σ) (is : List ι) (i : ι) :
    after step s (is ++ [i]) = step (after step s is) i :=
  after_append step s is [i]

theorem history_append (step : σ → ι → σ) (s : σ) (is js : List ι) :
    history step s (is ++ js) = history step s is ++ history step (after step s is) js := by
  induction is generalizing s with
  | nil => rfl
  | cons i is ih =>
      simp only [List.cons_append, history, after]
      rw [ih]

theorem history_concat (step : σ → ι → σ) (s : σ) (is : List ι) (i : ι) :
    history step s (is ++ [i]) = history step s is ++ [(after step s is, i)] :=
  history_append step s is [i]

/-- What holds at the start and is preserved by every admissible step holds
    after every run of admissible steps. Whether a step is admissible may
    depend on the state it meets. -/
theorem after_invariant_along (step : σ → ι → σ) (ok : σ → ι → Prop) (P : σ → Prop)
    (hstep : ∀ s i, ok s i → P s → P (step s i)) (s : σ) (h0 : P s) (is : List ι)
    (hok : ∀ p ∈ history step s is, ok p.1 p.2) : P (after step s is) := by
  induction is generalizing s with
  | nil => exact h0
  | cons i is ih =>
      exact ih (step s i) (hstep s i (hok (s, i) List.mem_cons_self) h0)
        (fun p hp => hok p (List.mem_cons_of_mem _ hp))

theorem mem_of_mem_history (step : σ → ι → σ) (s : σ) (is : List ι) (p : σ × ι)
    (hp : p ∈ history step s is) : p.2 ∈ is := by
  induction is generalizing s with
  | nil => exact absurd hp List.not_mem_nil
  | cons i is ih =>
      rcases List.mem_cons.mp hp with rfl | hp
      · exact List.mem_cons_self
      · exact List.mem_cons_of_mem i (ih (step s i) hp)

/-- The same when it depends on the input alone. -/
theorem after_invariant (step : σ → ι → σ) (ok : ι → Prop) (P : σ → Prop)
    (hstep : ∀ s i, ok i → P s → P (step s i)) (s : σ) (h0 : P s) (is : List ι)
    (hok : ∀ i ∈ is, ok i) : P (after step s is) :=
  after_invariant_along step (fun _ i => ok i) P hstep s h0 is
    (fun p hp => hok p.2 (mem_of_mem_history step s is p hp))

/-- The invariant rule for a property of the past and the present: it holds of
    the empty past, and a step extends the past by itself. -/
theorem history_invariant_along (step : σ → ι → σ) (ok : σ → ι → Prop)
    (P : List (σ × ι) → σ → Prop) (s : σ) (h0 : P [] s)
    (hstep : ∀ h t i, ok t i → P h t → P (h ++ [(t, i)]) (step t i)) (is : List ι)
    (hok : ∀ p ∈ history step s is, ok p.1 p.2) : P (history step s is) (after step s is) := by
  induction is using List.reverseRecOn with
  | nil => exact h0
  | append_singleton is i ih =>
      rw [history_concat] at hok ⊢
      rw [after_concat]
      refine hstep _ _ i (hok _ (List.mem_append_right _ List.mem_cons_self)) ?_
      exact ih (fun p hp => hok p (List.mem_append_left _ hp))

/-- The same when it depends on the input alone. -/
theorem history_invariant (step : σ → ι → σ) (ok : ι → Prop) (P : List (σ × ι) → σ → Prop)
    (s : σ) (h0 : P [] s)
    (hstep : ∀ h t i, ok i → P h t → P (h ++ [(t, i)]) (step t i)) (is : List ι)
    (hok : ∀ i ∈ is, ok i) : P (history step s is) (after step s is) :=
  history_invariant_along step (fun _ i => ok i) P s h0 hstep is
    (fun p hp => hok p.2 (mem_of_mem_history step s is p hp))

/-- A step recorded at some place in a history met the state its prefix of the
    inputs leads to. -/
theorem history_before (step : σ → ι → σ) (s : σ) (is : List ι) (h₁ h₂ : List (σ × ι))
    (t : σ) (i : ι) (h : history step s is = h₁ ++ (t, i) :: h₂) :
    ∃ is₁ is₂, is = is₁ ++ i :: is₂ ∧ h₁ = history step s is₁ ∧ t = after step s is₁ := by
  induction is generalizing s h₁ with
  | nil =>
      simp only [history, List.nil_eq, List.append_eq_nil_iff, reduceCtorEq, and_false] at h
  | cons j is ih =>
      cases h₁ with
      | nil =>
          simp only [history, List.nil_append, List.cons.injEq, Prod.mk.injEq] at h
          rcases h with ⟨⟨rfl, rfl⟩, -⟩
          exact ⟨[], is, rfl, rfl, rfl⟩
      | cons e h₁ =>
          simp only [history, List.cons_append, List.cons.injEq] at h
          rcases ih (step s j) h₁ h.2 with ⟨is₁, is₂, rfl, rfl, rfl⟩
          exact ⟨j :: is₁, is₂, rfl, by rw [history, h.1], rfl⟩

/-- A property of the state that holds along a run holds where every step was
    taken. -/
theorem history_states (step : σ → ι → σ) (P : σ → Prop) (hP : ∀ s i, P s → P (step s i)) (s : σ)
    (h0 : P s) (is : List ι) (p : σ × ι) (hp : p ∈ history step s is) : P p.1 := by
  induction is generalizing s with
  | nil => exact absurd hp List.not_mem_nil
  | cons i is ih =>
      rcases List.mem_cons.mp hp with rfl | hp
      · exact h0
      · exact ih (step s i) (hP s i h0) hp

section Along

variable (step : σ → ι → σ) (adm : ι → Prop) (I : σ → Prop)
  (hI : ∀ s i, adm i → I s → I (step s i)) (ok : σ → ι → Prop)
include hI

/-- A property that exactly the good steps keep holds all along a run of
    admissible inputs exactly if every step of the run is good. -/
theorem forall_prefix_iff (P : σ → Prop)
    (hiff : ∀ s i, adm i → I s → P s → (P (step s i) ↔ ok s i)) (s : σ) (hs : I s) (h0 : P s)
    (is : List ι) (his : ∀ i ∈ is, adm i) :
    (∀ is', is' <+: is → P (after step s is')) ↔ ∀ p ∈ history step s is, ok p.1 p.2 := by
  induction is generalizing s with
  | nil =>
      refine ⟨fun _ p hp => absurd hp List.not_mem_nil, fun _ is' hpre => ?_⟩
      rw [List.prefix_nil.mp hpre]
      exact h0
  | cons i is ih =>
      rcases List.forall_mem_cons.mp his with ⟨hi, hrest⟩
      simp only [history, List.forall_mem_cons]
      constructor
      · intro h
        -- The prefix of length one says that the first step kept the property.
        have hfirst : P (step s i) := h [i] ⟨is, rfl⟩
        refine ⟨(hiff s i hi hs h0).mp hfirst,
          (ih (step s i) (hI s i hi hs) hfirst hrest).mp (fun is' hpre => ?_)⟩
        exact h (i :: is') ((List.cons_prefix_cons).mpr ⟨rfl, hpre⟩)
      · intro h is' hpre
        have hfirst := (hiff s i hi hs h0).mpr h.1
        cases is' with
        | nil => exact h0
        | cons j is' =>
            rcases List.cons_prefix_cons.mp hpre with ⟨rfl, htail⟩
            exact (ih (step s j) (hI s j hi hs) hfirst hrest).mpr h.2 is' htail

/-- The same for a relation between an earlier and a later state. -/
theorem forall_prefixes_iff (R : σ → σ → Prop) (hrefl : ∀ s, R s s)
    (htrans : ∀ s t u, R s t → R t u → R s u)
    (hiff : ∀ s i, adm i → I s → (R s (step s i) ↔ ok s i)) (s : σ) (hs : I s) (is : List ι)
    (his : ∀ i ∈ is, adm i) :
    (∀ is₁ is₂, is₁ <+: is₂ → is₂ <+: is → R (after step s is₁) (after step s is₂)) ↔
      ∀ p ∈ history step s is, ok p.1 p.2 := by
  have hreach : ∀ js, js <+: is → I (after step s js) := by
    intro js hjs
    exact after_invariant step adm I hI s hs js (fun i hi => his i (hjs.subset hi))
  constructor
  · intro h p hp
    rcases List.append_of_mem hp with ⟨h₁, h₂, hsplit⟩
    rcases history_before step s is h₁ h₂ p.1 p.2 hsplit with ⟨is₁, is₂, rfl, -, ht⟩
    -- Read the relation over a single step off the two prefixes around it.
    have hstep := h is₁ (is₁ ++ [p.2]) (List.prefix_append _ _)
      ⟨is₂, by rw [List.append_assoc, List.singleton_append]⟩
    rw [after_concat, ← ht] at hstep
    refine (hiff p.1 p.2 ?_ (ht ▸ hreach is₁ (List.prefix_append _ _))).mp hstep
    exact his p.2 (List.mem_append_right _ List.mem_cons_self)
  · intro h is₁ is₂ h₁ h₂
    rcases h₁ with ⟨js, rfl⟩
    rcases h₂ with ⟨ks, rfl⟩
    rw [after_append]
    refine (after_invariant_along step (fun t i => adm i ∧ ok t i)
      (fun t => I t ∧ R (after step s is₁) t) ?_ _
      ⟨hreach is₁ ⟨js ++ ks, (List.append_assoc ..).symm⟩, hrefl _⟩ js (fun p hp => ⟨?_, h p ?_⟩)).2
    · intro t i hok ht
      exact ⟨hI t i hok.1 ht.1, htrans _ _ _ ht.2 ((hiff t i hok.1 ht.1).mpr hok.2)⟩
    · refine his p.2 (List.mem_append_left _ (List.mem_append_right _ ?_))
      exact mem_of_mem_history step _ js p hp
    · rw [history_append, history_append]
      exact List.mem_append_left _ (List.mem_append_right _ hp)

end Along

/-- A machine that drives another: each of its steps is at most one step of the
    other. The steps of the other along a run make a run of its own. -/
theorem history_driven {τ ν : Type*} (step : σ → ι → σ) (advance : τ → ν → τ) (proj : τ → σ)
    (sends : τ → ν → Option ι)
    (hproj : ∀ t k, proj (advance t k) = (sends t k).elim (proj t) (step (proj t))) (t : τ)
    (ks : List ν) :
    ∃ is, (history advance t ks).filterMap (fun p => (sends p.1 p.2).map (proj p.1, ·))
        = history step (proj t) is ∧
      proj (after advance t ks) = after step (proj t) is := by
  induction ks generalizing t with
  | nil => exact ⟨[], rfl, rfl⟩
  | cons k ks ih =>
      rcases ih (advance t k) with ⟨is, hhist, hafter⟩
      have hk := hproj t k
      -- A step that sends nothing leaves the driven machine where it is.
      rcases hs : sends t k with _ | i
      · rw [hs, Option.elim_none] at hk
        refine ⟨is, ?_, ?_⟩
        · rw [history, List.filterMap_cons_none (by rw [hs]; rfl), hhist, hk]
        · rw [after, hafter, hk]
      · rw [hs, Option.elim_some] at hk
        refine ⟨i :: is, ?_, ?_⟩
        · rw [history, List.filterMap_cons_some (b := (proj t, i)) (by rw [hs]; rfl), hhist, hk,
            history]
        · rw [after, hafter, hk, after]

/-! ## Steps that exclude each other -/

section Order

variable {κ : Type*} (step : σ → ι → σ) (P : σ → Prop) (hP : ∀ s i, P s → P (step s i))
include hP

/-- What is spent stays spent, so nothing that needs it happens any more. -/
theorem history_not_of_spent (b : σ × ι → Prop) (spent : σ → Prop)
    (hstable : ∀ s i, P s → spent s → spent (step s i))
    (hneeds : ∀ s i, P s → b (s, i) → ¬ spent s) (s : σ) (h0 : P s) (hs : spent s)
    (is : List ι) : ∀ q ∈ history step s is, ¬ b q := by
  have hboth : ∀ q ∈ history step s is, P q.1 ∧ spent q.1 :=
    history_states step (fun s => P s ∧ spent s)
      (fun s i h => ⟨hP s i h.1, hstable s i h.1 h.2⟩) s ⟨h0, hs⟩ is
  intro q hq hb
  exact hneeds q.1 q.2 (hboth q hq).1 hb (hboth q hq).2

/-- A step of the first kind spends what a step of the second kind needs, so
    none of the second kind follows it. The kinds are families: each member
    spends and needs its own. -/
theorem history_never_after (a b : κ → σ × ι → Prop) (spent : κ → σ → Prop)
    (hstable : ∀ k s i, P s → spent k s → spent k (step s i))
    (hspends : ∀ k s i, P s → a k (s, i) → spent k (step s i))
    (hneeds : ∀ k s i, P s → b k (s, i) → ¬ spent k s) (s : σ) (h0 : P s) (is : List ι) :
    (history step s is).Pairwise fun p q => ∀ k, a k p → ¬ b k q := by
  induction is generalizing s with
  | nil => exact List.Pairwise.nil
  | cons i is ih =>
      refine List.Pairwise.cons (fun q hq k ha => ?_) (ih (step s i) (hP s i h0))
      exact history_not_of_spent step P hP (b k) (spent k) (hstable k) (hneeds k) (step s i)
        (hP s i h0) (hspends k s i h0 ha) is q hq

/-- What was not there at the start was brought about by a step. -/
theorem exists_of_after (a : σ × ι → Prop) (Q : σ → Prop)
    (horigin : ∀ s i, P s → Q (step s i) → Q s ∨ a (s, i)) (s : σ) (h0 : P s) (is : List ι)
    (hq : Q (after step s is)) : Q s ∨ ∃ q ∈ history step s is, a q := by
  induction is generalizing s with
  | nil => exact .inl hq
  | cons i is ih =>
      rcases ih (step s i) (hP s i h0) hq with hq | ⟨q, hqm, ha⟩
      · rcases horigin s i h0 hq with hq | ha
        · exact .inl hq
        · exact .inr ⟨(s, i), List.mem_cons_self, ha⟩
      · exact .inr ⟨q, List.mem_cons_of_mem _ hqm, ha⟩

/-- A step that needs what only steps of another kind bring about comes after
    one of these. -/
theorem history_only_after (a b : σ × ι → Prop) (Q : σ → Prop)
    (horigin : ∀ s i, P s → Q (step s i) → Q s ∨ a (s, i))
    (hneeds : ∀ s i, P s → b (s, i) → Q s) (s : σ) (h0 : P s) (hs : ¬ Q s) (is : List ι)
    (h₁ h₂ : List (σ × ι)) (p : σ × ι) (h : history step s is = h₁ ++ p :: h₂) (hb : b p) :
    ∃ q ∈ h₁, a q := by
  rcases history_before step s is h₁ h₂ p.1 p.2 h with ⟨is₁, is₂, rfl, rfl, ht⟩
  have hmem : p ∈ history step s (is₁ ++ p.2 :: is₂) := by
    rw [h]
    exact List.mem_append_right _ List.mem_cons_self
  have hq := hneeds p.1 p.2 (history_states step P hP s h0 _ p hmem) hb
  rw [ht] at hq
  exact (exists_of_after step P hP a Q horigin s h0 is₁ hq).resolve_left hs

end Order

/-- A kind of steps that excludes itself happens once at most. -/
theorem countP_le_one_of_pairwise {α : Type*} (a : α → Bool) (l : List α)
    (h : l.Pairwise fun p q => a p = true → ¬ a q = true) : l.countP a ≤ 1 := by
  induction l with
  | nil => exact Nat.zero_le 1
  | cons p l ih =>
      rw [List.pairwise_cons] at h
      by_cases hp : a p = true
      · have hnone : l.countP a = 0 := List.countP_eq_zero.mpr (fun q hq => h.1 q hq hp)
        exact Nat.le_of_eq ((List.countP_cons_of_pos hp).trans (congrArg (· + 1) hnone))
      · rw [List.countP_cons_of_neg hp]
        exact ih h.2

end Machine
