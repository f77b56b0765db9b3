import Mathlib.Algebra.Order.Group.Nat
import Mathlib.Data.List.Infix
import WedFlow.Abstract.Workflow

/-!
# The Books of a Workflow

Every write of an instance leaves a record: the trigger it completes, the
triggers it launches, and the mode it ends in. The records of an instance, in
the order they were made, are its books.

The books balance. A trigger that was launched once more often than it was
completed is running, and every other trigger was completed as often as it was
launched, and does not run. A step that writes nothing does not touch the books
and, unless it is an abort, does not change what runs. With aborts a trigger may
have been launched and never completed, and only the inequality is left.

The books also have a shape, which is `WellFormed`. A record names no trigger
exactly if it is the first or follows an exception, nothing follows a record of
a final state, an exception launches nothing, and a trigger is never completed
more often than it was launched before.

`Keeps` says what has to be shown of a property of an instance and its books
for it to hold as long as the instance lives.

## Main definitions

* `Record`: What a write leaves in the books.
* `record`: The record of a step.
* `launches`, `completions`: How often the books name a trigger.
* `busy`: One if a trigger runs, zero otherwise.
* `Keeps`: A property every step keeps.
* `Balanced`: The books account for what runs.
* `Accounted`: The same beside an account of the runs that were aborted.
* `Follows`: A record that may follow others.
* `WellFormed`: Every record follows those before it.
* `Ordered`: Books that are well formed and agree with the instance.

## Theorems

* `busy_write`: What a write does to the triggers that run.
* `balanced_keeps`: Books without aborts balance.
* `accounted_keeps`, `Accounted.abort`: With them they do too, once those are
  counted.
* `ordered_keeps`: All books are well formed.
-/

namespace Workflow

variable {σ κ τ : Type*}

/-- What a write leaves in the books. -/
structure Record (τ : Type*) where
  wrote : Option τ
  fired : Set τ
  mode : Mode

/-- The trigger an action completes. -/
def Action.completes : Action σ τ → Option τ
  | .complete t _ => some t
  | _ => none

open Classical in
/-- How often a trigger was launched. -/
noncomputable def launches (h : List (Record τ)) (t : τ) : Nat :=
  h.countP fun r => decide (t ∈ r.fired)

/-- One if the trigger runs. -/
def busy (R : τ → Option Phase) (t : τ) : Nat :=
  if R t = none then 0 else 1

/-- One if the trigger runs for the instance, if there is one. -/
def busyAt (x : Option (Inst σ τ)) (t : τ) : Nat :=
  x.elim 0 fun i => busy i.running t

/-! ## What runs -/

open Classical in
theorem launches_concat (h : List (Record τ)) (r : Record τ) (t : τ) :
    launches (h ++ [r]) t = launches h t + if t ∈ r.fired then 1 else 0 := by
  unfold launches
  rw [List.countP_append, List.countP_singleton]
  by_cases ht : t ∈ r.fired
  · rw [if_pos ht, if_pos (decide_eq_true ht)]
  · rw [if_neg ht, if_neg (by simpa only [decide_eq_true_eq] using ht)]

theorem busy_of_idle {R : τ → Option Phase} {t : τ} (h : R t = none) : busy R t = 0 :=
  if_pos h

theorem busy_of_running {R : τ → Option Phase} {t : τ} (h : R t ≠ none) : busy R t = 1 :=
  if_neg h

theorem busy_congr {R R' : τ → Option Phase} {t : τ} (h : R t = R' t) : busy R t = busy R' t := by
  unfold busy
  rw [h]

/-- What remains when a write settles goes on running. -/
theorem settle_running {P : Policy σ κ τ} {R : τ → Option Phase} {s : σ} {i : Inst σ τ}
    (h : settle P R s = some i) {t : τ} (ht : R t ≠ none) : i.running t ≠ none := by
  rcases settle_cases P R s i h with ⟨rfl, -⟩ | ⟨rfl, -⟩ | ⟨rfl, -⟩
  · exact ht
  · exact ht
  · exact (launch_of_running s ht).trans_ne ht

theorem busyAt_le_one (x : Option (Inst σ τ)) (t : τ) : busyAt x t ≤ 1 := by
  cases x with
  | none => exact Nat.zero_le 1
  | some i =>
      change (if i.running t = none then 0 else 1) ≤ 1
      split
      · exact Nat.zero_le 1
      · exact Nat.le_refl 1

theorem busyAt_restate (x : Option (Inst σ τ)) (f : σ → σ) (t : τ) :
    busyAt (x.map fun i => { i with state := f i.state }) t = busyAt x t := by
  cases x with
  | none => rfl
  | some i => rfl

theorem quiet_restate {x : Option (Inst σ τ)} (hx : ∀ i, x = some i → i.Quiet) (f : σ → σ) :
    ∀ i, (x.map fun i => { i with state := f i.state }) = some i → i.Quiet := by
  intro i hi
  rcases Option.map_eq_some_iff.mp hi with ⟨k, hk, rfl⟩
  exact hx k hk

section Books

variable [DecidableEq τ]

/-- How often a trigger was completed. -/
def completions (h : List (Record τ)) (t : τ) : Nat :=
  h.countP fun r => decide (r.wrote = some t)

/-- The record of a step: what runs after it and did not remain from before was
    launched. -/
def record (x : Option (Inst σ τ)) (a : Action σ τ) (i : Inst σ τ) : Record τ where
  wrote := a.completes
  fired := {t | i.running t ≠ none ∧ remaining x a t = none}
  mode := i.mode

/-- A property of an instance and its books that steps keep. States are not in
    the books, so it must not depend on them. -/
structure Keeps (ok : Action σ τ → Prop) (Q : Option (Inst σ τ) → List (Record τ) → Prop) :
    Prop where
  silent : ∀ {κ : Type} (P : Policy σ κ τ) x a i h, ok a → ¬ a.Writes → Step P x a i → Q x h →
    Q (some i) h
  write : ∀ {κ : Type} (P : Policy σ κ τ) x a i h, ok a → a.Writes → Step P x a i → Q x h →
    Q (some i) (h ++ [record x a i])
  restate : ∀ x h (f : σ → σ), Q x h → Q (x.map fun i => { i with state := f i.state }) h

theorem completions_concat (h : List (Record τ)) (r : Record τ) (t : τ) :
    completions (h ++ [r]) t = completions h t + if r.wrote = some t then 1 else 0 := by
  unfold completions
  rw [List.countP_append, List.countP_singleton]
  by_cases ht : r.wrote = some t
  · rw [if_pos ht, if_pos (decide_eq_true ht)]
  · rw [if_neg ht, if_neg (by simpa only [decide_eq_true_eq] using ht)]

/-- What ran before a write either remains or is what the write completes. -/
theorem busyAt_remaining {P : Policy σ κ τ} {x : Option (Inst σ τ)} {a : Action σ τ} {i : Inst σ τ}
    (h : Step P x a i) (ha : a.Writes) (hx : ∀ i, x = some i → i.Quiet) (t : τ) :
    busyAt x t = busy (remaining x a) t + if a.completes = some t then 1 else 0 := by
  cases h with
  | insert s i hmet hs => rfl
  | complete i g s i' hmode hrun hs =>
      change busy i.running t = busy (Function.update i.running g none) t
        + if some g = some t then 1 else 0
      by_cases ht : t = g
      · rw [ht, busy_of_running (by rw [hrun]; exact Option.some_ne_none _),
          busy_of_idle (Function.update_self _ _ _), if_pos rfl]
      · rw [busy_congr (Function.update_of_ne ht none i.running),
          if_neg (fun he => ht (Option.some.inj he).symm), Nat.add_zero]
  | recover i s i' hmode hs =>
      have hidle := hx i rfl (by rw [hmode]; exact fun hc => Mode.noConfusion hc) t
      exact busy_of_idle hidle
  | lock i t hrun => exact ha.elim
  | timeout i t hrun => exact ha.elim
  | abort i t hrun => exact ha.elim

open Classical in
/-- What runs after a write remained or was launched. -/
theorem busy_write {P : Policy σ κ τ} {x : Option (Inst σ τ)} {a : Action σ τ} {i : Inst σ τ}
    (h : Step P x a i) (ha : a.Writes) (t : τ) :
    busy i.running t
      = busy (remaining x a) t + if t ∈ (record x a i).fired then 1 else 0 := by
  rcases h.settles ha with ⟨s, hs⟩
  by_cases hR : remaining x a t = none
  · by_cases hi : i.running t = none
    · rw [busy_of_idle hi, busy_of_idle hR, if_neg (fun hf => hf.1 hi)]
    · rw [busy_of_running hi, busy_of_idle hR, if_pos ⟨hi, hR⟩]
  · rw [busy_of_running (settle_running hs hR), busy_of_running hR, if_neg (fun hf => hR hf.2)]

/-- A silent step starts nothing, and stops nothing unless it is an abort. -/
theorem busyAt_silent {P : Policy σ κ τ} {x : Option (Inst σ τ)} {a : Action σ τ} {i : Inst σ τ}
    (h : Step P x a i) (hw : ¬ a.Writes) (t : τ) :
    busyAt (some i) t ≤ busyAt x t ∧
      ((∀ g, a ≠ .abort g) → busyAt (some i) t = busyAt x t) := by
  rcases h.silent hw with ⟨i₀, g, p, rfl, hrun, rfl, hp⟩
  change busy (Function.update i₀.running g p) t ≤ busy i₀.running t ∧
    ((∀ g, a ≠ .abort g) → busy (Function.update i₀.running g p) t = busy i₀.running t)
  by_cases ht : t = g
  · rw [ht, busy_of_running hrun]
    constructor
    · unfold busy
      split
      · exact Nat.zero_le 1
      · exact Nat.le_refl 1
    · intro ha
      refine busy_of_running ?_
      rw [Function.update_self]
      exact fun hn => ha g (hp hn)
  · rw [busy_congr (Function.update_of_ne ht p i₀.running)]
    exact ⟨Nat.le_refl _, fun _ => rfl⟩

theorem quiet_some {P : Policy σ κ τ} {x : Option (Inst σ τ)} {a : Action σ τ} {i : Inst σ τ}
    (h : Step P x a i) (hx : ∀ i, x = some i → i.Quiet) : ∀ k, some i = some k → k.Quiet := by
  intro k hk
  rw [← Option.some.inj hk]
  exact h.quiet hx

/-! ## Balance -/

/-- The books account for what runs. -/
def Balanced (x : Option (Inst σ τ)) (h : List (Record τ)) : Prop :=
  (∀ i, x = some i → i.Quiet) ∧ (∀ t, launches h t = completions h t + busyAt x t) ∧
    ∀ p, p <+: h → ∀ t, completions p t ≤ launches p t ∧ launches p t ≤ completions p t + 1

/-- A write adds to the books what it adds to the running triggers, and takes
    from both what it completes. -/
theorem launches_write {P : Policy σ κ τ} {x : Option (Inst σ τ)} {a : Action σ τ} {i : Inst σ τ}
    {h : List (Record τ)} (hs : Step P x a i) (ha : a.Writes) (hq : ∀ i, x = some i → i.Quiet)
    (t : τ) :
    launches (h ++ [record x a i]) t + completions h t + busyAt x t
      = launches h t + completions (h ++ [record x a i]) t + busyAt (some i) t := by
  classical
  have hrem := busyAt_remaining hs ha hq t
  have hrun : busyAt (some i) t = _ := busy_write hs ha t
  have hwrote : (record x a i).wrote = a.completes := rfl
  rw [launches_concat, completions_concat, hrem, hrun, hwrote]
  omega

/-- Without aborts the books balance. -/
theorem balanced_keeps : Keeps (fun a : Action σ τ => ∀ g, a ≠ .abort g) Balanced where
  silent P x a i h hok hw hs hQ := by
    refine ⟨quiet_some hs hQ.1, fun t => ?_, hQ.2.2⟩
    rw [(busyAt_silent hs hw t).2 hok]
    exact hQ.2.1 t
  write P x a i h hok hw hs hQ := by
    have hbal : ∀ t, launches (h ++ [record x a i]) t
        = completions (h ++ [record x a i]) t + busyAt (some i) t := by
      intro t
      have hwrite := launches_write (h := h) hs hw hQ.1 t
      have hold := hQ.2.1 t
      omega
    refine ⟨quiet_some hs hQ.1, hbal, fun p hp t => ?_⟩
    -- A prefix is one of the old books or the new books as a whole.
    rcases List.prefix_concat_iff.mp hp with rfl | hp
    · have hle := busyAt_le_one (some i) t
      have hnew := hbal t
      omega
    · exact hQ.2.2 p hp t
  restate x h f hQ := by
    refine ⟨quiet_restate hQ.1 f, fun t => ?_, hQ.2.2⟩
    rw [busyAt_restate]
    exact hQ.2.1 t

/-! ## Accounts -/

/-- With the runs that were aborted written down beside them, the books account for
    what runs. -/
def Accounted (lost : τ → Nat) (x : Option (Inst σ τ)) (h : List (Record τ)) : Prop :=
  (∀ i, x = some i → i.Quiet) ∧ ∀ t, launches h t = completions h t + busyAt x t + lost t

/-- The account of the aborted runs is not touched by other steps. -/
theorem accounted_keeps (lost : τ → Nat) :
    Keeps (fun a : Action σ τ => ∀ g, a ≠ .abort g) (Accounted lost) where
  silent P x a i h hok hw hs hQ := by
    refine ⟨quiet_some hs hQ.1, fun t => ?_⟩
    rw [(busyAt_silent hs hw t).2 hok]
    exact hQ.2 t
  write P x a i h hok hw hs hQ := by
    refine ⟨quiet_some hs hQ.1, fun t => ?_⟩
    have hwrite := launches_write (h := h) hs hw hQ.1 t
    have hold := hQ.2 t
    omega
  restate x h f hQ := by
    refine ⟨quiet_restate hQ.1 f, fun t => ?_⟩
    rw [busyAt_restate]
    exact hQ.2 t

/-- An abort moves one run from what runs to what was aborted. -/
theorem Accounted.abort {P : Policy σ κ τ} {x : Option (Inst σ τ)} {g : τ} {i : Inst σ τ}
    {lost lost' : τ → Nat} {h : List (Record τ)} (hs : Step P x (.abort g) i)
    (hlost : ∀ t, lost' t = lost t + if t = g then 1 else 0) (hQ : Accounted lost x h) :
    Accounted lost' (some i) h := by
  refine ⟨quiet_some hs hQ.1, fun t => ?_⟩
  have hold := hQ.2 t
  rw [hlost t]
  cases hs with
  | abort i₀ g hrun =>
      have hbefore : busyAt (some i₀) t = busy i₀.running t := rfl
      change launches h t = completions h t + busy (Function.update i₀.running g none) t + _
      by_cases ht : t = g
      · subst ht
        have hran : busy i₀.running t = 1 := busy_of_running (by rw [hrun]; exact Option.some_ne_none _)
        rw [if_pos rfl, busy_of_idle (Function.update_self _ _ _)]
        omega
      · rw [if_neg ht, busy_congr (Function.update_of_ne ht none i₀.running)]
        omega

/-! ## Order -/

/-- The last record is one of an exception. -/
def Excepted (h : List (Record τ)) : Prop :=
  ∃ l, h.getLast? = some l ∧ l.mode = .exception

/-- The record may follow the others. -/
structure Follows (h : List (Record τ)) (r : Record τ) : Prop where
  wrote : r.wrote = none ↔ h = [] ∨ Excepted h
  unended : ∀ l, h.getLast? = some l → l.mode ≠ .final
  excpt : r.mode = .exception → r.fired = ∅ ∧ h ≠ []
  launched : ∀ t, r.wrote = some t → completions h t + 1 ≤ launches h t

/-- Every record follows those before it. -/
def WellFormed (h : List (Record τ)) : Prop :=
  ∀ p r q, h = p ++ r :: q → Follows p r

theorem wellFormed_concat {h : List (Record τ)} {r : Record τ} (hw : WellFormed h)
    (hr : Follows h r) : WellFormed (h ++ [r]) := by
  intro p r' q he
  rcases List.eq_nil_or_concat q with rfl | ⟨q, last, rfl⟩
  · rcases List.append_inj' he rfl with ⟨rfl, hlast⟩
    rw [← List.singleton_inj.mp hlast]
    exact hr
  · rw [List.concat_eq_append, ← List.cons_append, ← List.append_assoc] at he
    rcases List.append_inj' he rfl with ⟨hpre, -⟩
    exact hw p r' q hpre

/-- The books are in order: they begin with the instance, their last record has
    its mode, and no trigger runs or was completed that was not launched. -/
structure Ordered (x : Option (Inst σ τ)) (h : List (Record τ)) : Prop where
  quiet : ∀ i, x = some i → i.Quiet
  none_iff : x = none ↔ h = []
  last : ∀ i, x = some i → ∃ l, h.getLast? = some l ∧ l.mode = i.mode
  owed : ∀ t, completions h t + busyAt x t ≤ launches h t
  wellFormed : WellFormed h

/-- A write may follow the books of its instance. -/
theorem Ordered.follows {P : Policy σ κ τ} {x : Option (Inst σ τ)} {a : Action σ τ} {i : Inst σ τ}
    {h : List (Record τ)} (ho : Ordered x h) (hs : Step P x a i) (ha : a.Writes) :
    Follows h (record x a i) := by
  -- An exception is settled with nothing to launch.
  have hexc : i.mode = .exception → (record x a i).fired = ∅ := by
    intro hm
    rcases hs.settles ha with ⟨s, hset⟩
    rcases settle_cases P _ s i hset with ⟨rfl, -⟩ | ⟨rfl, -⟩ | ⟨rfl, -⟩
    · exact Set.eq_empty_iff_forall_notMem.mpr (fun t ht => ht.1 ht.2)
    · exact Mode.noConfusion hm
    · exact Mode.noConfusion hm
  cases hs with
  | insert s i hmet hset =>
      have hnil := ho.none_iff.mp rfl
      refine ⟨⟨fun _ => .inl hnil, fun _ => rfl⟩, ?_, ?_, fun t ht => absurd ht (Option.some_ne_none t).symm⟩
      · intro l hl
        rw [hnil] at hl
        exact absurd hl (by simp only [List.getLast?_nil, reduceCtorEq, not_false_eq_true])
      · -- The first state meets a condition, so it is no exception.
        intro hm
        rcases settle_cases P _ s i hset with ⟨rfl, -, hempty⟩ | ⟨rfl, -⟩ | ⟨rfl, -⟩
        · exact absurd hempty (Set.nonempty_iff_ne_empty.mp hmet)
        · exact Mode.noConfusion hm
        · exact Mode.noConfusion hm
  | complete i₀ g s i hmode hrun hset =>
      rcases ho.last i₀ rfl with ⟨l, hl, hlm⟩
      have hne : h ≠ [] := fun hnil => Option.some_ne_none _ (ho.none_iff.mpr hnil)
      refine ⟨⟨fun hc => absurd hc (Option.some_ne_none g), ?_⟩, ?_, fun hm => ⟨hexc hm, hne⟩, ?_⟩
      · intro hc
        rcases hc with hnil | ⟨l', hl', hx⟩
        · exact absurd hnil hne
        · rw [Option.some.inj (hl.symm.trans hl'), hx] at hlm
          exact Mode.noConfusion (hlm.trans hmode)
      · intro l' hl' hf
        rw [Option.some.inj (hl.symm.trans hl'), hf] at hlm
        exact Mode.noConfusion (hlm.trans hmode)
      · intro t ht
        have howed := ho.owed t
        -- The trigger that completes still runs, and what runs is owed to the books.
        have hbusy : busyAt (some i₀) t = 1 := by
          rw [← Option.some.inj ht]
          refine busy_of_running ?_
          rw [hrun]
          exact Option.some_ne_none _
        omega
  | recover i₀ s i hmode hset =>
      rcases ho.last i₀ rfl with ⟨l, hl, hlm⟩
      have hne : h ≠ [] := fun hnil => Option.some_ne_none _ (ho.none_iff.mpr hnil)
      refine ⟨⟨fun _ => .inr ⟨l, hl, hlm.trans hmode⟩, fun _ => rfl⟩, ?_,
        fun hm => ⟨hexc hm, hne⟩, fun t ht => absurd ht (Option.some_ne_none t).symm⟩
      intro l' hl' hf
      rw [Option.some.inj (hl.symm.trans hl'), hf] at hlm
      exact Mode.noConfusion (hlm.trans hmode)
  | lock i t hrun => exact ha.elim
  | timeout i t hrun => exact ha.elim
  | abort i t hrun => exact ha.elim

/-- The books stay in order, aborts or not. -/
theorem ordered_keeps : Keeps (fun _ : Action σ τ => True) Ordered where
  silent P x a i h _ hw hs hQ := by
    rcases hs.silent hw with ⟨i₀, g, p, hx, -, hi, -⟩
    refine ⟨quiet_some hs hQ.quiet, ⟨fun hc => absurd hc (Option.some_ne_none i), fun hnil => ?_⟩, ?_,
      fun t => ?_, hQ.wellFormed⟩
    · exact absurd (hx.symm.trans (hQ.none_iff.mpr hnil)) (Option.some_ne_none i₀)
    · intro k hk
      rw [← Option.some.inj hk, hi]
      exact hQ.last i₀ hx
    · exact (Nat.add_le_add_left (busyAt_silent hs hw t).1 _).trans (hQ.owed t)
  write P x a i h _ hw hs hQ := by
    refine ⟨quiet_some hs hQ.quiet, ⟨fun hc => absurd hc (Option.some_ne_none i), fun hnil => ?_⟩, ?_,
      fun t => ?_, wellFormed_concat hQ.wellFormed (hQ.follows hs hw)⟩
    · exact absurd hnil (List.append_ne_nil_of_right_ne_nil _ (List.cons_ne_nil _ _))
    · intro k hk
      refine ⟨record x a i, List.getLast?_concat, ?_⟩
      rw [← Option.some.inj hk]
      rfl
    · have hwrite := launches_write (h := h) hs hw hQ.quiet t
      have howed := hQ.owed t
      omega
  restate x h f hQ := by
    refine ⟨quiet_restate hQ.quiet f, ?_, ?_, fun t => ?_, hQ.wellFormed⟩
    · rw [Option.map_eq_none_iff]
      exact hQ.none_iff
    · intro k hk
      rcases Option.map_eq_some_iff.mp hk with ⟨i, hi, rfl⟩
      exact hQ.last i hi
    · rw [busyAt_restate]
      exact hQ.owed t

end Books

end Workflow
