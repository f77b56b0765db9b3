import Mathlib.Data.Set.Basic
import Mathlib.Logic.Function.Basic

/-!
# Data-Driven Workflows

The machine a WED-flow is meant to be, with no tables and no tokens. An
instance has a state, a mode, and a set of running triggers, each pending or
locked. Conditions are sets of states; one condition may be final, and every
other condition has triggers attached to it.

An instance moves when somebody writes a new state: at its creation, when a
locked trigger completes, or when it recovers from an exception. What happens
then depends on what is still running, and on the conditions the new state
meets. If nothing is running and no condition is met the instance is stuck,
which is an exception. If the final condition is met the instance ends, and it
may not end while something is running. Otherwise all triggers of the met
conditions that are not running already are launched.

Between two writes the triggers change phase by being locked, by timing out,
and by being aborted.

Everything here is over arbitrary types of states, conditions, triggers and
instance names. The results say what a single step preserves, and
`Performs.invariant` carries that to any sequence of steps of any number of
instances.

## Main definitions

* `Policy`: The conditions, which of them are final, and their triggers.
* `Policy.Valid`: Every condition that is not final has a trigger.
* `Inst`: An instance.
* `settle`: What writing a state leads to, given what still runs.
* `Step`: The steps of one instance.
* `Performs`: A sequence of steps of several instances.
* `Inst.Quiet`: Nothing runs outside the active mode.
* `Inst.Live`: Something runs in the active mode.
* `Inst.Covered`: All triggers of the met conditions run.

## Theorems

* `settle_cases`: The three ways to settle.
* `Step.quiet`, `Step.live`, `Step.live_of_abort`: Steps keep an instance quiet
  and live.
* `Step.covered`, `Step.covered_of_silent`: A write covers, and silent steps
  keep it so.
* `not_step_of_final`: A final instance has no steps.
* `Performs.det`: A sequence leads to one result.
* `Performs.timeouts`: Locked triggers can time out all at once.
* `Performs.invariant`: What every step keeps, every sequence keeps.
-/

namespace Workflow

variable {σ κ τ ω : Type*}

/-- Whether an instance goes on, has ended, or is stuck. -/
inductive Mode where
  | active
  | final
  | exception
deriving DecidableEq, Repr

/-- Whether somebody has taken up a running trigger. -/
inductive Phase where
  | pending
  | locked
deriving DecidableEq, Repr

/-- The conditions a state meets, the final ones, and the triggers of each. -/
structure Policy (σ κ τ : Type*) where
  conds : σ → Set κ
  final : Set κ
  trigs : κ → Set τ

namespace Policy

/-- The state meets a final condition. -/
def Ends (P : Policy σ κ τ) (s : σ) : Prop :=
  ∃ c ∈ P.conds s, c ∈ P.final

/-- The triggers of the conditions a state meets. -/
def fires (P : Policy σ κ τ) (s : σ) : Set τ :=
  {t | ∃ c ∈ P.conds s, t ∈ P.trigs c}

/-- Every condition that can be met and is not final has a trigger. -/
def Valid (P : Policy σ κ τ) : Prop :=
  ∀ s, ∀ c ∈ P.conds s, c ∉ P.final → (P.trigs c).Nonempty

/-- Under a valid policy a state that meets a condition and does not end fires
    something. -/
theorem Valid.fires_nonempty {P : Policy σ κ τ} (hP : P.Valid) {s : σ}
    (hs : (P.conds s).Nonempty) (hend : ¬ P.Ends s) : (P.fires s).Nonempty := by
  rcases hs with ⟨c, hc⟩
  rcases hP s c hc (fun hf => hend ⟨c, hc, hf⟩) with ⟨t, ht⟩
  exact ⟨t, c, hc, ht⟩

end Policy

/-- An instance: its state, its mode, and the triggers that run for it. -/
structure Inst (σ τ : Type*) where
  state : σ
  mode : Mode
  running : τ → Option Phase

/-- What can happen to an instance. -/
inductive Action (σ τ : Type*) where
  | insert (s : σ)
  | complete (t : τ) (s : σ)
  | recover (s : σ)
  | lock (t : τ)
  | timeout (t : τ)
  | abort (t : τ)
deriving DecidableEq

/-- The action writes a new state. -/
def Action.Writes : Action σ τ → Prop
  | .insert _ => True
  | .complete _ _ => True
  | .recover _ => True
  | .lock _ => False
  | .timeout _ => False
  | .abort _ => False

/-- Nothing runs. -/
def Idle (R : τ → Option Phase) : Prop :=
  ∀ t, R t = none

open Classical in
/-- What runs after launching the triggers of the met conditions, those that
    run already left alone. -/
noncomputable def launch (P : Policy σ κ τ) (R : τ → Option Phase) (s : σ) : τ → Option Phase :=
  fun t => if R t = none ∧ t ∈ P.fires s then some .pending else R t

open Classical in
/-- What writing a state leads to while `R` still runs; nothing if the write is
    refused. -/
noncomputable def settle (P : Policy σ κ τ) (R : τ → Option Phase) (s : σ) : Option (Inst σ τ) :=
  if Idle R ∧ P.conds s = ∅ then some ⟨s, .exception, R⟩
  else if P.Ends s then
    if Idle R then some ⟨s, .final, R⟩ else none
  else some ⟨s, .active, launch P R s⟩

/-! ## Settling -/

/-- The three ways to settle. -/
theorem settle_cases (P : Policy σ κ τ) (R : τ → Option Phase) (s : σ) (i : Inst σ τ)
    (h : settle P R s = some i) :
    (i = ⟨s, .exception, R⟩ ∧ Idle R ∧ P.conds s = ∅) ∨
      (i = ⟨s, .final, R⟩ ∧ Idle R ∧ P.Ends s) ∨
      (i = ⟨s, .active, launch P R s⟩ ∧ ¬ P.Ends s ∧ (Idle R → (P.conds s).Nonempty)) := by
  unfold settle at h
  by_cases h1 : Idle R ∧ P.conds s = ∅
  · rw [if_pos h1] at h
    exact .inl ⟨(Option.some.inj h).symm, h1⟩
  · rw [if_neg h1] at h
    by_cases h2 : P.Ends s
    · rw [if_pos h2] at h
      by_cases h3 : Idle R
      · rw [if_pos h3] at h
        exact .inr (.inl ⟨(Option.some.inj h).symm, h3, h2⟩)
      · rw [if_neg h3] at h
        exact absurd h (by simp only [reduceCtorEq, not_false_eq_true])
    · rw [if_neg h2] at h
      refine .inr (.inr ⟨(Option.some.inj h).symm, h2, fun hR => ?_⟩)
      exact Set.nonempty_iff_ne_empty.mpr (fun he => h1 ⟨hR, he⟩)

theorem launch_of_mem {P : Policy σ κ τ} (R : τ → Option Phase) {s : σ} {t : τ}
    (ht : t ∈ P.fires s) : launch P R s t ≠ none := by
  unfold launch
  by_cases hR : R t = none
  · rw [if_pos ⟨hR, ht⟩]
    exact Option.some_ne_none _
  · rw [if_neg (fun h => hR h.1)]
    exact hR

theorem launch_of_running {P : Policy σ κ τ} {R : τ → Option Phase} {t : τ} (s : σ)
    (hR : R t ≠ none) : launch P R s t = R t := by
  unfold launch
  exact if_neg (fun h => hR h.1)

/-! ## Quiet, live and covered -/

/-- Nothing runs for an instance that has ended or is stuck. -/
def Inst.Quiet (i : Inst σ τ) : Prop :=
  i.mode ≠ .active → Idle i.running

/-- Something runs for an active instance. -/
def Inst.Live (i : Inst σ τ) : Prop :=
  i.mode = .active → ∃ t, i.running t ≠ none

/-- Everything the state of an active instance calls for is running. -/
def Inst.Covered (P : Policy σ κ τ) (i : Inst σ τ) : Prop :=
  i.mode = .active → ∀ t ∈ P.fires i.state, i.running t ≠ none

/-- However an instance settles, it is quiet and covered, and live if the
    policy is valid. -/
theorem settle_quiet (P : Policy σ κ τ) (R : τ → Option Phase) (s : σ) (i : Inst σ τ)
    (h : settle P R s = some i) : i.Quiet := by
  intro hm
  rcases settle_cases P R s i h with ⟨rfl, hR, -⟩ | ⟨rfl, hR, -⟩ | ⟨rfl, -, -⟩
  · exact hR
  · exact hR
  · exact absurd rfl hm

theorem settle_covered (P : Policy σ κ τ) (R : τ → Option Phase) (s : σ) (i : Inst σ τ)
    (h : settle P R s = some i) : i.Covered P := by
  intro hm t ht
  rcases settle_cases P R s i h with ⟨rfl, -, -⟩ | ⟨rfl, -, -⟩ | ⟨rfl, -, -⟩
  · exact absurd hm (by simp only [reduceCtorEq, not_false_eq_true])
  · exact absurd hm (by simp only [reduceCtorEq, not_false_eq_true])
  · exact launch_of_mem R ht

theorem settle_live (P : Policy σ κ τ) (hP : P.Valid) (R : τ → Option Phase) (s : σ)
    (i : Inst σ τ) (h : settle P R s = some i) : i.Live := by
  intro hm
  rcases settle_cases P R s i h with ⟨rfl, -, -⟩ | ⟨rfl, -, -⟩ | ⟨rfl, hend, hmet⟩
  · exact absurd hm (by simp only [reduceCtorEq, not_false_eq_true])
  · exact absurd hm (by simp only [reduceCtorEq, not_false_eq_true])
  · by_cases hR : Idle R
    · -- With nothing left the new state has to fire something itself.
      rcases hP.fires_nonempty (hmet hR) hend with ⟨t, ht⟩
      exact ⟨t, launch_of_mem R ht⟩
    · rcases not_forall.mp hR with ⟨t, ht⟩
      exact ⟨t, (launch_of_running s ht).trans_ne ht⟩

/-! ## Steps -/

section Steps

variable [DecidableEq τ] [DecidableEq ω]

/-- What still runs when an action writes a new state. -/
def remaining : Option (Inst σ τ) → Action σ τ → τ → Option Phase
  | some i, .complete t _ => Function.update i.running t none
  | _, _ => fun _ => none

/-- The steps of one instance, from none at all to its last. -/
inductive Step (P : Policy σ κ τ) : Option (Inst σ τ) → Action σ τ → Inst σ τ → Prop where
  | insert (s : σ) (i' : Inst σ τ) (hmet : (P.conds s).Nonempty)
      (hs : settle P (fun _ => none) s = some i') : Step P none (.insert s) i'
  | complete (i : Inst σ τ) (t : τ) (s : σ) (i' : Inst σ τ) (hmode : i.mode = .active)
      (hrun : i.running t = some .locked)
      (hs : settle P (Function.update i.running t none) s = some i') :
      Step P (some i) (.complete t s) i'
  | recover (i : Inst σ τ) (s : σ) (i' : Inst σ τ) (hmode : i.mode = .exception)
      (hs : settle P (fun _ => none) s = some i') : Step P (some i) (.recover s) i'
  | lock (i : Inst σ τ) (t : τ) (hrun : i.running t = some .pending) :
      Step P (some i) (.lock t)
        { i with running := Function.update i.running t (some .locked) }
  | timeout (i : Inst σ τ) (t : τ) (hrun : i.running t = some .locked) :
      Step P (some i) (.timeout t)
        { i with running := Function.update i.running t (some .pending) }
  | abort (i : Inst σ τ) (t : τ) (hrun : i.running t = some .locked) :
      Step P (some i) (.abort t) { i with running := Function.update i.running t none }

/-- A sequence of steps, each of one of the instances. -/
inductive Performs (P : Policy σ κ τ) :
    (ω → Option (Inst σ τ)) → List (ω × Action σ τ) → (ω → Option (Inst σ τ)) → Prop where
  | nil (A : ω → Option (Inst σ τ)) : Performs P A [] A
  | cons (A : ω → Option (Inst σ τ)) (w : ω) (a : Action σ τ) (i : Inst σ τ)
      (l : List (ω × Action σ τ)) (A' : ω → Option (Inst σ τ)) (hstep : Step P (A w) a i)
      (hrest : Performs P (Function.update A w (some i)) l A') : Performs P A ((w, a) :: l) A'

/-- A property of an instance that its steps keep is kept by every sequence of
    steps, whatever the other instances do. -/
theorem Performs.invariant {P : Policy σ κ τ} (ok : Action σ τ → Prop)
    (Q : Option (Inst σ τ) → Prop)
    (hstep : ∀ x a i, ok a → Q x → Step P x a i → Q (some i))
    {A A' : ω → Option (Inst σ τ)} {l : List (ω × Action σ τ)} (h : Performs P A l A') (w : ω)
    (hok : ∀ p ∈ l, p.1 = w → ok p.2) (hQ : Q (A w)) : Q (A' w) := by
  induction h with
  | nil A => exact hQ
  | cons A v a i l A' hs hrest ih =>
      refine ih (fun p hp => hok p (List.mem_cons_of_mem _ hp)) ?_
      by_cases hw : w = v
      · subst hw
        rw [Function.update_self]
        exact hstep _ _ _ (hok _ List.mem_cons_self rfl) hQ hs
      · rw [Function.update_of_ne hw]
        exact hQ

/-- A single step as a sequence. -/
theorem Performs.single {P : Policy σ κ τ} (A : ω → Option (Inst σ τ)) (w : ω) (a : Action σ τ)
    (i : Inst σ τ) (h : Step P (A w) a i) :
    Performs P A [(w, a)] (Function.update A w (some i)) :=
  .cons A w a i [] _ h (.nil _)

/-- A step leads to one result. -/
theorem Step.det {P : Policy σ κ τ} {x : Option (Inst σ τ)} {a : Action σ τ} {i i' : Inst σ τ}
    (h : Step P x a i) (h' : Step P x a i') : i = i' := by
  cases h with
  | insert s i hmet hs =>
      cases h' with
      | insert s i' hmet' hs' => exact Option.some.inj (hs.symm.trans hs')
  | complete i t s i₁ hmode hrun hs =>
      cases h' with
      | complete i t s i' hmode' hrun' hs' => exact Option.some.inj (hs.symm.trans hs')
  | recover i s i₁ hmode hs =>
      cases h' with
      | recover i s i' hmode' hs' => exact Option.some.inj (hs.symm.trans hs')
  | lock i t hrun =>
      cases h' with
      | lock i t hrun' => rfl
  | timeout i t hrun =>
      cases h' with
      | timeout i t hrun' => rfl
  | abort i t hrun =>
      cases h' with
      | abort i t hrun' => rfl

theorem Performs.det {P : Policy σ κ τ} {A A₁ A₂ : ω → Option (Inst σ τ)}
    {l : List (ω × Action σ τ)} (h₁ : Performs P A l A₁) (h₂ : Performs P A l A₂) : A₁ = A₂ := by
  induction h₁ with
  | nil A =>
      cases h₂ with
      | nil A => rfl
  | cons A w a i l A₁ hs hrest ih =>
      cases h₂ with
      | cons A w a i' l A₂ hs' hrest' =>
          rw [hs'.det hs] at hrest'
          exact ih hrest'

/-- Any number of locked triggers can time out one after the other. -/
theorem Performs.timeouts {P : Policy σ κ τ} (l : List (ω × τ)) (A : ω → Option (Inst σ τ))
    (hn : l.Nodup) (hrun : ∀ p ∈ l, ∃ i, A p.1 = some i ∧ i.running p.2 = some .locked) :
    Performs P A (l.map fun p => (p.1, .timeout p.2)) (fun w => (A w).map fun i =>
      { i with running := fun t => if (w, t) ∈ l then some .pending else i.running t }) := by
  induction l generalizing A with
  | nil =>
      simp only [List.map_nil, List.not_mem_nil, if_false, Option.map_id']
      exact .nil A
  | cons p l ih =>
      rcases p with ⟨w, t⟩
      rcases hrun (w, t) List.mem_cons_self with ⟨i, hA, hi⟩
      rw [List.nodup_cons] at hn
      have hstep : Step P (A w) (.timeout t)
          { i with running := Function.update i.running t (some .pending) } := by
        rw [hA]
        exact .timeout i t hi
      refine .cons A w _ _ _ _ hstep ?_
      have hih := ih (Function.update A w
        (some { i with running := Function.update i.running t (some .pending) })) hn.2 ?_
      · -- The first time-out can be done before or together with the others.
        refine (congrArg (Performs P _ _) (funext fun v => ?_)).mp hih
        by_cases hv : v = w
        · rw [hv, Function.update_self, hA]
          simp only [Option.map_some, Option.some.injEq, Inst.mk.injEq, true_and]
          funext u
          by_cases hu : u = t
          · rw [hu, if_neg hn.1, Function.update_self, if_pos List.mem_cons_self]
          · rw [Function.update_of_ne hu]
            simp only [List.mem_cons, Prod.mk.injEq, true_and, hu, false_or]
        · rw [Function.update_of_ne hv]
          simp only [List.mem_cons, Prod.mk.injEq, hv, false_and, false_or]
      · intro q hq
        rcases hrun q (List.mem_cons_of_mem _ hq) with ⟨k, hk, hkr⟩
        by_cases hv : q.1 = w
        · refine ⟨_, by rw [hv, Function.update_self], ?_⟩
          have hqt : q.2 ≠ t := by
            intro ht
            refine hn.1 ?_
            rw [← hv, ← ht]
            exact hq
          rw [hv, hA] at hk
          dsimp only
          rw [Function.update_of_ne hqt, Option.some.inj hk]
          exact hkr
        · exact ⟨k, by rw [Function.update_of_ne hv]; exact hk, hkr⟩

/-- A write settles the instance on what remains. -/
theorem Step.settles {P : Policy σ κ τ} {x : Option (Inst σ τ)} {a : Action σ τ} {i' : Inst σ τ}
    (h : Step P x a i') (ha : a.Writes) : ∃ s, settle P (remaining x a) s = some i' := by
  cases h with
  | insert s i' hmet hs => exact ⟨s, hs⟩
  | complete i t s i' hmode hrun hs => exact ⟨s, hs⟩
  | recover i s i' hmode hs => exact ⟨s, hs⟩
  | lock i t hrun => exact ha.elim
  | timeout i t hrun => exact ha.elim
  | abort i t hrun => exact ha.elim

/-- A step that writes nothing changes the phase of one trigger that runs. -/
theorem Step.silent {P : Policy σ κ τ} {x : Option (Inst σ τ)} {a : Action σ τ} {i' : Inst σ τ}
    (h : Step P x a i') (ha : ¬ a.Writes) :
    ∃ i t p, x = some i ∧ i.running t ≠ none ∧
      i' = { i with running := Function.update i.running t p } ∧ (p = none → a = .abort t) := by
  cases h with
  | insert s i' hmet hs => exact absurd trivial ha
  | complete i t s i' hmode hrun hs => exact absurd trivial ha
  | recover i s i' hmode hs => exact absurd trivial ha
  | lock i t hrun =>
      exact ⟨i, t, _, rfl, by rw [hrun]; exact Option.some_ne_none _, rfl,
        fun h => absurd h (Option.some_ne_none _)⟩
  | timeout i t hrun =>
      exact ⟨i, t, _, rfl, by rw [hrun]; exact Option.some_ne_none _, rfl,
        fun h => absurd h (Option.some_ne_none _)⟩
  | abort i t hrun =>
      exact ⟨i, t, _, rfl, by rw [hrun]; exact Option.some_ne_none _, rfl, fun _ => rfl⟩

/-- Steps keep instances quiet. A silent step is always one of a running
    trigger, and those are in active instances only. -/
theorem Step.quiet {P : Policy σ κ τ} {x : Option (Inst σ τ)} {a : Action σ τ} {i' : Inst σ τ}
    (h : Step P x a i') (hx : ∀ i, x = some i → i.Quiet) : i'.Quiet := by
  by_cases ha : a.Writes
  · rcases h.settles ha with ⟨s, hs⟩
    exact settle_quiet P _ s i' hs
  · rcases h.silent ha with ⟨i, t, p, rfl, hrun, rfl, -⟩
    intro hm
    exact absurd (hx i rfl hm t) hrun

/-- Steps other than aborts keep instances live. -/
theorem Step.live {P : Policy σ κ τ} {x : Option (Inst σ τ)} {a : Action σ τ} {i' : Inst σ τ}
    (h : Step P x a i') (hP : a.Writes → P.Valid) (ha : ∀ t, a ≠ .abort t)
    (hx : ∀ i, x = some i → i.Live) : i'.Live := by
  by_cases hw : a.Writes
  · rcases h.settles hw with ⟨s, hs⟩
    exact settle_live P (hP hw) _ s i' hs
  · rcases h.silent hw with ⟨i, t, p, rfl, hrun, rfl, hp⟩
    intro _
    exact ⟨t, (Function.update_self t p i.running).trans_ne (fun hn => ha t (hp hn))⟩

/-- An abort keeps an instance live if something else is running. -/
theorem Step.live_of_abort {P : Policy σ κ τ} {i i' : Inst σ τ} {t u : τ}
    (h : Step P (some i) (.abort t) i') (hu : u ≠ t) (hrun : i.running u ≠ none) : i'.Live := by
  cases h with
  | abort i t ht =>
      intro _
      exact ⟨u, (Function.update_of_ne hu none i.running).trans_ne hrun⟩

/-- A write covers the new state, whatever was the case before. -/
theorem Step.covered {P : Policy σ κ τ} {x : Option (Inst σ τ)} {a : Action σ τ} {i' : Inst σ τ}
    (h : Step P x a i') (ha : a.Writes) : i'.Covered P := by
  rcases h.settles ha with ⟨s, hs⟩
  exact settle_covered P _ s i' hs

/-- Between two writes only an abort can uncover. -/
theorem Step.covered_of_silent {P : Policy σ κ τ} {x : Option (Inst σ τ)} {a : Action σ τ}
    {i' : Inst σ τ} (h : Step P x a i') (hw : ¬ a.Writes) (ha : ∀ t, a ≠ .abort t)
    (hx : ∀ i, x = some i → i.Covered P) : i'.Covered P := by
  rcases h.silent hw with ⟨i, t, p, rfl, hrun, rfl, hp⟩
  intro hm u hu
  by_cases hut : u = t
  · rw [hut]
    exact (Function.update_self t p i.running).trans_ne (fun hn => ha t (hp hn))
  · exact (Function.update_of_ne hut p i.running).trans_ne (hx i rfl hm u hu)

/-- An instance that has ended does nothing any more. -/
theorem not_step_of_final {P : Policy σ κ τ} {i i' : Inst σ τ} {a : Action σ τ}
    (hm : i.mode = .final) (hq : i.Quiet) : ¬ Step P (some i) a i' := by
  have hidle : Idle i.running := hq (by rw [hm]; simp only [ne_eq, reduceCtorEq, not_false_eq_true])
  intro h
  by_cases ha : a.Writes
  · cases h with
    | complete i t s i' hmode hrun hs =>
        rw [hm] at hmode
        exact absurd hmode (by simp only [reduceCtorEq, not_false_eq_true])
    | recover i s i' hmode hs =>
        rw [hm] at hmode
        exact absurd hmode (by simp only [reduceCtorEq, not_false_eq_true])
    | lock i t hrun => exact ha
    | timeout i t hrun => exact ha
    | abort i t hrun => exact ha
  · rcases h.silent ha with ⟨j, t, p, hj, hrun, -, -⟩
    rw [Option.some.inj hj] at hidle
    exact hrun (hidle t)

end Steps

end Workflow
