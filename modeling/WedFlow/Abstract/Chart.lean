import WedFlow.Abstract.Workflow

/-!
# Charts

Where the instances of a workflow can get to, when it is known what they start
with and what is written for each trigger. A chart has all of this in lists, over
the part of a state that matters, so that it can be computed with. Its nodes are
what can be seen of an instance: that part of its state, its mode, and which
triggers run.

Nodes come in levels. On level `k` are the nodes that instances are at after `k`
writes. Locking a trigger and timing out changes no node, so an instance that has
been written `k` times is on level `k` for good, however the rest of the workflow
goes on (`charted_write`, `charted_silent`). If some level is empty there are no
more writes than that, and what is true of all nodes up to there is true of all
instances; `sweep` goes through them.

Writes that are not in the script of their trigger, recoveries and aborts lead off
the chart.

## Main definitions

* `Chart`: Conditions, triggers, first states and scripts.
* `Node`: What can be seen of an instance.
* `Node.merge`: Nodes without repetition.
* `Chart.settle`, `Chart.enter`, `Chart.next`: Nodes that follow.
* `Chart.level`: The nodes after a number of writes.
* `Chart.sweep`: A check of all levels.
* `Node.Shows`: A node and an instance that is at it.
* `Chart.Describes`: A chart and a policy that it is true of.
* `Chart.Obeys`: A write by the script.
* `Chart.Charted`: An instance that is on its level.

## Theorems

* `settle_shows`: A write that settles is on the chart.
* `settle_ne_none`: And what is refused there is refused.
* `charted_write`: A write leads to the next level.
* `charted_silent`: Nothing else leaves a level.
* `sweep_sound`: What the check says of the levels.
-/

namespace Workflow

variable {σ ρ κ τ : Type*}

/-- The conditions a state meets, the final ones, the triggers of each, the states
    that instances start with, and those that are written for a trigger. -/
structure Chart (ρ κ τ : Type*) where
  conds : ρ → List κ
  final : List κ
  trigs : List (κ × τ)
  starts : List ρ
  script : τ → ρ → List ρ

/-- What can be seen of an instance. -/
structure Node (ρ τ : Type*) where
  state : ρ
  mode : Mode
  running : List τ
deriving DecidableEq, Repr

/-- The instance is at the node; of its state the node has what `π` leaves. -/
structure Node.Shows (π : σ → ρ) (n : Node ρ τ) (i : Inst σ τ) : Prop where
  state : n.state = π i.state
  mode : n.mode = i.mode
  running : ∀ t, t ∈ n.running ↔ i.running t ≠ none

/-- Whether two nodes are the same. They differ in what runs more often than not, so
    that is compared first. -/
def Node.same [DecidableEq ρ] [DecidableEq τ] (m n : Node ρ τ) : Bool :=
  m.running == n.running && m.mode == n.mode && m.state == n.state

/-- Nodes without repetition. -/
def Node.merge [DecidableEq ρ] [DecidableEq τ] : List (Node ρ τ) → List (Node ρ τ)
  | [] => []
  | n :: ns => if ns.any n.same then merge ns else n :: merge ns

theorem Node.eq_of_same [DecidableEq ρ] [DecidableEq τ] {m n : Node ρ τ} (h : m.same n = true) :
    m = n := by
  unfold Node.same at h
  rw [Bool.and_eq_true, Bool.and_eq_true, beq_iff_eq, beq_iff_eq, beq_iff_eq] at h
  rw [Node.mk.injEq]
  exact ⟨h.2, h.1.2, h.1.1⟩

theorem Node.mem_merge [DecidableEq ρ] [DecidableEq τ] (ns : List (Node ρ τ)) (n : Node ρ τ) :
    n ∈ Node.merge ns ↔ n ∈ ns := by
  induction ns with
  | nil => exact Iff.rfl
  | cons m ns ih =>
      rw [Node.merge]
      split
      next hany =>
        rcases List.any_eq_true.mp hany with ⟨m', hm', hsame⟩
        rw [ih, List.mem_cons]
        refine ⟨.inr, fun h => h.elim (fun hn => ?_) id⟩
        rw [hn, Node.eq_of_same hsame]
        exact hm'
      next => rw [List.mem_cons, ih, List.mem_cons]

/-- An instance has the state it settles with. -/
theorem settle_state {P : Policy σ κ τ} {R : τ → Option Phase} {s : σ} {i : Inst σ τ}
    (h : settle P R s = some i) : i.state = s := by
  rcases settle_cases P R s i h with ⟨rfl, -⟩ | ⟨rfl, -⟩ | ⟨rfl, -⟩ <;> rfl

theorem nil_iff_idle {R : List τ} {R' : τ → Option Phase} (hR : ∀ t, t ∈ R ↔ R' t ≠ none) :
    R = [] ↔ Idle R' := by
  rw [List.eq_nil_iff_forall_not_mem]
  exact forall_congr' fun t => (not_congr (hR t)).trans not_not

/-- A write is refused exactly if it would end the instance while something runs. -/
theorem settle_ne_none_iff (P : Policy σ κ τ) (R : τ → Option Phase) (s : σ) :
    settle P R s ≠ none ↔ (P.Ends s → Idle R) := by
  unfold settle
  split
  next h => exact iff_of_true (Option.some_ne_none _) (fun _ => h.1)
  next =>
    split
    next hend =>
      split
      next hR => exact iff_of_true (Option.some_ne_none _) (fun _ => hR)
      next hR => exact iff_of_false (not_not.mpr rfl) (fun h => hR (h hend))
    next hend => exact iff_of_true (Option.some_ne_none _) (fun h => absurd h hend)

/-- What the node shows without the trigger that completes. -/
theorem Node.Shows.without [DecidableEq τ] {π : σ → ρ} {n : Node ρ τ} {i : Inst σ τ}
    (h : n.Shows π i) (t u : τ) :
    u ∈ n.running.filter (· ≠ t) ↔ Function.update i.running t none u ≠ none := by
  rw [List.mem_filter, decide_eq_true_eq, h.running]
  by_cases hu : u = t
  · rw [hu, Function.update_self]
    exact iff_of_false (fun hc => hc.2 rfl) (not_not.mpr rfl)
  · rw [Function.update_of_ne hu]
    exact and_iff_left hu

namespace Chart

/-- What the chart says of the states in `A` is true of the policy. -/
structure Describes (C : Chart ρ κ τ) (P : Policy σ κ τ) (π : σ → ρ) (A : Set σ) : Prop where
  conds : ∀ s ∈ A, ∀ c, c ∈ P.conds s ↔ c ∈ C.conds (π s)
  final : ∀ c, c ∈ P.final ↔ c ∈ C.final
  trigs : ∀ c t, t ∈ P.trigs c ↔ (c, t) ∈ C.trigs

/-- What is written is by the script, and in `A`. -/
def Obeys (C : Chart ρ κ τ) (π : σ → ρ) (A : Set σ) (x : Option (Inst σ τ)) : Action σ τ → Prop
  | .insert s => s ∈ A ∧ π s ∈ C.starts
  | .complete t s => s ∈ A ∧ ∀ i, x = some i → π s ∈ C.script t (π i.state)
  | .recover _ => False
  | .lock _ => True
  | .timeout _ => True
  | .abort _ => False

section Nodes

variable [DecidableEq κ]

/-- The state meets a final condition. -/
def ends (C : Chart ρ κ τ) (u : ρ) : Bool :=
  (C.conds u).any fun c => c ∈ C.final

/-- The triggers of the conditions a state meets. -/
def fires (C : Chart ρ κ τ) (u : ρ) : List τ :=
  (C.trigs.filter fun p => p.1 ∈ C.conds u).map (·.2)

theorem ends_iff {C : Chart ρ κ τ} {P : Policy σ κ τ} {π : σ → ρ} {A : Set σ}
    (h : C.Describes P π A) {s : σ} (hs : s ∈ A) : C.ends (π s) = true ↔ P.Ends s := by
  unfold ends Policy.Ends
  simp only [List.any_eq_true, decide_eq_true_eq, h.conds s hs, h.final]

theorem mem_fires {C : Chart ρ κ τ} {P : Policy σ κ τ} {π : σ → ρ} {A : Set σ}
    (h : C.Describes P π A) {s : σ} (hs : s ∈ A) (t : τ) : t ∈ C.fires (π s) ↔ t ∈ P.fires s := by
  unfold fires Policy.fires
  rw [List.mem_map]
  simp only [List.mem_filter, decide_eq_true_eq]
  change _ ↔ ∃ c ∈ P.conds s, t ∈ P.trigs c
  simp only [h.conds s hs, h.trigs]
  constructor
  · rintro ⟨⟨c, t'⟩, ⟨hmem, hc⟩, rfl⟩
    exact ⟨c, hc, hmem⟩
  · rintro ⟨c, hc, hmem⟩
    exact ⟨(c, t), ⟨hmem, hc⟩, rfl⟩

theorem mem_trigs_of_fires {C : Chart ρ κ τ} {u : ρ} {t : τ} (h : t ∈ C.fires u) :
    t ∈ C.trigs.map (·.2) := by
  rcases List.mem_map.mp h with ⟨p, hp, rfl⟩
  exact List.mem_map_of_mem (List.mem_filter.mp hp).1

variable [DecidableEq τ]

/-- Where a write leads while `R` still runs; nowhere if it is refused. -/
def settle (C : Chart ρ κ τ) (R : List τ) (u : ρ) : Option (Node ρ τ) :=
  if R = [] ∧ C.conds u = [] then some ⟨u, .exception, []⟩
  else if C.ends u then
    if R = [] then some ⟨u, .final, []⟩ else none
  else some ⟨u, .active, (C.trigs.map (·.2)).filter fun t => t ∈ R ∨ t ∈ C.fires u⟩

/-- Where an instance starts, if it is accepted. -/
def enter (C : Chart ρ κ τ) (u : ρ) : Option (Node ρ τ) :=
  if C.conds u = [] then none else C.settle [] u

/-- Where the writes for the triggers that run lead. -/
def next (C : Chart ρ κ τ) (n : Node ρ τ) : List (Node ρ τ) :=
  if n.mode = .active then
    n.running.flatMap fun t =>
      (C.script t n.state).filterMap (C.settle (n.running.filter (· ≠ t)))
  else []

/-- The triggers of a node are on the chart. -/
theorem trigs_of_settle {C : Chart ρ κ τ} {R : List τ} {u : ρ} {n : Node ρ τ}
    (h : C.settle R u = some n) : ∀ t ∈ n.running, t ∈ C.trigs.map (·.2) := by
  have hnil : ∀ t ∈ ([] : List τ), t ∈ C.trigs.map (·.2) := fun t ht => absurd ht List.not_mem_nil
  unfold settle at h
  split at h
  · rw [← Option.some.inj h]
    exact hnil
  · split at h
    · split at h
      · rw [← Option.some.inj h]
        exact hnil
      · exact absurd h.symm (Option.some_ne_none n)
    · rw [← Option.some.inj h]
      exact fun t ht => (List.mem_filter.mp ht).1

/-- A write that settles is on the chart. -/
theorem settle_shows {C : Chart ρ κ τ} {P : Policy σ κ τ} {π : σ → ρ} {A : Set σ}
    (h : C.Describes P π A) {R : List τ} {R' : τ → Option Phase}
    (hR : ∀ t, t ∈ R ↔ R' t ≠ none) (htrigs : ∀ t ∈ R, t ∈ C.trigs.map (·.2)) {s : σ}
    (hs : s ∈ A) {i : Inst σ τ} (hi : Workflow.settle P R' s = some i) :
    ∃ n, C.settle R (π s) = some n ∧ n.Shows π i := by
  have hidle := nil_iff_idle hR
  have hconds : C.conds (π s) = [] ↔ P.conds s = ∅ := by
    rw [List.eq_nil_iff_forall_not_mem, Set.eq_empty_iff_forall_notMem]
    exact forall_congr' fun c => not_congr (h.conds s hs c).symm
  unfold settle
  rcases settle_cases P R' s i hi with ⟨rfl, hR₀, hmet⟩ | ⟨rfl, hR₀, hend⟩ | ⟨rfl, hend, hmet⟩
  · rw [if_pos ⟨hidle.mpr hR₀, hconds.mpr hmet⟩]
    exact ⟨_, rfl, rfl, rfl, fun t => iff_of_false List.not_mem_nil (not_not.mpr (hR₀ t))⟩
  · have hne : ¬ (R = [] ∧ C.conds (π s) = []) := by
      rintro ⟨-, hnone⟩
      rcases hend with ⟨c, hc, -⟩
      exact absurd (hconds.mp hnone ▸ hc) (Set.notMem_empty c)
    rw [if_neg hne, if_pos ((ends_iff h hs).mpr hend), if_pos (hidle.mpr hR₀)]
    exact ⟨_, rfl, rfl, rfl, fun t => iff_of_false List.not_mem_nil (not_not.mpr (hR₀ t))⟩
  · have hne : ¬ (R = [] ∧ C.conds (π s) = []) :=
      fun hc => (hmet (hidle.mp hc.1)).ne_empty (hconds.mp hc.2)
    rw [if_neg hne, if_neg (fun he => hend ((ends_iff h hs).mp he))]
    refine ⟨_, rfl, rfl, rfl, fun t => ?_⟩
    simp only [List.mem_filter, decide_eq_true_eq]
    constructor
    · rintro ⟨-, ht | ht⟩
      · rw [launch_of_running s ((hR t).mp ht)]
        exact (hR t).mp ht
      · exact launch_of_mem R' ((mem_fires h hs t).mp ht)
    · intro ht
      by_cases hrun : R' t = none
      · have hfire : t ∈ P.fires s := by
          by_contra hno
          unfold launch at ht
          rw [if_neg (fun hc => hno hc.2)] at ht
          exact ht hrun
        have hmem := (mem_fires h hs t).mpr hfire
        exact ⟨mem_trigs_of_fires hmem, .inr hmem⟩
      · exact ⟨htrigs t ((hR t).mpr hrun), .inl ((hR t).mpr hrun)⟩

/-- The chart refuses what the policy refuses. -/
theorem settle_ne_none {C : Chart ρ κ τ} {P : Policy σ κ τ} {π : σ → ρ} {A : Set σ}
    (h : C.Describes P π A) {R : List τ} {R' : τ → Option Phase} (hR : ∀ t, t ∈ R ↔ R' t ≠ none)
    {s : σ} (hs : s ∈ A) : C.settle R (π s) ≠ none ↔ Workflow.settle P R' s ≠ none := by
  have hidle := nil_iff_idle hR
  rw [settle_ne_none_iff, ← ends_iff h hs, ← hidle]
  unfold settle
  split
  next hc => exact iff_of_true (Option.some_ne_none _) (fun _ => hc.1)
  next =>
    split
    next hend =>
      split
      next hnil => exact iff_of_true (Option.some_ne_none _) (fun _ => hnil)
      next hnil => exact iff_of_false (not_not.mpr rfl) (fun hc => hnil (hc hend))
    next hend => exact iff_of_true (Option.some_ne_none _) (fun hc => absurd hc hend)

end Nodes

section Levels

variable [DecidableEq κ] [DecidableEq τ] [DecidableEq ρ]

/-- The nodes after `k` writes. Before the first there is no instance. -/
def level (C : Chart ρ κ τ) : Nat → List (Node ρ τ)
  | 0 => []
  | 1 => Node.merge (C.starts.filterMap C.enter)
  | k + 2 => Node.merge ((C.level (k + 1)).flatMap C.next)

/-- The instance is on level `k`, with a state in `A`. -/
def Charted (C : Chart ρ κ τ) (π : σ → ρ) (A : Set σ) (k : Nat) : Option (Inst σ τ) → Prop
  | none => k = 0
  | some i => i.state ∈ A ∧ ∃ n ∈ C.level k, n.Shows π i

theorem trigs_of_level (C : Chart ρ κ τ) (k : Nat) (n : Node ρ τ) (hn : n ∈ C.level k) :
    ∀ t ∈ n.running, t ∈ C.trigs.map (·.2) := by
  cases k with
  | zero => exact absurd hn List.not_mem_nil
  | succ k =>
      cases k with
      | zero =>
          rcases List.mem_filterMap.mp ((Node.mem_merge _ n).mp hn) with ⟨u, -, hent⟩
          unfold enter at hent
          split at hent
          · exact absurd hent.symm (Option.some_ne_none n)
          · exact trigs_of_settle hent
      | succ k =>
          rcases List.mem_flatMap.mp ((Node.mem_merge _ n).mp hn) with ⟨m, -, hnext⟩
          unfold next at hnext
          split at hnext
          · rcases List.mem_flatMap.mp hnext with ⟨t, -, ht⟩
            rcases List.mem_filterMap.mp ht with ⟨u, -, hset⟩
            exact trigs_of_settle hset
          · exact absurd hnext List.not_mem_nil

/-- A write leads to the next level. -/
theorem charted_write {C : Chart ρ κ τ} {P : Policy σ κ τ} {π : σ → ρ} {A : Set σ}
    (h : C.Describes P π A) {k : Nat} {x : Option (Inst σ τ)} {a : Action σ τ} {i : Inst σ τ}
    (hx : C.Charted π A k x) (hob : C.Obeys π A x a) (hw : a.Writes) (hstep : Step P x a i) :
    C.Charted π A (k + 1) (some i) := by
  cases hstep with
  | insert s i hmet hs =>
      have hk : k = 0 := hx
      subst hk
      rcases hob with ⟨hin, hstart⟩
      rcases settle_shows h (R := []) (fun t => iff_of_false List.not_mem_nil (not_not.mpr rfl))
        (fun t ht => absurd ht List.not_mem_nil) hin hs with ⟨n, hn, hshow⟩
      refine ⟨settle_state hs ▸ hin, n, (Node.mem_merge _ n).mpr (List.mem_filterMap.mpr ⟨π s, hstart, ?_⟩),
        hshow⟩
      rcases hmet with ⟨c, hc⟩
      unfold enter
      rw [if_neg (List.ne_nil_of_mem ((h.conds s hin c).mp hc)), hn]
  | complete i₀ t s i hmode hrun hs =>
      rcases hx with ⟨-, m, hm, hshow⟩
      have hscript : π s ∈ C.script t m.state := by
        rw [hshow.state]
        exact hob.2 i₀ rfl
      have hmem : t ∈ m.running := by
        rw [hshow.running, hrun]
        exact Option.some_ne_none _
      rcases settle_shows h (hshow.without t) (fun u hu => trigs_of_level C k m hm u (List.mem_filter.mp hu).1)
        hob.1 hs with ⟨n, hn, hshow'⟩
      cases k with
      | zero => exact absurd hm List.not_mem_nil
      | succ k =>
          refine ⟨settle_state hs ▸ hob.1, n,
            (Node.mem_merge _ n).mpr (List.mem_flatMap.mpr ⟨m, hm, ?_⟩), hshow'⟩
          unfold next
          rw [if_pos (hshow.mode.trans hmode)]
          exact List.mem_flatMap.mpr ⟨t, hmem, List.mem_filterMap.mpr ⟨π s, hscript, hn⟩⟩
  | recover i₀ s i hmode hs => exact hob.elim
  | lock i t hrun => exact hw.elim
  | timeout i t hrun => exact hw.elim
  | abort i t hrun => exact hw.elim

/-- A change of what runs that takes no trigger away and adds none. -/
theorem Charted.of_running {C : Chart ρ κ τ} {π : σ → ρ} {A : Set σ} {k : Nat} {i : Inst σ τ}
    (hx : C.Charted π A k (some i)) {R : τ → Option Phase}
    (hR : ∀ t, R t = none ↔ i.running t = none) :
    C.Charted π A k (some { i with running := R }) := by
  rcases hx with ⟨hin, n, hn, hshow⟩
  exact ⟨hin, n, hn, hshow.state, hshow.mode, fun t => (hshow.running t).trans (not_congr (hR t)).symm⟩

/-- A step that writes nothing and aborts nothing leaves an instance on its
    level. -/
theorem charted_silent {C : Chart ρ κ τ} {P : Policy σ κ τ} {π : σ → ρ} {A : Set σ} {k : Nat}
    {x : Option (Inst σ τ)} {a : Action σ τ} {i : Inst σ τ} (hx : C.Charted π A k x)
    (hw : ¬ a.Writes) (ha : ∀ t, a ≠ .abort t) (hstep : Step P x a i) : C.Charted π A k (some i) := by
  rcases hstep.silent hw with ⟨j, t, p, rfl, hrun, rfl, hp⟩
  refine hx.of_running (fun u => ?_)
  by_cases hu : u = t
  · rw [hu, Function.update_self]
    exact iff_of_false (fun hn => ha t (hp hn)) hrun
  · rw [Function.update_of_ne hu]

/-! ## Sweeping -/

/-- All nodes of `K` levels pass, each with the number of levels that are left, and
    then there are none. -/
def sweep (C : Chart ρ κ τ) (ok : Nat → Node ρ τ → Bool) : Nat → List (Node ρ τ) → Bool
  | 0, ns => ns.isEmpty
  | k + 1, ns => ns.all (ok k) && C.sweep ok k (Node.merge (ns.flatMap C.next))

theorem level_of_sweep {C : Chart ρ κ τ} {ok : Nat → Node ρ τ → Bool} (K j : Nat)
    (h : C.sweep ok K (C.level (j + 1)) = true) (k : Nat) :
    ∀ n ∈ C.level (j + 1 + k), k < K ∧ ok (K - (k + 1)) n = true := by
  induction K generalizing j k with
  | zero =>
      have hnil : C.level (j + 1) = [] := List.isEmpty_iff.mp h
      have hempty : ∀ k, C.level (j + 1 + k) = [] := by
        intro k
        induction k with
        | zero => exact hnil
        | succ k ih =>
            rw [show j + 1 + (k + 1) = j + k + 2 by omega, level, show j + k + 1 = j + 1 + k by omega, ih]
            rfl
      intro n hn
      rw [hempty k] at hn
      exact absurd hn List.not_mem_nil
  | succ K ih =>
      rw [sweep, Bool.and_eq_true, List.all_eq_true] at h
      cases k with
      | zero => exact fun n hn => ⟨Nat.zero_lt_succ K, h.1 n hn⟩
      | succ k =>
          intro n hn
          have hrest := ih (j + 1) h.2 k n (by rwa [show j + 1 + 1 + k = j + 1 + (k + 1) by omega])
          refine ⟨Nat.succ_lt_succ hrest.1, ?_⟩
          rw [Nat.add_sub_add_right]
          exact hrest.2

/-- What the check says: there are no more than `K` writes, and every instance is at
    a node that passes. -/
theorem sweep_sound {C : Chart ρ κ τ} {ok : Nat → Node ρ τ → Bool} {K : Nat}
    (h : C.sweep ok K (C.level 1) = true) {π : σ → ρ} {A : Set σ} {k : Nat} {x : Option (Inst σ τ)}
    (hx : C.Charted π A k x) :
    k ≤ K ∧ ∀ i, x = some i → i.state ∈ A ∧ ∃ n, ok (K - k) n = true ∧ n.Shows π i := by
  cases x with
  | none =>
      have hk : k = 0 := hx
      exact ⟨hk ▸ Nat.zero_le K, fun i hi => absurd hi.symm (Option.some_ne_none i)⟩
  | some i =>
      rcases hx with ⟨hin, n, hn, hshow⟩
      cases k with
      | zero => exact absurd hn List.not_mem_nil
      | succ k =>
          rcases level_of_sweep K 0 h k n (by rwa [Nat.zero_add, Nat.add_comm]) with ⟨hk, hok⟩
          refine ⟨hk, fun j hj => ?_⟩
          rw [← Option.some.inj hj]
          exact ⟨hin, n, hok, hshow⟩

end Levels

end Chart

end Workflow
