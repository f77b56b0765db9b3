import Mathlib.Data.List.Nodup

/-!
# Tables as Lists of Rows

The relational operations the engine is written in, over an arbitrary row
type. A table is a list of rows in insertion order. `INSERT` appends, `UPDATE
... WHERE` rewrites in place, and a `BEFORE UPDATE ... FOR EACH ROW` trigger
sits between the row an update would write and the row that is written: it may
replace it, skip it, or raise.

A unique index is `Unique key t`: no two rows share a key. Under it an update
that selects by key touches at most one row, and `updateTriggered_unique` says
what becomes of that row without mentioning the loop over the table. For any
other selection there is `updateTriggered_rows`. These are the only forms in
which the callers ever use the loop.

## Main definitions

* `updateWhere`: Rewriting the rows a condition selects.
* `updateTriggered`: The same, through a row trigger that can skip or raise.
* `Unique`: No two rows of a table share a key.

## Theorems

* `bind_eq_ok`: A sequence of fallible steps succeeds through its first.
* `guard_eq_ok`, `check_eq_ok`, `require_eq_ok`: A check that raises was passed.
* `mem_updateWhere`: The rows of an updated table.
* `map_updateWhere`: An update that keeps a column keeps its list of values.
* `updateWhere_of_forall_not`: Updating no row changes nothing.
* `Unique.eq_of_mem`: Rows with one key are one row.
* `Unique.find_eq_some_iff`: Looking up a unique key.
* `filter_updateWhere_of_not`, `find_updateWhere_of_not`: An update a selection
  or a search does not see.
* `Unique.filter_updateWhere`: Writing the row with a key leaves one such row.
* `Unique.append`: Appending rows with new keys keeps the index.
* `Unique.updateWhere_key`: Changing one key to a new one keeps the index.
* `updateTriggered_plain`: Without a trigger the update always goes through.
* `updateTriggered_unique`: An update by key through a trigger.
* `updateTriggered_rows`: Any update through a trigger, row by row.
* `exists_of_forall₂`, `map_of_forall₂`: Rows and columns of tables that agree
  row by row.
* `nodup_rename`: Renaming to a new name keeps names apart.
* `lookup_of_mem`, `lookup_perm`: Looking up one of several named values.
-/

namespace Table

universe u

variable {ρ κ ε : Type*} {α β : Type u}

/-- A sequence of two fallible steps succeeds exactly through its first. -/
theorem bind_eq_ok (x : Except ε α) (f : α → Except ε β) (b : β) :
    (x >>= f) = Except.ok b ↔ ∃ a, x = Except.ok a ∧ f a = Except.ok b := by
  cases x with
  | error e => simp only [bind, Except.bind, reduceCtorEq, false_and, exists_false]
  | ok a =>
      simp only [bind, Except.bind, Except.ok.injEq]
      constructor
      · intro h
        exact ⟨a, rfl, h⟩
      · rintro ⟨a', rfl, h⟩
        exact h

theorem map_eq_ok (x : Except ε α) (f : α → β) (b : β) :
    x.map f = Except.ok b ↔ ∃ a, x = Except.ok a ∧ f a = b := by
  cases x with
  | error e => simp only [Except.map, reduceCtorEq, false_and, exists_false]
  | ok a => simp only [Except.map, Except.ok.injEq, exists_eq_left']

/-- A check that raises was passed if the step succeeded. -/
theorem guard_eq_ok (c : Prop) [Decidable c] (e : ε) (x : Except ε α) (a : α) :
    (if c then Except.error e else x) = Except.ok a ↔ ¬ c ∧ x = Except.ok a := by
  by_cases h : c
  · simp only [h, if_true, reduceCtorEq, not_true_eq_false, false_and]
  · simp only [h, if_false, not_false_eq_true, true_and]

/-- A check that has to hold was passed. -/
theorem check_eq_ok (b : Bool) (e : ε) (x : Except ε α) (a : α) :
    (if !b then Except.error e else x) = Except.ok a ↔ b = true ∧ x = Except.ok a := by
  rw [guard_eq_ok, Bool.not_eq_true', Bool.not_eq_false]

/-- The same with the failure in the other branch. -/
theorem require_eq_ok (c : Prop) [Decidable c] (e : ε) (x : Except ε α) (a : α) :
    (if c then x else Except.error e) = Except.ok a ↔ c ∧ x = Except.ok a := by
  by_cases h : c
  · simp only [h, if_true, true_and]
  · simp only [h, if_false, reduceCtorEq, false_and]

theorem exists_ok {x : Except ε α} (h : x.toOption.isSome = true) : ∃ a, x = .ok a := by
  cases x with
  | error e => exact absurd h Bool.false_ne_true
  | ok a => exact ⟨a, rfl⟩

/-- Rewrite the rows that satisfy the condition, leaving the others. -/
def updateWhere (p : ρ → Bool) (f : ρ → ρ) (t : List ρ) : List ρ :=
  t.map fun r => if p r then f r else r

/-- The update through a row trigger. The trigger is given the old row and the
    row the statement would write, and answers with the row to write, with
    nothing to skip the row, or with an error that fails the statement. The
    second component lists the rows written. -/
def updateTriggered (fire : ρ → ρ → Except ε (Option ρ)) (p : ρ → Bool) (f : ρ → ρ) :
    List ρ → Except ε (List ρ × List ρ)
  | [] => .ok ([], [])
  | r :: rs =>
    if p r then
      match fire r (f r) with
      | .error e => .error e
      | .ok none => do
        let (t, u) ← updateTriggered fire p f rs
        return (r :: t, u)
      | .ok (some r') => do
        let (t, u) ← updateTriggered fire p f rs
        return (r' :: t, r' :: u)
    else do
      let (t, u) ← updateTriggered fire p f rs
      return (r :: t, u)

/-- No two rows of the table share a key. -/
def Unique (key : ρ → κ) (t : List ρ) : Prop :=
  (t.map key).Nodup

theorem mem_updateWhere (p : ρ → Bool) (f : ρ → ρ) (t : List ρ) (r : ρ) :
    r ∈ updateWhere p f t ↔ ∃ q ∈ t, r = if p q then f q else q := by
  simp only [updateWhere, List.mem_map, eq_comm]

/-- A row the condition does not select is still there. -/
theorem mem_updateWhere_of_not (p : ρ → Bool) (f : ρ → ρ) (t : List ρ) (r : ρ)
    (hr : r ∈ t) (hp : p r = false) : r ∈ updateWhere p f t :=
  (mem_updateWhere p f t r).mpr ⟨r, hr, by rw [hp]; rfl⟩

/-- A row the condition selects is there rewritten. -/
theorem mem_updateWhere_of_pos (p : ρ → Bool) (f : ρ → ρ) (t : List ρ) (r : ρ)
    (hr : r ∈ t) (hp : p r = true) : f r ∈ updateWhere p f t :=
  (mem_updateWhere p f t (f r)).mpr ⟨r, hr, by rw [hp]; rfl⟩

/-- A row with another key than the selected one was there before. -/
theorem mem_of_mem_updateWhere [DecidableEq κ] (key : ρ → κ) (k : κ) (f : ρ → ρ) (t : List ρ)
    (r : ρ) (hr : r ∈ updateWhere (fun q => key q = k) f t)
    (hf : ∀ q, key q = k → key (f q) = k) (hne : key r ≠ k) : r ∈ t := by
  rcases (mem_updateWhere _ f t r).mp hr with ⟨q, hq, rfl⟩
  by_cases hk : key q = k
  · rw [if_pos (decide_eq_true hk)] at hne
    exact absurd (hf q hk) hne
  · rw [if_neg (by simpa only [decide_eq_true_eq] using hk)]
    exact hq

theorem map_updateWhere (key : ρ → κ) (p : ρ → Bool) (f : ρ → ρ) (t : List ρ)
    (h : ∀ r ∈ t, p r = true → key (f r) = key r) :
    (updateWhere p f t).map key = t.map key := by
  simp only [updateWhere, List.map_map]
  refine List.map_congr_left (fun r hr => ?_)
  simp only [Function.comp]
  by_cases hp : p r = true
  · rw [if_pos hp, h r hr hp]
  · rw [if_neg hp]

theorem updateWhere_of_forall_not (p : ρ → Bool) (f : ρ → ρ) (t : List ρ)
    (h : ∀ r ∈ t, p r = false) : updateWhere p f t = t := by
  rw [updateWhere, List.map_congr_left (g := id) ?_, List.map_id]
  intro r hr
  rw [if_neg (by rw [h r hr]; exact Bool.false_ne_true)]
  rfl

theorem updateWhere_congr (p : ρ → Bool) (f g : ρ → ρ) (t : List ρ)
    (h : ∀ r ∈ t, p r = true → f r = g r) : updateWhere p f t = updateWhere p g t := by
  refine List.map_congr_left (fun r hr => ?_)
  by_cases hp : p r = true
  · rw [if_pos hp, if_pos hp, h r hr hp]
  · rw [if_neg hp, if_neg hp]

theorem updateWhere_append (p : ρ → Bool) (f : ρ → ρ) (t u : List ρ) :
    updateWhere p f (t ++ u) = updateWhere p f t ++ updateWhere p f u :=
  List.map_append

theorem Unique.eq_of_mem {key : ρ → κ} {t : List ρ} (h : Unique key t) {r q : ρ}
    (hr : r ∈ t) (hq : q ∈ t) (hk : key r = key q) : r = q :=
  List.inj_on_of_nodup_map h hr hq hk

/-- Looking up a unique key finds the row that has it. -/
theorem Unique.find_eq_some_iff [DecidableEq κ] {key : ρ → κ} {t : List ρ} (h : Unique key t)
    (k : κ) (r : ρ) : (t.find? fun q => decide (key q = k)) = some r ↔ r ∈ t ∧ key r = k := by
  have hkey : ∀ q, (t.find? fun q => decide (key q = k)) = some q → q ∈ t ∧ key q = k := by
    intro q hf
    have hk := List.find?_some hf
    exact ⟨List.mem_of_find?_eq_some hf, of_decide_eq_true hk⟩
  constructor
  · exact hkey r
  · intro hr
    rcases hf : t.find? fun q => decide (key q = k) with _ | q
    · exact absurd (decide_eq_true hr.2) (List.find?_eq_none.mp hf r hr.1)
    · rw [h.eq_of_mem (hkey q hf).1 hr.1 ((hkey q hf).2.trans hr.2.symm)]

/-- A lookup that finds nothing: no row has the key. -/
theorem find_eq_none_iff [DecidableEq κ] (key : ρ → κ) (t : List ρ) (k : κ) :
    (t.find? fun q => decide (key q = k)) = none ↔ k ∉ t.map key := by
  rw [List.find?_eq_none]
  simp only [decide_eq_true_eq, List.mem_map, not_exists, not_and]

/-- An update that does not touch what is selected. -/
theorem filter_updateWhere_of_not (p q : ρ → Bool) (f : ρ → ρ) (t : List ρ)
    (h : ∀ r ∈ t, p r = true → q r = false ∧ q (f r) = false) :
    (updateWhere p f t).filter q = t.filter q := by
  induction t with
  | nil => rfl
  | cons r rs ih =>
      have hih := ih (fun r' hr' => h r' (List.mem_cons_of_mem r hr'))
      simp only [updateWhere] at hih
      simp only [updateWhere, List.map_cons, List.filter_cons, hih]
      by_cases hp : p r = true
      · simp only [if_pos hp, (h r List.mem_cons_self hp).1, (h r List.mem_cons_self hp).2,
          Bool.false_eq_true, if_false]
      · rw [if_neg hp]

/-- An update that does not touch what a search looks for. -/
theorem find_updateWhere_of_not (p q : ρ → Bool) (f : ρ → ρ) (t : List ρ)
    (h : ∀ r ∈ t, p r = true → q r = false ∧ q (f r) = false) :
    (updateWhere p f t).find? q = t.find? q := by
  rw [← List.head?_filter, ← List.head?_filter, filter_updateWhere_of_not p q f t h]

/-- Selecting by a unique key gives the one row that has it. -/
theorem Unique.filter_eq_singleton [DecidableEq κ] {key : ρ → κ} {t : List ρ} (h : Unique key t)
    {r : ρ} (hr : r ∈ t) : (t.filter fun q => decide (key q = key r)) = [r] := by
  induction t with
  | nil => exact absurd hr List.not_mem_nil
  | cons q qs ih =>
      have h' : (key q :: qs.map key).Nodup := h
      rw [List.nodup_cons] at h'
      rcases List.mem_cons.mp hr with rfl | hmem
      · rw [List.filter_cons_of_pos (by simp only [decide_true]), List.filter_eq_nil_iff.mpr]
        intro q' hq'
        simp only [decide_eq_true_eq]
        exact fun hk => h'.1 (hk ▸ List.mem_map_of_mem hq')
      · have hne : key q ≠ key r := fun hk => h'.1 (hk ▸ List.mem_map_of_mem hmem)
        rw [List.filter_cons_of_neg (by simpa only [decide_eq_true_eq] using hne)]
        exact ih h'.2 hmem

theorem filter_append_of_ne [DecidableEq κ] (key : ρ → κ) (k : κ) (t : List ρ) (r : ρ)
    (h : key r ≠ k) :
    (t ++ [r]).filter (fun r => key r = k) = t.filter (fun r => key r = k) := by
  rw [List.filter_append, List.filter_cons_of_neg (by simpa only [decide_eq_true_eq] using h),
    List.filter_nil, List.append_nil]

theorem filter_append_of_eq [DecidableEq κ] (key : ρ → κ) (k : κ) (t : List ρ) (r : ρ)
    (h : key r = k) :
    (t ++ [r]).filter (fun r => key r = k) = t.filter (fun r => key r = k) ++ [r] := by
  rw [List.filter_append, List.filter_cons_of_pos (by rwa [decide_eq_true_eq]), List.filter_nil]

/-- A key that is not in use selects nothing. -/
theorem filter_eq_nil_of_free [DecidableEq κ] (key : ρ → κ) (t : List ρ) (k : κ)
    (h : k ∉ t.map key) : t.filter (fun r => key r = k) = [] := by
  rw [List.filter_eq_nil_iff]
  intro r hr hk
  rw [decide_eq_true_eq] at hk
  exact h (List.mem_map.mpr ⟨r, hr, hk⟩)

/-- Writing the row with a unique key leaves one row with it. -/
theorem Unique.filter_updateWhere [DecidableEq κ] {key : ρ → κ} {t : List ρ} (h : Unique key t)
    {old : ρ} (hold : old ∈ t) (f : ρ → ρ) (new : ρ) (k : κ) (hk : key old = k)
    (hnew : f old = new) (hkey : key new = k) :
    (updateWhere (fun r => key r = k) f t).filter (fun r => key r = k) = [new] := by
  have hkeys : (updateWhere (fun r => key r = k) f t).map key = t.map key := by
    refine map_updateWhere _ _ _ _ (fun r hr hrk => ?_)
    rw [decide_eq_true_eq] at hrk
    rw [h.eq_of_mem hr hold (hrk.trans hk.symm), hnew, hkey, hk]
  have h' : Unique key (updateWhere (fun r => key r = k) f t) := by
    unfold Unique
    rw [hkeys]
    exact h
  have hmem : f old ∈ updateWhere (fun r => key r = k) f t :=
    mem_updateWhere_of_pos _ f t old hold (decide_eq_true hk)
  rw [hnew] at hmem
  have hone := h'.filter_eq_singleton hmem
  rw [hkey] at hone
  exact hone

/-- Appending rows whose keys are new and distinct keeps the index. -/
theorem Unique.append {key : ρ → κ} {t u : List ρ} (ht : Unique key t) (hu : Unique key u)
    (hne : ∀ r ∈ t, ∀ q ∈ u, key r ≠ key q) : Unique key (t ++ u) := by
  rw [Unique, List.map_append]
  refine List.Nodup.append ht hu (fun k hk hk' => ?_)
  rcases List.mem_map.mp hk with ⟨r, hr, rfl⟩
  rcases List.mem_map.mp hk' with ⟨q, hq, hqk⟩
  exact hne r hr q hq hqk.symm

/-- Giving the row under a key a key that no other row has keeps the index. -/
theorem Unique.updateWhere_key [DecidableEq κ] {key : ρ → κ} {t : List ρ} (h : Unique key t)
    (k : κ) (r : ρ) (hr : ∀ q ∈ t, key q ≠ k → key q ≠ key r) :
    Unique key (updateWhere (fun q => decide (key q = k)) (fun _ => r) t) := by
  have hmap : (updateWhere (fun q => decide (key q = k)) (fun _ => r) t).map key
      = (t.map key).map fun x => if x = k then key r else x := by
    rw [updateWhere, List.map_map, List.map_map]
    refine List.map_congr_left (fun q _ => ?_)
    simp only [Function.comp, decide_eq_true_eq]
    by_cases hq : key q = k
    · rw [if_pos hq, if_pos hq]
    · rw [if_neg hq, if_neg hq]
  rw [Unique, hmap]
  refine List.Nodup.map_on (fun x hx y hy hxy => ?_) h
  rcases List.mem_map.mp hx with ⟨q, hq, rfl⟩
  rcases List.mem_map.mp hy with ⟨q', hq', rfl⟩
  -- Two rows with one new key: both have it from the update, or neither.
  by_cases h1 : key q = k
  · by_cases h2 : key q' = k
    · rw [h1, h2]
    · rw [if_pos h1, if_neg h2] at hxy
      exact absurd hxy.symm (hr q' hq' h2)
  · by_cases h2 : key q' = k
    · rw [if_neg h1, if_pos h2] at hxy
      exact absurd hxy (hr q hq h1)
    · rw [if_neg h1, if_neg h2] at hxy
      exact hxy

/-- A trigger that lets every row through is no trigger: the update succeeds
    and writes every selected row. -/
theorem updateTriggered_plain (p : ρ → Bool) (f : ρ → ρ) (t : List ρ) :
    updateTriggered (ε := ε) (fun _ new => .ok (some new)) p f t
      = .ok (updateWhere p f t, (t.filter p).map f) := by
  induction t with
  | nil => rfl
  | cons r rs ih =>
      simp only [updateTriggered, ih]
      by_cases hp : p r = true
      · rw [if_pos hp]
        simp only [updateWhere, List.map_cons, if_pos hp, List.filter_cons]
        rfl
      · rw [if_neg hp]
        simp only [updateWhere, List.map_cons, if_neg hp, List.filter_cons]
        rfl

/-- A table none of whose rows is selected goes through any trigger
    unchanged. -/
theorem updateTriggered_none (fire : ρ → ρ → Except ε (Option ρ)) (p : ρ → Bool) (f : ρ → ρ)
    (t : List ρ) (h : ∀ r ∈ t, p r = false) : updateTriggered fire p f t = .ok (t, []) := by
  induction t with
  | nil => rfl
  | cons r rs ih =>
      have hr : ¬ p r = true := by rw [h r List.mem_cons_self]; exact Bool.false_ne_true
      simp only [updateTriggered, if_neg hr, ih (fun q hq => h q (List.mem_cons_of_mem r hq))]
      rfl

/-- Selecting by a unique key reaches at most the one row that has it, so the
    whole update is what the trigger does with that row. -/
theorem updateTriggered_unique [DecidableEq κ] (fire : ρ → ρ → Except ε (Option ρ)) (key : ρ → κ)
    (k : κ) (f : ρ → ρ) (t : List ρ) (hu : Unique key t) (r : ρ) (hr : r ∈ t) (hk : key r = k) :
    updateTriggered fire (fun q => decide (key q = k)) f t
      = match fire r (f r) with
        | .error e => .error e
        | .ok none => .ok (t, [])
        | .ok (some r') => .ok (updateWhere (fun q => decide (key q = k)) (fun _ => r') t, [r']) := by
  induction t with
  | nil => exact absurd hr List.not_mem_nil
  | cons q qs ih =>
      have hu' : (key q :: qs.map key).Nodup := hu
      rw [List.nodup_cons] at hu'
      rcases List.mem_cons.mp hr with rfl | hmem
      · -- The row is the head, and no later row has its key.
        have hrest : ∀ q' ∈ qs, decide (key q' = k) = false := by
          intro q' hq'
          simp only [decide_eq_false_iff_not]
          intro hc
          exact hu'.1 (by rw [hk, ← hc]; exact List.mem_map_of_mem hq')
        have hhead : decide (key r = k) = true := decide_eq_true hk
        simp only [updateTriggered, if_pos hhead, updateTriggered_none fire _ f qs hrest]
        rcases fire r (f r) with e | r' | r'
        · rfl
        · rfl
        · simp only [updateWhere, List.map_cons, if_pos hhead]
          have := updateWhere_of_forall_not _ (fun _ => r') qs hrest
          simp only [updateWhere] at this
          rw [this]
          rfl
      · have hhead : ¬ decide (key q = k) = true := by
          simp only [decide_eq_true_eq]
          intro hc
          exact hu'.1 (by rw [hc, ← hk]; exact List.mem_map_of_mem hmem)
        simp only [updateTriggered, if_neg hhead, ih hu'.2 hmem]
        rcases fire r (f r) with e | r' | r'
        · rfl
        · rfl
        · simp only [updateWhere, List.map_cons, if_neg hhead]
          rfl

/-- Row by row, an update leaves the row or writes what the trigger answers. -/
theorem updateTriggered_rows (fire : ρ → ρ → Except ε (Option ρ)) (p : ρ → Bool) (f : ρ → ρ)
    (t t' u : List ρ) (h : updateTriggered fire p f t = .ok (t', u)) :
    List.Forall₂ (fun r r' => r' = r ∨ p r = true ∧ fire r (f r) = .ok (some r')) t t' := by
  induction t generalizing t' u with
  | nil =>
      simp only [updateTriggered, Except.ok.injEq, Prod.mk.injEq] at h
      rw [← h.1]
      exact .nil
  | cons r rs ih =>
      -- The rest of the table is updated in every case; the cases differ in the head.
      have hrest : ∀ (q : ρ) (g : List ρ → List ρ),
          (updateTriggered fire p f rs >>= fun x => pure (q :: x.1, g x.2)) = Except.ok (t', u) →
          (q = r ∨ p r = true ∧ fire r (f r) = .ok (some q)) →
          List.Forall₂ (fun r r' => r' = r ∨ p r = true ∧ fire r (f r) = .ok (some r')) (r :: rs) t' := by
        intro q g hg hq
        rcases (bind_eq_ok _ _ _).mp hg with ⟨⟨t₁, u₁⟩, h₁, he⟩
        rw [← (Prod.mk.inj (Except.ok.inj he)).1]
        exact .cons hq (ih t₁ u₁ h₁)
      simp only [updateTriggered] at h
      by_cases hp : p r = true
      · rw [if_pos hp] at h
        rcases hfire : fire r (f r) with e | q | q
        · rw [hfire] at h
          exact absurd h (by simp only [reduceCtorEq, not_false_eq_true])
        · rw [hfire] at h
          exact hrest r id h (.inl rfl)
        · rw [hfire] at h
          exact hrest q (q :: ·) h (.inr ⟨hp, hfire⟩)
      · rw [if_neg hp] at h
        exact hrest r id h (.inl rfl)

/-! ## Tables row by row -/

theorem exists_of_forall₂ {R : ρ → ρ → Prop} {t t' : List ρ} (h : List.Forall₂ R t t') (r' : ρ)
    (hr : r' ∈ t') : ∃ r ∈ t, R r r' := by
  induction h with
  | nil => exact absurd hr List.not_mem_nil
  | @cons r q t t' hrq _ ih =>
      rcases List.mem_cons.mp hr with rfl | hr
      · exact ⟨r, List.mem_cons_self, hrq⟩
      · rcases ih hr with ⟨s, hs, hsr⟩
        exact ⟨s, List.mem_cons_of_mem r hs, hsr⟩

/-- What no row changes is the same column before and after. -/
theorem map_of_forall₂ (key : ρ → κ) {R : ρ → ρ → Prop} {t t' : List ρ} (h : List.Forall₂ R t t')
    (hkey : ∀ r r', R r r' → key r' = key r) : t'.map key = t.map key := by
  induction h with
  | nil => rfl
  | cons hrq _ ih => rw [List.map_cons, List.map_cons, hkey _ _ hrq, ih]

/-! ## Named values -/

/-- Renaming one of several names to a new one keeps names apart. -/
theorem nodup_rename [DecidableEq κ] {o c : κ} {names : List κ} (h : names.Nodup)
    (hc : c ∉ names) : (names.map fun n => if n = o then c else n).Nodup := by
  refine (List.nodup_map_iff_inj_on h).mpr (fun a ha b hb hab => ?_)
  by_cases hao : a = o
  · by_cases hbo : b = o
    · rw [hao, hbo]
    · rw [if_pos hao, if_neg hbo] at hab
      exact absurd (hab ▸ hb) hc
  · by_cases hbo : b = o
    · rw [if_neg hao, if_pos hbo] at hab
      exact absurd (hab ▸ ha) hc
    · rwa [if_neg hao, if_neg hbo] at hab

section Lookup

variable {ν : Type*} [BEq κ] [LawfulBEq κ]

theorem mem_of_lookup {k : κ} {l : List (κ × ν)} {v : ν} (h : l.lookup k = some v) :
    (k, v) ∈ l := by
  rcases List.lookup_eq_some_iff.mp h with ⟨l₁, l₂, rfl, -⟩
  exact List.mem_append_right _ List.mem_cons_self

/-- Where no name occurs twice, looking one up finds its value. -/
theorem lookup_of_mem {l : List (κ × ν)} (hn : (l.map (·.1)).Nodup) {a : κ × ν} (ha : a ∈ l) :
    l.lookup a.1 = some a.2 := by
  rcases List.append_of_mem ha with ⟨l₁, l₂, rfl⟩
  refine List.lookup_eq_some_iff.mpr ⟨l₁, l₂, rfl, fun p hp => ?_⟩
  rw [bne_iff_ne]
  intro he
  rw [List.map_append, List.map_cons] at hn
  exact List.disjoint_of_nodup_append hn (List.mem_map.mpr ⟨p, hp, rfl⟩)
    (he ▸ List.mem_cons_self)

/-- The order of named values does not matter to a lookup. -/
theorem lookup_perm {l l' : List (κ × ν)} (hn : (l.map (·.1)).Nodup) (h : l'.Perm l) (k : κ) :
    l'.lookup k = l.lookup k := by
  have hn' : (l'.map (·.1)).Nodup := (h.map _).nodup_iff.mpr hn
  refine Option.ext (fun v => ⟨fun hv => ?_, fun hv => ?_⟩)
  · exact lookup_of_mem hn (h.subset (mem_of_lookup hv))
  · exact lookup_of_mem hn' (h.symm.subset (mem_of_lookup hv))

end Lookup

end Table
