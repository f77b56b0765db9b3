import WedFlow.Theory.Names
import WedFlow.Theory.Predicates

/-!
# Predicates That Can Fail

A row of `wed_pred` that no state could fail would make its condition true
everywhere, so `wed_pred_validation` refuses rows with nothing in them. The
validator and `pred_match` do not look at the same columns, though. One leaves
out `pid` and `cid`, which are no attributes, and the other `wid` and `awic`. The
name `wid` is taken in `wed_flow`; `awic` is taken nowhere, so an attribute can
have it, from the start or by a later rename.

What the validator has seen stays: columns are added and renamed under the rows,
but a value a row has in some column it keeps. So every row of every run has a
value to look at, and it can be failed exactly if it has one in a column that is
not `awic`.

## Main definitions

* `PredRow.Valid`: A row over given columns that the validator would accept.
* `PredsValid`: `wed_pred` in any run.

## Theorems

* `wedPredValidation_ok_iff`: What the validator accepts.
* `predsValid_exec`, `run_predsValid`: Every row stays valid.
* `rowMatches_fails_iff`: When some state fails a row.
* `predicate_refutable_iff`: The same, for every row of every run.
-/

namespace WedFlow

/-! ## Valid rows -/

/-- The row has one value for each column, and one that is not empty. -/
structure PredRow.Valid (cols : List String) (p : PredRow) : Prop where
  columns : p.attrs.map (·.1) = cols
  constrained : ∃ a ∈ p.attrs, constrains a.2 = true

theorem wedPredValidation_ok_iff (p : PredRow) :
    wedPredValidation p = .ok () ↔ ∃ a ∈ p.attrs, constrains a.2 = true := by
  unfold wedPredValidation
  rw [Table.require_eq_ok, List.any_eq_true]
  exact and_iff_left rfl

theorem PredRow.Valid.add {cols : List String} {p : PredRow} (h : p.Valid cols) (c : String) :
    PredRow.Valid (cols ++ [c]) { p with attrs := p.attrs ++ [(c, none)] } where
  columns := by
    dsimp only
    rw [List.map_append, h.columns]
    rfl
  constrained := by
    rcases h.constrained with ⟨a, ha, hc⟩
    exact ⟨a, List.mem_append_left _ ha, hc⟩

/-- A rename changes no value. -/
theorem PredRow.Valid.rename {cols : List String} {p : PredRow} (h : p.Valid cols) (o n : String) :
    PredRow.Valid (cols.map fun c => if c = o then n else c)
      { p with attrs := p.attrs.map (renameKey o n) } where
  columns := by
    dsimp only
    rw [← h.columns, List.map_map, List.map_map]
    rfl
  constrained := by
    rcases h.constrained with ⟨a, ha, hc⟩
    exact ⟨renameKey o n a, List.mem_map_of_mem ha, hc⟩

/-- What an accepted insert or update writes is valid. -/
theorem valid_of_assignPred {base vals attrs : List (String × Option String)} {pid cid : Int}
    (hassign : assignPred base vals = .ok attrs)
    (hval : wedPredValidation ⟨pid, cid, attrs⟩ = .ok ()) :
    PredRow.Valid (base.map (·.1)) ⟨pid, cid, attrs⟩ := by
  refine ⟨?_, (wedPredValidation_ok_iff _).mp hval⟩
  unfold assignPred at hassign
  rw [Table.require_eq_ok] at hassign
  dsimp only
  rw [← Except.ok.inj hassign.2, List.map_map]
  rfl

/-! ## All rows of a run -/

/-- `wed_pred` has the columns of `wed_flow`, and its rows are valid over them. -/
structure PredsValid (db : Db) : Prop where
  columns : db.predColumns = db.flowColumns.map (·.name)
  noWid : "wid" ∉ db.predColumns
  rows : ∀ p ∈ db.wedPred, p.Valid db.predColumns

theorem freeEverywhere_ne_wid {db : Db} {c : String} (h : freeEverywhere db c = true) :
    c ≠ "wid" := by
  unfold freeEverywhere freeColumn at h
  simp only [Bool.and_eq_true, decide_eq_true_eq] at h
  intro hc
  exact h.1.1.1.2 (hc ▸ List.mem_cons_self)

theorem Restyled.predsValid {db db' : Db} {op : Op} (h : Restyled db op db') (hv : PredsValid db) :
    PredsValid db' := by
  cases h with
  | add new hfree =>
      refine ⟨?_, ?_, ?_⟩
      · dsimp only
        rw [List.map_append, hv.columns]
        rfl
      · intro hmem
        rcases List.mem_append.mp hmem with hmem | hmem
        · exact hv.noWid hmem
        · exact freeEverywhere_ne_wid hfree (List.mem_singleton.mp hmem).symm
      · intro p hp
        rcases List.mem_map.mp hp with ⟨q, hq, rfl⟩
        exact (hv.rows q hq).add _
  | missing name new => exact hv
  | rename name old new attrs hfree =>
      refine ⟨?_, ?_, ?_⟩
      · dsimp only
        rw [names_renameColumn, hv.columns]
      · intro hmem
        rcases List.mem_map.mp hmem with ⟨c, hc, he⟩
        split at he
        · exact freeEverywhere_ne_wid hfree he
        · exact hv.noWid (he ▸ hc)
      · intro p hp
        rcases List.mem_map.mp hp with ⟨q, hq, rfl⟩
        exact (hv.rows q hq).rename _ _
  | setDefault name old new attrs =>
      refine ⟨?_, hv.noWid, hv.rows⟩
      dsimp only
      rw [names_setDefault, hv.columns]

/-- A definition leaves the valid rows valid, and those it writes are. -/
theorem Defined.predsValid {op : Op} {db db' : Db} (h : Defined db op db') (hv : PredsValid db) :
    ∀ p ∈ db'.wedPred, p.Valid db.predColumns := by
  cases h with
  | insertPred pid cid vals attrs hassign hval =>
      refine List.forall_mem_append.mpr ⟨hv.rows, List.forall_mem_singleton.mpr ?_⟩
      have hnew := valid_of_assignPred hassign hval
      rwa [List.map_map, show ((·.1) ∘ fun c => (c, (none : Option String))) = id from rfl,
        List.map_id] at hnew
  | updatePred pid newPid newCid vals attrs old hold hassign hval =>
      intro p hp
      rcases (Table.mem_updateWhere _ _ _ _).mp hp with ⟨q, hq, rfl⟩
      split
      -- The row is written over the one that was there, column by column.
      · have hnew := valid_of_assignPred hassign hval
        rwa [(hv.rows old hold).columns] at hnew
      · exact hv.rows q hq
  | _ => exact hv.rows

/-- The kernel and the job functions read `wed_pred` and do not write it. -/
theorem wedPred_change {loc : Locale} {env : Env} {db db' : Db} {op : Op} {r : Reply}
    (h : Change loc env db op r db') (hdef : ¬ op.Defines) (hres : ¬ op.Restyles) :
    db'.wedPred = db.wedPred := by
  cases h with
  | update wid newWid uptkn vals old u db₁ w h =>
      rcases h.justified with ⟨f, e, -, -, hj⟩
      rw [hj.same]
      rfl
  | redefine op db' hop h => exact absurd hop hdef
  | restyle op db' hop h => exact absurd hop hres
  | _ => rfl

theorem predsValid_exec (loc : Locale) (i : Input) (db db' : Db) (r : Reply) (hi : Inv db)
    (hv : PredsValid db) (h : exec loc i db = .ok (db', r)) : PredsValid db' := by
  rcases i with ⟨env, op⟩
  by_cases hres : op.Restyles
  · exact (restyled_of_exec loc env op db db' r hres h).predsValid hv
  · have hch := exec_change loc ⟨env, op⟩ db db' r hi h
    -- The columns are those there were, so only the rows are in question.
    have hcat := catalog_change hch hres
    have hflow : db'.flowColumns = db.flowColumns := congrArg Catalog.flow hcat
    have hpred : db'.predColumns = db.predColumns := congrArg Catalog.pred hcat
    refine ⟨by rw [hflow, hpred, hv.columns], by rw [hpred]; exact hv.noWid, ?_⟩
    rw [hpred]
    by_cases hdef : op.Defines
    · exact (defined_of_exec loc env op db db' r hdef h).predsValid hv
    · rw [wedPred_change hch hdef hres]
      exact hv.rows

/-- In every run every row of `wed_pred` is valid. -/
theorem run_predsValid (loc : Locale) (is : List Input) : PredsValid (run loc is) := by
  refine (run_invariant loc (fun _ => True) (fun db => Inv db ∧ PredsValid db)
    ⟨inv_empty, rfl, List.not_mem_nil, fun _ hp => absurd hp List.not_mem_nil⟩ ?_ is
    (fun _ _ => trivial)).2
  intro db i db' r _ h hex
  exact ⟨inv_exec loc i db db' r h.1 hex, predsValid_exec loc i db db' r h.1 h.2 hex⟩

/-! ## Failing a row -/

/-- The row has a value to compare in a column that `pred_match` looks at. -/
theorem rowMatches_fails_iff (loc : Locale) (cols : List String) (hn : cols.Nodup)
    (hwid : "wid" ∉ cols) (p : PredRow) (hcols : p.attrs.map (·.1) = cols) :
    (∃ attrs : List (String × String), attrs.map (·.1) = cols ∧ rowMatches loc attrs p = false) ↔
      ∃ a ∈ p.attrs, constrains a.2 = true ∧ a.1 ≠ "awic" := by
  have hnames : (p.attrs.map (·.1)).Nodup := hcols ▸ hn
  constructor
  · rintro ⟨attrs, hattrs, hfail⟩
    have hnot := Bool.eq_false_iff.mp hfail
    rw [ne_eq, rowMatches_columns] at hnot
    simp only [not_forall, exists_prop] at hnot
    rcases hnot with ⟨c, hc, v, hv, hne, -⟩
    rw [clause_eq_some_iff hnames] at hv
    have hlook := (List.mem_filter.mp hc).2
    rw [decide_eq_true_eq] at hlook
    refine ⟨(c, some v), hv, decide_eq_true hne, fun he => hlook ?_⟩
    rw [show c = "awic" from he]
    decide
  · rintro ⟨⟨c, o⟩, ha, hcon, hne⟩
    cases o with
    | none => exact absurd hcon Bool.false_ne_true
    | some v =>
        -- A state with a value there that is not the one asked for.
        rcases exists_not_sameLower loc v with ⟨x, hx⟩
        have hc : c ∈ cols := hcols ▸ List.mem_map_of_mem (f := Prod.fst) ha
        have hattrs : (cols.map fun n => (n, x)).map (·.1) = cols := by
          rw [List.map_map, show ((·.1) ∘ fun n => (n, x)) = (id : String → String) from rfl,
            List.map_id]
        refine ⟨cols.map fun n => (n, x), hattrs, Bool.eq_false_iff.mpr (fun hmatch => hx ?_)⟩
        have hlook : c ∈ predAttrs (cols.map fun n => (n, x)) := by
          unfold predAttrs
          rw [hattrs, List.mem_filter, decide_eq_true_eq]
          refine ⟨hc, fun hmem => ?_⟩
          simp only [List.mem_cons, List.not_mem_nil, or_false] at hmem
          rcases hmem with rfl | rfl
          · exact hwid hc
          · exact hne rfl
        have hsame := (rowMatches_columns loc _ p).mp hmatch c hlook v
          ((clause_eq_some_iff hnames c v).mpr ha) (of_decide_eq_true hcon)
        rwa [stateOf_map cols (fun _ => x) c hc] at hsame

/-- In every run, a row of `wed_pred` is failed by some state of the attributes
    there are, exactly if it has a value that is not empty for an attribute that
    is not named `awic`. -/
theorem predicate_refutable_iff (loc : Locale) (is : List Input) (p : PredRow)
    (hp : p ∈ (run loc is).wedPred) :
    (∃ attrs : List (String × String), attrs.map (·.1) = (run loc is).flowColumns.map (·.name) ∧
        rowMatches loc attrs p = false) ↔
      ∃ a ∈ p.attrs, constrains a.2 = true ∧ a.1 ≠ "awic" := by
  have hv := run_predsValid loc is
  have hcols := hv.columns
  refine rowMatches_fails_iff loc _ (run_kept loc is).distinct ?_ p ?_
  · change "wid" ∉ (run loc is).flowColumns.map (·.name)
    rw [← hcols]
    exact hv.noWid
  · change p.attrs.map (·.1) = (run loc is).flowColumns.map (·.name)
    rw [← hcols]
    exact (hv.rows p hp).columns

theorem predicate_refutable_tiny :
    ∃ attrs : List (String × String),
      attrs.map (·.1) = (run asciiLocale tiny).flowColumns.map (·.name) ∧
        rowMatches asciiLocale attrs ⟨1, 1, [("st", some "done")]⟩ = false :=
  (predicate_refutable_iff asciiLocale tiny ⟨1, 1, [("st", some "done")]⟩ (by decide +kernel)).mpr
    ⟨("st", some "done"), List.mem_cons_self, by decide, by decide⟩

/-- A flow with an attribute named `awic`, and a final condition that asks for a
    value of it. -/
def awicAsked : List Input :=
  [.insertAttr ⟨"awic", "open"⟩, .insertAttr ⟨"st", "ready"⟩, .insertCond ⟨1, true⟩,
    .insertPred 1 1 [("awic", some "closed")]].map (Input.mk (clock 0))

/-- The row is accepted, and no state fails it. -/
theorem awic_row_always_matches :
    ⟨1, 1, [("awic", some "closed"), ("st", none)]⟩ ∈ (run asciiLocale awicAsked).wedPred ∧
      ∀ attrs : List (String × String),
        attrs.map (·.1) = (run asciiLocale awicAsked).flowColumns.map (·.name) →
          rowMatches asciiLocale attrs ⟨1, 1, [("awic", some "closed"), ("st", none)]⟩ = true := by
  have hcols : (run asciiLocale awicAsked).flowColumns.map (·.name) = ["awic", "st"] := by
    decide +kernel
  refine ⟨by decide +kernel, fun attrs hattrs => ?_⟩
  rw [hcols] at hattrs
  unfold rowMatches predAttrs
  rw [hattrs]
  rfl

end WedFlow
