import WedFlow.Abstract.Dnf
import WedFlow.Core.System
import WedFlow.Theory.Accept

/-!
# Predicates and Conditions

A condition is documented as a disjunction of the rows of `wed_pred` that name
it, and a row as the conjunction of its columns that are not NULL. `pred_match`
evaluates something else. It takes a requirement for a value that Python takes
for true, so an empty string is no requirement, and it leaves out two column
names, `wid` and `awic`, of which the second is free for an attribute.

Row by row, `pred_match` evaluates the clause without what it overlooks. Over any
number of rows in any order, and with the columns in any order, it returns the
conditions of those clauses that hold, with the flag of the final one among them.
So the documented meaning is computed exactly where nothing is overlooked, and
`pred_match_dnf_iff` says that of every stock of predicate rows.

## Main definitions

* `PredRow.clause`: What a row of `wed_pred` asks for.
* `stateOf`: The values of a state.
* `overlooked`: The requirements `pred_match` does not look at.
* `Scans`: Tables and a state over one set of attributes.
* `Shuffled`: The same tables and state in another order.
* `ComputesDnf`: What `pred_match` is documented to do.

## Theorems

* `rowMatches_iff`: What `pred_match` evaluates in one row.
* `Scans.matched`, `Scans.final`: What it returns for all of them.
* `Shuffled.same`: Neither order matters.
* `pred_match_dnf_iff`: When this is what it is documented to do.
-/

namespace WedFlow

open Dnf (Sat Denotes relax)

/-! ## One row -/

/-- A row of `wed_pred` asks for the values of its columns that are not NULL. -/
def PredRow.clause (r : PredRow) : Dnf.Clause String String :=
  fun c => (r.attrs.lookup c).join

/-- The clause of a row under the condition it belongs to. -/
def PredRow.labelled (r : PredRow) : Int × Dnf.Clause String String :=
  (r.cid, r.clause)

/-- The value of an attribute in a state. -/
def stateOf (attrs : List (String × String)) : String → String :=
  fun c => (attrs.lookup c).getD ""

/-- Two values are compared in lower case. -/
def SameLower (loc : Locale) (x v : String) : Prop :=
  loc.lower x = loc.lower v

/-- The requirements `pred_match` does not look at. -/
def overlooked (c v : String) : Bool :=
  v = "" || c ∈ ["wid", "awic"]

theorem clause_eq_some_iff {r : PredRow} (hn : (r.attrs.map (·.1)).Nodup) (c v : String) :
    r.clause c = some v ↔ (c, some v) ∈ r.attrs := by
  unfold PredRow.clause
  rw [Option.join_eq_some_iff]
  exact ⟨fun h => Table.mem_of_lookup h, fun h => Table.lookup_of_mem hn h⟩

/-- A loop that keeps a flag up as long as a test succeeds. -/
theorem foldl_flag {α : Type} (f : Bool → α → Bool) (P : α → Prop)
    (hf : ∀ flag a, f flag a = true ↔ flag = true ∧ P a) (l : List α) (flag : Bool) :
    l.foldl f flag = true ↔ flag = true ∧ ∀ a ∈ l, P a := by
  induction l generalizing flag with
  | nil => simp only [List.foldl_nil, List.not_mem_nil, false_implies, implies_true, and_true]
  | cons a l ih => rw [List.foldl_cons, ih, hf, List.forall_mem_cons, and_assoc]

/-- The columns of a row are gone through one by one. A requirement is met, or it
    is NULL or empty. -/
theorem rowMatches_columns (loc : Locale) (attrs : List (String × String)) (r : PredRow) :
    rowMatches loc attrs r = true ↔ ∀ c ∈ predAttrs attrs, ∀ v, r.clause c = some v → v ≠ "" →
      SameLower loc (stateOf attrs c) v := by
  unfold rowMatches
  refine (foldl_flag _ _ (fun flag c => ?_) _ _).trans (and_iff_right rfl)
  unfold PredRow.clause SameLower stateOf
  cases (r.attrs.lookup c).join with
  | none => simp only [reduceCtorEq, false_implies, implies_true, and_true]
  | some w =>
      dsimp only [constrains]
      -- `if r[c]` passes over an empty string as it passes over NULL.
      by_cases hw : w = ""
      · simp only [hw, ne_eq, not_true_eq_false, decide_false, Bool.false_eq_true, if_false,
          Option.some.injEq, forall_eq', false_implies, and_true]
      · simp only [hw, ne_eq, not_false_eq_true, decide_true, if_true, Bool.and_eq_true,
          beq_iff_eq, Option.some.injEq, forall_eq', true_implies]

/-- A row matches a state exactly if the state satisfies its clause without the
    requirements that are overlooked. -/
theorem rowMatches_iff (loc : Locale) (attrs : List (String × String)) (r : PredRow)
    (hsub : ∀ c v, r.clause c = some v → c ∈ attrs.map (·.1)) :
    rowMatches loc attrs r = true ↔
      Sat (SameLower loc) (stateOf attrs) (relax overlooked r.clause) := by
  rw [rowMatches_columns, Dnf.sat_relax_iff]
  have hover : ∀ c v, overlooked c v = false ↔ v ≠ "" ∧ c ∉ ["wid", "awic"] := by
    intro c v
    unfold overlooked
    simp only [Bool.or_eq_false_iff, decide_eq_false_iff_not, ne_eq]
  have hmem : ∀ c, c ∈ predAttrs attrs ↔ c ∈ attrs.map (·.1) ∧ c ∉ ["wid", "awic"] := by
    intro c
    unfold predAttrs
    rw [List.mem_filter, decide_eq_true_eq]
  constructor
  · intro h c v hv ho
    -- A column of the clause is a column of the state, so the loop comes to it.
    rw [hover] at ho
    exact h c ((hmem c).mpr ⟨hsub c v hv, ho.2⟩) v hv ho.1
  · intro h c hc v hv hne
    exact h c v hv ((hover c v).mpr ⟨hne, ((hmem c).mp hc).2⟩)

/-! ## All rows -/

/-- The predicate rows are taken from a stock of rows and belong to conditions
    there are, and the tables and the state have the same attributes. -/
structure Scans (names : List String) (rows : List PredRow) (db : Db)
    (attrs : List (String × String)) : Prop where
  drawn : ∀ p ∈ db.wedPred, p ∈ rows
  known : ∀ p ∈ db.wedPred, p.cid ∈ db.wedCond.map (·.cid)
  columns : db.predColumns.Perm names
  state : (attrs.map (·.1)).Perm names

section Attributes

variable {loc : Locale} {names : List String} {rows : List PredRow} {db : Db}
  {attrs : List (String × String)} (hrows : ∀ r ∈ rows, (r.attrs.map (·.1)).Perm names)

/-- The scan goes through: the state has no attribute that `wed_pred` lacks. -/
theorem Scans.ok (h : Scans names rows db attrs) :
    predMatch loc attrs db = .ok (matchConds loc db attrs) := by
  refine (predMatch_ok_iff loc attrs db _).mpr ⟨fun c hc => ?_, rfl⟩
  exact h.columns.symm.subset (h.state.subset (List.mem_filter.mp hc).1)

include hrows in
theorem Scans.row (h : Scans names rows db attrs) (p : PredRow) (hp : p ∈ db.wedPred) :
    rowMatches loc attrs p = true ↔
      Sat (SameLower loc) (stateOf attrs) (relax overlooked p.clause) := by
  refine rowMatches_iff loc attrs p (fun c v hv => ?_)
  have hmem := Table.mem_of_lookup (Option.join_eq_some_iff.mp hv)
  have hc : c ∈ p.attrs.map (·.1) := List.mem_map.mpr ⟨(c, some v), hmem, rfl⟩
  exact h.state.symm.subset ((hrows p (h.drawn p hp)).subset hc)

include hrows in
/-- The conditions returned are those with a clause that holds but for what is
    overlooked. -/
theorem Scans.matched (h : Scans names rows db attrs) (c : Int) :
    c ∈ (matchConds loc db attrs).1 ↔ ∃ p ∈ db.wedPred, p.cid = c ∧
      Sat (SameLower loc) (stateOf attrs) (relax overlooked p.clause) := by
  rw [mem_matchConds]
  constructor
  · rintro ⟨⟨p, f⟩, hr, hm, rfl⟩
    have hp := ((mem_predScan db p f).mp hr).1
    exact ⟨p, hp, rfl, (h.row hrows p hp).mp hm⟩
  · rintro ⟨p, hp, rfl, hs⟩
    -- The join drops the rows without a condition, and there are none.
    rcases List.mem_map.mp (h.known p hp) with ⟨d, hd, hcid⟩
    exact ⟨(p, d.final), (mem_predScan db p d.final).mpr ⟨hp, d, hd, hcid, rfl⟩,
      (h.row hrows p hp).mpr hs, rfl⟩

/-- The flag returned is that of a final condition among those returned. -/
theorem final_iff (loc : Locale) (db : Db) (attrs : List (String × String)) :
    (matchConds loc db attrs).2 = true ↔
      ∃ d ∈ db.wedCond, d.final = true ∧ d.cid ∈ (matchConds loc db attrs).1 := by
  rw [matchConds_final]
  constructor
  · rintro ⟨⟨p, f⟩, hr, hm, hf⟩
    rcases (mem_predScan db p f).mp hr with ⟨-, d, hd, hcid, hfin⟩
    exact ⟨d, hd, hfin.trans hf, (mem_matchConds loc db attrs d.cid).mpr ⟨(p, f), hr, hm, hcid.symm⟩⟩
  · rintro ⟨d, hd, hfin, hmem⟩
    -- The row that matched need not be joined with `d`, but it can be.
    rcases (mem_matchConds loc db attrs d.cid).mp hmem with ⟨⟨p, f⟩, hr, hm, hcid⟩
    have hp := ((mem_predScan db p f).mp hr).1
    exact ⟨(p, d.final), (mem_predScan db p d.final).mpr ⟨hp, d, hd, hcid.symm, rfl⟩, hm, hfin⟩

/-! ## Order -/

/-- Another order of the rows, of the columns of `wed_pred`, and of the
    attributes of the state. -/
structure Shuffled (db db' : Db) (attrs attrs' : List (String × String)) : Prop where
  rows : ∃ σ : List (String × Option String) → List (String × Option String),
    (∀ l, (σ l).Perm l) ∧
      db'.wedPred.Perm (db.wedPred.map fun p => { p with attrs := σ p.attrs })
  conds : db'.wedCond.Perm db.wedCond
  columns : db'.predColumns.Perm db.predColumns
  state : attrs'.Perm attrs

/-- What `pred_match` is documented to return for a state: the conditions with a
    clause that holds, with a flag for the final one, in whichever order the rows
    and the columns come. -/
structure ComputesDnf (loc : Locale) (db : Db) (attrs : List (String × String)) : Prop where
  matched : ∃ m, predMatch loc attrs db = .ok m ∧
    (∀ c, c ∈ m.1 ↔
      Denotes (SameLower loc) (db.wedPred.map PredRow.labelled) (stateOf attrs) c) ∧
    (m.2 = true ↔ ∃ d ∈ db.wedCond, d.final = true ∧ d.cid ∈ m.1)
  shuffled : ∀ db' attrs', Shuffled db db' attrs attrs' →
    ∃ m m', predMatch loc attrs db = .ok m ∧ predMatch loc attrs' db' = .ok m' ∧
      (∀ c, c ∈ m'.1 ↔ c ∈ m.1) ∧ m'.2 = m.2

variable {db' : Db} {attrs' : List (String × String)} (hnames : names.Nodup)

/-- What was scanned is scanned in the other order. -/
theorem Shuffled.scans (hsh : Shuffled db db' attrs attrs') (h : Scans names rows db attrs) :
    Scans names db'.wedPred db' attrs' := by
  rcases hsh.rows with ⟨σ, -, hperm⟩
  refine ⟨fun _ hp => hp, fun p hp => ?_, hsh.columns.trans h.columns,
    (hsh.state.map _).trans h.state⟩
  rcases List.mem_map.mp (hperm.subset hp) with ⟨q, hq, rfl⟩
  exact (hsh.conds.map _).symm.subset (h.known q hq)

include hrows in
theorem Shuffled.columns_eq (hsh : Shuffled db db' attrs attrs') (h : Scans names rows db attrs) :
    ∀ p ∈ db'.wedPred, (p.attrs.map (·.1)).Perm names := by
  rcases hsh.rows with ⟨σ, hσ, hperm⟩
  intro p hp
  rcases List.mem_map.mp (hperm.subset hp) with ⟨q, hq, rfl⟩
  exact ((hσ q.attrs).map _).trans (hrows q (h.drawn q hq))

include hrows hnames in
/-- No order matters. -/
theorem Shuffled.same (hsh : Shuffled db db' attrs attrs') (h : Scans names rows db attrs) :
    (∀ c, c ∈ (matchConds loc db' attrs').1 ↔ c ∈ (matchConds loc db attrs).1) ∧
      (matchConds loc db' attrs').2 = (matchConds loc db attrs).2 := by
  have hstate : stateOf attrs' = stateOf attrs := by
    funext c
    unfold stateOf
    rw [Table.lookup_perm (h.state.nodup_iff.mpr hnames) hsh.state c]
  have hmem : ∀ c, c ∈ (matchConds loc db' attrs').1 ↔ c ∈ (matchConds loc db attrs).1 := by
    intro c
    rw [(hsh.scans h).matched (hsh.columns_eq hrows h), h.matched hrows, hstate]
    -- A clause is read by column, so the order within a row drops out.
    rcases hsh.rows with ⟨σ, hσ, hperm⟩
    have hclause : ∀ q ∈ db.wedPred, PredRow.clause { q with attrs := σ q.attrs } = q.clause := by
      intro q hq
      funext a
      unfold PredRow.clause
      have hn := (hrows q (h.drawn q hq)).nodup_iff.mpr hnames
      rw [Table.lookup_perm hn (hσ q.attrs) a]
    constructor
    · rintro ⟨p, hp, hcid, hs⟩
      rcases List.mem_map.mp (hperm.subset hp) with ⟨q, hq, rfl⟩
      rw [hclause q hq] at hs
      exact ⟨q, hq, hcid, hs⟩
    · rintro ⟨q, hq, hcid, hs⟩
      rw [← hclause q hq] at hs
      exact ⟨_, hperm.symm.subset (List.mem_map.mpr ⟨q, hq, rfl⟩), hcid, hs⟩
  refine ⟨hmem, Bool.eq_iff_iff.mpr ?_⟩
  rw [final_iff, final_iff]
  simp only [hmem]
  exact ⟨fun ⟨d, hd, hf⟩ => ⟨d, hsh.conds.subset hd, hf⟩,
    fun ⟨d, hd, hf⟩ => ⟨d, hsh.conds.symm.subset hd, hf⟩⟩

end Attributes

/-! ## The documented meaning -/

/-- Hexadecimal digits keep their case, so no value is equal to all others up to
    case. -/
theorem exists_not_sameLower (loc : Locale) (v : String) : ∃ x, ¬ SameLower loc x v := by
  -- Of two different texts that are their own lower case, one differs from `v`.
  have hdigest : hexdigest ⟨List.replicate 16 0, rfl⟩ ≠ hexdigest ⟨List.replicate 16 1, rfl⟩ := by
    decide +kernel
  rw [← loc.lower_hexdigest, ← loc.lower_hexdigest ⟨List.replicate 16 1, rfl⟩] at hdigest
  by_contra hall
  simp only [not_exists, not_not] at hall
  exact hdigest ((hall _).trans (hall _).symm)

theorem denotes_iff (loc : Locale) (preds : List PredRow) (s : String → String) (c : Int) :
    Denotes (SameLower loc) (preds.map PredRow.labelled) s c ↔
      ∃ p ∈ preds, p.cid = c ∧ Sat (SameLower loc) s p.clause := by
  unfold Denotes
  constructor
  · rintro ⟨cl, hcl, hs⟩
    rcases List.mem_map.mp hcl with ⟨p, hp, he⟩
    rcases Prod.mk.inj he with ⟨rfl, rfl⟩
    exact ⟨p, hp, rfl, hs⟩
  · rintro ⟨p, hp, rfl, hs⟩
    exact ⟨p.clause, List.mem_map.mpr ⟨p, hp, rfl⟩, hs⟩

/-- A state that gives the attributes arbitrary values. -/
theorem stateOf_map (names : List String) (s : String → String) (c : String) (hc : c ∈ names) :
    stateOf (names.map fun n => (n, s n)) c = s c := by
  unfold stateOf
  induction names with
  | nil => exact absurd hc List.not_mem_nil
  | cons n names ih =>
      rw [List.map_cons, List.lookup_cons]
      by_cases hn : c = n
      · rw [hn, beq_self_eq_true]
        rfl
      · rw [beq_false_of_ne hn]
        exact ih ((List.mem_cons.mp hc).resolve_left hn)

/-- A table with the one row. -/
def oneRow (names : List String) (r : PredRow) : Db :=
  { Db.empty with wedCond := [⟨r.cid, false⟩], wedPred := [r], predColumns := names }

/-- Where the documented meaning is computed for the one row in every state, the
    row has no requirement that is overlooked. -/
theorem not_overlooked_of_oneRow {loc : Locale} {names : List String} {r : PredRow}
    (hr : (r.attrs.map (·.1)).Perm names)
    (h : ∀ attrs, Scans names [r] (oneRow names r) attrs → ComputesDnf loc (oneRow names r) attrs)
    (c v : String) (hv : r.clause c = some v) : overlooked c v = false := by
  have hrows : ∀ q ∈ [r], (q.attrs.map (·.1)).Perm names := by
    intro q hq
    rwa [List.mem_singleton.mp hq]
  refine (Dnf.forall_sat_relax_iff (r := SameLower loc) (fun _ => rfl) (exists_not_sameLower loc)
    r.clause).mp ?_ c v hv
  intro s hs
  -- The state is the valuation, on the attributes there are.
  have hscan : Scans names [r] (oneRow names r) (names.map fun n => (n, s n)) := by
    refine ⟨fun _ hp => hp, fun p hp => ?_, .refl _, ?_⟩
    · rw [List.mem_singleton.mp hp]
      exact List.mem_cons_self
    · rw [List.map_map, show ((·.1) ∘ fun n => (n, s n)) = (id : String → String) from rfl,
        List.map_id]
  have hagree : ∀ c v, r.clause c = some v → stateOf (names.map fun n => (n, s n)) c = s c := by
    intro c v hv
    have hmem := Table.mem_of_lookup (Option.join_eq_some_iff.mp hv)
    exact stateOf_map names s c (hr.subset (List.mem_map.mpr ⟨(c, some v), hmem, rfl⟩))
  have hrelax : ∀ c v, relax overlooked r.clause c = some v →
      stateOf (names.map fun n => (n, s n)) c = s c := by
    intro c v hv
    exact hagree c v (Option.filter_eq_some_iff.mp hv).1
  rcases (h _ hscan).matched with ⟨m, hm, hdnf, -⟩
  rw [hscan.ok, Except.ok.injEq] at hm
  subst hm
  have hin := (hscan.matched hrows r.cid).mpr
    ⟨r, List.mem_singleton_self r, rfl, (Dnf.sat_congr hrelax).mpr hs⟩
  rcases (denotes_iff loc _ _ _).mp ((hdnf r.cid).mp hin) with ⟨p, hp, -, hsat⟩
  rw [List.mem_singleton.mp hp] at hsat
  exact (Dnf.sat_congr hagree).mp hsat

/-- For every set of attributes and every stock of predicate rows, `pred_match`
    computes the documented meaning of all tables made of those rows, in all
    states, exactly if no row asks for an empty string and none asks for anything
    of an attribute named `wid` or `awic`. -/
theorem pred_match_dnf_iff (loc : Locale) (names : List String) (hnames : names.Nodup)
    (rows : List PredRow) (hrows : ∀ r ∈ rows, (r.attrs.map (·.1)).Perm names) :
    (∀ db attrs, Scans names rows db attrs → ComputesDnf loc db attrs) ↔
      ∀ r ∈ rows, ∀ c v, (c, some v) ∈ r.attrs → v ≠ "" ∧ c ≠ "wid" ∧ c ≠ "awic" := by
  have hover : ∀ r ∈ rows, (∀ c v, r.clause c = some v → overlooked c v = false) ↔
      ∀ c v, (c, some v) ∈ r.attrs → v ≠ "" ∧ c ≠ "wid" ∧ c ≠ "awic" := by
    intro r hr
    refine forall₂_congr (fun c v => ?_)
    rw [clause_eq_some_iff ((hrows r hr).nodup_iff.mpr hnames)]
    simp only [overlooked, Bool.or_eq_false_iff, decide_eq_false_iff_not, List.mem_cons,
      List.not_mem_nil, or_false, not_or, ne_eq]
  rw [← forall₂_congr hover]
  constructor
  · intro h r hr c v hv
    -- One row of the stock, as a table of its own, is a table made of those rows.
    refine not_overlooked_of_oneRow (hrows r hr) (fun attrs hs => h _ attrs ?_) c v hv
    refine ⟨fun p hp => ?_, hs.known, hs.columns, hs.state⟩
    rwa [List.mem_singleton.mp hp]
  · intro h db attrs hs
    refine ⟨⟨_, hs.ok, fun c => ?_, final_iff loc db attrs⟩, fun db' attrs' hsh => ?_⟩
    · rw [hs.matched hrows, denotes_iff]
      refine exists_congr (fun p => and_congr_right (fun hp => ?_))
      rw [Dnf.relax_eq_self (h p (hs.drawn p hp))]
    · exact ⟨_, _, hs.ok, (hsh.scans hs).ok, hsh.same hrows hnames hs⟩

theorem pred_match_dnf_tiny :
    ComputesDnf asciiLocale (run asciiLocale tiny) [("st", "Ready")] := by
  refine (pred_match_dnf_iff asciiLocale ["st"] (by decide) (run asciiLocale tiny).wedPred
    (by decide +kernel)).mpr ?_ _ _ ⟨fun _ hp => hp, by decide +kernel, by decide +kernel, by decide⟩
  have hpred : (run asciiLocale tiny).wedPred = [⟨1, 1, [("st", some "done")]⟩,
      ⟨2, 2, [("st", some "ready")]⟩, ⟨3, 3, [("st", some "ready")]⟩,
      ⟨4, 3, [("st", some "half")]⟩] := by
    decide +kernel
  rw [hpred]
  simp

/-- A flow with a predicate that asks for an empty note and for the value `ready`
    of another attribute. -/
def emptyAsked : List Input :=
  [.insertAttr ⟨"note", ""⟩, .insertAttr ⟨"st", "ready"⟩, .insertCond ⟨1, false⟩,
    .insertPred 1 1 [("note", some ""), ("st", some "ready")]].map (Input.mk (clock 0))

/-- In a state with another note the condition is returned all the same. -/
theorem empty_string_overlooked :
    predMatch asciiLocale [("note", "late"), ("st", "ready")] (run asciiLocale emptyAsked)
        = .ok ([1], false) ∧
      ¬ Denotes (SameLower asciiLocale) ((run asciiLocale emptyAsked).wedPred.map PredRow.labelled)
        (stateOf [("note", "late"), ("st", "ready")]) 1 := by
  refine ⟨by decide +kernel, ?_⟩
  rw [denotes_iff]
  rintro ⟨p, hp, -, hs⟩
  have hpred : (run asciiLocale emptyAsked).wedPred
      = [⟨1, 1, [("note", some ""), ("st", some "ready")]⟩] := by
    decide +kernel
  rw [hpred] at hp
  rw [List.mem_singleton.mp hp] at hs
  have hnote : asciiLower "late" = asciiLower "" := hs "note" "" rfl
  exact absurd hnote (by decide +kernel)

end WedFlow
