import WedFlow.Theory.Invariant

/-!
# Attributes and Their Columns

`wed_attr` says which attributes there are, and the columns of `wed_flow`,
`wed_trace` and `wed_pred` have to say the same. Nothing but the trigger function
`new_wed_attr` keeps the four in step, so the question is what any sequence of
inserts and updates on `wed_attr`, accepted or not, can make of them.

The four together are a `Catalog`, and `Catalog.Step` lists what one statement
does to it. Names never drift: the columns carry the names of the attributes, in
the same order, which is the invariant `Aligned`. Defaults can. An update that
changes the name of an attribute together with its default only renames the
column, so the column keeps a default the attribute no longer has. It is the one
way out of step there is, and `columns_synced_iff` says so in both directions.

Names are taken to have at most 63 bytes. A longer one is cut when it becomes a
column and not when it is stored.

## Main definitions

* `Catalog`: The attributes and the columns of three tables.
* `Catalog.Synced`: The columns are those of the attributes, and their defaults.
* `Catalog.Aligned`: The names of the columns, in order.
* `Catalog.Step`: What one statement does to a catalog.
* `Op.shortNames`: A statement names no attribute in more than 63 bytes.
* `Kept`: The three tables have the same columns, whatever the length of the names.
* `changesBoth`: An accepted update that changes both a name and its default.

## Theorems

* `catalog_exec`: Every accepted statement makes such a step.
* `run_aligned`, `run_kept`: Names never drift.
* `columns_synced_iff`: When the defaults do not drift either.
-/

namespace WedFlow

open Sql

/-! ## Catalogs -/

/-- The attributes, and the attribute columns of `wed_flow`, `wed_trace` and
    `wed_pred`. -/
structure Catalog where
  attrs : List AttrRow
  flow : List Column
  trace : List Column
  pred : List String

def Db.catalog (db : Db) : Catalog :=
  ⟨db.wedAttr, db.flowColumns, db.traceColumns, db.predColumns⟩

namespace Catalog

/-- The three tables have the columns the attributes name, with the defaults the
    attributes have where there are any. -/
structure Synced (c : Catalog) : Prop where
  flow : ∀ n, n ∈ c.flow.map (·.name) ↔ n ∈ c.attrs.map (·.name)
  trace : ∀ n, n ∈ c.trace.map (·.name) ↔ n ∈ c.attrs.map (·.name)
  pred : ∀ n, n ∈ c.pred ↔ n ∈ c.attrs.map (·.name)
  flowDefault : ∀ a ∈ c.attrs, ∀ k ∈ c.flow, k.name = a.name → k.default = a.defaultValue
  traceDefault : ∀ a ∈ c.attrs, ∀ k ∈ c.trace, k.name = a.name → k.default = a.defaultValue

/-- The columns carry the names of the attributes in the order of the attributes.
    No name occurs twice, and none was cut. -/
structure Aligned (c : Catalog) : Prop where
  flow : c.flow.map (·.name) = c.attrs.map (·.name)
  trace : c.trace.map (·.name) = c.attrs.map (·.name)
  pred : c.pred = c.attrs.map (·.name)
  distinct : Table.Unique (·.name) c.attrs
  uncut : ∀ a ∈ c.attrs, columnName a.name = a.name

/-- The column an attribute should have. -/
def column (a : AttrRow) : Column :=
  ⟨a.name, a.defaultValue⟩

/-- The columns are those the attributes should have, in order. -/
def Defaulted (c : Catalog) : Prop :=
  c.flow = c.attrs.map column ∧ c.trace = c.attrs.map column

/-- Columns with the names of the attributes and with their defaults are the
    columns the attributes should have. -/
theorem eq_map_column (cols : List Column) (attrs : List AttrRow)
    (hnames : cols.map (·.name) = attrs.map (·.name))
    (hdef : ∀ a ∈ attrs, ∀ k ∈ cols, k.name = a.name → k.default = a.defaultValue) :
    cols = attrs.map column := by
  induction cols generalizing attrs with
  | nil =>
      rw [List.map_eq_nil_iff.mp hnames.symm]
      rfl
  | cons k cols ih =>
      cases attrs with
      | nil => exact absurd hnames (List.cons_ne_nil _ _)
      | cons a attrs =>
          rcases List.cons.inj hnames with ⟨hname, htail⟩
          have hk : k = column a := by
            have hval := hdef a List.mem_cons_self k List.mem_cons_self hname
            cases k
            exact Column.mk.injEq .. ▸ ⟨hname, hval⟩
          rw [List.map_cons, ← hk, ih attrs htail (fun b hb l hl =>
            hdef b (List.mem_cons_of_mem _ hb) l (List.mem_cons_of_mem _ hl))]

/-- With distinct names, the column of a name has the default of the attribute. -/
theorem default_of_mem_map_column {attrs : List AttrRow} (hu : Table.Unique (·.name) attrs)
    {a : AttrRow} (ha : a ∈ attrs) {k : Column} (hk : k ∈ attrs.map column)
    (hname : k.name = a.name) : k.default = a.defaultValue := by
  rcases List.mem_map.mp hk with ⟨b, hb, rfl⟩
  rw [← hu.eq_of_mem hb ha hname]
  rfl

/-- Once the names are in order, being in step is a matter of defaults. -/
theorem Aligned.synced_iff {c : Catalog} (h : c.Aligned) : c.Synced ↔ c.Defaulted := by
  constructor
  · intro hs
    exact ⟨eq_map_column _ _ h.flow hs.flowDefault, eq_map_column _ _ h.trace hs.traceDefault⟩
  · intro hd
    refine ⟨fun n => by rw [h.flow], fun n => by rw [h.trace], fun n => by rw [h.pred], ?_, ?_⟩
    · intro a ha k hk hname
      rw [hd.1] at hk
      exact default_of_mem_map_column h.distinct ha hk hname
    · intro a ha k hk hname
      rw [hd.2] at hk
      exact default_of_mem_map_column h.distinct ha hk hname

/-! ## Steps -/

/-- An attribute is inserted, and its column added to the three tables. -/
def add (new : AttrRow) (c : Catalog) : Catalog where
  attrs := c.attrs ++ [new]
  flow := c.flow ++ [⟨columnName new.name, new.defaultValue⟩]
  trace := c.trace ++ [⟨columnName new.name, new.defaultValue⟩]
  pred := c.pred ++ [columnName new.name]

/-- The row of an attribute is replaced, and its column renamed. -/
def rename (name : String) (new : AttrRow) (c : Catalog) : Catalog where
  attrs := Table.updateWhere (fun a => a.name = name) (fun _ => new) c.attrs
  flow := c.flow.map (renameColumn (columnName name) (columnName new.name))
  trace := c.trace.map (renameColumn (columnName name) (columnName new.name))
  pred := c.pred.map fun n => if n = columnName name then columnName new.name else n

/-- The row of an attribute is replaced, and the default of its column set. -/
def setDefault (name : String) (new : AttrRow) (c : Catalog) : Catalog where
  attrs := Table.updateWhere (fun a => a.name = name) (fun _ => new) c.attrs
  flow := c.flow.map (WedFlow.setDefault (columnName name) new.defaultValue)
  trace := c.trace.map (WedFlow.setDefault (columnName name) new.defaultValue)
  pred := c.pred

/-- What one accepted statement does to the catalog. -/
inductive Step (c : Catalog) : Op → Catalog → Prop where
  | add (new : AttrRow) (hfree : columnName new.name ∉ c.flow.map (·.name)) :
      Step c (.insertAttr new) (c.add new)
  | missing (name : String) (new : AttrRow) (h : ∀ a ∈ c.attrs, a.name ≠ name) :
      Step c (.updateAttr name new) c
  | rename (name : String) (new old : AttrRow) (hold : old ∈ c.attrs) (hname : old.name = name)
      (hne : new.name ≠ name) (hfree : columnName new.name ∉ c.flow.map (·.name)) :
      Step c (.updateAttr name new) (c.rename name new)
  | setDefault (name : String) (new old : AttrRow) (hold : old ∈ c.attrs) (hname : old.name = name)
      (heq : new.name = name) : Step c (.updateAttr name new) (c.setDefault name new)
  | other (op : Op) (h : ¬ op.Restyles) : Step c op c

/-! ### Adding a column -/

theorem Aligned.add {c : Catalog} (h : c.Aligned) {new : AttrRow}
    (huncut : columnName new.name = new.name)
    (hfree : columnName new.name ∉ c.flow.map (·.name)) : (c.add new).Aligned := by
  -- A free column name is a free attribute name, because no name was cut.
  rw [huncut, h.flow] at hfree
  refine ⟨?_, ?_, ?_, ?_, ?_⟩
  · dsimp only [Catalog.add]
    rw [List.map_append, List.map_append, h.flow, huncut]
    rfl
  · dsimp only [Catalog.add]
    rw [List.map_append, List.map_append, h.trace, huncut]
    rfl
  · dsimp only [Catalog.add]
    rw [List.map_append, h.pred, huncut]
    rfl
  · unfold Table.Unique Catalog.add
    rw [List.map_append, List.map_cons, List.map_nil, ← List.concat_eq_append]
    exact h.distinct.concat hfree
  · intro a ha
    rcases List.mem_append.mp ha with ha | ha
    · exact h.uncut a ha
    · rw [List.mem_singleton.mp ha]
      exact huncut

theorem Defaulted.add {c : Catalog} (h : c.Defaulted) {new : AttrRow}
    (huncut : columnName new.name = new.name) : (c.add new).Defaulted := by
  unfold Defaulted Catalog.add
  rw [h.1, h.2, huncut, List.map_append]
  exact ⟨rfl, rfl⟩

/-! ### Changing an attribute -/

/-- The names after an update of one attribute. -/
theorem names_updateWhere (name : String) (new : AttrRow) (attrs : List AttrRow) :
    (Table.updateWhere (fun a => a.name = name) (fun _ => new) attrs).map (·.name)
      = (attrs.map (·.name)).map fun n => if n = name then new.name else n := by
  unfold Table.updateWhere
  rw [List.map_map, List.map_map]
  refine List.map_congr_left (fun a _ => ?_)
  dsimp only [Function.comp_apply]
  rw [apply_ite AttrRow.name]
  simp only [decide_eq_true_eq]

/-- The columns after an update of one attribute, had they followed it. -/
theorem column_updateWhere (name : String) (new : AttrRow) (attrs : List AttrRow) :
    (Table.updateWhere (fun a => a.name = name) (fun _ => new) attrs).map column
      = attrs.map fun a => if a.name = name then column new else column a := by
  unfold Table.updateWhere
  rw [List.map_map]
  refine List.map_congr_left (fun a _ => ?_)
  dsimp only [Function.comp_apply]
  rw [apply_ite column]
  simp only [decide_eq_true_eq]

theorem uncut_updateWhere {name : String} {new : AttrRow} {attrs : List AttrRow}
    (h : ∀ a ∈ attrs, columnName a.name = a.name) (huncut : columnName new.name = new.name) :
    ∀ a ∈ Table.updateWhere (fun a => a.name = name) (fun _ => new) attrs,
      columnName a.name = a.name := by
  intro a ha
  rcases (Table.mem_updateWhere _ _ _ _).mp ha with ⟨b, hb, rfl⟩
  split
  · exact huncut
  · exact h b hb

theorem Aligned.rename {c : Catalog} (h : c.Aligned) {new old : AttrRow} (hold : old ∈ c.attrs)
    (huncut : columnName new.name = new.name)
    (hfree : columnName new.name ∉ c.flow.map (·.name)) : (c.rename old.name new).Aligned := by
  -- The attribute is found by its name and the column by the cut one.
  have hcut := h.uncut old hold
  have hcols : ∀ cols : List Column, cols.map (·.name) = c.attrs.map (·.name) →
      (cols.map (renameColumn (columnName old.name) (columnName new.name))).map (·.name)
        = (Table.updateWhere (fun a => a.name = old.name) (fun _ => new) c.attrs).map (·.name) := by
    intro cols hc
    rw [names_updateWhere, names_renameColumn, hc, hcut, huncut]
  refine ⟨hcols _ h.flow, hcols _ h.trace, ?_, ?_, uncut_updateWhere h.uncut huncut⟩
  · dsimp only [Catalog.rename]
    rw [names_updateWhere, h.pred, hcut, huncut]
  · rw [huncut, h.flow] at hfree
    exact h.distinct.updateWhere_key old.name new
      (fun q hq _ heq => hfree (heq ▸ List.mem_map_of_mem hq))

theorem Aligned.setDefault {c : Catalog} (h : c.Aligned) {new old : AttrRow} (hold : old ∈ c.attrs)
    (heq : new.name = old.name) : (c.setDefault old.name new).Aligned := by
  -- The new row has the name of the old one, so no name changes anywhere.
  have hnames : (Table.updateWhere (fun a => a.name = old.name) (fun _ => new) c.attrs).map (·.name)
      = c.attrs.map (·.name) := by
    rw [names_updateWhere, heq]
    conv_rhs => rw [← List.map_id (c.attrs.map (·.name))]
    refine List.map_congr_left (fun n _ => ?_)
    split
    · next hn => exact hn.symm
    · rfl
  have hcols : ∀ cols : List Column, cols.map (·.name) = c.attrs.map (·.name) →
      (cols.map (WedFlow.setDefault (columnName old.name) new.defaultValue)).map (·.name)
        = (Table.updateWhere (fun a => a.name = old.name) (fun _ => new) c.attrs).map (·.name) := by
    intro cols hc
    rw [hnames, names_setDefault, hc]
  refine ⟨hcols _ h.flow, hcols _ h.trace, h.pred.trans hnames.symm, ?_,
    uncut_updateWhere h.uncut (heq ▸ h.uncut old hold)⟩
  unfold Table.Unique Catalog.setDefault
  rw [hnames]
  exact h.distinct

/-- Setting the default of a column follows the attribute. -/
theorem Defaulted.setDefault {c : Catalog} (h : c.Defaulted) {name : String} {new : AttrRow}
    (huncut : columnName name = name) (heq : new.name = name) :
    (c.setDefault name new).Defaulted := by
  have hcols : (c.attrs.map column).map (WedFlow.setDefault (columnName name) new.defaultValue)
      = (Table.updateWhere (fun a => a.name = name) (fun _ => new) c.attrs).map column := by
    rw [column_updateWhere, List.map_map, huncut]
    refine List.map_congr_left (fun a _ => ?_)
    dsimp only [Function.comp_apply, WedFlow.setDefault, column]
    split
    · next hn => rw [hn, heq]
    · rfl
  unfold Defaulted
  dsimp only [Catalog.setDefault]
  rw [h.1, h.2]
  exact ⟨hcols, hcols⟩

/-- Renaming a column keeps its default, which is right only if the attribute
    keeps its default too. -/
theorem Defaulted.rename_iff {c : Catalog} (h : c.Defaulted) {name : String} {new : AttrRow}
    (huncut : columnName name = name) (hnew : columnName new.name = new.name) :
    (c.rename name new).Defaulted ↔
      ∀ a ∈ c.attrs, a.name = name → a.defaultValue = new.defaultValue := by
  -- Of the renamed column only the default is in question.
  have hcols : (c.attrs.map column).map (renameColumn (columnName name) (columnName new.name))
        = (Table.updateWhere (fun a => a.name = name) (fun _ => new) c.attrs).map column ↔
      ∀ a ∈ c.attrs, a.name = name → a.defaultValue = new.defaultValue := by
    rw [column_updateWhere, List.map_map, huncut, hnew, List.map_inj_left]
    refine forall₂_congr (fun a _ => ?_)
    dsimp only [Function.comp_apply, renameColumn, column]
    by_cases hn : a.name = name
    · simp only [hn, if_true, Column.mk.injEq, true_and, true_implies]
    · simp only [hn, if_false, false_implies]
  unfold Defaulted
  dsimp only [Catalog.rename]
  rw [h.1, h.2, and_self_iff]
  exact hcols

end Catalog

/-! ## Statements -/

/-- Everything but a statement on the attributes leaves the catalog alone. -/
theorem catalog_change {loc : Locale} {env : Env} {db db' : Db} {op : Op} {r : Reply}
    (h : Change loc env db op r db') (hop : ¬ op.Restyles) : db'.catalog = db.catalog := by
  cases h with
  | update wid newWid uptkn vals old u db₁ w h =>
      rcases h.justified with ⟨f, e, -, -, hj⟩
      unfold Db.catalog
      rw [hj.same]
      rfl
  | redefine op db' hdef h =>
      unfold Db.catalog
      rw [h.same]
  | restyle op db' hres h => exact absurd hres hop
  | _ => rfl

theorem catalog_insertAttr {loc : Locale} {new : AttrRow} {db db' : Db}
    (h : insertAttr loc new db = .ok db') :
    Catalog.Step db.catalog (.insertAttr new) db'.catalog := by
  unfold insertAttr newWedAttrInsert at h
  rw [Table.guard_eq_ok] at h
  rcases h with ⟨-, h⟩
  dsimp only at h
  split at h
  · next hfree =>
      rw [← Except.ok.inj h]
      exact .add new (freeEverywhere_flow hfree)
  · exact absurd h (nomatch ·)

/-- A changed name is a rename; the default is looked at only otherwise. -/
theorem catalog_newWedAttrUpdate {old new : AttrRow} {db db' : Db}
    (h : newWedAttrUpdate old new db = .ok db') :
    (new.name ≠ old.name ∧ columnName new.name ∉ db.flowColumns.map (·.name) ∧
        db'.catalog = { Catalog.rename old.name new db.catalog with attrs := db.wedAttr }) ∨
      (new.name = old.name ∧
        db'.catalog = { Catalog.setDefault old.name new db.catalog with attrs := db.wedAttr }) := by
  unfold newWedAttrUpdate at h
  dsimp only at h
  -- The source tests the name first, and looks at the default in the `elif`.
  by_cases hne : new.name ≠ old.name
  · rw [if_pos hne] at h
    split at h
    · next hfree =>
        rw [← Except.ok.inj h]
        exact .inl ⟨hne, freeEverywhere_flow hfree.2.2.2, rfl⟩
    · exact absurd h (nomatch ·)
  · rw [if_neg hne] at h
    split at h
    · split at h
      · rw [← Except.ok.inj h]
        exact .inr ⟨not_not.mp hne, rfl⟩
      · exact absurd h (nomatch ·)
    · exact absurd h (nomatch ·)

theorem catalog_updateAttr {loc : Locale} {name : String} {new : AttrRow} {db db' : Db}
    (h : updateAttr loc name new db = .ok db') :
    Catalog.Step db.catalog (.updateAttr name new) db'.catalog := by
  unfold updateAttr at h
  cases hf : db.wedAttr.find? (fun a => a.name = name) with
  | none =>
      rw [hf] at h
      rw [← Except.ok.inj h]
      exact .missing name new (fun a ha => by
        simpa only [decide_eq_true_eq] using List.find?_eq_none.mp hf a ha)
  | some old =>
      rw [hf] at h
      dsimp only at h
      rw [Table.guard_eq_ok] at h
      have hold := List.mem_of_find?_eq_some hf
      have hname : old.name = name := by
        simpa only [decide_eq_true_eq] using List.find?_some hf
      subst hname
      rcases catalog_newWedAttrUpdate h.2 with ⟨hne, hfree, hc⟩ | ⟨heq, hc⟩
      · rw [hc]
        exact .rename old.name new old hold rfl hne hfree
      · rw [hc]
        exact .setDefault old.name new old hold rfl heq

/-- Every accepted statement makes a step of the catalog. -/
theorem catalog_exec (loc : Locale) (i : Input) (db db' : Db) (r : Reply) (hi : Inv db)
    (h : exec loc i db = .ok (db', r)) : Catalog.Step db.catalog i.op db'.catalog := by
  by_cases hop : i.op.Restyles
  · rcases i with ⟨env, op⟩
    cases op with
    | insertAttr new =>
        exact catalog_insertAttr (acknowledged h).1
    | updateAttr name new =>
        exact catalog_updateAttr (acknowledged h).1
    | _ => exact hop.elim
  · rw [catalog_change (exec_change loc i db db' r hi h) hop]
    exact .other i.op hop

/-! ## Names -/

/-- The statement gives no attribute a name of more than 63 bytes. -/
def Op.shortNames : Op → Bool
  | .insertAttr new => byteLength new.name ≤ 63
  | .updateAttr _ new => byteLength new.name ≤ 63
  | _ => true

theorem Catalog.Aligned.step {c c' : Catalog} {op : Op} (h : c.Aligned) (hs : Catalog.Step c op c')
    (hop : op.shortNames = true) : c'.Aligned := by
  cases hs with
  | add new hfree => exact h.add (columnName_of_le (of_decide_eq_true hop)) hfree
  | missing name new hno => exact h
  | rename name new old hold hname hne hfree =>
      subst hname
      exact h.rename hold (columnName_of_le (of_decide_eq_true hop)) hfree
  | setDefault name new old hold hname heq =>
      subst hname
      exact h.setDefault hold heq
  | other op hno => exact h

theorem aligned_step (loc : Locale) (i : Input) (db : Db) (hop : i.op.shortNames = true)
    (h : Inv db ∧ db.catalog.Aligned) :
    Inv (step loc db i) ∧ (step loc db i).catalog.Aligned := by
  refine ⟨inv_step loc i db h.1, step_cases loc db i (fun d => d.catalog.Aligned) h.2 ?_⟩
  intro db' r hex
  exact h.2.step (catalog_exec loc i db db' r h.1 hex) hop

theorem aligned_empty : Db.empty.catalog.Aligned :=
  ⟨rfl, rfl, rfl, List.nodup_nil, fun _ h => nomatch h⟩

/-- Whatever is done to the attributes, the three tables have their names. -/
theorem run_aligned (loc : Locale) (is : List Input) (his : ∀ i ∈ is, i.op.shortNames = true) :
    (run loc is).catalog.Aligned :=
  (Machine.after_invariant (step loc) (fun i => i.op.shortNames = true)
    (fun db => Inv db ∧ db.catalog.Aligned) (fun db i => aligned_step loc i db) Db.empty
    ⟨inv_empty, aligned_empty⟩ is his).2

/-- Names of any length: the other two tables have the columns of `wed_flow`. No name
    occurs twice, and every name has been cut to its length. -/
structure Kept (c : Catalog) : Prop where
  trace : c.trace.map (·.name) = c.flow.map (·.name)
  pred : c.pred = c.flow.map (·.name)
  distinct : (c.flow.map (·.name)).Nodup
  short : ∀ k ∈ c.flow, truncateIdentifier k.name.toList = k.name.toList

theorem Kept.step {c c' : Catalog} {op : Op} (h : Kept c) (hs : Catalog.Step c op c') :
    Kept c' := by
  cases hs with
  | add new hfree =>
      refine ⟨?_, ?_, ?_, ?_⟩
      · dsimp only [Catalog.add]
        -- The triggers give the three tables the same new column.
        rw [List.map_append, List.map_append, h.trace]
      · dsimp only [Catalog.add]
        rw [List.map_append, h.pred]
        rfl
      · dsimp only [Catalog.add]
        rw [List.map_append, List.map_cons, List.map_nil, ← List.concat_eq_append]
        exact h.distinct.concat hfree
      · exact List.forall_mem_append.mpr
          ⟨h.short, List.forall_mem_singleton.mpr (columnName_short new.name)⟩
  | missing name new hno => exact h
  | rename name new old hold hname hne hfree =>
      refine ⟨?_, ?_, ?_, ?_⟩
      · dsimp only [Catalog.rename]
        rw [names_renameColumn, names_renameColumn, h.trace]
      · dsimp only [Catalog.rename]
        rw [names_renameColumn, h.pred]
      · dsimp only [Catalog.rename]
        rw [names_renameColumn]
        exact Table.nodup_rename h.distinct hfree
      · intro k hk
        rcases List.mem_map.mp hk with ⟨q, hq, rfl⟩
        dsimp only [renameColumn]
        split
        · exact columnName_short new.name
        · exact h.short q hq
  | setDefault name new old hold hname heq =>
      refine ⟨?_, ?_, ?_, ?_⟩
      · dsimp only [Catalog.setDefault]
        rw [names_setDefault, names_setDefault, h.trace]
      · dsimp only [Catalog.setDefault]
        rw [names_setDefault, h.pred]
      · dsimp only [Catalog.setDefault]
        rw [names_setDefault]
        exact h.distinct
      · intro k hk
        rcases List.mem_map.mp hk with ⟨q, hq, rfl⟩
        exact h.short q hq
  | other op hno => exact h

theorem kept_empty : Kept Db.empty.catalog :=
  ⟨rfl, rfl, List.nodup_nil, fun _ hk => nomatch hk⟩

/-- In every run the other two tables have the columns of `wed_flow`. -/
theorem run_kept (loc : Locale) (is : List Input) : Kept (run loc is).catalog := by
  refine (run_invariant loc (fun _ => True) (fun db => Inv db ∧ Kept db.catalog)
    ⟨inv_empty, kept_empty⟩ ?_ is (fun _ _ => trivial)).2
  intro db i db' r _ h hex
  exact ⟨inv_exec loc i db db' r h.1 hex, h.2.step (catalog_exec loc i db db' r h.1 hex)⟩

/-! ## Defaults -/

/-- The statement is an accepted update of an attribute that changes its name and
    its default together. -/
def changesBoth (loc : Locale) (p : Db × Input) : Bool :=
  match p.2.op, exec loc p.2 p.1 with
  | .updateAttr name new, .ok _ =>
    p.1.wedAttr.any fun a => a.name = name && new.name ≠ name && a.defaultValue ≠ new.defaultValue
  | _, _ => false

theorem changesBoth_other {loc : Locale} {db : Db} {i : Input} (h : ¬ i.op.Restyles) :
    changesBoth loc (db, i) = false := by
  rcases i with ⟨env, op⟩
  cases op with
  | updateAttr name new => exact absurd trivial h
  | _ => rfl

theorem changesBoth_updateAttr {loc : Locale} {env : Env} {db db' : Db} {name : String}
    {new : AttrRow} {r : Reply} (h : exec loc ⟨env, .updateAttr name new⟩ db = .ok (db', r)) :
    changesBoth loc (db, ⟨env, .updateAttr name new⟩) = false ↔
      ∀ a ∈ db.wedAttr, a.name = name → new.name ≠ name → a.defaultValue = new.defaultValue := by
  unfold changesBoth
  dsimp only
  rw [h]
  simp only [List.any_eq_false, Bool.and_eq_true, decide_eq_true_eq, not_and, not_not, and_imp]

/-- A statement keeps the defaults in step exactly if it does not change a name
    and its default together. -/
theorem defaulted_step_iff (loc : Locale) (i : Input) (db : Db) (hop : i.op.shortNames = true)
    (h : Inv db ∧ db.catalog.Aligned) (hd : db.catalog.Defaulted) :
    (step loc db i).catalog.Defaulted ↔ changesBoth loc (db, i) = false := by
  rcases i with ⟨env, op⟩
  rcases hex : exec loc ⟨env, op⟩ db with e | ⟨db', r⟩
  · have hstay : step loc db ⟨env, op⟩ = db := by
      unfold step
      rw [hex]
    have hno : changesBoth loc (db, ⟨env, op⟩) = false := by
      unfold changesBoth
      dsimp only
      rw [hex]
      split
      · next heq => exact absurd heq (nomatch ·)
      · rfl
    rw [hstay]
    exact iff_of_true hd hno
  · rw [step_of_exec hex]
    have hs := catalog_exec loc ⟨env, op⟩ db db' r h.1 hex
    dsimp only at hs hop
    generalize hc : db'.catalog = c' at hs
    -- Only the renaming step has something to compare.
    cases hs with
    | add new hfree =>
        exact iff_of_true (hd.add (columnName_of_le (of_decide_eq_true hop))) rfl
    | missing name new hno =>
        refine iff_of_true hd ((changesBoth_updateAttr hex).mpr ?_)
        exact fun a ha hname => absurd hname (hno a ha)
    | rename name new old hold hname hne hfree =>
        have hold' : columnName name = name := hname ▸ h.2.uncut old hold
        rw [hd.rename_iff hold' (columnName_of_le (of_decide_eq_true hop)),
          changesBoth_updateAttr hex]
        exact forall₃_congr (fun a _ _ => ⟨fun hv _ => hv, fun hv => hv hne⟩)
    | setDefault name new old hold hname heq =>
        refine iff_of_true (hd.setDefault (hname ▸ h.2.uncut old hold) heq)
          ((changesBoth_updateAttr hex).mpr ?_)
        exact fun a _ _ hne => absurd heq hne
    | other op hno => exact iff_of_true hd (changesBoth_other hno)

/-- After every sequence of statements the columns are those of the attributes
    with their defaults, exactly if no accepted update of an attribute changed its
    name and its default together. -/
theorem columns_synced_iff (loc : Locale) (is : List Input)
    (his : ∀ i ∈ is, i.op.shortNames = true) :
    (∀ is', is' <+: is → (run loc is').catalog.Synced) ↔
      ∀ p ∈ Machine.history (step loc) Db.empty is, changesBoth loc p = false := by
  have hsync : (∀ is', is' <+: is → (run loc is').catalog.Synced) ↔
      ∀ is', is' <+: is → (run loc is').catalog.Defaulted := by
    refine forall₂_congr (fun is' hpre => ?_)
    exact (run_aligned loc is' (fun i hi => his i (hpre.subset hi))).synced_iff
  rw [hsync]
  -- The names hold along the whole run, so the defaults decide step by step.
  exact Machine.forall_prefix_iff (step loc) (fun i => i.op.shortNames = true)
    (fun db => Inv db ∧ db.catalog.Aligned) (fun db i => aligned_step loc i db)
    (fun db i => changesBoth loc (db, i) = false) (fun db => db.catalog.Defaulted)
    (fun db i hop h hd => defaulted_step_iff loc i db hop h hd) Db.empty
    ⟨inv_empty, aligned_empty⟩ ⟨rfl, rfl⟩ is his

/-- An attribute is inserted, renamed to a name that differs in case, renamed
    once more and given another default, by one update each. -/
def restyling : List Input :=
  [⟨clock 1, .insertAttr ⟨"owner", ""⟩⟩, ⟨clock 2, .updateAttr "owner" ⟨"Owner", ""⟩⟩,
    ⟨clock 3, .updateAttr "Owner" ⟨"buyer", ""⟩⟩, ⟨clock 4, .updateAttr "buyer" ⟨"buyer", "none"⟩⟩]

theorem columns_synced_restyling :
    (∀ i ∈ restyling, i.op.shortNames = true) ∧
      ∀ is', is' <+: restyling → (run asciiLocale is').catalog.Synced :=
  ⟨by decide +kernel,
    (columns_synced_iff asciiLocale restyling (by decide +kernel)).mpr (by decide +kernel)⟩

/-- One update gives the attribute a new name and a new default. It is accepted,
    and the columns of the new name keep the old default. -/
theorem stale_default :
    ¬ (run asciiLocale [⟨clock 1, .insertAttr ⟨"owner", "shop"⟩⟩,
      ⟨clock 2, .updateAttr "owner" ⟨"buyer", "none"⟩⟩]).catalog.Synced := by
  intro h
  have hdefault := h.flowDefault ⟨"buyer", "none"⟩ (by decide +kernel) ⟨"buyer", "shop"⟩
    (by decide +kernel) rfl
  exact absurd hdefault (by decide)

end WedFlow
