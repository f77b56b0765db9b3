import WedFlow.Theory.Entries
import WedFlow.Theory.Invariant

/-!
# Texts

Which texts a statement brings into the tables, and what the tables look like if all of
them are of some kind. There are two places they come from: the values of a state, and
the names and defaults of attributes.

Two kinds matter. Plain values have nothing in them that Python would escape, and the
history shows them as they are. Values without both kinds of quotes are read back as one
literal or not at all, and that is enough for the history to have the rows it should
have. With the names being lower-case identifiers in either case, a write is recorded as
one row, the one that was meant: `Conform.recorded`.

## Main definitions

* `Op.Texts`: The names and values of a statement are of some kind.
* `Op.PlainText`, `Op.HeldText`: They are plain, or without both kinds of quotes.
* `Conform`: Rows, columns and defaults fit each other and are of the kind.

## Theorems

* `conform_exec`, `run_conform`: Statements of a kind keep the tables of the kind.
* `Conform.recorded`: What a write leaves in the history.
-/

namespace WedFlow

open Python Sql

/-! ## Kinds of texts -/

/-- The attribute names of a statement and its values are of some kind. -/
def Op.Texts (N V : String → Prop) : Op → Prop
  | .insertFlow _ _ vals => ∀ a ∈ vals, ∀ v ∈ a.2, V v
  | .updateFlow _ _ _ vals => ∀ a ∈ vals, ∀ v ∈ a.2, V v
  | .insertAttr new => N new.name ∧ V new.defaultValue
  | .updateAttr _ new => N new.name ∧ V new.defaultValue
  | _ => True

instance (N V : String → Prop) [DecidablePred N] [DecidablePred V] : DecidablePred (Op.Texts N V) :=
  fun op =>
  match op with
  | .insertFlow _ _ vals => inferInstanceAs (Decidable (∀ a ∈ vals, ∀ v ∈ a.2, V v))
  | .updateFlow _ _ _ vals => inferInstanceAs (Decidable (∀ a ∈ vals, ∀ v ∈ a.2, V v))
  | .insertAttr new => inferInstanceAs (Decidable (N new.name ∧ V new.defaultValue))
  | .updateAttr _ new => inferInstanceAs (Decidable (N new.name ∧ V new.defaultValue))
  | .jobLock _ _ => .isTrue trivial
  | .jobAbort _ => .isTrue trivial
  | .jobInspector => .isTrue trivial
  | .insertCond _ => .isTrue trivial
  | .updateCond _ _ => .isTrue trivial
  | .insertPred _ _ _ => .isTrue trivial
  | .updatePred _ _ _ _ => .isTrue trivial
  | .insertTrig _ => .isTrue trivial
  | .updateTrig _ _ => .isTrue trivial

/-- The attribute names of a statement are lower-case identifiers that are not
    reserved, and its values have nothing to escape in them. -/
def Op.PlainText (table : Char → Bool) : Op → Prop :=
  Op.Texts (PlainIdent table) fun v => Plain table v.toList

instance (table : Char → Bool) : DecidablePred (Op.PlainText table) := fun op =>
  inferInstanceAs (Decidable (op.Texts (PlainIdent table) fun v => Plain table v.toList))

/-- The attribute names of a statement are lower-case identifiers that are not
    reserved, and no value has both kinds of quotes in it. -/
def Op.HeldText (table : Char → Bool) : Op → Prop :=
  Op.Texts (PlainIdent table) fun v => ¬ Escapes v

instance (table : Char → Bool) : DecidablePred (Op.HeldText table) := fun op =>
  inferInstanceAs (Decidable (op.Texts (PlainIdent table) fun v => ¬ Escapes v))

theorem Op.Texts.mono {N V V' : String → Prop} (hV : ∀ v, V v → V' v) {op : Op}
    (h : op.Texts N V) : op.Texts N V' := by
  cases op with
  | insertFlow wid uptkn vals => exact fun a ha v hv => hV v (h a ha v hv)
  | updateFlow wid newWid uptkn vals => exact fun a ha v hv => hV v (h a ha v hv)
  | insertAttr new => exact ⟨h.1, hV _ h.2⟩
  | updateAttr name new => exact ⟨h.1, hV _ h.2⟩
  | _ => trivial

/-- Plain values have no single quote. -/
theorem not_escapes_of_plain {table : Char → Bool} {v : String} (h : Plain table v.toList) :
    ¬ Escapes v :=
  fun hq => (h '\'' hq.1).1 rfl

theorem Op.PlainText.held {table : Char → Bool} {op : Op} (h : op.PlainText table) :
    op.HeldText table :=
  Op.Texts.mono (fun _ => not_escapes_of_plain) h

/-! ## Tables of a kind -/

/-- A column whose name is printed and read as it is, with a default of the kind. -/
structure PlainColumn (table : Char → Bool) (V : String → Prop) (c : Column) : Prop where
  ident : PlainIdent table c.name
  short : truncateIdentifier c.name.toList = c.name.toList
  default : V c.default

/-- The two tables have the same columns, with plain names, and every row has these
    columns and values of the kind. -/
structure Conform (table : Char → Bool) (V : String → Prop) (db : Db) : Prop where
  columns : db.traceColumns = db.flowColumns
  distinct : (db.flowColumns.map (·.name)).Nodup
  plain : ∀ c ∈ db.flowColumns, PlainColumn table V c
  names : ∀ r ∈ db.wedFlow, r.attrs.map (·.1) = db.flowColumns.map (·.name)
  values : ∀ r ∈ db.wedFlow, ∀ a ∈ r.attrs, V a.2

section Kind

variable {table : Char → Bool} {V : String → Prop}

theorem conform_empty : Conform table V Db.empty :=
  ⟨rfl, List.nodup_nil, fun _ hc => absurd hc List.not_mem_nil,
    fun _ hr => absurd hr List.not_mem_nil, fun _ hr => absurd hr List.not_mem_nil⟩

theorem Conform.mono {V' : String → Prop} (hV : ∀ v, V v → V' v) {db : Db}
    (hc : Conform table V db) : Conform table V' db where
  columns := hc.columns
  distinct := hc.distinct
  plain c hcm := ⟨(hc.plain c hcm).ident, (hc.plain c hcm).short, hV _ (hc.plain c hcm).default⟩
  names := hc.names
  values r hr a ha := hV _ (hc.values r hr a ha)

/-- An assignment of values of the kind to such values. -/
theorem assignFlow_kind (base : List (String × String))
    (vals : List (String × Option String)) (attrs : List (String × String))
    (h : assignFlow base vals = .ok attrs) (hbase : ∀ a ∈ base, V a.2)
    (hvals : ∀ a ∈ vals, ∀ v ∈ a.2, V v) :
    ∀ a ∈ attrs, V a.2 := by
  rw [((assignFlow_ok_iff base vals attrs).mp h).2.2]
  intro a ha
  rcases List.mem_map.mp ha with ⟨b, hb, rfl⟩
  dsimp only
  -- A column that is not assigned keeps its value.
  cases hl : vals.lookup b.1 with
  | none => exact hbase b hb
  | some o =>
      cases o with
      | none => exact hbase b hb
      | some v => exact hvals _ (Table.mem_of_lookup hl) v rfl

/-- The new row of a write has the columns and values of the kind. -/
theorem conform_row_insert (vals : List (String × Option String)) (db : Db)
    (attrs : List (String × String)) (hc : Conform table V db)
    (h : assignFlow (db.flowColumns.map fun c => (c.name, c.default)) vals = .ok attrs)
    (hvals : ∀ a ∈ vals, ∀ v ∈ a.2, V v) :
    attrs.map (·.1) = db.flowColumns.map (·.name) ∧ ∀ a ∈ attrs, V a.2 := by
  refine ⟨?_, assignFlow_kind _ vals attrs h (fun a ha => ?_) hvals⟩
  · rw [assignFlow_names _ _ _ h, List.map_map]
    rfl
  · rcases List.mem_map.mp ha with ⟨c, hcm, rfl⟩
    exact (hc.plain c hcm).default

/-- Rows that are old ones or the one a write stores. -/
theorem Conform.of_rows {db db' : Db} (hc : Conform table V db)
    (hflow : db'.flowColumns = db.flowColumns) (htrace : db'.traceColumns = db.traceColumns)
    (hrows : ∀ r ∈ db'.wedFlow, r ∈ db.wedFlow ∨
      (r.attrs.map (·.1) = db.flowColumns.map (·.name) ∧ ∀ a ∈ r.attrs, V a.2)) :
    Conform table V db' where
  columns := by rw [htrace, hflow, hc.columns]
  distinct := by
    rw [hflow]
    exact hc.distinct
  plain := by
    rw [hflow]
    exact hc.plain
  names r hr := by
    rw [hflow]
    rcases hrows r hr with hold | hnew
    · exact hc.names r hold
    · exact hnew.1
  values r hr := by
    rcases hrows r hr with hold | hnew
    · exact hc.values r hold
    · exact hnew.2

/-! ## Attributes -/

theorem plainColumn_of_attr {new : AttrRow} (hn : PlainIdent table new.name)
    (d : String) (hd : V d) : PlainColumn table V ⟨columnName new.name, d⟩ :=
  ⟨plainIdent_columnName table new.name hn, columnName_short new.name, hd⟩

theorem PlainColumn.rename {c : Column} (hc : PlainColumn table V c) (o : String) {new : AttrRow}
    (hn : PlainIdent table new.name) :
    PlainColumn table V (renameColumn o (columnName new.name) c) := by
  unfold renameColumn
  split
  · exact plainColumn_of_attr hn _ hc.default
  · exact hc

theorem PlainColumn.setDefault {c : Column} (hc : PlainColumn table V c) (o : String) {d : String}
    (hd : V d) : PlainColumn table V (setDefault o d c) := by
  unfold WedFlow.setDefault
  split
  · exact ⟨hc.ident, hc.short, hd⟩
  · exact hc

theorem conform_restyle (db db' : Db) (op : Op) (hc : Conform table V db)
    (h : Restyled db op db') (hop : op.Texts (PlainIdent table) V) : Conform table V db' := by
  cases h with
  | add new hfree =>
      -- `ALTER TABLE` changes the columns and all the rows in one go.
      have hnew := freeEverywhere_flow hfree
      refine ⟨?_, ?_, ?_, ?_, ?_⟩
      · dsimp only
        rw [hc.columns]
      · dsimp only
        rw [List.map_append, List.map_cons, List.map_nil, ← List.concat_eq_append]
        exact hc.distinct.concat hnew
      · intro c hcm
        rcases List.mem_append.mp hcm with hcm | hcm
        · exact hc.plain c hcm
        · rw [List.mem_singleton.mp hcm]
          exact plainColumn_of_attr hop.1 _ hop.2
      · intro r hr
        rcases List.mem_map.mp hr with ⟨q, hq, rfl⟩
        dsimp only
        rw [List.map_append, List.map_append, hc.names q hq]
        rfl
      · intro r hr a ha
        rcases List.mem_map.mp hr with ⟨q, hq, rfl⟩
        rcases List.mem_append.mp ha with ha | ha
        · exact hc.values q hq a ha
        · rw [List.mem_singleton.mp ha]
          exact hop.2
  | missing name new => exact hc
  | rename name old new attrs hfree =>
      have hnew := freeEverywhere_flow hfree
      refine ⟨?_, ?_, ?_, ?_, ?_⟩
      · dsimp only
        rw [hc.columns]
      · dsimp only
        rw [names_renameColumn]
        exact Table.nodup_rename hc.distinct hnew
      · intro c hcm
        rcases List.mem_map.mp hcm with ⟨c₀, hc₀, rfl⟩
        exact (hc.plain c₀ hc₀).rename _ hop.1
      · intro r hr
        rcases List.mem_map.mp hr with ⟨q, hq, rfl⟩
        dsimp only
        rw [names_renameColumn, ← hc.names q hq, List.map_map, List.map_map]
        rfl
      · intro r hr a ha
        rcases List.mem_map.mp hr with ⟨q, hq, rfl⟩
        rcases List.mem_map.mp ha with ⟨b, hb, rfl⟩
        exact hc.values q hq b hb
  | setDefault name old new attrs =>
      refine ⟨?_, ?_, ?_, ?_, hc.values⟩
      · dsimp only
        rw [hc.columns]
      · dsimp only
        rw [names_setDefault]
        exact hc.distinct
      · intro c hcm
        rcases List.mem_map.mp hcm with ⟨c₀, hc₀, rfl⟩
        exact (hc.plain c₀ hc₀).setDefault _ hop.2
      · intro r hr
        dsimp only
        rw [names_setDefault]
        exact hc.names r hr

/-- Statements of a kind keep the tables of the kind. -/
theorem conform_exec (loc : Locale) (i : Input) (db db' : Db) (r : Reply) (hi : Inv db)
    (hexec : exec loc i db = .ok (db', r)) (hop : i.op.Texts (PlainIdent table) V)
    (hc : Conform table V db) : Conform table V db' := by
  have hch := exec_change loc i db db' r hi hexec
  rcases i with ⟨env, op⟩
  dsimp only at hch hop
  cases hch with
  | insert wid uptkn vals w h =>
      refine hc.of_rows rfl rfl (fun r hr => ?_)
      rcases List.mem_append.mp hr with hr | hr
      · exact .inl hr
      · rw [List.mem_singleton.mp hr]
        exact .inr (conform_row_insert vals db _ hc h.attrs hop)
  | update wid newWid uptkn vals old u db₁ w h =>
      rcases h.justified with ⟨f, e, -, -, hj⟩
      have hdb₁ : db₁ = { db with jobPool := db₁.jobPool } := hj.same
      refine hc.of_rows ?_ ?_ (fun r hr => ?_)
      · rw [hdb₁]
        rfl
      · rw [hdb₁]
        rfl
      · have hmem : r ∈ Table.updateWhere (fun q => q.wid = w.new.wid) (fun _ => w.new)
            db₁.wedFlow := hr
        rw [hj.flow.1] at hmem
        rcases (Table.mem_updateWhere _ _ _ _).mp hmem with ⟨q, hq, rfl⟩
        -- The row that is rewritten starts from the old one of the instance.
        by_cases hk : q.wid = w.new.wid
        · rw [if_pos (decide_eq_true hk)]
          refine .inr ⟨?_, ?_⟩
          · rw [assignFlow_names _ _ _ h.attrs]
            exact hc.names old h.mem
          · exact assignFlow_kind _ _ _ h.attrs (hc.values old h.mem) hop
        · rw [if_neg (by simpa only [decide_eq_true_eq] using hk)]
          exact .inl hq
  | redefine op db' hop' h =>
      rw [h.same]
      exact hc.of_rows rfl rfl (fun r hr => .inl hr)
  | restyle op db' hop' h => exact conform_restyle db db' op hc h hop
  | _ => exact hc.of_rows rfl rfl (fun r hr => .inl hr)

/-- Runs of statements of a kind lead to tables of the kind. -/
theorem run_conform (loc : Locale) (is : List Input)
    (h : ∀ i ∈ is, i.op.Texts (PlainIdent table) V) : Conform table V (run loc is) := by
  refine (run_invariant loc (fun i => i.op.Texts (PlainIdent table) V)
    (fun db => Inv db ∧ Conform table V db) ⟨inv_empty, conform_empty⟩ ?_ is h).2
  intro db i db' r hop hdb hex
  exact ⟨inv_exec loc i db db' r hdb.1 hex, conform_exec loc i db db' r hdb.1 hex hop hdb.2⟩

end Kind

/-! ## What a write leaves -/

/-- A write of a row without both kinds of quotes in its values is recorded as one row,
    the one that was meant. -/
theorem Conform.recorded {loc : Locale} {start : Time} {db : Db}
    (hc : Conform loc.printable (fun v => ¬ Escapes v) db) (hi : Inv db) {r : FlowRow}
    (hr : r ∈ db.wedFlow) (tgid : Option Int) (final excpt : Bool) (fired : List Int)
    {rows : List TraceRow}
    (h : traceRows loc start db.traceColumns (entryOf r tgid final excpt fired) = .ok rows) :
    rows = [(entryOf r tgid final excpt fired).row start
      ((entryOf r tgid final excpt fired).stored loc.printable db.traceColumns)] := by
  refine traceRows_held loc start _ _ (fun a ha => ?_) hi.free (hc.values r hr) rows h
  have hmem : a.1 ∈ db.flowColumns.map (·.name) := by
    rw [← hc.names r hr]
    exact List.mem_map_of_mem ha
  rcases List.mem_map.mp hmem with ⟨c, hcm, hca⟩
  rw [← hca]
  exact ⟨(hc.plain c hcm).ident, (hc.plain c hcm).short, hi.free c (hc.columns ▸ hcm)⟩

end WedFlow
