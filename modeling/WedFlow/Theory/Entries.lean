import WedFlow.Core.Kernel

/-!
# What an Entry Leaves in the History

`new_trace_entry` is given a state and writes a statement. If the attributes have names
that are read as they are, and no value has both kinds of quotes in it, the statement
inserts one row, and the row is the one that was meant: the instance, the triggers, the
flags and the date are those of the entry, and the values are what is read back from
their printed form. Otherwise it is refused.

With both kinds of quotes in a value, or a name that is folded to one of the columns the
table has of its own, there is no telling what the statement does.

## Main definitions

* `PlainAttr`: An attribute name that is read as itself.
* `reread`: What a printed value is read back as.
* `Entry.row`: The row that was meant.
* `Entry.stored`: The values it has.

## Theorems

* `lookup_flag`, `lookup_attr`: What the statement says of the columns.
* `traceRows_ok_iff`: When the statement of an entry without quotes goes through.
* `traceRows_held`: What it inserts if no value has both kinds of quotes.
-/

namespace WedFlow

open Python Sql

/-! ## Names -/

/-- A name that is read as itself, and that none of the fixed columns has. -/
structure PlainAttr (table : Char → Bool) (n : String) : Prop where
  ident : PlainIdent table n
  short : truncateIdentifier n.toList = n.toList
  free : n ∉ traceFixed

/-- The optional columns come in a fixed order. -/
theorem entryFlags_sublist (e : Entry) :
    ((entryFlags e).map (·.1)).Sublist ["tgid_wrote", "final", "excpt", "tgid_fired"] := by
  unfold entryFlags
  simp only [List.map_append]
  refine (((?_ : List.Sublist _ ["tgid_wrote"]).append (?_ : List.Sublist _ ["final"])).append
    (?_ : List.Sublist _ ["excpt"])).append (?_ : List.Sublist _ ["tgid_fired"])
  · cases truthy e.tgidWrote with
    | none => exact List.nil_sublist _
    | some t => exact List.Sublist.refl _
  · cases e.final with
    | false => exact List.nil_sublist _
    | true => exact List.Sublist.refl _
  · cases e.excpt with
    | false => exact List.nil_sublist _
    | true => exact List.Sublist.refl _
  · by_cases hf : e.tgidFired = []
    · rw [if_pos hf]
      exact List.nil_sublist _
    · rw [if_neg hf]
      exact List.Sublist.refl _

/-- They have short plain names, which are names of fixed columns. -/
theorem plain_entryFlags (table : Char → Bool) (e : Entry) : ∀ n ∈ (entryFlags e).map (·.1),
    PlainIdent table n ∧ truncateIdentifier n.toList = n.toList ∧ n ∈ traceFixed ∧ n ≠ "wid" := by
  have hall : ∀ n ∈ ["tgid_wrote", "final", "excpt", "tgid_fired"],
      PlainIdent (fun _ => false) n ∧ truncateIdentifier n.toList = n.toList ∧ n ∈ traceFixed ∧
        n ≠ "wid" := by
    decide +kernel
  intro n hn
  have hmem := hall n ((entryFlags_sublist e).subset hn)
  exact ⟨hmem.1.of_ascii table, hmem.2⟩

theorem names_entryItems (e : Entry) :
    (entryItems e).map (·.1) = "wid" :: e.attrs.map (·.1) ++ (entryFlags e).map (·.1) := by
  unfold entryItems
  rw [List.map_append, List.map_cons, List.map_map]
  rfl

/-- Short plain names print as the column list of the entry. -/
theorem columnsRead_entry (table : Char → Bool) (e : Entry) (hlen : 2 ≤ (entryItems e).length)
    (h : ∀ a ∈ e.attrs, PlainIdent table a.1 ∧ truncateIdentifier a.1.toList = a.1.toList) :
    ColumnsRead table ((entryItems e).map (·.1)) ((entryItems e).map (·.1)) := by
  refine columnsRead_of_plainIdent table _ (by rwa [List.length_map]) ?_
  rw [names_entryItems]
  refine List.forall_mem_append.mpr ⟨List.forall_mem_cons.mpr ⟨?_, fun n hn => ?_⟩, fun n hn =>
    ⟨(plain_entryFlags table e n hn).1, (plain_entryFlags table e n hn).2.1⟩⟩
  · exact ⟨plainIdent_wid table, by decide +kernel⟩
  · rcases List.mem_map.mp hn with ⟨a, ha, rfl⟩
    exact h a ha

/-! ## The row -/

/-- What a value without single quotes is read back as: its printed form. -/
def reread (table : Char → Bool) (v : String) : String :=
  String.ofList (body table '\'' v.toList)

theorem reread_of_plain {table : Char → Bool} {v : String} (h : Plain table v.toList) :
    reread table v = v := by
  rw [reread, (body_eq_self_iff table v.toList).mpr h, String.ofList_toList]

/-- The row that was meant, with the given values of the attributes. -/
def Entry.row (start : Time) (attrs : List (String × String)) (e : Entry) : TraceRow where
  wid := e.wid
  attrs := attrs
  tgidWrote := truthy e.tgidWrote
  tgidFired := if e.tgidFired = [] then none else some e.tgidFired
  final := e.final
  excpt := e.excpt
  tstmp := start

/-- The values of the attributes in the history. Columns the entry does not name get
    their default. -/
def Entry.stored (table : Char → Bool) (columns : List Column) (e : Entry) :
    List (String × String) :=
  columns.map fun c => (c.name, ((e.attrs.lookup c.name).map (reread table)).getD c.default)

/-- The columns and values of the statement, as they are read. -/
def Entry.items (table : Char → Bool) (e : Entry) : List (String × Value) :=
  ("wid", .int e.wid) :: e.attrs.map (fun a => (a.1, Value.str (reread table a.2))) ++ entryFlags e

/-- The flags have nothing to escape, so they are read as they are. -/
theorem zip_items (table : Char → Bool) (e : Entry) :
    ((entryItems e).map (·.1)).zip (((entryItems e).map (·.2)).map (readBack table))
      = e.items table := by
  have hzip : ((entryItems e).map (·.1)).zip (((entryItems e).map (·.2)).map (readBack table))
      = (entryItems e).map fun i => (i.1, readBack table i.2) := by
    rw [List.map_map, List.zip_map']
    rfl
  have hflags : (entryFlags e).map (fun i => (i.1, readBack table i.2)) = entryFlags e := by
    have hid : (entryFlags e).map (fun i => (i.1, readBack table i.2)) = (entryFlags e).map id := by
      refine List.map_congr_left (fun i hi => ?_)
      rw [((clean_iff table i.2).mp (clean_entryFlags table e i hi)).2]
      rfl
    rw [hid, List.map_id]
  rw [hzip]
  unfold entryItems Entry.items
  rw [List.map_append, List.map_cons, List.map_map, hflags]
  rfl

/-- A column that no attribute has is found among the flags. -/
theorem lookup_flag {table : Char → Bool} {e : Entry} (h : ∀ a ∈ e.attrs, a.1 ∉ traceFixed)
    {c : String} (hc : c ∈ traceFixed) (hwid : c ≠ "wid") :
    (e.items table).lookup c = (entryFlags e).lookup c := by
  have hskip : ∀ (l : List (String × Value)), (∀ i ∈ l, i.1 ≠ c) →
      ∀ m, (l ++ m).lookup c = m.lookup c := by
    intro l hl m
    induction l with
    | nil => rfl
    | cons i l ih =>
        rw [List.cons_append, List.lookup_cons,
          beq_eq_false_iff_ne.mpr (hl i List.mem_cons_self).symm]
        exact ih (fun j hj => hl j (List.mem_cons_of_mem i hj))
  refine hskip _ (fun i hi => ?_) _
  rcases List.mem_cons.mp hi with rfl | hi
  · exact hwid.symm
  · rcases List.mem_map.mp hi with ⟨a, ha, rfl⟩
    intro heq
    exact h a ha (by rw [show a.1 = c from heq]; exact hc)

/-- What the statement says of the columns that are appended only when they are needed. -/
theorem lookup_entryFlags (e : Entry) :
    (entryFlags e).lookup "tgid_wrote" = (truthy e.tgidWrote).map Value.int ∧
      (entryFlags e).lookup "final" = (if e.final then some (.bool true) else none) ∧
      (entryFlags e).lookup "excpt" = (if e.excpt then some (.bool true) else none) ∧
      (entryFlags e).lookup "tgid_fired" = (if e.tgidFired = [] then none
        else some (.str (String.ofList (setStr e.tgidFired)))) ∧
      (entryFlags e).lookup "tstmp" = none := by
  rcases e with ⟨wid, attrs, tgidWrote, final, excpt, tgidFired⟩
  unfold entryFlags
  dsimp only
  -- Each of the four is there or not.
  cases truthy tgidWrote <;> cases final <;> cases excpt <;> by_cases hf : tgidFired = [] <;>
    simp only [hf, if_true, if_false] <;> exact ⟨rfl, rfl, rfl, rfl, rfl⟩

/-- An attribute is found under its name, and no flag is. -/
theorem lookup_attr {table : Char → Bool} {e : Entry} {c : String} (hc : c ∉ traceFixed) :
    (e.items table).lookup c = (e.attrs.lookup c).map fun v => Value.str (reread table v) := by
  have hflag : (entryFlags e).lookup c = none := by
    rw [List.lookup_eq_none_iff]
    intro i hi
    refine bne_iff_ne.mpr (fun heq => hc ?_)
    rw [heq]
    exact (plain_entryFlags table e i.1 (List.mem_map_of_mem hi)).2.2.1
  have hwid : c ≠ "wid" := fun h => hc (h ▸ List.mem_cons_self)
  unfold Entry.items
  rw [List.cons_append, List.lookup_cons, beq_eq_false_iff_ne.mpr hwid]
  dsimp only
  induction e.attrs with
  | nil => exact hflag
  | cons a attrs ih =>
      rw [List.map_cons, List.cons_append, List.lookup_cons, List.lookup_cons]
      cases c == a.1 with
      | true => rfl
      | false => exact ih

theorem mapM_some {α β : Type} {f : α → Option β} {g : α → β} {l : List α}
    (h : ∀ a ∈ l, f a = some (g a)) : l.mapM f = some (l.map g) := by
  induction l with
  | nil => rfl
  | cons a l ih =>
      rw [List.mapM_cons, h a List.mem_cons_self,
        ih (fun b hb => h b (List.mem_cons_of_mem a hb)), List.map_cons]
      rfl

/-- The row of the statement is the one that was meant. -/
theorem traceRow_items (loc : Locale) (start : Time) (columns : List Column) (e : Entry)
    (hattrs : ∀ a ∈ e.attrs, a.1 ∉ traceFixed) (hcols : ∀ c ∈ columns, c.name ∉ traceFixed) :
    traceRow loc start columns (e.items loc.printable)
      = some (e.row start (e.stored loc.printable columns)) := by
  rcases lookup_entryFlags e with ⟨hwrote, hfinal, hexcpt, hfired, htstmp⟩
  have hwid : field (e.items loc.printable) "wid" none asInteger = some (some e.wid) := rfl
  have hvalues : (columns.mapM fun c =>
      (field (e.items loc.printable) c.name c.default asText).map fun v => (c.name, v))
      = some (e.stored loc.printable columns) := by
    refine mapM_some (fun c hc => ?_)
    unfold field
    rw [lookup_attr (hcols c hc)]
    cases e.attrs.lookup c.name with
    | none => rfl
    | some v => rfl
  have hwrote' : field (e.items loc.printable) "tgid_wrote" none asInteger
      = some (truthy e.tgidWrote) := by
    unfold field
    rw [lookup_flag hattrs (by decide) (by decide), hwrote]
    cases truthy e.tgidWrote with
    | none => rfl
    | some t => rfl
  have hfired' : field (e.items loc.printable) "tgid_fired" none asIntegers
      = some (if e.tgidFired = [] then none else some e.tgidFired) := by
    unfold field
    rw [lookup_flag hattrs (by decide) (by decide), hfired]
    by_cases hf : e.tgidFired = []
    · rw [if_pos hf, if_pos hf]
    · rw [if_neg hf, if_neg hf]
      dsimp only [asIntegers]
      rw [String.toList_ofList, Pg.integersIn_setStr]
      rfl
  have hfinal' : field (e.items loc.printable) "final" false asBoolean = some e.final := by
    unfold field
    rw [lookup_flag hattrs (by decide) (by decide), hfinal]
    cases e.final with
    | true => rfl
    | false => rfl
  have hexcpt' : field (e.items loc.printable) "excpt" false asBoolean = some e.excpt := by
    unfold field
    rw [lookup_flag hattrs (by decide) (by decide), hexcpt]
    cases e.excpt with
    | true => rfl
    | false => rfl
  have htstmp' : field (e.items loc.printable) "tstmp" start (asTime loc start) = some start := by
    unfold field
    rw [lookup_flag hattrs (by decide) (by decide), htstmp]
  unfold traceRow
  rw [hwid, hvalues, hwrote', hfired', hfinal', hexcpt', htstmp']
  rfl

/-! ## The statement -/

/-- The columns of a statement are named once if the attributes are. -/
theorem nodup_entryItems {e : Entry} (h : ∀ a ∈ e.attrs, a.1 ∉ traceFixed) :
    ((entryItems e).map (·.1)).Nodup ↔ (e.attrs.map (·.1)).Nodup := by
  have hflags := fun n hn => (plain_entryFlags (fun _ => true) e n hn).2.2
  have hdistinct : ((entryFlags e).map (·.1)).Nodup := (entryFlags_sublist e).nodup (by decide)
  have hnames : ∀ n ∈ e.attrs.map (·.1), n ∉ traceFixed := by
    intro n hn
    rcases List.mem_map.mp hn with ⟨a, ha, rfl⟩
    exact h a ha
  rw [names_entryItems, List.cons_append, List.nodup_cons, List.nodup_append]
  constructor
  · exact fun hn => hn.2.1
  · intro hn
    refine ⟨fun hmem => ?_, hn, hdistinct, fun a ha b hb heq => ?_⟩
    · rcases List.mem_append.mp hmem with hm | hm
      · exact hnames _ hm (by decide)
      · exact (hflags _ hm).2 rfl
    · exact hnames a ha (heq ▸ (hflags b hb).1)

/-- They are all there if the attributes are. -/
theorem columns_entryItems {e : Entry} (h : ∀ a ∈ e.attrs, a.1 ∉ traceFixed)
    (columns : List Column) :
    (((entryItems e).map (·.1)).all fun c => c ∈ traceFixed ++ columns.map (·.name)) = true ↔
      ∀ a ∈ e.attrs, a.1 ∈ columns.map (·.name) := by
  have hflags := fun n hn => (plain_entryFlags (fun _ => true) e n hn).2.2.1
  rw [List.all_eq_true, names_entryItems]
  simp only [decide_eq_true_eq]
  constructor
  · intro hall a ha
    rcases List.mem_append.mp (hall a.1 (List.mem_append_left _
      (List.mem_cons_of_mem _ (List.mem_map_of_mem ha)))) with hm | hm
    · exact absurd hm (h a ha)
    · exact hm
  · intro hall n hn
    rcases List.mem_append.mp hn with hn | hn
    · rcases List.mem_cons.mp hn with rfl | hn
      · exact List.mem_append_left _ (by decide)
      · rcases List.mem_map.mp hn with ⟨a, ha, rfl⟩
        exact List.mem_append_right _ (hall a ha)
    · exact List.mem_append_left _ (hflags n hn)

/-- The statement of an entry whose values have no single quote in them goes through if
    each attribute is named once and has a column, and inserts the row that was meant. -/
theorem traceRows_ok_iff (loc : Locale) (start : Time) (columns : List Column) (e : Entry)
    (hnames : ∀ a ∈ e.attrs, PlainAttr loc.printable a.1)
    (hcols : ∀ c ∈ columns, c.name ∉ traceFixed) (hlen : 2 ≤ (entryItems e).length)
    (hclosed : ∀ a ∈ e.attrs, '\'' ∉ a.2.toList) (rows : List TraceRow) :
    traceRows loc start columns e = .ok rows ↔
      (∀ a ∈ e.attrs, a.1 ∈ columns.map (·.name)) ∧ (e.attrs.map (·.1)).Nodup ∧
        rows = [e.row start (e.stored loc.printable columns)] := by
  have hfree : ∀ a ∈ e.attrs, a.1 ∉ traceFixed := fun a ha => (hnames a ha).free
  have hread := traceText_rows loc.printable e _ (columnsRead_entry loc.printable e hlen
    (fun a ha => ⟨(hnames a ha).ident, (hnames a ha).short⟩)) hclosed
  have hmap : [((entryItems e).map (·.2)).map (readBack loc.printable)].mapM
      (fun r => traceRow loc start columns (((entryItems e).map (·.1)).zip r))
      = some [e.row start (e.stored loc.printable columns)] := by
    rw [List.mapM_cons, zip_items, traceRow_items loc start columns e hfree hcols]
    rfl
  have hwidth : ([((entryItems e).map (·.2)).map (readBack loc.printable)].all fun r =>
      r.length = ((entryItems e).map (·.1)).length) = true := by
    simp only [List.all_cons, List.all_nil, Bool.and_true, List.length_map, decide_true]
  unfold traceRows
  rw [hread]
  dsimp only
  rw [hmap, Table.check_eq_ok, columns_entryItems hfree, Table.guard_eq_ok, not_not,
    nodup_entryItems hfree, Table.check_eq_ok, and_iff_right hwidth, Except.ok.injEq,
    eq_comm (a := rows)]

/-- If no value has both kinds of quotes in it, what the statement inserts is the row
    that was meant. -/
theorem traceRows_held (loc : Locale) (start : Time) (columns : List Column) (e : Entry)
    (hnames : ∀ a ∈ e.attrs, PlainAttr loc.printable a.1)
    (hcols : ∀ c ∈ columns, c.name ∉ traceFixed) (hheld : ∀ a ∈ e.attrs, ¬ Escapes a.2)
    (rows : List TraceRow) (h : traceRows loc start columns e = .ok rows) :
    rows = [e.row start (e.stored loc.printable columns)] := by
  cases hread : readRows (traceText loc.printable e) with
  | none =>
      unfold traceRows at h
      rw [hread] at h
      exact absurd h (nomatch ·)
  | some s =>
      -- What is read at all has a list of two columns or more, and closed values.
      have hlen := two_le_of_readRows loc.printable e s hread
      have hclosed := closed_of_readRows loc.printable e _ (columnsRead_entry loc.printable e hlen
        (fun a ha => ⟨(hnames a ha).ident, (hnames a ha).short⟩)) hheld s hread
      exact ((traceRows_ok_iff loc start columns e hnames hcols hlen hclosed rows).mp h).2.2

end WedFlow
