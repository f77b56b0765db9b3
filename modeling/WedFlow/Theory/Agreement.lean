import WedFlow.Theory.Trace

/-!
# The Tables Agree

The current state of an instance is kept three times: in its row, in its status
and in the last row of its history. This module is about the three being the
same.

The history is the weak point, since it is written through a text. The text
says what the row says exactly if no attribute value has a single quote, a
backslash or a character that Python does not print. `it's` comes out between
double quotes, which PostgreSQL takes for the name of a column, and the state is
refused although nothing is wrong with it; a backslash is doubled on the way.

For plain attribute names and plain values the three agree after every run,
attributes added and renamed on the way included, and an instance has one row
in its history for its creation and one for every accepted update.

## Main definitions

* `Shown`: The last row of a history shows the row and the status.
* `present`: One if the instance is there.

## Theorems

* `trace_text_faithful_iff`: When the text of an entry is what it should be.
* `stored_of_plain`: The history stores plain attributes as they are.
* `shown_exec`: Statements keep the last row up to date.
* `length_exec`: Which statements add a row.
* `run_shown`, `run_length`: The last row of a history, and the number of rows.
* `flow_status_trace_agree`: The three tables agree after every plain run.
-/

namespace WedFlow

open Python Sql

/-! ## The text of an entry -/

/-- The statement `new_trace_entry` executes for a row is one `INSERT` into
    `wed_trace`, with one literal for each value that denotes the value, exactly
    if every attribute value is plain. -/
theorem trace_text_faithful_iff (loc : Locale) (new : FlowRow) (tgid : Option Int)
    (final excpt : Bool) (fired : List Int) (cols : List String)
    (hcols : ColumnsRead loc.printable
      ((entryItems (entryOf new tgid final excpt fired)).map (·.1)) cols) :
    readInsert (traceText loc.printable (entryOf new tgid final excpt fired))
        = some ⟨"wed_trace", cols, (entryItems (entryOf new tgid final excpt fired)).map (·.2)⟩
      ↔ ∀ a ∈ new.attrs, Plain loc.printable a.2.toList :=
  traceText_faithful_iff loc.printable (entryOf new tgid final excpt fired) cols hcols

/-- The entry of a plain state is written as it is. -/
theorem trace_text_faithful_ready :
    readInsert (traceText asciiLocale.printable
        (entryOf ⟨7, none, [("st", "ready")]⟩ none false false [1, 2]))
      = some ⟨"wed_trace", ["wid", "st", "tgid_fired"], [.int 7, .str "ready", .str "\x7b1, 2\x7d"]⟩ := by
  refine (trace_text_faithful_iff asciiLocale ⟨7, none, [("st", "ready")]⟩ none false false [1, 2]
    ["wid", "st", "tgid_fired"] ?_).mpr ?_
  · exact columnsRead_of_plainIdent _ _ (by decide) (by decide +kernel)
  · decide +kernel

/-- The value `it's` makes the statement unreadable, and a backslash comes back
    doubled. With a predicate that asks for it, the first state is one the kernel
    refuses for its text alone. -/
theorem trace_text_unfaithful :
    readInsert (traceText asciiLocale.printable
        (entryOf ⟨7, none, [("st", "it's")]⟩ none false false [1])) = none ∧
      readInsert (traceText asciiLocale.printable
        (entryOf ⟨7, none, [("st", "a\\b")]⟩ none false false [1]))
        = some ⟨"wed_trace", ["wid", "st", "tgid_fired"], [.int 7, .str "a\\\\b", .str "\x7b1\x7d"]⟩ ∧
      exec asciiLocale ⟨clock 2, .insertFlow 7 none [("st", some "it's")]⟩
        (run asciiLocale (tiny ++ [⟨clock 1, .insertPred 5 2 [("st", some "it's")]⟩]))
        = .error .badStatement := by
  decide +kernel

/-! ## The last row -/

/-- The last row of the history of an instance shows its row and its status. -/
def Shown (db : Db) (wid : Int) : Prop :=
  ∀ r ∈ db.wedFlow, r.wid = wid → ∀ s ∈ db.stStatus, s.wid = wid →
    ∃ t, (traceOf db wid).getLast? = some t ∧ t.attrs = r.attrs ∧ t.final = s.final ∧
      t.excpt = s.excpt

/-- Looking up the columns of a list one by one gives the list back. -/
theorem map_lookup (attrs : List (String × String)) (hn : (attrs.map (·.1)).Nodup) :
    ∀ (cols : List Column) (part : List (String × String)), (∀ a ∈ part, a ∈ attrs) →
      part.map (·.1) = cols.map (·.name) →
      (cols.map fun c => (c.name, (attrs.lookup c.name).getD c.default)) = part := by
  intro cols
  induction cols with
  | nil =>
      intro part _ hnames
      exact (List.map_eq_nil_iff.mp hnames).symm
  | cons c cols ih =>
      intro part hpart hnames
      cases part with
      | nil => exact absurd hnames (by simp only [List.map_nil, List.map_cons, reduceCtorEq,
          not_false_eq_true])
      | cons a part =>
          rw [List.map_cons, List.map_cons, List.cons.injEq] at hnames
          rw [List.map_cons, ih part (fun b hb => hpart b (List.mem_cons_of_mem _ hb)) hnames.2,
            ← hnames.1, Table.lookup_of_mem hn (hpart a List.mem_cons_self)]
          rfl

/-- The history stores plain attributes as they are. -/
theorem stored_of_plain {table : Char → Bool} {db : Db}
    (hc : Conform table (fun v => Plain table v.toList) db) {r : FlowRow} (hr : r ∈ db.wedFlow)
    (tgid : Option Int) (final excpt : Bool) (fired : List Int) :
    (entryOf r tgid final excpt fired).stored table db.traceColumns = r.attrs := by
  have hnames := hc.names r hr
  have hreread : (entryOf r tgid final excpt fired).stored table db.traceColumns
      = db.traceColumns.map fun c => (c.name, (r.attrs.lookup c.name).getD c.default) := by
    refine List.map_congr_left (fun c _ => ?_)
    change (c.name, ((r.attrs.lookup c.name).map (reread table)).getD c.default) = _
    cases hl : r.attrs.lookup c.name with
    | none => rfl
    | some v => rw [Option.map_some, reread_of_plain (hc.values r hr _ (Table.mem_of_lookup hl))]
  rw [hreread]
  refine map_lookup r.attrs ?_ _ _ (fun a ha => ha) ?_
  · rw [hnames]
    exact hc.distinct
  · rw [hc.columns]
    exact hnames

theorem SameRows.shown {wid : Int} {db db' : Db} (hs : SameRows wid db db') (h : Shown db wid) :
    Shown db' wid := by
  intro r hr hrw s hst hsw
  rw [hs.trace]
  exact h r ((hs.mem_flow hrw).mp hr) hrw s ((hs.mem_status hsw).mp hst) hsw

/-- The row of a write shows the write. -/
theorem Wrote.shown {loc : Locale} {env : Env} {db db' : Db} {w : Write}
    (hw : Wrote loc env db db' w) (hi : Inv db')
    (hc : Conform loc.printable (fun v => Plain loc.printable v.toList) db') :
    Shown db' w.new.wid := by
  intro r hr hrw s hst hsw
  have hr' : r ∈ db'.wedFlow.filter (fun q => q.wid = w.new.wid) :=
    List.mem_filter.mpr ⟨hr, decide_eq_true hrw⟩
  have hs' : s ∈ db'.stStatus.filter (fun q => q.wid = w.new.wid) :=
    List.mem_filter.mpr ⟨hst, decide_eq_true hsw⟩
  rw [hw.flow, List.mem_singleton] at hr'
  rw [hw.status, List.mem_singleton] at hs'
  refine ⟨w.entry.row env.start (w.entry.stored loc.printable db'.traceColumns), ?_, ?_, ?_, ?_⟩
  · rw [hw.trace_own hi (hc.mono fun _ => not_escapes_of_plain)]
    exact List.getLast?_concat
  · -- What is read back from the text of the entry is the state itself.
    rw [hr']
    exact stored_of_plain hc hw.mem_flow _ _ _ _
  · rw [hs']
    rfl
  · rw [hs']
    rfl

/-- A change of the attributes changes both in the same way. -/
theorem shown_restyle {wid : Int} {db db' : Db} {op : Op} (h : Restyled db op db')
    (hs : Shown db wid) : Shown db' wid := by
  rcases h.same with ⟨f, he⟩
  intro r hr hrw s hst hsw
  rw [he] at hr hst
  rcases List.mem_map.mp hr with ⟨q, hq, rfl⟩
  rcases hs q hq hrw s hst hsw with ⟨t, ht, hattrs, hfin, hexc⟩
  refine ⟨{ t with attrs := f t.attrs }, ?_, congrArg f hattrs, hfin, hexc⟩
  rw [traceOf_map_attrs (congrArg Db.wedTrace he), List.getLast?_map, ht]
  rfl

/-- Statements that go through keep the last row up to date. -/
theorem shown_exec (loc : Locale) (i : Input) (db db' : Db) (r : Reply) (hi : Inv db)
    (hexec : exec loc i db = .ok (db', r))
    (hc : Conform loc.printable (fun v => Plain loc.printable v.toList) db') (wid : Int)
    (h : Shown db wid) : Shown db' wid := by
  have hi' := inv_exec loc i db db' r hi hexec
  by_cases hop : i.op.Restyles
  · exact shown_restyle (restyled_of_exec loc i.env i.op db db' r hop hexec) h
  · rcases rows_of_change loc i.env i.op r db db' hi (exec_change loc i db db' r hi hexec) hop with
      hs | ⟨w, a, k, hw, -, -⟩
    · exact (hs.rows wid).shown h
    · by_cases hwid : wid = w.new.wid
      · rw [hwid]
        exact hw.shown hi' hc
      · exact (hw.same_others hi' (hc.mono fun _ => not_escapes_of_plain) hwid).shown h

/-! ## The number of rows -/

/-- One if the instance is there. -/
def present (db : Db) (wid : Int) : Nat :=
  if wid ∈ db.wedFlow.map (·.wid) then 1 else 0

theorem SameState.present {wid : Int} {db db' : Db} (hs : SameState wid db db') :
    present db' wid = present db wid := by
  have hmem : wid ∈ db'.wedFlow.map (·.wid) ↔ wid ∈ db.wedFlow.map (·.wid) := by
    rw [List.mem_map, List.mem_map]
    constructor
    · intro h
      rcases h with ⟨r, hr, hw⟩
      exact ⟨r, (hs.mem_flow hw).mp hr, hw⟩
    · intro h
      rcases h with ⟨r, hr, hw⟩
      exact ⟨r, (hs.mem_flow hw).mpr hr, hw⟩
  unfold WedFlow.present
  rw [if_congr hmem rfl rfl]

theorem Wrote.present {loc : Locale} {env : Env} {db db' : Db} {w : Write}
    (hw : Wrote loc env db db' w) : present db' w.new.wid = 1 :=
  if_pos (List.mem_map.mpr ⟨w.new, hw.mem_flow, rfl⟩)

/-- A row is added to the history for the creation of the instance and for
    every accepted update. -/
theorem length_exec (loc : Locale) (i : Input) (db db' : Db) (r : Reply) (hi : Inv db)
    (hexec : exec loc i db = .ok (db', r))
    (hc : Conform loc.printable (fun v => ¬ Escapes v) db') (wid : Int) :
    (traceOf db' wid).length + present db wid
      = (traceOf db wid).length + present db' wid
        + if accepted loc wid (db, i) = true then 1 else 0 := by
  have hi' := inv_exec loc i db db' r hi hexec
  -- Only an update that wrote a row counts as accepted.
  have hno : (∀ newWid uptkn vals, i.op = .updateFlow wid newWid uptkn vals → r ≠ .rows 1) →
      ¬ accepted loc wid (db, i) = true := by
    intro h hacc
    rcases (accepted_iff loc wid db i).mp hacc with ⟨⟨newWid, uptkn, vals, hop⟩, d, hd⟩
    exact h newWid uptkn vals hop (Prod.mk.inj (Except.ok.inj (hexec.symm.trans hd))).2
  by_cases hop : i.op.Restyles
  · rcases (restyled_of_exec loc i.env i.op db db' r hop hexec).same with ⟨f, he⟩
    have hlen : (traceOf db' wid).length = (traceOf db wid).length := by
      rw [traceOf_map_attrs (congrArg Db.wedTrace he), List.length_map]
    have hpres : present db' wid = present db wid := by
      unfold present
      rw [he]
      dsimp only
      rw [List.map_map]
      rfl
    have hnot : ∀ newWid uptkn vals, i.op ≠ .updateFlow wid newWid uptkn vals := by
      intro newWid uptkn vals ho
      rw [ho] at hop
      exact hop
    rw [hlen, hpres, if_neg (hno (fun _ _ _ ho => absurd ho (hnot _ _ _))), Nat.add_zero]
  · rcases rows_of_change loc i.env i.op r db db' hi (exec_change loc i db db' r hi hexec) hop with
      hs | ⟨w, a, k, hw, -, hfor⟩
    · rw [(hs.rows wid).trace, (hs.rows wid).present, if_neg (hno (fun _ _ _ _ => hs.reply)),
        Nat.add_zero]
    · by_cases hwid : wid = w.new.wid
      · subst hwid
        rw [hw.trace_own hi' hc, hw.present, List.length_append, List.length_singleton]
        rcases hfor with ⟨uptkn, vals, ho, hfree⟩ | ⟨newWid, uptkn, vals, ho, hr, hin⟩
        · have hpres : present db w.new.wid = 0 := if_neg hfree
          rw [hpres, if_neg (hno (fun _ _ _ ho' => Op.noConfusion (ho.symm.trans ho')))]
        · have hpres : present db w.new.wid = 1 := if_pos hin
          rw [hr] at hexec
          rw [hpres, if_pos ((accepted_iff loc _ db i).mpr ⟨⟨newWid, uptkn, vals, ho⟩, db', hexec⟩)]
      · have hnot : ∀ newWid uptkn vals, i.op ≠ .updateFlow wid newWid uptkn vals := by
          intro newWid uptkn vals ho
          rcases hfor with ⟨uptkn', vals', ho', -⟩ | ⟨newWid', uptkn', vals', ho', -⟩
          · exact Op.noConfusion (ho.symm.trans ho')
          · exact hwid (Op.updateFlow.inj (ho.symm.trans ho')).1
        rw [(hw.same_others hi' hc hwid).trace, (hw.others wid hwid).present,
          if_neg (hno (fun _ _ _ ho => absurd ho (hnot _ _ _))), Nat.add_zero]

/-! ## Runs -/

/-- After every run of plain statements the last row of a history shows the
    instance. -/
theorem run_shown (loc : Locale) (is : List Input)
    (hplain : ∀ i ∈ is, i.op.PlainText loc.printable) (wid : Int) : Shown (run loc is) wid := by
  refine (run_invariant loc (fun i => i.op.PlainText loc.printable)
    (fun db => Inv db ∧ Conform loc.printable (fun v => Plain loc.printable v.toList) db ∧
      ∀ wid, Shown db wid)
    ⟨inv_empty, conform_empty, fun wid r hr => absurd hr List.not_mem_nil⟩ ?_ is hplain).2.2 wid
  intro db i db' r hop h hex
  have hc := conform_exec loc i db db' r h.1 hex hop h.2.1
  exact ⟨inv_exec loc i db db' r h.1 hex, hc,
    fun wid => shown_exec loc i db db' r h.1 hex hc wid (h.2.2 wid)⟩

/-- After every run in which no value has both kinds of quotes, the history of an
    instance that is there has one row more than the run had accepted updates of it. -/
theorem run_length (loc : Locale) (is : List Input)
    (htext : ∀ i ∈ is, i.op.HeldText loc.printable) (wid : Int) :
    (traceOf (run loc is) wid).length
      = (Machine.history (step loc) Db.empty is).countP (accepted loc wid)
        + present (run loc is) wid := by
  refine (Machine.history_invariant (step loc) (fun i => i.op.HeldText loc.printable)
    (fun past db => Inv db ∧ Conform loc.printable (fun v => ¬ Escapes v) db ∧
      (traceOf db wid).length = past.countP (accepted loc wid) + present db wid)
    Db.empty ⟨inv_empty, conform_empty, rfl⟩ ?_ is htext).2.2
  intro past db i hop h
  rw [List.countP_append, List.countP_singleton]
  refine ⟨inv_step loc i db h.1, ?_⟩
  cases hex : exec loc i db with
  | error e =>
      have hnot : ¬ accepted loc wid (db, i) = true := by
        intro hacc
        rcases (accepted_iff loc wid db i).mp hacc with ⟨-, d, hd⟩
        exact absurd (hex.symm.trans hd) (nomatch ·)
      unfold step
      rw [hex, if_neg hnot, Nat.add_zero]
      exact h.2
  | ok out =>
      rcases out with ⟨db', r⟩
      rw [step_of_exec hex]
      have hc' := conform_exec loc i db db' r h.1 hex hop h.2.1
      have hlen := length_exec loc i db db' r h.1 hex hc' wid
      have hold := h.2.2
      exact ⟨hc', by omega⟩

/-- After every run of plain statements `wed_flow` and `st_status` have the same
    instances, each instance has one row more in its history than it had accepted
    updates, and the last of them shows its attributes and its two flags. -/
theorem flow_status_trace_agree (loc : Locale) (is : List Input)
    (hplain : ∀ i ∈ is, i.op.PlainText loc.printable) :
    (run loc is).stStatus.map (·.wid) = (run loc is).wedFlow.map (·.wid) ∧
      (∀ r ∈ (run loc is).wedFlow, (traceOf (run loc is) r.wid).length
        = (Machine.history (step loc) Db.empty is).countP (accepted loc r.wid) + 1) ∧
      (∀ r ∈ (run loc is).wedFlow, ∀ s ∈ (run loc is).stStatus, s.wid = r.wid →
        ∃ t, (traceOf (run loc is) r.wid).getLast? = some t ∧ t.attrs = r.attrs ∧
          t.final = s.final ∧ t.excpt = s.excpt) := by
  refine ⟨(run_inv loc is).status, fun r hr => ?_, fun r hr s hs hw => ?_⟩
  · have hpres : present (run loc is) r.wid = 1 := if_pos (List.mem_map_of_mem hr)
    rw [run_length loc is (fun i hi => (hplain i hi).held) r.wid, hpres]
  · exact run_shown loc is hplain r.wid r hr rfl s hs hw

/-- A second attribute is added to the small flow while its one instance is under
    way, and renamed later on. -/
def growing : List Input :=
  tiny ++ [⟨clock 1, .insertFlow 7 none []⟩, ⟨clock 2, .insertAttr ⟨"owner", "nobody"⟩⟩,
    ⟨clock 3, .jobLock (tokenAt 1 0) none⟩,
    ⟨clock 4, .updateFlow 7 none (some (some (tokenAt 1 0)))
      [("st", some "half"), ("owner", some "me")]⟩,
    ⟨clock 5, .updateAttr "owner" ⟨"agent", "nobody"⟩⟩]

/-- Its history has two rows, and the last shows both attributes under their
    present names. -/
theorem flow_status_trace_agree_growing :
    (traceOf (run asciiLocale growing) 7).length = 2 ∧
      ∃ t, (traceOf (run asciiLocale growing) 7).getLast? = some t ∧
        t.attrs = [("st", "half"), ("agent", "me")] ∧ t.final = false ∧ t.excpt = false := by
  have hagree := flow_status_trace_agree asciiLocale growing (by decide +kernel)
  have hr : (⟨7, some (tokenAt 1 0), [("st", "half"), ("agent", "me")]⟩ : FlowRow) ∈
      (run asciiLocale growing).wedFlow := by decide +kernel
  have hs : (⟨7, false, false⟩ : StatusRow) ∈ (run asciiLocale growing).stStatus := by
    decide +kernel
  have hone : (Machine.history (step asciiLocale) Db.empty growing).countP (accepted asciiLocale 7)
      = 1 := by decide +kernel
  exact ⟨(hagree.2.1 _ hr).trans (congrArg (· + 1) hone), hagree.2.2 _ hr _ hs rfl⟩

end WedFlow
