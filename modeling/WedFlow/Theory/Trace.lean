import WedFlow.Core.Transactions
import WedFlow.Theory.Refine
import WedFlow.Theory.Texts

/-!
# The Rows of an Instance

What a statement does to the row, the status and the history of one instance.
An accepted write replaces the row, sets the status and inserts into the history
whatever its text says; everything else a statement can do leaves all three alone,
except that a change of the attributes rewrites the attributes of every row.

As long as no value has both kinds of quotes in it and the names are plain, the text
says one row of the instance that is written. The history of an instance is then its
books: read as records, the row that a write appends is the record of the abstract step
the write performs. The one proviso is that no trigger has the number zero, because
`new_trace_entry` drops an argument that Python takes for false. Triggers are numbered
by a serial, so they are positive.

What the steps of the abstract workflow keep about an instance and its books is
therefore true after every such run of the tables, which is `run_books`.

## Main definitions

* `traceOf`: The history of an instance.
* `SameState`, `SameRows`: An instance whose row and status are the same, or whose
  history is as well.
* `Wrote`: What a write leaves in the tables.
* `recordOf`: A row of the history as a record.
* `books`: The history of an instance as its books.
* `Op.Numbered`, `Positive`: Triggers with positive numbers.

## Theorems

* `rows_of_change`: A statement leaves all rows alone or is a write.
* `Wrote.recorded`, `Wrote.trace_own`, `Wrote.same_others`: A write whose values do not
  escape adds one row, to its own history.
* `recordOf_row`: The row of a write is its record.
* `books_exec`: What a statement does to the books.
* `run_books`: What the abstract steps keep, every run keeps.
-/

namespace WedFlow

open Workflow (Mode Phase Inst Policy Action Step Performs Record record Keeps)

/-! ## Rows -/

/-- The history of an instance, oldest row first. -/
def traceOf (db : Db) (wid : Int) : List TraceRow :=
  db.wedTrace.filter fun r => r.wid = wid

/-- A change of the columns rewrites the attributes of a history row by row. -/
theorem traceOf_map_attrs {db db' : Db} {f : List (String × String) → List (String × String)}
    (h : db'.wedTrace = db.wedTrace.map fun r => { r with attrs := f r.attrs }) (wid : Int) :
    traceOf db' wid = (traceOf db wid).map fun r => { r with attrs := f r.attrs } := by
  unfold traceOf
  rw [h, List.filter_map]
  rfl

/-- The row and the status of an instance are the same. -/
structure SameState (wid : Int) (db db' : Db) : Prop where
  flow : db'.wedFlow.filter (fun r => r.wid = wid) = db.wedFlow.filter (fun r => r.wid = wid)
  status : db'.stStatus.filter (fun s => s.wid = wid) = db.stStatus.filter (fun s => s.wid = wid)

/-- The row, the status and the history of an instance are the same. -/
structure SameRows (wid : Int) (db db' : Db) : Prop extends SameState wid db db' where
  trace : traceOf db' wid = traceOf db wid

theorem SameState.mem_flow {wid : Int} {db db' : Db} (h : SameState wid db db') {r : FlowRow}
    (hw : r.wid = wid) : r ∈ db'.wedFlow ↔ r ∈ db.wedFlow := by
  have hfilter : ∀ t : List FlowRow, r ∈ t ↔ r ∈ t.filter (fun q => q.wid = wid) := by
    intro t
    rw [List.mem_filter]
    exact ⟨fun hr => ⟨hr, decide_eq_true hw⟩, fun hr => hr.1⟩
  rw [hfilter, hfilter db.wedFlow, h.flow]

theorem SameState.mem_status {wid : Int} {db db' : Db} (h : SameState wid db db') {s : StatusRow}
    (hw : s.wid = wid) : s ∈ db'.stStatus ↔ s ∈ db.stStatus := by
  have hfilter : ∀ t : List StatusRow, s ∈ t ↔ s ∈ t.filter (fun q => q.wid = wid) := by
    intro t
    rw [List.mem_filter]
    exact ⟨fun hs => ⟨hs, decide_eq_true hw⟩, fun hs => hs.1⟩
  rw [hfilter, hfilter db.stStatus, h.status]

/-- What a write leaves: its row and its status, for its own instance only, and what its
    statement inserts into the history. -/
structure Wrote (loc : Locale) (env : Env) (db db' : Db) (w : Write) : Prop where
  flow : db'.wedFlow.filter (fun r => r.wid = w.new.wid) = [w.new]
  status : db'.stStatus.filter (fun s => s.wid = w.new.wid)
    = [⟨w.new.wid, finalFlag w.mode, excptFlag w.mode⟩]
  trace : db'.wedTrace = db.wedTrace ++ w.rows
  read : traceRows loc env.start db'.traceColumns w.entry = .ok w.rows
  wrote : ∀ g, w.tgid = some g → g ∈ db.wedTrig.map (·.tgid)
  others : ∀ v, v ≠ w.new.wid → SameState v db db'

theorem Wrote.mem_flow {loc : Locale} {env : Env} {db db' : Db} {w : Write}
    (h : Wrote loc env db db' w) : w.new ∈ db'.wedFlow := by
  have hmem : w.new ∈ db'.wedFlow.filter (fun r => r.wid = w.new.wid) := by
    rw [h.flow]
    exact List.mem_singleton.mpr rfl
  exact (List.mem_filter.mp hmem).1

theorem wrote_insert (loc : Locale) (env : Env) (wid : Int) (uptkn : Option String)
    (vals : List (String × Option String)) (db : Db) (w : Write) (hi : Inv db)
    (h : Inserts loc env wid uptkn vals db w) : Wrote loc env db (w.insert env db) w := by
  have hfree : w.new.wid ∉ db.wedFlow.map (·.wid) := by
    rw [h.wid_eq]
    exact h.free
  have hstatus : w.new.wid ∉ db.stStatus.map (·.wid) := by
    rw [hi.status]
    exact hfree
  refine ⟨?_, ?_, rfl, h.settles.recordable.read, ?_, ?_⟩
  · change (db.wedFlow ++ [w.new]).filter _ = _
    rw [Table.filter_append_of_eq FlowRow.wid _ _ _ rfl,
      Table.filter_eq_nil_of_free FlowRow.wid _ _ hfree]
    rfl
  · change (db.stStatus ++ [_]).filter _ = _
    rw [Table.filter_append_of_eq StatusRow.wid w.new.wid _ _ rfl,
      Table.filter_eq_nil_of_free StatusRow.wid _ _ hstatus]
    rfl
  · intro g hg
    exact absurd (h.tgid.symm.trans hg) (Option.some_ne_none g).symm
  · intro v hv
    exact ⟨Table.filter_append_of_ne FlowRow.wid v db.wedFlow w.new hv.symm,
      Table.filter_append_of_ne StatusRow.wid v db.stStatus _ hv.symm⟩

theorem wrote_update (loc : Locale) (env : Env) (wid : Int) (newWid : Option Int)
    (uptkn : Option (Option String)) (vals : List (String × Option String)) (db : Db)
    (old : FlowRow) (u : String) (db₁ : Db) (w : Write) (hi : Inv db)
    (h : Updates loc env wid newWid uptkn vals db old u db₁ w) :
    Wrote loc env db (w.update env db₁) w := by
  rcases h.justified with ⟨f, e, hst, hfe, hj⟩
  have hdb₁ : db₁ = { db with jobPool := db₁.jobPool } := hj.same
  have htrace : (w.update env db₁).wedTrace = db.wedTrace ++ w.rows := by
    rw [hdb₁]
    rfl
  -- The updates are by key, so they pass over the rows of other instances.
  have hkey : ∀ v : Int, v ≠ w.new.wid → ∀ x : Int, decide (x = w.new.wid) = true →
      decide (x = v) = false := by
    intro v hv x hx
    rw [of_decide_eq_true hx]
    exact decide_eq_false hv.symm
  refine ⟨?_, ?_, htrace, h.settles.recordable.read, ?_, ?_⟩
  · change (Table.updateWhere (fun r => r.wid = w.new.wid) (fun _ => w.new) db₁.wedFlow).filter _ = _
    rw [hj.flow.1]
    exact hi.flow.filter_updateWhere h.mem _ _ _ (h.old_wid.trans h.wid_eq.symm) rfl rfl
  · change (Table.updateWhere (fun r => r.wid = w.new.wid) _ db₁.stStatus).filter _ = _
    rw [hj.flow.2.1]
    exact hi.keyed.status_unique.filter_updateWhere hst _ _ _ h.wid_eq.symm
      (by rw [h.wid_eq]) rfl
  · intro g hg
    rw [hg] at hj
    cases hj with
    | job j hne hjm hrun hjw => exact hi.pool.trig j hjm
  · intro v hv
    refine ⟨?_, ?_⟩
    · change (Table.updateWhere _ _ db₁.wedFlow).filter _ = _
      rw [hj.flow.1]
      exact Table.filter_updateWhere_of_not _ _ _ _
        (fun r _ hr => ⟨hkey v hv r.wid hr, decide_eq_false hv.symm⟩)
    · change (Table.updateWhere _ _ db₁.stStatus).filter _ = _
      rw [hj.flow.2.1]
      exact Table.filter_updateWhere_of_not _ _ _ _
        (fun s _ hs => ⟨hkey v hv s.wid hs, hkey v hv s.wid hs⟩)

/-- A write whose values do not escape is recorded as one row, the one that was meant. -/
theorem Wrote.recorded {loc : Locale} {env : Env} {db db' : Db} {w : Write}
    (h : Wrote loc env db db' w) (hi : Inv db')
    (hc : Conform loc.printable (fun v => ¬ Escapes v) db') :
    w.rows = [w.entry.row env.start (w.entry.stored loc.printable db'.traceColumns)] :=
  hc.recorded hi h.mem_flow _ _ _ _ h.read

/-- It goes to the end of the history of its instance. -/
theorem Wrote.trace_own {loc : Locale} {env : Env} {db db' : Db} {w : Write}
    (h : Wrote loc env db db' w) (hi : Inv db')
    (hc : Conform loc.printable (fun v => ¬ Escapes v) db') :
    traceOf db' w.new.wid = traceOf db w.new.wid
      ++ [w.entry.row env.start (w.entry.stored loc.printable db'.traceColumns)] := by
  unfold traceOf
  rw [h.trace, h.recorded hi hc]
  exact Table.filter_append_of_eq TraceRow.wid _ _ _ rfl

/-- And no other instance is concerned. -/
theorem Wrote.same_others {loc : Locale} {env : Env} {db db' : Db} {w : Write}
    (h : Wrote loc env db db' w) (hi : Inv db')
    (hc : Conform loc.printable (fun v => ¬ Escapes v) db') {v : Int} (hv : v ≠ w.new.wid) :
    SameRows v db db' := by
  refine ⟨h.others v hv, ?_⟩
  unfold traceOf
  rw [h.trace, h.recorded hi hc]
  exact Table.filter_append_of_ne TraceRow.wid v db.wedTrace _ hv.symm

/-- Inserts are answered, updates are counted, and nothing else writes. -/
def Op.WritesFor (op : Op) (r : Reply) (db : Db) (wid : Int) : Prop :=
  (∃ uptkn vals, op = .insertFlow wid uptkn vals ∧ wid ∉ db.wedFlow.map (·.wid)) ∨
    (∃ newWid uptkn vals, op = .updateFlow wid newWid uptkn vals ∧ r = .rows 1 ∧
      wid ∈ db.wedFlow.map (·.wid))

/-- A statement that is no write. -/
structure Silent (loc : Locale) (i : Input) (r : Reply) (db db' : Db) : Prop where
  rows : ∀ v, SameRows v db db'
  actions : ∀ p ∈ actions loc i db, ¬ p.2.Writes
  reply : r ≠ .rows 1
  noInsert : ∀ wid uptkn vals, i.op ≠ .insertFlow wid uptkn vals

/-- A statement leaves the rows of all instances alone, or it is a write of one
    of them. -/
theorem rows_of_change (loc : Locale) (env : Env) (op : Op) (r : Reply) (db db' : Db) (hi : Inv db)
    (hc : Change loc env db op r db') (hop : ¬ op.Restyles) :
    Silent loc ⟨env, op⟩ r db db' ∨ ∃ w a k, Wrote loc env db db' w ∧
      OneWrite loc ⟨env, op⟩ db db' w.new.wid w a k ∧ op.WritesFor r db w.new.wid := by
  have hsame : ∀ v, SameRows v db db := fun v => ⟨⟨rfl, rfl⟩, rfl⟩
  -- The actions of the other statements, as `mem_actions` lists them.
  have hsilent : (∀ v uptkn vals, op ≠ .insertFlow v uptkn vals) →
      (∀ v newWid uptkn vals, op ≠ .updateFlow v newWid uptkn vals) →
      ∀ p ∈ actions loc ⟨env, op⟩ db, ¬ p.2.Writes := by
    intro hins hupd p hp hw
    have hm := mem_actions loc ⟨env, op⟩ db p hp
    rcases p with ⟨v, a⟩
    cases a with
    | insert s =>
        rcases hm with ⟨uptkn, vals, he⟩
        exact hins v uptkn vals he
    | complete t s =>
        rcases hm with ⟨newWid, uptkn, vals, he⟩
        exact hupd v newWid uptkn vals he
    | recover s =>
        rcases hm with ⟨newWid, uptkn, vals, he⟩
        exact hupd v newWid uptkn vals he
    | lock t => exact hw
    | timeout t => exact hw
    | abort t => exact hw
  cases hc with
  | insert wid uptkn vals w h =>
      rcases oneWrite_insert loc env wid uptkn vals db w hi h with ⟨a, k, hw⟩
      refine .inr ⟨w, a, k, wrote_insert loc env wid uptkn vals db w hi h, ?_, ?_⟩
      · rw [h.wid_eq]
        exact hw
      · rw [h.wid_eq]
        exact .inl ⟨uptkn, vals, rfl, h.free⟩
  | noRow wid newWid uptkn vals h =>
      refine .inl ⟨hsame, fun p hp => ?_, ?_, fun _ _ _ he => Op.noConfusion he⟩
      · rw [actions_noRow loc env wid newWid uptkn vals db h] at hp
        exact absurd hp List.not_mem_nil
      · decide
  | update wid newWid uptkn vals old u db₁ w h =>
      rcases oneWrite_update loc env wid newWid uptkn vals db old u db₁ w hi h with ⟨a, k, hw⟩
      refine .inr ⟨w, a, k, wrote_update loc env wid newWid uptkn vals db old u db₁ w hi h, ?_, ?_⟩
      · rw [h.wid_eq]
        exact hw
      · rw [h.wid_eq]
        exact .inr ⟨newWid, uptkn, vals, rfl, rfl, List.mem_map.mpr ⟨old, h.mem, h.old_wid⟩⟩
  | redefine op db' hop' h =>
      refine .inl ⟨fun v => ?_, hsilent ?_ ?_, fun he => Reply.noConfusion he, ?_⟩
      · rw [h.same]
        exact ⟨⟨rfl, rfl⟩, rfl⟩
      · intro v uptkn vals he
        rw [he] at hop'
        exact hop'
      · intro v newWid uptkn vals he
        rw [he] at hop'
        exact hop'
      · intro v uptkn vals he
        dsimp only at he
        rw [he] at hop'
        exact hop'
  | restyle op db' hop' h => exact absurd hop' hop
  | _ =>
      exact .inl ⟨fun v => ⟨⟨rfl, rfl⟩, rfl⟩,
        hsilent (fun _ _ _ he => Op.noConfusion he) (fun _ _ _ _ he => Op.noConfusion he),
        fun he => Reply.noConfusion he, fun _ _ _ he => Op.noConfusion he⟩

theorem wrote_ok {loc : Locale} {db : Db} {i : Input} {wid : Int}
    (h : wrote loc (db, i) = some wid) : ∃ db' r, exec loc i db = .ok (db', r) := by
  cases hex : exec loc i db with
  | ok out => exact ⟨out.1, out.2, rfl⟩
  | error e =>
      unfold wrote at h
      dsimp only at h
      rw [hex] at h
      split at h
      · next h' => exact absurd h' (nomatch ·)
      · next h' => exact absurd h' (nomatch ·)
      · exact absurd h (nomatch ·)

theorem wrote_of_ok {loc : Locale} {i : Input} {db db' : Db} {r : Reply} {wid : Int}
    (hexec : exec loc i db = .ok (db', r)) (h : wrote loc (db, i) = some wid) :
    (∃ uptkn vals, i.op = .insertFlow wid uptkn vals) ∨ r = .rows 1 := by
  unfold wrote at h
  dsimp only at h
  rw [hexec] at h
  split at h
  · next w uptkn vals _ hop _ =>
      rw [← Option.some.inj h]
      exact .inl ⟨uptkn, vals, hop⟩
  · next hres => exact .inr (Prod.mk.inj (Except.ok.inj hres)).2
  · exact absurd h (nomatch ·)

theorem wrote_of_writesFor {loc : Locale} {i : Input} {db db' : Db} {r : Reply} {wid : Int}
    (hexec : exec loc i db = .ok (db', r)) (h : i.op.WritesFor r db wid) :
    wrote loc (db, i) = some wid := by
  unfold wrote
  dsimp only
  rcases h with ⟨uptkn, vals, hop, -⟩ | ⟨newWid, uptkn, vals, hop, hr, -⟩
  · rw [hop, hexec]
  · rw [hop, hexec, hr]
    rfl

theorem Silent.not_wrote {loc : Locale} {i : Input} {db db' : Db} {r : Reply}
    (h : Silent loc i r db db') (hexec : exec loc i db = .ok (db', r)) (wid : Int) :
    wrote loc (db, i) ≠ some wid := by
  intro hw
  rcases wrote_of_ok hexec hw with ⟨uptkn, vals, ho⟩ | hr
  · exact h.noInsert wid uptkn vals ho
  · exact h.reply hr

/-! ## Books -/

/-- A row of the history as a record. -/
def recordOf (r : TraceRow) : Record Int where
  wrote := r.tgidWrote
  fired := {g | g ∈ r.tgidFired.getD []}
  mode := modeOf ⟨r.wid, r.final, r.excpt⟩

/-- The history of an instance as its books. -/
def books (db : Db) (wid : Int) : List (Record Int) :=
  (traceOf db wid).map recordOf

/-- Triggers have positive numbers, as the serial gives them. -/
def Positive (db : Db) : Prop :=
  ∀ t ∈ db.wedTrig, 0 < t.tgid

/-- The statement gives no trigger a number that is not positive. -/
def Op.Numbered (op : Op) : Prop :=
  ∀ t ∈ op.trig, 0 < t.tgid

instance : DecidablePred Op.Numbered := fun op =>
  inferInstanceAs (Decidable (∀ t ∈ op.trig, 0 < t.tgid))

theorem positive_exec (loc : Locale) (i : Input) (db db' : Db) (r : Reply) (hi : Inv db)
    (hexec : exec loc i db = .ok (db', r)) (hnum : i.op.Numbered) (hpos : Positive db) :
    Positive db' := by
  have hc := exec_change loc i db db' r hi hexec
  rcases i with ⟨env, op⟩
  dsimp only at hc hnum
  cases hc with
  | update wid newWid uptkn vals old u db₁ w h =>
      rcases h.justified with ⟨f, e, -, -, hj⟩
      have htrig : db₁.wedTrig = db.wedTrig := by rw [hj.same]
      exact fun t ht => hpos t (htrig ▸ ht)
  | redefine op db' hop h =>
      intro t ht
      rcases h.origin t ht with ht | ht
      · exact hpos t ht
      · exact hnum t ht
  | restyle op db' hop h =>
      rcases h.same with ⟨f, he⟩
      rw [he]
      exact hpos
  | _ => exact hpos

/-- The row of a write is its record, unless its trigger has the number
    zero. -/
theorem recordOf_row (start : Time) (attrs : List (String × String)) (w : Write)
    (h : w.tgid ≠ some 0) : recordOf (w.entry.row start attrs) = w.record := by
  have hwrote : truthy w.tgid = w.tgid := by
    cases ht : w.tgid with
    | none => rfl
    | some t => exact if_neg (fun h0 => h (by rw [ht, h0]))
  have hfired : (if w.fired.map (·.tgid) = [] then none else some (w.fired.map (·.tgid))).getD []
      = w.fired.map (·.tgid) := by
    by_cases hn : w.fired.map (·.tgid) = []
    · rw [if_pos hn, hn]
      rfl
    · rw [if_neg hn]
      rfl
  unfold recordOf Entry.row Write.entry entryOf Write.record
  dsimp only
  rw [hwrote, hfired, modeOf_flags]
  simp only [List.mem_map]

/-- What a statement does to an instance and its books, the abstract steps do. -/
theorem books_exec (loc : Locale) (ok : Action State Int → Prop)
    (Q : Option (Inst State Int) → List (Record Int) → Prop) (hk : Keeps ok Q) (i : Input)
    (db db' : Db) (r : Reply) (hi : Inv db) (hpos : Positive db)
    (hexec : exec loc i db = .ok (db', r))
    (hc : Conform loc.printable (fun v => ¬ Escapes v) db')
    (hok : ∀ p ∈ actions loc i db, ok p.2) (wid : Int)
    (hQ : Q (inst db wid) (books db wid)) : Q (inst db' wid) (books db' wid) := by
  by_cases hop : i.op.Restyles
  · have hre := restyled_of_exec loc i.env i.op db db' r hop hexec
    rcases inst_restyle hre with ⟨f, hf⟩
    have hbooks : books db' wid = books db wid := by
      rcases hre.same with ⟨g, he⟩
      unfold books
      rw [traceOf_map_attrs (congrArg Db.wedTrace he), List.map_map]
      rfl
    rw [hf, hbooks]
    exact hk.restate _ _ f hQ
  · have hperf := exec_performs loc i db db' r hi hop hexec
    -- Either nothing was written, or one record for one instance.
    rcases rows_of_change loc i.env i.op r db db' hi (exec_change loc i db db' r hi hexec) hop with
      hs | ⟨w, a, k, hw, hone, -⟩
    · have hbooks : books db' wid = books db wid := by
        unfold books
        rw [(hs.rows wid).trace]
      rw [hbooks]
      refine hperf.invariant (fun a => ok a ∧ ¬ a.Writes) (fun x => Q x (books db wid)) ?_ wid ?_ hQ
      · intro x a i ha hx hstep
        exact hk.silent _ x a i _ ha.1 ha.2 hstep hx
      · exact fun p hp _ => ⟨hok p hp, hs.actions p hp⟩
    · have hi' := inv_exec loc i db db' r hi hexec
      rw [hone.result]
      by_cases hwid : wid = w.new.wid
      · -- The new row is the record of the step.
        have hzero : w.tgid ≠ some 0 := by
          intro h0
          rcases List.mem_map.mp (hw.wrote 0 h0) with ⟨t, ht, htg⟩
          exact absurd (hpos t ht) (by omega)
        have hbooks : books db' wid = books db wid ++ [record (inst db wid) a k] := by
          unfold books
          rw [hwid, hw.trace_own hi' hc, List.map_append, hone.logged, List.map_cons, List.map_nil,
            recordOf_row _ _ w hzero]
        rw [hbooks, hwid, Function.update_self]
        rw [hwid] at hQ
        refine hk.write _ _ a k _ (hok (w.new.wid, a) ?_) hone.writes hone.step hQ
        have hasked : actions loc i db = [(w.new.wid, a)] := hone.asked
        rw [hasked]
        exact List.mem_singleton.mpr rfl
      · have hbooks : books db' wid = books db wid := by
          unfold books
          rw [(hw.same_others hi' hc hwid).trace]
        rw [hbooks, Function.update_of_ne hwid]
        exact hQ

/-- What the steps of the abstract workflow keep about an instance and its books
    holds of every instance after every run. -/
theorem run_books (loc : Locale) (ok : Action State Int → Prop)
    (Q : Option (Inst State Int) → List (Record Int) → Prop) (hk : Keeps ok Q) (h0 : Q none [])
    (is : List Input) (htext : ∀ i ∈ is, i.op.HeldText loc.printable)
    (hnum : ∀ i ∈ is, i.op.Numbered)
    (hok : ∀ i ∈ is, ∀ db, ∀ p ∈ actions loc i db, ok p.2) (wid : Int) :
    Q (inst (run loc is) wid) (books (run loc is) wid) := by
  refine (Machine.after_invariant (step loc)
    (fun i => i.op.HeldText loc.printable ∧ i.op.Numbered ∧ ∀ db, ∀ p ∈ actions loc i db, ok p.2)
    (fun db => Inv db ∧ Conform loc.printable (fun v => ¬ Escapes v) db ∧ Positive db ∧
      Q (inst db wid) (books db wid)) ?_ Db.empty
    ⟨inv_empty, conform_empty, fun t ht => absurd ht List.not_mem_nil, h0⟩ is
    (fun i hi => ⟨htext i hi, hnum i hi, hok i hi⟩)).2.2.2
  intro db i hi h
  refine ⟨inv_step loc i db h.1, step_cases loc db i (fun db' =>
    Conform loc.printable (fun v => ¬ Escapes v) db' ∧ Positive db' ∧
    Q (inst db' wid) (books db' wid)) h.2 (fun db' r hex => ?_)⟩
  have hc' := conform_exec loc i db db' r h.1 hex hi.1 h.2.1
  exact ⟨hc', positive_exec loc i db db' r h.1 hex hi.2.1 h.2.2.1,
    books_exec loc ok Q hk i db db' r h.1 h.2.2.1 hex hc' (hi.2.2 db) wid h.2.2.2⟩

end WedFlow
