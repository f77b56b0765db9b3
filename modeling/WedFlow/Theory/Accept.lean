import WedFlow.Theory.Pool
import WedFlow.Abstract.Workflow

/-!
# What the Kernel Accepts

`kernel_function` is one long function with many exits. This module turns it
around: it says what is true when a statement on `wed_flow` goes through, and
what the database looks like afterwards. Both directions are stated, so the
conditions collected here are all there are.

An insert and an update end alike. With the triggers that still run and the
conditions the new state matches, the kernel decides on a mode, fires the
triggers that are due if the mode is active, appends an entry to the history and
sets the flags of the instance. `Settles` collects the checks on that way, and
`Write` what comes out of it. An update has to find its token first.

## Main definitions

* `Meets`: A state meets a committed predicate of a condition.
* `finalFlag`, `excptFlag`: The two flags a mode is stored as.
* `verdict`: The mode a new state leads to.
* `due`: The triggers to fire.
* `Recordable`: The rows the history takes for an entry.
* `Write`: What a statement writes.
* `Settles`: The checks a new state passes.

## Theorems

* `mem_matchConds`, `mem_matchConds_iff_meets`, `matchConds_final`: What the predicate scan
  finds.
* `newTraceEntry_ok_iff`: When the history takes an entry.
* `squeezeTheTrigger_ok_iff`: When firing succeeds, and with what.
* `settle_ok_iff`: When a justified update goes through.
* `kernelInsert_ok_iff`: When an insert does.
-/

namespace WedFlow

open Workflow (Mode)

/-! ## The predicate scan -/

theorem mem_predScan (db : Db) (p : PredRow) (f : Bool) :
    (p, f) ∈ predScan db ↔ p ∈ db.wedPred ∧ ∃ c ∈ db.wedCond, c.cid = p.cid ∧ c.final = f := by
  unfold predScan
  simp only [List.mem_flatMap, List.mem_map, List.mem_filter, decide_eq_true_eq, Prod.mk.injEq]
  constructor
  · intro h
    rcases h with ⟨q, hq, c, ⟨hc, hcid⟩, rfl, hf⟩
    exact ⟨hq, c, hc, hcid, hf⟩
  · intro h
    rcases h with ⟨hp, c, hc, hcid, hf⟩
    exact ⟨p, hp, c, ⟨hc, hcid⟩, rfl, hf⟩

/-- The scan adds the condition and the flag of every row that matches to what
    it has so far. -/
theorem foldl_match (loc : Locale) (attrs : List (String × String)) (rows : List (PredRow × Bool))
    (acc : List Int × Bool) (c : Int) :
    (c ∈ (rows.foldl (fun acc r =>
        if rowMatches loc attrs r.1 then (acc.1.insert r.1.cid, acc.2 || r.2) else acc) acc).1 ↔
      c ∈ acc.1 ∨ ∃ r ∈ rows, rowMatches loc attrs r.1 = true ∧ r.1.cid = c) ∧
    ((rows.foldl (fun acc r =>
        if rowMatches loc attrs r.1 then (acc.1.insert r.1.cid, acc.2 || r.2) else acc) acc).2 = true ↔
      acc.2 = true ∨ ∃ r ∈ rows, rowMatches loc attrs r.1 = true ∧ r.2 = true) := by
  induction rows generalizing acc with
  | nil => simp only [List.foldl_nil, List.not_mem_nil, false_and, exists_false, or_false, and_self]
  | cons r rs ih =>
      simp only [List.foldl_cons]
      by_cases hr : rowMatches loc attrs r.1 = true
      · rw [if_pos hr]
        refine ⟨(ih _).1.trans ?_, (ih _).2.trans ?_⟩
        · simp only [List.mem_insert_iff, List.exists_mem_cons_iff, hr, true_and, eq_comm,
            or_assoc, or_left_comm]
        · simp only [Bool.or_eq_true, List.exists_mem_cons_iff, hr, true_and, or_assoc]
      · rw [if_neg hr]
        refine ⟨(ih acc).1.trans ?_, (ih acc).2.trans ?_⟩
        · simp only [List.exists_mem_cons_iff, hr, false_and, false_or, Bool.false_eq_true]
        · simp only [List.exists_mem_cons_iff, hr, false_and, false_or, Bool.false_eq_true]

/-- The matched conditions are those with a predicate row that matches. -/
theorem mem_matchConds (loc : Locale) (db : Db) (attrs : List (String × String)) (c : Int) :
    c ∈ (matchConds loc db attrs).1 ↔
      ∃ r ∈ predScan db, rowMatches loc attrs r.1 = true ∧ r.1.cid = c := by
  have h := (foldl_match loc attrs (predScan db) ([], false) c).1
  unfold matchConds
  simpa only [List.not_mem_nil, false_or] using h

/-- The flag is that of a matched final condition. -/
theorem matchConds_final (loc : Locale) (db : Db) (attrs : List (String × String)) :
    (matchConds loc db attrs).2 = true ↔
      ∃ r ∈ predScan db, rowMatches loc attrs r.1 = true ∧ r.2 = true := by
  have h := (foldl_match loc attrs (predScan db) ([], false) 0).2
  unfold matchConds
  simpa only [Bool.false_eq_true, false_or] using h

/-- A final state matches something. -/
theorem matchConds_ne_nil (loc : Locale) (db : Db) (attrs : List (String × String))
    (h : (matchConds loc db attrs).2 = true) : (matchConds loc db attrs).1 ≠ [] := by
  rcases (matchConds_final loc db attrs).mp h with ⟨r, hr, hm, -⟩
  exact List.ne_nil_of_mem ((mem_matchConds loc db attrs r.1.cid).mpr ⟨r, hr, hm, rfl⟩)

/-- The state meets a predicate of the condition, and both are committed. -/
def Meets (loc : Locale) (attrs : List (String × String)) (db : Db) (cid : Int) : Prop :=
  (∃ c ∈ db.wedCond, c.cid = cid) ∧ ∃ p ∈ db.wedPred, p.cid = cid ∧ rowMatches loc attrs p = true

theorem mem_matchConds_iff_meets (loc : Locale) (db : Db) (attrs : List (String × String))
    (cid : Int) : cid ∈ (matchConds loc db attrs).1 ↔ Meets loc attrs db cid := by
  rw [mem_matchConds]
  constructor
  · intro h
    rcases h with ⟨⟨p, f⟩, hscan, hm, rfl⟩
    rcases (mem_predScan db p f).mp hscan with ⟨hp, c, hc, hcid, -⟩
    exact ⟨⟨c, hc, hcid⟩, p, hp, rfl, hm⟩
  · intro h
    rcases h with ⟨⟨c, hc, hcid⟩, p, hp, rfl, hm⟩
    exact ⟨(p, c.final), (mem_predScan db p c.final).mpr ⟨hp, c, hc, hcid, rfl⟩, hm, rfl⟩

theorem matchConds_eq_nil_iff (loc : Locale) (db : Db) (attrs : List (String × String)) :
    (matchConds loc db attrs).1 = [] ↔ ∀ cid, ¬ Meets loc attrs db cid := by
  rw [List.eq_nil_iff_forall_not_mem]
  exact forall_congr' (fun cid => not_congr (mem_matchConds_iff_meets loc db attrs cid))

theorem predMatch_ok_iff (loc : Locale) (attrs : List (String × String)) (db : Db)
    (m : List Int × Bool) :
    predMatch loc attrs db = .ok m ↔
      (∀ c ∈ predAttrs attrs, c ∈ db.predColumns) ∧ m = matchConds loc db attrs := by
  unfold predMatch
  rw [Table.require_eq_ok, List.all_eq_true, Except.ok.injEq, eq_comm]
  simp only [decide_eq_true_eq]

/-! ## Modes -/

/-- The flag `final` of a mode. An exception is final as well. -/
def finalFlag : Mode → Bool
  | .active => false
  | .final => true
  | .exception => true

/-- The flag `excpt` of a mode. -/
def excptFlag : Mode → Bool
  | .active => false
  | .final => false
  | .exception => true

/-- The mode that follows from the triggers that still run and from the
    conditions the new state matches. -/
def verdict (rtrg : List Int) (m : List Int × Bool) : Except Error Mode :=
  if rtrg = [] ∧ m.1 = [] then .ok .exception
  else if m.2 then
    if rtrg ≠ [] then .error .pendingTransitions else .ok .final
  else .ok .active

/-- An exception is what is left when nothing runs and nothing is matched. -/
theorem verdict_eq_exception_iff (rtrg : List Int) (m : List Int × Bool) :
    verdict rtrg m = .ok .exception ↔ rtrg = [] ∧ m.1 = [] := by
  unfold verdict
  refine ⟨fun h => ?_, fun h => if_pos h⟩
  by_contra hno
  rw [if_neg hno] at h
  split at h
  · split at h
    · cases h
    · cases h
  · cases h

/-- The triggers of a set of conditions that do not run already. -/
def due (db : Db) (condSet rtrg : List Int) : List TrigRow :=
  (db.wedTrig.filter fun t => t.cid ∈ condSet).filter fun t => t.tgid ∉ rtrg

/-- Firing succeeds exactly if every trigger that is due has a timeout and all
    the tokens drawn are new. -/
theorem squeezeTheTrigger_ok_iff (loc : Locale) (env : Env) (wid : Int) (condSet rtrg : List Int)
    (db db' : Db) (fired : List Int) (hwid : wid ∈ db.wedFlow.map (·.wid)) :
    squeezeTheTrigger loc env wid condSet rtrg db = .ok (db', fired) ↔
      (∀ r ∈ due db condSet rtrg, r.tout.isSome) ∧
        Fresh loc db.jobPool (freshJobs env 0 ((due db condSet rtrg).map (TrigRow.request wid))) ∧
        db' = issueJobs (freshJobs env 0 ((due db condSet rtrg).map (TrigRow.request wid))) db ∧
        fired = (due db condSet rtrg).map (·.tgid) := by
  unfold squeezeTheTrigger
  by_cases hc : condSet = []
  · have hdue : due db condSet rtrg = [] := by
      unfold due
      simp only [hc, List.not_mem_nil, decide_false, List.filter_false, List.filter_nil]
    rw [if_pos hc, hdue]
    simp only [List.map_nil, freshJobs, issueJobs_nil, Except.ok.injEq, Prod.mk.injEq, eq_comm]
    exact ⟨fun h => ⟨fun r hr => absurd hr List.not_mem_nil, fresh_nil loc _, h⟩, fun h => h.2.2⟩
  · rw [if_neg hc, fireRows_ok_iff loc env wid rtrg _ 0 db db' [] fired ?_ hwid]
    · rfl
    · intro r hr
      exact List.mem_map_of_mem (List.mem_filter.mp hr).1

/-! ## The history -/

/-- The statement of an entry inserts these rows, under keys that are there. -/
structure Recordable (loc : Locale) (start : Time) (e : Entry) (db : Db) (rows : List TraceRow) :
    Prop where
  read : traceRows loc start db.traceColumns e = .ok rows
  flow : ∀ r ∈ rows, r.wid ∈ db.wedFlow.map (·.wid)
  trig : ∀ r ∈ rows, ∀ t, r.tgidWrote = some t → t ∈ db.wedTrig.map (·.tgid)

theorem newTraceEntry_ok_iff (loc : Locale) (env : Env) (e : Entry) (db db' : Db) :
    newTraceEntry loc env e db = .ok db' ↔
      ∃ rows, Recordable loc env.start e db rows ∧
        db' = { db with wedTrace := db.wedTrace ++ rows } := by
  have hflow : ∀ rows : List TraceRow,
      (rows.all fun r => db.wedFlow.any fun f => decide (f.wid = r.wid)) = true ↔
        ∀ r ∈ rows, r.wid ∈ db.wedFlow.map (·.wid) := by
    intro rows
    simp only [List.all_eq_true, any_iff_mem_map]
  have htrig : ∀ rows : List TraceRow,
      (rows.all fun r => r.tgidWrote.all fun t => db.wedTrig.any fun g => decide (g.tgid = t)) = true
        ↔ ∀ r ∈ rows, ∀ t, r.tgidWrote = some t → t ∈ db.wedTrig.map (·.tgid) := by
    intro rows
    rw [List.all_eq_true]
    refine forall₂_congr (fun r _ => ?_)
    cases r.tgidWrote with
    | none => simp only [Option.all_none, reduceCtorEq, false_imp_iff, implies_true]
    | some t => simp only [Option.all_some, Option.some.injEq, forall_eq', any_iff_mem_map]
  unfold newTraceEntry
  rw [Table.bind_eq_ok]
  refine exists_congr (fun rows => ?_)
  rw [Table.check_eq_ok, hflow, Table.check_eq_ok, htrig, Except.ok.injEq]
  constructor
  · rintro ⟨h1, h2, h3, hdb⟩
    exact ⟨⟨h1, h2, h3⟩, hdb.symm⟩
  · rintro ⟨hr, hdb⟩
    exact ⟨hr.read, hr.flow, hr.trig, hdb.symm⟩

/-! ## Settling -/

/-- What a statement writes: the new row, the trigger it came from, the mode,
    the triggers it fires, and the rows that go into the history. -/
structure Write where
  new : FlowRow
  tgid : Option Int
  mode : Mode
  fired : List TrigRow
  rows : List TraceRow

def Write.entry (w : Write) : Entry :=
  entryOf w.new w.tgid (finalFlag w.mode) (excptFlag w.mode) (w.fired.map (·.tgid))

def Write.jobs (env : Env) (w : Write) : List JobRow :=
  freshJobs env 0 (w.fired.map (TrigRow.request w.new.wid))

/-- The new jobs and the new rows of the history. -/
def Write.commit (env : Env) (w : Write) (db : Db) : Db :=
  { issueJobs (w.jobs env) db with wedTrace := db.wedTrace ++ w.rows }

/-- The checks a new state passes while `rtrg` still runs. -/
structure Settles (loc : Locale) (env : Env) (rtrg : List Int) (db : Db) (w : Write) : Prop where
  columns : ∀ c ∈ predAttrs w.new.attrs, c ∈ db.predColumns
  verdict : verdict rtrg (matchConds loc db w.new.attrs) = .ok w.mode
  fired : w.fired =
    if w.mode = .active then due db (matchConds loc db w.new.attrs).1 rtrg else []
  outs : ∀ r ∈ w.fired, r.tout.isSome
  fresh : Fresh loc db.jobPool (w.jobs env)
  recordable : Recordable loc env.start w.entry db w.rows

/-- Fire what is due, in the active mode only. -/
def fireDue (loc : Locale) (env : Env) (wid : Int) (rtrg condSet : List Int) (mode : Mode)
    (db : Db) : Except Error (Db × List Int) :=
  if mode = .active then squeezeTheTrigger loc env wid condSet rtrg db else .ok (db, [])

/-- The common end of an insert and an update, once the mode is decided. -/
def conclude (loc : Locale) (env : Env) (new : FlowRow) (tgid : Option Int) (rtrg : List Int)
    (condSet : List Int) (mode : Mode) (db : Db) : Except Error Db := do
  let (db, fired) ← fireDue loc env new.wid rtrg condSet mode db
  newTraceEntry loc env (entryOf new tgid (finalFlag mode) (excptFlag mode) fired) db

theorem conclude_ok_iff (loc : Locale) (env : Env) (new : FlowRow) (tgid : Option Int)
    (rtrg condSet : List Int) (mode : Mode) (db db' : Db)
    (hwid : new.wid ∈ db.wedFlow.map (·.wid)) :
    conclude loc env new tgid rtrg condSet mode db = .ok db' ↔
      ∃ w : Write, w.new = new ∧ w.tgid = tgid ∧ w.mode = mode ∧
        w.fired = (if mode = .active then due db condSet rtrg else []) ∧
        (∀ r ∈ w.fired, r.tout.isSome) ∧ Fresh loc db.jobPool (w.jobs env) ∧
        Recordable loc env.start w.entry db w.rows ∧ db' = w.commit env db := by
  -- The entry is checked against columns and keys that firing does not touch.
  have hrec : ∀ (e : Entry) (js : List JobRow) (rows : List TraceRow),
      Recordable loc env.start e (issueJobs js db) rows ↔ Recordable loc env.start e db rows := by
    intro e js rows
    exact ⟨fun h => ⟨h.1, h.2, h.3⟩, fun h => ⟨h.1, h.2, h.3⟩⟩
  have hfire : ∀ (db₁ : Db) (fired : List Int),
      fireDue loc env new.wid rtrg condSet mode db = .ok (db₁, fired) ↔
      ∃ rows, rows = (if mode = .active then due db condSet rtrg else []) ∧
        (∀ r ∈ rows, r.tout.isSome) ∧
        Fresh loc db.jobPool (freshJobs env 0 (rows.map (TrigRow.request new.wid))) ∧
        db₁ = issueJobs (freshJobs env 0 (rows.map (TrigRow.request new.wid))) db ∧
        fired = rows.map (·.tgid) := by
    intro db₁ fired
    unfold fireDue
    by_cases hm : mode = .active
    · rw [if_pos hm, if_pos hm, squeezeTheTrigger_ok_iff loc env _ _ _ _ _ _ hwid]
      simp only [exists_eq_left]
    · rw [if_neg hm, if_neg hm]
      simp only [exists_eq_left, List.map_nil, freshJobs, issueJobs_nil, Except.ok.injEq,
        Prod.mk.injEq, eq_comm]
      exact ⟨fun h => ⟨fun r hr => absurd hr List.not_mem_nil, fresh_nil loc _, h⟩,
        fun h => h.2.2⟩
  unfold conclude
  rw [Table.bind_eq_ok]
  constructor
  · intro h
    rcases h with ⟨⟨db₁, fired⟩, hsq, htr⟩
    rcases (hfire db₁ fired).mp hsq with ⟨rows, hrows, houts, hfresh, rfl, rfl⟩
    rcases (newTraceEntry_ok_iff loc env _ _ _).mp htr with ⟨entries, hr, hdb⟩
    exact ⟨⟨new, tgid, mode, rows, entries⟩, rfl, rfl, rfl, hrows, houts, hfresh,
      (hrec _ _ _).mp hr, hdb⟩
  · intro h
    rcases h with ⟨w, rfl, rfl, rfl, hrows, houts, hfresh, hr, hdb⟩
    refine ⟨(issueJobs (w.jobs env) db, w.fired.map (·.tgid)),
      (hfire _ _).mpr ⟨w.fired, hrows, houts, hfresh, rfl, rfl⟩, ?_⟩
    exact (newTraceEntry_ok_iff loc env _ _ _).mpr ⟨w.rows, (hrec _ _ _).mpr hr, hdb⟩

/-- A justified update is a verdict and its conclusion. -/
theorem settle_eq (loc : Locale) (env : Env) (new : FlowRow) (tgid : Option Int) (db : Db) :
    settle loc env new tgid db = (do
      let m ← predMatch loc new.attrs db
      let mode ← verdict (runningTriggers new.wid db) m
      let db ← conclude loc env new tgid (runningTriggers new.wid db) m.1 mode db
      return setStStatus new.wid (finalFlag mode) (excptFlag mode) db) := by
  unfold settle
  rcases predMatch loc new.attrs db with e | m
  · rfl
  · simp only [bind, Except.bind, verdict]
    -- The branches of the source, in its order: exception, final, active.
    by_cases h1 : runningTriggers new.wid db = [] ∧ m.1 = []
    · rw [if_pos h1, if_pos h1]
      rfl
    · rw [if_neg h1, if_neg h1]
      by_cases h2 : m.2 = true
      · rw [if_pos h2, if_pos h2]
        by_cases h3 : runningTriggers new.wid db ≠ []
        · rw [if_pos h3, if_pos h3]
        · rw [if_neg h3, if_neg h3]
          rfl
      · rw [if_neg h2, if_neg h2]
        unfold conclude fireDue
        simp only [bind, Except.bind, if_true]
        rcases squeezeTheTrigger loc env new.wid m.1 (runningTriggers new.wid db) db with e | r
        · rfl
        · rfl

/-- When a justified update goes through, and with what. -/
theorem settle_ok_iff (loc : Locale) (env : Env) (new : FlowRow) (tgid : Option Int) (db db' : Db)
    (hwid : new.wid ∈ db.wedFlow.map (·.wid)) :
    settle loc env new tgid db = .ok db' ↔
      ∃ w : Write, w.new = new ∧ w.tgid = tgid ∧
        Settles loc env (runningTriggers new.wid db) db w ∧
        db' = setStStatus new.wid (finalFlag w.mode) (excptFlag w.mode) (w.commit env db) := by
  rw [settle_eq]
  simp only [Table.bind_eq_ok]
  constructor
  · intro h
    rcases h with ⟨m, hm, mode, hv, db₁, hc, hdb⟩
    rcases (predMatch_ok_iff loc _ _ _).mp hm with ⟨hcols, rfl⟩
    rcases (conclude_ok_iff loc env new tgid _ _ mode db db₁ hwid).mp hc with
      ⟨w, rfl, rfl, rfl, hf, ho, hfr, hr, rfl⟩
    exact ⟨w, rfl, rfl, ⟨hcols, hv, hf, ho, hfr, hr⟩, (Except.ok.inj hdb).symm⟩
  · intro h
    rcases h with ⟨w, rfl, rfl, hs, hdb⟩
    refine ⟨_, (predMatch_ok_iff loc _ _ _).mpr ⟨hs.columns, rfl⟩, w.mode, hs.verdict,
      w.commit env db, ?_, ?_⟩
    · exact (conclude_ok_iff loc env _ _ _ _ _ db _ hwid).mpr
        ⟨w, rfl, rfl, rfl, hs.fired, hs.outs, hs.fresh, hs.recordable, rfl⟩
    · rw [hdb]
      rfl

/-! ## A new instance -/

theorem newStStatusEntry_ok_iff (wid : Int) (db db' : Db) :
    newStStatusEntry wid db = .ok db' ↔
      wid ∉ db.stStatus.map (·.wid) ∧
        db' = { db with stStatus := db.stStatus ++ [⟨wid, false, false⟩] } := by
  unfold newStStatusEntry
  rw [Table.guard_eq_ok, any_iff_mem_map, Except.ok.injEq, eq_comm]

/-- Setting the flags of an instance whose status has just been created. -/
theorem setStStatus_new (wid : Int) (final excpt : Bool) (db : Db)
    (h : wid ∉ db.stStatus.map (·.wid)) :
    setStStatus wid final excpt { db with stStatus := db.stStatus ++ [⟨wid, false, false⟩] }
      = { db with stStatus := db.stStatus ++ [⟨wid, final, excpt⟩] } := by
  unfold setStStatus
  have hno : ∀ r ∈ db.stStatus, decide (r.wid = wid) = false := by
    intro r hr
    exact decide_eq_false (fun hk => h (List.mem_map.mpr ⟨r, hr, hk⟩))
  dsimp only
  rw [Table.updateWhere_append, Table.updateWhere_of_forall_not _ _ _ hno]
  simp only [Table.updateWhere, List.map_cons, List.map_nil, decide_true, if_true]

/-- An insert is a verdict with nothing running, and an exception is no
    verdict for it. -/
theorem kernelInsert_eq (loc : Locale) (env : Env) (new : FlowRow) (db : Db) :
    kernelInsert loc env new db = (do
      let m ← predMatch loc new.attrs db
      let mode ← verdict [] m
      if mode = .exception then .error .noPredicateMatches
      else do
        let db ← conclude loc env new none [] m.1 mode db
        let db ← newStStatusEntry new.wid db
        return if mode = .final then setStStatus new.wid true false db else db) := by
  unfold kernelInsert
  rcases hm : predMatch loc new.attrs db with e | m
  · rfl
  · rcases (predMatch_ok_iff loc _ _ _).mp hm with ⟨-, rfl⟩
    -- The flag is up only if some condition matched, so the two tests never disagree.
    have hne := matchConds_ne_nil loc db new.attrs
    generalize matchConds loc db new.attrs = m at hne
    simp only [bind, Except.bind, verdict, true_and, ne_eq, not_true_eq_false, if_false]
    by_cases h1 : m.1 = []
    · have h2 : ¬ m.2 = true := fun h => hne h h1
      rw [if_pos ⟨h1, h2⟩, if_pos h1]
      rfl
    · rw [if_neg (fun h => h1 h.1), if_neg h1]
      by_cases h2 : m.2 = true
      · rw [if_neg (not_not.mpr h2), if_pos h2]
        rfl
      · rw [if_pos h2, if_neg h2]
        unfold conclude fireDue
        simp only [bind, Except.bind, if_true, reduceCtorEq, if_false, finalFlag, excptFlag]
        rcases squeezeTheTrigger loc env new.wid m.1 [] db with e | r
        · rfl
        · dsimp only
          rcases newTraceEntry loc env (entryOf new none false false r.2) r.1 with e | db₁
          · rfl
          · dsimp only
            rcases newStStatusEntry new.wid db₁ with e | db₂
            · rfl
            · rfl

/-- When an insert goes through the kernel, and with what. -/
theorem kernelInsert_ok_iff (loc : Locale) (env : Env) (new : FlowRow) (db db' : Db)
    (hwid : new.wid ∈ db.wedFlow.map (·.wid)) :
    kernelInsert loc env new db = .ok db' ↔
      ∃ w : Write, w.new = new ∧ w.tgid = none ∧ w.mode ≠ .exception ∧
        Settles loc env [] db w ∧ new.wid ∉ db.stStatus.map (·.wid) ∧
        db' = { w.commit env db with
          stStatus := db.stStatus ++ [⟨new.wid, finalFlag w.mode, excptFlag w.mode⟩] } := by
  -- The source inserts a status with both flags down and then raises `final`.
  have hflags : ∀ (mode : Mode) (db : Db), mode ≠ .exception →
      new.wid ∉ db.stStatus.map (·.wid) →
      (if mode = .final then
          setStStatus new.wid true false
            { db with stStatus := db.stStatus ++ [⟨new.wid, false, false⟩] }
        else { db with stStatus := db.stStatus ++ [⟨new.wid, false, false⟩] })
        = { db with stStatus := db.stStatus ++ [⟨new.wid, finalFlag mode, excptFlag mode⟩] } := by
    intro mode db hmode hnew
    cases mode with
    | active => rfl
    | final => exact setStStatus_new new.wid true false db hnew
    | exception => exact absurd rfl hmode
  rw [kernelInsert_eq]
  simp only [Table.bind_eq_ok]
  constructor
  · intro h
    rcases h with ⟨m, hm, mode, hv, h⟩
    rcases (predMatch_ok_iff loc _ _ _).mp hm with ⟨hcols, rfl⟩
    simp only [Table.guard_eq_ok, Table.bind_eq_ok] at h
    rcases h with ⟨hmode, db₁, hc, db₂, hst, hdb⟩
    rcases (conclude_ok_iff loc env new none _ _ mode db db₁ hwid).mp hc with
      ⟨w, rfl, htg, rfl, hf, ho, hfr, hr, rfl⟩
    rcases (newStStatusEntry_ok_iff _ _ _).mp hst with ⟨hnew, rfl⟩
    refine ⟨w, rfl, htg, hmode, ⟨hcols, hv, hf, ho, hfr, hr⟩, hnew, ?_⟩
    rw [← Except.ok.inj hdb]
    exact hflags w.mode (w.commit env db) hmode hnew
  · intro h
    rcases h with ⟨w, rfl, htg, hmode, hs, hnew, hdb⟩
    refine ⟨_, (predMatch_ok_iff loc _ _ _).mpr ⟨hs.columns, rfl⟩, w.mode, hs.verdict, ?_⟩
    rw [if_neg hmode]
    simp only [Table.bind_eq_ok]
    refine ⟨w.commit env db, ?_, _, (newStStatusEntry_ok_iff _ _ _).mpr ⟨hnew, rfl⟩, ?_⟩
    · exact (conclude_ok_iff loc env _ _ _ _ _ db _ hwid).mpr
        ⟨w, rfl, htg, rfl, hs.fired, hs.outs, hs.fresh, hs.recordable, rfl⟩
    · rw [hdb]
      exact congrArg Except.ok (hflags w.mode (w.commit env db) hmode hnew)

end WedFlow
