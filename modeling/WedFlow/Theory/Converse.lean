import Mathlib.Data.List.Sublists
import WedFlow.Theory.Entries
import WedFlow.Theory.Refine

/-!
# The Converse

What the abstract workflow can do the tables can do, provided the engine is
able to store the result. The provisos are about the engine and not about the
workflow: the definitions pass the three validations, the statement that writes
the new state into the history is read as one row, every trigger has a timeout,
and the tokens that are drawn are new ones.

Since the abstract workflow is deterministic it is enough to show that the
statement goes through. The instances behind the new tables are then the result
the workflow had, by the forward direction.

## Main definitions

* `Storable`: The history takes a state.
* `Writable`: The engine can store a new state of an instance.
* `Ready`: The engine can store what a statement asks for.

## Theorems

* `Storable.recordable`: The entry of such a state is recorded.
* `settles_of_settle`: A state on which the instance settles passes the checks.
* `exists_inserts`, `exists_updates_complete`, `exists_updates_recover`: The statements
  on instances.
* `exec_of_performs`: Actions that can be performed go through.
* `tables_refine_workflow`: Both directions, after every run.
-/

namespace WedFlow

open Workflow (Mode Phase Inst Policy Action Step Performs)

/-! ## What the engine has to be able to store -/

/-- The history takes a state: it has an attribute, each attribute has a column of its
    own and a name that is read as it is, and no value has a single quote in it. -/
structure Storable (table : Char → Bool) (columns : List Column) (s : State) : Prop where
  nonempty : s ≠ []
  distinct : (s.map (·.1)).Nodup
  names : ∀ a ∈ s, PlainIdent table a.1 ∧ Sql.truncateIdentifier a.1.toList = a.1.toList
  columns : ∀ a ∈ s, a.1 ∈ columns.map (·.name)
  values : ∀ a ∈ s, '\'' ∉ a.2.toList

/-- The engine can store the state `s` of an instance, whatever it fires. -/
structure Writable (loc : Locale) (env : Env) (db : Db) (wid : Int) (s : State) : Prop where
  validated : Validated db
  columns : ∀ c ∈ predAttrs s, c ∈ db.predColumns
  outs : ∀ r ∈ db.wedTrig, r.tout.isSome
  fresh : ∀ fired : List TrigRow, fired.Sublist db.wedTrig →
    Fresh loc db.jobPool (freshJobs env 0 (fired.map (TrigRow.request wid)))
  attrs : Storable loc.printable db.traceColumns s

/-- The state an action writes, if it writes one. -/
def written : Action State Int → Option State
  | .insert s => some s
  | .complete _ s => some s
  | .recover s => some s
  | .lock _ => none
  | .timeout _ => none
  | .abort _ => none

/-- The engine can store what a statement asks for. -/
structure Ready (loc : Locale) (i : Input) (db : Db) : Prop where
  state : ∀ p ∈ actions loc i db, ∀ s, written p.2 = some s → Writable loc i.env db p.1 s
  requeued : i.op = .jobInspector →
    Fresh loc db.jobPool (freshJobs i.env 0 ((expired i.env.now db).map ScanRow.request))

/-- Nothing of this depends on the instances, or on more of a job than its
    token. -/
theorem Writable.congr {loc : Locale} {env : Env} {db : Db} {wid : Int} {s : State}
    (h : Writable loc env db wid s) (flow : List FlowRow) (pool : List JobRow)
    (htok : pool.map (·.uptkn) = db.jobPool.map (·.uptkn)) :
    Writable loc env { db with wedFlow := flow, jobPool := pool } wid s where
  validated := ⟨h.validated.final, h.validated.cond, h.validated.trig⟩
  columns := h.columns
  outs := h.outs
  fresh fired hsub := (fresh_congr loc db.jobPool pool _ htok).mpr (h.fresh fired hsub)
  attrs := h.attrs

/-! ## Settling -/

theorem due_sublist (db : Db) (condSet rtrg : List Int) :
    (due db condSet rtrg).Sublist db.wedTrig :=
  List.filter_sublist.trans List.filter_sublist

theorem truthy_some {x : Option Int} {t : Int} (h : truthy x = some t) : x = some t := by
  cases x with
  | none => exact h
  | some n =>
      unfold truthy at h
      dsimp only at h
      by_cases hn : n = 0
      · rw [if_pos hn] at h
        exact absurd h (by simp only [reduceCtorEq, not_false_eq_true])
      · rwa [if_neg hn] at h

theorem two_le_entryItems (e : Entry) (h : e.attrs ≠ []) : 2 ≤ (entryItems e).length := by
  have hlen := List.length_pos_iff.mpr h
  unfold entryItems
  simp only [List.length_append, List.length_cons, List.length_map]
  omega

/-- The entry of a state the history takes is recorded, and the row is the one that was
    meant. -/
theorem Storable.recordable {loc : Locale} {start : Time} {e : Entry} {db : Db}
    (h : Storable loc.printable db.traceColumns e.attrs)
    (hfree : ∀ c ∈ db.traceColumns, c.name ∉ traceFixed) (hflow : e.wid ∈ db.wedFlow.map (·.wid))
    (htrig : ∀ t, e.tgidWrote = some t → t ∈ db.wedTrig.map (·.tgid)) :
    Recordable loc start e db [e.row start (e.stored loc.printable db.traceColumns)] := by
  have hnames : ∀ a ∈ e.attrs, PlainAttr loc.printable a.1 := by
    intro a ha
    rcases List.mem_map.mp (h.columns a ha) with ⟨c, hc, hca⟩
    exact ⟨(h.names a ha).1, (h.names a ha).2, hca ▸ hfree c hc⟩
  refine ⟨?_, ?_, ?_⟩
  · exact (traceRows_ok_iff loc start _ e hnames hfree (two_le_entryItems e h.nonempty) h.values
      _).mpr ⟨h.columns, h.distinct, rfl⟩
  · exact List.forall_mem_singleton.mpr hflow
  · exact List.forall_mem_singleton.mpr (fun t ht => htrig t (truthy_some ht))

/-- A state on which the abstract instance settles passes the checks of the
    kernel. -/
theorem settles_of_settle (loc : Locale) (env : Env) (rtrg : List Int) (db : Db) (wid : Int)
    (u : Option String) (s : State) (tgid : Option Int) (i : Inst State Int)
    (hr : ∀ g, g ∈ rtrg ↔ (wid, g) ∈ openKeys db.jobPool)
    (hs : Workflow.settle (policy loc db) (runs db.jobPool wid) s = some i)
    (hfree : ∀ c ∈ db.traceColumns, c.name ∉ traceFixed)
    (hw : Writable loc env db wid s) (hflow : wid ∈ db.wedFlow.map (·.wid))
    (htrig : ∀ t, tgid = some t → t ∈ db.wedTrig.map (·.tgid)) :
    ∃ w : Write, w.new = ⟨wid, u, s⟩ ∧ w.tgid = tgid ∧ w.mode = i.mode ∧
      Settles loc env rtrg db w := by
  rw [settle_policy loc db db.jobPool wid s rtrg hr] at hs
  cases hv : verdict rtrg (matchConds loc db s) with
  | error e =>
      rw [hv] at hs
      exact absurd hs (by simp only [reduceCtorEq, not_false_eq_true])
  | ok mode =>
      rw [hv] at hs
      have hmode : mode = i.mode := congrArg Inst.mode (Option.some.inj hs)
      -- What is fired is a part of `wed_trig`, so its timeouts and tokens are in order.
      have hfired : ∃ fired, fired = (if mode = .active then due db (matchConds loc db s).1 rtrg
          else []) ∧ fired.Sublist db.wedTrig := by
        by_cases hm : mode = .active
        · exact ⟨_, (if_pos hm).symm, due_sublist db _ _⟩
        · exact ⟨_, (if_neg hm).symm, List.nil_sublist _⟩
      rcases hfired with ⟨fired, hf, hsub⟩
      let e := entryOf ⟨wid, u, s⟩ tgid (finalFlag mode) (excptFlag mode) (fired.map (·.tgid))
      have hrec : Recordable loc env.start e db
          [e.row env.start (e.stored loc.printable db.traceColumns)] :=
        Storable.recordable hw.attrs hfree hflow htrig
      refine ⟨⟨⟨wid, u, s⟩, tgid, mode, fired, _⟩, rfl, rfl, hmode, hw.columns, hv, hf, ?_, ?_, hrec⟩
      · exact fun r hr => hw.outs r (hsub.subset hr)
      · exact hw.fresh _ hsub

/-! ## The statements on instances -/

theorem exists_inserts (loc : Locale) (env : Env) (wid : Int) (uptkn : Option String)
    (vals : List (String × Option String)) (db : Db) (s : State) (i : Inst State Int) (hi : Inv db)
    (hattrs : assignFlow (db.flowColumns.map fun c => (c.name, c.default)) vals = .ok s)
    (hstep : Step (policy loc db) (inst db wid) (.insert s) i) (hw : Writable loc env db wid s) :
    ∃ w, Inserts loc env wid uptkn vals db w := by
  generalize hx : inst db wid = x at hstep
  cases hstep with
  | insert s i hmet hs =>
      have hfree := (inst_eq_none_iff hi wid).mp hx
      rw [← runs_free hi hfree] at hs
      rcases settles_of_settle loc env [] (addRow ⟨wid, uptkn, s⟩ db) wid uptkn s none i
        (fun g => ⟨fun hg => absurd hg List.not_mem_nil,
          fun hg => absurd hg (not_mem_openKeys_of_free hi hfree g)⟩) hs hi.free
        (hw.congr _ _ rfl) (List.mem_map.mpr ⟨⟨wid, uptkn, s⟩,
          List.mem_append_right _ (List.mem_singleton.mpr rfl), rfl⟩)
        (fun t ht => absurd ht (Option.some_ne_none t).symm) with ⟨w, hnew, htg, hm, hset⟩
      refine ⟨w, ?_, ?_, ?_, hfree, hw.validated, htg, ?_, ?_⟩
      · rw [hnew]
        exact hattrs
      · rw [hnew]
      · rw [hnew]
      · intro he
        rcases Workflow.settle_cases _ _ _ _ hs with ⟨-, -, hempty⟩ | ⟨rfl, -⟩ | ⟨rfl, -⟩
        · exact Set.nonempty_iff_ne_empty.mp hmet hempty
        · exact Mode.noConfusion (hm.symm.trans he)
        · exact Mode.noConfusion (hm.symm.trans he)
      · rw [hnew]
        exact hset

/-- The status behind the mode of an instance. -/
theorem exists_status_of_inst {db : Db} (hi : Inv db) {wid : Int} {i : Inst State Int}
    (h : inst db wid = some i) :
    ∃ f e, (⟨wid, f, e⟩ : StatusRow) ∈ db.stStatus ∧ i.mode = modeOf ⟨wid, f, e⟩ := by
  rcases (inst_eq_some_iff hi wid i).mp h with ⟨r, -, ⟨v, f, e⟩, hs, -, rfl, rfl⟩
  exact ⟨f, e, hs, rfl⟩

/-- Completing a trigger whose token stands in the update. -/
theorem exists_updates_complete (loc : Locale) (env : Env) (wid : Int) (newWid : Option Int)
    (uptkn : Option (Option String)) (vals : List (String × Option String)) (db : Db)
    (old : FlowRow) (j : JobRow) (s : State) (i : Inst State Int) (hi : Inv db)
    (hold : old ∈ db.wedFlow) (hwid : old.wid = wid) (hattrs : assignFlow old.attrs vals = .ok s)
    (hkey : newWid.getD wid = wid) (htok : uptkn.getD old.varUptkn = some j.uptkn)
    (hu : j.uptkn ≠ "") (hne : loc.lower j.uptkn ≠ "exception") (hj : j ∈ db.jobPool)
    (hjw : j.wid = wid) (ht : j.tf = none)
    (hstep : Step (policy loc db) (inst db wid) (.complete j.tgid s) i)
    (hw : Writable loc env db wid s) :
    ∃ w, Updates loc env wid newWid uptkn vals db old j.uptkn
      (writeJob j.uptkn (completeRow env.now) db) w := by
  generalize hx : inst db wid = x at hstep
  cases hstep with
  | complete k g s i hmode hrun hs =>
      rcases exists_status_of_inst hi hx with ⟨f, e, hst, hm⟩
      have hf : f = false := (modeOf_active_iff ⟨wid, f, e⟩).mp (hm.symm.trans hmode)
      -- The abstract trigger runs in the locked phase, and the phase is read off the row.
      have hl : j.locked = true := by
        rw [inst_running hx, ← hjw, runs_of_open hi.pool hj ht] at hrun
        unfold phaseOf at hrun
        by_contra hno
        rw [if_neg hno] at hrun
        exact Phase.noConfusion (Option.some.inj hrun)
      -- The engine closes the job before it settles; the workflow settles what is left.
      have hclose := runs_close hi.pool hj ht (completeRow env.now)
        (fun i => ⟨rfl, rfl, (completeRow_closes env.now i).2.2.2.2⟩) wid
      rw [if_pos hjw.symm, ← inst_running hx] at hclose
      rw [← hclose] at hs
      have htokens : (writeJob j.uptkn (completeRow env.now) db).jobPool.map (·.uptkn)
          = db.jobPool.map (·.uptkn) :=
        Table.map_updateWhere _ _ _ _ (fun i _ _ => (completeRow_closes env.now i).1)
      rcases settles_of_settle loc env (runningTriggers wid _)
        (writeJob j.uptkn (completeRow env.now) db) wid (some j.uptkn) s (some j.tgid) i
        (fun g => mem_runningTriggers wid g _) hs hi.free (hw.congr _ _ htokens)
        (List.mem_map.mpr ⟨old, hold, hwid⟩)
        (fun t htg => Option.some.inj htg ▸ hi.pool.trig j hj) with ⟨w, hnew, htg, -, hset⟩
      refine ⟨w, hold, hwid, ?_, hkey, ?_, htok, ?_, hu, hw.validated, ⟨f, e, hst, ?_, ?_⟩, hset⟩
      · rw [hnew]
        exact hattrs
      · rw [hnew]
      · rw [hnew]
      · intro hft
        exact absurd (hf.symm.trans hft) Bool.false_ne_true
      · rw [htg]
        exact .job j hne hj ((isRunning_iff _ j).mpr ⟨rfl, hl, ht⟩) hjw

/-- Recovering from an exception. -/
theorem exists_updates_recover (loc : Locale) (env : Env) (wid : Int) (newWid : Option Int)
    (uptkn : Option (Option String)) (vals : List (String × Option String)) (db : Db)
    (old : FlowRow) (u : String) (s : State) (i : Inst State Int) (hi : Inv db)
    (hold : old ∈ db.wedFlow) (hwid : old.wid = wid) (hattrs : assignFlow old.attrs vals = .ok s)
    (hkey : newWid.getD wid = wid) (htok : uptkn.getD old.varUptkn = some u) (hu : u ≠ "")
    (he : loc.lower u = "exception")
    (hstep : Step (policy loc db) (inst db wid) (.recover s) i) (hw : Writable loc env db wid s) :
    ∃ w, Updates loc env wid newWid uptkn vals db old u db w := by
  generalize hx : inst db wid = x at hstep
  cases hstep with
  | recover k s i hmode hs =>
      rcases exists_status_of_inst hi hx with ⟨f, e, hst, hm⟩
      rcases (modeOf_exception_iff _).mp (hm.symm.trans hmode) with ⟨hf, hx⟩
      -- An instance in an exception has no open job.
      have hidle : runs db.jobPool wid = fun _ => none := by
        funext g
        rw [runs_eq_none_iff]
        exact hi.quiet ⟨wid, f, e⟩ hst hf g
      rw [← hidle] at hs
      rcases settles_of_settle loc env (runningTriggers wid db) db wid (some u) s none i
        (fun g => mem_runningTriggers wid g _) hs hi.free hw (List.mem_map.mpr ⟨old, hold, hwid⟩)
        (fun t ht => absurd ht (Option.some_ne_none t).symm) with ⟨w, hnew, htg, -, hset⟩
      refine ⟨w, hold, hwid, ?_, hkey, ?_, htok, ?_, hu, hw.validated,
        ⟨f, e, hst, fun _ => hx, ?_⟩, hset⟩
      · rw [hnew]
        exact hattrs
      · rw [hnew]
      · rw [hnew]
      · rw [htg]
        exact .recovery he hx

/-! ## Statements that ask for something -/

theorem Performs.step_of_single {P : Policy State Int Int} {A A' : Int → Option (Inst State Int)}
    {w : Int} {a : Action State Int} (h : Performs P A [(w, a)] A') : ∃ i, Step P (A w) a i := by
  cases h with
  | cons A w a i l A' hstep hrest => exact ⟨i, hstep⟩

/-- An update that asks for something names its instance and asks for the
    completion of a job, or for recovery. -/
theorem actions_update (loc : Locale) (env : Env) (wid : Int) (newWid : Option Int)
    (uptkn : Option (Option String)) (vals : List (String × Option String)) (db : Db)
    (h : actions loc ⟨env, .updateFlow wid newWid uptkn vals⟩ db ≠ []) :
    ∃ old s u, old ∈ db.wedFlow ∧ old.wid = wid ∧ assignFlow old.attrs vals = .ok s ∧
      uptkn.getD old.varUptkn = some u ∧ newWid.getD wid = wid ∧ u ≠ "" ∧
      ((loc.lower u = "exception" ∧
          actions loc ⟨env, .updateFlow wid newWid uptkn vals⟩ db = [(wid, .recover s)]) ∨
        (loc.lower u ≠ "exception" ∧ ∃ j ∈ db.jobPool, j.uptkn = u ∧ j.wid = wid ∧ j.tf = none ∧
          actions loc ⟨env, .updateFlow wid newWid uptkn vals⟩ db
            = [(wid, .complete j.tgid s)])) := by
  unfold actions at h ⊢
  dsimp only at h ⊢
  cases ho : db.wedFlow.find? (fun r => r.wid = wid) with
  | none =>
      rw [ho] at h
      exact absurd rfl h
  | some old =>
      rw [ho] at h
      dsimp only at h ⊢
      have hold : old.wid = wid := by
        have hp := List.find?_some ho
        rwa [decide_eq_true_eq] at hp
      cases hs : assignFlow old.attrs vals with
      | error e =>
          rw [hs] at h
          exact absurd rfl h
      | ok s =>
          cases hu : uptkn.getD old.varUptkn with
          | none =>
              rw [hs, hu] at h
              exact absurd rfl h
          | some u =>
              rw [hs, hu] at h
              dsimp only at h
              by_cases hkey : newWid.getD wid ≠ wid ∨ u = ""
              · rw [if_pos hkey] at h
                exact absurd rfl h
              rw [if_neg hkey] at h
              rw [not_or, not_not] at hkey
              refine ⟨old, s, u, List.mem_of_find?_eq_some ho, hold, hs, hu, hkey.1, hkey.2, ?_⟩
              dsimp only
              rw [if_neg (not_or.mpr ⟨not_not.mpr hkey.1, hkey.2⟩)]
              by_cases he : loc.lower u = "exception"
              · exact .inl ⟨he, if_pos he⟩
              · rw [if_neg he] at h ⊢
                cases hj : jobOf db u with
                | none =>
                    rw [hj] at h
                    exact absurd rfl h
                | some j =>
                    rw [hj] at h
                    rcases jobOf_some db u j hj with ⟨hjm, hju⟩
                    by_cases hc : j.wid = wid ∧ j.tf = none
                    · exact .inr ⟨he, j, hjm, hju, hc.1, hc.2, if_pos hc⟩
                    · exact absurd (if_neg hc) h

theorem exec_lock_of_performs (loc : Locale) (env : Env) (u : String) (lckid : Option String)
    (db : Db) (A : Int → Option (Inst State Int)) (hi : Inv db)
    (hask : actions loc ⟨env, .jobLock u lckid⟩ db ≠ [])
    (h : Performs (policy loc db) (inst db) (actions loc ⟨env, .jobLock u lckid⟩ db) A) :
    ∃ db' r, exec loc ⟨env, .jobLock u lckid⟩ db = .ok (db', r) := by
  unfold actions at hask h
  dsimp only at hask h
  cases hj : jobOf db u with
  | none =>
      rw [hj] at hask
      exact absurd rfl hask
  | some j =>
      rw [hj] at hask h
      rcases jobOf_some db u j hj with ⟨hjm, rfl⟩
      by_cases ht : j.tf = none
      · dsimp only at h
        rw [if_pos ht] at h
        rcases Performs.step_of_single h with ⟨i, hstep⟩
        generalize hx : inst db j.wid = x at hstep
        -- A lock of a job that is locked is no step of the workflow.
        have hl : j.locked = false := by
          cases hstep with
          | lock k g hrun =>
              rw [inst_running hx, runs_of_open hi.pool hjm ht] at hrun
              unfold phaseOf at hrun
              by_contra hno
              rw [if_pos (Bool.eq_true_of_not_eq_false hno)] at hrun
              exact Phase.noConfusion (Option.some.inj hrun)
        refine ⟨writeJob j.uptkn (lockRow env.now lckid) db, .bool true,
          (Table.map_eq_ok _ _ _).mpr ⟨(_, true), ?_, rfl⟩⟩
        exact (jobLock_ok_iff env.now _ lckid db _ true hi.lockJob hi.pool.tokens).mpr
          (.inr ⟨j, hj, hl, rfl, rfl⟩)
      · exact absurd (if_neg ht) hask

theorem exec_abort_of_asked (loc : Locale) (env : Env) (u : String) (db : Db) (hi : Inv db)
    (hask : actions loc ⟨env, .jobAbort u⟩ db ≠ []) :
    ∃ db' r, exec loc ⟨env, .jobAbort u⟩ db = .ok (db', r) := by
  unfold actions at hask
  dsimp only at hask
  cases hj : jobOf db u with
  | none =>
      rw [hj] at hask
      exact absurd rfl hask
  | some j =>
      rw [hj] at hask
      rcases jobOf_some db u j hj with ⟨hjm, rfl⟩
      by_cases hc : j.locked = true ∧ j.tf = none
      · -- An open job has not been aborted.
        refine ⟨writeJob j.uptkn (abortRow env.now) db, .bool true,
          (Table.map_eq_ok _ _ _).mpr ⟨(_, true), ?_, rfl⟩⟩
        exact (jobAbort_ok_iff env.now _ db _ true hi.lockJob hi.pool.tokens).mpr
          (.inr ⟨j, hj, hc.1, (hi.pool.phase j hjm hc.2).1, rfl, rfl⟩)
      · exact absurd (if_neg hc) hask

theorem exec_inspector_of_fresh (loc : Locale) (env : Env) (db : Db) (hi : Inv db)
    (hf : Fresh loc db.jobPool (freshJobs env 0 ((expired env.now db).map ScanRow.request))) :
    ∃ db' r, exec loc ⟨env, .jobInspector⟩ db = .ok (db', r) := by
  have hreq := (requeue_ok_iff loc env (expired env.now db) db _
    (fun r hr => (hi.expired_keys env.now r hr).1)
    (fun r hr => (hi.expired_keys env.now r hr).2.1)
    (fun r hr => (hi.expired_keys env.now r hr).2.2)).mpr ⟨hf, rfl⟩
  unfold exec jobInspector
  dsimp only
  by_cases hrows : expired env.now db = []
  · rw [if_pos hrows]
    exact ⟨_, _, rfl⟩
  · rw [if_neg hrows, hreq]
    exact ⟨_, _, rfl⟩

/-- Actions that can be performed go through. -/
theorem exec_of_performs (loc : Locale) (i : Input) (db : Db)
    (A : Int → Option (Inst State Int)) (hi : Inv db) (hask : actions loc i db ≠ [])
    (hready : Ready loc i db) (h : Performs (policy loc db) (inst db) (actions loc i db) A) :
    ∃ db' r, exec loc i db = .ok (db', r) := by
  rcases i with ⟨env, op⟩
  have hk := hi.keyed
  cases op with
  | insertFlow wid uptkn vals =>
      have hst := hready.state
      unfold actions at hask h hst
      dsimp only at hask h hst
      cases hs : assignFlow (db.flowColumns.map fun c => (c.name, c.default)) vals with
      | error e =>
          rw [hs] at hask
          exact absurd rfl hask
      | ok s =>
          rw [hs] at h hst
          rcases Performs.step_of_single h with ⟨i, hstep⟩
          rcases exists_inserts loc env wid uptkn vals db s i hi hs hstep
            (hst _ (List.mem_singleton.mpr rfl) s rfl) with ⟨w, hw⟩
          refine ⟨w.insert env db, .done, (Table.map_eq_ok _ _ _).mpr ⟨_, ?_, rfl⟩⟩
          exact (insertFlow_ok_iff loc env wid uptkn vals db _ hk).mpr ⟨w, hw, rfl⟩
  | updateFlow wid newWid uptkn vals =>
      have hgo : ∀ {old u db₁ w}, Updates loc env wid newWid uptkn vals db old u db₁ w →
          ∃ db' r, exec loc ⟨env, .updateFlow wid newWid uptkn vals⟩ db = .ok (db', r) := by
        intro old u db₁ w hw
        refine ⟨w.update env db₁, .rows 1, (Table.map_eq_ok _ _ _).mpr ⟨(_, 1), ?_, rfl⟩⟩
        exact (updateFlow_ok_iff loc env wid newWid uptkn vals db _ 1 hk).mpr
          (.inr ⟨old, u, db₁, w, hw, rfl, rfl⟩)
      have hst := hready.state
      rcases actions_update loc env wid newWid uptkn vals db hask with
        ⟨old, s, u, hold, hwid, hs, htok, hkey, hu, ⟨he, ha⟩ | ⟨he, j, hj, rfl, hjw, ht, ha⟩⟩
      · rw [ha] at h hst
        rcases Performs.step_of_single h with ⟨i, hstep⟩
        rcases exists_updates_recover loc env wid newWid uptkn vals db old u s i hi hold hwid hs hkey
          htok hu he hstep (hst _ (List.mem_singleton.mpr rfl) s rfl) with ⟨w, hw⟩
        exact hgo hw
      · rw [ha] at h hst
        rcases Performs.step_of_single h with ⟨i, hstep⟩
        rcases exists_updates_complete loc env wid newWid uptkn vals db old j s i hi hold hwid hs
          hkey htok hu he hj hjw ht hstep (hst _ (List.mem_singleton.mpr rfl) s rfl) with ⟨w, hw⟩
        exact hgo hw
  | jobLock u lckid => exact exec_lock_of_performs loc env u lckid db A hi hask h
  | jobAbort u => exact exec_abort_of_asked loc env u db hi hask
  | jobInspector => exact exec_inspector_of_fresh loc env db hi (hready.requeued rfl)
  | _ => exact absurd rfl hask

theorem not_restyles_of_asked (loc : Locale) (i : Input) (db : Db) (h : actions loc i db ≠ []) :
    ¬ i.op.Restyles := by
  intro hop
  rcases i with ⟨env, op⟩
  cases op with
  | insertAttr new => exact h rfl
  | updateAttr name new => exact h rfl
  | _ => exact hop.elim

/-- After every run, a statement that goes through performs in the abstract
    workflow what it asks for, and a statement that asks for something the
    abstract workflow can perform, and the engine can store, goes through with
    that result. -/
theorem tables_refine_workflow (loc : Locale) (is : List Input) (i : Input) :
    (∀ db' r, ¬ i.op.Restyles → exec loc i (run loc is) = .ok (db', r) →
      Performs (policy loc (run loc is)) (inst (run loc is)) (actions loc i (run loc is))
        (inst db')) ∧
    (∀ A, actions loc i (run loc is) ≠ [] → Ready loc i (run loc is) →
      Performs (policy loc (run loc is)) (inst (run loc is)) (actions loc i (run loc is)) A →
      ∃ db' r, exec loc i (run loc is) = .ok (db', r) ∧ inst db' = A) := by
  have hi := run_inv loc is
  refine ⟨fun db' r hop h => exec_performs loc i _ db' r hi hop h, fun A hask hready h => ?_⟩
  rcases exec_of_performs loc i _ A hi hask hready h with ⟨db', r, hex⟩
  refine ⟨db', r, hex, ?_⟩
  -- The workflow is deterministic, so what the engine did is what was asked for.
  exact (exec_performs loc i _ db' r hi (not_restyles_of_asked loc i _ hask) hex).det h

/-- A new instance of the small flow: the engine is ready for it, the statement
    goes through, and it is an insert of the abstract workflow. -/
theorem tables_refine_workflow_tiny :
    Ready asciiLocale ⟨clock 1, .insertFlow 7 none []⟩ (run asciiLocale tiny) ∧
    ∃ db' r, exec asciiLocale ⟨clock 1, .insertFlow 7 none []⟩ (run asciiLocale tiny)
        = .ok (db', r) ∧
      Performs (policy asciiLocale (run asciiLocale tiny)) (inst (run asciiLocale tiny))
        [(7, .insert [("st", "ready")])] (inst db') := by
  have hact : actions asciiLocale ⟨clock 1, .insertFlow 7 none []⟩ (run asciiLocale tiny)
      = [(7, .insert [("st", "ready")])] := by decide +kernel
  have hready : Ready asciiLocale ⟨clock 1, .insertFlow 7 none []⟩ (run asciiLocale tiny) := by
    refine ⟨fun p hp s hs => ?_, fun h => Op.noConfusion h⟩
    rw [hact, List.mem_singleton] at hp
    rw [hp] at hs ⊢
    rw [← Option.some.inj hs]
    refine ⟨⟨by decide +kernel, by decide +kernel, by decide +kernel⟩, by decide +kernel,
      by decide +kernel, fun fired hsub => ?_, ⟨by decide, by decide, by decide +kernel,
        by decide +kernel, by decide⟩⟩
    have hall : ∀ fired ∈ (run asciiLocale tiny).wedTrig.sublists,
        Fresh asciiLocale (run asciiLocale tiny).jobPool
          (freshJobs (clock 1) 0 (fired.map (TrigRow.request 7))) := by decide +kernel
    exact hall fired (List.mem_sublists.mpr hsub)
  have hok : ∃ a, exec asciiLocale ⟨clock 1, .insertFlow 7 none []⟩ (run asciiLocale tiny) = .ok a :=
    Table.exists_ok (by decide +kernel)
  rcases hok with ⟨⟨db', r⟩, hex⟩
  have h := tables_refine_workflow asciiLocale tiny ⟨clock 1, .insertFlow 7 none []⟩
  have hfwd := h.1 db' r id hex
  rcases h.2 _ (by rw [hact]; exact List.cons_ne_nil _ _) hready hfwd with ⟨db₂, r₂, hex₂, hinst⟩
  refine ⟨hready, db₂, r₂, hex₂, ?_⟩
  rw [hinst, ← hact]
  exact hfwd

end WedFlow
