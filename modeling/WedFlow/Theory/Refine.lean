import WedFlow.Abstract.Ledger
import WedFlow.Theory.Abstraction

/-!
# The Tables Refine the Workflow

A statement asks for steps of the abstract workflow: an insert for the creation
of an instance, an update for the completion of the trigger its token stands
for or for a recovery, a lock for a lock, and a run of `job_inspector` for a
time-out of every expired job. `actions` reads them off the statement and the
tables. Some statements ask for nothing, such as the abort of a job that nobody
has locked.

If a statement goes through, the abstract workflow performs what it asked for,
and the instances behind the new tables are the result.

## Main definitions

* `actions`: What a statement asks for.
* `Write.record`: What a write leaves in the books.
* `OneWrite`: A statement that is a write of one instance.

## Theorems

* `inst_insert`, `inst_update`: Instances after the two statements on them.
* `oneWrite_insert`, `oneWrite_update`: Each is a write of one instance.
* `runs_requeue`: What runs after `job_inspector`.
* `exec_performs`: A statement that goes through performs its actions.
-/

namespace WedFlow

open Workflow (Mode Phase Inst Policy Action Step Performs Record record remaining)

/-! ## What a statement asks for -/

/-- The steps a statement asks for. The token of a job that is closed or of
    another instance asks for nothing, and neither does an attempt to change the
    key of an instance. -/
def actions (loc : Locale) (i : Input) (db : Db) : List (Int × Action State Int) :=
  match i.op with
  | .insertFlow wid _ vals =>
    match assignFlow (db.flowColumns.map fun c => (c.name, c.default)) vals with
    | .ok s => [(wid, .insert s)]
    | .error _ => []
  | .updateFlow wid newWid uptkn vals =>
    match db.wedFlow.find? (fun r => r.wid = wid) with
    | none => []
    | some old =>
      match assignFlow old.attrs vals, uptkn.getD old.varUptkn with
      | .ok s, some u =>
        if newWid.getD wid ≠ wid ∨ u = "" then []
        else if loc.lower u = "exception" then [(wid, .recover s)]
        else
          match jobOf db u with
          | some j => if j.wid = wid ∧ j.tf = none then [(wid, .complete j.tgid s)] else []
          | none => []
      | _, _ => []
  | .jobLock u _ =>
    match jobOf db u with
    | some j => if j.tf = none then [(j.wid, .lock j.tgid)] else []
    | none => []
  | .jobAbort u =>
    match jobOf db u with
    | some j => if j.locked ∧ j.tf = none then [(j.wid, .abort j.tgid)] else []
    | none => []
  | .jobInspector => (expired i.env.now db).map fun r => (r.wid, .timeout r.tgid)
  | _ => []

/-- Which statement asks for which action. -/
theorem mem_actions (loc : Locale) (i : Input) (db : Db) (p : Int × Action State Int)
    (h : p ∈ actions loc i db) :
    match p.2 with
    | .insert _ => ∃ uptkn vals, i.op = .insertFlow p.1 uptkn vals
    | .complete _ _ => ∃ newWid uptkn vals, i.op = .updateFlow p.1 newWid uptkn vals
    | .recover _ => ∃ newWid uptkn vals, i.op = .updateFlow p.1 newWid uptkn vals
    | .lock _ => ∃ u lckid, i.op = .jobLock u lckid
    | .timeout _ => i.op = .jobInspector
    | .abort g => ∃ u j, i.op = .jobAbort u ∧ jobOf db u = some j ∧ j.locked = true ∧
        j.tf = none ∧ p.1 = j.wid ∧ g = j.tgid := by
  rcases i with ⟨env, op⟩
  unfold actions at h
  -- An action comes from one branch of `actions`; the others ask for nothing.
  cases op with
  | insertFlow wid uptkn vals =>
      dsimp only at h
      split at h
      · rw [List.mem_singleton.mp h]
        exact ⟨uptkn, vals, rfl⟩
      · exact absurd h List.not_mem_nil
  | updateFlow wid newWid uptkn vals =>
      dsimp only at h
      split at h
      · exact absurd h List.not_mem_nil
      · split at h
        · split at h
          · exact absurd h List.not_mem_nil
          · split at h
            · rw [List.mem_singleton.mp h]
              exact ⟨newWid, uptkn, vals, rfl⟩
            · split at h
              · split at h
                · rw [List.mem_singleton.mp h]
                  exact ⟨newWid, uptkn, vals, rfl⟩
                · exact absurd h List.not_mem_nil
              · exact absurd h List.not_mem_nil
        · exact absurd h List.not_mem_nil
  | jobLock u lckid =>
      dsimp only at h
      split at h
      · split at h
        · rw [List.mem_singleton.mp h]
          exact ⟨u, lckid, rfl⟩
        · exact absurd h List.not_mem_nil
      · exact absurd h List.not_mem_nil
  | jobAbort u =>
      dsimp only at h
      split at h
      next j hj =>
        by_cases hc : j.locked = true ∧ j.tf = none
        · rw [if_pos hc] at h
          rw [List.mem_singleton.mp h]
          exact ⟨u, j, rfl, hj, hc.1, hc.2, rfl, rfl⟩
        · rw [if_neg hc] at h
          exact absurd h List.not_mem_nil
      next => exact absurd h List.not_mem_nil
  | jobInspector =>
      dsimp only at h
      rcases List.mem_map.mp h with ⟨r, -, rfl⟩
      rfl
  | _ => exact absurd h List.not_mem_nil

theorem actions_noRow (loc : Locale) (env : Env) (wid : Int) (newWid : Option Int)
    (uptkn : Option (Option String)) (vals : List (String × Option String)) (db : Db)
    (h : wid ∉ db.wedFlow.map (·.wid)) :
    actions loc ⟨env, .updateFlow wid newWid uptkn vals⟩ db = [] := by
  unfold actions
  dsimp only
  rw [(Table.find_eq_none_iff FlowRow.wid db.wedFlow wid).mpr h]

/-! ## Instances after a statement -/

/-- The jobs of a write are jobs of its instance. -/
theorem runs_jobs_ne (env : Env) (w : Write) (pool : List JobRow) (v : Int) (hv : v ≠ w.new.wid) :
    runs (pool ++ w.jobs env) v = runs pool v := by
  funext g
  have hnone : runs (w.jobs env) v g = none := by
    rw [runs_eq_none_iff, openKeys_jobs]
    intro hk
    rcases List.mem_map.mp hk with ⟨r, -, hr⟩
    exact hv (Prod.mk.inj hr).1.symm
  rw [runs_append, hnone, Option.or_none]

/-- An insert adds its instance and leaves the others. -/
theorem inst_insert (loc : Locale) (env : Env) (wid : Int) (uptkn : Option String)
    (vals : List (String × Option String)) (db : Db) (w : Write) (hi : Inv db)
    (h : Inserts loc env wid uptkn vals db w) :
    inst (w.insert env db) = Function.update (inst db) w.new.wid
      (some ⟨w.new.attrs, w.mode, runs (db.jobPool ++ w.jobs env) w.new.wid⟩) := by
  have hi' := inv_insert loc env wid uptkn vals db w hi h
  funext v
  by_cases hv : v = w.new.wid
  · have hr : w.new ∈ (w.insert env db).wedFlow :=
      List.mem_append_right _ (List.mem_singleton.mpr rfl)
    have hs : (⟨w.new.wid, finalFlag w.mode, excptFlag w.mode⟩ : StatusRow) ∈
        (w.insert env db).stStatus := List.mem_append_right _ (List.mem_singleton.mpr rfl)
    rw [hv, Function.update_self, inst_of_mem hi' hr hs rfl, modeOf_flags]
    rfl
  · rw [Function.update_of_ne hv]
    refine inst_congr v ?_ ?_ ?_
    · change (db.wedFlow ++ [w.new]).find? _ = _
      rw [List.find?_append, List.find?_singleton, if_neg, Option.or_none]
      simpa only [decide_eq_true_eq] using fun he : w.new.wid = v => hv he.symm
    · change (db.stStatus ++ [_]).find? _ = _
      rw [List.find?_append, List.find?_singleton, if_neg, Option.or_none]
      simpa only [decide_eq_true_eq] using fun he : w.new.wid = v => hv he.symm
    · exact runs_jobs_ne env w db.jobPool v hv

/-- Spending a token leaves what runs for other instances. -/
theorem Justified.runs_ne {loc : Locale} {now : Time} {u : String} {wid : Int} {excpt : Bool}
    {db db₁ : Db} {tgid : Option Int} (h : Justified loc now u wid excpt db tgid db₁) (hi : Inv db)
    (v : Int) (hv : v ≠ wid) : runs db₁.jobPool v = runs db.jobPool v := by
  cases h with
  | job j hne hj hrun hwid =>
      rcases (isRunning_iff u j).mp hrun with ⟨rfl, -, ht⟩
      have hclose := runs_close hi.pool hj ht (completeRow now)
        (fun i => ⟨rfl, rfl, (completeRow_closes now i).2.2.2.2⟩) v
      rw [if_neg (fun he => hv (he.trans hwid))] at hclose
      exact hclose
  | recovery he hx => rfl

/-- An update changes its instance and leaves the others. -/
theorem inst_update (loc : Locale) (env : Env) (wid : Int) (newWid : Option Int)
    (uptkn : Option (Option String)) (vals : List (String × Option String)) (db : Db)
    (old : FlowRow) (u : String) (db₁ : Db) (w : Write) (hi : Inv db)
    (h : Updates loc env wid newWid uptkn vals db old u db₁ w) :
    inst (w.update env db₁) = Function.update (inst db) w.new.wid
      (some ⟨w.new.attrs, w.mode, runs (db₁.jobPool ++ w.jobs env) w.new.wid⟩) := by
  have hi' := inv_update loc env wid newWid uptkn vals db old u db₁ w hi h
  rcases h.justified with ⟨f, e, hst, hfe, hj⟩
  have hflow : db₁.wedFlow = db.wedFlow := hj.flow.1
  have hstatus : db₁.stStatus = db.stStatus := hj.flow.2.1
  funext v
  -- For the instance itself read the new rows, for the others compare with the old ones.
  by_cases hv : v = w.new.wid
  · have hr : w.new ∈ (w.update env db₁).wedFlow := by
      refine Table.mem_updateWhere_of_pos _ (fun _ => w.new) db₁.wedFlow old ?_ ?_
      · rw [hflow]
        exact h.mem
      · exact decide_eq_true (h.old_wid.trans h.wid_eq.symm)
    have hs : (⟨w.new.wid, finalFlag w.mode, excptFlag w.mode⟩ : StatusRow) ∈
        (w.update env db₁).stStatus := by
      have hm : (⟨w.new.wid, f, e⟩ : StatusRow) ∈ db₁.stStatus := by
        rw [hstatus, h.wid_eq]
        exact hst
      exact Table.mem_updateWhere_of_pos (fun r : StatusRow => r.wid = w.new.wid)
        (fun r => { r with final := finalFlag w.mode, excpt := excptFlag w.mode }) db₁.stStatus _ hm
        (decide_eq_true rfl)
    rw [hv, Function.update_self, inst_of_mem hi' hr hs rfl, modeOf_flags]
    rfl
  · rw [Function.update_of_ne hv]
    refine inst_congr v ?_ ?_ ?_
    · change (Table.updateWhere _ _ db₁.wedFlow).find? _ = _
      rw [hflow]
      refine Table.find_updateWhere_of_not _ _ _ _ (fun r _ hr => ⟨?_, ?_⟩)
      · exact decide_eq_false (fun he => hv (he.symm.trans (of_decide_eq_true hr)))
      · exact decide_eq_false (fun he => hv he.symm)
    · change (Table.updateWhere _ _ db₁.stStatus).find? _ = _
      rw [hstatus]
      refine Table.find_updateWhere_of_not _ _ _ _ (fun r _ hr => ⟨?_, ?_⟩)
      · exact decide_eq_false (fun he => hv (he.symm.trans (of_decide_eq_true hr)))
      · exact decide_eq_false (fun he => hv (he.symm.trans (of_decide_eq_true hr)))
    · change runs (db₁.jobPool ++ w.jobs env) v = _
      rw [runs_jobs_ne env w _ v hv]
      exact hj.runs_ne hi v (fun he => hv (he.trans h.wid_eq.symm))

/-- After the loop of `job_inspector` the scanned triggers are pending, and
    everything else is as before. -/
theorem runs_requeue (env : Env) (db : Db) (rows : List ScanRow) (hi : Inv db)
    (hs : Scanned db rows) (v g : Int) :
    runs (requeuePool env 0 rows db.jobPool) v g
      = if (v, g) ∈ rows.map (fun r => (r.wid, r.tgid)) then some .pending
        else runs db.jobPool v g := by
  unfold requeuePool
  rw [runs_append, runs_freshJobs, List.map_map]
  by_cases h : (v, g) ∈ rows.map fun r => (r.wid, r.tgid)
  · rcases List.mem_map.mp h with ⟨r, hr, hk⟩
    have hfree := hs.free env.now hr
    rw [hk, ← runs_eq_none_iff] at hfree
    rw [if_pos h, hfree, Option.none_or]
    exact if_pos h
  -- A row of the scan with this key would have put the key in.
  · rw [if_neg h]
    have hkey : ¬ (v, g) ∈ rows.map ((fun r : Request => (r.wid, r.tgid)) ∘ ScanRow.request) := h
    rw [if_neg hkey, Option.or_none]
    unfold runs
    rw [Table.find_updateWhere_of_not _ _ (abortRow env.now) db.jobPool]
    intro i him his
    refine ⟨Bool.eq_false_iff.mpr (fun ho => h ?_), Bool.eq_false_iff.mpr (fun ho => ?_)⟩
    · rcases (openAt_iff _ _ _).mp ho with ⟨hiw, -, hig⟩
      rcases List.mem_map.mp (of_decide_eq_true his) with ⟨r, hr, hru⟩
      rcases hs.job r hr with ⟨j, hj, hju, hjw, hjg, -⟩
      have hij : i = j := hi.pool.tokens.eq_of_mem him hj (hru.symm.trans hju.symm)
      refine List.mem_map.mpr ⟨r, hr, ?_⟩
      rw [← hjw, ← hjg, ← hij, hiw, hig]
    · exact (abortRow_closes env.now i).2.2.2.2 ((openAt_iff _ _ _).mp ho).2.1

/-! ## A statement that goes through -/

/-- Jobs refer to instances, so nothing runs for one that is not there. -/
theorem not_mem_openKeys_of_free {db : Db} (hi : Inv db) {wid : Int}
    (hfree : wid ∉ db.wedFlow.map (·.wid)) (g : Int) : (wid, g) ∉ openKeys db.jobPool := by
  intro hg
  rcases (mem_openKeys _ _ _).mp hg with ⟨j, hj, -, hjw, -⟩
  exact hfree (hjw ▸ hi.pool.flow j hj)

theorem runs_free {db : Db} (hi : Inv db) {wid : Int} (hfree : wid ∉ db.wedFlow.map (·.wid)) :
    runs db.jobPool wid = fun _ => none := by
  funext g
  rw [runs_eq_none_iff]
  exact not_mem_openKeys_of_free hi hfree g

/-- What a write leaves in the books. -/
def Write.record (w : Write) : Record Int :=
  ⟨w.tgid, {g | ∃ t ∈ w.fired, t.tgid = g}, w.mode⟩

/-- The statement is a write of one instance and of nothing else. -/
structure OneWrite (loc : Locale) (i : Input) (db db' : Db) (wid : Int) (w : Write)
    (a : Action State Int) (k : Inst State Int) : Prop where
  writes : a.Writes
  asked : actions loc i db = [(wid, a)]
  step : Step (policy loc db) (inst db wid) a k
  result : inst db' = Function.update (inst db) wid (some k)
  logged : record (inst db wid) a k = w.record

theorem OneWrite.performs {loc : Locale} {i : Input} {db db' : Db} {wid : Int} {w : Write}
    {a : Action State Int} {k : Inst State Int} (h : OneWrite loc i db db' wid w a k) :
    Performs (policy loc db) (inst db) (actions loc i db) (inst db') := by
  rw [h.asked, h.result]
  exact .single _ wid a k h.step

/-- What was launched is what was fired, since only idle triggers are. -/
theorem record_write (env : Env) (w : Write) (pool : List JobRow) (x : Option (Inst State Int))
    (a : Action State Int) (hrem : remaining x a = runs pool w.new.wid)
    (hwrote : a.completes = w.tgid)
    (hidle : ∀ t ∈ w.fired, (w.new.wid, t.tgid) ∉ openKeys pool) :
    record x a ⟨w.new.attrs, w.mode, runs (pool ++ w.jobs env) w.new.wid⟩ = w.record := by
  have hfired : ∀ g, (runs (pool ++ w.jobs env) w.new.wid g ≠ none ∧
      remaining x a g = none) ↔ ∃ t ∈ w.fired, t.tgid = g := by
    intro g
    rw [hrem, runs_append, runs_eq_none_iff]
    have hjobs : runs (w.jobs env) w.new.wid g ≠ none ↔ ∃ t ∈ w.fired, t.tgid = g := by
      rw [ne_eq, runs_eq_none_iff, not_not, openKeys_jobs, List.mem_map]
      simp only [Prod.mk.injEq, true_and]
    constructor
    · intro h
      rw [(runs_eq_none_iff _ _ _).mpr h.2, Option.none_or] at h
      exact hjobs.mp h.1
    · intro h
      have hno : (w.new.wid, g) ∉ openKeys pool := by
        rcases h with ⟨t, ht, rfl⟩
        exact hidle t ht
      rw [(runs_eq_none_iff _ _ _).mpr hno, Option.none_or]
      exact ⟨hjobs.mpr h, hno⟩
  unfold record Write.record
  rw [hwrote]
  exact congrArg (Record.mk w.tgid · w.mode) (Set.ext hfired)

theorem oneWrite_insert (loc : Locale) (env : Env) (wid : Int) (uptkn : Option String)
    (vals : List (String × Option String)) (db : Db) (w : Write) (hi : Inv db)
    (h : Inserts loc env wid uptkn vals db w) :
    ∃ a k, OneWrite loc ⟨env, .insertFlow wid uptkn vals⟩ db (w.insert env db) wid w a k := by
  have hact : actions loc ⟨env, .insertFlow wid uptkn vals⟩ db = [(wid, .insert w.new.attrs)] := by
    unfold actions
    dsimp only
    rw [h.attrs]
  have hnone : inst db wid = none := (inst_eq_none_iff hi wid).mpr h.free
  have hkeys : ∀ g, g ∈ ([] : List Int) ↔ (w.new.wid, g) ∈ openKeys db.jobPool := by
    intro g
    rw [h.wid_eq]
    exact ⟨fun hg => absurd hg List.not_mem_nil,
      fun hg => absurd hg (not_mem_openKeys_of_free hi h.free g)⟩
  have hsettle := settles_refines loc env [] (addRow w.new db) w h.settles hkeys
  change Workflow.settle (policy loc db) (runs db.jobPool w.new.wid) w.new.attrs = _ at hsettle
  rw [h.wid_eq, runs_free hi h.free] at hsettle
  -- The three ways to settle: the kernel refuses the first for a new instance.
  have hmet : ((policy loc db).conds w.new.attrs).Nonempty := by
    rw [Set.nonempty_iff_ne_empty]
    intro hempty
    rcases Workflow.settle_cases _ _ _ _ hsettle with ⟨he, -⟩ | ⟨-, -, c, hc, -⟩ | ⟨-, -, hne⟩
    · exact h.mode (congrArg Inst.mode he)
    · rw [hempty] at hc
      exact hc
    · exact Set.nonempty_iff_ne_empty.mp (hne (fun _ => rfl)) hempty
  have hupd := inst_insert loc env wid uptkn vals db w hi h
  rw [h.wid_eq] at hupd
  refine ⟨.insert w.new.attrs, _, trivial, hact, ?_, hupd, ?_⟩
  · rw [hnone]
    exact .insert _ _ hmet hsettle
  · rw [hnone, ← h.wid_eq]
    refine record_write env w db.jobPool none _ ?_ h.tgid.symm ?_
    · rw [h.wid_eq, runs_free hi h.free]
      rfl
    · exact fun t ht hk => (h.settles.fired_mem ht).2 ((hkeys _).mpr hk)

theorem oneWrite_update (loc : Locale) (env : Env) (wid : Int) (newWid : Option Int)
    (uptkn : Option (Option String)) (vals : List (String × Option String)) (db : Db)
    (old : FlowRow) (u : String) (db₁ : Db) (w : Write) (hi : Inv db)
    (h : Updates loc env wid newWid uptkn vals db old u db₁ w) :
    ∃ a k, OneWrite loc ⟨env, .updateFlow wid newWid uptkn vals⟩ db (w.update env db₁) wid w a k := by
  rcases h.justified with ⟨f, e, hst, hfe, hj⟩
  have hfind : db.wedFlow.find? (fun r => r.wid = wid) = some old :=
    (hi.flow.find_eq_some_iff wid old).mpr ⟨h.mem, h.old_wid⟩
  have hinst := inst_of_mem hi h.mem hst h.old_wid.symm
  rw [h.old_wid] at hinst
  have hkeys : ∀ g, g ∈ runningTriggers wid db₁ ↔ (w.new.wid, g) ∈ openKeys db₁.jobPool := by
    intro g
    rw [h.wid_eq]
    exact mem_runningTriggers wid g db₁
  have hsettle := settles_refines loc env _ db₁ w h.settles hkeys
  have hpol : policy loc db₁ = policy loc db := by
    rw [hj.same]
    rfl
  rw [hpol, h.wid_eq] at hsettle
  have hupd := inst_update loc env wid newWid uptkn vals db old u db₁ w hi h
  rw [h.wid_eq] at hupd
  have hkey : ¬ (newWid.getD wid ≠ wid ∨ u = "") := by
    intro hc
    rcases hc with hc | hc
    · exact hc h.key
    · exact h.nonempty hc
  have hidle : ∀ t ∈ w.fired, (w.new.wid, t.tgid) ∉ openKeys db₁.jobPool :=
    fun t ht hk => (h.settles.fired_mem ht).2 ((hkeys _).mpr hk)
  generalize htg : w.tgid = tgid at hj
  cases hj with
  | job j hne hjm hrun hjw =>
      rcases (isRunning_iff u j).mp hrun with ⟨rfl, hl, ht⟩
      have hact : actions loc ⟨env, .updateFlow wid newWid uptkn vals⟩ db
          = [(wid, .complete j.tgid w.new.attrs)] := by
        unfold actions
        dsimp only
        rw [hfind]
        dsimp only
        rw [h.attrs, h.token]
        dsimp only
        rw [if_neg hkey, if_neg hne, jobOf_eq db hi.pool.tokens j hjm]
        exact if_pos ⟨hjw, ht⟩
      -- An instance with an open job is not final.
      have hmode : modeOf ⟨wid, f, e⟩ = .active := by
        have hf : f = false := by
          rw [Bool.eq_false_iff]
          intro hf
          exact hi.quiet ⟨wid, f, e⟩ hst hf j.tgid ((mem_openKeys _ _ _).mpr ⟨j, hjm, ht, hjw, rfl⟩)
        rw [hf]
        rfl
      have hruns : runs db.jobPool wid j.tgid = some .locked := by
        rw [← hjw, runs_of_open hi.pool hjm ht]
        unfold phaseOf
        rw [if_pos hl]
      have hclose := runs_close hi.pool hjm ht (completeRow env.now)
        (fun i => ⟨rfl, rfl, (completeRow_closes env.now i).2.2.2.2⟩) wid
      rw [if_pos hjw.symm] at hclose
      refine ⟨.complete j.tgid w.new.attrs, _, trivial, hact, ?_, hupd, ?_⟩
      · rw [hinst]
        change Workflow.settle _ (runs (Table.updateWhere _ _ db.jobPool) wid) _ = _ at hsettle
        rw [hclose] at hsettle
        exact .complete _ _ _ _ hmode hruns hsettle
      · rw [hinst, ← h.wid_eq]
        refine record_write env w _ _ _ ?_ htg.symm hidle
        rw [h.wid_eq]
        exact hclose.symm
  | recovery he hx =>
      have hact : actions loc ⟨env, .updateFlow wid newWid uptkn vals⟩ db
          = [(wid, .recover w.new.attrs)] := by
        unfold actions
        dsimp only
        rw [hfind]
        dsimp only
        rw [h.attrs, h.token]
        dsimp only
        rw [if_neg hkey, if_pos he]
      have hf : f = true := hi.excpt ⟨wid, f, e⟩ hst hx
      have hmode : modeOf ⟨wid, f, e⟩ = .exception := by
        rw [hf, hx]
        rfl
      have hnone : runs db.jobPool wid = fun _ => none := by
        funext g
        rw [runs_eq_none_iff]
        exact hi.quiet ⟨wid, f, e⟩ hst hf g
      refine ⟨.recover w.new.attrs, _, trivial, hact, ?_, hupd, ?_⟩
      · rw [hinst]
        rw [hnone] at hsettle
        exact .recover _ _ _ hmode hsettle
      · rw [hinst, ← h.wid_eq]
        refine record_write env w _ _ _ ?_ htg.symm hidle
        rw [h.wid_eq, hnone]
        rfl

/-- The instance a job belongs to. -/
theorem exists_inst_of_job {db : Db} (hi : Inv db) {j : JobRow} (hj : j ∈ db.jobPool) :
    ∃ i, inst db j.wid = some i := by
  cases h : inst db j.wid with
  | none => exact absurd (hi.pool.flow j hj) ((inst_eq_none_iff hi j.wid).mp h)
  | some i => exact ⟨i, rfl⟩

theorem performs_lock (loc : Locale) (env : Env) (u : String) (lckid : Option String) (db : Db)
    (j : JobRow) (hi : Inv db) (hj : jobOf db u = some j) (hl : j.locked = false) :
    Performs (policy loc db) (inst db) (actions loc ⟨env, .jobLock u lckid⟩ db)
      (inst (writeJob u (lockRow env.now lckid) db)) := by
  rcases jobOf_some db u j hj with ⟨hjm, rfl⟩
  -- A closed job is locked, so an unlocked one is open.
  have ht : j.tf = none := by
    by_contra ht
    rw [hi.pool.closed j hjm ht] at hl
    exact Bool.noConfusion hl
  have hact : actions loc ⟨env, .jobLock j.uptkn lckid⟩ db = [(j.wid, .lock j.tgid)] := by
    unfold actions
    dsimp only
    rw [hj]
    exact if_pos ht
  rcases exists_inst_of_job hi hjm with ⟨i, hA⟩
  have hw := inst_write db _ j.wid j.tgid (some .locked) i hA
    (runs_lock hi.pool hjm ht env.now lckid)
  unfold writeJob
  rw [hact, hw]
  refine .single _ j.wid _ _ ?_
  rw [hA]
  refine .lock i j.tgid ?_
  rw [inst_running hA, runs_of_open hi.pool hjm ht]
  unfold phaseOf
  rw [if_neg (by rw [hl]; exact Bool.false_ne_true)]

theorem performs_abort (loc : Locale) (env : Env) (u : String) (db : Db) (j : JobRow) (hi : Inv db)
    (hj : jobOf db u = some j) (hl : j.locked = true) :
    Performs (policy loc db) (inst db) (actions loc ⟨env, .jobAbort u⟩ db)
      (inst (writeJob u (abortRow env.now) db)) := by
  rcases jobOf_some db u j hj with ⟨hjm, rfl⟩
  by_cases ht : j.tf = none
  · have hact : actions loc ⟨env, .jobAbort j.uptkn⟩ db = [(j.wid, .abort j.tgid)] := by
      unfold actions
      dsimp only
      rw [hj]
      exact if_pos ⟨hl, ht⟩
    rcases exists_inst_of_job hi hjm with ⟨i, hA⟩
    have hw := inst_write db _ j.wid j.tgid none i hA
      (runs_close hi.pool hjm ht (abortRow env.now)
        (fun i => ⟨rfl, rfl, (abortRow_closes env.now i).2.2.2.2⟩))
    unfold writeJob
    rw [hact, hw]
    refine .single _ j.wid _ _ ?_
    rw [hA]
    refine .abort i j.tgid ?_
    rw [inst_running hA, runs_of_open hi.pool hjm ht]
    unfold phaseOf
    rw [if_pos hl]
  · -- Marking a job that was completed is no step of the workflow.
    have hact : actions loc ⟨env, .jobAbort j.uptkn⟩ db = [] := by
      unfold actions
      dsimp only
      rw [hj]
      exact if_neg (fun h => ht h.2)
    have hsame : inst (writeJob j.uptkn (abortRow env.now) db) = inst db := by
      funext v
      refine inst_congr v rfl rfl (funext fun g => ?_)
      refine runs_write_closed _ _ ?_ (fun i => (abortRow_closes env.now i).2.2.2.2) v g
      exact forall_of_jobOf hi.pool.tokens hj _ ht
    rw [hact, hsame]
    exact .nil _

theorem performs_requeue (loc : Locale) (env : Env) (db : Db) (hi : Inv db) :
    Performs (policy loc db) (inst db) (actions loc ⟨env, .jobInspector⟩ db)
      (inst { db with jobPool := requeuePool env 0 (expired env.now db) db.jobPool }) := by
  have hs := expired_scanned env.now db hi
  have hact : actions loc ⟨env, .jobInspector⟩ db
      = ((expired env.now db).map fun r => (r.wid, r.tgid)).map
        fun p => (p.1, Action.timeout p.2) := by
    rw [List.map_map]
    rfl
  rw [hact]
  -- The loop is one time-out after the other, in the order of the scan.
  have ht := Performs.timeouts (P := policy loc db)
    ((expired env.now db).map fun r => (r.wid, r.tgid)) (inst db) hs.distinct ?_
  · refine (congrArg (Performs _ _ _) (funext fun v => ?_)).mp ht
    rw [inst_pool db (requeuePool env 0 (expired env.now db) db.jobPool) v]
    cases hA : inst db v with
    | none => rfl
    | some i =>
        simp only [Option.map_some, Option.some.injEq, Inst.mk.injEq, true_and]
        funext g
        rw [inst_running hA, runs_requeue env db _ hi hs v g]
  · intro p hp
    rcases List.mem_map.mp hp with ⟨r, hr, rfl⟩
    rcases (mem_expired env.now db r).mp hr with ⟨j, hj, he, t, -, htj, rfl⟩
    rcases isExpired_open env.now j he with ⟨hjt, hti⟩
    rcases exists_inst_of_job hi hj with ⟨i, hA⟩
    refine ⟨i, hA, ?_⟩
    rw [inst_running hA]
    dsimp only
    rw [htj, runs_of_open hi.pool hj hjt]
    unfold phaseOf
    rw [if_pos ((hi.pool.phase j hj hjt).2.mpr (Option.isSome_iff_ne_none.mp hti))]

/-- A statement that goes through performs what it asked for. -/
theorem exec_performs (loc : Locale) (i : Input) (db db' : Db) (r : Reply) (hi : Inv db)
    (hop : ¬ i.op.Restyles) (hexec : exec loc i db = .ok (db', r)) :
    Performs (policy loc db) (inst db) (actions loc i db) (inst db') := by
  have hc := exec_change loc i db db' r hi hexec
  rcases i with ⟨env, op⟩
  dsimp only at hc hop
  cases hc with
  | insert wid uptkn vals w h =>
      rcases oneWrite_insert loc env wid uptkn vals db w hi h with ⟨a, k, hw⟩
      exact hw.performs
  | noRow wid newWid uptkn vals h =>
      rw [actions_noRow loc env wid newWid uptkn vals db h]
      exact .nil _
  | update wid newWid uptkn vals old u db₁ w h =>
      rcases oneWrite_update loc env wid newWid uptkn vals db old u db₁ w hi h with ⟨a, k, hw⟩
      exact hw.performs
  | noLock u lckid h =>
      unfold actions
      dsimp only
      rw [h]
      exact .nil _
  | lock u lckid j hj hl => exact performs_lock loc env u lckid db j hi hj hl
  | noAbort u h =>
      have hact : actions loc ⟨env, .jobAbort u⟩ db = [] := by
        unfold actions
        dsimp only
        cases hj : jobOf db u with
        | none => rfl
        | some j => exact if_neg (fun hc => by rw [h j hj] at hc; exact Bool.false_ne_true hc.1)
      rw [hact]
      exact .nil _
  | abort u j hj hl ha => exact performs_abort loc env u db j hi hj hl
  | noRequeue h =>
      unfold actions
      dsimp only
      rw [h]
      exact .nil _
  | requeue h hf => exact performs_requeue loc env db hi
  | redefine op db' hop' h =>
      -- Definitions change the policy and no instance.
      have hact : actions loc ⟨env, op⟩ db = [] := by
        cases op with
        | insertFlow wid uptkn vals => exact hop'.elim
        | updateFlow wid newWid uptkn vals => exact hop'.elim
        | jobLock u lckid => exact hop'.elim
        | jobAbort u => exact hop'.elim
        | jobInspector => exact hop'.elim
        | _ => rfl
      rw [hact, h.same]
      exact .nil _
  | restyle op db' hop' h => exact absurd hop' hop

end WedFlow
