import WedFlow.Theory.Lifecycle

/-!
# What an Inspector Run Does

A run of `job_inspector` that nobody interrupts. It scans the pool and then works
through the scan, and the result can be said without either: every expired job is
marked, every other row is as it was, and behind them stands one new job for each
that was marked, in the same order.

That the run is described by the pool alone rests on what holds of every database
that can be reached. The scan is a join with `wed_trig`, which loses no job and
doubles none, since every job has exactly one trigger. The loop writes by token,
which touches the scanned jobs only, since tokens are unique.

## Main definitions

* `Reached`: The databases that can be reached.
* `expireRow`: What a run makes of a row.
* `JobRow.Replaces`: A new job takes the place of an old one.

## Theorems

* `isExpired_iff`: When a job is expired.
* `expired_eq_nil_iff`: The scan is empty exactly if no job is expired.
* `requeuePool_expired`: The pool after the loop, without the scan.
* `jobInspector_ok_iff`: When a run succeeds, and with what.
* `jobInspector_again`: A second run finds nothing.
* `jobInspector_exact`: A whole run.
-/

namespace WedFlow

/-- The databases that can be reached: by statements and updates by hand, one
    after the other, or by sessions that take turns. -/
inductive Reached (loc : Locale) : Db → Prop where
  | accesses (as : List Access) : Reached loc (accesses loc as)
  | cluster (ts : List Turn) : Reached loc (cluster loc ts).db

theorem Reached.inv {loc : Locale} {db : Db} (h : Reached loc db) : Inv db := by
  cases h with
  | accesses as =>
      exact Machine.after_invariant (access loc) (fun _ => True) Inv
        (fun db a _ hi => (inv_access loc db a hi).1) Db.empty inv_empty as (fun _ _ => trivial)
  | cluster ts => exact (cluster_inv loc ts).inv

/-- What a run makes of a row. -/
def expireRow (now : Time) (j : JobRow) : JobRow :=
  if isExpired now j then abortRow now j else j

/-- The new job is pending and for the same trigger, instance and timeout. -/
def JobRow.Replaces (j new : JobRow) : Prop :=
  new.tgid = j.tgid ∧ new.wid = j.wid ∧ new.tout = j.tout ∧ new.lckid = none ∧ new.Pending

theorem isExpired_iff (now : Time) (j : JobRow) :
    isExpired now j = true ↔ j.tf = none ∧ ∃ ti, j.ti = some ti ∧ now - ti > j.tout := by
  unfold isExpired
  rw [Bool.and_eq_true, decide_eq_true_eq]
  refine and_congr_right (fun _ => ?_)
  cases j.ti with
  | none => simp only [Bool.false_eq_true, reduceCtorEq, false_and, exists_false]
  | some ti => simp only [decide_eq_true_eq, Option.some.injEq, exists_eq_left']

/-- What a run has marked is closed, and so not expired. -/
theorem isExpired_expireRow (now : Time) (j : JobRow) : isExpired now (expireRow now j) = false := by
  rw [Bool.eq_false_iff]
  intro he
  unfold expireRow at he
  by_cases hj : isExpired now j = true
  · rw [if_pos hj] at he
    exact absurd (isExpired_open now _ he).1 (Option.some_ne_none now)
  · rw [if_neg hj] at he
    exact hj he

theorem map_expireRow_of_none {now : Time} {pool : List JobRow}
    (h : ∀ j ∈ pool, isExpired now j = false) : pool.map (expireRow now) = pool := by
  conv_rhs => rw [← List.map_id pool]
  refine List.map_congr_left (fun j hj => ?_)
  unfold expireRow
  rw [h j hj]
  rfl

section Run

variable {db : Db} (hi : Inv db) (now : Time)

include hi

/-- The scan is empty exactly if no job is expired. -/
theorem expired_eq_nil_iff : expired now db = [] ↔ ∀ j ∈ db.jobPool, isExpired now j = false := by
  have hcols := expired_columns (fun _ _ u _ => u) now db hi
  rw [← List.map_eq_nil_iff (f := fun r : ScanRow => r.uptkn), hcols, List.map_eq_nil_iff,
    List.filter_eq_nil_iff]
  simp only [Bool.not_eq_true]

/-- The tokens of the scan are those of the expired jobs and of no other. -/
theorem inScan_expired {j : JobRow} (hj : j ∈ db.jobPool) :
    inScan (expired now db) j = isExpired now j := by
  have hcols := expired_columns (fun _ _ u _ => u) now db hi
  unfold inScan
  rw [hcols, Bool.eq_iff_iff, decide_eq_true_eq]
  constructor
  · intro hu
    rcases List.mem_map.mp hu with ⟨i, him, hiu⟩
    rw [List.mem_filter] at him
    rw [← hi.pool.tokens.eq_of_mem him.1 hj hiu]
    exact him.2
  · intro he
    exact List.mem_map.mpr ⟨j, List.mem_filter.mpr ⟨hj, he⟩, rfl⟩

/-- The pool after the loop: every row in its place, and the new jobs. -/
theorem requeuePool_expired (env : Env) :
    requeuePool env 0 (expired env.now db) db.jobPool
      = db.jobPool.map (expireRow env.now) ++
          freshJobs env 0 ((expired env.now db).map ScanRow.request) := by
  unfold requeuePool Table.updateWhere
  refine congrArg (· ++ _) (List.map_congr_left (fun j hj => ?_))
  rw [inScan_expired hi env.now hj]
  rfl

/-- One new job for each expired one, in the same order. -/
theorem replaces_expired (env : Env) :
    List.Forall₂ JobRow.Replaces (db.jobPool.filter (isExpired env.now))
      (freshJobs env 0 ((expired env.now db).map ScanRow.request)) := by
  have hcols : (db.jobPool.filter (isExpired env.now)).map (fun j => (j.tgid, j.wid, j.tout))
      = (freshJobs env 0 ((expired env.now db).map ScanRow.request)).map
          fun j => (j.tgid, j.wid, j.tout) := by
    rw [freshJobs_columns (fun g w t => (g, w, t)), List.map_map]
    exact (expired_columns (fun g w _ t => (g, w, t)) env.now db hi).symm
  rw [← List.forall₂_eq_eq_eq, List.forall₂_map_left_iff, List.forall₂_map_right_iff,
    List.forall₂_iff_zip] at hcols
  refine List.forall₂_iff_zip.mpr ⟨hcols.1, fun {j new} hmem => ?_⟩
  have heq := hcols.2 hmem
  rw [Prod.mk.injEq, Prod.mk.injEq] at heq
  rcases mem_freshJobs env 0 _ new (List.of_mem_zip hmem).2 with ⟨r, -, m, rfl⟩
  exact ⟨heq.1.symm, heq.2.1.symm, heq.2.2.symm, rfl, rfl, rfl, rfl, rfl⟩

/-- A run succeeds exactly if the tokens it draws are fresh. -/
theorem jobInspector_ok_iff (loc : Locale) (env : Env) (db' : Db) (b : Bool) :
    jobInspector loc env db = .ok (db', b) ↔
      Fresh loc db.jobPool (freshJobs env 0 ((expired env.now db).map ScanRow.request)) ∧
        b = db.jobPool.any (isExpired env.now) ∧
        db' = { db with
          jobPool := db.jobPool.map (expireRow env.now) ++
            freshJobs env 0 ((expired env.now db).map ScanRow.request) } := by
  have hany : expired env.now db = [] ↔ db.jobPool.any (isExpired env.now) = false := by
    rw [expired_eq_nil_iff hi, List.any_eq_false]
    simp only [Bool.not_eq_true]
  unfold jobInspector
  dsimp only
  by_cases hrows : expired env.now db = []
  · -- No job is marked, and no job is new.
    have hsame : db.jobPool.map (expireRow env.now) = db.jobPool :=
      map_expireRow_of_none ((expired_eq_nil_iff hi env.now).mp hrows)
    rw [if_pos hrows, hany.mp hrows, hrows, List.map_nil, freshJobs, List.append_nil, hsame,
      Except.ok.injEq, Prod.mk.injEq]
    constructor
    · rintro ⟨rfl, rfl⟩
      exact ⟨fresh_nil loc _, rfl, rfl⟩
    · rintro ⟨-, rfl, rfl⟩
      exact ⟨rfl, rfl⟩
  · have hb : db.jobPool.any (isExpired env.now) = true :=
      Bool.not_eq_false _ ▸ mt hany.mpr hrows
    rw [if_neg hrows, Table.bind_eq_ok, hb, ← requeuePool_expired hi env]
    constructor
    · rintro ⟨db₁, hreq, hret⟩
      rcases ((expired_scanned env.now db hi).requeue_ok_iff hi loc env db₁).mp hreq with ⟨hf, rfl⟩
      rcases Prod.mk.inj (Except.ok.inj hret) with ⟨rfl, rfl⟩
      exact ⟨hf, rfl, rfl⟩
    · rintro ⟨hf, rfl, rfl⟩
      exact ⟨_, ((expired_scanned env.now db hi).requeue_ok_iff hi loc env _).mpr ⟨hf, rfl⟩, rfl⟩

end Run

/-- A second run at the same time finds nothing, whatever it would draw. -/
theorem jobInspector_again (loc : Locale) (env env' : Env) (db db' : Db) (b : Bool) (hi : Inv db)
    (h : jobInspector loc env db = .ok (db', b)) (hnow : env'.now = env.now) :
    jobInspector loc env' db' = .ok (db', false) := by
  have hinv : Inv db' := inv_exec loc ⟨env, .jobInspector⟩ db db' (.bool b) hi
    ((Table.map_eq_ok _ _ _).mpr ⟨(db', b), h, rfl⟩)
  have hnone : ∀ j ∈ db'.jobPool, isExpired env'.now j = false := by
    intro j hj
    rw [((jobInspector_ok_iff hi loc env db' b).mp h).2.2] at hj
    rw [hnow]
    rcases List.mem_append.mp hj with hj | hj
    · rcases List.mem_map.mp hj with ⟨i, -, rfl⟩
      exact isExpired_expireRow env.now i
    -- A pending job has no lock time.
    · rw [Bool.eq_false_iff]
      intro he
      have hti := (isExpired_open env.now j he).2
      rw [(pending_of_freshJobs env 0 _ j hj).2.2.1] at hti
      exact Bool.false_ne_true hti
  unfold jobInspector
  dsimp only
  rw [if_pos ((expired_eq_nil_iff hinv env'.now).mpr hnone)]

/-- A run of `job_inspector` on any database that can be reached. It fails exactly
    if one of the tokens it draws is taken. Otherwise it returns whether some job
    has expired; the expired jobs are aborted now and every other row is as it
    was; behind them are new pending jobs with new tokens, one for each expired
    job; nothing else changes, the trigger is on; and a second run at the same
    time returns false and changes nothing. -/
theorem jobInspector_exact (loc : Locale) (env : Env) (db : Db) (h : Reached loc db) :
    ((∃ db' b, jobInspector loc env db = .ok (db', b)) ↔
      Fresh loc db.jobPool (freshJobs env 0 ((expired env.now db).map ScanRow.request))) ∧
    ∀ db' b, jobInspector loc env db = .ok (db', b) →
      (b = true ↔ ∃ j ∈ db.jobPool, j.tf = none ∧ ∃ ti, j.ti = some ti ∧ env.now - ti > j.tout) ∧
      (∃ new, db' = { db with jobPool := db.jobPool.map (expireRow env.now) ++ new } ∧
        List.Forall₂ JobRow.Replaces (db.jobPool.filter (isExpired env.now)) new ∧
        (new.map (·.uptkn)).Nodup ∧ ∀ j ∈ new, j.uptkn ∉ db.jobPool.map (·.uptkn)) ∧
      db'.lockJob = true ∧
      ∀ env' : Env, env'.now = env.now → jobInspector loc env' db' = .ok (db', false) := by
  have hi := h.inv
  refine ⟨⟨?_, ?_⟩, ?_⟩
  · rintro ⟨db', b, hrun⟩
    exact ((jobInspector_ok_iff hi loc env db' b).mp hrun).1
  · intro hf
    exact ⟨_, _, (jobInspector_ok_iff hi loc env _ _).mpr ⟨hf, rfl, rfl⟩⟩
  · intro db' b hrun
    rcases (jobInspector_ok_iff hi loc env db' b).mp hrun with ⟨hf, hb, hdb⟩
    refine ⟨?_, ⟨_, hdb, replaces_expired hi env, ?_, ?_⟩, ?_, ?_⟩
    · rw [hb, List.any_eq_true]
      simp only [isExpired_iff]
    · exact List.Nodup.of_map loc.sqlLower (by rw [List.map_map]; exact hf.2)
    · intro j hj hmem
      rcases List.mem_map.mp hmem with ⟨i, him, hiu⟩
      exact hf.1 i him j hj (by rw [hiu])
    · rw [hdb]
      exact hi.lockJob
    · intro env' hnow
      exact jobInspector_again loc env env' db db' b hi hrun hnow

/-- A job that was taken at time 2 with a timeout of 10 has expired at time 20. -/
theorem jobInspector_exact_taken :
    ∃ db', jobInspector asciiLocale (clock 20) (accesses asciiLocale (taken.map .statement))
        = .ok (db', true) ∧ db'.lockJob = true ∧
      jobInspector asciiLocale (clock 20) db' = .ok (db', false) := by
  have h := jobInspector_exact asciiLocale (clock 20) _ (.accesses (taken.map .statement))
  have hexp : ∃ j ∈ (accesses asciiLocale (taken.map .statement)).jobPool,
      isExpired (clock 20).now j = true := by
    decide +kernel
  rcases h.1.mpr (by decide +kernel) with ⟨db', b, hrun⟩
  rcases h.2 db' b hrun with ⟨hb, -, hlock, hagain⟩
  have htrue : b = true := by
    simp only [isExpired_iff] at hexp
    exact hb.mpr hexp
  subst htrue
  exact ⟨db', hrun, hlock, hagain (clock 20) rfl⟩

end WedFlow
