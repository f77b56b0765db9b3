import WedFlow.Theory.Change

/-!
# The Invariant Holds

Every statement keeps the invariant, so every run does. The writes of the job
pool are of three kinds, issuing new jobs, closing some, and locking one, and
each kind keeps the pool's part of the invariant for reasons of its own:
`PoolInv.issue`, `PoolInv.close` and `PoolInv.lock`. What is left for the
statements is to show that they meet the conditions.

For the loop of `job_inspector` the conditions are those of `Scanned`. A fresh
scan satisfies them, and they are all the loop needs, however long ago the scan
was.

## Main definitions

* `Scanned`: What a scan has to satisfy when its rows are replaced.

## Theorems

* `PoolInv.issue`, `PoolInv.close`, `PoolInv.lock`: The three kinds of writes.
* `expired_scanned`: A scan satisfies `Scanned` right away.
* `inv_requeue`: Replacing scanned jobs keeps the invariant.
* `inv_change`: Every statement keeps the invariant.
* `run_inv`: Every run leads to a database that satisfies it.
-/

namespace WedFlow

open Workflow (Mode)

/-! ## The pool -/

theorem PoolInv.mono {trigs trigs' wids wids' : List Int} {pool : List JobRow}
    (hp : PoolInv trigs wids pool) (ht : ∀ j ∈ pool, j.tgid ∈ trigs → j.tgid ∈ trigs')
    (hw : ∀ w ∈ wids, w ∈ wids') : PoolInv trigs' wids' pool where
  tokens := hp.tokens
  digest := hp.digest
  flow := fun j hj => hw _ (hp.flow j hj)
  trig := fun j hj => ht j hj (hp.trig j hj)
  phase := hp.phase
  closed := hp.closed
  single := hp.single

/-- New jobs for triggers that do not run already. -/
theorem PoolInv.issue {trigs wids : List Int} {pool : List JobRow} (hp : PoolInv trigs wids pool)
    (loc : Locale) (env : Env) (n : Nat) (rs : List Request)
    (hfresh : Fresh loc pool (freshJobs env n rs)) (hkeys : ∀ r ∈ rs, r.tgid ∈ trigs ∧ r.wid ∈ wids)
    (hnodup : (rs.map fun r => (r.wid, r.tgid)).Nodup)
    (hfree : ∀ r ∈ rs, (r.wid, r.tgid) ∉ openKeys pool) :
    PoolInv trigs wids (pool ++ freshJobs env n rs) := by
  -- Every new job is pending, with a drawn token.
  have hnew : ∀ j ∈ freshJobs env n rs, (∃ d, j.uptkn = hexdigest d) ∧ j.wid ∈ wids ∧
      j.tgid ∈ trigs ∧ (j.aborted = false ∧ (j.locked = true ↔ j.ti ≠ none)) ∧ j.tf = none := by
    intro j hj
    rcases mem_freshJobs env n rs j hj with ⟨r, hr, m, rfl⟩
    refine ⟨⟨_, rfl⟩, (hkeys r hr).2, (hkeys r hr).1, ⟨rfl, ?_⟩, rfl⟩
    simp only [pendingJob, Bool.false_eq_true, ne_eq, not_true_eq_false]
  refine ⟨?_, ?_, ?_, ?_, ?_, ?_, ?_⟩
  · refine hp.tokens.append ?_ (fun i hi j hj hk => hfresh.1 i hi j hj (by rw [hk]))
    exact List.Nodup.of_map loc.sqlLower (by rw [List.map_map]; exact hfresh.2)
  · intro j hj
    rcases List.mem_append.mp hj with hj | hj
    · exact hp.digest j hj
    · exact (hnew j hj).1
  · intro j hj
    rcases List.mem_append.mp hj with hj | hj
    · exact hp.flow j hj
    · exact (hnew j hj).2.1
  · intro j hj
    rcases List.mem_append.mp hj with hj | hj
    · exact hp.trig j hj
    · exact (hnew j hj).2.2.1
  · intro j hj ht
    rcases List.mem_append.mp hj with hj | hj
    · exact hp.phase j hj ht
    · exact (hnew j hj).2.2.2.1
  · intro j hj ht
    rcases List.mem_append.mp hj with hj | hj
    · exact hp.closed j hj ht
    · exact absurd (hnew j hj).2.2.2.2 ht
  · rw [openKeys_append, openKeys_freshJobs]
    refine hp.single.append hnodup (fun k hk hk' => ?_)
    rcases List.mem_map.mp hk' with ⟨r, hr, rfl⟩
    exact hfree r hr hk

/-- What holds of the rows of a pool and of what an update writes holds of the
    updated pool. -/
theorem forall_updateWhere {pool : List JobRow} (p : JobRow → Bool) (f : JobRow → JobRow)
    (P : JobRow → Prop) (h : ∀ j ∈ pool, P j) (hf : ∀ j ∈ pool, p j = true → P j → P (f j)) :
    ∀ j ∈ Table.updateWhere p f pool, P j := by
  intro j hj
  rcases (Table.mem_updateWhere p f pool j).mp hj with ⟨i, hi, rfl⟩
  by_cases hp : p i = true
  · rw [if_pos hp]
    exact hf i hi hp (h i hi)
  · rw [if_neg hp]
    exact h i hi

/-- Closing locked jobs. -/
theorem PoolInv.close {trigs wids : List Int} {pool : List JobRow} (hp : PoolInv trigs wids pool)
    (p : JobRow → Bool) (f : JobRow → JobRow)
    (hf : ∀ j, (f j).uptkn = j.uptkn ∧ (f j).wid = j.wid ∧ (f j).tgid = j.tgid ∧
      (f j).locked = j.locked ∧ (f j).tf ≠ none)
    (hl : ∀ j ∈ pool, p j = true → j.locked = true) :
    PoolInv trigs wids (Table.updateWhere p f pool) where
  tokens := by
    unfold Table.Unique
    rw [Table.map_updateWhere _ _ _ _ (fun j _ _ => (hf j).1)]
    exact hp.tokens
  digest := forall_updateWhere p f _ hp.digest (fun j _ _ h => by rw [(hf j).1]; exact h)
  flow := forall_updateWhere p f _ hp.flow (fun j _ _ h => by rw [(hf j).2.1]; exact h)
  trig := forall_updateWhere p f _ hp.trig (fun j _ _ h => by rw [(hf j).2.2.1]; exact h)
  phase := forall_updateWhere p f _ hp.phase (fun j _ _ _ ht => absurd ht (hf j).2.2.2.2)
  closed := forall_updateWhere p f _ hp.closed (fun j hj hpj _ _ => by
    rw [(hf j).2.2.2.1]
    exact hl j hj hpj)
  single := by
    rw [openKeys_closed p f pool (fun j => (hf j).2.2.2.2)]
    exact hp.single.sublist (openKeys_sublist _ pool)

/-- Locking jobs. -/
theorem PoolInv.lock {trigs wids : List Int} {pool : List JobRow} (hp : PoolInv trigs wids pool)
    (p : JobRow → Bool) (now : Time) (lckid : Option String) :
    PoolInv trigs wids (Table.updateWhere p (lockRow now lckid) pool) where
  tokens := by
    unfold Table.Unique
    rw [Table.map_updateWhere _ _ (lockRow now lckid) _ (fun _ _ _ => rfl)]
    exact hp.tokens
  digest := forall_updateWhere p _ _ hp.digest (fun _ _ _ h => h)
  flow := forall_updateWhere p _ _ hp.flow (fun _ _ _ h => h)
  trig := forall_updateWhere p _ _ hp.trig (fun _ _ _ h => h)
  phase := by
    refine forall_updateWhere p _ _ hp.phase (fun j _ _ _ _ => ⟨rfl, ?_⟩)
    simp only [lockRow, ne_eq, reduceCtorEq, not_false_eq_true]
  closed := forall_updateWhere p _ _ hp.closed (fun _ _ _ _ _ => rfl)
  single := by
    rw [openKeys_same p (lockRow now lckid) pool (fun _ => ⟨rfl, rfl, rfl⟩)]
    exact hp.single

theorem completeRow_closes (now : Time) (j : JobRow) :
    (completeRow now j).uptkn = j.uptkn ∧ (completeRow now j).wid = j.wid ∧
      (completeRow now j).tgid = j.tgid ∧ (completeRow now j).locked = j.locked ∧ (completeRow now j).tf ≠ none :=
  ⟨rfl, rfl, rfl, rfl, Option.some_ne_none _⟩

theorem abortRow_closes (now : Time) (j : JobRow) :
    (abortRow now j).uptkn = j.uptkn ∧ (abortRow now j).wid = j.wid ∧
      (abortRow now j).tgid = j.tgid ∧ (abortRow now j).locked = j.locked ∧ (abortRow now j).tf ≠ none :=
  ⟨rfl, rfl, rfl, rfl, Option.some_ne_none _⟩

/-- Closing jobs opens none. -/
theorem openKeys_close_subset (p : JobRow → Bool) (f : JobRow → JobRow) (pool : List JobRow)
    (hf : ∀ j, (f j).tf ≠ none) (k : Int × Int) (hk : k ∈ openKeys (Table.updateWhere p f pool)) :
    k ∈ openKeys pool := by
  rw [openKeys_closed p f pool hf] at hk
  exact (openKeys_sublist _ pool).subset hk

/-! ## Firing -/

section Settling

variable {loc : Locale} {env : Env} {rtrg : List Int} {db : Db} {w : Write}

theorem Settles.fired_due (hs : Settles loc env rtrg db w) {r : TrigRow} (hr : r ∈ w.fired) :
    w.mode = .active ∧ r ∈ due db (matchConds loc db w.new.attrs).1 rtrg := by
  rw [hs.fired] at hr
  by_cases hm : w.mode = .active
  · rw [if_pos hm] at hr
    exact ⟨hm, hr⟩
  · rw [if_neg hm] at hr
    exact absurd hr List.not_mem_nil

theorem mem_due (db : Db) (condSet rtrg : List Int) (r : TrigRow) :
    r ∈ due db condSet rtrg ↔ r ∈ db.wedTrig ∧ r.cid ∈ condSet ∧ r.tgid ∉ rtrg := by
  unfold due
  simp only [List.mem_filter, decide_not, Bool.not_eq_true', decide_eq_false_iff_not,
    decide_eq_true_eq, and_assoc]

/-- What is fired is a trigger that does not run yet. -/
theorem Settles.fired_mem (hs : Settles loc env rtrg db w) {r : TrigRow} (hr : r ∈ w.fired) :
    r ∈ db.wedTrig ∧ r.tgid ∉ rtrg := by
  have h := (mem_due db _ rtrg r).mp (hs.fired_due hr).2
  exact ⟨h.1, h.2.2⟩

theorem Settles.fired_nodup (hs : Settles loc env rtrg db w)
    (hu : Table.Unique (·.tgid) db.wedTrig) : (w.fired.map (·.tgid)).Nodup := by
  rw [hs.fired]
  by_cases hm : w.mode = .active
  · rw [if_pos hm]
    exact List.Nodup.sublist ((List.filter_sublist.trans List.filter_sublist).map _) hu
  · rw [if_neg hm]
    exact List.nodup_nil

/-- Outside the active mode nothing is fired, and nothing runs. -/
theorem Settles.idle (hs : Settles loc env rtrg db w) (hm : w.mode ≠ .active) :
    w.fired = [] ∧ rtrg = [] := by
  refine ⟨by rw [hs.fired, if_neg hm], ?_⟩
  have hv := hs.verdict
  unfold WedFlow.verdict at hv
  by_cases h1 : rtrg = [] ∧ (matchConds loc db w.new.attrs).1 = []
  · exact h1.1
  · rw [if_neg h1] at hv
    by_cases h2 : (matchConds loc db w.new.attrs).2 = true
    · rw [if_pos h2, Table.guard_eq_ok] at hv
      exact not_not.mp hv.1
    · rw [if_neg h2] at hv
      exact absurd (Except.ok.inj hv).symm hm

theorem openKeys_jobs (env : Env) (w : Write) :
    openKeys (w.jobs env) = w.fired.map fun r => (w.new.wid, r.tgid) := by
  unfold Write.jobs
  rw [openKeys_freshJobs, List.map_map]
  rfl

/-- The jobs of what is fired, in a pool where exactly `rtrg` runs for the
    instance. -/
theorem Settles.pool (hs : Settles loc env rtrg db w) (hu : Table.Unique (·.tgid) db.wedTrig)
    (hp : PoolInv (db.wedTrig.map (·.tgid)) (db.wedFlow.map (·.wid)) db.jobPool)
    (hw : w.new.wid ∈ db.wedFlow.map (·.wid))
    (hr : ∀ g, (w.new.wid, g) ∈ openKeys db.jobPool → g ∈ rtrg) :
    PoolInv (db.wedTrig.map (·.tgid)) (db.wedFlow.map (·.wid)) (db.jobPool ++ w.jobs env) := by
  refine hp.issue loc env 0 _ hs.fresh ?_ ?_ ?_
  · intro r hr
    rcases List.mem_map.mp hr with ⟨t, ht, rfl⟩
    exact ⟨List.mem_map_of_mem (hs.fired_mem ht).1, hw⟩
  · rw [List.map_map]
    refine List.Nodup.of_map Prod.snd ?_
    rw [List.map_map]
    exact hs.fired_nodup hu
  · intro r hr' hk
    rcases List.mem_map.mp hr' with ⟨t, ht, rfl⟩
    exact (hs.fired_mem ht).2 (hr t.tgid hk)

end Settling

/-! ## The statements -/

theorem finalFlag_of_excptFlag (m : Mode) (h : excptFlag m = true) : finalFlag m = true := by
  cases m with
  | active => exact h
  | final => rfl
  | exception => rfl

theorem ne_active_of_finalFlag (m : Mode) (h : finalFlag m = true) : m ≠ .active := by
  intro hm
  rw [hm] at h
  exact Bool.false_ne_true h

theorem inv_insert (loc : Locale) (env : Env) (wid : Int) (uptkn : Option String)
    (vals : List (String × Option String)) (db : Db) (w : Write) (hi : Inv db)
    (h : Inserts loc env wid uptkn vals db w) : Inv (w.insert env db) := by
  have hwids : (addRow w.new db).wedFlow.map (·.wid) = db.wedFlow.map (·.wid) ++ [wid] := by
    unfold addRow
    rw [List.map_append, ← h.wid_eq]
    rfl
  have hmem : ∀ v ∈ db.wedFlow.map (·.wid), v ∈ (addRow w.new db).wedFlow.map (·.wid) := by
    intro v hv
    rw [hwids]
    exact List.mem_append_left _ hv
  have hnew : w.new.wid ∈ (addRow w.new db).wedFlow.map (·.wid) := by
    rw [hwids, h.wid_eq]
    exact List.mem_append_right _ (List.mem_singleton.mpr rfl)
  -- A new instance has no jobs, since jobs refer to instances.
  have hnone : ∀ g, (w.new.wid, g) ∉ openKeys db.jobPool := by
    intro g hg
    rcases (mem_openKeys _ _ _).mp hg with ⟨j, hj, -, hjw, -⟩
    rw [h.wid_eq] at hjw
    exact h.free (hjw ▸ hi.pool.flow j hj)
  have hpool := h.settles.pool hi.trig (hi.pool.mono (fun _ _ ht => ht) hmem) hnew
    (fun g hg => absurd hg (hnone g))
  have hstatus : ∀ s ∈ db.stStatus, s.wid ≠ w.new.wid := by
    intro s hs hsw
    refine h.free ?_
    rw [← hi.status, ← h.wid_eq, ← hsw]
    exact List.mem_map_of_mem hs
  refine ⟨hi.lockJob, ?_, ?_, hi.trig, hpool, ?_, ?_, ?_, hi.free⟩
  · refine hi.flow.append (List.nodup_singleton _) (fun r hr q hq hk => h.free ?_)
    rw [List.mem_singleton.mp hq, h.wid_eq] at hk
    exact List.mem_map.mpr ⟨r, hr, hk⟩
  · change (db.stStatus ++ [_]).map StatusRow.wid = (db.wedFlow ++ [w.new]).map FlowRow.wid
    rw [List.map_append, List.map_append, hi.status]
    rfl
  · intro r hr
    rcases List.mem_append.mp hr with hr | hr
    · exact hmem _ (hi.trace r hr)
    · exact h.settles.recordable.flow r hr
  · intro s hs hf g hg
    change (s.wid, g) ∈ openKeys (db.jobPool ++ w.jobs env) at hg
    rw [openKeys_append, openKeys_jobs, List.mem_append] at hg
    rcases List.mem_append.mp hs with hs | hs
    · rcases hg with hg | hg
      · exact hi.quiet s hs hf g hg
      · rcases List.mem_map.mp hg with ⟨r, -, hr⟩
        exact hstatus s hs (Prod.mk.inj hr).1.symm
    · rw [List.mem_singleton.mp hs] at hf hg
      have hidle := h.settles.idle (ne_active_of_finalFlag _ hf)
      rcases hg with hg | hg
      · exact hnone g hg
      · rw [hidle.1] at hg
        exact absurd hg List.not_mem_nil
  · intro s hs he
    rcases List.mem_append.mp hs with hs | hs
    · exact hi.excpt s hs he
    · rw [List.mem_singleton.mp hs] at he ⊢
      exact finalFlag_of_excptFlag _ he

/-- Spending a token keeps the pool's part, and every trigger that runs
    afterwards ran before. -/
theorem Justified.pool {loc : Locale} {now : Time} {u : String} {wid : Int} {excpt : Bool}
    {db db₁ : Db} {tgid : Option Int} (h : Justified loc now u wid excpt db tgid db₁)
    {trigs wids : List Int} (hp : PoolInv trigs wids db.jobPool) :
    PoolInv trigs wids db₁.jobPool ∧ ∀ k ∈ openKeys db₁.jobPool, k ∈ openKeys db.jobPool := by
  cases h with
  | job j hne hj hrun hwid =>
      have hl : ∀ i ∈ db.jobPool, decide (i.uptkn = u) = true → i.locked = true := by
        intro i hi hiu
        have hju := (isRunning_iff u j).mp hrun
        rw [hp.tokens.eq_of_mem hi hj ((of_decide_eq_true hiu).trans hju.1.symm)]
        exact hju.2.1
      exact ⟨hp.close _ _ (completeRow_closes now) hl, fun k hk =>
        openKeys_close_subset _ _ _ (fun j => (completeRow_closes now j).2.2.2.2) k hk⟩
  | recovery he hx => exact ⟨hp, fun _ hk => hk⟩

/-- Spending a token touches the pool and nothing else. -/
theorem Justified.same {loc : Locale} {now : Time} {u : String} {wid : Int} {excpt : Bool}
    {db db₁ : Db} {tgid : Option Int} (h : Justified loc now u wid excpt db tgid db₁) :
    db₁ = { db with jobPool := db₁.jobPool } := by
  cases h with
  | job j hne hj hrun hwid => rfl
  | recovery he hx => rfl

/-- Updating the row of an instance keeps the list of instances. -/
theorem map_wid_update (w : Write) (flow : List FlowRow) :
    (Table.updateWhere (fun r => r.wid = w.new.wid) (fun _ => w.new) flow).map (·.wid)
      = flow.map (·.wid) :=
  Table.map_updateWhere _ _ _ _ (fun _ _ hr => (of_decide_eq_true hr).symm)

theorem inv_update (loc : Locale) (env : Env) (wid : Int) (newWid : Option Int)
    (uptkn : Option (Option String)) (vals : List (String × Option String)) (db : Db)
    (old : FlowRow) (u : String) (db₁ : Db) (w : Write) (hi : Inv db)
    (h : Updates loc env wid newWid uptkn vals db old u db₁ w) : Inv (w.update env db₁) := by
  rcases h.justified with ⟨f, e, hst, hfe, hj⟩
  rcases hj.pool hi.pool with ⟨hp₁, hsub⟩
  have hsame := hj.same
  -- Only the pool differs between the old database and the one the kernel settles.
  generalize hq : db₁.jobPool = pool₁ at hp₁ hsub hsame
  subst hsame
  have hwin : w.new.wid ∈ db.wedFlow.map (·.wid) := by
    rw [h.wid_eq, ← h.old_wid]
    exact List.mem_map_of_mem h.mem
  have hrun : ∀ g, (w.new.wid, g) ∈ openKeys pool₁ →
      g ∈ runningTriggers wid { db with jobPool := pool₁ } := by
    intro g hg
    rw [h.wid_eq] at hg
    exact (mem_runningTriggers _ _ _).mpr hg
  have hpool := h.settles.pool hi.trig hp₁ hwin hrun
  have hmap := map_wid_update w db.wedFlow
  refine ⟨hi.lockJob, ?_, ?_, hi.trig, ?_, ?_, ?_, ?_, hi.free⟩
  · change ((Table.updateWhere _ _ db.wedFlow).map (·.wid)).Nodup
    rw [hmap]
    exact hi.flow
  · change (Table.updateWhere _ _ db.stStatus).map (·.wid) = (Table.updateWhere _ _ db.wedFlow).map _
    rw [hmap, ← hi.status]
    exact Table.map_updateWhere _ _ _ _ (fun _ _ _ => rfl)
  · change PoolInv _ ((Table.updateWhere _ _ db.wedFlow).map (·.wid)) _
    rw [hmap]
    exact hpool
  · intro r hr
    change r.wid ∈ (Table.updateWhere _ _ db.wedFlow).map (·.wid)
    rw [hmap]
    rcases List.mem_append.mp hr with hr | hr
    · exact hi.trace r hr
    · exact h.settles.recordable.flow r hr
  -- A final instance runs nothing: the verdict was given with no open job.
  · intro s hs hf g hg
    change (s.wid, g) ∈ openKeys (pool₁ ++ w.jobs env) at hg
    rw [openKeys_append, openKeys_jobs, List.mem_append] at hg
    rcases (Table.mem_updateWhere _ _ _ s).mp hs with ⟨q, hq, rfl⟩
    by_cases hqw : q.wid = w.new.wid
    · rw [if_pos (decide_eq_true hqw)] at hf hg
      have hidle := h.settles.idle (ne_active_of_finalFlag _ hf)
      rcases hg with hg | hg
      · have hin := hrun g (hqw ▸ hg)
        rw [hidle.2] at hin
        exact List.not_mem_nil hin
      · rw [hidle.1] at hg
        exact absurd hg List.not_mem_nil
    · rw [if_neg (by simpa only [decide_eq_true_eq] using hqw)] at hf hg
      rcases hg with hg | hg
      · exact hi.quiet q hq hf g (hsub _ hg)
      · rcases List.mem_map.mp hg with ⟨r, -, hr⟩
        exact hqw (Prod.mk.inj hr).1.symm
  · intro s hs he
    rcases (Table.mem_updateWhere _ _ _ s).mp hs with ⟨q, hq, rfl⟩
    by_cases hqw : q.wid = w.new.wid
    · rw [if_pos (decide_eq_true hqw)] at he ⊢
      exact finalFlag_of_excptFlag _ he
    · rw [if_neg (by simpa only [decide_eq_true_eq] using hqw)] at he ⊢
      exact hi.excpt q hq he

/-- A write of the pool that opens no job. -/
theorem inv_pool (db : Db) (pool : List JobRow) (hi : Inv db)
    (hp : PoolInv (db.wedTrig.map (·.tgid)) (db.wedFlow.map (·.wid)) pool)
    (hsub : ∀ k ∈ openKeys pool, k ∈ openKeys db.jobPool) : Inv { db with jobPool := pool } where
  lockJob := hi.lockJob
  flow := hi.flow
  status := hi.status
  trig := hi.trig
  pool := hp
  trace := hi.trace
  quiet := fun s hs hf g hg => hi.quiet s hs hf g (hsub _ hg)
  excpt := hi.excpt
  free := hi.free

theorem inv_lock (db : Db) (u : String) (now : Time) (lckid : Option String) (hi : Inv db) :
    Inv (writeJob u (lockRow now lckid) db) := by
  refine inv_pool db _ hi (hi.pool.lock _ now lckid) (fun k hk => ?_)
  rw [openKeys_same _ (lockRow now lckid) db.jobPool (fun _ => ⟨rfl, rfl, rfl⟩)] at hk
  exact hk

/-- What stands under a token is the row that has it. -/
theorem forall_of_jobOf {db : Db} (htok : Table.Unique (·.uptkn) db.jobPool) {u : String}
    {j : JobRow} (hj : jobOf db u = some j) (P : JobRow → Prop) (h : P j) :
    ∀ i ∈ db.jobPool, decide (i.uptkn = u) = true → P i := by
  intro i hi hiu
  rcases jobOf_some db u j hj with ⟨hjm, hju⟩
  rw [htok.eq_of_mem hi hjm ((of_decide_eq_true hiu).trans hju.symm)]
  exact h

theorem inv_abort (db : Db) (u : String) (now : Time) (j : JobRow) (hi : Inv db)
    (hj : jobOf db u = some j) (hl : j.locked = true) : Inv (writeJob u (abortRow now) db) :=
  inv_pool db _ hi
    (hi.pool.close _ _ (abortRow_closes now) (forall_of_jobOf hi.pool.tokens hj _ hl))
    (fun k hk => openKeys_close_subset _ _ _ (fun j => (abortRow_closes now j).2.2.2.2) k hk)

/-! ## Replacing scanned jobs -/

/-- What has to be true of the rows of a scan when they are replaced: their
    tokens are those of locked jobs in the pool, they are for different triggers or instances, each
    of them is the only job that can be open for its trigger and instance, and
    their instances are not in a final state. Nothing is said about whether the
    jobs are still open. -/
structure Scanned (db : Db) (rows : List ScanRow) : Prop where
  job : ∀ r ∈ rows, ∃ j ∈ db.jobPool, j.uptkn = r.uptkn ∧ j.wid = r.wid ∧ j.tgid = r.tgid ∧
    j.locked = true
  distinct : (rows.map fun r => (r.wid, r.tgid)).Nodup
  sole : ∀ r ∈ rows, ∀ j ∈ db.jobPool, j.tf = none → j.wid = r.wid → j.tgid = r.tgid →
    j.uptkn = r.uptkn
  active : ∀ r ∈ rows, ∀ s ∈ db.stStatus, s.wid = r.wid → s.final = false

/-- The scan has one row for each expired job, with the columns of the job. -/
theorem expired_columns {β : Type} (f : Int → Int → String → Interval → β) (now : Time) (db : Db)
    (hi : Inv db) :
    (expired now db).map (fun r => f r.tgid r.wid r.uptkn r.tout)
      = (db.jobPool.filter (isExpired now)).map fun j => f j.tgid j.wid j.uptkn j.tout := by
  have hrow : ∀ j ∈ db.jobPool, ((if isExpired now j then
      (db.wedTrig.filter fun t => t.tgid = j.tgid).map fun t =>
        (⟨t.tgname, t.tgid, j.wid, j.uptkn, j.tout⟩ : ScanRow) else []).map
        fun r => f r.tgid r.wid r.uptkn r.tout)
        = if isExpired now j then [f j.tgid j.wid j.uptkn j.tout] else [] := by
    intro j hj
    by_cases he : isExpired now j = true
    · rw [if_pos he, if_pos he]
      -- The join finds the one trigger of the job.
      rcases List.mem_map.mp (hi.pool.trig j hj) with ⟨t, ht, htj⟩
      have hone : (db.wedTrig.filter fun q => q.tgid = j.tgid) = [t] := by
        rw [← htj]
        exact hi.trig.filter_eq_singleton ht
      rw [hone]
      simp only [List.map_cons, List.map_nil, htj]
    · rw [if_neg he, if_neg he]
      rfl
  unfold expired
  rw [List.map_flatMap, List.flatMap_congr hrow]
  generalize db.jobPool = pool
  induction pool with
  | nil => rfl
  | cons j js ih =>
      rw [List.flatMap_cons, ih]
      by_cases he : isExpired now j = true
      · rw [if_pos he, List.filter_cons_of_pos he]
        rfl
      · rw [if_neg he, List.filter_cons_of_neg he]
        rfl

theorem expired_keys (now : Time) (db : Db) (hi : Inv db) :
    (expired now db).map (fun r => (r.wid, r.tgid))
      = (db.jobPool.filter (isExpired now)).map fun j => (j.wid, j.tgid) :=
  expired_columns (fun g w _ _ => (w, g)) now db hi

/-- A scan can be replaced right away. -/
theorem expired_scanned (now : Time) (db : Db) (hi : Inv db) : Scanned db (expired now db) := by
  -- An expired job has a lock time, so it is locked, and it is open.
  have hopen : ∀ r ∈ expired now db, ∃ j ∈ db.jobPool, j.tf = none ∧ j.uptkn = r.uptkn ∧
      j.wid = r.wid ∧ j.tgid = r.tgid ∧ j.locked = true := by
    intro r hr
    rcases (mem_expired now db r).mp hr with ⟨j, hj, he, t, -, htj, rfl⟩
    rcases isExpired_open now j he with ⟨hjt, hti⟩
    refine ⟨j, hj, hjt, rfl, rfl, htj.symm, (hi.pool.phase j hj hjt).2.mpr ?_⟩
    exact Option.isSome_iff_ne_none.mp hti
  refine ⟨?_, ?_, ?_, ?_⟩
  · intro r hr
    rcases hopen r hr with ⟨j, hj, -, hu, hw, hg, hl⟩
    exact ⟨j, hj, hu, hw, hg, hl⟩
  · rw [expired_keys now db hi]
    refine hi.pool.single.sublist (List.Sublist.map _ ?_)
    refine List.monotone_filter_right db.jobPool (fun j he => ?_)
    exact decide_eq_true (isExpired_open now j he).1
  · intro r hr i him hit hiw hig
    rcases hopen r hr with ⟨j, hj, hjt, hu, hw, hg, -⟩
    rw [hi.pool.eq_of_open him hj hit hjt (hiw.trans hw.symm) (hig.trans hg.symm)]
    exact hu
  · intro r hr s hs hsw
    rcases hopen r hr with ⟨j, hj, hjt, -, hw, hg, -⟩
    rw [Bool.eq_false_iff]
    intro hf
    refine hi.quiet s hs hf r.tgid ((mem_openKeys _ _ _).mpr ⟨j, hj, hjt, ?_, hg⟩)
    exact hw.trans hsw.symm

/-- What a scan asks for does not run any more once its jobs are marked. -/
theorem Scanned.free {db : Db} {rows : List ScanRow} (hs : Scanned db rows) (now : Time)
    {r : ScanRow} (hr : r ∈ rows) :
    (r.wid, r.tgid) ∉ openKeys (Table.updateWhere (inScan rows) (abortRow now) db.jobPool) := by
  intro hk
  rw [openKeys_closed _ _ _ (fun j => (abortRow_closes now j).2.2.2.2)] at hk
  rcases (mem_openKeys _ _ _).mp hk with ⟨j, hj, hjt, hjw, hjg⟩
  rcases List.mem_filter.mp hj with ⟨hjm, hjs⟩
  have hju := hs.sole r hr j hjm hjt hjw hjg
  have hin : inScan rows j = true := decide_eq_true (List.mem_map.mpr ⟨r, hr, hju.symm⟩)
  rw [hin] at hjs
  exact Bool.false_ne_true hjs

/-- Replacing scanned jobs keeps the invariant. -/
theorem inv_requeue (loc : Locale) (env : Env) (db : Db) (rows : List ScanRow) (hi : Inv db)
    (hs : Scanned db rows)
    (hf : Fresh loc db.jobPool (freshJobs env 0 (rows.map ScanRow.request))) :
    Inv { db with jobPool := requeuePool env 0 rows db.jobPool } := by
  -- The loop writes by token, and the tokens of the scan are those of locked jobs.
  have hlocked : ∀ i ∈ db.jobPool, inScan rows i = true → i.locked = true := by
    intro i him his
    rcases List.mem_map.mp (of_decide_eq_true his) with ⟨r, hr, hru⟩
    rcases hs.job r hr with ⟨j, hj, hju, -, -, hl⟩
    rw [hi.pool.tokens.eq_of_mem him hj (hru.symm.trans hju.symm)]
    exact hl
  have hclosed := hi.pool.close (inScan rows) _ (abortRow_closes env.now) hlocked
  have hpool : PoolInv (db.wedTrig.map (·.tgid)) (db.wedFlow.map (·.wid))
      (requeuePool env 0 rows db.jobPool) := by
    refine hclosed.issue loc env 0 _ ?_ ?_ ?_ ?_
    · exact (fresh_congr loc _ _ _ (map_uptkn_abort _ _ _)).mpr hf
    · intro q hq
      rcases List.mem_map.mp hq with ⟨r, hr, rfl⟩
      rcases hs.job r hr with ⟨j, hj, -, hw, hg, -⟩
      have htrig : r.tgid ∈ db.wedTrig.map (·.tgid) := hg ▸ hi.pool.trig j hj
      have hflow : r.wid ∈ db.wedFlow.map (·.wid) := hw ▸ hi.pool.flow j hj
      exact ⟨htrig, hflow⟩
    · rw [List.map_map]
      exact hs.distinct
    · intro q hq
      rcases List.mem_map.mp hq with ⟨r, hr, rfl⟩
      exact hs.free env.now hr
  refine ⟨hi.lockJob, hi.flow, hi.status, hi.trig, hpool, hi.trace, ?_, hi.excpt, hi.free⟩
  intro s hst hfin g hg
  unfold requeuePool at hg
  rw [openKeys_append, openKeys_freshJobs, List.mem_append] at hg
  rcases hg with hg | hg
  · exact hi.quiet s hst hfin g
      (openKeys_close_subset _ _ _ (fun j => (abortRow_closes env.now j).2.2.2.2) _ hg)
  · rcases List.mem_map.mp hg with ⟨q, hq, hk⟩
    rcases List.mem_map.mp hq with ⟨r, hr, rfl⟩
    have hact := hs.active r hr s hst (Prod.mk.inj hk).1.symm
    rw [hfin] at hact
    exact Bool.false_ne_true hact.symm

/-! ## Definitions -/

theorem inv_redefine (db db' : Db) (hi : Inv db) {op : Op} (h : Redefined op db db') : Inv db' := by
  rw [h.same]
  exact ⟨hi.lockJob, hi.flow, hi.status, h.trig hi.trig,
    hi.pool.mono (fun j hj ht => h.used j hj ht) (fun _ hw => hw), hi.trace, hi.quiet, hi.excpt,
    hi.free⟩

/-- A new name is free in the history, its own columns included. -/
theorem free_restyle (db db' : Db) (hi : Inv db) {op : Op} (h : Restyled db op db') :
    ∀ c ∈ db'.traceColumns, c.name ∉ traceFixed := by
  cases h with
  | add new hfree =>
      exact List.forall_mem_append.mpr ⟨hi.free,
        List.forall_mem_singleton.mpr (freeEverywhere_fixed hfree)⟩
  | missing name new => exact hi.free
  | rename name old new attrs hfree =>
      intro c hc
      rcases List.mem_map.mp hc with ⟨c₀, hc₀, rfl⟩
      unfold renameColumn
      dsimp only
      split
      · exact freeEverywhere_fixed hfree
      · exact hi.free c₀ hc₀
  | setDefault name old new attrs =>
      intro c hc
      rcases List.mem_map.mp hc with ⟨c₀, hc₀, rfl⟩
      exact hi.free c₀ hc₀

theorem inv_restyle (db db' : Db) (hi : Inv db) {op : Op} (h : Restyled db op db') : Inv db' := by
  have hfree := free_restyle db db' hi h
  rcases h.same with ⟨f, hsame⟩
  have hmap : (db.wedFlow.map fun r => { r with attrs := f r.attrs }).map (·.wid)
      = db.wedFlow.map (·.wid) := by
    rw [List.map_map]
    rfl
  rw [hsame]
  refine ⟨hi.lockJob, ?_, ?_, hi.trig, ?_, ?_, hi.quiet, hi.excpt, hfree⟩
  · change (((db.wedFlow.map _).map FlowRow.wid)).Nodup
    rw [hmap]
    exact hi.flow
  · rw [hmap]
    exact hi.status
  · rw [hmap]
    exact hi.pool
  · intro r hr
    rw [hmap]
    rcases List.mem_map.mp hr with ⟨q, hq, rfl⟩
    exact hi.trace q hq

/-! ## All statements, all runs -/

/-- Every statement that goes through keeps the invariant. -/
theorem inv_change (loc : Locale) (env : Env) (op : Op) (r : Reply) (db db' : Db) (hi : Inv db)
    (h : Change loc env db op r db') : Inv db' := by
  cases h with
  | insert wid uptkn vals w h => exact inv_insert loc env wid uptkn vals db w hi h
  | noRow wid newWid uptkn vals h => exact hi
  | update wid newWid uptkn vals old u db₁ w h =>
      exact inv_update loc env wid newWid uptkn vals db old u db₁ w hi h
  | noLock u lckid h => exact hi
  | lock u lckid j hj hl => exact inv_lock db u env.now lckid hi
  | noAbort u h => exact hi
  | abort u j hj hl ha => exact inv_abort db u env.now j hi hj hl
  | noRequeue h => exact hi
  | requeue h hf => exact inv_requeue loc env db _ hi (expired_scanned env.now db hi) hf
  | redefine op db' hop h => exact inv_redefine db db' hi h
  | restyle op db' hop h => exact inv_restyle db db' hi h

theorem inv_exec (loc : Locale) (i : Input) (db db' : Db) (r : Reply) (hi : Inv db)
    (h : exec loc i db = .ok (db', r)) : Inv db' :=
  inv_change loc i.env i.op r db db' hi (exec_change loc i db db' r hi h)

theorem inv_step (loc : Locale) (i : Input) (db : Db) (hi : Inv db) : Inv (step loc db i) :=
  step_cases loc db i Inv hi (fun db' r => inv_exec loc i db db' r hi)

/-- The invariant holds after every run, whatever the statements were. -/
theorem run_inv (loc : Locale) (is : List Input) : Inv (run loc is) :=
  Machine.after_invariant (step loc) (fun _ => True) Inv (fun db i _ => inv_step loc i db) Db.empty
    inv_empty is (fun _ _ => trivial)

end WedFlow
