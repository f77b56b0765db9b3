import WedFlow.Theory.Sessions

/-!
# The Life of a Job

A row of `job_pool` is in one of four shapes, and moves between them in four
ways only: it is locked, completed, or aborted, or it stays as it is. Which
statement moves it matters little. The row trigger decides about every update
a client can write, by hand or through the two functions, and the writers that
switch it off select their rows so that they do no more.

`Evolves` says this of the whole pool: the old rows are where they were, each
moved at most once, and pending ones come after them. The four shapes and the
keys are kept by that alone.

A closed job, on the other hand, is not out of reach. `job_abort` looks at the
lock and at the mark of an earlier abort, and so it also marks a job that has
been completed. Every other statement leaves closed jobs alone.

The time a job was locked at is looked at by `job_inspector` and by nobody
else. An update is accepted however late it comes, unless an inspector has been
there first.

## Main definitions

* `JobRow.Pending`, `JobRow.Running`, `JobRow.Completed`, `JobRow.Aborted`: The
  four shapes.
* `JobRow.Moves`: What can happen to a row.
* `Evolves`: What can happen to the pool.
* `SparesCompleted`: The statement is no abort of a completed job.
* `Overdue`: The window of a job has passed.

## Theorems

* `shaped_moves`: The four shapes are closed under the moves.
* `evolves_change`, `updateJobs_moves`: All statements do no more than that.
* `job_rows_shaped`: The shapes and the keys, over every run.
* `closed_jobs_kept_iff`: When closed jobs stay as they are.
* `updates_within_window`: When no update comes too late.
-/

namespace WedFlow

/-! ## Shapes -/

/-- Nobody has locked it. -/
def JobRow.Pending (j : JobRow) : Prop :=
  j.locked = false ∧ j.aborted = false ∧ j.ti = none ∧ j.tf = none

/-- Somebody works on it. -/
def JobRow.Running (j : JobRow) : Prop :=
  j.locked = true ∧ j.aborted = false ∧ j.ti ≠ none ∧ j.tf = none

/-- An update has spent its token. -/
def JobRow.Completed (j : JobRow) : Prop :=
  j.locked = true ∧ j.aborted = false ∧ j.ti ≠ none ∧ j.tf ≠ none

/-- It was given up, by its worker or by an inspector. -/
def JobRow.Aborted (j : JobRow) : Prop :=
  j.locked = true ∧ j.aborted = true ∧ j.ti ≠ none ∧ j.tf ≠ none

def JobRow.Shaped (j : JobRow) : Prop :=
  j.Pending ∨ j.Running ∨ j.Completed ∨ j.Aborted

/-- The columns that are set when a job is created. -/
def JobRow.key (j : JobRow) : Int × Int × String × Interval :=
  (j.tgid, j.wid, j.uptkn, j.tout)

/-- What can happen to a row. A lock sets the lock id to anything. -/
inductive JobRow.Moves (j : JobRow) : JobRow → Prop where
  | stay : j.Moves j
  | lock (now : Time) (lckid : Option String) (hl : j.locked = false) :
      j.Moves { j with lckid := lckid, locked := true, aborted := false, ti := some now }
  | complete (now : Time) (hl : j.locked = true) (ha : j.aborted = false) (ht : j.tf = none) :
      j.Moves (completeRow now j)
  | abort (now : Time) (hl : j.locked = true) (ha : j.aborted = false) : j.Moves (abortRow now j)

theorem JobRow.Moves.key_eq {j j' : JobRow} (h : j.Moves j') : j'.key = j.key := by
  cases h with
  | stay => rfl
  | lock now lckid hl => rfl
  | complete now hl ha ht => rfl
  | abort now hl ha => rfl

/-- The four shapes are closed under the moves. -/
theorem shaped_moves {j j' : JobRow} (h : j.Moves j') (hs : j.Shaped) : j'.Shaped := by
  -- A locked job has a lock time, whichever of the three shapes it has.
  have hti : j.locked = true → j.ti ≠ none := by
    intro hl
    rcases hs with h | h | h | h
    · exact absurd (h.1.symm.trans hl) Bool.false_ne_true
    · exact h.2.2.1
    · exact h.2.2.1
    · exact h.2.2.1
  cases h with
  | stay => exact hs
  | lock now lckid hl =>
      have htf : j.tf = none := by
        rcases hs with h | h | h | h
        · exact h.2.2.2
        · exact h.2.2.2
        · exact absurd (hl.symm.trans h.1) Bool.false_ne_true
        · exact absurd (hl.symm.trans h.1) Bool.false_ne_true
      exact .inr (.inl ⟨rfl, rfl, Option.some_ne_none now, htf⟩)
  | complete now hl ha ht =>
      exact .inr (.inr (.inl ⟨hl, ha, hti hl, Option.some_ne_none now⟩))
  | abort now hl ha =>
      exact .inr (.inr (.inr ⟨hl, rfl, hti hl, Option.some_ne_none now⟩))

/-! ## The pool -/

/-- The old rows are where they were, each moved at most once, and the new ones
    are pending. -/
def Evolves (pool pool' : List JobRow) : Prop :=
  ∃ old jobs, pool' = old ++ jobs ∧ List.Forall₂ JobRow.Moves pool old ∧ ∀ j ∈ jobs, j.Pending

theorem pending_of_freshJobs (env : Env) (n : Nat) (rs : List Request) (j : JobRow)
    (hj : j ∈ freshJobs env n rs) : j.Pending := by
  rcases mem_freshJobs env n rs j hj with ⟨r, -, m, rfl⟩
  exact ⟨rfl, rfl, rfl, rfl⟩

/-- A write of selected rows, with new ones added. -/
theorem evolves_updateWhere (p : JobRow → Bool) (f : JobRow → JobRow) (pool jobs : List JobRow)
    (hf : ∀ j ∈ pool, p j = true → j.Moves (f j)) (hjobs : ∀ j ∈ jobs, j.Pending) :
    Evolves pool (Table.updateWhere p f pool ++ jobs) := by
  refine ⟨_, jobs, rfl, ?_, hjobs⟩
  unfold Table.updateWhere
  rw [List.forall₂_map_right_iff, List.forall₂_same]
  intro j hj
  by_cases hp : p j = true
  · rw [if_pos hp]
    exact hf j hj hp
  · rw [if_neg hp]
    exact .stay

theorem evolves_issue (pool jobs : List JobRow) (hjobs : ∀ j ∈ jobs, j.Pending) :
    Evolves pool (pool ++ jobs) :=
  ⟨pool, jobs, rfl, List.forall₂_same.mpr (fun _ _ => .stay), hjobs⟩

theorem Evolves.refl (pool : List JobRow) : Evolves pool pool :=
  ⟨pool, [], (List.append_nil pool).symm, List.forall₂_same.mpr (fun _ _ => .stay),
    fun _ hj => absurd hj List.not_mem_nil⟩

theorem Evolves.shaped {pool pool' : List JobRow} (h : Evolves pool pool')
    (hs : ∀ j ∈ pool, j.Shaped) : ∀ j ∈ pool', j.Shaped := by
  rcases h with ⟨old, jobs, rfl, hmoves, hjobs⟩
  intro j hj
  rcases List.mem_append.mp hj with hj | hj
  · rcases Table.exists_of_forall₂ hmoves j hj with ⟨i, hi, hm⟩
    exact shaped_moves hm (hs i hi)
  · exact .inl (hjobs j hj)

/-- Rows keep their place and their keys. -/
theorem Evolves.keys {pool pool' : List JobRow} (h : Evolves pool pool') :
    pool.map JobRow.key <+: pool'.map JobRow.key := by
  rcases h with ⟨old, jobs, rfl, hmoves, -⟩
  rw [List.map_append, Table.map_of_forall₂ JobRow.key hmoves (fun _ _ hm => hm.key_eq)]
  exact List.prefix_append _ _

/-- No move opens a job. -/
theorem openKeys_moves {pool old : List JobRow} (h : List.Forall₂ JobRow.Moves pool old) :
    (openKeys old).Sublist (openKeys pool) := by
  unfold openKeys
  induction h with
  | nil => exact List.Sublist.refl _
  | @cons j j' pool old hm _ ih =>
      by_cases hj' : j'.tf = none
      · -- What is open now was open before, under the same key.
        have hj : j.tf = none ∧ (j'.wid, j'.tgid) = (j.wid, j.tgid) := by
          cases hm with
          | stay => exact ⟨hj', rfl⟩
          | lock now lckid hl => exact ⟨hj', rfl⟩
          | complete now hl ha ht => exact absurd hj' (Option.some_ne_none now)
          | abort now hl ha => exact absurd hj' (Option.some_ne_none now)
        rw [List.filter_cons_of_pos (by simpa only [decide_eq_true_eq] using hj'),
          List.filter_cons_of_pos (by simpa only [decide_eq_true_eq] using hj.1), List.map_cons,
          List.map_cons, hj.2]
        exact ih.cons_cons _
      · rw [List.filter_cons_of_neg (by simpa only [decide_eq_true_eq] using hj')]
        exact ih.trans (((List.sublist_cons_self j pool).filter _).map _)

/-- The moves keep what is true of the pool. -/
theorem PoolInv.moves {trigs wids : List Int} {pool old : List JobRow}
    (hp : PoolInv trigs wids pool) (h : List.Forall₂ JobRow.Moves pool old) :
    PoolInv trigs wids old := by
  -- Tokens, instances and triggers are keys; only the two phases depend on the move.
  have hkeys : ∀ j j' : JobRow, j.Moves j' →
      j'.uptkn = j.uptkn ∧ j'.wid = j.wid ∧ j'.tgid = j.tgid := by
    intro j j' hm
    have hk := hm.key_eq
    simp only [JobRow.key, Prod.mk.injEq] at hk
    exact ⟨hk.2.2.1, hk.2.1, hk.1⟩
  refine ⟨?_, ?_, ?_, ?_, ?_, ?_, ?_⟩
  · unfold Table.Unique
    rw [Table.map_of_forall₂ JobRow.uptkn h (fun j j' hm => (hkeys j j' hm).1)]
    exact hp.tokens
  · intro j' hj'
    rcases Table.exists_of_forall₂ h j' hj' with ⟨j, hj, hm⟩
    rw [(hkeys j j' hm).1]
    exact hp.digest j hj
  · intro j' hj'
    rcases Table.exists_of_forall₂ h j' hj' with ⟨j, hj, hm⟩
    rw [(hkeys j j' hm).2.1]
    exact hp.flow j hj
  · intro j' hj'
    rcases Table.exists_of_forall₂ h j' hj' with ⟨j, hj, hm⟩
    rw [(hkeys j j' hm).2.2]
    exact hp.trig j hj
  · intro j' hj' ht
    rcases Table.exists_of_forall₂ h j' hj' with ⟨j, hj, hm⟩
    cases hm with
    | stay => exact hp.phase _ hj ht
    | lock now lckid hl => exact ⟨rfl, iff_of_true rfl (Option.some_ne_none now)⟩
    | complete now hl ha htf => exact absurd ht (Option.some_ne_none now)
    | abort now hl ha => exact absurd ht (Option.some_ne_none now)
  · intro j' hj' ht
    rcases Table.exists_of_forall₂ h j' hj' with ⟨j, hj, hm⟩
    cases hm with
    | stay => exact hp.closed _ hj ht
    | lock now lckid hl => rfl
    | complete now hl ha htf => exact hl
    | abort now hl ha => exact hl
  · exact hp.single.sublist (openKeys_moves h)

/-! ## Statements -/

/-- The row trigger lets a row be locked or aborted, whatever is asked of it. -/
theorem moves_of_setJobLock {now : Time} {old new j : JobRow}
    (h : setJobLock now old new = .ok (some j)) : old.Moves j := by
  unfold setJobLock at h
  -- `set_job_lock` asks about the old row first, so the two moves exclude each other.
  by_cases hl : old.locked = true
  · rw [if_pos hl] at h
    by_cases ha : new.aborted = true ∧ ¬ old.aborted = true
    · rw [if_pos ha] at h
      rw [← Option.some.inj (Except.ok.inj h)]
      exact .abort now hl (Bool.eq_false_iff.mpr ha.2)
    · rw [if_neg ha] at h
      exact absurd h (by simp only [reduceCtorEq, not_false_eq_true])
  · rw [if_neg hl] at h
    by_cases hn : new.locked = true
    · rw [if_pos hn] at h
      rw [← Option.some.inj (Except.ok.inj h)]
      exact .lock now new.lckid (Bool.eq_false_iff.mpr hl)
    · rw [if_neg hn] at h
      exact absurd (Except.ok.inj h) (by simp only [reduceCtorEq, not_false_eq_true])

/-- An update by hand moves some of the rows it selects. -/
theorem updateJobs_moves {now : Time} {p : JobRow → Bool} {f : JobRow → Attempt} {db db' : Db}
    {written : List JobRow} (hon : db.lockJob = true)
    (h : updateJobs now p f db = .ok (db', written)) :
    ∃ old, db' = { db with jobPool := old } ∧ List.Forall₂ JobRow.Moves db.jobPool old := by
  have hfire : fireLockJob db.lockJob now = setJobLock now := by
    rw [hon]
    rfl
  unfold updateJobs updateJobPool at h
  rw [hfire] at h
  rcases (Table.bind_eq_ok _ _ _).mp h with ⟨⟨old, w⟩, hup, he⟩
  refine ⟨old, (Prod.mk.inj (Except.ok.inj he)).1.symm, ?_⟩
  refine (Table.updateTriggered_rows _ _ _ _ _ _ hup).imp (fun j j' hj => ?_)
  rcases hj with rfl | ⟨-, hj⟩
  · exact .stay
  · exact moves_of_setJobLock hj

/-- Spending a token completes its job at most. -/
theorem Justified.evolves {loc : Locale} {now : Time} {u : String} {wid : Int} {excpt : Bool}
    {db db₁ : Db} {tgid : Option Int} (hi : Inv db) (h : Justified loc now u wid excpt db tgid db₁)
    (jobs : List JobRow) (hjobs : ∀ j ∈ jobs, j.Pending) :
    Evolves db.jobPool (db₁.jobPool ++ jobs) := by
  cases h with
  | job j hne hj hrun hwid =>
      refine evolves_updateWhere _ (completeRow now) db.jobPool jobs (fun i him hiu => ?_) hjobs
      rcases (isRunning_iff u j).mp hrun with ⟨hju, hl, ht⟩
      -- The write is by token, and the token has one job.
      have hij : i = j := hi.pool.tokens.eq_of_mem him hj ((of_decide_eq_true hiu).trans hju.symm)
      rw [hij]
      exact .complete now hl (hi.pool.phase j hj ht).1 ht
  | recovery he hx => exact evolves_issue db.jobPool jobs hjobs

/-- The jobs an inspector has just found are running. -/
theorem running_of_expired {db : Db} (hi : Inv db) {now : Time} {j : JobRow} (hj : j ∈ db.jobPool)
    (h : inScan (expired now db) j = true) : j.locked = true ∧ j.aborted = false ∧ j.tf = none := by
  rcases List.mem_map.mp (of_decide_eq_true h) with ⟨r, hr, hru⟩
  rcases (mem_expired now db r).mp hr with ⟨i, him, he, t, -, -, rfl⟩
  rw [hi.pool.tokens.eq_of_mem hj him hru.symm]
  rcases isExpired_open now i he with ⟨ht, hti⟩
  have hphase := hi.pool.phase i him ht
  exact ⟨hphase.2.mpr (Option.isSome_iff_ne_none.mp hti), hphase.1, ht⟩

/-- Whatever goes through, the pool only evolves. -/
theorem evolves_change {loc : Locale} {env : Env} {db db' : Db} {op : Op} {r : Reply} (hi : Inv db)
    (h : Change loc env db op r db') : Evolves db.jobPool db'.jobPool := by
  cases h with
  | insert wid uptkn vals w h =>
      exact evolves_issue db.jobPool (w.jobs env) (pending_of_freshJobs env 0 _)
  | noRow wid newWid uptkn vals h => exact .refl _
  | update wid newWid uptkn vals old u db₁ w h =>
      rcases h.justified with ⟨f, e, -, -, hj⟩
      exact hj.evolves hi (w.jobs env) (pending_of_freshJobs env 0 _)
  | noLock u lckid h => exact .refl _
  | lock u lckid j hj hl =>
      have hev := evolves_updateWhere (fun i => i.uptkn = u) (lockRow env.now lckid) db.jobPool []
        (fun i him hiu => .lock env.now _
          (forall_of_jobOf hi.pool.tokens hj (fun i => i.locked = false) hl i him hiu))
        (fun _ hj => absurd hj List.not_mem_nil)
      rwa [List.append_nil] at hev
  | noAbort u h => exact .refl _
  | abort u j hj hl ha =>
      have hev := evolves_updateWhere (fun i => i.uptkn = u) (abortRow env.now) db.jobPool []
        (fun i him hiu => .abort env.now
          (forall_of_jobOf hi.pool.tokens hj (fun i => i.locked = true) hl i him hiu)
          (forall_of_jobOf hi.pool.tokens hj (fun i => i.aborted = false) ha i him hiu))
        (fun _ hj => absurd hj List.not_mem_nil)
      rwa [List.append_nil] at hev
  | noRequeue h => exact .refl _
  | requeue h hf =>
      refine evolves_updateWhere _ (abortRow env.now) db.jobPool _ (fun j hj hs => ?_)
        (pending_of_freshJobs env 0 _)
      -- What the inspector aborts was running, so this is the move of an abort.
      rcases running_of_expired hi hj hs with ⟨hl, ha, -⟩
      exact .abort env.now hl ha
  | redefine op db' hop h =>
      rw [h.same]
      exact .refl _
  | restyle op db' hop h =>
      rcases h.same with ⟨f, hsame⟩
      rw [hsame]
      exact .refl _

/-! ## The four shapes -/

/-- What is true of the database holds whatever is done to it, and the pool only
    evolves. -/
theorem inv_access (loc : Locale) (db : Db) (a : Access) (hi : Inv db) :
    Inv (access loc db a) ∧ Evolves db.jobPool (access loc db a).jobPool := by
  cases a with
  | statement i =>
      refine ⟨inv_step loc i db hi, ?_⟩
      exact step_cases loc db i (fun db' => Evolves db.jobPool db'.jobPool) (.refl _)
        (fun db' r hex => evolves_change hi (exec_change loc i db db' r hi hex))
  | update now p f =>
      dsimp only [access]
      rcases hup : updateJobs now p f db with e | ⟨db', written⟩
      · exact ⟨hi, .refl _⟩
      · rcases updateJobs_moves hi.lockJob hup with ⟨old, rfl, hmoves⟩
        refine ⟨inv_pool db old hi (hi.pool.moves hmoves) (openKeys_moves hmoves).subset, ?_⟩
        exact ⟨old, [], (List.append_nil old).symm, hmoves, fun _ hj => absurd hj List.not_mem_nil⟩

/-- In every run of the statements and of updates by hand, every job has one of
    the four shapes, and the columns a job was created with never change: rows
    are added at the end, and the keys of those that were there stay. -/
theorem job_rows_shaped (loc : Locale) (as : List Access) :
    (∀ j ∈ (accesses loc as).jobPool, j.Shaped) ∧
      ∀ bs, (accesses loc as).jobPool.map JobRow.key
        <+: (accesses loc (as ++ bs)).jobPool.map JobRow.key := by
  -- One step does no more than evolve the pool, under the invariant.
  have hinv : Inv (accesses loc as) ∧ ∀ j ∈ (accesses loc as).jobPool, j.Shaped := by
    refine Machine.after_invariant (access loc) (fun _ => True)
      (fun db => Inv db ∧ ∀ j ∈ db.jobPool, j.Shaped) ?_ Db.empty
      ⟨inv_empty, fun _ hj => absurd hj List.not_mem_nil⟩ as (fun _ _ => trivial)
    intro db a _ h
    rcases inv_access loc db a h.1 with ⟨hi, hev⟩
    exact ⟨hi, hev.shaped h.2⟩
  refine ⟨hinv.2, fun bs => ?_⟩
  have hend : accesses loc (as ++ bs) = Machine.after (access loc) (accesses loc as) bs :=
    Machine.after_append _ _ _ _
  rw [hend]
  refine (Machine.after_invariant (access loc) (fun _ => True)
    (fun db => Inv db ∧ (accesses loc as).jobPool.map JobRow.key <+: db.jobPool.map JobRow.key) ?_
    (accesses loc as) ⟨hinv.1, List.prefix_refl _⟩ bs (fun _ _ => trivial)).2
  intro db a _ h
  rcases inv_access loc db a h.1 with ⟨hi, hev⟩
  exact ⟨hi, h.2.trans hev.keys⟩

/-! ## Closed jobs -/

/-- The statement is no `job_abort` of a job that has been completed. -/
def SparesCompleted (db : Db) (i : Input) : Prop :=
  ∀ j ∈ db.jobPool, i.op = .jobAbort j.uptkn → j.tf ≠ none → j.aborted = true

/-- Every closed job of the one database is in the other as it was. -/
def KeepsClosed (db db' : Db) : Prop :=
  ∀ j ∈ db.jobPool, j.tf ≠ none → j ∈ db'.jobPool

/-- A write leaves a job it does not select. -/
theorem mem_writeJob_of_ne (u : String) (f : JobRow → JobRow) (db : Db) {j : JobRow}
    (hj : j ∈ db.jobPool) (hne : j.uptkn ≠ u) : j ∈ (writeJob u f db).jobPool :=
  Table.mem_updateWhere_of_not _ _ _ j hj (decide_eq_false hne)

/-- Nothing but an abort gets at a closed job: it is locked, so a lock passes it
    by, and it is not open, so the lookup and the inspector do. -/
theorem keepsClosed_change {loc : Locale} {env : Env} {db db' : Db} {op : Op} {r : Reply}
    (hi : Inv db) (h : Change loc env db op r db') (hspare : SparesCompleted db ⟨env, op⟩) :
    KeepsClosed db db' := by
  intro j hj hclosed
  cases h with
  | insert wid uptkn vals w h => exact List.mem_append_left _ hj
  | noRow wid newWid uptkn vals h => exact hj
  | update wid newWid uptkn vals old u db₁ w h =>
      rcases h.justified with ⟨f, e, -, -, hjust⟩
      refine List.mem_append_left _ ?_
      generalize w.tgid = g at hjust
      cases hjust with
      | job i hne him hrun hwid =>
          -- The job that was looked up is open, so it is another one.
          refine mem_writeJob_of_ne u _ db hj (fun hju => hclosed ?_)
          rcases (isRunning_iff u i).mp hrun with ⟨hiu, -, hopen⟩
          rw [hi.pool.tokens.eq_of_mem hj him (hju.trans hiu.symm)]
          exact hopen
      | recovery he hx => exact hj
  | noLock u lckid h => exact hj
  | lock u lckid i hjob hl =>
      refine mem_writeJob_of_ne u _ db hj (fun hju => ?_)
      rcases jobOf_some db u i hjob with ⟨him, hiu⟩
      have hlocked := hi.pool.closed j hj hclosed
      rw [hi.pool.tokens.eq_of_mem hj him (hju.trans hiu.symm), hl] at hlocked
      exact Bool.false_ne_true hlocked
  | noAbort u h => exact hj
  | abort u i hjob hl ha =>
      refine mem_writeJob_of_ne u _ db hj (fun hju => ?_)
      rcases jobOf_some db u i hjob with ⟨him, hiu⟩
      have haborted := hspare j hj (by rw [hju]) hclosed
      rw [hi.pool.tokens.eq_of_mem hj him (hju.trans hiu.symm), ha] at haborted
      exact Bool.false_ne_true haborted
  | noRequeue h => exact hj
  | requeue h hf =>
      refine List.mem_append_left _ (Table.mem_updateWhere_of_not _ _ _ j hj ?_)
      exact Bool.eq_false_iff.mpr (fun hs => hclosed (running_of_expired hi hj hs).2.2)
  | redefine op db' hop h =>
      rw [h.same]
      exact hj
  | restyle op db' hop h =>
      rcases h.same with ⟨f, hsame⟩
      rw [hsame]
      exact hj

/-- An abort marks a completed job, and then the row is another one. -/
theorem not_keepsClosed_of_abort (loc : Locale) (env : Env) (db : Db) (hi : Inv db) (j : JobRow)
    (hj : j ∈ db.jobPool) (hclosed : j.tf ≠ none) (ha : j.aborted = false) :
    j ∉ (step loc db ⟨env, .jobAbort j.uptkn⟩).jobPool := by
  have hex : exec loc ⟨env, .jobAbort j.uptkn⟩ db
      = .ok (writeJob j.uptkn (abortRow env.now) db, .bool true) :=
    (Table.map_eq_ok _ _ _).mpr ⟨(writeJob j.uptkn (abortRow env.now) db, true),
      (jobAbort_ok_iff env.now j.uptkn db _ true hi.lockJob hi.pool.tokens).mpr
        (.inr ⟨j, jobOf_eq db hi.pool.tokens j hj, hi.pool.closed j hj hclosed, ha, rfl, rfl⟩), rfl⟩
  rw [step_of_exec hex]
  intro hmem
  rcases (Table.mem_updateWhere _ _ _ _).mp hmem with ⟨i, -, hji⟩
  -- The row of the token is now marked, and the other rows have other tokens.
  by_cases hiu : i.uptkn = j.uptkn
  · rw [if_pos (decide_eq_true hiu)] at hji
    rw [hji] at ha
    exact Bool.noConfusion ha
  · rw [if_neg (by simpa only [decide_eq_true_eq] using hiu)] at hji
    exact hiu (by rw [hji])

/-- Closed jobs stay as they are all along a run exactly if no `job_abort` is
    called for a job that has been completed. -/
theorem closed_jobs_kept_iff (loc : Locale) (is : List Input) :
    (∀ is₁ is₂, is₁ <+: is₂ → is₂ <+: is → KeepsClosed (run loc is₁) (run loc is₂)) ↔
      ∀ p ∈ Machine.history (step loc) Db.empty is, SparesCompleted p.1 p.2 := by
  refine Machine.forall_prefixes_iff (step loc) (fun _ => True) Inv
    (fun db i _ hi => inv_step loc i db hi) SparesCompleted KeepsClosed (fun _ _ hj _ => hj)
    (fun _ _ _ h₁ h₂ j hj hc => h₂ j (h₁ j hj hc) hc) ?_ Db.empty inv_empty is (fun _ _ => trivial)
  -- What is left is one step.
  intro db i _ hi
  constructor
  · intro hkeep j hj hop hclosed
    by_contra hna
    refine not_keepsClosed_of_abort loc i.env db hi j hj hclosed (Bool.eq_false_iff.mpr hna) ?_
    rw [← hop]
    exact hkeep j hj hclosed
  · intro hspare
    exact step_cases loc db i (KeepsClosed db) (fun _ hj _ => hj)
      (fun db' r hex => keepsClosed_change hi (exec_change loc i db db' r hi hex) hspare)

/-- A worker locks a job and completes it. An abort that comes afterwards is
    granted, and the job of the accepted update is recorded as aborted. -/
theorem completed_job_aborted :
    ∃ is i j, j ∈ (run asciiLocale is).jobPool ∧ j.tf ≠ none ∧ j.aborted = false ∧
      (∃ r ∈ (run asciiLocale is).wedTrace, r.tgidWrote = some j.tgid) ∧
      ({ j with aborted := true, tf := some 4 } : JobRow) ∈ (run asciiLocale (is ++ [i])).jobPool ∧
      ¬ KeepsClosed (run asciiLocale is) (run asciiLocale (is ++ [i])) := by
  refine ⟨tiny ++ [⟨clock 1, .insertFlow 7 none []⟩, ⟨clock 2, .jobLock (tokenAt 1 0) none⟩,
    ⟨clock 3, .updateFlow 7 none (some (some (tokenAt 1 0))) [("st", some "half")]⟩],
    ⟨clock 4, .jobAbort (tokenAt 1 0)⟩,
    ⟨1, 7, tokenAt 1 0, none, true, false, 10, some 2, some 3⟩, ?_⟩
  unfold KeepsClosed
  decide +kernel

/-! ## Windows -/

/-- The job has been locked for longer than its timeout, open or not. -/
def JobRow.overdue (now : Time) (j : JobRow) : Bool :=
  match j.ti with
  | some ti => now - ti > j.tout
  | none => false

/-- The window of the job with this token has passed. -/
def Overdue (u : String) (now : Time) (db : Db) : Prop :=
  ∃ j ∈ db.jobPool, j.uptkn = u ∧ j.overdue now = true

instance (u : String) (now : Time) (db : Db) : Decidable (Overdue u now db) :=
  inferInstanceAs (Decidable (∃ j ∈ db.jobPool, _))

/-- The job with this token was locked, no longer than its timeout ago. -/
def Within (u : String) (now : Time) (db : Db) : Prop :=
  ∃ j ∈ db.jobPool, j.uptkn = u ∧ ∃ ti, j.ti = some ti ∧ now - ti ≤ j.tout

/-- The statement is an update that comes with this token, and it was
    accepted. -/
def SpendsAt (loc : Locale) (u : String) (p : Db × Input) : Prop :=
  carried p.1 p.2.op = some u ∧ ∃ db', exec loc p.2 p.1 = .ok (db', .rows 1)

/-- The statement is a run of `job_inspector` that went through. -/
def InspectsAt (loc : Locale) (p : Db × Input) : Prop :=
  p.2.op = .jobInspector ∧ ∃ db' r, exec loc p.2 p.1 = .ok (db', r)

/-- An accepted update with the token of a job found it running, completes it,
    and rewrites its instance. -/
theorem Change.spends {loc : Locale} {env : Env} {db db' : Db} {op : Op} {u : String} (hi : Inv db)
    (h : Change loc env db op (.rows 1) db') (hcar : carried db op = some u)
    (hu : loc.lower u ≠ "exception") :
    ∃ j ∈ db.jobPool, isRunning u j = true ∧
      (∃ jobs, db'.jobPool = (writeJob u (completeRow env.now) db).jobPool ++ jobs) ∧
      j.wid ∈ db.wedFlow.map (·.wid) ∧ ∃ new : FlowRow, new.wid = j.wid ∧
        db'.wedFlow = Table.updateWhere (fun r => r.wid = j.wid) (fun _ => new) db.wedFlow := by
  cases h with
  | update wid newWid uptkn vals old v db₁ w hup =>
      rw [hup.carried_eq hi, Option.some.injEq] at hcar
      subst hcar
      rcases hup.justified with ⟨f, e, -, -, hj⟩
      generalize w.tgid = g at hj
      cases hj with
      | recovery he hx => exact absurd he hu
      | job j hne hjm hrun hwid =>
          refine ⟨j, hjm, hrun, ⟨w.jobs env, rfl⟩, ?_, w.new, hup.wid_eq.trans hwid.symm, ?_⟩
          · rw [hwid, ← hup.old_wid]
            exact List.mem_map_of_mem hup.mem
          · rw [hwid, ← hup.wid_eq]
            rfl

/-- A closed job stays closed. -/
theorem closed_step (loc : Locale) (db : Db) (i : Input) (hi : Inv db) (u : String)
    (h : Closed u db) : Closed u (step loc db i) := by
  refine step_cases loc db i (Closed u) h (fun db' r hex => ?_)
  rcases (exec_change loc i db db' r hi hex).handled with ⟨p, f, jobs, hh, -, -⟩
  rcases h with ⟨j, hj, hju, hclosed⟩
  rcases hh.forth hj with ⟨j', hj', hcont⟩
  exact ⟨j', hj', hcont.uptkn.trans hju, hcont.closed hclosed⟩

/-- After a run of `job_inspector` no job whose window has passed is open. -/
theorem closed_of_inspects {loc : Locale} {db : Db} {i : Input} (hi : Inv db)
    (h : InspectsAt loc (db, i)) {u : String} (hover : Overdue u i.env.now db) :
    Closed u (step loc db i) := by
  rcases i with ⟨env, op⟩
  rcases h with ⟨hop, db', r, hex⟩
  rcases hover with ⟨j, hj, rfl, hlate⟩
  dsimp only at hop hlate
  subst hop
  by_cases hopen : j.tf = none
  · -- The job is in the scan, which is therefore not empty.
    have hexp : isExpired env.now j = true := by
      unfold isExpired
      rw [Bool.and_eq_true]
      exact ⟨decide_eq_true hopen, hlate⟩
    -- The scan joins with `wed_trig`, where the trigger of the job still is.
    rcases List.mem_map.mp (hi.pool.trig j hj) with ⟨t, ht, htj⟩
    have hmem := (mem_expired env.now db _).mpr ⟨j, hj, hexp, t, ht, htj, rfl⟩
    rw [step_of_exec hex]
    have hch := exec_change loc _ db db' r hi hex
    dsimp only at hch
    cases hch with
    | noRequeue hno =>
        rw [hno] at hmem
        exact absurd hmem List.not_mem_nil
    | requeue hne hf =>
        refine ⟨abortRow env.now j, List.mem_append_left _ ?_, rfl, Option.some_ne_none _⟩
        refine Table.mem_updateWhere_of_pos _ _ _ j hj (decide_eq_true ?_)
        exact List.mem_map.mpr ⟨_, hmem, rfl⟩
    | redefine op db' hop h => exact hop.elim
    | restyle op db' hop h => exact hop.elim
  · exact closed_step loc db _ hi j.uptkn ⟨j, hj, rfl, hopen⟩

/-- No update with the token of a job is accepted outside the job's window, in
    every run in which updates that come too late find that a `job_inspector`
    has run since the window passed. -/
theorem updates_within_window (loc : Locale) (is : List Input)
    (hticks : ∀ h₁ p h₂, Machine.history (step loc) Db.empty is = h₁ ++ p :: h₂ → ∀ u,
      carried p.1 p.2.op = some u → Overdue u p.2.env.now p.1 →
        ∃ q ∈ h₁, InspectsAt loc q ∧ Overdue u q.2.env.now q.1) :
    ∀ p ∈ Machine.history (step loc) Db.empty is, ∀ u, loc.lower u ≠ "exception" →
      SpendsAt loc u p → Within u p.2.env.now p.1 := by
  -- A run of the inspector closes the job, and an update needs it open.
  have hnever : ∀ u, loc.lower u ≠ "exception" →
      (Machine.history (step loc) Db.empty is).Pairwise fun q p =>
        InspectsAt loc q ∧ Overdue u q.2.env.now q.1 → ¬ SpendsAt loc u p := by
    intro u hu
    refine (Machine.history_never_after (step loc) Inv (fun db i hi => inv_step loc i db hi)
      (fun _ : Unit => fun q => InspectsAt loc q ∧ Overdue u q.2.env.now q.1)
      (fun _ => SpendsAt loc u) (fun _ => Closed u) ?_ ?_ ?_ Db.empty inv_empty is).imp
      (fun hqp => hqp ())
    · exact fun _ db i hi => closed_step loc db i hi u
    · exact fun _ db i hi h => closed_of_inspects hi h.1 h.2
    · intro _ db i hi hspend hclosed
      rcases hspend with ⟨hcar, db', hex⟩
      rcases (exec_change loc i db db' _ hi hex).spends hi hcar hu with ⟨j, hj, hrun, -⟩
      rcases (isRunning_iff u j).mp hrun with ⟨hju, -, hopen⟩
      exact hclosed.of_mem hi hj hju hopen
  intro p hp u hu hspend
  rcases List.append_of_mem hp with ⟨h₁, h₂, hsplit⟩
  -- An inspector that had run would have closed the job.
  have hin : ¬ Overdue u p.2.env.now p.1 := by
    intro hover
    rcases hticks h₁ p h₂ hsplit u hspend.1 hover with ⟨q, hq, hins⟩
    have hpair := hnever u hu
    rw [hsplit, List.pairwise_append] at hpair
    exact hpair.2.2 q hq p List.mem_cons_self hins hspend
  have hi : Inv p.1 := Machine.history_states (step loc) Inv (fun db i hi => inv_step loc i db hi)
    Db.empty inv_empty is p hp
  rcases hspend with ⟨hcar, db', hex⟩
  rcases (exec_change loc p.2 p.1 db' _ hi hex).spends hi hcar hu with ⟨j, hj, hrun, -⟩
  rcases (isRunning_iff u j).mp hrun with ⟨hju, hl, hopen⟩
  -- A running job has a lock time, and then not overdue is within.
  rcases hti : j.ti with _ | ti
  · exact absurd hti ((hi.pool.phase j hj hopen).2.mp hl)
  · refine ⟨j, hj, hju, ti, hti, Int.not_lt.mp (fun hlate => hin ⟨j, hj, hju, ?_⟩)⟩
    simp only [JobRow.overdue, hti]
    exact decide_eq_true hlate

/-- A worker locks a job at time 2. Its timeout is 10. -/
def taken : List Input :=
  tiny ++ [⟨clock 1, .insertFlow 7 none []⟩, ⟨clock 2, .jobLock (tokenAt 1 0) none⟩]

/-- And completes it at time `k`. -/
def completesAt (k : Nat) : Input :=
  ⟨clock k, .updateFlow 7 none (some (some (tokenAt 1 0))) [("st", some "half")]⟩

/-- It does so at time 3, and another worker locks the other job. -/
def passedOn : List Input :=
  taken ++ [completesAt 3, ⟨clock 4, .jobLock (tokenAt 1 1) none⟩]

/-- The inspector runs when the window of that job has passed. -/
def inspectsLate : Input :=
  ⟨clock 50, .jobInspector⟩

/-- Only then the worker wants to complete it. -/
def completesLate : Input :=
  ⟨clock 51, .updateFlow 7 none (some (some (tokenAt 1 1))) [("st", some "done")]⟩

theorem inspectsLate_inspects : InspectsAt asciiLocale (run asciiLocale passedOn, inspectsLate) := by
  refine ⟨rfl, ?_⟩
  have hok : (exec asciiLocale inspectsLate (run asciiLocale passedOn)).toOption.isSome = true := by
    decide +kernel
  cases hex : exec asciiLocale inspectsLate (run asciiLocale passedOn) with
  | error e =>
      rw [hex] at hok
      exact absurd hok Bool.false_ne_true
  | ok r => exact ⟨r.1, r.2, rfl⟩

/-- The last update is the only one that is overdue, and the inspector ran just before it. -/
theorem inspected_before_late (h₁ : List (Db × Input)) (p : Db × Input) (h₂ : List (Db × Input))
    (hsplit : Machine.history (step asciiLocale) Db.empty
      (passedOn ++ [inspectsLate] ++ [completesLate]) = h₁ ++ p :: h₂) (u : String)
    (hcar : carried p.1 p.2.op = some u) (hover : Overdue u p.2.env.now p.1) :
    ∃ q ∈ h₁, InspectsAt asciiLocale q ∧ Overdue u q.2.env.now q.1 := by
  rw [Machine.history_concat] at hsplit
  rcases h₂.eq_nil_or_concat with rfl | ⟨h₂, b, rfl⟩
  · rcases List.append_inj' hsplit (by simp only [List.length_singleton]) with ⟨rfl, hp⟩
    have hu : carried (Machine.after (step asciiLocale) Db.empty (passedOn ++ [inspectsLate]))
        completesLate.op = some (tokenAt 1 1) := by decide +kernel
    rw [← (List.cons.inj hp).1] at hcar
    dsimp only at hcar
    rw [hu, Option.some.injEq] at hcar
    subst hcar
    refine ⟨(run asciiLocale passedOn, inspectsLate), ?_, inspectsLate_inspects, by decide +kernel⟩
    rw [Machine.history_concat]
    exact List.mem_append_right _ (List.mem_singleton.mpr rfl)
  · have hnone : (Machine.history (step asciiLocale) Db.empty (passedOn ++ [inspectsLate])).all
        (fun p => (carried p.1 p.2.op).all fun u => !decide (Overdue u p.2.env.now p.1)) = true := by
      decide +kernel
    rw [List.concat_eq_append, ← List.cons_append, ← List.append_assoc] at hsplit
    have hp : p ∈ Machine.history (step asciiLocale) Db.empty (passedOn ++ [inspectsLate]) := by
      rw [(List.append_inj' hsplit (by simp only [List.length_singleton])).1]
      exact List.mem_append_right _ List.mem_cons_self
    have hall := List.all_eq_true.mp hnone p hp
    rw [hcar, Option.all_some, Bool.not_eq_true', decide_eq_false_iff_not] at hall
    exact absurd hover hall

/-- The first update is accepted within the window of its job. The other one finds that an
    inspector has run since its window passed, and is rejected. -/
theorem updates_within_window_inspected :
    Within (tokenAt 1 0) 3 (run asciiLocale taken) ∧
      Overdue (tokenAt 1 1) 51 (run asciiLocale (passedOn ++ [inspectsLate])) ∧
      ¬ SpendsAt asciiLocale (tokenAt 1 1)
        (run asciiLocale (passedOn ++ [inspectsLate]), completesLate) := by
  have hwindow := updates_within_window asciiLocale
    (passedOn ++ [inspectsLate] ++ [completesLate]) inspected_before_late
  refine ⟨?_, by decide +kernel, fun hspend => ?_⟩
  · have hspend : SpendsAt asciiLocale (tokenAt 1 0) (run asciiLocale taken, completesAt 3) := by
      refine ⟨by decide +kernel, ?_⟩
      exact ((accepted_iff asciiLocale 7 _ _).mp (by decide +kernel)).2
    refine hwindow (run asciiLocale taken, completesAt 3) ?_ _ (by decide +kernel) hspend
    have hmem : (run asciiLocale taken, completesAt 3) ∈
        Machine.history (step asciiLocale) Db.empty passedOn := by
      unfold passedOn
      rw [Machine.history_append]
      exact List.mem_append_right _ List.mem_cons_self
    rw [Machine.history_concat, Machine.history_concat]
    exact List.mem_append_left _ (List.mem_append_left _ hmem)
  · have hin := hwindow _ ?_ _ (by decide +kernel) hspend
    · have hjob : ∀ j ∈ (run asciiLocale (passedOn ++ [inspectsLate])).jobPool,
          j.uptkn = tokenAt 1 1 → j.ti = some 4 ∧ j.tout = 10 := by decide +kernel
      rcases hin with ⟨j, hj, hju, ti, hti, hle⟩
      rcases hjob j hj hju with ⟨hti', hout⟩
      rw [hti', Option.some.injEq] at hti
      rw [← hti, hout] at hle
      exact absurd hle (by decide)
    · rw [Machine.history_concat]
      exact List.mem_append_right _ (List.mem_singleton.mpr rfl)

/-- It is accepted at time 100 as well, if no inspector has run until then. -/
theorem late_update_accepted :
    ((taken ++ [completesAt 100]).map fun i => i.env.now).Pairwise (· ≤ ·) ∧
      SpendsAt asciiLocale (tokenAt 1 0) (run asciiLocale taken, completesAt 100) ∧
      ¬ Within (tokenAt 1 0) 100 (run asciiLocale taken) := by
  refine ⟨by decide +kernel, ⟨by decide +kernel, ?_⟩, ?_⟩
  · exact ((accepted_iff asciiLocale 7 _ _).mp (by decide +kernel)).2
  · intro h
    have hjob : ∀ j ∈ (run asciiLocale taken).jobPool, j.uptkn = tokenAt 1 0 →
        j.ti = some 2 ∧ j.tout = 10 := by decide +kernel
    rcases h with ⟨j, hj, hju, ti, hti, hle⟩
    rcases hjob j hj hju with ⟨hti', hout⟩
    rw [hti', Option.some.injEq] at hti
    rw [← hti, hout] at hle
    exact absurd hle (by decide)

end WedFlow
