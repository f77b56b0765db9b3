import WedFlow.Core.Sessions
import WedFlow.Theory.Invariant

/-!
# Concurrent Inspectors

However the sessions take turns, there is never a second open job for a trigger
of an instance, and no job is replaced twice.

Both rest on what a scan may rely on while it is held. Its jobs may be locked or
aborted meanwhile, so they need not be open any more when the loop comes; but
no job is created for their instances. An update with a token would do that, and
it waits for the scan to end. A recovery would, but its instance is in an
exception, has no open jobs, and so is not in the scan. This is `Scanned`, and
`scanned_change` says that every statement that does not have to wait keeps it.

A job that has been replaced is closed and in nobody's scan. Closed jobs stay
closed and no new scan finds them, so `history_never_after` applies.

## Main definitions

* `JobRow.Continues`: What is never taken back from a job.
* `Handled`: A write of the pool: some jobs go on, others are new.
* `ClusterInv`: The invariant, with what the scans rely on.
* `Turned`: What a turn can do.
* `replaced`: The jobs a turn replaces, with their replacements.

## Theorems

* `Change.handled`, `handled_requeue`: What is done to the pool.
* `scanned_change`: Scans survive the statements they do not keep waiting.
* `serve_turned`: The list of turns is complete.
* `clusterInv_turn`, `cluster_inv`: The invariant, over all interleavings.
* `open_jobs_single`: One open job for a trigger of an instance, and one
  replacement for a job.
-/

namespace WedFlow

/-! ## What becomes of a job -/

/-- A job keeps its token, instance and trigger, and once locked or closed it
    stays so. -/
structure JobRow.Continues (j j' : JobRow) : Prop where
  uptkn : j'.uptkn = j.uptkn
  wid : j'.wid = j.wid
  tgid : j'.tgid = j.tgid
  locked : j.locked = true → j'.locked = true
  closed : j.tf ≠ none → j'.tf ≠ none

theorem JobRow.Continues.refl (j : JobRow) : j.Continues j :=
  ⟨rfl, rfl, rfl, id, id⟩

theorem JobRow.Continues.trans {i j k : JobRow} (hij : i.Continues j) (hjk : j.Continues k) :
    i.Continues k where
  uptkn := hjk.uptkn.trans hij.uptkn
  wid := hjk.wid.trans hij.wid
  tgid := hjk.tgid.trans hij.tgid
  locked := hjk.locked ∘ hij.locked
  closed := hjk.closed ∘ hij.closed

theorem continues_complete (now : Time) (j : JobRow) : j.Continues (completeRow now j) :=
  ⟨rfl, rfl, rfl, id, fun _ => Option.some_ne_none now⟩

theorem continues_abort (now : Time) (j : JobRow) : j.Continues (abortRow now j) :=
  ⟨rfl, rfl, rfl, id, fun _ => Option.some_ne_none now⟩

theorem continues_lock (now : Time) (lckid : Option String) (j : JobRow) :
    j.Continues (lockRow now lckid j) :=
  ⟨rfl, rfl, rfl, fun _ => rfl, id⟩

/-- A write of the pool: the jobs that `p` selects are rewritten, and new ones
    are added, nobody's yet. Jobs are locked by `job_lock` and by nothing
    else. -/
structure Handled (pool pool' : List JobRow) (locks : String → Prop) (p : JobRow → Bool)
    (f : JobRow → JobRow) (jobs : List JobRow) : Prop where
  pool : pool' = Table.updateWhere p f pool ++ jobs
  continues : ∀ j : JobRow, j.Continues (f j)
  pending : ∀ j ∈ jobs, j.locked = false ∧ j.tf = none
  locked : ∀ j, p j = true → (f j).locked = true → j.locked = true ∨ locks j.uptkn

theorem pending_freshJobs (env : Env) (n : Nat) (rs : List Request) (j : JobRow)
    (hj : j ∈ freshJobs env n rs) : j.locked = false ∧ j.tf = none := by
  rcases mem_freshJobs env n rs j hj with ⟨r, -, m, rfl⟩
  exact ⟨rfl, rfl⟩

section Handled

variable {pool pool' jobs : List JobRow} {locks : String → Prop} {p : JobRow → Bool}
  {f : JobRow → JobRow}

/-- New jobs, and none of the old ones touched. -/
theorem handled_issue (locks : String → Prop) (pool jobs : List JobRow)
    (h : ∀ j ∈ jobs, j.locked = false ∧ j.tf = none) :
    Handled pool (pool ++ jobs) locks (fun _ => false) id jobs where
  pool := by rw [Table.updateWhere_of_forall_not _ _ _ (fun _ _ => rfl)]
  continues := JobRow.Continues.refl
  pending := h
  locked := fun _ hp => absurd hp Bool.false_ne_true

theorem handled_same (locks : String → Prop) (pool : List JobRow) :
    Handled pool pool locks (fun _ => false) id [] := by
  have h := handled_issue locks pool [] (fun _ hj => absurd hj List.not_mem_nil)
  rwa [List.append_nil] at h

theorem Handled.forth (h : Handled pool pool' locks p f jobs) {j : JobRow} (hj : j ∈ pool) :
    ∃ j' ∈ pool', j.Continues j' := by
  rw [h.pool]
  by_cases hp : p j = true
  · exact ⟨f j, List.mem_append_left _ (Table.mem_updateWhere_of_pos _ _ _ j hj hp), h.continues j⟩
  · refine ⟨j, List.mem_append_left _ (Table.mem_updateWhere_of_not _ _ _ j hj ?_), .refl j⟩
    exact Bool.eq_false_iff.mpr hp

/-- Every job was there before, or is one of the new ones. -/
theorem Handled.back (h : Handled pool pool' locks p f jobs) {j' : JobRow} (hj : j' ∈ pool') :
    (∃ j ∈ pool, j.Continues j' ∧ (j'.locked = true → j.locked = true ∨ locks j.uptkn)) ∨
      j' ∈ jobs := by
  rw [h.pool, List.mem_append] at hj
  rcases hj with hj | hj
  · rcases (Table.mem_updateWhere _ _ _ _).mp hj with ⟨j, hjm, rfl⟩
    refine .inl ⟨j, hjm, ?_⟩
    by_cases hp : p j = true
    · rw [if_pos hp]
      exact ⟨h.continues j, h.locked j hp⟩
    · rw [if_neg hp]
      exact ⟨.refl j, .inl⟩
  · exact .inr hj

end Handled

/-- The statement is a successful `job_lock` of this token. -/
def Locks (op : Op) (r : Reply) (u : String) : Prop :=
  ∃ lckid, op = .jobLock u lckid ∧ r = .bool true

/-- Spending a token closes its job at most. -/
theorem Justified.handled {loc : Locale} {now : Time} {u : String} {wid : Int} {excpt : Bool}
    {db db₁ : Db} {tgid : Option Int} (h : Justified loc now u wid excpt db tgid db₁)
    (locks : String → Prop) (jobs : List JobRow) (hjobs : ∀ j ∈ jobs, j.locked = false ∧ j.tf = none) :
    ∃ p f, Handled db.jobPool (db₁.jobPool ++ jobs) locks p f jobs := by
  cases h with
  | job j hne hj hrun hwid =>
      exact ⟨fun i => i.uptkn = u, completeRow now, rfl, continues_complete now, hjobs,
        fun _ _ hl => .inl hl⟩
  | recovery he hx => exact ⟨_, _, handled_issue locks db.jobPool jobs hjobs⟩

/-- The loop closes the jobs of its rows and adds as many. -/
theorem handled_requeue (env : Env) (rows : List ScanRow) (pool : List JobRow)
    (locks : String → Prop) :
    Handled pool (requeuePool env 0 rows pool) locks (inScan rows) (abortRow env.now)
      (freshJobs env 0 (rows.map ScanRow.request)) where
  pool := rfl
  continues := continues_abort env.now
  pending := pending_freshJobs env 0 _
  locked := fun _ _ hl => .inl hl

/-- The instances a statement may create jobs for. -/
def Op.Touches : Op → Int → Prop
  | .insertFlow wid _ _, v => v = wid
  | .updateFlow wid _ _ _, v => v = wid
  | .jobInspector, _ => True
  | _, _ => False

theorem mem_jobs_wid (env : Env) (w : Write) (j : JobRow) (hj : j ∈ w.jobs env) :
    j.wid = w.new.wid := by
  rcases mem_freshJobs env 0 _ j hj with ⟨r, hr, m, rfl⟩
  rcases List.mem_map.mp hr with ⟨t, -, rfl⟩
  rfl

/-- Whatever a statement does to the pool is a write of this kind. -/
theorem Change.handled {loc : Locale} {env : Env} {db db' : Db} {op : Op} {r : Reply}
    (h : Change loc env db op r db') :
    ∃ p f jobs, Handled db.jobPool db'.jobPool (Locks op r) p f jobs ∧
      (∀ j ∈ jobs, op.Touches j.wid) ∧ ∀ s ∈ db'.stStatus, s ∈ db.stStatus ∨ op.Touches s.wid := by
  have hnone : ∀ P : JobRow → Prop, ∀ j ∈ ([] : List JobRow), P j :=
    fun _ _ hj => absurd hj List.not_mem_nil
  cases h with
  | insert wid uptkn vals w h =>
      refine ⟨_, _, _, handled_issue _ db.jobPool (w.jobs env) (pending_freshJobs env 0 _),
        fun j hj => (mem_jobs_wid env w j hj).trans h.wid_eq, fun s hs => ?_⟩
      rcases List.mem_append.mp hs with hs | hs
      · exact .inl hs
      · rw [List.mem_singleton.mp hs]
        exact .inr h.wid_eq
  | noRow wid newWid uptkn vals h =>
      exact ⟨_, _, _, handled_same _ db.jobPool, hnone _, fun _ hs => .inl hs⟩
  | update wid newWid uptkn vals old u db₁ w h =>
      rcases h.justified with ⟨f, e, -, -, hj⟩
      rcases hj.handled (Locks _ _) (w.jobs env) (pending_freshJobs env 0 _) with ⟨p, g, hh⟩
      refine ⟨p, g, _, hh, fun j hj => (mem_jobs_wid env w j hj).trans h.wid_eq, fun s hs => ?_⟩
      rcases (Table.mem_updateWhere _ _ _ s).mp hs with ⟨q, hq, rfl⟩
      -- The status of the one instance is rewritten, and it is touched.
      by_cases hqw : q.wid = w.new.wid
      · rw [if_pos (decide_eq_true hqw)]
        exact .inr (hqw.trans h.wid_eq)
      · rw [if_neg (by simpa only [decide_eq_true_eq] using hqw)]
        exact .inl (hj.flow.2.1 ▸ hq)
  | noLock u lckid h => exact ⟨_, _, _, handled_same _ db.jobPool, hnone _, fun _ hs => .inl hs⟩
  | lock u lckid j hj hl =>
      refine ⟨fun i => i.uptkn = u, lockRow env.now lckid, [], ⟨?_, continues_lock env.now lckid,
        hnone _, fun i hi _ => .inr ⟨lckid, ?_, rfl⟩⟩, hnone _, fun _ hs => .inl hs⟩
      · rw [List.append_nil]
        rfl
      · rw [of_decide_eq_true hi]
  | noAbort u h => exact ⟨_, _, _, handled_same _ db.jobPool, hnone _, fun _ hs => .inl hs⟩
  | abort u j hj hl ha =>
      refine ⟨fun i => i.uptkn = u, abortRow env.now, [], ⟨?_, continues_abort env.now, hnone _,
        fun _ _ hl => .inl hl⟩, hnone _, fun _ hs => .inl hs⟩
      rw [List.append_nil]
      rfl
  | noRequeue h => exact ⟨_, _, _, handled_same _ db.jobPool, hnone _, fun _ hs => .inl hs⟩
  | requeue h hf =>
      exact ⟨_, _, _, handled_requeue env _ db.jobPool _, fun _ _ => trivial, fun _ hs => .inl hs⟩
  | redefine op db' hop h =>
      rw [h.same]
      exact ⟨_, _, _, handled_same _ db.jobPool, hnone _, fun _ hs => .inl hs⟩
  | restyle op db' hop h =>
      rcases h.same with ⟨f, hsame⟩
      rw [hsame]
      exact ⟨_, _, _, handled_same _ db.jobPool, hnone _, fun _ hs => .inl hs⟩

/-! ## What a scan relies on -/

/-- A scan stays as it is as long as no job is created for its instances and
    their statuses stay. -/
theorem Scanned.keep {db db' : Db} {rows : List ScanRow} (hs : Scanned db rows)
    {locks : String → Prop} {p : JobRow → Bool} {f : JobRow → JobRow} {jobs : List JobRow}
    (hh : Handled db.jobPool db'.jobPool locks p f jobs)
    (hjobs : ∀ r ∈ rows, ∀ j ∈ jobs, j.wid ≠ r.wid)
    (hstat : ∀ r ∈ rows, ∀ s ∈ db'.stStatus, s.wid = r.wid → s ∈ db.stStatus) :
    Scanned db' rows where
  job := fun r hr => by
    rcases hs.job r hr with ⟨j, hj, hu, hw, hg, hl⟩
    rcases hh.forth hj with ⟨j', hj', hc⟩
    exact ⟨j', hj', hc.uptkn.trans hu, hc.wid.trans hw, hc.tgid.trans hg, hc.locked hl⟩
  distinct := hs.distinct
  sole := fun r hr j' hj' hopen hw hg => by
    rcases hh.back hj' with ⟨j, hj, hc, -⟩ | hnew
    · -- It was open before as well.
      have hjt : j.tf = none := by
        by_contra hne
        exact hc.closed hne hopen
      rw [hc.uptkn]
      exact hs.sole r hr j hj hjt (hc.wid.symm.trans hw) (hc.tgid.symm.trans hg)
    · exact absurd hw (hjobs r hr j' hnew)
  active := fun r hr s hsm hsw => hs.active r hr s (hstat r hr s hsm hsw) hsw

/-- The token of an accepted update is the one it carries. -/
theorem Updates.carried_eq {loc : Locale} {env : Env} {wid : Int} {newWid : Option Int}
    {uptkn : Option (Option String)} {vals : List (String × Option String)} {db : Db}
    {old : FlowRow} {u : String} {db₁ : Db} {w : Write} (hi : Inv db)
    (h : Updates loc env wid newWid uptkn vals db old u db₁ w) :
    carried db (.updateFlow wid newWid uptkn vals) = some u := by
  have hfind : db.wedFlow.find? (fun r => r.wid = wid) = some old :=
    (hi.flow.find_eq_some_iff wid old).mpr ⟨h.mem, h.old_wid⟩
  unfold carried
  dsimp only
  rw [hfind]
  exact h.token

/-- The lookup of a token waits for every scan to end, so an update that does not
    have to wait asks for recovery. -/
theorem Updates.recovers {loc : Locale} {env : Env} {wid : Int} {newWid : Option Int}
    {uptkn : Option (Option String)} {vals : List (String × Option String)} {db db₁ : Db}
    {old : FlowRow} {u : String} {w : Write} (h : Updates loc env wid newWid uptkn vals db old u db₁ w)
    (hi : Inv db)
    (hmode : (lockMode loc db (.updateFlow wid newWid uptkn vals)).conflicts .accessShare = false) :
    loc.lower u = "exception" := by
  by_contra he
  unfold lockMode at hmode
  simp only [h.carried_eq hi, if_neg h.nonempty, if_neg he] at hmode
  exact Bool.noConfusion hmode

/-- A statement that does not have to wait for a scan creates no job for the
    instances in it. -/
theorem Scanned.not_touches {loc : Locale} {env : Env} {db db' : Db} {op : Op} {r : Reply}
    {rows : List ScanRow} (hs : Scanned db rows) (hi : Inv db)
    (hmode : (lockMode loc db op).conflicts .accessShare = false) (h : Change loc env db op r db')
    {q : ScanRow} (hq : q ∈ rows) : ¬ op.Touches q.wid := by
  rcases hs.job q hq with ⟨j, hj, -, hjw, -⟩
  have hwid : q.wid ∈ db.wedFlow.map (·.wid) := hjw ▸ hi.pool.flow j hj
  cases h with
  | insert wid uptkn vals w h =>
      intro ht
      exact h.free (ht ▸ hwid)
  | noRow wid newWid uptkn vals h =>
      intro ht
      exact h (ht ▸ hwid)
  | update wid newWid uptkn vals old u db₁ w h =>
      intro ht
      rcases h.justified with ⟨f, e, hst, -, hjust⟩
      -- The instance is in an exception, while those of the scan are active.
      have hfin := hi.excpt _ hst (hjust.of_word (h.recovers hi hmode)).2.2
      rw [hs.active q hq _ hst ht.symm] at hfin
      exact Bool.false_ne_true hfin
  | noRequeue h => exact Bool.noConfusion hmode
  | requeue h hf => exact Bool.noConfusion hmode
  -- Whatever is left creates no jobs at all.
  | lock u lckid j hj hl => exact id
  | noLock u lckid h => exact id
  | abort u j hj hl ha => exact id
  | noAbort u h => exact id
  | redefine op db' hop h =>
      cases op with
      | insertFlow wid uptkn vals => exact hop.elim
      | updateFlow wid newWid uptkn vals => exact hop.elim
      | jobInspector => exact hop.elim
      | _ => exact id
  | restyle op db' hop h =>
      cases op with
      | insertFlow wid uptkn vals => exact hop.elim
      | updateFlow wid newWid uptkn vals => exact hop.elim
      | jobInspector => exact hop.elim
      | _ => exact id

/-- Scans survive the statements they do not keep waiting. -/
theorem scanned_change {loc : Locale} {env : Env} {db db' : Db} {op : Op} {r : Reply}
    {rows : List ScanRow} (hs : Scanned db rows) (hi : Inv db)
    (hmode : (lockMode loc db op).conflicts .accessShare = false) (h : Change loc env db op r db') :
    Scanned db' rows := by
  have hno : ∀ q ∈ rows, ¬ op.Touches q.wid := fun q hq => hs.not_touches hi hmode h hq
  rcases h.handled with ⟨p, f, jobs, hh, hjobs, hstat⟩
  refine hs.keep hh (fun q hq j hj hw => hno q hq (hw ▸ hjobs j hj)) (fun q hq s hsm hw => ?_)
  exact (hstat s hsm).resolve_right (hw ▸ hno q hq)

/-- The loop goes through exactly if its tokens are fresh, and what it does is
    known. -/
theorem Scanned.requeue_ok_iff {db : Db} {rows : List ScanRow} (hs : Scanned db rows) (hi : Inv db)
    (loc : Locale) (env : Env) (db' : Db) :
    requeue loc env rows db = .ok db' ↔
      Fresh loc db.jobPool (freshJobs env 0 (rows.map ScanRow.request)) ∧
        db' = { db with jobPool := requeuePool env 0 rows db.jobPool } := by
  have hkeys : ∀ r ∈ rows, r.uptkn ∈ db.jobPool.map (·.uptkn) ∧
      r.tgid ∈ db.wedTrig.map (·.tgid) ∧ r.wid ∈ db.wedFlow.map (·.wid) := by
    intro r hr
    rcases hs.job r hr with ⟨j, hj, hu, hw, hg, -⟩
    exact ⟨hu ▸ List.mem_map_of_mem hj, hg ▸ hi.pool.trig j hj, hw ▸ hi.pool.flow j hj⟩
  rw [WedFlow.requeue_ok_iff loc env rows db db' (fun r hr => (hkeys r hr).1)
    (fun r hr => (hkeys r hr).2.1) (fun r hr => (hkeys r hr).2.2), ← hi.lockJob]

/-! ## Turns -/

/-- What a turn can do: nothing, a statement, a scan, the end of a transaction,
    or a loop. -/
inductive Turned (loc : Locale) (c : Cluster) : Turn → Answer → Cluster → Prop where
  | idle (t : Turn) (a : Answer) (ha : ∀ r, a ≠ .replied r) : Turned loc c t a c
  | statement (i : Input) (db : Db) (r : Reply)
      (hg : c.grants none (lockMode loc c.db i.op) = true) (h : exec loc i c.db = .ok (db, r)) :
      Turned loc c (.statement i) (.replied r) { c with db := db }
  | scan (pid : Nat) (now : Time) (hfree : pid ∉ c.scans.map (·.1)) :
      Turned loc c (.scan pid now) .pending
        { c with scans := c.scans ++ [(pid, ⟨now, expired now c.db⟩)] }
  | release (t : Turn) (a : Answer) (pid : Nat) (ha : ∀ r, a ≠ .replied r) :
      Turned loc c t a (c.release pid)
  | noRows (pid : Nat) (env : Env) (s : Scan)
      (hs : c.scans.find? (fun q => q.1 = pid) = some (pid, s)) (hrows : s.rows = []) :
      Turned loc c (.loop pid env) (.replied (.bool false)) (c.release pid)
  | loop (pid : Nat) (env : Env) (s : Scan) (db : Db)
      (hs : c.scans.find? (fun q => q.1 = pid) = some (pid, s))
      (hg : c.grants (some pid) .accessExclusive = true)
      (h : requeue loc { env with now := s.now } s.rows c.db = .ok db) :
      Turned loc c (.loop pid env) (.replied (.bool true)) { c.release pid with db := db }

/-- The list is complete. -/
theorem serve_turned (loc : Locale) (c : Cluster) (t : Turn) :
    Turned loc c t (serve loc c t).2 (serve loc c t).1 := by
  cases t with
  | statement i =>
      dsimp only [serve]
      split
      next hg =>
        rcases hex : exec loc i c.db with e | ⟨db, r⟩
        · exact .idle _ _ (fun _ h => nomatch h)
        · exact .statement i db r hg hex
      next => exact .idle _ _ (fun _ h => nomatch h)
  | scan pid now =>
      dsimp only [serve]
      split
      next => exact .idle _ _ (fun _ h => nomatch h)
      next hfree =>
        refine .scan pid now (fun hm => hfree ?_)
        rcases List.mem_map.mp hm with ⟨s, hs, hsp⟩
        exact List.any_eq_true.mpr ⟨s, hs, decide_eq_true hsp⟩
  | loop pid env =>
      dsimp only [serve]
      split
      next => exact .idle _ _ (fun _ h => nomatch h)
      next s hfind =>
        have hs : c.scans.find? (fun q => q.1 = pid) = some (pid, s.2) := by
          have hp := List.find?_some hfind
          rw [decide_eq_true_eq] at hp
          rw [hfind, ← hp]
        split
        next hrows => exact .noRows pid env s.2 hs hrows
        next hrows =>
          split
          next hg =>
            -- A loop that fails ends its transaction, and with it its hold on the scan.
            rcases hreq : requeue loc { env with now := s.2.now } s.2.rows c.db with e | db
            · exact .release _ _ pid (fun _ h => nomatch h)
            · exact .loop pid env s.2 db hs hg hreq
          next => exact .idle _ _ (fun _ h => nomatch h)
  | cancel pid => exact .release _ _ pid (fun _ h => nomatch h)

/-- A lock that conflicts with everything is granted to one who is alone. -/
theorem grants_accessExclusive {c : Cluster} {pid : Option Nat}
    (h : c.grants pid .accessExclusive = true) : ∀ s ∈ c.scans, some s.1 = pid := by
  intro s hs
  have hall := List.all_eq_true.mp h s hs
  simpa only [LockMode.conflicts, Bool.not_true, Bool.or_false, decide_eq_true_eq] using hall

/-- The invariant of the database, and what every scan relies on. -/
structure ClusterInv (c : Cluster) : Prop where
  inv : Inv c.db
  scans : ∀ s ∈ c.scans, Scanned c.db s.2.rows

theorem ClusterInv.release {c : Cluster} (hc : ClusterInv c) (pid : Nat) :
    ClusterInv (c.release pid) :=
  ⟨hc.inv, fun s hs => hc.scans s (List.mem_filter.mp hs).1⟩

/-- After a loop nobody holds a scan. -/
theorem release_scans {c : Cluster} {pid : Nat}
    (h : c.grants (some pid) .accessExclusive = true) : (c.release pid).scans = [] := by
  refine List.filter_eq_nil_iff.mpr (fun s hs => ?_)
  have hp := Option.some.inj (grants_accessExclusive h s hs)
  simpa only [ne_eq, decide_not, Bool.not_eq_true', decide_eq_false_iff_not, not_not] using hp

/-- Every turn keeps the invariant. -/
theorem clusterInv_turned {loc : Locale} {c c' : Cluster} {t : Turn} {a : Answer}
    (hc : ClusterInv c) (ht : Turned loc c t a c') : ClusterInv c' := by
  cases ht with
  | idle t a ha => exact hc
  | statement i db r hg h =>
      refine ⟨inv_exec loc i c.db db r hc.inv h, fun s hs => ?_⟩
      -- The lock that was granted is what keeps the other scans valid.
      have hall := List.all_eq_true.mp hg s hs
      simp only [reduceCtorEq, decide_false, Bool.false_or, Bool.not_eq_true'] at hall
      exact scanned_change (hc.scans s hs) hc.inv hall (exec_change loc i c.db db r hc.inv h)
  | scan pid now hfree =>
      refine ⟨hc.inv, fun s hs => ?_⟩
      rcases List.mem_append.mp hs with hs | hs
      · exact hc.scans s hs
      · rw [List.mem_singleton.mp hs]
        exact expired_scanned now c.db hc.inv
  | release t a pid ha => exact hc.release pid
  | noRows pid env s hs hrows => exact hc.release pid
  | loop pid env s db hs hg h =>
      have hsc := hc.scans _ (List.mem_of_find?_eq_some hs)
      rcases (hsc.requeue_ok_iff hc.inv loc _ db).mp h with ⟨hf, rfl⟩
      refine ⟨inv_requeue loc _ c.db s.rows hc.inv hsc hf, fun q hq => ?_⟩
      -- The loop was alone, so no scan is left to keep.
      rw [release_scans hg] at hq
      exact absurd hq List.not_mem_nil

theorem clusterInv_turn (loc : Locale) (c : Cluster) (t : Turn) (hc : ClusterInv c) :
    ClusterInv (turn loc c t) :=
  clusterInv_turned hc (serve_turned loc c t)

theorem clusterInv_empty : ClusterInv Cluster.empty :=
  ⟨inv_empty, fun _ hs => absurd hs List.not_mem_nil⟩

/-- The invariant holds however the sessions take turns. -/
theorem cluster_inv (loc : Locale) (ts : List Turn) : ClusterInv (cluster loc ts) :=
  Machine.after_invariant (turn loc) (fun _ => True) ClusterInv
    (fun c t _ hc => clusterInv_turn loc c t hc) Cluster.empty clusterInv_empty ts (fun _ _ => trivial)

/-! ## Jobs over a turn -/

/-- The turn is a successful `job_lock` of this token. -/
def TurnLocks (t : Turn) (a : Answer) (u : String) : Prop :=
  ∃ i r, t = .statement i ∧ a = .replied r ∧ Locks i.op r u

/-- Whatever a turn does to the pool is a write like those of the statements. -/
theorem Turned.handled {loc : Locale} {c c' : Cluster} {t : Turn} {a : Answer}
    (ht : Turned loc c t a c') (hc : ClusterInv c) :
    ∃ p f jobs, Handled c.db.jobPool c'.db.jobPool (TurnLocks t a) p f jobs := by
  cases ht with
  | idle t a ha => exact ⟨_, _, _, handled_same _ _⟩
  | statement i db r hg h =>
      rcases (exec_change loc i c.db db r hc.inv h).handled with ⟨p, f, jobs, hh, -, -⟩
      refine ⟨p, f, jobs, hh.pool, hh.continues, hh.pending, fun j hp hl => ?_⟩
      exact (hh.locked j hp hl).imp_right (fun hlk => ⟨i, r, rfl, rfl, hlk⟩)
  | scan pid now hfree => exact ⟨_, _, _, handled_same _ _⟩
  | release t a pid ha => exact ⟨_, _, _, handled_same _ _⟩
  | noRows pid env s hs hrows => exact ⟨_, _, _, handled_same _ _⟩
  | loop pid env s db hs hg h =>
      have hsc := hc.scans _ (List.mem_of_find?_eq_some hs)
      rcases (hsc.requeue_ok_iff hc.inv loc _ db).mp h with ⟨-, rfl⟩
      exact ⟨_, _, _, handled_requeue _ s.rows c.db.jobPool _⟩

/-- The job with this token is closed. -/
def Closed (u : String) (db : Db) : Prop :=
  ∃ j ∈ db.jobPool, j.uptkn = u ∧ j.tf ≠ none

/-- A closed job stays closed. -/
theorem closed_turn (loc : Locale) (c : Cluster) (t : Turn) (hc : ClusterInv c) (u : String)
    (h : Closed u c.db) : Closed u (turn loc c t).db := by
  rcases (serve_turned loc c t).handled hc with ⟨p, f, jobs, hh⟩
  rcases h with ⟨j, hj, hu, hclosed⟩
  rcases hh.forth hj with ⟨j', hj', hcont⟩
  exact ⟨j', hj', hcont.uptkn.trans hu, hcont.closed hclosed⟩

/-- A token has one job, so no job of a closed token is open. -/
theorem Closed.of_mem {u : String} {db : Db} (h : Closed u db) (hi : Inv db) {j : JobRow}
    (hj : j ∈ db.jobPool) (hju : j.uptkn = u) : j.tf ≠ none := by
  rcases h with ⟨i, him, hiu, hclosed⟩
  rw [hi.pool.tokens.eq_of_mem hj him (hju.trans hiu.symm)]
  exact hclosed

/-- A closed job is in no scan that starts now. -/
theorem Closed.not_expired {u : String} {db : Db} (h : Closed u db) (hi : Inv db) (now : Time) :
    u ∉ (expired now db).map (·.uptkn) := by
  intro hm
  rcases List.mem_map.mp hm with ⟨r, hr, hru⟩
  rcases (mem_expired now db r).mp hr with ⟨j, hj, he, t, -, -, rfl⟩
  exact h.of_mem hi hj hru (isExpired_open now j he).1

/-! ## Replacements -/

/-- The tokens of the rows a loop goes over, each with the token of the job it
    creates. -/
def replacements (env : Env) (rows : List ScanRow) : List (String × String) :=
  (rows.map (·.uptkn)).zip ((freshJobs env 0 (rows.map ScanRow.request)).map (·.uptkn))

/-- The rows over which a turn loops: those of an earlier scan, or of one in the
    same statement. -/
def looped (c : Cluster) : Turn → Option (Env × List ScanRow)
  | .statement i =>
    if i.op = .jobInspector then some (i.env, expired i.env.now c.db) else none
  | .loop pid env =>
    (c.scans.find? fun s => s.1 = pid).map fun s => ({ env with now := s.2.now }, s.2.rows)
  | _ => none

/-- The jobs a turn with this answer replaces, with their replacements. -/
def replacedBy (c : Cluster) (t : Turn) : Answer → List (String × String)
  | .replied _ => (looped c t).elim [] fun q => replacements q.1 q.2
  | _ => []

/-- The jobs a turn replaces. -/
def replaced (loc : Locale) (p : Cluster × Turn) : List (String × String) :=
  replacedBy p.1 p.2 (serve loc p.1 p.2).2

theorem length_freshJobs (env : Env) (n : Nat) (rs : List Request) :
    (freshJobs env n rs).length = rs.length := by
  have h := congrArg List.length (map_freshJobs env n rs)
  simpa only [List.length_map] using h

theorem map_fst_replacements (env : Env) (rows : List ScanRow) :
    (replacements env rows).map (·.1) = rows.map (·.uptkn) := by
  refine List.map_fst_zip ?_
  rw [List.length_map, List.length_map, length_freshJobs, List.length_map]

theorem map_snd_replacements (env : Env) (rows : List ScanRow) :
    (replacements env rows).map (·.2)
      = (freshJobs env 0 (rows.map ScanRow.request)).map (·.uptkn) := by
  refine List.map_snd_zip ?_
  rw [List.length_map, List.length_map, length_freshJobs, List.length_map]

/-- A turn that replaces jobs: its rows are those of a held scan or just found,
    nobody holds a scan afterwards, and the pool is rewritten accordingly. -/
structure Requeues (c : Cluster) (t : Turn) (a : Answer) (c' : Cluster) (env : Env)
    (rows : List ScanRow) : Prop where
  scanned : Scanned c.db rows
  found : (∃ s ∈ c.scans, s.2.rows = rows) ∨ rows = expired env.now c.db
  pool : c'.db.jobPool = requeuePool env 0 rows c.db.jobPool
  scans : c'.scans = []
  eq : replacedBy c t a = replacements env rows

theorem looped_of_find {c : Cluster} {pid : Nat} {s : Scan} (env : Env)
    (hs : c.scans.find? (fun q => q.1 = pid) = some (pid, s)) :
    looped c (.loop pid env) = some ({ env with now := s.now }, s.rows) := by
  unfold looped
  dsimp only
  rw [hs, Option.map_some]

/-- A turn replaces the rows it loops over, or none, and then a loop leaves the
    database as it was. -/
theorem Turned.requeues {loc : Locale} {c c' : Cluster} {t : Turn} {a : Answer}
    (ht : Turned loc c t a c') (hc : ClusterInv c) :
    replacedBy c t a = [] ∧ (looped c t ≠ none → c'.db = c.db) ∨
      ∃ env rows, Requeues c t a c' env rows := by
  have hsilent : (∀ r, a ≠ .replied r) → replacedBy c t a = [] := by
    intro ha
    cases a with
    | replied r => exact absurd rfl (ha r)
    | _ => rfl
  cases ht with
  | idle t a ha => exact .inl ⟨hsilent ha, fun _ => rfl⟩
  | release t a pid ha => exact .inl ⟨hsilent ha, fun _ => rfl⟩
  | scan pid now hfree => exact .inl ⟨rfl, fun _ => rfl⟩
  | noRows pid env s hs hrows =>
      refine .inl ⟨?_, fun _ => rfl⟩
      unfold replacedBy
      rw [looped_of_find env hs, hrows]
      rfl
  | loop pid env s db hs hg h =>
      have hsc := hc.scans _ (List.mem_of_find?_eq_some hs)
      rcases (hsc.requeue_ok_iff hc.inv loc _ db).mp h with ⟨-, rfl⟩
      refine .inr ⟨{ env with now := s.now }, s.rows, hsc,
        .inl ⟨_, List.mem_of_find?_eq_some hs, rfl⟩, rfl, release_scans hg, ?_⟩
      unfold replacedBy
      rw [looped_of_find env hs]
      rfl
  | statement i db r hg h =>
      unfold replacedBy
      dsimp only
      by_cases hop : i.op = .jobInspector
      -- `job_inspector` waits for the scans of the others, so there is none.
      · have hnone : c.scans = [] := by
          refine List.eq_nil_iff_forall_not_mem.mpr (fun s hs => ?_)
          rw [hop] at hg
          exact absurd (grants_accessExclusive hg s hs) (Option.some_ne_none _)
        have hloop : looped c (.statement i) = some (i.env, expired i.env.now c.db) := if_pos hop
        have hch := exec_change loc i c.db db r hc.inv h
        rw [hop] at hch
        cases hch with
        | noRequeue hno =>
            refine .inl ⟨?_, fun _ => rfl⟩
            rw [hloop, Option.elim_some, hno]
            rfl
        | requeue hne hf =>
            refine .inr ⟨i.env, expired i.env.now c.db, expired_scanned _ _ hc.inv, .inr rfl, rfl,
              hnone, ?_⟩
            unfold replacedBy
            rw [hloop]
            rfl
        | redefine op db' hop h => exact hop.elim
        | restyle op db' hop h => exact hop.elim
      · have hloop : looped c (.statement i) = none := if_neg hop
        refine .inl ⟨?_, fun hne => absurd hloop hne⟩
        rw [hloop]
        rfl

/-- The same, for the turn that is served. -/
theorem replaced_cases (loc : Locale) (c : Cluster) (t : Turn) (hc : ClusterInv c) :
    replaced loc (c, t) = [] ∧ (looped c t ≠ none → (turn loc c t).db = c.db) ∨
      ∃ env rows, Requeues c t (serve loc c t).2 (turn loc c t) env rows ∧
        replaced loc (c, t) = replacements env rows := by
  rcases (serve_turned loc c t).requeues hc with hno | ⟨env, rows, hr⟩
  · exact .inl hno
  · exact .inr ⟨env, rows, hr, hr.eq⟩

/-- The job has been replaced: it is closed, and nobody is about to replace it
    again. -/
def Settled (u : String) (c : Cluster) : Prop :=
  Closed u c.db ∧ ∀ s ∈ c.scans, u ∉ s.2.rows.map (·.uptkn)

theorem settled_turned {loc : Locale} {c c' : Cluster} {t : Turn} {a : Answer}
    (ht : Turned loc c t a c') (hc : ClusterInv c) {u : String} (hu : Settled u c)
    (hclosed : Closed u c'.db) : Settled u c' := by
  refine ⟨hclosed, fun s hs => ?_⟩
  cases ht with
  | idle t a ha => exact hu.2 s hs
  | statement i db r hg h => exact hu.2 s hs
  | scan pid now hfree =>
      rcases List.mem_append.mp hs with hs | hs
      · exact hu.2 s hs
      · rw [List.mem_singleton.mp hs]
        exact hu.1.not_expired hc.inv now
  | release t a pid ha => exact hu.2 s (List.mem_filter.mp hs).1
  | noRows pid env q hq hrows => exact hu.2 s (List.mem_filter.mp hs).1
  | loop pid env q db hq hg h => exact hu.2 s (List.mem_filter.mp hs).1

/-- A job whose row is looped over has not been replaced, and now is. -/
theorem Requeues.settles {c c' : Cluster} {t : Turn} {a : Answer} {env : Env} {rows : List ScanRow}
    (hr : Requeues c t a c' env rows) (hc : ClusterInv c) {u : String}
    (hu : u ∈ rows.map (·.uptkn)) : ¬ Settled u c ∧ Settled u c' := by
  constructor
  · intro hset
    -- Rows of a held scan contradict the second half of `Settled`, fresh ones the first.
    rcases hr.found with ⟨s, hs, rfl⟩ | rfl
    · exact hset.2 s hs hu
    · exact hset.1.not_expired hc.inv _ hu
  · refine ⟨?_, fun s hs => ?_⟩
    · rcases List.mem_map.mp hu with ⟨r, hrm, rfl⟩
      rcases hr.scanned.job r hrm with ⟨j, hj, hju, -⟩
      refine ⟨abortRow env.now j, ?_, hju, Option.some_ne_none _⟩
      rw [hr.pool]
      refine List.mem_append_left _ (Table.mem_updateWhere_of_pos _ _ _ j hj ?_)
      exact decide_eq_true (hju ▸ hu)
    · rw [hr.scans] at hs
      exact absurd hs List.not_mem_nil

/-- The rows of a scan have different tokens. -/
theorem Scanned.tokens_nodup {db : Db} {rows : List ScanRow} (hs : Scanned db rows) (hi : Inv db) :
    (rows.map (·.uptkn)).Nodup := by
  refine List.pairwise_map.mpr ((List.pairwise_map.mp hs.distinct).imp_of_mem ?_)
  intro r q hr hq hne hu
  rcases hs.job r hr with ⟨i, him, hiu, hiw, hig, -⟩
  rcases hs.job q hq with ⟨j, hjm, hju, hjw, hjg, -⟩
  -- Rows of one token come from one job and so have one key.
  have hij := hi.pool.tokens.eq_of_mem him hjm (hiu.trans (hu.trans hju.symm))
  refine hne ?_
  rw [← hiw, ← hig, ← hjw, ← hjg, hij]

theorem settled_of_replaced {loc : Locale} {u : String} {c : Cluster} {t : Turn} (hc : ClusterInv c)
    (hu : u ∈ (replaced loc (c, t)).map (·.1)) : ¬ Settled u c ∧ Settled u (turn loc c t) := by
  rcases replaced_cases loc c t hc with ⟨hnil, -⟩ | ⟨env, rows, hr, heq⟩
  · rw [hnil] at hu
    exact absurd hu List.not_mem_nil
  · rw [heq, map_fst_replacements] at hu
    exact hr.settles hc hu

/-- No two turns replace the same job. -/
theorem replaced_pairwise (loc : Locale) (ts : List Turn) :
    (Machine.history (turn loc) Cluster.empty ts).Pairwise fun p q =>
      ∀ u, u ∈ (replaced loc p).map (·.1) → u ∉ (replaced loc q).map (·.1) := by
  refine Machine.history_never_after (turn loc) ClusterInv (clusterInv_turn loc)
    (fun u p => u ∈ (replaced loc p).map (·.1)) (fun u p => u ∈ (replaced loc p).map (·.1)) Settled
    ?_ ?_ ?_ Cluster.empty clusterInv_empty ts
  · intro u c t hc hu
    exact settled_turned (serve_turned loc c t) hc hu (closed_turn loc c t hc u hu.1)
  · exact fun u c t hc hu => (settled_of_replaced hc hu).2
  · exact fun u c t hc hu => (settled_of_replaced hc hu).1

/-- However the sessions take turns, no trigger of an instance has two open jobs.
    A job is replaced once at most, and the jobs that inspectors create are
    these replacements. -/
theorem open_jobs_single (loc : Locale) (ts : List Turn) :
    (openKeys (cluster loc ts).db.jobPool).Nodup ∧
      (((Machine.history (turn loc) Cluster.empty ts).flatMap (replaced loc)).map (·.1)).Nodup ∧
      ∀ p ∈ Machine.history (turn loc) Cluster.empty ts, looped p.1 p.2 ≠ none →
        (turn loc p.1 p.2).db.jobPool.map (·.uptkn)
          = p.1.db.jobPool.map (·.uptkn) ++ (replaced loc p).map (·.2) := by
  have hinv := Machine.history_states (turn loc) ClusterInv (clusterInv_turn loc) Cluster.empty
    clusterInv_empty ts
  refine ⟨(cluster_inv loc ts).inv.pool.single, ?_, ?_⟩
  · rw [List.map_flatMap, List.nodup_flatMap]
    refine ⟨fun p hp => ?_, (replaced_pairwise loc ts).imp (fun hpq u hu hv => hpq u hu hv)⟩
    rcases replaced_cases loc p.1 p.2 (hinv p hp) with ⟨hnil, -⟩ | ⟨env, rows, hr, heq⟩
    · rw [hnil]
      exact List.nodup_nil
    · rw [heq, map_fst_replacements]
      exact hr.scanned.tokens_nodup (hinv p hp).inv
  · intro p hp hloop
    rcases replaced_cases loc p.1 p.2 (hinv p hp) with ⟨hnil, hsame⟩ | ⟨env, rows, hr, heq⟩
    · rw [hnil, hsame hloop, List.map_nil, List.append_nil]
    · rw [heq, hr.pool, map_snd_replacements]
      unfold requeuePool
      rw [List.map_append, map_uptkn_abort]

/-- Two inspectors find the same job, and neither can go on before the other
    ends; the second one is cancelled. -/
def contended : List Turn :=
  tiny.map .statement ++ [.statement ⟨clock 1, .insertFlow 7 none []⟩,
    .statement ⟨clock 2, .jobLock (tokenAt 1 0) none⟩, .scan 1 20, .scan 2 21, .loop 1 (clock 22),
    .loop 2 (clock 23), .cancel 2]

/-- Then the first replaces the job. -/
theorem open_jobs_single_contended :
    replaced asciiLocale (cluster asciiLocale contended, .loop 1 (clock 24))
        = [(tokenAt 1 0, tokenAt 24 0)] ∧
      (turn asciiLocale (cluster asciiLocale contended) (.loop 1 (clock 24))).db.jobPool.map (·.uptkn)
        = [tokenAt 1 0, tokenAt 1 1, tokenAt 24 0] := by
  have hrep : replaced asciiLocale (cluster asciiLocale contended, .loop 1 (clock 24))
      = [(tokenAt 1 0, tokenAt 24 0)] := by decide +kernel
  have hpool : (cluster asciiLocale contended).db.jobPool.map (·.uptkn)
      = [tokenAt 1 0, tokenAt 1 1] := by decide +kernel
  have hloop : looped (cluster asciiLocale contended) (.loop 1 (clock 24)) ≠ none :=
    Option.isSome_iff_ne_none.mp (by decide +kernel)
  have hmem : (cluster asciiLocale contended, Turn.loop 1 (clock 24)) ∈
      Machine.history (turn asciiLocale) Cluster.empty (contended ++ [.loop 1 (clock 24)]) := by
    rw [Machine.history_concat]
    exact List.mem_append_right _ (List.mem_singleton.mpr rfl)
  have h := (open_jobs_single asciiLocale (contended ++ [.loop 1 (clock 24)])).2.2 _ hmem
  dsimp only at h
  rw [hrep, hpool] at h
  exact ⟨hrep, h hloop⟩

end WedFlow
