import WedFlow.Core.System

/-!
# What the Writers of the Job Pool Do

The functions that write `job_pool` are loops and row triggers. This module
says of each of them what it does to the table, and no later proof looks inside
the loops again.

Jobs are created at two places, when the kernel fires triggers and when
`job_inspector` replaces jobs that ran out of time. Both insert pending jobs one
after the other, each with a freshly drawn token, and both fail as a whole if
one of the tokens is taken. `freshJobs` is the list of jobs that come out, and
`Fresh` the condition under which they do.

## Main definitions

* `Request`: What a new job is made from.
* `freshJobs`: The jobs drawn for a list of requests.
* `Fresh`: The tokens of new jobs are new and distinct.
* `announcements`: The notifications of new jobs.
* `completeRow`, `lockRow`, `abortRow`: What the updates of a job write.

## Theorems

* `fireRows_ok_iff`: When the kernel's loop succeeds, and with what.
* `findJob_eq`: The token lookup.
* `jobLock_ok_iff`, `jobAbort_ok_iff`: The two client functions.
* `requeue_ok_iff`: When the loop of `job_inspector` succeeds, and with what.
-/

namespace WedFlow

/-- What a new job is made from. -/
structure Request where
  tgname : String
  tgid : Int
  wid : Int
  tout : Interval
deriving DecidableEq, Repr

/-- The request of a trigger that fires. -/
def TrigRow.request (wid : Int) (r : TrigRow) : Request :=
  ⟨r.tgname, r.tgid, wid, r.tout.getD 0⟩

/-- The request of a job that ran out of time. -/
def ScanRow.request (r : ScanRow) : Request :=
  ⟨r.tgname, r.tgid, r.wid, r.tout⟩

/-- The jobs of a list of requests, with tokens from the `n`-th draw on. -/
def freshJobs (env : Env) : Nat → List Request → List JobRow
  | _, [] => []
  | n, r :: rs =>
    pendingJob r.tgid r.wid (newUptkn env n r.tgname) r.tout :: freshJobs env (n + 1) rs

/-- The tokens of the new jobs are not in the table and distinct, up to
    case. -/
def Fresh (loc : Locale) (pool jobs : List JobRow) : Prop :=
  (∀ i ∈ pool, ∀ j ∈ jobs, loc.sqlLower i.uptkn ≠ loc.sqlLower j.uptkn) ∧
    Table.Unique (fun j => loc.sqlLower j.uptkn) jobs

instance (loc : Locale) (pool jobs : List JobRow) : Decidable (Fresh loc pool jobs) :=
  inferInstanceAs (Decidable (_ ∧ List.Nodup _))

/-- The notifications of new jobs. -/
def announcements : List JobRow → List Notice
  | [] => []
  | j :: js =>
    (if 0 ≤ j.tgid then
      [⟨"WTRG_" ++ toString j.tgid,
        "\x7b\"tgid\":" ++ toString j.tgid ++ ",\"wid\":" ++ toString j.wid ++ ",\"uptkn\":\"" ++
          j.uptkn ++ "\"\x7d"⟩]
    else []) ++ announcements js

/-- What the token lookup writes. -/
def completeRow (now : Time) (j : JobRow) : JobRow :=
  { j with tf := some now }

/-- What a lock writes. -/
def lockRow (now : Time) (lckid : Option String) (j : JobRow) : JobRow :=
  { j with
    lckid := if lckid.getD "" = "" then j.lckid else lckid
    locked := true
    aborted := false
    ti := some now }

/-- What an abort writes. -/
def abortRow (now : Time) (j : JobRow) : JobRow :=
  { j with aborted := true, tf := some now }

/-! ## New jobs -/

theorem mem_freshJobs (env : Env) (n : Nat) (rs : List Request) (j : JobRow)
    (hj : j ∈ freshJobs env n rs) :
    ∃ r ∈ rs, ∃ m, j = pendingJob r.tgid r.wid (newUptkn env m r.tgname) r.tout := by
  induction rs generalizing n with
  | nil => exact absurd hj List.not_mem_nil
  | cons r rs ih =>
      rcases List.mem_cons.mp hj with rfl | hj
      · exact ⟨r, List.mem_cons_self, n, rfl⟩
      · rcases ih (n + 1) hj with ⟨r', hr', m, hm⟩
        exact ⟨r', List.mem_cons_of_mem r hr', m, hm⟩

/-- The columns that are given at the creation are those requested, in order. -/
theorem freshJobs_columns {β : Type} (f : Int → Int → Interval → β) (env : Env) (n : Nat)
    (rs : List Request) :
    (freshJobs env n rs).map (fun j => f j.tgid j.wid j.tout)
      = rs.map fun r => f r.tgid r.wid r.tout := by
  induction rs generalizing n with
  | nil => rfl
  | cons r rs ih =>
      simp only [freshJobs, List.map_cons, ih (n + 1)]
      rfl

/-- The new jobs are for the requested triggers and instances, in order. -/
theorem map_freshJobs (env : Env) (n : Nat) (rs : List Request) :
    (freshJobs env n rs).map (fun j => (j.wid, j.tgid)) = rs.map fun r => (r.wid, r.tgid) :=
  freshJobs_columns (fun g w _ => (w, g)) env n rs

theorem fresh_nil (loc : Locale) (pool : List JobRow) : Fresh loc pool [] :=
  ⟨fun _ _ _ hj => absurd hj List.not_mem_nil, List.nodup_nil⟩

/-- Creating the jobs one after the other checks each against those before
    it. -/
theorem fresh_cons (loc : Locale) (pool : List JobRow) (j : JobRow) (js : List JobRow) :
    Fresh loc pool (j :: js) ↔
      (∀ i ∈ pool, loc.sqlLower i.uptkn ≠ loc.sqlLower j.uptkn) ∧ Fresh loc (pool ++ [j]) js := by
  unfold Fresh Table.Unique
  simp only [List.map_cons, List.nodup_cons, List.mem_map, not_exists, not_and,
    List.mem_append, List.mem_cons, List.not_mem_nil, or_false]
  constructor
  · intro h
    refine ⟨fun i hi => h.1 i hi j (.inl rfl), ?_, h.2.2⟩
    intro i hi k hk
    rcases hi with hi | rfl
    · exact h.1 i hi k (.inr hk)
    · exact fun he => h.2.1 k hk he.symm
  · intro h
    refine ⟨?_, fun k hk he => h.2.1 j (.inr rfl) k hk he.symm, h.2.2⟩
    intro i hi k hk
    rcases hk with rfl | hk
    · exact h.1 i hi
    · exact h.2.1 i (.inl hi) k hk

/-- Only the tokens in the table matter. -/
theorem fresh_congr (loc : Locale) (pool pool' jobs : List JobRow)
    (h : pool'.map (·.uptkn) = pool.map (·.uptkn)) : Fresh loc pool' jobs ↔ Fresh loc pool jobs := by
  have hall : ∀ k : JobRow, (∀ i ∈ pool', loc.sqlLower i.uptkn ≠ loc.sqlLower k.uptkn) ↔
      ∀ i ∈ pool, loc.sqlLower i.uptkn ≠ loc.sqlLower k.uptkn := by
    intro k
    have hmap : ∀ q : List JobRow, (∀ i ∈ q, loc.sqlLower i.uptkn ≠ loc.sqlLower k.uptkn) ↔
        ∀ u ∈ q.map (·.uptkn), loc.sqlLower u ≠ loc.sqlLower k.uptkn := by
      intro q
      simp only [List.mem_map, forall_exists_index, and_imp, forall_apply_eq_imp_iff₂]
    rw [hmap pool', hmap pool, h]
  unfold Fresh
  constructor
  · intro hf
    exact ⟨fun i hi j hj => (hall j).mp (fun i hi => hf.1 i hi j hj) i hi, hf.2⟩
  · intro hf
    exact ⟨fun i hi j hj => (hall j).mpr (fun i hi => hf.1 i hi j hj) i hi, hf.2⟩

theorem any_iff_mem_map {ρ : Type} (key : ρ → Int) (t : List ρ) (k : Int) :
    (t.any fun r => decide (key r = k)) = true ↔ k ∈ t.map key := by
  simp only [List.any_eq_true, decide_eq_true_eq, List.mem_map]

/-- An insert into `job_pool` needs a timeout, a new token, and the two keys it
    refers to. -/
theorem insertJob_ok_iff (loc : Locale) (tgid wid : Int) (uptkn : String) (tout : Option Interval)
    (db db' : Db) :
    insertJob loc tgid wid uptkn tout db = .ok db' ↔
      tout.isSome ∧ (∀ i ∈ db.jobPool, loc.sqlLower i.uptkn ≠ loc.sqlLower uptkn) ∧
        tgid ∈ db.wedTrig.map (·.tgid) ∧ wid ∈ db.wedFlow.map (·.wid) ∧
        db' = { db with jobPool := db.jobPool ++ [pendingJob tgid wid uptkn (tout.getD 0)] } := by
  unfold insertJob
  cases tout with
  | none => simp only [reduceCtorEq, Option.isSome_none, Bool.false_eq_true, false_and]
  | some t =>
      have htok : ¬ (db.jobPool.any fun j => decide (loc.sqlLower j.uptkn = loc.sqlLower uptkn)) = true
          ↔ ∀ i ∈ db.jobPool, loc.sqlLower i.uptkn ≠ loc.sqlLower uptkn := by
        simp only [List.any_eq_true, decide_eq_true_eq, ne_eq, not_exists, not_and]
      simp only [Option.isSome_some, true_and, Option.getD_some]
      rw [Table.guard_eq_ok, htok, Table.check_eq_ok, any_iff_mem_map, Table.check_eq_ok,
        any_iff_mem_map, Except.ok.injEq, eq_comm]

theorem notifyJob_eq (tgid wid : Int) (uptkn : String) (tout : Interval) (db : Db) :
    notifyJob tgid wid uptkn db =
      { db with notices := db.notices ++ announcements [pendingJob tgid wid uptkn tout] } := by
  unfold notifyJob announcements announcements
  by_cases h : 0 ≤ tgid
  · rw [if_pos h, if_pos (show 0 ≤ (pendingJob tgid wid uptkn tout).tgid from h)]
    rfl
  · rw [if_neg h, if_neg (show ¬ 0 ≤ (pendingJob tgid wid uptkn tout).tgid from h), List.append_nil,
      List.append_nil]

/-- New jobs in the table, each with its notification. -/
def issueJobs (jobs : List JobRow) (db : Db) : Db :=
  { db with jobPool := db.jobPool ++ jobs, notices := db.notices ++ announcements jobs }

theorem issueJobs_nil (db : Db) : issueJobs [] db = db := by
  simp only [issueJobs, announcements, List.append_nil]

theorem issueJobs_cons (j : JobRow) (js : List JobRow) (db : Db) :
    issueJobs (j :: js) db = issueJobs js (issueJobs [j] db) := by
  simp only [issueJobs, announcements, List.append_assoc, List.cons_append, List.nil_append,
    List.append_nil]

/-- The kernel's loop: it succeeds exactly if every trigger that is due has a
    timeout and all the tokens drawn are new, and then creates one job for each
    of them. -/
theorem fireRows_ok_iff (loc : Locale) (env : Env) (wid : Int) (ptrg : List Int)
    (rows : List TrigRow) (n : Nat) (db db' : Db) (ftrg fired : List Int)
    (hrows : ∀ r ∈ rows, r.tgid ∈ db.wedTrig.map (·.tgid)) (hwid : wid ∈ db.wedFlow.map (·.wid)) :
    fireRows loc env wid ptrg rows n db ftrg = .ok (db', fired) ↔
      (∀ r ∈ rows.filter (fun r => r.tgid ∉ ptrg), r.tout.isSome) ∧
        Fresh loc db.jobPool (freshJobs env n
          ((rows.filter fun r => r.tgid ∉ ptrg).map (TrigRow.request wid))) ∧
        db' = issueJobs (freshJobs env n
          ((rows.filter fun r => r.tgid ∉ ptrg).map (TrigRow.request wid))) db ∧
        fired = ftrg ++ (rows.filter fun r => r.tgid ∉ ptrg).map (·.tgid) := by
  induction rows generalizing n db ftrg with
  | nil =>
      simp only [fireRows, List.filter_nil, List.map_nil, freshJobs, issueJobs_nil,
        List.append_nil, Except.ok.injEq, Prod.mk.injEq]
      constructor
      · intro h
        exact ⟨fun r hr => absurd hr List.not_mem_nil, fresh_nil loc _, h.1.symm, h.2.symm⟩
      · intro h
        exact ⟨h.2.2.1.symm, h.2.2.2.symm⟩
  | cons r rs ih =>
      have hrs : ∀ q ∈ rs, q.tgid ∈ db.wedTrig.map (·.tgid) :=
        fun q hq => hrows q (List.mem_cons_of_mem r hq)
      unfold fireRows
      by_cases hp : r.tgid ∈ ptrg
      · rw [if_pos hp, List.filter_cons_of_neg (by simpa only [decide_not, Bool.not_eq_true',
          decide_eq_false_iff_not, not_not] using hp)]
        exact ih n db ftrg hrs hwid
      · rw [if_neg hp, List.filter_cons_of_pos (by simpa only [decide_not, Bool.not_eq_true',
          decide_eq_false_iff_not] using hp), Table.bind_eq_ok]
        simp only [List.map_cons, freshJobs, fresh_cons, List.forall_mem_cons]
        -- The rest of the loop runs on the table with the new job in it.
        set j := pendingJob r.tgid wid (newUptkn env n r.tgname) (r.tout.getD 0) with hj
        have hih := ih (n + 1) (issueJobs [j] db) (ftrg ++ [r.tgid]) hrs hwid
        constructor
        · intro h
          rcases h with ⟨db₁, hins, hrest⟩
          rcases (insertJob_ok_iff loc _ _ _ _ _ _).mp hins with ⟨hout, htok, -, -, rfl⟩
          rw [notifyJob_eq _ _ _ (r.tout.getD 0)] at hrest
          rcases hih.mp hrest with ⟨houts, hfresh, hdb, hf⟩
          refine ⟨⟨hout, houts⟩, ⟨htok, hfresh⟩, ?_, ?_⟩
          · rw [hdb, ← issueJobs_cons]
            rfl
          · rw [hf, List.append_assoc]
            rfl
        · intro h
          rcases h with ⟨⟨hout, houts⟩, ⟨htok, hfresh⟩, hdb, hf⟩
          refine ⟨_, (insertJob_ok_iff loc _ _ _ _ _ _).mpr
            ⟨hout, htok, hrows r List.mem_cons_self, hwid, rfl⟩, ?_⟩
          rw [notifyJob_eq _ _ _ (r.tout.getD 0)]
          refine hih.mpr ⟨houts, hfresh, ?_, ?_⟩
          · rw [hdb, issueJobs_cons]
            rfl
          · rw [hf, List.append_assoc]
            rfl

/-! ## The token lookup -/

/-- The rows the token lookup selects. -/
def isRunning (uptkn : String) (j : JobRow) : Bool :=
  j.uptkn = uptkn && j.locked && j.tf = none

theorem isRunning_iff (uptkn : String) (j : JobRow) :
    isRunning uptkn j = true ↔ j.uptkn = uptkn ∧ j.locked = true ∧ j.tf = none := by
  simp only [isRunning, Bool.and_eq_true, decide_eq_true_eq, and_assoc]

/-- With the trigger off an update is a plain one. -/
theorem updateJobPool_off (now : Time) (p : JobRow → Bool) (f : JobRow → JobRow) (db : Db)
    (hoff : db.lockJob = false) :
    updateJobPool now p f db =
      .ok ({ db with jobPool := Table.updateWhere p f db.jobPool }, (db.jobPool.filter p).map f) := by
  have hfire : fireLockJob db.lockJob now = fun _ new => .ok (some new) := by
    rw [hoff]
    rfl
  unfold updateJobPool
  rw [hfire, Table.updateTriggered_plain]
  rfl

/-- The lookup closes the running job with a token, if there is one, and leaves
    the trigger on. -/
theorem findJob_eq (env : Env) (uptkn : String) (db : Db) :
    findJob env uptkn db = .ok
      ({ db with
          jobPool := Table.updateWhere (isRunning uptkn) (completeRow env.now) db.jobPool
          lockJob := true },
        ((db.jobPool.filter (isRunning uptkn)).map (completeRow env.now)).head?) := by
  unfold findJob
  rw [updateJobPool_off env.now _ _ { db with lockJob := false } rfl]
  rfl

/-! ## Locking and aborting -/

/-- What stands in the table under a token. -/
def jobOf (db : Db) (uptkn : String) : Option JobRow :=
  db.jobPool.find? fun j => j.uptkn = uptkn

theorem jobOf_some (db : Db) (uptkn : String) (j : JobRow) (h : jobOf db uptkn = some j) :
    j ∈ db.jobPool ∧ j.uptkn = uptkn := by
  have hp := List.find?_some h
  simp only [decide_eq_true_eq] at hp
  exact ⟨List.mem_of_find?_eq_some h, hp⟩

theorem jobOf_none (db : Db) (uptkn : String) (h : jobOf db uptkn = none) :
    ∀ j ∈ db.jobPool, j.uptkn ≠ uptkn := by
  intro j hj hk
  exact (Table.find_eq_none_iff JobRow.uptkn db.jobPool uptkn).mp h (List.mem_map.mpr ⟨j, hj, hk⟩)

/-- Tokens are unique, so what stands under the token of a job is the job. -/
theorem jobOf_eq (db : Db) (htok : Table.Unique (·.uptkn) db.jobPool) (j : JobRow)
    (hj : j ∈ db.jobPool) : jobOf db j.uptkn = some j :=
  (htok.find_eq_some_iff j.uptkn j).mpr ⟨hj, rfl⟩

/-- An update of one job, written over the row under its token. -/
def writeJob (uptkn : String) (f : JobRow → JobRow) (db : Db) : Db :=
  { db with jobPool := Table.updateWhere (fun j => j.uptkn = uptkn) f db.jobPool }

/-- An update by token through the trigger: what the trigger does with the one
    row that has it. -/
theorem updateJobPool_token (now : Time) (uptkn : String) (f : JobRow → JobRow) (db : Db)
    (hon : db.lockJob = true) (htok : Table.Unique (·.uptkn) db.jobPool) :
    updateJobPool now (fun j => j.uptkn = uptkn) f db =
      match jobOf db uptkn with
      | none => .ok (db, [])
      | some j =>
        match setJobLock now j (f j) with
        | .error e => .error e
        | .ok none => .ok (db, [])
        | .ok (some j') => .ok (writeJob uptkn (fun _ => j') db, [j']) := by
  have hfire : fireLockJob db.lockJob now = setJobLock now := by
    rw [hon]
    rfl
  unfold updateJobPool
  rw [hfire]
  rcases hj : jobOf db uptkn with _ | j
  -- Without such a job the update selects no row, and no trigger fires.
  · have hno : ∀ j ∈ db.jobPool, decide (j.uptkn = uptkn) = false := by
      intro j hm
      exact decide_eq_false (jobOf_none db uptkn hj j hm)
    rw [Table.updateTriggered_none _ _ f db.jobPool hno]
    rfl
  · rcases jobOf_some db uptkn j hj with ⟨hm, hk⟩
    rw [Table.updateTriggered_unique _ (·.uptkn) uptkn f db.jobPool htok j hm hk]
    dsimp only
    rcases setJobLock now j (f j) with e | j' | j'
    · rfl
    · rfl
    · rfl

/-- Writing a value over the one row with a token, or rewriting that row to
    it. -/
theorem writeJob_const (db : Db) (htok : Table.Unique (·.uptkn) db.jobPool) (j : JobRow)
    (f : JobRow → JobRow) (hj : j ∈ db.jobPool) :
    writeJob j.uptkn (fun _ => f j) db = writeJob j.uptkn f db := by
  unfold writeJob
  rw [Table.updateWhere_congr _ (fun _ => f j) f db.jobPool]
  intro i hi hk
  rw [htok.eq_of_mem hi hj (of_decide_eq_true hk)]

/-- The row trigger lets a lock through if the job is not locked yet. -/
theorem setJobLock_lock (now : Time) (lckid : Option String) (j : JobRow) :
    setJobLock now j (lockRequest lckid j) =
      if j.locked then .error (.alreadyLocked j.uptkn) else .ok (some (lockRow now lckid j)) := by
  have hreq : lockRequest lckid j
      = { j with locked := true, lckid := if lckid.getD "" = "" then j.lckid else lckid } := by
    unfold lockRequest
    cases lckid with
    | none => rfl
    | some l =>
        by_cases hl : l = ""
        · simp only [hl, if_true, Option.getD_some]
        · simp only [hl, if_false, Option.getD_some]
  unfold setJobLock
  rw [hreq]
  cases hl : j.locked with
  | true =>
      cases ha : j.aborted with
      | true => rfl
      | false => rfl
  | false => rfl

/-- The row trigger lets an abort through if the job is locked and not aborted
    yet; it skips a job that is not locked. -/
theorem setJobLock_abort (now : Time) (j : JobRow) :
    setJobLock now j { j with aborted := true } =
      if j.locked then
        if j.aborted then .error (.alreadyLocked j.uptkn) else .ok (some (abortRow now j))
      else .ok none := by
  unfold setJobLock abortRow
  cases hl : j.locked with
  | true =>
      cases ha : j.aborted with
      | true => rfl
      | false => rfl
  | false => rfl

/-- A lock that goes through found no job and answers false, or found one that
    was not locked, and answers true. -/
theorem jobLock_ok_iff (now : Time) (uptkn : String) (lckid : Option String) (db db' : Db)
    (b : Bool) (hon : db.lockJob = true) (htok : Table.Unique (·.uptkn) db.jobPool) :
    jobLock now uptkn lckid db = .ok (db', b) ↔
      (jobOf db uptkn = none ∧ db' = db ∧ b = false) ∨
      (∃ j, jobOf db uptkn = some j ∧ j.locked = false ∧
        db' = writeJob uptkn (lockRow now lckid) db ∧ b = true) := by
  unfold jobLock
  rw [updateJobPool_token now uptkn _ db hon htok]
  rcases hj : jobOf db uptkn with _ | j
  · simp only [bind, Except.bind, pure, Except.pure, List.isEmpty_nil, Bool.not_true,
      Except.ok.injEq, Prod.mk.injEq, true_and, reduceCtorEq, false_and, exists_false, or_false,
      eq_comm]
  · rcases jobOf_some db uptkn j hj with ⟨hm, rfl⟩
    simp only [reduceCtorEq, false_and, false_or, Option.some.injEq, exists_eq_left',
      setJobLock_lock]
    cases hl : j.locked with
    | true =>
        simp only [if_true, bind, Except.bind, reduceCtorEq, false_and]
    | false =>
        simp only [Bool.false_eq_true, if_false, bind, Except.bind, pure, Except.pure,
          Except.ok.injEq, Prod.mk.injEq, writeJob_const db htok j _ hm, List.isEmpty_cons,
          Bool.not_false, true_and, eq_comm]

/-- An abort that goes through found no job, or found one that is not locked,
    and answers false; or it found a locked job and marks it. A job that has
    been completed is marked as well. -/
theorem jobAbort_ok_iff (now : Time) (uptkn : String) (db db' : Db) (b : Bool)
    (hon : db.lockJob = true) (htok : Table.Unique (·.uptkn) db.jobPool) :
    jobAbort now uptkn db = .ok (db', b) ↔
      ((∀ j, jobOf db uptkn = some j → j.locked = false) ∧ db' = db ∧ b = false) ∨
      (∃ j, jobOf db uptkn = some j ∧ j.locked = true ∧ j.aborted = false ∧
        db' = writeJob uptkn (abortRow now) db ∧ b = true) := by
  unfold jobAbort
  rw [updateJobPool_token now uptkn _ db hon htok]
  rcases hj : jobOf db uptkn with _ | j
  · simp only [bind, Except.bind, pure, Except.pure, List.isEmpty_nil, Bool.not_true,
      Except.ok.injEq, Prod.mk.injEq, reduceCtorEq, false_and, exists_false, or_false,
      false_imp_iff, implies_true, true_and, eq_comm]
  · rcases jobOf_some db uptkn j hj with ⟨hm, rfl⟩
    simp only [Option.some.injEq, forall_eq', exists_eq_left', setJobLock_abort]
    cases hl : j.locked with
    | true =>
        cases ha : j.aborted with
        | true =>
            simp only [if_true, bind, Except.bind, reduceCtorEq, false_and, and_false, or_self]
        | false =>
            simp only [Bool.false_eq_true, if_true, if_false, bind, Except.bind, pure, Except.pure,
              Except.ok.injEq, Prod.mk.injEq, writeJob_const db htok j _ hm, List.isEmpty_cons,
              Bool.not_false, false_and, false_or, true_and, eq_comm]
    | false =>
        simp only [Bool.false_eq_true, if_false, bind, Except.bind, pure, Except.pure,
          List.isEmpty_nil, Bool.not_true, Except.ok.injEq, Prod.mk.injEq, true_and, false_and,
          or_false, eq_comm]

/-! ## Replacing the expired jobs -/

/-- The rows of the table whose tokens are in a scan. -/
def inScan (rows : List ScanRow) (j : JobRow) : Bool :=
  j.uptkn ∈ rows.map (·.uptkn)

/-- What the loop writes into the table: the scanned jobs marked, and one new
    job for each of them. -/
def requeuePool (env : Env) (n : Nat) (rows : List ScanRow) (pool : List JobRow) : List JobRow :=
  Table.updateWhere (inScan rows) (abortRow env.now) pool ++
    freshJobs env n (rows.map ScanRow.request)

/-- Marking keeps every column that is ever used as a key. -/
theorem map_uptkn_abort (now : Time) (p : JobRow → Bool) (pool : List JobRow) :
    (Table.updateWhere p (abortRow now) pool).map (·.uptkn) = pool.map (·.uptkn) :=
  Table.map_updateWhere _ _ _ _ (fun _ _ _ => rfl)

/-- Marking the jobs of a scan one token after the other. -/
theorem updateWhere_inScan_cons (now : Time) (r : ScanRow) (rs : List ScanRow)
    (pool : List JobRow) :
    Table.updateWhere (inScan rs) (abortRow now)
        (Table.updateWhere (fun j => j.uptkn = r.uptkn) (abortRow now) pool)
      = Table.updateWhere (inScan (r :: rs)) (abortRow now) pool := by
  unfold Table.updateWhere
  rw [List.map_map]
  refine List.map_congr_left (fun j _ => ?_)
  simp only [Function.comp, inScan, List.map_cons, List.mem_cons, decide_eq_true_eq]
  by_cases h1 : j.uptkn = r.uptkn
  · by_cases h2 : r.uptkn ∈ rs.map (·.uptkn)
    · simp only [h1, if_true, true_or, abortRow, h2]
    · simp only [h1, if_true, true_or, abortRow, h2, if_false]
  · simp only [h1, if_false, false_or]

/-- The loop of `job_inspector` succeeds exactly if all the tokens drawn are
    new. The scanned tokens are in the table, so none of the new ones is marked
    by a later round. -/
theorem requeueRows_ok_iff (loc : Locale) (env : Env) (rows : List ScanRow) (n : Nat)
    (db db' : Db) (hoff : db.lockJob = false)
    (htok : ∀ r ∈ rows, r.uptkn ∈ db.jobPool.map (·.uptkn))
    (htrig : ∀ r ∈ rows, r.tgid ∈ db.wedTrig.map (·.tgid))
    (hflow : ∀ r ∈ rows, r.wid ∈ db.wedFlow.map (·.wid)) :
    requeueRows loc env rows n db = .ok db' ↔
      Fresh loc db.jobPool (freshJobs env n (rows.map ScanRow.request)) ∧
        db' = { db with jobPool := requeuePool env n rows db.jobPool } := by
  induction rows generalizing n db with
  | nil =>
      have hpool : requeuePool env n [] db.jobPool = db.jobPool := by
        unfold requeuePool
        rw [Table.updateWhere_of_forall_not (inScan []) _ _ (fun _ _ => rfl)]
        exact List.append_nil _
      simp only [requeueRows, hpool, Except.ok.injEq, List.map_nil, freshJobs, eq_comm]
      exact ⟨fun h => ⟨fresh_nil loc _, h⟩, fun h => h.2⟩
  | cons r rs ih =>
      set pool₁ := Table.updateWhere (fun j => j.uptkn = r.uptkn) (abortRow env.now) db.jobPool
        with hpool₁
      set j := pendingJob r.tgid r.wid (newUptkn env n r.tgname) r.tout with hj
      have hmap : pool₁.map (·.uptkn) = db.jobPool.map (·.uptkn) := map_uptkn_abort _ _ _
      have hmem : ∀ u ∈ db.jobPool.map (·.uptkn), u ∈ (pool₁ ++ [j]).map (·.uptkn) := by
        intro u hu
        rw [List.map_append, List.mem_append, hmap]
        exact .inl hu
      have hih := ih (n + 1) { db with jobPool := pool₁ ++ [j] } hoff
        (fun q hq => hmem _ (htok q (List.mem_cons_of_mem r hq)))
        (fun q hq => htrig q (List.mem_cons_of_mem r hq))
        (fun q hq => hflow q (List.mem_cons_of_mem r hq))
      have hfresh : Fresh loc db.jobPool (freshJobs env n ((r :: rs).map ScanRow.request)) ↔
          (∀ i ∈ pool₁, loc.sqlLower i.uptkn ≠ loc.sqlLower j.uptkn) ∧
            Fresh loc (pool₁ ++ [j]) (freshJobs env (n + 1) (rs.map ScanRow.request)) := by
        rw [← fresh_congr loc db.jobPool pool₁ _ hmap, ← fresh_cons]
        rfl
      -- The new job is not in the scan, so the later rounds pass it by.
      have hnew : (∀ i ∈ pool₁, loc.sqlLower i.uptkn ≠ loc.sqlLower j.uptkn) →
          requeuePool env (n + 1) rs (pool₁ ++ [j]) = requeuePool env n (r :: rs) db.jobPool := by
        intro hne
        have hout : ∀ i ∈ [j], inScan rs i = false := by
          intro i hi
          rw [List.mem_singleton.mp hi]
          refine decide_eq_false (fun hin => ?_)
          rcases List.mem_map.mp hin with ⟨q, hq, hqu⟩
          have hq' := htok q (List.mem_cons_of_mem r hq)
          rw [← hmap] at hq'
          rcases List.mem_map.mp hq' with ⟨i', hi', hiu⟩
          exact hne i' hi' (by rw [hiu, hqu])
        unfold requeuePool
        rw [Table.updateWhere_append, Table.updateWhere_of_forall_not _ _ [j] hout,
          updateWhere_inScan_cons, List.append_assoc]
        rfl
      unfold requeueRows
      rw [updateJobPool_off _ _ _ db hoff]
      simp only [bind, Except.bind]
      change (insertJob loc r.tgid r.wid _ (some r.tout) { db with jobPool := pool₁ } >>= fun db =>
        requeueRows loc env rs (n + 1) db) = .ok db' ↔ _
      rw [Table.bind_eq_ok, hfresh]
      constructor
      · intro h
        rcases h with ⟨db₁, hins, hrest⟩
        rcases (insertJob_ok_iff loc _ _ _ _ _ _).mp hins with ⟨-, hne, -, -, rfl⟩
        rcases hih.mp hrest with ⟨hf, hdb⟩
        refine ⟨⟨hne, hf⟩, ?_⟩
        rw [hdb, ← hnew hne]
      · intro h
        rcases h with ⟨⟨hne, hf⟩, hdb⟩
        refine ⟨_, (insertJob_ok_iff loc _ _ _ _ _ _).mpr ⟨rfl, hne,
          htrig r List.mem_cons_self, hflow r List.mem_cons_self, rfl⟩, ?_⟩
        refine hih.mpr ⟨hf, ?_⟩
        rw [hdb, hnew hne]

/-- The loop with the trigger off around it. -/
theorem requeue_ok_iff (loc : Locale) (env : Env) (rows : List ScanRow) (db db' : Db)
    (htok : ∀ r ∈ rows, r.uptkn ∈ db.jobPool.map (·.uptkn))
    (htrig : ∀ r ∈ rows, r.tgid ∈ db.wedTrig.map (·.tgid))
    (hflow : ∀ r ∈ rows, r.wid ∈ db.wedFlow.map (·.wid)) :
    requeue loc env rows db = .ok db' ↔
      Fresh loc db.jobPool (freshJobs env 0 (rows.map ScanRow.request)) ∧
        db' = { db with jobPool := requeuePool env 0 rows db.jobPool, lockJob := true } := by
  have hrows := fun db₁ => requeueRows_ok_iff loc env rows 0 { db with lockJob := false } db₁ rfl
    htok htrig hflow
  unfold requeue
  rw [Table.bind_eq_ok]
  constructor
  · intro h
    rcases h with ⟨db₁, hr, he⟩
    rcases (hrows db₁).mp hr with ⟨hf, rfl⟩
    exact ⟨hf, (Except.ok.inj he).symm⟩
  · intro h
    exact ⟨_, (hrows _).mpr ⟨h.1, rfl⟩, by rw [h.2]; rfl⟩

/-- A row of the scan is an expired job with its trigger. -/
theorem mem_expired (now : Time) (db : Db) (r : ScanRow) :
    r ∈ expired now db ↔ ∃ j ∈ db.jobPool, isExpired now j = true ∧
      ∃ t ∈ db.wedTrig, t.tgid = j.tgid ∧ r = ⟨t.tgname, t.tgid, j.wid, j.uptkn, j.tout⟩ := by
  unfold expired
  rw [List.mem_flatMap]
  constructor
  · intro h
    rcases h with ⟨j, hj, hr⟩
    by_cases he : isExpired now j = true
    · rw [if_pos he, List.mem_map] at hr
      rcases hr with ⟨t, ht, hr⟩
      rw [List.mem_filter, decide_eq_true_eq] at ht
      exact ⟨j, hj, he, t, ht.1, ht.2, hr.symm⟩
    · rw [if_neg he] at hr
      exact absurd hr List.not_mem_nil
  · intro h
    rcases h with ⟨j, hj, he, t, ht, htj, rfl⟩
    refine ⟨j, hj, ?_⟩
    rw [if_pos he, List.mem_map]
    exact ⟨t, List.mem_filter.mpr ⟨ht, decide_eq_true htj⟩, rfl⟩

theorem isExpired_open (now : Time) (j : JobRow) (h : isExpired now j = true) :
    j.tf = none ∧ j.ti.isSome := by
  unfold isExpired at h
  rw [Bool.and_eq_true, decide_eq_true_eq] at h
  refine ⟨h.1, ?_⟩
  cases hti : j.ti with
  | none =>
      rw [hti] at h
      exact absurd h.2 Bool.false_ne_true
  | some t => rfl

end WedFlow
