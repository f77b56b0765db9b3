import WedFlow.Core.Workers
import WedFlow.Theory.Lifecycle

/-!
# Tokens

The life of a job's token, over every run of any number of clients, workers and
inspectors. A token goes through two states that are never left: its job is
locked, and its job is closed. `job_lock` needs the first not to have happened
and makes it happen. An update that spends the token needs the first and not the
second, and makes the second happen, as an abort and a replacement do.

From there the order of events is a matter of the two rules for histories: what
is spent stays spent, and what is needed was once provided. So a lock is granted
once, an update goes through once, after the lock and after no abort, and of all
the workers that were told of the job at most one runs its transition.

## Main definitions

* `Held`: The job with a token is locked.
* `locksJob`, `spendsJob`, `abortsJob`: What a turn may do with a token.
* `UpdatesRow`: Exactly one instance is rewritten.

## Theorems

* `held_of_locks`, `closed_of_aborts`: What a turn brings about.
* `held_origin`: Only `job_lock` locks.
* `spends_cases`: What an update that spends a token needs and does.
* `continues_after`: A job keeps its identity over a run.
* `tokens_spent_once`: The protocol, and what the workers get from it.
-/

namespace WedFlow

/-- The job with this token is locked. -/
def Held (u : String) (db : Db) : Prop :=
  ∃ j ∈ db.jobPool, j.uptkn = u ∧ j.locked = true

/-- The turn is a `job_lock` of this token that returned true. -/
def locksJob (loc : Locale) (u : String) (p : Cluster × Turn) : Bool :=
  match p.2 with
  | .statement ⟨_, .jobLock v _⟩ => v = u && (serve loc p.1 p.2).2 = .replied (.bool true)
  | _ => false

/-- The turn is an update with this token, and it went through. -/
def spendsJob (loc : Locale) (u : String) (p : Cluster × Turn) : Bool :=
  match p.2 with
  | .statement i => carried p.1.db i.op = some u && (serve loc p.1 p.2).2 = .replied (.rows 1)
  | _ => false

/-- The turn is a `job_abort` of this token that returned true, or an inspector
    replaces its job. -/
def abortsJob (loc : Locale) (u : String) (p : Cluster × Turn) : Bool :=
  (match p.2 with
    | .statement i => i.op = .jobAbort u && (serve loc p.1 p.2).2 = .replied (.bool true)
    | _ => false) || u ∈ (replaced loc p).map (·.1)

/-- The instance is there, and it is the one whose row is rewritten. -/
def UpdatesRow (wid : Int) (db db' : Db) : Prop :=
  wid ∈ db.wedFlow.map (·.wid) ∧ ∃ new : FlowRow, new.wid = wid ∧
    db'.wedFlow = Table.updateWhere (fun r => r.wid = wid) (fun _ => new) db.wedFlow

/-! ## Single turns -/

/-- A turn that got a reply to a statement executed it. -/
theorem exec_of_replied {loc : Locale} {c : Cluster} {i : Input} {r : Reply}
    (h : (serve loc c (.statement i)).2 = .replied r) :
    exec loc i c.db = .ok ((turn loc c (.statement i)).db, r) := by
  unfold turn
  have ht := serve_turned loc c (.statement i)
  generalize (serve loc c (.statement i)).1 = c' at ht
  rw [h] at ht
  -- Of the turns only an executed statement is replied to in this way.
  cases ht with
  | idle t a ha => exact absurd rfl (ha r)
  | statement i db r hg hex => exact hex
  | release t a pid ha => exact absurd rfl (ha r)

theorem locksJob_iff (loc : Locale) (u : String) (c : Cluster) (t : Turn) :
    locksJob loc u (c, t) = true ↔ TurnLocks t (serve loc c t).2 u := by
  unfold locksJob
  dsimp only
  constructor
  · intro h
    split at h
    next env v lckid =>
      rw [Bool.and_eq_true, decide_eq_true_eq, decide_eq_true_eq] at h
      rw [h.2, h.1]
      exact ⟨⟨env, .jobLock u lckid⟩, .bool true, rfl, rfl, lckid, rfl, rfl⟩
    next => exact absurd h Bool.false_ne_true
  · intro h
    rcases h with ⟨⟨env, op⟩, r, rfl, ha, lckid, hop, rfl⟩
    subst hop
    rw [ha]
    simp only [decide_true, Bool.and_self]

/-- What a turn with a reply to a statement did. -/
theorem change_of_replied {loc : Locale} {c : Cluster} {i : Input} {r : Reply} (hc : ClusterInv c)
    (h : (serve loc c (.statement i)).2 = .replied r) :
    Change loc i.env c.db i.op r (turn loc c (.statement i)).db :=
  exec_change loc i c.db _ r hc.inv (exec_of_replied h)

/-- A job that is written stands in the pool as it was written. -/
theorem mem_writeJob (db : Db) (f : JobRow → JobRow) {j : JobRow} (hj : j ∈ db.jobPool) :
    f j ∈ (writeJob j.uptkn f db).jobPool :=
  Table.mem_updateWhere_of_pos _ _ _ j hj (decide_eq_true rfl)

/-- A lock is granted to a job that is not locked, and locks it. -/
theorem held_of_locks {loc : Locale} {u : String} {c : Cluster} {t : Turn} (hc : ClusterInv c)
    (h : locksJob loc u (c, t) = true) : ¬ Held u c.db ∧ Held u (turn loc c t).db := by
  rcases (locksJob_iff loc u c t).mp h with ⟨⟨env, op⟩, r, rfl, ha, lckid, hop, rfl⟩
  subst hop
  have hch := change_of_replied hc ha
  generalize (turn loc c _).db = db' at hch
  cases hch with
  | lock v l j hj hl =>
      rcases jobOf_some c.db u j hj with ⟨hjm, hju⟩
      constructor
      · intro hheld
        rcases hheld with ⟨i, him, hiu, hil⟩
        rw [hc.inv.pool.tokens.eq_of_mem him hjm (hiu.trans hju.symm), hl] at hil
        exact Bool.false_ne_true hil
      · rw [← hju]
        exact ⟨_, mem_writeJob c.db _ hjm, rfl, rfl⟩

/-- A locked job stays locked. -/
theorem held_turn (loc : Locale) (c : Cluster) (t : Turn) (hc : ClusterInv c) (u : String)
    (h : Held u c.db) : Held u (turn loc c t).db := by
  rcases (serve_turned loc c t).handled hc with ⟨p, f, jobs, hh⟩
  rcases h with ⟨j, hj, hu, hl⟩
  rcases hh.forth hj with ⟨j', hj', hcont⟩
  exact ⟨j', hj', hcont.uptkn.trans hu, hcont.locked hl⟩

/-- Nothing but `job_lock` locks a job. -/
theorem held_origin (loc : Locale) (c : Cluster) (t : Turn) (hc : ClusterInv c) (u : String)
    (h : Held u (turn loc c t).db) : Held u c.db ∨ locksJob loc u (c, t) = true := by
  rcases (serve_turned loc c t).handled hc with ⟨p, f, jobs, hh⟩
  rcases h with ⟨j', hj', hu, hl⟩
  -- Trace the locked row back over the write.
  rcases hh.back hj' with ⟨j, hj, hcont, horigin⟩ | hnew
  · rcases horigin hl with hjl | hlock
    · exact .inl ⟨j, hj, hcont.uptkn.symm.trans hu, hjl⟩
    · rw [← hcont.uptkn, hu] at hlock
      exact .inr ((locksJob_iff loc u c t).mpr hlock)
  · rw [(hh.pending j' hnew).1] at hl
    exact absurd hl Bool.false_ne_true

/-- An update spends the token of a locked open job, closes the job, and rewrites
    its instance. -/
theorem spends_cases {loc : Locale} {u : String} {c : Cluster} {t : Turn} (hc : ClusterInv c)
    (hu : loc.lower u ≠ "exception") (h : spendsJob loc u (c, t) = true) :
    ∃ j ∈ c.db.jobPool, j.uptkn = u ∧ j.locked = true ∧ j.tf = none ∧
      Closed u (turn loc c t).db ∧ UpdatesRow j.wid c.db (turn loc c t).db := by
  cases t with
  | statement i =>
      unfold spendsJob at h
      rw [Bool.and_eq_true, decide_eq_true_eq, decide_eq_true_eq] at h
      rcases h with ⟨hcar, ha⟩
      rcases (change_of_replied hc ha).spends hc.inv hcar hu with ⟨j, hj, hrun, ⟨jobs, hpool⟩, hrow⟩
      rcases (isRunning_iff u j).mp hrun with ⟨hju, hl, hopen⟩
      refine ⟨j, hj, hju, hl, hopen, ?_, hrow⟩
      refine ⟨completeRow i.env.now j, ?_, hju, Option.some_ne_none _⟩
      rw [hpool, ← hju]
      exact List.mem_append_left _ (mem_writeJob c.db (completeRow i.env.now) hj)
  | scan pid now => exact absurd h Bool.false_ne_true
  | loop pid env => exact absurd h Bool.false_ne_true
  | cancel pid => exact absurd h Bool.false_ne_true

/-- An abort closes its job, and so does a replacement. -/
theorem closed_of_aborts {loc : Locale} {u : String} {c : Cluster} {t : Turn} (hc : ClusterInv c)
    (h : abortsJob loc u (c, t) = true) : Closed u (turn loc c t).db := by
  unfold abortsJob at h
  rw [Bool.or_eq_true, decide_eq_true_eq] at h
  rcases h with h | h
  · cases t with
    | statement i =>
        rw [Bool.and_eq_true, decide_eq_true_eq, decide_eq_true_eq] at h
        rcases i with ⟨env, op⟩
        rcases h with ⟨hop, ha⟩
        subst hop
        have hch := change_of_replied hc ha
        generalize (turn loc c _).db = db' at hch ⊢
        cases hch with
        | abort v j hj hl hna =>
            rcases jobOf_some c.db u j hj with ⟨hjm, hju⟩
            rw [← hju]
            exact ⟨_, mem_writeJob c.db _ hjm, rfl, Option.some_ne_none _⟩
    | scan pid now => exact absurd h Bool.false_ne_true
    | loop pid env => exact absurd h Bool.false_ne_true
    | cancel pid => exact absurd h Bool.false_ne_true
  · exact (settled_of_replaced hc h).2.1

/-! ## Whole runs -/

/-- A job keeps its identity over a run. -/
theorem continues_after (loc : Locale) (c : Cluster) (hc : ClusterInv c) (ts : List Turn)
    (j : JobRow) (hj : j ∈ c.db.jobPool) :
    ∃ j' ∈ (Machine.after (turn loc) c ts).db.jobPool, j.Continues j' := by
  refine (Machine.after_invariant (turn loc) (fun _ => True)
    (fun c => ClusterInv c ∧ ∃ j' ∈ c.db.jobPool, j.Continues j') ?_ c ⟨hc, j, hj, .refl j⟩ ts
    (fun _ _ => trivial)).2
  intro c t _ h
  rcases h with ⟨hc, i, hi, hji⟩
  rcases (serve_turned loc c t).handled hc with ⟨p, f, jobs, hh⟩
  rcases hh.forth hi with ⟨k, hk, hik⟩
  exact ⟨clusterInv_turn loc c t hc, k, hk, hji.trans hik⟩

/-- The token of a job is not the word that asks for recovery. -/
theorem Inv.token_ne_exception {db : Db} (hi : Inv db) (loc : Locale) {j : JobRow}
    (hj : j ∈ db.jobPool) : loc.lower j.uptkn ≠ "exception" := by
  rcases hi.pool.digest j hj with ⟨d, hd⟩
  rw [hd, loc.lower_hexdigest]
  exact hexdigest_ne_exception d

theorem Inv.token_ne_empty {db : Db} (hi : Inv db) {j : JobRow} (hj : j ∈ db.jobPool) :
    j.uptkn ≠ "" := by
  rcases hi.pool.digest j hj with ⟨d, hd⟩
  rw [hd]
  exact hexdigest_ne_empty d

section Protocol

variable (loc : Locale) (ts : List Turn)

/-- A lock is granted once. -/
theorem countP_locksJob (u : String) :
    (Machine.history (turn loc) Cluster.empty ts).countP (locksJob loc u) ≤ 1 := by
  refine Machine.countP_le_one_of_pairwise _ _
    ((Machine.history_never_after (turn loc) ClusterInv (clusterInv_turn loc)
      (fun u p => locksJob loc u p = true) (fun u p => locksJob loc u p = true)
      (fun u c => Held u c.db) ?_ ?_ ?_ Cluster.empty clusterInv_empty ts).imp
      (fun hpq => hpq u))
  · exact fun u c t hc => held_turn loc c t hc u
  · exact fun u c t hc h => (held_of_locks hc h).2
  · exact fun u c t hc h => (held_of_locks hc h).1

/-- No update spends a token after something that closed its job. -/
theorem spends_never_after (a : Cluster × Turn → Prop) (u : String)
    (hu : loc.lower u ≠ "exception")
    (ha : ∀ c t, ClusterInv c → a (c, t) → Closed u (turn loc c t).db) :
    (Machine.history (turn loc) Cluster.empty ts).Pairwise fun p q =>
      a p → ¬ spendsJob loc u q = true := by
  refine (Machine.history_never_after (turn loc) ClusterInv (clusterInv_turn loc)
    (fun _ : Unit => a) (fun _ p => spendsJob loc u p = true) (fun _ c => Closed u c.db) ?_ ?_ ?_
    Cluster.empty clusterInv_empty ts).imp (fun hpq => hpq ())
  · exact fun _ c t hc => closed_turn loc c t hc u
  · exact fun _ c t hc h => ha c t hc h
  · intro _ c t hc h hclosed
    rcases spends_cases hc hu h with ⟨j, hj, hju, -, hopen, -⟩
    exact hclosed.of_mem hc.inv hj hju hopen

/-- A token is spent once. -/
theorem countP_spendsJob (u : String) (hu : loc.lower u ≠ "exception") :
    (Machine.history (turn loc) Cluster.empty ts).countP (spendsJob loc u) ≤ 1 := by
  refine Machine.countP_le_one_of_pairwise _ _ (spends_never_after loc ts _ u hu ?_)
  intro c t hc h
  rcases spends_cases hc hu h with ⟨j, -, -, -, -, hclosed, -⟩
  exact hclosed

/-- A token is spent after it was locked, and for the instance of its job. -/
theorem spends_after_lock (j : JobRow) (hj : j ∈ (cluster loc ts).db.jobPool)
    (h₁ h₂ : List (Cluster × Turn)) (p : Cluster × Turn)
    (h : Machine.history (turn loc) Cluster.empty ts = h₁ ++ p :: h₂)
    (hp : spendsJob loc j.uptkn p = true) :
    (∃ q ∈ h₁, locksJob loc j.uptkn q = true) ∧
      UpdatesRow j.wid p.1.db (turn loc p.1 p.2).db := by
  have hinv := (cluster_inv loc ts).inv
  have hu := hinv.token_ne_exception loc hj
  constructor
  · refine Machine.history_only_after (turn loc) ClusterInv (clusterInv_turn loc)
      (fun q => locksJob loc j.uptkn q = true) (fun q => spendsJob loc j.uptkn q = true)
      (fun c => Held j.uptkn c.db) ?_ ?_ Cluster.empty clusterInv_empty ?_ ts h₁ h₂ p h hp
    · exact fun c t hc => held_origin loc c t hc j.uptkn
    · intro c t hc hs
      rcases spends_cases hc hu hs with ⟨i, hi, hiu, hl, -⟩
      exact ⟨i, hi, hiu, hl⟩
    · intro hheld
      rcases hheld with ⟨i, hi, -⟩
      exact absurd hi List.not_mem_nil
  · rcases p with ⟨c, t⟩
    rcases Machine.history_before (turn loc) Cluster.empty ts h₁ h₂ c t h with ⟨ts₁, ts₂, rfl, -, rfl⟩
    have hc := cluster_inv loc ts₁
    rcases spends_cases hc hu hp with ⟨i, hi, hiu, -, -, -, hrow⟩
    -- The job that was spent then is the job with the token now.
    rcases continues_after loc _ hc (t :: ts₂) i hi with ⟨k, hk, hik⟩
    have hend : cluster loc (ts₁ ++ t :: ts₂) = Machine.after (turn loc) (cluster loc ts₁) (t :: ts₂) :=
      Machine.after_append _ _ _ _
    rw [← hend] at hk
    have hkj : k = j := hinv.pool.tokens.eq_of_mem hk hj (hik.uptkn.trans hiu)
    rw [← hkj, hik.wid]
    exact hrow

end Protocol

/-! ## Workers -/

theorem afterLock_eq_running {job job' : Job} {a : Answer} (h : afterLock job a = .running job') :
    a = .replied (.bool true) ∧ job' = job := by
  unfold afterLock at h
  split at h
  next => exact absurd h (by simp only [reduceCtorEq, not_false_eq_true])
  next => exact ⟨rfl, (WorkerPhase.running.inj h).symm⟩
  next => exact absurd h (by simp only [reduceCtorEq, not_false_eq_true])

/-- A worker that begins to run a body has been granted the lock. -/
theorem locks_of_runsBody (loc : Locale) (u : String) (f : Fleet) (e : Errand)
    (h : runsBody loc u (f, e) = true) :
    ∃ t, f.sends e = some t ∧ locksJob loc u (f.cluster, t) = true := by
  cases e with
  | lock w env channel =>
      cases hw : f.workers w with
      | asking job =>
          simp only [runsBody, advance, Fleet.moves, hw, Function.update_self] at h
          refine ⟨job.lockTurn env channel, ?_, ?_⟩
          · simp only [Fleet.sends, hw]
          · split at h
            next hrun =>
              rcases afterLock_eq_running hrun with ⟨ha, rfl⟩
              rw [← of_decide_eq_true h]
              exact (locksJob_iff loc _ _ _).mpr ⟨_, _, rfl, ha, _, rfl, rfl⟩
            next => exact absurd h Bool.false_ne_true
      | idle => simp only [runsBody, hw, Bool.false_eq_true] at h
      | running job => simp only [runsBody, hw, Bool.false_eq_true] at h
  | _ => exact absurd h Bool.false_ne_true

/-- The calls of a fleet are a run of the cluster. -/
theorem calls_eq_history (loc : Locale) (es : List Errand) :
    ∃ ts, calls loc es = Machine.history (turn loc) Cluster.empty ts ∧
      (fleet loc es).cluster = cluster loc ts :=
  Machine.history_driven (turn loc) (advance loc) Fleet.cluster Fleet.sends (fun _ _ => rfl)
    Fleet.empty es

/-- The token protocol, for any clients, workers and inspectors, and for the
    token of any job: the lock is granted once; an update goes through once,
    after the lock, after no abort, and on the instance of the job; and one
    worker at most runs the body. -/
theorem tokens_spent_once (loc : Locale) (es : List Errand) (j : JobRow)
    (hj : j ∈ (fleet loc es).cluster.db.jobPool) :
    (calls loc es).countP (locksJob loc j.uptkn) ≤ 1 ∧
      (calls loc es).countP (spendsJob loc j.uptkn) ≤ 1 ∧
      (∀ h₁ p h₂, calls loc es = h₁ ++ p :: h₂ → spendsJob loc j.uptkn p = true →
        (∃ q ∈ h₁, locksJob loc j.uptkn q = true) ∧ (∀ q ∈ h₁, abortsJob loc j.uptkn q = false) ∧
          UpdatesRow j.wid p.1.db (turn loc p.1 p.2).db) ∧
      (Machine.history (advance loc) Fleet.empty es).countP (runsBody loc j.uptkn) ≤ 1 := by
  -- The workers only decide which calls are made, so the calls are a run like any other.
  rcases calls_eq_history loc es with ⟨ts, hcalls, hcluster⟩
  rw [hcluster] at hj
  have hu := (cluster_inv loc ts).inv.token_ne_exception loc hj
  have hlocks : (calls loc es).countP (locksJob loc j.uptkn) ≤ 1 := by
    rw [hcalls]
    exact countP_locksJob loc ts j.uptkn
  refine ⟨hlocks, ?_, ?_, ?_⟩
  · rw [hcalls]
    exact countP_spendsJob loc ts j.uptkn hu
  · intro h₁ p h₂ hsplit hp
    rw [hcalls] at hsplit
    rcases spends_after_lock loc ts j hj h₁ h₂ p hsplit hp with ⟨hlock, hrow⟩
    refine ⟨hlock, fun q hq => ?_, hrow⟩
    have hpair := spends_never_after loc ts (fun q => abortsJob loc j.uptkn q = true) j.uptkn hu
      (fun c t hc => closed_of_aborts hc)
    rw [hsplit, List.pairwise_append] at hpair
    exact Bool.eq_false_iff.mpr (fun ha => hpair.2.2 q hq p List.mem_cons_self ha hp)
  -- Every body that is run answers a lock of its own.
  · refine le_trans ?_ hlocks
    unfold calls
    rw [List.countP_filterMap]
    refine List.countP_mono_left (fun p _ hbody => ?_)
    rcases locks_of_runsBody loc j.uptkn p.1 p.2 hbody with ⟨t, hsend, hlock⟩
    rw [hsend]
    exact hlock

/-- Two workers are told of the same job. The second is the first to ask. -/
def rivals : List Errand :=
  tiny.map (fun i => .other (.statement i)) ++
    [.other (.statement ⟨clock 1, .insertFlow 7 none []⟩), .notified 1 ⟨1, 7, tokenAt 1 0⟩,
      .notified 2 ⟨1, 7, tokenAt 1 0⟩, .lock 2 (clock 2) "1", .lock 1 (clock 3) "1",
      .update 2 (clock 4) none [("st", some "half")],
      .other (.statement ⟨clock 5, .jobAbort (tokenAt 1 0)⟩)]

/-- The body is run once, and the update that follows is accepted. -/
theorem tokens_spent_once_rivals :
    (Machine.history (advance asciiLocale) Fleet.empty rivals).countP
        (runsBody asciiLocale (tokenAt 1 0)) = 1 ∧
      ∃ p ∈ calls asciiLocale rivals, spendsJob asciiLocale (tokenAt 1 0) p = true ∧
        UpdatesRow 7 p.1.db (turn asciiLocale p.1 p.2).db := by
  have hj : (⟨1, 7, tokenAt 1 0, some "W1_WTRG_1", true, true, 10, some 2, some 5⟩ : JobRow) ∈
      (fleet asciiLocale rivals).cluster.db.jobPool := by decide +kernel
  have hone := tokens_spent_once asciiLocale rivals _ hj
  have hbody : 0 < (Machine.history (advance asciiLocale) Fleet.empty rivals).countP
      (runsBody asciiLocale (tokenAt 1 0)) := by decide +kernel
  have hspent : 0 < (calls asciiLocale rivals).countP (spendsJob asciiLocale (tokenAt 1 0)) := by
    decide +kernel
  refine ⟨le_antisymm hone.2.2.2 hbody, ?_⟩
  rcases List.countP_pos_iff.mp hspent with ⟨p, hp, hs⟩
  rcases List.append_of_mem hp with ⟨h₁, h₂, hsplit⟩
  exact ⟨p, hp, hs, (hone.2.2.1 h₁ p h₂ hsplit hs).2.2⟩

end WedFlow
