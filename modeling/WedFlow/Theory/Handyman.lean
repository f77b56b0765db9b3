import WedFlow.Core.Handyman
import WedFlow.Theory.Notices
import WedFlow.Theory.Tokens

/-!
# Worker Processes

What any number of worker processes do to the jobs, however they are started and
ended and whatever else goes on. The body of the transition of a job is run once
at most, by a process of the job's own trigger and for the job's own instance. No
notification ends a process. And a process does not search in vain: it never
comes back twice with the same job.

The first part of the first is the token protocol again. A process is a worker of
`Core.Workers` that is told of a job by the notification it takes or by the search
it makes, so a run of processes is a run of a fleet (`crew_refines`). The second
part and the other results rest on what a process can have been told. The kernel
sends nothing on a channel but the jobs of its trigger, in a form that is read
back; and what a search has found and a call of `job_lock` has answered for is
locked from then on.

## Main definitions

* `Crew.errand`: The errand of a fleet that a beat is.
* `Told`: Every notification is about a job in the pool.
* `Daemon.Knows`: What a process has been told of is in the pool, under its
  trigger.

## Theorems

* `crew_refines`: Processes are workers of a fleet.
* `one_process_runs`: Once at most, and by a process of its own.
* `no_notification_ends`: A process is there until somebody ends it.
* `searches_differ`: No job is found twice by one process.
-/

namespace WedFlow

/-! ## A fleet of processes -/

/-- The fleet that the processes make up. -/
def Crew.fleet (c : Crew) : Fleet :=
  ⟨c.cluster, c.phase⟩

/-- The errand that a move of a process is, if it is any. -/
def Daemon.errand (w : Nat) (d : Daemon) : DaemonMove → Option Errand
  | .timeout pick _ => if d.free false then some (.lookup w d.tgid pick) else none
  | .ready _ => none
  | .pop => if d.free true then (d.notifies.head?.bind jobOfPayload).map (.notified w) else none
  | .lock env _ => some (.lock w env (toString d.tgid))
  | .update env newWid vals _ => some (.update w env newWid vals)
  | .kill => some (.restart w)

def Crew.errand (c : Crew) : Beat → Option Errand
  | .other t => some (.other t)
  | .start _ _ => none
  | .move w m => (c.members w).bind (·.errand w m)

theorem Daemon.free_iff {d : Daemon} {polled : Bool} :
    d.free polled = true ↔ d.phase = .idle ∧ d.polled = polled := by
  unfold Daemon.free
  rw [Bool.and_eq_true, decide_eq_true_eq, decide_eq_true_eq]

/-- A worker that keeps its phase. -/
theorem update_of_eq {f : Fleet} {w : Nat} {phase : WorkerPhase} (h : f.workers w = phase) :
    Function.update f.workers w phase = f.workers := by
  rw [← h, Function.update_eq_self]

/-- A worker without a job is told of one, or of none. -/
theorem advance_notified (loc : Locale) (f : Fleet) (w : Nat) (job : Option Job)
    (h : f.workers w = .idle) :
    (job.map (Errand.notified w)).elim f (advance loc f)
      = ⟨f.cluster, Function.update f.workers w (job.elim .idle .asking)⟩ := by
  cases job with
  | none =>
      rw [Option.map_none, Option.elim_none, Option.elim_none, update_of_eq h]
  | some job =>
      rw [Option.map_some, Option.elim_some, Option.elim_some]
      unfold advance Fleet.moves
      dsimp only [Fleet.sends, Option.elim_none]
      rw [h]

/-- A worker without a job looks for one, and may find none. -/
theorem advance_lookup (loc : Locale) (f : Fleet) (w : Nat) (tgid : Int) (pick : Nat)
    (h : f.workers w = .idle) :
    advance loc f (.lookup w tgid pick) = ⟨f.cluster, Function.update f.workers w
      ((jobLookup tgid pick f.cluster.db).elim .idle .asking)⟩ := by
  unfold advance Fleet.moves
  dsimp only [Fleet.sends, Option.elim_none]
  rw [h]
  cases jobLookup tgid pick f.cluster.db with
  | none => rw [Option.elim_none, update_of_eq h]
  | some job => rw [Option.elim_some]

/-- A move of a process is an errand of its worker: the calls are the same, and so
    are the phases afterwards. -/
theorem advance_errand (loc : Locale) (f : Fleet) (w : Nat) (d : Daemon) (m : DaemonMove)
    (hd : f.workers w = d.phase) :
    (d.errand w m).elim f (advance loc f)
      = ⟨(d.sends m).elim f.cluster (turn loc f.cluster),
          Function.update f.workers w ((d.move loc f.cluster m).elim .idle Daemon.phase)⟩ := by
  have hstay : (⟨f.cluster, Function.update f.workers w d.phase⟩ : Fleet) = f := by
    rw [update_of_eq hd]
  cases m with
  | timeout pick k =>
      unfold Daemon.errand Daemon.move
      dsimp only [Daemon.sends, Option.elim_none]
      by_cases hfree : d.free false = true
      · rw [if_pos hfree, if_pos hfree]
        exact advance_lookup loc f w d.tgid pick (hd.trans (Daemon.free_iff.mp hfree).1)
      · rw [if_neg hfree, if_neg hfree]
        exact hstay.symm
  | ready k =>
      unfold Daemon.errand Daemon.move
      dsimp only [Daemon.sends, Option.elim_none]
      by_cases hfree : d.free false = true
      · rw [if_pos hfree]
        exact hstay.symm
      · rw [if_neg hfree]
        exact hstay.symm
  | pop =>
      unfold Daemon.errand Daemon.move
      dsimp only [Daemon.sends, Option.elim_none]
      by_cases hfree : d.free true = true
      · rw [if_pos hfree, if_pos hfree]
        have hidle := (Daemon.free_iff.mp hfree).1
        rw [advance_notified loc f w _ (hd.trans hidle)]
        cases hn : d.notifies with
        | nil => rw [List.head?_nil, Option.bind_none, Option.elim_none, Option.elim_some, hidle]
        | cons payload rest =>
            -- A payload that cannot be read leaves no process, and so no phase.
            rw [List.head?_cons, Option.bind_some]
            dsimp only
            cases jobOfPayload payload with
            | none => rw [Option.map_none, Option.elim_none, Option.elim_none]
            | some job => rw [Option.map_some, Option.elim_some, Option.elim_some]
      · rw [if_neg hfree, if_neg hfree]
        exact hstay.symm
  | lock env k =>
      rw [Daemon.errand, Option.elim_some]
      unfold advance Fleet.sends Fleet.moves Daemon.sends Daemon.move
      dsimp only
      rw [hd]
      cases hp : d.phase with
      | asking job => rfl
      | idle =>
          dsimp only [Option.elim_some, Option.elim_none]
          rw [hp, update_of_eq (hd.trans hp)]
      | running job =>
          dsimp only [Option.elim_some, Option.elim_none]
          rw [hp, update_of_eq (hd.trans hp)]
  | update env newWid vals k =>
      rw [Daemon.errand, Option.elim_some]
      unfold advance Fleet.sends Fleet.moves Daemon.sends Daemon.move
      dsimp only
      rw [hd]
      cases hp : d.phase with
      | running job => rfl
      | idle =>
          dsimp only [Option.elim_some, Option.elim_none]
          rw [hp, update_of_eq (hd.trans hp)]
      | asking job =>
          dsimp only [Option.elim_some, Option.elim_none]
          rw [hp, update_of_eq (hd.trans hp)]
  | kill => rfl

/-- One beat is one errand, or none. -/
theorem fleet_beat (loc : Locale) (c : Crew) (b : Beat) :
    (c.beat loc b).fleet = (c.errand b).elim c.fleet (advance loc c.fleet) := by
  have hphase : ∀ (g : Nat → Option Daemon) (w : Nat) (o : Option Daemon),
      (fun v => ((Function.update g w o) v).elim .idle Daemon.phase)
        = Function.update (fun v => (g v).elim .idle Daemon.phase) w (o.elim .idle Daemon.phase) := by
    intro g w o
    funext v
    by_cases hv : v = w
    · rw [hv, Function.update_self, Function.update_self]
    · rw [Function.update_of_ne hv, Function.update_of_ne hv]
  cases b with
  | other t => rfl
  | start w tgid =>
      unfold Crew.fleet Crew.phase Crew.beat Crew.moved Crew.errand
      dsimp only [Crew.sends, Option.elim_none]
      by_cases hnone : (c.members w).isNone = true
      · rw [if_pos hnone, hphase, Option.elim_some]
        -- Where there was no process there was no phase, and a new one has none either.
        have hidle : c.fleet.workers w = .idle := by
          change (c.members w).elim _ _ = _
          rw [Option.isNone_iff_eq_none.mp hnone, Option.elim_none]
        exact congrArg (Fleet.mk c.cluster) (update_of_eq (f := c.fleet) hidle)
      · rw [if_neg hnone]
  | move w m =>
      unfold Crew.fleet Crew.phase Crew.beat Crew.moved Crew.errand
      dsimp only [Crew.sends]
      cases hd : c.members w with
      | none =>
          rw [Option.bind_none, Option.bind_none, Option.bind_none, Option.elim_none, Option.elim_none,
            hphase, Option.elim_none]
          have hidle : c.fleet.workers w = .idle := by
            change (c.members w).elim _ _ = _
            rw [hd, Option.elim_none]
          exact congrArg (Fleet.mk c.cluster) (update_of_eq (f := c.fleet) hidle)
      | some d =>
          rw [Option.bind_some, Option.bind_some, Option.bind_some, hphase]
          have hw : c.fleet.workers w = d.phase := by
            change (c.members w).elim _ _ = _
            rw [hd, Option.elim_some]
          exact (advance_errand loc c.fleet w d m hw).symm

/-- Processes are workers of a fleet. -/
theorem crew_refines (loc : Locale) (bs : List Beat) :
    ∃ es, (Machine.history (Crew.beat loc) Crew.empty bs).filterMap
        (fun p => (p.1.errand p.2).map (p.1.fleet, ·))
        = Machine.history (advance loc) Fleet.empty es ∧
      (crew loc bs).fleet = fleet loc es :=
  Machine.history_driven (advance loc) (Crew.beat loc) Crew.fleet Crew.errand (fleet_beat loc)
    Crew.empty bs

/-! ## Bodies -/

/-- A process that asks for a job stays as it is until it is ended or makes the
    call. -/
theorem move_asking (loc : Locale) (c : Cluster) {d : Daemon} {job : Job}
    (hphase : d.phase = .asking job) (m : DaemonMove) :
    m = .kill ∨ d.move loc c m = some d ∨ ∃ env k, m = .lock env k ∧ ∃ d', d.move loc c m = some d' ∧
      d'.phase = afterLock job (serve loc c (job.lockTurn env (toString d.tgid))).2 := by
  have hbusy : ∀ polled, ¬ d.free polled = true := by
    intro polled hfree
    rw [(Daemon.free_iff.mp hfree).1] at hphase
    exact absurd hphase (by simp only [reduceCtorEq, not_false_eq_true])
  cases m with
  | timeout pick k => exact .inr (.inl (if_neg (hbusy false)))
  | ready k => exact .inr (.inl (if_neg (hbusy false)))
  | pop => exact .inr (.inl (if_neg (hbusy true)))
  | lock env k =>
      refine .inr (.inr ⟨env, k, rfl, ?_⟩)
      unfold Daemon.move
      dsimp only
      rw [hphase]
      exact ⟨_, rfl, rfl⟩
  | update env newWid vals k =>
      refine .inr (.inl ?_)
      unfold Daemon.move
      dsimp only
      rw [hphase]
  | kill => exact .inl rfl

/-- The process whose phase is not that of a missing one. -/
theorem exists_member {c : Crew} {w : Nat} {job : Job} (h : c.phase w = .asking job) :
    ∃ d, c.members w = some d ∧ d.phase = .asking job := by
  unfold Crew.phase at h
  cases hd : c.members w with
  | none =>
      rw [hd, Option.elim_none] at h
      exact absurd h (by simp only [reduceCtorEq, not_false_eq_true])
  | some d =>
      rw [hd, Option.elim_some] at h
      exact ⟨d, rfl, h⟩

/-- The process that moves, afterwards. -/
theorem members_move {loc : Locale} {c : Crew} {w : Nat} {d : Daemon} (hd : c.members w = some d)
    (m : DaemonMove) : (c.beat loc (.move w m)).members w = d.move loc c.cluster m := by
  change Function.update c.members w ((c.members w).bind (·.move loc c.cluster m)) w = _
  rw [Function.update_self, hd, Option.bind_some]

theorem members_move_of_ne {loc : Locale} {c : Crew} {v w : Nat} (h : w ≠ v) (m : DaemonMove) :
    (c.beat loc (.move v m)).members w = c.members w :=
  Function.update_of_ne h _ _

/-- A process cannot be started in the place of one that is there. -/
theorem members_start {loc : Locale} {c : Crew} {w : Nat} {d : Daemon} (hd : c.members w = some d)
    (v : Nat) (tgid : Int) : (c.beat loc (.start v tgid)).members w = some d := by
  unfold Crew.beat Crew.moved
  dsimp only
  by_cases hnone : (c.members v).isNone = true
  · rw [if_pos hnone, Function.update_of_ne, hd]
    intro hw
    rw [← hw, hd] at hnone
    exact Bool.false_ne_true hnone
  · rw [if_neg hnone, hd]

theorem sends_lock {c : Crew} {w : Nat} {d : Daemon} {job : Job} (hd : c.members w = some d)
    (hphase : d.phase = .asking job) (env : Env) (k : Nat) :
    c.sends (.move w (.lock env k)) = some (job.lockTurn env (toString d.tgid)) := by
  unfold Crew.sends Daemon.sends
  dsimp only
  rw [hd, Option.bind_some, hphase]

/-- A body is begun by a call of `job_lock` that is granted, and only so. -/
theorem begins_cases {loc : Locale} {u : String} {c : Crew} {b : Beat}
    (h : begins loc u (c, b) = true) :
    ∃ w env k d job, b = .move w (.lock env k) ∧ c.members w = some d ∧ d.phase = .asking job ∧
      job.uptkn = u ∧
      (serve loc c.cluster (job.lockTurn env (toString d.tgid))).2 = .replied (.bool true) := by
  cases b with
  | other t => exact absurd h Bool.false_ne_true
  | start w tgid => exact absurd h Bool.false_ne_true
  | move w m =>
      unfold begins at h
      dsimp only at h
      split at h
      next job job' hbefore hafter =>
        have hu : job'.uptkn = u := of_decide_eq_true h
        rcases exists_member hbefore with ⟨d, hd, hphase⟩
        unfold Crew.phase at hafter
        rw [members_move hd] at hafter
        rcases move_asking loc c.cluster hphase m
          with rfl | hsame | ⟨env, k, rfl, d', hd', hphase'⟩
        · exact absurd hafter (by simp only [Daemon.move, Option.elim_none, reduceCtorEq,
            not_false_eq_true])
        · rw [hsame, Option.elim_some, hphase] at hafter
          exact absurd hafter (by simp only [reduceCtorEq, not_false_eq_true])
        · rw [hd', Option.elim_some, hphase'] at hafter
          rcases afterLock_eq_running hafter with ⟨ha, hjob⟩
          exact ⟨w, env, k, d, job, rfl, hd, hphase, hjob ▸ hu, ha⟩
      next => exact absurd h Bool.false_ne_true

/-- The lock of a job is granted once, so its body is begun once. -/
theorem countP_begins (loc : Locale) (bs : List Beat) (u : String) :
    (Machine.history (Crew.beat loc) Crew.empty bs).countP (begins loc u) ≤ 1 := by
  rcases Machine.history_driven (turn loc) (Crew.beat loc) Crew.cluster Crew.sends (fun _ _ => rfl)
    Crew.empty bs with ⟨ts, hcalls, -⟩
  have hone := countP_locksJob loc ts u
  change (Machine.history (turn loc) Crew.empty.cluster ts).countP (locksJob loc u) ≤ 1 at hone
  rw [← hcalls, List.countP_filterMap] at hone
  refine le_trans (List.countP_mono_left (fun p _ hbegin => ?_)) hone
  rcases begins_cases hbegin with ⟨w, env, k, d, job, hb, hd, hask, hu, ha⟩
  rw [hb, sends_lock hd hask]
  subst hu
  exact (locksJob_iff loc _ _ _).mpr ⟨_, _, rfl, ha, some _, rfl, rfl⟩

/-! ## What processes are told -/

/-- What a worker is told of a job. -/
def JobRow.job (j : JobRow) : Job :=
  ⟨j.tgid, j.wid, j.uptkn⟩

/-- Every notification is about a job in the pool. -/
def Told (db : Db) : Prop :=
  ∀ n ∈ db.notices, ∃ j ∈ db.jobPool, announcement j = n

theorem JobRow.Continues.job_eq {j j' : JobRow} (h : j.Continues j') : j'.job = j.job := by
  unfold JobRow.job
  rw [h.tgid, h.wid, h.uptkn]

/-- A job is announced by what a worker is told of it. -/
theorem announcement_of_job {i j : JobRow} (h : i.job = j.job) : announcement i = announcement j := by
  unfold JobRow.job at h
  rw [Job.mk.injEq] at h
  unfold announcement
  rw [h.1, h.2.1, h.2.2]

/-- The payload of a job is read as the job. -/
theorem jobOfPayload_announcement {j : JobRow} (h : Json.PlainText j.uptkn) :
    jobOfPayload (announcement j).payload = some j.job := by
  unfold jobOfPayload
  rw [payload_announcement, Json.loads_print j.object (plain_object h)]
  rfl

/-- A trigger has a channel of its own. -/
theorem tgid_of_channel {a b : Int} (h : "WTRG_" ++ toString a = "WTRG_" ++ toString b) : a = b := by
  have htext : (Json.Value.int a).print = (Json.Value.int b).print := by
    rw [← Json.toList_toString, ← Json.toList_toString]
    have hlist := congrArg String.toList h
    rw [String.toList_append, String.toList_append] at hlist
    exact List.append_cancel_left hlist
  -- The two numbers are read back from one text.
  have hname : Json.PlainText "n" := by decide
  have hplain : ∀ n : Int, ∀ m ∈ ([("n", .int n)] : Json.Object), Json.PlainText m.1 ∧ m.2.Plain := by
    intro n m hm
    rw [List.mem_singleton.mp hm]
    exact ⟨hname, trivial⟩
  have hloads := Json.loads_print [("n", .int a)] (hplain a)
  have hprint : Json.print [("n", .int a)] = Json.print [("n", .int b)] := by
    unfold Json.print Json.printMembers
    rw [htext]
  rw [hprint, Json.loads_print [("n", .int b)] (hplain b)] at hloads
  simp only [Option.some.injEq, List.cons.injEq, Prod.mk.injEq, Json.Value.int.injEq, true_and,
    and_true] at hloads
  exact hloads.symm

/-- Jobs stay, as far as a worker is told of them. -/
theorem exists_job_turn (loc : Locale) (c : Cluster) (t : Turn) (hc : ClusterInv c) {j : JobRow}
    (hj : j ∈ c.db.jobPool) : ∃ j' ∈ (turn loc c t).db.jobPool, j'.job = j.job := by
  rcases (serve_turned loc c t).handled hc with ⟨p, f, jobs, hh⟩
  rcases hh.forth hj with ⟨j', hj', hcont⟩
  exact ⟨j', hj', hcont.job_eq⟩

/-- What is sent is sent for a job. -/
theorem told_turn (loc : Locale) (c : Cluster) (t : Turn) (hc : ClusterInv c) (h : Told c.db) :
    Told (turn loc c t).db := by
  have hold : ∀ n ∈ c.db.notices, ∃ j ∈ (turn loc c t).db.jobPool, announcement j = n := by
    intro n hn
    rcases h n hn with ⟨j, hj, rfl⟩
    rcases exists_job_turn loc c t hc hj with ⟨j', hj', hjob⟩
    exact ⟨j', hj', announcement_of_job hjob⟩
  unfold turn at hold ⊢
  have ht := serve_turned loc c t
  generalize serve loc c t = q at hold ht ⊢
  rcases q with ⟨c', a⟩
  cases ht with
  | idle t a ha => exact hold
  | scan pid now hfree => exact hold
  | release t a pid ha => exact hold
  | noRows pid env s hs hrows => exact hold
  | loop pid env s db hs hg hreq =>
      have hsc := hc.scans _ (List.mem_of_find?_eq_some hs)
      rcases (hsc.requeue_ok_iff hc.inv loc _ db).mp hreq with ⟨-, rfl⟩
      exact hold
  | statement i db r hg hex =>
      rcases creates_change (exec_change loc i c.db db r hc.inv hex) with ⟨jobs, hcr⟩
      intro n hn
      change n ∈ db.notices at hn
      rw [hcr.notices] at hn
      rcases List.mem_append.mp hn with hn | hn
      · exact hold n hn
      · rcases hcr.sent hn with ⟨j, hj, -, rfl, -⟩
        rcases hcr.pool with ⟨old, hpool, -⟩
        refine ⟨j, ?_, rfl⟩
        change j ∈ db.jobPool
        rw [hpool]
        exact List.mem_append_right _ hj

/-- What a process has been told of, it has been told of jobs in the pool, under
    its trigger. -/
structure Daemon.Knows (db : Db) (d : Daemon) : Prop where
  notifies : ∀ payload ∈ d.notifies, ∃ j ∈ db.jobPool, j.tgid = d.tgid ∧
    jobOfPayload payload = some j.job
  asking : ∀ job, d.phase = .asking job → ∃ j ∈ db.jobPool, j.tgid = d.tgid ∧ job = j.job
  running : ∀ job, d.phase = .running job → ∃ j ∈ db.jobPool, j.tgid = d.tgid ∧ job = j.job

/-- What is sent on a channel is a job of its trigger. -/
theorem mem_inbox {db : Db} (hi : Inv db) (ht : Told db) {d : Daemon} {payload : String}
    (h : payload ∈ d.inbox db.notices) :
    ∃ j ∈ db.jobPool, j.tgid = d.tgid ∧ jobOfPayload payload = some j.job := by
  rcases List.mem_map.mp h with ⟨n, hn, rfl⟩
  rcases List.mem_filter.mp hn with ⟨hn, hchannel⟩
  rcases ht n hn with ⟨j, hj, rfl⟩
  refine ⟨j, hj, tgid_of_channel (of_decide_eq_true hchannel), jobOfPayload_announcement ?_⟩
  rcases hi.pool.digest j hj with ⟨dg, hdg⟩
  rw [hdg]
  exact plainText_hexdigest dg

/-- Whatever arrives and whatever else happens, as long as the jobs stay. -/
theorem Daemon.Knows.carry {db db' : Db} {d d' : Daemon} {k : Nat} (h : d.Knows db)
    (hi : Inv db') (ht : Told db')
    (hjobs : ∀ j ∈ db.jobPool, ∃ j' ∈ db'.jobPool, j'.job = j.job)
    (hd : d'.notifies = (d.receive db'.notices k).notifies ∧ d'.tgid = d.tgid)
    (hask : ∀ job, d'.phase = .asking job → d.phase = .asking job ∨
      ∃ j ∈ db'.jobPool, j.tgid = d'.tgid ∧ job = j.job)
    (hrun : ∀ job, d'.phase = .running job → d.phase = .asking job ∨ d.phase = .running job) :
    d'.Knows db' := by
  have hkeep : ∀ job, (∃ j ∈ db.jobPool, j.tgid = d.tgid ∧ job = j.job) →
      ∃ j ∈ db'.jobPool, j.tgid = d'.tgid ∧ job = j.job := by
    rintro job ⟨j, hj, hg, rfl⟩
    rcases hjobs j hj with ⟨j', hj', hjob⟩
    exact ⟨j', hj', (congrArg Job.tgid hjob).trans (hg.trans hd.2.symm), hjob.symm⟩
  refine ⟨fun payload hp => ?_, fun job hphase => ?_, fun job hphase => ?_⟩
  · rw [hd.1] at hp
    rcases List.mem_append.mp hp with hp | hp
    · rcases h.notifies payload hp with ⟨j, hj, hg, hpay⟩
      rcases hkeep j.job ⟨j, hj, hg, rfl⟩ with ⟨j', hj', hg', hjob⟩
      exact ⟨j', hj', hg', hjob ▸ hpay⟩
    · rcases mem_inbox hi ht (List.mem_of_mem_drop (List.mem_of_mem_take hp)) with ⟨j, hj, hg, hpay⟩
      exact ⟨j, hj, hg.trans hd.2.symm, hpay⟩
  · rcases hask job hphase with hold | hnew
    · exact hkeep job (h.asking job hold)
    · exact hnew
  · rcases hrun job hphase with hold | hold
    · exact hkeep job (h.asking job hold)
    · exact hkeep job (h.running job hold)

theorem afterLock_eq_asking {job job' : Job} {a : Answer} (h : afterLock job a = .asking job') :
    job' = job := by
  unfold afterLock at h
  split at h
  next => exact (WorkerPhase.asking.inj h).symm
  next => exact absurd h (by simp only [reduceCtorEq, not_false_eq_true])
  next => exact absurd h (by simp only [reduceCtorEq, not_false_eq_true])

theorem afterUpdate_ne_asking (job job' : Job) (a : Answer) : afterUpdate job a ≠ .asking job' := by
  unfold afterUpdate
  split
  next => simp only [ne_eq, reduceCtorEq, not_false_eq_true]
  next => simp only [ne_eq, reduceCtorEq, not_false_eq_true]

theorem afterUpdate_eq_running {job job' : Job} {a : Answer}
    (h : afterUpdate job a = .running job') : job' = job := by
  unfold afterUpdate at h
  split at h
  next => exact (WorkerPhase.running.inj h).symm
  next => exact absurd h (by simp only [reduceCtorEq, not_false_eq_true])

/-- A search comes back with a job of the trigger that is not locked. -/
theorem jobLookup_eq_some {tgid : Int} {pick : Nat} {db : Db} {job : Job}
    (h : jobLookup tgid pick db = some job) :
    ∃ j ∈ db.jobPool, j.tgid = tgid ∧ j.locked = false ∧ job = j.job := by
  rcases Option.map_eq_some_iff.mp h with ⟨j, hj, rfl⟩
  rcases List.mem_filter.mp (List.mem_of_getElem? hj) with ⟨hjm, hjc⟩
  rw [Bool.and_eq_true, Bool.not_eq_true'] at hjc
  exact ⟨j, hjm, of_decide_eq_true hjc.1, hjc.2, rfl⟩

theorem eq_some_of_elim_asking {o : Option Job} {job : Job}
    (h : o.elim WorkerPhase.idle .asking = .asking job) : o = some job := by
  cases o with
  | none => exact absurd h (by simp only [Option.elim_none, reduceCtorEq, not_false_eq_true])
  | some job' => exact congrArg some (WorkerPhase.asking.inj h)

theorem elim_asking_ne_running (o : Option Job) (job : Job) :
    o.elim WorkerPhase.idle .asking ≠ .running job := by
  cases o with
  | none => simp only [Option.elim_none, ne_eq, reduceCtorEq, not_false_eq_true]
  | some job' => simp only [Option.elim_some, ne_eq, reduceCtorEq, not_false_eq_true]

/-- What is asked for next is the job that was read, and the others are kept. -/
theorem knows_pop {db : Db} {d d' : Daemon} {payload : String} {rest : List String}
    (h : d.Knows db) (hn : d.notifies = payload :: rest)
    (hmove : (jobOfPayload payload).map
      (fun job => { d with notifies := rest, phase := .asking job }) = some d') : d'.Knows db := by
  rcases Option.map_eq_some_iff.mp hmove with ⟨job, hjob, rfl⟩
  refine ⟨fun q hq => h.notifies q (hn ▸ List.mem_cons_of_mem payload hq), fun job' hj => ?_,
    fun job' hj => absurd hj (by simp only [reduceCtorEq, not_false_eq_true])⟩
  rcases h.notifies payload (hn ▸ List.mem_cons_self) with ⟨j, hjm, hg, hpay⟩
  rw [hjob, Option.some.injEq] at hpay
  rw [WorkerPhase.asking.injEq] at hj
  exact ⟨j, hjm, hg, hj.symm.trans hpay⟩

/-- A process knows no more after a move than it was told. -/
theorem knows_move {loc : Locale} {c c' : Cluster} {d d' : Daemon} {m : DaemonMove} (h : d.Knows c.db)
    (hc' : c' = (d.sends m).elim c (turn loc c)) (hi : Inv c'.db) (ht : Told c'.db)
    (hjobs : ∀ j ∈ c.db.jobPool, ∃ j' ∈ c'.db.jobPool, j'.job = j.job)
    (hmove : d.move loc c m = some d') : d'.Knows c'.db := by
  have hnothing : ∀ notices, d.notifies = (d.receive notices 0).notifies := by
    intro notices
    unfold Daemon.receive
    dsimp only
    rw [List.take_zero, List.append_nil]
  -- A move that is not the next one: nothing arrives, and the phase stays.
  have hsame : d' = d → d'.Knows c'.db := by
    rintro rfl
    exact h.carry hi ht hjobs ⟨hnothing _, rfl⟩ (fun job hj => .inl hj) (fun job hj => .inr hj)
  cases m with
  | timeout pick k =>
      unfold Daemon.move at hmove
      dsimp only at hmove
      by_cases hfree : d.free false = true
      · rw [if_pos hfree, Option.some.injEq] at hmove
        subst hc' hmove
        refine h.carry hi ht hjobs ⟨rfl, rfl⟩ (fun job hj => .inr ?_)
          (fun job hj => absurd hj (elim_asking_ne_running _ job))
        rcases jobLookup_eq_some (eq_some_of_elim_asking hj) with ⟨j, hjm, hg, -, hjob⟩
        exact ⟨j, hjm, hg, hjob⟩
      · rw [if_neg hfree, Option.some.injEq] at hmove
        exact hsame hmove.symm
  | ready k =>
      unfold Daemon.move at hmove
      dsimp only at hmove
      by_cases hfree : d.free false = true
      · rw [if_pos hfree, Option.some.injEq] at hmove
        subst hc' hmove
        exact h.carry hi ht hjobs ⟨rfl, rfl⟩ (fun job hj => .inl hj) (fun job hj => .inr hj)
      · rw [if_neg hfree, Option.some.injEq] at hmove
        exact hsame hmove.symm
  | pop =>
      unfold Daemon.move at hmove
      dsimp only at hmove
      by_cases hfree : d.free true = true
      · rw [if_pos hfree] at hmove
        subst hc'
        cases hn : d.notifies with
        | nil =>
            rw [hn, Option.some.injEq] at hmove
            subst hmove
            exact ⟨fun _ hq => absurd hq List.not_mem_nil, h.asking, h.running⟩
        | cons payload rest =>
            rw [hn] at hmove
            exact knows_pop h hn hmove
      · rw [if_neg hfree, Option.some.injEq] at hmove
        exact hsame hmove.symm
  | lock env k =>
      unfold Daemon.move at hmove
      unfold Daemon.sends at hc'
      dsimp only at hmove hc'
      cases hp : d.phase with
      | asking job =>
          rw [hp] at hmove hc'
          dsimp only [Option.elim_some] at hmove hc'
          rw [Option.some.injEq] at hmove
          subst hc' hmove
          refine h.carry hi ht hjobs ⟨rfl, rfl⟩ (fun job' hj => .inl ?_) (fun job' hj => .inl ?_)
          · rw [hp, afterLock_eq_asking hj]
          · rw [hp, (afterLock_eq_running hj).2]
      | idle =>
          rw [hp] at hmove
          exact hsame (Option.some.inj hmove).symm
      | running job =>
          rw [hp] at hmove
          exact hsame (Option.some.inj hmove).symm
  | update env newWid vals k =>
      unfold Daemon.move at hmove
      unfold Daemon.sends at hc'
      dsimp only at hmove hc'
      cases hp : d.phase with
      | running job =>
          rw [hp] at hmove hc'
          dsimp only [Option.elim_some] at hmove hc'
          rw [Option.some.injEq] at hmove
          subst hc' hmove
          refine h.carry hi ht hjobs ⟨rfl, rfl⟩
            (fun job' hj => absurd hj (afterUpdate_ne_asking job job' _)) (fun job' hj => .inr ?_)
          rw [hp, afterUpdate_eq_running hj]
      | idle =>
          rw [hp] at hmove
          exact hsame (Option.some.inj hmove).symm
      | asking job =>
          rw [hp] at hmove
          exact hsame (Option.some.inj hmove).symm
  | kill => exact absurd hmove.symm (Option.some_ne_none d')

/-- What is true of the processes and the cluster along every run. -/
structure Crew.Sound (c : Crew) : Prop where
  cluster : ClusterInv c.cluster
  told : Told c.cluster.db
  knows : ∀ w d, c.members w = some d → d.Knows c.cluster.db

theorem sound_empty : Crew.empty.Sound :=
  ⟨clusterInv_empty, fun _ hn => absurd hn List.not_mem_nil,
    fun _ d hd => absurd hd.symm (Option.some_ne_none d)⟩

theorem sound_beat (loc : Locale) (c : Crew) (b : Beat) (h : c.Sound) : (c.beat loc b).Sound := by
  -- The cluster takes one turn or none.
  have hcluster : ClusterInv (c.beat loc b).cluster ∧ Told (c.beat loc b).cluster.db ∧
      ∀ j ∈ c.cluster.db.jobPool, ∃ j' ∈ (c.beat loc b).cluster.db.jobPool, j'.job = j.job := by
    unfold Crew.beat
    dsimp only
    cases c.sends b with
    | none => exact ⟨h.cluster, h.told, fun j hj => ⟨j, hj, rfl⟩⟩
    | some t =>
        exact ⟨clusterInv_turn loc _ t h.cluster, told_turn loc _ t h.cluster h.told,
          fun j hj => exists_job_turn loc _ t h.cluster hj⟩
  rcases hcluster with ⟨hc, ht, hjobs⟩
  -- Those who do not move receive nothing.
  have hstay : ∀ d : Daemon, d.Knows c.cluster.db → d.Knows (c.beat loc b).cluster.db := by
    intro d hd
    refine hd.carry (k := 0) hc.inv ht hjobs ⟨?_, rfl⟩ (fun job hj => .inl hj) (fun job hj => .inr hj)
    unfold Daemon.receive
    dsimp only
    rw [List.take_zero, List.append_nil]
  refine ⟨hc, ht, fun w d hd => ?_⟩
  cases b with
  | other t => exact hstay d (h.knows w d hd)
  | start v tgid =>
      change Crew.moved loc c (.start v tgid) w = some d at hd
      unfold Crew.moved at hd
      dsimp only at hd
      by_cases hnone : (c.members v).isNone = true
      · rw [if_pos hnone] at hd
        by_cases hw : w = v
        · rw [hw, Function.update_self, Option.some.injEq] at hd
          rw [← hd]
          exact ⟨fun _ hp => absurd hp List.not_mem_nil,
            fun _ hp => absurd hp (by simp only [Daemon.listen, reduceCtorEq, not_false_eq_true]),
            fun _ hp => absurd hp (by simp only [Daemon.listen, reduceCtorEq, not_false_eq_true])⟩
        · rw [Function.update_of_ne hw] at hd
          exact hstay d (h.knows w d hd)
      · rw [if_neg hnone] at hd
        exact hstay d (h.knows w d hd)
  | move v m =>
      change Function.update c.members v ((c.members v).bind (·.move loc c.cluster m)) w = some d at hd
      by_cases hw : w = v
      · rw [hw, Function.update_self] at hd
        rcases Option.bind_eq_some_iff.mp hd with ⟨d₀, hd₀, hmove⟩
        refine knows_move (h.knows v d₀ hd₀) ?_ hc.inv ht hjobs hmove
        unfold Crew.beat Crew.sends
        dsimp only
        rw [hd₀, Option.bind_some]
      · rw [Function.update_of_ne hw] at hd
        exact hstay d (h.knows w d hd)

theorem sound_crew (loc : Locale) (bs : List Beat) : (crew loc bs).Sound :=
  Machine.after_invariant (Crew.beat loc) (fun _ => True) Crew.Sound (fun c b _ => sound_beat loc c b)
    Crew.empty sound_empty bs (fun _ _ => trivial)

theorem history_sound (loc : Locale) (bs : List Beat) :
    ∀ p ∈ Machine.history (Crew.beat loc) Crew.empty bs, p.1.Sound :=
  Machine.history_states (Crew.beat loc) Crew.Sound (sound_beat loc) Crew.empty sound_empty bs

/-- However processes are started, moved and ended, and whatever else goes on: the
    body of the transition of a job is run once at most. The process that runs it
    was started for the trigger of the job, and was told of the job as it stands in
    the pool. -/
theorem one_process_runs (loc : Locale) (bs : List Beat) (u : String) :
    (Machine.history (Crew.beat loc) Crew.empty bs).countP (begins loc u) ≤ 1 ∧
      ∀ p ∈ Machine.history (Crew.beat loc) Crew.empty bs, begins loc u p = true →
        ∃ w m d, p.2 = .move w m ∧ p.1.members w = some d ∧
          ∃ j ∈ p.1.cluster.db.jobPool, j.uptkn = u ∧ j.tgid = d.tgid ∧
            d.phase = .asking ⟨j.tgid, j.wid, j.uptkn⟩ := by
  refine ⟨countP_begins loc bs u, fun p hp hbegin => ?_⟩
  rcases begins_cases hbegin with ⟨w, env, k, d, job, hb, hd, hask, hu, -⟩
  rcases ((history_sound loc bs p hp).knows w d hd).asking job hask with ⟨j, hj, hg, rfl⟩
  exact ⟨w, _, d, hb, hd, j, hj, hu, hg, hask⟩

/-- The process `w` is ended. -/
def Beat.ends (w : Nat) : Beat → Bool
  | .move v .kill => v = w
  | _ => false

/-- What a process takes from its list is read as a job, so no move of its own ends
    it. -/
theorem tgid_move {loc : Locale} {c : Cluster} {d : Daemon} (hknows : d.Knows c.db) (m : DaemonMove)
    (hm : m ≠ .kill) : ∃ d', d.move loc c m = some d' ∧ d'.tgid = d.tgid := by
  cases m with
  | timeout pick k =>
      unfold Daemon.move
      dsimp only
      split <;> exact ⟨_, rfl, rfl⟩
  | ready k =>
      unfold Daemon.move
      dsimp only
      split <;> exact ⟨_, rfl, rfl⟩
  | pop =>
      unfold Daemon.move
      dsimp only
      by_cases hfree : d.free true = true
      · rw [if_pos hfree]
        cases hn : d.notifies with
        | nil => exact ⟨_, rfl, rfl⟩
        | cons payload rest =>
            rcases hknows.notifies payload (hn ▸ List.mem_cons_self) with ⟨j, -, -, hpay⟩
            dsimp only
            rw [hpay]
            exact ⟨_, rfl, rfl⟩
      · rw [if_neg hfree]
        exact ⟨_, rfl, rfl⟩
  | lock env k =>
      unfold Daemon.move
      dsimp only
      split <;> exact ⟨_, rfl, rfl⟩
  | update env newWid vals k =>
      unfold Daemon.move
      dsimp only
      split <;> exact ⟨_, rfl, rfl⟩
  | kill => exact absurd rfl hm

theorem tgid_beat (loc : Locale) {c : Crew} (hs : c.Sound) {b : Beat} {w : Nat}
    (hends : b.ends w = false) {d : Daemon} (hd : c.members w = some d) :
    ∃ d', (c.beat loc b).members w = some d' ∧ d'.tgid = d.tgid := by
  cases b with
  | other t => exact ⟨d, hd, rfl⟩
  | start v tgid => exact ⟨d, members_start hd v tgid, rfl⟩
  | move v m =>
      by_cases hw : w = v
      · subst hw
        rw [members_move hd]
        refine tgid_move (hs.knows w d hd) m (fun hkill => ?_)
        subst hkill
        exact absurd (decide_eq_true rfl) (Bool.eq_false_iff.mp hends)
      · rw [members_move_of_ne hw]
        exact ⟨d, hd, rfl⟩

/-- A process is there until somebody ends it, and works for its trigger: whatever
    notification it takes is read as a job. -/
theorem no_notification_ends (loc : Locale) (bs bs' : List Beat) (w : Nat) (d : Daemon)
    (hd : (crew loc bs).members w = some d) (hends : ∀ b ∈ bs', b.ends w = false) :
    ∃ d', (crew loc (bs ++ bs')).members w = some d' ∧ d'.tgid = d.tgid := by
  have hend : crew loc (bs ++ bs') = Machine.after (Crew.beat loc) (crew loc bs) bs' :=
    Machine.after_append _ _ _ _
  rw [hend]
  refine (Machine.after_invariant (Crew.beat loc) (fun b => b.ends w = false)
    (fun c => c.Sound ∧ ∃ d', c.members w = some d' ∧ d'.tgid = d.tgid) ?_ _
    ⟨sound_crew loc bs, d, hd, rfl⟩ bs' hends).2
  rintro c b hb ⟨hs, d', hd', hg⟩
  rcases tgid_beat loc hs hb hd' with ⟨d'', hd'', hg'⟩
  exact ⟨sound_beat loc c b hs, d'', hd'', hg'.trans hg⟩

/-- A process that waits while an instance is started, reads what is sent, and asks
    for the job. -/
theorem no_notification_ends_told :
    let bs := tiny.map (fun i => Beat.other (.statement i)) ++ [.start 0 1]
    let bs' := [.other (.statement ⟨clock 1, .insertFlow 7 none []⟩), .move 0 (.ready 1), .move 0 .pop]
    (∃ d', (crew asciiLocale (bs ++ bs')).members 0 = some d' ∧ d'.tgid = 1) ∧
      (crew asciiLocale (bs ++ bs')).phase 0 = .asking ⟨1, 7, tokenAt 1 0⟩ := by
  intro bs bs'
  rcases Option.isSome_iff_exists.mp (show ((crew asciiLocale bs).members 0).isSome = true by
    decide +kernel) with ⟨d, hd⟩
  have hg : ((crew asciiLocale bs).members 0).map (·.tgid) = some 1 := by decide +kernel
  rw [hd] at hg
  have hone : d.tgid = 1 := Option.some.inj hg
  have hstays := no_notification_ends asciiLocale bs bs' 0 d hd (by decide +kernel)
  rw [hone] at hstays
  exact ⟨hstays, by decide +kernel⟩

/-! ## Searches -/

/-- A call of `job_lock` for a job in the pool, once it is answered, leaves the job
    locked, whoever it was that got it. -/
theorem held_of_answered (loc : Locale) {c : Cluster} (hc : ClusterInv c) {j : JobRow}
    (hj : j ∈ c.db.jobPool) (env : Env) (lckid : Option String)
    (ha : (serve loc c (.statement ⟨env, .jobLock j.uptkn lckid⟩)).2 ≠ .pending) :
    Held j.uptkn (turn loc c (.statement ⟨env, .jobLock j.uptkn lckid⟩)).db := by
  by_cases hl : j.locked = true
  · exact held_turn loc c _ hc _ ⟨j, hj, rfl, hl⟩
  · -- The job can be locked, so the answer is that it has been.
    have hex : exec loc ⟨env, .jobLock j.uptkn lckid⟩ c.db
        = .ok (writeJob j.uptkn (lockRow env.now lckid) c.db, .bool true) := by
      refine (Table.map_eq_ok _ _ _).mpr ⟨(_, true), ?_, rfl⟩
      exact (jobLock_ok_iff env.now j.uptkn lckid _ _ true hc.inv.lockJob hc.inv.pool.tokens).mpr
        (.inr ⟨j, jobOf_eq c.db hc.inv.pool.tokens j hj, Bool.eq_false_iff.mpr hl, rfl, rfl⟩)
    have hans : (serve loc c (.statement ⟨env, .jobLock j.uptkn lckid⟩)).2 = .replied (.bool true) := by
      unfold serve at ha ⊢
      dsimp only at ha ⊢
      by_cases hg : c.grants none (lockMode loc c.db (.jobLock j.uptkn lckid)) = true
      · rw [if_pos hg, hex]
      · rw [if_neg hg] at ha
        exact absurd rfl ha
    exact (held_of_locks hc ((locksJob_iff loc _ _ _).mpr ⟨_, _, rfl, hans, lckid, rfl, rfl⟩)).2

/-- The token is locked, or the process still asks for it. -/
def Pursued (w : Nat) (c : Crew) (u : String) : Prop :=
  Held u c.cluster.db ∨ ∃ job, c.phase w = .asking job ∧ job.uptkn = u

theorem held_beat {loc : Locale} {c : Crew} {b : Beat} {u : String} (hs : c.Sound)
    (h : Held u c.cluster.db) : Held u (c.beat loc b).cluster.db := by
  unfold Crew.beat
  dsimp only
  cases c.sends b with
  | none => exact h
  | some t => exact held_turn loc _ t hs.cluster u h

/-- A process that is not ended pursues a job until somebody has locked it. -/
theorem pursued_beat (loc : Locale) {c : Crew} {b : Beat} {w : Nat} {u : String} (hs : c.Sound)
    (hends : b.ends w = false) (h : Pursued w c u) : Pursued w (c.beat loc b) u := by
  rcases h with hheld | ⟨job, hask, rfl⟩
  · exact .inl (held_beat hs hheld)
  · rcases exists_member hask with ⟨d, hd, hphase⟩
    have hstay : (c.beat loc b).members w = some d → Pursued w (c.beat loc b) job.uptkn := by
      intro hsame
      refine .inr ⟨job, ?_, rfl⟩
      unfold Crew.phase
      rw [hsame, Option.elim_some, hphase]
    cases b with
    | other t => exact hstay hd
    | start v tgid =>
        exact hstay (members_start hd v tgid)
    | move v m =>
        by_cases hw : w = v
        · subst hw
          rcases move_asking loc c.cluster hphase m
            with rfl | hsame | ⟨env, k, rfl, d', hd', hphase'⟩
          · exact absurd (decide_eq_true rfl) (Bool.eq_false_iff.mp hends)
          · exact hstay ((members_move hd m).trans hsame)
          · rcases (hs.knows w d hd).asking job hphase with ⟨j, hj, -, rfl⟩
            by_cases hpend : (serve loc c.cluster (j.job.lockTurn env (toString d.tgid))).2 = .pending
            · -- It has to wait, and will ask again.
              refine .inr ⟨j.job, ?_, rfl⟩
              unfold Crew.phase
              rw [members_move hd, hd', Option.elim_some, hphase', hpend]
              rfl
            · refine .inl ?_
              unfold Crew.beat
              dsimp only
              rw [sends_lock hd hphase]
              exact held_of_answered loc hs.cluster hj env _ hpend
        · exact hstay ((members_move_of_ne hw m).trans hd)

/-- A search comes back with a job that is not locked, and the process now asks for
    it. It had no job before. -/
theorem found_cases (loc : Locale) {c : Crew} {b : Beat} {w : Nat} {u : String}
    (h : found w (c, b) = some u) :
    c.phase w = .idle ∧ (∃ j ∈ c.cluster.db.jobPool, j.uptkn = u ∧ j.locked = false) ∧
      ∃ job, (c.beat loc b).phase w = .asking job ∧ job.uptkn = u := by
  cases b with
  | other t => exact absurd h.symm (Option.some_ne_none u)
  | start v tgid => exact absurd h.symm (Option.some_ne_none u)
  | move v m =>
      cases m with
      | timeout pick k =>
          unfold found at h
          dsimp only at h
          by_cases hv : v = w
          · rw [if_pos hv] at h
            rcases Option.bind_eq_some_iff.mp h with ⟨d, hd, hlook⟩
            by_cases hfree : d.free false = true
            · rw [if_pos hfree] at hlook
              rcases Option.map_eq_some_iff.mp hlook with ⟨job, hjob, rfl⟩
              rcases jobLookup_eq_some hjob with ⟨j, hj, -, hl, rfl⟩
              refine ⟨?_, ⟨j, hj, rfl, hl⟩, j.job, ?_, rfl⟩
              · unfold Crew.phase
                rw [hd, Option.elim_some]
                exact (Daemon.free_iff.mp hfree).1
              · unfold Crew.phase
                rw [hv, members_move hd, Daemon.move, if_pos hfree, Option.elim_some]
                dsimp only
                rw [hjob, Option.elim_some]
            · rw [if_neg hfree] at hlook
              exact absurd hlook.symm (Option.some_ne_none u)
          · rw [if_neg hv] at h
            exact absurd h.symm (Option.some_ne_none u)
      | ready k => exact absurd h.symm (Option.some_ne_none u)
      | pop => exact absurd h.symm (Option.some_ne_none u)
      | lock env k => exact absurd h.symm (Option.some_ne_none u)
      | update env newWid vals k => exact absurd h.symm (Option.some_ne_none u)
      | kill => exact absurd h.symm (Option.some_ne_none u)

/-- A process that is not ended never comes back from two searches with the same
    job, whatever the others do in the meantime: what it has found once is locked
    before it searches again, by itself or by somebody else. -/
theorem searches_differ (loc : Locale) (bs : List Beat) (w : Nat)
    (hends : ∀ b ∈ bs, b.ends w = false) :
    ((Machine.history (Crew.beat loc) Crew.empty bs).filterMap (found w)).Nodup := by
  refine (Machine.history_invariant (Crew.beat loc) (fun b => b.ends w = false)
    (fun past c => c.Sound ∧ (∀ u ∈ past.filterMap (found w), Pursued w c u) ∧
      (past.filterMap (found w)).Nodup) Crew.empty
    ⟨sound_empty, fun _ hu => absurd hu List.not_mem_nil, List.nodup_nil⟩ ?_ bs hends).2.2
  rintro past c b hb ⟨hs, hpast, hnodup⟩
  refine ⟨sound_beat loc c b hs, ?_⟩
  rw [List.filterMap_append]
  have hkeep := fun u hu => pursued_beat loc hs hb (hpast u hu)
  cases hf : found w (c, b) with
  | none =>
      rw [List.filterMap_cons_none hf, List.filterMap_nil, List.append_nil]
      exact ⟨hkeep, hnodup⟩
  | some u =>
      rw [List.filterMap_cons_some hf, List.filterMap_nil]
      rcases found_cases loc hf with ⟨hidle, ⟨j, hj, hju, hl⟩, hask⟩
      constructor
      · refine List.forall_mem_append.mpr ⟨hkeep, List.forall_mem_singleton.mpr (.inr hask)⟩
      · refine List.nodup_append.mpr ⟨hnodup, List.nodup_singleton u, fun v hv v' hv' heq => ?_⟩
        rw [List.mem_singleton.mp hv'] at heq
        -- Everything found before is locked by now, and this job is not.
        rcases hpast v hv with ⟨i, him, hiu, hil⟩ | ⟨job, hasking, -⟩
        · rw [hs.cluster.inv.pool.tokens.eq_of_mem him hj (hiu.trans (heq.trans hju.symm)), hl] at hil
          exact Bool.false_ne_true hil
        · exact absurd (hidle.symm.trans hasking) (by simp only [reduceCtorEq, not_false_eq_true])

/-- Two instances fire the trigger before its process is there. -/
def latecomer : List Beat :=
  tiny.map (fun i => .other (.statement i)) ++
    [.other (.statement ⟨clock 1, .insertFlow 7 none []⟩),
      .other (.statement ⟨clock 2, .insertFlow 8 none []⟩), .start 0 1, .move 0 (.timeout 1 0),
      .move 0 (.lock (clock 3) 0), .move 0 (.update (clock 4) none [("st", some "half")] 0),
      .move 0 (.timeout 1 0)]

/-- It has to search, and finds one after the other. -/
theorem searches_differ_latecomer :
    (Machine.history (Crew.beat asciiLocale) Crew.empty latecomer).filterMap (found 0)
        = [tokenAt 2 0, tokenAt 1 0] ∧ [tokenAt 2 0, tokenAt 1 0].Nodup := by
  have hfound : (Machine.history (Crew.beat asciiLocale) Crew.empty latecomer).filterMap (found 0)
      = [tokenAt 2 0, tokenAt 1 0] := by decide +kernel
  have hdiffer := searches_differ asciiLocale latecomer 0 (by decide +kernel)
  rw [hfound] at hdiffer
  exact ⟨hfound, hdiffer⟩

end WedFlow
