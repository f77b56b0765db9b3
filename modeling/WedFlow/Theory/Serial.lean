import WedFlow.Theory.Inspector
import WedFlow.Theory.Requeue

/-!
# A Serial Order

A run of `job_inspector` is two steps, a scan and a loop, and statements of
others commit in between. They are as good as one: the sessions, however they
take turns, leave the database that the statements would have left one by one in
the order of their commits, with the same replies. This is `cluster_serial`, and
it needs that nobody has aborted a job between the scan that found it and the
loop that replaces it.

The reason is that a scan does not grow old. What it has found and what is still
open is what a scan for the same time would find now (`Since`). Jobs created
since are pending, and jobs locked since were locked later, so with a clock that
does not go back and timeouts that are not negative neither has expired at that
time.

The same fact bounds how long a job can overstay. Once an inspection is through,
no open job had expired when its scan was made, at any later time.

## Main definitions

* `Forward`, `Patient`: What is assumed of the clock and of the timeouts.
* `JobRow.Ages`, `Aged`: What a write of the pool does to the jobs that had
  expired at a given time.
* `Since`: What is left of a scan.
* `Env.drawing`: Surroundings with given draws.
* `committed`, `performed`: The statement a turn completes, and its reply.
* `inspects`: The time of the scan of an inspection that is through.

## Theorems

* `aged_turn`: Every turn is such a write.
* `held_since`: Scans do not grow old.
* `freshJobs_drawing`: Any tokens can be the ones that are drawn.
* `cluster_serial`: The serial order.
* `inspection_catches`: What has expired when a scan is made is closed when its
  inspection is through, and stays so.
-/

namespace WedFlow

/-! ## The clock and the timeouts -/

/-- The time a turn reads from the clock. -/
def Turn.time : Turn → Option Time
  | .statement i => some i.env.now
  | .scan _ now => some now
  | _ => none

/-- The trigger a turn defines. -/
def Turn.trig : Turn → Option TrigRow
  | .statement i => i.op.trig
  | _ => none

/-- The clock does not go back. -/
def Forward (ts : List Turn) : Prop :=
  (ts.filterMap Turn.time).Pairwise (· ≤ ·)

instance (ts : List Turn) : Decidable (Forward ts) :=
  inferInstanceAs (Decidable (List.Pairwise _ _))

/-- No trigger is given a negative timeout. -/
def Patient (ts : List Turn) : Prop :=
  ∀ d ∈ (ts.filterMap Turn.trig).filterMap TrigRow.tout, 0 ≤ d

instance (ts : List Turn) : Decidable (Patient ts) :=
  inferInstanceAs (Decidable (∀ d ∈ _, _))

theorem Forward.init {ts : List Turn} {t : Turn} (h : Forward (ts ++ [t])) : Forward ts := by
  unfold Forward at h
  rw [List.filterMap_append, List.pairwise_append] at h
  exact h.1

theorem Patient.init {ts : List Turn} {t : Turn} (h : Patient (ts ++ [t])) : Patient ts := by
  intro d hd
  refine h d ?_
  rw [List.filterMap_append, List.filterMap_append]
  exact List.mem_append_left _ hd

/-- The last turn reads the clock no earlier than those before it. -/
theorem Forward.last {ts : List Turn} {t : Turn} (h : Forward (ts ++ [t])) {τ now : Time}
    (hτ : τ ∈ ts.filterMap Turn.time) (ht : t.time = some now) : τ ≤ now := by
  unfold Forward at h
  rw [List.filterMap_append, List.pairwise_append] at h
  refine h.2.2 τ hτ now ?_
  rw [List.filterMap_cons_some ht]
  exact List.mem_cons_self

/-- No timeout is negative, of a trigger, a job or a row of a scan. -/
structure Lasting (c : Cluster) : Prop where
  trig : ∀ t ∈ c.db.wedTrig, ∀ d, t.tout = some d → 0 ≤ d
  job : ∀ j ∈ c.db.jobPool, 0 ≤ j.tout
  scan : ∀ s ∈ c.scans, ∀ r ∈ s.2.rows, 0 ≤ r.tout

theorem lasting_freshJobs {env : Env} {n : Nat} {rs : List Request} (h : ∀ r ∈ rs, 0 ≤ r.tout) :
    ∀ j ∈ freshJobs env n rs, 0 ≤ j.tout := by
  intro j hj
  rcases mem_freshJobs env n rs j hj with ⟨r, hr, m, rfl⟩
  exact h r hr

/-- Triggers are only added or replaced, by what a statement defines. -/
theorem trig_origin {loc : Locale} {env : Env} {db db' : Db} {op : Op} {r : Reply}
    (h : Change loc env db op r db') : ∀ t ∈ db'.wedTrig, t ∈ db.wedTrig ∨ op.trig = some t := by
  intro t ht
  cases h with
  | insert wid uptkn vals w h => exact .inl ht
  | noRow wid newWid uptkn vals h => exact .inl ht
  | update wid newWid uptkn vals old u db₁ w h =>
      rcases h.justified with ⟨f, e, -, -, hj⟩
      generalize w.tgid = g at hj
      cases hj with
      | job j hne hj hrun hwid => exact .inl ht
      | recovery he hx => exact .inl ht
  | noLock u lckid h => exact .inl ht
  | lock u lckid j hj hl => exact .inl ht
  | noAbort u h => exact .inl ht
  | abort u j hj hl ha => exact .inl ht
  | noRequeue h => exact .inl ht
  | requeue h hf => exact .inl ht
  | redefine op db' hop h => exact h.origin t ht
  | restyle op db' hop h =>
      rcases h.same with ⟨f, hsame⟩
      rw [hsame] at ht
      exact .inl ht

/-- A job gets its timeout from its trigger or from the job it replaces. -/
theorem touts_change {loc : Locale} {env : Env} {db db' : Db} {op : Op} {r : Reply}
    (h : Change loc env db op r db') (ht : ∀ t ∈ db.wedTrig, ∀ d, t.tout = some d → 0 ≤ d)
    (hj : ∀ j ∈ db.jobPool, 0 ≤ j.tout) : ∀ j ∈ db'.jobPool, 0 ≤ j.tout := by
  -- A trigger that fires has a timeout, and it is not negative.
  have hfired : ∀ {rtrg : List Int} {db₁ : Db} {w : Write}, Settles loc env rtrg db₁ w →
      db₁.wedTrig = db.wedTrig → ∀ j ∈ w.jobs env, 0 ≤ j.tout := by
    intro rtrg db₁ w hs heq
    refine lasting_freshJobs (fun q hq => ?_)
    rcases List.mem_map.mp hq with ⟨t, htm, rfl⟩
    rcases Option.isSome_iff_exists.mp (hs.outs t htm) with ⟨d, hd⟩
    change 0 ≤ t.tout.getD 0
    rw [hd]
    exact ht t (heq ▸ (hs.fired_mem htm).1) d hd
  cases h with
  | insert wid uptkn vals w h =>
      exact List.forall_mem_append.mpr ⟨hj, hfired h.settles rfl⟩
  | noRow wid newWid uptkn vals h => exact hj
  | update wid newWid uptkn vals old u db₁ w h =>
      rcases h.justified with ⟨f, e, -, -, hjust⟩
      have hold : db₁.wedTrig = db.wedTrig ∧ ∀ j ∈ db₁.jobPool, 0 ≤ j.tout := by
        generalize w.tgid = g at hjust
        cases hjust with
        | job j hne hjm hrun hwid =>
            exact ⟨rfl, forall_updateWhere _ _ _ hj (fun _ _ _ hle => hle)⟩
        | recovery he hx => exact ⟨rfl, hj⟩
      exact List.forall_mem_append.mpr ⟨hold.2, hfired h.settles hold.1⟩
  | noLock u lckid h => exact hj
  | lock u lckid j hjm hl => exact forall_updateWhere _ _ _ hj (fun _ _ _ hle => hle)
  | noAbort u h => exact hj
  | abort u j hjm hl ha => exact forall_updateWhere _ _ _ hj (fun _ _ _ hle => hle)
  | noRequeue h => exact hj
  | requeue h hf =>
      refine List.forall_mem_append.mpr
        ⟨forall_updateWhere _ _ _ hj (fun _ _ _ hle => hle), lasting_freshJobs (fun q hq => ?_)⟩
      rcases List.mem_map.mp hq with ⟨row, hrow, rfl⟩
      rcases (mem_expired env.now db row).mp hrow with ⟨j, hjm, -, t, -, -, rfl⟩
      exact hj j hjm
  | redefine op db' hop h =>
      rw [h.same]
      exact hj
  | restyle op db' hop h =>
      rcases h.same with ⟨f, hsame⟩
      rw [hsame]
      exact hj

theorem lasting_turned {loc : Locale} {c c' : Cluster} {t : Turn} {a : Answer} (hc : ClusterInv c)
    (ht : Turned loc c t a c') (hp : ∀ q, t.trig = some q → ∀ d, q.tout = some d → 0 ≤ d)
    (h : Lasting c) : Lasting c' := by
  have hrelease : ∀ pid, Lasting (c.release pid) := fun pid =>
    ⟨h.trig, h.job, fun s hs => h.scan s (List.mem_filter.mp hs).1⟩
  cases ht with
  | idle t a ha => exact h
  | statement i db r hg hex =>
      have hch := exec_change loc i c.db db r hc.inv hex
      refine ⟨fun q hq d hd => ?_, touts_change hch h.trig h.job, h.scan⟩
      rcases trig_origin hch q hq with hq | hq
      · exact h.trig q hq d hd
      · exact hp q hq d hd
  | scan pid now hfree =>
      refine ⟨h.trig, h.job, List.forall_mem_append.mpr ⟨h.scan, ?_⟩⟩
      refine List.forall_mem_singleton.mpr (fun row hrow => ?_)
      rcases (mem_expired now c.db row).mp hrow with ⟨j, hjm, -, q, -, -, rfl⟩
      exact h.job j hjm
  | release t a pid ha => exact hrelease pid
  | noRows pid env s hs hrows => exact hrelease pid
  | loop pid env s db hs hg hreq =>
      have hm := List.mem_of_find?_eq_some hs
      rcases ((hc.scans _ hm).requeue_ok_iff hc.inv loc _ db).mp hreq with ⟨-, rfl⟩
      refine ⟨h.trig, List.forall_mem_append.mpr
        ⟨forall_updateWhere _ _ _ h.job (fun _ _ _ hle => hle), lasting_freshJobs (fun q hq => ?_)⟩,
        (hrelease pid).scan⟩
      rcases List.mem_map.mp hq with ⟨row, hrow, rfl⟩
      exact h.scan _ hm row hrow

theorem cluster_lasting (loc : Locale) (ts : List Turn) (hp : Patient ts) :
    Lasting (cluster loc ts) := by
  have hstep : ∀ c t, (∀ q, t.trig = some q → ∀ d, q.tout = some d → 0 ≤ d) →
      ClusterInv c ∧ Lasting c → ClusterInv (turn loc c t) ∧ Lasting (turn loc c t) :=
    fun c t ht h => ⟨clusterInv_turn loc c t h.1, lasting_turned h.1 (serve_turned loc c t) ht h.2⟩
  refine (Machine.after_invariant (turn loc) _ _ hstep Cluster.empty ⟨clusterInv_empty, ?_⟩ ts ?_).2
  · exact ⟨fun _ h => absurd h List.not_mem_nil, fun _ h => absurd h List.not_mem_nil,
      fun _ h => absurd h List.not_mem_nil⟩
  · intro t ht q hq d hd
    exact hp d (List.mem_filterMap.mpr ⟨q, List.mem_filterMap.mpr ⟨t, ht, hq⟩, hd⟩)

/-! ## What a write does to expired jobs -/

/-- What a write of a row does to a job that had expired at `τ`: it may close it.
    It makes no other job one of these. -/
structure JobRow.Ages (τ : Time) (j j' : JobRow) : Prop where
  key_eq : j'.key = j.key
  closed : j.tf ≠ none → j'.tf ≠ none
  expired : isExpired τ j' = true ↔ isExpired τ j = true ∧ j'.tf = none

theorem JobRow.Ages.refl (τ : Time) (j : JobRow) : j.Ages τ j :=
  ⟨rfl, id, ⟨fun h => ⟨h, (isExpired_open τ j h).1⟩, fun h => h.1⟩⟩

theorem ages_of_closed {τ : Time} {j j' : JobRow} (hk : j'.key = j.key) (hc : j'.tf ≠ none) :
    j.Ages τ j' :=
  ⟨hk, fun _ => hc, ⟨fun h => absurd (isExpired_open τ j' h).1 hc, fun h => absurd h.2 hc⟩⟩

/-- A job that is locked after `τ` had not expired at `τ`. -/
theorem ages_lock {τ now : Time} {j : JobRow} (lckid : Option String) (hti : j.ti = none)
    (hle : τ ≤ now) (hout : 0 ≤ j.tout) : j.Ages τ (lockRow now lckid j) := by
  refine ⟨rfl, id, ⟨fun h => ?_, fun h => ?_⟩⟩
  · rcases (isExpired_iff τ _).mp h with ⟨-, ti, heq, hgt⟩
    rw [← Option.some.inj heq] at hgt
    exact absurd (Int.lt_of_le_of_lt hout hgt) (Int.not_lt.mpr (Int.sub_nonpos_of_le hle))
  · rcases (isExpired_iff τ j).mp h.1 with ⟨-, ti, heq, -⟩
    exact absurd (hti.symm.trans heq) (Option.some_ne_none ti).symm

/-- A write of the pool: every old row ages, and the new ones are pending. -/
def Aged (τ : Time) (pool pool' : List JobRow) : Prop :=
  ∃ old jobs, pool' = old ++ jobs ∧ List.Forall₂ (JobRow.Ages τ) pool old ∧ ∀ j ∈ jobs, j.Pending

theorem aged_updateWhere {τ : Time} {p : JobRow → Bool} {f : JobRow → JobRow}
    {pool jobs : List JobRow} (hf : ∀ j ∈ pool, p j = true → j.Ages τ (f j))
    (hjobs : ∀ j ∈ jobs, j.Pending) : Aged τ pool (Table.updateWhere p f pool ++ jobs) := by
  refine ⟨_, jobs, rfl, ?_, hjobs⟩
  unfold Table.updateWhere
  rw [List.forall₂_map_right_iff, List.forall₂_same]
  intro j hj
  by_cases hp : p j = true
  · rw [if_pos hp]
    exact hf j hj hp
  · rw [if_neg hp]
    exact .refl τ j

theorem aged_issue {τ : Time} {pool jobs : List JobRow} (hjobs : ∀ j ∈ jobs, j.Pending) :
    Aged τ pool (pool ++ jobs) :=
  ⟨pool, jobs, rfl, List.forall₂_same.mpr (fun j _ => .refl τ j), hjobs⟩

theorem Aged.refl (τ : Time) (pool : List JobRow) : Aged τ pool pool :=
  ⟨pool, [], (List.append_nil pool).symm, List.forall₂_same.mpr (fun j _ => .refl τ j),
    fun _ hj => absurd hj List.not_mem_nil⟩

/-- A write under one token, of jobs it closes or of jobs that age. -/
theorem aged_writeJob {τ : Time} {u : String} {f : JobRow → JobRow} {db : Db}
    (hf : ∀ j ∈ db.jobPool, j.uptkn = u → j.Ages τ (f j)) :
    Aged τ db.jobPool (writeJob u f db).jobPool := by
  have h : Aged τ db.jobPool (Table.updateWhere (fun j => j.uptkn = u) f db.jobPool ++ []) :=
    aged_updateWhere (fun j hj hp => hf j hj (of_decide_eq_true hp))
      (fun _ hj => absurd hj List.not_mem_nil)
  rwa [List.append_nil] at h

/-- Every statement is such a write, if it comes after `τ`. -/
theorem aged_change {loc : Locale} {env : Env} {db db' : Db} {op : Op} {r : Reply} {τ : Time}
    (hi : Inv db) (h : Change loc env db op r db') (hle : τ ≤ env.now)
    (hout : ∀ j ∈ db.jobPool, 0 ≤ j.tout) : Aged τ db.jobPool db'.jobPool := by
  cases h with
  | insert wid uptkn vals w h => exact aged_issue (pending_of_freshJobs env 0 _)
  | noRow wid newWid uptkn vals h => exact .refl τ _
  | update wid newWid uptkn vals old u db₁ w h =>
      rcases h.justified with ⟨f, e, -, -, hj⟩
      have hpend := pending_of_freshJobs env 0 (w.fired.map (TrigRow.request w.new.wid))
      change Aged τ db.jobPool (db₁.jobPool ++ w.jobs env)
      generalize w.tgid = g at hj
      cases hj with
      | job j hne hj hrun hwid =>
          exact aged_updateWhere (fun i _ _ => ages_of_closed rfl (Option.some_ne_none _)) hpend
      | recovery he hx => exact aged_issue hpend
  | noLock u lckid h => exact .refl τ _
  | lock u lckid j hj hl =>
      refine aged_writeJob (fun i him hiu => ages_lock lckid ?_ hle (hout i him))
      -- What is not locked is open and has no lock time.
      have hil := forall_of_jobOf hi.pool.tokens hj (fun i => i.locked = false) hl i him
        (decide_eq_true hiu)
      have hopen : i.tf = none := by
        by_contra hne
        exact Bool.false_ne_true (hil.symm.trans (hi.pool.closed i him hne))
      by_contra hti
      exact Bool.false_ne_true (hil.symm.trans ((hi.pool.phase i him hopen).2.mpr hti))
  | noAbort u h => exact .refl τ _
  | abort u j hj hl ha =>
      exact aged_writeJob (fun i _ _ => ages_of_closed rfl (Option.some_ne_none _))
  | noRequeue h => exact .refl τ _
  | requeue h hf =>
      exact aged_updateWhere (fun i _ _ => ages_of_closed rfl (Option.some_ne_none _))
        (pending_of_freshJobs env 0 _)
  | redefine op db' hop h =>
      rw [h.same]
      exact .refl τ _
  | restyle op db' hop h =>
      rcases h.same with ⟨f, hsame⟩
      rw [hsame]
      exact .refl τ _

/-- And so is every turn. A loop closes jobs and locks none, so its time does not
    matter. -/
theorem aged_turn {loc : Locale} {c c' : Cluster} {t : Turn} {a : Answer} {τ : Time}
    (hc : ClusterInv c) (ht : Turned loc c t a c') (hle : ∀ now, t.time = some now → τ ≤ now)
    (hlast : Lasting c) : Aged τ c.db.jobPool c'.db.jobPool := by
  cases ht with
  | idle t a ha => exact .refl τ _
  | statement i db r hg hex =>
      exact aged_change hc.inv (exec_change loc i c.db db r hc.inv hex) (hle _ rfl) hlast.job
  | scan pid now hfree => exact .refl τ _
  | release t a pid ha => exact .refl τ _
  | noRows pid env s hs hrows => exact .refl τ _
  | loop pid env s db hs hg hreq =>
      have hsc := hc.scans _ (List.mem_of_find?_eq_some hs)
      rcases (hsc.requeue_ok_iff hc.inv loc _ db).mp hreq with ⟨-, rfl⟩
      exact aged_updateWhere (fun i _ _ => ages_of_closed rfl (Option.some_ne_none _))
        (pending_of_freshJobs _ 0 _)

/-! ## What is left of a scan -/

def ScanRow.key (r : ScanRow) : Int × Int × String × Interval :=
  (r.tgid, r.wid, r.uptkn, r.tout)

/-- What a scan at `τ` has found and is still open is what a scan for `τ` would
    find now, in the same order. -/
structure Since (τ : Time) (seen : List (Int × Int × String × Interval)) (db : Db) : Prop where
  there : ∀ k ∈ seen, k.2.2.1 ∈ db.jobPool.map (·.uptkn)
  expired : (db.jobPool.filter (isExpired τ)).map JobRow.key
    = seen.filter fun k => OpenJob k.2.2.1 db

/-- A token has one job, so it is open exactly if that job is. -/
theorem openJob_iff {db : Db} (hi : Inv db) {j : JobRow} (hj : j ∈ db.jobPool) :
    OpenJob j.uptkn db ↔ j.tf = none := by
  constructor
  · rintro ⟨i, him, hiu, hopen⟩
    rwa [← hi.pool.tokens.eq_of_mem him hj hiu]
  · exact fun hopen => ⟨j, hj, rfl, hopen⟩

/-- A scan that has just been made. -/
theorem since_scan (τ : Time) (db : Db) (hi : Inv db) :
    Since τ ((expired τ db).map ScanRow.key) db := by
  have hcols : (expired τ db).map ScanRow.key = (db.jobPool.filter (isExpired τ)).map JobRow.key :=
    expired_columns (fun g w u d => (g, w, u, d)) τ db hi
  rw [hcols]
  constructor
  · intro k hk
    rcases List.mem_map.mp hk with ⟨j, hj, rfl⟩
    exact List.mem_map_of_mem (List.mem_filter.mp hj).1
  · refine (List.filter_eq_self.mpr (fun k hk => decide_eq_true ?_)).symm
    rcases List.mem_map.mp hk with ⟨j, hj, rfl⟩
    rcases List.mem_filter.mp hj with ⟨hj, he⟩
    exact (openJob_iff hi hj).mpr (isExpired_open τ j he).1

/-- The jobs that had expired, after a write: those that it has not closed. -/
theorem filter_aged {τ : Time} {pool old : List JobRow}
    (h : List.Forall₂ (JobRow.Ages τ) pool old) (keep : Int × Int × String × Interval → Bool)
    (hkeep : ∀ j ∈ old, keep j.key = decide (j.tf = none)) :
    (old.filter (isExpired τ)).map JobRow.key
      = ((pool.filter (isExpired τ)).map JobRow.key).filter keep := by
  induction h with
  | nil => rfl
  | @cons j j' pool old ha _ ih =>
      have ih := ih (fun i hi => hkeep i (List.mem_cons_of_mem j' hi))
      have hkey : keep j.key = decide (j'.tf = none) := by
        rw [← ha.key_eq]
        exact hkeep j' List.mem_cons_self
      by_cases he : isExpired τ j = true
      · rw [List.filter_cons_of_pos he, List.map_cons]
        by_cases ht : j'.tf = none
        · rw [List.filter_cons_of_pos (ha.expired.mpr ⟨he, ht⟩), List.map_cons, ih, ha.key_eq,
            List.filter_cons_of_pos (hkey.trans (decide_eq_true ht))]
        · rw [List.filter_cons_of_neg (fun h => ht (ha.expired.mp h).2), ih,
            List.filter_cons_of_neg (by rw [hkey]; simpa only [decide_eq_true_eq] using ht)]
      · rw [List.filter_cons_of_neg he, List.filter_cons_of_neg (fun h => he (ha.expired.mp h).1), ih]

/-- A write leaves what it has not closed. -/
theorem Since.aged {τ : Time} {seen : List (Int × Int × String × Interval)} {db db' : Db}
    (h : Since τ seen db) (hi : Inv db) (hi' : Inv db') (ha : Aged τ db.jobPool db'.jobPool) :
    Since τ seen db' := by
  rcases ha with ⟨old, jobs, hpool, hold, hjobs⟩
  have hkeys : old.map (·.uptkn) = db.jobPool.map (·.uptkn) :=
    Table.map_of_forall₂ JobRow.uptkn hold (fun j j' hj => congrArg (·.2.2.1) hj.key_eq)
  have hmem : ∀ j ∈ old, j ∈ db'.jobPool := fun j hj => hpool ▸ List.mem_append_left _ hj
  -- What is open under a token of the scan now was open before.
  have hback : ∀ k ∈ seen, OpenJob k.2.2.1 db' → OpenJob k.2.2.1 db := by
    intro k hk hopen
    rcases List.mem_map.mp (hkeys ▸ h.there k hk) with ⟨j', hj', hju⟩
    rcases Table.exists_of_forall₂ hold j' hj' with ⟨j, hj, hages⟩
    rw [← hju] at hopen ⊢
    have hjk : j'.uptkn = j.uptkn := congrArg (·.2.2.1) hages.key_eq
    rw [hjk, openJob_iff hi hj]
    by_contra hne
    exact hages.closed hne ((openJob_iff hi' (hmem j' hj')).mp hopen)
  constructor
  · intro k hk
    rw [hpool, List.map_append, hkeys]
    exact List.mem_append_left _ (h.there k hk)
  · have hnew : jobs.filter (isExpired τ) = [] := by
      refine List.filter_eq_nil_iff.mpr (fun j hj he => ?_)
      have hti := (isExpired_open τ j he).2
      rw [(hjobs j hj).2.2.1] at hti
      exact Bool.false_ne_true hti
    rw [hpool, List.filter_append, hnew, List.append_nil,
      filter_aged hold (fun k => OpenJob k.2.2.1 db')
        (fun j hj => decide_eq_decide.mpr (openJob_iff hi' (hmem j hj))),
      h.expired, List.filter_filter]
    refine List.filter_congr (fun k hk => ?_)
    rw [← Bool.decide_and, decide_eq_decide]
    exact ⟨fun hboth => hboth.1, fun hopen => ⟨hopen, hback k hk hopen⟩⟩

/-! ## Scans that are held -/

theorem cluster_concat (loc : Locale) (ts : List Turn) (t : Turn) :
    cluster loc (ts ++ [t]) = turn loc (cluster loc ts) t :=
  Machine.after_concat _ _ _ _

/-- A scan that is held was held before, or has just been made. -/
theorem Turned.mem_scans {loc : Locale} {c c' : Cluster} {t : Turn} {a : Answer}
    (ht : Turned loc c t a c') {s : Nat × Scan} (hs : s ∈ c'.scans) :
    s ∈ c.scans ∨
      ∃ pid now, t = .scan pid now ∧ s = (pid, ⟨now, expired now c.db⟩) ∧ c'.db = c.db := by
  cases ht with
  | idle t a ha => exact .inl hs
  | statement i db r hg h => exact .inl hs
  | scan pid now hfree =>
      rcases List.mem_append.mp hs with hs | hs
      · exact .inl hs
      · exact .inr ⟨pid, now, rfl, List.mem_singleton.mp hs, rfl⟩
  | release t a pid ha => exact .inl (List.mem_filter.mp hs).1
  | noRows pid env q hq hrows => exact .inl (List.mem_filter.mp hs).1
  | loop pid env q db hq hg h => exact .inl (List.mem_filter.mp hs).1

/-- The time of a scan was read from the clock. -/
theorem scan_time (loc : Locale) (ts : List Turn) :
    ∀ s ∈ (cluster loc ts).scans, s.2.now ∈ ts.filterMap Turn.time := by
  induction ts using List.reverseRecOn with
  | nil => exact fun s hs => absurd hs List.not_mem_nil
  | append_singleton ts t ih =>
      intro s hs
      rw [cluster_concat] at hs
      rw [List.filterMap_append]
      rcases (serve_turned loc _ t).mem_scans hs with hs | ⟨pid, now, rfl, rfl, -⟩
      · exact List.mem_append_left _ (ih s hs)
      · exact List.mem_append_right _ List.mem_cons_self

/-- Whatever happens after `τ`, what was found at `τ` and is open is what had
    expired then. -/
theorem since_turn (loc : Locale) (ts : List Turn) (t : Turn) (hp : Patient ts) {τ : Time}
    {seen : List (Int × Int × String × Interval)} (hle : ∀ now, t.time = some now → τ ≤ now)
    (h : Since τ seen (cluster loc ts).db) : Since τ seen (cluster loc (ts ++ [t])).db := by
  have hc := cluster_inv loc ts
  rw [cluster_concat]
  exact h.aged hc.inv (clusterInv_turn loc _ t hc).inv
    (aged_turn hc (serve_turned loc _ t) hle (cluster_lasting loc ts hp))

/-- Scans do not grow old. -/
theorem held_since (loc : Locale) (ts : List Turn) (hf : Forward ts) (hp : Patient ts) :
    ∀ s ∈ (cluster loc ts).scans,
      Since s.2.now (s.2.rows.map ScanRow.key) (cluster loc ts).db := by
  induction ts using List.reverseRecOn with
  | nil => exact fun s hs => absurd hs List.not_mem_nil
  | append_singleton ts t ih =>
      intro s hs
      have hmem := hs
      rw [cluster_concat] at hmem
      rcases (serve_turned loc _ t).mem_scans hmem with hold | ⟨pid, now, rfl, rfl, hdb⟩
      · exact since_turn loc ts t hp.init (fun now hnow => hf.last (scan_time loc ts s hold) hnow)
          (ih hf.init hp.init s hold)
      · rw [cluster_concat]
        change Since now _ (serve loc (cluster loc ts) (.scan pid now)).1.db
        rw [hdb]
        exact since_scan now _ (cluster_inv loc ts).inv

/-! ## Draws -/

/-- The surroundings in which these digests are drawn, for whatever names. -/
def Env.drawing (env : Env) (ds : List Digest) : Env :=
  { env with md5 := fun n _ => (ds[n]?).getD (env.md5 n "") }

/-- The pending job of a request, under a given digest. -/
def Request.job (r : Request) (d : Digest) : JobRow :=
  pendingJob r.tgid r.wid (hexdigest d) r.tout

/-- The digests drawn for a list of requests. -/
def digests (env : Env) : Nat → List Request → List Digest
  | _, [] => []
  | n, r :: rs => env.md5 n r.tgname :: digests env (n + 1) rs

theorem freshJobs_eq_zipWith (env : Env) (n : Nat) (rs : List Request) :
    freshJobs env n rs = List.zipWith Request.job rs (digests env n rs) := by
  induction rs generalizing n with
  | nil => rfl
  | cons r rs ih =>
      rw [freshJobs, digests, List.zipWith_cons_cons, ih]
      rfl

theorem length_digests (env : Env) (n : Nat) (rs : List Request) :
    (digests env n rs).length = rs.length := by
  induction rs generalizing n with
  | nil => rfl
  | cons r rs ih => rw [digests, List.length_cons, List.length_cons, ih]

theorem digests_drawing (env : Env) (pre ds : List Digest) (rs : List Request)
    (h : rs.length = ds.length) : digests (env.drawing (pre ++ ds)) pre.length rs = ds := by
  induction rs generalizing pre ds with
  | nil => exact (List.eq_nil_of_length_eq_zero h.symm).symm
  | cons r rs ih =>
      cases ds with
      | nil => exact absurd h (Nat.succ_ne_zero _)
      | cons d ds =>
          have hrec := ih (pre ++ [d]) ds (Nat.succ.inj h)
          rw [List.append_assoc, List.singleton_append, List.length_append, List.length_singleton]
            at hrec
          rw [digests, hrec]
          simp only [Env.drawing, List.getElem?_append_right (Nat.le_refl _), Nat.sub_self,
            List.getElem?_cons_zero, Option.getD_some]

/-- Any tokens can be the ones that are drawn. -/
theorem freshJobs_drawing (env : Env) (rs : List Request) (ds : List Digest)
    (h : rs.length = ds.length) :
    freshJobs (env.drawing ds) 0 rs = List.zipWith Request.job rs ds := by
  rw [freshJobs_eq_zipWith]
  exact congrArg _ (digests_drawing env [] ds rs h)

/-- The name of a trigger counts for the draw only, and it may have changed since
    the scan. -/
theorem freshJobs_drawing_rows (env : Env) (rows rows' : List ScanRow)
    (h : rows'.map ScanRow.key = rows.map ScanRow.key) :
    freshJobs (env.drawing (digests env 0 (rows.map ScanRow.request))) 0
        (rows'.map ScanRow.request) = freshJobs env 0 (rows.map ScanRow.request) := by
  -- A job is made from the key of its row.
  have hkey : ∀ (l : List ScanRow) (ds : List Digest),
      List.zipWith Request.job (l.map ScanRow.request) ds
        = List.zipWith (fun k d => pendingJob k.1 k.2.1 (hexdigest d) k.2.2.2) (l.map ScanRow.key) ds := by
    intro l ds
    rw [List.zipWith_map_left, List.zipWith_map_left]
    rfl
  have hlen := congrArg List.length h
  rw [List.length_map, List.length_map] at hlen
  rw [freshJobs_drawing, hkey, h, ← hkey, ← freshJobs_eq_zipWith]
  rw [length_digests, List.length_map, List.length_map, hlen]

/-! ## The serial order -/

/-- The statement a turn completes, with its reply. A loop completes a
    `job_inspector`. -/
def committed (loc : Locale) (p : Cluster × Turn) : Option (Op × Reply) :=
  match p.2, (serve loc p.1 p.2).2 with
  | .statement i, .replied r => some (i.op, r)
  | .loop _ _, .replied r => some (.jobInspector, r)
  | _, _ => none

/-- A statement that goes through, with its reply. -/
def performed (loc : Locale) (p : Db × Input) : Option (Op × Reply) :=
  match exec loc p.2 p.1 with
  | .ok (_, r) => some (p.2.op, r)
  | .error _ => none

theorem performed_of_exec {loc : Locale} {db db' : Db} {i : Input} {r : Reply}
    (h : exec loc i db = .ok (db', r)) : performed loc (db, i) = some (i.op, r) := by
  unfold performed
  rw [h]

/-- A loop over what a scan would find now is a run of `job_inspector`. -/
theorem exec_of_requeue {loc : Locale} {env : Env} {rows : List ScanRow} {db db' : Db}
    (hi : Inv db) (hs : Scanned db rows) (hne : rows ≠ [])
    (hrows : (expired env.now db).map ScanRow.key = rows.map ScanRow.key)
    (h : requeue loc env rows db = .ok db') :
    ∃ env', exec loc ⟨env', .jobInspector⟩ db = .ok (db', .bool true) := by
  have hfresh := freshJobs_drawing_rows env rows _ hrows
  -- The time is the same, only the draws are dictated.
  generalize henv : env.drawing (digests env 0 (rows.map ScanRow.request)) = env' at hfresh
  have hnow : env'.now = env.now := by
    rw [← henv]
    rfl
  have htok : (expired env.now db).map (·.uptkn) = rows.map (·.uptkn) := by
    have := congrArg (List.map fun k : Int × Int × String × Interval => k.2.2.1) hrows
    rwa [List.map_map, List.map_map] at this
  have hscan : inScan (expired env.now db) = inScan rows := by
    funext j
    unfold inScan
    rw [htok]
  have hpool : requeuePool env' 0 (expired env.now db) db.jobPool
      = requeuePool env 0 rows db.jobPool := by
    unfold requeuePool
    rw [hfresh, hscan, hnow]
  rcases (hs.requeue_ok_iff hi loc env db').mp h with ⟨hf, rfl⟩
  have hany : db.jobPool.any (isExpired env.now) = true := by
    by_contra hno
    rw [Bool.not_eq_true, List.any_eq_false] at hno
    have hnil := (expired_eq_nil_iff hi env.now).mpr (fun j hj => Bool.eq_false_iff.mpr (hno j hj))
    rw [hnil, List.map_nil] at hrows
    exact hne (List.map_eq_nil_iff.mp hrows.symm)
  refine ⟨env', (Table.map_eq_ok _ _ _).mpr ⟨(_, true), ?_, rfl⟩⟩
  rw [jobInspector_ok_iff hi, ← requeuePool_expired hi env', hnow, hpool, hfresh]
  exact ⟨hf, hany.symm, rfl⟩

/-- The jobs of a scan are all open when its loop replaces them. -/
def FindsOpen (loc : Locale) (p : Cluster × Turn) : Prop :=
  ∀ u ∈ (replaced loc p).map (·.1), OpenJob u p.1.db

instance (loc : Locale) (p : Cluster × Turn) : Decidable (FindsOpen loc p) :=
  inferInstanceAs (Decidable (∀ u ∈ _, _))

/-- A turn is a statement on the database, or leaves it as it is. -/
theorem turn_serial {loc : Locale} {c c' : Cluster} {t : Turn} {a : Answer} (hc : ClusterInv c)
    (ht : Turned loc c t a c') (ha : a = (serve loc c t).2)
    (hsince : ∀ s ∈ c.scans, Since s.2.now (s.2.rows.map ScanRow.key) c.db)
    (hopen : FindsOpen loc (c, t)) :
    c'.db = c.db ∧ committed loc (c, t) = none ∨
      ∃ i r, exec loc i c.db = .ok (c'.db, r) ∧ committed loc (c, t) = some (i.op, r) := by
  have hsilent : (∀ r, a ≠ .replied r) → committed loc (c, t) = none := by
    intro hno
    unfold committed
    dsimp only
    rw [← ha]
    cases a with
    | replied r => exact absurd rfl (hno r)
    | pending => cases t <;> rfl
    | cancelled => cases t <;> rfl
    | failed e => cases t <;> rfl
  cases ht with
  | idle t a hno => exact .inl ⟨rfl, hsilent hno⟩
  | scan pid now hfree => exact .inl ⟨rfl, rfl⟩
  | release t a pid hno => exact .inl ⟨rfl, hsilent hno⟩
  | statement i db r hg h =>
      refine .inr ⟨i, r, h, ?_⟩
      unfold committed
      dsimp only
      rw [← ha]
  | noRows pid env s hs hrows =>
      -- Nothing was found, and nothing would be found now.
      have hsc := hsince _ (List.mem_of_find?_eq_some hs)
      have hnone : expired s.now c.db = [] := by
        have hexp := hsc.expired
        rw [hrows, List.map_nil, List.filter_nil, List.map_eq_nil_iff, List.filter_eq_nil_iff] at hexp
        exact (expired_eq_nil_iff hc.inv s.now).mpr (fun j hj => Bool.eq_false_iff.mpr (hexp j hj))
      refine .inr ⟨⟨{ env with now := s.now }, .jobInspector⟩, .bool false, ?_, ?_⟩
      · refine (Table.map_eq_ok _ _ _).mpr ⟨(c.db, false), ?_, rfl⟩
        unfold jobInspector
        exact if_pos hnone
      · unfold committed
        dsimp only
        rw [← ha]
  | loop pid env s db hs hg h =>
      have hm := List.mem_of_find?_eq_some hs
      have hrep : replaced loc (c, .loop pid env)
          = replacements { env with now := s.now } s.rows := by
        unfold replaced replacedBy
        dsimp only
        rw [← ha, looped_of_find env hs]
        rfl
      -- All that was found is open, so it is what would be found now.
      have hrows : (expired s.now c.db).map ScanRow.key = s.rows.map ScanRow.key := by
        have hcols : (expired s.now c.db).map ScanRow.key
            = (c.db.jobPool.filter (isExpired s.now)).map JobRow.key :=
          expired_columns (fun g w u d => (g, w, u, d)) s.now c.db hc.inv
        rw [hcols, (hsince _ hm).expired]
        refine List.filter_eq_self.mpr (fun k hk => decide_eq_true (hopen _ ?_))
        rcases List.mem_map.mp hk with ⟨r, hr, rfl⟩
        rw [hrep, map_fst_replacements]
        exact List.mem_map_of_mem hr
      have hne : s.rows ≠ [] := by
        intro hnil
        have hserve : (serve loc c (.loop pid env)).2 = .replied (.bool false) := by
          unfold serve
          dsimp only
          rw [hs]
          exact congrArg Prod.snd (if_pos hnil)
        rw [hserve] at ha
        exact absurd ha (by simp only [Answer.replied.injEq, Reply.bool.injEq, Bool.true_eq_false,
          not_false_eq_true])
      rcases exec_of_requeue hc.inv (hc.scans _ hm) hne hrows h with ⟨env', hex⟩
      refine .inr ⟨⟨env', .jobInspector⟩, .bool true, hex, ?_⟩
      unfold committed
      dsimp only
      rw [← ha]

/-- However the sessions take turns, with a clock that does not go back and
    timeouts that are not negative: if every loop finds the jobs of its scan open,
    the database is the one that the statements lead to that were completed, one
    by one in the order of their commits, and every one of them is answered the
    same. -/
theorem cluster_serial (loc : Locale) (ts : List Turn) (hf : Forward ts) (hp : Patient ts)
    (hopen : ∀ p ∈ Machine.history (turn loc) Cluster.empty ts, FindsOpen loc p) :
    ∃ is : List Input, run loc is = (cluster loc ts).db ∧
      (Machine.history (step loc) Db.empty is).map (performed loc)
        = ((Machine.history (turn loc) Cluster.empty ts).filterMap (committed loc)).map some := by
  induction ts using List.reverseRecOn with
  | nil => exact ⟨[], rfl, rfl⟩
  | append_singleton ts t ih =>
      rw [Machine.history_concat] at hopen
      rcases ih hf.init hp.init (fun p hp => hopen p (List.mem_append_left _ hp)) with ⟨is, hdb, hhist⟩
      have hlast := turn_serial (cluster_inv loc ts) (serve_turned loc _ t) rfl
        (held_since loc ts hf.init hp.init)
        (hopen (cluster loc ts, t) (List.mem_append_right _ List.mem_cons_self))
      rw [Machine.history_concat, List.filterMap_append, List.map_append, ← hhist, cluster_concat]
      rcases hlast with ⟨hsame, hnone⟩ | ⟨i, r, hex, hsome⟩
      · refine ⟨is, hdb.trans hsame.symm, ?_⟩
        rw [List.filterMap_cons_none (show committed loc (Machine.after _ _ ts, t) = none from hnone)]
        exact (List.append_nil _).symm
      · rw [← hdb] at hex
        refine ⟨is ++ [i], ?_, ?_⟩
        · rw [run_concat]
          exact step_of_exec hex
        · rw [Machine.history_concat, List.map_append, List.filterMap_cons_some
            (show committed loc (Machine.after _ _ ts, t) = some (i.op, r) from hsome)]
          exact congrArg (_ ++ [·]) (performed_of_exec hex)

/-- An inspector scans at 20 and finds the job that was locked at 2. Before its
    loop the other job is locked. -/
def overlapped : List Turn :=
  tiny.map .statement ++ [.statement ⟨clock 1, .insertFlow 7 none []⟩,
    .statement ⟨clock 2, .jobLock (tokenAt 1 0) none⟩, .scan 1 20,
    .statement ⟨clock 21, .jobLock (tokenAt 1 1) none⟩, .loop 1 (clock 22)]

/-- To the database, the lock came before the inspector. -/
theorem cluster_serial_overlapped :
    ((Machine.history (turn asciiLocale) Cluster.empty overlapped).filterMap
        (committed asciiLocale)).drop 11
        = [(.jobLock (tokenAt 1 0) none, .bool true), (.jobLock (tokenAt 1 1) none, .bool true),
            (.jobInspector, .bool true)] ∧
      ∃ is : List Input, run asciiLocale is = (cluster asciiLocale overlapped).db ∧
        (Machine.history (step asciiLocale) Db.empty is).map (performed asciiLocale)
          = ((Machine.history (turn asciiLocale) Cluster.empty overlapped).filterMap
              (committed asciiLocale)).map some :=
  ⟨by decide +kernel, cluster_serial asciiLocale overlapped (by decide +kernel) (by decide +kernel)
    (by decide +kernel)⟩

/-! ## Jobs that overstay -/

/-- The time of the scan of an inspection that the turn completes. -/
def inspects (loc : Locale) (p : Cluster × Turn) : Option Time :=
  match (serve loc p.1 p.2).2 with
  | .replied _ => (looped p.1 p.2).map fun q => q.1.now
  | _ => none

/-- What a turn loops over is a scan that has not grown old. -/
theorem since_looped {c : Cluster} {t : Turn} {env : Env} {rows : List ScanRow} (hc : ClusterInv c)
    (hsince : ∀ s ∈ c.scans, Since s.2.now (s.2.rows.map ScanRow.key) c.db)
    (h : looped c t = some (env, rows)) : Since env.now (rows.map ScanRow.key) c.db := by
  cases t with
  | statement i =>
      unfold looped at h
      dsimp only at h
      by_cases hop : i.op = .jobInspector
      · rw [if_pos hop, Option.some.injEq, Prod.mk.injEq] at h
        rw [← h.1, ← h.2]
        exact since_scan i.env.now c.db hc.inv
      · rw [if_neg hop] at h
        exact absurd h.symm (Option.some_ne_none _)
  | scan pid now => exact absurd h.symm (Option.some_ne_none _)
  | loop pid env' =>
      rcases Option.map_eq_some_iff.mp h with ⟨s, hs, heq⟩
      rw [Prod.mk.injEq] at heq
      rw [← heq.1, ← heq.2]
      exact hsince s (List.mem_of_find?_eq_some hs)
  | cancel pid => exact absurd h.symm (Option.some_ne_none _)

/-- When an inspection is through, what its scan has found is closed. -/
theorem closed_of_inspection {loc : Locale} {c : Cluster} {t : Turn} {τ : Time} (hc : ClusterInv c)
    (h : inspects loc (c, t) = some τ) :
    ∃ env rows, looped c t = some (env, rows) ∧ env.now = τ ∧
      ∀ u ∈ rows.map (·.uptkn), Closed u (turn loc c t).db := by
  unfold inspects at h
  dsimp only at h
  split at h
  next r hr =>
    rcases Option.map_eq_some_iff.mp h with ⟨⟨env, rows⟩, hloop, hnow⟩
    refine ⟨env, rows, hloop, hnow, fun u hu => (settled_of_replaced hc ?_).2.1⟩
    have hrep : replaced loc (c, t) = replacements env rows := by
      unfold replaced replacedBy
      dsimp only
      rw [hr, hloop]
      rfl
    rw [hrep, map_fst_replacements]
    exact hu
  next => exact absurd h.symm (Option.some_ne_none τ)

/-- A scan all of whose jobs are closed. -/
theorem Since.of_closed {τ : Time} {seen : List (Int × Int × String × Interval)} {db : Db}
    (h : Since τ seen db) (hi : Inv db) (hclosed : ∀ k ∈ seen, Closed k.2.2.1 db) :
    Since τ [] db := by
  refine ⟨fun k hk => absurd hk List.not_mem_nil, ?_⟩
  rw [h.expired, List.filter_nil, List.filter_eq_nil_iff]
  intro k hk hopen
  exact (of_decide_eq_true hopen : OpenJob k.2.2.1 db).not_closed hi (hclosed k hk)

/-- After an inspection, no job had expired when its scan was made. -/
theorem caught_since (loc : Locale) (ts : List Turn) (hf : Forward ts) (hp : Patient ts) :
    ∀ p ∈ Machine.history (turn loc) Cluster.empty ts, ∀ τ, inspects loc p = some τ →
      τ ∈ ts.filterMap Turn.time ∧ Since τ [] (cluster loc ts).db := by
  induction ts using List.reverseRecOn with
  | nil => exact fun p hp => absurd hp List.not_mem_nil
  | append_singleton ts t ih =>
      intro p hmem τ hins
      rw [Machine.history_concat] at hmem
      rcases List.mem_append.mp hmem with hmem | hmem
      · rcases ih hf.init hp.init p hmem τ hins with ⟨hτ, hs⟩
        refine ⟨?_, since_turn loc ts t hp.init (fun now hnow => hf.last hτ hnow) hs⟩
        rw [List.filterMap_append]
        exact List.mem_append_left _ hτ
      · rw [List.mem_singleton.mp hmem] at hins
        have hc := cluster_inv loc ts
        rcases closed_of_inspection hc hins with ⟨env, rows, hloop, rfl, hclosed⟩
        have hsince := since_looped hc (held_since loc ts hf.init hp.init) hloop
        -- The time is that of an earlier scan, or of this very turn.
        have htime : env.now ∈ (ts ++ [t]).filterMap Turn.time ∧
            ∀ now, t.time = some now → env.now ≤ now := by
          rw [List.filterMap_append, List.mem_append]
          cases t with
          | statement i =>
              unfold looped at hloop
              dsimp only at hloop
              by_cases hop : i.op = .jobInspector
              · rw [if_pos hop, Option.some.injEq, Prod.mk.injEq] at hloop
                rw [← hloop.1]
                exact ⟨.inr List.mem_cons_self, fun now hnow => Int.le_of_eq (Option.some.inj hnow)⟩
              · rw [if_neg hop] at hloop
                exact absurd hloop.symm (Option.some_ne_none _)
          | scan pid now => exact absurd hloop.symm (Option.some_ne_none _)
          | loop pid env' =>
              rcases Option.map_eq_some_iff.mp hloop with ⟨s, hs, heq⟩
              rw [Prod.mk.injEq] at heq
              rw [← heq.1]
              exact ⟨.inl (scan_time loc ts s (List.mem_of_find?_eq_some hs)),
                fun now hnow => absurd hnow.symm (Option.some_ne_none now)⟩
          | cancel pid => exact absurd hloop.symm (Option.some_ne_none _)
        refine ⟨htime.1, (since_turn loc ts t hp.init htime.2 hsince).of_closed
          (cluster_inv loc _).inv (fun k hk => ?_)⟩
        rcases List.mem_map.mp hk with ⟨r, hr, rfl⟩
        rw [cluster_concat]
        exact hclosed r.uptkn (List.mem_map_of_mem hr)

/-- However the sessions take turns, with a clock that does not go back and
    timeouts that are not negative: once an inspection with a scan at `τ` is
    through, every job that runs was still within its timeout at `τ`, then and
    at any later time. So a job overstays by no more than the time since the last
    scan that led to something. -/
theorem inspection_catches (loc : Locale) (ts : List Turn) (hf : Forward ts) (hp : Patient ts) :
    ∀ p ∈ Machine.history (turn loc) Cluster.empty ts, ∀ τ, inspects loc p = some τ →
      ∀ j ∈ (cluster loc ts).db.jobPool, j.tf = none → ∀ ti, j.ti = some ti → τ ≤ ti + j.tout := by
  intro p hmem τ hins j hj hopen ti hti
  have hs := (caught_since loc ts hf hp p hmem τ hins).2.expired
  rw [List.filter_nil, List.map_eq_nil_iff, List.filter_eq_nil_iff] at hs
  have hno : ¬ τ - ti > j.tout := fun hgt => hs j hj ((isExpired_iff τ j).mpr ⟨hopen, ti, hti, hgt⟩)
  exact Int.le_add_of_sub_left_le (Int.not_lt.mp hno)

/-- The loop that ends at 22 goes back to the scan at 20, and the job that was
    locked at 21 runs on. -/
theorem inspection_catches_overlapped :
    (⟨2, 7, tokenAt 1 1, none, true, false, 10, some 21, none⟩ : JobRow)
        ∈ (cluster asciiLocale overlapped).db.jobPool ∧ (20 : Time) ≤ 21 + 10 := by
  have hj : (⟨2, 7, tokenAt 1 1, none, true, false, 10, some 21, none⟩ : JobRow)
      ∈ (cluster asciiLocale overlapped).db.jobPool := by decide +kernel
  have hlast : ∃ p ∈ Machine.history (turn asciiLocale) Cluster.empty overlapped,
      inspects asciiLocale p = some 20 := by decide +kernel
  rcases hlast with ⟨p, hp, hins⟩
  exact ⟨hj, inspection_catches asciiLocale overlapped (by decide +kernel) (by decide +kernel) p hp
    20 hins _ hj rfl 21 rfl⟩

end WedFlow
