import WedFlow.Base.Json
import WedFlow.Theory.Lifecycle

/-!
# Announced Jobs

A worker listens on the channel of its trigger and is told of a job by the
notification that goes out with it. The kernel sends one for every job it
creates, and builds channel and payload by pasting text: the payload has to be
read back by a JSON reader at the other end. Tokens are hexadecimal, so there is
nothing in them that either language would have to escape, and `loads_print`
applies.

Jobs are created at one more place, though. `job_inspector` replaces the jobs
that ran out of time and sends nothing. And a trigger with a negative number has
no channel: the name would not be one, the failed `NOTIFY` is caught, and the job
is created all the same. `jobs_announced_iff` says that these are the only two
ways for a job to go unannounced. Nothing is ever announced that is not there.

`Creates` is what all statements have in common: new jobs at the end of the
pool, under new tokens, and the notifications that went out with them.

## Main definitions

* `announcement`: What the kernel sends for a job.
* `Notice.announces`: A notification that is read as a job.
* `created`: The jobs a statement created.
* `Announced`: A statement announced each of them once, and nothing else.
* `Creates`: The jobs of a statement, by how it made them.
* `Heard`: Every job has been announced once.

## Theorems

* `announces_announcement_iff`: The payload is read as the job.
* `creates_change`: What each statement creates.
* `announced_iff`: When a statement announces its jobs.
* `jobs_announced_iff`: The same over runs.
-/

namespace WedFlow

open Json (loads)

/-! ## The payload -/

/-- What the kernel sends for a job. -/
def announcement (j : JobRow) : Notice :=
  ⟨"WTRG_" ++ toString j.tgid,
    "\x7b\"tgid\":" ++ toString j.tgid ++ ",\"wid\":" ++ toString j.wid ++ ",\"uptkn\":\"" ++
      j.uptkn ++ "\"\x7d"⟩

/-- A job as a JSON object. -/
def JobRow.object (j : JobRow) : Json.Object :=
  [("tgid", .int j.tgid), ("wid", .int j.wid), ("uptkn", .str j.uptkn)]

/-- The notification is on the channel of the job's trigger, and its payload is
    read as the job. -/
def Notice.announces (n : Notice) (j : JobRow) : Bool :=
  n.channel = "WTRG_" ++ toString j.tgid && loads n.payload.toList = some j.object

theorem object_eq_iff (i j : JobRow) :
    i.object = j.object ↔ i.tgid = j.tgid ∧ i.wid = j.wid ∧ i.uptkn = j.uptkn := by
  unfold JobRow.object
  simp only [List.cons.injEq, Prod.mk.injEq, Json.Value.int.injEq, Json.Value.str.injEq, true_and,
    and_true]

theorem object_of_key {i j : JobRow} (h : i.key = j.key) : i.object = j.object := by
  simp only [JobRow.key, Prod.mk.injEq] at h
  exact (object_eq_iff i j).mpr ⟨h.1, h.2.1, h.2.2.1⟩

theorem announces_iff (n : Notice) (j : JobRow) : n.announces j = true ↔
    n.channel = "WTRG_" ++ toString j.tgid ∧ loads n.payload.toList = some j.object := by
  unfold Notice.announces
  rw [Bool.and_eq_true, decide_eq_true_eq, decide_eq_true_eq]

/-- A notification announces jobs with one token only. -/
theorem uptkn_of_announces {n : Notice} {i j : JobRow} (hi : n.announces i = true)
    (hj : n.announces j = true) : i.uptkn = j.uptkn := by
  have heq := ((announces_iff n i).mp hi).2.symm.trans ((announces_iff n j).mp hj).2
  exact ((object_eq_iff i j).mp (Option.some.inj heq)).2.2

theorem announces_congr {i j : JobRow} (h : i.object = j.object) (n : Notice) :
    n.announces i = n.announces j := by
  unfold Notice.announces
  rw [h, ((object_eq_iff i j).mp h).1]

/-- A token has nothing in it to escape. -/
theorem plainText_hexdigest (d : Digest) : Json.PlainText (hexdigest d) := by
  have hall : ∀ k < 16, Json.needsEscape (Nat.digitChar k) = false := by decide
  intro c hc
  rcases mem_hexdigest hc with ⟨k, hk, rfl⟩
  exact hall k hk

theorem payload_announcement (j : JobRow) :
    (announcement j).payload.toList = Json.print j.object := by
  -- The literals of the format string, cut as the printer cuts them.
  have h1 : "\x7b\"tgid\":".toList = '{' :: ((Json.Value.str "tgid").print ++ [':']) := by decide
  have h2 : ",\"wid\":".toList = ',' :: ((Json.Value.str "wid").print ++ [':']) := by decide
  have h3 : ",\"uptkn\":\"".toList = ',' :: ((Json.Value.str "uptkn").print ++ [':', '"']) := by
    decide
  have h4 : "\"\x7d".toList = ['"', '}'] := by decide
  have h5 : (Json.Value.str j.uptkn).print = '"' :: j.uptkn.toList ++ ['"'] := rfl
  unfold announcement JobRow.object
  simp only [String.toList_append, Json.toList_toString, h1, h2, h3, h4, h5, Json.print,
    Json.printMembers, List.append_assoc, List.cons_append, List.nil_append]

theorem plain_object {j : JobRow} (h : Json.PlainText j.uptkn) :
    ∀ m ∈ j.object, Json.PlainText m.1 ∧ m.2.Plain := by
  have hk : ∀ k ∈ ["tgid", "wid", "uptkn"], Json.PlainText k := by decide
  unfold JobRow.object
  simp only [List.forall_mem_cons]
  exact ⟨⟨hk _ (by decide), trivial⟩, ⟨hk _ (by decide), trivial⟩, ⟨hk _ (by decide), h⟩,
    fun _ hm => absurd hm List.not_mem_nil⟩

/-- The payload of a job's notification is read as the job and as no other. -/
theorem announces_announcement_iff (i j : JobRow) (h : Json.PlainText i.uptkn) :
    (announcement i).announces j = true ↔ i.object = j.object := by
  rw [announces_iff, payload_announcement, Json.loads_print i.object (plain_object h)]
  constructor
  · intro hn
    exact Option.some.inj hn.2
  · intro heq
    refine ⟨?_, congrArg some heq⟩
    rw [← ((object_eq_iff i j).mp heq).1]
    rfl

/-- The jobs of triggers with a channel are announced, in order. -/
theorem announcements_eq (jobs : List JobRow) :
    announcements jobs = (jobs.filter fun j => 0 ≤ j.tgid).map announcement := by
  induction jobs with
  | nil => rfl
  | cons j jobs ih =>
      rw [announcements, ih]
      by_cases h : 0 ≤ j.tgid
      · rw [if_pos h, List.filter_cons, if_pos (decide_eq_true h)]
        rfl
      · rw [if_neg h, List.filter_cons, if_neg (by rwa [decide_eq_true_eq])]
        rfl

theorem mem_announcements {jobs : List JobRow} {n : Notice} :
    n ∈ announcements jobs ↔ ∃ j ∈ jobs, 0 ≤ j.tgid ∧ announcement j = n := by
  rw [announcements_eq]
  simp only [List.mem_map, List.mem_filter, decide_eq_true_eq, and_assoc]

/-! ## The jobs of a statement -/

/-- The jobs whose tokens were not there before. -/
def created (db db' : Db) : List JobRow :=
  db'.jobPool.filter fun j => j.uptkn ∉ db.jobPool.map (·.uptkn)

/-- Each job that was created has exactly one of the notifications that were
    sent, and every one of these is about a job in the pool. -/
def Announced (db db' : Db) : Prop :=
  ∃ new, db'.notices = db.notices ++ new ∧
    (∀ j ∈ created db db', new.countP (·.announces j) = 1) ∧
    ∀ n ∈ new, ∃ j ∈ db'.jobPool, n.announces j = true

def Op.isInspector : Op → Bool
  | .jobInspector => true
  | _ => false

/-- The jobs of a statement: they stand after the old ones, which keep their
    keys. Their tokens are new digests, and unless an inspector made them they are
    announced. -/
structure Creates (loc : Locale) (op : Op) (db db' : Db) (jobs : List JobRow) : Prop where
  pool : ∃ old, db'.jobPool = old ++ jobs ∧ old.map JobRow.key = db.jobPool.map JobRow.key
  fresh : Fresh loc db.jobPool jobs
  digest : ∀ j ∈ jobs, ∃ d, j.uptkn = hexdigest d
  notices : db'.notices = db.notices ++ if op.isInspector then [] else announcements jobs

theorem digest_freshJobs (env : Env) (n : Nat) (rs : List Request) :
    ∀ j ∈ freshJobs env n rs, ∃ d, j.uptkn = hexdigest d := by
  intro j hj
  rcases mem_freshJobs env n rs j hj with ⟨r, -, m, rfl⟩
  exact ⟨env.md5 m r.tgname, rfl⟩

/-- A statement without new jobs and notifications. -/
theorem creates_nil {loc : Locale} {op : Op} {db db' : Db}
    (hpool : db'.jobPool.map JobRow.key = db.jobPool.map JobRow.key)
    (hnotices : db'.notices = db.notices) : Creates loc op db db' [] where
  pool := ⟨db'.jobPool, (List.append_nil _).symm, hpool⟩
  fresh := fresh_nil loc db.jobPool
  digest := fun _ hj => absurd hj List.not_mem_nil
  notices := by
    rw [hnotices]
    split
    · exact (List.append_nil _).symm
    · exact (List.append_nil _).symm

theorem keys_updateWhere (p : JobRow → Bool) (f : JobRow → JobRow) (pool : List JobRow)
    (hf : ∀ j, (f j).key = j.key) :
    (Table.updateWhere p f pool).map JobRow.key = pool.map JobRow.key :=
  Table.map_updateWhere _ _ _ _ (fun j _ _ => hf j)

theorem Justified.keys {loc : Locale} {now : Time} {u : String} {wid : Int} {excpt : Bool}
    {db db₁ : Db} {tgid : Option Int} (h : Justified loc now u wid excpt db tgid db₁) :
    db₁.jobPool.map JobRow.key = db.jobPool.map JobRow.key := by
  cases h with
  | job j hne hj hrun hwid => exact keys_updateWhere _ _ _ (fun _ => rfl)
  | recovery he hx => rfl

theorem uptkn_of_keys {pool pool' : List JobRow} (h : pool'.map JobRow.key = pool.map JobRow.key) :
    pool'.map (·.uptkn) = pool.map (·.uptkn) := by
  have hmap : ∀ q : List JobRow, q.map (·.uptkn) = (q.map JobRow.key).map (·.2.2.1) := by
    intro q
    rw [List.map_map]
    rfl
  rw [hmap pool', hmap pool, h]

/-- A job is found again among rows with the same keys. -/
theorem exists_object {pool pool' : List JobRow} (h : pool'.map JobRow.key = pool.map JobRow.key)
    {i : JobRow} (hi : i ∈ pool) : ∃ j ∈ pool', j.object = i.object := by
  have hmem : i.key ∈ pool'.map JobRow.key := h ▸ List.mem_map_of_mem hi
  rcases List.mem_map.mp hmem with ⟨j, hj, hjk⟩
  exact ⟨j, hj, object_of_key hjk⟩

/-- Every statement creates jobs in this way. -/
theorem creates_change {loc : Locale} {env : Env} {db db' : Db} {op : Op} {r : Reply}
    (h : Change loc env db op r db') : ∃ jobs, Creates loc op db db' jobs := by
  cases h with
  | insert wid uptkn vals w h =>
      exact ⟨w.jobs env, ⟨db.jobPool, rfl, rfl⟩, h.settles.fresh, digest_freshJobs env 0 _, rfl⟩
  | noRow wid newWid uptkn vals h => exact ⟨[], creates_nil rfl rfl⟩
  | update wid newWid uptkn vals old u db₁ w h =>
      rcases h.justified with ⟨f, e, -, -, hj⟩
      refine ⟨w.jobs env, ⟨db₁.jobPool, rfl, hj.keys⟩, ?_, digest_freshJobs env 0 _, ?_⟩
      · exact (fresh_congr loc _ _ _ (uptkn_of_keys hj.keys)).mp h.settles.fresh
      · change db₁.notices ++ announcements (w.jobs env) = _
        rw [hj.same]
        rfl
  | noLock u lckid h => exact ⟨[], creates_nil rfl rfl⟩
  | lock u lckid j hj hl => exact ⟨[], creates_nil (keys_updateWhere _ _ _ (fun _ => rfl)) rfl⟩
  | noAbort u h => exact ⟨[], creates_nil rfl rfl⟩
  | abort u j hj hl ha => exact ⟨[], creates_nil (keys_updateWhere _ _ _ (fun _ => rfl)) rfl⟩
  | noRequeue h => exact ⟨[], creates_nil rfl rfl⟩
  | requeue h hf =>
      exact ⟨_, ⟨_, rfl, keys_updateWhere _ _ _ (fun _ => rfl)⟩, hf, digest_freshJobs env 0 _,
        (List.append_nil _).symm⟩
  | redefine op db' hop h =>
      refine ⟨[], creates_nil ?_ ?_⟩
      · rw [h.same]
      · rw [h.same]
  | restyle op db' hop h =>
      rcases h.same with ⟨f, hsame⟩
      refine ⟨[], creates_nil ?_ ?_⟩
      · rw [hsame]
      · rw [hsame]

section Creates

variable {loc : Locale} {op : Op} {db db' : Db} {jobs : List JobRow}
  (h : Creates loc op db db' jobs)
include h

theorem Creates.token_new {j : JobRow} (hj : j ∈ jobs) : j.uptkn ∉ db.jobPool.map (·.uptkn) := by
  intro hmem
  rcases List.mem_map.mp hmem with ⟨i, hi, heq⟩
  exact h.fresh.1 i hi j hj (congrArg loc.sqlLower heq)

theorem Creates.plainText {j : JobRow} (hj : j ∈ jobs) : Json.PlainText j.uptkn := by
  rcases h.digest j hj with ⟨d, hd⟩
  rw [hd]
  exact plainText_hexdigest d

theorem Creates.unique : Table.Unique (·.uptkn) jobs := by
  have hlower : ((jobs.map (·.uptkn)).map loc.sqlLower).Nodup := by
    rw [List.map_map]
    exact h.fresh.2
  exact hlower.of_map

/-- The jobs of a statement are those with a new token. -/
theorem Creates.created_eq : created db db' = jobs := by
  rcases h.pool with ⟨old, hpool, hkeys⟩
  unfold created
  rw [hpool, List.filter_append]
  -- The old rows keep their tokens, and the tokens of the jobs are new.
  have hold : old.filter (fun j => j.uptkn ∉ db.jobPool.map (·.uptkn)) = [] := by
    refine List.filter_eq_nil_iff.mpr (fun j hj hnew => ?_)
    rw [← uptkn_of_keys hkeys] at hnew
    exact of_decide_eq_true hnew (List.mem_map_of_mem hj)
  have hnew : jobs.filter (fun j => j.uptkn ∉ db.jobPool.map (·.uptkn)) = jobs :=
    List.filter_eq_self.mpr (fun j hj => decide_eq_true (h.token_new hj))
  rw [hold, hnew, List.nil_append]

/-- Among the jobs of a statement, one is announced by its own notification. -/
theorem Creates.announces_iff {i j : JobRow} (hi : i ∈ jobs) (hj : j ∈ jobs) :
    (announcement i).announces j = true ↔ i.uptkn = j.uptkn := by
  rw [announces_announcement_iff i j (h.plainText hi)]
  constructor
  · intro heq
    exact ((object_eq_iff i j).mp heq).2.2
  · intro heq
    rw [h.unique.eq_of_mem hi hj heq]

/-- Whatever is sent announces one of the jobs. -/
theorem Creates.sent {n : Notice} (hn : n ∈ if op.isInspector then [] else announcements jobs) :
    ∃ j ∈ jobs, 0 ≤ j.tgid ∧ announcement j = n ∧ n.announces j = true := by
  split at hn
  · exact absurd hn List.not_mem_nil
  · rcases mem_announcements.mp hn with ⟨j, hj, htgid, rfl⟩
    exact ⟨j, hj, htgid, rfl, (h.announces_iff hj hj).mpr rfl⟩

/-- With channels for all of them, each job has one notification. -/
theorem Creates.countP_announcements (htgid : ∀ j ∈ jobs, 0 ≤ j.tgid) {j : JobRow}
    (hj : j ∈ jobs) : (announcements jobs).countP (·.announces j) = 1 := by
  have hall : jobs.filter (fun i => 0 ≤ i.tgid) = jobs :=
    List.filter_eq_self.mpr (fun i hi => decide_eq_true (htgid i hi))
  have hsame : jobs.filter (fun i => (announcement i).announces j)
      = jobs.filter fun i => decide (i.uptkn = j.uptkn) := by
    refine List.filter_congr (fun i hi => ?_)
    rw [Bool.eq_iff_iff, h.announces_iff hi hj, decide_eq_true_eq]
  rw [announcements_eq, hall, List.countP_map, List.countP_eq_length_filter]
  change (jobs.filter fun i => (announcement i).announces j).length = 1
  rw [hsame, h.unique.filter_eq_singleton hj]
  rfl

/-- A statement announces its jobs exactly if it is no inspector and their
    triggers have channels. -/
theorem Creates.announced_iff :
    Announced db db' ↔ ∀ j ∈ jobs, op.isInspector = false ∧ 0 ≤ j.tgid := by
  constructor
  · rintro ⟨new, hnew, hone, -⟩ j hj
    have heq : new = if op.isInspector then [] else announcements jobs :=
      List.append_cancel_left (hnew.symm.trans h.notices)
    rw [h.created_eq] at hone
    -- A job that is announced once has a notification, and it was sent for a job.
    have hpos : 0 < new.countP (·.announces j) := by rw [hone j hj]; exact Nat.one_pos
    rcases List.countP_pos_iff.mp hpos with ⟨n, hn, hnj⟩
    rw [heq] at hn
    rcases h.sent hn with ⟨i, hi, htgid, rfl, -⟩
    refine ⟨?_, ?_⟩
    · -- An inspector sends nothing.
      by_contra hins
      rw [if_pos (by simpa using hins)] at hn
      exact absurd hn List.not_mem_nil
    · have hobj := (announces_announcement_iff i j (h.plainText hi)).mp hnj
      rw [← ((object_eq_iff i j).mp hobj).1]
      exact htgid
  · intro hall
    refine ⟨_, h.notices, fun j hj => ?_, fun n hn => ?_⟩
    · rw [h.created_eq] at hj
      rw [if_neg (by rw [(hall j hj).1]; exact Bool.false_ne_true)]
      exact h.countP_announcements (fun i hi => (hall i hi).2) hj
    · rcases h.sent hn with ⟨j, hj, -, -, hnj⟩
      rcases h.pool with ⟨old, hpool, -⟩
      refine ⟨j, ?_, hnj⟩
      rw [hpool]
      exact List.mem_append_right old hj

end Creates

/-! ## Runs -/

/-- Every job has been announced once, and nothing else has. -/
structure Heard (db : Db) : Prop where
  once : ∀ j ∈ db.jobPool, db.notices.countP (·.announces j) = 1
  known : ∀ n ∈ db.notices, ∃ j ∈ db.jobPool, n.announces j = true

theorem Heard.step {loc : Locale} {op : Op} {db db' : Db} {jobs : List JobRow} (hh : Heard db)
    (h : Creates loc op db db' jobs) (hall : ∀ j ∈ jobs, op.isInspector = false ∧ 0 ≤ j.tgid) :
    Heard db' := by
  rcases h.pool with ⟨old, hpool, hkeys⟩
  constructor
  · intro j hj
    rw [h.notices, List.countP_append]
    rw [hpool] at hj
    rcases List.mem_append.mp hj with hj | hj
    · -- A row that was there is announced by what announced it before.
      rcases exists_object hkeys.symm hj with ⟨i, hi, hobj⟩
      have hnone : (if op.isInspector then [] else announcements jobs).countP (·.announces j) = 0 := by
        refine List.countP_eq_zero.mpr (fun n hn hnj => ?_)
        rcases h.sent hn with ⟨k, hk, -, -, hnk⟩
        rw [← announces_congr hobj] at hnj
        exact h.token_new hk (uptkn_of_announces hnj hnk ▸ List.mem_map_of_mem hi)
      have hone := hh.once i hi
      simp only [announces_congr hobj] at hone
      rw [hnone, hone]
    -- A new token is in nothing that was sent before.
    · have hnone : db.notices.countP (·.announces j) = 0 := by
        refine List.countP_eq_zero.mpr (fun n hn hnj => ?_)
        rcases hh.known n hn with ⟨i, hi, hni⟩
        exact h.token_new hj (uptkn_of_announces hni hnj ▸ List.mem_map_of_mem hi)
      rw [hnone, if_neg (by rw [(hall j hj).1]; exact Bool.false_ne_true),
        h.countP_announcements (fun i hi => (hall i hi).2) hj]
  · intro n hn
    rw [h.notices] at hn
    rcases List.mem_append.mp hn with hn | hn
    · rcases hh.known n hn with ⟨i, hi, hni⟩
      rcases exists_object hkeys hi with ⟨j, hj, hobj⟩
      exact ⟨j, hpool ▸ List.mem_append_left jobs hj, (announces_congr hobj n).trans hni⟩
    · rcases h.sent hn with ⟨j, hj, -, -, hnj⟩
      exact ⟨j, hpool ▸ List.mem_append_right old hj, hnj⟩

theorem creates_step (loc : Locale) (i : Input) (db : Db) (hi : Inv db) :
    ∃ jobs, Creates loc i.op db (step loc db i) jobs :=
  step_cases loc db i (fun db' => ∃ jobs, Creates loc i.op db db' jobs) ⟨[], creates_nil rfl rfl⟩
    (fun db' r hex => creates_change (exec_change loc i db db' r hi hex))

/-- A statement announces the jobs it creates exactly if it is no inspector and
    their triggers have channels. -/
theorem announced_iff (loc : Locale) (i : Input) (db : Db) (hi : Inv db) :
    Announced db (step loc db i) ↔
      ∀ j ∈ created db (step loc db i), i.op.isInspector = false ∧ 0 ≤ j.tgid := by
  rcases creates_step loc i db hi with ⟨jobs, h⟩
  rw [h.created_eq]
  exact h.announced_iff

/-- In every run each statement announces the jobs it creates, once each and
    nothing else, and at the end every job has been announced once, exactly if no
    job was created by an inspector and none for a trigger with a negative
    number. -/
theorem jobs_announced_iff (loc : Locale) (is : List Input) :
    ((∀ p ∈ Machine.history (step loc) Db.empty is, Announced p.1 (step loc p.1 p.2)) ∧
      ∀ j ∈ (run loc is).jobPool, (run loc is).notices.countP (·.announces j) = 1) ↔
    ∀ p ∈ Machine.history (step loc) Db.empty is,
      ∀ j ∈ created p.1 (step loc p.1 p.2), p.2.op.isInspector = false ∧ 0 ≤ j.tgid := by
  have hinv : ∀ p ∈ Machine.history (step loc) Db.empty is, Inv p.1 :=
    Machine.history_states (step loc) Inv (fun db i => inv_step loc i db) Db.empty inv_empty is
  constructor
  · rintro ⟨hall, -⟩ p hp
    exact (announced_iff loc p.2 p.1 (hinv p hp)).mp (hall p hp)
  · intro hall
    refine ⟨fun p hp => (announced_iff loc p.2 p.1 (hinv p hp)).mpr (hall p hp), ?_⟩
    -- What each statement announces adds up, since no token is used twice.
    refine (Machine.after_invariant_along (step loc)
      (fun db i => ∀ j ∈ created db (step loc db i), i.op.isInspector = false ∧ 0 ≤ j.tgid)
      (fun db => Inv db ∧ Heard db) ?_ Db.empty ⟨inv_empty, ?_⟩ is hall).2.once
    · intro db i hok h
      rcases creates_step loc i db h.1 with ⟨jobs, hc⟩
      rw [hc.created_eq] at hok
      exact ⟨inv_step loc i db h.1, h.2.step hc hok⟩
    · exact ⟨fun _ hj => absurd hj List.not_mem_nil, fun _ hn => absurd hn List.not_mem_nil⟩

/-- A job of the small flow runs out of time, and an inspector replaces it: the
    new job is in the pool, and no notification has gone out. And with a trigger
    numbered below zero the first state already creates a job in silence. -/
theorem requeued_unannounced :
    (let db := run asciiLocale (tiny ++ [⟨clock 1, .insertFlow 7 none []⟩,
        ⟨clock 2, .jobLock (tokenAt 1 0) none⟩])
      let db' := step asciiLocale db ⟨clock 20, .jobInspector⟩
      (created db db').map (·.uptkn) = [tokenAt 20 0] ∧ db'.notices = db.notices ∧
        ∀ j ∈ created db db', db'.notices.countP (·.announces j) = 0) ∧
    (let db := run asciiLocale (tiny ++ [⟨clock 1, .updateTrig 1 ⟨-1, "left", 2, some 10⟩⟩])
      let db' := step asciiLocale db ⟨clock 2, .insertFlow 7 none []⟩
      (created db db').map (·.tgid) = [-1, 2] ∧ db'.notices.map (·.channel) = ["WTRG_2"]) := by
  decide +kernel

end WedFlow
