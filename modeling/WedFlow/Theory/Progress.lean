import WedFlow.Theory.Refine

/-!
# Progress

An active instance is moved by its jobs, so it had better have one. Without
`job_abort` it always does: the kernel fires at least one trigger whenever an
instance is left active with nothing running, because the validations have seen
to it that every condition has a trigger, and a job that runs out of time is
replaced. More than that, while the definitions stay as they are, every trigger
whose condition the instance meets has an open job.

`job_abort` is another matter. It closes a job and looks no further, and when
that was the last open job of an active instance nobody can move the instance
any more: there is no token left, and the exception that would let it recover
is only ever declared by an update.

## Main definitions

* `Attended`: An active instance has an open job.
* `Served`: All triggers of the conditions an active instance meets have one.
* `Movable`: An instance has ended, is in an exception, or has an open job.
* `Spares`: An abort leaves another open job of the instance.
* `Op.Works`: The statements on instances and jobs, other than `job_abort`.

## Theorems

* `attended_exec`, `served_exec`: What one statement preserves.
* `served_of_accepted`: What an accepted update establishes.
* `active_instances_advance`: Every run without `job_abort`.
* `movable_iff_spares`: Every run with it.
-/

namespace WedFlow

open Workflow (Mode Phase Inst Policy Action Step Performs)

/-! ## Open jobs of active instances -/

/-- If the instance is active it has an open job. -/
def Attended (db : Db) (wid : Int) : Prop :=
  ∀ s ∈ db.stStatus, s.wid = wid → s.final = false → s.excpt = false →
    ∃ j ∈ db.jobPool, j.wid = wid ∧ j.tf = none

/-- If the instance is active, every trigger whose condition its attributes
    match has an open job. -/
def Served (loc : Locale) (db : Db) (wid : Int) : Prop :=
  ∀ r ∈ db.wedFlow, r.wid = wid → ∀ s ∈ db.stStatus, s.wid = wid → s.final = false →
    s.excpt = false → ∀ t ∈ db.wedTrig, t.cid ∈ (matchConds loc db r.attrs).1 →
      ∃ j ∈ db.jobPool, j.wid = wid ∧ j.tgid = t.tgid ∧ j.tf = none

/-- The instance has ended, or is in an exception, or has an open job. -/
def Movable (db : Db) (wid : Int) : Prop :=
  ∀ s ∈ db.stStatus, s.wid = wid → (s.final = true ∧ s.excpt = false) ∨
    (s.final = true ∧ s.excpt = true) ∨ ∃ j ∈ db.jobPool, j.wid = wid ∧ j.tf = none

/-- An abort of a locked open job leaves another open job of the instance. -/
def Spares (db : Db) (i : Input) : Prop :=
  ∀ u j, i.op = .jobAbort u → jobOf db u = some j → j.locked = true → j.tf = none →
    ∃ k ∈ db.jobPool, k.wid = j.wid ∧ k.tf = none ∧ k.uptkn ≠ u

/-- A statement on instances or jobs, other than `job_abort`. -/
def Op.Works : Op → Prop
  | .insertFlow _ _ _ => True
  | .updateFlow _ _ _ _ => True
  | .jobLock _ _ => True
  | .jobInspector => True
  | _ => False

theorem runs_ne_none_iff (pool : List JobRow) (wid g : Int) :
    runs pool wid g ≠ none ↔ ∃ j ∈ pool, j.tf = none ∧ j.wid = wid ∧ j.tgid = g := by
  rw [ne_eq, runs_eq_none_iff, not_not, mem_openKeys]

/-- In the tables an instance that is not final is not in an exception. -/
theorem Inv.excpt_false {db : Db} (hi : Inv db) {s : StatusRow} (hs : s ∈ db.stStatus)
    (hf : s.final = false) : s.excpt = false := by
  by_contra hx
  exact Bool.noConfusion (hf.symm.trans (hi.excpt s hs (Bool.eq_true_of_not_eq_false hx)))

theorem attended_iff {db : Db} (hi : Inv db) (wid : Int) :
    Attended db wid ↔ ∀ i, inst db wid = some i → i.Live := by
  constructor
  · intro h i hx hm
    rcases (inst_eq_some_iff hi wid i).mp hx with ⟨r, -, s, hs, -, hw, rfl⟩
    have hf := (modeOf_active_iff s).mp hm
    rcases h s hs hw hf (hi.excpt_false hs hf) with ⟨j, hj, hjw, ht⟩
    exact ⟨j.tgid, (runs_ne_none_iff _ _ _).mpr ⟨j, hj, ht, hjw, rfl⟩⟩
  · intro h s hs hw hf _
    have hmem : wid ∈ db.wedFlow.map (·.wid) := by
      rw [← hi.status, ← hw]
      exact List.mem_map_of_mem hs
    rcases List.mem_map.mp hmem with ⟨r, hr, rfl⟩
    rcases h _ (inst_of_mem hi hr hs hw) ((modeOf_active_iff s).mpr hf) with ⟨g, hg⟩
    rcases (runs_ne_none_iff _ _ _).mp hg with ⟨j, hj, ht, hjw, -⟩
    exact ⟨j, hj, hjw, ht⟩

theorem served_iff (loc : Locale) {db : Db} (hi : Inv db) (wid : Int) :
    Served loc db wid ↔ ∀ i, inst db wid = some i → i.Covered (policy loc db) := by
  constructor
  · intro h i hx hm g hg
    rcases (inst_eq_some_iff hi wid i).mp hx with ⟨r, hr, s, hs, hrw, hw, rfl⟩
    have hf := (modeOf_active_iff s).mp hm
    rcases (policy_fires loc db _ g).mp hg with ⟨t, ht, htc, rfl⟩
    rcases h r hr hrw s hs hw hf (hi.excpt_false hs hf) t ht htc with ⟨j, hj, hjw, hjg, hjt⟩
    exact (runs_ne_none_iff _ _ _).mpr ⟨j, hj, hjt, hjw, hjg⟩
  · intro h r hr hrw s hs hw hf _ t ht htc
    subst hrw
    have hg := h _ (inst_of_mem hi hr hs hw) ((modeOf_active_iff s).mpr hf) t.tgid
      ((policy_fires loc db _ _).mpr ⟨t, ht, htc, rfl⟩)
    rcases (runs_ne_none_iff _ _ _).mp hg with ⟨j, hj, hjt, hjw, hjg⟩
    exact ⟨j, hj, hjw, hjg, hjt⟩

theorem movable_iff {db : Db} (hi : Inv db) (wid : Int) : Movable db wid ↔ Attended db wid := by
  constructor
  · intro h s hs hw hf hx
    rcases h s hs hw with ⟨hf', -⟩ | ⟨hf', -⟩ | hj
    · exact absurd (hf.symm.trans hf') Bool.false_ne_true
    · exact absurd (hf.symm.trans hf') Bool.false_ne_true
    · exact hj
  · intro h s hs hw
    cases hf : s.final with
    | false => exact .inr (.inr (h s hs hw hf (hi.excpt_false hs hf)))
    | true =>
        cases hx : s.excpt with
        | false => exact .inl ⟨rfl, rfl⟩
        | true => exact .inr (.inl ⟨rfl, rfl⟩)

/-! ## What a statement preserves -/

/-- A statement that writes a state has passed the validations. -/
theorem valid_of_writes (loc : Locale) (i : Input) (db db' : Db) (r : Reply) (hi : Inv db)
    (hexec : exec loc i db = .ok (db', r)) (p : Int × Action State Int)
    (hp : p ∈ actions loc i db) (hw : p.2.Writes) : (policy loc db).Valid := by
  have hc := exec_change loc i db db' r hi hexec
  have hm := mem_actions loc i db p hp
  -- Completions and recoveries are both updates.
  have hupdate : ∀ wid newWid uptkn vals, i.op = .updateFlow wid newWid uptkn vals →
      (policy loc db).Valid := by
    intro wid newWid uptkn vals hop
    rcases i with ⟨env, op⟩
    subst hop
    cases hc with
    | noRow wid newWid uptkn vals h =>
        rw [actions_noRow loc env wid newWid uptkn vals db h] at hp
        exact absurd hp List.not_mem_nil
    | update wid newWid uptkn vals old u db₁ w h => exact policy_valid loc db h.validated
    | redefine op db' hop h => exact hop.elim
    | restyle op db' hop h => exact hop.elim
  rcases i with ⟨env, op⟩
  rcases p with ⟨w, a⟩
  cases a with
  | insert s =>
      rcases hm with ⟨uptkn, vals, hop⟩
      dsimp only at hop hc
      subst hop
      cases hc with
      | insert wid uptkn vals w h => exact policy_valid loc db h.validated
      | redefine op db' hop h => exact hop.elim
      | restyle op db' hop h => exact hop.elim
  | complete t s =>
      rcases hm with ⟨newWid, uptkn, vals, hop⟩
      exact hupdate w newWid uptkn vals hop
  | recover s =>
      rcases hm with ⟨newWid, uptkn, vals, hop⟩
      exact hupdate w newWid uptkn vals hop
  | lock t => exact hw.elim
  | timeout t => exact hw.elim
  | abort t => exact hw.elim

/-- Aborting one of several open jobs leaves the instance live. -/
theorem live_of_spares (loc : Locale) (db : Db) (hi : Inv db) (A : Int → Option (Inst State Int))
    (j k : JobRow) (hj : j ∈ db.jobPool) (hjt : j.tf = none) (hk : k ∈ db.jobPool)
    (hkw : k.wid = j.wid) (hkt : k.tf = none) (hne : k.uptkn ≠ j.uptkn)
    (h : Performs (policy loc db) (inst db) [(j.wid, .abort j.tgid)] A) (wid : Int)
    (hlive : ∀ i, inst db wid = some i → i.Live) : ∀ i, A wid = some i → i.Live := by
  cases h with
  | cons _ _ _ i' _ _ hstep hrest =>
      cases hrest with
      | nil =>
          by_cases hw : wid = j.wid
          · intro i hA
            rw [hw, Function.update_self] at hA
            -- Two open jobs of an instance are of different triggers.
            have hne' : k.tgid ≠ j.tgid := by
              intro hg
              exact hne (congrArg JobRow.uptkn (hi.pool.eq_of_open hk hj hkt hjt hkw hg))
            have hrun : runs db.jobPool j.wid k.tgid ≠ none :=
              (runs_ne_none_iff _ _ _).mpr ⟨k, hk, hkt, hkw, rfl⟩
            rcases exists_inst_of_job hi hj with ⟨x, hx⟩
            rw [hx] at hstep
            rw [← inst_running hx] at hrun
            rw [← Option.some.inj hA]
            exact hstep.live_of_abort hne' hrun
          · rw [Function.update_of_ne hw]
            exact hlive

/-- Statements keep active instances attended, aborts if they spare a job. -/
theorem attended_exec (loc : Locale) (i : Input) (db db' : Db) (r : Reply) (hi : Inv db)
    (hexec : exec loc i db = .ok (db', r)) (hspare : Spares db i) (wid : Int)
    (h : Attended db wid) : Attended db' wid := by
  have hi' := inv_exec loc i db db' r hi hexec
  rw [attended_iff hi] at h
  rw [attended_iff hi']
  by_cases hop : i.op.Restyles
  · rcases inst_restyle (restyled_of_exec loc i.env i.op db db' r hop hexec) with ⟨f, hf⟩
    intro k hk
    rw [hf wid, Option.map_eq_some_iff] at hk
    rcases hk with ⟨x, hx, rfl⟩
    exact h x hx
  · have hperf := exec_performs loc i db db' r hi hop hexec
    by_cases habort : ∃ p ∈ actions loc i db, ∃ g, p.2 = .abort g
    · rcases habort with ⟨⟨w, a⟩, hp, g, rfl⟩
      rcases mem_actions loc i db _ hp with ⟨u, j, hu, hj, hl, ht, -, -⟩
      rcases hspare u j hu hj hl ht with ⟨k, hk, hkw, hkt, hne⟩
      rcases jobOf_some db u j hj with ⟨hjm, rfl⟩
      have hact : actions loc i db = [(j.wid, .abort j.tgid)] := by
        unfold actions
        rw [hu]
        dsimp only
        rw [hj]
        exact if_pos ⟨hl, ht⟩
      rw [hact] at hperf
      exact live_of_spares loc db hi _ j k hjm ht hk hkw hkt hne hperf wid h
    -- Without an abort every abstract step keeps its instance live.
    · refine hperf.invariant (fun a => (a.Writes → (policy loc db).Valid) ∧ ∀ g, a ≠ .abort g)
        (fun x => ∀ i, x = some i → i.Live) ?_ wid ?_ h
      · intro x a i ha hx hstep k hk
        rw [← Option.some.inj hk]
        exact hstep.live ha.1 ha.2 hx
      · intro p hp _
        exact ⟨valid_of_writes loc i db db' r hi hexec p hp,
          fun g hg => habort ⟨p, hp, g, hg⟩⟩

/-- Statements on instances and jobs leave the policy alone. -/
theorem policy_of_works (loc : Locale) (i : Input) (db db' : Db) (r : Reply) (hi : Inv db)
    (hexec : exec loc i db = .ok (db', r)) (hop : i.op.Works) :
    policy loc db' = policy loc db := by
  have hc := exec_change loc i db db' r hi hexec
  rcases i with ⟨env, op⟩
  dsimp only at hc hop
  cases hc with
  | update wid newWid uptkn vals old u db₁ w h =>
      rcases h.justified with ⟨f, e, -, -, hj⟩
      have hpol : policy loc db₁ = policy loc db := by
        rw [hj.same]
        rfl
      exact hpol
  | redefine op db' hop' h => cases op <;> first | exact hop.elim | exact hop'.elim
  | restyle op db' hop' h => cases op <;> first | exact hop.elim | exact hop'.elim
  | _ => rfl

/-- Statements other than `job_abort` keep instances served. -/
theorem served_exec (loc : Locale) (i : Input) (db db' : Db) (r : Reply) (hi : Inv db)
    (hexec : exec loc i db = .ok (db', r)) (hop : i.op.Works) (wid : Int)
    (h : Served loc db wid) : Served loc db' wid := by
  have hi' := inv_exec loc i db db' r hi hexec
  rw [served_iff loc hi] at h
  rw [served_iff loc hi', policy_of_works loc i db db' r hi hexec hop]
  have hre : ¬ i.op.Restyles := by
    intro hr
    rcases i with ⟨env, op⟩
    cases op <;> first | exact hop.elim | exact hr.elim
  have hperf := exec_performs loc i db db' r hi hre hexec
  refine hperf.invariant (fun a => ∀ g, a ≠ .abort g)
    (fun x => ∀ i, x = some i → i.Covered (policy loc db)) ?_ wid ?_ h
  · intro x a i ha hx hstep k hk
    rw [← Option.some.inj hk]
    -- A write covers the new state afresh, and the rest leaves the triggers running.
    by_cases hw : a.Writes
    · exact hstep.covered hw
    · exact hstep.covered_of_silent hw ha hx
  · intro p hp _ g hg
    rcases p with ⟨w, a⟩
    dsimp only at hg
    subst hg
    rcases mem_actions loc i db _ hp with ⟨u, j, hu, -⟩
    rw [hu] at hop
    exact hop

/-- An accepted update serves its instance, whatever was the case before. -/
theorem served_of_accepted (loc : Locale) (i : Input) (db : Db) (wid : Int) (hi : Inv db)
    (h : accepted loc wid (db, i) = true) : Served loc (step loc db i) wid := by
  rcases (accepted_iff loc wid db i).mp h with ⟨⟨newWid, uptkn, vals, hop⟩, db', hexec⟩
  have hworks : i.op.Works := by
    rw [hop]
    trivial
  rw [step_of_exec hexec, served_iff loc (inv_exec loc i db db' _ hi hexec),
    policy_of_works loc i db db' _ hi hexec hworks]
  have hc := exec_change loc i db db' _ hi hexec
  rcases i with ⟨env, op⟩
  dsimp only at hop hc
  subst hop
  cases hc with
  | update wid newWid uptkn vals old u db₁ w h =>
      rcases oneWrite_update loc env wid newWid uptkn vals db old u db₁ w hi h with ⟨a, k, hw⟩
      intro k' hk
      rw [hw.result, Function.update_self] at hk
      rw [← Option.some.inj hk]
      exact hw.step.covered hw.writes

/-! ## Runs -/

theorem attended_step (loc : Locale) (i : Input) (db : Db) (hi : Inv db) (hspare : Spares db i)
    (wid : Int) (h : Attended db wid) : Attended (step loc db i) wid :=
  step_cases loc db i (Attended · wid) h
    (fun db' r hex => attended_exec loc i db db' r hi hex hspare wid h)

/-- A run all of whose aborts spare a job leaves every active instance with an
    open job. -/
theorem run_attended (loc : Locale) (is : List Input)
    (hspare : ∀ p ∈ Machine.history (step loc) Db.empty is, Spares p.1 p.2) (wid : Int) :
    Attended (run loc is) wid := by
  refine (Machine.after_invariant_along (step loc) Spares
    (fun db => Inv db ∧ ∀ wid, Attended db wid) ?_ Db.empty ⟨inv_empty, ?_⟩ is hspare).2 wid
  · intro db i hs h
    exact ⟨inv_step loc i db h.1, fun wid => attended_step loc i db h.1 hs wid (h.2 wid)⟩
  · intro wid s hs
    exact absurd hs List.not_mem_nil

/-- From an instance that is served, statements other than `job_abort` lead to
    one that is served. -/
theorem served_after (loc : Locale) (db : Db) (hi : Inv db) (is : List Input)
    (hworks : ∀ i ∈ is, i.op.Works) (wid : Int) (h : Served loc db wid) :
    Served loc (Machine.after (step loc) db is) wid := by
  refine (Machine.after_invariant (step loc) (fun i => i.op.Works)
    (fun db => Inv db ∧ Served loc db wid) ?_ db ⟨hi, h⟩ is hworks).2
  intro db i hw h
  refine ⟨inv_step loc i db h.1, ?_⟩
  exact step_cases loc db i (Served loc · wid) h.2
    (fun db' r hex => served_exec loc i db db' r h.1 hex hw wid h.2)

/-- Without `job_abort` every active instance has an open job. While the
    definitions are left alone, every trigger whose condition an active instance
    matches has one, if that was so at the outset, as it is for every instance
    created since, or if an update of the instance has been accepted since. -/
theorem active_instances_advance (loc : Locale) :
    (∀ is : List Input, (∀ i ∈ is, ∀ u, i.op ≠ .jobAbort u) → ∀ wid, Attended (run loc is) wid) ∧
    (∀ pre post : List Input, (∀ i ∈ post, i.op.Works) → ∀ wid,
      (wid ∉ (run loc pre).wedFlow.map (·.wid) ∨ Served loc (run loc pre) wid ∨
        ∃ p ∈ Machine.history (step loc) (run loc pre) post, accepted loc wid p = true) →
      Served loc (run loc (pre ++ post)) wid) := by
  constructor
  · intro is hno wid
    refine run_attended loc is (fun p hp u j hu => ?_) wid
    exact absurd hu (hno p.2 (Machine.mem_of_mem_history _ _ _ p hp) u)
  · intro pre post hworks wid h
    have hi := run_inv loc pre
    rw [run_append]
    rcases h with hfree | hserved | ⟨⟨db, i⟩, hp, hacc⟩
    · refine served_after loc _ hi post hworks wid (fun r hr hrw => ?_)
      exact absurd (List.mem_map.mpr ⟨r, hr, hrw⟩) hfree
    · exact served_after loc _ hi post hworks wid hserved
    · -- Served at the update, and from there on.
      rcases List.append_of_mem hp with ⟨h₁, h₂, hsplit⟩
      rcases Machine.history_before _ _ _ h₁ h₂ db i hsplit with ⟨is₁, is₂, rfl, -, hdb⟩
      rw [← run_append] at hdb
      have hidb : Inv db := by
        rw [hdb]
        exact run_inv loc (pre ++ is₁)
      rw [Machine.after_append, ← run_append, ← hdb]
      exact served_after loc _ (inv_step loc i db hidb) is₂
        (fun k hk => hworks k (List.mem_append_right _ (List.mem_cons_of_mem _ hk))) wid
        (served_of_accepted loc i db wid hidb hacc)

/-- A lock and a time-out in the small flow: the one instance is active and
    served. -/
theorem active_instances_advance_tiny :
    let work : List Input := [⟨clock 1, .insertFlow 7 none []⟩,
      ⟨clock 2, .jobLock (tokenAt 1 0) none⟩, ⟨clock 20, .jobInspector⟩]
    (⟨7, false, false⟩ : StatusRow) ∈ (run asciiLocale (tiny ++ work)).stStatus ∧
      Attended (run asciiLocale (tiny ++ work)) 7 ∧
      Served asciiLocale (run asciiLocale (tiny ++ work)) 7 := by
  intro work
  have hadv := active_instances_advance asciiLocale
  have hno : ∀ i ∈ tiny ++ work, i.op.isAbort = false := by decide +kernel
  refine ⟨by decide +kernel, hadv.1 (tiny ++ work) (fun i hi => Op.ne_jobAbort (hno i hi)) 7,
    hadv.2 tiny work (fun i hi => ?_) 7 (.inl (by decide +kernel))⟩
  rcases List.mem_cons.mp hi with rfl | hi
  · trivial
  rcases List.mem_cons.mp hi with rfl | hi
  · trivial
  rcases List.mem_singleton.mp hi with rfl
  trivial

/-! ## Aborts -/

/-- An abort of the last open job of an instance strands it: the instance was
    active, and it still is. -/
theorem not_movable_of_last (loc : Locale) (i : Input) (db : Db) (u : String) (j : JobRow)
    (hi : Inv db) (hop : i.op = .jobAbort u) (hj : jobOf db u = some j) (hl : j.locked = true)
    (ht : j.tf = none) (hlast : ∀ k ∈ db.jobPool, k.wid = j.wid → k.tf = none → k.uptkn = u) :
    ¬ Movable (step loc db i) j.wid := by
  rcases jobOf_some db u j hj with ⟨hjm, -⟩
  have hexec : exec loc i db = .ok (writeJob u (abortRow i.env.now) db, .bool true) := by
    unfold exec
    rw [hop]
    refine (Table.map_eq_ok _ _ _).mpr ⟨(_, true), ?_, rfl⟩
    exact (jobAbort_ok_iff i.env.now u db _ true hi.lockJob hi.pool.tokens).mpr
      (.inr ⟨j, hj, hl, (hi.pool.phase j hjm ht).1, rfl, rfl⟩)
  rw [step_of_exec hexec]
  intro hmov
  have hwid : j.wid ∈ db.stStatus.map (·.wid) := by
    rw [hi.status]
    exact hi.pool.flow j hjm
  rcases List.mem_map.mp hwid with ⟨s, hs, hsw⟩
  have hf : s.final ≠ true := by
    intro hf
    exact hi.quiet s hs hf j.tgid ((mem_openKeys _ _ _).mpr ⟨j, hjm, ht, hsw.symm, rfl⟩)
  rcases hmov s hs hsw with ⟨hf', -⟩ | ⟨hf', -⟩ | ⟨k, hk, hkw, hkt⟩
  · exact hf hf'
  · exact hf hf'
  · -- What is open after the abort was open before, under another token.
    rcases (Table.mem_updateWhere _ _ _ _).mp hk with ⟨k₀, hk₀, rfl⟩
    by_cases hu : k₀.uptkn = u
    · rw [if_pos (decide_eq_true hu)] at hkt
      exact (abortRow_closes i.env.now k₀).2.2.2.2 hkt
    · rw [if_neg (by simpa only [decide_eq_true_eq] using hu)] at hkw hkt
      exact hu (hlast k₀ hk₀ hkw hkt)

/-- A statement keeps all instances movable exactly if it is no abort of a last
    open job. -/
theorem movable_step_iff (loc : Locale) (i : Input) (db : Db) (hi : Inv db)
    (hm : ∀ wid, Movable db wid) : (∀ wid, Movable (step loc db i) wid) ↔ Spares db i := by
  constructor
  · intro h u j hop hj hl ht
    by_contra hno
    refine not_movable_of_last loc i db u j hi hop hj hl ht (fun k hk hkw hkt => ?_) (h j.wid)
    by_contra hne
    exact hno ⟨k, hk, hkw, hkt, hne⟩
  · intro hs wid
    rw [movable_iff (inv_step loc i db hi)]
    exact attended_step loc i db hi hs wid ((movable_iff hi wid).mp (hm wid))

/-- A run keeps every instance movable throughout exactly if none of its aborts
    takes the last open job of an instance. -/
theorem movable_iff_spares (loc : Locale) (is : List Input) :
    (∀ is', is' <+: is → ∀ wid, Movable (run loc is') wid) ↔
      ∀ p ∈ Machine.history (step loc) Db.empty is, Spares p.1 p.2 :=
  Machine.forall_prefix_iff (step loc) (fun _ => True) Inv (fun db i _ => inv_step loc i db) Spares
    (fun db => ∀ wid, Movable db wid) (fun db i _ hi hm => movable_step_iff loc i db hi hm) Db.empty
    inv_empty (fun _ _ hs => absurd hs List.not_mem_nil) is (fun _ _ => trivial)

/-- Both jobs of the one instance of the small flow are locked and aborted. It
    is neither final nor in an exception, and it has no open job. -/
theorem not_movable_tiny :
    ¬ Movable (run asciiLocale (tiny ++ [⟨clock 1, .insertFlow 7 none []⟩,
      ⟨clock 2, .jobLock (tokenAt 1 0) none⟩, ⟨clock 3, .jobLock (tokenAt 1 1) none⟩,
      ⟨clock 4, .jobAbort (tokenAt 1 0)⟩, ⟨clock 5, .jobAbort (tokenAt 1 1)⟩])) 7 := by
  unfold Movable
  decide +kernel

end WedFlow
