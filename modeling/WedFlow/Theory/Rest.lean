import WedFlow.Theory.Trace

/-!
# Final States

An instance in a final state that is not an exception is at rest. It has no
open job, so no token can name it, and the word that asks for recovery is
accepted in an exception only. Whatever is done to other instances, to their
jobs and to the definitions, its row, its status and its open jobs stay as they
are.

Its history stays as it is unless somebody writes into it through the text of
another instance: a value with both kinds of quotes in it closes its literal and
can add a row of its own, `final_history_grows`.

That nothing is open in a final state is part of the invariant: the kernel
refuses a final state while something runs, and fires nothing in one. Neither
`job_lock` nor `job_inspector` looks at the status, and they need not, since
they only ever touch or replace jobs that are open.

## Main definitions

* `SameAt`: Two databases agree on an instance.

## Theorems

* `not_step_of_ended`: An instance that has ended has no steps left.
* `sameAt_exec`: A statement leaves an instance at rest alone.
* `final_history_grows`: A value that adds a row to the history of a final instance.
* `final_states_rest`: Final states are quiescent, and absorbing unless they are
  exceptions.
-/

namespace WedFlow

open Workflow (Inst Action Step)

/-- The row, the status, the history and the open jobs of an instance are the
    same. -/
structure SameAt (wid : Int) (db db' : Db) : Prop extends SameRows wid db db' where
  jobs : db'.jobPool.filter (OpenFor wid) = db.jobPool.filter (OpenFor wid)

theorem SameAt.refl (wid : Int) (db : Db) : SameAt wid db db :=
  ⟨⟨⟨rfl, rfl⟩, rfl⟩, rfl⟩

theorem SameAt.trans {wid : Int} {db₁ db₂ db₃ : Db} (h : SameAt wid db₁ db₂)
    (h' : SameAt wid db₂ db₃) : SameAt wid db₁ db₃ :=
  ⟨⟨⟨h'.flow.trans h.flow, h'.status.trans h.status⟩, h'.trace.trans h.trace⟩,
    h'.jobs.trans h.jobs⟩

/-- No open job of an instance in a final state. -/
theorem Inv.openFor_nil {db : Db} (hi : Inv db) {s : StatusRow} (hs : s ∈ db.stStatus)
    (hf : s.final = true) : db.jobPool.filter (OpenFor s.wid) = [] := by
  rw [List.filter_eq_nil_iff]
  intro j hj ho
  rcases (openFor_iff _ _).mp ho with ⟨hw, ht⟩
  exact hi.quiet s hs hf j.tgid ((mem_openKeys _ _ _).mpr ⟨j, hj, ht, hw, rfl⟩)

/-- No write is one of an instance that has ended. -/
theorem not_step_of_ended (loc : Locale) (db : Db) (hi : Inv db) (wid : Int)
    (hend : (⟨wid, true, false⟩ : StatusRow) ∈ db.stStatus) (a : Action State Int)
    (k : Inst State Int) : ¬ Step (policy loc db) (inst db wid) a k := by
  have hin : wid ∈ db.wedFlow.map (·.wid) := by
    rw [← hi.status]
    exact List.mem_map.mpr ⟨_, hend, rfl⟩
  rcases List.mem_map.mp hin with ⟨r, hr, rfl⟩
  rw [inst_of_mem hi hr hend rfl]
  refine Workflow.not_step_of_final rfl (fun _ g => ?_)
  rw [runs_eq_none_iff]
  exact hi.quiet _ hend rfl g

/-- A statement leaves an instance at rest alone. -/
theorem sameAt_exec (loc : Locale) (i : Input) (db db' : Db) (r : Reply) (hi : Inv db)
    (hexec : exec loc i db = .ok (db', r)) (hop : ¬ i.op.Restyles)
    (hc : Conform loc.printable (fun v => ¬ Escapes v) db') (wid : Int)
    (hend : (⟨wid, true, false⟩ : StatusRow) ∈ db.stStatus) : SameAt wid db db' := by
  have hi' := inv_exec loc i db db' r hi hexec
  have hrows : SameRows wid db db' := by
    rcases rows_of_change loc i.env i.op r db db' hi (exec_change loc i db db' r hi hexec) hop with
      hs | ⟨w, a, k, hw, hone, -⟩
    · exact hs.rows wid
    · refine hw.same_others hi' hc (fun he => ?_)
      rw [he] at hend
      exact not_step_of_ended loc db hi _ hend a k hone.step
  refine ⟨hrows, ?_⟩
  exact (hi'.openFor_nil ((hrows.mem_status rfl).mpr hend) rfl).trans (hi.openFor_nil hend rfl).symm

theorem sameAt_after (loc : Locale) (db : Db) (hi : Inv db)
    (hc : Conform loc.printable (fun v => ¬ Escapes v) db) (js : List Input)
    (htext : ∀ i ∈ js, i.op.HeldText loc.printable) (hop : ∀ i ∈ js, ¬ i.op.Restyles) (wid : Int)
    (hend : (⟨wid, true, false⟩ : StatusRow) ∈ db.stStatus) :
    SameAt wid db (Machine.after (step loc) db js) := by
  refine (Machine.after_invariant (step loc)
    (fun i => i.op.HeldText loc.printable ∧ ¬ i.op.Restyles)
    (fun db' => Inv db' ∧ Conform loc.printable (fun v => ¬ Escapes v) db' ∧ SameAt wid db db') ?_ db
    ⟨hi, hc, .refl wid db⟩ js (fun i hi => ⟨htext i hi, hop i hi⟩)).2.2
  intro db' i ho h
  refine ⟨inv_step loc i db' h.1, ?_⟩
  refine step_cases loc db' i (fun d => Conform loc.printable (fun v => ¬ Escapes v) d ∧
    SameAt wid db d) h.2 (fun db'' r hex => ?_)
  have hc' := conform_exec loc i db' db'' r h.1 hex ho.1 h.2.1
  refine ⟨hc', h.2.2.trans ?_⟩
  exact sameAt_exec loc i db' db'' r h.1 hex ho.2 hc' wid
    ((h.2.2.toSameRows.mem_status rfl).mpr hend)

/-- After every run an instance in a final state has no open job. If it is in no
    exception, and no value of the run or of a continuation has both kinds of quotes in
    it, its row, its status, its history and its open jobs, of which there are none, are
    the same after the continuation. -/
theorem final_states_rest (loc : Locale) (is : List Input) :
    (∀ s ∈ (run loc is).stStatus, s.final = true →
      ∀ j ∈ (run loc is).jobPool, j.wid = s.wid → j.tf ≠ none) ∧
    (∀ js : List Input, (∀ i ∈ is ++ js, i.op.HeldText loc.printable) →
      (∀ i ∈ js, ¬ i.op.Restyles) → ∀ s ∈ (run loc is).stStatus,
      s.final = true → s.excpt = false →
      SameAt s.wid (run loc is) (run loc (is ++ js)) ∧
        (run loc (is ++ js)).jobPool.filter (OpenFor s.wid) = []) := by
  have hi := run_inv loc is
  constructor
  · intro s hs hf j hj hjw ht
    exact hi.quiet s hs hf j.tgid ((mem_openKeys _ _ _).mpr ⟨j, hj, ht, hjw, rfl⟩)
  · intro js htext hop s hs hf hx
    rcases s with ⟨wid, f, e⟩
    dsimp only at hf hx
    subst hf hx
    rcases List.forall_mem_append.mp htext with ⟨hpast, hnext⟩
    have hsame := sameAt_after loc _ hi (run_conform loc is hpast) js hnext hop wid hs
    rw [← run_append] at hsame
    refine ⟨hsame, ?_⟩
    rw [hsame.jobs]
    exact hi.openFor_nil hs rfl

/-- An instance of the small flow that starts in the final state, while another
    one is created and somebody asks for its recovery. -/
theorem final_states_rest_tiny :
    let is := tiny ++ [⟨clock 1, .insertFlow 7 none [("st", some "done")]⟩]
    let js : List Input := [⟨clock 2, .insertFlow 8 none []⟩,
      ⟨clock 3, .updateFlow 7 none (some (some "exception")) [("st", some "ready")]⟩]
    (⟨7, true, false⟩ : StatusRow) ∈ (run asciiLocale is).stStatus ∧
      SameAt 7 (run asciiLocale is) (run asciiLocale (is ++ js)) := by
  intro is js
  have hend : (⟨7, true, false⟩ : StatusRow) ∈ (run asciiLocale is).stStatus := by decide +kernel
  have hop : ∀ i ∈ js, ¬ i.op.Restyles := by
    intro i hi
    rcases List.mem_cons.mp hi with rfl | hi
    · exact id
    rcases List.mem_singleton.mp hi with rfl
    exact id
  exact ⟨hend, ((final_states_rest asciiLocale is).2 js (by decide +kernel) hop _ hend rfl rfl).1⟩

/-- Instance 8 of the small flow is final. Instance 7 completes its first job with a value
    that closes its literal and goes on with a second row. -/
def intruding : List Input × List Input :=
  (tiny ++ [⟨clock 1, .insertFlow 8 none [("st", some "done")]⟩, ⟨clock 2, .insertFlow 7 none []⟩,
      ⟨clock 3, .jobLock (tokenAt 2 0) none⟩],
    [⟨clock 4, .updateFlow 7 none (some (some (tokenAt 2 0)))
      [("st", some "', 1), (8, 0, 1) -- \"")]⟩])

/-- The update goes through, and the history of the final instance has one row more. -/
theorem final_history_grows :
    (⟨8, true, false⟩ : StatusRow) ∈ (run asciiLocale intruding.1).stStatus ∧
      (traceOf (run asciiLocale intruding.1) 8).length = 1 ∧
      traceOf (run asciiLocale (intruding.1 ++ intruding.2)) 8
        = [⟨8, [("st", "done")], none, none, true, false, 1⟩,
            ⟨8, [("st", "0")], some 1, none, false, false, 4⟩] ∧
      ¬ SameAt 8 (run asciiLocale intruding.1) (run asciiLocale (intruding.1 ++ intruding.2)) := by
  have hbefore : (traceOf (run asciiLocale intruding.1) 8).length = 1 := by decide +kernel
  have hafter : traceOf (run asciiLocale (intruding.1 ++ intruding.2)) 8
      = [⟨8, [("st", "done")], none, none, true, false, 1⟩,
          ⟨8, [("st", "0")], some 1, none, false, false, 4⟩] := by decide +kernel
  refine ⟨by decide +kernel, hbefore, hafter, fun h => ?_⟩
  have hlen := congrArg List.length h.trace
  rw [hafter, hbefore] at hlen
  exact absurd hlen (by decide)

end WedFlow
