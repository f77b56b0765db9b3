import WedFlow.Theory.Trace

/-!
# What the History Tells

The rows of `wed_trace` are never read by the engine, and no constraint ties
them to the other tables. Still they can be read as the books of an instance, as long
as a row says what the engine meant: the attributes are lower-case identifiers, and no
value has both kinds of quotes in it.

Without `job_abort` they account for what runs: the triggers that were fired
once more often than they wrote are the ones with an open job, and there is
never a difference of more than one. An abort ends a run that no row will ever
mention, and after one the rows only give a bound.

With or without aborts the rows come in a certain order. A row was written by
no trigger exactly if it is the first or comes after an exception, nothing comes
after a final state, an exception fires nothing, and no trigger has written more
often than it was fired before.

A value that closes its own literal can put anything into the columns after it, and an
attribute whose name is folded to that of a fixed column fills the column. Either way
the rows say something else, `trace_misleads` and `history_ill_formed`.

## Main definitions

* `firedCount`, `wroteCount`: How many rows name a trigger.
* `pasting`, `shadowing`: Runs in which a value or a name gets into other columns.

## Theorems

* `length_openAt`: One open job or none, by whether the trigger runs.
* `trace_determines_running`: Fired less written is running.
* `trace_misleads`, `history_ill_formed`: What a value or a name can do to the rows.
* `forall_trace`: What holds of the row of every write holds of every row.
* `histories_well_formed`: The order of the rows.
-/

namespace WedFlow

open Workflow (Mode Phase Inst Action Record Keeps Balanced Ordered WellFormed Follows busy busyAt
  launches completions)

/-- How many rows say that a trigger was fired. -/
def firedCount (rows : List TraceRow) (g : Int) : Nat :=
  rows.countP fun r => g ∈ r.tgidFired.getD []

/-- How many rows were written by a trigger. -/
def wroteCount (rows : List TraceRow) (g : Int) : Nat :=
  rows.countP fun r => r.tgidWrote = some g

theorem launches_rows (rows : List TraceRow) (g : Int) :
    launches (rows.map recordOf) g = firedCount rows g := by
  unfold launches firedCount
  rw [List.countP_map]
  refine List.countP_congr (fun r _ => ?_)
  simp only [Function.comp, decide_eq_true_eq]
  exact Iff.rfl

theorem completions_rows (rows : List TraceRow) (g : Int) :
    completions (rows.map recordOf) g = wroteCount rows g := by
  unfold completions wroteCount
  rw [List.countP_map]
  rfl

/-! ## Open jobs -/

theorem busyAt_inst {db : Db} (hi : Inv db) (wid g : Int) :
    busyAt (inst db wid) g = busy (runs db.jobPool wid) g := by
  cases h : inst db wid with
  | none =>
      rw [runs_free hi ((inst_eq_none_iff hi wid).mp h)]
      rfl
  | some i =>
      rw [← inst_running h]
      rfl

/-- A trigger has one open job if it runs, and none otherwise. -/
theorem length_openAt {db : Db} (hi : Inv db) (wid g : Int) :
    (db.jobPool.filter (OpenAt wid g)).length = busyAt (inst db wid) g := by
  rw [busyAt_inst hi]
  by_cases hr : runs db.jobPool wid g = none
  · rw [Workflow.busy_of_idle hr, List.length_eq_zero_iff, List.filter_eq_nil_iff]
    intro j hj ho
    rcases (openAt_iff _ _ _).mp ho with ⟨hw, ht, hg⟩
    exact (runs_eq_none_iff _ _ _).mp hr ((mem_openKeys _ _ _).mpr ⟨j, hj, ht, hw, hg⟩)
  · rw [Workflow.busy_of_running hr]
    rw [runs_eq_none_iff, not_not, mem_openKeys] at hr
    rcases hr with ⟨j, hj, ht, rfl, rfl⟩
    -- Open jobs are unique by instance and trigger.
    have hu : Table.Unique (fun j : JobRow => (j.wid, j.tgid))
        (db.jobPool.filter fun j => j.tf = none) := hi.pool.single
    have hone := hu.filter_eq_singleton (List.mem_filter.mpr ⟨hj, decide_eq_true ht⟩)
    rw [List.filter_filter] at hone
    have hsame : db.jobPool.filter (OpenAt j.wid j.tgid) = [j] := by
      rw [← hone]
      refine List.filter_congr (fun i _ => ?_)
      rw [Bool.eq_iff_iff, openAt_iff]
      simp only [Bool.and_eq_true, decide_eq_true_eq, Prod.mk.injEq]
      constructor
      · intro h
        exact ⟨⟨h.1, h.2.2⟩, h.2.1⟩
      · intro h
        exact ⟨h.1.1, h.2, h.1.2⟩
    rw [hsame]
    rfl

/-- Without aborts, what was fired and has not written is what has an open job,
    now and at every earlier time. -/
theorem trace_determines_running (loc : Locale) (is : List Input)
    (htext : ∀ i ∈ is, i.op.HeldText loc.printable)
    (hnum : ∀ i ∈ is, i.op.Numbered) (hno : ∀ i ∈ is, ∀ u, i.op ≠ .jobAbort u) (wid g : Int) :
    (firedCount (traceOf (run loc is) wid) g : Int) - wroteCount (traceOf (run loc is) wid) g
        = ((run loc is).jobPool.filter (OpenAt wid g)).length ∧
      ((run loc is).jobPool.filter (OpenAt wid g)).length ≤ 1 ∧
      ∀ p, p <+: traceOf (run loc is) wid →
        (firedCount p g : Int) - wroteCount p g = 0 ∨ (firedCount p g : Int) - wroteCount p g = 1 := by
  have hempty : Balanced (none : Option (Inst State Int)) [] := by
    refine ⟨fun i hi => absurd hi (Option.some_ne_none i).symm, fun t => rfl, fun p hp t => ?_⟩
    rw [List.prefix_nil.mp hp]
    exact ⟨Nat.le_refl _, Nat.zero_le _⟩
  have hbal : Balanced (inst (run loc is) wid) (books (run loc is) wid) := by
    refine run_books loc _ Balanced Workflow.balanced_keeps hempty is htext hnum ?_ wid
    -- Aborts are asked for by `job_abort` only.
    intro i hi db p hp t ht
    rcases p with ⟨w, a⟩
    dsimp only at ht
    subst ht
    rcases mem_actions loc i db _ hp with ⟨u, j, hu, -⟩
    exact hno i hi u hu
  rw [length_openAt (run_inv loc is)]
  have hsum := hbal.2.1 g
  unfold books at hsum
  rw [launches_rows, completions_rows] at hsum
  refine ⟨?_, Workflow.busyAt_le_one _ _, fun p hp => ?_⟩
  · omega
  · have hpre := hbal.2.2 (p.map recordOf) (hp.map recordOf) g
    rw [launches_rows, completions_rows] at hpre
    omega

/-- In the small flow the left trigger has completed, and the right one, fired
    once and not yet written, is the one with an open job. -/
theorem trace_determines_running_tiny :
    let db := run asciiLocale (tiny ++ [⟨clock 1, .insertFlow 7 none []⟩,
      ⟨clock 2, .jobLock (tokenAt 1 0) none⟩,
      ⟨clock 3, .updateFlow 7 none (some (some (tokenAt 1 0))) [("st", some "half")]⟩])
    (firedCount (traceOf db 7) 2 : Int) - wroteCount (traceOf db 7) 2
        = (db.jobPool.filter (OpenAt 7 2)).length ∧
      (db.jobPool.filter (OpenAt 7 2)).length = 1 ∧ (traceOf db 7).length = 2 := by
  intro db
  have hno : ∀ i ∈ tiny ++ [⟨clock 1, .insertFlow 7 none []⟩,
      ⟨clock 2, .jobLock (tokenAt 1 0) none⟩,
      ⟨clock 3, .updateFlow 7 none (some (some (tokenAt 1 0))) [("st", some "half")]⟩],
      i.op.isAbort = false := by decide +kernel
  refine ⟨(trace_determines_running asciiLocale _ (by decide +kernel) (by decide +kernel)
    (fun i hi => Op.ne_jobAbort (hno i hi)) 7 2).1, ?_, ?_⟩
  · decide +kernel
  · decide +kernel

/-- The first job of an instance of the small flow is completed with a value. -/
def pasting (v : String) : List Input :=
  tiny ++ [⟨clock 1, .insertFlow 7 none []⟩, ⟨clock 2, .jobLock (tokenAt 1 0) none⟩,
    ⟨clock 3, .updateFlow 7 none (some (some (tokenAt 1 0))) [("st", some v)]⟩]

/-- The small flow gets another attribute before the instance is there. -/
def shadowing (new : AttrRow) : List Input :=
  tiny ++ [⟨clock 1, .insertAttr new⟩, ⟨clock 2, .insertFlow 7 none []⟩,
    ⟨clock 3, .jobLock (tokenAt 2 0) none⟩,
    ⟨clock 4, .updateFlow 7 none (some (some (tokenAt 2 0))) [("st", some "half")]⟩]

/-- The left trigger completes with a value that says it was the right one: the books have
    the left one running, which has no open job, and not the right one, which has. An
    attribute that is folded to `tgid_wrote` has the right one write the first row. -/
theorem trace_misleads :
    let db := run asciiLocale (pasting "', 2) -- \"")
    let db' := run asciiLocale (shadowing ⟨"Tgid_wrote", "2"⟩)
    ((traceOf db 7).map (·.tgidWrote) = [none, some 2] ∧
      [1, 2].map (firedCount (traceOf db 7)) = [1, 1] ∧
      [1, 2].map (wroteCount (traceOf db 7)) = [0, 1] ∧
      [1, 2].map (fun g => (db.jobPool.filter (OpenAt 7 g)).length) = [0, 1]) ∧
    ((traceOf db' 7).map (·.tgidWrote) = [some 2] ∧ firedCount (traceOf db' 7) 2 = 1 ∧
      (db'.jobPool.filter (OpenAt 7 2)).length = 1) := by
  decide +kernel

/-! ## The order of the rows -/

/-- What holds of the row of every write, whatever its attributes, holds of
    every row. -/
theorem forall_trace (loc : Locale) (P : TraceRow → Prop)
    (hattrs : ∀ r attrs, P r → P { r with attrs := attrs })
    (hw : ∀ start attrs (w : Write), P (w.entry.row start attrs))
    (is : List Input) (htext : ∀ i ∈ is, i.op.HeldText loc.printable) :
    ∀ r ∈ (run loc is).wedTrace, P r := by
  refine (run_invariant loc (fun i => i.op.HeldText loc.printable)
    (fun db => Inv db ∧ Conform loc.printable (fun v => ¬ Escapes v) db ∧ ∀ r ∈ db.wedTrace, P r)
    ⟨inv_empty, conform_empty, fun r hr => absurd hr List.not_mem_nil⟩ ?_ is htext).2.2
  intro db i db' rep ht h hexec
  have hi' := inv_exec loc i db db' rep h.1 hexec
  have hc' := conform_exec loc i db db' rep h.1 hexec ht h.2.1
  refine ⟨hi', hc', fun r hr => ?_⟩
  by_cases hop : i.op.Restyles
  · rcases (restyled_of_exec loc i.env i.op db db' rep hop hexec).same with ⟨f, he⟩
    rw [he] at hr
    rcases List.mem_map.mp hr with ⟨r₀, hr₀, rfl⟩
    exact hattrs r₀ _ (h.2.2 r₀ hr₀)
  · rcases rows_of_change loc i.env i.op rep db db' h.1 (exec_change loc i db db' rep h.1 hexec) hop
      with hs | ⟨w, a, k, hwr, -, -⟩
    · have hmem : r ∈ traceOf db' r.wid := List.mem_filter.mpr ⟨hr, decide_eq_true rfl⟩
      rw [(hs.rows r.wid).trace] at hmem
      exact h.2.2 r (List.mem_filter.mp hmem).1
    -- The row is an old one or the one that was appended.
    · rw [hwr.trace, hwr.recorded hi' hc'] at hr
      rcases List.mem_append.mp hr with hm | hm
      · exact h.2.2 r hm
      · rw [List.mem_singleton.mp hm]
        exact hw _ _ w

/-- The flags and the fired triggers of a row as `new_trace_entry` sets them: an
    exception is final, and an empty set of triggers is not written. -/
theorem trace_flags (loc : Locale) (is : List Input)
    (htext : ∀ i ∈ is, i.op.HeldText loc.printable) :
    ∀ r ∈ (run loc is).wedTrace,
      (r.excpt = true → r.final = true) ∧ (r.tgidFired.getD [] = [] → r.tgidFired = none) := by
  refine forall_trace loc _ (fun r attrs h => h) (fun start attrs w => ⟨?_, ?_⟩) is htext
  · exact finalFlag_of_excptFlag w.mode
  · intro h
    change (if w.fired.map (·.tgid) = [] then none else some (w.fired.map (·.tgid))) = none
    change (if w.fired.map (·.tgid) = [] then none else some (w.fired.map (·.tgid))).getD [] = [] at h
    by_cases hn : w.fired.map (·.tgid) = []
    · exact if_pos hn
    · rw [if_neg hn] at h
      exact absurd h hn

theorem ordered_empty : Ordered (none : Option (Inst State Int)) [] := by
  refine ⟨fun i hi => absurd hi (Option.some_ne_none i).symm, ⟨fun _ => rfl, fun _ => rfl⟩,
    fun i hi => absurd hi (Option.some_ne_none i).symm, fun t => Nat.le_refl _, ?_⟩
  intro p r q h
  exact absurd h (by simp only [List.nil_eq, List.append_eq_nil_iff, reduceCtorEq, and_false,
    not_false_eq_true])

/-- The rows of an instance come in the order in which an instance lives: a row
    was written by no trigger exactly if it is the first or follows an exception;
    a final state that is no exception comes last; an exception is final, fires
    nothing, and is not the first; and a trigger has not written more often than
    it was fired before. -/
theorem histories_well_formed (loc : Locale) (is : List Input)
    (htext : ∀ i ∈ is, i.op.HeldText loc.printable)
    (hnum : ∀ i ∈ is, i.op.Numbered) (wid : Int) (p : List TraceRow) (r : TraceRow)
    (q : List TraceRow) (h : traceOf (run loc is) wid = p ++ r :: q) :
    (r.tgidWrote = none ↔ p = [] ∨ ∃ l, p.getLast? = some l ∧ l.excpt = true) ∧
      (r.final = true → r.excpt = false → q = []) ∧
      (r.excpt = true → r.final = true ∧ r.tgidFired = none ∧ p ≠ []) ∧
      (∀ g, r.tgidWrote = some g → wroteCount (p ++ [r]) g ≤ firedCount p g) := by
  have hord : Ordered (inst (run loc is) wid) (books (run loc is) wid) :=
    run_books loc _ Ordered Workflow.ordered_keeps ordered_empty is htext hnum
      (fun _ _ _ _ _ => trivial) wid
  have hbooks : books (run loc is) wid = (p ++ r :: q).map recordOf := congrArg _ h
  have hflags : ∀ l ∈ p ++ r :: q, (l.excpt = true → l.final = true) ∧
      (l.tgidFired.getD [] = [] → l.tgidFired = none) := by
    intro l hl
    rw [← h] at hl
    exact trace_flags loc is htext l (List.mem_filter.mp hl).1
  -- Flags and modes say the same, as an exception is stored as final.
  have hmode : ∀ l ∈ p ++ r :: q, (recordOf l).mode = .exception ↔ l.excpt = true :=
    fun l hl => (modeOf_exception_iff _).trans ⟨And.right, fun hx => ⟨(hflags l hl).1 hx, hx⟩⟩
  have hrmem : r ∈ p ++ r :: q := List.mem_append_right _ List.mem_cons_self
  have hf : Follows (p.map recordOf) (recordOf r) := by
    refine hord.wellFormed _ _ (q.map recordOf) ?_
    rw [hbooks, List.map_append, List.map_cons]
  have hlast : Workflow.Excepted (p.map recordOf) ↔ ∃ l, p.getLast? = some l ∧ l.excpt = true := by
    unfold Workflow.Excepted
    rw [List.getLast?_map]
    constructor
    · intro hx
      rcases hx with ⟨l', hl', hm⟩
      rcases Option.map_eq_some_iff.mp hl' with ⟨l, hl, rfl⟩
      have hmem : l ∈ p ++ r :: q := List.mem_append_left _ (List.mem_of_getLast? hl)
      exact ⟨l, hl, (hmode l hmem).mp hm⟩
    · intro hx
      rcases hx with ⟨l, hl, hm⟩
      have hmem : l ∈ p ++ r :: q := List.mem_append_left _ (List.mem_of_getLast? hl)
      exact ⟨recordOf l, Option.map_eq_some_iff.mpr ⟨l, hl, rfl⟩, (hmode l hmem).mpr hm⟩
  refine ⟨?_, ?_, ?_, ?_⟩
  · rw [← hlast, ← List.map_eq_nil_iff (f := recordOf)]
    exact hf.wrote
  · -- A row after this one would follow a record of a final state.
    intro hfin hexc
    cases q with
    | nil => rfl
    | cons r' q =>
        have hf' : Follows ((p ++ [r]).map recordOf) (recordOf r') := by
          refine hord.wellFormed _ _ (q.map recordOf) ?_
          rw [hbooks, ← List.map_cons, ← List.map_append, List.append_assoc, List.singleton_append]
        refine absurd ?_ (hf'.unended (recordOf r) ?_)
        · unfold recordOf
          rw [hfin, hexc]
          rfl
        · rw [List.map_append, List.map_cons, List.map_nil, List.getLast?_concat]
  · intro hexc
    rcases hf.excpt ((hmode r hrmem).mpr hexc) with ⟨hfired, hne⟩
    refine ⟨(hflags r hrmem).1 hexc, (hflags r hrmem).2 ?_, fun hp => hne ?_⟩
    · rw [List.eq_nil_iff_forall_not_mem]
      intro g hg
      have hmem : g ∈ (recordOf r).fired := hg
      rw [hfired] at hmem
      exact hmem
    · rw [hp]
      rfl
  · intro g hg
    have hle := hf.launched g hg
    rw [launches_rows, completions_rows] at hle
    unfold wroteCount at hle ⊢
    rw [List.countP_append, List.countP_singleton, if_pos (decide_eq_true hg)]
    exact hle

/-- A value that leaves the writer out, so that the second row has none. An attribute that
    is folded to `final` makes every row a final one. -/
theorem history_ill_formed :
    (traceOf (run asciiLocale (pasting "', NULL) -- \"")) 7).map (fun t => (t.tgidWrote, t.excpt))
        = [(none, false), (none, false)] ∧
      (traceOf (run asciiLocale (shadowing ⟨"Final", "t"⟩)) 7).map (fun t => (t.final, t.excpt))
        = [(true, false), (true, false)] ∧
      (⟨7, false, false⟩ : StatusRow) ∈ (run asciiLocale (shadowing ⟨"Final", "t"⟩)).stStatus := by
  decide +kernel

/-- An instance of the small flow that completes one trigger, whose other job is
    aborted, and that is then in an exception from which it recovers. -/
def recovery : List Input :=
  tiny ++ [⟨clock 1, .insertFlow 7 none []⟩, ⟨clock 2, .jobLock (tokenAt 1 0) none⟩,
    ⟨clock 3, .jobLock (tokenAt 1 1) none⟩, ⟨clock 4, .jobAbort (tokenAt 1 1)⟩,
    ⟨clock 5, .updateFlow 7 none (some (some (tokenAt 1 0))) [("st", some "odd")]⟩,
    ⟨clock 6, .updateFlow 7 none (some (some "exception")) [("st", some "done")]⟩]

/-- The last row of its history follows an exception, and no trigger wrote it. -/
theorem histories_well_formed_recovery :
    ∃ p r, traceOf (run asciiLocale recovery) 7 = p ++ r :: [] ∧ p.length = 2 ∧
      r.final = true ∧ r.tgidWrote = none ∧ ∃ l, p.getLast? = some l ∧ l.excpt = true := by
  have hrows : traceOf (run asciiLocale recovery) 7
      = [⟨7, [("st", "ready")], none, some [1, 2], false, false, 1⟩,
          ⟨7, [("st", "odd")], some 1, none, true, true, 5⟩]
        ++ ⟨7, [("st", "done")], none, none, true, false, 6⟩ :: [] := by decide +kernel
  have hwf := histories_well_formed asciiLocale recovery (by decide +kernel) (by decide +kernel) 7 _ _ _
    hrows
  refine ⟨_, _, hrows, rfl, rfl, rfl, ?_⟩
  rcases hwf.1.mp rfl with hnil | hlast
  · exact absurd hnil (List.cons_ne_nil _ _)
  · exact hlast

end WedFlow
