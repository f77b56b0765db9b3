import WedFlow.Core.System

/-!
# The Kernel, Statement by Statement

`kernel_function` is one call, but it is no single step. Every statement it
executes sees what is committed when that statement starts, so between the
validation of the definitions and the scans that rely on it other transactions
may commit definitions of their own. The tables `wed_cond`, `wed_pred` and
`wed_trig` are not locked meanwhile.

A call is therefore a machine of its own. Its stages are the statements, each of
which carries what the function has in its variables by then, and `Call.advance`
executes one of them. `interleave` mixes these with commits of definitions.

Left to itself the machine does what the function does, which is `ends_kernel`.

## Main definitions

* `Call`: The arguments of a call.
* `Stage`: The statement to be executed next.
* `Call.judge`: What the function decides after the scan of the predicates.
* `Call.advance`: One statement.
* `Move`, `interleave`: One statement, or a commit of another transaction.
* `Ends`: What a call comes to when it is not disturbed.

## Theorems

* `ends_firing`: The loop over the scanned triggers.
* `ends_kernel`: The stages compute `kernelFunction`.
-/

namespace WedFlow

/-- The arguments of a call. -/
structure Call where
  env : Env
  event : Event
  new : FlowRow

/-- The statement a call executes next. From the token lookup on it has the
    trigger whose job is completed, then the triggers that still run, the
    conditions that matched, the triggers left to fire and those fired. -/
inductive Stage where
  | finalCond
  | cond
  | trig
  | status
  | token (uptkn : String) (excpt : Bool)
  | running (tgid : Option Int)
  | matching (tgid : Option Int) (rtrg : List Int)
  | scanning (tgid : Option Int) (rtrg condSet : List Int)
  | firing (tgid : Option Int) (rtrg : List Int) (rows : List TrigRow) (n : Nat) (fired : List Int)
  | recording (tgid : Option Int) (rtrg : List Int) (final excpt : Bool) (fired : List Int)
  | marking (rtrg : List Int) (final excpt : Bool) (fired : List Int)
  | accepted (rtrg : List Int) (final excpt : Bool) (fired : List Int)
  | refused (e : Error)
deriving DecidableEq, Repr

/-- Firing starts with a scan of `wed_trig`, unless there is nothing to scan
    for. -/
def Stage.squeeze (tgid : Option Int) (rtrg condSet : List Int) : Stage :=
  if condSet = [] then .recording tgid rtrg false false [] else .scanning tgid rtrg condSet

/-- What follows from the conditions that matched. -/
def Call.judge (c : Call) (tgid : Option Int) (rtrg condSet : List Int) (final : Bool) : Stage :=
  match c.event with
  | .insert =>
    if condSet = [] ∧ ¬ final then .refused .noPredicateMatches
    else if ¬ final then .squeeze tgid rtrg condSet
    else .recording tgid rtrg true false []
  | .update =>
    if rtrg = [] ∧ condSet = [] then .recording tgid rtrg true true []
    else if final then
      if rtrg ≠ [] then .refused .pendingTransitions else .recording tgid rtrg true false []
    else .squeeze tgid rtrg condSet

/-- The status of the instance is written. -/
def Call.mark (c : Call) (final excpt : Bool) (db : Db) : Except Error Db :=
  match c.event with
  | .insert => do
    let db ← newStStatusEntry c.new.wid db
    return if final then setStStatus c.new.wid true false db else db
  | .update => .ok (setStStatus c.new.wid final excpt db)

/-- One statement of the call. -/
def Call.advance (loc : Locale) (c : Call) (s : Stage × Db) : Stage × Db :=
  let db := s.2
  match s.1 with
  | .finalCond =>
    (if wedFinalCondValidation db then .cond else .refused .noFinalCondition, db)
  | .cond => (if wedCondValidation db then .trig else .refused .conditionWithoutPredicate, db)
  | .trig =>
    if wedTrigValidation db then
      match c.event with
      | .insert => (.matching none [], db)
      | .update => (.status, db)
    else (.refused .conditionWithoutTransition, db)
  | .status =>
    match getStStatus c.new.wid db with
    | .error e => (.refused e, db)
    | .ok (final, excpt) =>
      if final ∧ ¬ excpt then (.refused .finalState, db)
      else
        match c.new.varUptkn with
        | none => (.refused .tokenNeeded, db)
        | some uptkn =>
          if uptkn = "" then (.refused .tokenNeeded, db) else (.token uptkn excpt, db)
  | .token uptkn excpt =>
    match lookupToken loc c.env uptkn c.new.wid excpt db with
    | .error e => (.refused e, db)
    | .ok (db', tgid) => (.running tgid, db')
  | .running tgid => (.matching tgid (runningTriggers c.new.wid db), db)
  | .matching tgid rtrg =>
    match predMatch loc c.new.attrs db with
    | .error e => (.refused e, db)
    | .ok (condSet, final) => (c.judge tgid rtrg condSet final, db)
  | .scanning tgid rtrg condSet =>
    (.firing tgid rtrg (db.wedTrig.filter fun t => t.cid ∈ condSet) 0 [], db)
  | .firing tgid rtrg [] _ fired => (.recording tgid rtrg false false fired, db)
  | .firing tgid rtrg (r :: rs) n fired =>
    if r.tgid ∈ rtrg then (.firing tgid rtrg rs n fired, db)
    else
      let uptkn := newUptkn c.env n r.tgname
      match insertJob loc r.tgid c.new.wid uptkn r.tout db with
      | .error e => (.refused e, db)
      | .ok db' =>
        (.firing tgid rtrg rs (n + 1) (fired ++ [r.tgid]), notifyJob r.tgid c.new.wid uptkn db')
  | .recording tgid rtrg final excpt fired =>
    match newTraceEntry loc c.env (entryOf c.new tgid final excpt fired) db with
    | .error e => (.refused e, db)
    | .ok db' => (.marking rtrg final excpt fired, db')
  | .marking rtrg final excpt fired =>
    match c.mark final excpt db with
    | .error e => (.refused e, db)
    | .ok db' => (.accepted rtrg final excpt fired, db')
  | .accepted rtrg final excpt fired => (.accepted rtrg final excpt fired, db)
  | .refused e => (.refused e, db)

/-- The call executes its next statement, or another transaction commits a
    statement on the definitions. -/
inductive Move where
  | statement
  | commit (i : Input) (h : i.op.Defines)

def interleave (loc : Locale) (c : Call) (s : Stage × Db) : Move → Stage × Db
  | .statement => Call.advance loc c s
  | .commit i _ => (s.1, step loc s.2 i)

/-! ## A call that is not disturbed -/

/-- The result of a call that has come to an end. -/
def Stage.result : Stage × Db → Option (Except Error Db)
  | (.accepted _ _ _ _, db) => some (.ok db)
  | (.refused e, _) => some (.error e)
  | _ => none

/-- Some number of statements brings the call to an end with the result. -/
def Ends (loc : Locale) (c : Call) (s : Stage × Db) (res : Except Error Db) : Prop :=
  ∃ n, Stage.result ((Call.advance loc c)^[n] s) = some res

theorem Ends.step {loc : Locale} {c : Call} {s t : Stage × Db} {res : Except Error Db}
    (hs : Call.advance loc c s = t) (h : Ends loc c t res) : Ends loc c s res := by
  rcases h with ⟨n, hn⟩
  refine ⟨n + 1, ?_⟩
  rw [Function.iterate_succ_apply, hs]
  exact hn

theorem Ends.refused (loc : Locale) (c : Call) (e : Error) (db : Db) :
    Ends loc c (.refused e, db) (.error e) :=
  ⟨0, rfl⟩

/-- The entry of the history and the status end the call. -/
theorem ends_recording (loc : Locale) (c : Call) (tgid : Option Int) (rtrg : List Int)
    (final excpt : Bool) (fired : List Int) (db : Db) :
    Ends loc c (.recording tgid rtrg final excpt fired, db)
      (newTraceEntry loc c.env (entryOf c.new tgid final excpt fired) db >>= c.mark final excpt) := by
  cases hentry : newTraceEntry loc c.env (entryOf c.new tgid final excpt fired) db with
  | error e =>
      refine .step (t := (.refused e, db)) ?_ (.refused loc c e db)
      simp only [Call.advance, hentry]
  | ok db₁ =>
      refine .step (t := (.marking rtrg final excpt fired, db₁))
        (by simp only [Call.advance, hentry]) ?_
      change Ends loc c _ (c.mark final excpt db₁)
      cases hmark : c.mark final excpt db₁ with
      | error e =>
          refine .step (t := (.refused e, db₁)) ?_ (.refused loc c e db₁)
          simp only [Call.advance, hmark]
      | ok db₂ =>
          refine .step (t := (.accepted rtrg final excpt fired, db₂)) ?_ ⟨0, rfl⟩
          simp only [Call.advance, hmark]

/-- The loop over the scanned triggers, by induction on those that are left. -/
theorem ends_firing (loc : Locale) (c : Call) (tgid : Option Int) (rtrg : List Int)
    (rows : List TrigRow) (n : Nat) (fired : List Int) (db : Db) :
    Ends loc c (.firing tgid rtrg rows n fired, db)
      (fireRows loc c.env c.new.wid rtrg rows n db fired >>= fun r =>
        newTraceEntry loc c.env (entryOf c.new tgid false false r.2) r.1 >>= c.mark false false) := by
  induction rows generalizing n fired db with
  | nil => exact .step rfl (ends_recording loc c tgid rtrg false false fired db)
  | cons r rs ih =>
      by_cases hr : r.tgid ∈ rtrg
      · rw [fireRows, if_pos hr]
        refine .step ?_ (ih n fired db)
        simp only [Call.advance, if_pos hr]
      · rw [fireRows, if_neg hr]
        dsimp only
        cases hjob : insertJob loc r.tgid c.new.wid (newUptkn c.env n r.tgname) r.tout db with
        | error e =>
            refine .step (t := (.refused e, db)) ?_ (.refused loc c e db)
            simp only [Call.advance, if_neg hr, hjob]
        | ok db₁ =>
            refine .step ?_ (ih (n + 1) (fired ++ [r.tgid]) _)
            simp only [Call.advance, if_neg hr, hjob]

theorem ends_squeeze (loc : Locale) (c : Call) (tgid : Option Int) (rtrg condSet : List Int)
    (db : Db) :
    Ends loc c (.squeeze tgid rtrg condSet, db)
      (squeezeTheTrigger loc c.env c.new.wid condSet rtrg db >>= fun r =>
        newTraceEntry loc c.env (entryOf c.new tgid false false r.2) r.1 >>= c.mark false false) := by
  unfold Stage.squeeze squeezeTheTrigger
  split
  · exact ends_recording loc c tgid rtrg false false [] db
  · exact .step rfl (ends_firing loc c tgid rtrg _ 0 [] db)

/-- The status of a new instance that is not final is written by one
    statement. -/
theorem mark_insert (env : Env) (new : FlowRow) (excpt : Bool) :
    Call.mark ⟨env, .insert, new⟩ false excpt = newStStatusEntry new.wid := by
  funext db
  exact bind_pure (newStStatusEntry new.wid db)

/-- An insert, from the scan of the predicates on. -/
theorem ends_insert (loc : Locale) (env : Env) (new : FlowRow) (db : Db) :
    Ends loc ⟨env, .insert, new⟩ (.matching none [], db) (kernelInsert loc env new db) := by
  unfold kernelInsert
  cases hmatch : predMatch loc new.attrs db with
  | error e =>
      refine .step (t := (.refused e, db)) ?_ (.refused loc _ e db)
      simp only [Call.advance, hmatch]
  | ok m =>
      rcases m with ⟨condSet, final⟩
      refine .step (t := (Call.judge ⟨env, .insert, new⟩ none [] condSet final, db))
        (by simp only [Call.advance, hmatch]) ?_
      dsimp only [Call.judge, bind, Except.bind]
      split
      · exact .refused loc _ _ db
      · split
        · have hfire := ends_squeeze loc ⟨env, .insert, new⟩ none [] condSet db
          rw [mark_insert] at hfire
          exact hfire
        · exact ends_recording loc ⟨env, .insert, new⟩ none [] true false [] db

/-- An update, once its token has been found. -/
theorem ends_settle (loc : Locale) (env : Env) (new : FlowRow) (tgid : Option Int) (db : Db) :
    Ends loc ⟨env, .update, new⟩ (.running tgid, db) (settle loc env new tgid db) := by
  refine .step (t := (.matching tgid (runningTriggers new.wid db), db)) rfl ?_
  unfold settle
  cases hmatch : predMatch loc new.attrs db with
  | error e =>
      refine .step (t := (.refused e, db)) ?_ (.refused loc _ e db)
      simp only [Call.advance, hmatch]
  | ok m =>
      rcases m with ⟨condSet, final⟩
      refine .step (t := (Call.judge ⟨env, .update, new⟩ tgid (runningTriggers new.wid db) condSet
        final, db)) (by simp only [Call.advance, hmatch]) ?_
      dsimp only [Call.judge, bind, Except.bind]
      split
      · exact ends_recording loc ⟨env, .update, new⟩ tgid _ true true [] db
      · split
        · split
          · exact .refused loc _ _ db
          · exact ends_recording loc ⟨env, .update, new⟩ tgid _ true false [] db
        · exact ends_squeeze loc ⟨env, .update, new⟩ tgid _ condSet db

theorem ends_update (loc : Locale) (env : Env) (new : FlowRow) (db : Db) :
    Ends loc ⟨env, .update, new⟩ (.status, db) (kernelUpdate loc env new db) := by
  unfold kernelUpdate
  cases hst : getStStatus new.wid db with
  | error e =>
      refine .step (t := (.refused e, db)) ?_ (.refused loc _ e db)
      simp only [Call.advance, hst]
  | ok st =>
      rcases st with ⟨final, excpt⟩
      dsimp only [bind, Except.bind]
      -- The refusals come in the order of the source: status, then token.
      by_cases hfin : final = true ∧ ¬ excpt = true
      · rw [if_pos hfin]
        refine .step (t := (.refused .finalState, db)) ?_ (.refused loc _ _ db)
        simp only [Call.advance, hst, if_pos hfin]
      · rw [if_neg hfin]
        cases htok : new.varUptkn with
        | none =>
            refine .step (t := (.refused .tokenNeeded, db)) ?_ (.refused loc _ _ db)
            simp only [Call.advance, hst, if_neg hfin, htok]
        | some uptkn =>
            by_cases hempty : uptkn = ""
            · dsimp only
              rw [if_pos hempty]
              refine .step (t := (.refused .tokenNeeded, db)) ?_ (.refused loc _ _ db)
              simp only [Call.advance, hst, if_neg hfin, htok, if_pos hempty]
            · dsimp only
              rw [if_neg hempty]
              refine .step (t := (.token uptkn excpt, db)) ?_ ?_
              · simp only [Call.advance, hst, if_neg hfin, htok, if_neg hempty]
              · cases hlook : lookupToken loc env uptkn new.wid excpt db with
                | error e =>
                    refine .step (t := (.refused e, db)) ?_ (.refused loc _ e db)
                    simp only [Call.advance, hlook]
                | ok out =>
                    refine .step (t := (.running out.2, out.1)) ?_
                      (ends_settle loc env new out.2 out.1)
                    simp only [Call.advance, hlook]

/-- Statement by statement, a call that is not disturbed does what the kernel
    does. -/
theorem ends_kernel (loc : Locale) (c : Call) (db : Db) :
    Ends loc c (.finalCond, db) (kernelFunction loc c.env c.event c.new db) := by
  rcases c with ⟨env, event, new⟩
  unfold kernelFunction
  by_cases hfinal : wedFinalCondValidation db = true
  · refine .step (t := (.cond, db)) (by simp only [Call.advance, if_pos hfinal]) ?_
    by_cases hcond : wedCondValidation db = true
    · refine .step (t := (.trig, db)) (by simp only [Call.advance, if_pos hcond]) ?_
      by_cases htrig : wedTrigValidation db = true
      · rw [hfinal, hcond, htrig]
        cases event with
        | insert =>
            refine .step (t := (.matching none [], db)) ?_ (ends_insert loc env new db)
            simp only [Call.advance, if_pos htrig]
        | update =>
            refine .step (t := (.status, db)) ?_ (ends_update loc env new db)
            simp only [Call.advance, if_pos htrig]
      · rw [hfinal, hcond, Bool.eq_false_iff.mpr htrig]
        refine .step ?_ (.refused loc _ .conditionWithoutTransition db)
        simp only [Call.advance, if_neg htrig]
    · rw [hfinal, Bool.eq_false_iff.mpr hcond]
      refine .step ?_ (.refused loc _ .conditionWithoutPredicate db)
      simp only [Call.advance, if_neg hcond]
  · rw [Bool.eq_false_iff.mpr hfinal]
    refine .step ?_ (.refused loc _ .noFinalCondition db)
    simp only [Call.advance, if_neg hfinal]

end WedFlow
