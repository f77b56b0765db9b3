import WedFlow.Core.History
import WedFlow.Core.Jobs

/-!
# The Kernel

`kernel_function`, the trigger on `wed_flow` that drives every instance. It
runs after an insert and before an update, and it either writes the new state
into the other tables or raises, in which case the whole statement is undone.

Both events begin with the three validations of the definition tables, which
are read afresh every time. An insert then matches the predicates against the
new state and fires the triggers of the matched conditions, or records a final
state. An update first has to justify itself with a token: the token of a
locked open job, which the lookup closes, or the word that asks for recovery
from an exception. After that the remaining open jobs of the instance and the
matched conditions decide between an exception, a final state, a refusal, and
firing whatever is matched and not yet running.

Every function here follows the function of the same name inside
`kernel_function`. Sets are lists whose order is of no account. Attributes
named `wid` or `awic` are never looked at by the predicates.

## Main definitions

* `predMatch`: The conditions a state matches, and whether one is final.
* `squeezeTheTrigger`: Fire the triggers of a set of conditions.
* `wedFinalCondValidation`, `wedCondValidation`, `wedTrigValidation`: The
  validations.
* `findJob`: Close a locked open job by its token.
* `runningTriggers`: The triggers with an open job.
* `getStStatus`, `setStStatus`, `newStStatusEntry`: The status of an instance.
* `lookupToken`: What justifies an update.
* `settle`: What an update that is justified leads to.
* `kernelInsert`, `kernelUpdate`: The two events.
* `kernelFunction`: The trigger function.
* `insertFlow`, `updateFlow`: The statements on `wed_flow`.
-/

namespace WedFlow

/-- The attributes the predicates are matched against. -/
def predAttrs (attrs : List (String × String)) : List String :=
  (attrs.map (·.1)).filter fun c => c ∉ ["wid", "awic"]

/-- One predicate row against a state: every attribute the row constrains has
    the value it asks for, up to case. -/
def rowMatches (loc : Locale) (attrs : List (String × String)) (r : PredRow) : Bool :=
  (predAttrs attrs).foldl (fun flag c =>
    match (r.attrs.lookup c).join with
    | some v =>
      if constrains (some v) then
        flag && loc.lower ((attrs.lookup c).getD "") == loc.lower v
      else flag
    | none => flag) true

/-- The predicate rows joined with the flag of their condition. -/
def predScan (db : Db) : List (PredRow × Bool) :=
  db.wedPred.flatMap fun p =>
    (db.wedCond.filter fun c => c.cid = p.cid).map fun c => (p, c.final)

/-- The conditions a state matches, and whether one of them is final. -/
def matchConds (loc : Locale) (db : Db) (attrs : List (String × String)) : List Int × Bool :=
  (predScan db).foldl (fun acc r =>
    if rowMatches loc attrs r.1 then (acc.1.insert r.1.cid, acc.2 || r.2) else acc) ([], false)

/-- The scan of `wed_pred`. All its rows have the same columns, so a missing
    attribute fails at the first one. -/
def predMatch (loc : Locale) (attrs : List (String × String)) (db : Db) :
    Except Error (List Int × Bool) :=
  if (predAttrs attrs).all fun c => c ∈ db.predColumns then .ok (matchConds loc db attrs)
  else .error .unknownColumn

/-- Send the notification of a new job. A negative number is no part of a
    channel name; the failed statement is reported and otherwise ignored. -/
def notifyJob (tgid wid : Int) (uptkn : String) (db : Db) : Db :=
  if 0 ≤ tgid then
    { db with notices := db.notices ++ [⟨"WTRG_" ++ toString tgid,
      "\x7b\"tgid\":" ++ toString tgid ++ ",\"wid\":" ++ toString wid ++ ",\"uptkn\":\"" ++ uptkn ++
        "\"\x7d"⟩] }
  else db

/-- The loop over the scanned triggers: skip those in `ptrg`, create a job for
    each of the others. -/
def fireRows (loc : Locale) (env : Env) (wid : Int) (ptrg : List Int) :
    List TrigRow → Nat → Db → List Int → Except Error (Db × List Int)
  | [], _, db, ftrg => .ok (db, ftrg)
  | r :: rs, n, db, ftrg =>
    if r.tgid ∈ ptrg then fireRows loc env wid ptrg rs n db ftrg
    else do
      let uptkn := newUptkn env n r.tgname
      let db ← insertJob loc r.tgid wid uptkn r.tout db
      fireRows loc env wid ptrg rs (n + 1) (notifyJob r.tgid wid uptkn db) (ftrg ++ [r.tgid])

/-- Fire the triggers of a set of conditions, except those in `ptrg`. -/
def squeezeTheTrigger (loc : Locale) (env : Env) (wid : Int) (condSet ptrg : List Int) (db : Db) :
    Except Error (Db × List Int) :=
  if condSet = [] then .ok (db, [])
  else fireRows loc env wid ptrg (db.wedTrig.filter fun t => t.cid ∈ condSet) 0 db []

/-- A status entry for a new instance. -/
def newStStatusEntry (wid : Int) (db : Db) : Except Error Db :=
  if db.stStatus.any fun r => r.wid = wid then .error .uniqueViolation
  else .ok { db with stStatus := db.stStatus ++ [⟨wid, false, false⟩] }

/-- Every condition has a predicate. -/
def wedCondValidation (db : Db) : Bool :=
  db.wedCond.all fun c => db.wedPred.any fun p => p.cid = c.cid

/-- Every condition that is not final has a trigger. -/
def wedTrigValidation (db : Db) : Bool :=
  db.wedCond.all fun c => c.final || db.wedTrig.any fun t => t.cid = c.cid

/-- There is a final condition. -/
def wedFinalCondValidation (db : Db) : Bool :=
  db.wedCond.any fun c => c.final

/-- Close the locked open job with a token, the trigger switched off around
    it. -/
def findJob (env : Env) (uptkn : String) (db : Db) : Except Error (Db × Option JobRow) := do
  let (db, res) ← updateJobPool env.now
    (fun j => j.uptkn = uptkn && j.locked && j.tf = none)
    (fun j => { j with tf := some env.now }) { db with lockJob := false }
  return ({ db with lockJob := true }, res.head?)

/-- The triggers with an open job for an instance. -/
def runningTriggers (wid : Int) (db : Db) : List Int :=
  (db.jobPool.filter (OpenFor wid)).map (·.tgid)

/-- The two flags of an instance. -/
def getStStatus (wid : Int) (db : Db) : Except Error (Bool × Bool) :=
  match db.stStatus.find? fun r => r.wid = wid with
  | none => .error .widNotFound
  | some r => .ok (r.final, r.excpt)

/-- Set the two flags of an instance. -/
def setStStatus (wid : Int) (final excpt : Bool) (db : Db) : Db :=
  { db with
    stStatus := Table.updateWhere (fun r => r.wid = wid)
      (fun r => { r with final := final, excpt := excpt }) db.stStatus }

/-- The entry of a state with its flags. -/
def entryOf (new : FlowRow) (tgidWrote : Option Int) (final excpt : Bool)
    (tgidFired : List Int) : Entry where
  wid := new.wid
  attrs := new.attrs
  tgidWrote := tgidWrote
  final := final
  excpt := excpt
  tgidFired := tgidFired

/-- A new instance. -/
def kernelInsert (loc : Locale) (env : Env) (new : FlowRow) (db : Db) : Except Error Db := do
  let (condSet, final) ← predMatch loc new.attrs db
  if condSet = [] ∧ ¬ final then .error .noPredicateMatches
  else if ¬ final then
    let (db, fired) ← squeezeTheTrigger loc env new.wid condSet [] db
    let db ← newTraceEntry loc env (entryOf new none false false fired) db
    newStStatusEntry new.wid db
  else
    -- An initial state that is final fires nothing.
    let db ← newTraceEntry loc env (entryOf new none true false []) db
    let db ← newStStatusEntry new.wid db
    return setStStatus new.wid true false db

/-- The token of an update. The word that asks for recovery needs an exception
    and closes no job; any other token has to be that of a locked open job of
    this very instance, which is closed. Answers with the trigger whose job it
    was. -/
def lookupToken (loc : Locale) (env : Env) (uptkn : String) (wid : Int) (excpt : Bool) (db : Db) :
    Except Error (Db × Option Int) :=
  if loc.lower uptkn ≠ "exception" then do
    let (db, job) ← findJob env uptkn db
    match job with
    | none => .error .jobNotFound
    | some job => if wid ≠ job.wid then .error .invalidWid else .ok (db, some job.tgid)
  else if ¬ excpt then .error .notAnException
  else .ok (db, none)

/-- What a justified update leads to. -/
def settle (loc : Locale) (env : Env) (new : FlowRow) (tgid : Option Int) (db : Db) :
    Except Error Db := do
  let rtrg := runningTriggers new.wid db
  let (condSet, final) ← predMatch loc new.attrs db
  if rtrg = [] ∧ condSet = [] then
    -- Nothing running, nothing to fire and not final.
    let db ← newTraceEntry loc env (entryOf new tgid true true []) db
    return setStStatus new.wid true true db
  else if final then
    if rtrg ≠ [] then .error .pendingTransitions
    else
      let db ← newTraceEntry loc env (entryOf new tgid true false []) db
      return setStStatus new.wid true false db
  else
    let (db, fired) ← squeezeTheTrigger loc env new.wid condSet rtrg db
    let db ← newTraceEntry loc env (entryOf new tgid false false fired) db
    return setStStatus new.wid false false db

/-- A new state of an instance. -/
def kernelUpdate (loc : Locale) (env : Env) (new : FlowRow) (db : Db) : Except Error Db := do
  let (final, excpt) ← getStStatus new.wid db
  if final ∧ ¬ excpt then .error .finalState
  else
    match new.varUptkn with
    | none => .error .tokenNeeded
    | some uptkn =>
      if uptkn = "" then .error .tokenNeeded
      else
        let (db, tgid) ← lookupToken loc env uptkn new.wid excpt db
        settle loc env new tgid db

/-- What the trigger is called for. -/
inductive Event where
  | insert
  | update
deriving DecidableEq, Repr

/-- The trigger function. -/
def kernelFunction (loc : Locale) (env : Env) (event : Event) (new : FlowRow) (db : Db) :
    Except Error Db :=
  if !wedFinalCondValidation db then .error .noFinalCondition
  else if !wedCondValidation db then .error .conditionWithoutPredicate
  else if !wedTrigValidation db then .error .conditionWithoutTransition
  else
    match event with
    | .insert => kernelInsert loc env new db
    | .update => kernelUpdate loc env new db

/-- Give every attribute its assigned value, or keep what it has. Attributes
    are text and not null. -/
def assignFlow (base : List (String × String)) (vals : List (String × Option String)) :
    Except Error (List (String × String)) :=
  if vals.all fun a => a.1 ∈ base.map (·.1) then
    if vals.all fun a => a.2.isSome then
      .ok (base.map fun a => (a.1, ((vals.lookup a.1).join).getD a.2))
    else .error .notNull
  else .error .unknownColumn

/-- An insert into `wed_flow`. Attributes that are not assigned get the
    default of their column. The kernel runs after the row is in. -/
def insertFlow (loc : Locale) (env : Env) (wid : Int) (uptkn : Option String)
    (vals : List (String × Option String)) (db : Db) : Except Error Db := do
  let attrs ← assignFlow (db.flowColumns.map fun c => (c.name, c.default)) vals
  if db.wedFlow.any fun r => r.wid = wid then .error .uniqueViolation
  else
    let new : FlowRow := ⟨wid, uptkn, attrs⟩
    kernelFunction loc env .insert new { db with wedFlow := db.wedFlow ++ [new] }

/-- An update of the instance with a given key, if there is one; answers with
    the number of rows. A `SET` list that leaves out a column keeps what the
    row has. The kernel runs before the row is written, and a new key is still
    subject to the primary key and to the tables that refer to the old one. -/
def updateFlow (loc : Locale) (env : Env) (wid : Int) (newWid : Option Int)
    (uptkn : Option (Option String)) (vals : List (String × Option String)) (db : Db) :
    Except Error (Db × Nat) :=
  match db.wedFlow.find? fun r => r.wid = wid with
  | none => .ok (db, 0)
  | some old => do
    let attrs ← assignFlow old.attrs vals
    let new : FlowRow := ⟨newWid.getD wid, uptkn.getD old.varUptkn, attrs⟩
    let db ← kernelFunction loc env .update new db
    if new.wid ≠ wid ∧ db.wedFlow.any fun r => r.wid = new.wid then .error .uniqueViolation
    else if new.wid ≠ wid ∧ ((db.jobPool.any fun j => j.wid = wid) ∨
        (db.stStatus.any fun r => r.wid = wid) ∨ db.wedTrace.any fun r => r.wid = wid) then
      .error .foreignKey
    else
      .ok ({ db with wedFlow := Table.updateWhere (fun r => r.wid = wid) (fun _ => new) db.wedFlow },
        1)

end WedFlow
