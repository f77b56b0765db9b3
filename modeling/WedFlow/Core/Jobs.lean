import WedFlow.Core.Schema

/-!
# The Job Pool

Everything that writes `job_pool` except the kernel. A job is created pending,
a worker locks it, and it ends by being completed or aborted.

Clients never write the table themselves. They call `job_lock` and `job_abort`,
which are plain updates by token, and the row trigger `set_job_lock` decides
what such an update really does: it writes the old row back with the few
columns it allows to change, or skips the row, or raises. Two writers, the
kernel's token lookup and `job_inspector`, switch the trigger off around their
own updates.

`job_inspector` looks for jobs that have been locked for longer than their
timeout, and for each of them marks the job aborted and creates a fresh one for
the same trigger and instance. The scan and the loop are separate functions
here, because other transactions may commit between the two.

## Main definitions

* `Env`: What a statement draws from its surroundings.
* `newUptkn`: A fresh token.
* `setJobLock`: The row trigger.
* `updateJobPool`: An update of the table, through the trigger if it is on.
* `Attempt`, `updateJobs`: An update of the table that a client writes by hand.
* `insertJob`: A new pending job.
* `jobLock`, `jobAbort`: The two client functions.
* `expired`: The jobs a scan of `job_inspector` finds.
* `requeue`: The loop of `job_inspector`.
* `jobInspector`: A whole run of it.
-/

namespace WedFlow

/-- What a statement draws from its surroundings: the clock, the start of the
    transaction, and the hashes, one for each draw and trigger name. -/
structure Env where
  now : Time
  start : Time
  md5 : Nat → String → Digest

/-- The token of the `n`-th draw for a trigger. -/
def newUptkn (env : Env) (n : Nat) (triggerName : String) : String :=
  hexdigest (env.md5 n triggerName)

/-- The trigger `lock_job`. A locked job can be aborted, once, and nothing
    else; a job that is not locked can be locked. Either way all other columns
    keep their old values. Any other update of a job that is not locked is
    skipped. -/
def setJobLock (now : Time) (old new : JobRow) : Except Error (Option JobRow) :=
  if old.locked then
    if new.aborted ∧ ¬ old.aborted then
      .ok (some { old with aborted := true, tf := some now })
    else .error (.alreadyLocked new.uptkn)
  else if new.locked then
    .ok (some { old with lckid := new.lckid, locked := true, aborted := false, ti := some now })
  else .ok none

/-- What stands between an update of `job_pool` and the table. -/
def fireLockJob (enabled : Bool) (now : Time) (old new : JobRow) : Except Error (Option JobRow) :=
  if enabled then setJobLock now old new else .ok (some new)

/-- An update of `job_pool`, with the rows it wrote. -/
def updateJobPool (now : Time) (p : JobRow → Bool) (f : JobRow → JobRow) (db : Db) :
    Except Error (Db × List JobRow) := do
  let (jobs, written) ← Table.updateTriggered (fireLockJob db.lockJob now) p f db.jobPool
  return ({ db with jobPool := jobs }, written)

/-- The row an update written by hand asks for: any value in any column, or
    NULL. -/
structure Attempt where
  tgid : Option Int
  wid : Option Int
  uptkn : Option String
  lckid : Option String
  locked : Option Bool
  aborted : Option Bool
  tout : Option Interval
  ti : Option Time
  tf : Option Time
deriving DecidableEq, Repr

/-- The row as the trigger looks at it. A NULL flag is false to Python; the
    other columns that are NULL are never read, apart from the token in the text
    of the error. -/
def Attempt.row (a : Attempt) (old : JobRow) : JobRow where
  tgid := a.tgid.getD old.tgid
  wid := a.wid.getD old.wid
  uptkn := a.uptkn.getD ""
  lckid := a.lckid
  locked := a.locked.getD false
  aborted := a.aborted.getD false
  tout := a.tout.getD old.tout
  ti := a.ti
  tf := a.tf

/-- An update of `job_pool` written by hand, on any selection of rows. -/
def updateJobs (now : Time) (p : JobRow → Bool) (f : JobRow → Attempt) (db : Db) :
    Except Error (Db × List JobRow) :=
  updateJobPool now p (fun j => (f j).row j) db

/-- A job nobody has touched. -/
def pendingJob (tgid wid : Int) (uptkn : String) (tout : Interval) : JobRow where
  tgid := tgid
  wid := wid
  uptkn := uptkn
  lckid := none
  locked := false
  aborted := false
  tout := tout
  ti := none
  tf := none

/-- Insert a pending job. A timeout that is NULL prints as the bare word
    `None`, which is no value. Tokens are unique up to case. -/
def insertJob (loc : Locale) (tgid wid : Int) (uptkn : String) (tout : Option Interval) (db : Db) :
    Except Error Db :=
  match tout with
  | none => .error .badStatement
  | some t =>
    if db.jobPool.any fun j => loc.sqlLower j.uptkn = loc.sqlLower uptkn then
      .error .uniqueViolation
    else if !(db.wedTrig.any fun r => r.tgid = tgid) then .error .foreignKey
    else if !(db.wedFlow.any fun r => r.wid = wid) then .error .foreignKey
    else .ok { db with jobPool := db.jobPool ++ [pendingJob tgid wid uptkn t] }

/-- The row a lock would write. An empty lock id is not written. -/
def lockRequest (lckid : Option String) (j : JobRow) : JobRow :=
  match lckid with
  | some l =>
    if l = "" then { j with locked := true } else { j with locked := true, lckid := some l }
  | none => { j with locked := true }

/-- Lock a job. -/
def jobLock (now : Time) (uptkn : String) (lckid : Option String) (db : Db) :
    Except Error (Db × Bool) := do
  let (db, res) ← updateJobPool now (fun j => j.uptkn = uptkn) (lockRequest lckid) db
  return (db, !res.isEmpty)

/-- Abort a job. -/
def jobAbort (now : Time) (uptkn : String) (db : Db) : Except Error (Db × Bool) := do
  let (db, res) ← updateJobPool now (fun j => j.uptkn = uptkn)
    (fun j => { j with aborted := true }) db
  return (db, !res.isEmpty)

/-- A row of the scan of `job_inspector`. -/
structure ScanRow where
  tgname : String
  tgid : Int
  wid : Int
  uptkn : String
  tout : Interval
deriving DecidableEq, Repr

/-- A job that is open and has been locked for longer than its timeout. The
    difference with a missing lock time is NULL, so it is no match. -/
def isExpired (now : Time) (j : JobRow) : Bool :=
  j.tf = none && (match j.ti with
    | some ti => now - ti > j.tout
    | none => false)

/-- The scan: the expired jobs joined with their triggers. -/
def expired (now : Time) (db : Db) : List ScanRow :=
  db.jobPool.flatMap fun j =>
    if isExpired now j then
      (db.wedTrig.filter fun t => t.tgid = j.tgid).map fun t =>
        ⟨t.tgname, t.tgid, j.wid, j.uptkn, j.tout⟩
    else []

/-- The body of the loop, for each scanned row in turn: mark the job aborted
    by its token alone, then insert its replacement. -/
def requeueRows (loc : Locale) (env : Env) : List ScanRow → Nat → Db → Except Error Db
  | [], _, db => .ok db
  | r :: rs, n, db => do
    let (db, _) ← updateJobPool env.now (fun j => j.uptkn = r.uptkn)
      (fun j => { j with aborted := true, tf := some env.now }) db
    let db ← insertJob loc r.tgid r.wid (newUptkn env n r.tgname) (some r.tout) db
    requeueRows loc env rs (n + 1) db

/-- The loop, with the trigger switched off around it. -/
def requeue (loc : Locale) (env : Env) (rows : List ScanRow) (db : Db) : Except Error Db := do
  let db ← requeueRows loc env rows 0 { db with lockJob := false }
  return { db with lockJob := true }

/-- A whole run: nothing to do, or requeue what the scan found. -/
def jobInspector (loc : Locale) (env : Env) (db : Db) : Except Error (Db × Bool) :=
  let rows := expired env.now db
  if rows = [] then .ok (db, false)
  else do
    let db ← requeue loc env rows db
    return (db, true)

end WedFlow
