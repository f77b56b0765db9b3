import WedFlow.Core.System

/-!
# Sessions

Many clients at once, and the workers that run `job_inspector` among them. A
statement is a transaction of its own and takes effect when it commits, so to
the others it is one step. A run of `job_inspector` is two: the scan, and the
loop over what the scan found. Anything may commit between them, and the loop
does not look again whether a job it replaces is still open.

What keeps them apart are the locks on `job_pool`. A scan holds its lock until
its transaction ends. An insert or update of the table is compatible with that;
switching the row trigger off and on is not, and so the loop and the token
lookup of an update wait until nobody else holds a lock. When two wait for each
other, one of them is cancelled.

## Main definitions

* `LockMode`: The modes in which `job_pool` is locked.
* `carried`: The token an update comes with.
* `lockMode`: The lock a statement needs.
* `Scan`, `Cluster`: A scan whose transaction is under way; the database with
  all of these.
* `Turn`: What a session does next.
* `Answer`: What comes back.
* `serve`, `turn`: One turn.
* `cluster`: The state after a list of turns.
-/

namespace WedFlow

/-- The modes in which `job_pool` is locked: by a read, by an insert or update,
    and by a change of its triggers. -/
inductive LockMode where
  | accessShare
  | rowExclusive
  | accessExclusive
deriving DecidableEq, Repr

/-- A change of the triggers conflicts with everything. -/
def LockMode.conflicts : LockMode → LockMode → Bool
  | .accessExclusive, _ => true
  | _, .accessExclusive => true
  | _, _ => false

/-- The token an update comes with: the one it sets, or the one its row has. -/
def carried (db : Db) : Op → Option String
  | .updateFlow wid _ uptkn _ =>
    (db.wedFlow.find? fun r => r.wid = wid).bind fun old => uptkn.getD old.varUptkn
  | _ => none

/-- The strongest lock on `job_pool` a statement takes. The lookup of a token
    switches the trigger off and on, which recovery from an exception does
    without; definitions read the table at most. -/
def lockMode (loc : Locale) (db : Db) (op : Op) : LockMode :=
  match op with
  | .updateFlow _ _ _ _ =>
    match carried db op with
    | none => .accessShare
    | some u =>
      if u = "" then .accessShare
      else if loc.lower u = "exception" then .rowExclusive
      else .accessExclusive
  | .jobInspector => .accessExclusive
  | .insertFlow _ _ _ => .rowExclusive
  | .jobLock _ _ => .rowExclusive
  | .jobAbort _ => .rowExclusive
  | _ => .accessShare

/-- What a scan has found, and when it looked. -/
structure Scan where
  now : Time
  rows : List ScanRow
deriving DecidableEq, Repr

/-- The database, and the sessions between their scan and their loop. -/
structure Cluster where
  db : Db
  scans : List (Nat × Scan)

def Cluster.empty : Cluster :=
  ⟨Db.empty, []⟩

/-- Nobody else holds a conflicting lock. A session under way with a scan holds
    the lock of a read. -/
def Cluster.grants (c : Cluster) (pid : Option Nat) (mode : LockMode) : Bool :=
  c.scans.all fun s => some s.1 = pid || !mode.conflicts .accessShare

/-- A session ends its transaction. -/
def Cluster.release (c : Cluster) (pid : Nat) : Cluster :=
  { c with scans := c.scans.filter fun s => s.1 ≠ pid }

/-- What a session does next. -/
inductive Turn where
  | statement (i : Input)
  | scan (pid : Nat) (now : Time)
  | loop (pid : Nat) (env : Env)
  | cancel (pid : Nat)

/-- What comes back: nothing yet, an error, or a reply. -/
inductive Answer where
  | pending
  | cancelled
  | failed (e : Error)
  | replied (r : Reply)
deriving DecidableEq, Repr

/-- One turn. A statement that has to wait for a lock has no effect yet; its
    session tries again with a later turn. -/
def serve (loc : Locale) (c : Cluster) : Turn → Cluster × Answer
  | .statement i =>
    if c.grants none (lockMode loc c.db i.op) then
      match exec loc i c.db with
      | .ok (db, r) => ({ c with db := db }, .replied r)
      | .error e => (c, .failed e)
    else (c, .pending)
  | .scan pid now =>
    if c.scans.any fun s => s.1 = pid then (c, .pending)
    else ({ c with scans := c.scans ++ [(pid, ⟨now, expired now c.db⟩)] }, .pending)
  | .loop pid env =>
    match c.scans.find? fun s => s.1 = pid with
    | none => (c, .pending)
    | some s =>
      if s.2.rows = [] then (c.release pid, .replied (.bool false))
      else if c.grants (some pid) .accessExclusive then
        -- The time is still that of the scan.
        match requeue loc { env with now := s.2.now } s.2.rows c.db with
        | .ok db => ({ c.release pid with db := db }, .replied (.bool true))
        | .error e => (c.release pid, .failed e)
      else (c, .pending)
  | .cancel pid => (c.release pid, .cancelled)

/-- The state after a turn. -/
def turn (loc : Locale) (c : Cluster) (t : Turn) : Cluster :=
  (serve loc c t).1

/-- The state after a list of turns. -/
def cluster (loc : Locale) (ts : List Turn) : Cluster :=
  Machine.after (turn loc) Cluster.empty ts

end WedFlow
