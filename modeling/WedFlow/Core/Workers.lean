import Mathlib.Logic.Function.Basic
import WedFlow.Core.Sessions

/-!
# Workers

The clients that run transitions, as `handyman.py` does it. A worker listens on
the channel of its trigger. It is told of a job by a notification, or it looks
for one that nobody has locked; several workers may be told of the same job, and
what they were told may be out of date.

With a job in hand a worker follows `wed_trans`. It calls `job_lock`, and unless
the answer is true the job is dropped. Otherwise it runs the body of the
transition, and then sends the update with the job's token, whose outcome is
printed and nothing else. The connection commits every call by itself.

## Main definitions

* `Job`: What a worker is told of a job.
* `WorkerPhase`: Where a worker is in `wed_trans`.
* `Fleet`: The cluster and the workers.
* `candidates`, `jobLookup`: The search for a job.
* `Errand`: What happens next, to a worker or elsewhere.
* `Fleet.sends`: The call it makes.
* `afterLock`, `afterUpdate`: How a worker goes on after a call.
* `advance`: The fleet after an errand.
* `fleet`: The fleet after a list of them.
* `runsBody`: Whether the body of a job's transition is run.
-/

namespace WedFlow

/-- What a worker is told of a job. -/
structure Job where
  tgid : Int
  wid : Int
  uptkn : String
deriving DecidableEq, Repr

/-- A worker has no job, is about to lock one, or is running the body of one. -/
inductive WorkerPhase where
  | idle
  | asking (job : Job)
  | running (job : Job)
deriving DecidableEq, Repr

/-- The cluster and the workers. -/
structure Fleet where
  cluster : Cluster
  workers : Nat → WorkerPhase

def Fleet.empty : Fleet :=
  ⟨Cluster.empty, fun _ => .idle⟩

/-- The jobs of a trigger that are not locked. -/
def candidates (tgid : Int) (db : Db) : List JobRow :=
  db.jobPool.filter fun j => j.tgid = tgid && !j.locked

/-- One of them, if there is any. A `LIMIT 1` without an order answers with any of the
    rows, so which one is left open. -/
def jobLookup (tgid : Int) (pick : Nat) (db : Db) : Option Job :=
  ((candidates tgid db)[pick % (candidates tgid db).length]?).map fun j => ⟨j.tgid, j.wid, j.uptkn⟩

/-- What happens next: a turn of anyone else, or something with a worker. What
    the update assigns besides the token is up to the worker. -/
inductive Errand where
  | other (t : Turn)
  | notified (w : Nat) (job : Job)
  | lookup (w : Nat) (tgid : Int) (pick : Nat)
  | lock (w : Nat) (env : Env) (channel : String)
  | update (w : Nat) (env : Env) (newWid : Option Int) (vals : List (String × Option String))
  | restart (w : Nat)

/-- The call of `job_lock` for a job. -/
def Job.lockTurn (job : Job) (env : Env) (channel : String) : Turn :=
  .statement ⟨env, .jobLock job.uptkn (some ("W1_WTRG_" ++ channel))⟩

/-- The update that completes a job. -/
def Job.updateTurn (job : Job) (env : Env) (newWid : Option Int)
    (vals : List (String × Option String)) : Turn :=
  .statement ⟨env, .updateFlow job.wid newWid (some (some job.uptkn)) vals⟩

/-- The call an errand makes. -/
def Fleet.sends (f : Fleet) : Errand → Option Turn
  | .other t => some t
  | .lock w env channel =>
    match f.workers w with
    | .asking job => some (job.lockTurn env channel)
    | _ => none
  | .update w env newWid vals =>
    match f.workers w with
    | .running job => some (job.updateTurn env newWid vals)
    | _ => none
  | _ => none

/-- The body is run if and only if the lock was granted. -/
def afterLock (job : Job) : Answer → WorkerPhase
  | .pending => .asking job
  | .replied (.bool true) => .running job
  | _ => .idle

/-- Whatever the outcome of the update, the job is done with. -/
def afterUpdate (job : Job) : Answer → WorkerPhase
  | .pending => .running job
  | _ => .idle

/-- The phase of a worker after an errand of its own. -/
def Fleet.moves (loc : Locale) (f : Fleet) : Errand → Nat → WorkerPhase
  | .other _ => f.workers
  | .notified w job =>
    match f.workers w with
    | .idle => Function.update f.workers w (.asking job)
    | _ => f.workers
  | .lookup w tgid pick =>
    match f.workers w, jobLookup tgid pick f.cluster.db with
    | .idle, some job => Function.update f.workers w (.asking job)
    | _, _ => f.workers
  | .lock w env channel =>
    match f.workers w with
    | .asking job => Function.update f.workers w
        (afterLock job (serve loc f.cluster (job.lockTurn env channel)).2)
    | _ => f.workers
  | .update w env newWid vals =>
    match f.workers w with
    | .running job => Function.update f.workers w
        (afterUpdate job (serve loc f.cluster (job.updateTurn env newWid vals)).2)
    | _ => f.workers
  | .restart w => Function.update f.workers w .idle

/-- The fleet after an errand. -/
def advance (loc : Locale) (f : Fleet) (e : Errand) : Fleet where
  cluster := (f.sends e).elim f.cluster (turn loc f.cluster)
  workers := f.moves loc e

/-- The fleet after a list of errands. -/
def fleet (loc : Locale) (es : List Errand) : Fleet :=
  Machine.after (advance loc) Fleet.empty es

/-- The calls of a run, each with the state it met. -/
def calls (loc : Locale) (es : List Errand) : List (Cluster × Turn) :=
  (Machine.history (advance loc) Fleet.empty es).filterMap fun p =>
    (p.1.sends p.2).map (p.1.cluster, ·)

/-- A worker begins to run the body of the transition of the job with this
    token. -/
def runsBody (loc : Locale) (u : String) (p : Fleet × Errand) : Bool :=
  match p.2 with
  | .lock w _ _ =>
    match p.1.workers w, (advance loc p.1 p.2).workers w with
    | .asking _, .running job => job.uptkn = u
    | _, _ => false
  | _ => false

end WedFlow
