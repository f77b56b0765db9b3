import WedFlow.Base.Json
import WedFlow.Core.Workers

/-!
# The Worker Process

The whole of `handyman.py`, around the `wed_trans` of `Core.Workers`. A process is
started for one trigger and listens on its channel. Then it loops. It waits for
its connection to become readable, for five seconds at most; if nothing has
arrived it searches `job_pool` for a job of its trigger that is not locked, and
otherwise it goes through the notifications that have arrived, oldest first.
Either way a job is handled to its end before the next one is looked at.

Notifications are handed over by the driver, and not only when it is polled: every
query it sends may bring some along, which then lie in the list of the connection
until the next time it is found readable. How many arrive with a call is left
open.

A payload that is not a job would end the process, since nothing catches the
error.

## Main definitions

* `Daemon`: A process.
* `Daemon.inbox`, `Daemon.receive`: The notifications sent to it, and some more
  of them arriving.
* `jobOfPayload`: What is read from a payload.
* `DaemonMove`: What a process does next.
* `Daemon.sends`, `Daemon.move`: The call it makes, and the process after it.
* `Crew`, `Beat`, `Crew.beat`: All processes and the cluster.
* `crew`: The state after a list of beats.
-/

namespace WedFlow

/-- A process: the trigger it was started for, how many notifications it has
    received, those not looked at yet, whether it is going through these, and
    where it is in `wed_trans`. -/
structure Daemon where
  tgid : Int
  seen : Nat
  notifies : List String
  polled : Bool
  phase : WorkerPhase
deriving DecidableEq, Repr

/-- The channel it listens on. -/
def Daemon.channel (d : Daemon) : String :=
  "WTRG_" ++ toString d.tgid

/-- The payloads sent on its channel. -/
def Daemon.inbox (d : Daemon) (notices : List Notice) : List String :=
  (notices.filter fun n => n.channel = d.channel).map (·.payload)

/-- Up to `k` more of them arrive. -/
def Daemon.receive (d : Daemon) (notices : List Notice) (k : Nat) : Daemon :=
  let new := ((d.inbox notices).drop d.seen).take k
  { d with
    seen := d.seen + new.length
    notifies := d.notifies ++ new }

/-- A process that has just started to listen. What was sent before does not
    reach it. -/
def Daemon.listen (tgid : Int) (notices : List Notice) : Daemon :=
  let d : Daemon := ⟨tgid, 0, [], false, .idle⟩
  { d with seen := (d.inbox notices).length }

/-- The job of a payload: of a key that is given twice the last value counts. -/
def jobOfPayload (payload : String) : Option Job :=
  match Json.loads payload.toList with
  | none => none
  | some o =>
    match o.reverse.lookup "tgid", o.reverse.lookup "wid", o.reverse.lookup "uptkn" with
    | some (.int g), some (.int v), some (.str u) => some ⟨g, v, u⟩
    | _, _, _ => none

/-- What a process does next: its wait ends, without or with something to read; it
    takes the next notification; it makes one of the two calls of `wed_trans`; or
    somebody ends it. -/
inductive DaemonMove where
  | timeout (pick k : Nat)
  | ready (k : Nat)
  | pop
  | lock (env : Env) (k : Nat)
  | update (env : Env) (newWid : Option Int) (vals : List (String × Option String)) (k : Nat)
  | kill

/-- It waits, or goes through the notifications. -/
def Daemon.free (d : Daemon) (polled : Bool) : Bool :=
  d.phase = .idle && d.polled = polled

/-- The call a process makes. -/
def Daemon.sends (d : Daemon) : DaemonMove → Option Turn
  | .lock env _ =>
    match d.phase with
    | .asking job => some (job.lockTurn env (toString d.tgid))
    | _ => none
  | .update env newWid vals _ =>
    match d.phase with
    | .running job => some (job.updateTurn env newWid vals)
    | _ => none
  | _ => none

/-- The process afterwards, if it is still there. A move that is not its next one
    has no effect. -/
def Daemon.move (loc : Locale) (c : Cluster) (d : Daemon) : DaemonMove → Option Daemon
  | .timeout pick k =>
    if d.free false then
      some { d.receive c.db.notices k with
        phase := (jobLookup d.tgid pick c.db).elim .idle .asking }
    else some d
  | .ready k =>
    if d.free false then some { d.receive c.db.notices k with polled := true } else some d
  | .pop =>
    if d.free true then
      match d.notifies with
      | [] => some { d with polled := false }
      | payload :: rest =>
        (jobOfPayload payload).map fun job => { d with notifies := rest, phase := .asking job }
    else some d
  | .lock env k =>
    match d.phase with
    | .asking job =>
      let r := serve loc c (job.lockTurn env (toString d.tgid))
      some { d.receive r.1.db.notices k with phase := afterLock job r.2 }
    | _ => some d
  | .update env newWid vals k =>
    match d.phase with
    | .running job =>
      let r := serve loc c (job.updateTurn env newWid vals)
      some { d.receive r.1.db.notices k with phase := afterUpdate job r.2 }
    | _ => some d
  | .kill => none

/-- The cluster and the processes that are there. -/
structure Crew where
  cluster : Cluster
  members : Nat → Option Daemon

def Crew.empty : Crew :=
  ⟨Cluster.empty, fun _ => none⟩

/-- A turn of anyone else, a new process, or a move of one. -/
inductive Beat where
  | other (t : Turn)
  | start (w : Nat) (tgid : Int)
  | move (w : Nat) (m : DaemonMove)

/-- The call that is made. -/
def Crew.sends (c : Crew) : Beat → Option Turn
  | .other t => some t
  | .start _ _ => none
  | .move w m => (c.members w).bind (·.sends m)

/-- The processes afterwards. -/
def Crew.moved (loc : Locale) (c : Crew) : Beat → Nat → Option Daemon
  | .other _ => c.members
  | .start w tgid =>
    if (c.members w).isNone then
      Function.update c.members w (some (.listen tgid c.cluster.db.notices))
    else c.members
  | .move w m => Function.update c.members w ((c.members w).bind (·.move loc c.cluster m))

def Crew.beat (loc : Locale) (c : Crew) (b : Beat) : Crew where
  cluster := (c.sends b).elim c.cluster (turn loc c.cluster)
  members := c.moved loc b

/-- The state after a list of beats. -/
def crew (loc : Locale) (bs : List Beat) : Crew :=
  Machine.after (Crew.beat loc) Crew.empty bs

/-- The phase of a worker, which is none if there is no process. -/
def Crew.phase (c : Crew) (w : Nat) : WorkerPhase :=
  (c.members w).elim .idle Daemon.phase

/-- A process begins to run the body of the transition of the job with this
    token. -/
def begins (loc : Locale) (u : String) (p : Crew × Beat) : Bool :=
  match p.2 with
  | .move w _ =>
    match p.1.phase w, (p.1.beat loc p.2).phase w with
    | .asking _, .running job => job.uptkn = u
    | _, _ => false
  | _ => false

/-- The token that a search of process `w` comes back with. -/
def found (w : Nat) (p : Crew × Beat) : Option String :=
  match p.2 with
  | .move v (.timeout pick _) =>
    if v = w then
      (p.1.members w).bind fun d =>
        if d.free false then (jobLookup d.tgid pick p.1.cluster.db).map (·.uptkn) else none
    else none
  | _ => none

end WedFlow
