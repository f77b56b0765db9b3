import Mathlib.Logic.Function.Basic
import WedFlow.Core.Sessions

/-!
# The Background Workers

`wed_worker.c`, the processes that the server keeps for `job_inspector`. At start
it registers `total_workers` of them. Each sleeps, runs `job_inspector` in a
transaction of its own, and goes back to the head of its loop, which is the one
place where it looks whether it has been told to terminate.

Nothing in the loop catches an error, so a failed or cancelled inspection ends the
process; and since they are registered with `BGW_NEVER_RESTART`, it does not come
back before the server does.

An inspection that has found something waits until nobody else holds a lock on
`job_pool`. Two of them that wait hold each other up, and the server cancels one.
To tell that apart from a single one that waits, the sessions that do are written
down.

## Main definitions

* `totalWorkers`: How many workers are registered.
* `Turn.owner`, `Turn.waits`: Who takes a turn, and whether it has to wait.
* `Queue`: The cluster, with the sessions that wait.
* `BgPhase`, `BgWorker`: A process and where it is in its loop.
* `Server`: All of them.
* `Tick`, `Server.sends`, `Server.moved`, `Server.tick`: What happens next.
* `server`: The state after a list of ticks.
-/

namespace WedFlow

/-- The session a turn is taken by, unless it is all of a transaction. -/
def Turn.owner : Turn → Option Nat
  | .statement _ => none
  | .scan pid _ => some pid
  | .loop pid _ => some pid
  | .cancel pid => some pid

/-- What a session has scanned in the transaction it is in. -/
def Cluster.scanOf (c : Cluster) (pid : Nat) : Option Scan :=
  (c.scans.find? fun s => s.1 = pid).map (·.2)

/-- The turn is a loop that has to wait. -/
def Turn.waits (loc : Locale) (c : Cluster) : Turn → Bool
  | .loop pid env => (c.scanOf pid).isSome && (serve loc c (.loop pid env)).2 = .pending
  | _ => false

/-- The cluster, with the sessions that wait. -/
structure Queue where
  cluster : Cluster
  waiting : Nat → Bool

def Queue.turn (loc : Locale) (q : Queue) (t : Turn) : Queue where
  cluster := WedFlow.turn loc q.cluster t
  waiting := t.owner.elim q.waiting fun pid => Function.update q.waiting pid (t.waits loc q.cluster)

/-- The session waits, and one it waits for waits as well. -/
def Queue.deadlocked (q : Queue) (pid : Nat) : Bool :=
  q.waiting pid && q.cluster.scans.any fun s => s.1 ≠ pid && q.waiting s.1

/-- Where a worker is: at the latch, or in `job_inspector`. -/
inductive BgPhase where
  | napping
  | inspecting
deriving DecidableEq, Repr

/-- A worker, and whether it has been told to terminate. -/
structure BgWorker where
  gotSigterm : Bool
  phase : BgPhase
deriving DecidableEq, Repr

/-- The worker after an answer of `job_inspector`. With a reply it is back at the
    head of its loop. -/
def BgWorker.answered (b : BgWorker) : Answer → Option BgWorker
  | .pending => some b
  | .replied _ => if b.gotSigterm then none else some { b with phase := .napping }
  | .failed _ => none
  | .cancelled => none

/-- The workers that are there, by the number they are registered with. -/
structure Server where
  queue : Queue
  workers : Nat → Option BgWorker

/-- The numbers of the workers. No other session has one of them. -/
def isWorker (total pid : Nat) : Bool :=
  1 ≤ pid && pid ≤ total

/-- The workers of a server that has just started. -/
def registered (total w : Nat) : Option BgWorker :=
  if isWorker total w then some ⟨false, .napping⟩ else none

def Server.empty (total : Nat) : Server :=
  ⟨⟨Cluster.empty, fun _ => false⟩, registered total⟩

def Server.phase (s : Server) (w : Nat) : Option BgPhase :=
  (s.workers w).map (·.phase)

/-- A turn of another session, a new start of the server, a signal, the end of a
    nap, the loop of an inspection, the end of a deadlock, or somebody cancels an
    inspection. -/
inductive Tick where
  | other (t : Turn)
  | restart
  | sigterm (w : Nat)
  | wake (w : Nat) (now : Time)
  | loop (w : Nat) (env : Env)
  | deadlock (pid : Nat)
  | cancel (w : Nat)

/-- The turns that are taken. When the server goes down, every transaction that is
    under way does. -/
def Server.sends (total : Nat) (s : Server) : Tick → List Turn
  | .other t => if t.owner.any (isWorker total) then [] else [t]
  | .restart => s.queue.cluster.scans.map fun q => .cancel q.1
  | .sigterm _ => []
  | .wake w now => if s.phase w = some .napping then [.scan w now] else []
  | .loop w env => if s.phase w = some .inspecting then [.loop w env] else []
  | .deadlock pid => if s.queue.deadlocked pid then [.cancel pid] else []
  | .cancel w => if s.phase w = some .inspecting then [.cancel w] else []

/-- The workers afterwards. -/
def Server.moved (loc : Locale) (total : Nat) (s : Server) : Tick → Nat → Option BgWorker
  | .other _ => s.workers
  | .restart => registered total
  | .sigterm w => Function.update s.workers w ((s.workers w).map ({ · with gotSigterm := true }))
  | .wake w _ => Function.update s.workers w ((s.workers w).map ({ · with phase := .inspecting }))
  | .loop w env =>
    if s.phase w = some .inspecting then
      Function.update s.workers w
        ((s.workers w).bind (·.answered (serve loc s.queue.cluster (.loop w env)).2))
    else s.workers
  | .deadlock pid =>
    if s.queue.deadlocked pid then Function.update s.workers pid none else s.workers
  | .cancel w =>
    if s.phase w = some .inspecting then Function.update s.workers w none else s.workers

def Server.tick (loc : Locale) (total : Nat) (s : Server) (e : Tick) : Server where
  queue := Machine.after (Queue.turn loc) s.queue (s.sends total e)
  workers := s.moved loc total e

/-- The state after a list of ticks. -/
def server (loc : Locale) (total : Nat) (es : List Tick) : Server :=
  Machine.after (Server.tick loc total) (Server.empty total) es

/-- A worker begins an inspection. -/
def wakes (w : Nat) (p : Server × Tick) : Bool :=
  match p.2 with
  | .wake v _ => v = w && p.1.phase w = some .napping
  | _ => false

end WedFlow
