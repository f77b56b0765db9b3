import WedFlow.Core.System

/-!
# Transactions

A client may run several statements in one transaction, and many transactions
may be open at a time. Two things of PostgreSQL matter then. `CURRENT_TIMESTAMP`,
which dates the rows of `wed_trace`, is the time the transaction began and not
the time of the statement. And a transaction that has written the row of an
instance keeps it locked until it commits, so the others wait.

What a transaction has written is in the tables at once. Other transactions may
act on it before the commit, which is more than PostgreSQL allows, except for the
rows that are locked. A statement that fails is undone and its transaction goes
on, as with a savepoint before every statement; a transaction that is rolled back
leaves nothing behind and is not among the transactions.

## Main definitions

* `Txn`: A transaction that is under way.
* `Store`: A database with its open transactions.
* `Act`: What a client does next.
* `wrote`: The instance a statement has written a state of.
* `Store.waits`: A statement that needs a locked row.
* `Store.input`: The statement that gets executed, if one does.
* `Store.act`, `store`: One act, and the state after a list of them.
* `statements`: The statements executed on the way.
* `starts`: When the transactions began that wrote the states of an instance.
-/

namespace WedFlow

/-- A transaction: when it began, and the instances whose rows it has written. -/
structure Txn where
  id : Nat
  start : Time
  rows : List Int

structure Store where
  db : Db
  txns : List Txn

def Store.empty : Store :=
  ⟨Db.empty, []⟩

/-- A client begins a transaction, executes a statement in one, or commits it. -/
inductive Act where
  | begins (id : Nat) (now : Time)
  | executes (id : Nat) (now : Time) (md5 : Nat → String → Digest) (op : Op)
  | commits (id : Nat)

/-- The row of `wed_flow` a statement has to lock. -/
def Op.row : Op → Option Int
  | .insertFlow wid _ _ => some wid
  | .updateFlow wid _ _ _ => some wid
  | _ => none

/-- The instance the statement has written a state of. -/
def wrote (loc : Locale) (p : Db × Input) : Option Int :=
  match p.2.op, exec loc p.2 p.1 with
  | .insertFlow wid _ _, .ok _ => some wid
  | .updateFlow wid _ _ _, .ok (_, .rows 1) => some wid
  | _, _ => none

/-- Another transaction has locked the row. -/
def Store.waits (s : Store) (id : Nat) (op : Op) : Bool :=
  s.txns.any fun t => t.id ≠ id && op.row.any fun wid => wid ∈ t.rows

/-- The statement as it is executed: dated by its transaction. -/
def Store.input (s : Store) : Act → Option Input
  | .executes id now md5 op =>
    if s.waits id op then none
    else (s.txns.find? fun t => t.id = id).map fun t => ⟨⟨now, t.start, md5⟩, op⟩
  | _ => none

/-- The transaction locks a row. -/
def Txn.hold (id : Nat) (row : Option Int) (t : Txn) : Txn :=
  if t.id = id then { t with rows := row.toList ++ t.rows } else t

/-- One act. A statement that has to wait does nothing and is tried again by a
    later act. -/
def Store.act (loc : Locale) (s : Store) (a : Act) : Store :=
  match a with
  | .begins id now =>
    if s.txns.any fun t => t.id = id then s else { s with txns := s.txns ++ [⟨id, now, []⟩] }
  | .commits id => { s with txns := s.txns.filter fun t => t.id ≠ id }
  | .executes id _ _ _ =>
    match s.input a with
    | none => s
    | some i => ⟨step loc s.db i, s.txns.map (Txn.hold id (wrote loc (s.db, i)))⟩

/-- The state after a list of acts. -/
def store (loc : Locale) (acts : List Act) : Store :=
  Machine.after (Store.act loc) Store.empty acts

/-- The statements that were executed, in order. -/
def statements (loc : Locale) (acts : List Act) : List Input :=
  (Machine.history (Store.act loc) Store.empty acts).filterMap fun p => p.1.input p.2

/-- When the transactions began that wrote the states of an instance, in the
    order in which the states were taken. -/
def starts (loc : Locale) (wid : Int) (acts : List Act) : List Time :=
  (Machine.history (Store.act loc) Store.empty acts).filterMap fun p =>
    (p.1.input p.2).bind fun i =>
      if wrote loc (p.1.db, i) = some wid then some i.env.start else none

/-- Whatever an act does to the tables is done by the statement it executes. -/
theorem Store.act_db (loc : Locale) (s : Store) (a : Act) :
    (s.act loc a).db = ((s.input a).map (step loc s.db)).getD s.db := by
  cases a with
  | begins id now =>
      dsimp only [Store.act]
      split
      · rfl
      · rfl
  | commits id => rfl
  | executes id now md5 op =>
      dsimp only [Store.act]
      cases s.input (.executes id now md5 op) with
      | none => rfl
      | some i => rfl

/-- The database of a store is that of a run of its statements. -/
theorem store_db (loc : Locale) (acts : List Act) :
    (store loc acts).db = run loc (statements loc acts) := by
  refine Machine.history_invariant (Store.act loc) (fun _ => True)
    (fun past s => s.db = run loc (past.filterMap fun p => p.1.input p.2)) Store.empty rfl ?_ acts
    (fun _ _ => trivial)
  intro past s a _ h
  rw [Store.act_db, List.filterMap_append, List.filterMap_cons, List.filterMap_nil]
  cases s.input a with
  | none =>
      rw [List.append_nil, ← h]
      rfl
  | some i =>
      rw [run_concat, ← h]
      rfl

end WedFlow
