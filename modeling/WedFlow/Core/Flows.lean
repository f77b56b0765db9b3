import WedFlow.Core.System

/-!
# The Example Flows

The flows under `examples`, each with its workers. A `.wsql` file fills the
definition tables, and the `run_workers.sh` next to it starts a worker for each
trigger with what it has to write. Most of them are the control-flow patterns of
`wfp`; the others are the travel agency, and `ex3`, whose workers draw what they
write.

Rows are numbered by serials, and a predicate or trigger finds its condition by
name. What a worker writes is the text of a `SET` list. All of these assign
literals, or one more than the attribute has, which is a cast to integer and back.

Left out are the transitions, since a trigger only names one, and the descriptions.

## Main definitions

* `Setting`, `setList`: What a worker assigns to an attribute, and to a row.
* `Flow`: A flow and its workers.
* `Flow.statements`: What the file does.
* `Flow.orders`: What is written for a trigger.
* `Flow.condRows`, `Flow.predRows`, `Flow.trigRows`, `Flow.columns`: The tables
  afterwards.
* `travelAgency`, `xorSplitJoin`, `threadSplitMerge`, `orSplitSsm`, `orSplitMm`,
  `orSplitMmV2`, `andSplitJoin`, `andSplitOneM`, `andSplitNM`, `andSplit`,
  `orSplit`, `ex3`: The flows.
-/

namespace WedFlow

/-- What a worker assigns to an attribute: a text, or one more than it has. -/
inductive Setting where
  | text (v : String)
  | succ
deriving DecidableEq, Repr

/-- A number within the range of an `integer`. -/
def integer (n : Int) : Option Int :=
  if -2147483648 ≤ n ∧ n ≤ 2147483647 then some n else none

/-- The cast of a text. -/
def integerOf (v : String) : Option Int :=
  (Pg.integerIn v.toList).bind integer

/-- The value that is assigned, unless the cast or the sum fails. -/
def Setting.eval : Setting → String → Option String
  | .text v, _ => some v
  | .succ, old => ((integerOf old).bind fun n => integer (n + 1)).map toString

/-- The values of a `SET` list for a row. A cast that fails gives none, and as NULL
    does it fails the statement. -/
def setList (ss : List (String × Setting)) (attrs : List (String × String)) :
    List (String × Option String) :=
  ss.map fun a => (a.1, a.2.eval ((attrs.lookup a.1).getD ""))

/-- A flow: attributes with their defaults; conditions, and which one is final;
    predicates and triggers, with the name of their condition; and for each trigger
    the `SET` lists its worker chooses from. -/
structure Flow where
  attrs : List AttrRow
  conds : List (String × Bool)
  preds : List (String × List (String × String))
  trigs : List (String × String × Interval)
  workers : List (Int × List (List (String × Setting)))
deriving DecidableEq, Repr

namespace Flow

/-- The number of a condition. -/
def cid (f : Flow) (name : String) : Int :=
  f.conds.findIdx (fun c => c.1 = name) + 1

def condRows (f : Flow) : List CondRow :=
  f.conds.zipIdx.map fun p => ⟨p.2 + 1, p.1.2⟩

def predRows (f : Flow) : List PredRow :=
  f.preds.zipIdx.map fun p =>
    ⟨p.2 + 1, f.cid p.1.1, f.attrs.map fun a => (a.name, p.1.2.lookup a.name)⟩

def trigRows (f : Flow) : List TrigRow :=
  f.trigs.zipIdx.map fun p => ⟨p.2 + 1, p.1.2.1, f.cid p.1.1, some p.1.2.2⟩

def columns (f : Flow) : List Column :=
  f.attrs.map fun a => ⟨a.name, a.defaultValue⟩

/-- The `SET` lists for a trigger. -/
def orders (f : Flow) (g : Int) : List (List (String × Setting)) :=
  (f.workers.lookup g).getD []

/-- The statements of the file, with the numbers that are drawn and found. -/
def statements (f : Flow) : List Op :=
  f.attrs.map .insertAttr ++ f.condRows.map .insertCond ++
    (f.preds.zipIdx.map fun p =>
      .insertPred (p.2 + 1) (f.cid p.1.1) (p.1.2.map fun a => (a.1, some a.2))) ++
    f.trigRows.map .insertTrig

end Flow

def zeroes (names : List String) : List AttrRow :=
  names.map fun a => ⟨a, "0"⟩

def seconds (n : Nat) : Interval :=
  n * 1000000

/-- The travel agency: a request is validated, a hotel and a ticket are taken care of at
    the same time, and the request is closed. -/
def travelAgency : Flow where
  attrs := [⟨"air_ticket_id", ""⟩, ⟨"hotel_id", ""⟩, ⟨"customer_id", ""⟩, ⟨"order_id", ""⟩,
    ⟨"customer_status", "Not Validated"⟩, ⟨"air_ticket_status", "Not Requested"⟩,
    ⟨"hotel_status", "Not Requested"⟩, ⟨"order_status", "Not Requested"⟩]
  conds := [("c_new_travel_request", false), ("c_hotel_requested", false),
    ("c_air_ticket_requested", false), ("c_request_treated", false), ("c_order_finalized", true)]
  preds := [
    ("c_new_travel_request", [("order_status", "received"), ("customer_status", "not validated")]),
    ("c_hotel_requested", [("hotel_status", "requested"), ("order_status", "validated"),
      ("customer_status", "validated")]),
    ("c_air_ticket_requested", [("air_ticket_status", "requested"), ("order_status", "validated"),
      ("customer_status", "validated")]),
    ("c_request_treated", [("air_ticket_status", "purchased"), ("hotel_status", "reserved")]),
    ("c_order_finalized", [("air_ticket_status", "purchased"), ("hotel_status", "reserved"),
      ("order_status", "finalized")])]
  trigs := [("c_new_travel_request", "wed_trigger_1", seconds 10),
    ("c_hotel_requested", "wed_trigger_2", seconds 300),
    ("c_air_ticket_requested", "wed_trigger_3", seconds 300),
    ("c_request_treated", "wed_trigger_4", seconds 15)]
  workers := [
    (1, [[("customer_status", .text "validated"), ("air_ticket_status", .text "requested"),
      ("hotel_status", .text "requested"), ("order_status", .text "validated")]]),
    (2, [[("hotel_status", .text "reserved"), ("hotel_id", .text "H3333")]]),
    (3, [[("air_ticket_status", .text "purchased"), ("air_ticket_id", .text "AT7777")]]),
    (4, [[("order_status", .text "finalized")]])]

/-- One of three branches, and then the join. -/
def xorSplitJoin : Flow where
  attrs := zeroes ["d1", "d2", "d3", "d4", "d5", "d6"]
  conds := [("cb", false), ("cc", false), ("cd", false), ("cn", false), ("final", true)]
  preds := [
    ("final", [("d6", "1")]),
    ("cn", [("d3", "1"), ("d6", "0")]),
    ("cn", [("d4", "1"), ("d6", "0")]),
    ("cn", [("d5", "1"), ("d6", "0")]),
    ("cb", [("d1", "0"), ("d2", "0"), ("d3", "0")]),
    ("cc", [("d1", "1"), ("d2", "0"), ("d4", "0")]),
    ("cd", [("d1", "1"), ("d2", "1"), ("d5", "0")])]
  trigs := [("cb", "cb trigger", seconds 10), ("cc", "cc trigger", seconds 10),
    ("cd", "cd trigger", seconds 15), ("cn", "cn trigger", seconds 15)]
  workers := [
    (1, [[("d3", .text "1")]]),
    (2, [[("d4", .text "1")]]),
    (3, [[("d5", .text "1")]]),
    (4, [[("d6", .text "1")]])]

/-- Three threads that count, and then the join. -/
def threadSplitMerge : Flow where
  attrs := zeroes ["d1", "d2", "d3"]
  conds := [("cb", false), ("cn", false), ("final", true)]
  preds := [
    ("final", [("d3", "1")]),
    ("cn", [("d2", "3"), ("d3", "0")]),
    ("cb", [("d1", "1"), ("d2", "0")])]
  trigs := [("cb", "cb trigger", seconds 10), ("cb", "cb trigger", seconds 10),
    ("cb", "cb trigger", seconds 10), ("cn", "cn trigger", seconds 15)]
  workers := [
    (1, [[("d2", .succ)]]),
    (2, [[("d2", .succ)]]),
    (3, [[("d2", .succ)]]),
    (4, [[("d3", .text "1")]])]

/-- The branches that are asked for, and then the join, once. -/
def orSplitSsm : Flow where
  attrs := zeroes ["d1", "d2", "d3", "d4", "d5", "d6", "d7"]
  conds := [("cb", false), ("cc", false), ("cd", false), ("cn", false), ("final", true)]
  preds := [
    ("final", [("d7", "1")]),
    ("cn", [("d1", "1"), ("d2", "0"), ("d3", "0"), ("d4", "1"), ("d5", "0"), ("d6", "0")]),
    ("cn", [("d1", "0"), ("d2", "1"), ("d3", "0"), ("d4", "0"), ("d5", "1"), ("d6", "0")]),
    ("cn", [("d1", "0"), ("d2", "0"), ("d3", "1"), ("d4", "0"), ("d5", "0"), ("d6", "1")]),
    ("cn", [("d1", "1"), ("d2", "1"), ("d3", "0"), ("d4", "1"), ("d5", "1"), ("d6", "0")]),
    ("cn", [("d1", "1"), ("d2", "0"), ("d3", "1"), ("d4", "1"), ("d5", "0"), ("d6", "1")]),
    ("cn", [("d1", "0"), ("d2", "1"), ("d3", "1"), ("d4", "0"), ("d5", "1"), ("d6", "1")]),
    ("cn", [("d1", "1"), ("d2", "1"), ("d3", "1"), ("d4", "1"), ("d5", "1"), ("d6", "1")]),
    ("cb", [("d1", "1"), ("d4", "0"), ("d5", "0"), ("d6", "0")]),
    ("cc", [("d2", "1"), ("d4", "0"), ("d5", "0"), ("d6", "0")]),
    ("cd", [("d3", "1"), ("d4", "0"), ("d5", "0"), ("d6", "0")])]
  trigs := [("cb", "cb trigger", seconds 10), ("cc", "cc trigger", seconds 10),
    ("cd", "cd trigger", seconds 10), ("cn", "cd trigger", seconds 10)]
  workers := [
    (1, [[("d4", .text "1")]]),
    (2, [[("d5", .text "1")]]),
    (3, [[("d6", .text "1")]]),
    (4, [[("d7", .text "1")]])]

/-- The branches that are asked for, and a merge for each of them. -/
def orSplitMm : Flow where
  attrs := zeroes ["d1", "d2", "d3", "d4", "d5", "d6", "d7"]
  conds := [("cb", false), ("cc", false), ("cd", false), ("cn", false), ("final", true)]
  preds := [
    ("final", [("d1", "1"), ("d2", "1"), ("d3", "1"), ("d7", "3")]),
    ("final", [("d1", "1"), ("d2", "1"), ("d3", "0"), ("d7", "2")]),
    ("final", [("d1", "1"), ("d2", "0"), ("d3", "1"), ("d7", "2")]),
    ("final", [("d1", "0"), ("d2", "1"), ("d3", "1"), ("d7", "2")]),
    ("final", [("d1", "1"), ("d2", "0"), ("d3", "0"), ("d7", "1")]),
    ("final", [("d1", "0"), ("d2", "1"), ("d3", "0"), ("d7", "1")]),
    ("final", [("d1", "0"), ("d2", "0"), ("d3", "1"), ("d7", "1")]),
    ("cn", [("d4", "1"), ("d5", "0"), ("d6", "0")]),
    ("cn", [("d4", "0"), ("d5", "1"), ("d6", "0")]),
    ("cn", [("d4", "0"), ("d5", "0"), ("d6", "1")]),
    ("cn", [("d4", "1"), ("d5", "1"), ("d6", "0")]),
    ("cn", [("d4", "1"), ("d5", "0"), ("d6", "1")]),
    ("cn", [("d4", "0"), ("d5", "1"), ("d6", "1")]),
    ("cn", [("d4", "1"), ("d5", "1"), ("d6", "1")]),
    ("cb", [("d1", "1"), ("d4", "0"), ("d5", "0"), ("d6", "0")]),
    ("cc", [("d2", "1"), ("d4", "0"), ("d5", "0"), ("d6", "0")]),
    ("cd", [("d3", "1"), ("d4", "0"), ("d5", "0"), ("d6", "0")])]
  trigs := [("cb", "cb trigger", seconds 10), ("cc", "cc trigger", seconds 10),
    ("cd", "cd trigger", seconds 10), ("cn", "cd trigger", seconds 10)]
  workers := [
    (1, [[("d4", .text "1")]]),
    (2, [[("d5", .text "1")]]),
    (3, [[("d6", .text "1")]]),
    (4, [[("d7", .succ)]])]

/-- The same, with a merge of its own for each branch. -/
def orSplitMmV2 : Flow where
  attrs := zeroes ["d1", "d2", "d3", "d4", "n4", "d5", "n5", "d6", "n6", "d7"]
  conds := [("cb", false), ("cc", false), ("cd", false), ("cn4", false), ("cn5", false),
    ("cn6", false), ("final", true)]
  preds := [
    ("final", [("d1", "1"), ("d2", "1"), ("d3", "1"), ("d7", "3")]),
    ("final", [("d1", "1"), ("d2", "1"), ("d3", "0"), ("d7", "2")]),
    ("final", [("d1", "1"), ("d2", "0"), ("d3", "1"), ("d7", "2")]),
    ("final", [("d1", "0"), ("d2", "1"), ("d3", "1"), ("d7", "2")]),
    ("final", [("d1", "1"), ("d2", "0"), ("d3", "0"), ("d7", "1")]),
    ("final", [("d1", "0"), ("d2", "1"), ("d3", "0"), ("d7", "1")]),
    ("final", [("d1", "0"), ("d2", "0"), ("d3", "1"), ("d7", "1")]),
    ("cn4", [("d4", "1"), ("n4", "0")]),
    ("cn5", [("d5", "1"), ("n5", "0")]),
    ("cn6", [("d6", "1"), ("n6", "0")]),
    ("cb", [("d1", "1"), ("d4", "0"), ("d5", "0"), ("d6", "0")]),
    ("cc", [("d2", "1"), ("d4", "0"), ("d5", "0"), ("d6", "0")]),
    ("cd", [("d3", "1"), ("d4", "0"), ("d5", "0"), ("d6", "0")])]
  trigs := [("cb", "cb trigger", seconds 10), ("cc", "cc trigger", seconds 10),
    ("cd", "cd trigger", seconds 10), ("cn4", "cn4 trigger", seconds 10),
    ("cn5", "cn5 trigger", seconds 10), ("cn6", "cn6 trigger", seconds 10)]
  workers := [
    (1, [[("d4", .text "1")]]),
    (2, [[("d5", .text "1")]]),
    (3, [[("d6", .text "1")]]),
    (4, [[("n4", .text "1"), ("d7", .succ)]]),
    (5, [[("n5", .text "1"), ("d7", .succ)]]),
    (6, [[("n6", .text "1"), ("d7", .succ)]])]

/-- Three branches, and the join after all of them. -/
def andSplitJoin : Flow where
  attrs := zeroes ["d1", "d2", "d3", "d4", "d5"]
  conds := [("cb", false), ("cc", false), ("cd", false), ("cn", false), ("final", true)]
  preds := [
    ("final", [("d5", "1")]),
    ("cn", [("d2", "1"), ("d3", "1"), ("d4", "1")]),
    ("cb", [("d1", "1"), ("d2", "0")]),
    ("cc", [("d1", "1"), ("d3", "0")]),
    ("cd", [("d1", "1"), ("d4", "0")])]
  trigs := [("cb", "cb trigger", seconds 10), ("cc", "cc trigger", seconds 10),
    ("cd", "cd trigger", seconds 10), ("cn", "cn trigger", seconds 10)]
  workers := [
    (1, [[("d2", .text "1")]]),
    (2, [[("d3", .text "1")]]),
    (3, [[("d4", .text "1")]]),
    (4, [[("d5", .text "1")]])]

/-- Three branches, and the join after the first of them. -/
def andSplitOneM : Flow where
  attrs := zeroes ["d1", "d2", "d3", "d4", "d5"]
  conds := [("cb", false), ("cc", false), ("cd", false), ("cn", false), ("final", true)]
  preds := [
    ("final", [("d2", "1"), ("d3", "1"), ("d4", "1"), ("d5", "1")]),
    ("cn", [("d2", "1"), ("d3", "0"), ("d4", "0"), ("d5", "0")]),
    ("cn", [("d2", "0"), ("d3", "1"), ("d4", "0"), ("d5", "0")]),
    ("cn", [("d2", "0"), ("d3", "0"), ("d4", "1"), ("d5", "0")]),
    ("cb", [("d1", "1"), ("d2", "0")]),
    ("cc", [("d1", "1"), ("d3", "0")]),
    ("cd", [("d1", "1"), ("d4", "0")])]
  trigs := [("cb", "cb trigger", seconds 10), ("cc", "cc trigger", seconds 10),
    ("cd", "cd trigger", seconds 10), ("cn", "cn trigger", seconds 10)]
  workers := [
    (1, [[("d2", .text "1")]]),
    (2, [[("d3", .text "1")]]),
    (3, [[("d4", .text "1")]]),
    (4, [[("d5", .text "1")]])]

/-- Three branches, and the join after two of them. -/
def andSplitNM : Flow where
  attrs := zeroes ["d1", "d2", "d3", "d4", "d5"]
  conds := [("cb", false), ("cc", false), ("cd", false), ("cn", false), ("final", true)]
  preds := [
    ("final", [("d2", "1"), ("d3", "1"), ("d4", "1"), ("d5", "1")]),
    ("cn", [("d2", "1"), ("d3", "0"), ("d4", "1"), ("d5", "0")]),
    ("cn", [("d2", "1"), ("d3", "1"), ("d4", "0"), ("d5", "0")]),
    ("cn", [("d2", "0"), ("d3", "1"), ("d4", "1"), ("d5", "0")]),
    ("cb", [("d1", "1"), ("d2", "0")]),
    ("cc", [("d1", "1"), ("d3", "0")]),
    ("cd", [("d1", "1"), ("d4", "0")])]
  trigs := [("cb", "cb trigger", seconds 10), ("cc", "cc trigger", seconds 10),
    ("cd", "cd trigger", seconds 10), ("cn", "cn trigger", seconds 10)]
  workers := [
    (1, [[("d2", .text "1")]]),
    (2, [[("d3", .text "1")]]),
    (3, [[("d4", .text "1")]]),
    (4, [[("d5", .text "1")]])]

/-- Three branches. -/
def andSplit : Flow where
  attrs := zeroes ["d1", "d2", "d3", "d4"]
  conds := [("cb", false), ("cc", false), ("cd", false), ("final", true)]
  preds := [
    ("final", [("d2", "1"), ("d3", "1"), ("d4", "1")]),
    ("cb", [("d1", "1"), ("d2", "0")]),
    ("cc", [("d1", "1"), ("d3", "0")]),
    ("cd", [("d1", "1"), ("d4", "0")])]
  trigs := [("cb", "cb trigger", seconds 10), ("cc", "cc trigger", seconds 10),
    ("cd", "cd trigger", seconds 10)]
  workers := [
    (1, [[("d2", .text "1")]]),
    (2, [[("d3", .text "1")]]),
    (3, [[("d4", .text "1")]])]

/-- The branches that are asked for. -/
def orSplit : Flow where
  attrs := zeroes ["d1", "d2", "d3", "d4", "d5", "d6"]
  conds := [("cb", false), ("cc", false), ("cd", false), ("final", true)]
  preds := [
    ("final", [("d4", "1"), ("d5", "1"), ("d6", "1")]),
    ("cb", [("d1", "0"), ("d4", "0"), ("d5", "0"), ("d6", "0")]),
    ("cc", [("d2", "0"), ("d4", "0"), ("d5", "0"), ("d6", "0")]),
    ("cd", [("d3", "0"), ("d4", "0"), ("d5", "0"), ("d6", "0")])]
  trigs := [("cb", "cb trigger", seconds 10), ("cc", "cc trigger", seconds 10),
    ("cd", "cd trigger", seconds 10)]
  workers := [
    (1, [[("d4", .text "1")]]),
    (2, [[("d5", .text "1")]]),
    (3, [[("d6", .text "1")]])]

/-- Two transitions that may fail, and two ways to end. -/
def ex3 : Flow where
  attrs := [⟨"a2", ""⟩, ⟨"a3", ""⟩, ⟨"a1", "init"⟩]
  conds := [("init", false), ("a2_ready", false), ("a3_ready", false), ("done_well", false),
    ("done_bad", false), ("final", true)]
  preds := [
    ("final", [("a1", "stopped")]),
    ("final", [("a1", "finished")]),
    ("init", [("a1", "init")]),
    ("a2_ready", [("a1", "started"), ("a2", "ready")]),
    ("a3_ready", [("a1", "started"), ("a3", "ready")]),
    ("done_well", [("a2", "done"), ("a3", "done")]),
    ("done_bad", [("a2", "error"), ("a3", "done")]),
    ("done_bad", [("a2", "done"), ("a3", "error")])]
  trigs := [("init", "initial trigger", seconds 10), ("a2_ready", "a2 trigger", seconds 10),
    ("a3_ready", "a3 trigger", seconds 10), ("done_well", "final trigger (well)", seconds 15),
    ("done_bad", "final trigger (bad)", seconds 15)]
  workers := [
    (1, [[("a1", .text "started"), ("a2", .text "ready"), ("a3", .text "ready")]]),
    (2, [[("a2", .text "done")], [("a2", .text "error")]]),
    (3, [[("a3", .text "done")], [("a3", .text "error")]]),
    (4, [[("a1", .text "finished")]]),
    (5, [[("a1", .text "stopped")]])]

end WedFlow
