import WedFlow.Base.PgInput
import WedFlow.Core.Attributes
import WedFlow.Core.Jobs

/-!
# The History

`wed_trace`, and what the statement of `new_trace_entry` puts there. The function pastes
names and values into a text and executes it, so it is the text that counts: which
columns it names, how many rows it has, and what stands in them. Names are folded to
lower case on the way, hence an attribute called `Final` fills the column `final`; and a
value that closes its literal goes on as a part of the statement, with other values for
the remaining columns, or with more rows.

A statement of this kind is taken if it names each of its columns once and all of them
are there, if its rows are as long as its list of columns, and if every literal is one
its column takes. Columns that are not named get their default. What else a text can be
made into, such as a second statement, an expression or a subquery, is not followed: it
is refused here. So is a row without an instance or without a date.

## Main definitions

* `asInteger`, `asBoolean`, `asText`, `asIntegers`, `asTime`: What a literal puts into a
  column, by the type of the column.
* `field`: The value of a column, or its default.
* `traceRow`: One row of the statement.
* `traceRows`: The rows that the statement for an entry inserts.
* `newTraceEntry`: Append a state to the history.
-/

namespace WedFlow

open Python (Value)
open Sql (readRows)

/-- An `INTEGER` column. -/
def asInteger : Value → Option (Option Int)
  | .int n => some (some n)
  | .str s => (Pg.integerIn s.toList).map some
  | .bool _ => none
  | .none => some none

/-- A `BOOL NOT NULL` column. -/
def asBoolean : Value → Option Bool
  | .bool b => some b
  | .str s => Pg.booleanIn s.toList
  | .int _ => none
  | .none => none

/-- A `TEXT NOT NULL` column. Numbers and booleans are written out. -/
def asText : Value → Option String
  | .str s => some s
  | .int n => some (toString n)
  | .bool b => some (if b then "true" else "false")
  | .none => none

/-- An `INTEGER[]` column. -/
def asIntegers : Value → Option (Option (List Int))
  | .str s => (Pg.integersIn s.toList).map some
  | .none => some none
  | .int _ => none
  | .bool _ => none

/-- A `TIMESTAMP` column. -/
def asTime (loc : Locale) (start : Time) : Value → Option Time
  | .str s => loc.timestampIn start s
  | _ => none

/-- The value of a column in a row, or its default if the statement does not name it. -/
def field {α : Type} (items : List (String × Value)) (c : String) (default : α)
    (cast : Value → Option α) : Option α :=
  match items.lookup c with
  | some v => cast v
  | none => some default

/-- One row of the statement, column by column. -/
def traceRow (loc : Locale) (start : Time) (columns : List Column)
    (items : List (String × Value)) : Option TraceRow := do
  let wid ← (← field items "wid" none asInteger)
  let attrs ← columns.mapM fun c => (field items c.name c.default asText).map fun v => (c.name, v)
  let tgidWrote ← field items "tgid_wrote" none asInteger
  let tgidFired ← field items "tgid_fired" none asIntegers
  let final ← field items "final" false asBoolean
  let excpt ← field items "excpt" false asBoolean
  let tstmp ← field items "tstmp" start (asTime loc start)
  return ⟨wid, attrs, tgidWrote, tgidFired, final, excpt, tstmp⟩

/-- The rows that the statement for an entry inserts. -/
def traceRows (loc : Locale) (start : Time) (columns : List Column) (e : Entry) :
    Except Error (List TraceRow) :=
  match readRows (traceText loc.printable e) with
  | none => .error .badStatement
  | some s =>
    if !(s.columns.all fun c => c ∈ traceFixed ++ columns.map (·.name)) then .error .unknownColumn
    else if ¬ s.columns.Nodup then .error .badStatement
    else if !(s.rows.all fun r => r.length = s.columns.length) then .error .badStatement
    else
      match s.rows.mapM fun r => traceRow loc start columns (s.columns.zip r) with
      | none => .error .badStatement
      | some rows => .ok rows

/-- Append an entry to the history: execute the statement. A row refers to an instance,
    and to a trigger if it names one. -/
def newTraceEntry (loc : Locale) (env : Env) (e : Entry) (db : Db) : Except Error Db := do
  let rows ← traceRows loc env.start db.traceColumns e
  if !(rows.all fun r => db.wedFlow.any fun f => f.wid = r.wid) then .error .foreignKey
  else if !(rows.all fun r => r.tgidWrote.all fun t => db.wedTrig.any fun g => g.tgid = t) then
    .error .foreignKey
  else .ok { db with wedTrace := db.wedTrace ++ rows }

end WedFlow
