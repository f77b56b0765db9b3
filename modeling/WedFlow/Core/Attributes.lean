import WedFlow.Core.Encoder

/-!
# Attributes

`wed_attr` is a table about tables. A row inserted there becomes a column of
`wed_flow`, `wed_trace` and `wed_pred`, and an update of one renames that
column or changes its default, all through the trigger function `new_wed_attr`.

The three `ALTER TABLE` statements run in a subtransaction, so they succeed or
fail together. A column can be added or renamed to only where its name, cut to
63 bytes, is free: `wed_flow` has `wid` and `var_uptkn`, `wed_trace` and
`wed_pred` have columns of their own, and the system columns are taken
everywhere.

The update is a chain: a changed name is a rename and nothing else, and only an
unchanged name looks at the default.

## Main definitions

* `freeColumn`: A name that can be added to a table.
* `newWedAttrInsert`: The trigger function on an insert.
* `newWedAttrUpdate`: The trigger function on an update.
* `insertAttr`: An insert into `wed_attr`.
* `updateAttr`: An update of a row of `wed_attr`.
* `wedPredValidation`: The trigger function on `wed_pred`.
* `insertPred`, `updatePred`: Inserts and updates on `wed_pred`.
* `insertCond`, `updateCond`: The same on `wed_cond`.
* `insertTrig`, `updateTrig`: The same on `wed_trig`.
-/

namespace WedFlow

def flowFixed : List String := ["wid", "var_uptkn"]

def traceFixed : List String := ["wid", "tgid_wrote", "tgid_fired", "final", "excpt", "tstmp"]

def predFixed : List String := ["pid", "cid"]

def systemColumns : List String := ["tableoid", "cmax", "xmax", "cmin", "xmin", "ctid"]

/-- A name that is not empty and not taken in a table. -/
def freeColumn (fixed columns : List String) (c : String) : Bool :=
  c ≠ "" && c ∉ systemColumns && c ∉ fixed && c ∉ columns

/-- The name is free in all three tables. -/
def freeEverywhere (db : Db) (c : String) : Bool :=
  freeColumn flowFixed (db.flowColumns.map (·.name)) c &&
    freeColumn traceFixed (db.traceColumns.map (·.name)) c &&
    freeColumn predFixed db.predColumns c

theorem freeEverywhere_flow {db : Db} {c : String} (h : freeEverywhere db c = true) :
    c ∉ db.flowColumns.map (·.name) := by
  unfold freeEverywhere freeColumn at h
  simp only [Bool.and_eq_true, decide_eq_true_eq] at h
  exact h.1.1.2

theorem freeEverywhere_fixed {db : Db} {c : String} (h : freeEverywhere db c = true) :
    c ∉ traceFixed := by
  unfold freeEverywhere freeColumn at h
  simp only [Bool.and_eq_true, decide_eq_true_eq] at h
  exact h.1.2.1.2

/-- Rename one column in a list of named values. -/
def renameKey {α : Type} (o n : String) (a : String × α) : String × α :=
  (if a.1 = o then n else a.1, a.2)

def renameColumn (o n : String) (c : Column) : Column :=
  { c with name := if c.name = o then n else c.name }

def setDefault (o d : String) (c : Column) : Column :=
  { c with default := if c.name = o then d else c.default }

theorem names_renameColumn (o n : String) (cols : List Column) :
    (cols.map (renameColumn o n)).map (·.name)
      = (cols.map (·.name)).map fun m => if m = o then n else m := by
  rw [List.map_map, List.map_map]
  rfl

theorem names_setDefault (o d : String) (cols : List Column) :
    (cols.map (setDefault o d)).map (·.name) = cols.map (·.name) := by
  rw [List.map_map]
  rfl

/-- `ALTER TABLE ... ADD COLUMN` on the three tables. Rows that are already
    there get the default, or NULL in `wed_pred`. -/
def newWedAttrInsert (new : AttrRow) (db : Db) : Except Error Db :=
  let c := columnName new.name
  if freeEverywhere db c then
    .ok { db with
      flowColumns := db.flowColumns ++ [⟨c, new.defaultValue⟩]
      traceColumns := db.traceColumns ++ [⟨c, new.defaultValue⟩]
      predColumns := db.predColumns ++ [c]
      wedFlow := db.wedFlow.map fun r => { r with attrs := r.attrs ++ [(c, new.defaultValue)] }
      wedTrace := db.wedTrace.map fun r => { r with attrs := r.attrs ++ [(c, new.defaultValue)] }
      wedPred := db.wedPred.map fun r => { r with attrs := r.attrs ++ [(c, none)] } }
  else .error .columnNotInserted

/-- A changed name renames the column in the three tables. Otherwise a changed
    default is set in the two that have one. -/
def newWedAttrUpdate (old new : AttrRow) (db : Db) : Except Error Db :=
  let o := columnName old.name
  let c := columnName new.name
  if new.name ≠ old.name then
    if o ∈ db.flowColumns.map (·.name) ∧ o ∈ db.traceColumns.map (·.name) ∧ o ∈ db.predColumns ∧
        freeEverywhere db c then
      .ok { db with
        flowColumns := db.flowColumns.map (renameColumn o c)
        traceColumns := db.traceColumns.map (renameColumn o c)
        predColumns := db.predColumns.map fun n => if n = o then c else n
        wedFlow := db.wedFlow.map fun r => { r with attrs := r.attrs.map (renameKey o c) }
        wedTrace := db.wedTrace.map fun r => { r with attrs := r.attrs.map (renameKey o c) }
        wedPred := db.wedPred.map fun r => { r with attrs := r.attrs.map (renameKey o c) } }
    else .error .columnNotRenamed
  else if new.defaultValue ≠ old.defaultValue then
    if o ∈ db.flowColumns.map (·.name) ∧ o ∈ db.traceColumns.map (·.name) then
      .ok { db with
        flowColumns := db.flowColumns.map (setDefault o new.defaultValue)
        traceColumns := db.traceColumns.map (setDefault o new.defaultValue) }
    else .error .defaultNotSet
  else .error .nothingToUpdate

/-- An insert into `wed_attr`, whose names are unique up to case. -/
def insertAttr (loc : Locale) (new : AttrRow) (db : Db) : Except Error Db :=
  if db.wedAttr.any fun a => loc.sqlLower a.name = loc.sqlLower new.name then
    .error .uniqueViolation
  else newWedAttrInsert new { db with wedAttr := db.wedAttr ++ [new] }

/-- An update of the row of `wed_attr` with a given name, if there is one. -/
def updateAttr (loc : Locale) (name : String) (new : AttrRow) (db : Db) : Except Error Db :=
  match db.wedAttr.find? fun a => a.name = name with
  | none => .ok db
  | some old =>
    if db.wedAttr.any fun a => a.name ≠ name ∧ loc.sqlLower a.name = loc.sqlLower new.name then
      .error .uniqueViolation
    else
      newWedAttrUpdate old new
        { db with wedAttr := Table.updateWhere (fun a => a.name = name) (fun _ => new) db.wedAttr }

/-- A predicate value that Python takes for true: neither NULL nor empty. -/
def constrains : Option String → Bool
  | some v => v ≠ ""
  | none => false

/-- At least one attribute of a predicate row must be non-empty. -/
def wedPredValidation (new : PredRow) : Except Error Unit :=
  if new.attrs.any fun a => constrains a.2 then .ok () else .error .emptyPredicate

/-- Give every column of `wed_pred` its assigned value, or keep what it has. -/
def assignPred (base : List (String × Option String)) (vals : List (String × Option String)) :
    Except Error (List (String × Option String)) :=
  if vals.all fun a => a.1 ∈ base.map (·.1) then
    .ok (base.map fun a => (a.1, (vals.lookup a.1).getD a.2))
  else .error .unknownColumn

/-- An insert into `wed_pred`. Columns that are not assigned are NULL. -/
def insertPred (pid cid : Int) (vals : List (String × Option String)) (db : Db) :
    Except Error Db := do
  let attrs ← assignPred (db.predColumns.map fun c => (c, none)) vals
  wedPredValidation ⟨pid, cid, attrs⟩
  if db.wedPred.any fun p => p.pid = pid then .error .uniqueViolation
  else if !(db.wedCond.any fun c => c.cid = cid) then .error .foreignKey
  else .ok { db with wedPred := db.wedPred ++ [⟨pid, cid, attrs⟩] }

/-- An update of the row of `wed_pred` with a given key, if there is one. -/
def updatePred (pid newPid newCid : Int) (vals : List (String × Option String)) (db : Db) :
    Except Error Db :=
  match db.wedPred.find? fun p => p.pid = pid with
  | none => .ok db
  | some old => do
    let attrs ← assignPred old.attrs vals
    wedPredValidation ⟨newPid, newCid, attrs⟩
    if db.wedPred.any fun p => p.pid ≠ pid ∧ p.pid = newPid then .error .uniqueViolation
    else if !(db.wedCond.any fun c => c.cid = newCid) then .error .foreignKey
    else
      .ok { db with
        wedPred := Table.updateWhere (fun p => p.pid = pid) (fun _ => ⟨newPid, newCid, attrs⟩)
          db.wedPred }

/-- An insert into `wed_cond`, which has at most one final condition. -/
def insertCond (new : CondRow) (db : Db) : Except Error Db :=
  if db.wedCond.any fun c => c.cid = new.cid then .error .uniqueViolation
  else if new.final ∧ db.wedCond.any fun c => c.final then .error .uniqueViolation
  else .ok { db with wedCond := db.wedCond ++ [new] }

/-- An update of the row of `wed_cond` with a given key, if there is one. The
    key of a condition that a predicate or a trigger names cannot change. -/
def updateCond (cid : Int) (new : CondRow) (db : Db) : Except Error Db :=
  match db.wedCond.find? fun c => c.cid = cid with
  | none => .ok db
  | some _ =>
    if db.wedCond.any fun c => c.cid ≠ cid ∧ c.cid = new.cid then .error .uniqueViolation
    else if new.final ∧ db.wedCond.any fun c => c.cid ≠ cid ∧ c.final then .error .uniqueViolation
    else if new.cid ≠ cid ∧
        ((db.wedPred.any fun p => p.cid = cid) ∨ db.wedTrig.any fun t => t.cid = cid) then
      .error .foreignKey
    else
      .ok { db with wedCond := Table.updateWhere (fun c => c.cid = cid) (fun _ => new) db.wedCond }

/-- An insert into `wed_trig`. -/
def insertTrig (new : TrigRow) (db : Db) : Except Error Db :=
  if db.wedTrig.any fun t => t.tgid = new.tgid then .error .uniqueViolation
  else if !(db.wedCond.any fun c => c.cid = new.cid) then .error .foreignKey
  else .ok { db with wedTrig := db.wedTrig ++ [new] }

/-- An update of the row of `wed_trig` with a given key, if there is one. The
    key of a trigger that a job or an entry of the history names cannot
    change. -/
def updateTrig (tgid : Int) (new : TrigRow) (db : Db) : Except Error Db :=
  match db.wedTrig.find? fun t => t.tgid = tgid with
  | none => .ok db
  | some _ =>
    if db.wedTrig.any fun t => t.tgid ≠ tgid ∧ t.tgid = new.tgid then .error .uniqueViolation
    else if !(db.wedCond.any fun c => c.cid = new.cid) then .error .foreignKey
    else if new.tgid ≠ tgid ∧
        ((db.jobPool.any fun j => j.tgid = tgid) ∨
          db.wedTrace.any fun r => r.tgidWrote = some tgid) then
      .error .foreignKey
    else
      .ok { db with
        wedTrig := Table.updateWhere (fun t => t.tgid = tgid) (fun _ => new) db.wedTrig }

end WedFlow
