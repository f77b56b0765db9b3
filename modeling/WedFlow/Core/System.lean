import WedFlow.Base.Machine
import WedFlow.Core.Kernel

/-!
# The Database as a Machine

A client sends one statement at a time. Each statement is a transaction: it
either goes through as a whole or leaves the database as it was. The machine
below answers every statement, with a reply or with an error, and its runs
start from a fresh installation.

A statement that updates several instances is the sequence of its single
updates, and `wid` is always explicit, so that a value drawn from the serial is
one of the choices.

## Main definitions

* `Op`: The statements.
* `Op.Defines`, `Op.Restyles`: Statements on definitions, and on attributes.
* `Op.trig`: The trigger a statement defines.
* `exec`: What a statement does.
* `step`: The database after it, unchanged if it failed.
* `run`: The database after a list of statements.
* `accepted`: Whether a statement was an update that went through.
* `Access`, `access`, `accesses`: The same machine, with updates of `job_pool`
  written by hand among its inputs.
* `asciiLocale`, `clock`: An installation and its clock, to run statements with.
* `tiny`: The definition of a small flow.

## Theorems

* `step_cases`: A statement goes through or changes nothing.
* `run_invariant`: What every accepted statement keeps, every run keeps.
-/

namespace WedFlow

/-- The statements of the clients, on the instances, the jobs and the
    definition tables. -/
inductive Op where
  | insertFlow (wid : Int) (uptkn : Option String) (vals : List (String × Option String))
  | updateFlow (wid : Int) (newWid : Option Int) (uptkn : Option (Option String))
      (vals : List (String × Option String))
  | jobLock (uptkn : String) (lckid : Option String)
  | jobAbort (uptkn : String)
  | jobInspector
  | insertAttr (new : AttrRow)
  | updateAttr (name : String) (new : AttrRow)
  | insertCond (new : CondRow)
  | updateCond (cid : Int) (new : CondRow)
  | insertPred (pid cid : Int) (vals : List (String × Option String))
  | updatePred (pid newPid newCid : Int) (vals : List (String × Option String))
  | insertTrig (new : TrigRow)
  | updateTrig (tgid : Int) (new : TrigRow)
deriving DecidableEq, Repr

/-- A statement on `wed_cond`, `wed_pred` or `wed_trig`. -/
def Op.Defines : Op → Prop
  | .insertCond _ => True
  | .updateCond _ _ => True
  | .insertPred _ _ _ => True
  | .updatePred _ _ _ _ => True
  | .insertTrig _ => True
  | .updateTrig _ _ => True
  | _ => False

/-- A statement on `wed_attr`. -/
def Op.Restyles : Op → Prop
  | .insertAttr _ => True
  | .updateAttr _ _ => True
  | _ => False

/-- The trigger a statement defines. -/
def Op.trig : Op → Option TrigRow
  | .insertTrig new => some new
  | .updateTrig _ new => some new
  | _ => none

def Op.isAbort : Op → Bool
  | .jobAbort _ => true
  | _ => false

theorem Op.ne_jobAbort {op : Op} (h : op.isAbort = false) (u : String) : op ≠ .jobAbort u := by
  intro he
  rw [he] at h
  exact Bool.noConfusion h

/-- A statement with what it draws from its surroundings. -/
structure Input where
  env : Env
  op : Op

/-- The answer to a statement that went through. -/
inductive Reply where
  | done
  | rows (n : Nat)
  | bool (b : Bool)
deriving DecidableEq, Repr

/-- What a statement does to the database. -/
def exec (loc : Locale) (i : Input) (db : Db) : Except Error (Db × Reply) :=
  match i.op with
  | .insertFlow wid uptkn vals => (insertFlow loc i.env wid uptkn vals db).map (·, .done)
  | .updateFlow wid newWid uptkn vals =>
    (updateFlow loc i.env wid newWid uptkn vals db).map fun r => (r.1, .rows r.2)
  | .jobLock uptkn lckid => (jobLock i.env.now uptkn lckid db).map fun r => (r.1, .bool r.2)
  | .jobAbort uptkn => (jobAbort i.env.now uptkn db).map fun r => (r.1, .bool r.2)
  | .jobInspector => (jobInspector loc i.env db).map fun r => (r.1, .bool r.2)
  | .insertAttr new => (insertAttr loc new db).map (·, .done)
  | .updateAttr name new => (updateAttr loc name new db).map (·, .done)
  | .insertCond new => (insertCond new db).map (·, .done)
  | .updateCond cid new => (updateCond cid new db).map (·, .done)
  | .insertPred pid cid vals => (insertPred pid cid vals db).map (·, .done)
  | .updatePred pid newPid newCid vals => (updatePred pid newPid newCid vals db).map (·, .done)
  | .insertTrig new => (insertTrig new db).map (·, .done)
  | .updateTrig tgid new => (updateTrig tgid new db).map (·, .done)

/-- A statement that fails is rolled back. -/
def step (loc : Locale) (db : Db) (i : Input) : Db :=
  match exec loc i db with
  | .ok (db', _) => db'
  | .error _ => db

/-- The database a list of statements leads to. -/
def run (loc : Locale) (is : List Input) : Db :=
  Machine.after (step loc) Db.empty is

/-- The statement is an update of the instance, and the one row was updated. -/
def accepted (loc : Locale) (wid : Int) (p : Db × Input) : Bool :=
  match p.2.op, exec loc p.2 p.1 with
  | .updateFlow v _ _ _, .ok (_, .rows n) => v = wid && n = 1
  | _, _ => false

theorem accepted_iff (loc : Locale) (wid : Int) (db : Db) (i : Input) :
    accepted loc wid (db, i) = true ↔
      (∃ newWid uptkn vals, i.op = .updateFlow wid newWid uptkn vals) ∧
        ∃ db', exec loc i db = .ok (db', .rows 1) := by
  unfold accepted
  dsimp only
  constructor
  · intro h
    split at h
    next v newWid uptkn vals db' n hop hex =>
      rw [Bool.and_eq_true, decide_eq_true_eq, decide_eq_true_eq] at h
      rw [h.1] at hop
      rw [h.2] at hex
      exact ⟨⟨newWid, uptkn, vals, hop⟩, db', hex⟩
    next => exact absurd h Bool.false_ne_true
  · intro h
    rcases h with ⟨⟨newWid, uptkn, vals, hop⟩, db', hex⟩
    rw [hop, hex]
    simp only [decide_true, Bool.and_self]

/-- A statement goes through or changes nothing. -/
theorem step_cases (loc : Locale) (db : Db) (i : Input) (P : Db → Prop) (h : P db)
    (hexec : ∀ db' r, exec loc i db = .ok (db', r) → P db') : P (step loc db i) := by
  unfold step
  rcases hex : exec loc i db with e | ⟨db', r⟩
  · exact h
  · exact hexec db' r hex

theorem step_of_exec {loc : Locale} {db db' : Db} {i : Input} {r : Reply}
    (h : exec loc i db = .ok (db', r)) : step loc db i = db' := by
  unfold step
  rw [h]

/-- What holds of a fresh installation and is kept by every accepted statement
    holds after every run. -/
theorem run_invariant (loc : Locale) (ok : Input → Prop) (P : Db → Prop) (h0 : P Db.empty)
    (hstep : ∀ db i db' r, ok i → P db → exec loc i db = .ok (db', r) → P db')
    (is : List Input) (hok : ∀ i ∈ is, ok i) : P (run loc is) := by
  refine Machine.after_invariant (step loc) ok P ?_ Db.empty h0 is hok
  intro db i hi hP
  exact step_cases loc db i P hP (fun db' r => hstep db i db' r hi hP)

theorem run_append (loc : Locale) (is js : List Input) :
    run loc (is ++ js) = Machine.after (step loc) (run loc is) js :=
  Machine.after_append _ _ _ _

theorem run_concat (loc : Locale) (is : List Input) (i : Input) :
    run loc (is ++ [i]) = step loc (run loc is) i :=
  Machine.after_concat _ _ _ _

/-! ## Updates by hand -/

/-- A statement, or an update of `job_pool` that goes around the two client
    functions. -/
inductive Access where
  | statement (i : Input)
  | update (now : Time) (p : JobRow → Bool) (f : JobRow → Attempt)

/-- The database after it, unchanged if it failed. -/
def access (loc : Locale) (db : Db) : Access → Db
  | .statement i => step loc db i
  | .update now p f =>
    match updateJobs now p f db with
    | .ok (db', _) => db'
    | .error _ => db

/-- The database a list of these leads to. -/
def accesses (loc : Locale) (as : List Access) : Db :=
  Machine.after (access loc) Db.empty as

/-! ## A small flow -/

/-- Lower case for ASCII. -/
def asciiLower (s : String) : String :=
  String.ofList (s.toList.map Char.toLower)

theorem asciiLower_hexdigest (d : Digest) : asciiLower (hexdigest d) = hexdigest d := by
  have hdigit : ∀ k < 16, (Nat.digitChar k).toLower = Nat.digitChar k := by decide
  have hmap : (hexdigest d).toList.map Char.toLower = (hexdigest d).toList.map id := by
    refine List.map_congr_left (fun c hc => ?_)
    rcases mem_hexdigest hc with ⟨k, hk, rfl⟩
    exact hdigit k hk
  rw [asciiLower, hmap, List.map_id, String.ofList_toList]

/-- An installation that knows ASCII only, and of dates the words for the beginning of
    the transaction and for the zero of the clock. -/
def asciiLocale : Locale where
  lower := asciiLower
  sqlLower := asciiLower
  printable c := 32 ≤ c.toNat && c.toNat < 127
  timestampIn start s := if s = "now" then some start else if s = "epoch" then some 0 else none
  lower_hexdigest := asciiLower_hexdigest
  sqlLower_hexdigest := asciiLower_hexdigest

/-- The surroundings at time `k`: the tokens drawn then are the bytes of `k` and
    of the number of the draw. -/
def clock (k : Nat) : Env where
  now := k
  start := k
  md5 n _ := ⟨[UInt8.ofNat k, UInt8.ofNat n] ++ List.replicate 14 0, rfl⟩

/-- The token of the `n`-th draw at time `k`. -/
def tokenAt (k n : Nat) : String :=
  newUptkn (clock k) n ""

/-- A flow with one attribute: `ready` fires the two triggers, `half` the second
    of them, and `done` is final. -/
def tiny : List Input :=
  [.insertAttr ⟨"st", "ready"⟩, .insertCond ⟨1, true⟩, .insertCond ⟨2, false⟩,
    .insertCond ⟨3, false⟩, .insertPred 1 1 [("st", some "done")],
    .insertPred 2 2 [("st", some "ready")], .insertPred 3 3 [("st", some "ready")],
    .insertPred 4 3 [("st", some "half")], .insertTrig ⟨1, "left", 2, some 10⟩,
    .insertTrig ⟨2, "right", 3, some 10⟩].map (Input.mk (clock 0))

end WedFlow
