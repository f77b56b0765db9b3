import WedFlow.Base.Machine
import WedFlow.Base.SqlText
import WedFlow.Core.Preload

/-!
# Installation and Removal

`winstall.sh` and `wremove.sh`, which set up a database with its user and its
worker, and take them away again. Each is a list of commands for the server around
one of the worker scripts.

Names reach the server in two ways. In a statement a name stands without quotes, so
it is folded to lower case. As the database `psql` is to connect to, and in the name
of the worker, it stands as it was given; the server cuts it in the first case.

A statement fails or has its effect. The scripts look at some of the outcomes and
not at others, and `attempt` is for the others. A statement that reads as something
else altogether, because of what is in a name, fails here.

Privileges matter because they hold a role: one that has any left cannot be dropped.
There are those on a database itself, which every database can take back, and those
on what is inside one, which only that one can.

## Main definitions

* `databaseName`, `roleName`: What a name in a statement is.
* `connectName`: What a name on the command line of `psql` is.
* `Host`: The databases, roles and privileges of a server, and its configuration.
* `createDatabase`, `dropDatabase`, `createRole`, `dropRole`, `dropOwned`,
  `grantConnect`, `installFlow`, `grantTables`: The statements.
* `winstall`, `wremove`: The scripts.
* `Invocation`, `invoke`, `administer`: A script with its arguments, and any number of them.
-/

namespace WedFlow

open Lines (Listing)
open Sql (Token scan)

/-! ## Names -/

/-- The tokens of a word in a statement that ends after it. -/
def wordTokens (word : String) : Option (List Token) :=
  scan .normal (word.toList ++ [' ', ';'])

/-- The database a word in a statement names. -/
def databaseName (word : String) : Option String :=
  match wordTokens word with
  | some [t, .self ';'] => Sql.columnOf t
  | _ => none

/-- The database that `psql` connects to with `-d`. The server keeps the first 63 bytes,
    be it in the middle of a character, and then no database has the name. -/
def connectName (db : String) : Option String :=
  let name := Sql.truncateIdentifier db.toList
  if name = db.toList ∨ (name.map Char.utf8Size).sum = 63 then some (String.ofList name) else none

/-- Keywords that are refused as the name of a column but not of a role. -/
def typeFuncNames : List String :=
  ["authorization", "binary", "collation", "concurrently", "cross", "current_schema", "freeze",
   "full", "ilike", "inner", "is", "isnull", "join", "left", "like", "natural", "notnull", "outer",
   "overlaps", "right", "similar", "verbose"]

/-- The role it names. -/
def roleName (word : String) : Option String :=
  match wordTokens word with
  | some [.ident w, .self ';'] =>
    if String.ofList w ∈ Sql.reserved ∧ String.ofList w ∉ typeFuncNames then none
    else some (String.ofList w)
  | some [.quoted w, .self ';'] => some (String.ofList w)
  | _ => none

/-- The password between its quotes is a string. -/
def passwordReads (pass : String) : Bool :=
  match scan .normal ('\'' :: (pass.toList ++ ['\'', ' ', ';'])) with
  | some [.sconst _, .self ';'] => true
  | _ => false

/-! ## The server -/

/-- Databases, the ones among them with the tables of a WED-flow, roles, who may
    connect to which database, who has privileges inside which, and the text of the
    configuration. -/
structure Host where
  databases : List String
  flows : List String
  roles : List String
  connects : List (String × String)
  granted : List (String × String)
  conf : List Char
deriving DecidableEq, Repr

/-- The database that `psql` connects to unless it is told otherwise, and the role
    it connects as. -/
def postgres : String :=
  "postgres"

def createDatabase (db : String) (h : Host) : Option Host :=
  (databaseName db).bind fun d =>
    if h.databases.contains d then none else some { h with databases := h.databases ++ [d] }

/-- With a database goes all that is in it. A template cannot be dropped, nor the
    database one is connected to. -/
def dropDatabase (current db : String) (h : Host) : Option Host :=
  (databaseName db).bind fun d =>
    if h.databases.contains d && d ≠ current && d ≠ "template0" && d ≠ "template1" then
      some { h with
        databases := h.databases.filter (· ≠ d)
        flows := h.flows.filter (· ≠ d)
        connects := h.connects.filter (·.2 ≠ d)
        granted := h.granted.filter (·.2 ≠ d) }
    else none

def createRole (user pass : String) (h : Host) : Option Host :=
  (roleName user).bind fun r =>
    if h.roles.contains r || r = "public" || r = "none" || !passwordReads pass then none
    else some { h with roles := h.roles ++ [r] }

/-- A role goes only if nothing refers to it. -/
def dropRole (user : String) (h : Host) : Option Host :=
  (roleName user).bind fun r =>
    if h.roles.contains r && r ≠ postgres && !(h.connects ++ h.granted).any (·.1 = r) then
      some { h with roles := h.roles.filter (· ≠ r) }
    else none

/-- Privileges on databases are taken back, and those inside the database one is
    connected to. -/
def dropOwned (current user : String) (h : Host) : Option Host :=
  (roleName user).bind fun r =>
    if h.roles.contains r && r ≠ postgres then
      some { h with
        connects := h.connects.filter (·.1 ≠ r)
        granted := h.granted.filter (· ≠ (r, current)) }
    else none

def grantConnect (db user : String) (h : Host) : Option Host :=
  match databaseName db, roleName user with
  | some d, some r =>
    if h.databases.contains d && h.roles.contains r then
      some { h with connects := (h.connects.filter (· ≠ (r, d))) ++ [(r, d)] }
    else none
  | _, _ => none

/-- `psql -d db -f WED-flow.sql`. What fails in a file is passed over, so the status
    is that of the connection. -/
def installFlow (db : String) (h : Host) : Option Host :=
  (connectName db).bind fun c =>
    if h.databases.contains c then some { h with flows := h.flows.filter (· ≠ c) ++ [c] } else none

/-- `psql -d db -f tmp_priv`. -/
def grantTables (db user : String) (h : Host) : Option Host :=
  match connectName db, roleName user with
  | some c, some r =>
    if h.databases.contains c && h.roles.contains r then
      some { h with granted := (h.granted.filter (· ≠ (r, c))) ++ [(r, c)] }
    else none
  | _, _ => none

/-- A command whose status nobody looks at. -/
def attempt (f : Host → Option Host) (h : Host) : Host :=
  (f h).getD h

/-! ## The scripts -/

/-- The worker of a database. -/
def workerName (db : String) : List Char :=
  db.toList ++ "_worker".toList

/-- What is done when the worker could not be registered. All of it is done from
    inside the database. -/
def withdraw (db user : String) (h : Host) : Host :=
  match connectName db with
  | none => h
  | some c =>
    if h.databases.contains c then
      attempt (dropRole user) (attempt (dropDatabase c db) (attempt (dropOwned c user) h))
    else h

/-- The part of `winstall.sh` after the user is there. If `psql` cannot connect, the
    database and the user are dropped, and the script goes on. -/
def setUp (order : Listing (List Char) (List Char)) (db user : String) (h : Host) : Nat × Host :=
  let h₁ := attempt (grantConnect db user) h
  let h₂ := (installFlow db h₁).getD
    (attempt (dropRole user) (attempt (dropDatabase postgres db) h₁))
  let h₃ := attempt (grantTables db user) h₂
  let e := pgWorkerRegister order (workerName db) h₃.conf
  if e.status ≠ 0 then (0, withdraw db user h₃)
  else (0, { h₃ with conf := e.file })

/-- `winstall.sh`, once its arguments are accepted. -/
def winstall (order : Listing (List Char) (List Char)) (db user pass : String) (h : Host) :
    Nat × Host :=
  match createDatabase db h with
  | none => (1, h)
  | some h₁ =>
    match createRole user pass h₁ with
    | none => (1, attempt (dropDatabase postgres db) h₁)
    | some h₂ => setUp order db user h₂

/-- `wremove.sh`, once its arguments are accepted. -/
def wremove (order : Listing (List Char) (List Char)) (db user : String) (h : Host) : Nat × Host :=
  let e := pgWorkerUnregister order (workerName db) h.conf
  if e.status = 0 then
    let h₁ := attempt (dropOwned postgres user) { h with conf := e.file }
    (0, attempt (dropRole user) (attempt (dropDatabase postgres db) h₁))
  else (0, h)

/-- A script as it is called: how many arguments there are, who calls it, whether
    the file is there and, for an installation, the password and whether it was
    confirmed. -/
structure Invocation where
  remove : Bool
  db : String
  user : String
  argc : Nat
  uid : Nat
  isFile : Bool
  pass : String
  confirmed : Bool
  order : Listing (List Char) (List Char)

/-- The checks at the beginning. The number of arguments is compared as a text. -/
def Invocation.accepted (c : Invocation) : Bool :=
  !decide (toString c.argc < "3") && c.uid = 0 && c.isFile && (c.remove || c.confirmed)

def invoke (h : Host) (c : Invocation) : Nat × Host :=
  if c.accepted then
    if c.remove then wremove c.order c.db c.user h else winstall c.order c.db c.user c.pass h
  else (1, h)

/-- The server after any number of calls. -/
def administer (h : Host) (cs : List Invocation) : Host :=
  Machine.after (fun h c => (invoke h c).2) h cs

end WedFlow
