import WedFlow.Base.Table

/-!
# The Tables of a WED-flow

The data model of the engine: one row type per table of `WED_tables.sql`, the
attribute columns that `wed_attr` adds to three of them, and the errors a
statement can fail with.

Attribute columns are dynamic, so a row carries them as a list of name and
value pairs in column order, and each of the three tables has its own list of
columns. Only `wed_pred` admits NULL there. `wed_flow` and `wed_trace` also
keep a default for each column.

Times and intervals are microseconds. An interval is compared by its length,
which is how PostgreSQL compares them.

Left out are the columns nothing reads: names and descriptions of conditions,
the serial of `wed_attr`, and the transitions, which a trigger only names. The
unique indexes on those go with them.

## Main definitions

* `Digest`: Sixteen bytes out of a hash.
* `hexdigest`: A digest as thirty-two hexadecimal characters.
* `Locale`: What the installation's Python and PostgreSQL make of texts.
* `Db`: The contents of a database.
* `Db.empty`: A database right after the installation.
* `Error`: Why a statement failed.
* `OpenFor`: A job nobody has finished or aborted.

## Theorems

* `hexdigest_ne_exception`: No token spells the word that asks for recovery.
-/

namespace WedFlow

/-- Microseconds. -/
abbrev Time := Int

/-- The length of an interval in microseconds. -/
abbrev Interval := Int

/-- What a hash function returns: sixteen bytes. -/
structure Digest where
  bytes : List UInt8
  length_eq : bytes.length = 16
deriving DecidableEq

/-- Two hexadecimal characters for each byte. -/
def hexdigest (d : Digest) : String :=
  String.ofList (d.bytes.flatMap fun b =>
    [Nat.digitChar (b.toNat / 16), Nat.digitChar (b.toNat % 16)])

/-- What depends on the installation: Python's `str.lower` and its table of
    printable characters, PostgreSQL's `lower`, and the date it reads in a text, in a
    transaction that began at a given time. Hexadecimal digits are lower case for
    both. -/
structure Locale where
  lower : String → String
  sqlLower : String → String
  printable : Char → Bool
  timestampIn : Time → String → Option Time
  lower_hexdigest : ∀ d, lower (hexdigest d) = hexdigest d
  sqlLower_hexdigest : ∀ d, sqlLower (hexdigest d) = hexdigest d

structure AttrRow where
  name : String
  defaultValue : String
deriving DecidableEq, Repr

structure CondRow where
  cid : Int
  final : Bool
deriving DecidableEq, Repr

structure PredRow where
  pid : Int
  cid : Int
  attrs : List (String × Option String)
deriving DecidableEq, Repr

structure TrigRow where
  tgid : Int
  tgname : String
  cid : Int
  tout : Option Interval
deriving DecidableEq, Repr

structure FlowRow where
  wid : Int
  varUptkn : Option String
  attrs : List (String × String)
deriving DecidableEq, Repr

structure JobRow where
  tgid : Int
  wid : Int
  uptkn : String
  lckid : Option String
  locked : Bool
  aborted : Bool
  tout : Interval
  ti : Option Time
  tf : Option Time
deriving DecidableEq, Repr

structure StatusRow where
  wid : Int
  final : Bool
  excpt : Bool
deriving DecidableEq, Repr

structure TraceRow where
  wid : Int
  attrs : List (String × String)
  tgidWrote : Option Int
  tgidFired : Option (List Int)
  final : Bool
  excpt : Bool
  tstmp : Time
deriving DecidableEq, Repr

/-- An attribute column with its default. -/
structure Column where
  name : String
  default : String
deriving DecidableEq, Repr

/-- A notification: the channel and the payload. -/
structure Notice where
  channel : String
  payload : String
deriving DecidableEq, Repr

/-- The contents of a database, and the notifications sent so far. `lockJob`
    says whether the trigger of that name on `job_pool` is enabled. -/
structure Db where
  wedAttr : List AttrRow
  wedCond : List CondRow
  wedPred : List PredRow
  wedTrig : List TrigRow
  wedFlow : List FlowRow
  jobPool : List JobRow
  stStatus : List StatusRow
  wedTrace : List TraceRow
  flowColumns : List Column
  traceColumns : List Column
  predColumns : List String
  lockJob : Bool
  notices : List Notice
deriving DecidableEq, Repr

/-- Right after the installation: no rows, no attributes, the trigger on. -/
def Db.empty : Db where
  wedAttr := []
  wedCond := []
  wedPred := []
  wedTrig := []
  wedFlow := []
  jobPool := []
  stStatus := []
  wedTrace := []
  flowColumns := []
  traceColumns := []
  predColumns := []
  lockJob := true
  notices := []

/-- Why a statement failed. The first group is raised by the trigger functions
    themselves, the second by the tables they write to. -/
inductive Error where
  | noFinalCondition
  | conditionWithoutPredicate
  | conditionWithoutTransition
  | noPredicateMatches
  | finalState
  | jobNotFound
  | invalidWid
  | notAnException
  | pendingTransitions
  | tokenNeeded
  | widNotFound
  | alreadyLocked (uptkn : String)
  | emptyPredicate
  | columnNotInserted
  | columnNotRenamed
  | defaultNotSet
  | nothingToUpdate
  | unknownColumn
  | notNull
  | uniqueViolation
  | foreignKey
  | badStatement
deriving DecidableEq, Repr

/-- The job is one of the instance's and nobody has finished or aborted it. -/
def OpenFor (wid : Int) (j : JobRow) : Bool :=
  j.wid = wid && j.tf = none

/-- The open jobs of one trigger of one instance. -/
def OpenAt (wid tgid : Int) (j : JobRow) : Bool :=
  OpenFor wid j && j.tgid = tgid

theorem openFor_iff (wid : Int) (j : JobRow) : OpenFor wid j = true ↔ j.wid = wid ∧ j.tf = none := by
  simp only [OpenFor, Bool.and_eq_true, decide_eq_true_eq]

theorem openAt_iff (wid tgid : Int) (j : JobRow) :
    OpenAt wid tgid j = true ↔ j.wid = wid ∧ j.tf = none ∧ j.tgid = tgid := by
  simp only [OpenAt, OpenFor, Bool.and_eq_true, decide_eq_true_eq, and_assoc]

/-- The characters of a digest are hexadecimal digits. -/
theorem mem_hexdigest {d : Digest} {c : Char} (h : c ∈ (hexdigest d).toList) :
    ∃ k < 16, c = Nat.digitChar k := by
  rw [hexdigest, String.toList_ofList, List.mem_flatMap] at h
  rcases h with ⟨b, -, hb⟩
  have hlt : b.toNat < 256 := b.toNat_lt
  rcases List.mem_cons.mp hb with rfl | hb
  · exact ⟨b.toNat / 16, by omega, rfl⟩
  · exact ⟨b.toNat % 16, by omega, List.mem_singleton.mp hb⟩

/-- The word that asks for recovery has an `x` in it, and no digest does. -/
theorem hexdigest_ne_exception (d : Digest) : hexdigest d ≠ "exception" := by
  intro h
  have hx : 'x' ∈ (hexdigest d).toList := by rw [h]; decide
  rcases mem_hexdigest hx with ⟨k, hk, heq⟩
  have hall : ∀ k < 16, 'x' ≠ Nat.digitChar k := by decide
  exact hall k hk heq

theorem hexdigest_ne_empty (d : Digest) : hexdigest d ≠ "" := by
  intro h
  have hlist : (hexdigest d).toList = [] := by rw [h]; rfl
  rw [hexdigest, String.toList_ofList, List.flatMap_eq_nil_iff] at hlist
  have hne : d.bytes ≠ [] := fun hnil => absurd d.length_eq (by rw [hnil]; decide)
  rcases List.exists_mem_of_ne_nil d.bytes hne with ⟨b, hb⟩
  exact List.cons_ne_nil _ _ (hlist b hb)

end WedFlow
