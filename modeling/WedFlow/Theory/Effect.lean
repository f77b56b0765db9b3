import WedFlow.Theory.Accept

/-!
# What a Statement on `wed_flow` Does

The two statements on the table of instances, from the client's side. An insert
adds a row, its status and its first entry in the history. An update finds its
row, has its token justified, settles, and writes the row; it can neither change
the key of the row nor leave the token out.

All of it is under `Keyed`, the part of the database's invariant that the
statements themselves rely on: the row trigger is on, and tokens, instances and
their statuses have keys that match.

## Main definitions

* `Keyed`: The keys the statements rely on.
* `Validated`: The definition tables pass the three validations.
* `Justified`: What a token does and which trigger it answers for.
* `Inserts`, `Write.insert`: An insert that goes through, and its result.
* `Updates`, `Write.update`: The same for an update.

## Theorems

* `lookupToken_ok_iff`: What justifies an update.
* `insertFlow_ok_iff`: When an insert goes through, and with what.
* `updateFlow_ok_iff`: When an update does.
-/

namespace WedFlow

open Workflow (Mode)

/-- The row trigger is on, tokens and instances are unique, and every instance
    has its status. -/
structure Keyed (db : Db) : Prop where
  lockJob : db.lockJob = true
  tokens : Table.Unique (·.uptkn) db.jobPool
  flow : Table.Unique (·.wid) db.wedFlow
  status : db.stStatus.map (·.wid) = db.wedFlow.map (·.wid)

theorem Keyed.status_unique {db : Db} (hk : Keyed db) : Table.Unique (·.wid) db.stStatus := by
  unfold Table.Unique
  rw [hk.status]
  exact hk.flow

/-- There is a final condition, every condition has a predicate, and every
    other condition has a trigger. -/
structure Validated (db : Db) : Prop where
  final : wedFinalCondValidation db = true
  cond : wedCondValidation db = true
  trig : wedTrigValidation db = true

theorem kernelFunction_ok_iff (loc : Locale) (env : Env) (event : Event) (new : FlowRow)
    (db db' : Db) :
    kernelFunction loc env event new db = .ok db' ↔
      Validated db ∧ (match event with
        | .insert => kernelInsert loc env new db
        | .update => kernelUpdate loc env new db) = .ok db' := by
  unfold kernelFunction
  rw [Table.check_eq_ok, Table.check_eq_ok, Table.check_eq_ok]
  constructor
  · rintro ⟨h1, h2, h3, h⟩
    exact ⟨⟨h1, h2, h3⟩, h⟩
  · rintro ⟨hv, h⟩
    exact ⟨hv.final, hv.cond, hv.trig, h⟩

/-- Assignments name columns that are there, with values that are not NULL. -/
theorem assignFlow_ok_iff (base : List (String × String)) (vals : List (String × Option String))
    (attrs : List (String × String)) :
    assignFlow base vals = .ok attrs ↔
      (∀ a ∈ vals, a.1 ∈ base.map (·.1)) ∧ (∀ a ∈ vals, a.2.isSome) ∧
        attrs = base.map fun a => (a.1, ((vals.lookup a.1).join).getD a.2) := by
  unfold assignFlow
  rw [Table.require_eq_ok, Table.require_eq_ok, List.all_eq_true, List.all_eq_true,
    Except.ok.injEq, eq_comm]
  simp only [decide_eq_true_eq]

/-- An assignment keeps the columns. -/
theorem assignFlow_names (base : List (String × String)) (vals : List (String × Option String))
    (attrs : List (String × String)) (h : assignFlow base vals = .ok attrs) :
    attrs.map (·.1) = base.map (·.1) := by
  rw [((assignFlow_ok_iff base vals attrs).mp h).2.2, List.map_map]
  rfl

/-! ## Inserts -/

/-- The row of a new instance, before the kernel has seen it. -/
def addRow (new : FlowRow) (db : Db) : Db :=
  { db with wedFlow := db.wedFlow ++ [new] }

/-- What an accepted insert leaves. -/
def Write.insert (env : Env) (w : Write) (db : Db) : Db :=
  { w.commit env (addRow w.new db) with
    stStatus := db.stStatus ++ [⟨w.new.wid, finalFlag w.mode, excptFlag w.mode⟩] }

/-- An insert that goes through. -/
structure Inserts (loc : Locale) (env : Env) (wid : Int) (uptkn : Option String)
    (vals : List (String × Option String)) (db : Db) (w : Write) : Prop where
  attrs : assignFlow (db.flowColumns.map fun c => (c.name, c.default)) vals = .ok w.new.attrs
  wid_eq : w.new.wid = wid
  uptkn_eq : w.new.varUptkn = uptkn
  free : wid ∉ db.wedFlow.map (·.wid)
  validated : Validated db
  tgid : w.tgid = none
  mode : w.mode ≠ .exception
  settles : Settles loc env [] (addRow w.new db) w

theorem insertFlow_ok_iff (loc : Locale) (env : Env) (wid : Int) (uptkn : Option String)
    (vals : List (String × Option String)) (db db' : Db) (hk : Keyed db) :
    insertFlow loc env wid uptkn vals db = .ok db' ↔
      ∃ w, Inserts loc env wid uptkn vals db w ∧ db' = w.insert env db := by
  unfold insertFlow
  rw [Table.bind_eq_ok]
  -- The kernel is an AFTER trigger and finds the new row in the table.
  have hin : ∀ new : FlowRow, new.wid ∈ (addRow new db).wedFlow.map (·.wid) := by
    intro new
    unfold addRow
    simp only [List.map_append, List.mem_append, List.map_cons, List.map_nil, List.mem_singleton,
      or_true]
  simp only [Table.guard_eq_ok, any_iff_mem_map]
  constructor
  · intro h
    rcases h with ⟨attrs, hattrs, hfree, h⟩
    rcases (kernelFunction_ok_iff loc env _ _ _ _).mp h with ⟨hv, hi⟩
    rcases (kernelInsert_ok_iff loc env _ _ _ (hin ⟨wid, uptkn, attrs⟩)).mp hi with
      ⟨w, hnew, htg, hm, hs, -, rfl⟩
    refine ⟨w, ⟨?_, ?_, ?_, hfree, ⟨hv.1, hv.2, hv.3⟩, htg, hm, ?_⟩, ?_⟩
    · rw [hnew]
      exact hattrs
    · rw [hnew]
    · rw [hnew]
    · rw [hnew]
      exact hs
    · unfold Write.insert
      rw [hnew]
      rfl
  · intro h
    rcases h with ⟨w, hi, hdb⟩
    refine ⟨w.new.attrs, hi.attrs, hi.free, ?_⟩
    have hnew : (⟨wid, uptkn, w.new.attrs⟩ : FlowRow) = w.new := by
      rw [← hi.wid_eq, ← hi.uptkn_eq]
    rw [hnew]
    have hv := hi.validated
    refine (kernelFunction_ok_iff loc env _ _ _ _).mpr ⟨⟨hv.1, hv.2, hv.3⟩, ?_⟩
    refine (kernelInsert_ok_iff loc env _ _ _ (hin w.new)).mpr
      ⟨w, rfl, hi.tgid, hi.mode, hi.settles, ?_, hdb⟩
    change w.new.wid ∉ db.stStatus.map (·.wid)
    rw [hk.status, hi.wid_eq]
    exact hi.free

/-! ## Tokens -/

/-- What justifies an update: the token of a running job of this instance, which
    is closed, or the word that asks for recovery, in an exception. -/
inductive Justified (loc : Locale) (now : Time) (u : String) (wid : Int) (excpt : Bool) (db : Db) :
    Option Int → Db → Prop where
  | job (j : JobRow) (hne : loc.lower u ≠ "exception") (hj : j ∈ db.jobPool)
      (hrun : isRunning u j = true) (hwid : j.wid = wid) :
      Justified loc now u wid excpt db (some j.tgid) (writeJob u (completeRow now) db)
  | recovery (he : loc.lower u = "exception") (hx : excpt = true) :
      Justified loc now u wid excpt db none db

/-- The word is no job's token, so with it an update is a recovery. -/
theorem Justified.of_word {loc : Locale} {now : Time} {u : String} {wid : Int} {excpt : Bool}
    {db db' : Db} {tgid : Option Int} (h : Justified loc now u wid excpt db tgid db')
    (hu : loc.lower u = "exception") : tgid = none ∧ db' = db ∧ excpt = true := by
  cases h with
  | job j hne hj hrun hwid => exact absurd hu hne
  | recovery he hx => exact ⟨rfl, rfl, hx⟩

/-- Tokens are unique, so the lookup closes the one running job with the
    token. -/
theorem updateWhere_isRunning (u : String) (f : JobRow → JobRow) (pool : List JobRow)
    (htok : Table.Unique (·.uptkn) pool) (j : JobRow) (hj : j ∈ pool) (hrun : isRunning u j = true) :
    Table.updateWhere (isRunning u) f pool = Table.updateWhere (fun i => i.uptkn = u) f pool := by
  refine List.map_congr_left (fun i hi => ?_)
  have hju := ((isRunning_iff u j).mp hrun).1
  by_cases hiu : i.uptkn = u
  · have hij : i = j := htok.eq_of_mem hi hj (hiu.trans hju.symm)
    rw [hij, if_pos hrun, if_pos (decide_eq_true hju)]
  · have hno : ¬ isRunning u i = true := fun h => hiu ((isRunning_iff u i).mp h).1
    rw [if_neg hno, if_neg (by simpa only [decide_eq_true_eq] using hiu)]

theorem head_filter_isRunning (u : String) (pool : List JobRow)
    (htok : Table.Unique (·.uptkn) pool) (j : JobRow) (hj : j ∈ pool) (hrun : isRunning u j = true) :
    (pool.filter (isRunning u)).head? = some j := by
  have hmem : j ∈ pool.filter (isRunning u) := List.mem_filter.mpr ⟨hj, hrun⟩
  rcases hl : pool.filter (isRunning u) with _ | ⟨i, l⟩
  · rw [hl] at hmem
    exact absurd hmem List.not_mem_nil
  · have hi : i ∈ pool.filter (isRunning u) := by
      rw [hl]
      exact List.mem_cons_self
    rcases List.mem_filter.mp hi with ⟨hi, hirun⟩
    have hij : i = j := htok.eq_of_mem hi hj
      (((isRunning_iff u i).mp hirun).1.trans ((isRunning_iff u j).mp hrun).1.symm)
    rw [hij]
    rfl

/-- What justifies an update, and what its token does. -/
theorem lookupToken_ok_iff (loc : Locale) (env : Env) (u : String) (wid : Int) (excpt : Bool)
    (db db₁ : Db) (tgid : Option Int) (hk : Keyed db) :
    lookupToken loc env u wid excpt db = .ok (db₁, tgid) ↔
      Justified loc env.now u wid excpt db tgid db₁ := by
  -- The trigger was on before, so it is as before.
  have hon : ∀ pool : List JobRow,
      { db with jobPool := pool, lockJob := true } = { db with jobPool := pool } := by
    intro pool
    rw [← hk.lockJob]
  unfold lookupToken
  rw [findJob_eq]
  by_cases he : loc.lower u = "exception"
  · rw [if_neg (not_not.mpr he)]
    cases hx : excpt with
    | false =>
        simp only [Bool.false_eq_true, not_false_eq_true, if_true, reduceCtorEq, false_iff]
        intro h
        cases h with
        | job j hne => exact hne he
        | recovery _ hx => exact Bool.false_ne_true hx
    | true =>
        simp only [not_true_eq_false, if_false, Except.ok.injEq, Prod.mk.injEq]
        constructor
        · intro h
          rw [← h.1, ← h.2]
          exact .recovery he rfl
        · intro h
          cases h with
          | job j hne => exact absurd he hne
          | recovery _ _ => exact ⟨rfl, rfl⟩
  · rw [if_pos he]
    simp only [bind, Except.bind, List.head?_map]
    rcases hh : (db.jobPool.filter (isRunning u)).head? with _ | j
    · simp only [Option.map_none, reduceCtorEq, false_iff]
      intro h
      cases h with
      | job j hne hj hrun hwid =>
          rw [head_filter_isRunning u db.jobPool hk.tokens j hj hrun] at hh
          exact absurd hh (Option.some_ne_none _)
      | recovery he' _ => exact he he'
    · rcases List.mem_filter.mp (List.mem_of_mem_head? hh) with ⟨hj, hrun⟩
      have hpool := updateWhere_isRunning u (completeRow env.now) db.jobPool hk.tokens j hj hrun
      simp only [Option.map_some, hpool, hon]
      by_cases hw : wid ≠ (completeRow env.now j).wid
      · rw [if_pos hw]
        simp only [reduceCtorEq, false_iff]
        intro h
        cases h with
        | job i hne hi hirun hwid =>
            rw [head_filter_isRunning u db.jobPool hk.tokens i hi hirun] at hh
            rw [Option.some.inj hh] at hwid
            exact hw hwid.symm
        | recovery he' _ => exact he he'
      · rw [if_neg hw]
        simp only [Except.ok.injEq, Prod.mk.injEq]
        constructor
        · intro h
          rw [← h.1, ← h.2]
          exact .job j he hj hrun (not_not.mp hw).symm
        · intro h
          cases h with
          | job i hne hi hirun hwid =>
              rw [head_filter_isRunning u db.jobPool hk.tokens i hi hirun] at hh
              rw [Option.some.inj hh]
              exact ⟨rfl, rfl⟩
          | recovery he' _ => exact absurd he' he

/-! ## Updates -/

theorem getStStatus_ok_iff (wid : Int) (db : Db) (f e : Bool) (hk : Keyed db) :
    getStStatus wid db = .ok (f, e) ↔ (⟨wid, f, e⟩ : StatusRow) ∈ db.stStatus := by
  have hfind := hk.status_unique.find_eq_some_iff wid
  unfold getStStatus
  cases hs : db.stStatus.find? (fun r => r.wid = wid) with
  | none =>
      simp only [reduceCtorEq, false_iff]
      intro hm
      rw [(hfind ⟨wid, f, e⟩).mpr ⟨hm, rfl⟩] at hs
      exact absurd hs (Option.some_ne_none _)
  | some s =>
      rcases (hfind s).mp hs with ⟨hm, rfl⟩
      simp only [Except.ok.injEq, Prod.mk.injEq]
      constructor
      · intro h
        rw [← h.1, ← h.2]
        exact hm
      · intro h
        have hse : s = ⟨s.wid, f, e⟩ := hk.status_unique.eq_of_mem hm h rfl
        rw [hse]
        exact ⟨rfl, rfl⟩

/-- What an accepted update leaves, from the database in which its token has
    been spent. -/
def Write.update (env : Env) (w : Write) (db₁ : Db) : Db :=
  { setStStatus w.new.wid (finalFlag w.mode) (excptFlag w.mode) (w.commit env db₁) with
    wedFlow := Table.updateWhere (fun r => r.wid = w.new.wid) (fun _ => w.new) db₁.wedFlow }

/-- An update that goes through. -/
structure Updates (loc : Locale) (env : Env) (wid : Int) (newWid : Option Int)
    (uptkn : Option (Option String)) (vals : List (String × Option String)) (db : Db)
    (old : FlowRow) (u : String) (db₁ : Db) (w : Write) : Prop where
  mem : old ∈ db.wedFlow
  old_wid : old.wid = wid
  attrs : assignFlow old.attrs vals = .ok w.new.attrs
  key : newWid.getD wid = wid
  wid_eq : w.new.wid = wid
  token : uptkn.getD old.varUptkn = some u
  uptkn_eq : w.new.varUptkn = some u
  nonempty : u ≠ ""
  validated : Validated db
  justified : ∃ f e, (⟨wid, f, e⟩ : StatusRow) ∈ db.stStatus ∧ (f = true → e = true) ∧
    Justified loc env.now u wid e db w.tgid db₁
  settles : Settles loc env (runningTriggers wid db₁) db₁ w

/-- Spending a token leaves the instances alone. -/
theorem Justified.flow {loc : Locale} {now : Time} {u : String} {wid : Int} {excpt : Bool}
    {db db₁ : Db} {tgid : Option Int} (h : Justified loc now u wid excpt db tgid db₁) :
    db₁.wedFlow = db.wedFlow ∧ db₁.stStatus = db.stStatus ∧ db₁.wedTrace = db.wedTrace := by
  cases h with
  | job j hne hj hrun hwid => exact ⟨rfl, rfl, rfl⟩
  | recovery he hx => exact ⟨rfl, rfl, rfl⟩

theorem kernelUpdate_ok_iff (loc : Locale) (env : Env) (new : FlowRow) (db db' : Db)
    (hk : Keyed db) :
    kernelUpdate loc env new db = .ok db' ↔
      ∃ (u : String) (f e : Bool) (db₁ : Db) (w : Write), new.varUptkn = some u ∧ u ≠ "" ∧
        (⟨new.wid, f, e⟩ : StatusRow) ∈ db.stStatus ∧ (f = true → e = true) ∧
        Justified loc env.now u new.wid e db w.tgid db₁ ∧ w.new = new ∧
        Settles loc env (runningTriggers new.wid db₁) db₁ w ∧
        db' = setStStatus new.wid (finalFlag w.mode) (excptFlag w.mode) (w.commit env db₁) := by
  -- The foreign key of the trace is met because status and instance go together.
  have hflow : ∀ {f e : Bool} {u : String} {tgid : Option Int} {db₁ : Db},
      (⟨new.wid, f, e⟩ : StatusRow) ∈ db.stStatus →
      Justified loc env.now u new.wid e db tgid db₁ → new.wid ∈ db₁.wedFlow.map (·.wid) := by
    intro f e u tgid db₁ hs hj
    rw [hj.flow.1, ← hk.status]
    exact List.mem_map.mpr ⟨_, hs, rfl⟩
  unfold kernelUpdate
  rw [Table.bind_eq_ok]
  constructor
  · intro h
    rcases h with ⟨⟨f, e⟩, hst, h⟩
    have hmem := (getStStatus_ok_iff new.wid db f e hk).mp hst
    dsimp only at h
    rw [Table.guard_eq_ok] at h
    rcases h with ⟨hfin, h⟩
    have hfe : f = true → e = true := fun hf => not_not.mp (fun he => hfin ⟨hf, he⟩)
    rcases hu : new.varUptkn with _ | u
    · rw [hu] at h
      exact absurd h (nomatch ·)
    · rw [hu] at h
      dsimp only at h
      rw [Table.guard_eq_ok, Table.bind_eq_ok] at h
      rcases h with ⟨hne, ⟨db₁, tgid⟩, hlook, hset⟩
      have hj := (lookupToken_ok_iff loc env u new.wid e db db₁ tgid hk).mp hlook
      rcases (settle_ok_iff loc env new tgid db₁ db' (hflow hmem hj)).mp hset with
        ⟨w, hnew, htg, hs, hdb⟩
      refine ⟨u, f, e, db₁, w, rfl, hne, hmem, hfe, ?_, hnew, hs, hdb⟩
      rw [htg]
      exact hj
  · intro h
    rcases h with ⟨u, f, e, db₁, w, hu, hne, hmem, hfe, hj, hnew, hs, hdb⟩
    refine ⟨(f, e), (getStStatus_ok_iff new.wid db f e hk).mpr hmem, ?_⟩
    dsimp only
    rw [if_neg (fun hfin => hfin.2 (hfe hfin.1)), hu]
    dsimp only
    rw [if_neg hne, Table.bind_eq_ok]
    refine ⟨(db₁, w.tgid), (lookupToken_ok_iff loc env u new.wid e db db₁ _ hk).mpr hj, ?_⟩
    exact (settle_ok_iff loc env new w.tgid db₁ db' (hflow hmem hj)).mpr ⟨w, hnew, rfl, hs, hdb⟩

/-- An update goes through without finding a row, or it finds the row, keeps
    its key, and the kernel accepts. -/
theorem updateFlow_ok_iff (loc : Locale) (env : Env) (wid : Int) (newWid : Option Int)
    (uptkn : Option (Option String)) (vals : List (String × Option String)) (db db' : Db) (n : Nat)
    (hk : Keyed db) :
    updateFlow loc env wid newWid uptkn vals db = .ok (db', n) ↔
      (wid ∉ db.wedFlow.map (·.wid) ∧ db' = db ∧ n = 0) ∨
      (∃ old u db₁ w, Updates loc env wid newWid uptkn vals db old u db₁ w ∧
        db' = w.update env db₁ ∧ n = 1) := by
  have hfind := hk.flow.find_eq_some_iff wid
  unfold updateFlow
  cases ho : db.wedFlow.find? (fun r => r.wid = wid) with
  | none =>
      have hno := (Table.find_eq_none_iff FlowRow.wid db.wedFlow wid).mp ho
      simp only [Except.ok.injEq, Prod.mk.injEq]
      constructor
      · intro h
        exact .inl ⟨hno, h.1.symm, h.2.symm⟩
      · intro h
        rcases h with ⟨-, hdb, hn⟩ | ⟨old, u, db₁, w, hu, -, -⟩
        · exact ⟨hdb.symm, hn.symm⟩
        · exact absurd (List.mem_map.mpr ⟨old, hu.mem, hu.old_wid⟩) hno
  | some old =>
      rcases (hfind old).mp ho with ⟨hold, hwid⟩
      have hin : wid ∈ db.wedFlow.map (·.wid) := List.mem_map.mpr ⟨old, hold, hwid⟩
      simp only [hin, not_true_eq_false, false_and, false_or, Table.bind_eq_ok]
      constructor
      · intro h
        rcases h with ⟨attrs, hattrs, db₂, hker, h⟩
        rcases (kernelFunction_ok_iff loc env _ _ _ _).mp hker with ⟨hv, hup⟩
        rcases (kernelUpdate_ok_iff loc env _ _ _ hk).mp hup with
          ⟨u, f, e, db₁, w, hu, hne, hmem, hfe, hj, hnew, hs, rfl⟩
        dsimp only at hu hmem hj hs
        -- The status the kernel found is that of an instance, so a new key is taken.
        have hkey : newWid.getD wid = wid := by
          by_contra hne'
          have htaken : newWid.getD wid ∈ db.wedFlow.map (·.wid) := by
            rw [← hk.status]
            exact List.mem_map.mpr ⟨_, hmem, rfl⟩
          rw [← hj.flow.1] at htaken
          rw [if_pos ⟨hne', (any_iff_mem_map _ _ _).mpr htaken⟩] at h
          exact absurd h (by simp only [reduceCtorEq, not_false_eq_true])
        rw [if_neg (fun hc => hc.1 hkey), if_neg (fun hc => hc.1 hkey)] at h
        simp only [Except.ok.injEq, Prod.mk.injEq] at h
        rw [hkey] at hmem hj hs
        have hww : w.new.wid = wid := by
          rw [hnew]
          exact hkey
        refine ⟨old, u, db₁, w, ⟨hold, hwid, ?_, hkey, hww, hu, ?_, hne, hv, ⟨f, e, hmem, hfe, hj⟩, hs⟩,
          ?_, h.2.symm⟩
        · rw [hnew]
          exact hattrs
        · rw [hnew]
          exact hu
        · rw [← h.1]
          unfold Write.update
          rw [hww, hnew, hkey]
          rfl
      · intro h
        rcases h with ⟨old', u, db₁, w, hu, hdb, hn⟩
        have heq : old' = old := hk.flow.eq_of_mem hu.mem hold (hu.old_wid.trans hwid.symm)
        rw [heq] at hu
        rcases hu.justified with ⟨f, e, hmem, hfe, hj⟩
        have hnew : (⟨newWid.getD wid, uptkn.getD old.varUptkn, w.new.attrs⟩ : FlowRow) = w.new := by
          rw [hu.key, hu.token, ← hu.wid_eq, ← hu.uptkn_eq]
        refine ⟨w.new.attrs, hu.attrs, _, (kernelFunction_ok_iff loc env _ _ _ _).mpr
          ⟨hu.validated, (kernelUpdate_ok_iff loc env _ _ _ hk).mpr
            ⟨u, f, e, db₁, w, hu.token, hu.nonempty, ?_, hfe, ?_, hnew.symm, ?_, rfl⟩⟩, ?_⟩
        · dsimp only
          rw [hu.key]
          exact hmem
        · dsimp only
          rw [hu.key]
          exact hj
        · dsimp only
          rw [hu.key]
          exact hu.settles
        · dsimp only
          rw [if_neg (fun hc => hc.1 hu.key), if_neg (fun hc => hc.1 hu.key), hdb, hn]
          unfold Write.update
          rw [hnew, hu.wid_eq, hu.key]
          rfl

end WedFlow
