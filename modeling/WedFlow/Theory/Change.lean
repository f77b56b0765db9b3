import WedFlow.Theory.Effect

/-!
# Everything a Statement Can Do

The invariant of the database, and the list of all that can happen to it. The
list is `Change`: one case for each way in which a statement goes through, with
the checks it passed and the database it leaves. `exec_change` says that the
list is complete, and every later proof about steps is a case analysis of it.

The heart of the invariant is about the open jobs. For one instance and one
trigger there is at most one of them, and there is none at all for an instance
whose status is final. Neither is written down in any table as a constraint.

## Main definitions

* `openKeys`: The instances and triggers of the open jobs.
* `PoolInv`, `Inv`: The invariant.
* `Defined`: What statements on the definition tables do.
* `Redefined`: What that comes to for everything else.
* `Restyled`: What changes of the attributes come to.
* `Change`: What a statement that goes through did.

## Theorems

* `openKeys_append`, `openKeys_freshJobs`, `openKeys_closed`,
  `openKeys_same`: Open jobs after the writes of `job_pool`.
* `exec_change`: Every statement that goes through is in the list.
-/

namespace WedFlow

open Workflow (Mode)

/-! ## Open jobs -/

/-- The instances and triggers of the open jobs, in order. -/
def openKeys (pool : List JobRow) : List (Int × Int) :=
  (pool.filter fun j => j.tf = none).map fun j => (j.wid, j.tgid)

theorem mem_openKeys (pool : List JobRow) (wid tgid : Int) :
    (wid, tgid) ∈ openKeys pool ↔ ∃ j ∈ pool, j.tf = none ∧ j.wid = wid ∧ j.tgid = tgid := by
  unfold openKeys
  simp only [List.mem_map, List.mem_filter, decide_eq_true_eq, Prod.mk.injEq, and_assoc]

theorem openKeys_append (pool jobs : List JobRow) :
    openKeys (pool ++ jobs) = openKeys pool ++ openKeys jobs := by
  unfold openKeys
  rw [List.filter_append, List.map_append]

/-- New jobs are open. -/
theorem openKeys_freshJobs (env : Env) (n : Nat) (rs : List Request) :
    openKeys (freshJobs env n rs) = rs.map fun r => (r.wid, r.tgid) := by
  unfold openKeys
  rw [List.filter_eq_self.mpr, map_freshJobs]
  intro j hj
  rcases mem_freshJobs env n rs j hj with ⟨r, -, m, rfl⟩
  rfl

/-- A write that closes what it touches leaves the open jobs it did not
    select. -/
theorem openKeys_closed (p : JobRow → Bool) (f : JobRow → JobRow) (pool : List JobRow)
    (hf : ∀ j, (f j).tf ≠ none) :
    openKeys (Table.updateWhere p f pool) = openKeys (pool.filter fun j => !p j) := by
  unfold openKeys Table.updateWhere
  induction pool with
  | nil => rfl
  | cons j js ih =>
      rw [List.map_cons]
      by_cases hp : p j = true
      · rw [if_pos hp, List.filter_cons_of_neg (by simpa only [decide_eq_true_eq] using hf j),
          List.filter_cons_of_neg (by simp only [hp, Bool.not_true, Bool.false_eq_true,
            not_false_eq_true]), ih]
      · rw [if_neg hp, List.filter_cons_of_pos (p := fun j => !p j)
          (by simpa only [Bool.not_eq_true', Bool.not_eq_true] using hp)]
        by_cases ht : j.tf = none
        · rw [List.filter_cons_of_pos (by simpa only [decide_eq_true_eq] using ht),
            List.filter_cons_of_pos (by simpa only [decide_eq_true_eq] using ht), List.map_cons,
            List.map_cons, ih]
        · rw [List.filter_cons_of_neg (by simpa only [decide_eq_true_eq] using ht),
            List.filter_cons_of_neg (by simpa only [decide_eq_true_eq] using ht), ih]

/-- A write that neither opens nor closes leaves the open jobs. -/
theorem openKeys_same (p : JobRow → Bool) (f : JobRow → JobRow) (pool : List JobRow)
    (hf : ∀ j, (f j).tf = j.tf ∧ (f j).wid = j.wid ∧ (f j).tgid = j.tgid) :
    openKeys (Table.updateWhere p f pool) = openKeys pool := by
  unfold openKeys Table.updateWhere
  induction pool with
  | nil => rfl
  | cons j js ih =>
      rw [List.map_cons]
      have hj : (if p j = true then f j else j).tf = j.tf ∧
          ((if p j = true then f j else j).wid, (if p j = true then f j else j).tgid)
            = (j.wid, j.tgid) := by
        by_cases hp : p j = true
        · rw [if_pos hp, (hf j).1, (hf j).2.1, (hf j).2.2]
          exact ⟨rfl, rfl⟩
        · rw [if_neg hp]
          exact ⟨rfl, rfl⟩
      by_cases ht : j.tf = none
      · rw [List.filter_cons_of_pos (by rw [hj.1, decide_eq_true_eq]; exact ht),
          List.filter_cons_of_pos (by rw [decide_eq_true_eq]; exact ht), List.map_cons,
          List.map_cons, ih, hj.2]
      · rw [List.filter_cons_of_neg (by rw [hj.1, decide_eq_true_eq]; exact ht),
          List.filter_cons_of_neg (by rw [decide_eq_true_eq]; exact ht), ih]

theorem openKeys_sublist (p : JobRow → Bool) (pool : List JobRow) :
    (openKeys (pool.filter p)).Sublist (openKeys pool) :=
  (List.Sublist.filter _ List.filter_sublist).map _

/-- The triggers that run for an instance. -/
theorem mem_runningTriggers (wid tgid : Int) (db : Db) :
    tgid ∈ runningTriggers wid db ↔ (wid, tgid) ∈ openKeys db.jobPool := by
  rw [mem_openKeys]
  unfold runningTriggers
  simp only [List.mem_map, List.mem_filter, openFor_iff]
  constructor
  · intro h
    rcases h with ⟨j, ⟨hj, hw, ht⟩, hg⟩
    exact ⟨j, hj, ht, hw, hg⟩
  · intro h
    rcases h with ⟨j, hj, ht, hw, hg⟩
    exact ⟨j, ⟨hj, hw, ht⟩, hg⟩

/-! ## The invariant -/

/-- What is true of the job pool, given the triggers and instances there
    are. -/
structure PoolInv (trigs wids : List Int) (pool : List JobRow) : Prop where
  tokens : Table.Unique (·.uptkn) pool
  digest : ∀ j ∈ pool, ∃ d, j.uptkn = hexdigest d
  flow : ∀ j ∈ pool, j.wid ∈ wids
  trig : ∀ j ∈ pool, j.tgid ∈ trigs
  -- An open job is not aborted, and has a lock time exactly if it is locked.
  phase : ∀ j ∈ pool, j.tf = none → j.aborted = false ∧ (j.locked = true ↔ j.ti ≠ none)
  -- Only locked jobs are ever closed.
  closed : ∀ j ∈ pool, j.tf ≠ none → j.locked = true
  -- One open job for one trigger of one instance.
  single : (openKeys pool).Nodup

/-- What is true of every database a run leads to. -/
structure Inv (db : Db) : Prop where
  lockJob : db.lockJob = true
  flow : Table.Unique (·.wid) db.wedFlow
  status : db.stStatus.map (·.wid) = db.wedFlow.map (·.wid)
  trig : Table.Unique (·.tgid) db.wedTrig
  pool : PoolInv (db.wedTrig.map (·.tgid)) (db.wedFlow.map (·.wid)) db.jobPool
  trace : ∀ r ∈ db.wedTrace, r.wid ∈ db.wedFlow.map (·.wid)
  -- No open job in a final state.
  quiet : ∀ s ∈ db.stStatus, s.final = true → ∀ g, (s.wid, g) ∉ openKeys db.jobPool
  excpt : ∀ s ∈ db.stStatus, s.excpt = true → s.final = true
  -- No attribute has the name of a column that the history has of its own.
  free : ∀ c ∈ db.traceColumns, c.name ∉ traceFixed

theorem Inv.keyed {db : Db} (hi : Inv db) : Keyed db :=
  ⟨hi.lockJob, hi.pool.tokens, hi.flow, hi.status⟩

theorem inv_empty : Inv Db.empty where
  lockJob := rfl
  flow := List.nodup_nil
  status := rfl
  trig := List.nodup_nil
  pool := ⟨List.nodup_nil, fun _ hj => absurd hj List.not_mem_nil,
    fun _ hj => absurd hj List.not_mem_nil, fun _ hj => absurd hj List.not_mem_nil,
    fun _ hj => absurd hj List.not_mem_nil, fun _ hj => absurd hj List.not_mem_nil,
    List.nodup_nil⟩
  trace := fun _ hr => absurd hr List.not_mem_nil
  quiet := fun _ hs => absurd hs List.not_mem_nil
  excpt := fun _ hs => absurd hs List.not_mem_nil
  free := fun _ hc => absurd hc List.not_mem_nil

/-- The open job of a trigger of an instance, if there is one, is the only
    one. -/
theorem PoolInv.eq_of_open {trigs wids : List Int} {pool : List JobRow}
    (hp : PoolInv trigs wids pool) {i j : JobRow} (him : i ∈ pool) (hjm : j ∈ pool)
    (hit : i.tf = none) (hjt : j.tf = none) (hw : i.wid = j.wid) (hg : i.tgid = j.tgid) :
    i = j := by
  have hu : Table.Unique (fun j : JobRow => (j.wid, j.tgid))
      (pool.filter fun j => j.tf = none) := hp.single
  refine hu.eq_of_mem ?_ ?_ (by rw [hw, hg])
  · exact List.mem_filter.mpr ⟨him, decide_eq_true hit⟩
  · exact List.mem_filter.mpr ⟨hjm, decide_eq_true hjt⟩

/-! ## Definitions and attributes -/

/-- The definitions have changed and nothing else, no trigger with a job has
    lost its key, and the triggers are old ones or the one in the statement. -/
structure Redefined (op : Op) (db db' : Db) : Prop where
  same : db' = { db with
    wedCond := db'.wedCond
    wedPred := db'.wedPred
    wedTrig := db'.wedTrig }
  trig : Table.Unique (·.tgid) db.wedTrig → Table.Unique (·.tgid) db'.wedTrig
  used : ∀ j ∈ db.jobPool, j.tgid ∈ db.wedTrig.map (·.tgid) → j.tgid ∈ db'.wedTrig.map (·.tgid)
  origin : ∀ t ∈ db'.wedTrig, t ∈ db.wedTrig ∨ op.trig = some t

/-- What a statement on the attributes did: it added a column, found no attribute
    of that name, renamed a column, or set a default. -/
inductive Restyled (db : Db) : Op → Db → Prop where
  | add (new : AttrRow) (hfree : freeEverywhere db (columnName new.name) = true) :
      Restyled db (.insertAttr new) { db with
        wedAttr := db.wedAttr ++ [new]
        flowColumns := db.flowColumns ++ [⟨columnName new.name, new.defaultValue⟩]
        traceColumns := db.traceColumns ++ [⟨columnName new.name, new.defaultValue⟩]
        predColumns := db.predColumns ++ [columnName new.name]
        wedFlow := db.wedFlow.map fun r =>
          { r with attrs := r.attrs ++ [(columnName new.name, new.defaultValue)] }
        wedTrace := db.wedTrace.map fun r =>
          { r with attrs := r.attrs ++ [(columnName new.name, new.defaultValue)] }
        wedPred := db.wedPred.map fun r => { r with attrs := r.attrs ++ [(columnName new.name, none)] } }
  | missing (name : String) (new : AttrRow) : Restyled db (.updateAttr name new) db
  | rename (name : String) (old new : AttrRow) (attrs : List AttrRow)
      (hfree : freeEverywhere db (columnName new.name) = true) :
      Restyled db (.updateAttr name new) { db with
        wedAttr := attrs
        flowColumns := db.flowColumns.map (renameColumn (columnName old.name) (columnName new.name))
        traceColumns := db.traceColumns.map
          (renameColumn (columnName old.name) (columnName new.name))
        predColumns := db.predColumns.map fun n =>
          if n = columnName old.name then columnName new.name else n
        wedFlow := db.wedFlow.map fun r =>
          { r with attrs := r.attrs.map (renameKey (columnName old.name) (columnName new.name)) }
        wedTrace := db.wedTrace.map fun r =>
          { r with attrs := r.attrs.map (renameKey (columnName old.name) (columnName new.name)) }
        wedPred := db.wedPred.map fun r =>
          { r with attrs := r.attrs.map (renameKey (columnName old.name) (columnName new.name)) } }
  | setDefault (name : String) (old new : AttrRow) (attrs : List AttrRow) :
      Restyled db (.updateAttr name new) { db with
        wedAttr := attrs
        flowColumns := db.flowColumns.map (setDefault (columnName old.name) new.defaultValue)
        traceColumns := db.traceColumns.map (setDefault (columnName old.name) new.defaultValue) }

theorem map_attrs_id (db : Db) :
    db = { db with
      wedFlow := db.wedFlow.map fun r => { r with attrs := id r.attrs }
      wedTrace := db.wedTrace.map fun r => { r with attrs := id r.attrs } } := by
  simp only [id_eq, List.map_id']

/-- The attributes of instances and histories have changed alike, and the
    columns with them. -/
theorem Restyled.same {db db' : Db} {op : Op} (h : Restyled db op db') :
    ∃ f : List (String × String) → List (String × String), db' = { db with
      wedAttr := db'.wedAttr
      flowColumns := db'.flowColumns
      traceColumns := db'.traceColumns
      predColumns := db'.predColumns
      wedPred := db'.wedPred
      wedFlow := db.wedFlow.map fun r => { r with attrs := f r.attrs }
      wedTrace := db.wedTrace.map fun r => { r with attrs := f r.attrs } } := by
  cases h with
  | add new hfree => exact ⟨fun a => a ++ [(columnName new.name, new.defaultValue)], rfl⟩
  | missing name new => exact ⟨id, map_attrs_id db⟩
  | rename name old new attrs hfree =>
      exact ⟨fun a => a.map (renameKey (columnName old.name) (columnName new.name)), rfl⟩
  | setDefault name old new attrs =>
      refine ⟨id, ?_⟩
      simp only [id_eq, List.map_id']

theorem Redefined.of_cond (op : Op) (db : Db) (c : List CondRow) :
    Redefined op db { db with wedCond := c } :=
  ⟨rfl, id, fun _ _ h => h, fun _ h => .inl h⟩

theorem Redefined.of_pred (op : Op) (db : Db) (p : List PredRow) :
    Redefined op db { db with wedPred := p } :=
  ⟨rfl, id, fun _ _ h => h, fun _ h => .inl h⟩

/-- A statement that is acknowledged has no other reply. -/
theorem acknowledged {x : Except Error Db} {db' : Db} {r : Reply}
    (h : x.map (fun d => (d, Reply.done)) = .ok (db', r)) : x = .ok db' ∧ r = .done := by
  rcases (Table.map_eq_ok _ _ _).mp h with ⟨d, hd, he⟩
  rcases Prod.mk.inj he with ⟨rfl, rfl⟩
  exact ⟨hd, rfl⟩

/-- What a statement on the definition tables did: it wrote one of them, or found no
    row with the key. -/
inductive Defined (db : Db) : Op → Db → Prop where
  | missing (op : Op) : Defined db op db
  | cond (op : Op) (c : List CondRow) : Defined db op { db with wedCond := c }
  | insertPred (pid cid : Int) (vals attrs : List (String × Option String))
      (hassign : assignPred (db.predColumns.map fun c => (c, none)) vals = .ok attrs)
      (hval : wedPredValidation ⟨pid, cid, attrs⟩ = .ok ()) :
      Defined db (.insertPred pid cid vals)
        { db with wedPred := db.wedPred ++ [⟨pid, cid, attrs⟩] }
  | updatePred (pid newPid newCid : Int) (vals attrs : List (String × Option String))
      (old : PredRow) (hold : old ∈ db.wedPred)
      (hassign : assignPred old.attrs vals = .ok attrs)
      (hval : wedPredValidation ⟨newPid, newCid, attrs⟩ = .ok ()) :
      Defined db (.updatePred pid newPid newCid vals) { db with
        wedPred := Table.updateWhere (fun p => p.pid = pid) (fun _ => ⟨newPid, newCid, attrs⟩)
          db.wedPred }
  | insertTrig (new : TrigRow) (hfree : new.tgid ∉ db.wedTrig.map (·.tgid)) :
      Defined db (.insertTrig new) { db with wedTrig := db.wedTrig ++ [new] }
  | updateTrig (tgid : Int) (new : TrigRow)
      (hother : ∀ t ∈ db.wedTrig, t.tgid ≠ tgid → t.tgid ≠ new.tgid)
      (href : ∀ j ∈ db.jobPool, j.tgid = tgid → new.tgid = tgid) :
      Defined db (.updateTrig tgid new) { db with
        wedTrig := Table.updateWhere (fun t => t.tgid = tgid) (fun _ => new) db.wedTrig }

/-- The statements on the definition tables do nothing else. -/
theorem defined_of_exec (loc : Locale) (env : Env) (op : Op) (db db' : Db) (r : Reply)
    (hop : op.Defines) (h : exec loc ⟨env, op⟩ db = .ok (db', r)) : Defined db op db' := by
  unfold exec at h
  cases op with
  | insertCond new =>
      have hd := (acknowledged h).1
      -- In every case the checks are peeled off, and what is left is the new table.
      unfold insertCond at hd
      simp only [Table.guard_eq_ok] at hd
      rw [← Except.ok.inj hd.2.2]
      exact .cond _ _
  | updateCond cid new =>
      have hd := (acknowledged h).1
      unfold updateCond at hd
      cases hf : db.wedCond.find? (fun c => c.cid = cid) with
      | none =>
          rw [hf] at hd
          rw [← Except.ok.inj hd]
          exact .missing _
      | some old =>
          rw [hf] at hd
          simp only [Table.guard_eq_ok] at hd
          rw [← Except.ok.inj hd.2.2.2]
          exact .cond _ _
  | insertPred pid cid vals =>
      have hd := (acknowledged h).1
      unfold insertPred at hd
      simp only [Table.bind_eq_ok, Table.guard_eq_ok] at hd
      rcases hd with ⟨attrs, hassign, u, hval, -, -, hd⟩
      rw [← Except.ok.inj hd]
      exact .insertPred pid cid vals attrs hassign hval
  | updatePred pid newPid newCid vals =>
      have hd := (acknowledged h).1
      unfold updatePred at hd
      cases hf : db.wedPred.find? (fun p => p.pid = pid) with
      | none =>
          rw [hf] at hd
          rw [← Except.ok.inj hd]
          exact .missing _
      | some old =>
          rw [hf] at hd
          simp only [Table.bind_eq_ok, Table.guard_eq_ok] at hd
          rcases hd with ⟨attrs, hassign, u, hval, -, -, hd⟩
          rw [← Except.ok.inj hd]
          exact .updatePred pid newPid newCid vals attrs old (List.mem_of_find?_eq_some hf) hassign
            hval
  | insertTrig new =>
      have hd := (acknowledged h).1
      unfold insertTrig at hd
      simp only [Table.guard_eq_ok, any_iff_mem_map] at hd
      rcases hd with ⟨hfree, -, hd⟩
      rw [← Except.ok.inj hd]
      exact .insertTrig new hfree
  | updateTrig tgid new =>
      have hd := (acknowledged h).1
      unfold updateTrig at hd
      cases hf : db.wedTrig.find? (fun t => t.tgid = tgid) with
      | none =>
          rw [hf] at hd
          rw [← Except.ok.inj hd]
          exact .missing _
      | some old =>
          rw [hf] at hd
          simp only [Table.guard_eq_ok] at hd
          rcases hd with ⟨hother, -, href, hd⟩
          rw [← Except.ok.inj hd]
          refine .updateTrig tgid new (fun t ht hne hk => hother ?_) (fun j hj hjt => ?_)
          · exact List.any_eq_true.mpr ⟨t, ht, decide_eq_true ⟨hne, hk⟩⟩
          · by_contra hne
            exact href ⟨hne, .inl (List.any_eq_true.mpr ⟨j, hj, decide_eq_true hjt⟩)⟩
  | _ => exact hop.elim

/-- A trigger can get a new key only while no job refers to it. -/
theorem Defined.redefined {db db' : Db} {op : Op} (h : Defined db op db') :
    Redefined op db db' := by
  cases h with
  | missing op => exact .of_cond _ db db.wedCond
  | cond op c => exact .of_cond _ db c
  | insertPred pid cid vals attrs => exact .of_pred _ db _
  | updatePred pid newPid newCid vals attrs old => exact .of_pred _ db _
  | insertTrig new hfree =>
      refine ⟨rfl, fun hu => ?_, fun j _ hj => ?_, fun t ht => ?_⟩
      · refine hu.append (List.nodup_singleton _) (fun t ht q hq hk => hfree ?_)
        rw [List.mem_singleton.mp hq] at hk
        exact List.mem_map.mpr ⟨t, ht, hk⟩
      · rw [List.map_append]
        exact List.mem_append_left _ hj
      · rcases List.mem_append.mp ht with ht | ht
        · exact .inl ht
        · rw [List.mem_singleton.mp ht]
          exact .inr rfl
  | updateTrig tgid new hother href =>
      refine ⟨rfl, fun hu => hu.updateWhere_key tgid new hother, fun j hj hjt => ?_,
        fun t ht => ?_⟩
      · rcases List.mem_map.mp hjt with ⟨t, ht, htj⟩
        by_cases hk : t.tgid = tgid
        · -- The trigger has a job, so its key is the old one.
          have hsame := href j hj (htj.symm.trans hk)
          refine List.mem_map.mpr ⟨new, ?_, (hsame.trans hk.symm).trans htj⟩
          exact Table.mem_updateWhere_of_pos _ _ _ t ht (decide_eq_true hk)
        · exact List.mem_map.mpr
            ⟨t, Table.mem_updateWhere_of_not _ _ _ t ht (decide_eq_false hk), htj⟩
      · rcases (Table.mem_updateWhere _ _ _ _).mp ht with ⟨t₀, ht₀, rfl⟩
        by_cases hk : t₀.tgid = tgid
        · rw [if_pos (decide_eq_true hk)]
          exact .inr rfl
        · rw [if_neg (by simpa only [decide_eq_true_eq] using hk)]
          exact .inl ht₀

theorem redefined_of_exec (loc : Locale) (env : Env) (op : Op) (db db' : Db) (r : Reply)
    (hop : op.Defines) (h : exec loc ⟨env, op⟩ db = .ok (db', r)) : Redefined op db db' :=
  (defined_of_exec loc env op db db' r hop h).redefined

/-- The list of what a statement on the attributes does is complete. -/
theorem restyled_of_exec (loc : Locale) (env : Env) (op : Op) (db db' : Db) (r : Reply)
    (hop : op.Restyles) (h : exec loc ⟨env, op⟩ db = .ok (db', r)) : Restyled db op db' := by
  unfold exec at h
  cases op with
  | insertAttr new =>
      have hd := (acknowledged h).1
      unfold insertAttr newWedAttrInsert at hd
      rw [Table.guard_eq_ok] at hd
      dsimp only at hd
      split at hd
      next hfree =>
        rw [← Except.ok.inj hd.2]
        exact .add new hfree
      next => exact absurd hd.2 (by simp only [reduceCtorEq, not_false_eq_true])
  | updateAttr name new =>
      have hd := (acknowledged h).1
      unfold updateAttr at hd
      cases hf : db.wedAttr.find? (fun a => a.name = name) with
      | none =>
          rw [hf] at hd
          rw [← Except.ok.inj hd]
          exact .missing name new
      | some old =>
          rw [hf] at hd
          rw [Table.guard_eq_ok] at hd
          -- The outer `if` is the one on the name, the inner one on the default.
          unfold newWedAttrUpdate at hd
          dsimp only at hd
          split at hd
          · split at hd
            next hc =>
              rw [← Except.ok.inj hd.2]
              exact .rename name old new _ hc.2.2.2
            next => exact absurd hd.2 (by simp only [reduceCtorEq, not_false_eq_true])
          · split at hd
            · split at hd
              · rw [← Except.ok.inj hd.2]
                exact .setDefault name old new _
              · exact absurd hd.2 (by simp only [reduceCtorEq, not_false_eq_true])
            · exact absurd hd.2 (by simp only [reduceCtorEq, not_false_eq_true])
  | _ => exact hop.elim

/-- Definitions are acknowledged and nothing more. -/
theorem reply_of_exec (loc : Locale) (env : Env) (op : Op) (db db' : Db) (r : Reply)
    (hop : op.Defines ∨ op.Restyles) (h : exec loc ⟨env, op⟩ db = .ok (db', r)) : r = .done := by
  cases op with
  | insertFlow wid uptkn vals => exact (hop.elim id id).elim
  | updateFlow wid newWid uptkn vals => exact (hop.elim id id).elim
  | jobLock u lckid => exact (hop.elim id id).elim
  | jobAbort u => exact (hop.elim id id).elim
  | jobInspector => exact (hop.elim id id).elim
  | _ => exact (acknowledged h).2

/-! ## The list -/

/-- What a statement that goes through did. -/
inductive Change (loc : Locale) (env : Env) (db : Db) : Op → Reply → Db → Prop where
  | insert (wid : Int) (uptkn : Option String) (vals : List (String × Option String)) (w : Write)
      (h : Inserts loc env wid uptkn vals db w) :
      Change loc env db (.insertFlow wid uptkn vals) .done (w.insert env db)
  | noRow (wid : Int) (newWid : Option Int) (uptkn : Option (Option String))
      (vals : List (String × Option String)) (h : wid ∉ db.wedFlow.map (·.wid)) :
      Change loc env db (.updateFlow wid newWid uptkn vals) (.rows 0) db
  | update (wid : Int) (newWid : Option Int) (uptkn : Option (Option String))
      (vals : List (String × Option String)) (old : FlowRow) (u : String) (db₁ : Db) (w : Write)
      (h : Updates loc env wid newWid uptkn vals db old u db₁ w) :
      Change loc env db (.updateFlow wid newWid uptkn vals) (.rows 1) (w.update env db₁)
  | noLock (u : String) (lckid : Option String) (h : jobOf db u = none) :
      Change loc env db (.jobLock u lckid) (.bool false) db
  | lock (u : String) (lckid : Option String) (j : JobRow) (hj : jobOf db u = some j)
      (hl : j.locked = false) :
      Change loc env db (.jobLock u lckid) (.bool true) (writeJob u (lockRow env.now lckid) db)
  | noAbort (u : String) (h : ∀ j, jobOf db u = some j → j.locked = false) :
      Change loc env db (.jobAbort u) (.bool false) db
  | abort (u : String) (j : JobRow) (hj : jobOf db u = some j) (hl : j.locked = true)
      (ha : j.aborted = false) :
      Change loc env db (.jobAbort u) (.bool true) (writeJob u (abortRow env.now) db)
  | noRequeue (h : expired env.now db = []) : Change loc env db .jobInspector (.bool false) db
  | requeue (h : expired env.now db ≠ [])
      (hf : Fresh loc db.jobPool
        (freshJobs env 0 ((expired env.now db).map ScanRow.request))) :
      Change loc env db .jobInspector (.bool true)
        { db with jobPool := requeuePool env 0 (expired env.now db) db.jobPool }
  | redefine (op : Op) (db' : Db) (hop : op.Defines) (h : Redefined op db db') :
      Change loc env db op .done db'
  | restyle (op : Op) (db' : Db) (hop : op.Restyles) (h : Restyled db op db') :
      Change loc env db op .done db'

/-- The rows of a scan refer to jobs, triggers and instances that are there. -/
theorem Inv.expired_keys {db : Db} (hi : Inv db) (now : Time) (r : ScanRow)
    (hr : r ∈ expired now db) :
    r.uptkn ∈ db.jobPool.map (·.uptkn) ∧ r.tgid ∈ db.wedTrig.map (·.tgid) ∧
      r.wid ∈ db.wedFlow.map (·.wid) := by
  rcases (mem_expired now db r).mp hr with ⟨j, hj, -, t, ht, -, rfl⟩
  exact ⟨List.mem_map_of_mem hj, List.mem_map_of_mem ht, hi.pool.flow j hj⟩

/-- The list is complete. -/
theorem exec_change (loc : Locale) (i : Input) (db db' : Db) (r : Reply) (hi : Inv db)
    (h : exec loc i db = .ok (db', r)) : Change loc i.env db i.op r db' := by
  rcases i with ⟨env, op⟩
  have hk := hi.keyed
  have defined : op.Defines → Change loc env db op r db' := by
    intro hop
    rw [reply_of_exec loc env op db db' r (.inl hop) h]
    exact .redefine op db' hop (redefined_of_exec loc env op db db' r hop h)
  have restyled : op.Restyles → Change loc env db op r db' := by
    intro hop
    rw [reply_of_exec loc env op db db' r (.inr hop) h]
    exact .restyle op db' hop (restyled_of_exec loc env op db db' r hop h)
  cases op with
  | insertFlow wid uptkn vals =>
      rcases (Table.map_eq_ok _ _ _).mp h with ⟨d, hd, he⟩
      rw [← (Prod.mk.inj he).1, ← (Prod.mk.inj he).2]
      rcases (insertFlow_ok_iff loc env wid uptkn vals db d hk).mp hd with ⟨w, hw, rfl⟩
      exact .insert wid uptkn vals w hw
  | updateFlow wid newWid uptkn vals =>
      rcases (Table.map_eq_ok _ _ _).mp h with ⟨⟨d, n⟩, hd, he⟩
      rw [← (Prod.mk.inj he).1, ← (Prod.mk.inj he).2]
      rcases (updateFlow_ok_iff loc env wid newWid uptkn vals db d n hk).mp hd with
        ⟨hno, rfl, rfl⟩ | ⟨old, u, db₁, w, hw, rfl, rfl⟩
      · exact .noRow wid newWid uptkn vals hno
      · exact .update wid newWid uptkn vals old u db₁ w hw
  | jobLock u lckid =>
      rcases (Table.map_eq_ok _ _ _).mp h with ⟨⟨d, b⟩, hd, he⟩
      rw [← (Prod.mk.inj he).1, ← (Prod.mk.inj he).2]
      rcases (jobLock_ok_iff env.now u lckid db d b hk.lockJob hk.tokens).mp hd with
        ⟨hno, rfl, rfl⟩ | ⟨j, hj, hl, rfl, rfl⟩
      · exact .noLock u lckid hno
      · exact .lock u lckid j hj hl
  | jobAbort u =>
      rcases (Table.map_eq_ok _ _ _).mp h with ⟨⟨d, b⟩, hd, he⟩
      rw [← (Prod.mk.inj he).1, ← (Prod.mk.inj he).2]
      rcases (jobAbort_ok_iff env.now u db d b hk.lockJob hk.tokens).mp hd with
        ⟨hno, rfl, rfl⟩ | ⟨j, hj, hl, ha, rfl, rfl⟩
      · exact .noAbort u hno
      · exact .abort u j hj hl ha
  | jobInspector =>
      rcases (Table.map_eq_ok _ _ _).mp h with ⟨⟨d, b⟩, hd, he⟩
      rw [← (Prod.mk.inj he).1, ← (Prod.mk.inj he).2]
      unfold jobInspector at hd
      dsimp only at hd
      by_cases hrows : expired env.now db = []
      · rw [if_pos hrows, Except.ok.injEq, Prod.mk.injEq] at hd
        rw [← hd.1, ← hd.2]
        exact .noRequeue hrows
      · rw [if_neg hrows, Table.bind_eq_ok] at hd
        rcases hd with ⟨d', hreq, hd⟩
        have hd' := Prod.mk.inj (Except.ok.inj hd)
        rcases (requeue_ok_iff loc env _ db d'
          (fun r hr => (hi.expired_keys env.now r hr).1)
          (fun r hr => (hi.expired_keys env.now r hr).2.1)
          (fun r hr => (hi.expired_keys env.now r hr).2.2)).mp hreq with ⟨hf, rfl⟩
        -- The loop puts the lock trigger back on, as it was before.
        have hon : ∀ pool, { db with jobPool := pool, lockJob := true }
            = { db with jobPool := pool } := fun pool => by rw [← hk.lockJob]
        rw [← hd'.1, ← hd'.2]
        dsimp only
        rw [hon]
        exact .requeue hrows hf
  | _ =>
      first
      | exact defined trivial
      | exact restyled trivial

end WedFlow
