import WedFlow.Theory.Invariant

/-!
# Instances Behind the Tables

What the tables say about an instance, in the terms of the abstract workflow:
its attributes are those of its row in `wed_flow`, its mode is that of its row in
`st_status`, and what runs for it are the open jobs with its key. Under the
invariant each trigger has at most one open job, so that running triggers form a
map.

The definition tables make up a policy. The conditions a state meets are those
the predicate scan returns.

## Main definitions

* `phaseOf`: Whether a job has been locked.
* `runs`: The running triggers of an instance.
* `modeOf`: The mode two flags stand for.
* `inst`: An instance, read off the tables.
* `policy`: The policy, read off the definition tables.

## Theorems

* `runs_eq_none_iff`, `runs_of_open`: Running triggers are open jobs.
* `runs_append`, `runs_write_ne`: What writes of the pool do to them.
* `inst_eq_some_iff`, `inst_eq_none_iff`: Reading an instance.
* `policy_ends`, `policy_fires`, `policy_valid`: Reading the policy.
* `settle_policy`: The kernel's verdict is how the abstract instance settles.
* `settles_refines`: What the kernel writes is how it settles.
-/

namespace WedFlow

open Workflow (Mode Phase Inst Policy)

/-- The state of an instance: its attributes by name. -/
abbrev State := List (String × String)

/-! ## Running triggers -/

def phaseOf (j : JobRow) : Phase :=
  if j.locked then .locked else .pending

/-- What runs for an instance: the phase of the open job of each trigger. -/
def runs (pool : List JobRow) (wid tgid : Int) : Option Phase :=
  (pool.find? (OpenAt wid tgid)).map phaseOf

theorem runs_eq_none_iff (pool : List JobRow) (wid tgid : Int) :
    runs pool wid tgid = none ↔ (wid, tgid) ∉ openKeys pool := by
  unfold runs
  rw [Option.map_eq_none_iff, List.find?_eq_none, mem_openKeys]
  constructor
  · intro h hj
    rcases hj with ⟨j, hj, ht, hw, hg⟩
    exact h j hj ((openAt_iff _ _ _).mpr ⟨hw, ht, hg⟩)
  · intro h j hj hat
    rcases (openAt_iff _ _ _).mp hat with ⟨hw, ht, hg⟩
    exact h ⟨j, hj, ht, hw, hg⟩

/-- An open job is what its trigger runs as. -/
theorem runs_of_open {trigs wids : List Int} {pool : List JobRow} (hp : PoolInv trigs wids pool)
    {j : JobRow} (hj : j ∈ pool) (ht : j.tf = none) :
    runs pool j.wid j.tgid = some (phaseOf j) := by
  unfold runs
  cases hf : pool.find? (OpenAt j.wid j.tgid) with
  | none => exact absurd ((openAt_iff _ _ _).mpr ⟨rfl, ht, rfl⟩) (List.find?_eq_none.mp hf j hj)
  | some i =>
      rcases (openAt_iff _ _ _).mp (List.find?_some hf) with ⟨hw, hit, hg⟩
      rw [hp.eq_of_open (List.mem_of_find?_eq_some hf) hj hit ht hw hg]
      rfl

theorem runs_append (pool jobs : List JobRow) (wid tgid : Int) :
    runs (pool ++ jobs) wid tgid = (runs pool wid tgid).or (runs jobs wid tgid) := by
  unfold runs
  rw [List.find?_append, Option.map_or]

/-- What new jobs run as: pending. -/
theorem runs_freshJobs (env : Env) (n : Nat) (rs : List Request) (wid tgid : Int) :
    runs (freshJobs env n rs) wid tgid
      = if (wid, tgid) ∈ rs.map (fun r => (r.wid, r.tgid)) then some .pending else none := by
  have hkeys := openKeys_freshJobs env n rs
  by_cases h : (wid, tgid) ∈ rs.map fun r => (r.wid, r.tgid)
  · rw [if_pos h]
    unfold runs
    cases hf : (freshJobs env n rs).find? (OpenAt wid tgid) with
    | none =>
        have hnone : runs (freshJobs env n rs) wid tgid = none := by
          unfold runs
          rw [hf]
          rfl
        rw [runs_eq_none_iff, hkeys] at hnone
        exact absurd h hnone
    | some j =>
        rcases mem_freshJobs env n rs j (List.mem_of_find?_eq_some hf) with ⟨r, -, m, rfl⟩
        rfl
  · rw [if_neg h, runs_eq_none_iff, hkeys]
    exact h

/-- Writing one job leaves every other trigger and instance alone. -/
theorem runs_write_ne {pool : List JobRow} (htok : Table.Unique (·.uptkn) pool) {j : JobRow}
    (hj : j ∈ pool) (f : JobRow → JobRow) (hf : ∀ i, (f i).wid = i.wid ∧ (f i).tgid = i.tgid)
    (wid tgid : Int) (hne : ¬ (wid = j.wid ∧ tgid = j.tgid)) :
    runs (Table.updateWhere (fun i => i.uptkn = j.uptkn) f pool) wid tgid = runs pool wid tgid := by
  unfold runs
  rw [Table.find_updateWhere_of_not _ _ f pool]
  intro i hi hiu
  have hij : i = j := htok.eq_of_mem hi hj (of_decide_eq_true hiu)
  refine ⟨Bool.eq_false_iff.mpr (fun h => hne ?_), Bool.eq_false_iff.mpr (fun h => hne ?_)⟩
  · rcases (openAt_iff _ _ _).mp h with ⟨hw, -, hg⟩
    rw [← hij]
    exact ⟨hw.symm, hg.symm⟩
  · rcases (openAt_iff _ _ _).mp h with ⟨hw, -, hg⟩
    rw [← hij, ← (hf i).1, ← (hf i).2]
    exact ⟨hw.symm, hg.symm⟩

/-- A write that selects closed jobs only changes nothing that runs. -/
theorem runs_write_closed {pool : List JobRow} (p : JobRow → Bool) (f : JobRow → JobRow)
    (hp : ∀ i ∈ pool, p i = true → i.tf ≠ none) (hf : ∀ i, (f i).tf ≠ none) (wid tgid : Int) :
    runs (Table.updateWhere p f pool) wid tgid = runs pool wid tgid := by
  unfold runs
  rw [Table.find_updateWhere_of_not _ _ f pool]
  intro i hi hpi
  refine ⟨Bool.eq_false_iff.mpr (fun h => ?_), Bool.eq_false_iff.mpr (fun h => ?_)⟩
  · exact hp i hi hpi ((openAt_iff _ _ _).mp h).2.1
  · exact hf i ((openAt_iff _ _ _).mp h).2.1

/-- Closing the open job of a trigger ends its run. -/
theorem runs_close {trigs wids : List Int} {pool : List JobRow} (hp : PoolInv trigs wids pool)
    {j : JobRow} (hj : j ∈ pool) (ht : j.tf = none) (f : JobRow → JobRow)
    (hf : ∀ i, (f i).wid = i.wid ∧ (f i).tgid = i.tgid ∧ (f i).tf ≠ none) (wid : Int) :
    runs (Table.updateWhere (fun i => i.uptkn = j.uptkn) f pool) wid
      = if wid = j.wid then Function.update (runs pool wid) j.tgid none else runs pool wid := by
  funext g
  by_cases hw : wid = j.wid
  · rw [if_pos hw]
    by_cases hg : g = j.tgid
    · rw [hg, Function.update_self, runs_eq_none_iff, openKeys_closed _ _ _ (fun i => (hf i).2.2)]
      intro hk
      rcases (mem_openKeys _ _ _).mp hk with ⟨i, hi, hit, hiw, hig⟩
      rcases List.mem_filter.mp hi with ⟨him, hiu⟩
      rw [hp.eq_of_open him hj hit ht (hiw.trans hw) hig] at hiu
      simp only [decide_true, Bool.not_true, Bool.false_eq_true] at hiu
    · rw [Function.update_of_ne hg]
      exact runs_write_ne hp.tokens hj f (fun i => ⟨(hf i).1, (hf i).2.1⟩) wid g
        (fun h => hg h.2)
  · rw [if_neg hw]
    exact runs_write_ne hp.tokens hj f (fun i => ⟨(hf i).1, (hf i).2.1⟩) wid g (fun h => hw h.1)

/-- Locking the open job of a trigger. -/
theorem runs_lock {trigs wids : List Int} {pool : List JobRow} (hp : PoolInv trigs wids pool)
    {j : JobRow} (hj : j ∈ pool) (ht : j.tf = none) (now : Time) (lckid : Option String)
    (wid : Int) :
    runs (Table.updateWhere (fun i => i.uptkn = j.uptkn) (lockRow now lckid) pool) wid
      = if wid = j.wid then Function.update (runs pool wid) j.tgid (some .locked)
        else runs pool wid := by
  funext g
  by_cases hw : wid = j.wid
  · rw [if_pos hw]
    by_cases hg : g = j.tgid
    · have hmem := Table.mem_updateWhere_of_pos (fun i : JobRow => i.uptkn = j.uptkn)
        (lockRow now lckid) pool j hj (decide_eq_true rfl)
      rw [hg, hw, Function.update_self]
      exact runs_of_open (hp.lock (fun i => i.uptkn = j.uptkn) now lckid) hmem ht
    · rw [Function.update_of_ne hg]
      exact runs_write_ne hp.tokens hj (lockRow now lckid) (fun _ => ⟨rfl, rfl⟩) wid g (fun h => hg h.2)
  · rw [if_neg hw]
    exact runs_write_ne hp.tokens hj (lockRow now lckid) (fun _ => ⟨rfl, rfl⟩) wid g (fun h => hw h.1)

/-! ## Instances -/

/-- The mode two flags stand for. -/
def modeOf (s : StatusRow) : Mode :=
  if s.final then if s.excpt then .exception else .final else .active

theorem modeOf_flags (wid : Int) (m : Mode) : modeOf ⟨wid, finalFlag m, excptFlag m⟩ = m := by
  cases m with
  | active => rfl
  | final => rfl
  | exception => rfl

theorem modeOf_active_iff (s : StatusRow) : modeOf s = .active ↔ s.final = false := by
  unfold modeOf
  cases s.final with
  | false => exact ⟨fun _ => rfl, fun _ => rfl⟩
  | true =>
      cases s.excpt with
      | false => exact ⟨fun h => Mode.noConfusion h, fun h => Bool.noConfusion h⟩
      | true => exact ⟨fun h => Mode.noConfusion h, fun h => Bool.noConfusion h⟩

theorem modeOf_exception_iff (s : StatusRow) :
    modeOf s = .exception ↔ s.final = true ∧ s.excpt = true := by
  unfold modeOf
  cases s.final with
  | false => exact ⟨fun h => Mode.noConfusion h, fun h => Bool.noConfusion h.1⟩
  | true =>
      cases s.excpt with
      | false => exact ⟨fun h => Mode.noConfusion h, fun h => Bool.noConfusion h.2⟩
      | true => exact ⟨fun _ => ⟨rfl, rfl⟩, fun _ => rfl⟩

/-- An instance, read off the tables. -/
def inst (db : Db) (wid : Int) : Option (Inst State Int) :=
  match db.wedFlow.find? (fun r => r.wid = wid), db.stStatus.find? (fun s => s.wid = wid) with
  | some r, some s => some ⟨r.attrs, modeOf s, runs db.jobPool wid⟩
  | _, _ => none

/-- The instance of a row and its status. -/
theorem inst_of_mem {db : Db} (hi : Inv db) {r : FlowRow} {s : StatusRow} (hr : r ∈ db.wedFlow)
    (hs : s ∈ db.stStatus) (hw : s.wid = r.wid) :
    inst db r.wid = some ⟨r.attrs, modeOf s, runs db.jobPool r.wid⟩ := by
  unfold inst
  rw [(hi.flow.find_eq_some_iff r.wid r).mpr ⟨hr, rfl⟩,
    (hi.keyed.status_unique.find_eq_some_iff r.wid s).mpr ⟨hs, hw⟩]

/-- Every instance has its status. -/
theorem Inv.exists_status {db : Db} (hi : Inv db) {r : FlowRow} (hr : r ∈ db.wedFlow) :
    ∃ s ∈ db.stStatus, s.wid = r.wid := by
  have hmem : r.wid ∈ db.stStatus.map (·.wid) := by
    rw [hi.status]
    exact List.mem_map_of_mem hr
  rcases List.mem_map.mp hmem with ⟨s, hs, hw⟩
  exact ⟨s, hs, hw⟩

theorem inst_eq_none_iff {db : Db} (hi : Inv db) (wid : Int) :
    inst db wid = none ↔ wid ∉ db.wedFlow.map (·.wid) := by
  constructor
  · intro h hmem
    rcases List.mem_map.mp hmem with ⟨r, hr, rfl⟩
    rcases hi.exists_status hr with ⟨s, hs, hw⟩
    rw [inst_of_mem hi hr hs hw] at h
    exact absurd h (Option.some_ne_none _)
  · intro h
    unfold inst
    rw [(Table.find_eq_none_iff FlowRow.wid db.wedFlow wid).mpr h]

theorem inst_eq_some_iff {db : Db} (hi : Inv db) (wid : Int) (i : Inst State Int) :
    inst db wid = some i ↔ ∃ r ∈ db.wedFlow, ∃ s ∈ db.stStatus, r.wid = wid ∧ s.wid = wid ∧
      i = ⟨r.attrs, modeOf s, runs db.jobPool wid⟩ := by
  constructor
  · intro h
    have hmem : wid ∈ db.wedFlow.map (·.wid) := by
      by_contra hno
      rw [(inst_eq_none_iff hi wid).mpr hno] at h
      exact absurd h.symm (Option.some_ne_none _)
    rcases List.mem_map.mp hmem with ⟨r, hr, rfl⟩
    rcases hi.exists_status hr with ⟨s, hs, hw⟩
    rw [inst_of_mem hi hr hs hw] at h
    exact ⟨r, hr, s, hs, rfl, hw, (Option.some.inj h).symm⟩
  · intro h
    rcases h with ⟨r, hr, s, hs, rfl, hw, rfl⟩
    exact inst_of_mem hi hr hs hw

/-- Tables that agree on an instance, up to what runs. -/
theorem inst_congr {db db' : Db} (wid : Int)
    (hflow : db'.wedFlow.find? (fun r => r.wid = wid) = db.wedFlow.find? (fun r => r.wid = wid))
    (hst : db'.stStatus.find? (fun s => s.wid = wid) = db.stStatus.find? (fun s => s.wid = wid))
    (hruns : runs db'.jobPool wid = runs db.jobPool wid) : inst db' wid = inst db wid := by
  unfold inst
  rw [hflow, hst, hruns]

/-- A write of the pool changes what runs and nothing else. -/
theorem inst_pool (db : Db) (pool : List JobRow) (wid : Int) :
    inst { db with jobPool := pool } wid
      = (inst db wid).map fun i => { i with running := runs pool wid } := by
  unfold inst
  cases db.wedFlow.find? (fun r => r.wid = wid) with
  | none => rfl
  | some r =>
      cases db.stStatus.find? (fun s => s.wid = wid) with
      | none => rfl
      | some s => rfl

/-- The state of an instance is that of its row. -/
theorem inst_state {db : Db} (hi : Inv db) {r : FlowRow} (hr : r ∈ db.wedFlow) {wid : Int}
    (hw : r.wid = wid) {i : Inst State Int} (h : inst db wid = some i) : i.state = r.attrs := by
  subst hw
  rcases hi.exists_status hr with ⟨s, hs, hsw⟩
  rw [inst_of_mem hi hr hs hsw] at h
  rw [← Option.some.inj h]

theorem inst_running {db : Db} {wid : Int} {i : Inst State Int} (h : inst db wid = some i) :
    i.running = runs db.jobPool wid := by
  unfold inst at h
  cases hr : db.wedFlow.find? (fun r => r.wid = wid) with
  | none =>
      rw [hr] at h
      exact absurd h (by simp only [reduceCtorEq, not_false_eq_true])
  | some r =>
      cases hs : db.stStatus.find? (fun s => s.wid = wid) with
      | none =>
          rw [hr, hs] at h
          exact absurd h (by simp only [reduceCtorEq, not_false_eq_true])
      | some s =>
          rw [hr, hs] at h
          rw [← Option.some.inj h]

/-- A write of the pool that changes one trigger of one instance. -/
theorem inst_write (db : Db) (pool : List JobRow) (wid g : Int) (p : Option Phase)
    (i : Inst State Int) (hA : inst db wid = some i)
    (hruns : ∀ v, runs pool v = if v = wid then Function.update (runs db.jobPool v) g p
      else runs db.jobPool v) :
    inst { db with jobPool := pool } = Function.update (inst db) wid
      (some { i with running := Function.update i.running g p }) := by
  funext v
  rw [inst_pool, hruns v]
  by_cases hv : v = wid
  · rw [if_pos hv, hv, Function.update_self, hA, inst_running hA]
    rfl
  · rw [if_neg hv, Function.update_of_ne hv]
    cases hi : inst db v with
    | none => rfl
    | some k =>
        rw [Option.map_some, ← inst_running hi]

/-- A change of the attributes changes states and nothing else. -/
theorem inst_restyle {db db' : Db} {op : Op} (h : Restyled db op db') :
    ∃ f : State → State, ∀ v,
      inst db' v = (inst db v).map fun i => { i with state := f i.state } := by
  rcases h.same with ⟨f, he⟩
  refine ⟨f, fun v => ?_⟩
  have hfind : (db.wedFlow.map fun r => { r with attrs := f r.attrs }).find? (fun r => r.wid = v)
      = (db.wedFlow.find? (fun r => r.wid = v)).map fun r => { r with attrs := f r.attrs } :=
    List.find?_map
  rw [he]
  unfold inst
  dsimp only
  rw [hfind]
  cases db.wedFlow.find? (fun r => r.wid = v) with
  | none => rfl
  | some r =>
      cases db.stStatus.find? (fun s => s.wid = v) with
      | none => rfl
      | some s => rfl

/-! ## Policies -/

/-- The policy the definition tables make up. -/
def policy (loc : Locale) (db : Db) : Policy State Int Int where
  conds s := {c | c ∈ (matchConds loc db s).1}
  final := {c | ∃ k ∈ db.wedCond, k.cid = c ∧ k.final = true}
  trigs c := {g | ∃ r ∈ db.wedTrig, r.cid = c ∧ r.tgid = g}

theorem policy_conds_empty (loc : Locale) (db : Db) (s : State) :
    (policy loc db).conds s = ∅ ↔ (matchConds loc db s).1 = [] := by
  rw [Set.eq_empty_iff_forall_notMem, List.eq_nil_iff_forall_not_mem]
  rfl

/-- The flag the scan returns says whether a final condition is matched. -/
theorem policy_ends (loc : Locale) (db : Db) (s : State) :
    (policy loc db).Ends s ↔ (matchConds loc db s).2 = true := by
  rw [matchConds_final]
  constructor
  · intro h
    rcases h with ⟨c, hc, k, hk, hkc, hf⟩
    rcases (mem_matchConds loc db s c).mp hc with ⟨⟨p, b⟩, hp, hm, hpc⟩
    rcases (mem_predScan db p b).mp hp with ⟨hpm, -⟩
    exact ⟨(p, true), (mem_predScan db p true).mpr ⟨hpm, k, hk, hkc.trans hpc.symm, hf⟩, hm, rfl⟩
  · intro h
    rcases h with ⟨⟨p, b⟩, hp, hm, hb⟩
    rcases (mem_predScan db p b).mp hp with ⟨-, k, hk, hkc, hf⟩
    exact ⟨p.cid, (mem_matchConds loc db s p.cid).mpr ⟨(p, b), hp, hm, rfl⟩, k, hk, hkc,
      hf.trans hb⟩

theorem policy_fires (loc : Locale) (db : Db) (s : State) (g : Int) :
    g ∈ (policy loc db).fires s ↔
      ∃ r ∈ db.wedTrig, r.cid ∈ (matchConds loc db s).1 ∧ r.tgid = g := by
  constructor
  · intro h
    rcases h with ⟨c, hc, r, hr, hrc, hrg⟩
    exact ⟨r, hr, hrc ▸ hc, hrg⟩
  · intro h
    rcases h with ⟨r, hr, hc, hrg⟩
    exact ⟨r.cid, hc, r, hr, rfl, hrg⟩

/-- The last of the three validations makes the policy a valid one. -/
theorem policy_valid (loc : Locale) (db : Db) (hv : Validated db) : (policy loc db).Valid := by
  intro s c hc hnf
  rcases (mem_matchConds loc db s c).mp hc with ⟨⟨p, b⟩, hp, -, hpc⟩
  rcases (mem_predScan db p b).mp hp with ⟨-, k, hk, hkc, -⟩
  have htrig := List.all_eq_true.mp hv.trig k hk
  rw [Bool.or_eq_true, any_iff_mem_map] at htrig
  rcases htrig with hf | ht
  · exact absurd ⟨k, hk, hkc.trans hpc, hf⟩ hnf
  · rcases List.mem_map.mp ht with ⟨r, hr, hrk⟩
    exact ⟨r.tgid, r, hr, hrk.trans (hkc.trans hpc), rfl⟩

/-! ## Settling -/

theorem idle_runs_iff (pool : List JobRow) (wid : Int) (rtrg : List Int)
    (hr : ∀ g, g ∈ rtrg ↔ (wid, g) ∈ openKeys pool) :
    Workflow.Idle (runs pool wid) ↔ rtrg = [] := by
  unfold Workflow.Idle
  simp only [runs_eq_none_iff, ← hr]
  exact (List.eq_nil_iff_forall_not_mem).symm

/-- The kernel's verdict is how the abstract instance settles. -/
theorem settle_policy (loc : Locale) (db : Db) (pool : List JobRow) (wid : Int) (s : State)
    (rtrg : List Int) (hr : ∀ g, g ∈ rtrg ↔ (wid, g) ∈ openKeys pool) :
    Workflow.settle (policy loc db) (runs pool wid) s =
      match verdict rtrg (matchConds loc db s) with
      | .error _ => none
      | .ok mode => some ⟨s, mode, if mode = .active then
          Workflow.launch (policy loc db) (runs pool wid) s else runs pool wid⟩ := by
  have hidle := idle_runs_iff pool wid rtrg hr
  have hempty := policy_conds_empty loc db s
  have hends := policy_ends loc db s
  unfold Workflow.settle verdict
  -- The two sides test the same three things in the same order.
  by_cases h1 : rtrg = [] ∧ (matchConds loc db s).1 = []
  · rw [if_pos h1, if_pos ⟨hidle.mpr h1.1, hempty.mpr h1.2⟩]
    rfl
  · rw [if_neg h1, if_neg (fun h => h1 ⟨hidle.mp h.1, hempty.mp h.2⟩)]
    by_cases h2 : (matchConds loc db s).2 = true
    · rw [if_pos h2, if_pos (hends.mpr h2)]
      by_cases h3 : rtrg = []
      · rw [if_pos (hidle.mpr h3), if_neg (not_not.mpr h3)]
        rfl
      · rw [if_neg (fun h => h3 (hidle.mp h)), if_pos h3]
    · rw [if_neg h2, if_neg (fun h => h2 (hends.mp h))]
      rfl

/-- In the active mode the triggers that are due are launched. -/
theorem runs_due (loc : Locale) (env : Env) (db : Db) (pool : List JobRow) (wid : Int) (s : State)
    (rtrg : List Int) (hr : ∀ g, g ∈ rtrg ↔ (wid, g) ∈ openKeys pool) :
    runs (pool ++ freshJobs env 0
        ((due db (matchConds loc db s).1 rtrg).map (TrigRow.request wid))) wid
      = Workflow.launch (policy loc db) (runs pool wid) s := by
  funext g
  have hkey : (wid, g) ∈ ((due db (matchConds loc db s).1 rtrg).map (TrigRow.request wid)).map
      (fun r => (r.wid, r.tgid)) ↔ runs pool wid g = none ∧ g ∈ (policy loc db).fires s := by
    rw [List.map_map, runs_eq_none_iff, ← hr, policy_fires, List.mem_map]
    constructor
    · intro h
      rcases h with ⟨r, hrd, hk⟩
      rcases (mem_due _ _ _ _).mp hrd with ⟨hrm, hrc, hrn⟩
      have hrg : r.tgid = g := (Prod.mk.inj hk).2
      exact ⟨hrg ▸ hrn, r, hrm, hrc, hrg⟩
    · intro h
      rcases h with ⟨hn, r, hrm, hrc, rfl⟩
      exact ⟨r, (mem_due _ _ _ _).mpr ⟨hrm, hrc, hn⟩, rfl⟩
  unfold Workflow.launch
  rw [runs_append, runs_freshJobs]
  by_cases h : runs pool wid g = none ∧ g ∈ (policy loc db).fires s
  · rw [if_pos (hkey.mpr h), if_pos h, h.1]
    rfl
  · rw [if_neg (fun hk => h (hkey.mp hk)), if_neg h, Option.or_none]

/-- What the kernel writes for a state that passes its checks is how the
    abstract instance settles on that state. -/
theorem settles_refines (loc : Locale) (env : Env) (rtrg : List Int) (db : Db) (w : Write)
    (hs : Settles loc env rtrg db w)
    (hr : ∀ g, g ∈ rtrg ↔ (w.new.wid, g) ∈ openKeys db.jobPool) :
    Workflow.settle (policy loc db) (runs db.jobPool w.new.wid) w.new.attrs
      = some ⟨w.new.attrs, w.mode, runs (db.jobPool ++ w.jobs env) w.new.wid⟩ := by
  rw [settle_policy loc db db.jobPool w.new.wid w.new.attrs rtrg hr, hs.verdict]
  dsimp only
  unfold Write.jobs
  rw [hs.fired]
  by_cases hm : w.mode = .active
  · rw [if_pos hm, if_pos hm, runs_due loc env db db.jobPool w.new.wid w.new.attrs rtrg hr]
  · rw [if_neg hm, if_neg hm]
    simp only [List.map_nil, freshJobs, List.append_nil]

end WedFlow
