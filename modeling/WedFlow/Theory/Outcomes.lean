import WedFlow.Theory.Flows
import WedFlow.Theory.Handyman

/-!
# Flows at Work

What becomes of an instance that is left to the workers of its flow. Processes of
`Core.Handyman` work for its triggers and write what the flow has for them. There may
be any number of them, started and ended at any time, and next to them others may do
what they like: work on other instances, lock jobs, run inspections. They may not
change the definitions, write the instance themselves or abort its jobs.

Such an instance stays on the chart of its flow (`Delegated.under`). A process writes
with the token of its job, and the job is one of its own trigger; so what it completes
is what it was started for, and what it writes is by the script. With that a sweep of
the chart speaks of every run (`Delegated.sweep`).

## Main definitions

* `Flow.Admits`, `Flow.Follows`: What others may do, and what the workers do.
* `Flow.Delegated`: A run in which an instance is left to the workers.
* `Delegated.writes`: How many times it has been written.
* `Flow.Accepts`, `Flow.Refuses`: What becomes of the updates a worker can choose from.

## Theorems

* `scripted_sends`: What is sent to the server is by the script.
* `under_beat`: One step keeps the instance on the chart.
* `Delegated.under`: And so does every run.
* `accepts_exec`, `refuses_exec`: What goes through and what is refused can be seen on the
  chart.
* `Delegated.sweep`: What a sweep says of every run.
-/

namespace WedFlow

open Workflow (Mode Phase Inst Policy Action Step Performs Chart Node)

namespace Flow

/-! ## The workers and everybody else -/

/-- A statement of somebody else that leaves the flow to its workers: definitions
    stay, the instance is started with one of the choices if at all, and nobody writes
    it or aborts its jobs. -/
def Admits (f : Flow) (chs : List (List (String × String))) (wid : Int) (db : Db) : Op → Prop
  | .insertFlow v _ vals => v = wid → ∃ ch ∈ chs, f.Chooses ch vals
  | .updateFlow v _ _ _ => v ≠ wid
  | .jobAbort u => ∀ j ∈ db.jobPool, j.uptkn = u → j.wid ≠ wid
  | .jobLock _ _ => True
  | .jobInspector => True
  | _ => False

/-- What happens is what the workers of the flow do, or is left open by it. A worker
    of the instance writes one of its `SET` lists, as far as it matters. -/
def Follows (f : Flow) (chs : List (List (String × String))) (wid : Int) (c : Crew) : Beat → Prop
  | .other (.statement i) => f.Admits chs wid c.cluster.db i.op
  | .move w (.update _ _ vals _) =>
    match c.members w with
    | some ⟨tgid, _, _, _, .running job⟩ => job.wid = wid →
        ∀ r ∈ c.cluster.db.wedFlow, r.wid = wid →
          ∃ ss ∈ f.orders tgid, ∀ a ∈ f.names, vals.lookup a = (setList ss r.attrs).lookup a
    | _ => True
  | _ => True

theorem Follows.of_running {f : Flow} {chs : List (List (String × String))} {wid : Int} {c : Crew}
    {w : Nat} {env : Env} {newWid : Option Int} {vals : List (String × Option String)} {k : Nat}
    (h : f.Follows chs wid c (.move w (.update env newWid vals k))) {d : Daemon}
    (hd : c.members w = some d) {job : Job} (hphase : d.phase = .running job) (hw : job.wid = wid) :
    ∀ r ∈ c.cluster.db.wedFlow, r.wid = wid →
      ∃ ss ∈ f.orders d.tgid, ∀ a ∈ f.names, vals.lookup a = (setList ss r.attrs).lookup a := by
  rcases d with ⟨tgid, seen, notifies, polled, phase⟩
  dsimp only at hphase ⊢
  subst hphase
  unfold Follows at h
  dsimp only at h
  rw [hd] at h
  exact h hw

theorem scripted_admits {f : Flow} {chs : List (List (String × String))}
    (loc : Locale) {wid : Int} {db : Db} {i : Input} (hdb : f.Installed db) (h : f.Admits chs wid db i.op) :
    Scripted (f.chart chs) f.view f.states loc wid db i ∧ ¬ i.op.Defines := by
  rcases i with ⟨env, op⟩
  dsimp only at h ⊢
  cases op with
  | insertFlow v uptkn vals =>
      refine ⟨⟨id, fun a ha => ?_⟩, id⟩
      unfold actions at ha
      dsimp only at ha
      split at ha
      next s hs =>
        rcases Prod.mk.inj (List.mem_singleton.mp ha) with ⟨hv, rfl⟩
        rcases h hv.symm with ⟨ch, hch, hvals⟩
        rw [hdb.columns] at hs
        rcases start_view hvals hs with ⟨hin, hview⟩
        exact ⟨hin, hview ▸ List.mem_map_of_mem hch⟩
      next => exact absurd ha List.not_mem_nil
  | updateFlow v newWid uptkn vals =>
      refine ⟨⟨id, fun a ha => ?_⟩, id⟩
      rcases actions_update loc env v newWid uptkn vals db (List.ne_nil_of_mem ha) with
        ⟨old, s, u, -, -, -, -, -, -, ⟨-, hact⟩ | ⟨-, j, -, -, -, -, hact⟩⟩
      · rw [hact] at ha
        exact absurd (Prod.mk.inj (List.mem_singleton.mp ha)).1.symm h
      · rw [hact] at ha
        exact absurd (Prod.mk.inj (List.mem_singleton.mp ha)).1.symm h
  | jobLock u lckid =>
      refine ⟨⟨id, fun a ha => ?_⟩, id⟩
      have hm := mem_actions loc _ db _ ha
      cases a with
      | lock t => trivial
      | timeout t => trivial
      | insert s => simp only [reduceCtorEq, exists_false] at hm
      | complete t s => simp only [reduceCtorEq, exists_false] at hm
      | recover s => simp only [reduceCtorEq, exists_false] at hm
      | abort t => simp only [reduceCtorEq, false_and, exists_false] at hm
  | jobAbort u =>
      refine ⟨⟨id, fun a ha => ?_⟩, id⟩
      have hm := mem_actions loc _ db _ ha
      cases a with
      | lock t => trivial
      | timeout t => trivial
      | insert s => simp only [reduceCtorEq, exists_false] at hm
      | complete t s => simp only [reduceCtorEq, exists_false] at hm
      | recover s => simp only [reduceCtorEq, exists_false] at hm
      | abort t =>
          rcases hm with ⟨u', j, hop, hj, -, -, hw, -⟩
          rcases jobOf_some db u' j hj with ⟨hjm, hju⟩
          exact h j hjm (hju.trans (Op.jobAbort.inj hop).symm) hw.symm
  | jobInspector =>
      refine ⟨⟨id, fun a ha => ?_⟩, id⟩
      have hm := mem_actions loc _ db _ ha
      cases a with
      | lock t => trivial
      | timeout t => trivial
      | insert s => simp only [reduceCtorEq, exists_false] at hm
      | complete t s => simp only [reduceCtorEq, exists_false] at hm
      | recover s => simp only [reduceCtorEq, exists_false] at hm
      | abort t => simp only [reduceCtorEq, false_and, exists_false] at hm
  | _ => exact h.elim

/-- The row of an instance that is on the chart has a state of the flow. -/
theorem mem_states_of_onChart {f : Flow} {chs : List (List (String × String))} {n : Nat} {wid : Int}
    {db : Db} (hi : Inv db) (h : OnChart (f.chart chs) f.view f.states n wid db) {r : FlowRow}
    (hr : r ∈ db.wedFlow) (hw : r.wid = wid) :
    r.attrs ∈ f.states ∧ ∀ i, inst db wid = some i → i.state = r.attrs := by
  refine ⟨?_, fun i hinst => inst_state hi hr hw hinst⟩
  subst hw
  rcases hi.exists_status hr with ⟨st, hst, hw⟩
  unfold OnChart at h
  rw [inst_of_mem hi hr hst hw] at h
  exact h.1

/-- The token of a process is that of its job, so what it completes is its own
    trigger. -/
theorem scripted_update {f : Flow} (hf : f.WellFormed) {chs : List (List (String × String))}
    (loc : Locale) {n : Nat} {wid : Int} {c : Crew} (hc : c.Sound)
    (hon : OnChart (f.chart chs) f.view f.states n wid c.cluster.db) {w : Nat} {d : Daemon}
    (hd : c.members w = some d) {job : Job} (hphase : d.phase = .running job) {env : Env}
    {newWid : Option Int} {vals : List (String × Option String)} {k : Nat}
    (h : f.Follows chs wid c (.move w (.update env newWid vals k))) :
    Scripted (f.chart chs) f.view f.states loc wid c.cluster.db
      ⟨env, .updateFlow job.wid newWid (some (some job.uptkn)) vals⟩ := by
  refine ⟨id, fun a ha => ?_⟩
  rcases (hc.knows w d hd).running job hphase with ⟨j, hj, hg, hjob⟩
  have hu : job.uptkn = j.uptkn := congrArg Job.uptkn hjob
  rcases actions_update loc env job.wid newWid _ vals _ (List.ne_nil_of_mem ha) with
    ⟨old, s, u, hold, hwid, hs, htok, -, -, ⟨he, -⟩ | ⟨-, j', hj', hu', -, -, hact⟩⟩
  · rw [Option.getD_some, Option.some.injEq] at htok
    rw [← htok, hu] at he
    exact absurd he (hc.cluster.inv.token_ne_exception loc hj)
  · rw [Option.getD_some, Option.some.injEq] at htok
    have hsame : j' = j :=
      hc.cluster.inv.pool.tokens.eq_of_mem hj' hj (hu'.trans (htok.symm.trans hu))
    rw [hact, hsame] at ha
    rcases Prod.mk.inj (List.mem_singleton.mp ha) with ⟨hw, rfl⟩
    have hrow : old.wid = wid := hwid.trans hw.symm
    rcases h.of_running hd hphase hw.symm old hold hrow with ⟨ss, hss, hvals⟩
    rcases mem_states_of_onChart hc.cluster.inv hon hold hrow with ⟨hin, hstate⟩
    rcases assign_view hf hin hss hvals hs with ⟨hin', hassign⟩
    refine ⟨hin', fun i hi => ?_⟩
    rw [hstate i hi, hg]
    exact List.mem_filterMap.mpr ⟨ss, hss, hassign⟩

/-- Everything that is sent to the server leaves the instance to its workers. -/
theorem scripted_sends {f : Flow} (hf : f.WellFormed) {chs : List (List (String × String))}
    (loc : Locale) {n : Nat} {wid : Int} {c : Crew} (hc : c.Sound) (hdb : f.Installed c.cluster.db)
    (hon : OnChart (f.chart chs) f.view f.states n wid c.cluster.db) {b : Beat}
    (h : f.Follows chs wid c b) {i : Input} (hi : c.sends b = some (.statement i)) :
    Scripted (f.chart chs) f.view f.states loc wid c.cluster.db i ∧ ¬ i.op.Defines := by
  cases b with
  | other t =>
      have ht : t = .statement i := Option.some.inj hi
      subst ht
      exact scripted_admits loc hdb h
  | start w tgid => exact absurd hi.symm (Option.some_ne_none _)
  | move w m =>
      rcases Option.bind_eq_some_iff.mp hi with ⟨d, hd, hsend⟩
      unfold Daemon.sends at hsend
      cases m with
      | lock env k =>
          dsimp only at hsend
          split at hsend
          · have heq := Turn.statement.inj (Option.some.inj hsend)
            subst heq
            exact scripted_admits loc hdb trivial
          · exact absurd hsend.symm (Option.some_ne_none _)
      | update env newWid vals k =>
          dsimp only at hsend
          split at hsend
          next job hphase =>
            have heq := Turn.statement.inj (Option.some.inj hsend)
            subst heq
            exact ⟨scripted_update hf loc hc hon hd hphase h, id⟩
          next => exact absurd hsend.symm (Option.some_ne_none _)
      | timeout pick k => exact absurd hsend.symm (Option.some_ne_none _)
      | ready k => exact absurd hsend.symm (Option.some_ne_none _)
      | pop => exact absurd hsend.symm (Option.some_ne_none _)
      | kill => exact absurd hsend.symm (Option.some_ne_none _)

/-! ## Runs -/

theorem installed_change {f : Flow} {loc : Locale} {env : Env} {op : Op} {r : Reply} {db db' : Db}
    (h : Change loc env db op r db') (hdef : ¬ op.Defines) (hres : ¬ op.Restyles)
    (hdb : f.Installed db) : f.Installed db' := by
  cases h with
  | update wid newWid uptkn vals old u db₁ w h =>
      rcases h.justified with ⟨fin, e, -, -, hj⟩
      refine ⟨?_, ?_, ?_, ?_⟩ <;> rw [hj.same]
      · exact hdb.conds
      · exact hdb.preds
      · exact hdb.trigs
      · exact hdb.columns
  | redefine op db' hop h => exact absurd hop hdef
  | restyle op db' hop h => exact absurd hop hres
  | _ => exact ⟨hdb.conds, hdb.preds, hdb.trigs, hdb.columns⟩

theorem kept_turn (loc : Locale) (c : Cluster) (t : Turn) (hc : ClusterInv c)
    (h : Kept c.db.catalog) : Kept (turn loc c t).db.catalog := by
  have ht := serve_turned loc c t
  unfold turn
  generalize (serve loc c t).1 = c', (serve loc c t).2 = a at ht ⊢
  cases ht with
  | statement i db r hg hexec => exact h.step (catalog_exec loc i _ db r hc.inv hexec)
  | loop pid env s db hs hg hreq =>
      have hsc := hc.scans _ (List.mem_of_find?_eq_some hs)
      rcases (hsc.requeue_ok_iff hc.inv loc _ db).mp hreq with ⟨-, rfl⟩
      exact h
  | _ => exact h

/-- A step of a process or of somebody else is a turn at most. -/
theorem cluster_beat (loc : Locale) (c : Crew) (b : Beat) (P : Cluster → Prop) (h : P c.cluster)
    (hturn : ∀ t, c.sends b = some t → P (turn loc c.cluster t)) : P (c.beat loc b).cluster := by
  unfold Crew.beat
  cases ht : c.sends b with
  | none => exact h
  | some t => exact hturn t ht

theorem kept_crew (loc : Locale) (bs : List Beat) : Kept (crew loc bs).cluster.db.catalog := by
  refine (Machine.after_invariant (Crew.beat loc) (fun _ => True)
    (fun c => c.Sound ∧ Kept c.cluster.db.catalog) ?_ Crew.empty ⟨sound_empty, kept_empty⟩ bs
    (fun _ _ => trivial)).2
  intro c b _ h
  exact ⟨sound_beat loc c b h.1, cluster_beat loc c b (fun c => Kept c.db.catalog) h.2
    (fun t _ => kept_turn loc c.cluster t h.1.cluster h.2)⟩

/-- The step writes a state of the instance. -/
def writesBeat (loc : Locale) (wid : Int) (p : Crew × Beat) : Bool :=
  (p.1.sends p.2).bind (·.writes loc p.1.cluster) = some wid

/-- What is kept while the workers are at work. -/
structure Under (f : Flow) (chs : List (List (String × String))) (n : Nat) (wid : Int) (c : Crew) :
    Prop where
  sound : c.Sound
  kept : Kept c.cluster.db.catalog
  installed : f.Installed c.cluster.db
  followed : Followed (f.chart chs) f.view f.states n wid c.cluster

theorem under_beat {f : Flow} (hf : f.WellFormed) {chs : List (List (String × String))}
    {loc : Locale} (hloc : loc.Ascii) {n : Nat} {wid : Int} {c : Crew} {b : Beat}
    (hb : f.Follows chs wid c b) (h : f.Under chs n wid c) :
    f.Under chs (n + if writesBeat loc wid (c, b) = true then 1 else 0) wid (c.beat loc b) := by
  have hsound := sound_beat loc c b h.sound
  have hkept := cluster_beat loc c b (fun c => Kept c.db.catalog) h.kept
    (fun t _ => kept_turn loc c.cluster t h.sound.cluster h.kept)
  unfold writesBeat
  simp only [decide_eq_true_eq]
  cases ht : c.sends b with
  | none =>
      have hsame : (c.beat loc b).cluster = c.cluster := by
        unfold Crew.beat
        rw [ht, Option.elim_none]
      exact ⟨hsound, hkept, hsame ▸ h.installed, hsame ▸ h.followed⟩
  | some t =>
      have hturn : (c.beat loc b).cluster = turn loc c.cluster t := by
        unfold Crew.beat
        rw [ht, Option.elim_some]
      have hscript : ∀ i, t = .statement i → Scripted (f.chart chs) f.view f.states loc wid
          c.cluster.db i ∧ ¬ i.op.Defines := by
        rintro i rfl
        exact scripted_sends hf loc h.sound h.installed h.followed.onChart hb ht
      refine ⟨hsound, hkept, ?_, ?_⟩
      · have hserve := serve_turned loc c.cluster t
        rw [hturn]
        unfold turn
        generalize serve loc c.cluster t = q at hserve ⊢
        rcases q with ⟨c', a⟩
        cases hserve with
        | statement i db r hg hexec =>
            rcases hscript i rfl with ⟨hs, hdef⟩
            exact installed_change (exec_change loc i _ db r h.sound.cluster.inv hexec) hdef hs.keeps
              h.installed
        | loop pid env s db hs hg hreq =>
            have hsc := h.sound.cluster.scans _ (List.mem_of_find?_eq_some hs)
            rcases (hsc.requeue_ok_iff h.sound.cluster.inv loc _ db).mp hreq with ⟨-, rfl⟩
            exact ⟨h.installed.conds, h.installed.preds, h.installed.trigs, h.installed.columns⟩
        | idle t a ha => exact h.installed
        | scan pid now hfree => exact h.installed
        | release t a pid ha => exact h.installed
        | noRows pid env s hs hrows => exact h.installed
      · rw [hturn, Option.bind_some]
        exact followed_turn h.sound.cluster (describes hf hloc h.installed chs)
          (fun i hi => (hscript i hi).1) h.followed

/-- After some history the definitions are those of the flow, and from then on an
    instance that was not there is left to its workers. -/
structure Delegated (loc : Locale) (f : Flow) (chs : List (List (String × String))) (wid : Int)
    (bs₀ bs : List Beat) : Prop where
  installed : f.Installed (crew loc bs₀).cluster.db
  new : wid ∉ (crew loc bs₀).cluster.db.wedFlow.map (·.wid)
  follows : ∀ p ∈ Machine.history (Crew.beat loc) (crew loc bs₀) bs, f.Follows chs wid p.1 p.2

theorem under_of_new {f : Flow} {chs : List (List (String × String))} {wid : Int} {c : Crew}
    (hc : c.Sound) (hkept : Kept c.cluster.db.catalog) (hdb : f.Installed c.cluster.db)
    (hnew : wid ∉ c.cluster.db.wedFlow.map (·.wid)) : f.Under chs 0 wid c := by
  have hi := hc.cluster.inv
  refine ⟨hc, hkept, hdb, ?_, fun s hs r hr hw => ?_⟩
  · unfold OnChart
    rw [(inst_eq_none_iff hi wid).mpr hnew]
    rfl
  · rcases (hc.cluster.scans s hs).job r hr with ⟨j, hj, -, hjw, -⟩
    exact absurd (hw ▸ hjw ▸ hi.pool.flow j hj) hnew

section Delegated

variable {loc : Locale} {f : Flow} {chs : List (List (String × String))} {wid : Int}
  {bs₀ bs : List Beat}

/-- The tables after the run. -/
abbrev Delegated.db (_ : f.Delegated loc chs wid bs₀ bs) : Db :=
  (crew loc (bs₀ ++ bs)).cluster.db

/-- How many times the instance has been written. -/
def Delegated.writes (_ : f.Delegated loc chs wid bs₀ bs) : Nat :=
  (Machine.history (Crew.beat loc) (crew loc bs₀) bs).countP (writesBeat loc wid)

/-- The instance is on the level that this number says. -/
theorem Delegated.under (hloc : loc.Ascii) (hf : f.WellFormed)
    (h : f.Delegated loc chs wid bs₀ bs) :
    f.Under chs h.writes wid (crew loc (bs₀ ++ bs)) := by
  have hend : crew loc (bs₀ ++ bs) = Machine.after (Crew.beat loc) (crew loc bs₀) bs :=
    Machine.after_append _ _ _ _
  rw [hend]
  refine Machine.history_invariant_along (Crew.beat loc) (f.Follows chs wid)
    (fun past c => f.Under chs (past.countP (writesBeat loc wid)) wid c) _
    (under_of_new (sound_crew loc bs₀) (kept_crew loc bs₀) h.installed h.new)
    (fun past c b hb hu => ?_) bs h.follows
  rw [List.countP_append, List.countP_singleton]
  exact under_beat hf hloc hb hu

end Delegated

/-! ## What workers have to write -/

/-- The tokens that an update of the instance may draw are new. -/
def Draws (loc : Locale) (env : Env) (wid : Int) (db : Db) : Prop :=
  ∀ fired : List TrigRow, fired.Sublist db.wedTrig →
    Fresh loc db.jobPool (freshJobs env 0 (fired.map (TrigRow.request wid)))

/-- The update with which a worker completes its job, after it has asked for the lock. A
    job that is locked already stays as it is. -/
def completing (loc : Locale) (db : Db) (j : JobRow) (lckid : Option String) (env env' : Env)
    (vals : List (String × Option String)) : Except Error (Db × Reply) :=
  exec loc ⟨env', .updateFlow j.wid none (some (some j.uptkn)) vals⟩
    (step loc db ⟨env, .jobLock j.uptkn lckid⟩)

/-- Whatever the worker of the trigger chooses to write goes through, if it draws new
    tokens and there is no single quote in the row. -/
def Accepts (loc : Locale) (f : Flow) (db : Db) (wid g : Int) : Prop :=
  f.orders g ≠ [] ∧ ∀ ss ∈ f.orders g, ∀ r ∈ db.wedFlow, r.wid = wid →
    (∀ a ∈ r.attrs, '\'' ∉ a.2.toList) → ∀ j ∈ db.jobPool, OpenAt wid g j = true →
      ∀ lckid env env', Draws loc env' wid db →
        ∃ db', completing loc db j lckid env env' (setList ss r.attrs) = .ok (db', .rows 1)

/-- Nothing that the worker of the trigger can choose goes through. -/
def Refuses (loc : Locale) (f : Flow) (db : Db) (wid g : Int) : Prop :=
  ∀ ss ∈ f.orders g, ∀ r ∈ db.wedFlow, r.wid = wid → ∀ j ∈ db.jobPool, OpenAt wid g j = true →
    ∀ lckid env env' out, completing loc db j lckid env env' (setList ss r.attrs) ≠ .ok out

/-- On the chart, there is something to settle on after the `SET` list. -/
def takes (f : Flow) (n : Node State Int) (g : Int) (ss : List (String × Setting)) : Bool :=
  ((assign ss n.state).bind ((f.chart []).settle (n.running.filter (· ≠ g)))).isSome

def accepts (f : Flow) (n : Node State Int) (g : Int) : Bool :=
  !(f.orders g).isEmpty && (f.orders g).all (f.takes n g)

def refuses (f : Flow) (n : Node State Int) (g : Int) : Bool :=
  (f.orders g).all fun ss => !f.takes n g ss

theorem takes_iff {f : Flow} (hf : f.WellFormed) {loc : Locale} (hloc : loc.Ascii) {db : Db}
    (hdb : f.Installed db) {i : Inst State Int} (hs : i.state ∈ f.states) {n : Node State Int}
    (hn : n.Shows f.view i) {g : Int} {ss : List (String × Setting)} (hss : ss ∈ f.orders g) :
    f.takes n g ss = true ↔ ∃ s k, assignFlow i.state (setList ss i.state) = .ok s ∧
      Workflow.settle (policy loc db) (Function.update i.running g none) s = some k := by
  have hd := describes hf hloc hdb []
  unfold takes
  rw [hn.state, Option.isSome_iff_exists]
  constructor
  · rintro ⟨m, hm⟩
    rcases Option.bind_eq_some_iff.mp hm with ⟨u, hu, hset⟩
    rcases exists_assignFlow hf hs hss hu with ⟨s, hwrite⟩
    rcases assign_view hf hs hss (fun _ _ => rfl) hwrite with ⟨hin, hview⟩
    rw [hu, Option.some.injEq] at hview
    rw [hview] at hset
    have hne := (Chart.settle_ne_none hd (hn.without g) hin).mp (hset ▸ Option.some_ne_none m)
    rcases Option.ne_none_iff_exists'.mp hne with ⟨k, hk⟩
    exact ⟨s, k, hwrite, hk⟩
  · rintro ⟨s, k, hwrite, hk⟩
    rcases assign_view hf hs hss (fun _ _ => rfl) hwrite with ⟨hin, hview⟩
    have hne := (Chart.settle_ne_none hd (hn.without g) hin).mpr (hk ▸ Option.some_ne_none k)
    rw [hview, Option.bind_some]
    exact Option.ne_none_iff_exists'.mp hne

/-- After `job_lock` the job of a running trigger is locked, whoever has asked for it, and
    nothing else has changed. -/
structure Locked (loc : Locale) (db db₁ : Db) (i : Inst State Int) (j j₁ : JobRow) : Prop where
  inv : Inv db₁
  mem : j₁ ∈ db₁.jobPool
  job : j₁.uptkn = j.uptkn ∧ j₁.wid = j.wid ∧ j₁.tgid = j.tgid ∧ j₁.tf = none
  inst : inst db₁ j.wid = some { i with running := Function.update i.running j.tgid (some .locked) }
  same : db₁ = { db with jobPool := db₁.jobPool }
  tokens : db₁.jobPool.map (·.uptkn) = db.jobPool.map (·.uptkn)

namespace Locked

variable {loc : Locale} {db db₁ : Db} {i : Inst State Int} {j j₁ : JobRow}

theorem policy_eq (h : Locked loc db db₁ i j j₁) : policy loc db₁ = policy loc db := by
  rw [h.same]
  rfl

theorem mem_flow (h : Locked loc db db₁ i j j₁) {r : FlowRow} (hr : r ∈ db.wedFlow) :
    r ∈ db₁.wedFlow := by
  rw [h.same]
  exact hr

theorem catalog_eq (h : Locked loc db db₁ i j j₁) : db₁.catalog = db.catalog := by
  rw [h.same]
  rfl

theorem installed (h : Locked loc db db₁ i j j₁) {f : Flow} (hdb : f.Installed db) :
    f.Installed db₁ := by
  rw [h.same]
  exact ⟨hdb.conds, hdb.preds, hdb.trigs, hdb.columns⟩

end Locked

theorem locked_step (loc : Locale) {db : Db} (hi : Inv db) {j : JobRow} (hj : j ∈ db.jobPool)
    (ht : j.tf = none) {i : Inst State Int} (hinst : WedFlow.inst db j.wid = some i)
    (env : Env) (lckid : Option String) :
    ∃ j₁, Locked loc db (step loc db ⟨env, .jobLock j.uptkn lckid⟩) i j j₁ := by
  have hof := jobOf_eq db hi.pool.tokens j hj
  have hrun : i.running j.tgid = some (phaseOf j) := by
    rw [inst_running hinst, runs_of_open hi.pool hj ht]
  by_cases hl : j.locked = true
  · -- The call fails, and the database stays as it is.
    have hstep : step loc db ⟨env, .jobLock j.uptkn lckid⟩ = db := by
      refine step_cases loc db _ (fun d => d = db) rfl (fun db' r hex => ?_)
      rcases (Table.map_eq_ok _ _ _).mp hex with ⟨⟨d, b⟩, hok, -⟩
      rcases (jobLock_ok_iff _ _ _ _ _ _ hi.lockJob hi.pool.tokens).mp hok with
        ⟨hnone, -⟩ | ⟨j', hj', hfree, -⟩
      · exact absurd (hof.symm.trans hnone) (Option.some_ne_none j)
      · rw [hof, Option.some.injEq] at hj'
        rw [← hj', hl] at hfree
        exact Bool.noConfusion hfree
    rw [hstep]
    refine ⟨j, hi, hj, ⟨rfl, rfl, rfl, ht⟩, ?_, rfl, rfl⟩
    have hphase : phaseOf j = .locked := if_pos hl
    rw [hinst, ← hphase, ← hrun, Function.update_eq_self]
  · have hex : exec loc ⟨env, .jobLock j.uptkn lckid⟩ db
        = .ok (writeJob j.uptkn (lockRow env.now lckid) db, .bool true) :=
      (Table.map_eq_ok _ _ _).mpr ⟨(_, true),
        (jobLock_ok_iff _ _ _ _ _ _ hi.lockJob hi.pool.tokens).mpr
          (.inr ⟨j, hof, Bool.eq_false_iff.mpr hl, rfl, rfl⟩), rfl⟩
    have hperf := exec_performs loc _ db _ _ hi id hex
    have hact : actions loc ⟨env, .jobLock j.uptkn lckid⟩ db = [(j.wid, .lock j.tgid)] := by
      unfold actions
      dsimp only
      rw [hof]
      exact if_pos ht
    rw [step_of_exec hex]
    rw [hact] at hperf
    refine ⟨lockRow env.now lckid j, inv_exec loc _ db _ _ hi hex, ?_, ⟨rfl, rfl, rfl, ht⟩, ?_, rfl,
      Table.map_updateWhere _ _ _ _ (fun _ _ _ => rfl)⟩
    · exact (Table.mem_updateWhere _ _ _ _).mpr ⟨j, hj, (if_pos (decide_eq_true rfl)).symm⟩
    · generalize WedFlow.inst (writeJob j.uptkn (lockRow env.now lckid) db) = A at hperf ⊢
      cases hperf with
      | cons A w a k l A' hstep hrest =>
          cases hrest with
          | nil A =>
              rw [hinst] at hstep
              cases hstep with
              | lock k g hpend => exact Function.update_self _ _ _

section Writes

variable {f : Flow} {loc : Locale} {db : Db} {wid : Int} {i : Inst State Int} {n : Node State Int}

/-- What the chart takes goes through. -/
theorem accepts_exec (hf : f.WellFormed) (hw : f.Workable) (hloc : loc.Ascii) (hi : Inv db)
    (hdb : f.Installed db) (hkept : Kept db.catalog) (hinst : inst db wid = some i)
    (hs : i.state ∈ f.states) (hact : i.mode = .active) (hn : n.Shows f.view i) {g : Int}
    (h : f.accepts n g = true) : f.Accepts loc db wid g := by
  unfold accepts at h
  rw [Bool.and_eq_true, Bool.not_eq_true', List.isEmpty_eq_false_iff, List.all_eq_true] at h
  refine ⟨h.1, fun ss hss r hr hrw hquote j hj hopen lckid env env' hdraws => ?_⟩
  rcases (openAt_iff _ _ _).mp hopen with ⟨rfl, ht, rfl⟩
  have hstate : i.state = r.attrs := inst_state hi hr hrw hinst
  rcases (takes_iff hf hloc hdb hs hn hss).mp (h.2 ss hss) with ⟨s, k, hassign, hsettle⟩
  rcases locked_step loc hi hj ht hinst env lckid with ⟨j₁, hlock⟩
  rcases hlock.job with ⟨htok, hwid, hgid, ht₁⟩
  unfold completing
  generalize step loc db ⟨env, .jobLock j.uptkn lckid⟩ = db₁ at hlock ⊢
  rw [hstate] at hassign hs
  have hin := (assign_view hf hs hss (fun _ _ => rfl) hassign).1
  -- The engine can store what is written.
  have hwrite : Writable loc env' db₁ j.wid s := by
    refine Workable.writable hf hw (hlock.installed hdb) (hlock.catalog_eq ▸ hkept) hin
      (hw.quoteless hss hquote hassign) (fun fired hsub => ?_)
    rw [fresh_congr loc db.jobPool _ _ hlock.tokens]
    refine hdraws fired ?_
    rw [hlock.same] at hsub
    exact hsub
  have hstep : Step (policy loc db₁) (inst db₁ j.wid) (.complete j.tgid s) k := by
    rw [hlock.inst, hlock.policy_eq]
    refine .complete _ _ _ _ hact (Function.update_self _ _ _) ?_
    rw [Function.update_idem]
    exact hsettle
  rw [← hgid] at hstep
  rw [← htok]
  rcases exists_updates_complete loc env' j.wid none (some (some j₁.uptkn)) (setList ss r.attrs) db₁ r
    j₁ s k hlock.inv (hlock.mem_flow hr) hrw hassign rfl rfl (hlock.inv.token_ne_empty hlock.mem)
    (hlock.inv.token_ne_exception loc hlock.mem) hlock.mem hwid ht₁ hstep hwrite with ⟨w, hup⟩
  exact ⟨_, (Table.map_eq_ok _ _ _).mpr ⟨(_, 1), (updateFlow_ok_iff loc env' j.wid none _ _ db₁ _ 1
    hlock.inv.keyed).mpr (.inr ⟨r, _, _, w, hup, rfl, rfl⟩), rfl⟩⟩

/-- What the chart does not take is refused. -/
theorem refuses_exec (hf : f.WellFormed) (hloc : loc.Ascii) (hi : Inv db) (hdb : f.Installed db)
    (hinst : inst db wid = some i) (hs : i.state ∈ f.states) (hn : n.Shows f.view i) {g : Int}
    (h : f.refuses n g = true) : f.Refuses loc db wid g := by
  unfold refuses at h
  rw [List.all_eq_true] at h
  intro ss hss r hr hrw j hj hopen lckid env env' out hout
  rcases (openAt_iff _ _ _).mp hopen with ⟨rfl, ht, rfl⟩
  have hno : ¬ f.takes n j.tgid ss = true := Bool.eq_false_iff.mp ((Bool.not_eq_true' _).mp (h ss hss))
  refine hno ((takes_iff hf hloc hdb hs hn hss).mpr ?_)
  have hstate : i.state = r.attrs := inst_state hi hr hrw hinst
  rcases locked_step loc hi hj ht hinst env lckid with ⟨j₁, hlock⟩
  rcases hlock.job with ⟨htok, -, hgid, -⟩
  unfold completing at hout
  generalize step loc db ⟨env, .jobLock j.uptkn lckid⟩ = db₁ at hlock hout
  have hflow := hlock.mem_flow hr
  rcases out with ⟨db', reply⟩
  rcases rows_of_change loc env' _ reply db₁ db' hlock.inv
    (exec_change loc _ db₁ db' reply hlock.inv hout) id with hsil | ⟨w, a, k, -, hone, -⟩
  · -- The row is there, so an update that goes through writes it.
    rcases (Table.map_eq_ok _ _ _).mp hout with ⟨⟨d, m⟩, hok, heq⟩
    rcases (updateFlow_ok_iff loc env' j.wid none _ _ db₁ d m hlock.inv.keyed).mp hok with
      ⟨hfree, -⟩ | ⟨-, -, -, -, -, -, hm⟩
    · exact absurd (List.mem_map.mpr ⟨r, hflow, hrw⟩) hfree
    · subst hm
      exact absurd (Prod.mk.inj heq).2.symm hsil.reply
  · have hask : actions loc ⟨env', .updateFlow j.wid none (some (some j.uptkn)) (setList ss r.attrs)⟩
        db₁ ≠ [] := by
      rw [hone.asked]
      exact List.cons_ne_nil _ _
    rcases actions_update loc env' j.wid none _ _ db₁ hask with
      ⟨old, s, u, hold, hwid, hassign, hu, -, -, hcase⟩
    have hsameRow : old = r := hlock.inv.flow.eq_of_mem hold hflow (hwid.trans hrw.symm)
    rw [Option.getD_some, Option.some.injEq] at hu
    subst hu
    rcases hcase with ⟨hexc, -⟩ | ⟨-, j', hj', hu', -, -, ha⟩
    · exact absurd (htok ▸ hexc) (hlock.inv.token_ne_exception loc hlock.mem)
    · have hjob : j' = j₁ := hlock.inv.pool.tokens.eq_of_mem hj' hlock.mem (hu'.trans htok.symm)
      rw [hone.asked, List.cons.injEq, Prod.mk.injEq] at ha
      have hstep := hone.step
      rw [ha.1.1, ha.1.2, hjob, hgid, hlock.inst, hlock.policy_eq] at hstep
      cases hstep with
      | complete i' t' s' k' hmode hrun hsettle =>
          rw [Function.update_idem] at hsettle
          refine ⟨s, k, ?_, hsettle⟩
          rw [hstate, ← hsameRow]
          exact hsameRow ▸ hassign

end Writes

/-- A sweep of the chart speaks of every run. -/
theorem Delegated.sweep {loc : Locale} (hloc : loc.Ascii) {f : Flow} (hf : f.WellFormed)
    {chs : List (List (String × String))} {ok : Nat → Node State Int → Bool} {K : Nat}
    (hsweep : (f.chart chs).sweep ok K ((f.chart chs).level 1) = true) {wid : Int}
    {bs₀ bs : List Beat} (h : f.Delegated loc chs wid bs₀ bs) :
    h.writes ≤ K ∧ ∀ i, inst h.db wid = some i → i.state ∈ f.states ∧
      ∃ n, ok (K - h.writes) n = true ∧ n.Shows f.view i :=
  Chart.sweep_sound hsweep (h.under hloc hf).followed.onChart

end Flow

end WedFlow
