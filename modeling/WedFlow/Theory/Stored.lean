import WedFlow.Theory.Tokens

/-!
# Stored Tokens

An update of `wed_flow` that leaves `var_uptkn` out of its `SET` list keeps what
the row has, and the kernel cannot tell a token that was stored long ago from one
that comes with the update. So an instance is safe from updates without a token
only as long as the token it stores is worth nothing.

Usually it is. An instance starts without one, and what an accepted update stores
is the token of the job it has just closed, which stays closed. But an update can
also be accepted for the word that asks for recovery, and then it is the word
that is stored. If the recovery leads to another exception, the word is as good
as before, and an update without a token is taken for one more recovery. The
recovery that led there shows it: what it wrote can be written again.

## Main definitions

* `Spent`: A token that justifies no update, unless it is the word.
* `StoresSpent`: An instance that stores nothing else.
* `Relapsed`: An instance that stores the word and is in an exception.
* `Relapses`: A recovery into another exception.

## Theorems

* `stored_change`, `stored_turn`: What is stored is old or spent.
* `storesSpent_turn`: What is spent stays spent.
* `relapsed_of_tokenless`: An update without a token needs such an instance.
* `relapsed_turn`: Only a recovery into another exception leads there.
* `updates_again`, `relapses_repeats`: After it, an update without a token is accepted.
* `not_relapsed_after`: Without it, no run leads there.
* `tokenless_rejected_iff`: When all updates without a token are rejected.
-/

namespace WedFlow

/-- What is stored justifies no update, unless it is the word that asks for
    recovery. -/
def Spent (loc : Locale) (db : Db) (uptkn : Option String) : Prop :=
  ∀ u, uptkn = some u → loc.lower u = "exception" ∨ Closed u db

/-- The instance is there and what it stores is spent. -/
def StoresSpent (loc : Locale) (wid : Int) (db : Db) : Prop :=
  ∃ r ∈ db.wedFlow, r.wid = wid ∧ Spent loc db r.varUptkn

/-- The instance stores the word that asks for recovery, and is in an exception. -/
structure Relapsed (loc : Locale) (wid : Int) (db : Db) : Prop where
  stored : ∃ r ∈ db.wedFlow, r.wid = wid ∧ ∃ u, r.varUptkn = some u ∧ loc.lower u = "exception"
  excpt : ∃ s ∈ db.stStatus, s.wid = wid ∧ s.excpt = true

/-- The turn asks for recovery of the instance with a state that meets no committed
    predicate, and it goes through. -/
def Relapses (loc : Locale) (wid : Int) (p : Cluster × Turn) : Prop :=
  ∃ env newWid u vals, p.2 = .statement ⟨env, .updateFlow wid newWid (some (some u)) vals⟩ ∧
    loc.lower u = "exception" ∧ (serve loc p.1 p.2).2 = .replied (.rows 1) ∧
    ∃ old ∈ p.1.db.wedFlow, old.wid = wid ∧ ∃ attrs, assignFlow old.attrs vals = .ok attrs ∧
      ∀ cid, ¬ Meets loc attrs p.1.db cid

/-! ## What is stored -/

/-- A statement leaves the token of an instance as it was, or stores one that is
    spent. -/
theorem stored_change {loc : Locale} {env : Env} {db db' : Db} {op : Op} {r : Reply}
    (h : Change loc env db op r db') (q : FlowRow) (hq : q ∈ db.wedFlow) :
    ∃ q' ∈ db'.wedFlow, q'.wid = q.wid ∧
      (q'.varUptkn = q.varUptkn ∨ Spent loc db' q'.varUptkn) := by
  cases h with
  | insert wid uptkn vals w h => exact ⟨q, List.mem_append_left _ hq, rfl, .inl rfl⟩
  | update wid newWid uptkn vals old u db₁ w h =>
      rcases h.justified with ⟨f, e, -, -, hj⟩
      by_cases hqw : q.wid = w.new.wid
      · refine ⟨w.new, ?_, hqw.symm, .inr (fun v hv => ?_)⟩
        · refine Table.mem_updateWhere_of_pos _ (fun _ => w.new) _ q ?_ (decide_eq_true hqw)
          rw [hj.flow.1]
          exact hq
        · rw [h.uptkn_eq, Option.some.injEq] at hv
          subst hv
          generalize w.tgid = g at hj
          cases hj with
          | job j hne hjm hrun hwid =>
              have hju := ((isRunning_iff u j).mp hrun).1
              refine .inr ⟨completeRow env.now j, List.mem_append_left _ ?_, hju,
                Option.some_ne_none _⟩
              rw [← hju]
              exact mem_writeJob db (completeRow env.now) hjm
          | recovery he hx => exact .inl he
      · refine ⟨q, (Table.mem_updateWhere _ _ _ _).mpr ⟨q, ?_, ?_⟩, rfl, .inl rfl⟩
        · rw [hj.flow.1]
          exact hq
        · rw [if_neg (by simpa only [decide_eq_true_eq] using hqw)]
  | redefine op db' hop h =>
      rw [h.same]
      exact ⟨q, hq, rfl, .inl rfl⟩
  | restyle op db' hop h =>
      rcases h.same with ⟨f, hsame⟩
      rw [hsame]
      exact ⟨_, List.mem_map_of_mem hq, rfl, .inl rfl⟩
  | _ => exact ⟨q, hq, rfl, .inl rfl⟩

/-- The same of a turn: scans and loops do not touch the instances. -/
theorem stored_turn (loc : Locale) (c : Cluster) (t : Turn) (hc : ClusterInv c) (q : FlowRow)
    (hq : q ∈ c.db.wedFlow) :
    ∃ q' ∈ (turn loc c t).db.wedFlow, q'.wid = q.wid ∧
      (q'.varUptkn = q.varUptkn ∨ Spent loc (turn loc c t).db q'.varUptkn) := by
  unfold turn
  have ht := serve_turned loc c t
  generalize (serve loc c t).1 = c' at ht ⊢
  generalize (serve loc c t).2 = a at ht
  cases ht with
  | statement i db r hg hex => exact stored_change (exec_change loc i c.db db r hc.inv hex) q hq
  | loop pid env s db hs hg hreq =>
      have hsc := hc.scans _ (List.mem_of_find?_eq_some hs)
      rcases (hsc.requeue_ok_iff hc.inv loc _ db).mp hreq with ⟨-, rfl⟩
      exact ⟨q, hq, rfl, .inl rfl⟩
  | _ => exact ⟨q, hq, rfl, .inl rfl⟩

/-- What is spent stays spent. -/
theorem storesSpent_turn (loc : Locale) (c : Cluster) (t : Turn) (hc : ClusterInv c) (wid : Int)
    (h : StoresSpent loc wid c.db) : StoresSpent loc wid (turn loc c t).db := by
  rcases h with ⟨r, hr, hrw, hspent⟩
  rcases stored_turn loc c t hc r hr with ⟨r', hr', hw, hold | hnew⟩
  · refine ⟨r', hr', hw.trans hrw, fun u hu => ?_⟩
    exact (hspent u (hold ▸ hu)).imp_right (closed_turn loc c t hc u)
  · exact ⟨r', hr', hw.trans hrw, hnew⟩

/-- The turn creates the instance without a token. -/
def createsBare (loc : Locale) (wid : Int) (p : Cluster × Turn) : Prop :=
  ∃ env vals, p.2 = .statement ⟨env, .insertFlow wid none vals⟩ ∧
    (serve loc p.1 p.2).2 = .replied .done

theorem bare_of_createsBare {loc : Locale} {wid : Int} {c : Cluster} {t : Turn}
    (hc : ClusterInv c) (h : createsBare loc wid (c, t)) :
    ∃ r ∈ (turn loc c t).db.wedFlow, r.wid = wid ∧ r.varUptkn = none := by
  rcases h with ⟨env, vals, ht, ha⟩
  dsimp only at ht ha
  subst ht
  have hch := change_of_replied hc ha
  generalize (turn loc c _).db = db' at hch ⊢
  cases hch with
  | insert v uptkn vs w h =>
      exact ⟨w.new, List.mem_append_right _ (List.mem_singleton.mpr rfl), h.wid_eq, h.uptkn_eq⟩
  | redefine op db' hop h => exact hop.elim
  | restyle op db' hop h => exact hop.elim

/-! ## Updates without a token -/

/-- What is stored justifies an update without a token only after a relapse. -/
theorem relapsed_of_tokenless {loc : Locale} {env : Env} {wid : Int} {newWid : Option Int}
    {vals : List (String × Option String)} {db db₁ : Db} {old : FlowRow} {u : String} {w : Write}
    (hi : Inv db) (hs : StoresSpent loc wid db)
    (h : Updates loc env wid newWid none vals db old u db₁ w) : Relapsed loc wid db := by
  rcases hs with ⟨r, hr, hrw, hspent⟩
  have hold : old = r := hi.flow.eq_of_mem h.mem hr (h.old_wid.trans hrw.symm)
  subst hold
  have hu : old.varUptkn = some u := h.token
  rcases h.justified with ⟨f, e, hst, -, hj⟩
  have hrec : loc.lower u = "exception" ∧ e = true := by
    generalize w.tgid = g at hj
    cases hj with
    | job j hne hjm hrun hwid =>
        -- The token of an open job is not spent.
        rcases (isRunning_iff u j).mp hrun with ⟨hju, -, hopen⟩
        rcases hspent u hu with he | hclosed
        · exact absurd he hne
        · exact absurd hopen (hclosed.of_mem hi hjm hju)
    | recovery he hx => exact ⟨he, hx⟩
  exact ⟨⟨old, hr, hrw, u, hu, hrec.1⟩, ⟨_, hst, rfl, hrec.2⟩⟩

/-- An instance that has relapsed did so before, or has just been updated. -/
theorem relapsed_change {loc : Locale} {env : Env} {db db' : Db} {op : Op} {r : Reply} {wid : Int}
    (h : Change loc env db op r db') (hin : wid ∈ db.wedFlow.map (·.wid))
    (hrel : Relapsed loc wid db') :
    Relapsed loc wid db ∨ ∃ newWid uptkn vals old u db₁ w,
      op = .updateFlow wid newWid uptkn vals ∧ r = .rows 1 ∧
        Updates loc env wid newWid uptkn vals db old u db₁ w ∧ db' = w.update env db₁ := by
  cases h with
  | insert v uptkn vals w h =>
      -- The new row is another one.
      have hne : w.new.wid ≠ wid := by
        rw [h.wid_eq]
        exact fun he => h.free (he ▸ hin)
      rcases hrel with ⟨⟨q, hq, hqw, hqu⟩, ⟨s, hs, hsw, hse⟩⟩
      refine .inl ⟨⟨q, ?_, hqw, hqu⟩, ⟨s, ?_, hsw, hse⟩⟩
      · rcases List.mem_append.mp hq with hq | hq
        · exact hq
        · rw [List.mem_singleton.mp hq] at hqw
          exact absurd hqw hne
      · rcases List.mem_append.mp hs with hs | hs
        · exact hs
        · rw [List.mem_singleton.mp hs] at hsw
          exact absurd hsw hne
  | update v newWid uptkn vals old u db₁ w h =>
      by_cases hv : v = wid
      · subst hv
        exact .inr ⟨newWid, uptkn, vals, old, u, db₁, w, rfl, rfl, h, rfl⟩
      · have hne : wid ≠ w.new.wid := fun he => hv (h.wid_eq ▸ he.symm)
        rcases h.justified with ⟨f, e, -, -, hj⟩
        rcases hrel with ⟨⟨q, hq, hqw, hqu⟩, ⟨s, hs, hsw, hse⟩⟩
        refine .inl ⟨⟨q, ?_, hqw, hqu⟩, ⟨s, ?_, hsw, hse⟩⟩
        · rw [← hj.flow.1]
          exact Table.mem_of_mem_updateWhere FlowRow.wid w.new.wid _ _ q hq (fun _ _ => rfl)
            (hqw ▸ hne)
        · rw [← hj.flow.2.1]
          exact Table.mem_of_mem_updateWhere StatusRow.wid w.new.wid _ _ s hs (fun _ h => h)
            (hsw ▸ hne)
  | redefine op db' hop h =>
      rw [h.same] at hrel
      exact .inl ⟨hrel.stored, hrel.excpt⟩
  | restyle op db' hop h =>
      rcases h.same with ⟨f, hsame⟩
      rw [hsame] at hrel
      rcases hrel.stored with ⟨q', hq', hqw, hqu⟩
      rcases List.mem_map.mp hq' with ⟨q, hq, rfl⟩
      exact .inl ⟨⟨q, hq, hqw, hqu⟩, hrel.excpt⟩
  | _ => exact .inl ⟨hrel.stored, hrel.excpt⟩

/-- What an update wrote that left the instance relapsed: the word, in a recovery, with a
    state that meets nothing. -/
theorem relapsed_written {loc : Locale} {env : Env} {wid : Int} {newWid : Option Int}
    {uptkn : Option (Option String)} {vals : List (String × Option String)} {db db₁ : Db}
    {old : FlowRow} {u : String} {w : Write} (hi : Inv db)
    (h : Updates loc env wid newWid uptkn vals db old u db₁ w)
    (hrel : Relapsed loc wid (w.update env db₁)) :
    loc.lower u = "exception" ∧ w.mode = .exception ∧ db₁ = db ∧
      ∀ cid, ¬ Meets loc w.new.attrs db cid := by
  rcases h.justified with ⟨f, e, hst, -, hj⟩
  rcases hrel with ⟨⟨q, hq, hqw, v, hqu, hword⟩, ⟨s, hs, hsw, hse⟩⟩
  have hqn : q = w.new := by
    rcases (Table.mem_updateWhere _ _ _ _).mp hq with ⟨q₀, -, rfl⟩
    split
    · rfl
    · next hno =>
        rw [if_neg hno] at hqw
        exact absurd (decide_eq_true (hqw.trans h.wid_eq.symm)) hno
  have hvu : v = u := by
    rw [hqn, h.uptkn_eq, Option.some.injEq] at hqu
    exact hqu.symm
  subst hvu
  rcases hj.of_word hword with ⟨-, rfl, -⟩
  have hmode : w.mode = .exception := by
    rcases (Table.mem_updateWhere _ _ _ _).mp hs with ⟨s₀, -, rfl⟩
    split at hse
    · revert hse
      cases w.mode <;> simp [excptFlag]
    · next hno =>
        rw [if_neg hno] at hsw
        exact absurd (decide_eq_true (hsw.trans h.wid_eq.symm)) hno
  have hv := h.settles.verdict
  rw [hmode, verdict_eq_exception_iff] at hv
  exact ⟨hword, hmode, rfl, (matchConds_eq_nil_iff loc _ _).mp hv.2⟩

/-- Only a recovery into another exception leads there. -/
theorem relapsed_turn {loc : Locale} {c : Cluster} {t : Turn} {wid : Int} (hc : ClusterInv c)
    (hs : StoresSpent loc wid c.db) (hrel : Relapsed loc wid (turn loc c t).db) :
    Relapsed loc wid c.db ∨ Relapses loc wid (c, t) := by
  unfold Relapses
  unfold turn at hrel
  dsimp only
  have ht := serve_turned loc c t
  generalize (serve loc c t).1 = c' at ht hrel
  generalize (serve loc c t).2 = a at ht ⊢
  cases ht with
  | statement i db r hg hex =>
      rcases i with ⟨env, op⟩
      have hin : wid ∈ c.db.wedFlow.map (·.wid) := by
        rcases hs with ⟨q, hq, hqw, -⟩
        exact List.mem_map.mpr ⟨q, hq, hqw⟩
      rcases relapsed_change (exec_change loc _ c.db db r hc.inv hex) hin hrel with
        hold | ⟨newWid, uptkn, vals, old, u, db₁, w, hop, hr, h, hdb⟩
      · exact .inl hold
      dsimp only at hop hdb
      subst hop hr hdb
      rcases uptkn with _ | _ | v
      · exact .inl (relapsed_of_tokenless hc.inv hs h)
      · exact absurd h.token.symm (Option.some_ne_none u)
      · have hv : v = u := Option.some.inj h.token
        subst hv
        rcases relapsed_written hc.inv h hrel with ⟨hword, -, -, hnone⟩
        exact .inr ⟨env, newWid, v, vals, rfl, hword, rfl, old, h.mem, h.old_wid, _, h.attrs, hnone⟩
  | loop pid env s db hs' hg hreq =>
      have hsc := hc.scans _ (List.mem_of_find?_eq_some hs')
      rcases (hsc.requeue_ok_iff hc.inv loc _ db).mp hreq with ⟨-, rfl⟩
      exact .inl ⟨hrel.stored, hrel.excpt⟩
  | _ => exact .inl ⟨hrel.stored, hrel.excpt⟩

theorem assignFlow_nil (attrs : List (String × String)) : assignFlow attrs [] = .ok attrs :=
  congrArg Except.ok (List.map_id attrs)

/-- A recovery with a state that meets nothing can be repeated without a token: the row
    is written as it stands. -/
theorem updates_again {loc : Locale} {env : Env} {wid : Int} {newWid : Option Int}
    {uptkn : Option (Option String)} {vals : List (String × Option String)} {db db₁ : Db}
    {old : FlowRow} {u : String} {w : Write} (hi : Inv db)
    (h : Updates loc env wid newWid uptkn vals db old u db₁ w) (hword : loc.lower u = "exception")
    (hnone : ∀ cid, ¬ Meets loc w.new.attrs db cid) :
    Updates loc env wid (some wid) none [] (w.update env db₁) w.new u (w.update env db₁) w := by
  rcases h.justified with ⟨f, e, hst, -, hj⟩
  rcases hj.of_word hword with ⟨htg, rfl, rfl⟩
  -- The instance was in an exception, where nothing runs.
  have hquiet : ∀ g, (wid, g) ∉ openKeys db₁.jobPool := hi.quiet _ hst (hi.excpt _ hst rfl)
  have hidle : runningTriggers wid db₁ = [] := by
    refine List.eq_nil_iff_forall_not_mem.mpr (fun g hg => hquiet g ?_)
    exact (mem_runningTriggers wid g db₁).mp hg
  have hs := h.settles
  have hmode : w.mode = .exception := by
    have hv := hs.verdict
    rw [(verdict_eq_exception_iff _ _).mpr ⟨hidle, (matchConds_eq_nil_iff loc _ _).mpr hnone⟩] at hv
    exact (Except.ok.inj hv).symm
  have hfired : w.fired = [] := by
    rw [hs.fired, hmode]
    rfl
  have hjobs : w.jobs env = [] := by
    rw [Write.jobs, hfired]
    rfl
  -- No job was issued and no definition touched, so all the checks are the same.
  have hpool : (w.update env db₁).jobPool = db₁.jobPool := by
    change (issueJobs (w.jobs env) db₁).jobPool = _
    rw [hjobs, issueJobs_nil]
  have hrun : runningTriggers wid (w.update env db₁) = runningTriggers wid db₁ := by
    unfold runningTriggers
    rw [hpool]
  have hwids : (w.update env db₁).wedFlow.map (·.wid) = db₁.wedFlow.map (·.wid) :=
    Table.map_updateWhere _ _ _ _ (fun r _ hr => (of_decide_eq_true hr).symm)
  refine ⟨?_, h.wid_eq, assignFlow_nil _, rfl, h.wid_eq, h.uptkn_eq, h.uptkn_eq, h.nonempty,
    ⟨h.validated.final, h.validated.cond, h.validated.trig⟩, ⟨true, true, ?_, fun _ => rfl, ?_⟩, ?_⟩
  · refine Table.mem_updateWhere_of_pos _ (fun _ => w.new) _ old h.mem (decide_eq_true ?_)
    rw [h.old_wid, h.wid_eq]
  · have hmem := Table.mem_updateWhere_of_pos (fun r : StatusRow => r.wid = w.new.wid)
      (fun r => { r with final := finalFlag w.mode, excpt := excptFlag w.mode }) _ _ hst
      (decide_eq_true h.wid_eq.symm)
    rw [hmode] at hmem
    change _ ∈ (setStStatus w.new.wid (finalFlag w.mode) (excptFlag w.mode) db₁).stStatus
    rw [hmode]
    exact hmem
  · rw [htg]
    exact .recovery hword rfl
  · rw [hrun]
    refine ⟨hs.columns, hs.verdict, ?_, hs.outs, ?_, hs.recordable.read, ?_, hs.recordable.trig⟩
    · rw [hfired, hmode]
      rfl
    · rw [hjobs]
      exact fresh_nil loc _
    · rw [hwids]
      exact hs.recordable.flow

/-- After it, an update without a token is accepted. -/
theorem relapses_repeats {loc : Locale} {c : Cluster} {t : Turn} {wid : Int} (hc : ClusterInv c)
    (h : Relapses loc wid (c, t)) : ∃ env db' r,
      exec loc ⟨env, .updateFlow wid (some wid) none []⟩ (turn loc c t).db = .ok (db', r) := by
  have hi' := (clusterInv_turn loc c t hc).inv
  rcases h with ⟨env, newWid, u, vals, ht, hword, ha, q, hq, hqw, attrs, hattrs, hnone⟩
  dsimp only at ht ha hq hnone
  subst ht
  have hch := change_of_replied hc ha
  generalize (turn loc c _).db = db' at hch hi' ⊢
  cases hch with
  | update v newWid uptkn vals old u' db₁ w h =>
      have hold : old = q := hc.inv.flow.eq_of_mem h.mem hq (h.old_wid.trans hqw.symm)
      subst hold
      have hnew : w.new.attrs = attrs := Except.ok.inj (h.attrs.symm.trans hattrs)
      have hu : u = u' := Option.some.inj h.token
      rw [← hnew] at hnone
      rw [hu] at hword
      have hagain := (updateFlow_ok_iff loc env _ _ _ _ _ _ _ hi'.keyed).mpr
        (.inr ⟨_, _, _, _, updates_again hc.inv h hword hnone, rfl, rfl⟩)
      exact ⟨env, _, _, (Table.map_eq_ok _ _ _).mpr ⟨_, hagain, rfl⟩⟩

/-- Without such a recovery an instance that was created without a token never relapses. -/
theorem not_relapsed_after (loc : Locale) (wid : Int) (c : Cluster) (hc : ClusterInv c)
    (hbare : ∃ r ∈ c.db.wedFlow, r.wid = wid ∧ r.varUptkn = none) (ts : List Turn)
    (hno : ∀ p ∈ Machine.history (turn loc) c ts, ¬ Relapses loc wid p) :
    let d := Machine.after (turn loc) c ts
    ClusterInv d ∧ StoresSpent loc wid d.db ∧ ¬ Relapsed loc wid d.db := by
  refine Machine.after_invariant_along (turn loc) (fun c t => ¬ Relapses loc wid (c, t))
    (fun d => ClusterInv d ∧ StoresSpent loc wid d.db ∧ ¬ Relapsed loc wid d.db) ?_ c ?_ ts hno
  · intro d t hstep h
    refine ⟨clusterInv_turn loc d t h.1, storesSpent_turn loc d t h.1 wid h.2.1, fun hrel => ?_⟩
    exact (relapsed_turn h.1 h.2.1 hrel).elim h.2.2 hstep
  · rcases hbare with ⟨r, hr, hrw, hnone⟩
    refine ⟨hc, ⟨r, hr, hrw, fun u hu => ?_⟩, fun hrel => ?_⟩
    · exact absurd (hnone.symm.trans hu).symm (Option.some_ne_none u)
    · rcases hrel.stored with ⟨q, hq, hqw, u, hu, -⟩
      rw [hc.inv.flow.eq_of_mem hq hr (hqw.trans hrw.symm), hnone] at hu
      exact absurd hu.symm (Option.some_ne_none u)

/-- In any run of any number of sessions, from the creation of an instance without a token
    on: all updates of it without a token are rejected in every state reached, exactly if no
    turn of the run recovers it with a state that meets no committed predicate. -/
theorem tokenless_rejected_iff (loc : Locale) (before after : List Turn) (t : Turn) (wid : Int)
    (h : createsBare loc wid (cluster loc before, t)) :
    (∀ ts, ts <+: after → ∀ env newWid vals, ¬ ∃ db' r,
      exec loc ⟨env, .updateFlow wid newWid none vals⟩ (cluster loc (before ++ t :: ts)).db
        = .ok (db', r)) ↔
      ∀ p ∈ Machine.history (turn loc) (cluster loc (before ++ [t])) after,
        ¬ Relapses loc wid p := by
  have hc := cluster_inv loc before
  have hstart : turn loc (cluster loc before) t = cluster loc (before ++ [t]) :=
    (Machine.after_concat (turn loc) Cluster.empty before t).symm
  have hreach : ∀ ts, cluster loc (before ++ t :: ts)
      = Machine.after (turn loc) (cluster loc (before ++ [t])) ts := by
    intro ts
    rw [← hstart]
    exact Machine.after_append (turn loc) Cluster.empty before (t :: ts)
  have hc' := cluster_inv loc (before ++ [t])
  have hbare := bare_of_createsBare hc h
  rw [hstart] at hbare
  generalize cluster loc (before ++ [t]) = c at hreach hc' hbare ⊢
  constructor
  · intro hrej p hp hrel
    rcases List.append_of_mem hp with ⟨h₁, h₂, hsplit⟩
    rcases Machine.history_before _ _ _ h₁ h₂ p.1 p.2 hsplit with ⟨ts₁, ts₂, rfl, -, hat⟩
    have hp' := Machine.after_invariant (turn loc) (fun _ => True) ClusterInv
      (fun c t _ h => clusterInv_turn loc c t h) c hc' ts₁ (fun _ _ => trivial)
    rw [← hat] at hp'
    rcases relapses_repeats hp' hrel with ⟨env, hex⟩
    refine hrej (ts₁ ++ [p.2]) ⟨ts₂, by simp⟩ env (some wid) [] ?_
    rw [hreach, Machine.after_concat, ← hat]
    exact hex
  · intro hno ts hts env newWid vals hex
    have hsub : ∀ p ∈ Machine.history (turn loc) c ts, ¬ Relapses loc wid p := by
      rcases hts with ⟨rest, rfl⟩
      rw [Machine.history_append] at hno
      exact fun p hp => hno p (List.mem_append_left _ hp)
    have hsound := not_relapsed_after loc wid c hc' hbare ts hsub
    rw [hreach] at hex
    generalize Machine.after (turn loc) c ts = d at hex hsound
    rcases hex with ⟨db', rep, hex⟩
    rcases (Table.map_eq_ok _ _ _).mp hex with ⟨⟨db₂, n⟩, hup, -⟩
    rcases (updateFlow_ok_iff loc env _ _ _ _ d.db db₂ n hsound.1.inv.keyed).mp hup with
      ⟨hno, -, -⟩ | ⟨old, u, db₁, w, hw, -, -⟩
    · rcases hsound.2.1 with ⟨r, hr, rfl, -⟩
      exact absurd (List.mem_map_of_mem hr) hno
    · exact hsound.2.2 (relapsed_of_tokenless hsound.1.inv hsound.2.1 hw)

/-- The two jobs of the instance are completed, the second with a state that matches no
    condition. -/
def straying : List Input :=
  [⟨clock 2, .jobLock (tokenAt 1 0) none⟩, ⟨clock 3, .jobLock (tokenAt 1 1) none⟩,
    ⟨clock 4, .updateFlow 7 none (some (some (tokenAt 1 0))) [("st", some "half")]⟩,
    ⟨clock 5, .updateFlow 7 none (some (some (tokenAt 1 1))) [("st", some "lost")]⟩]

/-- An instance that is created without a token and ends in an exception. -/
def strayed (more : List Input) : List Turn :=
  tiny.map .statement ++
    .statement ⟨clock 1, .insertFlow 7 none []⟩ :: (straying ++ more).map .statement

/-- Before any recovery updates without a token are rejected, though the instance is in an
    exception. -/
theorem tokenless_rejected_strayed :
    createsBare asciiLocale 7 (cluster asciiLocale (tiny.map .statement),
        .statement ⟨clock 1, .insertFlow 7 none []⟩) ∧
      (⟨7, true, true⟩ : StatusRow) ∈ (cluster asciiLocale (strayed [])).db.stStatus ∧
      ∀ env newWid vals, ¬ ∃ db' r, exec asciiLocale ⟨env, .updateFlow 7 newWid none vals⟩
        (cluster asciiLocale (strayed [])).db = .ok (db', r) := by
  have hbare : createsBare asciiLocale 7 (cluster asciiLocale (tiny.map .statement),
      .statement ⟨clock 1, .insertFlow 7 none []⟩) :=
    ⟨clock 1, [], rfl, by decide +kernel⟩
  refine ⟨hbare, by decide +kernel, ?_⟩
  refine (tokenless_rejected_iff asciiLocale _ _ _ 7 hbare).mpr ?_ _ (List.prefix_refl _)
  -- No turn of the run gives the word.
  intro p hp hrel
  rcases hrel with ⟨env, newWid, u, vals, ht, hword, -⟩
  have hmem := Machine.mem_of_mem_history _ _ _ p hp
  rw [ht] at hmem
  rcases List.mem_map.mp hmem with ⟨i, hi, he⟩
  rw [Turn.statement.inj he] at hi
  simp only [straying, List.append_nil, List.mem_cons, List.not_mem_nil, or_false, Input.mk.injEq,
    reduceCtorEq, and_false, false_or, Op.updateFlow.injEq, Option.some.injEq] at hi
  rcases hi with ⟨-, -, -, hu, -⟩ | ⟨-, -, -, hu, -⟩
  · rw [hu] at hword
    exact absurd hword (by decide +kernel)
  · rw [hu] at hword
    exact absurd hword (by decide +kernel)

/-- It is recovered, with a state that matches none either. After that an update without a
    token is accepted: the word of the recovery is still stored. -/
theorem tokenless_update_accepted :
    createsBare asciiLocale 7 (cluster asciiLocale (tiny.map .statement),
        .statement ⟨clock 1, .insertFlow 7 none []⟩) ∧
      accepted asciiLocale 7 ((cluster asciiLocale (strayed [⟨clock 6,
          .updateFlow 7 none (some (some "exception")) [("st", some "astray")]⟩])).db,
        ⟨clock 7, .updateFlow 7 none none [("st", some "ready")]⟩) = true := by
  exact ⟨⟨clock 1, [], rfl, by decide +kernel⟩, by decide +kernel⟩

end WedFlow
