import WedFlow.Abstract.Chart
import WedFlow.Theory.Converse
import WedFlow.Theory.Sessions
import WedFlow.Theory.Trace

/-!
# Instances on a Chart

How an instance in the tables follows a chart of its flow, however the sessions
take turns. The level it is on is the number of times it has been written. That is
not the length of its history, since others can write into that.

Statements that write by the script keep an instance on the chart, and so do those
on jobs, except for `job_abort`. The loop of `job_inspector` needs a reason. It puts
a job in the place of each one its scan has found, without looking again whether
that is still open, and would put back what has been closed in between. A write
cannot have closed it: its token lookup waits until nobody holds a scan. So if
nothing is aborted either, what a scan has found goes on running, and the loop
changes no more than a phase.

## Main definitions

* `OnChart`: The instance is on a level of the chart.
* `Scripted`: A statement that writes by the script.
* `Turn.writes`: The instance that a turn writes.
* `Followed`: The same for a cluster, with what its scans have found.

## Theorems

* `onChart_exec`: Statements by the script keep an instance on the chart.
* `lockMode_of_complete`: A write takes the strongest lock.
* `runs_exec`: Under a weaker one nothing stops running.
* `followed_turn`: So does every turn.
-/

namespace WedFlow

open Workflow (Mode Phase Inst Policy Action Step Performs Chart)

variable {ρ : Type} [DecidableEq ρ] {C : Chart ρ Int Int} {π : State → ρ} {A : Set State}

/-- The instance is on a level of the chart. -/
def OnChart (C : Chart ρ Int Int) (π : State → ρ) (A : Set State) (n : Nat) (wid : Int) (db : Db) :
    Prop :=
  C.Charted π A n (inst db wid)

/-- What the statement asks for the instance is by the script, and no attribute
    changes. -/
structure Scripted (C : Chart ρ Int Int) (π : State → ρ) (A : Set State) (loc : Locale) (wid : Int)
    (db : Db) (i : Input) : Prop where
  keeps : ¬ i.op.Restyles
  obeys : ∀ a, (wid, a) ∈ actions loc i db → C.Obeys π A (inst db wid) a

omit [DecidableEq ρ] in
theorem Scripted.not_abort {loc : Locale} {wid : Int} {db : Db} {i : Input}
    (h : Scripted C π A loc wid db i) {a : Action State Int} (ha : (wid, a) ∈ actions loc i db)
    (g : Int) : a ≠ .abort g := by
  rintro rfl
  exact h.obeys _ ha

/-- A write leads to the next level, and everything else stays on this one. -/
theorem onChart_exec {loc : Locale} {i : Input} {db db' : Db} {r : Reply} (hi : Inv db)
    (hexec : exec loc i db = .ok (db', r)) (hd : C.Describes (policy loc db) π A) {n : Nat}
    {wid : Int} (hs : Scripted C π A loc wid db i) (h : OnChart C π A n wid db) :
    OnChart C π A (n + if wrote loc (db, i) = some wid then 1 else 0) wid db' := by
  unfold OnChart at h ⊢
  have hperf := exec_performs loc i db db' r hi hs.keeps hexec
  rcases rows_of_change loc i.env i.op r db db' hi (exec_change loc i db db' r hi hexec) hs.keeps with
    hsil | ⟨w, a, k, -, hone, hfor⟩
  · rw [if_neg (hsil.not_wrote hexec wid)]
    refine hperf.invariant (fun a => ¬ a.Writes ∧ ∀ g, a ≠ .abort g)
      (C.Charted π A n) (fun x a k ha hx hstep => ?_) wid (fun p hp hpw => ?_) h
    · exact Chart.charted_silent hx ha.1 ha.2 hstep
    · subst hpw
      exact ⟨hsil.actions p hp, hs.not_abort hp⟩
  · rw [hone.result, wrote_of_writesFor hexec hfor]
    by_cases hwid : wid = w.new.wid
    · rw [hwid, if_pos rfl, Function.update_self]
      rw [hwid] at h
      refine Chart.charted_write hd h (hwid ▸ hs.obeys a ?_) hone.writes hone.step
      have hasked : actions loc i db = [(w.new.wid, a)] := hone.asked
      rw [hasked, hwid]
      exact List.mem_singleton.mpr rfl
    · rw [if_neg (fun he => hwid (Option.some.inj he).symm), Function.update_of_ne hwid]
      exact h

/-! ## What scans have found -/

/-- A write by token takes the strongest lock. -/
theorem lockMode_of_complete {loc : Locale} {i : Input} {db : Db} (hi : Inv db) {wid g : Int}
    {s : State} (h : (wid, Action.complete g s) ∈ actions loc i db) :
    lockMode loc db i.op = .accessExclusive := by
  rcases mem_actions loc i db _ h with ⟨newWid, uptkn, vals, hop⟩
  rcases i with ⟨env, op⟩
  dsimp only at hop
  subst hop
  rcases actions_update loc env wid newWid uptkn vals db (List.ne_nil_of_mem h) with
    ⟨old, s', u, hold, hwid, -, htok, -, hu, ⟨-, ha⟩ | ⟨he, -⟩⟩
  · rw [ha] at h
    exact absurd (List.mem_singleton.mp h) (by simp only [Prod.mk.injEq, reduceCtorEq, and_false,
      not_false_eq_true])
  · have hcarried : carried db (.updateFlow wid newWid uptkn vals) = some u := by
      unfold carried
      dsimp only
      rw [(hi.flow.find_eq_some_iff wid old).mpr ⟨hold, hwid⟩, Option.bind_some, htok]
    unfold lockMode
    dsimp only
    rw [hcarried]
    dsimp only
    rw [if_neg hu, if_neg he]

omit [DecidableEq ρ] in
/-- What runs goes on running as long as the strongest lock is not taken. -/
theorem runs_exec {loc : Locale} {i : Input} {db db' : Db} {r : Reply} (hi : Inv db)
    (hexec : exec loc i db = .ok (db', r)) {wid : Int} (hs : Scripted C π A loc wid db i)
    (hmode : lockMode loc db i.op ≠ .accessExclusive) {g : Int}
    (h : runs db.jobPool wid g ≠ none) : runs db'.jobPool wid g ≠ none := by
  have hinst : ∃ k, inst db wid = some k ∧ k.running g ≠ none := by
    rcases (mem_openKeys _ _ _).mp (not_not.mp (fun hk => h ((runs_eq_none_iff _ _ _).mpr hk))) with
      ⟨j, hj, -, rfl, -⟩
    rcases exists_inst_of_job hi hj with ⟨k, hk⟩
    exact ⟨k, hk, inst_running hk ▸ h⟩
  have hafter : ∃ k, inst db' wid = some k ∧ k.running g ≠ none := by
    refine (exec_performs loc i db db' r hi hs.keeps hexec).invariant
      (fun a => ¬ a.Writes ∧ ∀ t, a ≠ .abort t) (fun x => ∃ k, x = some k ∧ k.running g ≠ none)
      ?_ wid ?_ hinst
    · rintro x a k ⟨hw, hab⟩ ⟨k₀, rfl, hrun⟩ hstep
      rcases hstep.silent hw with ⟨k₁, t, p, hk₁, -, rfl, hp⟩
      refine ⟨_, rfl, ?_⟩
      dsimp only
      by_cases hg : g = t
      · rw [hg, Function.update_self]
        exact fun hn => hab t (hp hn)
      · rw [Function.update_of_ne hg, ← Option.some.inj hk₁]
        exact hrun
    · rintro ⟨v, a⟩ hp rfl
      refine ⟨fun hw => ?_, hs.not_abort hp⟩
      have hob := hs.obeys a hp
      cases a with
      | insert s =>
          -- The instance is there already, so this cannot go through.
          rcases hinst with ⟨k, hk, -⟩
          rcases mem_actions loc i db _ hp with ⟨uptkn, vals, hop⟩
          have hc := exec_change loc i db db' r hi hexec
          rw [hop] at hc
          cases hc with
          | insert wid uptkn vals w hins =>
              exact absurd hk (by rw [(inst_eq_none_iff hi _).mpr hins.free]; simp only [reduceCtorEq,
                not_false_eq_true])
          | redefine op db' hop' hre => exact hop'.elim
          | restyle op db' hop' hre => exact hop'.elim
      | complete t s => exact hmode (lockMode_of_complete hi hp)
      | recover s => exact hob
      | lock t => exact hw
      | timeout t => exact hw
      | abort t => exact hw
  rcases hafter with ⟨k, hk, hrun⟩
  rwa [inst_running hk] at hrun

/-- The instance that a turn writes a state of: the statement gets its lock and goes
    through. -/
def Turn.writes (loc : Locale) (c : Cluster) : Turn → Option Int
  | .statement i => if c.grants none (lockMode loc c.db i.op) then wrote loc (c.db, i) else none
  | _ => none

/-- A turn that writes is answered. -/
theorem Turn.replied_of_writes {loc : Locale} {c : Cluster} {t : Turn} {wid : Int}
    (h : t.writes loc c = some wid) : ∃ r, (serve loc c t).2 = .replied r := by
  cases t with
  | statement i =>
      unfold Turn.writes at h
      dsimp only [serve] at h ⊢
      split at h
      next hg =>
        rcases wrote_ok h with ⟨db', r, hex⟩
        rw [if_pos hg, hex]
        exact ⟨r, rfl⟩
      next => exact absurd h (nomatch ·)
  | scan pid now => exact absurd h (nomatch ·)
  | loop pid env => exact absurd h (nomatch ·)
  | cancel pid => exact absurd h (nomatch ·)

/-- The instance is on a level of the chart, and what a scan has found of it is
    running. -/
structure Followed (C : Chart ρ Int Int) (π : State → ρ) (A : Set State) (n : Nat) (wid : Int)
    (c : Cluster) : Prop where
  onChart : OnChart C π A n wid c.db
  found : ∀ s ∈ c.scans, ∀ r ∈ s.2.rows, r.wid = wid → runs c.db.jobPool wid r.tgid ≠ none

theorem Followed.release {n : Nat} {wid : Int} {c : Cluster} (h : Followed C π A n wid c)
    (pid : Nat) : Followed C π A n wid (c.release pid) :=
  ⟨h.onChart, fun s hs => h.found s (List.mem_filter.mp hs).1⟩

/-- Every turn by the script keeps an instance on the chart. -/
theorem followed_turn {loc : Locale} {c : Cluster} {t : Turn} (hc : ClusterInv c)
    (hd : C.Describes (policy loc c.db) π A) {n : Nat} {wid : Int}
    (hs : ∀ i, t = .statement i → Scripted C π A loc wid c.db i) (h : Followed C π A n wid c) :
    Followed C π A (n + if t.writes loc c = some wid then 1 else 0) wid (turn loc c t) := by
  -- A turn that is not answered has written nothing.
  have hmute : (∀ r, (serve loc c t).2 ≠ .replied r) → t.writes loc c ≠ some wid := by
    intro hno hw
    rcases Turn.replied_of_writes hw with ⟨r, hr⟩
    exact hno r hr
  have ht := serve_turned loc c t
  unfold turn
  generalize (serve loc c t).1 = c', (serve loc c t).2 = a at ht hmute ⊢
  cases ht with
  | idle t a ha =>
      rw [if_neg (hmute ha)]
      exact h
  | statement i db r hg hexec =>
      have hwrites : Turn.writes loc c (.statement i) = wrote loc (c.db, i) := if_pos hg
      rw [hwrites]
      refine ⟨onChart_exec hc.inv hexec hd (hs i rfl) h.onChart, fun q hq r hr hw => ?_⟩
      refine runs_exec hc.inv hexec (hs i rfl) (fun hmode => ?_) (h.found q hq r hr hw)
      have hall := List.all_eq_true.mp hg q hq
      rw [hmode] at hall
      simp only [reduceCtorEq, decide_false, LockMode.conflicts, Bool.not_true, Bool.or_self,
        Bool.false_eq_true] at hall
  | scan pid now hfree =>
      refine ⟨h.onChart, fun q hq r hr hw => ?_⟩
      rcases List.mem_append.mp hq with hq | hq
      · exact h.found q hq r hr hw
      · rw [List.mem_singleton.mp hq] at hr
        rcases (mem_expired now c.db r).mp hr with ⟨j, hj, he, t, -, htj, rfl⟩
        dsimp only at hw ⊢
        rw [← hw, htj, runs_of_open hc.inv.pool hj (isExpired_open now j he).1]
        exact Option.some_ne_none _
  | release t a pid ha =>
      rw [if_neg (hmute ha)]
      exact h.release pid
  | noRows pid env s hs' hrows => exact h.release pid
  | loop pid env s db hs' hg hreq =>
      have hmem := List.mem_of_find?_eq_some hs'
      have hsc := hc.scans _ hmem
      rcases (hsc.requeue_ok_iff hc.inv loc _ db).mp hreq with ⟨-, rfl⟩
      refine ⟨?_, fun q hq => ?_⟩
      · have honChart : C.Charted π A n (inst c.db wid) := h.onChart
        change C.Charted π A n (inst _ wid)
        rw [inst_pool]
        cases hi : inst c.db wid with
        | none =>
            rw [hi] at honChart
            exact honChart
        | some k =>
            rw [hi] at honChart
            refine honChart.of_running (fun g => ?_)
            rw [runs_requeue _ c.db s.rows hc.inv hsc, inst_running hi]
            split
            next hkey =>
              rcases List.mem_map.mp hkey with ⟨r, hr, hk⟩
              rcases Prod.mk.inj hk with ⟨hw, hg⟩
              exact iff_of_false (Option.some_ne_none _) (hg ▸ h.found _ hmem r hr hw)
            next => exact Iff.rfl
      · -- The loop was alone, so no scan is left.
        have hnil : (c.release pid).scans = [] := release_scans hg
        have hq' : q ∈ (c.release pid).scans := hq
        rw [hnil] at hq'
        exact absurd hq' List.not_mem_nil

end WedFlow
