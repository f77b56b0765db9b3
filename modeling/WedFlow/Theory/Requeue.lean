import WedFlow.Theory.Tokens

/-!
# What an Inspector Replaces

The loop of `job_inspector` works from the rows its scan found. It marks each job
by its token alone and creates a replacement, whether or not the job is still
open by then. While the scan is held, most of what could close a job has to
wait: an update with a token needs the table for itself, and so does another
loop. What does not have to wait is `job_abort`.

So a job that is replaced was open, unless somebody has aborted it between the
scan and the loop. Then the abort was granted, and the job is marked a second
time, with the time of the scan, and replaced all the same.

## Main definitions

* `returnsAbort`: The turn is a `job_abort` of a token that returned true.
* `OpenJob`: The job with a token is open.

## Theorems

* `closed_origin`: What closes a job in a scan is an abort.
* `scans_open`: Every job of a scan is open or has been aborted.
* `replaced_open_iff`: When an inspector replaces open jobs only.
-/

namespace WedFlow

/-- The turn is a `job_abort` of this token that returned true. -/
def returnsAbort (loc : Locale) (u : String) (p : Cluster × Turn) : Bool :=
  match p.2 with
  | .statement i => i.op = .jobAbort u && (serve loc p.1 p.2).2 = .replied (.bool true)
  | _ => false

/-- The job with this token is open. -/
def OpenJob (u : String) (db : Db) : Prop :=
  ∃ j ∈ db.jobPool, j.uptkn = u ∧ j.tf = none

instance (u : String) (db : Db) : Decidable (OpenJob u db) :=
  inferInstanceAs (Decidable (∃ j ∈ db.jobPool, _))

theorem aborts_of_returnsAbort {loc : Locale} {u : String} {p : Cluster × Turn}
    (h : returnsAbort loc u p = true) : abortsJob loc u p = true := by
  unfold abortsJob
  rw [Bool.or_eq_true]
  exact .inl h

/-- A job is open or closed, not both. -/
theorem OpenJob.not_closed {u : String} {db : Db} (h : OpenJob u db) (hi : Inv db) :
    ¬ Closed u db := by
  intro hclosed
  rcases h with ⟨j, hj, hju, hopen⟩
  exact hclosed.of_mem hi hj hju hopen

/-- A job that a write closed was closed before, or is one that was written. -/
theorem closed_of_writeJob {u v : String} {f : JobRow → JobRow} {db : Db}
    (hkey : ∀ j, (f j).uptkn = j.uptkn) (h : Closed u (writeJob v f db)) : Closed u db ∨ u = v := by
  rcases h with ⟨j', hj', hju, hclosed⟩
  rcases (Table.mem_updateWhere _ _ _ _).mp hj' with ⟨j, hj, rfl⟩
  by_cases hjv : j.uptkn = v
  · rw [if_pos (decide_eq_true hjv), hkey] at hju
    exact .inr (hju.symm.trans hjv)
  · rw [if_neg (by simpa only [decide_eq_true_eq] using hjv)] at hju hclosed
    exact .inl ⟨j, hj, hju, hclosed⟩

/-- New jobs are open, so they close none. -/
theorem closed_of_append {u : String} {pool jobs : List JobRow} (hjobs : ∀ j ∈ jobs, j.tf = none)
    (h : ∃ j ∈ pool ++ jobs, j.uptkn = u ∧ j.tf ≠ none) : ∃ j ∈ pool, j.uptkn = u ∧ j.tf ≠ none := by
  rcases h with ⟨j, hj, hju, hclosed⟩
  rcases List.mem_append.mp hj with hj | hj
  · exact ⟨j, hj, hju, hclosed⟩
  · exact absurd (hjobs j hj) hclosed

/-- A statement that does not have to wait for a scan closes a job only by
    aborting it. -/
theorem closed_origin {loc : Locale} {env : Env} {db db' : Db} {op : Op} {r : Reply} {u : String}
    (hi : Inv db) (hmode : (lockMode loc db op).conflicts .accessShare = false)
    (h : Change loc env db op r db') (hclosed : Closed u db') :
    Closed u db ∨ op = .jobAbort u ∧ r = .bool true := by
  cases h with
  | insert wid uptkn vals w h =>
      exact .inl (closed_of_append (fun j hj => (pending_of_freshJobs env 0 _ j hj).2.2.2) hclosed)
  | noRow wid newWid uptkn vals h => exact .inl hclosed
  | update wid newWid uptkn vals old v db₁ w h =>
      have hbefore := closed_of_append (fun j hj => (pending_of_freshJobs env 0 _ j hj).2.2.2) hclosed
      rcases h.justified with ⟨f, e, -, -, hjust⟩
      -- A completion looks its token up, so it would have had to wait.
      rcases hjust.of_word (h.recovers hi hmode) with ⟨-, rfl, -⟩
      exact .inl hbefore
  | noLock v lckid h => exact .inl hclosed
  | lock v lckid j hj hl =>
      rcases hclosed with ⟨i', hi', hiu, hcl⟩
      rcases (Table.mem_updateWhere _ _ _ _).mp hi' with ⟨i, him, rfl⟩
      by_cases hiv : i.uptkn = v
      · rw [if_pos (decide_eq_true hiv)] at hiu hcl
        exact .inl ⟨i, him, hiu, hcl⟩
      · rw [if_neg (by simpa only [decide_eq_true_eq] using hiv)] at hiu hcl
        exact .inl ⟨i, him, hiu, hcl⟩
  | noAbort v h => exact .inl hclosed
  | abort v j hj hl ha =>
      refine (closed_of_writeJob (f := abortRow env.now) (fun _ => rfl) hclosed).imp_right (fun huv => ?_)
      rw [huv]
      exact ⟨rfl, rfl⟩
  | noRequeue h => exact Bool.noConfusion hmode
  | requeue h hf => exact Bool.noConfusion hmode
  | redefine op db' hop h =>
      rw [h.same] at hclosed
      exact .inl hclosed
  | restyle op db' hop h =>
      rcases h.same with ⟨f, hsame⟩
      rw [hsame] at hclosed
      exact .inl hclosed

/-- The jobs of the scans that are held: each is open, or its abort is in the
    past. -/
def ScansOpen (loc : Locale) (past : List (Cluster × Turn)) (c : Cluster) : Prop :=
  ∀ s ∈ c.scans, ∀ u ∈ s.2.rows.map (·.uptkn), Closed u c.db →
    ∃ q ∈ past, returnsAbort loc u q = true

theorem scansOpen_turned {loc : Locale} {past : List (Cluster × Turn)} {c c' : Cluster} {t : Turn}
    {a : Answer} (ht : Turned loc c t a c') (ha : a = (serve loc c t).2) (hc : ClusterInv c)
    (h : ScansOpen loc past c) : ScansOpen loc (past ++ [(c, t)]) c' := by
  -- What was in the past still is.
  have hpast : ∀ {u : String}, (∃ q ∈ past, returnsAbort loc u q = true) →
      ∃ q ∈ past ++ [(c, t)], returnsAbort loc u q = true := by
    intro u hq
    rcases hq with ⟨q, hq, hu⟩
    exact ⟨q, List.mem_append_left _ hq, hu⟩
  intro s hs u hu hclosed
  cases ht with
  | idle t a hno => exact hpast (h s hs u hu hclosed)
  | statement i db r hg hex =>
      -- The statement was granted while the scan held its lock.
      have hmode := List.all_eq_true.mp hg s hs
      simp only [reduceCtorEq, decide_false, Bool.false_or, Bool.not_eq_true'] at hmode
      rcases closed_origin hc.inv hmode (exec_change loc i c.db db r hc.inv hex) hclosed with
        hbefore | ⟨hop, hr⟩
      · exact hpast (h s hs u hu hbefore)
      · refine ⟨(c, .statement i), List.mem_append_right _ (List.mem_singleton.mpr rfl), ?_⟩
        unfold returnsAbort
        rw [← ha, hr]
        simp only [hop, decide_true, Bool.and_self]
  | scan pid now hfree =>
      rcases List.mem_append.mp hs with hs | hs
      · exact hpast (h s hs u hu hclosed)
      · rw [List.mem_singleton.mp hs] at hu
        -- The scan that starts now sees open jobs only.
        exact absurd hu (hclosed.not_expired hc.inv now)
  | release t a pid hno => exact hpast (h s (List.mem_filter.mp hs).1 u hu hclosed)
  | noRows pid env q hq hrows => exact hpast (h s (List.mem_filter.mp hs).1 u hu hclosed)
  | loop pid env q db hq hg hreq =>
      rw [release_scans hg] at hs
      exact absurd hs List.not_mem_nil

/-- Along every run, the jobs of the scans are open or have been aborted. -/
theorem scans_open (loc : Locale) (ts : List Turn) :
    ScansOpen loc (Machine.history (turn loc) Cluster.empty ts) (cluster loc ts) := by
  refine (Machine.history_invariant (turn loc) (fun _ => True)
    (fun past c => ClusterInv c ∧ ScansOpen loc past c) Cluster.empty
    ⟨clusterInv_empty, fun _ hs => absurd hs List.not_mem_nil⟩ ?_ ts (fun _ _ => trivial)).2
  intro past c t _ h
  exact ⟨clusterInv_turn loc c t h.1, scansOpen_turned (serve_turned loc c t) rfl h.1 h.2⟩

/-- A job that is replaced is open right before, exactly if nobody has aborted
    it. -/
theorem open_of_replaced_iff (loc : Locale) (ts : List Turn) (h₁ h₂ : List (Cluster × Turn))
    (p : Cluster × Turn) (hsplit : Machine.history (turn loc) Cluster.empty ts = h₁ ++ p :: h₂)
    (u : String) (hu : u ∈ (replaced loc p).map (·.1)) :
    OpenJob u p.1.db ↔ ∀ q ∈ h₁, returnsAbort loc u q = false := by
  rcases p with ⟨c, t⟩
  rcases Machine.history_before _ _ _ h₁ h₂ c t hsplit with ⟨ts₁, ts₂, -, hh₁, hc⟩
  have hinv : ClusterInv c := by
    rw [hc]
    exact cluster_inv loc ts₁
  constructor
  · -- An abort closes the job for good.
    intro hopen q hq
    by_contra hne
    have hpair := Machine.history_never_after (turn loc) ClusterInv (clusterInv_turn loc)
      (fun u q => returnsAbort loc u q = true) (fun u p => OpenJob u p.1.db)
      (fun u c => Closed u c.db) (fun u c t hc => closed_turn loc c t hc u)
      (fun u c t hc h => closed_of_aborts hc (aborts_of_returnsAbort h))
      (fun u c t hc h => h.not_closed hc.inv) Cluster.empty clusterInv_empty ts
    rw [hsplit, List.pairwise_append] at hpair
    exact hpair.2.2 q hq _ List.mem_cons_self u (by simpa only [Bool.not_eq_false] using hne) hopen
  · intro hnone
    rcases replaced_cases loc c t hinv with ⟨hnil, -⟩ | ⟨env, rows, hr, heq⟩
    · rw [hnil] at hu
      exact absurd hu List.not_mem_nil
    · rw [heq, map_fst_replacements] at hu
      have hnot : ¬ Closed u c.db := by
        intro hclosed
        -- The rows are those of a scan that was held, or were found in the same turn.
        rcases hr.found with ⟨s, hs, rfl⟩ | rfl
        · have hscans := scans_open loc ts₁
          rw [← hh₁, show cluster loc ts₁ = c from hc.symm] at hscans
          rcases hscans s hs u hu hclosed with ⟨q, hq, hab⟩
          rw [hnone q hq] at hab
          exact Bool.false_ne_true hab
        · exact hclosed.not_expired hinv.inv _ hu
      rcases List.mem_map.mp hu with ⟨row, hrow, rfl⟩
      rcases hr.scanned.job row hrow with ⟨j, hj, hju, -⟩
      exact ⟨j, hj, hju, not_not.mp (fun hcl => hnot ⟨j, hj, hju, hcl⟩)⟩

/-- In a run of any number of sessions, all the jobs that inspectors replace are
    open right before, exactly if none of them has been aborted by a `job_abort`
    that returned true. -/
theorem replaced_open_iff (loc : Locale) (ts : List Turn) :
    (∀ p ∈ Machine.history (turn loc) Cluster.empty ts, ∀ u ∈ (replaced loc p).map (·.1),
        OpenJob u p.1.db) ↔
      ∀ h₁ p h₂, Machine.history (turn loc) Cluster.empty ts = h₁ ++ p :: h₂ →
        ∀ u ∈ (replaced loc p).map (·.1), ∀ q ∈ h₁, returnsAbort loc u q = false := by
  constructor
  · intro h h₁ p h₂ hsplit u hu
    refine (open_of_replaced_iff loc ts h₁ h₂ p hsplit u hu).mp (h p ?_ u hu)
    rw [hsplit]
    exact List.mem_append_right _ List.mem_cons_self
  · intro h p hp u hu
    rcases List.append_of_mem hp with ⟨h₁, h₂, hsplit⟩
    exact (open_of_replaced_iff loc ts h₁ h₂ p hsplit u hu).mpr (h h₁ p h₂ hsplit u hu)

/-- An inspector finds a job at time 20. -/
def scannedAt20 : List Turn :=
  taken.map .statement ++ [.scan 1 20]

/-- The job is aborted at 21, before the loop, and the abort is granted. The
    loop replaces the job nevertheless, and sets its end back to 20. -/
theorem aborted_job_replaced :
    returnsAbort asciiLocale (tokenAt 1 0)
        (cluster asciiLocale scannedAt20, .statement ⟨clock 21, .jobAbort (tokenAt 1 0)⟩) = true ∧
      replaced asciiLocale
          (cluster asciiLocale (scannedAt20 ++ [.statement ⟨clock 21, .jobAbort (tokenAt 1 0)⟩]),
            .loop 1 (clock 22)) = [(tokenAt 1 0, tokenAt 22 0)] ∧
      ¬ OpenJob (tokenAt 1 0)
        (cluster asciiLocale (scannedAt20 ++ [.statement ⟨clock 21, .jobAbort (tokenAt 1 0)⟩])).db ∧
      (jobOf (cluster asciiLocale
          (scannedAt20 ++ [.statement ⟨clock 21, .jobAbort (tokenAt 1 0)⟩])).db (tokenAt 1 0)).map (·.tf)
        = some (some 21) ∧
      (jobOf (cluster asciiLocale (scannedAt20 ++
          [.statement ⟨clock 21, .jobAbort (tokenAt 1 0)⟩, .loop 1 (clock 22)])).db
            (tokenAt 1 0)).map (·.tf) = some (some 20) := by
  decide +kernel

end WedFlow
