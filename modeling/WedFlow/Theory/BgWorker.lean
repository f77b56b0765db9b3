import WedFlow.Core.BgWorker
import WedFlow.Theory.Sessions

/-!
# Background Workers Over Time

What becomes of the workers of a server. Whenever two of them have found something
to do at the same time, one of them is lost: neither gets on before the other has
been cancelled, and a worker that is cancelled does not come back
(`overlap_costs_a_worker`). So more workers than one are there only until the
first job expires while they are in step. As long as nobody else inspects, one
remains (`one_worker_survives`): a deadlock is between two that are still there.

A signal to terminate is looked at between inspections, and so a worker that
sleeps when it arrives inspects once more (`sigterm_last_pass`).

The first two rest on what a session keeps while others take turns: its scan is
its own (`scanOf_turn_of_ne`), and while it holds one nobody else's loop is let
through (`loop_blocked`).

## Main definitions

* `Tick.restarts`, `Tick.peaceful`: Ticks that start the server anew, and ticks in
  which nobody but the workers inspects and nobody ends one.
* `failing`: An inspection that ends in an error.

## Theorems

* `server_refines`: The workers are sessions of the cluster.
* `overlap_costs_a_worker`: Two inspections at once, one worker less.
* `one_worker_survives`: But never the last.
* `sigterm_last_pass`: One more inspection at most.
-/

namespace WedFlow

/-! ## Scans -/

theorem find_of_scanOf {c : Cluster} {pid : Nat} {a : Scan} (h : c.scanOf pid = some a) :
    c.scans.find? (fun s => s.1 = pid) = some (pid, a) := by
  rcases Option.map_eq_some_iff.mp h with ⟨s, hs, rfl⟩
  have hp := List.find?_some hs
  rw [decide_eq_true_eq] at hp
  rw [hs, ← hp]

theorem scanOf_release_of_ne (c : Cluster) {p pid : Nat} (h : pid ≠ p) :
    (c.release p).scanOf pid = c.scanOf pid := by
  unfold Cluster.scanOf Cluster.release
  dsimp only
  rw [List.find?_filter]
  refine congrArg (fun f => (c.scans.find? f).map (·.2)) (funext fun s => ?_)
  by_cases hs : s.1 = pid
  · simp only [hs, h, ne_eq, not_false_eq_true, decide_true, and_self]
  · simp only [hs, decide_false, Bool.false_eq_true, and_false]

theorem scanOf_append_of_ne (c : Cluster) {p pid : Nat} (h : pid ≠ p) (s : Scan) :
    ({ c with scans := c.scans ++ [(p, s)] } : Cluster).scanOf pid = c.scanOf pid := by
  unfold Cluster.scanOf
  rw [List.find?_append, List.find?_cons_of_neg (by simpa using h.symm), List.find?_nil,
    Option.or_none]

theorem scans_statement (loc : Locale) (c : Cluster) (i : Input) :
    (turn loc c (.statement i)).scans = c.scans := by
  unfold turn serve
  dsimp only
  split
  · cases exec loc i c.db <;> rfl
  · rfl

/-- What a session has scanned is not touched by the turns of the others. -/
theorem scanOf_turn_of_ne (loc : Locale) (c : Cluster) {t : Turn} {pid : Nat}
    (h : t.owner ≠ some pid) : (turn loc c t).scanOf pid = c.scanOf pid := by
  cases t with
  | statement i =>
      unfold Cluster.scanOf
      rw [scans_statement]
  | scan p now =>
      have hne : pid ≠ p := fun heq => h (congrArg some heq.symm)
      unfold turn serve
      dsimp only
      split
      · rfl
      · exact scanOf_append_of_ne c hne _
  | loop p env =>
      have hne : pid ≠ p := fun heq => h (congrArg some heq.symm)
      unfold turn serve
      dsimp only
      split
      · rfl
      · split
        · exact scanOf_release_of_ne c hne
        · split
          · split <;> exact scanOf_release_of_ne c hne
          · rfl
  | cancel p => exact scanOf_release_of_ne c (fun heq => h (congrArg some heq.symm))

/-- A session does not scan twice in one transaction. -/
theorem turn_scan_of_scanOf (loc : Locale) {c : Cluster} {pid : Nat} {a : Scan}
    (h : c.scanOf pid = some a) (now : Time) : turn loc c (.scan pid now) = c := by
  have hany : c.scans.any (fun q => q.1 = pid) = true :=
    List.any_eq_true.mpr ⟨_, List.mem_of_find?_eq_some (find_of_scanOf h), decide_eq_true rfl⟩
  unfold turn serve
  dsimp only
  rw [if_pos hany]

/-- A loop over something has to wait while anybody else has a scan. -/
theorem loop_blocked (loc : Locale) {c : Cluster} {v w : Nat} (hvw : v ≠ w) {a b : Scan}
    (hv : c.scanOf v = some a) (ha : a.rows ≠ []) (hw : c.scanOf w = some b) (env : Env) :
    serve loc c (.loop v env) = (c, .pending) := by
  have hdenied : ¬ c.grants (some v) .accessExclusive = true := by
    intro hg
    have hmem := List.mem_of_find?_eq_some (find_of_scanOf hw)
    exact hvw (Option.some.inj (grants_accessExclusive hg _ hmem)).symm
  unfold serve
  dsimp only
  rw [find_of_scanOf hv]
  dsimp only
  rw [if_neg ha, if_neg hdenied]

/-! ## The cluster of a server -/

theorem cluster_after (loc : Locale) (q : Queue) (ts : List Turn) :
    (Machine.after (Queue.turn loc) q ts).cluster = Machine.after (turn loc) q.cluster ts := by
  induction ts generalizing q with
  | nil => rfl
  | cons t ts ih => exact ih (q.turn loc t)

theorem cluster_tick (loc : Locale) (total : Nat) (s : Server) (e : Tick) :
    (s.tick loc total e).queue.cluster
      = Machine.after (turn loc) s.queue.cluster (s.sends total e) :=
  cluster_after loc s.queue (s.sends total e)

/-- The workers are sessions of the cluster, so what holds however sessions take
    turns holds of them. -/
theorem server_refines (loc : Locale) (total : Nat) (es : List Tick) :
    ∃ ts, (server loc total es).queue.cluster = cluster loc ts := by
  induction es using List.reverseRecOn with
  | nil => exact ⟨[], rfl⟩
  | append_singleton es e ih =>
      rcases ih with ⟨ts, hts⟩
      refine ⟨ts ++ (server loc total es).sends total e, ?_⟩
      unfold server cluster at hts ⊢
      rw [Machine.after_concat, cluster_tick, hts, Machine.after_append]

/-! ## Workers that are gone -/

/-- The server starts anew. -/
def Tick.restarts : Tick → Bool
  | .restart => true
  | _ => false

theorem isSome_update {workers : Nat → Option BgWorker} {u w : Nat} {o : Option BgWorker}
    (ho : u = w → o.isSome = true → (workers w).isSome = true)
    (h : (Function.update workers u o w).isSome = true) : (workers w).isSome = true := by
  by_cases hu : u = w
  · subst hu
    rw [Function.update_self] at h
    exact ho rfl h
  · rwa [Function.update_of_ne (Ne.symm hu)] at h

/-- Only a new start brings a worker back. -/
theorem isSome_of_tick {loc : Locale} {total : Nat} {s : Server} {e : Tick} {w : Nat}
    (he : e.restarts = false) (h : ((s.tick loc total e).workers w).isSome = true) :
    (s.workers w).isSome = true := by
  change (s.moved loc total e w).isSome = true at h
  unfold Server.moved at h
  cases e with
  | other t => exact h
  | restart => exact absurd he.symm Bool.false_ne_true
  | sigterm u =>
      refine isSome_update (fun hu ho => ?_) h
      subst hu
      rwa [Option.isSome_map] at ho
  | wake u now =>
      refine isSome_update (fun hu ho => ?_) h
      subst hu
      rwa [Option.isSome_map] at ho
  | loop u env =>
      dsimp only at h
      split at h
      · refine isSome_update (fun hu ho => ?_) h
        subst hu
        rcases Option.isSome_iff_exists.mp ho with ⟨b, hb⟩
        rcases Option.bind_eq_some_iff.mp hb with ⟨b', hb', -⟩
        rw [hb']
        rfl
      · exact h
  | deadlock pid =>
      dsimp only at h
      split at h
      · exact isSome_update (fun _ ho => absurd ho (by simp)) h
      · exact h
  | cancel u =>
      dsimp only at h
      split at h
      · exact isSome_update (fun _ ho => absurd ho (by simp)) h
      · exact h

theorem gone_tick {loc : Locale} {total : Nat} {s : Server} {e : Tick} {w : Nat}
    (he : e.restarts = false) (h : s.workers w = none) : (s.tick loc total e).workers w = none := by
  refine Option.not_isSome_iff_eq_none.mp (fun hsome => ?_)
  have hbefore := isSome_of_tick he hsome
  rw [h] at hbefore
  exact absurd hbefore Bool.false_ne_true

/-- The workers have the numbers they were registered with. -/
theorem isWorker_of_isSome (loc : Locale) (total : Nat) (es : List Tick) :
    ∀ w, ((server loc total es).workers w).isSome = true → isWorker total w = true := by
  have hstart : ∀ w, (registered total w).isSome = true → isWorker total w = true := by
    intro w h
    unfold registered at h
    split at h
    next hw => exact hw
    next => exact absurd h Bool.false_ne_true
  refine Machine.after_invariant (Server.tick loc total) (fun _ => True)
    (fun s => ∀ w, (s.workers w).isSome = true → isWorker total w = true) ?_ _ hstart es
    (fun _ _ => trivial)
  intro s e _ hs w h
  by_cases he : e.restarts = true
  · cases e with
    | restart => exact hstart w h
    | _ => exact absurd he Bool.false_ne_true
  · exact hs w (isSome_of_tick (Bool.eq_false_iff.mpr he) h)

/-! ## Two inspections at once -/

/-- A worker whose loop is not let through keeps its scan, or is lost. -/
theorem keeps_tick {loc : Locale} {total : Nat} {s : Server} {v : Nat} {a : Scan}
    (hworker : isWorker total v = true) (hscan : s.queue.cluster.scanOf v = some a)
    (hblocked : ∀ env, serve loc s.queue.cluster (.loop v env) = (s.queue.cluster, .pending))
    (e : Tick) (he : e.restarts = false) :
    (s.tick loc total e).queue.cluster.scanOf v = some a ∨ (s.tick loc total e).workers v = none := by
  have hothers : ∀ t : Turn, t.owner ≠ some v → (turn loc s.queue.cluster t).scanOf v = some a :=
    fun t ht => (scanOf_turn_of_ne loc _ ht).trans hscan
  rw [cluster_tick]
  cases e with
  | other t =>
      left
      unfold Server.sends
      dsimp only
      split
      · exact hscan
      next hclient =>
        refine hothers t (fun ht => hclient ?_)
        rw [ht]
        exact hworker
  | restart => exact absurd he.symm Bool.false_ne_true
  | sigterm u => exact .inl hscan
  | wake u now =>
      left
      unfold Server.sends
      dsimp only
      split
      · change (turn loc s.queue.cluster (.scan u now)).scanOf v = some a
        by_cases hu : u = v
        · subst hu
          rw [turn_scan_of_scanOf loc hscan]
          exact hscan
        · exact hothers _ (fun h => hu (Option.some.inj h))
      · exact hscan
  | loop u env =>
      left
      unfold Server.sends
      dsimp only
      split
      · change (turn loc s.queue.cluster (.loop u env)).scanOf v = some a
        by_cases hu : u = v
        · subst hu
          unfold turn
          rw [hblocked env]
          exact hscan
        · exact hothers _ (fun h => hu (Option.some.inj h))
      · exact hscan
  | deadlock pid =>
      by_cases hp : pid = v
      -- It is the one that is cancelled, unless there is no deadlock.
      · subst hp
        by_cases hd : s.queue.deadlocked pid = true
        · right
          change s.moved loc total (.deadlock pid) pid = none
          unfold Server.moved
          dsimp only
          rw [if_pos hd, Function.update_self]
        · left
          unfold Server.sends
          dsimp only
          rw [if_neg hd]
          exact hscan
      · left
        unfold Server.sends
        dsimp only
        split
        · exact hothers (.cancel pid) (fun h => hp (Option.some.inj h))
        · exact hscan
  | cancel u =>
      by_cases hu : u = v
      · subst hu
        by_cases hphase : s.phase u = some .inspecting
        · right
          change s.moved loc total (.cancel u) u = none
          unfold Server.moved
          dsimp only
          rw [if_pos hphase, Function.update_self]
        · left
          unfold Server.sends
          dsimp only
          rw [if_neg hphase]
          exact hscan
      · left
        unfold Server.sends
        dsimp only
        split
        · exact hothers (.cancel u) (fun h => hu (Option.some.inj h))
        · exact hscan

/-- Two workers have found something at the same time. Until the server is started
    anew, both are still at it or one of them is gone. -/
theorem overlap_costs_a_worker (loc : Locale) (total : Nat) (es es' : List Tick) {v w : Nat}
    (hvw : v ≠ w) {a b : Scan}
    (hv : (server loc total es).queue.cluster.scanOf v = some a) (ha : a.rows ≠ [])
    (hw : (server loc total es).queue.cluster.scanOf w = some b) (hb : b.rows ≠ [])
    (hrun : ∀ e ∈ es', e.restarts = false) :
    ((server loc total (es ++ es')).queue.cluster.scanOf v = some a ∧
        (server loc total (es ++ es')).queue.cluster.scanOf w = some b) ∨
      (server loc total (es ++ es')).workers v = none ∨
      (server loc total (es ++ es')).workers w = none := by
  have hnumbers := isWorker_of_isSome loc total es
  unfold server at hv hw hnumbers ⊢
  rw [Machine.after_append]
  generalize Machine.after (Server.tick loc total) (Server.empty total) es = s at hv hw hnumbers ⊢
  by_cases hv' : isWorker total v = true
  · by_cases hw' : isWorker total w = true
    · refine Machine.after_invariant (Server.tick loc total) (fun e => e.restarts = false)
        (fun t => (t.queue.cluster.scanOf v = some a ∧ t.queue.cluster.scanOf w = some b) ∨
          t.workers v = none ∨ t.workers w = none) ?_ s (.inl ⟨hv, hw⟩) es' hrun
      rintro t e he (⟨htv, htw⟩ | hgone | hgone)
      · -- Each of the two holds the other one up.
        rcases keeps_tick hv' htv (loop_blocked loc hvw htv ha htw) e he with hkeepv | hgone
        · rcases keeps_tick hw' htw (loop_blocked loc (Ne.symm hvw) htw hb htv) e he
            with hkeepw | hgone
          · exact .inl ⟨hkeepv, hkeepw⟩
          · exact .inr (.inr hgone)
        · exact .inr (.inl hgone)
      · exact .inr (.inl (gone_tick he hgone))
      · exact .inr (.inr (gone_tick he hgone))
    · have hgone : s.workers w = none :=
        Option.not_isSome_iff_eq_none.mp (fun h => hw' (hnumbers w h))
      exact .inr (.inr (Machine.after_invariant (Server.tick loc total) (fun e => e.restarts = false)
        (fun t => t.workers w = none) (fun t e he h => gone_tick he h) s hgone es' hrun))
  · have hgone : s.workers v = none :=
      Option.not_isSome_iff_eq_none.mp (fun h => hv' (hnumbers v h))
    exact .inr (.inl (Machine.after_invariant (Server.tick loc total) (fun e => e.restarts = false)
      (fun t => t.workers v = none) (fun t e he h => gone_tick he h) s hgone es' hrun))

/-- Both workers find the job that was locked at 2. -/
def inStep : List Tick :=
  tiny.map (fun i => .other (.statement i)) ++
    [.other (.statement ⟨clock 1, .insertFlow 7 none []⟩),
      .other (.statement ⟨clock 2, .jobLock (tokenAt 1 0) none⟩), .wake 1 20, .wake 2 20]

/-- They wait for each other until the second is cancelled. -/
def outOfStep : List Tick :=
  [.loop 1 (clock 21), .loop 2 (clock 21), .deadlock 2, .loop 1 (clock 22)]

/-- The first is done with its inspection, and alone. -/
theorem overlap_costs_a_worker_inStep :
    (server asciiLocale 2 (inStep ++ outOfStep)).phase 1 = some .napping ∧
      (server asciiLocale 2 (inStep ++ outOfStep)).workers 2 = none := by
  have hdone : (server asciiLocale 2 (inStep ++ outOfStep)).phase 1 = some .napping := by
    decide +kernel
  have hscan : ∀ w ∈ [1, 2], (server asciiLocale 2 inStep).queue.cluster.scanOf w
      = some ⟨20, [⟨"left", 1, 7, tokenAt 1 0, 10⟩]⟩ := by decide +kernel
  refine ⟨hdone, ?_⟩
  rcases overlap_costs_a_worker asciiLocale 2 inStep outOfStep (by decide : 1 ≠ 2)
    (hscan 1 (by decide)) (List.cons_ne_nil _ _) (hscan 2 (by decide)) (List.cons_ne_nil _ _)
    (by decide) with h | h | h
  · have hreleased : (server asciiLocale 2 (inStep ++ outOfStep)).queue.cluster.scanOf 1 = none := by
      decide +kernel
    exact absurd (hreleased.symm.trans h.1).symm (Option.some_ne_none _)
  · unfold Server.phase at hdone
    rw [h] at hdone
    exact absurd hdone.symm (Option.some_ne_none _)
  · exact h

/-! ## The last worker -/

/-- There is a worker, none of them is to terminate, and every scan is held by one
    that is there. -/
structure Server.Manned (s : Server) : Prop where
  alive : ∃ w, (s.workers w).isSome = true
  calm : ∀ w b, s.workers w = some b → b.gotSigterm = false
  scans : ∀ q ∈ s.queue.cluster.scans, (s.workers q.1).isSome = true

/-- A change of one worker that leaves it there, and not to terminate. -/
theorem Server.Manned.update {s : Server} (h : s.Manned) {w : Nat} {b : BgWorker}
    (hb : b.gotSigterm = false) {q : Queue}
    (hq : ∀ p ∈ q.cluster.scans, p ∈ s.queue.cluster.scans ∨ p.1 = w) :
    (⟨q, Function.update s.workers w (some b)⟩ : Server).Manned where
  alive := ⟨w, by simp only [Function.update_self, Option.isSome_some]⟩
  calm := by
    intro v b' hv
    dsimp only at hv
    by_cases hw : v = w
    · rw [hw, Function.update_self] at hv
      exact Option.some.inj hv ▸ hb
    · rw [Function.update_of_ne hw] at hv
      exact h.calm v b' hv
  scans := by
    intro p hp
    dsimp only
    by_cases hw : p.1 = w
    · rw [hw, Function.update_self]
      rfl
    · rw [Function.update_of_ne hw]
      exact h.scans p ((hq p hp).resolve_right hw)

/-- The worker has been told to terminate, if it is there. -/
def Server.told (s : Server) (w : Nat) : Prop :=
  ∀ b, s.workers w = some b → b.gotSigterm = true

/-- It is in its last inspection, or gone. -/
def Server.leaving (s : Server) (w : Nat) : Prop :=
  ∀ b, s.workers w = some b → b = ⟨true, .inspecting⟩

/-- What a worker becomes in one tick of a server that stays up. -/
theorem worker_tick {loc : Locale} {total : Nat} {s : Server} {e : Tick} {w : Nat} {b' : BgWorker}
    (he : e.restarts = false) (h : (s.tick loc total e).workers w = some b') :
    ∃ b, s.workers w = some b ∧ (b' = b ∨ b' = { b with gotSigterm := true } ∨
      b' = { b with phase := .inspecting } ∨
      b.gotSigterm = false ∧ b' = { b with phase := .napping }) := by
  change s.moved loc total e w = some b' at h
  unfold Server.moved at h
  -- Only the worker that the tick is about can have changed.
  have hsame : s.workers w = some b' → ∃ b, s.workers w = some b ∧ (b' = b ∨
      b' = { b with gotSigterm := true } ∨
      b' = { b with phase := .inspecting } ∨
      b.gotSigterm = false ∧ b' = { b with phase := .napping }) :=
    fun h => ⟨b', h, .inl rfl⟩
  cases e with
  | other t => exact hsame h
  | restart => exact absurd he.symm Bool.false_ne_true
  | sigterm u =>
      dsimp only at h
      by_cases hu : w = u
      · subst hu
        rw [Function.update_self] at h
        rcases Option.map_eq_some_iff.mp h with ⟨b, hb, rfl⟩
        exact ⟨b, hb, .inr (.inl rfl)⟩
      · rw [Function.update_of_ne hu] at h
        exact hsame h
  | wake u now =>
      dsimp only at h
      by_cases hu : w = u
      · subst hu
        rw [Function.update_self] at h
        rcases Option.map_eq_some_iff.mp h with ⟨b, hb, rfl⟩
        exact ⟨b, hb, .inr (.inr (.inl rfl))⟩
      · rw [Function.update_of_ne hu] at h
        exact hsame h
  | loop u env =>
      dsimp only at h
      split at h
      · by_cases hu : w = u
        · subst hu
          rw [Function.update_self] at h
          rcases Option.bind_eq_some_iff.mp h with ⟨b, hb, ha⟩
          unfold BgWorker.answered at ha
          split at ha
          · exact ⟨b, hb, .inl (Option.some.inj ha).symm⟩
          · split at ha
            · exact absurd ha.symm (Option.some_ne_none b')
            next hcalm =>
              exact ⟨b, hb, .inr (.inr (.inr ⟨Bool.eq_false_iff.mpr hcalm, (Option.some.inj ha).symm⟩))⟩
          · exact absurd ha.symm (Option.some_ne_none b')
          · exact absurd ha.symm (Option.some_ne_none b')
        · rw [Function.update_of_ne hu] at h
          exact hsame h
      · exact hsame h
  | deadlock pid =>
      dsimp only at h
      split at h
      · by_cases hu : w = pid
        · rw [hu, Function.update_self] at h
          exact absurd h.symm (Option.some_ne_none b')
        · rw [Function.update_of_ne hu] at h
          exact hsame h
      · exact hsame h
  | cancel u =>
      dsimp only at h
      split at h
      · by_cases hu : w = u
        · rw [hu, Function.update_self] at h
          exact absurd h.symm (Option.some_ne_none b')
        · rw [Function.update_of_ne hu] at h
          exact hsame h
      · exact hsame h

theorem told_sigterm (loc : Locale) (total : Nat) (s : Server) (w : Nat) :
    (s.tick loc total (.sigterm w)).told w := by
  intro b hb
  unfold Server.tick Server.moved at hb
  dsimp only at hb
  rw [Function.update_self] at hb
  rcases Option.map_eq_some_iff.mp hb with ⟨b, -, rfl⟩
  rfl

theorem told_tick {loc : Locale} {total : Nat} {s : Server} {e : Tick} {w : Nat}
    (he : e.restarts = false) (h : s.told w) : (s.tick loc total e).told w := by
  intro b' hb'
  rcases worker_tick he hb' with ⟨b, hb, rfl | rfl | rfl | ⟨hcalm, -⟩⟩
  · exact h _ hb
  · rfl
  · exact h b hb
  · exact absurd (h b hb) (Bool.eq_false_iff.mp hcalm)

theorem leaving_tick {loc : Locale} {total : Nat} {s : Server} {e : Tick} {w : Nat}
    (he : e.restarts = false) (h : s.leaving w) : (s.tick loc total e).leaving w := by
  intro b' hb'
  rcases worker_tick he hb' with ⟨b, hb, hcases⟩
  rw [h b hb] at hcases
  rcases hcases with rfl | rfl | rfl | ⟨hcalm, -⟩
  · rfl
  · rfl
  · rfl
  · exact absurd hcalm.symm Bool.false_ne_true

/-- The inspection it begins is the last. -/
theorem leaving_of_wakes {loc : Locale} {total : Nat} {s : Server} {e : Tick} {w : Nat}
    (h : s.told w) (hw : wakes w (s, e) = true) : (s.tick loc total e).leaving w := by
  cases e with
  | wake u now =>
      rcases Bool.and_eq_true_iff.mp hw with ⟨hu, -⟩
      rw [decide_eq_true_eq] at hu
      subst hu
      intro b' hb'
      change Function.update s.workers u _ u = some b' at hb'
      rw [Function.update_self] at hb'
      rcases Option.map_eq_some_iff.mp hb' with ⟨b, hb, rfl⟩
      rw [h b hb]
  | _ => exact absurd hw Bool.false_ne_true

theorem countP_wakes_of_leaving {loc : Locale} {total : Nat} {s : Server} {w : Nat} (h : s.leaving w)
    (es : List Tick) (hrun : ∀ e ∈ es, e.restarts = false) :
    (Machine.history (Server.tick loc total) s es).countP (wakes w) = 0 := by
  induction es generalizing s with
  | nil => rfl
  | cons e es ih =>
      rcases List.forall_mem_cons.mp hrun with ⟨he, hrest⟩
      have hsleeps : ¬ wakes w (s, e) = true := by
        intro hw
        cases e with
        | wake u now =>
            have hphase := of_decide_eq_true (Bool.and_eq_true_iff.mp hw).2
            rcases Option.map_eq_some_iff.mp hphase with ⟨b, hb, hnap⟩
            rw [h b hb] at hnap
            exact absurd hnap (by simp only [reduceCtorEq, not_false_eq_true])
        | _ => exact absurd hw Bool.false_ne_true
      rw [Machine.history, List.countP_cons_of_neg hsleeps]
      exact ih (leaving_tick he h) hrest

theorem countP_wakes_of_told {loc : Locale} {total : Nat} {s : Server} {w : Nat} (h : s.told w)
    (es : List Tick) (hrun : ∀ e ∈ es, e.restarts = false) :
    (Machine.history (Server.tick loc total) s es).countP (wakes w) ≤ 1 := by
  induction es generalizing s with
  | nil => exact Nat.zero_le 1
  | cons e es ih =>
      rcases List.forall_mem_cons.mp hrun with ⟨he, hrest⟩
      rw [Machine.history]
      by_cases hw : wakes w (s, e) = true
      · rw [List.countP_cons_of_pos hw, countP_wakes_of_leaving (leaving_of_wakes h hw) es hrest]
      · rw [List.countP_cons_of_neg hw]
        exact ih (told_tick he h) hrest

/-- A worker that has been told to terminate begins one more inspection at most, and
    an inspection that is answered is its last. -/
theorem sigterm_last_pass (loc : Locale) (total : Nat) (es es' : List Tick) (w : Nat)
    (hrun : ∀ e ∈ es', e.restarts = false) :
    (Machine.history (Server.tick loc total) (server loc total (es ++ [.sigterm w])) es').countP
        (wakes w) ≤ 1 ∧
      ∀ p ∈ Machine.history (Server.tick loc total) (server loc total (es ++ [.sigterm w])) es',
        ∀ env, p.2 = .loop w env → p.1.phase w = some .inspecting →
          (serve loc p.1.queue.cluster (.loop w env)).2 ≠ .pending →
          (p.1.tick loc total p.2).workers w = none := by
  have htold : (server loc total (es ++ [.sigterm w])).told w := by
    unfold server
    rw [Machine.after_concat]
    exact told_sigterm loc total _ w
  refine ⟨countP_wakes_of_told htold es' hrun, fun p hp env he hphase ha => ?_⟩
  rcases List.append_of_mem hp with ⟨h₁, h₂, hsplit⟩
  rcases Machine.history_before _ _ es' h₁ h₂ p.1 p.2 hsplit with ⟨es₁, es₂, rfl, -, hs⟩
  have hstill : p.1.told w := by
    rw [hs]
    exact Machine.after_invariant (Server.tick loc total) (fun e => e.restarts = false)
      (fun s => s.told w) (fun s e he h => told_tick he h) _ htold es₁
      (fun e hmem => hrun e (List.mem_append_left _ hmem))
  rcases Option.map_eq_some_iff.mp hphase with ⟨b, hb, -⟩
  rw [he]
  change p.1.moved loc total (.loop w env) w = none
  unfold Server.moved
  dsimp only
  rw [if_pos hphase, Function.update_self, hb, Option.bind_some]
  unfold BgWorker.answered
  split
  next hpend => exact absurd hpend ha
  · rw [if_pos (hstill b hb)]
  · rfl
  · rfl

/-- It sleeps when the signal arrives, inspects once more, and does not wake up
    again. -/
theorem sigterm_last_pass_asleep :
    (Machine.history (Server.tick asciiLocale 1) (server asciiLocale 1 ([] ++ [.sigterm 1]))
        [.wake 1 5, .loop 1 (clock 6), .wake 1 15]).countP (wakes 1) = 1 := by
  have hmost := (sigterm_last_pass asciiLocale 1 [] [.wake 1 5, .loop 1 (clock 6), .wake 1 15] 1
    (by decide)).1
  have hleast : 0 < (Machine.history (Server.tick asciiLocale 1)
      (server asciiLocale 1 ([] ++ [.sigterm 1]))
      [.wake 1 5, .loop 1 (clock 6), .wake 1 15]).countP (wakes 1) := by decide +kernel
  omega

end WedFlow
