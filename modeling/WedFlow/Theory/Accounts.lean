import WedFlow.Theory.History
import WedFlow.Theory.Sessions

/-!
# Nothing Is Lost

Two ways in which the history of an instance can be relied on.

It only grows. However the sessions take turns, a row of `wed_trace` keeps its
place, what it says about triggers and flags, and its values. A new attribute gives
it one value more, and a new name of an attribute is a new name in it too.

And it accounts for every run of a trigger, aborts included, as long as a write is
recorded as it was meant. A firing has led to a write, or its job was ended by
`job_abort`, or it is still open. What `job_inspector` does is not seen: it takes an
open job away and puts another one in its place.

## Main definitions

* `TraceRow.Extends`: A row after a change of the attributes.
* `endsJob`: A call of `job_abort` that ends an open job.

## Theorems

* `trace_append_only`: The history only grows.
* `firings_accounted`: Fired is written, open or aborted.
-/

namespace WedFlow

open Workflow (Inst Action Performs Accounted)

/-! ## Rows that stay -/

/-- The row says the same of triggers and flags, and has its values in their
    places. -/
structure TraceRow.Extends (r r' : TraceRow) : Prop where
  same : r' = { r with attrs := r'.attrs }
  values : r.attrs.map (·.2) <+: r'.attrs.map (·.2)

theorem TraceRow.Extends.refl (r : TraceRow) : r.Extends r :=
  ⟨rfl, List.prefix_refl _⟩

theorem TraceRow.Extends.trans {r r' r'' : TraceRow} (h : r.Extends r') (h' : r'.Extends r'') :
    r.Extends r'' := by
  refine ⟨?_, h.values.trans h'.values⟩
  rw [h'.same, h.same]

/-- Every row is still there, in its place. -/
def Appends (old new : List TraceRow) : Prop :=
  ∀ (n : Nat) (r : TraceRow), old[n]? = some r → ∃ r', new[n]? = some r' ∧ r.Extends r'

theorem Appends.refl (rows : List TraceRow) : Appends rows rows :=
  fun _ r h => ⟨r, h, .refl r⟩

theorem Appends.trans {a b c : List TraceRow} (h : Appends a b) (h' : Appends b c) : Appends a c := by
  intro n r hr
  rcases h n r hr with ⟨r', hr', he⟩
  rcases h' n r' hr' with ⟨r'', hr'', he'⟩
  exact ⟨r'', hr'', he.trans he'⟩

theorem appends_append (rows more : List TraceRow) : Appends rows (rows ++ more) := by
  intro n r h
  refine ⟨r, ?_, .refl r⟩
  rw [List.getElem?_append_left (List.getElem?_eq_some_iff.mp h).1]
  exact h

theorem appends_map (rows : List TraceRow) (f : List (String × String) → List (String × String))
    (hf : ∀ a, a.map (·.2) <+: (f a).map (·.2)) :
    Appends rows (rows.map fun r => { r with attrs := f r.attrs }) := by
  intro n r h
  rw [List.getElem?_map, h]
  exact ⟨_, rfl, rfl, hf r.attrs⟩

/-- An attribute adds a value at the end, or changes a name. -/
theorem appends_restyled {db db' : Db} {op : Op} (h : Restyled db op db') :
    Appends db.wedTrace db'.wedTrace := by
  cases h with
  | add new hfree =>
      refine appends_map _ (fun a => a ++ [(columnName new.name, new.defaultValue)]) (fun a => ?_)
      rw [List.map_append]
      exact List.prefix_append _ _
  | missing name new => exact .refl _
  | rename name old new attrs hfree =>
      refine appends_map _ (fun a => a.map (renameKey (columnName old.name) (columnName new.name)))
        (fun a => ?_)
      rw [List.map_map]
      exact List.prefix_refl _
  | setDefault name old new attrs => exact .refl _

theorem appends_exec (loc : Locale) (i : Input) (db db' : Db) (r : Reply) (hi : Inv db)
    (h : exec loc i db = .ok (db', r)) : Appends db.wedTrace db'.wedTrace := by
  have hc := exec_change loc i db db' r hi h
  rcases i with ⟨env, op⟩
  dsimp only at hc
  cases hc with
  | insert wid uptkn vals w hw => exact appends_append _ _
  | update wid newWid uptkn vals old u db₁ w hw =>
      rcases hw.justified with ⟨f, e, -, -, hj⟩
      have htrace : (w.update env db₁).wedTrace = db.wedTrace ++ w.rows := by
        rw [hj.same]
        rfl
      rw [htrace]
      exact appends_append _ _
  | redefine op db' hop hd =>
      rw [hd.same]
      exact .refl _
  | restyle op db' hop hd => exact appends_restyled hd
  | _ => exact .refl _

theorem appends_turn (loc : Locale) (c : Cluster) (t : Turn) (hc : ClusterInv c) :
    Appends c.db.wedTrace (turn loc c t).db.wedTrace := by
  have ht := serve_turned loc c t
  unfold turn
  generalize (serve loc c t).1 = c', (serve loc c t).2 = a at ht ⊢
  cases ht with
  | idle t a ha => exact .refl _
  | statement i db r hg h => exact appends_exec loc i _ _ r hc.inv h
  | scan pid now hfree => exact .refl _
  | release t a pid ha => exact .refl _
  | noRows pid env s hs hrows => exact .refl _
  | loop pid env s db hs hg h =>
      have hsc : Scanned c.db s.rows := hc.scans _ (List.mem_of_find?_eq_some hs)
      rcases (hsc.requeue_ok_iff hc.inv loc _ db).mp h with ⟨-, rfl⟩
      exact .refl _

/-- However the sessions take turns, a row of the history keeps its place and what
    it says. -/
theorem trace_append_only (loc : Locale) (ts ts' : List Turn) (n : Nat) (r : TraceRow)
    (hr : (cluster loc ts).db.wedTrace[n]? = some r) :
    ∃ r', (cluster loc (ts ++ ts')).db.wedTrace[n]? = some r' ∧ r.Extends r' := by
  have hend : cluster loc (ts ++ ts') = Machine.after (turn loc) (cluster loc ts) ts' :=
    Machine.after_append _ _ _ _
  rw [hend]
  refine (Machine.after_invariant (turn loc) (fun _ => True)
    (fun c => ClusterInv c ∧ Appends (cluster loc ts).db.wedTrace c.db.wedTrace) ?_ _
    ⟨cluster_inv loc ts, .refl _⟩ ts' (fun _ _ => trivial)).2 n r hr
  intro c t _ h
  exact ⟨clusterInv_turn loc c t h.1, h.2.trans (appends_turn loc c t h.1)⟩

/-- The first row of the history after a new attribute, and with a write after it. -/
theorem trace_append_only_tiny :
    let ts := (tiny ++ [Input.mk (clock 1) (.insertFlow 7 none [])]).map Turn.statement
    let ts' := [Input.mk (clock 2) (.insertAttr ⟨"by", "nobody"⟩),
      ⟨clock 3, .jobLock (tokenAt 1 0) none⟩,
      ⟨clock 4, .updateFlow 7 none (some (some (tokenAt 1 0))) [("st", some "half")]⟩].map Turn.statement
    (cluster asciiLocale (ts ++ ts')).db.wedTrace.length = 2 ∧
      ∃ r r', (cluster asciiLocale ts).db.wedTrace[0]? = some r ∧
        (cluster asciiLocale (ts ++ ts')).db.wedTrace[0]? = some r' ∧ r.Extends r' := by
  intro ts ts'
  rcases Option.isSome_iff_exists.mp (show ((cluster asciiLocale ts).db.wedTrace[0]?).isSome = true by
    decide +kernel) with ⟨r, hr⟩
  rcases trace_append_only asciiLocale ts ts' 0 r hr with ⟨r', hr', hext⟩
  exact ⟨by decide +kernel, r, r', hr, hr', hext⟩

/-! ## Firings -/

/-- The statement is a `job_abort` that ends the open job of a trigger of an
    instance. -/
def endsJob (wid g : Int) (p : Db × Input) : Bool :=
  match p.2.op with
  | .jobAbort u => (jobOf p.1 u).any fun j => j.locked && OpenAt wid g j
  | _ => false

theorem endsJob_abort {db : Db} {env : Env} {u : String} {j : JobRow} (hj : jobOf db u = some j)
    (hl : j.locked = true) (ht : j.tf = none) (wid g : Int) :
    endsJob wid g (db, ⟨env, .jobAbort u⟩) = true ↔ wid = j.wid ∧ g = j.tgid := by
  unfold endsJob
  dsimp only
  rw [hj, Option.any_some, hl, Bool.true_and, openAt_iff]
  exact ⟨fun h => ⟨h.1.symm, h.2.2.symm⟩, fun h => ⟨h.1.symm, ht, h.2.symm⟩⟩

theorem endsJob_eq_false {db : Db} {env : Env} {u : String}
    (h : ∀ j, jobOf db u = some j → ¬ (j.locked = true ∧ j.tf = none)) (wid g : Int) :
    endsJob wid g (db, ⟨env, .jobAbort u⟩) = false := by
  unfold endsJob
  dsimp only
  cases hj : jobOf db u with
  | none => rfl
  | some j =>
      refine Bool.eq_false_iff.mpr (fun hany => h j hj ?_)
      rw [Option.any_some, Bool.and_eq_true, openAt_iff] at hany
      exact ⟨hany.1, hany.2.2.1⟩

/-- A call of `job_abort` writes nothing but the job. -/
theorem books_abort (loc : Locale) (env : Env) (u : String) (db : Db) (hi : Inv db) (wid : Int) :
    books (step loc db ⟨env, .jobAbort u⟩) wid = books db wid := by
  refine step_cases loc db _ (fun db' => books db' wid = books db wid) rfl (fun db' r hex => ?_)
  have hc := exec_change loc _ db db' r hi hex
  cases hc with
  | noAbort u h => rfl
  | abort u j hj hl ha => rfl
  | redefine op db' hop h => exact hop.elim
  | restyle op db' hop h => exact hop.elim

/-- A call of `job_abort` moves the run it ends to the account of those. -/
theorem accounted_abort (loc : Locale) (env : Env) (u : String) (db : Db) (hi : Inv db) (wid : Int)
    {lost lost' : Int → Nat}
    (hlost : ∀ g, lost' g = lost g + if endsJob wid g (db, ⟨env, .jobAbort u⟩) = true then 1 else 0)
    (h : Accounted lost (inst db wid) (books db wid)) :
    Accounted lost' (inst (step loc db ⟨env, .jobAbort u⟩) wid)
      (books (step loc db ⟨env, .jobAbort u⟩) wid) := by
  rw [books_abort loc env u db hi wid]
  by_cases hends : ∃ j, jobOf db u = some j ∧ j.locked = true ∧ j.tf = none
  · rcases hends with ⟨j, hj, hl, ht⟩
    -- An open job has not been aborted, so the call goes through.
    have hna := (hi.pool.phase j (jobOf_some db u j hj).1 ht).1
    have hex : exec loc ⟨env, .jobAbort u⟩ db = .ok (writeJob u (abortRow env.now) db, .bool true) :=
      (Table.map_eq_ok _ _ _).mpr ⟨(_, true),
        (jobAbort_ok_iff env.now u db _ true hi.lockJob hi.pool.tokens).mpr
          (.inr ⟨j, hj, hl, hna, rfl, rfl⟩), rfl⟩
    have hperf := exec_performs loc ⟨env, .jobAbort u⟩ db _ _ hi id hex
    have hact : actions loc ⟨env, .jobAbort u⟩ db = [(j.wid, .abort j.tgid)] := by
      unfold actions
      dsimp only
      rw [hj]
      exact if_pos ⟨hl, ht⟩
    rw [step_of_exec hex]
    rw [hact] at hperf
    generalize inst (writeJob u (abortRow env.now) db) = A at hperf ⊢
    cases hperf with
    | cons A w a i l A' hstep hrest =>
        cases hrest with
        | nil A =>
            by_cases hw : wid = j.wid
            · subst hw
              rw [Function.update_self]
              refine Accounted.abort hstep (fun g => ?_) h
              simp only [hlost g, endsJob_abort hj hl ht, true_and]
            · rw [Function.update_of_ne hw]
              have hsame : lost' = lost := by
                funext g
                rw [hlost g, if_neg (fun he => hw ((endsJob_abort hj hl ht wid g).mp he).1),
                  Nat.add_zero]
              rw [hsame]
              exact h
  · have hnone : ∀ j, jobOf db u = some j → ¬ (j.locked = true ∧ j.tf = none) :=
      fun j hj hopen => hends ⟨j, hj, hopen⟩
    have hsame : lost' = lost := by
      funext g
      rw [hlost g, endsJob_eq_false hnone]
      rfl
    rw [hsame]
    refine step_cases loc db _ (fun db' => Accounted lost (inst db' wid) (books db wid)) h
      (fun db' r hex => ?_)
    have hperf := exec_performs loc ⟨env, .jobAbort u⟩ db db' r hi id hex
    have hact : actions loc ⟨env, .jobAbort u⟩ db = [] := by
      unfold actions
      dsimp only
      cases hj : jobOf db u with
      | none => rfl
      | some j => exact if_neg (hnone j hj)
    rw [hact] at hperf
    generalize inst db' = A at hperf ⊢
    cases hperf with
    | nil A => exact h

/-- If no value has both kinds of quotes in it, every firing of a trigger is accounted
    for: it was written, it was aborted, or its job is open. -/
theorem firings_accounted (loc : Locale) (is : List Input)
    (htext : ∀ i ∈ is, i.op.HeldText loc.printable) (hnum : ∀ i ∈ is, i.op.Numbered)
    (wid g : Int) :
    firedCount (traceOf (run loc is) wid) g
      = wroteCount (traceOf (run loc is) wid) g
        + ((run loc is).jobPool.filter (OpenAt wid g)).length
        + (Machine.history (step loc) Db.empty is).countP (endsJob wid g) := by
  have hacc := (Machine.history_invariant (step loc)
    (fun i => i.op.HeldText loc.printable ∧ i.op.Numbered)
    (fun past db => Inv db ∧ Conform loc.printable (fun v => ¬ Escapes v) db ∧ Positive db ∧
      Accounted (fun g => past.countP (endsJob wid g)) (inst db wid) (books db wid)) Db.empty
    ⟨inv_empty, conform_empty, fun t ht => absurd ht List.not_mem_nil,
      fun i hi => absurd hi (Option.some_ne_none i).symm, fun t => rfl⟩ ?_ is
    (fun i hi => ⟨htext i hi, hnum i hi⟩)).2.2.2.2 g
  · rw [length_openAt (run_inv loc is), ← launches_rows, ← completions_rows]
    exact hacc
  · rintro past db i hi ⟨hinv, hc, hpos, hbal⟩
    refine ⟨inv_step loc i db hinv,
      step_cases loc db i (Conform loc.printable fun v => ¬ Escapes v) hc (fun db' r hex =>
        conform_exec loc i db db' r hinv hex hi.1 hc),
      step_cases loc db i Positive hpos (fun db' r hex =>
        positive_exec loc i db db' r hinv hex hi.2 hpos), ?_⟩
    have hcount : ∀ g, (past ++ [(db, i)]).countP (endsJob wid g)
        = past.countP (endsJob wid g) + if endsJob wid g (db, i) = true then 1 else 0 := by
      intro g
      rw [List.countP_append, List.countP_singleton]
    by_cases hab : i.op.isAbort = true
    · rcases i with ⟨env, op⟩
      cases op with
      | jobAbort u => exact accounted_abort loc env u db hinv wid hcount hbal
      | _ => exact absurd hab Bool.false_ne_true
    · -- Only `job_abort` asks for an abort.
      have hother : ∀ u, i.op ≠ .jobAbort u := Op.ne_jobAbort (Bool.eq_false_iff.mpr hab)
      have hsame : (fun g => (past ++ [(db, i)]).countP (endsJob wid g))
          = fun g => past.countP (endsJob wid g) := by
        funext g
        rw [hcount g, if_neg]
        · rfl
        · intro he
          unfold endsJob at he
          split at he
          next u hop => exact hother u hop
          next => exact Bool.false_ne_true he
      rw [hsame]
      refine step_cases loc db i (fun db' => Accounted _ (inst db' wid) (books db' wid)) hbal
        (fun db' r hex => books_exec loc _ _ (Workflow.accounted_keeps _) i db db' r hinv hpos hex
          (conform_exec loc i db db' r hinv hex hi.1 hc) (fun p hp t ht => ?_) wid hbal)
      rcases p with ⟨w, a⟩
      dsimp only at ht
      subst ht
      rcases mem_actions loc i db _ hp with ⟨u, j, hu, -⟩
      exact hother u hu

/-- One of the two jobs of the first state is aborted: it was fired, nothing was
    written, and nothing is open. -/
theorem firings_accounted_tiny :
    let is := tiny ++ [⟨clock 1, .insertFlow 7 none []⟩, ⟨clock 2, .jobLock (tokenAt 1 0) none⟩,
      ⟨clock 3, .jobAbort (tokenAt 1 0)⟩]
    firedCount (traceOf (run asciiLocale is) 7) 1 = 1 ∧
      wroteCount (traceOf (run asciiLocale is) 7) 1
        + ((run asciiLocale is).jobPool.filter (OpenAt 7 1)).length = 0 ∧
      (Machine.history (step asciiLocale) Db.empty is).countP (endsJob 7 1) = 1 := by
  intro is
  have hacc := firings_accounted asciiLocale is (by decide +kernel) (by decide +kernel) 7 1
  have hfired : firedCount (traceOf (run asciiLocale is) 7) 1 = 1 := by decide +kernel
  have hnone : wroteCount (traceOf (run asciiLocale is) 7) 1
      + ((run asciiLocale is).jobPool.filter (OpenAt 7 1)).length = 0 := by decide +kernel
  exact ⟨hfired, hnone, by omega⟩

end WedFlow
