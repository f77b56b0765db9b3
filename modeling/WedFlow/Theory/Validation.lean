import WedFlow.Core.Statements
import WedFlow.Theory.Accept

/-!
# Validated Definitions

The kernel refuses to work with definitions that could strand an instance: every
condition that is not final must have a trigger. It checks that first, and relies
on it two statements later, when the conditions that match are looked up and
their triggers are fired. An instance that is accepted as active with no other
job open needs one of those triggers, or nothing will ever happen to it again.

Nothing keeps other transactions from committing definitions in between, and the
two lookups see what is committed when each of them starts. `accepted_fires_iff`
says in these terms when such an instance gets a job: some condition whose
predicate the state meets when `wed_pred` is scanned has a trigger when
`wed_trig` is scanned. If no definition is committed after the validation there
is such a condition, which is `undisturbed_fires`.

## Main definitions

* `predsScanned`, `trigsScanned`: What a step of a call scans.
* `Covered`: What is committed at the two scans gives the state a trigger.
* `Fires`: What a call that has scanned `wed_trig` is going to fire.
* `Tracks`: What the past of a call says about the triggers it fires.
* `Sound`: What the validation is good for, as long as nothing is committed.

## Theorems

* `fires_advance`, `tracks_advance`: One statement.
* `accepted_fires_iff`: When a call that is accepted has fired a trigger.
* `undisturbed_fires`: A call that is not disturbed after the validation has.
-/

namespace WedFlow

/-! ## The two scans -/

/-- The database whose `wed_pred` the step scans. -/
def predsScanned : (Stage × Db) × Move → Option Db
  | ((.matching _ _, db), .statement) => some db
  | _ => none

/-- The database whose `wed_trig` the step scans. -/
def trigsScanned : (Stage × Db) × Move → Option Db
  | ((.scanning _ _ _, db), .statement) => some db
  | _ => none

/-- Some condition that the state meets when `wed_pred` is scanned has a trigger
    when `wed_trig` is scanned. -/
def Covered (loc : Locale) (attrs : List (String × String))
    (past : List ((Stage × Db) × Move)) : Prop :=
  ∃ d ∈ past.filterMap predsScanned, ∃ e ∈ past.filterMap trigsScanned,
    ∃ t ∈ e.wedTrig, Meets loc attrs d t.cid

/-! ## What is fired -/

/-- From the scan of `wed_trig` on: without other open jobs, a trigger is fired or
    about to be exactly if `C` holds. -/
def Fires (C : Prop) : Stage → Prop
  | .firing _ rtrg rows _ fired => rtrg = [] → (fired ≠ [] ∨ rows ≠ [] ↔ C)
  | .recording _ rtrg final _ fired => rtrg = [] → final = false → (fired ≠ [] ↔ C)
  | .marking rtrg final _ fired => rtrg = [] → final = false → (fired ≠ [] ↔ C)
  | .accepted rtrg final _ fired => rtrg = [] → final = false → (fired ≠ [] ↔ C)
  | .refused _ => True
  | _ => False

theorem fires_advance (loc : Locale) (c : Call) (C : Prop) (s : Stage × Db) (h : Fires C s.1) :
    Fires C (Call.advance loc c s).1 := by
  rcases s with ⟨stage, db⟩
  cases stage with
  | firing tgid rtrg rows n fired =>
      cases rows with
      | nil =>
          intro hr _
          have hC := h hr
          simp only [ne_eq, not_true_eq_false, or_false] at hC
          exact hC
      | cons r rs =>
          -- A trigger whose job is still open is passed over, but then `rtrg` is not empty.
          by_cases hr : r.tgid ∈ rtrg
          · simp only [Call.advance, if_pos hr]
            intro hnil
            rw [hnil] at hr
            exact absurd hr List.not_mem_nil
          · simp only [Call.advance, if_neg hr]
            split
            · exact trivial
            · intro hnil
              have hC : C := (h hnil).mp (.inr (List.cons_ne_nil r rs))
              exact iff_of_true (.inl (by simp)) hC
  | recording tgid rtrg final excpt fired =>
      dsimp only [Call.advance]
      split
      · exact trivial
      · exact h
  | marking rtrg final excpt fired =>
      dsimp only [Call.advance]
      split
      · exact trivial
      · exact h
  | accepted rtrg final excpt fired => exact h
  | refused e => exact trivial
  | finalCond | cond | trig | status => exact h.elim
  | token uptkn excpt => exact h.elim
  | running tgid => exact h.elim
  | matching tgid rtrg => exact h.elim
  | scanning tgid rtrg condSet => exact h.elim

/-- What the scan of the predicates leads to: a stage that records a final state, or
    refuses it, or the scan for the triggers of the conditions found. Without other
    open jobs the latter is not skipped for want of conditions. -/
theorem judge_cases (P : Stage → Prop) (c : Call) (tgid : Option Int) (rtrg condSet : List Int)
    (final : Bool) (hrefused : ∀ e, P (.refused e))
    (hfinal : ∀ excpt, P (.recording tgid rtrg true excpt []))
    (hskip : rtrg ≠ [] → P (.recording tgid rtrg false false []))
    (hscan : final = false → condSet ≠ [] → P (.scanning tgid rtrg condSet)) :
    P (c.judge tgid rtrg condSet final) := by
  have hsqueeze : final = false → (rtrg = [] → condSet ≠ []) → P (.squeeze tgid rtrg condSet) := by
    intro hf h
    unfold Stage.squeeze
    split
    · next hnil => exact hskip (fun hr => h hr hnil)
    · next hne => exact hscan hf hne
  unfold Call.judge
  cases c.event with
  | insert =>
      dsimp only
      split
      · exact hrefused _
      -- Without conditions and not final, the insert was refused above.
      · next hsome =>
          split
          · next hf => exact hsqueeze (Bool.eq_false_iff.mpr hf) (fun _ hnil => hsome ⟨hnil, hf⟩)
          · exact hfinal false
  | update =>
      dsimp only
      split
      · exact hfinal true
      · next hsome =>
          split
          · split
            · exact hrefused _
            · exact hfinal false
          · next hf =>
              exact hsqueeze (Bool.eq_false_iff.mpr hf) (fun hr hnil => hsome ⟨hr, hnil⟩)

/-- What the past of a call says at a stage. Up to the scan of the predicates nothing
    has been scanned; the scan of the triggers looks for the conditions which the other
    one found; and from there on it is known what is fired. -/
def Tracks (loc : Locale) (attrs : List (String × String)) (past : List ((Stage × Db) × Move)) :
    Stage → Prop
  | .finalCond | .cond | .trig | .status | .token _ _ | .running _ | .matching _ _ =>
    past.filterMap predsScanned = [] ∧ past.filterMap trigsScanned = []
  | .scanning _ _ condSet =>
    past.filterMap trigsScanned = [] ∧
      ∃ d, past.filterMap predsScanned = [d] ∧ ∀ cid, cid ∈ condSet ↔ Meets loc attrs d cid
  | stage => Fires (Covered loc attrs past) stage

theorem tracks_of_fires {loc : Locale} {attrs : List (String × String)}
    {past : List ((Stage × Db) × Move)} {stage : Stage}
    (h : Fires (Covered loc attrs past) stage) : Tracks loc attrs past stage := by
  cases stage with
  | firing | recording | marking | accepted | refused => exact h
  | finalCond | cond | trig | status | token | running | matching | scanning => exact h.elim

/-- What a step that is no scan leaves to be said is the same as before. -/
theorem tracks_concat {loc : Locale} {attrs : List (String × String)}
    {past : List ((Stage × Db) × Move)} {p : (Stage × Db) × Move} (hpred : predsScanned p = none)
    (htrig : trigsScanned p = none) (stage : Stage) :
    Tracks loc attrs (past ++ [p]) stage ↔ Tracks loc attrs past stage := by
  have hp : (past ++ [p]).filterMap predsScanned = past.filterMap predsScanned := by
    simp only [List.filterMap_append, List.filterMap_cons, hpred, List.filterMap_nil,
      List.append_nil]
  have ht : (past ++ [p]).filterMap trigsScanned = past.filterMap trigsScanned := by
    simp only [List.filterMap_append, List.filterMap_cons, htrig, List.filterMap_nil,
      List.append_nil]
  cases stage <;> simp only [Tracks, Covered, hp, ht]

/-- The scan of the predicates finds the conditions the state meets. -/
theorem tracks_matching (loc : Locale) (c : Call) (past : List ((Stage × Db) × Move))
    (tgid : Option Int) (rtrg : List Int) (db : Db)
    (h : Tracks loc c.new.attrs past (.matching tgid rtrg)) :
    Tracks loc c.new.attrs (past ++ [((.matching tgid rtrg, db), .statement)])
      (Call.advance loc c (.matching tgid rtrg, db)).1 := by
  dsimp only [Call.advance]
  split
  · exact trivial
  · next condSet final hmatch =>
      have hm := ((predMatch_ok_iff loc _ db _).mp hmatch).2
      rw [(Prod.mk.inj hm).1, (Prod.mk.inj hm).2]
      refine judge_cases (Tracks loc c.new.attrs _) c tgid rtrg _ _ (fun _ => trivial) ?_ ?_ ?_
      · exact fun _ _ hfalse => absurd hfalse (by decide)
      · exact fun hne hr => absurd hr hne
      · intro _ _
        refine ⟨?_, db, ?_, mem_matchConds_iff_meets loc db c.new.attrs⟩
        · rw [List.filterMap_append, h.2]
          rfl
        · rw [List.filterMap_append, h.1]
          rfl

/-- The rows to fire are the triggers of these conditions. -/
theorem tracks_scanning (loc : Locale) (c : Call) (past : List ((Stage × Db) × Move))
    (tgid : Option Int) (rtrg condSet : List Int) (db : Db)
    (h : Tracks loc c.new.attrs past (.scanning tgid rtrg condSet)) :
    Tracks loc c.new.attrs (past ++ [((.scanning tgid rtrg condSet, db), .statement)])
      (Call.advance loc c (.scanning tgid rtrg condSet, db)).1 := by
  rcases h with ⟨htrig, d, hpred, hmeets⟩
  intro _
  unfold Covered
  rw [List.filterMap_append, List.filterMap_append, hpred, htrig]
  change _ ↔ ∃ x ∈ [d], ∃ e ∈ [db], ∃ t ∈ e.wedTrig, Meets loc c.new.attrs x t.cid
  simp only [ne_eq, not_true_eq_false, false_or, List.filter_eq_nil_iff, decide_eq_true_eq,
    not_forall, not_not, exists_prop, List.mem_singleton, exists_eq_left, hmeets]

theorem tracks_advance (loc : Locale) (c : Call) (past : List ((Stage × Db) × Move))
    (s : Stage × Db) (h : Tracks loc c.new.attrs past s.1) :
    Tracks loc c.new.attrs (past ++ [(s, .statement)]) (Call.advance loc c s).1 := by
  rcases s with ⟨stage, db⟩
  cases stage with
  | matching tgid rtrg => exact tracks_matching loc c past tgid rtrg db h
  | scanning tgid rtrg condSet => exact tracks_scanning loc c past tgid rtrg condSet db h
  -- The other statements scan neither table: before the scans nothing has been scanned yet,
  | finalCond | cond =>
      rw [tracks_concat rfl rfl]
      dsimp only [Call.advance]
      split
      · exact h
      · exact trivial
  | trig =>
      rw [tracks_concat rfl rfl]
      dsimp only [Call.advance]
      split
      · cases c.event with
        | insert => exact h
        | update => exact h
      · exact trivial
  | status =>
      rw [tracks_concat rfl rfl]
      dsimp only [Call.advance]
      repeat' split
      all_goals first | exact trivial | exact h
  | token uptkn excpt =>
      rw [tracks_concat rfl rfl]
      dsimp only [Call.advance]
      split
      · exact trivial
      · exact h
  | running tgid =>
      rw [tracks_concat rfl rfl]
      exact h
  -- and after them the loop goes through the rows that were found.
  | firing | recording | marking | accepted | refused =>
      rw [tracks_concat rfl rfl]
      exact tracks_of_fires (fires_advance loc c _ _ h)

/-- The past of a call tells what it fires, whatever was committed meanwhile. -/
theorem tracks_run (loc : Locale) (c : Call) (db : Db) (moves : List Move) :
    Tracks loc c.new.attrs (Machine.history (interleave loc c) (.finalCond, db) moves)
      (Machine.after (interleave loc c) (.finalCond, db) moves).1 := by
  refine Machine.history_invariant (interleave loc c) (fun _ => True)
    (fun past s => Tracks loc c.new.attrs past s.1) (.finalCond, db) ⟨rfl, rfl⟩ ?_ moves
    (fun _ _ => trivial)
  intro past s m _ h
  cases m with
  | statement => exact tracks_advance loc c past s h
  | commit i hi =>
      -- A commit of another session is no scan, and the call stays where it is.
      refine (tracks_concat ?_ ?_ s.1).mpr h
      · rcases s with ⟨stage, d⟩
        cases stage <;> rfl
      · rcases s with ⟨stage, d⟩
        cases stage <;> rfl

/-- A call that is accepted with a state that is not final, and with no other open
    job of the instance, has fired a trigger exactly if some condition, a predicate of
    which was committed and met by the state when `wed_pred` was scanned, had a trigger
    committed when `wed_trig` was scanned. -/
theorem accepted_fires_iff (loc : Locale) (c : Call) (db db' : Db) (moves : List Move)
    (excpt : Bool) (fired : List Int)
    (hacc : Machine.after (interleave loc c) (.finalCond, db) moves
      = (.accepted [] false excpt fired, db')) :
    fired ≠ [] ↔
      Covered loc c.new.attrs (Machine.history (interleave loc c) (.finalCond, db) moves) := by
  have h := tracks_run loc c db moves
  rw [hacc] at h
  exact h rfl rfl

/-- The insert of an instance into the small flow, in a state that no predicate
    of the flow knows. -/
def oddCall : Call :=
  ⟨clock 1, .insert, ⟨7, none, [("st", "odd")]⟩⟩

def oddDb : Db :=
  { run asciiLocale tiny with wedFlow := [oddCall.new] }

/-- After the three validations others commit a condition for that state and the
    given definitions; then the call goes on. -/
def disturbed (more : List Move) : List Move :=
  List.replicate 3 .statement ++
    [.commit ⟨clock 2, .insertCond ⟨4, false⟩⟩ trivial,
      .commit ⟨clock 3, .insertPred 5 4 [("st", some "odd")]⟩ trivial] ++ more ++
    List.replicate 6 .statement

/-- With a trigger for the new condition, it is fired. -/
theorem accepted_fires_disturbed :
    (Machine.after (interleave asciiLocale oddCall) (.finalCond, oddDb)
        (disturbed [.commit ⟨clock 4, .insertTrig ⟨3, "odd", 4, some 10⟩⟩ trivial])).1
        = .accepted [] false false [3] ∧
      Covered asciiLocale oddCall.new.attrs
        (Machine.history (interleave asciiLocale oddCall) (.finalCond, oddDb)
          (disturbed [.commit ⟨clock 4, .insertTrig ⟨3, "odd", 4, some 10⟩⟩ trivial])) := by
  have hacc : (Machine.after (interleave asciiLocale oddCall) (.finalCond, oddDb)
      (disturbed [.commit ⟨clock 4, .insertTrig ⟨3, "odd", 4, some 10⟩⟩ trivial])).1
      = .accepted [] false false [3] := by
    decide +kernel
  exact ⟨hacc, (accepted_fires_iff asciiLocale oddCall oddDb _ _ false [3]
    (Prod.ext hacc rfl)).mp (by decide)⟩

/-- Without one, the instance is accepted as active and has no job. -/
theorem accepted_without_trigger :
    (Machine.after (interleave asciiLocale oddCall) (.finalCond, oddDb) (disturbed [])).1
        = .accepted [] false false [] ∧
      (Machine.after (interleave asciiLocale oddCall) (.finalCond, oddDb) (disturbed [])).2.jobPool
        = [] := by
  decide +kernel

/-! ## What the validation is good for -/

/-- Between the validation and the scan of the predicates the definitions are
    valid, and the conditions found by that scan have a trigger. -/
def Sound : Stage × Db → Prop
  | (.finalCond, _) | (.cond, _) | (.trig, _) => True
  | (.status, db) | (.token _ _, db) | (.running _, db) | (.matching _ _, db) =>
    wedTrigValidation db = true
  | (.scanning _ _ condSet, db) => ∃ t ∈ db.wedTrig, t.cid ∈ condSet
  | (stage, _) => Fires True stage

theorem sound_of_fires {s : Stage × Db} (h : Fires True s.1) : Sound s := by
  rcases s with ⟨stage, db⟩
  cases stage with
  | firing | recording | marking | accepted | refused => exact h
  | finalCond | cond | trig | status | token | running | matching | scanning => exact h.elim

/-- With valid definitions, a state that is not final has a trigger for every
    condition it matches. -/
theorem trigger_of_matched {loc : Locale} {db : Db} {attrs : List (String × String)}
    (hvalid : wedTrigValidation db = true) (hfinal : (matchConds loc db attrs).2 = false) {c : Int}
    (hc : c ∈ (matchConds loc db attrs).1) : ∃ t ∈ db.wedTrig, t.cid = c := by
  rcases (mem_matchConds loc db attrs c).mp hc with ⟨⟨p, f⟩, hscan, hm, rfl⟩
  rcases (mem_predScan db p f).mp hscan with ⟨-, d, hd, hcid, hf⟩
  -- A final condition among the matches would have raised the flag.
  have hnot : d.final = false := by
    rw [hf]
    by_contra htrue
    refine Bool.eq_false_iff.mp hfinal ((matchConds_final loc db attrs).mpr ?_)
    exact ⟨(p, f), hscan, hm, Bool.eq_true_of_not_eq_false htrue⟩
  have htrig := List.all_eq_true.mp hvalid d hd
  rw [hnot, Bool.false_or, List.any_eq_true] at htrig
  rcases htrig with ⟨t, ht, hcid'⟩
  exact ⟨t, ht, (of_decide_eq_true hcid').trans hcid⟩

theorem sound_judge {loc : Locale} {db : Db} {attrs : List (String × String)} (c : Call)
    (hvalid : wedTrigValidation db = true) (tgid : Option Int) (rtrg : List Int) :
    Sound (c.judge tgid rtrg (matchConds loc db attrs).1 (matchConds loc db attrs).2, db) := by
  refine judge_cases (fun stage => Sound (stage, db)) c tgid rtrg _ _ (fun _ => trivial) ?_ ?_ ?_
  · exact fun _ _ hfalse => absurd hfalse (by decide)
  · exact fun hne hr => absurd hr hne
  · intro hfinal hne
    rcases List.exists_mem_of_ne_nil _ hne with ⟨cid, hcid⟩
    rcases trigger_of_matched hvalid hfinal hcid with ⟨t, ht, rfl⟩
    exact ⟨t, ht, hcid⟩

/-- The token lookup leaves the definitions alone. -/
theorem lookupToken_defs {loc : Locale} {env : Env} {uptkn : String} {wid : Int} {excpt : Bool}
    {db db' : Db} {tgid : Option Int}
    (h : lookupToken loc env uptkn wid excpt db = .ok (db', tgid)) :
    db'.wedCond = db.wedCond ∧ db'.wedTrig = db.wedTrig := by
  unfold lookupToken at h
  split at h
  · rcases (Table.bind_eq_ok _ _ _).mp h with ⟨⟨db₁, job⟩, hfind, hjob⟩
    have hdefs : db₁.wedCond = db.wedCond ∧ db₁.wedTrig = db.wedTrig := by
      rcases (Table.bind_eq_ok _ _ _).mp hfind with ⟨⟨db₂, res⟩, hupd, hres⟩
      rcases (Table.bind_eq_ok _ _ _).mp hupd with ⟨out, -, hout⟩
      rw [← (Prod.mk.inj (Except.ok.inj hres)).1, ← (Prod.mk.inj (Except.ok.inj hout)).1]
      exact ⟨rfl, rfl⟩
    cases job with
    | none => exact absurd hjob (nomatch ·)
    | some job =>
        dsimp only at hjob
        rw [Table.guard_eq_ok] at hjob
        rw [← (Prod.mk.inj (Except.ok.inj hjob.2)).1]
        exact hdefs
  · rw [Table.guard_eq_ok] at h
    rw [← (Prod.mk.inj (Except.ok.inj h.2)).1]
    exact ⟨rfl, rfl⟩

theorem sound_advance (loc : Locale) (c : Call) (s : Stage × Db) (h : Sound s) :
    Sound (Call.advance loc c s) := by
  rcases s with ⟨stage, db⟩
  cases stage with
  | finalCond | cond =>
      dsimp only [Call.advance]
      split
      · exact trivial
      · exact trivial
  | trig =>
      dsimp only [Call.advance]
      split
      -- From here on the definitions are known to be valid.
      · next hvalid =>
          cases c.event with
          | insert => exact hvalid
          | update => exact hvalid
      · exact trivial
  | status =>
      dsimp only [Call.advance]
      repeat' split
      all_goals first | exact trivial | exact h
  | token uptkn excpt =>
      dsimp only [Call.advance]
      split
      · exact trivial
      · next hlook =>
          -- The lookup may close a job, but it reads no definition and changes none.
          change wedTrigValidation _ = true
          unfold wedTrigValidation
          rw [(lookupToken_defs hlook).1, (lookupToken_defs hlook).2]
          exact h
  | running tgid => exact h
  | matching tgid rtrg =>
      dsimp only [Call.advance]
      split
      · exact trivial
      · next condSet final hmatch =>
          have hm := ((predMatch_ok_iff loc _ db _).mp hmatch).2
          rw [(Prod.mk.inj hm).1, (Prod.mk.inj hm).2]
          exact sound_judge c h tgid rtrg
  | scanning tgid rtrg condSet =>
      rcases h with ⟨t, ht, hcid⟩
      refine fun _ => iff_of_true (.inr (List.ne_nil_of_mem (a := t) ?_)) trivial
      exact List.mem_filter.mpr ⟨ht, decide_eq_true hcid⟩
  | firing | recording | marking | accepted | refused =>
      refine sound_of_fires (fires_advance loc c True _ ?_)
      exact h

/-- A call that nobody disturbs from the validation of the triggers on fires a
    trigger, whatever was committed before. -/
theorem undisturbed_fires (loc : Locale) (c : Call) (db db' : Db) (before rest : List Move)
    (excpt : Bool) (fired : List Int)
    (hbefore : (Machine.after (interleave loc c) (.finalCond, db) before).1 = .trig)
    (hrest : ∀ m ∈ rest, m = .statement)
    (hacc : Machine.after (interleave loc c) (.finalCond, db) (before ++ rest)
      = (.accepted [] false excpt fired, db')) : fired ≠ [] := by
  rw [Machine.after_append] at hacc
  generalize Machine.after (interleave loc c) (.finalCond, db) before = s at hbefore hacc
  -- `Sound` is about the tables as they are now; only a commit in between could break it.
  have hsound := Machine.after_invariant (interleave loc c) (· = .statement) Sound
    (fun t m hm ht => by subst hm; exact sound_advance loc c t ht) s
    (by rcases s with ⟨stage, d⟩; rw [show stage = .trig from hbefore]; exact trivial) rest hrest
  rw [hacc] at hsound
  exact (hsound rfl rfl).mpr trivial

end WedFlow
