import WedFlow.Theory.Outcomes

/-!
# Control-Flow Patterns

The example flows are there to show that conditions and triggers express the usual
patterns of control flow: choices, parallel branches, and the ways in which branches
join. Whether they do is a question about all orders in which their workers can get
their turns, and a sweep of the chart answers it.

Most of them are sound. An instance that is started with one of the listed choices, and
with the defaults in everything else that matters, comes to the same end in all orders,
after the same number of writes, and no worker is refused on the way
(`patterns_complete`). Three flows are different. The plain split has a final condition
that asks for all branches, and with fewer it ends in an exception (`orSplit_ends`). In
the first version of the multi-merge the join may get ahead of a branch and is refused
then, which the second version avoids (`multi_merge_waits`). And in `ex3` the workers may
fail, which is provided for unless both do (`ex3_ends`).

## Main definitions

* `Flow.Busy`: An active instance none of whose workers would be refused.
* `Start`, `Scheme`: Values to start with, and what they come to.
* `Scheme.check`: The sweep.
* `patterns`: The flows that are sound.

## Theorems

* `outcome_of_check`: What the sweep of a scheme says.
* `patterns_complete`: The sound ones.
* `orSplit_ends`: The split without a join.
* `multi_merge_waits`: The first multi-merge.
* `ex3_ends`: Workers that may fail.
-/

namespace WedFlow

open Workflow (Mode Inst Chart Node)

set_option synthInstance.maxSize 512 in
instance (f : Flow) : Decidable f.WellFormed :=
  decidable_of_iff
    ((f.attrs.map (·.name)).Nodup ∧ (∀ p ∈ f.preds, p.1 ∈ f.conds.map (·.1)) ∧
      (∀ p ∈ f.preds, (p.2.map (·.1)).Nodup) ∧
      (∀ p ∈ f.preds, ∀ a ∈ p.2, a.1 ∈ f.attrs.map (·.name) ∧ a.1 ∉ ["wid", "awic"]) ∧
      (∀ p ∈ f.preds, ∀ a ∈ p.2, a.2 ≠ "" ∧ isLow a.2 = true) ∧
      (∀ w ∈ f.workers, ∀ ss ∈ w.2, ∀ a ∈ ss, a.1 ∈ f.names → a.2.isLow = true) ∧
      (∀ w ∈ f.workers, ∀ ss ∈ w.2, (ss.map (·.1)).Nodup ∧
        ∀ a ∈ ss, a.1 ∈ f.attrs.map (·.name) ∧ (a.1 ∉ f.names → a.2 ≠ .succ)))
    ⟨fun ⟨h₁, h₂, h₃, h₄, h₅, h₆, h₇⟩ => ⟨h₁, h₂, h₃, h₄, h₅, h₆, h₇⟩,
      fun h => ⟨h.names, h.condition, h.clause, h.column, h.value, h.setting, h.assigned⟩⟩

instance (f : Flow) : Decidable f.Workable :=
  decidable_of_iff
    ((wedFinalCondValidation { Db.empty with
        wedCond := f.condRows, wedPred := f.predRows, wedTrig := f.trigRows } = true ∧
      wedCondValidation { Db.empty with
        wedCond := f.condRows, wedPred := f.predRows, wedTrig := f.trigRows } = true ∧
      wedTrigValidation { Db.empty with
        wedCond := f.condRows, wedPred := f.predRows, wedTrig := f.trigRows } = true) ∧
      f.attrs ≠ [] ∧
      (∀ a ∈ f.attrs, PlainIdent (fun _ => false) a.name ∧
        Sql.truncateIdentifier a.name.toList = a.name.toList) ∧
      (∀ w ∈ f.workers, ∀ ss ∈ w.2, ∀ a ∈ ss, a.2.quoteless = true))
    ⟨fun ⟨⟨h₁, h₂, h₃⟩, h₄, h₅, h₆⟩ => ⟨⟨h₁, h₂, h₃⟩, h₄, h₅, h₆⟩,
      fun h => ⟨⟨h.validated.final, h.validated.cond, h.validated.trig⟩, h.nonempty, h.idents,
        h.quotes⟩⟩

namespace Flow

/-- The instance is active and has open jobs, and whatever their workers write is
    accepted. -/
def Busy (loc : Locale) (f : Flow) (db : Db) (wid : Int) (i : Inst State Int) : Prop :=
  i.mode = .active ∧ (∃ g, i.running g ≠ none) ∧ ∀ g, i.running g ≠ none → f.Accepts loc db wid g

/-- The same on the chart. -/
def busy (f : Flow) (n : Node State Int) : Bool :=
  n.mode = .active && !n.running.isEmpty && n.running.all (f.accepts n)

theorem busy_exec {f : Flow} (hf : f.WellFormed) (hw : f.Workable) {loc : Locale} (hloc : loc.Ascii)
    {db : Db} (hi : Inv db) (hdb : f.Installed db) (hkept : Kept db.catalog) {wid : Int}
    {i : Inst State Int} (hinst : inst db wid = some i) (hs : i.state ∈ f.states)
    {n : Node State Int} (hn : n.Shows f.view i) (h : f.busy n = true) : f.Busy loc db wid i := by
  unfold busy at h
  rw [Bool.and_eq_true, Bool.and_eq_true, decide_eq_true_eq, hn.mode, Bool.not_eq_true',
    List.isEmpty_eq_false_iff_exists_mem, List.all_eq_true, and_assoc] at h
  rcases h with ⟨hmode, ⟨g, hg⟩, hall⟩
  refine ⟨hmode, ⟨g, (hn.running g).mp hg⟩, fun t ht => ?_⟩
  exact accepts_exec hf hw hloc hi hdb hkept hinst hs hmode hn (hall t ((hn.running t).mpr ht))

end Flow

/-- Values that instances can be started with, and what they come to: the number of
    writes, and what matters of the state. -/
structure Start where
  choice : List (String × String)
  writes : Nat
  outcome : State

/-- A flow with such values, and the mode that its instances end in. -/
structure Scheme where
  flow : Flow
  mode : Mode
  starts : List Start

namespace Scheme

/-- The instance is busy before the last write, and after it has come to its end. -/
def passes (p : Scheme) (s : Start) (k : Nat) (n : Node State Int) : Bool :=
  if k = 0 then n.mode = p.mode && n.state = s.outcome else p.flow.busy n

/-- The instances come to what the scheme says. -/
def check (p : Scheme) : Bool :=
  decide p.flow.WellFormed && decide p.flow.Workable && p.starts.all fun s =>
    (p.flow.chart [s.choice]).sweep (p.passes s) s.writes ((p.flow.chart [s.choice]).level 1)

theorem outcome_of_check {p : Scheme} (hp : p.check = true) {s : Start} (hs : s ∈ p.starts)
    {loc : Locale} (hloc : loc.Ascii) {wid : Int} {bs₀ bs : List Beat}
    (h : p.flow.Delegated loc [s.choice] wid bs₀ bs) {i : Inst State Int}
    (hi : inst h.db wid = some i) :
    h.writes < s.writes ∧ p.flow.Busy loc h.db wid i ∨
      h.writes = s.writes ∧ i.mode = p.mode ∧ p.flow.view i.state = s.outcome := by
  unfold check at hp
  rw [Bool.and_eq_true, Bool.and_eq_true, decide_eq_true_eq, decide_eq_true_eq,
    List.all_eq_true] at hp
  rcases hp with ⟨⟨hf, hw⟩, hall⟩
  have hunder := h.under hloc hf
  rcases h.sweep hloc hf (hall s hs) with ⟨hle, hnode⟩
  rcases hnode i hi with ⟨hstate, n, hn, hshow⟩
  unfold passes at hn
  split at hn
  next hzero =>
    rw [Bool.and_eq_true, decide_eq_true_eq, decide_eq_true_eq, hshow.mode, hshow.state] at hn
    exact .inr ⟨by omega, hn⟩
  next hpos =>
    exact .inl ⟨by omega, Flow.busy_exec hf hw hloc hunder.sound.cluster.inv hunder.installed
      hunder.kept hi hstate hshow hn⟩

end Scheme

/-! ## The patterns -/

/-- The branches of a split that can be asked for. -/
def branches : List (List String) :=
  [["1", "0", "0"], ["0", "1", "0"], ["0", "0", "1"], ["1", "1", "0"], ["1", "0", "1"],
    ["0", "1", "1"], ["1", "1", "1"]]

/-- How many are asked for. -/
def chosen (c : List String) : Nat :=
  c.count "1"

/-- The flows that always come to their end. -/
def patterns : List Scheme :=
  [⟨travelAgency, .final, [⟨[("order_status", "received")], 5,
      [("customer_status", "validated"), ("air_ticket_status", "purchased"),
        ("hotel_status", "reserved"), ("order_status", "finalized")]⟩]⟩,
    ⟨xorSplitJoin, .final, [
      ⟨[], 3, ["d1", "d2", "d3", "d4", "d5", "d6"].zip ["0", "0", "1", "0", "0", "1"]⟩,
      ⟨[("d1", "1")], 3, ["d1", "d2", "d3", "d4", "d5", "d6"].zip ["1", "0", "0", "1", "0", "1"]⟩,
      ⟨[("d1", "1"), ("d2", "1")], 3,
        ["d1", "d2", "d3", "d4", "d5", "d6"].zip ["1", "1", "0", "0", "1", "1"]⟩]⟩,
    ⟨threadSplitMerge, .final, [⟨[("d1", "1")], 5, ["d1", "d2", "d3"].zip ["1", "3", "1"]⟩]⟩,
    -- Here the join is once, however many branches there are.
    ⟨orSplitSsm, .final, branches.map fun c => ⟨["d1", "d2", "d3"].zip c, 2 + chosen c,
      ["d1", "d2", "d3", "d4", "d5", "d6", "d7"].zip (c ++ c ++ ["1"])⟩⟩,
    -- And here it is once for each of them, and counts.
    ⟨orSplitMmV2, .final, branches.map fun c => ⟨["d1", "d2", "d3"].zip c, 1 + 2 * chosen c,
      ["d1", "d2", "d3", "d4", "n4", "d5", "n5", "d6", "n6", "d7"].zip
        (c ++ (c.flatMap fun b => [b, b]) ++ [toString (chosen c)])⟩⟩,
    ⟨andSplitJoin, .final, [⟨[("d1", "1")], 5,
      ["d1", "d2", "d3", "d4", "d5"].zip ["1", "1", "1", "1", "1"]⟩]⟩,
    ⟨andSplitOneM, .final, [⟨[("d1", "1")], 5,
      ["d1", "d2", "d3", "d4", "d5"].zip ["1", "1", "1", "1", "1"]⟩]⟩,
    ⟨andSplitNM, .final, [⟨[("d1", "1")], 5,
      ["d1", "d2", "d3", "d4", "d5"].zip ["1", "1", "1", "1", "1"]⟩]⟩,
    ⟨andSplit, .final, [⟨[("d1", "1")], 4, ["d1", "d2", "d3", "d4"].zip ["1", "1", "1", "1"]⟩]⟩]

theorem patterns_check : ∀ p ∈ patterns, p.check = true :=
  List.all_eq_true.mp (by decide +kernel)

/-- The workers of each of these flows, in any number and any order, with searches,
    notifications, timeouts and inspections as they come and whatever else is done on
    the same server: as long as an instance is left to them the kernel refuses none of
    their writes, and the instance comes to its end after the same number of writes and
    with the same values. -/
theorem patterns_complete (loc : Locale) (hloc : loc.Ascii) (p : Scheme) (hp : p ∈ patterns)
    (s : Start) (hs : s ∈ p.starts) (wid : Int) (bs₀ bs : List Beat)
    (h : p.flow.Delegated loc [s.choice] wid bs₀ bs) (i : Inst State Int)
    (hi : inst h.db wid = some i) :
    h.writes < s.writes ∧ p.flow.Busy loc h.db wid i ∨
      h.writes = s.writes ∧ i.mode = p.mode ∧ p.flow.view i.state = s.outcome :=
  p.outcome_of_check (patterns_check p hp) hs hloc h hi

/-! ### A run -/

theorem asciiLocale_ascii : asciiLocale.Ascii :=
  fun _ _ => rfl

/-- The file of a flow, one statement after the other. -/
def Flow.file (f : Flow) : List Beat :=
  f.statements.zipIdx.map fun p => .other (.statement ⟨clock p.2, p.1⟩)

/-- A new instance. -/
def insertAt (k : Nat) (wid : Int) (vals : List (String × String)) : Beat :=
  .other (.statement ⟨clock k, .insertFlow wid none (vals.map fun a => (a.1, some a.2))⟩)

/-- A process starts, finds a job, takes it and writes. -/
def workAt (k w : Nat) (tgid : Int) (vals : List (String × String)) : List Beat :=
  [.start w tgid, .move w (.timeout 0 0), .move w (.lock (clock k) 0),
    .move w (.update (clock k) none (vals.map fun a => (a.1, some a.2)) 0)]

instance (f : Flow) (ch : List (String × String)) (vals : List (String × Option String)) :
    Decidable (f.Chooses ch vals) := by
  unfold Flow.Chooses
  infer_instance

instance (f : Flow) (chs : List (List (String × String))) (wid : Int) (db : Db) (op : Op) :
    Decidable (f.Admits chs wid db op) := by
  unfold Flow.Admits
  split <;> infer_instance

instance (f : Flow) (chs : List (List (String × String))) (wid : Int) (c : Crew) (b : Beat) :
    Decidable (f.Follows chs wid c b) := by
  unfold Flow.Follows
  split
  · infer_instance
  · split <;> infer_instance
  · infer_instance

/-- The three branches of the split, each with a worker. -/
def splitRun : List Beat :=
  insertAt 20 1 [("d1", "1")] :: workAt 21 1 1 [("d2", "1")] ++ workAt 22 2 2 [("d3", "1")] ++
    workAt 23 3 3 [("d4", "1")]

theorem splitRun_delegated :
    andSplit.Delegated asciiLocale [[("d1", "1")]] 1 andSplit.file splitRun where
  installed := ⟨by decide +kernel, by decide +kernel, by decide +kernel, by decide +kernel⟩
  new := by decide +kernel
  follows := by decide +kernel

/-- All three have written, so the instance has come to its end. -/
theorem patterns_complete_split :
    ∃ i, inst splitRun_delegated.db 1 = some i ∧ i.mode = .final ∧
      andSplit.view i.state = [("d1", "1"), ("d2", "1"), ("d3", "1"), ("d4", "1")] := by
  have hrun : (inst splitRun_delegated.db 1).isSome = true ∧
      splitRun_delegated.writes = 4 := by decide +kernel
  rcases Option.isSome_iff_exists.mp hrun.1 with ⟨i, hi⟩
  rcases patterns_complete asciiLocale asciiLocale_ascii
    ⟨andSplit, .final, [⟨[("d1", "1")], 4, ["d1", "d2", "d3", "d4"].zip ["1", "1", "1", "1"]⟩]⟩
    (List.mem_of_getLast? rfl) _ (List.mem_singleton.mpr rfl) 1 _ _ splitRun_delegated i hi with
    ⟨hlt, -⟩ | ⟨-, hmode, hview⟩
  · exact absurd hrun.2 (Nat.ne_of_lt hlt)
  · exact ⟨i, hi, hmode, hview⟩

/-! ## A split without a join -/

/-- Branches are asked for with a zero. -/
def orSplitStart (c : List String) : Start where
  choice := ["d1", "d2", "d3"].zip (c.map fun b => if b = "1" then "0" else "1")
  writes := 1 + chosen c
  outcome := ["d1", "d2", "d3", "d4", "d5", "d6"].zip
    ((c.map fun b => if b = "1" then "0" else "1") ++ c)

/-- Where they come to. -/
def orSplitScheme (c : List String) : Scheme :=
  ⟨orSplit, if chosen c = 3 then .final else .exception, [orSplitStart c]⟩

theorem orSplitScheme_check : ∀ c ∈ branches, (orSplitScheme c).check = true :=
  List.all_eq_true.mp (by decide +kernel)

/-- The final condition of the plain split asks for all three branches, so with fewer
    the instance always ends in an exception. -/
theorem orSplit_ends (loc : Locale) (hloc : loc.Ascii) (c : List String) (hc : c ∈ branches)
    (wid : Int) (bs₀ bs : List Beat)
    (h : orSplit.Delegated loc [(orSplitStart c).choice] wid bs₀ bs) (i : Inst State Int)
    (hi : inst h.db wid = some i) :
    h.writes < 1 + chosen c ∧ orSplit.Busy loc h.db wid i ∨
      h.writes = 1 + chosen c ∧
        i.mode = (if chosen c = 3 then .final else .exception) ∧
        orSplit.view i.state = (orSplitStart c).outcome :=
  (orSplitScheme c).outcome_of_check (orSplitScheme_check c hc) (List.mem_singleton.mpr rfl) hloc h hi

/-- One branch. -/
def branchRun : List Beat :=
  insertAt 20 1 [("d2", "1"), ("d3", "1")] :: workAt 21 1 1 [("d4", "1")]

theorem branchRun_delegated :
    orSplit.Delegated asciiLocale [(orSplitStart ["1", "0", "0"]).choice] 1 orSplit.file branchRun where
  installed := ⟨by decide +kernel, by decide +kernel, by decide +kernel, by decide +kernel⟩
  new := by decide +kernel
  follows := by decide +kernel

theorem orSplit_ends_one :
    ∃ i, inst branchRun_delegated.db 1 = some i ∧ i.mode = .exception := by
  have hrun : (inst branchRun_delegated.db 1).isSome = true ∧
      branchRun_delegated.writes = 2 := by decide +kernel
  rcases Option.isSome_iff_exists.mp hrun.1 with ⟨i, hi⟩
  rcases orSplit_ends asciiLocale asciiLocale_ascii ["1", "0", "0"] List.mem_cons_self 1 _ _
    branchRun_delegated i hi with ⟨hlt, -⟩ | ⟨-, hmode, -⟩
  · exact absurd hrun.2 (Nat.ne_of_lt hlt)
  · exact ⟨i, hi, hmode⟩

/-! ## The first multi-merge -/

/-- What it comes to. -/
def mergeOutcome (c : List String) : State :=
  ["d1", "d2", "d3", "d4", "d5", "d6", "d7"].zip (c ++ c ++ [toString (chosen c)])

/-- The join has one count to go, and a branch is still running. -/
def Ahead (c : List String) (i : Inst State Int) (g : Int) : Prop :=
  g = 4 ∧ (∃ t, t ≠ 4 ∧ i.running t ≠ none) ∧
    (orSplitMm.view i.state).lookup "d7" = some (toString (chosen c - 1))

def ahead (c : List String) (n : Node State Int) (g : Int) : Bool :=
  g = 4 && n.running.any (· ≠ 4) && n.state.lookup "d7" = some (toString (chosen c - 1))

theorem ahead_iff {c : List String} {i : Inst State Int} {n : Node State Int}
    (hn : n.Shows orSplitMm.view i) (g : Int) : ahead c n g = true ↔ Ahead c i g := by
  unfold ahead Ahead
  rw [Bool.and_eq_true, Bool.and_eq_true, decide_eq_true_eq, decide_eq_true_eq, List.any_eq_true,
    hn.state, and_assoc]
  simp only [hn.running, decide_eq_true_eq, and_comm]

/-- Before the last write some job can be completed, and those that cannot are ahead of
    a branch. -/
def mergePasses (c : List String) (k : Nat) (n : Node State Int) : Bool :=
  if k = 0 then n.mode = .final && n.state = mergeOutcome c
  else n.mode = .active && n.running.any (orSplitMm.accepts n) &&
    n.running.all fun g => if ahead c n g then orSplitMm.refuses n g else orSplitMm.accepts n g

theorem orSplitMm_wellFormed : orSplitMm.WellFormed ∧ orSplitMm.Workable := by
  decide +kernel

theorem orSplitMm_sweep : ∀ c ∈ branches,
    (orSplitMm.chart [["d1", "d2", "d3"].zip c]).sweep (mergePasses c) (1 + 2 * chosen c)
      ((orSplitMm.chart [["d1", "d2", "d3"].zip c]).level 1) = true := by
  decide +kernel

/-- In the first version of the multi-merge the join has a job as soon as one branch is
    done, and again after each count. The count that would be the last is refused as
    long as a branch is running, and nothing else is; in the end all branches are
    counted. -/
theorem multi_merge_waits (loc : Locale) (hloc : loc.Ascii) (c : List String) (hc : c ∈ branches)
    (wid : Int) (bs₀ bs : List Beat)
    (h : orSplitMm.Delegated loc [["d1", "d2", "d3"].zip c] wid bs₀ bs) (i : Inst State Int)
    (hi : inst h.db wid = some i) :
    h.writes < 1 + 2 * chosen c ∧ i.mode = .active ∧
        (∃ g, i.running g ≠ none ∧ orSplitMm.Accepts loc h.db wid g) ∧
        (∀ g, i.running g ≠ none → (¬ Ahead c i g → orSplitMm.Accepts loc h.db wid g) ∧
          (Ahead c i g → orSplitMm.Refuses loc h.db wid g)) ∨
      h.writes = 1 + 2 * chosen c ∧ i.mode = .final ∧
        orSplitMm.view i.state = mergeOutcome c := by
  rcases orSplitMm_wellFormed with ⟨hf, hw⟩
  have hunder := h.under hloc hf
  rcases h.sweep hloc hf (orSplitMm_sweep c hc) with ⟨hle, hnode⟩
  rcases hnode i hi with ⟨hstate, n, hn, hshow⟩
  unfold mergePasses at hn
  split at hn
  next hzero =>
    rw [Bool.and_eq_true, decide_eq_true_eq, decide_eq_true_eq, hshow.mode, hshow.state] at hn
    exact .inr ⟨by omega, hn⟩
  next hpos =>
    rw [Bool.and_eq_true, Bool.and_eq_true, decide_eq_true_eq, List.any_eq_true, List.all_eq_true,
      hshow.mode] at hn
    rcases hn with ⟨⟨hmode, g, hg, hok⟩, hall⟩
    have hacc : ∀ t, orSplitMm.accepts n t = true → orSplitMm.Accepts loc h.db wid t :=
      fun t => Flow.accepts_exec hf hw hloc hunder.sound.cluster.inv hunder.installed hunder.kept hi
        hstate hmode hshow
    refine .inl ⟨by omega, hmode, ⟨g, (hshow.running g).mp hg, hacc g hok⟩, fun t ht => ?_⟩
    have hthis := hall t ((hshow.running t).mpr ht)
    rw [← ahead_iff hshow]
    refine ⟨fun hno => hacc t ?_, fun hyes => ?_⟩
    · rwa [if_neg hno] at hthis
    · rw [if_pos hyes] at hthis
      exact Flow.refuses_exec hf hloc hunder.sound.cluster.inv hunder.installed hi hstate hshow hthis

/-- Two branches, one of which is done and counted. The join has its next job. -/
def mergeRun : List Beat :=
  insertAt 40 1 [("d1", "1"), ("d2", "1"), ("d3", "0")] :: workAt 41 1 1 [("d4", "1")] ++
    workAt 42 4 4 [("d7", "1")]

theorem mergeRun_delegated : orSplitMm.Delegated asciiLocale
    [["d1", "d2", "d3"].zip ["1", "1", "0"]] 1 orSplitMm.file mergeRun where
  installed := ⟨by decide +kernel, by decide +kernel, by decide +kernel, by decide +kernel⟩
  new := by decide +kernel
  follows := by decide +kernel

/-- A branch is running, and two are asked for, so the next count is refused. -/
theorem multi_merge_waits_two :
    ∃ i, inst mergeRun_delegated.db 1 = some i ∧ i.running 4 ≠ none ∧
      orSplitMm.Refuses asciiLocale mergeRun_delegated.db 1 4 := by
  have hrun : ((inst mergeRun_delegated.db 1).any fun i => (i.running 2).isSome &&
      (i.running 4).isSome && (orSplitMm.view i.state).lookup "d7" = some "1") = true ∧
      mergeRun_delegated.writes = 3 := by decide +kernel
  rcases (Option.any_eq_true _ _).mp hrun.1 with ⟨i, hi, hone⟩
  rw [Bool.and_eq_true, Bool.and_eq_true, decide_eq_true_eq, Option.isSome_iff_ne_none,
    Option.isSome_iff_ne_none] at hone
  rcases hone with ⟨⟨htwo, hfour⟩, hd7⟩
  rcases multi_merge_waits asciiLocale asciiLocale_ascii ["1", "1", "0"] (by decide) 1 _ _
    mergeRun_delegated i hi with ⟨-, -, -, hall⟩ | ⟨hlast, -⟩
  · exact ⟨i, hi, hfour, (hall 4 hfour).2 ⟨rfl, ⟨2, by decide, htwo⟩, hd7⟩⟩
  · exact absurd (hrun.2.symm.trans hlast) (by decide)

/-! ## Workers that may fail -/

/-- What `ex3` comes to. -/
def ex3Outcomes : List (Mode × State) :=
  [(.final, [("a2", "done"), ("a3", "done"), ("a1", "finished")]),
    (.final, [("a2", "error"), ("a3", "done"), ("a1", "stopped")]),
    (.final, [("a2", "done"), ("a3", "error"), ("a1", "stopped")]),
    (.exception, [("a2", "error"), ("a3", "error"), ("a1", "started")])]

theorem ex3_sweep : (ex3.WellFormed ∧ ex3.Workable) ∧
    (ex3.chart [[]]).sweep (fun _ n => ex3.busy n || (n.mode, n.state) ∈ ex3Outcomes) 5
      ((ex3.chart [[]]).level 1) = true := by
  decide +kernel

/-- Whatever the two workers of `ex3` draw, the instance ends after five writes at most.
    It is finished if both are done and stopped if one has failed. If both have failed
    no condition is met, and that is an exception. -/
theorem ex3_ends (loc : Locale) (hloc : loc.Ascii) (wid : Int) (bs₀ bs : List Beat)
    (h : ex3.Delegated loc [[]] wid bs₀ bs) (i : Inst State Int) (hi : inst h.db wid = some i) :
    h.writes ≤ 5 ∧
      (ex3.Busy loc h.db wid i ∨ (i.mode, ex3.view i.state) ∈ ex3Outcomes) := by
  rcases ex3_sweep with ⟨⟨hf, hw⟩, hsweep⟩
  have hunder := h.under hloc hf
  rcases h.sweep hloc hf hsweep with ⟨hle, hnode⟩
  rcases hnode i hi with ⟨hstate, n, hn, hshow⟩
  refine ⟨hle, ?_⟩
  rw [Bool.or_eq_true, decide_eq_true_eq, hshow.mode, hshow.state] at hn
  exact hn.imp_left (Flow.busy_exec hf hw hloc hunder.sound.cluster.inv hunder.installed hunder.kept
    hi hstate hshow)

/-- Both have failed. -/
def failedRun : List Beat :=
  insertAt 30 1 [] :: workAt 31 1 1 [("a1", "started"), ("a2", "ready"), ("a3", "ready")] ++
    workAt 32 2 2 [("a2", "error")] ++ workAt 33 3 3 [("a3", "error")]

theorem failedRun_delegated : ex3.Delegated asciiLocale [[]] 1 ex3.file failedRun where
  installed := ⟨by decide +kernel, by decide +kernel, by decide +kernel, by decide +kernel⟩
  new := by decide +kernel
  follows := by decide +kernel

theorem ex3_ends_failed :
    ∃ i, inst failedRun_delegated.db 1 = some i ∧ i.mode = .exception ∧
      (i.mode, ex3.view i.state) ∈ ex3Outcomes := by
  have hrun : ((inst failedRun_delegated.db 1).any fun i => i.mode = .exception) = true := by
    decide +kernel
  rcases (Option.any_eq_true _ _).mp hrun with ⟨i, hi, hone⟩
  have hmode := of_decide_eq_true hone
  rcases (ex3_ends asciiLocale asciiLocale_ascii 1 _ _ failedRun_delegated i hi).2 with hbusy | hout
  · exact absurd (hmode.symm.trans hbusy.1) (by decide)
  · exact ⟨i, hi, hmode, hout⟩

end WedFlow
