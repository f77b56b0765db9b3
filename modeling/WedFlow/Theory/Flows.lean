import Mathlib.Data.List.Dedup
import WedFlow.Base.Json
import WedFlow.Base.SqlTokens
import WedFlow.Core.Flows
import WedFlow.Theory.Charted
import WedFlow.Theory.Columns
import WedFlow.Theory.Predicates

/-!
# Charts of Flows

The chart of a flow that is given with its workers. Predicates compare in lower case,
so what matters of a state is the lower case of the attributes that some predicate
mentions. The chart is over these values and can be computed with, and it is true of
every database with the definitions of the flow.

Lower case depends on the locale of the server, and about that nothing is known but
what it does to ASCII. So the flow has to be in ASCII as far as it matters, and what
its predicates ask for in lower case already. An attribute that counts is cast to a
number and back; a text that can be cast has no letters, so it makes no difference
whether this is done before or after.

## Main definitions

* `Locale.Ascii`: Lower case is as usual for ASCII.
* `Flow.view`, `Flow.states`: What matters of a state, and the states of a flow.
* `Flow.chart`: The chart of a flow.
* `Flow.WellFormed`: What has to be right with a flow.
* `Flow.Installed`: A database with the definitions of the flow.
* `Flow.Chooses`: An insert that comes to a choice of values.
* `Flow.Workable`: What the engine asks of a flow.

## Theorems

* `describes`: The chart is true of the database.
* `assign_view`: What a worker writes is on the chart.
* `exists_assignFlow`: What is on the chart can be assigned.
* `start_view`: What an instance starts with is on the chart.
* `Workable.writable`: The engine can store the states of a flow.
-/

namespace WedFlow

open Workflow (Mode Phase Inst Policy Action Step Performs Chart Node)

/-! ## Texts -/

def isAscii (s : String) : Bool :=
  s.toList.all fun c => c.toNat < 128

/-- ASCII without capital letters. -/
def isLow (s : String) : Bool :=
  isAscii s && s.toList.all fun c => c.toLower = c

/-- Lower case is as usual for ASCII. -/
def Locale.Ascii (loc : Locale) : Prop :=
  ∀ s, isAscii s = true → loc.lower s = asciiLower s

theorem asciiLower_of_forall {s : String} (h : ∀ c ∈ s.toList, c.toLower = c) : asciiLower s = s := by
  rw [asciiLower, List.map_congr_left h, List.map_id', String.ofList_toList]

theorem isLow_iff {s : String} :
    isLow s = true ↔ isAscii s = true ∧ ∀ c ∈ s.toList, c.toLower = c := by
  unfold isLow
  rw [Bool.and_eq_true, List.all_eq_true]
  simp only [decide_eq_true_eq]

theorem asciiLower_of_isLow {s : String} (h : isLow s = true) : asciiLower s = s :=
  asciiLower_of_forall (isLow_iff.mp h).2

/-- Digits, signs and white space come before the letters. -/
theorem numeral_lt {c : Char} (h : Pg.isSpace c = true ∨ c = '-' ∨ c = '+' ∨ c.isDigit = true) :
    c.toNat < 65 := by
  rcases h with h | rfl | rfl | h
  · unfold Pg.isSpace at h
    rw [Bool.or_eq_true, decide_eq_true_eq, Bool.and_eq_true, decide_eq_true_eq,
      decide_eq_true_eq] at h
    rcases h with rfl | ⟨-, h⟩
    · decide
    · exact Nat.lt_of_le_of_lt (Char.le_def.mp h) (by decide)
  · decide
  · decide
  · unfold Char.isDigit at h
    rw [Bool.and_eq_true, decide_eq_true_eq, decide_eq_true_eq] at h
    exact Nat.lt_of_le_of_lt (UInt32.le_iff_toNat_le.mp h.2) (by decide)

theorem toLower_of_lt {c : Char} (h : c.toLower.toNat < 65) : c.toLower = c := by
  rcases Sql.toLower_cases c with heq | ⟨hlo, -, hlower⟩
  · exact heq
  · omega

/-- A digit, a sign or white space is ASCII and no capital letter. -/
theorem low_of_numeral {c : Char}
    (h : Pg.isSpace c = true ∨ c = '-' ∨ c = '+' ∨ c.isDigit = true) :
    c.toNat < 128 ∧ c.toLower = c := by
  have hlt := numeral_lt h
  refine ⟨by omega, ?_⟩
  rcases Sql.toLower_cases c with heq | ⟨hlo, -, -⟩
  · exact heq
  · omega

theorem isLow_toString (n : Int) : isLow (toString n) = true := by
  have hmem : ∀ c ∈ (toString n).toList, c.toNat < 128 ∧ c.toLower = c := by
    rw [Json.toList_toString]
    intro c hc
    refine low_of_numeral ?_
    cases n with
    | ofNat n => exact .inr (.inr (.inr (Json.digit_of_mem hc)))
    | negSucc n =>
        rcases List.mem_cons.mp hc with rfl | hc
        · exact .inr (.inl rfl)
        · exact .inr (.inr (.inr (Json.digit_of_mem hc)))
  refine isLow_iff.mpr ⟨List.all_eq_true.mpr fun c hc => decide_eq_true (hmem c hc).1,
    fun c hc => (hmem c hc).2⟩

/-- A text that is read as a number has digits, signs and white space only. -/
theorem numeral_of_integerOf {v : String} {n : Int} (h : integerOf v = some n) :
    ∀ c ∈ v.toList, Pg.isSpace c = true ∨ c = '-' ∨ c = '+' ∨ c.isDigit = true := by
  rcases Option.bind_eq_some_iff.mp h with ⟨m, hm, -⟩
  exact Pg.numeral_of_integerIn hm

theorem asciiLower_of_integerOf {v : String} {n : Int} (h : integerOf v = some n) :
    asciiLower v = v :=
  asciiLower_of_forall fun c hc => (low_of_numeral (numeral_of_integerOf h c hc)).2

/-- A letter stays one in lower case, so a number in lower case was one before. -/
theorem asciiLower_of_integerOf_lower {v : String} {n : Int}
    (h : integerOf (asciiLower v) = some n) : asciiLower v = v := by
  refine asciiLower_of_forall (fun c hc => toLower_of_lt (numeral_lt (numeral_of_integerOf h _ ?_)))
  rw [asciiLower, String.toList_ofList]
  exact List.mem_map_of_mem hc

/-- The texts of a setting are ASCII without capital letters. -/
def Setting.isLow : Setting → Bool
  | .text v => WedFlow.isLow v
  | .succ => true

/-- The texts of a setting have no single quote in them. -/
def Setting.quoteless : Setting → Bool
  | .text v => '\'' ∉ v.toList
  | .succ => true

theorem Setting.quoteless_eval {st : Setting} (hst : st.quoteless = true) {old x : String}
    (h : x ∈ st.eval old) : '\'' ∉ x.toList := by
  cases st with
  | text v =>
      rw [← Option.some.inj h]
      exact of_decide_eq_true hst
  | succ =>
      rcases Option.map_eq_some_iff.mp h with ⟨k, -, rfl⟩
      rw [Json.toList_toString]
      intro hq
      -- A printed number is a sign and digits.
      cases k with
      | ofNat n => exact absurd (Json.digit_of_mem hq) (by decide)
      | negSucc n =>
          rcases List.mem_cons.mp hq with hq | hq
          · exact absurd hq (by decide)
          · exact absurd (Json.digit_of_mem hq) (by decide)

/-- What is assigned is lower case, and depends on nothing but the lower case of what
    was there. -/
theorem Setting.eval_lower {st : Setting} (hst : st.isLow = true) {old x : String}
    (h : st.eval old = some x) : WedFlow.isLow x = true ∧ st.eval (asciiLower old) = some x := by
  cases st with
  | text v =>
      rw [← Option.some.inj h]
      exact ⟨hst, rfl⟩
  | succ =>
      rcases Option.map_eq_some_iff.mp h with ⟨k, hk, rfl⟩
      rcases Option.bind_eq_some_iff.mp hk with ⟨n, hn, -⟩
      rw [asciiLower_of_integerOf hn]
      exact ⟨isLow_toString k, h⟩

/-- And the other way round. -/
theorem Setting.eval_of_lower {st : Setting} {old x : String}
    (h : st.eval (asciiLower old) = some x) : st.eval old = some x := by
  cases st with
  | text v => exact h
  | succ =>
      rcases Option.map_eq_some_iff.mp h with ⟨k, hk, -⟩
      rcases Option.bind_eq_some_iff.mp hk with ⟨n, hn, -⟩
      rwa [asciiLower_of_integerOf_lower hn] at h

/-! ## What matters of a state -/

/-- A list of pairs whose values depend on their names. -/
theorem lookup_map_name {α β : Type} (l : List α) (name : α → String) (g : String → β) (c : String) :
    (l.map fun a => (name a, g (name a))).lookup c = if c ∈ l.map name then some (g c) else none := by
  induction l with
  | nil => rfl
  | cons a l ih =>
      rw [List.map_cons, List.lookup_cons, ih, List.map_cons]
      by_cases hc : c = name a
      · rw [hc, beq_self_eq_true, if_pos List.mem_cons_self]
      · rw [beq_false_of_ne hc]
        simp only [List.mem_cons, hc, false_or]

/-- A change of the values that looks at the name of each. -/
theorem lookup_map_value {α β : Type} (l : List (String × α)) (g : String → α → β) (c : String) :
    (l.map fun a => (a.1, g a.1 a.2)).lookup c = (l.lookup c).map (g c) := by
  induction l with
  | nil => rfl
  | cons a l ih =>
      rw [List.map_cons, List.lookup_cons, List.lookup_cons, ih]
      by_cases hc : c = a.1
      · rw [hc, beq_self_eq_true, Option.map_some]
      · rw [beq_false_of_ne hc]

theorem lookup_filter_name {α : Type} (l : List (String × α)) (names : List String) {c : String}
    (hc : c ∈ names) : (l.filter fun a => a.1 ∈ names).lookup c = l.lookup c := by
  induction l with
  | nil => rfl
  | cons a l ih =>
      rw [List.lookup_cons]
      by_cases ha : a.1 ∈ names
      · rw [List.filter_cons, if_pos (decide_eq_true ha), List.lookup_cons, ih]
      · rw [List.filter_cons, if_neg (by simpa only [decide_eq_true_eq] using ha), ih,
          beq_false_of_ne (ne_of_mem_of_not_mem hc ha)]

namespace Flow

/-- The attributes that predicates mention. -/
def names (f : Flow) : List String :=
  (f.preds.flatMap fun p => p.2.map (·.1)).dedup

/-- What matters of a state: those attributes, in lower case. -/
def view (f : Flow) (s : State) : State :=
  (s.filter fun a => a.1 ∈ f.names).map fun a => (a.1, asciiLower a.2)

/-- The states of the flow, with ASCII text in the attributes that matter. -/
def states (f : Flow) : Set State :=
  {s | s.map (·.1) = f.attrs.map (·.name) ∧ ∀ a ∈ s, a.1 ∈ f.names → isAscii a.2 = true}

/-- The conditions that are met. -/
def meets (f : Flow) (u : State) : List Int :=
  (f.preds.filter fun p => p.2.all fun a => u.lookup a.1 = some a.2).map fun p => f.cid p.1

/-- The value of an attribute after a `SET` list. -/
def after (ss : List (String × Setting)) (a : String × String) : Option String :=
  (ss.lookup a.1).elim (some a.2) (·.eval a.2)

/-- What a `SET` list makes of a state, if no cast in it fails. -/
def assign (ss : List (String × Setting)) (u : State) : Option State :=
  if u.all fun a => (after ss a).isSome then some (u.map fun a => (a.1, (after ss a).getD ""))
  else none

/-- The state of an instance that is started with these values. -/
def start (f : Flow) (ch : List (String × String)) : State :=
  f.view (f.attrs.map fun a => (a.name, (ch.lookup a.name).getD a.defaultValue))

/-- The chart of a flow whose instances are started with one of these. -/
def chart (f : Flow) (chs : List (List (String × String))) : Chart State Int Int where
  conds := f.meets
  final := (f.condRows.filter (·.final)).map (·.cid)
  trigs := f.trigRows.map fun t => (t.cid, t.tgid)
  starts := chs.map f.start
  script g u := (f.orders g).filterMap (assign · u)

/-- What has to be right with a flow: names are found and given once, and what
    predicates ask for and workers write is lower case, as far as it matters. -/
structure WellFormed (f : Flow) : Prop where
  names : (f.attrs.map (·.name)).Nodup
  condition : ∀ p ∈ f.preds, p.1 ∈ f.conds.map (·.1)
  clause : ∀ p ∈ f.preds, (p.2.map (·.1)).Nodup
  column : ∀ p ∈ f.preds, ∀ a ∈ p.2, a.1 ∈ f.attrs.map (·.name) ∧ a.1 ∉ ["wid", "awic"]
  value : ∀ p ∈ f.preds, ∀ a ∈ p.2, a.2 ≠ "" ∧ isLow a.2 = true
  setting : ∀ w ∈ f.workers, ∀ ss ∈ w.2, ∀ a ∈ ss, a.1 ∈ f.names → a.2.isLow = true
  -- A worker assigns to attributes of the flow, to each once.
  assigned : ∀ w ∈ f.workers, ∀ ss ∈ w.2, (ss.map (·.1)).Nodup ∧
    ∀ a ∈ ss, a.1 ∈ f.attrs.map (·.name) ∧ (a.1 ∉ f.names → a.2 ≠ .succ)

/-- The definition tables are those of the flow. -/
structure Installed (f : Flow) (db : Db) : Prop where
  conds : db.wedCond = f.condRows
  preds : db.wedPred = f.predRows
  trigs : db.wedTrig = f.trigRows
  columns : db.flowColumns = f.columns

theorem lookup_view (f : Flow) (s : State) {c : String} (hc : c ∈ f.names) :
    (f.view s).lookup c = (s.lookup c).map asciiLower := by
  unfold view
  rw [lookup_map_value _ (fun _ => asciiLower), lookup_filter_name s f.names hc]

theorem mem_names {f : Flow} {p : String × List (String × String)} (hp : p ∈ f.preds)
    {a : String × String} (ha : a ∈ p.2) : a.1 ∈ f.names :=
  List.mem_dedup.mpr (List.mem_flatMap.mpr ⟨p, hp, List.mem_map_of_mem ha⟩)

/-- A row of `wed_pred` matches a state exactly if its predicate holds of what matters
    of it. -/
theorem rowMatches_row {f : Flow} (hf : f.WellFormed) {loc : Locale} (hloc : loc.Ascii) {s : State}
    (hs : s ∈ f.states) {p : String × List (String × String)} (hp : p ∈ f.preds) (pid : Int) :
    rowMatches loc s ⟨pid, f.cid p.1, f.attrs.map fun a => (a.name, p.2.lookup a.name)⟩ = true ↔
      ∀ a ∈ p.2, (f.view s).lookup a.1 = some a.2 := by
  have hclause : ∀ c, PredRow.clause ⟨pid, f.cid p.1, f.attrs.map fun a =>
      (a.name, p.2.lookup a.name)⟩ c = if c ∈ f.attrs.map (·.name) then p.2.lookup c else none := by
    intro c
    unfold PredRow.clause
    dsimp only
    rw [lookup_map_name f.attrs (·.name) (fun c => p.2.lookup c)]
    split <;> rfl
  -- The value of an attribute that the predicate mentions.
  have hvalue : ∀ a ∈ p.2, (f.view s).lookup a.1 = some a.2 ↔ SameLower loc (stateOf s a.1) a.2 := by
    intro a ha
    have hname := mem_names hp ha
    have hcol : a.1 ∈ s.map (·.1) := hs.1 ▸ (hf.column p hp a ha).1
    rcases List.mem_map.mp hcol with ⟨b, hb, hba⟩
    have hlook : s.lookup a.1 = some b.2 := by
      rw [← hba]
      exact Table.lookup_of_mem (hs.1 ▸ hf.names) hb
    have hlow := (hf.value p hp a ha).2
    unfold SameLower stateOf
    rw [lookup_view f s hname, hlook, Option.map_some, Option.getD_some, Option.some.injEq,
      hloc b.2 (hs.2 b hb (hba ▸ hname)), hloc a.2 (isLow_iff.mp hlow).1, asciiLower_of_isLow hlow]
  rw [rowMatches_columns]
  constructor
  · intro h a ha
    rcases hf.column p hp a ha with ⟨hcol, hwid⟩
    refine (hvalue a ha).mpr (h a.1 (List.mem_filter.mpr ⟨hs.1 ▸ hcol, decide_eq_true hwid⟩) a.2 ?_
      (hf.value p hp a ha).1)
    rw [hclause, if_pos hcol]
    exact Table.lookup_of_mem (hf.clause p hp) ha
  · intro h c _ v hv _
    rw [hclause] at hv
    split at hv
    · have ha := Table.mem_of_lookup hv
      exact (hvalue (c, v) ha).mp (h (c, v) ha)
    · exact absurd hv.symm (Option.some_ne_none v)

theorem mem_predRows {f : Flow} {r : PredRow} (h : r ∈ f.predRows) :
    ∃ p ∈ f.preds, ∃ pid, r = ⟨pid, f.cid p.1, f.attrs.map fun a => (a.name, p.2.lookup a.name)⟩ := by
  rcases List.mem_map.mp h with ⟨⟨p, k⟩, hp, rfl⟩
  exact ⟨p, List.fst_mem_of_mem_zipIdx hp, _, rfl⟩

theorem exists_predRow {f : Flow} {p : String × List (String × String)} (h : p ∈ f.preds) :
    ∃ pid, (⟨pid, f.cid p.1, f.attrs.map fun a => (a.name, p.2.lookup a.name)⟩ : PredRow)
      ∈ f.predRows := by
  rcases List.mem_iff_getElem?.mp h with ⟨k, hk⟩
  exact ⟨_, List.mem_map.mpr ⟨(p, k), List.mk_mem_zipIdx_iff_getElem?.mpr hk, rfl⟩⟩

/-- A name that is there is found. -/
theorem exists_condRow {f : Flow} {name : String} (h : name ∈ f.conds.map (·.1)) :
    ∃ k ∈ f.condRows, k.cid = f.cid name := by
  rcases List.mem_map.mp h with ⟨c, hc, rfl⟩
  have hlt : f.conds.findIdx (fun d => d.1 = c.1) < f.conds.length :=
    List.findIdx_lt_length.mpr ⟨c, hc, decide_eq_true rfl⟩
  refine ⟨_, List.mem_map.mpr ⟨(f.conds[f.conds.findIdx fun d => d.1 = c.1], _),
    List.mk_mem_zipIdx_iff_getElem?.mpr (List.getElem?_eq_getElem hlt), rfl⟩, rfl⟩

/-- The chart of a flow is true of a database with its definitions. -/
theorem describes {f : Flow} (hf : f.WellFormed) {loc : Locale} (hloc : loc.Ascii) {db : Db}
    (hdb : f.Installed db) (chs : List (List (String × String))) :
    (f.chart chs).Describes (policy loc db) f.view f.states where
  conds s hs c := by
    change c ∈ (matchConds loc db s).1 ↔ c ∈ f.meets (f.view s)
    rw [mem_matchConds]
    unfold meets
    simp only [List.mem_map, List.mem_filter, List.all_eq_true, decide_eq_true_eq]
    constructor
    · rintro ⟨⟨r, b⟩, hr, hm, rfl⟩
      rw [mem_predScan, hdb.preds] at hr
      rcases mem_predRows hr.1 with ⟨p, hp, pid, rfl⟩
      exact ⟨p, ⟨hp, (rowMatches_row hf hloc hs hp pid).mp hm⟩, rfl⟩
    · rintro ⟨p, ⟨hp, hm⟩, rfl⟩
      rcases exists_predRow hp with ⟨pid, hr⟩
      rcases exists_condRow (hf.condition p hp) with ⟨k, hk, hcid⟩
      refine ⟨(_, k.final), (mem_predScan db _ _).mpr ⟨hdb.preds ▸ hr, k, hdb.conds ▸ hk, hcid, rfl⟩,
        (rowMatches_row hf hloc hs hp pid).mpr hm, rfl⟩
  final c := by
    change (∃ k ∈ db.wedCond, k.cid = c ∧ k.final = true) ↔ c ∈ (f.condRows.filter (·.final)).map (·.cid)
    rw [hdb.conds]
    simp only [List.mem_map, List.mem_filter]
    constructor
    · rintro ⟨k, hk, rfl, hfin⟩
      exact ⟨k, ⟨hk, hfin⟩, rfl⟩
    · rintro ⟨k, ⟨hk, hfin⟩, rfl⟩
      exact ⟨k, hk, rfl, hfin⟩
  trigs c g := by
    change (∃ r ∈ db.wedTrig, r.cid = c ∧ r.tgid = g) ↔ (c, g) ∈ f.trigRows.map fun t => (t.cid, t.tgid)
    rw [hdb.trigs]
    simp only [List.mem_map, Prod.mk.injEq]

/-! ## Writes by the script -/

theorem mem_workers {f : Flow} {g : Int} {ss : List (String × Setting)} (h : ss ∈ f.orders g) :
    ∃ w ∈ f.workers, ss ∈ w.2 := by
  unfold orders at h
  cases hw : f.workers.lookup g with
  | none =>
      rw [hw] at h
      exact absurd h List.not_mem_nil
  | some sss =>
      rw [hw] at h
      exact ⟨_, Table.mem_of_lookup hw, h⟩

/-- What a worker writes is on the chart. -/
theorem assign_view {f : Flow} (hf : f.WellFormed) {s s' : State} (hs : s ∈ f.states) {g : Int}
    {ss : List (String × Setting)} (hss : ss ∈ f.orders g) {vals : List (String × Option String)}
    (hvals : ∀ c ∈ f.names, vals.lookup c = (setList ss s).lookup c)
    (h : assignFlow s vals = .ok s') :
    s' ∈ f.states ∧ assign ss (f.view s) = some (f.view s') := by
  rcases (assignFlow_ok_iff s vals s').mp h with ⟨-, hsome, rfl⟩
  rcases mem_workers hss with ⟨w, hw, hwss⟩
  -- The new value of an attribute that matters.
  have hnew : ∀ a ∈ s, a.1 ∈ f.names → isAscii (((vals.lookup a.1).join).getD a.2) = true ∧
      after ss (a.1, asciiLower a.2) = some (asciiLower (((vals.lookup a.1).join).getD a.2)) := by
    intro a ha hname
    have hlook : s.lookup a.1 = some a.2 := Table.lookup_of_mem (hs.1 ▸ hf.names) ha
    have hval : vals.lookup a.1 = (ss.lookup a.1).map (·.eval a.2) := by
      rw [hvals a.1 hname, setList, lookup_map_value ss (fun c st => st.eval ((s.lookup c).getD "")),
        hlook, Option.getD_some]
    unfold after
    dsimp only
    cases hst : ss.lookup a.1 with
    | none =>
        rw [hval, hst]
        exact ⟨hs.2 a ha hname, rfl⟩
    | some st =>
        rw [hst, Option.map_some] at hval
        rcases Option.isSome_iff_exists.mp (hsome _ (Table.mem_of_lookup hval)) with ⟨x, hx⟩
        dsimp only at hx
        rcases Setting.eval_lower (hf.setting w hw ss hwss _ (Table.mem_of_lookup hst) hname) hx with ⟨hxl, hxe⟩
        rw [hval, hx, Option.join_some, Option.getD_some, Option.elim_some, asciiLower_of_isLow hxl]
        exact ⟨(isLow_iff.mp hxl).1, hxe⟩
  refine ⟨⟨?_, ?_⟩, ?_⟩
  · rw [List.map_map]
    exact hs.1
  · intro b hb hname
    rcases List.mem_map.mp hb with ⟨a, ha, rfl⟩
    exact (hnew a ha hname).1
  · have hview : f.view (s.map fun a => (a.1, ((vals.lookup a.1).join).getD a.2))
        = (s.filter fun a => a.1 ∈ f.names).map fun a =>
            (a.1, asciiLower (((vals.lookup a.1).join).getD a.2)) := by
      unfold view
      rw [List.filter_map, List.map_map]
      rfl
    have hmem : ∀ a ∈ s.filter (fun a => a.1 ∈ f.names), a ∈ s ∧ a.1 ∈ f.names := by
      intro a ha
      exact ⟨(List.mem_filter.mp ha).1, of_decide_eq_true (List.mem_filter.mp ha).2⟩
    unfold assign
    rw [hview, if_pos]
    · unfold view
      rw [List.map_map, Option.some.injEq]
      refine List.map_congr_left (fun a ha => ?_)
      dsimp only [Function.comp_apply]
      rw [(hnew a (hmem a ha).1 (hmem a ha).2).2, Option.getD_some]
    · refine List.all_eq_true.mpr (fun b hb => ?_)
      rcases List.mem_map.mp hb with ⟨a, ha, rfl⟩
      rw [(hnew a (hmem a ha).1 (hmem a ha).2).2]
      rfl

/-- And what is on the chart can be written, as far as the row goes. -/
theorem exists_assignFlow {f : Flow} (hf : f.WellFormed) {s u : State} (hs : s ∈ f.states) {g : Int}
    {ss : List (String × Setting)} (hss : ss ∈ f.orders g) (h : assign ss (f.view s) = some u) :
    ∃ s', assignFlow s (setList ss s) = .ok s' := by
  rcases mem_workers hss with ⟨w, hw, hwss⟩
  rcases hf.assigned w hw ss hwss with ⟨hnodup, hassigned⟩
  refine ⟨_, (assignFlow_ok_iff s _ _).mpr ⟨fun a ha => ?_, fun a ha => ?_, rfl⟩⟩
  · rcases List.mem_map.mp ha with ⟨b, hb, rfl⟩
    exact hs.1 ▸ (hassigned b hb).1
  · rcases List.mem_map.mp ha with ⟨⟨c, st⟩, hb, rfl⟩
    dsimp only
    by_cases hc : c ∈ f.names
    · -- The chart has the value this is assigned to, in lower case.
      have hcol : c ∈ s.map (·.1) := hs.1 ▸ (hassigned _ hb).1
      rcases List.mem_map.mp hcol with ⟨⟨c', old⟩, hold, rfl⟩
      rw [Table.lookup_of_mem (hs.1 ▸ hf.names) hold, Option.getD_some]
      unfold assign at h
      split at h
      next hall =>
        have hafter := List.all_eq_true.mp hall (c', asciiLower old)
          (List.mem_map.mpr ⟨(c', old), List.mem_filter.mpr ⟨hold, decide_eq_true hc⟩, rfl⟩)
        unfold after at hafter
        dsimp only at hafter
        rw [Table.lookup_of_mem hnodup hb, Option.elim_some] at hafter
        rcases Option.isSome_iff_exists.mp hafter with ⟨x, hx⟩
        rw [Setting.eval_of_lower hx]
        rfl
      next => exact absurd h.symm (Option.some_ne_none u)
    · cases st with
      | text v => rfl
      | succ => exact absurd rfl ((hassigned _ hb).2 hc)

/-- The value that an attribute starts with. -/
def initial (vals : List (String × Option String)) (a : AttrRow) : String :=
  ((vals.lookup a.name).join).getD a.defaultValue

/-- An insert that comes to a choice of values, up to the case of letters. -/
def Chooses (f : Flow) (ch : List (String × String)) (vals : List (String × Option String)) : Prop :=
  ∀ a ∈ f.attrs, a.name ∈ f.names → isAscii (initial vals a) = true ∧
    asciiLower (initial vals a) = asciiLower ((ch.lookup a.name).getD a.defaultValue)

/-- What an instance starts with is on the chart. -/
theorem start_view {f : Flow} {ch : List (String × String)} {vals : List (String × Option String)}
    (hvals : f.Chooses ch vals) {s : State}
    (h : assignFlow (f.columns.map fun c => (c.name, c.default)) vals = .ok s) :
    s ∈ f.states ∧ f.view s = f.start ch := by
  have hs : s = f.attrs.map fun a => (a.name, initial vals a) := by
    rw [((assignFlow_ok_iff _ _ _).mp h).2.2, columns, List.map_map, List.map_map]
    rfl
  subst hs
  refine ⟨⟨?_, ?_⟩, ?_⟩
  · rw [List.map_map]
    rfl
  · intro b hb hname
    rcases List.mem_map.mp hb with ⟨a, ha, rfl⟩
    exact (hvals a ha hname).1
  · unfold start view
    rw [List.filter_map, List.filter_map, List.map_map, List.map_map]
    refine List.map_congr_left (fun a ha => ?_)
    dsimp only [Function.comp_apply]
    rw [(hvals a (List.mem_filter.mp ha).1 (of_decide_eq_true (List.mem_filter.mp ha).2)).2]

/-! ## What the engine asks for -/

/-- What the engine asks of a flow: its definitions pass the three validations, its
    attributes are columns that the history can name, and its workers assign nothing with
    a single quote in it. -/
structure Workable (f : Flow) : Prop where
  validated : Validated { Db.empty with
    wedCond := f.condRows, wedPred := f.predRows, wedTrig := f.trigRows }
  nonempty : f.attrs ≠ []
  idents : ∀ a ∈ f.attrs, PlainIdent (fun _ => false) a.name ∧
    Sql.truncateIdentifier a.name.toList = a.name.toList
  quotes : ∀ w ∈ f.workers, ∀ ss ∈ w.2, ∀ a ∈ ss, a.2.quoteless = true

theorem Installed.validated {f : Flow} {db : Db} (hdb : f.Installed db) (h : f.Workable) :
    Validated db := by
  rcases h.validated with ⟨hfinal, hcond, htrig⟩
  refine ⟨?_, ?_, ?_⟩
  · unfold wedFinalCondValidation at hfinal ⊢
    rw [hdb.conds]
    exact hfinal
  · unfold wedCondValidation at hcond ⊢
    rw [hdb.conds, hdb.preds]
    exact hcond
  · unfold wedTrigValidation at htrig ⊢
    rw [hdb.conds, hdb.trigs]
    exact htrig

/-- Every state without a single quote in it can be stored, if the tokens are new. -/
theorem Workable.writable {f : Flow} (hf : f.WellFormed) (hw : f.Workable) {loc : Locale} {env : Env}
    {db : Db} (hdb : f.Installed db) (hkept : Kept db.catalog) {wid : Int} {s : State}
    (hs : s ∈ f.states) (hquote : ∀ a ∈ s, '\'' ∉ a.2.toList)
    (hfresh : ∀ fired : List TrigRow, fired.Sublist db.wedTrig →
      Fresh loc db.jobPool (freshJobs env 0 (fired.map (TrigRow.request wid)))) :
    Writable loc env db wid s := by
  have hcols : db.flowColumns.map (·.name) = f.attrs.map (·.name) := by
    rw [hdb.columns, columns, List.map_map]
    rfl
  have hname : ∀ a ∈ s, a.1 ∈ f.attrs.map (·.name) := by
    intro a ha
    rw [← hs.1]
    exact List.mem_map_of_mem ha
  refine ⟨hdb.validated hw, fun c hc => ?_, fun r hr => ?_, hfresh, ⟨?_, ?_, ?_, ?_, hquote⟩⟩
  · have hpred : db.predColumns = db.flowColumns.map (·.name) := hkept.pred
    rw [hpred, hcols, ← hs.1]
    exact (List.mem_filter.mp hc).1
  · rw [hdb.trigs] at hr
    rcases List.mem_map.mp hr with ⟨p, -, rfl⟩
    rfl
  · intro hnil
    have hnone := hs.1
    rw [hnil, List.map_nil] at hnone
    exact hw.nonempty (List.map_eq_nil_iff.mp hnone.symm)
  · rw [hs.1]
    exact hf.names
  · intro a ha
    rcases List.mem_map.mp (hname a ha) with ⟨b, hb, hba⟩
    rw [← hba]
    exact ⟨(hw.idents b hb).1.of_ascii _, (hw.idents b hb).2⟩
  · intro a ha
    have htrace : db.traceColumns.map (·.name) = db.flowColumns.map (·.name) := hkept.trace
    rw [htrace, hcols]
    exact hname a ha

/-- What a worker makes of a state without single quotes has none. -/
theorem Workable.quoteless {f : Flow} (hw : f.Workable) {g : Int} {ss : List (String × Setting)}
    (hss : ss ∈ f.orders g) {s s' : State} (hquote : ∀ a ∈ s, '\'' ∉ a.2.toList)
    (h : assignFlow s (setList ss s) = .ok s') : ∀ a ∈ s', '\'' ∉ a.2.toList := by
  rcases mem_workers hss with ⟨w, hwm, hwss⟩
  refine assignFlow_kind (V := fun v => '\'' ∉ v.toList) s _ s' h hquote (fun a ha v hv => ?_)
  rcases List.mem_map.mp ha with ⟨b, hb, rfl⟩
  exact Setting.quoteless_eval (hw.quotes w hwm ss hwss b hb) hv

end Flow

end WedFlow
