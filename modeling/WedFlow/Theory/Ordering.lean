import WedFlow.Theory.Agreement

/-!
# The Order of a History

`wed_trace` has no key but `tstmp`, so reading the history of an instance means
sorting by it. The rows are dated by the beginning of the transaction that wrote
them, and states are taken in the order in which transactions get hold of the
row. The two orders are different things: `stamps_store` says that the dates of
the rows, as they were appended, are the beginnings of the transactions that
wrote them, one by one. This needs names and values out of which a row of the
history is written as it was meant: a value with both kinds of quotes can add rows,
and an attribute `Tstmp` dates them.

So the history can be read back exactly if each state of the instance was written
by a transaction that began after the one that wrote the state before it. Two
updates in one transaction share a date, and a transaction that began early and
wrote late dates its state back.

## Main definitions

* `Ordered`: A history that sorting by date reads back.
* `Current`: The row with the greatest date shows the instance.

## Theorems

* `stamps_exec`: What a statement adds to the dates of a history.
* `stamps_store`: The dates of a history.
* `history_ordered_iff`: When the history can be read back.
-/

namespace WedFlow

/-! ## Dates -/

/-- The dates of the history of an instance, in the order of the states. -/
def stamps (db : Db) (wid : Int) : List Time :=
  (traceOf db wid).map (·.tstmp)

/-- A statement dates one more row of an instance if it writes a state of it, and
    no date ever changes. -/
theorem stamps_exec (loc : Locale) (i : Input) (db db' : Db) (r : Reply) (hi : Inv db)
    (hexec : exec loc i db = .ok (db', r))
    (hc : Conform loc.printable (fun v => ¬ Escapes v) db') (wid : Int) :
    stamps db' wid
      = stamps db wid ++ if wrote loc (db, i) = some wid then [i.env.start] else [] := by
  have hi' := inv_exec loc i db db' r hi hexec
  by_cases hop : i.op.Restyles
  · -- The columns change, and the dates are none of them.
    -- Neither statement on attributes counts as a write.
    have hno : wrote loc (db, i) ≠ some wid := by
      rcases i with ⟨env, op⟩
      cases op with
      | insertAttr new => exact fun h => nomatch h
      | updateAttr name new => exact fun h => nomatch h
      | _ => exact hop.elim
    rcases (restyled_of_exec loc i.env i.op db db' r hop hexec).same with ⟨f, he⟩
    rw [if_neg hno, List.append_nil]
    unfold stamps
    rw [traceOf_map_attrs (congrArg Db.wedTrace he), List.map_map]
    rfl
  · rcases rows_of_change loc i.env i.op r db db' hi (exec_change loc i db db' r hi hexec) hop with
      hs | ⟨w, a, k, hw, -, hfor⟩
    · rw [if_neg (hs.not_wrote hexec wid), List.append_nil]
      unfold stamps
      rw [(hs.rows wid).trace]
    -- One row is appended, with the date of the transaction and not of the statement.
    · have hwrote := wrote_of_writesFor hexec hfor
      rw [hwrote]
      unfold stamps
      by_cases hwid : w.new.wid = wid
      · subst hwid
        rw [if_pos rfl, hw.trace_own hi' hc, List.map_append]
        rfl
      · rw [if_neg (fun h => hwid (Option.some.inj h)), List.append_nil,
          (hw.same_others hi' hc (Ne.symm hwid)).trace]

theorem stamps_step (loc : Locale) (i : Input) (db : Db) (hi : Inv db)
    (hc : Conform loc.printable (fun v => ¬ Escapes v) (step loc db i)) (wid : Int) :
    stamps (step loc db i) wid
      = stamps db wid ++ if wrote loc (db, i) = some wid then [i.env.start] else [] := by
  rcases hex : exec loc i db with e | ⟨db', r⟩
  · have hno : wrote loc (db, i) ≠ some wid := by
      intro h
      rcases wrote_ok h with ⟨db', r, hok⟩
      exact absurd (hex.symm.trans hok) (nomatch ·)
    unfold step
    rw [hex, if_neg hno, List.append_nil]
  · rw [step_of_exec hex] at hc ⊢
    exact stamps_exec loc i db db' r hi hex hc wid

/-- The dates of a history are the beginnings of the transactions that wrote its
    states. -/
theorem stamps_store (loc : Locale) (acts : List Act)
    (htext : ∀ i ∈ statements loc acts, i.op.HeldText loc.printable) (wid : Int) :
    stamps (store loc acts).db wid = starts loc wid acts := by
  refine ((Machine.history_invariant (Store.act loc) (fun _ => True)
    (fun past s => Inv s.db ∧ ((∀ i ∈ past.filterMap fun p => p.1.input p.2,
      i.op.HeldText loc.printable) → Conform loc.printable (fun v => ¬ Escapes v) s.db ∧
        stamps s.db wid = past.filterMap fun p => (p.1.input p.2).bind fun i =>
          if wrote loc (p.1.db, i) = some wid then some i.env.start else none))
    Store.empty ⟨inv_empty, fun _ => ⟨conform_empty, rfl⟩⟩ ?_ acts (fun _ _ => trivial)).2 htext).2
  -- `stamps` grows at the end by what the list of beginnings grows by.
  intro past s a _ h
  rw [Store.act_db, List.filterMap_append, List.filterMap_append, List.filterMap_cons,
    List.filterMap_cons, List.filterMap_nil, List.filterMap_nil]
  cases s.input a with
  | none =>
      refine ⟨h.1, fun hpast => ?_⟩
      have hold := h.2 (fun i hi => hpast i (List.mem_append_left _ hi))
      exact ⟨hold.1, hold.2.trans (List.append_nil _).symm⟩
  | some i =>
      dsimp only [Option.map_some, Option.getD_some, Option.bind_some]
      refine ⟨inv_step loc i s.db h.1, fun hpast => ?_⟩
      have hold := h.2 (fun j hj => hpast j (List.mem_append_left _ hj))
      have hop := hpast i (List.mem_append_right _ (List.mem_singleton.mpr rfl))
      have hc := step_cases loc s.db i (Conform loc.printable fun v => ¬ Escapes v) hold.1
        (fun db' r hex => conform_exec loc i s.db db' r h.1 hex hop hold.1)
      refine ⟨hc, ?_⟩
      rw [stamps_step loc i s.db h.1 hc, hold.2]
      split
      · rfl
      · rfl

/-! ## Reading a history back -/

/-- A row of the history that no other is dated after. -/
def Latest (db : Db) (wid : Int) (t : TraceRow) : Prop :=
  t ∈ traceOf db wid ∧ ∀ u ∈ traceOf db wid, u.tstmp ≤ t.tstmp

/-- The dates increase in the order in which the states were taken. Sorting the
    rows by date therefore gives the history, and the row with the greatest date
    is that of the last state. -/
structure Ordered (db : Db) (wid : Int) : Prop where
  increasing : (traceOf db wid).Pairwise (fun t u => t.tstmp < u.tstmp)
  sorted : ∀ rows : List TraceRow, rows.Perm (traceOf db wid) →
    rows.Pairwise (fun t u => t.tstmp ≤ u.tstmp) → rows = traceOf db wid
  latest : ∀ t, Latest db wid t → (traceOf db wid).getLast? = some t

/-- The row with the greatest date shows the row of the instance and its
    status. -/
def Current (db : Db) (wid : Int) : Prop :=
  ∀ r ∈ db.wedFlow, r.wid = wid → ∀ s ∈ db.stStatus, s.wid = wid →
    ∃ t, Latest db wid t ∧ (∀ u, Latest db wid u → u = t) ∧
      t.attrs = r.attrs ∧ t.final = s.final ∧ t.excpt = s.excpt

theorem pairwise_iff_isChain (db : Db) (wid : Int) :
    (traceOf db wid).Pairwise (fun t u => t.tstmp < u.tstmp) ↔ (stamps db wid).IsChain (· < ·) := by
  rw [List.isChain_iff_pairwise]
  exact List.pairwise_map.symm

/-- The last row of an increasing history is dated after all others. -/
theorem latest_iff_getLast {db : Db} {wid : Int}
    (h : (traceOf db wid).Pairwise (fun t u => t.tstmp < u.tstmp)) (t : TraceRow) :
    Latest db wid t ↔ (traceOf db wid).getLast? = some t := by
  unfold Latest
  rcases List.eq_nil_or_concat (traceOf db wid) with hnil | ⟨init, last, hlast⟩
  · rw [hnil]
    exact iff_of_false (fun ht => List.not_mem_nil ht.1) (nomatch ·)
  · rw [List.concat_eq_append] at hlast
    rw [hlast] at h ⊢
    -- A row before the last one is dated before it, so it cannot be the latest.
    have hbefore := (List.pairwise_append.mp h).2.2
    rw [List.getLast?_concat, Option.some.injEq]
    constructor
    · intro ht
      rcases List.mem_append.mp ht.1 with hin | heq
      · have hlt := hbefore t hin last List.mem_cons_self
        exact absurd (ht.2 last (List.mem_append_right _ List.mem_cons_self)) (Int.not_le.mpr hlt)
      · exact (List.mem_singleton.mp heq).symm
    · rintro rfl
      refine ⟨List.mem_append_right _ List.mem_cons_self, fun u hu => ?_⟩
      rcases List.mem_append.mp hu with hin | heq
      · exact Int.le_of_lt (hbefore u hin last List.mem_cons_self)
      · rw [List.mem_singleton.mp heq]

theorem ordered_of_increasing {db : Db} {wid : Int}
    (h : (traceOf db wid).Pairwise (fun t u => t.tstmp < u.tstmp)) : Ordered db wid := by
  -- Rows with one date are one row, so there is one way to sort them.
  have hunique : Table.Unique (·.tstmp) (traceOf db wid) :=
    List.pairwise_map.mpr (h.imp (fun hlt => Int.ne_of_lt hlt))
  refine ⟨h, fun rows hperm hsorted => ?_, fun t ht => (latest_iff_getLast h t).mp ht⟩
  refine List.Perm.eq_of_pairwise (fun t u ht hu htu hut => ?_) hsorted
    (h.imp (fun hlt => Int.le_of_lt hlt)) hperm
  exact hunique.eq_of_mem (hperm.subset ht) hu (Int.le_antisymm htu hut)

/-- With plain texts the last row shows the instance, and it has the greatest
    date. -/
theorem current_of_increasing (loc : Locale) (acts : List Act)
    (hplain : ∀ i ∈ statements loc acts, i.op.PlainText loc.printable) (wid : Int)
    (h : (traceOf (store loc acts).db wid).Pairwise (fun t u => t.tstmp < u.tstmp)) :
    Current (store loc acts).db wid := by
  intro r hr hrw s hs hsw
  have hlast := run_shown loc (statements loc acts) hplain wid
  rw [← store_db] at hlast
  rcases hlast r hr hrw s hs hsw with ⟨t, hlast, hshown⟩
  refine ⟨t, (latest_iff_getLast h t).mpr hlast, fun u hu => ?_, hshown⟩
  exact Option.some.inj (((latest_iff_getLast h u).mp hu).symm.trans hlast)

/-- After every interleaving of transactions in which no value has both kinds of quotes
    and the attributes are lower-case identifiers, the histories are ordered by date and
    the row with the greatest date shows the instance, exactly if each state of an
    instance was written by a transaction that began after the one that wrote the state
    before it. -/
theorem history_ordered_iff (loc : Locale) (acts : List Act)
    (htext : ∀ i ∈ statements loc acts, i.op.HeldText loc.printable) :
    (∀ wid, Ordered (store loc acts).db wid ∧
      ((∀ i ∈ statements loc acts, i.op.PlainText loc.printable) →
        Current (store loc acts).db wid)) ↔
      ∀ wid, (starts loc wid acts).IsChain (· < ·) := by
  refine forall_congr' (fun wid => ?_)
  rw [← stamps_store loc acts htext, ← pairwise_iff_isChain]
  constructor
  · intro h
    exact h.1.increasing
  · intro h
    exact ⟨ordered_of_increasing h, fun hplain => current_of_increasing loc acts hplain wid h⟩

/-- Transaction 1 begins at 5. Transaction 2 begins at 6, inserts the instance and
    commits, and a third one takes its first job. Then transaction 1 completes the
    job. -/
def overtaking : List Act :=
  [.begins 0 0] ++ tiny.map (fun i => .executes 0 0 (clock 0).md5 i.op) ++
    [.commits 0, .begins 1 5, .begins 2 6, .executes 2 6 (clock 6).md5 (.insertFlow 7 none []),
      .commits 2, .begins 3 7, .executes 3 7 (clock 7).md5 (.jobLock (tokenAt 6 0) none),
      .commits 3, .executes 1 8 (clock 8).md5 (.updateFlow 7 none (some (some (tokenAt 6 0)))
        [("st", some "half")]), .commits 1]

/-- The two transactions that write instance 7 began in the wrong order. -/
theorem history_ordered_overtaking :
    (∀ i ∈ statements asciiLocale overtaking, i.op.HeldText asciiLocale.printable) ∧
      ¬ ∀ wid, Ordered (store asciiLocale overtaking).db wid ∧
        ((∀ i ∈ statements asciiLocale overtaking, i.op.PlainText asciiLocale.printable) →
          Current (store asciiLocale overtaking).db wid) := by
  have htext : ∀ i ∈ statements asciiLocale overtaking, i.op.HeldText asciiLocale.printable := by
    decide +kernel
  have hstarts : starts asciiLocale 7 overtaking = [6, 5] := by decide +kernel
  refine ⟨htext, fun h => ?_⟩
  have hchain := (history_ordered_iff asciiLocale overtaking htext).mp h 7
  rw [hstarts] at hchain
  exact absurd hchain (by decide)

/-- The state taken last is dated first, so the row with the greatest date shows
    the state before it. -/
theorem history_out_of_order :
    (traceOf (store asciiLocale overtaking).db 7).map (fun t => (t.tstmp, t.attrs))
        = [(6, [("st", "ready")]), (5, [("st", "half")])] ∧
      ¬ Ordered (store asciiLocale overtaking).db 7 := by
  have htrace : (traceOf (store asciiLocale overtaking).db 7).map (fun t => (t.tstmp, t.attrs))
      = [(6, [("st", "ready")]), (5, [("st", "half")])] := by
    decide +kernel
  refine ⟨htrace, fun h => ?_⟩
  have hdates : ((traceOf (store asciiLocale overtaking).db 7).map (fun t => (t.tstmp, t.attrs))).Pairwise
      (fun a b => a.1 < b.1) := List.pairwise_map.mpr h.increasing
  rw [htrace] at hdates
  exact absurd hdates (by decide)

/-- Two updates of an instance in one transaction have one date. -/
example : stamps (store asciiLocale
    ([.begins 0 0] ++ tiny.map (fun i => .executes 0 0 (clock 0).md5 i.op) ++
      [.executes 0 1 (clock 1).md5 (.insertFlow 7 none []),
        .executes 0 2 (clock 2).md5 (.jobLock (tokenAt 1 0) none),
        .executes 0 3 (clock 3).md5 (.updateFlow 7 none (some (some (tokenAt 1 0)))
          [("st", some "half")])])).db 7 = [0, 0] := by
  decide +kernel

end WedFlow
