import WedFlow.Base.Printed
import WedFlow.Core.Schema

/-!
# The Text of a History Entry

`new_trace_entry` writes a state into `wed_trace` by pasting two printed
tuples into an `INSERT`: the column names with every single quote deleted, and
the values as they are printed. What reaches the table is what PostgreSQL reads
in that text, which is the subject of this module.

The instance, the trigger, the two flags and the set of fired triggers print as
integers, keywords and a brace list, and those read as themselves. An attribute name and
an attribute value are whatever the user chose. As long as a value does not have both
kinds of quotes in it, it is one literal or the statement is refused; with both, its own
quote closes the literal, and the rest of the value is read as a part of the statement.

## Main definitions

* `Entry`: The arguments of `new_trace_entry`.
* `entryItems`: The columns and values it prints, in order.
* `wedColumns`: The column list it prints.
* `wedValues`: The value list it prints.
* `traceText`: The statement it executes.
* `PlainIdent`: A lower-case identifier that is not reserved.
* `ColumnsRead`: The printed column list is a column list.
* `Escapes`: A value with both kinds of quotes.

## Theorems

* `plainIdent_columnName`: Cutting a plain name leaves a plain name.
* `columnsRead_of_plainIdent`: Plain names print as a column list.
* `traceText_rows`: Without single quotes the statement inserts one row, the entry.
* `closed_of_readRows`: Without both kinds of quotes it inserts that or is refused.
* `traceText_faithful_iff`: It reads as the entry itself exactly when every
  attribute value is plain.
-/

namespace WedFlow

open Python Sql

/-- The arguments of `new_trace_entry`. A missing `tgidWrote` is Python's
    `False`, and an empty `tgidFired` its empty set. -/
structure Entry where
  wid : Int
  attrs : List (String × String)
  tgidWrote : Option Int
  final : Bool
  excpt : Bool
  tgidFired : List Int
deriving DecidableEq, Repr

/-- A value that Python takes for true: not `False`, and not zero. -/
def truthy : Option Int → Option Int
  | some t => if t = 0 then none else some t
  | none => none

/-- The optional columns, each appended only when its argument is true. -/
def entryFlags (e : Entry) : List (String × Value) :=
  (match truthy e.tgidWrote with
    | some t => [("tgid_wrote", .int t)]
    | none => []) ++
  (if e.final then [("final", .bool true)] else []) ++
  (if e.excpt then [("excpt", .bool true)] else []) ++
  (if e.tgidFired = [] then [] else [("tgid_fired", .str (String.ofList (setStr e.tgidFired)))])

/-- The columns and values of an entry, in the order they are printed. -/
def entryItems (e : Entry) : List (String × Value) :=
  ("wid", .int e.wid) :: e.attrs.map (fun a => (a.1, Value.str a.2)) ++ entryFlags e

/-- The column list: the printed tuple of names without its single quotes. -/
def wedColumns (table : Char → Bool) (k : List String) : List Char :=
  (tupleStr table (k.map Value.str)).filter (· ≠ '\'')

/-- The value list: the printed tuple of values. -/
def wedValues (table : Char → Bool) (v : List Value) : List Char :=
  tupleStr table v

/-- The statement that writes an entry. -/
def traceText (table : Char → Bool) (e : Entry) : List Char :=
  "INSERT INTO wed_trace ".toList ++ wedColumns table ((entryItems e).map (·.1)) ++
    " VALUES ".toList ++ wedValues table ((entryItems e).map (·.2))

/-- The column an identifier becomes: PostgreSQL cuts it at 63 bytes. -/
def columnName (n : String) : String :=
  String.ofList (truncateIdentifier n.toList)

/-- A lower-case identifier that is not reserved. -/
structure PlainIdent (table : Char → Bool) (n : String) : Prop where
  start : ∃ d w, n.toList = d :: w ∧ identStart d = true
  cont : ∀ c ∈ n.toList, identCont c = true
  lower : ∀ c ∈ n.toList, c.toLower = c
  printable : ∀ c ∈ n.toList, Printable table c = true
  free : n ∉ reserved

/-- The name as a single test. -/
def isPlainIdent (table : Char → Bool) (n : String) : Bool :=
  (match n.toList with | [] => false | d :: _ => identStart d) &&
    n.toList.all (fun c => identCont c && c.toLower == c && Printable table c) &&
    decide (n ∉ reserved)

theorem isPlainIdent_iff (table : Char → Bool) (n : String) :
    isPlainIdent table n = true ↔ PlainIdent table n := by
  have hstart : (match n.toList with | [] => false | d :: _ => identStart d) = true ↔
      ∃ d w, n.toList = d :: w ∧ identStart d = true := by
    cases n.toList with
    | nil => simp only [Bool.false_eq_true, reduceCtorEq, false_and, exists_false]
    | cons d w => simp only [List.cons.injEq, and_assoc, exists_and_left, exists_eq_left']
  unfold isPlainIdent
  simp only [Bool.and_eq_true, hstart, List.all_eq_true, beq_iff_eq, decide_eq_true_eq]
  constructor
  · intro h
    exact ⟨h.1.1, fun c hc => (h.1.2 c hc).1.1, fun c hc => (h.1.2 c hc).1.2,
      fun c hc => (h.1.2 c hc).2, h.2⟩
  · intro h
    exact ⟨⟨h.start, fun c hc => ⟨⟨h.cont c hc, h.lower c hc⟩, h.printable c hc⟩⟩, h.free⟩

instance (table : Char → Bool) (n : String) : Decidable (PlainIdent table n) :=
  decidable_of_iff _ (isPlainIdent_iff table n)

/-- No character of an identifier is a quote or a backslash. -/
theorem PlainIdent.plain {table : Char → Bool} {n : String} (h : PlainIdent table n) :
    Plain table n.toList := by
  intro c hc
  have hcont := h.cont c hc
  refine ⟨?_, ?_, h.printable c hc⟩
  · intro hq
    rw [hq] at hcont
    exact absurd hcont (by decide)
  · intro hb
    rw [hb] at hcont
    exact absurd hcont (by decide)

/-- The printed form of a plain name without its quotes is the name. -/
theorem PlainIdent.stripped {table : Char → Bool} {n : String} (h : PlainIdent table n) :
    (reprText table n).filter (· ≠ '\'') = n.toList := by
  have hplain := h.plain
  have hq : '\'' ∉ n.toList := fun hc => (hplain '\'' hc).1 rfl
  have hdel : delimiter n.toList = '\'' := by
    rw [delimiter, if_neg (fun hc => hq hc.1)]
  rw [reprText, hdel, (body_eq_self_iff table n.toList).mpr hplain]
  -- The two delimiters go, and nothing else is a quote.
  simp only [List.cons_append, List.filter_cons, List.filter_append, ne_eq, not_true_eq_false,
    decide_false, Bool.false_eq_true, if_false, List.filter_nil, List.append_nil]
  exact List.filter_eq_self.mpr (fun c hc => decide_eq_true (fun hcq => hq (hcq ▸ hc)))

theorem PlainIdent.yields {table : Char → Bool} {n : String} (h : PlainIdent table n) :
    Yields n.toList [.ident (truncateIdentifier n.toList)] := by
  rcases h.start with ⟨d, w, hn, hd⟩
  have hmap : (d :: w).map Char.toLower = d :: w := by
    have hid : (d :: w).map Char.toLower = (d :: w).map id :=
      List.map_congr_left (fun c hc => h.lower c (by rw [hn]; exact hc))
    rw [hid, List.map_id]
  have hy := yields_word d w hd
    (List.all_eq_true.mpr (fun e he => h.cont e (by rw [hn]; exact List.mem_cons_of_mem d he)))
  rw [hmap] at hy
  rw [hn]
  exact hy

theorem columnName_short (n : String) :
    truncateIdentifier (columnName n).toList = (columnName n).toList := by
  rw [columnName, String.toList_ofList]
  exact clip_clip 63 n.toList

/-- The length of a name in bytes. -/
def byteLength (n : String) : Nat :=
  (n.toList.map Char.utf8Size).sum

theorem columnName_of_le {n : String} (h : byteLength n ≤ 63) : columnName n = n := by
  unfold columnName truncateIdentifier
  rw [clip_of_le 63 n.toList h, String.ofList_toList]

/-- The reserved words are far below the length limit. -/
theorem reserved_short : ∀ r ∈ reserved, (r.toList.map Char.utf8Size).sum ≤ 17 := by
  decide +kernel

/-- Cutting a plain name leaves a plain name: it keeps its first character,
    and a name that had to be cut is too long to be a reserved word. -/
theorem plainIdent_columnName (table : Char → Bool) (n : String) (h : PlainIdent table n) :
    PlainIdent table (columnName n) := by
  have hsub : (columnName n).toList <+: n.toList := by
    rw [columnName, String.toList_ofList]
    exact clip_sublist 63 n.toList
  rcases h.start with ⟨d, w, hn, hd⟩
  refine ⟨⟨d, clip (63 - d.utf8Size) w, ?_, hd⟩, fun c hc => h.cont c (hsub.subset hc),
    fun c hc => h.lower c (hsub.subset hc), fun c hc => h.printable c (hsub.subset hc), ?_⟩
  · have := d.utf8Size_le_four
    rw [columnName, String.toList_ofList, truncateIdentifier, hn, clip, if_pos (by omega)]
  · intro hres
    have hshort := reserved_short _ hres
    rw [columnName, String.toList_ofList] at hshort
    rcases clip_eq_or 63 n.toList with heq | hlong
    · rw [columnName, truncateIdentifier, heq, String.ofList_toList] at hres
      exact h.free hres
    · rw [truncateIdentifier] at hshort
      omega

/-- The printed column list is a column list, wherever it stands: its tokens
    are a parenthesis and what the grammar reads as these columns. -/
def ColumnsRead (table : Char → Bool) (k cols : List String) : Prop :=
  ∃ T, Yields (wedColumns table k) (.self '(' :: T) ∧
    ∀ ts, parseColumns true (T ++ ts) = some (cols, ts)

theorem parseColumns_commaTokens (ts : List Token) : ∀ (cols : List String), cols ≠ [] →
    (∀ c ∈ cols, c ∉ reserved) →
    parseColumns true (commaTokens (cols.map fun c => [Token.ident c.toList]) ++ .self ')' :: ts)
      = some (cols, ts) := by
  intro cols
  induction cols with
  | nil => intro hne; exact absurd rfl hne
  | cons c cols ih =>
      intro _ hfree
      have hc : columnOf (.ident c.toList) = some c := by
        rw [columnOf, String.ofList_toList, if_neg (hfree c List.mem_cons_self)]
      cases cols with
      | nil =>
          simp only [List.map_cons, List.map_nil, commaTokens, List.singleton_append, parseColumns,
            hc]
      | cons d cols =>
          have hih := ih (List.cons_ne_nil d cols)
            (fun e he => hfree e (List.mem_cons_of_mem c he))
          simp only [List.map_cons] at hih ⊢
          simp only [commaTokens, List.cons_append, List.nil_append, parseColumns, hc, hih]

/-- Deleting the quotes of a printed list of plain names leaves the names. -/
theorem filter_commaSep (table : Char → Bool) (k : List String)
    (h : ∀ n ∈ k, PlainIdent table n) :
    (commaSep (k.map (reprText table))).filter (· ≠ '\'') = commaSep (k.map String.toList) := by
  induction k with
  | nil => rfl
  | cons n k ih =>
      have hn := (h n List.mem_cons_self).stripped
      cases k with
      | nil =>
          simp only [List.map_cons, List.map_nil, commaSep]
          exact hn
      | cons m k =>
          have hih := ih (fun p hp => h p (List.mem_cons_of_mem n hp))
          simp only [List.map_cons] at hih ⊢
          simp only [commaSep, List.filter_append] at hih ⊢
          rw [hn, hih]
          rfl

/-- Two names or more are printed with nothing but commas between them. -/
theorem wedColumns_eq (table : Char → Bool) (k : List String) (hlen : 2 ≤ k.length) :
    wedColumns table k
      = '(' :: (commaSep (k.map (reprText table))).filter (· ≠ '\'') ++ [')'] := by
  have hmap : (k.map Value.str).map (reprValue table) = k.map (reprText table) := by
    rw [List.map_map]
    rfl
  have hts : tupleStr table (k.map Value.str)
      = '(' :: commaSep (k.map (reprText table)) ++ [')'] := by
    rw [← hmap]
    match k, hlen with
    | a :: b :: rest, _ => rfl
  rw [wedColumns, hts, List.cons_append, List.filter_cons, List.filter_append]
  rfl

/-- At least two short plain names print as a column list of themselves. -/
theorem columnsRead_of_plainIdent (table : Char → Bool) (k : List String) (hlen : 2 ≤ k.length)
    (h : ∀ n ∈ k, PlainIdent table n ∧ truncateIdentifier n.toList = n.toList) :
    ColumnsRead table k k := by
  have hne : k ≠ [] := by
    intro hk
    rw [hk, List.length_nil] at hlen
    omega
  have htuple : wedColumns table k = '(' :: commaSep (k.map String.toList) ++ [')'] := by
    rw [wedColumns_eq table k hlen, filter_commaSep table k (fun n hn => (h n hn).1)]
  -- Each name is scanned as one identifier, and the separators as commas.
  have hyields : Yields (commaSep (k.map String.toList))
      (commaTokens (k.map fun c => [Token.ident c.toList])) := by
    refine yields_commaSep _ _ ?_ (by simpa only [ne_eq, List.map_eq_nil_iff] using hne)
    rw [List.forall₂_map_left_iff, List.forall₂_map_right_iff, List.forall₂_same]
    intro n hn
    have hy := (h n hn).1.yields
    rw [(h n hn).2] at hy
    exact hy
  refine ⟨commaTokens (k.map fun c => [Token.ident c.toList]) ++ [.self ')'], ?_, ?_⟩
  · intro c rest hc
    rw [htuple, List.cons_append, List.cons_append, List.append_assoc, List.singleton_append,
      scan_self '(' _ rfl, hyields ')' _ (Or.inr (Or.inl rfl)), scan_self ')' _ rfl,
      Option.map_map, Option.map_map]
    congr 1
    funext ts
    simp only [Function.comp, List.cons_append, List.append_assoc, List.nil_append]
  · intro ts
    rw [List.append_assoc, List.singleton_append]
    exact parseColumns_commaTokens ts k hne (fun c hc => (h c hc).1.free)

/-- A name that is plain whatever is printable above ASCII. -/
theorem PlainIdent.of_ascii {n : String} (h : PlainIdent (fun _ => false) n)
    (table : Char → Bool) : PlainIdent table n := by
  refine ⟨h.start, h.cont, h.lower, fun c hc => ?_, h.free⟩
  have hp := h.printable c hc
  unfold Printable at hp ⊢
  split_ifs at hp ⊢
  rfl

theorem plainIdent_wid (table : Char → Bool) : PlainIdent table "wid" :=
  PlainIdent.of_ascii (by decide +kernel) table

/-- The instance alone is printed with a trailing comma. -/
theorem wedColumns_wid (table : Char → Bool) :
    wedColumns table ["wid"] = ['(', 'w', 'i', 'd', ',', ')'] := by
  have hs := (plainIdent_wid table).stripped
  simp only [wedColumns, List.map_cons, List.map_nil, tupleStr, reprValue, List.cons_append,
    List.filter_cons, List.filter_append, hs]
  rfl

theorem yields_wid (table : Char → Bool) :
    Yields (wedColumns table ["wid"])
      [.self '(', .ident ['w', 'i', 'd'], .self ',', .self ')'] := by
  intro c rest hc
  have hw : Yields ['w', 'i', 'd'] [.ident ['w', 'i', 'd']] :=
    yields_word 'w' ['i', 'd'] (by decide) (by decide)
  have htext : wedColumns table ["wid"] ++ c :: rest
      = '(' :: (['w', 'i', 'd'] ++ ',' :: ')' :: c :: rest) := by
    rw [wedColumns_wid]
    rfl
  rw [htext, scan_self '(' _ rfl, hw ',' _ (Or.inl rfl), scan_self ',' _ rfl, scan_self ')' _ rfl,
    Option.map_map, Option.map_map, Option.map_map]
  rfl

/-- An entry has an attribute or a flag, or else just its instance. -/
theorem entryItems_of_lt {e : Entry} (h : (entryItems e).length < 2) :
    entryItems e = [("wid", .int e.wid)] := by
  unfold entryItems at h ⊢
  rw [List.cons_append, List.length_cons] at h
  have hnil : (e.attrs.map (fun a => (a.1, Value.str a.2)) ++ entryFlags e).length = 0 := by
    omega
  rw [List.cons_append, List.length_eq_zero_iff.mp hnil]

/-- An entry with a readable column list has an attribute or a flag. -/
theorem two_le_of_columnsRead (table : Char → Bool) (e : Entry) (cols : List String)
    (h : ColumnsRead table ((entryItems e).map (·.1)) cols) : 2 ≤ (entryItems e).length := by
  by_contra hlt
  rw [entryItems_of_lt (Nat.lt_of_not_le hlt)] at h
  rcases h with ⟨T, hy, hparse⟩
  -- Python prints `('wid',)`, and the grammar has no place for the last comma.
  have hscan := hy ' ' [] (Or.inr (Or.inr rfl))
  rw [List.map_cons, List.map_nil, yields_wid table ' ' [] (Or.inr (Or.inr rfl))] at hscan
  have hT : T = [.ident ['w', 'i', 'd'], .self ',', .self ')'] := by
    have : some [Token.self '(', .ident ['w', 'i', 'd'], .self ',', .self ')']
        = some (Token.self '(' :: (T ++ [])) := hscan
    simp only [Option.some.injEq, List.cons.injEq, List.append_nil, true_and] at this
    exact this.symm
  have hnone := hparse []
  rw [hT] at hnone
  have hfail : parseColumns true
      ([Token.ident ['w', 'i', 'd'], .self ',', .self ')'] ++ []) = none := by decide
  rw [hfail] at hnone
  exact absurd hnone (by simp only [reduceCtorEq, not_false_eq_true])

/-- Word by word: three words, the column list, one word, the value list. -/
theorem scan_traceText (table : Char → Bool) (e : Entry) (T : List Token)
    (hy : Yields (wedColumns table ((entryItems e).map (·.1))) T) :
    scan .normal (traceText table e)
      = (scan .normal (wedValues table ((entryItems e).map (·.2)))).map fun ts =>
          .ident "insert".toList :: .ident "into".toList :: .ident "wed_trace".toList ::
            (T ++ .ident "values".toList :: ts) := by
  have hblank : Boundary ' ' := Or.inr (Or.inr rfl)
  have hw1 : Yields "INSERT".toList [.ident "insert".toList] :=
    yields_word 'I' "NSERT".toList (by decide) (by decide)
  have hw2 : Yields "INTO".toList [.ident "into".toList] :=
    yields_word 'I' "NTO".toList (by decide) (by decide)
  have hw3 : Yields "wed_trace".toList [.ident "wed_trace".toList] :=
    yields_word 'w' "ed_trace".toList (by decide) (by decide)
  have hw4 : Yields "VALUES".toList [.ident "values".toList] :=
    yields_word 'V' "ALUES".toList (by decide) (by decide)
  generalize hvals : wedValues table ((entryItems e).map (·.2)) = vals
  have htext : traceText table e = "INSERT".toList ++ ' ' :: ("INTO".toList ++ ' ' ::
      ("wed_trace".toList ++ ' ' :: (wedColumns table ((entryItems e).map (·.1)) ++ ' ' ::
        ("VALUES".toList ++ ' ' :: vals)))) := by
    unfold traceText
    rw [hvals]
    have h1 : "INSERT INTO wed_trace ".toList
        = "INSERT".toList ++ ' ' :: ("INTO".toList ++ ' ' :: ("wed_trace".toList ++ [' '])) := by
      decide
    have h2 : " VALUES ".toList = ' ' :: ("VALUES".toList ++ [' ']) := by decide
    rw [h1, h2]
    simp only [List.append_assoc, List.cons_append, List.nil_append]
  rw [htext, hw1 ' ' _ hblank, scan_space, hw2 ' ' _ hblank, scan_space,
    hw3 ' ' _ hblank, scan_space, hy ' ' _ hblank, scan_space, hw4 ' ' _ hblank, scan_space]
  cases scan .normal vals with
  | none => rfl
  | some ts => rfl

/-- The statement is an `INSERT` into these columns, and its value list follows. -/
theorem parseInto_traceText (table : Char → Bool) (e : Entry) (cols : List String)
    (hcols : ColumnsRead table ((entryItems e).map (·.1)) cols) :
    (scan .normal (traceText table e)).bind parseInto
      = (scan .normal (commaSep (((entryItems e).map (·.2)).map (reprValue table)) ++ [')'])).map
          fun ts => ("wed_trace", cols, ts) := by
  have hlen := two_le_of_columnsRead table e cols hcols
  rcases hcols with ⟨T, hy, hparse⟩
  have hvals : wedValues table ((entryItems e).map (·.2))
      = '(' :: (commaSep (((entryItems e).map (·.2)).map (reprValue table)) ++ [')']) := by
    unfold wedValues
    match entryItems e, hlen with
    | a :: b :: rest, _ => rfl
  rw [scan_traceText table e _ hy, hvals, scan_self '(' _ rfl]
  cases scan .normal (commaSep (((entryItems e).map (·.2)).map (reprValue table)) ++ [')']) with
  | none => rfl
  | some ts =>
      simp only [Option.map_some, Option.bind_some, List.cons_append]
      rw [parseInto, if_pos ⟨rfl, rfl⟩, hparse]
      simp only [if_true, String.ofList_toList]

/-- An entry whose statement is an `INSERT` has an attribute or a flag. -/
theorem two_le_of_readRows (table : Char → Bool) (e : Entry) (s : Inserted)
    (h : readRows (traceText table e) = some s) : 2 ≤ (entryItems e).length := by
  by_contra hlt
  have hone := entryItems_of_lt (Nat.lt_of_not_le hlt)
  have hy := yields_wid table
  rw [readRows, scan_traceText table e _ (by rw [hone]; exact hy)] at h
  cases hs : scan .normal (wedValues table ((entryItems e).map (·.2))) with
  | none =>
      rw [hs] at h
      exact absurd h (nomatch ·)
  | some ts =>
      rw [hs, Option.map_some, Option.bind_some] at h
      have hnone : parseInto (.ident "insert".toList :: .ident "into".toList ::
          .ident "wed_trace".toList :: ([.self '(', .ident ['w', 'i', 'd'], .self ',', .self ')'] ++
            .ident "values".toList :: ts)) = none := by
        have hcols : ∀ ts, parseColumns true (.ident ['w', 'i', 'd'] :: .self ',' :: .self ')' :: ts)
            = none := fun ts => rfl
        simp only [List.cons_append, List.nil_append]
        rw [parseInto, if_pos ⟨rfl, rfl⟩, hcols]
      rw [hnone] at h
      exact absurd h (nomatch ·)

/-- The statement is an `INSERT` of what its value list reads as. -/
theorem readInsert_traceText (table : Char → Bool) (e : Entry) (cols : List String)
    (hcols : ColumnsRead table ((entryItems e).map (·.1)) cols) :
    readInsert (traceText table e)
      = ((scan .normal (commaSep (((entryItems e).map (·.2)).map (reprValue table)) ++ [')'])).bind
          (parseValues .item)).map (Statement.mk "wed_trace" cols ·) := by
  have hinto := parseInto_traceText table e cols hcols
  have hread : readInsert (traceText table e)
      = ((scan .normal (traceText table e)).bind parseInto).bind
          fun s => (parseValues .item s.2.2).map (Statement.mk s.1 s.2.1 ·) := by
    rw [Option.bind_assoc]
    rfl
  rw [hread, hinto]
  cases scan .normal (commaSep (((entryItems e).map (·.2)).map (reprValue table)) ++ [')']) with
  | none => rfl
  | some ts => rfl

/-- The statement inserts the rows its value list reads as. -/
theorem readRows_traceText (table : Char → Bool) (e : Entry) (cols : List String)
    (hcols : ColumnsRead table ((entryItems e).map (·.1)) cols) :
    readRows (traceText table e)
      = ((scan .normal (commaSep (((entryItems e).map (·.2)).map (reprValue table)) ++ [')'])).bind
          (parseRows .item)).map (Inserted.mk cols ·) := by
  have hinto := parseInto_traceText table e cols hcols
  have hread : readRows (traceText table e)
      = ((scan .normal (traceText table e)).bind parseInto).bind
          fun s => (parseRows .item s.2.2).map (Inserted.mk s.2.1 ·) := by
    rw [Option.bind_assoc]
    rfl
  rw [hread, hinto]
  cases scan .normal (commaSep (((entryItems e).map (·.2)).map (reprValue table)) ++ [')']) with
  | none => rfl
  | some ts => rfl

/-- A printed set of integers has nothing to escape in it. -/
theorem plain_setStr (table : Char → Bool) (ns : List Int) : Plain table (setStr ns) := by
  -- Digits are plain, and so are the sign and the punctuation.
  have hdigit : ∀ c : Char, c.isDigit = true →
      c ≠ '\'' ∧ c ≠ '\\' ∧ Printable table c = true := by
    intro c hc
    simp only [Char.isDigit, Bool.and_eq_true, decide_eq_true_eq] at hc
    have hlo : 48 ≤ c.toNat := hc.1
    have hhi : c.toNat ≤ 57 := hc.2
    refine ⟨?_, ?_, ?_⟩
    · rintro rfl
      exact absurd hlo (by decide)
    · rintro rfl
      exact absurd hhi (by decide)
    · rw [Printable, if_neg (by omega), if_pos (by omega)]
  have hint : ∀ n, ∀ c ∈ reprInt n, c ≠ '\'' ∧ c ≠ '\\' ∧ Printable table c = true := by
    intro n c hc
    cases n with
    | ofNat n => exact hdigit c (Nat.isDigit_of_mem_toDigits (by omega) (by omega) hc)
    | negSucc n =>
        rcases List.mem_cons.mp hc with rfl | hc
        · exact ⟨by decide, by decide, rfl⟩
        · exact hdigit c (Nat.isDigit_of_mem_toDigits (by omega) (by omega) hc)
  intro c hc
  simp only [setStr, List.cons_append, List.mem_cons, List.mem_append, List.not_mem_nil,
    or_false] at hc
  rcases hc with rfl | hc | rfl
  · exact ⟨by decide, by decide, rfl⟩
  · rcases mem_commaSep hc with rfl | rfl | ⟨x, hx, hcx⟩
    · exact ⟨by decide, by decide, rfl⟩
    · exact ⟨by decide, by decide, rfl⟩
    · rcases List.mem_map.mp hx with ⟨n, -, rfl⟩
      exact hint n c hcx
  · exact ⟨by decide, by decide, rfl⟩

/-- What is printed besides the instance and the attributes. -/
theorem mem_entryFlags {e : Entry} {i : String × Value} (h : i ∈ entryFlags e) :
    (∃ t, i = ("tgid_wrote", .int t)) ∨ i = ("final", .bool true) ∨ i = ("excpt", .bool true) ∨
      i = ("tgid_fired", .str (String.ofList (setStr e.tgidFired))) := by
  simp only [entryFlags, List.mem_append] at h
  rcases h with ((h | h) | h) | h
  · split at h
    · exact .inl ⟨_, List.mem_singleton.mp h⟩
    · exact absurd h List.not_mem_nil
  · split at h
    · exact .inr (.inl (List.mem_singleton.mp h))
    · exact absurd h List.not_mem_nil
  · split at h
    · exact .inr (.inr (.inl (List.mem_singleton.mp h)))
    · exact absurd h List.not_mem_nil
  · split at h
    · exact absurd h List.not_mem_nil
    · exact .inr (.inr (.inr (List.mem_singleton.mp h)))

/-- What is printed besides the attributes is clean. -/
theorem clean_entryFlags (table : Char → Bool) (e : Entry) :
    ∀ i ∈ entryFlags e, Clean table i.2 := by
  intro i hi
  rcases mem_entryFlags hi with ⟨t, rfl⟩ | rfl | rfl | rfl
  · trivial
  · trivial
  · trivial
  · change Plain table (String.ofList (setStr e.tgidFired)).toList
    rw [String.toList_ofList]
    exact plain_setStr table e.tgidFired

/-- An entry is clean when its attribute values are. -/
theorem clean_entry_iff (table : Char → Bool) (e : Entry) :
    (∀ v ∈ (entryItems e).map (·.2), Clean table v)
      ↔ ∀ a ∈ e.attrs, Plain table a.2.toList := by
  constructor
  · intro h a ha
    refine h (.str a.2) (List.mem_map.mpr ⟨(a.1, .str a.2), ?_, rfl⟩)
    unfold entryItems
    exact List.mem_append_left _ (List.mem_cons_of_mem _ (List.mem_map.mpr ⟨a, ha, rfl⟩))
  · intro h v hv
    rcases List.mem_map.mp hv with ⟨i, hi, rfl⟩
    unfold entryItems at hi
    rcases List.mem_append.mp hi with hi | hi
    · rcases List.mem_cons.mp hi with rfl | hi
      · trivial
      · rcases List.mem_map.mp hi with ⟨a, ha, rfl⟩
        exact h a ha
    · exact clean_entryFlags table e i hi

/-- What is printed besides the attributes is one literal each. -/
theorem closed_entry (e : Entry) (h : ∀ a ∈ e.attrs, '\'' ∉ a.2.toList) :
    ∀ v ∈ (entryItems e).map (·.2), Closed v := by
  intro v hv
  rcases List.mem_map.mp hv with ⟨i, hi, rfl⟩
  unfold entryItems at hi
  rcases List.mem_append.mp hi with hi | hi
  · rcases List.mem_cons.mp hi with rfl | hi
    · trivial
    · rcases List.mem_map.mp hi with ⟨a, ha, rfl⟩
      exact h a ha
  · exact ((clean_iff (fun _ => true) i.2).mp (clean_entryFlags _ e i hi)).1

theorem entryItems_ne_nil (e : Entry) : (entryItems e).map (·.2) ≠ [] := by
  unfold entryItems
  simp only [List.cons_append, List.map_cons, ne_eq, reduceCtorEq, not_false_eq_true]

/-- A statement without a single quote in its attribute values inserts one row, with
    every value read back through its printed form. -/
theorem traceText_rows (table : Char → Bool) (e : Entry) (cols : List String)
    (hcols : ColumnsRead table ((entryItems e).map (·.1)) cols)
    (hclosed : ∀ a ∈ e.attrs, '\'' ∉ a.2.toList) :
    readRows (traceText table e)
      = some ⟨cols, [((entryItems e).map (·.2)).map (readBack table)]⟩ := by
  rw [readRows_traceText table e cols hcols,
    rows_read_of_closed table _ (entryItems_ne_nil e) (closed_entry e hclosed)]
  rfl

/-- The value has both kinds of quotes in it. Its own single quote then closes the
    literal it is printed as. -/
def Escapes (v : String) : Prop :=
  '\'' ∈ v.toList ∧ '"' ∈ v.toList

instance : DecidablePred Escapes := fun v =>
  inferInstanceAs (Decidable ('\'' ∈ v.toList ∧ '"' ∈ v.toList))

/-- A statement none of whose attribute values escapes is refused, or has no single
    quote in any of them. -/
theorem closed_of_readRows (table : Char → Bool) (e : Entry) (cols : List String)
    (hcols : ColumnsRead table ((entryItems e).map (·.1)) cols)
    (hheld : ∀ a ∈ e.attrs, ¬ Escapes a.2) (s : Inserted)
    (h : readRows (traceText table e) = some s) : ∀ a ∈ e.attrs, '\'' ∉ a.2.toList := by
  rw [readRows_traceText table e cols hcols] at h
  rcases Option.map_eq_some_iff.mp h with ⟨rows, hrows, -⟩
  have hall : ∀ v ∈ (entryItems e).map (·.2), Held v := by
    intro v hv
    rcases List.mem_map.mp hv with ⟨i, hi, rfl⟩
    unfold entryItems at hi
    rcases List.mem_append.mp hi with hi | hi
    · rcases List.mem_cons.mp hi with rfl | hi
      · trivial
      · rcases List.mem_map.mp hi with ⟨a, ha, rfl⟩
        exact hheld a ha
    · -- The flags have no quotes at all.
      have hclosed := ((clean_iff (fun _ => true) i.2).mp (clean_entryFlags _ e i hi)).1
      cases hv : i.2 with
      | str s =>
          rw [hv] at hclosed
          exact fun hq => hclosed hq.1
      | none =>
          rw [hv] at hclosed
          exact hclosed
      | int n => trivial
      | bool b => trivial
  intro a ha
  refine closed_of_rows table _ hall rows hrows (.str a.2) (List.mem_map.mpr ⟨(a.1, .str a.2), ?_, rfl⟩)
  unfold entryItems
  exact List.mem_append_left _ (List.mem_cons_of_mem _ (List.mem_map.mpr ⟨a, ha, rfl⟩))

/-- The statement reads as the entry itself exactly when every attribute value
    is plain. -/
theorem traceText_faithful_iff (table : Char → Bool) (e : Entry) (cols : List String)
    (hcols : ColumnsRead table ((entryItems e).map (·.1)) cols) :
    readInsert (traceText table e) = some ⟨"wed_trace", cols, (entryItems e).map (·.2)⟩
      ↔ ∀ a ∈ e.attrs, Plain table a.2.toList := by
  rw [readInsert_traceText table e cols hcols, ← clean_entry_iff, ← values_read_iff table]
  · rw [Option.map_eq_some_iff]
    constructor
    · intro h
      rcases h with ⟨vs, hvs, heq⟩
      rw [Statement.mk.injEq] at heq
      rw [heq.2.2] at hvs
      exact hvs
    · intro h
      exact ⟨_, h, rfl⟩
  · exact entryItems_ne_nil e

end WedFlow
