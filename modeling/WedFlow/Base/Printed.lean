import Mathlib.Data.List.Infix
import WedFlow.Base.SqlText

/-!
# Printed Tuples Read as SQL

What PostgreSQL makes of a tuple that Python printed. The two languages agree
on integers, on the booleans and on the punctuation, and they agree on a string
exactly when neither of them has anything to escape in it.

A string without a single quote is printed between single quotes, so it is one
string constant: the constant of its printed body, backslashes and escape
sequences included. That is `Closed`, and `readBack` is what such a value turns
into. A string with a single quote either opens with a double quote, and is an
identifier, or is closed by its own first quote, and then whatever constant the
scanner ends up with still has the backslash in front of that quote where the
string has the quote itself.

`values_read_iff` puts the pieces together: the printed list reads as the list
it was printed from exactly when every string in it is plain.

Only the strings with both kinds of quotes can be read as more than one literal. A list
without them is one row of literals or nothing at all, which is `closed_of_rows`.

## Main definitions

* `Closed`: A value printed as one literal.
* `Clean`: A value printed as a literal that denotes it.
* `printedTokens`: The tokens of a closed value.
* `readBack`: The value those tokens denote.
* `Held`: A value without both kinds of quotes.

## Theorems

* `yields_repr`: A closed value yields its tokens.
* `parse_printedTokens`: Those tokens denote what is read back.
* `clean_iff`: A value is clean when it is closed and reads back as itself.
* `not_read_of_not_closed`: A value that is not closed never reads as itself.
* `values_read_of_closed`: A printed list of closed values reads back.
* `values_read_iff`: A printed list reads as itself exactly when it is clean.
* `rows_read_of_closed`: A printed list of closed values is one row.
* `closed_of_rows`: A printed list without both kinds of quotes in a value is a row of
  closed values, or is not read.
-/

namespace Sql

open Python

/-- The value is printed as one literal. -/
def Closed : Value → Prop
  | .str s => '\'' ∉ s.toList
  | .none => False
  | _ => True

/-- The value is printed as a literal that denotes it. -/
def Clean (table : Char → Bool) : Value → Prop
  | .str s => Plain table s.toList
  | .none => False
  | _ => True

/-- The tokens a closed value is printed as. -/
def printedTokens (table : Char → Bool) : Value → List Token
  | .int (.ofNat n) => [.num (Nat.toDigits 10 n)]
  | .int (.negSucc n) => [.self '-', .num (Nat.toDigits 10 (n + 1))]
  | .str s => [.sconst (body table '\'' s.toList)]
  | .bool true => [.ident ['t', 'r', 'u', 'e']]
  | .bool false => [.ident ['f', 'a', 'l', 's', 'e']]
  | .none => [.ident ['n', 'o', 'n', 'e']]

/-- The value the tokens of a closed value denote. -/
def readBack (table : Char → Bool) : Value → Value
  | .str s => .str (String.ofList (body table '\'' s.toList))
  | v => v

theorem Boundary.emit_num {c : Char} (h : Boundary c) (ds : List Char) :
    next (.num ds) c = emit (.num ds) c := by
  rcases h with rfl | rfl | rfl <;> rfl

theorem Boundary.emit_ident {c : Char} (h : Boundary c) (w : List Char) :
    next (.ident w) c = emit (.ident (truncateIdentifier w)) c := by
  rcases h with rfl | rfl | rfl <;> simp [next, identCont, identStart]

theorem scan_digits (acc ds : List Char) (h : ∀ d ∈ ds, d.isDigit = true) (c : Char)
    (rest : List Char) (hc : Boundary c) :
    scan (.num acc) (ds ++ c :: rest)
      = (scan .normal (c :: rest)).map (Token.num (acc ++ ds) :: ·) := by
  induction ds generalizing acc with
  | nil =>
      rw [List.nil_append, List.append_nil]
      exact scan_of_emit (.num acc) (.num acc) c rest (hc.emit_num acc)
  | cons d ds ih =>
      have hd : d.isDigit = true := h d List.mem_cons_self
      rw [List.cons_append, scan_cons_nil (.num acc) (.num (acc ++ [d])) d _
        (by simp only [next, if_pos hd]), ih (acc ++ [d])
        (fun e he => h e (List.mem_cons_of_mem d he)), List.append_assoc, List.singleton_append]

/-- Digits and letters are kinds of characters that no blank, quote or sign is
    of, so a token starts with them. -/
theorem start_of_kind (kind : Char → Bool)
    (hkind : [' ', '\t', '\n', '\r', '\x0c', '\'', '"', '-', '/', '$'].all (fun e => !kind e) = true)
    (d : Char) (h : kind d = true) :
    start d = if d.isDigit then some ([], .num [d])
      else if identStart d then some ([], .ident [d.toLower])
      else some ([.self d], .normal) := by
  refine start_of_ne d (fun e he heq => ?_)
  have hno := List.all_eq_true.mp hkind e he
  rw [← heq, h] at hno
  exact Bool.false_ne_true hno

theorem start_digit (d : Char) (h : d.isDigit = true) : start d = some ([], .num [d]) := by
  rw [start_of_kind Char.isDigit (by decide) d h, if_pos h]

theorem yields_digits (n : Nat) : Yields (Nat.toDigits 10 n) [.num (Nat.toDigits 10 n)] := by
  intro c rest hc
  have hdig : ∀ d ∈ Nat.toDigits 10 n, d.isDigit = true := fun d hd =>
    Nat.isDigit_of_mem_toDigits (by omega) (by omega) hd
  cases hds : Nat.toDigits 10 n with
  | nil => exact absurd hds Nat.toDigits_ne_nil
  | cons d ds =>
      rw [hds] at hdig
      rw [List.cons_append, scan_cons_nil .normal (.num [d]) d _
        (start_digit d (hdig d List.mem_cons_self)),
        scan_digits [d] ds (fun e he => hdig e (List.mem_cons_of_mem d he)) c rest hc]
      rfl

theorem yields_reprInt (n : Int) :
    Yields (reprInt n) (printedTokens (fun _ => true) (.int n)) := by
  cases n with
  | ofNat n => exact yields_digits n
  | negSucc n =>
      intro c rest hc
      rw [reprInt, List.cons_append, scan_cons_nil .normal .dash '-' _ rfl]
      cases hds : Nat.toDigits 10 (n + 1) with
      | nil => exact absurd hds Nat.toDigits_ne_nil
      | cons d ds =>
          -- A digit after the sign is not a second dash, so no comment starts.
          have hd : d.isDigit = true :=
            Nat.isDigit_of_mem_toDigits (b := 10) (n := n + 1) (by omega) (by omega)
              (by rw [hds]; exact List.mem_cons_self)
          have hne : d ≠ '-' := by
            intro hc'
            rw [hc'] at hd
            exact absurd hd (by decide)
          have hy := yields_digits (n + 1) c rest hc
          rw [hds, List.cons_append] at hy
          rw [List.cons_append, scan_of_emit .dash (.self '-') d _
            (by simp only [next, if_neg hne]), hy, Option.map_map, printedTokens, hds]
          rfl

/-- A word that follows the identifier rules yields itself, folded and cut. -/
theorem scan_word (acc w : List Char) (h : ∀ d ∈ w, identCont d = true) (c : Char)
    (rest : List Char) (hc : Boundary c) :
    scan (.ident acc) (w ++ c :: rest)
      = (scan .normal (c :: rest)).map
          (Token.ident (truncateIdentifier (acc ++ w.map Char.toLower)) :: ·) := by
  induction w generalizing acc with
  | nil =>
      rw [List.nil_append, List.map_nil, List.append_nil]
      exact scan_of_emit (.ident acc) _ c rest (hc.emit_ident acc)
  | cons d w ih =>
      have hd : identCont d = true := h d List.mem_cons_self
      rw [List.cons_append, scan_cons_nil (.ident acc) (.ident (acc ++ [d.toLower])) d _
        (by simp only [next, if_pos hd]), ih (acc ++ [d.toLower])
        (fun e he => h e (List.mem_cons_of_mem d he)), List.map_cons, List.append_assoc,
        List.singleton_append]

theorem start_identStart (d : Char) (h : identStart d = true) :
    start d = some ([], .ident [d.toLower]) := by
  -- The digits are below the letters and the bytes above ASCII.
  have hdigit : ¬ d.isDigit = true := by
    intro hd
    simp only [Char.isDigit, Bool.and_eq_true, decide_eq_true_eq] at hd
    have hlo : 48 ≤ d.toNat := hd.1
    have hhi : d.toNat ≤ 57 := hd.2
    rw [identStart_iff] at h
    omega
  rw [start_of_kind identStart (by decide) d h, if_neg hdigit, if_pos h]

theorem yields_word (d : Char) (w : List Char) (hd : identStart d = true)
    (hw : w.all identCont = true) :
    Yields (d :: w) [.ident (truncateIdentifier ((d :: w).map Char.toLower))] := by
  intro c rest hc
  rw [List.cons_append, scan_cons_nil .normal (.ident [d.toLower]) d _ (start_identStart d hd),
    scan_word [d.toLower] w (List.all_eq_true.mp hw) c rest hc]
  rfl

/-- A string without a single quote is one string constant, its body. -/
theorem yields_reprText (table : Char → Bool) (s : String) (h : '\'' ∉ s.toList) :
    Yields (reprText table s) [.sconst (body table '\'' s.toList)] := by
  intro c rest hc
  have hdel : delimiter s.toList = '\'' := by
    rw [delimiter, if_neg (fun hq => h hq.1)]
  rw [reprText, hdel, List.cons_append, List.cons_append, List.append_assoc, List.singleton_append,
    scan_cons_nil .normal (.str []) '\'' _ rfl,
    scan_str [] _ _ (quote_not_mem_body table '\'' s.toList h), List.nil_append,
    scan_of_emit (.strEnd _) (.sconst (body table '\'' s.toList)) c rest
      (by simp only [next, if_neg hc.ne_quote])]
  rfl

theorem yields_repr (table : Char → Bool) (v : Value) (h : Closed v) :
    Yields (reprValue table v) (printedTokens table v) := by
  cases v with
  | int n =>
      cases n with
      | ofNat n => exact yields_digits n
      | negSucc n => exact yields_reprInt (.negSucc n)
  | str s => exact yields_reprText table s h
  | bool b =>
      cases b with
      | true => exact yields_word 'T' ['r', 'u', 'e'] (by decide) (by decide)
      | false => exact yields_word 'F' ['a', 'l', 's', 'e'] (by decide) (by decide)
  | none => exact absurd h id

theorem parse_printedTokens (table : Char → Bool) (v : Value) (h : Closed v) (ts : List Token) :
    parseValues .item (printedTokens table v ++ ts)
      = (parseValues .separator ts).map (readBack table v :: ·) := by
  cases v with
  | int n =>
      cases n with
      | ofNat n =>
          simp only [printedTokens, List.singleton_append, parseValues,
            Nat.ofDigitChars_ten_toDigits, readBack]
          rfl
      | negSucc n =>
          simp only [printedTokens, List.cons_append, List.nil_append, parseValues,
            Nat.ofDigitChars_ten_toDigits, readBack]
          rfl
  | str s => rfl
  | bool b => cases b <;> rfl
  | none => exact absurd h id

theorem clean_iff (table : Char → Bool) (v : Value) :
    Clean table v ↔ Closed v ∧ readBack table v = v := by
  cases v with
  | int n => simp only [Clean, Closed, readBack, and_self]
  | str s =>
      simp only [Clean, Closed, readBack, Value.str.injEq]
      constructor
      · intro h
        refine ⟨fun hq => (h '\'' hq).1 rfl, ?_⟩
        rw [(body_eq_self_iff table s.toList).mpr h, String.ofList_toList]
      · intro h
        rw [← body_eq_self_iff]
        have := congrArg String.toList h.2
        rwa [String.toList_ofList] at this
  | bool b => simp only [Clean, Closed, readBack, and_self]
  | none => simp only [Clean, Closed, false_and]

/-- A string with a single quote in it is cut short by it. What the scanner
    has read by then is the printed text up to that quote, which has a
    backslash where the string has the quote, and it only ever adds to it. -/
theorem sconst_ne_of_quote (table : Char → Bool) (s : String) (hq : '\'' ∈ s.toList)
    (hd : '"' ∈ s.toList) (cs : List Char) (toks : List Token)
    (h : scan .normal (reprText table s ++ cs) = some toks) :
    ∃ w ts, toks = .sconst w :: ts ∧ w ≠ s.toList := by
  have hdel : delimiter s.toList = '\'' := by
    rw [delimiter, if_neg (fun hc => hc.2 hd)]
  rcases List.eq_append_cons_of_mem hq with ⟨p, q, hs, hp⟩
  have hesc : escapeChar table '\'' '\'' = ['\\', '\''] := by
    rw [escapeChar, if_pos (Or.inl rfl)]
  -- The constant opens, and the first quote of the string closes it.
  have hclosed : '\'' ∉ body table '\'' p ++ ['\\'] := by
    rw [List.mem_append, List.mem_singleton]
    rintro (hm | hm)
    · exact quote_not_mem_body table '\'' p hp hm
    · exact absurd hm (by decide)
  have htext : reprText table s ++ cs
      = '\'' :: ((body table '\'' p ++ ['\\']) ++ '\'' :: (body table '\'' q ++ '\'' :: cs)) := by
    rw [reprText, hdel, hs, body_append, body_cons, hesc]
    simp only [List.cons_append, List.append_assoc, List.nil_append]
  rw [htext, scan_cons_nil .normal (.str []) '\'' _ rfl, scan_str [] _ _ hclosed,
    List.nil_append] at h
  rcases head_of_scan_str _ _ toks (Or.inr h) with ⟨w, ts, hw, hpre⟩
  refine ⟨w, ts, hw, fun hws => ?_⟩
  -- Otherwise the quote would be among the characters read before it.
  rw [hws, hs] at hpre
  have hlen : (p ++ ['\'']).length ≤ (body table '\'' p ++ ['\\']).length := by
    rw [List.length_append, List.length_append]
    have := length_le_body table '\'' p
    simp only [List.length_cons, List.length_nil]
    omega
  have hpq : p ++ ['\''] <+: p ++ '\'' :: q := by
    rw [show p ++ '\'' :: q = (p ++ ['\'']) ++ q by rw [List.append_assoc, List.singleton_append]]
    exact List.prefix_append _ _
  have hmem := (List.prefix_of_prefix_length_le hpq hpre hlen).subset
    (List.mem_append_right p (List.mem_singleton.mpr rfl))
  exact hclosed hmem

/-- A value that is not printed as one literal is never read as itself,
    whatever stands after it. -/
theorem not_read_of_not_closed (table : Char → Bool) (v : Value) (h : ¬ Closed v) (c : Char)
    (hc : Boundary c) (rest : List Char) (vs : List Value) :
    (scan .normal (reprValue table v ++ c :: rest)).bind (parseValues .item) ≠ some (v :: vs) := by
  intro hread
  rw [Option.bind_eq_some_iff] at hread
  rcases hread with ⟨toks, htoks, hparse⟩
  cases v with
  | int n => exact h trivial
  | bool b => exact h trivial
  | none =>
      -- The bare word is an identifier, and no literal.
      have hy := yields_word 'N' ['o', 'n', 'e'] (by decide) (by decide) c rest hc
      change scan .normal (reprValue table .none ++ c :: rest) = _ at hy
      rw [hy, Option.map_eq_some_iff] at htoks
      rcases htoks with ⟨ts, -, rfl⟩
      have hnone : parseValues .item
          ([Token.ident (truncateIdentifier (['N', 'o', 'n', 'e'].map Char.toLower))] ++ ts)
          = none := rfl
      rw [hnone] at hparse
      exact absurd hparse (by simp only [reduceCtorEq, not_false_eq_true])
  | str s =>
      have hq : '\'' ∈ s.toList := not_not.mp h
      by_cases hd : '"' ∈ s.toList
      · rcases sconst_ne_of_quote table s hq hd _ toks htoks with ⟨w, ts, rfl, hne⟩
        simp only [parseValues, Option.map_eq_some_iff, List.cons.injEq, Value.str.injEq] at hparse
        rcases hparse with ⟨_, -, hw, -⟩
        exact hne (by rw [← hw, String.toList_ofList])
      · -- Double quotes around it make it an identifier.
        have hdel : delimiter s.toList = '"' := by
          rw [delimiter, if_pos ⟨hq, hd⟩]
        rw [reprValue, reprText, hdel, List.cons_append, List.cons_append,
          scan_cons_nil .normal (.quoted []) '"' _ rfl] at htoks
        rcases head_of_scan_quoted _ _ toks (Or.inl htoks) with ⟨w, ts, rfl⟩
        simp only [parseValues, reduceCtorEq] at hparse

/-- The separator after a closed value, and the list after that. -/
theorem read_cons_of_closed (table : Char → Bool) (v : Value) (h : Closed v) (cs : List Char) :
    (scan .normal (reprValue table v ++ ',' :: ' ' :: cs)).bind (parseValues .item)
      = ((scan .normal cs).bind (parseValues .item)).map (readBack table v :: ·) := by
  rw [yields_repr table v h ',' (' ' :: cs) (Or.inl rfl), scan_self ',' (' ' :: cs) rfl, scan_space]
  cases scan .normal cs with
  | none => rfl
  | some ts =>
      simp only [Option.map_some, Option.bind_some]
      rw [parse_printedTokens table v h, parseValues]

/-- The close of the list after a closed value. -/
theorem read_singleton_of_closed (table : Char → Bool) (v : Value) (h : Closed v) :
    (scan .normal (reprValue table v ++ [')'])).bind (parseValues .item)
      = some [readBack table v] := by
  rw [yields_repr table v h ')' [] (Or.inr (Or.inl rfl)), scan_self ')' [] rfl]
  simp only [scan, finish, Option.map_some, Option.bind_some]
  rw [parse_printedTokens table v h, parseValues]
  rfl

theorem commaSep_cons (x y : List Char) (rest : List (List Char)) (cs : List Char) :
    commaSep (x :: y :: rest) ++ cs = x ++ ',' :: ' ' :: (commaSep (y :: rest) ++ cs) := by
  simp only [commaSep, List.append_assoc, List.cons_append, List.nil_append]

/-- A printed list of closed values reads as what they read back as. -/
theorem values_read_of_closed (table : Char → Bool) (vs : List Value) (hne : vs ≠ [])
    (h : ∀ v ∈ vs, Closed v) :
    (scan .normal (commaSep (vs.map (reprValue table)) ++ [')'])).bind (parseValues .item)
      = some (vs.map (readBack table)) := by
  induction vs with
  | nil => exact absurd rfl hne
  | cons v vs ih =>
      have hv : Closed v := h v List.mem_cons_self
      cases vs with
      | nil => exact read_singleton_of_closed table v hv
      | cons w vs =>
          have hih := ih (List.cons_ne_nil w vs) (fun u hu => h u (List.mem_cons_of_mem v hu))
          simp only [List.map_cons] at hih ⊢
          rw [commaSep_cons, read_cons_of_closed table v hv, hih]
          rfl

/-- A printed list reads as the list it was printed from exactly when every
    value in it is clean. -/
theorem values_read_iff (table : Char → Bool) (vs : List Value) (hne : vs ≠ []) :
    (scan .normal (commaSep (vs.map (reprValue table)) ++ [')'])).bind (parseValues .item)
      = some vs ↔ ∀ v ∈ vs, Clean table v := by
  induction vs with
  | nil => exact absurd rfl hne
  | cons v vs ih =>
      constructor
      · intro hread
        -- The first value has to be closed, or it would not read as itself.
        have hv : Closed v := by
          by_contra hc
          cases vs with
          | nil => exact not_read_of_not_closed table v hc ')' (Or.inr (Or.inl rfl)) [] [] hread
          | cons w vs =>
              simp only [List.map_cons] at hread
              rw [commaSep_cons] at hread
              exact not_read_of_not_closed table v hc ',' (Or.inl rfl) _ _ hread
        cases vs with
        | nil =>
            simp only [List.map_cons, List.map_nil, commaSep] at hread
            rw [read_singleton_of_closed table v hv] at hread
            simp only [Option.some.injEq, List.cons.injEq, and_true] at hread
            intro u hu
            rw [List.mem_singleton.mp hu]
            exact (clean_iff table v).mpr ⟨hv, hread⟩
        | cons w vs =>
            simp only [List.map_cons] at hread
            rw [commaSep_cons, read_cons_of_closed table v hv, Option.map_eq_some_iff] at hread
            rcases hread with ⟨us, hus, heq⟩
            simp only [List.cons.injEq] at heq
            rw [heq.2] at hus
            have hrest := (ih (List.cons_ne_nil w vs)).mp hus
            intro u hu
            rcases List.mem_cons.mp hu with rfl | hu
            · exact (clean_iff table u).mpr ⟨hv, heq.1⟩
            · exact hrest u hu
      · intro hclean
        have hclosed : ∀ u ∈ v :: vs, Closed u := fun u hu =>
          ((clean_iff table u).mp (hclean u hu)).1
        rw [values_read_of_closed table (v :: vs) hne hclosed]
        have hself : (v :: vs).map (readBack table) = (v :: vs).map id :=
          List.map_congr_left (fun u hu => ((clean_iff table u).mp (hclean u hu)).2)
        rw [hself, List.map_id]

/-! ## Rows -/

/-- The value does not have both kinds of quotes in it, so nothing in it is printed
    with a backslash in front of a quote. -/
def Held : Value → Prop
  | .str s => ¬ ('\'' ∈ s.toList ∧ '"' ∈ s.toList)
  | .none => False
  | _ => True

theorem rows_printedTokens (table : Char → Bool) (v : Value) (h : Closed v) (ts : List Token) :
    parseRows .item (printedTokens table v ++ ts)
      = (parseRows .separator ts).map (consRow (readBack table v)) := by
  cases v with
  | int n =>
      cases n with
      | ofNat n =>
          simp only [printedTokens, List.singleton_append, parseRows, literalOf, Option.bind_some,
            Nat.ofDigitChars_ten_toDigits, readBack]
          rfl
      | negSucc n =>
          simp only [printedTokens, List.cons_append, List.nil_append, parseRows,
            Nat.ofDigitChars_ten_toDigits, readBack]
          rfl
  | str s => rfl
  | bool b => cases b <;> rfl
  | none => exact absurd h id

/-- The separator after a closed value, and the rest of the row after that. -/
theorem rows_cons_of_closed (table : Char → Bool) (v : Value) (h : Closed v) (cs : List Char) :
    (scan .normal (reprValue table v ++ ',' :: ' ' :: cs)).bind (parseRows .item)
      = ((scan .normal cs).bind (parseRows .item)).map (consRow (readBack table v)) := by
  rw [yields_repr table v h ',' (' ' :: cs) (Or.inl rfl), scan_self ',' (' ' :: cs) rfl, scan_space]
  cases scan .normal cs with
  | none => rfl
  | some ts =>
      simp only [Option.map_some, Option.bind_some]
      rw [rows_printedTokens table v h, parseRows]

theorem rows_singleton_of_closed (table : Char → Bool) (v : Value) (h : Closed v) :
    (scan .normal (reprValue table v ++ [')'])).bind (parseRows .item)
      = some [[readBack table v]] := by
  rw [yields_repr table v h ')' [] (Or.inr (Or.inl rfl)), scan_self ')' [] rfl]
  simp only [scan, finish, Option.map_some, Option.bind_some]
  rw [rows_printedTokens table v h, parseRows, parseRows]
  rfl

/-- A printed list of closed values is one row of what they read back as. -/
theorem rows_read_of_closed (table : Char → Bool) (vs : List Value) (hne : vs ≠ [])
    (h : ∀ v ∈ vs, Closed v) :
    (scan .normal (commaSep (vs.map (reprValue table)) ++ [')'])).bind (parseRows .item)
      = some [vs.map (readBack table)] := by
  induction vs with
  | nil => exact absurd rfl hne
  | cons v vs ih =>
      have hv : Closed v := h v List.mem_cons_self
      cases vs with
      | nil => exact rows_singleton_of_closed table v hv
      | cons w vs =>
          have hih := ih (List.cons_ne_nil w vs) (fun u hu => h u (List.mem_cons_of_mem v hu))
          simp only [List.map_cons] at hih ⊢
          rw [commaSep_cons, rows_cons_of_closed table v hv, hih]
          rfl

/-- A value that is held and not closed is printed between double quotes, and no list
    of literals has such a thing in it. -/
theorem rows_of_not_closed (table : Char → Bool) (v : Value) (h : Held v) (hc : ¬ Closed v)
    (cs : List Char) : (scan .normal (reprValue table v ++ cs)).bind (parseRows .item) = none := by
  cases v with
  | int n => exact absurd trivial hc
  | bool b => exact absurd trivial hc
  | none => exact absurd h id
  | str s =>
      have hq : '\'' ∈ s.toList := not_not.mp hc
      have hdel : delimiter s.toList = '"' := by
        rw [delimiter, if_pos ⟨hq, fun hd => h ⟨hq, hd⟩⟩]
      rw [reprValue, reprText, hdel, List.cons_append, List.cons_append,
        scan_cons_nil .normal (.quoted []) '"' _ rfl]
      cases htoks : scan (.quoted []) (body table '"' s.toList ++ ['"'] ++ cs) with
      | none => rfl
      | some toks =>
          rcases head_of_scan_quoted _ _ toks (Or.inl htoks) with ⟨w, ts, rfl⟩
          rfl

/-- What is printed and read as rows had no quotes in it, unless it had both kinds. -/
theorem closed_of_rows (table : Char → Bool) (vs : List Value) (h : ∀ v ∈ vs, Held v)
    (rows : List (List Value))
    (hread : (scan .normal (commaSep (vs.map (reprValue table)) ++ [')'])).bind (parseRows .item)
      = some rows) : ∀ v ∈ vs, Closed v := by
  induction vs generalizing rows with
  | nil => exact fun v hv => absurd hv List.not_mem_nil
  | cons v vs ih =>
      have hv := h v List.mem_cons_self
      have htext : ∃ cs, commaSep ((v :: vs).map (reprValue table)) ++ [')']
          = reprValue table v ++ cs := by
        cases vs with
        | nil => exact ⟨_, rfl⟩
        | cons w vs => exact ⟨_, commaSep_cons _ _ _ _⟩
      -- The first value that is not closed would stop the reading.
      have hc : Closed v := by
        by_contra hc
        rcases htext with ⟨cs, hcs⟩
        rw [hcs, rows_of_not_closed table v hv hc] at hread
        exact absurd hread (nomatch ·)
      refine List.forall_mem_cons.mpr ⟨hc, ?_⟩
      cases vs with
      | nil => exact fun u hu => absurd hu List.not_mem_nil
      | cons w vs =>
          simp only [List.map_cons] at hread
          rw [commaSep_cons, rows_cons_of_closed table v hc, Option.map_eq_some_iff] at hread
          rcases hread with ⟨rest, hrest, -⟩
          exact ih (fun u hu => h u (List.mem_cons_of_mem v hu)) rest hrest

end Sql
