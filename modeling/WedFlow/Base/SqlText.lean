import Mathlib.Data.List.Infix
import WedFlow.Base.PyRepr

/-!
# Reading SQL Text

The part of the PostgreSQL scanner that a printed tuple can reach, with
`standard_conforming_strings` on, and the grammar of one `INSERT` of literals.

The scanner is a transducer: a mode, and for every mode and character the
tokens that are finished there and the mode that follows. Nothing is ever put
back, so it runs by recursion over the text, and the effect of a piece of text
can be stated on its own and composed. Three modes deserve a remark. A single
quote inside a string constant may close it or be the first of a doubled one,
which is only known at the next character, hence `strEnd`; a backslash there is
an ordinary character. A double-quoted word is an identifier, never a value.
Comments are skipped, to the end of the line or to the matching close.

Constructs that open with a dollar sign, and string constants that open with a
letter, are refused; so are numbers with a fraction or an exponent. Operators
come out one character at a time, which is all the grammar below asks.

The grammar is that of `INSERT INTO table (columns) VALUES (literals)` with
nothing after it. A literal is an integer with or without a sign, a string
constant, or a boolean or null keyword. What is read is one row of literals
(`readInsert`), or any number of rows with their literals (`readRows`): a text that
closes its own literal can go on to a second row.

## Main definitions

* `Token`: A finished token.
* `Mode`: What the scanner is in the middle of.
* `start`: What a character does between tokens.
* `next`: What a character does in a mode.
* `finish`: What the end of the text does in a mode.
* `scan`: The tokens of a text.
* `reserved`: The keywords that cannot name a column.
* `parseColumns`: A parenthesised column list.
* `parseValues`: A parenthesised list of literals that ends the text.
* `readInsert`: A whole `INSERT` of one row.
* `literalOf`, `parseRows`, `parseInto`: The same, cut into a head and rows.
* `readRows`: A whole `INSERT` of any number of rows.
* `Yields`: A piece of text is these tokens wherever a token may end after it.

## Theorems

* `identStart_iff`, `identCont_iff`: The characters of words, by code point.
* `start_of_ne`: What a token starts with.
* `clip_of_le`, `clip_clip`, `clip_sublist`, `clip_eq_or`: Cutting a text.
* `scan_str`: A quote-free text inside a string constant is copied.
* `head_of_scan_str`: Whatever follows, the constant keeps what was read.
* `head_of_scan_quoted`: A text in double quotes is an identifier.
* `yields_commaSep`: Comma-separated pieces yield their tokens with commas.
-/

namespace Sql

/-- A finished token. Unquoted words are folded to lower case. -/
inductive Token where
  | ident (w : List Char)
  | quoted (w : List Char)
  | sconst (s : List Char)
  | num (ds : List Char)
  | self (c : Char)
deriving DecidableEq, Repr

/-- What the scanner is in the middle of. -/
inductive Mode where
  | normal
  | str (acc : List Char)
  | strEnd (acc : List Char)
  | ident (acc : List Char)
  | num (acc : List Char)
  | quoted (acc : List Char)
  | quotedEnd (acc : List Char)
  | dash
  | lineComment
  | slash
  | block (depth : Nat)
  | blockStar (depth : Nat)
  | blockSlash (depth : Nat)
deriving DecidableEq, Repr

def isSpace (c : Char) : Bool :=
  c = ' ' || c = '\t' || c = '\n' || c = '\r' || c = '\x0c'

def identStart (c : Char) : Bool :=
  c.isAlpha || c = '_' || 0x80 ≤ c.toNat

def identCont (c : Char) : Bool :=
  identStart c || c.isDigit || c = '$'

/-- Keep the longest prefix of at most `n` bytes of UTF-8. -/
def clip : Nat → List Char → List Char
  | _, [] => []
  | n, c :: cs => if c.utf8Size ≤ n then c :: clip (n - c.utf8Size) cs else []

/-- An identifier keeps its first 63 bytes. -/
def truncateIdentifier (w : List Char) : List Char :=
  clip 63 w

/-- A character met between tokens. -/
def start (c : Char) : Option (List Token × Mode) :=
  if isSpace c then some ([], .normal)
  else if c = '\'' then some ([], .str [])
  else if c = '"' then some ([], .quoted [])
  else if c = '-' then some ([], .dash)
  else if c = '/' then some ([], .slash)
  else if c = '$' then none
  else if c.isDigit then some ([], .num [c])
  else if identStart c then some ([], .ident [c.toLower])
  else some ([.self c], .normal)

/-- Finish a token and go on with the character that ended it. -/
def emit (t : Token) (c : Char) : Option (List Token × Mode) :=
  (start c).map fun r => (t :: r.1, r.2)

/-- A character met in a mode: the tokens it finishes, and the mode after it. -/
def next : Mode → Char → Option (List Token × Mode)
  | .normal, c => start c
  | .str acc, c => if c = '\'' then some ([], .strEnd acc) else some ([], .str (acc ++ [c]))
  | .strEnd acc, c => if c = '\'' then some ([], .str (acc ++ [c])) else emit (.sconst acc) c
  | .ident acc, c =>
    if identCont c then some ([], .ident (acc ++ [c.toLower]))
    -- B'..', E'..', N'..', X'..' and U&'..' open other kinds of constants.
    else if c = '\'' ∧ acc ∈ [['b'], ['e'], ['n'], ['x']] then none
    else if c = '&' ∧ acc = ['u'] then none
    else emit (.ident (truncateIdentifier acc)) c
  | .num acc, c =>
    if c.isDigit then some ([], .num (acc ++ [c]))
    else if c = '.' ∨ c = 'e' ∨ c = 'E' then none
    else emit (.num acc) c
  | .quoted acc, c => if c = '"' then some ([], .quotedEnd acc) else some ([], .quoted (acc ++ [c]))
  | .quotedEnd acc, c =>
    if c = '"' then some ([], .quoted (acc ++ [c]))
    else if acc = [] then none
    else emit (.quoted (truncateIdentifier acc)) c
  | .dash, c => if c = '-' then some ([], .lineComment) else emit (.self '-') c
  | .lineComment, c => if c = '\n' ∨ c = '\r' then some ([], .normal) else some ([], .lineComment)
  | .slash, c => if c = '*' then some ([], .block 0) else emit (.self '/') c
  | .block d, c =>
    if c = '*' then some ([], .blockStar d)
    else if c = '/' then some ([], .blockSlash d)
    else some ([], .block d)
  | .blockStar d, c =>
    if c = '/' then some ([], if d = 0 then .normal else .block (d - 1))
    else if c = '*' then some ([], .blockStar d)
    else some ([], .block d)
  | .blockSlash d, c =>
    if c = '*' then some ([], .block (d + 1))
    else if c = '/' then some ([], .blockSlash d)
    else some ([], .block d)

/-- The end of the text in a mode; an open quote or comment is an error. -/
def finish : Mode → Option (List Token)
  | .normal => some []
  | .str _ => none
  | .strEnd acc => some [.sconst acc]
  | .ident acc => some [.ident (truncateIdentifier acc)]
  | .num acc => some [.num acc]
  | .quoted _ => none
  | .quotedEnd acc => if acc = [] then none else some [.quoted (truncateIdentifier acc)]
  | .dash => some [.self '-']
  | .lineComment => some []
  | .slash => some [.self '/']
  | .block _ => none
  | .blockStar _ => none
  | .blockSlash _ => none

/-- The tokens of a text, or nothing if the scanner refuses it. -/
def scan : Mode → List Char → Option (List Token)
  | m, [] => finish m
  | m, c :: cs =>
    match next m c with
    | none => none
    | some (ts, m') => (scan m' cs).map (ts ++ ·)

/-- The keywords that are refused as the name of a column. -/
def reserved : List String :=
  ["all", "analyse", "analyze", "and", "any", "array", "as", "asc", "asymmetric", "authorization",
   "binary", "both", "case", "cast", "check", "collate", "collation", "column", "concurrently",
   "constraint", "create", "cross", "current_catalog", "current_date", "current_role",
   "current_schema", "current_time", "current_timestamp", "current_user", "default", "deferrable",
   "desc", "distinct", "do", "else", "end", "except", "false", "fetch", "for", "foreign", "freeze",
   "from", "full", "grant", "group", "having", "ilike", "in", "initially", "inner", "intersect",
   "into", "is", "isnull", "join", "lateral", "leading", "left", "like", "limit", "localtime",
   "localtimestamp", "natural", "not", "notnull", "null", "offset", "on", "only", "or", "order",
   "outer", "overlaps", "placing", "primary", "references", "returning", "right", "select",
   "session_user", "similar", "some", "symmetric", "table", "then", "to", "trailing", "true",
   "union", "unique", "user", "using", "variadic", "verbose", "when", "where", "window", "with"]

/-- The column a token names, if it may stand in a column list. -/
def columnOf : Token → Option String
  | .ident w => if String.ofList w ∈ reserved then none else some (String.ofList w)
  | .quoted w => some (String.ofList w)
  | _ => none

/-- A column list after its opening parenthesis, and what follows its close.
    The flag says whether a name or a separator is expected. -/
def parseColumns : Bool → List Token → Option (List String × List Token)
  | true, t :: ts =>
    match columnOf t, parseColumns false ts with
    | some c, some (cs, rest) => some (c :: cs, rest)
    | _, _ => none
  | false, .self ',' :: ts => parseColumns true ts
  | false, .self ')' :: ts => some ([], ts)
  | _, _ => none

/-- Where a list of literals stands: `row` is behind its close. -/
inductive Place where
  | item
  | minus
  | separator
  | row
deriving DecidableEq, Repr

/-- A list of literals after its opening parenthesis, closed where the text
    ends. -/
def parseValues : Place → List Token → Option (List Python.Value)
  | .item, .num ds :: ts =>
    (parseValues .separator ts).map (Python.Value.int (Nat.ofDigitChars 10 ds 0) :: ·)
  | .item, .sconst s :: ts =>
    (parseValues .separator ts).map (Python.Value.str (String.ofList s) :: ·)
  | .item, .ident w :: ts =>
    if w = ['t', 'r', 'u', 'e'] then
      (parseValues .separator ts).map (Python.Value.bool true :: ·)
    else if w = ['f', 'a', 'l', 's', 'e'] then
      (parseValues .separator ts).map (Python.Value.bool false :: ·)
    else if w = ['n', 'u', 'l', 'l'] then
      (parseValues .separator ts).map (Python.Value.none :: ·)
    else none
  | .item, .self '-' :: ts => parseValues .minus ts
  | .minus, .num ds :: ts =>
    (parseValues .separator ts).map (Python.Value.int (-(Nat.ofDigitChars 10 ds 0 : Nat)) :: ·)
  | .separator, .self ',' :: ts => parseValues .item ts
  | .separator, [.self ')'] => some []
  | _, _ => none

/-- The literal a token is by itself. -/
def literalOf : Token → Option Python.Value
  | .num ds => some (.int (Nat.ofDigitChars 10 ds 0))
  | .sconst s => some (.str (String.ofList s))
  | .ident w =>
    if w = ['t', 'r', 'u', 'e'] then some (.bool true)
    else if w = ['f', 'a', 'l', 's', 'e'] then some (.bool false)
    else if w = ['n', 'u', 'l', 'l'] then some .none
    else none
  | _ => none

/-- Put a literal in front of the first of some rows. -/
def consRow (v : Python.Value) : List (List Python.Value) → List (List Python.Value)
  | r :: rs => (v :: r) :: rs
  | [] => [[v]]

/-- Lists of literals with commas between them, after the first opening parenthesis. The
    text ends behind the last of them, but for semicolons. -/
def parseRows : Place → List Token → Option (List (List Python.Value))
  | .item, .self '-' :: ts => parseRows .minus ts
  | .item, t :: ts => (literalOf t).bind fun v => (parseRows .separator ts).map (consRow v)
  | .minus, .num ds :: ts =>
    (parseRows .separator ts).map (consRow (.int (-(Nat.ofDigitChars 10 ds 0 : Nat))))
  | .separator, .self ',' :: ts => parseRows .item ts
  | .separator, .self ')' :: ts => (parseRows .row ts).map ([] :: ·)
  | .row, [] => some []
  | .row, .self ',' :: .self '(' :: ts => parseRows .item ts
  | .row, .self ';' :: ts => if ts.all (· = .self ';') then some [] else none
  | _, _ => none

/-- An `INSERT` up to its first list of literals: the table, its columns, and what
    follows the opening parenthesis. -/
def parseInto : List Token → Option (String × List String × List Token)
  | .ident kw₁ :: .ident kw₂ :: .ident t :: .self '(' :: ts =>
    if kw₁ = "insert".toList ∧ kw₂ = "into".toList then
      match parseColumns true ts with
      | some (cols, .ident kw₃ :: .self '(' :: rest) =>
        if kw₃ = "values".toList then some (String.ofList t, cols, rest) else none
      | _ => none
    else none
  | _ => none

/-- One `INSERT` of literals: the table, its columns, and the values. -/
structure Statement where
  table : String
  columns : List String
  values : List Python.Value
deriving DecidableEq, Repr

/-- One `INSERT` of one list of literals and nothing else. -/
def parseInsert (ts : List Token) : Option Statement :=
  (parseInto ts).bind fun s => (parseValues .item s.2.2).map (Statement.mk s.1 s.2.1 ·)

/-- The statement a text is, if it is one `INSERT` of one list of literals. -/
def readInsert (text : List Char) : Option Statement :=
  (scan .normal text).bind parseInsert

/-- An `INSERT` of any number of rows: the columns, and the rows. -/
structure Inserted where
  columns : List String
  rows : List (List Python.Value)
deriving DecidableEq, Repr

/-- What a text inserts, if it is one `INSERT` of literals. -/
def readRows (text : List Char) : Option Inserted :=
  (scan .normal text).bind fun ts =>
    (parseInto ts).bind fun s => (parseRows .item s.2.2).map (Inserted.mk s.2.1 ·)

/-- The characters that follow a token in printed text. -/
def Boundary (c : Char) : Prop :=
  c = ',' ∨ c = ')' ∨ c = ' '

/-- A piece of text is these tokens, whenever a boundary follows it. -/
def Yields (x : List Char) (T : List Token) : Prop :=
  ∀ c rest, Boundary c →
    scan .normal (x ++ c :: rest) = (scan .normal (c :: rest)).map (T ++ ·)

/-- Tokens with commas between them. -/
def commaTokens : List (List Token) → List Token
  | [] => []
  | [T] => T
  | T :: U :: rest => T ++ .self ',' :: commaTokens (U :: rest)

theorem char_eq_iff (c d : Char) : c = d ↔ c.toNat = d.toNat :=
  ⟨congrArg Char.toNat, fun h => Char.ext (UInt32.toNat_inj.mp h)⟩

/-- The characters that start a word, by code point. -/
theorem identStart_iff (c : Char) : identStart c = true ↔
    (65 ≤ c.toNat ∧ c.toNat ≤ 90) ∨ (97 ≤ c.toNat ∧ c.toNat ≤ 122) ∨ c.toNat = 95 ∨
      128 ≤ c.toNat := by
  unfold identStart Char.isAlpha Char.isUpper Char.isLower
  simp only [Bool.or_eq_true, Bool.and_eq_true, decide_eq_true_eq, char_eq_iff c '_', or_assoc]
  rfl

/-- The characters that go on with a word, by code point. -/
theorem identCont_iff (c : Char) : identCont c = true ↔
    identStart c = true ∨ (48 ≤ c.toNat ∧ c.toNat ≤ 57) ∨ c.toNat = 36 := by
  unfold identCont Char.isDigit
  simp only [Bool.or_eq_true, Bool.and_eq_true, decide_eq_true_eq, char_eq_iff c '$', or_assoc]
  rfl

/-- What starts with none of the characters that mean something of their own is a
    number, a word, or a character by itself. -/
theorem start_of_ne (d : Char)
    (h : ∀ e ∈ [' ', '\t', '\n', '\r', '\x0c', '\'', '"', '-', '/', '$'], d ≠ e) :
    start d = if d.isDigit then some ([], .num [d])
      else if identStart d then some ([], .ident [d.toLower])
      else some ([.self d], .normal) := by
  simp only [List.forall_mem_cons] at h
  rcases h with ⟨h1, h2, h3, h4, h5, h6, h7, h8, h9, h10, -⟩
  have hspace : ¬ isSpace d = true := by
    simp only [isSpace, Bool.or_eq_true, decide_eq_true_eq, not_or]
    exact ⟨⟨⟨⟨h1, h2⟩, h3⟩, h4⟩, h5⟩
  rw [start, if_neg hspace, if_neg h6, if_neg h7, if_neg h8, if_neg h9, if_neg h10]

/-- Cutting a text either leaves it whole or leaves more than the limit less
    one character of at most four bytes. -/
theorem clip_eq_or (n : Nat) (w : List Char) :
    clip n w = w ∨ n < ((clip n w).map Char.utf8Size).sum + 4 := by
  induction w generalizing n with
  | nil => exact Or.inl rfl
  | cons c w ih =>
      rw [clip]
      by_cases hc : c.utf8Size ≤ n
      · rw [if_pos hc]
        rcases ih (n - c.utf8Size) with h | h
        · exact Or.inl (by rw [h])
        · right
          rw [List.map_cons, List.sum_cons]
          omega
      · rw [if_neg hc]
        right
        have := c.utf8Size_le_four
        rw [List.map_nil, List.sum_nil]
        omega

theorem clip_sublist (n : Nat) (w : List Char) : clip n w <+: w := by
  induction w generalizing n with
  | nil => exact List.prefix_refl []
  | cons c w ih =>
      rw [clip]
      split
      · exact (List.cons_prefix_cons).mpr ⟨rfl, ih _⟩
      · exact List.nil_prefix

theorem clip_clip (n : Nat) (w : List Char) : clip n (clip n w) = clip n w := by
  induction w generalizing n with
  | nil => rfl
  | cons c w ih =>
      rw [clip]
      by_cases hc : c.utf8Size ≤ n
      · rw [if_pos hc, clip, if_pos hc, ih]
      · rw [if_neg hc, clip]

theorem clip_of_le (n : Nat) (w : List Char) (h : (w.map Char.utf8Size).sum ≤ n) :
    clip n w = w := by
  induction w generalizing n with
  | nil => rfl
  | cons c w ih =>
      rw [List.map_cons, List.sum_cons] at h
      rw [clip, if_pos (by omega), ih _ (by omega)]

theorem scan_cons_nil (m m' : Mode) (c : Char) (cs : List Char) (h : next m c = some ([], m')) :
    scan m (c :: cs) = scan m' cs := by
  rw [scan, h]
  change (scan m' cs).map ([] ++ ·) = scan m' cs
  simp only [List.nil_append, Option.map_id']

/-- A character that ends a token is then read as if between tokens. -/
theorem scan_of_emit (m : Mode) (t : Token) (c : Char) (cs : List Char)
    (h : next m c = emit t c) :
    scan m (c :: cs) = (scan .normal (c :: cs)).map (t :: ·) := by
  rw [scan, scan, h]
  simp only [emit, next]
  cases start c with
  | none => rfl
  | some r =>
      simp only [Option.map_some]
      cases scan r.2 cs with
      | none => rfl
      | some ts => rfl

theorem scan_self (c : Char) (cs : List Char) (h : start c = some ([.self c], .normal)) :
    scan .normal (c :: cs) = (scan .normal cs).map (Token.self c :: ·) := by
  rw [scan, next, h]
  rfl

theorem scan_space (cs : List Char) : scan .normal (' ' :: cs) = scan .normal cs :=
  scan_cons_nil .normal .normal ' ' cs rfl

/-- A quote-free text inside a string constant is copied up to the quote. -/
theorem scan_str (acc b rest : List Char) (h : '\'' ∉ b) :
    scan (.str acc) (b ++ '\'' :: rest) = scan (.strEnd (acc ++ b)) rest := by
  induction b generalizing acc with
  | nil =>
      rw [List.nil_append, List.append_nil]
      exact scan_cons_nil (.str acc) (.strEnd acc) '\'' rest (by simp only [next, if_true])
  | cons c b ih =>
      have hc : c ≠ '\'' := fun hc => h (hc ▸ List.mem_cons_self)
      rw [List.cons_append, scan_cons_nil (.str acc) (.str (acc ++ [c])) c _
        (by simp only [next, if_neg hc]), ih (acc ++ [c]) (fun hm => h (List.mem_cons_of_mem c hm)),
        List.append_assoc, List.singleton_append]

theorem Boundary.ne_quote {c : Char} (h : Boundary c) : c ≠ '\'' := by
  rcases h with rfl | rfl | rfl <;> decide

/-- Text that is not closed off where its quote closes still begins with the
    constant that was being read: whatever follows, the scanner only adds to
    it. The two modes alternate at every quote, so they go through the
    induction together. -/
theorem head_of_scan_str (cs : List Char) : ∀ (acc : List Char) (toks : List Token),
    (scan (.str acc) cs = some toks ∨ scan (.strEnd acc) cs = some toks) →
      ∃ w ts, toks = .sconst w :: ts ∧ acc <+: w := by
  induction cs with
  | nil =>
      intro acc toks h
      rcases h with h | h
      · simp only [scan, finish, reduceCtorEq] at h
      · simp only [scan, finish, Option.some.injEq] at h
        exact ⟨acc, [], h.symm, List.prefix_refl acc⟩
  | cons c cs ih =>
      intro acc toks h
      -- One more character was read into the constant.
      have hgrow : scan (.str (acc ++ [c])) cs = some toks →
          ∃ w ts, toks = Token.sconst w :: ts ∧ acc <+: w := by
        intro h
        rcases ih (acc ++ [c]) toks (Or.inl h) with ⟨w, ts, hw, hp⟩
        exact ⟨w, ts, hw, (List.prefix_append acc [c]).trans hp⟩
      by_cases hc : c = '\''
      · rcases h with h | h
        · rw [scan_cons_nil (.str acc) (.strEnd acc) c cs (by simp only [next, if_pos hc])] at h
          exact ih acc toks (Or.inr h)
        · rw [scan_cons_nil (.strEnd acc) (.str (acc ++ [c])) c cs
            (by simp only [next, if_pos hc])] at h
          exact hgrow h
      · rcases h with h | h
        · rw [scan_cons_nil (.str acc) (.str (acc ++ [c])) c cs
            (by simp only [next, if_neg hc])] at h
          exact hgrow h
        · -- The constant ends here, so it is exactly what was read.
          rw [scan_of_emit (.strEnd acc) (.sconst acc) c cs (by simp only [next, if_neg hc]),
            Option.map_eq_some_iff] at h
          rcases h with ⟨ts, -, rfl⟩
          exact ⟨acc, ts, rfl, List.prefix_refl acc⟩

/-- A text that opens with a double quote begins with an identifier. -/
theorem head_of_scan_quoted (cs : List Char) : ∀ (acc : List Char) (toks : List Token),
    (scan (.quoted acc) cs = some toks ∨ scan (.quotedEnd acc) cs = some toks) →
      ∃ w ts, toks = .quoted w :: ts := by
  induction cs with
  | nil =>
      intro acc toks h
      rcases h with h | h
      · simp only [scan, finish, reduceCtorEq] at h
      · simp only [scan, finish] at h
        split at h
        · exact absurd h (by simp only [reduceCtorEq, not_false_eq_true])
        · exact ⟨truncateIdentifier acc, [], (Option.some.inj h).symm⟩
  | cons c cs ih =>
      intro acc toks h
      -- A quote opens or closes a doubled one; anything else ends the name or adds to it.
      by_cases hc : c = '"'
      · rcases h with h | h
        · rw [scan_cons_nil (.quoted acc) (.quotedEnd acc) c cs
            (by simp only [next, if_pos hc])] at h
          exact ih acc toks (Or.inr h)
        · rw [scan_cons_nil (.quotedEnd acc) (.quoted (acc ++ [c])) c cs
            (by simp only [next, if_pos hc])] at h
          exact ih (acc ++ [c]) toks (Or.inl h)
      · rcases h with h | h
        · rw [scan_cons_nil (.quoted acc) (.quoted (acc ++ [c])) c cs
            (by simp only [next, if_neg hc])] at h
          exact ih (acc ++ [c]) toks (Or.inl h)
        · by_cases ha : acc = []
          · rw [scan] at h
            simp only [next, if_neg hc, if_pos ha, reduceCtorEq] at h
          · rw [scan_of_emit (.quotedEnd acc) (.quoted (truncateIdentifier acc)) c cs
              (by simp only [next, if_neg hc, if_neg ha]), Option.map_eq_some_iff] at h
            rcases h with ⟨ts, -, rfl⟩
            exact ⟨truncateIdentifier acc, ts, rfl⟩

theorem yields_commaSep (xs : List (List Char)) (Ts : List (List Token))
    (h : List.Forall₂ Yields xs Ts) (hne : xs ≠ []) :
    Yields (Python.commaSep xs) (commaTokens Ts) := by
  induction h with
  | nil => exact absurd rfl hne
  | @cons x T xs Ts hx hrest ih =>
      cases hrest with
      | nil => exact hx
      | @cons y U xs Ts hy hrest =>
          intro c rest hc
          have hih := ih (List.cons_ne_nil y xs) c rest hc
          -- The separator is a comma token and a blank.
          have hsep : ∀ cs, scan .normal (',' :: ' ' :: cs)
              = (scan .normal cs).map (Token.self ',' :: ·) := by
            intro cs
            rw [scan_self ',' (' ' :: cs) rfl, scan_space]
          rw [Python.commaSep, commaTokens, List.append_assoc, List.append_assoc,
            List.cons_append, List.cons_append, List.nil_append,
            hx ',' _ (Or.inl rfl), hsep, hih]
          simp only [Option.map_map]
          congr 1
          funext ts
          simp only [Function.comp, List.append_assoc, List.cons_append]

end Sql
