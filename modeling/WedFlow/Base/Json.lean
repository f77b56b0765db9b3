import Mathlib.Data.List.Basic

/-!
# Flat JSON Objects

The part of JSON that one program uses to hand another a few numbers and names:
an object whose values are integers and strings. The reader agrees with
`json.loads` on whatever it accepts, and refuses the rest of JSON. That is
nesting, the literals, numbers with a fraction or an exponent, and escapes.

As in the reading of SQL text, the text is first cut into tokens by a transducer
over its characters. A number only ends at the character after it. The grammar
then runs over the tokens and keeps what it expects next. Both are recursions
over a list, so objects in texts can be evaluated.

A number is accepted in the one way it is written: digits that are the digits of
their own value, which rules out superfluous zeros and the empty number.

`loads_print` is the round trip for a printer that adds no space and escapes
nothing. It needs its strings to be free of the three things that JSON wants
escaped.

## Main definitions

* `Value`, `Object`: Integers and strings, and their names.
* `Token`, `Mode`: What a text is cut into, and the middle of a token.
* `lex`: The tokens of a text.
* `Place`, `parse`: The grammar of an object.
* `loads`: The object a text is.
* `print`: The text of an object.
* `PlainText`: A string with nothing in it to escape.

## Theorems

* `lex_print`: The tokens of a printed value.
* `loads_print`: A printed object is read as itself.
-/

namespace Json

/-- The values of a flat object. -/
inductive Value where
  | int (n : Int)
  | str (s : String)
deriving DecidableEq, Repr

/-- The members of an object, in the order of the text. -/
abbrev Object := List (String × Value)

/-! ## Tokens -/

/-- A finished token. -/
inductive Token where
  | openBrace
  | closeBrace
  | colon
  | comma
  | value (v : Value)
deriving DecidableEq, Repr

/-- What the reader is in the middle of. -/
inductive Mode where
  | normal
  | str (acc : List Char)
  | num (acc : List Char)
deriving DecidableEq, Repr

def isSpace (c : Char) : Bool :=
  c = ' ' || c = '\t' || c = '\n' || c = '\r'

/-- The number that is written with these digits. -/
def natOf (ds : List Char) : Option Nat :=
  if Nat.toDigits 10 (Nat.ofDigitChars 10 ds 0) = ds then some (Nat.ofDigitChars 10 ds 0)
  else none

def intOf : List Char → Option Int
  | '-' :: ds => (natOf ds).map fun n : Nat => -(n : Int)
  | ds => (natOf ds).map Int.ofNat

/-- A character met between tokens. -/
def start (c : Char) : Option (List Token × Mode) :=
  if isSpace c then some ([], .normal)
  else if c = '{' then some ([.openBrace], .normal)
  else if c = '}' then some ([.closeBrace], .normal)
  else if c = ':' then some ([.colon], .normal)
  else if c = ',' then some ([.comma], .normal)
  else if c = '"' then some ([], .str [])
  else if c = '-' ∨ c.isDigit then some ([], .num [c])
  else none

/-- A character that JSON wants escaped in a string. -/
def needsEscape (c : Char) : Bool :=
  c = '"' || c = '\\' || c.toNat < 0x20

/-- A character met in a mode: the tokens it finishes, and the mode after it. -/
def next : Mode → Char → Option (List Token × Mode)
  | .normal, c => start c
  | .str acc, c =>
    if c = '"' then some ([.value (.str (String.ofList acc))], .normal)
    else if needsEscape c then none
    else some ([], .str (acc ++ [c]))
  | .num acc, c =>
    if c.isDigit then some ([], .num (acc ++ [c]))
    else
      match intOf acc, start c with
      | some n, some (ts, m) => some (.value (.int n) :: ts, m)
      | _, _ => none

/-- The end of the text in a mode. -/
def finish : Mode → Option (List Token)
  | .normal => some []
  | .str _ => none
  | .num acc => (intOf acc).map fun n => [.value (.int n)]

/-- The tokens of a text, or nothing if it is not of this kind. -/
def lex : Mode → List Char → Option (List Token)
  | m, [] => finish m
  | m, c :: cs =>
    match next m c with
    | none => none
    | some (ts, m') => (lex m' cs).map (ts ++ ·)

/-! ## Objects -/

/-- What stands next in an object. -/
inductive Place where
  | first
  | key
  | colon (k : String)
  | value (k : String)
  | separator
deriving DecidableEq, Repr

/-- The members of an object after its opening brace, closed where the text
    ends. -/
def parse : Place → List Token → Option Object
  | .first, [.closeBrace] => some []
  | .first, .value (.str k) :: ts => parse (.colon k) ts
  | .key, .value (.str k) :: ts => parse (.colon k) ts
  | .colon k, .colon :: ts => parse (.value k) ts
  | .value k, .value v :: ts => (parse .separator ts).map ((k, v) :: ·)
  | .separator, .comma :: ts => parse .key ts
  | .separator, [.closeBrace] => some []
  | _, _ => none

/-- The object a text is. -/
def loads (text : List Char) : Option Object :=
  match lex .normal text with
  | some (.openBrace :: ts) => parse .first ts
  | _ => none

/-! ## Printing -/

/-- A value without its surroundings. -/
def Value.print : Value → List Char
  | .int (.ofNat n) => Nat.toDigits 10 n
  | .int (.negSucc n) => '-' :: Nat.toDigits 10 (n + 1)
  | .str s => '"' :: s.toList ++ ['"']

/-- The members after the opening brace, with the closing one. -/
def printMembers : Object → List Char
  | [] => ['}']
  | [(k, v)] => (Value.str k).print ++ ':' :: v.print ++ ['}']
  | (k, v) :: m :: ms => (Value.str k).print ++ ':' :: v.print ++ ',' :: printMembers (m :: ms)

/-- The text of an object. -/
def print (o : Object) : List Char :=
  '{' :: printMembers o

/-- There is nothing in the string that JSON wants escaped. -/
def PlainText (s : String) : Prop :=
  ∀ c ∈ s.toList, needsEscape c = false

instance (s : String) : Decidable (PlainText s) :=
  List.decidableBAll (p := fun c => needsEscape c = false) s.toList

/-- The strings in a value have nothing to escape in them. -/
def Value.Plain : Value → Prop
  | .int _ => True
  | .str s => PlainText s

/-- An integer is printed as its usual text. -/
theorem toList_toString (n : Int) : (toString n).toList = (Value.int n).print := by
  cases n with
  | ofNat n => exact Nat.toList_repr
  | negSucc n =>
      change ("-" ++ Nat.repr (n + 1)).toList = _
      rw [String.toList_append, Nat.toList_repr]
      rfl

/-! ## Reading what was printed -/

theorem lex_cons_nil (m m' : Mode) (c : Char) (cs : List Char) (h : next m c = some ([], m')) :
    lex m (c :: cs) = lex m' cs := by
  rw [lex, h]
  change (lex m' cs).map ([] ++ ·) = lex m' cs
  simp only [List.nil_append, Option.map_id']

theorem lex_cons_token (m m' : Mode) (t : Token) (c : Char) (cs : List Char)
    (h : next m c = some ([t], m')) : lex m (c :: cs) = (lex m' cs).map (t :: ·) := by
  rw [lex, h]
  rfl

theorem natOf_toDigits (n : Nat) : natOf (Nat.toDigits 10 n) = some n := by
  rw [natOf, Nat.ofDigitChars_ten_toDigits, if_pos rfl]

/-- A string is copied up to its closing quote. -/
theorem lex_str (acc cs rest : List Char) (h : ∀ c ∈ cs, needsEscape c = false) :
    lex (.str acc) (cs ++ '"' :: rest)
      = (lex .normal rest).map (Token.value (.str (String.ofList (acc ++ cs))) :: ·) := by
  induction cs generalizing acc with
  | nil =>
      rw [List.nil_append, List.append_nil]
      exact lex_cons_token (.str acc) .normal _ '"' rest rfl
  | cons c cs ih =>
      rcases List.forall_mem_cons.mp h with ⟨hc, hcs⟩
      have hq : c ≠ '"' := by
        rintro rfl
        exact absurd hc (by decide)
      rw [List.cons_append, lex_cons_nil (.str acc) (.str (acc ++ [c])) c _
        (by rw [next, if_neg hq, if_neg (by rw [hc]; exact Bool.false_ne_true)]),
        ih (acc ++ [c]) hcs, List.append_assoc, List.singleton_append]

/-- A number ends at a separator or at the closing brace. -/
def Ends (c : Char) : Prop :=
  c = ',' ∨ c = '}'

theorem lex_num_end (acc : List Char) (n : Int) (h : intOf acc = some n) (c : Char)
    (rest : List Char) (hc : Ends c) :
    lex (.num acc) (c :: rest) = (lex .normal (c :: rest)).map (Token.value (.int n) :: ·) := by
  rcases hc with rfl | rfl
  · rw [lex_cons_token .normal .normal .comma ',' rest rfl, Option.map_map, lex, next, h]
    rfl
  · rw [lex_cons_token .normal .normal .closeBrace '}' rest rfl, Option.map_map, lex, next, h]
    rfl

theorem lex_digits (acc ds : List Char) (hds : ∀ d ∈ ds, d.isDigit = true) (n : Int)
    (h : intOf (acc ++ ds) = some n) (c : Char) (rest : List Char) (hc : Ends c) :
    lex (.num acc) (ds ++ c :: rest)
      = (lex .normal (c :: rest)).map (Token.value (.int n) :: ·) := by
  induction ds generalizing acc with
  | nil =>
      rw [List.append_nil] at h
      exact lex_num_end acc n h c rest hc
  | cons d ds ih =>
      rcases List.forall_mem_cons.mp hds with ⟨hd, hrest⟩
      rw [List.cons_append, lex_cons_nil (.num acc) (.num (acc ++ [d])) d _
        (by rw [next, if_pos hd])]
      exact ih (acc ++ [d]) hrest (by rwa [List.append_assoc, List.singleton_append])

/-- A digit is none of the characters that are looked at before the digits. -/
theorem start_digit (d : Char) (h : d.isDigit = true) : start d = some ([], .num [d]) := by
  have hne : ∀ e : Char, e.isDigit = false → d ≠ e := by
    rintro e he rfl
    exact absurd (h.symm.trans he) (by decide)
  have hspace : ¬ isSpace d = true := by
    simp only [isSpace, Bool.or_eq_true, decide_eq_true_eq, not_or]
    exact ⟨⟨⟨hne ' ' (by decide), hne '\t' (by decide)⟩, hne '\n' (by decide)⟩,
      hne '\r' (by decide)⟩
  rw [start, if_neg hspace, if_neg (hne '{' (by decide)), if_neg (hne '}' (by decide)),
    if_neg (hne ':' (by decide)), if_neg (hne ',' (by decide)), if_neg (hne '"' (by decide)),
    if_pos (.inr h)]

theorem digit_of_mem {n : Nat} {d : Char} (h : d ∈ Nat.toDigits 10 n) : d.isDigit = true :=
  Nat.isDigit_of_mem_toDigits (by omega) (by omega) h

theorem intOf_of_ne {ds : List Char} (h : ds.head? ≠ some '-') :
    intOf ds = (natOf ds).map Int.ofNat := by
  unfold intOf
  split
  · exact absurd rfl h
  · rfl

/-- The digits of a number are read as it, up to where it ends. -/
theorem lex_toDigits (n : Nat) (c : Char) (rest : List Char) (hc : Ends c) :
    lex .normal (Nat.toDigits 10 n ++ c :: rest)
      = (lex .normal (c :: rest)).map (Token.value (.int n) :: ·) := by
  cases hds : Nat.toDigits 10 n with
  | nil => exact absurd hds Nat.toDigits_ne_nil
  | cons d ds =>
      have hdig : ∀ e ∈ d :: ds, e.isDigit = true := fun e he => digit_of_mem (hds ▸ he)
      have hd := hdig d List.mem_cons_self
      have hint : intOf ([d] ++ ds) = some (Int.ofNat n) := by
        rw [List.singleton_append, intOf_of_ne, ← hds, natOf_toDigits, Option.map_some]
        intro hhead
        rw [Option.some.inj hhead] at hd
        exact absurd hd (by decide)
      rw [List.cons_append, lex_cons_nil .normal (.num [d]) d _ (start_digit d hd)]
      exact lex_digits [d] ds (fun e he => hdig e (List.mem_cons_of_mem d he)) n hint c rest hc

/-- A printed string is one token, whatever follows. -/
theorem lex_printStr (t : String) (ht : PlainText t) (rest : List Char) :
    lex .normal ((Value.str t).print ++ rest)
      = (lex .normal rest).map (Token.value (.str t) :: ·) := by
  rw [Value.print, List.cons_append, List.cons_append, List.append_assoc, List.singleton_append,
    lex_cons_nil .normal (.str []) '"' _ rfl, lex_str [] t.toList _ ht, List.nil_append,
    String.ofList_toList]

/-- A printed value is one token where a member ends. -/
theorem lex_print (v : Value) (hv : v.Plain) (c : Char) (rest : List Char) (hc : Ends c) :
    lex .normal (v.print ++ c :: rest) = (lex .normal (c :: rest)).map (Token.value v :: ·) := by
  cases v with
  | str t => exact lex_printStr t hv (c :: rest)
  | int n =>
      cases n with
      | ofNat n => exact lex_toDigits n c rest hc
      | negSucc n =>
          have hint : intOf (['-'] ++ Nat.toDigits 10 (n + 1)) = some (Int.negSucc n) := by
            rw [List.singleton_append, intOf, natOf_toDigits]
            rfl
          rw [Value.print, List.cons_append, lex_cons_nil .normal (.num ['-']) '-' _ rfl]
          exact lex_digits ['-'] _ (fun d hd => digit_of_mem hd) _ hint c rest hc

/-- A name and its value, where a member ends. -/
theorem lex_member (k : String) (v : Value) (hk : PlainText k) (hv : v.Plain) (c : Char)
    (rest : List Char) (hc : Ends c) :
    lex .normal ((Value.str k).print ++ ':' :: v.print ++ c :: rest)
      = (lex .normal (c :: rest)).map ([Token.value (.str k), .colon, .value v] ++ ·) := by
  rw [List.append_assoc, lex_printStr k hk, List.cons_append,
    lex_cons_token .normal .normal .colon ':' _ rfl, lex_print v hv c rest hc, Option.map_map,
    Option.map_map]
  rfl

/-- The tokens of printed members. -/
def memberTokens : Object → List Token
  | [] => [.closeBrace]
  | [(k, v)] => [.value (.str k), .colon, .value v, .closeBrace]
  | (k, v) :: m :: ms => .value (.str k) :: .colon :: .value v :: .comma :: memberTokens (m :: ms)

theorem lex_printMembers (o : Object) (h : ∀ m ∈ o, PlainText m.1 ∧ m.2.Plain) :
    lex .normal (printMembers o) = some (memberTokens o) := by
  induction o with
  | nil => rfl
  | cons m o ih =>
      rcases m with ⟨k, v⟩
      rcases List.forall_mem_cons.mp h with ⟨⟨hk, hv⟩, ho⟩
      cases o with
      | nil =>
          rw [printMembers, lex_member k v hk hv '}' [] (.inr rfl)]
          rfl
      | cons m o =>
          rw [printMembers, lex_member k v hk hv ',' _ (.inl rfl),
            lex_cons_token .normal .normal .comma ',' _ rfl, ih ho]
          rfl

/-- After a separator the rest of the members is read as it was printed. -/
theorem parse_memberTokens (m : String × Value) (o : Object) :
    parse .key (memberTokens (m :: o)) = some (m :: o) := by
  induction o generalizing m with
  | nil => rfl
  | cons m' o ih =>
      change (parse .key (memberTokens (m' :: o))).map (m :: ·) = some (m :: m' :: o)
      rw [ih m']
      rfl

/-- A printed object is read as itself. -/
theorem loads_print (o : Object) (h : ∀ m ∈ o, PlainText m.1 ∧ m.2.Plain) :
    loads (print o) = some o := by
  have hlex : lex .normal (print o) = some (.openBrace :: memberTokens o) := by
    rw [print, lex_cons_token .normal .normal .openBrace '{' _ rfl, lex_printMembers o h]
    rfl
  rw [loads, hlex]
  cases o with
  | nil => rfl
  | cons m o =>
      -- The first name may stand where any later one may.
      have hfirst : parse .first (memberTokens (m :: o)) = parse .key (memberTokens (m :: o)) := by
        cases o with
        | nil => rfl
        | cons m' o => rfl
      exact hfirst.trans (parse_memberTokens m o)

end Json
