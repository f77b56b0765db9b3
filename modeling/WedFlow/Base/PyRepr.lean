import Mathlib.Algebra.GroupWithZero.Nat
import Mathlib.Data.List.Basic

/-!
# Python's `repr` and `str`

The printer behind `str(v)` for the values a trigger function handles. A
string prints between quotes, and which quotes depends on the whole string: it
is a double quote exactly when the text has a single quote and no double
quote. A backslash and the delimiter are escaped with a backslash, the
characters Python does not call printable turn into escape sequences, and
everything else prints as itself.

Printability above ASCII is a table of the Unicode database, so it is a
parameter. Below that it is not: the control characters and delete are
escaped, the rest are copied. Nothing here depends on the table except through
`Printable`.

The body of a printed string is what stands between its quotes. The facts kept
about it are the ones a reader of another quoting language needs: printing
never shortens, it copies a text exactly when nothing in it needs an escape,
and the only single quotes it writes are escaped ones.

## Main definitions

* `Value`: The Python values that get printed.
* `Printable`: A character Python's printer copies.
* `escapeChar`: One character between quotes.
* `delimiter`: The quote a string is printed with.
* `body`: A string between its quotes.
* `reprText`: A string with its quotes.
* `reprValue`: A value.
* `tupleStr`: A tuple.
* `setStr`: A set of integers.

## Theorems

* `escapeChar_of_plain`: A plain character prints as itself.
* `escapeChar_length_pos`: Every character prints as something.
* `one_lt_escapeChar_length`: An escaped character prints longer.
* `body_eq_self_iff`: A text is copied exactly when it is plain.
* `length_le_body`: Printing never shortens.
* `quote_not_mem_body`: Without a single quote in, there is none out.
* `printable_of_mem_escapeChar`: What is printed above ASCII is printable.
* `count_body`: Between single quotes, double quotes come out as they go in.
-/

namespace Python

/-- The values the engine prints into its statements. -/
inductive Value where
  | int (n : Int)
  | str (s : String)
  | bool (b : Bool)
  | none
deriving DecidableEq, Repr

/-- A character the printer copies, given the table for those above ASCII. -/
def Printable (table : Char → Bool) (c : Char) : Bool :=
  if c.toNat < 0x20 then false
  else if c.toNat < 0x7f then true
  else if c.toNat = 0x7f then false
  else table c

/-- The low digits of a number in hexadecimal. -/
def hexDigits : Nat → Nat → List Char
  | 0, _ => []
  | w + 1, n => hexDigits w (n / 16) ++ [Nat.digitChar (n % 16)]

/-- One character of a string printed between the quotes `q`. -/
def escapeChar (table : Char → Bool) (q c : Char) : List Char :=
  if c = q ∨ c = '\\' then ['\\', c]
  else if c = '\t' then ['\\', 't']
  else if c = '\n' then ['\\', 'n']
  else if c = '\r' then ['\\', 'r']
  else if Printable table c then [c]
  else if c.toNat ≤ 0xff then '\\' :: 'x' :: hexDigits 2 c.toNat
  else if c.toNat ≤ 0xffff then '\\' :: 'u' :: hexDigits 4 c.toNat
  else '\\' :: 'U' :: hexDigits 8 c.toNat

/-- Single quotes, unless the text has one of those and no double quote. -/
def delimiter (cs : List Char) : Char :=
  if '\'' ∈ cs ∧ '"' ∉ cs then '"' else '\''

/-- A text as it is printed between the quotes `q`. -/
def body (table : Char → Bool) (q : Char) (cs : List Char) : List Char :=
  cs.flatMap (escapeChar table q)

/-- A string with its quotes. -/
def reprText (table : Char → Bool) (s : String) : List Char :=
  delimiter s.toList :: body table (delimiter s.toList) s.toList ++ [delimiter s.toList]

/-- An integer in decimal. -/
def reprInt : Int → List Char
  | .ofNat n => Nat.toDigits 10 n
  | .negSucc n => '-' :: Nat.toDigits 10 (n + 1)

/-- One value. -/
def reprValue (table : Char → Bool) : Value → List Char
  | .int n => reprInt n
  | .str s => reprText table s
  | .bool true => ['T', 'r', 'u', 'e']
  | .bool false => ['F', 'a', 'l', 's', 'e']
  | .none => ['N', 'o', 'n', 'e']

/-- Items separated by a comma and a space. -/
def commaSep : List (List Char) → List Char
  | [] => []
  | [x] => x
  | x :: y :: rest => x ++ [',', ' '] ++ commaSep (y :: rest)

/-- A tuple; one with a single item keeps a trailing comma. -/
def tupleStr (table : Char → Bool) : List Value → List Char
  | [v] => '(' :: reprValue table v ++ [',', ')']
  | vs => '(' :: commaSep (vs.map (reprValue table)) ++ [')']

/-- A non-empty set of integers, in some order. -/
def setStr (ns : List Int) : List Char :=
  '{' :: commaSep (ns.map reprInt) ++ ['}']

/-- Nothing in the text needs an escape between single quotes. -/
def Plain (table : Char → Bool) (cs : List Char) : Prop :=
  ∀ c ∈ cs, c ≠ '\'' ∧ c ≠ '\\' ∧ Printable table c = true

instance (table : Char → Bool) (cs : List Char) : Decidable (Plain table cs) :=
  List.decidableBAll (p := fun c => c ≠ '\'' ∧ c ≠ '\\' ∧ Printable table c = true) cs

theorem escapeChar_of_plain (table : Char → Bool) (q c : Char) (hq : c ≠ q) (hb : c ≠ '\\')
    (hp : Printable table c = true) : escapeChar table q c = [c] := by
  -- The three named control characters are not printable, so none of them is `c`.
  have hctl : ∀ d : Char, d.toNat < 0x20 → c ≠ d := by
    rintro d hd rfl
    rw [Printable, if_pos hd] at hp
    exact absurd hp Bool.false_ne_true
  rw [escapeChar, if_neg (by rintro (h | h); exacts [hq h, hb h]), if_neg (hctl '\t' (by decide)),
    if_neg (hctl '\n' (by decide)), if_neg (hctl '\r' (by decide)), if_pos hp]

theorem one_lt_escapeChar_length (table : Char → Bool) (q c : Char)
    (h : c = q ∨ c = '\\' ∨ Printable table c = false) : 1 < (escapeChar table q c).length := by
  simp only [escapeChar]
  split_ifs with h1 h2 h3 h4 h5
  · simp only [List.length_cons, List.length_nil]; omega
  · simp only [List.length_cons, List.length_nil]; omega
  · simp only [List.length_cons, List.length_nil]; omega
  · simp only [List.length_cons, List.length_nil]; omega
  · exfalso
    rcases h with h | h | h
    · exact h1 (Or.inl h)
    · exact h1 (Or.inr h)
    · rw [h] at h5
      exact absurd h5 Bool.false_ne_true
  · simp only [List.length_cons]; omega
  · simp only [List.length_cons]; omega
  · simp only [List.length_cons]; omega

theorem escapeChar_length_pos (table : Char → Bool) (q c : Char) :
    0 < (escapeChar table q c).length := by
  by_cases h : c = q ∨ c = '\\' ∨ Printable table c = false
  · have := one_lt_escapeChar_length table q c h
    omega
  · push Not at h
    rw [escapeChar_of_plain table q c h.1 h.2.1 (by simpa only [Bool.not_eq_false] using h.2.2)]
    exact Nat.one_pos

theorem body_cons (table : Char → Bool) (q c : Char) (cs : List Char) :
    body table q (c :: cs) = escapeChar table q c ++ body table q cs :=
  List.flatMap_cons

theorem body_append (table : Char → Bool) (q : Char) (cs ds : List Char) :
    body table q (cs ++ ds) = body table q cs ++ body table q ds :=
  List.flatMap_append

theorem length_le_body (table : Char → Bool) (q : Char) (cs : List Char) :
    cs.length ≤ (body table q cs).length := by
  induction cs with
  | nil => exact Nat.le_refl 0
  | cons c cs ih =>
      rw [body_cons, List.length_append, List.length_cons]
      have := escapeChar_length_pos table q c
      omega

/-- Between single quotes a text is copied exactly when it is plain: any
    escape makes the printed text longer, and nothing makes it shorter. -/
theorem body_eq_self_iff (table : Char → Bool) (cs : List Char) :
    body table '\'' cs = cs ↔ Plain table cs := by
  induction cs with
  | nil => exact ⟨fun _ c hc => absurd hc List.not_mem_nil, fun _ => rfl⟩
  | cons c cs ih =>
      rw [body_cons]
      constructor
      · intro h
        have hlen := congrArg List.length h
        rw [List.length_append, List.length_cons] at hlen
        have hle := length_le_body table '\'' cs
        -- The head printed as one character, so it needed no escape.
        have hhead : ¬ (c = '\'' ∨ c = '\\' ∨ Printable table c = false) := by
          intro hc
          have := one_lt_escapeChar_length table '\'' c hc
          omega
        push Not at hhead
        have hpr : Printable table c = true := by
          simpa only [Bool.not_eq_false] using hhead.2.2
        rw [escapeChar_of_plain table '\'' c hhead.1 hhead.2.1 hpr, List.singleton_append,
          List.cons.injEq] at h
        intro d hd
        rcases List.mem_cons.mp hd with rfl | hd
        · exact ⟨hhead.1, hhead.2.1, hpr⟩
        · exact ih.mp h.2 d hd
      · intro h
        rcases h c List.mem_cons_self with ⟨hq, hb, hp⟩
        rw [escapeChar_of_plain table '\'' c hq hb hp,
          ih.mpr (fun d hd => h d (List.mem_cons_of_mem c hd)), List.singleton_append]

/-- A digit of a hexadecimal number is an ASCII character and no quote. -/
theorem hexDigits_ascii (w n : Nat) :
    ∀ d ∈ hexDigits w n, d.toNat < 0x80 ∧ d ≠ '\'' ∧ d ≠ '"' := by
  induction w generalizing n with
  | zero => exact fun d hd => absurd hd List.not_mem_nil
  | succ w ih =>
      intro d hd
      rw [hexDigits, List.mem_append, List.mem_singleton] at hd
      rcases hd with hd | rfl
      · exact ih (n / 16) d hd
      · have hall : ∀ j < 16, (Nat.digitChar j).toNat < 0x80 ∧ Nat.digitChar j ≠ '\'' ∧
            Nat.digitChar j ≠ '"' := by decide
        exact hall (n % 16) (Nat.mod_lt n (by omega))

/-- A character is printed as itself, after a backslash or because it is
    printable. All else an escape consists of is ASCII and no quote. -/
theorem mem_escapeChar {table : Char → Bool} {q c d : Char} (h : d ∈ escapeChar table q c) :
    (d = c ∧ (c = q ∨ c = '\\' ∨ Printable table c = true)) ∨
      (d.toNat < 0x80 ∧ d ≠ '\'' ∧ d ≠ '"') := by
  have hescape : ∀ (e : Char) (w n : Nat), e.toNat < 0x80 ∧ e ≠ '\'' ∧ e ≠ '"' →
      d ∈ '\\' :: e :: hexDigits w n → d.toNat < 0x80 ∧ d ≠ '\'' ∧ d ≠ '"' := by
    intro e w n he hmem
    rcases List.mem_cons.mp hmem with rfl | hmem
    · decide
    · rcases List.mem_cons.mp hmem with rfl | hmem
      · exact he
      · exact hexDigits_ascii w n d hmem
  unfold escapeChar at h
  split_ifs at h with h1 h2 h3 h4 h5
  · rcases List.mem_cons.mp h with rfl | h
    · exact .inr (by decide)
    · exact .inl ⟨List.mem_singleton.mp h, h1.imp_right .inl⟩
  · exact .inr (hescape 't' 0 0 (by decide) h)
  · exact .inr (hescape 'n' 0 0 (by decide) h)
  · exact .inr (hescape 'r' 0 0 (by decide) h)
  · exact .inl ⟨List.mem_singleton.mp h, .inr (.inr h5)⟩
  · exact .inr (hescape 'x' 2 _ (by decide) h)
  · exact .inr (hescape 'u' 4 _ (by decide) h)
  · exact .inr (hescape 'U' 8 _ (by decide) h)

/-- Printing a character other than the single quote writes none. -/
theorem quote_not_mem_escapeChar (table : Char → Bool) (q c : Char) (h : c ≠ '\'') :
    '\'' ∉ escapeChar table q c := by
  intro hmem
  rcases mem_escapeChar hmem with ⟨heq, -⟩ | ⟨-, hne, -⟩
  · exact h heq.symm
  · exact hne rfl

theorem quote_not_mem_body (table : Char → Bool) (q : Char) (cs : List Char)
    (h : '\'' ∉ cs) : '\'' ∉ body table q cs := by
  rw [body, List.mem_flatMap]
  rintro ⟨c, hc, hmem⟩
  exact quote_not_mem_escapeChar table q c (fun hcq => h (hcq ▸ hc)) hmem

/-- Whatever is printed above ASCII is printed as itself. -/
theorem printable_of_mem_escapeChar (table : Char → Bool) (q c : Char) (hq : q.toNat < 0x80)
    (d : Char) (hd : d ∈ escapeChar table q c) (hbig : 0x80 ≤ d.toNat) :
    Printable table d = true := by
  rcases mem_escapeChar hd with ⟨rfl, rfl | rfl | hp⟩ | ⟨hlt, -⟩
  · omega
  · exact absurd hbig (by decide)
  · exact hp
  · omega

/-- Between single quotes a double quote is printed as itself, and nothing else
    prints one. -/
theorem count_escapeChar (table : Char → Bool) (c : Char) :
    (escapeChar table '\'' c).count '"' = [c].count '"' := by
  by_cases hc : c = '"'
  · subst hc
    rfl
  · have hzero : [c].count '"' = 0 :=
      List.count_eq_zero.mpr (fun h => hc (List.mem_singleton.mp h).symm)
    rw [hzero, List.count_eq_zero]
    intro hmem
    rcases mem_escapeChar hmem with ⟨heq, -⟩ | ⟨-, -, hne⟩
    · exact hc heq.symm
    · exact hne rfl

theorem count_body (table : Char → Bool) (cs : List Char) :
    (body table '\'' cs).count '"' = cs.count '"' := by
  induction cs with
  | nil => rfl
  | cons c cs ih =>
      rw [body_cons, List.count_append, ih, count_escapeChar, ← List.count_append,
        List.singleton_append]

theorem count_commaSep (a : Char) (ha : a ≠ ',') (hb : a ≠ ' ') (xs : List (List Char)) :
    (commaSep xs).count a = (xs.map (List.count a)).sum := by
  induction xs with
  | nil => rfl
  | cons x xs ih =>
      cases xs with
      | nil => simp only [commaSep, List.map_cons, List.map_nil, List.sum_cons, List.sum_nil,
          Nat.add_zero]
      | cons y xs =>
          have hsep : [',', ' '].count a = 0 := by
            rw [List.count_eq_zero, List.mem_cons, List.mem_singleton, not_or]
            exact ⟨ha, hb⟩
          rw [commaSep, List.count_append, List.count_append, hsep, ih, Nat.add_zero]
          rfl

theorem mem_commaSep {c : Char} {xs : List (List Char)} (h : c ∈ commaSep xs) :
    c = ',' ∨ c = ' ' ∨ ∃ x ∈ xs, c ∈ x := by
  induction xs with
  | nil => exact absurd h List.not_mem_nil
  | cons x xs ih =>
      cases xs with
      | nil => exact .inr (.inr ⟨x, List.mem_cons_self, h⟩)
      | cons y xs =>
          rw [commaSep, List.mem_append, List.mem_append, List.mem_cons, List.mem_singleton] at h
          rcases h with (h | h | h) | h
          · exact .inr (.inr ⟨x, List.mem_cons_self, h⟩)
          · exact .inl h
          · exact .inr (.inl h)
          · rcases ih h with h | h | ⟨z, hz, hcz⟩
            · exact .inl h
            · exact .inr (.inl h)
            · exact .inr (.inr ⟨z, List.mem_cons_of_mem x hz, hcz⟩)

end Python
