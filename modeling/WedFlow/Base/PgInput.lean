import Mathlib.Data.List.Basic
import WedFlow.Base.PyRepr

/-!
# Reading Values from Text

What PostgreSQL makes of a text that is put where a number, a boolean or a list of
numbers belongs. These are the input functions of the types, on the part of their
language that does not depend on the installation.

All of them pass over the C library's white space at both ends. A number is a sign and
digits, a boolean is a word that may be cut short as long as it stays unambiguous, and
an array is a brace list. Array texts with dimensions, quotes, nesting or NULL in them
are not read, and numbers are not bounded.

## Main definitions

* `isSpace`: The C library's white space.
* `trim`: A text without white space at its ends.
* `integerIn`: The number a text is.
* `booleanIn`: The boolean a text is.
* `integersIn`: The numbers a brace list has.

## Theorems

* `numeral_of_integerIn`: The characters of a text that is read as a number.
* `integerIn_reprInt`: A printed number is read as itself.
* `integersIn_setStr`: A printed set is read as itself.
-/

namespace Pg

open Python

/-- The C library's white space. -/
def isSpace (c : Char) : Bool :=
  c = ' ' || ('\t' ≤ c && c ≤ '\r')

def trim (s : List Char) : List Char :=
  ((s.dropWhile isSpace).reverse.dropWhile isSpace).reverse

/-- The digits of a number: at least one, and nothing else. -/
def digitsOf (cs : List Char) : Option Nat :=
  if cs ≠ [] && cs.all Char.isDigit then some (Nat.ofDigitChars 10 cs 0) else none

/-- A number: a sign and digits, with white space around them. -/
def integerIn (s : List Char) : Option Int :=
  match trim s with
  | '-' :: ds => (digitsOf ds).map fun n : Nat => -(n : Int)
  | '+' :: ds => (digitsOf ds).map fun n : Nat => (n : Int)
  | ds => (digitsOf ds).map fun n : Nat => (n : Int)

/-- A boolean: the start of a word, in any case. `o` alone could be either of two. -/
def booleanIn (s : List Char) : Option Bool :=
  let w := (trim s).map Char.toLower
  if w = [] then none
  else if w.isPrefixOf "true".toList || w.isPrefixOf "yes".toList || w = "on".toList ||
      w = "1".toList then some true
  else if w.isPrefixOf "false".toList || w.isPrefixOf "no".toList || w = "of".toList ||
      w = "off".toList || w = "0".toList then some false
  else none

/-- A list of numbers: braces, and commas between. -/
def integersIn (s : List Char) : Option (List Int) :=
  match trim s with
  | '{' :: rest =>
    match rest.reverse with
    | '}' :: mid =>
      if trim mid.reverse = [] then some [] else (mid.reverse.splitOn ',').mapM integerIn
    | _ => none
  | _ => none

theorem dropWhile_isSpace_of_head {c : Char} {s : List Char} (h : isSpace c = false) :
    (c :: s).dropWhile isSpace = c :: s := by
  rw [List.dropWhile_cons, if_neg (by rw [h]; exact Bool.false_ne_true)]

theorem trim_cons_space (s : List Char) : trim (' ' :: s) = trim s := rfl

/-- A text without white space at its ends is left alone. -/
theorem trim_of_ends {c d : Char} {s t : List Char} (h : c :: s = t ++ [d])
    (hc : isSpace c = false) (hd : isSpace d = false) : trim (c :: s) = c :: s := by
  rw [trim, dropWhile_isSpace_of_head hc, h, List.reverse_append, List.reverse_singleton,
    List.singleton_append, dropWhile_isSpace_of_head hd, ← List.singleton_append,
    List.reverse_append, List.reverse_reverse, List.reverse_singleton]

theorem trim_of_forall {s : List Char} (h : ∀ c ∈ s, isSpace c = false) : trim s = s := by
  cases s with
  | nil => rfl
  | cons c s =>
      rcases List.eq_nil_or_concat (c :: s) with hnil | ⟨t, d, ht⟩
      · exact absurd hnil (List.cons_ne_nil c s)
      · rw [List.concat_eq_append] at ht
        refine trim_of_ends ht (h c List.mem_cons_self) (h d ?_)
        rw [ht]
        exact List.mem_append_right _ (List.mem_singleton.mpr rfl)

theorem mem_dropWhile_or {p : Char → Bool} {l : List Char} {c : Char} (h : c ∈ l) :
    p c = true ∨ c ∈ l.dropWhile p := by
  rw [← List.takeWhile_append_dropWhile (p := p) (l := l)] at h
  rcases List.mem_append.mp h with h | h
  · exact .inl (List.all_eq_true.mp List.all_takeWhile c h)
  · exact .inr h

/-- Only white space goes. -/
theorem mem_trim_or {s : List Char} {c : Char} (h : c ∈ s) : isSpace c = true ∨ c ∈ trim s := by
  rcases mem_dropWhile_or (p := isSpace) h with hb | hm
  · exact .inl hb
  · rcases mem_dropWhile_or (p := isSpace) (List.mem_reverse.mpr hm) with hb | hm
    · exact .inl hb
    · exact .inr (List.mem_reverse.mpr hm)

/-- White space comes before everything that is visible. -/
theorem isSpace_of_lt {c : Char} (h : 32 < c.toNat) : isSpace c = false := by
  rw [isSpace, Bool.or_eq_false_iff, Bool.and_eq_false_iff]
  refine ⟨decide_eq_false ?_, .inr (decide_eq_false ?_)⟩
  · rintro rfl
    exact absurd h (by decide)
  · intro hle
    have hhi : c.toNat ≤ 13 := hle
    omega

theorem isSpace_of_isDigit {c : Char} (h : c.isDigit = true) : isSpace c = false := by
  rw [Char.isDigit, Bool.and_eq_true, decide_eq_true_eq, decide_eq_true_eq] at h
  have hlo : 48 ≤ c.toNat := h.1
  exact isSpace_of_lt (by omega)

theorem digits_of_digitsOf {cs : List Char} {n : Nat} (h : digitsOf cs = some n) :
    ∀ c ∈ cs, c.isDigit = true := by
  unfold digitsOf at h
  split at h
  next hc =>
    rw [Bool.and_eq_true, List.all_eq_true] at hc
    exact hc.2
  next => exact absurd h.symm (Option.some_ne_none n)

/-- A text that is read as a number has digits, signs and white space only. -/
theorem numeral_of_integerIn {s : List Char} {n : Int} (h : integerIn s = some n) :
    ∀ c ∈ s, isSpace c = true ∨ c = '-' ∨ c = '+' ∨ c.isDigit = true := by
  intro c hc
  rcases mem_trim_or hc with hb | hm
  · exact .inl hb
  · right
    unfold integerIn at h
    split at h
    next ds hds =>
      rw [hds] at hm
      rcases Option.map_eq_some_iff.mp h with ⟨k, hk, -⟩
      rcases List.mem_cons.mp hm with rfl | hm
      · exact .inl rfl
      · exact .inr (.inr (digits_of_digitsOf hk c hm))
    next ds hds =>
      rw [hds] at hm
      rcases Option.map_eq_some_iff.mp h with ⟨k, hk, -⟩
      rcases List.mem_cons.mp hm with rfl | hm
      · exact .inr (.inl rfl)
      · exact .inr (.inr (digits_of_digitsOf hk c hm))
    next =>
      rcases Option.map_eq_some_iff.mp h with ⟨k, hk, -⟩
      exact .inr (.inr (digits_of_digitsOf hk c hm))

theorem isDigit_toDigits {n : Nat} : ∀ c ∈ Nat.toDigits 10 n, c.isDigit = true :=
  fun _ hc => Nat.isDigit_of_mem_toDigits (by omega) (by omega) hc

theorem digitsOf_toDigits (n : Nat) : digitsOf (Nat.toDigits 10 n) = some n := by
  have hne : (decide (Nat.toDigits 10 n ≠ []) && (Nat.toDigits 10 n).all Char.isDigit) = true := by
    rw [Bool.and_eq_true, decide_eq_true_eq, List.all_eq_true]
    exact ⟨Nat.toDigits_ne_nil, isDigit_toDigits⟩
  rw [digitsOf, if_pos hne, Nat.ofDigitChars_ten_toDigits]

/-- The characters of a printed number. -/
theorem mem_reprInt {n : Int} {c : Char} (h : c ∈ reprInt n) : c = '-' ∨ c.isDigit = true := by
  cases n with
  | ofNat n => exact .inr (isDigit_toDigits c h)
  | negSucc n =>
      rcases List.mem_cons.mp h with rfl | h
      · exact .inl rfl
      · exact .inr (isDigit_toDigits c h)

theorem isSpace_of_mem_reprInt {n : Int} {c : Char} (h : c ∈ reprInt n) : isSpace c = false := by
  rcases mem_reprInt h with rfl | h
  · rfl
  · exact isSpace_of_isDigit h

/-- A printed number is read as itself. -/
theorem integerIn_reprInt (n : Int) : integerIn (reprInt n) = some n := by
  rw [integerIn, trim_of_forall (fun c hc => isSpace_of_mem_reprInt hc)]
  cases n with
  | negSucc n =>
      change (digitsOf (Nat.toDigits 10 (n + 1))).map (fun m : Nat => -(m : Int)) = _
      rw [digitsOf_toDigits]
      rfl
  | ofNat n =>
      change (match Nat.toDigits 10 n with
        | '-' :: ds => (digitsOf ds).map fun n : Nat => -(n : Int)
        | '+' :: ds => (digitsOf ds).map fun n : Nat => (n : Int)
        | ds => (digitsOf ds).map fun n : Nat => (n : Int)) = _
      -- Digits start with neither sign.
      have hdig := isDigit_toDigits (n := n)
      split
      next ds h => exact absurd (hdig '-' (by rw [h]; exact List.mem_cons_self)) (by decide)
      next ds h => exact absurd (hdig '+' (by rw [h]; exact List.mem_cons_self)) (by decide)
      next =>
        rw [digitsOf_toDigits]
        rfl

theorem integerIn_space (s : List Char) : integerIn (' ' :: s) = integerIn s := by
  rw [integerIn, integerIn, trim_cons_space]

/-- Printed pieces are the pieces between the commas, with a blank before all but the
    first. -/
theorem splitOn_commaSep (x : List Char) (xs : List (List Char)) (h : ∀ y ∈ x :: xs, ',' ∉ y) :
    (commaSep (x :: xs)).splitOn ',' = x :: xs.map (' ' :: ·) := by
  have heq : commaSep (x :: xs) = [','].intercalate (x :: xs.map (' ' :: ·)) := by
    clear h
    induction xs generalizing x with
    | nil => rw [commaSep, List.map_nil, List.intercalate_singleton]
    | cons y xs ih =>
        rw [commaSep, ih y, List.map_cons, List.intercalate_cons_cons]
        cases xs with
        | nil => simp only [List.map_nil, List.intercalate_singleton, List.append_assoc,
            List.cons_append, List.nil_append]
        | cons z xs => simp only [List.map_cons, List.intercalate_cons_cons, List.append_assoc,
            List.cons_append, List.nil_append]
  rw [heq]
  refine List.splitOn_intercalate ',' ?_ (List.cons_ne_nil _ _)
  intro l hl
  rcases List.mem_cons.mp hl with rfl | hl
  · exact h _ List.mem_cons_self
  · rcases List.mem_map.mp hl with ⟨y, hy, rfl⟩
    intro hmem
    rcases List.mem_cons.mp hmem with hc | hmem
    · exact absurd hc (by decide)
    · exact h y (List.mem_cons_of_mem _ hy) hmem

/-- There is a digit in a printed list, so it is not blank. -/
theorem trim_commaSep_ne (n : Int) (ns : List Int) :
    trim (commaSep ((n :: ns).map reprInt)) ≠ [] := by
  have hne : reprInt n ≠ [] := by
    cases n with
    | ofNat n => exact Nat.toDigits_ne_nil
    | negSucc n => exact List.cons_ne_nil _ _
  rcases List.exists_mem_of_ne_nil _ hne with ⟨c, hc⟩
  have hmem : c ∈ commaSep ((n :: ns).map reprInt) := by
    cases ns with
    | nil => exact hc
    | cons m ns =>
        simp only [List.map_cons, commaSep, List.append_assoc]
        exact List.mem_append_left _ hc
  rcases mem_trim_or hmem with hb | hm
  · rw [isSpace_of_mem_reprInt hc] at hb
    exact absurd hb Bool.false_ne_true
  · exact List.ne_nil_of_mem hm

/-- A printed set of numbers is read as itself. -/
theorem integersIn_setStr (ns : List Int) : integersIn (setStr ns) = some ns := by
  have htrim : trim (setStr ns) = setStr ns :=
    trim_of_ends (c := '{') (d := '}') (t := '{' :: commaSep (ns.map reprInt)) rfl rfl rfl
  have hmid : (commaSep (ns.map reprInt) ++ ['}']).reverse
      = '}' :: (commaSep (ns.map reprInt)).reverse := by
    rw [List.reverse_append, List.reverse_singleton, List.singleton_append]
  rw [integersIn, htrim]
  simp only [setStr, List.cons_append, hmid, List.reverse_reverse]
  cases ns with
  | nil => rfl
  | cons n ns =>
      have hcomma : ∀ y ∈ reprInt n :: ns.map reprInt, ',' ∉ y := by
        intro y hy hmem
        rw [← List.map_cons] at hy
        rcases List.mem_map.mp hy with ⟨m, -, rfl⟩
        rcases mem_reprInt hmem with hc | hc
        · exact absurd hc (by decide)
        · exact absurd hc (by decide)
      have hread : ∀ ms : List Int, (ms.map fun m => ' ' :: reprInt m).mapM integerIn = some ms := by
        intro ms
        induction ms with
        | nil => rfl
        | cons m ms ih =>
            rw [List.map_cons, List.mapM_cons, integerIn_space, integerIn_reprInt, ih]
            rfl
      rw [if_neg (trim_commaSep_ne n ns), List.map_cons, splitOn_commaSep _ _ hcomma,
        List.mapM_cons, integerIn_reprInt, List.map_map]
      change (do let b ← (ns.map fun m => ' ' :: reprInt m).mapM integerIn; pure (n :: b)) = _
      rw [hread]
      rfl

end Pg
