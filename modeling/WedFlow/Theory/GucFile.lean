import Mathlib.Data.List.TakeWhile
import WedFlow.Core.GucFile

/-!
# Reading Lists Back

A list in `postgresql.conf` is read twice: the scanner takes the text between the
quotes for a constant, and what the constant stands for is split into names. Both
go from left to right, and neither stops at a comma of its own accord: a constant
ends at a quote, and a quoted name goes on over commas. So a list that is put
together of entries is not read entry by entry.

There are two rules for it. If no quote of an entry ends the constant, the constant
is that of the entries one after the other (`gucScanstr_comma`). And what stands
before a comma is read by itself if it is a list (`readNames_append`); if it is not,
then neither is the whole, unless a quote behind the comma makes it one
(`readNames_none`).

## Main definitions

* `whole`: No quote ends the constant a text stands in.
* `readNames`: The names in a list that is not empty.
* `Bare`: A name a list can hold as it is.
* `entryNames`: The names in a list with the given entries.

## Theorems

* `lex_eq_lex`, `splitNames_eq`: The bounds do not matter.
* `stringRest_of_whole`, `gucScanstr_comma`: Constants that are put together.
* `readNames_append`, `readNames_none`: Lists that are put together.
* `loadLibraries_entries`: What the server loads for entries and one more name.
* `entryNames_eq_flatMap`: Entries that can be read alone are read one by one.
-/

namespace Guc

open Pg (isSpace)

/-! ## The scanner -/

theorem lex_nil (n : Nat) : lex n [] = [] := by
  cases n <;> rfl

theorem stringRest_length {cs : List Char} {r : List Char × List Char}
    (h : stringRest cs = some r) : r.2.length ≤ cs.length := by
  fun_induction stringRest cs generalizing r with
  | case1 => exact absurd h.symm (Option.some_ne_none r)
  | case2 c cs ih =>
      rcases Option.map_eq_some_iff.mp h with ⟨s, hs, rfl⟩
      have hle := ih hs
      simp only [List.length_cons]
      omega
  | case3 ds s hs ih =>
      cases h
      have hle := ih hs
      simp only [List.length_cons]
      omega
  | case4 ds hs ih =>
      cases h
      simp only [List.length_cons]
      omega
  | case5 cs hcs =>
      cases h
      simp only [List.length_cons]
      omega
  | case6 => exact absurd h.symm (Option.some_ne_none r)
  | case7 c cs _ _ _ ih =>
      rcases Option.map_eq_some_iff.mp h with ⟨s, hs, rfl⟩
      have hle := ih hs
      simp only [List.length_cons]
      omega

theorem numberToken_pos {cs : List Char} {t : Token} {k : Nat}
    (h : numberToken cs = some (t, k)) : 0 < k := by
  unfold numberToken at h
  dsimp only at h
  split at h
  · cases h
    omega
  · split at h
    · cases h
      omega
    · exact absurd h.symm (Option.some_ne_none _)

/-- As many tokens as there are characters is all there can be, so a larger bound
    changes nothing. -/
theorem lex_eq_lex {n m : Nat} {cs : List Char} (hn : cs.length ≤ n) (hm : cs.length ≤ m) :
    lex n cs = lex m cs := by
  induction n generalizing m cs with
  | zero => rw [List.length_eq_zero_iff.mp (Nat.le_zero.mp hn), lex_nil, lex_nil]
  | succ n ih =>
      cases cs with
      | nil => rw [lex_nil, lex_nil]
      | cons c cs =>
          rw [List.length_cons] at hn hm
          cases m with
          | zero => omega
          | succ m =>
              -- Whatever token comes first, what follows it is no longer than the tail.
              have hstep : ∀ rest : List Char, rest.length ≤ cs.length → lex n rest = lex m rest :=
                fun rest h => ih (by omega) (by omega)
              have hstr : ∀ r, stringRest cs = some r → lex n r.2 = lex m r.2 :=
                fun r h => hstep _ (stringRest_length h)
              have hnum : ∀ t k, numberToken (c :: cs) = some (t, k) →
                  lex n ((c :: cs).drop k) = lex m ((c :: cs).drop k) := by
                intro t k h
                have hk := numberToken_pos h
                refine hstep _ ?_
                rw [List.length_drop, List.length_cons]
                omega
              rw [lex, lex, hstep cs le_rfl, hstep _ (List.length_dropWhile_le _ _)]
              cases hs : stringRest cs with
              | none =>
                  cases hk : numberToken (c :: cs) with
                  | none => rfl
                  | some p => simp only [hnum p.1 p.2 hk]
              | some r =>
                  cases hk : numberToken (c :: cs) with
                  | none => simp only [hstr r hs]
                  | some p => simp only [hstr r hs, hnum p.1 p.2 hk]

theorem lex_quote (n : Nat) {cs : List Char} {r : List Char × List Char}
    (h : stringRest cs = some r) : lex (n + 1) ('\'' :: cs) = .string r.1 :: lex n r.2 := by
  rw [lex, h]
  rfl

/-! ## Constants -/

/-- The scanner takes the text whole for a part of a constant: a quote in it is doubled
    or stands behind a backslash. -/
def whole : List Char → Bool
  | [] => true
  | '\\' :: _ :: cs => whole cs
  | '\'' :: '\'' :: cs => whole cs
  | c :: cs => decide (c ≠ '\\') && decide (c ≠ '\'') && whole cs

theorem whole_append {s : List Char} (h : whole s = true) (t : List Char) :
    whole (s ++ t) = whole t := by
  fun_induction whole s with
  | case1 => rfl
  | case2 c cs ih => exact ih h
  | case3 cs ih => exact ih h
  | case4 c cs _ _ ih =>
      simp only [Bool.and_eq_true, decide_eq_true_eq] at h
      rw [List.cons_append, whole.eq_4 _ _ (fun _ _ he _ => h.1.1 he) (fun _ he _ => h.1.2 he),
        ih h.2]
      simp only [ne_eq, h.1.1, not_false_eq_true, decide_true, h.1.2, Bool.and_self, Bool.true_and]

/-- A text without quotes and backslashes. -/
theorem whole_of_plain {s : List Char} (h : ∀ c ∈ s, c ≠ '\'' ∧ c ≠ '\\') : whole s = true := by
  induction s with
  | nil => rfl
  | cons c cs ih =>
      rw [List.forall_mem_cons] at h
      rw [whole.eq_4 _ _ (fun _ _ he _ => h.1.2 he) (fun _ he _ => h.1.1 he), ih h.2]
      simp only [ne_eq, h.1.2, not_false_eq_true, decide_true, h.1.1, Bool.and_self]

theorem stringRest_append {s t : List Char} {r : List Char × List Char} (hs : whole s = true)
    (ht : stringRest t = some r) : stringRest (s ++ t) = some (s ++ r.1, r.2) := by
  fun_induction whole s with
  | case1 => exact ht
  | case2 c cs ih =>
      rw [List.cons_append, List.cons_append, stringRest, ih hs]
      rfl
  | case3 cs ih =>
      rw [List.cons_append, List.cons_append, stringRest, ih hs]
      rfl
  | case4 c cs _ _ ih =>
      simp only [Bool.and_eq_true, decide_eq_true_eq] at hs
      rw [List.cons_append, stringRest.eq_5 _ _ (fun _ _ he _ => hs.1.1 he) hs.1.2, if_neg hs.1.1,
        ih hs.2]
      rfl

/-- Such a text is the constant it is written as. -/
theorem stringRest_of_whole {s : List Char} (h : whole s = true) :
    stringRest (s ++ ['\'']) = some (s, []) := by
  have hend := stringRest_append h (t := ['\'']) (r := ([], [])) rfl
  rw [hend, List.append_nil]

theorem gucScanstr_of_plain {s : List Char} (h : ∀ c ∈ s, c ≠ '\'' ∧ c ≠ '\\') :
    gucScanstr s = s := by
  unfold gucScanstr
  induction s with
  | nil => rfl
  | cons c cs ih =>
      rw [List.forall_mem_cons] at h
      rw [scanstr.eq_def]
      dsimp only
      rw [if_neg h.1.2, if_neg (fun he => h.1.1 he.1), ih h.2]

theorem scanstr_eq_drop (k : Nat) (cs : List Char) : scanstr k cs = gucScanstr (cs.drop k) := by
  induction k generalizing cs with
  | zero => rfl
  | succ k ih =>
      cases cs with
      | nil => rfl
      | cons c cs =>
          rw [scanstr, List.drop_succ_cons]
          exact ih cs

/-- An octal number ends at a comma. -/
theorem octal_digits (x t : List Char) :
    ((x ++ ',' :: t).take 3).takeWhile isOctal = (x.take 3).takeWhile isOctal := by
  have hcomma : ((',' :: t).take (3 - x.length)).takeWhile isOctal = [] := by
    cases 3 - x.length with
    | zero => rfl
    | succ n => rfl
  rw [List.take_append, List.takeWhile_append, hcomma, List.append_nil]
  split
  · next hlen => exact ((List.takeWhile_prefix isOctal).eq_of_length hlen).symm
  · rfl

/-- All the digits of an octal number are taken, and they are no quotes. -/
theorem octal_rest {d : Char} {x : List Char} (hoct : isOctal d = true)
    (h : whole (x ++ [',']) = true) : ∃ y, ((d :: x).take 3).takeWhile isOctal ++ y = d :: x ∧
      y.length ≤ x.length ∧ whole (y ++ [',']) = true := by
  rcases (List.takeWhile_prefix isOctal).trans (List.take_prefix 3 (d :: x)) with ⟨y, hy⟩
  have hxy : (x.take 2).takeWhile isOctal ++ y = x := by
    rw [List.take_succ_cons, List.takeWhile_cons_of_pos hoct, List.cons_append, List.cons.injEq] at hy
    exact hy.2
  refine ⟨y, hy, ?_, ?_⟩
  · rw [← hxy, List.length_append]
    exact Nat.le_add_left _ _
  · rw [← hxy, List.append_assoc, whole_append (whole_of_plain (fun e he => ?_))] at h
    · exact h
    · have hdigit := List.mem_takeWhile_imp he
      constructor
      · rintro rfl
        exact absurd hdigit (by decide)
      · rintro rfl
        exact absurd hdigit (by decide)

/-- Escapes and doubled quotes do not reach over a comma. -/
theorem gucScanstr_comma {x : List Char} (h : whole (x ++ [',']) = true) :
    ∃ v, ∀ t, gucScanstr (x ++ ',' :: t) = v ++ ',' :: gucScanstr t := by
  induction hn : x.length using Nat.strong_induction_on generalizing x with
  | _ n ih =>
  subst hn
  rcases x with _ | ⟨c, x⟩
  · exact ⟨[], fun t => rfl⟩
  by_cases hslash : c = '\\'
  · subst hslash
    rcases x with _ | ⟨d, x⟩
    · exact ⟨[], fun t => rfl⟩
    have hx : whole (x ++ [',']) = true := h
    by_cases hoct : isOctal d = true
    · rcases octal_rest hoct hx with ⟨y, hy, hle, hwhole⟩
      rcases ih y.length (by simp only [List.length_cons]; omega) hwhole rfl with ⟨v, hv⟩
      refine ⟨octal (((d :: x).take 3).takeWhile isOctal) :: v, fun t => ?_⟩
      rw [gucScanstr, List.cons_append, List.cons_append, scanstr]
      dsimp only
      rw [if_pos rfl, if_pos hoct, ← List.cons_append, octal_digits, scanstr_eq_drop]
      nth_rewrite 3 [← hy]
      rw [List.append_assoc, List.drop_left, hv t, List.cons_append]
    · rcases ih x.length (by simp only [List.length_cons]; omega) hx rfl with ⟨v, hv⟩
      refine ⟨unescape d :: v, fun t => ?_⟩
      rw [gucScanstr, List.cons_append, List.cons_append, scanstr]
      dsimp only
      rw [if_pos rfl, if_neg hoct]
      exact congrArg (unescape d :: ·) (hv t)
  · by_cases hquote : c = '\''
    · subst hquote
      rcases x with _ | ⟨d, x⟩
      · exact absurd h (by decide)
      by_cases hd : d = '\''
      · subst hd
        have hx : whole (x ++ [',']) = true := h
        rcases ih x.length (by simp only [List.length_cons]; omega) hx rfl with ⟨v, hv⟩
        exact ⟨'\'' :: v, fun t => congrArg ('\'' :: ·) (hv t)⟩
      · rw [List.cons_append, List.cons_append, whole.eq_4 _ _ (fun _ _ he _ => hslash he)
          (fun _ _ he => hd (List.cons.inj he).1)] at h
        exact absurd h (by simp)
    · have hx : whole (x ++ [',']) = true := by
        rw [List.cons_append, whole.eq_4 _ _ (fun _ _ he _ => hslash he) (fun _ he _ => hquote he)]
          at h
        exact (Bool.and_eq_true _ _ ▸ h).2
      rcases ih x.length (by simp only [List.length_cons]; omega) hx rfl with ⟨v, hv⟩
      refine ⟨c :: v, fun t => ?_⟩
      rw [List.cons_append, gucScanstr, scanstr.eq_def]
      dsimp only
      rw [if_neg hslash, if_neg (fun he => hquote he.1)]
      exact congrArg (c :: ·) (hv t)

/-! ## Lists -/

theorem quotedName_length {cs : List Char} {r : List Char × List Char}
    (h : quotedName cs = some r) : r.2.length ≤ cs.length := by
  fun_induction quotedName cs generalizing r with
  | case1 => exact absurd h.symm (Option.some_ne_none r)
  | case2 ds ih =>
      rcases Option.map_eq_some_iff.mp h with ⟨s, hs, rfl⟩
      have hle := ih hs
      simp only [List.length_cons]
      omega
  | case3 cs hcs =>
      cases h
      simp only [List.length_cons]
      omega
  | case4 c cs _ ih =>
      rcases Option.map_eq_some_iff.mp h with ⟨s, hs, rfl⟩
      have hle := ih hs
      simp only [List.length_cons]
      omega

theorem firstName_length {cs rest x : List Char} (h : firstName cs = some (x, rest)) :
    rest.length ≤ cs.length := by
  unfold firstName at h
  split at h
  · next ds =>
      rcases Option.map_eq_some_iff.mp h with ⟨r, hr, he⟩
      have hle := quotedName_length hr
      rw [(Prod.mk.inj he).2] at hle
      simp only [List.length_cons]
      omega
  · dsimp only at h
    split at h
    · exact absurd h.symm (Option.some_ne_none _)
    · rw [← (Prod.mk.inj (Option.some.inj h)).2]
      exact List.length_dropWhile_le _ _

/-- A name and a comma are more than nothing, so a larger bound changes nothing. -/
theorem splitNames_eq {n m : Nat} {cs : List Char} (hn : cs.length < n) (hm : cs.length < m) :
    splitNames n cs = splitNames m cs := by
  induction n generalizing m cs with
  | zero => omega
  | succ n ih =>
      cases m with
      | zero => omega
      | succ m =>
          rw [splitNames, splitNames]
          cases hfirst : firstName cs with
          | none => rfl
          | some r =>
              rcases r with ⟨x, rest⟩
              have hrest := firstName_length hfirst
              dsimp only
              cases hdrop : rest.dropWhile isSpace with
              | nil => rfl
              | cons c ds =>
                  have hle := List.length_dropWhile_le isSpace rest
                  have hds := List.length_dropWhile_le isSpace ds
                  rw [hdrop, List.length_cons] at hle
                  dsimp only
                  rw [ih (m := m) (by omega) (by omega)]

/-- The names in a list that is not empty. -/
def readNames (cs : List Char) : Option (List (List Char)) :=
  splitNames (cs.length + 1) (cs.dropWhile isSpace)

theorem readNames_eq (cs : List Char) : readNames cs =
    match firstName (cs.dropWhile isSpace) with
    | none => none
    | some (x, rest) =>
      match rest.dropWhile isSpace with
      | [] => some [x]
      | c :: ds => if c = ',' then (readNames ds).map (x :: ·) else none := by
  rw [readNames, splitNames]
  cases hfirst : firstName (cs.dropWhile isSpace) with
  | none => rfl
  | some r =>
      rcases r with ⟨x, rest⟩
      have hrest := firstName_length hfirst
      have hcs := List.length_dropWhile_le isSpace cs
      dsimp only
      cases hdrop : rest.dropWhile isSpace with
      | nil => rfl
      | cons c ds =>
          have hle := List.length_dropWhile_le isSpace rest
          have hds := List.length_dropWhile_le isSpace ds
          rw [hdrop, List.length_cons] at hle
          dsimp only
          rw [readNames, splitNames_eq (n := cs.length) (m := ds.length + 1) (by omega) (by omega)]

theorem loadLibraries_eq (s : List Char) : loadLibraries s = (readNames s).getD [] := by
  unfold loadLibraries splitIdentifierString
  split
  · next h =>
      rw [readNames_eq, h]
      rfl
  · next h =>
      have hlen := List.length_dropWhile_le isSpace s
      rw [readNames]

/-! ### Before a comma -/

theorem quotedName_append {cs : List Char} {r : List Char × List Char} (h : quotedName cs = some r)
    (u : List Char) : quotedName (cs ++ ',' :: u) = some (r.1, r.2 ++ ',' :: u) := by
  fun_induction quotedName cs generalizing r with
  | case1 => exact absurd h.symm (Option.some_ne_none r)
  | case2 ds ih =>
      rcases Option.map_eq_some_iff.mp h with ⟨s, hs, rfl⟩
      rw [List.cons_append, List.cons_append, quotedName, ih hs]
      rfl
  | case3 cs hcs =>
      cases h
      -- What follows the quote is no quote, be it the comma.
      rw [List.cons_append, quotedName.eq_3]
      intro ds he
      cases cs with
      | nil => exact absurd (List.cons.inj he).1 (by decide)
      | cons d cs => exact hcs cs (congrArg (· :: cs) (List.cons.inj he).1)
  | case4 c cs hc ih =>
      rcases Option.map_eq_some_iff.mp h with ⟨s, hs, rfl⟩
      rw [List.cons_append, quotedName.eq_4 _ _ hc, ih hs]
      rfl

/-- A quote that is not there ends no name. -/
theorem quotedName_of_not_mem {cs : List Char} (h : '"' ∉ cs) : quotedName cs = none := by
  induction cs with
  | nil => rfl
  | cons c cs ih =>
      rw [List.mem_cons, not_or] at h
      rw [quotedName.eq_4 _ _ (fun he => h.1 he.symm), ih h.2]
      rfl

theorem quotedName_none {cs u : List Char} (h : quotedName cs = none) (hu : '"' ∉ u) :
    quotedName (cs ++ ',' :: u) = none := by
  fun_induction quotedName cs with
  | case1 =>
      refine quotedName_of_not_mem ?_
      rw [List.nil_append, List.mem_cons, not_or]
      exact ⟨by decide, hu⟩
  | case2 ds ih =>
      rw [List.cons_append, List.cons_append, quotedName, ih (Option.map_eq_none_iff.mp h)]
      rfl
  | case3 cs hcs => exact absurd h (Option.some_ne_none _)
  | case4 c cs hc ih =>
      rw [List.cons_append, quotedName.eq_4 _ _ hc, ih (Option.map_eq_none_iff.mp h)]
      rfl

/-- An unquoted name does not reach over a comma. -/
theorem takeWhile_comma (cs u : List Char) :
    (cs ++ ',' :: u).takeWhile (fun c => decide (c ≠ ',') && !isSpace c)
        = cs.takeWhile (fun c => decide (c ≠ ',') && !isSpace c) ∧
      (cs ++ ',' :: u).dropWhile (fun c => decide (c ≠ ',') && !isSpace c)
        = cs.dropWhile (fun c => decide (c ≠ ',') && !isSpace c) ++ ',' :: u := by
  induction cs with
  | nil => exact ⟨rfl, rfl⟩
  | cons c cs ih =>
      rw [List.cons_append, List.takeWhile_cons, List.takeWhile_cons, List.dropWhile_cons,
        List.dropWhile_cons]
      split
      · exact ⟨congrArg (c :: ·) ih.1, ih.2⟩
      · exact ⟨rfl, rfl⟩

theorem firstName_append {cs x rest : List Char} (h : firstName cs = some (x, rest))
    (u : List Char) : firstName (cs ++ ',' :: u) = some (x, rest ++ ',' :: u) := by
  unfold firstName at h
  split at h
  · next ds =>
      rcases Option.map_eq_some_iff.mp h with ⟨r, hr, he⟩
      rw [List.cons_append, firstName, quotedName_append hr u, Option.map_some]
      rw [(Prod.mk.inj he).1, (Prod.mk.inj he).2]
  · next hcs =>
      dsimp only at h
      split at h
      · exact absurd h.symm (Option.some_ne_none _)
      · next hne =>
          have hcons : ∀ ds, cs ++ ',' :: u ≠ '"' :: ds := by
            intro ds he
            cases cs with
            | nil => exact hne rfl
            | cons c cs => exact hcs cs (congrArg (· :: cs) (List.cons.inj he).1)
          rw [firstName.eq_2 _ hcons, (takeWhile_comma cs u).1, (takeWhile_comma cs u).2,
            if_neg hne, (Prod.mk.inj (Option.some.inj h)).1, (Prod.mk.inj (Option.some.inj h)).2]

theorem firstName_none {cs u : List Char} (h : firstName cs = none) (hu : '"' ∉ u) :
    firstName (cs ++ ',' :: u) = none := by
  unfold firstName at h
  split at h
  · next ds =>
      rw [List.cons_append, firstName, quotedName_none (Option.map_eq_none_iff.mp h) hu]
      rfl
  · next hcs =>
      dsimp only at h
      split at h
      · next hnil =>
          have hcons : ∀ ds, cs ++ ',' :: u ≠ '"' :: ds := by
            intro ds he
            cases cs with
            | nil => exact absurd (List.cons.inj he).1 (by decide)
            | cons c cs => exact hcs cs (congrArg (· :: cs) (List.cons.inj he).1)
          rw [firstName.eq_2 _ hcons, (takeWhile_comma cs u).1, if_pos hnil]
      · exact absurd h (Option.some_ne_none _)

/-- White space is dropped up to a comma at most. -/
theorem dropWhile_comma (cs u : List Char) :
    (cs ++ ',' :: u).dropWhile isSpace = cs.dropWhile isSpace ++ ',' :: u := by
  induction cs with
  | nil => rfl
  | cons c cs ih =>
      rw [List.cons_append, List.dropWhile_cons, List.dropWhile_cons]
      split
      · exact ih
      · rfl

/-- A list before a comma is read by itself. -/
theorem readNames_append {v : List Char} {ns : List (List Char)} (h : readNames v = some ns)
    (u : List Char) : readNames (v ++ ',' :: u) = (readNames u).map (ns ++ ·) := by
  induction hn : v.length using Nat.strong_induction_on generalizing v ns with
  | _ n ih =>
  subst hn
  rw [readNames_eq] at h
  rw [readNames_eq, dropWhile_comma]
  cases hfirst : firstName (v.dropWhile isSpace) with
  | none =>
      rw [hfirst] at h
      exact absurd h.symm (Option.some_ne_none ns)
  | some r =>
      rcases r with ⟨x, rest⟩
      have hrest := firstName_length hfirst
      have hv := List.length_dropWhile_le isSpace v
      rw [hfirst] at h
      rw [firstName_append hfirst]
      dsimp only at h ⊢
      rw [dropWhile_comma]
      cases hdrop : rest.dropWhile isSpace with
      | nil =>
          rw [hdrop] at h
          obtain rfl : [x] = ns := Option.some.inj h
          rfl
      | cons c ds =>
          have hle := List.length_dropWhile_le isSpace rest
          rw [hdrop] at h hle
          dsimp only [List.cons_append] at h hle ⊢
          split at h
          · next hc =>
              rcases Option.map_eq_some_iff.mp h with ⟨ms, hms, rfl⟩
              rw [if_pos hc, ih ds.length (by rw [List.length_cons] at hle; omega) hms rfl,
                Option.map_map]
              rfl
          · exact absurd h.symm (Option.some_ne_none ns)

/-- Without a quote behind the comma, a list that cannot be read before it spoils the
    whole. -/
theorem readNames_none {v u : List Char} (h : readNames v = none) (hu : '"' ∉ u) :
    readNames (v ++ ',' :: u) = none := by
  induction hn : v.length using Nat.strong_induction_on generalizing v with
  | _ n ih =>
  subst hn
  rw [readNames_eq] at h
  rw [readNames_eq, dropWhile_comma]
  cases hfirst : firstName (v.dropWhile isSpace) with
  | none => rw [firstName_none hfirst hu]
  | some r =>
      rcases r with ⟨x, rest⟩
      have hrest := firstName_length hfirst
      have hv := List.length_dropWhile_le isSpace v
      rw [hfirst] at h
      rw [firstName_append hfirst]
      dsimp only at h ⊢
      rw [dropWhile_comma]
      cases hdrop : rest.dropWhile isSpace with
      | nil =>
          rw [hdrop] at h
          exact absurd h (Option.some_ne_none _)
      | cons c ds =>
          have hle := List.length_dropWhile_le isSpace rest
          rw [hdrop] at h hle
          dsimp only [List.cons_append] at h hle ⊢
          split at h
          · next hc =>
              rw [if_pos hc, ih ds.length (by rw [List.length_cons] at hle; omega)
                (Option.map_eq_none_iff.mp h) rfl]
              rfl
          · next hc => rw [if_neg hc]

/-- A name that a list can hold as it is. -/
def Bare (x : List Char) : Prop :=
  x ≠ [] ∧ ∀ c ∈ x, c ≠ '\'' ∧ c ≠ '\\' ∧ c ≠ '"' ∧ c ≠ ',' ∧ isSpace c = false

theorem readNames_of_bare {x : List Char} (h : Bare x) :
    readNames x = some [downcaseTruncateIdentifier x] := by
  have hin : ∀ c ∈ x, (decide (c ≠ ',') && !isSpace c) = true := by
    intro c hc
    rcases h.2 c hc with ⟨-, -, -, hcomma, hspace⟩
    rw [hspace, decide_eq_true hcomma]
    rfl
  rcases List.exists_cons_of_ne_nil h.1 with ⟨c, cs, rfl⟩
  rcases h.2 c List.mem_cons_self with ⟨-, -, hquote, -, hspace⟩
  rw [readNames_eq, List.dropWhile_cons_of_neg (by rw [hspace]; exact Bool.false_ne_true),
    firstName.eq_2 _ (fun ds he => hquote (List.cons.inj he).1), List.takeWhile_eq_self_iff.mpr hin,
    List.dropWhile_eq_nil_iff.mpr hin, if_neg (List.cons_ne_nil c cs)]
  rfl

/-! ## Entries -/

/-- The names the server reads in a list with these entries, if it can. Every entry has
    a comma behind it; the last one is not part of the list. -/
def entryNames (xs : List (List Char)) : Option (List (List Char)) :=
  if xs = [] then some [] else readNames (gucScanstr (xs.flatMap (· ++ [',']))).dropLast

/-- The constant of some entries: what stands for them, and the comma behind the last. -/
theorem gucScanstr_entries {xs : List (List Char)} (hne : xs ≠ [])
    (h : ∀ x ∈ xs, whole (x ++ [',']) = true) :
    ∃ v, ∀ t, gucScanstr (xs.flatMap (· ++ [',']) ++ t) = v ++ ',' :: gucScanstr t := by
  induction xs with
  | nil => exact absurd rfl hne
  | cons x xs ih =>
      rw [List.forall_mem_cons] at h
      rcases gucScanstr_comma h.1 with ⟨v, hv⟩
      by_cases hnil : xs = []
      · subst hnil
        refine ⟨v, fun t => ?_⟩
        rw [← hv t]
        simp
      · rcases ih hnil h.2 with ⟨v', hv'⟩
        refine ⟨v ++ ',' :: v', fun t => ?_⟩
        rw [List.flatMap_cons, List.append_assoc, List.append_assoc, List.singleton_append, hv, hv']
        simp

theorem entryNames_eq_readNames {xs : List (List Char)} {v : List Char} (hne : xs ≠ [])
    (hv : ∀ t, gucScanstr (xs.flatMap (· ++ [',']) ++ t) = v ++ ',' :: gucScanstr t) :
    entryNames xs = readNames v := by
  have hend := hv []
  rw [List.append_nil] at hend
  rw [entryNames, if_neg hne, hend]
  exact congrArg readNames List.dropLast_concat

/-- What the server loads for the entries and one more name. -/
theorem loadLibraries_entries {xs : List (List Char)} {w : List Char}
    (h : ∀ x ∈ xs, whole (x ++ [',']) = true) (hw : Bare w) :
    loadLibraries (gucScanstr (xs.flatMap (· ++ [',']) ++ w))
      = ((entryNames xs).map (· ++ [downcaseTruncateIdentifier w])).getD [] := by
  have hplain : gucScanstr w = w :=
    gucScanstr_of_plain fun c hc => ⟨(hw.2 c hc).1, (hw.2 c hc).2.1⟩
  have hquote : '"' ∉ w := fun hc => (hw.2 _ hc).2.2.1 rfl
  rw [loadLibraries_eq]
  by_cases hne : xs = []
  · subst hne
    rw [List.flatMap_nil, List.nil_append, hplain, readNames_of_bare hw]
    rfl
  · rcases gucScanstr_entries hne h with ⟨v, hv⟩
    rw [hv w, hplain, entryNames_eq_readNames hne hv]
    cases hread : readNames v with
    | none => rw [readNames_none hread hquote]; rfl
    | some ns => rw [readNames_append hread, readNames_of_bare hw]; rfl

/-- Entries that can be read alone are read one by one, so their order does not matter. -/
theorem entryNames_eq_flatMap {xs : List (List Char)} (names : List Char → List (List Char))
    (h : ∀ x ∈ xs, whole (x ++ [',']) = true) (hread : ∀ x ∈ xs, entryNames [x] = some (names x)) :
    entryNames xs = some (xs.flatMap names) := by
  induction xs with
  | nil => rfl
  | cons x xs ih =>
      rw [List.forall_mem_cons] at h hread
      by_cases hnil : xs = []
      · subst hnil
        rw [hread.1]
        simp
      · rcases gucScanstr_comma h.1 with ⟨v, hv⟩
        rcases gucScanstr_entries hnil h.2 with ⟨v', hv'⟩
        have hx : readNames v = some (names x) := by
          rw [← hread.1, entryNames_eq_readNames (List.cons_ne_nil x [])]
          intro t
          rw [← hv t]
          simp
        have hxs : readNames v' = some (xs.flatMap names) := by
          rw [← ih h.2 hread.2, entryNames_eq_readNames hnil hv']
        have hall : entryNames (x :: xs) = readNames (v ++ ',' :: v') := by
          refine entryNames_eq_readNames (List.cons_ne_nil x xs) (fun t => ?_)
          rw [List.flatMap_cons, List.append_assoc, List.append_assoc, List.singleton_append, hv,
            hv', List.append_assoc]
          rfl
        rw [hall, readNames_append hx, hxs, Option.map_some, List.flatMap_cons]


end Guc
