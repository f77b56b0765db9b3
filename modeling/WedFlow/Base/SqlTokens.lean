import Mathlib.Algebra.Order.BigOperators.Group.List
import Mathlib.Algebra.Order.Ring.Nat
import WedFlow.Base.SqlText

/-!
# What Tokens Are Made Of

Two rules for the scanner, and what they say about names. A property of tokens
that holds of the pieces the scanner has in hand, mode by mode, holds of all
tokens of a text. And a weight of tokens that never exceeds the weight of the
characters read for them adds up over a text.

By the first, an identifier without quotes is a lower-case word whose characters
stand in the text, folded. By the second, a quoted identifier costs its two
quotes, and two more for every double quote it contains. A list of names that is
printed without quotes around them therefore never pays for a quoted one.

## Main definitions

* `Reads`: What a character does when it finishes no token.
* `Word`: A lower-case word with characters of a given kind.
* `Token.Made`, `Mode.Made`: Tokens with characters of a given kind.
* `Token.Short`: A token that is not too long for a name.
* `Token.quotes`, `Mode.quotes`: The double quotes that were read for them.

## Theorems

* `scan_tokens`: The rule for properties of tokens.
* `scan_weight`: The rule for weights.
* `start_cases`, `next_cases`: What one character can do.
* `made_scan`: The characters of tokens are those of the text.
* `short_scan`: Names are cut to their length.
* `quotes_scan`: Every double quote of a quoted name is paid for.
* `parseColumns_sublist`: The tokens a column list is read from.
* `words_of_parseColumns`: A column list without quotes of its own names words.
-/

namespace Sql

/-! ## Two rules -/

/-- What every character keeps, mode by mode, holds of the tokens of a text. -/
theorem scan_tokens (C : Char → Prop) (M : Mode → Prop) (P : Token → Prop)
    (hnext : ∀ m c ts m', M m → C c → next m c = some (ts, m') → (∀ t ∈ ts, P t) ∧ M m')
    (hfinish : ∀ m ts, M m → finish m = some ts → ∀ t ∈ ts, P t) (cs : List Char) (m : Mode)
    (toks : List Token) (hcs : ∀ c ∈ cs, C c) (hm : M m) (h : scan m cs = some toks) :
    ∀ t ∈ toks, P t := by
  induction cs generalizing m toks with
  | nil => exact hfinish m toks hm h
  | cons c cs ih =>
      rcases List.forall_mem_cons.mp hcs with ⟨hc, hrest⟩
      rw [scan] at h
      cases hn : next m c with
      | none =>
          rw [hn] at h
          exact absurd h.symm (Option.some_ne_none toks)
      | some r =>
          rcases r with ⟨ts, m'⟩
          rw [hn] at h
          rcases Option.map_eq_some_iff.mp h with ⟨rest, hscan, rfl⟩
          rcases hnext m c ts m' hm hc hn with ⟨hts, hm'⟩
          exact List.forall_mem_append.mpr ⟨hts, ih m' rest hrest hm' hscan⟩

/-- If no character makes more weight of tokens and mode than it brings, a text
    has no tokens of more than its weight. -/
theorem scan_weight (tw : Token → Nat) (mw : Mode → Nat) (cw : Char → Nat)
    (hnext : ∀ m c ts m', next m c = some (ts, m') → (ts.map tw).sum + mw m' ≤ mw m + cw c)
    (hfinish : ∀ m ts, finish m = some ts → (ts.map tw).sum ≤ mw m) (cs : List Char) (m : Mode)
    (toks : List Token) (h : scan m cs = some toks) :
    (toks.map tw).sum ≤ mw m + (cs.map cw).sum := by
  induction cs generalizing m toks with
  | nil => exact hfinish m toks h
  | cons c cs ih =>
      rw [scan] at h
      cases hn : next m c with
      | none =>
          rw [hn] at h
          exact absurd h.symm (Option.some_ne_none toks)
      | some r =>
          rcases r with ⟨ts, m'⟩
          rw [hn] at h
          rcases Option.map_eq_some_iff.mp h with ⟨rest, hscan, rfl⟩
          have hstep := hnext m c ts m' hn
          have hrest := ih m' rest hscan
          rw [List.map_append, List.sum_append, List.map_cons, List.sum_cons]
          omega

/-! ## One character -/

/-- No name is being read. -/
def Mode.Nameless : Mode → Prop
  | .ident _ => False
  | .quoted _ => False
  | .quotedEnd _ => False
  | _ => True

/-- The token that is complete if nothing more belongs to it. -/
def Mode.token : Mode → Option Token
  | .strEnd acc => some (.sconst acc)
  | .ident acc => some (.ident (truncateIdentifier acc))
  | .num acc => some (.num acc)
  | .quotedEnd acc => some (.quoted (truncateIdentifier acc))
  | .dash => some (.self '-')
  | .slash => some (.self '/')
  | _ => none

/-- A character that finishes no token, as far as names are concerned. -/
inductive Reads : Mode → Char → Mode → Prop where
  | word (acc : List Char) (c : Char) (h : identCont c = true) :
      Reads (.ident acc) c (.ident (acc ++ [c.toLower]))
  | inside (acc : List Char) (c : Char) (h : c ≠ '"') :
      Reads (.quoted acc) c (.quoted (acc ++ [c]))
  | close (acc : List Char) : Reads (.quoted acc) '"' (.quotedEnd acc)
  | double (acc : List Char) : Reads (.quotedEnd acc) '"' (.quoted (acc ++ ['"']))
  | other (m : Mode) (c : Char) (m' : Mode) (h : m'.Nameless) : Reads m c m'

/-- A character between tokens stands for itself, or it starts a quoted name, a word,
    or something that is no name. -/
theorem start_cases {c : Char} {ts : List Token} {m : Mode} (h : start c = some (ts, m)) :
    (ts = [.self c] ∧ m = .normal) ∨
      (ts = [] ∧ (m.Nameless ∨ (c = '"' ∧ m = .quoted []) ∨
        (identStart c = true ∧ m = .ident [c.toLower]))) := by
  unfold start at h
  split_ifs at h with h1 h2 h3 h4 h5 h6 h7 h8
  all_goals
    rcases Prod.mk.inj (Option.some.inj h) with ⟨rfl, rfl⟩
  · exact .inr ⟨rfl, .inl trivial⟩
  · exact .inr ⟨rfl, .inl trivial⟩
  · exact .inr ⟨rfl, .inr (.inl ⟨h3, rfl⟩)⟩
  · exact .inr ⟨rfl, .inl trivial⟩
  · exact .inr ⟨rfl, .inl trivial⟩
  · exact .inr ⟨rfl, .inl trivial⟩
  · exact .inr ⟨rfl, .inr (.inr ⟨h8, rfl⟩)⟩
  · exact .inl ⟨rfl, rfl⟩

/-- A character finishes no token, or the one in hand, and starts the next. -/
theorem next_cases {m : Mode} {c : Char} {ts : List Token} {m' : Mode}
    (h : next m c = some (ts, m')) :
    (ts = [] ∧ Reads m c m') ∨ (m = .normal ∧ start c = some (ts, m')) ∨
      ∃ t, m.token = some t ∧ emit t c = some (ts, m') := by
  have hread : ∀ m₁ : Mode, some (([] : List Token), m₁) = some (ts, m') → Reads m c m₁ →
      ts = [] ∧ Reads m c m' := by
    intro m₁ heq hm₁
    rcases Prod.mk.inj (Option.some.inj heq) with ⟨rfl, rfl⟩
    exact ⟨rfl, hm₁⟩
  cases m <;> rw [next] at h
  case normal => exact .inr (.inl ⟨rfl, h⟩)
  case ident acc =>
    split_ifs at h with hc
    · exact .inl (hread _ h (.word acc c hc))
    · exact .inr (.inr ⟨_, rfl, h⟩)
  case quoted acc =>
    split_ifs at h with hc
    · subst hc
      exact .inl (hread _ h (.close acc))
    · exact .inl (hread _ h (.inside acc c hc))
  case quotedEnd acc =>
    split_ifs at h with hc
    · subst hc
      exact .inl (hread _ h (.double acc))
    · exact .inr (.inr ⟨_, rfl, h⟩)
  case blockStar d =>
    split_ifs at h
    all_goals exact .inl (hread _ h (.other _ _ _ trivial))
  -- The other modes hold no name: strings, numbers and comments.
  all_goals
    split_ifs at h
    all_goals
      first
      | exact .inl (hread _ h (.other _ _ _ trivial))
      | exact .inr (.inr ⟨_, rfl, h⟩)

theorem finish_cases {m : Mode} {ts : List Token} (h : finish m = some ts) :
    ts = [] ∨ ∃ t, m.token = some t ∧ ts = [t] := by
  cases m <;> rw [finish] at h
  case normal => exact .inl (Option.some.inj h).symm
  case lineComment => exact .inl (Option.some.inj h).symm
  case quotedEnd acc =>
    split_ifs at h
    exact .inr ⟨_, rfl, (Option.some.inj h).symm⟩
  all_goals
    first
    | exact .inr ⟨_, rfl, (Option.some.inj h).symm⟩
    | exact absurd h.symm (Option.some_ne_none ts)

/-! ## Words -/

/-- Folding leaves a character alone, or it was a capital and is a small letter
    now. -/
theorem toLower_cases (c : Char) :
    c.toLower = c ∨ (65 ≤ c.toNat ∧ c.toNat ≤ 90 ∧ c.toLower.toNat = c.toNat + 32) := by
  unfold Char.toLower
  split
  · next h =>
      right
      have hlo : 65 ≤ c.toNat := h.1
      have hhi : c.toNat ≤ 90 := h.2
      refine ⟨hlo, hhi, ?_⟩
      change (c.val + 32).toNat = c.val.toNat + 32
      have hval : c.val.toNat = c.toNat := rfl
      rw [UInt32.toNat_add]
      change (c.val.toNat + 32) % 2 ^ 32 = c.val.toNat + 32
      omega
  · exact .inl rfl

theorem identStart_toLower {c : Char} (h : identStart c = true) : identStart c.toLower = true := by
  rcases toLower_cases c with heq | ⟨hlo, hhi, heq⟩
  · rwa [heq]
  · rw [identStart_iff]
    omega

theorem identCont_toLower {c : Char} (h : identCont c = true) : identCont c.toLower = true := by
  rcases toLower_cases c with heq | ⟨hlo, hhi, heq⟩
  · rwa [heq]
  · rw [identCont_iff, identStart_iff]
    omega

theorem toLower_toLower (c : Char) : c.toLower.toLower = c.toLower := by
  rcases toLower_cases c with heq | ⟨hlo, hhi, heq⟩
  · rw [heq, heq]
  · rcases toLower_cases c.toLower with heq' | ⟨hlo', hhi', -⟩
    · exact heq'
    · omega

/-- A lower-case word whose characters are all of one kind. -/
structure Word (D : Char → Prop) (w : List Char) : Prop where
  start : ∃ d v, w = d :: v ∧ identStart d = true
  cont : ∀ c ∈ w, identCont c = true
  lower : ∀ c ∈ w, c.toLower = c
  kind : ∀ c ∈ w, D c

section Made

variable {D : Char → Prop}

/-- The characters of a name are of one kind, and an unquoted one is a word. -/
def Token.Made (D : Char → Prop) : Token → Prop
  | .ident w => Word D w
  | .quoted w => ∀ c ∈ w, D c
  | _ => True

/-- The same for what has been read of a name so far. -/
def Mode.Made (D : Char → Prop) : Mode → Prop
  | .ident acc => Word D acc
  | .quoted acc => ∀ c ∈ acc, D c
  | .quotedEnd acc => ∀ c ∈ acc, D c
  | _ => True

theorem Mode.Nameless.made {m : Mode} (h : m.Nameless) : m.Made D := by
  cases m with
  | ident acc => exact absurd h id
  | quoted acc => exact absurd h id
  | quotedEnd acc => exact absurd h id
  | _ => trivial

/-- A word that is cut is a word: at least its first character stays. -/
theorem Word.truncate {w : List Char} (h : Word D w) : Word D (truncateIdentifier w) := by
  have hsub : truncateIdentifier w <+: w := clip_sublist 63 w
  rcases h.start with ⟨d, v, rfl, hd⟩
  refine ⟨⟨d, clip (63 - d.utf8Size) v, ?_, hd⟩, fun c hc => h.cont c (hsub.subset hc),
    fun c hc => h.lower c (hsub.subset hc), fun c hc => h.kind c (hsub.subset hc)⟩
  have := d.utf8Size_le_four
  rw [truncateIdentifier, clip, if_pos (by omega)]

variable (hD : ∀ c, D c → D c.toLower)
include hD

theorem Word.single {c : Char} (hc : D c) (h : identStart c = true) : Word D [c.toLower] := by
  have hstart := identStart_toLower h
  refine ⟨⟨c.toLower, [], rfl, hstart⟩, ?_, ?_, ?_⟩
  · exact List.forall_mem_singleton.mpr ((identCont_iff _).mpr (.inl hstart))
  · exact List.forall_mem_singleton.mpr (toLower_toLower c)
  · exact List.forall_mem_singleton.mpr (hD c hc)

theorem Word.append {w : List Char} (hw : Word D w) {c : Char} (hc : D c)
    (h : identCont c = true) : Word D (w ++ [c.toLower]) := by
  rcases hw.start with ⟨d, v, rfl, hd⟩
  refine ⟨⟨d, v ++ [c.toLower], rfl, hd⟩, ?_, ?_, ?_⟩
  · exact List.forall_mem_append.mpr
      ⟨hw.cont, List.forall_mem_singleton.mpr (identCont_toLower h)⟩
  · exact List.forall_mem_append.mpr ⟨hw.lower, List.forall_mem_singleton.mpr (toLower_toLower c)⟩
  · exact List.forall_mem_append.mpr ⟨hw.kind, List.forall_mem_singleton.mpr (hD c hc)⟩

theorem made_start {c : Char} (hc : D c) {ts : List Token} {m : Mode}
    (h : start c = some (ts, m)) : (∀ t ∈ ts, t.Made D) ∧ m.Made D := by
  rcases start_cases h with ⟨rfl, rfl⟩ | ⟨rfl, hm⟩
  · exact ⟨List.forall_mem_singleton.mpr trivial, trivial⟩
  · refine ⟨fun t ht => absurd ht List.not_mem_nil, ?_⟩
    rcases hm with hless | ⟨-, rfl⟩ | ⟨hstart, rfl⟩
    · exact hless.made
    · exact fun d hd => absurd hd List.not_mem_nil
    · exact Word.single hD hc hstart

theorem made_emit {t : Token} (ht : t.Made D) {c : Char} (hc : D c) {ts : List Token} {m : Mode}
    (h : emit t c = some (ts, m)) : (∀ t ∈ ts, t.Made D) ∧ m.Made D := by
  rcases Option.map_eq_some_iff.mp h with ⟨⟨us, m'⟩, hstart, heq⟩
  rcases Prod.mk.inj heq with ⟨rfl, rfl⟩
  rcases made_start hD hc hstart with ⟨hus, hm⟩
  exact ⟨List.forall_mem_cons.mpr ⟨ht, hus⟩, hm⟩

omit hD in
theorem made_token {m : Mode} (hm : m.Made D) {t : Token} (h : m.token = some t) : t.Made D := by
  cases m with
  | ident acc =>
      rw [← Option.some.inj h]
      exact Word.truncate hm
  | quotedEnd acc =>
      rw [← Option.some.inj h]
      exact fun d hd => hm d ((clip_sublist 63 acc).subset hd)
  | strEnd acc => rw [← Option.some.inj h]; trivial
  | num acc => rw [← Option.some.inj h]; trivial
  | dash => rw [← Option.some.inj h]; trivial
  | slash => rw [← Option.some.inj h]; trivial
  | _ => exact absurd h (nomatch ·)

theorem made_reads {m : Mode} {c : Char} {m' : Mode} (hm : m.Made D) (hc : D c)
    (h : Reads m c m') : m'.Made D := by
  cases h with
  | word acc c hcont => exact Word.append hD hm hc hcont
  | inside acc c _ => exact List.forall_mem_append.mpr ⟨hm, List.forall_mem_singleton.mpr hc⟩
  | close acc => exact hm
  | double acc => exact List.forall_mem_append.mpr ⟨hm, List.forall_mem_singleton.mpr hc⟩
  | other m c m' hless => exact hless.made

theorem made_next (m : Mode) (c : Char) (ts : List Token) (m' : Mode) (hm : m.Made D) (hc : D c)
    (h : next m c = some (ts, m')) : (∀ t ∈ ts, t.Made D) ∧ m'.Made D := by
  rcases next_cases h with ⟨rfl, hread⟩ | ⟨-, hstart⟩ | ⟨t, ht, hemit⟩
  · exact ⟨fun t ht => absurd ht List.not_mem_nil, made_reads hD hm hc hread⟩
  · exact made_start hD hc hstart
  · exact made_emit hD (made_token hm ht) hc hemit

omit hD in
theorem made_finish (m : Mode) (ts : List Token) (hm : m.Made D) (h : finish m = some ts) :
    ∀ t ∈ ts, t.Made D := by
  rcases finish_cases h with rfl | ⟨t, ht, rfl⟩
  · exact fun t ht => absurd ht List.not_mem_nil
  · exact List.forall_mem_singleton.mpr (made_token hm ht)

/-- The characters of the names in a text are characters of the text, folded
    where the name is a word. -/
theorem made_scan (cs : List Char) (hcs : ∀ c ∈ cs, D c) (toks : List Token)
    (h : scan .normal cs = some toks) : ∀ t ∈ toks, t.Made D :=
  scan_tokens D (Mode.Made D) (Token.Made D) (made_next hD) made_finish cs .normal toks hcs trivial h

end Made

/-! ## Long names -/

/-- A name is no longer than an identifier may be. -/
def Token.Short : Token → Prop
  | .ident w => truncateIdentifier w = w
  | .quoted w => truncateIdentifier w = w
  | _ => True

theorem short_token {m : Mode} {t : Token} (h : m.token = some t) : t.Short := by
  cases m with
  | ident acc =>
      rw [← Option.some.inj h]
      exact clip_clip 63 acc
  | quotedEnd acc =>
      rw [← Option.some.inj h]
      exact clip_clip 63 acc
  | strEnd acc => rw [← Option.some.inj h]; trivial
  | num acc => rw [← Option.some.inj h]; trivial
  | dash => rw [← Option.some.inj h]; trivial
  | slash => rw [← Option.some.inj h]; trivial
  | _ => exact absurd h (nomatch ·)

theorem short_start {c : Char} {ts : List Token} {m : Mode} (h : start c = some (ts, m)) :
    ∀ t ∈ ts, t.Short := by
  rcases start_cases h with ⟨rfl, -⟩ | ⟨rfl, -⟩
  · exact List.forall_mem_singleton.mpr trivial
  · exact fun t ht => absurd ht List.not_mem_nil

theorem short_next {m : Mode} {c : Char} {ts : List Token} {m' : Mode}
    (h : next m c = some (ts, m')) : ∀ t ∈ ts, t.Short := by
  rcases next_cases h with ⟨rfl, -⟩ | ⟨-, hstart⟩ | ⟨t, ht, hemit⟩
  · exact fun t ht => absurd ht List.not_mem_nil
  · exact short_start hstart
  · rcases Option.map_eq_some_iff.mp hemit with ⟨⟨us, m''⟩, hstart, heq⟩
    rw [← (Prod.mk.inj heq).1]
    exact List.forall_mem_cons.mpr ⟨short_token ht, short_start hstart⟩

/-- The names in a text have been cut. -/
theorem short_scan {cs : List Char} {toks : List Token} (h : scan .normal cs = some toks) :
    ∀ t ∈ toks, t.Short := by
  refine scan_tokens (fun _ => True) (fun _ => True) Token.Short
    (fun m c ts m' _ _ hn => ⟨short_next hn, trivial⟩) (fun m ts _ hf => ?_) cs .normal toks
    (fun _ _ => trivial) trivial h
  rcases finish_cases hf with rfl | ⟨t, ht, rfl⟩
  · exact fun t ht => absurd ht List.not_mem_nil
  · exact List.forall_mem_singleton.mpr (short_token ht)

/-! ## Quoted names -/

/-- The double quotes that were read for a token. -/
def Token.quotes : Token → Nat
  | .quoted w => 2 + 2 * w.count '"'
  | _ => 0

/-- The double quotes that were read for what the scanner is in the middle of. -/
def Mode.quotes : Mode → Nat
  | .quoted acc => 1 + 2 * acc.count '"'
  | .quotedEnd acc => 2 + 2 * acc.count '"'
  | _ => 0

theorem count_truncate_le (w : List Char) : (truncateIdentifier w).count '"' ≤ w.count '"' :=
  (clip_sublist 63 w).sublist.count_le '"'

theorem Mode.Nameless.quotes {m : Mode} (h : m.Nameless) : m.quotes = 0 := by
  cases m with
  | ident acc => exact absurd h id
  | quoted acc => exact absurd h id
  | quotedEnd acc => exact absurd h id
  | _ => rfl

theorem quotes_start {c : Char} {ts : List Token} {m : Mode} (h : start c = some (ts, m)) :
    (ts.map Token.quotes).sum + m.quotes ≤ [c].count '"' := by
  rcases start_cases h with ⟨rfl, rfl⟩ | ⟨rfl, hm⟩
  · exact Nat.zero_le _
  · rcases hm with hless | ⟨rfl, rfl⟩ | ⟨-, rfl⟩
    · rw [hless.quotes]
      exact Nat.zero_le _
    · rfl
    · exact Nat.zero_le _

theorem quotes_emit {t : Token} {c : Char} {ts : List Token} {m : Mode}
    (h : emit t c = some (ts, m)) :
    (ts.map Token.quotes).sum + m.quotes ≤ t.quotes + [c].count '"' := by
  rcases Option.map_eq_some_iff.mp h with ⟨⟨us, m'⟩, hstart, heq⟩
  rcases Prod.mk.inj heq with ⟨rfl, rfl⟩
  have hus := quotes_start hstart
  simp only [List.map_cons, List.sum_cons]
  omega

theorem quotes_token {m : Mode} {t : Token} (h : m.token = some t) : t.quotes ≤ m.quotes := by
  cases m with
  | quotedEnd acc =>
      rw [← Option.some.inj h]
      have := count_truncate_le acc
      simp only [Token.quotes, Mode.quotes]
      omega
  | strEnd acc => rw [← Option.some.inj h]; exact Nat.zero_le _
  | ident acc => rw [← Option.some.inj h]; exact Nat.zero_le _
  | num acc => rw [← Option.some.inj h]; exact Nat.zero_le _
  | dash => rw [← Option.some.inj h]; exact Nat.zero_le _
  | slash => rw [← Option.some.inj h]; exact Nat.zero_le _
  | _ => exact absurd h (nomatch ·)

theorem quotes_reads {m : Mode} {c : Char} {m' : Mode} (h : Reads m c m') :
    m'.quotes ≤ m.quotes + [c].count '"' := by
  cases h with
  | word acc c _ => exact Nat.zero_le _
  | inside acc c hc =>
      rw [Mode.quotes, Mode.quotes, List.count_append, List.count_singleton, beq_false_of_ne hc]
      exact Nat.le_refl _
  | close acc =>
      simp only [Mode.quotes, List.count_singleton_self]
      omega
  | double acc =>
      simp only [Mode.quotes, List.count_append, List.count_singleton_self]
      omega
  | other m c m' hless =>
      rw [hless.quotes]
      exact Nat.zero_le _

theorem quotes_next (m : Mode) (c : Char) (ts : List Token) (m' : Mode)
    (h : next m c = some (ts, m')) :
    (ts.map Token.quotes).sum + m'.quotes ≤ m.quotes + [c].count '"' := by
  rcases next_cases h with ⟨rfl, hread⟩ | ⟨-, hstart⟩ | ⟨t, ht, hemit⟩
  · rw [List.map_nil, List.sum_nil, Nat.zero_add]
    exact quotes_reads hread
  · exact (quotes_start hstart).trans (Nat.le_add_left _ _)
  · exact (quotes_emit hemit).trans (Nat.add_le_add_right (quotes_token ht) _)

theorem quotes_finish (m : Mode) (ts : List Token) (h : finish m = some ts) :
    (ts.map Token.quotes).sum ≤ m.quotes := by
  rcases finish_cases h with rfl | ⟨t, ht, rfl⟩
  · exact Nat.zero_le _
  · rw [List.map_singleton, List.sum_singleton]
    exact quotes_token ht

/-- A text has a double quote for every quote that was read for its tokens. -/
theorem quotes_scan (cs : List Char) (toks : List Token) (h : scan .normal cs = some toks) :
    (toks.map Token.quotes).sum ≤ cs.count '"' := by
  have hsum : ∀ ds : List Char, (ds.map fun c => [c].count '"').sum = ds.count '"' := by
    intro ds
    induction ds with
    | nil => rfl
    | cons d ds ih => rw [List.map_cons, List.sum_cons, ih, ← List.count_append, List.singleton_append]
  have hscan := scan_weight Token.quotes Mode.quotes (fun c => [c].count '"') quotes_next
    quotes_finish cs .normal toks h
  rw [hsum] at hscan
  exact hscan.trans (Nat.zero_add _).le

/-! ## Column lists -/

/-- The names of a column list are read from tokens of its text, in order. -/
theorem parseColumns_sublist (name : Bool) (toks : List Token) (cols : List String)
    (rest : List Token) (h : parseColumns name toks = some (cols, rest)) :
    ∃ used : List Token, used.Sublist toks ∧
      List.Forall₂ (fun t c => columnOf t = some c) used cols := by
  fun_induction parseColumns name toks generalizing cols rest with
  | case1 t ts c cs r hcs hc ih =>
      rcases Prod.mk.inj (Option.some.inj h) with ⟨rfl, -⟩
      rcases ih cs r hcs with ⟨used, hsub, hnames⟩
      exact ⟨t :: used, hsub.cons_cons t, .cons hc hnames⟩
  | case2 => exact absurd h (nomatch ·)
  | case3 ts ih =>
      rcases ih cols rest h with ⟨used, hsub, hnames⟩
      exact ⟨used, hsub.cons _, hnames⟩
  | case4 ts =>
      rcases Prod.mk.inj (Option.some.inj h) with ⟨rfl, -⟩
      exact ⟨[], List.nil_sublist _, .nil⟩
  | case5 => exact absurd h (nomatch ·)

/-- What names a column is a word that is not reserved, or stood in quotes. -/
theorem columnOf_cases {t : Token} {c : String} (h : columnOf t = some c) :
    (t = .ident c.toList ∧ c ∉ reserved) ∨ t = .quoted c.toList := by
  cases t with
  | ident w =>
      simp only [columnOf] at h
      split_ifs at h with hres
      rw [← Option.some.inj h, String.toList_ofList]
      exact .inl ⟨rfl, hres⟩
  | quoted w =>
      rw [← Option.some.inj h, String.toList_ofList]
      exact .inr rfl
  | sconst w => exact absurd h (nomatch ·)
  | num w => exact absurd h (nomatch ·)
  | self d => exact absurd h (nomatch ·)

theorem columnOf_kind {D : Char → Prop} {t : Token} {c : String} (h : columnOf t = some c)
    (hmade : t.Made D) : ∀ d ∈ c.toList, D d := by
  rcases columnOf_cases h with ⟨rfl, -⟩ | rfl
  · exact hmade.kind
  · exact hmade

theorem columns_kind {D : Char → Prop} {used : List Token} {cols : List String}
    (hread : List.Forall₂ (fun t c => columnOf t = some c) used cols)
    (hmade : ∀ t ∈ used, t.Made D) : ∀ c ∈ cols, ∀ d ∈ c.toList, D d := by
  induction hread with
  | nil => exact fun c hc => absurd hc List.not_mem_nil
  | cons hc _ ih =>
      rcases List.forall_mem_cons.mp hmade with ⟨ht, hused⟩
      exact List.forall_mem_cons.mpr ⟨columnOf_kind hc ht, ih hused⟩

/-- The double quotes in names cost at least as many, and strictly more unless
    the names are words. -/
theorem words_of_quotes_le {D : Char → Prop} (used : List Token) (cols : List String)
    (hread : List.Forall₂ (fun t c => columnOf t = some c) used cols)
    (hmade : ∀ t ∈ used, t.Made D) :
    (cols.map fun c => c.toList.count '"').sum ≤ (used.map Token.quotes).sum ∧
      ((used.map Token.quotes).sum ≤ (cols.map fun c => c.toList.count '"').sum →
        ∀ c ∈ cols, Word D c.toList ∧ c ∉ reserved) := by
  induction hread with
  | nil => exact ⟨Nat.le_refl 0, fun _ c hc => absurd hc List.not_mem_nil⟩
  | @cons t c used cols hc hrest ih =>
      rcases List.forall_mem_cons.mp hmade with ⟨ht, hused⟩
      rcases ih hused with ⟨hle, hwords⟩
      simp only [List.map_cons, List.sum_cons]
      rcases columnOf_cases hc with ⟨rfl, hfree⟩ | rfl
      · -- A word has no quote in it and none around it.
        have hzero : c.toList.count '"' = 0 :=
          List.count_eq_zero.mpr (fun hq => absurd (ht.cont '"' hq) (by decide))
        have hnone : (Token.ident c.toList).quotes = 0 := rfl
        refine ⟨by omega, fun hsum => List.forall_mem_cons.mpr ⟨⟨ht, hfree⟩, ?_⟩⟩
        exact hwords (by omega)
      · have htwo : (Token.quoted c.toList).quotes = 2 + 2 * c.toList.count '"' := rfl
        exact ⟨by omega, fun hsum => absurd hsum (by omega)⟩

/-- A text that reads as a column list, with no more double quotes in it than the
    names have, names words. -/
theorem words_of_parseColumns {D : Char → Prop} (hD : ∀ c, D c → D c.toLower) (cs : List Char)
    (hcs : ∀ c ∈ cs, D c) (t : Token) (toks : List Token) (hscan : scan .normal cs = some (t :: toks))
    (cols : List String) (rest : List Token) (hparse : parseColumns true toks = some (cols, rest)) :
    (∀ c ∈ cols, ∀ d ∈ c.toList, D d) ∧
      (cs.count '"' ≤ (cols.map fun c => c.toList.count '"').sum →
        ∀ c ∈ cols, Word D c.toList ∧ c ∉ reserved) := by
  rcases parseColumns_sublist true toks cols rest hparse with ⟨used, hsub, hread⟩
  have hmade : ∀ u ∈ used, u.Made D := fun u hu =>
    made_scan hD cs hcs _ hscan u (List.mem_cons_of_mem t (hsub.subset hu))
  refine ⟨columns_kind hread hmade, fun hle => (words_of_quotes_le used cols hread hmade).2 ?_⟩
  calc (used.map Token.quotes).sum
      ≤ ((t :: toks).map Token.quotes).sum :=
        ((hsub.cons t).map Token.quotes).sum_le_sum (fun _ _ => Nat.zero_le _)
    _ ≤ cs.count '"' := quotes_scan cs _ hscan
    _ ≤ (cols.map fun c => c.toList.count '"').sum := hle

end Sql
