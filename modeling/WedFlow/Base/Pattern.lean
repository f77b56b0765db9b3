import Mathlib.Data.List.Infix
import Mathlib.Data.List.TakeWhile

/-!
# Matching with Backtracking

The regular expressions a line-by-line script is written with: literals, an
optional character, and repetitions of a class of characters, captured or not, one
after the other. A matcher tries the longest repetition first and comes back for
a shorter one when what follows fails, which is how Perl and Python match.

What the matcher finds can be said without the backtracking in two cases. A
repetition before a literal that does not begin with a character of the class
takes all it can get. A captured repetition before a delimiter that is itself in
the class ends at the last delimiter there is.

## Main definitions

* `Piece`: A piece of a regular expression.
* `splits`: The ways a repetition can go, the longest first.
* `run`: The captures of the first match from the start of a text.

## Theorems

* `run_lit_iff`, `run_opt_lit_iff`: Literals, and an optional character before one.
* `run_star_lit_iff`: A repetition that nothing is given back of.
* `run_capture_lit_iff`: A capture that ends at the last delimiter.
-/

namespace Pattern

variable {α : Type} [DecidableEq α]

/-- A piece of a regular expression. -/
inductive Piece (α : Type) where
  | lit (s : List α)
  | opt (c : α)
  | star (p : α → Bool)
  | capture (p : α → Bool)

/-- What a repetition can take of a text and what it leaves, the longest first. -/
def splits (p : α → Bool) : List α → List (List α × List α)
  | [] => [([], [])]
  | c :: cs =>
    if p c then (splits p cs).map (fun s => (c :: s.1, s.2)) ++ [([], c :: cs)]
    else [([], c :: cs)]

/-- The captures of the first match from the start of a text. -/
def run : List (Piece α) → List α → Option (List (List α))
  | [], _ => some []
  | .lit s :: ps, cs =>
    match s.isPrefixOf? cs with
    | some rest => run ps rest
    | none => none
  | .opt c :: ps, cs =>
    match cs with
    | d :: ds => if d = c then (run ps ds).or (run ps cs) else run ps cs
    | [] => run ps []
  | .star p :: ps, cs => (splits p cs).findSome? fun s => run ps s.2
  | .capture p :: ps, cs => (splits p cs).findSome? fun s => (run ps s.2).map (s.1 :: ·)

theorem run_lit_iff (s : List α) (ps : List (Piece α)) (cs : List α) (caps : List (List α)) :
    run (.lit s :: ps) cs = some caps ↔ ∃ rest, cs = s ++ rest ∧ run ps rest = some caps := by
  rw [run]
  cases h : s.isPrefixOf? cs with
  | none =>
      refine ⟨fun hn => absurd hn.symm (Option.some_ne_none caps), ?_⟩
      rintro ⟨rest, rfl, -⟩
      rw [List.isPrefixOf?_eq_some_iff_append_eq.mpr rfl] at h
      exact absurd h (Option.some_ne_none rest)
  | some rest =>
      have hcs := List.isPrefixOf?_eq_some_iff_append_eq.mp h
      constructor
      · exact fun hr => ⟨rest, hcs.symm, hr⟩
      · rintro ⟨rest', he, hr⟩
        rw [List.append_cancel_left (hcs.trans he)]
        exact hr

theorem run_lit_cons_of_ne {c d : α} (h : d ≠ c) (s : List α) (ps : List (Piece α)) (cs : List α) :
    run (.lit (c :: s) :: ps) (d :: cs) = none := by
  rw [Option.eq_none_iff_forall_ne_some]
  intro caps hr
  rcases (run_lit_iff _ _ _ _).mp hr with ⟨rest, he, -⟩
  exact h (List.cons.inj he).1

/-- An optional character before a literal that begins with another one. -/
theorem run_opt_lit_iff {c d : α} (h : c ≠ d) (s : List α) (ps : List (Piece α)) (cs : List α)
    (caps : List (List α)) :
    run (.opt c :: .lit (d :: s) :: ps) cs = some caps ↔
      ∃ o rest, (o = [] ∨ o = [c]) ∧ cs = o ++ (d :: s ++ rest) ∧ run ps rest = some caps := by
  have hnil : run (.lit (d :: s) :: ps) [] = none := rfl
  cases cs with
  | nil =>
      rw [run, hnil]
      refine ⟨fun hn => absurd hn.symm (Option.some_ne_none caps), ?_⟩
      rintro ⟨o, rest, -, he, -⟩
      simp only [List.nil_eq, List.append_eq_nil_iff, List.cons_append, reduceCtorEq,
        and_false] at he
  | cons e es =>
      rw [run]
      by_cases he : e = c
      · subst he
        -- The literal does not begin here, so the character is taken.
        rw [if_pos rfl, run_lit_cons_of_ne h, Option.or_none, run_lit_iff]
        constructor
        · rintro ⟨rest, rfl, hr⟩
          exact ⟨[e], rest, .inr rfl, rfl, hr⟩
        · rintro ⟨o, rest, rfl | rfl, hes, hr⟩
          · exact absurd (List.cons.inj hes).1 h
          · exact ⟨rest, (List.cons.inj hes).2, hr⟩
      · rw [if_neg he, run_lit_iff]
        constructor
        · rintro ⟨rest, hes, hr⟩
          exact ⟨[], rest, .inl rfl, hes, hr⟩
        · rintro ⟨o, rest, rfl | rfl, hes, hr⟩
          · exact ⟨rest, hes, hr⟩
          · exact absurd (List.cons.inj hes).1 he

/-- Before a literal that does not begin with a character of the class, a
    repetition takes all it can get. -/
theorem run_star_lit {p : α → Bool} {c : α} (h : p c = false) (s : List α) (ps : List (Piece α))
    (cs : List α) :
    run (.star p :: .lit (c :: s) :: ps) cs = run (.lit (c :: s) :: ps) (cs.dropWhile p) := by
  change (splits p cs).findSome? (fun q => run (.lit (c :: s) :: ps) q.2) = _
  induction cs with
  | nil => rfl
  | cons d ds ih =>
      rw [splits, List.dropWhile_cons]
      by_cases hd : p d = true
      · have hne : d ≠ c := by
          rintro rfl
          exact absurd (h.symm.trans hd) Bool.false_ne_true
        rw [if_pos hd, if_pos hd, List.findSome?_append, List.findSome?_map]
        -- Stopping right here leaves a text the literal does not begin.
        have hstop : [(([] : List α), d :: ds)].findSome?
            (fun q => run (.lit (c :: s) :: ps) q.2) = none := by
          rw [List.findSome?_singleton, run_lit_cons_of_ne hne]
        rw [hstop, Option.or_none]
        exact ih
      · rw [if_neg hd, if_neg hd, List.findSome?_singleton]

theorem run_star_lit_iff {p : α → Bool} {c : α} (h : p c = false) (s : List α)
    (ps : List (Piece α)) (cs : List α) (caps : List (List α)) :
    run (.star p :: .lit (c :: s) :: ps) cs = some caps ↔
      ∃ sp rest, (∀ x ∈ sp, p x = true) ∧ cs = sp ++ (c :: s ++ rest) ∧ run ps rest = some caps := by
  rw [run_star_lit h, run_lit_iff]
  constructor
  · rintro ⟨rest, he, hr⟩
    refine ⟨cs.takeWhile p, rest, fun x hx => List.mem_takeWhile_imp hx, ?_, hr⟩
    rw [← he, List.takeWhile_append_dropWhile]
  · rintro ⟨sp, rest, hsp, rfl, hr⟩
    refine ⟨rest, ?_, hr⟩
    rw [List.dropWhile_append_of_pos hsp, List.cons_append, List.dropWhile_cons_of_neg (by simp [h])]

/-! ## Captures -/

omit [DecidableEq α] in
/-- A list cut at its last element with a property. -/
theorem exists_last {p : α → Prop} {l : List α} (h : ∃ a ∈ l, p a) :
    ∃ pre a post, l = pre ++ a :: post ∧ p a ∧ ∀ b ∈ post, ¬p b := by
  induction l with
  | nil =>
      rcases h with ⟨a, ha, -⟩
      exact absurd ha List.not_mem_nil
  | cons c l ih =>
      by_cases hrest : ∃ a ∈ l, p a
      · rcases ih hrest with ⟨pre, a, post, rfl, ha, hpost⟩
        exact ⟨c :: pre, a, post, rfl, ha, hpost⟩
      · rcases h with ⟨a, ha, hp⟩
        rcases List.mem_cons.mp ha with rfl | ha
        · exact ⟨[], a, l, rfl, hp, fun b hb hb' => hrest ⟨b, hb, hb'⟩⟩
        · exact absurd ⟨a, ha, hp⟩ hrest

/-- One more character of the class in front of a capture. -/
theorem run_capture_cons {p : α → Bool} {d : α} (hd : p d = true) (ps : List (Piece α))
    (ds : List α) :
    run (.capture p :: ps) (d :: ds)
      = ((run (.capture p :: ps) ds).map (List.modifyHead (d :: ·))).or
          ((run ps (d :: ds)).map ([] :: ·)) := by
  rw [run, run, splits, if_pos hd, List.findSome?_append, List.findSome?_map,
    List.findSome?_singleton, List.map_findSome?]
  refine congrArg (Option.or · _) (congrArg (List.findSome? · (splits p ds)) ?_)
  funext q
  simp only [Function.comp_apply, Option.map_map]
  rfl

omit [DecidableEq α] in
/-- Where a repetition stops it cannot go on. -/
theorem takeWhile_dropWhile (p : α → Bool) (cs : List α) : (cs.dropWhile p).takeWhile p = [] := by
  induction cs with
  | nil => rfl
  | cons c cs ih =>
      by_cases hc : p c = true
      · rw [List.dropWhile_cons_of_pos hc, ih]
      · rw [List.dropWhile_cons_of_neg hc, List.takeWhile_cons_of_neg hc]

omit [DecidableEq α] in
/-- A delimiter that a repetition of its class comes across has a last one. -/
theorem exists_last_of_mem_takeWhile {p : α → Bool} {q : α} {cs : List α}
    (h : q ∈ cs.takeWhile p) :
    ∃ g rest, (∀ x ∈ g, p x = true) ∧ cs = g ++ q :: rest ∧ q ∉ rest.takeWhile p := by
  rcases exists_last (p := (· = q)) ⟨q, h, rfl⟩ with ⟨g, a, mid, he, ha, hq⟩
  rw [ha] at he
  have hp : ∀ x ∈ cs.takeWhile p, p x = true := fun x hx => List.mem_takeWhile_imp hx
  rw [he] at hp
  refine ⟨g, mid ++ cs.dropWhile p, fun x hx => hp x (List.mem_append_left _ hx), ?_, ?_⟩
  · rw [← List.cons_append, ← List.append_assoc, ← he, List.takeWhile_append_dropWhile]
  · have hmid : ∀ x ∈ mid, p x = true := fun x hx =>
      hp x (List.mem_append_right _ (List.mem_cons_of_mem q hx))
    rw [List.takeWhile_append_of_pos hmid, takeWhile_dropWhile, List.append_nil]
    exact fun hm => hq _ hm rfl

/-- A captured repetition before a delimiter of its own class ends at the last
    delimiter it can reach. -/
theorem run_capture_lit_iff {p : α → Bool} {q : α} (hq : p q = true) (cs : List α)
    (caps : List (List α)) :
    run [.capture p, .lit [q]] cs = some caps ↔
      ∃ g rest, caps = [g] ∧ (∀ x ∈ g, p x = true) ∧ cs = g ++ q :: rest ∧
        q ∉ rest.takeWhile p := by
  induction cs generalizing caps with
  | nil =>
      refine ⟨fun hn => absurd hn.symm (Option.some_ne_none caps), ?_⟩
      rintro ⟨g, rest, -, -, he, -⟩
      exact absurd he.symm (List.append_ne_nil_of_right_ne_nil g (List.cons_ne_nil q rest))
  | cons d ds ih =>
      by_cases hd : p d = true
      · rw [run_capture_cons hd]
        cases hds : run [.capture p, .lit [q]] ds with
        | some caps₀ =>
            -- There is a delimiter further on, and the match goes there.
            rcases (ih caps₀).mp hds with ⟨g, rest, rfl, hg, rfl, hlast⟩
            rw [Option.map_some, Option.some_or, Option.some.injEq]
            constructor
            · rintro rfl
              exact ⟨d :: g, rest, rfl, List.forall_mem_cons.mpr ⟨hd, hg⟩, rfl, hlast⟩
            · rintro ⟨g', rest', rfl, hg', he, hlast'⟩
              cases g' with
              | nil =>
                  rw [← (List.cons.inj he).2, List.takeWhile_append_of_pos hg,
                    List.takeWhile_cons_of_pos hq] at hlast'
                  exact absurd (List.mem_append_right g List.mem_cons_self) hlast'
              | cons e g' =>
                  rcases List.cons.inj he with ⟨rfl, htail⟩
                  have hsame := (ih [g']).mpr
                    ⟨g', rest', rfl, (List.forall_mem_cons.mp hg').2, htail, hlast'⟩
                  rw [hds, Option.some.injEq, List.cons.injEq] at hsame
                  rw [List.modifyHead, hsame.1]
        | none =>
            -- There is none, so it is here or nowhere.
            have hnone : q ∉ ds.takeWhile p := by
              intro hm
              rcases exists_last_of_mem_takeWhile hm with ⟨g, rest, hg, he, hlast⟩
              rw [(ih [g]).mpr ⟨g, rest, rfl, hg, he, hlast⟩] at hds
              exact Option.some_ne_none _ hds
            rw [Option.map_none, Option.none_or, Option.map_eq_some_iff]
            constructor
            · rintro ⟨caps₀, hlit, rfl⟩
              rcases (run_lit_iff _ _ _ _).mp hlit with ⟨rest, he, hr⟩
              rcases List.cons.inj he with ⟨rfl, rfl⟩
              rw [← Option.some.inj hr]
              exact ⟨[], _, rfl, fun x hx => absurd hx List.not_mem_nil, rfl, hnone⟩
            · rintro ⟨g', rest', rfl, hg', he, hlast'⟩
              cases g' with
              | nil =>
                  rcases List.cons.inj he with ⟨rfl, rfl⟩
                  exact ⟨[], (run_lit_iff _ _ _ _).mpr ⟨_, rfl, rfl⟩, rfl⟩
              | cons e g' =>
                  rcases List.cons.inj he with ⟨rfl, htail⟩
                  rw [(ih [g']).mpr
                    ⟨g', rest', rfl, (List.forall_mem_cons.mp hg').2, htail, hlast'⟩] at hds
                  exact absurd hds (Option.some_ne_none _)
      · have hne : d ≠ q := fun he => hd (he ▸ hq)
        rw [run, splits, if_neg hd, List.findSome?_singleton, run_lit_cons_of_ne hne]
        refine ⟨fun hn => absurd hn.symm (Option.some_ne_none caps), ?_⟩
        rintro ⟨g', rest', rfl, hg', he, hlast'⟩
        cases g' with
        | nil => exact absurd (List.cons.inj he).1 hne
        | cons e g' =>
            rcases List.cons.inj he with ⟨rfl, -⟩
            exact absurd (hg' d List.mem_cons_self) hd

end Pattern
