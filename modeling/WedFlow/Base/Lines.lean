import Mathlib.Data.List.Nodup

/-!
# Lines and Listings

A text cut into lines, and the elements of a set written out one after the other.

A line keeps the break that ends it, so the text is its lines put together. The
way back needs a condition: a list of lines is read off a text as it is only if
every line but the last ends with a break and none has a break inside. `Formed`
is that condition, and editing lines keeps it as long as an edited line ends with
a break.

A set that is iterated comes out in some order, which may depend on anything
except that every element comes once. `Listing` is such an order. Proofs about a
program that iterates over sets are for all listings.

## Main definitions

* `lines`: The lines of a text.
* `Complete`: A line with its break.
* `Formed`: A list of lines as a text has them.
* `Listing`: An order to iterate over sets in.

## Theorems

* `formed_lines`: The lines of a text are formed.
* `lines_flatten`: Formed lines are the lines of the text they make.
* `Formed.map`: Editing lines keeps them formed.
* `not_mem_splitOn`, `mem_of_mem_splitOn`: What the fields of a list are made of.
* `mem_intercalate`, `intercalate_concat`: Fields put together.
-/

namespace Lines

variable {α : Type}

/-- The lines of a text, each with the break that ends it. -/
def lines [DecidableEq α] (brk : α) : List α → List (List α)
  | [] => []
  | c :: cs =>
    if c = brk then [c] :: lines brk cs
    else
      match lines brk cs with
      | [] => [[c]]
      | l :: ls => (c :: l) :: ls

/-- A line that ends with a break and has no other. -/
def Complete (brk : α) (l : List α) : Prop :=
  ∃ w, brk ∉ w ∧ l = w ++ [brk]

/-- All lines are complete, except perhaps the last. -/
inductive Formed (brk : α) : List (List α) → Prop where
  | nil : Formed brk []
  | last (l : List α) (hne : l ≠ []) (h : brk ∉ l) : Formed brk [l]
  | cons (l : List α) (ls : List (List α)) (hl : Complete brk l) (h : Formed brk ls) :
      Formed brk (l :: ls)

/-- Putting a character in front of the first line keeps the lines formed. -/
theorem Formed.cons_head {brk : α} {l : List α} {ls : List (List α)} (h : Formed brk (l :: ls))
    {c : α} (hc : c ≠ brk) : Formed brk ((c :: l) :: ls) := by
  cases h with
  | last l hne h =>
      exact .last _ (List.cons_ne_nil c l) (fun hm => (List.mem_cons.mp hm).elim (Ne.symm hc) h)
  | cons l ls hl h =>
      rcases hl with ⟨w, hw, rfl⟩
      exact .cons _ _ ⟨c :: w, fun hm => (List.mem_cons.mp hm).elim (Ne.symm hc) hw, rfl⟩ h

section

variable [DecidableEq α]

theorem formed_lines (brk : α) (t : List α) : Formed brk (lines brk t) := by
  induction t with
  | nil => exact .nil
  | cons c cs ih =>
      unfold lines
      by_cases hc : c = brk
      · rw [if_pos hc]
        exact .cons _ _ ⟨[], List.not_mem_nil, by rw [hc]; rfl⟩ ih
      · rw [if_neg hc]
        cases hl : lines brk cs with
        | nil => exact .last _ (List.cons_ne_nil c []) (by simpa using Ne.symm hc)
        | cons l ls =>
            rw [hl] at ih
            exact ih.cons_head hc

theorem lines_of_not_mem (brk : α) {l : List α} (hne : l ≠ []) (h : brk ∉ l) :
    lines brk l = [l] := by
  induction l with
  | nil => exact absurd rfl hne
  | cons c cs ih =>
      rw [List.mem_cons, not_or] at h
      unfold lines
      rw [if_neg (Ne.symm h.1)]
      cases cs with
      | nil => rfl
      | cons d ds => rw [ih (List.cons_ne_nil d ds) h.2]

theorem lines_append (brk : α) {w : List α} (h : brk ∉ w) (t : List α) :
    lines brk ((w ++ [brk]) ++ t) = (w ++ [brk]) :: lines brk t := by
  induction w with
  | nil =>
      rw [List.nil_append, List.singleton_append, lines, if_pos rfl]
  | cons c cs ih =>
      rw [List.mem_cons, not_or] at h
      rw [List.cons_append, List.cons_append, lines, if_neg (Ne.symm h.1), ih h.2]

/-- Formed lines are the lines of the text they make. -/
theorem lines_flatten {brk : α} {ls : List (List α)} (h : Formed brk ls) :
    lines brk ls.flatten = ls := by
  induction h with
  | nil => rfl
  | last l hne h =>
      rw [List.flatten_cons, List.flatten_nil, List.append_nil]
      exact lines_of_not_mem brk hne h
  | cons l ls hl h ih =>
      rcases hl with ⟨w, hw, rfl⟩
      rw [List.flatten_cons, lines_append brk hw, ih]

end

/-- An edit leaves a line alone or makes it a complete one. -/
theorem Formed.map {brk : α} {ls : List (List α)} (h : Formed brk ls) (f : List α → List α)
    (hf : ∀ l ∈ ls, f l = l ∨ Complete brk (f l)) : Formed brk (ls.map f) := by
  induction h with
  | nil => exact .nil
  | last l hne h =>
      rw [List.map_singleton]
      rcases hf l List.mem_cons_self with he | hc
      · rw [he]
        exact .last l hne h
      · exact .cons _ _ hc .nil
  | cons l ls hl h ih =>
      rw [List.map_cons]
      have hrest := ih (fun m hm => hf m (List.mem_cons_of_mem l hm))
      rcases hf l List.mem_cons_self with he | hc
      · rw [he]
        exact .cons l _ hl hrest
      · exact .cons _ _ hc hrest

/-! ## Fields -/

/-- The fields of a list have no separator in them. -/
theorem not_mem_splitOn [DecidableEq α] (sep : α) (xs : List α) :
    ∀ f ∈ xs.splitOn sep, sep ∉ f := by
  unfold List.splitOn
  induction xs with
  | nil =>
      intro f hf
      rw [List.mem_singleton.mp hf]
      exact List.not_mem_nil
  | cons c cs ih =>
      rw [List.splitOnP_cons_eq_if_modifyHead]
      by_cases hc : c = sep
      · rw [if_pos (beq_iff_eq.mpr hc)]
        exact List.forall_mem_cons.mpr ⟨List.not_mem_nil, ih⟩
      · rw [if_neg (by simpa only [beq_iff_eq] using hc)]
        cases hs : List.splitOnP (· == sep) cs with
        | nil => exact fun f hf => absurd hf List.not_mem_nil
        | cons g gs =>
            rw [hs, List.forall_mem_cons] at ih
            refine List.forall_mem_cons.mpr ⟨fun hm => ?_, ih.2⟩
            exact (List.mem_cons.mp hm).elim (Ne.symm hc) ih.1

/-- What fields put together are made of. -/
theorem mem_intercalate {sep c : α} {xs : List (List α)} (h : c ∈ [sep].intercalate xs) :
    c = sep ∨ ∃ x ∈ xs, c ∈ x := by
  induction xs with
  | nil => exact absurd h List.not_mem_nil
  | cons x xs ih =>
      cases xs with
      | nil =>
          rw [List.intercalate_singleton] at h
          exact .inr ⟨x, List.mem_cons_self, h⟩
      | cons y ys =>
          rw [List.intercalate_cons_cons, List.append_assoc, List.mem_append, List.mem_append,
            List.mem_singleton] at h
          rcases h with h | h | h
          · exact .inr ⟨x, List.mem_cons_self, h⟩
          · exact .inl h
          · rcases ih h with h | ⟨z, hz, hc⟩
            · exact .inl h
            · exact .inr ⟨z, List.mem_cons_of_mem x hz, hc⟩

theorem mem_intercalate_of_mem (sep : α) {c : α} {x : List α} {xs : List (List α)} (hx : x ∈ xs)
    (hc : c ∈ x) : c ∈ [sep].intercalate xs := by
  induction xs with
  | nil => exact absurd hx List.not_mem_nil
  | cons y ys ih =>
      cases ys with
      | nil =>
          rw [List.intercalate_singleton, ← List.mem_singleton.mp hx]
          exact hc
      | cons z zs =>
          rw [List.intercalate_cons_cons]
          rcases List.mem_cons.mp hx with rfl | hx
          · exact List.mem_append_left _ (List.mem_append_left _ hc)
          · exact List.mem_append_right _ (ih hx)

/-- The fields of a list are made of what is in it. -/
theorem mem_of_mem_splitOn [DecidableEq α] {sep c : α} {xs f : List α} (hf : f ∈ xs.splitOn sep)
    (hc : c ∈ f) : c ∈ xs := by
  have hjoin : [sep].intercalate (xs.splitOn sep) = xs := List.intercalate_splitOn sep
  rw [← hjoin]
  exact mem_intercalate_of_mem sep hf hc

/-- One more field at the end. -/
theorem intercalate_concat (sep : α) {xs : List (List α)} (hne : xs ≠ []) (y : List α) :
    [sep].intercalate (xs ++ [y]) = [sep].intercalate xs ++ sep :: y := by
  induction xs with
  | nil => exact absurd rfl hne
  | cons x xs ih =>
      cases xs with
      | nil =>
          rw [List.singleton_append, List.intercalate_cons_cons, List.intercalate_singleton,
            List.intercalate_singleton, List.append_assoc]
          rfl
      | cons z zs =>
          rw [List.cons_append, List.cons_append, List.intercalate_cons_cons, ← List.cons_append,
            ih (List.cons_ne_nil z zs), List.intercalate_cons_cons, List.append_assoc (x ++ [sep])]

/-! ## Listings -/

/-- An order in which sets are iterated: every element once, in an order that may
    depend on anything. -/
structure Listing (τ α : Type) where
  list : τ → List α → List α
  nodup : ∀ t xs, (list t xs).Nodup
  mem_iff : ∀ t xs x, x ∈ list t xs ↔ x ∈ xs

end Lines
