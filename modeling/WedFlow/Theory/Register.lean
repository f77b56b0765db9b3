import Mathlib.Data.List.Dedup
import WedFlow.Core.Preload

/-!
# Registering and Unregistering a Worker

The two scripts are written apart, and each has to recognise what the other has
written. A line that one of them writes matches the expression again, and what it
matches is the list between the quotes and nothing else, whatever quotes there
are in the list. From there on it is a matter of lists: the names on a line have no
spaces and no commas, so they come back from the joined list as they went in.

The loop is described once for both, by what it makes of each line. Its file is
read back line by line because every line that is written ends with a break.

## Main definitions

* `libraryNames`: The names on a line, apart from empty ones.
* `edited`: What a script makes of a line.
* `keptNames`: The names a line had, in the order in which they are written.

## Theorems

* `group_eq_some_iff`: What matches the expression.
* `group_newLine`: What is written is matched again.
* `rewriteLines_ok`, `rewriteLines_stop`: The loop over the lines.
* `pgWorkerRegister_eq`: The lines of a file with a worker registered.
* `unregister_undoes_register`: There and back.
-/

namespace WedFlow

open Lines (Listing lines)

/-! ## The expression -/

/-- A line matches if it is these pieces, one after the other. The list goes up to
    the last quote of the line. -/
theorem group_eq_some_iff (l g : List Char) :
    group l = some g ↔ ∃ o sp₁ sp₂ rest, (o = [] ∨ o = ['#']) ∧ (∀ c ∈ sp₁, pySpace c = true) ∧
      (∀ c ∈ sp₂, pySpace c = true) ∧ '\n' ∉ g ∧
      l = o ++ (param ++ (sp₁ ++ ('=' :: (sp₂ ++ ('\'' :: (g ++ '\'' :: rest)))))) ∧
      '\'' ∉ rest.takeWhile (· ≠ '\n') := by
  have hp : param = 's' :: "hared_preload_libraries".toList := by decide
  have hline : ∀ g : List Char, (∀ c ∈ g, decide (c ≠ '\n') = true) ↔ '\n' ∉ g := by
    intro g
    simp only [decide_eq_true_eq]
    exact ⟨fun h hm => h _ hm rfl, fun h c hc he => h (he ▸ hc)⟩
  unfold group
  rw [Option.bind_eq_some_iff]
  constructor
  · rintro ⟨caps, hrun, hhead⟩
    unfold preloadPattern at hrun
    rw [hp, Pattern.run_opt_lit_iff (by decide)] at hrun
    rcases hrun with ⟨o, r₁, ho, rfl, h₁⟩
    rcases (Pattern.run_star_lit_iff (by decide) _ _ _ _).mp h₁ with ⟨sp₁, r₂, hsp₁, rfl, h₂⟩
    rcases (Pattern.run_star_lit_iff (by decide) _ _ _ _).mp h₂ with ⟨sp₂, r₃, hsp₂, rfl, h₃⟩
    rcases (Pattern.run_capture_lit_iff (by decide) _ _).mp h₃ with ⟨g', rest, rfl, hg, rfl, hq⟩
    rw [List.head?_cons, Option.some.injEq] at hhead
    subst hhead
    exact ⟨o, sp₁, sp₂, rest, ho, hsp₁, hsp₂, (hline _).mp hg, by rw [hp]; rfl, hq⟩
  · rintro ⟨o, sp₁, sp₂, rest, ho, hsp₁, hsp₂, hg, rfl, hq⟩
    refine ⟨[g], ?_, rfl⟩
    unfold preloadPattern
    rw [hp, Pattern.run_opt_lit_iff (by decide)]
    refine ⟨o, _, ho, rfl, (Pattern.run_star_lit_iff (by decide) _ _ _ _).mpr
      ⟨sp₁, _, hsp₁, rfl, (Pattern.run_star_lit_iff (by decide) _ _ _ _).mpr
        ⟨sp₂, _, hsp₂, rfl, ?_⟩⟩⟩
    exact (Pattern.run_capture_lit_iff (by decide) _ _).mpr
      ⟨g, rest, rfl, (hline g).mpr hg, rfl, hq⟩

/-- What is written is matched again, whatever quotes are in the list. -/
theorem group_newLine {body : List Char} (h : '\n' ∉ body) : group (newLine body) = some body :=
  (group_eq_some_iff _ _).mpr ⟨[], [' '], [' '], ['\n'], .inl rfl, List.forall_mem_singleton.mpr (by decide),
    List.forall_mem_singleton.mpr (by decide), h, by
    unfold newLine
    simp only [List.append_assoc]
    rfl, by decide⟩

/-- A line that matches has no break in its list. -/
theorem not_mem_group {l g : List Char} (h : group l = some g) : '\n' ∉ g := by
  rcases (group_eq_some_iff l g).mp h with ⟨-, -, -, -, -, -, -, hg, -⟩
  exact hg

/-! ## The loop -/

/-- What a script makes of a line. -/
def edited (edit : List Char → List Char → Except Nat (List Char)) (l : List Char) : List Char :=
  match group l with
  | none => l
  | some g =>
    match edit l g with
    | .error _ => l
    | .ok line => line

theorem edited_of_none {edit : List Char → List Char → Except Nat (List Char)} {l : List Char}
    (h : group l = none) : edited edit l = l := by
  unfold edited
  rw [h]

theorem edited_of_ok {edit : List Char → List Char → Except Nat (List Char)} {l g line : List Char}
    (h : group l = some g) (he : edit l g = .ok line) : edited edit l = line := by
  unfold edited
  rw [h]
  dsimp only
  rw [he]

/-- The loop comes to its end. -/
theorem rewriteLines_ok (edit : List Char → List Char → Except Nat (List Char)) (text : List Char)
    (ls : List (List Char)) (flag : Bool) (newFile : List Char)
    (hok : ∀ l ∈ ls, ∀ g, group l = some g → ∃ line, edit l g = .ok line)
    (hflag : flag = true ∨ ∃ l ∈ ls, group l ≠ none) :
    rewriteLines edit text ls flag newFile = ⟨0, newFile ++ (ls.map (edited edit)).flatten⟩ := by
  induction ls generalizing flag newFile with
  | nil =>
      have hup : flag = true := hflag.resolve_right (fun ⟨l, hl, _⟩ => absurd hl List.not_mem_nil)
      rw [rewriteLines, hup, List.map_nil, List.flatten_nil, List.append_nil]
      rfl
  | cons l ls ih =>
      have hrest : ∀ m ∈ ls, ∀ g, group m = some g → ∃ line, edit m g = .ok line :=
        fun m hm => hok m (List.mem_cons_of_mem l hm)
      rw [rewriteLines, List.map_cons, List.flatten_cons, ← List.append_assoc]
      cases hg : group l with
      | none =>
          rw [edited_of_none hg]
          refine ih flag _ hrest (hflag.imp_right (fun ⟨m, hm, hne⟩ => ⟨m, ?_, hne⟩))
          exact (List.mem_cons.mp hm).resolve_left (fun he => hne (he ▸ hg))
      | some g =>
          rcases hok l List.mem_cons_self g hg with ⟨line, hline⟩
          rw [edited_of_ok hg hline]
          dsimp only
          rw [hline]
          exact ih true _ hrest (.inl rfl)

/-- A script that finds no line fails. -/
theorem rewriteLines_unmatched (edit : List Char → List Char → Except Nat (List Char))
    (text : List Char) (ls : List (List Char)) (newFile : List Char)
    (h : ∀ l ∈ ls, group l = none) : rewriteLines edit text ls false newFile = ⟨1, text⟩ := by
  induction ls generalizing newFile with
  | nil => rfl
  | cons l ls ih =>
      rw [List.forall_mem_cons] at h
      rw [rewriteLines, h.1]
      exact ih _ h.2

/-- The script exits at the first line that makes it. -/
theorem rewriteLines_stop (edit : List Char → List Char → Except Nat (List Char)) (s : Nat)
    (hs : ∀ l g e, edit l g = .error e → e = s) (text : List Char) (ls : List (List Char))
    (flag : Bool) (newFile : List Char)
    (hstop : ∃ l ∈ ls, ∃ g, group l = some g ∧ ∃ e, edit l g = .error e) :
    rewriteLines edit text ls flag newFile = ⟨s, text⟩ := by
  induction ls generalizing flag newFile with
  | nil =>
      rcases hstop with ⟨l, hl, -⟩
      exact absurd hl List.not_mem_nil
  | cons l ls ih =>
      rw [rewriteLines]
      cases hg : group l with
      | none =>
          refine ih flag _ ?_
          rcases hstop with ⟨m, hm, g, hmg, he⟩
          refine ⟨m, (List.mem_cons.mp hm).resolve_left (fun heq => ?_), g, hmg, he⟩
          rw [heq, hg] at hmg
          exact Option.some_ne_none g hmg.symm
      | some g =>
          dsimp only
          cases he : edit l g with
          | error e => rw [hs l g e he]
          | ok line =>
              refine ih true _ ?_
              rcases hstop with ⟨m, hm, g', hmg, e, hme⟩
              refine ⟨m, (List.mem_cons.mp hm).resolve_left (fun heq => ?_), g', hmg, e, hme⟩
              rw [heq] at hmg hme
              rw [← Option.some.inj (hg.symm.trans hmg), he] at hme
              exact absurd hme (by simp only [reduceCtorEq, not_false_eq_true])

/-- The lines of an edited file are the edited lines. -/
theorem lines_edited (edit : List Char → List Char → Except Nat (List Char)) (text : List Char)
    (hok : ∀ l ∈ lines '\n' text, ∀ g, group l = some g →
      ∃ body, '\n' ∉ body ∧ edit l g = .ok (newLine body)) :
    lines '\n' ((lines '\n' text).map (edited edit)).flatten
      = (lines '\n' text).map (edited edit) := by
  refine Lines.lines_flatten ((Lines.formed_lines '\n' text).map _ (fun l hl => ?_))
  cases hg : group l with
  | none => exact .inl (edited_of_none hg)
  | some g =>
      rcases hok l hl g hg with ⟨body, hbody, he⟩
      rw [edited_of_ok hg he]
      refine .inr ⟨param ++ " = '".toList ++ body ++ ['\''], ?_, ?_⟩
      · have hfixed : '\n' ∉ param ++ " = '".toList ∧ '\n' ∉ ['\''] := by decide
        simp only [List.mem_append, not_or] at hfixed ⊢
        exact ⟨⟨hfixed.1, hbody⟩, hfixed.2⟩
      · unfold newLine
        rw [List.append_assoc _ ['\''] ['\n']]
        rfl

/-! ## Names -/

/-- The names on a line, apart from empty ones. -/
def libraryNames (g : List Char) : List (List Char) :=
  (workers g).filter (· ≠ [])

/-- A name as it stands in a list: no space, comma or break. -/
def Listable (x : List Char) : Prop :=
  ∀ c ∈ x, c ≠ ' ' ∧ c ≠ ',' ∧ c ≠ '\n'

theorem listable_of_mem_workers {g x : List Char} (hg : '\n' ∉ g) (hx : x ∈ workers g) :
    Listable x := by
  intro c hc
  have hmem := List.mem_filter.mp (Lines.mem_of_mem_splitOn hx hc)
  refine ⟨of_decide_eq_true hmem.2, fun he => ?_, fun he => hg (he ▸ hmem.1)⟩
  exact Lines.not_mem_splitOn ',' (wStr g) x hx (he ▸ hc)

theorem wStr_intercalate {xs : List (List Char)} (h : ∀ x ∈ xs, Listable x) :
    wStr ([','].intercalate xs) = [','].intercalate xs := by
  unfold wStr
  rw [List.filter_eq_self]
  intro c hc
  rw [decide_eq_true_eq]
  rcases Lines.mem_intercalate hc with rfl | ⟨x, hx, hcx⟩
  · decide
  · exact (h x hx c hcx).1

theorem newline_not_mem_intercalate {xs : List (List Char)} (h : ∀ x ∈ xs, Listable x) :
    '\n' ∉ [','].intercalate xs := by
  intro hc
  rcases Lines.mem_intercalate hc with he | ⟨x, hx, hcx⟩
  · exact absurd he (by decide)
  · exact (h x hx _ hcx).2.2 rfl

/-- Names that are joined come apart again. -/
theorem workers_intercalate {xs : List (List Char)} (h : ∀ x ∈ xs, Listable x) (hne : xs ≠ []) :
    workers ([','].intercalate xs) = xs := by
  unfold workers
  rw [wStr_intercalate h]
  exact List.splitOn_intercalate ',' (fun x hx hm => (h x hx _ hm).2.1 rfl) hne

theorem mem_libraryNames_intercalate {xs : List (List Char)} (h : ∀ x ∈ xs, Listable x)
    (x : List Char) : x ∈ libraryNames ([','].intercalate xs) ↔ x ∈ xs ∧ x ≠ [] := by
  unfold libraryNames
  rw [List.mem_filter, decide_eq_true_eq]
  by_cases hne : xs = []
  · -- The empty list reads as one empty name.
    subst hne
    have hnil : workers ([','].intercalate []) = [[]] := rfl
    rw [hnil, List.mem_singleton]
    exact ⟨fun ⟨hx, hx'⟩ => absurd hx hx', fun ⟨hx, _⟩ => absurd hx List.not_mem_nil⟩
  · rw [workers_intercalate h hne]

/-! ## Adding a worker -/

/-- The names on a line that are kept: the line may be empty. -/
def keptNames (order : Listing (List Char) (List Char)) (l g : List Char) : List (List Char) :=
  if wStr g = [] then [] else order.list l (workers g)

theorem mem_keptNames (order : Listing (List Char) (List Char)) (l g x : List Char) :
    x ∈ keptNames order l g ↔ wStr g ≠ [] ∧ x ∈ workers g := by
  unfold keptNames
  split
  · next h => simp only [List.not_mem_nil, h, ne_eq, not_true_eq_false, false_and]
  · next h => rw [order.mem_iff, and_iff_right h]

theorem mem_keptNames_iff_libraryNames (order : Listing (List Char) (List Char)) (l g x : List Char) :
    x ∈ keptNames order l g ∧ x ≠ [] ↔ x ∈ libraryNames g := by
  rw [mem_keptNames, libraryNames, List.mem_filter, decide_eq_true_eq]
  constructor
  · exact fun h => ⟨h.1.2, h.2⟩
  · intro h
    refine ⟨⟨fun he => h.2 ?_, h.1⟩, h.2⟩
    have hx := h.1
    rw [workers, he, List.splitOn_nil, List.mem_singleton] at hx
    exact hx

/-- The worker is added behind the names there were. -/
theorem registerLine_eq (order : Listing (List Char) (List Char)) {w l g : List Char}
    (hnew : w ∉ workers g) :
    registerLine order w l g = .ok (newLine ([','].intercalate (keptNames order l g ++ [w]))) := by
  unfold registerLine keptNames
  by_cases hw : wStr g = []
  · rw [if_neg (not_not.mpr hw), if_pos hw, List.nil_append, List.intercalate_singleton]
  · have hne : order.list l (workers g) ≠ [] := by
      rcases List.exists_mem_of_ne_nil _ (List.splitOn_ne_nil ',' (wStr g)) with ⟨x, hx⟩
      exact List.ne_nil_of_mem ((order.mem_iff l (workers g) x).mpr hx)
    rw [if_pos hw, if_neg hw, if_neg (mt List.contains_iff_mem.mp hnew),
      Lines.intercalate_concat ',' hne]

theorem listable_keptNames (order : Listing (List Char) (List Char)) {l g w : List Char}
    (hg : group l = some g) (hw : Listable w) : ∀ x ∈ keptNames order l g ++ [w], Listable x := by
  intro x hx
  rcases List.mem_append.mp hx with hx | hx
  · exact listable_of_mem_workers (not_mem_group hg) ((mem_keptNames order l g x).mp hx).2
  · rw [List.mem_singleton.mp hx]
    exact hw

/-- A worker that no line lists is added to every line that matches. -/
theorem pgWorkerRegister_eq (order : Listing (List Char) (List Char)) (w text : List Char)
    (hw : Listable w) (hmatch : ∃ l ∈ lines '\n' text, group l ≠ none)
    (hnew : ∀ l ∈ lines '\n' text, ∀ g, group l = some g → w ∉ workers g) :
    (pgWorkerRegister order w text).status = 0 ∧
      lines '\n' (pgWorkerRegister order w text).file
        = (lines '\n' text).map (edited (registerLine order w)) := by
  have hok : ∀ l ∈ lines '\n' text, ∀ g, group l = some g →
      ∃ body, '\n' ∉ body ∧ registerLine order w l g = .ok (newLine body) :=
    fun l hl g hg => ⟨_, newline_not_mem_intercalate (listable_keptNames order hg hw),
      registerLine_eq order (hnew l hl g hg)⟩
  unfold pgWorkerRegister
  rw [rewriteLines_ok _ _ _ _ _ (fun l hl g hg => ⟨_, (hok l hl g hg).choose_spec.2⟩) (.inr hmatch)]
  exact ⟨rfl, lines_edited _ _ hok⟩

/-- A line as registering leaves it. -/
theorem group_registered (order : Listing (List Char) (List Char)) {w l g : List Char}
    (hw : Listable w) (hg : group l = some g) (hnew : w ∉ workers g) :
    group (edited (registerLine order w) l)
      = some ([','].intercalate (keptNames order l g ++ [w])) := by
  rw [edited_of_ok hg (registerLine_eq order hnew)]
  exact group_newLine (newline_not_mem_intercalate (listable_keptNames order hg hw))

/-! ## And removing it -/

/-- Unregistering takes the worker off a line that registering has left. -/
theorem unregisterLine_eq (order order' : Listing (List Char) (List Char)) {w l g : List Char}
    (hne : w ≠ []) (hw : Listable w) (hg : group l = some g) (hnew : w ∉ workers g)
    (l' : List Char) :
    unregisterLine order' w l' ([','].intercalate (keptNames order l g ++ [w]))
      = .ok (newLine ([','].intercalate (order'.list l' (keptNames order l g)))) := by
  have hlist := listable_keptNames order hg hw
  have hnil : keptNames order l g ++ [w] ≠ [] :=
    List.append_ne_nil_of_right_ne_nil _ (List.cons_ne_nil w [])
  have hsome : wStr ([','].intercalate (keptNames order l g ++ [w])) ≠ [] := by
    rw [wStr_intercalate hlist]
    rcases List.exists_mem_of_ne_nil w hne with ⟨c, hc⟩
    exact List.ne_nil_of_mem
      (Lines.mem_intercalate_of_mem ',' (List.mem_append_right _ List.mem_cons_self) hc)
  have hfilter : (keptNames order l g ++ [w]).filter (· ≠ w) = keptNames order l g := by
    have hkept : ∀ x ∈ keptNames order l g, decide (x ≠ w) = true := by
      intro x hx
      exact decide_eq_true (fun he => hnew (he ▸ ((mem_keptNames order l g x).mp hx).2))
    rw [List.filter_append, List.filter_eq_self.mpr hkept]
    simp only [ne_eq, decide_not, List.filter_cons, decide_true, Bool.not_true, Bool.false_eq_true,
      if_false, List.filter_nil, List.append_nil]
  have hlisted : (keptNames order l g ++ [w]).contains w = true :=
    List.contains_iff_mem.mpr (List.mem_append_right _ List.mem_cons_self)
  unfold unregisterLine
  rw [if_pos hsome, workers_intercalate hlist hnil, hfilter, hlisted]
  rfl

/-- What is left of a line is a list of the names that were on it. -/
theorem exists_unregisterLine (order order' : Listing (List Char) (List Char)) {w l g : List Char}
    (hne : w ≠ []) (hw : Listable w) (hg : group l = some g) (hnew : w ∉ workers g)
    (l' : List Char) :
    ∃ body, '\n' ∉ body ∧ (∀ x, x ∈ libraryNames body ↔ x ∈ libraryNames g) ∧
      unregisterLine order' w l' ([','].intercalate (keptNames order l g ++ [w]))
        = .ok (newLine body) := by
  have hlist : ∀ x ∈ order'.list l' (keptNames order l g), Listable x := fun x hx =>
    listable_keptNames order hg hw x (List.mem_append_left _ ((order'.mem_iff _ _ x).mp hx))
  refine ⟨_, newline_not_mem_intercalate hlist, fun x => ?_,
    unregisterLine_eq order order' hne hw hg hnew l'⟩
  rw [mem_libraryNames_intercalate hlist, order'.mem_iff, mem_keptNames_iff_libraryNames]

/-- Registering a worker that no line lists and unregistering it again, with the
    sets in any order, goes through both times. Every line that does not match is
    as it was and where it was, and every line that matches holds the names it
    held. -/
theorem unregister_undoes_register (order order' : Listing (List Char) (List Char))
    (w text : List Char) (hne : w ≠ []) (hw : ∀ c ∈ w, c ≠ ' ' ∧ c ≠ ',' ∧ c ≠ '\n')
    (hmatch : ∃ l ∈ lines '\n' text, group l ≠ none)
    (hnew : ∀ l ∈ lines '\n' text, ∀ g, group l = some g → w ∉ workers g) :
    (pgWorkerRegister order w text).status = 0 ∧
      (pgWorkerUnregister order' w (pgWorkerRegister order w text).file).status = 0 ∧
      List.Forall₂ (fun l l' => (group l = none → l' = l) ∧ ∀ g, group l = some g →
          ∃ g', group l' = some g' ∧ ∀ x, x ∈ libraryNames g' ↔ x ∈ libraryNames g)
        (lines '\n' text)
        (lines '\n' (pgWorkerUnregister order' w (pgWorkerRegister order w text).file).file) := by
  rcases pgWorkerRegister_eq order w text hw hmatch hnew with ⟨hstatus, hlines⟩
  generalize (pgWorkerRegister order w text).file = file at hlines ⊢
  have hgroup := fun l hl g hg => group_registered order hw hg (hnew l hl g hg)
  -- Every line of the file that matches was written for one that matched.
  have hok : ∀ l' ∈ lines '\n' file, ∀ g', group l' = some g' → ∃ body, '\n' ∉ body ∧
      unregisterLine order' w l' g' = .ok (newLine body) := by
    intro l' hl' g' hg'
    rw [hlines] at hl'
    rcases List.mem_map.mp hl' with ⟨l, hl, rfl⟩
    cases hg : group l with
    | none =>
        rw [edited_of_none hg, hg] at hg'
        exact absurd hg'.symm (Option.some_ne_none g')
    | some g =>
        rw [hgroup l hl g hg, Option.some.injEq] at hg'
        subst hg'
        rcases exists_unregisterLine order order' hne hw hg (hnew l hl g hg)
          (edited (registerLine order w) l) with ⟨body, hbody, -, hun⟩
        exact ⟨body, hbody, hun⟩
  have hmatch' : ∃ l' ∈ lines '\n' file, group l' ≠ none := by
    rcases hmatch with ⟨l, hl, hne'⟩
    rcases Option.ne_none_iff_exists'.mp hne' with ⟨g, hg⟩
    refine ⟨_, hlines ▸ List.mem_map_of_mem hl, ?_⟩
    rw [hgroup l hl g hg]
    exact Option.some_ne_none _
  unfold pgWorkerUnregister
  rw [rewriteLines_ok _ _ _ _ _ (fun l hl g hg => ⟨_, (hok l hl g hg).choose_spec.2⟩) (.inr hmatch')]
  refine ⟨hstatus, rfl, ?_⟩
  rw [List.nil_append, lines_edited _ _ hok, hlines, List.map_map, List.forall₂_map_right_iff,
    List.forall₂_same]
  intro l hl
  dsimp only [Function.comp_apply]
  constructor
  · intro hg
    rw [edited_of_none hg, edited_of_none hg]
  · intro g hg
    rcases exists_unregisterLine order order' hne hw hg (hnew l hl g hg)
      (edited (registerLine order w) l) with ⟨body, hbody, hnames, hun⟩
    rw [edited_of_ok (hgroup l hl g hg) hun]
    exact ⟨body, group_newLine hbody, hnames⟩

/-- Sets in the order in which their elements were last added. -/
def asAdded : Listing (List Char) (List Char) where
  list _ xs := xs.dedup
  nodup _ xs := xs.nodup_dedup
  mem_iff _ _ _ := List.mem_dedup

/-- A file with one assignment that is commented out and one that is not. -/
def sampleConf : List Char :=
  "port = 5432\n#shared_preload_libraries = ''\t# restart\nshared_preload_libraries = 'b, a'\n".toList

theorem unregister_undoes_register_sample :
    (pgWorkerRegister asAdded "tiny_worker".toList sampleConf).status = 0 ∧
      (pgWorkerUnregister asAdded "tiny_worker".toList
        (pgWorkerRegister asAdded "tiny_worker".toList sampleConf).file).status = 0 := by
  have hnew : ∀ l ∈ lines '\n' sampleConf,
      (group l).all (fun g => "tiny_worker".toList ∉ workers g) = true := by
    decide +kernel
  have hw : "tiny_worker".toList.all (fun c => c ≠ ' ' ∧ c ≠ ',' ∧ c ≠ '\n') = true := by decide
  have h := unregister_undoes_register asAdded asAdded "tiny_worker".toList sampleConf (by decide)
    (fun c hc => of_decide_eq_true (List.all_eq_true.mp hw c hc)) (by decide +kernel)
    (fun l hl g hg => by
      have hall := hnew l hl
      rw [hg, Option.all_some, decide_eq_true_eq] at hall
      exact hall)
  exact ⟨h.1, h.2.1⟩

end WedFlow
