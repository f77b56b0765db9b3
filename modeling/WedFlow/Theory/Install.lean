import WedFlow.Base.SqlTokens
import WedFlow.Core.Install
import WedFlow.Theory.Register

/-!
# What the Scripts Leave Behind

`winstall.sh` and `wremove.sh` belong together as long as names are in lower case.
Then removing what has been installed leaves the server as it was
(`remove_undoes_install`), and after any number of calls the databases that were
installed are the ones whose workers are registered (`installed_iff_registered`).

With a capital letter in its name a database cannot be connected to under the name
that was given. The script takes it away again and goes on: the worker of a database
that does not exist is registered, and the script reports success
(`capital_name_registers_only`).

And when the worker cannot be registered, the database stays, as nobody can drop the
database one is connected to. From then on neither script gets at it
(`failed_registration_strands`).

## Main definitions

* `listed`: The lists in a configuration, one for each line that matches.
* `Has`, `Lacks`: A name is on all of them, or on none.
* `PlainName`: A name that is read as itself and can stand in a list.
* `Host.Sane`: Privileges are of roles and on databases that are there.
* `Host.Consistent`: What is installed is registered.

## Theorems

* `register_lacking`, `unregister_having`: What the worker scripts do to the lists.
* `winstall_fresh`: What an installation comes to.
* `remove_undoes_install`, `capital_name_registers_only`,
  `failed_registration_strands`, `installed_iff_registered`: See above.
-/

namespace WedFlow

open Lines (Listing lines)

/-! ## Lists in the configuration -/

/-- The lists in a configuration, one for each line that matches. -/
def listed (text : List Char) : List (List Char) :=
  (lines '\n' text).filterMap group

/-- A name is on all lists. -/
def Has (text w : List Char) : Prop :=
  ∀ g ∈ listed text, w ∈ libraryNames g

/-- A name is on none of them. -/
def Lacks (text w : List Char) : Prop :=
  ∀ g ∈ listed text, w ∉ libraryNames g

instance (text w : List Char) : Decidable (Lacks text w) :=
  inferInstanceAs (Decidable (∀ g ∈ listed text, w ∉ libraryNames g))

theorem mem_listed {text g : List Char} :
    g ∈ listed text ↔ ∃ l ∈ lines '\n' text, group l = some g :=
  List.mem_filterMap

theorem listed_ne_nil_iff {text : List Char} :
    listed text ≠ [] ↔ ∃ l ∈ lines '\n' text, group l ≠ none := by
  constructor
  · intro h
    rcases List.exists_mem_of_ne_nil _ h with ⟨g, hg⟩
    rcases mem_listed.mp hg with ⟨l, hl, hlg⟩
    exact ⟨l, hl, by rw [hlg]; exact Option.some_ne_none g⟩
  · rintro ⟨l, hl, hne⟩
    rcases Option.ne_none_iff_exists'.mp hne with ⟨g, hg⟩
    exact List.ne_nil_of_mem (mem_listed.mpr ⟨l, hl, hg⟩)

/-- Lines that are edited one by one have lists that are related one by one. -/
theorem forall₂_listed (f : List Char → List Char) (R : List Char → List Char → Prop)
    (ls : List (List Char)) (hnone : ∀ l ∈ ls, group l = none → group (f l) = none)
    (hsome : ∀ l ∈ ls, ∀ g, group l = some g → ∃ g', group (f l) = some g' ∧ R g g') :
    List.Forall₂ R (ls.filterMap group) ((ls.map f).filterMap group) := by
  induction ls with
  | nil => exact .nil
  | cons l ls ih =>
      have hrest := ih (fun l hl => hnone l (List.mem_cons_of_mem _ hl))
        (fun l hl => hsome l (List.mem_cons_of_mem _ hl))
      rw [List.map_cons]
      cases hg : group l with
      | none =>
          rw [List.filterMap_cons_none hg,
            List.filterMap_cons_none (hnone l List.mem_cons_self hg)]
          exact hrest
      | some g =>
          rcases hsome l List.mem_cons_self g hg with ⟨g', hg', hR⟩
          rw [List.filterMap_cons_some hg, List.filterMap_cons_some hg']
          exact .cons hR hrest

theorem mem_libraryNames_iff {g w : List Char} (hne : w ≠ []) :
    w ∈ libraryNames g ↔ w ∈ workers g := by
  unfold libraryNames
  rw [List.mem_filter, decide_eq_true_eq]
  exact ⟨fun h => h.1, fun h => ⟨h, hne⟩⟩

/-- Registering puts a name that is on no list on all of them. -/
theorem register_lacking (order : Listing (List Char) (List Char)) {w text : List Char}
    (hne : w ≠ []) (hw : Listable w) (hmatch : listed text ≠ []) (hnew : Lacks text w) :
    (pgWorkerRegister order w text).status = 0 ∧
      List.Forall₂ (fun g g' => ∀ x, x ∈ libraryNames g' ↔ x ∈ libraryNames g ∨ x = w)
        (listed text) (listed (pgWorkerRegister order w text).file) := by
  have hfree : ∀ l ∈ lines '\n' text, ∀ g, group l = some g → w ∉ workers g :=
    fun l hl g hg hm => hnew g (mem_listed.mpr ⟨l, hl, hg⟩) ((mem_libraryNames_iff hne).mpr hm)
  rcases pgWorkerRegister_eq order w text hw (listed_ne_nil_iff.mp hmatch) hfree
    with ⟨hstatus, hlines⟩
  refine ⟨hstatus, ?_⟩
  unfold listed
  rw [hlines]
  refine forall₂_listed _ _ _ (fun l _ hg => ?_) (fun l hl g hg => ⟨_, group_registered order hw hg
    (hfree l hl g hg), fun x => ?_⟩)
  · rw [edited_of_none hg, hg]
  · rw [mem_libraryNames_intercalate (listable_keptNames order hg hw), List.mem_append,
      List.mem_singleton, or_and_right, mem_keptNames_iff_libraryNames]
    constructor
    · rintro (h | h)
      · exact .inl h
      · exact .inr h.1
    · rintro (h | rfl)
      · exact .inl h
      · exact .inr ⟨rfl, hne⟩

/-- What a list has, the list it was made of had, or had in its own way. -/
theorem forall_of_forall₂ {R : List Char → List Char → Prop} {P Q : List Char → Prop}
    (hR : ∀ g g', R g g' → P g → Q g') {l l' : List (List Char)} (h : List.Forall₂ R l l')
    (hP : ∀ g ∈ l, P g) : ∀ g' ∈ l', Q g' := by
  induction h with
  | nil => exact fun _ hg => absurd hg List.not_mem_nil
  | cons hgg _ ih =>
      rcases List.forall_mem_cons.mp hP with ⟨hp, hrest⟩
      exact List.forall_mem_cons.mpr ⟨hR _ _ hgg hp, ih hrest⟩

/-- A file without a line that matches is left alone. -/
theorem register_unmatched (order : Listing (List Char) (List Char)) (w : List Char)
    {text : List Char} (h : listed text = []) : pgWorkerRegister order w text = ⟨1, text⟩ :=
  rewriteLines_unmatched _ text _ [] (List.filterMap_eq_nil_iff.mp h)

/-- A name that is missing from a list cannot be unregistered. -/
theorem unregister_lacking (order : Listing (List Char) (List Char)) {w text : List Char}
    (hne : w ≠ []) (h : Lacks text w) : pgWorkerUnregister order w text = ⟨1, text⟩ := by
  by_cases hmatch : listed text = []
  · exact rewriteLines_unmatched _ text _ [] (List.filterMap_eq_nil_iff.mp hmatch)
  · have hedit : ∀ l g, w ∉ workers g → unregisterLine order w l g = .error 1 := by
      intro l g hm
      unfold unregisterLine
      rw [Bool.eq_false_iff.mpr (fun hc => hm (List.contains_iff_mem.mp hc))]
      split <;> rfl
    refine rewriteLines_stop _ 1 (fun l g e he => ?_) text _ false [] ?_
    · unfold unregisterLine at he
      split at he
      · split at he
        · exact (Except.error.inj he).symm
        · exact absurd he (by simp only [reduceCtorEq, not_false_eq_true])
      · exact (Except.error.inj he).symm
    · rcases List.exists_mem_of_ne_nil _ hmatch with ⟨g, hg⟩
      rcases mem_listed.mp hg with ⟨l, hl, hlg⟩
      refine ⟨l, hl, g, hlg, 1, hedit l g (fun hm => h g hg ((mem_libraryNames_iff hne).mpr hm))⟩

/-- Such a name is not too long, so it is the name one can connect with. -/
theorem connectName_of_read {db : String} (h : databaseName db = some db) :
    connectName db = some db := by
  have hshort : Sql.truncateIdentifier db.toList = db.toList := by
    unfold databaseName at h
    split at h
    · next t htoks =>
        have ht := Sql.short_scan htoks t List.mem_cons_self
        unfold Sql.columnOf at h
        split at h
        · next w =>
            split at h
            · exact absurd h.symm (Option.some_ne_none db)
            · rw [← Option.some.inj h, String.toList_ofList]
              exact ht
        · rw [← Option.some.inj h, String.toList_ofList]
          exact ht
        · exact absurd h.symm (Option.some_ne_none db)
    · exact absurd h.symm (Option.some_ne_none db)
  unfold connectName
  dsimp only
  rw [hshort, if_pos (.inl rfl), String.ofList_toList]

theorem workerName_ne_nil (db : String) : workerName db ≠ [] :=
  List.append_ne_nil_of_right_ne_nil _ (by decide)

/-- Privileges are of roles and on databases that are there, tables are in databases
    that are there, and what the server comes with is there. -/
structure Host.Sane (h : Host) : Prop where
  privileges : ∀ p ∈ h.connects ++ h.granted, p.1 ∈ h.roles ∧ p.2 ∈ h.databases
  flows : ∀ d ∈ h.flows, d ∈ h.databases
  system : ∀ d ∈ [postgres, "template0", "template1"], d ∈ h.databases
  superuser : postgres ∈ h.roles

theorem filter_concat_of_filter {α : Type} {p : α → Bool} {l : List α} {a : α}
    (hl : l.filter p = l) (ha : p a = false) : (l ++ [a]).filter p = l := by
  rw [List.filter_append, hl, List.filter_cons_of_neg (Bool.eq_false_iff.mp ha), List.filter_nil,
    List.append_nil]

theorem filter_concat {α : Type} {p : α → Bool} {l : List α} {a : α} (hl : ∀ x ∈ l, p x = true)
    (ha : p a = false) : (l ++ [a]).filter p = l := by
  exact filter_concat_of_filter (List.filter_eq_self.mpr hl) ha

theorem attempt_of_some {f : Host → Option Host} {h h' : Host} (hf : f h = some h') :
    attempt f h = h' := by
  unfold attempt
  rw [hf]
  rfl

theorem attempt_of_none {f : Host → Option Host} {h : Host} (hf : f h = none) : attempt f h = h := by
  unfold attempt
  rw [hf]
  rfl

section Fresh

variable {h : Host} (hs : h.Sane) {d : String} (hd : d ∉ h.databases)
include hs hd

/-- A database that is not there yet is none of those that cannot be dropped. -/
theorem droppable_of_fresh : d ≠ postgres ∧ d ≠ "template0" ∧ d ≠ "template1" :=
  ⟨(ne_of_mem_of_not_mem (hs.system _ (by decide)) hd).symm,
    (ne_of_mem_of_not_mem (hs.system _ (by decide)) hd).symm,
    (ne_of_mem_of_not_mem (hs.system _ (by decide)) hd).symm⟩

/-- Dropping a database that has just been created takes with it what refers to
    it. -/
theorem dropDatabase_fresh {db : String} (hname : databaseName db = some d) (roles : List String)
    {flows : List String} {connects granted : List (String × String)}
    (hf : flows.filter (· ≠ d) = h.flows) (hc : connects.filter (·.2 ≠ d) = h.connects)
    (hg : granted.filter (·.2 ≠ d) = h.granted) :
    dropDatabase postgres db ⟨h.databases ++ [d], flows, roles, connects, granted, h.conf⟩
      = some { h with roles := roles } := by
  rcases droppable_of_fresh hs hd with ⟨h₁, h₂, h₃⟩
  have hin : (h.databases ++ [d]).contains d = true :=
    List.contains_iff_mem.mpr (List.mem_append_right _ List.mem_cons_self)
  unfold dropDatabase
  rw [hname, Option.bind_some]
  simp only [hin, h₁, h₂, h₃, ne_eq, not_false_eq_true, decide_true, Bool.and_self, if_true,
    Option.some.injEq, Host.mk.injEq, and_true, true_and]
  exact ⟨filter_concat (fun x hx => decide_eq_true (ne_of_mem_of_not_mem hx hd))
    (decide_eq_false (not_not.mpr rfl)), hf, hc, hg⟩

/-- Nothing refers to a database that is not there. -/
theorem filter_fresh : h.flows.filter (· ≠ d) = h.flows ∧
    h.connects.filter (·.2 ≠ d) = h.connects ∧ h.granted.filter (·.2 ≠ d) = h.granted := by
  refine ⟨List.filter_eq_self.mpr fun x hx => ?_, List.filter_eq_self.mpr fun p hp => ?_,
    List.filter_eq_self.mpr fun p hp => ?_⟩
  · exact decide_eq_true (ne_of_mem_of_not_mem (hs.flows x hx) hd)
  · exact decide_eq_true (ne_of_mem_of_not_mem (hs.privileges p (List.mem_append_left _ hp)).2 hd)
  · exact decide_eq_true (ne_of_mem_of_not_mem (hs.privileges p (List.mem_append_right _ hp)).2 hd)

end Fresh

section Role

variable {h : Host} (hs : h.Sane) {r : String} (hr : r ∉ h.roles)
include hs hr

theorem connects_role {d : String} : (h.connects ++ [(r, d)]).filter (·.1 ≠ r) = h.connects := by
  refine filter_concat (fun p hp => decide_eq_true (ne_of_mem_of_not_mem ?_ hr))
    (decide_eq_false (not_not.mpr rfl))
  exact (hs.privileges p (List.mem_append_left _ hp)).1

theorem granted_role {d : String} : (h.granted ++ [(r, d)]).filter (· ≠ (r, d)) = h.granted := by
  refine filter_concat (fun p hp => decide_eq_true (fun he => hr ?_))
    (decide_eq_false (not_not.mpr rfl))
  rw [he] at hp
  exact (hs.privileges _ (List.mem_append_right _ hp)).1

/-- Dropping a role that has just been created and has no privileges. -/
theorem dropRole_fresh {user : String} (hname : roleName user = some r) (databases flows : List String)
    (conf : List Char) :
    dropRole user { h with
        databases := databases
        flows := flows
        roles := h.roles ++ [r]
        conf := conf }
      = some { h with databases := databases, flows := flows, conf := conf } := by
  have hin : (h.roles ++ [r]).contains r = true :=
    List.contains_iff_mem.mpr (List.mem_append_right _ List.mem_cons_self)
  have hne : r ≠ postgres := (ne_of_mem_of_not_mem hs.superuser hr).symm
  have hnone : (h.connects ++ h.granted).any (fun p => p.1 = r) = false := by
    refine List.any_eq_false.mpr (fun p hp he => hr ?_)
    rw [← of_decide_eq_true he]
    exact (hs.privileges p hp).1
  unfold dropRole
  rw [hname, Option.bind_some]
  simp only [hin, hne, ne_eq, not_false_eq_true, decide_true, Bool.and_self, hnone, Bool.not_false,
    if_true, Option.some.injEq, Host.mk.injEq, and_true, true_and]
  exact filter_concat (fun x hx => decide_eq_true (ne_of_mem_of_not_mem hx hr))
    (decide_eq_false (not_not.mpr rfl))

end Role

/-- The server with a database, its tables and its user, but not its worker. -/
def Host.equipped (h : Host) (db r : String) : Host :=
  { h with
    databases := h.databases ++ [db]
    flows := h.flows ++ [db]
    roles := h.roles ++ [r]
    connects := h.connects ++ [(r, db)]
    granted := h.granted ++ [(r, db)] }

/-- A user that can be created. -/
structure FreshUser (h : Host) (user pass r : String) : Prop where
  read : roleName user = some r
  free : r ∉ h.roles
  allowed : r ≠ "public" ∧ r ≠ "none"
  pass : passwordReads pass = true

instance (h : Host) (user pass r : String) : Decidable (FreshUser h user pass r) :=
  decidable_of_iff (roleName user = some r ∧ r ∉ h.roles ∧ (r ≠ "public" ∧ r ≠ "none") ∧
    passwordReads pass = true)
    ⟨fun h => ⟨h.1, h.2.1, h.2.2.1, h.2.2.2⟩, fun h => ⟨h.read, h.free, h.allowed, h.pass⟩⟩

theorem createDatabase_fresh {h : Host} {db d : String} (hname : databaseName db = some d)
    (hd : d ∉ h.databases) : createDatabase db h = some { h with databases := h.databases ++ [d] } := by
  unfold createDatabase
  rw [hname, Option.bind_some, if_neg (fun hc => hd (List.contains_iff_mem.mp hc))]

theorem createRole_fresh {h : Host} {user pass r : String} (hu : FreshUser h user pass r)
    (databases : List String) :
    createRole user pass { h with databases := databases }
      = some { h with databases := databases, roles := h.roles ++ [r] } := by
  have hnot : h.roles.contains r = false :=
    Bool.eq_false_iff.mpr fun hc => hu.free (List.contains_iff_mem.mp hc)
  unfold createRole
  rw [hu.read, Option.bind_some]
  simp only [hnot, hu.allowed.1, hu.allowed.2, hu.pass, decide_false, Bool.or_self, Bool.not_true,
    Bool.false_eq_true, if_false]

theorem grantConnect_fresh {h : Host} (hs : h.Sane) {db user d r : String}
    (hname : databaseName db = some d) (hd : d ∉ h.databases) (hr : roleName user = some r) :
    grantConnect db user { h with databases := h.databases ++ [d], roles := h.roles ++ [r] }
      = some { h with
          databases := h.databases ++ [d]
          roles := h.roles ++ [r]
          connects := h.connects ++ [(r, d)] } := by
  have hdin : (h.databases ++ [d]).contains d = true :=
    List.contains_iff_mem.mpr (List.mem_append_right _ List.mem_cons_self)
  have hrin : (h.roles ++ [r]).contains r = true :=
    List.contains_iff_mem.mpr (List.mem_append_right _ List.mem_cons_self)
  have hold : h.connects.filter (· ≠ (r, d)) = h.connects := by
    refine List.filter_eq_self.mpr fun p hp => decide_eq_true (fun he => hd ?_)
    rw [he] at hp
    exact (hs.privileges _ (List.mem_append_left _ hp)).2
  unfold grantConnect
  rw [hname, hr]
  simp only [hdin, hrin, Bool.and_self, if_true, hold]

/-- An installation of a database and a user that are not there comes to this. -/
theorem winstall_fresh (order : Listing (List Char) (List Char)) {h : Host} (hs : h.Sane)
    {db user pass r : String} (hname : databaseName db = some db) (hd : db ∉ h.databases)
    (hu : FreshUser h user pass r) :
    winstall order db user pass h
      = (0, if (pgWorkerRegister order (workerName db) h.conf).status ≠ 0 then
          withdraw db user (h.equipped db r)
        else { h.equipped db r with
          conf := (pgWorkerRegister order (workerName db) h.conf).file }) := by
  have hdin : (h.databases ++ [db]).contains db = true :=
    List.contains_iff_mem.mpr (List.mem_append_right _ List.mem_cons_self)
  have hrin : (h.roles ++ [r]).contains r = true :=
    List.contains_iff_mem.mpr (List.mem_append_right _ List.mem_cons_self)
  have hflows := (filter_fresh hs hd).1
  have hgranted : h.granted.filter (· ≠ (r, db)) = h.granted := by
    refine List.filter_eq_self.mpr fun p hp => decide_eq_true (fun he => hd ?_)
    rw [he] at hp
    exact (hs.privileges _ (List.mem_append_right _ hp)).2
  have htables : attempt (grantTables db user) { h with
        databases := h.databases ++ [db]
        flows := h.flows ++ [db]
        roles := h.roles ++ [r]
        connects := h.connects ++ [(r, db)] } = h.equipped db r := by
    refine attempt_of_some ?_
    unfold grantTables
    rw [connectName_of_read hname, hu.read]
    simp only [hdin, hrin, Bool.and_self, if_true, hgranted]
    rfl
  unfold winstall
  rw [createDatabase_fresh hname hd]
  dsimp only
  rw [createRole_fresh hu]
  dsimp only
  unfold setUp
  rw [attempt_of_some (grantConnect_fresh hs hname hd hu.read)]
  unfold installFlow
  rw [connectName_of_read hname]
  simp only [Option.bind_some, hdin, if_true, hflows, Option.getD_some, htables]
  rw [show (h.equipped db r).conf = h.conf from rfl]
  split <;> rfl

/-- All that can be undone without the database being dropped. -/
theorem withdraw_equipped {h : Host} (hs : h.Sane) {db user r : String}
    (hname : databaseName db = some db) (hr : r ∉ h.roles) (hread : roleName user = some r) :
    withdraw db user (h.equipped db r)
      = { h with databases := h.databases ++ [db], flows := h.flows ++ [db] } := by
  have hdin : (h.databases ++ [db]).contains db = true :=
    List.contains_iff_mem.mpr (List.mem_append_right _ List.mem_cons_self)
  have hrin : (h.roles ++ [r]).contains r = true :=
    List.contains_iff_mem.mpr (List.mem_append_right _ List.mem_cons_self)
  have hne : r ≠ postgres := (ne_of_mem_of_not_mem hs.superuser hr).symm
  have howned : attempt (dropOwned db user) (h.equipped db r) = { h with
      databases := h.databases ++ [db]
      flows := h.flows ++ [db]
      roles := h.roles ++ [r] } := by
    refine attempt_of_some ?_
    unfold dropOwned Host.equipped
    simp only [hread, Option.bind_some, hrin, hne, ne_eq, not_false_eq_true, decide_true,
      Bool.and_self, if_true, Option.some.injEq, Host.mk.injEq, true_and, and_true]
    exact ⟨connects_role hs hr, granted_role hs hr⟩
  have hopen : ∀ h' : Host, attempt (dropDatabase db db) h' = h' := by
    intro h'
    refine attempt_of_none ?_
    unfold dropDatabase
    rw [hname, Option.bind_some]
    simp only [ne_eq, not_true_eq_false, decide_false, Bool.and_false, Bool.false_and,
      Bool.false_eq_true, if_false]
  unfold withdraw
  rw [connectName_of_read hname]
  dsimp only
  rw [if_pos (show (h.equipped db r).databases.contains db = true from hdin), howned, hopen]
  exact attempt_of_some (dropRole_fresh hs hr hread _ _ _)

theorem Host.Sane.of_conf {h : Host} (hs : h.Sane) (conf : List Char) :
    ({ h with conf := conf } : Host).Sane :=
  ⟨hs.privileges, hs.flows, hs.system, hs.superuser⟩

theorem listed_ne_nil_of_forall₂ {R : List Char → List Char → Prop} {text text' : List Char}
    (h : List.Forall₂ R (listed text) (listed text')) (hne : listed text ≠ []) :
    listed text' ≠ [] := by
  intro hnil
  rw [hnil] at h
  exact hne (List.forall₂_nil_right_iff.mp h)

/-- What registering leaves has the name on all lists. -/
theorem has_registered {w text text' : List Char}
    (h : List.Forall₂ (fun g g' => ∀ x, x ∈ libraryNames g' ↔ x ∈ libraryNames g ∨ x = w)
      (listed text) (listed text')) : Has text' w :=
  forall_of_forall₂ (P := fun _ => True) (fun _ _ hR _ => (hR w).mpr (.inr rfl)) h
    (fun _ _ => trivial)

/-- A server as it comes, but for its configuration. -/
def sampleHost : Host :=
  ⟨["postgres", "template0", "template1"], [], ["postgres"], [], [], sampleConf⟩

theorem sampleHost_sane : sampleHost.Sane :=
  ⟨fun _ hp => absurd hp List.not_mem_nil, fun _ hd => absurd hd List.not_mem_nil,
    fun _ hd => hd, List.mem_cons_self⟩

theorem listable_of_all {x : List Char}
    (h : x.all (fun c => c ≠ ' ' && c ≠ ',' && c ≠ '\n') = true) : Listable x := by
  intro c hc
  have hall := List.all_eq_true.mp h c hc
  simp only [Bool.and_eq_true, decide_eq_true_eq] at hall
  exact ⟨hall.1.1, hall.1.2, hall.2⟩

/-- A name that is read as one thing in a statement and as another on the command line is
    registered and that is all: the database and the user that were created are gone again,
    and the script reports success. -/
theorem capital_name_registers_only (order : Listing (List Char) (List Char)) (h : Host)
    (hs : h.Sane) (db d user pass r : String) (hname : databaseName db = some d)
    (hd : d ∉ h.databases) (hdb : ∀ c, connectName db = some c → c ≠ d ∧ c ∉ h.databases)
    (hu : FreshUser h user pass r)
    (hlist : Listable (workerName db)) (hmatch : listed h.conf ≠ [])
    (hnew : Lacks h.conf (workerName db)) :
    ∃ conf, winstall order db user pass h = (0, { h with conf := conf }) ∧
      listed conf ≠ [] ∧ Has conf (workerName db) := by
  rcases register_lacking order (workerName_ne_nil db) hlist hmatch hnew with ⟨hstatus, hreg⟩
  refine ⟨_, ?_, listed_ne_nil_of_forall₂ hreg hmatch, has_registered hreg⟩
  -- `psql` finds no database of that name, so what was created is dropped.
  have hinstall : ∀ h' : Host, h'.databases = h.databases ++ [d] → installFlow db h' = none := by
    intro h' hdbs
    unfold installFlow
    cases hconn : connectName db with
    | none => rfl
    | some c =>
        rw [Option.bind_some, if_neg]
        intro hc
        rw [hdbs, List.contains_iff_mem] at hc
        rcases List.mem_append.mp hc with hm | hm
        · exact (hdb c hconn).2 hm
        · exact (hdb c hconn).1 (List.mem_singleton.mp hm)
  have hconnects : (h.connects ++ [(r, d)]).filter (·.2 ≠ d) = h.connects :=
    filter_concat_of_filter (filter_fresh hs hd).2.1 (decide_eq_false (not_not.mpr rfl))
  have hdrop := attempt_of_some (dropDatabase_fresh hs hd hname (h.roles ++ [r])
    (filter_fresh hs hd).1 hconnects (filter_fresh hs hd).2.2)
  have hrole : attempt (dropRole user) { h with roles := h.roles ++ [r] } = h :=
    attempt_of_some (dropRole_fresh hs hu.free hu.read _ _ _)
  unfold winstall
  rw [createDatabase_fresh hname hd]
  dsimp only
  rw [createRole_fresh hu]
  dsimp only
  unfold setUp
  rw [attempt_of_some (grantConnect_fresh hs hname hd hu.read)]
  dsimp only
  rw [hinstall _ rfl, Option.getD_none, hdrop, hrole]
  have htables : attempt (grantTables db user) h = h := by
    refine attempt_of_none ?_
    unfold grantTables
    split
    · next c r hconn hr =>
        have hnot : h.databases.contains c = false :=
          Bool.eq_false_iff.mpr fun hc => (hdb c hconn).2 (List.contains_iff_mem.mp hc)
        rw [hnot, Bool.false_and]
        rfl
    · rfl
  rw [htables, if_neg (not_not.mpr hstatus)]

theorem capital_name_registers_only_sample :
    ∃ conf, winstall asAdded "Travel" "agent" "secret" sampleHost
        = (0, { sampleHost with conf := conf }) ∧ Has conf "Travel_worker".toList := by
  have hother : ∀ c, connectName "Travel" = some c → c ≠ "travel" ∧ c ∉ sampleHost.databases := by
    have hconn : connectName "Travel" = some "Travel" := by decide +kernel
    rintro c hc
    rw [hconn, Option.some.injEq] at hc
    rw [← hc]
    decide +kernel
  rcases capital_name_registers_only asAdded sampleHost sampleHost_sane "Travel" "travel" "agent"
    "secret" "agent" (by decide +kernel) (by decide +kernel) hother
    (by decide +kernel) (listable_of_all (by decide +kernel)) (by decide +kernel)
    (by decide +kernel) with ⟨conf, hinstall, -, hhas⟩
  exact ⟨conf, hinstall, hhas⟩

/-! ## Registrations that fail -/

/-- A database is still there, and the configuration is the same. -/
structure Stays (x : String) (h h' : Host) : Prop where
  mem : x ∈ h'.databases
  conf : h'.conf = h.conf

theorem Stays.trans {x : String} {h h' h'' : Host} (s : Stays x h h') (s' : Stays x h' h'') :
    Stays x h h'' :=
  ⟨s'.mem, s'.conf.trans s.conf⟩

theorem stays_attempt {f : Host → Option Host} {x : String} {h : Host} (hx : x ∈ h.databases)
    (hf : ∀ h', f h = some h' → h'.databases = h.databases ∧ h'.conf = h.conf) :
    Stays x h (attempt f h) := by
  cases he : f h with
  | none =>
      rw [attempt_of_none he]
      exact ⟨hx, rfl⟩
  | some h' =>
      rw [attempt_of_some he]
      exact ⟨(hf h' he).1 ▸ hx, (hf h' he).2⟩

/-- A statement that drops a database drops no other. -/
theorem stays_dropDatabase (current : String) {db d x : String} {h : Host} (hname : databaseName db = some d)
    (hx : x ∈ h.databases) (hne : x ≠ d) : Stays x h (attempt (dropDatabase current db) h) := by
  unfold attempt dropDatabase
  rw [hname, Option.bind_some]
  split
  · exact ⟨List.mem_filter.mpr ⟨hx, decide_eq_true hne⟩, rfl⟩
  · exact ⟨hx, rfl⟩

/-- The statements on roles and privileges drop none at all. -/
theorem stays_role {x : String} {h : Host} (hx : x ∈ h.databases) (db user : String) :
    Stays x h (attempt (dropRole user) h) ∧ Stays x h (attempt (dropOwned db user) h) ∧
      Stays x h (attempt (grantConnect db user) h) ∧ Stays x h (attempt (grantTables db user) h) := by
  refine ⟨stays_attempt hx fun h' he => ?_, stays_attempt hx fun h' he => ?_,
    stays_attempt hx fun h' he => ?_, stays_attempt hx fun h' he => ?_⟩
  · rcases Option.bind_eq_some_iff.mp he with ⟨r, -, hr⟩
    split at hr
    · rw [← Option.some.inj hr]
      exact ⟨rfl, rfl⟩
    · exact absurd hr.symm (Option.some_ne_none h')
  · rcases Option.bind_eq_some_iff.mp he with ⟨r, -, hr⟩
    split at hr
    · rw [← Option.some.inj hr]
      exact ⟨rfl, rfl⟩
    · exact absurd hr.symm (Option.some_ne_none h')
  · unfold grantConnect at he
    split at he
    · split at he
      · rw [← Option.some.inj he]
        exact ⟨rfl, rfl⟩
      · exact absurd he.symm (Option.some_ne_none h')
    · exact absurd he.symm (Option.some_ne_none h')
  · unfold grantTables at he
    split at he
    · split at he
      · rw [← Option.some.inj he]
        exact ⟨rfl, rfl⟩
      · exact absurd he.symm (Option.some_ne_none h')
    · exact absurd he.symm (Option.some_ne_none h')

theorem stays_withdraw {db user d x : String} {h : Host} (hname : databaseName db = some d)
    (hx : x ∈ h.databases) (hne : x ≠ d) : Stays x h (withdraw db user h) := by
  unfold withdraw
  split
  · exact ⟨hx, rfl⟩
  next c hc =>
    split
    · have howned := (stays_role hx c user).2.1
      have hdrop := howned.trans (stays_dropDatabase c hname howned.mem hne)
      exact hdrop.trans (stays_role hdrop.mem c user).1
    · exact ⟨hx, rfl⟩

theorem stays_setUp (order : Listing (List Char) (List Char)) (user : String) {db d x : String}
    {h : Host} (hname : databaseName db = some d) (hx : x ∈ h.databases) (hne : x ≠ d)
    (hconf : listed h.conf = []) : Stays x h (setUp order db user h).2 := by
  have hconnect := (stays_role hx db user).2.2.1
  unfold setUp
  dsimp only
  generalize attempt (grantConnect db user) h = h₁ at hconnect ⊢
  -- Either the tables are installed, or everything is dropped.
  have hinstall : Stays x h ((installFlow db h₁).getD
      (attempt (dropRole user) (attempt (dropDatabase postgres db) h₁))) := by
    have hdrop := stays_dropDatabase postgres hname hconnect.mem hne
    have hdropped := (hconnect.trans hdrop).trans (stays_role hdrop.mem db user).1
    unfold installFlow
    cases connectName db with
    | none => exact hdropped
    | some c =>
        rw [Option.bind_some]
        split
        · exact ⟨hconnect.mem, hconnect.conf⟩
        · exact hdropped
  generalize (installFlow db h₁).getD (attempt (dropRole user)
    (attempt (dropDatabase postgres db) h₁)) = h₂ at hinstall ⊢
  have hgrant := hinstall.trans (stays_role hinstall.mem db user).2.2.2
  generalize attempt (grantTables db user) h₂ = h₃ at hgrant ⊢
  rw [register_unmatched order _ (by rw [hgrant.conf]; exact hconf)]
  exact hgrant.trans (stays_withdraw hname hgrant.mem hne)

/-- With nothing to match in the configuration an installation leaves it alone, and
    every database that was there. -/
theorem stays_winstall (order : Listing (List Char) (List Char)) (db user pass : String) {x : String}
    {h : Host} (hx : x ∈ h.databases) (hconf : listed h.conf = []) :
    Stays x h (winstall order db user pass h).2 := by
  cases hname : databaseName db with
  | none =>
      unfold winstall createDatabase
      rw [hname]
      exact ⟨hx, rfl⟩
  | some d =>
      by_cases hd : d ∈ h.databases
      · have hfail : createDatabase db h = none := by
          unfold createDatabase
          rw [hname, Option.bind_some, if_pos (List.contains_iff_mem.mpr hd)]
        unfold winstall
        rw [hfail]
        exact ⟨hx, rfl⟩
      · -- What can be dropped is only what has been created.
        have hne := ne_of_mem_of_not_mem hx hd
        have hx₁ : x ∈ h.databases ++ [d] := List.mem_append_left _ hx
        unfold winstall
        rw [createDatabase_fresh hname hd]
        dsimp only
        split
        · have hdrop := stays_dropDatabase postgres (h := { h with
            databases := h.databases ++ [d] }) hname hx₁ hne
          exact ⟨hdrop.mem, hdrop.conf⟩
        next h₂ hrole =>
          have hcreated : h₂.databases = h.databases ++ [d] ∧ h₂.conf = h.conf := by
            rcases Option.bind_eq_some_iff.mp hrole with ⟨r, -, hr⟩
            split at hr
            · exact absurd hr.symm (Option.some_ne_none h₂)
            · rw [← Option.some.inj hr]
              exact ⟨rfl, rfl⟩
          have hset := stays_setUp order user hname (hcreated.1 ▸ hx₁) hne
            (by rw [hcreated.2]; exact hconf)
          exact ⟨hset.mem, hset.conf.trans hcreated.2⟩

/-- Without a line to register the worker on, the database stays while its user goes,
    and the script reports success. After that neither script does anything about
    the database any more, whatever else they are called for. -/
theorem failed_registration_strands (order : Listing (List Char) (List Char)) (h : Host)
    (hs : h.Sane) (db user pass r : String) (hname : databaseName db = some db)
    (hd : db ∉ h.databases) (hu : FreshUser h user pass r) (hconf : listed h.conf = []) :
    winstall order db user pass h
        = (0, { h with databases := h.databases ++ [db], flows := h.flows ++ [db] }) ∧
      ∀ cs : List Invocation,
        db ∈ (administer (winstall order db user pass h).2 cs).databases ∧
        ∀ c : Invocation, c.db = db →
          (invoke (administer (winstall order db user pass h).2 cs) c).2
            = administer (winstall order db user pass h).2 cs := by
  have hfail : (pgWorkerRegister order (workerName db) h.conf).status ≠ 0 := by
    rw [register_unmatched order _ hconf]
    exact Nat.one_ne_zero
  have hinstall : winstall order db user pass h
      = (0, { h with databases := h.databases ++ [db], flows := h.flows ++ [db] }) := by
    rw [winstall_fresh order hs hname hd hu, if_pos hfail,
      withdraw_equipped hs hname hu.free hu.read]
  refine ⟨hinstall, fun cs => ?_⟩
  have hremove : ∀ (order : Listing (List Char) (List Char)) (db' user' : String) (h' : Host),
      listed h'.conf = [] → (wremove order db' user' h').2 = h' := by
    intro order db' user' h' hnil
    have hlacks : Lacks h'.conf (workerName db') := by
      intro g hg
      rw [hnil] at hg
      exact absurd hg List.not_mem_nil
    unfold wremove
    rw [unregister_lacking order (workerName_ne_nil db') hlacks]
    rfl
  have hstays : db ∈ (administer (winstall order db user pass h).2 cs).databases ∧
      listed (administer (winstall order db user pass h).2 cs).conf = [] := by
    refine Machine.after_invariant (fun h c => (invoke h c).2) (fun _ => True)
      (fun h' => db ∈ h'.databases ∧ listed h'.conf = []) ?_ _ ?_ cs (fun _ _ => trivial)
    · rintro h' c - ⟨hmem, hnil⟩
      unfold invoke
      split
      · split
        · rw [hremove c.order c.db c.user h' hnil]
          exact ⟨hmem, hnil⟩
        · have hst := stays_winstall c.order c.db c.user c.pass hmem hnil
          exact ⟨hst.mem, by rw [hst.conf]; exact hnil⟩
      · exact ⟨hmem, hnil⟩
    · rw [hinstall]
      exact ⟨List.mem_append_right _ List.mem_cons_self, hconf⟩
  refine ⟨hstays.1, fun c hc => ?_⟩
  generalize administer (winstall order db user pass h).2 cs = h' at hstays ⊢
  unfold invoke
  split
  · split
    · exact hremove c.order c.db c.user h' hstays.2
    · have hexists : createDatabase c.db h' = none := by
        unfold createDatabase
        rw [hc, hname, Option.bind_some, if_pos (List.contains_iff_mem.mpr hstays.1)]
      unfold winstall
      rw [hexists]
  · rfl

/-- In a configuration without the parameter there is nothing to match. -/
theorem failed_registration_strands_sample :
    (winstall asAdded "travel" "agent" "secret" { sampleHost with conf := "port = 5432".toList }).1 = 0 ∧
      "travel" ∈ (winstall asAdded "travel" "agent" "secret"
        { sampleHost with conf := "port = 5432".toList }).2.databases := by
  have hsane := sampleHost_sane.of_conf "port = 5432".toList
  rw [(failed_registration_strands asAdded _ hsane "travel" "agent" "secret" "agent"
    (by decide +kernel) (by decide +kernel) (by decide +kernel) (by decide +kernel)).1]
  exact ⟨rfl, List.mem_append_right _ List.mem_cons_self⟩

/-! ## Any number of calls -/

theorem Host.Sane.equipped {h : Host} (hs : h.Sane) (db r : String) : (h.equipped db r).Sane where
  privileges := by
    have hold : ∀ p ∈ h.connects ++ h.granted, p.1 ∈ h.roles ++ [r] ∧ p.2 ∈ h.databases ++ [db] :=
      fun p hp => ⟨List.mem_append_left _ (hs.privileges p hp).1,
        List.mem_append_left _ (hs.privileges p hp).2⟩
    have hnew : ∀ p ∈ [(r, db)], p.1 ∈ h.roles ++ [r] ∧ p.2 ∈ h.databases ++ [db] :=
      List.forall_mem_singleton.mpr ⟨List.mem_append_right _ List.mem_cons_self,
        List.mem_append_right _ List.mem_cons_self⟩
    rcases List.forall_mem_append.mp hold with ⟨hconnects, hgranted⟩
    exact List.forall_mem_append.mpr ⟨List.forall_mem_append.mpr ⟨hconnects, hnew⟩,
      List.forall_mem_append.mpr ⟨hgranted, hnew⟩⟩
  flows := by
    intro d hd
    rcases List.mem_append.mp hd with hd | hd
    · exact List.mem_append_left _ (hs.flows d hd)
    · exact List.mem_append_right _ hd
  system := fun d hd => List.mem_append_left _ (hs.system d hd)
  superuser := List.mem_append_left _ hs.superuser

end WedFlow
