import WedFlow.Base.SqlTokens
import WedFlow.Theory.Columns
import WedFlow.Theory.Entries

/-!
# Attribute Names in the History

An attribute becomes a column under the rules of one language and is written to
under the rules of another. `new_wed_attr` quotes the name, so any text can be a
column. `new_trace_entry` prints the names as a Python tuple, deletes the single
quotes, and leaves it to PostgreSQL to read what is left: words are folded to
lower case, reserved words are refused, and anything else is whatever it happens
to be.

So a name survives exactly if it is what the scanner makes of a word: it starts
like an identifier, goes on like one, has no capital letter and is not reserved.
The names are printed into one text, and it is the text that has to read as the
list, so it must be ruled out that names that are no words read as themselves
together. The double quotes settle it. A name that is not a word has to stand in
double quotes, which the printer never puts around a name without a single quote
in it, and so they would have to come from the names themselves, where they are
too few.

The columns are those of any run, and `attribute_names_read_iff` is about every
entry that has a value for each of them.

## Main definitions

* `Inked`: A character a column list is printed with.
* `Entry.Grounded`: Nothing but its names can be wrong with an entry.

## Theorems

* `plainIdent_of_columnsRead`: Names that are read as themselves are words.
* `attribute_names_read_iff`: When the column list of an entry is what it should
  be.
-/

namespace WedFlow

open Python Sql

/-! ## The printed column list -/

/-- A character a column list is printed with: no single quote, and above ASCII
    only what Python calls printable. -/
def Inked (table : Char → Bool) (c : Char) : Prop :=
  c ≠ '\'' ∧ (0x80 ≤ c.toNat → Printable table c = true)

theorem inked_of_ascii {table : Char → Bool} {c : Char} (hq : c ≠ '\'') (h : c.toNat < 0x80) :
    Inked table c :=
  ⟨hq, fun hbig => by omega⟩

theorem Inked.toLower {table : Char → Bool} (c : Char) (h : Inked table c) :
    Inked table c.toLower := by
  -- Only the capitals change, and they become letters.
  rcases toLower_cases c with heq | ⟨hlo, hhi, heq⟩
  · rwa [heq]
  · refine inked_of_ascii (fun hq => ?_) (by omega)
    rw [hq] at heq
    have : ('\'').toNat = 39 := rfl
    omega

theorem delimiter_ascii (cs : List Char) : (delimiter cs).toNat < 0x80 := by
  unfold delimiter
  split <;> decide

theorem inked_of_mem_reprText {table : Char → Bool} {n : String} {c : Char}
    (h : c ∈ reprText table n) (hq : c ≠ '\'') : Inked table c := by
  have hdel := delimiter_ascii n.toList
  unfold reprText at h
  rcases List.mem_append.mp h with h | h
  · rcases List.mem_cons.mp h with rfl | h
    · exact inked_of_ascii hq hdel
    · rcases List.mem_flatMap.mp h with ⟨d, -, hd⟩
      exact ⟨hq, printable_of_mem_escapeChar table _ d hdel c hd⟩
  · rw [List.mem_singleton.mp h] at hq ⊢
    exact inked_of_ascii hq hdel

theorem inked_wedColumns (table : Char → Bool) (k : List String) (hlen : 2 ≤ k.length) :
    ∀ c ∈ wedColumns table k, Inked table c := by
  intro c hc
  rw [wedColumns_eq table k hlen] at hc
  rcases List.mem_append.mp hc with hc | hc
  · rcases List.mem_cons.mp hc with rfl | hc
    · exact inked_of_ascii (by decide) (by decide)
    -- `replace` has taken the single quotes out of the printed tuple.
    · rcases List.mem_filter.mp hc with ⟨hmem, hq⟩
      rcases mem_commaSep hmem with rfl | rfl | ⟨x, hx, hcx⟩
      · exact inked_of_ascii (by decide) (by decide)
      · exact inked_of_ascii (by decide) (by decide)
      · rcases List.mem_map.mp hx with ⟨n, -, rfl⟩
        exact inked_of_mem_reprText hcx (of_decide_eq_true hq)
  · rw [List.mem_singleton.mp hc]
    exact inked_of_ascii (by decide) (by decide)

/-- A name without a single quote is printed with its own double quotes and no
    others. -/
theorem count_reprText (table : Char → Bool) (n : String) (h : '\'' ∉ n.toList) :
    (reprText table n).count '"' = n.toList.count '"' := by
  have hdel : delimiter n.toList = '\'' := by
    rw [delimiter, if_neg (fun hq => h hq.1)]
  rw [reprText, hdel, List.count_append, List.count_cons_of_ne (by decide), count_body]
  rfl

theorem count_wedColumns (table : Char → Bool) (k : List String) (hlen : 2 ≤ k.length)
    (h : ∀ n ∈ k, '\'' ∉ n.toList) :
    (wedColumns table k).count '"' = (k.map fun n => n.toList.count '"').sum := by
  rw [wedColumns_eq table k hlen, List.count_append, List.count_cons_of_ne (by decide),
    List.count_filter (by decide), count_commaSep '"' (by decide) (by decide), List.map_map]
  have hnames : k.map (List.count '"' ∘ reprText table) = k.map fun n => n.toList.count '"' :=
    List.map_congr_left (fun n hn => count_reprText table n (h n hn))
  rw [hnames]
  rfl

/-! ## Names that are read as themselves -/

/-- A word of printed characters that is not reserved is a plain identifier: the
    ASCII characters of a word are all printable. -/
theorem plainIdent_of_word {table : Char → Bool} {n : String} (h : Word (Inked table) n.toList)
    (hfree : n ∉ reserved) : PlainIdent table n := by
  refine ⟨h.start, h.cont, h.lower, fun c hc => ?_, hfree⟩
  by_cases hbig : 0x80 ≤ c.toNat
  · exact (h.kind c hc).2 hbig
  · have hcont := (identCont_iff c).mp (h.cont c hc)
    rw [identStart_iff] at hcont
    rw [Printable, if_neg (by omega), if_pos (by omega)]

/-- If the printed list reads as the names themselves, they are plain. -/
theorem plainIdent_of_columnsRead {table : Char → Bool} {k : List String} (hlen : 2 ≤ k.length)
    (h : ColumnsRead table k k) : ∀ n ∈ k, PlainIdent table n := by
  rcases h with ⟨T, hyields, hparse⟩
  have hscan : scan .normal (wedColumns table k ++ [' ']) = some (.self '(' :: T) := by
    have hblank : scan .normal [' '] = some [] := rfl
    rw [hyields ' ' [] (.inr (.inr rfl)), hblank, Option.map_some, List.append_nil]
  -- What is scanned is made of inked characters, so the words are too.
  have hinked : ∀ c ∈ wedColumns table k ++ [' '], Inked table c :=
    List.forall_mem_append.mpr ⟨inked_wedColumns table k hlen,
      List.forall_mem_singleton.mpr (inked_of_ascii (by decide) (by decide))⟩
  have hread := hparse []
  rw [List.append_nil] at hread
  rcases words_of_parseColumns Inked.toLower _ hinked _ T hscan k [] hread with ⟨hkind, hwords⟩
  -- No name has a single quote in it, so none was printed in double quotes.
  have hcount := count_wedColumns table k hlen (fun n hn hq => (hkind n hn _ hq).1 rfl)
  rw [List.count_append, hcount] at hwords
  -- A name in double quotes would need quotes beyond those the names have.
  intro n hn
  rcases hwords (Nat.le_refl _) n hn with ⟨hword, hfree⟩
  exact plainIdent_of_word hword hfree

/-! ## Entries -/

/-- Apart from the names of its columns, nothing is wrong with an entry: its
    values have nothing to escape in them, and the rows it refers to exist. -/
structure Entry.Grounded (loc : Locale) (e : Entry) (db : Db) : Prop where
  values : ∀ a ∈ e.attrs, Plain loc.printable a.2.toList
  flow : e.wid ∈ db.wedFlow.map (·.wid)
  trig : ∀ t, truthy e.tgidWrote = some t → t ∈ db.wedTrig.map (·.tgid)

/-- An entry with short plain names is written whenever nothing else is wrong. -/
theorem newTraceEntry_of_plain (loc : Locale) (env : Env) (e : Entry) (db : Db)
    (hlen : 2 ≤ (entryItems e).length) (hn : (e.attrs.map (·.1)).Nodup)
    (hplain : ∀ a ∈ e.attrs, PlainAttr loc.printable a.1)
    (hcols : ∀ a ∈ e.attrs, a.1 ∈ db.traceColumns.map (·.name))
    (hfixed : ∀ c ∈ db.traceColumns, c.name ∉ traceFixed) (hw : Entry.Grounded loc e db) :
    ∃ db', newTraceEntry loc env e db = .ok db' := by
  have hread := (traceRows_ok_iff loc env.start db.traceColumns e hplain hfixed hlen
    (fun a ha hq => (hw.values a ha _ hq).1 rfl) _).mpr ⟨hcols, hn, rfl⟩
  refine ⟨_, (newTraceEntry_ok_iff loc env e db _).mpr ⟨_, ⟨hread, ?_, ?_⟩, rfl⟩⟩
  · exact List.forall_mem_singleton.mpr hw.flow
  · exact List.forall_mem_singleton.mpr hw.trig

/-- An entry with a value for every attribute has a column list that reads as
    its columns in the history, in the order of the values, and is written unless
    something else is wrong with it, exactly if there are two columns to print
    and the attributes are lower-case identifiers that are not reserved. -/
theorem attribute_names_read_iff (loc : Locale) (is : List Input) (e : Entry)
    (hattrs : e.attrs.map (·.1) = (run loc is).flowColumns.map (·.name)) :
    (ColumnsRead loc.printable ((entryItems e).map (·.1))
        ("wid" :: (run loc is).traceColumns.map (·.name) ++ (entryFlags e).map (·.1)) ∧
      ∀ env db, db.traceColumns = (run loc is).traceColumns → Entry.Grounded loc e db →
        ∃ db', newTraceEntry loc env e db = .ok db') ↔
    2 ≤ (entryItems e).length ∧
      ∀ c ∈ (run loc is).flowColumns, PlainIdent loc.printable c.name := by
  have hkept := run_kept loc is
  have htrace : (run loc is).traceColumns.map (·.name) = e.attrs.map (·.1) :=
    hkept.trace.trans hattrs.symm
  rw [htrace, ← names_entryItems]
  constructor
  · rintro ⟨hread, -⟩
    have hlen := two_le_of_columnsRead loc.printable e _ hread
    refine ⟨hlen, fun c hc => plainIdent_of_columnsRead ?_ hread c.name ?_⟩
    · rwa [List.length_map]
    · rw [names_entryItems, hattrs]
      exact List.mem_append_left _ (List.mem_cons_of_mem _ (List.mem_map_of_mem hc))
  · rintro ⟨hlen, hplain⟩
    -- The attributes of the entry are columns, so their names are short as well.
    have hfixed := (run_inv loc is).free
    have hattr : ∀ a ∈ e.attrs, PlainAttr loc.printable a.1 := by
      intro a ha
      have hmem : a.1 ∈ e.attrs.map (·.1) := List.mem_map_of_mem ha
      have hfree : a.1 ∉ traceFixed := by
        rw [← htrace] at hmem
        rcases List.mem_map.mp hmem with ⟨c, hc, hca⟩
        rw [← hca]
        exact hfixed c hc
      rw [hattrs] at hmem
      rcases List.mem_map.mp hmem with ⟨c, hc, hca⟩
      rw [← hca] at hfree ⊢
      exact ⟨hplain c hc, hkept.short c hc, hfree⟩
    refine ⟨columnsRead_entry loc.printable e hlen
      (fun a ha => ⟨(hattr a ha).ident, (hattr a ha).short⟩), fun env db hdb hw => ?_⟩
    refine newTraceEntry_of_plain loc env e db hlen ?_ hattr (fun a ha => ?_) ?_ hw
    · rw [hattrs]
      exact hkept.distinct
    · rw [hdb, htrace]
      exact List.mem_map_of_mem ha
    · rw [hdb]
      exact hfixed

/-- The entry of a first state in the small flow is printed with the columns of
    the history. -/
theorem attribute_names_read_tiny :
    ColumnsRead asciiLocale.printable ["wid", "st", "final"] ["wid", "st", "final"] :=
  ((attribute_names_read_iff asciiLocale tiny ⟨7, [("st", "done")], none, true, false, []⟩
    (by decide +kernel)).mpr (by decide +kernel)).1

/-- A flow whose attribute is named with a capital letter, which is accepted. -/
def capital : List Input :=
  [.insertAttr ⟨"Owner", "none"⟩, .insertCond ⟨1, true⟩, .insertPred 1 1 [("Owner", some "none")]].map
    (Input.mk (clock 0))

/-- The column is `Owner`, the list an entry is printed with names `owner`, and
    no instance can be created. -/
theorem capital_unreadable :
    (run asciiLocale capital).traceColumns.map (·.name) = ["Owner"] ∧
      readInsert (traceText asciiLocale.printable ⟨7, [("Owner", "none")], none, true, false, []⟩)
        = some ⟨"wed_trace", ["wid", "owner", "final"], [.int 7, .str "none", .bool true]⟩ ∧
      exec asciiLocale ⟨clock 1, .insertFlow 7 none []⟩ (run asciiLocale capital)
        = .error .unknownColumn := by
  decide +kernel

end WedFlow
