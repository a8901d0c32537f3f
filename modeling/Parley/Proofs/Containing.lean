import Parley.Compilation
import Parley.Proofs.Resaving
import Parley.Proofs.Resolving

/-!
# Which lines of a lexicon have a text

A lexicon is asked two things about a line, whether it contains it and what its text is, and
the provider relies on the first to be able to answer the second.  Both look through the same
two tables, so a lexicon that contains a line always has something under it.  It need not be
a text: an entry has nothing in a cell that its row was too short for.

| under the line | contained | its text |
|---|---|---|
| a string of the host | yes | that string |
| an entry whose row reached the text column, or of a compiled line | yes | the entry's text |
| an entry whose row was cut short of the text column | yes | nothing |
| no entry | no | none |

`Arises` are the lexicons that come of loading, adding, merging and clearing.  Merging passes
texts on and nothing else, so a line without a text in one lexicon is not even contained in
another for having been merged into it.
-/

namespace Parley

namespace Entry

variable {e : Entry} {names row : List String}

/-! ## Rows that are too short -/

theorem named_eq (names row : List String) :
    named names row = (names.zip row).map (fun x => (.text x.1, .text x.2)) ++
      (names.drop row.length).map fun name => (.text name, .nothing) := by
  induction names generalizing row with
  | nil => cases row <;> rfl
  | cons name names ih =>
      cases row with
      | nil => simpa [named] using ih []
      | cons cell row => exact congrArg (List.cons _) (ih row)

theorem find?_reverse_map {α : Type} (xs : List α) (name : α → String) (cell : α → Datum)
    (sought : String) :
    ((xs.map fun x => (Datum.text (name x), cell x)).reverse.find? fun y =>
        y.1.same (.text sought)) =
      (xs.reverse.find? fun x => name x == sought).map fun x => (.text (name x), cell x) := by
  rw [← List.map_reverse, List.find?_map]
  simp only [Function.comp_def, Datum.same]

/-- A cell is nothing if its column, or one of the same name, is past the end of the row. -/
theorem cell_eq_nothing_iff (h : ofRow (named names row) = .ok e) (c : Column) :
    e.cell c = .nothing ↔ c.name ∈ names.drop row.length := by
  rw [cell_eq_of_ofRow h c, named_eq, List.reverse_append, List.find?_append,
    find?_reverse_map, find?_reverse_map]
  -- the last cell of the name counts, and the missing ones are the last
  cases hmissing : (names.drop row.length).reverse.find? fun name => name == c.name with
  | some name =>
      have hname := List.find?_some hmissing
      obtain rfl : name = c.name := beq_iff_eq.mp hname
      exact iff_of_true rfl (List.mem_reverse.mp (List.mem_of_find?_eq_some hmissing))
  | none =>
      refine iff_of_false ?_ fun hmem =>
        List.find?_eq_none.mp hmissing _ (List.mem_reverse.mpr hmem) (beq_self_eq_true _)
      cases (names.zip row).reverse.find? fun x => x.1 == c.name <;> nofun

/-- The entry is that of a row that ended before the text column of its table. -/
def CutShort (e : Entry) : Prop :=
  ∃ d text names rows row, (Delimited.read d text).rows = names :: rows ∧ row ∈ rows ∧ row ≠ [] ∧
    ofRow (named names row) = .ok e ∧ Column.text.name ∈ names.drop row.length

theorem CutShort.text_eq (h : e.CutShort) : e.text = .nothing := by
  obtain ⟨d, text, names, rows, row, -, -, -, hrow, hcut⟩ := h
  exact (cell_eq_nothing_iff hrow .text).mpr hcut

/-- Entries as tables and compiled lines give them. -/
inductive Made : Entry → Prop
  | loaded {s : Settings} {text : String} {entries : List Entry} {e : Entry}
      (hparse : parse s text = .ok entries) (he : e ∈ entries) : Made e
  | compiled {l : LineInfo} {t : String} {id locale : Datum} {e : Entry} (hl : l.text = .text t)
      (he : l.entry id locale = .ok e) : Made e

theorem text_or_cutShort_of_parse {s : Settings} {text : String} {entries : List Entry}
    (hparse : parse s text = .ok entries) (he : e ∈ entries) :
    (∃ t, e.text = .text t) ∨ e.CutShort := by
  rcases ofRows_of_parse hparse with rfl | ⟨d, names, rows, hrows, hentries⟩
  · cases he
  · obtain ⟨n, hn⟩ := List.getElem?_of_mem he
    obtain ⟨row, hrow, hentry⟩ := getElem?_of_mapM hentries hn
    obtain ⟨hmem, hfull⟩ := List.mem_filter.mp (List.mem_of_getElem? hrow)
    rcases cell_of_ofRow hentry .text with hcell | ⟨t, hcell, -⟩
    · refine .inr ⟨d, text, names, rows, row, hrows, hmem, ?_, hentry,
        (cell_eq_nothing_iff hentry .text).mp hcell⟩
      rintro rfl
      cases hfull
    · exact .inl ⟨t, hcell⟩

theorem text_of_lineInfo {l : LineInfo} {id locale : Datum} (h : l.entry id locale = .ok e) :
    e.text = l.text := by
  unfold LineInfo.entry at h
  cases hmetadata : texts l.metadata with
  | error f =>
      rw [hmetadata] at h
      cases h
  | ok comments =>
      rw [hmetadata] at h
      cases h
      rfl

theorem Made.text_or_cutShort (h : e.Made) : (∃ t, e.text = .text t) ∨ e.CutShort := by
  cases h with
  | loaded hparse he => exact text_or_cutShort_of_parse hparse he
  | compiled hl he => exact .inl ⟨_, (text_of_lineInfo he).trans hl⟩

end Entry

namespace Lexicon

variable {l other : Lexicon}

/-! ## What lexicons are made of -/

/-- The lexicons that come of loading a table, adding strings and entries, merging and
clearing. -/
inductive Arises : Lexicon → Prop
  | loaded {s : Settings} {locale : Datum} {text : String} {l : Lexicon}
      (h : ofText s locale text = .ok l) : Arises l
  | added {l : Lexicon} (h : Arises l) (id : Datum) (t : String) : Arises (l.add id (.text t))
  | assetAdded {l : Lexicon} {e : Entry} (h : Arises l) (id : Datum) (he : e.Made) :
      Arises (l.addAsset id e)
  | merged {l other : Lexicon} (h : Arises l) (hother : Arises other) : Arises (l.merge other)
  | cleared {l : Lexicon} (h : Arises l) : Arises l.clear

/-- The host's table holds texts; an entry has one too unless its row was cut short. -/
structure Filled (l : Lexicon) : Prop where
  runtime : ∀ d ∈ l.runtime.values, ∃ t, d = .text t
  assets : ∀ e ∈ l.assets.values, (∃ t, e.text = .text t) ∨ e.CutShort

theorem Filled.add (h : l.Filled) (id : Datum) (t : String) : (l.add id (.text t)).Filled where
  runtime d hd := (Keyed.mem_values_insert hd).elim (h.runtime d) fun heq => ⟨t, heq⟩
  assets := h.assets

theorem Filled.addAsset {e : Entry} (h : l.Filled) (id : Datum)
    (he : (∃ t, e.text = .text t) ∨ e.CutShort) : (l.addAsset id e).Filled where
  runtime := h.runtime
  assets e' he' := (Keyed.mem_values_insert he').elim (h.assets e') fun heq => heq ▸ he

/-- What a lexicon has under a line is a text, or nothing. -/
theorem Filled.get?_cases (h : l.Filled) {key d : Datum} (hd : l.get? key = some d) :
    (∃ t, d = .text t) ∨ d = .nothing := by
  rcases get?_eq_some_iff.mp hd with hruntime | ⟨-, e, he, rfl⟩
  · exact .inl (h.runtime d (Keyed.mem_values_of_get? hruntime))
  · exact (h.assets e (Keyed.mem_values_of_get? he)).imp_right Entry.CutShort.text_eq

theorem Filled.merge (h : l.Filled) (hother : other.Filled) : (l.merge other).Filled := by
  refine List.foldlRecOn other.lineIds _ h fun l hl id _ => ?_
  split
  · exact hl
  · exact hl
  · next d hnothing hd =>
    rcases hother.get?_cases hd with ⟨t, rfl⟩ | rfl
    · exact hl.add id t
    · exact absurd rfl hnothing

theorem Filled.ofText {s : Settings} {locale : Datum} {text : String}
    (h : ofText s locale text = .ok l) : l.Filled := by
  unfold Lexicon.ofText at h
  cases hparse : Entry.parse s text with
  | error f =>
      rw [hparse] at h
      cases h
  | ok entries =>
      rw [hparse] at h
      cases h
      refine List.foldlRecOn entries _ ⟨nofun, nofun⟩ fun l hl e he => ?_
      exact hl.addAsset e.id (Entry.text_or_cutShort_of_parse hparse he)

theorem Arises.filled (h : l.Arises) : l.Filled := by
  induction h with
  | loaded h => exact .ofText h
  | added _ id t ih => exact ih.add id t
  | assetAdded _ id he ih => exact ih.addAsset id he.text_or_cutShort
  | merged _ _ ih ihother => exact ih.merge ihother
  | cleared => exact ⟨nofun, nofun⟩

/-! ## Lines and texts -/

theorem isSome_get? (l : Lexicon) (key : Datum) : (l.get? key).isSome = l.contains key := by
  rw [contains, ← Keyed.isSome_get?, ← Keyed.isSome_get?, get?]
  cases l.runtime.get? key with
  | none => exact Option.isSome_map
  | some => rfl

/-- The line's entry was cut short, and no string of the host stands before it. -/
def Bare (l : Lexicon) (key : Datum) : Prop :=
  l.runtime.contains key = false ∧ ∃ e, l.assets.get? key = some e ∧ e.CutShort

theorem Filled.bare_iff (h : l.Filled) (key : Datum) :
    l.Bare key ↔ l.get? key = some .nothing := by
  rw [Bare, ← Keyed.isSome_get?, Option.isSome_eq_false_iff, Option.isNone_iff_eq_none,
    get?_eq_some_iff]
  constructor
  · rintro ⟨hruntime, e, he, hcut⟩
    exact .inr ⟨hruntime, e, he, hcut.text_eq⟩
  · rintro (hruntime | ⟨hruntime, e, he, hnothing⟩)
    · obtain ⟨t, ht⟩ := h.runtime _ (Keyed.mem_values_of_get? hruntime)
      cases ht
    · refine ⟨hruntime, e, he, ?_⟩
      rcases h.assets e (Keyed.mem_values_of_get? he) with ⟨t, ht⟩ | hcut
      · cases ht.symm.trans hnothing
      · exact hcut

theorem Filled.contains_iff (h : l.Filled) (key : Datum) :
    l.contains key = true ↔ (∃ t, l.get? key = some (.text t)) ∨ l.Bare key := by
  rw [h.bare_iff, ← isSome_get?, Option.isSome_iff_exists]
  constructor
  · rintro ⟨d, hd⟩
    rcases h.get?_cases hd with ⟨t, rfl⟩ | rfl
    · exact .inl ⟨t, hd⟩
    · exact .inr hd
  · rintro (⟨t, ht⟩ | hnothing)
    · exact ⟨_, ht⟩
    · exact ⟨_, hnothing⟩

/-- A line is contained exactly if it has a text or its entry was cut short, and where that
is so there is nothing.  The provider has no text for a line exactly where its locale is not
the lexicon's, the line is not contained, or its entry was cut short. -/
theorem contains_iff_text_or_bare {l : Lexicon} (h : l.Arises) :
    (∀ key, l.contains key = true ↔ (∃ t, l.get? key = some (.text t)) ∨ l.Bare key) ∧
    (∀ key, l.Bare key ↔ l.get? key = some .nothing) ∧
    ∀ locale (id : String), fallbackText (some l) locale (.text id) = .ok none ↔
      l.locale.same locale = false ∨ l.contains (.text id) = false ∨ l.Bare (.text id) := by
  refine ⟨h.filled.contains_iff, h.filled.bare_iff, fun locale id => ?_⟩
  rw [fallbackText_of_isKey (Datum.isKey_text id), Except.ok.injEq, Option.bind_some,
    h.filled.bare_iff, ← isSome_get?]
  cases hlocale : l.locale.same locale with
  | false => simp
  | true =>
      cases hd : l.get? (.text id) with
      | none => simp
      | some d => rcases h.filled.get?_cases hd with ⟨t, rfl⟩ | rfl <;> simp [Datum.isSomething]

/-- The text of a table whose first row ends before the text column. -/
def halfTable : String := "id,text\nline:a\nline:b,Hello.\n"

/-- The lexicon of that table. -/
def halfTold : Lexicon where
  locale := .text "de"
  assets := ⟨[(.text "line:a", { id := .text "line:a", text := .nothing }),
    (.text "line:b", { id := .text "line:b", text := .text "Hello." })]⟩

/-- A lexicon may contain a line and have no text for it. -/
theorem contained_without_text :
    ofText .defaults (.text "de") halfTable = .ok halfTold ∧
      halfTold.contains (.text "line:a") = true ∧
      ¬ ∃ t, halfTold.get? (.text "line:a") = some (.text t) :=
  ⟨rfl, rfl, nofun⟩

/-- The host adds a string to the lexicon of the table and merges the table itself into it: the
line that was cut short stays without a text, and the provider has none. -/
theorem contains_iff_of_halfTold :
    let l := (halfTold.add (.text "line:c") (.text "Bye.")).merge halfTold
    l.Arises ∧ l.contains (.text "line:a") = true ∧ l.Bare (.text "line:a") ∧
      fallbackText (some l) (.text "de") (.text "line:a") = .ok none ∧
      l.runtime.keys = [.text "line:c", .text "line:b"] := by
  intro l
  have hloaded : halfTold.Arises := .loaded (show ofText .defaults _ halfTable = _ from rfl)
  have hl : l.Arises := (hloaded.added (.text "line:c") "Bye.").merged hloaded
  obtain ⟨hcontains, hbare, hanswer⟩ := contains_iff_text_or_bare hl
  have hcut : l.Bare (.text "line:a") := (hbare _).mpr rfl
  exact ⟨hl, (hcontains _).mpr (.inr hcut), hcut, (hanswer _ _).mpr (.inr (.inr hcut)), rfl⟩

end Lexicon

end Parley
