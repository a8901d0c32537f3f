import Parley.Lexicon.Entry
import Parley.Proofs.Act
import Parley.Proofs.Delimited

/-!
# Saving string tables and loading them again

A table that is written has a header with every column, so each of its rows is read with a
cell in every column, and an entry comes back changed only if one of its cells does.
`parse_format` says when none does: every cell has to be legible as it is written.

Two kinds of entries are saved.  Those a host made have texts in their cells, and they come
back as they were if the texts are legible.  Those that were loaded have texts that are short
enough, whatever was loaded; but a text that was quoted in the loaded table need not be
quoted in the saved one, and a cell that a short row left with nothing is saved as an empty
text.
-/

namespace Parley.Entry

open Delimited (Delimits Legible Reread fieldLimit)

variable {s : Settings} {d : Char} {e : Entry} {entries : List Entry} {text : String}

/-! ## Rows of a written table -/

/-- The header of a written table. -/
def header : List String := Column.all.map Column.name

/-- The cells of an entry as they are written. -/
def cells (e : Entry) : List String := Column.all.map fun c => written (e.cell c)

/-- The entry of a row with a cell in every column. -/
def ofTexts (row : List String) : Entry :=
  ofCells fun c => .text (row.getD (Column.all.idxOf c) "")

theorem length_cells (e : Entry) : e.cells.length = header.length := rfl

theorem cells_ofTexts {row : List String} (h : row.length = header.length) :
    (ofTexts row).cells = row := by
  match row, h with
  | [_, _, _, _, _, _, _, _, _], _ => rfl

theorem map_cells_ofTexts {rows : List (List String)}
    (h : ∀ row ∈ rows, row.length = header.length) : (rows.map ofTexts).map cells = rows := by
  rw [List.map_map]
  exact (List.map_congr_left fun row hrow => cells_ofTexts (h row hrow)).trans (List.map_id rows)

theorem ofRow_named_header {row : List String} (h : row.length = header.length) :
    ofRow (named header row) = .ok (ofTexts row) := by
  match row, h with
  | [_, _, _, _, _, _, _, _, _], _ => rfl

/-- What is written of an entry, as an entry: nothing becomes an empty text. -/
theorem ofTexts_cells (e : Entry) : ofTexts e.cells = ofCells fun c => .text (written (e.cell c)) :=
  rfl

theorem cell_ofTexts (row : List String) (c : Column) : ∃ t, (ofTexts row).cell c = .text t :=
  ⟨_, cell_ofCells _ c⟩

theorem ofTexts_cells_of_texts (h : ∀ c, ∃ t, e.cell c = .text t) : ofTexts e.cells = e := by
  have hcell : (fun c => Datum.text (written (e.cell c))) = e.cell := by
    funext c
    obtain ⟨t, ht⟩ := h c
    rw [ht]
    rfl
  rw [ofTexts_cells, hcell, ofCells_cell]

theorem legible_header : ∀ name ∈ header, Legible d name.toList := by
  have hshort : ∀ name ∈ header, name.length ≤ 10 ∧ '\r' ∉ name.toList := by decide
  intro name hname
  obtain ⟨hlength, hreturn⟩ := hshort name hname
  exact ⟨Nat.le_trans hlength (by decide), fun h => absurd h hreturn⟩

/-! ## What loading and saving come to -/

theorem delimiter_eq (hs : s.delimiter = .ok (.text (String.singleton d))) :
    delimiter s = .ok d := by
  have hone : (String.singleton d).toList = [d] := String.toList_singleton d
  rw [delimiter, hs]
  simp only [bind, Except.bind, hone]
  rfl

theorem format_eq (hs : delimiter s = .ok d)
    (h : ∀ e ∈ entries, ∀ c, e.cell c = .nothing ∨ ∃ t, e.cell c = .text t) :
    format s entries = .ok (Delimited.write d (header :: entries.map cells)) := by
  have htext : (entries.any fun e => Column.all.any fun c => !(e.cell c).hasText) = false := by
    simp only [List.any_eq_false, List.any_eq_true, Bool.not_eq_true', not_exists, not_and]
    intro e he c _
    rcases h e he c with hc | ⟨t, hc⟩ <;> rw [hc] <;> exact Bool.noConfusion
  rw [format, hs]
  simp only [bind, Except.bind, htext]
  rfl

theorem parse_of_fault (hs : delimiter s = .ok d)
    (h : (Delimited.read d text).fault ≠ none) : parse s text ≠ .ok entries := by
  rw [parse, hs]
  simp only [bind, Except.bind]
  obtain ⟨f, hf⟩ := Option.ne_none_iff_exists'.mp h
  cases (Delimited.read d text).rows with
  | nil =>
      rw [hf]
      nofun
  | cons row rows =>
      simp only [hf]
      split <;> nofun

theorem parse_of_read {names : List String} {rows : List (List String)}
    {entry : List String → Entry} (hs : delimiter s = .ok d)
    (hread : Delimited.read d text = { rows := names :: rows })
    (hid : names.contains Column.id.name = true)
    (hrows : ∀ row ∈ rows, row ≠ [] ∧ ofRow (named names row) = .ok (entry row)) :
    parse s text = .ok (rows.map entry) := by
  have hfilter : (rows.filter fun r => !r.isEmpty) = rows := by
    refine List.filter_eq_self.mpr fun row hrow => ?_
    cases row with
    | nil => exact absurd rfl (hrows _ hrow).1
    | cons => rfl
  rw [parse, hs]
  simp only [bind, Except.bind, hread]
  rw [if_pos hid, ofRows, hfilter]
  exact mapM_eq_ok fun row hrow => (hrows row hrow).2

theorem parse_of_read_header {rows : List (List String)} (hs : delimiter s = .ok d)
    (hread : Delimited.read d text = { rows := header :: rows })
    (hrows : ∀ row ∈ rows, row.length = header.length) :
    parse s text = .ok (rows.map ofTexts) := by
  refine parse_of_read hs hread (by decide) fun row hrow => ⟨?_, ofRow_named_header (hrows row hrow)⟩
  rintro rfl
  exact absurd (hrows _ hrow) (by decide)

/-- What is loaded again of a saved table has a text in every cell.  It is what was saved if
every cell is legible, and else something different, if anything. -/
theorem parse_format (hs : delimiter s = .ok d) (hd : Delimits d)
    (h : ∀ e ∈ entries, ∀ c, e.cell c = .nothing ∨ ∃ t, e.cell c = .text t) :
    ∃ saved, format s entries = .ok saved ∧
      (∀ loaded, parse s saved = .ok loaded → ∀ e ∈ loaded, ∀ c, ∃ t, e.cell c = .text t) ∧
      (parse s saved = .ok ((entries.map cells).map ofTexts) ↔
        ∀ e ∈ entries, ∀ c, Legible d (written (e.cell c)).toList) := by
  refine ⟨_, format_eq hs h, ?_⟩
  have hcells : (∀ row ∈ entries.map cells, ∀ f ∈ row, Legible d f.toList) ↔
      ∀ e ∈ entries, ∀ c, Legible d (written (e.cell c)).toList := by
    simp [cells, Column.mem_all]
  have hwide : ∀ row ∈ header :: entries.map cells, 2 ≤ row.length := by
    rw [List.forall_mem_cons, List.forall_mem_map]
    exact ⟨by decide, fun e _ => by rw [length_cells]; decide⟩
  rcases Delimited.read_write hd hwide with ⟨hfault, hbad⟩ | ⟨rows', hread, hreread⟩
  · rw [List.forall_mem_cons, and_iff_right legible_header, hcells] at hbad
    exact ⟨fun _ hparse => absurd hparse (parse_of_fault hs hfault),
      iff_of_false (parse_of_fault hs hfault) hbad⟩
  · cases hreread with
    | @cons _ header' _ rows' hheader hrows =>
      obtain rfl : header' = header := hheader.2.mpr legible_header
      have hlength : ∀ row ∈ rows', row.length = header.length :=
        Delimited.length_of_reread hrows (List.forall_mem_map.mpr fun e _ => length_cells e)
      rw [parse_of_read_header hs hread hlength, Except.ok.injEq, ← hcells,
        ← Delimited.eq_iff_of_reread hrows]
      refine ⟨?_, ?_, ?_⟩
      · rintro loaded hloaded e he c
        cases hloaded
        obtain ⟨row, -, rfl⟩ := List.mem_map.mp he
        exact cell_ofTexts row c
      · intro hsame
        calc rows' = (rows'.map ofTexts).map cells := (map_cells_ofTexts hlength).symm
          _ = ((entries.map cells).map ofTexts).map cells := by rw [hsame]
          _ = entries.map cells :=
            map_cells_ofTexts (List.forall_mem_map.mpr fun e _ => length_cells e)
      · rintro rfl
        rfl

theorem map_ofTexts_cells (h : ∀ e ∈ entries, ∀ c, ∃ t, e.cell c = .text t) :
    (entries.map cells).map ofTexts = entries := by
  rw [List.map_map]
  exact (List.map_congr_left fun e he => ofTexts_cells_of_texts (h e he)).trans (List.map_id _)

/-! ## What is loaded -/

theorem cell_of_named {names row : List String} {x : Datum × Datum} (h : x ∈ named names row) :
    x.2 = .nothing ∨ ∃ t ∈ row, x.2 = .text t := by
  induction names generalizing row with
  | nil => cases h
  | cons name names ih =>
      cases row with
      | nil =>
          rcases List.mem_cons.mp h with rfl | h
          · exact .inl rfl
          · exact ih h
      | cons cell row =>
          rcases List.mem_cons.mp h with rfl | h
          · exact .inr ⟨cell, List.mem_cons_self, rfl⟩
          · exact (ih h).imp_right fun ⟨t, ht, heq⟩ => ⟨t, List.mem_cons_of_mem _ ht, heq⟩

theorem cell_of_ofRow {names row : List String} (h : ofRow (named names row) = .ok e) (c : Column) :
    e.cell c = .nothing ∨ ∃ t, e.cell c = .text t ∧ (t = "" ∨ t ∈ row) := by
  rw [cell_eq_of_ofRow h c]
  cases hfind : (named names row).reverse.find? fun x => x.1.same (.text c.name) with
  | none => exact .inr ⟨"", rfl, .inl rfl⟩
  | some x =>
      have hmem := List.mem_reverse.mp (List.mem_of_find?_eq_some hfind)
      rcases cell_of_named hmem with hx | ⟨t, ht, hx⟩
      · exact .inl hx
      · exact .inr ⟨t, hx, .inr ht⟩

theorem ofRows_of_parse (hparse : parse s text = .ok entries) :
    entries = [] ∨ ∃ d names rows, (Delimited.read d text).rows = names :: rows ∧
      ofRows names rows = .ok entries := by
  unfold parse at hparse
  cases hs : delimiter s with
  | error f =>
      rw [hs] at hparse
      cases hparse
  | ok d =>
      rw [hs] at hparse
      simp only [bind, Except.bind] at hparse
      split at hparse
      · cases hparse
        exact .inl rfl
      · cases hparse
      · next fault names rows hrows =>
        split at hparse
        · split at hparse
          · cases hparse
          · exact .inr ⟨d, names, rows, hrows, hparse⟩
        · cases hparse

/-- A loaded entry has nothing in a cell, or a text that is not too long. -/
theorem cell_of_parse (hparse : parse s text = .ok entries) (he : e ∈ entries) (c : Column) :
    e.cell c = .nothing ∨ ∃ t, e.cell c = .text t ∧ t.length ≤ fieldLimit := by
  rcases ofRows_of_parse hparse with rfl | ⟨d, names, rows, hrows, hentries⟩
  · cases he
  · obtain ⟨n, hn⟩ := List.getElem?_of_mem he
    obtain ⟨row, hrow, hentry⟩ := getElem?_of_mapM hentries hn
    have hmem : row ∈ (Delimited.read d text).rows := by
      rw [hrows]
      exact List.mem_cons_of_mem _ (List.mem_of_mem_filter (List.mem_of_getElem? hrow))
    rcases cell_of_ofRow hentry c with hcell | ⟨t, hcell, rfl | ht⟩
    · exact .inl hcell
    · exact .inr ⟨"", hcell, Nat.zero_le _⟩
    · exact .inr ⟨t, hcell, Delimited.length_le_of_read d text hmem ht⟩

/-! ## Saving and loading -/

/-- If there is a carriage return in the text, something else in it calls for quotes. -/
def ReturnsQuoted (d : Char) (t : String) : Prop :=
  '\r' ∈ t.toList → d ∈ t.toList ∨ '"' ∈ t.toList ∨ '\n' ∈ t.toList

instance (d : Char) (t : String) : Decidable (ReturnsQuoted d t) :=
  inferInstanceAs (Decidable (_ → _))

theorem legible_iff {t : String} :
    Legible d t.toList ↔ t.length ≤ 131072 ∧ ReturnsQuoted d t := by
  rw [Legible, Delimited.needsQuotes_iff]
  exact Iff.rfl

/-- Entries of texts are always saved.  Loading the saved table gives them back exactly if no
text is longer than 131072 characters and each that has a carriage return in it has a
delimiter, a quote or a line feed in it as well. -/
theorem saved_then_loaded {s : Settings} {d : Char} {entries : List Entry}
    (hs : s.delimiter = .ok (.text (String.singleton d))) (hquote : d ≠ '"') (hcr : d ≠ '\r')
    (hlf : d ≠ '\n') (htexts : ∀ e ∈ entries, ∀ c, ∃ t, e.cell c = .text t) :
    ∃ saved, format s entries = .ok saved ∧
      (parse s saved = .ok entries ↔
        ∀ e ∈ entries, ∀ c t, e.cell c = .text t → t.length ≤ 131072 ∧ ReturnsQuoted d t) := by
  obtain ⟨saved, hformat, -, hparse⟩ := parse_format (delimiter_eq hs) ⟨hquote, hcr, hlf⟩
    fun e he c => .inr (htexts e he c)
  refine ⟨saved, hformat, ?_⟩
  rw [map_ofTexts_cells htexts] at hparse
  rw [hparse]
  refine forall₂_congr fun e he => forall_congr' fun c => ?_
  obtain ⟨t, ht⟩ := htexts e he c
  rw [ht]
  simp only [Datum.text.injEq, forall_eq']
  exact legible_iff

/-- Two lines of a dialogue; one has all that a reader could misread. -/
def exchange : List Entry :=
  [{ id := .text "line:a", text := .text "Well,\r\n\"who\" knows; I don't.\r" },
    { id := .text "line:b", language := .text "de", comment := .text "\r" }]

/-- The defaults, but with semicolons between the fields of a table. -/
def semicolons : Settings := Settings.defaults.set "STRING_TABLE_DELIMITER" (.text ";")

/-- With semicolons between fields, the second line is in the way: a carriage return alone. -/
theorem saved_then_loaded_of_exchange :
    semicolons.delimiter = .ok (.text (String.singleton ';')) ∧
      (∀ e ∈ exchange, ∀ c, ∃ t, e.cell c = .text t) ∧
      ∃ saved, format semicolons exchange = .ok saved ∧ parse semicolons saved ≠ .ok exchange := by
  have htexts : ∀ e ∈ exchange, ∀ c, ∃ t, e.cell c = .text t := by
    simp only [exchange, List.forall_mem_cons]
    refine ⟨fun c => ?_, fun c => ?_, nofun⟩ <;> cases c <;> exact ⟨_, rfl⟩
  refine ⟨rfl, htexts, ?_⟩
  obtain ⟨saved, hformat, hparse⟩ := saved_then_loaded (s := semicolons) (d := ';') rfl
    (by decide) (by decide) (by decide) htexts
  refine ⟨saved, hformat, fun hloaded => ?_⟩
  have hcomment := hparse.mp hloaded _ (List.mem_cons_of_mem _ List.mem_cons_self) .comment "\r" rfl
  exact absurd hcomment.2 (by decide)

/-- What was loaded is always saved.  Loading the saved table gives the same entries exactly if
no cell was left with nothing and each text that has a carriage return in it has a delimiter,
a quote or a line feed in it as well.  Where only the latter holds, every nothing has become
an empty text. -/
theorem loaded_then_saved {s : Settings} {d : Char} {text : String} {entries : List Entry}
    (hs : s.delimiter = .ok (.text (String.singleton d))) (hquote : d ≠ '"') (hcr : d ≠ '\r')
    (hlf : d ≠ '\n') (hloaded : parse s text = .ok entries) :
    ∃ saved, format s entries = .ok saved ∧
      (parse s saved = .ok entries ↔
        ∀ e ∈ entries, ∀ c, ∃ t, e.cell c = .text t ∧ ReturnsQuoted d t) ∧
      (parse s saved = .ok (entries.map fun e => ofCells fun c => .text (written (e.cell c))) ↔
        ∀ e ∈ entries, ∀ c t, e.cell c = .text t → ReturnsQuoted d t) := by
  have hcells := fun e he c => cell_of_parse (e := e) hloaded he c
  obtain ⟨saved, hformat, htexts, hparse⟩ := parse_format (delimiter_eq hs) ⟨hquote, hcr, hlf⟩
    fun e he c => (hcells e he c).imp_right fun ⟨t, ht, _⟩ => ⟨t, ht⟩
  have hlegible : (∀ e ∈ entries, ∀ c, Legible d (written (e.cell c)).toList) ↔
      ∀ e ∈ entries, ∀ c t, e.cell c = .text t → ReturnsQuoted d t := by
    refine forall₂_congr fun e he => forall_congr' fun c => ?_
    rcases hcells e he c with hc | ⟨t, hc, hlength⟩
    · rw [hc]
      exact iff_of_true ⟨Nat.zero_le _, nofun⟩ nofun
    · rw [hc]
      simp only [Datum.text.injEq, forall_eq']
      exact legible_iff.trans (and_iff_right hlength)
  rw [hlegible] at hparse
  refine ⟨saved, hformat, ⟨fun hsame e he c => ?_, fun h => ?_⟩, ?_⟩
  · -- what is loaded of a saved table has no cell without a text
    obtain ⟨t, ht⟩ := htexts entries hsame e he c
    rw [map_ofTexts_cells (htexts entries hsame)] at hparse
    exact ⟨t, ht, hparse.mp hsame e he c t ht⟩
  · have hall : ∀ e ∈ entries, ∀ c, ∃ t, e.cell c = .text t := fun e he c =>
      (h e he c).imp fun _ => And.left
    rw [map_ofTexts_cells hall] at hparse
    refine hparse.mpr fun e he c t ht => ?_
    obtain ⟨t', ht', hreturn⟩ := h e he c
    rw [ht] at ht'
    cases ht'
    exact hreturn
  · rw [List.map_map] at hparse
    exact hparse

/-- An entry of a row that ended after its first field, under a header of two. -/
def cutShort : Entry := { id := .text "line:a", text := .nothing }

/-- An entry with a carriage return that was quoted where it was loaded. -/
def torn : Entry := { id := .text "line:b\rc" }

/-- A table of two rows, the second one short, with carriage returns before its line feeds. -/
theorem loaded_then_saved_of_short_row :
    parse .defaults "text,id,\"note\"\r\n\"Hm, no.\",line:b,\"x\ry\"\r\nYes\r\n" =
        .ok [{ id := .text "line:b", text := .text "Hm, no." },
          { id := .nothing, text := .text "Yes" }] ∧
      ∃ saved, format .defaults [{ id := .text "line:b", text := .text "Hm, no." },
          { id := .nothing, text := .text "Yes" }] = .ok saved ∧
        parse .defaults saved = .ok [{ id := .text "line:b", text := .text "Hm, no." },
          { id := .text "", text := .text "Yes" }] := by
  have hloaded : parse .defaults
      "text,id,\"note\"\r\n\"Hm, no.\",line:b,\"x\ry\"\r\nYes\r\n" =
        .ok [{ id := .text "line:b", text := .text "Hm, no." },
          { id := .nothing, text := .text "Yes" }] := rfl
  refine ⟨hloaded, ?_⟩
  obtain ⟨saved, hformat, -, hfilled⟩ := loaded_then_saved (s := .defaults) (d := ',') rfl
    (by decide) (by decide) (by decide) hloaded
  refine ⟨saved, hformat, hfilled.mpr ?_⟩
  simp only [List.forall_mem_cons]
  refine ⟨fun c t => ?_, fun c t => ?_, nofun⟩ <;> cases c <;> rintro ⟨⟩ <;> decide

/-- Saving does not keep everything that was loaded: the nothing of a short row becomes a text,
and a carriage return that is not quoted any more makes the table unreadable. -/
theorem altered_by_saving :
    (parse .defaults "id,text\nline:a\n" = .ok [cutShort] ∧
      ∃ saved, format .defaults [cutShort] = .ok saved ∧
        parse .defaults saved = .ok [{ id := .text "line:a" }] ∧
        parse .defaults saved ≠ .ok [cutShort]) ∧
    parse .defaults "id\n\"line:b\rc\"\n" = .ok [torn] ∧
      ∃ saved, format .defaults [torn] = .ok saved ∧
        parse .defaults saved = .error (.accident .table) := by
  refine ⟨⟨rfl, _, rfl, rfl, fun h => ?_⟩, rfl, _, rfl, rfl⟩
  have hsame : [({ id := .text "line:a" } : Entry)] = [cutShort] := Except.ok.inj h
  have htext : Datum.text "" = .nothing := congrArg Entry.text (List.cons.inj hsame).1
  cases htext

end Parley.Entry
