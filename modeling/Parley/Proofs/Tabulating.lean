import Parley.Proofs.Containing
import Parley.Proofs.Spelling
import Mathlib.Data.List.Find
import Mathlib.Data.List.Nodup

/-!
# String tables as others write them

The columns of a string table are found by their names.  Whoever writes a table may put them
in any order, leave some of them out and add others, as long as the identifier has one:
`columns_by_name` gives the entries for every header of distinct names and every content of
the cells, and says that reordering the columns is no change.  A cell can have anything in it,
line ends included, since here every field is in quotes.

Nor does it matter which way the lines end, as long as no cell has a line end in it:
`line_ends_alike` is about a saved table that somebody gave carriage returns.
-/

namespace Parley.Entry

open Delimited (Delimits Legible quoteAll withReturns fieldLimit)

variable {s : Settings} {d : Char} {names row : List String} {entries : List Entry}

/-! ## Cells under names -/

/-- The cell of a row under a name, if the header has the name. -/
def cellUnder (names row : List String) (name : String) : Option String :=
  ((names.zip row).find? fun x => x.1 == name).map (·.2)

/-- The entry with the cells of a row, each under the name of its column; a column that the
header does not have is left empty. -/
def under (names row : List String) : Entry :=
  ofCells fun c => .text ((cellUnder names row c.name).getD "")

theorem map_fst_zip_of_width (hwidth : row.length = names.length) :
    (names.zip row).map (·.1) = names := List.map_fst_zip (Nat.le_of_eq hwidth.symm)

theorem subsingleton_of_distinct (hdistinct : names.Nodup) (hwidth : row.length = names.length)
    (name : String) : {x ∈ names.zip row | (x.1 == name) = true}.Subsingleton := by
  rintro x ⟨hx, hxname⟩ y ⟨hy, hyname⟩
  have hnodup : ((names.zip row).map (·.1)).Nodup := by
    rw [map_fst_zip_of_width hwidth]
    exact hdistinct
  have hsame : x.1 = y.1 := (beq_iff_eq.mp hxname).trans (beq_iff_eq.mp hyname).symm
  exact List.inj_on_of_nodup_map hnodup hx hy hsame

theorem cellUnder_of_getElem? (hdistinct : names.Nodup) (hwidth : row.length = names.length)
    {j : Nat} {name t : String} (hname : names[j]? = some name) (ht : row[j]? = some t) :
    cellUnder names row name = some t := by
  have hmem : (name, t) ∈ names.zip row := by
    refine List.mem_of_getElem? (i := j) ?_
    rw [List.getElem?_zip_eq_some]
    exact ⟨hname, ht⟩
  cases hfind : (names.zip row).find? fun x => x.1 == name with
  | none => exact absurd (beq_self_eq_true name) (List.find?_eq_none.mp hfind _ hmem)
  | some x =>
      have hname : (x.1 == name) = true :=
        List.find?_some (p := fun x : String × String => x.1 == name) hfind
      have hx : x = (name, t) := subsingleton_of_distinct hdistinct hwidth name
        ⟨List.mem_of_find?_eq_some hfind, hname⟩ ⟨hmem, beq_self_eq_true name⟩
      rw [cellUnder, hfind, hx]
      rfl

theorem cellUnder_of_not_mem {name : String} (h : name ∉ names) : cellUnder names row name = none := by
  have hfind : ((names.zip row).find? fun x => x.1 == name) = none := by
    refine List.find?_eq_none.mpr fun x hx hname => h ?_
    rw [← beq_iff_eq.mp hname]
    exact (List.of_mem_zip hx).1
  rw [cellUnder, hfind]
  rfl

/-- A row as wide as a header of distinct names is that of the entry under them. -/
theorem ofRow_named (hdistinct : names.Nodup) (hid : Column.id.name ∈ names)
    (hwidth : row.length = names.length) : ofRow (named names row) = .ok (under names row) := by
  -- the last cell of a name is the first one
  have hcell : ∀ c : Column,
      (((named names row).reverse.find? fun x => x.1.same (.text c.name)).map (·.2)) =
        (cellUnder names row c.name).map .text := by
    intro c
    have hperm := List.find?_eq_find?_of_perm (List.reverse_perm (names.zip row)).symm
      (subsingleton_of_distinct hdistinct hwidth c.name)
    rw [named_eq, List.drop_eq_nil_of_le (Nat.le_of_eq hwidth.symm), List.map_nil, List.append_nil,
      find?_reverse_map, ← hperm, cellUnder, Option.map_map, Option.map_map]
    rfl
  obtain ⟨j, hj⟩ := List.getElem?_of_mem hid
  have hlt : j < row.length := by
    rw [hwidth]
    exact (List.getElem?_eq_some_iff.mp hj).1
  have hsome := cellUnder_of_getElem? hdistinct hwidth hj (List.getElem?_eq_getElem hlt)
  unfold ofRow
  dsimp only
  rw [hcell .id, hsome]
  refine congrArg Except.ok (congrArg ofCells (funext fun c => ?_))
  rw [hcell c]
  cases cellUnder names row c.name <;> rfl

/-! ## The order of columns -/

/-- The cells of a row in another order. -/
def reordered (order : List Nat) (cells : List String) : List String :=
  order.map fun j => cells.getD j ""

section
variable {order : List Nat} (horder : order.Perm (List.range names.length))
include horder

theorem zip_reordered_perm (hwidth : row.length = names.length) :
    ((reordered order names).zip (reordered order row)).Perm (names.zip row) := by
  have hinOrder : (List.range names.length).map (fun j => (names.getD j "", row.getD j "")) =
      names.zip row := by
    refine List.ext_getElem (by simp [hwidth]) fun j hj hj' => ?_
    rw [List.length_map, List.length_range] at hj
    have hrow : j < row.length := hwidth ▸ hj
    simp [hj, hrow]
  rw [reordered, reordered, List.zip_map', ← hinOrder]
  exact horder.map _

theorem reordered_perm : (reordered order names).Perm names := by
  have hperm : ((reordered order names).zip (reordered order names)).Perm (names.zip names) :=
    zip_reordered_perm horder rfl
  have hfirst := hperm.map (·.1)
  rw [map_fst_zip_of_width rfl, map_fst_zip_of_width rfl] at hfirst
  exact hfirst

theorem under_reordered (hdistinct : names.Nodup) (hwidth : row.length = names.length) :
    under (reordered order names) (reordered order row) = under names row := by
  have hperm := zip_reordered_perm horder hwidth
  refine congrArg ofCells (funext fun c => ?_)
  rw [cellUnder, cellUnder, List.find?_eq_find?_of_perm hperm.symm
    (subsingleton_of_distinct hdistinct hwidth c.name)]

end

/-! ## Tables in quotes -/

theorem parse_quoteAll {rows : List (List String)} (hs : delimiter s = .ok d) (hd : Delimits d)
    (hdistinct : names.Nodup) (hid : Column.id.name ∈ names)
    (hwidth : ∀ row ∈ rows, row.length = names.length)
    (hlength : ∀ row ∈ names :: rows, ∀ t ∈ row, t.length ≤ fieldLimit) :
    parse s (quoteAll d (names :: rows)) = .ok (rows.map (under names)) := by
  have hnames : names ≠ [] := List.ne_nil_of_mem hid
  have hrows : ∀ row ∈ rows, row ≠ [] := by
    rintro row hrow rfl
    exact hnames (List.eq_nil_of_length_eq_zero (hwidth [] hrow).symm)
  have hread := Delimited.read_quoteAll hd (List.forall_mem_cons.mpr ⟨hnames, hrows⟩) hlength
  exact parse_of_read hs hread (List.contains_iff_mem.mpr hid) fun row hrow =>
    ⟨hrows row hrow, ofRow_named hdistinct hid (hwidth row hrow)⟩

/-- What an entry has of a row: the cells under the names of its columns, and empty texts for
the columns that the header does not have. -/
def HasCells (names row : List String) (e : Entry) : Prop :=
  ∀ c : Column,
    (∀ (j : Nat) (t : String), names[j]? = some c.name → row[j]? = some t → e.cell c = .text t) ∧
    (c.name ∉ names → e.cell c = .text "")

theorem hasCells_under (hdistinct : names.Nodup) (hwidth : row.length = names.length) :
    HasCells names row (under names row) := by
  intro c
  rw [under, cell_ofCells]
  refine ⟨fun j t hj ht => ?_, fun hc => ?_⟩
  · rw [cellUnder_of_getElem? hdistinct hwidth hj ht]
    rfl
  · rw [cellUnder_of_not_mem hc]
    rfl

/-- A table with every field in quotes is read row by row, each cell into the column of its
name, if the names are distinct and the identifier is among them; and reordering the columns
gives the same entries. -/
theorem columns_by_name {s : Settings} {d : Char} {names : List String} {rows : List (List String)}
    (hs : s.delimiter = .ok (.text (String.singleton d))) (hquote : d ≠ '"') (hcr : d ≠ '\r')
    (hlf : d ≠ '\n') (hdistinct : names.Nodup) (hid : Column.id.name ∈ names)
    (hwidth : ∀ row ∈ rows, row.length = names.length)
    (hlength : ∀ row ∈ names :: rows, ∀ t ∈ row, t.length ≤ 131072) :
    ∃ entries, parse s (quoteAll d (names :: rows)) = .ok entries ∧
      List.Forall₂ (HasCells names) rows entries ∧
      ∀ order : List Nat, order.Perm (List.range names.length) →
        parse s (quoteAll d ((names :: rows).map (reordered order))) = .ok entries := by
  have hd : Delimits d := ⟨hquote, hcr, hlf⟩
  refine ⟨_, parse_quoteAll (delimiter_eq hs) hd hdistinct hid hwidth hlength, ?_, ?_⟩
  · rw [List.forall₂_map_right_iff, List.forall₂_same]
    exact fun row hrow => hasCells_under hdistinct (hwidth row hrow)
  · intro order horder
    have hwidths : ∀ row ∈ names :: rows, row.length = names.length :=
      List.forall_mem_cons.mpr ⟨rfl, hwidth⟩
    have hperm : ∀ row ∈ names :: rows, (reordered order row).Perm row := by
      intro row hrow
      refine reordered_perm ?_
      rw [hwidths row hrow]
      exact horder
    have hnames := hperm names List.mem_cons_self
    have hwidth' : ∀ row ∈ rows.map (reordered order),
        row.length = (reordered order names).length := by
      refine List.forall_mem_map.mpr fun row hrow => ?_
      simp only [reordered, List.length_map]
    have hlength' : ∀ row ∈ (names :: rows).map (reordered order), ∀ t ∈ row,
        t.length ≤ fieldLimit :=
      List.forall_mem_map.mpr fun row hrow t ht =>
        hlength row hrow t ((hperm row hrow).mem_iff.mp ht)
    rw [List.map_cons, parse_quoteAll (delimiter_eq hs) hd (hnames.nodup_iff.mpr hdistinct)
      (hnames.mem_iff.mpr hid) hwidth' hlength', List.map_map]
    exact congrArg Except.ok (List.map_congr_left fun row hrow =>
      under_reordered horder hdistinct (hwidth row hrow))

/-- The table of an exchange: a column of remarks, no others than it needs, and in its cells
all that could be taken for something else. -/
def remarks : List String := ["text", "remark", "id"]

/-- Two lines of the exchange, one of them empty. -/
def remarked : List (List String) :=
  [["\"No\", he said,\r\nand left.\r", "\n", "line:a"], ["", "?", "line:b"]]

/-- With the identifier first, the exchange is the same. -/
theorem columns_by_name_of_remarks :
    remarks.Nodup ∧ Column.id.name ∈ remarks ∧ (∀ row ∈ remarked, row.length = remarks.length) ∧
      (∀ row ∈ remarks :: remarked, ∀ t ∈ row, t.length ≤ 131072) ∧
      [2, 0, 1].Perm (List.range remarks.length) ∧
      ∃ a b, parse .defaults (quoteAll ',' (remarks :: remarked)) = .ok [a, b] ∧
        parse .defaults (quoteAll ',' ((remarks :: remarked).map (reordered [2, 0, 1]))) =
          .ok [a, b] ∧
        a.id = .text "line:a" ∧ a.text = .text "\"No\", he said,\r\nand left.\r" ∧
        a.comment = .text "" ∧ b.text = .text "" := by
  have hdistinct : remarks.Nodup := by decide
  have hid : Column.id.name ∈ remarks := by decide
  have hwidth : ∀ row ∈ remarked, row.length = remarks.length := by decide
  have hlength : ∀ row ∈ remarks :: remarked, ∀ t ∈ row, t.length ≤ 131072 := by decide
  have horder : [2, 0, 1].Perm (List.range remarks.length) := by decide
  obtain ⟨entries, hparse, hcells, hreordered⟩ := columns_by_name (s := .defaults) (d := ',') rfl
    (by decide) (by decide) (by decide) hdistinct hid hwidth hlength
  rw [remarked] at hcells
  cases hcells with
  | @cons _ a _ _ ha hrest =>
    cases hrest with
    | @cons _ b _ _ hb hrest =>
      cases hrest
      exact ⟨hdistinct, hid, hwidth, hlength, horder, a, b, hparse, hreordered _ horder,
        (ha .id).1 2 _ rfl rfl, (ha .text).1 0 _ rfl rfl, (ha .comment).2 (by decide),
        (hb .text).1 0 _ rfl rfl⟩

/-! ## Other line ends -/

/-- A text on one line, no longer than a field may be. -/
def OnOneLine (t : String) : Prop := t.length ≤ 131072 ∧ '\r' ∉ t.toList ∧ '\n' ∉ t.toList

theorem OnOneLine.legible {t : String} (h : OnOneLine t) : Legible d t.toList :=
  ⟨h.1, fun hmem => absurd hmem h.2.1⟩

theorem onOneLine_header : ∀ name ∈ header, OnOneLine name := by
  have hshort : ∀ name ∈ header, name.length ≤ 10 ∧ '\r' ∉ name.toList ∧ '\n' ∉ name.toList := by
    decide
  intro name hname
  obtain ⟨hlength, hends⟩ := hshort name hname
  exact ⟨Nat.le_trans hlength (by decide), hends⟩

/-- Entries of texts on one line are read back from a saved table, whether its lines end in a
line feed or in a carriage return and a line feed. -/
theorem line_ends_alike {s : Settings} {d : Char} {entries : List Entry}
    (hs : s.delimiter = .ok (.text (String.singleton d))) (hquote : d ≠ '"') (hcr : d ≠ '\r')
    (hlf : d ≠ '\n') (htexts : ∀ e ∈ entries, ∀ c, ∃ t, e.cell c = .text t ∧ OnOneLine t) :
    ∃ saved, format s entries = .ok saved ∧ parse s saved = .ok entries ∧
      parse s (withReturns saved) = .ok entries := by
  have hd : Delimits d := ⟨hquote, hcr, hlf⟩
  have hall : ∀ e ∈ entries, ∀ c, ∃ t, e.cell c = .text t := fun e he c =>
    (htexts e he c).imp fun _ => And.left
  have hcells : ∀ row ∈ entries.map cells, ∀ f ∈ row, OnOneLine f := by
    refine List.forall_mem_map.mpr fun e he f hf => ?_
    obtain ⟨c, -, rfl⟩ := List.mem_map.mp hf
    obtain ⟨t, ht, honeLine⟩ := htexts e he c
    rw [ht]
    exact honeLine
  have hlines : ∀ row ∈ header :: entries.map cells, ∀ f ∈ row, OnOneLine f :=
    List.forall_mem_cons.mpr ⟨onOneLine_header, hcells⟩
  have hwide : ∀ row ∈ header :: entries.map cells, row.length = header.length :=
    List.forall_mem_cons.mpr ⟨rfl, List.forall_mem_map.mpr fun e _ => length_cells e⟩
  have htwo : ∀ row ∈ header :: entries.map cells, 2 ≤ row.length := fun row hrow => by
    rw [hwide row hrow]
    decide
  have hlegible := fun row hrow f hf => (hlines row hrow f hf).legible (d := d)
  have hread := Delimited.read_write_of_legible hd htwo hlegible
  have hreturns := Delimited.read_withReturns_write hd htwo hlegible
    fun row hrow f hf => (hlines row hrow f hf).2.2
  have hrows := (List.forall_mem_cons.mp hwide).2
  refine ⟨_, format_eq (delimiter_eq hs) fun e he c => .inr (hall e he c), ?_, ?_⟩
  · rw [parse_of_read_header (delimiter_eq hs) hread hrows, map_ofTexts_cells hall]
  · rw [parse_of_read_header (delimiter_eq hs) hreturns hrows, map_ofTexts_cells hall]

/-- Lines with all that a reader could take for something else, but for line ends; the last
column of the first is in quotes, that of the second is empty. -/
def lastWords : List Entry :=
  [{ id := .text "line:a", text := .text "\"Well,\" he said", comment := .text "a, b" },
    { id := .text "", base := .text ",\"" }]

theorem line_ends_alike_of_lastWords :
    (∀ e ∈ lastWords, ∀ c, ∃ t, e.cell c = .text t ∧ OnOneLine t) ∧
      ∃ saved, format .defaults lastWords = .ok saved ∧
        parse .defaults saved = .ok lastWords ∧
        parse .defaults (withReturns saved) = .ok lastWords := by
  have htexts : ∀ e ∈ lastWords, ∀ c, ∃ t, e.cell c = .text t ∧ OnOneLine t := by
    simp only [lastWords, List.forall_mem_cons]
    refine ⟨fun c => ?_, fun c => ?_, nofun⟩ <;> cases c <;>
      exact ⟨_, rfl, by decide, by decide, by decide⟩
  exact ⟨htexts, line_ends_alike (s := .defaults) (d := ',') rfl (by decide) (by decide)
    (by decide) htexts⟩

end Parley.Entry
