import Parley.Proofs.Delimited

/-!
# Reading tables of other hands

A table need not come from the writer here.  A field may be in quotes although nothing in it
calls for them, or stand as it is with quotes in its middle; a line may end in a line feed or
in a carriage return and a line feed.  `Spells`, `SpellsRow` and `SpellsLine` are these
choices, made anew for every field and every line, and `read_spelled` says that the reader
sees through all of them: what it reads are the fields, as long as none is too long.

One line cannot stand for its row, the line with nothing on it.  It is how a row of one empty
field would be spelled without quotes, and is read as a row without fields.
-/

namespace Parley.Delimited

/-- The ends of a line. -/
def lineEnds : List (List Char) := [['\n'], ['\r', '\n']]

variable {d : Char} {fs : List (List Char)} {w ws ending : List Char}

/-- The spellings of a row whose line ends in a given way. -/
inductive SpellsRow (d : Char) (ending : List Char) : List (List Char) → List Char → Prop
  | last {f w : List Char} (h : Spells d f w) : SpellsRow d ending [f] (w ++ ending)
  | more {f w : List Char} {fs : List (List Char)} {ws : List Char} (h : Spells d f w)
      (hrest : SpellsRow d ending fs ws) : SpellsRow d ending (f :: fs) (w ++ ([d] ++ ws))

/-- The spellings of a row as a line of a text, which has something before its end. -/
def SpellsLine (d : Char) (ending : List Char) (row : List String) (line : List Char) : Prop :=
  SpellsRow d ending (row.map String.toList) line ∧ line ≠ ending

/-! ## Lines -/

theorem closes_lineEnd (hd : Delimits d) (hending : ending ∈ lineEnds) {r : Reader}
    (hplace : r.place = .fieldStart ∨ r.place = .plain ∨ r.place = .quoteSeen) :
    Closes d r ending ((r.field.reverse :: r.fields).map String.ofList).reverse := by
  simp only [lineEnds, List.mem_cons, List.not_mem_nil, or_false] at hending
  rcases hending with rfl | rfl
  · exact closes_lineFeed hd hplace
  · -- the carriage return ends the row, and what is left is the end of a line
    have hreturn : r.step d (some '\r') = some (r.save .rowEnded) := by
      rcases hplace with hplace | hplace | hplace <;>
        simp [Reader.step, hplace, Reader.stepFieldStart, Reader.stepPlain, Reader.stepQuoteSeen,
          Reader.ends, Reader.endRow, hd.carriageReturn.symm]
    exact (goes_of_step hreturn (.inl (by decide))).closes (closes_ended rfl)

/-- The rest of a row is read with its fields; at the start of a row it must not be a bare
line end. -/
theorem closes_spelledRow (hd : Delimits d) (hending : ending ∈ lineEnds) {place : Place}
    (fields : List (List Char)) (h : SpellsRow d ending fs ws)
    (hplace : place = .fieldStart ∨ place = .rowStart ∧ ws ≠ ending)
    (hlength : ∀ f ∈ fs, f.length ≤ fieldLimit) :
    Closes d { place, fields } ws ((fs.reverse ++ fields).map String.ofList).reverse := by
  have hstart : place = .rowStart ∨ place = .fieldStart := hplace.symm.imp_left And.left
  induction h generalizing place fields with
  | last hf =>
      obtain ⟨hlength, -⟩ := List.forall_mem_cons.mp hlength
      obtain ⟨r, hgoes, hfield, hfields, hr⟩ := goes_spelled fields hstart hf hlength
      have hcloses := hgoes.closes (closes_lineEnd hd hending (by
        rcases hr with ⟨rfl, hr⟩ | hr
        · rw [hr]
          exact .inl (hplace.resolve_right fun h => h.2 rfl)
        · exact .inr hr))
      rw [hfield, hfields, List.reverse_reverse] at hcloses
      exact hcloses
  | @more f _ fs _ hf _ ih =>
      obtain ⟨hf', hlength⟩ := List.forall_mem_cons.mp hlength
      obtain ⟨r, hgoes, hfield, hfields, hr⟩ := goes_spelled fields hstart hf hf'
      have hdelimiter := goes_delimiter hd (r := r) (by
        rcases hr with ⟨-, hr⟩ | hr
        · rcases hstart with h | h <;> simp [hr, h]
        · exact .inr (.inr hr))
      rw [hfield, hfields, List.reverse_reverse] at hdelimiter
      have hrest := ih (f :: fields) (.inl rfl) hlength (.inr rfl)
      rw [List.reverse_cons, List.append_assoc]
      exact hgoes.closes (hdelimiter.closes hrest)

/-- A row of two fields and more is never a bare line end, since there is a delimiter on its
line. -/
theorem SpellsRow.ne_ending (hd : Delimits d) (hending : ending ∈ lineEnds)
    (h : SpellsRow d ending fs ws) (hwide : 2 ≤ fs.length) : ws ≠ ending := by
  have hapart : d ∉ ending := by
    simp only [lineEnds, List.mem_cons, List.not_mem_nil, or_false] at hending
    rcases hending with rfl | rfl <;> simp [hd.carriageReturn, hd.lineFeed]
  cases h with
  | last => simp at hwide
  | more =>
      rintro rfl
      exact hapart (by simp)

/-! ## Texts -/

/-- A table is read, whoever spelled its lines. -/
theorem read_spelled (hd : Delimits d) {rows : List (List String)} {lines : List (List Char)}
    (h : List.Forall₂ (fun row line => ∃ ending ∈ lineEnds, SpellsLine d ending row line) rows lines)
    (hlength : ∀ row ∈ rows, ∀ f ∈ row, f.length ≤ fieldLimit) :
    read d (String.ofList lines.flatten) = { rows } := by
  have hrun : ∀ done : List (List String),
      Scan.run d { done } lines.flatten = { rows := done.reverse ++ rows } := by
    induction h with
    | nil =>
        intro done
        rw [List.append_nil]
        rfl
    | @cons row line rows lines hline _ ih =>
        intro done
        obtain ⟨hrow, hlength⟩ := List.forall_mem_cons.mp hlength
        obtain ⟨ending, hending, hspells, hne⟩ := hline
        have hcloses := closes_spelledRow hd hending [] hspells (.inr ⟨rfl, hne⟩)
          (List.forall_mem_map.mpr hrow)
        have hfields : (((row.map String.toList).reverse ++ []).map String.ofList).reverse = row := by
          simp
        rw [hfields] at hcloses
        rw [List.flatten_cons, Scan.run_append_of_feed (hcloses { done } rfl)]
        rw [ih hlength (row :: done), List.reverse_cons, List.append_assoc]
        rfl
  rw [read, String.toList_ofList]
  exact hrun []

/-! ## Every field in quotes -/

theorem spellsRow_of_spelling {spell : List Char → List Char} (ending : List Char)
    (hne : fs ≠ []) (h : ∀ f ∈ fs, Spells d f (spell f)) :
    SpellsRow d ending fs ([d].intercalate (fs.map spell) ++ ending) := by
  induction fs with
  | nil => exact absurd rfl hne
  | cons f fs ih =>
      obtain ⟨hf, hfs⟩ := List.forall_mem_cons.mp h
      cases fs with
      | nil =>
          have hlast : SpellsRow d ending [f] (spell f ++ ending) := .last hf
          simpa [List.intercalate] using hlast
      | cons g fs => simpa [List.intercalate] using (ih (List.cons_ne_nil g fs) hfs).more hf

/-- A row with every field in quotes. -/
def quoteRow (d : Char) (row : List String) : List Char :=
  [d].intercalate ((row.map String.toList).map quote) ++ ['\n']

/-- The text of the rows with every field in quotes. -/
def quoteAll (d : Char) (rows : List (List String)) : String :=
  String.ofList (rows.map (quoteRow d)).flatten

theorem spellsLine_quoteRow {row : List String} (hne : row ≠ []) :
    SpellsLine d ['\n'] row (quoteRow d row) := by
  refine ⟨spellsRow_of_spelling ['\n'] (mt List.map_eq_nil_iff.mp hne) fun f _ => .quoted, ?_⟩
  cases row with
  | nil => exact absurd rfl hne
  | cons f fs => cases fs <;> simp [quoteRow, quote, List.intercalate]

theorem read_quoteAll (hd : Delimits d) {rows : List (List String)}
    (hne : ∀ row ∈ rows, row ≠ []) (hlength : ∀ row ∈ rows, ∀ f ∈ row, f.length ≤ fieldLimit) :
    read d (quoteAll d rows) = { rows } := by
  refine read_spelled hd ?_ hlength
  rw [List.forall₂_map_right_iff, List.forall₂_same]
  exact fun row hrow => ⟨['\n'], List.mem_cons_self, spellsLine_quoteRow (hne row hrow)⟩

/-! ## Other line ends

A carriage return before every line feed makes no difference if no field has a line feed in
it: all line feeds are then line ends, and each ends its row with or without the return. -/

/-- A character with a carriage return in front if it is a line feed. -/
def withReturn (c : Char) : List Char := if c = '\n' then ['\r', '\n'] else [c]

/-- A text with a carriage return before every line feed. -/
def withReturns (text : String) : String := String.ofList (text.toList.flatMap withReturn)

theorem flatMap_withReturn {cs : List Char} (h : '\n' ∉ cs) : cs.flatMap withReturn = cs := by
  induction cs with
  | nil => rfl
  | cons c cs ih =>
      rw [List.flatMap_cons, withReturn, if_neg (List.ne_of_not_mem_cons h).symm,
        ih (List.not_mem_of_not_mem_cons h)]
      rfl

theorem Spells.lineFeed_not_mem {cs : List Char} (h : Spells d cs w) (hcs : '\n' ∉ cs) :
    '\n' ∉ w := by
  cases h with
  | quoted =>
      have hdoubled : '\n' ∉ doubleQuotes cs := by
        intro hmem
        obtain ⟨c, hc, hmem⟩ := List.mem_flatMap.mp hmem
        split at hmem
        · simp at hmem
        · exact hcs (List.mem_singleton.mp hmem ▸ hc)
      simp [quote, hdoubled]
  | bare => exact hcs

theorem SpellsRow.withReturns (hd : Delimits d) (h : SpellsRow d ['\n'] fs ws)
    (hfs : ∀ f ∈ fs, '\n' ∉ f) : SpellsRow d ['\r', '\n'] fs (ws.flatMap withReturn) := by
  induction h with
  | last hf =>
      have hw := hf.lineFeed_not_mem (hfs _ List.mem_cons_self)
      rw [List.flatMap_append, flatMap_withReturn hw]
      exact .last hf
  | more hf _ ih =>
      obtain ⟨hf', hfs⟩ := List.forall_mem_cons.mp hfs
      have hdelimiter : '\n' ∉ [d] := by simpa using hd.lineFeed.symm
      rw [List.flatMap_append, List.flatMap_append, flatMap_withReturn (hf.lineFeed_not_mem hf'),
        flatMap_withReturn hdelimiter]
      exact .more hf (ih hfs)

section
variable (hd : Delimits d) {rows : List (List String)} (hwide : ∀ row ∈ rows, 2 ≤ row.length)
  (hlegible : ∀ row ∈ rows, ∀ f ∈ row, Legible d f.toList)
include hd hwide hlegible

theorem spellsLine_row : ∀ r ∈ rows, SpellsLine d ['\n'] r (row d (r.map String.toList)) := by
  intro r hr
  have hwide : 2 ≤ (r.map String.toList).length := by simpa using hwide r hr
  have hspells : SpellsRow d ['\n'] (r.map String.toList) (row d (r.map String.toList)) :=
    spellsRow_of_spelling ['\n'] (List.ne_nil_of_length_pos (by omega)) fun f hf =>
      spells_field (List.forall_mem_map.mpr (hlegible r hr) f hf)
  exact ⟨hspells, hspells.ne_ending hd List.mem_cons_self hwide⟩

theorem read_write_of_legible : read d (write d rows) = { rows } := by
  rw [write, List.flatMap_def]
  refine read_spelled hd ?_ fun row hrow f hf => (hlegible row hrow f hf).1
  rw [List.forall₂_map_right_iff, List.forall₂_same]
  exact fun r hr => ⟨_, List.mem_cons_self, spellsLine_row hd hwide hlegible r hr⟩

theorem read_withReturns_write (hfeeds : ∀ row ∈ rows, ∀ f ∈ row, '\n' ∉ f.toList) :
    read d (withReturns (write d rows)) = { rows } := by
  rw [withReturns, write, String.toList_ofList, List.flatMap_assoc, List.flatMap_def]
  refine read_spelled hd ?_ fun row hrow f hf => (hlegible row hrow f hf).1
  rw [List.forall₂_map_right_iff, List.forall₂_same]
  intro r hr
  have hending : ['\r', '\n'] ∈ lineEnds := List.mem_cons_of_mem _ List.mem_cons_self
  have hspells := (spellsLine_row hd hwide hlegible r hr).1.withReturns hd
    (List.forall_mem_map.mpr (hfeeds r hr))
  exact ⟨_, hending, hspells, hspells.ne_ending hd hending (by simpa using hwide r hr)⟩

end

end Parley.Delimited
