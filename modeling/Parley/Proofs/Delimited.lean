import Parley.Delimited.Reader
import Parley.Delimited.Writer
import Mathlib.Data.List.Forall2

/-!
# Reading what was written

A written field is read back if it is `Legible`: it is not longer than the reader
allows, and if a carriage return stands in it, the writer had another reason to put
it in quotes.  The writer has no quotes for the return's own sake.  Outside quotes the
reader takes it for the end of the row, and what then follows on the line is a fault,
unless it is the line's own end.  So an illegible field spoils its row: the row fails,
or, when the field is its last, is read with that field cut short.

`read_write` puts this together for tables.  Rows of one field are left out, since a
row that is one empty field is written as an empty line, which is a row without fields.

A text is read character by character, and rows are set aside as they end.  So the
lemmas speak of a `Scan` that stands at some point of a row with rows behind it:
`Goes` within the row, `Closes` at its end, `Fails` at a fault.
-/

namespace Parley.Delimited

/-- A delimiter that means nothing else to a reader. -/
structure Delimits (d : Char) : Prop where
  quote : d ≠ '"'
  carriageReturn : d ≠ '\r'
  lineFeed : d ≠ '\n'

/-- A field that is read back as it was written. -/
def Legible (d : Char) (cs : List Char) : Prop :=
  cs.length ≤ fieldLimit ∧ ('\r' ∈ cs → needsQuotes d cs = true)

theorem needsQuotes_iff {d : Char} {cs : List Char} :
    needsQuotes d cs = true ↔ d ∈ cs ∨ '"' ∈ cs ∨ '\n' ∈ cs := by
  simp only [needsQuotes, List.any_eq_true, Bool.or_eq_true, decide_eq_true_eq]
  constructor
  · rintro ⟨c, hc, (rfl | rfl) | rfl⟩
    · exact .inl hc
    · exact .inr (.inl hc)
    · exact .inr (.inr hc)
  · rintro (h | h | h)
    · exact ⟨_, h, .inl (.inl rfl)⟩
    · exact ⟨_, h, .inl (.inr rfl)⟩
    · exact ⟨_, h, .inr rfl⟩

theorem ne_of_not_needsQuotes {d : Char} {cs : List Char} (h : needsQuotes d cs = false)
    {c : Char} (hc : c ∈ cs) : c ≠ d ∧ c ≠ '"' ∧ c ≠ '\n' := by
  have hnone : ¬(d ∈ cs ∨ '"' ∈ cs ∨ '\n' ∈ cs) := by
    rw [← needsQuotes_iff, h]
    exact Bool.false_ne_true
  refine ⟨?_, ?_, ?_⟩ <;> rintro rfl
  · exact hnone (.inl hc)
  · exact hnone (.inr (.inl hc))
  · exact hnone (.inr (.inr hc))

/-! ## Reading a part of a text -/

namespace Scan

/-- Read some characters, up to a fault. -/
def feed (d : Char) (s : Scan) (cs : List Char) : Option Scan := cs.foldlM (step d) s

variable {d : Char} {s s' : Scan} {cs : List Char}

theorem feed_cons (d : Char) (s : Scan) (c : Char) (cs : List Char) :
    s.feed d (c :: cs) = (s.step d c).bind fun s => s.feed d cs := rfl

theorem feed_append (d : Char) (s : Scan) (cs cs' : List Char) :
    s.feed d (cs ++ cs') = (s.feed d cs).bind fun s => s.feed d cs' := List.foldlM_append

/-- What is read of a text goes on from where its first part led. -/
theorem run_append_of_feed (h : s.feed d cs = some s') (rest : List Char) :
    run d s (cs ++ rest) = run d s' rest := by
  induction cs generalizing s with
  | nil =>
      cases h
      rfl
  | cons c cs ih =>
      rw [feed_cons] at h
      obtain ⟨t, ht, h⟩ := Option.bind_eq_some_iff.mp h
      rw [List.cons_append, run, ht]
      exact ih h

theorem fault_of_feed (h : s.feed d cs = none) (rest : List Char) :
    (run d s (cs ++ rest)).fault ≠ none := by
  induction cs generalizing s with
  | nil => cases h
  | cons c cs ih =>
      rw [feed_cons] at h
      rw [List.cons_append, run]
      cases ht : s.step d c with
      | none => simp
      | some t =>
          rw [ht] at h
          exact ih h

end Scan

/-- Over the characters the reader goes from `r` to `r'`, and no row ends. -/
def Goes (d : Char) (r : Reader) (cs : List Char) (r' : Reader) : Prop :=
  ∀ s : Scan, s.reader = r → ∃ midLine, s.feed d cs = some { s with reader := r', midLine }

/-- The row ends with the last of the characters, and the next can start. -/
def Closes (d : Char) (r : Reader) (cs : List Char) (row : List String) : Prop :=
  ∀ s : Scan, s.reader = r → s.feed d cs = some { done := row :: s.done }

/-- The characters are a fault. -/
def Fails (d : Char) (r : Reader) (cs : List Char) : Prop :=
  ∀ s : Scan, s.reader = r → s.feed d cs = none

section
variable {d : Char} {r r' r'' : Reader} {c : Char} {cs cs' : List Char} {row : List String}

theorem goes_nil : Goes d r [] r := by
  rintro s rfl
  exact ⟨s.midLine, rfl⟩

theorem Goes.append (h : Goes d r cs r') (h' : Goes d r' cs' r'') : Goes d r (cs ++ cs') r'' := by
  intro s hs
  obtain ⟨midLine, hfeed⟩ := h s hs
  rw [Scan.feed_append, hfeed]
  exact h' _ rfl

theorem Goes.closes (h : Goes d r cs r') (h' : Closes d r' cs' row) :
    Closes d r (cs ++ cs') row := by
  intro s hs
  obtain ⟨midLine, hfeed⟩ := h s hs
  rw [Scan.feed_append, hfeed]
  exact h' _ rfl

theorem Goes.fails (h : Goes d r cs r') (h' : Fails d r' cs') : Fails d r (cs ++ cs') := by
  intro s hs
  obtain ⟨midLine, hfeed⟩ := h s hs
  rw [Scan.feed_append, hfeed]
  exact h' _ rfl

theorem Fails.append (h : Fails d r cs) (cs' : List Char) : Fails d r (cs ++ cs') := by
  intro s hs
  rw [Scan.feed_append, h s hs]
  rfl

theorem goes_of_step (h : r.step d (some c) = some r') (hc : c ≠ '\n' ∨ r'.place = .quoted) :
    Goes d r [c] r' := by
  rintro s rfl
  rw [Scan.feed_cons, Scan.step, h]
  by_cases hlf : c = '\n'
  · have hquoted : r'.place = .quoted := hc.resolve_left (absurd hlf)
    -- inside quotes the line goes on
    have hmark : r'.step d none = some r' := by
      simp only [Reader.step, hquoted]
    refine ⟨false, ?_⟩
    simp [hlf, hmark, Scan.collect, hquoted, Scan.feed]
  · exact ⟨true, by simp [hlf, Scan.feed]⟩

theorem fails_of_step (h : r.step d (some c) = none) (cs : List Char) : Fails d r (c :: cs) := by
  rintro s rfl
  rw [Scan.feed_cons, Scan.step, h]
  rfl

end

/-! ## The characters of a field -/

namespace Reader

variable {r : Reader} {c : Char} {place : Place}

theorem add_of_lt (h : r.length < fieldLimit) :
    r.add c place = some { r with place, field := c :: r.field, length := r.length + 1 } :=
  if_neg (Nat.not_le.mpr h)

theorem add_of_le (h : fieldLimit ≤ r.length) : r.add c place = none := if_pos h

theorem step_plain {d : Char} (hplace : r.place = .plain) (hd : c ≠ d) (hlf : c ≠ '\n')
    (hcr : c ≠ '\r') : r.step d (some c) = r.add c .plain := by
  simp [step, hplace, stepPlain, ends, hd, hlf, hcr]

theorem step_start {d : Char} (hplace : r.place = .rowStart ∨ r.place = .fieldStart)
    (hd : c ≠ d) (hquote : c ≠ '"') (hlf : c ≠ '\n') (hcr : c ≠ '\r') :
    r.step d (some c) = r.add c .plain := by
  rcases hplace with hplace | hplace <;>
    simp [step, hplace, stepFieldStart, ends, hd, hquote, hlf, hcr]

end Reader

section
variable {d : Char} {soFar : List Char} {n : Nat} {fields : List (List Char)} {cs : List Char}

theorem goes_plain (hcs : ∀ c ∈ cs, c ≠ d ∧ c ≠ '\n' ∧ c ≠ '\r')
    (hlength : n + cs.length ≤ fieldLimit) :
    Goes d ⟨.plain, soFar, n, fields⟩ cs ⟨.plain, cs.reverse ++ soFar, n + cs.length, fields⟩ := by
  induction cs generalizing soFar n with
  | nil => exact goes_nil
  | cons c cs ih =>
      obtain ⟨⟨hd, hlf, hcr⟩, hcs⟩ := List.forall_mem_cons.mp hcs
      rw [List.length_cons] at hlength
      have hstep : Reader.step d ⟨.plain, soFar, n, fields⟩ (some c) =
          some ⟨.plain, c :: soFar, n + 1, fields⟩ := by
        rw [Reader.step_plain rfl hd hlf hcr]
        exact Reader.add_of_lt (show n < fieldLimit by omega)
      have hrest : Goes d ⟨.plain, c :: soFar, n + 1, fields⟩ cs
          ⟨.plain, cs.reverse ++ c :: soFar, n + 1 + cs.length, fields⟩ := ih hcs (by omega)
      rw [List.reverse_cons, List.append_assoc, List.length_cons, Nat.add_comm cs.length,
        ← Nat.add_assoc]
      exact (goes_of_step hstep (.inl hlf)).append hrest

theorem goes_quoted_char (c : Char) (hlength : n < fieldLimit) :
    Goes d ⟨.quoted, soFar, n, fields⟩ (if c = '"' then ['"', '"'] else [c])
      ⟨.quoted, c :: soFar, n + 1, fields⟩ := by
  by_cases hc : c = '"'
  · have hfirst : Reader.step d ⟨.quoted, soFar, n, fields⟩ (some '"') =
        some ⟨.quoteSeen, soFar, n, fields⟩ := rfl
    have hsecond : Reader.step d ⟨.quoteSeen, soFar, n, fields⟩ (some '"') =
        some ⟨.quoted, '"' :: soFar, n + 1, fields⟩ := Reader.add_of_lt hlength
    rw [if_pos hc, hc]
    exact (goes_of_step hfirst (.inl (by decide))).append (goes_of_step hsecond (.inr rfl))
  · have hstep : Reader.step d ⟨.quoted, soFar, n, fields⟩ (some c) =
        some ⟨.quoted, c :: soFar, n + 1, fields⟩ := by
      simp only [Reader.step, if_neg hc]
      exact Reader.add_of_lt hlength
    rw [if_neg hc]
    exact goes_of_step hstep (.inr rfl)

theorem fails_quoted_char (c : Char) (hlength : fieldLimit ≤ n) :
    Fails d ⟨.quoted, soFar, n, fields⟩ (if c = '"' then ['"', '"'] else [c]) := by
  by_cases hc : c = '"'
  · have hfirst : Reader.step d ⟨.quoted, soFar, n, fields⟩ (some '"') =
        some ⟨.quoteSeen, soFar, n, fields⟩ := rfl
    have hsecond : Reader.step d ⟨.quoteSeen, soFar, n, fields⟩ (some '"') = none :=
      Reader.add_of_le hlength
    rw [if_pos hc]
    exact (goes_of_step hfirst (.inl (by decide))).fails (fails_of_step hsecond [])
  · have hstep : Reader.step d ⟨.quoted, soFar, n, fields⟩ (some c) = none := by
      simp only [Reader.step, if_neg hc]
      exact Reader.add_of_le hlength
    rw [if_neg hc]
    exact fails_of_step hstep []

theorem doubleQuotes_cons (c : Char) (cs : List Char) :
    doubleQuotes (c :: cs) = (if c = '"' then ['"', '"'] else [c]) ++ doubleQuotes cs :=
  List.flatMap_cons

theorem goes_quoted (hlength : n + cs.length ≤ fieldLimit) :
    Goes d ⟨.quoted, soFar, n, fields⟩ (doubleQuotes cs)
      ⟨.quoted, cs.reverse ++ soFar, n + cs.length, fields⟩ := by
  induction cs generalizing soFar n with
  | nil => exact goes_nil
  | cons c cs ih =>
      rw [List.length_cons] at hlength
      have hrest : Goes d ⟨.quoted, c :: soFar, n + 1, fields⟩ (doubleQuotes cs)
          ⟨.quoted, cs.reverse ++ c :: soFar, n + 1 + cs.length, fields⟩ := ih (by omega)
      rw [doubleQuotes_cons, List.reverse_cons, List.append_assoc, List.length_cons,
        Nat.add_comm cs.length, ← Nat.add_assoc]
      exact (goes_quoted_char c (by omega)).append hrest

theorem fails_quoted (hn : n ≤ fieldLimit) (hlength : fieldLimit < n + cs.length) :
    Fails d ⟨.quoted, soFar, n, fields⟩ (doubleQuotes cs) := by
  induction cs generalizing soFar n with
  | nil => exact absurd hlength (Nat.not_lt.mpr hn)
  | cons c cs ih =>
      rw [List.length_cons] at hlength
      rw [doubleQuotes_cons]
      rcases Nat.lt_or_eq_of_le hn with hlt | rfl
      · exact (goes_quoted_char c hlt).fails (ih (by omega) (by omega))
      · exact (fails_quoted_char c (Nat.le_refl _)).append _

/-- After a carriage return has ended the row, only such ends are taken. -/
theorem fails_or_goes_ended {r : Reader} (hplace : r.place = .rowEnded) (hlf : '\n' ∉ cs) :
    Fails d r cs ∨ Goes d r cs r := by
  induction cs with
  | nil => exact .inr goes_nil
  | cons c cs ih =>
      have hne : '\n' ≠ c := List.ne_of_not_mem_cons hlf
      have hcs : '\n' ∉ cs := List.not_mem_of_not_mem_cons hlf
      by_cases hcr : c = '\r'
      · have hstep : r.step d (some c) = some r := by
          simp [Reader.step, hplace, Reader.ends, hcr]
        have hgoes := goes_of_step hstep (.inl (Ne.symm hne))
        exact (ih hcs).imp hgoes.fails hgoes.append
      · have hstep : r.step d (some c) = none := by
          simp [Reader.step, hplace, Reader.ends, hcr, Ne.symm hne]
        exact .inl (fails_of_step hstep cs)

/-- What a reader makes of a field without quotes that is not legible: a fault, or a row
that ended within the field. -/
theorem fails_or_ends_plain (hcs : ∀ c ∈ cs, c ≠ d ∧ c ≠ '\n') (hn : n ≤ fieldLimit)
    (hbad : '\r' ∈ cs ∨ fieldLimit < n + cs.length) :
    Fails d ⟨.plain, soFar, n, fields⟩ cs ∨
      ∃ r before, Goes d ⟨.plain, soFar, n, fields⟩ cs r ∧ r.place = .rowEnded ∧
        r.fields = (soFar.reverse ++ before) :: fields ∧ before.length < cs.length := by
  induction cs generalizing soFar n with
  | nil => exact absurd hbad (by simpa using hn)
  | cons c cs ih =>
      obtain ⟨⟨hd, hlf⟩, hcs⟩ := List.forall_mem_cons.mp hcs
      by_cases hcr : c = '\r'
      · have hstep : Reader.step d ⟨.plain, soFar, n, fields⟩ (some c) =
            some (Reader.save ⟨.plain, soFar, n, fields⟩ .rowEnded) := by
          rw [hcr]
          rfl
        have hgoes := goes_of_step hstep (.inl hlf)
        have hended : (Reader.save ⟨.plain, soFar, n, fields⟩ .rowEnded).place = .rowEnded := rfl
        rcases fails_or_goes_ended (d := d) hended (fun h => (hcs _ h).2 rfl) with hfails | hrest
        · exact .inl (hgoes.fails hfails)
        · refine .inr ⟨_, [], hgoes.append hrest, rfl, ?_, Nat.zero_lt_succ _⟩
          rw [List.append_nil]
          rfl
      · have hplain : Reader.step d ⟨.plain, soFar, n, fields⟩ (some c) =
            Reader.add ⟨.plain, soFar, n, fields⟩ c .plain := Reader.step_plain rfl hd hlf hcr
        rcases Nat.lt_or_eq_of_le hn with hlt | rfl
        · have hgoes : Goes d ⟨.plain, soFar, n, fields⟩ [c] ⟨.plain, c :: soFar, n + 1, fields⟩ :=
            goes_of_step (hplain.trans (Reader.add_of_lt hlt)) (.inl hlf)
          have hrest : '\r' ∈ cs ∨ fieldLimit < n + 1 + cs.length := by
            rw [List.mem_cons, List.length_cons] at hbad
            rcases hbad with (heq | hmem) | hlong
            · exact absurd heq.symm hcr
            · exact .inl hmem
            · exact .inr (by omega)
          rcases ih hcs hlt hrest with hfails | ⟨r, before, hto, hplace, hfields, hshort⟩
          · exact .inl (hgoes.fails hfails)
          · refine .inr ⟨r, c :: before, hgoes.append hto, hplace, ?_, Nat.succ_lt_succ hshort⟩
            rw [hfields, List.reverse_cons, List.append_assoc]
            rfl
        · exact .inl (fails_of_step (hplain.trans (Reader.add_of_le (Nat.le_refl _))) cs)

end

/-! ## Fields -/

section
variable {d : Char} {place : Place} {fields : List (List Char)} {cs : List Char}

/-- A field in quotes. -/
def quote (cs : List Char) : List Char := '"' :: doubleQuotes cs ++ ['"']

theorem field_of_quotes (h : needsQuotes d cs = true) : field d cs = quote cs := if_pos h

theorem field_of_plain (h : needsQuotes d cs = false) : field d cs = cs :=
  if_neg (by simp [h])

theorem goes_open_quote (hplace : place = .rowStart ∨ place = .fieldStart) :
    Goes d { place, fields } ['"'] { place := .quoted, fields } := by
  have hstep : Reader.step d { place, fields } (some '"') = some { place := .quoted, fields } := by
    rcases hplace with rfl | rfl <;> rfl
  exact goes_of_step hstep (.inl (by decide))

/-- The spellings of a field: in quotes, or as it is if a reader takes nothing in it for
something else. -/
inductive Spells (d : Char) (cs : List Char) : List Char → Prop
  | quoted : Spells d cs (quote cs)
  | bare (h : ∀ c ∈ cs, c ≠ d ∧ c ≠ '\n' ∧ c ≠ '\r') (hopen : cs.head? ≠ some '"') : Spells d cs cs

theorem spells_field (h : Legible d cs) : Spells d cs (field d cs) := by
  cases hquotes : needsQuotes d cs with
  | true =>
      rw [field_of_quotes hquotes]
      exact .quoted
  | false =>
      have hplain := fun c hc => ne_of_not_needsQuotes (c := c) hquotes hc
      have hcr : '\r' ∉ cs := by
        intro hmem
        rw [h.2 hmem] at hquotes
        cases hquotes
      rw [field_of_plain hquotes]
      refine .bare (fun c hc => ⟨(hplain c hc).1, (hplain c hc).2.2, ?_⟩) fun hopen => ?_
      · rintro rfl
        exact hcr hc
      · exact (hplain _ (List.mem_of_mem_head? hopen)).2.1 rfl

/-- However a field is spelled, it is read as it is, and its reader can take what follows a
field.  Only a field that is spelled by nothing leaves the reader where it was. -/
theorem goes_spelled (fields : List (List Char))
    (hplace : place = .rowStart ∨ place = .fieldStart) {spelled : List Char}
    (h : Spells d cs spelled) (hlength : cs.length ≤ fieldLimit) :
    ∃ r, Goes d { place, fields } spelled r ∧ r.field = cs.reverse ∧ r.fields = fields ∧
      (spelled = [] ∧ r.place = place ∨ r.place = .plain ∨ r.place = .quoteSeen) := by
  cases h with
  | quoted =>
      have hquoted : Goes d { place := .quoted, fields } (doubleQuotes cs)
          ⟨.quoted, cs.reverse ++ [], 0 + cs.length, fields⟩ := goes_quoted (by omega)
      have hclose : Goes d ⟨.quoted, cs.reverse ++ [], 0 + cs.length, fields⟩ ['"']
          ⟨.quoteSeen, cs.reverse ++ [], 0 + cs.length, fields⟩ :=
        goes_of_step rfl (.inl (by decide))
      exact ⟨_, ((goes_open_quote hplace).append hquoted).append hclose, List.append_nil _,
        rfl, .inr (.inr rfl)⟩
  | bare hplain hopen =>
      cases cs with
      | nil => exact ⟨_, goes_nil, rfl, rfl, .inl ⟨rfl, rfl⟩⟩
      | cons c cs =>
          obtain ⟨⟨hne, hlf, hcr⟩, hcs⟩ := List.forall_mem_cons.mp hplain
          have hquote : c ≠ '"' := fun h => hopen (congrArg some h)
          rw [List.length_cons] at hlength
          have hstep : Reader.step d { place, fields } (some c) =
              some ⟨.plain, [c], 1, fields⟩ := by
            rw [Reader.step_start hplace hne hquote hlf hcr]
            exact Reader.add_of_lt (by simp [fieldLimit])
          have hrest : Goes d ⟨.plain, [c], 1, fields⟩ cs
              ⟨.plain, cs.reverse ++ [c], 1 + cs.length, fields⟩ := goes_plain hcs (by omega)
          exact ⟨_, (goes_of_step hstep (.inl hlf)).append hrest, List.reverse_cons.symm, rfl,
            .inr (.inl rfl)⟩

theorem goes_field (fields : List (List Char)) (hplace : place = .rowStart ∨ place = .fieldStart)
    (h : Legible d cs) :
    ∃ r, Goes d { place, fields } (field d cs) r ∧ r.field = cs.reverse ∧ r.fields = fields ∧
      (r.place = place ∨ r.place = .plain ∨ r.place = .quoteSeen) := by
  obtain ⟨r, hgoes, hfield, hfields, hr⟩ := goes_spelled fields hplace (spells_field h) h.1
  exact ⟨r, hgoes, hfield, hfields, hr.imp_left And.right⟩

theorem fails_or_ends_field (fields : List (List Char))
    (hplace : place = .rowStart ∨ place = .fieldStart) (h : ¬Legible d cs) :
    Fails d { place, fields } (field d cs) ∨
      ∃ r, Goes d { place, fields } (field d cs) r ∧ r.place = .rowEnded ∧
        (place = .fieldStart → ∃ before : List Char, r.fields = before :: fields ∧
          before.length < cs.length) := by
  have hbad : (needsQuotes d cs = false ∧ '\r' ∈ cs) ∨ fieldLimit < cs.length := by
    unfold Legible at h
    rw [Decidable.not_and_iff_or_not, Nat.not_le, Classical.not_imp, Bool.not_eq_true] at h
    exact h.symm.imp_left And.symm
  cases hquotes : needsQuotes d cs with
  | true =>
      have hlong : fieldLimit < 0 + cs.length := by
        rcases hbad with ⟨hplain, -⟩ | hlong
        · rw [hquotes] at hplain
          cases hplain
        · omega
      have hquoted : Fails d { place := .quoted, fields } (doubleQuotes cs) :=
        fails_quoted (Nat.zero_le _) hlong
      rw [field_of_quotes hquotes]
      exact .inl (((goes_open_quote hplace).fails hquoted).append _)
  | false =>
      have hplain := fun c hc => ne_of_not_needsQuotes (c := c) hquotes hc
      rw [field_of_plain hquotes]
      cases cs with
      | nil => simp [fieldLimit] at hbad
      | cons c cs =>
          obtain ⟨⟨hne, hquote, hlf⟩, hcs⟩ := List.forall_mem_cons.mp hplain
          by_cases hcr : c = '\r'
          · obtain ⟨r, hstep, hended, hfields⟩ : ∃ r : Reader,
                Reader.step d { place, fields } (some c) = some r ∧ r.place = .rowEnded ∧
                  (place = .fieldStart → r.fields = [] :: fields) := by
              rw [hcr]
              rcases hplace with rfl | rfl
              · exact ⟨_, rfl, rfl, nofun⟩
              · exact ⟨_, rfl, rfl, fun _ => rfl⟩
            have hgoes := goes_of_step hstep (.inl hlf)
            have hrest := fails_or_goes_ended (d := d) hended
              fun hmem => (hcs _ hmem).2.2 rfl
            refine hrest.imp hgoes.fails fun hto => ?_
            exact ⟨r, hgoes.append hto, hended, fun hstart =>
              ⟨[], hfields hstart, Nat.zero_lt_succ _⟩⟩
          · have hstep : Reader.step d { place, fields } (some c) =
                some ⟨.plain, [c], 1, fields⟩ := by
              rw [Reader.step_start hplace hne hquote hlf hcr]
              exact Reader.add_of_lt (by simp [fieldLimit])
            have hgoes := goes_of_step hstep (.inl hlf)
            have hrest : '\r' ∈ cs ∨ fieldLimit < 1 + cs.length := by
              rw [List.mem_cons, List.length_cons] at hbad
              rcases hbad with ⟨-, heq | hmem⟩ | hlong
              · exact absurd heq.symm hcr
              · exact .inl hmem
              · exact .inr (by omega)
            rcases fails_or_ends_plain (fun x hx => ⟨(hcs x hx).1, (hcs x hx).2.2⟩)
                (by simp [fieldLimit]) hrest with
                hfails | ⟨r, before, hto, hended, hfields, hshort⟩
            · exact .inl (hgoes.fails hfails)
            · exact .inr ⟨r, hgoes.append hto, hended, fun _ =>
                ⟨c :: before, hfields, Nat.succ_lt_succ hshort⟩⟩

end

/-! ## Rows -/

section
variable {d : Char} {r : Reader}

theorem goes_delimiter (hd : Delimits d)
    (hplace : r.place = .rowStart ∨ r.place = .fieldStart ∨ r.place = .plain ∨
      r.place = .quoteSeen) :
    Goes d r [d] { place := .fieldStart, fields := r.field.reverse :: r.fields } := by
  have hstep : r.step d (some d) = some (r.save .fieldStart) := by
    rcases hplace with hplace | hplace | hplace | hplace <;>
      simp [Reader.step, hplace, Reader.stepFieldStart, Reader.stepPlain, Reader.stepQuoteSeen,
        Reader.ends, hd.quote, hd.carriageReturn, hd.lineFeed]
  exact goes_of_step hstep (.inl hd.lineFeed)

theorem closes_lineFeed (hd : Delimits d)
    (hplace : r.place = .fieldStart ∨ r.place = .plain ∨ r.place = .quoteSeen) :
    Closes d r ['\n'] ((r.field.reverse :: r.fields).map String.ofList).reverse := by
  have hstep : r.step d (some '\n') = some (r.save .rowEnded) := by
    rcases hplace with hplace | hplace | hplace <;>
      simp [Reader.step, hplace, Reader.stepFieldStart, Reader.stepPlain, Reader.stepQuoteSeen,
        Reader.ends, Reader.endRow, hd.lineFeed.symm]
  rintro s rfl
  rw [Scan.feed_cons, Scan.step, hstep]
  rfl

/-- A row that ended within its line takes the line's end, and nothing else. -/
theorem closes_ended (hplace : r.place = .rowEnded) :
    Closes d r ['\n'] (r.fields.map String.ofList).reverse := by
  have hstep : r.step d (some '\n') = some r := by
    simp only [Reader.step, hplace]
    rfl
  have hmark : r.step d none = some { r with place := .rowStart } := by
    simp only [Reader.step, hplace]
  rintro s rfl
  rw [Scan.feed_cons, Scan.step, hstep]
  simp [hmark, Scan.collect, Scan.feed, Reader.row]

theorem fails_ended_delimiter (hd : Delimits d) (hplace : r.place = .rowEnded) :
    Fails d r [d] := by
  refine fails_of_step ?_ []
  simp [Reader.step, hplace, Reader.ends, hd.carriageReturn, hd.lineFeed]

theorem row_singleton (d : Char) (f : List Char) : row d [f] = field d f ++ ['\n'] := by
  simp [row, List.intercalate]

theorem row_cons_cons (d : Char) (f g : List Char) (fs : List (List Char)) :
    row d (f :: g :: fs) = field d f ++ ([d] ++ row d (g :: fs)) := by
  simp [row, List.intercalate]

/-- What becomes of the rest of a row: it is read with as many fields as it has, and the
same ones if all of them are legible; or one is not, and it is a fault. -/
theorem row_cases (hd : Delimits d) {place : Place} (fields : List (List Char))
    {fs : List (List Char)}
    (hplace : place = .fieldStart ∧ fs ≠ [] ∨ place = .rowStart ∧ 2 ≤ fs.length) :
    (Fails d { place, fields } (row d fs) ∧ ¬∀ f ∈ fs, Legible d f) ∨
      ∃ gs : List (List Char), gs.length = fs.length ∧ (gs = fs ↔ ∀ f ∈ fs, Legible d f) ∧
        Closes d { place, fields } (row d fs)
          ((gs.reverse ++ fields).map String.ofList).reverse := by
  have hstart : place = .rowStart ∨ place = .fieldStart := hplace.symm.imp And.left And.left
  induction fs generalizing place fields with
  | nil => simp at hplace
  | cons f fs ih =>
    by_cases hf : Legible d f
    · obtain ⟨r, hgoes, hfield, hfields, hr⟩ := goes_field fields hstart hf
      cases fs with
      | nil =>
          have hfs : place = .fieldStart := by simpa using hplace
          have hcloses := hgoes.closes (closes_lineFeed hd (hfs ▸ hr))
          rw [hfield, hfields, List.reverse_reverse] at hcloses
          refine .inr ⟨[f], rfl, by simpa using hf, ?_⟩
          rw [row_singleton]
          exact hcloses
      | cons g fs =>
          have hdelimiter := goes_delimiter hd (r := r) (by
            rcases hr with hr | hr
            · rcases hstart with h | h <;> simp [hr, h]
            · exact .inr (.inr hr))
          rw [hfield, hfields, List.reverse_reverse] at hdelimiter
          rw [row_cons_cons, List.forall_mem_cons, and_iff_right hf]
          rcases ih (f :: fields) (.inl ⟨rfl, List.cons_ne_nil g fs⟩) (.inr rfl) with
              ⟨hfails, hbad⟩ | ⟨gs, hlength, hgs, hcloses⟩
          · exact .inl ⟨hgoes.fails (hdelimiter.fails hfails), hbad⟩
          · refine .inr ⟨f :: gs, congrArg (· + 1) hlength, ?_, ?_⟩
            · rw [List.cons_inj_right, hgs]
            · rw [List.reverse_cons, List.append_assoc]
              exact hgoes.closes (hdelimiter.closes hcloses)
    · have hbad : ¬∀ x ∈ f :: fs, Legible d x := fun h => hf (h f List.mem_cons_self)
      rcases fails_or_ends_field fields hstart hf with hfails | ⟨r, hgoes, hended, hcut⟩
      · refine .inl ⟨?_, hbad⟩
        cases fs with
        | nil =>
            rw [row_singleton]
            exact hfails.append _
        | cons g fs =>
            rw [row_cons_cons]
            exact hfails.append _
      · cases fs with
        | nil =>
            have hfs : place = .fieldStart := by simpa using hplace
            obtain ⟨before, hfields, hshort⟩ := hcut hfs
            have hcloses := hgoes.closes (closes_ended (d := d) hended)
            rw [hfields] at hcloses
            refine .inr ⟨[before], rfl, iff_of_false ?_ hbad, ?_⟩
            · rintro heq
              rw [List.singleton_inj.mp heq] at hshort
              exact Nat.lt_irrefl _ hshort
            · rw [row_singleton]
              exact hcloses
        | cons g fs =>
            rw [row_cons_cons]
            exact .inl ⟨hgoes.fails ((fails_ended_delimiter hd hended).append _), hbad⟩

end

/-! ## Tables -/

section
variable {d : Char}

/-- A row is read back with its width, and as it was exactly if its fields are legible. -/
def Reread (d : Char) (row row' : List String) : Prop :=
  row'.length = row.length ∧ (row' = row ↔ ∀ f ∈ row, Legible d f.toList)

theorem eq_iff_of_reread {rows rows' : List (List String)}
    (h : List.Forall₂ (Reread d) rows rows') :
    rows' = rows ↔ ∀ row ∈ rows, ∀ f ∈ row, Legible d f.toList := by
  induction h with
  | nil => simp
  | cons hrow _ ih => rw [List.cons.injEq, List.forall_mem_cons, hrow.2, ih]

theorem length_of_reread {rows rows' : List (List String)}
    (h : List.Forall₂ (Reread d) rows rows') {n : Nat} (hn : ∀ row ∈ rows, row.length = n) :
    ∀ row ∈ rows', row.length = n := by
  induction h with
  | nil => nofun
  | cons hrow _ ih =>
      obtain ⟨hlength, hrest⟩ := List.forall_mem_cons.mp hn
      exact List.forall_mem_cons.mpr ⟨hrow.1.trans hlength, ih hrest⟩

/-- A table of rows of two fields and more is read back row by row, unless a field is not
legible and a fault. -/
theorem read_write (hd : Delimits d) {rows : List (List String)}
    (hrows : ∀ row ∈ rows, 2 ≤ row.length) :
    ((read d (write d rows)).fault ≠ none ∧ ¬∀ row ∈ rows, ∀ f ∈ row, Legible d f.toList) ∨
      ∃ rows', read d (write d rows) = { rows := rows' } ∧ List.Forall₂ (Reread d) rows rows' := by
  have hrun : ∀ done : List (List String),
      ((Scan.run d { done } (rows.flatMap fun r => row d (r.map String.toList))).fault ≠ none ∧
        ¬∀ row ∈ rows, ∀ f ∈ row, Legible d f.toList) ∨
      ∃ rows', Scan.run d { done } (rows.flatMap fun r => row d (r.map String.toList)) =
        { rows := done.reverse ++ rows' } ∧ List.Forall₂ (Reread d) rows rows' := by
    induction rows with
    | nil =>
        intro done
        refine .inr ⟨[], ?_, .nil⟩
        rw [List.append_nil]
        rfl
    | cons r rows ih =>
        intro done
        obtain ⟨hr, hrows⟩ := List.forall_mem_cons.mp hrows
        rw [List.flatMap_cons, List.forall_mem_cons]
        have hfields : (∀ f ∈ r.map String.toList, Legible d f) ↔
            ∀ f ∈ r, Legible d f.toList := List.forall_mem_map
        have hwide : 2 ≤ (r.map String.toList).length := by
          rw [List.length_map]
          exact hr
        rcases row_cases hd [] (.inr ⟨rfl, hwide⟩) with
            ⟨hfails, hbad⟩ | ⟨gs, hlength, hgs, hcloses⟩
        · exact .inl ⟨Scan.fault_of_feed (hfails _ rfl) _, fun h => hbad (hfields.mpr h.1)⟩
        · have hread := Scan.run_append_of_feed (hcloses { done } rfl)
            (rows.flatMap fun r => row d (r.map String.toList))
          rw [hread, List.append_nil, List.map_reverse, List.reverse_reverse]
          have hreread : Reread d r (gs.map String.ofList) := by
            refine ⟨by simpa using hlength, ?_⟩
            rw [← hfields, ← hgs]
            constructor <;> rintro rfl <;> simp
          rcases ih hrows (gs.map String.ofList :: done) with
              ⟨hfault, hbad⟩ | ⟨rows', hrun, hrows'⟩
          · exact .inl ⟨hfault, fun h => hbad h.2⟩
          · refine .inr ⟨gs.map String.ofList :: rows', ?_, .cons hreread hrows'⟩
            rw [hrun, List.reverse_cons, List.append_assoc]
            rfl
  have htext : (write d rows).toList = rows.flatMap fun r => row d (r.map String.toList) :=
    String.toList_ofList
  rw [read, htext]
  exact hrun []

end

/-! ## Any text

Of a text that nobody wrote as a table one still knows that what is read of it is not
too long. -/

namespace Reader

variable {d : Char} {r r' : Reader} {mark : Option Char}

/-- A step moves on, closes the current field or adds a character to it. -/
inductive Stepped (r : Reader) : Reader → Prop where
  | move (place : Place) : Stepped r { r with place }
  | save (place : Place) : Stepped r (r.save place)
  | add {c : Char} {place : Place} {r' : Reader} : r.add c place = some r' → Stepped r r'

theorem stepped_fieldStart (h : r.stepFieldStart d mark = some r') : r.Stepped r' := by
  cases mark with
  | none =>
      cases h
      exact .save _
  | some c =>
      simp only [stepFieldStart] at h
      split at h
      · cases h
        exact .save _
      split at h
      · cases h
        exact .move _
      split at h
      · cases h
        exact .save _
      · exact .add h

theorem stepped_plain (h : r.stepPlain d mark = some r') : r.Stepped r' := by
  cases mark with
  | none =>
      cases h
      exact .save _
  | some c =>
      simp only [stepPlain] at h
      split at h
      · cases h
        exact .save _
      split at h
      · cases h
        exact .save _
      · exact .add h

theorem stepped_quoteSeen (h : r.stepQuoteSeen d mark = some r') : r.Stepped r' := by
  cases mark with
  | none =>
      cases h
      exact .save _
  | some c =>
      simp only [stepQuoteSeen] at h
      split at h
      · exact .add h
      split at h
      · cases h
        exact .save _
      split at h
      · cases h
        exact .save _
      · exact .add h

theorem stepped_of_step (h : r.step d mark = some r') : r.Stepped r' := by
  unfold step at h
  split at h
  · cases h
    exact .move r.place
  · split at h
    · cases h
      exact .move _
    · exact stepped_fieldStart h
  · exact stepped_fieldStart h
  · exact stepped_plain h
  · cases h
    exact .move r.place
  · split at h
    · cases h
      exact .move _
    · exact .add h
  · exact stepped_quoteSeen h
  · cases h
    exact .move _
  · split at h
    · cases h
      exact .move r.place
    · cases h

/-- No field is longer than the limit. -/
structure Bounded (r : Reader) : Prop where
  length : r.field.length = r.length
  limit : r.length ≤ fieldLimit
  fields : ∀ f ∈ r.fields, f.length ≤ fieldLimit

theorem Bounded.save (h : r.Bounded) (place : Place) : (r.save place).Bounded where
  length := rfl
  limit := Nat.zero_le _
  fields := List.forall_mem_cons.mpr
    ⟨by rw [List.length_reverse, h.length]; exact h.limit, h.fields⟩

theorem Bounded.stepped (h : r.Bounded) (hstep : r.Stepped r') : r'.Bounded := by
  cases hstep with
  | move place => exact ⟨h.length, h.limit, h.fields⟩
  | save place => exact h.save place
  | add hadd =>
      by_cases hfull : fieldLimit ≤ r.length
      · rw [add_of_le hfull] at hadd
        cases hadd
      · rw [add_of_lt (Nat.not_le.mp hfull)] at hadd
        cases hadd
        exact ⟨congrArg (· + 1) h.length, Nat.not_le.mp hfull, h.fields⟩

theorem Bounded.row (h : r.Bounded) : ∀ f ∈ r.row, f.length ≤ fieldLimit := by
  intro f hf
  obtain ⟨cs, hcs, rfl⟩ := List.mem_map.mp (List.mem_reverse.mp hf)
  rw [String.length_ofList]
  exact h.fields cs hcs

end Reader

namespace Scan

variable {d : Char} {s s' : Scan}

/-- No field read so far is longer than the limit. -/
structure Bounded (s : Scan) : Prop where
  reader : s.reader.Bounded
  done : ∀ row ∈ s.done, ∀ f ∈ row, f.length ≤ fieldLimit

theorem Bounded.collect (h : s.Bounded) {r : Reader} (hr : r.Bounded) : (s.collect r).Bounded := by
  unfold Scan.collect
  split
  · exact ⟨⟨rfl, Nat.zero_le _, nofun⟩, List.forall_mem_cons.mpr ⟨hr.row, h.done⟩⟩
  · exact ⟨hr, h.done⟩

theorem Bounded.step (h : s.Bounded) {c : Char} (hstep : s.step d c = some s') : s'.Bounded := by
  obtain ⟨r, hr, hstep⟩ := Option.bind_eq_some_iff.mp hstep
  have hr := h.reader.stepped (Reader.stepped_of_step hr)
  split at hstep
  · obtain ⟨r', hr', hstep⟩ := Option.bind_eq_some_iff.mp hstep
    cases hstep
    exact h.collect (hr.stepped (Reader.stepped_of_step hr'))
  · cases hstep
    exact ⟨hr, h.done⟩

theorem Bounded.finish (h : s.Bounded) :
    ∀ row ∈ (s.finish d).rows, ∀ f ∈ row, f.length ≤ fieldLimit := by
  unfold Scan.finish
  split
  · exact fun row hrow => h.done row (List.mem_reverse.mp hrow)
  · next s' hclosed =>
    have h' : s'.Bounded := by
      split at hclosed
      · obtain ⟨r, hr, rfl⟩ := Option.map_eq_some_iff.mp hclosed
        exact h.collect (h.reader.stepped (Reader.stepped_of_step hr))
      · cases hclosed
        exact h
    split
    · intro row hrow
      rcases List.mem_cons.mp (List.mem_reverse.mp hrow) with rfl | hrow
      · exact (h'.reader.save _).row
      · exact h'.done row hrow
    · exact fun row hrow => h'.done row (List.mem_reverse.mp hrow)

theorem Bounded.run (h : s.Bounded) (cs : List Char) :
    ∀ row ∈ (run d s cs).rows, ∀ f ∈ row, f.length ≤ fieldLimit := by
  induction cs generalizing s with
  | nil => exact h.finish
  | cons c cs ih =>
      rw [Scan.run]
      split
      · next s' hstep => exact ih (h.step hstep)
      · exact fun row hrow => h.done row (List.mem_reverse.mp hrow)

end Scan

theorem length_le_of_read (d : Char) (text : String) {row : List String}
    (hrow : row ∈ (read d text).rows) {f : String} (hf : f ∈ row) : f.length ≤ fieldLimit := by
  have hstart : ({} : Scan).Bounded := ⟨⟨rfl, Nat.zero_le _, nofun⟩, nofun⟩
  exact hstart.run text.toList row hrow f hf

end Parley.Delimited
