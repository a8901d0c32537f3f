import Parley.Line
import Mathlib.Data.List.Basic

/-!
# A line, its speaker and its spans

Three readings of a line cut the same raw text, and not in the same way.

| | where the span lies past the end | what stands there |
| :-- | :-- | :-- |
| the text shown | is cut off at the end | the raw text without the span over the speaker |
| the speaker | does not matter | the name that this same span gives |
| the text of a span | is refused | the part of the raw text |

Of several spans over the speaker the first one counts, for the text as for the name
(`Line.SpeakerSpan`).  What a span leaves out is said by positions (`Text.outside`), so that it
means something for a span that begins or ends past the text.  A span that ends within the text
can be put back.

Positions are those of code points, and spans begin at or after the first and have a length.
-/

namespace Parley

namespace Text

variable {cs : List Char} {start stop : Nat}

/-! ## Positions that count from the beginning -/

theorem before_natCast (cs : List Char) (n : Nat) : before cs n = cs.take n := by
  rw [before, bound, if_neg (Int.not_lt.mpr (Int.natCast_nonneg n)), Int.toNat_natCast,
    ← List.take_eq_take_min]

theorem after_natCast (cs : List Char) (n : Nat) : after cs n = cs.drop n := by
  have hsplit := before_append_after cs n
  rw [before_natCast] at hsplit
  exact List.append_cancel_left (hsplit.trans (List.take_append_drop n cs).symm)

theorem between_natCast (cs : List Char) (n m : Nat) :
    between cs n m = (cs.take m).drop (min n cs.length) := by
  rw [between, before_natCast, bound, if_neg (Int.not_lt.mpr (Int.natCast_nonneg n)),
    Int.toNat_natCast]

/-- What stands at none of the positions from `start` up to `stop`. -/
def outside (start stop : Nat) (cs : List Char) : List Char :=
  (cs.zipIdx.filter fun c => c.2 < start || stop ≤ c.2).map Prod.fst

theorem outside_eq (h : start ≤ stop) (cs : List Char) :
    outside start stop cs = cs.take start ++ cs.drop stop := by
  -- along the text the positions of what is left begin later and later
  have hfrom : ∀ (cs : List Char) (n : Nat),
      ((cs.zipIdx n).filter fun c => c.2 < start || stop ≤ c.2).map Prod.fst =
        cs.take (start - n) ++ cs.drop (stop - n) := by
    intro cs
    induction cs with
    | nil => simp
    | cons c cs ih =>
        intro n
        rw [List.zipIdx_cons]
        rcases Nat.lt_or_ge n start with hbefore | hstart
        · obtain ⟨k, hk⟩ := Nat.exists_eq_add_of_lt hbefore
          obtain ⟨m, hm⟩ := Nat.exists_eq_add_of_lt (Nat.lt_of_lt_of_le hbefore h)
          rw [List.filter_cons_of_pos (by simp [hbefore]), List.map_cons, ih]
          have hk' : start - n = k + 1 := by omega
          have hm' : stop - n = m + 1 := by omega
          rw [hk', hm', List.take_succ_cons, List.drop_succ_cons, List.cons_append]
          congr 2 <;> congr 1 <;> omega
        · have hzero : start - n = 0 := Nat.sub_eq_zero_of_le hstart
          have hzero' : start - (n + 1) = 0 := Nat.sub_eq_zero_of_le (Nat.le_succ_of_le hstart)
          rcases Nat.lt_or_ge n stop with hwithin | hafter
          · have hstop : stop - n = stop - (n + 1) + 1 := by omega
            rw [List.filter_cons_of_neg (by simp; omega), ih, hzero, hzero', hstop,
              List.drop_succ_cons, List.take_zero, List.take_zero]
          · have hstop : stop - n = 0 := Nat.sub_eq_zero_of_le hafter
            have hstop' : stop - (n + 1) = 0 := Nat.sub_eq_zero_of_le (Nat.le_succ_of_le hafter)
            rw [List.filter_cons_of_pos (by simp [hafter]), List.map_cons, ih, hzero, hzero',
              hstop, hstop']
            rfl
  exact hfrom cs 0

end Text

namespace Attribute

variable {a : Attribute}

theorem position_eq (h : 0 ≤ a.position) : a.position = (a.position.toNat : Int) :=
  (Int.toNat_of_nonneg h).symm

theorem stop_eq (h : 0 ≤ a.position) (h' : 0 ≤ a.length) :
    a.stop = (a.position.toNat + a.length.toNat : Nat) := by
  rw [stop]
  omega

end Attribute

namespace Line

variable {l : Line} {a : Attribute}

/-! ## The span over the speaker -/

/-- The first of the spans over the speaker. -/
def SpeakerSpan (l : Line) (a : Attribute) : Prop :=
  ∃ before after, l.attributes = before ++ a :: after ∧ a.name = .text speakerSpan ∧
    ∀ b ∈ before, b.name ≠ .text speakerSpan

theorem speakerAttribute?_eq_some : l.speakerAttribute? = some a ↔ l.SpeakerSpan a := by
  rw [speakerAttribute?, attribute?, List.find?_eq_some_iff_append]
  simp only [Bool.not_eq_true', ← Bool.not_eq_true]
  constructor
  · rintro ⟨hname, before, after, hsplit, hbefore⟩
    exact ⟨before, after, hsplit, (Datum.beq_text _ _).mp hname,
      fun b hb h => hbefore b hb ((Datum.beq_text _ _).mpr h)⟩
  · rintro ⟨before, after, hsplit, hname, hbefore⟩
    exact ⟨(Datum.beq_text _ _).mpr hname, before, after, hsplit,
      fun b hb h => hbefore b hb ((Datum.beq_text _ _).mp h)⟩

theorem speakerAttribute?_eq_none :
    l.speakerAttribute? = none ↔ ∀ a ∈ l.attributes, a.name ≠ .text speakerSpan := by
  rw [speakerAttribute?, attribute?, List.find?_eq_none]
  exact forall₂_congr fun a _ => not_congr (Datum.beq_text _ _)

theorem text_of_none (h : l.speakerAttribute? = none) : l.text = l.raw := by
  rw [text, h]

theorem text_of_some (h : l.speakerAttribute? = some a) (hposition : 0 ≤ a.position)
    (hlength : 0 ≤ a.length) : l.text.toList = Text.outside a.position.toNat
      (a.position.toNat + a.length.toNat) l.raw.toList := by
  rw [text, h]
  dsimp only
  rw [a.position_eq hposition, a.stop_eq hposition hlength, Text.before_natCast,
    Text.after_natCast, String.toList_ofList, Int.toNat_natCast,
    Text.outside_eq (Nat.le_add_right _ _)]

theorem speaker_of_none (h : l.speakerAttribute? = none) : l.speaker = .ok none := by
  rw [speaker, h]
  rfl

theorem speaker_of_some (h : l.speakerAttribute? = some a) : l.speaker =
    let name := a.property (.text speakerProperty)
    if name.isSomething then
      if name.hasText then .ok (some name.plain) else .error (.accident .value)
    else .ok none := by
  rw [speaker, h, Option.map_some]
  cases a.property (.text speakerProperty) with
  | nothing => rfl
  | _ => exact (if_pos rfl).symm

/-! ## The text of a span -/

theorem covered_of_past (h : l.raw.length < a.stop) :
    ∃ f, l.covered a = .error f ∧ f.cls = .value := by
  rw [covered, if_pos h]
  refine ⟨_, rfl, ?_⟩
  unfold Fault.telling
  split <;> rfl

theorem covered_of_within (hposition : 0 ≤ a.position) (hlength : 0 ≤ a.length)
    (h : a.stop ≤ l.raw.length) : ∃ s, l.covered a = .ok s ∧ (s.length : Int) = a.length ∧
      l.raw.toList = l.raw.toList.take a.position.toNat ++ s.toList ++
        l.raw.toList.drop (a.position.toNat + a.length.toNat) := by
  have hstart := a.position_eq hposition
  have hsize : a.length = (a.length.toNat : Int) := (Int.toNat_of_nonneg hlength).symm
  have hstop := a.stop_eq hposition hlength
  generalize a.position.toNat = p at *
  generalize a.length.toNat = n at *
  have hwithin : p + n ≤ l.raw.toList.length := by
    rw [String.length_toList]
    omega
  have hbetween : Text.between l.raw.toList a.position a.stop =
      (l.raw.toList.take (p + n)).drop p := by
    rw [hstart, hstop, Text.between_natCast, Nat.min_eq_left (by omega)]
  refine ⟨_, if_neg (Int.not_lt.mpr h), ?_, ?_⟩
  · rw [hbetween, String.length_ofList, List.length_drop, List.length_take_of_le hwithin, hsize,
      Nat.add_sub_cancel_left]
  · have htake : l.raw.toList.take p = (l.raw.toList.take (p + n)).take p := by
      rw [List.take_take, Nat.min_eq_left (Nat.le_add_right p n)]
    rw [hbetween, String.toList_ofList, htake, List.take_append_drop, List.take_append_drop]

/-- Of the raw text, the text shown leaves out the first span over the speaker, and nothing else;
the name of the speaker comes from that same span.  The text of any span is refused if the span
ends past the raw text, and otherwise is what stands there: put back into the text shown, a span
over the speaker gives the raw text. -/
theorem shown_without_speaker (l : Line)
    (hspans : ∀ a ∈ l.attributes, 0 ≤ a.position ∧ 0 ≤ a.length) :
    ((∀ a ∈ l.attributes, a.name ≠ .text speakerSpan) → l.text = l.raw ∧ l.speaker = .ok none) ∧
    (∀ a, l.SpeakerSpan a →
      l.text.toList = Text.outside a.position.toNat (a.position.toNat + a.length.toNat)
        l.raw.toList ∧
      (l.speaker =
        let name := a.property (.text speakerProperty)
        if name.isSomething then
          if name.hasText then .ok (some name.plain) else .error (.accident .value)
        else .ok none) ∧
      (a.stop ≤ l.raw.length → ∃ s, l.covered a = .ok s ∧
        l.raw.toList = l.text.toList.take a.position.toNat ++ s.toList ++
          l.text.toList.drop a.position.toNat)) ∧
    ∀ a : Attribute, 0 ≤ a.position → 0 ≤ a.length →
      ((∃ f, l.covered a = .error f ∧ f.cls = .value) ↔ l.raw.length < a.stop) ∧
      (a.stop ≤ l.raw.length → ∃ s, l.covered a = .ok s ∧ (s.length : Int) = a.length ∧
        l.raw.toList = l.raw.toList.take a.position.toNat ++ s.toList ++
          l.raw.toList.drop (a.position.toNat + a.length.toNat)) := by
  refine ⟨fun hnone => ?_, fun a ha => ?_, fun a hposition hlength => ⟨⟨?_, covered_of_past⟩,
    covered_of_within hposition hlength⟩⟩
  · have hnone := speakerAttribute?_eq_none.mpr hnone
    exact ⟨text_of_none hnone, speaker_of_none hnone⟩
  · have hsome := speakerAttribute?_eq_some.mpr ha
    obtain ⟨before, after, hsplit, -⟩ := ha
    obtain ⟨hposition, hlength⟩ := hspans a (hsplit ▸ List.mem_append_cons_self)
    have htext := text_of_some hsome hposition hlength
    refine ⟨htext, speaker_of_some hsome, fun hstop => ?_⟩
    obtain ⟨s, hs, hslength, hraw⟩ := covered_of_within hposition hlength hstop
    refine ⟨s, hs, ?_⟩
    have hbefore : a.position.toNat ≤ l.raw.toList.length := by
      rw [String.length_toList]
      rw [Attribute.stop] at hstop
      omega
    have hcut : (l.raw.toList.take a.position.toNat).length = a.position.toNat :=
      List.length_take_of_le hbefore
    rw [htext, Text.outside_eq (Nat.le_add_right _ _), List.take_left' hcut, List.drop_left' hcut]
    exact hraw
  · rintro ⟨f, hf, -⟩
    by_contra hpast
    obtain ⟨s, hs, -⟩ := covered_of_within hposition hlength (Int.not_lt.mp hpast)
    cases hf.symm.trans hs

/-- Two spans over the speaker, the first of them behind another span, and one that ends past the
text. -/
def greeting : Line where
  id := .text "line:greet"
  raw := "Martin: Hello!"
  attributes := [
    { name := .text "wave", position := 8, length := 5 },
    { name := .text speakerSpan, position := 0, length := 8
      properties := [(.text "mood", .text "glad"), (.text speakerProperty, .text "Martin")] },
    { name := .text speakerSpan, position := 3, length := 90
      properties := [(.text speakerProperty, .text "Anna")] },
    { name := .text "bold", position := 10, length := 50 }]

theorem shown_without_speaker_of_greeting :
    (∀ a ∈ greeting.attributes, 0 ≤ a.position ∧ 0 ≤ a.length) ∧
    greeting.text = "Hello!" ∧ greeting.speaker = .ok (some "Martin") ∧
    (∃ a ∈ greeting.attributes, a.name = .text "wave" ∧
      ∃ s, greeting.covered a = .ok s ∧ s.length = 5) ∧
    ∃ a ∈ greeting.attributes, a.name = .text "bold" ∧
      ∃ f, greeting.covered a = .error f ∧ f.cls = .value := by
  have hspans : ∀ a ∈ greeting.attributes, 0 ≤ a.position ∧ 0 ≤ a.length := by decide
  obtain ⟨-, hspeaker, hcovered⟩ := shown_without_speaker greeting hspans
  have hfirst : greeting.SpeakerSpan greeting.attributes[1] :=
    ⟨[greeting.attributes[0]], greeting.attributes.drop 2, rfl, rfl,
      by simp [greeting, speakerSpan]⟩
  obtain ⟨htext, hname, -⟩ := hspeaker _ hfirst
  refine ⟨hspans, String.ext ?_, hname, ⟨greeting.attributes[0], List.getElem_mem _, rfl, ?_⟩,
    ⟨greeting.attributes[3], List.getElem_mem _, rfl, ?_⟩⟩
  · rw [htext]
    decide
  · obtain ⟨s, hs, hlength, -⟩ :=
      (hcovered greeting.attributes[0] (by decide) (by decide)).2 (by decide)
    exact ⟨s, hs, Int.ofNat.inj hlength⟩
  · exact (hcovered greeting.attributes[3] (by decide) (by decide)).1.mpr (by decide)

end Line

end Parley
