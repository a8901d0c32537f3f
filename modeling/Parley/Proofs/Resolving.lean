import Parley.LineText
import Parley.Proofs.Act

/-!
# Where the text of a line comes from

A line is answered from one of three places:

| source | may answer when |
|---|---|
| the active locale's phrasebook | its first catalog with the line has a text that is not the line |
| the fallback lexicon | the phrasebook gave none; its locale is active; it contains the line |
| no text | neither may answer |

`Resolves` says so without following the program: it speaks of the links of the chain and of
what stands before the one that answers.  `lineText_eq_ok_iff` is the agreement.

What is looked for must be a key that counts as the same as itself.  Texts are
(`Datum.isKey_text`, `Datum.same_text`).  A datum that does not count as itself, such as a
double that is no number, would come back from a phrasebook that does not contain it and be
taken for its text.

Readiness is asked of the same two sources, but of no line.  It needs no such condition.
-/

namespace Parley

namespace Datum

@[simp] theorem isKey_text (s : String) : (text s).isKey = true := rfl

@[simp] theorem same_text (s : String) : (text s).same (text s) = true := by simp [same]

end Datum

namespace Phrasebook

/-- The first catalog of the chain that contains the message has this text for it. -/
def Gives (p : Phrasebook) (message text : Datum) : Prop :=
  ∃ before c after, p.links = before ++ some c :: after ∧
    (∀ c', some c' ∈ before → c'.contains message = false) ∧ c.get? message = some text

variable {p : Phrasebook} {message text : Datum}

theorem link_eq_none_iff {l : Link} :
    (l.bind fun c => c.get? message) = none ↔ ∀ c, l = some c → c.contains message = false := by
  cases l with
  | none => simp
  | some c => simp [← Keyed.isSome_get?]

theorem link_eq_some_iff {l : Link} :
    (l.bind fun c => c.get? message) = some text ↔
      ∃ c, l = some c ∧ c.get? message = some text := by
  cases l <;> simp

theorem find?_eq_some_iff : p.find? message = some text ↔ p.Gives message text := by
  unfold find? Gives
  simp only [List.findSome?_eq_some_iff, link_eq_none_iff, link_eq_some_iff]
  constructor
  · rintro ⟨before, l, after, hlinks, ⟨c, rfl, hc⟩, hbefore⟩
    exact ⟨before, c, after, hlinks, fun c' hc' => hbefore _ hc' c' rfl, hc⟩
  · rintro ⟨before, c, after, hlinks, hbefore, hc⟩
    exact ⟨before, some c, after, hlinks, ⟨c, rfl, hc⟩, fun l hl c' h => hbefore c' (h ▸ hl)⟩

theorem find?_eq_none_of_empty (h : p.links.all Option.isNone = true) : p.find? message = none := by
  refine List.findSome?_eq_none_iff.mpr fun l hl => link_eq_none_iff.mpr ?_
  rintro c rfl
  exact absurd (List.all_eq_true.mp h _ hl) (by simp)

/-- Nothing is looked for in a chain without catalogs, and nothing would be found. -/
theorem textFor?_of_isKey (h : message.isKey = true) :
    p.textFor? message = .ok (p.find? message) := by
  unfold textFor?
  split
  · next hempty => rw [find?_eq_none_of_empty hempty]
  · rw [Datum.asKey_of_isKey h]
    rfl

end Phrasebook

namespace CatalogServer

variable {server : CatalogServer} {id text : Datum}

/-- The active locale's phrasebook has a text for the line that is not the line itself. -/
def Translates (server : CatalogServer) (id text : Datum) : Prop :=
  ∃ p, server.phrasebooks.get? server.locale = some p ∧ p.Gives id text ∧ text.same id = false

theorem active_of_isKey (h : server.locale.isKey = true) :
    server.active = .ok (server.phrasebooks.get? server.locale) := by
  rw [active, Datum.asKey_of_isKey h]
  rfl

theorem phrase_of_isKey (hlocale : server.locale.isKey = true) (hid : id.isKey = true) :
    server.phrase id =
      .ok (((server.phrasebooks.get? server.locale).bind fun p => p.find? id).getD id) := by
  rw [phrase, active_of_isKey hlocale]
  cases server.phrasebooks.get? server.locale with
  | none => rfl
  | some p =>
      show (do return (← p.textFor? id).getD id) = _
      rw [Phrasebook.textFor?_of_isKey hid]
      rfl

/-- A message comes back as another one exactly when it is translated. -/
theorem translates_iff (hlocale : server.locale.isKey = true) (hid : id.isKey = true)
    (hself : id.same id = true) :
    server.Translates id text ↔ server.phrase id = .ok text ∧ text.same id = false := by
  rw [phrase_of_isKey hlocale hid, Except.ok.injEq, Translates]
  simp only [← Phrasebook.find?_eq_some_iff]
  constructor
  · rintro ⟨p, hp, hfind, hdiffers⟩
    simp [hp, hfind, hdiffers]
  · rintro ⟨hphrase, hdiffers⟩
    cases hfound : (server.phrasebooks.get? server.locale).bind fun p => p.find? id with
    | none =>
        rw [hfound, Option.getD_none] at hphrase
        rw [← hphrase, hself] at hdiffers
        exact absurd hdiffers (by simp)
    | some t =>
        obtain ⟨p, hp, hfind⟩ := Option.bind_eq_some_iff.mp hfound
        rw [hfound, Option.getD_some] at hphrase
        exact ⟨p, hp, hphrase ▸ hfind, hdiffers⟩

end CatalogServer

/-! ## The line -/

/-- What a line is answered with, by the place the answer comes from. -/
inductive Resolves (server : CatalogServer) (fallback : Option Lexicon) (id : Datum) :
    Option Datum → Prop
  | translated {text : Datum} (h : server.Translates id text) :
      Resolves server fallback id (some text)
  | fallenBack {l : Lexicon} (hnot : ∀ text, ¬ server.Translates id text) (hl : fallback = some l)
      (hlocale : l.locale.same server.locale = true) (hcontains : l.contains id = true) :
      Resolves server fallback id ((l.get? id).filter Datum.isSomething)
  | missing (hnot : ∀ text, ¬ server.Translates id text)
      (hnone : ∀ l, fallback = some l → l.locale.same server.locale = true →
        l.contains id = false) :
      Resolves server fallback id none

variable {server : CatalogServer} {fallback : Option Lexicon} {id : Datum}

theorem fallbackText_of_isKey (hid : id.isKey = true) (locale : Datum) :
    fallbackText fallback locale id = .ok (fallback.bind fun l =>
      if l.locale.same locale && l.contains id then (l.get? id).filter Datum.isSomething
      else none) := by
  cases fallback with
  | none => rfl
  | some l =>
      unfold fallbackText
      cases hlocale : l.locale.same locale with
      | false => simp [hlocale]
      | true =>
          simp only [hlocale, if_true, Datum.asKey_of_isKey hid, Option.bind_some, Bool.true_and]
          rfl

theorem resolves_of_untranslated (hid : id.isKey = true)
    (hnot : ∀ text, ¬ server.Translates id text) {found : Option Datum} :
    fallbackText fallback server.locale id = .ok found ↔ Resolves server fallback id found := by
  rw [fallbackText_of_isKey hid, Except.ok.injEq]
  constructor
  · rintro rfl
    cases fallback with
    | none => exact .missing hnot (by simp)
    | some l =>
        rw [Option.bind_some]
        split
        · next hmay =>
          obtain ⟨hlocale, hcontains⟩ := Bool.and_eq_true_iff.mp hmay
          exact .fallenBack hnot rfl hlocale hcontains
        · next hmay =>
          refine .missing hnot ?_
          rintro _ ⟨⟩ hlocale
          simpa [hlocale] using hmay
  · intro h
    cases h with
    | translated h => exact absurd h (hnot _)
    | fallenBack _ hl hlocale hcontains => simp [hl, hlocale, hcontains]
    | missing _ hnone =>
        cases fallback with
        | none => rfl
        | some l =>
            refine if_neg fun hmay => ?_
            obtain ⟨hlocale, hcontains⟩ := Bool.and_eq_true_iff.mp hmay
            exact absurd hcontains (by simp [hnone l rfl hlocale])

theorem lineText_of_phrase {phrased : Datum} (h : server.phrase id = .ok phrased) :
    lineText server fallback id =
      if phrased.same id then fallbackText fallback server.locale id else .ok (some phrased) := by
  rw [lineText, h]
  rfl

/-- A line's text comes from the first source that may answer. -/
theorem lineText_eq_ok_iff (hlocale : server.locale.isKey = true) (hid : id.isKey = true)
    (hself : id.same id = true) {found : Option Datum} :
    lineText server fallback id = .ok found ↔ Resolves server fallback id found := by
  have htranslates := @CatalogServer.translates_iff server id
  have hphrase := CatalogServer.phrase_of_isKey hlocale hid
  generalize ((server.phrasebooks.get? server.locale).bind fun p => p.find? id).getD id = phrased
    at hphrase
  rw [lineText_of_phrase hphrase]
  cases hsame : phrased.same id with
  | true =>
      refine resolves_of_untranslated hid fun text htext => ?_
      obtain ⟨heq, hdiffers⟩ := (htranslates hlocale hid hself).mp htext
      cases hphrase.symm.trans heq
      exact absurd hsame (by simp [hdiffers])
  | false =>
      have htext : server.Translates id phrased :=
        (htranslates hlocale hid hself).mpr ⟨hphrase, hsame⟩
      constructor
      · rintro ⟨⟩
        exact .translated htext
      · intro h
        cases h with
        | translated h =>
            obtain ⟨heq, -⟩ := (htranslates hlocale hid hself).mp h
            cases hphrase.symm.trans heq
            rfl
        | fallenBack hnot => exact absurd htext (hnot _)
        | missing hnot => exact absurd htext (hnot _)

/-! ## Readiness -/

theorem fallbackText_of_differs {locale : Datum}
    (h : (fallback.any fun l => l.locale.same locale) = false) :
    fallbackText fallback locale id = .ok none := by
  cases fallback with
  | none => rfl
  | some l => exact if_neg (by simpa using h)

theorem CatalogServer.phrase_of_active_none (h : server.active = .ok none) :
    server.phrase id = .ok id := by
  rw [phrase, h]
  rfl

theorem areLinesAvailable_of_lineText {s : String}
    (h : lineText server fallback id = .ok (some (.text s))) :
    areLinesAvailable server fallback = .ok true := by
  unfold areLinesAvailable
  cases hactive : server.active with
  | error f =>
      rw [lineText, CatalogServer.phrase, hactive] at h
      cases h
  | ok p =>
      cases p with
      | some p => rfl
      | none =>
          show Except.ok (false || _) = _
          rw [Bool.false_or, Except.ok.injEq, ← Bool.not_eq_false]
          intro hdiffers
          rw [lineText_of_phrase (server.phrase_of_active_none hactive),
            fallbackText_of_differs hdiffers] at h
          split at h
          · cases h
          · next hself =>
            -- the line came back as it is: it is a text, and those count as themselves
            cases h
            exact hself (Datum.same_text s)

/-! ## Both -/

/-- Every line is answered from the first source that may answer, and where a line has a text
lines are said to be available. -/
theorem text_from_first_source (server : CatalogServer) (fallback : Option Lexicon) :
    (server.locale.isKey = true → ∀ id : Datum, id.isKey = true → id.same id = true →
      (∃ found, lineText server fallback id = .ok found) ∧
      ∀ found, lineText server fallback id = .ok found ↔ Resolves server fallback id found) ∧
    ∀ id s, lineText server fallback id = .ok (some (.text s)) →
      areLinesAvailable server fallback = .ok true := by
  refine ⟨fun hlocale id hid hself => ⟨?_, fun found => lineText_eq_ok_iff hlocale hid hself⟩,
    fun id s => areLinesAvailable_of_lineText⟩
  rw [lineText_of_phrase (server.phrase_of_isKey hlocale hid)]
  split
  · exact ⟨_, fallbackText_of_isKey hid server.locale⟩
  · exact ⟨_, rfl⟩

/-- A shop in German: a chain of three links, of which the second has no catalog. -/
def germanShop : CatalogServer where
  locale := .text "de"
  phrasebooks := ⟨[(.text "de",
    { first := some ⟨[(.text "line:sign", .text "line:sign")]⟩
      rest := [none,
        some ⟨[(.text "line:sign", .text "Laden"), (.text "line:hello", .text "Hallo")]⟩] })]⟩

/-- The greeting comes from the third link.  The sign stands in the first one, as itself, so
that it is read off the fallback, although the third has a text for it. -/
theorem german_shop_texts :
    let signs : Lexicon :=
      { locale := .text "de", runtime := ⟨[(.text "line:sign", .text "Schild")]⟩ }
    Resolves germanShop (some signs) (.text "line:hello") (some (.text "Hallo")) ∧
    Resolves germanShop (some signs) (.text "line:sign") (some (.text "Schild")) ∧
    areLinesAvailable germanShop (some signs) = .ok true := by
  intro signs
  obtain ⟨htexts, hready⟩ := text_from_first_source germanShop (some signs)
  have hhello :
      lineText germanShop (some signs) (.text "line:hello") = .ok (some (.text "Hallo")) := rfl
  have hsign :
      lineText germanShop (some signs) (.text "line:sign") = .ok (some (.text "Schild")) := rfl
  exact ⟨((htexts rfl _ rfl (Datum.same_text _)).2 _).mp hhello,
    ((htexts rfl _ rfl (Datum.same_text _)).2 _).mp hsign, hready _ _ hhello⟩

end Parley
