import Parley.Interpreter.Rehearsal
import Parley.Proofs.Ending
import Parley.Proofs.Reloading

/-!
# One fallback out of many lexicons

A runner that is given lexicons and no text provider makes the provider itself when it is set
up: every lexicon is merged into the first one, in order, and the first one is the fallback.

| of a line | in the fallback |
|---|---|
| one lexicon or several have a text | the text of the last of them |
| none has one | no text, whether or not it is contained |

Of each lexicon it is the text that a lookup gives, so a string of the host goes before an
entry in it, but an entry of a later lexicon before a string of an earlier one.  The entries of
the first lexicon stay as they are, and so do the others altogether.

Merging the lexicons once more, which is what another runner does that is given them, writes
the same strings under the same lines in the same order.  So it changes no text; and it
changes no table if the lines are compared by an equality that every one of them has to
itself, as texts are.
-/

namespace Parley

theorem Datum.exact_text (s : String) : Keyed.Exact (Datum.text s) := fun d =>
  ⟨Datum.beq_text d s, Datum.text_beq s d⟩

namespace Lexicon

variable {l other : Lexicon} {key : Datum}

/-! ## Merging two -/

/-- The text of a line, if there is any. -/
def text? (l : Lexicon) (key : Datum) : Option Datum := (l.get? key).filter Datum.isSomething

/-- The lines that have a text, with it, in the order in which they are listed. -/
def strings (l : Lexicon) : List (Datum × Datum) :=
  l.lineIds.filterMap fun id => (l.text? id).map fun text => (id, text)

theorem mem_strings_iff {e : Datum × Datum} :
    e ∈ l.strings ↔ e.1 ∈ l.lineIds ∧ l.text? e.1 = some e.2 := by
  unfold strings
  rw [List.mem_filterMap]
  constructor
  · rintro ⟨id, hid, he⟩
    obtain ⟨text, htext, rfl⟩ := Option.map_eq_some_iff.mp he
    exact ⟨hid, htext⟩
  · rintro ⟨hid, htext⟩
    exact ⟨e.1, hid, by rw [htext, Option.map_some]⟩

theorem mem_lineIds_of_get? (h : Keyed.Exact key) {d : Datum} (hd : l.get? key = some d) :
    key ∈ l.lineIds := by
  have hmem : ∀ {α : Type} {t : Keyed Datum α}, (t.get? key).isSome = true → key ∈ t.keys := by
    intro α t ht
    rw [Keyed.isSome_get?] at ht
    obtain ⟨e, he, hkey⟩ := List.any_eq_true.mp ht
    exact (h e.1).1.mp hkey ▸ List.mem_map_of_mem he
  rcases get?_eq_some_iff.mp hd with hruntime | ⟨-, e, he, -⟩
  · exact List.mem_append_left _ (hmem (Option.isSome_of_eq_some hruntime))
  · exact List.mem_append_right _ (hmem (Option.isSome_of_eq_some he))

theorem merge_eq (l other : Lexicon) :
    l.merge other = { l with runtime := l.runtime.insertAll other.strings } := by
  unfold merge strings
  generalize other.lineIds = ids
  induction ids generalizing l with
  | nil => rfl
  | cons id ids ih =>
      rw [List.foldl_cons, ih, List.filterMap_cons, text?]
      cases other.get? id with
      | none => rfl
      | some d => cases d <;> rfl

/-- Under a line the other has a text for, that text is found, and under any other line what
was found there before. -/
theorem get?_merge (h : Keyed.Exact key) (l other : Lexicon) :
    (l.merge other).get? key = (other.text? key).or (l.get? key) := by
  rw [merge_eq]
  cases htext : other.text? key with
  | none =>
      have habsent : ∀ e ∈ other.strings, e.1 ≠ key := by
        rintro e he rfl
        rw [(mem_strings_iff.mp he).2] at htext
        cases htext
      rw [get?, Keyed.get?_insertAll_of_not_mem h habsent]
      rfl
  | some text =>
      have hsame : ∀ e ∈ other.strings, e.1 = key → e.2 = text := by
        rintro e he rfl
        have hboth := (mem_strings_iff.mp he).2.symm.trans htext
        exact Option.some.inj hboth
      have hthere : ∃ e ∈ other.strings, e.1 = key := by
        obtain ⟨hd, -⟩ := Option.filter_eq_some_iff.mp htext
        exact ⟨(key, text), mem_strings_iff.mpr ⟨mem_lineIds_of_get? h hd, htext⟩, rfl⟩
      rw [get?, Keyed.get?_insertAll_of_mem h hsame hthere]
      rfl

theorem text?_merge (h : Keyed.Exact key) (l other : Lexicon) :
    (l.merge other).text? key = (other.text? key).or (l.text? key) := by
  rw [text?, get?_merge h]
  cases htext : other.text? key with
  | none => rfl
  | some text =>
      obtain ⟨-, hsomething⟩ := Option.filter_eq_some_iff.mp htext
      rw [Option.some_or, Option.some_or]
      exact Option.filter_eq_some_iff.mpr ⟨rfl, hsomething⟩

/-! ## Merging a list -/

theorem foldl_merge_eq (first : Lexicon) (others : List Lexicon) :
    others.foldl merge first =
      { first with runtime := first.runtime.insertAll (others.flatMap strings) } := by
  induction others generalizing first with
  | nil => rfl
  | cons other others ih =>
      rw [List.foldl_cons, ih, merge_eq, List.flatMap_cons]
      simp only [Keyed.insertAll, List.foldl_append]

/-- The last lexicon that has a text for the line decides. -/
theorem text?_foldl_merge (h : Keyed.Exact key) (first : Lexicon) (others : List Lexicon) :
    (others.foldl merge first).text? key =
      (first :: others).reverse.findSome? fun l => l.text? key := by
  induction others generalizing first with
  | nil => simp
  | cons other others ih =>
      calc (others.foldl merge (first.merge other)).text? key
          = (first.merge other :: others).reverse.findSome? (fun l => l.text? key) := ih _
        _ = (others.reverse.findSome? fun l => l.text? key).or
              ((other.text? key).or (first.text? key)) := by
            rw [List.reverse_cons, List.findSome?_append, List.findSome?_singleton,
              text?_merge h]
        _ = (first :: other :: others).reverse.findSome? fun l => l.text? key := by
            rw [List.reverse_cons, List.reverse_cons, List.append_assoc, List.findSome?_append,
              List.findSome?_append, List.findSome?_singleton, List.findSome?_singleton]

theorem text?_foldl_merge_again (h : Keyed.Exact key) (first : Lexicon) (others : List Lexicon) :
    (others.foldl merge (others.foldl merge first)).text? key =
      (others.foldl merge first).text? key := by
  rw [text?_foldl_merge h, List.reverse_cons, List.findSome?_append, List.findSome?_singleton,
    text?_foldl_merge h, List.reverse_cons, List.findSome?_append, ← Option.or_assoc,
    Option.or_self]

/-- Merging the same lexicons again changes nothing at all if each of their lines counts as
itself. -/
theorem foldl_merge_again {others : List Lexicon}
    (hself : ∀ l ∈ others, ∀ id ∈ l.lineIds, id.same id = true) (first : Lexicon) :
    others.foldl merge (others.foldl merge first) = others.foldl merge first := by
  have hkeys : ∀ e ∈ others.flatMap strings, (e.1 == e.1) = true := by
    intro e he
    obtain ⟨l, hl, he⟩ := List.mem_flatMap.mp he
    exact hself l hl e.1 (mem_strings_iff.mp he).1
  rw [foldl_merge_eq first, foldl_merge_eq, Keyed.insertAll_insertAll hkeys]

end Lexicon

namespace Session

open Act

variable {H I L : Type}

/-! ## Setting up -/

/-- The provider and the lexicons are the same. -/
def SameTexts (w w' : World H I) : Prop :=
  w'.provider = w.provider ∧ w'.lexicons = w.lexicons

instance : OverlooksReloading (SameTexts : World H I → World H I → Prop) where
  refl _ := ⟨rfl, rfl⟩
  trans _ _ _ := fun h₁ h₂ => ⟨h₂.1.trans h₁.1, h₂.2.trans h₁.2⟩
  reloading _ _ _ := ⟨rfl, rfl⟩

theorem setup_merges {ip : Interpreter I L} {factory : Option I} {w w' : World H I}
    {r : Except Fault Unit} {first : Lexicon} {others : List Lexicon}
    (hprovider : w.provider = none) (hlexicons : w.lexicons = first :: others)
    (hfactory : factory.or w.factory ≠ none) (h : Yields (setup ip factory) w r w') :
    w'.provider = some { fallback := some (others.foldl Lexicon.merge first) } ∧
      w'.lexicons = others.foldl Lexicon.merge first :: others := by
  obtain ⟨core, hcore⟩ := Option.ne_none_iff_exists'.mp hfactory
  have hreload := (yields_setup hcore).mp h
  obtain ⟨hprovider', hlexicons'⟩ := reload_keeps_rest (R := SameTexts) ip _ _ _ hreload
  refine ⟨hprovider'.trans ?_, hlexicons'.trans ?_⟩ <;>
    simp [World.equipped, World.provided, hprovider, hlexicons, Lexicon.mergeAll]

/-- Asked to set up, the runner comes to an end, whatever it is, with this fallback and these
lexicons after it in its list. -/
def FallsBackOn (ip : Interpreter I L) (react : Host H I) (fuel : Nat) (factory : Option I)
    (w : World H I) (fallback : Lexicon) (others : List Lexicon) : Prop :=
  ∃ a w', Yields (exec ip react fuel (.setup factory)) w a w' ∧ w'.fallback = some fallback ∧
    w'.lexicons = fallback :: others

theorem fallsBackOn_merged {ip : Interpreter I L} {react : Host H I} {fuel : Nat}
    {factory : Option I} {w : World H I} {first : Lexicon} {others : List Lexicon}
    (hprovider : w.provider = none) (hlexicons : w.lexicons = first :: others)
    (hfactory : factory.or w.factory ≠ none) :
    FallsBackOn ip react (fuel + 1) factory w (others.foldl Lexicon.merge first) others := by
  obtain ⟨r, w', hsetup⟩ := setup_ends ip factory w
  obtain ⟨hprovider', hlexicons'⟩ := setup_merges hprovider hlexicons hfactory hsetup
  refine ⟨r.map fun _ => .done, w', ?_, ?_, hlexicons'⟩
  · exact yields_exec.mpr ⟨fuel, rfl, yields_bind_pure.mpr ⟨r, hsetup, rfl⟩⟩
  · rw [World.fallback, hprovider', Option.bind_some]

/-- A runner with lexicons and without a provider is set up with the first lexicon as the
fallback.  In it a line, which like any text is the same as nothing but itself
(`Datum.exact_text`), has the text of the last lexicon that had one; its entries and all other
lexicons are as before.  Setting up another runner with the lexicons as they are now changes no
text of a line, and no table if every line of the others counts as itself. -/
theorem setup_merges_in_order (ip : Interpreter I L) (react : Host H I) (fuel : Nat)
    (factory : Option I) {w : World H I} {first : Lexicon} {others : List Lexicon}
    (hprovider : w.provider = none) (hlexicons : w.lexicons = first :: others)
    (hfactory : factory.or w.factory ≠ none) :
    ∃ merged, FallsBackOn ip react (fuel + 1) factory w merged others ∧
      merged = { first with runtime := merged.runtime } ∧
      (∀ key, Keyed.Exact key →
        merged.text? key = (first :: others).reverse.findSome? fun l => l.text? key) ∧
      ∀ (ip' : Interpreter I L) (react' : Host H I) (fuel' : Nat) (factory' : Option I)
        (u : World H I), u.provider = none → u.lexicons = merged :: others →
        factory'.or u.factory ≠ none →
        ∃ again, FallsBackOn ip' react' (fuel' + 1) factory' u again others ∧
          again = { merged with runtime := again.runtime } ∧
          (∀ key, Keyed.Exact key → again.text? key = merged.text? key) ∧
          ((∀ l ∈ others, ∀ id ∈ l.lineIds, id.same id = true) → again = merged) := by
  have hassets : ∀ l : Lexicon, others.foldl Lexicon.merge l =
      { l with runtime := (others.foldl Lexicon.merge l).runtime } := by
    intro l
    rw [Lexicon.foldl_merge_eq]
  refine ⟨_, fallsBackOn_merged hprovider hlexicons hfactory, hassets first,
    fun key hkey => Lexicon.text?_foldl_merge hkey first others, ?_⟩
  intro ip' react' fuel' factory' u hprovider' hlexicons' hfactory'
  exact ⟨_, fallsBackOn_merged hprovider' hlexicons' hfactory', hassets _,
    fun key hkey => Lexicon.text?_foldl_merge_again hkey first others,
    fun hself => Lexicon.foldl_merge_again hself first⟩

/-- Three lexicons, each with a greeting.  The last has a parting too, in a string and in an
entry, and the first has one of which there is nothing. -/
def greetings : List Lexicon :=
  [{ locale := .text "de"
     assets := ⟨[(.text "hi", { id := .text "hi", text := .text "Hallo" }),
       (.text "bye", { id := .text "bye", text := .nothing })]⟩ },
    { locale := .text "de", runtime := ⟨[(.text "hi", .text "Moin")]⟩ },
    { locale := .text "de"
      assets := ⟨[(.text "hi", { id := .text "hi", text := .text "Servus" }),
        (.text "bye", { id := .text "bye", text := .text "Ade" })]⟩
      runtime := ⟨[(.text "bye", .text "Pfiat di")]⟩ }]

/-- Both lines come from the last lexicon, the parting from the host's string; so they do for a
second runner. -/
theorem setup_merges_in_order_of_greetings :
    let w : World Unit Rehearsal.State := { host := (), lexicons := greetings, factory := some {} }
    let react : Host Unit Rehearsal.State := fun host _ => .finish host (.ok .nothing)
    ∃ merged, FallsBackOn Rehearsal.interpreter react 1 none w merged greetings.tail ∧
      merged.text? (.text "hi") = some (.text "Servus") ∧
      merged.text? (.text "bye") = some (.text "Pfiat di") ∧
      FallsBackOn Rehearsal.interpreter react 1 none { w with lexicons := merged :: greetings.tail }
        merged greetings.tail := by
  intro w react
  obtain ⟨merged, hsetup, -, htexts, hagain⟩ :=
    setup_merges_in_order Rehearsal.interpreter react 0 none (w := w) rfl rfl nofun
  obtain ⟨again, hsecond, -, -, hsame⟩ := hagain Rehearsal.interpreter react 0 none
    { w with lexicons := merged :: greetings.tail } rfl rfl nofun
  have hself : ∀ l ∈ greetings.tail, ∀ id ∈ l.lineIds, id.same id = true := by decide
  refine ⟨merged, hsetup, (htexts _ (Datum.exact_text _)).trans rfl,
    (htexts _ (Datum.exact_text _)).trans rfl, ?_⟩
  rw [hsame hself] at hsecond
  exact hsecond

end Session

end Parley
