import Parley.Proofs.Announcing
import Mathlib.Data.List.Forall2
import Mathlib.Data.List.TakeWhile

/-!
# What a request writes

Two interfaces write to one table, and they refuse a write differently.

| | the host's `setVariable` | the interpreter's `setValue` |
| :-- | :-- | :-- |
| it takes | truth values, integers, doubles, texts, script values | script values |
| a name that is not valid | a result says so | a fault |
| a value that cannot be stored | a result says so | a fault, whatever the name |
| the rest of a batch | is attempted | is not |

What the table holds afterwards depends on none of this but the last row.  A write is
accepted or it is not (`accepted?`, `acceptedValue?`), and `changes` is what a request
changes: the accepted writes, each with the value it is stored as, and clearings.
`exec_attends` says that a request comes to an answer and makes these changes;
`Run.changes` that a run does.

A write of the host can also raise (`raises`), and then its batch is not attempted any further.
With a text for a sigil only an integer can be the reason: one too large for a double, or for the
text of the warning.

Listeners must be attentive here (`Host.Attends`).  One that fails ends the request, one
that writes has a say in what is written, and of neither can anything be said in advance.
-/

namespace Parley

/-! ## Host data and script values -/

/-- What the datum is stored as, if it can be stored. -/
def Datum.normal? : Datum → Option Datum
  | .bool b => some (.bool b)
  | .int i => (Double.ofInt? i).map .float
  | .float x => some (.float x)
  | .text s => some (.text s)
  | .boolean p => some (.bool p.truth)
  | .number x => some (.float x)
  | .string p => if p.hasText then some (.text p.plain) else none
  | _ => none

/-- Data of the three classes that are stored. -/
inductive Datum.Hosted : Datum → Prop where
  | bool (b : Bool) : Hosted (.bool b)
  | float (x : Double) : Hosted (.float x)
  | text (s : String) : Hosted (.text s)

/-- The script value of the same class with the same payload. -/
def Datum.asValue : Datum → Datum
  | .bool b => .boolean (.bool b)
  | .float x => .number x
  | .text s => .string (.text s)
  | d => d

/-- Is the datum one of the three kinds of script value? -/
def Datum.isScript : Datum → Bool
  | .boolean _ | .number _ | .string _ => true
  | _ => false

/-- Has the datum an integer in it that stands in the way of storing or refusing it: one
too large for a double, or for the text it would have to be told by? -/
def Datum.tooLarge : Datum → Bool
  | .int i => (Double.ofInt? i).isNone
  | .boolean _ => false
  | d => !d.hasText

namespace Datum

theorem hosted_of_normal {d e : Datum} (h : d.normal? = some e) : e.Hosted := by
  cases d with
  | bool b | float x | text s | boolean p | number x =>
      cases h
      constructor
  | int i =>
      obtain ⟨x, -, rfl⟩ := Option.map_eq_some_iff.mp h
      exact .float x
  | string p =>
      obtain ⟨-, h⟩ := Option.ite_none_right_eq_some.mp h
      cases h
      exact .text _
  | _ => cases h

theorem Hosted.toValue {d : Datum} (h : d.Hosted) : d.toValue = .ok d.asValue := by
  cases h <;> rfl

theorem Hosted.normal {d : Datum} (h : d.Hosted) : d.normal? = some d := by
  cases h <;> rfl

theorem toValue_int (i : Int) : (Datum.int i).toValue =
    (Double.ofInt? i).elim (.error (.accident .overflow)) fun x => .ok (.number x) := by
  unfold toValue
  rw [if_neg (by simp [isValue])]
  -- under its own name the rounding would be computed, in quanta
  obtain ⟨f, hf⟩ : ∃ f, f = Double.ofInt? := ⟨_, rfl⟩
  rw [← hf]
  dsimp only
  cases f i <;> rfl

theorem toHost_eq_ok {d e : Datum} :
    d.toHost = .ok e ↔ d.isScript = true ∧ d.normal? = some e := by
  cases d with
  | string p => by_cases hp : p.hasText = true <;> simp [toHost, isScript, normal?, hp]
  | _ => simp [toHost, isScript, normal?]

end Datum

theorem noScriptForm_isA (d : Datum) : (Fault.noScriptForm d).isA .conversion = true := by
  show ErrorClass.conversion.isA .conversion = true
  decide +kernel

theorem noHostForm_isA (d : Datum) : (Fault.noHostForm d).isA .conversion = true := by
  show ErrorClass.conversion.isA .conversion = true
  decide +kernel

theorem value_not_isA : (Fault.accident .value).isA .conversion = false := by decide +kernel

theorem overflow_not_isA : (Fault.accident .overflow).isA .conversion = false := by decide +kernel

theorem isA_telling (d : Datum) {f : Fault} (hf : f.isA .conversion = true) :
    (Fault.telling d f).isA .conversion = d.hasText := by
  unfold Fault.telling
  split
  · next h => rw [hf, h]
  · next h =>
    rw [Bool.not_eq_true] at h
    rw [h, value_not_isA]

namespace Session

open Act

/-- A datum is stored in its normal form, or refused, or an integer stands in the way. -/
theorem stored_cases (d : Datum) :
    (∃ e, d.normal? = some e ∧ d.tooLarge = false ∧ stored d = .ok e) ∨
    d.normal? = none ∧ ∃ f, stored d = .error f ∧ f.isA .conversion = !d.tooLarge := by
  have htelling : ∀ f : Fault, f.isA .conversion = true → d.tooLarge = !d.hasText →
      (Fault.telling d f).isA .conversion = !d.tooLarge := by
    intro f hf hd
    rw [isA_telling d hf, hd, Bool.not_not]
  cases d with
  | bool b | float x | text s | boolean p | number x => exact .inl ⟨_, rfl, rfl, rfl⟩
  | int i =>
      have hvalue := Datum.toValue_int i
      cases hi : Double.ofInt? i with
      | some x =>
          rw [hi] at hvalue
          refine .inl ⟨.float x, by simp [Datum.normal?, hi], by simp [Datum.tooLarge, hi], ?_⟩
          rw [stored, hvalue]
          rfl
      | none =>
          rw [hi] at hvalue
          refine .inr ⟨by simp [Datum.normal?, hi], .accident .overflow, ?_, ?_⟩
          · rw [stored, hvalue]
            rfl
          · simp [overflow_not_isA, Datum.tooLarge, hi]
  | string p =>
      have hstored : stored (.string p) =
          if p.hasText then .ok (.text p.plain) else .error (.accident .value) := rfl
      by_cases hp : p.hasText = true
      · rw [if_pos hp] at hstored
        exact .inl ⟨.text p.plain, by simp [Datum.normal?, hp],
          by simp [Datum.tooLarge, Datum.hasText, hp], hstored⟩
      · rw [if_neg hp] at hstored
        refine .inr ⟨by simp [Datum.normal?, hp], .accident .value, hstored, ?_⟩
        simp [value_not_isA, Datum.tooLarge, Datum.hasText, hp]
  | bare p => exact .inr ⟨rfl, .telling _ _, rfl, htelling _ (noHostForm_isA _) rfl⟩
  | nothing | bytes | list | tuple | dict | error =>
      exact .inr ⟨rfl, .telling _ _, rfl, htelling _ (noScriptForm_isA _) rfl⟩

/-! ## What requests change -/

/-- The change that a write of the host makes, if its name and its value are accepted. -/
def accepted? (s : Settings) (e : Datum × Datum) : Option Notice :=
  match isValidName s e.1 with
  | .ok true => e.2.normal?.map (.variableChanged e.1)
  | _ => none

/-- The change that a write of the interpreter makes, which writes script values only. -/
def acceptedValue? (s : Settings) (e : Datum × Datum) : Option Notice :=
  if e.2.isScript then accepted? s e else none

/-- Does a write of the host raise where it should have a result?  There is no telling whether
the name is valid, or an integer stands in the way. -/
def raises (s : Settings) (e : Datum × Datum) : Bool :=
  match isValidName s e.1 with
  | .ok true => e.2.tooLarge
  | .ok false => s.sigil.toOption.isNone
  | .error _ => true

/-- A batch of the host attempts every entry, unless one raises. -/
def hostBatch (s : Settings) (entries : List (Datum × Datum)) : List Notice :=
  (entries.takeWhile fun e => !raises s e).filterMap (accepted? s)

/-- A batch of the interpreter ends at the first entry that is not accepted. -/
def valueBatch (s : Settings) (entries : List (Datum × Datum)) : List Notice :=
  (entries.takeWhile fun e => (acceptedValue? s e).isSome).filterMap (acceptedValue? s)

theorem hostBatch_cons {s : Settings} {e : Datum × Datum} (h : raises s e = false)
    (entries : List (Datum × Datum)) :
    hostBatch s (e :: entries) = (accepted? s e).toList ++ hostBatch s entries := by
  simp only [hostBatch, List.takeWhile_cons, h, Bool.not_false, if_true, List.filterMap_cons]
  cases accepted? s e <;> rfl

theorem valueBatch_cons {s : Settings} {e : Datum × Datum}
    (h : (acceptedValue? s e).isSome = true) (entries : List (Datum × Datum)) :
    valueBatch s (e :: entries) = (acceptedValue? s e).toList ++ valueBatch s entries := by
  simp only [valueBatch, List.takeWhile_cons, h, if_true, List.filterMap_cons]
  cases acceptedValue? s e <;> rfl

theorem isValidName_cases {s : Settings} {sigil : String} (hsigil : s.sigil = .ok (.text sigil))
    (name : Datum) : isValidName s name = .ok true ∨ isValidName s name = .ok false := by
  cases name with
  | text name =>
      rw [isValidName, hsigil]
      show Except.ok (sigil.isPrefixOf name) = _ ∨ Except.ok (sigil.isPrefixOf name) = _
      cases sigil.isPrefixOf name <;> simp
  | _ => exact .inr rfl

variable {H I L : Type}

/-- The changes a request about variables makes, in order. -/
def changes (s : Settings) : Request I → List Notice
  | .setVariable name value => (accepted? s (name, value)).toList
  | .setVariables entries => hostBatch s entries
  | .clearVariables => [.storeCleared]
  | .restoreState entries => .storeCleared :: hostBatch s entries
  | .setValue name value => (acceptedValue? s (name, value)).toList
  | .setValues entries => valueBatch s entries
  | _ => []

/-- What a write of the host comes to. -/
def attempted (s : Settings) (e : Datum × Datum) : Except Fault WriteResult :=
  match isValidName s e.1 with
  | .error f => .error f
  | .ok true => match stored e.2 with
    | .ok _ => .ok .ok
    | .error f => if f.isA .conversion then .ok .unknown else .error f
  | .ok false => s.sigil.map fun _ => .invalidName

/-- What a batch of the host comes to: a result for each entry, up to the first that raises. -/
def attemptedAll (s : Settings) (entries : List (Datum × Datum)) :
    Except Fault (List (Datum × WriteResult)) :=
  entries.mapM fun e => (attempted s e).map fun result => (e.1, result)

/-- The result of a write by the host says whether it was accepted. -/
structure Wrote (s : Settings) (e : Datum × Datum) (r : Except Fault WriteResult) : Prop where
  accepted : r = .ok .ok ↔ (accepted? s e).isSome = true
  raised : (∃ f, r = .error f) ↔ raises s e = true

theorem wrote_attempted (s : Settings) (e : Datum × Datum) : Wrote s e (attempted s e) := by
  unfold attempted
  cases hvalid : isValidName s e.1 with
  | error f => exact ⟨by simp [accepted?, hvalid], by simp [raises, hvalid]⟩
  | ok valid =>
      cases valid with
      | true =>
          rcases stored_cases e.2 with ⟨d, hnormal, hlarge, hstored⟩ | ⟨hnormal, f, hstored, hf⟩
          · exact ⟨by simp [accepted?, hvalid, hnormal, hstored],
              by simp [raises, hvalid, hlarge, hstored]⟩
          · cases hlarge : e.2.tooLarge <;> rw [hlarge] at hf <;>
              exact ⟨by simp [accepted?, hvalid, hnormal, hstored, hf],
                by simp [raises, hvalid, hlarge, hstored, hf]⟩
      | false =>
          cases hsigil : s.sigil <;>
            exact ⟨by simp [accepted?, hvalid, Except.map],
              by simp [raises, hvalid, hsigil, Except.map, Except.toOption]⟩

theorem Wrote.none_of_error {s : Settings} {e : Datum × Datum} {f : Fault}
    (h : Wrote s e (.error f)) : accepted? s e = none := by
  cases haccepted : accepted? s e with
  | none => rfl
  | some n => cases h.accepted.mpr (by rw [haccepted]; rfl)

theorem attemptedAll_cases (s : Settings) (entries : List (Datum × Datum)) :
    (∃ results, attemptedAll s entries = .ok results ∧ List.Forall₂ (fun e x => x.1 = e.1 ∧
      (x.2 = .ok ↔ (accepted? s e).isSome = true)) entries results) ∨
    (∃ f, attemptedAll s entries = .error f) ∧ ∃ e ∈ entries, raises s e = true := by
  induction entries with
  | nil => exact .inl ⟨[], rfl, .nil⟩
  | cons e entries ih =>
      unfold attemptedAll
      rw [List.mapM_cons]
      have hwrote := wrote_attempted s e
      cases hattempted : attempted s e with
      | error f =>
          rw [hattempted] at hwrote
          exact .inr ⟨⟨f, rfl⟩, e, List.mem_cons_self, hwrote.raised.mp ⟨f, rfl⟩⟩
      | ok result =>
          rw [hattempted] at hwrote
          rcases ih with ⟨results, hresults, hall⟩ | ⟨⟨f, hf⟩, e', he', hraises⟩
          · unfold attemptedAll at hresults
            rw [hresults]
            refine .inl ⟨(e.1, result) :: results, rfl, .cons ⟨rfl, ?_⟩ hall⟩
            rw [← hwrote.accepted, Except.ok.injEq]
          · unfold attemptedAll at hf
            rw [hf]
            exact .inr ⟨⟨f, rfl⟩, e', List.mem_cons_of_mem e he', hraises⟩

end Session

/-! ## Requests with attentive listeners -/

/-- The changes one after another. -/
def Stock.changeAll (s : Stock) (ns : List Notice) : Stock := ns.foldl Stock.change s

theorem Stock.changeAll_append (s : Stock) (ns ms : List Notice) :
    s.changeAll (ns ++ ms) = (s.changeAll ns).changeAll ms := List.foldl_append

theorem Stock.changeAll_eq (s : Stock) (ns : List Notice) : s.changeAll ns =
    { s with store := ns.foldl (fun t n => n.play t) s.store, announced := s.announced ++ ns } := by
  induction ns generalizing s with
  | nil => simp [changeAll]
  | cons n ns ih =>
      show (s.change n).changeAll ns = _
      rw [ih]
      simp [change]

theorem World.same_of_changeAll {H I : Type} {w w' : World H I} {ns : List Notice}
    (h : w'.stock = w.stock.changeAll ns) :
    w'.settings = w.settings ∧ w'.writeStub = w.writeStub := by
  rw [Stock.changeAll_eq] at h
  exact ⟨congrArg Stock.settings h, congrArg Stock.writeStub h⟩

/-- Told of a change of the variables, the host asks for nothing and does not fail. -/
def Host.Attends {H I : Type} (react : Host H I) : Prop :=
  ∀ host l n, n.isChange = true →
    ∃ host' d, react host (.listener l n) = .finish host' (.ok d)

/-- Under the settings, calling a listener about a change comes to an answer, and the worlds
are related. -/
def Invoke.Answers {H I : Type} (R : World H I → World H I → Prop) (s : Settings)
    (invoke : Invoke H I) : Prop :=
  ∀ l n, n.isChange = true → ∀ w, w.settings = s →
    ∃ d w', Act.Yields (invoke (.listener l n)) w (.ok d) w' ∧ R w w'

/-- It leaves the stock alone. -/
def Invoke.Attends {H I : Type} (invoke : Invoke H I) : Prop :=
  ∀ s, invoke.Answers (OnStock Eq) s

/-- The notices are told one after another, and all that happens in between keeps `R`. -/
inductive Tells {H I : Type} (R : World H I → World H I → Prop) :
    List Notice → World H I → World H I → Prop where
  | rest {w w' : World H I} : R w w' → Tells R [] w w'
  | tell {n : Notice} {ns : List Notice} {w u w' : World H I} : R w u →
      Tells R ns (u.tell n) w' → Tells R (n :: ns) w w'

/-- The relation leaves what writes go by as it is. -/
def Steady {H I : Type} (R : World H I → World H I → Prop) : Prop :=
  ∀ w w', R w w' → w'.settings = w.settings ∧ w'.writeStub = w.writeStub

namespace Tells

variable {H I : Type} {R : World H I → World H I → Prop} {ns ms : List Notice} {w u w' : World H I}

theorem after [IsPreorder (World H I) R] (hR : R w u) (h : Tells R ns u w') : Tells R ns w w' := by
  cases h with
  | rest h => exact .rest (trans_of R hR h)
  | tell h hrest => exact .tell (trans_of R hR h) hrest

theorem append [IsPreorder (World H I) R] (h : Tells R ns w u) (h' : Tells R ms u w') :
    Tells R (ns ++ ms) w w' := by
  induction h with
  | rest hR => exact h'.after hR
  | tell hR _ ih => exact .tell hR (ih h')

theorem steady (hR : Steady R) (h : Tells R ns w w') :
    w'.settings = w.settings ∧ w'.writeStub = w.writeStub := by
  induction h with
  | rest h => exact hR _ _ h
  | tell h _ ih =>
      obtain ⟨hsettings, hstub⟩ := hR _ _ h
      exact ⟨ih.1.trans hsettings, ih.2.trans hstub⟩

theorem stock (h : Tells (OnStock Eq) ns w w') : w'.stock = w.stock.changeAll ns := by
  induction h with
  | rest h => exact h.symm
  | tell h _ ih =>
      rw [ih, show World.stock _ = _ from h]
      rfl

end Tells

theorem steady_onStock_eq {H I : Type} : Steady (OnStock Eq : World H I → World H I → Prop) :=
  fun _ _ h => ⟨(congrArg Stock.settings h).symm, (congrArg Stock.writeStub h).symm⟩

namespace Session

open Act

theorem callHost_attends {react : Host H I} (hreact : react.Attends)
    (answer : Request I → Act H I Answer) : Invoke.Attends (callHost react answer) := by
  intro _ l n hn w _
  obtain ⟨host', d, hscript⟩ := hreact w.host l n hn
  exact ⟨d, _, (yields_callHost_of_finish hscript).mpr ⟨rfl, rfl⟩, rfl⟩

section
variable {R : World H I → World H I → Prop} [Overlooks R] {s : Settings} {invoke : Invoke H I}
  (hinvoke : invoke.Answers R s) (hsteady : Steady R)
include hinvoke hsteady

theorem listeners_answer {n : Notice} (hn : n.isChange = true) (ls : List Listener)
    {w : World H I} (hw : w.settings = s) : ∃ w',
      Yields (ls.forM fun l => discard (invoke (.listener l n))) w (.ok ⟨⟩) w' ∧ R w w' := by
  induction ls generalizing w with
  | nil => exact ⟨w, yields_pure.mpr ⟨rfl, rfl⟩, refl_of R w⟩
  | cons l ls ih =>
      obtain ⟨d, w₁, hcall, hR₁⟩ := hinvoke l n hn w hw
      obtain ⟨w₂, hrest, hR₂⟩ := ih ((hsteady _ _ hR₁).1.trans hw)
      have hfirst : Yields (discard (invoke (.listener l n))) w (.ok ⟨⟩) w₁ :=
        yields_discard.mpr ⟨_, hcall, rfl⟩
      exact ⟨w₂, yields_bind.mpr (.inl ⟨_, w₁, hfirst, hrest⟩), trans_of R hR₁ hR₂⟩

variable [OverlooksBus R]

theorem changed_answers {f : World H I → World H I} {n : Notice} (hn : n.isChange = true)
    (hf : ∀ w, ({ f w with announced := (f w).announced ++ [n] } : World H I) = w.tell n)
    {w : World H I} (hw : w.settings = s) :
    ∃ w', Yields (modify f >>= fun _ => announce invoke n) w (.ok ()) w' ∧ Tells R [n] w w' := by
  have htold : ∀ u : World H I, u.settings = s → ∃ w',
      Yields (do if (← get).announces then publish invoke n) u (.ok ()) w' ∧ R u w' := by
    intro u hsettings
    by_cases hu : u.announces = true
    · let sent : World H I := { u with published := u.published ++ [n] }
      obtain ⟨w', hpublish, hR⟩ :=
        listeners_answer hinvoke hsteady hn (w := sent) (u.bus.listeners n.kind) hsettings
      refine ⟨w', yields_get_bind.mpr ?_, trans_of R (OverlooksBus.published u n) hR⟩
      rw [if_pos hu]
      exact yields_modify_bind.mpr (yields_get_bind.mpr hpublish)
    · refine ⟨u, yields_get_bind.mpr ?_, refl_of R u⟩
      rw [if_neg hu]
      exact yields_pure.mpr ⟨rfl, rfl⟩
  obtain ⟨w', hannounced, hR⟩ := htold (w.tell n) hw
  refine ⟨w', yields_modify_bind.mpr ?_, .tell (refl_of R w) (.rest hR)⟩
  unfold announce
  refine yields_modify_bind.mpr ?_
  rw [hf]
  exact hannounced

theorem assign_answers (name value : Datum) {w : World H I} (hw : w.settings = s) :
    ∃ w', Yields (assign invoke name value) w (.ok ()) w' ∧
      Tells R [.variableChanged name value] w w' :=
  changed_answers hinvoke hsteady rfl (fun _ => rfl) hw

theorem clearVariables_answers {w : World H I} (hw : w.settings = s) :
    ∃ w', Yields (clearVariables invoke) w (.ok ()) w' ∧ Tells R [.storeCleared] w w' :=
  changed_answers hinvoke hsteady rfl (fun _ => rfl) hw

/-- Listeners that do not fail have no say in what a write comes to. -/
theorem setVariable_answers {w : World H I} (hw : w.settings = s) (hstub : w.writeStub = none)
    (name value : Datum) :
    ∃ w', Yields (setVariable invoke name value) w (attempted s (name, value)) w' ∧
      Tells R (accepted? s (name, value)).toList w w' := by
  have hlogged : ∀ note, Tells R [] w { w with journal := w.journal ++ [.log note] } := fun note =>
    .rest (keeps_log note w _ _ (yields_modify.mpr ⟨rfl, rfl⟩))
  unfold setVariable
  simp only [yields_get_bind, hstub, hw]
  cases hvalid : isValidName s name with
  | error f =>
      refine ⟨w, yields_of_error_bind.mpr ⟨by simp [attempted, hvalid], rfl⟩, ?_⟩
      rw [show accepted? s (name, value) = none by simp [accepted?, hvalid]]
      exact .rest (refl_of R w)
  | ok valid =>
      simp only [yields_of_ok_bind]
      cases valid with
      | true =>
          rw [if_pos rfl]
          rcases stored_cases value with ⟨d, hnormal, -, hstored⟩ | ⟨hnormal, f, hstored, -⟩
          · obtain ⟨w', hassign, htells⟩ := assign_answers hinvoke hsteady name d hw
            rw [show accepted? s (name, value) = some (.variableChanged name d) by
                simp [accepted?, hvalid, hnormal],
              show attempted s (name, value) = .ok .ok by
                simp [attempted, hvalid, hstored], hstored]
            exact ⟨w', yields_bind_pure.mpr ⟨_, hassign, rfl⟩, htells⟩
          · rw [show accepted? s (name, value) = none by
              simp [accepted?, hvalid, hnormal], hstored]
            dsimp only
            cases hf : f.isA .conversion with
            | true =>
                rw [show attempted s (name, value) = .ok .unknown by
                  simp [attempted, hvalid, hstored, hf]]
                exact ⟨_, yields_modify_bind.mpr (yields_pure.mpr ⟨rfl, rfl⟩), hlogged _⟩
            | false =>
                rw [show attempted s (name, value) = .error f by
                  simp [attempted, hvalid, hstored, hf]]
                exact ⟨w, yields_throw.mpr ⟨rfl, rfl⟩, .rest (refl_of R w)⟩
      | false =>
          rw [show accepted? s (name, value) = none by simp [accepted?, hvalid],
            if_neg Bool.false_ne_true]
          cases hsigil : s.sigil with
          | error f =>
              rw [show attempted s (name, value) = .error f by
                simp [attempted, hvalid, hsigil, Except.map]]
              exact ⟨w, yields_of_error_bind.mpr ⟨rfl, rfl⟩, .rest (refl_of R w)⟩
          | ok sigil =>
              rw [show attempted s (name, value) = .ok .invalidName by
                simp [attempted, hvalid, hsigil, Except.map]]
              exact ⟨_, yields_of_ok_bind.mpr (yields_modify_bind.mpr (yields_pure.mpr ⟨rfl, rfl⟩)),
                hlogged _⟩

theorem setVariables_answers {w : World H I} (hw : w.settings = s) (hstub : w.writeStub = none)
    (entries : List (Datum × Datum)) :
    ∃ w', Yields (setVariables invoke entries) w (attemptedAll s entries) w' ∧
      Tells R (hostBatch s entries) w w' := by
  induction entries generalizing w with
  | nil => exact ⟨w, yields_pure.mpr ⟨rfl, rfl⟩, .rest (refl_of R w)⟩
  | cons e entries ih =>
      unfold setVariables attemptedAll
      rw [List.mapM_cons, List.mapM_cons]
      obtain ⟨w₁, hset, htells₁⟩ := setVariable_answers hinvoke hsteady hw hstub e.1 e.2
      have hwrote := wrote_attempted s e
      have hfirst : Yields (do return (e.1, ← setVariable invoke e.1 e.2)) w
          ((attempted s e).map fun result => (e.1, result)) w₁ :=
        yields_bind_pure.mpr ⟨_, hset, rfl⟩
      cases hattempted : attempted s e with
      | error f =>
          rw [hattempted] at hwrote hfirst
          refine ⟨w₁, yields_bind.mpr (.inr ⟨f, hfirst, rfl⟩), ?_⟩
          rw [hwrote.none_of_error] at htells₁
          simp only [hostBatch, List.takeWhile_cons, hwrote.raised.mp ⟨f, rfl⟩]
          exact htells₁
      | ok result =>
          rw [hattempted] at hwrote hfirst
          have hnot : raises s e = false := by
            cases hraises : raises s e with
            | false => rfl
            | true =>
                obtain ⟨f, hf⟩ := hwrote.raised.mpr hraises
                cases hf
          obtain ⟨hsettings, hstub₁⟩ := htells₁.steady hsteady
          obtain ⟨w₂, hrest, htells₂⟩ := ih (hsettings.trans hw) (hstub₁.trans hstub)
          rw [hostBatch_cons hnot]
          refine ⟨w₂, ?_, htells₁.append htells₂⟩
          refine yields_bind.mpr (.inl ⟨_, w₁, hfirst, ?_⟩)
          refine yields_bind_pure.mpr ⟨_, hrest, ?_⟩
          show (attemptedAll s entries >>= _) = _
          cases attemptedAll s entries <;> rfl

theorem restore_answers {w : World H I} (hw : w.settings = s) (hstub : w.writeStub = none)
    (entries : List (Datum × Datum)) :
    ∃ w', Yields (restore invoke entries) w ((attemptedAll s entries).map fun _ => ()) w' ∧
      Tells R (.storeCleared :: hostBatch s entries) w w' := by
  obtain ⟨w₁, hclear, htells₁⟩ := clearVariables_answers hinvoke hsteady hw
  obtain ⟨hsettings, hstub₁⟩ := htells₁.steady hsteady
  obtain ⟨w₂, hset, htells₂⟩ := setVariables_answers hinvoke hsteady (hsettings.trans hw)
    (hstub₁.trans hstub) entries
  refine ⟨w₂, ?_, htells₁.append htells₂⟩
  exact yields_bind.mpr (.inl ⟨(), w₁, hclear, yields_discard.mpr ⟨_, hset, rfl⟩⟩)

end

section
variable {invoke : Invoke H I} (hinvoke : invoke.Attends)
include hinvoke

theorem clearVariables_attends (w : World H I) :
    ∃ w', Yields (clearVariables invoke) w (.ok ()) w' ∧
      w'.stock = w.stock.change .storeCleared := by
  obtain ⟨w', hclear, htells⟩ := clearVariables_answers (hinvoke _) steady_onStock_eq (w := w) rfl
  exact ⟨w', hclear, htells.stock⟩

theorem setVariable_attends {w : World H I} (hstub : w.writeStub = none) (name value : Datum) :
    ∃ r w', Yields (setVariable invoke name value) w r w' ∧
      w'.stock = w.stock.changeAll (accepted? w.settings (name, value)).toList ∧
      Wrote w.settings (name, value) r := by
  obtain ⟨w', hset, htells⟩ :=
    setVariable_answers (hinvoke _) steady_onStock_eq rfl hstub name value
  exact ⟨_, w', hset, htells.stock, wrote_attempted _ _⟩

theorem setVariables_attends {w : World H I} (hstub : w.writeStub = none)
    (entries : List (Datum × Datum)) :
    ∃ r w', Yields (setVariables invoke entries) w r w' ∧
      w'.stock = w.stock.changeAll (hostBatch w.settings entries) ∧
      ((∃ results, r = .ok results ∧ List.Forall₂ (fun e x => x.1 = e.1 ∧
          (x.2 = .ok ↔ (accepted? w.settings e).isSome = true)) entries results) ∨
        (∃ f, r = .error f) ∧ ∃ e ∈ entries, raises w.settings e = true) := by
  obtain ⟨w', hset, htells⟩ := setVariables_answers (hinvoke _) steady_onStock_eq rfl hstub entries
  exact ⟨_, w', hset, htells.stock, attemptedAll_cases _ _⟩

theorem restore_attends {w : World H I} (hstub : w.writeStub = none)
    (entries : List (Datum × Datum)) :
    ∃ r w', Yields (restore invoke entries) w r w' ∧
      w'.stock = w.stock.changeAll (.storeCleared :: hostBatch w.settings entries) ∧
      (r = .ok () ∨ (∃ f, r = .error f) ∧ ∃ e ∈ entries, raises w.settings e = true) := by
  obtain ⟨w', hrestore, htells⟩ := restore_answers (hinvoke _) steady_onStock_eq rfl hstub entries
  refine ⟨_, w', hrestore, htells.stock, ?_⟩
  rcases attemptedAll_cases w.settings entries with ⟨results, hresults, -⟩ | ⟨⟨f, hf⟩, hraises⟩
  · rw [hresults]
    exact .inl rfl
  · rw [hf]
    exact .inr ⟨⟨f, rfl⟩, hraises⟩

theorem setValue_attends {w : World H I} (hstub : w.writeStub = none) (name value : Datum) :
    ∃ r w', Yields (setValue invoke name value) w r w' ∧
      w'.stock = w.stock.changeAll (acceptedValue? w.settings (name, value)).toList ∧
      (r = .ok () ↔ (acceptedValue? w.settings (name, value)).isSome = true) := by
  unfold setValue
  cases hhost : value.toHost with
  | error f =>
      have hnone : acceptedValue? w.settings (name, value) = none := by
        unfold acceptedValue? accepted?
        split
        · next hscript =>
          cases hnormal : value.normal? with
          | none => split <;> rfl
          | some d =>
              rw [Datum.toHost_eq_ok.mpr ⟨hscript, hnormal⟩] at hhost
              cases hhost
        · rfl
      rw [hnone]
      exact ⟨.error (refused f), w, yields_of_error_bind.mpr ⟨rfl, rfl⟩, rfl, by simp⟩
  | ok d =>
      obtain ⟨hscript, hnormal⟩ := Datum.toHost_eq_ok.mp hhost
      obtain ⟨x, w', hset, hstock, hwrote⟩ := setVariable_attends hinvoke hstub name d
      have hsame : acceptedValue? w.settings (name, value) = accepted? w.settings (name, d) := by
        simp only [acceptedValue?, hscript, if_true, accepted?, hnormal,
          (Datum.hosted_of_normal hnormal).normal]
      rw [hsame]
      simp only [Except.mapError, yields_of_ok_bind]
      cases x with
      | error f =>
          refine ⟨.error f, w', yields_bind.mpr (.inr ⟨f, hset, rfl⟩), hstock, ?_⟩
          rw [hwrote.none_of_error]
          simp
      | ok result =>
          have haccepted := hwrote.accepted
          rw [Except.ok.injEq] at haccepted
          cases result with
          | ok =>
              exact ⟨.ok (), w', yields_bind.mpr (.inl ⟨_, w', hset, yields_pure.mpr ⟨rfl, rfl⟩⟩),
                hstock, by simpa using haccepted⟩
          | invalidName =>
              exact ⟨_, w', yields_bind.mpr (.inl ⟨_, w', hset, yields_throw.mpr ⟨rfl, rfl⟩⟩),
                hstock, by simpa using haccepted⟩
          | unknown =>
              exact ⟨_, w', yields_bind.mpr (.inl ⟨_, w', hset, yields_throw.mpr ⟨rfl, rfl⟩⟩),
                hstock, by simpa using haccepted⟩

/-- A batch of the interpreter ends at the first entry that is not accepted. -/
theorem setValues_attends {w : World H I} (hstub : w.writeStub = none)
    (entries : List (Datum × Datum)) :
    ∃ r w', Yields (setValues invoke entries) w r w' ∧
      w'.stock = w.stock.changeAll (valueBatch w.settings entries) ∧
      (r = .ok () ↔ ∀ e ∈ entries, (acceptedValue? w.settings e).isSome = true) := by
  induction entries generalizing w with
  | nil => exact ⟨.ok (), w, yields_pure.mpr ⟨rfl, rfl⟩, rfl, by simp⟩
  | cons e entries ih =>
      obtain ⟨x, w₁, hset, hstock₁, haccepted⟩ := setValue_attends hinvoke hstub e.1 e.2
      cases x with
      | error f =>
          have hnot : (acceptedValue? w.settings e).isSome = false := by
            rw [← Bool.not_eq_true]
            intro h
            cases haccepted.mpr h
          refine ⟨.error f, w₁, yields_bind.mpr (.inr ⟨f, hset, rfl⟩), ?_, by simp [hnot]⟩
          rw [hstock₁, Option.isNone_iff_eq_none.mp (Option.isSome_eq_false_iff.mp hnot)]
          simp [valueBatch, hnot]
      | ok _ =>
          have hsome := haccepted.mp rfl
          obtain ⟨hsettings, hstub₁⟩ := World.same_of_changeAll hstock₁
          obtain ⟨y, w₂, hrest, hstock₂, hall⟩ := ih (hstub₁.trans hstub)
          rw [hsettings, hstock₁, ← Stock.changeAll_append] at hstock₂
          rw [hsettings] at hall
          refine ⟨y, w₂, yields_bind.mpr (.inl ⟨_, w₁, hset, hrest⟩), ?_, by simp [hall, hsome]⟩
          rw [hstock₂, valueBatch_cons hsome]

end

/-! ## Runs of requests about variables -/

/-- What the answer to a request tells of the changes it made. -/
def Told (s : Settings) : Request I → Except Fault Answer → Prop
  | .setVariable name value, a =>
    a = .ok (.wrote .ok) ↔ (accepted? s (name, value)).isSome = true
  | .setVariables entries, a =>
    (∃ results, a = .ok (.wroteAll results) ∧ List.Forall₂ (fun e x => x.1 = e.1 ∧
      (x.2 = .ok ↔ (accepted? s e).isSome = true)) entries results) ∨
    (∃ f, a = .error f) ∧ ∃ e ∈ entries, raises s e = true
  | .clearVariables, a => a = .ok .done
  | .restoreState entries, a =>
    a = .ok .done ∨ (∃ f, a = .error f) ∧ ∃ e ∈ entries, raises s e = true
  | .setValue name value, a => a = .ok .done ↔ (acceptedValue? s (name, value)).isSome = true
  | .setValues entries, a => a = .ok .done ↔ ∀ e ∈ entries, (acceptedValue? s e).isSome = true
  | _, _ => True

theorem perform_ends_of_reads (ip : Interpreter I L) (fuel : Nat) (invoke : Invoke H I)
    {r : Request I} (hr : r.reads = true) : Ends (perform ip fuel invoke r) := by
  have hget : ∀ name : Datum, Ends (getVariable name : Act H I Datum) := fun name =>
    .bind (ends_checkKey name) fun _ => .bind ends_get fun _ => ends_pure _
  cases r with
  | getVariable name => exact .bind (hget name) fun _ => ends_pure _
  | hasVariable name =>
      exact .bind (.bind (ends_checkKey name) fun _ => .bind ends_get fun _ => ends_pure _)
        fun _ => ends_pure _
  | isValidName name => exact .bind ends_get fun _ => .bind (ends_of _) fun _ => ends_pure _
  | variableCount | saveState => exact .bind ends_get fun _ => ends_pure _
  | getValue name =>
      refine .bind (.bind (hget name) ?_) fun _ => ends_pure _
      intro d
      split
      · exact ends_throw _
      · exact ends_of _
  | allValues => exact .bind (.bind ends_get fun _ => ends_of _) fun _ => ends_pure _
  | _ => cases hr

theorem perform_attends (ip : Interpreter I L) (fuel : Nat) {invoke : Invoke H I}
    (hinvoke : invoke.Attends) {w : World H I} (hstub : w.writeStub = none) {r : Request I}
    (hr : r.stores = true) :
    ∃ a w', Yields (perform ip fuel invoke r) w a w' ∧
      w'.stock = w.stock.changeAll (changes w.settings r) ∧ Told w.settings r a := by
  rcases Bool.or_eq_true_iff.mp hr with hreads | hwrites
  · obtain ⟨a, w', hyields⟩ := perform_ends_of_reads ip fuel invoke hreads w
    have hkeeps : w.stock = w'.stock :=
      perform_keeps_of_reads (R := OnStock Eq) ip fuel invoke hreads w a w' hyields
    refine ⟨a, w', hyields, ?_, ?_⟩
    · rw [← hkeeps]
      cases r <;> first | rfl | cases hreads
    · cases r <;> trivial
  · have hdone : ∀ x : Except Fault Unit,
        (x.map fun _ => Answer.done) = .ok .done ↔ x = .ok () := by
      intro x
      cases x <;> simp [Except.map]
    cases r with
    | setVariable name value =>
        obtain ⟨x, w', hset, hstock, hwrote⟩ := setVariable_attends hinvoke hstub name value
        have hanswer : x.map Answer.wrote = .ok (.wrote .ok) ↔ x = .ok .ok := by
          cases x <;> simp [Except.map]
        exact ⟨_, w', yields_bind_pure.mpr ⟨x, hset, rfl⟩, hstock, hanswer.trans hwrote.accepted⟩
    | setVariables entries =>
        obtain ⟨x, w', hset, hstock, hresults⟩ := setVariables_attends hinvoke hstub entries
        refine ⟨_, w', yields_bind_pure.mpr ⟨x, hset, rfl⟩, hstock, ?_⟩
        rcases hresults with ⟨results, rfl, hall⟩ | ⟨⟨f, rfl⟩, hraises⟩
        · exact .inl ⟨results, rfl, hall⟩
        · exact .inr ⟨⟨f, rfl⟩, hraises⟩
    | clearVariables =>
        obtain ⟨w', hclear, hstock⟩ := clearVariables_attends hinvoke w
        exact ⟨_, w', yields_bind_pure.mpr ⟨_, hclear, rfl⟩, hstock, rfl⟩
    | restoreState entries =>
        obtain ⟨x, w', hrestore, hstock, hresults⟩ := restore_attends hinvoke hstub entries
        refine ⟨_, w', yields_bind_pure.mpr ⟨x, hrestore, rfl⟩, hstock, ?_⟩
        rcases hresults with rfl | ⟨⟨f, rfl⟩, hraises⟩
        · exact .inl rfl
        · exact .inr ⟨⟨f, rfl⟩, hraises⟩
    | setValue name value =>
        obtain ⟨x, w', hset, hstock, haccepted⟩ := setValue_attends hinvoke hstub name value
        exact ⟨_, w', yields_bind_pure.mpr ⟨x, hset, rfl⟩, hstock, (hdone x).trans haccepted⟩
    | setValues entries =>
        obtain ⟨x, w', hset, hstock, haccepted⟩ := setValues_attends hinvoke hstub entries
        exact ⟨_, w', yields_bind_pure.mpr ⟨x, hset, rfl⟩, hstock, (hdone x).trans haccepted⟩
    | _ => cases hwrites

section
variable {ip : Interpreter I L} {react : Host H I} (hreact : react.Attends)
include hreact

variable (ip) in
theorem exec_attends {w : World H I} (hstub : w.writeStub = none) {r : Request I}
    (hr : r.stores = true) (fuel : Nat) :
    ∃ a w', Yields (exec ip react (fuel + 1) r) w a w' ∧
      w'.stock = w.stock.changeAll (changes w.settings r) ∧ Told w.settings r a :=
  perform_attends ip fuel (callHost_attends hreact _) hstub hr

/-- A run makes the changes of its requests, one after another. -/
theorem Run.changes {w₀ w : World H I} {steps : List (Request I × Except Fault Answer)}
    (hrun : Run ip react w₀ steps w) (hstub : w₀.writeStub = none)
    (hsteps : ∀ step ∈ steps, step.1.stores = true) :
    w.stock = w₀.stock.changeAll ((steps.map (·.1)).flatMap (changes w₀.settings)) ∧
      ∀ step ∈ steps, Told w₀.settings step.1 step.2 := by
  induction hrun with
  | rest => exact ⟨rfl, by simp⟩
  | step _ answered ih =>
      rw [List.forall_mem_append, List.forall_mem_singleton] at hsteps
      obtain ⟨hstock, htold⟩ := ih hsteps.1
      obtain ⟨hsettings, hstub₁⟩ := World.same_of_changeAll hstock
      obtain ⟨fuel, rfl, -⟩ := yields_exec.mp answered
      obtain ⟨a, w', hexec, hstock', htold'⟩ :=
        exec_attends ip hreact (hstub₁.trans hstub) hsteps.2 fuel
      obtain ⟨rfl, rfl⟩ := answered.unique hexec
      rw [hsettings] at hstock' htold'
      refine ⟨?_, ?_⟩
      · rw [hstock', hstock, ← Stock.changeAll_append]
        simp
      · rw [List.forall_mem_append, List.forall_mem_singleton]
        exact ⟨htold, htold'⟩

theorem exists_run {w₀ : World H I} (hstub : w₀.writeStub = none) {rs : List (Request I)}
    (hrs : ∀ r ∈ rs, r.stores = true) :
    ∃ steps w, Run ip react w₀ steps w ∧ steps.map (·.1) = rs := by
  induction rs generalizing w₀ with
  | nil => exact ⟨[], w₀, .rest, rfl⟩
  | cons r rs ih =>
      obtain ⟨hr, hrs⟩ := List.forall_mem_cons.mp hrs
      obtain ⟨a, w₁, hexec, hstock, -⟩ := exec_attends ip hreact hstub hr 0
      obtain ⟨steps, w, hrun, hsteps⟩ := ih ((World.same_of_changeAll hstock).2.trans hstub) hrs
      exact ⟨(r, a) :: steps, w, (Run.rest.step hexec).append hrun, by rw [← hsteps]; rfl⟩

end

end Session

end Parley
