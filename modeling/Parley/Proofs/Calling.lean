import Parley.Proofs.Accepted

/-!
# Calling a function of the host

Scripts call a function of the host with whatever data they have, and it answers with whatever it
likes.  Both ways there is one gate.

| | what passes | otherwise |
| :-- | :-- | :-- |
| the arguments | truth values, numbers and texts, as the host has them (`HostForm`) | no call |
| the result | what is or becomes a value of the declared class (`Declared`) | a fault after the call |

All arguments are through before the call is made, so of a call there is either one, with all of
them, or none (`callFunction_of_hostForms`, `uncalled_of_not_hostForms`).

The host may answer with a script value.  It is not converted then, which does not mean that it
passes: a value of another class does not, nor does a bare value, which is of none
(`finish_eq_ok`).
-/

namespace Parley

/-! ## What passes -/

/-- The datum of the host that a script value stands for. -/
inductive HostForm : Datum → Datum → Prop where
  | boolean (p : Datum) : HostForm (.boolean p) (.bool p.truth)
  | number (x : Double) : HostForm (.number x) (.float x)
  | string {p : Datum} (h : p.hasText = true) : HostForm (.string p) (.text p.plain)

/-- The script values of the class that a declared kind stands for. -/
inductive Declared : ReturnKind → Datum → Prop where
  | bool (p : Datum) : Declared .bool (.boolean p)
  | int (x : Double) : Declared .int (.number x)
  | float (x : Double) : Declared .float (.number x)
  | text (p : Datum) : Declared .text (.string p)

theorem Datum.toHost_eq_ok_iff_hostForm {v d : Datum} : v.toHost = .ok d ↔ HostForm v d := by
  constructor
  · intro h
    cases v with
    | boolean p =>
        cases h
        exact .boolean p
    | number x =>
        cases h
        exact .number x
    | string p =>
        by_cases hp : p.hasText = true
        · rw [toHost, if_pos hp] at h
          cases h
          exact .string hp
        · rw [toHost, if_neg hp] at h
          cases h
    | _ => cases h
  · intro h
    cases h with
    | boolean p => rfl
    | number x => rfl
    | string hp => exact if_pos hp

theorem HostForm.isScript {v d : Datum} (h : HostForm v d) : v.isScript = true := by
  cases h <;> rfl

theorem ReturnKind.admits_iff {k : ReturnKind} {v : Datum} : k.admits v = true ↔ Declared k v := by
  constructor
  · intro h
    unfold admits at h
    split at h
    · exact .bool _
    · exact .int _
    · exact .float _
    · exact .text _
    · cases h
  · intro h
    cases h <;> rfl

namespace ScriptFunction

variable {f : ScriptFunction} {values args : List Datum} {d e : Datum}

theorem arguments_eq_ok : arguments values = .ok args ↔ List.Forall₂ HostForm values args := by
  simp only [arguments, mapM_eq_ok_iff, Datum.toHost_eq_ok_iff_hostForm]

theorem finish_eq_ok : f.finish d = .ok e ↔ d.toValue = .ok e ∧ Declared f.returns e := by
  rw [finish, ← ReturnKind.admits_iff]
  cases d.toValue with
  | error fault => exact ⟨nofun, nofun⟩
  | ok v =>
      show (if f.returns.admits v then Except.ok v else Except.error _) = _ ↔ _
      rw [Except.ok.injEq]
      constructor
      · intro h
        split at h
        · next hv =>
            cases h
            exact ⟨rfl, hv⟩
        · cases h
      · rintro ⟨rfl, hv⟩
        exact if_pos hv

end ScriptFunction

/-! ## The call -/

namespace Session

open Act ScriptFunction

variable {H I : Type} {invoke : Invoke H I} {f : ScriptFunction} {handle : Handle}
  {values args : List Datum} {w w' : World H I}

variable (H I) in
/-- Whatever the host would do, the call comes to the one fault, and leaves everything as it is. -/
def Uncalled (f : ScriptFunction) (values : List Datum) : Prop :=
  ∃ fault, ∀ (invoke : Invoke H I) w r w',
    Yields (callFunction invoke f values) w r w' ↔ r = .error fault ∧ w' = w

theorem uncalled_of_not_hostForms (h : ¬ ∃ args, List.Forall₂ HostForm values args) :
    Uncalled H I f values := by
  cases hargs : arguments values with
  | error fault =>
      refine ⟨fault, fun invoke w r w' => ?_⟩
      rw [callFunction, hargs]
      exact yields_of_error_bind
  | ok args => exact absurd ⟨args, arguments_eq_ok.mp hargs⟩ h

theorem not_hostForms_of_not_isScript {v : Datum} (hv : v ∈ values) (h : v.isScript = false) :
    ¬ ∃ args, List.Forall₂ HostForm values args := by
  rintro ⟨args, hargs⟩
  obtain ⟨i, hi, rfl⟩ := List.mem_iff_getElem.mp hv
  have hform := hargs.get hi (hargs.length_eq ▸ hi)
  rw [List.get_eq_getElem] at hform
  rw [hform.isScript] at h
  cases h

theorem callFunction_of_hostForms (hbody : f.body = .host handle)
    (hargs : List.Forall₂ HostForm values args) : callFunction invoke f values =
      invoke (.function handle args) >>= fun d => of (f.finish d) := by
  rw [callFunction, arguments_eq_ok.mpr hargs, hbody]
  rfl

theorem yields_callFunction (hbody : f.body = .host handle)
    (hargs : List.Forall₂ HostForm values args) {r : Except Fault Datum} :
    Yields (callFunction invoke f values) w r w' ↔
      ∃ x, Yields (invoke (.function handle args)) w x w' ∧ r = x >>= f.finish := by
  rw [callFunction_of_hostForms hbody hargs]
  exact yields_bind_of

theorem declared_of_yields {e : Datum} (h : Yields (callFunction invoke f values) w (.ok e) w') :
    Declared f.returns e := by
  have hdeclared {act : Act H I Datum} {w₁ : World H I}
      (h : Yields (act >>= fun d => of (f.finish d)) w₁ (.ok e) w') : Declared f.returns e := by
    obtain ⟨d, _, -, hfinish⟩ := exists_of_yields_bind_ok h
    exact (finish_eq_ok.mp (yields_of.mp hfinish).1.symm).2
  obtain ⟨args, w₁, -, h⟩ := exists_of_yields_bind_ok h
  cases hbody : f.body with
  | standard s =>
      rw [hbody] at h
      exact hdeclared h
  | host handle =>
      rw [hbody] at h
      exact hdeclared h

/-- A call of a function of the host comes to a value of the declared class or to a fault.  If the
arguments have host forms, the host is called once, with these in their order, and what it comes
to is the result or is refused; otherwise, as when one of them is no truth value, number or text
of a script, the host is not called.  A log that the host keeps of how it is called is longer by
this call, or as it was. -/
theorem callFunction_guards (invoke : Invoke H I) (hbody : f.body = .host handle)
    (values : List Datum) :
    (∀ w e w', Yields (callFunction invoke f values) w (.ok e) w' → Declared f.returns e) ∧
    (∀ args, List.Forall₂ HostForm values args → ∀ w r w',
      Yields (callFunction invoke f values) w r w' ↔
        ∃ x, Yields (invoke (.function handle args)) w x w' ∧ r = x >>= f.finish) ∧
    ((¬ ∃ args, List.Forall₂ HostForm values args) → Uncalled H I f values) ∧
    ((∃ v ∈ values, v.isScript = false) → Uncalled H I f values) ∧
    (∀ log : World H I → List Callback,
      (∀ c w x w', Yields (invoke c) w x w' → log w' = log w ++ [c]) →
        ∀ w r w', Yields (callFunction invoke f values) w r w' → log w' = log w ∨
          ∃ args, List.Forall₂ HostForm values args ∧
            log w' = log w ++ [.function handle args]) ∧
    ((∀ c, Ends (invoke c)) → Ends (callFunction invoke f values)) := by
  refine ⟨fun _ _ _ => declared_of_yields, fun _ hargs _ _ _ => yields_callFunction hbody hargs,
    uncalled_of_not_hostForms, ?_, fun log hlog w r w' h => ?_, fun hends => ?_⟩
  · rintro ⟨v, hv, hscript⟩
    exact uncalled_of_not_hostForms (not_hostForms_of_not_isScript hv hscript)
  · by_cases hforms : ∃ args, List.Forall₂ HostForm values args
    · obtain ⟨args, hargs⟩ := hforms
      obtain ⟨x, hcall, -⟩ := (yields_callFunction hbody hargs).mp h
      exact .inr ⟨args, hargs, hlog _ _ _ _ hcall⟩
    · obtain ⟨fault, huncalled⟩ := uncalled_of_not_hostForms (H := H) (I := I) (f := f) hforms
      obtain ⟨-, rfl⟩ := (huncalled _ _ _ _).mp h
      exact .inl rfl
  · rw [callFunction, hbody]
    exact .bind (ends_of _) fun _ => .bind (hends _) fun _ => ends_of _

/-- A host that keeps a log of how it is called, and always comes to the same result. -/
def logging (result : Except Fault Datum) : Invoke (List Callback) I := fun c => do
  modify fun w => { w with host := w.host ++ [c] }
  of result

theorem yields_logging {result x : Except Fault Datum} {c : Callback}
    {w w' : World (List Callback) I} : Yields (logging result c) w x w' ↔
      x = result ∧ w' = { w with host := w.host ++ [c] } :=
  yields_modify_bind.trans yields_of

/-- A function declared to come to an integer is called with its three arguments as the host has
them.  A double is a number too; a bare value is refused, as a result after the call, as an
argument before it. -/
theorem callFunction_guards_of_three_arguments :
    let f : ScriptFunction := ⟨"check", .host 0, .int⟩
    let values : List Datum := [.boolean (.int 2), .number .zero, .string (.text "a")]
    let called : Callback := .function 0 [.bool true, .float .zero, .text "a"]
    let unused : World (List Callback) Unit := { host := [] }
    (∃ w', Yields (callFunction (logging (.ok (.float .zero))) f values) unused
      (.ok (.number .zero)) w' ∧ w'.host = [called]) ∧
    (∃ fault w', Yields (callFunction (logging (.ok (.bare (.int 1)))) f values) unused
      (.error fault) w' ∧ w'.host = [called]) ∧
    Uncalled (List Callback) Unit f [.number .zero, .bare (.int 1)] ∧
    (∀ result values r w', Yields (callFunction (logging result) f values) unused r w' →
      w'.host.length ≤ 1) := by
  intro f values called unused
  have hbody : f.body = .host 0 := rfl
  have hargs : List.Forall₂ HostForm values [.bool true, .float .zero, .text "a"] :=
    .cons (.boolean _) (.cons (.number _) (.cons (.string rfl) .nil))
  have hcall (d : Datum) : ∃ w', Yields (callFunction (logging (.ok d)) f values) unused
      (f.finish d) w' ∧ w'.host = [called] := by
    obtain ⟨-, hone, -⟩ := callFunction_guards (logging (.ok d)) hbody values
    exact ⟨_, (hone _ hargs _ _ _).mpr ⟨.ok d, yields_logging.mpr ⟨rfl, rfl⟩, rfl⟩, rfl⟩
  refine ⟨hcall (.float .zero), ?_, ?_, fun result values r w' h => ?_⟩
  · exact ⟨_, hcall (.bare (.int 1))⟩
  · obtain ⟨-, -, -, hnone, -⟩ := callFunction_guards (logging (.ok .nothing)) hbody
      [.number .zero, .bare (.int 1)]
    exact hnone ⟨.bare (.int 1), .tail _ (.head _), rfl⟩
  · obtain ⟨-, -, -, -, hlog, -⟩ := callFunction_guards (logging result) hbody values
    have hlogs := hlog (·.host) (fun c w x w' h => by rw [(yields_logging.mp h).2]) _ _ _ h
    rcases hlogs with hsame | ⟨args, -, hone⟩
    · rw [hsame]
      exact Nat.zero_le 1
    · rw [hone]
      exact Nat.le_refl 1

end Session

end Parley
