import Parley.Proofs.Backstage
import Parley.Proofs.Drive
import Parley.Proofs.Reloading

/-!
# What the runner owns

The runner owns a list of programs and, from its setup on, an interpreter.  A dialogue that
starts, goes on and ends does not touch them, whoever drives it.  So a preorder that looks at
nothing else (`OverlooksDialogue`) is kept by every request of every host, but for three:

| | what it does |
|---|---|
| `build` with a list | puts that in place of the list |
| `clearPrograms` | empties the list |
| `cleanup` | lets the interpreter go |

Setting up puts a new interpreter in place of any other, which such a preorder does not mind.
What each of the three may do is asked where it is asked for (`exec_keeps_owned`).
-/

namespace Parley

/-- A preorder that looks at what the runner owns.  It does not mind a new interpreter. -/
class OverlooksDialogue {I : Type} (R : Course I → Course I → Prop) : Prop
    extends IsPreorder (Course I) R where
  dialogue : ∀ {c c' : Course I}, c'.programs = c.programs →
    c'.current = c.current ∨ c'.current ≠ none → R c c'

namespace Session

open Act

variable {H I L : Type} {R : Course I → Course I → Prop} [OverlooksDialogue R]
  {ip : Interpreter I L}

instance : OverlooksReloading (OnCourse R : World H I → World H I → Prop) where
  refl w := refl_of R w.course
  trans _ _ _ := trans_of R
  reloading _ _ _ := OverlooksDialogue.dialogue rfl (.inl rfl)

instance : OverlooksTalk (OnCourse R : World H I → World H I → Prop) where
  talk hprograms hcurrent _ _ := OverlooksDialogue.dialogue hprograms (.inl hcurrent)

theorem setup_keeps_owned (factory : Option I) :
    Keeps (OnCourse R) (setup ip factory : Act H I Unit) := by
  intro w r w' h
  rcases setup_cases h with ⟨-, -, rfl⟩ | ⟨core, w₁, -, hw₁, hbuild⟩
  · exact refl_of R w'.course
  · have hmade : R w.course w₁.course := by
      rw [hw₁]
      exact OverlooksDialogue.dialogue rfl (.inr (Option.some_ne_none _))
    exact trans_of R hmade (reload_keeps_rest (R := OnCourse R) ip _ _ _ hbuild)

/-- The relation holds where a list is put in place of the programs, the list is emptied, and the
interpreter is let go, as far as `p` allows to ask for it. -/
structure AllowsOwning (p : Request I → Prop) (R : Course I → Course I → Prop) : Prop where
  listed : ∀ ps, p (.build (some ps)) → ∀ c, R c { c with programs := ps }
  emptied : p .clearPrograms → ∀ c, R c { c with programs := [] }
  released : p .cleanup → ∀ c, R c c.released

theorem perform_keeps_owned {p : Request I → Prop} (hallows : AllowsOwning p R)
    {invoke : Invoke H I} (hinvoke : ∀ c, Keeps (OnCourse R) (invoke c)) (fuel : Nat)
    {r : Request I} (hr : p r) (hdrives : r.drives = true) :
    Keeps (OnCourse R) (perform ip fuel invoke r) := by
  cases hpasses : r.passes with
  | true =>
      refine perform_keeps_talk hinvoke fuel hpasses ?_
      rintro rfl
      exact keeps_modify_of fun w => hallows.released hr w.course
  | false =>
      cases r with
      | setup factory => exact only_keeps (setup_keeps_owned factory)
      | build programs =>
          cases programs with
          | none => exact only_keeps (reload_keeps_rest ip)
          | some ps =>
              have hlisted : Keeps (OnCourse R)
                  (modify fun w => { w with programs := ps } : Act H I Unit) :=
                keeps_modify_of fun w => hallows.listed ps hr w.course
              exact only_keeps (.bind hlisted fun _ => reload_keeps_rest ip)
      | clearPrograms =>
          have hclear : Keeps (OnCourse R) (clearPrograms ip : Act H I Unit) := by
            refine .bind keeps_get ?_
            intro w
            split
            · exact keeps_pure _
            · exact .bind (unload_keeps_rest ip _) fun _ =>
                keeps_modify_of fun w => hallows.emptied hr w.course
          exact only_keeps hclear
      | select p => exact selectPick_keeps_of_setCore setCore_keeps_talk p
      | cleanup | start | «continue» | stop => cases hpasses
      | _ => cases hdrives

theorem exec_keeps_owned {p : Request I → Prop} (hallows : AllowsOwning p R) {react : Host H I}
    {q : Callback → Except Fault Datum → Prop} (hreact : ∀ host c, (react host c).Abides p (q c))
    (fuel : Nat) (r : Request I) (hr : p r) : Keeps (OnCourse R) (exec ip react fuel r) :=
  exec_keeps_of_drives hreact
    (fun fuel _ hinvoke _ => perform_keeps_owned hallows hinvoke fuel) fuel r hr

end Session

end Parley
