import Parley.Proofs.Announcing
import Parley.Proofs.Mirroring

/-!
# Watching the calls of the host

What holds whenever the host is called can be said by a watch.  `watching p` calls the host
only where `p` holds of the call and of the world at that moment, and has no end elsewhere.
There are two ways of answering a request under watch, callbacks of callbacks included.

* `execWatched` has an eye on the calls.  If the request comes to the same end under watch, `p`
  held at every call that was made.
* `execWithin` has an eye on the world: when the host is called, and when a request has come to its
  result, the host's own or one from a callback.  Between these moments nobody sees anything of the
  world.

For the first, the operations ask no more of writes than that assigning does
(`execWatched_mimics`): a watch on what listeners are told of a write has to look no further.
For the second, whatever lasts from one of the moments to the next holds at all of them
(`Run.within`).
-/

namespace Parley

/-- Does a request have the bus tell of a variable that the store did not write? -/
def Request.forges {I : Type} : Request I → Bool
  | .publish (.variableChanged ..) => true
  | _ => false

/-- What held of the stock still does. -/
def Stock.Carries (S : Stock → Prop) (s s' : Stock) : Prop := S s → S s'

instance (S : Stock → Prop) : IsPreorder Stock (Stock.Carries S) where
  refl _ := id
  trans _ _ _ h₁ h₂ := h₂ ∘ h₁

namespace Session

open Act

variable {H I L α β : Type}

open Classical in
/-- Call the host where `p` holds of the call and the world; elsewhere there is no end. -/
noncomputable def watching (p : Callback → World H I → Prop) (invoke : Invoke H I) :
    Invoke H I := fun c => do
  if p c (← get) then invoke c else endless

theorem yields_watching {p : Callback → World H I → Prop} {invoke : Invoke H I} {c : Callback}
    {w w' : World H I} {r : Except Fault Datum} :
    Yields (watching p invoke c) w r w' ↔ p c w ∧ Yields (invoke c) w r w' := by
  unfold watching
  rw [yields_get_bind]
  by_cases hp : p c w
  · rw [if_pos hp]
    exact (and_iff_right hp).symm
  · rw [if_neg hp]
    exact ⟨fun h => (not_yields_endless h).elim, fun h => (hp h.1).elim⟩

/-! ## An eye on the calls -/

/-- Answer a request with a host whose every call is watched. -/
noncomputable def execWatched (ip : Interpreter I L) (react : Host H I)
    (p : Callback → World H I → Prop) : Nat → Request I → Act H I Answer
  | 0, _ => endless
  | fuel + 1, r => perform ip fuel (watching p (callHost react (execWatched ip react p fuel))) r

/-- From stocks with `S` the second comes to whatever the first does, and `S` holds again. -/
def Mimics (S : Stock → Prop) (act act' : Act H I α) : Prop :=
  ∀ w r w', S w.stock → Yields act w r w' → Yields act' w r w' ∧ S w'.stock

variable {S : Stock → Prop}

/-- To mimic is to mirror, for what looks at the stock alone. -/
theorem mimics_iff {act act' : Act H I α} : Mimics S act act' ↔ Mirrors (fun _ => S) act act' :=
  .rfl

theorem changed_mimics {invoke invoke' : Invoke H I} {f : World H I → World H I} {n : Notice}
    (hf : ∀ w, ({ f w with announced := (f w).announced ++ [n] } : World H I) = w.tell n)
    (hS : ∀ s, S s → S (s.change n))
    (hpublish : ∀ (w : World H I) r w', S w.stock → Yields (publish invoke n) (w.tell n) r w' →
      Yields (publish invoke' n) (w.tell n) r w' ∧ S w'.stock) :
    Mimics S (modify f >>= fun _ => announce invoke n)
      (modify f >>= fun _ => announce invoke' n) :=
  changed_mirrors hf (fun _ => hS) hpublish

/-- A watch that looks at nothing but what listeners are told of writes makes no difference, if it
makes none to assigning a variable. -/
theorem execWatched_mimics {ip : Interpreter I L} {react : Host H I}
    {p : Callback → World H I → Prop} (hclear : ∀ s, S s → S (s.change .storeCleared))
    (hreact : ∀ host c, (react host c).Abides (fun r => r.forges = false) fun _ => True)
    (hp : ∀ c w, c.tellsWrite = false → p c w)
    (hassign : ∀ fuel, (∀ c, Mimics S (calls ip react fuel c)
        (callHost react (execWatched ip react p fuel) c)) →
      ∀ name value, (Notice.variableChanged name value).Named →
        Mimics S (assign (calls ip react fuel) name value)
          (assign (watching p (callHost react (execWatched ip react p fuel))) name value))
    (fuel : Nat) {r : Request I} (hr : r.forges = false) :
    Mimics S (exec ip react fuel r) (execWatched ip react p fuel r) := by
  induction fuel generalizing r with
  | zero => exact mimics_iff.mpr (.same keeps_endless)
  | succ fuel ih =>
      have hcalls : ∀ c, Mimics S (calls ip react fuel c)
          (callHost react (execWatched ip react p fuel) c) := fun c =>
        callHost_mirrors (Q := fun _ => S) (fun r hr => ih hr) fun host => hreact host c
      have hwatched : ∀ c, c.tellsWrite = false → Mimics S (calls ip react fuel c)
          (watching p (callHost react (execWatched ip react p fuel)) c) := by
        intro c hc w r w' hw hcall
        obtain ⟨hcall', hw'⟩ := hcalls c w r w' hw hcall
        exact ⟨yields_watching.mpr ⟨hp c w hc, hcall'⟩, hw'⟩
      refine perform_mirrors (Q := fun _ => S) (fun _ _ _ _ => id) hwatched ?_ (fun _ => hclear)
        fuel ?_
      · rintro name value ⟨_, _, _, -, hvalid, -⟩
        exact hassign fuel hcalls name value (text_of_isValidName hvalid)
      · rintro n rfl l
        refine hwatched _ ?_
        cases n <;> first | rfl | cases hr

/-! ## An eye on the world -/

open Classical in
/-- Answer a request where `p` holds of the world at every call of the host and whenever a request
has come to its result; elsewhere there is no end. -/
noncomputable def execWithin (ip : Interpreter I L) (react : Host H I) (p : World H I → Prop) :
    Nat → Request I → Act H I Answer
  | 0, _ => endless
  | fuel + 1, r => do
    let a ← attempt
      (perform ip fuel (watching (fun _ => p) (callHost react (execWithin ip react p fuel))) r)
    if p (← get) then of a else endless

section
variable {ip : Interpreter I L} {react : Host H I} {p : World H I → Prop}

theorem yields_execWithin {fuel : Nat} {r : Request I} {w w' : World H I}
    {a : Except Fault Answer} : Yields (execWithin ip react p (fuel + 1) r) w a w' ↔
      Yields (perform ip fuel (watching (fun _ => p) (callHost react (execWithin ip react p fuel)))
        r) w a w' ∧ p w' := by
  unfold execWithin
  constructor
  · intro h
    obtain ⟨x, u, hperform, hrest⟩ := yields_attempt_bind.mp h
    rw [yields_get_bind] at hrest
    split at hrest
    · next hp =>
      obtain ⟨rfl, rfl⟩ := yields_of.mp hrest
      exact ⟨hperform, hp⟩
    · exact (not_yields_endless hrest).elim
  · rintro ⟨hperform, hp⟩
    refine yields_attempt_bind.mpr ⟨a, w', hperform, ?_⟩
    rw [yields_get_bind, if_pos hp]
    exact yields_of.mpr ⟨rfl, rfl⟩

end

/-- `Q` withstands all that is done between two calls of the host. -/
structure Lasts (Q : Course I → Stock → Prop) : Prop where
  endures : Endures Q
  clear : ∀ c s, Q c s → Q c (s.change .storeCleared)
  assign : ∀ name value, Admits Q name value →
    ∀ c s, Q c s → Q c (s.change (.variableChanged name value))

section
variable {ip : Interpreter I L} {react : Host H I} {Q : Course I → Stock → Prop} (hQ : Lasts Q)
  {p : World H I → Prop} (hp : ∀ w : World H I, Q w.course w.stock → p w)
include hQ hp

theorem execWithin_mirrors (fuel : Nat) (r : Request I) :
    Mirrors Q (exec ip react fuel r) (execWithin ip react p fuel r) := by
  induction fuel generalizing r with
  | zero => exact .same keeps_endless
  | succ fuel ih =>
      have hcalls : ∀ c, Mirrors Q (calls ip react fuel c)
          (watching (fun _ => p) (callHost react (execWithin ip react p fuel)) c) := by
        intro c w x w' hw hcall
        obtain ⟨hcall', hw'⟩ := callHost_mirrors (fun r _ => ih r)
          (fun _ => Script.abides_true _) w x w' hw hcall
        exact ⟨yields_watching.mpr ⟨hp w hw, hcall'⟩, hw'⟩
      intro w a w' hw h
      obtain ⟨h', hw'⟩ := perform_mirrors hQ.endures (fun c _ => hcalls c)
        (fun name value hadmits => changed_mirrors_of_listeners (fun _ => rfl)
          (hQ.assign name value hadmits) fun _ => hcalls _)
        hQ.clear fuel (fun _ _ _ => hcalls _) w a w' hw h
      exact ⟨yields_execWithin.mpr ⟨h', hp w' hw'⟩, hw'⟩

/-- What lasts holds along every run, and of every request that follows to watch it makes no
difference. -/
theorem Run.within {w₀ w : World H I} {steps : List (Request I × Except Fault Answer)}
    (hstart : Q w₀.course w₀.stock) (hrun : Run ip react w₀ steps w) :
    Q w.course w.stock ∧ ∀ fuel r a w', Yields (exec ip react fuel r) w a w' →
      Yields (execWithin ip react p fuel r) w a w' := by
  have hmirrors : ∀ fuel r, Mirrors Q (exec ip react fuel r) (execWithin ip react p fuel r) :=
    execWithin_mirrors hQ hp
  have hw : Q w.course w.stock :=
    hrun.keeps (R := Upholds Q) (p := fun _ => True)
      (fun fuel r _ u a u' h hu => (hmirrors fuel r u a u' hu h).2) (fun _ _ => trivial) hstart
  exact ⟨hw, fun fuel r a w' h => (hmirrors fuel r w a w' hw h).1⟩

end

end Session

end Parley
