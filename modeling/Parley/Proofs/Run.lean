import Parley.Proofs.Outside

/-!
# Runs

A host asks from outside: one request after another, each answered or ended by a
fault before the next.  That is a `Run`.  What callbacks ask is no step of it; it
happens inside the steps.

A callback is a finite tree, so what holds of all it asks is shown by recursion on
its script, and what holds of every request by induction on the fuel.  `exec_keeps`
is both, and where a preorder allows for writing variables it is enough to look at the
requests that drive the runner (`exec_keeps_of_drives`).
-/

namespace Parley

namespace Script

variable {H I : Type}

/-- Whatever becomes of its requests, the script asks only for what `p` allows and
ends only as `q` allows. -/
def Abides (p : Request I → Prop) (q : Except Fault Datum → Prop) : Script H I → Prop
  | .finish _ result => q result
  | .request _ r next => p r ∧ ∀ host a, (next host a).Abides p q

theorem Abides.mono {p p' : Request I → Prop} {q q' : Except Fault Datum → Prop}
    {s : Script H I} (h : s.Abides p q) (hp : ∀ r, p r → p' r)
    (hq : ∀ result, q result → q' result) : s.Abides p' q' := by
  induction s with
  | finish host result => exact hq result h
  | request host r next ih => exact ⟨hp r h.1, fun host a => ih host a (h.2 host a)⟩

theorem abides_of_forall {p : Request I → Prop} {q : Except Fault Datum → Prop} (hp : ∀ r, p r)
    (hq : ∀ result, q result) (s : Script H I) : s.Abides p q := by
  induction s with
  | finish host result => exact hq result
  | request host r next ih => exact ⟨hp r, ih⟩

theorem abides_true (s : Script H I) : s.Abides (fun _ => True) fun _ => True :=
  abides_of_forall (fun _ => trivial) (fun _ => trivial) s

end Script

/-- Nothing was ever set up. -/
structure World.Fresh {H I : Type} (w : World H I) : Prop where
  running : w.running = false
  current : w.current = none
  instances : w.instances = []
  dealings : w.dealings = []

namespace Session

open Act

variable {H I L : Type} {ip : Interpreter I L} {react : Host H I}

/-! ## Callbacks -/

/-- How the library calls this host, when callbacks nest at most `fuel` deep. -/
abbrev calls (ip : Interpreter I L) (react : Host H I) (fuel : Nat) : Invoke H I :=
  callHost react (exec ip react fuel)

section
variable {answer : Request I → Act H I Answer} {c : Callback} {host : H} {r : Request I}
  {next : H → Except Fault Answer → Script H I} {result x : Except Fault Datum} {w w' : World H I}

theorem yields_finish : Yields (runScript answer (.finish host result)) w x w' ↔
    x = result ∧ w' = { w with host } :=
  yields_modify_bind.trans yields_of

theorem yields_request : Yields (runScript answer (.request host r next)) w x w' ↔
    ∃ a u, Yields (answer r) { w with host } a u ∧
      Yields (runScript answer (next u.host a)) { u with journal := u.journal ++ [.nested a] } x
        w' :=
  yields_modify_bind.trans yields_attempt_bind

/-- A call is entered in the journal, and the host's script for it run. -/
theorem yields_callHost : Yields (callHost react answer c) w x w' ↔
    Yields (runScript answer (react w.host c)) { w with journal := w.journal ++ [.called c] } x w' :=
  yields_modify_bind.trans yields_get_bind

theorem yields_callHost_of_finish (h : react w.host c = .finish host result) :
    Yields (callHost react answer c) w x w' ↔
      x = result ∧ w' = { w with journal := w.journal ++ [.called c], host } := by
  rw [yields_callHost, h, yields_finish]

end

section
variable {R : World H I → World H I → Prop} {answer : Request I → Act H I Answer}

/-- A callback keeps what its requests keep, if that is no matter of the host's own state and of
the entries about requests in the journal. -/
theorem runScript_keeps [IsPreorder (World H I) R] {p : Request I → Prop}
    {q : Except Fault Datum → Prop} (hhost : ∀ host, Keeps R (setHost host : Act H I Unit))
    (hnested : ∀ a, Keeps R (record (.nested a) : Act H I Unit))
    (hanswer : ∀ r, p r → Keeps R (answer r)) (s : Script H I) (hs : s.Abides p q) :
    Keeps R (runScript answer s) := by
  induction s with
  | finish host result => exact .bind (hhost host) fun _ => keeps_of _
  | request host r next ih =>
      obtain ⟨hr, hnext⟩ := hs
      exact .bind (hhost host) fun _ => .bind (hanswer r hr).attempt fun a =>
        .bind (hnested a) fun _ => .bind keeps_get fun _ => ih _ _ (hnext _ _)

theorem runScript_keeps_aside [Overlooks R] {p : Request I → Prop} {q : Except Fault Datum → Prop}
    (hanswer : ∀ r, p r → Keeps R (answer r)) {s : Script H I} (hs : s.Abides p q) :
    Keeps R (runScript answer s) :=
  runScript_keeps (fun _ => keeps_modify fun _ => ⟨rfl, rfl, rfl⟩) (fun _ => keeps_record rfl)
    hanswer s hs

variable [OverlooksCalls R]

theorem callHost_keeps {p : Request I → Prop} {q : Except Fault Datum → Prop}
    (hanswer : ∀ r, p r → Keeps R (answer r)) {c : Callback}
    (hreact : ∀ host, (react host c).Abides p q) : Keeps R (callHost react answer c) :=
  .bind (keeps_called c) fun _ => .bind keeps_get fun _ => runScript_keeps_aside hanswer (hreact _)

/-- What requests keep if calling the host does, they keep.  The host is any that asks
only for what `p` allows. -/
theorem exec_keeps {p : Request I → Prop} {q : Callback → Except Fault Datum → Prop}
    (hreact : ∀ host c, (react host c).Abides p (q c))
    (hperform : ∀ (fuel : Nat) (invoke : Invoke H I), (∀ c, Keeps R (invoke c)) →
      ∀ r : Request I, p r → Keeps R (perform ip fuel invoke r))
    (fuel : Nat) (r : Request I) (hr : p r) : Keeps R (exec ip react fuel r) := by
  induction fuel generalizing r with
  | zero => exact keeps_endless
  | succ fuel ih =>
      have hinvoke : ∀ c, Keeps R (callHost react (exec ip react fuel) c) := fun c =>
        callHost_keeps ih fun host => hreact host c
      exact hperform fuel _ hinvoke r hr

/-- Of the requests only those that drive the runner need a proof. -/
theorem exec_keeps_of_drives [OverlooksBus R] [AllowsWriting R] {p : Request I → Prop}
    {q : Callback → Except Fault Datum → Prop} (hreact : ∀ host c, (react host c).Abides p (q c))
    (hdrive : ∀ (fuel : Nat) (invoke : Invoke H I), (∀ c, Keeps R (invoke c)) →
      ∀ r : Request I, p r → r.drives = true → Keeps R (perform ip fuel invoke r))
    (fuel : Nat) (r : Request I) (hr : p r) : Keeps R (exec ip react fuel r) := by
  refine exec_keeps hreact ?_ fuel r hr
  intro fuel invoke hinvoke r hr
  cases hdrives : r.drives with
  | true => exact hdrive fuel invoke hinvoke r hr hdrives
  | false => exact perform_keeps_of_not_drives hinvoke ip fuel r hdrives

end

theorem yields_exec {fuel : Nat} {r : Request I} {w w' : World H I} {a : Except Fault Answer} :
    Yields (exec ip react fuel r) w a w' ↔ ∃ fuel', fuel = fuel' + 1 ∧
      Yields (perform ip fuel' (callHost react (exec ip react fuel')) r) w a w' := by
  cases fuel with
  | zero =>
      refine ⟨fun h => (not_yields_endless h).elim, ?_⟩
      rintro ⟨_, h, -⟩
      cases h
  | succ fuel =>
      refine ⟨fun h => ⟨fuel, rfl, h⟩, ?_⟩
      rintro ⟨_, hfuel, h⟩
      cases hfuel
      exact h

/-! ## Requests in a row -/

/-- The requests asked so far, each with its answer or fault, and the world they led to. -/
inductive Run (ip : Interpreter I L) (react : Host H I) (w₀ : World H I) :
    List (Request I × Except Fault Answer) → World H I → Prop where
  | rest : Run ip react w₀ [] w₀
  | step {steps : List (Request I × Except Fault Answer)} {w w' : World H I} {fuel : Nat}
      {r : Request I} {a : Except Fault Answer} (run : Run ip react w₀ steps w)
      (answered : Yields (exec ip react fuel r) w a w') : Run ip react w₀ (steps ++ [(r, a)]) w'

theorem Run.append {w₀ w₁ w₂ : World H I} {before after : List (Request I × Except Fault Answer)}
    (h₁ : Run ip react w₀ before w₁) (h₂ : Run ip react w₁ after w₂) :
    Run ip react w₀ (before ++ after) w₂ := by
  induction h₂ with
  | rest => rwa [List.append_nil]
  | step _ answered ih =>
      rw [← List.append_assoc]
      exact ih.step answered

theorem Run.exists_of_append {w₀ w : World H I}
    {before after : List (Request I × Except Fault Answer)}
    (h : Run ip react w₀ (before ++ after) w) :
    ∃ u, Run ip react w₀ before u ∧ Run ip react u after w := by
  generalize hsteps : before ++ after = steps at h
  induction h generalizing after with
  | rest =>
      obtain ⟨rfl, rfl⟩ := List.append_eq_nil_iff.mp hsteps
      exact ⟨w₀, .rest, .rest⟩
  | @step steps v w fuel r a run answered ih =>
      rcases List.eq_nil_or_concat after with rfl | ⟨after', last, rfl⟩
      · rw [List.append_nil] at hsteps
        exact ⟨w, hsteps ▸ run.step answered, .rest⟩
      · rw [List.concat_eq_append] at hsteps ⊢
        rw [← List.append_assoc] at hsteps
        obtain ⟨hinit, hlast⟩ := List.append_inj' hsteps rfl
        obtain ⟨u, hbefore, hafter⟩ := ih hinit
        cases hlast
        exact ⟨u, hbefore, hafter.step answered⟩

theorem Run.exists_step {w₀ w : World H I} {before after : List (Request I × Except Fault Answer)}
    {r : Request I} {a : Except Fault Answer}
    (h : Run ip react w₀ (before ++ (r, a) :: after) w) :
    ∃ u v fuel, Run ip react w₀ before u ∧ Yields (exec ip react fuel r) u a v ∧
      Run ip react v after w := by
  rw [List.append_cons] at h
  obtain ⟨v, hbefore, hafter⟩ := h.exists_of_append
  generalize hsteps : before ++ [(r, a)] = steps at hbefore
  cases hbefore with
  | rest => cases (List.append_eq_nil_iff.mp hsteps).2
  | step run answered =>
      obtain ⟨rfl, hlast⟩ := List.append_inj' hsteps rfl
      cases hlast
      exact ⟨_, v, _, run, answered, hafter⟩

theorem Run.keeps {R : World H I → World H I → Prop} [IsPreorder (World H I) R]
    {p : Request I → Prop}
    (hexec : ∀ fuel r, p r → Keeps R (exec ip react fuel r)) {w₀ w : World H I}
    {steps : List (Request I × Except Fault Answer)} (h : Run ip react w₀ steps w)
    (hsteps : ∀ step ∈ steps, p step.1) : R w₀ w := by
  induction h with
  | rest => exact refl_of R _
  | step _ answered ih =>
      rw [List.forall_mem_append, List.forall_mem_singleton] at hsteps
      exact trans_of R (ih hsteps.1) (hexec _ _ hsteps.2 _ _ _ answered)

/-- Ask the requests one after another, as long as each has an end. -/
def follow (ip : Interpreter I L) (react : Host H I) (fuel : Nat) :
    List (Request I) → World H I →
      Option (List (Request I × Except Fault Answer) × World H I)
  | [], w => some ([], w)
  | r :: rs, w => do
    let (a, w₁) ← (exec ip react fuel r).run.run w
    let (steps, w₂) ← follow ip react fuel rs w₁
    return ((r, a) :: steps, w₂)

theorem run_of_follow {fuel : Nat} {rs : List (Request I)} {w w' : World H I}
    {steps : List (Request I × Except Fault Answer)}
    (h : follow ip react fuel rs w = some (steps, w')) : Run ip react w steps w' := by
  induction rs generalizing w steps with
  | nil =>
      cases h
      exact .rest
  | cons r rs ih =>
      obtain ⟨⟨a, w₁⟩, hexec, h⟩ := Option.bind_eq_some_iff.mp h
      obtain ⟨⟨steps, w₂⟩, hrest, h⟩ := Option.bind_eq_some_iff.mp h
      cases h
      exact (Run.rest.step hexec).append (ih hrest)

theorem requests_of_follow {fuel : Nat} {rs : List (Request I)} {w w' : World H I}
    {steps : List (Request I × Except Fault Answer)}
    (h : follow ip react fuel rs w = some (steps, w')) : steps.map Prod.fst = rs := by
  induction rs generalizing w steps with
  | nil =>
      cases h
      rfl
  | cons r rs ih =>
      obtain ⟨⟨a, w₁⟩, -, h⟩ := Option.bind_eq_some_iff.mp h
      obtain ⟨⟨steps, w₂⟩, hrest, h⟩ := Option.bind_eq_some_iff.mp h
      cases h
      exact congrArg (List.cons r) (ih hrest)

theorem run_of_follow_any {fuel : Nat} {rs : List (Request I)} {w : World H I}
    {p : List (Request I × Except Fault Answer) × World H I → Bool}
    (h : (follow ip react fuel rs w).any p = true) :
    ∃ steps w', Run ip react w steps w' ∧ p (steps, w') = true := by
  obtain ⟨⟨steps, w'⟩, hfollow, hp⟩ := (Option.any_eq_true _ _).mp h
  exact ⟨steps, w', run_of_follow hfollow, hp⟩

end Session

end Parley
