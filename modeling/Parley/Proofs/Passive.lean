import Parley.Proofs.Drive

/-!
# Passive hosts

A host is aloof if its callbacks ask nothing that drives the runner, and passive if they also
hear the runner's notifications without failing.  They may do anything else: write variables,
register and remove handlers, publish on the bus.  A command's handler, a function for
scripts and a listener of the store may also fail.

Calling an aloof host leaves the course alone, so an event either fails and has done nothing,
or it is passed on as `Course.pass` says.  With a passive host only a command can fail, and
every operation of the runner has one reading on courses.  `Pumps` is a pump of an interpreter
whose state nobody else touches.

A host that is not aloof may still leave the runner alone for a while.  `undriven` calls any host
with the runner out of its callbacks' reach, so that what comes to an end that way is what
nobody drove the runner in.
-/

namespace Parley

/-- Does the callback bring a notification of the runner? -/
def Callback.tells : Callback → Bool
  | .sink _ | .listener _ (.told _) => true
  | _ => false

/-- The callbacks ask for nothing that drives the runner. -/
def Host.Aloof {H I : Type} (react : Host H I) : Prop :=
  ∀ host c, (react host c).Abides (fun r => r.drives = false) fun _ => True

/-- The callbacks leave the runner alone and hear its notifications without failing. -/
def Host.Passive {H I : Type} (react : Host H I) : Prop :=
  ∀ host c, (react host c).Abides (fun r => r.drives = false)
    (fun result => c.tells = true → ∃ d, result = .ok d)

theorem Host.Passive.aloof {H I : Type} {react : Host H I} (h : react.Passive) : react.Aloof :=
  fun host c => (h host c).mono (fun _ => id) fun _ _ => trivial

/-- Calling the host leaves the course alone, and its notifications are heard. -/
structure Invoke.Passive {H I : Type} (invoke : Invoke H I) : Prop where
  keeps : ∀ c, Act.Keeps (OnCourse Eq) (invoke c)
  hears : ∀ c, c.tells = true → ∀ w r w', Act.Yields (invoke c) w r w' → ∃ d, r = .ok d

/-- Why a command of a script can fail: its name cannot be looked up, a parameter has no
form for the host, or the handler's fault is not one that is contained. -/
inductive CommandFault (name : Datum) (parameters : List Datum) (f : Fault) : Prop where
  | name : name.asKey = .error f → CommandFault name parameters f
  | parameter : parameters.mapM Datum.toHost = .error f → CommandFault name parameters f
  | handler : f.isA .exception = false → CommandFault name parameters f

namespace Course

variable {I : Type}

/-- The effect of passing on an event of the batch at a place. -/
def pass (place : Nat) (c : Course I) : Event → Course I
  | .line l => { c with line := some l }
  | .options branches =>
    { c with options := c.options ++ branches.map fun b => { branch := some b } }
  | .completed => c.flag false (.settled place)
  | _ => c

/-- A batch is passed on as a whole, or up to a command that fails. -/
inductive Passed (place : Nat) (c : Course I) :
    List Event → Except Fault Unit → Course I → Prop where
  | whole (events : List Event) : Passed place c events (.ok ()) (events.foldl (pass place) c)
  | cut (before : List Event) {name : Datum} {parameters : List Datum} {f : Fault}
      (after : List Event) : CommandFault name parameters f →
      Passed place c (before ++ .command name parameters :: after) (.error f)
        (before.foldl (pass place) c)

theorem Passed.whole_of_not_command {place : Nat} {c c' : Course I} {events : List Event}
    {r : Except Fault Unit} (h : Passed place c events r c')
    (hevents : ∀ name parameters, .command name parameters ∉ events) :
    r = .ok () ∧ c' = events.foldl (pass place) c := by
  cases h with
  | whole => exact ⟨rfl, rfl⟩
  | cut before after => exact absurd (List.mem_append_right _ List.mem_cons_self) (hevents _ _)

theorem setCore_setCore (c : Course I) (slot : Nat) (core core' : I) :
    (c.setCore slot core).setCore slot core' = c.setCore slot core' := by
  simp [setCore]

theorem setCore_same {c : Course I} {slot : Nat} {core : I} (hcore : c.cores[slot]? = some core) :
    c.setCore slot core = c := by
  obtain ⟨hlt, rfl⟩ := List.getElem?_eq_some_iff.mp hcore
  rw [setCore, List.set_getElem_self]

theorem cores_setCore {c : Course I} {slot : Nat} {core : I} (core' : I)
    (hcore : c.cores[slot]? = some core) : (c.setCore slot core').cores[slot]? = some core' := by
  obtain ⟨hlt, -⟩ := List.getElem?_eq_some_iff.mp hcore
  exact List.getElem?_set_self hlt

end Course

theorem World.course_keep {H I : Type} (w : World H I) (place : Nat) (e : Event) :
    (w.keep place e).course = w.course.pass place e := by
  cases e <;> rfl

/-- A pump from a local state on, with any texts and any answers, to its end: the result
and the state it leaves. -/
inductive Pumps {I L : Type} (ip : Interpreter I L) :
    L → I → Except Fault (List Event) → I → Prop where
  | again {textOf l core next core' r core''} : ip.advance textOf l core = (.again next, core') →
      Pumps ip next core' r core'' → Pumps ip l core r core''
  | ask {textOf l core request next answer core' r core''} :
      ip.advance textOf l core = (.ask request next, core') →
      Pumps ip (next answer) core' r core'' → Pumps ip l core r core''
  | pause {textOf l core events core'} : ip.advance textOf l core = (.pause events, core') →
      Pumps ip l core (.ok events) core'
  | fail {textOf l core f core'} : ip.advance textOf l core = (.fail f, core') →
      Pumps ip l core (.error f) core'

namespace Session

open Act

variable {H I L α : Type}

/-! ## Calling a passive host -/

theorem runScript_abides {p : Request I → Prop} {q : Except Fault Datum → Prop}
    {answer : Request I → Act H I Answer} {s : Script H I} (hs : s.Abides p q) {w w' : World H I}
    {r : Except Fault Datum} (h : Yields (runScript answer s) w r w') : q r := by
  induction s generalizing w with
  | finish host result =>
      obtain ⟨rfl, -⟩ := yields_finish.mp h
      exact hs
  | request host r next ih =>
      obtain ⟨-, hnext⟩ := hs
      obtain ⟨a, u, -, hrest⟩ := yields_request.mp h
      exact ih _ _ (hnext _ _) hrest

variable {ip : Interpreter I L} {react : Host H I}

theorem runScript_congr {p : Request I → Prop} {q : Except Fault Datum → Prop}
    {answer answer' : Request I → Act H I Answer} {s : Script H I} (hs : s.Abides p q)
    (h : ∀ r, p r → answer r = answer' r) : runScript answer s = runScript answer' s := by
  induction s with
  | finish => rfl
  | request host r next ih =>
      obtain ⟨hr, hnext⟩ := hs
      have hrest : ∀ host a, runScript answer (next host a) = runScript answer' (next host a) :=
        fun host a => ih host a (hnext host a)
      simp only [runScript, h r hr, hrest]

/-- Answer a request of a callback with the runner out of its reach: what drives the runner has
no end. -/
def execUndriven (ip : Interpreter I L) (react : Host H I) : Nat → Request I → Act H I Answer
  | 0, _ => endless
  | fuel + 1, r =>
    if r.drives then endless
    else perform ip fuel (callHost react (execUndriven ip react fuel)) r

/-- How the library calls this host, if no callback drives the runner. -/
abbrev undriven (ip : Interpreter I L) (react : Host H I) (fuel : Nat) : Invoke H I :=
  callHost react (execUndriven ip react fuel)

theorem undriven_keeps {R : World H I → World H I → Prop} [OverlooksCalls R] [OverlooksBus R]
    [AllowsWriting R] (fuel : Nat) (c : Callback) : Keeps R (undriven ip react fuel c) := by
  induction fuel generalizing c with
  | zero =>
      exact callHost_keeps (fun _ _ => keeps_endless) fun _ => Script.abides_true _
  | succ fuel ih =>
      refine callHost_keeps (fun r _ => ?_) fun _ => Script.abides_true _
      unfold execUndriven
      cases hdrives : r.drives with
      | true => exact keeps_endless
      | false => exact perform_keeps_of_not_drives ih ip fuel r hdrives

/-- An aloof host does not miss the runner. -/
theorem undriven_of_aloof (hreact : react.Aloof) (fuel : Nat) :
    undriven ip react fuel = calls ip react fuel := by
  induction fuel with
  | zero =>
      funext c
      unfold undriven calls callHost
      congr
  | succ fuel ih =>
      funext c
      have hanswer : ∀ r : Request I, r.drives = false →
          execUndriven ip react (fuel + 1) r = exec ip react (fuel + 1) r := by
        intro r hr
        show (if r.drives then endless else perform ip fuel (undriven ip react fuel) r) = _
        rw [hr, ih]
        rfl
      unfold undriven calls callHost
      simp only [runScript_congr (hreact _ c) hanswer]

theorem callHost_aloof (hreact : react.Aloof) (fuel : Nat) (c : Callback) :
    Keeps (OnCourse Eq) (calls ip react fuel c) := by
  rw [← undriven_of_aloof hreact]
  exact undriven_keeps fuel c

theorem calls_hear {p : Request I → Prop} (hreact : ∀ host c, (react host c).Abides p
    (fun result => c.tells = true → ∃ d, result = .ok d)) (fuel : Nat) (c : Callback)
    (hc : c.tells = true) (w : World H I) (r : Except Fault Datum) (w' : World H I)
    (h : Yields (calls ip react fuel c) w r w') : ∃ d, r = .ok d := by
  exact runScript_abides (hreact _ c) (yields_callHost.mp h) hc

theorem callHost_passive (hreact : react.Passive) (fuel : Nat) :
    Invoke.Passive (callHost react (exec ip react fuel)) where
  keeps := callHost_aloof hreact.aloof fuel
  hears := calls_hear hreact fuel

/-! ## Passing events on and pumping, with an aloof host -/

section
variable {invoke : Invoke H I} {place : Nat} {e : Event} {events : List Event} {w w' : World H I}
  (hinvoke : ∀ c, Keeps (OnCourse Eq) (invoke c))
include hinvoke

/-- An event that fails has done nothing to the course: what is written is written last. -/
theorem course_of_process_error {f : Fault}
    (h : Yields (process invoke place e) w (.error f) w') : w'.course = w.course := by
  rcases process_cases h with
      ⟨n, -, ⟨f, -, hnotify⟩ | ⟨u, hr, -⟩⟩ | ⟨name, parameters, -, hdispatch⟩ | ⟨-, hr, -⟩
  · exact (notify_keeps hinvoke n _ _ _ hnotify).symm
  · cases hr
  · exact ((dispatch_keeps hinvoke name parameters).discard _ _ _ hdispatch).symm
  · cases hr

theorem course_of_process_ok (h : Yields (process invoke place e) w (.ok ()) w') :
    w'.course = w.course.pass place e := by
  rcases process_cases h with
      ⟨n, -, ⟨f, hr, -⟩ | ⟨u, -, hnotify, rfl⟩⟩ | ⟨name, parameters, rfl, hdispatch⟩ |
        ⟨hunknown, -, rfl⟩
  · cases hr
  · have hu : w.course = u.course := notify_keeps hinvoke n _ _ _ hnotify
    rw [World.course_keep, hu]
  · exact ((dispatch_keeps hinvoke name parameters).discard _ _ _ hdispatch).symm
  · cases e <;> first | rfl | cases hunknown

theorem course_of_events_ok (h : Yields (events.forM (process invoke place)) w (.ok ()) w') :
    w'.course = events.foldl (Course.pass place) w.course := by
  induction events generalizing w with
  | nil =>
      obtain ⟨-, rfl⟩ := yields_pure.mp h
      rfl
  | cons e events ih =>
      rcases yields_bind.mp h with ⟨⟨⟩, w₁, hprocess, hrest⟩ | ⟨e, -, hr⟩
      · rw [ih hrest, course_of_process_ok hinvoke hprocess, List.foldl_cons]
      · cases hr

/-- A pump of an interpreter whose state is touched by nothing else. -/
theorem pump_aloof {slot fuel : Nat} {l : L} {core : I} {r : Except Fault (List Event)}
    (hcore : w.course.cores[slot]? = some core)
    (h : Yields (pump ip invoke slot fuel l) w r w') :
    ∃ core', Pumps ip l core r core' ∧ w'.course = w.course.setCore slot core' := by
  induction fuel generalizing l w core with
  | zero => exact (not_yields_endless h).elim
  | succ fuel ih =>
      rcases pump_cases h with ⟨hnone, -⟩ | ⟨_, m, core₁, w₁, hcore', hadvance, hw₁, h⟩
      · cases hnone.symm.trans hcore
      · cases hcore'.symm.trans hcore
        have hcore₁ := Course.cores_setCore core₁ hcore
        rw [← hw₁] at hcore₁
        cases m with
        | again next =>
            obtain ⟨core', hpumps, hw'⟩ := ih hcore₁ h
            refine ⟨core', .again hadvance hpumps, ?_⟩
            rw [hw', hw₁, Course.setCore_setCore]
        | ask request next =>
            obtain ⟨answer, w₂, hserve, h⟩ := h
            have hw₂ : w₁.course = w₂.course :=
              serve_keeps hinvoke slot request w₁ answer w₂ hserve
            obtain ⟨core', hpumps, hw'⟩ := ih (hw₂ ▸ hcore₁) h
            refine ⟨core', .ask hadvance hpumps, ?_⟩
            rw [hw', ← hw₂, hw₁, Course.setCore_setCore]
        | pause events =>
            obtain ⟨rfl, rfl⟩ := h
            exact ⟨core₁, .pause hadvance, hw₁⟩
        | fail f =>
            obtain ⟨rfl, rfl⟩ := h
            exact ⟨core₁, .fail hadvance, hw₁⟩

end

/-! ## Notifications and commands, with a passive host -/

theorem bring_heard {invoke : Invoke H I} (hhears : ∀ c, c.tells = true → ∀ w r w',
    Yields (invoke c) w r w' → ∃ d, r = .ok d) {n : Notification} {w w' : World H I}
    {r : Except Fault Unit} (h : Yields (bring invoke n) w r w') : r = .ok () := by
  have hheard : ∀ c : Callback, c.tells = true → ∀ (u u' : World H I) x,
      Yields (discard (invoke c)) u x u' → x = .ok () := by
    intro c hc u u' x h
    obtain ⟨y, hy, rfl⟩ := yields_discard.mp h
    obtain ⟨d, rfl⟩ := hhears c hc u y u' hy
    rfl
  unfold bring at h
  have h := yields_get_bind.mp h
  split at h
  · exact (yields_pure.mp h).1
  · exact hheard _ rfl _ _ _ h
  · refine yields_forM_ok (fun l u u' x hl => ?_) (yields_get_bind.mp (yields_modify_bind.mp h))
    exact hheard _ rfl u u' x hl

theorem notify_heard {invoke : Invoke H I} (hhears : ∀ c, c.tells = true → ∀ w r w',
    Yields (invoke c) w r w' → ∃ d, r = .ok d) {n : Notification} {w w' : World H I}
    {r : Except Fault Unit} (h : Yields (notify invoke n) w r w') : r = .ok () := by
  rcases yields_bind.mp (yields_modify_bind.mp h) with ⟨_, w₁, -, hmark⟩ | ⟨e, hbring, -⟩
  · exact (yields_modify.mp hmark).1
  · cases bring_heard hhears hbring

section
variable {invoke : Invoke H I} (hinvoke : invoke.Passive) {w w' : World H I}
include hinvoke

theorem notify_passive {n : Notification} {r : Except Fault Unit}
    (h : Yields (notify invoke n) w r w') : r = .ok () ∧ w'.course = w.course :=
  ⟨notify_heard hinvoke.hears h, (notify_keeps hinvoke.keeps n w r w' h).symm⟩

theorem dispatch_passive {name : Datum} {parameters : List Datum} {r : Except Fault Bool}
    (h : Yields (dispatch invoke name parameters) w r w') :
    (∀ f, r = .error f → CommandFault name parameters f) ∧ w'.course = w.course := by
  refine ⟨?_, (dispatch_keeps hinvoke.keeps name parameters w r w' h).symm⟩
  rintro f rfl
  rcases yields_bind.mp h with ⟨handler, w₁, -, hrest⟩ | ⟨e, hhandler, hf⟩
  · split at hrest
    · have hpure := yields_modify_bind.mp hrest
      cases (yields_pure.mp hpure).1
    · rcases yields_bind.mp hrest with ⟨arguments, w₂, -, hrun⟩ | ⟨e, hof, hf⟩
      · obtain ⟨x, w₃, -, hresult⟩ := yields_attempt_bind.mp hrun
        split at hresult
        · cases (yields_pure.mp hresult).1
        · split at hresult
          · have hpure := yields_modify_bind.mp hresult
            cases (yields_pure.mp hpure).1
          · next hexception =>
            cases (yields_throw.mp hresult).1
            exact .handler (by simpa using hexception)
      · cases hf
        exact .parameter (yields_of.mp hof).1.symm
  · cases hf
    rcases yields_bind.mp hhandler with ⟨_, w₁, -, hget⟩ | ⟨e, hkey, hf⟩
    · have hpure := yields_get_bind.mp hget
      cases (yields_pure.mp hpure).1
    · cases hf
      obtain ⟨x, hof, hx⟩ := yields_discard.mp hkey
      obtain ⟨rfl, -⟩ := yields_of.mp hof
      refine .name ?_
      cases hname : name.asKey with
      | ok d =>
          rw [hname] at hx
          cases hx
      | error e =>
          rw [hname] at hx
          cases hx
          rfl

/-! ## Events -/

theorem process_passive {place : Nat} {e : Event} {r : Except Fault Unit}
    (h : Yields (process invoke place e) w r w') :
    (r = .ok () ∧ w'.course = w.course.pass place e) ∨
      ∃ name parameters f, e = .command name parameters ∧ CommandFault name parameters f ∧
        r = .error f ∧ w'.course = w.course := by
  rcases process_cases h with
      ⟨n, -, ⟨f, -, hnotify⟩ | ⟨u, rfl, -⟩⟩ | ⟨name, parameters, rfl, hcommand⟩ | ⟨-, rfl, -⟩
  · cases (notify_passive hinvoke hnotify).1
  · exact .inl ⟨rfl, course_of_process_ok hinvoke.keeps h⟩
  · obtain ⟨x, hdispatch, rfl⟩ := yields_discard.mp hcommand
    obtain ⟨hfault, hw'⟩ := dispatch_passive hinvoke hdispatch
    cases x with
    | ok b => exact .inl ⟨rfl, hw'⟩
    | error f => exact .inr ⟨name, parameters, f, rfl, hfault f rfl, rfl, hw'⟩
  · exact .inl ⟨rfl, course_of_process_ok hinvoke.keeps h⟩

theorem processAll_passive {events : List Event} {r : Except Fault Unit}
    (h : Yields (processAll invoke events) w r w') :
    Course.Passed w.dealings.length (w.course.deal (.batch events)) events r w'.course := by
  have hevents := yields_modify_bind.mp (yields_get_bind.mp h)
  cases r with
  | ok _ =>
      rw [course_of_events_ok hinvoke.keeps hevents]
      exact .whole events
  | error f =>
      obtain ⟨before, e, after, u, rfl, hbefore, he⟩ := exists_of_yields_forM_error hevents
      rcases process_passive hinvoke he with ⟨hr, -⟩ | ⟨name, parameters, f, rfl, hfault, hr, hw'⟩
      · cases hr
      · cases hr
        rw [hw', course_of_events_ok hinvoke.keeps hbefore]
        exact .cut before after hfault

end

end Session

end Parley
