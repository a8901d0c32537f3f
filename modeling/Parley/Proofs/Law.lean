import Parley.Proofs.Backstage
import Parley.Proofs.Drive

/-!
# Laws of any host

A callback may drive the runner that calls it, to any depth, so a pump can find its
interpreter, the flag and the options changed by others at every move.  What still
holds is what each single change to the course keeps, whoever makes it.

`Course.Law` lists these changes.  A preorder that allows each of them is kept by every
request, `exec_keeps_of_law`: one induction for all such laws.  The changes to an
interpreter are what its functions do, `Interpreter.Calls`; of a pump's local state
only what is kept along its moves is known, and of a batch what such a pump can pause
with.
-/

namespace Parley

/-- What a move leads to: a local state as `p` says, or a batch as `q` says. -/
def Move.Leads {L : Type} (p : L → Prop) (q : List Event → Prop) : Move L → Prop
  | .again next => p next
  | .ask _ next => ∀ answer, p (next answer)
  | .pause events => q events
  | .fail _ => True

theorem Move.Leads.mono {L : Type} {p p' : L → Prop} {q q' : List Event → Prop} {m : Move L}
    (h : m.Leads p q) (hp : ∀ l, p l → p' l) (hq : ∀ events, q events → q' events) :
    m.Leads p' q' := by
  cases m with
  | again next => exact hp _ h
  | ask request next => exact fun answer => hp _ (h answer)
  | pause events => exact hq _ h
  | fail f => trivial

/-- What an interpreter can be asked to do while a dialogue is driven, pumps being in
local states as `fits` says. -/
inductive Interpreter.Calls {I L : Type} (ip : Interpreter I L) (fits : L → Prop) (core : I) :
    I → Prop where
  | setNode (node : Datum) : Calls ip fits core (ip.setNode node core).2
  | select (id : Datum) : Calls ip fits core (ip.select id core).2
  | stop : Calls ip fits core (ip.stop core).2
  | advance (textOf : TextOf) {l : L} : fits l → Calls ip fits core (ip.advance textOf l core).2

/-- Does the event complete the dialogue? -/
def Event.completes : Event → Bool
  | .completed => true
  | _ => false

/-- Does the dealing end the dialogue it belongs to: is it a `stop`, or a batch with a
completion in it? -/
def Dealing.ends : Dealing → Bool
  | .stopping => true
  | .batch events => events.any Event.completes
  | _ => false

/-- The request sets the runner up only on interpreters as `p` says. -/
def Request.Supplies {I : Type} (p : I → Prop) : Request I → Prop
  | .setup (some core) => p core
  | _ => True

theorem Request.Supplies.mono {I : Type} {p q : I → Prop} {r : Request I} (h : r.Supplies p)
    (hpq : ∀ core, p core → q core) : r.Supplies q := by
  unfold Request.Supplies at h ⊢
  split at h
  · exact hpq _ h
  · trivial

namespace Course

variable {I L : Type}

/-- `R` relates the courses before and after each change, when interpreters are set up as
`supplied` says, the local states of pumps are as `fits` says, and the batches as
`yielded` says. -/
structure Law (ip : Interpreter I L) (supplied : I → Prop) (fits : L → Prop)
    (yielded : List Event → Prop) (R : Course I → Course I → Prop) : Prop
    extends AllowsLoading ip R where
  grows : ∀ c c', R c c' → c.dealings <+: c'.dealings
  made : ∀ c core, supplied core ∨ c.factory = some core → R c (c.made core)
  shown : ∀ c line options, R c { c with line, options }
  released : ∀ c, R c c.released
  called : ∀ c slot core core', c.cores[slot]? = some core → ip.Calls fits core core' →
    R c (c.setCore slot core')
  entered : ∀ c, R c (c.flag true .entered)
  pumping : ∀ c, R c (c.deal .pumping)
  stopping : ∀ c, R c (c.deal .stopping)
  batch : ∀ c events, yielded events → R c (c.deal (.batch events))
  /-- what is settled ends a dialogue and stands at the place -/
  settled : ∀ c place d, c.dealings[place]? = some d → d.ends = true →
    R c (c.flag false (.settled place))
  begins : ∀ core, fits (ip.begin core)
  leads : ∀ textOf l core, fits l → (ip.advance textOf l core).1.Leads fits yielded
  stops : ∀ core events, (ip.stop core).1 = .ok events → yielded events

/-- The relation, as long as a given dealing stands at a place. -/
def Standing (place : Nat) (d : Dealing) (R : Course I → Course I → Prop) (c c' : Course I) :
    Prop := c.dealings[place]? = some d → R c c'

end Course

namespace Session

open Act
open Course (Law Standing)

variable {H I L : Type} {ip : Interpreter I L} {supplied : I → Prop} {fits : L → Prop}
  {yielded : List Event → Prop} {R : Course I → Course I → Prop} [IsPreorder (Course I) R]

section
variable {invoke : Invoke H I} {slot fuel : Nat} {w w' : World H I} {events : List Event}

omit [IsPreorder (Course I) R] in
theorem yielded_of_goesOn
    (hpump : ∀ {l : L} {u : World H I}, fits l →
      Yields (pump ip invoke slot fuel l) u (.ok events) w' → yielded events)
    {m : Move L} (hm : m.Leads fits yielded)
    (h : GoesOn ip invoke slot fuel w (.ok events) w' m) : yielded events := by
  cases m with
  | again next => exact hpump hm h
  | ask request next =>
      obtain ⟨answer, w₁, -, h⟩ := h
      exact hpump (hm answer) h
  | pause events =>
      cases h.1
      exact hm
  | fail f => cases h.1

omit [IsPreorder (Course I) R] in
theorem yielded_of_pump
    (hleads : ∀ textOf l core, fits l → (ip.advance textOf l core).1.Leads fits yielded)
    {l : L} (hl : fits l) (h : Yields (pump ip invoke slot fuel l) w (.ok events) w') :
    yielded events := by
  induction fuel generalizing l w with
  | zero => exact (not_yields_endless h).elim
  | succ fuel ih =>
      rcases pump_cases h with ⟨-, ⟨_, hr⟩, -⟩ | ⟨core, m, core', w₁, -, hadvance, -, h⟩
      · cases hr
      · have hmove := hleads w.textOf l core hl
        rw [hadvance] at hmove
        exact yielded_of_goesOn ih hmove h

end

section
variable (hlaw : Law ip supplied fits yielded R)
include hlaw

theorem standing_isPreorder (place : Nat) (d : Dealing) :
    IsPreorder (Course I) (Standing place d R) where
  refl c _ := refl_of R c
  trans c₁ c₂ c₃ := by
    intro h₁ h₂ hd
    obtain ⟨t, ht⟩ := hlaw.grows _ _ (h₁ hd)
    have hlt : place < c₁.dealings.length := (List.getElem?_eq_some_iff.mp hd).1
    refine trans_of R (h₁ hd) (h₂ ?_)
    rw [← ht, List.getElem?_append_left hlt, hd]

/-! ## What calls nobody -/

theorem setup_keeps {factory : Option I} (hfactory : Request.Supplies supplied (.setup factory)) :
    Keeps (OnCourse R) (setup ip factory : Act H I Unit) := by
  intro w r w' h
  show R w.course w'.course
  rcases setup_cases h with ⟨-, -, rfl⟩ | ⟨core, w₁, hcore, hw₁, hbuild⟩
  · exact refl_of R _
  · refine trans_of R (hlaw.made w.course core ?_)
      (hw₁ ▸ build_keeps hlaw.toAllowsLoading.onCourse none _ _ _ hbuild)
    cases factory with
    | none => exact .inr hcore
    | some core =>
        cases hcore
        exact .inl hfactory

theorem select_keeps (choice : Option Choice) :
    Keeps (OnCourse R) (select ip choice : Act H I Outcome) := by
  intro w r w' h
  show R w.course w'.course
  rcases select_cases h with
      ⟨-, -, rfl⟩ | ⟨-, -, rfl⟩ | ⟨-, -, -, hw'⟩ | ⟨slot, core, b, -, hcore, -, hw', -⟩
  · exact refl_of R _
  · exact refl_of R _
  · rw [hw']
    exact refl_of R _
  · rw [hw']
    exact hlaw.called _ slot core _ hcore (.select b.id)

theorem selectPick_keeps (p : Pick) : Keeps (OnCourse R) (selectPick ip p : Act H I Answer) :=
  selectPick_keeps_of_select (select_keeps hlaw) p

/-! ## What calls the host -/

variable {invoke : Invoke H I} (hinvoke : ∀ c, Keeps (OnCourse R) (invoke c))
include hinvoke

theorem pump_keeps (slot fuel : Nat) {l : L} (hl : fits l) :
    Keeps (OnCourse R) (pump ip invoke slot fuel l) := by
  induction fuel generalizing l with
  | zero => exact keeps_endless
  | succ fuel ih =>
      intro w r w' h
      show R w.course w'.course
      rcases pump_cases h with ⟨-, -, rfl⟩ | ⟨core, m, core', w₁, hcore, hadvance, hw₁, h⟩
      · exact refl_of R _
      · have hleads := hlaw.leads w.textOf l core hl
        have hcalled := hlaw.called _ slot core _ hcore (.advance w.textOf hl)
        rw [hadvance] at hleads hcalled
        rw [← hw₁] at hcalled
        refine trans_of R hcalled ?_
        cases m with
        | again next => exact ih hleads w₁ r w' h
        | ask request next =>
            obtain ⟨answer, w₂, hserve, h⟩ := h
            exact trans_of R (serve_keeps hinvoke slot request w₁ answer w₂ hserve)
              (ih (hleads answer) w₂ r w' h)
        | pause | fail =>
            rw [h.2]
            exact refl_of R _

/-- An event of the batch at a place: a completion settles that batch. -/
theorem process_keeps (place : Nat) {events : List Event} {e : Event} (he : e ∈ events) :
    Keeps (OnCourse (Standing place (.batch events) R)) (process invoke place e) := by
  have := standing_isPreorder hlaw place (.batch events)
  have hinvoke : ∀ c, Keeps (OnCourse (Standing place (.batch events) R)) (invoke c) := fun c =>
    (hinvoke c).mono fun _ _ h _ => h
  cases e with
  | line | options =>
      exact .bind (notify_keeps hinvoke _) fun _ =>
        keeps_modify_of fun w _ => hlaw.shown w.course _ _
  | command name parameters => exact (dispatch_keeps hinvoke _ _).discard
  | nodeStarted | nodeCompleted | hints => exact notify_keeps hinvoke _
  | completed =>
      refine .bind (notify_keeps hinvoke _) fun _ => keeps_modify_of ?_
      intro w hplace
      exact hlaw.settled w.course place _ hplace (List.any_eq_true.mpr ⟨_, he, rfl⟩)
  | plain | alien => exact keeps_log _

theorem processAll_keeps_dealt {events : List Event} {w w' : World H I} {r : Except Fault Unit}
    (h : Yields (processAll invoke events) w r w') :
    R (w.course.deal (.batch events)) w'.course := by
  have := standing_isPreorder hlaw w.dealings.length (.batch events)
  have hpassed := keeps_forM events
    (fun e he => process_keeps hlaw hinvoke w.dealings.length he) _ _ _
    (yields_modify_bind.mp (yields_get_bind.mp h))
  exact hpassed List.getElem?_concat_length

theorem processAll_keeps {events : List Event} (hevents : yielded events) :
    Keeps (OnCourse R) (processAll invoke events) := fun w _ _ h =>
  trans_of R (hlaw.batch w.course events hevents) (processAll_keeps_dealt hlaw hinvoke h)

theorem continueDialogue_keeps (fuel : Nat) :
    Keeps (OnCourse R) (continueDialogue ip fuel invoke) := by
  intro w r w' h
  show R w.course w'.course
  have hcleared : R w.course w.course.cleared :=
    trans_of R (hlaw.shown w.course none []) (hlaw.pumping _)
  rcases continue_cases h with
      ⟨-, -, rfl⟩ | ⟨-, -, -, hw'⟩ | ⟨-, slot, core, x, w₁, w₂, -, -, hw₁, hpump, h⟩
  · exact refl_of R _
  · rw [hw']
    exact hcleared
  · have hpumped : R w₁.course w₂.course :=
      pump_keeps hlaw hinvoke slot fuel (hlaw.begins core) w₁ x w₂ hpump
    rw [hw₁] at hpumped
    refine trans_of R hcleared (trans_of R hpumped ?_)
    rcases h with ⟨f, -, -, hw'⟩ | ⟨events, y, rfl, hpassed, -⟩
    · rw [hw']
      exact refl_of R _
    · have hyielded := yielded_of_pump hlaw.leads (hlaw.begins core) hpump
      exact processAll_keeps hlaw hinvoke hyielded w₂ y w' hpassed

theorem start_keeps (fuel : Nat) (node : Datum) :
    Keeps (OnCourse R) (start ip fuel invoke node) := by
  intro w r w' h
  show R w.course w'.course
  rcases start_cases h with
      ⟨-, -, rfl⟩ | ⟨-, -, -, rfl⟩ | ⟨-, _, -, -, -, hw'⟩ | ⟨-, slot, core, -, hcore, h⟩
  · exact refl_of R _
  · exact refl_of R _
  · rw [hw']
    exact refl_of R _
  · have hset := hlaw.called _ slot core _ hcore (.setNode node)
    rcases h with ⟨f, -, -, hw'⟩ | ⟨w₁, -, hw₁, hrest⟩
    · rw [hw']
      exact hset
    · have hkeeps : Keeps (OnCourse R) (do
          notify invoke .started
          continueDialogue ip fuel invoke) :=
        .bind (notify_keeps hinvoke _) fun _ => continueDialogue_keeps hlaw hinvoke fuel
      have hentered := hlaw.entered (w.course.setCore slot (ip.setNode node core).2)
      rw [← hw₁] at hentered
      exact trans_of R hset (trans_of R hentered (hkeeps w₁ r w' hrest))

theorem stop_keeps : Keeps (OnCourse R) (stop ip invoke) := by
  intro w r w' h
  show R w.course w'.course
  obtain ⟨w₁, hw₁, h⟩ := stop_cases h
  have hstopping := hlaw.stopping w.course
  have hstands : w₁.course.dealings[w.dealings.length]? = some .stopping := by
    rw [hw₁]
    exact List.getElem?_concat_length
  rw [← hw₁] at hstopping
  refine trans_of R hstopping ?_
  have := standing_isPreorder hlaw w.dealings.length .stopping
  have hsettled : ∀ c : Course I, Standing w.dealings.length .stopping R c
      (c.flag false (.settled w.dealings.length)) := fun c hc => hlaw.settled c _ _ hc rfl
  rcases h with ⟨-, -, hw'⟩ | ⟨-, -, -, hw'⟩ | ⟨slot, core, -, hcore, h⟩
  · rw [hw']
    exact hsettled _ hstands
  · rw [hw']
    exact refl_of R _
  · have hcore₁ : w₁.course.cores[slot]? = some core := by
      rw [hw₁]
      exact hcore
    have hcalled := hlaw.called _ slot core _ hcore₁ .stop
    rcases h with ⟨f, -, -, hw'⟩ | ⟨events, w₂, w₃, y, hevents, hw₂, hpassed, h⟩
    · rw [hw']
      exact hcalled
    · have hpassed : R w₁.course w₃.course := by
        refine trans_of R hcalled (hw₂ ▸ ?_)
        exact processAll_keeps hlaw hinvoke (hlaw.stops core events hevents) w₂ y w₃ hpassed
      rcases h with ⟨f, -, -, hw'⟩ | ⟨-, -, hw'⟩
      · rw [hw']
        exact hpassed
      · rw [hw']
        exact trans_of (Standing _ _ R) (fun _ => hpassed) (hsettled _) hstands

theorem cleanup_keeps : Keeps (OnCourse R) (cleanup ip invoke) := by
  have hrelease :
      Keeps (OnCourse R) (modify fun w => { w.blank with current := none } : Act H I Unit) :=
    keeps_modify_of fun w => hlaw.released w.course
  refine .bind keeps_get ?_
  intro w
  split
  · exact .bind (stop_keeps hlaw hinvoke).discard fun _ => .bind keeps_held fun _ =>
      .bind (unload_keeps hlaw.toAllowsLoading.onCourse _) fun _ => hrelease
  · exact hrelease

theorem perform_keeps_of_drives (fuel : Nat) {r : Request I} (hr : r.Supplies supplied)
    (hdrives : r.drives = true) : Keeps (OnCourse R) (perform ip fuel invoke r) := by
  cases r with
  | setup factory => exact only_keeps (setup_keeps hlaw hr)
  | cleanup => exact only_keeps (cleanup_keeps hlaw hinvoke)
  | build programs => exact only_keeps (build_keeps hlaw.toAllowsLoading.onCourse programs)
  | clearPrograms => exact only_keeps (clearPrograms_keeps hlaw.toAllowsLoading.onCourse)
  | start node => exact .bind (start_keeps hlaw hinvoke fuel node) fun _ => keeps_pure _
  | «continue» => exact .bind (continueDialogue_keeps hlaw hinvoke fuel) fun _ => keeps_pure _
  | stop => exact .bind (stop_keeps hlaw hinvoke) fun _ => keeps_pure _
  | select p => exact selectPick_keeps hlaw p
  | _ => cases hdrives

end

/-- Every request keeps the law, if the callbacks set up interpreters as it asks. -/
theorem exec_keeps_of_law (hlaw : Law ip supplied fits yielded R) {react : Host H I}
    {q : Callback → Except Fault Datum → Prop}
    (hreact : ∀ host c, (react host c).Abides (Request.Supplies supplied) (q c)) (fuel : Nat)
    (r : Request I) (hr : r.Supplies supplied) : Keeps (OnCourse R) (exec ip react fuel r) :=
  exec_keeps_of_drives hreact
    (fun fuel _ hinvoke _ hr => perform_keeps_of_drives hlaw hinvoke fuel hr) fuel r hr

end Session

end Parley
