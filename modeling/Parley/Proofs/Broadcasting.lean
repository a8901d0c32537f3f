import Parley.Proofs.Carrying
import Parley.Proofs.Obtaining
import Parley.Proofs.Scripted
import Parley.Session.Create

/-!
# The order of events on the bus

A runner that is made with a bus and no sink or store of the host's sends everything there: the
store its changes, while the interpreter runs, and the runner its notifications, once the
interpreter has paused.  So a request that pumps sends in three parts.

| | what is sent | when the pump fails |
| :-- | :-- | :-- |
| `opening` | that a dialogue started, for a start at a node that is there | the same |
| `Trail` | the change of every write that is accepted, step by step | up to the failure |
| `Notice.ofEvents` | the events of the batch, in order | nothing |

A command is the last event of its batch, so what its handler writes comes after the rest
(`processAll_carried`).  What a function or a handler publishes by hand stands where it is called;
of a host that does nothing of the kind the three parts and the handler's changes are all there
is.
-/

namespace Parley

/-- What goes over the bus when a batch is passed on, its commands apart. -/
def Notice.ofEvents (events : List Event) : List Notice :=
  (events.filterMap Event.notification?).map .told

theorem Notice.ofEvents_append (events events' : List Event) :
    ofEvents (events ++ events') = ofEvents events ++ ofEvents events' := by
  simp [ofEvents]

/-- What goes over the bus before a request pumps. -/
def Request.opening {I : Type} : Request I → List Notice
  | .start _ => [.told .started]
  | _ => []

namespace World

variable {H I L : Type} {w : World H I}

theorem Wired.begun (h : w.Wired) (ip : Interpreter I L) (core : I) : (w.begun ip core).Wired := by
  unfold World.begun observed
  split <;> exact h.of_same rfl rfl rfl

theorem Wired.entered (h : w.Wired) (ip : Interpreter I L) (slot : Nat) (core : I)
    (node : Datum) : (w.entered ip slot core node).Wired := by
  unfold World.entered observed
  split <;> exact h.of_same rfl rfl rfl

theorem carried_begun {alone : Prop} (w : World H I) (ip : Interpreter I L) (core : I) :
    Carried alone [] [] w (w.begun ip core) := by
  unfold begun observed
  split <;> exact .of_same rfl rfl

theorem carried_entered {alone : Prop} (w : World H I) (ip : Interpreter I L) (slot : Nat)
    (core : I) (node : Datum) : Carried alone [] [] w (w.entered ip slot core node) := by
  unfold entered observed
  split <;> exact .of_same rfl rfl

end World

namespace Session

open Act

variable {H I L : Type} {alone : Prop}

/-! ## Pumps -/

/-- A pump from a local state on, to its end: the changes that the script's writes made, and what
went over the bus meanwhile.  An accepted write adds its own change to both, a refused one
nothing, and a call what comes of it. -/
inductive Trail (ip : Interpreter I L) (invoke : Invoke H I) (alone : Prop) (slot : Nat) :
    L → World H I → List Notice → List Notice → Except Fault (List Event) → World H I → Prop where
  /-- no sequence of requests leads there -/
  | lost {l : L} {w : World H I} {f : Fault} : w.course.cores[slot]? = none →
      Trail ip invoke alone slot l w [] [] (.error f) w
  | again {l next : L} {w w' : World H I} {core core' : I} {changes sent : List Notice}
      {x : Except Fault (List Event)} : w.course.cores[slot]? = some core →
      ip.advance w.textOf l core = (.again next, core') →
      Trail ip invoke alone slot next (w.withCore slot core') changes sent x w' →
      Trail ip invoke alone slot l w changes sent x w'
  | wrote {l : L} {next : Except Fault Datum → L} {w u w' : World H I} {core core' : I}
      {name value : Datum} {n : Notice} {changes sent : List Notice}
      {x : Except Fault (List Event)} : w.course.cores[slot]? = some core →
      ip.advance w.textOf l core = (.ask (.write name value) next, core') →
      acceptedValue? w.settings (name, value) = some n →
      Yields (serve invoke slot (.write name value)) (w.withCore slot core') (.ok .nothing) u →
      Trail ip invoke alone slot (next (.ok .nothing)) u changes sent x w' →
      Trail ip invoke alone slot l w (n :: changes) (n :: sent) x w'
  | refused {l : L} {next : Except Fault Datum → L} {w u w' : World H I} {core core' : I}
      {name value : Datum} {f : Fault} {changes sent : List Notice}
      {x : Except Fault (List Event)} : w.course.cores[slot]? = some core →
      ip.advance w.textOf l core = (.ask (.write name value) next, core') →
      acceptedValue? w.settings (name, value) = none →
      Yields (serve invoke slot (.write name value)) (w.withCore slot core') (.error f) u →
      Trail ip invoke alone slot (next (.error f)) u changes sent x w' →
      Trail ip invoke alone slot l w changes sent x w'
  | called {l : L} {next : Except Fault Datum → L} {w u w' : World H I} {core core' : I}
      {function : Datum} {arguments : Except Fault (List Datum)} {answer : Except Fault Datum}
      {changes own sent : List Notice} {x : Except Fault (List Event)} :
      w.course.cores[slot]? = some core →
      ip.advance w.textOf l core = (.ask (.call function arguments) next, core') →
      Yields (serve invoke slot (.call function arguments)) (w.withCore slot core') answer u →
      Carried alone [] own (w.withCore slot core') u →
      Trail ip invoke alone slot (next answer) u changes sent x w' →
      Trail ip invoke alone slot l w changes (own ++ sent) x w'
  | pause {l : L} {w : World H I} {core core' : I} {events : List Event} :
      w.course.cores[slot]? = some core →
      ip.advance w.textOf l core = (.pause events, core') →
      Trail ip invoke alone slot l w [] [] (.ok events) (w.withCore slot core')
  | fail {l : L} {w : World H I} {core core' : I} {f : Fault} :
      w.course.cores[slot]? = some core → ip.advance w.textOf l core = (.fail f, core') →
      Trail ip invoke alone slot l w [] [] (.error f) (w.withCore slot core')

section
variable {ip : Interpreter I L} {invoke : Invoke H I} (hinvoke : invoke.Serves alone)
include hinvoke

/-- A pump leaves a trail, and the trail says what it changed and sent. -/
theorem pump_trail {slot fuel : Nat} {l : L} {w w' : World H I} (hw : w.Wired)
    {x : Except Fault (List Event)} (h : Yields (pump ip invoke slot fuel l) w x w') :
    ∃ changes sent, Trail ip invoke alone slot l w changes sent x w' ∧
      Carried alone changes sent w w' ∧ w'.Wired := by
  -- on the number of moves: serving what one asks for leaves the world wired for the next
  induction fuel generalizing l w with
  | zero => exact (not_yields_endless h).elim
  | succ fuel ih =>
      cases hcore : w.course.cores[slot]? with
      | none =>
          rcases pump_cases h with ⟨-, ⟨f, rfl⟩, rfl⟩ | ⟨core, _, _, _, hcore', -⟩
          · exact ⟨[], [], .lost hcore, .of_same rfl rfl, hw⟩
          · cases hcore.symm.trans hcore'
      | some core =>
          have hmoved := (yields_pump hcore).mp h
          rcases hadvance : ip.advance w.textOf l core with ⟨m, core'⟩
          rw [hadvance] at hmoved
          have hw₁ : (w.withCore slot core').Wired := hw.of_same rfl rfl rfl
          have hcarried₁ : Carried alone [] [] w (w.withCore slot core') := .of_same rfl rfl
          cases m with
          | again next =>
              obtain ⟨changes, sent, htrail, hcarried, hw'⟩ := ih hw₁ hmoved
              exact ⟨changes, sent, .again hcore hadvance htrail, hcarried₁.trans hcarried, hw'⟩
          | ask request next =>
              obtain ⟨answer, u, hserve, hrest⟩ := hmoved
              have hu := (serve_keeps hinvoke.relays slot request _ _ _ hserve).wired hw₁
              obtain ⟨changes, sent, htrail, hcarried, hw'⟩ := ih hu hrest
              cases request with
              | write name value =>
                  rcases write_carried hinvoke hw₁ hserve with
                      ⟨n, hn, rfl, hwrite⟩ | ⟨hn, ⟨f, rfl⟩, hwrite⟩
                  · exact ⟨n :: changes, n :: sent, .wrote hcore hadvance hn hserve htrail,
                      hcarried₁.trans (hwrite.trans hcarried), hw'⟩
                  · exact ⟨changes, sent, .refused hcore hadvance hn hserve htrail,
                      hcarried₁.trans (hwrite.trans hcarried), hw'⟩
              | call function arguments =>
                  obtain ⟨own, hcall⟩ := call_carried hinvoke hw₁ hserve
                  exact ⟨changes, own ++ sent, .called hcore hadvance hserve hcall htrail,
                    hcarried₁.trans (hcall.trans hcarried), hw'⟩
          | pause events =>
              obtain ⟨rfl, rfl⟩ := hmoved
              exact ⟨[], [], .pause hcore hadvance, hcarried₁, hw₁⟩
          | fail f =>
              obtain ⟨rfl, rfl⟩ := hmoved
              exact ⟨[], [], .fail hcore hadvance, hcarried₁, hw₁⟩

end

/-! ## Batches -/

section
variable {invoke : Invoke H I} {place : Nat} {w w' : World H I}

theorem bring_carried (hinvoke : invoke.Listens) (hw : w.Wired) {n : Notification}
    {r : Except Fault Unit} (h : Yields (bring invoke n) w r w') :
    r = .ok () ∧ w'.course = w.course ∧ w'.Wired ∧ Carried False [] [.told n] w w' := by
  unfold bring at h
  have htold := yields_get_bind.mp h
  rw [hw.sink] at htold
  obtain ⟨rfl, hsame⟩ := publish_listened hinvoke htold
  refine ⟨rfl, hsame.course, hw.of_same (congrArg Reception.announces hsame.reception)
    (congrArg Reception.sink hsame.reception) (congrArg Stock.writeStub hsame.stock), ?_⟩
  exact ⟨hsame.stock, congrArg Reception.published hsame.reception, List.nil_sublist _, nofun⟩

theorem notify_carried (hinvoke : invoke.Listens) (hw : w.Wired) {n : Notification}
    {r : Except Fault Unit} (h : Yields (notify invoke n) w r w') :
    r = .ok () ∧ w'.course = w.course ∧ w'.Wired ∧ Carried False [] [.told n] w w' := by
  have hmarked : ({ w with showings := w.showings ++ [.telling n] } : World H I).Wired :=
    hw.of_same rfl rfl rfl
  rcases yields_bind.mp (yields_modify_bind.mp h) with ⟨_, u, hbring, hmark⟩ | ⟨e, hbring, -⟩
  · obtain ⟨rfl, rfl⟩ := yields_modify.mp hmark
    obtain ⟨-, hcourse, hu, hstock, hpublished, -⟩ := bring_carried hinvoke hmarked hbring
    exact ⟨rfl, hcourse, hu.of_same rfl rfl rfl, hstock, hpublished, List.nil_sublist _, nofun⟩
  · cases (bring_carried hinvoke hmarked hbring).1

theorem process_carried (hinvoke : invoke.Listens) (hw : w.Wired) {e : Event}
    (he : ∀ name parameters, e ≠ .command name parameters) {r : Except Fault Unit}
    (h : Yields (process invoke place e) w r w') :
    r = .ok () ∧ w'.Wired ∧ Carried False [] (Notice.ofEvents [e]) w w' := by
  rcases process_cases h with
      ⟨n, hn, ⟨f, -, hnotify⟩ | ⟨u, rfl, hnotify, rfl⟩⟩ | ⟨name, parameters, rfl, -⟩ |
        ⟨hunknown, rfl, rfl⟩
  · cases (notify_carried hinvoke hw hnotify).1
  · obtain ⟨-, -, hu, hcarried⟩ := notify_carried hinvoke hw hnotify
    have hstock : (u.keep place e).stock = u.stock := by
      cases e <;> rfl
    have hreception := World.reception_keep u place e
    have hrelays := Relays.of_reception (congrArg Stock.writeStub hstock) hreception
    have hnotices : Notice.ofEvents [e] = [.told n] := by
      simp [Notice.ofEvents, hn]
    rw [hnotices]
    exact ⟨rfl, hrelays.wired hu, hcarried.trans (.of_reception hstock hreception)⟩
  · exact absurd rfl (he name parameters)
  · have hnotices : Notice.ofEvents [e] = [] := by
      cases e <;> first | rfl | cases hunknown
    rw [hnotices]
    exact ⟨rfl, hw.of_same rfl rfl rfl, .of_same rfl rfl⟩

theorem events_carried (hinvoke : invoke.Listens) (hw : w.Wired) {events : List Event}
    (hevents : ∀ name parameters, .command name parameters ∉ events) {r : Except Fault Unit}
    (h : Yields (events.forM (process invoke place)) w r w') :
    r = .ok () ∧ w'.Wired ∧ Carried False [] (Notice.ofEvents events) w w' := by
  induction events generalizing w with
  | nil =>
      obtain ⟨rfl, rfl⟩ := yields_pure.mp h
      exact ⟨rfl, hw, .of_same rfl rfl⟩
  | cons e events ih =>
      have he : ∀ name parameters, e ≠ .command name parameters := fun name parameters heq =>
        hevents name parameters (heq ▸ List.mem_cons_self)
      rcases yields_bind.mp h with ⟨_, u, hprocess, hrest⟩ | ⟨f, hprocess, -⟩
      · obtain ⟨-, hu, hcarried⟩ := process_carried hinvoke hw he hprocess
        obtain ⟨hr, hw', hcarried'⟩ := ih hu (fun name parameters hmem =>
          hevents name parameters (List.mem_cons_of_mem e hmem)) hrest
        refine ⟨hr, hw', ?_⟩
        rw [show e :: events = [e] ++ events from rfl, Notice.ofEvents_append]
        exact hcarried.trans hcarried'
      · cases (process_carried hinvoke hw he hprocess).1

/-- A batch with a command at its end at most: the events are sent in order, and then what the
command's handler makes of it. -/
theorem processAll_carried (hinvoke : invoke.Serves alone) (hw : w.Wired) {events : List Event}
    (hlast : ∀ name parameters, .command name parameters ∉ events.dropLast)
    {r : Except Fault Unit} (h : Yields (processAll invoke events) w r w') :
    ∃ u written own, Carried False [] (Notice.ofEvents events) w u ∧
      Carried alone written own u w' ∧
      ((∀ name parameters, .command name parameters ∉ events) → own = []) := by
  have hforM := yields_modify_bind.mp (yields_get_bind.mp h)
  have hdealt : (w.dealt (.batch events)).Wired := hw.of_same rfl rfl rfl
  have hcarried₀ : Carried False [] [] w (w.dealt (.batch events)) := .of_same rfl rfl
  by_cases hcommand : ∃ name parameters, .command name parameters ∈ events
  · obtain ⟨name, parameters, hmem⟩ := hcommand
    obtain ⟨before, last, rfl⟩ : ∃ before last, events = before ++ [last] :=
      ⟨_, _, (List.dropLast_append_getLast (List.ne_nil_of_mem hmem)).symm⟩
    rw [List.dropLast_concat] at hlast
    obtain rfl : .command name parameters = last := by
      simpa [hlast name parameters] using hmem
    -- nothing stands behind the command, so a handler whose fault goes through takes nothing along
    rcases yields_bind.mp (yields_forM_concat.mp hforM) with
        ⟨_, u, hbefore, hdispatch⟩ | ⟨f, hbefore, -⟩
    · obtain ⟨-, hu, hcarried⟩ := events_carried hinvoke.listens hdealt hlast hbefore
      have hkeeps := (dispatch_keeps_of_handlers hinvoke.command name parameters).discard
      obtain ⟨-, written, own, hcarried'⟩ := hkeeps _ _ _ hdispatch hu.announces
      refine ⟨u, written, own, ?_, hcarried', fun hnone => absurd hmem (hnone name parameters)⟩
      rw [Notice.ofEvents_append]
      exact hcarried₀.trans (hcarried.trans (.of_same rfl rfl))
    · cases (events_carried hinvoke.listens hdealt hlast hbefore).1
  · have hevents : ∀ name parameters, .command name parameters ∉ events := fun name parameters h =>
      hcommand ⟨name, parameters, h⟩
    obtain ⟨-, -, hcarried⟩ := events_carried hinvoke.listens hdealt hevents hforM
    exact ⟨w', [], [], hcarried₀.trans hcarried, .of_same rfl rfl, fun _ => rfl⟩

end

/-! ## Requests -/

/-- A request to start or to continue, and what the bus carries meanwhile. -/
inductive Broadcast (invoke : Invoke H Script.State) (alone : Prop) (w : World H Script.State)
    (r : Request Script.State) (w' : World H Script.State) : Prop where
  /-- nothing is pumped: nothing is written and nothing sent -/
  | unmoved : (∀ slot core u, ¬ Pumping Script.interpreter invoke w r slot core u) →
      w'.stock = w.stock → w'.published = w.published → Broadcast invoke alone w r w'
  /-- the pump fails: its writes are stored and sent, and nothing else is -/
  | failed {slot : Nat} {core : Script.State} {u u' : World H Script.State}
      {changes sent : List Notice} {f : Fault} :
      Pumping Script.interpreter invoke w r slot core u →
      Trail Script.interpreter invoke alone slot .begin u changes sent (.error f) u' →
      changes.Sublist sent → (alone → sent = changes) →
      w'.stock = w.stock.changeAll changes →
      w'.published = w.published ++ r.opening ++ sent → Broadcast invoke alone w r w'
  /-- the pump's writes are sent as they are made, then its events, and then what the handler
  of the command at their end makes of it -/
  | passed {slot : Nat} {core : Script.State} {u u' : World H Script.State}
      {changes sent written own : List Notice} {events : List Event} :
      Pumping Script.interpreter invoke w r slot core u →
      Trail Script.interpreter invoke alone slot .begin u changes sent (.ok events) u' →
      changes.Sublist sent → (alone → sent = changes) →
      (∀ name parameters, .command name parameters ∉ events.dropLast) →
      ((∀ name parameters, .command name parameters ∉ events) → own = []) →
      written.Sublist own → (alone → own = written) →
      w'.stock = w.stock.changeAll (changes ++ written) →
      w'.published = w.published ++ r.opening ++ sent ++ Notice.ofEvents events ++ own →
      Broadcast invoke alone w r w'

section
variable {invoke : Invoke H Script.State} (hinvoke : invoke.Serves alone) {fuel : Nat}
  {w w' : World H Script.State}

theorem command_last {slot : Nat} {events : List Event}
    (h : Yields (pump Script.interpreter invoke slot fuel .begin) w (.ok events) w') :
    ∀ name parameters, .command name parameters ∉ events.dropLast := by
  intro name parameters hmem
  have hbegin : Script.Local.Gathers [] .begin := rfl
  have hgathered := yielded_of_pump (Script.leads_advance []) hbegin h
  cases hgathered.announces _ hmem

include hinvoke

theorem broadcast_of_pump {slot : Nat} {core : Script.State} {u u' : World H Script.State}
    {r : Request Script.State} {x : Except Fault (List Event)} {y : Except Fault Outcome}
    (hpumping : Pumping Script.interpreter invoke w r slot core u) (hu : u.Wired)
    (hopening : Carried False [] r.opening w u)
    (hpump : Yields (pump Script.interpreter invoke slot fuel .begin) u x u')
    (hconclude : Yields (conclude invoke x) u' y w') : Broadcast invoke alone w r w' := by
  obtain ⟨changes, sent, htrail, hcarried, hu'⟩ := pump_trail hinvoke hu hpump
  have hstock : u'.stock = w.stock.changeAll changes := by
    rw [hcarried.stock, hopening.stock]
    rfl
  have hpublished : u'.published = w.published ++ r.opening ++ sent := by
    rw [hcarried.published, hopening.published]
  cases x with
  | error f =>
      have hsame : Untouched u' w' := conclude_error_keeps f _ _ _ hconclude
      exact .failed hpumping htrail hcarried.sublist hcarried.alone (hsame.stock.trans hstock)
        ((congrArg Reception.published hsame.reception).trans hpublished)
  | ok events =>
      obtain ⟨z, hpassed⟩ : ∃ z, Yields (processAll invoke events) u' z w' := by
        rcases yields_bind.mp hconclude with ⟨_, v, hpassed, hanswer⟩ | ⟨e, hpassed, -⟩
        · have hpure := yields_get_bind.mp hanswer
          obtain ⟨-, rfl⟩ := yields_pure.mp hpure
          exact ⟨_, hpassed⟩
        · exact ⟨_, hpassed⟩
      obtain ⟨v, written, own, hevents, hown, hnone⟩ :=
        processAll_carried hinvoke hu' (command_last hpump) hpassed
      refine .passed hpumping htrail hcarried.sublist hcarried.alone (command_last hpump) hnone
        hown.sublist hown.alone ?_ ?_
      · rw [hown.stock, hevents.stock, hstock, Stock.changeAll_append]
        rfl
      · rw [hown.published, hevents.published, hpublished]

theorem continue_broadcast (hw : w.Wired) {y : Except Fault Outcome}
    (h : Yields (continueDialogue Script.interpreter fuel invoke) w y w') :
    Broadcast invoke alone w .continue w' := by
  have hunmoved : (∀ slot core u, ¬ Pumping Script.interpreter invoke w .continue slot core u) →
      w' = w ∨ w' = w.blank.dealt .pumping → Broadcast invoke alone w .continue w' := by
    rintro hnot (rfl | rfl) <;> exact .unmoved hnot rfl rfl
  cases hrunning : w.running with
  | false =>
      refine hunmoved ?_ (.inl ?_)
      · rintro slot core u ⟨hruns, -⟩
        cases hrunning.symm.trans hruns
      · have hrest := yields_get_bind.mp h
        rw [if_pos (by simp [hrunning])] at hrest
        exact (yields_pure.mp hrest).2
  | true =>
      by_cases hheld : ∃ slot core, w.course.Holds slot core
      · obtain ⟨slot, core, hholds⟩ := hheld
        obtain ⟨x, u, hpump, hconclude⟩ := (yields_continue hrunning hholds).mp h
        exact broadcast_of_pump hinvoke (.continued hrunning hholds) (hw.begun _ _)
          (World.carried_begun w _ _) hpump hconclude
      · refine hunmoved ?_ (.inr ?_)
        · rintro slot core u ⟨-, hholds⟩
          exact hheld ⟨slot, core, hholds⟩
        · have hrest := yields_get_bind.mp h
          rw [if_neg (by simp [hrunning])] at hrest
          have hbegun := yields_modify_bind.mp (yields_modify_bind.mp hrest)
          rcases yields_held_bind hbegun with ⟨-, -, hw'⟩ | ⟨slot, hslot, hobserve⟩
          · exact hw'
          · cases hcore : w.course.cores[slot]? with
            | none =>
                have hnone : (w.blank.dealt .pumping).course.cores[slot]? = none := hcore
                exact (yields_observe_bind_of_none hnone hobserve).2
            | some core => exact absurd ⟨slot, core, hslot, hcore⟩ hheld

theorem start_broadcast (hw : w.Wired) {node : Datum} {y : Except Fault Outcome}
    (h : Yields (start Script.interpreter fuel invoke node) w y w') :
    Broadcast invoke alone w (.start node) w' := by
  by_cases hheld : w.running = false ∧ ∃ slot core, w.course.Holds slot core
  · obtain ⟨hrunning, slot, core, hholds⟩ := hheld
    have hstart := (yields_start hrunning hholds).mp h
    cases hnode : (Script.interpreter.setNode node core).1 with
    | error f =>
        rw [hnode] at hstart
        have hsame : Untouched _ w' := conclude_error_keeps f _ _ _ hstart
        refine .unmoved ?_ (hsame.stock.trans ?_)
          ((congrArg Reception.published hsame.reception).trans ?_)
        · intro slot' core' u hpumping
          cases hpumping with
          | started _ hholds' hok _ =>
              obtain ⟨rfl, rfl⟩ := hholds.unique hholds'
              cases hnode.symm.trans hok
        · unfold World.observed
          split <;> rfl
        · unfold World.observed
          split <;> rfl
    | ok _ =>
        rw [hnode] at hstart
        have hentered := hw.entered Script.interpreter slot core node
        rcases yields_bind.mp hstart with ⟨_, v, hnotify, hcontinue⟩ | ⟨e, hnotify, -⟩
        · obtain ⟨-, hcourse, hv, hopening⟩ := notify_carried hinvoke.listens hentered hnotify
          rw [World.course_entered] at hcourse
          have hruns : v.running = true := congrArg Course.running hcourse
          have hholds' : v.course.Holds slot (Script.interpreter.setNode node core).2 := by
            rw [hcourse]
            exact hholds.setCore _
          obtain ⟨x, u, hpump, hconclude⟩ := (yields_continue hruns hholds').mp hcontinue
          refine broadcast_of_pump hinvoke (.started hrunning hholds hnode hnotify) (hv.begun _ _)
            ?_ hpump hconclude
          exact (World.carried_entered w _ _ _ _).trans
            (hopening.trans (World.carried_begun v _ _))
        · cases (notify_carried hinvoke.listens hentered hnotify).1
  · have hnot : ∀ slot core u,
        ¬ Pumping Script.interpreter invoke w (.start node) slot core u := by
      intro slot core u hpumping
      cases hpumping with
      | started hrunning hholds _ _ => exact hheld ⟨hrunning, slot, _, hholds⟩
    have hrest := yields_get_bind.mp h
    split at hrest
    · have hpure := yields_modify_bind.mp hrest
      obtain ⟨-, rfl⟩ := yields_pure.mp hpure
      exact .unmoved hnot rfl rfl
    · next hrunning =>
      split at hrest
      · obtain ⟨-, rfl⟩ := yields_pure.mp hrest
        exact .unmoved hnot rfl rfl
      · next slot hslot =>
        cases hcore : w.course.cores[slot]? with
        | none =>
            obtain ⟨-, rfl⟩ := yields_observe_bind_of_none hcore hrest
            exact .unmoved hnot rfl rfl
        | some core =>
            rw [Bool.not_eq_true] at hrunning
            exact absurd ⟨hrunning, slot, core, hslot, hcore⟩ hheld

end

/-! ## Runners made with a bus -/

theorem create_wired {ip : Interpreter I L} {factory : Option I} {w w' : World H I}
    {r : Except Fault Unit} (hstub : w.writeStub = none)
    (h : Yields (create ip ⟨true, false, none⟩ factory) w r w') : w'.Wired :=
  (setup_keeps_aside (R := Relays) factory _ _ _ (yields_modify_bind.mp h)).wired
    ⟨rfl, rfl, hstub⟩

section
variable {react : Host H Script.State} {w₀ w₁ w w' : World H Script.State}
  {factory : Option Script.State} {steps : List (Request Script.State × Except Fault Answer)}

/-- Whatever was asked before, a start or a `continue` sends its opening, the changes of the
script's accepted writes and the events of its batch, in this order, and a pump that fails none
of the events. -/
theorem broadcast_in_order (hlistens : react.Listens) (hhandles : react.Handles)
    (hfunctions : ∀ fuel handle arguments,
      Keeps (OnStock Eq) (calls Script.interpreter react fuel (.function handle arguments)))
    (hstub : w₀.writeStub = none)
    (hcreate : Yields (create Script.interpreter ⟨true, false, none⟩ factory) w₀ (.ok ()) w₁)
    (hrun : Run Script.interpreter react w₁ steps w) {r : Request Script.State}
    (hr : r = .continue ∨ ∃ node, r = .start node) {fuel : Nat} {a : Except Fault Answer}
    (h : Yields (exec Script.interpreter react (fuel + 1) r) w a w') :
    Broadcast (calls Script.interpreter react fuel) react.Unobtrusive w r w' := by
  have hinvoke : Invoke.Serves react.Unobtrusive (calls Script.interpreter react fuel) :=
    calls_serve hlistens hhandles id (hfunctions fuel)
  have hrelays : Relays w₁ w := hrun.keeps (p := fun _ => True)
    (fun fuel r _ => exec_keeps_besides Script.interpreter react fuel r) fun _ _ => trivial
  have hw := hrelays.wired (create_wired hstub hcreate)
  rcases hr with rfl | ⟨node, rfl⟩
  · obtain ⟨x, hcontinue, -⟩ := yields_bind_pure.mp h
    exact continue_broadcast hinvoke hw hcontinue
  · obtain ⟨x, hstart, -⟩ := yields_bind_pure.mp h
    exact start_broadcast hinvoke hw hstart

end

/-! ### A handler that takes a note -/

/-- The command's handler writes a variable, and a function says yes. -/
def noting : Host Unit Script.State := fun host c =>
  match c with
  | .command _ _ => .request host (.setVariable (.text "$note") (.text "b")) fun host _ =>
      .finish host (.ok .nothing)
  | .function _ _ => .finish host (.ok (.bool true))
  | _ => .finish host (.ok .nothing)

def noticed : World Unit Script.State where
  host := ()
  bus := .watchedBy { handle := 0 }
  programs := [.dict [(.text "Start", .dict [(.text "steps", .list [
    .tuple [.text "set", .text "$a", .string (.text "a")],
    .tuple [.text "call", .text "$b", .text "ask"],
    .tuple [.text "command", .text "note"],
    .tuple [.text "set", .text "$c", .string (.text "c")],
    .tuple [.text "jump", .text "Nowhere"]])])]]

theorem noting_function (fuel : Nat) (handle : Handle) (arguments : List Datum) :
    Keeps (OnStock Eq) (calls Script.interpreter noting fuel (.function handle arguments)) :=
  callHost_keeps (p := fun _ => False) (q := fun _ => True) (fun _ hr => hr.elim) fun _ => trivial

/-- A start, and then a pump that writes and fails. -/
theorem broadcast_in_order_of_noting : ∃ w₁ steps w a w', noting.Listens ∧ noting.Handles ∧
    (∀ fuel handle arguments,
      Keeps (OnStock Eq) (calls Script.interpreter noting fuel (.function handle arguments))) ∧
    Yields (create Script.interpreter ⟨true, false, none⟩ (some {})) noticed (.ok ()) w₁ ∧
    Run Script.interpreter noting w₁ steps w ∧
    Yields (exec Script.interpreter noting 9 .continue) w a w' ∧
    Broadcast (calls Script.interpreter noting 8) noting.Unobtrusive w .continue w' ∧
    w.published.map Notice.kind =
      [.started, .variableChanged, .variableChanged, .nodeStarted, .hints, .variableChanged] ∧
    w'.published.map Notice.kind = w.published.map Notice.kind ++ [.variableChanged] := by
  have hchecked : ((create Script.interpreter ⟨true, false, none⟩ (some {})).run.run noticed).any
      (fun p => p.1.isOk && (follow Script.interpreter noting 9
        [.registerCommand (.text "note") (some 1), .registerFunction (.text "ask") 2 "bool",
          .start (.text "Start")] p.2).any fun q => q.2.published.map Notice.kind ==
            [.started, .variableChanged, .variableChanged, .nodeStarted, .hints,
              .variableChanged] &&
          ((exec Script.interpreter noting 9 .continue).run.run q.2).any fun z =>
            z.2.published.map Notice.kind ==
              q.2.published.map Notice.kind ++ [.variableChanged]) = true := by
    decide +kernel
  obtain ⟨⟨created, w₁⟩, hcreate, hchecked⟩ := (Option.any_eq_true _ _).mp hchecked
  obtain ⟨hok, hchecked⟩ := Bool.and_eq_true_iff.mp hchecked
  obtain ⟨⟨steps, w⟩, hfollow, hchecked⟩ := (Option.any_eq_true _ _).mp hchecked
  obtain ⟨hstarted, hchecked⟩ := Bool.and_eq_true_iff.mp hchecked
  obtain ⟨⟨a, w'⟩, hyields, hcontinued⟩ := (Option.any_eq_true _ _).mp hchecked
  obtain ⟨_, rfl⟩ : ∃ u, created = .ok u := by
    cases created with
    | ok u => exact ⟨u, rfl⟩
    | error f => cases hok
  have hlistens : noting.Listens := fun host l n => ⟨host, .nothing, rfl⟩
  have hhandles : noting.Handles := fun _ _ _ => ⟨rfl, fun _ _ => trivial⟩
  have hrun := run_of_follow hfollow
  exact ⟨w₁, steps, w, a, w', hlistens, hhandles, noting_function, hcreate, hrun, hyields,
    broadcast_in_order hlistens hhandles noting_function rfl hcreate hrun (.inl rfl) hyields,
    eq_of_beq hstarted, eq_of_beq hcontinued⟩

end Session

end Parley
