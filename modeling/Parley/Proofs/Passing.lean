import Parley.Proofs.Ending
import Parley.Proofs.Law
import Parley.Proofs.Turn

/-!
# Passing a batch on

`Passes invoke place e w w'`: from the world `w` the event `e` is passed on, and that leaves
`w'`.  Of an event that a sink hears of the sink is told, and the runner keeps what it shows.
A command reaches the handler registered at that moment, once, with its parameters in host
form; what the handler does wrong ends in the log.  An event without a rule is an entry in
the log and nothing else.  `PassesAll` is a chain of such steps, one for each event in order,
so that a batch passed on as a whole is one in which no event was dropped, doubled or moved.

The chain breaks at a command that cannot be served (`Unserved`): its name cannot be looked
up, or it has a handler but a parameter without a form for the host.  That is the one fault
that goes through, and what stood behind the command is lost (`Delivered.cut`).  A handler's
own fault breaks nothing (`Passes.failed`).

The host does not drive the runner here (`Host.Passive`), and a handler fails by exceptions
only (`Host.Contained`).  Handlers may register, remove and clear commands, write variables,
and issue commands themselves.
-/

namespace Parley

/-! ## What an event amounts to -/

namespace Event

def line? : Event → Option Line
  | .line l => some l
  | _ => none

def choices : Event → List Choice
  | .options branches => branches.map fun b => { branch := some b }
  | _ => []

end Event

/-- Is the datum of one of the three kinds that scripts have, with a payload the kind reads? -/
def Datum.isParameter : Datum → Bool
  | .boolean _ | .number _ => true
  | .string p => p.hasText
  | _ => false

/-- Has the event a place in the batch that nothing can take from it: if it is a command, can
its name be looked up and are its parameters script values? -/
def Event.servable : Event → Bool
  | .command name parameters => name.isKey && parameters.all Datum.isParameter
  | _ => true

theorem Datum.exists_toHost {d : Datum} (h : d.isParameter = true) : ∃ e, d.toHost = .ok e := by
  cases d with
  | boolean p => exact ⟨_, rfl⟩
  | number x => exact ⟨_, rfl⟩
  | string p => exact ⟨.text p.plain, if_pos h⟩
  | _ => cases h

/-! ## What is kept of an event -/

namespace Course

variable {I : Type} (place : Nat) (events : List Event) (c : Course I)

theorem line_foldl_pass : (events.foldl (pass place) c).line =
    (events.filterMap Event.line?).getLast?.or c.line := by
  induction events generalizing c with
  | nil => rfl
  | cons e events ih =>
      rw [List.foldl_cons, ih]
      cases e with
      | line l =>
          show _ = (l :: events.filterMap Event.line?).getLast?.or c.line
          rw [List.getLast?_cons]
          cases (events.filterMap Event.line?).getLast? <;> rfl
      | _ => rfl

theorem options_foldl_pass : (events.foldl (pass place) c).options =
    c.options ++ events.flatMap Event.choices := by
  induction events generalizing c with
  | nil => exact (List.append_nil _).symm
  | cons e events ih =>
      rw [List.foldl_cons, ih, List.flatMap_cons]
      cases e with
      | options branches => exact List.append_assoc _ _ _
      | _ => rfl

theorem running_foldl_pass : (events.foldl (pass place) c).running =
    (c.running && !events.any Event.completes) := by
  induction events generalizing c with
  | nil => exact (Bool.and_true _).symm
  | cons e events ih =>
      rw [List.foldl_cons, ih, List.any_cons]
      cases e with
      | completed => exact (Bool.and_false _).symm
      | _ => rfl

end Course

namespace World

variable {H I : Type}

/-- What the host's sink was told so far. -/
def told (w : World H I) : List Notification := w.reception.told

theorem reception_keep (w : World H I) (place : Nat) (e : Event) :
    (w.keep place e).reception = w.reception := by
  cases e <;> rfl

theorem reception_noted (w : World H I) (n : Note) : (w.noted n).reception = w.reception :=
  reception_eq rfl rfl rfl rfl rfl (List.forall_mem_singleton.mpr rfl)

end World

/-! ## Handlers -/

/-- What a command's handler does wrong is an exception. -/
def Host.Contained {H I : Type} (react : Host H I) : Prop :=
  ∀ host handler arguments, (react host (.command handler arguments)).Abides (fun _ => True)
    (fun result => ∀ f, result = .error f → f.isA .exception = true)

def Invoke.Contained {H I : Type} (invoke : Invoke H I) : Prop :=
  ∀ handler arguments w f w', Act.Yields (invoke (.command handler arguments)) w (.error f) w' →
    f.isA .exception = true

/-- Whatever the host does when it is called, the sink is told of nothing but the call. -/
def Invoke.Reports {H I : Type} (invoke : Invoke H I) : Prop :=
  ∀ c w r w', Act.Yields (invoke c) w r w' → w'.reception =
    { w.reception with
      told := w.reception.told ++ (Record.called c).notification?.toList
      published := w'.published }

/-- Why a command cannot be served: there is no looking up its name, or its handler cannot be
called with its parameters. -/
inductive Unserved {H I : Type} (w : World H I) (name : Datum) (parameters : List Datum)
    (f : Fault) : Prop where
  | name : name.asKey = .error f → Unserved w name parameters f
  | parameter {handler : Handle} : name.isKey = true → w.commands.get? name = some handler →
      parameters.mapM Datum.toHost = .error f → Unserved w name parameters f

theorem exists_mapM_toHost {parameters : List Datum}
    (h : parameters.all Datum.isParameter = true) :
    ∃ arguments, parameters.mapM Datum.toHost = .ok arguments := by
  induction parameters with
  | nil => exact ⟨[], rfl⟩
  | cons d ds ih =>
      obtain ⟨hd, hds⟩ := Bool.and_eq_true_iff.mp h
      obtain ⟨e, he⟩ := Datum.exists_toHost hd
      obtain ⟨es, hes⟩ := ih hds
      refine ⟨e :: es, ?_⟩
      rw [List.mapM_cons, he, hes]
      rfl

theorem not_unserved {H I : Type} {w : World H I} {name : Datum} {parameters : List Datum}
    (h : (Event.command name parameters).servable = true) (f : Fault) :
    ¬ Unserved w name parameters f := by
  obtain ⟨hname, hparameters⟩ := Bool.and_eq_true_iff.mp h
  rintro (hf | ⟨-, -, hf⟩)
  · rw [Datum.asKey_of_isKey hname] at hf
    cases hf
  · obtain ⟨arguments, harguments⟩ := exists_mapM_toHost hparameters
    rw [harguments] at hf
    cases hf

namespace Session

open Act

variable {H I L : Type}

/-! ## The steps -/

/-- An event of the batch at a place is passed on. -/
inductive Passes (invoke : Invoke H I) (place : Nat) :
    Event → World H I → World H I → Prop where
  | told {e : Event} {n : Notification} {w w' : World H I} : e.notification? = some n →
      Yields (notify invoke n) w (.ok ()) w' → Passes invoke place e w (w'.keep place e)
  | ran {name : Datum} {parameters arguments : List Datum} {handler : Handle} {d : Datum}
      {w w' : World H I} : name.isKey = true → w.commands.get? name = some handler →
      parameters.mapM Datum.toHost = .ok arguments →
      Yields (invoke (.command handler arguments)) w (.ok d) w' →
      Passes invoke place (.command name parameters) w w'
  | failed {name : Datum} {parameters arguments : List Datum} {handler : Handle} {f : Fault}
      {w w' : World H I} : name.isKey = true → w.commands.get? name = some handler →
      parameters.mapM Datum.toHost = .ok arguments →
      Yields (invoke (.command handler arguments)) w (.error f) w' →
      Passes invoke place (.command name parameters) w (w'.noted (.commandFailed name f))
  | missing {name : Datum} {parameters : List Datum} {w : World H I} : name.isKey = true →
      w.commands.get? name = none →
      Passes invoke place (.command name parameters) w (w.noted (.commandMissing name))
  | ignored {e : Event} {w : World H I} : e.isUnknown = true →
      Passes invoke place e w (w.noted (.eventIgnored e.shown))

/-- The events are passed on one after another. -/
inductive PassesAll (invoke : Invoke H I) (place : Nat) :
    List Event → World H I → World H I → Prop where
  | nil {w : World H I} : PassesAll invoke place [] w w
  | cons {e : Event} {events : List Event} {w w₁ w₂ : World H I} :
      Passes invoke place e w w₁ → PassesAll invoke place events w₁ w₂ →
      PassesAll invoke place (e :: events) w w₂

/-- The events are passed on as a whole, or up to a command that cannot be served. -/
inductive Delivered (invoke : Invoke H I) (place : Nat) :
    List Event → Except Fault Unit → World H I → World H I → Prop where
  | whole {events : List Event} {w w' : World H I} : PassesAll invoke place events w w' →
      Delivered invoke place events (.ok ()) w w'
  | cut {before : List Event} {name : Datum} {parameters : List Datum} {f : Fault}
      {w w' : World H I} (after : List Event) : PassesAll invoke place before w w' →
      Unserved w' name parameters f →
      Delivered invoke place (before ++ .command name parameters :: after) (.error f) w w'

theorem Delivered.cons {invoke : Invoke H I} {place : Nat} {e : Event} {events : List Event}
    {r : Except Fault Unit} {w w₁ w₂ : World H I} (he : Passes invoke place e w w₁)
    (h : Delivered invoke place events r w₁ w₂) : Delivered invoke place (e :: events) r w w₂ := by
  cases h with
  | whole h => exact .whole (.cons he h)
  | cut after h hf => exact .cut after (.cons he h) hf

theorem Delivered.whole_of_servable {invoke : Invoke H I} {place : Nat} {events : List Event}
    {r : Except Fault Unit} {w w' : World H I} (h : Delivered invoke place events r w w')
    (hevents : ∀ e ∈ events, e.servable = true) :
    r = .ok () ∧ PassesAll invoke place events w w' := by
  cases h with
  | whole h => exact ⟨rfl, h⟩
  | cut after _ hf =>
      have hservable := hevents _ (List.mem_append_right _ List.mem_cons_self)
      exact absurd hf (not_unserved hservable _)

/-! ## The operations take these steps -/

section
variable {invoke : Invoke H I} {place : Nat} {w w' : World H I}

theorem yields_commandHandler {name : Datum} (hname : name.isKey = true)
    {r : Except Fault (Option Handle)} :
    Yields (commandHandler name) w r w' ↔ r = .ok (w.commands.get? name) ∧ w' = w :=
  (yields_checkKey_bind hname).trans (yields_get_bind.trans yields_pure)

variable (place) in
theorem dispatch_passes (hcontained : invoke.Contained) {name : Datum} {parameters : List Datum}
    {r : Except Fault Bool} (h : Yields (dispatch invoke name parameters) w r w') :
    ((∃ b, r = .ok b) ∧ Passes invoke place (.command name parameters) w w') ∨
      ∃ f, r = .error f ∧ Unserved w name parameters f ∧ w' = w := by
  rcases name.isKey_or_error with hname | ⟨f, hname⟩
  · rcases yields_bind.mp h with ⟨found, w₁, hfound, hrest⟩ | ⟨e, hfound, -⟩
    · obtain ⟨hfound, rfl⟩ := (yields_commandHandler hname).mp hfound
      cases hfound
      split at hrest
      · next hnone =>
        have hpure := yields_modify_bind.mp hrest
        obtain ⟨rfl, rfl⟩ := yields_pure.mp hpure
        exact .inl ⟨⟨_, rfl⟩, .missing hname hnone⟩
      · next handler hhandler =>
        cases harguments : parameters.mapM Datum.toHost with
        | error f =>
            rw [harguments] at hrest
            obtain ⟨rfl, rfl⟩ := yields_of_error_bind.mp hrest
            exact .inr ⟨f, rfl, .parameter hname hhandler harguments, rfl⟩
        | ok arguments =>
            rw [harguments] at hrest
            refine .inl ?_
            have hrun := yields_of_ok_bind.mp hrest
            obtain ⟨x, w₂, hcall, hresult⟩ := yields_attempt_bind.mp hrun
            cases x with
            | ok d =>
                obtain ⟨rfl, rfl⟩ := yields_pure.mp hresult
                exact ⟨⟨_, rfl⟩, .ran hname hhandler harguments hcall⟩
            | error f =>
                dsimp only at hresult
                rw [if_pos (hcontained _ _ _ _ _ hcall)] at hresult
                have hpure := yields_modify_bind.mp hresult
                obtain ⟨rfl, rfl⟩ := yields_pure.mp hpure
                exact ⟨⟨_, rfl⟩, .failed hname hhandler harguments hcall⟩
    · cases ((yields_commandHandler hname).mp hfound).1
  · rcases yields_bind.mp h with ⟨_, _, hfound, -⟩ | ⟨e, hfound, rfl⟩
    · cases ((yields_checkKey_bind_of_error hname).mp hfound).1
    · obtain ⟨he, rfl⟩ := (yields_checkKey_bind_of_error hname).mp hfound
      cases he
      exact .inr ⟨f, rfl, .name hname, rfl⟩

section
variable (hpassive : invoke.Passive)
include hpassive

theorem process_passes (hcontained : invoke.Contained) {e : Event} {r : Except Fault Unit}
    (h : Yields (process invoke place e) w r w') :
    (r = .ok () ∧ Passes invoke place e w w') ∨
      ∃ name parameters f, e = .command name parameters ∧ Unserved w name parameters f ∧
        r = .error f ∧ w' = w := by
  rcases process_cases h with
      ⟨n, hn, ⟨f, -, hnotify⟩ | ⟨u, rfl, hnotify, rfl⟩⟩ | ⟨name, parameters, rfl, hcommand⟩ |
        ⟨hunknown, rfl, rfl⟩
  · cases (notify_passive hpassive hnotify).1
  · exact .inl ⟨rfl, .told hn hnotify⟩
  · obtain ⟨x, hdispatch, rfl⟩ := yields_discard.mp hcommand
    rcases dispatch_passes place hcontained hdispatch with ⟨⟨b, rfl⟩, hpasses⟩ | ⟨f, rfl, hf, hw'⟩
    · exact .inl ⟨rfl, hpasses⟩
    · exact .inr ⟨name, parameters, f, rfl, hf, rfl, hw'⟩
  · exact .inl ⟨rfl, .ignored hunknown⟩

theorem processAll_delivers (hcontained : invoke.Contained) {events : List Event}
    {r : Except Fault Unit} (h : Yields (processAll invoke events) w r w') :
    Delivered invoke w.dealings.length events r (w.dealt (.batch events)) w' := by
  have hevents : ∀ (place : Nat) (events : List Event) (u : World H I),
      Yields (events.forM (process invoke place)) u r w' →
        Delivered invoke place events r u w' := by
    intro place events
    induction events with
    | nil =>
        intro u h
        obtain ⟨rfl, rfl⟩ := yields_pure.mp h
        exact .whole .nil
    | cons e events ih =>
        intro u h
        rcases yields_bind.mp h with ⟨_, u₁, hprocess, hrest⟩ | ⟨f, hprocess, rfl⟩
        · rcases process_passes hpassive hcontained hprocess with
              ⟨-, hpasses⟩ | ⟨_, _, _, -, -, hr, -⟩
          · exact (ih u₁ hrest).cons hpasses
          · cases hr
        · rcases process_passes hpassive hcontained hprocess with
              ⟨hr, -⟩ | ⟨name, parameters, f, rfl, hf, hr, rfl⟩
          · cases hr
          · cases hr
            exact .cut events .nil hf
  exact hevents _ events _ (yields_modify_bind.mp (yields_get_bind.mp h))

/-! ## What the steps amount to -/

theorem Passes.course {e : Event} (h : Passes invoke place e w w') :
    w'.course = w.course.pass place e := by
  cases h with
  | told he hnotify => rw [World.course_keep, (notify_passive hpassive hnotify).2]
  | ran _ _ _ hcall | failed _ _ _ hcall => exact (hpassive.keeps _ _ _ _ hcall).symm
  | missing => rfl
  | ignored hunknown => cases e <;> first | rfl | cases hunknown

theorem PassesAll.course {events : List Event} (h : PassesAll invoke place events w w') :
    w'.course = events.foldl (Course.pass place) w.course := by
  induction h with
  | nil => rfl
  | cons he _ ih => rw [ih, he.course hpassive, List.foldl_cons]

end

section
variable (hreports : invoke.Reports)
include hreports

theorem notify_told (hsink : w.sink = .host) {n : Notification}
    (h : Yields (notify invoke n) w (.ok ()) w') :
    w'.sink = .host ∧ w'.told = w.told ++ [n] := by
  rcases yields_bind.mp (yields_modify_bind.mp h) with ⟨_, u, hbring, hmark⟩ | ⟨_, -, he⟩
  · obtain ⟨-, rfl⟩ := yields_modify.mp hmark
    have hbrought : Yields (bring invoke n) { w with showings := w.showings ++ [.telling n] }
        (.ok ()) u := hbring
    unfold bring at hbrought
    have hcall := yields_get_bind.mp hbrought
    rw [show ({ w with showings := w.showings ++ [.telling n] } : World H I).sink = .host
      from hsink] at hcall
    obtain ⟨x, hcall, -⟩ := yields_discard.mp hcall
    have hreception := hreports _ _ _ _ hcall
    exact ⟨congrArg Reception.sink hreception, congrArg Reception.told hreception⟩
  · cases he

theorem Passes.sink_told {e : Event} (h : Passes invoke place e w w') (hsink : w.sink = .host) :
    w'.sink = .host ∧ w'.told = w.told ++ e.notification?.toList := by
  have hcommand : ∀ {handler : Handle} {arguments : List Datum} {x : Except Fault Datum}
      {u : World H I}, Yields (invoke (.command handler arguments)) w x u →
        u.sink = .host ∧ u.told = w.told ++ [] := fun hcall =>
    ⟨(congrArg Reception.sink (hreports _ _ _ _ hcall)).trans hsink,
      congrArg Reception.told (hreports _ _ _ _ hcall)⟩
  have hnoted : ∀ (u : World H I) (n : Note), (u.noted n).told = u.told := fun u n =>
    congrArg Reception.told (World.reception_noted u n)
  cases h with
  | @told _ n _ u he hnotify =>
      have hkeep := World.reception_keep u place e
      obtain ⟨hsink', htold⟩ := notify_told hreports hsink hnotify
      rw [he]
      exact ⟨(congrArg Reception.sink hkeep).trans hsink',
        (congrArg Reception.told hkeep).trans htold⟩
  | ran _ _ _ hcall => exact hcommand hcall
  | failed _ _ _ hcall =>
      rw [hnoted]
      exact hcommand hcall
  | missing =>
      rw [hnoted]
      exact ⟨hsink, (List.append_nil _).symm⟩
  | ignored hunknown =>
      rw [hnoted]
      cases e <;> first | exact ⟨hsink, (List.append_nil _).symm⟩ | cases hunknown

/-- The host's sink is told exactly what the events amount to, in order. -/
theorem PassesAll.told {events : List Event} (h : PassesAll invoke place events w w')
    (hsink : w.sink = .host) : w'.told = w.told ++ events.filterMap Event.notification? := by
  induction h with
  | nil => simp
  | @cons e events w w₁ w₂ he _ ih =>
      obtain ⟨hsink₁, htold⟩ := he.sink_told hreports hsink
      rw [ih hsink₁, htold, List.append_assoc]
      cases hn : e.notification? <;> simp [hn]

end

end

/-! ## Hosts -/

section
variable {ip : Interpreter I L} {react : Host H I}

theorem callHost_contained (hreact : react.Contained) (answer : Request I → Act H I Answer) :
    Invoke.Contained (callHost react answer) := by
  intro handler arguments w f w' h
  exact runScript_abides (hreact _ handler arguments) (yields_callHost.mp h) f rfl

/-- Calling the host for anything but its sink. -/
def muted (invoke : Invoke H I) : Invoke H I
  | .sink _ => endless
  | c => invoke c

/-- Only what drives the runner has the sink told of something. -/
theorem perform_muted (fuel : Nat) (invoke : Invoke H I) {r : Request I}
    (hr : r.drives = false) :
    perform ip fuel invoke r = perform ip fuel (muted invoke) r := by
  cases r with
  | setup | cleanup | build | clearPrograms | start | «continue» | stop | select => cases hr
  | _ => rfl

theorem muted_callHost_keeps {answer : Request I → Act H I Answer}
    (hanswer : ∀ r, Keeps SameReception (answer r)) (c : Callback) :
    Keeps SameReception (muted (callHost react answer) c) := by
  cases c with
  | sink n => exact keeps_endless
  | listener | command | function =>
      exact .bind (keeps_record rfl) fun _ => .bind keeps_get fun _ =>
        runScript_keeps_aside (fun r _ => hanswer r) (Script.abides_true _)

theorem execUndriven_keeps_reception (fuel : Nat) (r : Request I) :
    Keeps SameReception (execUndriven ip react fuel r) := by
  induction fuel generalizing r with
  | zero => exact keeps_endless
  | succ fuel ih =>
      unfold execUndriven
      cases hdrives : r.drives with
      | true => exact keeps_endless
      | false =>
          show Keeps SameReception (perform ip fuel (undriven ip react fuel) r)
          rw [perform_muted fuel _ hdrives]
          exact perform_keeps_of_not_drives (muted_callHost_keeps ih) ip fuel r hdrives

theorem callHost_reports (hreact : react.Passive) (fuel : Nat) :
    Invoke.Reports (calls ip react fuel) := by
  intro c w r w' h
  rw [← undriven_of_aloof hreact.aloof] at h
  have hscript := yields_callHost.mp h
  have hkeeps : Keeps SameReception (runScript (execUndriven ip react fuel) (react w.host c)) :=
    runScript_keeps_aside (fun r _ => execUndriven_keeps_reception fuel r) (hreact w.host c)
  rw [show w'.reception = _ from hkeeps _ _ _ hscript]
  unfold World.reception
  rw [List.filterMap_append]
  cases hn : (Record.called c).notification? <;> simp [hn]

end

end Session

end Parley
