import Parley.Interpreter.Script
import Parley.Proofs.Backstage
import Parley.Proofs.Naming
import Parley.Proofs.Obtaining
import Parley.Proofs.Running
import Parley.Proofs.Scripted
import Parley.Proofs.Showing

/-!
# A dialogue runs while the interpreter stands at a node, and completes once

The runner has a flag that says whether a dialogue runs, and an interpreter of scripts has the
node it stands at.  Neither is computed from the other.  What ties them is the batch: a pump
leaves the node for no other only in the move that ends its batch with a completion (`Closes`),
and the runner takes its flag back as it passes that completion on.  A pump that fails, and a
batch that is cut by a command, leave both as they were.

So there are two invariants.  `Seated P` is one of courses: with the interpreter at a node the flag
is set, and while it is set `P` holds of the name at which the interpreter stands.  `Opened` is one
of worlds: of every completion that was told, the start was told before it and after any earlier
completion, and a dialogue that runs has been told to start.  The second needs the first at a
`stop`, which brings a completion for the sake of the node and not of the flag.

A program may name a node by nothing at all.  An interpreter at that node looks as if it were at
none: the flag is set, and there is no current node (`running_nowhere`).  This is what `P` is for.
With `P` everywhere true nothing is asked of the programs, which is enough for `Opened` and for one
direction of the tie; with "is something" for `P` there is the other direction, and it asks that the
programs name their nodes (`Script.NamesNodes`).

The invariants hold between the requests of a host that does not drive the runner from its
callbacks.  While the sink hears of a completion the node is left and the flag still set.
-/

namespace Parley

/-! ## Starts and completions -/

/-- Is a dialogue open after the notification? -/
def Notification.opens (isOpen : Bool) : Notification → Bool
  | .started => true
  | .completed => false
  | _ => isOpen

/-- Each completion is of a dialogue that is open. -/
def InOrder : Bool → List Notification → Prop
  | _, [] => True
  | isOpen, n :: ns => (n = .completed → isOpen = true) ∧ InOrder (n.opens isOpen) ns

variable {isOpen : Bool} {ns ms : List Notification}

theorem inOrder_append : InOrder isOpen (ns ++ ms) ↔
    InOrder isOpen ns ∧ InOrder (ns.foldl Notification.opens isOpen) ms := by
  induction ns generalizing isOpen with
  | nil => exact (and_iff_right trivial).symm
  | cons n ns ih => exact (and_congr_right fun _ => ih).trans and_assoc.symm

theorem started_mem_of_open (h : ns.foldl Notification.opens false = true) : .started ∈ ns := by
  induction ns using List.reverseRecOn with
  | nil => cases h
  | append_singleton ns n ih =>
      rw [List.foldl_append] at h
      cases n with
      | started => exact List.mem_append_right _ List.mem_cons_self
      | completed => cases h
      | _ => exact List.mem_append_left _ (ih h)

theorem InOrder.started_between {before between after : List Notification}
    (h : InOrder isOpen (before ++ .completed :: between ++ .completed :: after)) :
    .started ∈ between := by
  rw [List.append_assoc, List.cons_append, inOrder_append] at h
  obtain ⟨-, -, hbetween⟩ := h
  exact started_mem_of_open ((inOrder_append.mp hbetween).2.1 rfl)

/-! ## Pumps of scripts -/

theorem Event.completes_of_announces {e : Event} (h : e.announces = true) :
    e.completes = false := by
  cases e <;> first | rfl | cases h

namespace Script

variable {s s' : State} {m : Move Local} {events : List Event}

/-- The batch completes nothing, and `P` holds of the name of the node; or the interpreter stands at
none any more, and the batch announces and then completes. -/
inductive Closes (P : Datum → Prop) : List Event → State → Prop where
  | stays {batch : List Event} {s' : State} : P s'.node →
      (∀ e ∈ batch, e.completes = false) → Closes P batch s'
  | leaves {announced : List Event} {s' : State} : s'.node = .nothing →
      (∀ e ∈ announced, e.announces = true) → Closes P (announced ++ [.completed]) s'

/-- A move from a node of such a name: only with a batch that completes is it left for none. -/
def Seats (P : Datum → Prop) (m : Move Local) (s' : State) : Prop :=
  match m with
  | .pause batch => Closes P batch s'
  | _ => P s'.node

section
variable {P : Datum → Prop}

theorem closes_concat {last : Event} (hs : P s.node) (hevents : ∀ e ∈ events, e.announces = true)
    (hlast : last.completes = false) : Closes P (events ++ [last]) s := by
  refine .stays hs (List.forall_mem_append.mpr ⟨fun e he => ?_, ?_⟩)
  · exact Event.completes_of_announces (hevents e he)
  · exact List.forall_mem_singleton.mpr hlast

theorem seats_enter (hs : P s.node) (hnames : s.Names P) (node : Datum) :
    Seats P (enter s node events).1 (enter s node events).2 := by
  rcases enter_cases s node events with ⟨f, hfailed⟩ | ⟨hnode, hentered⟩
  · rw [hfailed]
    exact hs
  · rw [hentered]
    exact hnames.of_hasNode hnode

theorem seats_perform (textOf : TextOf) (hs : P s.node) (hnames : s.Names P)
    (hevents : ∀ e ∈ events, e.announces = true) (step : Step) :
    Seats P (perform textOf s events step).1 (perform textOf s events step).2 := by
  cases step with
  | line id text =>
      unfold perform
      dsimp only
      split
      · exact closes_concat hs hevents rfl
      · exact hs
  | options offers =>
      unfold perform
      dsimp only
      split
      · exact closes_concat hs hevents rfl
      · exact hs
  | command name parameters => exact closes_concat hs hevents rfl
  | jump node => exact seats_enter hs hnames node
  | set | call => exact hs

theorem seats_stepOn (textOf : TextOf) (hs : P s.node) (hnames : s.Names P)
    (hevents : ∀ e ∈ events, e.announces = true) :
    Seats P (stepOn textOf s events).1 (stepOn textOf s events).2 := by
  unfold stepOn
  dsimp only
  split
  · exact hs
  · split
    · exact hs
    · next hannounce =>
      obtain ⟨-, hevents'⟩ := announce_gathers hevents hannounce
      split
      · exact hs
      · rw [List.append_cons]
        refine .leaves rfl (List.forall_mem_append.mpr ⟨hevents', ?_⟩)
        exact List.forall_mem_singleton.mpr rfl
      · split
        · exact hs
        · next step _ =>
          refine seats_perform textOf ?_ ?_ hevents' step
          · exact hs
          · exact hnames

theorem seats_begin (textOf : TextOf) (hs : P s.node) (hnames : s.Names P) :
    Seats P (advance textOf .begin s).1 (advance textOf .begin s).2 := by
  rw [advance]
  split
  · exact hs
  · split
    · exact hs
    · split
      · refine seats_enter ?_ ?_ _
        · exact hs
        · exact hnames
      · exact hs

theorem seats_of_advance {textOf : TextOf} {l : Local}
    (h : interpreter.advance textOf l s = (m, s')) (hl : l.Gathers events) (hs : P s.node)
    (hnames : s.Names P) : Seats P m s' := by
  have hseats : Seats P (advance textOf l s).1 (advance textOf l s).2 := by
    cases l with
    | begin => exact seats_begin textOf hs hnames
    | running => exact seats_stepOn textOf hs hnames hl.2
    | assign | failed => exact hs
  rwa [show advance textOf l s = (m, s') from h] at hseats

theorem pumps_closes {l : Local} {r : Except Fault (List Event)} (h : Pumps interpreter l s r s')
    (hl : l.Gathers events) (hs : P s.node) (hnames : s.Names P) :
    (∀ f, r = .error f → P s'.node) ∧ ∀ batch, r = .ok batch → Closes P batch s' := by
  induction h with
  | again hadvance _ ih =>
      have hmoved := moved_of_advance hadvance hl
      exact ih hmoved.leads (seats_of_advance hadvance hl hs hnames) (hnames.of_nodes hmoved.nodes)
  | ask hadvance _ ih =>
      have hmoved := moved_of_advance hadvance hl
      exact ih (hmoved.leads _) (seats_of_advance hadvance hl hs hnames)
        (hnames.of_nodes hmoved.nodes)
  | pause hadvance =>
      refine ⟨nofun, fun batch hbatch => ?_⟩
      cases hbatch
      exact seats_of_advance hadvance hl hs hnames
  | fail hadvance => exact ⟨fun _ _ => seats_of_advance hadvance hl hs hnames, nofun⟩

theorem State.Names.of_setNode (h : s.Names P) {node : Datum} (hok : (setNode node s).1 = .ok ()) :
    P (setNode node s).2.node := by
  unfold setNode at hok ⊢
  split
  · next hnode => exact h.of_hasNode hnode
  · next hnode =>
    rw [hnode] at hok
    cases hok
  · next hnode =>
    rw [hnode] at hok
    cases hok

theorem Closes.dropLast (h : Closes P events s) :
    ∀ e ∈ events.dropLast, e.completes = false := by
  cases h with
  | stays _ hevents => exact fun e he => hevents e ((List.dropLast_sublist _).subset he)
  | leaves _ hannounced =>
      rw [List.dropLast_concat]
      exact fun e he => Event.completes_of_announces (hannounced e he)

end

theorem node_select (id : Datum) (s : State) : (select id s).2.node = s.node := by
  unfold select
  split
  · split <;> rfl
  · rfl

theorem stop_batch {s : State} {events : List Event} (h : (stop s).1 = .ok events) :
    (s.node ≠ .nothing ∧ events = [.completed]) ∨ (s.node = .nothing ∧ events = []) := by
  unfold stop at h
  split at h
  · next hnode => exact .inl ⟨Datum.isSomething_iff.mp hnode, (Except.ok.inj h).symm⟩
  · next hnode =>
    exact .inr ⟨of_not_not (mt Datum.isSomething_iff.mpr hnode), (Except.ok.inj h).symm⟩

end Script

/-! ## The flag and the node -/

namespace Course

variable {I : Type} {place : Nat} {c c' : Course I} {events : List Event} {y : Except Fault Unit}

theorem Passed.running_of_not_completes (h : c.Passed place events y c')
    (hevents : ∀ e ∈ events, e.completes = false) : c'.running = c.running := by
  have hkept : ∀ {passed : List Event}, (∀ e ∈ passed, e.completes = false) →
      (passed.foldl (pass place) c).running = c.running := by
    intro passed hpassed
    rw [running_foldl_pass, List.any_eq_false.mpr (by simpa using hpassed), Bool.not_false,
      Bool.and_true]
  cases h with
  | whole => exact hkept hevents
  | cut before after => exact hkept fun e he => hevents e (List.mem_append_left _ he)

end Course

namespace Session

open Act

/-- With the interpreter at a node a dialogue runs, and while one runs `P` holds of the name at
which the interpreter stands. -/
def Tied (P : Datum → Prop) (running : Bool) (s : Script.State) : Prop :=
  (s.node ≠ .nothing → running = true) ∧ (running = true → P s.node)

/-- The flag and the node of the interpreter that is held are tied; none is made at a node. -/
structure Seated (P : Datum → Prop) (c : Course Script.State) : Prop where
  factory : ∀ s, c.factory = some s → s.node = .nothing
  held : ∀ slot s, c.Holds slot s → Tied P c.running s

section
variable {P : Datum → Prop} {loader : Option Loader} {c c' : Course Script.State} {slot : Nat}
  {s : Script.State}

theorem tied_of_running (hs : P s.node) : Tied P true s := ⟨fun _ => rfl, fun _ => hs⟩

theorem tied_of_nothing (hs : s.node = .nothing) : Tied P false s := ⟨fun h => absurd hs h, nofun⟩

theorem seated_of_holds (hfactory : ∀ s, c.factory = some s → s.node = .nothing)
    (hholds : c.Holds slot s) (hs : Tied P c.running s) : Seated P c where
  factory := hfactory
  held slot' s' hs' := by
    obtain ⟨-, rfl⟩ := hholds.unique hs'
    exact hs

theorem seated_of_none (hfactory : ∀ s, c.factory = some s → s.node = .nothing)
    (hnone : c.current = none) : Seated P c where
  factory := hfactory
  held slot s hs := by
    cases hnone.symm.trans hs.1

theorem Seated.of_loads (h : Seated P c) (hloads : c.Loads Script.interpreter c') :
    Seated P c' where
  factory := by
    rw [show c'.factory = c.factory from hloads.frame (·.factory) fun _ _ _ => rfl]
    exact h.factory
  held slot s' hs' := by
    obtain ⟨s, hs, hbare⟩ := Script.exists_of_bare hloads.bare hs'.2
    have hcurrent : c'.current = c.current := hloads.frame (·.current) fun _ _ _ => rfl
    have hnode : s.node = s'.node := congrArg (·.node) hbare
    unfold Tied
    rw [show c'.running = c.running from hloads.frame (·.running) fun _ _ _ => rfl, ← hnode]
    exact h.held slot s ⟨hcurrent.symm.trans hs'.1, hs⟩

/-- A batch that a pump brought, passed on while a dialogue runs. -/
theorem tied_of_closes {place : Nat} {events : List Event} {y : Except Fault Unit}
    (hcloses : Script.Closes P events s) (hrunning : c.running = true)
    (h : c.Passed place events y c') : Tied P c'.running s := by
  cases hcloses with
  | stays hs hevents =>
      rw [h.running_of_not_completes hevents, hrunning]
      exact tied_of_running hs
  | @leaves announced _ hs hannounced =>
      obtain ⟨-, rfl⟩ := h.whole_of_not_command (Event.not_command_concat hannounced nofun)
      rw [Course.running_foldl_pass]
      simpa [Event.completes] using tied_of_nothing hs

theorem Pumped.seated {r : Except Fault Outcome} (h : Pumped Script.interpreter slot s c r c')
    (hfactory : ∀ s, c.factory = some s → s.node = .nothing) (hholds : c.Holds slot s)
    (hrunning : c.running = true) (hs : P s.node) (hnames : s.Names P) : Seated P c' := by
  cases h with
  | @failed _ s' _ hpumps _ =>
      have hnode := (Script.pumps_closes hpumps rfl hs hnames).1 _ rfl
      refine seated_of_holds hfactory (hholds.setCore s') ?_
      rw [show (c.setCore slot s').running = true from hrunning]
      exact tied_of_running hnode
  | @passed events s' _ _ hpumps hpassed =>
      have hcloses := (Script.pumps_closes hpumps rfl hs hnames).2 _ rfl
      refine seated_of_holds ?_ (hpassed.holds (hholds.setCore s'))
        (tied_of_closes (c := (c.setCore slot s').deal _) hcloses hrunning hpassed)
      rw [hpassed.frame (·.factory) (Course.factory_pass _)]
      exact hfactory

theorem Stopped.seated {r : Except Fault Outcome} (h : Stopped Script.interpreter c r c')
    (hfactory : ∀ s, c.factory = some s → s.node = .nothing) : Seated P c' := by
  cases h with
  | bare hnone => exact seated_of_none hfactory hnone
  | failed _ hf => cases hf
  | cut _ hevents hpassed =>
      have hwhole := hpassed.whole_of_not_command fun name parameters hmem => by
        rcases Script.stop_batch hevents with ⟨-, rfl⟩ | ⟨-, rfl⟩
        · cases List.mem_singleton.mp hmem
        · cases hmem
      cases hwhole.1
  | @whole _ _ _ c' hholds _ hpassed =>
      have hsame : c'.factory = c.factory := hpassed.frame (·.factory) (Course.factory_pass _)
      exact seated_of_holds (fun s hs => hfactory s (hsame.symm.trans hs))
        (hpassed.holds (hholds.setCore _)) (tied_of_nothing rfl)

theorem Turn.seated {r : Request Script.State} {a : Except Fault Answer}
    (h : Turn Script.interpreter c r a c') (hr : r.Supplies fun s => s.node = .nothing)
    (hnamed : c.Named P loader) (hc : Seated P c) : Seated P c' := by
  cases h with
  | refused | unconfigured | idle | unpicked | unmade | aside => exact hc
  | unentered _ hholds hf =>
      rwa [show (Script.interpreter.setNode _ _).2 = _ from Script.setNode_of_error hf,
        Course.setCore_same hholds.2]
  | @entered node _ s _ _ _ hholds hok hpumped =>
      have hnames := hnamed.held hholds
      exact hpumped.seated hc.factory (hholds.setCore _) rfl (hnames.of_setNode hok)
        (hnames.of_nodes (Script.nodes_setNode node s))
  | pumped hrunning hholds hpumped =>
      exact hpumped.seated hc.factory hholds hrunning ((hc.held _ _ hholds).2 hrunning)
        (hnamed.held hholds)
  | answered h =>
      have hselected : ∀ {slot s}, c.Holds slot s → ∀ id,
          Seated P (c.setCore slot (Script.select id s).2) := by
        intro slot s hholds id
        refine seated_of_holds hc.factory (hholds.setCore _) ?_
        unfold Tied
        rw [Script.node_select]
        exact hc.held slot s hholds
      cases h with
      | unconfigured | empty => exact hc
      | taken hholds => exact hselected hholds _
      | refused hholds => exact hselected hholds _
  | stopped h => exact h.seated hc.factory
  | let_go => exact seated_of_none hc.factory rfl
  | kept _ h => exact h.seated hc.factory
  | cleaned _ h => exact seated_of_none (h.seated (P := P) hc.factory).factory rfl
  | @made factory s _ _ hs hloads =>
      have hnode : s.node = .nothing := by
        cases factory with
        | none => exact hc.factory s hs
        | some core =>
            cases hs
            exact hr
      have hmade : (c.made s).Holds c.cores.length s := ⟨rfl, List.getElem?_concat_length⟩
      have hfactory : ∀ s', (c.made s).factory = some s' → s'.node = .nothing := by
        intro s' hs'
        cases hs'
        exact hnode
      exact (seated_of_holds hfactory hmade (tied_of_nothing hnode)).of_loads hloads
  | built hloads | unloaded hloads => exact hc.of_loads hloads

theorem Turn.running_of_not_passes {I L : Type} {ip : Interpreter I L} {c c' : Course I}
    {r : Request I} {a : Except Fault Answer} (h : Turn ip c r a c') (hr : r.passes = false)
    (hrunning : c'.running = true) : c.running = true := by
  have hloads : ∀ {c : Course I}, c.Loads ip c' → c.running = true := fun hloads =>
    (hloads.frame (·.running) fun _ _ _ => rfl).symm.trans hrunning
  cases h with
  | refused | unconfigured | unentered | entered | idle | pumped | stopped | let_go | kept
  | cleaned => cases hr
  | unpicked | unmade | aside => exact hrunning
  | answered h => cases h <;> exact hrunning
  | made _ h => exact nomatch hloads h
  | built h | unloaded h => exact hloads h

end

end Session

/-! ## What is told -/

section
variable {H I : Type}

/-- What the runner told so far, wherever it went. -/
def World.tellings (w : World H I) : List Notification := w.showings.filterMap Showing.told?

/-- The runner shows nothing. -/
def SameShowings (w w' : World H I) : Prop := w'.showings = w.showings

instance : OverlooksCourse (SameShowings : World H I → World H I → Prop) where
  refl _ := rfl
  trans _ _ _ h₁ h₂ := h₂.trans h₁
  besides _ hreception := congrArg Reception.showings hreception

instance : OverlooksBus (SameShowings : World H I → World H I → Prop) where
  published _ _ := rfl

instance : AllowsWriting (SameShowings : World H I → World H I → Prop) where
  change _ _ _ _ hreception := congrArg Reception.showings hreception

theorem Invoke.Reports.keeps {invoke : Invoke H I} (h : invoke.Reports) (c : Callback) :
    Act.Keeps SameShowings (invoke c) :=
  fun w r w' hcall => congrArg Reception.showings (h c w r w' hcall)

/-- Completions were told of dialogues that were open, and a dialogue that runs is. -/
structure Opened (w : World H I) : Prop where
  inOrder : InOrder false w.tellings
  running : w.running = true → w.tellings.foldl Notification.opens false = true

variable {w w' : World H I}

theorem SameShowings.tellings (h : SameShowings w w') : w'.tellings = w.tellings :=
  congrArg (List.filterMap Showing.told?) h

theorem Opened.of_same (h : Opened w) (htold : w'.tellings = w.tellings)
    (hrunning : w'.running = true → w.running = true) : Opened w' where
  inOrder := htold ▸ h.inOrder
  running hrunning' := htold ▸ h.running (hrunning hrunning')

theorem Opened.completed (h : Opened w) (hrunning : w.running = true)
    (htold : w'.tellings = w.tellings ++ [.completed]) (hstopped : w'.running = false) :
    Opened w' where
  inOrder := by
    rw [htold, inOrder_append]
    exact ⟨h.inOrder, fun _ => h.running hrunning, trivial⟩
  running hrunning' := nomatch hstopped.symm.trans hrunning'

/-- What is told of an event that completes nothing leaves open what is. -/
theorem Opened.event (h : Opened w) {e : Event} (he : e.completes = false)
    (htold : w'.tellings = w.tellings ++ e.notification?.toList)
    (hrunning : w'.running = w.running) : Opened w' := by
  have hopens : InOrder (w.tellings.foldl Notification.opens false) e.notification?.toList ∧
      e.notification?.toList.foldl Notification.opens (w.tellings.foldl Notification.opens false) =
        w.tellings.foldl Notification.opens false := by
    cases e with
    | completed => cases he
    | line | options | nodeStarted | nodeCompleted | hints => exact ⟨⟨nofun, trivial⟩, rfl⟩
    | command | plain | alien => exact ⟨trivial, rfl⟩
  constructor
  · rw [htold, inOrder_append]
    exact ⟨h.inOrder, hopens.1⟩
  · rw [htold, List.foldl_append, hopens.2, hrunning]
    exact h.running

theorem Opened.started (h : Opened w) (htold : w'.tellings = w.tellings ++ [.started]) :
    Opened w' where
  inOrder := by
    rw [htold, inOrder_append]
    exact ⟨h.inOrder, nofun, trivial⟩
  running _ := by
    rw [htold, List.foldl_append]
    rfl

end

namespace Session

open Act

variable {H I L : Type} {w w' : World H I} {invoke : Invoke H I}

section
variable (hinvoke : invoke.Passive) (hreports : invoke.Reports)
include hinvoke hreports

theorem notify_tells {n : Notification} {r : Except Fault Unit}
    (h : Yields (notify invoke n) w r w') :
    r = .ok () ∧ w'.tellings = w.tellings ++ [n] ∧ w'.course = w.course := by
  obtain ⟨hr, hcourse⟩ := notify_passive hinvoke h
  refine ⟨hr, ?_, hcourse⟩
  rcases yields_bind.mp (yields_modify_bind.mp h) with ⟨_, u, hbring, hmark⟩ | ⟨f, hbring, -⟩
  · obtain ⟨-, rfl⟩ := yields_modify.mp hmark
    have hu : u.showings = w.showings ++ [.telling n] := bring_keeps hreports.keeps n _ _ _ hbring
    simp [World.tellings, hu, Showing.told?]
  · cases bring_heard hinvoke.hears hbring

theorem process_tells {place : Nat} {e : Event} {r : Except Fault Unit}
    (h : Yields (process invoke place e) w r w') :
    w'.tellings = w.tellings ++ e.notification?.toList := by
  have hnone : e.notification? = none → w'.tellings = w.tellings →
      w'.tellings = w.tellings ++ e.notification?.toList := by
    intro hn hsame
    rw [hn, hsame]
    exact (List.append_nil _).symm
  rcases process_cases h with
      ⟨n, hn, ⟨f, -, hnotify⟩ | ⟨u, -, hnotify, rfl⟩⟩ | ⟨name, parameters, rfl, hdispatch⟩ |
        ⟨hunknown, -, rfl⟩
  · cases (notify_tells hinvoke hreports hnotify).1
  · have hkept : (u.keep place e).tellings = u.tellings := by
      cases e <;> rfl
    rw [hkept, (notify_tells hinvoke hreports hnotify).2.1, hn]
    rfl
  · have hkeeps : Keeps SameShowings (discard (dispatch invoke name parameters)) :=
      (dispatch_keeps hreports.keeps name parameters).discard
    exact hnone rfl (hkeeps _ _ _ hdispatch).tellings
  · refine hnone ?_ rfl
    cases e <;> first | rfl | cases hunknown

theorem process_opened {place : Nat} {e : Event} {r : Except Fault Unit}
    (h : Yields (process invoke place e) w r w') (hw : Opened w)
    (hrunning : e.completes = true → w.running = true) :
    Opened w' ∧ (e.completes = false → w'.running = w.running) := by
  have htold := process_tells hinvoke hreports h
  have hcourse := process_passive hinvoke h
  cases he : e.completes with
  | true =>
      cases e with
      | completed =>
          refine ⟨hw.completed (hrunning rfl) htold ?_, nofun⟩
          rcases hcourse with ⟨-, hcourse⟩ | ⟨_, _, _, hcommand, -⟩
          · exact congrArg Course.running hcourse
          · cases hcommand
      | _ => cases he
  | false =>
      have hsame : w'.running = w.running := by
        rcases hcourse with ⟨-, hcourse⟩ | ⟨_, _, _, -, -, -, hcourse⟩
        · refine (congrArg Course.running hcourse).trans ?_
          cases e <;> first | rfl | cases he
        · exact congrArg Course.running hcourse
      exact ⟨hw.event he htold hsame, fun _ => hsame⟩

/-- A batch in which only the last event may complete, and only while a dialogue runs. -/
theorem processAll_opened {events : List Event} {r : Except Fault Unit}
    (h : Yields (processAll invoke events) w r w') (hw : Opened w)
    (hevents : ∀ e ∈ events.dropLast, e.completes = false)
    (hrunning : events.any Event.completes = true → w.running = true) : Opened w' := by
  have hall : ∀ (place : Nat) (events : List Event) (u : World H I), Opened u →
      (∀ e ∈ events.dropLast, e.completes = false) →
      (events.any Event.completes = true → u.running = true) →
      Yields (events.forM (process invoke place)) u r w' → Opened w' := by
    intro place events
    induction events with
    | nil =>
        intro u hu _ _ h
        obtain ⟨-, rfl⟩ := yields_pure.mp h
        exact hu
    | cons e events ih =>
        intro u hu hevents hrunning h
        rw [List.any_cons, Bool.or_eq_true] at hrunning
        have hpassed : ∀ {x : Except Fault Unit} {u₁ : World H I},
            Yields (process invoke place e) u x u₁ →
              Opened u₁ ∧ (e.completes = false → u₁.running = u.running) := fun h =>
          process_opened hinvoke hreports h hu fun he => hrunning (.inl he)
        rcases yields_bind.mp h with ⟨_, u₁, hprocess, hrest⟩ | ⟨f, hprocess, -⟩
        · obtain ⟨hu₁, hsame⟩ := hpassed hprocess
          cases events with
          | nil =>
              obtain ⟨-, rfl⟩ := yields_pure.mp hrest
              exact hu₁
          | cons e' rest =>
              rw [List.dropLast_cons_of_ne_nil (List.cons_ne_nil e' rest), List.forall_mem_cons]
                at hevents
              refine ih u₁ hu₁ hevents.2 (fun hcompletes => ?_) hrest
              rw [hsame hevents.1]
              exact hrunning (.inr hcompletes)
        · exact (hpassed hprocess).1
  have hbatch : Opened (w.dealt (.batch events)) := hw.of_same rfl id
  exact hall _ events _ hbatch hevents hrunning (yields_modify_bind.mp (yields_get_bind.mp h))

end

/-! ## Requests -/

theorem World.tellings_observed (w : World H I) (ip : Interpreter I L) (core : I)
    (c : EngineCall) : (w.observed ip core c).tellings = w.tellings := by
  unfold World.observed
  split <;> rfl

theorem World.tellings_begun (w : World H I) (ip : Interpreter I L) (core : I) :
    (w.begun ip core).tellings = w.tellings := by
  refine (World.tellings_observed _ ip core _).trans ?_
  simp [World.tellings, World.dealt, World.blank, Showing.told?]

theorem World.running_observed (w : World H I) (ip : Interpreter I L) (core : I)
    (c : EngineCall) : (w.observed ip core c).running = w.running :=
  congrArg Course.running (World.course_observed w ip core c)

theorem conclude_error_opened {f : Fault} {r : Except Fault Outcome}
    (h : Yields (conclude invoke (.error f)) w r w') (hw : Opened w) : Opened w' := by
  have hcourse : w.course = w'.course := conclude_error_keeps (R := OnCourse Eq) f w r w' h
  have hshowings : SameShowings w w' := conclude_error_keeps f w r w' h
  refine hw.of_same hshowings.tellings fun hrunning => ?_
  exact (congrArg Course.running hcourse).trans hrunning

section
variable {invoke : Invoke H Script.State} (hinvoke : invoke.Passive) (hreports : invoke.Reports)
  {w w' : World H Script.State} {fuel : Nat}
include hinvoke hreports

theorem continue_opened {r : Except Fault Outcome}
    (h : Yields (continueDialogue Script.interpreter fuel invoke) w r w') (hw : Opened w)
    (hheld : w.running = true → ∃ slot s, w.course.Holds slot s) : Opened w' := by
  cases hrunning : w.running with
  | false =>
      rcases continue_cases h with ⟨-, -, rfl⟩ | ⟨hrunning', -⟩ | ⟨hrunning', -⟩
      · exact hw
      · cases hrunning.symm.trans hrunning'
      · cases hrunning.symm.trans hrunning'
  | true =>
      obtain ⟨slot, s, hholds⟩ := hheld hrunning
      obtain ⟨x, u, hpump, hconclude⟩ := (yields_continue hrunning hholds).mp h
      have hbegun := World.course_begun w Script.interpreter s
      have hcore : (w.begun Script.interpreter s).course.cores[slot]? = some s := by
        rw [hbegun]
        exact hholds.2
      obtain ⟨s', hpumps, hcourse⟩ := pump_aloof hinvoke.keeps hcore hpump
      have hurunning : u.running = true := by
        rw [hbegun] at hcourse
        exact (congrArg Course.running hcourse).trans hrunning
      have hu : Opened u := by
        have htold : u.tellings = (w.begun Script.interpreter s).tellings :=
          SameShowings.tellings (pump_keeps_aside hreports.keeps slot fuel _ _ _ _ hpump)
        exact hw.of_same (htold.trans (World.tellings_begun w _ s)) fun _ => hrunning
      cases x with
      | error f => exact conclude_error_opened hconclude hu
      | ok events =>
          have hcloses := (Script.pumps_closes hpumps rfl trivial Script.names_true).2 events rfl
          have hpassed : ∀ {y u'}, Yields (processAll invoke events) u y u' → Opened u' :=
            fun h => processAll_opened hinvoke hreports h hu hcloses.dropLast fun _ => hurunning
          rcases yields_bind.mp hconclude with ⟨_, u', hall, hanswer⟩ | ⟨_, hall, -⟩
          · have hpure := yields_get_bind.mp hanswer
            obtain ⟨-, rfl⟩ := yields_pure.mp hpure
            exact hpassed hall
          · exact hpassed hall

theorem start_opened {node : Datum} {r : Except Fault Outcome}
    (h : Yields (start Script.interpreter fuel invoke node) w r w') (hw : Opened w)
    (hsound : w.course.Sound) : Opened w' := by
  rcases start_cases h with
      ⟨-, -, rfl⟩ | ⟨-, -, -, rfl⟩ | ⟨-, slot, hcurrent, hnone, -⟩ |
      ⟨hrunning, slot, s, hcurrent, hcore, -⟩
  · exact hw.of_same rfl id
  · exact hw
  · exact absurd hnone (by simp [hsound.held slot hcurrent])
  · have hset := (yields_start hrunning ⟨hcurrent, hcore⟩).mp h
    have htold := World.tellings_observed w Script.interpreter s (.nodeSet node)
    split at hset
    · next hok =>
      have hstarted : ∀ {x u}, Yields (notify invoke .started)
          (w.entered Script.interpreter slot s node) x u → x = .ok () ∧ Opened u ∧
            u.course = (w.course.setCore slot (Script.setNode node s).2).flag true .entered := by
        intro x u hnotify
        obtain ⟨hx, hu, hcourse⟩ := notify_tells hinvoke hreports hnotify
        exact ⟨hx, hw.started (hu.trans (congrArg (· ++ _) htold)),
          hcourse.trans (World.course_entered w _ slot s node)⟩
      rcases yields_bind.mp hset with ⟨_, u, hnotify, hcontinue⟩ | ⟨f, hnotify, -⟩
      · obtain ⟨-, hu, hcourse⟩ := hstarted hnotify
        have hholds : w.course.Holds slot s := ⟨hcurrent, hcore⟩
        refine continue_opened hinvoke hreports hcontinue hu fun _ => ?_
        rw [hcourse]
        exact ⟨slot, _, hholds.setCore _⟩
      · cases (hstarted hnotify).1
    · refine conclude_error_opened hset (hw.of_same htold fun hrunning' => ?_)
      exact (World.running_observed w _ s _).symm.trans hrunning'

theorem stop_opened {r : Except Fault Outcome}
    (h : Yields (stop Script.interpreter invoke) w r w') (hw : Opened w)
    (hsound : w.course.Sound) (hseated : Seated (fun _ => True) w.course) : Opened w' := by
  cases hcurrent : w.current with
  | none =>
      unfold stop at h
      have h := yields_get_bind.mp (yields_modify_bind.mp (yields_get_bind.mp h))
      split at h
      · next hslot => cases hcurrent.symm.trans hslot
      · have hpure := yields_modify_bind.mp h
        obtain ⟨-, rfl⟩ := yields_pure.mp hpure
        exact hw.of_same rfl fun hrunning => absurd hrunning Bool.false_ne_true
  | some slot =>
      obtain ⟨slot, s, hholds⟩ := hsound.exists_holds (by simp [World.course, hcurrent])
      obtain ⟨y, u, hpassed, hend⟩ := (yields_stop hholds rfl).mp h
      have hrunning := World.running_observed (w.dealt .stopping) Script.interpreter s
        .stopped
      have hstopping : Opened (w.stopping Script.interpreter slot s) :=
        hw.of_same (World.tellings_observed (w.dealt .stopping) _ s _) fun h =>
          hrunning.symm.trans h
      have hu : Opened u := by
        rcases Script.stop_batch (s := s) rfl with ⟨hs, hevents⟩ | ⟨-, hevents⟩
        · rw [hevents] at hpassed
          refine processAll_opened hinvoke hreports hpassed hstopping (by simp) fun _ => ?_
          exact hrunning.trans ((hseated.held slot s hholds).1 hs)
        · rw [hevents] at hpassed
          exact processAll_opened hinvoke hreports hpassed hstopping (by simp) (by simp)
      rcases hend with ⟨-, -, rfl⟩ | ⟨_, -, -, rfl⟩
      · exact hu.of_same rfl fun hrunning => absurd hrunning Bool.false_ne_true
      · exact hu

theorem cleanup_opened {r : Except Fault Unit}
    (h : Yields (cleanup Script.interpreter invoke) w r w') (hw : Opened w)
    (hsound : w.course.Sound) (hseated : Seated (fun _ => True) w.course) : Opened w' := by
  have hreleased : ∀ {u : World H Script.State}, Opened u →
      Opened { u.blank with current := none } := fun hu =>
    hu.of_same (by simp [World.tellings, World.blank, Showing.told?]) id
  unfold cleanup at h
  have h := yields_get_bind.mp h
  split at h
  · rcases yields_bind.mp h with ⟨_, u, hstop, hrest⟩ | ⟨f, hstop, -⟩
    · obtain ⟨x, hstop, -⟩ := yields_discard.mp hstop
      have hu := stop_opened hinvoke hreports hstop hw hsound hseated
      rcases yields_held_bind hrest with ⟨-, -, rfl⟩ | ⟨slot, -, hlast⟩
      · exact hu
      · have hunloaded : ∀ {y v}, Yields (unload Script.interpreter slot) u y v → Opened v := by
          intro y v hunload
          have hshowings : SameShowings u v :=
            unload_keeps (OverlooksRunner.allowsLoading _) slot u y v hunload
          have hloads : u.course.Loads Script.interpreter v.course :=
            unload_keeps Course.loads_allowsLoading.onCourse slot u y v hunload
          have hrunning : v.running = u.running := hloads.frame (·.running) fun _ _ _ => rfl
          exact hu.of_same hshowings.tellings fun hv => hrunning.symm.trans hv
        rcases yields_bind.mp hlast with ⟨_, v, hunload, hrelease⟩ | ⟨f, hunload, -⟩
        · obtain ⟨-, rfl⟩ := yields_modify.mp hrelease
          exact hreleased (hunloaded hunload)
        · exact hunloaded hunload
    · obtain ⟨x, hstop, -⟩ := yields_discard.mp hstop
      exact stop_opened hinvoke hreports hstop hw hsound hseated
  · obtain ⟨-, rfl⟩ := yields_modify.mp h
    exact hreleased hw

theorem perform_opened {r : Request Script.State} {a : Except Fault Answer}
    (h : Yields (perform Script.interpreter fuel invoke r) w a w') (hw : Opened w)
    (hsound : w.course.Sound) (hseated : Seated (fun _ => True) w.course) : Opened w' := by
  cases hpasses : r.passes with
  | false =>
      have hshowings : SameShowings w w' :=
        perform_keeps_aside hreports.keeps fuel hpasses w a w' h
      have hturn := perform_turn hinvoke hsound h
      exact hw.of_same hshowings.tellings fun hrunning =>
        hturn.running_of_not_passes hpasses hrunning
  | true =>
      cases r with
      | start node =>
          obtain ⟨x, hstart, -⟩ := yields_bind_pure.mp h
          exact start_opened hinvoke hreports hstart hw hsound
      | «continue» =>
          obtain ⟨x, hcontinue, -⟩ := yields_bind_pure.mp h
          exact continue_opened hinvoke hreports hcontinue hw fun hrunning =>
            hsound.exists_holds (hsound.running hrunning)
      | stop =>
          obtain ⟨x, hstop, -⟩ := yields_bind_pure.mp h
          exact stop_opened hinvoke hreports hstop hw hsound hseated
      | cleanup =>
          obtain ⟨x, hcleanup, -⟩ := yields_bind_pure.mp h
          exact cleanup_opened hinvoke hreports hcleanup hw hsound hseated
      | _ => cases hpasses

end

/-! ## Runs -/

section
variable {H : Type} {react : Host H Script.State} {w₀ w : World H Script.State}
  {steps : List (Request Script.State × Except Fault Answer)}

/-- Along a run the flag and the node stay tied, if what holds of the names is right. -/
theorem Run.seated {P : Datum → Prop} (hreact : react.Passive) (h₀ : w₀.Fresh)
    (hfactory : ∀ s, w₀.factory = some s → s = {})
    (hprograms : ∀ p ∈ w₀.programs, Script.Brings P w₀.loader p)
    (hrun : Run Script.interpreter react w₀ steps w)
    (hsteps : ∀ step ∈ steps, step.1.Supplies fun s => s = {})
    (hhanded : ∀ step ∈ steps, step.1.HandsOver (Script.Brings P w₀.loader)) :
    w.course.Sound ∧ w.course.Named P w₀.loader ∧ Seated P w.course := by
  have hmade : ∀ s : Script.State, s = {} → s.Names P ∧ s.node = .nothing := by
    rintro s rfl
    exact ⟨Script.names_of_empty rfl, rfl⟩
  induction hrun with
  | rest =>
      refine ⟨sound_of_fresh h₀, ⟨rfl, hprograms, fun s hs => (hmade s (hfactory s hs)).1, ?_⟩,
        seated_of_none (fun s hs => (hmade s (hfactory s hs)).2) h₀.current⟩
      intro s hs
      rw [World.course, h₀.instances] at hs
      cases hs
  | step _ answered ih =>
      rw [List.forall_mem_append, List.forall_mem_singleton] at hsteps hhanded
      obtain ⟨hsound, hnamed, hseated⟩ := ih hsteps.1 hhanded.1
      have hturn := exec_turn hreact hsound answered
      exact ⟨hturn.sound hsound,
        exec_named hreact hsound answered (hsteps.2.mono fun s hs => (hmade s hs).1) hhanded.2
          hnamed,
        hturn.seated (hsteps.2.mono fun s hs => (hmade s hs).2) hnamed hseated⟩

/-- Of the order of what is told the names do not matter. -/
theorem Run.opened (hreact : react.Passive) (h₀ : w₀.Fresh) (hshowings : w₀.showings = [])
    (hfactory : ∀ s, w₀.factory = some s → s = {})
    (hrun : Run Script.interpreter react w₀ steps w)
    (hsteps : ∀ step ∈ steps, step.1.Supplies fun s => s = {}) : Opened w := by
  induction hrun with
  | rest =>
      have htold : w₀.tellings = [] := congrArg (List.filterMap Showing.told?) hshowings
      constructor
      · rw [htold]
        trivial
      · exact fun hrunning => nomatch h₀.running.symm.trans hrunning
  | step hrun answered ih =>
      rw [List.forall_mem_append, List.forall_mem_singleton] at hsteps
      obtain ⟨hsound, -, hseated⟩ := hrun.seated hreact h₀ hfactory
        (fun _ _ => Script.brings_true) hsteps.1 fun _ _ => Script.handsOver_true
      obtain ⟨fuel, rfl, h⟩ := yields_exec.mp answered
      exact perform_opened (callHost_passive hreact fuel) (callHost_reports hreact fuel) h
        (ih hsteps.1) hsound hseated

theorem yields_currentNode (hsound : w.course.Sound) :
    ∃ node, Yields (currentNode Script.interpreter) w (.ok node) w ∧
      ∀ P, Seated P w.course → (node ≠ none → w.running = true) ∧
        ((∀ d, P d → d ≠ .nothing) → w.running = true → node ≠ none) := by
  unfold currentNode ask
  cases hcurrent : w.current with
  | none =>
      refine ⟨none, yields_get_bind.mpr ?_, fun P _ => ⟨fun h => absurd rfl h, ?_⟩⟩
      · rw [hcurrent]
        exact yields_pure.mpr ⟨rfl, rfl⟩
      · exact fun _ hrunning => absurd hcurrent (hsound.running hrunning)
  | some slot =>
      obtain ⟨slot, s, hholds⟩ := hsound.exists_holds (by simp [World.course, hcurrent])
      obtain ⟨i, hi, rfl⟩ := World.course_cores.mp hholds.2
      refine ⟨i.core.current?, yields_get_bind.mpr ?_, fun P hseated => ?_⟩
      · rw [show w.current = some slot from hholds.1]
        exact yields_bind_pure.mpr ⟨.ok i, yields_instance.mpr ⟨.inl ⟨i, hi, rfl⟩, rfl⟩, rfl⟩
      · obtain ⟨hruns, hnode⟩ := hseated.held slot _ hholds
        rw [ne_eq, Script.current?_eq_none]
        exact ⟨hruns, fun hP hrunning => hP _ (hnode hrunning)⟩

/-- Whatever programs were loaded and whatever was asked, and whether it failed or not: with a
current node a dialogue runs, and between two completions the runner told of a start.  A dialogue
that runs has a current node as long as no program that was handed over has a node named by
nothing at all.  This is of a host that does not drive the runner from its callbacks. -/
theorem running_iff_current_node (hreact : react.Passive) (h₀ : w₀.Fresh)
    (hshowings : w₀.showings = []) (hfactory : ∀ s, w₀.factory = some s → s = {})
    (hrun : Run Script.interpreter react w₀ steps w)
    (hsteps : ∀ step ∈ steps, step.1.Supplies fun s => s = {}) :
    (∃ node, Yields (currentNode Script.interpreter) w (.ok node) w ∧
      (node ≠ none → w.running = true) ∧
      ((∀ p ∈ w₀.programs, Script.NamesNodes w₀.loader p) →
        (∀ step ∈ steps, step.1.HandsOver (Script.NamesNodes w₀.loader)) →
        (w.running = true ↔ node ≠ none))) ∧
    ∀ before between after,
      w.tellings = before ++ .completed :: between ++ .completed :: after → .started ∈ between := by
  have hopened := hrun.opened hreact h₀ hshowings hfactory hsteps
  obtain ⟨hsound, -, hseated⟩ := hrun.seated hreact h₀ hfactory
    (fun _ _ => Script.brings_true) hsteps fun _ _ => Script.handsOver_true
  obtain ⟨node, hasked, hnode⟩ := yields_currentNode hsound
  refine ⟨⟨node, hasked, (hnode _ hseated).1, fun hprograms hhanded => ?_⟩,
    fun before between after h => ?_⟩
  · obtain ⟨-, -, hseated⟩ := hrun.seated hreact h₀ hfactory
      (fun p hp => (hprograms p hp).brings) hsteps fun step hstep =>
        (hhanded step hstep).mono fun p hp => hp.brings
    exact ⟨(hnode _ hseated).2 fun _ => id, (hnode _ hseated).1⟩
  · have hinOrder := hopened.inOrder
    rw [h] at hinOrder
    exact hinOrder.started_between

end

/-! ### A node that leads nowhere -/

def deadEnd : World Unit Script.State where
  host := ()
  factory := some {}
  programs := [.dict [
    (.text "Start", .dict [(.text "steps", .list [.tuple [.text "line", .text "a", .text "x"]])]),
    (.text "Bad", .dict [(.text "steps", .list [.tuple [.text "jump", .text "Nowhere"]])])]]

/-- A dialogue that comes to its end, and one whose pump fails and that is stopped then. -/
theorem running_iff_current_node_at_dead_end : ∃ steps w,
    (quiet : Host Unit Script.State).Passive ∧ deadEnd.Fresh ∧
      Run Script.interpreter quiet deadEnd steps w ∧
      (∀ step ∈ steps, step.1.Supplies fun s => s = {}) ∧
      w.tellings.map Notification.method =
        ["on_dialogue_start", "on_node_start", "on_line_hints", "on_line", "on_node_complete",
          "on_dialogue_complete", "on_dialogue_start", "on_dialogue_complete"] ∧
      (∃ node, Yields (currentNode Script.interpreter) w (.ok node) w ∧
        (w.running = true ↔ node ≠ none)) ∧
      ∀ before between after,
        w.tellings = before ++ .completed :: between ++ .completed :: after →
          .started ∈ between := by
  have hfollow : (follow Script.interpreter quiet 9 [.setup none, .start (.text "Start"), .continue,
      .start (.text "Bad"), .stop] deadEnd).any (fun p => p.2.tellings.map Notification.method ==
        ["on_dialogue_start", "on_node_start", "on_line_hints", "on_line", "on_node_complete",
          "on_dialogue_complete", "on_dialogue_start", "on_dialogue_complete"]) = true := by
    decide +kernel
  obtain ⟨⟨steps, w⟩, hsome, htold⟩ := (Option.any_eq_true _ _).mp hfollow
  have hrun := run_of_follow hsome
  have hsteps : ∀ step ∈ steps, step.1.Supplies fun s : Script.State => s = {} := by
    refine List.forall_mem_map.mp ?_
    rw [requests_of_follow hsome]
    simp [Request.Supplies]
  have hfresh : deadEnd.Fresh := ⟨rfl, rfl, rfl, rfl⟩
  have hfactory : ∀ s, deadEnd.factory = some s → s = {} := fun s hs => (Option.some.inj hs).symm
  have hnames : ∀ p ∈ deadEnd.programs, Script.NamesNodes deadEnd.loader p := by
    rintro p hp es hes
    cases List.mem_singleton.mp hp
    cases hes
    simp
  have hhanded : ∀ step ∈ steps,
      step.1.HandsOver (Script.NamesNodes deadEnd.loader) := by
    refine List.forall_mem_map.mp ?_
    rw [requests_of_follow hsome]
    simp [Request.HandsOver]
  obtain ⟨⟨node, hasked, -, hiff⟩, hbetween⟩ :=
    running_iff_current_node quiet_passive hfresh rfl hfactory hrun hsteps
  exact ⟨steps, w, quiet_passive, hfresh, hrun, hsteps, eq_of_beq htold,
    ⟨node, hasked, hiff hnames hhanded⟩, hbetween⟩

/-! ### A node named by nothing, and a listener that fails -/

def nameless : World Unit Script.State where
  host := ()
  factory := some {}
  programs := [.dict [(.nothing, .dict [(.text "steps", .list [])])]]

/-- One node, and a listener on the bus that is told when it is through. -/
def attended : World Unit Script.State where
  host := ()
  factory := some {}
  sink := .bus
  bus := Bus.subscribe {} .completed { handle := 0 }
  programs := [.dict [(.text "Start", .dict [(.text "steps", .list [])])]]

/-- The listener fails on the completion. -/
def fainting : Host Unit Script.State
  | host, .listener _ (.told .completed) => .finish host (.error (.accident .value))
  | host, _ => .finish host (.ok .nothing)

theorem fainting_aloof (host : Unit) (c : Callback) :
    (fainting host c).Abides (fun r => r.drives = false) fun result =>
      (∃ n, c = .sink n) → result = .ok .nothing := by
  unfold fainting
  split
  · rintro ⟨n, hn⟩
    cases hn
  · exact fun _ => rfl

/-- A dialogue runs, and there is no current node. -/
def runsNowhere (p : List (Request Script.State × Except Fault Answer) × World Unit Script.State) :
    Bool :=
  p.2.running && ((currentNode Script.interpreter).run.run p.2).any fun q =>
    match q.1 with
    | .ok none => true
    | _ => false

/-- A dialogue that was started at a node named by nothing runs without a current node.  So does
one whose completion was told on the bus to a listener that failed, although no callback drives the
runner and the host's own sink never fails. -/
theorem running_nowhere :
    (∃ steps w u, (quiet : Host Unit Script.State).Passive ∧ nameless.Fresh ∧
      steps.map Prod.fst = [.setup none, .start .nothing] ∧
      Run Script.interpreter quiet nameless steps w ∧ w.running = true ∧
      Yields (currentNode Script.interpreter) w (.ok none) u) ∧
    ∃ steps w u, (∀ host c, (fainting host c).Abides (fun r => r.drives = false) fun result =>
        (∃ n, c = .sink n) → result = .ok .nothing) ∧ attended.Fresh ∧
      steps.map Prod.fst = [.setup none, .start (.text "Start")] ∧
      Run Script.interpreter fainting attended steps w ∧ w.running = true ∧
      Yields (currentNode Script.interpreter) w (.ok none) u := by
  have hrun : ∀ (react : Host Unit Script.State) (rs : List (Request Script.State))
      (w₀ : World Unit Script.State),
      (follow Script.interpreter react 9 rs w₀).any runsNowhere = true →
      ∃ steps w u, steps.map Prod.fst = rs ∧ Run Script.interpreter react w₀ steps w ∧
        w.running = true ∧ Yields (currentNode Script.interpreter) w (.ok none) u := by
    intro react rs w₀ h
    obtain ⟨⟨steps, w⟩, hfollow, hp⟩ := (Option.any_eq_true _ _).mp h
    obtain ⟨hrunning, hasked⟩ := Bool.and_eq_true_iff.mp hp
    obtain ⟨⟨r, u⟩, hyields, hr⟩ := (Option.any_eq_true _ _).mp hasked
    refine ⟨steps, w, u, requests_of_follow hfollow, run_of_follow hfollow, hrunning, ?_⟩
    dsimp only at hr
    split at hr
    · exact hyields
    · cases hr
  obtain ⟨steps, w, u, hnameless⟩ :=
    hrun quiet [.setup none, .start .nothing] nameless (by decide +kernel)
  obtain ⟨steps', w', u', hattended⟩ :=
    hrun fainting [.setup none, .start (.text "Start")] attended (by decide +kernel)
  exact ⟨⟨steps, w, u, quiet_passive, ⟨rfl, rfl, rfl, rfl⟩, hnameless⟩,
    steps', w', u', fainting_aloof, ⟨rfl, rfl, rfl, rfl⟩, hattended⟩

end Session

end Parley
