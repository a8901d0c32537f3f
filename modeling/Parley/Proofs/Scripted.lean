import Parley.Interpreter.Script
import Parley.Proofs.Law
import Parley.Proofs.Turn
import Mathlib.Data.List.Basic

/-!
# Scripts of nodes and steps, one move at a time

What a pump of a script can do in one move, to its own events and to the interpreter's
state: `Moved`.  Before it pauses a pump only announces nodes, so options are the last event of
their batch, and so is a command.  The branches of a batch are numbered from zero, so a number
means at most one of them, but it means one in every batch that is long enough.
-/

namespace Parley

/-- Does the event say no more than where the dialogue is? -/
def Event.announces : Event → Bool
  | .nodeStarted _ | .nodeCompleted _ | .hints _ => true
  | _ => false

theorem Event.not_command_concat {announced : List Event} {last : Event}
    (hannounced : ∀ e ∈ announced, e.announces = true)
    (hlast : ∀ name parameters, last ≠ .command name parameters) (name : Datum)
    (parameters : List Datum) : .command name parameters ∉ announced ++ [last] := by
  intro hmem
  rcases List.mem_append.mp hmem with hmem | hmem
  · cases hannounced _ hmem
  · exact hlast name parameters (List.mem_singleton.mp hmem).symm

namespace Script

/-! ## Numbers of branches -/

/-- The branches are numbered from zero, in order. -/
def Numbered (branches : List Branch) : Prop :=
  ∀ (n : Nat) (b : Branch), branches[n]? = some b → b.id = .int n

theorem numbered_nil : Numbered [] := by
  intro n b h
  cases h

theorem numbered_makeBranches {textOf : TextOf} {offers : List Datum}
    {branches : List Branch} (h : makeBranches textOf offers = .ok branches) :
    Numbered branches := by
  intro n b hb
  obtain ⟨⟨d, i⟩, hoffer, hmake⟩ := getElem?_of_mapM h hb
  have hi : i = n := by
    rw [List.getElem?_zipIdx] at hoffer
    obtain ⟨_, -, heq⟩ := Option.map_eq_some_iff.mp hoffer
    cases heq
    exact Nat.zero_add n
  cases hread : Offer.ofDatum d with
  | error f =>
      simp only [bind, Except.bind, hread] at hmake
      cases hmake
  | ok offer =>
      simp only [bind, Except.bind, hread] at hmake
      cases hline : makeLine textOf offer.id offer.text with
      | error f =>
          simp only [hline] at hmake
          cases hmake
      | ok line =>
          simp only [hline] at hmake
          cases hmake
          rw [hi]

theorem same_int {i j : Int} : (Datum.int i).same (.int j) = true ↔ i = j := by
  have hone : (Double.one : Int) ≠ 0 := by decide +kernel
  simp only [Datum.same, Datum.sameNumber, Datum.quanta?, beq_iff_eq]
  exact ⟨Int.eq_of_mul_eq_mul_right hone, fun h => h ▸ rfl⟩

theorem Numbered.eq_of_id {branches : List Branch} (h : Numbered branches) {b p : Branch}
    (hb : b ∈ branches) (hp : p ∈ branches) (hid : p.id = b.id) : p = b := by
  obtain ⟨n, hn⟩ := List.getElem?_of_mem hb
  obtain ⟨m, hm⟩ := List.getElem?_of_mem hp
  rw [h n b hn, h m p hm] at hid
  cases hid
  exact Option.some.inj (hm.symm.trans hn)

/-- All options of a batch are numbered. -/
def AllNumbered (batch : List Event) : Prop :=
  ∀ branches, .options branches ∈ batch → Numbered branches

/-! ## Moves -/

/-- The events a pump has gathered only announce, and begin with these. -/
def Local.Gathers (events : List Event) : Local → Prop
  | .running gathered | .assign _ _ gathered =>
    events <+: gathered ∧ ∀ e ∈ gathered, e.announces = true
  | .begin => events = []
  | .failed _ => True

/-- A batch begins with these events, numbers its options, and but for its last event only
announces. -/
structure Gathered (events batch : List Event) : Prop where
  begins : events <+: batch
  numbered : AllNumbered batch
  announces : ∀ e ∈ batch.dropLast, e.announces = true

/-- What a move does when these events have been gathered.  No move loads anything.  All but
options leave the branches and the waiting alone, and what comes before the options in their batch
only announces. -/
structure Moved (events : List Event) (s : State) (m : Move Local) (s' : State) : Prop where
  leads : m.Leads (Local.Gathers events) (Gathered events)
  nodes : s'.nodes = s.nodes
  destination : s.destination = none → s'.destination = none
  offers : (s'.branches = s.branches ∧ s'.waiting = s.waiting) ∨
    ∃ announced, m = .pause (announced ++ [.options s'.branches]) ∧
      (∀ e ∈ announced, e.announces = true) ∧ Numbered s'.branches

variable {s : State} {events : List Event}

theorem Local.Gathers.weaken {before : List Event} {l : Local} (h : l.Gathers events)
    (hbefore : before <+: events) : l.Gathers before := by
  cases l with
  | running | assign => exact ⟨hbefore.trans h.1, h.2⟩
  | begin => exact List.prefix_nil.mp (h ▸ hbefore)
  | failed => trivial

theorem Moved.weaken {before : List Event} {m : Move Local} {s' : State} (h : Moved events s m s')
    (hbefore : before <+: events) : Moved before s m s' where
  leads := Move.Leads.mono h.leads (fun _ hl => hl.weaken hbefore) fun _ hq =>
    ⟨hbefore.trans hq.begins, hq.numbered, hq.announces⟩
  nodes := h.nodes
  destination := h.destination
  offers := h.offers

theorem Moved.of_same {s₀ : State} {m : Move Local} {s' : State} (h : Moved events s m s')
    (hnodes : s.nodes = s₀.nodes) (hbranches : s.branches = s₀.branches)
    (hwaiting : s.waiting = s₀.waiting)
    (hdestination : s₀.destination = none → s.destination = none) : Moved events s₀ m s' where
  leads := h.leads
  nodes := h.nodes.trans hnodes
  destination := fun hnone => h.destination (hdestination hnone)
  offers := by
    rw [← hbranches, ← hwaiting]
    exact h.offers

theorem gathered_concat {last : Event} (hevents : ∀ e ∈ events, e.announces = true)
    (hlast : ∀ branches, last = .options branches → Numbered branches) :
    Gathered events (events ++ [last]) where
  begins := List.prefix_append _ _
  numbered := by
    intro branches h
    rcases List.mem_append.mp h with h | h
    · cases hevents _ h
    · exact hlast branches (List.mem_singleton.mp h).symm
  announces := by
    rw [List.dropLast_concat]
    exact hevents

theorem moved_pause {s' : State} {last : Event} (hnodes : s'.nodes = s.nodes)
    (hbranches : s'.branches = s.branches) (hwaiting : s'.waiting = s.waiting)
    (hdestination : s'.destination = s.destination)
    (hevents : ∀ e ∈ events, e.announces = true) (hlast : ∀ branches, last ≠ .options branches) :
    Moved events s (.pause (events ++ [last])) s' where
  leads := gathered_concat hevents fun branches h => absurd h (hlast branches)
  nodes := hnodes
  destination := fun hnone => hdestination.trans hnone
  offers := .inl ⟨hbranches, hwaiting⟩

theorem moved_fail {f : Fault} : Moved events s (.fail f) s := ⟨trivial, rfl, id, .inl ⟨rfl, rfl⟩⟩

theorem moved_ask {request : Ask} {next : Except Fault Datum → Local}
    (hnext : ∀ answer, (next answer).Gathers events) : Moved events s (.ask request next) s :=
  ⟨hnext, rfl, id, .inl ⟨rfl, rfl⟩⟩

theorem gathers_afterWrite (hevents : ∀ e ∈ events, e.announces = true)
    (answer : Except Fault Datum) : (afterWrite events answer).Gathers events := by
  cases answer with
  | ok d => exact ⟨List.prefix_rfl, hevents⟩
  | error f => trivial

theorem gathers_afterCall (hevents : ∀ e ∈ events, e.announces = true)
    (rest : Except Fault (Datum × List Datum)) (answer : Except Fault Datum) :
    (afterCall events rest answer).Gathers events := by
  unfold afterCall
  split
  · split
    · exact ⟨List.prefix_rfl, hevents⟩
    · trivial
  · trivial

theorem moved_enter (hevents : ∀ e ∈ events, e.announces = true) (node : Datum) :
    Moved events s (enter s node events).1 (enter s node events).2 := by
  unfold enter
  split
  · refine ⟨⟨List.prefix_append _ _, List.forall_mem_append.mpr ⟨hevents, ?_⟩⟩, rfl, id,
      .inl ⟨rfl, rfl⟩⟩
    exact List.forall_mem_singleton.mpr rfl
  · exact moved_fail
  · exact moved_fail

theorem moved_perform (textOf : TextOf) (hevents : ∀ e ∈ events, e.announces = true)
    (step : Step) :
    Moved events s (perform textOf s events step).1 (perform textOf s events step).2 := by
  cases step with
  | line id text =>
      unfold perform
      dsimp only
      split
      · exact moved_pause rfl rfl rfl rfl hevents (by simp)
      · exact moved_fail
  | options offers =>
      unfold perform
      dsimp only
      split
      · next branches hbranches =>
        have hnumbered := numbered_makeBranches hbranches
        refine ⟨gathered_concat hevents ?_, rfl, id, .inr ⟨events, rfl, hevents, hnumbered⟩⟩
        rintro branches' ⟨⟩
        exact hnumbered
      · exact moved_fail
  | command name parameters => exact moved_pause rfl rfl rfl rfl hevents (by simp)
  | set name value => exact moved_ask (gathers_afterWrite hevents)
  | call function rest => exact moved_ask (gathers_afterCall hevents rest)
  | jump node => exact moved_enter hevents node

theorem announce_ok {node : Node} {events' : List Event} (h : announce s node events = .ok events') :
    if s.entering then ∃ ids, events' = events ++ [.nodeStarted s.node, .hints ids]
    else events' = events := by
  unfold announce at h
  split at h
  · next hentering =>
    rw [if_pos hentering]
    cases hids : node.lineIds with
    | error f =>
        rw [hids] at h
        cases h
    | ok ids =>
        rw [hids] at h
        cases h
        exact ⟨ids, rfl⟩
  · next hentering =>
    rw [if_neg hentering]
    cases h
    rfl

theorem announce_gathers {node : Node} {events' : List Event}
    (hevents : ∀ e ∈ events, e.announces = true) (h : announce s node events = .ok events') :
    events <+: events' ∧ ∀ e ∈ events', e.announces = true := by
  have h := announce_ok h
  split at h
  · obtain ⟨ids, rfl⟩ := h
    refine ⟨List.prefix_append _ _, fun e he => ?_⟩
    rcases List.mem_append.mp he with he | he
    · exact hevents e he
    · simp only [List.mem_cons, List.not_mem_nil, or_false] at he
      obtain rfl | rfl := he <;> rfl
  · rw [h]
    exact ⟨List.prefix_rfl, hevents⟩

/-- The next step of a node: it fails before it begins, or it is taken with the
announcement made. -/
theorem moved_stepOn (textOf : TextOf) (hevents : ∀ e ∈ events, e.announces = true) :
    Moved events s (stepOn textOf s events).1 (stepOn textOf s events).2 ∧
      ((∃ f, (stepOn textOf s events).1 = .fail f) ∨
        ∃ node events', announce s node events = .ok events' ∧
          Moved events' s (stepOn textOf s events).1 (stepOn textOf s events).2) := by
  unfold stepOn
  dsimp only
  split
  · exact ⟨moved_fail.of_same rfl rfl rfl id, .inl ⟨_, rfl⟩⟩
  · next node hfound =>
    split
    · exact ⟨moved_fail.of_same rfl rfl rfl id, .inl ⟨_, rfl⟩⟩
    · next events' hannounce =>
      obtain ⟨hextends, hevents'⟩ := announce_gathers hevents hannounce
      have hboth : ∀ {x : Move Local × State}, Moved events' s x.1 x.2 → Moved events s x.1 x.2 ∧
          ((∃ f, x.1 = .fail f) ∨ ∃ node events',
            announce s node events = .ok events' ∧ Moved events' s x.1 x.2) := fun h =>
        ⟨h.weaken hextends, .inr ⟨node, events', hannounce, h⟩⟩
      refine hboth ?_
      split
      · exact moved_fail.of_same rfl rfl rfl id
      · have hcompleted : ∀ e ∈ events' ++ [.nodeCompleted s.node], e.announces = true :=
          List.forall_mem_append.mpr ⟨hevents', List.forall_mem_singleton.mpr rfl⟩
        have hpause : Moved (events' ++ [.nodeCompleted s.node]) s
            (.pause (events' ++ [.nodeCompleted s.node] ++ [.completed]))
            { s with entering := false, node := .nothing } :=
          moved_pause rfl rfl rfl rfl hcompleted (by simp)
        rw [List.append_cons]
        exact hpause.weaken (List.prefix_append _ _)
      · split
        · exact moved_fail.of_same rfl rfl rfl id
        · next step _ => exact (moved_perform textOf hevents' step).of_same rfl rfl rfl id

theorem moved_begin (textOf : TextOf) (s : State) :
    Moved [] s (advance textOf .begin s).1 (advance textOf .begin s).2 := by
  rw [advance]
  split
  · exact moved_fail
  · split
    · exact moved_fail
    · split
      · next node _ =>
        have hnone : ∀ e ∈ ([] : List Event), e.announces = true := by simp
        have henter := moved_enter (s := { s with destination := none }) hnone node
        exact henter.of_same rfl rfl rfl fun _ => rfl
      · exact ⟨⟨List.prefix_rfl, by simp⟩, rfl, id, .inl ⟨rfl, rfl⟩⟩

theorem moved_advance (textOf : TextOf) {l : Local} (hl : l.Gathers events) (s : State) :
    Moved events s (advance textOf l s).1 (advance textOf l s).2 := by
  cases l with
  | begin =>
      cases hl
      exact moved_begin textOf s
  | running gathered => exact (moved_stepOn textOf hl.2).1.weaken hl.1
  | assign name value gathered => exact (moved_ask (gathers_afterWrite hl.2)).weaken hl.1
  | failed f => exact moved_fail

theorem moved_of_advance {textOf : TextOf} {l : Local} {m : Move Local} {s' : State}
    (h : interpreter.advance textOf l s = (m, s')) (hl : l.Gathers events) :
    Moved events s m s' := by
  have hmoved := moved_advance textOf hl s
  rwa [show advance textOf l s = (m, s') from h] at hmoved

theorem leads_advance (events : List Event) (textOf : TextOf) (l : Local) (s : State)
    (hl : l.Gathers events) :
    (interpreter.advance textOf l s).1.Leads (Local.Gathers events) (Gathered events) :=
  (moved_advance textOf hl s).leads

theorem isKey_of_hasNode {node : Datum} (h : s.hasNode node = .ok true) : node.isKey = true := by
  rcases node.isKey_or_error with hkey | ⟨f, hf⟩
  · exact hkey
  · rw [State.hasNode, hf] at h
    cases h

theorem enter_cases (s : State) (node : Datum) (events : List Event) :
    (∃ f, enter s node events = (.fail f, s)) ∨
      s.hasNode node = .ok true ∧ enter s node events =
        (.again (.running (events ++ [.nodeCompleted s.node])),
          { s with node, position := 0, entering := true }) := by
  unfold enter
  split
  · next hnode => exact .inr ⟨hnode, rfl⟩
  · exact .inl ⟨_, rfl⟩
  · exact .inl ⟨_, rfl⟩

/-- The first move of a pump after an answer with a destination. -/
theorem advance_begin {textOf : TextOf} {node : Datum} (hwaiting : s.waiting = false)
    (hnode : s.node.isSomething = true) (hdestination : s.destination = some node) :
    interpreter.advance textOf .begin s = enter { s with destination := none } node [] := by
  show advance textOf .begin s = _
  rw [advance, if_neg (by simp [hwaiting]), if_neg (by simp [hnode]), hdestination]

/-! ## Other calls -/

theorem setNode_of_error {node : Datum} {f : Fault} (h : (setNode node s).1 = .error f) :
    (setNode node s).2 = s := by
  unfold setNode at h ⊢
  split <;> simp_all

theorem setNode_of_ok {node : Datum} (h : (setNode node s).1 = .ok ()) :
    (setNode node s).2.waiting = false := by
  unfold setNode at h ⊢
  split <;> simp_all

theorem select_of_error {id : Datum} {f : Fault} (h : (select id s).1 = .error f) :
    (select id s).2 = s := by
  unfold select at h ⊢
  split
  · split <;> simp_all
  · rfl

theorem select_of_ok {id : Datum} (h : (select id s).1 = .ok ()) :
    (select id s).2.waiting = false := by
  unfold select at h ⊢
  split
  · split <;> simp_all
  · simp_all

/-! ## Loading -/

/-- All of a state but its nodes, which alone change when programs are loaded. -/
def State.bare (s : State) : State := { s with nodes := {} }

theorem bare_load (p : Program) (s : State) : (load p s).2.bare = s.bare := by
  unfold load
  split <;> rfl

theorem exists_of_bare {cores cores' : List State}
    (h : cores'.map State.bare = cores.map State.bare)
    {slot : Nat} {s' : State} (hs' : cores'[slot]? = some s') :
    ∃ s, cores[slot]? = some s ∧ s.bare = s'.bare := by
  have hbare : (cores.map State.bare)[slot]? = some s'.bare := by
    rw [← h, List.getElem?_map, hs']
    rfl
  rw [List.getElem?_map] at hbare
  exact Option.map_eq_some_iff.mp hbare

end Script

theorem Course.Loads.bare {c c' : Course Script.State} (h : c.Loads Script.interpreter c') :
    c'.cores.map Script.State.bare = c.cores.map Script.State.bare := by
  induction h with
  | rest => rfl
  | @load c' slot core p _ hcore ih =>
      have hcore : (c'.cores.map Script.State.bare)[slot]? = some core.bare := by
        rw [List.getElem?_map, hcore]
        rfl
      obtain ⟨hlt, heq⟩ := List.getElem?_eq_some_iff.mp hcore
      show (c'.cores.set slot (Script.load p core).2).map Script.State.bare = _
      rw [List.map_set, Script.bare_load, ← heq, List.set_getElem_self, ih]
  | @unload c' slot _ ih =>
      rw [← ih]
      apply List.ext_getElem?
      intro n
      show ((c'.cores.modify slot Script.interpreter.unload).map Script.State.bare)[n]? = _
      rw [List.getElem?_map, List.getElem?_modify, List.getElem?_map]
      cases c'.cores[n]? with
      | none => rfl
      | some s =>
          show some (Script.State.bare (if slot = n then _ else s)) = some s.bare
          split <;> rfl
  | programs ps _ ih => exact ih

end Parley
