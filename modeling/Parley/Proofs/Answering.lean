import Parley.Proofs.Ending
import Parley.Proofs.Resting
import Parley.Proofs.Running
import Parley.Proofs.Scripted

/-!
# Answers by number

A host answers options by handing a choice back, and of the choice only the number of
its branch reaches the interpreter.  Whatever a host does, branches are numbered from
zero in every batch, `Course.Counted`.  So a choice from any batch is taken for the
branch with its number in the batch that is pending, if there is one.  For a choice of
that batch this is the branch itself; one kept from an earlier batch is refused only
when its number is too large.
-/

namespace Parley

namespace Script

variable {s : State}

theorem find?_same {branches : List Branch} (h : Numbered branches) (n : Nat) :
    branches.find? (fun p => p.id.same (.int n)) = branches[n]? := by
  cases hn : branches[n]? with
  | none =>
      rw [List.find?_eq_none]
      intro p hp hsame
      obtain ⟨m, hm⟩ := List.getElem?_of_mem hp
      rw [h m p hm, same_int] at hsame
      rw [Int.ofNat.inj hsame, hn] at hm
      cases hm
  | some p =>
      cases hfind : branches.find? (fun p => p.id.same (.int n)) with
      | none =>
          have hnot := List.find?_eq_none.mp hfind p (List.mem_of_getElem? hn)
          rw [h n p hn] at hnot
          exact absurd (same_int.mpr rfl) hnot
      | some q =>
          obtain ⟨m, hm⟩ := List.getElem?_of_mem (List.mem_of_find?_eq_some hfind)
          have hsame := List.find?_some hfind
          rw [h m q hm, same_int] at hsame
          rw [Int.ofNat.inj hsame, hn] at hm
          exact hm.symm

/-- The state after an answer by a branch. -/
def State.answered (s : State) (p : Branch) : State :=
  { s with waiting := false, destination := (some p.destination).filter Datum.isSomething }

theorem select_of_some (h : Numbered s.branches) (hwaiting : s.waiting = true) {n : Nat}
    {p : Branch} (hp : s.branches[n]? = some p) : select (.int n) s = (.ok (), s.answered p) := by
  rw [select, if_pos hwaiting, find?_same h, hp]
  rfl

theorem select_of_none (h : Numbered s.branches) (hwaiting : s.waiting = true) {n : Nat}
    (hn : s.branches[n]? = none) :
    select (.int n) s = (.error (.invalidOption (.int n) s.branches.length), s) := by
  rw [select, if_pos hwaiting, find?_same h, hn]

/-- Such a refusal is an error of a dialogue, unless the number is too long to be told. -/
theorem untold_of_invalidOption (n count : Nat) :
    (Fault.invalidOption (.int n) count).isA .dialogue = false →
      (Datum.int n).hasText = false ∧
        Fault.invalidOption (.int n) count = .accident .value := by
  rw [Fault.invalidOption, Fault.telling]
  cases (Datum.int n).hasText with
  | true =>
      intro h
      cases h
  | false => exact fun _ => ⟨rfl, rfl⟩

theorem select_of_not_waiting (hwaiting : s.waiting = false) (id : Datum) :
    select id s = (.error (.raised .unexpectedSelection []), s) := by
  rw [select, if_neg (by simp [hwaiting])]

/-- An answer by number: the branch of that number is chosen, or all stays as it is, and no
branch that is waited for has the number. -/
theorem select_int_cases (h : Numbered s.branches) (n : Nat) :
    (s.waiting = true ∧ ∃ p ∈ s.branches, p.id = .int n ∧
      select (.int n) s = (.ok (), s.answered p)) ∨
    ∃ f, select (.int n) s = (.error f, s) ∧
      (s.waiting = true → ∀ p ∈ s.branches, p.id ≠ .int n) ∧
      (f.isA .dialogue = false → (Datum.int n).hasText = false ∧ f = .accident .value) := by
  cases hwaiting : s.waiting with
  | false =>
      refine .inr ⟨_, select_of_not_waiting hwaiting _, by simp, ?_⟩
      intro h
      cases h
  | true =>
      cases hn : s.branches[n]? with
      | some p =>
          exact .inl ⟨rfl, p, List.mem_of_getElem? hn, h n p hn, select_of_some h hwaiting hn⟩
      | none =>
          refine .inr ⟨_, select_of_none h hwaiting hn, fun _ p hp hid => ?_,
            untold_of_invalidOption n _⟩
          obtain ⟨m, hm⟩ := List.getElem?_of_mem hp
          rw [h m p hm] at hid
          cases hid
          cases hn.symm.trans hm

theorem numbered_of_calls {s' : State} (h : interpreter.Calls (Local.Gathers []) s s')
    (hs : Numbered s.branches) : Numbered s'.branches := by
  cases h with
  | setNode node =>
      show Numbered (setNode node s).2.branches
      unfold setNode
      split <;> exact hs
  | select id =>
      show Numbered (select id s).2.branches
      unfold select
      split
      · split <;> exact hs
      · exact hs
  | stop => exact hs
  | advance textOf hl =>
      rcases (moved_advance textOf hl s).offers with ⟨hbranches, -⟩ | ⟨_, -, -, hnumbered⟩
      · show Numbered (advance _ _ s).2.branches
        rw [hbranches]
        exact hs
      · exact hnumbered

end Script

/-! ## Numbers along a run -/

namespace Course

/-- The interpreter held is there, and branches are numbered wherever there are any: in
the interpreters, in the one that new ones are made from, in the batches obtained. -/
structure Counted (c : Course Script.State) : Prop where
  held : ∀ slot, c.current = some slot → slot < c.cores.length
  cores : ∀ s ∈ c.cores, Script.Numbered s.branches
  factory : ∀ s, c.factory = some s → Script.Numbered s.branches
  batches : ∀ events, .batch events ∈ c.dealings → Script.AllNumbered events

/-- The dealings went on, and all is numbered as before. -/
def CountsOn (c c' : Course Script.State) : Prop :=
  c.dealings <+: c'.dealings ∧ (c.Counted → c'.Counted)

instance : IsPreorder (Course Script.State) CountsOn where
  refl _ := ⟨List.prefix_rfl, id⟩
  trans _ _ _ h₁ h₂ := ⟨h₁.1.trans h₂.1, h₂.2 ∘ h₁.2⟩

variable {c c' : Course Script.State}

theorem CountsOn.of_cores (hcurrent : c'.current = c.current) (hfactory : c'.factory = c.factory)
    (hdealings : c'.dealings = c.dealings) (hlength : c'.cores.length = c.cores.length)
    (hcores : (∀ s ∈ c.cores, Script.Numbered s.branches) →
      ∀ s ∈ c'.cores, Script.Numbered s.branches) : CountsOn c c' := by
  refine ⟨hdealings ▸ List.prefix_rfl, fun h => ⟨?_, hcores h.cores, ?_, ?_⟩⟩
  · rw [hcurrent, hlength]
    exact h.held
  · rw [hfactory]
    exact h.factory
  · rw [hdealings]
    exact h.batches

theorem CountsOn.of_loads (h : c.Loads Script.interpreter c') : CountsOn c c' := by
  refine .of_cores (h.frame (·.current) fun _ _ _ => rfl) (h.frame (·.factory) fun _ _ _ => rfl)
    (h.frame (·.dealings) fun _ _ _ => rfl) h.length_cores fun hcores s' hs' => ?_
  obtain ⟨slot, hslot⟩ := List.getElem?_of_mem hs'
  obtain ⟨s, hs, hbare⟩ := Script.exists_of_bare h.bare hslot
  have hbranches : s.bare.branches = s'.bare.branches := congrArg (·.branches) hbare
  have hnumbered := hcores s (List.mem_of_getElem? hs)
  rwa [show s.branches = s'.branches from hbranches] at hnumbered

theorem countsOn_deal {d : Dealing} {running : Bool}
    (hd : ∀ events, d = .batch events → Script.AllNumbered events) :
    CountsOn c { c with running, dealings := c.dealings ++ [d] } := by
  refine ⟨List.prefix_append _ _, fun h => ⟨h.held, h.cores, h.factory, fun events hevents => ?_⟩⟩
  rcases List.mem_append.mp hevents with hevents | hevents
  · exact h.batches events hevents
  · exact hd events (List.mem_singleton.mp hevents).symm

theorem counted_law : Law Script.interpreter (fun s => s = {}) (Script.Local.Gathers [])
    Script.AllNumbered CountsOn where
  load _ _ _ p hcore := .of_loads (.load p .rest hcore)
  unload _ slot := .of_loads (.unload slot .rest)
  programs _ ps := .of_loads (.programs ps .rest)
  grows _ _ := And.left
  made c core hcore := by
    refine ⟨List.prefix_append _ _, fun h => ?_⟩
    have hnumbered : Script.Numbered core.branches := by
      rcases hcore with rfl | hfactory
      · exact Script.numbered_nil
      · exact h.factory core hfactory
    refine ⟨fun slot hslot => ?_, fun s hs => ?_, fun s hs => ?_, fun events hevents => ?_⟩
    · cases hslot
      simp [made, flag, deal]
    · rcases List.mem_append.mp hs with hs | hs
      · exact h.cores s hs
      · cases List.mem_singleton.mp hs
        exact hnumbered
    · cases hs
      exact hnumbered
    · rcases List.mem_append.mp hevents with hevents | hevents
      · exact h.batches events hevents
      · cases List.mem_singleton.mp hevents
  shown _ _ _ := .of_cores rfl rfl rfl rfl id
  released _ := by
    refine ⟨List.prefix_rfl, fun h => ⟨fun slot hslot => ?_, h.cores, h.factory, h.batches⟩⟩
    cases hslot
  called c slot core core' hcore hcalls := by
    refine .of_cores rfl rfl rfl List.length_set ?_
    intro hcores s hs
    rcases List.mem_or_eq_of_mem_set hs with hs | rfl
    · exact hcores s hs
    · exact Script.numbered_of_calls hcalls (hcores core (List.mem_of_getElem? hcore))
  entered _ := countsOn_deal (by simp)
  pumping _ := countsOn_deal (by simp)
  stopping _ := countsOn_deal (by simp)
  batch _ events hevents := countsOn_deal fun _ h => by
    cases h
    exact hevents
  settled _ _ _ _ _ := countsOn_deal (by simp)
  begins _ := rfl
  leads textOf l s hl :=
    (Script.leads_advance [] textOf l s hl).mono (fun _ => id) fun _ => Script.Gathered.numbered
  stops s events hevents := by
    cases hevents
    intro branches h
    split at h <;> simp at h

end Course

namespace Session

open Act
open Course (Follows Rests follows_law counted_law)

variable {H : Type} {react : Host H Script.State} {w₀ w w' : World H Script.State}
  {steps : List (Request Script.State × Except Fault Answer)}

theorem Run.counted {q : Callback → Except Fault Datum → Prop}
    (hreact : ∀ host c, (react host c).Abides (Request.Supplies fun s => s = {}) (q c))
    (h₀ : w₀.Fresh) (hfactory : ∀ s, w₀.factory = some s → s = {})
    (hrun : Run Script.interpreter react w₀ steps w)
    (hsteps : ∀ step ∈ steps, step.1.Supplies fun s => s = {}) : w.course.Counted := by
  refine (hrun.keeps (fun fuel r hr => exec_keeps_of_law counted_law hreact fuel r hr) hsteps).2 ?_
  refine ⟨fun slot hslot => ?_, fun s hs => ?_, fun s hs => ?_, fun events hevents => ?_⟩
  · cases h₀.current.symm.trans hslot
  · rw [show w₀.course.cores = [] from congrArg _ h₀.instances] at hs
    cases hs
  · rw [hfactory s hs]
    exact Script.numbered_nil
  · rw [show w₀.course.dealings = [] from h₀.dealings] at hevents
    cases hevents

/-! ## Answers -/

/-- The branch that a choice wraps, if it wraps one, is in a batch the runner obtained. -/
def Held (dealings : List Dealing) (choice : Option Choice) : Prop :=
  ∀ b, choice.bind (·.branch) = some b →
    ∃ events branches, .batch events ∈ dealings ∧ .options branches ∈ events ∧ b ∈ branches

theorem Held.append {dealings dealings' : List Dealing} {choice : Option Choice}
    (h : Held dealings choice) (t : List Dealing) (ht : dealings' = dealings ++ t) :
    Held dealings' choice := by
  intro b hb
  obtain ⟨events, branches, hevents, hmem⟩ := h b hb
  refine ⟨events, branches, ?_, hmem⟩
  rw [ht]
  exact List.mem_append_left _ hevents

/-- The interpreter held waits for an answer by one of the branches. -/
def Pending (c : Course Script.State) (branches : List Branch) : Prop :=
  ∃ s, c.core? = some s ∧ s.waiting = true ∧ s.branches = branches

/-- The choice wraps a branch that is pending. -/
def Wraps (c : Course Script.State) (choice : Option Choice) : Prop :=
  ∃ b branches, choice.bind (·.branch) = some b ∧ Pending c branches ∧ b ∈ branches

/-- The choice wraps a branch that is not pending, but its number is that of one. -/
def Collides (c : Course Script.State) (choice : Option Choice) : Prop :=
  ∃ b branches, choice.bind (·.branch) = some b ∧ Pending c branches ∧ b ∉ branches ∧
    ∃ p ∈ branches, p.id = b.id

theorem Pending.of_holds {c : Course Script.State} {branches : List Branch} {slot : Nat}
    {s : Script.State} (h : Pending c branches) (hholds : c.Holds slot s) :
    s.waiting = true ∧ s.branches = branches := by
  obtain ⟨s', hs', hwaiting, hbranches⟩ := h
  cases hholds.core?.symm.trans hs'
  exact ⟨hwaiting, hbranches⟩

theorem pending_unique {c : Course Script.State} {branches branches' : List Branch}
    (h : Pending c branches) (h' : Pending c branches') : branches = branches' := by
  obtain ⟨s, hs, -, rfl⟩ := h
  obtain ⟨s', hs', -, rfl⟩ := h'
  cases hs.symm.trans hs'
  rfl

/-- A choice with the number of a pending branch wraps one, or collides with it. -/
theorem wraps_or_collides {c : Course Script.State} {choice : Option Choice} :
    Wraps c choice ∨ Collides c choice ↔ ∃ b branches, choice.bind (·.branch) = some b ∧
      Pending c branches ∧ ∃ p ∈ branches, p.id = b.id := by
  constructor
  · rintro (⟨b, branches, hb, hpending, hmem⟩ | ⟨b, branches, hb, hpending, -, hp⟩)
    · exact ⟨b, branches, hb, hpending, b, hmem, rfl⟩
    · exact ⟨b, branches, hb, hpending, hp⟩
  · rintro ⟨b, branches, hb, hpending, hp⟩
    by_cases hmem : b ∈ branches
    · exact .inl ⟨b, branches, hb, hpending, hmem⟩
    · exact .inr ⟨b, branches, hb, hpending, hmem, hp⟩

theorem not_wraps_of_collides {c : Course Script.State} {choice : Option Choice}
    (h : Collides c choice) : ¬ Wraps c choice := by
  obtain ⟨b, branches, hb, hpending, hnot, -⟩ := h
  rintro ⟨b', branches', hb', hpending', hmem⟩
  cases hb.symm.trans hb'
  exact hnot (pending_unique hpending' hpending ▸ hmem)

theorem id_of_held {c : Course Script.State} (hcounted : c.Counted) {choice : Option Choice}
    (hheld : Held c.dealings choice) {b : Branch} (hbranch : choice.bind (·.branch) = some b) :
    ∃ n : Nat, b.id = .int n := by
  obtain ⟨events, branches, hevents, hbranches, hb⟩ := hheld b hbranch
  obtain ⟨n, hn⟩ := List.getElem?_of_mem hb
  exact ⟨n, hcounted.batches events hevents branches hbranches n b hn⟩

theorem yields_select {I L : Type} {ip : Interpreter I L} {react : Host H I} {fuel : Nat}
    {choice : Option Choice} {w w' : World H I} {a : Except Fault Answer} :
    Yields (exec ip react (fuel + 1) (.select (.given choice))) w a w' ↔
      ∃ r, Yields (select ip choice) w r w' ∧ a = r.map .outcome :=
  yields_bind_pure

/-- A refusal: an error, or, of a number too long to be told, the fault of telling it. -/
def RefusedAnswer (choice : Option Choice) (r : Except Fault Outcome) : Prop :=
  (∃ o, r = .ok o ∧ o.isError = true) ∨
    ∃ b, choice.bind (·.branch) = some b ∧ b.id.hasText = false ∧ r = .error (.accident .value)

theorem refusedAnswer_of_refused {choice : Option Choice} {b : Branch} {f : Fault}
    {r : Except Fault Outcome} (hbranch : choice.bind (·.branch) = some b)
    (hf : f.isA .dialogue = false → b.id.hasText = false ∧ f = .accident .value)
    (h : Refused f r) : RefusedAnswer choice r := by
  cases h with
  | outcome => exact .inl ⟨_, rfl, isError_ofClass⟩
  | fault hdialogue =>
      obtain ⟨htext, rfl⟩ := hf hdialogue
      exact .inr ⟨b, hbranch, htext, rfl⟩

/-- What an answer comes to, by the number of the branch: the branch of that number is
chosen if the interpreter waits and has one, and else all stays as it is. -/
theorem select_by_number (hcounted : w.course.Counted) {choice : Option Choice}
    (hheld : Held w.dealings choice) {r : Except Fault Outcome}
    (h : Yields (select Script.interpreter choice) w r w') :
    (r = .ok .ok ∧ ∃ b slot s p, choice.bind (·.branch) = some b ∧ w.course.Holds slot s ∧
      s.waiting = true ∧ p ∈ s.branches ∧ p.id = b.id ∧
      w'.course = w.course.setCore slot (s.answered p)) ∨
    (RefusedAnswer choice r ∧ w'.course = w.course ∧
      ∀ b branches, choice.bind (·.branch) = some b → Pending w.course branches →
        ∀ p ∈ branches, p.id ≠ b.id) := by
  rcases select_cases h with
      ⟨hnone, rfl, rfl⟩ | ⟨hbranch, rfl, rfl⟩ | ⟨hcurrent, hnone, -⟩ |
      ⟨slot, s, b, hcurrent, hcore, hbranch, hw', h⟩
  · refine .inr ⟨.inl ⟨_, rfl, rfl⟩, rfl, ?_⟩
    rintro b branches - ⟨s, hs, -⟩
    rw [Course.core?, show w'.course.current = none from hnone] at hs
    cases hs
  · refine .inr ⟨.inl ⟨_, rfl, rfl⟩, rfl, fun b _ hb => ?_⟩
    cases hbranch.symm.trans hb
  · obtain ⟨slot, hslot⟩ := Option.ne_none_iff_exists'.mp hcurrent
    have hlt := hcounted.held slot hslot
    rw [Course.core?, show w.course.current = some slot from hslot, Option.bind_some,
      List.getElem?_eq_getElem hlt] at hnone
    cases hnone
  · have hholds : w.course.Holds slot s := ⟨hcurrent, hcore⟩
    have hnumbered := hcounted.cores s (List.mem_of_getElem? hcore)
    obtain ⟨n, hid⟩ := id_of_held hcounted hheld hbranch
    have hselect : Script.interpreter.select b.id s = Script.select (.int n) s := by
      rw [hid]
      rfl
    rcases Script.select_int_cases hnumbered n with
        ⟨hwaiting, p, hp, hpid, hok⟩ | ⟨f, hf, hnone, htold⟩
    · rw [hselect, hok] at hw' h
      rcases h with ⟨-, rfl⟩ | ⟨f, hf, -⟩
      · exact .inl ⟨rfl, b, slot, s, p, hbranch, hholds, hwaiting, hp, hpid.trans hid.symm, hw'⟩
      · cases hf
    · rw [hselect, hf] at hw' h
      rw [Course.setCore_same hcore] at hw'
      rw [← hid] at hnone htold
      rcases h with ⟨hok, -⟩ | ⟨f', hf', hrefused⟩
      · cases hok
      · obtain rfl := Except.error.inj hf'
        refine .inr ⟨refusedAnswer_of_refused hbranch htold hrefused, hw', ?_⟩
        intro b' branches hb' hpending
        cases hbranch.symm.trans hb'
        obtain ⟨hwaiting, rfl⟩ := hpending.of_holds hholds
        exact hnone hwaiting

/-! ## The pump after an answer -/

/-- The interpreter in the slot has been answered: it waits no longer, and is to leave the
node for the destination, if there is one. -/
def Outstanding (c : Course Script.State) (slot : Nat) (node : Datum)
    (destination : Option Datum) : Prop :=
  ∃ s, c.Holds slot s ∧ s.waiting = false ∧ s.node = node ∧ s.destination = destination

theorem Outstanding.rests {c c' : Course Script.State} {slot : Nat}
    {node : Datum} {destination : Option Datum}
    (h : Outstanding c slot node destination) (hrests : c.Rests Script.interpreter c') :
    Outstanding c' slot node destination := by
  induction hrests with
  | rest => exact h
  | loads _ hloads ih =>
      obtain ⟨s, hholds, hwaiting, hnode, hdestination⟩ := ih
      obtain ⟨s', hs', hbare⟩ := Script.exists_of_bare hloads.bare.symm hholds.2
      have hcurrent := (hloads.frame (·.current) fun _ _ _ => rfl).trans hholds.1
      have hwaiting' : s'.bare.waiting = s.bare.waiting := congrArg (·.waiting) hbare
      have hnode' : s'.bare.node = s.bare.node := congrArg (·.node) hbare
      have hdestination' : s'.bare.destination = s.bare.destination :=
        congrArg (·.destination) hbare
      exact ⟨s', ⟨hcurrent, hs'⟩, hwaiting'.trans hwaiting, hnode'.trans hnode,
        hdestination'.trans hdestination⟩
  | unentered _ hcore hf ih =>
      rw [show (Script.interpreter.setNode _ _).2 = _ from Script.setNode_of_error hf,
        Course.setCore_same hcore]
      exact ih
  | @answered c' slot' s' id _ hcore ih =>
      obtain ⟨s, hholds, hwaiting, hsame⟩ := ih
      by_cases hslot : slot' = slot
      · subst hslot
        obtain rfl := Option.some.inj (hcore.symm.trans hholds.2)
        rw [show Script.interpreter.select id s' = _ from Script.select_of_not_waiting hwaiting id,
          Course.setCore_same hcore]
        exact ⟨s', hholds, hwaiting, hsame⟩
      · exact ⟨s, hholds.setCore_of_ne hslot, hwaiting, hsame⟩
  | released _ hnone ih =>
      obtain ⟨s, hholds, -⟩ := ih
      cases hnone.symm.trans hholds.1

theorem announces_of_pump {invoke : Invoke H Script.State} {slot fuel : Nat} {s : Script.State}
    {gathered events : List Event} (hcore : w.course.cores[slot]? = some s)
    (hentering : s.entering = true)
    (hgathered : ∀ e ∈ gathered, e.announces = true)
    (hpump : Yields (pump Script.interpreter invoke slot fuel (.running gathered)) w
      (.ok events) w') :
    ∃ ids rest, events = gathered ++ .nodeStarted s.node :: .hints ids :: rest := by
  cases fuel with
  | zero => exact (not_yields_endless hpump).elim
  | succ fuel =>
      rcases pump_cases hpump with ⟨hnone, -⟩ | ⟨s', m, s₁, w₁, hs', hadvance, -, hpump⟩
      · cases hnone.symm.trans hcore
      · obtain rfl := Option.some.inj (hcore.symm.trans hs')
        have hm : (Script.stepOn w.textOf s gathered).1 = m := congrArg Prod.fst hadvance
        obtain ⟨-, ⟨f, hf⟩ | ⟨node, announced, hannounce, hmoved⟩⟩ :=
          Script.moved_stepOn (s := s) w.textOf hgathered
        · rw [hf] at hm
          subst hm
          cases hpump.1
        · have hannounced := Script.announce_ok hannounce
          rw [if_pos hentering] at hannounced
          obtain ⟨ids, rfl⟩ := hannounced
          have hleads := hmoved.leads
          rw [hm] at hleads
          have hfirst := yielded_of_goesOn (yielded_of_pump (Script.leads_advance _)) hleads hpump
          obtain ⟨rest, rfl⟩ := hfirst.begins
          exact ⟨ids, rest, by simp⟩

/-- The first move of a pump with an answer outstanding: it fails, and forgets where it was
to go, or it leaves the node for the destination. -/
theorem pump_begin_cases {invoke : Invoke H Script.State} {slot fuel : Nat} {d : Datum}
    {s : Script.State} {r : Except Fault (List Event)} (hcore : w.course.cores[slot]? = some s)
    (hwaiting : s.waiting = false) (hdestination : s.destination = some d)
    (hpump : Yields (pump Script.interpreter invoke slot fuel .begin) w r w') :
    ((∃ f, r = .error f) ∧
      (s.node ≠ .nothing → w'.course = w.course.setCore slot { s with destination := none })) ∨
    ∃ fuel w₁, s.node ≠ .nothing ∧ s.hasNode d = .ok true ∧
      w₁.course = w.course.setCore slot
        { s with destination := none, node := d, position := 0, entering := true } ∧
      Yields (pump Script.interpreter invoke slot fuel (.running [.nodeCompleted s.node]))
        w₁ r w' := by
  cases fuel with
  | zero => exact (not_yields_endless hpump).elim
  | succ fuel =>
      rcases pump_cases hpump with ⟨hnone, -⟩ | ⟨s', m, s₁, w₁, hs', hadvance, hw₁, hpump⟩
      · cases hnone.symm.trans hcore
      · obtain rfl := Option.some.inj (hcore.symm.trans hs')
        cases hnode : s.node.isSomething with
        | false =>
            have hfails : Script.advance w.textOf .begin s =
                (.fail (.raised .noNodeSelected []), s) := by
              rw [Script.advance, if_neg (by simp [hwaiting]), if_pos (by simp [hnode])]
            cases hfails.symm.trans hadvance
            refine .inl ⟨⟨_, hpump.1⟩, fun h => absurd (Datum.isSomething_iff.mpr h) ?_⟩
            rw [hnode]
            exact Bool.false_ne_true
        | true =>
            rw [Script.advance_begin hwaiting hnode hdestination] at hadvance
            rcases Script.enter_cases { s with destination := none } d [] with
                ⟨f, hfails⟩ | ⟨hthere, henters⟩
            · cases hfails.symm.trans hadvance
              obtain ⟨rfl, rfl⟩ := hpump
              exact .inl ⟨⟨f, rfl⟩, fun _ => hw₁⟩
            · cases henters.symm.trans hadvance
              exact .inr ⟨fuel, w₁, Datum.isSomething_iff.mp hnode, hthere, hw₁, hpump⟩

/-- A pump with an answer outstanding that pauses: it has left the node and entered the
destination before anything else. -/
theorem enters_of_pump {invoke : Invoke H Script.State} {slot fuel : Nat} {d : Datum}
    {node : Datum} {events : List Event} (h : Outstanding w.course slot node (some d))
    (hpump : Yields (pump Script.interpreter invoke slot fuel .begin) w (.ok events) w') :
    node ≠ .nothing ∧ d.isKey = true ∧
      ∃ ids rest, events = .nodeCompleted node :: .nodeStarted d :: .hints ids :: rest := by
  obtain ⟨s, hholds, hwaiting, rfl, hdestination⟩ := h
  rcases pump_begin_cases hholds.2 hwaiting hdestination hpump with
      ⟨⟨f, hf⟩, -⟩ | ⟨fuel, w₁, hnode, hthere, hw₁, hpump⟩
  · cases hf
  · have hcore₁ := Course.cores_setCore (c := w.course)
      { s with destination := none, node := d, position := 0, entering := true } hholds.2
    rw [← hw₁] at hcore₁
    obtain ⟨ids, rest, rfl⟩ := announces_of_pump hcore₁ rfl (by simp [Event.announces]) hpump
    exact ⟨hnode, Script.isKey_of_hasNode hthere, ids, rest, rfl⟩

/-- What the next pump makes of an answer that was given at a node and leads to a
destination. -/
structure Onward (react : Host H Script.State) (slot : Nat) (node destination : Datum)
    (w : World H Script.State) : Prop where
  /-- a pump that succeeds leaves the node and enters the destination, before anything else -/
  enters : ∀ fuel o w', Yields (exec Script.interpreter react fuel .continue) w
      (.ok (.outcome o)) w' → o = .ok ∨ o = .complete →
    node ≠ .nothing ∧ destination.isKey = true ∧ ∃ ids rest t₁ t₂,
      w'.dealings = w.dealings ++ .pumping :: t₁ ++ .batch (.nodeCompleted node ::
        .nodeStarted destination :: .hints ids :: rest) :: t₂ ∧ (react.Passive → t₁ = [])
  /-- one that finds no such node fails, and forgets where it was to go -/
  forgets : ∀ fuel a w' s, Yields (exec Script.interpreter react fuel .continue) w a w' →
    w.running = true → node ≠ .nothing → w.course.Holds slot s →
    s.hasNode destination ≠ .ok true →
      a ≠ .ok (.outcome .ok) ∧ a ≠ .ok (.outcome .complete) ∧
      w'.course = w.course.cleared.setCore slot { s with destination := none }

theorem onward_of_outstanding {slot : Nat} {node : Datum} {d : Datum}
    (h : Outstanding w.course slot node (some d)) : Onward react slot node d w where
  enters fuel o w' hyields ho := by
    obtain ⟨fuel, rfl, hyields⟩ := yields_exec.mp hyields
    obtain ⟨r, hcontinue, hr⟩ := yields_bind_pure.mp hyields
    have hr : r = .ok o := by
      cases r <;> cases hr
      rfl
    subst hr
    have hinvoke : ∀ c, Keeps (OnCourse Follows)
        (callHost react (exec Script.interpreter react fuel) c) := callHost_follows fuel
    rcases continue_cases hcontinue with
        ⟨-, hr, -⟩ | ⟨-, -, ⟨f, hr⟩, -⟩ | ⟨-, slot', core, x, w₁, w₂, hslot', hcore, hw₁, hpump, hx⟩
    · cases hr
      obtain ho | ho := ho <;> cases ho
    · cases hr
    · rcases hx with ⟨f, rfl, hfaulted, -⟩ | ⟨events, y, rfl, hpassed, -⟩
      · rcases ho with rfl | rfl
        · exact absurd rfl (hfaulted.ne (by decide))
        · exact absurd rfl (hfaulted.ne (by decide))
      · obtain ⟨s, hholds, hsame⟩ := h
        cases hholds.1.symm.trans hslot'
        have h₁ : Outstanding w₁.course slot node (some d) := by
          rw [hw₁]
          exact ⟨s, hholds, hsame⟩
        obtain ⟨hnode, hkey, ids, rest, rfl⟩ := enters_of_pump h₁ hpump
        obtain ⟨t₁, ht₁, -⟩ := pump_keeps (follows_law _) hinvoke slot fuel trivial _ _ _ hpump
        obtain ⟨t₂, ht₂, -⟩ :=
          processAll_keeps_dealt (follows_law Script.interpreter) hinvoke hpassed
        refine ⟨hnode, hkey, ids, rest, t₁, t₂, ?_, fun hpassive => ?_⟩
        · show w'.course.dealings = w.course.dealings ++ _ ++ _
          rw [ht₂, Course.deal, ht₁, hw₁, Course.cleared, Course.deal]
          simp
        · have hcore₁ : w₁.course.cores[slot]? = some core := by
            rw [hw₁]
            exact hcore
          obtain ⟨core', -, hw₂⟩ := pump_aloof (callHost_passive hpassive fuel).keeps hcore₁ hpump
          have hsame : w₂.course.dealings = w₁.course.dealings := by
            rw [hw₂]
            rfl
          exact List.self_eq_append_right.mp (hsame.symm.trans ht₁)
  forgets fuel a w' s hyields hrunning hnode hholds hunknown := by
    obtain ⟨fuel, rfl, hyields⟩ := yields_exec.mp hyields
    obtain ⟨r, hcontinue, rfl⟩ := yields_bind_pure.mp hyields
    obtain ⟨s', hholds', hwaiting, rfl, hdestination⟩ := h
    obtain ⟨-, rfl⟩ := hholds.unique hholds'
    rcases continue_cases hcontinue with
        ⟨hidle, -⟩ | ⟨-, hnone, -⟩ | ⟨-, slot', core, x, w₁, w₂, hslot', hcore, hw₁, hpump, hx⟩
    · cases hrunning.symm.trans hidle
    · cases hnone.symm.trans hholds.core?
    · cases hholds.1.symm.trans hslot'
      have hcore₁ : w₁.course.cores[slot]? = some s := by
        rw [hw₁]
        exact hholds.2
      rcases pump_begin_cases hcore₁ hwaiting hdestination hpump with
          ⟨⟨f, rfl⟩, hforgets⟩ | ⟨_, _, -, hthere, -⟩
      · rcases hx with ⟨_, hf, hfaulted, hw'⟩ | ⟨_, _, hf, -⟩
        · cases hf
          refine ⟨hfaulted.answer_ne (by decide), hfaulted.answer_ne (by decide), ?_⟩
          rw [hw', hforgets hnode, hw₁]
        · cases hf
      · exact absurd hthere hunknown

/-! ## The law of answers -/

/-- Every answer has an end.  It is accepted exactly when the choice wraps a pending branch
or its number is that of one; so a choice that is not of the pending batch is told apart
from one that is exactly when its number is not.  A refused answer leaves all as it was.
An accepted one chooses the branch of that number, which for a branch of the pending batch
is itself; and as long as nothing else is dealt, the next pump goes where that leads. -/
theorem answer_goes_by_number {q : Callback → Except Fault Datum → Prop}
    (hreact : ∀ host c, (react host c).Abides (Request.Supplies fun s => s = {}) (q c))
    (h₀ : w₀.Fresh) (hfactory : ∀ s, w₀.factory = some s → s = {})
    (hrun : Run Script.interpreter react w₀ steps w)
    (hsteps : ∀ step ∈ steps, step.1.Supplies fun s => s = {}) {choice : Option Choice}
    (hheld : Held w.dealings choice) :
    ∃ r w', (∀ fuel, Yields (exec Script.interpreter react (fuel + 1) (.select (.given choice))) w
        (r.map .outcome) w') ∧
      (r = .ok .ok ↔ Wraps w.course choice ∨ Collides w.course choice) ∧
      ((r = .ok .ok ↔ Wraps w.course choice) ↔ ¬ Collides w.course choice) ∧
      (r ≠ .ok .ok → RefusedAnswer choice r ∧ w'.course = w.course) ∧
      (r = .ok .ok → ∃ b slot s p, choice.bind (·.branch) = some b ∧ w.course.Holds slot s ∧
        p ∈ s.branches ∧ p.id = b.id ∧ (b ∈ s.branches → p = b) ∧
        w'.course = w.course.setCore slot (s.answered p) ∧
        (p.destination.isSomething = true → ∀ steps' w₂,
          Run Script.interpreter react w' steps' w₂ → w₂.dealings = w'.dealings →
            Onward react slot s.node p.destination w₂)) := by
  have hcounted := Run.counted hreact h₀ hfactory hrun hsteps
  obtain ⟨r, w', hselect⟩ := select_ends Script.interpreter choice w
  have hyields : ∀ fuel, Yields (exec Script.interpreter react (fuel + 1)
      (.select (.given choice))) w (r.map .outcome) w' := fun fuel =>
    yields_select.mpr ⟨r, hselect, rfl⟩
  rcases select_by_number hcounted hheld hselect with
      ⟨rfl, b, slot, s, p, hb, hholds, hwaiting, hp, hid, hw'⟩ | ⟨hrefused, hw', hnone⟩
  · have hpending : Pending w.course s.branches := ⟨s, hholds.core?, hwaiting, rfl⟩
    have haccepted : Wraps w.course choice ∨ Collides w.course choice :=
      wraps_or_collides.mpr ⟨b, s.branches, hb, hpending, p, hp, hid⟩
    refine ⟨_, w', hyields, iff_of_true rfl haccepted, ?_, fun h => absurd rfl h, fun _ => ?_⟩
    · constructor
      · intro h hcollides
        exact not_wraps_of_collides hcollides (h.mp rfl)
      · intro hnot
        exact iff_of_true rfl (haccepted.resolve_right hnot)
    · have hnumbered := hcounted.cores s (List.mem_of_getElem? hholds.2)
      refine ⟨b, slot, s, p, hb, hholds, hp, hid, fun hmem => hnumbered.eq_of_id hmem hp hid, hw',
        fun hsomething steps' w₂ hrun' hdealings => onward_of_outstanding ?_⟩
      have houtstanding : Outstanding w'.course slot s.node (some p.destination) := by
        rw [hw']
        refine ⟨s.answered p, hholds.setCore _, rfl, rfl, ?_⟩
        rw [Script.State.answered, Option.filter_some_pos hsomething]
      exact houtstanding.rests (hrun'.rests hdealings)
  · have hnot : r ≠ .ok .ok := by
      rintro rfl
      rcases hrefused with ⟨_, ho, herror⟩ | ⟨_, -, -, hr⟩
      · cases ho
        cases herror
      · cases hr
    have hneither : ¬ (Wraps w.course choice ∨ Collides w.course choice) := by
      rw [wraps_or_collides]
      rintro ⟨b, branches, hb, hpending, p, hp, hid⟩
      exact hnone b branches hb hpending p hp hid
    obtain ⟨hwraps, hcollides⟩ := not_or.mp hneither
    exact ⟨r, w', hyields, iff_of_false hnot hneither,
      iff_of_true (iff_of_false hnot hwraps) hcollides, fun _ => ⟨hrefused, hw'⟩,
      fun h => absurd h hnot⟩

/-! ## A choice kept too long

Two nodes, each with one way on.  The choice of the first is still the host's when the
second is reached, and both have the number zero. -/

def passage : World Unit Script.State where
  host := ()
  factory := some {}
  programs := [.dict [
    (.text "Start", .dict [(.text "steps", .list [.tuple [.text "options", .list [
      .tuple [.text "a", .text "Go left", .text "Left", .bool true]]]])]),
    (.text "Left", .dict [(.text "steps", .list [.tuple [.text "options", .list [
      .tuple [.text "b", .text "Go up", .text "Up", .bool true]]]])]),
    (.text "Up", .dict [])]]

theorem fresh_passage : passage.Fresh := ⟨rfl, rfl, rfl, rfl⟩

/-- The one branch that the last of the dealings offers. -/
def lastOffered? : List Dealing → Option Branch
  | [.made, .entered, .pumping, .batch [.nodeStarted _, .hints _, .options [b]]] => some b
  | _ => none

theorem held_of_lastOffered {dealings : List Dealing} {b : Branch}
    (h : lastOffered? dealings = some b) : Held dealings (some { branch := some b }) := by
  unfold lastOffered? at h
  split at h
  · next node ids _ =>
    cases h
    intro b' hb'
    cases hb'
    exact ⟨[.nodeStarted node, .hints ids, .options [b]], [b], by simp, by simp, by simp⟩
  · cases h

/-- The one pending branch has the number of `b` and leads elsewhere. -/
def outdated (b : Branch)
    (p : List (Request Script.State × Except Fault Answer) × World Unit Script.State) : Bool :=
  match p.1, p.2.course.core? with
  | [(.select _, _), (.continue, _)], some s => s.waiting && match s.branches with
    | [p] => match b.id, b.destination, p.id, p.destination with
      | .int i, .text d, .int j, .text d' => i == j && d != d'
      | _, _, _, _ => false
    | _ => false
  | _, _ => false

/-- The choice that is offered is outdated once it was made and the dialogue went on. -/
def outlives (p : List (Request Script.State × Except Fault Answer) × World Unit Script.State) :
    Bool :=
  match p.1, lastOffered? p.2.dealings with
  | [(.setup none, _), (.start _, _)], some b =>
    (follow Script.interpreter quiet 9 [.select (.given (some { branch := some b })), .continue]
      p.2).any (outdated b)
  | _, _ => false

theorem pending_of_outdated {b : Branch}
    {p : List (Request Script.State × Except Fault Answer) × World Unit Script.State}
    (h : outdated b p = true) : (∀ step ∈ p.1, step.1.Supplies fun s => s = {}) ∧
      ∃ q, Pending p.2.course [q] ∧ b ≠ q ∧ q.id = b.id := by
  unfold outdated at h
  split at h
  · next s hpath hcore =>
      refine ⟨by simp [hpath, Request.Supplies], ?_⟩
      obtain ⟨hwaiting, hbranches⟩ := Bool.and_eq_true_iff.mp h
      split at hbranches
      · next q hq =>
          refine ⟨q, ⟨s, hcore, hwaiting, hq⟩, ?_⟩
          split at hbranches
          · next i d j d' hi hd hj hd' =>
              obtain ⟨hij, hne⟩ := Bool.and_eq_true_iff.mp hbranches
              constructor
              · rintro rfl
                rw [hd] at hd'
                cases hd'
                simp at hne
              · rw [hi, hj, eq_of_beq hij]
          · cases hbranches
      · cases hbranches
  · cases h

theorem passage_run : ∃ steps w b p,
    Run Script.interpreter quiet passage steps w ∧
      (∀ step ∈ steps, step.1.Supplies fun s => s = {}) ∧
      Held w.dealings (some { branch := some b }) ∧ Pending w.course [p] ∧ b ≠ p ∧ p.id = b.id := by
  have hfollow : (follow Script.interpreter quiet 9 [.setup none, .start (.text "Start")]
      passage).any outlives = true := by
    decide +kernel
  obtain ⟨steps₁, w₁, hrun₁, hw₁⟩ := run_of_follow_any hfollow
  unfold outlives at hw₁
  split at hw₁
  · next b hpath hoffered =>
      obtain rfl : steps₁ = _ := hpath
      obtain ⟨steps₂, w₂, hrun₂, hw₂⟩ := run_of_follow_any hw₁
      obtain ⟨hsteps₂, p, hpending, hne, hid⟩ := pending_of_outdated hw₂
      have hheld : Held w₂.dealings (some { branch := some b }) := by
        obtain ⟨t, ht, -⟩ := hrun₂.follows
        exact (held_of_lastOffered hoffered).append t ht
      exact ⟨_, w₂, b, p, hrun₁.append hrun₂,
        List.forall_mem_append.mpr ⟨by simp [Request.Supplies], hsteps₂⟩, hheld, hpending, hne, hid⟩
  · cases hw₁

theorem quiet_abides {p : Request Script.State → Prop} (host : H) (c : Callback) :
    ((quiet : Host H Script.State) host c).Abides p fun _ => True := trivial

theorem factory_passage : ∀ s, passage.factory = some s → s = {} := fun _ hs =>
  (Option.some.inj hs).symm

/-- The kept choice is accepted though no pending branch is its own. -/
theorem stale_choice_accepted : ∃ steps w choice w',
    passage.Fresh ∧ passage.factory = some {} ∧ Run Script.interpreter quiet passage steps w ∧
      (∀ step ∈ steps, step.1.Supplies fun s => s = {}) ∧ Held w.dealings choice ∧
      ¬ Wraps w.course choice ∧
      Yields (exec Script.interpreter quiet 1 (.select (.given choice))) w
        (.ok (.outcome .ok)) w' := by
  obtain ⟨steps, w, b, p, hrun, hsteps, hheld, hpending, hne, hid⟩ := passage_run
  have hcounted := Run.counted quiet_abides fresh_passage factory_passage hrun hsteps
  obtain ⟨r, w', hselect⟩ := select_ends Script.interpreter (some { branch := some b }) w
  have hwraps : ¬ Wraps w.course (some { branch := some b }) := by
    rintro ⟨b', branches, hb', hpending', hmem⟩
    cases hb'
    cases pending_unique hpending' hpending
    exact hne (List.mem_singleton.mp hmem)
  refine ⟨steps, w, _, w', fresh_passage, rfl, hrun, hsteps, hheld, hwraps, ?_⟩
  rcases select_by_number hcounted hheld hselect with ⟨rfl, -⟩ | ⟨-, -, hnone⟩
  · exact yields_select.mpr ⟨_, hselect, rfl⟩
  · exact absurd hid (hnone b [p] rfl hpending p List.mem_cons_self)

theorem answer_goes_by_number_at_passage : ∃ steps w choice w',
    (∀ host c, ((quiet : Host Unit Script.State) host c).Abides
        (Request.Supplies fun s => s = {}) fun _ => True) ∧
      passage.Fresh ∧ (∀ s, passage.factory = some s → s = {}) ∧
      Run Script.interpreter quiet passage steps w ∧
      (∀ step ∈ steps, step.1.Supplies fun s => s = {}) ∧ Held w.dealings choice ∧
      Yields (exec Script.interpreter quiet 1 (.select (.given choice))) w
        (.ok (.outcome .ok)) w' ∧
      Collides w.course choice ∧ ¬ Wraps w.course choice := by
  obtain ⟨steps, w, b, p, hrun, hsteps, hheld, hpending, hne, hid⟩ := passage_run
  obtain ⟨r, w', hyields, haccepted, hlaw, -⟩ :=
    answer_goes_by_number quiet_abides fresh_passage factory_passage hrun hsteps hheld
  have hcollides : Collides w.course (some { branch := some b }) :=
    ⟨b, [p], rfl, hpending, by simpa using hne, p, List.mem_cons_self, hid⟩
  obtain rfl := haccepted.mpr (.inr hcollides)
  refine ⟨steps, w, _, w', quiet_abides, fresh_passage, factory_passage, hrun, hsteps, hheld,
    hyields 0, hcollides, fun hwraps => ?_⟩
  exact hlaw.mp (iff_of_true rfl hwraps) hcollides

end Session

end Parley
