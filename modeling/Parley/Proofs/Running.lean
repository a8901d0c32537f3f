import Parley.Proofs.Settling
import Parley.Proofs.Turn

/-!
# When a dialogue runs

With a passive host the flag for a running dialogue follows the interpreter.
`Changes` says how one request changes it, by what was dealt in it: a node entered
raises the flag, a new interpreter lowers it, and so does a batch with a completion
or a `stop`, which is settled in the same request.  A fault may cut a batch short;
then only what was passed on counts.

There is no assumption on the interpreter.  Its pumps and its `stop` return any
batches, and every call on it may fail in any way.
-/

namespace Parley

namespace Session

open Act

variable {H I L : Type}

/-! ## What a request asks for -/

/-- A start, while no dialogue runs, at a node that the interpreter accepts. -/
def Enters (ip : Interpreter I L) (c : Course I) (r : Request I) : Prop :=
  ∃ node slot core, r = .start node ∧ c.running = false ∧ c.Holds slot core ∧
    (ip.setNode node core).1 = .ok ()

/-- A setup for which there is something to make an interpreter from. -/
def Makes (c : Course I) (r : Request I) : Prop :=
  ∃ factory, r = .setup factory ∧ factory.or c.factory ≠ none

/-- A `stop`, or a cleanup with an interpreter to let go of. -/
def Stops (c : Course I) (r : Request I) : Prop :=
  r = .stop ∨ r = .cleanup ∧ c.current ≠ none

/-- What a request has done to the flag, `t` being what was dealt in it. -/
structure Changes (ip : Interpreter I L) (c : Course I) (r : Request I)
    (a : Except Fault Answer) (t : List Dealing) (running : Bool) : Prop where
  /-- The flag is up if it was or a node was entered, and nothing lowered it. -/
  flag : running = true ↔
    (c.running = true ∨ .entered ∈ t) ∧ .made ∉ t ∧ ∀ k, .settled k ∉ t
  entered : .entered ∈ t ↔ Enters ip c r
  made : .made ∈ t ↔ Makes c r
  stopping : .stopping ∈ t ↔ Stops c r
  /-- What is settled has a reason in this request. -/
  settled : (∃ k, .settled k ∈ t) → ∃ d ∈ t, d.ends = true
  /-- Without a fault every such reason is settled. -/
  ended : (∀ f, a ≠ .error f) → (∃ d ∈ t, d.ends = true) → ∃ k, .settled k ∈ t
  /-- A start is refused exactly while a dialogue runs. -/
  started : ∀ node, r = .start node →
    (a = .ok (.outcome .alreadyRunning) ↔ c.running = true)
  /-- Going on is refused exactly while none runs. -/
  continued : r = .continue → (a = .ok (.outcome .notRunning) ↔ c.running = false)
  /-- A batch that was passed on as a whole is answered by whether the dialogue still runs. -/
  pumped : r = .continue ∨ (∃ node, r = .start node) → ∀ events, .batch events ∈ t →
    (∀ f, a ≠ .error f) → a = .ok (.outcome (if running then .ok else .complete))

variable {ip : Interpreter I L} {c c' : Course I}

theorem not_enters_of_running {r : Request I} (hrunning : c.running = true) :
    ¬ Enters ip c r := by
  rintro ⟨_, _, _, -, hidle, -⟩
  cases hrunning.symm.trans hidle

theorem not_enters_of_ne_start {r : Request I} (hr : ∀ node, r ≠ .start node) :
    ¬ Enters ip c r := by
  rintro ⟨node, _, _, hstart, -⟩
  exact hr node hstart

/-! ## Batches -/

/-- The completions that were passed on are settled, and they lower the flag. -/
theorem passed_changes {place : Nat} {events : List Event} {r : Except Fault Unit}
    (h : (c.deal (.batch events)).Passed place events r c') :
    ∃ t, c'.dealings = c.dealings ++ .batch events :: t ∧ (∀ d ∈ t, d = .settled place) ∧
      (c'.running = true ↔ c.running = true ∧ t = []) ∧
      (t ≠ [] → (Dealing.batch events).ends = true) ∧
      (r = .ok () → (Dealing.batch events).ends = true → t ≠ []) := by
  have hfold : ∀ (events : List Event) (c : Course I), ∃ t,
      (events.foldl (Course.pass place) c).dealings = c.dealings ++ t ∧
        (∀ d ∈ t, d = .settled place) ∧
        ((events.foldl (Course.pass place) c).running = true ↔ c.running = true ∧ t = []) ∧
        (t ≠ [] ↔ events.any Event.completes = true) := by
    intro events
    induction events with
    | nil => exact fun c => ⟨[], by simp⟩
    | cons e events ih =>
        intro c
        obtain ⟨t, hdealings, ht, hrunning, hany⟩ := ih (c.pass place e)
        cases e with
        | completed =>
            refine ⟨.settled place :: t, ?_, ?_, ?_, ?_⟩
            · exact hdealings.trans (List.append_assoc c.dealings [_] t)
            · exact List.forall_mem_cons.mpr ⟨rfl, ht⟩
            · rw [List.foldl_cons, hrunning]
              simp [Course.pass, Course.flag]
            · simp [Event.completes]
        | _ => exact ⟨t, hdealings, ht, hrunning, hany⟩
  cases h with
  | whole =>
      obtain ⟨t, hdealings, ht, hrunning, hany⟩ := hfold events (c.deal (.batch events))
      refine ⟨t, ?_, ht, hrunning, hany.mp, fun _ => hany.mpr⟩
      exact hdealings.trans (List.append_assoc c.dealings [_] t)
  | cut before after =>
      obtain ⟨t, hdealings, ht, hrunning, hany⟩ := hfold before (c.deal _)
      refine ⟨t, ?_, ht, hrunning, fun hne => ?_, by simp⟩
      · exact hdealings.trans (List.append_assoc c.dealings [_] t)
      · rw [Dealing.ends, List.any_append, hany.mp hne]
        rfl

theorem pumped_changes {slot : Nat} {core : I} {r : Except Fault Outcome}
    (h : Pumped ip slot core c r c') :
    (c'.dealings = c.dealings ∧ c'.running = c.running ∧ ∃ f, Faulted f r) ∨
    ∃ events t, c'.dealings = c.dealings ++ .batch events :: t ∧
      (∀ d ∈ t, d = .settled c.dealings.length) ∧
      (c'.running = true ↔ c.running = true ∧ t = []) ∧
      (t ≠ [] → (Dealing.batch events).ends = true) ∧
      ((∃ f, r = .error f) ∨ r = .ok (if c'.running then .ok else .complete) ∧
        ((Dealing.batch events).ends = true → t ≠ [])) := by
  cases h with
  | failed _ hfaulted => exact .inl ⟨rfl, rfl, _, hfaulted⟩
  | @passed events core' y _ _ hpassed =>
      obtain ⟨t, hdealings, ht, hrunning, hends, hwhole⟩ := passed_changes hpassed
      refine .inr ⟨events, t, hdealings, ht, hrunning, hends, ?_⟩
      cases y with
      | error f => exact .inl ⟨f, rfl⟩
      | ok _ => exact .inr ⟨rfl, hwhole rfl⟩

theorem map_outcome_eq_ok {r : Except Fault Outcome} {o : Outcome} :
    r.map Answer.outcome = .ok (.outcome o) ↔ r = .ok o := by
  cases r <;> simp [Except.map]

theorem Faulted.answer_ne {f : Fault} {r : Except Fault Outcome} (h : Faulted f r) {o : Outcome}
    (ho : o ∉ Outcome.ofFaults) : r.map Answer.outcome ≠ .ok (.outcome o) := by
  rw [ne_eq, map_outcome_eq_ok]
  exact h.ne ho

/-! ## Turns -/

theorem changes_nil {r : Request I} {a : Except Fault Answer} (hentered : ¬ Enters ip c r)
    (hmade : ¬ Makes c r) (hstops : ¬ Stops c r)
    (hstarted : ∀ node, r = .start node →
      (a = .ok (.outcome .alreadyRunning) ↔ c.running = true))
    (hcontinued : r = .continue → (a = .ok (.outcome .notRunning) ↔ c.running = false)) :
    Changes ip c r a [] c.running where
  flag := by simp
  entered := by simp [hentered]
  made := by simp [hmade]
  stopping := by simp [hstops]
  settled := by simp
  ended := by simp
  started := hstarted
  continued := hcontinued
  pumped := by simp

/-- A start that entered its node, or a request to go on, up to the pump; `before` is what
was dealt in it. -/
structure Begun (ip : Interpreter I L) (c : Course I) (r : Request I) (before : List Dealing) :
    Prop where
  dealt : ∀ d ∈ before, d = .entered ∨ d = .pumping
  raised : c.running = true ∨ .entered ∈ before
  entered : .entered ∈ before ↔ Enters ip c r
  made : ¬ Makes c r
  stopping : ¬ Stops c r
  started : ∀ node, r = .start node → c.running = false
  continued : r = .continue → c.running = true

namespace Begun

variable {r : Request I} {before : List Dealing} {x : Except Fault Outcome}

theorem not_mem (h : Begun ip c r before) {d : Dealing} (hentered : d ≠ .entered)
    (hpumping : d ≠ .pumping) : d ∉ before := by
  intro hd
  rcases h.dealt d hd with rfl | rfl
  · exact hentered rfl
  · exact hpumping rfl

theorem ends (h : Begun ip c r before) {d : Dealing} (hd : d ∈ before) : d.ends = false := by
  rcases h.dealt d hd with rfl | rfl
  · rfl
  · rfl

theorem alreadyRunning_iff (h : Begun ip c r before) (hx : x ≠ .ok .alreadyRunning) :
    ∀ node, r = .start node →
      (x.map Answer.outcome = .ok (.outcome .alreadyRunning) ↔ c.running = true) := by
  intro node hr
  rw [map_outcome_eq_ok, h.started node hr]
  simp [hx]

theorem notRunning_iff (h : Begun ip c r before) (hx : x ≠ .ok .notRunning) :
    r = .continue → (x.map Answer.outcome = .ok (.outcome .notRunning) ↔ c.running = false) := by
  intro hr
  rw [map_outcome_eq_ok, h.continued hr]
  simp [hx]

theorem failed {f : Fault} (h : Begun ip c r before) (hfaulted : Faulted f x) :
    Changes ip c r (x.map Answer.outcome) before true where
  flag := by simp [h.raised, h.not_mem]
  entered := h.entered
  made := by simp [h.made, h.not_mem]
  stopping := by simp [h.stopping, h.not_mem]
  settled := by simp [h.not_mem]
  ended := by
    rintro - ⟨d, hd, hends⟩
    rw [h.ends hd] at hends
    cases hends
  started := h.alreadyRunning_iff (hfaulted.ne (by decide))
  continued := h.notRunning_iff (hfaulted.ne (by decide))
  pumped := by
    intro _ events hmem
    exact absurd hmem (h.not_mem (by simp) (by simp))

/-- The batch of the pump is passed on, at some place, and `t` settles what was passed. -/
theorem passed {place : Nat} {events : List Event} {t : List Dealing} {running : Bool}
    (h : Begun ip c r before) (ht : ∀ d ∈ t, d = .settled place)
    (hrunning : running = true ↔ t = []) (hends : t ≠ [] → (Dealing.batch events).ends = true)
    (hanswer : (∃ f, x = .error f) ∨ x = .ok (if running then .ok else .complete) ∧
      ((Dealing.batch events).ends = true → t ≠ [])) :
    Changes ip c r (x.map Answer.outcome) (before ++ .batch events :: t) running := by
  have hnot : ∀ d : Dealing, d ≠ .settled place → d ∉ t := by
    intro d hd hmem
    exact hd (ht d hmem)
  have hsettled : (∃ k, .settled k ∈ before ++ .batch events :: t) ↔ t ≠ [] := by
    constructor
    · rintro ⟨k, hk⟩ rfl
      simp [h.not_mem] at hk
    · intro hne
      obtain ⟨d, hd⟩ := List.exists_mem_of_ne_nil t hne
      exact ⟨place, by simp [← ht d hd, hd]⟩
  have hx : ∀ o, o ≠ .ok → o ≠ .complete → x ≠ .ok o := by
    rintro o hok hcomplete rfl
    rcases hanswer with ⟨f, hf⟩ | ⟨hx, -⟩
    · cases hf
    · cases Except.ok.inj hx
      split at hok
      · exact hok rfl
      · next h => exact hcomplete (if_neg h)
  exact {
    flag := by
      rw [hrunning, ← not_exists, hsettled]
      simp [h.raised, h.not_mem, hnot]
    entered := by simp [h.entered, hnot]
    made := by simp [h.made, h.not_mem, hnot]
    stopping := by simp [h.stopping, h.not_mem, hnot]
    settled := by
      intro hmem
      exact ⟨.batch events, by simp, hends (hsettled.mp hmem)⟩
    ended := by
      rintro hfault ⟨d, hd, hd'⟩
      rw [hsettled]
      rcases hanswer with ⟨f, rfl⟩ | ⟨-, hwhole⟩
      · exact absurd rfl (hfault f)
      · rcases List.mem_append.mp hd with hd | hd
        · rw [h.ends hd] at hd'
          cases hd'
        · rcases List.mem_cons.mp hd with rfl | hd
          · exact hwhole hd'
          · exact List.ne_nil_of_mem hd
    started := h.alreadyRunning_iff (hx _ (by simp) (by simp))
    continued := h.notRunning_iff (hx _ (by simp) (by simp))
    pumped := by
      intro _ events' _ hfault
      rcases hanswer with ⟨f, rfl⟩ | ⟨rfl, -⟩
      · exact absurd rfl (hfault f)
      · rfl }

end Begun

theorem changes_of_pumped {r : Request I} {before : List Dealing} {slot : Nat} {core : I}
    {c₁ : Course I} {x : Except Fault Outcome} (h : Pumped ip slot core c₁ x c')
    (hbegun : Begun ip c r before) (hdealings : c₁.dealings = c.dealings ++ before)
    (hrunning : c₁.running = true) :
    ∃ t, c'.dealings = c.dealings ++ t ∧ Changes ip c r (x.map Answer.outcome) t c'.running := by
  rcases pumped_changes h with ⟨hd, hr, f, hfaulted⟩ | ⟨events, t, hd, ht, hr, hends, hanswer⟩
  · refine ⟨before, hd.trans hdealings, ?_⟩
    rw [hr, hrunning]
    exact hbegun.failed hfaulted
  · refine ⟨before ++ .batch events :: t, ?_, ?_⟩
    · rw [hd, hdealings, List.append_assoc]
    · exact hbegun.passed ht (by rw [hr]; simp [hrunning]) hends hanswer

theorem changes_of_stops {r : Request I} {a : Except Fault Answer} {t : List Dealing}
    {running : Bool} (hstops : Stops c r) (ht : ∀ d ∈ t, d ≠ .entered ∧ d ≠ .made)
    (hflag : running = true ↔ c.running = true ∧ ∀ k, .settled k ∉ t)
    (hended : (∀ f, a ≠ .error f) → ∃ k, .settled k ∈ t) :
    Changes ip c r a (.stopping :: t) running := by
  have hentered : .entered ∉ t := fun h => (ht _ h).1 rfl
  have hmade : .made ∉ t := fun h => (ht _ h).2 rfl
  have hr : r = .stop ∨ r = .cleanup := hstops.imp_right And.left
  exact {
    flag := by simp [hflag, hentered, hmade]
    entered := by
      refine iff_of_false (by simp [hentered]) (not_enters_of_ne_start ?_)
      rintro node rfl
      simp at hr
    made := by
      refine iff_of_false (by simp [hmade]) ?_
      rintro ⟨factory, rfl, -⟩
      simp at hr
    stopping := by simp [hstops]
    settled := fun _ => ⟨.stopping, by simp, rfl⟩
    ended := fun hfault _ => by
      obtain ⟨k, hk⟩ := hended hfault
      exact ⟨k, by simp [hk]⟩
    started := by
      rintro node rfl
      simp at hr
    continued := by
      rintro rfl
      simp at hr
    pumped := by
      rintro (rfl | ⟨node, rfl⟩) <;> simp at hr }

theorem changes_of_stopped {r : Request I} {a : Except Fault Answer} {x : Except Fault Outcome}
    (h : Stopped ip c x c') (hstops : Stops c r) (ha : ∀ f, x = .error f → ∃ f, a = .error f) :
    ∃ t, c'.dealings = c.dealings ++ t ∧ Changes ip c r a t c'.running := by
  have herror : ∀ {f : Fault} {t : List Dealing}, x = .error f → (∀ f, a ≠ .error f) →
      ∃ k, .settled k ∈ t := by
    intro f t hx hfault
    obtain ⟨f, hf⟩ := ha f hx
    exact absurd hf (hfault f)
  cases h with
  | bare =>
      refine ⟨[.stopping, .settled c.dealings.length], by simp [Course.flag, Course.deal], ?_⟩
      exact changes_of_stops hstops (by simp) (by simp [Course.flag]) fun _ =>
        ⟨c.dealings.length, by simp⟩
  | failed =>
      refine ⟨[.stopping], rfl, ?_⟩
      exact changes_of_stops hstops (by simp) (by simp [Course.setCore, Course.deal]) (herror rfl)
  | @cut _ _ events _ _ _ _ hpassed =>
      obtain ⟨t, hdealings, ht, hrunning, -, -⟩ := passed_changes hpassed
      refine ⟨.stopping :: .batch events :: t, ?_, changes_of_stops hstops ?_ ?_ (herror rfl)⟩
      · exact hdealings.trans (List.append_assoc c.dealings [_] _)
      · exact List.forall_mem_cons.mpr ⟨by simp, fun d hd => by simp [ht d hd]⟩
      · rw [hrunning]
        refine and_congr_right fun _ => ⟨fun hnil => by simp [hnil], fun hnone => ?_⟩
        refine List.eq_nil_iff_forall_not_mem.mpr ?_
        intro d hd
        rw [ht d hd] at hd
        exact hnone _ (List.mem_cons_of_mem _ hd)
  | @whole _ _ events c' _ _ hpassed =>
      obtain ⟨t, hdealings, ht, -, -, -⟩ := passed_changes hpassed
      refine ⟨.stopping :: .batch events :: (t ++ [.settled c.dealings.length]), ?_,
        changes_of_stops hstops ?_ ?_ fun _ => ⟨c.dealings.length, by simp⟩⟩
      · rw [Course.flag, Course.deal, hdealings]
        simp [Course.setCore, Course.deal]
      · refine List.forall_mem_cons.mpr ⟨by simp, fun d hd => ?_⟩
        rcases List.mem_append.mp hd with hd | hd
        · simp [ht d hd]
        · simp [List.mem_singleton.mp hd]
      · refine iff_of_false (by simp [Course.flag]) ?_
        rintro ⟨-, hnone⟩
        exact hnone c.dealings.length (by simp)

theorem changes_of_still {r : Request I} {a : Except Fault Answer}
    (hdealings : c'.dealings = c.dealings) (hrunning : c'.running = c.running)
    (hr : (∀ node, r ≠ .start node) ∧ r ≠ .continue ∧ ¬ Makes c r ∧ ¬ Stops c r) :
    ∃ t, c'.dealings = c.dealings ++ t ∧ Changes ip c r a t c'.running := by
  obtain ⟨hstart, hcontinue, hmakes, hstops⟩ := hr
  refine ⟨[], by simp [hdealings], ?_⟩
  rw [hrunning]
  refine changes_nil (not_enters_of_ne_start hstart) hmakes hstops ?_ ?_
  · intro node hr
    exact absurd hr (hstart node)
  · intro hr
    exact absurd hr hcontinue

theorem changes_of_made {factory : Option I} {core : I} {a : Except Fault Answer}
    (hcore : factory.or c.factory = some core) (h : (c.made core).Loads ip c') :
    ∃ t, c'.dealings = c.dealings ++ t ∧ Changes ip c (.setup factory) a t c'.running := by
  refine ⟨[.made], h.frame (·.dealings) fun _ _ _ => rfl, ?_⟩
  rw [show c'.running = false from h.frame (·.running) fun _ _ _ => rfl]
  exact {
    flag := by simp
    entered := iff_of_false (by simp) (not_enters_of_ne_start (by simp))
    made := iff_of_true (by simp) ⟨factory, rfl, by simp [hcore]⟩
    stopping := by simp [Stops]
    settled := by simp
    ended := by simp [Dealing.ends]
    started := by simp
    continued := by simp
    pumped := by simp }

theorem Turn.changes {r : Request I} {a : Except Fault Answer} (h : Turn ip c r a c') :
    ∃ t, c'.dealings = c.dealings ++ t ∧ Changes ip c r a t c'.running := by
  cases h with
  | @refused node hrunning =>
      refine ⟨[], by simp, changes_nil (not_enters_of_running hrunning) (by simp [Makes])
        (by simp [Stops]) ?_ (by simp)⟩
      exact fun _ _ => iff_of_true rfl hrunning
  | @unconfigured node hrunning hcurrent =>
      refine ⟨[], by simp, changes_nil ?_ (by simp [Makes]) (by simp [Stops]) ?_ (by simp)⟩
      · rintro ⟨_, _, _, -, -, hholds, -⟩
        cases hcurrent.symm.trans hholds.1
      · exact fun _ _ => by simp [hrunning]
  | @unentered node slot core f r hrunning hholds hf hfaulted =>
      refine ⟨[], by simp [Course.setCore],
        changes_nil ?_ (by simp [Makes]) (by simp [Stops]) ?_ (by simp)⟩
      · rintro ⟨_, _, _, hr, -, hholds', hok⟩
        cases hr
        obtain ⟨rfl, rfl⟩ := hholds.unique hholds'
        rw [hf] at hok
        cases hok
      · intro _ _
        exact iff_of_false (hfaulted.answer_ne (by decide)) (by simp [hrunning])
  | @entered node slot core r c' hrunning hholds hok hpumped =>
      refine changes_of_pumped hpumped ?_ (List.append_assoc ..) rfl
      exact {
        dealt := by simp
        raised := by simp
        entered := iff_of_true (by simp) ⟨node, slot, core, rfl, hrunning, hholds, hok⟩
        made := by simp [Makes]
        stopping := by simp [Stops]
        started := fun _ _ => hrunning
        continued := by simp }
  | pumped hrunning hholds hpumped =>
      refine changes_of_pumped hpumped ?_ rfl hrunning
      exact {
        dealt := by simp
        raised := .inl hrunning
        entered := iff_of_false (by simp) (not_enters_of_ne_start (by simp))
        made := by simp [Makes]
        stopping := by simp [Stops]
        started := by simp
        continued := fun _ => hrunning }
  | idle hrunning =>
      refine ⟨[], by simp, changes_nil (not_enters_of_ne_start (by simp)) (by simp [Makes])
        (by simp [Stops]) (by simp) ?_⟩
      exact fun _ => iff_of_true rfl hrunning
  | unpicked => exact changes_of_still rfl rfl (by simp [Makes, Stops])
  | answered h =>
      cases h with
      | unconfigured | empty => exact changes_of_still rfl rfl (by simp [Makes, Stops])
      | taken | refused => exact changes_of_still rfl rfl (by simp [Makes, Stops])
  | stopped h =>
      refine changes_of_stopped h (.inl rfl) ?_
      rintro f rfl
      exact ⟨f, rfl⟩
  | let_go hnone => exact changes_of_still rfl rfl (by simp [Makes, Stops, hnone])
  | kept hheld h => exact changes_of_stopped h (.inr ⟨rfl, hheld⟩) fun _ _ => ⟨_, rfl⟩
  | @cleaned slot c' hcurrent h =>
      have hheld : c.current ≠ none := by simp [hcurrent]
      have hchanges := changes_of_stopped (a := .ok .done) h (.inr ⟨rfl, hheld⟩) fun _ hf => by
        cases hf
      exact hchanges
  | @unmade factory hnone =>
      refine changes_of_still rfl rfl ⟨by simp, by simp, ?_, by simp [Stops]⟩
      rintro ⟨_, hr, hsome⟩
      cases hr
      exact hsome hnone
  | made hcore h => exact changes_of_made hcore h
  | built h | unloaded h =>
      exact changes_of_still (h.frame (·.dealings) fun _ _ _ => rfl)
        (h.frame (·.running) fun _ _ _ => rfl) (by simp [Makes, Stops])
  | aside hr =>
      refine changes_of_still rfl rfl ⟨?_, ?_, ?_, ?_⟩
      · rintro _ rfl
        cases hr
      · rintro rfl
        cases hr
      · rintro ⟨_, rfl, -⟩
        cases hr
      · rintro (rfl | ⟨rfl, -⟩) <;> cases hr

/-! ## Runs -/

theorem start_refused {react : Host H I} {w : World H I} (hrunning : w.running = true)
    (fuel : Nat) (node : Datum) :
    Yields (exec ip react (fuel + 1) (.start node)) w (.ok (.outcome .alreadyRunning))
      { w with journal := w.journal ++ [.log (.startRefused node)] } := by
  refine yields_exec.mpr ⟨fuel, rfl, yields_bind_pure.mpr ⟨.ok .alreadyRunning, ?_, rfl⟩⟩
  unfold start
  refine yields_get_bind.mpr ?_
  rw [if_pos hrunning]
  rfl

theorem continue_refused {react : Host H I} {w : World H I} (hrunning : w.running = false)
    (fuel : Nat) :
    Yields (exec ip react (fuel + 1) .continue) w (.ok (.outcome .notRunning)) w := by
  refine yields_exec.mpr ⟨fuel, rfl, yields_bind_pure.mpr ⟨.ok .notRunning, ?_, rfl⟩⟩
  unfold continueDialogue
  refine yields_get_bind.mpr ?_
  rw [if_pos (by simp [hrunning])]
  rfl

/-- Along every run with a passive host the runner is the automaton of its interpreter, and
each request changes the flag for a running dialogue as `Changes` says. -/
theorem running_along_run {react : Host H I} (hreact : react.Passive) {w₀ w : World H I}
    {steps : List (Request I × Except Fault Answer)} (h₀ : w₀.Fresh)
    (hrun : Run ip react w₀ steps w) :
    (∀ fuel node, w.running = true →
      Yields (exec ip react (fuel + 1) (.start node)) w (.ok (.outcome .alreadyRunning))
        { w with journal := w.journal ++ [.log (.startRefused node)] }) ∧
    (∀ fuel, w.running = false →
      Yields (exec ip react (fuel + 1) .continue) w (.ok (.outcome .notRunning)) w) ∧
    ∀ fuel r a w', Yields (exec ip react fuel r) w a w' →
      Turn ip w.course r a w'.course ∧
      ∃ t, w'.dealings = w.dealings ++ t ∧ Changes ip w.course r a t w'.running := by
  refine ⟨fun fuel node h => start_refused h fuel node, fun fuel h => continue_refused h fuel, ?_⟩
  intro fuel r a w' h
  have hturn := exec_turn hreact (hrun.sound hreact h₀) h
  exact ⟨hturn, hturn.changes⟩

/-- A host that does nothing. -/
def quiet : Host H I := fun host _ => .finish host (.ok .nothing)

theorem quiet_passive : (quiet : Host H I).Passive := fun _ _ _ => ⟨.nothing, rfl⟩

/-- A dialogue runs, and going on completes it. -/
def aboutToEnd (w : World Bool Script.State) : Bool :=
  w.running && ((exec Script.interpreter quiet 9 .continue).run.run w).any completes
where
  completes : Except Fault Answer × World Bool Script.State → Bool
    | (.ok (.outcome .complete), w) => !w.running
    | _ => false

/-- A dialogue of one line: it runs after the start, refuses another, and is over when it
goes on. -/
theorem running_along_run_of_line : ∃ steps w,
    (quiet : Host Bool Script.State).Passive ∧ twoNodes.Fresh ∧
      Run Script.interpreter quiet twoNodes steps w ∧ w.running = true ∧
      Yields (exec Script.interpreter quiet 1 (.start .nothing)) w
        (.ok (.outcome .alreadyRunning))
        { w with journal := w.journal ++ [.log (.startRefused .nothing)] } ∧
      ∃ (w' : World Bool Script.State) (t : List Dealing),
        Yields (exec Script.interpreter quiet 9 .continue) w (.ok (.outcome .complete)) w' ∧
        w'.running = false ∧ w'.dealings = w.dealings ++ t ∧
        Changes Script.interpreter w.course .continue (.ok (.outcome .complete)) t w'.running := by
  have hfollow : (follow Script.interpreter quiet 9 [.setup none, .start (.text "Next")]
      twoNodes).any (fun p => aboutToEnd p.2) = true := by
    decide +kernel
  obtain ⟨steps, w, hrun, hw⟩ := run_of_follow_any hfollow
  obtain ⟨hrunning, hcontinue⟩ := Bool.and_eq_true_iff.mp hw
  obtain ⟨⟨a, w'⟩, hyields, ha⟩ := (Option.any_eq_true _ _).mp hcontinue
  obtain ⟨hstart, -, hturn⟩ := running_along_run quiet_passive fresh_twoNodes hrun
  obtain ⟨-, t, ht, hchanges⟩ := hturn 9 .continue a w' hyields
  unfold aboutToEnd.completes at ha
  split at ha
  · next w₁ hq =>
      cases hq
      exact ⟨steps, w, quiet_passive, fresh_twoNodes, hrun, hrunning, hstart 0 .nothing hrunning,
        w', t, hyields, by simpa using ha, ht, hchanges⟩
  · cases ha

end Session

end Parley
