import Parley.Interpreter.Script
import Parley.Proofs.Law
import Mathlib.Data.List.Basic
import Mathlib.Data.List.Induction

/-!
# Which run a completion ends

Callbacks may stop the runner, start it again and go on from there, to any depth.
The dealings say what the flag for a running dialogue then is: an entered node
raises it, a new interpreter lowers it, and so does a completion or a `stop` that
the runner is done with.

The last is written late.  A completion is settled after the sink was told of it,
and a `stop` after its batch was passed on, and by then a callback may have started
another dialogue.  What can be said of any host is this: `Course.Follows` is kept by
every operation, so the flag is what the dealings come to, and nothing is settled
but a completion or a `stop` that stands earlier among them.  It does not say that
the one settled belongs to the dialogue that runs.
-/

namespace Parley

namespace Dealing

/-- Whether a dialogue runs after the dealing. -/
def flag (running : Bool) : Dealing → Bool
  | .entered => true
  | .made | .settled _ => false
  | .pumping | .stopping | .batch _ => running

end Dealing

/-- Whatever is settled stands earlier and ends a dialogue. -/
def Accounted (dealings : List Dealing) : Prop :=
  ∀ before k after, dealings = before ++ .settled k :: after →
    ∃ d, before[k]? = some d ∧ d.ends = true

theorem accounted_nil : Accounted [] := by
  intro before k after h
  cases before <;> cases h

theorem snoc_eq_append_cons {α : Type} {xs before after : List α} {x y : α} :
    xs ++ [x] = before ++ y :: after ↔
      (after = [] ∧ xs = before ∧ x = y) ∨
      ∃ after', after = after' ++ [x] ∧ xs = before ++ y :: after' := by
  constructor
  · intro h
    rcases List.eq_nil_or_concat' after with rfl | ⟨after', last, rfl⟩
    · obtain ⟨rfl, hlast⟩ := List.append_inj' h rfl
      cases hlast
      exact .inl ⟨rfl, rfl, rfl⟩
    · rw [← List.cons_append, ← List.append_assoc] at h
      obtain ⟨rfl, hlast⟩ := List.append_inj' h rfl
      cases hlast
      exact .inr ⟨after', rfl, rfl⟩
  · rintro (⟨rfl, rfl, rfl⟩ | ⟨after', rfl, rfl⟩)
    · rfl
    · simp

theorem Accounted.snoc {dealings : List Dealing} (h : Accounted dealings) {d : Dealing}
    (hd : ∀ k, d = .settled k → ∃ e, dealings[k]? = some e ∧ e.ends = true) :
    Accounted (dealings ++ [d]) := by
  intro before k after heq
  rcases snoc_eq_append_cons.mp heq with ⟨-, rfl, hk⟩ | ⟨after, -, heq⟩
  · exact hd k hk
  · exact h before k after heq

/-- The flag is down at the end of some dealings without a new interpreter exactly when
something was settled in them and no node entered since. -/
theorem foldl_flag_eq_false_iff {dealings : List Dealing} (hmade : ∀ d ∈ dealings, d ≠ .made) :
    dealings.foldl Dealing.flag true = false ↔
      ∃ before k after, dealings = before ++ .settled k :: after ∧
        ∀ d ∈ after, d ≠ .entered := by
  induction dealings using List.reverseRecOn with
  | nil => simp
  | append_singleton dealings last ih =>
      have ih := ih fun d hd => hmade d (List.mem_append_left _ hd)
      rw [List.foldl_append]
      cases last with
      | made => exact absurd rfl (hmade .made (by simp))
      | entered =>
          constructor
          · simp [Dealing.flag]
          · rintro ⟨before, k, after, heq, hafter⟩
            rcases snoc_eq_append_cons.mp heq with ⟨-, -, h⟩ | ⟨after, rfl, -⟩
            · cases h
            · exact absurd rfl (hafter .entered (by simp))
      | settled k =>
          refine ⟨fun _ => ⟨dealings, k, [], rfl, by simp⟩, fun _ => rfl⟩
      -- The rest leaves the flag and stands after whatever was settled.
      | pumping | stopping | batch =>
          rw [List.foldl_cons, List.foldl_nil, Dealing.flag, ih]
          constructor
          · rintro ⟨before, k, after, rfl, hafter⟩
            refine ⟨before, k, after ++ [_], List.append_assoc before (_ :: after) _, ?_⟩
            intro d hd
            rcases List.mem_append.mp hd with hd | hd
            · exact hafter d hd
            · simp [List.mem_singleton.mp hd]
          · rintro ⟨before, k, after, heq, hafter⟩
            rcases snoc_eq_append_cons.mp heq with ⟨-, -, h⟩ | ⟨after, rfl, rfl⟩
            · cases h
            · exact ⟨before, k, after, rfl, fun d hd => hafter d (List.mem_append_left _ hd)⟩

namespace Course

variable {I : Type}

/-- The dealings went on, the flag is what they come to, and they stay accounted for. -/
def Follows (c c' : Course I) : Prop :=
  ∃ t, c'.dealings = c.dealings ++ t ∧ c'.running = t.foldl Dealing.flag c.running ∧
    (Accounted c.dealings → Accounted c'.dealings)

theorem Follows.of_eq {c c' : Course I} (hdealings : c'.dealings = c.dealings)
    (hrunning : c'.running = c.running) : c.Follows c' :=
  ⟨[], by simp [hdealings], by simp [hrunning], by simp [hdealings]⟩

theorem Follows.trans {c₁ c₂ c₃ : Course I} (h₁ : c₁.Follows c₂) (h₂ : c₂.Follows c₃) :
    c₁.Follows c₃ := by
  obtain ⟨t₁, hd₁, hr₁, ha₁⟩ := h₁
  obtain ⟨t₂, hd₂, hr₂, ha₂⟩ := h₂
  refine ⟨t₁ ++ t₂, ?_, ?_, ha₂ ∘ ha₁⟩
  · rw [hd₂, hd₁, List.append_assoc]
  · rw [hr₂, hr₁, List.foldl_append]

instance : IsPreorder (Course I) Follows where
  refl _ := .of_eq rfl rfl
  trans _ _ _ := Follows.trans

theorem Follows.snoc {c c' : Course I} {d : Dealing} (hdealings : c'.dealings = c.dealings ++ [d])
    (hrunning : c'.running = d.flag c.running)
    (hd : ∀ k, d = .settled k → ∃ e, c.dealings[k]? = some e ∧ e.ends = true) : c.Follows c' :=
  ⟨[d], hdealings, hrunning, fun h => hdealings ▸ h.snoc hd⟩

/-- Everything that is done to a course makes it follow. -/
theorem follows_law {L : Type} (ip : Interpreter I L) :
    Law ip (fun _ => True) (fun _ => True) (fun _ => True) (Follows (I := I)) where
  load _ _ _ _ _ := .of_eq rfl rfl
  unload _ _ := .of_eq rfl rfl
  programs _ _ := .of_eq rfl rfl
  grows _ _ := by
    rintro ⟨t, ht, -⟩
    exact ⟨t, ht.symm⟩
  made _ _ _ := .snoc rfl rfl (by simp)
  shown _ _ _ := .of_eq rfl rfl
  released _ := .of_eq rfl rfl
  called _ _ _ _ _ _ := .of_eq rfl rfl
  entered _ := .snoc rfl rfl (by simp)
  pumping _ := .snoc rfl rfl (by simp)
  stopping _ := .snoc rfl rfl (by simp)
  batch _ _ _ := .snoc rfl rfl (by simp)
  settled c place d hplace hends := .snoc rfl rfl fun k hk => by
    cases hk
    exact ⟨d, hplace, hends⟩
  begins _ := trivial
  leads textOf l core _ := by
    cases (ip.advance textOf l core).1 <;> simp [Move.Leads]
  stops _ _ _ := trivial

end Course

namespace Session

open Act
open Course (Follows follows_law)

variable {H I L : Type}

theorem supplies_true (r : Request I) : r.Supplies fun _ => True := by
  unfold Request.Supplies
  split <;> trivial

theorem exec_follows (ip : Interpreter I L) (react : Host H I) (fuel : Nat) (r : Request I) :
    Keeps (OnCourse Follows) (exec ip react fuel r) :=
  exec_keeps_of_law (follows_law ip)
    (fun host c => Script.abides_of_forall (q := fun _ => True) supplies_true (fun _ => trivial)
      (react host c)) fuel r (supplies_true r)

theorem callHost_follows {ip : Interpreter I L} {react : Host H I} (fuel : Nat)
    (c : Callback) : Keeps (OnCourse Follows) (callHost react (exec ip react fuel) c) :=
  callHost_keeps (fun r _ => exec_follows ip react fuel r) fun host => (react host c).abides_true

/-! ## Entered nodes -/

theorem entered_of_start_ok {ip : Interpreter I L} {react : Host H I} {fuel : Nat} {node : Datum}
    {w w' : World H I}
    (h : Yields (exec ip react fuel (.start node)) w (.ok (.outcome .ok)) w') :
    ∃ t, w'.dealings = w.dealings ++ .entered :: t := by
  obtain ⟨fuel, rfl, h⟩ := yields_exec.mp h
  obtain ⟨r, hstart, hr⟩ := yields_bind_pure.mp h
  have hr : r = .ok .ok := by
    cases r <;> cases hr
    rfl
  subst hr
  have hinvoke : ∀ c, Keeps (OnCourse Follows) (callHost react (exec ip react fuel) c) :=
    callHost_follows fuel
  rcases start_cases hstart with
      ⟨-, hr, -⟩ | ⟨-, -, hr, -⟩ | ⟨-, _, -, -, ⟨f, hr⟩, -⟩ | ⟨-, slot, core, -, -, h⟩
  · cases hr
  · cases hr
  · cases hr
  · rcases h with ⟨f, -, hf, -⟩ | ⟨w₁, -, hw₁, hrest⟩
    · exact absurd rfl (hf.ne (by decide))
    · have hkeeps : Keeps (OnCourse Follows) (do
          notify (callHost react (exec ip react fuel)) .started
          continueDialogue ip fuel (callHost react (exec ip react fuel))) :=
        .bind (notify_keeps hinvoke _) fun _ => continueDialogue_keeps (follows_law ip) hinvoke fuel
      obtain ⟨t, ht, -⟩ := hkeeps _ _ _ hrest
      rw [hw₁] at ht
      refine ⟨t, ht.trans ?_⟩
      exact List.append_assoc w.dealings [.entered] t

/-! ## Runs -/

theorem Run.follows {ip : Interpreter I L} {react : Host H I} {w₀ w : World H I}
    {steps : List (Request I × Except Fault Answer)} (hrun : Run ip react w₀ steps w) :
    Follows w₀.course w.course :=
  hrun.keeps (p := fun _ => True) (fun fuel r _ => exec_follows ip react fuel r) fun _ _ => trivial

/-- Since a node was entered no new interpreter was made, nothing was stopped and no batch
had a completion in it.  Then no dialogue runs exactly when something was settled with no
node entered since; and whatever was settled is a completion or a `stop` from before. -/
theorem running_since_entered {ip : Interpreter I L} {react : Host H I} {w₀ w : World H I}
    {steps : List (Request I × Except Fault Answer)} (h₀ : w₀.Fresh)
    (hrun : Run ip react w₀ steps w) :
    (∀ fuel node (u u' : World H I),
      Yields (exec ip react fuel (.start node)) u (.ok (.outcome .ok)) u' →
        ∃ t, u'.dealings = u.dealings ++ .entered :: t) ∧
    ∀ before after, w.dealings = before ++ .entered :: after →
      (∀ d ∈ after, d.ends = false ∧ d ≠ .made) →
        (w.running = false ↔
          ∃ a k b, after = a ++ .settled k :: b ∧ ∀ d ∈ b, d ≠ .entered) ∧
        ∀ k, .settled k ∈ after → ∃ d, before[k]? = some d ∧ d.ends = true := by
  refine ⟨fun fuel node u u' => entered_of_start_ok, ?_⟩
  intro before after hentered hafter
  obtain ⟨t, ht, hflag, haccounted⟩ := hrun.follows
  rw [show w₀.course.dealings = [] from h₀.dealings] at ht haccounted
  obtain rfl : w.dealings = t := ht
  constructor
  · have hrunning : w.running = after.foldl Dealing.flag true := by
      rw [show w.running = _ from hflag, hentered, List.foldl_append, List.foldl_cons]
      rfl
    rw [hrunning]
    exact foldl_flag_eq_false_iff fun d hd => (hafter d hd).2
  · intro k hk
    obtain ⟨a, b, rfl⟩ := List.append_of_mem hk
    obtain ⟨d, hd, hends⟩ := haccounted accounted_nil (before ++ .entered :: a) k b (by
      rw [show w.course.dealings = w.dealings from rfl, hentered, List.append_assoc]
      rfl)
    refine ⟨d, ?_, hends⟩
    -- What ends a dialogue is neither the entered node nor one of the dealings since.
    by_cases hlt : k < before.length
    · rwa [List.getElem?_append_left hlt] at hd
    · rw [List.getElem?_append_right (Nat.le_of_not_lt hlt)] at hd
      rcases List.mem_cons.mp (List.mem_of_getElem? hd) with rfl | hmem
      · cases hends
      · have hnot := (hafter d (List.mem_append_left _ hmem)).1
        rw [hends] at hnot
        cases hnot

/-! ## Chaining

A host that goes on to another dialogue as soon as it is told that one is complete. -/

def chaining : Host Bool Script.State
  | true, .sink .completed =>
    .request false .stop fun host _ => .request host (.start (.text "Next")) fun host _ =>
      .finish host (.ok .nothing)
  | host, _ => .finish host (.ok .nothing)

/-- Two nodes: the first is empty, the second has a line. -/
def twoNodes : World Bool Script.State where
  host := true
  sink := .host
  factory := some {}
  programs := [.dict [
    (.text "Start", .dict [(.text "steps", .list [])]),
    (.text "Next", .dict [(.text "steps", .list [.tuple [.text "line", .text "l", .text "x"]])])]]

/-- What became of a request of a callback. -/
def Record.nested? : Record → Option (Except Fault Answer)
  | .nested a => some a
  | _ => none

/-- Two requests of a callback succeeded, and the last dealing is a completion that was
obtained before the last node was entered. -/
def outlived (w : World Bool Script.State) : Bool :=
  match w.dealings, w.journal.filterMap Record.nested? with
  | [.made, .entered, .pumping, .batch _, .stopping, .batch _, .settled _, .entered, .pumping,
      .batch events, .settled 3], [.ok (.outcome .ok), .ok (.outcome .ok)] =>
    !(Dealing.batch events).ends && !w.running
  | _, _ => false

/-- The callback stopped the runner and started it at the second node, and both succeeded.
After that the completion of the first dialogue was settled. -/
theorem chained_run : ∃ steps w before after,
    Run Script.interpreter chaining twoNodes steps w ∧
      w.journal.filterMap Record.nested? = [.ok (.outcome .ok), .ok (.outcome .ok)] ∧
      w.dealings = before ++ .entered :: after ∧ (∀ d ∈ after, d.ends = false ∧ d ≠ .made) ∧
      .settled 3 ∈ after ∧ w.running = false := by
  have hfollow : (follow Script.interpreter chaining 9 [.setup none, .start (.text "Start")]
      twoNodes).any (fun p => outlived p.2) = true := by
    decide +kernel
  obtain ⟨steps, w, hrun, hw⟩ := run_of_follow_any hfollow
  unfold outlived at hw
  split at hw
  · next events hdealings hnested =>
      obtain ⟨hends, hrunning⟩ := Bool.and_eq_true_iff.mp hw
      have hends : (Dealing.batch events).ends = false := by simpa using hends
      refine ⟨steps, w, [_, _, _, _, _, _, _], _, hrun, hnested, hdealings, ?_, by simp, ?_⟩
      · simp [Dealing.ends] at hends ⊢
        exact hends
      · simpa using hrunning
  · cases hw

theorem fresh_twoNodes : twoNodes.Fresh := ⟨rfl, rfl, rfl, rfl⟩

/-- The chained dialogue does not run although nothing since its start ended it. -/
theorem completion_ends_chained_dialogue : ∃ steps w before after,
    twoNodes.Fresh ∧ Run Script.interpreter chaining twoNodes steps w ∧
      w.journal.filterMap Record.nested? = [.ok (.outcome .ok), .ok (.outcome .ok)] ∧
      w.dealings = before ++ .entered :: after ∧ (∀ d ∈ after, d.ends = false ∧ d ≠ .made) ∧
      w.running = false := by
  obtain ⟨steps, w, before, after, hrun, hnested, hdealings, hafter, -, hrunning⟩ := chained_run
  exact ⟨steps, w, before, after, fresh_twoNodes, hrun, hnested, hdealings, hafter, hrunning⟩

theorem running_since_entered_chained : ∃ steps w before after,
    twoNodes.Fresh ∧ Run Script.interpreter chaining twoNodes steps w ∧
      w.dealings = before ++ .entered :: after ∧ (∀ d ∈ after, d.ends = false ∧ d ≠ .made) ∧
      (w.running = false ↔
        ∃ a k b, after = a ++ .settled k :: b ∧ ∀ d ∈ b, d ≠ .entered) ∧
      ∃ k, .settled k ∈ after ∧ ∃ d, before[k]? = some d ∧ d.ends = true := by
  obtain ⟨steps, w, before, after, hrun, -, hdealings, hafter, hsettled, -⟩ := chained_run
  obtain ⟨hrunning, hends⟩ :=
    (running_since_entered fresh_twoNodes hrun).2 before after hdealings hafter
  exact ⟨steps, w, before, after, fresh_twoNodes, hrun, hdealings, hafter, hrunning, 3, hsettled,
    hends 3 hsettled⟩

end Session

end Parley
