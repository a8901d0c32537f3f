import Parley.Interpreter.Script
import Parley.Proofs.Backstage
import Parley.Proofs.Passive
import Mathlib.Data.List.DropRight

/-!
# What the runner shows

The line and the options that a host can look at are written after the sink was told of them.
The sink's callback may go on with the dialogue, so that another pump begins and ends meanwhile.
Then the line of the pump before comes after the line of the pump that was begun from it.

So what is shown goes by the notifications that were *heard*, those whose callback has
returned, and not by those that were told:

| | since the line and the options were last forgotten |
|---|---|
| `World.Shows` of `heardSince` | any host, at any return of a request |
| `World.Shows` of `toldSince` | no callback about a line or options was under way then |

The first is an invariant of every operation.  The second compares two orders, and needs hosts
that hear of everything without failing and whose callbacks do not end the dialogue: of the
marks of their runs each `telling` has its `heard`, properly nested (`Spoken`), and a callback
during which nothing is forgotten shows nothing (`Discreet`).
-/

namespace Parley

/-! ## Notifications and marks -/

namespace Notification

def line? : Notification → Option Line
  | .line l => some l
  | _ => none

def choices : Notification → List Choice
  | .options cs => cs
  | _ => []

/-- Does it bring a line or options? -/
def shows : Notification → Bool
  | .line _ | .options _ => true
  | _ => false

end Notification

namespace Showing

def told? : Showing → Option Notification
  | .telling n => some n
  | _ => none

def heard? : Showing → Option Notification
  | .heard n => some n
  | _ => none

def clears : Showing → Bool
  | .cleared => true
  | _ => false

/-- Is it a mark of a notification that brings a line or options? -/
def shows : Showing → Bool
  | .telling n | .heard n => n.shows
  | .cleared => false

/-- The calls that go on after the mark, if these did before it; the last to begin comes
first. -/
def calls (open_ : List Notification) : Showing → List Notification
  | .cleared => open_
  | .telling n => n :: open_
  | .heard _ => open_.tail

end Showing

/-- The marks up to the last time something was forgotten, that one included. -/
def untilCleared (t : List Showing) : List Showing := t.rdropWhile fun s => !s.clears

/-- The marks since something was last forgotten. -/
def sinceCleared (t : List Showing) : List Showing := t.rtakeWhile fun s => !s.clears

def toldSince (t : List Showing) : List Notification := (sinceCleared t).filterMap Showing.told?

def heardSince (t : List Showing) : List Notification := (sinceCleared t).filterMap Showing.heard?

/-- The notifications whose callbacks have not returned, the innermost first. -/
def underWay (t : List Showing) : List Notification := t.foldl Showing.calls []

/-! ## Marks of proper callbacks -/

/-- Where nothing was forgotten nothing was shown. -/
def Discreet (t : List Showing) : Prop :=
  (∀ s ∈ t, s.clears = false) → ∀ s ∈ t, s.shows = false

/-- Marks in which every notification that is told is heard, and what happens in between is
itself such a row, and discreet. -/
inductive Spoken : List Showing → Prop where
  | nil : Spoken []
  | cleared {t : List Showing} : Spoken t → Spoken (.cleared :: t)
  | told (n : Notification) {inner t : List Showing} : Spoken inner → Discreet inner → Spoken t →
      Spoken (.telling n :: inner ++ .heard n :: t)

theorem Spoken.append {t₁ t₂ : List Showing} (h₁ : Spoken t₁) (h₂ : Spoken t₂) :
    Spoken (t₁ ++ t₂) := by
  induction h₁ with
  | nil => exact h₂
  | cleared _ ih => exact .cleared ih
  | told n hinner hdiscreet _ _ ih =>
      rw [List.append_assoc]
      exact .told n hinner hdiscreet ih

theorem discreet_nil : Discreet [] := fun _ _ h => absurd h List.not_mem_nil

theorem Discreet.append {t₁ t₂ : List Showing} (h₁ : Discreet t₁) (h₂ : Discreet t₂) :
    Discreet (t₁ ++ t₂) := by
  intro hclears
  rw [List.forall_mem_append] at hclears ⊢
  exact ⟨h₁ hclears.1, h₂ hclears.2⟩

theorem discreet_cleared (t : List Showing) : Discreet (.cleared :: t) :=
  fun h => absurd (h _ List.mem_cons_self) (by simp [Showing.clears])

/-- After proper marks the same calls go on as before. -/
theorem Spoken.calls {t : List Showing} (h : Spoken t) (ns : List Notification) :
    t.foldl Showing.calls ns = ns := by
  induction h generalizing ns with
  | nil => rfl
  | cleared _ ih => exact ih ns
  | told n _ _ _ hinner ht =>
      rw [List.foldl_append, List.foldl_cons, List.foldl_cons]
      show List.foldl Showing.calls (List.foldl Showing.calls (n :: ns) _).tail _ = ns
      rw [hinner, List.tail_cons, ht]

theorem filter_shows_eq_nil {t : List Showing} (h : ∀ s ∈ t, s.shows = false) :
    (t.filterMap Showing.heard?).filter Notification.shows = [] ∧
      (t.filterMap Showing.told?).filter Notification.shows = [] := by
  simp only [List.filter_eq_nil_iff, List.mem_filterMap, Bool.not_eq_true]
  constructor <;> rintro n ⟨s, hs, hn⟩ <;> cases s <;> cases hn <;> exact h _ hs

theorem Spoken.heard_eq_told {t : List Showing} (h : Spoken t)
    (hclears : ∀ s ∈ t, s.clears = false) :
    (t.filterMap Showing.heard?).filter Notification.shows =
      (t.filterMap Showing.told?).filter Notification.shows := by
  induction h with
  | nil => rfl
  | cleared => exact absurd (hclears _ List.mem_cons_self) (by simp [Showing.clears])
  | told n _ hdiscreet _ _ ih =>
      simp only [List.forall_mem_append, List.forall_mem_cons] at hclears
      obtain ⟨⟨-, hinner⟩, -, ht⟩ := hclears
      obtain ⟨hheard, htold⟩ := filter_shows_eq_nil (hdiscreet hinner)
      simp only [List.filterMap_append, List.filterMap_cons, Showing.heard?, Showing.told?,
        List.filter_append, List.filter_cons, hheard, htold, ih ht, List.nil_append]
      cases n.shows <;> rfl

/-- After the last time something was forgotten, if none of the calls that went on then were
about a line or options. -/
theorem Spoken.heard_eq_told_since {t before after : List Showing} (h : Spoken t)
    (ht : t = before ++ .cleared :: after) (hafter : ∀ s ∈ after, s.clears = false)
    {ns : List Notification} (hopen : ∀ n ∈ before.foldl Showing.calls ns, n.shows = false) :
    (after.filterMap Showing.heard?).filter Notification.shows =
        (after.filterMap Showing.told?).filter Notification.shows ∧
      ∀ n ∈ ns, n.shows = false := by
  induction h generalizing before after ns with
  | nil => simp at ht
  | @cleared t h ih =>
      cases before with
      | nil =>
          cases ht
          exact ⟨h.heard_eq_told hafter, hopen⟩
      | cons s before =>
          obtain ⟨rfl, htail⟩ := List.cons.inj ht
          exact ih htail hafter hopen
  | @told n inner t hinner hdiscreet h ihinner ih =>
      cases before with
      | nil => cases ht
      | cons s before =>
          obtain ⟨rfl, htail⟩ := List.cons.inj ht
          rcases List.append_eq_append_iff.mp htail with ⟨middle, rfl, hmiddle⟩ | ⟨rest, rfl, hrest⟩
          · -- it was forgotten after the callback had returned
            cases middle with
            | nil => cases hmiddle
            | cons s middle =>
                obtain ⟨rfl, hlater⟩ := List.cons.inj hmiddle
                refine ih hlater hafter ?_
                rw [List.foldl_cons, List.foldl_append, hinner.calls, List.foldl_cons] at hopen
                exact hopen
          · -- it was forgotten during the callback
            cases rest with
            | nil => cases hrest
            | cons s rest =>
                rw [List.cons_append] at hrest
                obtain ⟨rfl, rfl⟩ := List.cons.inj hrest
                simp only [List.forall_mem_append, List.forall_mem_cons] at hafter
                obtain ⟨hrest, -, hclears⟩ := hafter
                obtain ⟨hsince, hns⟩ := ihinner rfl hrest hopen
                obtain ⟨hn, hns⟩ := List.forall_mem_cons.mp hns
                refine ⟨?_, hns⟩
                simp only [List.filterMap_append, List.filterMap_cons, Showing.heard?,
                  Showing.told?, List.filter_append, List.filter_cons, hn, hsince,
                  h.heard_eq_told hclears, Bool.false_eq_true, if_false]

theorem Spoken.heardSince_eq_toldSince {t : List Showing} (h : Spoken t)
    (hopen : ∀ n ∈ underWay (untilCleared t), n.shows = false) :
    (heardSince t).filter Notification.shows = (toldSince t).filter Notification.shows := by
  have hsince : ∀ s ∈ sinceCleared t, s.clears = false := fun s hs => by
    simpa using List.mem_rtakeWhile_imp hs
  have ht : untilCleared t ++ sinceCleared t = t := List.rdropWhile_append_rtakeWhile ..
  rcases List.eq_nil_or_concat' (untilCleared t) with hnone | ⟨before, s, huntil⟩
  · rw [hnone, List.nil_append] at ht
    unfold heardSince toldSince
    exact (ht ▸ h).heard_eq_told hsince
  · have hclears : s.clears = true := by
      have hlast : ∀ hl, ¬ (!((untilCleared t).getLast hl).clears) = true :=
        List.rdropWhile_last_not _ t
      simpa [huntil] using hlast
    obtain rfl : s = .cleared := by
      cases s <;> first | rfl | cases hclears
    rw [huntil, List.append_assoc, List.singleton_append] at ht
    rw [huntil, underWay, List.foldl_append] at hopen
    exact (h.heard_eq_told_since ht.symm hsince hopen).1

/-- Is it a request that ends a dialogue at once? -/
def Request.ends {I : Type} : Request I → Bool
  | .stop | .cleanup => true
  | _ => false

/-! ## What is shown, by itself -/

/-- The part of a world that a host looks at, with the marks of how it came about. -/
structure Display where
  line : Option Line
  options : List Choice
  showings : List Showing

def World.display {H I : Type} (w : World H I) : Display where
  line := w.line
  options := w.options
  showings := w.showings

namespace Display

def mark (d : Display) (s : Showing) : Display := { d with showings := d.showings ++ [s] }

/-- The line and the options are forgotten. -/
def blank (d : Display) : Display where
  line := none
  options := []
  showings := d.showings ++ [.cleared]

/-- A notification was heard, and what it brought is kept. -/
def hear (d : Display) : Notification → Display
  | .line l => { d.mark (.heard (.line l)) with line := some l }
  | .options cs => { d.mark (.heard (.options cs)) with options := d.options ++ cs }
  | n => d.mark (.heard n)

/-- The line is the last that these brought, and the options are all that they brought. -/
structure Shows (d : Display) (ns : List Notification) : Prop where
  line : d.line = (ns.filterMap Notification.line?).getLast?
  options : d.options = ns.flatMap Notification.choices

theorem shows_hear {d : Display} {ns : List Notification} (h : d.Shows ns) (n : Notification) :
    (d.hear n).Shows (ns ++ [n]) where
  line := by
    rw [List.filterMap_append]
    cases n with
    | line l => exact List.getLast?_concat.symm
    | _ => exact h.line.trans (congrArg _ (List.append_nil _).symm)
  options := by
    rw [List.flatMap_append, List.flatMap_singleton]
    cases n with
    | options cs => exact congrArg (· ++ cs) h.options
    | _ => exact h.options.trans (List.append_nil _).symm

theorem shows_filter {d : Display} {ns : List Notification} :
    d.Shows (ns.filter Notification.shows) ↔ d.Shows ns := by
  have hline : (ns.filter Notification.shows).filterMap Notification.line? =
      ns.filterMap Notification.line? := by
    rw [List.filterMap_filter]
    exact congrArg (List.filterMap · ns) (funext fun n => by cases n <;> rfl)
  have hoptions : (ns.filter Notification.shows).flatMap Notification.choices =
      ns.flatMap Notification.choices := by
    clear hline
    induction ns with
    | nil => rfl
    | cons n ns ih =>
        rw [List.filter_cons, List.flatMap_cons, ← ih]
        cases n <;> rfl
  constructor
  · rintro ⟨h₁, h₂⟩
    exact ⟨hline ▸ h₁, hoptions ▸ h₂⟩
  · rintro ⟨h₁, h₂⟩
    exact ⟨hline.symm ▸ h₁, hoptions.symm ▸ h₂⟩

/-- What is shown is what was heard since it was forgotten. -/
def Faithful (d : Display) : Prop := d.Shows (heardSince d.showings)

end Display

/-- The displays are related. -/
def OnDisplay {H I : Type} (R : Display → Display → Prop) (w w' : World H I) : Prop :=
  R w.display w'.display

section
variable {H I : Type} (R : Display → Display → Prop) [IsPreorder Display R]

theorem onDisplay_of_eq {R : Display → Display → Prop} [IsPreorder Display R] {w w' : World H I}
    (h : w'.display = w.display) : OnDisplay R w w' := by
  unfold OnDisplay
  rw [h]
  exact refl_of R _

theorem display_eq {w w' : World H I} (hline : w'.line = w.line) (hoptions : w'.options = w.options)
    (hreception : w'.reception = w.reception) : w'.display = w.display := by
  have hshowings : w'.showings = w.showings := congrArg Reception.showings hreception
  rw [World.display, hline, hoptions, hshowings]
  rfl

instance : OverlooksRunner (OnDisplay R : World H I → World H I → Prop) where
  refl _ := refl_of R _
  trans _ _ _ := trans_of R
  same hcourse _ hreception := onDisplay_of_eq
    (display_eq (congrArg Course.line hcourse) (congrArg Course.options hcourse) hreception)
  runner hline hoptions _ hreception := onDisplay_of_eq (display_eq hline hoptions hreception)

instance : OverlooksBus (OnDisplay R : World H I → World H I → Prop) where
  published w _ := refl_of R w.display

instance : OverlooksCalls (OnDisplay R : World H I → World H I → Prop) where
  called w _ := refl_of R w.display

instance : AllowsWriting (OnDisplay R : World H I → World H I → Prop) where
  change _ _ hcourse _ hreception := onDisplay_of_eq
    (display_eq (congrArg Course.line hcourse) (congrArg Course.options hcourse) hreception)

end

/-- Two relations on displays, of which `S` relates those before and after a callback and `T`
those before and after a request of the host.  Callbacks about notifications may fail where
`mayFail` says so. -/
structure Exhibits (mayFail : Prop) (S T : Display → Display → Prop) : Prop where
  weaken : ∀ d d', S d d' → T d d'
  /-- what begins by forgetting may be done in a callback -/
  blank : ∀ d d', T d.blank d' → S d d'
  told : ∀ d d' n, S (d.mark (.telling n)) d' → T d (d'.hear n)
  /-- so may what tells of no line and no options -/
  aside : ∀ d d' n, n.shows = false → S (d.mark (.telling n)) d' → S d (d'.hear n)
  failed : mayFail → ∀ d d' n, S (d.mark (.telling n)) d' → S d d'

theorem Exhibits.keeps {H I α : Type} {mayFail : Prop} {S T : Display → Display → Prop}
    {act : Act H I α} (hex : Exhibits mayFail S T) (h : Act.Keeps (OnDisplay S) act) :
    Act.Keeps (OnDisplay T) act :=
  h.mono fun w w' => hex.weaken w.display w'.display

namespace Session

open Act

variable {H I L : Type} {ip : Interpreter I L} {mayFail : Prop} {S T : Display → Display → Prop}
  [IsPreorder Display S] [IsPreorder Display T]

section
variable (hex : Exhibits mayFail S T) {invoke : Invoke H I}
  (hinvoke : ∀ c, Keeps (OnDisplay S) (invoke c))
  (hhears : ¬ mayFail → ∀ c, c.tells = true → ∀ w r w', Yields (invoke c) w r w' →
    ∃ d, r = .ok d)
include hex hinvoke hhears

omit [IsPreorder Display T] in
theorem notify_cases {n : Notification} {w w' : World H I} {r : Except Fault Unit}
    (h : Yields (notify invoke n) w r w') :
    (r = .ok () ∧ ∃ u : World H I, S (w.display.mark (.telling n)) u.display ∧
        w' = { u with showings := u.showings ++ [.heard n] }) ∨
      (∃ f, r = .error f) ∧ S w.display w'.display := by
  have hbring : ∀ x u,
      Yields (bring invoke n) { w with showings := w.showings ++ [.telling n] } x u →
        S (w.display.mark (.telling n)) u.display := bring_keeps hinvoke n _
  rcases yields_bind.mp (yields_modify_bind.mp h) with ⟨_, u, hbrought, hmark⟩ | ⟨f, hfailed, rfl⟩
  · obtain ⟨rfl, rfl⟩ := yields_modify.mp hmark
    exact .inl ⟨rfl, u, hbring _ u hbrought, rfl⟩
  · refine .inr ⟨⟨f, rfl⟩, ?_⟩
    by_cases hmay : mayFail
    · exact hex.failed hmay _ _ n (hbring _ w' hfailed)
    · cases bring_heard (hhears hmay) hfailed

omit [IsPreorder Display T] in
theorem notify_then_keeps {n : Notification} {f : World H I → World H I}
    (hf : ∀ u : World H I, (f { u with showings := u.showings ++ [.heard n] }).display =
      u.display.hear n) :
    Keeps (OnDisplay T) (notify invoke n >>= fun _ => modify f) := by
  intro w r w' h
  rcases yields_bind.mp h with ⟨_, w₁, hnotify, hmodify⟩ | ⟨_, hnotify, rfl⟩
  · obtain ⟨rfl, rfl⟩ := yields_modify.mp hmodify
    rcases notify_cases hex hinvoke hhears hnotify with ⟨-, u, hS, rfl⟩ | ⟨⟨f, hf⟩, -⟩
    · show T w.display _
      rw [hf]
      exact hex.told _ _ n hS
    · cases hf
  · rcases notify_cases hex hinvoke hhears hnotify with ⟨hr, -⟩ | ⟨-, hS⟩
    · cases hr
    · exact hex.weaken _ _ hS

omit [IsPreorder Display T] in
theorem notify_aside_keeps {n : Notification} (hn : n.shows = false) :
    Keeps (OnDisplay S) (notify invoke n) := by
  intro w r w' h
  rcases notify_cases hex hinvoke hhears h with ⟨-, u, hS, rfl⟩ | ⟨-, hS⟩
  · have hheard : ({ u with showings := u.showings ++ [.heard n] } : World H I).display =
        u.display.hear n := by
      cases n <;> first | rfl | cases hn
    show S w.display _
    rw [hheard]
    exact hex.aside _ _ n hn hS
  · exact hS

theorem process_keeps_display (place : Nat) (e : Event) :
    Keeps (OnDisplay T) (process invoke place e) := by
  cases e with
  | line l => exact notify_then_keeps hex hinvoke hhears fun _ => rfl
  | options branches => exact notify_then_keeps hex hinvoke hhears fun _ => rfl
  | command name parameters => exact hex.keeps (dispatch_keeps hinvoke _ _).discard
  | nodeStarted | nodeCompleted | hints =>
      exact hex.keeps (notify_aside_keeps hex hinvoke hhears rfl)
  | completed =>
      exact .bind (hex.keeps (notify_aside_keeps hex hinvoke hhears rfl)) fun _ =>
        keeps_modify_aside fun _ => ⟨rfl, rfl, rfl, rfl⟩
  | plain | alien => exact keeps_log _

theorem processAll_keeps_display (events : List Event) :
    Keeps (OnDisplay T) (processAll invoke events) :=
  .bind keeps_get fun _ => .bind (keeps_modify_aside fun _ => ⟨rfl, rfl, rfl, rfl⟩) fun _ =>
    keeps_forM _ fun e _ => process_keeps_display hex hinvoke hhears _ e

theorem continueDialogue_keeps_display (fuel : Nat) :
    Keeps (OnDisplay S) (continueDialogue ip fuel invoke) := by
  refine .bind keeps_get fun w => ?_
  split
  · exact keeps_pure _
  · intro w r w' h
    refine hex.blank w.display w'.display ?_
    -- the rest of the operation, from the world in which nothing is shown any more
    have hrest := yields_modify_bind.mp h
    refine (?_ : Keeps (OnDisplay T) _) _ _ _ hrest
    refine .bind (keeps_modify_aside fun _ => ⟨rfl, rfl, rfl, rfl⟩) fun _ =>
      .bind keeps_held fun slot => .bind (observe_keeps ip _ _) fun _ =>
        .bind (keeps_instance _) fun i =>
          .bind (hex.keeps (pump_keeps_aside hinvoke slot fuel _)).attempt ?_
    intro result
    split
    · split
      · exact .bind (keeps_log _) fun _ => outcomeOf_keeps _
      · exact keeps_throw _
    · exact .bind (processAll_keeps_display hex hinvoke hhears _) fun _ =>
        .bind keeps_get fun _ => keeps_pure _

theorem start_keeps_display (fuel : Nat) (node : Datum) :
    Keeps (OnDisplay S) (start ip fuel invoke node) := by
  refine .bind keeps_get fun w => ?_
  split
  · exact .bind (keeps_log _) fun _ => keeps_pure _
  · split
    · exact keeps_pure _
    · refine .bind (observe_keeps ip _ _) fun _ => .bind (keeps_instance _) fun i =>
        .bind (keeps_modify_aside fun _ => ⟨rfl, rfl, rfl, rfl⟩) fun _ => ?_
      split
      · split
        · exact .bind (keeps_log _) fun _ => outcomeOf_keeps _
        · exact keeps_throw _
      · exact .bind (keeps_modify_aside fun _ => ⟨rfl, rfl, rfl, rfl⟩) fun _ =>
          .bind (notify_aside_keeps hex hinvoke hhears rfl) fun _ =>
            continueDialogue_keeps_display hex hinvoke hhears fuel

theorem stop_keeps_display : Keeps (OnDisplay T) (stop ip invoke) := by
  have hend : ∀ place, Keeps (OnDisplay T) (do
      flag false (.settled place)
      return .ok : Act H I Outcome) := fun _ =>
    .bind (keeps_modify_aside fun _ => ⟨rfl, rfl, rfl, rfl⟩) fun _ => keeps_pure _
  refine .bind keeps_get fun w => .bind (keeps_modify_aside fun _ => ⟨rfl, rfl, rfl, rfl⟩) fun _ =>
    .bind keeps_get fun w' => ?_
  split
  · exact .bind (observe_keeps ip _ _) fun _ => .bind (keeps_instance _) fun i =>
      .bind (keeps_modify_aside fun _ => ⟨rfl, rfl, rfl, rfl⟩) fun _ =>
        .bind (keeps_of _) fun events =>
          .bind (processAll_keeps_display hex hinvoke hhears events) fun _ => hend _
  · exact hend _

theorem cleanup_keeps_display : Keeps (OnDisplay T) (cleanup ip invoke) := by
  have hrelease :
      Keeps (OnDisplay T) (modify fun w => { w.blank with current := none } : Act H I Unit) :=
    keeps_modify_of fun w => hex.weaken _ _ (hex.blank w.display w.blank.display (refl_of T _))
  refine .bind keeps_get fun w => ?_
  split
  · exact .bind (stop_keeps_display hex hinvoke hhears).discard fun _ => .bind keeps_held fun _ =>
      .bind (unload_keeps (OverlooksRunner.allowsLoading ip) _) fun _ => hrelease
  · exact hrelease

theorem perform_keeps_display (fuel : Nat) {r : Request I} (hr : r.ends = false) :
    Keeps (OnDisplay S) (perform ip fuel invoke r) := by
  cases hpasses : r.passes with
  | false => exact perform_keeps_aside hinvoke fuel hpasses
  | true =>
      cases r with
      | start node =>
          exact .bind (start_keeps_display hex hinvoke hhears fuel node) fun _ => keeps_pure _
      | «continue» =>
          exact .bind (continueDialogue_keeps_display hex hinvoke hhears fuel) fun _ => keeps_pure _
      | stop | cleanup => cases hr
      | _ => cases hpasses

theorem perform_keeps_display_after (fuel : Nat) (r : Request I) :
    Keeps (OnDisplay T) (perform ip fuel invoke r) := by
  cases hends : r.ends with
  | false => exact hex.keeps (perform_keeps_display hex hinvoke hhears fuel hends)
  | true =>
      cases r with
      | stop => exact .bind (stop_keeps_display hex hinvoke hhears) fun _ => keeps_pure _
      | cleanup => exact only_keeps (cleanup_keeps_display hex hinvoke hhears)
      | _ => cases hends

end

/-- What requests of callbacks and of the host exhibit, if the callbacks ask only for what `p`
allows and hear of notifications without failing. -/
theorem exec_keeps_display (hex : Exhibits mayFail S T) {p : Request I → Prop}
    (hp : ∀ r, p r → r.ends = true → ∀ d d', T d d' → S d d') {react : Host H I}
    (hreact : ∀ host c, (react host c).Abides p fun result =>
      ¬ mayFail → c.tells = true → ∃ d, result = .ok d) (fuel : Nat) :
    (∀ r, p r → Keeps (OnDisplay S) (exec ip react fuel r)) ∧
      ∀ r, Keeps (OnDisplay T) (exec ip react fuel r) := by
  induction fuel with
  | zero => exact ⟨fun _ _ => keeps_endless, fun _ => keeps_endless⟩
  | succ fuel ih =>
      have hinvoke : ∀ c, Keeps (OnDisplay S) (calls ip react fuel c) := fun c =>
        callHost_keeps ih.1 fun host => hreact host c
      have hhears : ¬ mayFail → ∀ c, c.tells = true → ∀ w r w',
          Yields (calls ip react fuel c) w r w' → ∃ d, r = .ok d := by
        intro hmay c hc w r w' h
        exact runScript_abides (hreact _ c) (yields_callHost.mp h) hmay hc
      have hafter : ∀ r, Keeps (OnDisplay T) (perform ip fuel (calls ip react fuel) r) :=
        perform_keeps_display_after hex hinvoke hhears fuel
      refine ⟨fun r hr => ?_, hafter⟩
      cases hends : r.ends with
      | false => exact perform_keeps_display hex hinvoke hhears fuel hends
      | true => exact (hafter r).mono fun w w' => hp r hr hends w.display w'.display

end Session

/-! ## What was heard is shown, with any host -/

theorem heardSince_cleared (t : List Showing) : heardSince (t ++ [.cleared]) = [] := by
  rw [heardSince, sinceCleared, List.rtakeWhile_concat_neg _ _ _ (by simp [Showing.clears])]
  rfl

theorem heardSince_telling (t : List Showing) (n : Notification) :
    heardSince (t ++ [.telling n]) = heardSince t := by
  rw [heardSince, sinceCleared, List.rtakeWhile_concat_pos _ _ _ rfl, List.filterMap_append]
  exact List.append_nil _

theorem heardSince_heard (t : List Showing) (n : Notification) :
    heardSince (t ++ [.heard n]) = heardSince t ++ [n] := by
  rw [heardSince, sinceCleared, List.rtakeWhile_concat_pos _ _ _ rfl, List.filterMap_append]
  rfl

namespace Display

theorem faithful_blank (d : Display) : d.blank.Faithful := by
  unfold Faithful blank
  rw [heardSince_cleared]
  exact ⟨rfl, rfl⟩

theorem Faithful.telling {d : Display} (h : d.Faithful) (n : Notification) :
    (d.mark (.telling n)).Faithful := by
  unfold Faithful mark
  rw [heardSince_telling]
  exact ⟨h.line, h.options⟩

theorem Faithful.hear {d : Display} (h : d.Faithful) (n : Notification) : (d.hear n).Faithful := by
  have hmarks : (d.hear n).showings = d.showings ++ [.heard n] := by cases n <;> rfl
  unfold Faithful
  rw [hmarks, heardSince_heard]
  exact shows_hear h n

/-- What was faithful still is. -/
def StaysFaithful (d d' : Display) : Prop := d.Faithful → d'.Faithful

instance : IsPreorder Display StaysFaithful where
  refl _ := id
  trans _ _ _ h₁ h₂ := h₂ ∘ h₁

theorem exhibits_staysFaithful : Exhibits True StaysFaithful StaysFaithful where
  weaken _ _ := id
  blank d _ h _ := h d.faithful_blank
  told _ _ n h hd := (h (hd.telling n)).hear n
  aside _ _ n _ h hd := (h (hd.telling n)).hear n
  failed _ _ _ n h hd := h (hd.telling n)

/-! ## Hosts that hear of everything and end nothing -/

theorem showings_hear {d d' : Display} {n : Notification} {t : List Showing}
    (h : d'.showings = (d.mark (.telling n)).showings ++ t) :
    (d'.hear n).showings = d.showings ++ (.telling n :: t ++ [.heard n]) := by
  have hmarks : (d'.hear n).showings = d'.showings ++ [.heard n] := by cases n <;> rfl
  rw [hmarks, h, mark]
  simp

/-- The marks are continued by proper ones. -/
def Speaks (d d' : Display) : Prop := ∃ t, d'.showings = d.showings ++ t ∧ Spoken t

/-- They are, and these are discreet. -/
def Mutters (d d' : Display) : Prop := ∃ t, d'.showings = d.showings ++ t ∧ Spoken t ∧ Discreet t

instance : IsPreorder Display Speaks where
  refl _ := ⟨[], (List.append_nil _).symm, .nil⟩
  trans := by
    rintro _ _ _ ⟨t₁, h₁, hs₁⟩ ⟨t₂, h₂, hs₂⟩
    exact ⟨t₁ ++ t₂, by rw [h₂, h₁, List.append_assoc], hs₁.append hs₂⟩

instance : IsPreorder Display Mutters where
  refl _ := ⟨[], (List.append_nil _).symm, .nil, discreet_nil⟩
  trans := by
    rintro _ _ _ ⟨t₁, h₁, hs₁, hd₁⟩ ⟨t₂, h₂, hs₂, hd₂⟩
    exact ⟨t₁ ++ t₂, by rw [h₂, h₁, List.append_assoc], hs₁.append hs₂, hd₁.append hd₂⟩

theorem exhibits_speaks : Exhibits False Mutters Speaks where
  weaken := by
    rintro d d' ⟨t, ht, hspoken, -⟩
    exact ⟨t, ht, hspoken⟩
  blank := by
    rintro d d' ⟨t, ht, hspoken⟩
    refine ⟨.cleared :: t, ?_, .cleared hspoken, discreet_cleared t⟩
    rw [ht]
    exact List.append_assoc d.showings [.cleared] t
  told := by
    rintro d d' n ⟨t, ht, hspoken, hdiscreet⟩
    exact ⟨_, showings_hear ht, .told n hspoken hdiscreet .nil⟩
  aside := by
    rintro d d' n hn ⟨t, ht, hspoken, hdiscreet⟩
    refine ⟨_, showings_hear ht, .told n hspoken hdiscreet .nil, fun hclears => ?_⟩
    simp only [List.forall_mem_append, List.forall_mem_cons] at hclears ⊢
    exact ⟨⟨hn, hdiscreet hclears.1.2⟩, hn, by simp⟩
  failed := False.elim

end Display

/-- The callbacks hear of every notification without failing, and do not ask for what ends a
dialogue at once. -/
def Host.Onward {H I : Type} (react : Host H I) : Prop :=
  ∀ host c, (react host c).Abides (fun r => r.ends = false)
    fun result => c.tells = true → ∃ d, result = .ok d

namespace Session

variable {H I L : Type} {ip : Interpreter I L} {react : Host H I}

/-- Whenever the host has its answer, the line is the last that was heard since the runner forgot
its line and its options, and the options are all that were heard since.

If no callback about a line or options was under way when that happened, then what was heard is
what was told.  This is of hosts that hear of everything and whose callbacks may start and
continue dialogues and answer options. -/
theorem shown_after_run {w₀ w : World H I} {steps : List (Request I × Except Fault Answer)}
    (hline : w₀.line = none) (hoptions : w₀.options = []) (hshowings : w₀.showings = [])
    (hrun : Run ip react w₀ steps w) :
    w.display.Shows (heardSince w.showings) ∧
      (react.Onward → (∀ n ∈ underWay (untilCleared w.showings), n.shows = false) →
        w.display.Shows (toldSince w.showings)) := by
  have hfaithful : w.display.Faithful := by
    have hkept : OnDisplay Display.StaysFaithful w₀ w :=
      hrun.keeps (p := fun _ => True) (fun fuel r _ => (exec_keeps_display
        Display.exhibits_staysFaithful (p := fun _ => True) (fun _ _ _ _ _ => id)
        (fun host c => Script.abides_of_forall (fun _ => trivial) (fun _ h => absurd trivial h) _)
        fuel).2 r) fun _ _ => trivial
    refine hkept ?_
    unfold Display.Faithful
    rw [show w₀.display.showings = [] from hshowings]
    exact ⟨hline, hoptions⟩
  refine ⟨hfaithful, fun hreact hopen => ?_⟩
  obtain ⟨t, ht, hspoken⟩ : OnDisplay Display.Speaks w₀ w :=
    hrun.keeps (p := fun _ => True) (fun fuel r _ => (exec_keeps_display
      Display.exhibits_speaks (p := fun r => r.ends = false)
      (fun r hr hends => by rw [hr] at hends; cases hends)
      (fun host c => (hreact host c).mono (fun _ => id) fun _ h _ => h) fuel).2 r)
      fun _ _ => trivial
  rw [show w₀.display.showings = [] from hshowings, List.nil_append] at ht
  obtain rfl : w.showings = t := ht
  have hsince := hspoken.heardSince_eq_toldSince hopen
  rw [← Display.shows_filter, ← hsince, Display.shows_filter]
  exact hfaithful

/-! ## Going on from a callback -/

/-- A host that goes on with the dialogue as soon as it is told of a notification as given, the
first time. -/
def goingOn (about : Notification → Bool) : Host Bool Script.State
  | true, .sink n =>
    if about n then .request false .continue fun host _ => .finish host (.ok .nothing)
    else .finish true (.ok .nothing)
  | host, _ => .finish host (.ok .nothing)

theorem goingOn_onward (about : Notification → Bool) : (goingOn about).Onward := by
  intro host c
  have hheard : ∀ host, (Script.finish host (.ok .nothing) : Script Bool Script.State).Abides
      (fun r => r.ends = false) fun result => c.tells = true → ∃ d, result = .ok d :=
    fun _ _ => ⟨_, rfl⟩
  unfold goingOn
  split
  · split
    · exact ⟨rfl, fun host _ => hheard host⟩
    · exact hheard true
  · exact hheard host

/-- One node with two lines. -/
def twoLines : World Bool Script.State where
  host := true
  sink := .host
  factory := some {}
  programs := [.dict [(.text "Start", .dict [(.text "steps", .list
    [.tuple [.text "line", .text "a", .text "x"], .tuple [.text "line", .text "b", .text "y"]])])]]

/-- A host that goes on from its callback about a node that begins has the second line before the
first, and both are told after the line was last forgotten. -/
theorem shown_after_run_of_going_on : ∃ steps w,
    Run Script.interpreter (goingOn fun n => n.method == "on_node_start") twoLines steps w ∧
      ((toldSince w.showings).filterMap Notification.line?).map (·.id.text?) =
        [some "b", some "a"] ∧
      w.display.Shows (heardSince w.showings) ∧ w.display.Shows (toldSince w.showings) := by
  have hfollow : (follow Script.interpreter (goingOn fun n => n.method == "on_node_start") 9
      [.setup none, .start (.text "Start")] twoLines).any (fun p =>
        ((toldSince p.2.showings).filterMap Notification.line?).map (·.id.text?) ==
            [some "b", some "a"] &&
          (underWay (untilCleared p.2.showings)).all fun n => !n.shows) = true := by
    decide +kernel
  obtain ⟨steps, w, hrun, hw⟩ := run_of_follow_any hfollow
  obtain ⟨htold, hopen⟩ := Bool.and_eq_true_iff.mp hw
  obtain ⟨hheard, hclaim⟩ := shown_after_run rfl rfl rfl hrun
  exact ⟨steps, w, hrun, eq_of_beq htold, hheard,
    hclaim (goingOn_onward _) fun n hn => by simpa using List.all_eq_true.mp hopen n hn⟩

/-- A host that goes on from its callback about a line is left with that line, although it was
told of the next one since the runner forgot it. -/
theorem overtaken_line_comes_back : ∃ steps w,
    Run Script.interpreter (goingOn Notification.shows) twoLines steps w ∧
      (goingOn Notification.shows).Onward ∧
      w.line.bind (·.id.text?) = some "a" ∧
      ((toldSince w.showings).filterMap Notification.line?).map (·.id.text?) = [some "b"] ∧
      ¬ w.display.Shows (toldSince w.showings) := by
  have hfollow : (follow Script.interpreter (goingOn Notification.shows) 9
      [.setup none, .start (.text "Start")] twoLines).any (fun p =>
        p.2.line.bind (·.id.text?) == some "a" &&
          ((toldSince p.2.showings).filterMap Notification.line?).map (·.id.text?) ==
            [some "b"]) = true := by
    decide +kernel
  obtain ⟨steps, w, hrun, hw⟩ := run_of_follow_any hfollow
  obtain ⟨hline, htold⟩ := Bool.and_eq_true_iff.mp hw
  have hline := eq_of_beq hline
  have htold := eq_of_beq htold
  refine ⟨steps, w, hrun, goingOn_onward _, hline, htold, fun hshows => ?_⟩
  obtain ⟨b, hb, hid⟩ := List.map_eq_singleton_iff.mp htold
  rw [show w.line = _ from hshows.line, hb] at hline
  rw [show b.id.text? = some "a" from hline] at hid
  exact absurd hid (by decide)

end Session

end Parley
