import Parley.Proofs.Readings
import Parley.Proofs.Watching

/-!
# Being told in turn

Whoever is told of a variable written should find the value in place.  Listeners are told one
after another, and each may write before the next is told.  So this much holds of every
listener, at the moment it is called (`told_in_turn`):

* it stands in the line that there was when the variable was written, and those before it were
  told first;
* what it reads is the last value written under the name from the write on, whether by the
  write itself or by those before it;
* so it reads the value it is told of if it is the first in line, or if nothing those before
  it did wrote the same variable or cleared them all.

The last condition is needed: a listener that writes the variable again has all who stand
behind it told of a value that is there no more (`overruled_before_told`).  They are told of the
newer value too, but earlier, as publications are nested: the last they hear of the variable
is the older value.

Variables are written by either interface, by scripts, and by listeners however deep.  Left out is
what no write has to do with, a host that has the bus tell of a variable by itself.
-/

namespace Parley

/-- Does the notice tell of a value under the name, or of all of them gone? -/
def Notice.touches (name : Datum) (n : Notice) : Bool := n.clears || (n.valueOf? name).isSome

theorem latest_concat_untouched {ns : List Notice} {n : Notice} {name : Datum}
    (h : n.touches name = false) : latest (ns ++ [n]) name = latest ns name := by
  obtain ⟨hclears, hvalue⟩ := Bool.or_eq_false_iff.mp h
  rw [latest_concat, hclears, Option.isNone_iff_eq_none.mp (Option.isSome_eq_false_iff.mp hvalue)]
  rfl

section
variable {n : Notice} {name d : Datum} (hclears : n.clears = false)
  (hvalue : n.valueOf? name = some d)
include hclears hvalue

theorem latest_concat_value (before : List Notice) : latest (before ++ [n]) name = some d := by
  rw [latest_concat, hclears, hvalue]
  rfl

theorem latest_append_value (before ns : List Notice) :
    latest (before ++ n :: ns) name = latest (n :: ns) name := by
  induction ns using List.reverseRecOn with
  | nil =>
      rw [latest_concat_value hclears hvalue]
      exact (latest_concat_value hclears hvalue []).symm
  | append_singleton ns m ih =>
      rw [← List.cons_append, ← List.append_assoc, latest_concat, latest_concat, ih]

theorem latest_of_untouched {ns : List Notice} (hns : ∀ m ∈ ns, m.touches name = false) :
    latest (n :: ns) name = some d := by
  induction ns using List.reverseRecOn with
  | nil => exact latest_concat_value hclears hvalue []
  | append_singleton ns m ih =>
      rw [List.forall_mem_append, List.forall_mem_singleton] at hns
      rw [← List.cons_append, latest_concat_untouched hns.2]
      exact ih hns.1

end

/-- What is stored is what was announced, and all of it under names that are texts. -/
structure Stock.Recorded (s : Stock) : Prop where
  accounted : s.Accounted
  named : ∀ n ∈ s.announced, n.Named

theorem Stock.Recorded.change {s : Stock} (h : s.Recorded) {n : Notice} (hn : n.Named) :
    (s.change n).Recorded where
  accounted := by
    show n.play s.store = replay (s.announced ++ [n])
    rw [replay_concat, show s.store = replay s.announced from h.accounted]
  named := List.forall_mem_append.mpr ⟨h.named, List.forall_mem_singleton.mpr hn⟩

instance {H I : Type} :
    AllowsWriting (OnStock (Stock.Carries Stock.Recorded) : World H I → World H I → Prop) where
  change := by
    intro w w' n hn _ hstock _ hw
    rw [hstock]
    exact hw.change hn

namespace Session

open Act

variable {H I L : Type} {ip : Interpreter I L} {react : Host H I}

/-- What the host reads under a name. -/
def Reads (ip : Interpreter I L) (react : Host H I) (w : World H I) (name d : Datum) : Prop :=
  ∀ fuel, Yields (exec ip react (fuel + 1) (.getVariable name)) w (.ok (.datum d)) w

theorem reads_of_recorded (ip : Interpreter I L) (react : Host H I) {w : World H I}
    (hw : w.stock.Recorded) {name : Datum} (hname : name.isKey = true) :
    Reads ip react w name ((latest w.announced name).getD .nothing) := by
  intro fuel
  refine yields_bind_pure.mpr ⟨.ok _, ?_, rfl⟩
  refine (yields_checkKey_bind hname).mpr (yields_get_bind.mpr (yields_pure.mpr ⟨?_, rfl⟩))
  rw [show w.store = replay w.announced from hw.accounted,
    show (replay w.announced).get? name = latest w.announced name from get?_replay hw.named name]

/-- Tell the listeners of a notice, one after another. -/
def tellEach (invoke : Invoke H I) (ls : List Listener) (n : Notice) : Act H I Unit :=
  ls.forM fun l => discard (invoke (.listener l n))

/-- The variable was written in the world `w`, and the listener is told of it in the world `u`. -/
structure Hearing (ip : Interpreter I L) (react : Host H I) (l : Listener) (name value : Datum)
    (u w : World H I) (before after : List Listener) (since : List Notice) : Prop where
  /-- The listener stands in the line that there was. -/
  line : w.bus.listeners .variableChanged = before ++ l :: after
  /-- With the value in place, those before it were told. -/
  told : ∃ fuel, Yields (tellEach (calls ip react fuel) before (.variableChanged name value))
    (w.tell (.variableChanged name value)) (.ok ()) u
  announced : u.announced = w.announced ++ .variableChanged name value :: since
  first : before = [] → since = []
  reads : Reads ip react u name
    ((latest (.variableChanged name value :: since) name).getD .nothing)
  untouched : (∀ n ∈ since, n.touches name = false) → Reads ip react u name value

/-- Whoever is told of a variable written is told in turn. -/
def InTurn (ip : Interpreter I L) (react : Host H I) : Callback → World H I → Prop
  | .listener l (.variableChanged name value), u =>
    ∃ w before after since, Hearing ip react l name value u w before after since
  | _, _ => True

theorem inTurn_of_told {l : Listener} {name value : Datum} (hname : ∃ s, name = .text s)
    {u w : World H I} (hu : u.stock.Recorded) {before after : List Listener}
    (hline : w.bus.listeners .variableChanged = before ++ l :: after) {fuel : Nat}
    (htold : Yields (tellEach (calls ip react fuel) before (.variableChanged name value))
      (w.tell (.variableChanged name value)) (.ok ()) u) :
    InTurn ip react (.listener l (.variableChanged name value)) u := by
  obtain ⟨s, rfl⟩ := hname
  have hvalue : (Notice.variableChanged (.text s) value).valueOf? (.text s) = some value :=
    if_pos ((Datum.text_beq s _).mpr rfl)
  have hkeeps : Keeps (OnStock Stock.Grows)
      (tellEach (calls ip react fuel) before (.variableChanged (.text s) value)) :=
    keeps_forM _ fun m _ => (calls_keep_stock ip react fuel _).discard
  obtain ⟨since, hsince⟩ := (hkeeps _ _ _ htold).announced
  have hannounced : u.announced = w.announced ++ .variableChanged (.text s) value :: since := by
    rw [← show (w.tell (.variableChanged (.text s) value)).announced ++ since = u.announced
      from hsince]
    exact List.append_assoc ..
  have hreads := reads_of_recorded ip react hu (show (Datum.text s).isKey = true from rfl)
  rw [hannounced, latest_append_value rfl hvalue] at hreads
  refine ⟨w, before, after, since, hline, ⟨fuel, htold⟩, hannounced, ?_, hreads, ?_⟩
  · rintro rfl
    obtain ⟨-, rfl⟩ := yields_pure.mp htold
    exact List.append_right_eq_self.mp hsince
  · intro hsince
    rw [latest_of_untouched rfl hvalue hsince] at hreads
    exact hreads

section
variable {name value : Datum} (hname : ∃ s, name = .text s) {fuel : Nat} {invoke : Invoke H I}
  (hinvoke : ∀ c, Mimics Stock.Recorded (calls ip react fuel c) (invoke c))
include hname hinvoke

/-- Those who are left in line are told in turn. -/
theorem line_inTurn {w : World H I} {before rest : List Listener}
    (hline : w.bus.listeners .variableChanged = before ++ rest) {u w' : World H I}
    {r : Except Fault Unit} (hu : u.stock.Recorded)
    (htold : Yields (tellEach (calls ip react fuel) before (.variableChanged name value))
      (w.tell (.variableChanged name value)) (.ok ()) u)
    (hrest : Yields (tellEach (calls ip react fuel) rest (.variableChanged name value)) u r w') :
    Yields (tellEach (watching (InTurn ip react) invoke) rest (.variableChanged name value)) u r
      w' ∧ w'.stock.Recorded := by
  induction rest generalizing before u with
  | nil =>
      obtain ⟨rfl, rfl⟩ := yields_pure.mp hrest
      exact ⟨hrest, hu⟩
  | cons l rest ih =>
      have hturn := inTurn_of_told hname hu hline htold
      have hwatched : ∀ {x u₁}, Yields (discard (calls ip react fuel
          (.listener l (.variableChanged name value)))) u x u₁ →
          Yields (discard (watching (InTurn ip react) invoke
            (.listener l (.variableChanged name value)))) u x u₁ ∧ u₁.stock.Recorded := by
        intro x u₁ hcall
        obtain ⟨y, hy, rfl⟩ := yields_discard.mp hcall
        obtain ⟨hy', hu₁⟩ := hinvoke _ u y u₁ hu hy
        exact ⟨yields_discard.mpr ⟨y, yields_watching.mpr ⟨hturn, hy'⟩, rfl⟩, hu₁⟩
      rcases yields_bind.mp hrest with ⟨_, u₁, hcall, hothers⟩ | ⟨e, hcall, rfl⟩
      · obtain ⟨hcall', hu₁⟩ := hwatched hcall
        have htold₁ : Yields
            (tellEach (calls ip react fuel) (before ++ [l]) (.variableChanged name value))
            (w.tell (.variableChanged name value)) (.ok ()) u₁ :=
          htold.forM_append (yields_bind.mpr (.inl ⟨⟨⟩, u₁, hcall, yields_pure.mpr ⟨rfl, rfl⟩⟩))
        obtain ⟨hothers', hw'⟩ := ih (by rw [hline]; simp) hu₁ htold₁ hothers
        exact ⟨yields_bind.mpr (.inl ⟨⟨⟩, u₁, hcall', hothers'⟩), hw'⟩
      · obtain ⟨hcall', hw'⟩ := hwatched hcall
        exact ⟨yields_bind.mpr (.inr ⟨e, hcall', rfl⟩), hw'⟩

theorem assign_inTurn : Mimics Stock.Recorded (assign (calls ip react fuel) name value)
    (assign (watching (InTurn ip react) invoke) name value) := by
  have hchange : ∀ s : Stock, s.Recorded → (s.change (.variableChanged name value)).Recorded :=
    fun s hs => hs.change hname
  refine changed_mimics (fun _ => rfl) hchange ?_
  intro w r w' hw hpublish
  have htold : (w.tell (.variableChanged name value)).stock.Recorded := hchange _ hw
  -- that the notice was sent makes no difference to the line
  let sent : World H I := { w with published := w.published ++ [.variableChanged name value] }
  have hline : sent.bus.listeners .variableChanged = [] ++ sent.bus.listeners .variableChanged :=
    rfl
  exact line_inTurn hname hinvoke hline htold (yields_pure.mpr ⟨rfl, rfl⟩) hpublish

end

/-- Whatever run it was, in every request that follows each listener told of a variable written is
told in turn: to watch that makes no difference to what the request comes to. -/
theorem told_in_turn {w₀ w : World H I} {steps : List (Request I × Except Fault Answer)}
    (hstart : w₀.stock.Recorded) (hrun : Run ip react w₀ steps w)
    (hreact : ∀ host c, (react host c).Abides (fun r => r.forges = false) fun _ => True)
    {fuel : Nat} {r : Request I} (hr : r.forges = false) {a : Except Fault Answer} {w' : World H I}
    (hasked : Yields (exec ip react fuel r) w a w') :
    Yields (execWatched ip react (InTurn ip react) fuel r) w a w' := by
  have hrecorded : w.stock.Recorded :=
    hrun.keeps (R := OnStock (Stock.Carries Stock.Recorded)) (p := fun _ => True)
      (fun fuel r _ => exec_keeps_stock ip react fuel r) (fun _ _ => trivial) hstart
  have hassign : ∀ fuel, (∀ c, Mimics Stock.Recorded (calls ip react fuel c)
      (callHost react (execWatched ip react (InTurn ip react) fuel) c)) →
      ∀ name value, (Notice.variableChanged name value).Named →
        Mimics Stock.Recorded (assign (calls ip react fuel) name value)
          (assign (watching (InTurn ip react)
            (callHost react (execWatched ip react (InTurn ip react) fuel))) name value) :=
    fun fuel hcalls name value hname => assign_inTurn hname hcalls
  have hothers : ∀ c (u : World H I), c.tellsWrite = false → InTurn ip react c u := by
    intro c u hc
    unfold InTurn
    split
    · cases hc
    · trivial
  exact (execWatched_mimics (fun s hs => hs.change (n := .storeCleared) trivial) hreact hothers
    hassign fuel hr w a w' hrecorded hasked).1

/-- Of two listeners, the first turns every truth into its opposite, and the second reads what it
is told of. -/
def overruling : Host Unit Script.State := fun host c =>
  match c with
  | .listener ⟨_, 0⟩ (.variableChanged name (.bool true)) =>
    .request host (.setVariable name (.bool false)) fun host _ => .finish host (.ok .nothing)
  | .listener ⟨_, 1⟩ (.variableChanged name _) =>
    .request host (.getVariable name) fun host _ => .finish host (.ok .nothing)
  | _ => .finish host (.ok .nothing)

/-- The two stand in line, in this order. -/
def lined : World Unit Script.State where
  host := ()
  bus := (({} : Bus).subscribe .variableChanged ⟨none, 0⟩).subscribe .variableChanged ⟨none, 1⟩

/-- The second is told of the truth, in the end, and reads the opposite. -/
theorem overruled_before_told : ∃ w',
    Yields (exec Script.interpreter overruling 3 (.setVariable (.text "$a") (.bool true))) lined
      (.ok (.wrote .ok)) w' ∧
    w'.journal = [
      .called (.listener ⟨none, 0⟩ (.variableChanged (.text "$a") (.bool true))),
      .called (.listener ⟨none, 0⟩ (.variableChanged (.text "$a") (.bool false))),
      .called (.listener ⟨none, 1⟩ (.variableChanged (.text "$a") (.bool false))),
      .nested (.ok (.datum (.bool false))),
      .nested (.ok (.wrote .ok)),
      .called (.listener ⟨none, 1⟩ (.variableChanged (.text "$a") (.bool true))),
      .nested (.ok (.datum (.bool false)))] := by
  refine ⟨?world, ?yields, ?journal⟩
  case yields => with_unfolding_all rfl
  case journal => with_unfolding_all rfl

/-- Was a write accepted? -/
def writes : Except Fault Answer → Bool
  | .ok (.wrote .ok) => true
  | _ => false

theorem told_in_turn_of_overruling : ∃ steps w w',
    lined.stock.Recorded ∧ Run Script.interpreter overruling lined steps w ∧ steps.length = 2 ∧
      (∀ host c, (overruling host c).Abides (fun r => r.forges = false) fun _ => True) ∧
      Yields (exec Script.interpreter overruling 3 (.setVariable (.text "$a") (.bool true))) w
        (.ok (.wrote .ok)) w' ∧
      Yields (execWatched Script.interpreter overruling (InTurn Script.interpreter overruling) 3
        (.setVariable (.text "$a") (.bool true))) w (.ok (.wrote .ok)) w' := by
  have hfollow : (follow Script.interpreter overruling 3
      [.setValue (.text "$b") (.boolean (.bool true)), .clearVariables] lined).any
      (fun p => p.1.length == 2 && ((exec Script.interpreter overruling 3
        (.setVariable (.text "$a") (.bool true))).run.run p.2).any fun q => writes q.1) = true := by
    decide +kernel
  obtain ⟨steps, w, hrun, hw⟩ := run_of_follow_any hfollow
  obtain ⟨htwo, hsets⟩ := Bool.and_eq_true_iff.mp hw
  obtain ⟨⟨a, w'⟩, hasked, ha⟩ := (Option.any_eq_true _ _).mp hsets
  have hstart : lined.stock.Recorded := ⟨rfl, nofun⟩
  have hreact : ∀ host c, (overruling host c).Abides (fun r => r.forges = false) fun _ => True := by
    intro host c
    unfold overruling
    split
    · exact ⟨rfl, fun _ _ => trivial⟩
    · exact ⟨rfl, fun _ _ => trivial⟩
    · trivial
  unfold writes at ha
  split at ha
  · next hok =>
    cases hok
    exact ⟨steps, w, w', hstart, hrun, by simpa using htwo, hreact, hasked,
      told_in_turn hstart hrun hreact rfl hasked⟩
  · cases ha

end Session

end Parley
