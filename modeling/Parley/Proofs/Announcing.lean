import Parley.Interpreter.Script
import Parley.Proofs.Backstage

/-!
# Every change of the variables is announced

The store announces a change after making it.  A listener may write again while it is
being told, and it may fail; then the operation that was announcing is cut short, in
the middle of a batch as it may be.  Notices and operations are nested and not in step.
What holds at every point is simpler: the variables are what the notices make of none,
taken in the order in which their publication began.

`variables_replayed` says so of every run, whatever it asks: the host's operations and
the interpreter's on the variables, and dialogues whose scripts write them.  The
publications are those the store entered in `announced`; that these are the ones
listeners hear is its second part: a listener first in line was called with exactly
them, in this order, as the journal has it.
-/

namespace Parley

/-! ## Replaying notices -/

/-- The table that notices tell of, from an empty one on. -/
def replay (ns : List Notice) : Keyed Datum Datum := ns.foldl (fun t n => n.play t) {}

theorem replay_concat (ns : List Notice) (n : Notice) :
    replay (ns ++ [n]) = n.play (replay ns) := by
  simp [replay]

/-- What is stored is what was announced. -/
def Stock.Accounted (s : Stock) : Prop := s.store = replay s.announced

/-- What was accounted for still is. -/
def Stock.Accounts (s s' : Stock) : Prop := s.Accounted → s'.Accounted

instance : IsPreorder Stock Stock.Accounts where
  refl _ := id
  trans _ _ _ h₁ h₂ := h₂ ∘ h₁

instance {H I : Type} : AllowsWriting (OnStock Stock.Accounts : World H I → World H I → Prop) where
  change := by
    intro w w' n _ _ hstock _ haccounted
    rw [hstock]
    show n.play w.store = replay (w.announced ++ [n])
    rw [replay_concat]
    exact congrArg n.play haccounted

/-- Nothing announced is taken back, and what writes go by stays as it is. -/
structure Stock.Grows (s s' : Stock) : Prop where
  settings : s'.settings = s.settings
  writeStub : s'.writeStub = s.writeStub
  announced : s.announced <+: s'.announced

instance : IsPreorder Stock Stock.Grows where
  refl _ := ⟨rfl, rfl, List.prefix_rfl⟩
  trans _ _ _ h₁ h₂ := ⟨h₂.settings.trans h₁.settings, h₂.writeStub.trans h₁.writeStub,
    h₁.announced.trans h₂.announced⟩

instance {H I : Type} : AllowsWriting (OnStock Stock.Grows : World H I → World H I → Prop) where
  change := by
    intro w w' n _ _ hstock _
    unfold OnStock
    rw [hstock]
    exact ⟨rfl, rfl, List.prefix_append _ _⟩

namespace Session

open Act

variable {H I L : Type}

/-! ## What a listener hears -/

section
variable {h : Handle}

/-- The notice of which the record says that the listener was told. -/
def heardIn (h : Handle) : Record → Option Notice
  | .called (.listener l n) => if l.handle = h then some n else none
  | _ => none

/-- What the listener was told so far. -/
def heard (h : Handle) (journal : List Record) : List Notice := journal.filterMap (heardIn h)

/-- The listener stands first in line for changes of the variables, and stands there once. -/
structure Informs (h : Handle) (w : World H I) : Prop where
  announces : w.announces = true
  first : ∀ n : Notice, n.isChange = true →
    ∃ l rest, w.bus.listeners n.kind = l :: rest ∧ l.handle = h ∧ ∀ m ∈ rest, m.handle ≠ h

/-- What was announced in between the listener heard. -/
def InStep (h : Handle) (w w' : World H I) : Prop :=
  Informs h w → Informs h w' ∧ ∃ ns, w'.announced = w.announced ++ ns ∧
    heard h w'.journal = heard h w.journal ++ ns

instance : IsPreorder (World H I) (InStep h) where
  refl w := fun hinforms => ⟨hinforms, [], by simp, by simp⟩
  trans u v w := by
    intro huv hvw hinforms
    obtain ⟨hinforms, ns, hns, hheard⟩ := huv hinforms
    obtain ⟨hinforms, ms, hms, hheard'⟩ := hvw hinforms
    refine ⟨hinforms, ns ++ ms, ?_, ?_⟩
    · rw [hms, hns, List.append_assoc]
    · rw [hheard', hheard, List.append_assoc]

theorem heard_concat (journal : List Record) (x : Record) :
    heard h (journal ++ [x]) = heard h journal ++ (heardIn h x).toList := by
  unfold heard
  rw [List.filterMap_append]
  cases hx : heardIn h x <;> simp [hx]

theorem record_inStep {x : Record} (hx : heardIn h x = none) :
    Keeps (InStep h) (record x : Act H I Unit) := by
  refine keeps_modify_of fun w hinforms => ⟨⟨hinforms.announces, hinforms.first⟩, [], by simp, ?_⟩
  rw [heard_concat, hx]
  rfl

/-- Calling a listener puts one call in the journal, and then all is in step. -/
def Journals (h : Handle) (invoke : Invoke H I) : Prop :=
  ∀ l n w r w', Yields (invoke (.listener l n)) w r w' →
    InStep h { w with journal := w.journal ++ [.called (.listener l n)] } w'

section
variable {invoke : Invoke H I} (hinvoke : Journals h invoke)
include hinvoke

theorem Journals.keeps {l : Listener} (hl : l.handle ≠ h) (n : Notice) :
    Keeps (InStep h) (invoke (.listener l n)) := by
  intro w r w' hcall
  refine trans_of (InStep h) ?_ (hinvoke l n w r w' hcall)
  have hrecord := record_inStep (H := H) (I := I) (h := h) (x := .called (.listener l n))
    (by simp [heardIn, hl])
  exact hrecord w (.ok ()) _ (yields_modify.mpr ⟨rfl, rfl⟩)

theorem Journals.changed {f : World H I → World H I} {n : Notice} (hn : n.isChange = true)
    (hf : ∀ w, ∃ store, f w = { w with store }) :
    Keeps (InStep h) (modify f >>= fun _ => announce invoke n) := by
  intro w r w' hchange hinforms
  have hannounce : Yields (announce invoke n) (f w) r w' := yields_modify_bind.mp hchange
  unfold announce at hannounce
  have htell := yields_get_bind.mp (yields_modify_bind.mp hannounce)
  obtain ⟨store, hstore⟩ := hf w
  rw [hstore] at htell
  obtain ⟨l, rest, hlisteners, hl, hrest⟩ := hinforms.first n hn
  rw [if_pos hinforms.announces] at htell
  have hpublish := yields_get_bind.mp (yields_modify_bind.mp htell)
  dsimp only at hpublish
  rw [hlisteners] at hpublish
  have hfirst : ∀ x u, Yields (discard (invoke (.listener l n)))
      { w with store, announced := w.announced ++ [n], published := w.published ++ [n] } x u →
        InStep h w u := by
    intro x u hdiscard _
    obtain ⟨y, hcall, -⟩ := yields_discard.mp hdiscard
    obtain ⟨hinforms', ns, hns, hheard⟩ := hinvoke l n _ y u hcall
      ⟨hinforms.announces, hinforms.first⟩
    refine ⟨hinforms', n :: ns, ?_, ?_⟩
    · rw [hns, List.append_assoc]
      rfl
    · rw [hheard, heard_concat]
      simp [heardIn, hl]
  rcases yields_bind.mp hpublish with ⟨_, u, hcall, hothers⟩ | ⟨e, hcall, -⟩
  · have hkeeps : Keeps (InStep h) (rest.forM fun m => discard (invoke (.listener m n))) :=
      keeps_forM rest fun m hm => (Journals.keeps hinvoke (hrest m hm) n).discard
    exact trans_of (InStep h) (hfirst _ u hcall) (hkeeps u r w' hothers) hinforms
  · exact hfirst _ w' hcall hinforms

theorem Journals.storing : Storing (InStep h) invoke where
  log _ := record_inStep rfl
  assign _ _ _ := Journals.changed hinvoke rfl fun _ => ⟨_, rfl⟩
  clear := Journals.changed hinvoke rfl fun _ => ⟨_, rfl⟩

end

variable {ip : Interpreter I L} {react : Host H I}

theorem journals_callHost {answer : Request I → Act H I Answer} {p : Request I → Prop}
    (hanswer : ∀ r, p r → Keeps (InStep h) (answer r))
    (hreact : ∀ host c, (react host c).Abides p fun _ => True) :
    Journals h (callHost react answer) := by
  intro l n w r w' hcall
  have hscript := yields_callHost.mp hcall
  have hhost : ∀ host, Keeps (InStep h) (setHost host : Act H I Unit) := fun host =>
    keeps_modify_of fun w hinforms =>
      ⟨⟨hinforms.announces, hinforms.first⟩, [], by simp, by simp⟩
  exact runScript_keeps hhost (fun _ => record_inStep rfl) hanswer _ (hreact _ _) _ r w' hscript

/-- While nothing but the variables is asked for, a listener first in line hears all that is
announced. -/
theorem exec_inStep (hreact : ∀ host c, (react host c).Abides (fun r => r.stores = true)
      fun _ => True) (fuel : Nat) (r : Request I) (hr : r.stores = true) :
    Keeps (InStep h) (exec ip react fuel r) := by
  induction fuel generalizing r with
  | zero => exact keeps_endless
  | succ fuel ih =>
      rcases Bool.or_eq_true_iff.mp hr with hreads | hwrites
      · exact perform_keeps_of_reads ip fuel _ hreads
      · exact perform_keeps_of_writes (journals_callHost ih hreact).storing ip fuel hwrites

end

/-! ## Replaying a run -/

theorem exec_keeps_stock {S : Stock → Stock → Prop} [IsPreorder Stock S]
    [AllowsWriting (OnStock S : World H I → World H I → Prop)] (ip : Interpreter I L)
    (react : Host H I) (fuel : Nat) (r : Request I) :
    Keeps (OnStock S) (exec ip react fuel r) :=
  exec_keeps_besides ip react fuel r

theorem calls_keep_stock {S : Stock → Stock → Prop} [IsPreorder Stock S]
    [AllowsWriting (OnStock S : World H I → World H I → Prop)] (ip : Interpreter I L)
    (react : Host H I) (fuel : Nat) (c : Callback) : Keeps (OnStock S) (calls ip react fuel c) :=
  calls_keep_besides ip react fuel c

/-- However a run came about, replaying what the store announced gives what it holds, in
order of insertion.  And what it announced is what a listener first in line was told,
as long as everybody asks for nothing but variables. -/
theorem variables_replayed {ip : Interpreter I L} {react : Host H I} {w₀ w : World H I}
    {steps : List (Request I × Except Fault Answer)} (hstart : w₀.store = replay w₀.announced)
    (hrun : Run ip react w₀ steps w) :
    w.store = replay w.announced ∧
    (∀ fuel, Yields (exec ip react (fuel + 1) .saveState) w
      (.ok (.saved (replay w.announced).entries)) w) ∧
    ∀ h, Informs h w₀ → heard h w₀.journal = w₀.announced →
      (∀ host c, (react host c).Abides (fun r => r.stores = true) fun _ => True) →
      (∀ step ∈ steps, step.1.stores = true) → heard h w.journal = w.announced := by
  have haccounted : w.store = replay w.announced :=
    hrun.keeps (R := OnStock Stock.Accounts) (p := fun _ => True)
      (fun fuel r _ => exec_keeps_stock ip react fuel r) (fun _ _ => trivial) hstart
  refine ⟨haccounted, ?_, ?_⟩
  · intro fuel
    rw [← haccounted]
    exact yields_get_bind.mpr (yields_pure.mpr ⟨rfl, rfl⟩)
  · intro h hinforms hheard hreact hsteps
    obtain ⟨-, ns, hns, hheard'⟩ := hrun.keeps (exec_inStep hreact) hsteps hinforms
    rw [hns, hheard', hheard]

/-- A host whose second listener, told of a change to `$a`, writes `$b` and then fails. -/
def meddling : Host Unit Script.State := fun host c =>
  match c with
  | .listener ⟨_, 1⟩ (.variableChanged (.text "$a") _) =>
    .request host (.setVariable (.text "$b") (.bool true)) fun host _ =>
      .finish host (.error (.accident .value))
  | _ => .finish host (.ok .nothing)

/-- Two listeners stand in line for changes; the second is the one that meddles. -/
def overheard : World Unit Script.State where
  host := ()
  bus := ((({} : Bus).subscribe .variableChanged ⟨none, 0⟩).subscribe
    .variableChanged ⟨none, 1⟩).subscribe .storeCleared ⟨none, 0⟩

/-- A batch is cut short at `$a` by the fault of a listener that has written `$b`, and a
script's write follows. -/
theorem variables_replayed_of_meddling : ∃ steps w,
    overheard.store = replay overheard.announced ∧
      Run Script.interpreter meddling overheard steps w ∧
      w.announced.length = 3 ∧ w.store = replay w.announced ∧ heard 0 w.journal = w.announced := by
  have hfollow : (follow Script.interpreter meddling 9
      [.setVariables [(.text "$a", .int 1), (.text "$c", .int 2)],
        .setValue (.text "$d") (.boolean (.bool false))] overheard).any
      (fun p => p.2.announced.length = 3 && p.1.all fun step => step.1.stores) = true := by
    decide +kernel
  obtain ⟨steps, w, hrun, hw⟩ := run_of_follow_any hfollow
  obtain ⟨hthree, hstores⟩ := Bool.and_eq_true_iff.mp hw
  have hinforms : Informs 0 overheard := by
    refine ⟨rfl, fun n hn => ?_⟩
    cases n with
    | variableChanged => exact ⟨⟨none, 0⟩, [⟨none, 1⟩], rfl, rfl, by simp⟩
    | storeCleared => exact ⟨⟨none, 0⟩, [], rfl, rfl, by simp⟩
    | _ => cases hn
  obtain ⟨hreplayed, -, hheard⟩ := variables_replayed rfl hrun
  refine ⟨steps, w, rfl, hrun, of_decide_eq_true hthree, hreplayed, ?_⟩
  refine hheard 0 hinforms rfl ?_ (by simpa using hstores)
  intro host c
  unfold meddling
  split
  · exact ⟨rfl, fun _ _ => trivial⟩
  · trivial

end Session

end Parley
