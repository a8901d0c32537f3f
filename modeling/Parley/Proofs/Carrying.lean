import Parley.Proofs.Accepted
import Parley.Proofs.Backstage

/-!
# What the host's callbacks put on the bus

A world is `Wired` as a runner is that was made with a bus and nothing else: the store announces
there and the runner's notifications go there.  Listeners ask for nothing and do not fail
(`Host.Listens`), so that a notice is sent and nothing comes of it.  What else goes over the bus
comes of the two callbacks that scripts ask for.

| callback | may do | puts on the bus |
| :-- | :-- | :-- |
| a handler | anything but drive the runner | its changes in order, what it publishes by hand |
| a function | anything but write variables | what it publishes by hand, what it drives to |

`Carried` says so of two worlds, `Carries` of operations.  Where the host neither drives the
runner nor publishes by hand (`Host.Unobtrusive`), the changes are all that is sent.
-/

namespace Parley

/-- Does the host put a notice on the bus by hand? -/
def Request.publishes {I : Type} : Request I → Bool
  | .publish _ => true
  | _ => false

/-- Listeners ask for nothing and do not fail. -/
def Host.Listens {H I : Type} (react : Host H I) : Prop :=
  ∀ host l n, ∃ host' d, react host (.listener l n) = .finish host' (.ok d)

/-- Handlers of commands leave the runner alone. -/
def Host.Handles {H I : Type} (react : Host H I) : Prop :=
  ∀ host handler arguments, (react host (.command handler arguments)).Abides
    (fun r => r.drives = false) fun _ => True

/-- The host neither drives the runner from its callbacks nor publishes anything by hand. -/
def Host.Unobtrusive {H I : Type} (react : Host H I) : Prop :=
  ∀ host c, (react host c).Abides (fun r => r.drives = false ∧ r.publishes = false) fun _ => True

theorem Host.Listens.attends {H I : Type} {react : Host H I} (h : react.Listens) : react.Attends :=
  fun host l n _ => h host l n

/-- Different changes make different stocks, as each is announced. -/
theorem Stock.changeAll_injective {s : Stock} {ns ms : List Notice}
    (h : s.changeAll ns = s.changeAll ms) : ns = ms := by
  rw [Stock.changeAll_eq, Stock.changeAll_eq] at h
  exact List.append_cancel_left (congrArg Stock.announced h)

/-! ## Relations of worlds -/

section
variable {H I : Type} {w u w' : World H I}

/-- The store announces on the bus, the runner's notifications go there, and writes are writes. -/
structure World.Wired (w : World H I) : Prop where
  announces : w.announces = true
  sink : w.sink = .bus
  writeStub : w.writeStub = none

theorem World.Wired.of_same (h : w.Wired) (hannounces : w'.announces = w.announces)
    (hsink : w'.sink = w.sink) (hstub : w'.writeStub = w.writeStub) : w'.Wired where
  announces := hannounces.trans h.announces
  sink := hsink.trans h.sink
  writeStub := hstub.trans h.writeStub

/-- What is wired stays so, and nothing that was sent is taken back. -/
structure Relays (w w' : World H I) : Prop where
  wired : w.Wired → w'.Wired
  published : w.published <+: w'.published

/-- Course, stock and reception are as they were. -/
structure Untouched (w w' : World H I) : Prop where
  course : w'.course = w.course
  stock : w'.stock = w.stock
  reception : w'.reception = w.reception

/-- In between, the variables went through the changes, and `sent` went over the bus with the
changes among it.  Of what is `alone` on the bus they are all that was sent. -/
structure Carried (alone : Prop) (changes sent : List Notice) (w w' : World H I) : Prop where
  stock : w'.stock = w.stock.changeAll changes
  published : w'.published = w.published ++ sent
  sublist : changes.Sublist sent
  alone : alone → sent = changes

/-- While the store announces, every change that is made goes over the bus. -/
def Carries (alone : Prop) (w w' : World H I) : Prop :=
  w.announces = true → w'.announces = true ∧ ∃ changes sent, Carried alone changes sent w w'

theorem Relays.of_same (hannounces : w'.announces = w.announces) (hsink : w'.sink = w.sink)
    (hstub : w'.writeStub = w.writeStub) (hpublished : w.published <+: w'.published) :
    Relays w w' :=
  ⟨fun h => h.of_same hannounces hsink hstub, hpublished⟩

theorem Relays.of_reception (hstub : w'.writeStub = w.writeStub)
    (hreception : w'.reception = w.reception) : Relays w w' := by
  have hpublished : w'.published = w.published := congrArg Reception.published hreception
  exact .of_same (congrArg Reception.announces hreception) (congrArg Reception.sink hreception)
    hstub (hpublished ▸ List.prefix_rfl)

instance : OverlooksCourse (Relays : World H I → World H I → Prop) where
  refl _ := ⟨id, List.prefix_rfl⟩
  trans _ _ _ h₁ h₂ := ⟨h₂.wired ∘ h₁.wired, h₁.published.trans h₂.published⟩
  besides hstock := .of_reception (congrArg Stock.writeStub hstock)

instance : OverlooksCalls (Relays : World H I → World H I → Prop) where
  called _ _ := .of_same rfl rfl rfl List.prefix_rfl

instance : OverlooksShowings (Relays : World H I → World H I → Prop) where
  showing _ _ := .of_same rfl rfl rfl List.prefix_rfl

instance : OverlooksBus (Relays : World H I → World H I → Prop) where
  published _ _ := .of_same rfl rfl rfl (List.prefix_append _ _)

instance : AllowsWriting (Relays : World H I → World H I → Prop) where
  change _ _ _ hstock := .of_reception (congrArg Stock.writeStub hstock)

instance : Overlooks (Untouched : World H I → World H I → Prop) where
  refl _ := ⟨rfl, rfl, rfl⟩
  trans _ _ _ h₁ h₂ := ⟨h₂.course.trans h₁.course, h₂.stock.trans h₁.stock,
    h₂.reception.trans h₁.reception⟩
  same := .mk

variable {alone : Prop} {changes changes' sent sent' : List Notice}

theorem Carried.trans (h : Carried alone changes sent w u)
    (h' : Carried alone changes' sent' u w') :
    Carried alone (changes ++ changes') (sent ++ sent') w w' where
  stock := by rw [h'.stock, h.stock, ← Stock.changeAll_append]
  published := by rw [h'.published, h.published, List.append_assoc]
  sublist := h.sublist.append h'.sublist
  alone := fun ha => by rw [h.alone ha, h'.alone ha]

theorem Carried.of_same (hstock : w'.stock = w.stock) (hpublished : w'.published = w.published) :
    Carried alone [] [] w w' :=
  ⟨hstock, hpublished.trans (List.append_nil _).symm, .slnil, fun _ => rfl⟩

theorem Carried.of_reception (hstock : w'.stock = w.stock)
    (hreception : w'.reception = w.reception) : Carried alone [] [] w w' :=
  .of_same hstock (congrArg Reception.published hreception)

theorem Carried.changes_eq_nil (h : Carried alone changes sent w w')
    (hstock : w'.stock = w.stock) : changes = [] :=
  Stock.changeAll_injective (h.stock.symm.trans hstock)

instance : OverlooksCourse (Carries alone : World H I → World H I → Prop) where
  refl _ h := ⟨h, [], [], .of_same rfl rfl⟩
  trans _ _ _ h₁ h₂ h := by
    obtain ⟨hu, changes, sent, hcarried⟩ := h₁ h
    obtain ⟨hw, changes', sent', hcarried'⟩ := h₂ hu
    exact ⟨hw, changes ++ changes', sent ++ sent', hcarried.trans hcarried'⟩
  besides hstock hreception h :=
    ⟨(congrArg Reception.announces hreception).trans h, [], [], .of_reception hstock hreception⟩

instance : OverlooksCalls (Carries alone : World H I → World H I → Prop) where
  called _ _ h := ⟨h, [], [], .of_same rfl rfl⟩

end

/-- Calling a listener comes to an answer and changes nothing to speak of. -/
def Invoke.Listens {H I : Type} (invoke : Invoke H I) : Prop :=
  ∀ l n w r w', Act.Yields (invoke (.listener l n)) w r w' → (∃ d, r = .ok d) ∧ Untouched w w'

/-- What the library relies on when it calls the host: nothing comes of telling listeners,
functions write nothing, and what handlers change goes over the bus. -/
structure Invoke.Serves {H I : Type} (alone : Prop) (invoke : Invoke H I) : Prop where
  relays : ∀ c, Act.Keeps Relays (invoke c)
  attends : invoke.Attends
  listens : invoke.Listens
  function : ∀ handle arguments, Act.Keeps (OnStock Eq) (invoke (.function handle arguments))
  functionAlone : alone → ∀ handle arguments,
    Act.Keeps (Carries True) (invoke (.function handle arguments))
  command : ∀ handler arguments, Act.Keeps (Carries alone) (invoke (.command handler arguments))

namespace Session

open Act

variable {H I L : Type} {alone : Prop}

/-! ## Telling listeners -/

section
variable {invoke : Invoke H I} (hinvoke : invoke.Listens)
include hinvoke

theorem publish_listened {n : Notice} {w w' : World H I} {r : Except Fault Unit}
    (h : Yields (publish invoke n) w r w') :
    r = .ok () ∧ Untouched { w with published := w.published ++ [n] } w' := by
  have htold := yields_get_bind.mp (yields_modify_bind.mp h)
  refine ⟨yields_forM_ok (fun l u u' x hl => ?_) htold, ?_⟩
  · obtain ⟨y, hcall, rfl⟩ := yields_discard.mp hl
    obtain ⟨⟨d, rfl⟩, -⟩ := hinvoke _ _ _ _ _ hcall
    rfl
  · refine keeps_forM _ (fun l _ => Keeps.discard ?_) _ _ _ htold
    intro u x u' hcall
    exact (hinvoke _ _ _ _ _ hcall).2

/-- A change is sent as soon as it is made. -/
theorem changed_carries {f : World H I → World H I} {n : Notice}
    (hf : ∀ w, ({ f w with announced := (f w).announced ++ [n] } : World H I) = w.tell n) :
    Keeps (Carries alone) (modify f >>= fun _ => announce invoke n) := by
  intro w r w' h hannounces
  have hannounce : Yields (announce invoke n) (f w) r w' := yields_modify_bind.mp h
  unfold announce at hannounce
  have htell := yields_modify_bind.mp hannounce
  rw [hf] at htell
  have hpublish := yields_get_bind.mp htell
  rw [if_pos (show (w.tell n).announces = true from hannounces)] at hpublish
  obtain ⟨-, hsame⟩ := publish_listened hinvoke hpublish
  refine ⟨(congrArg Reception.announces hsame.reception).trans hannounces, [n], [n], ?_⟩
  exact ⟨hsame.stock, congrArg Reception.published hsame.reception, List.Sublist.refl _,
    fun _ => rfl⟩

theorem storing_carries : Storing (Carries alone) invoke where
  log := keeps_log
  assign _ _ _ := changed_carries hinvoke fun _ => rfl
  clear := changed_carries hinvoke fun _ => rfl

/-- What a handler asks for: its changes are sent, and what it publishes by hand besides. -/
theorem perform_carries
    (hcommand : ∀ handler arguments, Keeps (Carries alone) (invoke (.command handler arguments)))
    (ip : Interpreter I L) (fuel : Nat) {r : Request I} (hdrives : r.drives = false)
    (hpublishes : alone → r.publishes = false) :
    Keeps (Carries alone) (perform ip fuel invoke r) := by
  cases hwrites : r.writes with
  | true => exact perform_keeps_of_writes (storing_carries hinvoke) ip fuel hwrites
  | false =>
      cases hcalls : r.calls with
      | false => exact perform_keeps_of_not_calls ip fuel invoke r hdrives hwrites hcalls
      | true =>
          cases r with
          | publish n =>
              refine only_keeps ?_
              intro w x w' h hannounces
              obtain ⟨-, hsame⟩ := publish_listened hinvoke h
              refine ⟨(congrArg Reception.announces hsame.reception).trans hannounces, [], [n], ?_⟩
              exact ⟨hsame.stock, congrArg Reception.published hsame.reception,
                List.nil_sublist _, fun ha => nomatch hpublishes ha⟩
          | dispatch name parameters =>
              exact .bind (dispatch_keeps_of_handlers hcommand name parameters) fun _ =>
                keeps_pure _
          | _ => cases hcalls

end

/-! ## Hosts -/

section
variable {ip : Interpreter I L} {react : Host H I}

theorem callHost_listens (hreact : react.Listens) (answer : Request I → Act H I Answer) :
    Invoke.Listens (callHost react answer) := by
  intro l n w r w' h
  obtain ⟨host', d, hscript⟩ := hreact w.host l n
  obtain ⟨rfl, rfl⟩ := (yields_callHost_of_finish hscript).mp h
  refine ⟨⟨d, rfl⟩, rfl, rfl, ?_⟩
  exact World.reception_eq rfl rfl rfl rfl rfl (List.forall_mem_singleton.mpr rfl)

theorem command_carries (hhandles : react.Handles) (halone : alone → react.Unobtrusive)
    {answer : Request I → Act H I Answer}
    (hanswer : ∀ r, (r.drives = false ∧ (alone → r.publishes = false)) →
      Keeps (Carries alone) (answer r)) (handler : Handle) (arguments : List Datum) :
    Keeps (Carries alone) (callHost react answer (.command handler arguments)) := by
  refine callHost_keeps hanswer (q := fun _ => True) fun host => ?_
  by_cases ha : alone
  · exact (halone ha host _).mono (fun r hr => ⟨hr.1, fun _ => hr.2⟩) fun _ _ => trivial
  · exact (hhandles host handler arguments).mono (fun r hr => ⟨hr, fun h => absurd h ha⟩)
      fun _ _ => trivial

theorem exec_carries (hlistens : react.Listens) (hhandles : react.Handles)
    (halone : alone → react.Unobtrusive) (fuel : Nat) {r : Request I} (hdrives : r.drives = false)
    (hpublishes : alone → r.publishes = false) : Keeps (Carries alone) (exec ip react fuel r) := by
  induction fuel generalizing r with
  | zero => exact keeps_endless
  | succ fuel ih =>
      exact perform_carries (callHost_listens hlistens _)
        (command_carries hhandles halone fun r hr => ih hr.1 hr.2) ip fuel hdrives hpublishes

theorem calls_serve (hlistens : react.Listens) (hhandles : react.Handles)
    (halone : alone → react.Unobtrusive) {fuel : Nat}
    (hfunction : ∀ handle arguments,
      Keeps (OnStock Eq) (calls ip react fuel (.function handle arguments))) :
    Invoke.Serves alone (calls ip react fuel) where
  relays := calls_keep_besides ip react fuel
  attends := callHost_attends hlistens.attends _
  listens := callHost_listens hlistens _
  function := hfunction
  functionAlone ha _ _ :=
    callHost_keeps (fun _ hr => exec_carries hlistens hhandles (fun _ => halone ha) fuel hr.1
      fun _ => hr.2) fun host => halone ha host _
  command := command_carries hhandles halone fun _ hr =>
    exec_carries hlistens hhandles halone fuel hr.1 hr.2

end

/-! ## What scripts ask for -/

section
variable {invoke : Invoke H I} (hinvoke : invoke.Serves alone) {w w' : World H I} (hw : w.Wired)
include hinvoke hw

theorem write_carried {slot : Nat} {name value : Datum} {r : Except Fault Datum}
    (h : Yields (serve invoke slot (.write name value)) w r w') :
    (∃ n, acceptedValue? w.settings (name, value) = some n ∧ r = .ok .nothing ∧
      Carried alone [n] [n] w w') ∨
    acceptedValue? w.settings (name, value) = none ∧ (∃ f, r = .error f) ∧
      Carried alone [] [] w w' := by
  obtain ⟨y, hwrite, rfl⟩ := yields_bind_pure.mp h
  obtain ⟨x, u, hset, hstock, haccepted⟩ :=
    setValue_attends hinvoke.attends hw.writeStub name value
  obtain ⟨rfl, rfl⟩ := hwrite.unique hset
  have hkeeps : Keeps (Carries True) (setValue invoke name value) :=
    setValue_keeps (storing_carries hinvoke.listens) name value
  obtain ⟨-, changes, sent, hcarried⟩ := hkeeps _ _ _ hset hw.announces
  obtain rfl := hcarried.alone trivial
  obtain rfl := Stock.changeAll_injective (hcarried.stock.symm.trans hstock)
  cases hn : acceptedValue? w.settings (name, value) with
  | some n =>
      rw [hn] at haccepted hcarried
      obtain rfl := haccepted.mpr rfl
      exact .inl ⟨n, rfl, rfl, hcarried.stock, hcarried.published, hcarried.sublist, fun _ => rfl⟩
  | none =>
      rw [hn] at haccepted hcarried
      refine .inr ⟨rfl, ?_, hcarried.stock, hcarried.published, hcarried.sublist, fun _ => rfl⟩
      cases y with
      | ok _ => cases haccepted.mp rfl
      | error f => exact ⟨f, rfl⟩

theorem call_carried {slot : Nat} {function : Datum}
    {arguments : Except Fault (List Datum)} {r : Except Fault Datum}
    (h : Yields (serve invoke slot (.call function arguments)) w r w') :
    ∃ own, Carried alone [] own w w' := by
  have hstock : w'.stock = w.stock :=
    (serve_call_keeps_of_functions hinvoke.function slot function arguments w r w' h).symm
  obtain ⟨own, hown⟩ :=
    (serve_keeps (R := Relays) hinvoke.relays slot (.call function arguments) w r w' h).published
  refine ⟨own, hstock, hown.symm, List.nil_sublist _, fun ha => ?_⟩
  have hkeeps := serve_call_keeps_of_functions (hinvoke.functionAlone ha) slot function arguments
  obtain ⟨-, changes, sent, hcarried⟩ := hkeeps w r w' h hw.announces
  obtain rfl := hcarried.changes_eq_nil hstock
  refine List.append_cancel_left (hown.trans (hcarried.published.trans ?_))
  rw [hcarried.alone trivial]

end

end Session

end Parley
