import Parley.Proofs.Attempting

/-!
# What is left of a change

With attentive listeners nothing becomes of a change but the change: the listeners' calls are in
the journal, the notice is among those announced and sent, and the host has a state of its own.
`World.informed` is the whole world after a row of notices, so that what an operation leaves alone
need not be listed.

Accepted writes come to that, one and in a batch, from either side.
-/

namespace Parley

namespace World

variable {H I : Type}

/-- The world after calls of which nothing came, but for the host. -/
def called (w : World H I) (host : H) (cs : List Callback) : World H I :=
  { w with host, journal := w.journal ++ cs.map .called }

/-- The calls that tell the listeners of a notice. -/
def calling (w : World H I) (n : Notice) : List Callback :=
  (w.bus.listeners n.kind).map fun l => .listener l n

/-- The world after changes by these notices, when all are told and do nothing.  What becomes of
the host is its own matter. -/
def informed (w : World H I) (ns : List Notice) (host : H) : World H I :=
  { w with
    host
    store := ns.foldl (fun t n => n.play t) w.store
    announced := w.announced ++ ns
    published := w.published ++ if w.announces then ns else []
    journal := w.journal ++ if w.announces then (ns.flatMap w.calling).map .called else [] }

theorem informed_nil (w : World H I) : w.informed [] w.host = w := by
  simp [informed]

theorem informed_informed (w : World H I) (ns ms : List Notice) (host host' : H) :
    (w.informed ns host).informed ms host' = w.informed (ns ++ ms) host' := by
  have hcalling : (w.informed ns host).calling = w.calling := rfl
  have hannounces : (w.informed ns host).announces = w.announces := rfl
  rw [informed, hcalling, hannounces]
  cases h : w.announces <;> simp [informed, h]

end World

/-- Told of a change, the host does nothing but change its own state. -/
def Invoke.Hears {H I : Type} (invoke : Invoke H I) : Prop :=
  ∀ l n, n.isChange = true → ∀ w,
    ∃ host d, Act.Yields (invoke (.listener l n)) w (.ok d) (w.called host [.listener l n])

namespace Session

open Act

variable {H I L : Type}

theorem callHost_hears {react : Host H I} (hreact : react.Attends)
    (answer : Request I → Act H I Answer) : Invoke.Hears (callHost react answer) := by
  intro l n hn w
  obtain ⟨host, d, hscript⟩ := hreact w.host l n hn
  exact ⟨host, d, (yields_callHost_of_finish hscript).mpr ⟨rfl, rfl⟩⟩

section
variable {invoke : Invoke H I} (hinvoke : invoke.Hears)
include hinvoke

theorem listeners_hear {n : Notice} (hn : n.isChange = true) (ls : List Listener) (w : World H I) :
    ∃ host, Yields (ls.forM fun l => discard (invoke (.listener l n))) w (.ok ⟨⟩)
      (w.called host (ls.map fun l => .listener l n)) := by
  induction ls generalizing w with
  | nil => exact ⟨w.host, yields_pure.mpr ⟨rfl, by simp [World.called]⟩⟩
  | cons l ls ih =>
      obtain ⟨host₁, d, hcall⟩ := hinvoke l n hn w
      obtain ⟨host, hrest⟩ := ih (w.called host₁ [.listener l n])
      have hfirst : Yields (discard (invoke (.listener l n))) w (.ok ⟨⟩)
          (w.called host₁ [.listener l n]) := yields_discard.mpr ⟨_, hcall, rfl⟩
      refine ⟨host, yields_bind.mpr (.inl ⟨_, _, hfirst, ?_⟩)⟩
      simpa [World.called] using hrest

theorem changed_informs {f : World H I → World H I} {n : Notice} (hn : n.isChange = true)
    (hf : ∀ w, ({ f w with announced := (f w).announced ++ [n] } : World H I) = w.tell n)
    (w : World H I) :
    ∃ host, Yields (modify f >>= fun _ => announce invoke n) w (.ok ()) (w.informed [n] host) := by
  have hannounce : ∀ {r : Except Fault Unit} {w' : World H I},
      Yields (modify f >>= fun _ => announce invoke n) w r w' ↔
        Yields (do if (← get).announces then publish invoke n) (w.tell n) r w' := by
    intro r w'
    unfold announce
    rw [yields_modify_bind, yields_modify_bind, hf]
  cases hannounces : w.announces with
  | false =>
      refine ⟨w.host, hannounce.mpr (yields_get_bind.mpr ?_)⟩
      rw [if_neg (by simp [World.tell, hannounces])]
      exact yields_pure.mpr ⟨rfl, by simp [World.informed, World.tell, hannounces]⟩
  | true =>
      obtain ⟨host, htold⟩ := listeners_hear hinvoke hn (w.bus.listeners n.kind)
        { w.tell n with published := w.published ++ [n] }
      refine ⟨host, hannounce.mpr (yields_get_bind.mpr ?_)⟩
      rw [if_pos (show (w.tell n).announces = true from hannounces)]
      refine yields_modify_bind.mpr (yields_get_bind.mpr ?_)
      have hinformed : w.informed [n] host =
          ({ w.tell n with published := w.published ++ [n] } : World H I).called host
            ((w.bus.listeners n.kind).map fun l => .listener l n) := by
        simp [World.informed, World.tell, World.called, World.calling, hannounces]
      rw [hinformed]
      exact htold

theorem clearVariables_informs (w : World H I) :
    ∃ host, Yields (clearVariables invoke) w (.ok ()) (w.informed [.storeCleared] host) :=
  changed_informs hinvoke rfl (fun _ => rfl) w

theorem assign_informs (name value : Datum) (w : World H I) :
    ∃ host, Yields (assign invoke name value) w (.ok ())
      (w.informed [.variableChanged name value] host) :=
  changed_informs hinvoke rfl (fun _ => rfl) w

end

/-! ## Accepted writes -/

theorem stored_of_normal {d e : Datum} (h : d.normal? = some e) : stored d = .ok e := by
  rcases stored_cases d with ⟨x, hnormal, -, hstored⟩ | ⟨hnone, -⟩
  · cases hnormal.symm.trans h
    exact hstored
  · cases hnone.symm.trans h

theorem accepted?_eq_some {s : Settings} {e : Datum × Datum} {n : Notice} :
    accepted? s e = some n ↔ isValidName s e.1 = .ok true ∧
      ∃ d, e.2.normal? = some d ∧ n = .variableChanged e.1 d := by
  unfold accepted?
  cases isValidName s e.1 with
  | error f => simp
  | ok valid =>
      cases valid with
      | false => simp
      | true => simp [Option.map_eq_some_iff, @eq_comm _ n]

theorem setVariable_of_assign {invoke : Invoke H I} {w w' : World H I}
    (hstub : w.writeStub = none) {name value d : Datum}
    (hvalid : isValidName w.settings name = .ok true) (hstored : stored value = .ok d)
    (hassign : Yields (assign invoke name d) w (.ok ()) w') :
    Yields (setVariable invoke name value) w (.ok .ok) w' := by
  unfold setVariable
  simp only [yields_get_bind, hstub, hvalid, yields_of_ok_bind, if_true, hstored]
  exact yields_bind_pure.mpr ⟨_, hassign, rfl⟩

theorem setValue_of_assign {invoke : Invoke H I} {w w' : World H I} (hstub : w.writeStub = none)
    {name value d : Datum} (hvalid : isValidName w.settings name = .ok true)
    (hscript : value.isScript = true) (hnormal : value.normal? = some d)
    (hassign : Yields (assign invoke name d) w (.ok ()) w') :
    Yields (setValue invoke name value) w (.ok ()) w' := by
  have hhosted := Datum.hosted_of_normal hnormal
  have hset : Yields (setVariable invoke name d) w (.ok .ok) w' :=
    setVariable_of_assign hstub hvalid (stored_of_normal hhosted.normal) hassign
  unfold setValue
  rw [Datum.toHost_eq_ok.mpr ⟨hscript, hnormal⟩]
  exact yields_of_ok_bind.mpr
    (yields_bind.mpr (.inl ⟨_, _, hset, yields_pure.mpr ⟨rfl, rfl⟩⟩))

section
variable {invoke : Invoke H I} (hinvoke : invoke.Hears) {w : World H I} {s : Settings}
  (hw : w.settings = s) (hstub : w.writeStub = none) {entries : List (Datum × Datum)}
  {ns : List Notice} (haccepted : List.Forall₂ (fun e n => accepted? s e = some n) entries ns)
include hinvoke hw hstub haccepted

/-- Batches whose entries are all accepted come to the same from either side. -/
theorem batches_inform : ∃ host,
    Yields (setVariables invoke entries) w (.ok (entries.map fun e => (e.1, .ok)))
      (w.informed ns host) ∧
    ((∀ e ∈ entries, e.2.isScript = true) →
      Yields (setValues invoke entries) w (.ok ()) (w.informed ns host)) := by
  induction haccepted generalizing w with
  | nil =>
      have hnothing := w.informed_nil
      exact ⟨w.host, yields_pure.mpr ⟨rfl, hnothing⟩, fun _ => yields_pure.mpr ⟨rfl, hnothing⟩⟩
  | @cons e n entries ns hn _ ih =>
      obtain ⟨hvalid, d, hnormal, rfl⟩ := accepted?_eq_some.mp hn
      rw [← hw] at hvalid
      obtain ⟨host₁, hassign⟩ := assign_informs hinvoke e.1 d w
      obtain ⟨host, hvariables, hvalues⟩ := ih (w := w.informed _ host₁) hw hstub
      rw [World.informed_informed] at hvariables hvalues
      refine ⟨host, ?_, ?_⟩
      · have hset := setVariable_of_assign hstub hvalid (stored_of_normal hnormal) hassign
        have hfirst : Yields (do return (e.1, ← setVariable invoke e.1 e.2)) w (.ok (e.1, .ok))
            (w.informed _ host₁) := yields_bind_pure.mpr ⟨_, hset, rfl⟩
        unfold setVariables
        rw [List.mapM_cons]
        refine yields_bind.mpr (.inl ⟨_, _, hfirst, ?_⟩)
        exact yields_bind_pure.mpr ⟨_, hvariables, rfl⟩
      · intro hscript
        obtain ⟨he, hentries⟩ := List.forall_mem_cons.mp hscript
        have hset := setValue_of_assign hstub hvalid he hnormal hassign
        exact yields_bind.mpr (.inl ⟨_, _, hset, hvalues hentries⟩)

theorem restore_informs :
    ∃ host, Yields (restore invoke entries) w (.ok ()) (w.informed (.storeCleared :: ns) host) := by
  obtain ⟨host₁, hclear⟩ := clearVariables_informs hinvoke w
  obtain ⟨host, hset, -⟩ :=
    batches_inform hinvoke (w := w.informed [.storeCleared] host₁) hw hstub haccepted
  rw [World.informed_informed] at hset
  exact ⟨host, yields_bind.mpr (.inl ⟨_, _, hclear, yields_discard.mpr ⟨_, hset, rfl⟩⟩)⟩

end

end Session

end Parley
