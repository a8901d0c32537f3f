import Parley.Proofs.Run

/-!
# Operations that come to an end

Two things can go on for ever: a callback that asks for what calls it again, and a pump.
Nothing else can.  So the operations that pass a batch on end from every world if the calls
of the host that they make do, and a callback ends if what it asks for does.  Starting and
continuing are not among them, as they pump.  Loading programs and setting up call no host,
so they end whatever the host is.
-/

namespace Parley

/-- Is it a call by which a batch is passed on: of a sink, of a listener in its place, or of a
command's handler? -/
def Callback.passes : Callback → Bool
  | .sink _ | .listener _ (.told _) | .command .. => true
  | _ => false

namespace Session

open Act

variable {H I L : Type}

theorem outcomeOf_ends (f : Fault) : Ends (outcomeOf f : Act H I Outcome) := by
  unfold outcomeOf
  split
  · exact ends_pure _
  · exact .bind (ends_modify _) fun _ => ends_pure _

/-! ## The interpreters -/

theorem instance_ends (slot : Nat) : Ends (instance? slot : Act H I (Instance I)) := by
  refine .bind ends_get ?_
  intro w
  split
  · exact ends_pure _
  · exact ends_throw _

theorem observe_ends (ip : Interpreter I L) (slot : Nat) (c : EngineCall) :
    Ends (observe ip slot c : Act H I Unit) := by
  refine .bind (instance_ends slot) ?_
  intro i
  split
  · exact ends_modify _
  · exact ends_pure _

theorem select_ends (ip : Interpreter I L) (choice : Option Choice) :
    Ends (select ip choice : Act H I Outcome) := by
  refine .bind ends_get ?_
  intro w
  split
  · exact ends_pure _
  · split
    · exact ends_pure _
    · refine .bind (observe_ends ip _ _) fun _ => .bind (instance_ends _) ?_
      intro i
      refine .bind (ends_modify _) ?_
      intro _
      split
      · exact ends_pure _
      · split
        · exact .bind (ends_modify _) fun _ => outcomeOf_ends _
        · exact ends_throw _

/-! ## Loading programs -/

theorem held_ends : Ends (held : Act H I Nat) := by
  refine .bind ends_get ?_
  intro w
  split
  · exact ends_pure _
  · exact ends_throw _

theorem prepare_ends (p : Program) : Ends (prepare p : Act H I Program) := by
  refine .bind ends_get ?_
  intro w
  split
  · exact ends_pure _
  · exact .bind (ends_modify _) fun _ => ends_of _

theorem addProgram_ends (ip : Interpreter I L) (p : Program) :
    Ends (addProgram ip p : Act H I Unit) :=
  .bind held_ends fun _ => .bind (instance_ends _) fun _ => .bind (ends_modify _) fun _ =>
    .bind (ends_of _) fun _ => .bind (ends_modify _) fun _ => observe_ends ip _ _

theorem loadOne_ends (ip : Interpreter I L) (p : Program) (index : Nat) :
    Ends (loadOne ip p index : Act H I Nat) := by
  have hskip : ∀ (f : Fault) (shown : Program), Ends (if isLoadFault f then do
      log (.loadFailed f index shown)
      return 0
    else throw f : Act H I Nat) := by
    intro f shown
    split
    · exact .bind (ends_modify _) fun _ => ends_pure _
    · exact ends_throw _
  refine .bind (prepare_ends p).attempt ?_
  intro ready
  cases ready with
  | error f => exact hskip f p
  | ok ready =>
      refine .bind (addProgram_ends ip ready).attempt ?_
      intro loaded
      cases loaded with
      | error f => exact hskip f ready
      | ok _ => exact ends_pure _

theorem unload_ends (ip : Interpreter I L) (slot : Nat) :
    Ends (unload ip slot : Act H I Unit) :=
  .bind (observe_ends ip _ _) fun _ => ends_modify _

theorem build_ends (ip : Interpreter I L) (programs : Option (List Program)) :
    Ends (build ip programs : Act H I Unit) := by
  have hreload : Ends (reload ip : Act H I Unit) := by
    refine .bind ends_get ?_
    intro w
    split
    · exact ends_modify _
    · exact .bind (unload_ends ip _) fun _ => .bind ends_get fun _ =>
        .bind (ends_mapM (fun _ => loadOne_ends ip _ _) _) fun _ => ends_modify _
  cases programs with
  | none => exact hreload
  | some ps => exact .bind (ends_modify _) fun _ => hreload

theorem ensureProvider_ends : Ends (ensureProvider : Act H I Unit) := by
  refine .bind ends_get ?_
  intro w
  split
  · exact .bind (ends_forM _ fun _ _ => ends_modify _) fun _ => ends_modify _
  · exact ends_pure _

theorem setup_ends (ip : Interpreter I L) (factory : Option I) :
    Ends (setup ip factory : Act H I Unit) := by
  have hmake : Ends (setup ip none : Act H I Unit) := by
    refine .bind ends_get ?_
    intro w
    split
    · exact ends_throw _
    · exact .bind ensureProvider_ends fun _ => .bind (ends_modify _) fun _ =>
        .bind (ends_modify _) fun _ => .bind (ends_modify _) fun _ => build_ends ip none
  cases factory with
  | none => exact hmake
  | some core => exact .bind (ends_modify _) fun _ => hmake

/-! ## Passing a batch on -/

section
variable {invoke : Invoke H I} (hinvoke : ∀ c, c.passes = true → Ends (invoke c))
include hinvoke

theorem bring_ends (n : Notification) : Ends (bring invoke n) := by
  refine .bind ends_get ?_
  intro w
  split
  · exact ends_pure _
  · exact (hinvoke _ rfl).discard
  · exact .bind (ends_modify _) fun _ =>
      .bind ends_get fun _ => ends_forM _ fun _ _ => (hinvoke _ rfl).discard

theorem notify_ends (n : Notification) : Ends (notify invoke n) :=
  .bind (ends_modify _) fun _ => .bind (bring_ends hinvoke n) fun _ => ends_modify _

theorem dispatch_ends (name : Datum) (parameters : List Datum) :
    Ends (dispatch invoke name parameters) := by
  have hhandler : Ends (commandHandler name : Act H I (Option Handle)) :=
    .bind (ends_checkKey name) fun _ => .bind ends_get fun _ => ends_pure _
  refine .bind hhandler ?_
  intro handler
  split
  · exact .bind (ends_modify _) fun _ => ends_pure _
  · refine .bind (ends_of _) fun _ => .bind (hinvoke _ rfl).attempt ?_
    intro result
    split
    · exact ends_pure _
    · split
      · exact .bind (ends_modify _) fun _ => ends_pure _
      · exact ends_throw _

theorem process_ends (place : Nat) (e : Event) : Ends (process invoke place e) := by
  cases e with
  | line | options | completed => exact .bind (notify_ends hinvoke _) fun _ => ends_modify _
  | command name parameters => exact (dispatch_ends hinvoke _ _).discard
  | nodeStarted | nodeCompleted | hints => exact notify_ends hinvoke _
  | plain | alien => exact ends_modify _

theorem processAll_ends (events : List Event) : Ends (processAll invoke events) :=
  .bind ends_get fun _ => .bind (ends_modify _) fun _ =>
    ends_forM _ fun e _ => process_ends hinvoke _ e

theorem stop_ends (ip : Interpreter I L) : Ends (stop ip invoke) := by
  have hend : ∀ place, Ends (do
      flag false (.settled place)
      return .ok : Act H I Outcome) := fun _ =>
    .bind (ends_modify _) fun _ => ends_pure _
  refine .bind ends_get fun w => .bind (ends_modify _) fun _ => .bind ends_get fun w' => ?_
  split
  · exact .bind (observe_ends ip _ _) fun _ => .bind (instance_ends _) fun i =>
      .bind (ends_modify _) fun _ => .bind (ends_of _) fun events =>
        .bind (processAll_ends hinvoke events) fun _ => hend _
  · exact hend _

theorem cleanup_ends (ip : Interpreter I L) : Ends (cleanup ip invoke) := by
  refine .bind ends_get ?_
  intro w
  split
  · exact .bind (stop_ends hinvoke ip).discard fun _ => .bind held_ends fun _ =>
      .bind (unload_ends ip _) fun _ => ends_modify _
  · exact ends_modify _

end

/-! ## Callbacks -/

theorem runScript_ends {p : Request I → Prop} {q : Except Fault Datum → Prop}
    {answer : Request I → Act H I Answer} (hanswer : ∀ r, p r → Ends (answer r))
    {s : Script H I} (hs : s.Abides p q) : Ends (runScript answer s) := by
  induction s with
  | finish host result => exact .bind (ends_modify _) fun _ => ends_of _
  | request host r next ih =>
      obtain ⟨hr, hnext⟩ := hs
      exact .bind (ends_modify _) fun _ => .bind (hanswer r hr).attempt fun a =>
        .bind (ends_modify _) fun _ => .bind ends_get fun _ => ih _ _ (hnext _ _)

theorem callHost_ends {p : Request I → Prop} {q : Except Fault Datum → Prop}
    {react : Host H I} {answer : Request I → Act H I Answer} (hanswer : ∀ r, p r → Ends (answer r))
    {c : Callback} (hreact : ∀ host, (react host c).Abides p q) :
    Ends (callHost react answer c) :=
  .bind (ends_modify _) fun _ => .bind ends_get fun _ => runScript_ends hanswer (hreact _)

end Session

end Parley
