import Parley.Proofs.Variables

/-!
# Operations outside the runner

One lemma for each operation: it keeps a preorder that overlooks everything but the
course, the stock and the reception if calling the host does.  Requests that neither drive
the runner nor write variables keep any such preorder (`perform_keeps_of_not_writes`); those
that write also ask that a change of the variables, announced, be allowed
(`perform_keeps_of_not_drives`).
-/

namespace Parley

/-- Is it a request by which the host is called, besides those that drive the runner and those that
write variables? -/
def Request.calls {I : Type} : Request I → Bool
  | .publish _ | .dispatch .. => true
  | _ => false

namespace Session

open Act

variable {H I L α : Type} {R : World H I → World H I → Prop} [Overlooks R]

/-! ## Operations that call nobody -/

theorem registerCommand_keeps (name : Datum) (handler : Option Handle) :
    Keeps R (registerCommand name handler : Act H I Unit) :=
  .bind (keeps_checkKey name) fun _ => .bind keeps_get fun _ =>
    .bind (keeps_modify fun _ => ⟨rfl, rfl, rfl⟩) fun _ => keeps_log _

theorem removeCommand_keeps (name : Datum) : Keeps R (removeCommand name : Act H I Bool) :=
  .bind (keeps_checkKey name) fun _ => .bind keeps_get fun _ =>
    .bind (keeps_modify fun _ => ⟨rfl, rfl, rfl⟩) fun _ => keeps_pure _

theorem commandHandler_keeps (name : Datum) :
    Keeps R (commandHandler name : Act H I (Option Handle)) :=
  .bind (keeps_checkKey name) fun _ => .bind keeps_get fun _ => keeps_pure _

theorem isCommand_keeps (name : Datum) : Keeps R (isCommand name : Act H I Bool) :=
  .bind (keeps_checkKey name) fun _ => .bind keeps_get fun _ => keeps_pure _

theorem runStandard_keeps (f : Standard) (arguments : List Datum) :
    Keeps R (runStandard f arguments : Act H I Datum) := by
  refine .bind keeps_get fun _ => .bind (keeps_modify fun w => ⟨rfl, rfl, ?_⟩) fun _ => keeps_of _
  refine World.reception_eq rfl rfl rfl rfl rfl ?_
  intro x hx
  obtain ⟨_, -, rfl⟩ := List.mem_map.mp hx
  rfl

theorem outcomeOf_keeps (f : Fault) : Keeps R (outcomeOf f : Act H I Outcome) := by
  unfold outcomeOf
  split
  · exact keeps_pure _
  · exact .bind (keeps_log _) fun _ => keeps_pure _

theorem outcomeOf_yields {f : Fault} {w w' : World H I} {r : Except Fault Outcome}
    (h : Yields (outcomeOf f) w r w') : r = .ok (.ofClass f.cls) := by
  unfold outcomeOf at h
  split at h
  · next o ho =>
    obtain ⟨rfl, -⟩ := yields_pure.mp h
    rw [Outcome.ofClass, ho]
    rfl
  · next hnone =>
    have hpure := yields_modify_bind.mp h
    obtain ⟨rfl, -⟩ := yields_pure.mp hpure
    rw [Outcome.ofClass, hnone]
    rfl

theorem observe_keeps (ip : Interpreter I L) (slot : Nat) (c : EngineCall) :
    Keeps R (observe ip slot c : Act H I Unit) := by
  refine .bind (keeps_instance slot) ?_
  intro i
  split
  · exact keeps_record rfl
  · exact keeps_pure _

/-! ### Texts and locales -/

theorem provider_keeps : Keeps R (provider : Act H I Provider) := by
  refine .bind keeps_get ?_
  intro w
  split
  · exact keeps_pure _
  · exact keeps_throw _

theorem modifyServer_keeps (f : CatalogServer → CatalogServer) :
    Keeps R (modifyServer f : Act H I Unit) := keeps_modify fun _ => ⟨rfl, rfl, rfl⟩

theorem setLocale_keeps (locale : Datum) : Keeps R (setLocale locale : Act H I Unit) :=
  .bind (modifyServer_keeps _) fun _ => keeps_log _

theorem setLanguage_keeps (locale : Datum) : Keeps R (setLanguage locale : Act H I Unit) := by
  refine .bind provider_keeps.discard ?_
  intro _
  split
  · exact keeps_pure _
  · exact setLocale_keeps _

theorem language_keeps : Keeps R (language : Act H I Datum) :=
  .bind provider_keeps.discard fun _ => .bind keeps_get fun _ => keeps_pure _

theorem getText_keeps (id : Datum) : Keeps R (getText id : Act H I Datum) :=
  .bind provider_keeps fun _ => .bind keeps_get fun _ => .bind (keeps_of _) fun _ => keeps_pure _

theorem addPhrasebook_keeps (locale : Datum) (t : Phrasebook) :
    Keeps R (addPhrasebook locale t : Act H I Unit) :=
  .bind provider_keeps.discard fun _ => .bind (keeps_checkKey locale) fun _ =>
    .bind keeps_get fun _ => .bind (keeps_forM _ fun _ _ => keeps_log _) fun _ =>
      modifyServer_keeps _

theorem removePhrasebook_keeps (locale : Datum) :
    Keeps R (removePhrasebook locale : Act H I Bool) :=
  .bind (keeps_checkKey locale) fun _ => .bind keeps_get fun _ =>
    .bind (modifyServer_keeps _) fun _ => keeps_pure _

theorem hasPhrasebook_keeps (locale : Datum) : Keeps R (hasPhrasebook locale : Act H I Bool) :=
  .bind (keeps_checkKey locale) fun _ => .bind keeps_get fun _ => keeps_pure _

theorem phrasebook_keeps (locale : Datum) (whenMissing : ErrorClass) :
    Keeps R (phrasebook locale whenMissing : Act H I Phrasebook) := by
  refine .bind (keeps_checkKey locale) fun _ => .bind keeps_get ?_
  intro w
  split
  · exact keeps_pure _
  · exact keeps_throw _

theorem addEntry_keeps (locale message text : Datum) :
    Keeps R (addEntry locale message text : Act H I Unit) :=
  .bind (phrasebook_keeps _ _) fun _ => .bind (keeps_of _) fun _ => modifyServer_keeps _

theorem hasEntry_keeps (locale message : Datum) :
    Keeps R (hasEntry locale message : Act H I Bool) :=
  .bind (phrasebook_keeps _ _) fun _ => keeps_of _

theorem addFallback_keeps (locale : Datum) (t : Phrasebook) :
    Keeps R (addFallback locale t : Act H I Unit) :=
  .bind (phrasebook_keeps _ _) fun _ => modifyServer_keeps _

theorem clearServer_keeps : Keeps R (clearServer : Act H I Unit) :=
  .bind keeps_get fun _ => .bind (keeps_of _) fun _ => modifyServer_keeps _

/-! ### Questions to the interpreter -/

theorem ask_keeps (whenNone : α) (question : I → α) :
    Keeps R (ask whenNone question : Act H I α) := by
  refine .bind keeps_get ?_
  intro w
  split
  · exact keeps_pure _
  · exact .bind (keeps_instance _) fun _ => keeps_pure _

theorem nodeExists_keeps (ip : Interpreter I L) (node : Datum) :
    Keeps R (nodeExists ip node : Act H I Bool) :=
  .bind (ask_keeps _ _) fun _ => keeps_of _

theorem tagsOf_keeps (ip : Interpreter I L) (node : Datum) :
    Keeps R (tagsOf ip node : Act H I (List Datum)) := by
  refine .bind (ask_keeps _ _) fun _ => .bind (keeps_of _) ?_
  intro tags
  split
  · exact keeps_pure _
  · exact .bind (keeps_log _) fun _ => keeps_pure _

theorem registerFunction_keeps (name : Datum) (handle : Handle) (returns : String) :
    Keeps R (registerFunction name handle returns : Act H I Unit) := by
  refine .bind (keeps_of _) fun f => .bind keeps_get ?_
  intro w
  split
  · exact keeps_log _
  · exact .bind (keeps_checkKey name) fun _ =>
      .bind (keeps_modifyInstance _ fun _ => rfl) fun _ => keeps_log _

theorem functionNames_keeps : Keeps R (functionNames : Act H I (List Datum)) :=
  .bind keeps_held fun _ => .bind (keeps_instance _) fun _ => keeps_pure _

theorem stopCount_keeps (ip : Interpreter I L) : Keeps R (stopCount ip : Act H I Nat) := by
  refine .bind keeps_held fun _ => .bind (keeps_instance _) ?_
  intro i
  split
  · exact keeps_pure _
  · exact keeps_throw _

/-! ## Setting up and loading programs

A program changes the list of programs and the states of interpreters, and these only
by what an interpreter does to load or to unload. -/

theorem ensureProvider_keeps : Keeps R (ensureProvider : Act H I Unit) := by
  refine .bind keeps_get ?_
  intro w
  split
  · exact .bind (keeps_forM _ fun _ _ => keeps_log _) fun _ => keeps_modify fun _ => ⟨rfl, rfl, rfl⟩
  · exact keeps_pure _

theorem prepare_keeps (p : Program) : Keeps R (prepare p : Act H I Program) := by
  refine .bind keeps_get ?_
  intro w
  split
  · exact keeps_pure _
  · exact .bind (keeps_record rfl) fun _ => keeps_of _

section
variable {ip : Interpreter I L} (hloads : AllowsLoading ip R)
include hloads

theorem addProgram_keeps (p : Program) : Keeps R (addProgram ip p : Act H I Unit) := by
  refine .bind keeps_held ?_
  intro slot w r w' h
  rcases yields_bind.mp h with ⟨i, w₁, hinstance, hload⟩ | ⟨e, hinstance, -⟩
  · obtain ⟨⟨_, hi, hr⟩ | ⟨-, hr⟩, rfl⟩ := yields_instance.mp hinstance <;> cases hr
    have hrest : Keeps R (do
        of (ip.load p i.core).1
        modifyInstance slot fun i => { i with loads := i.loads + 1 }
        observe ip slot (.loaded (i.loads + 1)) : Act H I Unit) :=
      .bind (keeps_of _) fun _ => .bind (keeps_modifyInstance _ fun _ => rfl) fun _ =>
        observe_keeps ip _ _
    rcases yields_bind.mp hload with ⟨_, w₂, hset, htail⟩ | ⟨e, hset, -⟩
    · obtain ⟨-, hcourse, hstock, hreception⟩ := yields_setCore hset
      refine trans_of R ?_ (hrest w₂ r w' htail)
      exact hloads.load p (World.course_cores.mpr ⟨i, hi, rfl⟩) hcourse hstock hreception
    · cases (yields_setCore hset).1
  · exact keeps_instance slot _ _ _ hinstance

theorem loadOne_keeps (p : Program) (index : Nat) :
    Keeps R (loadOne ip p index : Act H I Nat) := by
  have hskip : ∀ (f : Fault) (shown : Program), Keeps R (if isLoadFault f then do
      log (.loadFailed f index shown)
      return 0
    else throw f : Act H I Nat) := by
    intro f shown
    split
    · exact .bind (keeps_log _) fun _ => keeps_pure _
    · exact keeps_throw _
  refine .bind (prepare_keeps p).attempt ?_
  intro ready
  cases ready with
  | error f => exact hskip f p
  | ok ready =>
      refine .bind (addProgram_keeps hloads ready).attempt ?_
      intro loaded
      cases loaded with
      | error f => exact hskip f ready
      | ok _ => exact keeps_pure _

theorem unload_keeps (slot : Nat) : Keeps R (unload ip slot : Act H I Unit) :=
  .bind (observe_keeps ip _ _) fun _ => keeps_modify_of fun w =>
    hloads.unload slot (World.course_modify w slot _ ip.unload fun _ => rfl) rfl rfl

theorem reload_keeps : Keeps R (reload ip : Act H I Unit) := by
  refine .bind keeps_get ?_
  intro w
  split
  · exact keeps_log _
  · exact .bind (unload_keeps hloads _) fun _ => .bind keeps_get fun _ =>
      .bind (keeps_mapM (fun _ => loadOne_keeps hloads _ _) _) fun _ => keeps_log _

theorem build_keeps (programs : Option (List Program)) :
    Keeps R (build ip programs : Act H I Unit) := by
  cases programs with
  | none => exact reload_keeps hloads
  | some ps =>
      exact .bind (keeps_modify_of fun w => hloads.programs ps rfl rfl rfl) fun _ =>
        reload_keeps hloads

theorem clearPrograms_keeps : Keeps R (clearPrograms ip : Act H I Unit) := by
  refine .bind keeps_get ?_
  intro w
  split
  · exact keeps_pure _
  · exact .bind (unload_keeps hloads _) fun _ =>
      keeps_modify_of fun w => hloads.programs [] rfl rfl rfl

end

/-! ## Requests that call nobody -/

/-- A request that neither drives the runner nor writes variables nor calls the host keeps any such
preorder. -/
theorem perform_keeps_of_not_calls (ip : Interpreter I L) (fuel : Nat) (invoke : Invoke H I)
    (r : Request I) (hdrives : r.drives = false) (hwrites : r.writes = false)
    (hcalls : r.calls = false) : Keeps R (perform ip fuel invoke r) := by
  cases r with
  | own result => exact only_keeps (keeps_of _)
  | subscribe | unsubscribe | clearBus | unregister =>
      exact only_keeps (keeps_modify fun _ => ⟨rfl, rfl, rfl⟩)
  | getVariable | hasVariable | isValidName | variableCount | saveState | getValue | allValues =>
      exact perform_keeps_of_reads ip fuel invoke rfl
  | fallback => exact .bind keeps_get fun _ => keeps_pure _
  | registerCommand name handler => exact only_keeps (registerCommand_keeps name handler)
  | removeCommand name => exact .bind (removeCommand_keeps name) fun _ => keeps_pure _
  | commandHandler name => exact .bind (commandHandler_keeps name) fun _ => keeps_pure _
  | isCommand name => exact .bind (isCommand_keeps name) fun _ => keeps_pure _
  | clearCommands => exact only_keeps (keeps_modify fun _ => ⟨rfl, rfl, rfl⟩)
  | setLocale locale => exact only_keeps (setLocale_keeps locale)
  | setLanguage locale => exact only_keeps (setLanguage_keeps locale)
  | language => exact .bind language_keeps fun _ => keeps_pure _
  | getText id => exact .bind (getText_keeps id) fun _ => keeps_pure _
  | addPhrasebook locale t => exact only_keeps (addPhrasebook_keeps locale t)
  | removePhrasebook locale => exact .bind (removePhrasebook_keeps locale) fun _ => keeps_pure _
  | hasPhrasebook locale => exact .bind (hasPhrasebook_keeps locale) fun _ => keeps_pure _
  | addEntry locale message text => exact only_keeps (addEntry_keeps locale message text)
  | hasEntry locale message => exact .bind (hasEntry_keeps locale message) fun _ => keeps_pure _
  | addFallback locale t => exact only_keeps (addFallback_keeps locale t)
  | phrase message =>
      exact .bind (.bind keeps_get fun _ => keeps_of _) fun _ => keeps_pure _
  | clearServer => exact only_keeps clearServer_keeps
  | setFallback l => exact only_keeps (keeps_modify fun _ => ⟨rfl, rfl, rfl⟩)
  | acceptHints ids => exact only_keeps (keeps_log _)
  | nodeExists node => exact .bind (nodeExists_keeps ip node) fun _ => keeps_pure _
  | tagsOf node => exact .bind (tagsOf_keeps ip node) fun _ => keeps_pure _
  | registerFunction name handle returns =>
      exact only_keeps (registerFunction_keeps name handle returns)
  | functionNames => exact .bind functionNames_keeps fun _ => keeps_pure _
  | stopCount => exact .bind (stopCount_keeps ip) fun _ => keeps_pure _
  | publish | dispatch => cases hcalls
  | setVariable | setVariables | clearVariables | restoreState | setValue | setValues =>
      cases hwrites
  | setup | cleanup | build | clearPrograms | start | «continue» | stop | select => cases hdrives

/-! ## Operations that call the host

What calls the host keeps whatever every call of the host keeps. -/

section
variable {invoke : Invoke H I}

theorem dispatch_keeps_of_handlers
    (hinvoke : ∀ handler arguments, Keeps R (invoke (.command handler arguments)))
    (name : Datum) (parameters : List Datum) : Keeps R (dispatch invoke name parameters) := by
  refine .bind (commandHandler_keeps name) ?_
  intro handler
  split
  · exact .bind (keeps_log _) fun _ => keeps_pure _
  · refine .bind (keeps_of _) fun arguments => .bind (hinvoke _ arguments).attempt ?_
    intro result
    split
    · exact keeps_pure _
    · split
      · exact .bind (keeps_log _) fun _ => keeps_pure _
      · exact keeps_throw _

theorem serve_call_keeps_of_functions
    (hinvoke : ∀ handle arguments, Keeps R (invoke (.function handle arguments)))
    (slot : Nat) (function : Datum) (values : Except Fault (List Datum)) :
    Keeps R (serve invoke slot (.call function values)) := by
  refine .bind (keeps_checkKey function) fun _ => .bind (keeps_instance slot) ?_
  intro i
  split
  · refine .bind (keeps_of _) fun values => .bind (keeps_of _) ?_
    intro arguments
    split
    · exact .bind (runStandard_keeps _ _) fun _ => keeps_of _
    · exact .bind (hinvoke _ _) fun _ => keeps_of _
  · exact keeps_throw _

variable (hinvoke : ∀ c, Keeps R (invoke c))
include hinvoke

theorem dispatch_keeps (name : Datum) (parameters : List Datum) :
    Keeps R (dispatch invoke name parameters) :=
  dispatch_keeps_of_handlers (fun _ _ => hinvoke _) name parameters

variable [OverlooksBus R]

theorem publish_keeps (n : Notice) : Keeps R (publish invoke n) :=
  .bind (keeps_modify_of fun w => OverlooksBus.published w n) fun _ =>
    .bind keeps_get fun _ => keeps_forM _ fun _ _ => (hinvoke _).discard

theorem bring_keeps (n : Notification) : Keeps R (bring invoke n) := by
  refine .bind keeps_get ?_
  intro w
  split
  · exact keeps_pure _
  · exact (hinvoke _).discard
  · exact publish_keeps hinvoke _

theorem notify_keeps [OverlooksShowings R] (n : Notification) : Keeps R (notify invoke n) :=
  .bind (keeps_mark _) fun _ => .bind (bring_keeps hinvoke n) fun _ => keeps_mark _

theorem perform_keeps_of_not_writes (ip : Interpreter I L) (fuel : Nat) (r : Request I)
    (hdrives : r.drives = false) (hwrites : r.writes = false) :
    Keeps R (perform ip fuel invoke r) := by
  cases hcalls : r.calls with
  | false => exact perform_keeps_of_not_calls ip fuel invoke r hdrives hwrites hcalls
  | true =>
      cases r with
      | publish n => exact only_keeps (publish_keeps hinvoke n)
      | dispatch name parameters =>
          exact .bind (dispatch_keeps hinvoke name parameters) fun _ => keeps_pure _
      | _ => cases hcalls

/-! ## Writing variables -/

variable [AllowsWriting R]

theorem changed_keeps {f : World H I → World H I} {n : Notice} (hn : n.Named)
    (hcourse : ∀ w, (f w).course = w.course)
    (hreception : ∀ w, (f w).reception = w.reception)
    (hstock : ∀ w, ({ f w with announced := (f w).announced ++ [n] } : World H I).stock =
      w.stock.change n) : Keeps R (modify f >>= fun _ => announce invoke n) := by
  have htold : Keeps R (do if (← get).announces then publish invoke n : Act H I Unit) := by
    refine .bind keeps_get ?_
    intro w
    split
    · exact publish_keeps hinvoke n
    · exact keeps_pure _
  intro w r w' h
  have hannounce : Yields (announce invoke n) (f w) r w' := yields_modify_bind.mp h
  unfold announce at hannounce
  have hrest := yields_modify_bind.mp hannounce
  refine trans_of R ?_ (htold _ _ _ hrest)
  exact AllowsWriting.change n hn (hcourse w) (hstock w) (hreception w)

theorem assign_keeps {name value : Datum} (hnamed : (Notice.variableChanged name value).Named) :
    Keeps R (assign invoke name value) :=
  changed_keeps hinvoke hnamed (fun _ => rfl) (fun _ => rfl) fun _ => rfl

theorem clearVariables_keeps : Keeps R (clearVariables invoke) :=
  changed_keeps hinvoke trivial (fun _ => rfl) (fun _ => rfl) fun _ => rfl

theorem storing_of_invoke : Storing R invoke where
  log := keeps_log
  assign _ _ := assign_keeps hinvoke
  clear := clearVariables_keeps hinvoke

theorem serve_keeps (slot : Nat) (a : Ask) : Keeps R (serve invoke slot a) := by
  cases a with
  | write name value =>
      exact .bind (setValue_keeps (storing_of_invoke hinvoke) _ _) fun _ => keeps_pure _
  | call function arguments =>
      exact serve_call_keeps_of_functions (fun _ _ => hinvoke _) slot function arguments

/-- A request that does not drive the runner keeps what calling the host keeps. -/
theorem perform_keeps_of_not_drives (ip : Interpreter I L) (fuel : Nat) (r : Request I)
    (hdrives : r.drives = false) : Keeps R (perform ip fuel invoke r) := by
  cases hwrites : r.writes with
  | false => exact perform_keeps_of_not_writes hinvoke ip fuel r hdrives hwrites
  | true => exact perform_keeps_of_writes (storing_of_invoke hinvoke) ip fuel hwrites

end

end Session

end Parley
