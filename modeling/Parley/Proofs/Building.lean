import Parley.Proofs.Clearing
import Parley.Proofs.Keys

/-!
# What a build loads

Building unloads the interpreter and loads the programs one by one.  A program that the loader
refuses, or that is no table of nodes, is logged with its place in the list and skipped.  So
what comes of a program depends on it alone (`reading`), and what a build leaves is an equation
of worlds (`World.rebuilt`): the tables of the programs that loaded are written over each other
in the order of the list, and of everything else only the journal and the count of loads are
touched.  What is found under a name is then the node of the last program that has one.

The scripts, the host and the state of the interpreter are any.  A loader may fail as it likes,
as long as each fault is one that says that a program is malformed.
-/

namespace Parley

namespace Script

/-! ## What comes of a program -/

/-- The nodes of a program once it went through the loader; or why it is skipped, and what is
shown of it then. -/
def reading (loader : Option Loader) (p : Program) :
    Except (Fault × Program) (List (Datum × Node)) :=
  match loader.elim (.ok p) (· p) with
  | .error f => .error (f, p)
  | .ok q =>
    match nodes? q with
    | some nodes => .ok nodes
    | none => .error (.telling q (.notAProgram q), q)

/-- The tables of the programs that load, in order. -/
def tables (loader : Option Loader) (ps : List Program) : List (List (Datum × Node)) :=
  ps.filterMap fun p => (reading loader p).toOption

/-- The node of a name in the last of the programs that load and have one. -/
def lastNode? (loader : Option Loader) (ps : List Program) (name : Datum) : Option Node :=
  (tables loader ps).reverse.findSome? fun es => (Keyed.ofList es).get? name

/-- The programs that do not load, each with its place. -/
def failures (loader : Option Loader) (ps : List (Program × Nat)) : List Note :=
  ps.filterMap fun (p, index) =>
    match reading loader p with
    | .error (f, shown) => some (.loadFailed f index shown)
    | .ok _ => none

/-- What the journal gets of a program at a place. -/
def trail (loader : Option Loader) (p : Program × Nat) : List Record :=
  (loader.map fun _ => .loading p.1).toList ++ (failures loader [p]).map .log

variable {loader : Option Loader} {p : Program}

theorem tables_cons (p : Program) (ps : List Program) :
    tables loader (p :: ps) = tables loader [p] ++ tables loader ps :=
  List.filterMap_append (l := [p])

theorem failures_append (ps qs : List (Program × Nat)) :
    failures loader (ps ++ qs) = failures loader ps ++ failures loader qs :=
  List.filterMap_append

theorem tables_of_error {x : Fault × Program} (h : reading loader p = .error x) :
    tables loader [p] = [] := by
  simp [tables, h, Except.toOption]

theorem tables_of_ok {es : List (Datum × Node)} (h : reading loader p = .ok es) :
    tables loader [p] = [es] := by
  simp [tables, h, Except.toOption]

theorem isLoadFault_notAProgram (p : Program) :
    Session.isLoadFault (.telling p (.notAProgram p)) = true := by
  unfold Fault.telling
  split
  · show [ErrorClass.programLoad, .value, .type, .key].any ErrorClass.programLoad.isA = true
    decide +kernel
  · decide +kernel

theorem isLoadFault_of_reading
    (hload : ∀ load, loader = some load → ∀ f, load p = .error f → Session.isLoadFault f = true)
    {f : Fault} {shown : Program} (h : reading loader p = .error (f, shown)) :
    Session.isLoadFault f = true := by
  unfold reading at h
  cases hready : loader.elim (.ok p) (· p) with
  | error g =>
      rw [hready] at h
      cases h
      cases loader with
      | none => cases hready
      | some load => exact hload load rfl f hready
  | ok q =>
      rw [hready] at h
      cases hnodes : nodes? q with
      | none =>
          simp only [hnodes] at h
          cases h
          exact isLoadFault_notAProgram _
      | some es =>
          simp only [hnodes] at h
          cases h

end Script

/-- The error that is logged by a record. -/
def Record.error? : Record → Option Note
  | .log n => if n.level = .error then some n else none
  | _ => none

theorem Script.errors_of_trail (loader : Option Loader) (p : Program × Nat) :
    (trail loader p).filterMap Record.error? = failures loader [p] := by
  have hloading :
      ((loader.map fun _ => Record.loading p.1).toList).filterMap Record.error? = [] := by
    cases loader <;> rfl
  have hfailures : ∀ n ∈ failures loader [p], n.level = .error := by
    intro n hn
    obtain ⟨q, -, hq⟩ := List.mem_filterMap.mp hn
    dsimp only at hq
    split at hq
    · rw [← Option.some_inj.mp hq]
      rfl
    · cases hq
  rw [trail, List.filterMap_append, hloading, List.nil_append, List.filterMap_map]
  exact (List.filterMap_congr fun n hn => if_pos (hfailures n hn)).trans List.filterMap_some

/-- The errors that are logged are those of the programs that do not load. -/
theorem Script.errors_of_trails (loader : Option Loader) (ps : List (Program × Nat)) :
    (ps.flatMap (trail loader)).filterMap Record.error? = failures loader ps := by
  induction ps with
  | nil => rfl
  | cons p ps ih =>
      rw [List.flatMap_cons, List.filterMap_append, errors_of_trail, ih, ← failures_append]
      rfl

namespace World

open Script (State reading tables trail failures)

variable {H : Type}

/-- The world once tables were written into the interpreter in a slot. -/
def took (w : World H State) (slot : Nat) (ts : List (List (Datum × Script.Node)))
    (records : List Record) : World H State :=
  { w with
    journal := w.journal ++ records
    instances := w.instances.modify slot fun i =>
      { i with
        core := { i.core with nodes := i.core.nodes.insertAll ts.flatten }
        loads := i.loads + ts.length } }

theorem took_took (w : World H State) (slot : Nat) (ts us : List (List (Datum × Script.Node)))
    (xs ys : List Record) :
    (w.took slot ts xs).took slot us ys = w.took slot (ts ++ us) (xs ++ ys) := by
  simp only [took, List.modify_modify_eq, List.append_assoc, Function.comp_def, List.flatten_append,
    Keyed.insertAll, List.foldl_append, List.length_append, Nat.add_assoc]

/-- The world with more in its journal. -/
def journaled (w : World H State) (records : List Record) : World H State :=
  { w with journal := w.journal ++ records }

theorem took_nil (w : World H State) (slot : Nat) (records : List Record) :
    w.took slot [] records = w.journaled records := by
  have hsame : (fun i : Instance State => { i with
      core := { i.core with nodes := i.core.nodes.insertAll ([] : List (List _)).flatten }
      loads := i.loads + ([] : List (List (Datum × Script.Node))).length }) = id := rfl
  rw [took, hsame, List.modify_id, journaled]

theorem holds_of_modify {w v : World H State} {slot : Nat} {s s' : State}
    {f : Instance State → Instance State} (hheld : w.course.Holds slot s)
    (hcurrent : v.current = w.current) (hinstances : v.instances = w.instances.modify slot f)
    (hf : ∀ i, i.core = s → (f i).core = s') : v.course.Holds slot s' := by
  obtain ⟨i, hi, hcore⟩ := course_cores.mp hheld.2
  refine ⟨hcurrent.trans hheld.1, course_cores.mpr ⟨f i, ?_, hf i hcore⟩⟩
  rw [hinstances, List.getElem?_modify_eq, hi]
  rfl

theorem holds_took {w : World H State} {slot : Nat} {s : State} (hheld : w.course.Holds slot s)
    (ts : List (List (Datum × Script.Node))) (records : List Record) :
    (w.took slot ts records).course.Holds slot
      { s with nodes := s.nodes.insertAll ts.flatten } :=
  holds_of_modify hheld rfl rfl fun _ hcore => hcore ▸ rfl

theorem took_of_error {w : World H State} {p shown : Program} {f : Fault}
    (h : reading w.loader p = .error (f, shown)) (slot index : Nat) :
    w.took slot (tables w.loader [p]) (trail w.loader (p, index)) =
      (w.journaled (w.loader.map fun _ => .loading p).toList).journaled
        [.log (.loadFailed f index shown)] := by
  have htrail : trail w.loader (p, index) = (w.loader.map fun _ => .loading p).toList ++
      [.log (.loadFailed f index shown)] := by
    simp [trail, failures, h]
  rw [Script.tables_of_error h, htrail, ← took_nil _ slot, ← took_nil _ slot, took_took,
    List.append_nil]

theorem took_of_ok {w : World H State} {p : Program} {es : List (Datum × Script.Node)}
    (h : reading w.loader p = .ok es) (slot index : Nat) :
    w.took slot (tables w.loader [p]) (trail w.loader (p, index)) =
      (w.journaled (w.loader.map fun _ => .loading p).toList).took slot [es] [] := by
  have htrail : trail w.loader (p, index) = (w.loader.map fun _ => .loading p).toList := by
    simp [trail, failures, h]
  rw [Script.tables_of_ok h, htrail, ← took_nil _ slot, took_took, List.append_nil, List.nil_append]

theorem holds_unloaded {w : World H State} {slot : Nat} {s : State}
    (hheld : w.course.Holds slot s) :
    (w.unloaded Script.interpreter slot s).course.Holds slot { s with nodes := {} } :=
  holds_of_modify hheld rfl rfl fun _ hcore => hcore ▸ rfl

/-- The world once a list of programs was loaded in place of everything before it. -/
def rebuilt (w : World H State) (slot : Nat) (ps : List Program) : World H State :=
  { w with
    programs := ps
    journal := w.journal ++ (ps.zipIdx.flatMap (trail w.loader) ++
      [.log (.programsLoaded (tables w.loader ps).length ps.length)])
    instances := w.instances.modify slot fun i =>
      { i with
        core := { i.core with nodes := .ofList (tables w.loader ps).flatten }
        loads := i.loads + (tables w.loader ps).length } }

theorem holds_rebuilt {w : World H State} {slot : Nat} {s : State}
    (hheld : w.course.Holds slot s) (ps : List Program) :
    (w.rebuilt slot ps).course.Holds slot
      { s with nodes := .ofList (tables w.loader ps).flatten } :=
  holds_of_modify hheld rfl rfl fun _ hcore => hcore ▸ rfl

theorem unloaded_took {w : World H State} {slot : Nat} {s : State} {ps : List Program}
    (hprograms : w.programs = ps) :
    ((w.unloaded Script.interpreter slot s).took slot (tables w.loader ps)
        (ps.zipIdx.flatMap (trail w.loader))).journaled
      [.log (.programsLoaded (tables w.loader ps).length ps.length)] = w.rebuilt slot ps := by
  have hjournal : (w.unloaded Script.interpreter slot s).journal = w.journal := rfl
  unfold journaled took rebuilt
  rw [hjournal, List.append_assoc, unloaded, List.modify_modify_eq, ← hprograms]
  rfl

end World

namespace Session

open Act
open Script (State reading tables lastNode? failures trail)

variable {H : Type} {w w' : World H State} {slot : Nat} {s : State} {p q : Program}

/-! ## One program -/

/-- Calls on the script interpreter are not observed. -/
theorem yields_observe_script {c : EngineCall} (hcore : w.course.cores[slot]? = some s) :
    Yields (observe Script.interpreter slot c) w (.ok ()) w := by
  have hpure : Yields (observe Script.interpreter slot c >>= pure) w (.ok ()) w :=
    (yields_observed hcore).mpr (yields_pure.mpr ⟨rfl, rfl⟩)
  rwa [bind_pure] at hpure

/-- The interpreter writes a table of nodes over its own, and refuses what is none. -/
theorem yields_addProgram (hheld : w.course.Holds slot s) :
    Yields (addProgram Script.interpreter q) w
      (match Script.nodes? q with
        | some _ => .ok ()
        | none => .error (.telling q (.notAProgram q)))
      (match Script.nodes? q with
        | some es => w.took slot [es] []
        | none => w) := by
  obtain ⟨i, hi, hicore⟩ := World.course_cores.mp hheld.2
  obtain ⟨j, hjcore, hinstance⟩ := exists_instance hheld.2
  unfold addProgram
  refine (yields_held_of_current hheld.1).mpr (hinstance.mpr ?_)
  rw [hjcore]
  show Yields (do
    setCore slot (Script.load q s).2
    of (Script.load q s).1
    modifyInstance slot fun i => { i with loads := i.loads + 1 }
    observe Script.interpreter slot (.loaded (j.loads + 1)) : Act H State Unit) w _ _
  unfold Script.load
  cases hnodes : Script.nodes? q with
  | none =>
      exact yields_modify_bind.mpr
        (yields_of_error_bind.mpr ⟨rfl, (World.withCore_self hheld.2).symm⟩)
  | some es =>
      have htook : w.took slot [es] [] = { w with
          instances := (w.instances.modify slot fun i =>
            { i with core := { s with nodes := s.nodes.insertAll es } }).modify slot fun i =>
              { i with loads := i.loads + 1 } } := by
        unfold World.took
        rw [List.append_nil, List.modify_modify_eq, List.flatten_singleton]
        congr 1
        exact World.modify_congr hi (by rw [← hicore]; rfl)
      have hobserved : Yields (observe Script.interpreter slot (.loaded (j.loads + 1)))
          (w.took slot [es] []) (.ok ()) (w.took slot [es] []) :=
        yields_observe_script (World.holds_took hheld [es] []).2
      rw [htook] at hobserved
      dsimp only
      rw [htook]
      exact yields_modify_bind.mpr (yields_of_ok_bind.mpr (yields_modify_bind.mpr hobserved))

theorem yields_prepare : Yields (prepare p) w (w.loader.elim (.ok p) (· p))
    (w.journaled (w.loader.map fun _ => .loading p).toList) := by
  unfold prepare
  refine yields_get_bind.mpr ?_
  cases w.loader with
  | none => exact yields_pure.mpr ⟨rfl, by simp [World.journaled]⟩
  | some load => exact yields_modify_bind.mpr (yields_of.mpr ⟨rfl, rfl⟩)

theorem yields_loadOne (hheld : w.course.Holds slot s) (index : Nat)
    (hskip : ∀ f shown, reading w.loader p = .error (f, shown) → isLoadFault f = true) :
    Yields (loadOne Script.interpreter p index) w (.ok (tables w.loader [p]).length)
      (w.took slot (tables w.loader [p]) (trail w.loader (p, index))) := by
  have hlogged : ∀ {u : World H State} {f : Fault} {shown : Program}, isLoadFault f = true →
      Yields (if isLoadFault f then do
          log (.loadFailed f index shown)
          return 0
        else throw f : Act H State Nat) u (.ok 0)
        (u.journaled [.log (.loadFailed f index shown)]) := by
    intro u f shown hf
    rw [if_pos hf]
    exact yields_modify_bind.mpr (yields_pure.mpr ⟨rfl, rfl⟩)
  unfold loadOne
  refine yields_attempt_bind.mpr ⟨_, _, yields_prepare, ?_⟩
  have hprepared := World.holds_took hheld [] (w.loader.map fun _ => .loading p).toList
  rw [World.took_nil] at hprepared
  cases hready : w.loader.elim (.ok p) (· p) with
  | error f =>
      have hreading : reading w.loader p = .error (f, p) := by rw [reading, hready]
      rw [World.took_of_error hreading, Script.tables_of_error hreading]
      exact hlogged (hskip f p hreading)
  | ok q =>
      refine yields_attempt_bind.mpr ⟨_, _, yields_addProgram hprepared, ?_⟩
      cases hnodes : Script.nodes? q with
      | none =>
          have hreading : reading w.loader p = .error (.telling q (.notAProgram q), q) := by
            rw [reading, hready]
            simp only [hnodes]
          rw [World.took_of_error hreading, Script.tables_of_error hreading]
          exact hlogged (hskip _ _ hreading)
      | some es =>
          have hreading : reading w.loader p = .ok es := by
            rw [reading, hready]
            simp only [hnodes]
          rw [World.took_of_ok hreading, Script.tables_of_ok hreading]
          exact yields_pure.mpr ⟨rfl, rfl⟩

/-! ## The list of programs -/

/-- The programs are loaded one after the other; which of them load does not depend on it. -/
theorem yields_loadAll {ps : List (Program × Nat)} (hheld : w.course.Holds slot s)
    (hskip : ∀ p ∈ ps, ∀ f shown, reading w.loader p.1 = .error (f, shown) → isLoadFault f = true) :
    Yields (ps.mapM fun (p, index) => loadOne Script.interpreter p index) w
      (.ok (ps.map fun p => (tables w.loader [p.1]).length))
      (w.took slot (tables w.loader (ps.map Prod.fst)) (ps.flatMap (trail w.loader))) := by
  induction ps generalizing w s with
  | nil =>
      refine yields_pure.mpr ⟨rfl, ?_⟩
      exact (World.took_nil w slot []).trans (by rw [World.journaled, List.append_nil])
  | cons p ps ih =>
      obtain ⟨hp, hps⟩ := List.forall_mem_cons.mp hskip
      rw [List.mapM_cons]
      refine yields_bind.mpr (.inl ⟨_, _, yields_loadOne hheld p.2 hp, ?_⟩)
      have hrest := ih (World.holds_took hheld (tables w.loader [p.1]) (trail w.loader p)) hps
      refine yields_bind.mpr (.inl ⟨_, _, hrest, yields_pure.mpr ⟨rfl, ?_⟩⟩)
      rw [World.took_took, List.flatMap_cons, List.map_cons, Script.tables_cons]
      rfl

theorem count_tables (loader : Option Loader) (ps : List (Program × Nat)) (n : Nat) :
    (ps.map fun p => (tables loader [p.1]).length).foldl (· + ·) n =
      n + (tables loader (ps.map Prod.fst)).length := by
  induction ps generalizing n with
  | nil => rfl
  | cons p ps ih =>
      rw [List.map_cons, List.foldl_cons, ih, List.map_cons, Script.tables_cons p.1 (ps.map Prod.fst),
        List.length_append, Nat.add_assoc]

theorem yields_build {programs : Option (List Program)} {ps : List Program}
    (hps : programs.getD w.programs = ps) (hheld : w.course.Holds slot s)
    (hskip : ∀ p ∈ ps, ∀ f shown, reading w.loader p = .error (f, shown) → isLoadFault f = true) :
    Yields (build Script.interpreter programs) w (.ok ()) (w.rebuilt slot ps) := by
  have hreload : ∀ u : World H State, u.programs = ps → u.course.Holds slot s →
      u.loader = w.loader →
      Yields (reload Script.interpreter) u (.ok ()) (u.rebuilt slot ps) := by
    intro u hprograms hheld hloader
    unfold reload
    refine yields_get_bind.mpr ?_
    rw [show u.current = some slot from hheld.1]
    refine (yields_unload_bind hheld.2).mpr (yields_get_bind.mpr ?_)
    rw [show (u.unloaded Script.interpreter slot s).programs = ps from hprograms]
    have hskip' : ∀ p ∈ ps.zipIdx, ∀ f shown,
        reading (u.unloaded Script.interpreter slot s).loader p.1 = .error (f, shown) →
          isLoadFault f = true := by
      intro p hp
      rw [show (u.unloaded Script.interpreter slot s).loader = w.loader from hloader]
      exact hskip p.1 (List.fst_mem_of_mem_zipIdx hp)
    refine yields_bind.mpr (.inl ⟨_, _, yields_loadAll (World.holds_unloaded hheld) hskip', ?_⟩)
    rw [count_tables, Nat.zero_add, List.zipIdx_map_fst]
    exact yields_modify.mpr ⟨rfl, (World.unloaded_took hprograms).symm⟩
  unfold build
  cases programs with
  | none => exact hreload w hps hheld rfl
  | some qs => exact hreload { w with programs := qs } hps hheld rfl

/-! ## Questions about what is loaded -/

theorem yields_ask {α β : Type} {whenNone : α} {question : State → α} {f : α → Act H State β}
    {r : Except Fault β} (hheld : w.course.Holds slot s) :
    Yields (ask whenNone question >>= f) w r w' ↔ Yields (f (question s)) w r w' := by
  obtain ⟨i, rfl, hinstance⟩ := exists_instance hheld.2
  unfold ask
  rw [bind_assoc, yields_get_bind, show w.current = some slot from hheld.1]
  exact (bind_assoc (instance? slot) _ f).symm ▸ hinstance

section
variable {react : Host H State} {node : Datum}

theorem yields_nodeExists (hheld : w.course.Holds slot s) (hkey : node.isKey = true)
    (fuel : Nat) : Yields (exec Script.interpreter react (fuel + 1) (.nodeExists node)) w
      (.ok (.flag (s.nodes.get? node).isSome)) w := by
  have hnode : Script.interpreter.hasNode node s = .ok (s.nodes.get? node).isSome := by
    show s.hasNode node = _
    rw [State.hasNode, Datum.asKey_of_isKey hkey, Keyed.isSome_get?]
    rfl
  have hasked : Yields (nodeExists Script.interpreter node) w (.ok (s.nodes.get? node).isSome) w :=
    (yields_ask hheld).mpr (yields_of.mpr ⟨hnode.symm, rfl⟩)
  exact yields_exec.mpr ⟨fuel, rfl, yields_bind_pure.mpr ⟨_, hasked, rfl⟩⟩

/-- A node has the tags that its table gives it, and a missing one has none and is logged. -/
theorem yields_tagsOf (hheld : w.course.Holds slot s) (hkey : node.isKey = true)
    (fuel : Nat) : Yields (exec Script.interpreter react (fuel + 1) (.tagsOf node)) w
      (match s.nodes.get? node with
        | some n => n.tags.map .tags
        | none => .ok (.tags []))
      (if (s.nodes.get? node).isSome then w else w.noted (.nodeMissing node)) := by
  have htags : Script.interpreter.tags? node s = match s.nodes.get? node with
      | some n => n.tags.map some
      | none => .ok none := by
    show Script.tags? node s = _
    rw [Script.tags?, Datum.asKey_of_isKey hkey]
    cases hnode : s.nodes.get? node with
    | none => simp [bind, Except.bind, hnode, pure, Except.pure]
    | some n =>
        cases htags : n.tags <;>
          simp [bind, Except.bind, hnode, htags, pure, Except.pure, Except.map]
  have hasked : Yields (tagsOf Script.interpreter node) w
      (match s.nodes.get? node with
        | some n => n.tags
        | none => .ok [])
      (if (s.nodes.get? node).isSome then w else w.noted (.nodeMissing node)) := by
    unfold tagsOf
    refine (yields_ask hheld).mpr ?_
    rw [htags]
    cases s.nodes.get? node with
    | none =>
        dsimp only
        exact yields_of_ok_bind.mpr (yields_modify_bind.mpr (yields_pure.mpr ⟨rfl, rfl⟩))
    | some n =>
        dsimp only
        cases n.tags with
        | error f =>
            dsimp only [Except.map]
            exact yields_of_error_bind.mpr ⟨rfl, rfl⟩
        | ok tags =>
            dsimp only [Except.map]
            exact yields_of_ok_bind.mpr (yields_pure.mpr ⟨rfl, rfl⟩)
  refine yields_exec.mpr ⟨fuel, rfl, yields_bind_pure.mpr ⟨_, hasked, ?_⟩⟩
  cases s.nodes.get? node <;> rfl

/-! ## The law of building -/

/-- What a build of the programs `ps` leaves, for an interpreter that had the state `s`. -/
structure Rebuilds (react : Host H State) (w : World H State) (slot : Nat) (s : State)
    (ps : List Program) (w' : World H State) : Prop where
  /-- nothing but the list, the journal and the interpreter's nodes is touched -/
  world : w' = w.rebuilt slot ps
  rest : w'.running = w.running ∧ w'.line = w.line ∧ w'.options = w.options ∧
    Yields (currentNode Script.interpreter) w' (.ok s.current?) w'
  /-- the nodes are those of the tables that load, written over each other in their order -/
  nodes : w'.course.Holds slot { s with nodes := .ofList (tables w.loader ps).flatten }
  /-- one error is logged for each program that does not load, with its place, and at last
  how many did -/
  logged : ∃ records, w'.journal = w.journal ++ (records ++
      [.log (.programsLoaded (tables w.loader ps).length ps.length)]) ∧
    records.filterMap Record.error? = failures w.loader ps.zipIdx
  /-- the last loadable program with a node of a name answers for it, whatever the name is, if
  only it is the same as itself -/
  asked : ∀ node : Datum, node.isKey = true → node.same node = true → ∀ fuel,
    Yields (exec Script.interpreter react (fuel + 1) (.nodeExists node)) w'
      (.ok (.flag (lastNode? w.loader ps node).isSome)) w'
  tagged : ∀ node : Datum, node.isKey = true → node.same node = true → ∀ fuel,
    Yields (exec Script.interpreter react (fuel + 1) (.tagsOf node)) w'
      (match lastNode? w.loader ps node with
        | some n => n.tags.map .tags
        | none => .ok (.tags []))
      (if (lastNode? w.loader ps node).isSome then w' else w'.noted (.nodeMissing node))

/-- Whatever the programs are, and whichever of them the loader refuses, a build answers. -/
theorem programs_rebuilt {programs : Option (List Program)} {ps : List Program}
    (hps : programs.getD w.programs = ps) (hheld : w.course.Holds slot s)
    (hload : ∀ load, w.loader = some load → ∀ p ∈ ps, ∀ f, load p = .error f →
      isLoadFault f = true) :
    ∃ w', (∀ fuel, Yields (exec Script.interpreter react (fuel + 1) (.build programs)) w
      (.ok .done) w') ∧ Rebuilds react w slot s ps w' := by
  have hskip : ∀ p ∈ ps, ∀ f shown, reading w.loader p = .error (f, shown) →
      isLoadFault f = true := fun p hp _ _ =>
    Script.isLoadFault_of_reading fun load hl => hload load hl p hp
  have hholds := World.holds_rebuilt hheld ps
  have hfound : ∀ node : Datum, node.isKey = true →
      (Keyed.ofList (tables w.loader ps).flatten).get? node = lastNode? w.loader ps node :=
    fun _ hkey => Keyed.get?_ofList_flatten (Datum.coherent_of_isKey hkey) _
  refine ⟨w.rebuilt slot ps, yields_exec_only (fun _ _ => rfl) (yields_build hps hheld hskip),
    ⟨rfl, ⟨rfl, rfl, rfl, ?_⟩, hholds, ⟨_, rfl, ?_⟩, ?_, ?_⟩⟩
  · have hasked : Yields (currentNode Script.interpreter >>= pure) (w.rebuilt slot ps)
        (.ok s.current?) (w.rebuilt slot ps) :=
      (yields_ask hholds).mpr (yields_pure.mpr ⟨rfl, rfl⟩)
    rwa [bind_pure] at hasked
  · exact Script.errors_of_trails w.loader ps.zipIdx
  · intro node hkey _ fuel
    rw [← hfound node hkey]
    exact yields_nodeExists hholds hkey fuel
  · intro node hkey _ fuel
    rw [← hfound node hkey]
    exact yields_tagsOf hholds hkey fuel

end

/-! ## A list with gaps

The loader refuses the second program, with an error below one that says so, and the third is no
table of nodes.  The last has a node that the first has too, and one that is named by a number. -/

def worn : State := { nodes := .ofList [(.text "Old", {})], node := .text "Old" }

def shelf : World Unit State where
  host := ()
  loader := some fun p => match p with
    | .text _ => .error (.accident (ErrorClass.key.child "MissingNodes"))
    | p => .ok p
  programs := [
    .dict [(.text "Start", .dict []), (.text "Left", .dict [])], .text "torn", .int 3,
    .dict [(.text "Start", .dict [(.text "tags", .list [.text "intro"])]), (.int 1, .dict [])]]
  instances := [{ core := worn }]
  current := some 0
  running := true

theorem programs_rebuilt_of_shelf : ∃ w', shelf.course.Holds 0 worn ∧
    Yields (exec Script.interpreter quiet 1 (.build none)) shelf (.ok .done) w' ∧
    (failures shelf.loader shelf.programs.zipIdx).length = 2 ∧
    (lastNode? shelf.loader shelf.programs (.text "Start")).map (·.entries.length) = some 1 ∧
    Yields (exec Script.interpreter quiet 1 (.nodeExists (.text "Left"))) w' (.ok (.flag true)) w' ∧
    Yields (exec Script.interpreter quiet 1 (.nodeExists (.text "Old"))) w' (.ok (.flag false))
      w' ∧
    -- a number is a name of its own, and no text is that name
    Yields (exec Script.interpreter quiet 1 (.nodeExists (.bool true))) w' (.ok (.flag true)) w' ∧
    Yields (exec Script.interpreter quiet 1 (.nodeExists (.text "1"))) w' (.ok (.flag false))
      w' := by
  have hload : ∀ load, shelf.loader = some load → ∀ p ∈ shelf.programs, ∀ f,
      load p = .error f → isLoadFault f = true := by
    rintro _ ⟨⟩ p - f hf
    dsimp only at hf
    split at hf
    · cases hf
      decide +kernel
    · cases hf
  obtain ⟨w', hbuild, hrebuilds⟩ : ∃ w', (∀ fuel, Yields (exec Script.interpreter quiet (fuel + 1)
      (.build none)) shelf (.ok .done) w') ∧ Rebuilds quiet shelf 0 worn shelf.programs w' :=
    programs_rebuilt rfl ⟨rfl, rfl⟩ hload
  have hasked : ∀ (node : Datum) (there : Bool), node.isKey = true → node.same node = true →
      (lastNode? shelf.loader shelf.programs node).isSome = there →
      Yields (exec Script.interpreter quiet 1 (.nodeExists node)) w' (.ok (.flag there)) w' := by
    rintro node _ hkey hself rfl
    exact hrebuilds.asked node hkey hself 0
  exact ⟨w', ⟨rfl, rfl⟩, hbuild 0, by decide +kernel, by decide +kernel,
    hasked _ _ rfl (by decide +kernel) (by decide +kernel),
    hasked _ _ rfl (by decide +kernel) (by decide +kernel),
    hasked _ _ rfl (by decide +kernel) (by decide +kernel),
    hasked _ _ rfl (by decide +kernel) (by decide +kernel)⟩

end Session

end Parley
