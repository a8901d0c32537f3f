import Parley.Compilation
import Mathlib.Data.List.Forall2

/-!
# What the log tells about a compilation

Compiling has four ends, and in all of them the log says whether it failed.

| end | the compilation | logged besides its diagnostics |
|---|---|---|
| no path is left | without a program | an error |
| the compiler gives up | its diagnostics, without a program | an error, if no diagnostic is one |
| it returns nothing to run | as returned | an error, if no diagnostic is one |
| it returns a program | as returned | that it succeeded, if no diagnostic is an error |

`adds_compileFiles` gives all that is recorded.  That an error in the log means failure
needs the diagnostics to be where they belong, errors among the errors and warnings among
the warnings (`Compilation.Sorted`): each is logged by its own severity, while success
asks for the list it is in.  Diagnostics that a compiler gives up with are sorted by the
library, so they may be anything.
-/

namespace Parley

/-! ## What an operation adds to the journal -/

namespace Reporting

variable {α β : Type} {act : Reporting α} {f : α → Reporting β} {a : α} {r : Except Fault β}
  {records later : List Record}

/-- Whatever the journal, the operation comes to the result and adds the records. -/
def Adds (act : Reporting α) (r : Except Fault α) (records : List Record) : Prop :=
  ∀ journal : List Record, act.run.run journal = (r, journal ++ records)

theorem adds_pure (a : α) : Adds (pure a) (.ok a) [] := by
  intro journal
  rw [List.append_nil]
  rfl

theorem adds_record (e : Record) : Adds (record e) (.ok ()) [e] := fun _ => rfl

theorem Adds.bind (h : Adds act (.ok a) records) (h' : Adds (f a) r later) :
    Adds (act >>= f) r (records ++ later) := by
  intro journal
  rw [ExceptT.run_bind, StateT.run_bind, h journal, ← List.append_assoc]
  exact h' (journal ++ records)

theorem adds_forM {xs : List α} {act : α → Reporting Unit} {entry : α → Record}
    (h : ∀ x, Adds (act x) (.ok ()) [entry x]) : Adds (xs.forM act) (.ok ()) (xs.map entry) := by
  induction xs with
  | nil => exact adds_pure ()
  | cons x xs ih => exact (h x).bind ih

theorem adds_mapM {xs : List α} {ys : List β} {f : α → Reporting β} {entries : α → List Record}
    (h : List.Forall₂ (fun x y => Adds (f x) (.ok y) (entries x)) xs ys) :
    Adds (xs.mapM f) (.ok ys) (xs.flatMap entries) := by
  induction h with
  | nil => exact adds_pure []
  | @cons x y xs ys hx _ ih =>
      rw [List.mapM_cons, List.flatMap_cons]
      refine hx.bind ?_
      rw [← List.append_nil (xs.flatMap entries)]
      exact ih.bind (adds_pure (y :: ys))

end Reporting

open Reporting (Adds adds_pure adds_record adds_forM adds_mapM)

/-! ## Paths -/

namespace Assets

/-- A path and what it stands for: itself, or what its handle leads to. -/
inductive Resolves (locate : Locator) : Datum → String → Prop
  | plain {path : String} (h : path.toList.head? ≠ some ':') : Resolves locate (.text path) path
  | located {path place : String} (h : path.toList.head? = some ':')
      (hplace : locate path = .ok place) : Resolves locate (.text path) place

/-- The look-ups that a path takes. -/
def lookups : Datum → List Record
  | .text path => if path.toList.head? = some ':' then [.locating path] else []
  | _ => []

theorem Resolves.adds {locate : Locator} {d : Datum} {place : String}
    (h : Resolves locate d place) : Adds (resolve locate d) (.ok place) (lookups d) := by
  cases h with
  | plain h =>
      rw [resolve, lookups, if_neg h, if_neg h]
      exact adds_pure _
  | @located path _ h hplace =>
      rw [resolve, lookups, if_pos h, if_pos h, Assets.located, hplace]
      exact (adds_record (.locating path)).bind (adds_pure place)

theorem log_not_mem_lookups {ds : List Datum} {n : Note} : .log n ∉ ds.flatMap lookups := by
  intro hlog
  obtain ⟨d, -, hd⟩ := List.mem_flatMap.mp hlog
  unfold lookups at hd
  split at hd
  · split at hd <;> simp at hd
  · cases hd

end Assets

/-! ## Diagnostics by severity -/

/-- The diagnostics are in the list of their severity. -/
structure Compilation.Sorted (c : Compilation) : Prop where
  errors : ∀ d ∈ c.errors, d.severity = .error
  warnings : ∀ d ∈ c.warnings, d.severity = .warning

namespace Compiler

/-- What comes of compiling some files, with the diagnostics that were reported: a sorted
compilation, or any diagnostics, of which a failed one is made. -/
inductive ComesTo : Except CompilerFailure Compilation → List Diagnostic → Compilation → Prop
  | returned {c : Compilation} (h : c.Sorted) : ComesTo (.ok c) c.diagnostics c
  | gaveUp (ds : List Diagnostic) :
      ComesTo (.error (.diagnostics ds)) ds (Compilation.ofDiagnostics ds)

/-- How a diagnostic is logged. -/
def logged (d : Diagnostic) : Note := .diagnostic (level d.severity) d.shown

/-- The log entry about a diagnostic that a record is. -/
def diagnosis? : Record → Option Note
  | .log (.diagnostic l shown) => some (.diagnostic l shown)
  | _ => none

variable {compiler : Compiler} {locate : Assets.Locator} {paths : List Datum}
  {places : List String} {c : Compilation}
  {ds : List Diagnostic} {result : Except CompilerFailure Compilation}

theorem level_eq_error_iff {s : Severity} : level s = .error ↔ s = .error := by
  cases s <;> decide

theorem ComesTo.diagnostics_eq (h : ComesTo result ds c) :
    c.diagnostics =
      ds.filter (·.severity = .error) ++ ds.filter (·.severity = .warning) := by
  cases h with
  | returned h =>
      have herrors : c.errors.filter (·.severity = .error) = c.errors :=
        List.filter_eq_self.mpr fun d hd => decide_eq_true (h.errors d hd)
      have hnoErrors : c.warnings.filter (·.severity = .error) = [] :=
        List.filter_eq_nil_iff.mpr fun d hd => by simp [h.warnings d hd]
      have hwarnings : c.warnings.filter (·.severity = .warning) = c.warnings :=
        List.filter_eq_self.mpr fun d hd => decide_eq_true (h.warnings d hd)
      have hnoWarnings : c.errors.filter (·.severity = .warning) = [] :=
        List.filter_eq_nil_iff.mpr fun d hd => by simp [h.errors d hd]
      rw [Compilation.diagnostics, List.filter_append, List.filter_append, herrors, hnoErrors,
        hwarnings, hnoWarnings, List.append_nil, List.nil_append]
  | gaveUp =>
      refine congrArg₂ (· ++ ·) (List.filter_congr ?_) (List.filter_congr ?_) <;>
        intro d _ <;> rw [Diagnostic.isError] <;> cases d.severity <;> rfl

theorem ComesTo.sorted (h : ComesTo result ds c) : c.Sorted := by
  cases h with
  | returned h => exact h
  | gaveUp =>
      refine ⟨fun d hd => ?_, fun d hd => ?_⟩
      · exact beq_iff_eq.mp (List.mem_filter.mp hd).2
      · have hd := (List.mem_filter.mp hd).2
        rw [Diagnostic.isError] at hd
        cases hs : d.severity with
        | warning => rfl
        | error => simp [hs] at hd

/-! ## The whole record -/

/-- A compilation is logged by its diagnostics in order, and then its verdict. -/
theorem adds_logged (c : Compilation) (scripts : Nat) :
    Adds (do
      c.diagnostics.forM logDiagnostic
      (verdict scripts c).forM Reporting.log
      return c) (.ok c) ((c.diagnostics.map logged ++ verdict scripts c).map .log) := by
  have hdiagnostics : Adds (c.diagnostics.forM logDiagnostic) (.ok ())
      (c.diagnostics.map fun d => .log (logged d)) := adds_forM fun d => adds_record _
  have hverdict : Adds ((verdict scripts c).forM Reporting.log) (.ok ())
      ((verdict scripts c).map .log) := adds_forM fun n => adds_record _
  rw [List.map_append, List.map_map, ← List.append_nil ((verdict scripts c).map Record.log)]
  exact hdiagnostics.bind (hverdict.bind (adds_pure c))

/-- All that compiling some files records: the look-ups, the call of the compiler, and what
comes of it. -/
theorem adds_compileFiles
    (hpaths : List.Forall₂ (Assets.Resolves locate) (paths.filter Datum.truth) places)
    (hsome : places ≠ []) (hcompile : ComesTo (compiler.compile places) ds c) :
    Adds (compileFiles compiler locate paths) (.ok c)
      ((paths.filter Datum.truth).flatMap Assets.lookups ++
        .compiling places :: (c.diagnostics.map logged ++ verdict places.length c).map .log) := by
  have hresolved : Adds ((paths.filter Datum.truth).mapM (Assets.resolve locate)) (.ok places)
      ((paths.filter Datum.truth).flatMap Assets.lookups) :=
    adds_mapM (hpaths.imp fun _ _ h => h.adds)
  have hlogged := adds_logged c places.length
  refine hresolved.bind ?_
  rw [if_neg fun h => hsome (List.isEmpty_iff.mp h)]
  refine (adds_record (.compiling places)).bind ?_
  cases hresult : compiler.compile places with
  | ok =>
      rw [hresult] at hcompile
      cases hcompile
      exact (adds_pure c).bind hlogged
  | error =>
      rw [hresult] at hcompile
      cases hcompile
      exact (adds_pure (Compilation.ofDiagnostics ds)).bind hlogged

theorem adds_compileFiles_of_nil
    (hpaths : List.Forall₂ (Assets.Resolves locate) (paths.filter Datum.truth) []) :
    Adds (compileFiles compiler locate paths) (.ok {}) [.log .nothingToCompile] := by
  have hnone : paths.filter Datum.truth = [] := List.forall₂_nil_right_iff.mp hpaths
  intro journal
  rw [compileFiles, hnone]
  rfl

/-! ## Errors in the log -/

theorem diagnosis?_verdict (scripts : Nat) (c : Compilation) :
    ((verdict scripts c).map Record.log).filterMap diagnosis? = [] := by
  unfold verdict
  split
  · rfl
  · split <;> rfl

/-- A compilation leaves an error in the log, among its diagnostics or as the verdict, if and
only if it failed. -/
theorem error_logged_iff (h : c.Sorted) (scripts : Nat) :
    (∃ n ∈ c.diagnostics.map logged ++ verdict scripts c, n.level = .error) ↔
      c.succeeded = false := by
  cases herrors : c.errors with
  | cons d ds =>
      have hd : d ∈ c.errors := herrors ▸ List.mem_cons_self
      have hmem : logged d ∈ c.diagnostics.map logged :=
        List.mem_map_of_mem (List.mem_append_left _ hd)
      have herror : (logged d).level = .error := level_eq_error_iff.mpr (h.errors d hd)
      refine iff_of_true ⟨_, List.mem_append_left _ hmem, herror⟩ ?_
      rw [Compilation.succeeded, herrors]
      rfl
  | nil =>
      cases hprogram : c.hasProgram with
      | false =>
          have hverdict : verdict scripts c = [.programMissing] := by
            simp [verdict, herrors, hprogram]
          refine iff_of_true ⟨.programMissing, ?_, rfl⟩ ?_
          · rw [hverdict]
            exact List.mem_append_right _ List.mem_cons_self
          · rw [Compilation.succeeded, hprogram, Bool.and_false]
      | true =>
          have hsucceeded : c.succeeded = true := by
            simp [Compilation.succeeded, herrors, hprogram]
          have hverdict : verdict scripts c =
              [.compiled scripts c.lines.length c.warnings.length] := by
            simp [verdict, hprogram, hsucceeded]
          refine iff_of_false ?_ (by simp [hsucceeded])
          rintro ⟨n, hn, herror⟩
          rw [hverdict, List.mem_append, List.mem_singleton] at hn
          rcases hn with hn | rfl
          · obtain ⟨d, hd, rfl⟩ := List.mem_map.mp hn
            rw [Compilation.diagnostics, herrors, List.nil_append] at hd
            -- a warning is logged as one
            rw [logged, Note.level, h.warnings d hd] at herror
            cases herror
          · cases herror

/-- Compiling files that can be found comes to a compilation, and what is logged fits it: its
diagnostics, errors before warnings, each once and by its severity; and an error, of a
diagnostic or another, if and only if the compilation did not succeed. -/
theorem failed_iff_error_logged {compiler : Compiler} {locate : Assets.Locator} {paths : List Datum}
    {places : List String} {ds : List Diagnostic} {c : Compilation}
    (hpaths : List.Forall₂ (Assets.Resolves locate) (paths.filter Datum.truth) places)
    (hcompile : places ≠ [] → ComesTo (compiler.compile places) ds c) :
    ∃ made records, Adds (compileFiles compiler locate paths) (.ok made) records ∧
      (places = [] → made = {}) ∧
      (places ≠ [] → made = c ∧ made.diagnostics =
        ds.filter (·.severity = .error) ++ ds.filter (·.severity = .warning)) ∧
      records.filterMap diagnosis? =
        made.diagnostics.map (fun d => .diagnostic (level d.severity) d.shown) ∧
      ((∃ n, .log n ∈ records ∧ n.level = .error) ↔ made.succeeded = false) := by
  by_cases hsome : places = []
  · subst hsome
    refine ⟨{}, _, adds_compileFiles_of_nil hpaths, fun _ => rfl, absurd rfl, rfl, ?_⟩
    exact iff_of_true ⟨.nothingToCompile, List.mem_cons_self, rfl⟩ rfl
  · have hcompile := hcompile hsome
    refine ⟨c, _, adds_compileFiles hpaths hsome hcompile, fun h => absurd h hsome,
      fun _ => ⟨rfl, hcompile.diagnostics_eq⟩, ?_, ?_⟩
    · have hlookups : ((paths.filter Datum.truth).flatMap Assets.lookups).filterMap diagnosis? =
          [] := by
        refine List.filterMap_eq_nil_iff.mpr fun r hr => ?_
        cases r with
        | log => exact absurd hr Assets.log_not_mem_lookups
        | _ => rfl
      have hdiagnostics : ((c.diagnostics.map logged).map Record.log).filterMap diagnosis? =
          c.diagnostics.map logged := by
        rw [List.map_map, List.filterMap_map]
        exact congrFun (List.filterMap_eq_map (f := logged)) c.diagnostics
      rw [List.filterMap_append, hlookups, List.nil_append, List.filterMap_cons_none rfl,
        List.map_append, List.filterMap_append, hdiagnostics, diagnosis?_verdict, List.append_nil]
      rfl
    · rw [← error_logged_iff hcompile.sorted places.length]
      refine exists_congr fun n => and_congr_left fun _ => ?_
      rw [List.mem_append, or_iff_right Assets.log_not_mem_lookups, List.mem_cons,
        or_iff_right (by nofun), List.mem_map_of_injective fun _ _ => Record.log.inj]

/-- What a compiler complains of: nothing that it calls an error. -/
def complaints : List Diagnostic :=
  [{ message := .text "no title", severity := .warning, startLine := .int 3 },
    { message := .text "odd", severity := .warning, file := .text "b" }]

/-- A compiler that gives up with its complaints. -/
def fussy : Compiler where
  compile _ := .error (.diagnostics complaints)
  addTags contents _ := .ok contents

/-- The handle `scripts` stands for a directory with one script in it. -/
def oneScript : Assets.Locator := fun path =>
  if path = ":scripts:/a" then .ok "/srv/scripts/a" else .error (.accident .fileMissing)

/-- A compiler gave up with warnings alone: the log has them, and an error of its own. -/
theorem failed_iff_error_logged_of_fussy :
    List.Forall₂ (Assets.Resolves oneScript)
      ([.text ":scripts:/a", .text "", .text "b"].filter Datum.truth) ["/srv/scripts/a", "b"] ∧
    ComesTo (fussy.compile ["/srv/scripts/a", "b"]) complaints
      (Compilation.ofDiagnostics complaints) ∧
    ∃ made records,
      Adds (compileFiles fussy oneScript [.text ":scripts:/a", .text "", .text "b"]) (.ok made)
        records ∧
      records.filterMap diagnosis? =
        [.diagnostic .warning "line 3: no title", .diagnostic .warning "b:0: odd"] ∧
      made.succeeded = false ∧ ∃ n, .log n ∈ records ∧ n.level = .error := by
  have hpaths : List.Forall₂ (Assets.Resolves oneScript)
      ([.text ":scripts:/a", .text "", .text "b"].filter Datum.truth) ["/srv/scripts/a", "b"] :=
    .cons (.located rfl (if_pos rfl)) (.cons (.plain (by decide)) .nil)
  have hcompile : ComesTo (fussy.compile ["/srv/scripts/a", "b"]) complaints
      (Compilation.ofDiagnostics complaints) := .gaveUp complaints
  obtain ⟨made, records, hadds, -, hmade, hlogged, herror⟩ :=
    failed_iff_error_logged hpaths fun _ => hcompile
  obtain ⟨rfl, -⟩ := hmade (by decide)
  exact ⟨hpaths, hcompile, _, records, hadds, hlogged, rfl, herror.mpr rfl⟩

end Compiler

end Parley
