import Parley.Proofs.Admitting
import Parley.Proofs.Informing

/-!
# A saved state restored

To save is to hand out the entries of the table, and to restore is to clear and to write them like
any batch of the host: each name is looked at again, each value converted again.  That this ends
where it began is no matter of the two alone.  It takes what is known of all entries that ever get
into a store (`Stock.WellKept`).

| | |
| :-- | :-- |
| a name starts with the sigil | it is accepted again, under the same sigil |
| a value is of the three classes | it is stored as it is (`Datum.Hosted.normal`) |
| a name is there once | its entry goes to the end, so the order is the order saved |

`state_restored` takes the state from any run, by a host that does what it likes, between requests
or inside of one, and lets the run go on.  The store it is restored in is another one, of another
host with another interpreter, and may hold anything (`Restorable`).  Only the sigil must be the
same, and the listeners there attentive.
-/

namespace Parley

section
variable {s : Stock} {sigil : String}

theorem Stock.WellKept.accepted (h : s.WellKept sigil) {settings : Settings}
    (hsigil : settings.sigil = .ok (.text sigil)) {e : Datum × Datum} (he : e ∈ s.store.entries) :
    Session.accepted? settings e = some (Session.told e) := by
  obtain ⟨name, hname, hprefix⟩ := h.names e.1 (List.mem_map_of_mem he)
  have hhosted : e.2.Hosted := h.values e.2 (List.mem_map_of_mem he)
  have hvalid : Session.isValidName settings e.1 = .ok true := by
    rw [hname, Session.isValidName, hsigil]
    exact congrArg Except.ok hprefix
  exact Session.accepted?_eq_some.mpr ⟨hvalid, e.2, hhosted.normal, rfl⟩

/-- Names that are kept apart as texts are apart as keys. -/
theorem Stock.WellKept.apart (h : s.WellKept sigil) :
    s.store.entries.Pairwise fun e f => (e.1 == f.1) = false := by
  have hdistinct : s.store.entries.Pairwise fun e f => e.1 ≠ f.1 := List.pairwise_map.mp h.distinct
  refine hdistinct.imp_of_mem ?_
  intro e f he _ hne
  obtain ⟨name, hname, -⟩ := h.names e.1 (List.mem_map_of_mem he)
  rw [hname] at hne ⊢
  rw [← Bool.not_eq_true, Datum.text_beq]
  exact hne.symm

theorem Stock.WellKept.insertAll (h : s.WellKept sigil) :
    ({} : Keyed Datum Datum).insertAll s.store.entries = s.store :=
  congrArg Keyed.mk (Keyed.entries_insertAll h.apart nofun)

end

namespace Session

open Act

variable {H I L : Type} {ip : Interpreter I L} {react : Host H I} {w₀ w : World H I}

theorem yields_saveState {fuel : Nat} {a : Except Fault Answer} {w' : World H I} :
    Yields (exec ip react (fuel + 1) .saveState) w a w' ↔
      a = .ok (.saved w.store.entries) ∧ w' = w := by
  show Yields (do return .saved (← get).store.entries) w a w' ↔ _
  rw [yields_get_bind, yields_pure]

/-- What is saved here is what any store holds after it is restored there, under the same sigil and
with attentive listeners, whatever that store held.  One clearing and then each variable are told,
in order. -/
def Restorable (sigil : String) (u : World H I) : Prop :=
  ∀ (H' I' L' : Type) (ip' : Interpreter I' L') (react' : Host H' I') (t : World H' I')
    (fuel : Nat), react'.Attends → t.settings.sigil = .ok (.text sigil) → t.writeStub = none →
    ∃ host t',
      Yields (exec ip' react' (fuel + 1) (.restoreState u.store.entries)) t (.ok .done) t' ∧
      t' = t.informed (.storeCleared :: u.store.entries.map told) host ∧ t'.store = u.store

theorem restorable_of_wellKept {u : World H I} {sigil : String} (hkept : u.stock.WellKept sigil) :
    Restorable sigil u := by
  intro H' I' L' ip' react' t fuel hreact' hsigil hstub
  have haccepted : List.Forall₂ (fun e n => accepted? t.settings e = some n) u.store.entries
      (u.store.entries.map told) :=
    List.forall₂_map_right_iff.mpr (List.forall₂_same.mpr fun _ he => hkept.accepted hsigil he)
  obtain ⟨host, hrestore⟩ :=
    restore_informs (callHost_hears hreact' (exec ip' react' fuel)) rfl hstub haccepted
  refine ⟨host, _, yields_bind_pure.mpr ⟨_, hrestore, rfl⟩, rfl, ?_⟩
  calc (t.informed (.storeCleared :: u.store.entries.map told) host).store
    _ = (u.store.entries.map told).foldl (fun t n => n.play t) {} := rfl
    _ = ({} : Keyed Datum Datum).insertAll u.store.entries := play_told {} u.store.entries
    _ = u.store := hkept.insertAll

/-- What a run has saved can be restored, however the run went on.  During a request it can be
saved whenever the host is called and whenever a request of a callback has come to its result. -/
theorem state_restored {steps : List (Request I × Except Fault Answer)} {sigil : String}
    (hsigil : w₀.settings.sigil = .ok (.text sigil)) (hempty : w₀.store = {})
    (hrun : Run ip react w₀ steps w) :
    (∀ before a after, steps = before ++ (.saveState, a) :: after →
      ∃ u, Run ip react w₀ before u ∧ a = .ok (.saved u.store.entries) ∧ Restorable sigil u) ∧
    ∀ fuel r a w', Yields (exec ip react fuel r) w a w' →
      Yields (execWithin ip react (Restorable sigil) fuel r) w a w' := by
  have hkept : ∀ {steps : List (Request I × Except Fault Answer)} {u : World H I},
      Run ip react w₀ steps u → u.stock.WellKept sigil ∧ ∀ fuel r a w',
        Yields (exec ip react fuel r) u a w' →
          Yields (execWithin ip react (Restorable sigil) fuel r) u a w' := fun hrun =>
    hrun.within (lasts_wellKept sigil) (fun _ => restorable_of_wellKept)
      (Stock.wellKept_of_empty hsigil hempty)
  refine ⟨?_, (hkept hrun).2⟩
  rintro before a after rfl
  obtain ⟨u, v, fuel, hbefore, hsaved, -⟩ := hrun.exists_step
  obtain ⟨fuel, rfl, -⟩ := yields_exec.mp hsaved
  obtain ⟨rfl, -⟩ := yields_saveState.mp hsaved
  exact ⟨u, hbefore, rfl, restorable_of_wellKept (hkept hbefore).1⟩

/-- What is no number, a zero below zero and an integer; `$a` is where the batch is cut. -/
def delicate : List (Datum × Datum) :=
  [(.text "$n", .float .nan), (.text "$z", .float Double.zero.neg), (.text "$i", .int 3),
    (.text "$a", .text ""), (.text "$l", .bool true)]

/-- The variables before the cut, and the one that the listener writes. -/
def asWritten (t : Keyed Datum Datum) : Bool :=
  match t.entries with
  | [(.text "$n", .float .nan), (.text "$z", .float z), (.text "$i", .float _),
      (.text "$a", .text ""), (.text "$b", .bool true)] => z.isNegative && z.isZero
  | _ => false

/-- They are there, and gone once the store is cleared. -/
def writtenThenCleared (u : World Unit Script.State) : Bool :=
  asWritten u.store &&
    (follow Script.interpreter meddling 9 [.clearVariables] u).any fun p => p.2.store.size == 0

theorem state_restored_of_meddling :
    ∃ before after a w, ∃ (u : World Unit Script.State) (t' : World Nat Script.State),
      Run Script.interpreter meddling overheard (before ++ (.saveState, a) :: after) w ∧
      w.store.size = 0 ∧ a = .ok (.saved u.store.entries) ∧ stocked.store.size = 1 ∧
      (counting : Host Nat Script.State).Attends ∧
      Yields (exec Script.interpreter counting 1 (.restoreState u.store.entries)) stocked
        (.ok .done) t' ∧
      t'.store = u.store ∧ asWritten t'.store = true := by
  have hfollow : (follow Script.interpreter meddling 9 [.setVariables delicate] overheard).any
      (fun p => writtenThenCleared p.2) = true := by
    decide +kernel
  obtain ⟨before, u, hbefore, hu⟩ := run_of_follow_any hfollow
  obtain ⟨hwritten, hcleared⟩ := Bool.and_eq_true_iff.mp hu
  obtain ⟨after, w, hafter, hw⟩ := run_of_follow_any hcleared
  have hsaved : Yields (exec Script.interpreter meddling 1 .saveState) u
      (.ok (.saved u.store.entries)) u := yields_saveState.mpr ⟨rfl, rfl⟩
  have hrun := hbefore.append ((Run.rest.step hsaved).append hafter)
  have hsigil : overheard.settings.sigil = .ok (.text "$") := by with_unfolding_all rfl
  obtain ⟨u', -, hsame, hrestore⟩ := (state_restored hsigil rfl hrun).1 before _ after rfl
  obtain ⟨host, t', hyields, -, hstore⟩ := hrestore _ _ _ Script.interpreter counting stocked 0
    counting_attends (by with_unfolding_all rfl) rfl
  have hentries : u.store.entries = u'.store.entries := by
    injection hsame with hsame
    injection hsame
  have hstores : u.store = u'.store := congrArg Keyed.mk hentries
  refine ⟨before, after, _, w, u', t', hrun, eq_of_beq hw, hsame, rfl, counting_attends, hyields,
    hstore, ?_⟩
  rw [hstore, ← hstores]
  exact hwritten

end Session

end Parley
