import Parley.Proofs.Readings

/-!
# Batches that are attempted

A batch of writes should be attempted entry by entry, with a result for each, whatever the
values; and restoring a saved state should leave its valid entries and nothing else.

| the entry | its result | the batch |
| :-- | :-- | :-- |
| a name that is not valid | refused | goes on |
| a valid name, a value that is stored | accepted | goes on |
| a valid name, a value of another kind | refused | goes on |
| a valid name, an integer too large in the way | none | ends here, by a fault |

`batch_attempted` is both: as long as all entries are manageable (`Manageable`), everything
holds as it should, and otherwise it holds of the entries before the first that is not.  A
state that is restored is cleared first, so what is left of it then is a part, and what was
stored before is gone (`restored_in_part`).

The results do not depend on what listeners do, as long as none fails (`Host.Heeds`): a
listener may write while it is told.  What the table holds in the end does, so of that
only listeners that ask for nothing are considered.
-/

namespace Parley

/-! ## Listeners that do not fail -/

theorem steady_onStock_grows {H I : Type} :
    Steady (OnStock Stock.Grows : World H I → World H I → Prop) :=
  fun _ _ h => ⟨h.settings, h.writeStub⟩

/-- The notices were announced in this order, other ones perhaps in between. -/
def Announces {H I : Type} (ns : List Notice) (w w' : World H I) : Prop :=
  ∃ ms, w'.announced = w.announced ++ ms ∧ ns.Sublist ms

theorem Tells.announces {H I : Type} {ns : List Notice} {w w' : World H I}
    (h : Tells (OnStock Stock.Grows) ns w w') : Announces ns w w' := by
  induction h with
  | rest h =>
      obtain ⟨ms, hms⟩ := h.announced
      exact ⟨ms, hms.symm, List.nil_sublist ms⟩
  | @tell n ns w u w' h _ ih =>
      obtain ⟨before, hbefore⟩ := h.announced
      obtain ⟨after, hafter, hns⟩ := ih
      refine ⟨before ++ n :: after, ?_, List.sublist_append_of_sublist_right (hns.cons_cons n)⟩
      rw [hafter]
      show u.announced ++ [n] ++ after = _
      rw [← show w.announced ++ before = u.announced from hbefore]
      simp

/-- Under the settings, listeners told of a change do not fail, whatever they ask for. -/
def Host.Heeds {H I L : Type} (react : Host H I) (ip : Interpreter I L) (fuel : Nat)
    (s : Settings) : Prop :=
  ∀ l n, n.isChange = true → ∀ w, w.settings = s →
    ∃ d w', Act.Yields (Session.calls ip react fuel (.listener l n)) w (.ok d) w'

namespace Session

open Act

variable {H I L : Type}

theorem answers_of_heeds {ip : Interpreter I L} {react : Host H I} {fuel : Nat} {s : Settings}
    (hheeds : react.Heeds ip fuel s) : (calls ip react fuel).Answers (OnStock Stock.Grows) s := by
  intro l n hn w hw
  obtain ⟨d, w', hcall⟩ := hheeds l n hn w hw
  exact ⟨d, w', hcall, calls_keep_stock ip react fuel _ w _ w' hcall⟩

theorem heeds_of_attends {react : Host H I} (hreact : react.Attends) (ip : Interpreter I L)
    (fuel : Nat) (s : Settings) : react.Heeds ip fuel s := by
  intro l n hn w hw
  obtain ⟨d, w', hcall, -⟩ := callHost_attends hreact (exec ip react fuel) s l n hn w hw
  exact ⟨d, w', hcall⟩

/-! ## Entries -/

/-- The variable that an entry of a batch makes, if its name and its value are accepted. -/
def binding? (s : Settings) (e : Datum × Datum) : Option (Datum × Datum) :=
  match isValidName s e.1 with
  | .ok true => e.2.normal?.map fun d => (e.1, d)
  | _ => none

/-- What an entry of a batch comes to, where it comes to something. -/
def verdict (s : Settings) (e : Datum × Datum) : WriteResult :=
  match isValidName s e.1 with
  | .ok true => if e.2.normal?.isSome then .ok else .unknown
  | _ => .invalidName

/-- If the name is valid, no integer stands in the way of storing or refusing the value. -/
def Manageable (s : Settings) (e : Datum × Datum) : Prop :=
  isValidName s e.1 = .ok true → e.2.tooLarge = false

/-- The change that a variable makes. -/
def told (e : Datum × Datum) : Notice := .variableChanged e.1 e.2

theorem accepted?_eq (s : Settings) (e : Datum × Datum) :
    accepted? s e = (binding? s e).map told := by
  unfold accepted? binding?
  cases isValidName s e.1 with
  | error f => rfl
  | ok valid =>
      cases valid with
      | true => exact (Option.map_map told (fun d => (e.1, d)) e.2.normal?).symm
      | false => rfl

theorem key_of_binding {s : Settings} {e x : Datum × Datum} (h : binding? s e = some x) :
    x.1 = e.1 := by
  unfold binding? at h
  split at h
  · obtain ⟨d, -, rfl⟩ := Option.map_eq_some_iff.mp h
    rfl
  · cases h

theorem play_told (t : Keyed Datum Datum) (es : List (Datum × Datum)) :
    (es.map told).foldl (fun t n => n.play t) t = t.insertAll es := by
  rw [List.foldl_map]
  rfl

theorem attempted_of_not_manageable {s : Settings} {e : Datum × Datum} (he : ¬ Manageable s e) :
    ∃ f, stored e.2 = .error f ∧ f.isA .conversion = false ∧ attempted s e = .error f := by
  obtain ⟨hvalid, hlarge⟩ := Classical.not_imp.mp he
  rw [Bool.not_eq_false] at hlarge
  rcases stored_cases e.2 with ⟨d, -, hsmall, -⟩ | ⟨-, f, hstored, hf⟩
  · rw [hlarge] at hsmall
    cases hsmall
  · rw [hlarge] at hf
    exact ⟨f, hstored, hf, by simp [attempted, hvalid, hstored, hf]⟩

section
variable {s : Settings} {sigil : String} (hsigil : s.sigil = .ok (.text sigil))
include hsigil

theorem raises_eq_false_iff (e : Datum × Datum) : raises s e = false ↔ Manageable s e := by
  unfold Manageable
  rcases isValidName_cases hsigil e.1 with hvalid | hvalid
  · simp [raises, hvalid]
  · simp [raises, hvalid, hsigil, Except.toOption]

theorem attempted_of_manageable {e : Datum × Datum} (he : Manageable s e) :
    attempted s e = .ok (verdict s e) := by
  rcases isValidName_cases hsigil e.1 with hvalid | hvalid
  · have hlarge := he hvalid
    rcases stored_cases e.2 with ⟨d, hnormal, -, hstored⟩ | ⟨hnormal, f, hstored, hf⟩
    · simp [attempted, verdict, hvalid, hnormal, hstored]
    · rw [hlarge] at hf
      simp [attempted, verdict, hvalid, hnormal, hstored, hf]
  · simp [attempted, verdict, hvalid, hsigil, Except.map]

/-! ## Batches -/

/-- What a batch of writes comes to, and what it makes of its entries. -/
structure Batched (s : Settings) (entries : List (Datum × Datum))
    (r : Except Fault (List (Datum × WriteResult))) (made : List (Datum × Datum)) : Prop where
  whole : (∀ e ∈ entries, Manageable s e) →
    r = .ok (entries.map fun e => (e.1, verdict s e)) ∧ made = entries.filterMap (binding? s)
  cut : ∀ before e after, entries = before ++ e :: after → (∀ b ∈ before, Manageable s b) →
    ¬ Manageable s e → (∃ f, stored e.2 = .error f ∧ f.isA .conversion = false ∧ r = .error f) ∧
      made = before.filterMap (binding? s)

/-- What a batch of the host makes of its entries. -/
def made (s : Settings) (entries : List (Datum × Datum)) : List (Datum × Datum) :=
  (entries.takeWhile fun e => !raises s e).filterMap (binding? s)

theorem batched_attemptedAll (entries : List (Datum × Datum)) :
    Batched s entries (attemptedAll s entries) (made s entries) := by
  have hgo : ∀ {before : List (Datum × Datum)}, (∀ b ∈ before, Manageable s b) →
      ∀ b ∈ before, (!raises s b) = true := by
    intro before hbefore b hb
    rw [(raises_eq_false_iff hsigil b).mpr (hbefore b hb)]
    rfl
  have hresult : ∀ {e}, Manageable s e →
      (attempted s e).map (fun result => (e.1, result)) = .ok (e.1, verdict s e) := by
    intro e he
    rw [attempted_of_manageable hsigil he]
    rfl
  refine ⟨fun hall => ⟨mapM_eq_ok fun e he => hresult (hall e he), ?_⟩, ?_⟩
  · rw [made, List.takeWhile_eq_self_iff.mpr (hgo hall)]
  · rintro before e after rfl hbefore he
    obtain ⟨f, hstored, hf, hattempted⟩ := attempted_of_not_manageable he
    refine ⟨⟨f, hstored, hf, ?_⟩, ?_⟩
    · unfold attemptedAll
      rw [List.mapM_append, mapM_eq_ok fun b hb => hresult (hbefore b hb), List.mapM_cons,
        hattempted]
      rfl
    · have hraises : raises s e = true := by
        rw [← Bool.not_eq_false]
        exact fun h => he ((raises_eq_false_iff hsigil e).mp h)
      rw [made, List.takeWhile_append_of_pos (hgo hbefore), List.takeWhile_cons_of_neg
        (by simp [hraises]), List.append_nil]

end

theorem hostBatch_eq_made (s : Settings) (entries : List (Datum × Datum)) :
    hostBatch s entries = (made s entries).map told := by
  unfold hostBatch made
  rw [List.map_filterMap]
  exact congrArg (List.filterMap · _) (funext (accepted?_eq s))

theorem distinct_made (s : Settings) {entries : List (Datum × Datum)}
    (h : entries.Pairwise fun e f => (e.1 == f.1) = false) :
    (made s entries).Pairwise fun e f => (e.1 == f.1) = false := by
  refine List.Pairwise.filterMap _ ?_ (h.sublist (List.takeWhile_sublist _))
  intro e f hapart x hx y hy
  rw [key_of_binding hx, key_of_binding hy]
  exact hapart

/-- Whatever the values, a batch of the host comes to an end.  Its entries are attempted in order,
each with its result, up to the first that is not manageable; there it ends by a fault that is
none of the conversion, with what came before in place.  The same goes for a state restored, and
if nobody writes meanwhile, what came before is then all there is. -/
theorem batch_attempted (ip : Interpreter I L) {react : Host H I} {fuel : Nat} {w : World H I}
    {sigil : String} (hheeds : react.Heeds ip fuel w.settings)
    (hsigil : w.settings.sigil = .ok (.text sigil)) (hstub : w.writeStub = none)
    (entries : List (Datum × Datum)) :
    ∃ r made, Batched w.settings entries r made ∧
      (∃ w', Yields (exec ip react (fuel + 1) (.setVariables entries)) w (r.map .wroteAll) w' ∧
        Announces (made.map told) w w' ∧ (react.Attends → w'.store = w.store.insertAll made)) ∧
      ∃ w', Yields (exec ip react (fuel + 1) (.restoreState entries)) w (r.map fun _ => .done) w' ∧
        Announces (.storeCleared :: made.map told) w w' ∧
        (react.Attends → (entries.Pairwise fun e f => (e.1 == f.1) = false) →
          w'.store.entries = made) := by
  have hinvoke := answers_of_heeds hheeds
  have hattends : react.Attends → (calls ip react fuel).Answers (OnStock Eq) w.settings :=
    fun hreact => callHost_attends hreact _ _
  refine ⟨_, _, batched_attemptedAll hsigil entries, ?_, ?_⟩
  · obtain ⟨w', hset, htells⟩ :=
      setVariables_answers hinvoke steady_onStock_grows rfl hstub entries
    refine ⟨w', yields_bind_pure.mpr ⟨_, hset, rfl⟩, hostBatch_eq_made .. ▸ htells.announces, ?_⟩
    intro hreact
    obtain ⟨w'', hset', htells'⟩ :=
      setVariables_answers (hattends hreact) steady_onStock_eq rfl hstub entries
    obtain ⟨-, rfl⟩ := hset.unique hset'
    have hstock := htells'.stock
    rw [Stock.changeAll_eq, hostBatch_eq_made, play_told] at hstock
    exact congrArg Stock.store hstock
  · obtain ⟨w', hrestore, htells⟩ :=
      restore_answers hinvoke steady_onStock_grows rfl hstub entries
    refine ⟨w', yields_bind_pure.mpr ⟨_, hrestore, ?_⟩, hostBatch_eq_made .. ▸ htells.announces, ?_⟩
    · cases attemptedAll w.settings entries <;> rfl
    · intro hreact hdistinct
      obtain ⟨w'', hrestore', htells'⟩ :=
        restore_answers (hattends hreact) steady_onStock_eq rfl hstub entries
      obtain ⟨-, rfl⟩ := hrestore.unique hrestore'
      have hstock := htells'.stock
      rw [Stock.changeAll_eq, hostBatch_eq_made, List.foldl_cons, play_told] at hstock
      have hstore : w'.store = _ := congrArg Stock.store hstock
      rw [hstore]
      exact Keyed.entries_insertAll (distinct_made _ hdistinct) nofun

/-- An integer too large for a double stands between two entries that are accepted. -/
def crowdedOut : List (Datum × Datum) :=
  [(.text "$a", .bool true), (.text "$b", .int (Int.pow 10 400)), (.text "$c", .text "c")]

/-- A store with somebody listening, and something in it. -/
def stocked : World Nat Script.State := { listened with store := ⟨[(.text "$old", .bool true)]⟩ }

/-- The request raises, and of these names the store has this one alone. -/
def raisesWith (r : Request Script.State) (names : List String) (only : String) : Bool :=
  ((exec Script.interpreter counting 1 r).run.run stocked).any fun p =>
    p.1.toOption.isNone && names.all fun s => p.2.store.contains (.text s) == (s == only)

theorem yields_of_raisesWith {r : Request Script.State} {names : List String} {only : String}
    (h : raisesWith r names only = true) : ∃ f w',
      Yields (exec Script.interpreter counting 1 r) stocked (.error f) w' ∧
        ∀ s ∈ names, w'.store.contains (.text s) = (s == only) := by
  obtain ⟨⟨a, w'⟩, hyields, hw⟩ := (Option.any_eq_true _ _).mp h
  obtain ⟨ha, hnames⟩ := Bool.and_eq_true_iff.mp hw
  cases a with
  | ok _ => cases ha
  | error f => exact ⟨f, w', hyields, by simpa using hnames⟩

/-- Nothing is wrong about the listeners, nor about the names.  Yet the batch raises and has no
results, its last entry is not attempted, and restoring leaves a part where the old state was. -/
theorem restored_in_part :
    (counting : Host Nat Script.State).Attends ∧
      (∀ e ∈ crowdedOut, isValidName stocked.settings e.1 = .ok true) ∧
      (∃ f w', Yields (exec Script.interpreter counting 1 (.setVariables crowdedOut)) stocked
        (.error f) w' ∧ ∀ s ∈ ["$a", "$b", "$c"], w'.store.contains (.text s) = (s == "$a")) ∧
      ∃ f w', Yields (exec Script.interpreter counting 1 (.restoreState crowdedOut)) stocked
        (.error f) w' ∧
          ∀ s ∈ ["$old", "$a", "$b", "$c"], w'.store.contains (.text s) = (s == "$a") := by
  refine ⟨fun told _ _ _ => ⟨told + 1, .nothing, rfl⟩, ?_, ?_, ?_⟩
  · intro e he
    simp only [crowdedOut, List.mem_cons, List.not_mem_nil, or_false] at he
    rcases he with rfl | rfl | rfl <;> with_unfolding_all rfl
  · exact yields_of_raisesWith (by decide +kernel)
  · exact yields_of_raisesWith (by decide +kernel)

/-- Of the same state, what stands before the integer is restored. -/
theorem batch_attempted_of_crowdedOut : ∃ f w',
    (counting : Host Nat Script.State).Heeds Script.interpreter 0 stocked.settings ∧
      stocked.settings.sigil = .ok (.text "$") ∧ stocked.writeStub = none ∧
      stored (.int (Int.pow 10 400)) = .error f ∧
      Yields (exec Script.interpreter counting 1 (.restoreState crowdedOut)) stocked
        (.error f) w' ∧ w'.store.entries = [(.text "$a", .bool true)] := by
  have hattends : (counting : Host Nat Script.State).Attends := fun told _ _ _ =>
    ⟨told + 1, .nothing, rfl⟩
  have hheeds := heeds_of_attends hattends Script.interpreter 0 stocked.settings
  have hsigil : stocked.settings.sigil = .ok (.text "$") := by with_unfolding_all rfl
  have hlarge : (Datum.int (Int.pow 10 400)).tooLarge = true := by decide +kernel
  have hdistinct : crowdedOut.Pairwise fun e f => (e.1 == f.1) = false := by decide
  obtain ⟨r, made, hbatched, -, w', hrestore, -, hstore⟩ :=
    batch_attempted Script.interpreter hheeds hsigil rfl crowdedOut
  obtain ⟨⟨f, hstored, -, rfl⟩, rfl⟩ := hbatched.cut [(.text "$a", .bool true)] _ _ rfl
    (List.forall_mem_singleton.mpr fun _ => rfl) fun h => by
      have hsmall : (Datum.int (Int.pow 10 400)).tooLarge = false := h (by with_unfolding_all rfl)
      rw [hlarge] at hsmall
      cases hsmall
  refine ⟨f, w', hheeds, hsigil, rfl, hstored, hrestore, ?_⟩
  rw [hstore hattends hdistinct]
  with_unfolding_all rfl

end Session

end Parley
