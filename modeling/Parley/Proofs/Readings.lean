import Parley.Proofs.Accepted
import Mathlib.Data.List.Induction

/-!
# What the variables read as

The host reads what is stored, the interpreter reads it as script values.  Each can ask for
one variable, whether there is one, and for all of them.

All these readings agree with one function of what was asked for: `latest` is the last
change under a name, if the variables were not cleared since.  `readings_after` says so of
any requests about variables, by whichever interface, over a table that was empty at first.
Writes that were refused are in none of the changes, so they are in no reading either.

The values that count as false are not set apart anywhere.  Only nothing at all is read as
a missing variable, and nothing is not among the values that are stored (`Datum.Hosted`).
-/

namespace Parley

/-! ## The last write -/

/-- The value under a name of which a notice tells. -/
def Notice.valueOf? (name : Datum) : Notice → Option Datum
  | .variableChanged written value => if written == name then some value else none
  | _ => none

def Notice.clears : Notice → Bool
  | .storeCleared => true
  | _ => false

/-- The last value told of under a name since the last clearing. -/
def latest (ns : List Notice) (name : Datum) : Option Datum :=
  (ns.reverse.takeWhile fun n => !n.clears).findSome? (Notice.valueOf? name)

/-- A change that the store can make: the name is a text, the value of a stored class. -/
def Notice.Sound : Notice → Prop
  | .variableChanged name value => (∃ s, name = .text s) ∧ value.Hosted
  | _ => True

theorem latest_concat (ns : List Notice) (n : Notice) (name : Datum) :
    latest (ns ++ [n]) name =
      if n.clears then none else (n.valueOf? name).or (latest ns name) := by
  unfold latest
  rw [List.reverse_append, List.reverse_singleton, List.singleton_append, List.takeWhile_cons]
  cases n.clears with
  | true => rfl
  | false =>
      show List.findSome? _ (n :: _) = _
      rw [List.findSome?_cons]
      cases n.valueOf? name <;> rfl

/-- Only texts have a value told of under them, and only values of a stored class are. -/
theorem sound_of_latest {ns : List Notice} (hns : ∀ n ∈ ns, n.Sound) {name d : Datum}
    (h : latest ns name = some d) : (∃ s, name = .text s) ∧ d.Hosted := by
  obtain ⟨n, hn, hvalue⟩ := List.exists_of_findSome?_eq_some h
  have hmem : n ∈ ns := List.mem_reverse.mp ((List.takeWhile_sublist _).subset hn)
  cases n with
  | variableChanged written value =>
      obtain ⟨⟨s, rfl⟩, hhosted⟩ := hns _ hmem
      obtain ⟨hname, hvalue⟩ := Option.ite_none_right_eq_some.mp hvalue
      cases hvalue
      exact ⟨⟨s, (Datum.text_beq s name).mp hname⟩, hhosted⟩
  | _ => cases hvalue

theorem Notice.Sound.named {n : Notice} (h : n.Sound) : n.Named := by
  cases n with
  | variableChanged => exact h.1
  | _ => trivial

theorem get?_replay {ns : List Notice} (hns : ∀ n ∈ ns, n.Named) (name : Datum) :
    (replay ns).get? name = latest ns name := by
  induction ns using List.reverseRecOn with
  | nil => rfl
  | append_singleton ns n ih =>
      rw [List.forall_mem_append, List.forall_mem_singleton] at hns
      rw [replay_concat, latest_concat, ← ih hns.1]
      cases n with
      | variableChanged written value =>
          obtain ⟨s, rfl⟩ := hns.2
          show ((replay ns).insert _ _).get? name =
            (if Datum.text s == name then some value else none).or _
          cases hname : Datum.text s == name with
          | true =>
              obtain rfl := (Datum.text_beq s name).mp hname
              exact Keyed.get?_insert hname _ _
          | false =>
              refine Keyed.get?_insert_of_ne ?_ hname _ _
              intro k hk
              rw [(Datum.beq_text k s).mp hk, hname]
      | _ => rfl

theorem replay_hosted {ns : List Notice} (hns : ∀ n ∈ ns, n.Sound) :
    ∀ e ∈ (replay ns).entries, e.2.Hosted := by
  induction ns using List.reverseRecOn with
  | nil => nofun
  | append_singleton ns n ih =>
      rw [List.forall_mem_append, List.forall_mem_singleton] at hns
      rw [replay_concat]
      cases n with
      | variableChanged written value =>
          intro e he
          rcases Keyed.mem_put he with hmem | hvalue
          · exact ih hns.1 e hmem
          · rw [hvalue]
            exact hns.2.2
      | storeCleared => nofun
      | _ => exact ih hns.1

theorem nodup_keys_replay {ns : List Notice} (hns : ∀ n ∈ ns, n.Sound) :
    (replay ns).keys.Nodup := by
  induction ns using List.reverseRecOn with
  | nil => exact List.nodup_nil
  | append_singleton ns n ih =>
      rw [List.forall_mem_append, List.forall_mem_singleton] at hns
      rw [replay_concat]
      cases n with
      | variableChanged written value =>
          obtain ⟨⟨s, rfl⟩, -⟩ := hns.2
          exact Keyed.nodup_keys_insert ((Datum.text_beq s _).mpr rfl) (ih hns.1) value
      | storeCleared => exact List.nodup_nil
      | _ => exact ih hns.1

namespace Session

open Act

theorem sound_of_accepted {s : Settings} {e : Datum × Datum} {n : Notice}
    (h : accepted? s e = some n) : n.Sound := by
  unfold accepted? at h
  split at h
  · next hvalid =>
    obtain ⟨d, hnormal, rfl⟩ := Option.map_eq_some_iff.mp h
    refine ⟨?_, Datum.hosted_of_normal hnormal⟩
    unfold isValidName at hvalid
    split at hvalid
    · next name hname => exact ⟨name, hname⟩
    · cases hvalid
  · cases h

theorem sound_of_acceptedValue {s : Settings} {e : Datum × Datum} {n : Notice}
    (h : acceptedValue? s e = some n) : n.Sound :=
  sound_of_accepted (Option.ite_none_right_eq_some.mp h).2

theorem sound_of_hostBatch {s : Settings} {entries : List (Datum × Datum)} :
    ∀ n ∈ hostBatch s entries, n.Sound := by
  intro n hn
  obtain ⟨e, -, haccepted⟩ := List.mem_filterMap.mp hn
  exact sound_of_accepted haccepted

theorem sound_of_changes (s : Settings) (r : Request I) : ∀ n ∈ changes s r, n.Sound := by
  intro n hn
  cases r with
  | setVariable name value => exact sound_of_accepted (Option.mem_toList.mp hn)
  | setVariables entries => exact sound_of_hostBatch n hn
  | clearVariables =>
      obtain rfl := List.mem_singleton.mp hn
      trivial
  | restoreState entries =>
      rcases List.mem_cons.mp hn with rfl | hn
      · trivial
      · exact sound_of_hostBatch n hn
  | setValue name value => exact sound_of_acceptedValue (Option.mem_toList.mp hn)
  | setValues entries =>
      obtain ⟨e, -, haccepted⟩ := List.mem_filterMap.mp hn
      exact sound_of_acceptedValue haccepted
  | _ => cases hn

/-! ## Readings -/

/-- Every reading of either interface agrees with `last`, which gives the value of each name.
To either, the question whether a name is there is the same request. -/
structure Readings (ip : Interpreter I L) (react : Host H I) (w : World H I)
    (last : Datum → Option Datum) : Prop where
  sound : ∀ name d, last name = some d → (∃ s, name = .text s) ∧ d.Hosted
  getVariable : ∀ fuel name, name.isKey = true →
    Yields (exec ip react (fuel + 1) (.getVariable name)) w
      (.ok (.datum ((last name).getD .nothing))) w
  hasVariable : ∀ fuel name, name.isKey = true →
    Yields (exec ip react (fuel + 1) (.hasVariable name)) w (.ok (.flag (last name).isSome)) w
  /-- a missing variable is told of by its name, and one whose name has no text is not told of -/
  getValue : ∀ fuel name, name.isKey = true →
    Yields (exec ip react (fuel + 1) (.getValue name)) w
      ((last name).elim (.error (if name.hasText then .raised .variableNotFound [name]
        else .accident .value)) fun d => .ok (.datum d.asValue)) w
  /-- what cannot be a key has no value, and there is no asking for one -/
  unhashable : ∀ fuel name f, name.asKey = .error f → last name = none ∧
    ∀ r ∈ [.getVariable name, .hasVariable name, .getValue name],
      Yields (exec ip react (fuel + 1) r) w (.error f) w
  /-- a table of all variables, for the host as they are and as values for the interpreter -/
  all : ∃ t : Keyed Datum Datum, t.keys.Nodup ∧ (∀ name, t.get? name = last name) ∧
    ∀ fuel, Yields (exec ip react (fuel + 1) .saveState) w (.ok (.saved t.entries)) w ∧
      Yields (exec ip react (fuel + 1) .allValues) w
        (.ok (.bindings (t.entries.map fun e => (e.1, e.2.asValue)))) w

theorem readings_of_store (ip : Interpreter I L) (react : Host H I) {w : World H I}
    {ns : List Notice} (hns : ∀ n ∈ ns, n.Sound) (hstore : w.store = replay ns) :
    Readings ip react w (latest ns) := by
  have hlast : ∀ name, w.store.get? name = latest ns name := by
    rw [hstore]
    exact get?_replay fun n hn => (hns n hn).named
  have hget : ∀ name, name.isKey = true →
      Yields (Session.getVariable name) w (.ok ((latest ns name).getD .nothing)) w := by
    intro name hname
    refine (yields_checkKey_bind hname).mpr (yields_get_bind.mpr (yields_pure.mpr ⟨?_, rfl⟩))
    rw [hlast]
  refine ⟨fun _ _ => sound_of_latest hns, ?_, ?_, ?_, ?_, w.store, ?_, hlast, ?_⟩
  · intro fuel name hname
    exact yields_bind_pure.mpr ⟨_, hget name hname, rfl⟩
  · intro fuel name hname
    refine yields_bind_pure.mpr ⟨.ok (latest ns name).isSome, ?_, rfl⟩
    refine (yields_checkKey_bind hname).mpr (yields_get_bind.mpr (yields_pure.mpr ⟨?_, rfl⟩))
    rw [← hlast, Keyed.isSome_get?]
  · intro fuel name hname
    have hvariable := hget name hname
    cases hd : latest ns name with
    | none =>
        rw [hd] at hvariable
        refine yields_bind_pure.mpr ⟨.error (.variableNotFound name), ?_, rfl⟩
        exact yields_bind.mpr (.inl ⟨_, w, hvariable, yields_throw.mpr ⟨rfl, rfl⟩⟩)
    | some d =>
        rw [hd] at hvariable
        have hd := (sound_of_latest hns hd).2
        refine yields_bind_pure.mpr ⟨.ok d.asValue, ?_, rfl⟩
        refine yields_bind.mpr (.inl ⟨_, w, hvariable, ?_⟩)
        cases hd <;> exact yields_of.mpr ⟨rfl, rfl⟩
  · intro fuel name f hname
    refine ⟨?_, ?_⟩
    · cases hd : latest ns name with
      | none => rfl
      | some d =>
          obtain ⟨⟨s, rfl⟩, -⟩ := sound_of_latest hns hd
          cases hname
    · have hkey : Yields (checkKey name : Act H I Unit) w (.error f) w :=
        yields_discard.mpr ⟨.error f, yields_of.mpr ⟨hname.symm, rfl⟩, rfl⟩
      have hget : Yields (Session.getVariable name) w (.error f) w :=
        yields_bind.mpr (.inr ⟨f, hkey, rfl⟩)
      intro r hr
      simp only [List.mem_cons, List.not_mem_nil, or_false] at hr
      rcases hr with rfl | rfl | rfl
      · exact yields_bind.mpr (.inr ⟨f, hget, rfl⟩)
      · exact yields_bind.mpr (.inr ⟨f, yields_bind.mpr (.inr ⟨f, hkey, rfl⟩), rfl⟩)
      · exact yields_bind.mpr (.inr ⟨f, yields_bind.mpr (.inr ⟨f, hget, rfl⟩), rfl⟩)
  · rw [hstore]
    exact nodup_keys_replay hns
  · intro fuel
    refine ⟨yields_get_bind.mpr (yields_pure.mpr ⟨rfl, rfl⟩), ?_⟩
    have hvalues : w.store.entries.mapM (m := Except Fault)
        (fun e => do return (e.1, ← e.2.toValue)) =
          .ok (w.store.entries.map fun e => (e.1, e.2.asValue)) := by
      refine mapM_eq_ok ?_
      intro e he
      rw [hstore] at he
      rw [(replay_hosted hns e he).toValue]
      rfl
    exact yields_bind_pure.mpr ⟨_, yields_get_bind.mpr (yields_of.mpr ⟨hvalues.symm, rfl⟩), rfl⟩

/-- After any requests to either interface, every reading agrees with the last write that was
accepted since the last clearing, and the answers say which were accepted. -/
theorem readings_after (ip : Interpreter I L) {react : Host H I} (hreact : react.Attends)
    {w₀ : World H I} (hempty : w₀.store = {}) (hstub : w₀.writeStub = none)
    {rs : List (Request I)} (hrs : ∀ r ∈ rs, r.stores = true) :
    (∃ steps w, Run ip react w₀ steps w ∧ steps.map (·.1) = rs) ∧
    ∀ steps w, Run ip react w₀ steps w → steps.map (·.1) = rs →
      Readings ip react w (latest (rs.flatMap (changes w₀.settings))) ∧
      ∀ step ∈ steps, Told w₀.settings step.1 step.2 := by
  refine ⟨exists_run hreact hstub hrs, ?_⟩
  rintro steps w hrun rfl
  have hsteps : ∀ step ∈ steps, step.1.stores = true := fun step hstep =>
    hrs step.1 (List.mem_map_of_mem hstep)
  obtain ⟨hstock, htold⟩ := hrun.changes hreact hstub hsteps
  refine ⟨readings_of_store ip react ?_ ?_, htold⟩
  · intro n hn
    obtain ⟨r, -, hn⟩ := List.mem_flatMap.mp hn
    exact sound_of_changes _ r n hn
  · rw [Stock.changeAll_eq] at hstock
    have hstore : w.store = _ := congrArg Stock.store hstock
    rw [hstore]
    show List.foldl _ w₀.store _ = _
    rw [hempty]
    rfl

/-- A host that counts what it is told. -/
def counting : Host Nat Script.State := fun told _ => .finish (told + 1) (.ok .nothing)

theorem counting_attends : (counting : Host Nat Script.State).Attends := fun told _ _ _ =>
  ⟨told + 1, .nothing, rfl⟩

/-- A store with somebody listening, and nothing in it. -/
def listened : World Nat Script.State where
  host := 0
  bus := ({} : Bus).subscribe .variableChanged ⟨none, 0⟩

/-- Writes of both interfaces: of a name without the sigil, of values that count as false, of
a list, and of a batch that ends at a value of no kind. -/
def mixed : List (Request Script.State) :=
  [.setVariables [(.text "a", .bool true), (.text "$a", .bool true), (.text "$b", .text "")],
    .setValue (.text "$a") (.boolean (.bool false)),
    .setVariable (.text "$b") (.list []),
    .setValues [(.text "$c", .number .zero), (.text "$d", .bare (.bool true)),
      (.text "$e", .boolean (.bool true))]]

theorem readings_after_of_mixed : ∃ steps w,
    (counting : Host Nat Script.State).Attends ∧ (∀ r ∈ mixed, r.stores = true) ∧
      Run Script.interpreter counting listened steps w ∧ steps.map (·.1) = mixed ∧
      Yields (exec Script.interpreter counting 1 (.getVariable (.text "$a"))) w
        (.ok (.datum (.bool false))) w ∧
      Yields (exec Script.interpreter counting 1 (.getValue (.text "$b"))) w
        (.ok (.datum (.string (.text "")))) w ∧
      Yields (exec Script.interpreter counting 1 (.getValue (.text "$e"))) w
        (.error (.variableNotFound (.text "$e"))) w := by
  have hattends : (counting : Host Nat Script.State).Attends := fun told _ _ _ =>
    ⟨told + 1, .nothing, rfl⟩
  have hstores : ∀ r ∈ mixed, r.stores = true := by decide
  have hempty : listened.store = {} := rfl
  obtain ⟨⟨steps, w, hrun, hsteps⟩, hall⟩ :=
    readings_after Script.interpreter hattends hempty rfl hstores
  obtain ⟨hreadings, -⟩ := hall steps w hrun hsteps
  have ha : latest (mixed.flatMap (changes listened.settings)) (.text "$a") =
      some (.bool false) := by with_unfolding_all rfl
  have hb : latest (mixed.flatMap (changes listened.settings)) (.text "$b") =
      some (.text "") := by with_unfolding_all rfl
  have he : latest (mixed.flatMap (changes listened.settings)) (.text "$e") = none := by
    with_unfolding_all rfl
  have hget := hreadings.getVariable 0 (.text "$a") rfl
  have hvalue := hreadings.getValue 0 (.text "$b") rfl
  have hmissing := hreadings.getValue 0 (.text "$e") rfl
  rw [ha] at hget
  rw [hb] at hvalue
  rw [he] at hmissing
  exact ⟨steps, w, hattends, hstores, hrun, hsteps, hget, hvalue, hmissing⟩

end Session

end Parley
