import Parley.Proofs.Watching

/-!
# What gets into the store

There are five ways of writing variables, three from the host's side and two from the
interpreter's, and scripts write through the latter.  All of them come to one assignment, and what
stands before it decides over what gets in: the name must start with the sigil, and the value is
stored as its conversion to a script value and back.

So with a text for a sigil the names in the store are texts that start with it, and the values are
truth values, doubles and texts (`Stock.WellKept`).  An integer is stored as a double, a script
value as what it stands for, whatever its payload.  The rest is refused, or ends the write by a
fault, and then nothing was stored.

`store_well_kept` says so of every run with any host, and of every moment in it at which the host
can look: listeners may write again while they are told, and a batch may be cut anywhere.
-/

namespace Parley

/-- Names that start with the sigil, each of them once, and values of the three classes. -/
structure Stock.WellKept (sigil : String) (s : Stock) : Prop where
  settled : s.settings.sigil = .ok (.text sigil)
  names : ∀ key ∈ s.store.keys, ∃ name, key = .text name ∧ sigil.isPrefixOf name = true
  values : ∀ value ∈ s.store.values, value.Hosted
  distinct : s.store.keys.Nodup

theorem Stock.wellKept_of_empty {sigil : String} {s : Stock}
    (hsigil : s.settings.sigil = .ok (.text sigil)) (hempty : s.store = {}) : s.WellKept sigil where
  settled := hsigil
  names := by
    rw [hempty]
    nofun
  values := by
    rw [hempty]
    nofun
  distinct := by
    rw [hempty]
    exact List.nodup_nil

theorem Stock.WellKept.assign {sigil : String} {s : Stock} (h : s.WellKept sigil) {name : String}
    (hname : sigil.isPrefixOf name = true) {value : Datum} (hvalue : value.Hosted) :
    (s.change (.variableChanged (.text name) value)).WellKept sigil where
  settled := h.settled
  names := by
    intro key hkey
    change key ∈ (s.store.insert (.text name) value).keys at hkey
    rw [Keyed.keys_insert] at hkey
    split at hkey
    · exact h.names key hkey
    · rcases List.mem_append.mp hkey with hkey | hkey
      · exact h.names key hkey
      · exact ⟨name, List.mem_singleton.mp hkey, hname⟩
  values := by
    intro d hd
    rcases Keyed.mem_values_insert hd with hd | rfl
    · exact h.values d hd
    · exact hvalue
  distinct := Keyed.nodup_keys_insert ((Datum.text_beq name _).mpr rfl) h.distinct value

namespace Session

open Act

variable {H I L : Type} {ip : Interpreter I L} {react : Host H I} {w₀ w : World H I}

theorem prefix_of_isValidName {s : Settings} {sigil : String}
    (hsigil : s.sigil = .ok (.text sigil)) {name : Datum} (h : isValidName s name = .ok true) :
    ∃ text, name = .text text ∧ sigil.isPrefixOf text = true := by
  obtain ⟨text, rfl⟩ := text_of_isValidName h
  rw [isValidName, hsigil] at h
  exact ⟨text, rfl, Except.ok.inj h⟩

theorem hosted_of_stored {d e : Datum} (h : stored d = .ok e) : e.Hosted := by
  rcases stored_cases d with ⟨x, hnormal, -, hstored⟩ | ⟨-, f, hstored, -⟩
  · cases hstored.symm.trans h
    exact Datum.hosted_of_normal hnormal
  · cases hstored.symm.trans h

theorem lasts_wellKept (sigil : String) :
    Lasts fun (_ : Course I) (s : Stock) => s.WellKept sigil where
  endures _ _ _ _ := id
  clear _ s hs := Stock.wellKept_of_empty (s := s.change .storeCleared) hs.settled rfl
  assign := by
    rintro name value ⟨-, s₀, d, hs₀, hvalid, hstored⟩ - s hs
    obtain ⟨text, rfl, hprefix⟩ := prefix_of_isValidName hs₀.settled hvalid
    exact hs.assign hprefix (hosted_of_stored hstored)

/-- Whatever is asked, by the host and by its callbacks, and however it ends: the store is well kept
after every request of a run, and during the next one whenever the host is called and whenever a
request of a callback has come to its result. -/
theorem store_well_kept {steps : List (Request I × Except Fault Answer)} {sigil : String}
    (hsigil : w₀.settings.sigil = .ok (.text sigil)) (hempty : w₀.store = {})
    (hrun : Run ip react w₀ steps w) :
    w.stock.WellKept sigil ∧ ∀ fuel r a w', Yields (exec ip react fuel r) w a w' →
      Yields (execWithin ip react (fun u => u.stock.WellKept sigil) fuel r) w a w' :=
  hrun.within (lasts_wellKept sigil) (p := fun u => u.stock.WellKept sigil) (fun _ h => h)
    (Stock.wellKept_of_empty hsigil hempty)

/-- Names and values of all kinds. -/
def assorted : List (Datum × Datum) :=
  [(.text "$e", .string (.int 5)), (.text "b", .bool true), (.int 3, .bool true),
    (.text "$c", .bare (.bool true)), (.text "$d", .boolean (.list [])), (.text "$f", .nothing),
    (.text "$a", .int 1), (.text "$g", .text "late")]

/-- A fault cuts the request at `$a`, and of the variables before it three are there, with the one
that a listener wrote. -/
def admittedInPart (w : World Unit Script.State) : Bool :=
  ((exec Script.interpreter meddling 9 (.restoreState assorted)).run.run w).any fun p =>
    p.1.toOption.isNone &&
      p.2.store.keys.filterMap Datum.text? == ["$e", "$d", "$a", "$b"]

theorem store_well_kept_of_meddling : ∃ steps w f w',
    overheard.settings.sigil = .ok (.text "$") ∧ overheard.store = {} ∧
    Run Script.interpreter meddling overheard steps w ∧ w.store.size = 3 ∧
    Yields (exec Script.interpreter meddling 9 (.restoreState assorted)) w (.error f) w' ∧
    Yields (execWithin Script.interpreter meddling (fun u => u.stock.WellKept "$") 9
      (.restoreState assorted)) w (.error f) w' ∧
    w'.store.keys.filterMap Datum.text? = ["$e", "$d", "$a", "$b"] ∧ w'.stock.WellKept "$" := by
  have hfollow : (follow Script.interpreter meddling 9
      [.setValues [(.text "$x", .number Double.zero), (.text "$a", .bool true)],
        .setVariable (.text "$a") (.boolean (.text "on"))] overheard).any
      (fun p => p.2.store.size == 3 && admittedInPart p.2) = true := by
    decide +kernel
  obtain ⟨steps, w, hrun, hw⟩ := run_of_follow_any hfollow
  obtain ⟨hsize, hcut⟩ := Bool.and_eq_true_iff.mp hw
  obtain ⟨⟨a, w'⟩, hrestore, hw'⟩ := (Option.any_eq_true _ _).mp hcut
  obtain ⟨ha, hkeys⟩ := Bool.and_eq_true_iff.mp hw'
  have hsigil : overheard.settings.sigil = .ok (.text "$") := by with_unfolding_all rfl
  cases a with
  | ok => cases ha
  | error f =>
      have hwithin := (store_well_kept hsigil rfl hrun).2 9 _ _ w' hrestore
      exact ⟨steps, w, f, w', hsigil, rfl, hrun, eq_of_beq hsize, hrestore, hwithin,
        eq_of_beq hkeys, (yields_execWithin.mp hwithin).2⟩

end Session

end Parley
