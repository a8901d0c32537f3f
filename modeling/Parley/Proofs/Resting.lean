import Parley.Proofs.Settling
import Parley.Proofs.Turn

/-!
# What goes on without a dealing

A start, a pump, a `stop` and a new interpreter each leave a dealing.  `Course.Rests` is
what can be done without one: programs are loaded, a node is refused, an answer is given.
So whatever a host does, and however its callbacks nest, a course whose dealings are
still the same has only rested.
-/

namespace Parley

namespace Course

variable {I L : Type} {ip : Interpreter I L}

/-- What can be done to the course without a dealing. -/
inductive Rests (ip : Interpreter I L) (c : Course I) : Course I → Prop where
  | rest : Rests ip c c
  | loads {c' c'' : Course I} : Rests ip c c' → c'.Loads ip c'' → Rests ip c c''
  | unentered {c' : Course I} {slot : Nat} {core : I} {node : Datum} {f : Fault} :
      Rests ip c c' → c'.cores[slot]? = some core → (ip.setNode node core).1 = .error f →
      Rests ip c (c'.setCore slot (ip.setNode node core).2)
  | answered {c' : Course I} {slot : Nat} {core : I} (id : Datum) : Rests ip c c' →
      c'.cores[slot]? = some core → Rests ip c (c'.setCore slot (ip.select id core).2)
  | released {c' : Course I} : Rests ip c c' → c'.current = none → Rests ip c c'.released

theorem Rests.trans {c₁ c₂ c₃ : Course I} (h₁ : c₁.Rests ip c₂) (h₂ : c₂.Rests ip c₃) :
    c₁.Rests ip c₃ := by
  induction h₂ with
  | rest => exact h₁
  | loads _ hloads ih => exact .loads ih hloads
  | unentered _ hcore hf ih => exact .unentered ih hcore hf
  | answered id _ hcore ih => exact .answered id ih hcore
  | released _ hnone ih => exact .released ih hnone

theorem Follows.length_le {c c' : Course I} (h : c.Follows c') :
    c.dealings.length ≤ c'.dealings.length := by
  obtain ⟨t, ht, -⟩ := h
  rw [ht, List.length_append]
  exact Nat.le_add_right _ _

/-- The dealings went on, or the course has rested. -/
def RestsOrDeals (ip : Interpreter I L) (c c' : Course I) : Prop :=
  c.Follows c' ∧ (c'.dealings.length = c.dealings.length → c.Rests ip c')

instance : IsPreorder (Course I) (RestsOrDeals ip) where
  refl c := ⟨refl_of Follows c, fun _ => .rest⟩
  trans c₁ c₂ c₃ := by
    rintro ⟨hfollows₁, hrests₁⟩ ⟨hfollows₂, hrests₂⟩
    refine ⟨hfollows₁.trans hfollows₂, fun hlength => ?_⟩
    have h₁ := hfollows₁.length_le
    have h₂ := hfollows₂.length_le
    exact (hrests₁ (by omega)).trans (hrests₂ (by omega))

end Course

namespace Session

open Act
open Course (Follows Rests RestsOrDeals follows_law)

variable {H I L : Type} {ip : Interpreter I L} {fuel : Nat} {w w' : World H I}

/-! ## The operations -/

theorem setup_rests {factory : Option I} {r : Except Fault Unit}
    (h : Yields (setup ip factory) w r w')
    (hlength : w'.dealings.length = w.dealings.length) : w.course.Rests ip w'.course := by
  rcases setup_cases h with ⟨-, -, rfl⟩ | ⟨core, w₁, -, hw₁, hbuild⟩
  · exact .rest
  · have hgrown :=
      (build_keeps (follows_law ip).toAllowsLoading.onCourse none _ _ _ hbuild).length_le
    rw [hw₁] at hgrown
    have hmade : (w.course.made core).dealings.length = w.dealings.length + 1 :=
      List.length_append
    have hsame : w'.course.dealings.length = w.dealings.length := hlength
    omega

theorem select_rests {choice : Option Choice} {r : Except Fault Outcome}
    (h : Yields (select ip choice) w r w') : w.course.Rests ip w'.course := by
  rcases select_cases h with
      ⟨-, -, rfl⟩ | ⟨-, -, rfl⟩ | ⟨-, -, -, hw'⟩ | ⟨slot, core, b, -, hcore, -, hw', -⟩
  · exact .rest
  · exact .rest
  · rw [hw']
    exact .rest
  · rw [hw']
    exact .answered b.id .rest hcore

theorem selectPick_rests {p : Pick} {a : Except Fault Answer}
    (h : Yields (selectPick ip p) w a w') : w.course.Rests ip w'.course := by
  cases p with
  | given c =>
      obtain ⟨r, hselect, -⟩ := yields_bind_pure.mp h
      exact select_rests hselect
  | current i =>
      have h := yields_get_bind.mp h
      split at h
      · obtain ⟨r, hselect, -⟩ := yields_bind_pure.mp h
        exact select_rests hselect
      · obtain ⟨-, rfl⟩ := yields_pure.mp h
        exact .rest
  | shown i =>
      have h := yields_get_bind.mp h
      split at h
      · obtain ⟨r, hselect, -⟩ := yields_bind_pure.mp h
        exact select_rests hselect
      · obtain ⟨-, rfl⟩ := yields_throw.mp h
        exact .rest

section
variable {invoke : Invoke H I} (hinvoke : ∀ c, Keeps (OnCourse Follows) (invoke c))
include hinvoke

theorem stop_deals {r : Except Fault Outcome} (h : Yields (stop ip invoke) w r w') :
    w.dealings.length < w'.course.dealings.length := by
  obtain ⟨w₁, hw₁, h⟩ := stop_cases h
  have hstopping : w.dealings.length < w₁.course.dealings.length := by
    rw [hw₁]
    simp [Course.deal, World.course]
  refine Nat.lt_of_lt_of_le hstopping ?_
  rcases h with
      ⟨-, -, hw'⟩ | ⟨-, -, -, hw'⟩ |
      ⟨slot, core, -, -, ⟨f, -, -, hw'⟩ | ⟨events, w₂, w₃, y, -, hw₂, hpassed, h⟩⟩
  · rw [hw']
    simp [Course.flag, Course.deal]
  · exact Nat.le_of_eq (by rw [hw'])
  · exact Nat.le_of_eq (by rw [hw']; rfl)
  · have hbatch : Keeps (OnCourse Follows) (processAll invoke events) :=
      processAll_keeps (follows_law ip) hinvoke trivial
    have hgrown := (hbatch _ _ _ hpassed).length_le
    rw [hw₂] at hgrown
    refine Nat.le_trans hgrown ?_
    rcases h with ⟨f, -, -, hw'⟩ | ⟨-, -, hw'⟩
    · exact Nat.le_of_eq (by rw [hw'])
    · rw [hw']
      simp [Course.flag, Course.deal]

theorem continue_rests {r : Except Fault Outcome}
    (h : Yields (continueDialogue ip fuel invoke) w r w')
    (hlength : w'.dealings.length = w.dealings.length) : w.course.Rests ip w'.course := by
  have hcleared : w.course.cleared.dealings.length = w.dealings.length + 1 := List.length_append
  have hsame : w'.course.dealings.length = w.dealings.length := hlength
  rcases continue_cases h with
      ⟨-, -, rfl⟩ | ⟨-, -, -, hw'⟩ | ⟨-, slot, core, x, w₁, w₂, -, -, hw₁, hpump, h⟩
  · exact .rest
  · rw [hw'] at hsame
    omega
  · have hpumped := (pump_keeps (follows_law ip) hinvoke slot fuel trivial _ _ _ hpump).length_le
    rw [hw₁] at hpumped
    rcases h with ⟨f, -, -, hw'⟩ | ⟨events, y, -, hpassed, -⟩
    · rw [hw'] at hsame
      omega
    · have hbatch : Keeps (OnCourse Follows) (processAll invoke events) :=
        processAll_keeps (follows_law ip) hinvoke trivial
      have hgrown := (hbatch _ _ _ hpassed).length_le
      omega

theorem start_rests {node : Datum} {r : Except Fault Outcome}
    (h : Yields (start ip fuel invoke node) w r w')
    (hlength : w'.dealings.length = w.dealings.length) : w.course.Rests ip w'.course := by
  rcases start_cases h with
      ⟨-, -, rfl⟩ | ⟨-, -, -, rfl⟩ | ⟨-, _, -, -, -, hw'⟩ | ⟨-, slot, core, -, hcore, h⟩
  · exact .rest
  · exact .rest
  · rw [hw']
    exact .rest
  · rcases h with ⟨f, hf, -, hw'⟩ | ⟨w₁, -, hw₁, hrest⟩
    · rw [hw']
      exact .unentered .rest hcore hf
    · have hkeeps : Keeps (OnCourse Follows)
          (do notify invoke .started; continueDialogue ip fuel invoke) :=
        .bind (notify_keeps hinvoke _) fun _ => continueDialogue_keeps (follows_law ip) hinvoke fuel
      have hgrown := (hkeeps w₁ r w' hrest).length_le
      rw [hw₁] at hgrown
      have hentered : ((w.course.setCore slot (ip.setNode node core).2).flag true
          .entered).dealings.length = w.dealings.length + 1 := List.length_append
      have hsame : w'.course.dealings.length = w.dealings.length := hlength
      omega

theorem cleanup_rests {r : Except Fault Unit} (h : Yields (cleanup ip invoke) w r w')
    (hlength : w'.dealings.length = w.dealings.length) : w.course.Rests ip w'.course := by
  have hsame : w'.course.dealings.length = w.dealings.length := hlength
  unfold cleanup at h
  have h := yields_get_bind.mp h
  split at h
  · have hrelease : Keeps (OnCourse Follows) (do
        unload ip (← held)
        modify fun w => { w.blank with current := none }
          : Act H I Unit) :=
      .bind keeps_held fun _ =>
        .bind (unload_keeps (follows_law ip).toAllowsLoading.onCourse _) fun _ =>
          keeps_modify_of fun w => (follows_law ip).released w.course
    have hdeals : ∀ {x : Except Fault PUnit} {u : World H I},
        Yields (discard (stop ip invoke)) w x u →
          w.dealings.length < u.course.dealings.length := by
      intro x u hstop
      obtain ⟨y, hstop, -⟩ := yields_discard.mp hstop
      exact stop_deals hinvoke hstop
    rcases yields_bind.mp h with ⟨_, w₁, hstop, hrest⟩ | ⟨f, hstop, -⟩
    · have hstopped := hdeals hstop
      have hgrown := (hrelease w₁ r w' hrest).length_le
      omega
    · have hstopped := hdeals hstop
      omega
  · next hnone =>
    obtain ⟨-, rfl⟩ := yields_modify.mp h
    exact .released .rest (by simpa [World.course] using hnone)

theorem perform_rests {r : Request I} (hdrives : r.drives = true) {a : Except Fault Answer}
    (h : Yields (perform ip fuel invoke r) w a w')
    (hlength : w'.dealings.length = w.dealings.length) : w.course.Rests ip w'.course := by
  cases r with
  | setup factory =>
      obtain ⟨x, hsetup, -⟩ := yields_bind_pure.mp h
      exact setup_rests hsetup hlength
  | cleanup =>
      obtain ⟨x, hcleanup, -⟩ := yields_bind_pure.mp h
      exact cleanup_rests hinvoke hcleanup hlength
  | build programs =>
      exact .loads .rest
        (only_keeps (build_keeps Course.loads_allowsLoading.onCourse programs) w a w' h)
  | clearPrograms =>
      exact .loads .rest
        (only_keeps (clearPrograms_keeps Course.loads_allowsLoading.onCourse) w a w' h)
  | start node =>
      obtain ⟨x, hstart, -⟩ := yields_bind_pure.mp h
      exact start_rests hinvoke hstart hlength
  | «continue» =>
      obtain ⟨x, hcontinue, -⟩ := yields_bind_pure.mp h
      exact continue_rests hinvoke hcontinue hlength
  | stop =>
      obtain ⟨x, hstop, -⟩ := yields_bind_pure.mp h
      have hstopped : w.dealings.length < w'.dealings.length := stop_deals hinvoke hstop
      omega
  | select p => exact selectPick_rests h
  | _ => cases hdrives

end

theorem exec_restsOrDeals (ip : Interpreter I L) (react : Host H I) (fuel : Nat)
    (r : Request I) : Keeps (OnCourse (RestsOrDeals ip)) (exec ip react fuel r) := by
  refine exec_keeps_of_drives (fun host c => Script.abides_true (react host c))
    ?_ fuel r trivial
  intro fuel invoke hinvoke r _ hdrives w a w' h
  have hfollows : ∀ c, Keeps (OnCourse Follows) (invoke c) := fun c =>
    (hinvoke c).mono fun _ _ h => h.1
  exact ⟨perform_keeps_of_drives (follows_law ip) hfollows fuel (supplies_true r) hdrives w a w' h,
    perform_rests hfollows hdrives h⟩

theorem Run.rests {react : Host H I} {steps : List (Request I × Except Fault Answer)}
    (hrun : Run ip react w steps w') (hdealings : w'.dealings = w.dealings) :
    w.course.Rests ip w'.course :=
  (hrun.keeps (p := fun _ => True) (fun fuel r _ => exec_restsOrDeals ip react fuel r)
    fun _ _ => trivial).2 (congrArg List.length hdealings)

end Session

end Parley
