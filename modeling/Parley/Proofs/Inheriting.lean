import Parley.Proofs.Drive
import Mathlib.Data.List.Perm.Subperm

/-!
# Which outcome a class inherits

The outcome of an error is that of the first known class in the lineage of its class.
What that comes to for classes that nobody has seen yet hangs on the lineage, so first
come the laws of the merge: it is what one gets by always taking the first head that is
in no list's tail (`Merges`), it has the members of its lists, each once, and it keeps
the order of every list.  By induction over the bases a lineage lists the ancestors,
each once and before its bases, and contains the lineage of every ancestor in its order.

Nothing is assumed of a class but that it has a lineage, as every class has that was made
(`exists_lineage?_of_derive`).
-/

namespace Parley

namespace ErrorClass

/-! ## Ancestors -/

/-- The class `a` is `c`, or is above one of its bases. -/
inductive Below : ErrorClass → ErrorClass → Prop
  | refl (c : ErrorClass) : Below c c
  | step {c b a : ErrorClass} : b ∈ c.bases → Below b a → Below c a

variable {a b c : ErrorClass}

theorem sizeOf_lt_of_mem_bases (h : b ∈ c.bases) : sizeOf b < sizeOf c := by
  obtain ⟨n, t, bs⟩ := c
  have hlt : sizeOf b < sizeOf bs := List.sizeOf_lt_of_mem h
  have hmk : sizeOf (mk n t bs) = 1 + sizeOf n + sizeOf t + sizeOf bs := mk.sizeOf_spec n t bs
  omega

theorem Below.sizeOf_le (h : Below c a) : sizeOf a ≤ sizeOf c := by
  induction h with
  | refl => exact Nat.le_refl _
  | step hb _ ih => exact Nat.le_of_lt (Nat.lt_of_le_of_lt ih (sizeOf_lt_of_mem_bases hb))

theorem not_below_of_mem_bases (h : b ∈ c.bases) : ¬ Below b c := fun hbelow =>
  absurd hbelow.sizeOf_le (Nat.not_le_of_lt (sizeOf_lt_of_mem_bases h))

theorem below_iff : Below c a ↔ a = c ∨ ∃ b ∈ c.bases, Below b a := by
  constructor
  · rintro (_ | ⟨hb, hbelow⟩)
    · exact .inl rfl
    · exact .inr ⟨_, hb, hbelow⟩
  · rintro (rfl | ⟨b, hb, hbelow⟩)
    · exact .refl a
    · exact .step hb hbelow

/-- What a class has whenever its bases have it, every class has. -/
theorem induction_on_bases {p : ErrorClass → Prop} (h : ∀ c, (∀ b ∈ c.bases, p b) → p c)
    (c : ErrorClass) : p c :=
  h c fun b _ => induction_on_bases h b
termination_by sizeOf c
decreasing_by exact sizeOf_lt_of_mem_bases ‹_›

/-! ## The merge -/

/-- `c` is the first head that is in no list's tail. -/
def Leads (c : ErrorClass) (lists : List (List ErrorClass)) : Prop :=
  ∃ before after, lists.filterMap List.head? = before ++ c :: after ∧
    (∀ l ∈ lists, c ∉ l.tail) ∧ ∀ b ∈ before, ∃ l ∈ lists, b ∈ l.tail

/-- `out` is what taking head after head makes of the lists. -/
inductive Merges : List (List ErrorClass) → List ErrorClass → Prop
  | done {lists : List (List ErrorClass)} : (∀ l ∈ lists, l = []) → Merges lists []
  | take {lists : List (List ErrorClass)} {c : ErrorClass} {out : List ErrorClass} :
      Leads c lists → Merges (dropHead c lists) out → Merges lists (c :: out)

variable {lists : List (List ErrorClass)} {l m out : List ErrorClass}

theorem nextHead?_eq_some : nextHead? lists = some c ↔ Leads c lists := by
  unfold nextHead? Leads
  rw [List.find?_eq_some_iff_append]
  simp only [List.all_eq_true, Bool.not_eq_true', List.contains_eq_mem, decide_eq_false_iff_not,
    List.all_eq_false, not_not]
  constructor
  · rintro ⟨hfree, before, after, hheads, hblocked⟩
    exact ⟨before, after, hheads, hfree, hblocked⟩
  · rintro ⟨before, after, hheads, hfree, hblocked⟩
    exact ⟨hfree, before, after, hheads, hblocked⟩

theorem Leads.head (h : Leads c lists) : ∃ l ∈ lists, l.head? = some c := by
  obtain ⟨before, after, hheads, -, -⟩ := h
  have hmem : c ∈ lists.filterMap List.head? := by
    rw [hheads]
    exact List.mem_append_right _ List.mem_cons_self
  exact List.mem_filterMap.mp hmem

/-- A list is left as it is, or loses the class that was taken. -/
theorem head_cases (c : ErrorClass) (l : List ErrorClass) :
    l = c :: (if l.head? = some c then l.tail else l) ∨
      (if l.head? = some c then l.tail else l) = l := by
  by_cases hhead : l.head? = some c
  · rw [if_pos hhead]
    exact .inl (List.eq_cons_of_mem_head? hhead)
  · rw [if_neg hhead]
    exact .inr rfl

theorem mem_dropHead : m ∈ dropHead c lists ↔
    ∃ l ∈ lists, (if l.head? = some c then l.tail else l) = m := List.mem_map

theorem Leads.not_mem (h : Leads c lists) (hm : m ∈ dropHead c lists) : c ∉ m := by
  obtain ⟨-, -, -, hfree, -⟩ := h
  obtain ⟨l, hl, rfl⟩ := mem_dropHead.mp hm
  split
  · exact hfree l hl
  · next hhead =>
      intro hmem
      cases l with
      | nil => cases hmem
      | cons x xs =>
          rcases List.mem_cons.mp hmem with rfl | hxs
          · exact hhead rfl
          · exact hfree _ hl hxs

namespace Merges

theorem sublist (h : Merges lists out) (hl : l ∈ lists) : l.Sublist out := by
  induction h generalizing l with
  | done hempty =>
      rw [hempty l hl]
  | @take lists c out _ _ ih =>
      have hrest := ih (mem_dropHead.mpr ⟨l, hl, rfl⟩)
      rcases head_cases c l with hcons | hsame
      · rw [hcons]
        exact hrest.cons_cons c
      · rw [hsame] at hrest
        exact hrest.cons c

theorem mem_iff (h : Merges lists out) : a ∈ out ↔ ∃ l ∈ lists, a ∈ l := by
  constructor
  · intro hmem
    induction h with
    | done => cases hmem
    | @take lists c out hleads _ ih =>
        rcases List.mem_cons.mp hmem with rfl | hout
        · obtain ⟨l, hl, hhead⟩ := hleads.head
          exact ⟨l, hl, List.mem_of_mem_head? hhead⟩
        · obtain ⟨m, hm, ha⟩ := ih hout
          obtain ⟨l, hl, rfl⟩ := mem_dropHead.mp hm
          refine ⟨l, hl, ?_⟩
          rcases head_cases c l with hcons | hsame
          · rw [hcons]
            exact List.mem_cons_of_mem c ha
          · exact hsame ▸ ha
  · rintro ⟨l, hl, ha⟩
    exact (h.sublist hl).mem ha

theorem nodup (h : Merges lists out) : out.Nodup := by
  induction h with
  | done => exact List.nodup_nil
  | take hleads hrest ih =>
      refine List.nodup_cons.mpr ⟨fun hmem => ?_, ih⟩
      obtain ⟨m, hm, hc⟩ := hrest.mem_iff.mp hmem
      exact hleads.not_mem hm hc

theorem length_le (h : Merges lists out) : out.length ≤ lists.flatten.length := by
  have hsubset : out ⊆ lists.flatten := fun a ha => List.mem_flatten.mpr (h.mem_iff.mp ha)
  exact (List.subperm_of_subset h.nodup hsubset).length_le

end Merges

theorem merges_of_isEmpty (hempty : lists.all List.isEmpty = true) :
    Merges lists out ↔ out = [] := by
  have hnil : ∀ l ∈ lists, l = [] := fun l hl =>
    List.isEmpty_iff.mp (List.all_eq_true.mp hempty l hl)
  constructor
  · rintro (_ | ⟨hleads, -⟩)
    · rfl
    · obtain ⟨l, hl, hhead⟩ := hleads.head
      rw [hnil l hl] at hhead
      cases hhead
  · rintro rfl
    exact .done hnil

theorem merges_of_not_isEmpty (hempty : ¬ lists.all List.isEmpty = true) :
    Merges lists out ↔ ∃ c, nextHead? lists = some c ∧
      ∃ rest, Merges (dropHead c lists) rest ∧ c :: rest = out := by
  constructor
  · rintro (hnil | ⟨hleads, hrest⟩)
    · exact absurd (List.all_eq_true.mpr fun l hl => List.isEmpty_iff.mpr (hnil l hl)) hempty
    · exact ⟨_, nextHead?_eq_some.mpr hleads, _, hrest, rfl⟩
  · rintro ⟨c, hc, rest, hrest, rfl⟩
    exact .take (nextHead?_eq_some.mp hc) hrest

theorem mergeWithin_eq_some {fuel : Nat} :
    mergeWithin fuel lists = some out ↔ Merges lists out ∧ out.length ≤ fuel := by
  induction fuel generalizing lists out with
  | zero =>
      rw [mergeWithin]
      split
      · next hempty =>
          rw [merges_of_isEmpty hempty, Option.some_inj]
          constructor
          · rintro rfl
            exact ⟨rfl, Nat.le_refl 0⟩
          · rintro ⟨rfl, -⟩
            rfl
      · next hempty =>
          rw [merges_of_not_isEmpty hempty]
          constructor
          · intro h
            cases h
          · rintro ⟨⟨c, -, rest, -, rfl⟩, hle⟩
            cases hle
  | succ fuel ih =>
      rw [mergeWithin]
      split
      · next hempty =>
          rw [merges_of_isEmpty hempty, Option.some_inj]
          constructor
          · rintro rfl
            exact ⟨rfl, Nat.zero_le _⟩
          · rintro ⟨rfl, -⟩
            rfl
      · next hempty =>
          rw [merges_of_not_isEmpty hempty]
          simp only [bind, Option.bind_eq_some_iff, pure, Option.some_inj, ih]
          constructor
          · rintro ⟨c, hc, rest, ⟨hrest, hle⟩, rfl⟩
            exact ⟨⟨c, hc, rest, hrest, rfl⟩, Nat.succ_le_succ hle⟩
          · rintro ⟨⟨c, hc, rest, hrest, rfl⟩, hle⟩
            exact ⟨c, hc, rest, ⟨hrest, Nat.le_of_succ_le_succ hle⟩, rfl⟩

/-- There is fuel for every head. -/
theorem merge_eq_some : merge lists = some out ↔ Merges lists out := by
  rw [merge, mergeWithin_eq_some, and_iff_left_iff_imp]
  exact Merges.length_le

/-! ## The lineage -/

theorem lineages?_eq_some {bs : List ErrorClass} {above : List (List ErrorClass)} :
    lineages? bs = some above ↔ bs.map lineage? = above.map some := by
  induction bs generalizing above with
  | nil =>
      rw [lineages?, Option.some_inj, List.map_nil, eq_comm, eq_comm (a := []), List.map_eq_nil_iff]
  | cons b bs ih =>
      rw [lineages?, List.map_cons]
      simp only [bind, Option.bind_eq_some_iff, pure, Option.some_inj, ih]
      constructor
      · rintro ⟨m, hm, ms, hms, rfl⟩
        rw [hm, hms, List.map_cons]
      · intro h
        obtain ⟨m, ms, rfl, hm, hms⟩ := List.map_eq_cons_iff.mp h.symm
        exact ⟨m, hm.symm, ms, hms.symm, rfl⟩

/-- A lineage is the class in front of the merge of its bases' lineages and its bases. -/
theorem lineage?_eq_some : c.lineage? = some l ↔ ∃ above, c.bases.map lineage? = above.map some ∧
    ∃ rest, Merges (above ++ [c.bases]) rest ∧ c :: rest = l := by
  obtain ⟨n, t, bs⟩ := c
  rw [lineage?]
  simp only [bind, Option.bind_eq_some_iff, pure, Option.some_inj, lineages?_eq_some,
    merge_eq_some, bases]

theorem lineage_eq (h : c.lineage? = some l) : c.lineage = l := by
  rw [lineage, h, Option.getD_some]

/-- Below a class stand its bases in their order, with all that is in their lineages and
nothing else, once and in the same order. -/
theorem lineage?_cases (h : c.lineage? = some l) : ∃ rest, l = c :: rest ∧ rest.Nodup ∧
    c.bases.Sublist rest ∧ (∀ b ∈ c.bases, ∃ m, b.lineage? = some m ∧ m.Sublist rest) ∧
    ∀ a ∈ rest, ∃ b ∈ c.bases, ∃ m, b.lineage? = some m ∧ a ∈ m := by
  obtain ⟨above, habove, rest, hmerges, rfl⟩ := lineage?_eq_some.mp h
  have hbases : ∀ b ∈ c.bases, ∃ m ∈ above, b.lineage? = some m := by
    intro b hb
    have hmem : b.lineage? ∈ above.map some := habove ▸ List.mem_map_of_mem hb
    obtain ⟨m, hm, hbm⟩ := List.mem_map.mp hmem
    exact ⟨m, hm, hbm.symm⟩
  refine ⟨rest, rfl, hmerges.nodup, hmerges.sublist List.mem_concat_self, ?_, ?_⟩
  · intro b hb
    obtain ⟨m, hm, hbm⟩ := hbases b hb
    exact ⟨m, hbm, hmerges.sublist (List.mem_append_left _ hm)⟩
  · intro a ha
    obtain ⟨m, hm, ham⟩ := hmerges.mem_iff.mp ha
    rcases List.mem_append.mp hm with hm | hm
    · have hmem : some m ∈ c.bases.map lineage? := habove ▸ List.mem_map_of_mem hm
      obtain ⟨b, hb, hbm⟩ := List.mem_map.mp hmem
      exact ⟨b, hb, m, hbm, ham⟩
    · cases List.mem_singleton.mp hm
      obtain ⟨m, -, hm⟩ := hbases a ham
      obtain ⟨-, -, rest, -, rfl⟩ := lineage?_eq_some.mp hm
      exact ⟨a, ham, _, hm, List.mem_cons_self⟩

/-- The members of a lineage are the ancestors. -/
theorem mem_lineage?_iff (h : c.lineage? = some l) : a ∈ l ↔ Below c a := by
  induction c using induction_on_bases generalizing l with
  | h c ih =>
    obtain ⟨rest, rfl, -, -, hbases, hrest⟩ := lineage?_cases h
    rw [List.mem_cons, below_iff]
    refine or_congr_right ⟨fun ha => ?_, ?_⟩
    · obtain ⟨b, hb, m, hm, ham⟩ := hrest a ha
      exact ⟨b, hb, (ih b hb hm).mp ham⟩
    · rintro ⟨b, hb, hbelow⟩
      obtain ⟨m, hm, hsub⟩ := hbases b hb
      exact hsub.mem ((ih b hb hm).mpr hbelow)

theorem nodup_lineage? (h : c.lineage? = some l) : l.Nodup := by
  obtain ⟨rest, rfl, hnodup, -, -, hrest⟩ := lineage?_cases h
  refine List.nodup_cons.mpr ⟨fun hc => ?_, hnodup⟩
  obtain ⟨b, hb, m, hm, hcm⟩ := hrest c hc
  exact not_below_of_mem_bases hb ((mem_lineage?_iff hm).mp hcm)

theorem sublist_lineage?_of_below (hbelow : Below c a) (h : c.lineage? = some l) :
    ∃ m, a.lineage? = some m ∧ m.Sublist l := by
  induction hbelow generalizing l with
  | refl c => exact ⟨l, h, .refl l⟩
  | step hb _ ih =>
      obtain ⟨rest, rfl, -, -, hbases, -⟩ := lineage?_cases h
      obtain ⟨m, hm, hsub⟩ := hbases _ hb
      obtain ⟨m', hm', hsub'⟩ := ih hm
      exact ⟨m', hm', hsub'.trans (hsub.trans (List.sublist_cons_self _ rest))⟩

/-- Every ancestor stands before its bases, and they keep their order. -/
theorem bases_sublist_lineage? (h : c.lineage? = some l) (hbelow : Below c a) :
    (a :: a.bases).Sublist l := by
  obtain ⟨m, hm, hsub⟩ := sublist_lineage?_of_below hbelow h
  obtain ⟨rest, rfl, -, hbases, -, -⟩ := lineage?_cases hm
  exact (hbases.cons_cons a).trans hsub

/-- Every class that is made has a lineage. -/
theorem exists_lineage?_of_derive {name : String} {tag : Nat} {bases : List ErrorClass}
    (h : derive name tag bases = .ok c) : ∃ l, c.lineage? = some l := by
  simp only [derive] at h
  split at h
  · cases h
  · split at h
    · cases h
    · split at h
      · cases h
      · cases h
      · next l _ hl =>
          cases h
          exact ⟨l, hl⟩

theorem merges_alone (h : l.Nodup) : Merges [l, []] l := by
  induction l with
  | nil => exact .done (by simp)
  | cons a l ih =>
      obtain ⟨ha, hl⟩ := List.nodup_cons.mp h
      have hleads : Leads a [a :: l, []] := ⟨[], [], rfl, by simpa using ha, by simp⟩
      have hdrop : dropHead a [a :: l, []] = [l, []] := by simp [dropHead]
      exact .take hleads (hdrop ▸ ih hl)

theorem lineage?_of_single (hbases : c.bases = [b]) (h : b.lineage? = some m) :
    c.lineage? = some (c :: m) := by
  obtain ⟨rest, rfl, -⟩ := lineage?_cases h
  obtain ⟨hb, hrest⟩ := List.nodup_cons.mp (nodup_lineage? h)
  have hleads : Leads b [b :: rest, [b]] := ⟨[], [b], rfl, by simpa using hb, by simp⟩
  have hdrop : dropHead b [b :: rest, [b]] = [rest, []] := by simp [dropHead]
  refine lineage?_eq_some.mpr ⟨[b :: rest], ?_, b :: rest, ?_, rfl⟩
  · rw [hbases, List.map_singleton, List.map_singleton, h]
  · rw [hbases]
    exact .take hleads (hdrop ▸ merges_alone hrest)

end ErrorClass

namespace Outcome

open ErrorClass

variable {a b c k : ErrorClass} {l before after : List ErrorClass} {o : Outcome}

/-! ## Known classes -/

/-- Has the class an outcome of its own? -/
def Known (k : ErrorClass) : Prop := k ∈ known.map Prod.fst

instance (k : ErrorClass) : Decidable (Known k) := inferInstanceAs (Decidable (k ∈ _))

theorem known_of_mem (h : (k, o) ∈ known) : Known k := List.mem_map_of_mem h

theorem lookup_known : known.lookup k = some o ↔ (k, o) ∈ known := by
  constructor
  · intro h
    obtain ⟨l₁, l₂, hknown, -⟩ := List.lookup_eq_some_iff.mp h
    rw [hknown]
    exact List.mem_append_right _ List.mem_cons_self
  · exact (by decide +kernel : ∀ p ∈ known, known.lookup p.1 = some p.2) (k, o)

theorem lookup_known_eq_none : known.lookup k = none ↔ ¬ Known k := by
  rw [Option.eq_none_iff_forall_ne_some]
  constructor
  · rintro h hk
    obtain ⟨p, hp, rfl⟩ := List.mem_map.mp hk
    exact h p.2 (lookup_known.mpr hp)
  · intro h o ho
    exact h (known_of_mem (lookup_known.mp ho))

theorem ofClass?_eq_some (h : c.lineage? = some l) : ofClass? c = some o ↔
    ∃ before k after, l = before ++ k :: after ∧ (k, o) ∈ known ∧ ∀ a ∈ before, ¬ Known a := by
  rw [ofClass?, lineage_eq h, List.findSome?_eq_some_iff]
  simp only [lookup_known, lookup_known_eq_none]

theorem ofClass?_eq_none (h : c.lineage? = some l) :
    ofClass? c = none ↔ ∀ a ∈ l, ¬ Known a := by
  rw [ofClass?, lineage_eq h, List.findSome?_eq_none_iff]
  simp only [lookup_known_eq_none]

theorem ne_of_mem_known (h : (k, o) ∈ known) : o ≠ .unknown ∧ o ≠ .ok ∧ o ≠ .complete :=
  (by decide +kernel : ∀ p ∈ known, p.2 ≠ .unknown ∧ p.2 ≠ .ok ∧ p.2 ≠ .complete) (k, o) h

theorem ofClass_of_ofClass? (h : ofClass? c = some o) : ofClass c = o := by
  rw [ofClass, h, Option.getD_some]

theorem mem_known_of_ofClass? (h : ofClass? c = some o) : ∃ k, (k, o) ∈ known := by
  obtain ⟨k, -, hk⟩ := List.exists_of_findSome?_eq_some h
  exact ⟨k, lookup_known.mp hk⟩

theorem ofClass_eq_unknown_iff : ofClass c = .unknown ↔ ofClass? c = none := by
  constructor
  · intro h
    cases ho : ofClass? c with
    | none => rfl
    | some o =>
        obtain ⟨k, hk⟩ := mem_known_of_ofClass? ho
        exact absurd ((ofClass_of_ofClass? ho).symm.trans h) (ne_of_mem_known hk).1
  · intro h
    rw [ofClass, h, Option.getD_none]

theorem ofClass_not_success : ofClass c ≠ .ok ∧ ofClass c ≠ .complete := by
  cases ho : ofClass? c with
  | none =>
      rw [ofClass_eq_unknown_iff.mpr ho]
      decide
  | some o =>
      obtain ⟨k, hk⟩ := mem_known_of_ofClass? ho
      rw [ofClass_of_ofClass? ho]
      exact (ne_of_mem_known hk).2

/-- The first known class of a lineage decides. -/
theorem ofClass_of_earliest (h : c.lineage? = some (before ++ k :: after)) (hk : (k, o) ∈ known)
    (hbefore : ∀ a ∈ before, ¬ Known a) : ofClass c = o :=
  ofClass_of_ofClass? ((ofClass?_eq_some h).mpr ⟨before, k, after, rfl, hk, hbefore⟩)

theorem exists_earliest (h : c.lineage? = some l) (hk : Known k) (hbelow : Below c k) :
    ∃ before k' after, l = before ++ k' :: after ∧ (k', ofClass c) ∈ known ∧
      ∀ a ∈ before, ¬ Known a := by
  cases ho : ofClass? c with
  | none => exact absurd hk ((ofClass?_eq_none h).mp ho k ((mem_lineage?_iff h).mpr hbelow))
  | some o =>
      rw [ofClass_of_ofClass? ho]
      exact (ofClass?_eq_some h).mp ho

theorem ofClass_of_single (h : c.lineage? = some l) (hbases : c.bases = [b]) (hc : ¬ Known c) :
    ofClass c = ofClass b := by
  obtain ⟨rest, -, -, -, hbelow, -⟩ := lineage?_cases h
  obtain ⟨m, hm, -⟩ := hbelow b (hbases ▸ List.mem_singleton_self b)
  have hsame : ofClass? c = ofClass? b := by
    rw [ofClass?, lineage_eq (lineage?_of_single hbases hm), List.findSome?_cons,
      lookup_known_eq_none.mpr hc, ofClass?, lineage_eq hm]
  rw [ofClass, hsame, ofClass]

end Outcome

namespace Session

open Act ErrorClass
open Outcome (Known known ofClass)

variable {H I : Type} {w w' : World H I} {c : ErrorClass} {l : List ErrorClass}

/-! ## The law of inherited outcomes -/

/-- Every fault is answered with the outcome of its class, and an unknown one is logged. -/
theorem yields_outcomeOf {f : Fault} {r : Except Fault Outcome} :
    Yields (outcomeOf f) w r w' ↔ r = .ok (ofClass f.cls) ∧
      w' = if ofClass f.cls = .unknown then w.noted (.unmapped f) else w := by
  unfold outcomeOf
  split
  · next o ho =>
      have hknown : ofClass f.cls ≠ .unknown := fun h => by
        rw [Outcome.ofClass_eq_unknown_iff.mp h] at ho
        cases ho
      rw [if_neg hknown, Outcome.ofClass_of_ofClass? ho]
      exact yields_pure
  · next hnone =>
      have hunknown := Outcome.ofClass_eq_unknown_iff.mpr hnone
      rw [if_pos hunknown, hunknown]
      exact yields_modify_bind.trans yields_pure

/-- How the errors of a class with the lineage `l` are answered. -/
structure Inherits (c : ErrorClass) (l : List ErrorClass) : Prop where
  /-- the lineage is the class and the merge of its bases' lineages and its bases -/
  merged : ∃ above, c.bases.map lineage? = above.map some ∧
    ∃ rest, Merges (above ++ [c.bases]) rest ∧ c :: rest = l
  /-- it has every ancestor and nothing else, each once -/
  ancestors : ∀ a, a ∈ l ↔ Below c a
  nodup : l.Nodup
  /-- each before its bases, which keep their order, as the lineage of each does -/
  ordered : ∀ a, Below c a → (a :: a.bases).Sublist l ∧ ∃ m, a.lineage? = some m ∧ m.Sublist l
  /-- an error has the outcome of its class wherever it is met -/
  answered : ∀ {H I : Type} (w : World H I) (f : Fault), f.cls = c →
    Yields (outcomeOf f) w (.ok (ofClass c))
      (if ofClass c = .unknown then w.noted (.unmapped f) else w)
  /-- which is unknown exactly if no ancestor is known -/
  unknown : ofClass c = .unknown ↔ ∀ k, Known k → ¬ Below c k
  /-- that of a known ancestor that is the only one -/
  only : ∀ k o, (k, o) ∈ known → Below c k → (∀ k', Known k' → Below c k' → k' = k) →
    ofClass c = o
  /-- that of the earliest known ancestor, and one is the earliest if any is known -/
  earliest : ∀ before k o after, l = before ++ k :: after → (k, o) ∈ known →
    (∀ a ∈ before, ¬ Known a) → ofClass c = o
  decided : ∀ k, Known k → Below c k → ∃ before k' after, l = before ++ k' :: after ∧
    (k', ofClass c) ∈ known ∧ ∀ a ∈ before, ¬ Known a
  /-- that of the base where there is one base and the class is not known itself -/
  single : ∀ b, c.bases = [b] → ¬ Known c → ofClass c = ofClass b
  /-- and no success in any case -/
  failure : ofClass c ≠ .ok ∧ ofClass c ≠ .complete

theorem errors_answered_by_lineage (h : c.lineage? = some l) : Inherits c l where
  merged := lineage?_eq_some.mp h
  ancestors a := mem_lineage?_iff h
  nodup := nodup_lineage? h
  ordered a hbelow := ⟨bases_sublist_lineage? h hbelow, sublist_lineage?_of_below hbelow h⟩
  answered w f hf := by
    rw [← hf]
    exact yields_outcomeOf.mpr ⟨rfl, rfl⟩
  unknown := by
    rw [Outcome.ofClass_eq_unknown_iff, Outcome.ofClass?_eq_none h]
    constructor
    · intro hnone k hk hbelow
      exact hnone k ((mem_lineage?_iff h).mpr hbelow) hk
    · intro hnone a ha hk
      exact hnone a hk ((mem_lineage?_iff h).mp ha)
  only k o hk hbelow honly := by
    obtain ⟨before, k', after, rfl, hk', -⟩ :=
      Outcome.exists_earliest h (Outcome.known_of_mem hk) hbelow
    have hmem : k' ∈ before ++ k' :: after := List.mem_append_right _ List.mem_cons_self
    cases honly k' (Outcome.known_of_mem hk') ((mem_lineage?_iff h).mp hmem)
    exact Option.some_inj.mp
      ((Outcome.lookup_known.mpr hk').symm.trans (Outcome.lookup_known.mpr hk))
  earliest before k o after hl hk hbefore := Outcome.ofClass_of_earliest (hl ▸ h) hk hbefore
  decided k hk hbelow := Outcome.exists_earliest h hk hbelow
  single b hbases hc := Outcome.ofClass_of_single h hbases hc
  failure := Outcome.ofClass_not_success

/-! ## Crossed bases

The first base is below one known class, the second below another one and then the first.
So the class that both have above them waits until the other is through, though the first
base alone would be answered by it. -/

def garbled : ErrorClass := markup.child "Garbled"

def crossed : ErrorClass := .mk "Crossed" 0 [garbled, .mk "Astray" 0 [invalidNode, markup]]

theorem lineage?_crossed : crossed.lineage? =
    some ([crossed, garbled, .mk "Astray" 0 [invalidNode, markup]] ++ invalidNode ::
      [markup, dialogue, exception, anyError]) := by
  decide +kernel

theorem crossed_answered_by_second_base : (∃ l, crossed.lineage? = some l) ∧
    ofClass garbled = .markup ∧ ofClass crossed = .invalidNode := by
  refine ⟨⟨_, lineage?_crossed⟩, by decide +kernel, ?_⟩
  exact (errors_answered_by_lineage lineage?_crossed).earliest _ _ _ _ rfl (by decide +kernel)
    (by decide +kernel)

end Session

end Parley
