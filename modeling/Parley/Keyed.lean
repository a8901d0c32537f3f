/-!
# Tables in order of insertion

A table of entries under distinct keys.  A new key goes to the end; writing to a
key that is there keeps its place and replaces the datum.  Keys are compared by
`==`, which need not be equality.
-/

namespace Parley

structure Keyed (κ α : Type) where
  entries : List (κ × α) := []

namespace Keyed

variable {κ α : Type} [BEq κ]

/-- Replace the entry of a key, or append one. -/
def put (key : κ) (value : α) : List (κ × α) → List (κ × α)
  | [] => [(key, value)]
  | e :: rest => if e.1 == key then (e.1, value) :: rest else e :: put key value rest

def insert (t : Keyed κ α) (key : κ) (value : α) : Keyed κ α := ⟨put key value t.entries⟩

def get? (t : Keyed κ α) (key : κ) : Option α :=
  (t.entries.find? fun e => e.1 == key).map (·.2)

def contains (t : Keyed κ α) (key : κ) : Bool := t.entries.any fun e => e.1 == key

def erase (t : Keyed κ α) (key : κ) : Keyed κ α := ⟨t.entries.filter fun e => !(e.1 == key)⟩

def insertAll (t : Keyed κ α) (entries : List (κ × α)) : Keyed κ α :=
  entries.foldl (fun t e => t.insert e.1 e.2) t

omit [BEq κ] in
def keys (t : Keyed κ α) : List κ := t.entries.map (·.1)

omit [BEq κ] in
def values (t : Keyed κ α) : List α := t.entries.map (·.2)

omit [BEq κ] in
def size (t : Keyed κ α) : Nat := t.entries.length

/-- The last entry of each key, at the place of its first. -/
def ofList (entries : List (κ × α)) : Keyed κ α := insertAll {} entries

theorem find?_put {key : κ} (hself : (key == key) = true) (value : α) (es : List (κ × α)) :
    ((put key value es).find? fun e => e.1 == key).map (·.2) = some value := by
  induction es with
  | nil => simp [put, hself]
  | cons e rest ih =>
    unfold put
    split
    · next h => simp [h]
    · next h => simp [h, ih]

/-- What is written under a key that equals itself is found there. -/
theorem get?_insert {key : κ} (hself : (key == key) = true) (t : Keyed κ α) (value : α) :
    (t.insert key value).get? key = some value :=
  find?_put hself value t.entries

theorem get?_insert_self [ReflBEq κ] (t : Keyed κ α) (key : κ) (value : α) :
    (t.insert key value).get? key = some value :=
  get?_insert (BEq.refl key) t value

/-! ## Other keys, presence, order -/

theorem find?_put_of_ne {key other : κ} (hapart : ∀ k, (k == key) = true → (k == other) = false)
    (hne : (key == other) = false) (value : α) (es : List (κ × α)) :
    ((put key value es).find? fun e => e.1 == other).map (·.2)
      = (es.find? fun e => e.1 == other).map (·.2) := by
  induction es with
  | nil => simp [put, hne]
  | cons e rest ih =>
    unfold put
    split
    · next h => simp [hapart e.1 h]
    · next => by_cases ho : e.1 == other <;> simp [ho, ih]

/-- Writing under a key leaves what is found under another, if nothing counts as both. -/
theorem get?_insert_of_ne {key other : κ}
    (hapart : ∀ k, (k == key) = true → (k == other) = false) (hne : (key == other) = false)
    (t : Keyed κ α) (value : α) : (t.insert key value).get? other = t.get? other :=
  find?_put_of_ne hapart hne value t.entries

theorem isSome_get? (t : Keyed κ α) (key : κ) : (t.get? key).isSome = t.contains key := by
  rw [get?, contains, Option.isSome_map, Bool.eq_iff_iff, List.find?_isSome, List.any_eq_true]

/-- A key that is there keeps its place; a new one goes to the end. -/
theorem keys_insert (t : Keyed κ α) (key : κ) (value : α) :
    (t.insert key value).keys = if t.contains key then t.keys else t.keys ++ [key] := by
  obtain ⟨es⟩ := t
  induction es with
  | nil => rfl
  | cons e rest ih =>
    simp only [insert, keys, contains, List.any_cons] at ih ⊢
    unfold put
    split
    · next h => simp [h]
    · next h =>
      rw [Bool.not_eq_true] at h
      by_cases hr : (rest.any fun e => e.1 == key) = true <;> simp [ih, h, hr]

theorem put_of_new {key : κ} {es : List (κ × α)} (h : ∀ e ∈ es, (e.1 == key) = false) (value : α) :
    put key value es = es ++ [(key, value)] := by
  induction es with
  | nil => rfl
  | cons e rest ih =>
    obtain ⟨he, hrest⟩ := List.forall_mem_cons.mp h
    rw [put, if_neg (by simp [he]), ih hrest, List.cons_append]

/-- Entries under distinct new keys go to the end, in order. -/
theorem entries_insertAll {es : List (κ × α)} (hes : es.Pairwise fun e f => (e.1 == f.1) = false)
    {t : Keyed κ α} (ht : ∀ e ∈ t.entries, ∀ f ∈ es, (e.1 == f.1) = false) :
    (t.insertAll es).entries = t.entries ++ es := by
  induction es generalizing t with
  | nil => exact (List.append_nil _).symm
  | cons f rest ih =>
    obtain ⟨hf, hrest⟩ := List.pairwise_cons.mp hes
    have hput : (t.insert f.1 f.2).entries = t.entries ++ [f] :=
      put_of_new (fun e he => ht e he f List.mem_cons_self) f.2
    have happart : ∀ e ∈ (t.insert f.1 f.2).entries, ∀ g ∈ rest, (e.1 == g.1) = false := by
      rw [hput, List.forall_mem_append, List.forall_mem_singleton]
      exact ⟨fun e he g hg => ht e he g (List.mem_cons_of_mem _ hg), hf⟩
    have hall : ((t.insert f.1 f.2).insertAll rest).entries = _ := ih hrest happart
    show ((t.insert f.1 f.2).insertAll rest).entries = _
    rw [hall, hput, List.append_assoc, List.singleton_append]

/-- An entry is one from before, or it holds what is written. -/
theorem mem_put {key : κ} {value : α} {es : List (κ × α)} {e : κ × α}
    (h : e ∈ put key value es) : e ∈ es ∨ e.2 = value := by
  induction es with
  | nil =>
    rw [put, List.mem_singleton] at h
    exact .inr (by rw [h])
  | cons e' rest ih =>
    unfold put at h
    split at h
    · rcases List.mem_cons.mp h with rfl | h
      · exact .inr rfl
      · exact .inl (List.mem_cons_of_mem _ h)
    · rcases List.mem_cons.mp h with rfl | h
      · exact .inl List.mem_cons_self
      · exact (ih h).imp (List.mem_cons_of_mem _) id

theorem mem_values_of_get? {t : Keyed κ α} {key : κ} {value : α} (h : t.get? key = some value) :
    value ∈ t.values := by
  obtain ⟨e, he, rfl⟩ := Option.map_eq_some_iff.mp h
  exact List.mem_map_of_mem (List.mem_of_find?_eq_some he)

/-- A value is one from before, or the one that was written. -/
theorem mem_values_insert {t : Keyed κ α} {key : κ} {value new : α}
    (h : value ∈ (t.insert key new).values) : value ∈ t.values ∨ value = new := by
  obtain ⟨e, he, rfl⟩ := List.mem_map.mp h
  exact (mem_put he).imp_left List.mem_map_of_mem

/-- No two entries get the same key. -/
theorem nodup_keys_insert {key : κ} (hself : (key == key) = true) {t : Keyed κ α}
    (h : t.keys.Nodup) (value : α) : (t.insert key value).keys.Nodup := by
  rw [keys_insert]
  split
  · exact h
  · next hnot =>
    have hmem : key ∉ t.keys := by
      intro hmem
      obtain ⟨e, he, hkey⟩ := List.mem_map.mp hmem
      exact hnot (List.any_eq_true.mpr ⟨e, he, by rw [hkey, hself]⟩)
    exact List.nodup_append.mpr ⟨h, by simp, by grind⟩

/-! ## Writing again

What is written under a key stays in the place that the key has, so writing a list of entries
once more changes nothing.  Only keys that equal themselves have a place. -/

theorem contains_insert {key : κ} (hself : (key == key) = true) (t : Keyed κ α) (value : α) :
    (t.insert key value).contains key = true := by
  rw [← isSome_get?, get?_insert hself]
  rfl

theorem contains_insert_of_contains {t : Keyed κ α} {other : κ} (h : t.contains other = true)
    (key : κ) (value : α) : (t.insert key value).contains other = true := by
  have hany : ∀ t : Keyed κ α, t.contains other = t.keys.any fun k => k == other := by
    intro t
    rw [keys, List.any_map]
    rfl
  rw [hany] at h ⊢
  rw [keys_insert]
  split
  · exact h
  · rw [List.any_append, h, Bool.true_or]

theorem contains_insertAll_of_contains {t : Keyed κ α} {other : κ} (h : t.contains other = true)
    (es : List (κ × α)) : (t.insertAll es).contains other = true :=
  List.foldlRecOn (motive := fun t => Keyed.contains t other = true) es _ h fun _ ht e _ =>
    contains_insert_of_contains ht e.1 e.2

/-- Every key of a list that was written is there. -/
theorem contains_insertAll {es : List (κ × α)} (hself : ∀ e ∈ es, (e.1 == e.1) = true)
    (t : Keyed κ α) : ∀ e ∈ es, (t.insertAll es).contains e.1 = true := by
  induction es generalizing t with
  | nil => nofun
  | cons e rest ih =>
    obtain ⟨he, hrest⟩ := List.forall_mem_cons.mp hself
    exact List.forall_mem_cons.mpr
      ⟨contains_insertAll_of_contains (contains_insert he t e.2) rest, ih hrest _⟩

theorem put_put {key : κ} (hself : (key == key) = true) (value old : α) (es : List (κ × α)) :
    put key value (put key old es) = put key value es := by
  induction es with
  | nil => simp [put, hself]
  | cons e rest ih => by_cases h : (e.1 == key) = true <;> simp [put, h, ih]

/-- A write is of no account if a later one has its key, whatever came between under a key
that was there. -/
theorem put_put_put {key other : κ} (hself : (key == key) = true) (value old between : α)
    {es : List (κ × α)} (hother : (es.any fun e => e.1 == other) = true) :
    put key value (put other between (put key old es)) = put key value (put other between es) := by
  induction es with
  | nil => cases hother
  | cons e rest ih =>
    rw [List.any_cons, Bool.or_eq_true] at hother
    by_cases hkey : (e.1 == key) = true <;> by_cases ho : (e.1 == other) = true
    · simp [put, hkey, ho]
    · simp [put, hkey, ho]
    · simp [put, hkey, ho, put_put hself]
    · simp [put, hkey, ho, ih (hother.resolve_left ho)]

/-- The same with a list of entries in between. -/
theorem insert_insertAll_insert {key : κ} (hself : (key == key) = true) (value old : α)
    {es : List (κ × α)} {t : Keyed κ α} (hes : ∀ e ∈ es, t.contains e.1 = true) :
    ((t.insert key old).insertAll es).insert key value = (t.insertAll es).insert key value := by
  induction es generalizing t with
  | nil => exact congrArg mk (put_put hself value old t.entries)
  | cons e rest ih =>
    obtain ⟨he, hrest⟩ := List.forall_mem_cons.mp hes
    have hthere : ∀ u : Keyed κ α, (∀ f ∈ rest, u.contains f.1 = true) →
        ∀ f ∈ rest, (u.insert e.1 e.2).contains f.1 = true := fun u hu f hf =>
      contains_insert_of_contains (hu f hf) e.1 e.2
    have hrest' : ∀ f ∈ rest, (t.insert key old).contains f.1 = true := fun f hf =>
      contains_insert_of_contains (hrest f hf) key old
    have hput : ((t.insert key old).insert e.1 e.2).insert key old =
        (t.insert e.1 e.2).insert key old := congrArg mk (put_put_put hself old old e.2 he)
    calc (((t.insert key old).insert e.1 e.2).insertAll rest).insert key value
        = ((((t.insert key old).insert e.1 e.2).insert key old).insertAll rest).insert key
            value := (ih (hthere _ hrest')).symm
      _ = (((t.insert e.1 e.2).insert key old).insertAll rest).insert key value := by rw [hput]
      _ = ((t.insert e.1 e.2).insertAll rest).insert key value := ih (hthere _ hrest)

theorem insertAll_concat (t : Keyed κ α) (es : List (κ × α)) (e : κ × α) :
    t.insertAll (es ++ [e]) = (t.insertAll es).insert e.1 e.2 :=
  List.foldl_append

/-- Writing the same entries once more changes nothing. -/
theorem insertAll_insertAll {es : List (κ × α)} (hself : ∀ e ∈ es, (e.1 == e.1) = true)
    (t : Keyed κ α) : (t.insertAll es).insertAll es = t.insertAll es := by
  -- by induction from the end of the list
  obtain ⟨rs, rfl⟩ : ∃ rs : List (κ × α), es = rs.reverse := ⟨es.reverse, es.reverse_reverse.symm⟩
  induction rs with
  | nil => rfl
  | cons e rs ih =>
    rw [List.reverse_cons, List.forall_mem_append, List.forall_mem_singleton] at hself
    have hagain : (((t.insertAll rs.reverse).insert e.1 e.2).insertAll rs.reverse).insert e.1 e.2 =
        ((t.insertAll rs.reverse).insertAll rs.reverse).insert e.1 e.2 :=
      insert_insertAll_insert hself.2 e.2 e.2 (contains_insertAll hself.1 t)
    rw [List.reverse_cons, insertAll_concat, insertAll_concat, hagain, ih hself.1]

/-! ## What is found of a list -/

/-- Nothing but the key itself counts as it. -/
def Exact (key : κ) : Prop := ∀ k, ((k == key) = true ↔ k = key) ∧ ((key == k) = true ↔ k = key)

theorem exact_of_lawful [LawfulBEq κ] (key : κ) : Exact key := fun _ =>
  ⟨beq_iff_eq, beq_iff_eq.trans eq_comm⟩

/-- Writing under another key leaves what is found under an exact one. -/
theorem get?_insert_of_exact {key other : κ} (h : Exact key) (hne : other ≠ key) (t : Keyed κ α)
    (value : α) : (t.insert other value).get? key = t.get? key := by
  refine get?_insert_of_ne (fun k hk => ?_) ?_ t value
  · rw [← Bool.not_eq_true, (h k).1]
    rintro rfl
    exact hne ((h other).2.mp hk)
  · rw [← Bool.not_eq_true, (h other).1]
    exact hne

/-- Where a list has only one value under a key, that is found once the list is written. -/
theorem get?_insertAll_of_mem {key : κ} (h : Exact key) {value : α} {es : List (κ × α)}
    (hes : ∀ e ∈ es, e.1 = key → e.2 = value) (hmem : ∃ e ∈ es, e.1 = key) (t : Keyed κ α) :
    (t.insertAll es).get? key = some value := by
  obtain ⟨rs, rfl⟩ : ∃ rs : List (κ × α), es = rs.reverse := ⟨es.reverse, es.reverse_reverse.symm⟩
  induction rs with
  | nil =>
    obtain ⟨e, he, -⟩ := hmem
    cases he
  | cons e rs ih =>
    rw [List.reverse_cons, List.forall_mem_append, List.forall_mem_singleton] at hes
    rw [List.reverse_cons, insertAll_concat]
    by_cases he : e.1 = key
    · rw [hes.2 he, he, get?_insert ((h key).1.mpr rfl)]
    · rw [get?_insert_of_exact h he]
      refine ih hes.1 ?_
      obtain ⟨f, hf, hkey⟩ := hmem
      rw [List.reverse_cons] at hf
      rcases List.mem_append.mp hf with hf | hf
      · exact ⟨f, hf, hkey⟩
      · exact absurd (List.mem_singleton.mp hf ▸ hkey) he

/-- Where a list has nothing under a key, writing it leaves what is found. -/
theorem get?_insertAll_of_not_mem {key : κ} (h : Exact key) {es : List (κ × α)}
    (hes : ∀ e ∈ es, e.1 ≠ key) (t : Keyed κ α) : (t.insertAll es).get? key = t.get? key := by
  induction es generalizing t with
  | nil => rfl
  | cons e rest ih =>
    obtain ⟨he, hrest⟩ := List.forall_mem_cons.mp hes
    exact (ih hrest (t.insert e.1 e.2)).trans (get?_insert_of_exact h he t e.2)

theorem ofList_append (es fs : List (κ × α)) : ofList (es ++ fs) = (ofList es).insertAll fs :=
  List.foldl_append

/-- What counts as the key is one key: it is found under each other, and under nothing else. -/
def Coherent (key : κ) : Prop := ∀ k other,
  ((k == other) = true → (k == key) = (other == key)) ∧
    ((k == key) = true → (other == key) = true → (k == other) = true)

/-- What is written under something that counts as a key is found under the key. -/
theorem get?_insert_of_beq {key other : κ} (h : Coherent key) (hother : (other == key) = true)
    (t : Keyed κ α) (value : α) : (t.insert other value).get? key = some value := by
  obtain ⟨es⟩ := t
  show ((put other value es).find? _).map _ = _
  induction es with
  | nil => simp [put, hother]
  | cons e rest ih =>
    unfold put
    split
    · next he => simp [((h e.1 other).1 he).trans hother]
    · next he =>
      have hnot : ¬ (e.1 == key) = true := fun hkey => he ((h e.1 other).2 hkey hother)
      simp [hnot, ih]

/-- What is written under something else leaves what is found under the key. -/
theorem get?_insert_of_not_beq {key other : κ} (h : Coherent key) (hother : (other == key) = false)
    (t : Keyed κ α) (value : α) : (t.insert other value).get? key = t.get? key :=
  get?_insert_of_ne (fun k hk => ((h k other).1 hk).trans hother) hother t value

/-- A list that is written takes precedence over what was there. -/
theorem get?_insertAll {key : κ} (h : Coherent key) (t : Keyed κ α) (es : List (κ × α)) :
    (t.insertAll es).get? key = ((ofList es).get? key).or (t.get? key) := by
  obtain ⟨rs, rfl⟩ : ∃ rs : List (κ × α), es = rs.reverse := ⟨es.reverse, es.reverse_reverse.symm⟩
  induction rs with
  | nil => rfl
  | cons e rs ih =>
    rw [List.reverse_cons, insertAll_concat, ofList, insertAll_concat]
    cases he : e.1 == key with
    | true => rw [get?_insert_of_beq h he, get?_insert_of_beq h he, Option.some_or]
    | false => rw [get?_insert_of_not_beq h he, get?_insert_of_not_beq h he, ih, ofList]

/-- Of several lists, the last that has a key decides what is found under it. -/
theorem get?_ofList_flatten {key : κ} (h : Coherent key) (tables : List (List (κ × α))) :
    (ofList tables.flatten).get? key = tables.reverse.findSome? fun es => (ofList es).get? key := by
  obtain ⟨ts, rfl⟩ : ∃ ts : List (List (κ × α)), tables = ts.reverse :=
    ⟨tables.reverse, tables.reverse_reverse.symm⟩
  rw [List.reverse_reverse]
  induction ts with
  | nil => rfl
  | cons es ts ih =>
    rw [List.reverse_cons, List.flatten_append, List.flatten_singleton, ofList_append,
      get?_insertAll h, ih, List.findSome?_cons]
    cases (ofList es).get? key <;> rfl

theorem get?_erase_self (t : Keyed κ α) (key : κ) : (t.erase key).get? key = none := by
  simp [get?, erase]

end Keyed

end Parley
