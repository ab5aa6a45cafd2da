import ConfigSource.Table
import Mathlib.Data.List.Nodup
import Mathlib.Data.List.Perm.Basic

/-!
# Reading tables

What a table says about its keys, and what the reading order keeps. Writing a member never doubles
a key, so a table that was written member by member lists every key once
(`ConfigSource.Table.nodup_keys_set`), and of the values that were written under it the last counts
(`ConfigSource.Table.get?_ofList`). Reading it in order rearranges the members and does nothing
else (`ConfigSource.Table.ordered_perm`); a table without index keys is read as it was written
(`ConfigSource.Table.ordered_of_noIndex`). Where a function is applied to every value, so it is to
what is read (`ConfigSource.Table.get?_mapValues`).
-/

namespace ConfigSource

namespace Table

variable {α : Type}

/-! ### Keys -/

@[simp] theorem keys_nil : keys ([] : Table α) = [] := rfl

@[simp] theorem keys_cons (m : String × α) (t : Table α) : keys (m :: t) = m.1 :: keys t := rfl

/-- **A key has a value exactly where it is one of the keys.** -/
theorem isSome_get?_iff {t : Table α} {key : String} : (t.get? key).isSome ↔ key ∈ t.keys := by
  induction t with
  | nil => simp [get?]
  | cons m rest ih =>
    obtain ⟨k, v⟩ := m
    by_cases h : k = key
    · simp [get?, h]
    · simp [get?, h, ih, Ne.symm h]

/-- What is read is a member. -/
theorem mem_of_get? {t : Table α} {key : String} {v : α} (h : t.get? key = some v) :
    (key, v) ∈ t := by
  induction t with
  | nil => cases h
  | cons m rest ih =>
    obtain ⟨k, w⟩ := m
    rw [get?] at h
    split at h
    · next hk =>
      rw [hk, Option.some.inj h]
      exact List.mem_cons_self
    · exact List.mem_cons_of_mem _ (ih h)

/-- A key that stands in the second table only is read there. -/
theorem get?_append_of_not_mem {t : Table α} {key : String} (h : key ∉ t.keys) (t' : Table α) :
    get? (t ++ t') key = get? t' key := by
  induction t with
  | nil => rfl
  | cons m rest ih =>
    obtain ⟨k, v⟩ := m
    obtain ⟨hk, hrest⟩ := List.ne_and_not_mem_of_not_mem_cons h
    rw [List.cons_append, get?, if_neg (Ne.symm hk), ih hrest]

/-- Reading after one write. -/
theorem get?_set (t : Table α) (key other : String) (v : α) :
    (t.set key v).get? other = if key = other then some v else t.get? other := by
  by_cases h : key = other
  · subst h
    simp
  · simp [h]

/-- What a table holds after a member was written. -/
theorem mem_set {t : Table α} {key : String} {v : α} {m : String × α} (h : m ∈ t.set key v) :
    m ∈ t ∨ m = (key, v) := by
  induction t with
  | nil => exact Or.inr (List.mem_singleton.mp h)
  | cons first rest ih =>
    rw [set] at h
    split at h
    · rcases List.mem_cons.mp h with rfl | h
      · exact Or.inr rfl
      · exact Or.inl (List.mem_cons_of_mem _ h)
    · rcases List.mem_cons.mp h with rfl | h
      · exact Or.inl List.mem_cons_self
      · exact (ih h).imp_left (List.mem_cons_of_mem _)

/-- A write adds the key, and no other. -/
theorem mem_keys_set {t : Table α} {key other : String} {v : α} :
    other ∈ (t.set key v).keys ↔ other = key ∨ other ∈ t.keys := by
  rw [← isSome_get?_iff, ← isSome_get?_iff, get?_set]
  by_cases h : key = other
  · simp [h]
  · simp [h, Ne.symm h]

/-- A write under a new key appends the member. -/
theorem set_of_not_mem {t : Table α} {key : String} {v : α} (h : key ∉ t.keys) :
    t.set key v = t ++ [(key, v)] := by
  induction t with
  | nil => rfl
  | cons m rest ih =>
    obtain ⟨hne, hrest⟩ := not_or.mp (mt List.mem_cons.mpr h)
    rw [set, if_neg (Ne.symm hne), ih hrest, List.cons_append]

/-- **A write doubles no key.** -/
theorem nodup_keys_set {t : Table α} (h : t.keys.Nodup) (key : String) (v : α) :
    (t.set key v).keys.Nodup := by
  induction t with
  | nil => simp [set]
  | cons m rest ih =>
    obtain ⟨k, w⟩ := m
    have hrest : k ∉ keys rest ∧ (keys rest).Nodup := by simpa using h
    by_cases hk : k = key
    · subst hk
      simpa [set] using hrest
    · have hnew : k ∉ keys (set rest key v) := by
        rw [mem_keys_set]
        rintro (rfl | hmem)
        · exact hk rfl
        · exact hrest.1 hmem
      simpa [set, hk] using ⟨hnew, ih hrest.2⟩

/-- Reading after writes: of those under one key the last counts. -/
theorem get?_setAll (t : Table α) (members : List (String × α)) (key : String) :
    (setAll t members).get? key
      = ((members.reverse.find? fun m => m.1 == key).map Prod.snd).or (t.get? key) := by
  induction members generalizing t with
  | nil => simp [setAll]
  | cons m rest ih =>
    have hrest : setAll t (m :: rest) = setAll (t.set m.1 m.2) rest := rfl
    rw [hrest, ih, get?_set, List.reverse_cons, List.find?_append]
    cases rest.reverse.find? fun m => m.1 == key with
    | some last => simp
    | none => by_cases h : m.1 = key <;> simp [h]

/-- In a table that was written member by member the last value of a key counts. -/
theorem get?_ofList (members : List (String × α)) (key : String) :
    (ofList members).get? key
      = (members.reverse.find? fun m => m.1 == key).map Prod.snd := by
  rw [ofList, get?_setAll, get?_nil, Option.or_none]

/-- In a table that doubles no key every member is read. -/
theorem get?_of_mem {t : Table α} (h : t.keys.Nodup) {m : String × α} (hm : m ∈ t) :
    t.get? m.1 = some m.2 := by
  obtain ⟨v, hv⟩ := Option.isSome_iff_exists.mp (isSome_get?_iff.mpr (List.mem_map_of_mem hm))
  have hsame : (m.1, v) = m := List.inj_on_of_nodup_map h (mem_of_get? hv) hm rfl
  rw [hv, ← congrArg Prod.snd hsame]

/-- What is read are the members. -/
theorem get?_eq_some_iff {t : Table α} (h : t.keys.Nodup) {key : String} {v : α} :
    t.get? key = some v ↔ (key, v) ∈ t :=
  ⟨mem_of_get?, get?_of_mem h⟩

/-- The same holds of the table that is written from its members. -/
theorem get?_ofList_of_mem {t : Table α} (h : t.keys.Nodup) {m : String × α} (hm : m ∈ t) :
    (ofList t).get? m.1 = some m.2 := by
  rw [get?_ofList]
  cases hfind : t.reverse.find? fun m' => m'.1 == m.1 with
  | none =>
    have hnot := List.find?_eq_none.mp hfind m (List.mem_reverse.mpr hm)
    exact absurd (beq_self_eq_true m.1) hnot
  | some last =>
    have hmem := List.mem_reverse.mp (List.mem_of_find?_eq_some hfind)
    have hkey : last.1 = m.1 := by simpa using List.find?_some hfind
    rw [List.inj_on_of_nodup_map h hmem hm hkey, Option.map_some]

/-- Writing members under new keys appends them. -/
theorem setAll_of_nodup {t members : Table α} (h : (t ++ members).keys.Nodup) :
    setAll t members = t ++ members := by
  induction members generalizing t with
  | nil => exact (List.append_nil t).symm
  | cons m rest ih =>
    have hsplit : t ++ m :: rest = (t ++ [m]) ++ rest := by simp
    have hset : t.set m.1 m.2 = t ++ [m] := by
      refine set_of_not_mem fun hm => ?_
      rw [keys, List.map_append, List.nodup_append] at h
      exact h.2.2 _ hm _ List.mem_cons_self rfl
    rw [hsplit] at h ⊢
    rw [← ih h, ← hset]
    rfl

/-- **A table that doubles no key is the one that is written from its members.** -/
theorem ofList_of_nodup {t : Table α} (h : t.keys.Nodup) : ofList t = t :=
  setAll_of_nodup (t := []) h

/-- **Where no key is doubled, the order of the members makes no difference.** -/
theorem get?_of_perm {t t' : Table α} (h : t.Perm t') (hkeys : t.keys.Nodup) (key : String) :
    t.get? key = t'.get? key := by
  refine Option.ext fun v => ?_
  rw [get?_eq_some_iff hkeys, get?_eq_some_iff ((h.map Prod.fst).nodup_iff.mp hkeys)]
  exact h.mem_iff

/-- A table without some of its members is read under the keys that are kept. -/
theorem get?_restrict (keep : String → Bool) (t : Table α) (key : String) :
    (t.restrict keep).get? key = if keep key then t.get? key else none := by
  induction t with
  | nil => simp [restrict]
  | cons m rest ih =>
    obtain ⟨k, v⟩ := m
    rw [restrict] at ih ⊢
    rw [List.filter_cons]
    by_cases hk : k = key
    · subst hk
      by_cases hkeep : keep k = true <;> simp [get?, hkeep, ih]
    · by_cases hkeep : keep k = true <;> simp [get?, hk, hkeep, ih]

/-! ### Other values under the same keys -/

/-- The table with a function applied to every value. -/
def mapValues {β : Type} (f : α → β) (t : Table α) : Table β := t.map fun m => (m.1, f m.2)

@[simp] theorem get?_mapValues {β : Type} (f : α → β) (t : Table α) (key : String) :
    (t.mapValues f).get? key = (t.get? key).map f := by
  induction t with
  | nil => rfl
  | cons m rest ih =>
    rw [mapValues, List.map_cons, get?, get?]
    split
    · rfl
    · exact ih

/-- A value may be written before or after. -/
theorem set_mapValues {β : Type} (f : α → β) (t : Table α) (key : String) (v : α) :
    (t.mapValues f).set key (f v) = (t.set key v).mapValues f := by
  induction t with
  | nil => rfl
  | cons m rest ih =>
    rw [mapValues, List.map_cons, set, set]
    split
    · rfl
    · exact congrArg (_ :: ·) ih

/-! ### Reading order -/

/-- The members under index keys, taken out of the list that is sorted by their numbers. -/
theorem map_snd_indexed (t : Table α) :
    (t.filterMap fun m => (indexKey? m.1).map fun n => (n, m)).map Prod.snd
      = t.filter fun m => (indexKey? m.1).isSome := by
  induction t with
  | nil => rfl
  | cons m rest ih =>
    cases h : indexKey? m.1 with
    | none => simp [h, ih]
    | some n => simp [h, ih]

/-- **The reading order rearranges the members.** -/
theorem ordered_perm (t : Table α) : (ordered t).Perm t := by
  have hsplit := List.filter_append_perm (fun m : String × α => (indexKey? m.1).isSome) t
  have hnone : (fun m : String × α => !(indexKey? m.1).isSome)
      = fun m => (indexKey? m.1).isNone := by
    funext m
    exact Option.not_isSome _
  rw [hnone, ← map_snd_indexed] at hsplit
  exact (((List.mergeSort_perm _ _).map Prod.snd).append_right _).trans hsplit

theorem mem_keys_ordered {t : Table α} {key : String} : key ∈ (ordered t).keys ↔ key ∈ t.keys :=
  ((ordered_perm t).map Prod.fst).mem_iff

theorem nodup_keys_ordered {t : Table α} (h : t.keys.Nodup) : (ordered t).keys.Nodup :=
  ((ordered_perm t).map Prod.fst).nodup_iff.mpr h

/-- A table without index keys is read as it was written. -/
theorem ordered_of_noIndex {t : Table α} (h : ∀ m ∈ t, indexKey? m.1 = none) : ordered t = t := by
  have hindexed : (t.filterMap fun m => (indexKey? m.1).map fun n => (n, m)) = [] := by
    rw [List.filterMap_eq_nil_iff]
    intro m hm
    rw [h m hm, Option.map_none]
  have hothers : (t.filter fun m => (indexKey? m.1).isNone) = t := by
    rw [List.filter_eq_self]
    intro m hm
    rw [h m hm, Option.isNone_none]
  rw [ordered, hindexed, hothers]
  simp

end Table

end ConfigSource
