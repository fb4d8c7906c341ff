import Mathlib

/-!
# Library - Finite maps

Extensional finite maps in place of hash maps.  The iteration order of a hash map is
unspecified, so nothing below depends on the order in which entries are listed.

Main definitions:

- `HashMap`: finite maps over a lawfully ordered key type.
- `HashMap.valueList`: the values in key order.
-/

namespace ObjectStore

/-- `std::collections::HashMap`, as an extensional finite map. -/
abbrev HashMap (K V : Type) [Ord K] := Std.ExtTreeMap K V compare

namespace HashMap

variable {K V : Type} [Ord K] [Std.TransOrd K]

/-- `into_values`, in the order of the keys. -/
def valueList (m : HashMap K V) : List V :=
  m.toList.map Prod.snd

@[simp]
theorem length_valueList (m : HashMap K V) : m.valueList.length = m.size := by
  simp [valueList]

theorem mem_iff_exists_getElem? {m : HashMap K V} {key : K} :
    key ∈ m ↔ ∃ value, m[key]? = some value := by
  rw [Std.ExtTreeMap.mem_iff_isSome_getElem?, Option.isSome_iff_exists]

theorem getElem?_insert_same (m : HashMap K V) {key : K} {value found : V}
    (h : (m.insert key value)[key]? = some found) : value = found := by
  rw [Std.ExtTreeMap.getElem?_insert_self] at h
  exact Option.some.inj h

theorem getElem?_of_erase {m : HashMap K V} {key key' : K} {value : V}
    (h : (m.erase key)[key']? = some value) : m[key']? = some value := by
  rw [Std.ExtTreeMap.getElem?_erase] at h
  split at h
  · cases h
  · exact h

variable [Std.LawfulEqOrd K]

theorem mem_valueList {m : HashMap K V} {value : V} :
    value ∈ m.valueList ↔ ∃ key : K, m[key]? = some value := by
  simp only [valueList, List.mem_map, Prod.exists, exists_eq_right,
    Std.ExtTreeMap.mem_toList_iff_getElem?_eq_some]

/-- What holds of all entries, from a list of them. -/
theorem forall_of_toList {m : HashMap K V} {P : K → V → Prop} {entries : List (K × V)}
    (hentries : m.toList = entries) (h : ∀ entry ∈ entries, P entry.1 entry.2) (key : K) (value : V)
    (hvalue : m[key]? = some value) : P key value := by
  subst hentries
  exact h (key, value) (Std.ExtTreeMap.mem_toList_iff_getElem?_eq_some.mpr hvalue)

/-- Values stored under one key each are listed once. -/
theorem nodup_valueList {m : HashMap K V}
    (h : ∀ (key key' : K) (value : V), m[key]? = some value → m[key']? = some value → key = key') :
    m.valueList.Nodup := by
  have hentries : m.toList.Nodup := by
    have hkeys : (m.toList.map Prod.fst).Nodup := by
      rw [Std.ExtTreeMap.map_fst_toList_eq_keys]
      exact Std.ExtTreeMap.nodup_keys
    exact hkeys.of_map
  refine hentries.map_on ?_
  rintro ⟨key, value⟩ hentry ⟨key', value'⟩ hentry' heq
  have hvalue : value = value' := heq
  subst hvalue
  have hkey := h key key' value (Std.ExtTreeMap.mem_toList_iff_getElem?_eq_some.mp hentry)
    (Std.ExtTreeMap.mem_toList_iff_getElem?_eq_some.mp hentry')
  rw [hkey]

/-- Values that carry their own key are listed with different keys. -/
theorem nodup_map_valueList {m : HashMap K V} (f : V → K)
    (h : ∀ (key : K) (value : V), m[key]? = some value → f value = key) :
    (m.valueList.map f).Nodup := by
  have hkeys : m.valueList.map f = m.toList.map Prod.fst := by
    rw [valueList, List.map_map]
    refine List.map_congr_left ?_
    rintro ⟨key, value⟩ hentry
    exact h key value (Std.ExtTreeMap.mem_toList_iff_getElem?_eq_some.mp hentry)
  rw [hkeys, Std.ExtTreeMap.map_fst_toList_eq_keys]
  exact Std.ExtTreeMap.nodup_keys

/-- Maps with the same keys have the same size. -/
theorem size_eq_of_mem_iff {W : Type} {m : HashMap K V} {m' : HashMap K W}
    (h : ∀ key, key ∈ m ↔ key ∈ m') : m.size = m'.size := by
  rw [← Std.ExtTreeMap.length_keys, ← Std.ExtTreeMap.length_keys]
  have hperm : m.keys.Perm m'.keys :=
    (List.perm_ext_iff_of_nodup Std.ExtTreeMap.nodup_keys Std.ExtTreeMap.nodup_keys).mpr
      fun key => by rw [Std.ExtTreeMap.mem_keys, Std.ExtTreeMap.mem_keys, h]
  exact hperm.length_eq

/-- Different keys are at most as many as the map has. -/
theorem length_le_size {m : HashMap K V} {keys : List K} (hnodup : keys.Nodup)
    (h : ∀ key ∈ keys, key ∈ m) : keys.length ≤ m.size := by
  rw [← Std.ExtTreeMap.length_keys]
  apply List.Subperm.length_le
  apply List.subperm_of_subset hnodup
  intro key hkey
  rw [Std.ExtTreeMap.mem_keys]
  exact h key hkey

/-! ## Updates -/

theorem getElem?_insert_of_ne (m : HashMap K V) {key key' : K} (value : V)
    (hne : key' ≠ key) : (m.insert key value)[key']? = m[key']? := by
  rw [Std.ExtTreeMap.getElem?_insert, if_neg]
  simpa using Ne.symm hne

/-- What holds of all values still holds when one is stored that it holds of. -/
theorem forall_insert {m : HashMap K V} {P : K → V → Prop} {key : K} {value : V}
    (h : ∀ (other : K) (found : V), m[other]? = some found → P other found)
    (hvalue : P key value) (other : K) (found : V)
    (hfound : (m.insert key value)[other]? = some found) : P other found := by
  by_cases hother : other = key
  · subst hother
    rw [← getElem?_insert_same m hfound]
    exact hvalue
  · exact h other found ((getElem?_insert_of_ne m value hother).symm.trans hfound)

/-- Storing what is stored already. -/
theorem insert_of_getElem? {m : HashMap K V} {key : K} {value : V} (h : m[key]? = some value) :
    m.insert key value = m := by
  refine Std.ExtTreeMap.ext_getElem? fun other => ?_
  rw [Std.ExtTreeMap.getElem?_insert]
  split
  · rename_i heq
    rw [← Std.LawfulEqCmp.eq_of_compare heq, h]
  · rfl

theorem getElem?_erase_of_ne (m : HashMap K V) {key key' : K} (hne : key' ≠ key) :
    (m.erase key)[key']? = m[key']? := by
  rw [Std.ExtTreeMap.getElem?_erase, if_neg]
  simpa using Ne.symm hne

theorem erase_of_not_mem {m : HashMap K V} {key : K} (h : key ∉ m) : m.erase key = m := by
  refine Std.ExtTreeMap.ext_getElem? fun key' => ?_
  rw [Std.ExtTreeMap.getElem?_erase]
  split
  · rename_i heq
    rw [Std.LawfulEqOrd.eq_of_compare heq] at h
    simpa using h
  · rfl

/-- Erasing a list of keys one after the other. -/
theorem getElem?_foldl_erase [DecidableEq K] (keys : List K) (m : HashMap K V) (key : K) :
    (keys.foldl (·.erase ·) m)[key]? = if key ∈ keys then none else m[key]? := by
  induction keys generalizing m with
  | nil => simp
  | cons first rest ih =>
      rw [List.foldl_cons, ih, Std.ExtTreeMap.getElem?_erase]
      by_cases hrest : key ∈ rest
      · simp [hrest]
      · by_cases hfirst : first = key
        · simp [hfirst]
        · simp [hrest, hfirst, Ne.symm hfirst]

theorem getElem?_of_foldl_erase [DecidableEq K] {keys : List K} {m : HashMap K V} {key : K}
    {value : V} (h : (keys.foldl (·.erase ·) m)[key]? = some value) :
    m[key]? = some value := by
  rw [getElem?_foldl_erase] at h
  split at h
  · cases h
  · exact h

/-- Inserting a list of items one after the other: an item of the list wins, or no item
has the key. -/
theorem getElem?_foldl_insert {α : Type} (key : α → K) (value : α → V) (items : List α)
    (m : HashMap K V) (k : K) :
    (∃ item ∈ items, key item = k ∧
        (items.foldl (fun m item => m.insert (key item) (value item)) m)[k]? =
          some (value item)) ∨
      (∀ item ∈ items, key item ≠ k) ∧
        (items.foldl (fun m item => m.insert (key item) (value item)) m)[k]? = m[k]? := by
  induction items using List.reverseRecOn with
  | nil => simp
  | append_singleton items last ih =>
      rw [List.foldl_append, List.foldl_cons, List.foldl_nil]
      by_cases hlast : key last = k
      · refine .inl ⟨last, by simp, hlast, ?_⟩
        rw [← hlast]
        exact Std.ExtTreeMap.getElem?_insert_self
      · rw [getElem?_insert_of_ne _ _ (Ne.symm hlast)]
        rcases ih with ⟨item, hitem, hkey, hfound⟩ | ⟨hnone, hfound⟩
        · exact .inl ⟨item, by simp [hitem], hkey, hfound⟩
        · refine .inr ⟨fun item hitem => ?_, hfound⟩
          rcases List.mem_append.mp hitem with hitem | hitem
          · exact hnone item hitem
          · rw [List.mem_singleton.mp hitem]
            exact hlast

/-- A map is rebuilt from its entries. -/
theorem ofList_toList (m : HashMap K V) : Std.ExtTreeMap.ofList m.toList compare = m := by
  refine Std.ExtTreeMap.ext_getElem? fun key => ?_
  cases hkey : m[key]? with
  | none =>
      classical
      refine Std.ExtTreeMap.getElem?_ofList_of_contains_eq_false ?_
      rw [Std.ExtTreeMap.map_fst_toList_eq_keys, Std.ExtTreeMap.contains_keys]
      have habsent : key ∉ m := by simpa using hkey
      exact Bool.eq_false_iff.mpr fun hcontains =>
        habsent (Std.ExtTreeMap.mem_iff_contains.mpr hcontains)
  | some value =>
      have hmem : (key, value) ∈ m.toList :=
        Std.ExtTreeMap.mem_toList_iff_getElem?_eq_some.mpr hkey
      exact Std.ExtTreeMap.getElem?_ofList_of_mem Std.ReflCmp.compare_self
        Std.ExtTreeMap.distinct_keys_toList hmem

end HashMap

end ObjectStore
