import ObjectStore.StorageMetadata.HashRing

/-!
# Storage metadata - Owned ranges and key ownership

A migration pulls the objects whose hashes fall into `get_owned_ranges`; requests
follow `get_owner`.  The ranges of all vnodes but the lowest agree with the lookup.
The lowest vnode wraps around: its first range ends at `u64::MAX` exclusively, and
starts at 0 when the highest vnode sits at `u64::MAX`.

Main results:

- Theorem `hashInRanges_getOwnedRanges_iff`: what the ranges of a node cover.
- Theorem `ranges_agree_with_owner_iff`: exactly where both agree.
- Theorem `wrap_range_misses`: rings and keys where they do not.
-/

namespace ObjectStore
namespace StorageMetadata
namespace HashRing

variable {hash : String → UInt64} {self : HashRing} {h : UInt64} {nodeId : String}

/-! ## One vnode -/

/-- A vnode behind another one covers the points between them. -/
theorem hashInRanges_vnodeRanges_of_lt {prevPos pos : UInt64} (hlt : prevPos < pos) :
    hashInRanges h (vnodeRanges prevPos pos) = true ↔ prevPos < h ∧ h ≤ pos := by
  simp only [vnodeRanges, hlt, if_true, hashInRanges, List.any_cons, List.any_nil, Bool.or_false]
  split
  · rename_i hle
    simp only [Bool.and_eq_true, decide_eq_true_eq]
    grind
  · rename_i hle
    simp only [Bool.or_eq_true, decide_eq_true_eq]
    grind

/-- What the lowest vnode covers: the points up to it, and the points behind the
highest vnode, but never `u64::MAX` behind it. -/
theorem hashInRanges_vnodeRanges_of_le {prevPos pos : UInt64} (hle : pos ≤ prevPos) :
    hashInRanges h (vnodeRanges prevPos pos) = true ↔
      (pos < maxHash ∧ h ≤ pos) ∨ (prevPos < maxHash ∧ prevPos < h ∧ h < maxHash) ∨
        (prevPos = maxHash ∧ h < maxHash) := by
  have hnlt : ¬ prevPos < pos := UInt64.not_lt.mpr hle
  have hmax : ∀ x : UInt64, x ≤ maxHash := by
    intro x
    unfold maxHash
    grind
  simp only [vnodeRanges, hnlt, if_false, hashInRanges, List.any_cons, List.any_nil,
    Bool.or_false, Bool.or_eq_true, hmax, UInt64.zero_le, if_true, Bool.and_eq_true,
    decide_eq_true_eq, true_and]
  have hmaxNat : maxHash.toNat = 18446744073709551615 := rfl
  have hone : (1 : UInt64).toNat = 1 := rfl
  have hprevBound := prevPos.toNat_lt
  have hposBound := pos.toNat_lt
  have hBound := h.toNat_lt
  simp only [UInt64.le_iff_toNat_le, UInt64.lt_iff_toNat_lt, UInt64.toNat_add,
    ← UInt64.toNat_inj, hmaxNat, hone] at *
  omega

/-! ## All vnodes of a node -/

/-- The position before the `i`-th vnode, the highest one for the lowest vnode. -/
def prevPosition (self : HashRing) (i : Nat) : Option UInt64 :=
  (if i = 0 then self.ring.toList[self.ring.toList.length - 1]?
    else self.ring.toList[i - 1]?).map Prod.fst

theorem prevPosition_zero (hi : 0 < self.ring.toList.length) :
    self.prevPosition 0 = some (self.ring.toList[self.ring.toList.length - 1]).1 := by
  rw [prevPosition, if_pos rfl, List.getElem?_eq_getElem (by omega), Option.map_some]

theorem prevPosition_pos {i : Nat} (hi : i < self.ring.toList.length) (hpos : 0 < i) :
    self.prevPosition i = some (self.ring.toList[i - 1]).1 := by
  rw [prevPosition, if_neg (by omega), List.getElem?_eq_getElem (by omega), Option.map_some]

theorem vnode_lt {i j : Nat} (hj : j < self.ring.toList.length) (hij : i < j) :
    (self.ring.toList[i]).1 < (self.ring.toList[j]).1 := by
  have hsorted := List.pairwise_iff_getElem.mp self.positions_sorted i j
    (by simp only [length_positions]; omega) (by simpa using hj) hij
  rw [getElem_positions _ (by omega), getElem_positions _ hj] at hsorted
  exact UInt64.lt_iff_toNat_lt.mpr hsorted

theorem vnode_le {i j : Nat} (hj : j < self.ring.toList.length) (hij : i ≤ j) :
    (self.ring.toList[i]).1 ≤ (self.ring.toList[j]).1 := by
  rcases Nat.lt_or_eq_of_le hij with hlt | rfl
  · exact UInt64.le_of_lt (vnode_lt hj hlt)
  · exact UInt64.le_refl _

theorem hashInRanges_flatMap {α : Type} (l : List α) (f : α → List (UInt64 × UInt64)) :
    hashInRanges h (l.flatMap f) = true ↔ ∃ x ∈ l, hashInRanges h (f x) = true := by
  simp [hashInRanges]

/-- The ranges of a node, one vnode at a time. -/
theorem hashInRanges_getOwnedRanges :
    hashInRanges h (self.getOwnedRanges nodeId) = true ↔
      ∃ i, ∃ hi : i < self.ring.toList.length, (self.ring.toList[i]).2 = nodeId ∧
        hashInRanges h (vnodeRanges ((self.prevPosition i).getD (self.ring.toList[i]).1)
          (self.ring.toList[i]).1) = true := by
  by_cases hempty : self.ring.isEmpty
  · have hnil : self.ring.toList = [] := Std.ExtTreeMap.toList_eq_nil_iff.mpr
      (Std.ExtTreeMap.isEmpty_iff.mp hempty)
    simp [getOwnedRanges, hempty, hashInRanges, hnil]
  · simp only [getOwnedRanges, hempty]
    rw [if_neg (by simp), hashInRanges_flatMap]
    constructor
    · rintro ⟨⟨⟨pos, owner⟩, i⟩, hmem, hhit⟩
      rcases List.getElem?_eq_some_iff.mp (List.mem_zipIdx_iff_getElem?.mp hmem) with ⟨hi, hget⟩
      have howner : owner = nodeId := by
        by_contra hne
        simp [hne, hashInRanges] at hhit
      rw [if_neg (by simpa using howner)] at hhit
      refine ⟨i, hi, by rw [hget]; exact howner, ?_⟩
      rw [hget]
      exact hhit
    · rintro ⟨i, hi, howner, hhit⟩
      refine ⟨(self.ring.toList[i], i), List.mem_zipIdx_iff_getElem?.mpr (by simp), ?_⟩
      rw [if_neg (by simpa using howner)]
      exact hhit

/-- A vnode behind another one covers the points that it is the next vnode of. -/
theorem hashInRanges_vnode {i : Nat} (hi : i < self.ring.toList.length) (hpos : 0 < i) :
    hashInRanges h (vnodeRanges ((self.prevPosition i).getD (self.ring.toList[i]).1)
        (self.ring.toList[i]).1) = true ↔
      h ≤ (self.ring.toList[i]).1 ∧ (0 < i → (self.ring.toList[i - 1]).1 < h) := by
  rw [prevPosition_pos hi hpos, Option.getD_some,
    hashInRanges_vnodeRanges_of_lt (vnode_lt hi (by omega))]
  tauto

/-- What the ranges of a node cover: the points whose next vnode is one of its vnodes
behind another one, and, if the lowest vnode is its, what that one wraps around to. -/
theorem hashInRanges_getOwnedRanges_iff :
    hashInRanges h (self.getOwnedRanges nodeId) = true ↔
      (∃ i, ∃ hi : i < self.ring.toList.length, 0 < i ∧ (self.ring.toList[i]).2 = nodeId ∧
        h ≤ (self.ring.toList[i]).1 ∧
          (0 < i → (self.ring.toList.get ⟨i - 1, Nat.lt_of_le_of_lt (Nat.sub_le i 1) hi⟩).1 < h)) ∨
      ∃ hi : 0 < self.ring.toList.length, (self.ring.toList[0]).2 = nodeId ∧
        hashInRanges h (vnodeRanges (self.ring.toList[self.ring.toList.length - 1]).1
          (self.ring.toList[0]).1) = true := by
  rw [hashInRanges_getOwnedRanges]
  constructor
  · rintro ⟨i, hi, howner, hhit⟩
    rcases Nat.eq_zero_or_pos i with rfl | hpos
    · refine .inr ⟨hi, howner, ?_⟩
      rwa [prevPosition_zero hi, Option.getD_some] at hhit
    · exact .inl ⟨i, hi, hpos, howner, (hashInRanges_vnode hi hpos).mp hhit⟩
  · rintro (⟨i, hi, hpos, howner, hnext⟩ | ⟨hi, howner, hhit⟩)
    · exact ⟨i, hi, howner, (hashInRanges_vnode hi hpos).mpr hnext⟩
    · refine ⟨0, hi, howner, ?_⟩
      rwa [prevPosition_zero hi, Option.getD_some]

/-! ## Agreement -/

/-- The highest of several vnodes sits at `u64::MAX`. -/
def StartsOver (self : HashRing) : Prop :=
  maxHash ∈ self.ring ∧ ∃ p ∈ self.ring, p ≠ maxHash

/-- Where the lowest vnode's ranges go wrong for its node.  When the highest of several
vnodes sits at `u64::MAX`, they claim every other point, whoever it belongs to;
otherwise they miss `u64::MAX` itself. -/
def WrapMisses (self : HashRing) (position : UInt64) (nodeId : String) : Prop :=
  self.FirstVnode 0 nodeId ∧
    (self.StartsOver ∧ position ≠ maxHash ∧ ¬ self.FirstVnode position nodeId ∨
      ¬ self.StartsOver ∧ position = maxHash)

theorem exists_vnode {p : UInt64} (hp : p ∈ self.ring) :
    ∃ i, ∃ hi : i < self.ring.toList.length, (self.ring.toList[i]).1 = p := by
  rcases HashMap.mem_iff_exists_getElem?.mp hp with ⟨nodeId, hnodeId⟩
  rcases List.getElem_of_mem (Std.ExtTreeMap.mem_toList_iff_getElem?_eq_some.mpr hnodeId) with
    ⟨i, hi, hvnode⟩
  exact ⟨i, hi, by rw [hvnode]⟩

theorem vnode_mem {i : Nat} (hi : i < self.ring.toList.length) :
    (self.ring.toList[i]).1 ∈ self.ring :=
  HashMap.mem_iff_exists_getElem?.mpr ⟨_, getElem?_vnode hi⟩

theorem firstVnode_zero_iff (hi : 0 < self.ring.toList.length) :
    self.FirstVnode 0 nodeId ↔ (self.ring.toList[0]).2 = nodeId := by
  rw [firstVnode_iff_index]
  constructor
  · rintro ⟨i, hi', howner, _, hbefore⟩
    have hzero : i = 0 := by
      by_contra hne
      have hneg := hbefore (by omega)
      simp at hneg
    subst hzero
    exact howner
  · intro howner
    exact ⟨0, hi, howner, UInt64.zero_le, by omega⟩

/-- Every point lies behind the highest vnode or not. -/
theorem forall_lt_iff (hi : 0 < self.ring.toList.length) :
    (∀ q ∈ self.ring, q < h) ↔ (self.ring.toList[self.ring.toList.length - 1]).1 < h := by
  constructor
  · intro hall
    exact hall _ (vnode_mem (by omega))
  · intro hlast q hq
    rcases exists_vnode hq with ⟨i, hi', rfl⟩
    have hle : (self.ring.toList[i]).1 ≤ (self.ring.toList[self.ring.toList.length - 1]).1 :=
      vnode_le (by omega) (by omega)
    exact UInt64.lt_of_le_of_lt hle hlast

/-- The vnodes behind the lowest one that `position` belongs to, for one node. -/
def LaterVnode (self : HashRing) (position : UInt64) (nodeId : String) : Prop :=
  ∃ i, ∃ hi : i < self.ring.toList.length, 0 < i ∧ (self.ring.toList[i]).2 = nodeId ∧
    position ≤ (self.ring.toList[i]).1 ∧ (0 < i → (self.ring.toList[i - 1]).1 < position)

theorem firstVnode_iff_later (hi : 0 < self.ring.toList.length) :
    self.FirstVnode h nodeId ↔
      self.LaterVnode h nodeId ∨
        (self.ring.toList[0]).2 = nodeId ∧ h ≤ (self.ring.toList[0]).1 := by
  rw [firstVnode_iff_index]
  constructor
  · rintro ⟨i, hi', howner, hle, hbefore⟩
    rcases Nat.eq_zero_or_pos i with rfl | hpos
    · exact .inr ⟨howner, hle⟩
    · exact .inl ⟨i, hi', hpos, howner, hle, hbefore⟩
  · rintro (⟨i, hi', hpos, howner, hle, hbefore⟩ | ⟨howner, hle⟩)
    · exact ⟨i, hi', howner, hle, hbefore⟩
    · exact ⟨0, hi, howner, hle, by omega⟩

/-- A later vnode lies between the lowest and the highest one. -/
theorem LaterVnode.bounds (hlater : self.LaterVnode h nodeId)
    (hi : 0 < self.ring.toList.length) :
    (self.ring.toList[0]).1 < h ∧ h ≤ (self.ring.toList[self.ring.toList.length - 1]).1 := by
  rcases hlater with ⟨i, hi', hpos, _, hle, hbefore⟩
  have hlow : (self.ring.toList[0]).1 ≤ (self.ring.toList[i - 1]).1 :=
    vnode_le (by omega) (by omega)
  have hhigh : (self.ring.toList[i]).1 ≤ (self.ring.toList[self.ring.toList.length - 1]).1 :=
    vnode_le (by omega) (by omega)
  exact ⟨UInt64.lt_of_le_of_lt hlow (hbefore hpos), UInt64.le_trans hle hhigh⟩

theorem le_maxHash (x : UInt64) : x ≤ maxHash := by
  unfold maxHash
  grind

/-- A vnode sits at `u64::MAX` exactly when the highest one does. -/
theorem maxHash_mem_iff (hi : 0 < self.ring.toList.length) :
    maxHash ∈ self.ring ↔ (self.ring.toList[self.ring.toList.length - 1]).1 = maxHash := by
  constructor
  · intro hmem
    rcases exists_vnode hmem with ⟨i, hi', heq⟩
    have hle : (self.ring.toList[i]).1 ≤ (self.ring.toList[self.ring.toList.length - 1]).1 :=
      vnode_le (by omega) (by omega)
    rw [heq] at hle
    exact UInt64.le_antisymm (le_maxHash _) hle
  · intro hlast
    rw [← hlast]
    exact vnode_mem (by omega)

/-- Another vnode sits elsewhere exactly when the lowest one does. -/
theorem exists_ne_maxHash_iff (hi : 0 < self.ring.toList.length) :
    (∃ p ∈ self.ring, p ≠ maxHash) ↔ (self.ring.toList[0]).1 ≠ maxHash := by
  constructor
  · rintro ⟨p, hp, hne⟩ hfirst
    rcases exists_vnode hp with ⟨i, hi', rfl⟩
    have hle : (self.ring.toList[0]).1 ≤ (self.ring.toList[i]).1 := vnode_le hi' (by omega)
    rw [hfirst] at hle
    exact hne (UInt64.le_antisymm (le_maxHash _) hle)
  · intro hne
    exact ⟨_, vnode_mem hi, hne⟩

/-- The ranges and the owner by index, on a ring with vnodes. -/
theorem covers_iff (hi : 0 < self.ring.toList.length) :
    hashInRanges h (self.getOwnedRanges nodeId) = true ↔
      self.LaterVnode h nodeId ∨ (self.ring.toList[0]).2 = nodeId ∧
        hashInRanges h (vnodeRanges (self.ring.toList[self.ring.toList.length - 1]).1
          (self.ring.toList[0]).1) = true := by
  rw [hashInRanges_getOwnedRanges_iff, exists_prop_of_true hi]
  rfl

theorem getOwner_iff_index {key : String} (hi : 0 < self.ring.toList.length) :
    self.getOwner hash key = some nodeId ↔
      self.LaterVnode (hash key) nodeId ∨ (self.ring.toList[0]).2 = nodeId ∧
        (hash key ≤ (self.ring.toList[0]).1 ∨
          (self.ring.toList[self.ring.toList.length - 1]).1 < hash key) := by
  rw [getOwner_eq_some_iff, firstVnode_iff_later hi, forall_lt_iff hi, firstVnode_zero_iff hi]
  tauto

theorem startsOver_iff (hi : 0 < self.ring.toList.length) :
    self.StartsOver ↔
      (self.ring.toList[self.ring.toList.length - 1]).1 = maxHash ∧
        (self.ring.toList[0]).1 ≠ maxHash := by
  rw [StartsOver, maxHash_mem_iff hi, exists_ne_maxHash_iff hi]

/-- Agreement for one point and one node, on a ring with vnodes: a comparison of the
lowest position, the highest position and the point. -/
theorem agrees_iff_of_pos {key : String} (hi : 0 < self.ring.toList.length) :
    (hashInRanges (hash key) (self.getOwnedRanges nodeId) = true ↔
        self.getOwner hash key = some nodeId) ↔ ¬ self.WrapMisses (hash key) nodeId := by
  have hlow : (self.ring.toList[0]).1 ≤ (self.ring.toList[self.ring.toList.length - 1]).1 :=
    vnode_le (by omega) (by omega)
  have hbounds := fun hlater : self.LaterVnode (hash key) nodeId => hlater.bounds hi
  rw [covers_iff hi, getOwner_iff_index hi, WrapMisses, firstVnode_zero_iff hi,
    startsOver_iff hi, firstVnode_iff_later hi, hashInRanges_vnodeRanges_of_le hlow]
  have hhigh := le_maxHash (self.ring.toList[self.ring.toList.length - 1]).1
  have hpoint := le_maxHash (hash key)
  generalize (self.ring.toList[0]).1 = low at *
  generalize (self.ring.toList[self.ring.toList.length - 1]).1 = high at *
  generalize hash key = point at *
  simp only [UInt64.le_iff_toNat_le, UInt64.lt_iff_toNat_lt, ← UInt64.toNat_inj, ne_eq] at *
  by_cases howner : (self.ring.toList[0]).2 = nodeId
  · by_cases hlater : self.LaterVnode point nodeId
    · have hinside := hbounds hlater
      simp only [howner, hlater, true_and, true_or, not_true, and_false, false_or, true_iff]
      omega
    · simp only [howner, hlater, true_and, false_or]
      omega
  · simp [howner]

/-- An empty ring owns nothing. -/
theorem agrees_of_empty {key : String} (hempty : self.ring.toList.length = 0) :
    (hashInRanges (hash key) (self.getOwnedRanges nodeId) = true ↔
        self.getOwner hash key = some nodeId) ↔ ¬ self.WrapMisses (hash key) nodeId := by
  have hnone : ∀ position, ¬ self.FirstVnode position nodeId := by
    intro position hfirst
    rcases firstVnode_iff_index.mp hfirst with ⟨i, hi, _⟩
    omega
  have hranges : ¬ hashInRanges (hash key) (self.getOwnedRanges nodeId) = true := by
    rw [hashInRanges_getOwnedRanges]
    rintro ⟨i, hi, _⟩
    omega
  simp [hranges, getOwner_eq_some_iff, WrapMisses, hnone]

theorem agrees_iff {key : String} :
    (hashInRanges (hash key) (self.getOwnedRanges nodeId) = true ↔
        self.getOwner hash key = some nodeId) ↔ ¬ self.WrapMisses (hash key) nodeId := by
  rcases Nat.eq_zero_or_pos self.ring.toList.length with hempty | hi
  · exact agrees_of_empty hempty
  · exact agrees_iff_of_pos hi

theorem mem_objectsInHashRanges {store : MetadataStore} {object : MetaObject}
    (hobject : object ∈ store.objects.valueList) {ranges : List (UInt64 × UInt64)} :
    (∃ chunks, (object, chunks) ∈ store.objectsInHashRanges hash ranges) ↔
      hashInRanges (hashKey hash object.name) ranges = true := by
  unfold MetadataStore.objectsInHashRanges
  constructor
  · rintro ⟨chunks, hmem⟩
    rcases List.mem_map.mp hmem with ⟨found, hfound, heq⟩
    have hsame : found = object := congrArg Prod.fst heq
    rw [← hsame]
    exact (List.mem_filter.mp hfound).2
  · intro hhit
    exact ⟨_, List.mem_map.mpr ⟨object, List.mem_filter.mpr ⟨hobject, hhit⟩, rfl⟩⟩

/-- The owned ranges and the owner of a key agree for a node exactly where the wrap
around of the lowest vnode is right.  So the migration of a store hands an object to
exactly the node that requests for it are routed to, exactly where no node's ranges
go wrong at its hash. -/
theorem ranges_agree_with_owner_iff (hash : String → UInt64) (self : HashRing) :
    (∀ nodeId key, (hashInRanges (hashKey hash key) (self.getOwnedRanges nodeId) = true ↔
        self.getOwner hash key = some nodeId) ↔
      ¬ self.WrapMisses (hashKey hash key) nodeId) ∧
    (∀ (store : MetadataStore) (object : MetaObject), object ∈ store.objects.valueList →
      ((∀ nodeId, (∃ chunks, (object, chunks) ∈
            store.objectsInHashRanges hash (self.getOwnedRanges nodeId)) ↔
          self.getOwner hash object.name = some nodeId) ↔
        ∀ nodeId, ¬ self.WrapMisses (hashKey hash object.name) nodeId)) := by
  refine ⟨fun nodeId key => agrees_iff, fun store object hobject => ?_⟩
  refine forall_congr' fun nodeId => ?_
  rw [mem_objectsInHashRanges hobject]
  exact agrees_iff

/-- A ring with one vnode at 0, and a key at `u64::MAX`: its owner's ranges miss it.  A
ring with vnodes at 0 and at `u64::MAX`, and a key between them: the ranges of both
nodes contain it. -/
theorem wrap_range_misses :
    (let hash : String → UInt64 := fun s => if s = "k" then maxHash else 0
      let ring := new.addNode hash "a"
      ring.getOwner hash "k" = some "a" ∧
        hashInRanges (hashKey hash "k") (ring.getOwnedRanges "a") = false) ∧
    (let hash : String → UInt64 := fun s =>
        if s = "k" then 5 else if s.toList.head? = some 'b' then maxHash else 0
      let ring := (new.addNode hash "a").addNode hash "b"
      ring.getOwner hash "k" = some "b" ∧
        hashInRanges (hashKey hash "k") (ring.getOwnedRanges "a") = true ∧
        hashInRanges (hashKey hash "k") (ring.getOwnedRanges "b") = true) := by
  have hletterA : ∀ i, (vnodeKey "a" i).toList.head? = some 'a' := head?_vnodeKey rfl
  have hletterB : ∀ i, (vnodeKey "b" i).toList.head? = some 'b' := head?_vnodeKey rfl
  have hkeyA : ∀ i, vnodeKey "a" i ≠ "k" := by
    intro i heq
    have hletter := hletterA i
    rw [heq] at hletter
    exact absurd (Option.some.inj hletter) (by decide)
  have hkeyB : ∀ i, vnodeKey "b" i ≠ "k" := by
    intro i heq
    have hletter := hletterB i
    rw [heq] at hletter
    exact absurd (Option.some.inj hletter) (by decide)
  constructor
  · intro hash ring
    have ha : ∀ i, hash (vnodeKey "a" i) = 0 := fun i => if_neg (hkeyA i)
    have hring : ring = ⟨(∅ : HashMap UInt64 String).insert 0 "a"⟩ := addNode_of_constant ha new
    rw [hring]
    decide +kernel
  · intro hash ring
    have ha : ∀ i, hash (vnodeKey "a" i) = 0 := by
      intro i
      simp only [hash, if_neg (hkeyA i), hletterA i]
      rfl
    have hb : ∀ i, hash (vnodeKey "b" i) = maxHash := by
      intro i
      simp only [hash, if_neg (hkeyB i), hletterB i]
      rfl
    have hring : ring = ⟨((∅ : HashMap UInt64 String).insert 0 "a").insert maxHash "b"⟩ := by
      rw [← addNode_of_constant hb, ← addNode_of_constant ha]
      rfl
    rw [hring]
    decide +kernel

end HashRing
end StorageMetadata
end ObjectStore
