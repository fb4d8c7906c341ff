import ObjectStore.Library.Circle
import ObjectStore.StorageMetadata.Store

/-!
# Storage metadata - The consistent-hash ring

`hash_ring.rs`.  The hash function is a parameter: nothing below depends on which
64-bit function it is.

Main definitions:

- `HashRing`: the vnode positions with their node ids.
- `HashRing.addNode`, `removeNode`, `getOwner`, `getOwnedRanges`, `hashInRanges`,
  `nodes`: one definition per method.

Main results:

- Theorem `getOwner_eq_some_iff`: the owner is the clockwise next vnode's node.
-/

namespace ObjectStore
namespace StorageMetadata

/-- The number of positions of each node. -/
def VNODES_PER_NODE : Nat := 150

/-- The ring, from positions to nodes. -/
structure HashRing where
  ring : HashMap UInt64 String

/-- `u64::MAX`. -/
def maxHash : UInt64 := 0xFFFFFFFFFFFFFFFF

/-- The key whose hash is the `i`-th position of the node. -/
def vnodeKey (nodeId : String) (i : Nat) : String :=
  s!"{nodeId}-vnode-{i}"

namespace HashRing

variable (hash : String → UInt64)

/-- A ring without nodes. -/
def new : HashRing := ⟨∅⟩

/-- `add_node`. -/
def addNode (self : HashRing) (nodeId : String) : HashRing :=
  (List.range VNODES_PER_NODE).foldl
    (fun self i => ⟨self.ring.insert (hash (vnodeKey nodeId i)) nodeId⟩) self

/-- `remove_node`. -/
def removeNode (self : HashRing) (nodeId : String) : HashRing :=
  ⟨self.ring.filter fun _ owner => owner ≠ nodeId⟩

/-- `get_owner`: the node of the first position from the hash of the key on, around the ring. -/
def getOwner (self : HashRing) (key : String) : Option String :=
  if self.ring.isEmpty then none
  else
    match self.ring.toList.find? fun vnode => decide (hash key ≤ vnode.1) with
    | some (_, nodeId) => some nodeId
    | none => self.ring.valueList.head?

/-- `hash_key`. -/
def hashKey (key : String) : UInt64 := hash key

/-- The ranges of one vnode, for the position before it. -/
def vnodeRanges (prevPos pos : UInt64) : List (UInt64 × UInt64) :=
  if prevPos < pos then [(prevPos + 1, pos + 1)]
  else [(prevPos + 1, maxHash), (0, pos + 1)]

/-- `get_owned_ranges`: half-open ranges, one for each position of the node and two where
the ring wraps around. -/
def getOwnedRanges (self : HashRing) (nodeId : String) : List (UInt64 × UInt64) :=
  if self.ring.isEmpty then []
  else
    let positions := self.ring.toList
    positions.zipIdx.flatMap fun ((pos, owner), i) =>
      if owner ≠ nodeId then []
      else
        -- both indices are in range: the list has an `i`-th element
        let prev := if i = 0 then positions[positions.length - 1]? else positions[i - 1]?
        vnodeRanges ((prev.map Prod.fst).getD pos) pos

/-- `hash_in_ranges`. -/
def hashInRanges (hash : UInt64) (ranges : List (UInt64 × UInt64)) : Bool :=
  ranges.any fun (start, stop) =>
    if start ≤ stop then decide (start ≤ hash) && decide (hash < stop)
    else decide (start ≤ hash) || decide (hash < stop)

/-- `nodes`: on a sorted list the repetitions that `dedup` drops are consecutive. -/
def nodes (self : HashRing) : List String :=
  (self.ring.valueList.mergeSort).dedup

end HashRing

/-- `objects_in_hash_ranges`. -/
def MetadataStore.objectsInHashRanges (hash : String → UInt64) (self : MetadataStore)
    (ranges : List (UInt64 × UInt64)) : List (MetaObject × List MetaChunk) :=
  (self.objects.valueList.filter fun object =>
      HashRing.hashInRanges (HashRing.hashKey hash object.name) ranges).map fun object =>
    (object, object.chunks.filterMap fun id => self.chunks[id]?)

namespace HashRing

/-! ## Coinciding vnodes -/

/-- A node whose vnodes all hash to one position has one vnode. -/
theorem addNode_of_constant {hash : String → UInt64} {nodeId : String} {position : UInt64}
    (h : ∀ i, hash (vnodeKey nodeId i) = position) (ring : HashRing) :
    ring.addNode hash nodeId = ⟨ring.ring.insert position nodeId⟩ := by
  have hloop : ∀ n, (List.range (n + 1)).foldl
      (fun self i => (⟨self.ring.insert (hash (vnodeKey nodeId i)) nodeId⟩ : HashRing)) ring =
        ⟨ring.ring.insert position nodeId⟩ := by
    intro n
    induction n with
    | zero => simp [h]
    | succ n ih =>
        rw [List.range_succ, List.foldl_append, ih, List.foldl_cons, List.foldl_nil, h,
          HashMap.insert_of_getElem? Std.ExtTreeMap.getElem?_insert_self]
  exact hloop 149

/-- A vnode key begins with its node id. -/
theorem head?_vnodeKey {nodeId : String} {c : Char} (h : nodeId.toList.head? = some c) (i : Nat) :
    (vnodeKey nodeId i).toList.head? = some c := by
  rw [vnodeKey]
  simp only [String.toList_append, List.head?_append, Option.or_eq_some_iff]
  exact .inl (.inl h)

/-! ## Positions -/

/-- `nodeId` has the first vnode at or after `position`. -/
def FirstVnode (self : HashRing) (position : UInt64) (nodeId : String) : Prop :=
  ∃ p, self.ring[p]? = some nodeId ∧ position ≤ p ∧ ∀ q ∈ self.ring, position ≤ q → p ≤ q

/-- The vnode positions in ascending order. -/
def positions (self : HashRing) : List Nat :=
  self.ring.toList.map fun vnode => vnode.1.toNat

/-- The positions are the keys of the ring. -/
theorem mem_positions {self : HashRing} {p : UInt64} :
    p.toNat ∈ self.positions ↔ p ∈ self.ring := by
  rw [HashMap.mem_iff_exists_getElem?]
  constructor
  · intro hp
    rcases List.mem_map.mp hp with ⟨⟨q, nodeId⟩, hq, heq⟩
    have hqp : q = p := UInt64.toNat_inj.mp heq
    subst hqp
    exact ⟨nodeId, Std.ExtTreeMap.mem_toList_iff_getElem?_eq_some.mp hq⟩
  · rintro ⟨nodeId, hp⟩
    exact List.mem_map.mpr ⟨(p, nodeId), Std.ExtTreeMap.mem_toList_iff_getElem?_eq_some.mpr hp, rfl⟩

/-- They are in increasing order. -/
theorem positions_sorted (self : HashRing) : self.positions.Pairwise (· < ·) := by
  rw [positions, List.pairwise_map]
  refine Std.ExtTreeMap.ordered_keys_toList.imp fun {vnode vnode'} h => ?_
  exact UInt64.lt_iff_toNat_lt.mp (Std.compare_eq_lt.mp h)

@[simp]
theorem length_positions (self : HashRing) : self.positions.length = self.ring.toList.length := by
  simp [positions]

theorem getElem_positions {self : HashRing} {i : Nat} (hi : i < self.positions.length)
    (hvnode : i < self.ring.toList.length) :
    self.positions[i] = (self.ring.toList[i]).1.toNat := by
  simp [positions]

/-- The node of a vnode is the one stored at its position. -/
theorem getElem?_vnode {self : HashRing} {i : Nat} (hi : i < self.ring.toList.length) :
    self.ring[(self.ring.toList[i]).1]? = some (self.ring.toList[i]).2 :=
  Std.ExtTreeMap.mem_toList_iff_getElem?_eq_some.mp (List.getElem_mem hi)

/-- The first vnode, in terms of the positions on the circle. -/
theorem isNext_iff {self : HashRing} {position p : UInt64} :
    Library.IsNext self.positions position.toNat p.toNat ↔
      p ∈ self.ring ∧ position ≤ p ∧ ∀ q ∈ self.ring, position ≤ q → p ≤ q := by
  constructor
  · rintro ⟨⟨hp, hle⟩, hleast⟩
    refine ⟨mem_positions.mp hp, UInt64.le_iff_toNat_le.mpr hle, fun q hq hposition => ?_⟩
    have hmem : q.toNat ∈ {q | q ∈ self.positions ∧ position.toNat ≤ q} :=
      ⟨mem_positions.mpr hq, UInt64.le_iff_toNat_le.mp hposition⟩
    exact UInt64.le_iff_toNat_le.mpr (hleast hmem)
  · rintro ⟨hp, hle, hleast⟩
    refine ⟨⟨mem_positions.mpr hp, UInt64.le_iff_toNat_le.mp hle⟩, ?_⟩
    rintro q ⟨hq, hposition⟩
    rcases List.mem_map.mp hq with ⟨⟨vnode, nodeId⟩, hvnode, rfl⟩
    have hmem : vnode ∈ self.ring := mem_positions.mp hq
    exact UInt64.le_iff_toNat_le.mp (hleast vnode hmem (UInt64.le_iff_toNat_le.mpr hposition))

/-- The first position from a hash on is the next one around the circle. -/
theorem firstVnode_iff {self : HashRing} {position : UInt64} {nodeId : String} :
    self.FirstVnode position nodeId ↔
      ∃ p : UInt64, self.ring[p]? = some nodeId ∧
        Library.IsNext self.positions position.toNat p.toNat := by
  unfold FirstVnode
  refine exists_congr fun p => and_congr_right fun hp => ?_
  have hmem : p ∈ self.ring := HashMap.mem_iff_exists_getElem?.mpr ⟨nodeId, hp⟩
  rw [isNext_iff]
  simp [hmem]

/-- The points between the vnode before the `i`-th one and the `i`-th one. -/
theorem isNext_vnode_iff {self : HashRing} {position : UInt64} {i : Nat}
    (hi : i < self.ring.toList.length) :
    Library.IsNext self.positions position.toNat (self.ring.toList[i]).1.toNat ↔
      position ≤ (self.ring.toList[i]).1 ∧
        (0 < i →
          (self.ring.toList.get ⟨i - 1, Nat.lt_of_le_of_lt (Nat.sub_le i 1) hi⟩).1 < position) := by
  have hi' : i < self.positions.length := by simpa using hi
  have hiff := Library.isNext_getElem_iff self.positions_sorted (x := position.toNat) hi'
  rw [getElem_positions hi' hi, getElem_positions (by omega) (by omega)] at hiff
  rw [hiff, UInt64.le_iff_toNat_le, UInt64.lt_iff_toNat_lt]
  exact Iff.rfl

/-- The first vnode by its index. -/
theorem firstVnode_iff_index {self : HashRing} {position : UInt64} {nodeId : String} :
    self.FirstVnode position nodeId ↔
      ∃ i, ∃ hi : i < self.ring.toList.length, (self.ring.toList[i]).2 = nodeId ∧
        position ≤ (self.ring.toList[i]).1 ∧
          (0 < i →
            (self.ring.toList.get ⟨i - 1, Nat.lt_of_le_of_lt (Nat.sub_le i 1) hi⟩).1 <
              position) := by
  rw [firstVnode_iff]
  constructor
  · rintro ⟨p, hp, hnext⟩
    have hmem : (p, nodeId) ∈ self.ring.toList :=
      Std.ExtTreeMap.mem_toList_iff_getElem?_eq_some.mpr hp
    rcases List.getElem_of_mem hmem with ⟨i, hi, hvnode⟩
    have hpos : (self.ring.toList[i]).1 = p := by rw [hvnode]
    rw [← hpos] at hnext
    exact ⟨i, hi, by rw [hvnode], (isNext_vnode_iff hi).mp hnext⟩
  · rintro ⟨i, hi, howner, hnext⟩
    refine ⟨_, ?_, (isNext_vnode_iff hi).mpr hnext⟩
    rw [getElem?_vnode hi, howner]

/-- There is one such position. -/
theorem FirstVnode.unique {self : HashRing} {position : UInt64} {nodeId nodeId' : String}
    (h : self.FirstVnode position nodeId) (h' : self.FirstVnode position nodeId') :
    nodeId = nodeId' := by
  rcases firstVnode_iff.mp h with ⟨p, hp, hnext⟩
  rcases firstVnode_iff.mp h' with ⟨p', hp', hnext'⟩
  have heq : p = p' := UInt64.toNat_inj.mp (hnext.unique hnext')
  subst heq
  exact Option.some.inj (hp.symm.trans hp')

/-! ## Lookup -/

variable {hash}

/-- The search finds the next position that is not below the hash. -/
theorem find?_vnode_eq_some_iff {self : HashRing} {position : UInt64} {vnode : UInt64 × String} :
    (self.ring.toList.find? fun v => decide (position ≤ v.1)) = some vnode ↔
      vnode ∈ self.ring.toList ∧
        Library.IsNext self.positions position.toNat vnode.1.toNat := by
  have hscan := Library.find?_eq_some_iff_isNext self.positions_sorted
    (x := position.toNat) (p := vnode.1.toNat)
  rw [← hscan, positions, List.find?_map]
  simp only [Function.comp_def, Option.map_eq_some_iff, UInt64.le_iff_toNat_le]
  constructor
  · intro h
    exact ⟨List.mem_of_find?_eq_some h, vnode, h, rfl⟩
  · rintro ⟨hmem, found, hfound, heq⟩
    have hpos : found.1 = vnode.1 := UInt64.toNat_inj.mp heq
    have hfoundMem := List.mem_of_find?_eq_some hfound
    have hsame : found = vnode := by
      rcases found with ⟨p, nodeId⟩
      rcases vnode with ⟨p', nodeId'⟩
      subst hpos
      have h₁ := Std.ExtTreeMap.mem_toList_iff_getElem?_eq_some.mp hfoundMem
      have h₂ := Std.ExtTreeMap.mem_toList_iff_getElem?_eq_some.mp hmem
      rw [Option.some.inj (h₁.symm.trans h₂)]
    rw [hfound, hsame]

/-- It finds none when all positions are below. -/
theorem find?_vnode_eq_none_iff {self : HashRing} {position : UInt64} :
    (self.ring.toList.find? fun v => decide (position ≤ v.1)) = none ↔
      ∀ q ∈ self.ring, q < position := by
  rw [List.find?_eq_none]
  constructor
  · intro h q hq
    rcases HashMap.mem_iff_exists_getElem?.mp hq with ⟨nodeId, hnodeId⟩
    have hmem := Std.ExtTreeMap.mem_toList_iff_getElem?_eq_some.mpr hnodeId
    simpa using h (q, nodeId) hmem
  · rintro h ⟨q, nodeId⟩ hmem
    have hq : q ∈ self.ring := HashMap.mem_iff_exists_getElem?.mpr
      ⟨nodeId, Std.ExtTreeMap.mem_toList_iff_getElem?_eq_some.mp hmem⟩
    simpa using h q hq

theorem head?_valueList_eq_some_iff {self : HashRing} {nodeId : String} :
    self.ring.valueList.head? = some nodeId ↔ self.FirstVnode 0 nodeId := by
  rw [firstVnode_iff_index, HashMap.valueList, List.head?_map, List.head?_eq_getElem?,
    Option.map_eq_some_iff]
  constructor
  · rintro ⟨vnode, hvnode, howner⟩
    rcases List.getElem?_eq_some_iff.mp hvnode with ⟨hlength, hget⟩
    exact ⟨0, hlength, by rw [hget, howner], UInt64.zero_le, by omega⟩
  · rintro ⟨i, hi, howner, _, hbefore⟩
    have hzero : i = 0 := by
      by_contra hne
      have hneg := hbefore (by omega)
      simp at hneg
    subst hzero
    exact ⟨_, List.getElem?_eq_getElem hi, howner⟩

/-- The owner of a key is the node of the first vnode clockwise from its hash. -/
theorem getOwner_eq_some_iff {self : HashRing} {key nodeId : String} :
    self.getOwner hash key = some nodeId ↔
      self.FirstVnode (hash key) nodeId ∨
        (∀ q ∈ self.ring, q < hash key) ∧ self.FirstVnode 0 nodeId := by
  have hfirst : ∀ {vnode}, (self.ring.toList.find? fun v => decide (hash key ≤ v.1)) =
      some vnode → self.FirstVnode (hash key) vnode.2 := by
    intro vnode hfound
    rcases find?_vnode_eq_some_iff.mp hfound with ⟨hmem, hnext⟩
    exact firstVnode_iff.mpr
      ⟨vnode.1, Std.ExtTreeMap.mem_toList_iff_getElem?_eq_some.mp hmem, hnext⟩
  have hafter : ∀ {owner}, self.FirstVnode (hash key) owner →
      ¬ ∀ q ∈ self.ring, q < hash key := by
    rintro owner ⟨p, hp, hle, _⟩ hbefore
    exact UInt64.not_le.mpr (hbefore p (HashMap.mem_iff_exists_getElem?.mpr ⟨_, hp⟩)) hle
  unfold getOwner
  split
  · rename_i hempty
    have hnone : ∀ p : UInt64, self.ring[p]? = none := by
      intro p
      rw [Std.ExtTreeMap.isEmpty_iff.mp hempty]
      simp
    simp [FirstVnode, hnone]
  · split
    · rename_i p owner hfound
      constructor
      · intro h
        rw [← Option.some.inj h]
        exact .inl (hfirst hfound)
      · rintro (h | ⟨hbefore, _⟩)
        · rw [h.unique (hfirst hfound)]
        · exact absurd hbefore (hafter (hfirst hfound))
    · rename_i hnone
      have hbefore := find?_vnode_eq_none_iff.mp hnone
      rw [head?_valueList_eq_some_iff]
      constructor
      · intro h
        exact .inr ⟨hbefore, h⟩
      · rintro (h | ⟨_, h⟩)
        · exact absurd hbefore (hafter h)
        · exact h

end HashRing

end StorageMetadata
end ObjectStore
