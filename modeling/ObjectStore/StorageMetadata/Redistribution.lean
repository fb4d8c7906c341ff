import ObjectStore.StorageMetadata.Membership

/-!
# Storage metadata - Which keys move

A change of the ring adds or removes vnodes of one node.  A key belongs to the vnode that
it meets first going clockwise, so it moves only when that vnode is a new one or goes away.

Main results:

- Theorem `getOwner_eq_some_iff_clockwise`: the owner of a key, wrap-around included.
- Theorem `getOwner_of_subset`: a key whose vnode stays keeps its owner.
- Theorem `redistribution_minimal`: which keys `add_node` and `remove_node` move.
-/

namespace ObjectStore
namespace StorageMetadata
namespace HashRing

variable {hash : String → UInt64} {self ring ring' : HashRing} {key nodeId : String}

/-! ## The owner on the circle -/

/-- The positions of the vnodes. -/
def positionSet (self : HashRing) : Set UInt64 :=
  {p | p ∈ self.ring}

theorem firstVnode_iff_isLeast {position : UInt64} :
    self.FirstVnode position nodeId ↔ ∃ p : UInt64, self.ring[p]? = some nodeId ∧
      IsLeast {q | q ∈ self.positionSet ∧ position ≤ q} p := by
  unfold FirstVnode
  refine exists_congr fun p => and_congr_right fun hp => ?_
  have hmem : p ∈ self.ring := HashMap.mem_iff_exists_getElem?.mpr ⟨nodeId, hp⟩
  constructor
  · rintro ⟨hle, hleast⟩
    constructor
    · exact ⟨hmem, hle⟩
    · rintro q ⟨hq, hposition⟩
      exact hleast q hq hposition
  · rintro ⟨⟨_, hle⟩, hleast⟩
    exact ⟨hle, fun q hq hposition => hleast ⟨hq, hposition⟩⟩

/-- A key belongs to the node of the vnode that it meets first. -/
theorem getOwner_eq_some_iff_clockwise :
    self.getOwner hash key = some nodeId ↔ ∃ p : UInt64, self.ring[p]? = some nodeId ∧
      Library.IsClockwise self.positionSet (hash key) p := by
  have hzero : {q | q ∈ self.positionSet ∧ 0 ≤ q} = self.positionSet := by
    ext q
    simp
  rw [getOwner_eq_some_iff, firstVnode_iff_isLeast, firstVnode_iff_isLeast, hzero]
  constructor
  · rintro (⟨p, hp, hleast⟩ | ⟨hbefore, p, hp, hleast⟩)
    · exact ⟨p, hp, .inl hleast⟩
    · exact ⟨p, hp, .inr ⟨hbefore, hleast⟩⟩
  · rintro ⟨p, hp, hleast | ⟨hbefore, hleast⟩⟩
    · exact .inl ⟨p, hp, hleast⟩
    · exact .inr ⟨hbefore, p, hp, hleast⟩

/-- The vnode of a key on the larger ring is its vnode on the smaller one, if it is there. -/
theorem getOwner_of_subset (hsub : ring.positionSet ⊆ ring'.positionSet) {p : UInt64}
    (hclockwise : Library.IsClockwise ring'.positionSet (hash key) p)
    (hp : ring.ring[p]? = some nodeId) : ring.getOwner hash key = some nodeId := by
  have hmem : p ∈ ring.positionSet := HashMap.mem_iff_exists_getElem?.mpr ⟨nodeId, hp⟩
  exact getOwner_eq_some_iff_clockwise.mpr ⟨p, hp, hclockwise.of_subset hsub hmem⟩

/-! ## Owners -/

/-- An owner has a vnode. -/
theorem mem_nodes_of_getOwner {owner key : String} (h : ring.getOwner hash key = some owner) :
    ∃ position : UInt64, ring.ring[position]? = some owner := by
  rcases getOwner_eq_some_iff.mp h with ⟨p, hp, _⟩ | ⟨_, p, hp, _⟩
  · exact ⟨p, hp⟩
  · exact ⟨p, hp⟩

/-- Every key has an owner on a ring with a vnode. -/
theorem exists_getOwner (hash : String → UInt64) {position : UInt64} (h : position ∈ ring.ring)
    (key : String) :
    ∃ owner, ring.getOwner hash key = some owner := by
  rcases HashMap.mem_iff_exists_getElem?.mp h with ⟨nodeId, hnodeId⟩
  have hmem := Std.ExtTreeMap.mem_toList_iff_getElem?_eq_some.mpr hnodeId
  cases howner : ring.getOwner hash key with
  | some owner => exact ⟨owner, rfl⟩
  | none =>
      unfold getOwner at howner
      split at howner
      · rename_i hempty
        rw [Std.ExtTreeMap.isEmpty_iff.mp hempty] at hnodeId
        simp at hnodeId
      · split at howner
        · cases howner
        · rw [List.head?_eq_none_iff, HashMap.valueList, List.map_eq_nil_iff] at howner
          rw [howner] at hmem
          cases hmem

theorem exists_mem_addNode (hash : String → UInt64) (ring : HashRing) (nodeId : String) :
    ∃ position : UInt64, position ∈ (ring.addNode hash nodeId).ring := by
  rcases @getElem?_addNode_loop hash ring nodeId VNODES_PER_NODE (hash (vnodeKey nodeId 0)) with
    ⟨hfound, _⟩ | ⟨_, hnone⟩
  · exact ⟨_, HashMap.mem_iff_exists_getElem?.mpr ⟨nodeId, hfound⟩⟩
  · exact absurd ⟨0, by decide, rfl⟩ hnone

/-! ## Adding a node -/

theorem getElem?_addNode (hash : String → UInt64) (ring : HashRing) (nodeId : String)
    (position : UInt64) :
    (ring.addNode hash nodeId).ring[position]? = some nodeId ∨
      (ring.addNode hash nodeId).ring[position]? = ring.ring[position]? := by
  rcases @getElem?_addNode_loop hash ring nodeId VNODES_PER_NODE position with
    ⟨hfound, _⟩ | ⟨hfound, _⟩
  · exact .inl hfound
  · exact .inr hfound

theorem mem_addNode {position : UInt64} (h : position ∈ ring.ring) :
    position ∈ (ring.addNode hash nodeId).ring := by
  rcases HashMap.mem_iff_exists_getElem?.mp h with ⟨owner, howner⟩
  rcases getElem?_addNode hash ring nodeId position with hfound | hfound
  · exact HashMap.mem_iff_exists_getElem?.mpr ⟨nodeId, hfound⟩
  · exact HashMap.mem_iff_exists_getElem?.mpr ⟨owner, hfound.trans howner⟩

/-- After a node has joined, the owner of a key is that node or the one it was before. -/
theorem getOwner_addNode {owner : String}
    (h : (ring.addNode hash nodeId).getOwner hash key = some owner) :
    owner = nodeId ∨ ring.getOwner hash key = some owner := by
  rcases getOwner_eq_some_iff_clockwise.mp h with ⟨p, hp, hclockwise⟩
  rcases getElem?_addNode hash ring nodeId p with hfound | hfound
  · exact .inl (Option.some.inj (hp.symm.trans hfound))
  · have hsub : ring.positionSet ⊆ (ring.addNode hash nodeId).positionSet :=
      fun q hq => mem_addNode hq
    exact .inr (getOwner_of_subset hsub hclockwise (hfound.symm.trans hp))

/-! ## Removing a node -/

theorem getElem?_removeNode {position : UInt64} {owner : String} :
    (ring.removeNode nodeId).ring[position]? = some owner ↔
      ring.ring[position]? = some owner ∧ owner ≠ nodeId := by
  simp [removeNode, Option.filter_eq_some_iff]

theorem positionSet_removeNode_subset :
    (ring.removeNode nodeId).positionSet ⊆ ring.positionSet := by
  intro p hp
  rcases HashMap.mem_iff_exists_getElem?.mp hp with ⟨owner, howner⟩
  exact HashMap.mem_iff_exists_getElem?.mpr ⟨owner, (getElem?_removeNode.mp howner).1⟩

/-- A removed node owns nothing. -/
theorem getOwner_removeNode_ne (hash : String → UInt64) (ring : HashRing) (nodeId key : String) :
    (ring.removeNode nodeId).getOwner hash key ≠ some nodeId := by
  intro h
  rcases mem_nodes_of_getOwner h with ⟨p, hp⟩
  exact (getElem?_removeNode.mp hp).2 rfl

/-- A key of another node stays where it is. -/
theorem getOwner_removeNode (h : ring.getOwner hash key ≠ some nodeId) :
    (ring.removeNode nodeId).getOwner hash key = ring.getOwner hash key := by
  cases howner : ring.getOwner hash key with
  | some owner =>
      have hne : owner ≠ nodeId := fun heq => h (heq ▸ howner)
      rcases getOwner_eq_some_iff_clockwise.mp howner with ⟨p, hp, hclockwise⟩
      exact getOwner_of_subset positionSet_removeNode_subset hclockwise
        (getElem?_removeNode.mpr ⟨hp, hne⟩)
  | none =>
      -- a ring that still has a vnode had one before
      cases hleft : (ring.removeNode nodeId).getOwner hash key with
      | none => rfl
      | some owner =>
          exfalso
          rcases mem_nodes_of_getOwner hleft with ⟨p, hp⟩
          have hmem : p ∈ ring.ring :=
            HashMap.mem_iff_exists_getElem?.mpr ⟨owner, (getElem?_removeNode.mp hp).1⟩
          rcases exists_getOwner hash hmem key with ⟨before, hbefore⟩
          cases howner.symm.trans hbefore

/-- Consistent hashing moves only what it must.  A node that joins takes keys over and moves
no other; a node that leaves owns nothing any more, and the keys of the others stay. -/
theorem redistribution_minimal (hash : String → UInt64) (ring : HashRing) (nodeId key : String) :
    ((ring.addNode hash nodeId).getOwner hash key = some nodeId ∨
        (ring.addNode hash nodeId).getOwner hash key = ring.getOwner hash key) ∧
      (ring.getOwner hash key ≠ some nodeId →
        (ring.removeNode nodeId).getOwner hash key = ring.getOwner hash key) ∧
      (ring.removeNode nodeId).getOwner hash key ≠ some nodeId := by
  constructor
  · rcases exists_mem_addNode hash ring nodeId with ⟨position, hposition⟩
    rcases exists_getOwner hash hposition key with ⟨owner, howner⟩
    rcases getOwner_addNode howner with heq | hbefore
    · subst heq
      exact .inl howner
    · exact .inr (howner.trans hbefore.symm)
  · constructor
    · exact getOwner_removeNode
    · exact getOwner_removeNode_ne hash ring nodeId key

end HashRing
end StorageMetadata
end ObjectStore
