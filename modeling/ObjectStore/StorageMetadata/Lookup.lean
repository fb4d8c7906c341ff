import ObjectStore.StorageMetadata.Run

/-!
# Storage metadata - What an object lookup returns

The client-facing `get_object` resolves every recorded replica of every listed
chunk and fails on the first that is not registered.  The forwarded one leaves
unregistered replicas out, and so does the listing.

Main results:

- Theorem `forwardChunks_eq`: the forwarded lookup, in one equation.
- Theorem `resolveChunks_eq`: the client-facing lookup agrees with it when every
  recorded replica is registered.
- Theorem `resolveChunks_ok`: and fails otherwise.
-/

namespace ObjectStore
namespace StorageMetadata

variable {s : MetadataStore}

/-- Every listed chunk has a record. -/
def Recorded (s : MetadataStore) (ids : List UInt64) : Prop :=
  ∀ id ∈ ids, ∃ chunk, s.chunks[id]? = some chunk

/-- Every listed chunk has a record, and every replica it records is registered. -/
def Resolvable (s : MetadataStore) (ids : List UInt64) : Prop :=
  ∀ id ∈ ids, ∃ chunk, s.chunks[id]? = some chunk ∧
    ∀ nodeId ∈ chunk.storageNodes, nodeId ∈ s.storageNodes

/-- Every record is stored under its own id or name. -/
structure Keyed (g : Maps) : Prop where
  chunk : ∀ {id : UInt64} {chunk : MetaChunk}, g.chunks[id]? = some chunk → chunk.id = id
  object : ∀ {name : String} {object : MetaObject},
    g.objects[name]? = some object → object.name = name

/-- A chunk as the responses describe it. -/
def MetadataStore.describe (s : MetadataStore) (chunk : MetaChunk) : Proto.MetaChunk :=
  ⟨chunk.id, chunk.checksum, s.registeredStorageNodes chunk.storageNodes⟩

/-- Chunks that can be resolved have records. -/
theorem Resolvable.recorded {ids : List UInt64} (h : Resolvable s ids) : Recorded s ids := by
  intro id hid
  obtain ⟨chunk, hchunk, _⟩ := h id hid
  exact ⟨chunk, hchunk⟩

theorem Recorded.tail {id : UInt64} {ids : List UInt64} (h : Recorded s (id :: ids)) :
    Recorded s ids :=
  fun other hother => h other (List.mem_cons_of_mem id hother)

theorem Resolvable.tail {id : UInt64} {ids : List UInt64} (h : Resolvable s (id :: ids)) :
    Resolvable s ids :=
  fun other hother => h other (List.mem_cons_of_mem id hother)

/-! ## Replicas -/

/-- The registered ones among the recorded nodes. -/
theorem mem_registeredStorageNodes {nodeIds : List UInt64} {node : Proto.MetaStorageNode} :
    node ∈ s.registeredStorageNodes nodeIds ↔
      node.id ∈ nodeIds ∧ ∃ registered, s.storageNodes[node.id]? = some registered ∧
        node.address = registered.address := by
  simp only [MetadataStore.registeredStorageNodes, List.mem_filterMap, Option.map_eq_some_iff]
  constructor
  · rintro ⟨nodeId, hmem, registered, hregistered, rfl⟩
    exact ⟨hmem, registered, hregistered, rfl⟩
  · rintro ⟨hmem, registered, hregistered, haddress⟩
    refine ⟨node.id, hmem, registered, hregistered, ?_⟩
    rw [← haddress]

/-- The client-facing resolution succeeds exactly when all nodes are registered. -/
theorem resolveStorageNodes_eq {nodeIds : List UInt64}
    (h : ∀ nodeId ∈ nodeIds, nodeId ∈ s.storageNodes) :
    s.resolveStorageNodes nodeIds = .ok (s.registeredStorageNodes nodeIds) := by
  induction nodeIds with
  | nil => rfl
  | cons nodeId nodeIds ih =>
      obtain ⟨node, hnode⟩ := HashMap.mem_iff_exists_getElem?.mp (h nodeId (by simp))
      have hrest := ih fun other hother => h other (by simp [hother])
      simp [MetadataStore.resolveStorageNodes, MetadataStore.registeredStorageNodes,
        hnode] at hrest ⊢
      simp [hrest]

/-- One unregistered node is enough to fail. -/
theorem resolveStorageNodes_error {nodeIds : List UInt64} {nodeId : UInt64}
    (hmem : nodeId ∈ nodeIds) (habsent : nodeId ∉ s.storageNodes) :
    ∃ found ∈ nodeIds, found ∉ s.storageNodes ∧ s.resolveStorageNodes nodeIds =
      .error ⟨.internal, s!"storage node {found} referenced by chunk but not found"⟩ := by
  induction nodeIds with
  | nil => simp at hmem
  | cons first nodeIds ih =>
      cases hfirst : s.storageNodes[first]? with
      | none =>
          refine ⟨first, by simp, by simpa using hfirst, ?_⟩
          simp only [MetadataStore.resolveStorageNodes, hfirst]
      | some node =>
          have hne : nodeId ≠ first := by
            rintro rfl
            simp [habsent] at hfirst
          obtain ⟨found, hfound, hnone, herror⟩ := ih (by simpa [hne] using hmem)
          refine ⟨found, by simp [hfound], hnone, ?_⟩
          simp only [MetadataStore.resolveStorageNodes, hfirst, herror]

/-! ## Chunks -/

/-- The forwarded lookup succeeds on every list of recorded chunks. -/
theorem forwardChunks_eq {ids : List UInt64} (h : Recorded s ids) :
    s.forwardChunks ids = .ok (ids.filterMap fun id => (s.chunks[id]?).map s.describe) := by
  induction ids with
  | nil => rfl
  | cons id ids ih =>
      obtain ⟨chunk, hchunk⟩ := h id (by simp)
      simp [MetadataStore.forwardChunks, hchunk, ih h.tail, MetadataStore.describe]

/-- On resolvable lists the two lookups agree. -/
theorem resolveChunks_eq {ids : List UInt64} (h : Resolvable s ids) :
    s.resolveChunks ids = .ok (ids.filterMap fun id => (s.chunks[id]?).map s.describe) := by
  induction ids with
  | nil => rfl
  | cons id ids ih =>
      obtain ⟨chunk, hchunk, hnodes⟩ := h id (by simp)
      simp [MetadataStore.resolveChunks, hchunk, resolveStorageNodes_eq hnodes, ih h.tail,
        MetadataStore.describe]

/-- The client-facing lookup of recorded chunks fails on an unregistered replica, and
on nothing else. -/
theorem resolveChunks_error {ids : List UInt64} (hids : Recorded s ids)
    (h : ¬ Resolvable s ids) :
    ∃ id ∈ ids, ∃ chunk, s.chunks[id]? = some chunk ∧ ∃ nodeId ∈ chunk.storageNodes,
      nodeId ∉ s.storageNodes ∧ s.resolveChunks ids =
        .error ⟨.internal, s!"storage node {nodeId} referenced by chunk but not found"⟩ := by
  induction ids with
  | nil => exact absurd (by simp [Resolvable]) h
  | cons id ids ih =>
      obtain ⟨chunk, hchunk⟩ := hids id (by simp)
      by_cases hnodes : ∀ nodeId ∈ chunk.storageNodes, nodeId ∈ s.storageNodes
      · have htail : ¬ Resolvable s ids := by
          intro hrest
          refine h fun other hother => ?_
          rcases List.mem_cons.mp hother with rfl | hother
          · exact ⟨chunk, hchunk, hnodes⟩
          · exact hrest other hother
        obtain ⟨found, hfound, record, hrecord, nodeId, hmem, hnone, herror⟩ := ih hids.tail htail
        refine ⟨found, by simp [hfound], record, hrecord, nodeId, hmem, hnone, ?_⟩
        simp only [MetadataStore.resolveChunks, hchunk, resolveStorageNodes_eq hnodes, herror]
      · push Not at hnodes
        obtain ⟨nodeId, hmem, hnone⟩ := hnodes
        obtain ⟨found, hfound, habsent, herror⟩ := resolveStorageNodes_error hmem hnone
        refine ⟨id, by simp, chunk, hchunk, found, hfound, habsent, ?_⟩
        simp only [MetadataStore.resolveChunks, hchunk, herror]

/-- No recorded node is unregistered after a success. -/
theorem registered_of_resolveStorageNodes {nodeIds : List UInt64}
    {nodes : List Proto.MetaStorageNode} (h : s.resolveStorageNodes nodeIds = .ok nodes) :
    ∀ nodeId ∈ nodeIds, nodeId ∈ s.storageNodes := by
  intro nodeId hmem
  by_contra habsent
  obtain ⟨_, _, _, herror⟩ := resolveStorageNodes_error hmem habsent
  rw [herror] at h
  cases h

/-- Chunks that have been resolved can be resolved. -/
theorem resolvable_of_resolveChunks {ids : List UInt64} {chunks : List Proto.MetaChunk}
    (h : s.resolveChunks ids = .ok chunks) : Resolvable s ids := by
  induction ids generalizing chunks with
  | nil => simp [Resolvable]
  | cons id ids ih =>
      unfold MetadataStore.resolveChunks at h
      split at h
      · cases h
      · rename_i chunk hchunk
        split at h
        · cases h
        · rename_i nodes hnodes
          split at h
          · cases h
          · rename_i rest hrest
            intro other hother
            rcases List.mem_cons.mp hother with rfl | hother
            · exact ⟨chunk, hchunk, registered_of_resolveStorageNodes hnodes⟩
            · exact ih hrest other hother

/-! ## Objects -/

/-- The response to a lookup of `object`. -/
def MetadataStore.response (s : MetadataStore) (object : MetaObject) :
    Proto.GetObjectResponse :=
  ⟨object.checksum, object.chunks.filterMap fun id => (s.chunks[id]?).map s.describe⟩

/-- The second half of the client-facing lookup. -/
theorem resolveObject_eq_ok_iff {object : MetaObject} {response : Proto.GetObjectResponse} :
    s.resolveObject object = .ok response ↔
      Resolvable s object.chunks ∧ response = s.response object := by
  unfold MetadataStore.resolveObject
  constructor
  · intro h
    split at h
    · cases h
    · rename_i chunks hchunks
      have hresolvable := resolvable_of_resolveChunks hchunks
      rw [resolveChunks_eq hresolvable] at hchunks
      cases hchunks
      cases h
      exact ⟨hresolvable, rfl⟩
  · rintro ⟨hresolvable, rfl⟩
    rw [resolveChunks_eq hresolvable]
    rfl

/-- What is stored is found. -/
theorem lookupObject_eq {name : String} {object : MetaObject}
    (hname : s.objects[name]? = some object) : s.lookupObject name = .ok object := by
  simp only [MetadataStore.lookupObject, MetadataStore.getObject, hname]

/-- The client-facing lookup of a stored object, in one equivalence. -/
theorem getObject_eq_ok_iff {index : HashMap UInt64 String} {name : String}
    {object : MetaObject} (hname : s.objects[name]? = some object)
    {response : Proto.GetObjectResponse} :
    (⟨s, index⟩ : StorageMetadataImpl).getObject name = .ok response ↔
      Resolvable s object.chunks ∧ response = s.response object := by
  simp only [StorageMetadataImpl.getObject, lookupObject_eq hname]
  exact resolveObject_eq_ok_iff

/-- Only stored objects are found. -/
theorem stored_of_getObject {index : HashMap UInt64 String} {name : String}
    {response : Proto.GetObjectResponse}
    (h : (⟨s, index⟩ : StorageMetadataImpl).getObject name = .ok response) :
    ∃ object, s.objects[name]? = some object := by
  cases hname : s.objects[name]? with
  | none => simp [StorageMetadataImpl.getObject, MetadataStore.lookupObject,
      MetadataStore.getObject, hname] at h
  | some object => exact ⟨object, rfl⟩

/-- The forwarded lookup of a stored object whose chunks have records. -/
theorem forwardGetObject_eq {name : String} {object : MetaObject}
    (hname : s.objects[name]? = some object) (hrecorded : Recorded s object.chunks) :
    s.forwardGetObject name = .ok (s.response object) := by
  simp only [MetadataStore.forwardGetObject, MetadataStore.lookupObject,
    MetadataStore.getObject, hname, forwardChunks_eq hrecorded]
  rfl

/-- The response lists the chunks in the order of the object's bytes. -/
theorem map_id_response (hkeyed : Keyed s.maps) {object : MetaObject}
    (hrecorded : Recorded s object.chunks) :
    (s.response object).chunks.map (·.id) = object.chunks := by
  have hall : ∀ ids : List UInt64, Recorded s ids →
      (ids.filterMap fun id => (s.chunks[id]?).map s.describe).map (·.id) = ids := by
    intro ids hids
    induction ids with
    | nil => rfl
    | cons id ids ih =>
        obtain ⟨chunk, hchunk⟩ := hids id (by simp)
        simp [hchunk, MetadataStore.describe, hkeyed.chunk hchunk, ih hids.tail]
  exact hall object.chunks hrecorded

end StorageMetadata
end ObjectStore
