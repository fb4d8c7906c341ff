import ObjectStore.StorageMetadata.Cluster
import ObjectStore.StorageMetadata.Handler

/-!
# Storage metadata - The effect of a request

A request changes the record of the object it is for and saves, or it is refused and
leaves at most an unlisted chunk record behind.

Main results:

- Theorem `serve_effect`: what one request does, in one inversion.
- Theorem `Mutation.view`: the other objects do not notice.
- Theorems `view_of_created`, `view_of_deleted`: what creations and deletions leave.
-/

namespace ObjectStore
namespace StorageMetadata

variable {lib : External} {io : SaveIo}

/-! ## Mutations -/

/-- The changes of the record of `name` that requests make before they save. -/
inductive Mutation (s : MetadataStore) (name : String) : MetadataStore → Prop where
  | create (checksum : UInt32) (hname : s.objects[name]? = none) :
      Mutation s name (s.withObject name (.new name checksum))
  | attach {object : MetaObject} (id nodeId : UInt64) (checksum : UInt32)
      (hname : s.objects[name]? = some object)
      (hid : ∀ chunk, s.chunks[id]? = some chunk → chunk.status = .pending)
      (hnode : (∃ node ∈ s.storageNodes.valueList, node.id = nodeId) ∨
        nodeId ∈ s.storageNodes) :
      Mutation s name (s.withAttached id name object checksum nodeId)
  | replicate {id nodeId : UInt64} {chunk : MetaChunk} (hchunk : s.chunks[id]? = some chunk)
      (hname : chunk.objectName = name) (hnode : nodeId ∈ s.storageNodes)
      (hnew : nodeId ∉ chunk.storageNodes)
      (hroom : chunk.storageNodes.length < MetadataStore.MAX_REPLICAS) :
      Mutation s name (s.withChunk id (chunk.addStorageNode nodeId))
  | delete {object : MetaObject} (hname : s.objects[name]? = some object) :
      Mutation s name (s.withoutObject name object)

variable {s m : MetadataStore} {name : String}

/-- Every mutation is one of the edits that keep integrity. -/
theorem Mutation.exists_edit (h : Mutation s name m) : ∃ op, Edit op s m := by
  cases h with
  | create checksum hname => exact ⟨.putObject checksum name, .addObject checksum hname⟩
  | attach id nodeId checksum hname hid hnode =>
      exact ⟨.confirmChunk id name checksum nodeId, .attach id checksum hid hname hnode⟩
  | @replicate id nodeId chunk hchunk hname hnode hnew hroom =>
      exact ⟨.addChunkReplica id nodeId, .addReplica rfl hchunk hnode hnew hroom⟩
  | delete hname => exact ⟨.deleteObject name, .dropObject hname⟩

theorem Mutation.wellReferenced (h : Mutation s name m) (hs : WellReferenced s.maps) :
    WellReferenced m.maps := by
  rcases h.exists_edit with ⟨op, hedit⟩
  exact ⟨integrity_edit hedit hs.toIntegrity, keyed_edit hedit hs.toKeyed⟩

theorem Mutation.files_eq (h : Mutation s name m) : m.files = s.files := by
  rcases h.exists_edit with ⟨op, hedit⟩
  exact hedit.files_eq

/-- The views of the other objects stay as they are. -/
theorem Mutation.view (h : Mutation s name m) (hs : Integrity s.maps) {other : String}
    (hne : other ≠ name) : m.maps.view other = s.maps.view other := by
  cases h with
  | create checksum hname => exact view_withObject name _ hne
  | attach id nodeId checksum hname hid hnode => exact view_withAttached hs checksum hid hne
  | @replicate id nodeId chunk hchunk hname hnode hnew hroom =>
      exact view_withReplica hs hchunk nodeId (hname ▸ hne)
  | delete hname => exact view_withoutObject hs hname hne

/-- Which other objects there are does not change either. -/
theorem Mutation.objects (h : Mutation s name m) {other : String} (hne : other ≠ name) :
    m.objects[other]? = s.objects[other]? := by
  cases h with
  | create checksum hname => exact HashMap.getElem?_insert_of_ne _ _ hne
  | attach id nodeId checksum hname hid hnode => exact HashMap.getElem?_insert_of_ne _ _ hne
  | replicate hchunk hname hnode hnew hroom => rfl
  | delete hname => exact HashMap.getElem?_erase_of_ne _ hne

/-- What a refused request can leave: the store, with one more record that no object
lists. -/
inductive Leftover (s : MetadataStore) : MetadataStore → Prop where
  | nothing : Leftover s s
  | orphan {id : UInt64} {chunk : MetaChunk} (hid : s.chunks[id]? = none) (hkey : chunk.id = id) :
      Leftover s (s.withChunk id chunk)

theorem Leftover.objects_eq (h : Leftover s m) : m.objects = s.objects := by
  cases h <;> rfl

theorem Leftover.files_eq (h : Leftover s m) : m.files = s.files := by
  cases h <;> rfl

theorem Leftover.chunks {id : UInt64} {chunk : MetaChunk} (h : Leftover s m)
    (hchunk : s.chunks[id]? = some chunk) : m.chunks[id]? = some chunk := by
  cases h with
  | nothing => exact hchunk
  | @orphan other record hid hkey =>
      have hne : id ≠ other := by
        rintro rfl
        rw [hid] at hchunk
        cases hchunk
      exact (HashMap.getElem?_insert_of_ne _ _ hne).trans hchunk

theorem Leftover.view (h : Leftover s m) (hs : Integrity s.maps) (name : String) :
    m.maps.view name = s.maps.view name := by
  refine view_congr (by rw [MetadataStore.maps, h.objects_eq]; rfl) fun id hid => ?_
  rcases hs.record hid with ⟨chunk, hchunk, _⟩
  exact (h.chunks hchunk).trans hchunk.symm

theorem Leftover.wellReferenced (h : Leftover s m) (hs : WellReferenced s.maps) :
    WellReferenced m.maps where
  confirms := by
    intro name object id hname hid
    have hold : s.objects[name]? = some object := by
      rw [← h.objects_eq]
      exact hname
    rcases hs.confirms hold hid with ⟨chunk, hchunk, hrest⟩
    exact ⟨chunk, h.chunks hchunk, hrest⟩
  nodup := by
    intro name object hname
    have hold : s.objects[name]? = some object := by
      rw [← h.objects_eq]
      exact hname
    exact hs.nodup hold
  chunk := by
    intro id chunk hchunk
    cases h with
    | nothing => exact hs.chunk hchunk
    | orphan hid hkey => exact (hs.toKeyed.insert_chunk hkey).chunk hchunk
  object := by
    intro name object hname
    refine hs.object ?_
    rw [MetadataStore.maps, ← h.objects_eq]
    exact hname

/-! ## One request -/

/-- The method call behind a request saves a mutation of the record of its object, or it
fails and leaves nothing but an unlisted record. -/
theorem op_effect {request : Request} {result : IoResult Unit} {s' : MetadataStore}
    (h : request.op.apply lib io s = some (result, s')) :
    (result ≠ .ok () ∧ Leftover s s') ∨
      ∃ name m, request.objectName s = some name ∧ Mutation s name m ∧
        (result, s') = m.save lib io := by
  cases request with
  | putObject checksum name =>
      have hcall : s.putObject lib io checksum name = (result, s') := Option.some.inj h
      rcases MetadataStore.putObject_effect lib io s checksum name with
        ⟨object, _, heffect⟩ | ⟨habsent, heffect⟩
      · cases heffect.symm.trans hcall
        exact .inl ⟨by simp, .nothing⟩
      · exact .inr ⟨name, _, rfl, .create checksum habsent, hcall.symm.trans heffect⟩
  | putChunk draws pick name checksum =>
      rcases Option.map_eq_some_iff.mp h with ⟨outcome, houtcome, hresult⟩
      rcases MetadataStore.putChunk_effect houtcome with
        ⟨_, rfl⟩ | ⟨id, node, hid, hnode, ⟨_, rfl⟩ | ⟨object, hname, rfl⟩⟩
      · cases hresult
        exact .inl ⟨by simp [Except.map], .nothing⟩
      · cases hresult
        exact .inl ⟨by simp [Except.map], .orphan (generateUniqueId_fresh hid) rfl⟩
      · rw [discard_saveThen] at hresult
        have hfresh := generateUniqueId_fresh hid
        exact .inr ⟨name, _, rfl, .attach id node.id checksum hname (by simp [hfresh])
          (.inl ⟨node, chooseStorageNode_mem hnode, rfl⟩), hresult.symm⟩
  | confirmChunk id name checksum nodeId =>
      have hcall : s.confirmChunk lib io id name checksum nodeId = (result, s') :=
        Option.some.inj h
      rcases MetadataStore.confirmChunk_effect lib io s id name checksum nodeId with
        ⟨error, heffect⟩ | ⟨object, hname, hnode, hid, heffect⟩
      · cases heffect.symm.trans hcall
        exact .inl ⟨by simp, .nothing⟩
      · exact .inr ⟨name, _, rfl, .attach id nodeId checksum hname hid (.inr hnode),
          hcall.symm.trans heffect⟩
  | addChunkReplica id nodeId =>
      have hcall : s.addChunkReplica lib io id nodeId = (result, s') := Option.some.inj h
      rcases MetadataStore.addChunkReplica_effect lib io s id nodeId with
        ⟨error, heffect⟩ | ⟨chunk, hchunk, hnode, hnew, hroom, heffect⟩
      · cases heffect.symm.trans hcall
        exact .inl ⟨by simp, .nothing⟩
      · refine .inr ⟨chunk.objectName, _, ?_, .replicate hchunk rfl hnode hnew hroom,
          hcall.symm.trans heffect⟩
        simp [Request.objectName, hchunk]
  | deleteObject name =>
      have hcall : s.deleteObject lib io name = (result, s') := Option.some.inj h
      rcases MetadataStore.deleteObject_effect lib io s name with
        ⟨_, heffect⟩ | ⟨object, hname, heffect⟩
      · cases heffect.symm.trans hcall
        exact .inl ⟨by simp, .nothing⟩
      · exact .inr ⟨name, _, rfl, .delete hname, hcall.symm.trans heffect⟩

theorem serve_mirrors {node node' : StorageMetadataImpl} {request : Request}
    {result : Except Status Unit} (h : node.serve lib io request = some (result, node')) :
    ∃ method, request.op.apply lib io node.metadataStore = some method ∧
      Mirrors (result, node') method := by
  cases request with
  | putObject checksum name =>
      exact ⟨_, rfl, Option.some.inj h ▸ putObject_mirrors node checksum name⟩
  | putChunk draws pick name checksum =>
      rcases Option.map_eq_some_iff.mp h with ⟨handler, hhandler, hresult⟩
      rcases putChunk_mirrors hhandler with ⟨method, hmethod, hstore, hok⟩
      refine ⟨discard method, by simp [Request.op, Op.apply, hmethod], ?_⟩
      rcases handler with ⟨response, after⟩
      rcases method with ⟨outcome, store⟩
      cases hresult
      refine ⟨hstore, ?_⟩
      cases response <;> cases outcome <;> simp_all [discard, Except.map]
  | confirmChunk id name checksum nodeId =>
      exact ⟨_, rfl, Option.some.inj h ▸ confirmChunk_mirrors node id name checksum nodeId⟩
  | addChunkReplica id nodeId =>
      exact ⟨_, rfl, Option.some.inj h ▸ addChunkReplica_mirrors node id nodeId⟩
  | deleteObject name =>
      exact ⟨_, rfl, Option.some.inj h ▸ deleteObject_mirrors node name⟩

/-- A request is acknowledged after a saved mutation of the record of its object.
Refused, it leaves nothing but an unlisted record, or its `save` has failed. -/
theorem serve_effect {node node' : StorageMetadataImpl} {request : Request}
    {result : Except Status Unit} (h : node.serve lib io request = some (result, node')) :
    (result ≠ .ok () ∧ Leftover node.metadataStore node'.metadataStore) ∨
      ∃ name m, request.objectName node.metadataStore = some name ∧
        Mutation node.metadataStore name m ∧
        node'.metadataStore = (m.save lib io).2 ∧ (result = .ok () ↔ io = .completes) := by
  rcases serve_mirrors h with ⟨⟨outcome, store⟩, hmethod, hstore, hok⟩
  have hunit : result = .ok () ↔ outcome = .ok () := by
    constructor
    · intro hresult
      rcases hok.mp ⟨(), hresult⟩ with ⟨value, hvalue⟩
      exact hvalue
    · intro houtcome
      rcases hok.mpr ⟨(), houtcome⟩ with ⟨value, hvalue⟩
      exact hvalue
  rcases op_effect hmethod with ⟨hfailed, hleft⟩ | ⟨name, m, hname, hmutation, hsave⟩
  · exact .inl ⟨fun hresult => hfailed (hunit.mp hresult), hstore ▸ hleft⟩
  · right
    refine ⟨name, m, hname, hmutation, ?_, ?_⟩
    · rw [← hsave]
      exact hstore
    · rw [hunit, ← @MetadataStore.save_ok_iff lib io m, ← hsave]

/-- A created object has no chunks. -/
theorem view_of_created {node node' : StorageMetadataImpl} {checksum : UInt32} {name : String}
    (h : node.serve lib io (.putObject checksum name) = some (.ok (), node')) :
    node'.metadataStore.maps.view name = some (.new name checksum, []) := by
  rcases @putObject_mirrors lib io node checksum name with ⟨hstore, hok⟩
  have hresult : node.putObject lib io checksum name = (.ok (), node') := Option.some.inj h
  rw [hresult] at hstore hok
  rcases hok.mp ⟨(), rfl⟩ with ⟨value, hvalue⟩
  rcases MetadataStore.putObject_effect lib io node.metadataStore checksum name with
    ⟨object, _, heffect⟩ | ⟨_, heffect⟩
  · rw [heffect] at hvalue
    cases hvalue
  · rw [hstore, heffect, save_maps, view_of_stored Std.ExtTreeMap.getElem?_insert_self]
    rfl

/-- A deleted object is gone. -/
theorem view_of_deleted {node node' : StorageMetadataImpl} {name : String}
    (h : node.serve lib io (.deleteObject name) = some (.ok (), node')) :
    node'.metadataStore.maps.view name = none := by
  rcases @deleteObject_mirrors lib io node name with ⟨hstore, hok⟩
  have hresult : node.deleteObject lib io name = (.ok (), node') := Option.some.inj h
  rw [hresult] at hstore hok
  rcases hok.mp ⟨(), rfl⟩ with ⟨value, hvalue⟩
  rcases MetadataStore.deleteObject_effect lib io node.metadataStore name with
    ⟨_, heffect⟩ | ⟨object, _, heffect⟩
  · rw [heffect] at hvalue
    cases hvalue
  · rw [hstore, heffect, save_maps, view_eq_none_iff]
    exact Std.ExtTreeMap.getElem?_erase_self

end StorageMetadata
end ObjectStore
