import ObjectStore.StorageMetadata.Service

/-!
# Storage metadata - Runs of one store

A run is any sequence of method calls and restarts.  Every step of every `save`
may fail, and the process may stop anywhere: a stop during `save` leaves the
files as a failure at the same step does, followed by a restart that reloads them.

All that a method call can do is said once.  It changes memory by a chain of
`Edit`s and then calls `save`, or it ends without reaching `save` after a
`SideEdit` at most.  Invariants are then proved per edit instead of per method.

Main results:

- Theorem `Op.apply_cases`: what a method call can do.
- Definition `Run`: runs, with the maps of the latest completed `save`.
-/

namespace ObjectStore
namespace StorageMetadata

/-! ## Method calls -/

/-- The mutating methods of `MetadataStore`, with their arguments and the random
numbers they draw, and one round of the health check. -/
inductive Op where
  | putObject (checksum : UInt32) (name : String)
  | putChunk (draws : List UInt64) (pick : Nat) (objectName : String) (checksum : UInt32)
  | allocateChunk (draws : List UInt64) (pick : Nat) (objectName : String)
  | confirmChunk (chunkId : UInt64) (objectName : String) (checksum : UInt32)
      (storageNodeId : UInt64)
  | deleteChunk (chunkId : UInt64)
  | deleteObject (objectName : String)
  | removeObjects (names : List String)
  | updateObjectChecksum (objectName : String) (checksum : UInt32) (totalSize : UInt64)
  | addChunkReplica (chunkId storageNodeId : UInt64)
  | constructStorageNode (draws : List UInt64) (address : String)
  | deleteStorageNode (storageNodeId : UInt64)
  | healthCheck (deleteIds : List UInt64)
  | ingestPartition (objects : List MetaObject) (chunks : List MetaChunk)

/-- The records come from a peer. -/
def Op.FromPeer : Op → Prop
  | .ingestPartition .. => True
  | _ => False

/-- The calls that return `Ok` without a `save`: a reservation, and the registry. -/
def Op.Volatile : Op → Prop
  | .allocateChunk .. | .constructStorageNode .. | .deleteStorageNode _ | .healthCheck _ => True
  | _ => False

/-- Forget the value of a successful call. -/
def discard {α : Type} (result : IoResult α × MetadataStore) : IoResult Unit × MetadataStore :=
  (result.1.map fun _ => (), result.2)

/-- The call, with the outcome `io` of its file steps. -/
@[grind =]
def Op.apply (lib : External) (io : SaveIo) (s : MetadataStore) :
    Op → Option (IoResult Unit × MetadataStore)
  | .putObject checksum name => some (s.putObject lib io checksum name)
  | .putChunk draws pick objectName checksum =>
      (s.putChunk lib io draws pick objectName checksum).map discard
  | .allocateChunk draws pick objectName =>
      (s.allocateChunk draws pick objectName).map discard
  | .confirmChunk chunkId objectName checksum storageNodeId =>
      some (s.confirmChunk lib io chunkId objectName checksum storageNodeId)
  | .deleteChunk chunkId => some (s.deleteChunk lib io chunkId)
  | .deleteObject objectName => some (s.deleteObject lib io objectName)
  | .removeObjects names => some (s.removeObjects lib io names)
  | .updateObjectChecksum objectName checksum totalSize =>
      some (s.updateObjectChecksum lib io objectName checksum totalSize)
  | .addChunkReplica chunkId storageNodeId =>
      some (s.addChunkReplica lib io chunkId storageNodeId)
  | .constructStorageNode draws address =>
      (s.constructStorageNode lib draws address).map discard
  | .deleteStorageNode storageNodeId => some (s.deleteStorageNode storageNodeId)
  | .healthCheck deleteIds => some (.ok (), s.healthCheck deleteIds)
  | .ingestPartition objects chunks => some (s.ingestPartition lib io objects chunks)

/-- The call ends by saving the memory `m`, however the file steps go. -/
def Op.CallsSave (lib : External) (op : Op) (s m : MetadataStore) : Prop :=
  ∀ io, op.apply lib io s = some (m.save lib io)

@[simp]
theorem discard_saveThen {α : Type} (lib : External) (io : SaveIo) (m : MetadataStore)
    (value : α) : discard (m.saveThen lib io value) = m.save lib io := by
  unfold MetadataStore.saveThen discard
  split <;> rename_i h <;> rw [h] <;> rfl

@[simp]
theorem saveThen_unit (lib : External) (io : SaveIo) (m : MetadataStore) :
    m.saveThen lib io () = m.save lib io := by
  unfold MetadataStore.saveThen
  split <;> rename_i h <;> rw [h]

/-! ## Changes to memory -/

/-- One change that the method call `op` makes to memory before it calls `save`. -/
inductive Edit (op : Op) (s : MetadataStore) : MetadataStore → Prop where
  | addObject {name : String} (checksum : UInt32) (hname : s.objects[name]? = none) :
      Edit op s { s with objects := s.objects.insert name (.new name checksum) }
  | setChecksum {name : String} {object : MetaObject} (checksum : UInt32)
      (totalSize : UInt64) (hname : s.objects[name]? = some object) :
      Edit op s { s with
        objects := s.objects.insert name
          ({ object with checksum := checksum, totalSize := totalSize }) }
  | dropObject {name : String} {object : MetaObject}
      (hname : s.objects[name]? = some object) :
      Edit op s { s with
        objects := s.objects.erase name
        chunks := object.chunks.foldl (·.erase ·) s.chunks }
  /-- A chunk that is not `Confirmed` yet joins the end of an object. -/
  | attach (id : UInt64) {nodeId : UInt64} {name : String} {object : MetaObject}
      (checksum : UInt32)
      (hid : ∀ chunk, s.chunks[id]? = some chunk → chunk.status = .pending)
      (hname : s.objects[name]? = some object)
      (hnode : (∃ node ∈ s.storageNodes.valueList, node.id = nodeId) ∨
        nodeId ∈ s.storageNodes) :
      Edit op s { s with
        chunks := s.chunks.insert id ((MetaChunk.new id checksum name).addStorageNode nodeId)
        objects := s.objects.insert name (object.addChunk id) }
  | dropChunk {id : UInt64} {chunk : MetaChunk} {object : MetaObject}
      (hid : s.chunks[id]? = some chunk)
      (hname : s.objects[chunk.objectName]? = some object) :
      Edit op s { s with
        chunks := s.chunks.erase id
        objects := s.objects.insert chunk.objectName
          ({ object with chunks := object.chunks.filter (· ≠ id) }) }
  | addReplica {id nodeId : UInt64} {chunk : MetaChunk} (hop : op = .addChunkReplica id nodeId)
      (hid : s.chunks[id]? = some chunk) (hnode : nodeId ∈ s.storageNodes)
      (hnew : nodeId ∉ chunk.storageNodes)
      (hroom : chunk.storageNodes.length < MetadataStore.MAX_REPLICAS) :
      Edit op s { s with chunks := s.chunks.insert id (chunk.addStorageNode nodeId) }

/-- A change of memory that no `save` follows: a reservation, a change of the
registry, or what a call leaves behind that fails after its first change. -/
inductive SideEdit (lib : External) (op : Op) (s : MetadataStore) : MetadataStore → Prop where
  | reserve {id : UInt64} (name : String) (hid : s.chunks[id]? = none) :
      SideEdit lib op s { s with chunks := s.chunks.insert id (.newPending id name) }
  /-- `put_chunk` for an object that does not exist. -/
  | orphan {id nodeId : UInt64} {name : String} (checksum : UInt32)
      (hid : s.chunks[id]? = none) (hname : s.objects[name]? = none)
      (hnode : ∃ node ∈ s.storageNodes.valueList, node.id = nodeId) :
      SideEdit lib op s { s with
        chunks := s.chunks.insert id ((MetaChunk.new id checksum name).addStorageNode nodeId) }
  /-- `delete_chunk` of a record whose object does not exist. -/
  | dropOrphan {id : UInt64} {chunk : MetaChunk} (hid : s.chunks[id]? = some chunk)
      (hname : s.objects[chunk.objectName]? = none) :
      SideEdit lib op s { s with chunks := s.chunks.erase id }
  | register {id : UInt64} {address : String} (hid : s.storageNodes[id]? = none)
      (haddress : lib.isUri address = true) :
      SideEdit lib op s { s with storageNodes := s.storageNodes.insert id ⟨id, address⟩ }
  | unregister (ids : List UInt64)
      (hop : op = .healthCheck ids ∨ ∃ id, op = .deleteStorageNode id ∧ ids = [id]) :
      SideEdit lib op s { s with storageNodes := ids.foldl (·.erase ·) s.storageNodes }

/-- A chain of edits. -/
abbrev Edits (op : Op) : MetadataStore → MetadataStore → Prop :=
  Relation.ReflTransGen (Edit op)

theorem Edit.files_eq {op : Op} {s m : MetadataStore} (h : Edit op s m) : m.files = s.files := by
  cases h <;> rfl

theorem Edit.storageNodes_eq {op : Op} {s m : MetadataStore} (h : Edit op s m) :
    m.storageNodes = s.storageNodes := by
  cases h <;> rfl

theorem SideEdit.files_eq {lib : External} {op : Op} {s m : MetadataStore}
    (h : SideEdit lib op s m) : m.files = s.files := by
  cases h <;> rfl

theorem SideEdit.objects_eq {lib : External} {op : Op} {s m : MetadataStore}
    (h : SideEdit lib op s m) : m.objects = s.objects := by
  cases h <;> rfl

theorem Edits.files_eq {op : Op} {s m : MetadataStore} (h : Edits op s m) : m.files = s.files := by
  induction h with
  | refl => rfl
  | tail _ hstep ih => rw [hstep.files_eq, ih]

theorem Edits.storageNodes_eq {op : Op} {s m : MetadataStore} (h : Edits op s m) :
    m.storageNodes = s.storageNodes := by
  induction h with
  | refl => rfl
  | tail _ hstep ih => rw [hstep.storageNodes_eq, ih]

/-- A property every edit preserves is preserved by a chain of edits. -/
theorem Edits.preserves {P : MetadataStore → Prop} {op : Op} {s m : MetadataStore}
    (h : Edits op s m) (hstep : ∀ a b, Edit op a b → P a → P b) (hs : P s) : P m := by
  induction h with
  | refl => exact hs
  | tail _ hlast ih => exact hstep _ _ hlast ih

/-! ## What a method call can do -/

theorem generateUniqueId_fresh {V : Type} {draws : List UInt64} {idMap : HashMap UInt64 V}
    {id : UInt64} (h : MetadataStore.generateUniqueId draws idMap = some id) :
    idMap[id]? = none := by
  have hnot := List.find?_some h
  rw [Std.ExtTreeMap.getElem?_eq_none_of_contains_eq_false]
  simpa using hnot

theorem chooseStorageNode_mem {s : MetadataStore} {pick : Nat} {node : MetaStorageNode}
    (h : s.chooseStorageNode pick = some node) : node ∈ s.storageNodes.valueList :=
  List.mem_of_getElem? h

theorem removeObjects_edits (op : Op) (names : List String) (s : MetadataStore) :
    Edits op s (names.foldl MetadataStore.removeObject s) := by
  induction names generalizing s with
  | nil => exact .refl
  | cons name names ih =>
      refine Relation.ReflTransGen.trans ?_ (ih _)
      unfold MetadataStore.removeObject
      split
      · exact .refl
      · rename_i object hname
        exact .single (.dropObject hname)

/-- The ways a method call can go: it is still drawing ids; it changes memory and
saves; it takes over records of a peer and saves; or it returns without reaching
`save`. -/
inductive Op.Cases (lib : External) (op : Op) (s : MetadataStore) : Prop where
  | drawing (happly : ∀ io, op.apply lib io s = none)
  | saves {m : MetadataStore} (hedits : Edits op s m)
      (hedit : Edit op s m ∨ ∃ names, op = .removeObjects names) (hsave : op.CallsSave lib s m)
  | ingests (objects : List MetaObject) (chunks : List MetaChunk) (hop : op.FromPeer)
      (hsave : op.CallsSave lib s (s.ingest objects chunks))
  | unchanged {error : IoError} (happly : ∀ io, op.apply lib io s = some (.error error, s))
  | side (result : IoResult Unit) {m : MetadataStore} (hside : SideEdit lib op s m)
      (hresult : result = .ok () → op.Volatile)
      (happly : ∀ io, op.apply lib io s = some (result, m))

theorem Op.Cases.savesEdit {lib : External} {op : Op} {s m : MetadataStore}
    (hedit : Edit op s m) (hsave : op.CallsSave lib s m) : op.Cases lib s :=
  .saves (.single hedit) (.inl hedit) hsave

theorem putObject_cases (lib : External) (checksum : UInt32) (name : String)
    (s : MetadataStore) : Op.Cases lib (.putObject checksum name) s := by
  by_cases hname : s.objects.contains name
  · exact .unchanged fun io => by simp only [Op.apply, MetadataStore.putObject, hname, if_true]; rfl
  · have habsent : s.objects[name]? = none := by simpa using hname
    refine .savesEdit (.addObject checksum habsent) fun io => ?_
    simp [Op.apply, MetadataStore.putObject, hname]

theorem updateObjectChecksum_cases (lib : External) (objectName : String)
    (checksum : UInt32) (totalSize : UInt64) (s : MetadataStore) :
    Op.Cases lib (.updateObjectChecksum objectName checksum totalSize) s := by
  cases hname : s.objects[objectName]? with
  | none =>
      exact .unchanged fun io => by
        simp only [Op.apply, MetadataStore.updateObjectChecksum, hname]; rfl
  | some object =>
      refine .savesEdit (.setChecksum checksum totalSize hname) fun io => ?_
      simp [Op.apply, MetadataStore.updateObjectChecksum, hname]

theorem deleteObject_cases (lib : External) (objectName : String) (s : MetadataStore) :
    Op.Cases lib (.deleteObject objectName) s := by
  cases hname : s.objects[objectName]? with
  | none =>
      exact .unchanged fun io => by
        simp only [Op.apply, MetadataStore.deleteObject, hname]; rfl
  | some object =>
      refine .savesEdit (.dropObject hname) fun io => ?_
      simp [Op.apply, MetadataStore.deleteObject, hname]

theorem putChunk_cases (lib : External) (draws : List UInt64) (pick : Nat)
    (objectName : String) (checksum : UInt32) (s : MetadataStore) :
    Op.Cases lib (.putChunk draws pick objectName checksum) s := by
  cases hid : MetadataStore.generateUniqueId draws s.chunks with
  | none => exact .drawing fun io => by simp [Op.apply, MetadataStore.putChunk, hid]
  | some id =>
      have hfresh := generateUniqueId_fresh hid
      cases hnode : s.chooseStorageNode pick with
      | none =>
          exact .unchanged fun io => by
            simp only [Op.apply, MetadataStore.putChunk, hid, hnode]; rfl
      | some node =>
          have hmem := chooseStorageNode_mem hnode
          cases hname : s.objects[objectName]? with
          | none =>
              refine .side (.error ⟨.notFound, "object not found"⟩)
                (.orphan checksum hfresh hname ⟨node, hmem, rfl⟩) (by simp) fun io => ?_
              simp only [Op.apply, MetadataStore.putChunk, hid, hnode, hname]
              rfl
          | some object =>
              refine .savesEdit (.attach id checksum (by simp [hfresh]) hname
                (.inl ⟨node, hmem, rfl⟩)) fun io => ?_
              simp [Op.apply, MetadataStore.putChunk, hid, hnode, hname]

theorem allocateChunk_cases (lib : External) (draws : List UInt64) (pick : Nat)
    (objectName : String) (s : MetadataStore) :
    Op.Cases lib (.allocateChunk draws pick objectName) s := by
  cases hid : MetadataStore.generateUniqueId draws s.chunks with
  | none => exact .drawing fun io => by simp [Op.apply, MetadataStore.allocateChunk, hid]
  | some id =>
      cases hnode : s.chooseStorageNode pick with
      | none =>
          exact .unchanged fun io => by
            simp only [Op.apply, MetadataStore.allocateChunk, hid, hnode]; rfl
      | some node =>
          refine .side (.ok ()) (.reserve objectName (generateUniqueId_fresh hid))
            (fun _ => trivial) fun io => ?_
          simp only [Op.apply, MetadataStore.allocateChunk, hid, hnode]
          rfl

theorem confirmChunk_cases (lib : External) (chunkId : UInt64) (objectName : String)
    (checksum : UInt32) (storageNodeId : UInt64) (s : MetadataStore) :
    Op.Cases lib (.confirmChunk chunkId objectName checksum storageNodeId) s := by
  by_cases hnode : s.storageNodes.contains storageNodeId
  swap
  · exact .unchanged fun io => by simp only [Op.apply, MetadataStore.confirmChunk, hnode]; rfl
  by_cases hid : (s.chunks[chunkId]?).any (·.status = .confirmed)
  · exact .unchanged fun io => by
      simp only [Op.apply, MetadataStore.confirmChunk, hnode, hid, if_true]; rfl
  cases hname : s.objects[objectName]? with
  | none =>
      exact .unchanged fun io => by
        simp only [Op.apply, MetadataStore.confirmChunk, hnode, hid, hname]; rfl
  | some object =>
      have hpending : ∀ chunk, s.chunks[chunkId]? = some chunk → chunk.status = .pending := by
        intro chunk hchunk
        cases hstatus : chunk.status with
        | pending => rfl
        | confirmed => simp [hchunk, hstatus] at hid
      refine .savesEdit (.attach chunkId checksum hpending hname
        (.inr (Std.ExtTreeMap.mem_iff_contains.mpr hnode))) fun io => ?_
      simp [Op.apply, MetadataStore.confirmChunk, hnode, hid, hname]

theorem deleteChunk_cases (lib : External) (chunkId : UInt64) (s : MetadataStore) :
    Op.Cases lib (.deleteChunk chunkId) s := by
  cases hid : s.chunks[chunkId]? with
  | none =>
      exact .unchanged fun io => by simp only [Op.apply, MetadataStore.deleteChunk, hid]; rfl
  | some chunk =>
      cases hname : s.objects[chunk.objectName]? with
      | none =>
          refine .side (.error ⟨.notFound, "object not found"⟩)
            (.dropOrphan hid hname) (by simp) fun io => ?_
          simp only [Op.apply, MetadataStore.deleteChunk, hid, hname]
      | some object =>
          refine .savesEdit (.dropChunk hid hname) fun io => ?_
          simp [Op.apply, MetadataStore.deleteChunk, hid, hname]

theorem addChunkReplica_cases (lib : External) (chunkId storageNodeId : UInt64)
    (s : MetadataStore) : Op.Cases lib (.addChunkReplica chunkId storageNodeId) s := by
  by_cases hnode : s.storageNodes.contains storageNodeId
  swap
  · exact .unchanged fun io => by simp only [Op.apply, MetadataStore.addChunkReplica, hnode]; rfl
  cases hid : s.chunks[chunkId]? with
  | none =>
      exact .unchanged fun io => by
        simp only [Op.apply, MetadataStore.addChunkReplica, hnode, hid]; rfl
  | some chunk =>
      by_cases hnew : chunk.storageNodes.contains storageNodeId
      · exact .unchanged fun io => by
          simp only [Op.apply, MetadataStore.addChunkReplica, hnode, hid, hnew, if_true]; rfl
      by_cases hroom : MetadataStore.MAX_REPLICAS ≤ chunk.storageNodes.length
      · exact .unchanged fun io => by
          simp only [Op.apply, MetadataStore.addChunkReplica, hnode, hid, hnew, hroom, if_true]
          rfl
      · have hnotMem : storageNodeId ∉ chunk.storageNodes := by simpa using hnew
        refine .savesEdit (.addReplica rfl hid (Std.ExtTreeMap.mem_iff_contains.mpr hnode)
          hnotMem (by omega)) fun io => ?_
        simp [Op.apply, MetadataStore.addChunkReplica, hnode, hid, hnotMem, hroom]

theorem constructStorageNode_cases (lib : External) (draws : List UInt64)
    (address : String) (s : MetadataStore) :
    Op.Cases lib (.constructStorageNode draws address) s := by
  cases hid : MetadataStore.generateUniqueId draws s.storageNodes with
  | none => exact .drawing fun io => by simp [Op.apply, MetadataStore.constructStorageNode, hid]
  | some id =>
      by_cases huri : lib.isUri address = true
      · refine .side (.ok ()) (.register (generateUniqueId_fresh hid) huri)
          (fun _ => trivial) fun io => ?_
        simp only [Op.apply, MetadataStore.constructStorageNode, MetadataStore.newStorageNode,
          hid, huri, if_true]
        rfl
      · exact .unchanged fun io => by
          simp only [Op.apply, MetadataStore.constructStorageNode, MetadataStore.newStorageNode,
            hid, huri]
          rfl

theorem deleteStorageNode_cases (lib : External) (storageNodeId : UInt64)
    (s : MetadataStore) : Op.Cases lib (.deleteStorageNode storageNodeId) s := by
  by_cases hnode : s.storageNodes.contains storageNodeId
  · refine .side (.ok ()) (.unregister [storageNodeId] (.inr ⟨storageNodeId, rfl, rfl⟩))
      (fun _ => trivial) fun io => ?_
    simp [Op.apply, MetadataStore.deleteStorageNode, hnode]
  · exact .unchanged fun io => by
      simp only [Op.apply, MetadataStore.deleteStorageNode, hnode]; rfl

/-- What a method call can do. -/
theorem Op.apply_cases (lib : External) (op : Op) (s : MetadataStore) : op.Cases lib s := by
  cases op with
  | putObject checksum name => exact putObject_cases lib checksum name s
  | putChunk draws pick name checksum => exact putChunk_cases lib draws pick name checksum s
  | allocateChunk draws pick name => exact allocateChunk_cases lib draws pick name s
  | confirmChunk id name checksum node => exact confirmChunk_cases lib id name checksum node s
  | deleteChunk id => exact deleteChunk_cases lib id s
  | deleteObject name => exact deleteObject_cases lib name s
  | removeObjects names =>
      exact .saves (removeObjects_edits _ names s) (.inr ⟨names, rfl⟩) fun io => by
        simp [Op.apply, MetadataStore.removeObjects]
  | updateObjectChecksum name checksum size =>
      exact updateObjectChecksum_cases lib name checksum size s
  | addChunkReplica id node => exact addChunkReplica_cases lib id node s
  | constructStorageNode draws address => exact constructStorageNode_cases lib draws address s
  | deleteStorageNode id => exact deleteStorageNode_cases lib id s
  | healthCheck ids =>
      exact .side (.ok ()) (.unregister ids (.inl rfl)) (fun _ => trivial) fun _ => rfl
  | ingestPartition objects chunks =>
      exact .ingests objects chunks trivial fun io => by
        simp [Op.apply, MetadataStore.ingestPartition]

/-- The memory a call saves is determined by the call. -/
theorem Op.CallsSave.unique {lib : External} {op : Op} {s m m' : MetadataStore}
    (h : op.CallsSave lib s m) (h' : op.CallsSave lib s m') : m = m' := by
  have hstops := h (.stops .create ⟨.other, ""⟩)
  have hstops' := h' (.stops .create ⟨.other, ""⟩)
  rw [hstops] at hstops'
  exact congrArg Prod.snd (Option.some.inj hstops')

/-- A call whose result does not depend on the file steps does not save. -/
theorem Op.CallsSave.not_constant {lib : External} {op : Op} {s m s' : MetadataStore}
    {result : IoResult Unit} (h : op.CallsSave lib s m)
    (hconstant : ∀ io, op.apply lib io s = some (result, s')) : False := by
  have hcompletes := h .completes
  have hstops := h (.stops .create ⟨.other, ""⟩)
  rw [hconstant] at hcompletes hstops
  have h₁ := congrArg Prod.fst (Option.some.inj hcompletes)
  have h₂ := congrArg Prod.fst (Option.some.inj hstops)
  rw [h₁] at h₂
  cases h₂

/-- A call saves after a chain of edits, or after taking over a peer's records. -/
theorem Op.CallsSave.cases {lib : External} {op : Op} {s m : MetadataStore}
    (h : op.CallsSave lib s m) :
    Edits op s m ∨ op.FromPeer ∧ ∃ objects chunks, m = s.ingest objects chunks := by
  cases op.apply_cases lib s with
  | drawing happly =>
      have hcompletes := h .completes
      simp [happly] at hcompletes
  | saves hedits _ hsave =>
      rw [h.unique hsave]
      exact .inl hedits
  | ingests objects chunks hop hsave => exact .inr ⟨hop, objects, chunks, h.unique hsave⟩
  | unchanged happly => exact (h.not_constant happly).elim
  | side _ _ _ happly => exact (h.not_constant happly).elim

theorem Op.CallsSave.edits {lib : External} {op : Op} {s m : MetadataStore}
    (h : op.CallsSave lib s m) (hop : ¬ op.FromPeer) : Edits op s m := by
  rcases h.cases with hedits | ⟨hpeer, _⟩
  · exact hedits
  · exact absurd hpeer hop

/-- A call for one record makes one edit. -/
theorem Op.CallsSave.edit {lib : External} {op : Op} {s m : MetadataStore}
    (h : op.CallsSave lib s m) (hpeer : ¬ op.FromPeer)
    (hremove : ∀ names, op ≠ .removeObjects names) : Edit op s m := by
  cases op.apply_cases lib s with
  | drawing happly =>
      have hcompletes := h .completes
      simp [happly] at hcompletes
  | saves _ hedit hsave =>
      rw [h.unique hsave]
      rcases hedit with hedit | ⟨names, hop⟩
      · exact hedit
      · exact absurd hop (hremove names)
  | ingests _ _ hop _ => exact absurd hop hpeer
  | unchanged happly => exact (h.not_constant happly).elim
  | side _ _ _ happly => exact (h.not_constant happly).elim

theorem Op.CallsSave.files_eq {lib : External} {op : Op} {s m : MetadataStore}
    (h : op.CallsSave lib s m) : m.files = s.files := by
  rcases h.cases with hedits | ⟨_, objects, chunks, rfl⟩
  · exact hedits.files_eq
  · rfl

/-- A call that returns without reaching `save` makes a side edit at most, and
returns `Ok` only when it is volatile. -/
theorem Op.side_of_not_callsSave {lib : External} {op : Op} {io : SaveIo}
    {s s' : MetadataStore} {result : IoResult Unit} (hnot : ∀ m, ¬ op.CallsSave lib s m)
    (happly : op.apply lib io s = some (result, s')) :
    (s' = s ∨ SideEdit lib op s s') ∧ (result = .ok () → op.Volatile) := by
  cases op.apply_cases lib s with
  | drawing hdrawing => simp [hdrawing] at happly
  | saves _ _ hsave => exact absurd hsave (hnot _)
  | ingests _ _ _ hsave => exact absurd hsave (hnot _)
  | unchanged hunchanged =>
      rw [hunchanged] at happly
      cases happly
      exact ⟨.inl rfl, by simp⟩
  | side _ hside hresult happly' =>
      rw [happly'] at happly
      cases happly
      exact ⟨.inr hside, hresult⟩

/-! ## Runs -/

/-- The persisted half of a store. -/
structure Maps where
  objects : HashMap String MetaObject
  chunks : HashMap UInt64 MetaChunk

/-- The maps of a store that has loaded and received nothing. -/
def Maps.empty : Maps := ⟨∅, ∅⟩

/-- The maps of a store, which are what it saves. -/
def MetadataStore.maps (s : MetadataStore) : Maps := ⟨s.objects, s.chunks⟩

/-- The maps as they are written to the file. -/
def Maps.persistentState (g : Maps) : PersistentState :=
  ⟨PERSISTENT_STATE_VERSION, g.objects, g.chunks⟩

/-- What a crash can leave of a file: what was synced survives, the rest is
arbitrary. -/
def FileImage.Survives (file : FileImage) : Option FileImage → Prop
  | some file' => file.synced = true → file'.contents = file.contents ∧ file'.synced = true
  | none => file.synced = false

/-- What a crash can leave of the files. -/
structure MetaFiles.Survives (files files' : MetaFiles) : Prop where
  main : ∀ file, files.main = some file → file.Survives files'.main
  main_absent : files.main = none → files'.main = none
  tmp : ∀ file, files.tmp = some file → file.Survives files'.tmp

/-- A process that stops without a crash of the machine leaves the files alone. -/
theorem MetaFiles.Survives.refl (files : MetaFiles) : files.Survives files where
  main := by
    intro file hfile
    rw [hfile]
    exact fun hsynced => ⟨rfl, hsynced⟩
  main_absent := id
  tmp := by
    intro file hfile
    rw [hfile]
    exact fun hsynced => ⟨rfl, hsynced⟩

/-- Something that can happen to a node: a method call whose file steps go as
`io` says, or a restart after a stop or a crash. -/
inductive Event where
  | call (op : Op) (io : SaveIo)
  | restart

/-- The maps that the main file holds after a `save` of `m` on top of `g`. -/
def SaveIo.lastSaved : SaveIo → Maps → Maps → Maps
  | .completes, m, _ => m
  | .stops _ _, _, g => g

/-- One allowed event, on a store and the in-memory maps at its latest `save` whose
rename completed.  A call during which the process stops is a `saving` step whose
file steps stop, followed by `restart`. -/
inductive Step (lib : External) (allowed : MetadataStore → Event → Prop) :
    MetadataStore × Maps → MetadataStore × Maps → Prop where
  | saving {s m : MetadataStore} {g : Maps} {op : Op} {io : SaveIo}
      (hallowed : allowed s (.call op io)) (hsave : op.CallsSave lib s m) :
      Step lib allowed (s, g) ((m.save lib io).2, io.lastSaved m.maps g)
  | other {s s' : MetadataStore} {g : Maps} {op : Op} {io : SaveIo} {result : IoResult Unit}
      (hallowed : allowed s (.call op io)) (hnot : ∀ m, ¬ op.CallsSave lib s m)
      (happly : op.apply lib io s = some (result, s')) : Step lib allowed (s, g) (s', g)
  | restart {s s' : MetadataStore} {g : Maps} {files : MetaFiles}
      (hallowed : allowed s .restart) (hcrash : s.files.Survives files)
      (hnew : MetadataStore.new lib files = .ok s') : Step lib allowed (s, g) (s', g)

/-- A sequence of allowed events. -/
abbrev Steps (lib : External) (allowed : MetadataStore → Event → Prop) :
    MetadataStore × Maps → MetadataStore × Maps → Prop :=
  Relation.ReflTransGen (Step lib allowed)

/-- A store that has no file yet, next to whatever temporary file there is. -/
def start (tmp : Option FileImage) : MetadataStore × Maps :=
  (MetadataStore.fresh ⟨none, tmp⟩, Maps.empty)

/-- Some run of allowed events leads from an empty store to `s`, and `g` holds the
in-memory maps at its latest `save` whose rename completed. -/
def Run (lib : External) (allowed : MetadataStore → Event → Prop) (s : MetadataStore)
    (g : Maps) : Prop :=
  ∃ tmp, Steps lib allowed (start tmp) (s, g)

/-- Every event is allowed. -/
def anyEvent (_ : MetadataStore) (_ : Event) : Prop := True

/-- `s` is reached by some run of allowed events. -/
def Reachable (lib : External) (allowed : MetadataStore → Event → Prop)
    (s : MetadataStore) : Prop :=
  ∃ g, Run lib allowed s g

/-- What holds at the start and is preserved by every step that a run takes holds
along every run. -/
theorem Run.invariant {lib : External} {allowed : MetadataStore → Event → Prop}
    {P : MetadataStore → Maps → Prop}
    (hstart : ∀ tmp, P (start tmp).1 (start tmp).2)
    (hstep : ∀ s g s' g', Run lib allowed s g → Step lib allowed (s, g) (s', g') →
      P s g → P s' g')
    {s : MetadataStore} {g : Maps} (hrun : Run lib allowed s g) : P s g := by
  obtain ⟨tmp, hsteps⟩ := hrun
  have hall : ∀ p, Steps lib allowed (start tmp) p → P p.1 p.2 := by
    intro p hp
    induction hp with
    | refl => exact hstart tmp
    | tail hbefore hlast ih => exact hstep _ _ _ _ ⟨tmp, hbefore⟩ hlast ih
  exact hall (s, g) hsteps

/-- A run of allowed events is a run of any larger set of events. -/
theorem Run.mono {lib : External} {allowed allowed' : MetadataStore → Event → Prop}
    (hsub : ∀ s event, allowed s event → allowed' s event)
    {s : MetadataStore} {g : Maps} (hrun : Run lib allowed s g) : Run lib allowed' s g := by
  obtain ⟨tmp, hsteps⟩ := hrun
  refine ⟨tmp, Relation.ReflTransGen.mono (fun _ _ hstep => ?_) _ _ hsteps⟩
  cases hstep with
  | saving hallowed hsave => exact .saving (hsub _ _ hallowed) hsave
  | other hallowed hnot happly => exact .other (hsub _ _ hallowed) hnot happly
  | restart hallowed hcrash hnew => exact .restart (hsub _ _ hallowed) hcrash hnew

theorem Run.extend {lib : External} {allowed : MetadataStore → Event → Prop}
    {s s' : MetadataStore} {g g' : Maps} (hrun : Run lib allowed s g)
    (hsteps : Steps lib allowed (s, g) (s', g')) : Run lib allowed s' g' := by
  obtain ⟨tmp, hbefore⟩ := hrun
  exact ⟨tmp, hbefore.trans hsteps⟩

/-- A completed method call extends a run. -/
theorem Reachable.call {lib : External} {allowed : MetadataStore → Event → Prop}
    {s s' : MetadataStore} {op : Op} {io : SaveIo} {result : IoResult Unit}
    (hs : Reachable lib allowed s) (hallowed : allowed s (.call op io))
    (happly : op.apply lib io s = some (result, s')) : Reachable lib allowed s' := by
  obtain ⟨g, hrun⟩ := hs
  by_cases hsave : ∃ m, op.CallsSave lib s m
  · obtain ⟨m, hm⟩ := hsave
    have heq : m.save lib io = (result, s') := by
      have hio := hm io
      rw [happly] at hio
      exact (Option.some.inj hio).symm
    have hstep : Step lib allowed (s, g) (s', io.lastSaved m.maps g) := by
      have hs' : (m.save lib io).2 = s' := congrArg Prod.snd heq
      rw [← hs']
      exact .saving hallowed hm
    exact ⟨_, hrun.extend (.single hstep)⟩
  · exact ⟨g, hrun.extend (.single (.other hallowed (not_exists.mp hsave) happly))⟩

theorem Run.start (lib : External) (allowed : MetadataStore → Event → Prop) :
    Run lib allowed (MetadataStore.fresh MetaFiles.empty) Maps.empty :=
  ⟨none, .refl⟩

theorem Reachable.start (lib : External) (allowed : MetadataStore → Event → Prop) :
    Reachable lib allowed (MetadataStore.fresh MetaFiles.empty) :=
  ⟨Maps.empty, Run.start lib allowed⟩

/-- The store after calls whose file steps all complete. -/
def MetadataStore.afterCalls (lib : External) (s : MetadataStore) : List Op → MetadataStore
  | [] => s
  | op :: ops =>
      match op.apply lib .completes s with
      | some (_, s') => s'.afterCalls lib ops
      | none => s.afterCalls lib ops

theorem Reachable.afterCalls {lib : External} {allowed : MetadataStore → Event → Prop}
    {ops : List Op} (hallowed : ∀ op ∈ ops, ∀ s, allowed s (.call op .completes))
    {s : MetadataStore} (hs : Reachable lib allowed s) :
    Reachable lib allowed (s.afterCalls lib ops) := by
  induction ops generalizing s with
  | nil => exact hs
  | cons op ops ih =>
      have hrest := fun op' hop' => hallowed op' (List.mem_cons_of_mem op hop')
      unfold MetadataStore.afterCalls
      split
      · rename_i happly
        exact ih hrest (hs.call (hallowed op List.mem_cons_self s) happly)
      · exact ih hrest hs

@[simp]
theorem save_objects (lib : External) (io : SaveIo) (m : MetadataStore) :
    (m.save lib io).2.objects = m.objects := by
  unfold MetadataStore.save
  split <;> rfl

@[simp]
theorem save_chunks (lib : External) (io : SaveIo) (m : MetadataStore) :
    (m.save lib io).2.chunks = m.chunks := by
  unfold MetadataStore.save
  split <;> rfl

@[simp]
theorem save_storageNodes (lib : External) (io : SaveIo) (m : MetadataStore) :
    (m.save lib io).2.storageNodes = m.storageNodes := by
  unfold MetadataStore.save
  split <;> rfl

@[simp]
theorem save_maps (lib : External) (io : SaveIo) (m : MetadataStore) :
    (m.save lib io).2.maps = m.maps := by
  simp [MetadataStore.maps]

@[simp]
theorem fresh_maps (files : MetaFiles) : (MetadataStore.fresh files).maps = Maps.empty :=
  rfl

theorem persistentState_eq_maps (m : MetadataStore) :
    m.persistentState = m.maps.persistentState :=
  rfl

end StorageMetadata
end ObjectStore
