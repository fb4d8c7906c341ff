import ObjectStore.StorageMetadata.Isolation

/-!
# Storage metadata - Reads among concurrent calls

`get_object` and `get_chunk` take the lock of the store twice: once to fetch the record and
once to resolve what it refers to.  Any call may run in between.  The other handlers reach
the store in one step; the first lock of `delete_object` only reads ids for the chunk index.

Main definitions:

- `Read`, `Serving`, `ServingStep`: reads in progress and the steps of all calls.
- `Op.Spares`: a call that does not disturb an object that is being read.

Main results:

- Theorem `Op.Outcome.spares`: what such a call leaves of the object.
- Theorem `Serving.Ok.step`: one step.
- Theorem `reads_consistent`: in runs of such calls every answer is that of one store.
-/

namespace ObjectStore
namespace StorageMetadata

/-! ## The two halves of a read -/

namespace MetadataStore

/-- The first lock acquisition of `get_chunk`. -/
def lookupChunk (self : MetadataStore) (chunkId : UInt64) : Except Status (String × MetaChunk) :=
  match self.getChunk chunkId with
  | .ok found => .ok found
  | .error error =>
      match error.kind with
      | .notFound => .error ⟨.notFound, "chunk not found"⟩
      | _ => .error ⟨.internal, "failed to get chunk"⟩

/-- The second lock acquisition of `get_chunk`. -/
def resolveChunk (self : MetadataStore) (found : String × MetaChunk) :
    Except Status Proto.GetChunkResponse :=
  match self.resolveStorageNodes found.2.storageNodes with
  | .error status => .error status
  | .ok storageNodes => .ok ⟨found.1, found.2.checksum, storageNodes⟩

end MetadataStore

/-- `get_chunk` looks up first, and resolves then. -/
theorem getChunk_halves (node : StorageMetadataImpl) (chunkId : UInt64) :
    node.getChunk chunkId =
      match node.metadataStore.lookupChunk chunkId with
      | .error status => .error status
      | .ok found => node.metadataStore.resolveChunk found := by
  unfold StorageMetadataImpl.getChunk MetadataStore.lookupChunk MetadataStore.resolveChunk
  cases node.metadataStore.getChunk chunkId with
  | ok found => rfl
  | error error =>
      rcases error with ⟨kind, message⟩
      cases kind <;> rfl

/-- What a lookup returns depends on the registry and on the records of the listed chunks. -/
theorem resolveStorageNodes_congr {s s' : MetadataStore} (hnodes : s'.storageNodes = s.storageNodes)
    (nodeIds : List UInt64) : s'.resolveStorageNodes nodeIds = s.resolveStorageNodes nodeIds := by
  induction nodeIds with
  | nil => rfl
  | cons nodeId nodeIds ih => simp only [MetadataStore.resolveStorageNodes, hnodes, ih]

/-- What a response says depends on the records and the registry. -/
theorem resolveChunks_congr {s s' : MetadataStore} (hnodes : s'.storageNodes = s.storageNodes)
    {ids : List UInt64} (hids : ∀ id ∈ ids, s'.chunks[id]? = s.chunks[id]?) :
    s'.resolveChunks ids = s.resolveChunks ids := by
  induction ids with
  | nil => rfl
  | cons id ids ih =>
      have hrest := ih fun other hother => hids other (List.mem_cons_of_mem id hother)
      simp only [MetadataStore.resolveChunks, hids id List.mem_cons_self, hrest,
        resolveStorageNodes_congr hnodes]

/-! ## Stores in service -/

/-- Every recorded replica is registered. -/
def Registered (s : MetadataStore) : Prop :=
  ∀ (id : UInt64) (chunk : MetaChunk), s.chunks[id]? = some chunk →
    ∀ nodeId ∈ chunk.storageNodes, nodeId ∈ s.storageNodes

/-- The registry stays, and so does the registration of all replicas. -/
def KeepsRegistered (s m : MetadataStore) : Prop :=
  m.storageNodes = s.storageNodes ∧ (Registered s → Registered m)

theorem KeepsRegistered.refl (s : MetadataStore) : KeepsRegistered s s :=
  ⟨rfl, id⟩

/-- A save does not matter. -/
theorem KeepsRegistered.save {lib : External} {io : SaveIo} {s m : MetadataStore}
    (h : KeepsRegistered s m) : KeepsRegistered s (m.save lib io).2 := by
  unfold KeepsRegistered Registered at h ⊢
  rwa [save_storageNodes, save_chunks]

/-- Records that remain stay as they are. -/
theorem KeepsRegistered.of_subset {s m : MetadataStore} (hnodes : m.storageNodes = s.storageNodes)
    (hchunks : ∀ (id : UInt64) (chunk : MetaChunk), m.chunks[id]? = some chunk →
      s.chunks[id]? = some chunk) : KeepsRegistered s m := by
  refine ⟨hnodes, fun h id chunk hchunk => ?_⟩
  rw [hnodes]
  exact h id chunk (hchunks id chunk hchunk)

theorem KeepsRegistered.insert {s m : MetadataStore} {id : UInt64} {chunk : MetaChunk}
    (hnodes : m.storageNodes = s.storageNodes) (hchunks : m.chunks = s.chunks.insert id chunk)
    (hchunk : Registered s → ∀ nodeId ∈ chunk.storageNodes, nodeId ∈ s.storageNodes) :
    KeepsRegistered s m := by
  refine ⟨hnodes, fun h other found hfound => ?_⟩
  rw [hnodes]
  rw [hchunks] at hfound
  by_cases heq : other = id
  · subst heq
    rw [← HashMap.getElem?_insert_same _ hfound]
    exact hchunk h
  · rw [HashMap.getElem?_insert_of_ne _ _ heq] at hfound
    exact h other found hfound

/-- A chosen storage node is registered. -/
theorem chooseStorageNode_registered {s : MetadataStore} (hkeyed : RegistryKeyed s.storageNodes)
    {pick : Nat} {node : MetaStorageNode} (h : s.chooseStorageNode pick = some node) :
    node.id ∈ s.storageNodes := by
  rcases HashMap.mem_valueList.mp (chooseStorageNode_mem h) with ⟨id, hid⟩
  rw [hkeyed id node hid]
  exact HashMap.mem_iff_exists_getElem?.mpr ⟨node, hid⟩

theorem keepsRegistered_new {s m : MetadataStore} {id nodeId : UInt64} {checksum : UInt32}
    {name : String} (hnodes : m.storageNodes = s.storageNodes)
    (hchunks : m.chunks =
      s.chunks.insert id ((MetaChunk.new id checksum name).addStorageNode nodeId))
    (hnode : nodeId ∈ s.storageNodes) : KeepsRegistered s m := by
  refine .insert hnodes hchunks fun _ other hother => ?_
  have heq : other = nodeId := by simpa [MetaChunk.addStorageNode, MetaChunk.new] using hother
  rw [heq]
  exact hnode

/-- The calls of the handlers that change objects and chunks. -/
def Op.Serves : Op → Prop
  | .putObject .. | .putChunk .. | .allocateChunk .. | .confirmChunk .. | .deleteChunk _
  | .deleteObject _ | .updateObjectChecksum .. | .addChunkReplica .. => True
  | _ => False

/-- Requests leave replicas on registered nodes. -/
theorem Op.Serves.keepsRegistered {lib : External} {io : SaveIo} {op : Op} (hop : op.Serves)
    {s s' : MetadataStore} {result : IoResult Unit} (hkeyed : RegistryKeyed s.storageNodes)
    (happly : op.apply lib io s = some (result, s')) : KeepsRegistered s s' := by
  have hresult : ∀ outcome, op.apply lib io s = some outcome → outcome.2 = s' := by
    intro outcome houtcome
    rw [happly] at houtcome
    cases houtcome
    rfl
  cases op with
  | putObject checksum name =>
      rw [← hresult _ rfl]
      rcases MetadataStore.putObject_effect lib io s checksum name with
        ⟨_, _, heffect⟩ | ⟨_, heffect⟩ <;> rw [heffect]
      · exact .refl s
      · exact .save (.of_subset rfl fun _ _ hchunk => hchunk)
  | updateObjectChecksum name checksum totalSize =>
      rw [← hresult _ rfl]
      rcases MetadataStore.updateObjectChecksum_effect lib io s name checksum totalSize with
        ⟨_, heffect⟩ | ⟨_, _, heffect⟩ <;> rw [heffect]
      · exact .refl s
      · exact .save (.of_subset rfl fun _ _ hchunk => hchunk)
  | deleteObject name =>
      rw [← hresult _ rfl]
      rcases MetadataStore.deleteObject_effect lib io s name with
        ⟨_, heffect⟩ | ⟨_, _, heffect⟩ <;> rw [heffect]
      · exact .refl s
      · exact .save (.of_subset rfl fun _ _ hchunk => HashMap.getElem?_of_foldl_erase hchunk)
  | deleteChunk id =>
      rw [← hresult _ rfl]
      rcases MetadataStore.deleteChunk_effect lib io s id with
        ⟨_, heffect⟩ | ⟨_, _, ⟨_, heffect⟩ | ⟨_, _, heffect⟩⟩ <;> rw [heffect]
      · exact .refl s
      · exact .of_subset rfl fun _ _ hchunk => HashMap.getElem?_of_erase hchunk
      · exact .save (.of_subset rfl fun _ _ hchunk => HashMap.getElem?_of_erase hchunk)
  | putChunk draws pick name checksum =>
      rcases Option.map_eq_some_iff.mp happly with ⟨outcome, houtcome, heq⟩
      rcases MetadataStore.putChunk_effect houtcome with
        ⟨_, rfl⟩ | ⟨id, node, _, hnode, ⟨_, rfl⟩ | ⟨object, _, rfl⟩⟩
      · cases heq
        exact .refl s
      · cases heq
        exact keepsRegistered_new rfl rfl (chooseStorageNode_registered hkeyed hnode)
      · rw [discard_saveThen] at heq
        rw [show s' = _ from (congrArg Prod.snd heq).symm]
        exact .save (keepsRegistered_new rfl rfl (chooseStorageNode_registered hkeyed hnode))
  | allocateChunk draws pick name =>
      rcases Option.map_eq_some_iff.mp happly with ⟨outcome, houtcome, heq⟩
      rcases MetadataStore.allocateChunk_effect houtcome with ⟨_, rfl⟩ | ⟨id, node, _, _, rfl⟩
      · cases heq
        exact .refl s
      · cases heq
        exact .insert rfl rfl (by simp [MetaChunk.newPending])
  | confirmChunk id name checksum nodeId =>
      rw [← hresult _ rfl]
      rcases MetadataStore.confirmChunk_effect lib io s id name checksum nodeId with
        ⟨_, heffect⟩ | ⟨_, _, hnode, _, heffect⟩ <;> rw [heffect]
      · exact .refl s
      · exact .save (keepsRegistered_new rfl rfl hnode)
  | addChunkReplica id nodeId =>
      rw [← hresult _ rfl]
      rcases MetadataStore.addChunkReplica_effect lib io s id nodeId with
        ⟨_, heffect⟩ | ⟨chunk, hchunk, hnode, _, _, heffect⟩ <;> rw [heffect]
      · exact .refl s
      · refine .save (.insert rfl rfl fun h other hother => ?_)
        simp only [MetaChunk.addStorageNode, List.mem_append, List.mem_singleton] at hother
        rcases hother with hold | rfl
        · exact h id chunk hchunk other hold
        · exact hnode
  | _ => exact absurd hop id

/-- Requests keep the maps intact. -/
theorem Op.Serves.integrity {lib : External} {io : SaveIo} {op : Op} (hop : op.Serves)
    {s s' : MetadataStore} {result : IoResult Unit} (h : Integrity s.maps)
    (happly : op.apply lib io s = some (result, s')) : Integrity s'.maps := by
  cases op.apply_cases lib s with
  | drawing hnone =>
      rw [hnone io] at happly
      cases happly
  | saves hedits _ hsave =>
      rw [hsave io] at happly
      rw [show s' = _ from (congrArg Prod.snd (Option.some.inj happly)).symm, save_maps]
      exact hedits.preserves (P := fun m => Integrity m.maps)
        (fun _ _ hedit => integrity_edit hedit) h
  | ingests objects chunks hpeer hsave =>
      cases op with
      | ingestPartition _ _ => exact absurd hop id
      | _ => exact absurd hpeer id
  | unchanged hsame =>
      rw [hsame io] at happly
      cases happly
      exact h
  | side result' hside _ hresult =>
      rw [hresult io] at happly
      cases happly
      exact integrity_sideEdit hside h

/-- A store with integrity, all of whose replicas are in the registry. -/
structure Sound (registry : HashMap UInt64 MetaStorageNode) (s : MetadataStore) : Prop where
  integrity : Integrity s.maps
  registered : Registered s
  registry_eq : s.storageNodes = registry

/-- Requests keep the store sound. -/
theorem Sound.apply {registry : HashMap UInt64 MetaStorageNode} (hkeyed : RegistryKeyed registry)
    {lib : External} {io : SaveIo} {op : Op} (hop : op.Serves) {s s' : MetadataStore}
    {result : IoResult Unit} (h : Sound registry s)
    (happly : op.apply lib io s = some (result, s')) : Sound registry s' := by
  have hkeeps := hop.keepsRegistered (by rw [h.registry_eq]; exact hkeyed) happly
  constructor
  · exact hop.integrity h.integrity happly
  · exact hkeeps.2 h.registered
  · exact hkeeps.1.trans h.registry_eq

/-! ## Calls that leave an object alone -/

/-- While `get_object` holds the record `object` of `name`: the call removes no listed chunk,
and adds a replica to one only if the record in the store is still the same. -/
def Op.Spares (s : MetadataStore) (name : String) (object : MetaObject) : Op → Prop
  | .deleteChunk id => id ∉ object.chunks
  | .deleteObject name' => name' = name → object.chunks = []
  | .addChunkReplica id _ => id ∈ object.chunks → s.objects[name]? = some object
  | _ => True

/-- The records of the listed chunks are the same, or the store holds the object itself. -/
theorem Op.Outcome.spares {s m : MetadataStore} {op : Op} (hop : op.Serves)
    (houtcome : op.Outcome s m) {name : String} {object : MetaObject}
    (hspares : op.Spares s name object) (hintegrity : Integrity s.maps)
    (hlisted : ∀ id ∈ object.chunks, s.maps.Confirms id name) :
    (∀ id ∈ object.chunks, m.chunks[id]? = s.chunks[id]?) ∨
      m.objects[name]? = some object ∧ ∀ id ∈ object.chunks, m.maps.Confirms id name := by
  cases houtcome with
  | unchanged => exact .inl fun _ _ => rfl
  | create checksum hname => exact .inl fun _ _ => rfl
  | @orphan draws pick name' checksum id nodeId hid =>
      left
      intro other hother
      have hne : other ≠ id := (hlisted other hother).ne (by simp [MetadataStore.maps, hid])
      exact HashMap.getElem?_insert_of_ne _ _ hne
  | @put draws pick name' checksum id nodeId object' hid hname =>
      left
      intro other hother
      have hne : other ≠ id := (hlisted other hother).ne (by simp [MetadataStore.maps, hid])
      exact HashMap.getElem?_insert_of_ne _ _ hne
  | @reserve draws pick name' id hid =>
      left
      intro other hother
      have hne : other ≠ id := (hlisted other hother).ne (by simp [MetadataStore.maps, hid])
      exact HashMap.getElem?_insert_of_ne _ _ hne
  | @confirm id nodeId name' checksum object' hid hname =>
      left
      intro other hother
      exact HashMap.getElem?_insert_of_ne _ _ ((hlisted other hother).ne hid)
  | dropOrphan hid hname =>
      left
      intro other hother
      exact HashMap.getElem?_erase_of_ne _ fun heq => hspares (heq ▸ hother)
  | dropChunk hid hname =>
      left
      intro other hother
      exact HashMap.getElem?_erase_of_ne _ fun heq => hspares (heq ▸ hother)
  | @dropObject name' object' hname =>
      left
      intro other hother
      have hunlisted : other ∉ object'.chunks := by
        intro hmem
        rcases hlisted other hother with ⟨chunk, hchunk, _, hnamed⟩
        rcases hintegrity.confirms hname hmem with ⟨chunk', hchunk', _, hnamed'⟩
        rw [hchunk] at hchunk'
        cases hchunk'
        have hnone := hspares (hnamed'.symm.trans hnamed)
        simp [hnone] at hother
      exact (HashMap.getElem?_foldl_erase _ _ _).trans (if_neg hunlisted)
  | setChecksum checksum totalSize hname => exact .inl fun _ _ => rfl
  | @addReplica id nodeId chunk hid hnew hroom =>
      by_cases hmem : id ∈ object.chunks
      · right
        refine ⟨hspares hmem, fun other hother => ?_⟩
        have hafter := integrity_addReplica hintegrity nodeId hid
        exact hafter.confirms (hspares hmem) hother
      · left
        intro other hother
        exact HashMap.getElem?_insert_of_ne _ _ fun heq => hmem (heq ▸ hother)
  | dropObjects names => exact absurd hop id
  | ingest objects chunks => exact absurd hop id

/-! ## Reads in progress -/

/-- A lookup, of an object or of a chunk. -/
inductive ReadRequest where
  | object (name : String)
  | chunk (chunkId : UInt64)

/-- The answer to a lookup. -/
inductive ReadResponse where
  | object (response : Except Status Proto.GetObjectResponse)
  | chunk (response : Except Status Proto.GetChunkResponse)

/-- The answer to a request that sees one state of the store only. -/
def ReadRequest.respond (s : MetadataStore) : ReadRequest → ReadResponse
  | .object name => .object (StorageMetadataImpl.getObject ⟨s, ∅⟩ name)
  | .chunk chunkId => .chunk (StorageMetadataImpl.getChunk ⟨s, ∅⟩ chunkId)

/-- How far a call is: what it holds between its two locks, and its answer. -/
inductive ReadPhase where
  | invoked
  | holdsObject (object : MetaObject)
  | holdsChunk (found : String × MetaChunk)
  | answered (response : ReadResponse)

/-- The first lock acquisition. -/
def ReadRequest.lookup (s : MetadataStore) : ReadRequest → ReadPhase
  | .object name =>
      match s.lookupObject name with
      | .error status => .answered (.object (.error status))
      | .ok record => .holdsObject record
  | .chunk chunkId =>
      match s.lookupChunk chunkId with
      | .error status => .answered (.chunk (.error status))
      | .ok found => .holdsChunk found

/-- The second lock acquisition. -/
def ReadPhase.resolve (s : MetadataStore) : ReadPhase → ReadPhase
  | .holdsObject object => .answered (.object (s.resolveObject object))
  | .holdsChunk found => .answered (.chunk (s.resolveChunk found))
  | phase => phase

/-- A call in progress, with the states of the store since its invocation. -/
structure Read where
  request : ReadRequest
  phase : ReadPhase
  seen : List MetadataStore

/-- The store has changed to `s`. -/
def Read.sees (s : MetadataStore) (read : Read) : Read :=
  { read with seen := s :: read.seen }

/-- The store of a node and the reads in progress. -/
structure Serving where
  store : MetadataStore
  reads : List Read

/-- The steps of reads, and calls that change the store. -/
inductive ServingStep (lib : External) (allowed : Serving → Op → Prop) :
    Serving → Serving → Prop where
  | invoke {t : Serving} (request : ReadRequest) :
      ServingStep lib allowed t
        { t with reads := ⟨request, .invoked, [t.store]⟩ :: t.reads }
  | lookup {t : Serving} {request : ReadRequest} {seen : List MetadataStore}
      {before after : List Read} (hread : t.reads = before ++ ⟨request, .invoked, seen⟩ :: after) :
      ServingStep lib allowed t
        { t with reads := before ++ ⟨request, request.lookup t.store, seen⟩ :: after }
  | resolve {t : Serving} {request : ReadRequest} {phase : ReadPhase} {seen : List MetadataStore}
      {before after : List Read} (hread : t.reads = before ++ ⟨request, phase, seen⟩ :: after)
      (hphase : phase ≠ .invoked) :
      ServingStep lib allowed t
        { t with reads := before ++ ⟨request, phase.resolve t.store, seen⟩ :: after }
  | finish {t : Serving} {request : ReadRequest} {response : ReadResponse}
      {seen : List MetadataStore} {before after : List Read}
      (hread : t.reads = before ++ ⟨request, .answered response, seen⟩ :: after) :
      ServingStep lib allowed t { t with reads := before ++ after }
  | serve {t : Serving} {op : Op} {io : SaveIo} {result : IoResult Unit} {store : MetadataStore}
      (hop : op.Serves) (hallowed : allowed t op)
      (happly : op.apply lib io t.store = some (result, store)) :
      ServingStep lib allowed t ⟨store, t.reads.map (Read.sees store)⟩

/-- A run from a store without reads in progress. -/
abbrev ServingRun (lib : External) (allowed : Serving → Op → Prop) (start : MetadataStore)
    (t : Serving) : Prop :=
  Relation.ReflTransGen (ServingStep lib allowed) ⟨start, []⟩ t

/-- The call spares every object that a read holds between its locks. -/
def sparesReads (t : Serving) (op : Op) : Prop :=
  ∀ read ∈ t.reads, ∀ name object, read.request = .object name →
    read.phase = .holdsObject object → op.Spares t.store name object

/-! ## What a read holds -/

/-- The answer is that of one state of the store since the invocation. -/
def Read.Consistent (read : Read) (response : ReadResponse) : Prop :=
  ∃ s ∈ read.seen, response = read.request.respond s

/-- What a read holds is still as in one of the states that it has seen. -/
def Read.Holds (s : MetadataStore) (read : Read) : Prop :=
  match read.phase with
  | .invoked => True
  | .holdsObject object => ∃ name, read.request = .object name ∧
      (∀ id ∈ object.chunks, s.maps.Confirms id name) ∧
      ∃ before ∈ read.seen, before.objects[name]? = some object ∧
        ∀ id ∈ object.chunks, before.chunks[id]? = s.chunks[id]?
  | .holdsChunk found => ∃ chunkId, read.request = .chunk chunkId ∧
      ∃ before ∈ read.seen, before.lookupChunk chunkId = .ok found
  | .answered response => read.Consistent response

/-- The invariant of a read. -/
structure Read.Ok (registry : HashMap UInt64 MetaStorageNode) (s : MetadataStore) (read : Read) :
    Prop where
  current : s ∈ read.seen
  seen : ∀ before ∈ read.seen, Sound registry before
  holds : read.Holds s

/-- The invariant. -/
structure Serving.Ok (registry : HashMap UInt64 MetaStorageNode) (t : Serving) : Prop where
  sound : Sound registry t.store
  reads : ∀ read ∈ t.reads, read.Ok registry t.store

variable {registry : HashMap UInt64 MetaStorageNode} {lib : External}

/-- What has been looked up is stored. -/
theorem objects_of_lookupObject {s : MetadataStore} {name : String} {object : MetaObject}
    (h : s.lookupObject name = .ok object) : s.objects[name]? = some object := by
  cases hname : s.objects[name]? with
  | none => simp [MetadataStore.lookupObject, MetadataStore.getObject, hname] at h
  | some found =>
      rw [lookupObject_eq hname] at h
      cases h
      rfl

/-- After the first lock. -/
theorem holds_lookup {s : MetadataStore} (hintegrity : Integrity s.maps) {request : ReadRequest}
    {seen : List MetadataStore} (hseen : s ∈ seen) :
    (Read.mk request (request.lookup s) seen).Holds s := by
  cases request with
  | object name =>
      cases hlookup : s.lookupObject name with
      | error status =>
          simp only [ReadRequest.lookup, hlookup]
          exact ⟨s, hseen, by simp [ReadRequest.respond, StorageMetadataImpl.getObject, hlookup]⟩
      | ok object =>
          simp only [ReadRequest.lookup, hlookup]
          have hname := objects_of_lookupObject hlookup
          exact ⟨name, rfl, fun id hid => hintegrity.confirms hname hid, s, hseen, hname,
            fun _ _ => rfl⟩
  | chunk chunkId =>
      cases hlookup : s.lookupChunk chunkId with
      | error status =>
          simp only [ReadRequest.lookup, hlookup]
          exact ⟨s, hseen, by simp [ReadRequest.respond, getChunk_halves, hlookup]⟩
      | ok found =>
          simp only [ReadRequest.lookup, hlookup]
          exact ⟨chunkId, rfl, s, hseen, hlookup⟩

/-- After the second lock. -/
theorem holds_resolve {s : MetadataStore} {read : Read} (hphase : read.phase ≠ .invoked)
    (hregistry : ∀ before ∈ read.seen, before.storageNodes = s.storageNodes)
    (h : read.Holds s) : (Read.mk read.request (read.phase.resolve s) read.seen).Holds s := by
  rcases read with ⟨request, phase, seen⟩
  cases phase with
  | invoked => exact absurd rfl hphase
  | answered response => exact h
  | holdsObject object =>
      rcases h with ⟨name, rfl, _, before, hbefore, hname, hchunks⟩
      refine ⟨before, hbefore, ?_⟩
      have hresolve := resolveChunks_congr (hregistry before hbefore) hchunks
      simp [ReadRequest.respond, StorageMetadataImpl.getObject, lookupObject_eq hname,
        MetadataStore.resolveObject, hresolve]
  | holdsChunk found =>
      rcases h with ⟨chunkId, rfl, before, hbefore, hlookup⟩
      refine ⟨before, hbefore, ?_⟩
      have hresolve := resolveStorageNodes_congr (hregistry before hbefore) found.2.storageNodes
      simp [ReadRequest.respond, getChunk_halves, hlookup, MetadataStore.resolveChunk, hresolve]

/-- After a call that spares what is held. -/
theorem Read.Holds.sees {read : Read} {s s' : MetadataStore} {op : Op} {io : SaveIo}
    {result : IoResult Unit} (h : read.Holds s) (hop : op.Serves) (hintegrity : Integrity s.maps)
    (happly : op.apply lib io s = some (result, s'))
    (hspares : ∀ name object, read.request = .object name → read.phase = .holdsObject object →
      op.Spares s name object) : (read.sees s').Holds s' := by
  rcases read with ⟨request, phase, seen⟩
  cases phase with
  | invoked => trivial
  | answered response =>
      rcases h with ⟨before, hbefore, hresponse⟩
      exact ⟨before, List.mem_cons_of_mem s' hbefore, hresponse⟩
  | holdsChunk found =>
      rcases h with ⟨chunkId, hrequest, before, hbefore, hlookup⟩
      exact ⟨chunkId, hrequest, before, List.mem_cons_of_mem s' hbefore, hlookup⟩
  | holdsObject object =>
      rcases h with ⟨name, rfl, hlisted, before, hbefore, hname, hchunks⟩
      rcases Op.apply_outcome happly with ⟨m, houtcome, hmaps⟩
      have hmapsObjects : s'.objects = m.objects := congrArg Maps.objects hmaps
      have hmapsChunks : s'.chunks = m.chunks := congrArg Maps.chunks hmaps
      refine ⟨name, rfl, ?_⟩
      rcases houtcome.spares hop (hspares name object rfl rfl) hintegrity hlisted with
        hsame | ⟨hheld, hconfirms⟩
      · constructor
        · intro id hid
          rcases hlisted id hid with ⟨chunk, hchunk, hrest⟩
          refine ⟨chunk, ?_, hrest⟩
          rw [hmaps]
          exact (hsame id hid).trans hchunk
        · refine ⟨before, List.mem_cons_of_mem s' hbefore, hname, fun id hid => ?_⟩
          rw [hmapsChunks, hsame id hid]
          exact hchunks id hid
      · constructor
        · rw [hmaps]
          exact hconfirms
        · refine ⟨s', List.mem_cons_self, ?_, fun _ _ => rfl⟩
          rw [hmapsObjects]
          exact hheld

/-- After a step of the read itself. -/
theorem Read.Ok.of_holds {read : Read} {s : MetadataStore} {phase : ReadPhase}
    (h : read.Ok registry s) (hholds : (Read.mk read.request phase read.seen).Holds s) :
    (Read.mk read.request phase read.seen).Ok registry s :=
  ⟨h.current, h.seen, hholds⟩

/-- A step keeps what the reads hold valid. -/
theorem Serving.Ok.step (hkeyed : RegistryKeyed registry) {t t' : Serving}
    (h : t.Ok registry) (hstep : ServingStep lib sparesReads t t') : t'.Ok registry := by
  have hreads := h.reads
  cases hstep with
  | invoke request =>
      refine ⟨h.sound, List.forall_mem_cons.mpr ⟨?_, hreads⟩⟩
      refine ⟨List.mem_singleton_self _, fun before hbefore => ?_, trivial⟩
      rw [List.mem_singleton.mp hbefore]
      exact h.sound
  | lookup hread =>
      rw [hread, List.forall_mem_append, List.forall_mem_cons] at hreads
      rcases hreads with ⟨hearly, hself, hlate⟩
      refine ⟨h.sound, ?_⟩
      rw [List.forall_mem_append, List.forall_mem_cons]
      exact ⟨hearly, hself.of_holds (holds_lookup h.sound.integrity hself.current), hlate⟩
  | resolve hread hphase =>
      rw [hread, List.forall_mem_append, List.forall_mem_cons] at hreads
      rcases hreads with ⟨hearly, hself, hlate⟩
      have hregistry := fun before hbefore =>
        (hself.seen before hbefore).registry_eq.trans h.sound.registry_eq.symm
      refine ⟨h.sound, ?_⟩
      rw [List.forall_mem_append, List.forall_mem_cons]
      exact ⟨hearly, hself.of_holds (holds_resolve hphase hregistry hself.holds), hlate⟩
  | finish hread =>
      rw [hread, List.forall_mem_append, List.forall_mem_cons] at hreads
      refine ⟨h.sound, ?_⟩
      rw [List.forall_mem_append]
      exact ⟨hreads.1, hreads.2.2⟩
  | @serve op io result store hop hallowed happly =>
      have hsound := h.sound.apply hkeyed hop happly
      refine ⟨hsound, fun read hread => ?_⟩
      rcases List.mem_map.mp hread with ⟨old, hold, rfl⟩
      have hok := hreads old hold
      refine ⟨List.mem_cons_self, List.forall_mem_cons.mpr ⟨hsound, hok.seen⟩, ?_⟩
      exact hok.holds.sees hop h.sound.integrity happly (hallowed old hold)

/-- So does a run. -/
theorem ServingRun.ok (hkeyed : RegistryKeyed registry) {start : MetadataStore}
    (hstart : Sound registry start) {t : Serving} (hrun : ServingRun lib sparesReads start t) :
    t.Ok registry := by
  induction hrun with
  | refl => exact ⟨hstart, by simp⟩
  | tail _ hlast ih => exact ih.step hkeyed hlast

/-- A lookup that sees one such store succeeds, or there is no such object. -/
theorem Sound.getObject {s : MetadataStore} (h : Sound registry s) {name : String}
    {status : Status} (herror : StorageMetadataImpl.getObject ⟨s, ∅⟩ name = .error status) :
    status.code = .notFound := by
  cases hname : s.objects[name]? with
  | none =>
      simp only [StorageMetadataImpl.getObject, MetadataStore.lookupObject, MetadataStore.getObject,
        hname] at herror
      cases herror
      rfl
  | some object =>
      have hresolvable : Resolvable s object.chunks := by
        intro id hid
        rcases h.integrity.confirms hname hid with ⟨chunk, hchunk, _⟩
        exact ⟨chunk, hchunk, h.registered id chunk hchunk⟩
      rw [(getObject_eq_ok_iff hname).mpr ⟨hresolvable, rfl⟩] at herror
      cases herror

/-- In every run in which no call disturbs an object between the two locks of a `get_object`,
the answer of a read is the answer that one state of the store since its invocation gives.  In
particular `get_object` fails for an object that is not stored only. -/
theorem reads_consistent (lib : External) (start : MetadataStore)
    (hintegrity : Integrity start.maps) (hkeyed : RegistryKeyed start.storageNodes)
    (hregistered : Registered start) (t : Serving) (hrun : ServingRun lib sparesReads start t)
    (read : Read) (hread : read ∈ t.reads) (response : ReadResponse)
    (hphase : read.phase = .answered response) :
    (∃ s ∈ read.seen, response = read.request.respond s) ∧
      ∀ status, response = .object (.error status) → status.code = .notFound := by
  have hok := (hrun.ok hkeyed ⟨hintegrity, hregistered, rfl⟩).reads read hread
  have hconsistent : read.Consistent response := by
    have hholds := hok.holds
    unfold Read.Holds at hholds
    rwa [hphase] at hholds
  refine ⟨hconsistent, ?_⟩
  rintro status rfl
  rcases hconsistent with ⟨s, hs, hresponse⟩
  cases hrequest : read.request with
  | object name =>
      rw [hrequest] at hresponse
      have herror := ReadResponse.object.inj hresponse
      exact (hok.seen s hs).getObject herror.symm
  | chunk chunkId =>
      rw [hrequest] at hresponse
      cases hresponse

/-! ## A call between the locks -/

/-- A store with an object of one chunk. -/
def oneChunkStore : MetadataStore :=
  (MetadataStore.fresh MetaFiles.empty).afterCalls jsonLib
    [.constructStorageNode [1] "http://node-a:50051", .putObject 7 "a", .putChunk [10] 0 "a" 5]

theorem oneChunkStore_reachable : Reachable jsonLib localEvent oneChunkStore := by
  refine (Reachable.start jsonLib localEvent).afterCalls ?_
  simp [localEvent, Op.FromPeer]

theorem oneChunkStore_registered : Registered oneChunkStore := by
  have hall : (oneChunkStore.chunks.valueList.all fun chunk =>
      chunk.storageNodes.all fun nodeId => oneChunkStore.storageNodes.contains nodeId) = true := by
    decide +kernel
  intro id chunk hchunk nodeId hnode
  have hnodes := List.all_eq_true.mp hall chunk (HashMap.mem_valueList.mpr ⟨id, hchunk⟩)
  exact Std.ExtTreeMap.mem_iff_contains.mpr (List.all_eq_true.mp hnodes nodeId hnode)

/-- What `get_object` holds after its first lock. -/
def heldObject : MetaObject := ⟨"a", 7, [10], 0⟩

theorem oneChunkStore_lookup :
    (ReadRequest.object "a").lookup oneChunkStore = .holdsObject heldObject := by
  have hlookup : oneChunkStore.lookupObject "a" = .ok heldObject := by decide +kernel
  simp only [ReadRequest.lookup, hlookup]

/-- Between its locks. -/
def heldRead : Serving :=
  ⟨oneChunkStore, [⟨.object "a", .holdsObject heldObject, [oneChunkStore]⟩]⟩

/-- A read that holds an object between its locks. -/
theorem heldRead_run (allowed : Serving → Op → Prop) :
    ServingRun jsonLib allowed oneChunkStore heldRead := by
  have hinvoked : ServingRun jsonLib allowed oneChunkStore
      ⟨oneChunkStore, [⟨.object "a", .invoked, [oneChunkStore]⟩]⟩ :=
    .single (.invoke (.object "a"))
  have hlookup := @ServingStep.lookup jsonLib allowed
    ⟨oneChunkStore, [⟨.object "a", .invoked, [oneChunkStore]⟩]⟩ (.object "a") [oneChunkStore] [] []
    rfl
  rw [oneChunkStore_lookup] at hlookup
  exact hinvoked.tail hlookup

/-- The store after one call, which completes. -/
def afterCall (op : Op) : MetadataStore := oneChunkStore.afterCalls jsonLib [op]

/-- The read resolves what it holds after the call. -/
theorem resolvedRead_run {allowed : Serving → Op → Prop} {op : Op} (hop : op.Serves)
    (hallowed : allowed heldRead op)
    (happly : (op.apply jsonLib .completes oneChunkStore).isSome = true) :
    ServingRun jsonLib allowed oneChunkStore ⟨afterCall op,
      [⟨.object "a", .answered (.object ((afterCall op).resolveObject heldObject)),
        [afterCall op, oneChunkStore]⟩]⟩ := by
  rcases Option.isSome_iff_exists.mp happly with ⟨⟨result, store⟩, hstore⟩
  have hafter : afterCall op = store := by
    simp [afterCall, MetadataStore.afterCalls, hstore]
  rw [hafter]
  have hserved := (heldRead_run allowed).tail (.serve hop hallowed hstore)
  exact hserved.tail (@ServingStep.resolve jsonLib allowed _ (.object "a")
    (.holdsObject heldObject) [store, oneChunkStore] [] [] rfl (by simp))

/-- Another chunk joins the object between the locks; the answer is that of the first state. -/
theorem reads_consistent_append :
    ∃ s ∈ [afterCall (.putChunk [20] 0 "a" 6), oneChunkStore],
      ReadResponse.object ((afterCall (.putChunk [20] 0 "a" 6)).resolveObject heldObject) =
        (ReadRequest.object "a").respond s := by
  have hrun := @resolvedRead_run sparesReads (.putChunk [20] 0 "a" 6) trivial
    (fun _ _ _ _ _ _ => trivial) (by decide +kernel)
  exact (reads_consistent jsonLib oneChunkStore
    (by
      rcases oneChunkStore_reachable with ⟨g, hreachable⟩
      exact (hreachable.integrity jsonLib_lawful).1)
    oneChunkStore_reachable.registryKeyed oneChunkStore_registered _ hrun _
    (List.mem_singleton_self _) _ rfl).1

/-- The object is deleted between the locks: `get_object` reports a chunk that is missing. -/
theorem get_object_sees_missing_chunk :
    ∃ t, ServingRun jsonLib (fun _ _ => True) oneChunkStore t ∧ ∃ read ∈ t.reads,
      read.phase = .answered (.object
        (.error ⟨.internal, "chunk 10 referenced by object but not found"⟩)) ∧
      ∀ s ∈ read.seen, read.request.respond s ≠ .object
        (.error ⟨.internal, "chunk 10 referenced by object but not found"⟩) := by
  have hrun := @resolvedRead_run (fun _ _ => True) (.deleteObject "a") trivial trivial
    (by decide +kernel)
  have hanswer : (afterCall (.deleteObject "a")).resolveObject heldObject =
      .error ⟨.internal, "chunk 10 referenced by object but not found"⟩ := by
    decide +kernel
  rw [hanswer] at hrun
  refine ⟨_, hrun, _, List.mem_singleton_self _, rfl, ?_⟩
  have hbefore : StorageMetadataImpl.getObject ⟨oneChunkStore, ∅⟩ "a" ≠
      .error ⟨.internal, "chunk 10 referenced by object but not found"⟩ := by
    decide +kernel
  have hafter : StorageMetadataImpl.getObject ⟨afterCall (.deleteObject "a"), ∅⟩ "a" ≠
      .error ⟨.internal, "chunk 10 referenced by object but not found"⟩ := by
    decide +kernel
  intro s hs hrespond
  have hanswer := ReadResponse.object.inj hrespond
  rcases List.mem_cons.mp hs with rfl | hs
  · exact hafter hanswer
  · rw [List.mem_singleton.mp hs] at hanswer
    exact hbefore hanswer

end StorageMetadata
end ObjectStore
