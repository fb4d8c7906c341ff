import ObjectStore.StorageMetadata.Dispatch

/-!
# Storage metadata - Routing by the chunk index

Requests for a chunk are routed by the receiver's chunk index.  Handlers of several nodes run
at once: a request waits at the receiver, then at the node it is routed to, and a handler
that is done with the store still has to bring the chunk index of its node up to date.

Main definitions:

- `IndexWrite`, `ForwardRequest.indexWrites`: what a handler does to the index.
- `Work`, `Traffic`, `TrafficStep`: requests in flight and the steps that serve them.

Main results:

- Theorem `handleLocally_indexWrites`: the store first and the index later is the handler.
- Theorem `TrafficRun.indexed`: a run adds only entries for objects of the node itself.
- Theorem `chunk_requests_reach_owner_iff`: when a request for a chunk is executed at the
  owner of its object.
-/

namespace ObjectStore
namespace StorageMetadata

/-! ## The index half of a handler -/

/-- One call on the chunk index. -/
inductive IndexWrite where
  | insert (chunkId : UInt64) (objectName : String)
  | remove (chunkId : UInt64)

/-- The index after the call. -/
def IndexWrite.apply (chunkIndex : HashMap UInt64 String) : IndexWrite → HashMap UInt64 String
  | .insert chunkId objectName => chunkIndex.insert chunkId objectName
  | .remove chunkId => chunkIndex.erase chunkId

/-- The calls on the chunk index after a store access that ended in `answer`.  `chunkIds` is
the chunk list that `delete_object` has read before. -/
def ForwardRequest.indexWrites (chunkIds : List UInt64) (answer : Except Status Reply) :
    ForwardRequest → List IndexWrite
  | .putChunk _ _ objectName _ =>
      match answer with
      | .ok (.putChunk response) => [.insert response.chunkId objectName]
      | _ => []
  | .confirmChunk chunkId objectName _ _ =>
      if answer.isOk then [.insert chunkId objectName] else []
  | .deleteObject _ => if answer.isOk then chunkIds.map .remove else []
  | .deleteChunk chunkId => if answer.isOk then [.remove chunkId] else []
  | _ => []

namespace StorageMetadataImpl

/-- The chunk list that `delete_object` reads first. -/
def listedChunks (self : StorageMetadataImpl) (objectName : String) : List UInt64 :=
  match self.metadataStore.getObject objectName with
  | .ok object => object.chunks
  | .error _ => []

/-- The handler of a request that a peer has forwarded, or of one that stays here. -/
def handle (lib : External) (io : SaveIo) (self : StorageMetadataImpl) (forwarded : Bool)
    (request : ForwardRequest) : Outcome :=
  if forwarded then self.handleForwarded lib io request else self.handleLocally lib io request

/-- The store half of the handler. -/
def handleStore (lib : External) (io : SaveIo) (self : StorageMetadataImpl) (forwarded : Bool)
    (request : ForwardRequest) (chunkIds : List UInt64) :
    Option (StorageMetadataImpl × List IndexWrite) :=
  (self.handle lib io forwarded request).map fun result =>
    (self.withStore result.2.metadataStore, request.indexWrites chunkIds result.1)

/-- The index half of the handler. -/
def applyIndex (self : StorageMetadataImpl) (write : IndexWrite) : StorageMetadataImpl :=
  { self with chunkIndex := write.apply self.chunkIndex }

end StorageMetadataImpl

/-- The index half changes the index only. -/
theorem foldl_applyIndex (writes : List IndexWrite) (node : StorageMetadataImpl) :
    writes.foldl StorageMetadataImpl.applyIndex node =
      { node with chunkIndex := writes.foldl IndexWrite.apply node.chunkIndex } := by
  induction writes generalizing node with
  | nil => rfl
  | cons write writes ih =>
      rw [List.foldl_cons, ih]
      rfl

/-- What `delete_object` reads before it deletes. -/
def ForwardRequest.listedChunks (node : StorageMetadataImpl) : ForwardRequest → List UInt64
  | .deleteObject name => node.listedChunks name
  | _ => []

section

variable {lib : External} {io : SaveIo} {node : StorageMetadataImpl}

/-- The handler writes to the chunk index what `indexWrites` says. -/
def WritesIndex (node : StorageMetadataImpl) (request : ForwardRequest) (outcome : Outcome) :
    Prop :=
  ∀ answer after, outcome = some (answer, after) →
    after.chunkIndex = (request.indexWrites (request.listedChunks node) answer).foldl
      IndexWrite.apply node.chunkIndex

/-- A creation does not touch the index. -/
theorem putObject_writesIndex {checksum : UInt32} {name : String} (forwarded : Bool) :
    WritesIndex node (.putObject checksum name)
      (node.handle lib io forwarded (.putObject checksum name)) := by
  cases forwarded with
  | false =>
      rintro _ _ h
      cases h
      unfold StorageMetadataImpl.putObject
      rcases node.metadataStore.putObject lib io checksum name with ⟨⟨kind, message⟩ | _, store⟩
      · cases kind <;> rfl
      · rfl
  | true =>
      rintro _ _ h
      cases h
      unfold StorageMetadataImpl.forwardPutObject
      rcases node.metadataStore.putObject lib io checksum name with ⟨⟨kind, message⟩ | _, store⟩
      · cases kind <;> rfl
      · rfl

/-- A deletion takes the entries of the listed chunks away. -/
theorem deleteObject_writesIndex {name : String} :
    WritesIndex node (.deleteObject name)
      (node.handleLocally lib io (.deleteObject name)) := by
  rintro _ _ h
  cases h
  unfold StorageMetadataImpl.deleteObject
  dsimp only
  rcases node.metadataStore.deleteObject lib io name with ⟨⟨kind, message⟩ | _, store⟩
  · cases kind <;> rfl
  · change _ = (List.map IndexWrite.remove _).foldl IndexWrite.apply _
    rw [List.foldl_map]
    rfl

/-- A new chunk is entered at the node that executes the request. -/
theorem putChunk_writesIndex {draws : List UInt64} {pick : Nat} {name : String}
    {checksum : UInt32} (forwarded : Bool) :
    WritesIndex node (.putChunk draws pick name checksum)
      (node.handle lib io forwarded (.putChunk draws pick name checksum)) := by
  cases forwarded with
  | false =>
      rintro _ _ h
      rcases Option.map_eq_some_iff.mp h with ⟨handler, hhandler, heq⟩
      rcases Option.map_eq_some_iff.mp hhandler with ⟨⟨⟨kind, message⟩ | value, store⟩, _, rfl⟩
      · cases kind <;> cases heq <;> rfl
      · cases heq
        rfl
  | true =>
      rintro _ _ h
      rcases Option.map_eq_some_iff.mp h with ⟨handler, hhandler, heq⟩
      rcases Option.map_eq_some_iff.mp hhandler with ⟨⟨⟨kind, message⟩ | value, store⟩, _, rfl⟩
      · cases kind <;> cases heq <;> rfl
      · cases heq
        rfl

theorem allocateChunk_writesIndex {draws : List UInt64} {pick : Nat} {name : String} :
    WritesIndex node (.allocateChunk draws pick name)
      (node.handleLocally lib io (.allocateChunk draws pick name)) := by
  rintro _ _ h
  rcases Option.map_eq_some_iff.mp h with ⟨handler, hhandler, heq⟩
  rcases Option.map_eq_some_iff.mp hhandler with ⟨⟨_ | _, store⟩, _, rfl⟩
  · cases heq
    rfl
  · cases heq
    rfl

/-- So is a confirmed one. -/
theorem confirmChunk_writesIndex {id : UInt64} {name : String} {checksum : UInt32}
    {nodeId : UInt64} :
    WritesIndex node (.confirmChunk id name checksum nodeId)
      (node.handleLocally lib io (.confirmChunk id name checksum nodeId)) := by
  rintro _ _ h
  cases h
  unfold StorageMetadataImpl.confirmChunk
  rcases node.metadataStore.confirmChunk lib io id name checksum nodeId with
    ⟨⟨kind, message⟩ | _, store⟩
  · cases kind <;> rfl
  · rfl

/-- A deleted chunk loses its entry. -/
theorem deleteChunk_writesIndex {id : UInt64} :
    WritesIndex node (.deleteChunk id) (node.handleLocally lib io (.deleteChunk id)) := by
  rintro _ _ h
  cases h
  unfold StorageMetadataImpl.deleteChunk
  rcases node.metadataStore.deleteChunk lib io id with ⟨⟨kind, message⟩ | _, store⟩
  · cases kind <;> rfl
  · rfl

theorem addChunkReplica_writesIndex {id nodeId : UInt64} :
    WritesIndex node (.addChunkReplica id nodeId)
      (node.handleLocally lib io (.addChunkReplica id nodeId)) := by
  rintro _ _ h
  cases h
  unfold StorageMetadataImpl.addChunkReplica
  rcases node.metadataStore.addChunkReplica lib io id nodeId with ⟨⟨kind, message⟩ | _, store⟩
  · cases kind <;> rfl
  · rfl

/-- Every handler keeps the chunk index in step with the store in the same way. -/
theorem handle_writesIndex (forwarded : Bool) (request : ForwardRequest) :
    WritesIndex node request (node.handle lib io forwarded request) := by
  cases request with
  | putObject checksum name => exact putObject_writesIndex forwarded
  | putChunk draws pick name checksum => exact putChunk_writesIndex forwarded
  | deleteObject name => cases forwarded <;> exact deleteObject_writesIndex
  | allocateChunk draws pick name =>
      cases forwarded <;> exact @allocateChunk_writesIndex lib io node draws pick name
  | confirmChunk id name checksum nodeId => cases forwarded <;> exact confirmChunk_writesIndex
  | deleteChunk id => cases forwarded <;> exact deleteChunk_writesIndex
  | addChunkReplica id nodeId => cases forwarded <;> exact addChunkReplica_writesIndex
  | getObject name => cases forwarded <;> (rintro _ _ h; cases h; rfl)
  | getChunk id => cases forwarded <;> (rintro _ _ h; cases h; rfl)

/-- Without other requests in between, the store half and then the index half of a handler
leave what the handler leaves. -/
theorem handle_halves (forwarded : Bool) (request : ForwardRequest) :
    ((node.handleStore lib io forwarded request (request.listedChunks node)).map fun halves =>
        halves.2.foldl StorageMetadataImpl.applyIndex halves.1) =
      (node.handle lib io forwarded request).map Prod.snd := by
  have hwrites := @handle_writesIndex lib io node forwarded request
  unfold StorageMetadataImpl.handleStore
  cases houtcome : node.handle lib io forwarded request with
  | none => rfl
  | some result =>
      have hindex := hwrites _ _ houtcome
      simp only [Option.map_some, foldl_applyIndex, StorageMetadataImpl.withStore_chunkIndex,
        ← hindex]
      rfl

end

/-! ## Requests in flight -/

/-- A request on its way. -/
inductive Work where
  /-- It has reached the node that the client contacts. -/
  | arrived (node : String) (request : ClientRequest)
  /-- It waits for the store of the node that it was routed to. -/
  | routed (node : String) (forwarded : Bool) (request : ForwardRequest)
  /-- It waits for the store again, after `delete_object` has read the chunk list. -/
  | deleting (node : String) (forwarded : Bool) (name : String) (chunkIds : List UInt64)
  /-- It waits for the chunk index. -/
  | indexing (node : String) (writes : List IndexWrite)

/-- The nodes, and the requests that they have not answered yet. -/
structure Traffic where
  services : Services
  inFlight : List Work

namespace StableCluster

variable {Client : Type} {hash : String → UInt64} (cluster : StableCluster Client hash)

/-- The node that executes a request that a client sends to `node`. -/
def executor (services : Services) (node : String) (request : ForwardRequest) : String :=
  match request.route hash (cluster.manager node) (services node).chunkIndex with
  | .local => node
  | .forward addr => cluster.resolve addr

/-- Whether it is another node than the receiver, by the receiver's choice. -/
def forwards (services : Services) (node : String) (request : ForwardRequest) : Bool :=
  match request.route hash (cluster.manager node) (services node).chunkIndex with
  | .local => false
  | .forward _ => true

/-- A request changes the node that executes it, and no other. -/
theorem send_executor (lib : External) (io : String → SaveIo) (services : Services)
    (node : String) (request : ForwardRequest) :
    cluster.send lib io services node (.forwardable request) =
      reply services (cluster.executor services node request)
        ((services (cluster.executor services node request)).handle lib
          (io (cluster.executor services node request)) (cluster.forwards services node request)
          request) := by
  simp only [send, executor, forwards]
  cases request.route hash (cluster.manager node) (services node).chunkIndex with
  | «local» => rfl
  | forward addr => rfl

/-- One request makes one step, or a new one arrives, or storage nodes come and go. -/
inductive TrafficStep (lib : External) : Traffic → Traffic → Prop where
  | arrive {t : Traffic} {node : String} (request : ClientRequest)
      (hnode : node ∈ cluster.members) :
      TrafficStep lib t { t with inFlight := .arrived node request :: t.inFlight }
  | route {t : Traffic} {node : String} {request : ForwardRequest} {before after : List Work}
      (hwork : t.inFlight = before ++ .arrived node (.forwardable request) :: after) :
      TrafficStep lib t { t with
        inFlight := before ++ .routed (cluster.executor t.services node request)
          (cluster.forwards t.services node request) request :: after }
  | update {t : Traffic} {node name : String} {checksum : UInt32} {totalSize : UInt64}
      {before after : List Work} (io : SaveIo)
      (hwork : t.inFlight =
        before ++ .arrived node (.updateObjectChecksum name checksum totalSize) :: after) :
      TrafficStep lib t
        { services := Function.update t.services node
            ((t.services node).updateObjectChecksum lib io name checksum totalSize).2
          inFlight := before ++ after }
  | list {t : Traffic} {node name : String} {forwarded : Bool} {before after : List Work}
      (hwork : t.inFlight = before ++ .routed node forwarded (.deleteObject name) :: after) :
      TrafficStep lib t { t with
        inFlight := before ++
          .deleting node forwarded name ((t.services node).listedChunks name) :: after }
  | delete {t : Traffic} {node name : String} {forwarded : Bool} {chunkIds : List UInt64}
      {before after : List Work} {io : SaveIo} {service : StorageMetadataImpl}
      {writes : List IndexWrite}
      (hwork : t.inFlight = before ++ .deleting node forwarded name chunkIds :: after)
      (hstore : (t.services node).handleStore lib io forwarded (.deleteObject name) chunkIds =
        some (service, writes)) :
      TrafficStep lib t
        { services := Function.update t.services node service
          inFlight := before ++ .indexing node writes :: after }
  | store {t : Traffic} {node : String} {forwarded : Bool} {request : ForwardRequest}
      {before after : List Work} {io : SaveIo} {service : StorageMetadataImpl}
      {writes : List IndexWrite}
      (hwork : t.inFlight = before ++ .routed node forwarded request :: after)
      (hrequest : ∀ name, request ≠ .deleteObject name)
      (hstore : (t.services node).handleStore lib io forwarded request [] =
        some (service, writes)) :
      TrafficStep lib t
        { services := Function.update t.services node service
          inFlight := before ++ .indexing node writes :: after }
  | index {t : Traffic} {node : String} {write : IndexWrite} {writes : List IndexWrite}
      {before after : List Work}
      (hwork : t.inFlight = before ++ .indexing node (write :: writes) :: after) :
      TrafficStep lib t
        { services := Function.update t.services node ((t.services node).applyIndex write)
          inFlight := before ++ .indexing node writes :: after }
  | answer {t : Traffic} {node : String} {before after : List Work}
      (hwork : t.inFlight = before ++ .indexing node [] :: after) :
      TrafficStep lib t { t with inFlight := before ++ after }
  | registry {t : Traffic} (node : String) (storageNodes : HashMap UInt64 MetaStorageNode) :
      TrafficStep lib t { t with
        services := Function.update t.services node
          ((t.services node).withStore
            { (t.services node).metadataStore with storageNodes := storageNodes }) }

/-- A run from nodes that hold `start`, when no request is in flight. -/
abbrev TrafficRun (lib : External) (start : Services) (t : Traffic) : Prop :=
  Relation.ReflTransGen (cluster.TrafficStep lib) ⟨start, []⟩ t

/-! ## Entries of the index -/

/-- What the request will add to the index of its node are entries for the node's own objects. -/
def OwnWork : Work → Prop
  | .arrived node _ => node ∈ cluster.members
  | .routed node _ request => ∀ name, request.objectName = some name → cluster.ownerOf name = node
  | .deleting _ _ _ _ => True
  | .indexing node writes => ∀ chunkId objectName,
      IndexWrite.insert chunkId objectName ∈ writes → cluster.ownerOf objectName = node

/-- An entry names an object of the node, or has been there from the start. -/
structure Indexed (start : Services) (t : Traffic) : Prop where
  entries : ∀ (node : String) (chunkId : UInt64) (objectName : String),
    (t.services node).chunkIndex[chunkId]? = some objectName →
      cluster.ownerOf objectName = node ∨
        (start node).chunkIndex[chunkId]? = some objectName
  work : ∀ work ∈ t.inFlight, cluster.OwnWork work

/-- A request for an object is executed at its owner. -/
theorem executor_ownerOf {services : Services} {node : String} (hnode : node ∈ cluster.members)
    {request : ForwardRequest} {name : String} (hname : request.objectName = some name) :
    cluster.ownerOf name = cluster.executor services node request := by
  unfold executor
  rw [ForwardRequest.route_of_objectName hname]
  rcases cluster.route_ownerOf hnode name with ⟨heq, hlocal⟩ | ⟨addr, hforward, _, hresolve⟩
  · rw [hlocal, heq]
  · rw [hforward]
    exact hresolve.symm

variable {cluster}

/-- The indexes are all that matters. -/
theorem Indexed.of_sameIndex {start : Services} {t : Traffic} {work : List Work}
    (h : cluster.Indexed start t) {node : String} {service : StorageMetadataImpl}
    (hindex : service.chunkIndex = (t.services node).chunkIndex)
    (hwork : ∀ item ∈ work, cluster.OwnWork item) :
    cluster.Indexed start ⟨Function.update t.services node service, work⟩ := by
  constructor
  · intro other chunkId objectName hentry
    apply h.entries other chunkId objectName
    by_cases heq : other = node
    · subst heq
      simpa [hindex] using hentry
    · simpa [heq] using hentry
  · exact hwork

theorem forall_replace {P : Work → Prop} {before after : List Work} {old new : Work}
    (h : ∀ work ∈ before ++ old :: after, P work) (hnew : P new) :
    ∀ work ∈ before ++ new :: after, P work := by
  simp only [List.forall_mem_append, List.forall_mem_cons] at h ⊢
  exact ⟨h.1, hnew, h.2.2⟩

theorem forall_drop {P : Work → Prop} {before after : List Work} {old : Work}
    (h : ∀ work ∈ before ++ old :: after, P work) : ∀ work ∈ before ++ after, P work := by
  simp only [List.forall_mem_append, List.forall_mem_cons] at h ⊢
  exact ⟨h.1, h.2.2⟩

/-- The store half leaves the index alone, and its writes are for the node's own objects. -/
theorem handleStore_index {lib : External} {io : SaveIo} {node service : StorageMetadataImpl}
    {forwarded : Bool} {request : ForwardRequest} {chunkIds : List UInt64}
    {writes : List IndexWrite}
    (h : node.handleStore lib io forwarded request chunkIds = some (service, writes)) :
    service.chunkIndex = node.chunkIndex ∧
      ∃ answer, writes = request.indexWrites chunkIds answer := by
  rcases Option.map_eq_some_iff.mp h with ⟨result, _, heq⟩
  cases heq
  exact ⟨rfl, result.1, rfl⟩

/-- An entry has just been written, or it was there. -/
theorem applyIndex_entry {node : StorageMetadataImpl} {write : IndexWrite} {chunkId : UInt64}
    {objectName : String}
    (h : (node.applyIndex write).chunkIndex[chunkId]? = some objectName) :
    write = .insert chunkId objectName ∨ node.chunkIndex[chunkId]? = some objectName := by
  cases write with
  | insert id name =>
      by_cases heq : chunkId = id
      · subst heq
        have hname := HashMap.getElem?_insert_same node.chunkIndex h
        exact .inl (by rw [hname])
      · have hold := HashMap.getElem?_insert_of_ne node.chunkIndex name heq
        exact .inr (hold ▸ h)
  | remove id => exact .inr (HashMap.getElem?_of_erase h)

/-- Only the two handlers that record a chunk add an entry, under the name of the request. -/
theorem objectName_of_insert {request : ForwardRequest} {chunkIds : List UInt64}
    {answer : Except Status Reply} {chunkId : UInt64} {objectName : String}
    (h : IndexWrite.insert chunkId objectName ∈ request.indexWrites chunkIds answer) :
    request.objectName = some objectName := by
  cases request with
  | putChunk draws pick name checksum =>
      simp only [ForwardRequest.indexWrites] at h
      split at h
      · simp_all [ForwardRequest.objectName]
      · simp at h
  | confirmChunk id name checksum nodeId =>
      simp only [ForwardRequest.indexWrites] at h
      split at h
      · simp_all [ForwardRequest.objectName]
      · simp at h
  | deleteObject name =>
      simp only [ForwardRequest.indexWrites] at h
      split at h <;> simp at h
  | deleteChunk id =>
      simp only [ForwardRequest.indexWrites] at h
      split at h <;> simp at h
  | _ => simp [ForwardRequest.indexWrites] at h

/-- One step of the traffic. -/
theorem Indexed.step {lib : External} {start : Services} {t t' : Traffic}
    (h : cluster.Indexed start t) (hstep : cluster.TrafficStep lib t t') :
    cluster.Indexed start t' := by
  cases hstep with
  | arrive request hnode =>
      exact ⟨h.entries, List.forall_mem_cons.mpr ⟨hnode, h.work⟩⟩
  | @route node request before after hwork =>
      have hall := h.work
      rw [hwork] at hall
      have hnode : node ∈ cluster.members := hall (.arrived node (.forwardable request)) (by simp)
      refine ⟨h.entries, forall_replace hall ?_⟩
      intro name hname
      exact cluster.executor_ownerOf hnode hname
  | update io hwork =>
      have hall := h.work
      rw [hwork] at hall
      exact h.of_sameIndex updateObjectChecksum_chunkIndex (forall_drop hall)
  | list hwork =>
      have hall := h.work
      rw [hwork] at hall
      exact ⟨h.entries, forall_replace hall trivial⟩
  | delete hwork hstore =>
      have hall := h.work
      rw [hwork] at hall
      rcases handleStore_index hstore with ⟨hindex, answer, rfl⟩
      refine h.of_sameIndex hindex (forall_replace hall ?_)
      intro chunkId objectName hinsert
      simp only [ForwardRequest.indexWrites] at hinsert
      split at hinsert <;> simp at hinsert
  | @store node forwarded request before after io service writes hwork hrequest hstore =>
      have hall := h.work
      rw [hwork] at hall
      rcases handleStore_index hstore with ⟨hindex, answer, rfl⟩
      refine h.of_sameIndex hindex (forall_replace hall ?_)
      intro chunkId objectName hinsert
      have hown : cluster.OwnWork (.routed node forwarded request) := hall _ (by simp)
      exact hown objectName (objectName_of_insert hinsert)
  | @index node write writes before after hwork =>
      have hall := h.work
      rw [hwork] at hall
      have hown : cluster.OwnWork (.indexing node (write :: writes)) := hall _ (by simp)
      constructor
      · intro other chunkId objectName hentry
        by_cases heq : other = node
        · subst heq
          simp only [Function.update_self] at hentry
          rcases applyIndex_entry hentry with rfl | hold
          · exact .inl (hown chunkId objectName List.mem_cons_self)
          · exact h.entries other chunkId objectName hold
        · simp only [Function.update_of_ne heq] at hentry
          exact h.entries other chunkId objectName hentry
      · refine forall_replace hall ?_
        intro chunkId objectName hinsert
        exact hown chunkId objectName (List.mem_cons_of_mem write hinsert)
  | answer hwork =>
      have hall := h.work
      rw [hwork] at hall
      exact ⟨h.entries, forall_drop hall⟩
  | registry node storageNodes => exact h.of_sameIndex rfl h.work

/-- Along a run, the index of a node gains only entries for the node's own objects. -/
theorem TrafficRun.indexed {lib : External} {start : Services} {t : Traffic}
    (hrun : cluster.TrafficRun lib start t) : cluster.Indexed start t := by
  induction hrun with
  | refl => exact ⟨fun _ _ _ hentry => .inr hentry, by simp⟩
  | tail _ hlast ih => exact ih.step hlast

/-! ## Requests one at a time -/

theorem index_all (lib : External) (services : Services) (node : String)
    (writes : List IndexWrite) :
    Relation.ReflTransGen (cluster.TrafficStep lib) ⟨services, [.indexing node writes]⟩
      ⟨Function.update services node
        (writes.foldl StorageMetadataImpl.applyIndex (services node)), []⟩ := by
  induction writes generalizing services with
  | nil =>
      rw [List.foldl_nil, Function.update_eq_self]
      exact .single (@TrafficStep.answer _ _ cluster lib ⟨services, [.indexing node []]⟩ node [] []
        rfl)
  | cons write writes ih =>
      have hwrite := @TrafficStep.index _ _ cluster lib
        ⟨services, [.indexing node (write :: writes)]⟩ node write writes [] [] rfl
      have hrest := ih (Function.update services node ((services node).applyIndex write))
      rw [Function.update_self, Function.update_idem] at hrest
      exact hrest.head hwrite

/-- A request that is sent while no other is in flight. -/
theorem TrafficRun.send {lib : External} {start services services' : Services}
    (hrun : cluster.TrafficRun lib start ⟨services, []⟩) {io : String → SaveIo} {node : String}
    (hnode : node ∈ cluster.members) {request : ClientRequest} {answer : Except Status Reply}
    (hsend : cluster.send lib io services node request = some (answer, services')) :
    cluster.TrafficRun lib start ⟨services', []⟩ := by
  have harrive : cluster.TrafficRun lib start ⟨services, [.arrived node request]⟩ :=
    hrun.tail (.arrive request hnode)
  cases request with
  | updateObjectChecksum name checksum totalSize =>
      cases hsend
      exact harrive.tail (@TrafficStep.update _ _ cluster lib
        ⟨services, [.arrived node (.updateObjectChecksum name checksum totalSize)]⟩ node name
        checksum totalSize [] [] (io node) rfl)
  | forwardable request =>
      rw [send_executor] at hsend
      have hroute := @TrafficStep.route _ _ cluster lib
        ⟨services, [.arrived node (.forwardable request)]⟩ node request [] [] rfl
      have hrouted := harrive.tail hroute
      simp only at hrouted
      generalize cluster.executor services node request = executor at hsend hrouted
      generalize cluster.forwards services node request = forwarded at hsend hrouted
      rcases Option.map_eq_some_iff.mp hsend with ⟨result, hhandle, heq⟩
      cases heq
      have hhalves := @handle_halves lib (io executor) (services executor) forwarded request
      rw [hhandle, Option.map_some] at hhalves
      rcases Option.map_eq_some_iff.mp hhalves with ⟨⟨service, writes⟩, hstore, hresult⟩
      have hstored : cluster.TrafficRun lib start
          ⟨Function.update services executor service, [.indexing executor writes]⟩ := by
        by_cases hdelete : ∃ name, request = .deleteObject name
        · rcases hdelete with ⟨name, rfl⟩
          have hlisted := hrouted.tail (@TrafficStep.list _ _ cluster lib _ executor name forwarded
            [] [] rfl)
          exact hlisted.tail (@TrafficStep.delete _ _ cluster lib _ executor name forwarded
            ((services executor).listedChunks name) [] [] (io executor) service writes rfl hstore)
        · have hnone : request.listedChunks (services executor) = [] := by
            cases request with
            | deleteObject name => exact absurd ⟨name, rfl⟩ hdelete
            | _ => rfl
          rw [hnone] at hstore
          exact hrouted.tail (@TrafficStep.store _ _ cluster lib _ executor forwarded request [] []
            (io executor) service writes rfl (not_exists.mp hdelete) hstore)
      have hindexed := @index_all _ _ cluster lib (Function.update services executor service)
        executor writes
      rw [Function.update_self, Function.update_idem, hresult] at hindexed
      exact hstored.trans hindexed

/-- The nodes after requests that are sent one after the other, with completed saves; a
request whose random numbers do not suffice is left out. -/
def afterRequests (cluster : StableCluster Client hash) (lib : External) (services : Services) :
    List (String × ClientRequest) → Services
  | [] => services
  | (node, request) :: requests =>
      match cluster.send lib (fun _ => .completes) services node request with
      | some (_, services') => afterRequests cluster lib services' requests
      | none => afterRequests cluster lib services requests

/-- Requests that are served one after the other are traffic. -/
theorem TrafficRun.afterRequests {lib : External} {start services : Services}
    (hrun : cluster.TrafficRun lib start ⟨services, []⟩)
    {requests : List (String × ClientRequest)}
    (hrequests : ∀ request ∈ requests, request.1 ∈ cluster.members) :
    cluster.TrafficRun lib start ⟨cluster.afterRequests lib services requests, []⟩ := by
  induction requests generalizing services with
  | nil => exact hrun
  | cons request requests ih =>
      rcases request with ⟨node, request⟩
      have hnode : node ∈ cluster.members := hrequests (node, request) List.mem_cons_self
      have hrest := fun item hitem => hrequests item (List.mem_cons_of_mem _ hitem)
      simp only [StableCluster.afterRequests]
      cases hsend : cluster.send lib (fun _ => .completes) services node request with
      | none => exact ih hrun hrest
      | some outcome => exact ih (hrun.send hnode hsend) hrest

/-! ## Requests for a chunk -/

/-- The index of `node` has had since the start of the run, and still has, an entry that
leads to `owner`. -/
def KeptEntry (cluster : StableCluster Client hash) (start services : Services)
    (node : String) (chunkId : UInt64) (owner : String) : Prop :=
  ∃ objectName : String, (start node).chunkIndex[chunkId]? = some objectName ∧
    (services node).chunkIndex[chunkId]? = some objectName ∧ cluster.ownerOf objectName = owner

/-- Where the index of the receiver leads. -/
theorem executor_chunk {services : Services} {node : String} (hnode : node ∈ cluster.members)
    {request : ForwardRequest} {chunkId : UInt64} (hrequest : request.chunkId = some chunkId) :
    cluster.executor services node request =
      ((services node).chunkIndex[chunkId]?).elim node cluster.ownerOf := by
  have hroute : request.route hash (cluster.manager node) (services node).chunkIndex =
      ((cluster.manager node).routeByChunk hash (services node).chunkIndex chunkId).toOption.getD
        .local := by
    cases request with
    | getChunk _ | deleteChunk _ | addChunkReplica _ _ =>
        cases hrequest
        rw [ForwardRequest.route]
        cases (cluster.manager node).routeByChunk hash (services node).chunkIndex chunkId <;> rfl
    | _ => cases hrequest
  unfold executor
  rw [hroute, ClusterManager.routeByChunk]
  cases hentry : (services node).chunkIndex[chunkId]? with
  | none => rfl
  | some objectName =>
      dsimp only
      rcases cluster.route_ownerOf hnode objectName with
        ⟨heq, hlocal⟩ | ⟨addr, hforward, _, hresolve⟩
      · rw [hlocal]
        exact heq
      · rw [hforward]
        exact hresolve

/-- In every state of a run, a request for a chunk is executed at `owner` exactly when it is
sent to it, or to a node whose index has had the entry from the start.  Nothing that happens
in the run adds such a node, not even that the owner of an object has the chunk as
`Confirmed`. -/
theorem chunk_requests_reach_owner_iff (cluster : StableCluster Client hash) (lib : External)
    (start : Services) (t : Traffic) (hrun : cluster.TrafficRun lib start t)
    (owner : String) (chunkId : UInt64) (node : String) (hnode : node ∈ cluster.members)
    (request : ForwardRequest) (hrequest : request.chunkId = some chunkId) :
    cluster.executor t.services node request = owner ↔
      (node = owner ∧ ∀ other ≠ owner, ¬ cluster.KeptEntry start t.services node chunkId other) ∨
        (node ≠ owner ∧ cluster.KeptEntry start t.services node chunkId owner) := by
  rw [executor_chunk hnode hrequest]
  have hindexed := hrun.indexed
  cases hentry : (t.services node).chunkIndex[chunkId]? with
  | none =>
      have hnot : ∀ other, ¬ cluster.KeptEntry start t.services node chunkId other := by
        rintro other ⟨name, _, hname, _⟩
        rw [hentry] at hname
        cases hname
      simp [hnot]
  | some name =>
      have hkept : ∀ other, other ≠ node →
          (cluster.KeptEntry start t.services node chunkId other ↔
            cluster.ownerOf name = other) := by
        intro other hne
        constructor
        · rintro ⟨name', _, hname', howner'⟩
          rw [hentry] at hname'
          cases hname'
          exact howner'
        · intro howner'
          rcases hindexed.entries node chunkId name hentry with hown | hstart
          · exact absurd (howner'.symm.trans hown) hne
          · exact ⟨name, hstart, hentry, howner'⟩
      by_cases heq : node = owner
      · subst heq
        simp only [true_and, ne_eq, not_true_eq_false, false_and, or_false]
        constructor
        · intro hname other hne hother
          exact hne (((hkept other hne).mp hother).symm.trans hname)
        · intro hnone
          by_contra hne
          exact hnone _ hne ((hkept _ hne).mpr rfl)
      · simp [heq, hkept owner (Ne.symm heq)]

/-! ## An upload through another node -/

/-- `b` knows one storage node. -/
def registeredServices : Services :=
  Function.update (fun _ => freshNode) "b" (freshNode.withStore
    { freshNode.metadataStore with
      storageNodes := (∅ : HashMap UInt64 MetaStorageNode).insert 1 ⟨1, "http://node-a:50051"⟩ })

/-- A chunk of an object of `b`, both stored through `a`. -/
def uploaded : Services :=
  twoNodes.afterRequests jsonLib registeredServices
    [("a", .forwardable (.putObject 7 "bk")), ("a", .forwardable (.putChunk [10] 0 "bk" 5))]

theorem uploaded_run : twoNodes.TrafficRun jsonLib (fun _ => freshNode) ⟨uploaded, []⟩ := by
  have hregistered : twoNodes.TrafficRun jsonLib (fun _ => freshNode) ⟨registeredServices, []⟩ :=
    .single (.registry "b" _)
  exact hregistered.afterRequests (by simp [twoNodes])

/-- The owner has the chunk as `Confirmed`. -/
theorem uploaded_chunk : (uploaded "b").metadataStore.chunks[(10 : UInt64)]? =
    some ⟨10, "bk", 5, [1], .confirmed⟩ := by
  decide +kernel

/-- `get_chunk` sent to the owner, which has the chunk, is executed there; sent to the other
node, it is not. -/
theorem chunk_requests_reach_owner_iff_self :
    (uploaded "b").metadataStore.chunks[(10 : UInt64)]? = some ⟨10, "bk", 5, [1], .confirmed⟩ ∧
      twoNodes.ownerOf "bk" = "b" ∧ twoNodes.executor uploaded "b" (.getChunk 10) = "b" ∧
      twoNodes.executor uploaded "a" (.getChunk 10) ≠ "b" := by
  have hreach := fun node hnode => chunk_requests_reach_owner_iff twoNodes jsonLib
    (fun _ => freshNode) ⟨uploaded, []⟩ uploaded_run "b" 10 node hnode (.getChunk 10) rfl
  have hempty : ∀ node other,
      ¬ twoNodes.KeptEntry (fun _ => freshNode) uploaded node 10 other := by
    rintro node other ⟨name, hname, _⟩
    simp [freshNode] at hname
  refine ⟨uploaded_chunk, by decide +kernel, ?_, ?_⟩
  · exact (hreach "b" (by simp [twoNodes])).mpr (.inl ⟨rfl, fun other _ => hempty "b" other⟩)
  · rw [Ne, hreach "a" (by simp [twoNodes])]
    simp [hempty]

/-- `get_chunk` sent to the other node is executed on its store, which lacks the chunk. -/
theorem get_chunk_stays_at_receiver :
    ∃ services, twoNodes.TrafficRun jsonLib (fun _ => freshNode) ⟨services, []⟩ ∧
      (services "b").metadataStore.chunks[(10 : UInt64)]? =
        some ⟨10, "bk", 5, [1], .confirmed⟩ ∧ twoNodes.ownerOf "bk" = "b" ∧
      twoNodes.executor services "a" (.getChunk 10) = "a" ∧
      (services "a").getChunk 10 = .error ⟨.notFound, "chunk not found"⟩ := by
  exact ⟨uploaded, uploaded_run, uploaded_chunk, by decide +kernel, by decide +kernel,
    by decide +kernel⟩

end StableCluster

end StorageMetadata
end ObjectStore
