import ObjectStore.StorageMetadata.Forwarding

/-!
# Storage metadata - Dispatch in a stable cluster

A client may contact any metadata node.  The node looks up the owner on its ring and either
handles the request itself or hands it to the owner: the first lines of the handlers in
`main.rs`, `route_by_chunk` in `forwarding.rs`.  Here every node has the same ring, knows the
addresses of its peers, and every message arrives.

Main definitions:

- `ForwardRequest.route`: where a node sends a request.
- `StableCluster`: the members, their ring and their addresses.
- `StableCluster.send`: a request of a client, from routing to the answer.

Main results:

- Theorem `route_ownerOf`: every node finds the owner.
- Theorem `object_requests_act_on_owner_iff`: when a request for an object has the effect that
  it has at the owner.
-/

namespace ObjectStore
namespace StorageMetadata

/-! ## Routing one request -/

section

variable {Client : Type} (hash : String → UInt64)

/-- `route_by_chunk`. -/
def ClusterManager.routeByChunk (self : ClusterManager Client)
    (chunkIndex : HashMap UInt64 String) (chunkId : UInt64) : Except Status RouteAction :=
  match chunkIndex[chunkId]? with
  | none => .error ⟨.notFound, s!"chunk {chunkId} not found in index"⟩
  | some objectName => .ok (self.routeByObject hash objectName)

/-- The first lines of the handlers.  A chunk that is not in the index is looked for in the
local store. -/
def ForwardRequest.route (manager : ClusterManager Client) (chunkIndex : HashMap UInt64 String) :
    ForwardRequest → RouteAction
  | .putObject _ name | .getObject name | .deleteObject name | .putChunk _ _ name _
  | .confirmChunk _ name _ _ => manager.routeByObject hash name
  | .allocateChunk _ _ name =>
      if name ≠ "" then manager.routeByObject hash name else .local
  | .getChunk id | .deleteChunk id | .addChunkReplica id _ =>
      match manager.routeByChunk hash chunkIndex id with
      | .ok action => action
      | .error _ => .local

end

/-- The requests of clients that are routed. -/
inductive ClientRequest where
  | forwardable (request : ForwardRequest)
  | updateObjectChecksum (name : String) (checksum : UInt32) (totalSize : UInt64)

/-- The object that a request is routed by. -/
def ForwardRequest.objectName : ForwardRequest → Option String
  | .putObject _ name | .getObject name | .deleteObject name | .putChunk _ _ name _
  | .confirmChunk _ name _ _ => some name
  | .allocateChunk _ _ name => if name ≠ "" then some name else none
  | .getChunk _ | .deleteChunk _ | .addChunkReplica _ _ => none

/-- The object that the request names, if it names one. -/
def ClientRequest.objectName : ClientRequest → Option String
  | .forwardable request => request.objectName
  | .updateObjectChecksum name _ _ => some name

theorem ForwardRequest.route_of_objectName {Client : Type} {hash : String → UInt64}
    {manager : ClusterManager Client} {chunkIndex : HashMap UInt64 String}
    {request : ForwardRequest} {name : String} (hname : request.objectName = some name) :
    request.route hash manager chunkIndex = manager.routeByObject hash name := by
  cases request with
  | allocateChunk draws pick target =>
      simp only [ForwardRequest.objectName, Option.ite_none_right_eq_some,
        Option.some.injEq] at hname
      rcases hname with ⟨hne, rfl⟩
      simp [route, hne]
  | getChunk _ | deleteChunk _ | addChunkReplica _ _ => cases hname
  | _ =>
      cases hname
      rfl

/-- The chunk that a request is routed by. -/
def ForwardRequest.chunkId : ForwardRequest → Option UInt64
  | .getChunk id | .deleteChunk id | .addChunkReplica id _ => some id
  | _ => none

/-! ## The cluster -/

/-- Metadata nodes that agree on a ring of them and know each other's addresses. -/
structure StableCluster (Client : Type) (hash : String → UInt64) where
  members : Set String
  ring : HashRing
  manager : String → ClusterManager Client
  /-- The node that answers at an address. -/
  resolve : String → String
  nodeId_eq : ∀ node ∈ members, (manager node).nodeId = node
  ring_eq : ∀ node ∈ members, (manager node).ring = ring
  nonempty : ∃ position : UInt64, position ∈ ring.ring
  onRing : ∀ (position : UInt64) (node : String), ring.ring[position]? = some node → node ∈ members
  known : ∀ node ∈ members, ∀ peer ∈ members, peer ≠ node →
    ∃ addr : String, (manager node).peerAddrs[peer]? = some addr
  resolves : ∀ node ∈ members, ∀ peer addr : String, (manager node).peerAddrs[peer]? = some addr →
    peer ∈ members ∧ resolve addr = peer

/-- What the processes of the nodes hold. -/
abbrev Services := String → StorageMetadataImpl

/-- An answer next to the nodes that it leaves. -/
abbrev Response := Option (Except Status Reply × Services)

namespace StableCluster

variable {Client : Type} {hash : String → UInt64} (cluster : StableCluster Client hash)

/-- The owner of a name. -/
def ownerOf (key : String) : String :=
  (cluster.ring.getOwner hash key).getD ""

/-- Every key has its owner on the ring. -/
theorem getOwner_eq (key : String) :
    cluster.ring.getOwner hash key = some (cluster.ownerOf key) := by
  rcases cluster.nonempty with ⟨position, hposition⟩
  rcases HashRing.exists_getOwner hash hposition key with ⟨owner, howner⟩
  simp [ownerOf, howner]

/-- The owner is a member. -/
theorem ownerOf_mem (key : String) : cluster.ownerOf key ∈ cluster.members := by
  rcases HashRing.mem_nodes_of_getOwner (cluster.getOwner_eq key) with ⟨position, hposition⟩
  exact cluster.onRing position _ hposition

/-- The owner handles its names itself, and every other member finds the owner. -/
theorem route_ownerOf {node : String} (hnode : node ∈ cluster.members) (key : String) :
    (node = cluster.ownerOf key ∧ (cluster.manager node).routeByObject hash key = .local) ∨
      ∃ addr, (cluster.manager node).routeByObject hash key = .forward addr ∧
        node ≠ cluster.ownerOf key ∧ cluster.resolve addr = cluster.ownerOf key := by
  unfold ClusterManager.routeByObject ClusterManager.getOwnerAddr
  rw [cluster.ring_eq node hnode, cluster.getOwner_eq key, cluster.nodeId_eq node hnode]
  by_cases heq : cluster.ownerOf key = node
  · simp [heq]
  · rcases cluster.known node hnode _ (cluster.ownerOf_mem key) heq with ⟨addr, haddr⟩
    have hresolve := (cluster.resolves node hnode _ addr haddr).2
    simp [heq, haddr, hresolve, Ne.symm heq]

/-! ## Sending a request -/

variable (lib : External) (io : String → SaveIo)

/-- The answer of one node, among the others. -/
def reply (services : Services) (node : String) (outcome : Outcome) : Response :=
  outcome.map fun result => (result.1, Function.update services node result.2)

/-- A client sends a request to `node`.  `update_object_checksum` looks up the route too, and
then handles the request itself: forwarding is not implemented for it. -/
def send (services : Services) (node : String) : ClientRequest → Response
  | .forwardable request =>
      match request.route hash (cluster.manager node) (services node).chunkIndex with
      | .local => reply services node ((services node).handleLocally lib (io node) request)
      | .forward addr =>
          let peer := cluster.resolve addr
          reply services peer ((services peer).handleForwarded lib (io peer) request)
  | .updateObjectChecksum name checksum totalSize =>
      reply services node (some (outcomeOf (fun _ => .empty)
        ((services node).updateObjectChecksum lib (io node) name checksum totalSize)))

/-- A request for an object is served by its owner. -/
theorem send_eq {services : Services} {node : String} (hnode : node ∈ cluster.members)
    {request : ForwardRequest} {name : String} (hname : request.objectName = some name) :
    cluster.send lib io services node (.forwardable request) =
      reply services (cluster.ownerOf name)
        (if node = cluster.ownerOf name then
          (services (cluster.ownerOf name)).handleLocally lib (io (cluster.ownerOf name)) request
        else
          (services (cluster.ownerOf name)).handleForwarded lib (io (cluster.ownerOf name))
            request) := by
  rw [send, ForwardRequest.route_of_objectName hname]
  rcases cluster.route_ownerOf hnode name with ⟨heq, hlocal⟩ | ⟨addr, hforward, hne, hresolve⟩
  · rw [hlocal, if_pos heq, ← heq]
  · rw [hforward, if_neg hne, ← hresolve]

end StableCluster

/-! ## Success at the owner -/

/-- Whether a request succeeds, and what it leaves. -/
def Outcome.effect (outcome : Outcome) : Option (Bool × StorageMetadataImpl) :=
  outcome.map fun result => (result.1.isOk, result.2)

/-- A lookup finds a replica on a storage node that is not registered. -/
def ForwardRequest.Dangles (s : MetadataStore) : ForwardRequest → Prop
  | .getObject name => ∃ object, s.objects[name]? = some object ∧
      Recorded s object.chunks ∧ ¬ Resolvable s object.chunks
  | .getChunk chunkId => ∃ chunk, s.chunks[chunkId]? = some chunk ∧
      ∃ nodeId ∈ chunk.storageNodes, nodeId ∉ s.storageNodes
  | _ => False

section

variable {lib : External} {io : SaveIo} {node : StorageMetadataImpl}

/-- Two handlers of one method succeed together. -/
theorem Mirrors.isOk {α β : Type} {handler handler' : Except Status α × StorageMetadataImpl}
    {method : IoResult β × MetadataStore} (h : Mirrors handler method)
    (h' : Mirrors handler' method) : handler.1.isOk = handler'.1.isOk := by
  have hiff := h.2.trans h'.2.symm
  rcases handler with ⟨_ | _, _⟩ <;> rcases handler' with ⟨_ | _, _⟩ <;>
    simp_all [Except.isOk, Except.toBool]

/-- Equal answers succeed together. -/
theorem isOk_of_sameAnswer {α : Type} {left right : Except Status α} (h : SameAnswer left right) :
    left.isOk = right.isOk := by
  cases left <;> cases right <;> simp_all [SameAnswer, Except.isOk, Except.toBool]

/-- A record that names an unregistered node fails the lookup at the receiver, not at the
owner. -/
theorem getObject_of_dangles {name : String}
    (h : (ForwardRequest.getObject name).Dangles node.metadataStore) :
    (node.getObject name).isOk = false ∧ (node.forwardGetObject name).isOk = true := by
  rcases h with ⟨object, hname, hrecorded, hnot⟩
  unfold StorageMetadataImpl.getObject StorageMetadataImpl.forwardGetObject
    MetadataStore.forwardGetObject
  simp only [lookupObject_eq hname]
  unfold MetadataStore.resolveObject
  rcases resolveChunks_error hrecorded hnot with ⟨_, _, _, _, _, _, _, herror⟩
  rw [forwardChunks_eq hrecorded, herror]
  exact ⟨rfl, rfl⟩

/-- The same for a chunk. -/
theorem getChunk_of_dangles {id : UInt64}
    (h : (ForwardRequest.getChunk id).Dangles node.metadataStore) :
    (node.getChunk id).isOk = false ∧ (node.forwardGetChunk id).isOk = true := by
  rcases h with ⟨chunk, hchunk, nodeId, hmem, habsent⟩
  rcases resolveStorageNodes_error hmem habsent with ⟨_, _, _, herror⟩
  unfold StorageMetadataImpl.getChunk StorageMetadataImpl.forwardGetChunk
  simp only [MetadataStore.getChunk, hchunk, herror]
  exact ⟨rfl, rfl⟩

/-- Both handlers of a chunk have the same effect. -/
theorem putChunk_effect {draws : List UInt64} {pick : Nat} {name : String} {checksum : UInt32} :
    Outcome.effect (node.handleLocally lib io (.putChunk draws pick name checksum)) =
      Outcome.effect (node.handleForwarded lib io (.putChunk draws pick name checksum)) := by
  simp only [StorageMetadataImpl.handleLocally, StorageMetadataImpl.handleForwarded,
    StorageMetadataImpl.putChunk, StorageMetadataImpl.forwardPutChunk, Outcome.effect,
    Option.map_map]
  congr 1
  funext outcome
  rcases outcome with ⟨result, store⟩
  cases result with
  | ok value => rfl
  | error error =>
      rcases error with ⟨kind, message⟩
      cases kind <;> rfl

@[simp]
theorem map_isOk {α β : Type} (answer : Except Status α) (f : α → β) :
    (answer.map f).isOk = answer.isOk := by
  cases answer <;> rfl

/-- Both handlers succeed or both fail, unless a lookup dangles. -/
theorem handleForwarded_effect (request : ForwardRequest) :
    Outcome.effect (node.handleLocally lib io request) =
        Outcome.effect (node.handleForwarded lib io request) ↔
      ¬ request.Dangles node.metadataStore := by
  cases request with
  | putObject checksum name =>
      have hok := (@putObject_mirrors lib io node checksum name).isOk
        (forwardPutObject_mirrors node checksum name)
      simp only [ForwardRequest.Dangles, not_false_eq_true, iff_true]
      simp only [Outcome.effect, StorageMetadataImpl.handleLocally,
        StorageMetadataImpl.handleForwarded, outcomeOf, Option.map_some, map_isOk, hok,
        putObject_same_node]
  | getObject name =>
      simp only [Outcome.effect, StorageMetadataImpl.handleLocally,
        StorageMetadataImpl.handleForwarded, Option.map_some, map_isOk, Option.some.injEq,
        Prod.mk.injEq, and_true]
      constructor
      · intro hok hdangles
        rw [(getObject_of_dangles hdangles).1, (getObject_of_dangles hdangles).2] at hok
        cases hok
      · intro hnot
        exact isOk_of_sameAnswer (getObject_sameAnswer_iff.mpr hnot)
  | getChunk id =>
      simp only [Outcome.effect, StorageMetadataImpl.handleLocally,
        StorageMetadataImpl.handleForwarded, Option.map_some, map_isOk, Option.some.injEq,
        Prod.mk.injEq, and_true]
      constructor
      · intro hok hdangles
        rw [(getChunk_of_dangles hdangles).1, (getChunk_of_dangles hdangles).2] at hok
        cases hok
      · intro hnot
        exact isOk_of_sameAnswer (getChunk_sameAnswer_iff.mpr hnot)
  | putChunk draws pick name checksum =>
      simp only [ForwardRequest.Dangles, not_false_eq_true, iff_true]
      exact putChunk_effect
  | _ =>
      simp only [ForwardRequest.Dangles, not_false_eq_true, iff_true]
      rfl

end

/-! ## Updates that change nothing -/

/-- The files hold what these file steps of `save` would leave. -/
def SaveIo.Written (lib : External) (s : MetadataStore) : SaveIo → Prop
  | .completes => s.files = ⟨some (savedFile lib s.maps), none⟩
  | .stops .create _ => True
  | .stops (.write n) _ =>
      s.files.tmp = some ⟨(lib.toJson s.persistentState).toUTF8.extract 0 n, false⟩
  | .stops .sync _ => s.files.tmp = some ⟨(lib.toJson s.persistentState).toUTF8, false⟩
  | .stops .rename _ => s.files.tmp = some ⟨(lib.toJson s.persistentState).toUTF8, true⟩

/-- The object is absent, or it has the checksum and the size already, also on file. -/
def UpToDate (lib : External) (io : SaveIo) (s : MetadataStore) (name : String)
    (checksum : UInt32) (totalSize : UInt64) : Prop :=
  ∀ object, s.objects[name]? = some object →
    object.checksum = checksum ∧ object.totalSize = totalSize ∧ io.Written lib s

section

variable {lib : External} {io : SaveIo} {s : MetadataStore} {name : String} {checksum : UInt32}
  {totalSize : UInt64}

/-- A save leaves the store as it is when the file holds it already. -/
theorem save_same_iff : (s.save lib io).2 = s ↔ io.Written lib s := by
  rcases s with ⟨⟨main, tmp⟩, objects, chunks, storageNodes⟩
  cases io with
  | completes =>
      simp [MetadataStore.save, SaveIo.Written, MetaFiles.createTmp, MetaFiles.writeTmp,
        MetaFiles.syncTmp, MetaFiles.renameTmp, savedFile, persistentState_eq_maps, eq_comm]
  | stops step error =>
      cases step <;> simp [MetadataStore.save, SaveIo.Written, MetaFiles.createTmp,
        MetaFiles.writeTmp, MetaFiles.syncTmp, eq_comm]

/-- An update changes nothing when all is up to date. -/
theorem updateObjectChecksum_same_iff :
    (s.updateObjectChecksum lib io name checksum totalSize).2 = s ↔
      UpToDate lib io s name checksum totalSize := by
  unfold MetadataStore.updateObjectChecksum UpToDate
  cases hname : s.objects[name]? with
  | none => simp
  | some object =>
      simp only [saveThen_unit, Option.some.injEq, forall_eq']
      constructor
      · intro hsame
        have hobjects := congrArg MetadataStore.objects hsame
        simp only [save_objects] at hobjects
        have hentry := hname
        rw [← hobjects] at hentry
        have hobject := HashMap.getElem?_insert_same s.objects hentry
        have hchecksum : checksum = object.checksum := congrArg MetaObject.checksum hobject
        have hsize : totalSize = object.totalSize := congrArg MetaObject.totalSize hobject
        rw [hobject, HashMap.insert_of_getElem? hname] at hsame
        exact ⟨hchecksum.symm, hsize.symm, save_same_iff.mp hsame⟩
      · rintro ⟨rfl, rfl, hwritten⟩
        rw [HashMap.insert_of_getElem? hname]
        exact save_same_iff.mpr hwritten

theorem updateObjectChecksum_chunkIndex {node : StorageMetadataImpl} :
    (node.updateObjectChecksum lib io name checksum totalSize).2.chunkIndex =
      node.chunkIndex := by
  unfold StorageMetadataImpl.updateObjectChecksum
  split
  · rfl
  · split <;> rfl

theorem updateObjectChecksum_leaves_iff {node : StorageMetadataImpl} :
    (node.updateObjectChecksum lib io name checksum totalSize).2 = node ↔
      UpToDate lib io node.metadataStore name checksum totalSize := by
  have hstore := (@updateObjectChecksum_mirrors lib io node name checksum totalSize).1
  have hindex := @updateObjectChecksum_chunkIndex lib io name checksum totalSize node
  rw [← updateObjectChecksum_same_iff, ← hstore]
  constructor
  · exact congrArg StorageMetadataImpl.metadataStore
  · intro hsame
    rcases hafter : node.updateObjectChecksum lib io name checksum totalSize with ⟨answer, after⟩
    rw [hafter] at hsame hindex
    rcases after with ⟨store, chunkIndex⟩
    cases hsame
    cases hindex
    rfl

/-- An update succeeds when the object is there and the save completes. -/
theorem updateObjectChecksum_isOk_iff {node : StorageMetadataImpl} :
    (node.updateObjectChecksum lib io name checksum totalSize).1.isOk = true ↔
      name ∈ node.metadataStore.objects ∧ io = .completes := by
  unfold StorageMetadataImpl.updateObjectChecksum MetadataStore.updateObjectChecksum
  cases hname : node.metadataStore.objects[name]? with
  | none =>
      have hnot : name ∉ node.metadataStore.objects := by simpa using hname
      simp [hnot, Except.isOk, Except.toBool]
  | some object =>
      have hmem : name ∈ node.metadataStore.objects :=
        HashMap.mem_iff_exists_getElem?.mpr ⟨object, hname⟩
      simp only [saveThen_unit, hmem, true_and]
      generalize hm : ({ node.metadataStore with
        objects := node.metadataStore.objects.insert name
          { object with checksum := checksum, totalSize := totalSize } } : MetadataStore) = m
      rcases save_eq lib io m with ⟨rfl, hok⟩ | ⟨step, error, rfl, herror⟩
      · rcases hsave : m.save lib .completes with ⟨result, store⟩
        simp only [hsave] at hok
        simp [hok, Except.isOk, Except.toBool]
      · rcases hsave : m.save lib (.stops step error) with ⟨result, store⟩
        simp only [hsave] at herror
        rw [herror]
        rcases error with ⟨kind, message⟩
        cases kind <;> simp [Except.isOk, Except.toBool]

end

/-! ## Requests for an object -/

/-- Whether a request succeeds, and what all nodes are left with. -/
def Response.effect (response : Response) : Option (Bool × Services) :=
  response.map fun result => (result.1.isOk, result.2)

/-- Where a request that reaches `node` is served as at the owner. -/
def ClientRequest.ServedAlike (lib : External) (io : String → SaveIo) (services : Services)
    (node owner : String) : ClientRequest → Prop
  | .forwardable request => ¬ request.Dangles (services owner).metadataStore
  | .updateObjectChecksum name checksum totalSize =>
      UpToDate lib (io node) (services node).metadataStore name checksum totalSize ∧
        UpToDate lib (io owner) (services owner).metadataStore name checksum totalSize ∧
        (name ∈ (services node).metadataStore.objects ∧ io node = .completes ↔
          name ∈ (services owner).metadataStore.objects ∧ io owner = .completes)

namespace StableCluster

variable {Client : Type} {hash : String → UInt64} (cluster : StableCluster Client hash)

/-- Sent to `node`, a request does what it does when it is sent to the owner directly, and
changes no other node. -/
def ActsOnOwner (lib : External) (io : String → SaveIo) (services : Services) (node : String)
    (request : ClientRequest) (name : String) : Prop :=
  Response.effect (cluster.send lib io services node request) =
      Response.effect (cluster.send lib io services (cluster.ownerOf name) request) ∧
    ∀ answer services', cluster.send lib io services node request = some (answer, services') →
      ∀ other ≠ cluster.ownerOf name, services' other = services other

/-- A reply has the effect of its handler. -/
theorem reply_effect {services : Services} {node : String} {outcome : Outcome} :
    Response.effect (reply services node outcome) =
      (Outcome.effect outcome).map fun result =>
        (result.1, Function.update services node result.2) := by
  simp [Response.effect, reply, Outcome.effect, Function.comp_def]

theorem reply_effect_iff {services : Services} {node : String} {outcome outcome' : Outcome} :
    Response.effect (reply services node outcome) =
        Response.effect (reply services node outcome') ↔
      Outcome.effect outcome = Outcome.effect outcome' := by
  rw [reply_effect, reply_effect]
  apply (Option.map_injective _).eq_iff
  rintro ⟨ok, service⟩ ⟨ok', service'⟩ heq
  simp only [Prod.mk.injEq] at heq
  rcases heq with ⟨rfl, hupdate⟩
  rw [Function.update_injective services node hupdate]

/-- A reply changes one node. -/
theorem reply_others {services services' : Services} {node : String} {outcome : Outcome}
    {answer : Except Status Reply} (h : reply services node outcome = some (answer, services')) :
    ∀ other ≠ node, services' other = services other := by
  rcases Option.map_eq_some_iff.mp h with ⟨result, _, heq⟩
  cases heq
  intro other hne
  exact Function.update_of_ne hne _ _

/-- Two changes to different nodes come to the same when they change nothing. -/
theorem update_eq_update_iff {services : Services} {node node' : String} (hne : node ≠ node')
    {service service' : StorageMetadataImpl} :
    Function.update services node service = Function.update services node' service' ↔
      service = services node ∧ service' = services node' := by
  constructor
  · intro h
    have hnode := congrFun h node
    have hnode' := congrFun h node'
    rw [Function.update_self, Function.update_of_ne hne] at hnode
    rw [Function.update_self, Function.update_of_ne hne.symm] at hnode'
    exact ⟨hnode, hnode'.symm⟩
  · rintro ⟨rfl, rfl⟩
    rw [Function.update_eq_self, Function.update_eq_self]

/-- A request for an object has the effect that it has at the owner of the name, exactly when
it is sent to the owner, or is not an update that the receiver keeps to itself or a lookup
that is answered differently there. -/
theorem object_requests_act_on_owner_iff (lib : External) (io : String → SaveIo)
    (services : Services) (node : String) (hnode : node ∈ cluster.members)
    (request : ClientRequest) (name : String) (hname : request.objectName = some name) :
    cluster.ActsOnOwner lib io services node request name ↔
      node = cluster.ownerOf name ∨
        request.ServedAlike lib io services node (cluster.ownerOf name) := by
  have howner := cluster.ownerOf_mem name
  cases request with
  | forwardable request =>
      unfold ActsOnOwner
      rw [cluster.send_eq lib io hnode hname, cluster.send_eq lib io howner hname, if_pos rfl,
        reply_effect_iff, and_iff_left fun _ _ => reply_others]
      by_cases heq : node = cluster.ownerOf name
      · simp [heq]
      · rw [if_neg heq, eq_comm, handleForwarded_effect]
        simp [heq, ClientRequest.ServedAlike]
  | updateObjectChecksum target checksum totalSize =>
      cases hname
      by_cases heq : node = cluster.ownerOf name
      · rw [heq]
        simp only [true_or, iff_true]
        exact ⟨rfl, fun _ _ => reply_others⟩
      · simp only [heq, false_or, ClientRequest.ServedAlike]
        rw [← updateObjectChecksum_leaves_iff, ← updateObjectChecksum_leaves_iff,
          ← updateObjectChecksum_isOk_iff, ← updateObjectChecksum_isOk_iff]
        simp only [ActsOnOwner, send, Response.effect, reply, outcomeOf, Option.map_some, map_isOk,
          Option.some.injEq, Prod.mk.injEq, update_eq_update_iff heq]
        constructor
        · rintro ⟨⟨hok, hnode', howner'⟩, _⟩
          exact ⟨hnode', howner', by rw [hok]⟩
        · rintro ⟨hnode', howner', hok⟩
          refine ⟨⟨Bool.eq_iff_iff.mpr hok, hnode', howner'⟩, ?_⟩
          rintro _ _ ⟨_, rfl⟩ other _
          rw [hnode', Function.update_eq_self]

/-! ## Two nodes -/

/-- A hash by which `b` owns the names that begin with its letter, and `a` all others. -/
def letterHash (key : String) : UInt64 :=
  if key.toList.head? = some 'b' then 1 else 0

/-- All positions of a node coincide. -/
def twoNodesRing : HashRing := ⟨((∅ : HashMap UInt64 String).insert 0 "a").insert 1 "b"⟩

/-- The ring has two nodes. -/
theorem twoNodesRing_nodes : ∀ (position : UInt64) (node : String),
    twoNodesRing.ring[position]? = some node → node ∈ ({"a", "b"} : Set String) := by
  have hall : (twoNodesRing.ring.valueList.all fun node => node = "a" ∨ node = "b") = true := by
    decide +kernel
  intro position node hnode
  simpa using List.all_eq_true.mp hall node (HashMap.mem_valueList.mpr ⟨position, hnode⟩)

/-- Both nodes have published their addresses. -/
def twoNodesAddrs : HashMap String String :=
  ((∅ : HashMap String String).insert "a" "10.0.0.1:50051").insert "b" "10.0.0.2:50051"

/-- The nodes `a` and `b`. -/
def twoNodes : StableCluster Unit letterHash where
  members := {"a", "b"}
  ring := twoNodesRing
  manager node :=
    { ClusterManager.new letterHash node with ring := twoNodesRing, peerAddrs := twoNodesAddrs }
  resolve addr := if addr = "10.0.0.1:50051" then "a" else "b"
  nodeId_eq _ _ := rfl
  ring_eq _ _ := rfl
  nonempty := ⟨0, by decide +kernel⟩
  onRing := twoNodesRing_nodes
  known := by simp [twoNodesAddrs]
  resolves := by
    intro _ _ peer addr haddr
    simp only [twoNodesAddrs, Std.ExtTreeMap.getElem?_insert, compare_eq_iff_eq] at haddr
    split at haddr
    · cases haddr
      simp_all
    · split at haddr
      · simp_all
      · simp at haddr

/-- `b` stores an object that it owns. -/
def twoNodesServices : Services :=
  Function.update (fun _ => freshNode) "b" (freshNode.putObject jsonLib .completes 7 "bk").2

/-- A creation acts on its owner. -/
theorem object_requests_act_on_owner_iff_put :
    twoNodes.ActsOnOwner jsonLib (fun _ => .completes) twoNodesServices "a"
      (.forwardable (.putObject 8 "bj")) "bj" :=
  (twoNodes.object_requests_act_on_owner_iff jsonLib (fun _ => .completes) twoNodesServices "a"
    (by simp [twoNodes]) (.forwardable (.putObject 8 "bj")) "bj" rfl).mpr (.inr not_false)

/-- The checksum of an upload through `a` never reaches `b`, which owns the object. -/
theorem update_stays_at_receiver :
    ¬ twoNodes.ActsOnOwner jsonLib (fun _ => .completes) twoNodesServices "a"
      (.updateObjectChecksum "bk" 9 3) "bk" := by
  intro h
  have hok := congrArg (Option.map Prod.fst) h.1
  revert hok
  decide +kernel

end StableCluster

end StorageMetadata
end ObjectStore
