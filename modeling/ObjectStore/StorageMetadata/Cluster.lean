import ObjectStore.StorageMetadata.Migration
import ObjectStore.StorageMetadata.Redistribution

/-!
# Storage metadata - The cluster between membership changes

Several metadata nodes that agree on the ring.  A client request is handled by the
ring owner of the object it names.  A joining or restarted node runs `migrate_on_join`
against all its peers before the next event; the peers keep what they hand over.

Main definitions:

- `Request`, `StorageMetadataImpl.serve`: the requests that change one object.
- `Cluster`, `Cluster.migrateOnJoin`, `Cluster.listObjects`.
- `Tracked`, `ClusterStep`: runs, with the record of each name that its last
  acknowledged mutation left.
-/

namespace ObjectStore
namespace StorageMetadata

/-! ## Requests -/

/-- The client requests that mutate an object, with the random numbers drawn for them. -/
inductive Request where
  | putObject (checksum : UInt32) (name : String)
  | putChunk (draws : List UInt64) (pick : Nat) (objectName : String) (checksum : UInt32)
  | confirmChunk (chunkId : UInt64) (objectName : String) (checksum : UInt32)
      (storageNodeId : UInt64)
  | addChunkReplica (chunkId storageNodeId : UInt64)
  | deleteObject (objectName : String)

/-- The handler of the request. -/
def StorageMetadataImpl.serve (lib : External) (io : SaveIo) (self : StorageMetadataImpl) :
    Request → Option (Except Status Unit × StorageMetadataImpl)
  | .putObject checksum name => some (self.putObject lib io checksum name)
  | .putChunk draws pick objectName checksum =>
      (self.putChunk lib io draws pick objectName checksum).map fun (response, self) =>
        (response.map fun _ => (), self)
  | .confirmChunk chunkId objectName checksum storageNodeId =>
      some (self.confirmChunk lib io chunkId objectName checksum storageNodeId)
  | .addChunkReplica chunkId storageNodeId =>
      some (self.addChunkReplica lib io chunkId storageNodeId)
  | .deleteObject objectName => some (self.deleteObject lib io objectName)

/-- The object that a request is for; a replica is added to a chunk of the object its
record names. -/
def Request.objectName (store : MetadataStore) : Request → Option String
  | .putObject _ name => some name
  | .putChunk _ _ objectName _ => some objectName
  | .confirmChunk _ objectName _ _ => some objectName
  | .addChunkReplica chunkId _ => (store.chunks[chunkId]?).map (·.objectName)
  | .deleteObject objectName => some objectName

/-- The method call behind a request. -/
def Request.op : Request → Op
  | .putObject checksum name => .putObject checksum name
  | .putChunk draws pick objectName checksum => .putChunk draws pick objectName checksum
  | .confirmChunk chunkId objectName checksum storageNodeId =>
      .confirmChunk chunkId objectName checksum storageNodeId
  | .addChunkReplica chunkId storageNodeId => .addChunkReplica chunkId storageNodeId
  | .deleteObject objectName => .deleteObject objectName

/-! ## The cluster -/

/-- The metadata nodes by id, and the ring they agree on. -/
structure Cluster where
  ring : HashRing
  nodes : HashMap String StorageMetadataImpl

namespace Cluster

variable (lib : External) (hash : String → UInt64)

/-- A cluster before its first node joins. -/
def new : Cluster := ⟨HashRing.new, ∅⟩

/-- Pull the ranges from one peer.  The peer answers, unless there is no such node. -/
def pullFrom (cluster : Cluster) (ranges : List (UInt64 × UInt64)) (node : StorageMetadataImpl)
    (peer : String × SaveIo) : StorageMetadataImpl :=
  match cluster.nodes[peer.1]? with
  | none => node
  | some source =>
      (node.pullPartition lib peer.2
        (.ok (.ok ((source.metadataStore.transferPartition hash ranges).map .ok)))).2

/-- `migrate_on_join` of `nodeId`, whose process holds `node`, once it has seen its
peers.  Each pull has its own outcome of the file steps.  The broadcasts of the chunk
index at the end are left out: no request below is routed by it. -/
def migrateOnJoin (cluster : Cluster) (nodeId : String) (node : StorageMetadataImpl)
    (peers : List (String × SaveIo)) : StorageMetadataImpl :=
  let ownedRanges := cluster.ring.getOwnedRanges nodeId
  if ownedRanges.isEmpty then node
  else peers.foldl (cluster.pullFrom lib hash ownedRanges) node

/-- A node that holds `node` migrates and then serves. -/
def migrated (cluster : Cluster) (nodeId : String) (node : StorageMetadataImpl)
    (peers : List (String × SaveIo)) : Cluster :=
  { cluster with
    nodes := cluster.nodes.insert nodeId (cluster.migrateOnJoin lib hash nodeId node peers) }

/-- The ring once every node has seen `nodeId`. -/
def withMember (cluster : Cluster) (nodeId : String) : Cluster :=
  { cluster with ring := cluster.ring.addNode hash nodeId }

@[simp]
theorem withMember_nodes (cluster : Cluster) (nodeId : String) :
    (cluster.withMember hash nodeId).nodes = cluster.nodes := by
  simp only [withMember]

/-- A node is started for the first time and joins. -/
def join (cluster : Cluster) (nodeId : String) (peers : List (String × SaveIo)) : Cluster :=
  (cluster.withMember hash nodeId).migrated lib hash nodeId
    freshNode peers

/-- A join extends the ring and migrates. -/
theorem join_eq (cluster : Cluster) (nodeId : String) (peers : List (String × SaveIo)) :
    cluster.join lib hash nodeId peers =
      { ring := cluster.ring.addNode hash nodeId
        nodes := cluster.nodes.insert nodeId
          ((cluster.withMember hash nodeId).migrateOnJoin lib hash nodeId
            freshNode peers) } := by
  rw [join, migrated, withMember_nodes]
  simp only [withMember]

/-- `peers` lists the other nodes, in any order. -/
def ListsPeers (cluster : Cluster) (nodeId : String) (peers : List (String × SaveIo)) : Prop :=
  ∀ peer, peer ∈ peers.map Prod.fst ↔ peer ∈ cluster.nodes ∧ peer ≠ nodeId

/-- `list_objects` at `nodeId`: its own part and then what the peers answer, in the order
in which their addresses are listed. -/
def listObjects (cluster : Cluster) (nodeId : String) (peers : List String) :
    List Proto.MetaObject :=
  (nodeId :: peers).flatMap fun peer =>
    match cluster.nodes[peer]? with
    | some node => node.listObjects
    | none => []

end Cluster

/-! ## Runs -/

/-- Something that happens in the cluster. -/
inductive ClusterEvent where
  | join (nodeId : String) (peers : List (String × SaveIo))
  | restart (nodeId : String) (peers : List (String × SaveIo))
  | request (nodeId : String) (request : Request) (io : SaveIo)
  /-- Storage nodes come and go, as far as `nodeId` knows. -/
  | registry (nodeId : String) (storageNodes : HashMap UInt64 MetaStorageNode)

/-- A cluster next to what the last acknowledged mutation of each name left of it. -/
structure Tracked where
  cluster : Cluster
  acknowledged : String → Option View

/-- The start of a run. -/
def Tracked.new : Tracked := ⟨Cluster.new, fun _ => none⟩

/-- A request for `name` has been acknowledged with `store` as its outcome. -/
def Tracked.acknowledge (tracked : Tracked) (store : MetadataStore) (name : String) : Tracked :=
  { tracked with
    acknowledged := Function.update tracked.acknowledged name (store.maps.view name) }

@[simp]
theorem Tracked.acknowledge_self (tracked : Tracked) (store : MetadataStore) (name : String) :
    (tracked.acknowledge store name).acknowledged name = store.maps.view name :=
  Function.update_self ..

theorem Tracked.acknowledge_of_ne (tracked : Tracked) (store : MetadataStore)
    {name other : String} (hne : other ≠ name) :
    (tracked.acknowledge store name).acknowledged other = tracked.acknowledged other :=
  Function.update_of_ne hne _ _

/-- The node has served a request. -/
def Tracked.served (tracked : Tracked) (nodeId : String) (node : StorageMetadataImpl) : Tracked :=
  { tracked with
    cluster := { tracked.cluster with nodes := tracked.cluster.nodes.insert nodeId node } }

/-- One allowed event.  Membership changes are complete when the next event happens. -/
inductive ClusterStep (lib : External) (hash : String → UInt64)
    (allowed : Tracked → ClusterEvent → Prop) : Tracked → Tracked → Prop where
  | join {t : Tracked} {nodeId : String} {peers : List (String × SaveIo)}
      (hallowed : allowed t (.join nodeId peers)) (hnew : nodeId ∉ t.cluster.nodes)
      (hpeers : t.cluster.ListsPeers nodeId peers) :
      ClusterStep lib hash allowed t
        { t with cluster := t.cluster.join lib hash nodeId peers }
  /-- The process stops or crashes, loads its file again and migrates. -/
  | restart {t : Tracked} {nodeId : String} {node : StorageMetadataImpl} {files : MetaFiles}
      {store : MetadataStore} {chunkIndex : HashMap UInt64 String}
      {peers : List (String × SaveIo)}
      (hallowed : allowed t (.restart nodeId peers)) (hnode : t.cluster.nodes[nodeId]? = some node)
      (hcrash : node.metadataStore.files.Survives files)
      (hreload : MetadataStore.new lib files = .ok store)
      (hpeers : t.cluster.ListsPeers nodeId peers) :
      ClusterStep lib hash allowed t
        { t with cluster := t.cluster.migrated lib hash nodeId ⟨store, chunkIndex⟩ peers }
  | acknowledged {t : Tracked} {nodeId name : String} {node node' : StorageMetadataImpl}
      {request : Request} {io : SaveIo}
      (hallowed : allowed t (.request nodeId request io))
      (hnode : t.cluster.nodes[nodeId]? = some node)
      (hname : request.objectName node.metadataStore = some name)
      (howner : t.cluster.ring.getOwner hash name = some nodeId)
      (hserve : node.serve lib io request = some (.ok (), node')) :
      ClusterStep lib hash allowed t
        ((t.served nodeId node').acknowledge node'.metadataStore name)
  | refused {t : Tracked} {nodeId : String} {node node' : StorageMetadataImpl}
      {request : Request} {io : SaveIo} {status : Status}
      (hallowed : allowed t (.request nodeId request io))
      (hnode : t.cluster.nodes[nodeId]? = some node)
      (howner : ∀ name, request.objectName node.metadataStore = some name →
        t.cluster.ring.getOwner hash name = some nodeId)
      (hserve : node.serve lib io request = some (.error status, node')) :
      ClusterStep lib hash allowed t (t.served nodeId node')
  | registry {t : Tracked} {nodeId : String} {node : StorageMetadataImpl}
      {storageNodes : HashMap UInt64 MetaStorageNode}
      (hallowed : allowed t (.registry nodeId storageNodes))
      (hnode : t.cluster.nodes[nodeId]? = some node) :
      ClusterStep lib hash allowed t
        (t.served nodeId (node.withStore { node.metadataStore with storageNodes := storageNodes }))

/-- A run of allowed events from a cluster without nodes. -/
abbrev ClusterRun (lib : External) (hash : String → UInt64)
    (allowed : Tracked → ClusterEvent → Prop) (t : Tracked) : Prop :=
  Relation.ReflTransGen (ClusterStep lib hash allowed) Tracked.new t

/-! ## Executing events -/

/-- `ListsPeers`, checked. -/
def Cluster.listsPeers (cluster : Cluster) (nodeId : String) (peers : List (String × SaveIo)) :
    Bool :=
  (peers.all fun peer => cluster.nodes.contains peer.1 && peer.1 != nodeId) &&
    cluster.nodes.keys.all fun peer => peer == nodeId || (peers.map Prod.fst).contains peer

/-- The check is sound. -/
theorem Cluster.listsPeers_sound {cluster : Cluster} {nodeId : String}
    {peers : List (String × SaveIo)} (h : cluster.listsPeers nodeId peers = true) :
    cluster.ListsPeers nodeId peers := by
  simp only [listsPeers, Bool.and_eq_true, List.all_eq_true, bne_iff_ne, Bool.or_eq_true,
    beq_iff_eq, List.contains_iff_mem, Std.ExtTreeMap.mem_keys] at h
  intro peer
  constructor
  · intro hpeer
    rcases List.mem_map.mp hpeer with ⟨found, hfound, rfl⟩
    rcases h.1 found hfound with ⟨hmem, hne⟩
    exact ⟨Std.ExtTreeMap.mem_iff_contains.mpr hmem, hne⟩
  · rintro ⟨hmem, hne⟩
    rcases h.2 peer hmem with heq | hpeer
    · exact absurd heq hne
    · exact hpeer

/-- The outcome of an event.  A restart finds the file that the node left, and only
acknowledged requests are executed. -/
def Tracked.next (lib : External) (hash : String → UInt64) (t : Tracked) :
    ClusterEvent → Option Tracked
  | .join nodeId peers =>
      if nodeId ∉ t.cluster.nodes ∧ t.cluster.listsPeers nodeId peers = true then
        some { t with cluster := t.cluster.join lib hash nodeId peers }
      else none
  | .restart nodeId peers =>
      match t.cluster.nodes[nodeId]? with
      | none => none
      | some node =>
          match MetadataStore.new lib node.metadataStore.files with
          | .error _ => none
          | .ok store =>
              if t.cluster.listsPeers nodeId peers = true then
                some { t with cluster := t.cluster.migrated lib hash nodeId ⟨store, ∅⟩ peers }
              else none
  | .request nodeId request io =>
      match t.cluster.nodes[nodeId]? with
      | none => none
      | some node =>
          match request.objectName node.metadataStore, node.serve lib io request with
          | some name, some (.ok (), node') =>
              if t.cluster.ring.getOwner hash name = some nodeId then
                some ((t.served nodeId node').acknowledge node'.metadataStore name)
              else none
          | _, _ => none
  | .registry nodeId storageNodes =>
      (t.cluster.nodes[nodeId]?).map fun node =>
        t.served nodeId (node.withStore { node.metadataStore with storageNodes := storageNodes })

/-- What is executed is a step. -/
theorem Tracked.next_step {lib : External} {hash : String → UInt64}
    {allowed : Tracked → ClusterEvent → Prop} {t t' : Tracked} {event : ClusterEvent}
    (h : t.next lib hash event = some t') (hallowed : allowed t event) :
    ClusterStep lib hash allowed t t' := by
  cases event with
  | join nodeId peers =>
      simp only [next, Option.ite_none_right_eq_some, Option.some.injEq] at h
      rcases h with ⟨⟨hnew, hpeers⟩, rfl⟩
      exact .join hallowed hnew (Cluster.listsPeers_sound hpeers)
  | restart nodeId peers =>
      simp only [next] at h
      split at h
      · cases h
      · rename_i node hnode
        split at h
        · cases h
        · rename_i store hstore
          simp only [Option.ite_none_right_eq_some, Option.some.injEq] at h
          rcases h with ⟨hpeers, rfl⟩
          exact .restart hallowed hnode (MetaFiles.Survives.refl _) hstore
            (Cluster.listsPeers_sound hpeers)
  | request nodeId request io =>
      simp only [next] at h
      split at h
      · cases h
      · rename_i node hnode
        split at h
        · rename_i name node' hname hserve
          simp only [Option.ite_none_right_eq_some, Option.some.injEq] at h
          rcases h with ⟨howner, rfl⟩
          exact .acknowledged hallowed hnode hname howner hserve
        · cases h
  | registry nodeId storageNodes =>
      rcases Option.map_eq_some_iff.mp h with ⟨node, hnode, rfl⟩
      exact .registry hallowed hnode

/-- The outcome of a sequence of events. -/
def Tracked.after (lib : External) (hash : String → UInt64) (t : Tracked) :
    List ClusterEvent → Option Tracked
  | [] => some t
  | event :: events =>
      match t.next lib hash event with
      | some t' => t'.after lib hash events
      | none => none

/-- A run goes on with events that are allowed everywhere. -/
theorem ClusterRun.after {lib : External} {hash : String → UInt64}
    {allowed : Tracked → ClusterEvent → Prop} {events : List ClusterEvent}
    (hallowed : ∀ event ∈ events, ∀ t, allowed t event) {t t' : Tracked}
    (hrun : ClusterRun lib hash allowed t) (h : t.after lib hash events = some t') :
    ClusterRun lib hash allowed t' := by
  induction events generalizing t with
  | nil =>
      cases h
      exact hrun
  | cons event events ih =>
      unfold Tracked.after at h
      split at h
      · rename_i next hnext
        have hevent := hallowed event List.mem_cons_self t
        exact ih (fun event' hevent' => hallowed event' (List.mem_cons_of_mem _ hevent'))
          (.tail hrun (Tracked.next_step hnext hevent)) h
      · cases h

/-- The same, as long as each event is allowed in the state that it finds. -/
def Tracked.afterAllowed (lib : External) (hash : String → UInt64)
    (allowed : Tracked → ClusterEvent → Prop) [∀ t event, Decidable (allowed t event)]
    (t : Tracked) : List ClusterEvent → Option Tracked
  | [] => some t
  | event :: events =>
      if allowed t event then
        match t.next lib hash event with
        | some t' => t'.afterAllowed lib hash allowed events
        | none => none
      else none

/-- A run goes on with events that are allowed where they happen. -/
theorem ClusterRun.afterAllowed {lib : External} {hash : String → UInt64}
    {allowed : Tracked → ClusterEvent → Prop} [∀ t event, Decidable (allowed t event)]
    {events : List ClusterEvent} {t t' : Tracked} (hrun : ClusterRun lib hash allowed t)
    (h : t.afterAllowed lib hash allowed events = some t') : ClusterRun lib hash allowed t' := by
  induction events generalizing t with
  | nil =>
      cases h
      exact hrun
  | cons event events ih =>
      unfold Tracked.afterAllowed at h
      split at h
      · rename_i hallowed
        split at h
        · rename_i next hnext
          exact ih (.tail hrun (Tracked.next_step hnext hallowed)) h
        · cases h
      · cases h

instance (io : SaveIo) : Decidable (io = .completes) :=
  match io with
  | .completes => isTrue rfl
  | .stops _ _ => isFalse nofun

end StorageMetadata
end ObjectStore
