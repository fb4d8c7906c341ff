import ObjectStore.StorageMetadata.Dispatch

/-!
# Storage metadata - The registry of storage nodes in a cluster

A storage node registers with one metadata node.  That node stores it under a random id and
broadcasts the request, and every peer registers the address again, under an id that it
draws itself: `put_storage_node` and `delete_storage_node` in `main.rs`,
`broadcast_put_storage_node` and `broadcast_delete_storage_node` in `cluster_service.rs`.

Main definitions:

- `RegistryRequest`, `StableCluster.register`: a request with its broadcasts.
- `StableCluster.RegistriesAgree`: the same address under every id, on all nodes.

Main results:

- Theorem `registriesAgree_put_iff`: what one registration does to the agreement.
- Theorem `registries_agree_iff`: along which sequences of requests the registries agree.
-/

namespace ObjectStore
namespace StorageMetadata

/-! ## Requests -/

/-- The requests that change the registry.  Every node has numbers of its own to draw from. -/
inductive RegistryRequest where
  | putStorageNode (address : String) (draws : String → List UInt64)
  | deleteStorageNode (id : UInt64)

/-- The address registered under an id. -/
def MetadataStore.addressOf (self : MetadataStore) (id : UInt64) : Option String :=
  (self.storageNodes[id]?).map (·.address)

namespace StorageMetadataImpl

/-- `broadcast_put_storage_node`; the response is not looked at. -/
def broadcastPutStorageNode (lib : External) (draws : List UInt64) (self : StorageMetadataImpl)
    (address : String) : Option StorageMetadataImpl :=
  (self.metadataStore.constructStorageNode lib draws address).map fun result =>
    self.withStore result.2

/-- `broadcast_delete_storage_node`. -/
def broadcastDeleteStorageNode (self : StorageMetadataImpl) (id : UInt64) :
    StorageMetadataImpl :=
  self.withStore (self.metadataStore.deleteStorageNode id).2

end StorageMetadataImpl

namespace StableCluster

variable {Client : Type} {hash : String → UInt64} (cluster : StableCluster Client hash)
  (lib : External)

/-- The nodes that a broadcast of `node` reaches, one after the other. -/
def peers (node : String) : List String :=
  (cluster.manager node).getAllPeerAddrs.map cluster.resolve

/-- The peers register the address. -/
def broadcastPut (address : String) (draws : String → List UInt64) (services : Services) :
    List String → Option Services
  | [] => some services
  | peer :: peers =>
      match (services peer).broadcastPutStorageNode lib (draws peer) address with
      | none => none
      | some service =>
          broadcastPut address draws (Function.update services peer service) peers

/-- The peers delete the id. -/
def broadcastDelete (id : UInt64) (services : Services) (peers : List String) : Services :=
  peers.foldl
    (fun services peer =>
      Function.update services peer ((services peer).broadcastDeleteStorageNode id))
    services

/-- A request for the registry at `node`, with its broadcasts; none while some node goes on
drawing. -/
def register (services : Services) (node : String) : RegistryRequest → Option Services
  | .putStorageNode address draws =>
      match (services node).putStorageNode lib (draws node) address with
      | none => none
      | some (.error _, service) => some (Function.update services node service)
      | some (.ok _, service) =>
          broadcastPut lib address draws (Function.update services node service)
            (cluster.peers node)
  | .deleteStorageNode id =>
      match (services node).deleteStorageNode id with
      | (.error _, service) => some (Function.update services node service)
      | (.ok _, service) =>
          some (broadcastDelete id (Function.update services node service) (cluster.peers node))

/-! ## Peers -/

theorem peers_eq {node : String} (hnode : node ∈ cluster.members) :
    cluster.peers node = (cluster.manager node).peerAddrs.keys.filter fun peer => peer ≠ node := by
  unfold peers ClusterManager.getAllPeerAddrs
  rw [List.map_map, ← Std.ExtTreeMap.map_fst_toList_eq_keys, List.filter_map,
    cluster.nodeId_eq node hnode]
  apply List.map_congr_left
  intro entry hentry
  have hfound := Std.ExtTreeMap.mem_toList_iff_getElem?_eq_some.mp (List.mem_filter.mp hentry).1
  exact (cluster.resolves node hnode entry.1 entry.2 hfound).2

theorem nodup_peers {node : String} (hnode : node ∈ cluster.members) :
    (cluster.peers node).Nodup := by
  rw [peers_eq cluster hnode]
  exact Std.ExtTreeMap.nodup_keys.filter _

theorem mem_peers {node : String} (hnode : node ∈ cluster.members) (peer : String) :
    peer ∈ cluster.peers node ↔ peer ∈ cluster.members ∧ peer ≠ node := by
  rw [peers_eq cluster hnode, List.mem_filter, Std.ExtTreeMap.mem_keys,
    HashMap.mem_iff_exists_getElem?, decide_eq_true_eq]
  constructor
  · rintro ⟨⟨addr, haddr⟩, hne⟩
    exact ⟨(cluster.resolves node hnode peer addr haddr).1, hne⟩
  · rintro ⟨hmem, hne⟩
    exact ⟨cluster.known node hnode peer hmem hne, hne⟩

/-! ## What a request leaves -/

/-- The registry of a node. -/
abbrev registryOf (services : Services) (node : String) : HashMap UInt64 MetaStorageNode :=
  (services node).metadataStore.storageNodes

theorem putStorageNode_eq_some {draws : List UInt64} {node service : StorageMetadataImpl}
    {address : String} {answer : Except Status UInt64}
    (h : node.putStorageNode lib draws address = some (answer, service)) :
    ∃ id, MetadataStore.generateUniqueId draws node.metadataStore.storageNodes = some id ∧
      if lib.isUri address then
        answer = .ok id ∧ service.metadataStore.storageNodes =
          node.metadataStore.storageNodes.insert id ⟨id, address⟩
      else (∃ status, answer = .error status) ∧ service = node := by
  unfold StorageMetadataImpl.putStorageNode MetadataStore.constructStorageNode at h
  rw [Option.map_map] at h
  rcases Option.map_eq_some_iff.mp h with ⟨id, hid, heq⟩
  refine ⟨id, hid, ?_⟩
  by_cases hvalid : lib.isUri address
  · simp only [Function.comp_apply, MetadataStore.newStorageNode, hvalid, if_true] at heq ⊢
    cases heq
    exact ⟨rfl, rfl⟩
  · simp only [Function.comp_apply, MetadataStore.newStorageNode, hvalid] at heq ⊢
    cases heq
    exact ⟨⟨_, rfl⟩, rfl⟩

theorem broadcastPutStorageNode_eq_some {draws : List UInt64}
    {node service : StorageMetadataImpl} {address : String} (hvalid : lib.isUri address)
    (h : node.broadcastPutStorageNode lib draws address = some service) :
    ∃ id, MetadataStore.generateUniqueId draws node.metadataStore.storageNodes = some id ∧
      service.metadataStore.storageNodes =
        node.metadataStore.storageNodes.insert id ⟨id, address⟩ := by
  unfold StorageMetadataImpl.broadcastPutStorageNode MetadataStore.constructStorageNode at h
  rw [Option.map_map] at h
  rcases Option.map_eq_some_iff.mp h with ⟨id, hid, heq⟩
  refine ⟨id, hid, ?_⟩
  simp only [Function.comp_apply, MetadataStore.newStorageNode, hvalid, if_true] at heq
  cases heq
  rfl

theorem deleteStorageNode_registry (s : MetadataStore) (id : UInt64) :
    (s.deleteStorageNode id).2.storageNodes = s.storageNodes.erase id := by
  unfold MetadataStore.deleteStorageNode
  split
  · rfl
  · rename_i hid
    exact (HashMap.erase_of_not_mem fun hmem => hid (Std.ExtTreeMap.mem_iff_contains.mp hmem)).symm

theorem broadcastPut_eq_some {address : String} {draws : String → List UInt64}
    {services services' : Services} {peers : List String} (hnodup : peers.Nodup)
    (h : broadcastPut lib address draws services peers = some services') :
    (∀ peer ∈ peers, (services peer).broadcastPutStorageNode lib (draws peer) address =
      some (services' peer)) ∧
    ∀ other, other ∉ peers → services' other = services other := by
  induction peers generalizing services with
  | nil =>
      cases h
      simp
  | cons peer peers ih =>
      have hnot : peer ∉ peers := (List.nodup_cons.mp hnodup).1
      unfold broadcastPut at h
      cases hput : (services peer).broadcastPutStorageNode lib (draws peer) address with
      | none => simp [hput] at h
      | some service =>
          simp only [hput] at h
          rcases ih (List.nodup_cons.mp hnodup).2 h with ⟨hpeers, hothers⟩
          constructor
          · intro other hother
            rcases List.mem_cons.mp hother with rfl | hother
            · rw [hput, hothers other hnot, Function.update_self]
            · have hne : other ≠ peer := fun heq => hnot (heq ▸ hother)
              have hcall := hpeers other hother
              rwa [Function.update_of_ne hne] at hcall
          · intro other hother
            have hne : other ≠ peer := fun heq => hother (heq ▸ List.mem_cons_self)
            rw [hothers other fun hmem => hother (List.mem_cons_of_mem _ hmem),
              Function.update_of_ne hne]

theorem broadcastDelete_eq {id : UInt64} {services : Services} {peers : List String}
    (hnodup : peers.Nodup) :
    (∀ peer ∈ peers, broadcastDelete id services peers peer =
      (services peer).broadcastDeleteStorageNode id) ∧
    ∀ other, other ∉ peers → broadcastDelete id services peers other = services other := by
  induction peers generalizing services with
  | nil => simp [broadcastDelete]
  | cons peer peers ih =>
      have hnot : peer ∉ peers := (List.nodup_cons.mp hnodup).1
      rcases @ih (Function.update services peer ((services peer).broadcastDeleteStorageNode id))
        (List.nodup_cons.mp hnodup).2 with ⟨hpeers, hothers⟩
      simp only [broadcastDelete, List.foldl_cons] at hpeers hothers ⊢
      constructor
      · intro other hother
        rcases List.mem_cons.mp hother with rfl | hother
        · rw [hothers other hnot, Function.update_self]
        · have hne : other ≠ peer := fun heq => hnot (heq ▸ hother)
          rw [hpeers other hother, Function.update_of_ne hne]
      · intro other hother
        have hne : other ≠ peer := fun heq => hother (heq ▸ List.mem_cons_self)
        rw [hothers other fun hmem => hother (List.mem_cons_of_mem _ hmem),
          Function.update_of_ne hne]

/-- A registration of a valid address: every node stores it under an id of its own. -/
theorem register_put {address : String} (hvalid : lib.isUri address)
    {draws : String → List UInt64} {services services' : Services} {node : String}
    (hnode : node ∈ cluster.members)
    (h : cluster.register lib services node (.putStorageNode address draws) = some services') :
    ∀ peer ∈ cluster.members, ∃ id,
      MetadataStore.generateUniqueId (draws peer) (registryOf services peer) = some id ∧
        registryOf services' peer = (registryOf services peer).insert id ⟨id, address⟩ := by
  unfold register at h
  simp only at h
  cases hput : (services node).putStorageNode lib (draws node) address with
  | none => simp [hput] at h
  | some result =>
      rcases result with ⟨answer, service⟩
      rcases putStorageNode_eq_some lib hput with ⟨id, hid, hresult⟩
      rw [if_pos hvalid] at hresult
      rcases hresult with ⟨rfl, hregistry⟩
      simp only [hput] at h
      rcases broadcastPut_eq_some lib (cluster.nodup_peers hnode) h with ⟨hpeers, hothers⟩
      intro peer hpeer
      by_cases heq : peer = node
      · subst heq
        have hself : services' peer = service := by
          rw [hothers peer fun hmem => ((cluster.mem_peers hnode peer).mp hmem).2 rfl,
            Function.update_self]
        refine ⟨id, hid, ?_⟩
        rw [registryOf, hself, hregistry]
      · have hcall := hpeers peer ((cluster.mem_peers hnode peer).mpr ⟨hpeer, heq⟩)
        rw [Function.update_of_ne heq] at hcall
        exact broadcastPutStorageNode_eq_some lib hvalid hcall

/-- A registration of an address that is not valid. -/
theorem register_put_invalid {address : String} (hvalid : ¬ lib.isUri address)
    {draws : String → List UInt64} {services services' : Services} {node : String}
    (h : cluster.register lib services node (.putStorageNode address draws) = some services') :
    services' = services := by
  unfold register at h
  simp only at h
  cases hput : (services node).putStorageNode lib (draws node) address with
  | none => simp [hput] at h
  | some result =>
      rcases result with ⟨answer, service⟩
      rcases putStorageNode_eq_some lib hput with ⟨id, hid, hresult⟩
      rw [if_neg hvalid] at hresult
      rcases hresult with ⟨⟨status, rfl⟩, rfl⟩
      simp only [hput, Function.update_eq_self, Option.some.injEq] at h
      exact h.symm

/-- A deletion: every node that has the id drops it, if the receiver has it. -/
theorem register_delete {id : UInt64} {services services' : Services} {node : String}
    (hnode : node ∈ cluster.members)
    (h : cluster.register lib services node (.deleteStorageNode id) = some services') :
    if id ∈ registryOf services node then
      ∀ peer ∈ cluster.members, registryOf services' peer = (registryOf services peer).erase id
    else services' = services := by
  by_cases hmem : id ∈ registryOf services node
  · have hcontains := Std.ExtTreeMap.mem_iff_contains.mp hmem
    simp only [register, StorageMetadataImpl.deleteStorageNode, MetadataStore.deleteStorageNode,
      hcontains, if_true, Option.some.injEq] at h
    rw [if_pos hmem]
    intro peer hpeer
    have hdelete := @broadcastDelete_eq id (Function.update services node
      ((services node).withStore { (services node).metadataStore with
        storageNodes := (registryOf services node).erase id })) _ (cluster.nodup_peers hnode)
    rw [← h]
    by_cases heq : peer = node
    · subst heq
      have hself := hdelete.2 peer fun hpeers => ((cluster.mem_peers hnode peer).mp hpeers).2 rfl
      rw [registryOf, hself, Function.update_self]
      rfl
    · have hcall := hdelete.1 peer ((cluster.mem_peers hnode peer).mpr ⟨hpeer, heq⟩)
      rw [registryOf, hcall, Function.update_of_ne heq]
      exact deleteStorageNode_registry _ id
  · have hcontains : ¬ (services node).metadataStore.storageNodes.contains id :=
      fun hcontains => hmem (Std.ExtTreeMap.mem_iff_contains.mpr hcontains)
    simp only [register, StorageMetadataImpl.deleteStorageNode, MetadataStore.deleteStorageNode,
      hcontains] at h
    rw [if_neg hmem]
    cases h
    exact Function.update_eq_self node services

/-! ## Agreement -/

/-- All nodes have the same address under every id. -/
def RegistriesAgree (services : Services) : Prop :=
  ∀ node ∈ cluster.members, ∀ peer ∈ cluster.members, ∀ id,
    (services node).metadataStore.addressOf id = (services peer).metadataStore.addressOf id

/-- The first number that a node draws and has not registered. -/
def FirstFree (draws : List UInt64) (registry : HashMap UInt64 MetaStorageNode) (id : UInt64) :
    Prop :=
  id ∉ registry ∧ ∃ taken rest, draws = taken ++ id :: rest ∧ ∀ drawn ∈ taken, drawn ∈ registry

/-- Every node draws the same id, if the address is valid at all. -/
def DrawsAgree (services : Services) : RegistryRequest → Prop
  | .putStorageNode address draws => lib.isUri address = true →
      ∃ id, ∀ peer ∈ cluster.members, FirstFree (draws peer) (registryOf services peer) id
  | .deleteStorageNode _ => True

theorem generateUniqueId_eq_some_iff {draws : List UInt64}
    {registry : HashMap UInt64 MetaStorageNode} {id : UInt64} :
    MetadataStore.generateUniqueId draws registry = some id ↔ FirstFree draws registry id := by
  unfold MetadataStore.generateUniqueId FirstFree
  have hfree : (!registry.contains id) = true ↔ id ∉ registry := by
    rw [Bool.not_eq_true', ← Bool.not_eq_true, Std.ExtTreeMap.contains_iff_mem]
  rw [List.find?_eq_some_iff_append, hfree]
  simp

theorem addressOf_insert {s s' : MetadataStore} {id : UInt64} {address : String}
    (h : s'.storageNodes = s.storageNodes.insert id ⟨id, address⟩) (other : UInt64) :
    s'.addressOf other = if other = id then some address else s.addressOf other := by
  unfold MetadataStore.addressOf
  rw [h]
  by_cases heq : other = id
  · subst heq
    simp
  · rw [HashMap.getElem?_insert_of_ne _ _ heq, if_neg heq]

theorem addressOf_erase {s s' : MetadataStore} {id : UInt64}
    (h : s'.storageNodes = s.storageNodes.erase id) (other : UInt64) :
    s'.addressOf other = if other = id then none else s.addressOf other := by
  unfold MetadataStore.addressOf
  rw [h]
  by_cases heq : other = id
  · subst heq
    simp
  · rw [HashMap.getElem?_erase_of_ne _ heq, if_neg heq]

theorem addressOf_eq_none {s : MetadataStore} {id : UInt64} :
    s.addressOf id = none ↔ id ∉ s.storageNodes := by
  simp [MetadataStore.addressOf]

/-- A registration keeps the agreement exactly when every node draws the same id. -/
theorem registriesAgree_put_iff {address : String} {draws : String → List UInt64}
    {services services' : Services} {node : String} (hnode : node ∈ cluster.members)
    (hagree : cluster.RegistriesAgree services)
    (h : cluster.register lib services node (.putStorageNode address draws) = some services') :
    cluster.RegistriesAgree services' ↔
      cluster.DrawsAgree lib services (.putStorageNode address draws) := by
  unfold DrawsAgree
  by_cases hvalid : lib.isUri address
  · have hput := cluster.register_put lib hvalid hnode h
    simp only [hvalid, true_imp_iff]
    constructor
    · intro hafter
      rcases hput node hnode with ⟨id, hid, hregistry⟩
      have hfree := generateUniqueId_eq_some_iff.mp hid
      refine ⟨id, fun peer hpeer => ?_⟩
      rcases hput peer hpeer with ⟨id', hid', hregistry'⟩
      have haddress := hafter node hnode peer hpeer id
      rw [addressOf_insert hregistry, addressOf_insert hregistry', if_pos rfl] at haddress
      by_cases heq : id = id'
      · rw [heq]
        exact generateUniqueId_eq_some_iff.mp hid'
      · -- the id of the receiver is not registered at a peer that draws another one
        rw [if_neg heq, ← hagree node hnode peer hpeer id,
          addressOf_eq_none.mpr hfree.1] at haddress
        cases haddress
    · rintro ⟨id, hfree⟩ a ha b hb other
      rcases hput a ha with ⟨ida, hida, hregistry⟩
      rcases hput b hb with ⟨idb, hidb, hregistry'⟩
      rw [generateUniqueId_eq_some_iff.mpr (hfree a ha)] at hida
      rw [generateUniqueId_eq_some_iff.mpr (hfree b hb)] at hidb
      cases hida
      cases hidb
      rw [addressOf_insert hregistry, addressOf_insert hregistry', hagree a ha b hb other]
  · rw [cluster.register_put_invalid lib hvalid h]
    simp [hvalid, hagree]

/-- A deletion keeps the agreement. -/
theorem RegistriesAgree.delete {id : UInt64} {services services' : Services} {node : String}
    (hnode : node ∈ cluster.members) (hagree : cluster.RegistriesAgree services)
    (h : cluster.register lib services node (.deleteStorageNode id) = some services') :
    cluster.RegistriesAgree services' := by
  have hdelete := cluster.register_delete lib hnode h
  by_cases hmem : id ∈ registryOf services node
  · rw [if_pos hmem] at hdelete
    intro a ha b hb other
    rw [addressOf_erase (hdelete a ha), addressOf_erase (hdelete b hb), hagree a ha b hb other]
  · rw [if_neg hmem] at hdelete
    rw [hdelete]
    exact hagree

theorem registriesAgree_iff {request : RegistryRequest} {services services' : Services}
    {node : String} (hnode : node ∈ cluster.members) (hagree : cluster.RegistriesAgree services)
    (h : cluster.register lib services node request = some services') :
    cluster.RegistriesAgree services' ↔ cluster.DrawsAgree lib services request := by
  cases request with
  | putStorageNode address draws => exact cluster.registriesAgree_put_iff lib hnode hagree h
  | deleteStorageNode id =>
      simp only [DrawsAgree, iff_true]
      exact RegistriesAgree.delete cluster lib hnode hagree h

/-! ## Sequences of requests -/

/-- The registries agree after every request of the sequence. -/
def AgreeAlong (services : Services) : List (String × RegistryRequest) → Prop
  | [] => cluster.RegistriesAgree services
  | (node, request) :: requests => cluster.RegistriesAgree services ∧
      ∀ services', cluster.register lib services node request = some services' →
        AgreeAlong services' requests

/-- Every node draws the same id in every registration of the sequence. -/
def DrawsAgreeAlong (services : Services) : List (String × RegistryRequest) → Prop
  | [] => True
  | (node, request) :: requests =>
      ∀ services', cluster.register lib services node request = some services' →
        cluster.DrawsAgree lib services request ∧ DrawsAgreeAlong services' requests

theorem agreeAlong_iff {services : Services} (hagree : cluster.RegistriesAgree services)
    {requests : List (String × RegistryRequest)}
    (hnodes : ∀ request ∈ requests, request.1 ∈ cluster.members) :
    cluster.AgreeAlong lib services requests ↔
      cluster.DrawsAgreeAlong lib services requests := by
  induction requests generalizing services with
  | nil => simp [AgreeAlong, DrawsAgreeAlong, hagree]
  | cons request requests ih =>
      rcases request with ⟨node, request⟩
      have hnode : node ∈ cluster.members := hnodes (node, request) List.mem_cons_self
      have hrest := fun item hitem => hnodes item (List.mem_cons_of_mem _ hitem)
      simp only [AgreeAlong, DrawsAgreeAlong, hagree, true_and]
      apply forall_congr'
      intro services'
      apply imp_congr_right
      intro hregister
      have hstep := cluster.registriesAgree_iff lib hnode hagree hregister
      constructor
      · intro halong
        have hafter : cluster.RegistriesAgree services' := by
          cases requests with
          | nil => exact halong
          | cons head tail => exact halong.1
        exact ⟨hstep.mp hafter, (ih hafter hrest).mp halong⟩
      · rintro ⟨hdraws, halong⟩
        exact (ih (hstep.mpr hdraws) hrest).mpr halong

/-- Starting without storage nodes, all metadata nodes hold the same registry after every
request of a sequence, exactly when in every registration of a valid address all of them draw
the same id. -/
theorem registries_agree_iff (services : Services)
    (hempty : ∀ node ∈ cluster.members, registryOf services node = ∅)
    (requests : List (String × RegistryRequest))
    (hnodes : ∀ request ∈ requests, request.1 ∈ cluster.members) :
    cluster.AgreeAlong lib services requests ↔
      cluster.DrawsAgreeAlong lib services requests := by
  refine cluster.agreeAlong_iff lib ?_ hnodes
  intro node hnode peer hpeer id
  simp [MetadataStore.addressOf, hempty node hnode, hempty peer hpeer]

/-- A registration at `a` for which both nodes draw the same number, and then its deletion. -/
theorem registries_agree_iff_same_draw :
    twoNodes.AgreeAlong jsonLib (fun _ => freshNode)
      [("a", .putStorageNode "http://node-a:50051" fun _ => [1]), ("b", .deleteStorageNode 1)] := by
  refine (twoNodes.registries_agree_iff jsonLib (fun _ => freshNode) (fun _ _ => rfl) _
    (by simp [twoNodes])).mpr ?_
  intro services' _
  constructor
  · intro _
    exact ⟨1, fun _ _ => generateUniqueId_eq_some_iff.mp rfl⟩
  · intro services'' _
    exact ⟨trivial, trivial⟩

/-- A registration at `a`: the peer draws another number and knows the storage node by it. -/
theorem registration_under_two_ids :
    ¬ twoNodes.AgreeAlong jsonLib (fun _ => freshNode)
      [("a", .putStorageNode "http://node-a:50051"
        fun node => if node = "a" then [1] else [2])] := by
  rintro ⟨_, hafter⟩
  cases hregister : twoNodes.register jsonLib (fun _ => freshNode) "a"
      (.putStorageNode "http://node-a:50051" fun node => if node = "a" then [1] else [2]) with
  | none =>
      have hsome : (twoNodes.register jsonLib (fun _ => freshNode) "a" (.putStorageNode
          "http://node-a:50051" fun node => if node = "a" then [1] else [2])).isSome = true := by
        decide +kernel
      simp [hregister] at hsome
  | some services' =>
      have haddress :=
        hafter services' hregister "a" (by simp [twoNodes]) "b" (by simp [twoNodes]) 1
      have hids : (twoNodes.register jsonLib (fun _ => freshNode) "a" (.putStorageNode
          "http://node-a:50051" fun node => if node = "a" then [1] else [2])).map
          (fun services => ((services "a").metadataStore.addressOf 1,
            (services "b").metadataStore.addressOf 1)) =
          some (some "http://node-a:50051", none) := by
        decide +kernel
      simp only [hregister, Option.map_some, Option.some.injEq, Prod.mk.injEq] at hids
      rw [hids.1, hids.2] at haddress
      cases haddress

end StableCluster

end StorageMetadata
end ObjectStore
