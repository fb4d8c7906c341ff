import ObjectStore.Library.Xxh3
import ObjectStore.StorageMetadata.Json
import ObjectStore.StorageMetadata.Mutation
import ObjectStore.StorageMetadata.Restart

/-!
# Storage metadata - Listing the cluster

`list_objects` concatenates what every node holds.  It is exact as long as each node
holds the names it owns and no others, and a join keeps it so only if no stored name
moves to the new node.

Main results:

- Theorem `ListingOk.join_iff`: the joins that keep every part within its names.
- Theorem `listing_exact`: every run of such joins and of creations and deletions.
-/

namespace ObjectStore
namespace StorageMetadata

/-! ## What the nodes hold -/

/-- Every node holds the existing names that it owns, and no others. -/
structure ListingOk (hash : String → UInt64) (t : Tracked) : Prop where
  wellReferenced : ∀ (nodeId : String) (node : StorageMetadataImpl),
    t.cluster.nodes[nodeId]? = some node → WellReferenced node.metadataStore.maps
  vnodes : ∀ (position : UInt64) (nodeId : String),
    t.cluster.ring.ring[position]? = some nodeId → nodeId ∈ t.cluster.nodes
  holds : ∀ (nodeId name : String) (node : StorageMetadataImpl),
    t.cluster.nodes[nodeId]? = some node →
      (name ∈ node.metadataStore.objects ↔
        t.cluster.ring.getOwner hash name = some nodeId ∧ t.acknowledged name ≠ none)
  unowned : ∀ name : String, t.cluster.ring.getOwner hash name = none →
    t.acknowledged name = none

/-- No stored name gets `nodeId` as its owner when `nodeId` joins, and none lies in the
ranges that it pulls. -/
def MovesNothing (hash : String → UInt64) (cluster : Cluster) (nodeId : String) : Prop :=
  ∀ (peer name : String) (node : StorageMetadataImpl), cluster.nodes[peer]? = some node →
    name ∈ node.metadataStore.objects →
      (cluster.ring.addNode hash nodeId).getOwner hash name ≠ some nodeId ∧
        HashRing.hashInRanges (HashRing.hashKey hash name)
          ((cluster.ring.addNode hash nodeId).getOwnedRanges nodeId) = false

/-- Joins, creations and deletions without failures. -/
def CreatesOrDeletes : ClusterEvent → Prop
  | .join _ peers => ∀ peer ∈ peers, peer.2 = .completes
  | .request _ (.putObject _ _) io => io = .completes
  | .request _ (.deleteObject _) io => io = .completes
  | _ => False

/-- The same, with joins that move no stored name. -/
def UndisturbedListing (hash : String → UInt64) (t : Tracked) (event : ClusterEvent) : Prop :=
  CreatesOrDeletes event ∧
    ∀ nodeId peers, event = .join nodeId peers → MovesNothing hash t.cluster nodeId

variable {lib : External} {hash : String → UInt64} {t : Tracked} {nodeId : String}

theorem listingOk_new (hash : String → UInt64) : ListingOk hash Tracked.new where
  wellReferenced := by simp [Tracked.new, Cluster.new]
  vnodes := by simp [Tracked.new, Cluster.new, HashRing.new]
  holds := by simp [Tracked.new, Cluster.new]
  unowned := by simp [Tracked.new]

/-- An existing name is stored by its owner. -/
theorem ListingOk.exists_holder (h : ListingOk hash t) {name : String}
    (hname : t.acknowledged name ≠ none) :
    ∃ (owner : String) (node : StorageMetadataImpl), t.cluster.nodes[owner]? = some node ∧
      name ∈ node.metadataStore.objects := by
  cases howner : t.cluster.ring.getOwner hash name with
  | none => exact absurd (h.unowned name howner) hname
  | some owner =>
      rcases HashRing.mem_nodes_of_getOwner howner with ⟨position, hposition⟩
      rcases HashMap.mem_iff_exists_getElem?.mp (h.vnodes position owner hposition) with
        ⟨node, hnode⟩
      exact ⟨owner, node, hnode, (h.holds owner name node hnode).mpr ⟨howner, hname⟩⟩

/-! ## Joins -/

variable {ranges : List (UInt64 × UInt64)} {cluster : Cluster}

/-- Nothing is taken over from a source without names in the ranges. -/
theorem takeOver_of_none_sent {source dest : MetadataStore} (hkeyed : Keyed source.maps)
    (hnone : ∀ name object, ¬ Sent hash ranges source name object) :
    source.takeOver hash ranges dest = dest := by
  have hbatch : source.objectsInHashRanges hash ranges = [] := by
    rw [List.eq_nil_iff_forall_not_mem]
    rintro ⟨object, chunks⟩ hmem
    exact hnone _ _ ((mem_batch hkeyed).mp hmem).1
  simp [MetadataStore.takeOver, hbatch, MetadataStore.ingest]

/-- A node that pulls keeps its names and gets those that are sent to it. -/
theorem mem_pullFrom {node source : StorageMetadataImpl} {peer : String × SaveIo}
    (hsource : cluster.nodes[peer.1]? = some source) (hkeyed : Keyed source.metadataStore.maps)
    {name : String} :
    name ∈ (cluster.pullFrom lib hash ranges node peer).metadataStore.objects ↔
      (∃ object, Sent hash ranges source.metadataStore name object) ∨
        name ∈ node.metadataStore.objects := by
  have hobjects : (cluster.pullFrom lib hash ranges node peer).metadataStore.objects =
      (source.metadataStore.takeOver hash ranges node.metadataStore).objects := by
    have hmaps := pullPartition_maps lib peer.2 hash ranges source.metadataStore node
    unfold Cluster.pullFrom
    rw [hsource]
    exact congrArg Maps.objects hmaps
  rw [hobjects]
  by_cases hsent : ∃ object, Sent hash ranges source.metadataStore name object
  · rcases hsent with ⟨object, hsent⟩
    have hstored := @takeOver_object_of_sent hash ranges source.metadataStore
      node.metadataStore hkeyed name object hsent
    constructor
    · intro _
      exact .inl ⟨object, hsent⟩
    · intro _
      exact HashMap.mem_iff_exists_getElem?.mpr ⟨_, hstored⟩
  · have hnone : ∀ object, ¬ Sent hash ranges source.metadataStore name object := by
      intro object hobject
      exact hsent ⟨object, hobject⟩
    have hkept := @takeOver_object_of_not_sent hash ranges source.metadataStore
      node.metadataStore hkeyed name hnone
    simp only [HashMap.mem_iff_exists_getElem?, hkept, hsent, false_or]

/-- After all pulls a new node has the stored names in the ranges. -/
theorem mem_pulls (hkeyed : ∀ (peer : String) (source : StorageMetadataImpl),
      cluster.nodes[peer]? = some source → Keyed source.metadataStore.maps)
    {peers : List (String × SaveIo)} (hpeers : ∀ peer ∈ peers, peer.1 ∈ cluster.nodes)
    {node : StorageMetadataImpl} {name : String} :
    name ∈ (peers.foldl (cluster.pullFrom lib hash ranges) node).metadataStore.objects ↔
      (∃ peer ∈ peers, ∃ source : StorageMetadataImpl, cluster.nodes[peer.1]? = some source ∧
        ∃ object, Sent hash ranges source.metadataStore name object) ∨
        name ∈ node.metadataStore.objects := by
  induction peers generalizing node with
  | nil => simp
  | cons first rest ih =>
      rcases HashMap.mem_iff_exists_getElem?.mp (hpeers first List.mem_cons_self) with
        ⟨source, hsource⟩
      have hfirst := @mem_pullFrom lib hash ranges cluster node source first hsource
        (hkeyed first.1 source hsource) name
      rw [List.foldl_cons, ih fun peer hpeer => hpeers peer (List.mem_cons_of_mem _ hpeer), hfirst]
      simp only [List.mem_cons, exists_eq_or_imp, hsource, Option.some.injEq, exists_eq_left']
      exact or_left_comm.trans or_assoc.symm

/-- A node that joins ends up with the stored names in its ranges. -/
theorem mem_joined {peers : List (String × SaveIo)} (h : ListingOk hash t)
    (hnew : nodeId ∉ t.cluster.nodes) (hpeers : t.cluster.ListsPeers nodeId peers)
    {name : String} :
    name ∈ ((t.cluster.withMember hash nodeId).migrateOnJoin lib hash nodeId freshNode
        peers).metadataStore.objects ↔
      ∃ (peer : String) (source : StorageMetadataImpl), t.cluster.nodes[peer]? = some source ∧
        ∃ object, Sent hash ((t.cluster.ring.addNode hash nodeId).getOwnedRanges nodeId)
          source.metadataStore name object := by
  have hring : (t.cluster.withMember hash nodeId).ring = t.cluster.ring.addNode hash nodeId := by
    simp only [Cluster.withMember]
  have hfresh : name ∉ freshNode.metadataStore.objects := by
    simp [freshNode, MetadataStore.fresh]
  unfold Cluster.migrateOnJoin
  rw [hring]
  dsimp only
  split
  · rename_i hempty
    rw [List.isEmpty_iff.mp hempty]
    simp [hfresh, Sent, HashRing.hashInRanges]
  · have hsources : ∀ (peer : String) (source : StorageMetadataImpl),
        (t.cluster.withMember hash nodeId).nodes[peer]? = some source →
          Keyed source.metadataStore.maps := by
      intro peer source hsource
      rw [Cluster.withMember_nodes] at hsource
      exact (h.wellReferenced peer source hsource).toKeyed
    have hlisted : ∀ peer ∈ peers, peer.1 ∈ (t.cluster.withMember hash nodeId).nodes := by
      intro peer hpeer
      rw [Cluster.withMember_nodes]
      exact ((hpeers peer.1).mp (List.mem_map_of_mem hpeer)).1
    rw [mem_pulls hsources hlisted]
    simp only [Cluster.withMember_nodes, hfresh, or_false]
    constructor
    · rintro ⟨peer, _, source, hsource, hsent⟩
      exact ⟨peer.1, source, hsource, hsent⟩
    · rintro ⟨peer, source, hsource, hsent⟩
      have hmem : peer ∈ t.cluster.nodes := HashMap.mem_iff_exists_getElem?.mpr ⟨source, hsource⟩
      have hne : peer ≠ nodeId := fun heq => hnew (heq ▸ hmem)
      rcases List.mem_map.mp ((hpeers peer).mpr ⟨hmem, hne⟩) with ⟨found, hfound, rfl⟩
      exact ⟨found, hfound, source, hsource, hsent⟩

/-- A join that moves nothing leaves the new node empty. -/
theorem joined_maps {peers : List (String × SaveIo)} (h : ListingOk hash t)
    (hmoves : MovesNothing hash t.cluster nodeId) :
    ((t.cluster.withMember hash nodeId).migrateOnJoin lib hash nodeId freshNode
        peers).metadataStore.maps = Maps.empty := by
  have hring : (t.cluster.withMember hash nodeId).ring = t.cluster.ring.addNode hash nodeId := by
    simp only [Cluster.withMember]
  unfold Cluster.migrateOnJoin
  rw [hring]
  dsimp only
  split
  · rfl
  · have hpull : ∀ (node : StorageMetadataImpl) (peer : String × SaveIo),
        ((t.cluster.withMember hash nodeId).pullFrom lib hash
          ((t.cluster.ring.addNode hash nodeId).getOwnedRanges nodeId) node
          peer).metadataStore.maps = node.metadataStore.maps := by
      intro node peer
      unfold Cluster.pullFrom
      rw [Cluster.withMember_nodes]
      cases hsource : t.cluster.nodes[peer.1]? with
      | none => rfl
      | some source =>
          dsimp only
          rw [pullPartition_maps, takeOver_of_none_sent (h.wellReferenced _ _ hsource).toKeyed]
          rintro name object ⟨hname, hrange⟩
          have hmem : name ∈ source.metadataStore.objects :=
            HashMap.mem_iff_exists_getElem?.mpr ⟨object, hname⟩
          rw [(hmoves peer.1 name source hsource hmem).2] at hrange
          cases hrange
    have hpulls : ∀ node : StorageMetadataImpl,
        (peers.foldl ((t.cluster.withMember hash nodeId).pullFrom lib hash
          ((t.cluster.ring.addNode hash nodeId).getOwnedRanges nodeId))
          node).metadataStore.maps = node.metadataStore.maps := by
      induction peers with
      | nil => exact fun _ => rfl
      | cons first rest ih =>
          intro node
          rw [List.foldl_cons, ih, hpull]
    exact hpulls freshNode

/-- A node keeps what it holds when another one joins. -/
theorem getElem?_joined {nodes : HashMap String StorageMetadataImpl}
    (hnew : nodeId ∉ nodes) (joined : StorageMetadataImpl) {peer : String}
    {node : StorageMetadataImpl} (hnode : nodes[peer]? = some node) :
    peer ≠ nodeId ∧ (nodes.insert nodeId joined)[peer]? = some node := by
  have hne : peer ≠ nodeId := by
    rintro rfl
    exact hnew (HashMap.mem_iff_exists_getElem?.mpr ⟨node, hnode⟩)
  exact ⟨hne, (HashMap.getElem?_insert_of_ne _ _ hne).trans hnode⟩

/-- A join that moves a stored name breaks the listing. -/
theorem ListingOk.movesNothing_of_join {peers : List (String × SaveIo)} (h : ListingOk hash t)
    (hnew : nodeId ∉ t.cluster.nodes) (hpeers : t.cluster.ListsPeers nodeId peers)
    (hafter : ListingOk hash { t with cluster := t.cluster.join lib hash nodeId peers }) :
    MovesNothing hash t.cluster nodeId := by
  rw [Cluster.join_eq] at hafter
  intro peer name node hnode hname
  rcases getElem?_joined hnew ((t.cluster.withMember hash nodeId).migrateOnJoin lib hash nodeId
    freshNode peers) hnode with ⟨hne, hkept⟩
  have howner : (t.cluster.ring.addNode hash nodeId).getOwner hash name = some peer :=
    ((hafter.holds peer name node hkept).mp hname).1
  constructor
  · rw [howner]
    simpa using hne
  · rcases HashMap.mem_iff_exists_getElem?.mp hname with ⟨object, hobject⟩
    rw [Bool.eq_false_iff]
    intro hrange
    -- The new node has pulled the name as well, and a name has one owner.
    have hpulled := (@mem_joined lib hash t nodeId peers h hnew hpeers name).mpr
      ⟨peer, node, hnode, object, hobject, hrange⟩
    have howner' : (t.cluster.ring.addNode hash nodeId).getOwner hash name = some nodeId :=
      ((hafter.holds nodeId name _ Std.ExtTreeMap.getElem?_insert_self).mp hpulled).1
    exact hne (Option.some.inj (howner.symm.trans howner'))

/-- An empty node takes over no stored name. -/
theorem ListingOk.extend (h : ListingOk hash t) {ring : HashRing} {joined : StorageMetadataImpl}
    (hempty : joined.metadataStore.maps = Maps.empty)
    (hvnodes : ∀ (position : UInt64) (owner : String), ring.ring[position]? = some owner →
      owner = nodeId ∨ t.cluster.ring.ring[position]? = some owner)
    (howners : ∀ name owner : String, ring.getOwner hash name = some owner →
      owner = nodeId ∨ t.cluster.ring.getOwner hash name = some owner)
    (howned : ∀ name : String, ∃ owner, ring.getOwner hash name = some owner)
    (hstays : ∀ (peer name : String) (node : StorageMetadataImpl),
      t.cluster.nodes[peer]? = some node → name ∈ node.metadataStore.objects →
        ring.getOwner hash name ≠ some nodeId) :
    ListingOk hash ⟨⟨ring, t.cluster.nodes.insert nodeId joined⟩, t.acknowledged⟩ where
  wellReferenced := by
    intro peer node hnode
    by_cases heq : peer = nodeId
    · subst heq
      rw [← HashMap.getElem?_insert_same _ hnode, hempty]
      exact ⟨integrity_empty, keyed_empty⟩
    · exact h.wellReferenced peer node
        ((HashMap.getElem?_insert_of_ne _ _ heq).symm.trans hnode)
  vnodes := by
    intro position owner howner
    rw [Std.ExtTreeMap.mem_insert]
    rcases hvnodes position owner howner with rfl | hold
    · exact .inl Std.ReflCmp.compare_self
    · exact .inr (h.vnodes position owner hold)
  holds := by
    intro peer name node hnode
    by_cases heq : peer = nodeId
    · subst heq
      have hnone : name ∉ node.metadataStore.objects := by
        have hobjects : joined.metadataStore.objects = ∅ := congrArg Maps.objects hempty
        rw [← HashMap.getElem?_insert_same _ hnode, hobjects]
        exact Std.ExtTreeMap.not_mem_empty
      constructor
      · intro hmem
        exact absurd hmem hnone
      · rintro ⟨howner, hname⟩
        rcases h.exists_holder hname with ⟨holder, source, hsource, hmem⟩
        exact absurd howner (hstays holder name source hsource hmem)
    · have hnode' : t.cluster.nodes[peer]? = some node :=
        (HashMap.getElem?_insert_of_ne _ _ heq).symm.trans hnode
      rw [h.holds peer name node hnode']
      constructor
      · rintro ⟨howner, hname⟩
        have hmem := (h.holds peer name node hnode').mpr ⟨howner, hname⟩
        refine ⟨?_, hname⟩
        rcases howned name with ⟨owner, howner'⟩
        rcases howners name owner howner' with rfl | howner''
        · exact absurd howner' (hstays peer name node hnode' hmem)
        · rw [howner', ← howner'', howner]
      · rintro ⟨howner, hname⟩
        rcases howners name peer howner with hself | howner'
        · exact absurd hself heq
        · exact ⟨howner', hname⟩
  unowned := by
    intro name hnone
    rcases howned name with ⟨owner, howner⟩
    cases hnone.symm.trans howner

/-- A join that moves none keeps it. -/
theorem ListingOk.join {peers : List (String × SaveIo)} (h : ListingOk hash t)
    (hmoves : MovesNothing hash t.cluster nodeId) :
    ListingOk hash { t with cluster := t.cluster.join lib hash nodeId peers } := by
  rcases HashRing.exists_mem_addNode hash t.cluster.ring nodeId with ⟨position, hposition⟩
  rw [Cluster.join_eq]
  refine h.extend (joined_maps h hmoves) ?_ ?_ (HashRing.exists_getOwner hash hposition)
    fun peer name node hnode hmem => (hmoves peer name node hnode hmem).1
  · intro position owner howner
    rcases HashRing.getElem?_addNode hash t.cluster.ring nodeId position with hfound | hfound
    · exact .inl (Option.some.inj (howner.symm.trans hfound))
    · exact .inr (hfound.symm.trans howner)
  · intro name owner howner
    exact HashRing.getOwner_addNode howner

/-- The joins that leave every node with the existing names it owns are those that move
no stored name. -/
theorem ListingOk.join_iff {peers : List (String × SaveIo)} (h : ListingOk hash t)
    (hnew : nodeId ∉ t.cluster.nodes) (hpeers : t.cluster.ListsPeers nodeId peers) :
    ListingOk hash { t with cluster := t.cluster.join lib hash nodeId peers } ↔
      MovesNothing hash t.cluster nodeId := by
  constructor
  · exact h.movesNothing_of_join hnew hpeers
  · exact h.join

/-! ## Requests -/

/-- A served node that holds the existing names it owns. -/
theorem ListingOk.served (h : ListingOk hash t) {node' : StorageMetadataImpl}
    (hnode' : WellReferenced node'.metadataStore.maps) {acknowledged : String → Option View}
    (hsame : ∀ name, t.cluster.ring.getOwner hash name ≠ some nodeId →
      acknowledged name = t.acknowledged name)
    (hholds : ∀ name, name ∈ node'.metadataStore.objects ↔
      t.cluster.ring.getOwner hash name = some nodeId ∧ acknowledged name ≠ none) :
    ListingOk hash ⟨(t.served nodeId node').cluster, acknowledged⟩ where
  wellReferenced := by
    intro peer node hnode
    by_cases heq : peer = nodeId
    · subst heq
      rw [← HashMap.getElem?_insert_same _ hnode]
      exact hnode'
    · exact h.wellReferenced peer node
        ((HashMap.getElem?_insert_of_ne _ _ heq).symm.trans hnode)
  vnodes := by
    intro position owner howner
    have hold := h.vnodes position owner howner
    simp only [Tracked.served, Std.ExtTreeMap.mem_insert]
    exact .inr hold
  holds := by
    intro peer name node hnode
    by_cases heq : peer = nodeId
    · subst heq
      rw [← HashMap.getElem?_insert_same _ hnode]
      exact hholds name
    · rw [h.holds peer name node ((HashMap.getElem?_insert_of_ne _ _ heq).symm.trans hnode)]
      refine and_congr_right fun howner => ?_
      have hne : t.cluster.ring.getOwner hash name ≠ some nodeId := by
        rw [howner]
        simpa using heq
      simp only [hsame name hne]
  unowned := by
    intro name howner
    have hnone : t.cluster.ring.getOwner hash name = none := howner
    exact (hsame name (by rw [hnone]; simp)).trans (h.unowned name hnone)

/-- One event. -/
theorem ListingOk.step {t' : Tracked} (h : ListingOk hash t)
    (hstep : ClusterStep lib hash (UndisturbedListing hash) t t') : ListingOk hash t' := by
  cases hstep with
  | join hallowed hnew hpeers => exact h.join (hallowed.2 _ _ rfl)
  | restart hallowed hnode hcrash hreload hpeers => exact hallowed.1.elim
  | @acknowledged nodeId name node node' request io hallowed hnode hname howner hserve =>
      have hnodeOk := h.wellReferenced nodeId node hnode
      rcases serve_effect hserve with ⟨hfailed, _⟩ | ⟨other, m, hother, hmutation, hstore, _⟩
      · exact absurd rfl hfailed
      · cases hname.symm.trans hother
        have hobjects : node'.metadataStore.objects = m.objects := by
          rw [hstore, save_objects]
        have hholds : ∀ other : String, other ∈ node'.metadataStore.objects ↔
            t.cluster.ring.getOwner hash other = some nodeId ∧
              ((t.served nodeId node').acknowledge node'.metadataStore name).acknowledged other ≠
                none := by
          intro other
          by_cases heq : other = name
          · subst heq
            rw [Tracked.acknowledge_self, ne_eq, view_eq_none_iff]
            simp [howner, MetadataStore.maps]
          · rw [Tracked.acknowledge_of_ne _ _ heq, HashMap.mem_iff_exists_getElem?, hobjects,
              hmutation.objects heq, ← HashMap.mem_iff_exists_getElem?]
            exact h.holds nodeId other node hnode
        have hwell : WellReferenced node'.metadataStore.maps := by
          rw [hstore, save_maps]
          exact hmutation.wellReferenced hnodeOk
        refine h.served hwell (fun other hne => ?_) hholds
        refine Tracked.acknowledge_of_ne _ _ ?_
        rintro rfl
        exact hne howner
  | @refused nodeId node node' request io status hallowed hnode howner hserve =>
      have hnodeOk := h.wellReferenced nodeId node hnode
      rcases serve_effect hserve with ⟨_, hleft⟩ | ⟨_, m, _, _, _, hok⟩
      · refine h.served (hleft.wellReferenced hnodeOk) (fun _ _ => rfl) fun name => ?_
        rw [hleft.objects_eq]
        exact h.holds nodeId name node hnode
      · have hcompletes : io = .completes := by
          cases request <;> first | exact hallowed.1 | exact hallowed.1.elim
        cases hok.mpr hcompletes
  | registry hallowed hnode => exact hallowed.1.elim

/-- A run. -/
theorem ClusterRun.listingOk (hrun : ClusterRun lib hash (UndisturbedListing hash) t) :
    ListingOk hash t := by
  induction hrun with
  | refl => exact listingOk_new hash
  | tail _ hstep ih => exact ih.step hstep

/-! ## Listing -/

/-- The names in the part of one node. -/
theorem listObjects_names {node : StorageMetadataImpl} (hkeyed : Keyed node.metadataStore.maps) :
    node.listObjects.map (·.name) = node.metadataStore.objects.keys := by
  have hentries : ∀ entry ∈ node.metadataStore.objects.toList, entry.2.name = entry.1 := by
    rintro ⟨name, object⟩ hentry
    exact hkeyed.object (Std.ExtTreeMap.mem_toList_iff_getElem?_eq_some.mp hentry)
  rw [← Std.ExtTreeMap.map_fst_toList_eq_keys]
  simp only [StorageMetadataImpl.listObjects, MetadataStore.listObjects, HashMap.valueList,
    List.map_map]
  exact List.map_congr_left hentries

/-- `peers` lists the addresses of the other nodes, each once. -/
def Cluster.ListsEachPeer (cluster : Cluster) (nodeId : String) (peers : List String) : Prop :=
  peers.Nodup ∧ ∀ peer, peer ∈ peers ↔ peer ∈ cluster.nodes ∧ peer ≠ nodeId

/-- The parts together name what exists, each name once. -/
theorem ListingOk.listObjects (h : ListingOk hash t) (hnode : nodeId ∈ t.cluster.nodes)
    {peers : List String} (hpeers : t.cluster.ListsEachPeer nodeId peers) :
    ((t.cluster.listObjects nodeId peers).map (·.name)).Nodup ∧
      ∀ name, name ∈ (t.cluster.listObjects nodeId peers).map (·.name) ↔
        t.acknowledged name ≠ none := by
  have hpart : ∀ peer ∈ nodeId :: peers, ∃ node : StorageMetadataImpl,
      t.cluster.nodes[peer]? = some node := by
    intro peer hpeer
    refine HashMap.mem_iff_exists_getElem?.mp ?_
    rcases List.mem_cons.mp hpeer with rfl | hpeer
    · exact hnode
    · exact ((hpeers.2 peer).mp hpeer).1
  let names (peer : String) : List String :=
    (t.cluster.nodes[peer]?).elim [] fun node => node.metadataStore.objects.keys
  have hnames : (t.cluster.listObjects nodeId peers).map (·.name) =
      (nodeId :: peers).flatMap names := by
    rw [Cluster.listObjects, List.map_flatMap]
    refine List.flatMap_congr fun peer hpeer => ?_
    rcases hpart peer hpeer with ⟨node, hnode⟩
    simp only [names, hnode, Option.elim_some]
    exact listObjects_names (h.wellReferenced peer node hnode).toKeyed
  have hmem : ∀ peer ∈ nodeId :: peers, ∀ name, name ∈ names peer ↔
      t.cluster.ring.getOwner hash name = some peer ∧ t.acknowledged name ≠ none := by
    intro peer hpeer name
    rcases hpart peer hpeer with ⟨node, hnode⟩
    simp only [names, hnode, Option.elim_some, Std.ExtTreeMap.mem_keys]
    exact h.holds peer name node hnode
  have hdistinct : (nodeId :: peers).Nodup := by
    refine List.nodup_cons.mpr ⟨fun hself => ?_, hpeers.1⟩
    exact ((hpeers.2 nodeId).mp hself).2 rfl
  rw [hnames]
  constructor
  · rw [List.nodup_flatMap]
    constructor
    · intro peer hpeer
      rcases hpart peer hpeer with ⟨node, hnode⟩
      simp only [names, hnode, Option.elim_some]
      exact Std.ExtTreeMap.nodup_keys
    · refine hdistinct.imp_of_mem fun hpeer hpeer' hne name hname hname' => ?_
      have howner := ((hmem _ hpeer name).mp hname).1
      have howner' := ((hmem _ hpeer' name).mp hname').1
      exact hne (Option.some.inj (howner.symm.trans howner'))
  · intro name
    rw [List.mem_flatMap]
    constructor
    · rintro ⟨peer, hpeer, hname⟩
      exact ((hmem peer hpeer name).mp hname).2
    · intro hname
      rcases h.exists_holder hname with ⟨owner, node, howner, hstored⟩
      have hlisted : owner ∈ nodeId :: peers := by
        by_cases heq : owner = nodeId
        · exact List.mem_cons.mpr (.inl heq)
        · refine List.mem_cons_of_mem _ ((hpeers.2 owner).mpr ⟨?_, heq⟩)
          exact HashMap.mem_iff_exists_getElem?.mpr ⟨node, howner⟩
      exact ⟨owner, hlisted, (hmem owner hlisted name).mpr
        ((h.holds owner name node howner).mp hstored)⟩

/-- In every run in which no join moves a stored name, `list_objects` at any node returns
each existing name once and nothing else, and the node's own part names what it owns. -/
theorem listing_exact (lib : External) (hash : String → UInt64) (t : Tracked)
    (hrun : ClusterRun lib hash (UndisturbedListing hash) t) (nodeId : String)
    (node : StorageMetadataImpl) (hnode : t.cluster.nodes[nodeId]? = some node)
    (peers : List String) (hpeers : t.cluster.ListsEachPeer nodeId peers) :
    ((t.cluster.listObjects nodeId peers).map (·.name)).Nodup ∧
      (∀ name, name ∈ (t.cluster.listObjects nodeId peers).map (·.name) ↔
        t.acknowledged name ≠ none) ∧
      ∀ name, name ∈ node.listObjects.map (·.name) →
        t.cluster.ring.getOwner hash name = some nodeId := by
  have hall := hrun.listingOk
  rcases hall.listObjects (HashMap.mem_iff_exists_getElem?.mpr ⟨node, hnode⟩) hpeers with
    ⟨hnodup, hnames⟩
  refine ⟨hnodup, hnames, fun name hname => ?_⟩
  rw [listObjects_names (hall.wellReferenced nodeId node hnode).toKeyed,
    Std.ExtTreeMap.mem_keys] at hname
  exact ((hall.holds nodeId name node hnode).mp hname).1

/-! ## Checked runs -/

/-- What is stored is listed, so the condition can be checked. -/
theorem movesNothing_iff {hash : String → UInt64} {cluster : Cluster} {nodeId : String} :
    MovesNothing hash cluster nodeId ↔
      ∀ entry ∈ cluster.nodes.toList, ∀ name ∈ entry.2.metadataStore.objects.keys,
        (cluster.ring.addNode hash nodeId).getOwner hash name ≠ some nodeId ∧
          HashRing.hashInRanges (HashRing.hashKey hash name)
            ((cluster.ring.addNode hash nodeId).getOwnedRanges nodeId) = false := by
  constructor
  · intro h entry hentry name hname
    exact h entry.1 name entry.2 (Std.ExtTreeMap.mem_toList_iff_getElem?_eq_some.mp hentry)
      (Std.ExtTreeMap.mem_keys.mp hname)
  · intro h peer name node hnode hname
    exact h (peer, node) (Std.ExtTreeMap.mem_toList_iff_getElem?_eq_some.mpr hnode) name
      (Std.ExtTreeMap.mem_keys.mpr hname)

instance (hash : String → UInt64) (cluster : Cluster) (nodeId : String) :
    Decidable (MovesNothing hash cluster nodeId) :=
  decidable_of_iff _ movesNothing_iff.symm

instance (event : ClusterEvent) : Decidable (CreatesOrDeletes event) :=
  match event with
  | .join _ peers => inferInstanceAs (Decidable (∀ peer ∈ peers, peer.2 = .completes))
  | .request _ (.putObject _ _) io => inferInstanceAs (Decidable (io = .completes))
  | .request _ (.deleteObject _) io => inferInstanceAs (Decidable (io = .completes))
  | .request _ (.putChunk ..) _ | .request _ (.confirmChunk ..) _
  | .request _ (.addChunkReplica ..) _ | .restart .. | .registry .. => isFalse id

instance (hash : String → UInt64) (t : Tracked) (event : ClusterEvent) :
    Decidable (UndisturbedListing hash t event) :=
  match event with
  | .join nodeId peers =>
      decidable_of_iff
        (CreatesOrDeletes (.join nodeId peers) ∧ MovesNothing hash t.cluster nodeId)
        (by simp [UndisturbedListing])
  | .request nodeId request io =>
      decidable_of_iff (CreatesOrDeletes (.request nodeId request io))
        (by simp [UndisturbedListing])
  | .restart .. | .registry .. => isFalse And.left

/-- `x` is created on `a` and stays there when `b` joins; then `k` is created on `b`. -/
theorem listing_exact_put :
    ∃ t, ClusterRun jsonLib Library.xxh3 (UndisturbedListing Library.xxh3) t ∧
      t.cluster.nodes.keys = ["a", "b"] ∧
      ((t.cluster.listObjects "a" ["b"]).map (·.name)).Nodup ∧
      "x" ∈ (t.cluster.listObjects "a" ["b"]).map (·.name) ∧
      "k" ∈ (t.cluster.listObjects "a" ["b"]).map (·.name) := by
  have hfacts : (Tracked.new.afterAllowed jsonLib Library.xxh3 (UndisturbedListing Library.xxh3)
      [.join "a" [], .request "a" (.putObject 7 "x") .completes, .join "b" [("a", .completes)],
        .request "b" (.putObject 7 "k") .completes]).map (fun t =>
          (t.acknowledged "x", t.acknowledged "k", t.cluster.nodes.keys)) =
      some (some (⟨"x", 7, [], 0⟩, []), some (⟨"k", 7, [], 0⟩, []), ["a", "b"]) := by
    decide +kernel
  rcases Option.map_eq_some_iff.mp hfacts with ⟨t, ht, hfacts⟩
  simp only [Prod.mk.injEq] at hfacts
  rcases hfacts with ⟨hx, hk, hkeys⟩
  have hrun : ClusterRun jsonLib Library.xxh3 (UndisturbedListing Library.xxh3) t :=
    ClusterRun.afterAllowed .refl ht
  have hmem : ∀ peer, peer ∈ t.cluster.nodes ↔ peer ∈ ["a", "b"] := by
    intro peer
    rw [← Std.ExtTreeMap.mem_keys, hkeys]
  rcases HashMap.mem_iff_exists_getElem?.mp ((hmem "a").mpr (by simp)) with ⟨node, hnode⟩
  have hpeers : t.cluster.ListsEachPeer "a" ["b"] := by
    refine ⟨List.nodup_singleton _, fun peer => ?_⟩
    rw [hmem]
    constructor
    · intro hpeer
      cases List.mem_singleton.mp hpeer
      simp
    · rintro ⟨hpeer, hne⟩
      simpa [hne] using hpeer
  rcases listing_exact jsonLib Library.xxh3 t hrun "a" node hnode ["b"] hpeers with
    ⟨hnodup, hnames, _⟩
  refine ⟨t, hrun, hkeys, hnodup, (hnames "x").mpr ?_, (hnames "k").mpr ?_⟩
  · rw [hx]
    simp
  · rw [hk]
    simp

/-- `k` is created on `a` and moves to `b`, which joins: it is listed twice.  After its
deletion it is still listed. -/
theorem moved_object_listed_twice :
    (∃ t, ClusterRun jsonLib Library.xxh3 (fun _ => CreatesOrDeletes) t ∧
      (t.cluster.listObjects "b" ["a"]).map (·.name) = ["k", "k"]) ∧
    ∃ t, ClusterRun jsonLib Library.xxh3 (fun _ => CreatesOrDeletes) t ∧ t.acknowledged "k" = none ∧
      (t.cluster.listObjects "b" ["a"]).map (·.name) = ["k"] := by
  have hfacts : (Tracked.new.after jsonLib Library.xxh3
      [.join "a" [], .request "a" (.putObject 7 "k") .completes,
        .join "b" [("a", .completes)]]).map
      (fun t => ((t.cluster.listObjects "b" ["a"]).map (·.name),
        (t.after jsonLib Library.xxh3 [.request "b" (.deleteObject "k") .completes]).map fun t =>
          (t.acknowledged "k", (t.cluster.listObjects "b" ["a"]).map (·.name)))) =
      some (["k", "k"], some (none, ["k"])) := by decide +kernel
  rcases Option.map_eq_some_iff.mp hfacts with ⟨moved, hmoved, hfacts⟩
  rcases Prod.mk.inj hfacts with ⟨htwice, hfacts⟩
  rcases Option.map_eq_some_iff.mp hfacts with ⟨deleted, hdeleted, hfacts⟩
  rcases Prod.mk.inj hfacts with ⟨hgone, hlisted⟩
  have hrun : ClusterRun jsonLib Library.xxh3 (fun _ => CreatesOrDeletes) moved :=
    ClusterRun.after (by simp [CreatesOrDeletes]) .refl hmoved
  constructor
  · exact ⟨moved, hrun, htwice⟩
  · exact ⟨deleted, hrun.after (by simp [CreatesOrDeletes]) hdeleted, hgone, hlisted⟩

end StorageMetadata
end ObjectStore
