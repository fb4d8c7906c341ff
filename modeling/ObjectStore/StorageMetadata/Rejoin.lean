import ObjectStore.Library.Xxh3
import ObjectStore.StorageMetadata.Json
import ObjectStore.StorageMetadata.Mutation
import ObjectStore.StorageMetadata.Restart

/-!
# Storage metadata - Rejoining

A peer keeps its copy of what it hands over, nothing keeps that copy up to date, and a
node that pulls overwrites whatever it has.  So an owner that restarts takes the oldest
state of an object back from its former owner.

Main results:

- Theorem `pulls_view`: what a node holds after it has pulled from all peers.
- Theorem `ClusterOk.step`: one event keeps every owner up to date, unless an outdated
  copy is pulled.
- Theorem `owner_reflects_last_mutation`: every run without outdated copies.
-/

namespace ObjectStore
namespace StorageMetadata

/-! ## One node -/

/-- A node whose file agrees with memory on every object, and whose objects have no
recorded size. -/
structure Healthy (lib : External) (s : MetadataStore) : Prop extends WellReferenced s.maps where
  sizeless : ∀ {name : String} {object : MetaObject}, s.objects[name]? = some object →
    object.totalSize = 0
  file : ∃ g, Persisted lib s.files g ∧ Agrees s.maps g ∧ Keyed g

variable {lib : External} {s m : MetadataStore} {name : String}

theorem healthy_fresh (lib : External) : Healthy lib freshNode.metadataStore where
  toIntegrity := integrity_empty
  toKeyed := keyed_empty
  sizeless := by simp [freshNode, MetadataStore.fresh]
  file := ⟨Maps.empty, .inl ⟨rfl, rfl⟩, .refl _, keyed_empty⟩

/-- A completed save brings the file up to date. -/
theorem healthy_save (hm : WellReferenced m.maps)
    (hsize : ∀ {name : String} {object : MetaObject}, m.objects[name]? = some object →
      object.totalSize = 0) : Healthy lib (m.save lib .completes).2 where
  toWellReferenced := by rwa [save_maps]
  sizeless := by
    intro name object hname
    rw [save_objects] at hname
    exact hsize hname
  file := by
    refine ⟨m.maps, .inr ?_, ?_, hm.toKeyed⟩
    · rw [save_main]
    · rw [save_maps]
      exact .refl _

theorem Mutation.sizeless (h : Mutation s name m)
    (hs : ∀ {name : String} {object : MetaObject}, s.objects[name]? = some object →
      object.totalSize = 0) {other : String} {object : MetaObject}
    (hobject : m.objects[other]? = some object) : object.totalSize = 0 := by
  by_cases hne : other = name
  · subst hne
    cases h with
    | create checksum hname =>
        rw [← HashMap.getElem?_insert_same _ hobject]
        rfl
    | attach id nodeId checksum hname hid hnode =>
        rw [← HashMap.getElem?_insert_same _ hobject]
        have hold := hs hname
        exact hold
    | replicate hchunk hname hnode hnew hroom => exact hs hobject
    | delete hname => exact hs (HashMap.getElem?_of_erase hobject)
  · rw [h.objects hne] at hobject
    exact hs hobject

theorem Healthy.mutation (hs : Healthy lib s) (h : Mutation s name m) :
    Healthy lib (m.save lib .completes).2 :=
  healthy_save (h.wellReferenced hs.toWellReferenced) (h.sizeless hs.sizeless)

/-- What is left of a refused request concerns no listed chunk. -/
theorem Healthy.leftover (hs : Healthy lib s) (h : Leftover s m) : Healthy lib m where
  toWellReferenced := h.wellReferenced hs.toWellReferenced
  sizeless := by
    intro name object hname
    rw [h.objects_eq] at hname
    exact hs.sizeless hname
  file := by
    rcases hs.file with ⟨g, hfile, hagrees, hkeyed⟩
    refine ⟨g, ?_, ⟨?_, ?_⟩, hkeyed⟩
    · rw [h.files_eq]
      exact hfile
    · exact h.objects_eq.trans hagrees.objects
    · intro name object id hname hid
      have hold : s.objects[name]? = some object := by
        rw [← h.objects_eq]
        exact hname
      rcases hs.confirms hold hid with ⟨chunk, hchunk, _⟩
      have hkept : m.chunks[id]? = s.chunks[id]? := (h.chunks hchunk).trans hchunk.symm
      exact hkept.trans (hagrees.chunks hold hid)

theorem Healthy.registry (hs : Healthy lib s) (storageNodes : HashMap UInt64 MetaStorageNode) :
    Healthy lib { s with storageNodes := storageNodes } :=
  ⟨hs.toWellReferenced, hs.sizeless, hs.file⟩

/-- A node that loads its file again has the views it had. -/
theorem Healthy.reload (hlib : lib.Lawful) (hs : Healthy lib s) {files : MetaFiles}
    {s' : MetadataStore} (hcrash : s.files.Survives files)
    (hreload : MetadataStore.new lib files = .ok s') :
    Healthy lib s' ∧ s'.objects = s.objects ∧ ∀ name, s'.maps.view name = s.maps.view name := by
  rcases hs.file with ⟨g, hfile, hagrees, hkeyed⟩
  have hpersisted := hfile.survives hcrash
  rw [hpersisted.new hlib] at hreload
  have hmaps : s'.maps = g := by
    rw [← Except.ok.inj hreload]
    rfl
  have hfiles : s'.files = files := by
    rw [← Except.ok.inj hreload]
    rfl
  have hobjects : g.objects = s.objects := hagrees.objects.symm
  have hchunks : ∀ (id : UInt64) (name : String), s.maps.Lists id name →
      g.chunks[id]? = s.chunks[id]? := by
    rintro id name ⟨object, hname, hid⟩
    exact (hagrees.chunks hname hid).symm
  have hs' : s'.objects = s.objects := (congrArg Maps.objects hmaps).trans hobjects
  refine ⟨⟨⟨⟨?_, ?_⟩, ?_⟩, ?_, ?_⟩, hs', fun name => ?_⟩
  · intro name object id hname hid
    rw [hmaps, hobjects] at hname
    rcases hs.confirms hname hid with ⟨chunk, hchunk, hrest⟩
    refine ⟨chunk, ?_, hrest⟩
    rw [hmaps]
    exact (hchunks id name ⟨object, hname, hid⟩).trans hchunk
  · intro name object hname
    rw [hmaps, hobjects] at hname
    exact hs.nodup hname
  · rw [hmaps]
    exact hkeyed
  · intro name object hname
    rw [hs'] at hname
    exact hs.sizeless hname
  · refine ⟨g, ?_, ?_, hkeyed⟩
    · rw [hfiles]
      exact hpersisted
    · rw [hmaps]
      exact .refl g
  · rw [hmaps]
    refine view_congr ?_ fun id hid => hchunks id name hid
    rw [hobjects]
    rfl

/-! ## Pulling -/

/-- Chunks are listed under the name that `nameOf` gives them. -/
def ListsUnder (nameOf : UInt64 → String) (s : MetadataStore) : Prop :=
  ∀ (id : UInt64) (name : String), s.maps.Lists id name → nameOf id = name

variable {hash : String → UInt64} {ranges : List (UInt64 × UInt64)} {nameOf : UInt64 → String}
  {source dest : MetadataStore}

theorem ListsUnder.agree (hsource : ListsUnder nameOf source) (hdest : ListsUnder nameOf dest) :
    ListsAgree source dest := by
  intro id name name' hid hid'
  rw [← hsource id name hid, hdest id name' hid']

theorem ListsUnder.takeOver (hkeyed : Keyed source.maps) (hsource : ListsUnder nameOf source)
    (hdest : ListsUnder nameOf dest) : ListsUnder nameOf (source.takeOver hash ranges dest) := by
  rintro id name ⟨object, hname, hid⟩
  rcases takeOver_object_cases hkeyed hname with ⟨sent, hsent, rfl⟩ | ⟨_, hname⟩
  · exact hsource id name ⟨sent, hsent.1, hid⟩
  · exact hdest id name ⟨object, hname, hid⟩

theorem Healthy.takeOver (hsource : Healthy lib source) (hdest : Healthy lib dest)
    (hlists : ListsAgree source dest) :
    Healthy lib ((source.takeOver hash ranges dest).save lib .completes).2 := by
  refine healthy_save
    ⟨takeOver_integrity hsource.toWellReferenced hdest.toIntegrity hlists,
      keyed_ingest _ _ hdest.toKeyed⟩ ?_
  intro name object hname
  rcases takeOver_object_cases hsource.toKeyed hname with ⟨sent, hsent, rfl⟩ | ⟨_, hname⟩
  · rfl
  · exact hdest.sizeless hname

theorem Healthy.pull {node : StorageMetadataImpl} (hsource : Healthy lib source)
    (hnode : Healthy lib node.metadataStore) (hlists : ListsAgree source node.metadataStore) :
    Healthy lib (node.pullPartition lib .completes
      (.ok (.ok ((source.transferPartition hash ranges).map .ok)))).2.metadataStore := by
  rcases pullPartition_store lib .completes hash ranges source node with ⟨hstore, _⟩ | hstore
  · rw [hstore]
    exact hnode
  · rw [hstore]
    exact hsource.takeOver hnode hlists

/-- The nodes that a pull can read from. -/
def Sources (lib : External) (nameOf : UInt64 → String) (cluster : Cluster) : Prop :=
  ∀ (peer : String) (source : StorageMetadataImpl), cluster.nodes[peer]? = some source →
    Healthy lib source.metadataStore ∧ ListsUnder nameOf source.metadataStore

variable {cluster : Cluster}

theorem pullFrom_healthy (hsources : Sources lib nameOf cluster) {node : StorageMetadataImpl}
    (hnode : Healthy lib node.metadataStore) (hlists : ListsUnder nameOf node.metadataStore)
    {peer : String × SaveIo} (hio : peer.2 = .completes) :
    Healthy lib (cluster.pullFrom lib hash ranges node peer).metadataStore ∧
      ListsUnder nameOf (cluster.pullFrom lib hash ranges node peer).metadataStore := by
  unfold Cluster.pullFrom
  cases hpeer : cluster.nodes[peer.1]? with
  | none => exact ⟨hnode, hlists⟩
  | some source =>
      rcases hsources peer.1 source hpeer with ⟨hsource, hunder⟩
      rw [hio]
      refine ⟨hsource.pull hnode (hunder.agree hlists), ?_⟩
      have htaken : ListsUnder nameOf
          (source.metadataStore.takeOver hash ranges node.metadataStore) :=
        hunder.takeOver hsource.toKeyed hlists
      unfold ListsUnder
      rw [pullPartition_maps]
      exact htaken

theorem pulls_healthy (hsources : Sources lib nameOf cluster)
    {peers : List (String × SaveIo)} (hio : ∀ peer ∈ peers, peer.2 = .completes)
    {node : StorageMetadataImpl} (hnode : Healthy lib node.metadataStore)
    (hlists : ListsUnder nameOf node.metadataStore) :
    Healthy lib (peers.foldl (cluster.pullFrom lib hash ranges) node).metadataStore := by
  induction peers generalizing node with
  | nil => exact hnode
  | cons first rest ih =>
      have hfirst := @pullFrom_healthy lib hash ranges nameOf cluster hsources node hnode hlists
        first (hio first List.mem_cons_self)
      exact ih (fun peer hpeer => hio peer (List.mem_cons_of_mem _ hpeer)) hfirst.1 hfirst.2

/-- The peer has the object, and the requested ranges cover it. -/
def Offers (hash : String → UInt64) (ranges : List (UInt64 × UInt64)) (cluster : Cluster)
    (peer name : String) (view : Option View) : Prop :=
  ∀ source : StorageMetadataImpl, cluster.nodes[peer]? = some source →
    name ∈ source.metadataStore.objects →
      source.metadataStore.maps.view name = view ∧
        HashRing.hashInRanges (HashRing.hashKey hash name) ranges = true

/-- One pull sets the view to the peer's, or the peer has no such object. -/
theorem pullFrom_view (hsources : Sources lib nameOf cluster) {node : StorageMetadataImpl}
    (hlists : ListsUnder nameOf node.metadataStore) (peer : String × SaveIo) {name : String}
    {view : Option View} (hoffers : Offers hash ranges cluster peer.1 name view) :
    (cluster.pullFrom lib hash ranges node peer).metadataStore.maps.view name = view ∨
      (cluster.pullFrom lib hash ranges node peer).metadataStore.maps.view name =
          node.metadataStore.maps.view name ∧
        ∀ source : StorageMetadataImpl, cluster.nodes[peer.1]? = some source →
          name ∉ source.metadataStore.objects := by
  unfold Cluster.pullFrom
  cases hpeer : cluster.nodes[peer.1]? with
  | none => exact .inr ⟨rfl, by simp⟩
  | some source =>
      rcases hsources peer.1 source hpeer with ⟨hsource, hunder⟩
      simp only [pullPartition_maps]
      by_cases hmem : name ∈ source.metadataStore.objects
      · rcases hoffers source hpeer hmem with ⟨hview, hrange⟩
        rcases HashMap.mem_iff_exists_getElem?.mp hmem with ⟨object, hname⟩
        left
        rw [takeOver_view_of_sent hsource.toWellReferenced ⟨hname, hrange⟩ (hsource.sizeless hname)]
        exact hview
      · right
        have hnone : ∀ object, ¬ Sent hash ranges source.metadataStore name object := by
          intro object hsent
          exact hmem (HashMap.mem_iff_exists_getElem?.mpr ⟨object, hsent.1⟩)
        refine ⟨takeOver_view_of_not_sent hsource.toKeyed (hunder.agree hlists) hnone, ?_⟩
        intro found hfound
        cases hfound
        exact hmem

/-- After all pulls a node has the view that its peers agree on, or none of them has the
object and it has the view it started with. -/
theorem pulls_view (hsources : Sources lib nameOf cluster) {peers : List (String × SaveIo)}
    (hio : ∀ peer ∈ peers, peer.2 = .completes) {node : StorageMetadataImpl}
    (hnode : Healthy lib node.metadataStore) (hlists : ListsUnder nameOf node.metadataStore)
    {name : String} {view : Option View}
    (hoffers : ∀ peer ∈ peers, Offers hash ranges cluster peer.1 name view) :
    let after := peers.foldl (cluster.pullFrom lib hash ranges) node
    after.metadataStore.maps.view name = view ∨
      after.metadataStore.maps.view name = node.metadataStore.maps.view name ∧
        ∀ peer ∈ peers, ∀ source : StorageMetadataImpl, cluster.nodes[peer.1]? = some source →
          name ∉ source.metadataStore.objects := by
  intro after
  induction peers generalizing node with
  | nil => exact .inr ⟨rfl, by simp⟩
  | cons first rest ih =>
      have hfirst := @pullFrom_healthy lib hash ranges nameOf cluster hsources node hnode hlists
        first (hio first List.mem_cons_self)
      have hview := pullFrom_view hsources hlists first (hoffers first List.mem_cons_self)
      have hrest := ih (fun peer hpeer => hio peer (List.mem_cons_of_mem _ hpeer)) hfirst.1 hfirst.2
        fun peer hpeer => hoffers peer (List.mem_cons_of_mem _ hpeer)
      rcases hrest with hrest | ⟨hrest, hnone⟩
      · exact .inl hrest
      · rcases hview with hview | ⟨hview, hnoneFirst⟩
        · exact .inl (hrest.trans hview)
        · refine .inr ⟨hrest.trans hview, fun peer hpeer => ?_⟩
          rcases List.mem_cons.mp hpeer with rfl | hpeer
          · exact hnoneFirst
          · exact hnone peer hpeer

theorem migrate_healthy (hsources : Sources lib nameOf cluster) (nodeId : String)
    {peers : List (String × SaveIo)} (hio : ∀ peer ∈ peers, peer.2 = .completes)
    {node : StorageMetadataImpl} (hnode : Healthy lib node.metadataStore)
    (hlists : ListsUnder nameOf node.metadataStore) :
    Healthy lib (cluster.migrateOnJoin lib hash nodeId node peers).metadataStore := by
  unfold Cluster.migrateOnJoin
  dsimp only
  split
  · exact hnode
  · exact pulls_healthy hsources hio hnode hlists

theorem migrate_view (hsources : Sources lib nameOf cluster) (nodeId : String)
    {peers : List (String × SaveIo)} (hio : ∀ peer ∈ peers, peer.2 = .completes)
    {node : StorageMetadataImpl} (hnode : Healthy lib node.metadataStore)
    (hlists : ListsUnder nameOf node.metadataStore) {name : String} {view : Option View}
    (hoffers : ∀ peer ∈ peers,
      Offers hash (cluster.ring.getOwnedRanges nodeId) cluster peer.1 name view) :
    let after := cluster.migrateOnJoin lib hash nodeId node peers
    after.metadataStore.maps.view name = view ∨
      after.metadataStore.maps.view name = node.metadataStore.maps.view name ∧
        ∀ peer ∈ peers, ∀ source : StorageMetadataImpl, cluster.nodes[peer.1]? = some source →
          name ∉ source.metadataStore.objects := by
  unfold Cluster.migrateOnJoin
  dsimp only
  split
  · rename_i hempty
    refine .inr ⟨rfl, fun peer hpeer source hsource hmem => ?_⟩
    have hrange := (hoffers peer hpeer source hsource hmem).2
    rw [List.isEmpty_iff.mp hempty] at hrange
    simp [HashRing.hashInRanges] at hrange
  · exact pulls_view hsources hio hnode hlists hoffers

/-! ## The cluster -/

/-- Every node is healthy, and every owner has what the last acknowledged mutation of
each of its names left. -/
structure ClusterOk (lib : External) (hash : String → UInt64) (t : Tracked) : Prop where
  healthy : ∀ (nodeId : String) (node : StorageMetadataImpl),
    t.cluster.nodes[nodeId]? = some node → Healthy lib node.metadataStore
  vnodes : ∀ (position : UInt64) (nodeId : String),
    t.cluster.ring.ring[position]? = some nodeId → nodeId ∈ t.cluster.nodes
  current : ∀ (name nodeId : String) (node : StorageMetadataImpl),
    t.cluster.ring.getOwner hash name = some nodeId →
      t.cluster.nodes[nodeId]? = some node →
        node.metadataStore.maps.view name = t.acknowledged name
  unowned : ∀ name : String, t.cluster.ring.getOwner hash name = none →
    t.acknowledged name = none

/-- No chunk id is listed under two names. -/
def UniqueIds (cluster : Cluster) : Prop :=
  ∀ (nodeId nodeId' : String) (node node' : StorageMetadataImpl),
    cluster.nodes[nodeId]? = some node → cluster.nodes[nodeId']? = some node' →
      ListsAgree node.metadataStore node'.metadataStore

/-- The copies that other nodes hold of the names of `nodeId` are what the last
acknowledged mutation left, and lie in the ranges that `nodeId` requests. -/
def CopiesCurrent (hash : String → UInt64) (t : Tracked) (ring : HashRing)
    (nodeId : String) : Prop :=
  ∀ (peer name : String) (node : StorageMetadataImpl),
    t.cluster.nodes[peer]? = some node → peer ≠ nodeId →
      ring.getOwner hash name = some nodeId → name ∈ node.metadataStore.objects →
        node.metadataStore.maps.view name = t.acknowledged name ∧
          HashRing.hashInRanges (HashRing.hashKey hash name) (ring.getOwnedRanges nodeId) = true

/-- The events of runs without outdated copies and without failed saves. -/
def NoOutdatedCopies (hash : String → UInt64) (t : Tracked) : ClusterEvent → Prop
  | .join nodeId peers =>
      CopiesCurrent hash t (t.cluster.ring.addNode hash nodeId) nodeId ∧
        UniqueIds t.cluster ∧ ∀ peer ∈ peers, peer.2 = .completes
  | .restart nodeId peers =>
      CopiesCurrent hash t t.cluster.ring nodeId ∧
        UniqueIds t.cluster ∧ ∀ peer ∈ peers, peer.2 = .completes
  | .request _ _ io => io = .completes
  | .registry _ _ => True

theorem UniqueIds.exists_nameOf (h : UniqueIds cluster) :
    ∃ nameOf : UInt64 → String, ∀ (nodeId : String) (node : StorageMetadataImpl),
      cluster.nodes[nodeId]? = some node → ListsUnder nameOf node.metadataStore := by
  classical
  let listed (id : UInt64) (name : String) : Prop :=
    ∃ (nodeId : String) (node : StorageMetadataImpl), cluster.nodes[nodeId]? = some node ∧
      node.metadataStore.maps.Lists id name
  refine ⟨fun id => if h : ∃ name, listed id name then h.choose else "", ?_⟩
  intro nodeId node hnode id name hid
  have hsome : ∃ name, listed id name := ⟨name, nodeId, node, hnode, hid⟩
  rcases hsome.choose_spec with ⟨nodeId', node', hnode', hid'⟩
  simp only [dif_pos hsome]
  exact h nodeId' nodeId node' node hnode' hnode id _ _ hid' hid

theorem clusterOk_new (lib : External) (hash : String → UInt64) :
    ClusterOk lib hash Tracked.new where
  healthy := by simp [Tracked.new, Cluster.new]
  vnodes := by simp [Tracked.new, Cluster.new, HashRing.new]
  current := by simp [Tracked.new, Cluster.new]
  unowned := by simp [Tracked.new]

variable {t : Tracked} {nodeId : String}

/-- A changed node does not change what the others hold. -/
theorem ClusterOk.served (h : ClusterOk lib hash t) {node' : StorageMetadataImpl}
    (hnode' : Healthy lib node'.metadataStore) {acknowledged : String → Option View}
    (hsame : ∀ name, t.cluster.ring.getOwner hash name ≠ some nodeId →
      acknowledged name = t.acknowledged name)
    (hviews : ∀ name, t.cluster.ring.getOwner hash name = some nodeId →
      node'.metadataStore.maps.view name = acknowledged name) :
    ClusterOk lib hash ⟨(t.served nodeId node').cluster, acknowledged⟩ where
  healthy := by
    intro other node hnode
    by_cases heq : other = nodeId
    · subst heq
      rw [← HashMap.getElem?_insert_same _ hnode]
      exact hnode'
    · exact h.healthy other node ((HashMap.getElem?_insert_of_ne _ _ heq).symm.trans hnode)
  vnodes := by
    intro position owner howner
    have hold := h.vnodes position owner howner
    simp only [Tracked.served, Std.ExtTreeMap.mem_insert]
    exact .inr hold
  current := by
    intro name other node howner hnode
    by_cases heq : other = nodeId
    · subst heq
      rw [← HashMap.getElem?_insert_same _ hnode]
      exact hviews name howner
    · have hne : t.cluster.ring.getOwner hash name ≠ some nodeId := by
        intro howner'
        exact heq (Option.some.inj (howner.symm.trans howner'))
      have hold := h.current name other node howner
        ((HashMap.getElem?_insert_of_ne _ _ heq).symm.trans hnode)
      exact hold.trans (hsame name hne).symm
  unowned := by
    intro name howner
    have hnone : t.cluster.ring.getOwner hash name = none := howner
    exact (hsame name (by rw [hnone]; simp)).trans (h.unowned name hnone)

/-- The nodes of a cluster are sources for the pulls of another one. -/
theorem ClusterOk.sources (h : ClusterOk lib hash t)
    (hunder : ∀ (nodeId : String) (node : StorageMetadataImpl),
      t.cluster.nodes[nodeId]? = some node → ListsUnder nameOf node.metadataStore)
    {cluster : Cluster} (hnodes : cluster.nodes = t.cluster.nodes) :
    Sources lib nameOf cluster := by
  intro peer source hsource
  rw [hnodes] at hsource
  exact ⟨h.healthy peer source hsource, hunder peer source hsource⟩

/-- The peers that are asked offer the last acknowledged state. -/
theorem CopiesCurrent.offers {ring : HashRing} (h : CopiesCurrent hash t ring nodeId)
    {peers : List (String × SaveIo)} (hpeers : t.cluster.ListsPeers nodeId peers)
    {cluster : Cluster} (hnodes : cluster.nodes = t.cluster.nodes) {name : String}
    (howner : ring.getOwner hash name = some nodeId) :
    ∀ peer ∈ peers,
      Offers hash (ring.getOwnedRanges nodeId) cluster peer.1 name (t.acknowledged name) := by
  intro peer hpeer source hsource hmem
  rw [hnodes] at hsource
  have hne := ((hpeers peer.1).mp (List.mem_map_of_mem hpeer)).2
  exact h peer.1 name source hsource hne howner hmem

/-- Before a join some peer has every object there is. -/
theorem ClusterOk.exists_holder (h : ClusterOk lib hash t) {name : String}
    (hname : t.acknowledged name ≠ none) :
    ∃ (owner : String) (node : StorageMetadataImpl), t.cluster.nodes[owner]? = some node ∧
      name ∈ node.metadataStore.objects := by
  cases howner : t.cluster.ring.getOwner hash name with
  | none => exact absurd (h.unowned name howner) hname
  | some owner =>
      rcases HashRing.mem_nodes_of_getOwner howner with ⟨position, hposition⟩
      rcases HashMap.mem_iff_exists_getElem?.mp (h.vnodes position owner hposition) with
        ⟨node, hnode⟩
      refine ⟨owner, node, hnode, ?_⟩
      rw [← h.current name owner node howner hnode, ne_eq, view_eq_none_iff] at hname
      simpa [MetadataStore.maps] using hname

/-- A new node that holds the current record of every name it takes over. -/
theorem ClusterOk.extend (h : ClusterOk lib hash t) {ring : HashRing}
    {joined : StorageMetadataImpl} (hjoined : Healthy lib joined.metadataStore)
    (hvnodes : ∀ (position : UInt64) (owner : String), ring.ring[position]? = some owner →
      owner = nodeId ∨ t.cluster.ring.ring[position]? = some owner)
    (howners : ∀ name owner : String, ring.getOwner hash name = some owner →
      owner = nodeId ∨ t.cluster.ring.getOwner hash name = some owner)
    (hnonempty : ∀ name : String, ring.getOwner hash name ≠ none)
    (hviews : ∀ name : String, ring.getOwner hash name = some nodeId →
      joined.metadataStore.maps.view name = t.acknowledged name) :
    ClusterOk lib hash ⟨⟨ring, t.cluster.nodes.insert nodeId joined⟩, t.acknowledged⟩ where
  healthy := by
    intro other node hnode
    by_cases heq : other = nodeId
    · subst heq
      rw [← HashMap.getElem?_insert_same _ hnode]
      exact hjoined
    · exact h.healthy other node ((HashMap.getElem?_insert_of_ne _ _ heq).symm.trans hnode)
  vnodes := by
    intro position owner howner
    rw [Std.ExtTreeMap.mem_insert]
    rcases hvnodes position owner howner with rfl | hold
    · exact .inl Std.ReflCmp.compare_self
    · exact .inr (h.vnodes position owner hold)
  current := by
    intro name other node howner hnode
    by_cases heq : other = nodeId
    · subst heq
      rw [← HashMap.getElem?_insert_same _ hnode]
      exact hviews name howner
    · rcases howners name other howner with hself | hold
      · exact absurd hself heq
      · exact h.current name other node hold
          ((HashMap.getElem?_insert_of_ne _ _ heq).symm.trans hnode)
  unowned := by
    intro name howner
    exact absurd howner (hnonempty name)

theorem ClusterOk.join (h : ClusterOk lib hash t) {peers : List (String × SaveIo)}
    (hnew : nodeId ∉ t.cluster.nodes) (hpeers : t.cluster.ListsPeers nodeId peers)
    (hallowed : NoOutdatedCopies hash t (.join nodeId peers)) :
    ClusterOk lib hash { t with cluster := t.cluster.join lib hash nodeId peers } := by
  rcases hallowed with ⟨hcurrent, hunique, hio⟩
  rcases hunique.exists_nameOf with ⟨nameOf, hunder⟩
  have hnodes := Cluster.withMember_nodes hash t.cluster nodeId
  have hsources : Sources lib nameOf (t.cluster.withMember hash nodeId) := h.sources hunder hnodes
  have hlists : ListsUnder nameOf freshNode.metadataStore := by
    rintro id name ⟨object, hname, _⟩
    simp [freshNode, MetadataStore.maps, MetadataStore.fresh] at hname
  have hviews : ∀ name : String,
      (t.cluster.ring.addNode hash nodeId).getOwner hash name = some nodeId →
        ((t.cluster.withMember hash nodeId).migrateOnJoin lib hash nodeId
          freshNode peers).metadataStore.maps.view name =
            t.acknowledged name := by
    intro name howner
    have hoffers := hcurrent.offers hpeers hnodes howner
    rcases migrate_view hsources nodeId hio (healthy_fresh lib) hlists hoffers with
      hview | ⟨hview, hnone⟩
    · exact hview
    · -- no peer has the object, so there is none
      refine hview.trans ?_
      by_contra hne
      have hsome : t.acknowledged name ≠ none := fun hack => hne hack.symm
      rcases h.exists_holder hsome with ⟨owner, source, hsource, hmem⟩
      have hownerMem := HashMap.mem_iff_exists_getElem?.mpr ⟨source, hsource⟩
      have hlisted : owner ∈ peers.map Prod.fst := by
        refine (hpeers owner).mpr ⟨hownerMem, ?_⟩
        rintro rfl
        exact hnew hownerMem
      rcases List.mem_map.mp hlisted with ⟨peer, hpeer, rfl⟩
      rw [hnodes] at hnone
      exact hnone peer hpeer source hsource hmem
  rw [Cluster.join_eq]
  refine h.extend (migrate_healthy hsources nodeId hio (healthy_fresh lib) hlists) ?_ ?_ ?_ hviews
  · intro position owner howner
    rcases HashRing.getElem?_addNode hash t.cluster.ring nodeId position with hfound | hfound
    · exact .inl (Option.some.inj (howner.symm.trans hfound))
    · exact .inr (hfound.symm.trans howner)
  · intro name owner howner
    exact HashRing.getOwner_addNode howner
  · intro name hnone
    rcases HashRing.exists_mem_addNode hash t.cluster.ring nodeId with ⟨position, hposition⟩
    rcases HashRing.exists_getOwner hash hposition name with ⟨owner, hsome⟩
    rw [hsome] at hnone
    cases hnone

theorem ClusterOk.restart (hlib : lib.Lawful) (h : ClusterOk lib hash t)
    {peers : List (String × SaveIo)} {node : StorageMetadataImpl} {files : MetaFiles}
    {store : MetadataStore} {chunkIndex : HashMap UInt64 String}
    (hnode : t.cluster.nodes[nodeId]? = some node)
    (hcrash : node.metadataStore.files.Survives files)
    (hreload : MetadataStore.new lib files = .ok store)
    (hpeers : t.cluster.ListsPeers nodeId peers)
    (hallowed : NoOutdatedCopies hash t (.restart nodeId peers)) :
    ClusterOk lib hash
      { t with cluster := t.cluster.migrated lib hash nodeId ⟨store, chunkIndex⟩ peers } := by
  rcases hallowed with ⟨hcurrent, hunique, hio⟩
  rcases hunique.exists_nameOf with ⟨nameOf, hunder⟩
  have hsources : Sources lib nameOf t.cluster := h.sources hunder rfl
  rcases (h.healthy nodeId node hnode).reload hlib hcrash hreload with
    ⟨hhealthy, hobjects, hviews⟩
  have hlists : ListsUnder nameOf store := by
    rintro id name ⟨object, hname, hid⟩
    have hold : node.metadataStore.objects[name]? = some object := by
      rw [← hobjects]
      exact hname
    exact hunder nodeId node hnode id name ⟨object, hold, hid⟩
  let reloaded : StorageMetadataImpl := ⟨store, chunkIndex⟩
  have hreloaded : Healthy lib reloaded.metadataStore := hhealthy
  have hafter :
      Healthy lib (t.cluster.migrateOnJoin lib hash nodeId reloaded peers).metadataStore :=
    migrate_healthy hsources nodeId hio hreloaded hlists
  have hviewAfter : ∀ name, t.cluster.ring.getOwner hash name = some nodeId →
      (t.cluster.migrateOnJoin lib hash nodeId reloaded peers).metadataStore.maps.view name =
        t.acknowledged name := by
    intro name howner
    have hstart : store.maps.view name = t.acknowledged name :=
      (hviews name).trans (h.current name nodeId node howner hnode)
    have hoffers := hcurrent.offers hpeers rfl howner
    rcases migrate_view hsources nodeId hio hreloaded hlists hoffers with hview | ⟨hview, _⟩
    · exact hview
    · exact hview.trans hstart
  exact h.served hafter (fun _ _ => rfl) hviewAfter

/-- One event. -/
theorem ClusterOk.step (hlib : lib.Lawful) {t' : Tracked} (h : ClusterOk lib hash t)
    (hstep : ClusterStep lib hash (NoOutdatedCopies hash) t t') : ClusterOk lib hash t' := by
  cases hstep with
  | join hallowed hnew hpeers => exact h.join hnew hpeers hallowed
  | restart hallowed hnode hcrash hreload hpeers =>
      exact h.restart hlib hnode hcrash hreload hpeers hallowed
  | @acknowledged nodeId name node node' request io hallowed hnode hname howner hserve =>
      have hnodeOk := h.healthy nodeId node hnode
      rcases serve_effect hserve with ⟨hfailed, _⟩ | ⟨found, m, hfound, hmutation, hstore, hok⟩
      · exact absurd rfl hfailed
      · rw [hname] at hfound
        cases hfound
        have hcompletes : io = .completes := hok.mp rfl
        subst hcompletes
        have hhealthy : Healthy lib node'.metadataStore := hstore ▸ hnodeOk.mutation hmutation
        refine h.served hhealthy (fun other hother => ?_) fun other hother => ?_
        · have hne : other ≠ name := by
            rintro rfl
            exact hother howner
          exact (t.served nodeId node').acknowledge_of_ne node'.metadataStore hne
        · by_cases heq : other = name
          · subst heq
            exact ((t.served nodeId node').acknowledge_self node'.metadataStore other).symm
          · have hold := h.current other nodeId node hother hnode
            have hview := hmutation.view hnodeOk.toIntegrity heq
            rw [← save_maps lib .completes m, ← hstore] at hview
            have hkept := (t.served nodeId node').acknowledge_of_ne node'.metadataStore heq
            exact (hview.trans hold).trans hkept.symm
  | @refused nodeId node node' request io status hallowed hnode howner hserve =>
      have hnodeOk := h.healthy nodeId node hnode
      rcases serve_effect hserve with ⟨_, hleft⟩ | ⟨_, m, _, _, _, hok⟩
      · refine h.served (hnodeOk.leftover hleft) (fun _ _ => rfl) fun name howner => ?_
        rw [hleft.view hnodeOk.toIntegrity]
        exact h.current name nodeId node howner hnode
      · cases hok.mpr hallowed
  | @registry nodeId node storageNodes hallowed hnode =>
      refine h.served ((h.healthy nodeId node hnode).registry storageNodes) (fun _ _ => rfl)
        fun name howner => ?_
      exact h.current name nodeId node howner hnode

/-- In every run in which no join and no restart finds an outdated copy, the owner of a
name has the record that the last acknowledged mutation of the name left: a deleted
object stays deleted, and one created again starts with no chunks. -/
theorem owner_reflects_last_mutation (lib : External) (hlib : lib.Lawful)
    (hash : String → UInt64) (t : Tracked)
    (hrun : ClusterRun lib hash (NoOutdatedCopies hash) t) (name : String) :
    (∀ nodeId, t.cluster.ring.getOwner hash name = some nodeId →
      ∃ node, t.cluster.nodes[nodeId]? = some node ∧
        node.metadataStore.maps.view name = t.acknowledged name) ∧
    (t.cluster.ring.getOwner hash name = none → t.acknowledged name = none) := by
  have hall : ClusterOk lib hash t := by
    induction hrun with
    | refl => exact clusterOk_new lib hash
    | tail _ hstep ih => exact ih.step hlib hstep
  refine ⟨fun nodeId howner => ?_, hall.unowned name⟩
  rcases HashRing.mem_nodes_of_getOwner howner with ⟨position, hposition⟩
  rcases HashMap.mem_iff_exists_getElem?.mp (hall.vnodes position nodeId hposition) with
    ⟨node, hnode⟩
  exact ⟨node, hnode, hall.current name nodeId node howner hnode⟩

/-! ## Checked runs -/

theorem copiesCurrent_iff {hash : String → UInt64} {t : Tracked} {ring : HashRing}
    {nodeId : String} :
    CopiesCurrent hash t ring nodeId ↔
      ∀ entry ∈ t.cluster.nodes.toList, entry.1 ≠ nodeId →
        ∀ name ∈ entry.2.metadataStore.objects.keys, ring.getOwner hash name = some nodeId →
          entry.2.metadataStore.maps.view name = t.acknowledged name ∧
            HashRing.hashInRanges (HashRing.hashKey hash name) (ring.getOwnedRanges nodeId) =
              true := by
  constructor
  · intro h entry hentry hne name hname howner
    exact h entry.1 name entry.2 (Std.ExtTreeMap.mem_toList_iff_getElem?_eq_some.mp hentry) hne
      howner (Std.ExtTreeMap.mem_keys.mp hname)
  · intro h peer name node hnode hne howner hname
    exact h (peer, node) (Std.ExtTreeMap.mem_toList_iff_getElem?_eq_some.mpr hnode) hne name
      (Std.ExtTreeMap.mem_keys.mpr hname) howner

theorem listsAgree_iff {source dest : MetadataStore} :
    ListsAgree source dest ↔
      ∀ entry ∈ source.objects.toList, ∀ entry' ∈ dest.objects.toList,
        entry.1 = entry'.1 ∨ (entry.2.chunks.any entry'.2.chunks.contains) = false := by
  constructor
  · intro h entry hentry entry' hentry'
    by_cases hname : entry.1 = entry'.1
    · exact .inl hname
    · refine .inr (List.any_eq_false.mpr fun id hid hid' => hname ?_)
      exact h id entry.1 entry'.1
        ⟨entry.2, Std.ExtTreeMap.mem_toList_iff_getElem?_eq_some.mp hentry, hid⟩
        ⟨entry'.2, Std.ExtTreeMap.mem_toList_iff_getElem?_eq_some.mp hentry',
          List.contains_iff_mem.mp hid'⟩
  · rintro h id name name' ⟨object, hobject, hid⟩ ⟨object', hobject', hid'⟩
    rcases h (name, object) (Std.ExtTreeMap.mem_toList_iff_getElem?_eq_some.mpr hobject)
      (name', object') (Std.ExtTreeMap.mem_toList_iff_getElem?_eq_some.mpr hobject') with
      hname | hnone
    · exact hname
    · exact absurd (List.contains_iff_mem.mpr hid') (List.any_eq_false.mp hnone id hid)

theorem uniqueIds_iff {cluster : Cluster} :
    UniqueIds cluster ↔
      ∀ entry ∈ cluster.nodes.toList, ∀ entry' ∈ cluster.nodes.toList,
        ListsAgree entry.2.metadataStore entry'.2.metadataStore := by
  constructor
  · intro h entry hentry entry' hentry'
    exact h entry.1 entry'.1 entry.2 entry'.2
      (Std.ExtTreeMap.mem_toList_iff_getElem?_eq_some.mp hentry)
      (Std.ExtTreeMap.mem_toList_iff_getElem?_eq_some.mp hentry')
  · intro h nodeId nodeId' node node' hnode hnode'
    exact h (nodeId, node) (Std.ExtTreeMap.mem_toList_iff_getElem?_eq_some.mpr hnode)
      (nodeId', node') (Std.ExtTreeMap.mem_toList_iff_getElem?_eq_some.mpr hnode')

instance (hash : String → UInt64) (t : Tracked) (ring : HashRing) (nodeId : String) :
    Decidable (CopiesCurrent hash t ring nodeId) :=
  decidable_of_iff _ copiesCurrent_iff.symm

instance (source dest : MetadataStore) : Decidable (ListsAgree source dest) :=
  decidable_of_iff _ listsAgree_iff.symm

instance (cluster : Cluster) : Decidable (UniqueIds cluster) :=
  decidable_of_iff _ uniqueIds_iff.symm

instance (hash : String → UInt64) (t : Tracked) (event : ClusterEvent) :
    Decidable (NoOutdatedCopies hash t event) :=
  match event with
  | .join nodeId peers =>
      inferInstanceAs (Decidable (CopiesCurrent hash t (t.cluster.ring.addNode hash nodeId) nodeId ∧
        UniqueIds t.cluster ∧ ∀ peer ∈ peers, peer.2 = .completes))
  | .restart nodeId peers =>
      inferInstanceAs (Decidable (CopiesCurrent hash t t.cluster.ring nodeId ∧
        UniqueIds t.cluster ∧ ∀ peer ∈ peers, peer.2 = .completes))
  | .request _ _ io => inferInstanceAs (Decidable (io = .completes))
  | .registry _ _ => isTrue trivial

/-- An object is created with a chunk on `a` and moves to `b`, which joins and is then
restarted; `a` still has its copy. -/
theorem owner_reflects_last_mutation_put :
    ∃ t, ClusterRun jsonLib Library.xxh3 (NoOutdatedCopies Library.xxh3) t ∧
      t.acknowledged "k" = some (⟨"k", 7, [10], 0⟩, [some ⟨10, "k", 9, [1], .confirmed⟩]) ∧
      (∃ node, t.cluster.nodes["a"]? = some node ∧ "k" ∈ node.metadataStore.objects) ∧
      ∃ node, t.cluster.nodes["b"]? = some node ∧
        node.metadataStore.maps.view "k" = t.acknowledged "k" := by
  have hfacts : (Tracked.new.afterAllowed jsonLib Library.xxh3 (NoOutdatedCopies Library.xxh3)
      [.join "a" [], .registry "a" ((∅ : HashMap UInt64 MetaStorageNode).insert 1
          ⟨1, "http://node-a:50051"⟩),
        .request "a" (.putObject 7 "k") .completes,
        .request "a" (.confirmChunk 10 "k" 9 1) .completes, .join "b" [("a", .completes)],
        .restart "b" [("a", .completes)]]).map
      (fun t => (t.cluster.ring.getOwner Library.xxh3 "k", t.acknowledged "k",
        (t.cluster.nodes["a"]?).any fun node => node.metadataStore.objects.contains "k")) =
      some (some "b", some (⟨"k", 7, [10], 0⟩, [some ⟨10, "k", 9, [1], .confirmed⟩]), true) := by
    decide +kernel
  rcases Option.map_eq_some_iff.mp hfacts with ⟨t, ht, hfacts⟩
  simp only [Prod.mk.injEq] at hfacts
  rcases hfacts with ⟨howner, hacknowledged, hcopy⟩
  rcases (Option.any_eq_true _ _).mp hcopy with ⟨node, hnode, hmem⟩
  have hrun : ClusterRun jsonLib Library.xxh3 (NoOutdatedCopies Library.xxh3) t :=
    ClusterRun.afterAllowed .refl ht
  have hcurrent := owner_reflects_last_mutation jsonLib jsonLib_lawful Library.xxh3 t hrun "k"
  exact ⟨t, hrun, hacknowledged, ⟨node, hnode, Std.ExtTreeMap.mem_iff_contains.mpr hmem⟩,
    hcurrent.1 "b" howner⟩

/-- `k` is created on `a` and moves to `b`, which joins.  It is deleted, and comes back
from `a` when `b` restarts. -/
theorem deleted_object_reappears :
    ∃ t, ClusterRun jsonLib Library.xxh3 (fun _ _ => True) t ∧
      t.cluster.ring.getOwner Library.xxh3 "k" = some "b" ∧
      t.acknowledged "k" = none ∧
      ∃ node, t.cluster.nodes["b"]? = some node ∧
        node.metadataStore.maps.view "k" = some (⟨"k", 7, [], 0⟩, []) := by
  have hfacts : (Tracked.new.after jsonLib Library.xxh3
      [.join "a" [], .request "a" (.putObject 7 "k") .completes, .join "b" [("a", .completes)],
        .request "b" (.deleteObject "k") .completes, .restart "b" [("a", .completes)]]).map
      (fun t => (t.cluster.ring.getOwner Library.xxh3 "k", t.acknowledged "k",
        (t.cluster.nodes["b"]?).bind fun node => node.metadataStore.maps.view "k")) =
      some (some "b", none, some (⟨"k", 7, [], 0⟩, [])) := by decide +kernel
  rcases Option.map_eq_some_iff.mp hfacts with ⟨t, ht, hfacts⟩
  simp only [Prod.mk.injEq] at hfacts
  rcases hfacts with ⟨howner, hdeleted, hview⟩
  rcases Option.bind_eq_some_iff.mp hview with ⟨node, hnode, hview⟩
  have hrun : ClusterRun jsonLib Library.xxh3 (fun _ _ => True) t :=
    ClusterRun.after (by simp) .refl ht
  exact ⟨t, hrun, howner, hdeleted, node, hnode, hview⟩

end StorageMetadata
end ObjectStore
