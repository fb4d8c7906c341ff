import ObjectStore.Library.Refinement
import ObjectStore.System.Cycles

/-!
# System - Replication converges

A store at rest with enough storage nodes, each with room for every chunk.  Each cycle adds a
copy of every chunk that has fewer than three, and two cycles are enough.

Main definitions:

- `copies`: how many storage nodes hold a chunk.
- `Spread`: what the registry and the storage nodes have to offer.
- `Cycles`: cycles one after the other.

Main results:

- Theorem `replicateChunk_grows`: no turn is skipped.
- Theorem `copies_eq`: the copies are the recorded replicas.
- Theorem `cycles_converge`: how many copies there are after any number of cycles.
-/

namespace ObjectStore
namespace System

open ApiGateway (Replica)
open Deployment (Environment SameServices Services)
open Library (Lts)
open ReplicationService (Accepts CycleReport FirstReplicaGood IsTarget Needy Welcoming listingOf
  replicateChunk runReplicationCycle)
open StorageMetadata (MetaChunk MetadataStore)
open StorageMetadata.Proto (MetaStorageNode)

variable {env : Environment} {crc32 : Bytes → UInt32} {s s' : Services}
  {pieces : UInt64 → Bytes} {record : MetaChunk} {nodes : List MetaStorageNode} {id : UInt64}

/-! ## Room -/

/-- Storage nodes stay and keep their size. -/
def SameRoom (s s' : Services) : Prop :=
  ∀ (address : String) (held : StorageNode.BoundedMap), s.nodes[address]? = some held →
    ∃ held', s'.nodes[address]? = some held' ∧ held'.capacity = held.capacity

/-- No program changes the capacities. -/
theorem ensures_sameRoom {α : Type} (program : Deployment.Program α) :
    program.Ensures (RoomyStep env) (fun _ s' => SameRoom s s') s := by
  refine (Library.Program.only_true program).ensures (fun _ held hheld => ⟨held, hheld, rfl⟩) ?_
  intro s₁ call reply s₂ _ hroom hstep address held hheld
  rcases hroom address held hheld with ⟨held₁, hheld₁, hcapacity₁⟩
  rcases capacity_of_step hstep.1 hheld₁ with ⟨held₂, hheld₂, hcapacity₂⟩
  exact ⟨held₂, hheld₂, hcapacity₂.trans hcapacity₁⟩

/-- There are three storage nodes, at different addresses, each with room for all chunks. -/
structure Spread (s : Services) : Prop where
  addresses : ∀ (nodeId nodeId' : UInt64) (node node' : StorageMetadata.MetaStorageNode),
    s.metadata.metadataStore.storageNodes[nodeId]? = some node →
    s.metadata.metadataStore.storageNodes[nodeId']? = some node' →
    node.address = node'.address → nodeId = nodeId'
  enough : 3 ≤ s.metadata.metadataStore.storageNodes.size
  room : ∀ (nodeId : UInt64) (node : StorageMetadata.MetaStorageNode),
    s.metadata.metadataStore.storageNodes[nodeId]? = some node →
    ∃ held, s.nodes[node.address]? = some held ∧
      s.metadata.metadataStore.chunks.size ≤ held.capacity

/-- There is room as long as there are no more chunks. -/
theorem Spread.of_room (h : Spread s) (hroom : SameRoom s s')
    (hregistry : s'.metadata.metadataStore.storageNodes = s.metadata.metadataStore.storageNodes)
    (hsize : s'.metadata.metadataStore.chunks.size = s.metadata.metadataStore.chunks.size) :
    Spread s' where
  addresses := by
    rw [hregistry]
    exact h.addresses
  enough := by
    rw [hregistry]
    exact h.enough
  room nodeId node hnode := by
    rw [hregistry] at hnode
    rcases h.room nodeId node hnode with ⟨held, hheld, hcapacity⟩
    rcases hroom node.address held hheld with ⟨held', hheld', heq⟩
    refine ⟨held', hheld', ?_⟩
    rw [hsize, heq]
    exact hcapacity

theorem Spread.same (h : Spread s) (hsame : SameServices s s') : Spread s' := by
  apply h.of_room
  · intro address held hheld
    rw [hsame.nodes]
    exact ⟨held, hheld, rfl⟩
  · exact hsame.memory.storageNodes
  · rw [hsame.memory.chunks]

/-! ## A turn that is not skipped -/

/-- A storage node without a replica does not hold the chunk, and has room. -/
theorem Spread.accepts (h : Spread s) (htidy : Tidy crc32 [] pieces s)
    (hneedy : Needy s record.id record) {target : MetaStorageNode}
    (htarget : IsTarget s.metadata.listStorageNodes (listingOf record) target) :
    Accepts (fun _ => True) s record.id target.address := by
  rcases List.mem_map.mp htarget.listed with ⟨node, hmem, rfl⟩
  rcases HashMap.mem_valueList.mp hmem with ⟨nodeId, hnode⟩
  have hkeyed : node.id = nodeId := htidy.catalogued.keyed nodeId node hnode
  rcases h.room nodeId node hnode with ⟨held, hheld, hcapacity⟩
  have hlive : ∀ {other : UInt64}, other ∈ held.live → Replica s other node.address := by
    intro other hother
    rcases HashMap.mem_iff_exists_getElem?.mp hother with ⟨bytes, hbytes⟩
    exact (htidy.owned other node.address bytes
      (Services.dataAt_eq_some_iff.mpr ⟨held, hheld, hbytes⟩)).2
  have hnew : record.id ∉ held.live := by
    intro hmem
    rcases replica_iff.mp (hlive hmem) with ⟨chunk, other, found, hchunk, hother, hfound, heq⟩
    cases hneedy.stored.symm.trans hchunk
    have hid : other = node.id := by
      rw [hkeyed]
      exact h.addresses other nodeId found node hfound hnode heq
    exact htarget.other (by simpa [listingOf, hid] using hother)
  have hsmaller : held.live.size + 1 ≤ s.metadata.metadataStore.chunks.size := by
    have hdistinct : (record.id :: held.live.keys).Nodup :=
      List.nodup_cons.mpr ⟨by rwa [Std.ExtTreeMap.mem_keys], Std.ExtTreeMap.nodup_keys⟩
    have hall : ∀ other ∈ record.id :: held.live.keys,
        other ∈ s.metadata.metadataStore.chunks := by
      rw [List.forall_mem_cons]
      refine ⟨HashMap.mem_iff_exists_getElem?.mpr ⟨record, hneedy.stored⟩, fun other hother => ?_⟩
      rw [Std.ExtTreeMap.mem_keys] at hother
      rcases replica_iff.mp (hlive hother) with ⟨chunk, _, _, hchunk, _⟩
      exact HashMap.mem_iff_exists_getElem?.mpr ⟨chunk, hchunk⟩
    rw [← Std.ExtTreeMap.length_keys, ← List.length_cons]
    exact HashMap.length_le_size hdistinct hall
  exact ⟨trivial, held, hheld, by omega, hnew⟩

/-- Fewer than three replicas leave a storage node without one. -/
theorem Spread.welcoming (h : Spread s) (htidy : Tidy crc32 [] pieces s)
    (hneedy : Needy s record.id record) :
    Welcoming (fun _ => True) s (listingOf record) where
  exists_target := by
    by_contra hnone
    have hall : ∀ nodeId ∈ s.metadata.metadataStore.storageNodes.keys,
        nodeId ∈ record.storageNodes := by
      intro nodeId hnodeId
      rw [Std.ExtTreeMap.mem_keys] at hnodeId
      rcases HashMap.mem_iff_exists_getElem?.mp hnodeId with ⟨node, hnode⟩
      have hkeyed : node.id = nodeId := htidy.catalogued.keyed nodeId node hnode
      by_contra hother
      refine hnone ⟨⟨node.id, node.address⟩, ?_, ?_⟩
      · exact List.mem_map.mpr ⟨node, HashMap.mem_valueList.mpr ⟨nodeId, hnode⟩, rfl⟩
      · rw [hkeyed]
        exact hother
    have hlength := (List.subperm_of_subset Std.ExtTreeMap.nodup_keys hall).length_le
    have henough := h.enough
    have hshort := hneedy.short
    rw [Std.ExtTreeMap.length_keys] at hlength
    omega
  accepts target htarget := h.accepts htidy hneedy htarget

/-- Every replica is good, the first one too. -/
theorem Tidy.firstReplicaGood (htidy : Tidy env.crc32 [] pieces s)
    (hneedy : Needy s record.id record) :
    FirstReplicaGood env (fun _ => True) s (listingOf record) := by
  have hplaced := htidy.catalogued.placed record.id record hneedy.stored
  rcases List.exists_cons_of_ne_nil hplaced.replicated with ⟨first, rest, hlist⟩
  have hfirst : first ∈ record.storageNodes := by simp [hlist]
  rcases HashMap.mem_iff_exists_getElem?.mp (hplaced.registered first hfirst) with ⟨node, hnode⟩
  have hreplica : Replica s record.id node.address :=
    replica_iff.mpr ⟨record, first, node, hneedy.stored, hfirst, hnode, rfl⟩
  exact ⟨first, by simp [listingOf, hlist], node, hnode, trivial, pieces record.id,
    htidy.held record.id node.address nofun hreplica,
    (htidy.whole record.id record hneedy.stored).2.symm⟩

/-- No turn is skipped. -/
theorem replicateChunk_grows (htidy : Tidy env.crc32 [] pieces s)
    (hneedy : Needy s record.id record) (hnodes : nodes.Perm s.metadata.listStorageNodes)
    (hspread : Spread s) :
    (replicateChunk env.crc32 nodes (listingOf record)).Ensures (RoomyStep env)
      (fun _ s' => Turned env.crc32 pieces True record s s' ∧ Spread s') s := by
  have hturned : (replicateChunk env.crc32 nodes (listingOf record)).Ensures (RoomyStep env)
      (fun _ s' => Turned env.crc32 pieces False record s s') s :=
    replicateChunk_turned env.crc32 htidy hneedy fun node => hnodes.mem_iff.mp
  have hheals := ReplicationService.replicateChunk_heals htidy.catalogued.keyed hnodes hneedy rfl
    (hspread.welcoming htidy hneedy) (htidy.firstReplicaGood hneedy)
  have hsteps : ∀ s call reply s', RoomyStep env s call reply s' →
      ReplicationService.ReachableStep env (fun _ => True) s call reply s' :=
    fun _ _ _ _ hstep => .answered hstep.1
  refine ((hturned.and (hheals.anti hsteps)).and (ensures_sameRoom _)).mono ?_
  rintro outcome s' ⟨⟨hturned, _, target, hneedy', htarget, hhealed⟩, hroom⟩
  cases hneedy.stored.symm.trans hneedy'.stored
  have hgrown : ∃ nodeId, s'.metadata.metadataStore.chunks =
      s.metadata.metadataStore.chunks.insert record.id (record.addStorageNode nodeId) := by
    refine hturned.chunks.resolve_left ?_
    rintro ⟨_, hsame⟩
    rw [hsame] at hhealed
    have heq := hneedy.stored.symm.trans hhealed
    simpa [MetaChunk.addStorageNode] using congrArg
      (·.map fun chunk => chunk.storageNodes.length) heq
  have hsize : s'.metadata.metadataStore.chunks.size = s.metadata.metadataStore.chunks.size := by
    rcases hgrown with ⟨nodeId, hchunks⟩
    have hmem : record.id ∈ s.metadata.metadataStore.chunks :=
      HashMap.mem_iff_exists_getElem?.mpr ⟨record, hneedy.stored⟩
    rw [hchunks, Std.ExtTreeMap.size_insert]
    simp [hmem]
  exact ⟨⟨hturned.tidy, hturned.objects, hturned.storageNodes, .inr hgrown⟩,
    hspread.of_room hroom hturned.storageNodes hsize⟩

/-! ## Copies -/

/-- How many storage nodes hold the chunk. -/
noncomputable def copies (s : Services) (id : UInt64) : Nat :=
  Set.ncard {address | (s.dataAt address id).isSome}

/-- The copies are the recorded replicas. -/
theorem copies_eq (htidy : Tidy crc32 [] pieces s) (hspread : Spread s)
    (hchunk : s.metadata.metadataStore.chunks[id]? = some record) :
    copies s id = record.storageNodes.length := by
  have hplaced := htidy.catalogued.placed id record hchunk
  let addressOf : UInt64 → String := fun nodeId =>
    (s.metadata.metadataStore.storageNodes[nodeId]?).elim "" (·.address)
  have hregistered : ∀ nodeId ∈ record.storageNodes, ∃ node,
      s.metadata.metadataStore.storageNodes[nodeId]? = some node ∧
        addressOf nodeId = node.address := by
    intro nodeId hnodeId
    rcases HashMap.mem_iff_exists_getElem?.mp (hplaced.registered nodeId hnodeId) with
      ⟨node, hnode⟩
    exact ⟨node, hnode, by simp [addressOf, hnode]⟩
  have himage : {address | (s.dataAt address id).isSome} =
      addressOf '' (record.storageNodes.toFinset : Set UInt64) := by
    ext address
    rw [Set.mem_ofPred_eq, Set.mem_image]
    constructor
    · intro hdata
      rcases Option.isSome_iff_exists.mp hdata with ⟨bytes, hbytes⟩
      rcases replica_iff.mp (htidy.owned id address bytes hbytes).2 with
        ⟨chunk, nodeId, node, hfound, hnodeId, hnode, rfl⟩
      cases hchunk.symm.trans hfound
      exact ⟨nodeId, by simpa using hnodeId, by simp [addressOf, hnode]⟩
    · rintro ⟨nodeId, hmem, rfl⟩
      have hnodeId : nodeId ∈ record.storageNodes := by simpa using hmem
      rcases hregistered nodeId hnodeId with ⟨node, hnode, haddress⟩
      rw [haddress, htidy.held id node.address nofun
        (replica_iff.mpr ⟨record, nodeId, node, hchunk, hnodeId, hnode, rfl⟩)]
      rfl
  have hinjective : Set.InjOn addressOf (record.storageNodes.toFinset : Set UInt64) := by
    intro nodeId hmem nodeId' hmem' heq
    rcases hregistered nodeId (by simpa using hmem) with ⟨node, hnode, haddress⟩
    rcases hregistered nodeId' (by simpa using hmem') with ⟨node', hnode', haddress'⟩
    exact hspread.addresses nodeId nodeId' node node' hnode hnode'
      (haddress.symm.trans (heq.trans haddress'))
  rw [copies, himage, hinjective.ncard_image, Set.ncard_coe_finset,
    List.toFinset_card_of_nodup hplaced.distinct]

/-! ## Cycles -/

/-- Cycles of the replication service. -/
def Cycles (env : Environment) (maxChunksPerCycle : Nat) :
    Lts Services (Except String CycleReport) :=
  fun s result s' =>
    (runReplicationCycle env.crc32 maxChunksPerCycle).Runs (RoomyStep env) s result s'

/-- What `count` cycles make of the store. -/
structure Replicated (env : Environment) (pieces : UInt64 → Bytes) (count : Nat)
    (s s' : Services) : Prop where
  tidy : Tidy env.crc32 [] pieces s'
  spread : Spread s'
  objects : s'.metadata.metadataStore.objects = s.metadata.metadataStore.objects
  chunks : ∀ id, id ∈ s'.metadata.metadataStore.chunks ↔ id ∈ s.metadata.metadataStore.chunks
  copies : ∀ id ∈ s.metadata.metadataStore.chunks,
    copies s' id = max (copies s id) (min 3 (copies s id + count))

/-- Cycles follow one another. -/
theorem Replicated.trans {count count' : Nat} {s₁ : Services}
    (h : Replicated env pieces count s s₁) (h' : Replicated env pieces count' s₁ s') :
    Replicated env pieces (count + count') s s' where
  tidy := h'.tidy
  spread := h'.spread
  objects := h'.objects.trans h.objects
  chunks id := (h'.chunks id).trans (h.chunks id)
  copies id hid := by
    rw [h'.copies id ((h.chunks id).mpr hid), h.copies id hid]
    omega

/-- The chunks to replicate are those with fewer than three replicas. -/
theorem Tidy.mem_needy_iff {records : List MetaChunk} (htidy : Tidy crc32 [] pieces s)
    (hneedy : ∀ record, record ∈ records ↔ Needy s record.id record)
    (hrecord : s.metadata.metadataStore.chunks[id]? = some record) :
    id ∈ records.map MetaChunk.id ↔ record.storageNodes.length < 3 := by
  have hplaced := htidy.catalogued.placed id record hrecord
  constructor
  · intro hid
    rcases List.mem_map.mp hid with ⟨other, hother, rfl⟩
    have hfound := (hneedy other).mp hother
    cases hrecord.symm.trans hfound.stored
    exact hfound.short
  · intro hshort
    rw [← hplaced.key] at hrecord ⊢
    exact List.mem_map_of_mem ((hneedy record).mpr ⟨hrecord, hplaced.confirmed, hshort⟩)

/-- One cycle. -/
theorem runReplicationCycle_replicates {limit : Nat} {result : Except String CycleReport}
    (htidy : Tidy env.crc32 [] pieces s) (hspread : Spread s)
    (hlimit : s.metadata.metadataStore.chunks.size ≤ limit)
    (hcycle : Cycles env limit s result s') : Replicated env pieces 1 s s' := by
  have hensures : (runReplicationCycle env.crc32 limit).Ensures (RoomyStep env) _ s :=
    runReplicationCycle_cycled (fun nodes s record htidy hneedy hnodes hspread =>
      replicateChunk_grows htidy hneedy hnodes hspread)
    (fun _ _ hsame hspread => hspread.same hsame) htidy hspread limit
  rcases hcycle.ensures hensures with ⟨⟨records, hdistinct, hneedy, hcycled⟩, hspread'⟩
  have hneedyMem : ∀ record ∈ records, Needy s record.id record :=
    fun record => (hneedy record).mp
  rw [List.take_of_length_le
    ((length_le_size_of_needy hdistinct hneedyMem).trans hlimit)] at hcycled
  constructor
  · exact hcycled.tidy
  · exact hspread'
  · exact hcycled.objects
  · exact fun id => hcycled.mem_chunks_iff hneedyMem
  · intro id hid
    rcases HashMap.mem_iff_exists_getElem?.mp hid with ⟨record, hrecord⟩
    rcases hcycled.exists_record hneedyMem hrecord with ⟨record', hrecord', hlength⟩
    rw [copies_eq htidy hspread hrecord, copies_eq hcycled.tidy hspread' hrecord', hlength]
    have hserved := htidy.mem_needy_iff hneedy hrecord
    split
    · rename_i hmem
      have hshort := hserved.mp hmem
      omega
    · rename_i hother
      have hreached := mt hserved.mpr hother
      omega

/-- Cycles one after the other. -/
theorem cycles_replicate {limit : Nat} {results : List (Except String CycleReport)}
    (htrace : (Cycles env limit).Trace s results s') (htidy : Tidy env.crc32 [] pieces s)
    (hspread : Spread s) (hlimit : s.metadata.metadataStore.chunks.size ≤ limit) :
    Replicated env pieces results.length s s' := by
  induction htrace with
  | nil s =>
      refine ⟨htidy, hspread, rfl, fun _ => Iff.rfl, fun id _ => ?_⟩
      rw [List.length_nil]
      omega
  | cons hcycle _ ih =>
      have hfirst := runReplicationCycle_replicates htidy hspread hlimit hcycle
      have hlimit' := (HashMap.size_eq_of_mem_iff hfirst.chunks).le.trans hlimit
      rw [List.length_cons, Nat.add_comm]
      exact hfirst.trans (ih hfirst.tidy hfirst.spread hlimit')

/-- Every cycle adds a copy of each chunk that has fewer than three, and keeps the contents. -/
theorem cycles_converge (env : Environment) (limit : Nat) (s s' : Services)
    (map : String → Option Bytes) (h : Represents env.crc32 s map) (hspread : Spread s)
    (hlimit : s.metadata.metadataStore.chunks.size ≤ limit)
    (results : List (Except String CycleReport))
    (htrace : (Cycles env limit).Trace s results s') :
    Represents env.crc32 s' map ∧ ∀ id ∈ s.metadata.metadataStore.chunks,
      copies s' id = max (copies s id) (min 3 (copies s id + results.length)) := by
  rcases h with ⟨pieces, htidy, rfl⟩
  have hreplicated := cycles_replicate htrace htidy hspread hlimit
  refine ⟨⟨pieces, hreplicated.tidy, ?_⟩, hreplicated.copies⟩
  funext name
  simp only [contents, hreplicated.objects]

/-- One byte on the first of three storage nodes. -/
def unreplicated : Services where
  metadata :=
    ⟨{ files := .empty
       objects := (∅ : HashMap String StorageMetadata.MetaObject).insert "a" ⟨"a", 7, [10], 1⟩
       chunks := (∅ : HashMap UInt64 MetaChunk).insert 10
         ⟨10, "a", Library.crc32 [104], [1], .confirmed⟩
       storageNodes := (((∅ : HashMap UInt64 StorageMetadata.MetaStorageNode).insert 1
         ⟨1, "http://node-a:50051"⟩).insert 2 ⟨2, "http://node-b:50051"⟩).insert 3
         ⟨3, "http://node-c:50051"⟩ }, ∅⟩
  nodes := (((∅ : HashMap String StorageNode.BoundedMap).insert "http://node-a:50051"
    ((StorageNode.BoundedMap.empty 4).handle Library.crc32 .slotDataSize
      (.writeChunk 10 [104])).2).insert "http://node-b:50051" (.empty 4)).insert
        "http://node-c:50051" (.empty 4)
  storageConnections := []

theorem unreplicated_objects : unreplicated.metadata.metadataStore.objects.toList =
    [("a", ⟨"a", 7, [10], 1⟩)] := by decide +kernel

theorem unreplicated_chunks : unreplicated.metadata.metadataStore.chunks.toList =
    [(10, ⟨10, "a", Library.crc32 [104], [1], .confirmed⟩)] := by decide +kernel

theorem unreplicated_registry : unreplicated.metadata.metadataStore.storageNodes.toList =
    [(1, ⟨1, "http://node-a:50051"⟩), (2, ⟨2, "http://node-b:50051"⟩),
      (3, ⟨3, "http://node-c:50051"⟩)] := by decide +kernel

theorem unreplicated_catalogued : Catalogued unreplicated.metadata.metadataStore where
  keyed := HashMap.forall_of_toList unreplicated_registry (by simp)
  named := HashMap.forall_of_toList unreplicated_objects (by simp)
  listed := by
    refine HashMap.forall_of_toList unreplicated_objects ?_
    have hchunk : unreplicated.metadata.metadataStore.chunks[(10 : UInt64)]? =
        some ⟨10, "a", Library.crc32 [104], [1], .confirmed⟩ := by decide +kernel
    rw [List.forall_mem_singleton, List.forall_mem_singleton]
    exact ⟨_, hchunk, rfl⟩
  nodup := HashMap.forall_of_toList unreplicated_objects (by simp)
  placed := by
    refine HashMap.forall_of_toList unreplicated_chunks ?_
    rw [List.forall_mem_singleton]
    have hobject : unreplicated.metadata.metadataStore.objects["a"]? = some ⟨"a", 7, [10], 1⟩ := by
      decide +kernel
    constructor
    · rfl
    · rfl
    · exact ⟨_, hobject, List.mem_singleton_self _⟩
    · exact List.cons_ne_nil _ _
    · exact List.nodup_singleton _
    · rw [List.forall_mem_singleton]
      decide +kernel

/-- The byte is on the first storage node only. -/
theorem unreplicated_dataAt (address : String) (id : UInt64) :
    unreplicated.dataAt address id =
      if address = "http://node-a:50051" ∧ id = 10 then some [104] else none := by
  have hheld : ((StorageNode.BoundedMap.empty 4).handle Library.crc32 .slotDataSize
      (.writeChunk 10 [104])).2.live = (∅ : HashMap UInt64 Bytes).insert 10 [104] := by
    simp [StorageNode.BoundedMap.handle, StorageNode.BoundedMap.empty]
  have hempty : (StorageNode.BoundedMap.empty 4).live = ∅ := rfl
  have hnodes : unreplicated.nodes[address]? =
      if "http://node-c:50051" = address then some (.empty 4)
      else if "http://node-b:50051" = address then some (.empty 4)
      else if "http://node-a:50051" = address then
        some ((StorageNode.BoundedMap.empty 4).handle Library.crc32 .slotDataSize
          (.writeChunk 10 [104])).2
      else none := by
    simp only [unreplicated, Std.ExtTreeMap.getElem?_insert, compare_eq_iff_eq,
      Std.ExtTreeMap.getElem?_empty]
  rw [Services.dataAt, hnodes]
  by_cases ha : address = "http://node-a:50051"
  · subst ha
    by_cases hid : id = 10
    · simp [hheld, hid]
    · simp [hheld, hid, HashMap.getElem?_insert_of_ne _ _ hid]
  · split
    · simp [hempty, ha]
    · split
      · simp [hempty, ha]
      · simp [ha, Ne.symm ha]

theorem unreplicated_replica (address : String) (id : UInt64) :
    Replica unreplicated id address ↔ address = "http://node-a:50051" ∧ id = 10 := by
  have hchunks : ∀ (id : UInt64) (chunk : MetaChunk),
      unreplicated.metadata.metadataStore.chunks[id]? = some chunk →
        id = 10 ∧ chunk.storageNodes = [1] :=
    HashMap.forall_of_toList unreplicated_chunks (by simp)
  have hchunk : unreplicated.metadata.metadataStore.chunks[(10 : UInt64)]? =
      some ⟨10, "a", Library.crc32 [104], [1], .confirmed⟩ := by decide +kernel
  have hnode : unreplicated.metadata.metadataStore.storageNodes[(1 : UInt64)]? =
      some ⟨1, "http://node-a:50051"⟩ := by decide +kernel
  rw [replica_iff]
  constructor
  · rintro ⟨chunk, nodeId, node, hfound, hnodeId, hregistered, rfl⟩
    rcases hchunks id chunk hfound with ⟨rfl, hlist⟩
    rw [hlist, List.mem_singleton] at hnodeId
    subst hnodeId
    cases hnode.symm.trans hregistered
    exact ⟨rfl, rfl⟩
  · rintro ⟨rfl, rfl⟩
    exact ⟨_, 1, _, hchunk, List.mem_singleton_self _, hnode, rfl⟩

theorem unreplicated_tidy : Tidy Library.crc32 [] (fun _ => [104]) unreplicated where
  catalogued := unreplicated_catalogued
  registered := by decide +kernel
  reachable := by decide +kernel
  held id address _ hreplica := by
    rw [unreplicated_dataAt, if_pos ((unreplicated_replica address id).mp hreplica)]
  owned id address bytes hbytes := by
    rw [unreplicated_dataAt] at hbytes
    split at hbytes
    · rename_i hheld
      exact ⟨nofun, (unreplicated_replica address id).mpr hheld⟩
    · cases hbytes
  whole := HashMap.forall_of_toList unreplicated_chunks (by simp)

theorem unreplicated_spread : Spread unreplicated where
  addresses nodeId nodeId' node node' hnode hnode' heq := by
    have hentries : ∀ (nodeId : UInt64) (node : StorageMetadata.MetaStorageNode),
        unreplicated.metadata.metadataStore.storageNodes[nodeId]? = some node →
        (nodeId, node) ∈ [(1, ⟨1, "http://node-a:50051"⟩), (2, ⟨2, "http://node-b:50051"⟩),
          (3, ⟨3, "http://node-c:50051"⟩)] :=
      HashMap.forall_of_toList unreplicated_registry fun _ hentry => hentry
    have hmem := hentries nodeId node hnode
    have hmem' := hentries nodeId' node' hnode'
    simp only [List.mem_cons, List.not_mem_nil, or_false, Prod.mk.injEq] at hmem hmem'
    rcases hmem with ⟨rfl, rfl⟩ | ⟨rfl, rfl⟩ | ⟨rfl, rfl⟩ <;>
      rcases hmem' with ⟨rfl, rfl⟩ | ⟨rfl, rfl⟩ | ⟨rfl, rfl⟩ <;> simp_all
  enough := by decide +kernel
  room := by
    refine HashMap.forall_of_toList unreplicated_registry fun entry hentry => ?_
    have hall : ∀ entry ∈ [((1 : UInt64), (⟨1, "http://node-a:50051"⟩ :
        StorageMetadata.MetaStorageNode)), (2, ⟨2, "http://node-b:50051"⟩),
          (3, ⟨3, "http://node-c:50051"⟩)], (unreplicated.nodes[entry.2.address]?).any (fun held =>
        unreplicated.metadata.metadataStore.chunks.size ≤ held.capacity) = true := by
      decide +kernel
    rcases (Option.any_eq_true _ _).mp (hall entry hentry) with ⟨held, hheld, hcapacity⟩
    exact ⟨held, hheld, of_decide_eq_true hcapacity⟩

/-- Two cycles copy the byte to the other two storage nodes. -/
theorem cycles_converge_unreplicated :
    ∃ (results : List (Except String CycleReport)) (s' : Services),
      (Cycles ApiGateway.plainEnvironment 100).Trace unreplicated results s' ∧
      copies unreplicated 10 = 1 ∧ copies s' 10 = 3 := by
  have hrun : ((runReplicationCycle Library.crc32 100).replay
      (roomyNext ApiGateway.plainEnvironment) (.replicate 12 .plain) unreplicated).any
        (fun (_, s₁) => ((runReplicationCycle Library.crc32 100).replay
          (roomyNext ApiGateway.plainEnvironment) (.replicate 12 .plain) s₁).isSome) = true := by
    decide +kernel
  rcases (Option.any_eq_true _ _).mp hrun with ⟨⟨first, s₁⟩, hfirst, hrest⟩
  rcases Option.isSome_iff_exists.mp hrest with ⟨⟨second, s'⟩, hsecond⟩
  have htrace : (Cycles ApiGateway.plainEnvironment 100).Trace unreplicated [first, second] s' :=
    .cons (Library.Program.runs_of_replay roomyNext_step hfirst)
      (.cons (Library.Program.runs_of_replay roomyNext_step hsecond) (.nil s'))
  have hchunk : unreplicated.metadata.metadataStore.chunks[(10 : UInt64)]? =
      some ⟨10, "a", Library.crc32 [104], [1], .confirmed⟩ := by decide +kernel
  have hone : copies unreplicated 10 = 1 := copies_eq unreplicated_tidy unreplicated_spread hchunk
  have hcopies := (cycles_converge ApiGateway.plainEnvironment 100 unreplicated s' _
    ⟨_, unreplicated_tidy, rfl⟩ unreplicated_spread (by decide +kernel) _ htrace).2 10
    (HashMap.mem_iff_exists_getElem?.mpr ⟨_, hchunk⟩)
  rw [hone] at hcopies
  exact ⟨_, s', htrace, hone, hcopies⟩

end System
end ObjectStore
