import ObjectStore.ReplicationService.Cleanup

/-!
# Replication service - Which chunks are healed

A cycle reads a chunk from the first of its recorded replicas and from no other.  If this one is
on a registered node that can be reached and returns the right bytes, the chunk is healed; if
not, there are runs in which it is skipped, however many good replicas come after it.

Main definitions:

- `ReachableStep`: calls fail only on the way to storage nodes that cannot be reached.
- `GoodSource`: a replica that the chunk could be copied from.
- `Welcoming`: every storage node that may be chosen takes the copy.
- `CycleThrough`: the runs of a cycle that come to the turn of a chunk in a given state.

Main results:

- Theorem `replicateChunk_heals`: a good first replica is enough.
- Theorem `replicateChunk_skips`: and without one the turn can end as it began.
- Theorem `healable_chunk_healed_iff`: the same for a whole cycle.
-/

namespace ObjectStore
namespace ReplicationService

open Deployment (Call Choice Environment Faults Program SameServices Services Step)
open StorageMetadata (MetaChunk)
open StorageMetadata.Proto (MetaStorageNode UnderReplicatedChunk)
open StorageNode (BoundedMap)

/-! ## Reachable storage nodes -/

/-- The storage node that a call goes to. -/
def addressOf : Call → Option String
  | .connect address | .storageNode address _ => some address
  | _ => none

/-- Calls to a storage node that cannot be reached may go in any way.  All others are answered. -/
inductive ReachableStep (env : Environment) (reachable : String → Prop) :
    Library.Step Services Call Call.Reply where
  | answered {s s' : Services} {call : Call} {reply : call.Reply}
      (hstep : Step env .none s call reply s') : ReachableStep env reachable s call reply s'
  | unreachable {s s' : Services} {call : Call} {reply : call.Reply} {address : String}
      (hcall : addressOf call = some address) (haddress : ¬ reachable address)
      (hstep : Step env .any s call reply s') : ReachableStep env reachable s call reply s'

variable {env : Environment} {reachable : String → Prop} {s s' : Services} {call : Call}
  {reply : call.Reply} {address : String} {id nodeId : UInt64} {bytes : Bytes}
  {held : BoundedMap} {nodes : List MetaStorageNode} {chunk : UnderReplicatedChunk}

/-- Unreachable nodes are a kind of fault. -/
theorem ReachableStep.any (h : ReachableStep env reachable s call reply s') :
    Step env .any s call reply s' := by
  cases h with
  | answered hstep => exact hstep.any
  | unreachable hcall haddress hstep => exact hstep

/-- A call that fails for no reason has been served. -/
theorem ReachableStep.served (h : ReachableStep env reachable s call reply s')
    (hcall : ∀ address, addressOf call = some address → reachable address)
    (hlists : ¬ Lists call) :
    ∃ choice : Choice, choice.io = .completes ∧ s.serve env choice call = some (reply, s') := by
  cases h with
  | answered hstep =>
      cases hstep with
      | served hio hserve => exact ⟨_, hio.resolve_right (by decide), hserve⟩
      | nodesListed hnodes => exact absurd trivial hlists
      | chunksListed hchunks hsorted => exact absurd trivial hlists
      | failed hfaults hfails => exact absurd rfl hfaults
      | lost hfaults hserve hfails => cases hfaults
  | unreachable haddress hunreachable hstep => exact absurd (hcall _ haddress) hunreachable

/-! ## Answers -/

section

variable (choice : Choice)

theorem serve_connect (hnode : address ∈ s.nodes) :
    s.serve env choice (.connect address) = some (.ok (), s) :=
  if_pos hnode

theorem serve_connect_missing (hnode : address ∉ s.nodes) :
    s.serve env choice (.connect address) = some (.error choice.message, s) :=
  if_neg hnode

theorem serve_choose {count : Nat} (h : choice.pick < count) :
    s.serve env choice (.choose count) = some (choice.pick, s) :=
  if_pos h

/-- A request that leaves the storage node as it is. -/
theorem serve_storageNode_read {request : StorageNode.Call}
    (hnode : s.nodes[address]? = some held)
    (hsame : (held.handle env.crc32 env.chunkSize request).2 = held) :
    s.serve env choice (.storageNode address request) =
      some ((held.handle env.crc32 env.chunkSize request).1, s) := by
  simp only [Services.serve, hnode, hsame, HashMap.insert_of_getElem? hnode]
  rfl

theorem serve_getFreeChunks (hnode : s.nodes[address]? = some held) :
    s.serve env choice (.storageNode address .getFreeChunks) =
      some (.ok (held.capacity - held.live.size), s) :=
  serve_storageNode_read choice hnode rfl

theorem serve_readChunk (hnode : s.nodes[address]? = some held)
    (hdata : held.live[id]? = some bytes) :
    s.serve env choice (.storageNode address (.readChunk id)) =
      some (.ok ⟨id, bytes, env.crc32 bytes⟩, s) := by
  rw [serve_storageNode_read choice hnode (by simp [BoundedMap.handle, hdata])]
  simp only [BoundedMap.handle, hdata]
  rfl

theorem serve_readChunk_missing (hnode : s.nodes[address]? = some held)
    (hdata : held.live[id]? = none) :
    s.serve env choice (.storageNode address (.readChunk id)) =
      some (.error ⟨.notFound, "chunk not found"⟩, s) := by
  rw [serve_storageNode_read choice hnode (by simp [BoundedMap.handle, hdata])]
  simp only [BoundedMap.handle, hdata]
  rfl

theorem serve_getStorageNode {node : StorageMetadata.MetaStorageNode}
    (hnode : s.metadata.metadataStore.storageNodes[id]? = some node) :
    s.serve env choice (.metadata (.getStorageNode id)) = some (.ok node.address, s) := by
  simp only [Services.serve, Services.serveMetadata,
    StorageMetadata.StorageMetadataImpl.getStorageNode,
    StorageMetadata.MetadataStore.getStorageNode, hnode]
  rfl

theorem serve_getStorageNode_missing
    (hnode : s.metadata.metadataStore.storageNodes[id]? = none) :
    ∃ status, s.serve env choice (.metadata (.getStorageNode id)) = some (.error status, s) := by
  simp only [Services.serve, Services.serveMetadata,
    StorageMetadata.StorageMetadataImpl.getStorageNode,
    StorageMetadata.MetadataStore.getStorageNode, hnode]
  exact ⟨_, rfl⟩

/-- A storage node with room takes a chunk that it does not have. -/
theorem serve_writeChunk (hnode : s.nodes[address]? = some held)
    (hroom : held.live.size < held.capacity) (hnew : id ∉ held.live) :
    ∃ s', s.serve env choice (.storageNode address (.writeChunk id bytes)) = some (.ok id, s') ∧
      s'.metadata = s.metadata := by
  have hsize : held.live.size ≠ held.capacity := by omega
  simp only [Services.serve, hnode, BoundedMap.handle, hnew, hsize, if_false, dif_neg,
    not_false_eq_true]
  exact ⟨_, rfl, rfl⟩

/-- A registered storage node is recorded for a chunk that it is not recorded for. -/
theorem serve_addChunkReplica {record : MetaChunk} (hio : choice.io = .completes)
    (hrecord : s.metadata.metadataStore.chunks[id]? = some record)
    (hnode : nodeId ∈ s.metadata.metadataStore.storageNodes) (hnew : nodeId ∉ record.storageNodes)
    (hroom : record.storageNodes.length < 3) :
    ∃ s', s.serve env choice (.metadata (.addChunkReplica id nodeId)) = some (.ok (), s') ∧
      s'.metadata.metadataStore.chunks =
        s.metadata.metadataStore.chunks.insert id (record.addStorageNode nodeId) := by
  have hmethod : s.metadata.metadataStore.addChunkReplica env.lib choice.io id nodeId =
      (s.metadata.metadataStore.withChunk id (record.addStorageNode nodeId)).save env.lib
        choice.io := by
    have hfull : ¬ StorageMetadata.MetadataStore.MAX_REPLICAS ≤ record.storageNodes.length := by
      rw [StorageMetadata.MetadataStore.MAX_REPLICAS]
      omega
    simp [StorageMetadata.MetadataStore.addChunkReplica, hnode, hrecord, hnew, hfull,
      StorageMetadata.MetadataStore.withChunk]
  have hmirrors := @StorageMetadata.addChunkReplica_mirrors env.lib choice.io s.metadata id nodeId
  rw [hmethod] at hmirrors
  rcases hmirrors with ⟨hstore, hok⟩
  rcases hok.mpr ⟨(), StorageMetadata.MetadataStore.save_ok_iff.mpr hio⟩ with ⟨value, hvalue⟩
  refine ⟨_, congrArg some (Prod.ext hvalue rfl), ?_⟩
  change (s.metadata.addChunkReplica env.lib choice.io id nodeId).2.metadataStore.chunks = _
  rw [hstore, StorageMetadata.save_chunks]
  rfl

end

/-! ## A good first replica -/

/-- The replica is on a registered storage node that can be reached and returns the right
bytes. -/
def GoodSource (env : Environment) (reachable : String → Prop) (s : Services)
    (chunk : UnderReplicatedChunk) (nodeId : UInt64) : Prop :=
  ∃ node, s.metadata.metadataStore.storageNodes[nodeId]? = some node ∧ reachable node.address ∧
    ∃ bytes, s.dataAt node.address chunk.chunkId = some bytes ∧ env.crc32 bytes = chunk.checksum

/-- The storage node can be reached, has a free slot and takes the chunk. -/
structure Accepts (reachable : String → Prop) (s : Services) (id : UInt64) (address : String) :
    Prop where
  reachable : reachable address
  room : ∃ held, s.nodes[address]? = some held ∧ held.live.size < held.capacity ∧ id ∉ held.live

/-- Every registered storage node without the chunk takes it, and there is one. -/
structure Welcoming (reachable : String → Prop) (s : Services) (chunk : UnderReplicatedChunk) :
    Prop where
  exists_target : ∃ target, IsTarget s.metadata.listStorageNodes chunk target
  accepts : ∀ target, IsTarget s.metadata.listStorageNodes chunk target →
    Accepts reachable s chunk.chunkId target.address

theorem reachable_of_connect (haddress : reachable address) (other : String)
    (h : addressOf (.connect address) = some other) : reachable other := by
  rw [← Option.some.inj h]
  exact haddress

theorem reachable_of_storageNode {request : StorageNode.Call} (haddress : reachable address)
    (other : String) (h : addressOf (.storageNode address request) = some other) :
    reachable other := by
  rw [← Option.some.inj h]
  exact haddress

/-- A reachable node can be connected to. -/
theorem connect_answered (haddress : reachable address) (hnode : address ∈ s.nodes)
    {connected : Except String Unit}
    (h : ReachableStep env reachable s (.connect address) connected s') :
    connected = .ok () ∧ s' = s := by
  rcases h.served (reachable_of_connect haddress) not_false with ⟨choice, _, hserve⟩
  rw [serve_connect choice hnode] at hserve
  cases hserve
  exact ⟨rfl, rfl⟩

/-- A reachable node with room accepts. -/
theorem hasSpace_answered (h : Accepts reachable s id address) :
    (hasSpace address).Ensures (ReachableStep env reachable)
      (fun space s' => space = true ∧ s' = s) s := by
  rcases h.room with ⟨held, hnode, hroom, _⟩
  intro connected s₁ hconnect
  rcases connect_answered h.reachable (HashMap.mem_iff_exists_getElem?.mpr ⟨held, hnode⟩) hconnect
    with ⟨hconnected, hs₁⟩
  subst hconnected hs₁
  intro free s₂ hfree
  rcases hfree.served (reachable_of_storageNode h.reachable) not_false with ⟨choice, _, hserve⟩
  rw [serve_getFreeChunks choice hnode] at hserve
  cases hserve
  have hpositive : 0 < held.capacity - held.live.size := by omega
  exact ⟨decide_eq_true hpositive, rfl⟩

/-- A good source gives the data with the recorded checksum. -/
theorem readSource_answered (h : GoodSource env reachable s chunk nodeId) :
    (readSource chunk.chunkId nodeId).Ensures (ReachableStep env reachable)
      (fun read s' => (∃ bytes, read = .ok bytes ∧ env.crc32 bytes = chunk.checksum) ∧ s' = s)
      s := by
  rcases h with ⟨node, hid, haddress, bytes, hdata, hbytes⟩
  rcases Services.dataAt_eq_some_iff.mp hdata with ⟨held, hnode, hlive⟩
  intro found s₁ hfound
  rcases hfound.served (by simp [addressOf]) not_false with ⟨choice, _, hserve⟩
  rw [serve_getStorageNode choice hid] at hserve
  cases hserve
  intro connected s₂ hconnect
  rcases connect_answered haddress (HashMap.mem_iff_exists_getElem?.mpr ⟨held, hnode⟩) hconnect
    with ⟨hconnected, hs₂⟩
  subst hconnected hs₂
  intro read s₃ hread
  rcases hread.served (reachable_of_storageNode haddress) not_false with ⟨choice, _, hserve⟩
  rw [serve_readChunk choice hnode hlive] at hserve
  cases hserve
  exact ⟨⟨bytes, rfl, hbytes⟩, rfl⟩

/-- A target that accepts is written to. -/
theorem writeTarget_answered (h : Accepts reachable s id address) (bytes : Bytes) :
    (writeTarget address id bytes).Ensures (ReachableStep env reachable)
      (fun written s' => written = .ok () ∧ s'.metadata = s.metadata) s := by
  rcases h.room with ⟨held, hnode, hroom, hnew⟩
  intro connected s₁ hconnect
  rcases connect_answered h.reachable (HashMap.mem_iff_exists_getElem?.mpr ⟨held, hnode⟩) hconnect
    with ⟨hconnected, hs₁⟩
  subst hconnected hs₁
  intro written s₂ hwrite
  rcases hwrite.served (reachable_of_storageNode h.reachable) not_false with ⟨choice, _, hserve⟩
  rcases serve_writeChunk choice hnode hroom hnew with ⟨s₃, hanswer, hmetadata⟩
  rw [hanswer] at hserve
  cases hserve
  exact ⟨rfl, hmetadata⟩

/-- The replica is recorded if there is room for it. -/
theorem recordReplica_answered {target : MetaStorageNode} {record : MetaChunk}
    (hrecord : s.metadata.metadataStore.chunks[id]? = some record)
    (hnode : target.id ∈ s.metadata.metadataStore.storageNodes)
    (hnew : target.id ∉ record.storageNodes) (hroom : record.storageNodes.length < 3) :
    (recordReplica id target).Ensures (ReachableStep env reachable)
      (fun _ s' => s'.metadata.metadataStore.chunks =
        s.metadata.metadataStore.chunks.insert id (record.addStorageNode target.id)) s := by
  intro added s₁ hadd
  rcases hadd.served (by simp [addressOf]) not_false with ⟨choice, hio, hserve⟩
  rcases serve_addChunkReplica choice hio hrecord hnode hnew hroom with ⟨s₂, hanswer, hchunks⟩
  rw [hanswer] at hserve
  cases hserve
  exact hchunks

/-- The chunk has one more replica than when it was listed. -/
def Healed (s : Services) (chunk : UnderReplicatedChunk) (s' : Services) : Prop :=
  ∃ record target, Needy s chunk.chunkId record ∧
    IsTarget s.metadata.listStorageNodes chunk target ∧
    s'.metadata.metadataStore.chunks[chunk.chunkId]? = some (record.addStorageNode target.id)

/-- A listed node is registered under its id. -/
theorem mem_storageNodes_of_listed
    (hkeyed : StorageMetadata.RegistryKeyed s.metadata.metadataStore.storageNodes)
    {target : MetaStorageNode} (h : target ∈ s.metadata.listStorageNodes) :
    target.id ∈ s.metadata.metadataStore.storageNodes := by
  rcases List.mem_map.mp h with ⟨node, hnode, heq⟩
  rcases HashMap.mem_valueList.mp hnode with ⟨id, hid⟩
  rw [← heq, hkeyed id node hid]
  exact HashMap.mem_iff_exists_getElem?.mpr ⟨node, hid⟩

/-- The first of the listed replicas is a good source. -/
def FirstReplicaGood (env : Environment) (reachable : String → Prop) (s : Services)
    (chunk : UnderReplicatedChunk) : Prop :=
  ∃ first, chunk.currentStorageNodeIds.head? = some first ∧ GoodSource env reachable s chunk first

/-- A chunk whose first replica is good gets a copy. -/
theorem copyChunk_heals {target : MetaStorageNode} {record : MetaChunk}
    (hkeyed : StorageMetadata.RegistryKeyed s.metadata.metadataStore.storageNodes)
    (hneedy : Needy s chunk.chunkId record) (hlisting : chunk = listingOf record)
    (htarget : IsTarget s.metadata.listStorageNodes chunk target)
    (haccepts : Accepts reachable s chunk.chunkId target.address)
    (hfirst : FirstReplicaGood env reachable s chunk) :
    (copyChunk env.crc32 chunk target).Ensures (ReachableStep env reachable)
      (fun _ s' => Healed s chunk s') s := by
  rcases hfirst with ⟨first, hhead, hgood⟩
  have hnew : target.id ∉ record.storageNodes := by
    have hother := htarget.other
    rwa [hlisting] at hother
  rcases List.head?_eq_some_iff.mp hhead with ⟨rest, hlist⟩
  rw [copyChunk, hlist]
  refine .of_bind ((readSource_answered hgood).mono ?_)
  rintro read s₁ ⟨⟨bytes, hread, hbytes⟩, hs₁⟩
  subst hread hs₁
  simp only [hbytes, ne_eq, not_true_eq_false, if_false]
  refine .of_bind ((writeTarget_answered haccepts bytes).mono ?_)
  rintro written s₂ ⟨hwritten, hmetadata⟩
  subst hwritten
  have hrecord := hneedy.stored
  have hregistered := mem_storageNodes_of_listed hkeyed htarget.listed
  rw [← hmetadata] at hrecord hregistered
  refine (recordReplica_answered hrecord hregistered hnew hneedy.short).mono ?_
  intro outcome s₃ hchunks
  refine ⟨record, target, hneedy, htarget, ?_⟩
  rw [hchunks]
  exact Std.ExtTreeMap.getElem?_insert_self

/-- A good first replica is enough. -/
theorem replicateChunk_heals {record : MetaChunk}
    (hkeyed : StorageMetadata.RegistryKeyed s.metadata.metadataStore.storageNodes)
    (hnodes : nodes.Perm s.metadata.listStorageNodes) (hneedy : Needy s chunk.chunkId record)
    (hlisting : chunk = listingOf record) (hwelcoming : Welcoming reachable s chunk)
    (hfirst : FirstReplicaGood env reachable s chunk) :
    (replicateChunk env.crc32 nodes chunk).Ensures (ReachableStep env reachable)
      (fun _ s' => Healed s chunk s') s := by
  unfold replicateChunk
  dsimp only
  split
  · rename_i hempty
    rcases hwelcoming.exists_target with ⟨target, htarget⟩
    have hmem : target ∈ nodes.filter fun n => !chunk.currentStorageNodeIds.contains n.id := by
      refine List.mem_filter.mpr ⟨hnodes.mem_iff.mpr htarget.listed, ?_⟩
      simpa using htarget.other
    rw [List.isEmpty_iff.mp hempty] at hmem
    cases hmem
  · intro picked s₁ hpicked
    rcases hpicked.served (by simp [addressOf]) not_false with ⟨choice, _, hserve⟩
    simp only [Services.serve] at hserve
    split at hserve
    · rename_i hlt
      cases hserve
      dsimp only [Library.Program.bind]
      rw [List.getElem?_eq_getElem hlt]
      dsimp only
      have hmem := List.mem_filter.mp (List.getElem_mem hlt)
      have htarget : IsTarget s.metadata.listStorageNodes chunk _ :=
        ⟨hnodes.mem_iff.mp hmem.1, by simpa using hmem.2⟩
      have haccepts := hwelcoming.accepts _ htarget
      refine .of_bind ((hasSpace_answered haccepts).mono ?_)
      rintro space s₂ ⟨hspace, hs₂⟩
      subst hspace hs₂
      exact copyChunk_heals hkeyed hneedy hlisting htarget haccepts hfirst
    · cases hserve

/-! ## A first replica that is not good -/

/-- Without faults, nothing drawn. -/
theorem ReachableStep.of_serve (h : s.serve env .plain call = some (reply, s')) :
    ReachableStep env reachable s call reply s' :=
  .answered (.served (.inl rfl) h)

theorem hasSpace_runs (h : Accepts reachable s id address) :
    (hasSpace address).Runs (ReachableStep env reachable) s true s := by
  rcases h.room with ⟨held, hnode, hroom, _⟩
  have hmem : address ∈ s.nodes := HashMap.mem_iff_exists_getElem?.mpr ⟨held, hnode⟩
  refine .call (.of_serve (serve_connect .plain hmem)) ?_
  refine .call (.of_serve (serve_getFreeChunks .plain hnode)) ?_
  have hpositive : 0 < held.capacity - held.live.size := by omega
  rw [← decide_eq_true hpositive]
  exact .done _ _

/-- Where the replica is no good source, reading it can fail or give other bytes. -/
theorem readSource_runs (h : ¬ GoodSource env reachable s chunk nodeId) :
    ∃ read, (readSource chunk.chunkId nodeId).Runs (ReachableStep env reachable) s read s ∧
      ∀ bytes, read = .ok bytes → env.crc32 bytes ≠ chunk.checksum := by
  cases hid : s.metadata.metadataStore.storageNodes[nodeId]? with
  | none =>
      rcases serve_getStorageNode_missing .plain hid with ⟨status, hserve⟩
      exact ⟨_, .call (.of_serve hserve) (.done _ _), fun bytes hread => by cases hread⟩
  | some node =>
      have hfound : ReachableStep env reachable s (.metadata (.getStorageNode nodeId))
        (.ok node.address) s := .of_serve (serve_getStorageNode .plain hid)
      by_cases haddress : reachable node.address
      · by_cases hmem : node.address ∈ s.nodes
        · rcases HashMap.mem_iff_exists_getElem?.mp hmem with ⟨held, hnode⟩
          have hconnect : ReachableStep env reachable s (.connect node.address) (.ok ()) s :=
            .of_serve (serve_connect .plain hmem)
          cases hlive : held.live[chunk.chunkId]? with
          | none =>
              have hread : ReachableStep env reachable s
                  (.storageNode node.address (.readChunk chunk.chunkId)) _ s :=
                .of_serve (serve_readChunk_missing .plain hnode hlive)
              exact ⟨_, .call hfound (.call hconnect (.call hread (.done _ _))),
                fun bytes hbytes => by cases hbytes⟩
          | some bytes =>
              have hread : ReachableStep env reachable s
                  (.storageNode node.address (.readChunk chunk.chunkId)) _ s :=
                .of_serve (serve_readChunk .plain hnode hlive)
              refine ⟨_, .call hfound (.call hconnect (.call hread (.done _ _))), ?_⟩
              intro found hbytes hchecksum
              cases hbytes
              have hdata := Services.dataAt_eq_some_iff.mpr ⟨held, hnode, hlive⟩
              exact h ⟨node, hid, haddress, bytes, hdata, hchecksum⟩
        · have hconnect : ReachableStep env reachable s (.connect node.address) _ s :=
            .of_serve (serve_connect_missing .plain hmem)
          exact ⟨_, .call hfound (.call hconnect (.done _ _)), fun bytes hread => by cases hread⟩
      · have hconnect : ReachableStep env reachable s (.connect node.address)
            (.error "refused") s :=
          .unreachable rfl haddress (.failed (by decide) ⟨_, rfl⟩)
        exact ⟨_, .call hfound (.call hconnect (.done _ _)), fun bytes hread => by cases hread⟩

/-- A chunk whose first replica is not good may be left as it is. -/
theorem copyChunk_skips {target : MetaStorageNode}
    (hfirst : ¬ FirstReplicaGood env reachable s chunk) :
    ∃ outcome, (copyChunk env.crc32 chunk target).Runs (ReachableStep env reachable) s outcome
      s := by
  unfold copyChunk
  split
  · exact ⟨_, .done _ _⟩
  · rename_i first rest hlist
    have hbad : ¬ GoodSource env reachable s chunk first := fun hgood =>
      hfirst ⟨first, by rw [hlist]; rfl, hgood⟩
    rcases readSource_runs hbad with ⟨read, hruns, hother⟩
    cases read with
    | error label => exact ⟨_, Library.Program.runs_bind_iff.mpr ⟨_, _, hruns, .done _ _⟩⟩
    | ok bytes =>
        refine ⟨.failed "checksum_mismatch", Library.Program.runs_bind_iff.mpr ⟨_, _, hruns, ?_⟩⟩
        simp only [ne_eq, hother bytes rfl, not_false_eq_true, if_true]
        exact .done _ _

/-- Without a good first replica the turn can end as it began. -/
theorem replicateChunk_skips (hnodes : nodes.Perm s.metadata.listStorageNodes)
    (hwelcoming : Welcoming reachable s chunk) (hfirst : ¬ FirstReplicaGood env reachable s chunk) :
    ∃ outcome, (replicateChunk env.crc32 nodes chunk).Runs (ReachableStep env reachable) s outcome
      s := by
  unfold replicateChunk
  dsimp only
  split
  · exact ⟨_, .done _ _⟩
  · rename_i hnonempty
    cases heligible : nodes.filter fun n => !chunk.currentStorageNodeIds.contains n.id with
    | nil =>
        rw [heligible] at hnonempty
        exact absurd rfl hnonempty
    | cons target rest =>
        have hmem : target ∈ nodes.filter fun n => !chunk.currentStorageNodeIds.contains n.id := by
          rw [heligible]
          exact List.mem_cons_self
        have hlisted := List.mem_filter.mp hmem
        have htarget : IsTarget s.metadata.listStorageNodes chunk target :=
          ⟨hnodes.mem_iff.mp hlisted.1, by simpa using hlisted.2⟩
        have hchoose : ReachableStep env reachable s (.choose (target :: rest).length)
            (0 : Nat) s :=
          .of_serve (serve_choose .plain (Nat.succ_pos rest.length))
        have hcopies : ∃ outcome, (copyChunk env.crc32 chunk target).Runs
            (ReachableStep env reachable) s outcome s := copyChunk_skips hfirst
        rcases hcopies with ⟨outcome, hcopy⟩
        refine ⟨outcome, .call hchoose ?_⟩
        change (hasSpace target.address >>= fun space =>
          if space then copyChunk env.crc32 chunk target else pure .skipped).Runs _ s outcome s
        exact Library.Program.runs_bind_iff.mpr
          ⟨true, s, hasSpace_runs (hwelcoming.accepts target htarget), hcopy⟩

/-! ## Calls that are always answered -/

/-- The calls of a turn. -/
def Answerable : Call → Prop
  | .metadata (.getStorageNode _) | .metadata (.addChunkReplica _ _) | .connect _
  | .storageNode _ _ => True
  | .choose count => 0 < count
  | _ => False

theorem LooksFor.answerable (h : LooksFor id call) : Answerable call := by
  cases call with
  | metadata call => cases call <;> first | exact h | trivial
  | storageNode address call => trivial
  | connect _ => trivial
  | choose count => exact h
  | cachedConnection _ | connectCached _ | turn => exact h

/-- Every call of a cycle is answered, if only with an error. -/
theorem Answerable.step (h : Answerable call) (s : Services) :
    ∃ reply s', ReachableStep env reachable s call reply s' := by
  cases call with
  | metadata call =>
      cases call <;> first | exact h.elim | exact ⟨_, _, .of_serve rfl⟩
  | connect address =>
      by_cases hnode : address ∈ s.nodes
      · exact ⟨_, _, .of_serve (serve_connect .plain hnode)⟩
      · exact ⟨_, _, .of_serve (serve_connect_missing .plain hnode)⟩
  | storageNode address call =>
      cases hnode : s.nodes[address]? with
      | none =>
          have hserve : s.serve env .plain (.storageNode address call) =
              some (.error ⟨.unavailable, ""⟩, s) := by
            simp only [Services.serve, hnode]
            rfl
          exact ⟨_, _, .of_serve hserve⟩
      | some held =>
          have hserve : s.serve env .plain (.storageNode address call) =
              some ((held.handle env.crc32 env.chunkSize call).1,
                { s with
                  nodes := s.nodes.insert address
                    (held.handle env.crc32 env.chunkSize call).2 }) := by
            simp only [Services.serve, hnode]
            rfl
          exact ⟨_, _, .of_serve hserve⟩
  | choose count => exact ⟨_, _, .of_serve (serve_choose .plain h)⟩
  | cachedConnection _ | connectCached _ | turn => exact h.elim

theorem cleanUp_answerable (address : String) (id : UInt64) :
    (cleanUp address id).Only Answerable := by
  refine ⟨trivial, fun (connected : Except String Unit) => ?_⟩
  cases connected with
  | error _ => trivial
  | ok _ => exact ⟨trivial, fun _ => trivial⟩

theorem recordReplica_answerable (id : UInt64) (target : MetaStorageNode) :
    (recordReplica id target).Only Answerable := by
  refine ⟨trivial, fun (added : Except Status Unit) => ?_⟩
  cases added with
  | ok _ => trivial
  | error _ =>
      change (cleanUp target.address id >>= fun _ => _).Only Answerable
      exact (cleanUp_answerable target.address id).of_bind fun _ => trivial

theorem writeTarget_answerable (address : String) (id : UInt64) (bytes : Bytes) :
    (writeTarget address id bytes).Only Answerable := by
  refine ⟨trivial, fun (connected : Except String Unit) => ?_⟩
  cases connected with
  | error _ => trivial
  | ok _ =>
      refine ⟨trivial, fun (written : Except Status UInt64) => ?_⟩
      cases written <;> trivial

theorem copyChunk_answerable (crc32 : Bytes → UInt32) (chunk : UnderReplicatedChunk)
    (target : MetaStorageNode) : (copyChunk crc32 chunk target).Only Answerable := by
  unfold copyChunk
  split
  · trivial
  · rename_i sourceNodeId _ _
    refine ((readSource_looksFor chunk.chunkId sourceNodeId).mono fun _ h => h.answerable).of_bind
      fun read => ?_
    cases read with
    | error label => trivial
    | ok bytes =>
        dsimp only
        split
        · trivial
        · refine (writeTarget_answerable target.address chunk.chunkId bytes).of_bind
            fun written => ?_
          cases written with
          | error label => trivial
          | ok _ => exact recordReplica_answerable chunk.chunkId target

/-- The turn of a chunk only makes such calls. -/
theorem replicateChunk_answerable (crc32 : Bytes → UInt32) (nodes : List MetaStorageNode)
    (chunk : UnderReplicatedChunk) : (replicateChunk crc32 nodes chunk).Only Answerable := by
  unfold replicateChunk
  dsimp only
  split
  · trivial
  · rename_i hnonempty
    refine ⟨length_pos_of_not_isEmpty hnonempty, fun (picked : Nat) => ?_⟩
    dsimp only [Library.Program.bind]
    split
    · trivial
    · rename_i target htarget
      refine ((hasSpace_looksFor target.address 0).mono fun _ h => h.answerable).of_bind
        fun space => ?_
      split
      · exact copyChunk_answerable crc32 chunk target
      · trivial

theorem replicateChunks_answerable (crc32 : Bytes → UInt32) (nodes : List MetaStorageNode)
    (chunks : List UnderReplicatedChunk) :
    (replicateChunks crc32 nodes chunks).Only Answerable := by
  induction chunks with
  | nil => trivial
  | cons chunk chunks ih =>
      exact (replicateChunk_answerable crc32 nodes chunk).of_bind fun _ =>
        ih.of_bind fun _ => trivial

/-! ## A whole cycle -/

/-- A cycle from `s₀` has come to the turn of `chunk`; the chunks `after` are still to come. -/
inductive ComesTo (env : Environment) (reachable : String → Prop) (maxChunksPerCycle : Nat)
    (s₀ : Services) (nodes : List MetaStorageNode) (chunks : List UnderReplicatedChunk)
    (outcomes : List ChunkOutcome) (chunk : UnderReplicatedChunk)
    (after : List UnderReplicatedChunk) : Services → Prop where
  | intro {earlier : List UnderReplicatedChunk} {s₁ s₂ s : Services}
      (hchunks : ReachableStep env reachable s₀
        (.metadata (.listUnderReplicatedChunks MAX_REPLICAS)) (.ok chunks) s₁)
      (hnodes : ReachableStep env reachable s₁ (.metadata .listStorageNodes) (.ok nodes) s₂)
      (hnonempty : nodes ≠ [])
      (htake : chunks.take maxChunksPerCycle = earlier ++ chunk :: after)
      (hearlier : (replicateChunks env.crc32 nodes earlier).Runs (ReachableStep env reachable) s₂
        outcomes s) :
      ComesTo env reachable maxChunksPerCycle s₀ nodes chunks outcomes chunk after s

/-- The runs of a cycle from `s₀` that come to the turn of `chunk` in the state `s`. -/
inductive CycleThrough (env : Environment) (reachable : String → Prop) (maxChunksPerCycle : Nat)
    (s₀ : Services) (chunk : UnderReplicatedChunk) (s : Services) :
    Except String CycleReport → Services → Prop where
  | intro {nodes : List MetaStorageNode} {chunks after : List UnderReplicatedChunk}
      {outcomes later : List ChunkOutcome} {s' : Services}
      (hcomes : ComesTo env reachable maxChunksPerCycle s₀ nodes chunks outcomes chunk after s)
      (hrest : (replicateChunks env.crc32 nodes (chunk :: after)).Runs
        (ReachableStep env reachable) s later s') :
      CycleThrough env reachable maxChunksPerCycle s₀ chunk s
        (.ok ⟨chunks.length, chunks.length - maxChunksPerCycle, outcomes ++ later⟩) s'

/-- The loop can be cut at any chunk. -/
theorem replicateChunks_append {step : Library.Step Services Call Call.Reply}
    {crc32 : Bytes → UInt32} {earlier rest : List UnderReplicatedChunk}
    {outcomes : List ChunkOutcome} :
    (replicateChunks crc32 nodes (earlier ++ rest)).Runs step s outcomes s' ↔
      ∃ first later s₁, outcomes = first ++ later ∧
        (replicateChunks crc32 nodes earlier).Runs step s first s₁ ∧
        (replicateChunks crc32 nodes rest).Runs step s₁ later s' := by
  induction earlier generalizing s outcomes with
  | nil =>
      constructor
      · intro h
        exact ⟨[], outcomes, s, rfl, .done _ _, h⟩
      · rintro ⟨first, later, s₁, houtcomes, hfirst, hlater⟩
        cases hfirst
        rw [houtcomes]
        exact hlater
  | cons chunk earlier ih =>
      constructor
      · intro h
        rcases Library.Program.runs_bind_iff.mp h with ⟨outcome, s₁, hchunk, hothers⟩
        rcases Library.Program.runs_bind_iff.mp hothers with ⟨others, s₂, hmore, hdone⟩
        cases hdone
        rcases ih.mp hmore with ⟨first, later, s₃, houtcomes, hfirst, hlater⟩
        refine ⟨outcome :: first, later, s₃, by rw [houtcomes]; rfl, ?_, hlater⟩
        exact Library.Program.runs_bind_iff.mpr ⟨outcome, s₁, hchunk,
          Library.Program.runs_bind_iff.mpr ⟨first, s₃, hfirst, .done _ _⟩⟩
      · rintro ⟨first, later, s₃, houtcomes, hfirst, hlater⟩
        rcases Library.Program.runs_bind_iff.mp hfirst with ⟨outcome, s₁, hchunk, hothers⟩
        rcases Library.Program.runs_bind_iff.mp hothers with ⟨others, s₂, hmore, hdone⟩
        cases hdone
        rw [houtcomes]
        exact Library.Program.runs_bind_iff.mpr ⟨outcome, s₁, hchunk,
          Library.Program.runs_bind_iff.mpr
            ⟨others ++ later, s', ih.mpr ⟨others, later, s₃, rfl, hmore, hlater⟩, .done _ _⟩⟩

/-- These are runs of the cycle. -/
theorem CycleThrough.runs {maxChunksPerCycle : Nat} {s₀ : Services}
    {result : Except String CycleReport}
    (h : CycleThrough env reachable maxChunksPerCycle s₀ chunk s result s') :
    (runReplicationCycle env.crc32 maxChunksPerCycle).Runs (ReachableStep env reachable) s₀ result
      s' := by
  rcases h with ⟨⟨hchunks, hnodes, hnonempty, htake, hearlier⟩, hrest⟩
  rename_i nodes chunks after outcomes later earlier s₁ s₂
  refine .call hchunks ?_
  have hchunks : chunks.isEmpty = false := by
    cases chunks with
    | nil => simp at htake
    | cons _ _ => rfl
  have hlisted : nodes.isEmpty = false := by
    cases nodes with
    | nil => exact absurd rfl hnonempty
    | cons _ _ => rfl
  simp only [Library.Program.bind, hchunks, Bool.false_eq_true, if_false]
  refine .call hnodes ?_
  simp only [Library.Program.bind, hlisted, Bool.false_eq_true, if_false]
  refine Library.Program.runs_bind_iff.mpr ⟨outcomes ++ later, s', ?_, .done _ _⟩
  rw [htake]
  exact replicateChunks_append.mpr ⟨outcomes, later, s, rfl, hearlier, hrest⟩

/-- Listings are always answered. -/
theorem ReachableStep.chunks_answered {maxReplicas : UInt32} {status : Status} :
    ¬ ReachableStep env reachable s (.metadata (.listUnderReplicatedChunks maxReplicas))
      (.error status) s' := by
  intro h
  cases h with
  | answered hstep =>
      cases hstep with
      | served _ hserve => cases hserve
      | failed hfaults _ => exact hfaults rfl
      | lost hfaults _ _ => cases hfaults
  | unreachable hcall _ _ => cases hcall

theorem ReachableStep.nodes_answered {status : Status} :
    ¬ ReachableStep env reachable s (.metadata .listStorageNodes) (.error status) s' := by
  intro h
  cases h with
  | answered hstep =>
      cases hstep with
      | served _ hserve => cases hserve
      | failed hfaults _ => exact hfaults rfl
      | lost hfaults _ _ => cases hfaults
  | unreachable hcall _ _ => cases hcall

/-- And every run of the cycle comes to the turn of each chunk within the limit, if there are
storage nodes. -/
theorem exists_cycleThrough {maxChunksPerCycle : Nat} {result : Except String CycleReport}
    (h : (runReplicationCycle env.crc32 maxChunksPerCycle).Runs (ReachableStep env reachable) s
      result s') (hregistered : s.metadata.listStorageNodes ≠ []) :
    ∃ chunks : List UnderReplicatedChunk,
      chunks.Perm (s.metadata.listUnderReplicatedChunks MAX_REPLICAS) ∧
      ∀ chunk ∈ chunks.take maxChunksPerCycle, ∃ t,
        CycleThrough env reachable maxChunksPerCycle s chunk t result s' := by
  cases h with
  | @call _ _ listed _ s₁ _ _ hchunks hrest =>
      change Except Status (List UnderReplicatedChunk) at listed
      cases listed with
      | error status => exact absurd hchunks ReachableStep.chunks_answered
      | ok chunks =>
          refine ⟨chunks, hchunks.any.chunks_listed.1, fun chunk hchunk => ?_⟩
          dsimp only [Library.Program.bind] at hrest
          split at hrest
          · rename_i hempty
            rw [List.isEmpty_iff.mp hempty, List.take_nil] at hchunk
            cases hchunk
          cases hrest with
          | @call _ _ found _ s₂ _ _ hnodes hrest =>
              change Except Status (List MetaStorageNode) at found
              cases found with
              | error status => exact absurd hnodes ReachableStep.nodes_answered
              | ok nodes =>
                  dsimp only [Library.Program.bind] at hrest
                  split at hrest
                  · rename_i hempty
                    have hperm := hnodes.any.nodes_listed
                    rw [List.isEmpty_iff.mp hempty,
                      (hchunks.any.reads trivial).listStorageNodes] at hperm
                    exact absurd (List.nil_perm.mp hperm) hregistered
                  · rename_i hnonempty
                    rcases Library.Program.runs_bind_iff.mp hrest with ⟨all, s₃, hturns, hdone⟩
                    cases hdone
                    rcases List.append_of_mem hchunk with ⟨earlier, after, htake⟩
                    rw [htake] at hturns
                    rcases replicateChunks_append.mp hturns with
                      ⟨outcomes, later, t, houtcomes, hearlier, hlater⟩
                    refine ⟨t, ?_⟩
                    rw [houtcomes]
                    exact .intro (.intro hchunks hnodes
                      (fun heq => hnonempty (List.isEmpty_iff.mpr heq)) htake hearlier) hlater

/-! ## Healed chunks -/

/-- A turn does not touch the registry. -/
theorem Turn.storageNodes {faults : Faults} {outcome : ChunkOutcome} {events : List Transition}
    (h : Turn env faults nodes chunk s outcome events s') :
    s'.metadata.metadataStore.storageNodes = s.metadata.metadataStore.storageNodes := by
  cases h with
  | looked houtcome hlooked => exact hlooked.same.memory.storageNodes
  | refused hlooked htarget hbytes hwrite =>
      rw [hwrite.metadata_eq (by simp), hlooked.same.memory.storageNodes]
  | recorded hlooked htarget hbytes hwrite hadd =>
      rw [hadd.addChunkReplica_storageNodes, hwrite.metadata_eq (by simp),
        hlooked.same.memory.storageNodes]
  | cleaned hlooked htarget hbytes hwrite hadd hcleanup =>
      rw [hcleanup.metadata_eq, hadd.addChunkReplica_storageNodes, hwrite.metadata_eq (by simp),
        hlooked.same.memory.storageNodes]

/-- No turn changes the registry. -/
theorem Turns.storageNodes {faults : Faults} {chunks : List UnderReplicatedChunk}
    {events : List Transition} (h : Turns env faults nodes chunks s events s') :
    s'.metadata.metadataStore.storageNodes = s.metadata.metadataStore.storageNodes := by
  induction h with
  | nil s => rfl
  | cons hturn hturns ih => exact ih.trans hturn.storageNodes

/-- Turns touch no data of the other chunks. -/
theorem Turns.dataAt_other {faults : Faults} {chunks : List UnderReplicatedChunk}
    {events : List Transition} (h : Turns env faults nodes chunks s events s')
    (hid : id ∉ chunks.map (·.chunkId)) (address : String) :
    s'.dataAt address id = s.dataAt address id := by
  induction h with
  | nil s => rfl
  | cons hturn hturns ih =>
      rw [List.map_cons, List.mem_cons, not_or] at hid
      rcases hid with ⟨hne, hothers⟩
      exact (ih hothers).trans (hturn.dataAt_other hne address)

/-- The turn of a chunk: what was listed still holds. -/
structure AtTurn (s₀ : Services) (nodes : List MetaStorageNode) (chunk : UnderReplicatedChunk)
    (after : List UnderReplicatedChunk) (s : Services) (record : MetaChunk) : Prop where
  listed : Needy s₀ chunk.chunkId record
  listing : chunk = listingOf record
  needy : Needy s chunk.chunkId record
  storageNodes : s.metadata.metadataStore.storageNodes = s₀.metadata.metadataStore.storageNodes
  data (address : String) : s.dataAt address chunk.chunkId = s₀.dataAt address chunk.chunkId
  nodes : nodes.Perm s.metadata.listStorageNodes
  later : chunk.chunkId ∉ after.map (·.chunkId)
  distinct : (after.map (·.chunkId)).Nodup

/-- When its turn comes, the chunk has the record that was listed. -/
theorem ComesTo.atTurn {maxChunksPerCycle : Nat} {s₀ : Services}
    {chunks after : List UnderReplicatedChunk} {outcomes : List ChunkOutcome}
    (hkeyed : ChunksKeyed s₀)
    (h : ComesTo env reachable maxChunksPerCycle s₀ nodes chunks outcomes chunk after s) :
    ∃ record, AtTurn s₀ nodes chunk after s record := by
  rcases h with ⟨hchunks, hnodes, hnonempty, htake, hearlier⟩
  rename_i earlier s₁ s₂
  have hsame₁ := hchunks.any.reads trivial
  have hsame := hsame₁.trans (hnodes.any.reads trivial)
  rcases hchunks.any.chunks_listed with ⟨hperm, hsorted⟩
  have hneediest := neediest_take hkeyed hperm hsorted maxChunksPerCycle
  have hdistinct := hneediest.distinct
  have hmem : chunk ∈ chunks.take maxChunksPerCycle := by
    rw [htake]
    exact List.mem_append_right _ List.mem_cons_self
  rcases hneediest.needy chunk hmem with ⟨record, hneedy, hlisting⟩
  rw [htake, List.map_append, List.map_cons] at hdistinct
  rcases List.nodup_append.mp hdistinct with ⟨hearlierDistinct, hrest, hapart⟩
  rcases turns_of_runs (hearlier.mono fun _ _ _ _ hstep => hstep.any) with ⟨events, hturns⟩
  have hbefore : chunk.chunkId ∉ earlier.map (·.chunkId) := fun hearly =>
    hapart _ hearly _ List.mem_cons_self rfl
  have hstored := (hturns.records hearlierDistinct).1 _ hbefore
  have hregistry := hturns.storageNodes.trans hsame.memory.storageNodes
  rcases List.nodup_cons.mp hrest with ⟨hlater, hafter⟩
  refine ⟨record, hneedy, hlisting, ⟨?_, hneedy.confirmed, hneedy.short⟩, hregistry, ?_, ?_,
    hlater, hafter⟩
  · rw [hstored, hsame.memory.chunks]
    exact hneedy.stored
  · intro address
    rw [hturns.dataAt_other hbefore address, hsame.dataAt]
  · have hlisted := hnodes.any.nodes_listed
    rw [hsame₁.listStorageNodes] at hlisted
    unfold StorageMetadata.StorageMetadataImpl.listStorageNodes
      StorageMetadata.MetadataStore.listStorageNodes at hlisted ⊢
    rwa [hregistry]

section

variable {s₀ t : Services} {after : List UnderReplicatedChunk} {record : MetaChunk}
  {later : List ChunkOutcome}

/-- The registered nodes are still those that were listed. -/
theorem AtTurn.listStorageNodes (h : AtTurn s₀ nodes chunk after s record) :
    s.metadata.listStorageNodes = s₀.metadata.listStorageNodes := by
  rw [StorageMetadata.StorageMetadataImpl.listStorageNodes,
    StorageMetadata.MetadataStore.listStorageNodes, h.storageNodes]
  rfl

/-- The earlier turns leave the source as it was. -/
theorem AtTurn.firstReplicaGood_iff (h : AtTurn s₀ nodes chunk after s record) :
    FirstReplicaGood env reachable s chunk ↔ FirstReplicaGood env reachable s₀ chunk := by
  simp only [FirstReplicaGood, GoodSource, h.storageNodes, h.data]

/-- The chunks behind leave the record alone. -/
theorem AtTurn.kept (h : AtTurn s₀ nodes chunk after s record)
    (hrest : (replicateChunks env.crc32 nodes after).Runs (ReachableStep env reachable) t later
      s') :
    s'.metadata.metadataStore.chunks[chunk.chunkId]? =
      t.metadata.metadataStore.chunks[chunk.chunkId]? := by
  rcases turns_of_runs (hrest.mono fun _ _ _ _ hstep => hstep.any) with ⟨events, hturns⟩
  exact (hturns.records h.distinct).1 _ h.later

/-- A chunk that its turn has healed is healed when the cycle ends. -/
theorem AtTurn.healed (h : AtTurn s₀ nodes chunk after s record) (hhealed : Healed s chunk t)
    (hrest : (replicateChunks env.crc32 nodes after).Runs (ReachableStep env reachable) t later
      s') :
    Healed s₀ chunk s' := by
  rcases hhealed with ⟨found, target, hneedy, htarget, hgained⟩
  have hsame : found = record := Option.some.inj (hneedy.stored.symm.trans h.needy.stored)
  rw [hsame] at hgained
  refine ⟨record, target, h.listed, ?_, (h.kept hrest).trans hgained⟩
  rw [← h.listStorageNodes]
  exact htarget

/-- A chunk that its turn has left alone is not healed in this cycle. -/
theorem AtTurn.not_healed (h : AtTurn s₀ nodes chunk after s record)
    (hrest : (replicateChunks env.crc32 nodes after).Runs (ReachableStep env reachable) s later
      s') :
    ¬ Healed s₀ chunk s' := by
  rintro ⟨found, target, hneedy, _, hgained⟩
  have hsame : found = record := Option.some.inj (hneedy.stored.symm.trans h.listed.stored)
  rw [h.kept hrest, h.needy.stored, hsame] at hgained
  have hlength := congrArg (fun chunk : MetaChunk => chunk.storageNodes.length)
    (Option.some.inj hgained)
  simp [MetaChunk.addStorageNode] at hlength

end

section

variable {maxChunksPerCycle : Nat} {s₀ : Services} {chunks after : List UnderReplicatedChunk}
  {outcomes : List ChunkOutcome} {result : Except String CycleReport}

/-- With a good first replica every continuation heals the chunk. -/
theorem CycleThrough.healed (hkeyed : ChunksKeyed s₀)
    (hregistry : StorageMetadata.RegistryKeyed s₀.metadata.metadataStore.storageNodes)
    (hwelcoming : Welcoming reachable s chunk) (hfirst : FirstReplicaGood env reachable s₀ chunk)
    (h : CycleThrough env reachable maxChunksPerCycle s₀ chunk s result s') :
    Healed s₀ chunk s' := by
  rcases h with ⟨hcomes, hall⟩
  rcases hcomes.atTurn hkeyed with ⟨record, hturn⟩
  rcases Library.Program.runs_bind_iff.mp hall with ⟨outcome, t, hown, hothers⟩
  rcases Library.Program.runs_bind_iff.mp hothers with ⟨later, t', hrest, hdone⟩
  cases hdone
  have hkeyed' : StorageMetadata.RegistryKeyed s.metadata.metadataStore.storageNodes := by
    rw [hturn.storageNodes]
    exact hregistry
  have hhealed := hown.ensures (replicateChunk_heals hkeyed' hturn.nodes hturn.needy hturn.listing
    hwelcoming (hturn.firstReplicaGood_iff.mpr hfirst))
  exact hturn.healed hhealed hrest

/-- A turn can always be continued to the end of the cycle. -/
theorem ComesTo.exists_rest {t : Services} {outcome : ChunkOutcome}
    (h : ComesTo env reachable maxChunksPerCycle s₀ nodes chunks outcomes chunk after s)
    (hown : (replicateChunk env.crc32 nodes chunk).Runs (ReachableStep env reachable) s outcome t) :
    ∃ result s' later, CycleThrough env reachable maxChunksPerCycle s₀ chunk s result s' ∧
      (replicateChunks env.crc32 nodes after).Runs (ReachableStep env reachable) t later s' := by
  rcases Library.Program.exists_runs (replicateChunks_answerable env.crc32 nodes after)
    (fun state call hcall => hcall.step state) t with ⟨later, s', hrest⟩
  have hall : (replicateChunks env.crc32 nodes (chunk :: after)).Runs
      (ReachableStep env reachable) s (outcome :: later) s' :=
    Library.Program.runs_bind_iff.mpr ⟨outcome, t, hown,
      Library.Program.runs_bind_iff.mpr ⟨later, s', hrest, .done _ _⟩⟩
  exact ⟨_, s', later, .intro h hall, hrest⟩

/-- Without one, some continuation does not. -/
theorem ComesTo.exists_not_healed (hkeyed : ChunksKeyed s₀)
    (hwelcoming : Welcoming reachable s chunk) (hbad : ¬ FirstReplicaGood env reachable s₀ chunk)
    (h : ComesTo env reachable maxChunksPerCycle s₀ nodes chunks outcomes chunk after s) :
    ∃ result s', CycleThrough env reachable maxChunksPerCycle s₀ chunk s result s' ∧
      ¬ Healed s₀ chunk s' := by
  rcases h.atTurn hkeyed with ⟨record, hturn⟩
  have hbad' := mt hturn.firstReplicaGood_iff.mp hbad
  rcases replicateChunk_skips hturn.nodes hwelcoming hbad' with ⟨outcome, hskipped⟩
  rcases h.exists_rest hskipped with ⟨result, s', later, hthrough, hrest⟩
  exact ⟨result, s', hthrough, hturn.not_healed hrest⟩

end

/-- For every store, limit and cycle that comes to the turn of a listed chunk, when every
registered storage node without the chunk can be reached, has a free slot and takes it: all
continuations heal the chunk, whichever target is chosen, exactly if the first of its recorded
replicas is on a registered node that can be reached and returns the right bytes. -/
theorem healable_chunk_healed_iff (env : Environment) (reachable : String → Prop)
    (maxChunksPerCycle : Nat) (s₀ : Services) (hkeyed : ChunksKeyed s₀)
    (hregistry : StorageMetadata.RegistryKeyed s₀.metadata.metadataStore.storageNodes)
    (nodes : List MetaStorageNode) (chunks : List UnderReplicatedChunk)
    (outcomes : List ChunkOutcome) (chunk : UnderReplicatedChunk)
    (after : List UnderReplicatedChunk) (s : Services)
    (hcomes : ComesTo env reachable maxChunksPerCycle s₀ nodes chunks outcomes chunk after s)
    (hwelcoming : Welcoming reachable s chunk) :
    (∀ result s', CycleThrough env reachable maxChunksPerCycle s₀ chunk s result s' →
        Healed s₀ chunk s') ↔
      FirstReplicaGood env reachable s₀ chunk := by
  constructor
  · intro hheals
    by_contra hbad
    rcases hcomes.exists_not_healed hkeyed hwelcoming hbad with ⟨result, s', hthrough, hnot⟩
    exact hnot (hheals result s' hthrough)
  · intro hfirst result s' hthrough
    exact hthrough.healed hkeyed hregistry hwelcoming hfirst

/-! ## Good and bad first replicas -/

/-- A cycle comes to the only chunk that is listed. -/
theorem comesTo_only {s₀ : Services}
    (hchunks : s₀.metadata.listUnderReplicatedChunks MAX_REPLICAS = [chunk])
    (hnodes : s₀.metadata.listStorageNodes ≠ []) :
    ComesTo env reachable 100 s₀ s₀.metadata.listStorageNodes [chunk] [] chunk [] s₀ := by
  have hlisted : ReachableStep env reachable s₀
      (.metadata (.listUnderReplicatedChunks MAX_REPLICAS)) (.ok [chunk]) s₀ := by
    rw [← hchunks]
    exact .of_serve rfl
  have hearlier : (replicateChunks env.crc32 s₀.metadata.listStorageNodes []).Runs
      (ReachableStep env reachable) s₀ [] s₀ := .done _ _
  exact .intro hlisted (.of_serve rfl) hnodes rfl hearlier

/-- One storage node without the chunk is enough, if it takes the chunk. -/
theorem welcoming_of_only (target : MetaStorageNode)
    (honly : (s.metadata.listStorageNodes.filter fun node =>
      !chunk.currentStorageNodeIds.contains node.id) = [target])
    (haccepts : Accepts reachable s chunk.chunkId target.address) :
    Welcoming reachable s chunk := by
  have htargets : ∀ node, IsTarget s.metadata.listStorageNodes chunk node ↔ node = target := by
    intro node
    rw [← List.mem_singleton, ← honly, List.mem_filter]
    exact ⟨fun h => ⟨h.listed, by simpa using h.other⟩, fun h => ⟨h.1, by simpa using h.2⟩⟩
  refine ⟨⟨target, (htargets target).mpr rfl⟩, fun node hnode => ?_⟩
  rw [(htargets node).mp hnode]
  exact haccepts

/-- The chunk of `oneReplica` is copied from its only replica. -/
theorem healable_chunk_healed_iff_oneReplica :
    ∃ (result : Except String CycleReport) (s' : Services),
      (runReplicationCycle plainEnvironment.crc32 100).Runs
        (ReachableStep plainEnvironment fun _ => True) oneReplica result s' ∧
      Healed oneReplica ⟨10, Library.crc32 [104], [1]⟩ s' := by
  have hchunks : oneReplica.metadata.listUnderReplicatedChunks MAX_REPLICAS =
      [⟨10, Library.crc32 [104], [1]⟩] := by decide +kernel
  have hcomes : ComesTo plainEnvironment (fun _ => True) 100 oneReplica _ _ _ _ _ oneReplica :=
    comesTo_only hchunks (by decide +kernel)
  have hroom : oneReplica.nodes["http://node-b:50051"]? = some (.empty 4) :=
    Std.ExtTreeMap.getElem?_insert_self
  have hwelcoming : Welcoming (fun _ => True) oneReplica ⟨10, Library.crc32 [104], [1]⟩ :=
    welcoming_of_only ⟨2, "http://node-b:50051"⟩ (by decide +kernel)
      ⟨trivial, .empty 4, hroom, by decide, by decide⟩
  have hfirst : FirstReplicaGood plainEnvironment (fun _ => True) oneReplica
      ⟨10, Library.crc32 [104], [1]⟩ :=
    ⟨1, rfl, ⟨1, "http://node-a:50051"⟩, by decide +kernel, trivial, [104], by decide +kernel, rfl⟩
  have hregistry := (StorageMetadata.registryKeyed_empty.insert 1 "http://node-a:50051").insert 2
    "http://node-b:50051"
  rcases Library.Program.exists_runs (replicateChunk_answerable plainEnvironment.crc32 _ _)
    (fun state call hcall => hcall.step state) oneReplica with ⟨outcome, t, hown⟩
  rcases hcomes.exists_rest hown with ⟨result, s', later, hthrough, _⟩
  exact ⟨result, s', hthrough.runs, (healable_chunk_healed_iff plainEnvironment _ 100 oneReplica
    oneReplica_keyed hregistry _ _ _ _ _ _ hcomes hwelcoming).mpr hfirst result s' hthrough⟩

/-- The chunk 10 is recorded on the storage nodes 1 and 2; there is room on the third. -/
def twoReplicas : Services where
  metadata :=
    ⟨{ files := .empty
       objects := (∅ : HashMap String StorageMetadata.MetaObject).insert "a" ⟨"a", 7, [10], 1⟩
       chunks := (∅ : HashMap UInt64 MetaChunk).insert 10
         ⟨10, "a", Library.crc32 [104], [1, 2], .confirmed⟩
       storageNodes := (((∅ : HashMap UInt64 StorageMetadata.MetaStorageNode).insert 1
         ⟨1, "http://node-a:50051"⟩).insert 2 ⟨2, "http://node-b:50051"⟩).insert 3
         ⟨3, "http://node-c:50051"⟩ }, ∅⟩
  nodes := ((∅ : HashMap String StorageNode.BoundedMap).insert "http://node-b:50051"
    ((StorageNode.BoundedMap.empty 4).handle Library.crc32 .slotDataSize
      (.writeChunk 10 [104])).2).insert "http://node-c:50051" (.empty 4)
  storageConnections := []

/-- With the first storage node gone, the second replica heals nothing. -/
theorem second_replica_not_tried :
    let chunk : UnderReplicatedChunk := ⟨10, Library.crc32 [104], [1, 2]⟩
    let reachable := fun address => address ≠ "http://node-a:50051"
    twoReplicas.metadata.listUnderReplicatedChunks MAX_REPLICAS = [chunk] ∧
      GoodSource plainEnvironment reachable twoReplicas chunk 2 ∧
      Welcoming reachable twoReplicas chunk ∧
      ∃ (result : Except String CycleReport) (s' : Services),
        (runReplicationCycle plainEnvironment.crc32 100).Runs
          (ReachableStep plainEnvironment reachable) twoReplicas result s' ∧
        ¬ Healed twoReplicas chunk s' := by
  intro chunk reachable
  have hchunks : twoReplicas.metadata.listUnderReplicatedChunks MAX_REPLICAS = [chunk] := by
    decide +kernel
  have hkeyed : ChunksKeyed twoReplicas := by
    intro id found hfound
    by_cases heq : id = 10
    · subst heq
      cases HashMap.getElem?_insert_same _ hfound
      rfl
    · have hempty := (HashMap.getElem?_insert_of_ne _ _ heq).symm.trans hfound
      simp at hempty
  have hroom : twoReplicas.nodes["http://node-c:50051"]? = some (.empty 4) :=
    Std.ExtTreeMap.getElem?_insert_self
  have hwelcoming : Welcoming reachable twoReplicas chunk :=
    welcoming_of_only ⟨3, "http://node-c:50051"⟩ (by decide +kernel)
      ⟨by decide, .empty 4, hroom, by decide, by decide⟩
  have hsecond : GoodSource plainEnvironment reachable twoReplicas chunk 2 :=
    ⟨⟨2, "http://node-b:50051"⟩, by decide +kernel, by decide, [104], by decide +kernel, rfl⟩
  have hbad : ¬ FirstReplicaGood plainEnvironment reachable twoReplicas chunk := by
    rintro ⟨first, hfirst, node, hnode, hreachable, _⟩
    cases hfirst
    have hlost : twoReplicas.metadata.metadataStore.storageNodes[(1 : UInt64)]? =
        some ⟨1, "http://node-a:50051"⟩ := by decide +kernel
    cases hlost.symm.trans hnode
    exact hreachable rfl
  have hcomes : ComesTo plainEnvironment reachable 100 twoReplicas _ _ _ _ _ twoReplicas :=
    comesTo_only hchunks (by decide +kernel)
  rcases hcomes.exists_not_healed hkeyed hwelcoming hbad with ⟨result, s', hthrough, hnot⟩
  exact ⟨hchunks, hsecond, hwelcoming, result, s', hthrough.runs, hnot⟩

end ReplicationService
end ObjectStore
