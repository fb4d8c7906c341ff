import ObjectStore.StorageNode.Recovery
import ObjectStore.System.Fitting

/-!
# System - Storage nodes with chunk stores on disk

The deployment with everything a storage node has: a chunk store on a file, with its index
and its list of free slots.  As long as the disks do not fail, the same happens as with a
bounded map for each storage node, call by call and in every interleaving.

Main definitions:

- `DiskServices`, `DiskServices.serve`, `DiskStep`: the deployment with chunk stores.
- `OnDisk`: each chunk store represents the map at its address.

Main results:

- Theorem `serve_onDisk`: both answer a call alike.
- Theorem `pools_on_disk`: every interleaving over the ones is one over the others.
-/

namespace ObjectStore
namespace System

open ApiGateway (Library StatusCode Upload oneNode plainEnvironment plainLibrary)
open Deployment (Call Choice Environment Faults Services Step)
open StorageMetadata (StorageMetadataImpl)
open StorageMetadata.Proto (MetaStorageNode UnderReplicatedChunk)
open Library (ByteFile)
open StorageNode (BoundedMap ChunkStore ChunkStoreOptions Disk SLOT_DATA_SIZE slotCount)

/-! ## The deployment with chunk stores -/

/-- The metadata service, with storage nodes that keep their chunks in files. -/
structure DiskServices where
  metadata : StorageMetadataImpl
  /-- By address. -/
  stores : HashMap String ChunkStore
  /-- The addresses in the gateway's cache. -/
  storageConnections : List String

/-- The metadata node by itself. -/
def metadataAlone (metadata : StorageMetadataImpl) : Services :=
  ⟨metadata, ∅, []⟩

/-- What the services answer when nothing fails on the way. -/
def DiskServices.serve (env : Environment) (choice : Choice) (self : DiskServices) :
    (call : Call) → Option (call.Reply × DiskServices)
  | .metadata call =>
      ((metadataAlone self.metadata).serveMetadata env choice call).map fun (answer, services) =>
        (answer, { self with metadata := services.metadata })
  | .connect address =>
      if address ∈ self.stores then some (.ok (), self) else some (.error choice.message, self)
  | .storageNode address call =>
      match self.stores[address]? with
      | none => some (.error ⟨.unavailable, choice.message⟩, self)
      | some store =>
          let (answer, store) := StorageNode.handle env.crc32 .slotDataSize store call
          some (answer, { self with stores := self.stores.insert address store })
  | .cachedConnection address => some (decide (address ∈ self.storageConnections), self)
  | .connectCached address =>
      if address ∈ self.storageConnections then some (.ok (), self)
      else if address ∈ self.stores then
        some (.ok (), { self with storageConnections := address :: self.storageConnections })
      else some (.error choice.message, self)
  | .choose count => if choice.pick < count then some (choice.pick, self) else none
  | .turn => some (decide (choice.pick = 0), self)

/-- One call, which may fail on its way. -/
inductive DiskStep (env : Environment) (faults : Faults) :
    Library.Step DiskServices Call Call.Reply where
  | served {d d' : DiskServices} {call : Call} {reply : call.Reply} {choice : Choice}
      (hio : choice.io = .completes ∨ faults = .any)
      (hserve : d.serve env choice call = some (reply, d')) : DiskStep env faults d call reply d'
  | nodesListed {d : DiskServices} {nodes : List MetaStorageNode}
      (hnodes : nodes.Perm d.metadata.listStorageNodes) :
      DiskStep env faults d (.metadata .listStorageNodes) (.ok nodes) d
  | chunksListed {d : DiskServices} {maxReplicas : UInt32} {chunks : List UnderReplicatedChunk}
      (hchunks : chunks.Perm (d.metadata.listUnderReplicatedChunks maxReplicas))
      (hsorted : chunks.Pairwise fun a b =>
        a.currentStorageNodeIds.length ≤ b.currentStorageNodeIds.length) :
      DiskStep env faults d (.metadata (.listUnderReplicatedChunks maxReplicas)) (.ok chunks) d
  | failed {d : DiskServices} {call : Call} {reply : call.Reply} (hfaults : faults ≠ .none)
      (hfails : call.Fails reply) : DiskStep env faults d call reply d
  | lost {d d' : DiskServices} {call : Call} {reply reply' : call.Reply} {choice : Choice}
      (hfaults : faults = .any) (hserve : d.serve env choice call = some (reply', d'))
      (hfails : call.Fails reply) : DiskStep env faults d call reply d'

/-! ## Maps for the chunk stores -/

/-- The storage nodes of the repository cut chunks of `SLOT_DATA_SIZE` bytes. -/
def slotted (env : Environment) : Environment :=
  { env with chunkSize := .slotDataSize }

/-- Each chunk store represents the map at its address. -/
structure OnDisk (crc32 : Bytes → UInt32) (d : DiskServices) (s : Services) : Prop where
  metadata : d.metadata = s.metadata
  storageConnections : d.storageConnections = s.storageConnections
  stores : ∀ address : String,
    Option.Rel (StorageNode.Represents crc32) d.stores[address]? s.nodes[address]?

variable {env : Environment} {faults : Faults} {crc32 : Bytes → UInt32} {d d' : DiskServices}
  {s s' : Services} {address : String} {call : Call} {reply : call.Reply}

/-- There is a store at each address of a node. -/
theorem OnDisk.mem_iff (h : OnDisk crc32 d s) : address ∈ d.stores ↔ address ∈ s.nodes := by
  have hstore := h.stores address
  simp only [HashMap.mem_iff_exists_getElem?]
  generalize d.stores[address]? = store at hstore ⊢
  generalize s.nodes[address]? = node at hstore ⊢
  cases hstore <;> simp

/-- One store and its map are replaced. -/
theorem OnDisk.insert (h : OnDisk crc32 d s) {store : ChunkStore} {node : BoundedMap}
    (hrepresents : StorageNode.Represents crc32 store node) (metadata : StorageMetadataImpl) :
    OnDisk crc32 { d with metadata := metadata, stores := d.stores.insert address store }
      { s with metadata := metadata, nodes := s.nodes.insert address node } where
  metadata := rfl
  storageConnections := h.storageConnections
  stores other := by
    by_cases hother : other = address
    · subst hother
      simpa using Option.Rel.some hrepresents
    · simp only [HashMap.getElem?_insert_of_ne _ _ hother]
      exact h.stores other

/-- What the metadata node answers has nothing to do with the rest. -/
theorem serveMetadata_alone (env : Environment) (choice : Choice) (s : Services)
    (call : Deployment.MetadataCall) :
    s.serveMetadata env choice call =
      ((metadataAlone s.metadata).serveMetadata env choice call).map fun (answer, services) =>
        (answer, { s with metadata := services.metadata }) := by
  cases call with
  | allocateChunk objectName checksum =>
      simp only [Services.serveMetadata, metadataAlone]
      cases s.metadata.allocateChunk choice.draws choice.pick objectName <;> rfl
  | _ => simp [Services.serveMetadata, metadataAlone, Services.withMetadata]

/-- An error says nothing about sizes. -/
theorem SendsFitting.of_fails (h : call.Fails reply) : SendsFitting call reply := by
  cases call with
  | storageNode address call =>
      rcases h with ⟨status, rfl⟩
      cases call <;> simp [SendsFitting]
  | _ => trivial

/-- A chunk store only holds what fits. -/
theorem length_le_of_live {store : ChunkStore} {node : BoundedMap} {id : UInt64} {bytes : Bytes}
    (h : StorageNode.Represents crc32 store node) (hlive : node.live[id]? = some bytes) :
    bytes.length ≤ SLOT_DATA_SIZE := by
  have hmem : id ∈ node.live := HashMap.mem_iff_exists_getElem?.mpr ⟨bytes, hlive⟩
  rcases HashMap.mem_iff_exists_getElem?.mp ((h.live_iff id).mpr hmem) with ⟨slot, hslot⟩
  exact (h.holds id slot bytes hslot hlive).length

/-- What a store returns fits into a slot. -/
theorem handle_sendsFitting {store : ChunkStore} {node : BoundedMap} {call : StorageNode.Call}
    (h : StorageNode.Represents crc32 store node) :
    SendsFitting (.storageNode address call) (node.handle crc32 .slotDataSize call).1 := by
  cases call with
  | readChunk id =>
      intro response hresponse
      simp only [BoundedMap.handle] at hresponse
      split at hresponse
      · rename_i bytes hlive
        cases hresponse
        exact length_le_of_live h hlive
      · cases hresponse
  | getChunkSize =>
      intro size hsize
      cases hsize
      exact Nat.le_refl _
  | _ => trivial

/-- Both answer a call alike. -/
theorem serve_onDisk (h : OnDisk env.crc32 d s) (hfits : FitsSlot call) (choice : Choice) :
    Option.Rel (fun below above => below.1 = above.1 ∧ SendsFitting call above.1 ∧
        OnDisk env.crc32 below.2 above.2)
      (d.serve env choice call) (s.serve (slotted env) choice call) := by
  rcases s with ⟨metadata, nodes, connections⟩
  obtain rfl : d.metadata = metadata := h.metadata
  obtain rfl : d.storageConnections = connections := h.storageConnections
  cases call with
  | metadata call =>
      have henv : (metadataAlone d.metadata).serveMetadata (slotted env) choice call =
          (metadataAlone d.metadata).serveMetadata env choice call := by
        cases call <;> rfl
      simp only [DiskServices.serve, Services.serve]
      rw [serveMetadata_alone (slotted env), henv]
      cases (metadataAlone d.metadata).serveMetadata env choice call with
      | none => exact .none
      | some answer => exact .some ⟨rfl, trivial, rfl, rfl, h.stores⟩
  | connect address =>
      have hmem : address ∈ d.stores ↔ address ∈ nodes := h.mem_iff
      simp only [DiskServices.serve, Services.serve, hmem]
      split
      · exact .some ⟨rfl, trivial, h⟩
      · exact .some ⟨rfl, trivial, h⟩
  | storageNode address call =>
      have hstore := h.stores address
      simp only [DiskServices.serve, Services.serve]
      cases hfound : d.stores[address]? with
      | none =>
          rw [hfound] at hstore
          cases hnode : nodes[address]? with
          | none => exact .some ⟨rfl, .of_fails ⟨_, rfl⟩, h⟩
          | some node =>
              rw [hnode] at hstore
              cases hstore
      | some store =>
          rw [hfound] at hstore
          cases hnode : nodes[address]? with
          | none =>
              rw [hnode] at hstore
              cases hstore
          | some node =>
              rw [hnode] at hstore
              cases hstore with
              | some hrepresents =>
                  rcases hrepresents.handle .slotDataSize hfits with ⟨hreply, hnext⟩
                  exact .some ⟨hreply, handle_sendsFitting hrepresents, h.insert hnext d.metadata⟩
  | cachedConnection address => exact .some ⟨rfl, trivial, h⟩
  | connectCached address =>
      have hmem : address ∈ d.stores ↔ address ∈ nodes := h.mem_iff
      simp only [DiskServices.serve, Services.serve, hmem]
      split
      · exact .some ⟨rfl, trivial, h⟩
      · split
        · exact .some ⟨rfl, trivial, rfl, rfl, h.stores⟩
        · exact .some ⟨rfl, trivial, h⟩
  | choose count =>
      simp only [DiskServices.serve, Services.serve]
      split
      · exact .some ⟨rfl, trivial, h⟩
      · exact .none
  | turn => exact .some ⟨rfl, trivial, h⟩

/-- A call that the stores serve is served by the maps, with the same reply. -/
theorem OnDisk.served (h : OnDisk env.crc32 d s) (hfits : FitsSlot call) {choice : Choice}
    (hserve : d.serve env choice call = some (reply, d')) :
    SendsFitting call reply ∧ ∃ s', s.serve (slotted env) choice call = some (reply, s') ∧
      OnDisk env.crc32 d' s' := by
  have hboth := serve_onDisk h hfits choice
  rw [hserve] at hboth
  generalize s.serve (slotted env) choice call = above at hboth
  cases hboth with
  | @some _ above hboth =>
      rcases hboth with ⟨rfl, hsends, hnext⟩
      exact ⟨hsends, above.2, rfl, hnext⟩

/-- A call that the maps serve is served by the stores, with the same reply. -/
theorem OnDisk.serves (h : OnDisk env.crc32 d s) (hfits : FitsSlot call) {choice : Choice}
    (hserve : s.serve (slotted env) choice call = some (reply, s')) :
    SendsFitting call reply ∧ ∃ d', d.serve env choice call = some (reply, d') ∧
      OnDisk env.crc32 d' s' := by
  have hboth := serve_onDisk h hfits choice
  rw [hserve] at hboth
  generalize d.serve env choice call = below at hboth
  cases hboth with
  | @some below _ hboth =>
      rcases hboth with ⟨rfl, hsends, hnext⟩
      exact ⟨hsends, below.2, rfl, hnext⟩

/-! ## Steps and pools -/

/-- What can happen on disk can happen with maps. -/
theorem diskStep_simulates (env : Environment) (faults : Faults) :
    fitting.Simulates (DiskStep env faults) (Step (slotted env) faults) (OnDisk env.crc32) := by
  intro d s call reply d' h hfits hstep
  cases hstep with
  | served hio hserve =>
      rcases h.served hfits hserve with ⟨hsends, s', hserve', hnext⟩
      exact ⟨hsends, s', .served hio hserve', hnext⟩
  | nodesListed hnodes =>
      rw [h.metadata] at hnodes
      exact ⟨trivial, s, .nodesListed hnodes, h⟩
  | chunksListed hchunks hsorted =>
      rw [h.metadata] at hchunks
      exact ⟨trivial, s, .chunksListed hchunks hsorted, h⟩
  | failed hfaults hfails => exact ⟨.of_fails hfails, s, .failed hfaults hfails, h⟩
  | lost hfaults hserve hfails =>
      rcases h.served hfits hserve with ⟨_, s', hserve', hnext⟩
      exact ⟨.of_fails hfails, s', .lost hfaults hserve' hfails, hnext⟩

/-- What can happen with maps can happen on disk. -/
theorem step_simulates (env : Environment) (faults : Faults) :
    fitting.Simulates (Step (slotted env) faults) (DiskStep env faults)
      fun s d => OnDisk env.crc32 d s := by
  intro s d call reply s' h hfits hstep
  cases hstep with
  | served hio hserve =>
      rcases h.serves hfits hserve with ⟨hsends, d', hserve', hnext⟩
      exact ⟨hsends, d', .served hio hserve', hnext⟩
  | nodesListed hnodes =>
      rw [← h.metadata] at hnodes
      exact ⟨trivial, d, .nodesListed hnodes, h⟩
  | chunksListed hchunks hsorted =>
      rw [← h.metadata] at hchunks
      exact ⟨trivial, d, .chunksListed hchunks hsorted, h⟩
  | failed hfaults hfails => exact ⟨.of_fails hfails, d, .failed hfaults hfails, h⟩
  | lost hfaults hserve hfails =>
      rcases h.serves hfits hserve with ⟨_, d', hserve', hnext⟩
      exact ⟨.of_fails hfails, d', .lost hfaults hserve' hfails, hnext⟩

/-- Whatever interleaves and whatever calls fail, uploads, downloads, listings, deletions and
cycles can do over chunk stores what they can do over maps, and nothing else. -/
theorem pools_on_disk (env : Environment) (faults : Faults) (lib : Library)
    (debug : StatusCode × String → String) (uploads : String → Upload → Prop) (d : DiskServices)
    (s : Services) (h : OnDisk env.crc32 d s) (programs : List (Deployment.Program Exchange)) :
    (∀ d', Relation.ReflTransGen
        (Library.PoolStep (DiskStep env faults) (Activity lib debug uploads)) (d, [])
          (d', programs) →
      ∃ s', Relation.ReflTransGen
        (Library.PoolStep (Step (slotted env) faults) (Activity lib debug uploads)) (s, [])
          (s', programs) ∧ OnDisk env.crc32 d' s') ∧
    ∀ s', Relation.ReflTransGen
        (Library.PoolStep (Step (slotted env) faults) (Activity lib debug uploads)) (s, [])
          (s', programs) →
      ∃ d', Relation.ReflTransGen
        (Library.PoolStep (DiskStep env faults) (Activity lib debug uploads)) (d, [])
          (d', programs) ∧
          OnDisk env.crc32 d' s' := by
  have hfits : ∀ program, Activity lib debug uploads program → Fits program fun _ => True :=
    fun program hprogram => hprogram.fits
  constructor
  · intro d' hsteps
    exact (diskStep_simulates env faults).pool hfits h hsteps
  · intro s' hsteps
    exact (step_simulates env faults).pool hfits h hsteps

/-! ## One storage node -/

/-- A chunk store with four slots on a new file. -/
theorem exists_oneNode_onDisk : ∃ d, OnDisk plainEnvironment.crc32 d oneNode := by
  have hdisk : (⟨ByteFile.empty, Stream'.const (.moved 1)⟩ : Disk).Reliable := fun _ => ⟨0, rfl⟩
  have hfits : StorageNode.SLOT_SIZE * slotCount (some 4) ≤ StorageNode.maxFileLen := by decide
  rcases @StorageNode.represents_construct plainEnvironment.crc32 _ hdisk rfl (some 4) hfits
    ChunkStoreOptions.default with ⟨store, _, hrepresents⟩
  refine ⟨⟨oneNode.metadata, (∅ : HashMap String ChunkStore).insert "http://node-a:50051" store,
    []⟩, rfl, rfl, fun address => ?_⟩
  by_cases haddress : address = "http://node-a:50051"
  · subst haddress
    simp only [oneNode, Std.ExtTreeMap.getElem?_insert_self]
    exact .some hrepresents
  · simp only [oneNode, HashMap.getElem?_insert_of_ne _ _ haddress]
    simp

/-- One byte is uploaded to a chunk store on disk. -/
theorem pools_on_disk_oneNode :
    ∃ (d d' : DiskServices) (exchange : Exchange), OnDisk plainEnvironment.crc32 d oneNode ∧
      Relation.ReflTransGen (Library.PoolStep (DiskStep plainEnvironment .none)
        (Activity plainLibrary (·.2) onlyA)) (d, []) (d', [.done exchange]) := by
  have hrun : (putA.replay (roomyNext plainEnvironment)
      [.plain, .plain, .plain, .plain, ⟨.completes, [10], 0, ""⟩, .plain, .plain, .plain, .plain]
      oneNode).isSome = true := by
    decide +kernel
  rcases Option.isSome_iff_exists.mp hrun with ⟨⟨exchange, s'⟩, hreplay⟩
  have hruns : putA.Runs (RoomyStep plainEnvironment) oneNode exchange s' :=
    Library.Program.runs_of_replay roomyNext_step hreplay
  have hput : Activity plainLibrary (·.2) onlyA putA := .put ⟨rfl, rfl⟩
  have hone : [putA][0]? = some putA := rfl
  have hpool : Relation.ReflTransGen (Library.PoolStep (Step plainEnvironment .none)
      (Activity plainLibrary (·.2) onlyA)) (oneNode, [putA]) (s', [.done exchange]) :=
    (hruns.mono fun _ _ _ _ h => h.1).pool hone
  rcases exists_oneNode_onDisk with ⟨d, hdisk⟩
  rcases (pools_on_disk plainEnvironment .none plainLibrary (·.2) onlyA d oneNode hdisk
    [.done exchange]).2 s' (.head (.spawn hput) hpool) with ⟨d', hsteps, _⟩
  exact ⟨d, d', exchange, hdisk, hsteps⟩

end System
end ObjectStore
