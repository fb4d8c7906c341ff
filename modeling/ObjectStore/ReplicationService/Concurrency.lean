import ObjectStore.Library.Protocol
import ObjectStore.ReplicationService.Cycle

/-!
# Replication service - Cycles side by side

Any number of replication cycles run at once, on snapshots that the others make stale.  What
keeps them apart is the storage node, which takes a chunk only once, and the metadata node,
which records a storage node only once.  A cycle owns the copy that it has written until the
metadata node has answered, and deletes no copy but its own.

Main definitions:

- `Held`: what a cycle has listed and written.
- `discipline`: what a cycle may call, and what holds meanwhile.

Main results:

- Theorem `runReplicationCycle_follows`: a cycle keeps to the discipline.
- Theorem `concurrent_cycles_keep_replicas`: no run loses a recorded replica.
-/

namespace ObjectStore
namespace ReplicationService

open Deployment (Call Environment Faults Program Services Step MetadataCall)
open StorageMetadata (MetaChunk ChunkStatus)
open StorageMetadata.Proto (MetaStorageNode UnderReplicatedChunk)

/-! ## What a cycle holds -/

/-- The latest listings of a cycle, and the copy that it has written and not recorded yet: its
address, its chunk and its bytes. -/
structure Held where
  nodes : List MetaStorageNode
  chunks : List UnderReplicatedChunk
  written : Option (String × UInt64 × Bytes)

namespace Held

/-- What a cycle knows before its first call. -/
def nothing : Held := ⟨[], [], none⟩

/-- Reads are free, a chunk is written with the listed checksum, and only the copy that was
written is recorded or deleted. -/
def permits (crc32 : Bytes → UInt32) (held : Held) : Call → Prop
  | .storageNode _ (.writeChunk id bytes) =>
      ∃ chunk ∈ held.chunks, chunk.chunkId = id ∧ crc32 bytes = chunk.checksum
  | .storageNode address (.deleteChunk id) => ∃ bytes, held.written = some (address, id, bytes)
  | .metadata (.addChunkReplica id nodeId) =>
      ∃ node ∈ held.nodes, node.id = nodeId ∧ ∃ bytes, held.written = some (node.address, id, bytes)
  | call => call.Reads

/-- What a cycle knows after a call. -/
def after (held : Held) : (call : Call) → call.Reply → Held
  | .metadata .listStorageNodes, reply =>
      { held with nodes := ((reply : Except Status _).toOption).getD held.nodes }
  | .metadata (.listUnderReplicatedChunks _), reply =>
      { held with chunks := ((reply : Except Status _).toOption).getD held.chunks }
  | .storageNode address (.writeChunk id bytes), reply =>
      if (reply : Except Status UInt64).isOk then { held with written := some (address, id, bytes) }
      else held
  | .storageNode _ (.deleteChunk _), _ => { held with written := none }
  | .metadata (.addChunkReplica _ _), reply =>
      if (reply : Except Status Unit).isOk then { held with written := none } else held
  | _, _ => held

end Held

/-! ## What holds meanwhile -/

section

variable (env : Environment) (home : UInt64 → String)

/-- A written copy is there, it fits its record, and nobody has recorded it. -/
structure Owned (s : Services) (address : String) (id : UInt64) (bytes : Bytes) : Prop where
  data : s.dataAt address id = some bytes
  record : ∃ record, s.metadata.metadataStore.chunks[id]? = some record ∧
    record.status = .confirmed ∧ record.checksum = env.crc32 bytes
  unrecorded : ∀ record, s.metadata.metadataStore.chunks[id]? = some record →
    ∀ nodeId ∈ record.storageNodes, home nodeId ≠ address

/-- The invariant of the pool. -/
structure Safe (s : Services) (cycles : Nat → Held) : Prop where
  keyed : ChunksKeyed s
  located : Located home s
  stored : ReplicasStored env home (· = .confirmed) s
  nodes : ∀ i, ∀ node ∈ (cycles i).nodes, home node.id = node.address
  chunks : ∀ i, ∀ chunk ∈ (cycles i).chunks, ∃ record, ListedFrom s chunk record
  owned : ∀ i address id bytes, (cycles i).written = some (address, id, bytes) →
    Owned env home s address id bytes
  apart : ∀ i j address id bytes bytes', (cycles i).written = some (address, id, bytes) →
    (cycles j).written = some (address, id, bytes') → i = j

end

section

variable {env : Environment} {home : UInt64 → String} {s s' : Services} {cycles : Nat → Held}
  {i : Nat}

/-- Services that agree on records, registry and data are equally safe. -/
theorem Safe.of_same (h : Safe env home s cycles) (hsame : Deployment.SameServices s s') :
    Safe env home s' cycles := by
  have hchunks := hsame.memory.chunks
  have hdata := hsame.dataAt
  have hlocated : Located home s' := by
    intro node hnode
    rw [hsame.listStorageNodes] at hnode
    exact h.located node hnode
  constructor
  · intro id chunk hchunk
    rw [hchunks] at hchunk
    exact h.keyed id chunk hchunk
  · exact hlocated
  · intro id chunk hchunk hstatus nodeId hnode
    rw [hchunks] at hchunk
    rcases h.stored id chunk hchunk hstatus nodeId hnode with ⟨bytes, hbytes, hchecksum⟩
    exact ⟨bytes, (hdata _ _).trans hbytes, hchecksum⟩
  · exact h.nodes
  · intro j chunk hchunk
    rcases h.chunks j chunk hchunk with ⟨record, hrecord⟩
    refine ⟨record, ?_, hrecord.confirmed, hrecord.checksum⟩
    rw [hchunks]
    exact hrecord.stored
  · intro j address id bytes hwritten
    have howned := h.owned j address id bytes hwritten
    constructor
    · exact (hdata _ _).trans howned.data
    · rw [hchunks]
      exact howned.record
    · rw [hchunks]
      exact howned.unrecorded
  · exact h.apart

/-- A cycle may learn what is true, and give up its copy. -/
theorem Safe.update (h : Safe env home s cycles) {held : Held}
    (hnodes : ∀ node ∈ held.nodes, home node.id = node.address)
    (hchunks : ∀ chunk ∈ held.chunks, ∃ record, ListedFrom s chunk record)
    (hwritten : ∀ copy, held.written = some copy → (cycles i).written = some copy) :
    Safe env home s (Function.update cycles i held) := by
  have hcopy : ∀ j copy, (Function.update cycles i held j).written = some copy →
      (cycles j).written = some copy := by
    intro j copy hj
    by_cases hij : j = i
    · subst hij
      rw [Function.update_self] at hj
      exact hwritten copy hj
    · rwa [Function.update_of_ne hij] at hj
  constructor
  · exact h.keyed
  · exact h.located
  · exact h.stored
  · intro j
    by_cases hij : j = i
    · subst hij
      rw [Function.update_self]
      exact hnodes
    · rw [Function.update_of_ne hij]
      exact h.nodes j
  · intro j
    by_cases hij : j = i
    · subst hij
      rw [Function.update_self]
      exact hchunks
    · rw [Function.update_of_ne hij]
      exact h.chunks j
  · exact fun j address id bytes hj => h.owned j address id bytes (hcopy j _ hj)
  · exact fun j k address id bytes bytes' hj hk =>
      h.apart j k address id bytes bytes' (hcopy j _ hj) (hcopy k _ hk)

/-- A cycle takes possession of a copy that nobody has. -/
theorem Safe.acquire (h : Safe env home s cycles) {address : String} {id : UInt64}
    {bytes : Bytes} (howned : Owned env home s address id bytes)
    (hfree : ∀ j bytes', (cycles j).written ≠ some (address, id, bytes')) :
    Safe env home s (Function.update cycles i
      { cycles i with written := some (address, id, bytes) }) := by
  have hcopy : ∀ j copy, (Function.update cycles i
      { cycles i with written := some (address, id, bytes) } j).written = some copy →
        (j = i ∧ copy = (address, id, bytes)) ∨ (cycles j).written = some copy := by
    intro j copy hj
    by_cases hij : j = i
    · subst hij
      rw [Function.update_self] at hj
      exact .inl ⟨rfl, (Option.some.inj hj).symm⟩
    · rw [Function.update_of_ne hij] at hj
      exact .inr hj
  constructor
  · exact h.keyed
  · exact h.located
  · exact h.stored
  · intro j
    by_cases hij : j = i
    · subst hij
      rw [Function.update_self]
      exact h.nodes j
    · rw [Function.update_of_ne hij]
      exact h.nodes j
  · intro j
    by_cases hij : j = i
    · subst hij
      rw [Function.update_self]
      exact h.chunks j
    · rw [Function.update_of_ne hij]
      exact h.chunks j
  · intro j address' id' bytes' hj
    rcases hcopy j _ hj with ⟨_, heq⟩ | hbefore
    · cases heq
      exact howned
    · exact h.owned j address' id' bytes' hbefore
  · intro j k address' id' bytes₁ bytes₂ hj hk
    rcases hcopy j _ hj with ⟨hji, heq⟩ | hj <;> rcases hcopy k _ hk with ⟨hki, heq'⟩ | hk
    · rw [hji, hki]
    · cases heq
      exact absurd hk (hfree k bytes₂)
    · cases heq'
      exact absurd hj (hfree j bytes₁)
    · exact h.apart j k address' id' bytes₁ bytes₂ hj hk

/-- Nothing recorded or owned lies where there is no data. -/
theorem Safe.of_no_data (h : Safe env home s cycles) {address : String} {id : UInt64}
    (hnone : s.dataAt address id = none) :
    (∀ record, s.metadata.metadataStore.chunks[id]? = some record → record.status = .confirmed →
      ∀ nodeId ∈ record.storageNodes, home nodeId ≠ address) ∧
    ∀ j bytes, (cycles j).written ≠ some (address, id, bytes) := by
  constructor
  · rintro record hrecord hstatus nodeId hnode rfl
    rcases h.stored id record hrecord hstatus nodeId hnode with ⟨bytes, hbytes, _⟩
    rw [hnone] at hbytes
    cases hbytes
  · intro j bytes hj
    have hdata := (h.owned j address id bytes hj).data
    rw [hnone] at hdata
    cases hdata

/-- Data changes at one place, where nothing is recorded or owned. -/
theorem Safe.of_data (h : Safe env home s cycles) (hmetadata : s'.metadata = s.metadata)
    {address : String} {id : UInt64}
    (hunrecorded : ∀ record, s.metadata.metadataStore.chunks[id]? = some record →
      record.status = .confirmed → ∀ nodeId ∈ record.storageNodes, home nodeId ≠ address)
    (hfree : ∀ j bytes, (cycles j).written ≠ some (address, id, bytes))
    (hdata : ∀ other otherId, ¬ (other = address ∧ otherId = id) →
      s'.dataAt other otherId = s.dataAt other otherId) : Safe env home s' cycles := by
  constructor
  · intro key chunk hchunk
    rw [hmetadata] at hchunk
    exact h.keyed key chunk hchunk
  · intro node hnode
    rw [hmetadata] at hnode
    exact h.located node hnode
  · intro key chunk hchunk hstatus nodeId hnode
    rw [hmetadata] at hchunk
    have hne : ¬ (home nodeId = address ∧ key = id) := by
      rintro ⟨haddress, rfl⟩
      exact hunrecorded chunk hchunk hstatus nodeId hnode haddress
    rcases h.stored key chunk hchunk hstatus nodeId hnode with ⟨bytes, hbytes, hchecksum⟩
    exact ⟨bytes, (hdata _ _ hne).trans hbytes, hchecksum⟩
  · exact h.nodes
  · intro j chunk hchunk
    rcases h.chunks j chunk hchunk with ⟨record, hrecord⟩
    refine ⟨record, ?_, hrecord.confirmed, hrecord.checksum⟩
    rw [hmetadata]
    exact hrecord.stored
  · intro j address' id' bytes hwritten
    have howned := h.owned j address' id' bytes hwritten
    have hne : ¬ (address' = address ∧ id' = id) := by
      rintro ⟨rfl, rfl⟩
      exact hfree j bytes hwritten
    constructor
    · exact (hdata _ _ hne).trans howned.data
    · rw [hmetadata]
      exact howned.record
    · rw [hmetadata]
      exact howned.unrecorded
  · exact h.apart

section

variable {id nodeId key : UInt64} {chunk record : MetaChunk}

/-- When one chunk gains a replica, the other records stay. -/
theorem record_of_gain
    (hmemory : Deployment.SameMemory s'.metadata.metadataStore
      (s.metadata.metadataStore.withChunk id (chunk.addStorageNode nodeId)))
    (hrecord : s'.metadata.metadataStore.chunks[key]? = some record) :
    (key = id ∧ record = chunk.addStorageNode nodeId) ∨
      s.metadata.metadataStore.chunks[key]? = some record := by
  rw [hmemory.chunks] at hrecord
  by_cases hkey : key = id
  · subst hkey
    exact .inl ⟨rfl, (HashMap.getElem?_insert_same _ hrecord).symm⟩
  · exact .inr ((HashMap.getElem?_insert_of_ne _ _ hkey).symm.trans hrecord)

/-- And no record loses its status or its checksum. -/
theorem gain_of_record
    (hmemory : Deployment.SameMemory s'.metadata.metadataStore
      (s.metadata.metadataStore.withChunk id (chunk.addStorageNode nodeId)))
    (hid : s.metadata.metadataStore.chunks[id]? = some chunk)
    (hrecord : s.metadata.metadataStore.chunks[key]? = some record) :
    ∃ found, s'.metadata.metadataStore.chunks[key]? = some found ∧
      found.status = record.status ∧ found.checksum = record.checksum := by
  rw [hmemory.chunks]
  by_cases hkey : key = id
  · subst hkey
    cases hid.symm.trans hrecord
    exact ⟨_, Std.ExtTreeMap.getElem?_insert_self, rfl, rfl⟩
  · exact ⟨record, (HashMap.getElem?_insert_of_ne _ _ hkey).trans hrecord, rfl, rfl⟩

/-- A written copy stays unrecorded when another one is recorded. -/
theorem Owned.of_replica {address : String} {bytes : Bytes}
    (h : Owned env home s address key bytes) (hnodes : s'.nodes = s.nodes)
    (hmemory : Deployment.SameMemory s'.metadata.metadataStore
      (s.metadata.metadataStore.withChunk id (chunk.addStorageNode nodeId)))
    (hid : s.metadata.metadataStore.chunks[id]? = some chunk)
    (hother : key = id → home nodeId ≠ address) : Owned env home s' address key bytes := by
  constructor
  · simp only [Services.dataAt, hnodes]
    exact h.data
  · rcases h.record with ⟨known, hknown, hstatus, hchecksum⟩
    rcases gain_of_record hmemory hid hknown with ⟨found, hfound, hsame, hsum⟩
    exact ⟨found, hfound, hsame.trans hstatus, hsum.trans hchecksum⟩
  · intro found hfound other hnode
    rcases record_of_gain hmemory hfound with ⟨hkey, heq⟩ | hbefore
    · subst hkey heq
      rcases List.mem_append.mp hnode with hold | hnew
      · exact h.unrecorded chunk hid other hold
      · rw [List.mem_singleton.mp hnew]
        exact hother rfl
    · exact h.unrecorded found hbefore other hnode

/-- A copy is recorded that nobody owns any more. -/
theorem Safe.of_replica (h : Safe env home s cycles) {bytes : Bytes} (hnodes : s'.nodes = s.nodes)
    (hmemory : Deployment.SameMemory s'.metadata.metadataStore
      (s.metadata.metadataStore.withChunk id (chunk.addStorageNode nodeId)))
    (hid : s.metadata.metadataStore.chunks[id]? = some chunk)
    (howned : Owned env home s (home nodeId) id bytes)
    (hfree : ∀ j bytes', (cycles j).written ≠ some (home nodeId, id, bytes')) :
    Safe env home s' cycles := by
  have hdata : ∀ address key, s'.dataAt address key = s.dataAt address key := by
    intro address key
    simp only [Services.dataAt, hnodes]
  constructor
  · intro key record hrecord
    rcases record_of_gain hmemory hrecord with ⟨hkey, heq⟩ | hbefore
    · rw [hkey, heq]
      exact h.keyed id chunk hid
    · exact h.keyed key record hbefore
  · intro node hnode
    refine h.located node ?_
    unfold StorageMetadata.StorageMetadataImpl.listStorageNodes
      StorageMetadata.MetadataStore.listStorageNodes at hnode ⊢
    rwa [hmemory.storageNodes] at hnode
  · intro key record hrecord hstatus other hnode
    have hsame : Holds env home s' key record.checksum other ↔
        Holds env home s key record.checksum other := by
      simp only [Holds, hdata]
    refine hsame.mpr ?_
    rcases record_of_gain hmemory hrecord with ⟨hkey, heq⟩ | hbefore
    · subst hkey heq
      rcases List.mem_append.mp hnode with hold | hnew
      · exact h.stored key chunk hid hstatus other hold
      · rw [List.mem_singleton.mp hnew]
        rcases howned.record with ⟨known, hknown, _, hchecksum⟩
        rw [hid] at hknown
        cases hknown
        exact ⟨bytes, howned.data, hchecksum.symm⟩
    · exact h.stored key record hbefore hstatus other hnode
  · exact h.nodes
  · intro j listed hlisted
    rcases h.chunks j listed hlisted with ⟨record, hrecord⟩
    rcases gain_of_record hmemory hid hrecord.stored with ⟨found, hfound, hstatus, hchecksum⟩
    exact ⟨found, hfound, hstatus.trans hrecord.confirmed, hchecksum.trans hrecord.checksum⟩
  · intro j address key found hwritten
    refine (h.owned j address key found hwritten).of_replica hnodes hmemory hid ?_
    rintro rfl rfl
    exact hfree j found hwritten
  · exact h.apart

end

/-! ## Steps -/

/-- A refused call changes nothing. -/
theorem storageNode_refused {address : String} {call : StorageNode.Call} {status : Status}
    (h : Step env .withoutEffect s (.storageNode address call) (.error status) s') :
    Deployment.SameServices s s' := by
  rcases h.storageNode_effect (by decide) with ⟨hmetadata, _, heffect⟩
  refine ⟨hmetadata ▸ .refl _, ?_⟩
  generalize s'.nodes = nodes at heffect
  cases heffect
  rfl

/-- A cycle owns the copy that it has written. -/
theorem safe_write (h : Safe env home s cycles) {address : String} {id : UInt64} {bytes : Bytes}
    {reply : Except Status UInt64}
    (hpermits : (cycles i).permits env.crc32 (.storageNode address (.writeChunk id bytes)))
    (hstep : Step env .withoutEffect s (.storageNode address (.writeChunk id bytes)) reply s') :
    Safe env home s' (Function.update cycles i
      ((cycles i).after (.storageNode address (.writeChunk id bytes)) reply)) := by
  have hmetadata := (hstep.storageNode_effect (by decide)).1
  rcases hstep.writeChunk_dataAt (by decide) with ⟨hnone, hdata⟩
  cases reply with
  | error status =>
      change Safe env home s' (Function.update cycles i (cycles i))
      rw [Function.update_eq_self]
      exact h.of_same (storageNode_refused hstep)
  | ok value =>
      rcases hpermits with ⟨chunk, hchunk, rfl, hchecksum⟩
      rcases h.chunks i chunk hchunk with ⟨record, hrecord⟩
      rcases h.of_no_data (hnone rfl) with ⟨hunrecorded, hfree⟩
      have hsafe : Safe env home s' cycles := by
        refine h.of_data hmetadata hunrecorded hfree fun other otherId hne => ?_
        rw [hdata, if_neg fun hwritten => hne hwritten.2]
      refine hsafe.acquire ⟨?_, ⟨record, ?_, hrecord.confirmed, ?_⟩, ?_⟩ hfree
      · rw [hdata, if_pos ⟨rfl, rfl, rfl⟩]
      · rw [hmetadata]
        exact hrecord.stored
      · rw [hrecord.checksum, hchecksum]
      · intro found hfound
        rw [hmetadata] at hfound
        have heq := hrecord.stored.symm.trans hfound
        cases heq
        exact hunrecorded _ hfound hrecord.confirmed

/-- A cycle deletes its own copy, which no record names. -/
theorem safe_delete (h : Safe env home s cycles) {address : String} {id : UInt64}
    {reply : Except Status UInt64}
    (hpermits : (cycles i).permits env.crc32 (.storageNode address (.deleteChunk id)))
    (hstep : Step env .withoutEffect s (.storageNode address (.deleteChunk id)) reply s') :
    Safe env home s' (Function.update cycles i
      ((cycles i).after (.storageNode address (.deleteChunk id)) reply)) := by
  rcases hpermits with ⟨bytes, hwritten⟩
  have howned := h.owned i address id bytes hwritten
  have hreleased : Safe env home s
      (Function.update cycles i { cycles i with written := none }) :=
    h.update (h.nodes i) (h.chunks i) fun copy hcopy => by cases hcopy
  have hfree : ∀ j bytes', (Function.update cycles i { cycles i with written := none } j).written ≠
      some (address, id, bytes') := by
    intro j bytes' hj
    by_cases hij : j = i
    · subst hij
      rw [Function.update_self] at hj
      cases hj
    · rw [Function.update_of_ne hij] at hj
      exact hij (h.apart j i address id bytes' bytes hj hwritten)
  refine hreleased.of_data (hstep.storageNode_effect (by decide)).1
    (fun record hrecord _ => howned.unrecorded record hrecord) hfree fun other otherId hne => ?_
  rw [hstep.deleteChunk_dataAt (by decide), if_neg fun hdeleted => hne hdeleted.2]

/-- A recorded copy is owned no longer. -/
theorem safe_addReplica (h : Safe env home s cycles) {id nodeId : UInt64}
    {reply : Except Status Unit}
    (hpermits : (cycles i).permits env.crc32 (.metadata (.addChunkReplica id nodeId)))
    (hstep : Step env .withoutEffect s (.metadata (.addChunkReplica id nodeId)) reply s') :
    Safe env home s' (Function.update cycles i
      ((cycles i).after (.metadata (.addChunkReplica id nodeId)) reply)) := by
  rcases hpermits with ⟨node, hnode, rfl, bytes, hwritten⟩
  have haddress : home node.id = node.address := h.nodes i node hnode
  rcases hstep.metadata_effect (by decide) with ⟨hnodes, _, m, heffect, hmemory⟩
  cases heffect with
  | refused status =>
      change Safe env home s' (Function.update cycles i (cycles i))
      rw [Function.update_eq_self]
      exact h.of_same ⟨hmemory, hnodes⟩
  | @addChunkReplica _ _ chunk hid hregistered hnew hroom =>
      have howned := h.owned i node.address id bytes hwritten
      have hreleased : Safe env home s
          (Function.update cycles i { cycles i with written := none }) :=
        h.update (h.nodes i) (h.chunks i) fun copy hcopy => by cases hcopy
      rw [← haddress] at howned
      refine hreleased.of_replica hnodes hmemory hid howned fun j bytes' hj => ?_
      by_cases hij : j = i
      · subst hij
        rw [Function.update_self] at hj
        cases hj
      · rw [Function.update_of_ne hij, haddress] at hj
        exact hij (h.apart j i node.address id bytes' bytes hj hwritten)

/-- What a cycle reads makes no difference to the others. -/
theorem safe_read (h : Safe env home s cycles) {call : Call} {reply : call.Reply}
    (hreads : call.Reads) (hstep : Step env .withoutEffect s call reply s')
    (hafter : (cycles i).after call reply = cycles i) :
    Safe env home s' (Function.update cycles i ((cycles i).after call reply)) := by
  rw [hafter, Function.update_eq_self]
  exact h.of_same (hstep.reads hreads)

/-- One call of one cycle. -/
theorem safe_step (h : Safe env home s cycles) {call : Call} {reply : call.Reply}
    (hpermits : (cycles i).permits env.crc32 call)
    (hstep : Step env .withoutEffect s call reply s') :
    Safe env home s' (Function.update cycles i ((cycles i).after call reply)) := by
  cases call with
  | metadata call =>
      cases call with
      | addChunkReplica id nodeId => exact safe_addReplica h hpermits hstep
      | listStorageNodes =>
          have hsame := h.of_same (hstep.reads trivial)
          refine hsame.update ?_ (hsame.chunks i) fun copy hcopy => hcopy
          change Except Status (List MetaStorageNode) at reply
          cases reply with
          | error status => exact h.nodes i
          | ok nodes => exact Step.storage_nodes h.located hstep
      | listUnderReplicatedChunks maxReplicas =>
          have hreads := hstep.reads trivial
          have hsame := h.of_same hreads
          refine hsame.update (hsame.nodes i) ?_ fun copy hcopy => hcopy
          change Except Status (List UnderReplicatedChunk) at reply
          cases reply with
          | error status => exact hsame.chunks i
          | ok chunks =>
              intro chunk hchunk
              rcases Step.under_replicated h.keyed hstep chunk hchunk with ⟨record, hrecord⟩
              refine ⟨record, ?_, hrecord.confirmed, hrecord.checksum⟩
              rw [hreads.memory.chunks]
              exact hrecord.stored
      | _ => exact safe_read h hpermits hstep rfl
  | storageNode address call =>
      cases call with
      | writeChunk id bytes => exact safe_write h hpermits hstep
      | deleteChunk id => exact safe_delete h hpermits hstep
      | _ => exact safe_read h hpermits hstep rfl
  | _ => exact safe_read h hpermits hstep rfl

end

/-- The rule for cycles that run side by side. -/
def discipline (env : Environment) (home : UInt64 → String) :
    Library.Discipline (Step env .withoutEffect) Held where
  permits := Held.permits env.crc32
  after := Held.after
  inv := Safe env home
  preserved h hpermits hstep := safe_step h hpermits hstep

/-! ## A cycle keeps to the rule -/

section

variable {env : Environment} {home : UInt64 → String} {held : Held}

/-- Reads are always permitted. -/
theorem permits_of_reads {crc32 : Bytes → UInt32} {call : Call} (h : call.Reads) :
    held.permits crc32 call := by
  cases call with
  | metadata call => cases call <;> first | exact h | exact h.elim
  | storageNode address call => cases call <;> first | exact h | exact h.elim
  | _ => exact h

theorem after_of_looks {call : Call} (h : Looks call) (reply : call.Reply) :
    held.after call reply = held := by
  cases call with
  | metadata call => cases call <;> first | rfl | exact h.elim
  | storageNode address call => cases call <;> first | rfl | exact h.elim
  | _ => rfl

theorem looks_follows {α : Type} {program : Program α} (h : program.Only Looks) :
    program.Follows (discipline env home) (fun _ after => after = held) held :=
  h.follows fun _ hlooks => ⟨permits_of_reads hlooks.reads, after_of_looks hlooks⟩

/-- The cycle still has its listings. -/
def SameListings (held after : Held) : Prop :=
  after.nodes = held.nodes ∧ after.chunks = held.chunks

/-- The cleanup deletes the cycle's own copy. -/
theorem cleanUp_follows {targetAddress : String} {chunkId : UInt64} {bytes : Bytes}
    (hwritten : held.written = some (targetAddress, chunkId, bytes)) :
    (cleanUp targetAddress chunkId).Follows (discipline env home)
      (fun _ after => SameListings held after) held := by
  refine ⟨trivial, fun (connected : Except String Unit) => ?_⟩
  cases connected with
  | error _ => exact ⟨rfl, rfl⟩
  | ok _ => exact ⟨⟨bytes, hwritten⟩, fun _ => ⟨rfl, rfl⟩⟩

/-- A written copy is recorded or cleaned up. -/
theorem recordReplica_follows {chunkId : UInt64} {targetNode : MetaStorageNode} {bytes : Bytes}
    (hnode : targetNode ∈ held.nodes)
    (hwritten : held.written = some (targetNode.address, chunkId, bytes)) :
    (recordReplica chunkId targetNode).Follows (discipline env home)
      (fun _ after => SameListings held after) held := by
  refine ⟨⟨targetNode, hnode, rfl, bytes, hwritten⟩, fun (added : Except Status Unit) => ?_⟩
  cases added with
  | ok _ => exact ⟨rfl, rfl⟩
  | error _ =>
      change (cleanUp targetNode.address chunkId >>= fun _ => _).Follows
        (discipline env home) _ held
      exact .of_bind (cleanUp_follows hwritten)

/-- A copy is made of a listed chunk. -/
theorem copyChunk_follows {chunk : UnderReplicatedChunk} {targetNode : MetaStorageNode}
    (hchunk : chunk ∈ held.chunks) (hnode : targetNode ∈ held.nodes) :
    (copyChunk env.crc32 chunk targetNode).Follows (discipline env home)
      (fun _ after => SameListings held after) held := by
  unfold copyChunk
  split
  · exact ⟨rfl, rfl⟩
  · rename_i sourceNodeId _ _
    refine .of_bind ((looks_follows (readSource_looks chunk.chunkId sourceNodeId)).mono ?_)
    rintro (label | chunkData) _ rfl
    · exact ⟨rfl, rfl⟩
    · dsimp only
      split
      · exact ⟨rfl, rfl⟩
      · rename_i hchecksum
        refine ⟨trivial, fun (connected : Except String Unit) => ?_⟩
        cases connected with
        | error _ => exact ⟨rfl, rfl⟩
        | ok _ =>
            refine ⟨⟨chunk, hchunk, rfl, not_not.mp hchecksum⟩,
              fun (written : Except Status UInt64) => ?_⟩
            cases written with
            | error _ => exact ⟨rfl, rfl⟩
            | ok _ => exact recordReplica_follows hnode rfl

/-- A chunk is copied to a registered node. -/
theorem replicateChunk_follows {nodes : List MetaStorageNode} {chunk : UnderReplicatedChunk}
    (hchunk : chunk ∈ held.chunks) (hnodes : held.nodes = nodes) :
    (replicateChunk env.crc32 nodes chunk).Follows (discipline env home)
      (fun _ after => SameListings held after) held := by
  unfold replicateChunk
  dsimp only
  split
  · exact ⟨rfl, rfl⟩
  · refine ⟨trivial, fun (picked : Nat) => ?_⟩
    dsimp only [Library.Program.bind]
    split
    · exact ⟨rfl, rfl⟩
    · rename_i targetNode hpicked
      have hmem : targetNode ∈ nodes := List.mem_of_mem_filter (List.mem_of_getElem? hpicked)
      refine .of_bind ((looks_follows (hasSpace_looks targetNode.address)).mono ?_)
      rintro space _ rfl
      split
      · exact copyChunk_follows hchunk (hnodes ▸ hmem)
      · exact ⟨rfl, rfl⟩

/-- The loop over the chunks of the cycle. -/
theorem replicateChunks_follows {nodes : List MetaStorageNode}
    {chunks : List UnderReplicatedChunk} (hchunks : ∀ chunk ∈ chunks, chunk ∈ held.chunks)
    (hnodes : held.nodes = nodes) :
    (replicateChunks env.crc32 nodes chunks).Follows (discipline env home) (fun _ _ => True)
      held := by
  induction chunks generalizing held with
  | nil => trivial
  | cons chunk chunks ih =>
      refine .of_bind ((replicateChunk_follows (hchunks chunk List.mem_cons_self) hnodes).mono ?_)
      rintro outcome after ⟨hsameNodes, hsameChunks⟩
      refine .of_bind ((ih (fun other hother => ?_) (hsameNodes.trans hnodes)).mono ?_)
      · rw [hsameChunks]
        exact hchunks other (List.mem_cons_of_mem _ hother)
      · exact fun _ _ _ => trivial

/-- A cycle keeps to the discipline. -/
theorem runReplicationCycle_follows (maxChunksPerCycle : Nat) :
    (runReplicationCycle env.crc32 maxChunksPerCycle).Follows (discipline env home)
      (fun _ _ => True) .nothing := by
  refine ⟨trivial, fun (listed : Except Status (List UnderReplicatedChunk)) => ?_⟩
  cases listed with
  | error _ => trivial
  | ok chunks =>
      dsimp only [Library.Program.bind]
      split
      · trivial
      · refine ⟨trivial, fun (found : Except Status (List MetaStorageNode)) => ?_⟩
        cases found with
        | error _ => trivial
        | ok nodes =>
            dsimp only [Library.Program.bind]
            split
            · trivial
            · have hfollows := @replicateChunks_follows env home ⟨nodes, chunks, none⟩ nodes
                (chunks.take maxChunksPerCycle)
                (fun chunk hchunk => List.mem_of_mem_take hchunk) rfl
              exact .of_bind (hfollows.mono fun _ _ _ => trivial)

end

/-- In every state that any number of cycles reach, each recorded replica of a `Confirmed` chunk
exists on its node, and no cycle is about to delete one. -/
theorem concurrent_cycles_keep_replicas (env : Environment) (home : UInt64 → String)
    (s : Services) (hkeyed : ChunksKeyed s) (hlocated : Located home s)
    (hstored : ReplicasStored env home (· = .confirmed) s) (s' : Services)
    (cycles : List (Program (Except String CycleReport)))
    (hsteps : Relation.ReflTransGen (Library.PoolStep (Step env .withoutEffect) fun program =>
      ∃ maxChunksPerCycle, program = runReplicationCycle env.crc32 maxChunksPerCycle)
      (s, []) (s', cycles)) :
    ReplicasStored env home (· = .confirmed) s' ∧
      ∀ (i : Nat) (address : String) (id : UInt64)
        (next : Except Status UInt64 → Program (Except String CycleReport)),
        cycles[i]? = some (.call (.storageNode address (.deleteChunk id)) next) →
          ∀ chunk, s'.metadata.metadataStore.chunks[id]? = some chunk →
            ∀ nodeId ∈ chunk.storageNodes, home nodeId ≠ address := by
  have hstart : (discipline env home).inv s fun _ => .nothing := by
    constructor
    · exact hkeyed
    · exact hlocated
    · exact hstored
    · exact fun _ node hnode => by cases hnode
    · exact fun _ chunk hchunk => by cases hchunk
    · exact fun _ _ _ _ hwritten => by cases hwritten
    · exact fun _ _ _ _ _ _ hwritten => by cases hwritten
  have hspawn : ∀ program : Program (Except String CycleReport),
      (∃ maxChunksPerCycle, program = runReplicationCycle env.crc32 maxChunksPerCycle) →
        program.Follows (discipline env home) (fun _ _ => True) .nothing := by
    rintro program ⟨maxChunksPerCycle, rfl⟩
    exact runReplicationCycle_follows maxChunksPerCycle
  rcases (discipline env home).reachable hspawn hstart hsteps with ⟨held, hsafe, hfollows⟩
  refine ⟨hsafe.stored, fun i address id next hi => ?_⟩
  rcases (hfollows i _ hi).1 with ⟨bytes, hwritten⟩
  exact (hsafe.owned i address id bytes hwritten).unrecorded

/-- Two cycles, as the script below lets them take turns. -/
def twoCycles : List (Program (Except String CycleReport)) :=
  [runReplicationCycle plainEnvironment.crc32 100, runReplicationCycle plainEnvironment.crc32 100]

/-- The cycles copy the same chunk to the same storage node, call by call.  The first one
writes; the write of the second one is refused, before the copy has been recorded. -/
def twoCyclesTurns : List (Nat × Deployment.Decision) :=
  (List.replicate 10 [(0, .serve .plain), (1, .serve .plain)]).flatten ++ [(0, .serve .plain)]

/-- The cycle whose write is refused leaves the copy of the other one alone. -/
theorem concurrent_cycles_keep_replicas_twoCycles :
    ∃ (results : List (Except String CycleReport)) (s' : Services),
      results.map (fun result => result.toOption.map (·.outcomes)) =
        [some [.replicated], some [.failed "write_chunk"]] ∧
      Relation.ReflTransGen (Library.PoolStep (Step plainEnvironment .withoutEffect) fun program =>
        ∃ maxChunksPerCycle, program = runReplicationCycle plainEnvironment.crc32 maxChunksPerCycle)
        (oneReplica, []) (s', results.map .done) ∧
      ReplicasStored plainEnvironment oneReplicaHome (· = .confirmed) s' := by
  have hrun : ((Library.replayPool (Services.next plainEnvironment) twoCyclesTurns
      (oneReplica, twoCycles)).bind fun pool => Library.valuesOf pool.2).any (fun results =>
        decide (results.map (fun result => result.toOption.map (·.outcomes)) =
          [some [.replicated], some [.failed "write_chunk"]])) = true := by
    decide +kernel
  rcases (Option.any_eq_true _ _).mp hrun with ⟨results, hresults, houtcomes⟩
  rcases Option.bind_eq_some_iff.mp hresults with ⟨⟨s', programs⟩, hpool, hvalues⟩
  have hspawned : Relation.ReflTransGen
      (Library.PoolStep (Step plainEnvironment .withoutEffect) fun program =>
        ∃ maxChunksPerCycle, program = runReplicationCycle plainEnvironment.crc32 maxChunksPerCycle)
      (oneReplica, []) (oneReplica, twoCycles) :=
    .head (.spawn ⟨100, rfl⟩) (.single (.spawn ⟨100, rfl⟩))
  have hsteps := hspawned.trans (Library.steps_of_replayPool Services.next_step hpool)
  have hdone : programs = results.map .done := Library.eq_done_of_valuesOf hvalues
  rw [hdone] at hsteps
  have hkept := concurrent_cycles_keep_replicas plainEnvironment oneReplicaHome oneReplica
    oneReplica_keyed oneReplica_located (oneReplica_stored _) s' _ hsteps
  exact ⟨results, s', of_decide_eq_true houtcomes, hsteps, hkept.1⟩

end ReplicationService
end ObjectStore
