import ObjectStore.ApiGateway.Upload
import ObjectStore.ReplicationService.Healing
import ObjectStore.StorageMetadata.Atomicity

/-!
# System - Answers when nothing fails

What each call is answered with, and what it leaves, when no call fails on its way and no
file step stops: the storage node is up, the record is there, the name is free.  The only
calls that may still be refused are writes to a storage node without a free slot.

Main definitions:

- `RoomyStep`: every call is answered, and there is room for what is written.

Main results:

- Theorems `putObject_answered`, `allocateChunk_answered`, `confirmChunk_answered`,
  `updateObjectChecksum_answered`, `deleteRecord_answered`, `deleteObject_answered`,
  `addChunkReplica_answered`: the metadata node.
- Theorems `writeChunk_answered`, `deleteChunk_answered`: the storage nodes.
-/

namespace ObjectStore
namespace System

open ApiGateway (getOrConnect)
open Deployment (Call Choice Effect Environment SameMemory SameServices Services Step)
open ReplicationService (Lists ReachableStep)
open StorageMetadata (MetaChunk MetadataStore MetaObject Mirrors SaveIo StorageMetadataImpl)
open StorageMetadata.Proto (AllocateChunkResponse)
open StorageNode (BoundedMap)

variable {env : Environment} {s s' : Services} {name address : String} {id nodeId : UInt64}
  {checksum : UInt32} {object : MetaObject} {chunk : MetaChunk} {bytes : Bytes}

/-! ## Calls that are served -/

/-- A storage node has no free slot for the chunk. -/
def outOfRoom : (call : Call) → call.Reply → Bool
  | .storageNode _ (.writeChunk _ _), (reply : Except Status UInt64) =>
      match reply with
      | .error status => status.code = .resourceExhausted
      | .ok _ => false
  | _, _ => false

/-- Every call is answered, and no storage node is too full for a write. -/
def RoomyStep (env : Environment) : Library.Step Services Call Call.Reply :=
  fun s call reply s' => Step env .none s call reply s' ∧ outOfRoom call reply = false

/-- A call that is no listing is served as asked. -/
theorem served {call : Call} {reply : call.Reply} (h : Step env .none s call reply s')
    (hlists : ¬ Lists call) :
    ∃ choice : Choice, choice.io = .completes ∧ s.serve env choice call = some (reply, s') := by
  have hreachable : ReachableStep env (fun _ => True) s call reply s' := .answered h
  exact hreachable.served (fun _ _ => trivial) hlists

/-- The calls of a script, as long as there is room. -/
def roomyNext (env : Environment) (s : Services) (call : Call)
    (choice : Choice) : Option (call.Reply × Services) :=
  match choice.io with
  | .completes =>
      match s.serve env choice call with
      | some (reply, s') => if outOfRoom call reply then none else some (reply, s')
      | none => none
  | _ => none

/-- A scripted call is a step with room. -/
theorem roomyNext_step (s : Services) (call : Call) (choice : Choice)
    (reply : call.Reply) (s' : Services) (h : roomyNext env s call choice = some (reply, s')) :
    RoomyStep env s call reply s' := by
  unfold roomyNext at h
  split at h
  · rename_i hio
    split at h
    · rename_i found after hserve
      split at h
      · cases h
      · rename_i hroom
        cases h
        exact ⟨.served (.inl hio) hserve, by simpa using hroom⟩
    · cases h
  · cases h

/-- A handler whose method saves, when no file step stops. -/
theorem ok_of_saves {lib : StorageMetadata.External} {io : SaveIo} {m : MetadataStore}
    {handler : Except Status Unit × StorageMetadataImpl}
    (hmirrors : Mirrors handler (m.save lib io))
    (hio : io = .completes) : handler.1 = .ok () := by
  rcases hmirrors.2.mpr ⟨(), MetadataStore.save_ok_iff.mpr hio⟩ with ⟨value, hvalue⟩
  exact hvalue

/-! ## The metadata node -/

/-- What an acknowledged request leaves. -/
theorem effect_of_ok {call : Deployment.MetadataCall} {value : call.Response}
    (h : Step env .none s (.metadata call) (.ok value) s') :
    s'.nodes = s.nodes ∧ ∃ m, Effect s.metadata.metadataStore call (.ok value) m ∧
      SameMemory s'.metadata.metadataStore m := by
  rcases h.metadata_effect (by decide) with ⟨hnodes, _, m, heffect, hmemory⟩
  exact ⟨hnodes, m, heffect, hmemory⟩

/-- A name that is not used is created. -/
theorem putObject_answered {reply : Except Status Unit}
    (hname : s.metadata.metadataStore.objects[name]? = none)
    (h : Step env .none s (.metadata (.putObject checksum name)) reply s') :
    reply = .ok () ∧ s'.nodes = s.nodes ∧ SameMemory s'.metadata.metadataStore
      (s.metadata.metadataStore.withObject name (.new name checksum)) := by
  have habsent : ¬ s.Has name := by
    intro hmem
    rcases HashMap.mem_iff_exists_getElem?.mp hmem with ⟨found, hfound⟩
    cases hfound.symm.trans hname
  have hok := ApiGateway.putObject_succeeds habsent h
  subst hok
  rcases effect_of_ok h with ⟨hnodes, m, heffect, hmemory⟩
  cases heffect
  exact ⟨rfl, hnodes, hmemory⟩

/-- A name that is taken is refused. -/
theorem putObject_refused {reply : Except Status Unit}
    (hname : s.metadata.metadataStore.objects[name]? = some object)
    (h : Step env .none s (.metadata (.putObject checksum name)) reply s') :
    (∃ status, reply = .error status) ∧ SameServices s s' := by
  rcases h.metadata_effect (by decide) with ⟨hnodes, _, m, heffect, hmemory⟩
  cases heffect with
  | refused status => exact ⟨⟨status, rfl⟩, hmemory, hnodes⟩
  | putObject _ habsent => cases hname.symm.trans habsent

/-- An id is reserved, and a registered node is chosen. -/
theorem allocateChunk_answered {reply : Except Status AllocateChunkResponse}
    (hregistered : s.metadata.metadataStore.storageNodes.valueList ≠ [])
    (h : Step env .none s (.metadata (.allocateChunk name checksum)) reply s') :
    ∃ id node, reply = .ok ⟨id, node.address, node.id⟩ ∧ s'.nodes = s.nodes ∧
      s.metadata.metadataStore.chunks[id]? = none ∧
      node ∈ s.metadata.metadataStore.storageNodes.valueList ∧
      SameMemory s'.metadata.metadataStore
        (s.metadata.metadataStore.withChunk id (.newPending id name)) := by
  rcases served h not_false with ⟨choice, _, hserve⟩
  have hok : ∃ response, reply = .ok response := by
    rcases Option.map_eq_some_iff.mp hserve with ⟨⟨result, node⟩, hhandler, heq⟩
    cases heq
    rcases StorageMetadata.allocateChunk_mirrors hhandler with ⟨method, hmethod, _, hreply, _⟩
    rcases MetadataStore.allocateChunk_effect hmethod with ⟨hnone, _⟩ | ⟨id, chosen, _, _, rfl⟩
    · rw [StorageMetadata.chooseStorageNode_eq_none_iff, ← HashMap.length_valueList,
        List.length_eq_zero_iff] at hnone
      exact absurd hnone hregistered
    · exact ⟨_, hreply id chosen.id chosen.address rfl⟩
  rcases hok with ⟨response, rfl⟩
  rcases effect_of_ok h with ⟨hnodes, m, heffect, hmemory⟩
  cases heffect with
  | @allocateChunk _ _ id node hid hnode => exact ⟨id, node, rfl, hnodes, hid, hnode, hmemory⟩

/-- A reserved chunk is attached to its object. -/
theorem confirmChunk_answered {reply : Except Status Unit}
    (hname : s.metadata.metadataStore.objects[name]? = some object)
    (hnode : nodeId ∈ s.metadata.metadataStore.storageNodes)
    (hpending : s.metadata.metadataStore.chunks[id]? = some (.newPending id name))
    (h : Step env .none s (.metadata (.confirmChunk id name checksum nodeId)) reply s') :
    reply = .ok () ∧ s'.nodes = s.nodes ∧ SameMemory s'.metadata.metadataStore
      (s.metadata.metadataStore.withAttached id name object checksum nodeId) := by
  rcases served h not_false with ⟨choice, hio, hserve⟩
  have hmethod : s.metadata.metadataStore.confirmChunk env.lib choice.io id name checksum nodeId =
      (s.metadata.metadataStore.withAttached id name object checksum nodeId).save env.lib
        choice.io := by
    simp [MetadataStore.confirmChunk, hnode, hpending, hname, MetaChunk.newPending,
      MetadataStore.withAttached, MetadataStore.withChunk, MetadataStore.withObject]
  have hmirrors := @StorageMetadata.confirmChunk_mirrors env.lib choice.io s.metadata id name
    checksum nodeId
  rw [hmethod] at hmirrors
  have hok := ok_of_saves hmirrors hio
  cases hserve
  rw [hok] at h ⊢
  rcases effect_of_ok h with ⟨hnodes, m, heffect, hmemory⟩
  cases heffect with
  | confirmChunk _ hfound _ _ =>
      cases hname.symm.trans hfound
      exact ⟨rfl, hnodes, hmemory⟩

/-- The checksum and the size of an object are set. -/
theorem updateObjectChecksum_answered {totalSize : UInt64} {reply : Except Status Unit}
    (hname : s.metadata.metadataStore.objects[name]? = some object)
    (h : Step env .none s (.metadata (.updateObjectChecksum name checksum totalSize)) reply s') :
    reply = .ok () ∧ s'.nodes = s.nodes ∧ SameMemory s'.metadata.metadataStore
      (s.metadata.metadataStore.withObject name
        { object with checksum := checksum, totalSize := totalSize }) := by
  rcases served h not_false with ⟨choice, hio, hserve⟩
  have hmirrors := @StorageMetadata.updateObjectChecksum_mirrors env.lib choice.io s.metadata name
    checksum totalSize
  rcases MetadataStore.updateObjectChecksum_effect env.lib choice.io s.metadata.metadataStore name
    checksum totalSize with ⟨habsent, _⟩ | ⟨found, hfound, hmethod⟩
  · cases hname.symm.trans habsent
  · cases hname.symm.trans hfound
    rw [hmethod] at hmirrors
    have hok := ok_of_saves hmirrors hio
    cases hserve
    rw [hok] at h ⊢
    rcases effect_of_ok h with ⟨hnodes, m, heffect, hmemory⟩
    cases heffect with
    | updateObjectChecksum _ _ hfound =>
        cases hname.symm.trans hfound
        exact ⟨rfl, hnodes, hmemory⟩

/-- The record of a chunk is deleted. -/
theorem deleteRecord_answered {reply : Except Status Unit}
    (hchunk : s.metadata.metadataStore.chunks[id]? = some chunk)
    (hname : s.metadata.metadataStore.objects[chunk.objectName]? = some object)
    (h : Step env .none s (.metadata (.deleteChunk id)) reply s') :
    s'.nodes = s.nodes ∧ SameMemory s'.metadata.metadataStore
      ((s.metadata.metadataStore.withoutChunk id).withObject chunk.objectName
        (object.removeChunk id)) := by
  rcases served h not_false with ⟨choice, hio, hserve⟩
  have hmirrors := @StorageMetadata.deleteChunk_mirrors env.lib choice.io s.metadata id
  rcases MetadataStore.deleteChunk_effect env.lib choice.io s.metadata.metadataStore id with
    ⟨habsent, _⟩ | ⟨found, hfound, hcases⟩
  · cases hchunk.symm.trans habsent
  · cases hchunk.symm.trans hfound
    rcases hcases with ⟨habsent, _⟩ | ⟨owner, howner, hmethod⟩
    · cases hname.symm.trans habsent
    · cases hname.symm.trans howner
      rw [hmethod] at hmirrors
      have hok := ok_of_saves hmirrors hio
      cases hserve
      rw [hok] at h
      rcases effect_of_ok h with ⟨hnodes, m, heffect, hmemory⟩
      cases heffect with
      | deleteChunk hfound howner =>
          cases hchunk.symm.trans hfound
          cases hname.symm.trans howner
          exact ⟨hnodes, hmemory⟩

/-- An object is deleted with the chunks that it lists. -/
theorem deleteObject_answered {reply : Except Status Unit}
    (hname : s.metadata.metadataStore.objects[name]? = some object)
    (h : Step env .none s (.metadata (.deleteObject name)) reply s') :
    reply = .ok () ∧ s'.nodes = s.nodes ∧ SameMemory s'.metadata.metadataStore
      (s.metadata.metadataStore.withoutObject name object) := by
  rcases served h not_false with ⟨choice, hio, hserve⟩
  have hmirrors := @StorageMetadata.deleteObject_mirrors env.lib choice.io s.metadata name
  rcases MetadataStore.deleteObject_effect env.lib choice.io s.metadata.metadataStore name with
    ⟨habsent, _⟩ | ⟨found, hfound, hmethod⟩
  · cases hname.symm.trans habsent
  · cases hname.symm.trans hfound
    rw [hmethod] at hmirrors
    have hok := ok_of_saves hmirrors hio
    cases hserve
    rw [hok] at h ⊢
    rcases effect_of_ok h with ⟨hnodes, m, heffect, hmemory⟩
    cases heffect with
    | deleteObject hfound =>
        cases hname.symm.trans hfound
        exact ⟨rfl, hnodes, hmemory⟩

/-- A replica is recorded. -/
theorem addChunkReplica_answered {reply : Except Status Unit}
    (hchunk : s.metadata.metadataStore.chunks[id]? = some chunk)
    (hnode : nodeId ∈ s.metadata.metadataStore.storageNodes) (hnew : nodeId ∉ chunk.storageNodes)
    (hroom : chunk.storageNodes.length < 3)
    (h : Step env .none s (.metadata (.addChunkReplica id nodeId)) reply s') :
    reply = .ok () ∧ s'.nodes = s.nodes ∧ SameMemory s'.metadata.metadataStore
      (s.metadata.metadataStore.withChunk id (chunk.addStorageNode nodeId)) := by
  rcases served h not_false with ⟨choice, hio, hserve⟩
  rcases ReplicationService.serve_addChunkReplica choice hio hchunk hnode hnew hroom with
    ⟨after, hanswer, _⟩
  cases hserve.symm.trans hanswer
  rcases effect_of_ok h with ⟨hnodes, m, heffect, hmemory⟩
  cases heffect with
  | addChunkReplica hfound _ _ _ =>
      cases hchunk.symm.trans hfound
      exact ⟨rfl, hnodes, hmemory⟩

/-- The listing of the registry. -/
theorem listStorageNodes_answered
    {reply : Except Status (List StorageMetadata.Proto.MetaStorageNode)}
    (h : Step env .none s (.metadata .listStorageNodes) reply s') :
    ∃ nodes, reply = .ok nodes ∧ nodes.Perm s.metadata.listStorageNodes ∧ SameServices s s' := by
  have hsame := h.reads trivial
  cases h with
  | served _ hserve =>
      cases hserve
      exact ⟨_, rfl, .refl _, hsame⟩
  | nodesListed hnodes => exact ⟨_, rfl, hnodes, hsame⟩
  | failed hfaults _ => exact absurd rfl hfaults
  | lost hany _ _ => cases hany

/-! ## The storage nodes -/

theorem connect_answered {reply : Except String Unit} (haddress : address ∈ s.nodes)
    (h : Step env .none s (.connect address) reply s') : reply = .ok () ∧ s' = s := by
  rcases served h not_false with ⟨choice, _, hserve⟩
  rw [ReplicationService.serve_connect choice haddress] at hserve
  cases hserve
  exact ⟨rfl, rfl⟩

/-- Data that is there is read. -/
theorem readChunk_answered {reply : Except Status StorageNode.ReadChunkResponse}
    (hdata : s.dataAt address id = some bytes)
    (h : Step env .none s (.storageNode address (.readChunk id)) reply s') :
    reply = .ok ⟨id, bytes, env.crc32 bytes⟩ ∧ s' = s := by
  rcases Deployment.Services.dataAt_eq_some_iff.mp hdata with ⟨held, hnode, hlive⟩
  rcases served h not_false with ⟨choice, _, hserve⟩
  rw [ReplicationService.serve_readChunk choice hnode hlive] at hserve
  cases hserve
  exact ⟨rfl, rfl⟩

theorem connectCached_answered {reply : Except String Unit} (haddress : address ∈ s.nodes)
    (h : Step env .none s (.connectCached address) reply s') :
    reply = .ok () ∧ SameServices s s' := by
  have hsame := h.reads trivial
  rcases served h not_false with ⟨choice, _, hserve⟩
  simp only [Services.serve, haddress, if_true] at hserve
  split at hserve <;> cases hserve <;> exact ⟨rfl, hsame⟩

/-- A connection is found in the cache, or made. -/
theorem getOrConnect_answered (haddress : address ∈ s.nodes) :
    (getOrConnect address).Ensures (RoomyStep env)
      (fun result s' => result = .ok () ∧ SameServices s s') s := by
  intro cached s₁ hcached
  have hsame := hcached.1.reads trivial
  change Bool at cached
  cases cached with
  | true => exact ⟨rfl, hsame⟩
  | false =>
      intro connected s₂ hconnected
      have haddress' : address ∈ s₁.nodes := by
        rw [hsame.nodes]
        exact haddress
      rcases connectCached_answered haddress' hconnected.1 with ⟨rfl, hsame'⟩
      exact ⟨rfl, hsame.trans hsame'⟩

theorem getChunkSize_answered {reply : Except Status StorageNode.ChunkSize}
    (haddress : address ∈ s.nodes)
    (h : Step env .none s (.storageNode address .getChunkSize) reply s') :
    reply = .ok env.chunkSize ∧ SameServices s s' := by
  have hsame := h.reads trivial
  rcases HashMap.mem_iff_exists_getElem?.mp haddress with ⟨node, hnode⟩
  rcases served h not_false with ⟨choice, _, hserve⟩
  simp only [Services.serve, hnode, StorageNode.BoundedMap.handle] at hserve
  cases hserve
  exact ⟨rfl, hsame⟩

/-- No call changes the capacity of a storage node. -/
theorem handle_capacity (crc32 : Bytes → UInt32) (chunkSize : StorageNode.ChunkSize)
    (held : BoundedMap) (call : StorageNode.Call) :
    (held.handle crc32 chunkSize call).2.capacity = held.capacity := by
  cases call with
  | writeChunk id bytes =>
      unfold BoundedMap.handle
      dsimp only
      split
      · rfl
      · split <;> rfl
  | readChunk id =>
      unfold BoundedMap.handle
      dsimp only
      split <;> rfl
  | _ => rfl

/-- Storage nodes stay in their places and keep their size. -/
theorem capacity_of_step {call : Call} {reply : call.Reply} {held : BoundedMap}
    (h : Step env .none s call reply s') (hheld : s.nodes[address]? = some held) :
    ∃ held', s'.nodes[address]? = some held' ∧ held'.capacity = held.capacity := by
  have hsame : s'.nodes = s.nodes → ∃ held', s'.nodes[address]? = some held' ∧
      held'.capacity = held.capacity := by
    intro hnodes
    rw [hnodes]
    exact ⟨held, hheld, rfl⟩
  cases call with
  | metadata call => exact hsame h.metadata_nodes
  | storageNode other call =>
      rcases served h not_false with ⟨choice, _, hserve⟩
      unfold Services.serve at hserve
      dsimp only at hserve
      split at hserve
      · cases hserve
        exact hsame rfl
      · rename_i node hnode
        cases hserve
        by_cases haddress : address = other
        · subst haddress
          cases hheld.symm.trans hnode
          exact ⟨_, Std.ExtTreeMap.getElem?_insert_self, handle_capacity _ _ _ _⟩
        · refine ⟨held, ?_, rfl⟩
          rw [HashMap.getElem?_insert_of_ne _ _ haddress]
          exact hheld
  | connect _ | cachedConnection _ | connectCached _ | choose _ | turn =>
      exact hsame (h.reads trivial).nodes

/-- No storage node goes away. -/
theorem mem_nodes_of_step {call : Call} {reply : call.Reply} (h : Step env .none s call reply s') :
    ∀ other ∈ s.nodes, other ∈ s'.nodes := by
  intro other hother
  rcases HashMap.mem_iff_exists_getElem?.mp hother with ⟨held, hheld⟩
  rcases capacity_of_step h hheld with ⟨held', hheld', _⟩
  exact HashMap.mem_iff_exists_getElem?.mpr ⟨held', hheld'⟩

/-- A chunk is written where there is room. -/
theorem writeChunk_answered {reply : Except Status UInt64} (haddress : address ∈ s.nodes)
    (hfree : s.dataAt address id = none)
    (h : RoomyStep env s (.storageNode address (.writeChunk id bytes)) reply s') :
    reply = .ok id ∧ s'.metadata = s.metadata ∧ (∀ other ∈ s.nodes, other ∈ s'.nodes) ∧
      ∀ (other : String) (otherId : UInt64), s'.dataAt other otherId =
        if other = address ∧ otherId = id then some bytes else s.dataAt other otherId := by
  rcases HashMap.mem_iff_exists_getElem?.mp haddress with ⟨node, hnode⟩
  have hnew : id ∉ node.live := by
    simpa [Services.dataAt, hnode] using hfree
  have hok : reply = .ok id := by
    rcases served h.1 not_false with ⟨choice, _, hserve⟩
    simp only [Services.serve, hnode, StorageNode.BoundedMap.handle, hnew, if_false] at hserve
    split at hserve
    · cases hserve
      have hfull := h.2
      simp [outOfRoom] at hfull
    · cases hserve
      rfl
  subst hok
  have hother : ∀ request, Call.storageNode address (.writeChunk id bytes) ≠ .metadata request := by
    simp
  have hmetadata := h.1.metadata_eq hother
  exact ⟨rfl, hmetadata, mem_nodes_of_step h.1, h.1.written.2⟩

/-- A chunk is deleted on a storage node. -/
theorem deleteChunk_answered {reply : Except Status UInt64} (haddress : address ∈ s.nodes)
    (h : Step env .none s (.storageNode address (.deleteChunk id)) reply s') :
    reply = .ok id ∧ s'.metadata = s.metadata ∧ (∀ other ∈ s.nodes, other ∈ s'.nodes) ∧
      ∀ (other : String) (otherId : UInt64), s'.dataAt other otherId =
        if other = address ∧ otherId = id then none else s.dataAt other otherId := by
  rcases HashMap.mem_iff_exists_getElem?.mp haddress with ⟨node, hnode⟩
  have hok : reply = .ok id := by
    rcases served h not_false with ⟨choice, _, hserve⟩
    simp only [Services.serve, hnode, StorageNode.BoundedMap.handle] at hserve
    cases hserve
    rfl
  subst hok
  have hother : ∀ request, Call.storageNode address (.deleteChunk id) ≠ .metadata request := by
    simp
  have hmetadata := h.metadata_eq hother
  refine ⟨rfl, hmetadata, mem_nodes_of_step h, fun other otherId => ?_⟩
  rw [h.deleteChunk_dataAt (by decide)]
  simp [Except.isOk, Except.toBool]

end System
end ObjectStore
