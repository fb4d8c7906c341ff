import ObjectStore.ReplicationService.Budget

/-!
# Replication service - Cleaning up behind a lost answer

A cycle deletes the copy that it has written when `add_chunk_replica` reports an error.  A call
that reports an error may have taken effect all the same: the copy is recorded then, and the
clean-up takes away a recorded replica.  Nothing else in a cycle does.

Main definitions:

- `Undone`: a replica was recorded by a failing call, and then deleted.

Main results:

- Theorem `Turn.storedAt_iff`: what a turn makes of the recorded replicas of its chunk.
- Theorem `cleanup_keeps_replicas_iff`: when all recorded replicas still exist.
-/

namespace ObjectStore
namespace ReplicationService

open Deployment (Call Environment Faults Program SameServices Services Step)
open StorageMetadata (MetaChunk)
open StorageMetadata.Proto (MetaStorageNode UnderReplicatedChunk)

/-- Every recorded replica of the chunk exists, whatever its status. -/
abbrev AllStoredAt (env : Environment) (home : UInt64 → String) (s : Services) (id : UInt64) :
    Prop :=
  StoredAt env home (fun _ => True) s id

section

variable (home : UInt64 → String) (trace : List Transition) (id : UInt64)

/-- A call that reported an error has recorded a replica of the chunk, and a deletion has taken
it away.  A cycle deletes a copy only after it has failed to record it. -/
def Undone : Prop :=
  ∃ added ∈ trace, ∃ nodeId,
    added.request = .metadata (.addChunkReplica id nodeId) ∧ added.request.Fails added.reply ∧
    added.after.metadata.metadataStore.chunks[id]? ≠
      added.before.metadata.metadataStore.chunks[id]? ∧
    ∃ deleted ∈ trace, deleted.request = .storageNode (home nodeId) (.deleteChunk id) ∧
      deleted.after.dataAt (home nodeId) id = none

end

variable {env : Environment} {faults : Faults} {home : UInt64 → String}
  {nodes : List MetaStorageNode} {chunk : UnderReplicatedChunk}
  {chunks : List UnderReplicatedChunk} {s s' : Services} {events rest : List Transition}
  {id nodeId : UInt64} {address : String} {record : MetaChunk} {outcome : ChunkOutcome}

/-! ## Recorded replicas of one chunk -/

/-- Whether the replicas are stored depends on the record and the data only. -/
theorem AllStoredAt.congr
    (hrecord : s'.metadata.metadataStore.chunks[id]? = s.metadata.metadataStore.chunks[id]?)
    (hdata : ∀ address, s'.dataAt address id = s.dataAt address id) :
    AllStoredAt env home s' id ↔ AllStoredAt env home s id := by
  simp only [AllStoredAt, StoredAt, Holds, hrecord, hdata]

/-- No data is lost. -/
theorem AllStoredAt.of_keeps (h : AllStoredAt env home s id)
    (hrecord : s'.metadata.metadataStore.chunks[id]? = s.metadata.metadataStore.chunks[id]?)
    (hdata : ∀ address bytes, s.dataAt address id = some bytes →
      s'.dataAt address id = some bytes) : AllStoredAt env home s' id := by
  intro chunk hchunk hstatus nodeId hnode
  rw [hrecord] at hchunk
  rcases h chunk hchunk hstatus nodeId hnode with ⟨bytes, hbytes, hchecksum⟩
  exact ⟨bytes, hdata _ _ hbytes, hchecksum⟩

/-- A replica is recorded that exists. -/
theorem AllStoredAt.of_gain (h : AllStoredAt env home s id)
    (hrecord : s.metadata.metadataStore.chunks[id]? = some record)
    (hgained : s'.metadata.metadataStore.chunks[id]? = some (record.addStorageNode nodeId))
    (hdata : ∀ address bytes, s.dataAt address id = some bytes →
      s'.dataAt address id = some bytes)
    (hnew : Holds env home s' id record.checksum nodeId) : AllStoredAt env home s' id := by
  intro chunk hchunk hstatus other hother
  rw [hgained] at hchunk
  cases hchunk
  rcases List.mem_append.mp hother with hold | hsingle
  · rcases h record hrecord trivial other hold with ⟨bytes, hbytes, hchecksum⟩
    exact ⟨bytes, hdata _ _ hbytes, hchecksum⟩
  · rw [List.mem_singleton.mp hsingle]
    exact hnew

/-- A replica is recorded that does not exist. -/
theorem not_allStoredAt_of_gain
    (hgained : s'.metadata.metadataStore.chunks[id]? = some (record.addStorageNode nodeId))
    (hnone : s'.dataAt (home nodeId) id = none) : ¬ AllStoredAt env home s' id := by
  intro hstored
  have hmem : nodeId ∈ (record.addStorageNode nodeId).storageNodes :=
    List.mem_append_right _ (List.mem_singleton_self nodeId)
  rcases hstored _ hgained trivial nodeId hmem with ⟨bytes, hbytes, _⟩
  rw [hnone] at hbytes
  cases hbytes

/-! ## Data -/

/-- A write touches no data that is there, and no other chunk. -/
theorem dataAt_of_writeChunk {bytes : Bytes} {reply : Except Status UInt64}
    (h : Step env faults s (.storageNode address (.writeChunk id bytes)) reply s') :
    (∀ other found, s.dataAt other id = some found → s'.dataAt other id = some found) ∧
      ∀ other otherId, otherId ≠ id → s'.dataAt other otherId = s.dataAt other otherId := by
  rcases h.any.storageNode_effect_any with ⟨_, reply', heffect, _⟩
  rcases heffect.writeChunk_dataAt with ⟨hfree, hdata⟩
  constructor
  · intro other found hfound
    rw [hdata]
    split
    · rename_i hwritten
      rw [hwritten.2.1, hfree hwritten.1] at hfound
      cases hfound
    · exact hfound
  · intro other otherId hne
    rw [hdata, if_neg fun hwritten => hne hwritten.2.2]

/-- A deletion touches the data of the chunk at the node, and nothing else. -/
theorem dataAt_of_deleteChunk {reply : Except Status UInt64}
    (h : Step env faults s (.storageNode address (.deleteChunk id)) reply s') :
    (s'.dataAt address id = s.dataAt address id ∨ s'.dataAt address id = none) ∧
      ∀ other otherId, ¬ (other = address ∧ otherId = id) →
        s'.dataAt other otherId = s.dataAt other otherId := by
  rcases h.any.storageNode_effect_any with ⟨_, reply', heffect, _⟩
  have hdata := heffect.deleteChunk_dataAt
  constructor
  · rw [hdata]
    split
    · exact .inr rfl
    · exact .inl rfl
  · intro other otherId hne
    rw [hdata, if_neg fun hdeleted => hne hdeleted.2]

theorem dataAt_of_nodes (h : s'.nodes = s.nodes) (other : String) (otherId : UInt64) :
    s'.dataAt other otherId = s.dataAt other otherId := by
  rw [Services.dataAt, h, Services.dataAt]

/-- What the clean-up does: its deletion, if there is one, comes last. -/
theorem CleanedUp.dataAt (h : CleanedUp env faults address id s events s') :
    (∀ other otherId, ¬ (other = address ∧ otherId = id) →
        s'.dataAt other otherId = s.dataAt other otherId) ∧
      (s'.dataAt address id = s.dataAt address id ∨ s'.dataAt address id = none ∧
        ∃ deleted ∈ events, deleted.request = .storageNode address (.deleteChunk id) ∧
          deleted.after = s') ∧
      ∀ deleted ∈ events, deleted.request = .storageNode address (.deleteChunk id) →
        deleted.after = s' := by
  cases h with
  | unreached hconnect =>
      have hsame := hconnect.reads trivial
      refine ⟨fun other otherId _ => hsame.dataAt other otherId, .inl (hsame.dataAt _ _), ?_⟩
      simp
  | tried hconnect hdelete =>
      have hsame := hconnect.reads trivial
      rcases dataAt_of_deleteChunk hdelete with ⟨hown, hothers⟩
      refine ⟨fun other otherId hne => (hothers other otherId hne).trans (hsame.dataAt _ _), ?_, ?_⟩
      · rcases hown with hkept | hnone
        · exact .inl (hkept.trans (hsame.dataAt _ _))
        · exact .inr ⟨hnone, _, List.mem_cons_of_mem _ (List.mem_singleton_self _), rfl, rfl⟩
      · simp

theorem LooksFor.ne_deleteChunk {call : Call} (h : LooksFor id call) (other : UInt64) :
    call ≠ .storageNode address (.deleteChunk other) := by
  intro heq
  rw [heq] at h
  exact h

/-! ## Turns -/

/-- A turn touches no data of another chunk. -/
theorem Turn.dataAt_other (h : Turn env faults nodes chunk s outcome events s')
    (hne : id ≠ chunk.chunkId)
    (address : String) : s'.dataAt address id = s.dataAt address id := by
  cases h with
  | looked houtcome hlooked => exact hlooked.same.dataAt address id
  | refused hlooked htarget hbytes hwrite =>
      rw [(dataAt_of_writeChunk hwrite).2 address id hne, hlooked.same.dataAt]
  | recorded hlooked htarget hbytes hwrite hadd =>
      rw [dataAt_of_nodes hadd.metadata_nodes, (dataAt_of_writeChunk hwrite).2 address id hne,
        hlooked.same.dataAt]
  | cleaned hlooked htarget hbytes hwrite hadd hcleanup =>
      rw [hcleanup.dataAt.1 address id fun h => hne h.2, dataAt_of_nodes hadd.metadata_nodes,
        (dataAt_of_writeChunk hwrite).2 address id hne, hlooked.same.dataAt]

/-- Without a failing call that records a replica nothing is undone. -/
theorem not_undone (h : ∀ event ∈ events, ∀ nodeId,
    event.request = .metadata (.addChunkReplica id nodeId) → ¬ event.request.Fails event.reply) :
    ¬ Undone home events id := by
  rintro ⟨added, hadded, nodeId, hrequest, hfails, _⟩
  exact h added hadded nodeId hrequest hfails

section

variable {looks cleanup : List Transition} {s₁ s₂ s₃ : Services} {target : MetaStorageNode}
  {bytes : Bytes} {value : UInt64}

/-- The copy is written: the target did not have the chunk, and nothing else has changed. -/
theorem dataAt_of_written (hlooked : Looked chunk.chunkId s looks s₁)
    (hwrite : Step env faults s₁ (.storageNode target.address (.writeChunk chunk.chunkId bytes))
      (.ok value) s₂) :
    s.dataAt target.address chunk.chunkId = none ∧
      ∀ other, s₂.dataAt other chunk.chunkId =
        if other = target.address then some bytes else s.dataAt other chunk.chunkId := by
  rcases hwrite.written with ⟨hnone, hdata⟩
  constructor
  · rw [← hlooked.same.dataAt, hnone]
  · intro other
    rw [hdata, hlooked.same.dataAt]
    simp

/-- The replica is recorded, and all that are recorded exist. -/
theorem recorded_allStoredAt (hlooked : Looked chunk.chunkId s looks s₁)
    (haddress : home target.id = target.address) (hbytes : env.crc32 bytes = chunk.checksum)
    (hwrite : Step env faults s₁ (.storageNode target.address (.writeChunk chunk.chunkId bytes))
      (.ok value) s₂)
    (hrecord : s.metadata.metadataStore.chunks[chunk.chunkId]? = some record)
    (hchecksum : record.checksum = chunk.checksum)
    (hstored : AllStoredAt env home s chunk.chunkId)
    (hgained : s'.metadata.metadataStore.chunks[chunk.chunkId]? =
      some (record.addStorageNode target.id))
    (hdata : ∀ other, s'.dataAt other chunk.chunkId = s₂.dataAt other chunk.chunkId) :
    AllStoredAt env home s' chunk.chunkId := by
  rcases dataAt_of_written hlooked hwrite with ⟨hnone, hwritten⟩
  refine hstored.of_gain hrecord hgained ?_ ⟨bytes, ?_, hbytes.trans hchecksum.symm⟩
  · intro other found hfound
    have hne : other ≠ target.address := by
      intro heq
      rw [heq, hnone] at hfound
      cases hfound
    rw [hdata, hwritten, if_neg hne, hfound]
  · rw [haddress, hdata, hwritten, if_pos rfl]

/-- The calls of a turn that ends with a clean-up. -/
def cleanedTurn (looks : List Transition) (s₁ s₂ s₃ : Services) (chunk : UnderReplicatedChunk)
    (target : MetaStorageNode) (bytes : Bytes) (value : UInt64) (status : Status)
    (cleanup : List Transition) : List Transition :=
  looks ++ ⟨s₁, .storageNode target.address (.writeChunk chunk.chunkId bytes), .ok value, s₂⟩ ::
    ⟨s₂, .metadata (.addChunkReplica chunk.chunkId target.id), .error status, s₃⟩ :: cleanup

/-- It records at most one replica. -/
theorem added_of_mem_cleanedTurn {status : Status} {event : Transition}
    (hlooked : Looked chunk.chunkId s looks s₁)
    (hcleanup : CleanedUp env faults target.address chunk.chunkId s₃ cleanup s')
    (hevent : event ∈ cleanedTurn looks s₁ s₂ s₃ chunk target bytes value status cleanup)
    (hrequest : event.request = .metadata (.addChunkReplica chunk.chunkId nodeId)) :
    event.before = s₂ ∧ event.after = s₃ ∧ nodeId = target.id := by
  rcases List.mem_append.mp hevent with hlook | hlater
  · exact absurd hrequest ((hlooked.looks event hlook).ne_addChunkReplica _)
  rcases List.mem_cons.mp hlater with heq | hlater
  · rw [heq] at hrequest
    cases hrequest
  rcases List.mem_cons.mp hlater with heq | hlater
  · rw [heq] at hrequest ⊢
    cases hrequest
    exact ⟨rfl, rfl, rfl⟩
  · exact absurd hrequest (hcleanup.ne_addChunkReplica _ event hlater)

/-- It deletes nothing before the clean-up. -/
theorem deleted_of_mem_cleanedTurn {status : Status} {event : Transition}
    (hlooked : Looked chunk.chunkId s looks s₁)
    (hevent : event ∈ cleanedTurn looks s₁ s₂ s₃ chunk target bytes value status cleanup)
    (hrequest : event.request = .storageNode address (.deleteChunk id)) : event ∈ cleanup := by
  rcases List.mem_append.mp hevent with hlook | hlater
  · exact absurd hrequest ((hlooked.looks event hlook).ne_deleteChunk _)
  rcases List.mem_cons.mp hlater with heq | hlater
  · rw [heq] at hrequest
    cases hrequest
  rcases List.mem_cons.mp hlater with heq | hlater
  · rw [heq] at hrequest
    cases hrequest
  · exact hlater

/-- The turn that ends with a clean-up. -/
theorem cleaned_storedAt_iff {status : Status} (hlooked : Looked chunk.chunkId s looks s₁)
    (haddress : home target.id = target.address) (hbytes : env.crc32 bytes = chunk.checksum)
    (hwrite : Step env faults s₁ (.storageNode target.address (.writeChunk chunk.chunkId bytes))
      (.ok value) s₂)
    (hadd : Step env faults s₂ (.metadata (.addChunkReplica chunk.chunkId target.id))
      (.error status) s₃)
    (hcleanup : CleanedUp env faults target.address chunk.chunkId s₃ cleanup s')
    (hchecksum : ∀ record, s.metadata.metadataStore.chunks[chunk.chunkId]? = some record →
      record.checksum = chunk.checksum)
    (hstored : AllStoredAt env home s chunk.chunkId) :
    AllStoredAt env home s' chunk.chunkId ↔ ¬ Undone home
      (cleanedTurn looks s₁ s₂ s₃ chunk target bytes value status cleanup) chunk.chunkId := by
  rcases hcleanup.dataAt with ⟨hothers, hown, hlast⟩
  rcases dataAt_of_written hlooked hwrite with ⟨hnone, hwritten⟩
  have hadded := dataAt_of_nodes hadd.metadata_nodes
  have hbefore : s₂.metadata.metadataStore.chunks = s.metadata.metadataStore.chunks := by
    rw [hwrite.metadata_eq (by simp), hlooked.same.memory.chunks]
  have hrecords := hadd.addChunkReplica_chunks
  rw [hbefore] at hrecords
  rcases hrecords with ⟨_, hsame⟩ | ⟨record, hrecord, hchunks⟩
  · -- the call has failed without an effect: the copy that is deleted is not recorded
    refine iff_of_true ?_ ?_
    · refine hstored.of_keeps (by rw [hcleanup.metadata_eq, hsame]) fun other found hfound => ?_
      have hne : other ≠ target.address := by
        intro heq
        rw [heq, hnone] at hfound
        cases hfound
      rw [hothers other _ fun h => hne h.1, hadded, hwritten, if_neg hne, hfound]
    · rintro ⟨added, hmem, nodeId, hrequest, _, hchanged, _⟩
      rcases added_of_mem_cleanedTurn hlooked hcleanup hmem hrequest with ⟨hb, ha, _⟩
      rw [hb, ha, hsame, hbefore] at hchanged
      exact hchanged rfl
  · have hgained : s'.metadata.metadataStore.chunks[chunk.chunkId]? =
        some (record.addStorageNode target.id) := by
      rw [hcleanup.metadata_eq, hchunks]
      exact Std.ExtTreeMap.getElem?_insert_self
    rcases hown with hkept | ⟨hgone, deleted, hdeleted, hrequest, hafter⟩
    · -- the deletion has not come through
      have hdata : ∀ other, s'.dataAt other chunk.chunkId = s₂.dataAt other chunk.chunkId := by
        intro other
        rw [← hadded]
        by_cases hsame : other = target.address
        · rw [hsame, hkept]
        · exact hothers other _ fun h => hsame h.1
      refine iff_of_true (recorded_allStoredAt hlooked haddress hbytes hwrite hrecord
        (hchecksum record hrecord) hstored hgained hdata) ?_
      rintro ⟨added, hmem, nodeId, hrequest, _, _, deleted, hdeleted, hdelete, hgone⟩
      rcases added_of_mem_cleanedTurn hlooked hcleanup hmem hrequest with ⟨_, _, hnode⟩
      rw [hnode, haddress] at hdelete hgone
      rw [hlast deleted (deleted_of_mem_cleanedTurn hlooked hdeleted hdelete) hdelete, hdata,
        hwritten, if_pos rfl] at hgone
      cases hgone
    · -- the replica is recorded and deleted
      refine iff_of_false (not_allStoredAt_of_gain hgained (by rw [haddress, hgone])) ?_
      have hmem : (⟨s₂, .metadata (.addChunkReplica chunk.chunkId target.id), .error status, s₃⟩ :
          Transition) ∈ cleanedTurn looks s₁ s₂ s₃ chunk target bytes value status cleanup :=
        List.mem_append_right _ (List.mem_cons_of_mem _ List.mem_cons_self)
      refine not_not.mpr ⟨_, hmem, target.id, rfl, ⟨status, rfl⟩, ?_, deleted, ?_, ?_, ?_⟩
      · intro heq
        rw [hchunks, hbefore, hrecord, Std.ExtTreeMap.getElem?_insert_self] at heq
        have hlength := congrArg (fun found : MetaChunk => found.storageNodes.length)
          (Option.some.inj heq)
        simp [MetaChunk.addStorageNode] at hlength
      · exact List.mem_append_right _ (List.mem_cons_of_mem _ (List.mem_cons_of_mem _ hdeleted))
      · rw [haddress, hrequest]
      · rw [haddress, hafter, hgone]

end

/-- After a turn, all recorded replicas of the chunk exist unless one was undone. -/
theorem Turn.storedAt_iff (h : Turn env faults nodes chunk s outcome events s')
    (hlocated : ∀ node ∈ nodes, home node.id = node.address)
    (hchecksum : ∀ record, s.metadata.metadataStore.chunks[chunk.chunkId]? = some record →
      record.checksum = chunk.checksum)
    (hstored : AllStoredAt env home s chunk.chunkId) :
    AllStoredAt env home s' chunk.chunkId ↔ ¬ Undone home events chunk.chunkId := by
  cases h with
  | looked houtcome hlooked =>
      have hkept : AllStoredAt env home s' chunk.chunkId :=
        hstored.of_keeps (by rw [hlooked.same.memory.chunks]) fun address bytes hdata =>
          (hlooked.same.dataAt address _).trans hdata
      refine iff_of_true hkept (not_undone fun event hevent nodeId hrequest => ?_)
      exact absurd hrequest ((hlooked.looks event hevent).ne_addChunkReplica _)
  | refused hlooked htarget hbytes hwrite =>
      have hkept : AllStoredAt env home s' chunk.chunkId := by
        refine hstored.of_keeps ?_ fun address bytes hdata => ?_
        · rw [hwrite.metadata_eq (by simp), hlooked.same.memory.chunks]
        · rw [← hlooked.same.dataAt] at hdata
          exact (dataAt_of_writeChunk hwrite).1 address bytes hdata
      refine iff_of_true hkept (not_undone fun event hevent nodeId hrequest => ?_)
      rcases List.mem_append.mp hevent with hlook | hlast
      · exact absurd hrequest ((hlooked.looks event hlook).ne_addChunkReplica _)
      · rw [List.mem_singleton.mp hlast] at hrequest
        cases hrequest
  | @recorded looks s₁ s₂ _ target bytes value hlooked htarget hbytes hwrite hadd =>
      have hrecords := hadd.addChunkReplica_chunks
      rw [hwrite.metadata_eq (by simp), hlooked.same.memory.chunks] at hrecords
      rcases hrecords with ⟨⟨_, herror⟩, _⟩ | ⟨record, hrecord, hchunks⟩
      · cases herror
      · have hgained : s'.metadata.metadataStore.chunks[chunk.chunkId]? =
            some (record.addStorageNode target.id) := by
          rw [hchunks]
          exact Std.ExtTreeMap.getElem?_insert_self
        refine iff_of_true (recorded_allStoredAt hlooked (hlocated target htarget.listed) hbytes
          hwrite hrecord (hchecksum record hrecord) hstored hgained fun other =>
            dataAt_of_nodes hadd.metadata_nodes other _) ?_
        refine not_undone fun event hevent nodeId hrequest hfails => ?_
        rcases List.mem_append.mp hevent with hlook | hlater
        · exact absurd hrequest ((hlooked.looks event hlook).ne_addChunkReplica _)
        rcases List.mem_cons.mp hlater with heq | hlater
        · rw [heq] at hrequest
          cases hrequest
        · rw [List.mem_singleton.mp hlater] at hfails
          rcases hfails with ⟨status, hstatus⟩
          cases hstatus
  | cleaned hlooked htarget hbytes hwrite hadd hcleanup =>
      exact cleaned_storedAt_iff hlooked (hlocated _ htarget.listed) hbytes hwrite hadd hcleanup
        hchecksum hstored

/-! ## Cycles -/

/-- Only the calls about the chunk matter. -/
theorem Undone.mono {events' : List Transition} (h : Undone home events id)
    (hsub : ∀ event ∈ events, chunkIdOf event.request = some id → event ∈ events') :
    Undone home events' id := by
  rcases h with ⟨added, hadded, nodeId, hrequest, hfails, hchanged, deleted, hdeleted, hdelete,
    hgone⟩
  have hadded' := hsub added hadded (by rw [hrequest]; rfl)
  have hdeleted' := hsub deleted hdeleted (by rw [hdelete]; rfl)
  exact ⟨added, hadded', nodeId, hrequest, hfails, hchanged, deleted, hdeleted', hdelete, hgone⟩

/-- The turns of other chunks leave the recorded replicas of a chunk alone. -/
theorem Turns.storedAt_other (h : Turns env faults nodes chunks s events s')
    (hid : id ∉ chunks.map (·.chunkId)) :
    AllStoredAt env home s' id ↔ AllStoredAt env home s id := by
  induction h with
  | nil s => rfl
  | cons hturn hturns ih =>
      rw [List.map_cons, List.mem_cons, not_or] at hid
      rw [ih hid.2]
      exact AllStoredAt.congr (hturn.records.1 id hid.1) (hturn.dataAt_other hid.1)

/-- Over the turns of a cycle, a replica is lost when a recorded copy is cleaned up. -/
theorem Turns.storedAt_iff (h : Turns env faults nodes chunks s events s')
    (hlocated : ∀ node ∈ nodes, home node.id = node.address)
    (hdistinct : (chunks.map (·.chunkId)).Nodup)
    (hchecksum : ∀ chunk ∈ chunks, ∀ record,
      s.metadata.metadataStore.chunks[chunk.chunkId]? = some record →
        record.checksum = chunk.checksum)
    (hstored : ∀ chunk ∈ chunks, AllStoredAt env home s chunk.chunkId) :
    ∀ chunk ∈ chunks,
      (AllStoredAt env home s' chunk.chunkId ↔ ¬ Undone home events chunk.chunkId) := by
  induction h with
  | nil s => simp
  | @cons chunk chunks s s₁ s' outcome events rest hturn hturns ih =>
      rcases List.nodup_cons.mp hdistinct with ⟨hnew, hdistinct⟩
      have hother : ∀ tried ∈ chunks, tried.chunkId ≠ chunk.chunkId := fun tried htried heq =>
        hnew (List.mem_map.mpr ⟨tried, htried, heq⟩)
      intro tried htried
      rcases List.mem_cons.mp htried with heq | hlater
      · rw [heq, hturns.storedAt_other hnew, hturn.storedAt_iff hlocated
          (hchecksum chunk List.mem_cons_self) (hstored chunk List.mem_cons_self), not_iff_not]
        refine ⟨fun hundone => hundone.mono fun event hevent _ => List.mem_append_left _ hevent,
          fun hundone => hundone.mono fun event hevent habout => ?_⟩
        rcases List.mem_append.mp hevent with hfirst | hrest
        · exact hfirst
        · exact absurd (hturns.aboutOnly event hrest _ habout) hnew
      · have hbefore : ∀ later ∈ chunks, ∀ record,
            s₁.metadata.metadataStore.chunks[later.chunkId]? = some record →
              record.checksum = later.checksum := by
          intro later hmem record hrecord
          rw [hturn.records.1 _ (hother later hmem)] at hrecord
          exact hchecksum later (List.mem_cons_of_mem _ hmem) record hrecord
        have hkept : ∀ later ∈ chunks, AllStoredAt env home s₁ later.chunkId := by
          intro later hmem
          have hne := hother later hmem
          exact (AllStoredAt.congr (hturn.records.1 _ hne) (hturn.dataAt_other hne)).mpr
            (hstored later (List.mem_cons_of_mem _ hmem))
        rw [ih hdistinct hbefore hkept tried hlater, not_iff_not]
        refine ⟨fun hundone => hundone.mono fun event hevent _ => List.mem_append_right _ hevent,
          fun hundone => hundone.mono fun event hevent habout => ?_⟩
        rcases List.mem_append.mp hevent with hfirst | hrest
        · exact absurd (List.mem_singleton.mp (hturn.aboutOnly event hfirst _ habout))
            (hother tried hlater)
        · exact hrest

/-- The listings are about no chunk. -/
theorem mem_turns_of_about {maxReplicas : UInt32} {event : Transition} {s₁ s₂ : Services}
    (hevent : event ∈
      (⟨s, .metadata (.listUnderReplicatedChunks maxReplicas), .ok chunks, s₁⟩ ::
        ⟨s₁, .metadata .listStorageNodes, .ok nodes, s₂⟩ :: events : List Transition))
    (habout : chunkIdOf event.request = some id) : event ∈ events := by
  rcases List.mem_cons.mp hevent with heq | hlater
  · rw [heq] at habout
    cases habout
  rcases List.mem_cons.mp hlater with heq | hlater
  · rw [heq] at habout
    cases habout
  · exact hlater

/-- The listings in front of the turns undo nothing. -/
theorem undone_listed_iff {maxReplicas : UInt32} {s₁ s₂ : Services} :
    Undone home
        (⟨s, .metadata (.listUnderReplicatedChunks maxReplicas), .ok chunks, s₁⟩ ::
          ⟨s₁, .metadata .listStorageNodes, .ok nodes, s₂⟩ :: events) id ↔
      Undone home events id := by
  constructor
  · exact fun hundone => hundone.mono fun event hevent habout => mem_turns_of_about hevent habout
  · exact fun hundone => hundone.mono fun event hevent _ =>
      List.mem_cons_of_mem _ (List.mem_cons_of_mem _ hevent)

/-- Reads make no difference. -/
theorem AllStoredAt.of_same (hsame : SameServices s s') :
    AllStoredAt env home s' id ↔ AllStoredAt env home s id :=
  AllStoredAt.congr (by rw [hsame.memory.chunks]) fun address => hsame.dataAt address id

/-- The listed checksums are those of the records. -/
theorem Neediest.checksum_eq {maxChunksPerCycle : Nat} {tried : List UnderReplicatedChunk}
    (h : Neediest s maxChunksPerCycle tried) (hchunk : chunk ∈ tried) {record : MetaChunk}
    (hrecord : s.metadata.metadataStore.chunks[chunk.chunkId]? = some record) :
    record.checksum = chunk.checksum := by
  rcases h.needy chunk hchunk with ⟨listed, hneedy, hlisting⟩
  rw [hneedy.stored] at hrecord
  rw [← Option.some.inj hrecord, hlisting, listingOf]

/-- After a cycle a recorded replica is missing exactly if one was undone. -/
theorem Cycled.storedAt_iff {maxChunksPerCycle : Nat}
    (h : Cycled env faults maxChunksPerCycle s events s') (hkeyed : ChunksKeyed s)
    (hlocated : Located home s) (hstored : ∀ id, AllStoredAt env home s id) (id : UInt64) :
    AllStoredAt env home s' id ↔ ¬ Undone home events id := by
  cases h with
  | idle hsame hlists =>
      have hkept := (AllStoredAt.of_same hsame).mpr (hstored id)
      refine iff_of_true hkept (not_undone fun event hevent nodeId hrequest => ?_)
      have hlist := hlists event hevent
      rw [hrequest] at hlist
      exact hlist.elim
  | @tried chunks nodes turns s₁ s₂ _ hchunks hnodes hturns =>
      have hlisted := hchunks.reads trivial
      have hsame := hlisted.trans (hnodes.reads trivial)
      rcases hchunks.chunks_listed with ⟨hperm, hsorted⟩
      have hneediest := neediest_take hkeyed hperm hsorted maxChunksPerCycle
      have hbefore : ∀ other, AllStoredAt env home s₂ other := fun other =>
        (AllStoredAt.of_same hsame).mpr (hstored other)
      rw [undone_listed_iff]
      by_cases hid : id ∈ (chunks.take maxChunksPerCycle).map (·.chunkId)
      · rcases List.mem_map.mp hid with ⟨chunk, hchunk, heq⟩
        subst heq
        have haddresses : ∀ node ∈ nodes, home node.id = node.address := by
          intro node hnode
          refine hlocated node ?_
          rw [← hlisted.listStorageNodes]
          exact hnodes.nodes_listed.mem_iff.mp hnode
        have hchecksum : ∀ tried ∈ chunks.take maxChunksPerCycle, ∀ record,
            s₂.metadata.metadataStore.chunks[tried.chunkId]? = some record →
              record.checksum = tried.checksum := by
          intro tried htried record hrecord
          rw [hsame.memory.chunks] at hrecord
          exact hneediest.checksum_eq htried hrecord
        exact hturns.storedAt_iff haddresses hneediest.distinct hchecksum
          (fun tried _ => hbefore tried.chunkId) chunk hchunk
      · have hkept : AllStoredAt env home s' id := (hturns.storedAt_other hid).mpr (hbefore id)
        refine iff_of_true hkept (not_undone fun event hevent nodeId hrequest => ?_)
        have habout : chunkIdOf event.request = some id := by rw [hrequest]; rfl
        exact absurd (hturns.aboutOnly event hevent id habout) hid

/-- A call that records a replica and reports an error has not recorded it. -/
def RefusedWithoutEffect (trace : List Transition) : Prop :=
  ∀ event ∈ trace, ∀ id nodeId : UInt64,
    event.request = .metadata (.addChunkReplica id nodeId) → event.request.Fails event.reply →
      event.after.metadata.metadataStore.chunks[id]? =
        event.before.metadata.metadataStore.chunks[id]?

/-- For every cycle on a state in which all recorded replicas exist, however its calls fail: when
no failing call has recorded a replica, all recorded replicas exist at its end.  They exist
exactly if no replica that a failing call has recorded was deleted by the clean-up behind it. -/
theorem cleanup_keeps_replicas_iff (env : Environment) (home : UInt64 → String)
    (maxChunksPerCycle : Nat) (s : Services) (hkeyed : ChunksKeyed s) (hlocated : Located home s)
    (hstored : ReplicasStored env home (fun _ => True) s) (result : Except String CycleReport)
    (s' : Services) (trace : List Transition)
    (hrun : (runReplicationCycle env.crc32 maxChunksPerCycle).Runs
      (Library.Traced (Step env .any)) (s, []) result (s', trace)) :
    (RefusedWithoutEffect trace → ReplicasStored env home (fun _ => True) s') ∧
      (ReplicasStored env home (fun _ => True) s' ↔ ∀ id, ¬ Undone home trace id) := by
  have hiff : ReplicasStored env home (fun _ => True) s' ↔ ∀ id, ¬ Undone home trace id := by
    rcases hrun.ensuresTraced (runReplicationCycle_cycled env .any maxChunksPerCycle s) with
      ⟨events, htrace, hcycled⟩
    rw [List.nil_append] at htrace
    subst htrace
    exact forall_congr' (hcycled.storedAt_iff hkeyed hlocated hstored)
  refine ⟨fun hrefused => hiff.mpr ?_, hiff⟩
  rintro id ⟨added, hadded, nodeId, hrequest, hfails, hchanged, _⟩
  exact hchanged (hrefused added hadded id nodeId hrequest hfails)

/-! ## A copy and a lost answer -/

/-- The condition is met where failures have no effect. -/
theorem refusedWithoutEffect {α : Type} {program : Program α} {value : α} {trace : List Transition}
    (hrun : program.Runs (Library.Traced (Step env .withoutEffect)) (s, []) value (s', trace)) :
    RefusedWithoutEffect trace := by
  rcases hrun.ensuresTraced (program.ensuresTraced_steps s) with ⟨events, htrace, hsteps⟩
  rw [List.nil_append] at htrace
  subst htrace
  rintro ⟨before, request, reply, after⟩ hevent id nodeId hrequest hfails
  have hstep := hsteps _ hevent
  dsimp only at hrequest hfails hstep ⊢
  subst hrequest
  rcases hfails with ⟨status, hstatus⟩
  subst hstatus
  have hfaults : Faults.withoutEffect ≠ .any := by decide
  rcases hstep.metadata_effect hfaults with ⟨_, _, m, heffect, hmemory⟩
  cases heffect
  rw [hmemory.chunks]

/-- A cycle that copies the chunk to the second storage node. -/
theorem cleanup_keeps_replicas_iff_copied :
    ∃ (report : CycleReport) (s' : Services), report.outcomes = [.replicated] ∧
      (runReplicationCycle plainEnvironment.crc32 100).Runs (Step plainEnvironment .withoutEffect)
        oneReplica (.ok report) s' ∧
      ReplicasStored plainEnvironment oneReplicaHome (fun _ => True) s' := by
  rcases oneReplica_copied with ⟨report, s', hreport, hruns⟩
  rcases hruns.traced [] with ⟨trace, htraced⟩
  have hany := htraced.mono fun _ _ _ _ hstep => And.imp_left Step.any hstep
  have hkept := cleanup_keeps_replicas_iff plainEnvironment oneReplicaHome 100 oneReplica
    oneReplica_keyed oneReplica_located (oneReplica_stored _) _ s' trace hany
  exact ⟨report, s', hreport, hruns, hkept.1 (refusedWithoutEffect htraced)⟩

/-- A call that takes effect; its answer may be lost. -/
def serveOrLose (env : Environment) (s : Services) (call : Call) (answered : Bool) :
    Option (call.Reply × Services) :=
  match s.serve env .plain call with
  | none => none
  | some (reply, s') =>
      if answered then some (reply, s')
      else (call.failure "timed out").map fun reply => (reply, s')

/-- A scripted call is served, with or without its reply. -/
theorem serveOrLose_step (env : Environment) (s : Services) (call : Call) (answered : Bool)
    (reply : call.Reply) (s' : Services)
    (h : serveOrLose env s call answered = some (reply, s')) : Step env .any s call reply s' := by
  unfold serveOrLose at h
  split at h
  · cases h
  · rename_i found t hserve
    split at h
    · cases h
      exact .served (.inl rfl) hserve
    · rcases Option.map_eq_some_iff.mp h with ⟨failure, hfailure, heq⟩
      cases heq
      refine .lost rfl hserve ?_
      cases call <;> cases hfailure <;> exact ⟨_, rfl⟩

/-- The new replica is recorded, the answer is lost, and the clean-up deletes the copy. -/
theorem lost_answer_destroys_replica :
    ReplicasStored plainEnvironment oneReplicaHome (fun _ => True) oneReplica ∧
      ∃ (result : Except String CycleReport) (s' : Services),
        (runReplicationCycle plainEnvironment.crc32 100).Runs (Step plainEnvironment .any)
          oneReplica result s' ∧
        ¬ ReplicasStored plainEnvironment oneReplicaHome (fun _ => True) s' := by
  refine ⟨oneReplica_stored _, ?_⟩
  let script := List.replicate 10 true ++ [false, true, true]
  have hrun : ((runReplicationCycle plainEnvironment.crc32 100).replay
      (serveOrLose plainEnvironment) script oneReplica).any (fun (_, s') =>
        decide (s'.metadata.metadataStore.chunks[(10 : UInt64)]? =
            some ⟨10, "a", Library.crc32 [104], [1, 2], .confirmed⟩) &&
          decide (s'.dataAt "http://node-b:50051" 10 = none)) = true := by
    decide +kernel
  rcases (Option.any_eq_true _ _).mp hrun with ⟨⟨result, s'⟩, hreplay, hcheck⟩
  rw [Bool.and_eq_true, decide_eq_true_iff, decide_eq_true_iff] at hcheck
  have hruns := Library.Program.runs_of_replay (serveOrLose_step plainEnvironment) hreplay
  refine ⟨result, s', hruns, fun hstored => ?_⟩
  rcases hstored 10 _ hcheck.1 trivial 2 (by simp) with ⟨bytes, hbytes, _⟩
  have hhome : oneReplicaHome 2 = "http://node-b:50051" := by decide
  rw [hhome, hcheck.2] at hbytes
  cases hbytes

end ReplicationService
end ObjectStore
