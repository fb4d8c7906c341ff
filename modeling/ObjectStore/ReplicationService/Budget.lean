import ObjectStore.ReplicationService.Turns
import ObjectStore.StorageMetadata.UnderReplication

/-!
# Replication service - The budget of a cycle

The metadata node lists the chunks with few replicas first, and a cycle tries the first of them,
up to its limit.  A chunk that is tried gains at most one replica, on a storage node that it was
not listed with, and only once a copy with the recorded checksum has been written there.

Main definitions:

- `Neediest`: the chunks that a cycle may spend its budget on.
- `RecordedAfterWrite`: the order of the calls behind a new replica.
- `AttemptedFor`: what an attempt at a chunk may do, and that it is one.

Main results:

- Theorem `Turn.records`: what a turn makes of the records.
- Theorem `Turn.replicated_iff`: which turns count as replications.
- Theorem `cycle_tries_neediest_chunks`: the budget goes to the neediest chunks.
-/

namespace ObjectStore
namespace ReplicationService

open Deployment (Call Environment Faults Program SameServices Services Step)
open StorageMetadata (MetaChunk)
open StorageMetadata.Proto (MetaStorageNode UnderReplicatedChunk)

variable {env : Environment} {faults : Faults} {nodes : List MetaStorageNode}
  {chunk : UnderReplicatedChunk} {chunks : List UnderReplicatedChunk} {s s' : Services}
  {outcome : ChunkOutcome} {events : List Transition} {maxChunksPerCycle : Nat}

/-! ## The listing -/

/-- The record of a chunk that replication is for. -/
structure Needy (s : Services) (id : UInt64) (record : MetaChunk) : Prop where
  stored : s.metadata.metadataStore.chunks[id]? = some record
  confirmed : record.status = .confirmed
  short : record.storageNodes.length < 3

/-- The listed chunk of a record. -/
def listingOf (record : MetaChunk) : UnderReplicatedChunk :=
  ⟨record.id, record.checksum, record.storageNodes⟩

/-- The listing has an entry for each under-replicated record. -/
theorem listUnderReplicatedChunks_perm (s : Services) :
    (s.metadata.listUnderReplicatedChunks MAX_REPLICAS).Perm
      ((s.metadata.metadataStore.listUnderReplicatedChunks 3).map listingOf) :=
  List.perm_insertionSort _ _

/-- An entry of the listing is that of a needy record. -/
theorem mem_listing :
    chunk ∈ s.metadata.listUnderReplicatedChunks MAX_REPLICAS ↔
      ∃ id record, Needy s id record ∧ chunk = listingOf record := by
  rw [(listUnderReplicatedChunks_perm s).mem_iff, List.mem_map]
  constructor
  · rintro ⟨record, hrecord, heq⟩
    rcases StorageMetadata.mem_listUnderReplicatedChunks.mp hrecord with
      ⟨⟨id, hid⟩, hstatus, hshort⟩
    exact ⟨id, record, ⟨hid, hstatus, hshort⟩, heq.symm⟩
  · rintro ⟨id, record, hneedy, heq⟩
    refine ⟨record, StorageMetadata.mem_listUnderReplicatedChunks.mpr ?_, heq.symm⟩
    exact ⟨⟨id, hneedy.stored⟩, hneedy.confirmed, hneedy.short⟩

/-- Records are listed once each. -/
theorem nodup_listing (hkeyed : ChunksKeyed s) :
    ((s.metadata.listUnderReplicatedChunks MAX_REPLICAS).map (·.chunkId)).Nodup := by
  have hids : (s.metadata.metadataStore.chunks.valueList.map MetaChunk.id).Nodup :=
    HashMap.nodup_map_valueList _ hkeyed
  rw [((listUnderReplicatedChunks_perm s).map _).nodup_iff, List.map_map,
    StorageMetadata.MetadataStore.listUnderReplicatedChunks,
    ((List.perm_insertionSort _ _).map _).nodup_iff]
  exact hids.sublist (List.filter_sublist.map MetaChunk.id)

/-- The chunks that a cycle tries: at most as many as the limit says, each with too few replicas,
those with the fewest first, and none with more replicas than one that is left out. -/
structure Neediest (s : Services) (maxChunksPerCycle : Nat) (tried : List UnderReplicatedChunk) :
    Prop where
  limit : tried.length ≤ maxChunksPerCycle
  distinct : (tried.map (·.chunkId)).Nodup
  needy : ∀ chunk ∈ tried, ∃ record, Needy s chunk.chunkId record ∧ chunk = listingOf record
  sorted : tried.Pairwise fun a b =>
    a.currentStorageNodeIds.length ≤ b.currentStorageNodeIds.length
  first : ∀ id record, Needy s id record → id ∉ tried.map (·.chunkId) →
    ∀ chunk ∈ tried, chunk.currentStorageNodeIds.length ≤ record.storageNodes.length

/-- Nothing is among the neediest chunks of a cycle without attempts. -/
theorem neediest_nil (s : Services) (maxChunksPerCycle : Nat) :
    Neediest s maxChunksPerCycle [] where
  limit := Nat.zero_le _
  distinct := List.nodup_nil
  needy := by simp
  sorted := List.Pairwise.nil
  first := by simp

/-- The first chunks of a listing. -/
theorem neediest_take (hkeyed : ChunksKeyed s)
    (hchunks : chunks.Perm (s.metadata.listUnderReplicatedChunks MAX_REPLICAS))
    (hsorted : chunks.Pairwise fun a b =>
      a.currentStorageNodeIds.length ≤ b.currentStorageNodeIds.length) (maxChunksPerCycle : Nat) :
    Neediest s maxChunksPerCycle (chunks.take maxChunksPerCycle) where
  limit := List.length_take_le _ _
  distinct := by
    have hall := ((hchunks.map _).nodup_iff).mpr (nodup_listing hkeyed)
    exact hall.sublist ((List.take_sublist _ _).map _)
  needy := by
    intro chunk hchunk
    rcases mem_listing.mp (hchunks.mem_iff.mp (List.mem_of_mem_take hchunk)) with
      ⟨id, record, hneedy, heq⟩
    have hid : record.id = id := hkeyed id record hneedy.stored
    refine ⟨record, ?_, heq⟩
    rw [heq, listingOf, hid]
    exact hneedy
  sorted := hsorted.sublist (List.take_sublist _ _)
  first := by
    intro id record hneedy hout chunk hchunk
    have hid : record.id = id := hkeyed id record hneedy.stored
    have hlisted : listingOf record ∈ chunks :=
      hchunks.mem_iff.mpr (mem_listing.mpr ⟨id, record, hneedy, rfl⟩)
    rw [← List.take_append_drop maxChunksPerCycle chunks] at hlisted hsorted
    rcases List.mem_append.mp hlisted with htried | hrest
    · exact absurd (List.mem_map.mpr ⟨listingOf record, htried, hid⟩) hout
    · exact (List.pairwise_append.mp hsorted).2.2 chunk hchunk (listingOf record) hrest

/-! ## The records -/

/-- A copy with the recorded checksum was at the target when the replica was recorded. -/
def RecordedAfterWrite (env : Environment) (chunk : UnderReplicatedChunk)
    (target : MetaStorageNode) (events : List Transition) : Prop :=
  ∃ before added after, events = before ++ added :: after ∧
    added.request = .metadata (.addChunkReplica chunk.chunkId target.id) ∧
    ∃ written ∈ before, ∃ bytes,
      written.request = .storageNode target.address (.writeChunk chunk.chunkId bytes) ∧
      written.after.dataAt target.address chunk.chunkId = some bytes ∧
      env.crc32 bytes = chunk.checksum

theorem RecordedAfterWrite.append {target : MetaStorageNode}
    (h : RecordedAfterWrite env chunk target events) (later : List Transition) :
    RecordedAfterWrite env chunk target (events ++ later) := by
  rcases h with ⟨before, added, after, hevents, hrest⟩
  refine ⟨before, added, after ++ later, ?_, hrest⟩
  rw [hevents, List.append_assoc, List.cons_append]

theorem RecordedAfterWrite.prepend {target : MetaStorageNode}
    (h : RecordedAfterWrite env chunk target events) (earlier : List Transition) :
    RecordedAfterWrite env chunk target (earlier ++ events) := by
  rcases h with ⟨before, added, after, hevents, hadded, written, hwritten, hrest⟩
  refine ⟨earlier ++ before, added, after, ?_, hadded, written, ?_, hrest⟩
  · rw [hevents, List.append_assoc]
  · exact List.mem_append_right _ hwritten

/-- The record is as before, or it has one more replica, at a target of the turn. -/
def GainsAtMostOne (env : Environment) (nodes : List MetaStorageNode)
    (chunk : UnderReplicatedChunk) (s : Services) (events : List Transition) (s' : Services) :
    Prop :=
  s'.metadata.metadataStore.chunks[chunk.chunkId]? =
      s.metadata.metadataStore.chunks[chunk.chunkId]? ∨
    ∃ record target, IsTarget nodes chunk target ∧
      s.metadata.metadataStore.chunks[chunk.chunkId]? = some record ∧
      s'.metadata.metadataStore.chunks[chunk.chunkId]? =
        some (record.addStorageNode target.id) ∧
      RecordedAfterWrite env chunk target events

/-- A cleanup leaves the metadata alone. -/
theorem CleanedUp.metadata_eq {address : String} {id : UInt64}
    (h : CleanedUp env faults address id s events s') : s'.metadata = s.metadata := by
  cases h with
  | unreached hconnect => rw [hconnect.metadata_eq (by simp)]
  | tried hconnect hdelete => rw [hdelete.metadata_eq (by simp), hconnect.metadata_eq (by simp)]

/-- The calls behind a new replica are in order. -/
theorem recordedAfterWrite_of_steps {target : MetaStorageNode} {looks cleanup : List Transition}
    {bytes : Bytes} {id : UInt64} {reply : Except Status Unit} {s₁ s₂ s₃ : Services}
    (hbytes : env.crc32 bytes = chunk.checksum)
    (hwrite : Step env faults s₁ (.storageNode target.address (.writeChunk chunk.chunkId bytes))
      (.ok id) s₂) :
    RecordedAfterWrite env chunk target
      (looks ++ ⟨s₁, .storageNode target.address (.writeChunk chunk.chunkId bytes), .ok id, s₂⟩ ::
        ⟨s₂, .metadata (.addChunkReplica chunk.chunkId target.id), reply, s₃⟩ :: cleanup) := by
  refine ⟨_, _, _, List.append_cons .., rfl, _,
    List.mem_append_right _ (List.mem_singleton_self _), bytes, rfl, ?_, hbytes⟩
  rw [hwrite.written.2, if_pos ⟨rfl, rfl⟩]

/-- What a turn makes of the records. -/
theorem Turn.records (h : Turn env faults nodes chunk s outcome events s') :
    (∀ id, id ≠ chunk.chunkId →
        s'.metadata.metadataStore.chunks[id]? = s.metadata.metadataStore.chunks[id]?) ∧
      GainsAtMostOne env nodes chunk s events s' := by
  have hsame : s'.metadata.metadataStore.chunks = s.metadata.metadataStore.chunks →
      (∀ id, id ≠ chunk.chunkId →
        s'.metadata.metadataStore.chunks[id]? = s.metadata.metadataStore.chunks[id]?) ∧
      GainsAtMostOne env nodes chunk s events s' := by
    intro hchunks
    exact ⟨fun id _ => by rw [hchunks], .inl (by rw [hchunks])⟩
  have hadds : ∀ {target : MetaStorageNode} {record : MetaChunk}, IsTarget nodes chunk target →
      s.metadata.metadataStore.chunks[chunk.chunkId]? = some record →
      s'.metadata.metadataStore.chunks = s.metadata.metadataStore.chunks.insert chunk.chunkId
        (record.addStorageNode target.id) →
      RecordedAfterWrite env chunk target events →
      (∀ id, id ≠ chunk.chunkId →
        s'.metadata.metadataStore.chunks[id]? = s.metadata.metadataStore.chunks[id]?) ∧
      GainsAtMostOne env nodes chunk s events s' := by
    intro target record htarget hrecord hchunks hwritten
    constructor
    · intro id hne
      rw [hchunks]
      exact HashMap.getElem?_insert_of_ne _ _ hne
    · refine .inr ⟨record, target, htarget, hrecord, ?_, hwritten⟩
      rw [hchunks]
      exact Std.ExtTreeMap.getElem?_insert_self
  cases h with
  | looked houtcome hlooked => exact hsame hlooked.same.memory.chunks
  | refused hlooked htarget hbytes hwrite =>
      refine hsame ?_
      rw [hwrite.metadata_eq (by simp)]
      exact hlooked.same.memory.chunks
  | recorded hlooked htarget hbytes hwrite hadd =>
      have hchunks := hadd.addChunkReplica_chunks
      rw [hwrite.metadata_eq (by simp), hlooked.same.memory.chunks] at hchunks
      rcases hchunks with ⟨⟨_, herror⟩, _⟩ | ⟨record, hrecord, hchunks⟩
      · cases herror
      · exact hadds htarget hrecord hchunks (recordedAfterWrite_of_steps hbytes hwrite)
  | cleaned hlooked htarget hbytes hwrite hadd hcleanup =>
      have hchunks := hadd.addChunkReplica_chunks
      rw [hwrite.metadata_eq (by simp), hlooked.same.memory.chunks,
        ← hcleanup.metadata_eq] at hchunks
      rcases hchunks with ⟨_, hchunks⟩ | ⟨record, hrecord, hchunks⟩
      · exact hsame hchunks
      · exact hadds htarget hrecord hchunks (recordedAfterWrite_of_steps hbytes hwrite)

/-- What the turns of different chunks make of the records. -/
theorem Turns.records (h : Turns env faults nodes chunks s events s')
    (hdistinct : (chunks.map (·.chunkId)).Nodup) :
    (∀ id, id ∉ chunks.map (·.chunkId) →
        s'.metadata.metadataStore.chunks[id]? = s.metadata.metadataStore.chunks[id]?) ∧
      ∀ chunk ∈ chunks, GainsAtMostOne env nodes chunk s events s' := by
  induction h with
  | nil s => simp
  | @cons chunk chunks s s₁ s' outcome events rest hturn hturns ih =>
      rcases List.nodup_cons.mp hdistinct with ⟨hnew, hdistinct⟩
      rcases hturn.records with ⟨hother, hown⟩
      rcases ih hdistinct with ⟨hothers, howns⟩
      constructor
      · intro id hid
        rw [List.map_cons, List.mem_cons, not_or] at hid
        rw [hothers id hid.2, hother id hid.1]
      · intro tried htried
        rcases List.mem_cons.mp htried with heq | hlater
        · rw [heq]
          have hkept := hothers _ hnew
          rcases hown with hsame | ⟨record, target, htarget, hrecord, hgained, hwritten⟩
          · exact .inl (hkept.trans hsame)
          · exact .inr ⟨record, target, htarget, hrecord, hkept.trans hgained,
              hwritten.append rest⟩
        · have hne : tried.chunkId ≠ chunk.chunkId := by
            intro heq
            exact hnew (List.mem_map.mpr ⟨tried, hlater, heq⟩)
          have hkept := hother _ hne
          rcases howns tried hlater with
            hsame | ⟨record, target, htarget, hrecord, hgained, hwritten⟩
          · exact .inl (hsame.trans hkept)
          · exact .inr ⟨record, target, htarget, hkept ▸ hrecord, hgained,
              hwritten.prepend events⟩

/-! ## The calls -/

/-- The chunk that a call is about. -/
def chunkIdOf : Call → Option UInt64
  | .metadata (.addChunkReplica id _) | .metadata (.confirmChunk id _ _ _)
  | .metadata (.deleteChunk id) => some id
  | .storageNode _ (.readChunk id) | .storageNode _ (.writeChunk id _)
  | .storageNode _ (.deleteChunk id) => some id
  | _ => none

/-- Calls that are about no chunk, or about one of these. -/
def AboutOnly (ids : List UInt64) (call : Call) : Prop :=
  ∀ id, chunkIdOf call = some id → id ∈ ids

theorem LooksFor.aboutOnly {id : UInt64} {call : Call} (h : LooksFor id call) :
    AboutOnly [id] call := by
  intro other hother
  cases call with
  | metadata call => cases call <;> first | exact h.elim | cases hother
  | storageNode address call =>
      cases call with
      | readChunk read =>
          cases hother
          exact List.mem_singleton.mpr h
      | getFreeChunks => cases hother
      | _ => exact h.elim
  | _ => cases hother

theorem Lists.aboutOnly {ids : List UInt64} {call : Call} (h : Lists call) :
    AboutOnly ids call := by
  intro other hother
  cases call with
  | metadata call => cases call <;> first | exact h.elim | cases hother
  | _ => exact h.elim

/-- A cleanup is about its chunk. -/
theorem CleanedUp.aboutOnly {address : String} {id : UInt64}
    (h : CleanedUp env faults address id s events s') :
    ∀ event ∈ events, AboutOnly [id] event.request := by
  cases h with
  | unreached hconnect => simp [AboutOnly, chunkIdOf]
  | tried hconnect hdelete => simp [AboutOnly, chunkIdOf]

/-- A turn is about its chunk. -/
theorem Turn.aboutOnly (h : Turn env faults nodes chunk s outcome events s') :
    ∀ event ∈ events, AboutOnly [chunk.chunkId] event.request := by
  have hlooks : ∀ {looks : List Transition} {s₁ : Services},
      Looked chunk.chunkId s looks s₁ → ∀ event ∈ looks, AboutOnly [chunk.chunkId] event.request :=
    fun hlooked event hevent => (hlooked.looks event hevent).aboutOnly
  cases h with
  | looked houtcome hlooked => exact hlooks hlooked
  | refused hlooked htarget hbytes hwrite =>
      refine List.forall_mem_append.mpr ⟨hlooks hlooked, ?_⟩
      simp [AboutOnly, chunkIdOf]
  | recorded hlooked htarget hbytes hwrite hadd =>
      refine List.forall_mem_append.mpr ⟨hlooks hlooked, ?_⟩
      simp [AboutOnly, chunkIdOf]
  | cleaned hlooked htarget hbytes hwrite hadd hcleanup =>
      refine List.forall_mem_append.mpr ⟨hlooks hlooked, ?_⟩
      refine List.forall_mem_cons.mpr ⟨by simp [AboutOnly, chunkIdOf], ?_⟩
      exact List.forall_mem_cons.mpr ⟨by simp [AboutOnly, chunkIdOf], hcleanup.aboutOnly⟩

/-- The turns are about the chunks of the cycle. -/
theorem Turns.aboutOnly (h : Turns env faults nodes chunks s events s') :
    ∀ event ∈ events, AboutOnly (chunks.map (·.chunkId)) event.request := by
  induction h with
  | nil s => simp
  | cons hturn hturns ih =>
      intro event hevent id hid
      rcases List.mem_append.mp hevent with hfirst | hrest
      · rw [List.mem_singleton.mp (hturn.aboutOnly event hfirst id hid)]
        exact List.mem_cons_self
      · exact List.mem_cons_of_mem _ (ih event hrest id hid)

/-! ## The attempts -/

theorem LooksFor.ne_addChunkReplica {id nodeId : UInt64} {call : Call} (h : LooksFor id call)
    (other : UInt64) : call ≠ .metadata (.addChunkReplica other nodeId) := by
  intro heq
  rw [heq] at h
  exact h

/-- A cleanup records no replica. -/
theorem CleanedUp.ne_addChunkReplica {address : String} {id nodeId : UInt64}
    (h : CleanedUp env faults address id s events s') (other : UInt64) :
    ∀ event ∈ events, event.request ≠ .metadata (.addChunkReplica other nodeId) := by
  cases h with
  | unreached hconnect => simp
  | tried hconnect hdelete => simp

/-- The calls of a turn record a replica, and are told so. -/
def Records (nodes : List MetaStorageNode) (chunk : UnderReplicatedChunk)
    (events : List Transition) : Prop :=
  ∃ target, IsTarget nodes chunk target ∧ ∃ event ∈ events,
    event.request = .metadata (.addChunkReplica chunk.chunkId target.id) ∧
      ¬ event.request.Fails event.reply

/-- Only the turn that has recorded a replica counts as one. -/
theorem Turn.replicated_iff (h : Turn env faults nodes chunk s outcome events s') :
    outcome = .replicated ↔ Records nodes chunk events := by
  have hlooks : ∀ {looks : List Transition} {s₁ : Services}, Looked chunk.chunkId s looks s₁ →
      ∀ event ∈ looks, ∀ nodeId,
        event.request ≠ .metadata (.addChunkReplica chunk.chunkId nodeId) :=
    fun hlooked event hevent nodeId => (hlooked.looks event hevent).ne_addChunkReplica _
  cases h with
  | looked houtcome hlooked =>
      refine iff_of_false houtcome ?_
      rintro ⟨target, _, event, hevent, hrequest, _⟩
      exact hlooks hlooked event hevent _ hrequest
  | refused hlooked htarget hbytes hwrite =>
      refine iff_of_false nofun ?_
      rintro ⟨target, _, event, hevent, hrequest, _⟩
      rcases List.mem_append.mp hevent with hlook | hlast
      · exact hlooks hlooked event hlook _ hrequest
      · rw [List.mem_singleton.mp hlast] at hrequest
        cases hrequest
  | recorded hlooked htarget hbytes hwrite hadd =>
      refine iff_of_true rfl ⟨_, htarget, _, List.mem_append_right _ (List.mem_cons_of_mem _
        (List.mem_singleton_self _)), rfl, ?_⟩
      rintro ⟨status, hstatus⟩
      cases hstatus
  | cleaned hlooked htarget hbytes hwrite hadd hcleanup =>
      refine iff_of_false nofun ?_
      rintro ⟨target, _, event, hevent, hrequest, hanswered⟩
      rcases List.mem_append.mp hevent with hlook | hlater
      · exact hlooks hlooked event hlook _ hrequest
      rcases List.mem_cons.mp hlater with heq | hlater
      · rw [heq] at hrequest
        cases hrequest
      rcases List.mem_cons.mp hlater with heq | hlater
      · subst heq
        exact hanswered ⟨_, rfl⟩
      · exact hcleanup.ne_addChunkReplica _ event hlater hrequest

/-- An attempt at a chunk: its calls are about this chunk, it passes the chunk over only when
every storage node has it, it counts as a replication exactly if a replica was recorded, and it
changes no other record. -/
structure AttemptedFor (env : Environment) (nodes : List MetaStorageNode) (attempt : Attempt) :
    Prop where
  about : ∀ event ∈ attempt.events, AboutOnly [attempt.chunk.chunkId] event.request
  begins : Begins nodes attempt.chunk attempt.outcome attempt.events
  replicated_iff : attempt.outcome = .replicated ↔ Records nodes attempt.chunk attempt.events
  gains : GainsAtMostOne env nodes attempt.chunk attempt.before attempt.events attempt.after
  others : ∀ id, id ≠ attempt.chunk.chunkId →
    attempt.after.metadata.metadataStore.chunks[id]? =
      attempt.before.metadata.metadataStore.chunks[id]?

/-- An attempt is about its chunk, and records a replica only behind a write. -/
theorem Attempt.Ran.attempted {attempt : Attempt} (h : attempt.Ran env faults nodes) :
    AttemptedFor env nodes attempt where
  about := h.turn.aboutOnly
  begins := h.begins
  replicated_iff := h.turn.replicated_iff
  gains := h.turn.records.2
  others := h.turn.records.1

/-- The order of the listed storage nodes does not matter. -/
theorem AttemptedFor.of_mem_iff {nodes' : List MetaStorageNode} {attempt : Attempt}
    (h : AttemptedFor env nodes attempt) (hmem : ∀ node, node ∈ nodes ↔ node ∈ nodes') :
    AttemptedFor env nodes' attempt := by
  have htargets : IsTarget nodes = IsTarget nodes' := by
    funext chunk target
    exact propext ⟨fun htarget => ⟨(hmem _).mp htarget.listed, htarget.other⟩,
      fun htarget => ⟨(hmem _).mpr htarget.listed, htarget.other⟩⟩
  have hgains := h.gains
  have hiff := h.replicated_iff
  rw [GainsAtMostOne, htargets] at hgains
  rw [Records, htargets] at hiff
  exact ⟨h.about, ⟨htargets ▸ h.begins.passed, htargets ▸ h.begins.chosen⟩, hiff, hgains, h.others⟩

/-! ## The budget -/

section

variable {result : Except String CycleReport} {attempts : List Attempt} {trace : List Transition}

/-- The report has the outcomes of the attempts. -/
theorem Tries.outcomes (h : Tries env faults maxChunksPerCycle s result attempts trace s')
    {report : CycleReport} (hreport : result = .ok report) :
    report.outcomes = attempts.map (·.outcome) := by
  cases h <;> cases hreport <;> rfl

/-- The chunks that are tried are the first ones of the sorted listing. -/
theorem Tries.neediest (h : Tries env faults maxChunksPerCycle s result attempts trace s')
    (hkeyed : ChunksKeyed s) : Neediest s maxChunksPerCycle (attempts.map (·.chunk)) := by
  cases h with
  | looped hchunks _ hnodes _ htaken hattempts =>
      rcases hchunks.chunks_listed with ⟨hperm, hsorted⟩
      rw [htaken]
      exact neediest_take hkeyed hperm hsorted maxChunksPerCycle
  | _ => exact neediest_nil s maxChunksPerCycle

/-- No call is about a chunk that is not tried. -/
theorem Tries.aboutOnly (h : Tries env faults maxChunksPerCycle s result attempts trace s') :
    ∀ event ∈ trace, AboutOnly (attempts.map (·.chunk.chunkId)) event.request := by
  have hfirst : Lists (.metadata (.listUnderReplicatedChunks MAX_REPLICAS)) := trivial
  have hsecond : Lists (.metadata .listStorageNodes) := trivial
  cases h with
  | unlisted hchunks | nothing hchunks => exact List.forall_mem_singleton.mpr hfirst.aboutOnly
  | nodesUnlisted hchunks _ hnodes | noNodes hchunks _ hnodes =>
      exact List.forall_mem_cons.mpr ⟨hfirst.aboutOnly,
        List.forall_mem_singleton.mpr hsecond.aboutOnly⟩
  | looped hchunks _ hnodes _ htaken hattempts =>
      have hturns := hattempts.turns.aboutOnly
      rw [List.map_map] at hturns
      exact List.forall_mem_cons.mpr ⟨hfirst.aboutOnly,
        List.forall_mem_cons.mpr ⟨hsecond.aboutOnly, hturns⟩⟩

/-- What a cycle makes of the records. -/
theorem Tries.records (h : Tries env faults maxChunksPerCycle s result attempts trace s')
    (hkeyed : ChunksKeyed s) :
    (∀ id, id ∉ attempts.map (·.chunk.chunkId) →
        s'.metadata.metadataStore.chunks[id]? = s.metadata.metadataStore.chunks[id]?) ∧
      ∀ attempt ∈ attempts, AttemptedFor env s.metadata.listStorageNodes attempt ∧
        GainsAtMostOne env s.metadata.listStorageNodes attempt.chunk s trace s' := by
  have hneediest := h.neediest hkeyed
  cases h with
  | unlisted hchunks | nothing hchunks =>
      exact ⟨fun id _ => by rw [(hchunks.reads trivial).memory.chunks], by simp⟩
  | nodesUnlisted hchunks _ hnodes | noNodes hchunks _ hnodes =>
      have hsame := (hchunks.reads trivial).trans (hnodes.reads trivial)
      exact ⟨fun id _ => by rw [hsame.memory.chunks], by simp⟩
  | @looped chunks nodes _ s₁ s₂ _ hchunks _ hnodes _ htaken hattempts =>
      have hlisted := hchunks.reads trivial
      have hsame := hlisted.trans (hnodes.reads trivial)
      have hregistered : ∀ node, node ∈ nodes ↔ node ∈ s.metadata.listStorageNodes := by
        intro node
        rw [← hlisted.listStorageNodes]
        exact hnodes.nodes_listed.mem_iff
      rcases hattempts.turns.records hneediest.distinct with ⟨hothers, howns⟩
      rw [List.map_map] at hothers
      refine ⟨fun id hid => ?_, fun attempt hattempt => ⟨?_, ?_⟩⟩
      · rw [hothers id hid, hsame.memory.chunks]
      · exact (hattempts.ran attempt hattempt).attempted.of_mem_iff hregistered
      · have hown := howns attempt.chunk (List.mem_map.mpr ⟨attempt, hattempt, rfl⟩)
        unfold GainsAtMostOne at hown ⊢
        rw [hsame.memory.chunks] at hown
        rcases hown with hkept | ⟨record, target, htarget, hrecord, hgained, hwritten⟩
        · exact .inl hkept
        · exact .inr ⟨record, target, ⟨(hregistered _).mp htarget.listed, htarget.other⟩, hrecord,
            hgained, hwritten.prepend [_, _]⟩

end

/-- For every store, limit and run, however its calls fail: the cycle lists the chunks and tries
the first ones of the list, within the limit and in the order of the list, with one attempt for
each.  They are `Confirmed` chunks with fewer than three replicas, none of them with more replicas
than a chunk that is left out, and no call is about another chunk.  Other records stay as they
are, and a chunk of the list gains at most one replica, on a storage node that it was not listed
with, after a copy with the recorded checksum was written to the address of this node. -/
theorem cycle_tries_neediest_chunks (env : Environment) (maxChunksPerCycle : Nat) (s : Services)
    (hkeyed : ChunksKeyed s) (result : Except String CycleReport) (s' : Services)
    (trace : List Transition)
    (hrun : (runReplicationCycle env.crc32 maxChunksPerCycle).Runs
      (Library.Traced (Step env .any)) (s, []) result (s', trace)) :
    ∃ attempts : List Attempt,
      Tries env .any maxChunksPerCycle s result attempts trace s' ∧
      Neediest s maxChunksPerCycle (attempts.map (·.chunk)) ∧
      (∀ report, result = .ok report → report.outcomes = attempts.map (·.outcome)) ∧
      (∀ event ∈ trace, AboutOnly (attempts.map (·.chunk.chunkId)) event.request) ∧
      (∀ id, id ∉ attempts.map (·.chunk.chunkId) →
        s'.metadata.metadataStore.chunks[id]? = s.metadata.metadataStore.chunks[id]?) ∧
      ∀ attempt ∈ attempts, AttemptedFor env s.metadata.listStorageNodes attempt ∧
        GainsAtMostOne env s.metadata.listStorageNodes attempt.chunk s trace s' := by
  rcases hrun.ensuresTraced (runReplicationCycle_tries env .any maxChunksPerCycle s) with
    ⟨events, htrace, attempts, htries⟩
  rw [List.nil_append] at htrace
  subst htrace
  rcases htries.records hkeyed with ⟨hothers, howns⟩
  exact ⟨attempts, htries, htries.neediest hkeyed, fun report hreport => htries.outcomes hreport,
    htries.aboutOnly, hothers, howns⟩

/-- A cycle that copies the only chunk. -/
theorem cycle_tries_neediest_chunks_copied :
    ∃ (report : CycleReport) (s' : Services) (trace : List Transition)
      (attempts : List Attempt), report.outcomes = [.replicated] ∧
      (runReplicationCycle plainEnvironment.crc32 100).Runs
        (Library.Traced (Step plainEnvironment .any)) (oneReplica, []) (.ok report) (s', trace) ∧
      Neediest oneReplica 100 (attempts.map (·.chunk)) ∧
      attempts.map (·.outcome) = [.replicated] := by
  rcases oneReplica_copied with ⟨report, s', hreport, hruns⟩
  rcases (hruns.mono fun _ _ _ _ hstep => hstep.any).traced [] with ⟨trace, htraced⟩
  rcases cycle_tries_neediest_chunks plainEnvironment 100 oneReplica oneReplica_keyed _ s' trace
    htraced with ⟨attempts, _, hneediest, houtcomes, _⟩
  refine ⟨report, s', trace, attempts, hreport, htraced, hneediest, ?_⟩
  rw [← houtcomes report rfl, hreport]

end ReplicationService
end ObjectStore
