import ObjectStore.System.Answers
import ObjectStore.System.Tidy

/-!
# System - Replication cycles over a store at rest

A cycle copies chunks from the storage nodes that hold them to others and records the new
replicas.  The objects and their bytes stay as they are.

Main definitions:

- `Turned`: what one turn leaves.
- `Cycled`: what the turns of a cycle leave.

Main results:

- Theorem `replicateChunk_turned`: one turn, whatever target is chosen.
- Theorem `runReplicationCycle_cycled`: a whole cycle.
-/

namespace ObjectStore
namespace System

open Deployment (Call Environment SameMemory SameServices Services Step)
open ReplicationService (Needy listingOf replicateChunk replicateChunks runReplicationCycle
  readSource writeTarget recordReplica hasSpace copyChunk)
open StorageMetadata (MetaChunk MetadataStore MetaObject)
open StorageMetadata.Proto (MetaStorageNode UnderReplicatedChunk)

variable {env : Environment} {crc32 crc : Bytes → UInt32} {s s' : Services}
  {pieces : UInt64 → Bytes} {record : MetaChunk} {nodes : List MetaStorageNode} {id : UInt64}

/-! ## Reading and writing -/

/-- A program that only looks leaves the services as they are. -/
theorem reads_same {α : Type} {program : Deployment.Program α}
    (h : program.Only ReplicationService.Looks) :
    program.Ensures (RoomyStep env) (fun _ s' => SameServices s s') s :=
  h.ensures (.refl s) fun _ _ _ _ hcall hbefore hstep => hbefore.trans (hstep.1.reads hcall.reads)

/-- What is read of a chunk at a registered node is what is stored there. -/
theorem readSource_reads (htidy : Tidy crc32 [] pieces s) (id nodeId : UInt64) :
    (readSource id nodeId).Ensures (RoomyStep env)
      (fun result _ => ∀ bytes, result = .ok bytes → bytes = pieces id) s := by
  intro found s₁ hfound
  have hsame₁ := hfound.1.reads trivial
  change Except Status String at found
  cases found with
  | error status => exact fun bytes => nofun
  | ok address =>
      intro connected s₂ hconnected
      have hsame₂ := hsame₁.trans (hconnected.1.reads trivial)
      change Except String Unit at connected
      cases connected with
      | error err => exact fun bytes => nofun
      | ok _ =>
          intro read s₃ hread
          change Except Status StorageNode.ReadChunkResponse at read
          cases read with
          | error status => exact fun bytes => nofun
          | ok response =>
              rintro bytes ⟨rfl⟩
              rcases hread.1.storageNode_effect (by decide) with ⟨_, _, heffect⟩
              generalize s₃.nodes = after at heffect
              cases heffect with
              | @readChunk node _ bytes hnode hid =>
                  have hdata : s₂.dataAt address id = some bytes :=
                    Deployment.Services.dataAt_eq_some_iff.mpr ⟨node, hnode, hid⟩
                  rw [hsame₂.dataAt] at hdata
                  have hreplica := (htidy.owned id address bytes hdata).2
                  rw [htidy.held id address nofun hreplica] at hdata
                  exact (Option.some.inj hdata).symm

/-- The data has arrived at the target. -/
structure Copied (address : String) (id : UInt64) (bytes : Bytes) (s s' : Services) : Prop where
  memory : SameMemory s'.metadata.metadataStore s.metadata.metadataStore
  nodes : ∀ other ∈ s.nodes, other ∈ s'.nodes
  data : ∀ (other : String) (otherId : UInt64), s'.dataAt other otherId =
    if other = address ∧ otherId = id then some bytes else s.dataAt other otherId

/-- The write arrives, or nothing has happened. -/
theorem writeTarget_writes (address : String) (id : UInt64) (bytes : Bytes) :
    (writeTarget address id bytes).Ensures (RoomyStep env)
      (fun result s' => match result with
        | .ok () => Copied address id bytes s s'
        | .error _ => SameServices s s') s := by
  intro connected s₁ hconnected
  have hsame₁ := hconnected.1.reads trivial
  change Except String Unit at connected
  cases connected with
  | error err => exact hsame₁
  | ok _ =>
      intro written s₂ hwritten
      change Except Status UInt64 at written
      have hother :
          ∀ request, Call.storageNode address (.writeChunk id bytes) ≠ .metadata request :=
        fun _ => nofun
      have hmetadata := hwritten.1.metadata_eq hother
      cases written with
      | ok value =>
          constructor
          · rw [hmetadata]
            exact hsame₁.memory
          · rw [← hsame₁.nodes]
            exact mem_nodes_of_step hwritten.1
          · intro other otherId
            rw [hwritten.1.written.2, hsame₁.dataAt]
      | error status =>
          rcases hwritten.1.storageNode_effect (by decide) with ⟨_, _, heffect⟩
          refine hsame₁.trans ⟨hmetadata ▸ .refl _, ?_⟩
          generalize s₂.nodes = after at heffect
          cases heffect
          rfl

/-! ## One turn -/

/-- What one turn leaves: the objects stay, and the chunk may have a replica more.  It has one
if it `grows`. -/
structure Turned (crc32 : Bytes → UInt32) (pieces : UInt64 → Bytes) (grows : Prop)
    (record : MetaChunk) (s s' : Services) : Prop where
  tidy : Tidy crc32 [] pieces s'
  objects : s'.metadata.metadataStore.objects = s.metadata.metadataStore.objects
  storageNodes : s'.metadata.metadataStore.storageNodes = s.metadata.metadataStore.storageNodes
  chunks : ¬ grows ∧ s'.metadata.metadataStore.chunks = s.metadata.metadataStore.chunks ∨
    ∃ nodeId, s'.metadata.metadataStore.chunks =
      s.metadata.metadataStore.chunks.insert record.id (record.addStorageNode nodeId)

/-- A turn may come to nothing. -/
theorem Turned.of_same (htidy : Tidy crc32 [] pieces s) (h : SameServices s s') :
    Turned crc32 pieces False record s s' where
  tidy := htidy.same h
  objects := h.memory.objects
  storageNodes := h.memory.storageNodes
  chunks := .inl ⟨not_false, h.memory.chunks⟩

/-- The target is recorded. -/
theorem recordReplica_turned {target : MetaStorageNode} {before : Services}
    (htidy : Tidy crc32 [] pieces before) (hneedy : Needy before record.id record)
    (hlisted : target ∈ before.metadata.listStorageNodes)
    (hnew : target.id ∉ record.storageNodes)
    (h : Copied target.address record.id (pieces record.id) before s) :
    (recordReplica record.id target).Ensures (RoomyStep env)
      (fun _ s' => Turned crc32 pieces False record before s') s := by
  rcases List.mem_map.mp hlisted with ⟨registered, hregistered, rfl⟩
  rcases HashMap.mem_valueList.mp hregistered with ⟨key, hkey⟩
  have hkeyed : registered.id = key := htidy.catalogued.keyed key registered hkey
  rw [← hkeyed] at hkey
  have hstored : s.metadata.metadataStore.chunks[record.id]? = some record := by
    rw [h.memory.chunks]
    exact hneedy.stored
  have hnode : registered.id ∈ s.metadata.metadataStore.storageNodes := by
    rw [h.memory.storageNodes]
    exact HashMap.mem_iff_exists_getElem?.mpr ⟨registered, hkey⟩
  intro added s₁ hadded
  rcases addChunkReplica_answered hstored hnode hnew hneedy.short hadded.1 with
    ⟨rfl, hnodes, hmemory⟩
  have hchunks : s₁.metadata.metadataStore.chunks = before.metadata.metadataStore.chunks.insert
      record.id (record.addStorageNode registered.id) := by
    rw [hmemory.chunks, MetadataStore.withChunk, h.memory.chunks]
  have hmemory' : SameMemory s₁.metadata.metadataStore
      (before.metadata.metadataStore.withChunk record.id (record.addStorageNode registered.id)) :=
    { objects := hmemory.objects.trans h.memory.objects
      chunks := hchunks
      storageNodes := hmemory.storageNodes.trans h.memory.storageNodes }
  constructor
  · refine htidy.addReplica hneedy.stored hkey hnew hmemory' ?_ fun address other => ?_
    · rw [hnodes]
      exact h.nodes
    · have hdata : s₁.dataAt address other = s.dataAt address other := by
        simp only [Services.dataAt, hnodes]
      rw [hdata]
      exact h.data address other
  · exact hmemory'.objects
  · exact hmemory'.storageNodes
  · exact .inr ⟨registered.id, hchunks⟩

/-- One turn, whatever target is chosen. -/
theorem replicateChunk_turned (crc : Bytes → UInt32) (htidy : Tidy crc32 [] pieces s)
    (hneedy : Needy s record.id record)
    (hnodes : ∀ node ∈ nodes, node ∈ s.metadata.listStorageNodes) :
    (replicateChunk crc nodes (listingOf record)).Ensures (RoomyStep env)
      (fun _ s' => Turned crc32 pieces False record s s') s := by
  unfold replicateChunk
  dsimp only
  split
  · exact .of_same htidy (.refl s)
  · intro picked s₁ hpicked
    have hsame₁ := hpicked.1.reads trivial
    dsimp only [Library.Program.bind]
    split
    · exact .of_same htidy hsame₁
    · rename_i target htarget
      have hmem := List.mem_of_getElem? htarget
      rw [List.mem_filter] at hmem
      have hnew : target.id ∉ record.storageNodes := by simpa [listingOf] using hmem.2
      have hlisted := hnodes target hmem.1
      refine .of_bind
        ((reads_same (ReplicationService.hasSpace_looks _)).mono fun space s₂ hspace => ?_)
      have hsame₂ := hsame₁.trans hspace
      split
      · unfold copyChunk
        split
        · exact .of_same htidy hsame₂
        · rename_i source _ _
          have hread : (readSource record.id source).Ensures (RoomyStep env) _ s₂ :=
            (readSource_reads (htidy.same hsame₂) record.id source).and
              (reads_same (ReplicationService.readSource_looks _ _))
          refine .of_bind (hread.mono fun read s₃ hpost => ?_)
          have hsame₃ := hsame₂.trans hpost.2
          split
          · exact .of_same htidy hsame₃
          · rename_i bytes
            split
            · exact .of_same htidy hsame₃
            · have hbytes : bytes = pieces record.id := hpost.1 bytes rfl
              subst hbytes
              refine .of_bind ((writeTarget_writes target.address record.id _).mono
                fun written s₄ hwritten => ?_)
              cases written with
              | error label => exact .of_same htidy (hsame₃.trans hwritten)
              | ok value =>
                  have hcopied : Copied target.address record.id (pieces record.id) s s₄ := by
                    constructor
                    · exact
                        { objects := hwritten.memory.objects.trans hsame₃.memory.objects
                          chunks := hwritten.memory.chunks.trans hsame₃.memory.chunks
                          storageNodes := hwritten.memory.storageNodes.trans
                            hsame₃.memory.storageNodes }
                    · rw [← hsame₃.nodes]
                      exact hwritten.nodes
                    · intro other otherId
                      rw [hwritten.data, hsame₃.dataAt]
                  exact recordReplica_turned htidy hneedy hlisted hnew hcopied
      · exact .of_same htidy hsame₂

/-! ## A cycle -/

/-- What the turns for `records` leave. -/
structure Cycled (crc32 : Bytes → UInt32) (pieces : UInt64 → Bytes) (grows : Prop)
    (records : List MetaChunk) (s s' : Services) : Prop where
  tidy : Tidy crc32 [] pieces s'
  objects : s'.metadata.metadataStore.objects = s.metadata.metadataStore.objects
  storageNodes : s'.metadata.metadataStore.storageNodes = s.metadata.metadataStore.storageNodes
  others : ∀ id ∉ records.map MetaChunk.id,
    s'.metadata.metadataStore.chunks[id]? = s.metadata.metadataStore.chunks[id]?
  listed : ∀ record ∈ records,
    ¬ grows ∧ s'.metadata.metadataStore.chunks[record.id]? = some record ∨
      ∃ nodeId, s'.metadata.metadataStore.chunks[record.id]? = some (record.addStorageNode nodeId)

variable {grows : Prop} {records : List MetaChunk} {inv : Services → Prop}

theorem Cycled.nil (htidy : Tidy crc32 [] pieces s) (h : SameServices s s') :
    Cycled crc32 pieces grows [] s s' where
  tidy := htidy.same h
  objects := h.memory.objects
  storageNodes := h.memory.storageNodes
  others id _ := by rw [h.memory.chunks]
  listed := nofun

/-- Other chunks are not touched. -/
theorem Turned.others (h : Turned crc32 pieces grows record s s') (hid : id ≠ record.id) :
    s'.metadata.metadataStore.chunks[id]? = s.metadata.metadataStore.chunks[id]? := by
  rcases h.chunks with ⟨_, hsame⟩ | ⟨nodeId, hchunks⟩
  · rw [hsame]
  · rw [hchunks]
    exact HashMap.getElem?_insert_of_ne _ _ hid

/-- What was read before has changed nothing. -/
theorem Cycled.of_same {s₁ : Services} (hsame : SameServices s s₁)
    (h : Cycled crc32 pieces grows records s₁ s') : Cycled crc32 pieces grows records s s' where
  tidy := h.tidy
  objects := h.objects.trans hsame.memory.objects
  storageNodes := h.storageNodes.trans hsame.memory.storageNodes
  others id hid := by
    rw [← hsame.memory.chunks]
    exact h.others id hid
  listed := h.listed

/-- One turn, and then the others. -/
theorem Cycled.cons {s₁ : Services} (hneedy : Needy s record.id record)
    (hnew : record.id ∉ records.map MetaChunk.id) (hturn : Turned crc32 pieces grows record s s₁)
    (hrest : Cycled crc32 pieces grows records s₁ s') :
    Cycled crc32 pieces grows (record :: records) s s' where
  tidy := hrest.tidy
  objects := hrest.objects.trans hturn.objects
  storageNodes := hrest.storageNodes.trans hturn.storageNodes
  others other hother := by
    rw [List.map_cons, List.mem_cons, not_or] at hother
    exact (hrest.others other hother.2).trans (hturn.others hother.1)
  listed other hother := by
    rcases List.mem_cons.mp hother with rfl | hother
    · rw [hrest.others _ hnew]
      rcases hturn.chunks with ⟨hgrows, hsame⟩ | ⟨nodeId, hchunks⟩
      · rw [hsame]
        exact .inl ⟨hgrows, hneedy.stored⟩
      · rw [hchunks]
        exact .inr ⟨nodeId, Std.ExtTreeMap.getElem?_insert_self⟩
    · exact hrest.listed other hother

/-- Each chunk keeps its record, with a replica more if it had its turn and grows. -/
theorem Cycled.exists_record (h : Cycled crc32 pieces True records s s')
    (hneedy : ∀ record ∈ records, Needy s record.id record)
    (hrecord : s.metadata.metadataStore.chunks[id]? = some record) :
    ∃ record' : MetaChunk, s'.metadata.metadataStore.chunks[id]? = some record' ∧
      record'.storageNodes.length = if id ∈ records.map MetaChunk.id then
        record.storageNodes.length + 1 else record.storageNodes.length := by
  split
  · rename_i hmem
    rcases List.mem_map.mp hmem with ⟨other, hother, rfl⟩
    cases hrecord.symm.trans (hneedy other hother).stored
    rcases (h.listed record hother).resolve_left (fun hsame => hsame.1 trivial) with
      ⟨nodeId, hchunk⟩
    exact ⟨_, hchunk, by simp [MetaChunk.addStorageNode]⟩
  · rename_i hother
    exact ⟨record, (h.others id hother).trans hrecord, rfl⟩

/-- A cycle neither adds nor drops records. -/
theorem Cycled.mem_chunks_iff (h : Cycled crc32 pieces True records s s')
    (hneedy : ∀ record ∈ records, Needy s record.id record) :
    id ∈ s'.metadata.metadataStore.chunks ↔ id ∈ s.metadata.metadataStore.chunks := by
  constructor
  · intro hid
    by_cases hmem : id ∈ records.map MetaChunk.id
    · rcases List.mem_map.mp hmem with ⟨record, hrecord, rfl⟩
      exact HashMap.mem_iff_exists_getElem?.mpr ⟨record, (hneedy record hrecord).stored⟩
    · rcases HashMap.mem_iff_exists_getElem?.mp hid with ⟨record, hrecord⟩
      rw [h.others id hmem] at hrecord
      exact HashMap.mem_iff_exists_getElem?.mpr ⟨record, hrecord⟩
  · intro hid
    rcases HashMap.mem_iff_exists_getElem?.mp hid with ⟨record, hrecord⟩
    rcases h.exists_record hneedy hrecord with ⟨record', hrecord', _⟩
    exact HashMap.mem_iff_exists_getElem?.mpr ⟨record', hrecord'⟩

/-- What each turn leaves, the loop over the chunks leaves. -/
theorem replicateChunks_cycled
    (hturn : ∀ (s : Services) (record : MetaChunk), Tidy crc32 [] pieces s →
      Needy s record.id record → nodes.Perm s.metadata.listStorageNodes → inv s →
      (replicateChunk crc nodes (listingOf record)).Ensures (RoomyStep env)
        (fun _ s' => Turned crc32 pieces grows record s s' ∧ inv s') s)
    (htidy : Tidy crc32 [] pieces s) (hnodes : nodes.Perm s.metadata.listStorageNodes)
    (hinv : inv s)
    (hdistinct : (records.map MetaChunk.id).Nodup)
    (hneedy : ∀ record ∈ records, Needy s record.id record) :
    (replicateChunks crc nodes (records.map listingOf)).Ensures (RoomyStep env)
      (fun _ s' => Cycled crc32 pieces grows records s s' ∧ inv s') s := by
  induction records generalizing s with
  | nil => exact ⟨.nil htidy (.refl s), hinv⟩
  | cons record records ih =>
      rw [List.map_cons, List.nodup_cons] at hdistinct
      have hfirst := hneedy record List.mem_cons_self
      refine .of_bind ((hturn s record htidy hfirst hnodes hinv).mono ?_)
      rintro outcome s₁ ⟨hturned, hinv₁⟩
      have hnodes₁ : nodes.Perm s₁.metadata.listStorageNodes := by
        simpa only [StorageMetadata.StorageMetadataImpl.listStorageNodes,
          MetadataStore.listStorageNodes, hturned.storageNodes] using hnodes
      have hneedy₁ : ∀ other ∈ records, Needy s₁ other.id other := by
        intro other hother
        have hbefore := hneedy other (List.mem_cons_of_mem _ hother)
        have hne : other.id ≠ record.id := by
          intro heq
          exact hdistinct.1 (heq ▸ List.mem_map_of_mem hother)
        exact ⟨(hturned.others hne).trans hbefore.stored, hbefore.confirmed, hbefore.short⟩
      refine .of_bind ((ih hturned.tidy hnodes₁ hinv₁ hdistinct.2 hneedy₁).mono ?_)
      rintro outcomes s' ⟨hcycled, hinv'⟩
      exact ⟨hcycled.cons hfirst hdistinct.1 hturned, hinv'⟩

/-- The listed chunks are the listings of records. -/
theorem exists_records {chunks : List UnderReplicatedChunk}
    (h : ∀ chunk ∈ chunks, ∃ record, Needy s record.id record ∧ chunk = listingOf record) :
    ∃ records : List MetaChunk, chunks = records.map listingOf ∧
      ∀ record ∈ records, Needy s record.id record := by
  induction chunks with
  | nil => exact ⟨[], rfl, nofun⟩
  | cons chunk chunks ih =>
      rcases ih fun other hother => h other (List.mem_cons_of_mem _ hother) with
        ⟨records, rfl, hneedy⟩
      rcases h chunk List.mem_cons_self with ⟨record, hrecord, rfl⟩
      exact ⟨record :: records, rfl, List.forall_mem_cons.mpr ⟨hrecord, hneedy⟩⟩

theorem Tidy.chunksKeyed (htidy : Tidy crc32 [] pieces s) : ReplicationService.ChunksKeyed s :=
  fun id record hrecord => (htidy.catalogued.placed id record hrecord).key

/-- There are no more needy records than records. -/
theorem length_le_size_of_needy (hdistinct : (records.map MetaChunk.id).Nodup)
    (hneedy : ∀ record ∈ records, Needy s record.id record) :
    records.length ≤ s.metadata.metadataStore.chunks.size := by
  rw [← List.length_map MetaChunk.id]
  refine HashMap.length_le_size hdistinct fun id hid => ?_
  rcases List.mem_map.mp hid with ⟨record, hrecord, rfl⟩
  exact HashMap.mem_iff_exists_getElem?.mpr ⟨record, (hneedy record hrecord).stored⟩

/-- A whole cycle lists the chunks that have too few replicas, and takes turns for the first ones,
as many as its limit allows. -/
theorem runReplicationCycle_cycled
    (hturn : ∀ (nodes : List MetaStorageNode) (s : Services) (record : MetaChunk),
      Tidy crc32 [] pieces s → Needy s record.id record →
      nodes.Perm s.metadata.listStorageNodes → inv s →
      (replicateChunk crc nodes (listingOf record)).Ensures (RoomyStep env)
        (fun _ s' => Turned crc32 pieces grows record s s' ∧ inv s') s)
    (hsame : ∀ s s', SameServices s s' → inv s → inv s')
    (htidy : Tidy crc32 [] pieces s) (hinv : inv s) (limit : Nat) :
    (runReplicationCycle crc limit).Ensures (RoomyStep env)
      (fun _ s' => (∃ records : List MetaChunk, (records.map MetaChunk.id).Nodup ∧
        (∀ record, record ∈ records ↔ Needy s record.id record) ∧
        Cycled crc32 pieces grows (records.take limit) s s') ∧ inv s') s := by
  intro listed s₁ hlisted
  have hsame₁ := hlisted.1.reads trivial
  change Except Status (List UnderReplicatedChunk) at listed
  have hok : ∃ chunks, listed = .ok chunks := by
    cases hlisted.1 with
    | served _ hserve =>
        cases hserve
        exact ⟨_, rfl⟩
    | chunksListed _ _ => exact ⟨_, rfl⟩
    | failed hfaults _ => exact absurd rfl hfaults
    | lost hany _ _ => cases hany
  rcases hok with ⟨chunks, rfl⟩
  have hperm := hlisted.1.chunks_listed.1
  have hexists : ∀ chunk ∈ chunks, ∃ record, Needy s record.id record ∧
      chunk = listingOf record := by
    intro chunk hchunk
    rcases ReplicationService.mem_listing.mp (hperm.mem_iff.mp hchunk) with
      ⟨id, record, hneedy, rfl⟩
    have hkey := htidy.chunksKeyed id record hneedy.stored
    subst hkey
    exact ⟨record, hneedy, rfl⟩
  rcases exists_records hexists with ⟨records, rfl, hneedy⟩
  have hcomplete : ∀ record, Needy s record.id record → record ∈ records := by
    intro record hrecord
    have hmem := hperm.mem_iff.mpr (ReplicationService.mem_listing.mpr ⟨_, record, hrecord, rfl⟩)
    rcases List.mem_map.mp hmem with ⟨other, hother, heq⟩
    have hid : other.id = record.id := congrArg UnderReplicatedChunk.chunkId heq
    have hstored := (hneedy other hother).stored
    rw [hid, hrecord.stored] at hstored
    cases hstored
    exact hother
  have hdistinct : (records.map MetaChunk.id).Nodup := by
    have hnodup := ReplicationService.nodup_listing htidy.chunksKeyed
    rw [← (hperm.map _).nodup_iff, List.map_map] at hnodup
    exact hnodup
  have htidy₁ := htidy.same hsame₁
  have hinv₁ := hsame s s₁ hsame₁ hinv
  dsimp only [Library.Program.bind]
  split
  · rename_i hempty
    have hrecords : records = [] := by simpa using hempty
    subst hrecords
    refine ⟨⟨[], hdistinct, fun record => ⟨nofun, hcomplete record⟩, ?_⟩, hinv₁⟩
    rw [List.take_nil]
    exact .nil htidy hsame₁
  · intro nodesListed s₂ hnodesListed
    rcases listStorageNodes_answered hnodesListed.1 with ⟨nodes, rfl, hnodes, hsame₂⟩
    have hall := hsame₁.trans hsame₂
    have hperm₂ : nodes.Perm s₂.metadata.listStorageNodes := by
      simpa only [StorageMetadata.StorageMetadataImpl.listStorageNodes,
        MetadataStore.listStorageNodes, hsame₂.memory.storageNodes] using hnodes
    dsimp only [Library.Program.bind]
    split
    · rename_i hnone
      have hregistered := htidy₁.registered
      rw [List.isEmpty_iff.mp hnone, List.nil_perm] at hnodes
      exact absurd (List.map_eq_nil_iff.mp hnodes) hregistered
    · rw [← List.map_take]
      have hneedy₂ : ∀ record ∈ records.take limit, Needy s₂ record.id record := by
        intro record hrecord
        have hbefore := hneedy record (List.mem_of_mem_take hrecord)
        refine ⟨?_, hbefore.confirmed, hbefore.short⟩
        rw [hall.memory.chunks]
        exact hbefore.stored
      have hdistinct₂ : ((records.take limit).map MetaChunk.id).Nodup := by
        rw [List.map_take]
        exact hdistinct.sublist (List.take_sublist _ _)
      refine .of_bind ((replicateChunks_cycled (hturn nodes) (htidy.same hall) hperm₂
        (hsame s s₂ hall hinv) hdistinct₂ hneedy₂).mono ?_)
      rintro outcomes s₃ ⟨hcycled, hinv₃⟩
      exact ⟨⟨records, hdistinct, fun record => ⟨hneedy record, hcomplete record⟩,
        hcycled.of_same hall⟩, hinv₃⟩

end System
end ObjectStore
