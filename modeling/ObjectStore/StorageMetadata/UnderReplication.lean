import ObjectStore.StorageMetadata.Availability

/-!
# Storage metadata - Detecting lost replicas

`list_under_replicated_chunks` counts the replicas a chunk records, and removing a
storage node leaves the records alone.  So a chunk that once had three replicas is
not reported after it has lost some of them, and is not repaired.

Main results:

- Theorem `reports_iff`: the states in which every degraded chunk is reported.
- Theorem `degraded_chunks_reported`: the runs that stay in these states.
- Theorem `lost_replica_not_reported`: a run that leaves them.
-/

namespace ObjectStore
namespace StorageMetadata

/-- The registered storage nodes among those recorded for the chunk. -/
def liveReplicas (nodes : HashMap UInt64 MetaStorageNode) (chunk : MetaChunk) :
    Finset UInt64 :=
  chunk.storageNodes.toFinset.filter (· ∈ nodes)

/-- Every `Confirmed` chunk with fewer than three live replicas is reported. -/
def ReportsDegradedChunks (s : MetadataStore) : Prop :=
  ∀ (id : UInt64) (chunk : MetaChunk), s.chunks[id]? = some chunk → chunk.status = .confirmed →
    (liveReplicas s.storageNodes chunk).card < 3 →
      chunk ∈ s.listUnderReplicatedChunks 3

/-- A `Confirmed` chunk that records three replicas has three live ones. -/
def FullOrRecordedAsDegraded (nodes : HashMap UInt64 MetaStorageNode) (chunk : MetaChunk) :
    Prop :=
  chunk.status = .confirmed → 3 ≤ chunk.storageNodes.length →
    3 ≤ (liveReplicas nodes chunk).card

/-- The same for every chunk of a map. -/
def AllFullOrRecorded (nodes : HashMap UInt64 MetaStorageNode)
    (chunks : HashMap UInt64 MetaChunk) : Prop :=
  ∀ (id : UInt64) (chunk : MetaChunk), chunks[id]? = some chunk →
    FullOrRecordedAsDegraded nodes chunk

theorem mem_listUnderReplicatedChunks {s : MetadataStore} {maxReplicas : Nat}
    {chunk : MetaChunk} :
    chunk ∈ s.listUnderReplicatedChunks maxReplicas ↔
      (∃ id : UInt64, s.chunks[id]? = some chunk) ∧ chunk.status = .confirmed ∧
        chunk.storageNodes.length < maxReplicas := by
  rw [MetadataStore.listUnderReplicatedChunks, List.mem_insertionSort, List.mem_filter,
    HashMap.mem_valueList]
  simp

/-- The report is complete exactly when no chunk with three recorded replicas has
lost one. -/
theorem reports_iff (s : MetadataStore) :
    ReportsDegradedChunks s ↔ AllFullOrRecorded s.storageNodes s.chunks := by
  constructor
  · intro hreports id chunk hchunk hstatus hrecorded
    by_contra hlost
    have hmem := hreports id chunk hchunk hstatus (by omega)
    have hshort := (mem_listUnderReplicatedChunks.mp hmem).2.2
    omega
  · intro hfull id chunk hchunk hstatus hlost
    refine mem_listUnderReplicatedChunks.mpr ⟨⟨id, hchunk⟩, hstatus, ?_⟩
    by_contra hrecorded
    have hlive := hfull id chunk hchunk hstatus (by omega)
    omega

/-! ## Steps that lose no third replica -/

/-- The condition on a call: a removal takes no live replica from a chunk that
records three unless three are left, the third replica of a chunk is recorded while
the other two are live, records of a peer come with their replicas, and a restart,
which empties the registry, finds no chunk with three replicas on file. -/
def KeepsThirdReplica (lib : External) (s : MetadataStore) : Event → Prop
  | .call (.deleteStorageNode id) _ => AllFullOrRecorded (s.storageNodes.erase id) s.chunks
  | .call (.healthCheck ids) _ =>
      AllFullOrRecorded (ids.foldl (·.erase ·) s.storageNodes) s.chunks
  | .call (.addChunkReplica id _) _ => ∀ chunk, s.chunks[id]? = some chunk →
      chunk.status = .confirmed → chunk.storageNodes.length = 2 →
        (liveReplicas s.storageNodes chunk).card = 2
  | .call (.ingestPartition _ chunks) _ =>
      ∀ chunk ∈ chunks, FullOrRecordedAsDegraded s.storageNodes chunk
  | .call _ _ => True
  | .restart => ∀ files s', s.files.Survives files → MetadataStore.new lib files = .ok s' →
      ∀ (id : UInt64) (chunk : MetaChunk), s'.chunks[id]? = some chunk →
        chunk.status = .confirmed → chunk.storageNodes.length < 3

variable {nodes : HashMap UInt64 MetaStorageNode} {chunks chunks' : HashMap UInt64 MetaChunk}

theorem AllFullOrRecorded.mono (h : AllFullOrRecorded nodes chunks)
    (hsub : ∀ (id : UInt64) (chunk : MetaChunk),
      chunks'[id]? = some chunk → chunks[id]? = some chunk) :
    AllFullOrRecorded nodes chunks' :=
  fun id chunk hchunk => h id chunk (hsub id chunk hchunk)

theorem AllFullOrRecorded.insert (h : AllFullOrRecorded nodes chunks) (id : UInt64)
    {chunk : MetaChunk} (hchunk : FullOrRecordedAsDegraded nodes chunk) :
    AllFullOrRecorded nodes (chunks.insert id chunk) := by
  intro other found hfound
  by_cases heq : other = id
  · subst heq
    obtain rfl := HashMap.getElem?_insert_same _ hfound
    exact hchunk
  · rw [HashMap.getElem?_insert_of_ne _ _ heq] at hfound
    exact h other found hfound

theorem mem_liveReplicas {chunk : MetaChunk} {nodeId : UInt64} :
    nodeId ∈ liveReplicas nodes chunk ↔ nodeId ∈ chunk.storageNodes ∧ nodeId ∈ nodes := by
  simp [liveReplicas]

/-- Registering a node takes no replica away. -/
theorem AllFullOrRecorded.register (h : AllFullOrRecorded nodes chunks) (nodeId : UInt64)
    (node : MetaStorageNode) : AllFullOrRecorded (nodes.insert nodeId node) chunks := by
  intro id chunk hchunk hstatus hrecorded
  refine le_trans (h id chunk hchunk hstatus hrecorded) (Finset.card_le_card ?_)
  intro other hother
  obtain ⟨hmem, hregistered⟩ := mem_liveReplicas.mp hother
  refine mem_liveReplicas.mpr ⟨hmem, ?_⟩
  simp [hregistered]

/-- A chunk with one replica is recorded as degraded. -/
theorem single_replica (id nodeId : UInt64) (checksum : UInt32) (name : String) :
    FullOrRecordedAsDegraded nodes
      ((MetaChunk.new id checksum name).addStorageNode nodeId) := by
  intro _ hrecorded
  simp [MetaChunk.new, MetaChunk.addStorageNode] at hrecorded

/-- A new replica next to live ones is live. -/
theorem FullOrRecordedAsDegraded.addStorageNode {chunk : MetaChunk} {nodeId : UInt64}
    (hnode : nodeId ∈ nodes) (hnew : nodeId ∉ chunk.storageNodes)
    (hroom : chunk.storageNodes.length < 3)
    (hlive : chunk.status = .confirmed → chunk.storageNodes.length = 2 →
      (liveReplicas nodes chunk).card = 2) :
    FullOrRecordedAsDegraded nodes (chunk.addStorageNode nodeId) := by
  intro hstatus hrecorded
  have hlength : chunk.storageNodes.length = 2 := by
    simp only [MetaChunk.addStorageNode, List.length_append, List.length_singleton] at hrecorded
    omega
  have hinsert : liveReplicas nodes (chunk.addStorageNode nodeId) =
      insert nodeId (liveReplicas nodes chunk) := by
    ext other
    simp only [mem_liveReplicas, MetaChunk.addStorageNode, List.mem_append, List.mem_singleton,
      Finset.mem_insert]
    constructor
    · rintro ⟨hmem | rfl, hregistered⟩
      · exact .inr ⟨hmem, hregistered⟩
      · exact .inl rfl
    · rintro (rfl | ⟨hmem, hregistered⟩)
      · exact ⟨.inr rfl, hnode⟩
      · exact ⟨.inl hmem, hregistered⟩
  have hfresh : nodeId ∉ liveReplicas nodes chunk := fun hmem =>
    hnew (mem_liveReplicas.mp hmem).1
  have hcard := hlive hstatus hlength
  rw [hinsert, Finset.card_insert_of_notMem hfresh, hcard]

theorem fullOrRecorded_edit {lib : External} {op : Op} {io : SaveIo} {s m : MetadataStore}
    (hkeeps : KeepsThirdReplica lib s (.call op io)) (hedit : Edit op s m)
    (h : AllFullOrRecorded s.storageNodes s.chunks) :
    AllFullOrRecorded m.storageNodes m.chunks := by
  cases hedit with
  | addObject checksum hname => exact h
  | setChecksum checksum totalSize hname => exact h
  | dropObject hname => exact h.mono fun _ _ => HashMap.getElem?_of_foldl_erase
  | attach id checksum hid hname hnode => exact h.insert id (single_replica _ _ _ _)
  | dropChunk hid hname => exact h.mono fun _ _ => HashMap.getElem?_of_erase
  | @addReplica id nodeId chunk hop hid hnode hnew hroom =>
      subst hop
      exact h.insert id (.addStorageNode hnode hnew hroom (hkeeps chunk hid))

theorem fullOrRecorded_ingest {s : MetadataStore} (objects : List MetaObject)
    {records : List MetaChunk}
    (hrecords : ∀ chunk ∈ records, FullOrRecordedAsDegraded s.storageNodes chunk)
    (h : AllFullOrRecorded s.storageNodes s.chunks) :
    AllFullOrRecorded (s.ingest objects records).storageNodes
      (s.ingest objects records).chunks := by
  have hall : ∀ start, AllFullOrRecorded s.storageNodes start →
      AllFullOrRecorded s.storageNodes (records.foldl MetadataStore.insertChunk start) := by
    induction records with
    | nil => exact fun _ hstart => hstart
    | cons chunk records ih =>
        intro start hstart
        refine ih (fun other hother => hrecords other (List.mem_cons_of_mem _ hother)) _ ?_
        exact hstart.insert chunk.id (hrecords chunk List.mem_cons_self)
  exact hall s.chunks h

/-- A call that saves. -/
theorem fullOrRecorded_save {lib : External} {op : Op} {io : SaveIo} {s m : MetadataStore}
    (hkeeps : KeepsThirdReplica lib s (.call op io)) (hsave : op.CallsSave lib s m)
    (h : AllFullOrRecorded s.storageNodes s.chunks) :
    AllFullOrRecorded m.storageNodes m.chunks := by
  by_cases hpeer : op.FromPeer
  · cases op with
    | ingestPartition objects records =>
        have hingest : (Op.ingestPartition objects records).CallsSave lib s
            (s.ingest objects records) := fun io => by
          simp [Op.apply, MetadataStore.ingestPartition]
        rw [hsave.unique hingest]
        exact fullOrRecorded_ingest objects hkeeps h
    | _ => exact absurd hpeer id
  by_cases hremove : ∃ names, op = .removeObjects names
  · obtain ⟨names, rfl⟩ := hremove
    refine (hsave.edits hpeer).preserves
      (P := fun m => AllFullOrRecorded m.storageNodes m.chunks) ?_ h
    intro a b hedit ha
    have hremoves : KeepsThirdReplica lib a (.call (.removeObjects names) io) := trivial
    exact fullOrRecorded_edit hremoves hedit ha
  · exact fullOrRecorded_edit hkeeps (hsave.edit hpeer (not_exists.mp hremove)) h

theorem fullOrRecorded_sideEdit {lib : External} {op : Op} {io : SaveIo}
    {s m : MetadataStore} (hkeeps : KeepsThirdReplica lib s (.call op io))
    (hedit : SideEdit lib op s m) (h : AllFullOrRecorded s.storageNodes s.chunks) :
    AllFullOrRecorded m.storageNodes m.chunks := by
  cases hedit with
  | @reserve id name hid =>
      refine h.insert id ?_
      intro hstatus
      simp [MetaChunk.newPending] at hstatus
  | orphan checksum hid hname hnode => exact h.insert _ (single_replica _ _ _ _)
  | dropOrphan hid hname => exact h.mono fun _ _ => HashMap.getElem?_of_erase
  | register hid haddress => exact h.register _ _
  | unregister ids hop =>
      rcases hop with rfl | ⟨id, rfl, rfl⟩
      · exact hkeeps
      · exact hkeeps

/-- Along a run whose steps all keep the third replica, a chunk that records three
replicas has three live ones. -/
theorem Run.allFullOrRecorded {lib : External} {s : MetadataStore} {g : Maps}
    (hrun : Run lib (KeepsThirdReplica lib) s g) :
    AllFullOrRecorded s.storageNodes s.chunks := by
  refine hrun.invariant (P := fun s _ => AllFullOrRecorded s.storageNodes s.chunks) ?_ ?_
  · intro tmp id chunk hchunk
    have hempty : (∅ : HashMap UInt64 MetaChunk)[id]? = some chunk := hchunk
    simp at hempty
  intro s g s' g' _ hstep h
  cases hstep with
  | saving hkeeps hsave =>
      have hm := fullOrRecorded_save hkeeps hsave h
      simpa using hm
  | other hkeeps hnot happly =>
      rcases (Op.side_of_not_callsSave hnot happly).1 with rfl | hedit
      · exact h
      · exact fullOrRecorded_sideEdit hkeeps hedit h
  | restart hkeeps hcrash hnew =>
      intro id chunk hchunk hstatus hrecorded
      have hshort := hkeeps _ s' hcrash hnew id chunk hchunk hstatus
      omega

/-- In every run whose steps keep the third replica of every chunk, every degraded
chunk is reported in every state; and in any state at all the report is complete
exactly when no `Confirmed` chunk that records three replicas has lost one. -/
theorem degraded_chunks_reported (lib : External) (s : MetadataStore)
    (hs : Reachable lib (KeepsThirdReplica lib) s) :
    ReportsDegradedChunks s ∧
      ∀ s' : MetadataStore, ReportsDegradedChunks s' ↔
        ∀ (id : UInt64) (chunk : MetaChunk), s'.chunks[id]? = some chunk →
          chunk.status = .confirmed → 3 ≤ chunk.storageNodes.length →
            3 ≤ (liveReplicas s'.storageNodes chunk).card := by
  obtain ⟨g, hrun⟩ := hs
  exact ⟨(reports_iff s).mpr hrun.allFullOrRecorded, fun s' => reports_iff s'⟩

/-! ## Losing one of three replicas -/

/-- Object `a` with one chunk on three registered nodes. -/
def threeReplicas : MetadataStore :=
  (MetadataStore.fresh MetaFiles.empty).afterCalls jsonLib
    [.constructStorageNode [1] "http://node-a:50051",
      .constructStorageNode [2] "http://node-b:50051",
      .constructStorageNode [3] "http://node-c:50051", .putObject 7 "a",
      .confirmChunk 10 "a" 9 1, .addChunkReplica 10 2, .addChunkReplica 10 3]

/-- Object `a` with one chunk on one of two registered nodes. -/
def oneOfTwo : MetadataStore :=
  (MetadataStore.fresh MetaFiles.empty).afterCalls jsonLib
    [.constructStorageNode [1] "http://node-a:50051",
      .constructStorageNode [2] "http://node-b:50051", .putObject 7 "a", .confirmChunk 10 "a" 9 1]

/-- The chunk is copied to the second node. -/
def twoOfTwo : MetadataStore :=
  oneOfTwo.afterCalls jsonLib [.addChunkReplica 10 2]

theorem Reachable.afterCall {lib : External} {allowed : MetadataStore → Event → Prop} {op : Op}
    {s : MetadataStore} (hs : Reachable lib allowed s)
    (hallowed : allowed s (.call op .completes)) :
    Reachable lib allowed (s.afterCalls lib [op]) := by
  unfold MetadataStore.afterCalls
  split
  · rename_i happly
    exact hs.call hallowed happly
  · exact hs

/-- A health check removes the second node; the chunk, which has one live replica left, is
reported. -/
theorem degraded_chunks_reported_removedNode :
    let s := twoOfTwo.afterCalls jsonLib [.healthCheck [2]]
    (liveReplicas s.storageNodes ⟨10, "a", 9, [1, 2], .confirmed⟩).card = 1 ∧
      (⟨10, "a", 9, [1, 2], .confirmed⟩ : MetaChunk) ∈ s.listUnderReplicatedChunks 3 := by
  intro s
  have hone : Reachable jsonLib (KeepsThirdReplica jsonLib) oneOfTwo := by
    refine (Reachable.start jsonLib _).afterCalls ?_
    simp [KeepsThirdReplica]
  have htwo : Reachable jsonLib (KeepsThirdReplica jsonLib) twoOfTwo := by
    refine hone.afterCall fun chunk hchunk _ hlength => ?_
    have hrecord : oneOfTwo.chunks[(10 : UInt64)]? = some ⟨10, "a", 9, [1], .confirmed⟩ := by
      decide +kernel
    cases hrecord.symm.trans hchunk
    cases hlength
  have hs : Reachable jsonLib (KeepsThirdReplica jsonLib) s := by
    have hchunks : twoOfTwo.chunks.toList = [(10, ⟨10, "a", 9, [1, 2], .confirmed⟩)] := by
      decide +kernel
    refine htwo.afterCall (HashMap.forall_of_toList hchunks ?_)
    rw [List.forall_mem_singleton]
    intro _ hlength
    simp at hlength
  have hlive : (liveReplicas s.storageNodes ⟨10, "a", 9, [1, 2], .confirmed⟩).card = 1 := by
    decide +kernel
  exact ⟨hlive, (degraded_chunks_reported jsonLib s hs).1 10 _ (by decide +kernel) rfl
    (by rw [hlive]; decide)⟩

/-- After a health check has removed node 3, two replicas of the chunk are left, and
nothing is reported. -/
theorem lost_replica_not_reported :
    let s := threeReplicas.afterCalls jsonLib [.healthCheck [3]]
    Reachable jsonLib anyEvent s ∧
      s.chunks[(10 : UInt64)]? = some ⟨10, "a", 9, [1, 2, 3], .confirmed⟩ ∧
      (liveReplicas s.storageNodes ⟨10, "a", 9, [1, 2, 3], .confirmed⟩).card = 2 ∧
      s.listUnderReplicatedChunks 3 = [] := by
  refine ⟨?_, by decide +kernel, by decide +kernel, by decide +kernel⟩
  exact ((Reachable.start jsonLib anyEvent).afterCalls (by simp [anyEvent])).afterCalls
    (by simp [anyEvent])

end StorageMetadata
end ObjectStore
