import ObjectStore.StorageMetadata.Integrity

/-!
# Storage metadata - What a failed call leaves behind

A method of the store checks its arguments, changes memory and saves.  A call that is
refused by its checks changes nothing.  Two methods look an object up after their first
change, and a `save` that fails undoes nothing.

Main definitions:

- `Op.HarmlessFailure`: a call that returns an error leaves memory as it was.
- `Op.FailsBeforeChange`: what the arguments and the state have to be like for that.

Main results:

- Theorem `harmlessFailure_save_iff`: the calls that end with a `save`.
- Theorem `failed_calls_change_nothing_iff`: all methods.
-/

namespace ObjectStore
namespace StorageMetadata

/-! ## Failures and their conditions -/

/-- The methods that serve one request for one record. -/
def Op.SingleRecord : Op → Prop
  | .removeObjects _ | .healthCheck _ | .ingestPartition .. => False
  | _ => True

/-- If the call returns an error, memory is what it was before the call. -/
def Op.HarmlessFailure (lib : External) (io : SaveIo) (s : MetadataStore) (op : Op) : Prop :=
  ∀ error s', op.apply lib io s = some (.error error, s') →
    s'.objects = s.objects ∧ s'.chunks = s.chunks ∧ s'.storageNodes = s.storageNodes

/-- The call is refused by its checks, or it finds every record it needs and its `save`
completes. -/
def Op.FailsBeforeChange (io : SaveIo) (s : MetadataStore) : Op → Prop
  | .putObject _ name => io = .completes ∨ name ∈ s.objects
  | .putChunk draws _ objectName _ =>
      MetadataStore.generateUniqueId draws s.chunks = none ∨ s.storageNodes.size = 0 ∨
        io = .completes ∧ objectName ∈ s.objects
  | .confirmChunk chunkId objectName _ storageNodeId =>
      io = .completes ∨ storageNodeId ∉ s.storageNodes ∨ objectName ∉ s.objects ∨
        ∃ chunk, s.chunks[chunkId]? = some chunk ∧ chunk.status = .confirmed
  | .deleteChunk chunkId =>
      ∀ chunk, s.chunks[chunkId]? = some chunk → io = .completes ∧ chunk.objectName ∈ s.objects
  | .deleteObject objectName => io = .completes ∨ objectName ∉ s.objects
  -- a `save` that fails does no harm when it would have written what is there already
  | .updateObjectChecksum objectName checksum totalSize =>
      io = .completes ∨ ∀ object, s.objects[objectName]? = some object →
        object.checksum = checksum ∧ object.totalSize = totalSize
  | .addChunkReplica chunkId storageNodeId =>
      io = .completes ∨ storageNodeId ∉ s.storageNodes ∨
        ∀ chunk, s.chunks[chunkId]? = some chunk → storageNodeId ∈ chunk.storageNodes ∨
          MetadataStore.MAX_REPLICAS ≤ chunk.storageNodes.length
  | .allocateChunk .. | .constructStorageNode .. | .deleteStorageNode _ | .removeObjects _
  | .healthCheck _ | .ingestPartition .. => True

variable {lib : External} {io : SaveIo} {s m : MetadataStore} {op : Op}

/-! ## How calls end -/

/-- A `save` that fails leaves what it was to write in memory. -/
theorem harmlessFailure_save_iff (hsave : op.CallsSave lib s m)
    (hnodes : m.storageNodes = s.storageNodes) :
    op.HarmlessFailure lib io s ↔
      io = .completes ∨ m.objects = s.objects ∧ m.chunks = s.chunks := by
  unfold Op.HarmlessFailure
  rw [hsave io]
  cases io with
  | completes => simp [MetadataStore.save]
  | stops step error =>
      have hfails : ∃ e, (m.save lib (.stops step error)).1 = .error e := by
        cases step <;> exact ⟨_, rfl⟩
      rcases hfails with ⟨e, he⟩
      constructor
      · intro h
        have hsame := h e _ (congrArg some (Prod.ext he rfl))
        rw [save_objects, save_chunks] at hsame
        exact .inr ⟨hsame.1, hsame.2.1⟩
      · rintro (hio | ⟨hobjects, hchunks⟩) error' s' happly
        · cases hio
        · have hs' : (m.save lib (.stops step error)).2 = s' :=
            congrArg Prod.snd (Option.some.inj happly)
          rw [← hs', save_objects, save_chunks, save_storageNodes]
          exact ⟨hobjects, hchunks, hnodes⟩

/-- A call that changes the maps does harm exactly when its `save` fails. -/
theorem harmlessFailure_save_iff_completes (hsave : op.CallsSave lib s m)
    (hnodes : m.storageNodes = s.storageNodes)
    (hchanged : m.objects = s.objects → m.chunks ≠ s.chunks) :
    op.HarmlessFailure lib io s ↔ io = .completes := by
  rw [harmlessFailure_save_iff hsave hnodes]
  constructor
  · rintro (hio | ⟨hobjects, hchunks⟩)
    · exact hio
    · exact absurd hchunks (hchanged hobjects)
  · exact .inl

/-- A call that returns without a change does no harm. -/
theorem harmlessFailure_of_unchanged (h : ∃ result, op.apply lib io s = some (result, s)) :
    op.HarmlessFailure lib io s := by
  intro error s' hresult
  rcases h with ⟨result, happly⟩
  rw [happly] at hresult
  cases hresult
  exact ⟨rfl, rfl, rfl⟩

/-- A call that does not return does no harm yet. -/
theorem harmlessFailure_of_none (happly : op.apply lib io s = none) :
    op.HarmlessFailure lib io s := by
  intro error s' hresult
  rw [happly] at hresult
  cases hresult

theorem chooseStorageNode_eq_none_iff (pick : Nat) :
    s.chooseStorageNode pick = none ↔ s.storageNodes.size = 0 := by
  rw [MetadataStore.chooseStorageNode, List.getElem?_eq_none_iff, HashMap.length_valueList]
  constructor
  · intro hle
    by_contra hne
    have hlt := Nat.mod_lt pick (Nat.pos_of_ne_zero hne)
    omega
  · intro hzero
    omega

/-! ## The methods -/

/-- A refused creation changes nothing, one that is not saved does. -/
theorem putObject_harmless_iff (checksum : UInt32) (name : String) :
    (Op.putObject checksum name).HarmlessFailure lib io s ↔
      (Op.putObject checksum name).FailsBeforeChange io s := by
  by_cases hname : name ∈ s.objects
  · refine iff_of_true (harmlessFailure_of_unchanged ?_) (.inr hname)
    simp only [Op.apply, MetadataStore.putObject, Std.ExtTreeMap.mem_iff_contains.mp hname,
      if_true]
    exact ⟨_, rfl⟩
  · have hsave : (Op.putObject checksum name).CallsSave lib s
        { s with objects := s.objects.insert name (.new name checksum) } := by
      intro io
      simp [Op.apply, MetadataStore.putObject, hname]
    rw [harmlessFailure_save_iff_completes hsave rfl fun heq => ?_]
    · simp [Op.FailsBeforeChange, hname]
    · have hmem : name ∈ s.objects := heq ▸ Std.ExtTreeMap.mem_insert_self
      exact absurd hmem hname

/-- The chunk and the object are changed before the save. -/
theorem putChunk_harmless_iff (draws : List UInt64) (pick : Nat) (objectName : String)
    (checksum : UInt32) :
    (Op.putChunk draws pick objectName checksum).HarmlessFailure lib io s ↔
      (Op.putChunk draws pick objectName checksum).FailsBeforeChange io s := by
  unfold Op.FailsBeforeChange
  cases hid : MetadataStore.generateUniqueId draws s.chunks with
  | none =>
      refine iff_of_true (harmlessFailure_of_none ?_) (.inl hid)
      simp [Op.apply, MetadataStore.putChunk, hid]
  | some id =>
      have hfresh : s.chunks[id]? = none := generateUniqueId_fresh hid
      cases hnode : s.chooseStorageNode pick with
      | none =>
          have hempty := (chooseStorageNode_eq_none_iff pick).mp hnode
          refine iff_of_true (harmlessFailure_of_unchanged ?_) (.inr (.inl hempty))
          simp only [Op.apply, MetadataStore.putChunk, hid, hnode]
          exact ⟨_, rfl⟩
      | some node =>
          have hsome : s.storageNodes.size ≠ 0 := by
            rw [ne_eq, ← chooseStorageNode_eq_none_iff pick, hnode]
            simp
          have hchanged : ∀ chunk : MetaChunk, s.chunks.insert id chunk ≠ s.chunks := by
            intro chunk heq
            rw [← heq, Std.ExtTreeMap.getElem?_insert_self] at hfresh
            cases hfresh
          cases hname : s.objects[objectName]? with
          | none =>
              -- the record of the chunk stays behind
              have habsent : objectName ∉ s.objects := by simpa using hname
              have happly : (Op.putChunk draws pick objectName checksum).apply lib io s =
                  some (.error ⟨.notFound, "object not found"⟩,
                    { s with
                      chunks := s.chunks.insert id
                        ((MetaChunk.new id checksum objectName).addStorageNode node.id) }) := by
                simp only [Op.apply, MetadataStore.putChunk, hid, hnode, hname]
                rfl
              refine iff_of_false (fun h => ?_) (by simp [hid, hsome, habsent])
              exact hchanged _ (h _ _ happly).2.1
          | some object =>
              have hmem : objectName ∈ s.objects :=
                HashMap.mem_iff_exists_getElem?.mpr ⟨object, hname⟩
              have hsave : (Op.putChunk draws pick objectName checksum).CallsSave lib s
                  { s with
                    chunks := s.chunks.insert id
                      ((MetaChunk.new id checksum objectName).addStorageNode node.id)
                    objects := s.objects.insert objectName (object.addChunk id) } := by
                intro io
                simp [Op.apply, MetadataStore.putChunk, hid, hnode, hname]
              rw [harmlessFailure_save_iff_completes hsave rfl fun _ => hchanged _]
              simp [hid, hsome, hmem]

/-- So they are by a confirmation. -/
theorem confirmChunk_harmless_iff (chunkId : UInt64) (objectName : String) (checksum : UInt32)
    (storageNodeId : UInt64) :
    (Op.confirmChunk chunkId objectName checksum storageNodeId).HarmlessFailure lib io s ↔
      (Op.confirmChunk chunkId objectName checksum storageNodeId).FailsBeforeChange io s := by
  unfold Op.FailsBeforeChange
  by_cases hnode : storageNodeId ∈ s.storageNodes
  swap
  · refine iff_of_true (harmlessFailure_of_unchanged ?_) (.inr (.inl hnode))
    simp only [Op.apply, MetadataStore.confirmChunk, Std.ExtTreeMap.mem_iff_contains] at hnode ⊢
    simp only [hnode]
    exact ⟨_, rfl⟩
  by_cases hid : ∃ chunk, s.chunks[chunkId]? = some chunk ∧ chunk.status = .confirmed
  · refine iff_of_true (harmlessFailure_of_unchanged ?_) (.inr (.inr (.inr hid)))
    rcases hid with ⟨chunk, hchunk, hstatus⟩
    simp only [Op.apply, MetadataStore.confirmChunk, Std.ExtTreeMap.mem_iff_contains.mp hnode,
      hchunk, Option.any_some, hstatus, decide_true, if_true]
    exact ⟨_, rfl⟩
  · have hany : (s.chunks[chunkId]?).any (·.status = .confirmed) = false := by
      cases hchunk : s.chunks[chunkId]? with
      | none => rfl
      | some chunk => exact decide_eq_false fun hstatus => hid ⟨chunk, hchunk, hstatus⟩
    cases hname : s.objects[objectName]? with
    | none =>
        have habsent : objectName ∉ s.objects := by simpa using hname
        refine iff_of_true (harmlessFailure_of_unchanged ?_) (.inr (.inr (.inl habsent)))
        simp only [Op.apply, MetadataStore.confirmChunk, Std.ExtTreeMap.mem_iff_contains.mp hnode,
          hany, hname]
        exact ⟨_, rfl⟩
    | some object =>
        have hmem : objectName ∈ s.objects :=
          HashMap.mem_iff_exists_getElem?.mpr ⟨object, hname⟩
        have hsave : (Op.confirmChunk chunkId objectName checksum storageNodeId).CallsSave lib s
            { s with
              chunks := s.chunks.insert chunkId
                ((MetaChunk.new chunkId checksum objectName).addStorageNode storageNodeId)
              objects := s.objects.insert objectName (object.addChunk chunkId) } := by
          intro io
          simp [Op.apply, MetadataStore.confirmChunk, hnode, hany, hname]
        rw [harmlessFailure_save_iff_completes hsave rfl fun _ heq => hid ?_]
        · simp only [hnode, hmem, hid, not_true_eq_false, or_false]
        · rw [← heq, Std.ExtTreeMap.getElem?_insert_self]
          exact ⟨_, rfl, rfl⟩

/-- A deletion changes the maps before the save. -/
theorem deleteChunk_harmless_iff (chunkId : UInt64) :
    (Op.deleteChunk chunkId).HarmlessFailure lib io s ↔
      (Op.deleteChunk chunkId).FailsBeforeChange io s := by
  unfold Op.FailsBeforeChange
  cases hid : s.chunks[chunkId]? with
  | none =>
      refine iff_of_true (harmlessFailure_of_unchanged ?_) (by simp [hid])
      simp only [Op.apply, MetadataStore.deleteChunk, hid]
      exact ⟨_, rfl⟩
  | some chunk =>
      have hchanged : s.chunks.erase chunkId ≠ s.chunks := by
        intro heq
        rw [← heq] at hid
        simp at hid
      cases hname : s.objects[chunk.objectName]? with
      | none =>
          -- the record is gone although the call fails
          have habsent : chunk.objectName ∉ s.objects := by simpa using hname
          have happly : (Op.deleteChunk chunkId).apply lib io s =
              some (.error ⟨.notFound, "object not found"⟩,
                { s with chunks := s.chunks.erase chunkId }) := by
            simp only [Op.apply, MetadataStore.deleteChunk, hid, hname]
          refine iff_of_false (fun h => ?_) fun h => habsent (h chunk hid).2
          exact hchanged (h _ _ happly).2.1
      | some object =>
          have hmem : chunk.objectName ∈ s.objects :=
            HashMap.mem_iff_exists_getElem?.mpr ⟨object, hname⟩
          have hsave : (Op.deleteChunk chunkId).CallsSave lib s
              { s with
                chunks := s.chunks.erase chunkId
                objects := s.objects.insert chunk.objectName
                  { object with chunks := object.chunks.filter (· ≠ chunkId) } } := by
            intro io
            simp [Op.apply, MetadataStore.deleteChunk, hid, hname]
          rw [harmlessFailure_save_iff_completes hsave rfl fun _ => hchanged]
          simp [hid, hmem]

/-- So does the deletion of an object. -/
theorem deleteObject_harmless_iff (objectName : String) :
    (Op.deleteObject objectName).HarmlessFailure lib io s ↔
      (Op.deleteObject objectName).FailsBeforeChange io s := by
  unfold Op.FailsBeforeChange
  cases hname : s.objects[objectName]? with
  | none =>
      have habsent : objectName ∉ s.objects := by simpa using hname
      refine iff_of_true (harmlessFailure_of_unchanged ?_) (.inr habsent)
      simp only [Op.apply, MetadataStore.deleteObject, hname]
      exact ⟨_, rfl⟩
  | some object =>
      have hmem : objectName ∈ s.objects := HashMap.mem_iff_exists_getElem?.mpr ⟨object, hname⟩
      have hsave : (Op.deleteObject objectName).CallsSave lib s
          { s with
            objects := s.objects.erase objectName
            chunks := object.chunks.foldl (·.erase ·) s.chunks } := by
        intro io
        simp [Op.apply, MetadataStore.deleteObject, hname]
      rw [harmlessFailure_save_iff_completes hsave rfl fun heq => ?_]
      · simp [hmem]
      · rw [← heq] at hname
        simp at hname

/-- The checksum is set before the save. -/
theorem updateObjectChecksum_harmless_iff (objectName : String) (checksum : UInt32)
    (totalSize : UInt64) :
    (Op.updateObjectChecksum objectName checksum totalSize).HarmlessFailure lib io s ↔
      (Op.updateObjectChecksum objectName checksum totalSize).FailsBeforeChange io s := by
  unfold Op.FailsBeforeChange
  cases hname : s.objects[objectName]? with
  | none =>
      refine iff_of_true (harmlessFailure_of_unchanged ?_) (.inr (by simp [hname]))
      simp only [Op.apply, MetadataStore.updateObjectChecksum, hname]
      exact ⟨_, rfl⟩
  | some object =>
      have hsave : (Op.updateObjectChecksum objectName checksum totalSize).CallsSave lib s
          { s with
            objects := s.objects.insert objectName
              { object with checksum := checksum, totalSize := totalSize } } := by
        intro io
        simp [Op.apply, MetadataStore.updateObjectChecksum, hname]
      have hsame : s.objects.insert objectName
          { object with checksum := checksum, totalSize := totalSize } = s.objects ↔
            object.checksum = checksum ∧ object.totalSize = totalSize := by
        constructor
        · intro heq
          rw [← heq, Std.ExtTreeMap.getElem?_insert_self, Option.some.injEq] at hname
          rw [← hname]
          exact ⟨rfl, rfl⟩
        · rintro ⟨rfl, rfl⟩
          exact HashMap.insert_of_getElem? hname
      rw [harmlessFailure_save_iff hsave rfl]
      simp only [hname, hsame, and_true, Option.some.injEq, forall_eq']

/-- The replica is added before the save. -/
theorem addChunkReplica_harmless_iff (chunkId storageNodeId : UInt64) :
    (Op.addChunkReplica chunkId storageNodeId).HarmlessFailure lib io s ↔
      (Op.addChunkReplica chunkId storageNodeId).FailsBeforeChange io s := by
  unfold Op.FailsBeforeChange
  by_cases hnode : storageNodeId ∈ s.storageNodes
  swap
  · refine iff_of_true (harmlessFailure_of_unchanged ?_) (.inr (.inl hnode))
    simp only [Op.apply, MetadataStore.addChunkReplica, Std.ExtTreeMap.mem_iff_contains] at hnode ⊢
    simp only [hnode]
    exact ⟨_, rfl⟩
  have hcontains := Std.ExtTreeMap.mem_iff_contains.mp hnode
  cases hid : s.chunks[chunkId]? with
  | none =>
      refine iff_of_true (harmlessFailure_of_unchanged ?_) (by simp [hid])
      simp only [Op.apply, MetadataStore.addChunkReplica, hcontains, hid]
      exact ⟨_, rfl⟩
  | some chunk =>
      simp only [hnode, hid, not_true_eq_false, false_or, Option.some.injEq, forall_eq']
      by_cases hnew : storageNodeId ∈ chunk.storageNodes
      · refine iff_of_true (harmlessFailure_of_unchanged ?_) (.inr (.inl hnew))
        simp only [Op.apply, MetadataStore.addChunkReplica, hcontains, hid,
          List.contains_iff_mem.mpr hnew, if_true]
        exact ⟨_, rfl⟩
      · by_cases hroom : MetadataStore.MAX_REPLICAS ≤ chunk.storageNodes.length
        · refine iff_of_true (harmlessFailure_of_unchanged ?_) (.inr (.inr hroom))
          simp only [Op.apply, MetadataStore.addChunkReplica, hcontains, hid,
            List.contains_iff_mem, hnew, hroom, if_true]
          exact ⟨_, rfl⟩
        · have hsave : (Op.addChunkReplica chunkId storageNodeId).CallsSave lib s
              { s with
                chunks := s.chunks.insert chunkId (chunk.addStorageNode storageNodeId) } := by
            intro io
            simp [Op.apply, MetadataStore.addChunkReplica, hnode, hid, hnew, hroom]
          rw [harmlessFailure_save_iff_completes hsave rfl fun _ heq => hnew ?_]
          · simp [hnew, hroom]
          · rw [← heq, Std.ExtTreeMap.getElem?_insert_self, Option.some.injEq] at hid
            rw [← hid]
            simp [MetaChunk.addStorageNode]

/-- A reservation is not saved, and it does not fail once it is made. -/
theorem allocateChunk_harmless (draws : List UInt64) (pick : Nat) (objectName : String) :
    (Op.allocateChunk draws pick objectName).HarmlessFailure lib io s := by
  cases hid : MetadataStore.generateUniqueId draws s.chunks with
  | none =>
      refine harmlessFailure_of_none ?_
      simp [Op.apply, MetadataStore.allocateChunk, hid]
  | some id =>
      cases hnode : s.chooseStorageNode pick with
      | none =>
          refine harmlessFailure_of_unchanged ?_
          simp only [Op.apply, MetadataStore.allocateChunk, hid, hnode]
          exact ⟨_, rfl⟩
      | some node =>
          intro error s' happly
          simp only [Op.apply, MetadataStore.allocateChunk, hid, hnode] at happly
          cases happly

theorem constructStorageNode_harmless (draws : List UInt64) (address : String) :
    (Op.constructStorageNode draws address).HarmlessFailure lib io s := by
  cases hid : MetadataStore.generateUniqueId draws s.storageNodes with
  | none =>
      refine harmlessFailure_of_none ?_
      simp [Op.apply, MetadataStore.constructStorageNode, hid]
  | some id =>
      by_cases huri : lib.isUri address = true
      · intro error s' happly
        simp only [Op.apply, MetadataStore.constructStorageNode, MetadataStore.newStorageNode, hid,
          huri, if_true] at happly
        cases happly
      · refine harmlessFailure_of_unchanged ?_
        simp only [Op.apply, MetadataStore.constructStorageNode, MetadataStore.newStorageNode, hid,
          huri]
        exact ⟨_, rfl⟩

theorem deleteStorageNode_harmless (storageNodeId : UInt64) :
    (Op.deleteStorageNode storageNodeId).HarmlessFailure lib io s := by
  by_cases hnode : s.storageNodes.contains storageNodeId
  · intro error s' happly
    simp only [Op.apply, MetadataStore.deleteStorageNode, hnode, if_true] at happly
    cases happly
  · refine harmlessFailure_of_unchanged ?_
    simp only [Op.apply, MetadataStore.deleteStorageNode, hnode]
    exact ⟨_, rfl⟩

/-- A call that returns an error changes nothing, exactly when it is refused by its checks or
finds every record it needs and saves successfully. -/
theorem failed_calls_change_nothing_iff (lib : External) (io : SaveIo) (s : MetadataStore)
    (op : Op) (hop : op.SingleRecord) :
    op.HarmlessFailure lib io s ↔ op.FailsBeforeChange io s := by
  cases op with
  | putObject checksum name => exact putObject_harmless_iff checksum name
  | putChunk draws pick name checksum => exact putChunk_harmless_iff draws pick name checksum
  | allocateChunk draws pick name =>
      exact iff_of_true (allocateChunk_harmless draws pick name) trivial
  | confirmChunk id name checksum node => exact confirmChunk_harmless_iff id name checksum node
  | deleteChunk id => exact deleteChunk_harmless_iff id
  | deleteObject name => exact deleteObject_harmless_iff name
  | updateObjectChecksum name checksum size =>
      exact updateObjectChecksum_harmless_iff name checksum size
  | addChunkReplica id node => exact addChunkReplica_harmless_iff id node
  | constructStorageNode draws address =>
      exact iff_of_true (constructStorageNode_harmless draws address) trivial
  | deleteStorageNode id => exact iff_of_true (deleteStorageNode_harmless id) trivial
  | removeObjects _ | healthCheck _ | ingestPartition _ _ => cases hop

/-- A store with one registered storage node. -/
def oneNodeStore : MetadataStore :=
  (MetadataStore.fresh MetaFiles.empty).afterCalls jsonLib
    [.constructStorageNode [1] "http://node-a:50051"]

/-- Confirming a chunk of an absent object is refused in time. -/
theorem failed_calls_change_nothing_iff_confirm :
    (Op.confirmChunk 10 "a" 9 1).HarmlessFailure jsonLib .completes oneNodeStore :=
  (failed_calls_change_nothing_iff jsonLib .completes oneNodeStore (.confirmChunk 10 "a" 9 1)
    trivial).mpr (.inl rfl)

/-- `put_chunk` for an absent object fails and leaves a `Confirmed` record behind. -/
theorem failed_put_chunk_leaves_record :
    Reachable jsonLib localEvent oneNodeStore ∧
      ∃ s', (Op.putChunk [30] 0 "b" 5).apply jsonLib .completes oneNodeStore =
          some (.error ⟨.notFound, "object not found"⟩, s') ∧
        oneNodeStore.chunks[(30 : UInt64)]? = none ∧
        s'.chunks[(30 : UInt64)]? = some ⟨30, "b", 5, [1], .confirmed⟩ := by
  constructor
  · refine (Reachable.start jsonLib localEvent).afterCalls ?_
    simp [localEvent, Op.FromPeer]
  · refine ⟨_, rfl, ?_, ?_⟩
    · decide +kernel
    · decide +kernel

end StorageMetadata
end ObjectStore
