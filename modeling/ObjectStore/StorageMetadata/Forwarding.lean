import ObjectStore.StorageMetadata.Routing

/-!
# Storage metadata - Local and forwarded handlers

Nine requests are served by two handlers each: one for the node that a client contacts, and
one for the node that the request is forwarded to.  They were written one by one, and four
of the pairs answer differently in some states.

Main results:

- Theorem `handleForwarded_maps`: both handlers leave the same store and the same index.
- Theorem `handlers_agree_iff`: exactly when their answers agree too.
-/

namespace ObjectStore
namespace StorageMetadata

/-! ## Requests -/

/-- The requests that can be forwarded, with the random numbers drawn for them. -/
inductive ForwardRequest where
  | putObject (checksum : UInt32) (name : String)
  | getObject (name : String)
  | deleteObject (name : String)
  | putChunk (draws : List UInt64) (pick : Nat) (objectName : String) (checksum : UInt32)
  | allocateChunk (draws : List UInt64) (pick : Nat) (objectName : String)
  | confirmChunk (chunkId : UInt64) (objectName : String) (checksum : UInt32)
      (storageNodeId : UInt64)
  | getChunk (chunkId : UInt64)
  | deleteChunk (chunkId : UInt64)
  | addChunkReplica (chunkId storageNodeId : UInt64)

/-- The payload of a response. -/
inductive Reply where
  | empty
  | object (response : Proto.GetObjectResponse)
  | putChunk (response : Proto.PutChunkResponse)
  | allocated (response : Proto.AllocateChunkResponse)
  | chunk (response : Proto.GetChunkResponse)
deriving DecidableEq

/-- An answer next to the node that it leaves; none if the random numbers do not suffice. -/
abbrev Outcome := Option (Except Status Reply × StorageMetadataImpl)

/-- The result of a handler that changes the node. -/
def outcomeOf {α : Type} (reply : α → Reply)
    (result : Except Status α × StorageMetadataImpl) : Except Status Reply × StorageMetadataImpl :=
  (result.1.map reply, result.2)

namespace StorageMetadataImpl

variable (lib : External) (io : SaveIo) (self : StorageMetadataImpl)

/-- The local branches of the handlers in `main.rs`. -/
def handleLocally : ForwardRequest → Outcome
  | .putObject checksum name =>
      some (outcomeOf (fun _ => .empty) (self.putObject lib io checksum name))
  | .getObject name => some ((self.getObject name).map .object, self)
  | .deleteObject name => some (outcomeOf (fun _ => .empty) (self.deleteObject lib io name))
  | .putChunk draws pick objectName checksum =>
      (self.putChunk lib io draws pick objectName checksum).map (outcomeOf .putChunk)
  | .allocateChunk draws pick objectName =>
      (self.allocateChunk draws pick objectName).map (outcomeOf .allocated)
  | .confirmChunk chunkId objectName checksum storageNodeId =>
      some (outcomeOf (fun _ => .empty)
        (self.confirmChunk lib io chunkId objectName checksum storageNodeId))
  | .getChunk chunkId => some ((self.getChunk chunkId).map .chunk, self)
  | .deleteChunk chunkId => some (outcomeOf (fun _ => .empty) (self.deleteChunk lib io chunkId))
  | .addChunkReplica chunkId storageNodeId =>
      some (outcomeOf (fun _ => .empty) (self.addChunkReplica lib io chunkId storageNodeId))

/-- The handlers in `cluster_service.rs`. -/
def handleForwarded : ForwardRequest → Outcome
  | .putObject checksum name =>
      some (outcomeOf (fun _ => .empty) (self.forwardPutObject lib io checksum name))
  | .getObject name => some ((self.forwardGetObject name).map .object, self)
  | .deleteObject name =>
      some (outcomeOf (fun _ => .empty) (self.forwardDeleteObject lib io name))
  | .putChunk draws pick objectName checksum =>
      (self.forwardPutChunk lib io draws pick objectName checksum).map (outcomeOf .putChunk)
  | .allocateChunk draws pick objectName =>
      (self.forwardAllocateChunk draws pick objectName).map (outcomeOf .allocated)
  | .confirmChunk chunkId objectName checksum storageNodeId =>
      some (outcomeOf (fun _ => .empty)
        (self.forwardConfirmChunk lib io chunkId objectName checksum storageNodeId))
  | .getChunk chunkId => some ((self.forwardGetChunk chunkId).map .chunk, self)
  | .deleteChunk chunkId =>
      some (outcomeOf (fun _ => .empty) (self.forwardDeleteChunk lib io chunkId))
  | .addChunkReplica chunkId storageNodeId =>
      some (outcomeOf (fun _ => .empty) (self.forwardAddChunkReplica lib io chunkId storageNodeId))

end StorageMetadataImpl

/-! ## Agreement -/

/-- The same payload, or the same status code; the messages may differ. -/
def SameAnswer {α : Type} : Except Status α → Except Status α → Prop
  | .ok reply, .ok reply' => reply = reply'
  | .error status, .error status' => status.code = status'.code
  | _, _ => False

/-- The answers agree, and the nodes are the same. -/
def SameOutcome : Outcome → Outcome → Prop
  | some left, some right => SameAnswer left.1 right.1 ∧ left.2 = right.2
  | none, none => True
  | _, _ => False

/-- The file steps fail with the kind that `put_object` has for a stored name. -/
def SaveIo.FailsAsExisting (io : SaveIo) : Prop :=
  ∃ step error, io = .stops step error ∧ error.kind = .alreadyExists

/-- Where the two handlers have drifted apart. -/
def ForwardRequest.Drifts (io : SaveIo) (s : MetadataStore) : ForwardRequest → Prop
  | .putObject _ name => name ∈ s.objects ∨ io.FailsAsExisting
  | .putChunk draws pick objectName _ =>
      (MetadataStore.generateUniqueId draws s.chunks).isSome ∧
        (s.chooseStorageNode pick).isSome ∧ objectName ∈ s.objects ∧ io.FailsAsExisting
  | .getObject name => ∃ object, s.objects[name]? = some object ∧
      Recorded s object.chunks ∧ ¬ Resolvable s object.chunks
  | .getChunk chunkId => ∃ chunk, s.chunks[chunkId]? = some chunk ∧
      ∃ nodeId ∈ chunk.storageNodes, nodeId ∉ s.storageNodes
  | _ => False

theorem sameAnswer_refl {α : Type} (answer : Except Status α) : SameAnswer answer answer := by
  cases answer <;> simp [SameAnswer]

theorem sameOutcome_refl (outcome : Outcome) : SameOutcome outcome outcome := by
  cases outcome with
  | none => trivial
  | some result => exact ⟨sameAnswer_refl _, rfl⟩

@[simp]
theorem sameAnswer_map {α β : Type} {f : α → β} (hf : Function.Injective f)
    {left right : Except Status α} :
    SameAnswer (left.map f) (right.map f) ↔ SameAnswer left right := by
  cases left <;> cases right <;> simp [SameAnswer, Except.map, hf.eq_iff]

/-- The result of a save. -/
theorem save_eq (lib : External) (io : SaveIo) (m : MetadataStore) :
    (io = .completes ∧ (m.save lib io).1 = .ok ()) ∨
      ∃ step error, io = .stops step error ∧ (m.save lib io).1 = .error error := by
  cases io with
  | completes => exact .inl ⟨rfl, rfl⟩
  | stops step error =>
      refine .inr ⟨step, error, rfl, ?_⟩
      cases step <;> rfl

/-! ## The pairs that differ -/

variable {lib : External} {io : SaveIo} {node : StorageMetadataImpl}

/-- The call fails with the kind that only one of two handlers tells apart. -/
def RefusedAsExisting {α : Type} (result : IoResult α) : Prop :=
  ∃ error, result = .error error ∧ error.kind = .alreadyExists

/-- A save can fail with the error of a used name. -/
theorem save_refusedAsExisting_iff {m : MetadataStore} :
    RefusedAsExisting (m.save lib io).1 ↔ io.FailsAsExisting := by
  rcases save_eq lib io m with ⟨rfl, hok⟩ | ⟨step, error, rfl, herror⟩
  · simp [RefusedAsExisting, SaveIo.FailsAsExisting, hok]
  · simp [RefusedAsExisting, SaveIo.FailsAsExisting, herror]

theorem saveThen_refusedAsExisting_iff {α : Type} {m : MetadataStore} {value : α} :
    RefusedAsExisting (m.saveThen lib io value).1 ↔ io.FailsAsExisting := by
  rw [← @save_refusedAsExisting_iff lib io m]
  unfold MetadataStore.saveThen
  split
  · rename_i hsave
    simp [RefusedAsExisting, hsave]
  · rename_i hsave
    simp [RefusedAsExisting, hsave]

/-- The answers to a creation differ when it is refused as existing. -/
theorem putObject_sameAnswer_iff {checksum : UInt32} {name : String} :
    SameAnswer (node.putObject lib io checksum name).1
        (node.forwardPutObject lib io checksum name).1 ↔
      ¬ RefusedAsExisting (node.metadataStore.putObject lib io checksum name).1 := by
  unfold StorageMetadataImpl.putObject StorageMetadataImpl.forwardPutObject
  rcases node.metadataStore.putObject lib io checksum name with ⟨result, store⟩
  cases result with
  | ok value => simp [SameAnswer, RefusedAsExisting]
  | error error =>
      rcases error with ⟨kind, message⟩
      cases kind <;> simp [SameAnswer, RefusedAsExisting]

/-- The node is the same after both handlers. -/
theorem putObject_same_node {checksum : UInt32} {name : String} :
    (node.putObject lib io checksum name).2 = (node.forwardPutObject lib io checksum name).2 := by
  unfold StorageMetadataImpl.putObject StorageMetadataImpl.forwardPutObject
  rcases node.metadataStore.putObject lib io checksum name with ⟨result, store⟩
  cases result with
  | ok value => rfl
  | error error =>
      rcases error with ⟨kind, message⟩
      cases kind <;> rfl

/-- When a creation is refused as existing. -/
theorem putObject_refused_iff {s : MetadataStore} {checksum : UInt32} {name : String} :
    RefusedAsExisting (s.putObject lib io checksum name).1 ↔
      name ∈ s.objects ∨ io.FailsAsExisting := by
  rcases MetadataStore.putObject_effect lib io s checksum name with
    ⟨object, hname, heffect⟩ | ⟨hname, heffect⟩
  · have hmem : name ∈ s.objects := HashMap.mem_iff_exists_getElem?.mpr ⟨object, hname⟩
    rw [heffect]
    simp [RefusedAsExisting, hmem]
  · have hnot : name ∉ s.objects := by simpa using hname
    rw [heffect, save_refusedAsExisting_iff]
    simp [hnot]

/-- Both handlers of `put_chunk` make of the method's result what their errors say. -/
theorem putChunk_sameOutcome_iff {draws : List UInt64} {pick : Nat} {name : String}
    {checksum : UInt32} :
    SameOutcome (node.handleLocally lib io (.putChunk draws pick name checksum))
        (node.handleForwarded lib io (.putChunk draws pick name checksum)) ↔
      ∀ result store, node.metadataStore.putChunk lib io draws pick name checksum =
        some (result, store) → ¬ RefusedAsExisting result := by
  simp only [StorageMetadataImpl.handleLocally, StorageMetadataImpl.handleForwarded,
    StorageMetadataImpl.putChunk, StorageMetadataImpl.forwardPutChunk]
  cases hmethod : node.metadataStore.putChunk lib io draws pick name checksum with
  | none => simp [SameOutcome]
  | some outcome =>
      rcases outcome with ⟨result, store⟩
      cases result with
      | ok value => simp [SameOutcome, outcomeOf, SameAnswer, Except.map, RefusedAsExisting]
      | error error =>
          rcases error with ⟨kind, message⟩
          cases kind <;>
            simp [SameOutcome, outcomeOf, SameAnswer, Except.map, RefusedAsExisting]

theorem putChunk_refused_iff {s : MetadataStore} {draws : List UInt64} {pick : Nat}
    {name : String} {checksum : UInt32} :
    (∃ result store, s.putChunk lib io draws pick name checksum = some (result, store) ∧
        RefusedAsExisting result) ↔
      (MetadataStore.generateUniqueId draws s.chunks).isSome ∧
        (s.chooseStorageNode pick).isSome ∧ name ∈ s.objects ∧ io.FailsAsExisting := by
  simp only [MetadataStore.putChunk]
  cases hid : MetadataStore.generateUniqueId draws s.chunks with
  | none => simp
  | some id =>
      cases hnode : s.chooseStorageNode pick with
      | none => simp [RefusedAsExisting]
      | some storageNode =>
          cases hname : s.objects[name]? with
          | none =>
              have hnot : name ∉ s.objects := by simpa using hname
              simp [RefusedAsExisting, hnot]
          | some object =>
              have hmem : name ∈ s.objects := HashMap.mem_iff_exists_getElem?.mpr ⟨object, hname⟩
              simp [hmem, saveThen_refusedAsExisting_iff, Prod.ext_iff]

/-- Without a record for every listed chunk both lookups fail, with the same code. -/
theorem forwardChunks_error {s : MetadataStore} {ids : List UInt64} (h : ¬ Recorded s ids) :
    (∃ message, s.resolveChunks ids = .error ⟨.internal, message⟩) ∧
      ∃ message, s.forwardChunks ids = .error ⟨.internal, message⟩ := by
  induction ids with
  | nil => exact absurd (by simp [Recorded]) h
  | cons id ids ih =>
      cases hchunk : s.chunks[id]? with
      | none => simp [MetadataStore.resolveChunks, MetadataStore.forwardChunks, hchunk]
      | some chunk =>
          have hrest : ¬ Recorded s ids := by
            intro hrest
            apply h
            intro other hother
            rcases List.mem_cons.mp hother with rfl | hother
            · exact ⟨chunk, hchunk⟩
            · exact hrest other hother
          rcases ih hrest with ⟨⟨message, hresolve⟩, message', hforward⟩
          constructor
          · cases hnodes : s.resolveStorageNodes chunk.storageNodes with
            | ok nodes => simp [MetadataStore.resolveChunks, hchunk, hnodes, hresolve]
            | error status =>
                have hcode : ∃ nodeId ∈ chunk.storageNodes, nodeId ∉ s.storageNodes := by
                  by_contra hall
                  push Not at hall
                  rw [resolveStorageNodes_eq hall] at hnodes
                  cases hnodes
                rcases hcode with ⟨nodeId, hmem, habsent⟩
                rcases resolveStorageNodes_error hmem habsent with ⟨found, _, _, herror⟩
                simp [MetadataStore.resolveChunks, hchunk, herror]
          · simp [MetadataStore.forwardChunks, hchunk, hforward]

/-- The lookups differ on records that name unregistered nodes. -/
theorem getObject_sameAnswer_iff {name : String} :
    SameAnswer (node.getObject name) (node.forwardGetObject name) ↔
      ¬ ∃ object, node.metadataStore.objects[name]? = some object ∧
        Recorded node.metadataStore object.chunks ∧
          ¬ Resolvable node.metadataStore object.chunks := by
  unfold StorageMetadataImpl.getObject StorageMetadataImpl.forwardGetObject
    MetadataStore.forwardGetObject
  cases hname : node.metadataStore.objects[name]? with
  | none =>
      simp [MetadataStore.lookupObject, MetadataStore.getObject, hname, SameAnswer]
  | some object =>
      simp only [lookupObject_eq hname, Option.some.injEq, exists_eq_left']
      unfold MetadataStore.resolveObject
      by_cases hrecorded : Recorded node.metadataStore object.chunks
      · rw [forwardChunks_eq hrecorded]
        by_cases hresolvable : Resolvable node.metadataStore object.chunks
        · rw [resolveChunks_eq hresolvable]
          simp [SameAnswer, hresolvable]
        · rcases resolveChunks_error hrecorded hresolvable with ⟨_, _, _, _, _, _, _, herror⟩
          rw [herror]
          simp [SameAnswer, hrecorded, hresolvable]
      · rcases forwardChunks_error hrecorded with ⟨⟨_, hresolve⟩, _, hforward⟩
        rw [hresolve, hforward]
        simp [SameAnswer, hrecorded]

/-- So do the lookups of a chunk. -/
theorem getChunk_sameAnswer_iff {id : UInt64} :
    SameAnswer (node.getChunk id) (node.forwardGetChunk id) ↔
      ¬ ∃ chunk, node.metadataStore.chunks[id]? = some chunk ∧
        ∃ nodeId ∈ chunk.storageNodes, nodeId ∉ node.metadataStore.storageNodes := by
  unfold StorageMetadataImpl.getChunk StorageMetadataImpl.forwardGetChunk
  cases hchunk : node.metadataStore.chunks[id]? with
  | none => simp [MetadataStore.getChunk, hchunk, SameAnswer]
  | some chunk =>
      simp only [MetadataStore.getChunk, hchunk, Option.some.injEq, exists_eq_left']
      by_cases hall : ∀ nodeId ∈ chunk.storageNodes, nodeId ∈ node.metadataStore.storageNodes
      · rw [resolveStorageNodes_eq hall]
        simpa [SameAnswer] using hall
      · push Not at hall
        rcases hall with ⟨nodeId, hmem, habsent⟩
        rcases resolveStorageNodes_error hmem habsent with ⟨_, _, _, herror⟩
        rw [herror]
        simp only [SameAnswer, false_iff, not_not]
        exact ⟨nodeId, hmem, habsent⟩

/-! ## All pairs -/

/-- Which of the two handlers serves a request makes no difference to the node. -/
theorem handleForwarded_maps (request : ForwardRequest) :
    (node.handleLocally lib io request).map Prod.snd =
      (node.handleForwarded lib io request).map Prod.snd := by
  cases request with
  | putObject checksum name => exact congrArg some putObject_same_node
  | putChunk draws pick name checksum =>
      simp only [StorageMetadataImpl.handleLocally, StorageMetadataImpl.handleForwarded,
        StorageMetadataImpl.putChunk, StorageMetadataImpl.forwardPutChunk, Option.map_map]
      congr 1
      funext outcome
      rcases outcome with ⟨result, store⟩
      cases result with
      | ok value => rfl
      | error error =>
          rcases error with ⟨kind, message⟩
          cases kind <;> rfl
  | getObject name =>
      simp only [StorageMetadataImpl.handleLocally, StorageMetadataImpl.handleForwarded,
        Option.map_some]
  | _ => rfl

/-- The local handler and the one of the forwarded request return the same payload or the
same status code, and leave the same store and chunk index, exactly when the request is not
one where they have drifted apart. -/
theorem handlers_agree_iff (lib : External) (io : SaveIo) (node : StorageMetadataImpl)
    (request : ForwardRequest) :
    SameOutcome (node.handleLocally lib io request) (node.handleForwarded lib io request) ↔
      ¬ request.Drifts io node.metadataStore := by
  cases request with
  | putObject checksum name =>
      have hcodes := @putObject_sameAnswer_iff lib io node checksum name
      rw [putObject_refused_iff] at hcodes
      have hunit : Function.Injective (fun _ : Unit => Reply.empty) := fun _ _ _ => rfl
      unfold ForwardRequest.Drifts
      rw [← hcodes, ← sameAnswer_map hunit]
      constructor
      · intro h
        exact h.1
      · intro h
        exact ⟨h, putObject_same_node⟩
  | getObject name =>
      have hreply : Function.Injective Reply.object := fun _ _ => Reply.object.inj
      unfold ForwardRequest.Drifts
      rw [← getObject_sameAnswer_iff, ← sameAnswer_map hreply]
      exact and_iff_left rfl
  | getChunk id =>
      have hreply : Function.Injective Reply.chunk := fun _ _ => Reply.chunk.inj
      unfold ForwardRequest.Drifts
      rw [← getChunk_sameAnswer_iff, ← sameAnswer_map hreply]
      exact and_iff_left rfl
  | putChunk draws pick name checksum =>
      rw [putChunk_sameOutcome_iff, ForwardRequest.Drifts, ← @putChunk_refused_iff lib]
      push Not
      rfl
  | deleteObject _ | allocateChunk _ _ _ | confirmChunk _ _ _ _ | deleteChunk _
  | addChunkReplica _ _ =>
      simp only [ForwardRequest.Drifts, not_false_eq_true, iff_true]
      exact sameOutcome_refl _

/-- A node that stores `a`. -/
def storedNode : StorageMetadataImpl := (freshNode.putObject jsonLib .completes 7 "a").2

/-- The second `put_object` of a name: `AlreadyExists` at the owner, `Internal` elsewhere. -/
theorem put_object_answers_differ :
    ¬ SameOutcome (storedNode.handleLocally jsonLib .completes (.putObject 8 "a"))
      (storedNode.handleForwarded jsonLib .completes (.putObject 8 "a")) := by
  intro hsame
  have hmem : "a" ∈ storedNode.metadataStore.objects := by decide +kernel
  have hlocal : ∃ message, (storedNode.putObject jsonLib .completes 8 "a").1 =
      .error ⟨.alreadyExists, message⟩ := by
    simp [StorageMetadataImpl.putObject, MetadataStore.putObject, hmem]
  have hforwarded : ∃ message, (storedNode.forwardPutObject jsonLib .completes 8 "a").1 =
      .error ⟨.internal, message⟩ := by
    simp [StorageMetadataImpl.forwardPutObject, MetadataStore.putObject, hmem]
  rcases hlocal with ⟨message, hlocal⟩
  rcases hforwarded with ⟨message', hforwarded⟩
  have hcodes := hsame.1
  simp [outcomeOf, hlocal, hforwarded, SameAnswer, Except.map] at hcodes

end StorageMetadata
end ObjectStore
