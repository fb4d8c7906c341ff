import ObjectStore.StorageMetadata.View

/-!
# Storage metadata - Calls for other objects

What each call makes of the maps, method by method, and that a call which is aimed at
other objects leaves the view of an object alone, however it ends.

Main results:

- Theorem `Op.apply_outcome`: the maps that a call leaves.
- Theorem `view_isolated`: calls for other objects leave a view alone.
-/

namespace ObjectStore
namespace StorageMetadata

/-! ## What a call leaves -/

/-- What a call makes of the maps. -/
inductive Op.Outcome (s : MetadataStore) : Op → MetadataStore → Prop where
  /-- The call is refused, or it is about the registry. -/
  | unchanged (op : Op) : Outcome s op s
  | create (checksum : UInt32) {name : String} (hname : s.objects[name]? = none) :
      Outcome s (.putObject checksum name) (s.withObject name (.new name checksum))
  | orphan {draws : List UInt64} {pick : Nat} (name : String) (checksum : UInt32)
      {id nodeId : UInt64} (hid : s.chunks[id]? = none) :
      Outcome s (.putChunk draws pick name checksum)
        (s.withChunk id ((MetaChunk.new id checksum name).addStorageNode nodeId))
  | put {draws : List UInt64} {pick : Nat} {name : String} (checksum : UInt32)
      {id nodeId : UInt64} {object : MetaObject} (hid : s.chunks[id]? = none)
      (hname : s.objects[name]? = some object) :
      Outcome s (.putChunk draws pick name checksum)
        (s.withAttached id name object checksum nodeId)
  | reserve {draws : List UInt64} {pick : Nat} (name : String) {id : UInt64}
      (hid : s.chunks[id]? = none) :
      Outcome s (.allocateChunk draws pick name) (s.withChunk id (.newPending id name))
  | confirm {id nodeId : UInt64} {name : String} (checksum : UInt32) {object : MetaObject}
      (hid : ∀ chunk, s.chunks[id]? = some chunk → chunk.status = .pending)
      (hname : s.objects[name]? = some object) :
      Outcome s (.confirmChunk id name checksum nodeId)
        (s.withAttached id name object checksum nodeId)
  | dropOrphan {id : UInt64} {chunk : MetaChunk} (hid : s.chunks[id]? = some chunk)
      (hname : s.objects[chunk.objectName]? = none) :
      Outcome s (.deleteChunk id) (s.withoutChunk id)
  | dropChunk {id : UInt64} {chunk : MetaChunk} {object : MetaObject}
      (hid : s.chunks[id]? = some chunk) (hname : s.objects[chunk.objectName]? = some object) :
      Outcome s (.deleteChunk id)
        ((s.withoutChunk id).withObject chunk.objectName (object.removeChunk id))
  | dropObject {name : String} {object : MetaObject} (hname : s.objects[name]? = some object) :
      Outcome s (.deleteObject name) (s.withoutObject name object)
  | dropObjects (names : List String) :
      Outcome s (.removeObjects names) (names.foldl MetadataStore.removeObject s)
  | setChecksum {name : String} {object : MetaObject} (checksum : UInt32) (totalSize : UInt64)
      (hname : s.objects[name]? = some object) :
      Outcome s (.updateObjectChecksum name checksum totalSize)
        (s.withObject name { object with checksum := checksum, totalSize := totalSize })
  | addReplica {id nodeId : UInt64} {chunk : MetaChunk} (hid : s.chunks[id]? = some chunk)
      (hnew : nodeId ∉ chunk.storageNodes)
      (hroom : chunk.storageNodes.length < MetadataStore.MAX_REPLICAS) :
      Outcome s (.addChunkReplica id nodeId) (s.withChunk id (chunk.addStorageNode nodeId))
  | ingest (objects : List MetaObject) (chunks : List MetaChunk) :
      Outcome s (.ingestPartition objects chunks) (s.ingest objects chunks)

/-- The outcome, and the maps in it. -/
def Op.Leaves (s : MetadataStore) (op : Op) (s' : MetadataStore) : Prop :=
  ∃ m, op.Outcome s m ∧ s'.maps = m.maps

theorem Op.Outcome.leaves {s m : MetadataStore} {op : Op} (h : op.Outcome s m) :
    op.Leaves s m :=
  ⟨m, h, rfl⟩

/-- A call that saves leaves what it has saved, even if that fails. -/
theorem Op.Outcome.leaves_save {lib : External} {io : SaveIo} {s m s' : MetadataStore} {op : Op}
    {result : IoResult Unit} (h : op.Outcome s m) (hsave : (result, s') = m.save lib io) :
    op.Leaves s s' := by
  have hmaps := save_maps lib io m
  rw [← hsave] at hmaps
  exact ⟨m, h, hmaps⟩

/-- The maps that a call leaves. -/
theorem Op.apply_outcome {lib : External} {io : SaveIo} {op : Op} {s s' : MetadataStore}
    {result : IoResult Unit} (happly : op.apply lib io s = some (result, s')) :
    op.Leaves s s' := by
  have hnothing : op.Leaves s s := (Op.Outcome.unchanged op).leaves
  cases op with
  | putObject checksum name =>
      have hresult := Option.some.inj happly
      rcases MetadataStore.putObject_effect lib io s checksum name with
        ⟨_, _, heffect⟩ | ⟨hname, heffect⟩
      · rw [heffect] at hresult
        cases hresult
        exact hnothing
      · exact (Op.Outcome.create checksum hname).leaves_save (hresult.symm.trans heffect)
  | putChunk draws pick name checksum =>
      rcases Option.map_eq_some_iff.mp happly with ⟨outcome, houtcome, hresult⟩
      rcases MetadataStore.putChunk_effect houtcome with
        ⟨_, rfl⟩ | ⟨id, node, hid, _, ⟨_, rfl⟩ | ⟨object, hname, rfl⟩⟩
      · cases hresult
        exact hnothing
      · cases hresult
        exact (Op.Outcome.orphan name checksum (generateUniqueId_fresh hid)).leaves
      · rw [discard_saveThen] at hresult
        exact (Op.Outcome.put checksum (generateUniqueId_fresh hid) hname).leaves_save hresult.symm
  | allocateChunk draws pick name =>
      rcases Option.map_eq_some_iff.mp happly with ⟨outcome, houtcome, hresult⟩
      rcases MetadataStore.allocateChunk_effect houtcome with ⟨_, rfl⟩ | ⟨id, node, hid, _, rfl⟩
      · cases hresult
        exact hnothing
      · cases hresult
        exact (Op.Outcome.reserve name (generateUniqueId_fresh hid)).leaves
  | confirmChunk id name checksum nodeId =>
      have hresult := Option.some.inj happly
      rcases MetadataStore.confirmChunk_effect lib io s id name checksum nodeId with
        ⟨_, heffect⟩ | ⟨object, hname, _, hid, heffect⟩
      · rw [heffect] at hresult
        cases hresult
        exact hnothing
      · exact (Op.Outcome.confirm checksum hid hname).leaves_save (hresult.symm.trans heffect)
  | deleteChunk id =>
      have hresult := Option.some.inj happly
      rcases MetadataStore.deleteChunk_effect lib io s id with
        ⟨_, heffect⟩ | ⟨chunk, hid, ⟨hname, heffect⟩ | ⟨object, hname, heffect⟩⟩
      · rw [heffect] at hresult
        cases hresult
        exact hnothing
      · rw [heffect] at hresult
        cases hresult
        exact (Op.Outcome.dropOrphan hid hname).leaves
      · exact (Op.Outcome.dropChunk hid hname).leaves_save (hresult.symm.trans heffect)
  | deleteObject name =>
      have hresult := Option.some.inj happly
      rcases MetadataStore.deleteObject_effect lib io s name with
        ⟨_, heffect⟩ | ⟨object, hname, heffect⟩
      · rw [heffect] at hresult
        cases hresult
        exact hnothing
      · exact (Op.Outcome.dropObject hname).leaves_save (hresult.symm.trans heffect)
  | removeObjects names =>
      have hresult : (names.foldl MetadataStore.removeObject s).saveThen lib io () =
          (result, s') := Option.some.inj happly
      rw [saveThen_unit] at hresult
      exact (Op.Outcome.dropObjects names).leaves_save hresult.symm
  | updateObjectChecksum name checksum totalSize =>
      have hresult := Option.some.inj happly
      rcases MetadataStore.updateObjectChecksum_effect lib io s name checksum totalSize with
        ⟨_, heffect⟩ | ⟨object, hname, heffect⟩
      · rw [heffect] at hresult
        cases hresult
        exact hnothing
      · exact (Op.Outcome.setChecksum checksum totalSize hname).leaves_save
          (hresult.symm.trans heffect)
  | addChunkReplica id nodeId =>
      have hresult := Option.some.inj happly
      rcases MetadataStore.addChunkReplica_effect lib io s id nodeId with
        ⟨_, heffect⟩ | ⟨chunk, hid, _, hnew, hroom, heffect⟩
      · rw [heffect] at hresult
        cases hresult
        exact hnothing
      · exact (Op.Outcome.addReplica hid hnew hroom).leaves_save (hresult.symm.trans heffect)
  | constructStorageNode draws address =>
      rcases Option.map_eq_some_iff.mp happly with ⟨outcome, houtcome, hresult⟩
      rcases Option.map_eq_some_iff.mp houtcome with ⟨id, _, rfl⟩
      split at hresult
      · cases hresult
        exact hnothing
      · cases hresult
        exact hnothing
  | deleteStorageNode id =>
      have hresult := Option.some.inj happly
      unfold MetadataStore.deleteStorageNode at hresult
      split at hresult
      · cases hresult
        exact hnothing
      · cases hresult
        exact hnothing
  | healthCheck ids =>
      cases Option.some.inj happly
      exact hnothing
  | ingestPartition objects chunks =>
      have hresult : (s.ingest objects chunks).saveThen lib io () = (result, s') :=
        Option.some.inj happly
      rw [saveThen_unit] at hresult
      exact (Op.Outcome.ingest objects chunks).leaves_save hresult.symm

/-! ## Isolation -/

/-- The object that the call is for, or that the record of its chunk names. -/
def Op.AimedAt (s : MetadataStore) (name : String) : Op → Prop
  | .putObject _ target => target = name
  | .putChunk _ _ target _ => target = name
  | .allocateChunk _ _ target => target = name
  | .confirmChunk _ target _ _ => target = name
  | .deleteObject target => target = name
  | .updateObjectChecksum target _ _ => target = name
  | .removeObjects targets => name ∈ targets
  | .deleteChunk id => ∃ chunk, s.chunks[id]? = some chunk ∧ chunk.objectName = name
  | .addChunkReplica id _ => ∃ chunk, s.chunks[id]? = some chunk ∧ chunk.objectName = name
  | .constructStorageNode .. | .deleteStorageNode _ | .healthCheck _ => False
  | .ingestPartition .. => True

/-- A round of the loop of `remove_objects` deletes an object or does nothing. -/
theorem removeObject_cases (s : MetadataStore) (name : String) :
    s.removeObject name = s ∨ ∃ object, s.objects[name]? = some object ∧
      s.removeObject name = s.withoutObject name object := by
  unfold MetadataStore.removeObject
  split
  · exact .inl rfl
  · rename_i object hname
    exact .inr ⟨object, hname, rfl⟩

/-- Removing other objects. -/
theorem view_removeObjects {s : MetadataStore} (h : Integrity s.maps) {names : List String}
    {name : String} (hname : name ∉ names) :
    (names.foldl MetadataStore.removeObject s).maps.view name = s.maps.view name := by
  induction names generalizing s with
  | nil => rfl
  | cons first rest ih =>
      simp only [List.mem_cons, not_or] at hname
      rw [List.foldl_cons]
      rcases removeObject_cases s first with hsame | ⟨object, hfirst, hremoved⟩
      · rw [hsame]
        exact ih h hname.2
      · have hrest : Integrity (s.withoutObject first object).maps := integrity_dropObject h hfirst
        rw [hremoved, ih hrest hname.2]
        exact view_withoutObject h hfirst hname.1

/-- Calls for other objects leave the view of an object alone. -/
theorem Op.Outcome.view {s m : MetadataStore} {op : Op} (h : op.Outcome s m)
    (hs : Integrity s.maps) {name : String} (hop : ¬ op.AimedAt s name) :
    m.maps.view name = s.maps.view name := by
  cases h with
  | unchanged => rfl
  | create checksum hname => exact view_withObject _ _ (Ne.symm hop)
  | @orphan _ _ target checksum id nodeId hid =>
      exact view_withUnlisted _ (fun _ => hs.not_lists (by simp [MetadataStore.maps, hid])) name
  | @put _ _ target checksum id nodeId object hid hname =>
      exact view_withAttached hs checksum (by simp [hid]) (Ne.symm hop)
  | @reserve _ _ target id hid =>
      exact view_withUnlisted _ (fun _ => hs.not_lists (by simp [MetadataStore.maps, hid])) name
  | confirm checksum hid hname => exact view_withAttached hs checksum hid (Ne.symm hop)
  | @dropOrphan id chunk hid hname =>
      exact view_withoutChunk hs hid fun heq => hop ⟨chunk, hid, heq.symm⟩
  | @dropChunk id chunk object hid hname =>
      have hne : name ≠ chunk.objectName := fun heq => hop ⟨chunk, hid, heq.symm⟩
      rw [view_withObject _ _ hne]
      exact view_withoutChunk hs hid hne
  | dropObject hname => exact view_withoutObject hs hname (Ne.symm hop)
  | dropObjects names => exact view_removeObjects hs hop
  | setChecksum checksum totalSize hname => exact view_withObject _ _ (Ne.symm hop)
  | @addReplica id nodeId chunk hid hnew hroom =>
      exact view_withReplica hs hid nodeId fun heq => hop ⟨chunk, hid, heq.symm⟩
  | ingest objects chunks => exact (hop trivial).elim

/-- In every reachable state a call that is aimed at other objects leaves the view of an
object as it is, whether the call succeeds or fails: the object with its checksum, its size
and its chunk list, and the record of every listed chunk. -/
theorem view_isolated (lib : External) (hlib : lib.Lawful) (s : MetadataStore)
    (hs : Reachable lib localEvent s) (op : Op) (io : SaveIo) (result : IoResult Unit)
    (s' : MetadataStore) (happly : op.apply lib io s = some (result, s')) (name : String)
    (hop : ¬ op.AimedAt s name) : s'.maps.view name = s.maps.view name := by
  rcases hs with ⟨g, hrun⟩
  rcases Op.apply_outcome happly with ⟨m, houtcome, hmaps⟩
  rw [hmaps]
  exact houtcome.view (hrun.integrity hlib).1 hop

/-- The id that is reserved for `b` is confirmed for `a`, which leaves `b` with its one
chunk. -/
theorem view_isolated_confirm :
    let s := (MetadataStore.fresh MetaFiles.empty).afterCalls jsonLib
      [.constructStorageNode [1] "http://node-a:50051", .putObject 7 "a", .putObject 8 "b",
        .putChunk [10] 0 "b" 5, .allocateChunk [20] 0 "b"]
    (s.confirmChunk jsonLib .completes 20 "a" 9 1).1 = .ok () ∧
      (s.confirmChunk jsonLib .completes 20 "a" 9 1).2.maps.view "b" =
        some (⟨"b", 8, [10], 0⟩, [some ⟨10, "b", 5, [1], .confirmed⟩]) := by
  intro s
  have hs : Reachable jsonLib localEvent s := by
    refine (Reachable.start jsonLib localEvent).afterCalls ?_
    simp [localEvent, Op.FromPeer]
  have hview :
      s.maps.view "b" = some (⟨"b", 8, [10], 0⟩, [some ⟨10, "b", 5, [1], .confirmed⟩]) := by
    decide +kernel
  constructor
  · decide +kernel
  · rw [← hview]
    exact view_isolated jsonLib jsonLib_lawful s hs (.confirmChunk 20 "a" 9 1) .completes _ _ rfl
      "b" (by simp [Op.AimedAt])

end StorageMetadata
end ObjectStore
