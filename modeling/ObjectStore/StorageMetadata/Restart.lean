import ObjectStore.StorageMetadata.UnderReplication

/-!
# Storage metadata - Restarting a metadata node

The chunk records on file name storage nodes by their ids.  The registry behind
these ids is not persisted: after a restart the nodes register again, and each
registration draws a new id.

Main results:

- Theorem `Run.file_agrees`: while all saves complete, the file agrees with memory
  on every object and every listed chunk.
- Theorem `restart_keeps_objects_iff`: exactly when a restart loses no object.
- Theorem `restart_loses_object`: a run after which it does.
-/

namespace ObjectStore
namespace StorageMetadata

/-! ## What a restart should keep -/

/-- Storage nodes register one after the other, each with the random numbers drawn
for it and its address. -/
def StorageMetadataImpl.registerAll (lib : External) (self : StorageMetadataImpl) :
    List (List UInt64 × String) → Option StorageMetadataImpl
  | [] => some self
  | (draws, address) :: rest =>
      match self.putStorageNode lib draws address with
      | some (_, self) => self.registerAll lib rest
      | none => none

/-- Both responses list the same chunks, each at the same set of addresses. -/
def SameAddresses (before after : Proto.GetObjectResponse) : Prop :=
  List.Forall₂ (fun chunk chunk' : Proto.MetaChunk => chunk.id = chunk'.id ∧
      (chunk.storageNodes.map (·.address)).toFinset =
        (chunk'.storageNodes.map (·.address)).toFinset)
    before.chunks after.chunks

/-- Every object that `before` serves is served by `after`, at the same addresses. -/
def LosesNoObject (before after : StorageMetadataImpl) : Prop :=
  ∀ name response, before.getObject name = .ok response →
    ∃ response', after.getObject name = .ok response' ∧ SameAddresses response response'

/-- The addresses of the registered replicas that a record names. -/
def MetadataStore.addresses (s : MetadataStore) (chunk : MetaChunk) : Finset String :=
  ((s.registeredStorageNodes chunk.storageNodes).map (·.address)).toFinset

/-! ## Registering -/

theorem putStorageNode_maps {lib : External} {node node' : StorageMetadataImpl}
    {draws : List UInt64} {address : String} {result : Except Status UInt64}
    (h : node.putStorageNode lib draws address = some (result, node')) :
    node'.metadataStore.maps = node.metadataStore.maps := by
  unfold StorageMetadataImpl.putStorageNode MetadataStore.constructStorageNode at h
  cases hid : MetadataStore.generateUniqueId draws node.metadataStore.storageNodes with
  | none => simp [hid] at h
  | some id =>
      cases huri : lib.isUri address with
      | false =>
          simp [hid, MetadataStore.newStorageNode, huri] at h
          rw [← h.2]
          rfl
      | true =>
          simp [hid, MetadataStore.newStorageNode, huri] at h
          rw [← h.2]
          rfl

/-- Registering storage nodes changes no object and no chunk. -/
theorem registerAll_maps {lib : External} {registrations : List (List UInt64 × String)}
    {node node' : StorageMetadataImpl}
    (h : node.registerAll lib registrations = some node') :
    node'.metadataStore.maps = node.metadataStore.maps := by
  induction registrations generalizing node with
  | nil =>
      cases h
      rfl
  | cons registration rest ih =>
      obtain ⟨draws, address⟩ := registration
      unfold StorageMetadataImpl.registerAll at h
      split at h
      · rename_i result next hput
        rw [ih h, putStorageNode_maps hput]
      · cases h

/-! ## The file and memory -/

/-- Local calls whose file steps complete, and restarts. -/
def completedEvent (_ : MetadataStore) : Event → Prop
  | .call op io => ¬ op.FromPeer ∧ io = .completes
  | .restart => True

/-- The maps agree on every object and on the record of every listed chunk. -/
structure Agrees (g g' : Maps) : Prop where
  objects : g.objects = g'.objects
  chunks : ∀ {name : String} {object : MetaObject} {id : UInt64},
    g.objects[name]? = some object → id ∈ object.chunks → g.chunks[id]? = g'.chunks[id]?

theorem Agrees.refl (g : Maps) : Agrees g g :=
  ⟨rfl, fun _ _ => rfl⟩

/-- What is left unsaved concerns no listed chunk. -/
theorem Agrees.sideEdit {lib : External} {op : Op} {s m : MetadataStore} {g : Maps}
    (hedit : SideEdit lib op s m) (hintegrity : Integrity s.maps) (h : Agrees s.maps g) :
    Agrees m.maps g := by
  cases hedit with
  | reserve name hid =>
      refine ⟨h.objects, fun hobject hlisted => ?_⟩
      have hold := hintegrity.confirms hobject hlisted
      have hne := hold.ne fun chunk hchunk => absurd (hid.symm.trans hchunk) (by simp)
      exact (HashMap.getElem?_insert_of_ne _ _ hne).trans (h.chunks hobject hlisted)
  | orphan checksum hid hname hnode =>
      refine ⟨h.objects, fun hobject hlisted => ?_⟩
      have hold := hintegrity.confirms hobject hlisted
      have hne := hold.ne fun chunk hchunk => absurd (hid.symm.trans hchunk) (by simp)
      exact (HashMap.getElem?_insert_of_ne _ _ hne).trans (h.chunks hobject hlisted)
  | @dropOrphan id chunk hid hname =>
      refine ⟨h.objects, fun {name object other} hobject hlisted => ?_⟩
      have hne : other ≠ id := by
        rintro rfl
        obtain ⟨found, hfound, _, rfl⟩ := hintegrity.confirms hobject hlisted
        obtain rfl : chunk = found := Option.some.inj (hid.symm.trans hfound)
        exact absurd (hname.symm.trans hobject) (by simp)
      exact (HashMap.getElem?_erase_of_ne _ hne).trans (h.chunks hobject hlisted)
  | register hid haddress => exact h
  | unregister ids hop => exact h

/-- While every save completes, the file holds what memory holds, apart from records
that no object lists. -/
theorem Run.file_agrees {lib : External} (hlib : lib.Lawful) {s : MetadataStore} {g : Maps}
    (hrun : Run lib completedEvent s g) : Agrees s.maps g := by
  refine hrun.invariant (P := fun s g => Agrees s.maps g) (fun _ => .refl _) ?_
  intro s g s' g' hbefore hstep h
  have hlocal : Run lib localEvent s g := by
    refine hbefore.mono fun s event hevent => ?_
    cases event with
    | call op io => exact hevent.1
    | restart => trivial
  cases hstep with
  | saving hallowed hsave =>
      obtain ⟨_, rfl⟩ := hallowed
      rw [save_maps]
      exact .refl _
  | other _ hnot happly =>
      rcases (Op.side_of_not_callsSave hnot happly).1 with rfl | hedit
      · exact h
      · exact h.sideEdit hedit (hlocal.integrity hlib).1
  | restart _ hcrash hnew =>
      rw [((hbefore.persisted hlib).survives hcrash).new hlib] at hnew
      cases hnew
      exact .refl _

/-! ## Responses before and after -/

/-- The descriptions of two resolvable lists of the same chunks, compared one by one. -/
theorem forall₂_describe_iff {s s' : MetadataStore} {ids : List UInt64}
    (hs : Recorded s ids) (hs' : Recorded s' ids)
    (R : Proto.MetaChunk → Proto.MetaChunk → Prop) :
    List.Forall₂ R (ids.filterMap fun id => (s.chunks[id]?).map s.describe)
        (ids.filterMap fun id => (s'.chunks[id]?).map s'.describe) ↔
      ∀ id ∈ ids, ∀ chunk chunk', s.chunks[id]? = some chunk → s'.chunks[id]? = some chunk' →
        R (s.describe chunk) (s'.describe chunk') := by
  induction ids with
  | nil => simp
  | cons id ids ih =>
      obtain ⟨chunk, hchunk⟩ := hs id (by simp)
      obtain ⟨chunk', hchunk'⟩ := hs' id (by simp)
      simp [hchunk, hchunk', ih hs.tail hs'.tail]

/-- Equal lists of ids are a consequence of the same addresses. -/
theorem SameAddresses.map_id_eq {before after : Proto.GetObjectResponse}
    (h : SameAddresses before after) :
    before.chunks.map (·.id) = after.chunks.map (·.id) := by
  have hall : ∀ {chunks chunks' : List Proto.MetaChunk},
      List.Forall₂ (fun chunk chunk' : Proto.MetaChunk => chunk.id = chunk'.id ∧
        (chunk.storageNodes.map (·.address)).toFinset =
          (chunk'.storageNodes.map (·.address)).toFinset) chunks chunks' →
      chunks.map (·.id) = chunks'.map (·.id) := by
    intro chunks chunks' hforall
    induction hforall with
    | nil => rfl
    | cons hhead _ ih => rw [List.map_cons, List.map_cons, hhead.1, ih]
  exact hall h

/-- The responses for two records of one object, in two stores. -/
theorem sameAddresses_response_iff {s s' : MetadataStore} (hs : Keyed s.maps)
    (hs' : Keyed s'.maps) {object object' : MetaObject} (hchunks : object'.chunks = object.chunks)
    (hrecorded : Recorded s object.chunks) (hrecorded' : Recorded s' object.chunks) :
    SameAddresses (s.response object) (s'.response object') ↔
      ∀ id ∈ object.chunks, ∀ chunk chunk', s.chunks[id]? = some chunk →
        s'.chunks[id]? = some chunk' → s.addresses chunk = s'.addresses chunk' := by
  unfold SameAddresses MetadataStore.response
  rw [hchunks, forall₂_describe_iff hrecorded hrecorded']
  refine forall₂_congr fun id hid => forall₂_congr fun chunk chunk' => ?_
  refine imp_congr_right fun hchunk => imp_congr_right fun hchunk' => ?_
  have hkey : chunk.id = id := hs.chunk hchunk
  have hkey' : chunk'.id = id := hs'.chunk hchunk'
  simp [MetadataStore.describe, MetadataStore.addresses, hkey, hkey']

/-- `after` has what it needs to serve the object as `before` does: its file lists the
same chunks, and the nodes that the records on file name are registered, at the
addresses the chunks had. -/
def Restored (before after : MetadataStore) (name : String) (object : MetaObject) : Prop :=
  ∃ object', after.objects[name]? = some object' ∧ object'.chunks = object.chunks ∧
    ∀ id ∈ object.chunks, ∀ chunk, before.chunks[id]? = some chunk →
      ∃ chunk', after.chunks[id]? = some chunk' ∧
        (∀ nodeId ∈ chunk'.storageNodes, nodeId ∈ after.storageNodes) ∧
        after.addresses chunk' = before.addresses chunk

theorem Restored.resolvable {before after : MetadataStore} {name : String}
    {object : MetaObject} (h : Restored before after name object)
    (hresolvable : Resolvable before object.chunks) : Resolvable after object.chunks := by
  obtain ⟨object', hname', hchunks, hall⟩ := h
  intro id hid
  obtain ⟨chunk, hchunk, _⟩ := hresolvable id hid
  obtain ⟨chunk', hchunk', hnodes, _⟩ := hall id hid chunk hchunk
  exact ⟨chunk', hchunk', hnodes⟩

/-- No readable object is lost exactly when every readable object is restored. -/
theorem losesNoObject_iff {before after : StorageMetadataImpl}
    (hbefore : Keyed before.metadataStore.maps) (hafter : Keyed after.metadataStore.maps) :
    LosesNoObject before after ↔
      ∀ name object, before.metadataStore.objects[name]? = some object →
        Resolvable before.metadataStore object.chunks →
          Restored before.metadataStore after.metadataStore name object := by
  constructor
  · intro hkeeps name object hname hresolvable
    obtain ⟨response', hresponse', hsame⟩ := hkeeps name _
      ((getObject_eq_ok_iff hname).mpr ⟨hresolvable, rfl⟩)
    obtain ⟨object', hname'⟩ := stored_of_getObject hresponse'
    obtain ⟨hresolvable', rfl⟩ := (getObject_eq_ok_iff hname').mp hresponse'
    have hchunks : object'.chunks = object.chunks := by
      have hids := hsame.map_id_eq
      rw [map_id_response hbefore hresolvable.recorded,
        map_id_response hafter hresolvable'.recorded] at hids
      exact hids.symm
    rw [hchunks] at hresolvable'
    rw [sameAddresses_response_iff hbefore hafter hchunks hresolvable.recorded
      hresolvable'.recorded] at hsame
    refine ⟨object', hname', hchunks, fun id hid chunk hchunk => ?_⟩
    obtain ⟨chunk', hchunk', hnodes⟩ := hresolvable' id hid
    exact ⟨chunk', hchunk', hnodes, (hsame id hid chunk chunk' hchunk hchunk').symm⟩
  · intro hrestored name response hresponse
    obtain ⟨object, hname⟩ := stored_of_getObject hresponse
    obtain ⟨hresolvable, rfl⟩ := (getObject_eq_ok_iff hname).mp hresponse
    have hobject := hrestored name object hname hresolvable
    have hresolvable' := hobject.resolvable hresolvable
    obtain ⟨object', hname', hchunks, hall⟩ := hobject
    rw [← hchunks] at hresolvable'
    refine ⟨_, (getObject_eq_ok_iff hname').mpr ⟨hresolvable', rfl⟩, ?_⟩
    rw [hchunks] at hresolvable'
    rw [sameAddresses_response_iff hbefore hafter hchunks hresolvable.recorded
      hresolvable'.recorded]
    intro id hid chunk chunk' hchunk hchunk'
    obtain ⟨found, hfound, _, haddresses⟩ := hall id hid chunk hchunk
    obtain rfl : chunk' = found := Option.some.inj (hchunk'.symm.trans hfound)
    exact haddresses.symm

/-- On the records that memory and file agree on, an object is restored exactly when
the node ids that its chunks record are registered again, at the same addresses. -/
theorem restored_iff_of_agrees {before after : MetadataStore}
    (hagrees : Agrees before.maps after.maps) {name : String} {object : MetaObject}
    (hname : before.objects[name]? = some object) :
    Restored before after name object ↔
      ∀ id ∈ object.chunks, ∀ chunk, before.chunks[id]? = some chunk →
        (∀ nodeId ∈ chunk.storageNodes, nodeId ∈ after.storageNodes) ∧
          after.addresses chunk = before.addresses chunk := by
  have hfile : ∀ id ∈ object.chunks, after.chunks[id]? = before.chunks[id]? :=
    fun id hid => (hagrees.chunks hname hid).symm
  constructor
  · rintro ⟨object', _, _, hall⟩ id hid chunk hchunk
    obtain ⟨chunk', hchunk', hnodes, haddresses⟩ := hall id hid chunk hchunk
    rw [hfile id hid] at hchunk'
    obtain rfl : chunk = chunk' := Option.some.inj (hchunk.symm.trans hchunk')
    exact ⟨hnodes, haddresses⟩
  · intro hall
    have hobjects : before.objects = after.objects := hagrees.objects
    refine ⟨object, hobjects ▸ hname, rfl, fun id hid chunk hchunk => ?_⟩
    exact ⟨chunk, (hfile id hid).trans hchunk, hall id hid chunk hchunk⟩

/-- A restart.  The state is reloaded from the file, and storage nodes register, with
whatever ids are drawn.  In every run, no readable object is lost exactly when the
file covers it and the ids on file are registered again at the old addresses.  While
the saves of the run complete, the file covers every object, so it depends on the ids
drawn alone: for every chunk of a readable object, every node id it records is drawn
again, and the addresses registered under these ids are those it had. -/
theorem restart_keeps_objects_iff (lib : External) (hlib : lib.Lawful)
    (before after : StorageMetadataImpl) (g : Maps) (files : MetaFiles)
    (reloaded : MetadataStore) (index : HashMap UInt64 String)
    (registrations : List (List UInt64 × String))
    (hrun : Run lib anyEvent before.metadataStore g)
    (hcrash : before.metadataStore.files.Survives files)
    (hnew : MetadataStore.new lib files = .ok reloaded)
    (hregister : StorageMetadataImpl.registerAll lib ⟨reloaded, index⟩ registrations =
      some after) :
    (LosesNoObject before after ↔
      ∀ (name : String) (object : MetaObject),
        before.metadataStore.objects[name]? = some object →
        Resolvable before.metadataStore object.chunks →
          Restored before.metadataStore after.metadataStore name object) ∧
    (Run lib completedEvent before.metadataStore g →
      (LosesNoObject before after ↔
        ∀ (name : String) (object : MetaObject),
          before.metadataStore.objects[name]? = some object →
          Resolvable before.metadataStore object.chunks →
            ∀ id ∈ object.chunks, ∀ chunk, before.metadataStore.chunks[id]? = some chunk →
              (∀ nodeId ∈ chunk.storageNodes, nodeId ∈ after.metadataStore.storageNodes) ∧
                after.metadataStore.addresses chunk =
                  before.metadataStore.addresses chunk)) := by
  obtain ⟨found, hfound, hmaps⟩ := hrun.reload hlib hcrash
  obtain rfl : reloaded = found := Except.ok.inj (hnew.symm.trans hfound)
  have hafter : after.metadataStore.maps = g := (registerAll_maps hregister).trans hmaps
  have hkeyed := hrun.keyed hlib
  have hiff := losesNoObject_iff hkeyed.1 (hafter ▸ hkeyed.2)
  refine ⟨hiff, fun hcompleted => hiff.trans ?_⟩
  have hagrees : Agrees before.metadataStore.maps after.metadataStore.maps :=
    hafter ▸ hcompleted.file_agrees hlib
  refine forall₂_congr fun name object => ?_
  exact forall₂_congr fun hname _ => restored_iff_of_agrees hagrees hname

/-! ## One object, one storage node -/

/-- Object `a` with one chunk on the only storage node, which has id 1. -/
def oneReplica : MetadataStore :=
  (MetadataStore.fresh MetaFiles.empty).afterCalls jsonLib
    [.constructStorageNode [1] "http://node-a:50051", .putObject 7 "a",
      .confirmChunk 10 "a" 9 1]

/-- The store that a restart reloads. -/
def oneReplicaReloaded : MetadataStore :=
  { MetadataStore.fresh oneReplica.files with
    objects := oneReplica.objects
    chunks := oneReplica.chunks }

/-- The node after a restart at which the storage node registers again and the id
`drawn` is drawn for it. -/
def oneReplicaRestarted (drawn : UInt64) : Option StorageMetadataImpl :=
  StorageMetadataImpl.registerAll jsonLib ⟨oneReplicaReloaded, ∅⟩
    [([drawn], "http://node-a:50051")]

set_option maxRecDepth 10000 in
theorem new_oneReplica : MetadataStore.new jsonLib oneReplica.files = .ok oneReplicaReloaded := by
  have hfile : oneReplica.files.main = some (savedFile jsonLib oneReplica.maps) := rfl
  exact Persisted.new jsonLib_lawful (.inr hfile)

theorem oneReplica_reachable : Reachable jsonLib completedEvent oneReplica := by
  refine (Reachable.start jsonLib _).afterCalls ?_
  simp [completedEvent, Op.FromPeer]

/-- When the old id is drawn again, nothing is lost. -/
theorem restart_keeps_objects_iff_sameId :
    ∃ after, oneReplicaRestarted 1 = some after ∧ LosesNoObject ⟨oneReplica, ∅⟩ after := by
  obtain ⟨g, hrun⟩ := oneReplica_reachable
  obtain ⟨after, hafter⟩ := Option.isSome_iff_exists.mp
    (show (oneReplicaRestarted 1).isSome = true by decide +kernel)
  have hregistry : (oneReplicaRestarted 1).map (·.metadataStore.storageNodes) =
      some oneReplica.storageNodes := by decide +kernel
  rw [hafter, Option.map_some, Option.some.injEq] at hregistry
  have hiff := restart_keeps_objects_iff jsonLib jsonLib_lawful ⟨oneReplica, ∅⟩ after g
    oneReplica.files oneReplicaReloaded ∅ _ (hrun.mono fun _ _ _ => trivial) (.refl _)
    new_oneReplica hafter
  refine ⟨after, hafter, (hiff.2 hrun).mpr fun name object hname hresolvable => ?_⟩
  intro id hid chunk hchunk
  obtain ⟨found, hfound, hnodes⟩ := hresolvable id hid
  obtain rfl : chunk = found := Option.some.inj (hchunk.symm.trans hfound)
  refine ⟨fun nodeId hmem => hregistry ▸ hnodes nodeId hmem, ?_⟩
  simp only [MetadataStore.addresses, MetadataStore.registeredStorageNodes, hregistry]

/-- When another id is drawn, the object that was readable before is lost. -/
theorem restart_loses_object :
    Reachable jsonLib completedEvent oneReplica ∧
      (⟨oneReplica, ∅⟩ : StorageMetadataImpl).getObject "a" =
        .ok ⟨7, [⟨10, 9, [⟨1, "http://node-a:50051"⟩]⟩]⟩ ∧
      MetadataStore.new jsonLib oneReplica.files = .ok oneReplicaReloaded ∧
      ∃ after, oneReplicaRestarted 2 = some after ∧
        after.getObject "a" =
          .error ⟨.internal, "storage node 1 referenced by chunk but not found"⟩ := by
  have hlost : (oneReplicaRestarted 2).map (·.getObject "a") =
      some (.error ⟨.internal, "storage node 1 referenced by chunk but not found"⟩) := by
    decide +kernel
  refine ⟨oneReplica_reachable, by decide +kernel, new_oneReplica, ?_⟩
  exact Option.map_eq_some_iff.mp hlost

end StorageMetadata
end ObjectStore
