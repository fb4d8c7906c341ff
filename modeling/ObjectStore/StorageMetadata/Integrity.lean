import ObjectStore.StorageMetadata.Lookup
import ObjectStore.StorageMetadata.Persistence

/-!
# Storage metadata - Referential integrity

An id that an object lists was `Pending` or absent until it was listed, and from
then on it has a `Confirmed` record of that object.  So a listed id is never
handed out a second time, and a record that disappears takes its listing along.

Main results:

- Theorem `integrity_edit`, `integrity_sideEdit`: one change of memory.
- Theorem `Run.integrity`: memory and the saved maps, along every local run.
- Theorem `listed_chunks_confirmed_and_unique`: the reachable states.
-/

namespace ObjectStore
namespace StorageMetadata

/-! ## The invariant -/

/-- The record of `id` says that it is a `Confirmed` chunk of the object `name`. -/
def Maps.Confirms (g : Maps) (id : UInt64) (name : String) : Prop :=
  ∃ chunk, g.chunks[id]? = some chunk ∧ chunk.status = .confirmed ∧ chunk.objectName = name

/-- Referential integrity of the persisted half of a store. -/
structure Integrity (g : Maps) : Prop where
  confirms : ∀ {name : String} {object : MetaObject} {id : UInt64},
    g.objects[name]? = some object → id ∈ object.chunks → g.Confirms id name
  nodup : ∀ {name : String} {object : MetaObject},
    g.objects[name]? = some object → object.chunks.Nodup

/-- The chunk lists of all objects, one after the other. -/
def Maps.listedChunks (g : Maps) : List UInt64 :=
  g.objects.valueList.flatMap MetaObject.chunks

theorem integrity_empty : Integrity Maps.empty where
  confirms := by simp [Maps.empty]
  nodup := by simp [Maps.empty]

/-- Two objects never list the same id. -/
theorem Integrity.name_eq {g : Maps} (h : Integrity g) {name name' : String}
    {object object' : MetaObject} {id : UInt64} (hname : g.objects[name]? = some object)
    (hname' : g.objects[name']? = some object') (hid : id ∈ object.chunks)
    (hid' : id ∈ object'.chunks) : name = name' := by
  obtain ⟨chunk, hchunk, _, rfl⟩ := h.confirms hname hid
  obtain ⟨chunk', hchunk', _, rfl⟩ := h.confirms hname' hid'
  rw [hchunk] at hchunk'
  cases hchunk'
  rfl

/-- An id without a `Confirmed` record is not listed. -/
theorem Integrity.not_listed {g : Maps} (h : Integrity g) {name : String}
    {object : MetaObject} {id : UInt64} (hname : g.objects[name]? = some object)
    (hid : ∀ chunk, g.chunks[id]? = some chunk → chunk.status = .pending) :
    id ∉ object.chunks := by
  intro hlisted
  obtain ⟨chunk, hchunk, hconfirmed, _⟩ := h.confirms hname hlisted
  rw [hid chunk hchunk] at hconfirmed
  cases hconfirmed

/-- No chunk is listed twice. -/
theorem Integrity.listedChunks_nodup {g : Maps} (h : Integrity g) :
    g.listedChunks.Nodup := by
  unfold Maps.listedChunks HashMap.valueList
  rw [List.nodup_flatMap]
  constructor
  · intro object hobject
    obtain ⟨⟨name, _⟩, hentry, rfl⟩ := List.mem_map.mp hobject
    exact h.nodup (Std.ExtTreeMap.mem_toList_iff_getElem?_eq_some.mp hentry)
  · rw [List.pairwise_map]
    refine List.Pairwise.imp_of_mem ?_ Std.ExtTreeMap.distinct_keys_toList
    rintro ⟨name, object⟩ ⟨name', object'⟩ hentry hentry' hne id hid hid'
    have hname := Std.ExtTreeMap.mem_toList_iff_getElem?_eq_some.mp hentry
    have hname' := Std.ExtTreeMap.mem_toList_iff_getElem?_eq_some.mp hentry'
    exact hne (Std.compare_eq_iff_eq.mpr (h.name_eq hname hname' hid hid'))

/-- Every listed id occurs once over all objects together. -/
theorem Integrity.count_eq_one {g : Maps} (h : Integrity g) {name : String}
    {object : MetaObject} {id : UInt64} (hname : g.objects[name]? = some object)
    (hid : id ∈ object.chunks) : g.listedChunks.count id = 1 := by
  refine List.count_eq_one_of_mem h.listedChunks_nodup ?_
  rw [Maps.listedChunks, List.mem_flatMap]
  exact ⟨object, HashMap.mem_valueList.mpr ⟨name, hname⟩, hid⟩

/-! ## One change of memory -/

/-- A change that concerns the object `name` at most: the records of the chunks of
all other objects stay, and what `name` lists afterwards is right. -/
theorem Integrity.update {g g' : Maps} (h : Integrity g) (name : String)
    (hobjects : ∀ other, other ≠ name → g'.objects[other]? = g.objects[other]?)
    (hchunks : ∀ id other, other ≠ name → g.Confirms id other → g'.Confirms id other)
    (hconfirms : ∀ object, g'.objects[name]? = some object →
      ∀ id ∈ object.chunks, g'.Confirms id name)
    (hnodup : ∀ object, g'.objects[name]? = some object → object.chunks.Nodup) :
    Integrity g' where
  confirms := by
    intro other object id hother hid
    by_cases heq : other = name
    · subst heq
      exact hconfirms object hother id hid
    · rw [hobjects other heq] at hother
      exact hchunks id other heq (h.confirms hother hid)
  nodup := by
    intro other object hother
    by_cases heq : other = name
    · subst heq
      exact hnodup object hother
    · rw [hobjects other heq] at hother
      exact h.nodup hother

theorem Maps.Confirms.insert_ne {g : Maps} {id key : UInt64} {name : String}
    (h : g.Confirms id name) (hne : id ≠ key) (objects : HashMap String MetaObject)
    (chunk : MetaChunk) : Maps.Confirms ⟨objects, g.chunks.insert key chunk⟩ id name := by
  obtain ⟨found, hfound, hstatus, hname⟩ := h
  exact ⟨found, (HashMap.getElem?_insert_of_ne _ _ hne).trans hfound, hstatus, hname⟩

theorem Maps.Confirms.erase_ne {g : Maps} {id key : UInt64} {name : String}
    (h : g.Confirms id name) (hne : id ≠ key) (objects : HashMap String MetaObject) :
    Maps.Confirms ⟨objects, g.chunks.erase key⟩ id name := by
  obtain ⟨found, hfound, hstatus, hname⟩ := h
  exact ⟨found, (HashMap.getElem?_erase_of_ne _ hne).trans hfound, hstatus, hname⟩

/-- An id that has a `Confirmed` record differs from one that has none. -/
theorem Maps.Confirms.ne {g : Maps} {id key : UInt64} {name : String}
    (h : g.Confirms id name)
    (hkey : ∀ chunk, g.chunks[key]? = some chunk → chunk.status = .pending) : id ≠ key := by
  rintro rfl
  obtain ⟨chunk, hchunk, hconfirmed, _⟩ := h
  rw [hkey chunk hchunk] at hconfirmed
  cases hconfirmed

/-- A new object lists nothing. -/
theorem integrity_addObject {s : MetadataStore} (h : Integrity s.maps) (name : String)
    (checksum : UInt32) :
    Integrity ⟨s.objects.insert name (.new name checksum), s.chunks⟩ := by
  refine h.update name (fun _ hne => HashMap.getElem?_insert_of_ne _ _ hne)
    (fun _ _ _ hold => hold) ?_ ?_
  · intro object hobject
    obtain rfl := HashMap.getElem?_insert_same _ hobject
    simp [MetaObject.new]
  · intro object hobject
    obtain rfl := HashMap.getElem?_insert_same _ hobject
    simp [MetaObject.new]

/-- The fields of an object do not matter. -/
theorem integrity_setChecksum {s : MetadataStore} (h : Integrity s.maps) {name : String}
    {object : MetaObject} (checksum : UInt32) (totalSize : UInt64)
    (hname : s.objects[name]? = some object) :
    Integrity ⟨s.objects.insert name
      { object with checksum := checksum, totalSize := totalSize }, s.chunks⟩ := by
  refine h.update name (fun _ hne => HashMap.getElem?_insert_of_ne _ _ hne)
    (fun _ _ _ hold => hold) ?_ ?_
  · intro object' hobject id hid
    obtain rfl := HashMap.getElem?_insert_same _ hobject
    exact h.confirms hname hid
  · intro object' hobject
    obtain rfl := HashMap.getElem?_insert_same _ hobject
    have hold : object.chunks.Nodup := h.nodup hname
    exact hold

/-- An object goes with the records of its chunks. -/
theorem integrity_dropObject {s : MetadataStore} (h : Integrity s.maps) {name : String}
    {object : MetaObject} (hname : s.objects[name]? = some object) :
    Integrity ⟨s.objects.erase name, object.chunks.foldl (·.erase ·) s.chunks⟩ := by
  refine h.update name (fun _ hne => HashMap.getElem?_erase_of_ne _ hne) ?_ (by simp) (by simp)
  rintro id other hne ⟨chunk, hchunk, hstatus, hother⟩
  have hunlisted : id ∉ object.chunks := by
    intro hid
    obtain ⟨chunk', hchunk', _, hname'⟩ := h.confirms hname hid
    obtain rfl : chunk' = chunk := Option.some.inj (hchunk'.symm.trans hchunk)
    exact hne (hother.symm.trans hname')
  refine ⟨chunk, ?_, hstatus, hother⟩
  rw [HashMap.getElem?_foldl_erase, if_neg hunlisted]
  exact hchunk

/-- The attached id was not listed before, so it is listed once afterwards. -/
theorem integrity_attach {s : MetadataStore} (h : Integrity s.maps) {id nodeId : UInt64}
    {name : String} {object : MetaObject} (checksum : UInt32)
    (hid : ∀ chunk, s.chunks[id]? = some chunk → chunk.status = .pending)
    (hname : s.objects[name]? = some object) :
    Integrity ⟨s.objects.insert name (object.addChunk id),
      s.chunks.insert id ((MetaChunk.new id checksum name).addStorageNode nodeId)⟩ := by
  have hnew : id ∉ object.chunks := h.not_listed hname hid
  refine h.update name (fun _ hne => HashMap.getElem?_insert_of_ne _ _ hne) ?_ ?_ ?_
  · intro other name' _ hold
    exact hold.insert_ne (hold.ne hid) _ _
  · intro object' hobject other hother
    obtain rfl := HashMap.getElem?_insert_same _ hobject
    by_cases heq : other = id
    · subst heq
      exact ⟨_, Std.ExtTreeMap.getElem?_insert_self, rfl, rfl⟩
    · have hlisted : other ∈ object.chunks := by
        simpa [MetaObject.addChunk, heq] using hother
      exact (h.confirms hname hlisted).insert_ne heq _ _
  · intro object' hobject
    obtain rfl := HashMap.getElem?_insert_same _ hobject
    have hold : object.chunks.Nodup := h.nodup hname
    simp only [MetaObject.addChunk, List.nodup_append, hold, List.nodup_singleton, true_and]
    intro other hother last hlast
    rw [List.mem_singleton] at hlast
    subst hlast
    exact fun heq => hnew (heq ▸ hother)

/-- A chunk goes from the list of its object, too. -/
theorem integrity_dropChunk {s : MetadataStore} (h : Integrity s.maps) {id : UInt64}
    {chunk : MetaChunk} {object : MetaObject} (hid : s.chunks[id]? = some chunk)
    (hname : s.objects[chunk.objectName]? = some object) :
    Integrity ⟨s.objects.insert chunk.objectName
      { object with chunks := object.chunks.filter (· ≠ id) }, s.chunks.erase id⟩ := by
  refine h.update chunk.objectName (fun _ hne => HashMap.getElem?_insert_of_ne _ _ hne) ?_ ?_ ?_
  · intro other name' hne hold
    refine hold.erase_ne ?_ _
    rintro rfl
    obtain ⟨found, hfound, _, hother⟩ := hold
    obtain rfl : chunk = found := Option.some.inj (hid.symm.trans hfound)
    exact hne hother.symm
  · intro object' hobject other hother
    obtain rfl := HashMap.getElem?_insert_same _ hobject
    obtain ⟨hlisted, hne⟩ := List.mem_filter.mp hother
    exact (h.confirms hname hlisted).erase_ne (by simpa using hne) _
  · intro object' hobject
    obtain rfl := HashMap.getElem?_insert_same _ hobject
    exact (h.nodup hname).filter _

/-- A replica does not matter. -/
theorem integrity_addReplica {s : MetadataStore} (h : Integrity s.maps) {id : UInt64}
    {chunk : MetaChunk} (nodeId : UInt64) (hid : s.chunks[id]? = some chunk) :
    Integrity ⟨s.objects, s.chunks.insert id (chunk.addStorageNode nodeId)⟩ := by
  refine ⟨fun hobject hother => ?_, fun hobject => h.nodup hobject⟩
  rename_i name object other
  have hold := h.confirms hobject hother
  by_cases heq : other = id
  · subst heq
    obtain ⟨found, hfound, hstatus, hname⟩ := hold
    obtain rfl : chunk = found := Option.some.inj (hid.symm.trans hfound)
    exact ⟨_, Std.ExtTreeMap.getElem?_insert_self, hstatus, hname⟩
  · exact hold.insert_ne heq _ _

/-- Every change by a request keeps the maps intact. -/
theorem integrity_edit {op : Op} {s m : MetadataStore} (hedit : Edit op s m)
    (h : Integrity s.maps) : Integrity m.maps := by
  cases hedit with
  | addObject checksum hname => exact integrity_addObject h _ checksum
  | setChecksum checksum totalSize hname => exact integrity_setChecksum h checksum totalSize hname
  | dropObject hname => exact integrity_dropObject h hname
  | attach id checksum hid hname hnode => exact integrity_attach h checksum hid hname
  | dropChunk hid hname => exact integrity_dropChunk h hid hname
  | addReplica hop hid hnode hnew hroom => exact integrity_addReplica h _ hid

/-- So does every change that is not saved. -/
theorem integrity_sideEdit {lib : External} {op : Op} {s m : MetadataStore}
    (hedit : SideEdit lib op s m) (h : Integrity s.maps) : Integrity m.maps := by
  cases hedit with
  | @reserve id name hid =>
      refine ⟨fun hobject hother => ?_, fun hobject => h.nodup hobject⟩
      have hold := h.confirms hobject hother
      exact hold.insert_ne (hold.ne (by simp [MetadataStore.maps, hid])) _ _
  | @orphan id nodeId name checksum hid hname hnode =>
      refine ⟨fun hobject hother => ?_, fun hobject => h.nodup hobject⟩
      have hold := h.confirms hobject hother
      exact hold.insert_ne (hold.ne (by simp [MetadataStore.maps, hid])) _ _
  | @dropOrphan id chunk hid hname =>
      refine ⟨fun hobject hother => ?_, fun hobject => h.nodup hobject⟩
      have hold := h.confirms hobject hother
      refine hold.erase_ne ?_ _
      rintro rfl
      obtain ⟨found, hfound, _, rfl⟩ := hold
      obtain rfl : chunk = found := Option.some.inj (hid.symm.trans hfound)
      exact absurd (hname.symm.trans hobject) (by simp)
  | register hid haddress => exact h
  | unregister ids hop => exact h

/-! ## Along runs -/

/-- Every event of the node itself: any call with local arguments, whatever its file
steps do, and restarts. -/
def localEvent (_ : MetadataStore) : Event → Prop
  | .call op _ => ¬ op.FromPeer
  | .restart => True

/-- Memory and the maps of the latest completed save both have integrity. -/
theorem Run.integrity {lib : External} (hlib : lib.Lawful) {s : MetadataStore} {g : Maps}
    (hrun : Run lib localEvent s g) : Integrity s.maps ∧ Integrity g := by
  refine hrun.maps_invariant hlib integrity_empty ?_ fun _ _ _ hedit => integrity_sideEdit hedit
  intro s m op io hallowed hsave h
  exact (hsave.edits hallowed).preserves (P := fun m => Integrity m.maps)
    (fun _ _ hedit => integrity_edit hedit) h

/-! ## Looking up an object -/

/-- Referential integrity of every reachable state.  Every id an object lists has a
`Confirmed` record of that object, and occurs once over all chunk lists together.
Hence a lookup that sees one state never meets a listed chunk without a record:
the forwarded one succeeds, and the client-facing one fails for an unregistered
storage node only. -/
theorem listed_chunks_confirmed_and_unique (lib : External) (hlib : lib.Lawful)
    (s : MetadataStore) (hs : Reachable lib localEvent s) (name : String)
    (object : MetaObject) (hname : s.objects[name]? = some object) :
    (∀ id ∈ object.chunks,
      (∃ chunk, s.chunks[id]? = some chunk ∧ chunk.status = .confirmed ∧
        chunk.objectName = name) ∧
      s.maps.listedChunks.count id = 1) ∧
    (∃ response, s.forwardGetObject name = .ok response) ∧
    (∀ status, s.resolveObject object = .error status →
      ∃ id ∈ object.chunks, ∃ chunk, s.chunks[id]? = some chunk ∧
        ∃ nodeId ∈ chunk.storageNodes, nodeId ∉ s.storageNodes ∧
          status =
            ⟨.internal, s!"storage node {nodeId} referenced by chunk but not found"⟩) := by
  obtain ⟨g, hrun⟩ := hs
  have h := (hrun.integrity hlib).1
  have hrecorded : Recorded s object.chunks := by
    intro id hid
    obtain ⟨chunk, hchunk, _⟩ := h.confirms hname hid
    exact ⟨chunk, hchunk⟩
  refine ⟨fun id hid => ⟨h.confirms hname hid, h.count_eq_one hname hid⟩,
    ⟨_, forwardGetObject_eq hname hrecorded⟩, ?_⟩
  intro status hstatus
  by_cases hresolvable : Resolvable s object.chunks
  · simp [MetadataStore.resolveObject, resolveChunks_eq hresolvable] at hstatus
  · obtain ⟨id, hid, chunk, hchunk, nodeId, hmem, habsent, herror⟩ :=
      resolveChunks_error hrecorded hresolvable
    refine ⟨id, hid, chunk, hchunk, nodeId, hmem, habsent, ?_⟩
    simp only [MetadataStore.resolveObject, herror] at hstatus
    cases hstatus
    rfl

/-- An object with one chunk, after a failed upload and a removed chunk. -/
theorem listed_chunks_confirmed_and_unique_upload :
    let s := (MetadataStore.fresh MetaFiles.empty).afterCalls jsonLib
      [.constructStorageNode [1] "http://node-a:50051", .putObject 7 "a",
        .putChunk [30] 0 "b" 5, .confirmChunk 10 "a" 9 1, .putChunk [20] 0 "a" 5,
        .deleteChunk 20]
    s.maps.listedChunks.count 10 = 1 ∧ ∃ response, s.forwardGetObject "a" = .ok response := by
  intro s
  have hs : Reachable jsonLib localEvent s := by
    refine (Reachable.start jsonLib localEvent).afterCalls ?_
    simp [localEvent, Op.FromPeer]
  have hname : s.objects["a"]? = some ⟨"a", 7, [10], 0⟩ := by decide +kernel
  have h := listed_chunks_confirmed_and_unique jsonLib jsonLib_lawful s hs "a" _ hname
  exact ⟨(h.1 10 (by simp)).2, h.2.1⟩

/-! ## Keys -/

theorem keyed_empty : Keyed Maps.empty where
  chunk := by simp [Maps.empty]
  object := by simp [Maps.empty]

theorem Keyed.insert_chunk {g : Maps} (h : Keyed g) {id : UInt64} {chunk : MetaChunk}
    (hid : chunk.id = id) : Keyed ⟨g.objects, g.chunks.insert id chunk⟩ where
  chunk := by
    intro other found hfound
    by_cases heq : other = id
    · subst heq
      obtain rfl := HashMap.getElem?_insert_same _ hfound
      exact hid
    · exact h.chunk ((HashMap.getElem?_insert_of_ne _ _ heq).symm.trans hfound)
  object := h.object

theorem Keyed.insert_object {g : Maps} (h : Keyed g) {name : String} {object : MetaObject}
    (hname : object.name = name) : Keyed ⟨g.objects.insert name object, g.chunks⟩ where
  chunk := h.chunk
  object := by
    intro other found hfound
    by_cases heq : other = name
    · subst heq
      obtain rfl := HashMap.getElem?_insert_same _ hfound
      exact hname
    · exact h.object ((HashMap.getElem?_insert_of_ne _ _ heq).symm.trans hfound)

/-- Removing records keeps the rest under their keys. -/
theorem Keyed.mono {g g' : Maps} (h : Keyed g)
    (hchunks : ∀ (id : UInt64) (chunk : MetaChunk),
      g'.chunks[id]? = some chunk → g.chunks[id]? = some chunk)
    (hobjects : ∀ (name : String) (object : MetaObject),
      g'.objects[name]? = some object → g.objects[name]? = some object) : Keyed g' where
  chunk := fun hchunk => h.chunk (hchunks _ _ hchunk)
  object := fun hobject => h.object (hobjects _ _ hobject)

/-- Requests keep the records under their keys. -/
theorem keyed_edit {op : Op} {s m : MetadataStore} (hedit : Edit op s m)
    (h : Keyed s.maps) : Keyed m.maps := by
  cases hedit with
  | @addObject name checksum hname =>
      exact h.insert_object (show (MetaObject.new name checksum).name = name from rfl)
  | @setChecksum name object checksum totalSize hname =>
      have hold : object.name = name := h.object hname
      exact h.insert_object hold
  | dropObject hname =>
      exact h.mono (fun _ _ => HashMap.getElem?_of_foldl_erase)
        (fun _ _ => HashMap.getElem?_of_erase)
  | @attach id nodeId name object checksum hid hname hnode =>
      have hold : object.name = name := h.object hname
      have hnew : ((MetaChunk.new id checksum name).addStorageNode nodeId).id = id := rfl
      exact (h.insert_object (show (object.addChunk id).name = name from hold)).insert_chunk hnew
  | @dropChunk id chunk object hid hname =>
      have hrest : Keyed ⟨s.objects, s.chunks.erase id⟩ :=
        h.mono (fun _ _ => HashMap.getElem?_of_erase) (fun _ _ hfound => hfound)
      have hold : object.name = chunk.objectName := h.object hname
      exact hrest.insert_object hold
  | @addReplica id nodeId chunk hop hid hnode hnew hroom =>
      have hold : chunk.id = id := h.chunk hid
      exact h.insert_chunk (show (chunk.addStorageNode nodeId).id = id from hold)

theorem keyed_sideEdit {lib : External} {op : Op} {s m : MetadataStore}
    (hedit : SideEdit lib op s m) (h : Keyed s.maps) : Keyed m.maps := by
  cases hedit with
  | @reserve id name hid =>
      have hnew : (MetaChunk.newPending id name).id = id := rfl
      exact h.insert_chunk hnew
  | @orphan id nodeId name checksum hid hname hnode =>
      have hnew : ((MetaChunk.new id checksum name).addStorageNode nodeId).id = id := rfl
      exact h.insert_chunk hnew
  | dropOrphan hid hname =>
      exact h.mono (fun _ _ => HashMap.getElem?_of_erase) (fun _ _ hfound => hfound)
  | register hid haddress => exact h
  | unregister ids hop => exact h

/-- Records taken over from a peer are stored under their own keys too. -/
theorem keyed_ingest {s : MetadataStore} (objects : List MetaObject)
    (chunks : List MetaChunk) (h : Keyed s.maps) : Keyed (s.ingest objects chunks).maps := by
  have hobjects : Keyed ⟨objects.foldl MetadataStore.insertObject s.objects, s.chunks⟩ := by
    induction objects using List.reverseRecOn with
    | nil => exact h
    | append_singleton objects object ih =>
        rw [List.foldl_append]
        exact ih.insert_object rfl
  induction chunks using List.reverseRecOn with
  | nil => exact hobjects
  | append_singleton chunks chunk ih =>
      simp only [MetadataStore.maps, MetadataStore.ingest, List.foldl_append] at ih ⊢
      exact ih.insert_chunk rfl

/-- In every run the records are under their keys, in memory and on file. -/
theorem Run.keyed {lib : External} (hlib : lib.Lawful)
    {allowed : MetadataStore → Event → Prop} {s : MetadataStore} {g : Maps}
    (hrun : Run lib allowed s g) : Keyed s.maps ∧ Keyed g := by
  refine hrun.maps_invariant hlib keyed_empty ?_ fun _ _ _ hedit => keyed_sideEdit hedit
  intro s m op io _ hsave h
  rcases hsave.cases with hedits | ⟨_, objects, chunks, rfl⟩
  · exact hedits.preserves (P := fun m => Keyed m.maps) (fun _ _ hedit => keyed_edit hedit) h
  · exact keyed_ingest objects chunks h

/-! ## The registry -/

/-- The registry is keyed by the ids of its nodes. -/
def RegistryKeyed (nodes : HashMap UInt64 MetaStorageNode) : Prop :=
  ∀ (id : UInt64) (node : MetaStorageNode), nodes[id]? = some node → node.id = id

theorem registryKeyed_empty : RegistryKeyed ∅ := by
  intro id node hnode
  simp at hnode

theorem RegistryKeyed.insert {nodes : HashMap UInt64 MetaStorageNode} (h : RegistryKeyed nodes)
    (id : UInt64) (address : String) : RegistryKeyed (nodes.insert id ⟨id, address⟩) := by
  intro other node hnode
  by_cases heq : other = id
  · subst heq
    cases HashMap.getElem?_insert_same _ hnode
    rfl
  · exact h other node ((HashMap.getElem?_insert_of_ne _ _ heq).symm.trans hnode)

/-- Registrations keep the nodes under their ids. -/
theorem registryKeyed_sideEdit {lib : External} {op : Op} {s m : MetadataStore}
    (hedit : SideEdit lib op s m) (h : RegistryKeyed s.storageNodes) :
    RegistryKeyed m.storageNodes := by
  cases hedit with
  | reserve _ _ => exact h
  | orphan _ _ _ _ => exact h
  | dropOrphan _ _ => exact h
  | register hid haddress => exact h.insert _ _
  | unregister ids hop =>
      exact fun id node hnode => h id node (HashMap.getElem?_of_foldl_erase hnode)

/-- The registry starts empty, and again with each restart. -/
theorem new_storageNodes {lib : External} {files : MetaFiles} {s : MetadataStore}
    (h : MetadataStore.new lib files = .ok s) : s.storageNodes = ∅ := by
  unfold MetadataStore.new at h
  split at h
  · cases h
    rfl
  · split at h
    · split at h
      · cases h
      · split at h <;> cases h <;> rfl
    · cases h
      rfl

/-- In every run the nodes are under their ids. -/
theorem Run.registryKeyed {lib : External} {allowed : MetadataStore → Event → Prop}
    {s : MetadataStore} {g : Maps} (hrun : Run lib allowed s g) :
    RegistryKeyed s.storageNodes := by
  refine hrun.invariant (P := fun s _ => RegistryKeyed s.storageNodes)
    (fun _ => registryKeyed_empty) ?_
  intro s g s' g' _ hstep h
  cases hstep with
  | saving _ hsave =>
      rw [save_storageNodes]
      rcases hsave.cases with hedits | ⟨_, objects, chunks, rfl⟩
      · rw [hedits.storageNodes_eq]
        exact h
      · exact h
  | other _ hnot happly =>
      rcases (Op.side_of_not_callsSave hnot happly).1 with rfl | hedit
      · exact h
      · exact registryKeyed_sideEdit hedit h
  | restart _ _ hnew =>
      rw [new_storageNodes hnew]
      exact registryKeyed_empty

theorem Reachable.registryKeyed {lib : External} {allowed : MetadataStore → Event → Prop}
    {s : MetadataStore} (hs : Reachable lib allowed s) : RegistryKeyed s.storageNodes := by
  rcases hs with ⟨g, hrun⟩
  exact hrun.registryKeyed

end StorageMetadata
end ObjectStore
