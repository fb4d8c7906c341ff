import ObjectStore.StorageMetadata.Isolation
import ObjectStore.StorageMetadata.Restart

/-!
# Storage metadata - What a deleted object leaves behind

`delete_object` removes the records that the object lists.  A chunk is listed when it is
confirmed, so a reservation outlives its object, in memory and on file.

Main definitions:

- `Maps.ListsConfirmed`: the converse of referential integrity.
- `LeavesNoRecord`: no record names the object any more.

Main results:

- Theorem `Run.coherent`: both directions of referential integrity along runs whose
  `put_chunk` calls name stored objects.
- Theorem `deleteObject_leaves_no_record_iff`: what is deleted with an object.
-/

namespace ObjectStore
namespace StorageMetadata

open MetadataStore

/-! ## The converse of referential integrity -/

/-- Every `Confirmed` record names a stored object, which lists it. -/
def Maps.ListsConfirmed (g : Maps) : Prop :=
  ∀ (id : UInt64) (chunk : MetaChunk), g.chunks[id]? = some chunk → chunk.status = .confirmed →
    ∃ object, g.objects[chunk.objectName]? = some object ∧ id ∈ object.chunks

/-- The chunks that objects list are the `Confirmed` ones. -/
structure Coherent (g : Maps) : Prop where
  integrity : Integrity g
  listsConfirmed : g.ListsConfirmed

theorem coherent_empty : Coherent Maps.empty where
  integrity := integrity_empty
  listsConfirmed := by
    intro id chunk hchunk
    simp [Maps.empty] at hchunk

variable {lib : External} {io : SaveIo} {s s' m : MetadataStore} {op : Op}

/-! ## One change of memory -/

/-- A `Confirmed` record that stays is listed by an object that keeps its list. -/
theorem Maps.ListsConfirmed.insert_object (h : s.maps.ListsConfirmed) {name : String}
    {object : MetaObject}
    (hkeeps : ∀ old, s.objects[name]? = some old → ∀ id ∈ old.chunks, id ∈ object.chunks) :
    Maps.ListsConfirmed ⟨s.objects.insert name object, s.chunks⟩ := by
  intro id chunk hchunk hstatus
  rcases h id chunk hchunk hstatus with ⟨old, hold, hlisted⟩
  by_cases heq : chunk.objectName = name
  · rw [heq] at hold ⊢
    exact ⟨object, Std.ExtTreeMap.getElem?_insert_self, hkeeps old hold id hlisted⟩
  · exact ⟨old, (HashMap.getElem?_insert_of_ne _ _ heq).trans hold, hlisted⟩

theorem Maps.ListsConfirmed.erase_object (h : s.maps.ListsConfirmed) {name : String}
    {object : MetaObject} (hname : s.objects[name]? = some object) :
    Maps.ListsConfirmed ⟨s.objects.erase name, object.chunks.foldl (·.erase ·) s.chunks⟩ := by
  intro id chunk hchunk hstatus
  have hbefore : s.chunks[id]? = some chunk := HashMap.getElem?_of_foldl_erase hchunk
  rcases h id chunk hbefore hstatus with ⟨old, hold, hlisted⟩
  by_cases heq : chunk.objectName = name
  · -- the record was on the list of the erased object
    have hsame : object = old := by
      rw [heq] at hold
      exact Option.some.inj (hname.symm.trans hold)
    subst hsame
    rw [HashMap.getElem?_foldl_erase, if_pos hlisted] at hchunk
    cases hchunk
  · exact ⟨old, (HashMap.getElem?_erase_of_ne _ heq).trans hold, hlisted⟩

theorem Maps.ListsConfirmed.erase_chunk (h : s.maps.ListsConfirmed) (key : UInt64) :
    Maps.ListsConfirmed ⟨s.objects, s.chunks.erase key⟩ := by
  intro id chunk hchunk hstatus
  exact h id chunk (HashMap.getElem?_of_erase hchunk) hstatus

/-- A record that is not `Confirmed` need not be listed. -/
theorem Maps.ListsConfirmed.insert_pending (h : s.maps.ListsConfirmed) (key : UInt64)
    {record : MetaChunk} (hrecord : record.status = .pending) :
    Maps.ListsConfirmed ⟨s.objects, s.chunks.insert key record⟩ := by
  intro id chunk hchunk hstatus
  by_cases heq : id = key
  · subst heq
    have hsame : record = chunk := HashMap.getElem?_insert_same _ hchunk
    rw [← hsame, hrecord] at hstatus
    cases hstatus
  · exact h id chunk ((HashMap.getElem?_insert_of_ne _ _ heq).symm.trans hchunk) hstatus

theorem Maps.ListsConfirmed.attach (h : s.maps.ListsConfirmed) (key : UInt64) {name : String}
    {object : MetaObject} (hname : s.objects[name]? = some object) {record : MetaChunk}
    (hrecord : record.objectName = name) :
    Maps.ListsConfirmed ⟨s.objects.insert name (object.addChunk key),
      s.chunks.insert key record⟩ := by
  have hlists : Maps.ListsConfirmed ⟨s.objects.insert name (object.addChunk key), s.chunks⟩ := by
    apply h.insert_object
    intro old hold id hid
    cases Option.some.inj (hname.symm.trans hold)
    exact List.mem_append_left _ hid
  intro id chunk hchunk hstatus
  by_cases heq : id = key
  · subst heq
    have hsame : record = chunk := HashMap.getElem?_insert_same _ hchunk
    subst hsame
    rw [hrecord]
    refine ⟨_, Std.ExtTreeMap.getElem?_insert_self, ?_⟩
    exact List.mem_append_right _ (List.mem_singleton_self id)
  · exact hlists id chunk ((HashMap.getElem?_insert_of_ne _ _ heq).symm.trans hchunk) hstatus

theorem Maps.ListsConfirmed.drop_chunk (h : s.maps.ListsConfirmed) {key : UInt64}
    {record : MetaChunk} {object : MetaObject}
    (hname : s.objects[record.objectName]? = some object) :
    Maps.ListsConfirmed ⟨s.objects.insert record.objectName
      { object with chunks := object.chunks.filter (· ≠ key) }, s.chunks.erase key⟩ := by
  intro id chunk hchunk hstatus
  have hbefore : s.chunks[id]? = some chunk := HashMap.getElem?_of_erase hchunk
  have hne : id ≠ key := by
    rintro rfl
    simp at hchunk
  rcases h id chunk hbefore hstatus with ⟨old, hold, hlisted⟩
  by_cases heq : chunk.objectName = record.objectName
  · rw [heq] at hold ⊢
    cases Option.some.inj (hname.symm.trans hold)
    refine ⟨_, Std.ExtTreeMap.getElem?_insert_self, ?_⟩
    exact List.mem_filter.mpr ⟨hlisted, by simpa using hne⟩
  · exact ⟨old, (HashMap.getElem?_insert_of_ne _ _ heq).trans hold, hlisted⟩

/-- A further replica changes neither the name nor the state of a record. -/
theorem Maps.ListsConfirmed.add_replica (h : s.maps.ListsConfirmed) {key nodeId : UInt64}
    {record : MetaChunk} (hkey : s.chunks[key]? = some record) :
    Maps.ListsConfirmed ⟨s.objects, s.chunks.insert key (record.addStorageNode nodeId)⟩ := by
  intro id chunk hchunk hstatus
  by_cases heq : id = key
  · subst heq
    have hsame : record.addStorageNode nodeId = chunk := HashMap.getElem?_insert_same _ hchunk
    subst hsame
    exact h id record hkey hstatus
  · exact h id chunk ((HashMap.getElem?_insert_of_ne _ _ heq).symm.trans hchunk) hstatus

/-- Requests leave listed chunks confirmed. -/
theorem listsConfirmed_edit (hedit : Edit op s m) (h : s.maps.ListsConfirmed) :
    m.maps.ListsConfirmed := by
  cases hedit with
  | addObject checksum hname =>
      apply h.insert_object
      intro old hold
      rw [hname] at hold
      cases hold
  | setChecksum checksum totalSize hname =>
      apply h.insert_object
      intro old hold id hid
      cases Option.some.inj (hname.symm.trans hold)
      exact hid
  | dropObject hname => exact h.erase_object hname
  | attach id checksum hid hname hnode => exact h.attach id hname rfl
  | dropChunk hid hname => exact h.drop_chunk hname
  | addReplica hop hid hnode hnew hroom => exact h.add_replica hid

/-- Requests leave no confirmed chunk without an object. -/
theorem coherent_edit (op : Op) (hedit : Edit op s m) (h : Coherent s.maps) :
    Coherent m.maps where
  integrity := integrity_edit hedit h.integrity
  listsConfirmed := listsConfirmed_edit hedit h.listsConfirmed

/-- An attached chunk is confirmed and listed. -/
theorem coherent_attach (h : Coherent s.maps) {id nodeId : UInt64} {name : String}
    {object : MetaObject} (checksum : UInt32)
    (hid : ∀ chunk, s.chunks[id]? = some chunk → chunk.status = .pending)
    (hname : s.objects[name]? = some object) :
    Coherent (s.withAttached id name object checksum nodeId).maps where
  integrity := integrity_attach h.integrity checksum hid hname
  listsConfirmed := h.listsConfirmed.attach id hname rfl

/-! ## Along runs -/

/-- `put_chunk` names a stored object, and what is taken over from a peer is coherent
with what is stored. -/
def orderlyEvent (s : MetadataStore) : Event → Prop
  | .call (.putChunk _ _ objectName _) _ => objectName ∈ s.objects
  | .call (.ingestPartition objects chunks) _ => Coherent (s.ingest objects chunks).maps
  | _ => True

theorem coherent_putChunk {draws : List UInt64} {pick : Nat} {name : String}
    {checksum : UInt32} {result : IoResult Unit}
    (happly : (Op.putChunk draws pick name checksum).apply lib io s = some (result, s'))
    (hname : name ∈ s.objects) (h : Coherent s.maps) : Coherent s'.maps := by
  rcases Option.map_eq_some_iff.mp happly with ⟨outcome, houtcome, hresult⟩
  rcases putChunk_effect houtcome with
    ⟨_, rfl⟩ | ⟨id, node, hid, _, ⟨habsent, rfl⟩ | ⟨object, hobject, rfl⟩⟩
  · cases hresult
    exact h
  · exact absurd hname (by simpa using habsent)
  · have hs' : s' = ((s.withAttached id name object checksum node.id).save lib io).2 := by
      rw [← discard_saveThen, hresult]
    rw [hs', save_maps]
    have hfresh := generateUniqueId_fresh hid
    exact coherent_attach h checksum (by simp [hfresh]) hobject

/-- Outside `put_chunk`, a call leaves the maps coherent however it ends. -/
theorem coherent_outcome (houtcome : op.Outcome s m)
    (hop : ∀ draws pick name checksum, op ≠ .putChunk draws pick name checksum)
    (hingest : ∀ objects chunks, op = .ingestPartition objects chunks →
      Coherent (s.ingest objects chunks).maps)
    (h : Coherent s.maps) : Coherent m.maps := by
  cases houtcome with
  | unchanged => exact h
  | @create checksum name hname =>
      exact coherent_edit (.putObject checksum name) (.addObject checksum hname) h
  | orphan name checksum hid => exact absurd rfl (hop _ _ _ _)
  | put checksum hid hname => exact absurd rfl (hop _ _ _ _)
  | @reserve _ _ name id hid =>
      have hedit : SideEdit jsonLib (.allocateChunk [] 0 name) s
          (s.withChunk id (.newPending id name)) := .reserve name hid
      exact ⟨integrity_sideEdit hedit h.integrity, h.listsConfirmed.insert_pending id rfl⟩
  | confirm checksum hid hname => exact coherent_attach h checksum hid hname
  | @dropOrphan id chunk hid hname =>
      have hedit : SideEdit jsonLib (.deleteChunk id) s (s.withoutChunk id) :=
        .dropOrphan hid hname
      exact ⟨integrity_sideEdit hedit h.integrity, h.listsConfirmed.erase_chunk id⟩
  | @dropChunk id _ _ hid hname =>
      exact coherent_edit (.deleteChunk id) (.dropChunk hid hname) h
  | @dropObject name _ hname => exact coherent_edit (.deleteObject name) (.dropObject hname) h
  | dropObjects names =>
      exact (removeObjects_edits (.removeObjects names) names s).preserves
        (P := fun m => Coherent m.maps) (fun _ _ hedit => coherent_edit _ hedit) h
  | @setChecksum name _ checksum totalSize hname =>
      exact coherent_edit (.updateObjectChecksum name checksum totalSize)
        (.setChecksum checksum totalSize hname) h
  | @addReplica id nodeId chunk hid hnew hroom =>
      exact ⟨integrity_addReplica h.integrity nodeId hid, h.listsConfirmed.add_replica hid⟩
  | ingest objects chunks => exact hingest objects chunks rfl

/-- Memory and the maps of the latest completed save are coherent. -/
theorem Run.coherent (hlib : lib.Lawful) {g : Maps} (hrun : Run lib orderlyEvent s g) :
    Coherent s.maps ∧ Coherent g := by
  refine hrun.apply_invariant hlib coherent_empty ?_
  intro s s' op io result hallowed happly h
  cases op with
  | putChunk draws pick name checksum => exact coherent_putChunk happly hallowed h
  | ingestPartition objects chunks =>
      rcases Op.apply_outcome happly with ⟨m, houtcome, hmaps⟩
      rw [hmaps]
      refine coherent_outcome houtcome (by simp) ?_ h
      intro objects' chunks' heq
      cases heq
      exact hallowed
  | _ =>
      rcases Op.apply_outcome happly with ⟨m, houtcome, hmaps⟩
      rw [hmaps]
      exact coherent_outcome houtcome (by simp) (by simp) h

/-! ## Deleting an object -/

/-- No record names the object, in memory or in a store reloaded from the file. -/
def LeavesNoRecord (lib : External) (s : MetadataStore) (name : String) : Prop :=
  (∀ (id : UInt64) (chunk : MetaChunk), s.chunks[id]? = some chunk → chunk.objectName ≠ name) ∧
    ∀ reloaded, MetadataStore.new lib s.files = .ok reloaded →
      ∀ (id : UInt64) (chunk : MetaChunk), reloaded.chunks[id]? = some chunk →
        chunk.objectName ≠ name

/-- After a completed `save`, memory speaks for the file. -/
theorem leavesNoRecord_save_iff (hlib : lib.Lawful) {name : String} :
    LeavesNoRecord lib (m.save lib .completes).2 name ↔
      ∀ (id : UInt64) (chunk : MetaChunk), m.chunks[id]? = some chunk →
        chunk.objectName ≠ name := by
  have hfile : (m.save lib .completes).2.files.main = some (savedFile lib m.maps) :=
    save_main lib .completes m
  unfold LeavesNoRecord
  rw [Persisted.new hlib (.inr hfile), save_chunks]
  constructor
  · exact fun h => h.1
  · intro h
    refine ⟨h, fun reloaded hreloaded => ?_⟩
    cases hreloaded
    exact h

/-- What `delete_object` leaves: the records that the object does not list. -/
theorem withoutObject_leaves_iff {name : String} {object : MetaObject} :
    (∀ (id : UInt64) (chunk : MetaChunk), (s.withoutObject name object).chunks[id]? = some chunk →
        chunk.objectName ≠ name) ↔
      ∀ (id : UInt64) (chunk : MetaChunk), s.chunks[id]? = some chunk →
        chunk.objectName = name → id ∈ object.chunks := by
  simp only [withoutObject, HashMap.getElem?_foldl_erase]
  constructor
  · intro h id chunk hchunk hname
    by_contra hunlisted
    exact h id chunk (by rw [if_neg hunlisted, hchunk]) hname
  · intro h id chunk hchunk hname
    split at hchunk
    · cases hchunk
    · rename_i hunlisted
      exact hunlisted (h id chunk hchunk hname)

/-- In a coherent store, the unlisted records that name an object are its reservations. -/
theorem Coherent.listed_iff_confirmed (h : Coherent s.maps) {name : String}
    {object : MetaObject} (hname : s.objects[name]? = some object) :
    (∀ (id : UInt64) (chunk : MetaChunk), s.chunks[id]? = some chunk →
        chunk.objectName = name → id ∈ object.chunks) ↔
      ∀ (id : UInt64) (chunk : MetaChunk), s.chunks[id]? = some chunk →
        chunk.objectName = name → chunk.status = .confirmed := by
  refine forall₂_congr fun id chunk => forall₂_congr fun hchunk hrecord => ?_
  constructor
  · intro hlisted
    rcases h.integrity.confirms hname hlisted with ⟨found, hfound, hstatus, _⟩
    cases Option.some.inj (hchunk.symm.trans hfound)
    exact hstatus
  · intro hstatus
    rcases h.listsConfirmed id chunk hchunk hstatus with ⟨found, hfound, hlisted⟩
    rw [hrecord] at hfound
    cases Option.some.inj (hname.symm.trans hfound)
    exact hlisted

/-- A `delete_object` that returns `Ok` leaves no record of the object exactly when the
object listed every record that names it.  In runs whose `put_chunk` calls name stored
objects, that is when no chunk of the object is still reserved. -/
theorem deleteObject_leaves_no_record_iff (lib : External) (hlib : lib.Lawful) (io : SaveIo)
    (s s' : MetadataStore) (name : String)
    (hdelete : s.deleteObject lib io name = (.ok (), s')) :
    (LeavesNoRecord lib s' name ↔
      ∃ object, s.objects[name]? = some object ∧
        ∀ (id : UInt64) (chunk : MetaChunk), s.chunks[id]? = some chunk →
          chunk.objectName = name → id ∈ object.chunks) ∧
    (Reachable lib orderlyEvent s →
      (LeavesNoRecord lib s' name ↔
        ∀ (id : UInt64) (chunk : MetaChunk), s.chunks[id]? = some chunk →
          chunk.objectName = name → chunk.status = .confirmed)) := by
  rcases deleteObject_effect lib io s name with ⟨_, heffect⟩ | ⟨object, hname, heffect⟩
  · rw [heffect] at hdelete
    cases hdelete
  · have hsave : (s.withoutObject name object).save lib io = (.ok (), s') :=
      heffect.symm.trans hdelete
    have hio : io = .completes := save_ok_iff.mp (congrArg Prod.fst hsave)
    subst hio
    have hs' : s' = ((s.withoutObject name object).save lib .completes).2 := by rw [hsave]
    have hiff : LeavesNoRecord lib s' name ↔
        ∀ (id : UInt64) (chunk : MetaChunk), s.chunks[id]? = some chunk →
          chunk.objectName = name → id ∈ object.chunks := by
      rw [hs', leavesNoRecord_save_iff hlib, withoutObject_leaves_iff]
    constructor
    · rw [hiff, hname]
      simp
    · rintro ⟨g, hrun⟩
      rw [hiff]
      exact (hrun.coherent hlib).1.listed_iff_confirmed hname

/-- Object `a` with a chunk that is allocated and not confirmed yet. -/
def reservedStore : MetadataStore :=
  (MetadataStore.fresh MetaFiles.empty).afterCalls jsonLib
    [.constructStorageNode [1] "http://node-a:50051", .putObject 7 "a", .allocateChunk [10] 0 "a"]

/-- The same store after the chunk is confirmed. -/
def confirmedStore : MetadataStore :=
  reservedStore.afterCalls jsonLib [.confirmChunk 10 "a" 9 1]

/-- With its chunk confirmed, the object leaves nothing behind. -/
theorem deleteObject_leaves_no_record_iff_confirmed :
    LeavesNoRecord jsonLib (confirmedStore.deleteObject jsonLib .completes "a").2 "a" := by
  have h := deleteObject_leaves_no_record_iff jsonLib jsonLib_lawful .completes confirmedStore _
    "a" rfl
  refine h.1.mpr ⟨⟨"a", 7, [10], 0⟩, by decide +kernel, ?_⟩
  intro id chunk hchunk _
  have honly : confirmedStore.chunks = (∅ : HashMap UInt64 MetaChunk).insert 10
      ⟨10, "a", 9, [1], .confirmed⟩ := by decide +kernel
  by_contra hid
  have hne : id ≠ 10 := by simpa using hid
  rw [honly, HashMap.getElem?_insert_of_ne _ _ hne] at hchunk
  simp at hchunk

set_option maxRecDepth 10000 in
/-- A reservation survives its object, and the file keeps it too. -/
theorem deleteObject_leaves_reservation :
    Reachable jsonLib completedEvent reservedStore ∧
      ∃ s', reservedStore.deleteObject jsonLib .completes "a" = (.ok (), s') ∧
        s'.objects["a"]? = none ∧
        s'.chunks[(10 : UInt64)]? = some ⟨10, "a", 0, [], .pending⟩ ∧
        ∃ reloaded, MetadataStore.new jsonLib s'.files = .ok reloaded ∧
          reloaded.chunks[(10 : UInt64)]? = some ⟨10, "a", 0, [], .pending⟩ := by
  constructor
  · refine (Reachable.start jsonLib _).afterCalls ?_
    simp [completedEvent, Op.FromPeer]
  · have hkept : (reservedStore.deleteObject jsonLib .completes "a").2.chunks[(10 : UInt64)]? =
        some ⟨10, "a", 0, [], .pending⟩ := by decide +kernel
    refine ⟨_, rfl, by decide +kernel, hkept, ?_⟩
    have hfile : (reservedStore.deleteObject jsonLib .completes "a").2.files.main =
        some (savedFile jsonLib (reservedStore.deleteObject jsonLib .completes "a").2.maps) := rfl
    exact ⟨_, Persisted.new jsonLib_lawful (.inr hfile), hkept⟩

end StorageMetadata
end ObjectStore
