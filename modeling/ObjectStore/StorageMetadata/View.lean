import ObjectStore.StorageMetadata.Effect
import ObjectStore.StorageMetadata.Integrity

/-!
# Storage metadata - The view of one object

What a store says about one name: the object and the record of every chunk it lists.
Under referential integrity no chunk belongs to two views, so a call for one object
leaves the views of all others alone.

Main results:

- Theorem `view_congr`: a view depends on the object and on its listed chunks only.
- Theorems `view_withAttached`, `view_withoutObject`, `view_withReplica`,
  `view_withUnlisted`: what each change of the maps does to the other views.
-/

namespace ObjectStore
namespace StorageMetadata

/-! ## Views -/

/-- An object with the records of its chunks, in the order of its bytes. -/
abbrev View := MetaObject × List (Option MetaChunk)

instance : DecidableEq View :=
  inferInstanceAs (DecidableEq (MetaObject × List (Option MetaChunk)))

namespace Maps

/-- The object with the records of the chunks that it lists. -/
def view (g : Maps) (name : String) : Option View :=
  (g.objects[name]?).map fun object => (object, object.chunks.map fun id => g.chunks[id]?)

/-- The object `name` lists the chunk. -/
def Lists (g : Maps) (id : UInt64) (name : String) : Prop :=
  ∃ object, g.objects[name]? = some object ∧ id ∈ object.chunks

end Maps

variable {g g' : Maps} {name : String}

theorem view_eq_none_iff : g.view name = none ↔ g.objects[name]? = none := by
  simp [Maps.view]

theorem view_of_stored {object : MetaObject} (hname : g.objects[name]? = some object) :
    g.view name = some (object, object.chunks.map fun id => g.chunks[id]?) := by
  simp [Maps.view, hname]

theorem view_congr (hobject : g'.objects[name]? = g.objects[name]?)
    (hchunks : ∀ id, g.Lists id name → g'.chunks[id]? = g.chunks[id]?) :
    g'.view name = g.view name := by
  unfold Maps.view
  rw [hobject]
  cases hname : g.objects[name]? with
  | none => rfl
  | some object =>
      have hrecords : (object.chunks.map fun id => g'.chunks[id]?) =
          object.chunks.map fun id => g.chunks[id]? :=
        List.map_congr_left fun id hid => hchunks id ⟨object, hname, hid⟩
      simp only [Option.map_some, hrecords]

/-! ## What integrity says about listed chunks -/

theorem Integrity.lists_unique (h : Integrity g) {id : UInt64} {name name' : String}
    (hid : g.Lists id name) (hid' : g.Lists id name') : name = name' := by
  rcases hid with ⟨object, hname, hid⟩
  rcases hid' with ⟨object', hname', hid'⟩
  exact h.name_eq hname hname' hid hid'

/-- A listed chunk has a `Confirmed` record that names the object. -/
theorem Integrity.record (h : Integrity g) {id : UInt64} (hid : g.Lists id name) :
    g.Confirms id name := by
  rcases hid with ⟨object, hname, hid⟩
  exact h.confirms hname hid

theorem Integrity.not_lists (h : Integrity g) {id : UInt64}
    (hid : ∀ chunk, g.chunks[id]? = some chunk → chunk.status = .pending) :
    ¬ g.Lists id name := by
  rintro ⟨object, hname, hlisted⟩
  exact h.not_listed hname hid hlisted

/-- Only the object that a record names can list the chunk. -/
theorem Integrity.name_of_lists (h : Integrity g) {id : UInt64} {chunk : MetaChunk}
    (hchunk : g.chunks[id]? = some chunk) (hid : g.Lists id name) : chunk.objectName = name := by
  rcases h.record hid with ⟨found, hfound, _, hname⟩
  rw [hchunk] at hfound
  rw [Option.some.inj hfound]
  exact hname

/-! ## The views of the other objects -/

variable {s : MetadataStore}

theorem view_withObject (name : String) (object : MetaObject) {other : String}
    (hne : other ≠ name) : (s.withObject name object).maps.view other = s.maps.view other :=
  view_congr (HashMap.getElem?_insert_of_ne _ _ hne) fun _ _ => rfl

/-- The record of a chunk that no view contains. -/
theorem view_withUnlisted {id : UInt64} (chunk : MetaChunk)
    (hid : ∀ name, ¬ s.maps.Lists id name) (name : String) :
    (s.withChunk id chunk).maps.view name = s.maps.view name := by
  refine view_congr rfl fun other hother => ?_
  have hne : other ≠ id := by
    rintro rfl
    exact hid name hother
  exact HashMap.getElem?_insert_of_ne _ _ hne

theorem view_withReplica (h : Integrity s.maps) {id : UInt64} {chunk : MetaChunk}
    (hchunk : s.chunks[id]? = some chunk) (nodeId : UInt64) {other : String}
    (hne : other ≠ chunk.objectName) :
    (s.withChunk id (chunk.addStorageNode nodeId)).maps.view other = s.maps.view other := by
  refine view_congr rfl fun id' hid' => ?_
  have hneId : id' ≠ id := by
    rintro rfl
    exact hne (h.name_of_lists hchunk hid').symm
  exact HashMap.getElem?_insert_of_ne _ _ hneId

theorem view_withAttached (h : Integrity s.maps) {id nodeId : UInt64} {name : String}
    {object : MetaObject} (checksum : UInt32)
    (hid : ∀ chunk, s.chunks[id]? = some chunk → chunk.status = .pending) {other : String}
    (hne : other ≠ name) :
    (s.withAttached id name object checksum nodeId).maps.view other = s.maps.view other := by
  rw [MetadataStore.withAttached, view_withObject name _ hne]
  exact view_withUnlisted _ (fun _ => h.not_lists hid) other

theorem view_withoutObject (h : Integrity s.maps) {name : String} {object : MetaObject}
    (hname : s.objects[name]? = some object) {other : String} (hne : other ≠ name) :
    (s.withoutObject name object).maps.view other = s.maps.view other := by
  refine view_congr (HashMap.getElem?_erase_of_ne _ hne) fun id hid => ?_
  have hunlisted : id ∉ object.chunks := fun hmem =>
    hne (h.lists_unique hid ⟨object, hname, hmem⟩)
  exact (HashMap.getElem?_foldl_erase _ _ _).trans (if_neg hunlisted)

theorem view_withoutChunk (h : Integrity s.maps) {id : UInt64} {chunk : MetaChunk}
    (hchunk : s.chunks[id]? = some chunk) {other : String} (hne : other ≠ chunk.objectName) :
    (s.withoutChunk id).maps.view other = s.maps.view other := by
  refine view_congr rfl fun id' hid' => ?_
  have hneId : id' ≠ id := by
    rintro rfl
    exact hne (h.name_of_lists hchunk hid').symm
  exact HashMap.getElem?_erase_of_ne _ hneId

@[simp]
theorem view_withoutObject_self (s : MetadataStore) (name : String) (object : MetaObject) :
    (s.withoutObject name object).maps.view name = none := by
  rw [view_eq_none_iff]
  exact Std.ExtTreeMap.getElem?_erase_self

end StorageMetadata
end ObjectStore
