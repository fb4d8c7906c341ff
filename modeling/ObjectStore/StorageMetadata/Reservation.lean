import ObjectStore.StorageMetadata.Effect
import ObjectStore.StorageMetadata.Json

/-!
# Storage metadata - Reservations

`allocate_chunk` reserves an id for an object, and `confirm_chunk` is to turn the
reservation into a chunk of that object.  But it looks at the status of the reservation
only: the object is the one the caller names, and a reservation outlives the object it
was made for.

The runs below carry a ledger of what has been reserved, which the code does not keep.

Main results:

- Theorem `reserved_step`: what one call does to reservations and their objects.
- Theorem `confirm_extends_reserved_object`: careful clients extend only the object a
  chunk was reserved for, in every interleaving.
-/

namespace ObjectStore
namespace StorageMetadata

/-! ## The ledger -/

/-- What an id has been reserved for. -/
structure Reservation where
  objectName : String
  /-- The object has been deleted since. -/
  deleted : Bool
deriving DecidableEq

/-- The latest reservation of each id. -/
abbrev Ledger := HashMap UInt64 Reservation

/-- The object of a reservation is deleted. -/
def Reservation.delete (name : String) (reservation : Reservation) : Reservation :=
  if reservation.objectName = name then { reservation with deleted := true } else reservation

/-- The calls that uploads and deletions are made of. -/
def Op.Uploads : Op → Prop
  | .putObject .. | .allocateChunk .. | .confirmChunk .. | .deleteChunk _ | .deleteObject _ => True
  | _ => False

/-- The ledger after the call. -/
def Op.record (s : MetadataStore) (ledger : Ledger) : Op → Ledger
  | .allocateChunk draws pick name =>
      match s.allocateChunk draws pick name with
      | some (.ok (id, _, _), _) => ledger.insert id ⟨name, false⟩
      | _ => ledger
  | .deleteObject name =>
      if s.objects.contains name then ledger.map fun _ => Reservation.delete name else ledger
  | _ => ledger

/-- One call of some client, whatever its file steps do. -/
inductive UploadStep (lib : External) (allowed : MetadataStore → Ledger → Op → Prop) :
    MetadataStore × Ledger → MetadataStore × Ledger → Prop where
  | call {s s' : MetadataStore} {ledger : Ledger} {op : Op} {io : SaveIo}
      {result : IoResult Unit} (huploads : op.Uploads) (hallowed : allowed s ledger op)
      (happly : op.apply lib io s = some (result, s')) :
      UploadStep lib allowed (s, ledger) (s', op.record s ledger)

/-- An interleaving of calls, from a store on which nothing has been reserved yet. -/
def UploadRun (lib : External) (allowed : MetadataStore → Ledger → Op → Prop)
    (s₀ s : MetadataStore) (ledger : Ledger) : Prop :=
  Relation.ReflTransGen (UploadStep lib allowed) (s₀, ∅) (s, ledger)

/-- A call that keeps reservations with their objects: a chunk is confirmed for the
object its reservation names, and while the reservation exists; and no object is created
under a name that an older reservation still names. -/
def Careful (s : MetadataStore) (ledger : Ledger) : Op → Prop
  | .putObject _ name => s.objects[name]? = none →
      ∀ (id : UInt64) (chunk : MetaChunk), s.chunks[id]? = some chunk →
        chunk.status = .pending → chunk.objectName ≠ name
  | .confirmChunk id name _ _ => id ∈ ledger →
      ∃ chunk, s.chunks[id]? = some chunk ∧
        (chunk.status = .pending → chunk.objectName = name)
  | _ => True

/-! ## One call -/

/-- Reservations name what the ledger says, and those of deleted objects name none that
exists. -/
def Reserved (s : MetadataStore) (ledger : Ledger) : Prop :=
  ∀ (id : UInt64) (chunk : MetaChunk) (reservation : Reservation),
    s.chunks[id]? = some chunk → chunk.status = .pending → ledger[id]? = some reservation →
      reservation.objectName = chunk.objectName ∧
        (reservation.deleted = true → s.objects[chunk.objectName]? = none)

/-- Calls that reserve nothing new and create no object keep reservations in order. -/
theorem Reserved.mono {s s' : MetadataStore} {ledger : Ledger} (h : Reserved s ledger)
    (hchunks : ∀ (id : UInt64) (chunk : MetaChunk), s'.chunks[id]? = some chunk →
      chunk.status = .pending → s.chunks[id]? = some chunk)
    (hobjects : ∀ name : String, s.objects[name]? = none → s'.objects[name]? = none) :
    Reserved s' ledger := by
  intro id chunk reservation hchunk hpending hreservation
  have hold := h id chunk reservation (hchunks id chunk hchunk hpending) hpending hreservation
  exact ⟨hold.1, fun hdeleted => hobjects _ (hold.2 hdeleted)⟩

theorem Reserved.save {s : MetadataStore} {ledger : Ledger} (lib : External) (io : SaveIo)
    (h : Reserved s ledger) : Reserved (s.save lib io).2 ledger :=
  h.mono (fun _ _ hchunk _ => by rwa [save_chunks] at hchunk) fun _ hname => by rwa [save_objects]

/-- Replacing an object that exists creates none. -/
theorem getElem?_insert_stored {objects : HashMap String MetaObject} {name : String}
    {object object' : MetaObject} (hname : objects[name]? = some object) {name' : String}
    (hname' : objects[name']? = none) : (objects.insert name object')[name']? = none := by
  have hne : name' ≠ name := by
    rintro rfl
    rw [hname] at hname'
    cases hname'
  rw [HashMap.getElem?_insert_of_ne _ _ hne]
  exact hname'

theorem Reserved.putObject {s : MetadataStore} {ledger : Ledger} (h : Reserved s ledger)
    {name : String} (checksum : UInt32)
    (hcareful : ∀ (id : UInt64) (chunk : MetaChunk), s.chunks[id]? = some chunk →
      chunk.status = .pending → chunk.objectName ≠ name) :
    Reserved (s.withObject name (.new name checksum)) ledger := by
  intro id chunk reservation hchunk hpending hreservation
  have hold := h id chunk reservation hchunk hpending hreservation
  refine ⟨hold.1, fun hdeleted => ?_⟩
  have hne := hcareful id chunk hchunk hpending
  exact (HashMap.getElem?_insert_of_ne _ _ hne).trans (hold.2 hdeleted)

theorem Reserved.allocate {s : MetadataStore} {ledger : Ledger} (h : Reserved s ledger)
    (id : UInt64) (name : String) :
    Reserved (s.withChunk id (.newPending id name)) (ledger.insert id ⟨name, false⟩) := by
  intro other chunk reservation hchunk hpending hreservation
  by_cases heq : other = id
  · subst heq
    rw [← HashMap.getElem?_insert_same _ hchunk, ← HashMap.getElem?_insert_same _ hreservation]
    simp [MetaChunk.newPending]
  · rw [HashMap.getElem?_insert_of_ne _ _ heq] at hreservation
    have hold : s.chunks[other]? = some chunk :=
      (HashMap.getElem?_insert_of_ne _ _ heq).symm.trans hchunk
    exact h other chunk reservation hold hpending hreservation

theorem Reserved.attach {s : MetadataStore} {ledger : Ledger} (h : Reserved s ledger)
    {id nodeId : UInt64} {name : String} {object : MetaObject} (checksum : UInt32)
    (hname : s.objects[name]? = some object) :
    Reserved (s.withAttached id name object checksum nodeId) ledger := by
  refine h.mono (fun other chunk hchunk hpending => ?_) fun _ => getElem?_insert_stored hname
  by_cases heq : other = id
  · subst heq
    rw [← HashMap.getElem?_insert_same _ hchunk] at hpending
    cases hpending
  · exact (HashMap.getElem?_insert_of_ne _ _ heq).symm.trans hchunk

theorem Reserved.deleteObject {s : MetadataStore} {ledger : Ledger} (h : Reserved s ledger)
    {name : String} (object : MetaObject) :
    Reserved (s.withoutObject name object) (ledger.map fun _ => Reservation.delete name) := by
  intro id chunk reservation hchunk hpending hreservation
  rw [Std.ExtTreeMap.getElem?_map, Option.map_eq_some_iff] at hreservation
  rcases hreservation with ⟨before, hbefore, rfl⟩
  have hold := h id chunk before (HashMap.getElem?_of_foldl_erase hchunk) hpending hbefore
  by_cases heq : before.objectName = name
  · have hgone : chunk.objectName = name := hold.1.symm.trans heq
    refine ⟨by simp [Reservation.delete, heq, hgone], fun _ => ?_⟩
    simp [MetadataStore.withoutObject, hgone]
  · rw [Reservation.delete, if_neg heq]
    refine ⟨hold.1, fun hdeleted => ?_⟩
    have hne : chunk.objectName ≠ name := fun hgone => heq (hold.1.trans hgone)
    exact (HashMap.getElem?_erase_of_ne _ hne).trans (hold.2 hdeleted)

/-- One careful call, by the five kinds of calls. -/
theorem reserved_step {lib : External} {p p' : MetadataStore × Ledger}
    (hstep : UploadStep lib Careful p p') (h : Reserved p.1 p.2) : Reserved p'.1 p'.2 := by
  cases hstep with
  | @call s s' ledger op io result huploads hallowed happly =>
      cases op with
      | putObject checksum name =>
          have hs' : (s.putObject lib io checksum name).2 = s' :=
            congrArg Prod.snd (Option.some.inj happly)
          subst hs'
          rcases MetadataStore.putObject_effect lib io s checksum name with
            ⟨object, _, heffect⟩ | ⟨habsent, heffect⟩
          · rw [heffect]
            exact h
          · rw [heffect]
            exact (h.putObject checksum (hallowed habsent)).save lib io
      | allocateChunk draws pick name =>
          rcases Option.map_eq_some_iff.mp happly with ⟨outcome, houtcome, hresult⟩
          cases hresult
          rcases MetadataStore.allocateChunk_effect houtcome with
            ⟨_, rfl⟩ | ⟨id, node, _, _, rfl⟩
          · simpa only [Op.record, houtcome] using h
          · simpa only [Op.record, houtcome] using h.allocate id name
      | confirmChunk id name checksum nodeId =>
          have hs' : (s.confirmChunk lib io id name checksum nodeId).2 = s' :=
            congrArg Prod.snd (Option.some.inj happly)
          subst hs'
          rcases MetadataStore.confirmChunk_effect lib io s id name checksum nodeId with
            ⟨error, heffect⟩ | ⟨object, hname, _, _, heffect⟩
          · rw [heffect]
            exact h
          · rw [heffect]
            exact (h.attach checksum hname).save lib io
      | deleteChunk id =>
          have hs' : (s.deleteChunk lib io id).2 = s' :=
            congrArg Prod.snd (Option.some.inj happly)
          subst hs'
          have hdropped : Reserved (s.withoutChunk id) ledger :=
            h.mono (fun _ _ hchunk _ => HashMap.getElem?_of_erase hchunk) fun _ hname => hname
          rcases MetadataStore.deleteChunk_effect lib io s id with
            ⟨_, heffect⟩ | ⟨chunk, _, ⟨_, heffect⟩ | ⟨object, hname, heffect⟩⟩
          · rw [heffect]
            exact h
          · rw [heffect]
            exact hdropped
          · rw [heffect]
            refine Reserved.save lib io ?_
            exact hdropped.mono (fun _ _ hchunk _ => hchunk) fun _ => getElem?_insert_stored hname
      | deleteObject name =>
          have hs' : (s.deleteObject lib io name).2 = s' :=
            congrArg Prod.snd (Option.some.inj happly)
          subst hs'
          rcases MetadataStore.deleteObject_effect lib io s name with
            ⟨habsent, heffect⟩ | ⟨object, hname, heffect⟩
          · have hmem : name ∉ s.objects := by simpa using habsent
            rw [heffect]
            simpa [Op.record, hmem] using h
          · have hmem : name ∈ s.objects := HashMap.mem_iff_exists_getElem?.mpr ⟨object, hname⟩
            rw [heffect]
            simpa [Op.record, hmem] using (h.deleteObject object).save lib io
      | _ => exact huploads.elim

/-! ## Every interleaving -/

theorem UploadRun.reserved {lib : External} {s₀ s : MetadataStore} {ledger : Ledger}
    (hrun : UploadRun lib Careful s₀ s ledger) : Reserved s ledger := by
  have hall : ∀ p, Relation.ReflTransGen (UploadStep lib Careful) (s₀, ∅) p →
      Reserved p.1 p.2 := by
    intro p hp
    induction hp with
    | refl =>
        intro id chunk reservation _ _ hreservation
        simp at hreservation
    | tail _ hlast ih => exact reserved_step hlast ih
  exact hall (s, ledger) hrun

/-- In every interleaving of careful calls, a chunk that some `allocate_chunk` reserved
is confirmed for the object it was reserved for, and that object has not been deleted in
between. -/
theorem confirm_extends_reserved_object (lib : External) (s₀ s : MetadataStore)
    (ledger : Ledger) (hrun : UploadRun lib Careful s₀ s ledger) (io : SaveIo) (id : UInt64)
    (name : String) (checksum : UInt32) (nodeId : UInt64)
    (hcareful : Careful s ledger (.confirmChunk id name checksum nodeId))
    (hok : (s.confirmChunk lib io id name checksum nodeId).1 = .ok ())
    (reservation : Reservation) (hreservation : ledger[id]? = some reservation) :
    reservation.objectName = name ∧ reservation.deleted = false := by
  have hreserved : id ∈ ledger := HashMap.mem_iff_exists_getElem?.mpr ⟨reservation, hreservation⟩
  rcases hcareful hreserved with ⟨chunk, hchunk, hnamed⟩
  rcases MetadataStore.confirmChunk_effect lib io s id name checksum nodeId with
    ⟨error, heffect⟩ | ⟨object, hname, _, hpending, _⟩
  · rw [heffect] at hok
    cases hok
  · have hstatus := hpending chunk hchunk
    have hinv := hrun.reserved id chunk reservation hchunk hstatus hreservation
    rw [hnamed hstatus] at hinv
    refine ⟨hinv.1, Bool.eq_false_iff.mpr fun hdeleted => ?_⟩
    rw [hinv.2 hdeleted] at hname
    cases hname

/-- The store and the ledger after calls whose file steps all complete. -/
def afterUploads (lib : External) : MetadataStore × Ledger → List Op → MetadataStore × Ledger
  | p, [] => p
  | (s, ledger), op :: ops =>
      match op.apply lib .completes s with
      | some (_, s') => afterUploads lib (s', op.record s ledger) ops
      | none => afterUploads lib (s, ledger) ops

theorem UploadRun.afterUploads {lib : External}
    {allowed : MetadataStore → Ledger → Op → Prop} {ops : List Op}
    (hops : ∀ op ∈ ops, op.Uploads ∧ ∀ s ledger, allowed s ledger op)
    {s₀ : MetadataStore} {p : MetadataStore × Ledger} (hrun : UploadRun lib allowed s₀ p.1 p.2) :
    UploadRun lib allowed s₀ (afterUploads lib p ops).1 (afterUploads lib p ops).2 := by
  induction ops generalizing p with
  | nil => exact hrun
  | cons op ops ih =>
      have hop := hops op List.mem_cons_self
      have hrest := fun op' hop' => hops op' (List.mem_cons_of_mem op hop')
      unfold StorageMetadata.afterUploads
      split
      · rename_i happly
        exact ih hrest (Relation.ReflTransGen.tail hrun (.call hop.1 (hop.2 _ _) happly))
      · exact ih hrest hrun

/-- An empty object on a node that knows one storage node. -/
def emptyObject : MetadataStore :=
  (MetadataStore.fresh MetaFiles.empty).afterCalls jsonLib
    [.constructStorageNode [1] "http://node-a:50051", .putObject 7 "a"]

/-- The reservation of a chunk that is confirmed at once. -/
theorem confirm_extends_reserved_object_upload :
    let p := afterUploads jsonLib (emptyObject, ∅) [.allocateChunk [10] 0 "a"]
    p.2[(10 : UInt64)]? = some ⟨"a", false⟩ ∧
      ∀ reservation, p.2[(10 : UInt64)]? = some reservation →
        reservation.objectName = "a" ∧ reservation.deleted = false := by
  intro p
  have hrun : UploadRun jsonLib Careful emptyObject p.1 p.2 := by
    refine UploadRun.afterUploads ?_ Relation.ReflTransGen.refl
    simp [Op.Uploads, Careful]
  have hcareful : Careful p.1 p.2 (.confirmChunk 10 "a" 9 1) :=
    fun _ => ⟨.newPending 10 "a", by decide +kernel, fun _ => rfl⟩
  refine ⟨by decide +kernel, ?_⟩
  exact confirm_extends_reserved_object jsonLib emptyObject p.1 p.2 hrun .completes 10 "a" 9 1
    hcareful (by decide +kernel)

/-- A slow upload of `a`, a deletion of `a` and a new upload of `a`: the chunk of the
first upload joins the object of the second one. -/
theorem stale_reservation_joins_new_object :
    ∃ (s : MetadataStore) (ledger : Ledger),
      UploadRun jsonLib (fun _ _ _ => True) emptyObject s ledger ∧
        (s.confirmChunk jsonLib .completes 10 "a" 9 1).1 = .ok () ∧
        ledger[(10 : UInt64)]? = some ⟨"a", true⟩ ∧
        (s.confirmChunk jsonLib .completes 10 "a" 9 1).2.objects["a"]? =
          some ⟨"a", 8, [10], 0⟩ := by
  let p := afterUploads jsonLib (emptyObject, ∅)
    [.allocateChunk [10] 0 "a", .deleteObject "a", .putObject 8 "a"]
  have hrun : UploadRun jsonLib (fun _ _ _ => True) emptyObject p.1 p.2 := by
    refine UploadRun.afterUploads ?_ Relation.ReflTransGen.refl
    simp [Op.Uploads]
  refine ⟨p.1, p.2, hrun, ?_, ?_, ?_⟩
  · decide +kernel
  · decide +kernel
  · decide +kernel

end StorageMetadata
end ObjectStore
