import ObjectStore.StorageMetadata.Isolation
import ObjectStore.StorageMetadata.Migration

/-!
# Storage metadata - Replica lists

Any number of stores that take calls, restart and pull partitions from one another.  A
transfer writes `Confirmed` into every record it carries, so that the replica lists stay
well formed only because no object lists a chunk that is not `Confirmed` already.

Main definitions:

- `WellReplicated`: what a replica list should be.
- `Fleet`, `FleetStep`: stores that exchange partitions.

Main results:

- Theorem `Op.Outcome.replicated`: the invariant of one store.
- Theorem `Received.sound`: what a store sends.
- Theorem `replica_lists_wellFormed`: every record of every store, along every run.
-/

namespace ObjectStore
namespace StorageMetadata

/-! ## The invariant -/

/-- No repetition, at most three entries, and one at least when the chunk is `Confirmed`. -/
structure WellReplicated (chunk : MetaChunk) : Prop where
  nodup : chunk.storageNodes.Nodup
  short : chunk.storageNodes.length ≤ 3
  held : chunk.status = .confirmed → chunk.storageNodes ≠ []

/-- Every id names the object that `owner` gives for it, in its record and where it is
listed. -/
structure Named (owner : UInt64 → String) (g : Maps) : Prop where
  record : ∀ {id : UInt64} {chunk : MetaChunk}, g.chunks[id]? = some chunk →
    chunk.objectName = owner id
  listed : ∀ {name : String} {object : MetaObject}, g.objects[name]? = some object →
    ∀ id ∈ object.chunks, owner id = name

/-- Replica lists are well formed, and what is listed is `Confirmed`. -/
structure Replicated (owner : UInt64 → String) (g : Maps) : Prop
    extends Keyed g, Named owner g where
  replicas : ∀ {id : UInt64} {chunk : MetaChunk}, g.chunks[id]? = some chunk →
    WellReplicated chunk
  confirmed : ∀ {name : String} {object : MetaObject}, g.objects[name]? = some object →
    ∀ id ∈ object.chunks, ∃ chunk, g.chunks[id]? = some chunk ∧ chunk.status = .confirmed

variable {owner : UInt64 → String} {s m : MetadataStore}

/-- `Named`, checked. -/
def Maps.named (owner : UInt64 → String) (g : Maps) : Bool :=
  (g.chunks.toList.all fun entry => entry.2.objectName == owner entry.1) &&
    g.objects.toList.all fun entry => entry.2.chunks.all fun id => owner id == entry.1

theorem named_iff {g : Maps} : g.named owner = true ↔ Named owner g := by
  simp only [Maps.named, Bool.and_eq_true, List.all_eq_true, beq_iff_eq]
  constructor
  · rintro ⟨hchunks, hobjects⟩
    constructor
    · intro id chunk hchunk
      exact hchunks (id, chunk) (Std.ExtTreeMap.mem_toList_iff_getElem?_eq_some.mpr hchunk)
    · intro name object hname
      exact hobjects (name, object) (Std.ExtTreeMap.mem_toList_iff_getElem?_eq_some.mpr hname)
  · intro h
    constructor
    · intro entry hentry
      exact h.record (Std.ExtTreeMap.mem_toList_iff_getElem?_eq_some.mp hentry)
    · intro entry hentry
      exact h.listed (Std.ExtTreeMap.mem_toList_iff_getElem?_eq_some.mp hentry)

instance (owner : UInt64 → String) (g : Maps) : Decidable (Named owner g) :=
  decidable_of_iff _ named_iff

theorem named_empty (owner : UInt64 → String) : Named owner Maps.empty where
  record := by simp [Maps.empty]
  listed := by simp [Maps.empty]

theorem replicated_empty (owner : UInt64 → String) : Replicated owner Maps.empty where
  toKeyed := keyed_empty
  toNamed := named_empty owner
  replicas := by simp [Maps.empty]
  confirmed := by simp [Maps.empty]

/-! ## Records -/

theorem wellReplicated_pending (id : UInt64) (name : String) :
    WellReplicated (.newPending id name) where
  nodup := by simp [MetaChunk.newPending]
  short := by simp [MetaChunk.newPending]
  held := by simp [MetaChunk.newPending]

theorem wellReplicated_attached (id : UInt64) (checksum : UInt32) (name : String)
    (nodeId : UInt64) :
    WellReplicated ((MetaChunk.new id checksum name).addStorageNode nodeId) where
  nodup := by simp [MetaChunk.new, MetaChunk.addStorageNode]
  short := by simp [MetaChunk.new, MetaChunk.addStorageNode]
  held := by simp [MetaChunk.new, MetaChunk.addStorageNode]

theorem WellReplicated.addStorageNode {chunk : MetaChunk} (h : WellReplicated chunk)
    {nodeId : UInt64} (hnew : nodeId ∉ chunk.storageNodes)
    (hroom : chunk.storageNodes.length < MetadataStore.MAX_REPLICAS) :
    WellReplicated (chunk.addStorageNode nodeId) where
  nodup := by
    change (chunk.storageNodes ++ [nodeId]).Nodup
    simp only [List.nodup_append, List.nodup_singleton, List.mem_singleton]
    refine ⟨h.nodup, trivial, ?_⟩
    rintro found hfound _ rfl heq
    exact hnew (heq ▸ hfound)
  short := by
    have hmax : MetadataStore.MAX_REPLICAS = 3 := rfl
    simp only [MetaChunk.addStorageNode, List.length_append, List.length_singleton]
    omega
  held := by simp [MetaChunk.addStorageNode]

/-- A record that replaces none, or a `Pending` one. -/
theorem Replicated.withUnlisted (hs : Replicated owner s.maps) {id : UInt64}
    {chunk : MetaChunk} (hid : ∀ found, s.chunks[id]? = some found → found.status = .pending)
    (hkey : chunk.id = id) (hname : chunk.objectName = owner id)
    (hchunk : WellReplicated chunk) : Replicated owner (s.withChunk id chunk).maps where
  toKeyed := hs.toKeyed.insert_chunk hkey
  record := by
    intro other found hfound
    by_cases heq : other = id
    · subst heq
      cases HashMap.getElem?_insert_same _ hfound
      exact hname
    · exact hs.record ((HashMap.getElem?_insert_of_ne _ _ heq).symm.trans hfound)
  listed := hs.listed
  replicas := by
    intro other found hfound
    by_cases heq : other = id
    · subst heq
      cases HashMap.getElem?_insert_same _ hfound
      exact hchunk
    · exact hs.replicas ((HashMap.getElem?_insert_of_ne _ _ heq).symm.trans hfound)
  confirmed := by
    intro name object hobject other hother
    rcases hs.confirmed hobject other hother with ⟨found, hfound, hstatus⟩
    have hne : other ≠ id := by
      rintro rfl
      have hpending := hid found hfound
      rw [hstatus] at hpending
      cases hpending
    exact ⟨found, (HashMap.getElem?_insert_of_ne _ _ hne).trans hfound, hstatus⟩

theorem Replicated.withReplica (hs : Replicated owner s.maps) {id nodeId : UInt64}
    {chunk : MetaChunk} (hid : s.chunks[id]? = some chunk)
    (hnew : nodeId ∉ chunk.storageNodes)
    (hroom : chunk.storageNodes.length < MetadataStore.MAX_REPLICAS) :
    Replicated owner (s.withChunk id (chunk.addStorageNode nodeId)).maps where
  toKeyed := hs.toKeyed.insert_chunk (hs.chunk hid : chunk.id = id)
  record := by
    intro other found hfound
    by_cases heq : other = id
    · subst heq
      cases HashMap.getElem?_insert_same _ hfound
      have hname : chunk.objectName = owner other := hs.record hid
      exact hname
    · exact hs.record ((HashMap.getElem?_insert_of_ne _ _ heq).symm.trans hfound)
  listed := hs.listed
  replicas := by
    intro other found hfound
    by_cases heq : other = id
    · subst heq
      cases HashMap.getElem?_insert_same _ hfound
      exact (hs.replicas hid).addStorageNode hnew hroom
    · exact hs.replicas ((HashMap.getElem?_insert_of_ne _ _ heq).symm.trans hfound)
  confirmed := by
    intro name object hobject other hother
    rcases hs.confirmed hobject other hother with ⟨found, hfound, hstatus⟩
    by_cases heq : other = id
    · subst heq
      cases hid.symm.trans hfound
      exact ⟨_, Std.ExtTreeMap.getElem?_insert_self, hstatus⟩
    · exact ⟨found, (HashMap.getElem?_insert_of_ne _ _ heq).trans hfound, hstatus⟩

/-- Records that no object lists can go. -/
theorem Replicated.withoutChunk (hs : Replicated owner s.maps) {id : UInt64}
    (hid : ∀ (name : String) (object : MetaObject), s.objects[name]? = some object →
      id ∉ object.chunks) : Replicated owner (s.withoutChunk id).maps where
  toKeyed := hs.toKeyed.mono (fun _ _ => HashMap.getElem?_of_erase) (fun _ _ hfound => hfound)
  record := fun hfound => hs.record (HashMap.getElem?_of_erase hfound)
  listed := hs.listed
  replicas := fun hfound => hs.replicas (HashMap.getElem?_of_erase hfound)
  confirmed := by
    intro name object hobject other hother
    rcases hs.confirmed hobject other hother with ⟨found, hfound, hstatus⟩
    have hne : other ≠ id := by
      rintro rfl
      exact hid name object hobject hother
    exact ⟨found, (HashMap.getElem?_erase_of_ne _ hne).trans hfound, hstatus⟩

/-! ## Objects -/

theorem Replicated.withObject (hs : Replicated owner s.maps) {name : String}
    {object : MetaObject} (hkey : object.name = name)
    (hchunks : ∀ id ∈ object.chunks, owner id = name ∧
      ∃ chunk, s.chunks[id]? = some chunk ∧ chunk.status = .confirmed) :
    Replicated owner (s.withObject name object).maps where
  toKeyed := hs.toKeyed.insert_object hkey
  record := hs.record
  listed := by
    intro other found hfound id hid
    by_cases heq : other = name
    · subst heq
      cases HashMap.getElem?_insert_same _ hfound
      exact (hchunks id hid).1
    · exact hs.listed ((HashMap.getElem?_insert_of_ne _ _ heq).symm.trans hfound) id hid
  replicas := hs.replicas
  confirmed := by
    intro other found hfound id hid
    by_cases heq : other = name
    · subst heq
      cases HashMap.getElem?_insert_same _ hfound
      exact (hchunks id hid).2
    · exact hs.confirmed ((HashMap.getElem?_insert_of_ne _ _ heq).symm.trans hfound) id hid

/-- An object goes together with the chunks it lists, which no other object lists. -/
theorem Replicated.withoutObject (hs : Replicated owner s.maps) {name : String}
    {object : MetaObject} (hname : s.objects[name]? = some object) :
    Replicated owner (s.withoutObject name object).maps where
  toKeyed := hs.toKeyed.mono (fun _ _ => HashMap.getElem?_of_foldl_erase)
    (fun _ _ => HashMap.getElem?_of_erase)
  record := fun hfound => hs.record (HashMap.getElem?_of_foldl_erase hfound)
  listed := fun hfound => hs.listed (HashMap.getElem?_of_erase hfound)
  replicas := fun hfound => hs.replicas (HashMap.getElem?_of_foldl_erase hfound)
  confirmed := by
    intro other found hfound id hid
    have hne : other ≠ name := by
      rintro rfl
      have hnone := Std.ExtTreeMap.getElem?_erase_self (t := s.objects) (k := other)
      cases hnone.symm.trans hfound
    have hold : s.objects[other]? = some found := HashMap.getElem?_of_erase hfound
    rcases hs.confirmed hold id hid with ⟨chunk, hchunk, hstatus⟩
    have hunlisted : id ∉ object.chunks := fun hmem =>
      hne ((hs.listed hold id hid).symm.trans (hs.listed hname id hmem))
    exact ⟨chunk, ((HashMap.getElem?_foldl_erase _ _ _).trans (if_neg hunlisted)).trans hchunk,
      hstatus⟩

/-! ## Calls -/

/-- What one store collects from the stream of another. -/
structure Received.Sound (owner : UInt64 → String) (received : Received) : Prop where
  objects : ∀ object ∈ received.objects, ∀ id ∈ object.chunks, owner id = object.name ∧
    ∃ chunk ∈ received.chunks, chunk.id = id
  chunks : ∀ chunk ∈ received.chunks, chunk.status = .confirmed ∧
    chunk.objectName = owner chunk.id ∧ WellReplicated chunk

theorem Replicated.ingest (hs : Replicated owner s.maps) {received : Received}
    (h : received.Sound owner) :
    Replicated owner (s.ingest received.objects received.chunks).maps := by
  have hchunks := HashMap.getElem?_foldl_insert MetaChunk.id (fun chunk => chunk) received.chunks
    s.chunks
  have hobjects := HashMap.getElem?_foldl_insert MetaObject.name (fun object => object)
    received.objects s.objects
  have hrecord : ∀ {id : UInt64} {chunk : MetaChunk},
      (s.ingest received.objects received.chunks).chunks[id]? = some chunk →
        chunk ∈ received.chunks ∧ chunk.id = id ∨ s.chunks[id]? = some chunk := by
    intro id chunk hchunk
    rcases hchunks id with ⟨found, hfound, hkey, hlookup⟩ | ⟨_, hlookup⟩
    · cases hlookup.symm.trans hchunk
      exact .inl ⟨hfound, hkey⟩
    · exact .inr (hlookup.symm.trans hchunk)
  have hobject : ∀ {name : String} {object : MetaObject},
      (s.ingest received.objects received.chunks).objects[name]? = some object →
        object ∈ received.objects ∧ object.name = name ∨ s.objects[name]? = some object := by
    intro name object hname
    rcases hobjects name with ⟨found, hfound, hkey, hlookup⟩ | ⟨_, hlookup⟩
    · cases hlookup.symm.trans hname
      exact .inl ⟨hfound, hkey⟩
    · exact .inr (hlookup.symm.trans hname)
  have hkept : ∀ {id : UInt64}, (∃ chunk ∈ received.chunks, chunk.id = id) ∨
      (∃ chunk, s.chunks[id]? = some chunk ∧ chunk.status = .confirmed) →
        ∃ chunk, (s.ingest received.objects received.chunks).chunks[id]? = some chunk ∧
          chunk.status = .confirmed := by
    intro id hid
    rcases hchunks id with ⟨found, hfound, _, hlookup⟩ | ⟨hnone, hlookup⟩
    · exact ⟨found, hlookup, (h.chunks found hfound).1⟩
    · rcases hid with ⟨chunk, hmem, hkey⟩ | ⟨chunk, hchunk, hstatus⟩
      · exact absurd hkey (hnone chunk hmem)
      · exact ⟨chunk, hlookup.trans hchunk, hstatus⟩
  constructor
  · exact keyed_ingest received.objects received.chunks hs.toKeyed
  · constructor
    · intro id chunk hchunk
      rcases hrecord hchunk with ⟨hmem, rfl⟩ | hold
      · exact (h.chunks chunk hmem).2.1
      · exact hs.record hold
    · intro name object hname id hid
      rcases hobject hname with ⟨hmem, rfl⟩ | hold
      · exact (h.objects object hmem id hid).1
      · exact hs.listed hold id hid
  · intro id chunk hchunk
    rcases hrecord hchunk with ⟨hmem, rfl⟩ | hold
    · exact (h.chunks chunk hmem).2.2
    · exact hs.replicas hold
  · intro name object hname id hid
    rcases hobject hname with ⟨hmem, rfl⟩ | hold
    · exact hkept (.inl (h.objects object hmem id hid).2)
    · exact hkept (.inr (hs.confirmed hold id hid))

/-- A chunk that was unlisted joins an object. -/
theorem Replicated.withAttached (hs : Replicated owner s.maps) {id nodeId : UInt64}
    {name : String} {object : MetaObject} (checksum : UInt32)
    (hid : ∀ found, s.chunks[id]? = some found → found.status = .pending)
    (hname : s.objects[name]? = some object) (howner : owner id = name) :
    Replicated owner (s.withAttached id name object checksum nodeId).maps := by
  have hrecord := hs.withUnlisted hid (show _ = id from rfl) howner.symm
    (wellReplicated_attached id checksum name nodeId)
  have hkey : object.name = name := hs.object hname
  apply hrecord.withObject (show (object.addChunk id).name = name from hkey)
  intro other hother
  rcases List.mem_append.mp hother with hold | hnew
  · exact ⟨hs.listed hname other hold, hrecord.confirmed hname other hold⟩
  · rw [List.mem_singleton.mp hnew]
    exact ⟨howner, _, Std.ExtTreeMap.getElem?_insert_self, rfl⟩

theorem replicated_removeObjects (hs : Replicated owner s.maps) (names : List String) :
    Replicated owner (names.foldl MetadataStore.removeObject s).maps := by
  induction names generalizing s with
  | nil => exact hs
  | cons first rest ih =>
      rw [List.foldl_cons]
      rcases removeObject_cases s first with hsame | ⟨object, hfirst, hremoved⟩
      · rw [hsame]
        exact ih hs
      · rw [hremoved]
        exact ih (hs.withoutObject hfirst)

/-- The call takes over what a peer has sent, if it takes over anything. -/
def Op.TakesOver (sent : List Received) : Op → Prop
  | .ingestPartition objects chunks =>
      ∃ received ∈ sent, objects = received.objects ∧ chunks = received.chunks
  | _ => True

/-- Every call keeps the invariant, as long as the ids keep their objects. -/
theorem Op.Outcome.replicated {op : Op} (h : op.Outcome s m) (hs : Replicated owner s.maps)
    {sent : List Received} (hsent : ∀ received ∈ sent, received.Sound owner)
    (hop : op.TakesOver sent) (hm : Named owner m.maps) : Replicated owner m.maps := by
  cases h with
  | unchanged => exact hs
  | create checksum hname =>
      exact hs.withObject rfl (by simp [MetaObject.new])
  | @orphan _ _ name checksum id nodeId hid =>
      have howner : name = owner id := hm.record Std.ExtTreeMap.getElem?_insert_self
      exact hs.withUnlisted (by simp [hid]) rfl howner
        (wellReplicated_attached id checksum name nodeId)
  | @put _ _ name checksum id nodeId object hid hname =>
      have howner : name = owner id := hm.record Std.ExtTreeMap.getElem?_insert_self
      exact hs.withAttached checksum (by simp [hid]) hname howner.symm
  | @reserve _ _ name id hid =>
      have howner : name = owner id := hm.record Std.ExtTreeMap.getElem?_insert_self
      exact hs.withUnlisted (by simp [hid]) rfl howner (wellReplicated_pending id name)
  | @confirm id nodeId name checksum object hid hname =>
      have howner : name = owner id := hm.record Std.ExtTreeMap.getElem?_insert_self
      exact hs.withAttached checksum hid hname howner.symm
  | @dropOrphan id chunk hid hname =>
      apply hs.withoutChunk
      intro name object hobject hmem
      have hsame : chunk.objectName = name :=
        (hs.record hid : chunk.objectName = owner id).trans (hs.listed hobject id hmem)
      rw [hsame, hobject] at hname
      cases hname
  | @dropChunk id chunk object hid hname =>
      have hkey : object.name = chunk.objectName := hs.object hname
      have hlisted : Replicated owner
          (s.withObject chunk.objectName (object.removeChunk id)).maps := by
        apply hs.withObject (show (object.removeChunk id).name = chunk.objectName from hkey)
        intro other hother
        have hold : other ∈ object.chunks := List.mem_of_mem_filter hother
        exact ⟨hs.listed hname other hold, hs.confirmed hname other hold⟩
      apply hlisted.withoutChunk
      intro name found hfound hmem
      by_cases heq : name = chunk.objectName
      · subst heq
        cases HashMap.getElem?_insert_same _ hfound
        simp [MetaObject.removeChunk] at hmem
      · have hold : s.objects[name]? = some found :=
          (HashMap.getElem?_insert_of_ne _ _ heq).symm.trans hfound
        have hrecord : chunk.objectName = owner id := hs.record hid
        exact heq ((hs.listed hold id hmem).symm.trans hrecord.symm)
  | dropObject hname => exact hs.withoutObject hname
  | dropObjects names => exact replicated_removeObjects hs names
  | @setChecksum name object checksum totalSize hname =>
      have hkey : object.name = name := hs.object hname
      refine hs.withObject hkey fun id hid => ?_
      exact ⟨hs.listed hname id hid, hs.confirmed hname id hid⟩
  | addReplica hid hnew hroom => exact hs.withReplica hid hnew hroom
  | ingest objects chunks =>
      rcases hop with ⟨received, hmem, rfl, rfl⟩
      exact hs.ingest (hsent received hmem)

/-! ## What a store sends -/

/-- A store that has the invariant sends what keeps it. -/
theorem Replicated.sends (hash : String → UInt64) (hs : Replicated owner s.maps)
    (ranges : List (UInt64 × UInt64)) {received : Received}
    (hreceived : receive Received.empty ((s.transferPartition hash ranges).map .ok) =
      .ok received) : received.Sound owner := by
  rw [receive_transferPartition] at hreceived
  cases hreceived
  simp only [Received.extend, Received.empty, List.nil_append]
  constructor
  · intro found hfound id hid
    rcases List.mem_map.mp hfound with ⟨⟨object, chunks⟩, hmem, rfl⟩
    rcases (mem_batch hs.toKeyed).mp hmem with ⟨hsent, rfl⟩
    rcases hs.confirmed hsent.1 id hid with ⟨chunk, hchunk, _⟩
    have hkey : chunk.id = id := hs.chunk hchunk
    refine ⟨hs.listed hsent.1 id hid, chunk.transferred, ?_, hkey⟩
    apply List.mem_map_of_mem
    exact List.mem_flatMap.mpr ⟨_, hmem, List.mem_filterMap.mpr ⟨id, hid, hchunk⟩⟩
  · intro found hfound
    rcases List.mem_map.mp hfound with ⟨chunk, hmem, rfl⟩
    rcases (mem_sentChunks hs.toKeyed).mp hmem with ⟨⟨name, object, hsent, hid⟩, hchunk⟩
    rcases hs.confirmed hsent.1 chunk.id hid with ⟨same, hsame, hstatus⟩
    cases hsame.symm.trans hchunk
    have hreplicas := hs.replicas hchunk
    have hheld := hreplicas.held hstatus
    have hname : chunk.objectName = owner chunk.id := hs.record hchunk
    exact ⟨rfl, hname, hreplicas.nodup, hreplicas.short, fun _ => hheld⟩

/-! ## Stores that exchange partitions -/

/-- The stores, each with the maps of its latest completed `save`, and what has been
received from one of them and may still be ingested by another. -/
structure Fleet (Node : Type) where
  stores : Node → MetadataStore × Maps
  sent : List Received

/-- A store takes over what another one has sent, and nothing else. -/
def fromSent (sent : List Received) (_ : MetadataStore) : Event → Prop
  | .call op _ => op.TakesOver sent
  | .restart => True

variable {Node : Type} [DecidableEq Node]

/-- One store sends a partition, or one store takes a call or restarts. -/
inductive FleetStep (lib : External) (hash : String → UInt64) :
    Fleet Node → Fleet Node → Prop where
  | send {fleet : Fleet Node} (node : Node) (ranges : List (UInt64 × UInt64))
      {received : Received}
      (hreceived : receive Received.empty
        (((fleet.stores node).1.transferPartition hash ranges).map .ok) = .ok received) :
      FleetStep lib hash fleet { fleet with sent := received :: fleet.sent }
  | move {fleet : Fleet Node} (node : Node) {next : MetadataStore × Maps}
      (hstep : Step lib (fromSent fleet.sent) (fleet.stores node) next) :
      FleetStep lib hash fleet
        { fleet with stores := Function.update fleet.stores node next }

/-- Stores that have no file yet. -/
def Fleet.start (tmp : Node → Option FileImage) : Fleet Node where
  stores := fun node => StorageMetadata.start (tmp node)
  sent := []

/-- A run in which every id names one object, on every store and at all times. -/
def FleetRun (lib : External) (hash : String → UInt64) (owner : UInt64 → String)
    (fleet : Fleet Node) : Prop :=
  ∃ tmp, Relation.ReflTransGen (fun before after => FleetStep lib hash before after ∧
    ∀ node, Named owner (after.stores node).1.maps) (Fleet.start tmp) fleet

/-- The invariant of the fleet. -/
structure FleetOk (lib : External) (owner : UInt64 → String) (fleet : Fleet Node) : Prop where
  memory : ∀ node, Replicated owner (fleet.stores node).1.maps
  saved : ∀ node, Replicated owner (fleet.stores node).2
  persisted : ∀ node, Persisted lib (fleet.stores node).1.files (fleet.stores node).2
  sent : ∀ received ∈ fleet.sent, received.Sound owner

/-- One step of one store. -/
theorem Step.replicated {lib : External} (hlib : lib.Lawful) {sent : List Received}
    (hsent : ∀ received ∈ sent, received.Sound owner) {p p' : MetadataStore × Maps}
    (hstep : Step lib (fromSent sent) p p') (hmemory : Replicated owner p.1.maps)
    (hsaved : Replicated owner p.2) (hpersisted : Persisted lib p.1.files p.2)
    (hnamed : Named owner p'.1.maps) :
    Replicated owner p'.1.maps ∧ Replicated owner p'.2 := by
  cases hstep with
  | @saving s m g op io hallowed hsave =>
      have happly : op.apply lib io s = some ((m.save lib io).1, (m.save lib io).2) := hsave io
      rcases Op.apply_outcome happly with ⟨left, houtcome, hmaps⟩
      rw [save_maps] at hmaps
      simp only [save_maps] at hnamed ⊢
      have hm : Replicated owner m.maps := by
        rw [hmaps] at hnamed ⊢
        exact houtcome.replicated hmemory hsent hallowed hnamed
      cases io with
      | completes => exact ⟨hm, hm⟩
      | stops step error => exact ⟨hm, hsaved⟩
  | other hallowed hnot happly =>
      rcases Op.apply_outcome happly with ⟨left, houtcome, hmaps⟩
      refine ⟨?_, hsaved⟩
      rw [hmaps] at hnamed ⊢
      exact houtcome.replicated hmemory hsent hallowed hnamed
  | restart _ hcrash hnew =>
      rw [(hpersisted.survives hcrash).new hlib] at hnew
      cases hnew
      exact ⟨hsaved, hsaved⟩

theorem FleetOk.step {lib : External} (hlib : lib.Lawful) {hash : String → UInt64}
    {fleet fleet' : Fleet Node} (h : FleetOk lib owner fleet)
    (hstep : FleetStep lib hash fleet fleet')
    (hnamed : ∀ node, Named owner (fleet'.stores node).1.maps) : FleetOk lib owner fleet' := by
  cases hstep with
  | send node ranges hreceived =>
      refine ⟨h.memory, h.saved, h.persisted, fun received hmem => ?_⟩
      rcases List.mem_cons.mp hmem with rfl | hold
      · exact (h.memory node).sends hash ranges hreceived
      · exact h.sent received hold
  | @move node next hmove =>
      have hnext := hnamed node
      simp only [Function.update_self] at hnext
      have hreplicated := hmove.replicated hlib h.sent (h.memory node) (h.saved node)
        (h.persisted node) hnext
      have hpersisted := hmove.persisted hlib (h.persisted node)
      constructor
      · intro other
        by_cases heq : other = node
        · subst heq
          simpa using hreplicated.1
        · simpa [heq] using h.memory other
      · intro other
        by_cases heq : other = node
        · subst heq
          simpa using hreplicated.2
        · simpa [heq] using h.saved other
      · intro other
        by_cases heq : other = node
        · subst heq
          simpa using hpersisted
        · simpa [heq] using h.persisted other
      · exact h.sent

theorem FleetRun.ok {lib : External} (hlib : lib.Lawful) {hash : String → UInt64}
    {fleet : Fleet Node} (hrun : FleetRun lib hash owner fleet) : FleetOk lib owner fleet := by
  rcases hrun with ⟨tmp, hsteps⟩
  induction hsteps with
  | refl =>
      constructor
      · exact fun _ => replicated_empty owner
      · exact fun _ => replicated_empty owner
      · exact fun _ => .inl ⟨rfl, rfl⟩
      · simp [Fleet.start]
  | tail _ hlast ih => exact ih.step hlib hlast.1 hlast.2

/-- As long as no chunk id names two objects, every chunk record of every store has a replica
list without repetitions and with at most three entries, and with one at least when it is
`Confirmed`: along every run of calls, restarts and transfers, whatever fails. -/
theorem replica_lists_wellFormed (lib : External) (hlib : lib.Lawful) (hash : String → UInt64)
    (owner : UInt64 → String) (fleet : Fleet Node) (hrun : FleetRun lib hash owner fleet)
    (node : Node) (id : UInt64) (chunk : MetaChunk)
    (hchunk : (fleet.stores node).1.chunks[id]? = some chunk) :
    chunk.storageNodes.Nodup ∧ chunk.storageNodes.length ≤ 3 ∧
      (chunk.status = .confirmed → chunk.storageNodes ≠ []) := by
  have h := ((hrun.ok hlib).memory node).replicas hchunk
  exact ⟨h.nodup, h.short, h.held⟩

/-! ## A chunk that moves -/

/-- A completed call is a step, whatever it leaves on file. -/
theorem Step.exists_of_apply {lib : External} {allowed : MetadataStore → Event → Prop} {op : Op}
    {s s' : MetadataStore} {g : Maps} {result : IoResult Unit}
    (hallowed : allowed s (.call op .completes))
    (happly : op.apply lib .completes s = some (result, s')) :
    ∃ g', Step lib allowed (s, g) (s', g') := by
  by_cases hsave : ∃ m, op.CallsSave lib s m
  · rcases hsave with ⟨m, hm⟩
    have hs' : (m.save lib .completes).2 = s' :=
      congrArg Prod.snd (Option.some.inj ((hm .completes).symm.trans happly))
    rw [← hs']
    exact ⟨_, .saving hallowed hm⟩
  · exact ⟨g, .other hallowed (not_exists.mp hsave) happly⟩

/-- A completed call on one node. -/
theorem FleetRun.call {lib : External} {hash : String → UInt64} {fleet : Fleet Node}
    (hrun : FleetRun lib hash owner fleet)
    (hnamed : ∀ node, Named owner (fleet.stores node).1.maps) (node : Node) {op : Op}
    (hop : op.TakesOver fleet.sent) {result : IoResult Unit} {s' : MetadataStore}
    (happly : op.apply lib .completes (fleet.stores node).1 = some (result, s'))
    (hs' : Named owner s'.maps) :
    ∃ saved, FleetRun lib hash owner
        { fleet with stores := Function.update fleet.stores node (s', saved) } ∧
      ∀ other, Named owner (Function.update fleet.stores node (s', saved) other).1.maps := by
  have hstep : ∃ saved, Step lib (fromSent fleet.sent) (fleet.stores node) (s', saved) :=
    Step.exists_of_apply hop happly
  rcases hstep with ⟨saved, hstep⟩
  have hall : ∀ other, Named owner
      (Function.update fleet.stores node (s', saved) other).1.maps := by
    intro other
    by_cases heq : other = node
    · subst heq
      simpa using hs'
    · simpa [heq] using hnamed other
  rcases hrun with ⟨tmp, hsteps⟩
  exact ⟨saved, ⟨tmp, hsteps.tail ⟨.move node hstep, hall⟩⟩, hall⟩

/-- Calls on one node, each of which keeps the ids with their objects. -/
theorem FleetRun.calls {lib : External} {hash : String → UInt64} {fleet : Fleet Node}
    (hrun : FleetRun lib hash owner fleet)
    (hnamed : ∀ node, Named owner (fleet.stores node).1.maps) (node : Node) {ops : List Op}
    (hops : ∀ op ∈ ops, op.TakesOver fleet.sent)
    (hearly : ∀ n ≤ ops.length,
      Named owner ((fleet.stores node).1.afterCalls lib (ops.take n)).maps) :
    ∃ saved, FleetRun lib hash owner { fleet with
      stores := Function.update fleet.stores node
        ((fleet.stores node).1.afterCalls lib ops, saved) } ∧
      ∀ other, Named owner (Function.update fleet.stores node
        ((fleet.stores node).1.afterCalls lib ops, saved) other).1.maps := by
  induction ops generalizing fleet with
  | nil =>
      refine ⟨(fleet.stores node).2, ?_, ?_⟩
      · simpa [MetadataStore.afterCalls] using hrun
      · simpa [MetadataStore.afterCalls] using hnamed
  | cons op ops ih =>
      have hrest := fun op' hop' => hops op' (List.mem_cons_of_mem op hop')
      have htail : ∀ n ≤ ops.length, Named owner
          ((fleet.stores node).1.afterCalls lib ((op :: ops).take (n + 1))).maps :=
        fun n hn => hearly (n + 1) (by simpa using hn)
      cases happly : op.apply lib .completes (fleet.stores node).1 with
      | none =>
          simp only [List.take_succ_cons, MetadataStore.afterCalls, happly] at htail ⊢
          exact ih hrun hnamed hrest htail
      | some outcome =>
          rcases outcome with ⟨result, s'⟩
          simp only [List.take_succ_cons, MetadataStore.afterCalls, happly] at htail ⊢
          have hs' : Named owner s'.maps := by
            simpa [MetadataStore.afterCalls] using htail 0 (by simp)
          rcases hrun.call hnamed node (hops op List.mem_cons_self) happly hs' with
            ⟨saved, hcalled, hall⟩
          have hnext := ih hcalled hall hrest (by simpa using htail)
          simpa using hnext

/-- A store with one chunk, and what it sends. -/
def senderCalls : List Op :=
  [.constructStorageNode [1] "http://node-a:50051", .putObject 7 "k", .putChunk [10] 0 "k" 5]

/-- The node that the records are pulled from. -/
def sender : MetadataStore := (MetadataStore.fresh .empty).afterCalls jsonLib senderCalls

/-- What the sender sends. -/
def senderReceived : Received :=
  Received.empty.extend (sender.objectsInHashRanges (fun _ => 0) [(0, maxHash)])

/-- A store that takes this over and records one more replica. -/
def receiverCalls : List Op :=
  [.constructStorageNode [2] "http://node-b:50051",
    .ingestPartition senderReceived.objects senderReceived.chunks, .addChunkReplica 10 2]

/-- The node that pulls the records. -/
def receiver : MetadataStore := (MetadataStore.fresh .empty).afterCalls jsonLib receiverCalls

/-- `a` creates an object with one chunk and `b` pulls it; the copy on `b` gets a second
replica. -/
theorem replica_lists_wellFormed_pulled :
    ∃ fleet : Fleet String, FleetRun jsonLib (fun _ => 0) (fun _ => "k") fleet ∧
      (fleet.stores "b").1.chunks[(10 : UInt64)]? = some ⟨10, "k", 5, [1, 2], .confirmed⟩ ∧
      ([1, 2] : List UInt64).Nodup ∧ ([1, 2] : List UInt64).length ≤ 3 ∧
        (ChunkStatus.confirmed = .confirmed → ([1, 2] : List UInt64) ≠ []) := by
  have hstart : FleetRun jsonLib (fun _ => 0) (fun _ => "k")
      (Fleet.start (fun _ : String => none)) := ⟨_, .refl⟩
  have hfresh : ∀ node : String, Named (fun _ => "k")
      ((Fleet.start (fun _ : String => none)).stores node).1.maps := fun _ => named_empty _
  have hsender : ∀ n ≤ senderCalls.length, Named (fun _ => "k")
      ((MetadataStore.fresh .empty).afterCalls jsonLib (senderCalls.take n)).maps := by
    decide +kernel
  have hreceiver : ∀ n ≤ receiverCalls.length, Named (fun _ => "k")
      ((MetadataStore.fresh .empty).afterCalls jsonLib (receiverCalls.take n)).maps := by
    decide +kernel
  have ha : ((Fleet.start (fun _ : String => none)).stores "a").1 =
      MetadataStore.fresh .empty := rfl
  rcases hstart.calls hfresh "a" (by simp [senderCalls, Op.TakesOver] :
    ∀ op ∈ senderCalls, op.TakesOver []) (by rw [ha]; exact hsender)
    with ⟨saved, ⟨tmp, hcreated⟩, hnamed⟩
  rw [ha] at hcreated hnamed
  let fleet : Fleet String :=
    ⟨Function.update (Fleet.start (fun _ : String => none)).stores "a" (sender, saved),
      [senderReceived]⟩
  have hsent : FleetRun jsonLib (fun _ => 0) (fun _ => "k") fleet := by
    refine ⟨tmp, hcreated.tail ⟨.send "a" [(0, maxHash)] ?_, hnamed⟩⟩
    simp only [Function.update_self]
    exact receive_transferPartition (fun _ => 0) sender [(0, maxHash)]
  have htakes : ∀ op ∈ receiverCalls, op.TakesOver fleet.sent := by
    simp [receiverCalls, Op.TakesOver, fleet]
  have hb : (fleet.stores "b").1 = MetadataStore.fresh .empty := by
    simp only [fleet]
    rw [Function.update_of_ne (by decide)]
    rfl
  rcases hsent.calls hnamed "b" htakes (by rw [hb]; exact hreceiver) with ⟨saved', hrun, _⟩
  rw [hb] at hrun
  have hchunk : receiver.chunks[(10 : UInt64)]? = some ⟨10, "k", 5, [1, 2], .confirmed⟩ := by
    decide +kernel
  have hfound : (Function.update fleet.stores "b" (receiver, saved') "b").1.chunks[(10 : UInt64)]? =
      some ⟨10, "k", 5, [1, 2], .confirmed⟩ := by
    rw [Function.update_self]
    exact hchunk
  refine ⟨_, hrun, hfound, ?_⟩
  exact replica_lists_wellFormed jsonLib jsonLib_lawful (fun _ => 0) (fun _ => "k") _ hrun "b" 10
    ⟨10, "k", 5, [1, 2], .confirmed⟩ hfound

end StorageMetadata
end ObjectStore
