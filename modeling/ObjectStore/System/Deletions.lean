import ObjectStore.ApiGateway.Visibility
import ObjectStore.System.Answers
import ObjectStore.System.Tidy

/-!
# System - Downloads from and deletions in a store at rest

A download from a tidy store delivers the bytes behind the name and changes nothing.  A
deletion takes the data of the object from all its storage nodes, then its records, and then
the object; in between the store is tidy but for the data of these chunks.

Main results:

- Theorem `download_serves`: what a download from the store responds.
- Theorem `deleteTasks_drop`: the tasks of a deletion, in any order of their calls.
- Theorem `handleDeleteObject_removes`: what a deletion makes of the store.
-/

namespace ObjectStore
namespace System

open ApiGateway (Library Download DeleteObjectResponsePayload HttpResult Replica content
  deleteRecords deleteTargets deleteTask getObject getOrConnect retryWithBackoff)
open Deployment (Environment Faults SameMemory SameServices Services Step)
open StorageMetadata (MetaChunk MetadataStore MetaObject)

variable {env : Environment} {lib : Library} {crc32 : Bytes → UInt32} {s s' : Services}
  {name : String} {base : String → Option Bytes} {pieces : UInt64 → Bytes} {object : MetaObject}

/-! ## Downloads -/

/-- What a download responds when the store has these contents. -/
def Serves (lib : Library) (name : String) (base : String → Option Bytes) (download : Download)
    (response : download.Response) : Prop :=
  match base name with
  | some bytes => download.Delivers lib bytes response
  | none => ∃ msg, response = Download.failure (.notFound, msg) download

/-- A download serves what is stored under the name, and nothing else. -/
theorem download_serves (download : Download) (lib : Library)
    (hvalid : ApiGateway.validateObjectName lib name = .ok ())
    (h : Represents crc32 s base) :
    (download.handler lib name).Ensures (RoomyStep env)
      (fun response s' => Serves lib name base download response ∧ Represents crc32 s' base) s := by
  have hsame : (download.handler lib name).Ensures (RoomyStep env)
      (fun _ s' => SameServices s s') s :=
    (download.handler_looks lib name).ensures (.refl s) fun _ _ _ _ hcall hbefore hstep =>
      hbefore.trans (hstep.1.reads hcall.reads)
  have hresponse : (download.handler lib name).Ensures (RoomyStep env)
      (fun response _ => Serves lib name base download response) s := by
    rcases h with ⟨pieces, htidy, rfl⟩
    cases hname : s.metadata.metadataStore.objects[name]? with
    | some object =>
        have hstored := htidy.storedObject hname
        rcases htidy.live hname with ⟨hresolvable, hlive⟩
        have hrely := ApiGateway.untouched_readRely name object.chunks
        have hnone : Faults.none ≠ .any := by decide
        have hdownload : (download.handler lib name).Ensures
            (Library.Amid (ApiGateway.Untouched name object.chunks) (Step env .none)) _ s :=
          (hstored.download_ensures lib hnone download).amid hrely.refl
        refine ((hdownload.anti fun _ _ _ _ hstep => ⟨_, hrely.refl _, hstep.1⟩).mono ?_)
        intro response _ hpost
        have hfound : contents pieces s name = some (content object pieces) := by
          simp [contents, hname]
        rw [Serves, hfound]
        exact (hpost.1 (hpost.2 rfl hvalid hresolvable hlive)).1
    | none =>
        have hfound : contents pieces s name = none := by simp [contents, hname]
        rw [Download.handler_eq, hvalid]
        intro reply s₁ hreply
        have habsent : ¬ s.Has name := by
          intro hmem
          rcases HashMap.mem_iff_exists_getElem?.mp hmem with ⟨found, hfound⟩
          cases hfound.symm.trans hname
        rcases ApiGateway.lookup_fails habsent hreply.1 with ⟨status, rfl⟩
        change Serves _ _ _ _ _
        rw [Serves, hfound]
        exact ⟨_, rfl⟩
  exact (hresponse.and hsame).mono fun response s' hpost => ⟨hpost.1, h.same hpost.2⟩

/-! ## The data of an object -/

/-- Nothing but data of the targets has gone. -/
structure Dropping (targets : List (UInt64 × String)) (s s' : Services) : Prop where
  memory : SameMemory s'.metadata.metadataStore s.metadata.metadataStore
  nodes : ∀ address ∈ s.nodes, address ∈ s'.nodes
  data : ∀ address id, s'.dataAt address id = s.dataAt address id ∨
    (id, address) ∈ targets ∧ s'.dataAt address id = none

variable {targets : List (UInt64 × String)}

theorem Dropping.of_same (h : SameServices s s') : Dropping targets s s' where
  memory := h.memory
  nodes address haddress := by
    rw [h.nodes]
    exact haddress
  data address id := .inl (h.dataAt address id)

theorem dropping_refl (s : Services) : Dropping targets s s := .of_same (.refl s)

/-- Deletions follow one another. -/
theorem dropping_trans (s s' s'' : Services) (h : Dropping targets s s')
    (h' : Dropping targets s' s'') : Dropping targets s s'' where
  memory :=
    { objects := h'.memory.objects.trans h.memory.objects
      chunks := h'.memory.chunks.trans h.memory.chunks
      storageNodes := h'.memory.storageNodes.trans h.memory.storageNodes }
  nodes address haddress := h'.nodes address (h.nodes address haddress)
  data address id := by
    rcases h'.data address id with hsame | hgone
    · rw [hsame]
      exact h.data address id
    · exact .inr hgone

/-- What is gone stays gone. -/
theorem Dropping.gone (h : Dropping targets s s') {address : String} {id : UInt64}
    (hgone : s.dataAt address id = none) : s'.dataAt address id = none := by
  rcases h.data address id with hsame | hnone
  · rw [hsame]
    exact hgone
  · exact hnone.2

theorem getOrConnect_drops {address : String} (haddress : address ∈ s.nodes) :
    (getOrConnect address).EnsuresUnder (Step env .none) (Dropping targets)
      (fun result s' => result = .ok () ∧ address ∈ s'.nodes) s := by
  intro s₁ hs₁ cached s₂ hcached
  have hs₂ : Dropping targets s₁ s₂ := .of_same (hcached.reads trivial)
  have haddress₂ := hs₂.nodes _ (hs₁.nodes _ haddress)
  refine ⟨hs₂, ?_⟩
  change Bool at cached
  cases cached with
  | true => exact fun s₃ hs₃ => ⟨rfl, hs₃.nodes _ haddress₂⟩
  | false =>
      intro s₃ hs₃ connected s₄ hconnected
      have hs₄ : Dropping targets s₃ s₄ := .of_same (hconnected.reads trivial)
      have haddress₃ := hs₃.nodes _ haddress₂
      refine ⟨hs₄, ?_⟩
      have hok : connected = .ok () := by
        rcases served hconnected not_false with ⟨choice, _, hserve⟩
        simp only [Services.serve, haddress₃, if_true] at hserve
        split at hserve <;> cases hserve <;> rfl
      subst hok
      exact fun s₅ hs₅ => ⟨rfl, hs₅.nodes _ (hs₄.nodes _ haddress₃)⟩

/-- The first of the attempts succeeds. -/
theorem retryDelete_drops {target : UInt64 × String} (htarget : target ∈ targets)
    (haddress : target.2 ∈ s.nodes) (retries : Nat) :
    (retryWithBackoff (Deployment.Program.storageNode target.2 (.deleteChunk target.1))
      (retries + 1)).EnsuresUnder (Step env .none) (Dropping targets)
        (fun _ s' => s'.dataAt target.2 target.1 = none) s := by
  intro s₁ hs₁ reply s₂ hreply
  rcases deleteChunk_answered (hs₁.nodes _ haddress) hreply with ⟨rfl, hmetadata, hnodes, hdata⟩
  constructor
  · refine ⟨hmetadata ▸ .refl _, hnodes, fun address id => ?_⟩
    rw [hdata]
    split
    · rename_i heq
      rcases heq with ⟨rfl, rfl⟩
      exact .inr ⟨htarget, rfl⟩
    · exact .inl rfl
  · intro s₃ hs₃
    apply hs₃.gone
    rw [hdata, if_pos ⟨rfl, rfl⟩]

/-- One of the futures, next to the others. -/
theorem deleteTask_drops {target : UInt64 × String} (htarget : target ∈ targets)
    (haddress : target.2 ∈ s.nodes) :
    (deleteTask target).EnsuresUnder (Step env .none) (Dropping targets)
      (fun _ s' => s'.dataAt target.2 target.1 = none) s := by
  unfold deleteTask
  refine .of_bind dropping_refl ((getOrConnect_drops haddress).mono ?_)
  rintro result s₁ ⟨rfl, haddress₁⟩
  refine .of_bind dropping_refl (((retryDelete_drops htarget haddress₁ 1).stable
    dropping_trans).mono ?_)
  intro result s₂ hgone
  cases result <;> exact hgone

/-- The tasks of a deletion, in any order of their calls. -/
theorem deleteTasks_drop (haddresses : ∀ target ∈ targets, target.2 ∈ s.nodes) :
    (Deployment.Program.joinAll (targets.map deleteTask)).Ensures (RoomyStep env)
      (fun _ s' => Dropping targets s s' ∧
        ∀ target ∈ targets, s'.dataAt target.2 target.1 = none) s := by
  have hturn : ∀ s₁ reply s₂, Step env .none s₁ .turn reply s₂ → Dropping targets s₁ s₂ :=
    fun _ _ _ hstep => .of_same (hstep.reads trivial)
  have hjoined : (Deployment.Program.joinAll (targets.map deleteTask)).EnsuresUnder
      (Step env .none) (Dropping targets) _ s :=
    Library.Program.EnsuresUnder.joinAll dropping_refl dropping_trans hturn
      fun target htarget => deleteTask_drops htarget (haddresses target htarget)
  refine (((hjoined.related dropping_refl dropping_trans).amid dropping_refl).anti
    fun _ _ _ _ hstep => ⟨_, dropping_refl _, hstep.1⟩).mono ?_
  intro values s' hpost
  refine ⟨hpost.1, ?_⟩
  have hall := hpost.2
  clear hpost hjoined hturn haddresses
  generalize hitems : targets = items at hall
  clear hitems
  induction hall with
  | nil => simp
  | cons hgone _ ih => exact List.forall_mem_cons.mpr ⟨hgone, ih⟩

/-! ## The records of an object -/

/-- The loop over the chunk records. -/
theorem deleteRecords_clears {dropped : List UInt64}
    (chunks : List StorageMetadata.Proto.MetaChunk) (htidy : Tidy crc32 dropped pieces s)
    (hname : s.metadata.metadataStore.objects[name]? = some object)
    (hchunks : object.chunks = chunks.map (·.id)) (hdropped : object.chunks ⊆ dropped)
    (hgone : ∀ id ∈ dropped, id ∉ object.chunks → s.metadata.metadataStore.chunks[id]? = none) :
    (deleteRecords chunks).Ensures (RoomyStep env)
      (fun _ s' => Tidy crc32 [] pieces s' ∧ ∃ object',
        s'.metadata.metadataStore.objects[name]? = some object' ∧ object'.chunks = [] ∧
        ∀ other ≠ name, s'.metadata.metadataStore.objects[other]? =
          s.metadata.metadataStore.objects[other]?) s := by
  induction chunks generalizing s object with
  | nil =>
      have hempty : object.chunks = [] := hchunks
      rw [hempty] at hgone
      exact ⟨htidy.restored fun id hid => hgone id hid nofun, object, hname, hempty,
        fun _ _ => rfl⟩
  | cons chunk chunks ih =>
      have hlisted : chunk.id ∈ object.chunks := by simp [hchunks]
      have hnodup := htidy.catalogued.nodup name object hname
      rcases htidy.catalogued.listed name object hname chunk.id hlisted with
        ⟨record, hrecord, rfl⟩
      intro reply s₁ hreply
      rcases deleteRecord_answered hrecord hname hreply.1 with ⟨hnodes, hmemory⟩
      have htidy₁ := htidy.removeRecord (hdropped hlisted) hrecord hname hmemory hnodes
      have hname₁ : s₁.metadata.metadataStore.objects[record.objectName]? =
          some (object.removeChunk chunk.id) := by
        rw [hmemory.objects]
        exact Std.ExtTreeMap.getElem?_insert_self
      have hothers : ∀ other ≠ record.objectName, s₁.metadata.metadataStore.objects[other]? =
          s.metadata.metadataStore.objects[other]? := by
        intro other hother
        rw [hmemory.objects]
        exact HashMap.getElem?_insert_of_ne _ _ hother
      have hchunks₁ : (object.removeChunk chunk.id).chunks = chunks.map (·.id) := by
        rw [hchunks, List.map_cons, List.nodup_cons] at hnodup
        rw [MetaObject.removeChunk, hchunks, List.map_cons, List.filter_cons_of_neg (by simp)]
        apply List.filter_eq_self.mpr
        intro id hid
        have hne : id ≠ chunk.id := by
          rintro rfl
          exact hnodup.1 hid
        simpa using hne
      have hgone₁ : ∀ id ∈ dropped, id ∉ (object.removeChunk chunk.id).chunks →
          s₁.metadata.metadataStore.chunks[id]? = none := by
        intro id hid hnot
        rw [hmemory.chunks]
        by_cases heq : id = chunk.id
        · subst heq
          simp [MetadataStore.withObject, MetadataStore.withoutChunk]
        · have hold : id ∉ object.chunks := by
            intro hmem
            exact hnot (by simp [MetaObject.removeChunk, hmem, heq])
          exact (HashMap.getElem?_erase_of_ne _ heq).trans (hgone id hid hold)
      have hdropped₁ : (object.removeChunk chunk.id).chunks ⊆ dropped := by
        intro id hid
        exact hdropped (List.mem_of_mem_filter hid)
      refine (ih htidy₁ hname₁ hchunks₁ hdropped₁ hgone₁).mono ?_
      rintro _ s' ⟨htidy', object', hname', hempty', hothers'⟩
      exact ⟨htidy', object', hname', hempty', fun other hother =>
        (hothers' other hother).trans (hothers other hother)⟩

/-! ## The handler -/

/-- What a deletion makes of the store, and what it responds. -/
def Removes (crc32 : Bytes → UInt32) (name : String) (base : String → Option Bytes)
    (response : HttpResult DeleteObjectResponsePayload) (s : Services) : Prop :=
  match base name with
  | some _ => response = .ok ⟨"object deleted"⟩ ∧
      Represents crc32 s (Function.update base name none)
  | none => (∃ msg, response = .error (.notFound, msg)) ∧ Represents crc32 s base

/-- The targets are the replicas of the object's chunks. -/
theorem mem_deleteTargets_iff (htidy : Tidy crc32 [] pieces s)
    (hname : s.metadata.metadataStore.objects[name]? = some object) {id : UInt64}
    {address : String} :
    (id, address) ∈ deleteTargets (s.metadata.metadataStore.response object).chunks ↔
      id ∈ object.chunks ∧ Replica s id address := by
  rcases ApiGateway.response_chunks (htidy.storedObject hname) with ⟨hids, hchunks⟩
  unfold deleteTargets
  simp only [List.mem_flatMap, List.mem_map, Prod.mk.injEq]
  constructor
  · rintro ⟨chunk, hchunk, node, hnode, rfl, rfl⟩
    rcases hchunks chunk hchunk with ⟨hid, hreplica⟩
    exact ⟨hid, (hreplica _).mpr ⟨node, hnode, rfl⟩⟩
  · rintro ⟨hid, hreplica⟩
    rw [← hids] at hid
    rcases List.mem_map.mp hid with ⟨chunk, hchunk, rfl⟩
    rcases ((hchunks chunk hchunk).2 address).mp hreplica with ⟨node, hnode, rfl⟩
    exact ⟨chunk, hchunk, node, hnode, rfl, rfl⟩

/-- After the tasks, the store is tidy but for the data of the object's chunks. -/
theorem Dropping.tidy (htidy : Tidy crc32 [] pieces s)
    (hname : s.metadata.metadataStore.objects[name]? = some object)
    (h : Dropping (deleteTargets (s.metadata.metadataStore.response object).chunks) s s')
    (hgone : ∀ target ∈ deleteTargets (s.metadata.metadataStore.response object).chunks,
      s'.dataAt target.2 target.1 = none) :
    Tidy crc32 object.chunks pieces s' := by
  refine htidy.dropData h.memory h.nodes fun address id => ?_
  split
  · rename_i hid
    cases hdata : s.dataAt address id with
    | none => exact h.gone hdata
    | some bytes =>
        have hreplica := (htidy.owned id address bytes hdata).2
        exact hgone (id, address) ((mem_deleteTargets_iff htidy hname).mpr ⟨hid, hreplica⟩)
  · rename_i hid
    rcases h.data address id with hsame | ⟨htarget, _⟩
    · exact hsame
    · exact absurd ((mem_deleteTargets_iff htidy hname).mp htarget).1 hid

/-- A response depends on the memory only. -/
theorem response_congr {m m' : MetadataStore} (h : SameMemory m' m) (object : MetaObject) :
    m'.response object = m.response object := by
  have hdescribe : m'.describe = m.describe := by
    funext chunk
    simp only [MetadataStore.describe, MetadataStore.registeredStorageNodes, h.storageNodes]
  simp only [MetadataStore.response, hdescribe, h.chunks]

/-- A deletion removes the object with its chunks and their data. -/
theorem handleDeleteObject_removes (lib : Library)
    (hvalid : ApiGateway.validateObjectName lib name = .ok ()) (h : Represents crc32 s base) :
    (ApiGateway.handleDeleteObject lib name).Ensures (RoomyStep env)
    (Removes crc32 name base) s := by
  rcases h with ⟨pieces, htidy, rfl⟩
  unfold ApiGateway.handleDeleteObject
  rw [hvalid]
  cases hname : s.metadata.metadataStore.objects[name]? with
  | none =>
      intro found s₁ hfound
      have habsent : ¬ s.Has name := by
        intro hmem
        rcases HashMap.mem_iff_exists_getElem?.mp hmem with ⟨object, hobject⟩
        cases hobject.symm.trans hname
      rcases ApiGateway.lookup_fails habsent hfound.1 with ⟨status, rfl⟩
      have hnone : contents pieces s name = none := by simp [contents, hname]
      change Removes _ _ _ _ _
      rw [Removes, hnone]
      exact ⟨⟨_, rfl⟩, Represents.same ⟨pieces, htidy, rfl⟩ (hfound.1.reads trivial)⟩
  | some object =>
      have hvalue : contents pieces s name = some (content object pieces) := by
        simp [contents, hname]
      intro found s₁ hfound
      have hsame₁ := hfound.1.reads trivial
      have hobject : found = .ok object := by
        rcases hfound.1.lookupObject_reply (by decide) with hreply | ⟨hfails, _⟩
        · exact hreply.trans (StorageMetadata.lookupObject_eq hname)
        · exact absurd rfl hfails
      subst hobject
      have htidy₁ := htidy.same hsame₁
      have hname₁ : s₁.metadata.metadataStore.objects[name]? = some object := by
        rw [hsame₁.memory.objects]
        exact hname
      intro resolved s₂ hresolved
      have hsame₂ := hresolved.1.reads trivial
      have hresponse : resolved = .ok (s₁.metadata.metadataStore.response object) := by
        rcases hresolved.1.resolveObject_reply (by decide) with hreply | ⟨hfails, _⟩
        · exact hreply.trans
            (StorageMetadata.resolveObject_eq_ok_iff.mpr ⟨(htidy₁.live hname₁).1, rfl⟩)
        · exact absurd rfl hfails
      subst hresponse
      have htidy₂ := htidy₁.same hsame₂
      have hname₂ : s₂.metadata.metadataStore.objects[name]? = some object := by
        rw [hsame₂.memory.objects]
        exact hname₁
      have heq : s₁.metadata.metadataStore.response object =
          s₂.metadata.metadataStore.response object := (response_congr hsame₂.memory object).symm
      rw [heq]
      have haddresses : ∀ target ∈ deleteTargets (s₂.metadata.metadataStore.response object).chunks,
          target.2 ∈ s₂.nodes := by
        rintro ⟨id, address⟩ htarget
        have hreplica := ((mem_deleteTargets_iff htidy₂ hname₂).mp htarget).2
        rcases replica_iff.mp hreplica with ⟨_, nodeId, node, _, _, hnode, rfl⟩
        exact htidy₂.node_reachable hnode
      change (Deployment.Program.joinAll ((deleteTargets
        (s₂.metadata.metadataStore.response object).chunks).map deleteTask) >>= _).Ensures _ _ _
      refine .of_bind ((deleteTasks_drop haddresses).mono ?_)
      rintro values s₃ ⟨hdropping, hgone⟩
      have htidy₃ := hdropping.tidy htidy₂ hname₂ hgone
      have hname₃ : s₃.metadata.metadataStore.objects[name]? = some object := by
        rw [hdropping.memory.objects]
        exact hname₂
      have hids := (ApiGateway.response_chunks (htidy₂.storedObject hname₂)).1
      refine .of_bind ((deleteRecords_clears _ htidy₃ hname₃ hids.symm (List.Subset.refl _)
        fun id hid hnot => absurd hid hnot).mono ?_)
      rintro _ s₄ ⟨htidy₄, object', hname₄, hempty, hothers⟩
      intro deleted s₅ hdeleted
      rcases deleteObject_answered hname₄ hdeleted.1 with ⟨rfl, hnodes, hmemory⟩
      change Removes _ _ _ _ _
      rw [Removes, hvalue]
      refine ⟨rfl, pieces, ?_, ?_⟩
      · have hcatalogued := (htidy₄.catalogued.removeObject hname₄ hempty).of_memory hmemory
        refine htidy₄.of_objects hcatalogued ?_ hmemory.storageNodes hnodes
        rw [hmemory.chunks, MetadataStore.withoutObject, hempty, List.foldl_nil]
      · funext other
        rw [contents_erase pieces hmemory.objects]
        by_cases hother : other = name
        · subst hother
          simp
        · rw [Function.update_of_ne hother, Function.update_of_ne hother, contents, contents,
            hothers other hother, hdropping.memory.objects, hsame₂.memory.objects,
            hsame₁.memory.objects]

end System
end ObjectStore
