import ObjectStore.ApiGateway.Chunking
import ObjectStore.ApiGateway.Visibility
import ObjectStore.System.Answers
import ObjectStore.System.Tidy

/-!
# System - Uploads into a store at rest

An upload to a tidy store with room ends in a tidy store that has one object more, or it
finds the name taken and changes nothing.

Main results:

- Theorem `storeChunk_stores`: a stored chunk extends the object's bytes.
- Theorem `upload_stores`: what an upload makes of the store, and what it responds.
-/

namespace ObjectStore
namespace System

open ApiGateway (Library Upload MAX_OBJECT_SIZE PutObjectResponsePayload HttpResult content
  storeChunk flushChunkToStorage flushFull streamField flushRest putChunks wholeField findFile)
open Deployment (Environment SameMemory SameServices Services)
open StorageMetadata (MetaChunk MetadataStore MetaObject)

variable {env : Environment} {lib : Library} {s s' : Services} {name : String}
  {base : String → Option Bytes} {bytes : Bytes}

/-! ## One chunk -/

/-- The record that reserved the id is overwritten by its confirmation. -/
theorem withAttached_of_reserved {m m' : MetadataStore} {id nodeId : UInt64} {object : MetaObject}
    {checksum : UInt32} (h : SameMemory m' (m.withChunk id (.newPending id name))) :
    SameMemory (m'.withAttached id name object checksum nodeId)
      (m.withAttached id name object checksum nodeId) where
  objects := congrArg (·.insert name (object.addChunk id)) h.objects
  chunks := by
    refine Std.ExtTreeMap.ext_getElem? fun other => ?_
    simp only [MetadataStore.withAttached, MetadataStore.withChunk, MetadataStore.withObject,
      h.chunks]
    by_cases hother : other = id
    · subst hother
      simp
    · simp only [HashMap.getElem?_insert_of_ne _ _ hother]
  storageNodes := h.storageNodes

theorem SameMemory.trans {m m' m'' : MetadataStore} (h : SameMemory m m') (h' : SameMemory m' m'') :
    SameMemory m m'' where
  objects := h.objects.trans h'.objects
  chunks := h.chunks.trans h'.chunks
  storageNodes := h.storageNodes.trans h'.storageNodes

/-- The content with one more piece. -/
theorem content_addChunk {pieces : UInt64 → Bytes} {object : MetaObject} {id : UInt64}
    {piece : Bytes} (hnew : id ∉ object.chunks) :
    content (object.addChunk id) (Function.update pieces id piece) =
      content object pieces ++ piece := by
  have hothers : object.chunks.map (Function.update pieces id piece) =
      object.chunks.map pieces := by
    apply List.map_congr_left
    intro other hother
    have hne : other ≠ id := by
      rintro rfl
      exact hnew hother
    exact Function.update_of_ne hne _ _
  simp [content, MetaObject.addChunk, hothers]

/-- A stored chunk extends the bytes of its object. -/
theorem storeChunk_stores (lib : Library)
    (h : Represents lib.crc32 s (Function.update base name (some bytes))) {chunk : Bytes}
    (hchunk : chunk ≠ []) :
    (storeChunk lib name chunk).Ensures (RoomyStep env)
      (fun result s' => result = .ok () ∧
        Represents lib.crc32 s' (Function.update base name (some (bytes ++ chunk)))) s := by
  rcases h with ⟨pieces, htidy, hcontents⟩
  have hvalue := congrFun hcontents name
  rw [Function.update_self] at hvalue
  rcases Option.map_eq_some_iff.mp hvalue with ⟨object, hobject, hbytes⟩
  unfold storeChunk
  intro allocated s₁ hallocated
  rcases allocateChunk_answered htidy.registered hallocated.1 with
    ⟨id, node, rfl, hnodes₁, hnew, hnode, hmemory₁⟩
  have hlisted := hnode
  rcases HashMap.mem_valueList.mp hnode with ⟨key, hnode⟩
  have hkey : node.id = key := htidy.catalogued.keyed key node hnode
  rw [← hkey] at hnode
  have haddress₁ : node.address ∈ s₁.nodes := by
    rw [hnodes₁]
    exact htidy.reachable node hlisted
  change (ApiGateway.getOrConnect node.address >>= _).Ensures _ _ _
  refine .of_bind ((getOrConnect_answered haddress₁).mono fun connected s₂ hconnected => ?_)
  rcases hconnected with ⟨rfl, hsame₂⟩
  have haddress₂ : node.address ∈ s₂.nodes := by
    rw [hsame₂.nodes]
    exact haddress₁
  have hdata₂ : ∀ address other, s₂.dataAt address other = s.dataAt address other := by
    intro address other
    simp only [Services.dataAt, hsame₂.nodes, hnodes₁]
  have hfree : s₂.dataAt node.address id = none := by
    rw [hdata₂]
    by_contra hsome
    rcases Option.ne_none_iff_exists'.mp hsome with ⟨found, hfound⟩
    rcases replica_iff.mp (htidy.owned id node.address found hfound).2 with
      ⟨record, _, _, hrecord, _⟩
    cases hrecord.symm.trans hnew
  have hmemory₂ := SameMemory.trans hsame₂.memory hmemory₁
  intro written s₃ hwritten
  rcases writeChunk_answered haddress₂ hfree hwritten with ⟨rfl, hmetadata₃, hnodes₃, hdata₃⟩
  have hmemory₃ : SameMemory s₃.metadata.metadataStore
      (s.metadata.metadataStore.withChunk id (.newPending id name)) := by
    rw [hmetadata₃]
    exact hmemory₂
  have hobject₃ : s₃.metadata.metadataStore.objects[name]? = some object := by
    rw [hmemory₃.objects]
    exact hobject
  have hpending : s₃.metadata.metadataStore.chunks[id]? = some (.newPending id name) := by
    rw [hmemory₃.chunks]
    exact Std.ExtTreeMap.getElem?_insert_self
  have hregistered : node.id ∈ s₃.metadata.metadataStore.storageNodes := by
    rw [hmemory₃.storageNodes]
    exact HashMap.mem_iff_exists_getElem?.mpr ⟨node, hnode⟩
  intro confirmed s₄ hconfirmed
  rcases confirmChunk_answered hobject₃ hregistered hpending hconfirmed.1 with
    ⟨rfl, hnodes₄, hmemory₄⟩
  have hmemory := SameMemory.trans hmemory₄ (withAttached_of_reserved hmemory₃)
  refine ⟨rfl, Function.update pieces id chunk, ?_, ?_⟩
  · refine htidy.attach hobject hnew hnode hchunk hmemory ?_ fun address other => ?_
    · intro address haddress
      rw [hnodes₄]
      apply hnodes₃
      rw [hsame₂.nodes, hnodes₁]
      exact haddress
    · have hdata₄ : s₄.dataAt address other = s₃.dataAt address other := by
        simp only [Services.dataAt, hnodes₄]
      rw [hdata₄, hdata₃, hdata₂]
  · have hunlisted : id ∉ object.chunks := by
      intro hid
      rcases htidy.catalogued.listed name object hobject id hid with ⟨record, hrecord, _⟩
      cases hrecord.symm.trans hnew
    rw [contents_insert _ hmemory.objects, contents_update htidy.catalogued hnew, hcontents,
      content_addChunk hunlisted, hbytes, Function.update_idem]

/-- A flush appends its buffer to the object. -/
theorem flushChunkToStorage_stores (lib : Library)
    (h : Represents lib.crc32 s (Function.update base name (some bytes))) {buf : Bytes}
    (hbuf : buf ≠ []) :
    (flushChunkToStorage lib buf name).Ensures (RoomyStep env)
      (fun result s' => result = .ok () ∧
        Represents lib.crc32 s' (Function.update base name (some (bytes ++ buf)))) s := by
  rw [ApiGateway.flushChunkToStorage_eq]
  refine .of_bind ((storeChunk_stores lib h hbuf).mono ?_)
  rintro result s' ⟨rfl, hstored⟩
  exact ⟨rfl, hstored⟩

/-! ## The loops -/

/-- The loop of the JSON handler. -/
theorem putChunks_stores (lib : Library) (chunked : List Bytes) (hchunked : [] ∉ chunked)
    (h : Represents lib.crc32 s (Function.update base name (some bytes))) :
    (putChunks lib name chunked).Ensures (RoomyStep env)
      (fun result s' => result = .ok () ∧
        Represents lib.crc32 s'
          (Function.update base name (some (bytes ++ chunked.flatten)))) s := by
  induction chunked generalizing s bytes with
  | nil =>
      rw [List.flatten_nil, List.append_nil]
      exact ⟨rfl, h⟩
  | cons chunk chunked ih =>
      rw [List.mem_cons, not_or] at hchunked
      rw [ApiGateway.putChunks_cons]
      refine .of_bind ((storeChunk_stores lib h (Ne.symm hchunked.1)).mono ?_)
      rintro result s₁ ⟨rfl, hstored⟩
      rw [List.flatten_cons, ← List.append_assoc]
      exact ih hchunked.2 hstored

/-- What the chunks of a body are cut into is never empty. -/
theorem nil_notMem_chunks (n : Nat) (hn : 0 < n) (body : Bytes) :
    [] ∉ ApiGateway.chunks n body := by
  have hfrom : ∀ (fuel : Nat) (body : Bytes), [] ∉ ApiGateway.chunksFrom n fuel body := by
    intro fuel
    induction fuel with
    | zero =>
        intro body
        cases body <;> simp [ApiGateway.chunksFrom]
    | succ fuel ih =>
        intro body
        cases body with
        | nil => simp [ApiGateway.chunksFrom]
        | cons byte body =>
            have hrest := ih ((byte :: body).drop n)
            simp only [ApiGateway.chunksFrom, List.mem_cons, hrest, or_false]
            intro hnil
            have hlength := congrArg List.length hnil
            simp at hlength
            omega
  exact hfrom body.length body

/-- The drain loop of the streaming handler. -/
theorem flushFull_stores (lib : Library) {n : Nat} (hn : 0 < n) (fuel : Nat) {buffer : Bytes}
    (h : Represents lib.crc32 s (Function.update base name (some bytes))) :
    (flushFull lib name n fuel buffer).Ensures (RoomyStep env)
      (fun result s' => ∃ flushed buffer', result = .ok buffer' ∧ flushed ++ buffer' = buffer ∧
        Represents lib.crc32 s' (Function.update base name (some (bytes ++ flushed)))) s := by
  induction fuel generalizing s bytes buffer with
  | zero =>
      refine ⟨[], buffer, rfl, rfl, ?_⟩
      rw [List.append_nil]
      exact h
  | succ fuel ih =>
      unfold flushFull
      split
      · rename_i hlength
        have hfull : buffer.take n ≠ [] := by
          intro hnil
          have hzero : (buffer.take n).length = 0 := by simp [hnil]
          rw [List.length_take] at hzero
          omega
        refine .of_bind ((flushChunkToStorage_stores lib h hfull).mono ?_)
        rintro result s₁ ⟨rfl, hstored⟩
        refine (ih hstored).mono ?_
        rintro result s₂ ⟨flushed, buffer', rfl, hbuffer, hstored'⟩
        refine ⟨buffer.take n ++ flushed, buffer', rfl, ?_, ?_⟩
        · rw [List.append_assoc, hbuffer, List.take_append_drop]
        · rw [← List.append_assoc]
          exact hstored'
      · refine ⟨[], buffer, rfl, rfl, ?_⟩
        rw [List.append_nil]
        exact h

/-- The loop over the reads of the field. -/
theorem streamField_stores (lib : Library) {n : Nat} (hn : 0 < n)
    (reads : List (Except String Bytes)) {buffer received rest : Bytes}
    (hreads : wholeField reads = some rest) (hreceived : bytes ++ buffer = received)
    (hsize : (received ++ rest).length ≤ MAX_OBJECT_SIZE)
    (h : Represents lib.crc32 s (Function.update base name (some bytes))) :
    (streamField lib name n buffer received reads).Ensures (RoomyStep env)
      (fun result s' => ∃ stored buffer', result = .ok (buffer', received ++ rest) ∧
        stored ++ buffer' = received ++ rest ∧
        Represents lib.crc32 s' (Function.update base name (some stored))) s := by
  induction reads generalizing s bytes buffer received rest with
  | nil =>
      cases hreads
      rw [List.append_nil]
      exact ⟨bytes, buffer, rfl, hreceived, h⟩
  | cons read reads ih =>
      cases read with
      | error err => cases hreads
      | ok chunkData =>
          rcases Option.map_eq_some_iff.mp hreads with ⟨later, hlater, rfl⟩
          rw [← List.append_assoc] at hsize ⊢
          have hfits : ¬ MAX_OBJECT_SIZE < (received ++ chunkData).length := by
            rw [List.length_append] at hsize
            omega
          unfold streamField
          dsimp only
          rw [if_neg hfits]
          refine .of_bind ((flushFull_stores lib hn _ h).mono ?_)
          rintro result s₁ ⟨flushed, buffer', rfl, hbuffer, hstored⟩
          refine ih hlater ?_ hsize hstored
          rw [List.append_assoc, hbuffer, ← hreceived, List.append_assoc]

/-- The rest is appended, if there is any. -/
theorem flushRest_stores (lib : Library) (buffer : Bytes)
    (h : Represents lib.crc32 s (Function.update base name (some bytes))) :
    (flushRest lib name buffer).Ensures (RoomyStep env)
      (fun result s' => result = .ok () ∧
        Represents lib.crc32 s' (Function.update base name (some (bytes ++ buffer)))) s := by
  unfold flushRest
  split
  · rename_i hempty
    rw [List.isEmpty_iff.mp hempty, List.append_nil]
    exact ⟨rfl, h⟩
  · rename_i hfull
    exact flushChunkToStorage_stores lib h fun hnil => hfull (by simp [hnil])

/-! ## The handlers -/

/-- The contents have the names of the objects. -/
theorem contents_eq_none_iff {pieces : UInt64 → Bytes} :
    contents pieces s name = none ↔ s.metadata.metadataStore.objects[name]? = none :=
  Option.map_eq_none_iff

/-- A new object is empty. -/
theorem Represents.create {checksum : UInt32} {crc32 : Bytes → UInt32}
    (h : Represents crc32 s base)
    (hname : s.metadata.metadataStore.objects[name]? = none) (hnodes : s'.nodes = s.nodes)
    (hmemory : SameMemory s'.metadata.metadataStore
      (s.metadata.metadataStore.withObject name (.new name checksum))) :
    Represents crc32 s' (Function.update base name (some [])) := by
  rcases h with ⟨pieces, htidy, rfl⟩
  have hkept : ∀ found, s.metadata.metadataStore.objects[name]? = some found →
      found.chunks ⊆ (MetaObject.new name checksum).chunks := by
    intro found hfound
    cases hname.symm.trans hfound
  have hcatalogued : Catalogued (s.metadata.metadataStore.withObject name (.new name checksum)) :=
    htidy.catalogued.insertObject nofun hkept .nil rfl
  exact ⟨pieces, htidy.of_objects (hcatalogued.of_memory hmemory) hmemory.chunks
    hmemory.storageNodes hnodes, contents_insert pieces hmemory.objects⟩

/-- A late checksum leaves the bytes of the object alone. -/
theorem Represents.setChecksum {checksum : UInt32} {totalSize : UInt64} {object : MetaObject}
    {crc32 : Bytes → UInt32} (h : Represents crc32 s (Function.update base name (some bytes)))
    (hname : s.metadata.metadataStore.objects[name]? = some object) (hnodes : s'.nodes = s.nodes)
    (hmemory : SameMemory s'.metadata.metadataStore (s.metadata.metadataStore.withObject name
      { object with checksum := checksum, totalSize := totalSize })) :
    Represents crc32 s' (Function.update base name (some bytes)) := by
  rcases h with ⟨pieces, htidy, hcontents⟩
  have hvalue := congrFun hcontents name
  rw [Function.update_self, contents, hname] at hvalue
  have hcatalogued : Catalogued (s.metadata.metadataStore.withObject name
      { object with checksum := checksum, totalSize := totalSize }) := by
    apply htidy.catalogued.insertObject
    · intro id hid
      exact ⟨object, hname, hid⟩
    · intro found hfound
      cases hname.symm.trans hfound
      exact List.Subset.refl _
    · exact htidy.catalogued.nodup name object hname
    · exact htidy.catalogued.named name object hname
  refine ⟨pieces, htidy.of_objects (hcatalogued.of_memory hmemory) hmemory.chunks
    hmemory.storageNodes hnodes, ?_⟩
  rw [contents_insert pieces hmemory.objects, hcontents, Function.update_idem]
  exact congrArg _ hvalue

/-- What an upload of `body` makes of the store, and what it responds. -/
def Stores (crc32 : Bytes → UInt32) (name : String) (body : Bytes) (base : String → Option Bytes)
    (response : HttpResult PutObjectResponsePayload) (s : Services) : Prop :=
  match base name with
  | none => response = .ok ⟨"upload complete", body.length⟩ ∧
      Represents crc32 s (Function.update base name (some body))
  | some _ => response = .error (.conflict, "object name already used") ∧ Represents crc32 s base

/-- The first call behind the chunk size creates the object, or finds the name taken. -/
theorem created_stores {checksum : UInt32} {body : Bytes} {crc32 : Bytes → UInt32}
    {f : Except Status Unit → Deployment.Program (HttpResult PutObjectResponsePayload)}
    (h : Represents crc32 s base)
    (hconflict : ∀ status, f (.error status) =
      pure (.error (.conflict, "object name already used")))
    (hcreated : ∀ s', base name = none → Represents crc32 s' (Function.update base name (some [])) →
      (f (.ok ())).Ensures (RoomyStep env) (Stores crc32 name body base) s') :
    (Deployment.Program.metadata (.putObject checksum name) >>= f).Ensures (RoomyStep env)
      (Stores crc32 name body base) s := by
  intro reply s₁ hreply
  rcases h with ⟨pieces, htidy, rfl⟩
  cases hname : s.metadata.metadataStore.objects[name]? with
  | none =>
      rcases putObject_answered hname hreply.1 with ⟨rfl, hnodes, hmemory⟩
      have habsent : contents pieces s name = none := contents_eq_none_iff.mpr hname
      exact hcreated s₁ habsent (Represents.create ⟨pieces, htidy, rfl⟩ hname hnodes hmemory)
  | some object =>
      rcases putObject_refused hname hreply.1 with ⟨⟨status, rfl⟩, hsame⟩
      have hfound : contents pieces s name = some (content object pieces) := by
        simp [contents, hname]
      have hleaf : (f (.error status)).Ensures (RoomyStep env)
          (Stores crc32 name body (contents pieces s)) s₁ := by
        rw [hconflict]
        change Stores _ _ _ _ _ _
        rw [Stores, hfound]
        exact ⟨rfl, Represents.same ⟨pieces, htidy, rfl⟩ hsame⟩
      exact hleaf

/-- The JSON handler from `put_object` on. -/
theorem storeObject_stores (lib : Library) (body : Bytes) (size : StorageNode.ChunkSize)
    (h : Represents lib.crc32 s base) :
    (ApiGateway.storeObject lib name body size).Ensures (RoomyStep env)
      (Stores lib.crc32 name body base) s := by
  refine created_stores h (fun _ => rfl) fun s₁ habsent hcreated => ?_
  change (putChunks lib name (ApiGateway.chunks size.bytes body) >>= _).Ensures _ _ _
  refine .of_bind
    ((putChunks_stores lib _ (nil_notMem_chunks _ size.positive body) hcreated).mono ?_)
  rintro result s₂ ⟨rfl, hstored⟩
  rw [List.nil_append, ApiGateway.flatten_chunks size.positive] at hstored
  change Stores _ _ _ _ _ _
  rw [Stores, habsent]
  exact ⟨rfl, hstored⟩

/-- The streaming handler from `put_object` on. -/
theorem streamObject_stores (lib : Library) {fields : ApiGateway.Multipart} {body : Bytes}
    (size : StorageNode.ChunkSize) (hbody : (Upload.multipart fields).body lib = some body)
    (hsize : body.length ≤ MAX_OBJECT_SIZE) (h : Represents lib.crc32 s base) :
    (ApiGateway.streamObject lib name fields size).Ensures (RoomyStep env)
      (Stores lib.crc32 name body base) s := by
  refine created_stores h (fun _ => rfl) fun s₁ habsent hcreated => ?_
  unfold Upload.body at hbody
  dsimp only at hbody
  cases hfield : findFile fields with
  | error error =>
      rw [hfield] at hbody
      cases hbody
  | ok field =>
      rw [hfield] at hbody
      change (streamField lib name size.bytes [] [] field.data >>= _).Ensures _ _ _
      have hnothing : ([] ++ [] : Bytes) = [] := rfl
      refine .of_bind
        ((streamField_stores lib size.positive _ hbody hnothing hsize hcreated).mono ?_)
      rintro result s₂ ⟨stored, buffer, rfl, hwhole, hstored⟩
      rw [List.nil_append] at hwhole
      refine .of_bind ((flushRest_stores lib buffer hstored).mono ?_)
      rintro result s₃ ⟨rfl, hflushed⟩
      rw [hwhole] at hflushed
      intro updated s₄ hupdated
      have hvalue : ∃ object, s₃.metadata.metadataStore.objects[name]? = some object := by
        rcases hflushed with ⟨pieces, _, hcontents⟩
        have hvalue := congrFun hcontents name
        rw [Function.update_self] at hvalue
        rcases Option.map_eq_some_iff.mp hvalue with ⟨object, hobject, _⟩
        exact ⟨object, hobject⟩
      rcases hvalue with ⟨object, hobject⟩
      rcases updateObjectChecksum_answered hobject hupdated.1 with ⟨rfl, hnodes, hmemory⟩
      change Stores _ _ _ _ _ _
      rw [Stores, habsent]
      exact ⟨rfl, hflushed.setChecksum hobject hnodes hmemory⟩

/-- The calls in front of `put_object`, which look for a storage node and its chunk size. -/
theorem preamble_stores {α : Type} {crc32 : Bytes → UInt32} {post : α → Services → Prop}
    {f : Except Status (List StorageMetadata.Proto.MetaStorageNode) → Deployment.Program α}
    {g : StorageMetadata.Proto.MetaStorageNode → Except String Unit → Deployment.Program α}
    {k : Except Status StorageNode.ChunkSize → Deployment.Program α}
    (hf : ∀ node nodes, f (.ok (node :: nodes)) =
      Deployment.Program.connect node.address >>= g node)
    (hg : ∀ node, g node (.ok ()) = Deployment.Program.storageNode node.address .getChunkSize >>= k)
    (h : Represents crc32 s base)
    (hk : ∀ size s', Represents crc32 s' base → (k (.ok size)).Ensures (RoomyStep env) post s') :
    (Deployment.Program.metadata .listStorageNodes >>= f).Ensures (RoomyStep env) post s := by
  rcases h with ⟨pieces, htidy, hcontents⟩
  intro listed s₁ hlisted
  rcases listStorageNodes_answered hlisted.1 with ⟨nodes, rfl, hperm, hsame₁⟩
  have hne : nodes ≠ [] := by
    intro hnil
    rw [hnil] at hperm
    have hlength := hperm.length_eq
    simp only [StorageMetadata.StorageMetadataImpl.listStorageNodes,
      StorageMetadata.MetadataStore.listStorageNodes, List.length_nil, List.length_map] at hlength
    exact htidy.registered (List.length_eq_zero_iff.mp hlength.symm)
  rcases List.exists_cons_of_ne_nil hne with ⟨node, rest, rfl⟩
  have haddress : node.address ∈ s.nodes := by
    have hmem := hperm.mem_iff.mp List.mem_cons_self
    rcases List.mem_map.mp hmem with ⟨registered, hregistered, rfl⟩
    exact htidy.reachable registered hregistered
  have hfirst : (f (.ok (node :: rest))).Ensures (RoomyStep env) post s₁ := by
    rw [hf]
    intro connected s₂ hconnected
    have haddress₁ : node.address ∈ s₁.nodes := by
      rw [hsame₁.nodes]
      exact haddress
    rcases connect_answered haddress₁ hconnected.1 with ⟨rfl, rfl⟩
    have hsecond : (g node (.ok ())).Ensures (RoomyStep env) post s₂ := by
      rw [hg]
      intro sized s₃ hsized
      rcases getChunkSize_answered haddress₁ hsized.1 with ⟨rfl, hsame₃⟩
      exact hk _ _ (Represents.same ⟨pieces, htidy, hcontents⟩ (hsame₁.trans hsame₃))
    exact hsecond
  exact hfirst

/-- What an upload makes of the store, and what it responds. -/
theorem upload_stores (upload : Upload) (lib : Library)
    (hvalid : ApiGateway.validateObjectName lib name = .ok ()) {body : Bytes}
    (hbody : upload.body lib = some body) (hsize : body.length ≤ MAX_OBJECT_SIZE)
    (h : Represents lib.crc32 s base) :
    (upload.handler lib name).Ensures (RoomyStep env) (Stores lib.crc32 name body base) s := by
  cases upload with
  | json payload =>
      change (ApiGateway.handlePutObject lib name payload).Ensures _ _ _
      unfold Upload.body at hbody
      dsimp only at hbody
      split at hbody
      · cases hbody
      · rename_i decoded hdecoded
        cases hbody
        unfold ApiGateway.handlePutObject
        rw [hvalid, hdecoded]
        dsimp only
        rw [if_neg (by omega)]
        refine preamble_stores (fun _ _ => rfl) (fun _ => rfl) h fun size s₁ h₁ => ?_
        exact storeObject_stores lib body size h₁
  | multipart fields =>
      change (ApiGateway.handlePutObjectMultipart lib name fields).Ensures _ _ _
      unfold ApiGateway.handlePutObjectMultipart
      rw [hvalid]
      refine preamble_stores (fun _ _ => rfl) (fun _ => rfl) h fun size s₁ h₁ => ?_
      exact streamObject_stores lib size hbody hsize h₁

end System
end ObjectStore
