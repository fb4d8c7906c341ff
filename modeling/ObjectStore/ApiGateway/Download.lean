import ObjectStore.ApiGateway.Handlers
import ObjectStore.Deployment.Effect
import ObjectStore.StorageMetadata.Lookup

/-!
# API gateway - Downloads

Both downloads look the object up and then read its chunks, one from any of its storage
nodes.  What they deliver depends on the data that the storage nodes hold while they read,
and on nothing else that others do meanwhile.

Main results:

- Theorem `Download.handler_eq`: the two handlers in one shape.
- Theorem `Download.read_ensures`: what a download delivers.
- Theorem `StoredObject.download_ensures`: the same for a stored object that others leave
  alone.
- Theorem `Download.delivers_inj`: a response stands for one content.
- Theorem `collect_reports`: the data of all chunks is the data of each of them.
-/

namespace ObjectStore
namespace ApiGateway

open Deployment (Call Services SameServices Environment Faults Step)
open StorageMetadata.Proto (MetaStorageNode MetaChunk)

/-! ## The two downloads -/

/-- The two ways to fetch an object. -/
inductive Download where
  | json
  | stream

namespace Download

/-- What a download answers: the whole payload, or a stream of chunks. -/
def Response : Download → Type
  | json => HttpResult GetObjectResponsePayload
  | stream => HttpResult StreamBody

/-- The handler of the download. -/
def handler (lib : Library) (objectName : String) :
    (download : Download) → Deployment.Program download.Response
  | json => handleGetObject lib objectName
  | stream => handleGetObjectStream lib objectName

/-- The handlers from the lookup on. -/
def read (lib : Library) (chunks : List MetaChunk) :
    (download : Download) → Deployment.Program download.Response
  | json => do
      let results ← Deployment.Program.joinAll (chunks.map readTask)
      match collect results with
      | .error error => pure (.error error)
      | .ok chunkData => pure (.ok ⟨lib.encode chunkData⟩)
  | stream => do
      let body ← streamChunks chunks
      pure (.ok body)

/-- A response that carries an error. -/
def failure (error : StatusCode × String) : (download : Download) → download.Response
  | json => (.error error : HttpResult GetObjectResponsePayload)
  | stream => (.error error : HttpResult StreamBody)

/-- The client has received a whole body. -/
def Succeeds : (download : Download) → download.Response → Prop
  | json, response => ∃ payload, response = .ok payload
  | stream, response => ∃ body, response = .ok body ∧ body.error = none

/-- The client has received `bytes`. -/
def Delivers (lib : Library) (bytes : Bytes) : (download : Download) → download.Response → Prop
  | json, response => response = .ok ⟨lib.encode bytes⟩
  | stream, response => ∃ body, response = .ok body ∧ body.error = none ∧
      body.yields.flatten = bytes

variable {lib : Library} {name : String} {bytes bytes' : Bytes} {download : Download}

theorem not_succeeds_failure (error : StatusCode × String) :
    ¬ download.Succeeds (failure error download) := by
  cases download with
  | json =>
      rintro ⟨payload, hpayload⟩
      cases hpayload
  | stream =>
      rintro ⟨body, hbody, _⟩
      cases hbody

/-- A response stands for one content. -/
theorem delivers_inj (hlib : lib.Lawful) {response : download.Response}
    (h : download.Delivers lib bytes response) (h' : download.Delivers lib bytes' response) :
    bytes = bytes' := by
  cases download with
  | json =>
      have hencoded : lib.encode bytes = lib.encode bytes' := by
        injection h.symm.trans h' with hpayload
        injection hpayload
      have hdecoded := hlib.decode_encode bytes
      rw [hencoded, hlib.decode_encode bytes'] at hdecoded
      cases hdecoded
      rfl
  | stream =>
      rcases h with ⟨body, hbody, _, hyields⟩
      rcases h' with ⟨body', hbody', _, hyields'⟩
      cases hbody.symm.trans hbody'
      exact hyields.symm.trans hyields'

/-- Both handlers validate the name, look the object up, and read. -/
theorem handler_eq (lib : Library) (name : String) (download : Download) :
    download.handler lib name =
      match validateObjectName lib name with
      | .error msg => pure (failure (.badRequest, msg) download)
      | .ok () => (do
          match ← getObject name with
          | .error err =>
              pure (failure
                (.notFound, s!"could not get object {name}: " ++ lib.display err) download)
          | .ok response => read lib response.chunks download) := by
  cases download with
  | json => rfl
  | stream => rfl

end Download

/-! ## Reading a chunk -/

/-- What others may do during a download: at least what a download does itself. -/
structure ReadRely (rely : Services → Services → Prop) : Prop where
  trans : ∀ s s' s'', rely s s' → rely s' s'' → rely s s''
  reads : ∀ s s', SameServices s s' → rely s s'

theorem ReadRely.refl {rely : Services → Services → Prop} (h : ReadRely rely) (s : Services) :
    rely s s :=
  h.reads s s (.refl s)

variable {env : Environment} {faults : Faults} {rely : Services → Services → Prop}

/-- The storage node at `address` holds `id` in every state that others lead to. -/
def StaysAt (rely : Services → Services → Prop) (s : Services) (address : String) (id : UInt64) :
    Prop :=
  ∀ s', rely s s' → (s'.dataAt address id).isSome

/-- Whatever is read of `id` at `address` in a state that others lead to is `good`. -/
def ReadsAt (rely : Services → Services → Prop) (s : Services) (good : Bytes → Prop)
    (address : String) (id : UInt64) : Prop :=
  ∀ s', rely s s' → ∀ bytes, s'.dataAt address id = some bytes → good bytes

/-- Without faults, the pool connects to a node that stays where it is. -/
theorem getOrConnect_connects (hrely : ReadRely rely) (hfaults : faults ≠ .any) (address : String)
    (id : UInt64) {s : Services} :
    (getOrConnect address).EnsuresUnder (Step env faults) rely
      (fun result _ => faults = .none → StaysAt rely s address id → result = .ok ()) s := by
  intro s₁ hs₁ cached s₂ hcached
  have hsame := hcached.reads trivial
  refine ⟨hrely.reads _ _ hsame, ?_⟩
  change Bool at cached
  cases cached with
  | true => exact fun _ _ _ _ => rfl
  | false =>
      intro s₃ hs₃ connected s₄ hconnected
      have hs₄ := hrely.reads _ _ (hconnected.reads trivial)
      refine ⟨hs₄, ?_⟩
      change Except String Unit at connected
      cases connected with
      | ok value => exact fun _ _ _ _ => rfl
      | error err =>
          intro _ _ hnone hstays
          exfalso
          have hs₂ := hrely.trans _ _ _ hs₁ (hrely.reads _ _ hsame)
          have hdata := hstays s₃ (hrely.trans _ _ _ hs₂ hs₃)
          have hmem : address ∈ s₃.nodes := by
            rcases Option.isSome_iff_exists.mp hdata with ⟨bytes, hbytes⟩
            rcases Services.dataAt_eq_some_iff.mp hbytes with ⟨node, hnode, _⟩
            exact HashMap.mem_iff_exists_getElem?.mpr ⟨node, hnode⟩
          cases hconnected with
          | served _ hserve =>
              simp only [Services.serve, hmem, if_true] at hserve
              split at hserve <;> cases hserve
          | failed hfails _ => exact hfails hnone
          | lost hany _ _ => exact hfaults hany

/-- A read gives good data, and without faults it gives some. -/
theorem retryRead_ensures (hrely : ReadRely rely) (hfaults : faults ≠ .any) (address : String)
    (id : UInt64) (good : Bytes → Prop) (retries : Nat) {s : Services} :
    (retryWithBackoff (Deployment.Program.storageNode address (.readChunk id))
      retries).EnsuresUnder (Step env faults) rely
        (fun result _ => (ReadsAt rely s good address id →
            ∀ resp, result = .ok resp → good resp.chunkBytes) ∧
          (faults = .none → StaysAt rely s address id → ∃ resp, result = .ok resp)) s := by
  have hread : ∀ {s s₁ s₂ : Services}
      {reply : Except Status StorageNode.ReadChunkResponse}, rely s s₁ →
      Step env faults s₁ (.storageNode address (.readChunk id)) reply s₂ → rely s s₂ ∧
        (ReadsAt rely s good address id → ∀ resp, reply = .ok resp → good resp.chunkBytes) ∧
          (faults = .none → StaysAt rely s address id → ∃ resp, reply = .ok resp) := by
    intro s s₁ s₂ reply hs₁ hstep
    refine ⟨hrely.trans _ _ _ hs₁ (hrely.reads _ _ (hstep.reads trivial)), ?_, ?_⟩
    · rintro hgood resp rfl
      rcases hstep.storageNode_effect hfaults with ⟨_, _, heffect⟩
      generalize s₂.nodes = nodes at heffect
      cases heffect with
      | @readChunk node _ bytes hnode hid =>
          exact hgood s₁ hs₁ bytes (Services.dataAt_eq_some_iff.mpr ⟨node, hnode, hid⟩)
    · intro hnone hstays
      rcases Option.isSome_iff_exists.mp (hstays s₁ hs₁) with ⟨bytes, hbytes⟩
      rcases Services.dataAt_eq_some_iff.mp hbytes with ⟨node, hnode, hid⟩
      cases hstep with
      | served _ hserve =>
          simp only [Services.serve, hnode, StorageNode.BoundedMap.handle, hid] at hserve
          cases hserve
          exact ⟨_, rfl⟩
      | failed hfails _ => exact absurd hnone hfails
      | lost hany _ _ => exact absurd hany hfaults
  induction retries generalizing s with
  | zero =>
      intro s₁ hs₁ reply s₂ hstep
      rcases hread (hrely.refl s₁) hstep with ⟨hself, _⟩
      rcases hread hs₁ hstep with ⟨_, hresult⟩
      exact ⟨hself, fun _ _ => hresult⟩
  | succ retries ih =>
      intro s₁ hs₁ reply s₂ hstep
      rcases hread (hrely.refl s₁) hstep with ⟨hself, _⟩
      rcases hread hs₁ hstep with ⟨hs₂, hresult⟩
      refine ⟨hself, ?_⟩
      change Except Status StorageNode.ReadChunkResponse at reply
      cases reply with
      | ok resp => exact fun _ _ => hresult
      | error status =>
          refine (@ih s₂).mono fun result _ hrest => ⟨fun hgood => ?_, fun hnone hstays => ?_⟩
          · exact hrest.1 fun s' hs' => hgood s' (hrely.trans _ _ _ hs₂ hs')
          · exact hrest.2 hnone fun s' hs' => hstays s' (hrely.trans _ _ _ hs₂ hs')

/-- What `readChunk` returns has been read at one of the nodes, and it returns something when
one of them still holds the chunk. -/
theorem readChunk_ensures (hrely : ReadRely rely) (hfaults : faults ≠ .any) (id : UInt64)
    (good : Bytes → Prop) (nodes : List MetaStorageNode) {s : Services} :
    (readChunk id nodes).EnsuresUnder (Step env faults) rely
      (fun value _ => ((∀ node ∈ nodes, ReadsAt rely s good node.address id) →
          ∀ bytes, value = some bytes → good bytes) ∧
        (faults = .none → (∃ node ∈ nodes, StaysAt rely s node.address id) →
          ∃ bytes, value = some bytes)) s := by
  induction nodes generalizing s with
  | nil => exact fun _ _ => ⟨fun _ _ => nofun, fun _ hexists => by simp at hexists⟩
  | cons node nodes ih =>
      -- the first node failed; the rest is read in a later state
      have hrest : ∀ {s' : Services}, rely s s' →
          (faults = .none → ¬ StaysAt rely s node.address id) →
          (readChunk id nodes).EnsuresUnder (Step env faults) rely
            (fun value _ => ((∀ other ∈ node :: nodes, ReadsAt rely s good other.address id) →
                ∀ bytes, value = some bytes → good bytes) ∧
              (faults = .none → (∃ other ∈ node :: nodes, StaysAt rely s other.address id) →
                ∃ bytes, value = some bytes)) s' := by
        intro s' hs' hgone
        refine ih.mono fun value _ hvalue => ⟨fun hgood => ?_, fun hnone hstays => ?_⟩
        · refine hvalue.1 fun other hother t ht => ?_
          exact hgood other (List.mem_cons_of_mem _ hother) t (hrely.trans _ _ _ hs' ht)
        · rcases hstays with ⟨other, hother, hstays⟩
          rcases List.mem_cons.mp hother with rfl | hother
          · exact absurd hstays (hgone hnone)
          · exact hvalue.2 hnone
              ⟨other, hother, fun t ht => hstays t (hrely.trans _ _ _ hs' ht)⟩
      unfold readChunk
      refine .of_bind hrely.refl (((getOrConnect_connects hrely hfaults node.address id).related
        hrely.refl hrely.trans).mono fun result s₁ hresult => ?_)
      rcases hresult with ⟨hs₁, hconnects⟩
      split
      · refine hrest hs₁ fun hnone hstays => ?_
        cases hconnects hnone hstays
      · refine .of_bind hrely.refl
          (((retryRead_ensures hrely hfaults node.address id good 2).related
          hrely.refl hrely.trans).mono fun result s₂ hresult => ?_)
        rcases hresult with ⟨hs₂, hread, hsucceeds⟩
        have hs₂ := hrely.trans _ _ _ hs₁ hs₂
        split
        · rename_i resp
          refine fun _ _ => ⟨fun hgood bytes hbytes => ?_, fun _ _ => ⟨_, rfl⟩⟩
          cases hbytes
          refine hread (fun t ht => ?_) resp rfl
          exact hgood node List.mem_cons_self t (hrely.trans _ _ _ hs₁ ht)
        · refine hrest hs₂ fun hnone hstays => ?_
          rcases hsucceeds hnone fun t ht => hstays t (hrely.trans _ _ _ hs₁ ht) with ⟨resp, hresp⟩
          cases hresp

/-- A good content for every chunk of a list. -/
abbrev Contents (good : UInt64 → Bytes → Prop) (chunks : List MetaChunk) (pieces : List Bytes) :
    Prop :=
  List.Forall₂ (fun chunk bytes => good chunk.id bytes) chunks pieces

/-- The task of a chunk gives good data if every replica holds such, and fails if none can
be read. -/
theorem readTask_ensures (hrely : ReadRely rely) (hfaults : faults ≠ .any) (good : Bytes → Prop)
    (chunk : MetaChunk) {s : Services} :
    (readTask chunk).EnsuresUnder (Step env faults) rely
      (fun value _ =>
        ((∀ node ∈ chunk.storageNodes, ReadsAt rely s good node.address chunk.id) →
          ∀ bytes, value = .ok bytes → good bytes) ∧
        (faults = .none → (∃ node ∈ chunk.storageNodes, StaysAt rely s node.address chunk.id) →
          ∃ bytes, value = .ok bytes)) s := by
  unfold readTask
  refine .of_bind hrely.refl
    ((readChunk_ensures hrely hfaults _ good _).mono fun value s' hvalue => ?_)
  split
  · rename_i bytes
    refine fun _ _ => ⟨fun hgood other hother => ?_, fun _ _ => ⟨_, rfl⟩⟩
    cases hother
    exact hvalue.1 hgood bytes rfl
  · refine fun _ _ => ⟨fun _ _ => nofun, fun hnone hstays => ?_⟩
    rcases hvalue.2 hnone hstays with ⟨bytes, hbytes⟩
    cases hbytes

/-- Joined results are the pieces in order. -/
theorem collect_ok {results : List (HttpResult Bytes)} {chunkData : Bytes}
    (h : collect results = .ok chunkData) :
    ∃ pieces : List Bytes, results = pieces.map .ok ∧ chunkData = pieces.flatten := by
  induction results generalizing chunkData with
  | nil =>
      cases h
      exact ⟨[], rfl, rfl⟩
  | cons result results ih =>
      cases result with
      | error error => cases h
      | ok bytes =>
          unfold collect at h
          split at h
          · cases h
          · rename_i rest hrest
            cases h
            rcases ih hrest with ⟨pieces, hpieces, hflatten⟩
            exact ⟨bytes :: pieces, by rw [hpieces]; rfl, by rw [hflatten]; rfl⟩

/-- Pieces that have all been read are put together. -/
theorem collect_map_ok (pieces : List Bytes) :
    collect (pieces.map .ok) = .ok pieces.flatten := by
  induction pieces with
  | nil => rfl
  | cons bytes pieces ih =>
      change (match collect (pieces.map .ok) with
        | .error error => (.error error : HttpResult Bytes)
        | .ok chunkData => .ok (bytes ++ chunkData)) = _
      rw [ih]
      rfl

/-! ## Replies that report an outcome -/

/-- The reply is the outcome, or an error when there is none. -/
def Reports {ε α : Type} (outcome : Option α) : Except ε α → Prop
  | .ok value => outcome = some value
  | .error _ => outcome = none

@[simp]
theorem reports_ok_iff {ε α : Type} {outcome : Option α} {value : α} :
    Reports outcome (.ok value : Except ε α) ↔ outcome = some value := Iff.rfl

@[simp]
theorem reports_error_iff {ε α : Type} {outcome : Option α} {error : ε} :
    Reports outcome (.error error : Except ε α) ↔ outcome = none := Iff.rfl

/-- A list of outcomes is complete when each of them is there. -/
theorem mapM_eq_some_iff {ι α : Type} {outcome : ι → Option α} {items : List ι}
    {values : List α} : items.mapM outcome = some values ↔
      List.Forall₂ (fun item value => outcome item = some value) items values := by
  induction items generalizing values with
  | nil => cases values <;> simp
  | cons item items ih =>
      rw [List.mapM_cons]
      cases houtcome : outcome item with
      | none => cases values <;> simp [houtcome]
      | some value =>
          cases hrest : items.mapM outcome with
          | none => cases values <;> simp [houtcome, ← ih, hrest]
          | some rest => cases values <;> simp [houtcome, ← ih, hrest]

theorem mapM_isSome_iff {ι α : Type} {outcome : ι → Option α} {items : List ι} :
    (items.mapM outcome).isSome ↔ ∀ item ∈ items, (outcome item).isSome := by
  induction items with
  | nil => simp
  | cons item items ih =>
      rw [List.mapM_cons, List.forall_mem_cons, ← ih]
      cases outcome item with
      | none => simp
      | some value => cases hrest : items.mapM outcome <;> simp

/-- What is collected is there when everything is. -/
theorem collect_reports {ι : Type} {outcome : ι → Option Bytes} {items : List ι}
    {results : List (HttpResult Bytes)}
    (h : List.Forall₂ (fun item result => Reports (outcome item) result) items results) :
    Reports ((items.mapM outcome).map List.flatten) (collect results) := by
  induction h with
  | nil => rfl
  | @cons item result items results hresult _ ih =>
      rw [List.mapM_cons]
      cases result with
      | error error =>
          rw [reports_error_iff.mp hresult]
          rfl
      | ok bytes =>
          rw [reports_ok_iff.mp hresult]
          unfold collect
          cases hrest : collect results with
          | error error =>
              rw [hrest] at ih
              have hnone := Option.map_eq_none_iff.mp ih
              rw [hnone]
              rfl
          | ok chunkData =>
              rw [hrest] at ih
              rcases Option.map_eq_some_iff.mp ih with ⟨pieces, hpieces, rfl⟩
              rw [hpieces]
              rfl

/-! ## Reading an object -/

namespace Download

/-- Joined results that have all been read hold good data. -/
theorem joined_ok {good : UInt64 → Bytes → Prop} {chunks : List MetaChunk}
    {results : List (HttpResult Bytes)}
    (h : List.Forall₂ (fun chunk result => ∀ bytes, result = .ok bytes → good chunk.id bytes)
      chunks results) {pieces : List Bytes} (hpieces : results = pieces.map .ok) :
    Contents good chunks pieces := by
  subst hpieces
  rw [List.forall₂_map_right_iff] at h
  exact h.imp fun _ _ hgood => hgood _ rfl

/-- Results that are all there are a list of pieces. -/
theorem all_ok {chunks : List MetaChunk} {results : List (HttpResult Bytes)}
    (h : List.Forall₂ (fun _ result => ∃ bytes, result = .ok bytes) chunks results) :
    ∃ pieces : List Bytes, results = pieces.map .ok := by
  induction h with
  | nil => exact ⟨[], rfl⟩
  | cons hresult _ ih =>
      rcases hresult with ⟨bytes, rfl⟩
      rcases ih with ⟨pieces, rfl⟩
      exact ⟨bytes :: pieces, rfl⟩

/-- A stream yields good data, and without faults all of it. -/
theorem streamChunks_ensures (hrely : ReadRely rely) (hfaults : faults ≠ .any)
    (good : UInt64 → Bytes → Prop) (chunks : List MetaChunk) {s : Services} :
    (streamChunks chunks).EnsuresUnder (Step env faults) rely
      (fun body _ =>
        ((∀ chunk ∈ chunks, ∀ node ∈ chunk.storageNodes,
            ReadsAt rely s (good chunk.id) node.address chunk.id) →
          body.error = none → Contents good chunks body.yields) ∧
        (faults = .none → (∀ chunk ∈ chunks, ∃ node ∈ chunk.storageNodes,
            StaysAt rely s node.address chunk.id) → body.error = none)) s := by
  induction chunks generalizing s with
  | nil => exact fun _ _ => ⟨fun _ _ => .nil, fun _ _ => rfl⟩
  | cons chunk chunks ih =>
      unfold streamChunks
      refine .of_bind hrely.refl (((readChunk_ensures hrely hfaults chunk.id (good chunk.id)
        chunk.storageNodes).related hrely.refl hrely.trans).mono fun value s₁ hvalue => ?_)
      rcases hvalue with ⟨hs₁, hgood, hsome⟩
      split
      · refine fun _ _ => ⟨fun _ => nofun, fun hnone hstays => ?_⟩
        rcases hsome hnone (hstays chunk List.mem_cons_self) with ⟨bytes, hbytes⟩
        cases hbytes
      · rename_i bytes
        refine .of_bind hrely.refl ((@ih s₁).mono fun body s₂ hbody => ?_)
        refine fun _ _ => ⟨fun hreads herror => ?_, fun hnone hstays => ?_⟩
        · refine .cons (hgood (hreads chunk List.mem_cons_self) bytes rfl) (hbody.1 ?_ herror)
          intro other hother node hnode t ht
          exact hreads other (List.mem_cons_of_mem _ hother) node hnode t (hrely.trans _ _ _ hs₁ ht)
        · refine hbody.2 hnone fun other hother => ?_
          rcases hstays other (List.mem_cons_of_mem _ hother) with ⟨node, hnode, hnode'⟩
          exact ⟨node, hnode, fun t ht => hnode' t (hrely.trans _ _ _ hs₁ ht)⟩

/-- What a download delivers: for each chunk, something that was read of it at one of its
nodes.  When nothing fails it succeeds if each chunk stays at one of its nodes. -/
theorem read_ensures (lib : Library) (hrely : ReadRely rely) (hfaults : faults ≠ .any)
    (good : UInt64 → Bytes → Prop) (chunks : List MetaChunk) (download : Download)
    {s : Services} :
    (read lib chunks download).EnsuresUnder (Step env faults) rely
      (fun response _ =>
        ((∀ chunk ∈ chunks, ∀ node ∈ chunk.storageNodes,
            ReadsAt rely s (good chunk.id) node.address chunk.id) →
          download.Succeeds response → ∃ pieces, Contents good chunks pieces ∧
            download.Delivers lib pieces.flatten response) ∧
        (faults = .none → (∀ chunk ∈ chunks, ∃ node ∈ chunk.storageNodes,
            StaysAt rely s node.address chunk.id) → download.Succeeds response)) s := by
  cases download with
  | json =>
      have hturn : ∀ s reply s', Step env faults s .turn reply s' → rely s s' :=
        fun s reply s' hstep => hrely.reads s s' (hstep.reads trivial)
      refine .of_bind hrely.refl ((Library.Program.EnsuresUnder.joinAll hrely.refl hrely.trans
        hturn fun chunk _ => readTask_ensures hrely hfaults (good chunk.id) chunk).mono
          fun results s₁ hresults => ?_)
      split
      · rename_i error herror
        refine fun _ _ => ⟨?_, fun hnone hstays => ?_⟩
        · rintro _ ⟨payload, hpayload⟩
          cases hpayload
        · exfalso
          have hall := (List.forall₂_and_left chunks results).mpr ⟨hstays, hresults⟩
          have hok := hall.imp fun _ _ hresult => hresult.2.2 hnone hresult.1
          rcases all_ok hok with ⟨pieces, rfl⟩
          rw [collect_map_ok] at herror
          cases herror
      · rename_i chunkData hchunkData
        rcases collect_ok hchunkData with ⟨pieces, hpieces, rfl⟩
        refine fun _ _ => ⟨fun hreads _ => ⟨pieces, ?_, rfl⟩, fun _ _ => ⟨_, rfl⟩⟩
        have hall := (List.forall₂_and_left chunks results).mpr ⟨hreads, hresults⟩
        exact joined_ok (hall.imp fun _ _ hresult => hresult.2.1 hresult.1) hpieces
  | stream =>
      refine .of_bind hrely.refl ((streamChunks_ensures hrely hfaults good chunks).mono
        fun body s₁ hbody => ?_)
      refine fun _ _ => ⟨?_, fun hnone hstays => ⟨body, rfl, hbody.2 hnone hstays⟩⟩
      rintro hreads ⟨found, hfound, herror⟩
      cases hfound
      exact ⟨body.yields, hbody.1 hreads herror, body, rfl, herror, rfl⟩

end Download

/-! ## Downloads run to their end -/

/-- The calls that read a chunk. -/
def Probes : Call → Prop
  | .storageNode _ call =>
      match call with
      | .readChunk _ => True
      | _ => False
  | .cachedConnection _ | .connectCached _ => True
  | .metadata _ | .connect _ | .choose _ | .turn => False

/-- The calls of a download. -/
def Looks : Call → Prop
  | .metadata call =>
      match call with
      | .lookupObject _ | .resolveObject _ => True
      | _ => False
  | .storageNode _ call =>
      match call with
      | .readChunk _ => True
      | _ => False
  | .cachedConnection _ | .connectCached _ | .turn => True
  | .connect _ | .choose _ => False

theorem Probes.looks {call : Call} (h : Probes call) : Looks call := by
  cases call with
  | storageNode address call => cases call <;> exact h
  | cachedConnection _ | connectCached _ => trivial
  | _ => exact h.elim

theorem getOrConnect_probes (address : String) : (getOrConnect address).Only Probes := by
  refine ⟨trivial, fun cached => ?_⟩
  change Bool at cached
  cases cached with
  | true => trivial
  | false =>
      refine ⟨trivial, fun connected => ?_⟩
      change Except String Unit at connected
      cases connected <;> trivial

theorem retryRead_probes (address : String) (id : UInt64) (retries : Nat) :
    (retryWithBackoff (Deployment.Program.storageNode address (.readChunk id)) retries).Only
      Probes := by
  induction retries with
  | zero => exact ⟨trivial, fun _ => trivial⟩
  | succ retries ih =>
      refine ⟨trivial, fun reply => ?_⟩
      change Except Status StorageNode.ReadChunkResponse at reply
      cases reply with
      | ok resp => trivial
      | error status => exact ih

/-- Reading a chunk only connects and reads. -/
theorem readChunk_probes (id : UInt64) (nodes : List MetaStorageNode) :
    (readChunk id nodes).Only Probes := by
  induction nodes with
  | nil => trivial
  | cons node nodes ih =>
      unfold readChunk
      refine (getOrConnect_probes node.address).of_bind fun connected => ?_
      split
      · exact ih
      · refine (retryRead_probes node.address id 2).of_bind fun result => ?_
        split
        · trivial
        · exact ih

theorem readTask_probes (chunk : MetaChunk) : (readTask chunk).Only Probes := by
  refine (readChunk_probes _ _).of_bind fun value => ?_
  split <;> trivial

theorem getObject_looks (name : String) : (getObject name).Only Looks := by
  refine ⟨trivial, fun found => ?_⟩
  change Except Status StorageMetadata.MetaObject at found
  cases found with
  | error status => trivial
  | ok object => exact ⟨trivial, fun _ => trivial⟩

theorem streamChunks_looks (chunks : List MetaChunk) : (streamChunks chunks).Only Looks := by
  induction chunks with
  | nil => trivial
  | cons chunk chunks ih =>
      unfold streamChunks
      refine ((readChunk_probes _ _).mono fun _ hcall => hcall.looks).of_bind fun value => ?_
      split
      · trivial
      · exact ih.of_bind fun _ => trivial

theorem Download.read_looks (lib : Library) (chunks : List MetaChunk) (download : Download) :
    (download.read lib chunks).Only Looks := by
  cases download with
  | json =>
      have hjoined : (Deployment.Program.joinAll (chunks.map readTask)).Only Looks := by
        refine Library.Program.Only.joinAll trivial fun program hprogram => ?_
        rcases List.mem_map.mp hprogram with ⟨chunk, _, rfl⟩
        exact (readTask_probes chunk).mono fun _ hcall => hcall.looks
      refine hjoined.of_bind fun results => ?_
      split <;> trivial
  | stream => exact (streamChunks_looks chunks).of_bind fun _ => trivial

/-- A download changes nothing. -/
theorem Download.handler_looks (lib : Library) (name : String) (download : Download) :
    (download.handler lib name).Only Looks := by
  rw [handler_eq]
  split
  · trivial
  · refine (getObject_looks name).of_bind fun found => ?_
    cases found with
    | error status => trivial
    | ok response => exact read_looks lib _ download

/-- A service that works answers every call of a download. -/
theorem Looks.answered {call : Call} (h : Looks call) (s : Services) :
    ∃ reply s', Step env .none s call reply s' := by
  have hserved : ∃ result, s.serve env .plain call = some result := by
    cases call with
    | metadata call =>
        cases call with
        | lookupObject _ | resolveObject _ => exact ⟨_, rfl⟩
        | _ => exact h.elim
    | storageNode address call =>
        unfold Services.serve
        dsimp only
        split <;> exact ⟨_, rfl⟩
    | cachedConnection _ | turn => exact ⟨_, rfl⟩
    | connectCached address =>
        unfold Services.serve
        dsimp only
        split
        · exact ⟨_, rfl⟩
        · split <;> exact ⟨_, rfl⟩
    | connect _ | choose _ => exact h.elim
  rcases hserved with ⟨⟨reply, s'⟩, hserve⟩
  exact ⟨reply, s', .served (.inl rfl) hserve⟩

/-! ## Downloads of a stored object -/

/-- A registered storage node that the record of `id` names. -/
def Replica (s : Services) (id : UInt64) (address : String) : Prop :=
  ∃ chunk, s.metadata.metadataStore.chunks[id]? = some chunk ∧
    ∃ node ∈ s.metadata.metadataStore.registeredStorageNodes chunk.storageNodes,
      node.address = address

/-- Some replica of the chunk still holds its data. -/
def Live (s : Services) (id : UInt64) : Prop :=
  ∃ address, Replica s id address ∧ (s.dataAt address id).isSome

/-- The object is stored, and what the replicas hold of its chunks are its `pieces`. -/
structure StoredObject (s : Services) (name : String) (object : StorageMetadata.MetaObject)
    (pieces : UInt64 → Bytes) : Prop where
  stored : s.metadata.metadataStore.objects[name]? = some object
  nodup : object.chunks.Nodup
  recorded : ∀ id ∈ object.chunks, ∃ chunk, s.metadata.metadataStore.chunks[id]? = some chunk ∧
    chunk.id = id ∧ chunk.objectName = name
  data : ∀ id ∈ object.chunks, ∀ address, Replica s id address →
    ∀ bytes, s.dataAt address id = some bytes → bytes = pieces id
  nonempty : ∀ id ∈ object.chunks, pieces id ≠ []

/-- The content of an object. -/
def content (object : StorageMetadata.MetaObject) (pieces : UInt64 → Bytes) : Bytes :=
  (object.chunks.map pieces).flatten

/-- Others leave the object and everything of the chunks `ids` alone. -/
structure Untouched (name : String) (ids : List UInt64) (s s' : Services) : Prop where
  object : s'.metadata.metadataStore.objects[name]? = s.metadata.metadataStore.objects[name]?
  chunks : ∀ id ∈ ids,
    s'.metadata.metadataStore.chunks[id]? = s.metadata.metadataStore.chunks[id]?
  storageNodes : s'.metadata.metadataStore.storageNodes = s.metadata.metadataStore.storageNodes
  data : ∀ id ∈ ids, ∀ address, s'.dataAt address id = s.dataAt address id

variable {name : String} {ids : List UInt64}

theorem untouched_readRely (name : String) (ids : List UInt64) :
    ReadRely (Untouched name ids) where
  trans s s' s'' h h' :=
    { object := h'.object.trans h.object
      chunks := fun id hid => (h'.chunks id hid).trans (h.chunks id hid)
      storageNodes := h'.storageNodes.trans h.storageNodes
      data := fun id hid address => (h'.data id hid address).trans (h.data id hid address) }
  reads s s' h :=
    { object := by rw [h.memory.objects]
      chunks := fun id _ => by rw [h.memory.chunks]
      storageNodes := h.memory.storageNodes
      data := fun id _ address => h.dataAt address id }

theorem Untouched.anti {ids' : List UInt64} (hids : ∀ id ∈ ids', id ∈ ids) {s s' : Services}
    (h : Untouched name ids s s') : Untouched name ids' s s' where
  object := h.object
  chunks id hid := h.chunks id (hids id hid)
  storageNodes := h.storageNodes
  data id hid := h.data id (hids id hid)

/-- Chunks that others leave alone keep their replicas. -/
theorem Untouched.replica_iff {s s' : Services} (h : Untouched name ids s s') {id : UInt64}
    (hid : id ∈ ids) {address : String} : Replica s' id address ↔ Replica s id address := by
  simp only [Replica, h.chunks id hid, StorageMetadata.MetadataStore.registeredStorageNodes,
    h.storageNodes]

/-- Chunks that others leave alone stay live. -/
theorem Untouched.live_iff {s s' : Services} (h : Untouched name ids s s') {id : UInt64}
    (hid : id ∈ ids) : Live s' id ↔ Live s id := by
  simp only [Live, h.replica_iff hid, h.data id hid]

/-- Chunks that others leave alone can be resolved as before. -/
theorem Untouched.resolvable_iff {s s' : Services} (h : Untouched name ids s s')
    {ids' : List UInt64} (hids : ∀ id ∈ ids', id ∈ ids) :
    StorageMetadata.Resolvable s'.metadata.metadataStore ids' ↔
      StorageMetadata.Resolvable s.metadata.metadataStore ids' := by
  refine forall₂_congr fun id hid => ?_
  rw [h.chunks id (hids id hid), h.storageNodes]

/-- An object that others leave alone stays stored. -/
theorem StoredObject.untouched {s s' : Services} {object : StorageMetadata.MetaObject}
    {pieces : UInt64 → Bytes} (h : StoredObject s name object pieces)
    (huntouched : Untouched name object.chunks s s') : StoredObject s' name object pieces where
  stored := huntouched.object.trans h.stored
  nodup := h.nodup
  recorded id hid := by
    rw [huntouched.chunks id hid]
    exact h.recorded id hid
  data id hid address haddress bytes hbytes := by
    rw [huntouched.data id hid] at hbytes
    exact h.data id hid address ((huntouched.replica_iff hid).mp haddress) bytes hbytes
  nonempty := h.nonempty

/-- What the client is told about the chunks of a resolvable object. -/
theorem response_chunks {s : Services} {object : StorageMetadata.MetaObject}
    {pieces : UInt64 → Bytes} (h : StoredObject s name object pieces) :
    (s.metadata.metadataStore.response object).chunks.map (·.id) = object.chunks ∧
      ∀ chunk ∈ (s.metadata.metadataStore.response object).chunks, chunk.id ∈ object.chunks ∧
        ∀ address, Replica s chunk.id address ↔
          ∃ node ∈ chunk.storageNodes, node.address = address := by
  have hall : ∀ ids : List UInt64, (∀ id ∈ ids, id ∈ object.chunks) →
      (ids.filterMap fun id => (s.metadata.metadataStore.chunks[id]?).map
        s.metadata.metadataStore.describe).map (·.id) = ids ∧
      ∀ chunk ∈ ids.filterMap fun id => (s.metadata.metadataStore.chunks[id]?).map
          s.metadata.metadataStore.describe, chunk.id ∈ object.chunks ∧
        ∀ address, Replica s chunk.id address ↔
          ∃ node ∈ chunk.storageNodes, node.address = address := by
    intro ids hids
    induction ids with
    | nil => simp
    | cons id ids ih =>
        rcases ih fun other hother => hids other (List.mem_cons_of_mem _ hother) with ⟨hmap, hmem⟩
        have hid := hids id List.mem_cons_self
        rcases h.recorded id hid with ⟨record, hrecord, hkey, _⟩
        simp only [List.filterMap_cons, hrecord, Option.map_some, List.map_cons, hmap]
        refine ⟨by rw [StorageMetadata.MetadataStore.describe, hkey], fun chunk hchunk => ?_⟩
        rcases List.mem_cons.mp hchunk with rfl | hchunk
        · have hdescribed : (s.metadata.metadataStore.describe record).id = id := hkey
          rw [hdescribed]
          refine ⟨hid, fun address => ?_⟩
          constructor
          · rintro ⟨found, hfound, hnode⟩
            cases hrecord.symm.trans hfound
            exact hnode
          · exact fun hnode => ⟨record, hrecord, hnode⟩
        · exact hmem chunk hchunk
  exact hall object.chunks fun _ hid => hid

/-- The data of the chunks, in the order in which the object lists them. -/
theorem contents_eq_map {object : StorageMetadata.MetaObject} {pieces : UInt64 → Bytes}
    {chunks : List MetaChunk} {found : List Bytes}
    (hids : chunks.map (·.id) = object.chunks)
    (h : Contents (fun id bytes => bytes = pieces id) chunks found) :
    found = object.chunks.map pieces := by
  rw [← hids]
  clear hids
  induction h with
  | nil => rfl
  | cons hbytes _ ih =>
      simp only [List.map_cons, List.map_map] at ih ⊢
      rw [hbytes, ih]

/-- Reading the chunks that a lookup has answered with. -/
theorem StoredObject.read_ensures {s : Services} {object : StorageMetadata.MetaObject}
    {pieces : UInt64 → Bytes} (h : StoredObject s name object pieces) (lib : Library)
    (hfaults : faults ≠ .any) (download : Download) :
    (download.read lib (s.metadata.metadataStore.response object).chunks).EnsuresUnder
      (Step env faults) (Untouched name object.chunks)
      (fun response _ =>
        (download.Succeeds response → download.Delivers lib (content object pieces) response ∧
          ∀ id ∈ object.chunks, Live s id) ∧
        (faults = .none → (∀ id ∈ object.chunks, Live s id) → download.Succeeds response)) s := by
  rcases response_chunks h with ⟨hids, hchunks⟩
  let good := fun (id : UInt64) (bytes : Bytes) => Live s id ∧ bytes = pieces id
  refine (Download.read_ensures lib (untouched_readRely name object.chunks) hfaults good _
    download).mono fun response _ hresponse => ⟨fun hsucceeds => ?_, fun hnone hlive => ?_⟩
  · have hreads : ∀ chunk ∈ (s.metadata.metadataStore.response object).chunks,
        ∀ node ∈ chunk.storageNodes, ReadsAt (Untouched name object.chunks) s (good chunk.id)
          node.address chunk.id := by
      intro chunk hchunk node hnode s' hs' bytes hbytes
      rcases hchunks chunk hchunk with ⟨hid, hreplica⟩
      have haddress := (hreplica node.address).mpr ⟨node, hnode, rfl⟩
      rw [hs'.data chunk.id hid] at hbytes
      exact ⟨⟨node.address, haddress, Option.isSome_iff_exists.mpr ⟨bytes, hbytes⟩⟩,
        h.data chunk.id hid node.address haddress bytes hbytes⟩
    rcases hresponse.1 hreads hsucceeds with ⟨found, hfound, hdelivers⟩
    rcases (List.forall₂_and_left _ _).mp hfound with ⟨hlive, hpieces⟩
    rw [contents_eq_map hids hpieces] at hdelivers
    refine ⟨hdelivers, fun id hid => ?_⟩
    rw [← hids] at hid
    rcases List.mem_map.mp hid with ⟨chunk, hchunk, rfl⟩
    exact hlive chunk hchunk
  · refine hresponse.2 hnone fun chunk hchunk => ?_
    rcases hchunks chunk hchunk with ⟨hid, hreplica⟩
    rcases hlive chunk.id hid with ⟨address, haddress, hsome⟩
    rcases (hreplica address).mp haddress with ⟨node, hnode, rfl⟩
    refine ⟨node, hnode, fun s' hs' => ?_⟩
    rw [hs'.data chunk.id hid]
    exact hsome

/-- A download of a stored object that succeeds delivers its content, and then every chunk is
live.  When nothing fails it succeeds if every chunk is live. -/
theorem StoredObject.download_ensures {s : Services} {object : StorageMetadata.MetaObject}
    {pieces : UInt64 → Bytes} (h : StoredObject s name object pieces) (lib : Library)
    (hfaults : faults ≠ .any) (download : Download) :
    (download.handler lib name).EnsuresUnder (Step env faults) (Untouched name object.chunks)
      (fun response _ =>
        (download.Succeeds response → download.Delivers lib (content object pieces) response ∧
          ∀ id ∈ object.chunks, Live s id) ∧
        (faults = .none → validateObjectName lib name = .ok () →
          StorageMetadata.Resolvable s.metadata.metadataStore object.chunks →
          (∀ id ∈ object.chunks, Live s id) → download.Succeeds response)) s := by
  have hrely := untouched_readRely name object.chunks
  rw [Download.handler_eq]
  split
  · rename_i hinvalid
    refine fun _ _ => ⟨fun hsucceeds => ?_, fun _ hvalid => ?_⟩
    · exact absurd hsucceeds (Download.not_succeeds_failure _)
    · cases hinvalid.symm.trans hvalid
  · intro s₁ hs₁ found s₂ hfound
    have hself := hrely.reads _ _ (hfound.reads trivial)
    have hs₂ := hrely.trans _ _ _ hs₁ hself
    refine ⟨hself, ?_⟩
    have hfound := hfound.lookupObject_reply hfaults
    rw [StorageMetadata.lookupObject_eq (h.untouched hs₁).stored] at hfound
    rcases hfound with rfl | ⟨hfails, status, rfl⟩
    · intro s₃ hs₃ resolved s₄ hresolved
      have hself := hrely.reads _ _ (hresolved.reads trivial)
      have hs₃ := hrely.trans _ _ _ hs₂ hs₃
      have hs₄ := hrely.trans _ _ _ hs₃ hself
      refine ⟨hself, ?_⟩
      rcases hresolved.resolveObject_reply hfaults with hreply | ⟨hfails, status, rfl⟩
      · have hstored := h.untouched hs₃
        cases hresolve : s₃.metadata.metadataStore.resolveObject object with
        | error status =>
            rw [hresolve] at hreply
            subst hreply
            refine fun _ _ => ⟨fun hsucceeds => ?_, fun _ _ hresolvable => ?_⟩
            · exact absurd hsucceeds (Download.not_succeeds_failure _)
            · have hok := StorageMetadata.resolveObject_eq_ok_iff.mpr
                ⟨(hs₃.resolvable_iff fun _ hid => hid).mpr hresolvable, rfl⟩
              cases hresolve.symm.trans hok
        | ok response =>
            rw [hresolve] at hreply
            subst hreply
            rw [(StorageMetadata.resolveObject_eq_ok_iff.mp hresolve).2]
            refine ((hstored.read_ensures lib hfaults download).of_rely hrely.trans hself).mono
              fun response _ hresponse => ⟨fun hsucceeds => ?_, ?_⟩
            · rcases hresponse.1 hsucceeds with ⟨hdelivers, hlive⟩
              exact ⟨hdelivers, fun id hid => (hs₃.live_iff hid).mp (hlive id hid)⟩
            · intro hnone _ _ hlive
              exact hresponse.2 hnone fun id hid => (hs₃.live_iff hid).mpr (hlive id hid)
      · refine fun _ _ => ⟨fun hsucceeds => ?_, fun hnone => absurd hnone hfails⟩
        exact absurd hsucceeds (Download.not_succeeds_failure _)
    · refine fun _ _ => ⟨fun hsucceeds => ?_, fun hnone => absurd hnone hfails⟩
      exact absurd hsucceeds (Download.not_succeeds_failure _)

/-- The same for one download alone, when others leave at least this object alone. -/
theorem StoredObject.download_amid {s : Services} {object : StorageMetadata.MetaObject}
    {pieces : UInt64 → Bytes} (h : StoredObject s name object pieces) (lib : Library)
    (hfaults : faults ≠ .any) (download : Download) (hids : ∀ id ∈ object.chunks, id ∈ ids) :
    (download.handler lib name).Ensures
      (ObjectStore.Library.Amid (Untouched name ids) (Step env faults))
      (fun response _ =>
        (download.Succeeds response → download.Delivers lib (content object pieces) response ∧
          ∀ id ∈ object.chunks, Live s id) ∧
        (faults = .none → validateObjectName lib name = .ok () →
          StorageMetadata.Resolvable s.metadata.metadataStore object.chunks →
          (∀ id ∈ object.chunks, Live s id) → download.Succeeds response)) s := by
  have hsteps : ∀ s call reply s', ObjectStore.Library.Amid (Untouched name ids)
      (Step env faults) s call reply s' → ObjectStore.Library.Amid (Untouched name object.chunks)
        (Step env faults) s call reply s' := fun _ _ _ _ hstep =>
    ObjectStore.Library.Amid.mono (fun _ _ huntouched => huntouched.anti hids)
      (fun _ _ _ _ hstep => hstep) hstep
  exact ((h.download_ensures lib hfaults download).amid (untouched_readRely name _).refl).anti
    hsteps

end ApiGateway
end ObjectStore
