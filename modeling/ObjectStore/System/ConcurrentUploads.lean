import ObjectStore.System.Sources
import ObjectStore.System.Store
import ObjectStore.System.Traffic

/-!
# System - Uploads at the same time

Any number of uploads, downloads, listings and replication cycles take turns, call by call.
When they are done, the uploads have been answered as if they had been made one after the
other, and the store is at rest with what they have stored.

Main definitions:

- `Leaves`: the hand with which a request ends.
- `Additive`: the activities that delete nothing.

Main results:

- Theorems `upload_obeys`, `cycle_obeys`: uploads and cycles keep to the protocol.
- Theorem `concurrent_uploads_serialize`: uploads have the effect of a serial run.
-/

namespace ObjectStore
namespace System

open ApiGateway (Download HttpResult Library MAX_OBJECT_SIZE Multipart PutObjectResponsePayload
  StatusCode Upload chunks findFile flushChunkToStorage flushFull flushRest getOrConnect
  handleListObjects oneNode plainEnvironment plainLibrary putChunks storeChunk streamField
  validateObjectName wholeField)
open Deployment (Environment Services)
open Library (Owned PoolStep Separate)
open Library.KeyValue (Event)
open ReplicationService (cleanUp copyChunk hasSpace readSource recordReplica replicateChunk
  replicateChunks runReplicationCycle writeTarget)
open StorageMetadata.Proto (AllocateChunkResponse MetaStorageNode UnderReplicatedChunk)

variable {env : Environment} {lib : Library} {base : String → Option Bytes} {hand : Hand}
  {name : String} {bytes chunk body : Bytes} {crc32 : Bytes → UInt32}

/-- Between two chunks, a hand holds nothing but its object, or knows that the name is taken. -/
structure Hand.Carries (hand : Hand) (object : Option (String × Bytes)) (refused : Option String) :
    Prop where
  object : hand.object = object
  refused : hand.refused = refused
  reserved : hand.reserved = none
  written : hand.written = none

/-! ## One chunk -/

theorem getOrConnect_obeys {node : MetaStorageNode} (hnode : node ∈ hand.nodes) :
    (getOrConnect node.address).Obeys (traffic env crc32 base)
      (fun result after => result = .ok () ∧ after = hand) hand := by
  refine ⟨_, .read trivial, ?_⟩
  rintro cached _ rfl
  change Bool at cached
  cases cached with
  | true => exact ⟨rfl, rfl⟩
  | false =>
      refine ⟨_, .connectCached hnode, ?_⟩
      rintro _ _ ⟨rfl, rfl⟩
      exact ⟨rfl, rfl⟩

/-- A chunk is written, and then confirmed for the object that the upload has created. -/
theorem storeChunk_obeys (h : hand.Carries (some (name, bytes)) none) (hchunk : chunk ≠ []) :
    (storeChunk lib name chunk).Obeys (traffic env lib.crc32 base)
      (fun result after => result = .ok () ∧ after.Carries (some (name, bytes ++ chunk)) none)
      hand := by
  refine ⟨_, .allocateChunk _ h.object h.reserved h.written, ?_⟩
  rintro _ allocated ⟨id, address, nodeId, rfl, hallocated⟩
  have hnode : (⟨nodeId, address⟩ : MetaStorageNode) ∈ allocated.nodes := by simp [hallocated]
  have hreserved : allocated.reserved = some (id, ⟨nodeId, address⟩) := by simp [hallocated]
  have hwritten : allocated.written = none := by simp [hallocated, h.written]
  have hobject : allocated.object = some (name, bytes) := by simp [hallocated, h.object]
  have hrefused : allocated.refused = none := by simp [hallocated, h.refused]
  change (getOrConnect (⟨nodeId, address⟩ : MetaStorageNode).address >>= _).Obeys _ _ _
  refine .of_bind ((getOrConnect_obeys hnode).mono ?_)
  rintro _ _ ⟨rfl, rfl⟩
  refine ⟨_, .writeChunk hreserved hwritten hchunk, ?_⟩
  rintro _ written ⟨⟨value, rfl⟩, hafter⟩
  have hobject' : written.object = some (name, bytes) := by simp [hafter, hobject]
  have hreserved' : written.reserved = some (id, ⟨nodeId, address⟩) := by simp [hafter, hreserved]
  have hwritten' : written.written = some ((address, id), chunk) := by simp [hafter]
  have hrefused' : written.refused = none := by simp [hafter, hrefused]
  refine ⟨_, .confirmChunk hobject' hreserved' hwritten', ?_⟩
  rintro _ _ ⟨rfl, rfl⟩
  exact ⟨rfl, rfl, hrefused', rfl, rfl⟩

theorem flushChunkToStorage_obeys (h : hand.Carries (some (name, bytes)) none)
    (hchunk : chunk ≠ []) :
    (flushChunkToStorage lib chunk name).Obeys (traffic env lib.crc32 base)
      (fun result after => result = .ok () ∧ after.Carries (some (name, bytes ++ chunk)) none)
      hand := by
  rw [ApiGateway.flushChunkToStorage_eq]
  refine .of_bind ((storeChunk_obeys h hchunk).mono ?_)
  rintro _ after ⟨rfl, hafter⟩
  exact ⟨rfl, hafter⟩

/-! ## The loops -/

/-- The loop of the JSON upload extends what the upload has stored. -/
theorem putChunks_obeys (chunked : List Bytes) (hchunked : [] ∉ chunked)
    (h : hand.Carries (some (name, bytes)) none) :
    (putChunks lib name chunked).Obeys (traffic env lib.crc32 base)
      (fun result after => result = .ok () ∧
        after.Carries (some (name, bytes ++ chunked.flatten)) none) hand := by
  induction chunked generalizing hand bytes with
  | nil =>
      rw [List.flatten_nil, List.append_nil]
      exact ⟨rfl, h⟩
  | cons chunk chunked ih =>
      rw [List.mem_cons, not_or] at hchunked
      rw [ApiGateway.putChunks_cons]
      refine .of_bind ((storeChunk_obeys h (Ne.symm hchunked.1)).mono ?_)
      rintro _ after ⟨rfl, hafter⟩
      rw [List.flatten_cons, ← List.append_assoc]
      exact ih hchunked.2 hafter

/-- Full chunks extend what the upload has stored. -/
theorem flushFull_obeys {n : Nat} (hn : 0 < n) (fuel : Nat) {buffer : Bytes}
    (h : hand.Carries (some (name, bytes)) none) :
    (flushFull lib name n fuel buffer).Obeys (traffic env lib.crc32 base)
      (fun result after => ∃ flushed rest, result = .ok rest ∧ flushed ++ rest = buffer ∧
        after.Carries (some (name, bytes ++ flushed)) none) hand := by
  induction fuel generalizing hand bytes buffer with
  | zero =>
      refine ⟨[], buffer, rfl, rfl, ?_⟩
      rw [List.append_nil]
      exact h
  | succ fuel ih =>
      unfold flushFull
      split
      · have hfull : buffer.take n ≠ [] := by
          intro hnil
          have hzero : (buffer.take n).length = 0 := by simp [hnil]
          rw [List.length_take] at hzero
          omega
        refine .of_bind ((flushChunkToStorage_obeys h hfull).mono ?_)
        rintro _ after ⟨rfl, hafter⟩
        refine (ih hafter).mono ?_
        rintro _ after' ⟨flushed, rest, rfl, hbuffer, hafter'⟩
        refine ⟨buffer.take n ++ flushed, rest, rfl, ?_, ?_⟩
        · rw [List.append_assoc, hbuffer, List.take_append_drop]
        · rw [← List.append_assoc]
          exact hafter'
      · refine ⟨[], buffer, rfl, rfl, ?_⟩
        rw [List.append_nil]
        exact h

/-- The fragments extend what the upload has stored. -/
theorem streamField_obeys {n : Nat} (hn : 0 < n) (reads : List (Except String Bytes))
    {buffer received rest : Bytes} (hreads : wholeField reads = some rest)
    (hreceived : bytes ++ buffer = received) (hsize : (received ++ rest).length ≤ MAX_OBJECT_SIZE)
    (h : hand.Carries (some (name, bytes)) none) :
    (streamField lib name n buffer received reads).Obeys (traffic env lib.crc32 base)
      (fun result after => ∃ stored left, result = .ok (left, received ++ rest) ∧
        stored ++ left = received ++ rest ∧ after.Carries (some (name, stored)) none) hand := by
  induction reads generalizing hand bytes buffer received rest with
  | nil =>
      cases hreads
      rw [List.append_nil]
      exact ⟨bytes, buffer, rfl, hreceived, h⟩
  | cons read reads ih =>
      cases read with
      | error err => cases hreads
      | ok chunkData =>
          rcases Option.map_eq_some_iff.mp hreads with ⟨later, hlater, rfl⟩
          rw [← List.append_assoc] at hsize ⊢
          have hfits : ¬ MAX_OBJECT_SIZE < (received ++ chunkData).length := by
            rw [List.length_append] at hsize
            omega
          unfold streamField
          dsimp only
          rw [if_neg hfits]
          refine .of_bind ((flushFull_obeys hn _ h).mono ?_)
          rintro _ after ⟨flushed, left, rfl, hbuffer, hafter⟩
          refine ih hlater ?_ hsize hafter
          rw [List.append_assoc, hbuffer, ← hreceived, List.append_assoc]

theorem flushRest_obeys (buffer : Bytes) (h : hand.Carries (some (name, bytes)) none) :
    (flushRest lib name buffer).Obeys (traffic env lib.crc32 base)
      (fun result after => result = .ok () ∧ after.Carries (some (name, bytes ++ buffer)) none)
      hand := by
  unfold flushRest
  split
  · rename_i hempty
    rw [List.isEmpty_iff.mp hempty, List.append_nil]
    exact ⟨rfl, h⟩
  · rename_i hfull
    apply flushChunkToStorage_obeys h
    intro hnil
    apply hfull
    simp [hnil]

/-! ## Uploads -/

/-- The upload has stored its body, or it has found the name taken. -/
def Settled (name : String) (body : Bytes) (response : HttpResult PutObjectResponsePayload)
    (hand : Hand) : Prop :=
  response = .ok ⟨"upload complete", body.length⟩ ∧ hand.Carries (some (name, body)) none ∨
    response = .error (.conflict, "object name already used") ∧ hand.Carries none (some name)

/-- A JSON upload creates its object, unless another one has. -/
theorem storeObject_obeys (size : StorageNode.ChunkSize) (h : hand.Carries none none) :
    (ApiGateway.storeObject lib name body size).Obeys (traffic env lib.crc32 base)
      (Settled name body) hand := by
  refine ⟨_, .putObject _ h.object, ?_⟩
  rintro _ _ (⟨rfl, rfl⟩ | ⟨⟨status, rfl⟩, rfl⟩)
  · change (putChunks lib name (chunks size.bytes body) >>= _).Obeys _ _ _
    have hcarries : Hand.Carries { hand with object := some (name, []) } (some (name, [])) none :=
      ⟨rfl, h.refused, h.reserved, h.written⟩
    have hpieces := nil_notMem_chunks size.bytes size.positive body
    refine .of_bind ((putChunks_obeys _ hpieces hcarries).mono ?_)
    rintro _ after ⟨rfl, hafter⟩
    rw [List.nil_append, ApiGateway.flatten_chunks size.positive] at hafter
    exact .inl ⟨rfl, hafter⟩
  · exact .inr ⟨rfl, h.object, rfl, h.reserved, h.written⟩

/-- A multipart upload creates its object, unless another one has. -/
theorem streamObject_obeys {fields : Multipart} (size : StorageNode.ChunkSize)
    (hbody : (Upload.multipart fields).body lib = some body) (hsize : body.length ≤ MAX_OBJECT_SIZE)
    (h : hand.Carries none none) :
    (ApiGateway.streamObject lib name fields size).Obeys (traffic env lib.crc32 base)
      (Settled name body) hand := by
  refine ⟨_, .putObject _ h.object, ?_⟩
  rintro _ _ (⟨rfl, rfl⟩ | ⟨⟨status, rfl⟩, rfl⟩)
  · unfold Upload.body at hbody
    dsimp only at hbody
    dsimp only [Library.Program.bind]
    cases hfield : findFile fields with
    | error error =>
        rw [hfield] at hbody
        cases hbody
    | ok field =>
        rw [hfield] at hbody
        change (streamField lib name size.bytes [] [] field.data >>= _).Obeys _ _ _
        have hcarries :
            Hand.Carries { hand with object := some (name, []) } (some (name, [])) none :=
          ⟨rfl, h.refused, h.reserved, h.written⟩
        have hnothing : ([] ++ [] : Bytes) = [] := rfl
        refine .of_bind ((streamField_obeys size.positive _ hbody hnothing hsize hcarries).mono ?_)
        rintro _ after ⟨stored, left, rfl, hwhole, hafter⟩
        rw [List.nil_append] at hwhole
        refine .of_bind ((flushRest_obeys left hafter).mono ?_)
        rintro _ after' ⟨rfl, hafter'⟩
        rw [hwhole] at hafter'
        refine ⟨_, .updateObjectChecksum _ _ hafter'.object, ?_⟩
        rintro _ _ ⟨rfl, rfl⟩
        exact .inl ⟨rfl, hafter'⟩
  · exact .inr ⟨rfl, h.object, rfl, h.reserved, h.written⟩

/-- The calls in front of `put_object`. -/
theorem preamble_obeys {α : Type} {post : α → Hand → Prop}
    {f : Except Status (List MetaStorageNode) → Deployment.Program α}
    {g : MetaStorageNode → Except String Unit → Deployment.Program α}
    {k : Except Status StorageNode.ChunkSize → Deployment.Program α}
    (hf : ∀ node nodes, f (.ok (node :: nodes)) =
      Deployment.Program.connect node.address >>= g node)
    (hg : ∀ node, g node (.ok ()) = Deployment.Program.storageNode node.address .getChunkSize >>= k)
    (hk : ∀ size nodes, (k (.ok size)).Obeys (traffic env crc32 base) post
      { hand with nodes := nodes }) :
    (Deployment.Program.metadata .listStorageNodes >>= f).Obeys (traffic env crc32 base) post
      hand := by
  refine ⟨_, .listStorageNodes, ?_⟩
  rintro _ _ ⟨nodes, rfl, hne, rfl⟩
  rcases List.exists_cons_of_ne_nil hne with ⟨node, rest, rfl⟩
  change (f (.ok (node :: rest))).Obeys _ _ _
  rw [hf]
  refine ⟨_, .connect List.mem_cons_self, ?_⟩
  rintro _ _ ⟨rfl, rfl⟩
  change (g node (.ok ())).Obeys _ _ _
  rw [hg]
  refine ⟨_, .getChunkSize List.mem_cons_self, ?_⟩
  rintro _ _ ⟨⟨size, rfl⟩, rfl⟩
  exact hk size _

/-- What the hand says about the request. -/
def Hand.event (hand : Hand) : Event String Bytes :=
  match hand.object, hand.refused with
  | some (name, bytes), _ => .created name bytes
  | none, some name => .conflict name
  | none, none => .idle

/-- Nothing is left in hand, and an upload was answered as its hand says. -/
def Leaves (lib : Library) (exchange : Exchange) (hand : Hand) : Prop :=
  hand.reserved = none ∧ hand.written = none ∧
    match exchange with
    | .put upload name response => Shows lib (.put upload name response) hand.event
    | _ => hand.object = none

/-- What the upload leaves is what it has answered. -/
theorem Settled.leaves {upload : Upload} {response : HttpResult PutObjectResponsePayload}
    (hbody : upload.body lib = some body) (h : Settled name body response hand) :
    Leaves lib (.put upload name response) hand := by
  rcases h with ⟨rfl, h⟩ | ⟨rfl, h⟩
  · refine ⟨h.reserved, h.written, ?_⟩
    dsimp only
    rw [Hand.event, h.object, h.refused]
    exact .created hbody
  · refine ⟨h.reserved, h.written, ?_⟩
    dsimp only
    rw [Hand.event, h.object, h.refused]
    exact .conflict

/-- An upload keeps to the rule. -/
theorem upload_obeys (upload : Upload) (lib : Library) (name : String)
    (hbody : (∃ payload, upload = .json payload) ∨ Complete lib upload) :
    (upload.handler lib name).Obeys (traffic env lib.crc32 base)
      (fun response after => Leaves lib (.put upload name response) after) .empty := by
  have hrejected : ∀ {msg : String} {code : StatusCode},
      code = .badRequest ∨ code = .payloadTooLarge →
      validateObjectName lib name ≠ .ok () ∨ ¬ Complete lib upload →
      Leaves lib (.put upload name (.error (code, msg))) .empty := by
    intro msg code hcode hinvalid
    exact ⟨rfl, rfl, .putRejected hcode hinvalid⟩
  cases upload with
  | json payload =>
      change (ApiGateway.handlePutObject lib name payload).Obeys _ _ _
      unfold ApiGateway.handlePutObject
      cases hvalid : validateObjectName lib name with
      | error msg => exact hrejected (.inl rfl) (.inl (by simp [hvalid]))
      | ok value =>
          dsimp only
          cases hdecoded : lib.decode payload with
          | error err =>
              refine hrejected (.inl rfl) (.inr ?_)
              rintro ⟨body, hbody, _⟩
              simp [Upload.body, hdecoded] at hbody
          | ok decoded =>
              have hpayload : (Upload.json payload).body lib = some decoded := by
                simp [Upload.body, hdecoded]
              dsimp only
              split
              · rename_i hlong
                refine hrejected (.inr rfl) (.inr ?_)
                rintro ⟨body, hbody, hshort⟩
                cases hpayload.symm.trans hbody
                omega
              · refine preamble_obeys (fun _ _ => rfl) (fun _ => rfl) fun size nodes => ?_
                refine (storeObject_obeys size ⟨rfl, rfl, rfl, rfl⟩).mono fun response after h => ?_
                exact h.leaves hpayload
  | multipart fields =>
      change (ApiGateway.handlePutObjectMultipart lib name fields).Obeys _ _ _
      unfold ApiGateway.handlePutObjectMultipart
      cases hvalid : validateObjectName lib name with
      | error msg => exact hrejected (.inl rfl) (.inl (by simp [hvalid]))
      | ok value =>
          rcases hbody with ⟨_, hjson⟩ | ⟨body, hbody, hsize⟩
          · cases hjson
          · refine preamble_obeys (fun _ _ => rfl) (fun _ => rfl) fun size nodes => ?_
            refine (streamObject_obeys size hbody hsize ⟨rfl, rfl, rfl, rfl⟩).mono
              fun response after h => ?_
            exact h.leaves hbody

/-! ## Cycles -/

/-- Between two copies, a cycle holds nothing, and has its listings. -/
structure Hand.Keeps (hand after : Hand) : Prop where
  nodes : after.nodes = hand.nodes
  chunks : after.chunks = hand.chunks
  object : after.object = none
  reserved : after.reserved = none
  written : after.written = none

theorem Hand.Keeps.trans {after after' : Hand} (h : hand.Keeps after) (h' : after.Keeps after') :
    hand.Keeps after' where
  nodes := h'.nodes.trans h.nodes
  chunks := h'.chunks.trans h.chunks
  object := h'.object
  reserved := h'.reserved
  written := h'.written

variable {id : UInt64}

/-- Looking changes nothing. -/
theorem looks_obeys {α : Type} {program : Deployment.Program α}
    (h : program.Only ReplicationService.Looks) :
    program.Obeys (traffic env crc32 base) (fun _ after => after = hand) hand :=
  h.obeys fun _ hlooks => .read hlooks.reads

/-- A cycle reads the data of a chunk that it has listed. -/
theorem readSource_obeys (sourceNodeId : UInt64) (hid : id ∈ hand.chunks) (h : hand.Keeps hand) :
    (readSource id sourceNodeId).Obeys (traffic env crc32 base)
      (fun result after => hand.Keeps after ∧
        ∀ bytes, result = .ok bytes → (id, bytes) ∈ after.copies) hand := by
  refine ⟨_, .read trivial, ?_⟩
  rintro (found : Except Status String) _ rfl
  cases found with
  | error _ =>
      refine ⟨h, fun bytes hbytes => ?_⟩
      cases hbytes
  | ok sourceAddress =>
      refine ⟨_, .read trivial, ?_⟩
      rintro (connected : Except String Unit) _ rfl
      cases connected with
      | error _ =>
          refine ⟨h, fun bytes hbytes => ?_⟩
          cases hbytes
      | ok _ =>
          refine ⟨_, .readChunk sourceAddress hid, ?_⟩
          rintro _ after (⟨⟨status, rfl⟩, rfl⟩ | ⟨response, rfl, rfl⟩)
          · refine ⟨h, fun bytes hbytes => ?_⟩
            cases hbytes
          · refine ⟨⟨rfl, rfl, h.object, h.reserved, h.written⟩, fun bytes hbytes => ?_⟩
            cases hbytes
            exact List.mem_cons_self

/-- A cycle with a copy that is not recorded yet. -/
structure Hand.Copying (hand : Hand) (address : String) (id : UInt64) (after : Hand) : Prop where
  nodes : after.nodes = hand.nodes
  chunks : after.chunks = hand.chunks
  object : after.object = none
  reserved : after.reserved = none
  written : ∃ bytes, after.written = some ((address, id), bytes)

/-- A cycle writes what it has read. -/
theorem writeTarget_obeys {targetAddress : String} (hcopy : (id, bytes) ∈ hand.copies)
    (h : hand.Keeps hand) :
    (writeTarget targetAddress id bytes).Obeys (traffic env crc32 base)
      (fun result after => (∃ label, result = .error label) ∧ hand.Keeps after ∨
        result = .ok () ∧ hand.Copying targetAddress id after) hand := by
  refine ⟨_, .read trivial, ?_⟩
  rintro (connected : Except String Unit) _ rfl
  cases connected with
  | error _ => exact .inl ⟨⟨_, rfl⟩, h⟩
  | ok _ =>
      refine ⟨_, .copyChunk targetAddress hcopy h.reserved h.written, ?_⟩
      rintro _ _ (⟨⟨status, rfl⟩, rfl⟩ | ⟨⟨value, rfl⟩, rfl⟩)
      · exact .inl ⟨⟨_, rfl⟩, h⟩
      · exact .inr ⟨rfl, rfl, rfl, h.object, h.reserved, bytes, rfl⟩

/-- The target can always be reached, so nothing that was not recorded is left there. -/
theorem recordReplica_obeys {targetNode : MetaStorageNode} {before : Hand}
    (hnode : targetNode ∈ before.nodes) (h : before.Copying targetNode.address id hand) :
    (recordReplica id targetNode).Obeys (traffic env crc32 base)
      (fun _ after => before.Keeps after) hand := by
  rcases h.written with ⟨bytes, hwritten⟩
  rw [← h.nodes] at hnode
  refine ⟨_, .addChunkReplica hnode h.reserved hwritten, ?_⟩
  rintro _ _ (⟨⟨status, rfl⟩, rfl⟩ | ⟨rfl, rfl⟩)
  · refine ⟨_, .connect hnode, ?_⟩
    rintro _ _ ⟨rfl, rfl⟩
    refine ⟨_, .deleteChunk h.reserved hwritten, ?_⟩
    rintro _ _ rfl
    exact ⟨h.nodes, h.chunks, h.object, h.reserved, rfl⟩
  · exact ⟨h.nodes, h.chunks, h.object, h.reserved, rfl⟩

/-- A copy is made of a listed chunk. -/
theorem copyChunk_obeys {chunk : UnderReplicatedChunk} {targetNode : MetaStorageNode}
    (hchunk : chunk.chunkId ∈ hand.chunks) (hnode : targetNode ∈ hand.nodes)
    (h : hand.Keeps hand) :
    (copyChunk lib.crc32 chunk targetNode).Obeys (traffic env crc32 base)
      (fun _ after => hand.Keeps after) hand := by
  unfold copyChunk
  split
  · exact h
  · rename_i sourceNodeId _ _
    refine .of_bind ((readSource_obeys sourceNodeId hchunk h).mono ?_)
    rintro (label | chunkData) after ⟨hafter, hcopies⟩
    · exact hafter
    · dsimp only
      split
      · exact hafter
      · have hkeeps : after.Keeps after :=
          ⟨rfl, rfl, hafter.object, hafter.reserved, hafter.written⟩
        refine .of_bind ((writeTarget_obeys (hcopies chunkData rfl) hkeeps).mono ?_)
        rintro _ after' (⟨⟨label, rfl⟩, hafter'⟩ | ⟨rfl, hcopying⟩)
        · exact hafter.trans hafter'
        · rw [← hafter.nodes] at hnode
          exact (recordReplica_obeys hnode hcopying).mono fun _ _ hlast => hafter.trans hlast

theorem replicateChunk_obeys {nodes : List MetaStorageNode} {chunk : UnderReplicatedChunk}
    (hchunk : chunk.chunkId ∈ hand.chunks) (hnodes : ∀ node ∈ nodes, node ∈ hand.nodes)
    (h : hand.Keeps hand) :
    (replicateChunk lib.crc32 nodes chunk).Obeys (traffic env crc32 base)
      (fun _ after => hand.Keeps after) hand := by
  unfold replicateChunk
  dsimp only
  split
  · exact h
  · refine ⟨_, .read trivial, ?_⟩
    rintro (picked : Nat) _ rfl
    dsimp only [Library.Program.bind]
    split
    · exact h
    · rename_i targetNode hpicked
      have hmem : targetNode ∈ nodes := List.mem_of_mem_filter (List.mem_of_getElem? hpicked)
      have hlooks := ReplicationService.hasSpace_looks targetNode.address
      refine .of_bind ((looks_obeys hlooks).mono ?_)
      rintro space _ rfl
      split
      · exact copyChunk_obeys hchunk (hnodes targetNode hmem) h
      · exact h

/-- The loop over the chunks of a cycle keeps to the rule. -/
theorem replicateChunks_obeys {nodes : List MetaStorageNode} {chunks : List UnderReplicatedChunk}
    (hchunks : ∀ chunk ∈ chunks, chunk.chunkId ∈ hand.chunks)
    (hnodes : ∀ node ∈ nodes, node ∈ hand.nodes) (h : hand.Keeps hand) :
    (replicateChunks lib.crc32 nodes chunks).Obeys (traffic env crc32 base)
      (fun _ after => hand.Keeps after) hand := by
  induction chunks generalizing hand with
  | nil => exact h
  | cons chunk chunks ih =>
      rw [List.forall_mem_cons] at hchunks
      refine .of_bind ((replicateChunk_obeys hchunks.1 hnodes h).mono ?_)
      intro outcome after hafter
      have hkeeps : after.Keeps after := ⟨rfl, rfl, hafter.object, hafter.reserved, hafter.written⟩
      have hlater : ∀ chunk ∈ chunks, chunk.chunkId ∈ after.chunks := by
        rw [hafter.chunks]
        exact hchunks.2
      have hlisted : ∀ node ∈ nodes, node ∈ after.nodes := by
        rw [hafter.nodes]
        exact hnodes
      refine .of_bind ((ih hlater hlisted hkeeps).mono ?_)
      exact fun _ _ hlast => hafter.trans hlast

/-- A cycle keeps to the rule. -/
theorem cycle_obeys (maxChunksPerCycle : Nat) :
    (runReplicationCycle lib.crc32 maxChunksPerCycle).Obeys (traffic env crc32 base)
      (fun _ after => Hand.Keeps after after) .empty := by
  have hempty : Hand.empty.Keeps .empty := ⟨rfl, rfl, rfl, rfl, rfl⟩
  refine ⟨_, .listUnderReplicatedChunks _, ?_⟩
  rintro _ _ (⟨⟨status, rfl⟩, rfl⟩ | ⟨chunks, rfl, rfl⟩)
  · exact hempty
  · dsimp only [Library.Program.bind]
    split
    · exact ⟨rfl, rfl, rfl, rfl, rfl⟩
    · refine ⟨_, .listStorageNodes, ?_⟩
      rintro _ _ ⟨nodes, rfl, hne, rfl⟩
      dsimp only [Library.Program.bind]
      split
      · exact ⟨rfl, rfl, rfl, rfl, rfl⟩
      · refine .of_bind ((replicateChunks_obeys ?_ ?_ ⟨rfl, rfl, rfl, rfl, rfl⟩).mono ?_)
        · intro chunk hchunk
          exact List.mem_append_left _ (List.mem_map_of_mem (List.mem_of_mem_take hchunk))
        · exact fun node hnode => List.mem_append_left _ hnode
        · intro _ after hafter
          exact ⟨rfl, rfl, hafter.object, hafter.reserved, hafter.written⟩

/-! ## Pools -/

/-- What runs in the deployment while nothing is being deleted. -/
inductive Additive (lib : Library) (debug : StatusCode × String → String) :
    Deployment.Program Exchange → Prop where
  | put {upload : Upload} {name : String}
      (hbody : (∃ payload, upload = .json payload) ∨ Complete lib upload) :
      Additive lib debug
        (upload.handler lib name >>= fun response => pure (.put upload name response))
  | get (download : Download) (name : String) :
      Additive lib debug
        (download.handler lib name >>= fun response => pure (.get download name response))
  | list (objects : Except Status (List StorageMetadata.Proto.MetaObject)) :
      Additive lib debug
        (handleListObjects lib debug objects >>= fun response => pure (.list response))
  | cycle (maxChunksPerCycle : Nat) :
      Additive lib debug
        (runReplicationCycle lib.crc32 maxChunksPerCycle >>= fun result =>
          pure (.cycle maxChunksPerCycle result))

theorem reads_obeys {α : Type} {program : Deployment.Program α}
    (h : program.Only Deployment.Call.Reads) :
    program.Obeys (traffic env crc32 base) (fun _ after => after = hand) hand :=
  h.obeys fun _ hreads => .read hreads

/-- Uploads, downloads, listings and cycles keep to the rule. -/
theorem Additive.obeys {debug : StatusCode × String → String}
    {program : Deployment.Program Exchange} (h : Additive lib debug program) :
    program.Obeys (traffic env lib.crc32 base) (Leaves lib) .empty := by
  cases h with
  | @put upload name hbody =>
      refine .of_bind ((upload_obeys upload lib name hbody).mono ?_)
      exact fun _ _ hleaves => hleaves
  | get download name =>
      have hreads : (download.handler lib name).Only Deployment.Call.Reads :=
        (Download.handler_looks lib name download).mono fun _ hlooks => hlooks.reads
      refine .of_bind ((reads_obeys hreads).mono ?_)
      rintro _ _ rfl
      exact ⟨rfl, rfl, rfl⟩
  | list objects =>
      refine .of_bind ((reads_obeys (handleListObjects_reads lib debug objects)).mono ?_)
      rintro _ _ rfl
      exact ⟨rfl, rfl, rfl⟩
  | cycle maxChunksPerCycle =>
      refine .of_bind ((cycle_obeys maxChunksPerCycle).mono ?_)
      exact fun _ _ hkeeps => ⟨hkeeps.reserved, hkeeps.written, hkeeps.object⟩

/-! ## Serial runs -/

/-- The exchange is an upload. -/
def Exchange.isPut : Exchange → Bool
  | .put _ _ _ => true
  | _ => false

/-- An upload shows the event that it leaves. -/
theorem Leaves.shows {exchange : Exchange} (h : Leaves lib exchange hand)
    (hput : exchange.isPut = true) : Shows lib exchange hand.event := by
  cases exchange with
  | put upload name response => exact h.2.2
  | _ => cases hput

/-- Only an upload leaves an object. -/
theorem Leaves.isPut {exchange : Exchange} (h : Leaves lib exchange hand)
    (hobject : hand.object = some (name, bytes)) : exchange.isPut = true := by
  cases exchange with
  | put upload name response => rfl
  | _ => cases hobject.symm.trans h.2.2

theorem Hand.event_of_object (h : hand.object = some (name, bytes)) :
    hand.event = .created name bytes := by
  rw [Hand.event, h]

theorem Hand.event_of_none (h : hand.object = none) :
    hand.event = .idle ∨ ∃ name, hand.event = .conflict name ∧ hand.refused = some name := by
  rw [Hand.event, h]
  cases hrefused : hand.refused with
  | none => exact .inl rfl
  | some name => exact .inr ⟨name, rfl, rfl⟩

/-- Requests with what they have left in hand: first come the uploads that have created their
object, then the others. -/
theorem serializes {map map' : String → Option Bytes} {pairs : List (Exchange × Hand)}
    (hleaves : ∀ pair ∈ pairs, Leaves lib pair.1 pair.2)
    (hapart : pairs.Pairwise fun p q => ∀ name v w, p.2.object = some (name, v) →
      q.2.object ≠ some (name, w))
    (hobject : ∀ pair ∈ pairs, ∀ name bytes, pair.2.object = some (name, bytes) →
      map name = none ∧ map' name = some bytes)
    (hrefused : ∀ pair ∈ pairs, ∀ name, pair.2.refused = some name → map' name ≠ none)
    (hframe : ∀ name, map' name = map name ∨
      ∃ pair ∈ pairs, ∃ bytes, pair.2.object = some (name, bytes)) :
    ∃ order events, order.Perm ((pairs.map Prod.fst).filter Exchange.isPut) ∧
      List.Forall₂ (Shows lib) order events ∧ Library.KeyValue.steps.Trace map events map' := by
  let puts := pairs.filter fun pair => pair.1.isPut
  let creators := puts.filter fun pair => pair.2.object.isSome
  let others := puts.filter fun pair => !pair.2.object.isSome
  let entries := creators.map fun pair => pair.2.object.getD ("", [])
  have hputs : ∀ pair ∈ creators ++ others, pair ∈ pairs ∧ pair.1.isPut = true := by
    intro pair hpair
    have hmem : pair ∈ puts := (List.mem_append.mp hpair).elim
      List.mem_of_mem_filter List.mem_of_mem_filter
    simpa [puts] using hmem
  have hcreators : ∀ pair ∈ creators, pair ∈ pairs ∧
      pair.2.object = some (pair.2.object.getD ("", [])) := by
    intro pair hpair
    refine ⟨(hputs pair (List.mem_append_left _ hpair)).1, ?_⟩
    have hsome := (List.mem_filter.mp hpair).2
    rcases Option.isSome_iff_exists.mp hsome with ⟨entry, hentry⟩
    rw [hentry]
    rfl
  have hevents : creators.map (fun pair => pair.2.event) =
      entries.map fun entry => Event.created entry.1 entry.2 := by
    rw [List.map_map]
    apply List.map_congr_left
    intro pair hpair
    exact Hand.event_of_object (hcreators pair hpair).2
  refine ⟨(creators ++ others).map Prod.fst, (creators ++ others).map fun pair => pair.2.event,
    ?_, ?_, ?_⟩
  · rw [List.filter_map]
    exact (List.filter_append_perm _ puts).map Prod.fst
  · rw [List.forall₂_map_left_iff, List.forall₂_map_right_iff, List.forall₂_same]
    intro pair hpair
    exact (hleaves pair (hputs pair hpair).1).shows (hputs pair hpair).2
  · rw [List.map_append, Library.Lts.trace_append_iff]
    refine ⟨map', ?_, Library.KeyValue.trace_refused ?_⟩
    · rw [hevents]
      apply Library.KeyValue.trace_created
      · rw [List.map_map, List.Nodup, List.pairwise_map]
        have hsublist : creators.Sublist pairs :=
          List.filter_sublist.trans List.filter_sublist
        apply (hapart.sublist hsublist).imp_of_mem
        intro p q hp hq hpq heq
        change (p.2.object.getD ("", [])).1 = (q.2.object.getD ("", [])).1 at heq
        have hsame : q.2.object =
            some ((p.2.object.getD ("", [])).1, (q.2.object.getD ("", [])).2) := by
          rw [heq]
          exact (hcreators q hq).2
        exact hpq _ _ _ (hcreators p hp).2 hsame
      · intro entry hentry
        rcases List.mem_map.mp hentry with ⟨pair, hpair, rfl⟩
        exact (hobject pair (hcreators pair hpair).1 _ _ (hcreators pair hpair).2).1
      · intro entry hentry
        rcases List.mem_map.mp hentry with ⟨pair, hpair, rfl⟩
        exact (hobject pair (hcreators pair hpair).1 _ _ (hcreators pair hpair).2).2
      · intro name hname
        rcases hframe name with hsame | ⟨pair, hpair, bytes, hbytes⟩
        · exact hsame
        · have hput := (hleaves pair hpair).isPut hbytes
          have hcreator : pair ∈ creators := by simp [creators, puts, hpair, hput, hbytes]
          have hentry : (name, bytes) ∈ entries := by
            refine List.mem_map.mpr ⟨pair, hcreator, ?_⟩
            rw [hbytes]
            rfl
          exact absurd (List.mem_map_of_mem hentry) hname
    · intro event hevent
      rcases List.mem_map.mp hevent with ⟨pair, hpair, rfl⟩
      have hnone : pair.2.object = none := by simpa using (List.mem_filter.mp hpair).2
      rcases Hand.event_of_none hnone with hidle | ⟨name, hconflict, hname⟩
      · exact .inl hidle
      · exact .inr ⟨name, hconflict,
          hrefused pair (hputs pair (List.mem_append_right _ hpair)).1 name hname⟩

/-- When all are done, the uploads have been answered as if they had been made one after the
other in some order, and the store holds what such a run leaves. -/
theorem concurrent_uploads_serialize (env : Environment) (lib : Library)
    (debug : StatusCode × String → String) (s s' : Services) (map : String → Option Bytes)
    (h : Represents lib.crc32 s map) (exchanges : List Exchange)
    (hsteps : Relation.ReflTransGen (PoolStep (RoomyStep env) (Additive lib debug)) (s, [])
      (s', exchanges.map .done)) :
    ∃ order events map', order.Perm (exchanges.filter Exchange.isPut) ∧
      List.Forall₂ (Shows lib) order events ∧ Library.KeyValue.steps.Trace map events map' ∧
        Represents lib.crc32 s' map' := by
  have hspawn : ∀ program, Additive lib debug program →
      program.Obeys (traffic env lib.crc32 map) (Leaves lib) .empty :=
    fun program hadditive => hadditive.obeys
  rcases Library.Protocol.reachable hspawn h.inFlight hsteps with ⟨hands, hkept⟩
  have hdone : ∀ i : Fin exchanges.length, Leaves lib (exchanges.get i) (hands i) := by
    intro i
    exact hkept.obeys i (.done (exchanges.get i)) (by simp)
  have hbehind : ∀ i, exchanges.length ≤ i → hands i = .empty := by
    intro i hi
    apply hkept.idle
    rw [List.length_map]
    exact hi
  have hempty : ∀ i, (hands i).reserved = none ∧ (hands i).written = none := by
    intro i
    by_cases hi : i < exchanges.length
    · exact ⟨(hdone ⟨i, hi⟩).1, (hdone ⟨i, hi⟩).2.1⟩
    · rw [hbehind i (by omega)]
      exact ⟨rfl, rfl⟩
  have hinFlight : InFlight lib.crc32 map s' hands := hkept.inv
  rcases hinFlight.represents (fun i => (hempty i).1) (fun i => (hempty i).2) with
    ⟨map', hmap', hnames, hframe, hhands⟩
  let pairs := (List.finRange exchanges.length).map fun i => (exchanges.get i, hands i)
  have hfirst : pairs.map Prod.fst = exchanges := by
    rw [List.map_map]
    exact List.map_get_finRange exchanges
  have hpairs : ∀ pair ∈ pairs, ∃ i : Fin exchanges.length, (exchanges.get i, hands i) = pair := by
    intro pair hpair
    rcases List.mem_map.mp hpair with ⟨i, _, heq⟩
    exact ⟨i, heq⟩
  have hserial : ∃ order events, order.Perm ((pairs.map Prod.fst).filter Exchange.isPut) ∧
      List.Forall₂ (Shows lib) order events ∧ Library.KeyValue.steps.Trace map events map' := by
    apply serializes
    · intro pair hpair
      rcases hpairs pair hpair with ⟨i, rfl⟩
      exact hdone i
    · rw [List.pairwise_map]
      apply (List.nodup_finRange exchanges.length).imp
      intro i j hij name v w hi hj
      exact hij (Fin.ext (hnames i j name v w hi hj))
    · intro pair hpair name bytes hobject
      rcases hpairs pair hpair with ⟨i, rfl⟩
      exact (hhands i).1 name bytes hobject
    · intro pair hpair name hrefused
      rcases hpairs pair hpair with ⟨i, rfl⟩
      exact (hhands i).2 name hrefused
    · intro name
      refine (hframe name).imp_right ?_
      rintro ⟨i, bytes, hobject⟩
      by_cases hi : i < exchanges.length
      · exact ⟨_, List.mem_map_of_mem (List.mem_finRange ⟨i, hi⟩), bytes, hobject⟩
      · rw [hbehind i (by omega)] at hobject
        cases hobject
  rw [hfirst] at hserial
  rcases hserial with ⟨order, events, hperm, hshows, htrace⟩
  exact ⟨order, events, map', hperm, hshows, htrace, hmap'⟩

/-- The byte `h` is uploaded to `a`, and so is the byte `i`. -/
def putTwice : List (Deployment.Program Exchange) :=
  ["aA==", "aQ=="].map fun payload =>
    (Upload.json payload).handler plainLibrary "a" >>= fun response =>
      pure (.put (.json payload) "a" response)

/-- The uploads take turns.  The second one creates the object; the first one is refused before
any byte has been stored. -/
def putTwiceTurns : List (Nat × Deployment.Choice) :=
  [(0, .plain), (1, .plain), (0, .plain), (1, .plain), (0, .plain), (1, .plain), (1, .plain),
    (0, .plain), (1, ⟨.completes, [10], 0, ""⟩), (1, .plain), (1, .plain), (1, .plain), (1, .plain)]

/-- Two uploads to one name: one is refused. -/
theorem concurrent_uploads_serialize_twice :
    ∃ (exchanges : List Exchange) (s' : Services),
      Relation.ReflTransGen (PoolStep (RoomyStep plainEnvironment) (Additive plainLibrary (·.2)))
        (oneNode, []) (s', exchanges.map .done) ∧
      ∃ order events map', order.Perm (exchanges.filter Exchange.isPut) ∧
        List.Forall₂ (Shows plainLibrary) order events ∧
        Library.KeyValue.steps.Trace (fun _ => none) events map' ∧
          Represents plainLibrary.crc32 s' map' := by
  have hrun : ((Library.replayPool (roomyNext plainEnvironment) putTwiceTurns
      (oneNode, putTwice)).bind fun pool => Library.valuesOf pool.2).isSome = true := by
    decide +kernel
  rcases Option.isSome_iff_exists.mp hrun with ⟨exchanges, hexchanges⟩
  rcases Option.bind_eq_some_iff.mp hexchanges with ⟨⟨s', programs⟩, hpool, hvalues⟩
  have hspawned : Relation.ReflTransGen
      (PoolStep (RoomyStep plainEnvironment) (Additive plainLibrary (·.2))) (oneNode, [])
      (oneNode, putTwice) :=
    .head (.spawn (.put (.inl ⟨"aA==", rfl⟩))) (.single (.spawn (.put (.inl ⟨"aQ==", rfl⟩))))
  have hsteps := hspawned.trans (Library.steps_of_replayPool roomyNext_step hpool)
  have hdone : programs = exchanges.map .done := Library.eq_done_of_valuesOf hvalues
  rw [hdone] at hsteps
  exact ⟨exchanges, s', hsteps, concurrent_uploads_serialize plainEnvironment plainLibrary (·.2)
    oneNode s' _ oneNode_fresh.represents exchanges hsteps⟩

end System
end ObjectStore
