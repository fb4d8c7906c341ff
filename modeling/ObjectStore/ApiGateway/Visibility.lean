import ObjectStore.ApiGateway.Download
import ObjectStore.ApiGateway.Upload
import ObjectStore.Library.Readers
import ObjectStore.StorageMetadata.Integrity

/-!
# API gateway - What downloads see of an upload

An upload creates the object and then appends its chunks one by one.  A download that looks
the object up in between sees the chunks that are there already.

Main results:

- Theorem `Storing.confirm`: a confirmed chunk extends the stored content.
- Theorem `Upload.handler_guarantees`: what an upload leaves to its readers.
- Theorem `Download.handler_visible`: what a download makes of it.
- Theorem `uploads_visible_complete`: downloads that do not look up a partial object deliver
  the whole body or find nothing.
-/

namespace ObjectStore
namespace ApiGateway

open Deployment (MetadataCall Call Event Log Services SameServices SameMemory Environment Faults
  Step)
open StorageMetadata (MetadataStore MetaObject MetaChunk RegistryKeyed Reachable anyEvent jsonLib)

/-! ## The body of an upload -/

/-- All reads of a field, unless one fails. -/
def wholeField : List (Except String Bytes) → Option Bytes
  | [] => some []
  | .error _ :: _ => none
  | .ok chunkData :: rest => (wholeField rest).map (chunkData ++ ·)

/-- The uploaded bytes, if the request carries them. -/
def Upload.body (lib : Library) : Upload → Option Bytes
  | json payload =>
      match lib.decode payload with
      | .error _ => none
      | .ok decodedBytes => some decodedBytes
  | multipart fields =>
      match findFile fields with
      | .error _ => none
      | .ok field => wholeField field.data

/-- As many chunks as the bytes need hold them. -/
theorem length_le_chunks (chunkSize : Nat) (hsize : 0 < chunkSize) (bytes : Bytes) :
    bytes.length ≤ (chunks chunkSize bytes).length * chunkSize := by
  have hfrom : ∀ (fuel : Nat) (bytes : Bytes), bytes.length ≤ fuel →
      bytes.length ≤ (chunksFrom chunkSize fuel bytes).length * chunkSize := by
    intro fuel
    induction fuel with
    | zero =>
        intro bytes hfuel
        omega
    | succ fuel ih =>
        intro bytes hfuel
        cases bytes with
        | nil => simp
        | cons byte bytes =>
            have hrest := ih ((byte :: bytes).drop chunkSize) (by simp at hfuel ⊢; omega)
            simp only [chunksFrom, List.length_cons, List.length_drop] at hrest ⊢
            rw [Nat.succ_mul]
            omega
  exact hfrom bytes.length bytes (Nat.le_refl _)

/-- The first pieces of `bytes`: whole chunks, unless nothing is left. -/
def Pieces (chunkSize : Nat) (bytes : Bytes) (pieces : List Bytes) : Prop :=
  ∃ rest, pieces.flatten ++ rest = bytes ∧
    (rest = [] ∨ ∀ piece ∈ pieces, piece.length = chunkSize)

/-- When all chunks are there, so is the content. -/
theorem Pieces.whole {chunkSize : Nat} (hsize : 0 < chunkSize) {bytes : Bytes}
    {pieces : List Bytes} (h : Pieces chunkSize bytes pieces)
    (hcount : pieces.length = (chunks chunkSize bytes).length) : pieces.flatten = bytes := by
  rcases h with ⟨rest, rfl, hrest | hfull⟩
  · rw [hrest, List.append_nil]
  · have hle := length_le_chunks chunkSize hsize (pieces.flatten ++ rest)
    have hlength : pieces.flatten.length = pieces.length * chunkSize := by
      rw [List.length_flatten]
      have hmap : pieces.map List.length = List.replicate pieces.length chunkSize :=
        List.eq_replicate_iff.mpr ⟨by simp, fun n hn => by
          rcases List.mem_map.mp hn with ⟨piece, hpiece, rfl⟩
          exact hfull piece hpiece⟩
      rw [hmap, List.sum_replicate, smul_eq_mul]
    rw [List.length_append, ← hcount, hlength] at hle
    have hnil : rest = [] := List.length_eq_zero_iff.mp (by omega)
    rw [hnil, List.append_nil]

/-! ## Stored chunks -/

variable {env : Environment} {faults : Faults} {lib : Library} {name : String}

/-- The chunk is confirmed on one storage node, which holds its data. -/
def Held (s : Services) (id : UInt64) (bytes : Bytes) : Prop :=
  ∃ chunk nodeId node, s.metadata.metadataStore.chunks[id]? = some chunk ∧ chunk.id = id ∧
    chunk.status = .confirmed ∧ chunk.storageNodes = [nodeId] ∧
    s.metadata.metadataStore.storageNodes[nodeId]? = some node ∧
    s.dataAt node.address id = some bytes

/-- The calls of an upload but for its rollback. -/
def Uploads : Call → Prop
  | .metadata call =>
      match call with
      | .listStorageNodes | .putObject _ _ | .allocateChunk _ _ | .confirmChunk _ _ _ _
      | .updateObjectChecksum _ _ _ => True
      | _ => False
  | .storageNode _ call =>
      match call with
      | .writeChunk _ _ | .getChunkSize => True
      | _ => False
  | .connect _ | .cachedConnection _ | .connectCached _ => True
  | .choose _ | .turn => False

/-- What an upload leaves alone. -/
structure Kept (s s' : Services) : Prop where
  data : ∀ address id bytes, s.dataAt address id = some bytes → s'.dataAt address id = some bytes
  storageNodes : s'.metadata.metadataStore.storageNodes = s.metadata.metadataStore.storageNodes
  confirmed : ∀ (id : UInt64) (chunk : MetaChunk),
    s.metadata.metadataStore.chunks[id]? = some chunk →
    chunk.status = .confirmed → s'.metadata.metadataStore.chunks[id]? = some chunk

theorem Kept.of_same {s s' : Services} (h : SameServices s s') : Kept s s' where
  data address id bytes hbytes := (h.dataAt address id).trans hbytes
  storageNodes := h.memory.storageNodes
  confirmed id chunk hchunk _ := by
    rw [h.memory.chunks]
    exact hchunk

/-- Data that was there is still there. -/
theorem Kept.held {s s' : Services} (h : Kept s s') {id : UInt64} {bytes : Bytes}
    (hheld : Held s id bytes) : Held s' id bytes := by
  rcases hheld with ⟨chunk, nodeId, node, hchunk, hkey, hstatus, hnodes, hnode, hdata⟩
  refine ⟨chunk, nodeId, node, h.confirmed id chunk hchunk hstatus, hkey, hstatus, hnodes, ?_,
    h.data node.address id bytes hdata⟩
  rw [h.storageNodes]
  exact hnode

/-- The calls of an upload take nothing away. -/
theorem uploads_kept {s s' : Services} {call : Call} {reply : call.Reply}
    (h : Step env faults s call reply s') (hfaults : faults ≠ .any) (hcall : Uploads call) :
    Kept s s' := by
  cases call with
  | metadata call =>
      rcases h.metadata_effect hfaults with ⟨hnodes, _, m, heffect, hmemory⟩
      have hdata : ∀ address id bytes, s.dataAt address id = some bytes →
          s'.dataAt address id = some bytes := by
        intro address id bytes hbytes
        rw [Services.dataAt, hnodes]
        exact hbytes
      refine ⟨hdata, ?_, fun id chunk hchunk hstatus => ?_⟩
      · rw [hmemory.storageNodes]
        cases heffect with
        | refused _ | listStorageNodes _ | putObject _ _ | allocateChunk _ _ _ _
        | confirmChunk _ _ _ _ | updateObjectChecksum _ _ _ => rfl
        | lookupObject _ | resolveObject _ | deleteChunk _ _ | deleteOrphan _ _ _
        | deleteObject _ | getStorageNode _ | listUnderReplicatedChunks _
        | addChunkReplica _ _ _ _ => exact hcall.elim
      · rw [hmemory.chunks]
        cases heffect with
        | refused _ | listStorageNodes _ | putObject _ _ | updateObjectChecksum _ _ _ =>
            exact hchunk
        | @allocateChunk name checksum fresh node hfresh hnode =>
            have hne : id ≠ fresh := by
              rintro rfl
              cases hchunk.symm.trans hfresh
            exact (HashMap.getElem?_insert_of_ne _ _ hne).trans hchunk
        | @confirmChunk checksum confirmed nodeId name object hname hnode hid =>
            have hne : id ≠ confirmed := by
              rintro rfl
              cases hstatus.symm.trans (hid chunk hchunk)
            exact (HashMap.getElem?_insert_of_ne _ _ hne).trans hchunk
        | lookupObject _ | resolveObject _ | deleteChunk _ _ | deleteOrphan _ _ _
        | deleteObject _ | getStorageNode _ | listUnderReplicatedChunks _
        | addChunkReplica _ _ _ _ => exact hcall.elim
  | storageNode address call =>
      cases call with
      | getChunkSize => exact Kept.of_same (h.reads trivial)
      | writeChunk id bytes =>
          have hother : ∀ request, Call.storageNode address (.writeChunk id bytes) ≠
              .metadata request := by
            intro request heq
            cases heq
          have hmetadata := h.metadata_eq hother
          rcases h.writeChunk_dataAt hfaults with ⟨hfree, hdata⟩
          refine ⟨fun place other found hfound => ?_, by rw [hmetadata], fun _ _ hchunk _ => ?_⟩
          · rw [hdata place other]
            split
            · rename_i hsame
              rcases hsame with ⟨hok, rfl, rfl⟩
              cases hfound.symm.trans (hfree hok)
            · exact hfound
          · rw [hmetadata]
            exact hchunk
      | readChunk _ | deleteChunk _ | getFreeChunks => exact hcall.elim
  | connect _ | cachedConnection _ | connectCached _ =>
      exact Kept.of_same (h.reads trivial)
  | choose _ | turn => exact hcall.elim

/-! ## Promises to the readers -/

/-- The upload tries to delete the object. -/
def isRollback (name : String) : Event → Bool
  | ⟨.metadata (.deleteObject other), _⟩ => decide (other = name)
  | _ => false

/-- The record of the object has been deleted again. -/
def RolledBack (name : String) (log : Log) : Prop := log.any (isRollback name) = true

theorem rolledBack_append {log : Log} {event : Event} :
    RolledBack name (log ++ [event]) ↔ RolledBack name log ∨ isRollback name event = true := by
  simp [RolledBack]

/-- The chunk is held, or it is gone for good. -/
def Known (name : String) (st : Services × Log) (id : UInt64) (bytes : Bytes) : Prop :=
  Held st.1 id bytes ∨
    RolledBack name st.2 ∧ st.1.metadata.metadataStore.chunks[id]? = none

/-- What readers know they go on to know. -/
structure Extends (name : String) (st st' : Services × Log) : Prop where
  data : ∀ address id bytes, st.1.dataAt address id = some bytes →
    st'.1.dataAt address id = some bytes
  storageNodes : st'.1.metadata.metadataStore.storageNodes =
    st.1.metadata.metadataStore.storageNodes
  known : ∀ id bytes, Known name st id bytes → Known name st' id bytes

theorem Extends.refl (st : Services × Log) : Extends name st st :=
  ⟨fun _ _ _ h => h, rfl, fun _ _ h => h⟩

/-- Extensions follow one another. -/
theorem Extends.trans {st st' st'' : Services × Log} (h : Extends name st st')
    (h' : Extends name st' st'') : Extends name st st'' where
  data address id bytes hdata := h'.data _ _ _ (h.data address id bytes hdata)
  storageNodes := h'.storageNodes.trans h.storageNodes
  known id bytes hknown := h'.known id bytes (h.known id bytes hknown)

theorem Extends.of_kept {st st' : Services × Log} (h : Kept st.1 st'.1)
    (hlog : ¬ RolledBack name st.2) : Extends name st st' where
  data := h.data
  storageNodes := h.storageNodes
  known id bytes hknown := by
    rcases hknown with hheld | ⟨hrolled, _⟩
    · exact .inl (h.held hheld)
    · exact absurd hrolled hlog

theorem Extends.of_same {st st' : Services × Log} (h : SameServices st.1 st'.1)
    (hlog : st'.2 = st.2) : Extends name st st' where
  data := (Kept.of_same h).data
  storageNodes := h.memory.storageNodes
  known id bytes hknown := by
    rcases hknown with hheld | ⟨hrolled, hnone⟩
    · exact .inl ((Kept.of_same h).held hheld)
    · refine .inr ⟨by rwa [hlog], ?_⟩
      rw [h.memory.chunks]
      exact hnone

/-- The chunks that a stored object lists are held, and they are the first pieces of the
body. -/
def Consistent (chunkSize : Nat) (name : String) (body : Option Bytes) (s : Services) : Prop :=
  ∀ object : MetaObject, s.metadata.metadataStore.objects[name]? = some object →
    ∃ pieces, List.Forall₂ (Held s) object.chunks pieces ∧
      ∀ bytes, body = some bytes → Pieces chunkSize bytes pieces

/-- What an upload promises about each of its calls. -/
def Promise (chunkSize : Nat) (name : String) (body : Option Bytes) (st st' : Services × Log) :
    Prop :=
  Consistent chunkSize name body st.1 →
    Consistent chunkSize name body st'.1 ∧ Extends name st st'

/-- What readers do. -/
def Reading (st st' : Services × Log) : Prop :=
  SameServices st.1 st'.1 ∧ st'.2 = st.2

/-- The chunks that are listed for the name. -/
def listed (s : Services) (name : String) : Option (List UInt64) :=
  (s.metadata.metadataStore.objects[name]?).map (·.chunks)

variable {chunkSize : Nat} {body : Option Bytes}
  {nodes : HashMap UInt64 StorageMetadata.MetaStorageNode}

/-- An object that is listed as before stays consistent. -/
theorem Consistent.kept {s s' : Services} (h : Consistent chunkSize name body s)
    (hkept : Kept s s') (hlisted : listed s' name = listed s name) :
    Consistent chunkSize name body s' := by
  intro object hobject
  unfold listed at hlisted
  rw [hobject] at hlisted
  rcases Option.map_eq_some_iff.mp hlisted.symm with ⟨found, hfound, hchunks⟩
  have hchunks : found.chunks = object.chunks := hchunks
  rcases h found hfound with ⟨pieces, hpieces, hbody⟩
  refine ⟨pieces, ?_, hbody⟩
  rw [← hchunks]
  exact hpieces.imp fun _ _ hheld => hkept.held hheld

theorem promise_refl (st : Services × Log) : Promise chunkSize name body st st :=
  fun h => ⟨h, .refl st⟩

/-- Promises follow one another. -/
theorem promise_trans (st st' st'' : Services × Log) (h : Promise chunkSize name body st st')
    (h' : Promise chunkSize name body st' st'') : Promise chunkSize name body st st'' := by
  intro hconsistent
  rcases h hconsistent with ⟨hconsistent', hextends⟩
  rcases h' hconsistent' with ⟨hconsistent'', hextends'⟩
  exact ⟨hconsistent'', hextends.trans hextends'⟩

/-- What is kept is promised. -/
theorem promise_of_kept {st st' : Services × Log} (hkept : Kept st.1 st'.1)
    (hlog : ¬ RolledBack name st.2) (hlisted : listed st'.1 name = listed st.1 name) :
    Promise chunkSize name body st st' :=
  fun h => ⟨h.kept hkept hlisted, .of_kept hkept hlog⟩

/-- Readers change nothing. -/
theorem promise_of_reading {st st' : Services × Log} (h : Reading st st') :
    Promise chunkSize name body st st' := by
  intro hconsistent
  refine ⟨hconsistent.kept (.of_same h.1) ?_, .of_same h.1 h.2⟩
  rw [listed, listed, h.1.memory.objects]

/-! ## The state of an upload -/

/-- The object lists chunks with these contents. -/
structure Storing (nodes : HashMap UInt64 StorageMetadata.MetaStorageNode) (name : String)
    (pieces : List Bytes) (st : Services × Log) : Prop where
  fresh : ¬ RolledBack name st.2
  registry : st.1.metadata.metadataStore.storageNodes = nodes
  chunks : ∃ ids, listed st.1 name = some ids ∧ List.Forall₂ (Held st.1) ids pieces

/-- The calls that leave the chunk list alone. -/
def Neutral : Call → Prop
  | .metadata (.putObject _ _) | .metadata (.confirmChunk _ _ _ _) => False
  | call => Uploads call

theorem Neutral.uploads {call : Call} (h : Neutral call) : Uploads call := by
  cases call with
  | metadata call =>
      cases call with
      | putObject _ _ | confirmChunk _ _ _ _ => exact h.elim
      | _ => exact h
  | _ => exact h

/-- Neutral calls leave the list of the object's chunks alone. -/
theorem neutral_listed {s s' : Services} {call : Call} {reply : call.Reply}
    (hfaults : faults ≠ .any) (hcall : Neutral call) (h : Step env faults s call reply s') :
    listed s' name = listed s name := by
  unfold listed
  cases call with
  | metadata call =>
      rcases h.metadata_effect hfaults with ⟨_, _, m, heffect, hmemory⟩
      rw [hmemory.objects]
      cases heffect with
      | refused _ | listStorageNodes _ | allocateChunk _ _ _ _ => rfl
      | @updateObjectChecksum checksum totalSize other object hobject =>
          by_cases hother : name = other
          · subst hother
            have hsame : ∀ object' : MetaObject, (s.metadata.metadataStore.withObject name
                object').objects[name]? = some object' := fun _ =>
              Std.ExtTreeMap.getElem?_insert_self
            rw [hsame, hobject]
            rfl
          · have hstays : ∀ object' : MetaObject, (s.metadata.metadataStore.withObject other
                object').objects[name]? = s.metadata.metadataStore.objects[name]? := fun _ =>
              HashMap.getElem?_insert_of_ne _ _ hother
            rw [hstays]
      | putObject _ _ | confirmChunk _ _ _ _ | lookupObject _ | resolveObject _ | deleteChunk _ _
      | deleteOrphan _ _ _ | deleteObject _ | getStorageNode _ | listUnderReplicatedChunks _
      | addChunkReplica _ _ _ _ => exact hcall.elim
  | storageNode address call =>
      rw [(h.storageNode_effect hfaults).1]
  | connect _ | cachedConnection _ | connectCached _ =>
      rw [(h.reads trivial).memory.objects]
  | choose _ | turn => exact hcall.elim

theorem neutral_isRollback {call : Call} {reply : call.Reply} (hcall : Uploads call) :
    isRollback name ⟨call, reply⟩ = false := by
  cases call with
  | metadata call =>
      cases call with
      | deleteObject _ => exact hcall.elim
      | _ => rfl
  | _ => rfl

/-- A call that leaves the chunk list alone. -/
theorem Storing.neutral {pieces : List Bytes} {st st' : Services × Log} {call : Call}
    {reply : call.Reply} (h : Storing nodes name pieces st) (hfaults : faults ≠ .any)
    (hstep : Library.Logged (Step env faults) st call reply st') (hcall : Neutral call) :
    Promise chunkSize name body st st' ∧ Storing nodes name pieces st' := by
  have hkept := uploads_kept hstep.1 hfaults hcall.uploads
  have hlisted : listed st'.1 name = listed st.1 name := neutral_listed hfaults hcall hstep.1
  refine ⟨promise_of_kept hkept h.fresh hlisted, ?_, ?_, ?_⟩
  · rw [hstep.2, rolledBack_append, neutral_isRollback hcall.uploads]
    simpa using h.fresh
  · exact hkept.storageNodes.trans h.registry
  · rcases h.chunks with ⟨ids, hids, hpieces⟩
    exact ⟨ids, hlisted.trans hids, hpieces.imp fun _ _ hheld => hkept.held hheld⟩

/-- Others only read. -/
theorem Storing.reading {pieces : List Bytes} {st st' : Services × Log}
    (h : Storing nodes name pieces st) (hreading : Reading st st') :
    Storing nodes name pieces st' := by
  have hkept := Kept.of_same hreading.1
  constructor
  · rw [hreading.2]
    exact h.fresh
  · exact hkept.storageNodes.trans h.registry
  · rcases h.chunks with ⟨ids, hids, hpieces⟩
    refine ⟨ids, ?_, hpieces.imp fun _ _ hheld => hkept.held hheld⟩
    rw [listed, hreading.1.memory.objects]
    exact hids

/-! ## Creation, confirmation and rollback -/

/-- The object is not there yet. -/
structure Idle (nodes : HashMap UInt64 StorageMetadata.MetaStorageNode) (name : String)
    (st : Services × Log) : Prop where
  fresh : ¬ RolledBack name st.2
  registry : st.1.metadata.metadataStore.storageNodes = nodes
  absent : listed st.1 name = none

/-- Neutral calls before the creation leave the upload idle. -/
theorem Idle.neutral {st st' : Services × Log} {call : Call} {reply : call.Reply}
    (h : Idle nodes name st) (hfaults : faults ≠ .any)
    (hstep : Library.Logged (Step env faults) st call reply st') (hcall : Neutral call) :
    Promise chunkSize name body st st' ∧ Idle nodes name st' := by
  have hkept := uploads_kept hstep.1 hfaults hcall.uploads
  have hlisted : listed st'.1 name = listed st.1 name := neutral_listed hfaults hcall hstep.1
  refine ⟨promise_of_kept hkept h.fresh hlisted, ?_, ?_, hlisted.trans h.absent⟩
  · rw [hstep.2, rolledBack_append, neutral_isRollback hcall.uploads]
    simpa using h.fresh
  · exact hkept.storageNodes.trans h.registry

/-- Readers leave the upload idle. -/
theorem Idle.reading {st st' : Services × Log} (h : Idle nodes name st)
    (hreading : Reading st st') :
    Idle nodes name st' := by
  constructor
  · rw [hreading.2]
    exact h.fresh
  · exact hreading.1.memory.storageNodes.trans h.registry
  · rw [listed, hreading.1.memory.objects]
    exact h.absent

/-- Nothing is listed for a name that is not used. -/
theorem listed_eq_none_iff {s : Services} : listed s name = none ↔ ¬ s.Has name := by
  simp [listed, Services.Has]

/-- The first pieces of any body are none. -/
theorem pieces_nil (bytes : Bytes) : Pieces chunkSize bytes [] :=
  ⟨bytes, rfl, .inr nofun⟩

/-- The creation lists the object without chunks. -/
theorem Idle.putObject {st st' : Services × Log} {checksum : UInt32} {reply : Except Status Unit}
    (h : Idle nodes name st) (hfaults : faults ≠ .any)
    (hstep : Library.Logged (Step env faults) st (.metadata (.putObject checksum name)) reply st') :
    Promise chunkSize name body st st' ∧
      match reply with
      | .error _ => Idle nodes name st'
      | .ok () => Storing nodes name [] st' := by
  have hkept := uploads_kept hstep.1 hfaults trivial
  have hfresh : ¬ RolledBack name st'.2 := by
    rw [hstep.2, rolledBack_append]
    simpa [isRollback] using h.fresh
  have hregistry := hkept.storageNodes.trans h.registry
  rcases hstep.1.metadata_effect hfaults with ⟨_, _, m, heffect, hmemory⟩
  cases heffect with
  | refused status =>
      have hlisted : listed st'.1 name = listed st.1 name := by rw [listed, hmemory.objects, listed]
      exact ⟨promise_of_kept hkept h.fresh hlisted, hfresh, hregistry, hlisted.trans h.absent⟩
  | putObject _ hname =>
      have hobject : st'.1.metadata.metadataStore.objects[name]? = some (.new name checksum) := by
        rw [hmemory.objects]
        exact Std.ExtTreeMap.getElem?_insert_self
      refine ⟨fun hconsistent => ⟨fun object hfound => ?_, .of_kept hkept h.fresh⟩,
        hfresh, hregistry, [], by rw [listed, hobject]; rfl, .nil⟩
      cases hobject.symm.trans hfound
      exact ⟨[], .nil, fun bytes _ => pieces_nil bytes⟩

/-- A confirmed chunk extends the content. -/
theorem Storing.confirm {pieces : List Bytes} {piece : Bytes} {st st' : Services × Log}
    {id nodeId : UInt64} {checksum : UInt32} {node : StorageMetadata.MetaStorageNode}
    {reply : Except Status Unit} (h : Storing nodes name pieces st) (hfaults : faults ≠ .any)
    (hnode : nodes[nodeId]? = some node) (hdata : st.1.dataAt node.address id = some piece)
    (hpieces : ∀ bytes, body = some bytes → Pieces chunkSize bytes (pieces ++ [piece]))
    (hstep : Library.Logged (Step env faults) st
      (.metadata (.confirmChunk id name checksum nodeId)) reply st') :
    Promise chunkSize name body st st' ∧
      match reply with
      | .error _ => Storing nodes name pieces st'
      | .ok () => Storing nodes name (pieces ++ [piece]) st' := by
  have hkept := uploads_kept hstep.1 hfaults trivial
  have hfresh : ¬ RolledBack name st'.2 := by
    rw [hstep.2, rolledBack_append]
    simpa [isRollback] using h.fresh
  have hregistry := hkept.storageNodes.trans h.registry
  rcases h.chunks with ⟨ids, hids, hheld⟩
  have hheld := hheld.imp fun _ _ hheld => hkept.held hheld
  rcases hstep.1.metadata_effect hfaults with ⟨_, _, m, heffect, hmemory⟩
  cases heffect with
  | refused status =>
      have hlisted : listed st'.1 name = listed st.1 name := by rw [listed, hmemory.objects, listed]
      exact ⟨promise_of_kept hkept h.fresh hlisted, hfresh, hregistry, ids,
        hlisted.trans hids, hheld⟩
  | @confirmChunk _ _ _ _ object hname _ _ =>
      have hobject : st'.1.metadata.metadataStore.objects[name]? = some (object.addChunk id) := by
        rw [hmemory.objects]
        exact Std.ExtTreeMap.getElem?_insert_self
      have hchunks : object.chunks = ids := by
        rw [listed, hname] at hids
        cases hids
        rfl
      have hchunk : st'.1.metadata.metadataStore.chunks[id]? =
          some ((StorageMetadata.MetaChunk.new id checksum name).addStorageNode nodeId) := by
        rw [hmemory.chunks]
        exact Std.ExtTreeMap.getElem?_insert_self
      have hnew : Held st'.1 id piece := by
        refine ⟨_, nodeId, node, hchunk, rfl, rfl, rfl, ?_, hkept.data _ _ _ hdata⟩
        rw [hregistry]
        exact hnode
      have hextended :
          List.Forall₂ (Held st'.1) (object.addChunk id).chunks (pieces ++ [piece]) := by
        change List.Forall₂ _ (object.chunks ++ [id]) _
        rw [hchunks]
        exact List.rel_append hheld (.cons hnew .nil)
      refine ⟨fun _ => ⟨fun found hfound => ?_, .of_kept hkept h.fresh⟩, hfresh, hregistry, _,
        by rw [listed, hobject]; rfl, hextended⟩
      cases hobject.symm.trans hfound
      exact ⟨_, hextended, hpieces⟩

/-- The rollback, whatever comes of it. -/
theorem Storing.rollback {pieces : List Bytes} {st st' : Services × Log}
    {reply : Except Status Unit} (h : Storing nodes name pieces st) (hfaults : faults ≠ .any)
    (hstep : Library.Logged (Step env faults) st (.metadata (.deleteObject name)) reply st') :
    Promise chunkSize name body st st' := by
  intro hconsistent
  rcases hstep.1.metadata_effect hfaults with ⟨hnodes, _, m, heffect, hmemory⟩
  have hrolled : RolledBack name st'.2 := by
    rw [hstep.2, rolledBack_append]
    exact .inr (decide_eq_true rfl)
  cases heffect with
  | refused status =>
      have hsame : SameServices st.1 st'.1 := ⟨hmemory, hnodes⟩
      have hlisted : listed st'.1 name = listed st.1 name := by rw [listed, hmemory.objects, listed]
      exact ⟨hconsistent.kept (.of_same hsame) hlisted, .of_kept (.of_same hsame) h.fresh⟩
  | @deleteObject _ object hname =>
      have hdata : ∀ address id, st'.1.dataAt address id = st.1.dataAt address id := by
        intro address id
        rw [Services.dataAt, hnodes, Services.dataAt]
      refine ⟨fun found hfound => ?_, fun address id bytes hbytes => (hdata _ _).trans hbytes,
        hmemory.storageNodes, fun id bytes hknown => ?_⟩
      · rw [hmemory.objects] at hfound
        simp [MetadataStore.withoutObject] at hfound
      · have hchunk : st'.1.metadata.metadataStore.chunks[id]? =
            if id ∈ object.chunks then none else st.1.metadata.metadataStore.chunks[id]? := by
          rw [hmemory.chunks]
          exact HashMap.getElem?_foldl_erase _ _ _
        rcases hknown with hheld | ⟨hbefore, _⟩
        · by_cases hid : id ∈ object.chunks
          · rw [if_pos hid] at hchunk
            exact .inr ⟨hrolled, hchunk⟩
          · rw [if_neg hid] at hchunk
            rcases hheld with ⟨chunk, nodeId, node, hfound, hkey, hstatus, hnodes', hnode, hbytes⟩
            refine .inl ⟨chunk, nodeId, node, hchunk.trans hfound, hkey, hstatus, hnodes', ?_,
              (hdata _ _).trans hbytes⟩
            rw [hmemory.storageNodes]
            exact hnode
        · exact absurd hbefore h.fresh

/-! ## The handlers -/

/-- The steps of an upload. -/
abbrev UploadStep (env : Environment) (faults : Faults) :
    Library.Step (Services × Log) Call Call.Reply :=
  Library.Logged (Step env faults)

/-- A rollback may take the object away again. -/
theorem Storing.rollback_guarantees {α : Type} {pieces : List Bytes} {st : Services × Log}
    (h : Storing nodes name pieces st) (hfaults : faults ≠ .any) (error : StatusCode × String) :
    (ApiGateway.rollback name error : Deployment.Program (HttpResult α)).Guarantees
      (UploadStep env faults) Reading (Promise chunkSize name body) (fun _ _ => True) st := by
  intro st₁ hst₁ reply st₂ hstep
  exact ⟨(h.reading hst₁).rollback hfaults hstep, fun _ _ => trivial⟩

/-- Calls that leave the chunk list alone. -/
theorem Storing.guarantees {α : Type} {pieces : List Bytes} {st : Services × Log}
    (h : Storing nodes name pieces st) (hfaults : faults ≠ .any) {program : Deployment.Program α}
    (honly : program.Only Neutral) :
    program.Guarantees (UploadStep env faults) Reading (Promise chunkSize name body)
      (fun _ st' => Storing nodes name pieces st') st := by
  induction program generalizing st with
  | done value => exact fun st' hst' => h.reading hst'
  | call request next ih =>
      intro st₁ hst₁ reply st₂ hstep
      rcases (h.reading hst₁).neutral hfaults hstep honly.1 with ⟨hpromise, hst₂⟩
      exact ⟨hpromise, ih reply hst₂ (honly.2 reply)⟩

theorem getOrConnect_neutral (address : String) : (getOrConnect address).Only Neutral := by
  refine ⟨trivial, fun cached => ?_⟩
  change Bool at cached
  cases cached with
  | true => trivial
  | false =>
      refine ⟨trivial, fun connected => ?_⟩
      change Except String Unit at connected
      cases connected <;> trivial

/-- An allocated chunk belongs on a registered node. -/
theorem Storing.allocate {pieces : List Bytes} {st st' : Services × Log} {checksum : UInt32}
    {reply : Except Status StorageMetadata.Proto.AllocateChunkResponse}
    (h : Storing nodes name pieces st) (hkeyed : RegistryKeyed nodes) (hfaults : faults ≠ .any)
    (hstep : UploadStep env faults st (.metadata (.allocateChunk name checksum)) reply st') :
    Promise chunkSize name body st st' ∧ Storing nodes name pieces st' ∧
      ∀ alloc, reply = .ok alloc → ∃ node, nodes[alloc.storageNodeId]? = some node ∧
        node.address = alloc.storageNodeAddress := by
  rcases h.neutral hfaults hstep trivial with ⟨hpromise, hst'⟩
  refine ⟨hpromise, hst', ?_⟩
  rintro alloc rfl
  rcases hstep.1.metadata_effect hfaults with ⟨_, _, m, heffect, _⟩
  cases heffect with
  | @allocateChunk _ _ id node _ hnode =>
      rcases HashMap.mem_valueList.mp hnode with ⟨key, hkey⟩
      rw [h.registry] at hkey
      refine ⟨node, ?_, rfl⟩
      rw [hkeyed key node hkey]
      exact hkey

/-- The data of a chunk is there before the object lists it. -/
theorem Storing.write {pieces : List Bytes} {piece : Bytes} {st st' : Services × Log}
    {address : String} {id : UInt64} {reply : Except Status UInt64}
    (h : Storing nodes name pieces st) (hfaults : faults ≠ .any)
    (hstep : UploadStep env faults st (.storageNode address (.writeChunk id piece)) reply st') :
    Promise chunkSize name body st st' ∧ Storing nodes name pieces st' ∧
      (reply.isOk → st'.1.dataAt address id = some piece) := by
  rcases h.neutral hfaults hstep trivial with ⟨hpromise, hst'⟩
  refine ⟨hpromise, hst', fun hok => ?_⟩
  rw [(hstep.1.writeChunk_dataAt hfaults).2 address id, if_pos ⟨hok, rfl, rfl⟩]

/-- The first pieces of the body together with what comes next. -/
theorem pieces_concat {bytes piece rest : Bytes} {pieces : List Bytes}
    (hbytes : pieces.flatten ++ (piece ++ rest) = bytes)
    (hfull : ∀ other ∈ pieces, other.length = chunkSize)
    (hpiece : rest = [] ∨ piece.length = chunkSize) :
    Pieces chunkSize bytes (pieces ++ [piece]) := by
  refine ⟨rest, by simpa using hbytes, hpiece.imp id fun hlength other hother => ?_⟩
  rcases List.mem_append.mp hother with hother | hother
  · exact hfull other hother
  · rw [List.mem_singleton.mp hother]
    exact hlength

/-- A stored chunk is visible to readers from its confirmation on. -/
theorem storeChunk_guarantees (lib : Library) (hkeyed : RegistryKeyed nodes)
    (hfaults : faults ≠ .any) {chunk : Bytes} {pieces : List Bytes} {st : Services × Log}
    (h : Storing nodes name pieces st)
    (hpieces : ∀ bytes, body = some bytes → Pieces chunkSize bytes (pieces ++ [chunk])) :
    (storeChunk lib name chunk).Guarantees (UploadStep env faults) Reading
      (Promise chunkSize name body)
      (fun result st' => match result with
        | .error _ => Storing nodes name pieces st'
        | .ok () => Storing nodes name (pieces ++ [chunk]) st') st := by
  unfold storeChunk
  intro st₁ hst₁ allocated st₂ hallocated
  rcases (h.reading hst₁).allocate hkeyed hfaults hallocated with ⟨hpromise, h₂, hnode⟩
  refine ⟨hpromise, ?_⟩
  change Except Status StorageMetadata.Proto.AllocateChunkResponse at allocated
  cases allocated with
  | error status => exact fun st' hst' => h₂.reading hst'
  | ok alloc =>
      rcases hnode alloc rfl with ⟨node, hnode, haddress⟩
      change ((getOrConnect alloc.storageNodeAddress) >>= _).Guarantees _ _ _ _ _
      refine .of_bind (fun _ => ⟨.refl _, rfl⟩) ((h₂.guarantees hfaults
        (getOrConnect_neutral _)).mono fun connected st₃ h₃ => ?_)
      split
      · exact fun st' hst' => h₃.reading hst'
      · intro st₄ hst₄ written st₅ hwritten
        rcases (h₃.reading hst₄).write hfaults hwritten with ⟨hpromise, h₅, hdata⟩
        refine ⟨hpromise, ?_⟩
        change Except Status UInt64 at written
        cases written with
        | error status => exact fun st' hst' => h₅.reading hst'
        | ok chunkId =>
            intro st₆ hst₆ confirmed st₇ hconfirmed
            have hdata : st₆.1.dataAt node.address alloc.chunkId = some chunk := by
              rw [hst₆.1.dataAt, haddress]
              exact hdata rfl
            rcases (h₅.reading hst₆).confirm hfaults hnode hdata hpieces hconfirmed with
              ⟨hpromise, h₇⟩
            refine ⟨hpromise, ?_⟩
            change Except Status Unit at confirmed
            cases confirmed with
            | error status => exact fun st' hst' => Storing.reading h₇ hst'
            | ok value => exact fun st' hst' => Storing.reading h₇ hst'

/-- A chunk that cannot be stored ends the upload. -/
theorem Storing.leave_guarantees {pieces : List Bytes} {st : Services × Log}
    (h : Storing nodes name pieces st) (hfaults : faults ≠ .any) (lib : Library)
    (error : ChunkError) :
    (error.leave lib name).Guarantees (UploadStep env faults) Reading
      (Promise chunkSize name body) (fun _ _ => True) st := by
  cases error with
  | connect error => exact fun _ _ => trivial
  | allocate _ | write _ _ | confirm _ _ => exact h.rollback_guarantees hfaults _

/-- The loop of the JSON handler on the rest of the body. -/
theorem putChunks_guarantees (lib : Library) (hkeyed : RegistryKeyed nodes)
    (hfaults : faults ≠ .any) (fuel : Nat) {rest : Bytes} {pieces : List Bytes}
    {st : Services × Log} (h : Storing nodes name pieces st)
    (hbody : ∀ bytes, body = some bytes → pieces.flatten ++ rest = bytes)
    (hfull : rest = [] ∨ ∀ piece ∈ pieces, piece.length = chunkSize) :
    (putChunks lib name (chunksFrom chunkSize fuel rest)).Guarantees (UploadStep env faults)
      Reading (Promise chunkSize name body) (fun _ _ => True) st := by
  induction fuel generalizing rest pieces st with
  | zero =>
      cases rest with
      | nil => exact fun _ _ => trivial
      | cons byte rest => exact fun _ _ => trivial
  | succ fuel ih =>
      cases hrest : rest with
      | nil => exact fun _ _ => trivial
      | cons byte bytes =>
          rw [← hrest]
          have hfull : ∀ piece ∈ pieces, piece.length = chunkSize :=
            hfull.resolve_left (by rw [hrest]; exact nofun)
          have hchunks : chunksFrom chunkSize (fuel + 1) rest =
              rest.take chunkSize :: chunksFrom chunkSize fuel (rest.drop chunkSize) := by
            rw [hrest]
            rfl
          rw [hchunks]
          rw [putChunks_cons]
          have hlast : rest.drop chunkSize = [] ∨ (rest.take chunkSize).length = chunkSize := by
            rw [List.drop_eq_nil_iff, List.length_take]
            omega
          have hbody : ∀ bytes, body = some bytes →
              pieces.flatten ++ (rest.take chunkSize ++ rest.drop chunkSize) = bytes := by
            rw [List.take_append_drop]
            exact hbody
          have hpieces : ∀ bytes, body = some bytes →
              Pieces chunkSize bytes (pieces ++ [rest.take chunkSize]) :=
            fun bytes hbytes => pieces_concat (hbody bytes hbytes) hfull hlast
          refine .of_bind (fun _ => ⟨.refl _, rfl⟩)
            ((storeChunk_guarantees lib hkeyed hfaults h hpieces).mono ?_)
          intro stored st' hstored
          cases stored with
          | error error => exact Storing.leave_guarantees hstored hfaults lib error
          | ok value =>
              refine ih hstored ?_ ?_
              · simpa using hbody
              · refine hlast.imp id fun hlength piece hpiece => ?_
                rcases List.mem_append.mp hpiece with hpiece | hpiece
                · exact hfull piece hpiece
                · rw [List.mem_singleton.mp hpiece]
                  exact hlength

/-- The object is still there with some content. -/
def Partial (nodes : HashMap UInt64 StorageMetadata.MetaStorageNode) (name : String)
    (st : Services × Log) : Prop :=
  ∃ pieces, Storing nodes name pieces st

/-- A flush adds one chunk to the list, with its data in place. -/
theorem flushChunkToStorage_guarantees (lib : Library) (hkeyed : RegistryKeyed nodes)
    (hfaults : faults ≠ .any) {buf : Bytes} {pieces : List Bytes} {st : Services × Log}
    (h : Storing nodes name pieces st)
    (hpieces : ∀ bytes, body = some bytes → Pieces chunkSize bytes (pieces ++ [buf])) :
    (flushChunkToStorage lib buf name).Guarantees (UploadStep env faults) Reading
      (Promise chunkSize name body)
      (fun result st' => match result with
        | .error _ => Partial nodes name st'
        | .ok () => Storing nodes name (pieces ++ [buf]) st') st := by
  rw [flushChunkToStorage_eq]
  refine .of_bind (fun _ => ⟨.refl _, rfl⟩)
    ((storeChunk_guarantees lib hkeyed hfaults h hpieces).mono ?_)
  intro stored st' hstored
  cases stored with
  | error error => exact fun st'' hst'' => ⟨pieces, Storing.reading hstored hst''⟩
  | ok value => exact fun st'' hst'' => Storing.reading hstored hst''

/-- The content so far consists of whole chunks. -/
structure Flushed (nodes : HashMap UInt64 StorageMetadata.MetaStorageNode) (chunkSize : Nat)
    (name : String) (pieces : List Bytes) (st : Services × Log) : Prop
    extends Storing nodes name pieces st where
  full : ∀ piece ∈ pieces, piece.length = chunkSize

/-- Full chunks are added in order. -/
theorem flushFull_guarantees (lib : Library) (hkeyed : RegistryKeyed nodes)
    (hfaults : faults ≠ .any) (fuel : Nat) {buffer : Bytes} {pieces : List Bytes}
    {st : Services × Log} (h : Flushed nodes chunkSize name pieces st)
    (hbody : ∀ bytes, body = some bytes → ∃ rest, pieces.flatten ++ (buffer ++ rest) = bytes) :
    (flushFull lib name chunkSize fuel buffer).Guarantees (UploadStep env faults) Reading
      (Promise chunkSize name body)
      (fun result st' => match result with
        | .error _ => Partial nodes name st'
        | .ok buffer' => ∃ pieces', Flushed nodes chunkSize name pieces' st' ∧
            pieces'.flatten ++ buffer' = pieces.flatten ++ buffer) st := by
  induction fuel generalizing buffer pieces st with
  | zero => exact fun st' hst' => ⟨pieces, ⟨h.reading hst', h.full⟩, rfl⟩
  | succ fuel ih =>
      unfold flushFull
      split
      · rename_i hsize
        have hlength : (buffer.take chunkSize).length = chunkSize := by
          rw [List.length_take]
          omega
        have hpieces : ∀ bytes, body = some bytes →
            Pieces chunkSize bytes (pieces ++ [buffer.take chunkSize]) := by
          intro bytes hbytes
          rcases hbody bytes hbytes with ⟨rest, hrest⟩
          have hwhole : pieces.flatten ++ (buffer.take chunkSize ++
              (buffer.drop chunkSize ++ rest)) = bytes := by
            rw [← List.append_assoc (buffer.take chunkSize), List.take_append_drop]
            exact hrest
          exact pieces_concat hwhole h.full (.inr hlength)
        refine .of_bind (fun _ => ⟨.refl _, rfl⟩) ((flushChunkToStorage_guarantees lib hkeyed
          hfaults h.toStoring hpieces).mono fun flushed st₁ h₁ => ?_)
        split
        · intro st' hst'
          rcases h₁ with ⟨pieces', h₁⟩
          exact ⟨pieces', h₁.reading hst'⟩
        · have hnext : (pieces ++ [buffer.take chunkSize]).flatten ++ buffer.drop chunkSize =
              pieces.flatten ++ buffer := by
            simp
          rw [← hnext]
          refine ih ⟨h₁, fun piece hpiece => ?_⟩ fun bytes hbytes => ?_
          · rcases List.mem_append.mp hpiece with hpiece | hpiece
            · exact h.full piece hpiece
            · rw [List.mem_singleton.mp hpiece]
              exact hlength
          · rcases hbody bytes hbytes with ⟨rest, hrest⟩
            refine ⟨rest, ?_⟩
            rw [← List.append_assoc, hnext, List.append_assoc]
            exact hrest
      · exact fun st' hst' => ⟨pieces, ⟨h.reading hst', h.full⟩, rfl⟩

/-- The fragments are added in order, as far as they are flushed. -/
theorem streamField_guarantees (lib : Library) (hkeyed : RegistryKeyed nodes)
    (hfaults : faults ≠ .any) (reads : List (Except String Bytes)) {buffer received : Bytes}
    {pieces : List Bytes} {st : Services × Log} (h : Flushed nodes chunkSize name pieces st)
    (hreceived : pieces.flatten ++ buffer = received)
    (hbody : ∀ bytes, body = some bytes →
      ∃ rest, wholeField reads = some rest ∧ received ++ rest = bytes) :
    (streamField lib name chunkSize buffer received reads).Guarantees (UploadStep env faults)
      Reading (Promise chunkSize name body)
      (fun result st' => match result with
        | .error _ => Partial nodes name st'
        | .ok (buffer', received') => ∃ pieces', Flushed nodes chunkSize name pieces' st' ∧
            pieces'.flatten ++ buffer' = received' ∧
              ∀ bytes, body = some bytes → received' = bytes) st := by
  induction reads generalizing buffer received pieces st with
  | nil =>
      refine fun st' hst' => ⟨pieces, ⟨h.reading hst', h.full⟩, hreceived, fun bytes hbytes => ?_⟩
      rcases hbody bytes hbytes with ⟨rest, hrest, rfl⟩
      cases hrest
      rw [List.append_nil]
  | cons read reads ih =>
      cases read with
      | error err => exact fun st' hst' => ⟨pieces, h.reading hst'⟩
      | ok chunkData =>
          have hbody' : ∀ bytes, body = some bytes → ∃ rest, wholeField reads = some rest ∧
              received ++ chunkData ++ rest = bytes := by
            intro bytes hbytes
            rcases hbody bytes hbytes with ⟨rest, hrest, rfl⟩
            rcases Option.map_eq_some_iff.mp hrest with ⟨found, hfound, rfl⟩
            exact ⟨found, hfound, List.append_assoc _ _ _⟩
          unfold streamField
          dsimp only
          split
          · exact fun st' hst' => ⟨pieces, h.reading hst'⟩
          · refine .of_bind (fun _ => ⟨.refl _, rfl⟩) ((flushFull_guarantees lib hkeyed hfaults _ h
              ?_).mono fun flushed st₁ h₁ => ?_)
            · intro bytes hbytes
              rcases hbody' bytes hbytes with ⟨rest, _, hrest⟩
              refine ⟨rest, ?_⟩
              rw [← hreceived] at hrest
              simpa using hrest
            · split
              · intro st' hst'
                rcases h₁ with ⟨pieces', h₁⟩
                exact ⟨pieces', h₁.reading hst'⟩
              · rcases h₁ with ⟨pieces', h₁, hflushed⟩
                refine ih h₁ ?_ hbody'
                rw [hflushed, ← hreceived, List.append_assoc]

/-- The rest of the body is added last. -/
theorem flushRest_guarantees (lib : Library) (hkeyed : RegistryKeyed nodes)
    (hfaults : faults ≠ .any) {buffer : Bytes} {pieces : List Bytes} {st : Services × Log}
    (h : Flushed nodes chunkSize name pieces st)
    (hbody : ∀ bytes, body = some bytes → pieces.flatten ++ buffer = bytes) :
    (flushRest lib name buffer).Guarantees (UploadStep env faults) Reading
      (Promise chunkSize name body) (fun _ st' => Partial nodes name st') st := by
  unfold flushRest
  split
  · exact fun st' hst' => ⟨pieces, h.reading hst'⟩
  · have hpieces : ∀ bytes, body = some bytes → Pieces chunkSize bytes (pieces ++ [buffer]) := by
      intro bytes hbytes
      refine pieces_concat ?_ h.full (.inl rfl)
      rw [List.append_nil]
      exact hbody bytes hbytes
    refine (flushChunkToStorage_guarantees lib hkeyed hfaults h.toStoring hpieces).mono
      fun flushed st₁ h₁ => ?_
    split at h₁
    · exact h₁
    · exact ⟨_, h₁⟩

/-- The streaming handler from `put_object` on. -/
theorem streamObject_guarantees (lib : Library) (hkeyed : RegistryKeyed nodes)
    (hfaults : faults ≠ .any) (fields : Multipart) (size : StorageNode.ChunkSize)
    {st : Services × Log} (h : Idle nodes name st)
    (hbody : (Upload.multipart fields).body lib = body) :
    (streamObject lib name fields size).Guarantees (UploadStep env faults) Reading
      (Promise size.bytes name body) (fun _ _ => True) st := by
  unfold streamObject
  intro st₁ hst₁ created st₂ hcreated
  rcases (h.reading hst₁).putObject hfaults hcreated with ⟨hpromise, h₂⟩
  refine ⟨hpromise, ?_⟩
  change Except Status Unit at created
  cases created with
  | error status => exact fun _ _ => trivial
  | ok value =>
      have h₂ : Storing nodes name [] st₂ := h₂
      dsimp only
      split
      · exact h₂.rollback_guarantees hfaults _
      · rename_i field hfield
        have hfield : body = wholeField field.data := by
          rw [← hbody, Upload.body, hfield]
        change (streamField lib name size.bytes [] [] field.data >>= _).Guarantees _ _ _ _ _
        refine .of_bind (fun _ => ⟨.refl _, rfl⟩) ((streamField_guarantees lib hkeyed hfaults
          field.data ⟨h₂, nofun⟩ rfl fun bytes hbytes => ?_).mono fun streamed st₃ h₃ => ?_)
        · exact ⟨bytes, hfield.symm.trans hbytes, rfl⟩
        · split
          · rcases h₃ with ⟨pieces, h₃⟩
            exact h₃.rollback_guarantees hfaults _
          · rcases h₃ with ⟨pieces, h₃, hcontent, hwhole⟩
            refine .of_bind (fun _ => ⟨.refl _, rfl⟩) ((flushRest_guarantees lib hkeyed hfaults h₃
              fun bytes hbytes => hcontent.trans (hwhole bytes hbytes)).mono
                fun flushed st₄ h₄ => ?_)
            rcases h₄ with ⟨pieces', h₄⟩
            split
            · exact h₄.rollback_guarantees hfaults _
            · intro st₅ hst₅ updated st₆ hupdated
              rcases (h₄.reading hst₅).neutral hfaults hupdated trivial with ⟨hpromise, h₆⟩
              refine ⟨hpromise, ?_⟩
              change Except Status Unit at updated
              cases updated with
              | error status => exact h₆.rollback_guarantees hfaults _
              | ok value => exact fun _ _ => trivial

/-- The JSON handler from `put_object` on. -/
theorem storeObject_guarantees (lib : Library) (hkeyed : RegistryKeyed nodes)
    (hfaults : faults ≠ .any) (decodedBytes : Bytes) (size : StorageNode.ChunkSize)
    {st : Services × Log} (h : Idle nodes name st)
    (hbody : ∀ bytes, body = some bytes → decodedBytes = bytes) :
    (storeObject lib name decodedBytes size).Guarantees (UploadStep env faults) Reading
      (Promise size.bytes name body) (fun _ _ => True) st := by
  unfold storeObject
  intro st₁ hst₁ created st₂ hcreated
  rcases (h.reading hst₁).putObject hfaults hcreated with ⟨hpromise, h₂⟩
  refine ⟨hpromise, ?_⟩
  change Except Status Unit at created
  cases created with
  | error status => exact fun _ _ => trivial
  | ok value =>
      have h₂ : Storing nodes name [] st₂ := h₂
      change (putChunks lib name (chunks size.bytes decodedBytes) >>= _).Guarantees _ _ _ _ _
      refine .of_bind (fun _ => ⟨.refl _, rfl⟩) ((putChunks_guarantees lib hkeyed hfaults _ h₂
        hbody (.inr nofun)).mono fun stored st₃ _ => ?_)
      split <;> exact fun _ _ => trivial

/-- The calls in front of `put_object`; the chunk size is that of the storage nodes. -/
theorem Idle.getChunkSize {st st' : Services × Log} {address : String}
    {reply : Except Status StorageNode.ChunkSize} (h : Idle nodes name st)
    (hfaults : faults ≠ .any)
    (hstep : UploadStep env faults st (.storageNode address .getChunkSize) reply st') :
    Promise env.chunkSize.bytes name body st st' ∧ Idle nodes name st' ∧
      ∀ size, reply = .ok size → size = env.chunkSize := by
  rcases h.neutral hfaults hstep trivial with ⟨hpromise, hst'⟩
  refine ⟨hpromise, hst', ?_⟩
  rintro size rfl
  rcases hstep.1.storageNode_effect hfaults with ⟨_, _, heffect⟩
  generalize st'.1.nodes = after at heffect
  cases heffect
  rfl

theorem guarantees_perform {α : Type} {step : Library.Step (Services × Log) Call Call.Reply}
    {rely guar : Services × Log → Services × Log → Prop} {call : Call}
    {f : call.Reply → Deployment.Program α} {post : α → Services × Log → Prop}
    {st : Services × Log}
    (h : ∀ st', rely st st' → ∀ reply st'', step st' call reply st'' →
      guar st' st'' ∧ (f reply).Guarantees step rely guar post st'') :
    (Deployment.Program.perform call >>= f).Guarantees step rely guar post st :=
  h

/-- What an upload leaves to its readers. -/
theorem Upload.handler_guarantees (upload : Upload) (lib : Library) (hkeyed : RegistryKeyed nodes)
    (hfaults : faults ≠ .any) {st : Services × Log} (h : Idle nodes name st) :
    (upload.handler lib name).Guarantees (UploadStep env faults) Reading
      (Promise env.chunkSize.bytes name (upload.body lib)) (fun _ _ => True) st := by
  cases upload with
  | json payload =>
      change (handlePutObject lib name payload).Guarantees _ _ _ _ st
      unfold handlePutObject
      split
      · exact fun _ _ => trivial
      · split
        · exact fun _ _ => trivial
        · rename_i decodedBytes hdecoded
          have hbody : ∀ bytes, (Upload.json payload).body lib = some bytes →
              decodedBytes = bytes := by
            intro bytes hbytes
            simp only [Upload.body, hdecoded] at hbytes
            exact Option.some.inj hbytes
          split
          · exact fun _ _ => trivial
          · refine guarantees_perform fun st₁ hst₁ found st₂ hfound => ?_
            rcases (h.reading hst₁).neutral hfaults hfound trivial with ⟨hpromise, h₂⟩
            refine ⟨hpromise, ?_⟩
            split
            · exact fun _ _ => trivial
            · exact fun _ _ => trivial
            · refine guarantees_perform fun st₃ hst₃ connected st₄ hconnected => ?_
              rcases (h₂.reading hst₃).neutral hfaults hconnected trivial with ⟨hpromise, h₄⟩
              refine ⟨hpromise, ?_⟩
              split
              · exact fun _ _ => trivial
              · refine guarantees_perform fun st₅ hst₅ sized st₆ hsized => ?_
                rcases (h₄.reading hst₅).getChunkSize hfaults hsized with ⟨hpromise, h₆, hsize⟩
                refine ⟨hpromise, ?_⟩
                split
                · exact fun _ _ => trivial
                · rename_i size
                  rw [← hsize size rfl]
                  exact storeObject_guarantees lib hkeyed hfaults _ size h₆ hbody
  | multipart fields =>
      change (handlePutObjectMultipart lib name fields).Guarantees _ _ _ _ st
      unfold handlePutObjectMultipart
      split
      · exact fun _ _ => trivial
      · refine guarantees_perform fun st₁ hst₁ found st₂ hfound => ?_
        rcases (h.reading hst₁).neutral hfaults hfound trivial with ⟨hpromise, h₂⟩
        refine ⟨hpromise, ?_⟩
        split
        · exact fun _ _ => trivial
        · exact fun _ _ => trivial
        · refine guarantees_perform fun st₃ hst₃ connected st₄ hconnected => ?_
          rcases (h₂.reading hst₃).neutral hfaults hconnected trivial with ⟨hpromise, h₄⟩
          refine ⟨hpromise, ?_⟩
          split
          · exact fun _ _ => trivial
          · refine guarantees_perform fun st₅ hst₅ sized st₆ hsized => ?_
            rcases (h₄.reading hst₅).getChunkSize hfaults hsized with ⟨hpromise, h₆, hsize⟩
            refine ⟨hpromise, ?_⟩
            split
            · exact fun _ _ => trivial
            · rename_i size
              rw [← hsize size rfl]
              exact streamObject_guarantees lib hkeyed hfaults fields size h₆ rfl

/-! ## What a download sees -/

/-- The name is not there, or all chunks of the body are. -/
def Visible (chunkSize : Nat) (name : String) (body : Option Bytes) (s : Services) : Prop :=
  ∀ object : MetaObject, s.metadata.metadataStore.objects[name]? = some object →
    ∃ bytes, body = some bytes ∧ object.chunks.length = (chunks chunkSize bytes).length

/-- The steps of downloads that look the name up only when it is absent or complete. -/
def VisibleStep (env : Environment) (faults : Faults) (name : String) (body : Option Bytes) :
    Library.Step Services Call Call.Reply :=
  fun s call reply s' => Step env faults s call reply s' ∧
    (call = .metadata (.lookupObject name) → Visible env.chunkSize.bytes name body s)

/-- The download delivers the body, or reports that the object is not found; or one of its
calls has failed. -/
def Seen (lib : Library) (faults : Faults) (body : Option Bytes) (download : Download)
    (response : download.Response) : Prop :=
  (∃ bytes, body = some bytes ∧ download.Delivers lib bytes response) ∨
    (∃ msg, response = Download.failure (.notFound, msg) download) ∨
      faults ≠ .none ∧ ¬ download.Succeeds response

theorem Looks.reads {call : Call} (h : Looks call) : call.Reads := by
  cases call with
  | metadata call =>
      cases call with
      | lookupObject _ | resolveObject _ => trivial
      | _ => exact h.elim
  | storageNode _ call =>
      cases call with
      | readChunk _ => trivial
      | _ => exact h.elim
  | connect _ | choose _ => exact h.elim
  | cachedConnection _ | connectCached _ | turn => trivial

/-- What a download does to the state. -/
theorem aside_reading {st st' : Services × Log} {call : Call} {reply : call.Reply}
    (h : Library.Aside (VisibleStep env faults name body) st call reply st')
    (hcall : Looks call) : Reading st st' :=
  ⟨h.1.1.reads hcall.reads, h.2⟩

/-- A chunk has one content. -/
theorem Held.unique {s : Services} {id : UInt64} {bytes bytes' : Bytes} (h : Held s id bytes)
    (h' : Held s id bytes') : bytes = bytes' := by
  rcases h with ⟨chunk, nodeId, node, hchunk, _, _, hnodes, hnode, hdata⟩
  rcases h' with ⟨chunk', nodeId', node', hchunk', _, _, hnodes', hnode', hdata'⟩
  cases hchunk.symm.trans hchunk'
  cases hnodes.symm.trans hnodes'
  cases hnode.symm.trans hnode'
  exact Option.some.inj (hdata.symm.trans hdata')

/-- What the client is told about held chunks. -/
theorem held_response {s : Services} {ids : List UInt64} {pieces : List Bytes}
    (h : List.Forall₂ (Held s) ids pieces) :
    (ids.filterMap fun id => (s.metadata.metadataStore.chunks[id]?).map
      s.metadata.metadataStore.describe).map (·.id) = ids ∧
    ∀ chunk ∈ ids.filterMap fun id => (s.metadata.metadataStore.chunks[id]?).map
        s.metadata.metadataStore.describe, ∃ bytes node, Held s chunk.id bytes ∧
      chunk.storageNodes = [node] ∧ s.dataAt node.address chunk.id = some bytes := by
  induction h with
  | nil => simp
  | @cons id bytes ids pieces hheld _ ih =>
      have hheld' := hheld
      rcases hheld with ⟨chunk, nodeId, node, hchunk, hkey, _, hnodes, hnode, hdata⟩
      have hdescribed : s.metadata.metadataStore.describe chunk =
          ⟨id, chunk.checksum, [⟨nodeId, node.address⟩]⟩ := by
        rw [MetadataStore.describe, hkey, hnodes]
        simp [MetadataStore.registeredStorageNodes, hnode]
      simp only [List.filterMap_cons, hchunk, Option.map_some, List.map_cons, ih.1, hdescribed]
      refine ⟨trivial, fun found hfound => ?_⟩
      rcases List.mem_cons.mp hfound with rfl | hfound
      · exact ⟨bytes, _, hheld', rfl, hdata⟩
      · exact ih.2 found hfound

/-- Data stays where it is. -/
def DataStays (s s' : Services) : Prop :=
  ∀ address id bytes, s.dataAt address id = some bytes → s'.dataAt address id = some bytes

theorem dataStays_readRely : ReadRely DataStays where
  trans _ _ _ h h' := fun address id bytes hbytes => h' _ _ _ (h address id bytes hbytes)
  reads _ _ h := fun address id _ hbytes => (h.dataAt address id).trans hbytes

/-- Reading held chunks. -/
theorem read_held {s s' : Services} {ids : List UInt64} {pieces : List Bytes}
    {object : MetaObject} (hids : object.chunks = ids) (h : List.Forall₂ (Held s) ids pieces)
    (hsame : SameServices s s') (lib : Library) (hfaults : faults ≠ .any) (download : Download) :
    (download.read lib (s.metadata.metadataStore.response object).chunks).EnsuresUnder
      (Step env faults) DataStays
      (fun response _ => (download.Succeeds response →
          download.Delivers lib pieces.flatten response) ∧
        (faults = .none → download.Succeeds response)) s' := by
  subst hids
  rcases held_response h with ⟨hids, hchunks⟩
  refine (Download.read_ensures lib dataStays_readRely hfaults (Held s) _ download).mono
    fun response _ hresponse => ⟨fun hsucceeds => ?_, fun hnone => ?_⟩
  · have hreads : ∀ chunk ∈ (s.metadata.metadataStore.response object).chunks,
        ∀ node ∈ chunk.storageNodes, ReadsAt DataStays s' (Held s chunk.id) node.address
          chunk.id := by
      intro chunk hchunk node hnode t ht bytes hbytes
      rcases hchunks chunk hchunk with ⟨piece, found, hheld, hnodes, hdata⟩
      rw [hnodes] at hnode
      rw [List.mem_singleton.mp hnode] at hbytes
      have hstays := ht _ _ _ ((hsame.dataAt _ _).trans hdata)
      cases hbytes.symm.trans hstays
      exact hheld
    rcases hresponse.1 hreads hsucceeds with ⟨found, hfound, hdelivers⟩
    have hpieces : List.Forall₂ (Held s) object.chunks found := by
      rw [← hids]
      exact List.forall₂_map_left_iff.mpr hfound
    have hunique : Relator.RightUnique (Held s) := fun _ _ _ h h' => h.unique h'
    rw [List.right_unique_forall₂' hunique hpieces h] at hdelivers
    exact hdelivers
  · refine hresponse.2 hnone fun chunk hchunk => ?_
    rcases hchunks chunk hchunk with ⟨piece, found, _, hnodes, hdata⟩
    refine ⟨found, by rw [hnodes]; exact List.mem_singleton_self _, fun t ht => ?_⟩
    rw [ht _ _ _ ((hsame.dataAt _ _).trans hdata)]
    rfl

theorem stored_of_lookupObject {s : MetadataStore} {object : MetaObject}
    (h : s.lookupObject name = .ok object) : s.objects[name]? = some object := by
  cases hname : s.objects[name]? with
  | none => simp [MetadataStore.lookupObject, MetadataStore.getObject, hname] at h
  | some found =>
      rw [StorageMetadata.lookupObject_eq hname] at h
      cases h
      rfl

/-- What a download makes of an upload that keeps its promise. -/
theorem Download.handler_visible (lib : Library) (hfaults : faults ≠ .any)
    (hvalid : validateObjectName lib name = .ok ()) (download : Download) {st : Services × Log}
    (h : Consistent env.chunkSize.bytes name body st.1) :
    (download.handler lib name).EnsuresUnder
      (Library.Aside (VisibleStep env faults name body))
      (Promise env.chunkSize.bytes name body)
      (fun response _ => Seen lib faults body download response) st := by
  rw [handler_eq, hvalid]
  intro st₁ hst₁ found st₂ hfound
  have hreading := aside_reading hfound trivial
  refine ⟨promise_of_reading hreading, ?_⟩
  have h₁ := (hst₁ h).1
  have h₂ := (promise_of_reading hreading h₁).1
  change Except Status MetaObject at found
  cases found with
  | error status => exact fun _ _ => .inr (.inl ⟨_, rfl⟩)
  | ok object =>
      have hobject : st₁.1.metadata.metadataStore.objects[name]? = some object := by
        rcases hfound.1.1.lookupObject_reply hfaults with hreply | ⟨_, status, hreply⟩
        · exact stored_of_lookupObject hreply.symm
        · cases hreply
      rcases hfound.1.2 rfl object hobject with ⟨bytes, hbody, hcount⟩
      rcases h₁ object hobject with ⟨pieces, hheld, hpieces⟩
      have hwhole : pieces.flatten = bytes :=
        (hpieces bytes hbody).whole env.chunkSize.positive (hheld.length_eq.symm.trans hcount)
      intro st₃ hst₃ resolved st₄ hresolved
      have hreading' := aside_reading hresolved trivial
      refine ⟨promise_of_reading hreading', ?_⟩
      rcases hst₃ h₂ with ⟨h₃, hextends⟩
      have h₄ := (promise_of_reading hreading' h₃).1
      change Except Status StorageMetadata.Proto.GetObjectResponse at resolved
      cases resolved with
      | error status => exact fun _ _ => .inr (.inl ⟨_, rfl⟩)
      | ok response =>
          rcases hresolved.1.1.resolveObject_reply hfaults with hreply | ⟨_, status, hreply⟩
          · rcases StorageMetadata.resolveObject_eq_ok_iff.mp hreply.symm with ⟨hresolvable, rfl⟩
            have hheld₃ : List.Forall₂ (Held st₃.1) object.chunks pieces := by
              have hboth := (List.forall₂_and_left _ _).mpr ⟨hresolvable, hheld⟩
              refine hboth.imp fun id piece hpair => ?_
              rcases hpair with ⟨⟨chunk, hchunk, _⟩, hpiece⟩
              have hknown := hextends.known id piece (.inl ((Kept.of_same hreading.1).held hpiece))
              rcases hknown with hheld | ⟨_, hnone⟩
              · exact hheld
              · cases hnone.symm.trans hchunk
            have hpromises : ∀ a b : Services × Log, Consistent env.chunkSize.bytes name body a.1 →
                Promise env.chunkSize.bytes name body a b →
                Consistent env.chunkSize.bytes name body b.1 ∧ DataStays a.1 b.1 :=
              fun a b ha hab => ⟨(hab ha).1, (hab ha).2.data⟩
            have hviews : ∀ (a : Services × Log) (call : Call) (reply : call.Reply)
                (b : Services × Log), Looks call → Consistent env.chunkSize.bytes name body a.1 →
                Library.Aside (VisibleStep env faults name body) a call reply b →
                Step env faults a.1 call reply b.1 ∧ Promise env.chunkSize.bytes name body a b :=
              fun a call reply b hcall _ hstep =>
                ⟨hstep.1.1, promise_of_reading (aside_reading hstep hcall)⟩
            have hread := Library.Program.EnsuresUnder.lift hpromises hviews
              (read_looks lib (st₃.1.metadata.metadataStore.response object).chunks download)
              (read_held rfl hheld₃ hreading'.1 lib hfaults download) h₄
            refine hread.mono fun response _ hresponse => ?_
            by_cases hsucceeds : download.Succeeds response
            · refine .inl ⟨bytes, hbody, ?_⟩
              rw [← hwhole]
              exact hresponse.1 hsucceeds
            · exact .inr (.inr ⟨fun hnone => hsucceeds (hresponse.2 hnone), hsucceeds⟩)
          · cases hreply

/-! ## An upload next to downloads -/

/-- A download of the name, with its response. -/
inductive IsDownload (lib : Library) (name : String) :
    Deployment.Program ((download : Download) × download.Response) → Prop where
  | intro (download : Download) :
      IsDownload lib name (download.handler lib name >>= fun response => pure ⟨download, response⟩)

/-- An upload of a new name next to any number of downloads of it, in any order of their
steps: if every download looks the name up when it is absent or has all its chunks, then every
download delivers the whole body or does not find the object, unless one of its calls fails. -/
theorem uploads_visible_complete (upload : Upload) (hfaults : faults ≠ .any)
    (hvalid : validateObjectName lib name = .ok ()) {s₀ s : Services}
    {writer : Deployment.Program (HttpResult PutObjectResponsePayload)}
    {readers : List (Deployment.Program ((download : Download) × download.Response))}
    (hreachable : Reachable env.lib anyEvent
      s₀.metadata.metadataStore) (hnew : ¬ s₀.Has name)
    (hsteps : Relation.ReflTransGen
      (Library.ReadersStep (Step env faults) (VisibleStep env faults name (upload.body lib))
        (IsDownload lib name))
      (s₀, upload.handler lib name, []) (s, writer, readers))
    (download : Download) (response : download.Response)
    (hdone : ObjectStore.Library.Program.done ⟨download, response⟩ ∈ readers) :
    Seen lib faults (upload.body lib) download response := by
  have hkeyed := hreachable.registryKeyed
  have hidle : Idle s₀.metadata.metadataStore.storageNodes name (s₀, []) :=
    ⟨nofun, rfl, listed_eq_none_iff.mpr hnew⟩
  have hstart : Consistent env.chunkSize.bytes name (upload.body lib) s₀ := by
    intro object hobject
    exact absurd (HashMap.mem_iff_exists_getElem?.mpr ⟨object, hobject⟩) hnew
  let post := fun (value : (download : Download) × download.Response) (_ : Services × Log) =>
    Seen lib faults (upload.body lib) value.1 value.2
  have hspawn : ∀ (st : Services × Log) (reader : Deployment.Program _),
      Consistent env.chunkSize.bytes name (upload.body lib) st.1 → IsDownload lib name reader →
      reader.Only Looks ∧ reader.EnsuresUnder
        (Library.Aside (VisibleStep env faults name (upload.body lib)))
        (Promise env.chunkSize.bytes name (upload.body lib)) post st := by
    intro st reader hst hreader
    cases hreader with
    | intro download =>
        constructor
        · exact (download.handler_looks lib name).of_bind fun _ => trivial
        · refine .of_bind promise_refl ((download.handler_visible lib hfaults hvalid hst).mono
            fun response _ hseen => ?_)
          exact fun _ _ => hseen
  have hreached := Library.ReadersStep.reachable (fun a => ⟨.refl a.1, rfl⟩)
    (fun a b c (hab : Reading a b) (hbc : Reading b c) =>
      ⟨hab.1.trans hbc.1, hbc.2.trans hab.2⟩)
    promise_refl promise_trans (fun a b ha (hab : Promise _ _ _ a b) => (hab ha).1)
    (fun a call reply b hcall hstep => aside_reading hstep hcall)
    (upload.handler_guarantees lib hkeyed hfaults hidle) hspawn hstart hsteps
  rcases hreached with ⟨log, _, hseen⟩
  exact hseen ⟨download, response⟩ hdone

/-! ## A download next to an upload of one byte -/

/-- The response of a JSON download that is done. -/
def answered : Deployment.Program ((download : Download) × download.Response) →
    Option (HttpResult GetObjectResponsePayload)
  | .done ⟨.json, response⟩ => some response
  | _ => none

theorem answered_eq {reader : Deployment.Program ((download : Download) × download.Response)}
    {response : HttpResult GetObjectResponsePayload} (h : answered reader = some response) :
    reader = .done ⟨.json, response⟩ := by
  cases reader with
  | call _ _ => cases h
  | done value =>
      rcases value with ⟨download, found⟩
      cases download with
      | json =>
          cases h
          rfl
      | stream => cases h

/-- A JSON download of `a`. -/
def downloadA : Deployment.Program ((download : Download) × download.Response) :=
  Download.json.handler plainLibrary "a" >>= fun response => pure ⟨.json, response⟩

/-- An upload of the byte `h` to `a`. -/
def uploadA : Deployment.Program (HttpResult PutObjectResponsePayload) :=
  (Upload.json "aA==").handler plainLibrary "a"

/-- The calls of the upload up to its `put_object`, and those behind it. -/
def created : List Deployment.Decision :=
  [.serve .plain, .serve .plain, .serve .plain, .serve .plain]

/-- The calls behind it; the chunk is allocated under the id 10. -/
def confirmed : List Deployment.Decision :=
  [.serve ⟨.completes, [10], 0, ""⟩, .serve .plain, .serve .plain, .serve .plain, .serve .plain]

/-- A scripted call is a step without faults that take effect. -/
theorem plain_step (s : Services) (call : Call) (decision : Deployment.Decision)
    (reply : call.Reply) (s' : Services)
    (h : s.next plainEnvironment call decision = some (reply, s')) :
    Step plainEnvironment .withoutEffect s call reply s' :=
  Services.next_step s call decision reply s' h

/-- The same, but lookups wait until the object has its chunk. -/
def visibleNext (s : Services) (call : Call) (decision : Deployment.Decision) :
    Option (call.Reply × Services) :=
  match call with
  | .metadata (.lookupObject objectName) =>
      match s.metadata.metadataStore.objects["a"]? with
      | none => none
      | some object =>
          if object.chunks.length = 1 then
            s.next plainEnvironment (.metadata (.lookupObject objectName)) decision
          else none
  | call => s.next plainEnvironment call decision

theorem visibleNext_step (s : Services) (call : Call) (decision : Deployment.Decision)
    (reply : call.Reply) (s' : Services) (h : visibleNext s call decision = some (reply, s')) :
    VisibleStep plainEnvironment .withoutEffect "a" (some [104]) s call reply s' := by
  unfold visibleNext at h
  split at h
  · split at h
    · cases h
    · rename_i object hobject
      split at h
      · rename_i hcount
        refine ⟨plain_step _ _ _ _ _ h, fun _ found hfound => ?_⟩
        cases hobject.symm.trans hfound
        exact ⟨[104], rfl, hcount⟩
      · cases h
  · rename_i hlookup
    exact ⟨plain_step _ _ _ _ _ h, fun heq => absurd heq (hlookup "a")⟩

theorem uploadA_body : (Upload.json "aA==").body plainLibrary = some [104] := by
  decide +kernel

/-- When the download starts behind the last `confirm_chunk` it delivers the byte. -/
theorem uploads_visible_complete_after :
    ∃ response, Download.json.Succeeds response ∧
      Seen plainLibrary .withoutEffect (some [104]) .json response := by
  let next := Services.next plainEnvironment
  let reads : List Deployment.Decision :=
    [.serve .plain, .serve .plain, .serve .plain, .serve .plain]
  let check := fun result : Deployment.Program (HttpResult PutObjectResponsePayload) × Services =>
    (downloadA.advance visibleNext reads result.2).any fun result =>
      answered result.1 = some (.ok ⟨plainLibrary.encode [104]⟩)
  have hrun : (uploadA.advance next (created ++ confirmed) oneNode).any check = true := by
    decide +kernel
  rcases (Option.any_eq_true _ _).mp hrun with ⟨⟨writer, s₁⟩, hwriter, hreader⟩
  rcases (Option.any_eq_true _ _).mp hreader with ⟨⟨reader, s₂⟩, hreader, hanswered⟩
  have hanswered : answered reader = some (.ok ⟨plainLibrary.encode [104]⟩) :=
    of_decide_eq_true hanswered
  rw [answered_eq hanswered] at hreader
  have hjoin : Relation.ReflTransGen (Library.ReadersStep (Step plainEnvironment .withoutEffect)
      (VisibleStep plainEnvironment .withoutEffect "a" ((Upload.json "aA==").body plainLibrary))
      (IsDownload plainLibrary "a")) (s₁, writer, []) (s₁, writer, [downloadA]) :=
    .single (.join (.intro .json))
  have hreads := @visibleNext_step
  rw [← uploadA_body] at hreads
  have hreachable : Reachable jsonLib anyEvent
      oneNode.metadata.metadataStore :=
    (Reachable.start _ _).afterCalls fun _ _ _ => trivial
  have hnew : ¬ oneNode.Has "a" := by
    unfold Services.Has
    decide +kernel
  refine ⟨.ok ⟨plainLibrary.encode [104]⟩, ⟨_, rfl⟩, ?_⟩
  rw [← uploadA_body]
  exact uploads_visible_complete (.json "aA==") (by decide) (by decide +kernel) hreachable hnew
    (((Library.ReadersStep.of_writer plain_step hwriter).trans hjoin).trans
      (Library.ReadersStep.of_reader hreads hreader)) .json _ (List.mem_singleton_self _)

/-- Between `put_object` and the only `confirm_chunk` the object is delivered without its
byte. -/
theorem empty_prefix_delivered :
    (Upload.json "aA==").body plainLibrary = some [104] ∧
    ∃ s writer response, Relation.ReflTransGen
        (Library.ReadersStep (Step plainEnvironment .withoutEffect)
          (Step plainEnvironment .withoutEffect) (IsDownload plainLibrary "a"))
        (oneNode, uploadA, []) (s, writer, [.done ⟨.json, response⟩]) ∧
      Download.json.Delivers plainLibrary [] response := by
  refine ⟨uploadA_body, ?_⟩
  let next := Services.next plainEnvironment
  let check := fun result : Deployment.Program (HttpResult PutObjectResponsePayload) × Services =>
    (downloadA.advance next [.serve .plain, .serve .plain] result.2).any fun result =>
      answered result.1 = some (.ok ⟨plainLibrary.encode []⟩)
  have hrun : (uploadA.advance next created oneNode).any check = true := by
    decide +kernel
  rcases (Option.any_eq_true _ _).mp hrun with ⟨⟨writer, s₁⟩, hwriter, hreader⟩
  rcases (Option.any_eq_true _ _).mp hreader with ⟨⟨reader, s₂⟩, hreader, hanswered⟩
  have hanswered : answered reader = some (.ok ⟨plainLibrary.encode []⟩) :=
    of_decide_eq_true hanswered
  rw [answered_eq hanswered] at hreader
  refine ⟨s₂, writer, _, ?_, rfl⟩
  have hjoin : Relation.ReflTransGen (Library.ReadersStep (Step plainEnvironment .withoutEffect)
      (Step plainEnvironment .withoutEffect) (IsDownload plainLibrary "a"))
      (s₁, writer, []) (s₁, writer, [downloadA]) := .single (.join (.intro .json))
  exact ((Library.ReadersStep.of_writer plain_step hwriter).trans hjoin).trans
    (Library.ReadersStep.of_reader plain_step hreader)

end ApiGateway
end ObjectStore
