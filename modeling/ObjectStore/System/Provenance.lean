import ObjectStore.Deployment.Effect
import ObjectStore.Library.Rely
import ObjectStore.StorageMetadata.Integrity

/-!
# System - For which object a chunk is stored

Chunk ids are allocated for one object.  Whoever confirms a chunk or writes its data has to
know for which object; then object lists and stored data fit the allocations in every
interleaving of calls, also of calls that fail before or after they take effect.

Main definitions:

- `OwnedStep`: one call, with a note for which object each chunk id was allocated.
- `Traced`: object lists and stored data fit the notes.
- `Keeps`, `Behaves`: what programs keep up for each other.

Main results:

- Theorem `Traced.step`: what each call has to respect.
- Theorem `Behaves.of_bind`: sequences of programs that respect it.
-/

namespace ObjectStore
namespace System

open Deployment (Call Effect Environment MetadataCall NodeEffect Services Step)
open StorageMetadata (Keyed MetaChunk MetaObject MetadataStore)
open StorageMetadata.Proto (AllocateChunkResponse)

/-! ## Owners of chunk ids -/

/-- For which object each chunk id was allocated. -/
abbrev Owners : Type := UInt64 → Option String

/-- The notes after a call.  No id is allocated twice. -/
def Draws : (call : Call) → call.Reply → Owners → Owners → Prop
  | .metadata (.allocateChunk name _), (reply : Except Status AllocateChunkResponse), owners,
      owners' =>
      match reply with
      | .ok response => owners response.chunkId = none ∧
          owners' = Function.update owners response.chunkId (some name)
      | .error _ => owners' = owners
  | _, _, owners, owners' => owners' = owners

/-- One call, whatever fails, with its note. -/
def OwnedStep (env : Environment) : Library.Step (Services × Owners) Call Call.Reply :=
  fun st call reply st' => Step env .any st.1 call reply st'.1 ∧ Draws call reply st.2 st'.2

/-- Ids keep their owners. -/
def Grows (owners owners' : Owners) : Prop :=
  ∀ (id : UInt64) (name : String), owners id = some name → owners' id = some name

variable {env : Environment} {parts : String → Bytes → Prop} {st st' : Services × Owners}
  {owners owners' : Owners} {call : Call} {reply : call.Reply} {name address : String}
  {id : UInt64} {bytes : Bytes}

theorem Draws.grows (h : Draws call reply owners owners') : Grows owners owners' := by
  have hsame : owners' = owners → Grows owners owners' := by
    rintro rfl
    exact fun _ _ hid => hid
  unfold Draws at h
  split at h
  · split at h
    · rename_i response
      intro id name hid
      rcases h with ⟨hnew, rfl⟩
      have hne : id ≠ response.chunkId := by
        rintro rfl
        cases hnew.symm.trans hid
      rw [Function.update_of_ne hne]
      exact hid
    · exact hsame h
  · exact hsame h

/-! ## What is listed and stored -/

/-- Object lists and stored data fit the notes: a chunk is listed by the object that it was
allocated for, and its data is one of the `parts` of this object. -/
structure Traced (parts : String → Bytes → Prop) (st : Services × Owners) : Prop where
  keyed : Keyed st.1.metadata.metadataStore.maps
  listed : ∀ (name : String) (object : MetaObject),
    st.1.metadata.metadataStore.objects[name]? = some object →
      ∀ id ∈ object.chunks, st.2 id = some name
  data : ∀ (address : String) (id : UInt64) (bytes : Bytes),
    st.1.dataAt address id = some bytes → ∃ name, st.2 id = some name ∧ parts name bytes

/-- Who confirms a chunk or writes data has to know for which object. -/
def Permits (parts : String → Bytes → Prop) (owners : Owners) : Call → Prop
  | .metadata (.confirmChunk id name _ _) => owners id = some name
  | .storageNode _ (.writeChunk id bytes) => ∃ name, owners id = some name ∧ parts name bytes
  | _ => True

/-- Only a confirmation makes an object list a chunk. -/
theorem Effect.mem_chunks {m m' : MetadataStore} {call : MetadataCall}
    {reply : Except Status call.Response} {object : MetaObject} (h : Effect m call reply m')
    (hobject : m'.objects[name]? = some object) (hid : id ∈ object.chunks) :
    (∃ found, m.objects[name]? = some found ∧ id ∈ found.chunks) ∨
      ∃ checksum nodeId, call = .confirmChunk id name checksum nodeId := by
  cases h with
  | @putObject _ created hname =>
      by_cases hother : name = created
      · subst hother
        cases HashMap.getElem?_insert_same _ hobject
        cases hid
      · exact .inl ⟨object, (HashMap.getElem?_insert_of_ne _ _ hother).symm.trans hobject, hid⟩
  | @confirmChunk _ confirmed _ owner found hname =>
      by_cases hother : name = owner
      · subst hother
        cases HashMap.getElem?_insert_same _ hobject
        rcases List.mem_append.mp hid with hid | hid
        · exact .inl ⟨found, hname, hid⟩
        · rw [List.mem_singleton.mp hid]
          exact .inr ⟨_, _, rfl⟩
      · exact .inl ⟨object, (HashMap.getElem?_insert_of_ne _ _ hother).symm.trans hobject, hid⟩
  | @deleteChunk _ chunk found _ hname =>
      by_cases hother : name = chunk.objectName
      · subst hother
        cases HashMap.getElem?_insert_same _ hobject
        exact .inl ⟨found, hname, List.mem_of_mem_filter hid⟩
      · exact .inl ⟨object, (HashMap.getElem?_insert_of_ne _ _ hother).symm.trans hobject, hid⟩
  | @updateObjectChecksum _ _ updated found hname =>
      by_cases hother : name = updated
      · subst hother
        cases HashMap.getElem?_insert_same _ hobject
        exact .inl ⟨found, hname, hid⟩
      · exact .inl ⟨object, (HashMap.getElem?_insert_of_ne _ _ hother).symm.trans hobject, hid⟩
  | deleteObject _ => exact .inl ⟨object, HashMap.getElem?_of_erase hobject, hid⟩
  | _ => exact .inl ⟨object, hobject, hid⟩

/-- Records stay under their keys. -/
theorem Effect.keyed {m m' : MetadataStore} {call : MetadataCall}
    {reply : Except Status call.Response} (h : Effect m call reply m') (hkeyed : Keyed m.maps) :
    Keyed m'.maps := by
  cases h with
  | putObject checksum hname =>
      apply hkeyed.insert_object
      rfl
  | allocateChunk name checksum hid hnode =>
      apply hkeyed.insert_chunk
      rfl
  | @confirmChunk checksum id nodeId name object hname hnode hid =>
      have hchunks : Keyed ⟨m.objects, m.chunks.insert id
          ((MetaChunk.new id checksum name).addStorageNode nodeId)⟩ := by
        apply hkeyed.insert_chunk
        rfl
      have hold : object.name = name := hkeyed.object hname
      exact hchunks.insert_object (show (object.addChunk id).name = name from hold)
  | @deleteChunk id chunk object hid hname =>
      have hrest : Keyed (m.withoutChunk id).maps :=
        hkeyed.mono (fun _ _ => HashMap.getElem?_of_erase) fun _ _ hfound => hfound
      have hold : object.name = chunk.objectName := hkeyed.object hname
      exact hrest.insert_object (show (object.removeChunk id).name = _ from hold)
  | deleteOrphan hid hname status =>
      exact hkeyed.mono (fun _ _ => HashMap.getElem?_of_erase) fun _ _ hfound => hfound
  | deleteObject hname =>
      exact hkeyed.mono (fun _ _ => HashMap.getElem?_of_foldl_erase)
        fun _ _ => HashMap.getElem?_of_erase
  | @updateObjectChecksum checksum totalSize name object hname =>
      have hold : object.name = name := hkeyed.object hname
      exact hkeyed.insert_object hold
  | @addChunkReplica id nodeId chunk hid hnode hnew hroom =>
      have hold : chunk.id = id := hkeyed.chunk hid
      exact hkeyed.insert_chunk (show (chunk.addStorageNode nodeId).id = id from hold)
  | refused _ | listStorageNodes _ | lookupObject _ | resolveObject _ | getStorageNode _
  | listUnderReplicatedChunks _ => exact hkeyed

/-- Only a write brings data to a storage node. -/
theorem NodeEffect.dataAt_from {s s' : Services} {call : StorageNode.Call}
    {reply : Except Status call.Response} (h : NodeEffect env s.nodes address call reply s'.nodes)
    {other : String} (hdata : s'.dataAt other id = some bytes) :
    s.dataAt other id = some bytes ∨ call = .writeChunk id bytes := by
  cases call with
  | writeChunk written payload =>
      rw [h.writeChunk_dataAt.2] at hdata
      split at hdata
      · rename_i heq
        cases hdata
        rw [heq.2.2]
        exact .inr rfl
      · exact .inl hdata
  | deleteChunk deleted =>
      rw [h.deleteChunk_dataAt] at hdata
      split at hdata
      · cases hdata
      · exact .inl hdata
  | readChunk _ | getFreeChunks | getChunkSize =>
      refine .inl ?_
      unfold Services.dataAt at hdata ⊢
      generalize s'.nodes = nodes at h hdata
      cases h <;> exact hdata

/-- What each call has to respect. -/
theorem Traced.step (h : Traced parts st) (hpermits : Permits parts st.2 call)
    (hstep : OwnedStep env st call reply st') : Traced parts st' := by
  have hgrows := hstep.2.grows
  have hdraws := hstep.2
  have hlisted : ∀ (name : String) (object : MetaObject),
      st.1.metadata.metadataStore.objects[name]? = some object →
        ∀ id ∈ object.chunks, st'.2 id = some name :=
    fun name object hobject id hid => hgrows id name (h.listed name object hobject id hid)
  have hdata : ∀ (address : String) (id : UInt64) (bytes : Bytes),
      st.1.dataAt address id = some bytes → ∃ name, st'.2 id = some name ∧ parts name bytes := by
    intro address id bytes hbytes
    rcases h.data address id bytes hbytes with ⟨name, hname, hpart⟩
    exact ⟨name, hgrows id name hname, hpart⟩
  cases call with
  | metadata call =>
      have hnodes := hstep.1.metadata_nodes
      rcases hstep.1.metadata_effect_any with ⟨_, m, heffect, hmemory, _⟩
      constructor
      · have hmaps := Effect.keyed heffect h.keyed
        rw [MetadataStore.maps] at hmaps ⊢
        rw [hmemory.objects, hmemory.chunks]
        exact hmaps
      · intro name object hobject id hid
        rw [hmemory.objects] at hobject
        rcases Effect.mem_chunks heffect hobject hid with ⟨found, hfound, hmem⟩ | ⟨_, _, rfl⟩
        · exact hlisted name found hfound id hmem
        · exact hgrows id name hpermits
      · intro address id bytes hbytes
        simp only [Services.dataAt, hnodes] at hbytes
        exact hdata address id bytes hbytes
  | storageNode address call =>
      rcases hstep.1.storageNode_effect_any with ⟨hmetadata, _, heffect, _⟩
      constructor
      · rw [hmetadata]
        exact h.keyed
      · rw [hmetadata]
        exact hlisted
      · intro other id bytes hbytes
        rcases NodeEffect.dataAt_from heffect hbytes with hbytes | rfl
        · exact hdata other id bytes hbytes
        · rcases hpermits with ⟨name, hname, hpart⟩
          exact ⟨name, hgrows id name hname, hpart⟩
  | connect _ | cachedConnection _ | connectCached _ | choose _ | turn =>
      have hsame := hstep.1.reads trivial
      constructor
      · rw [MetadataStore.maps, hsame.memory.objects, hsame.memory.chunks]
        exact h.keyed
      · rw [hsame.memory.objects]
        exact hlisted
      · intro other id bytes hbytes
        rw [hsame.dataAt] at hbytes
        exact hdata other id bytes hbytes

/-! ## What the programs keep up -/

/-- No note is lost, and what is listed and stored goes on to fit the notes. -/
def Keeps (parts : String → Bytes → Prop) (st st' : Services × Owners) : Prop :=
  Grows st.2 st'.2 ∧ (Traced parts st → Traced parts st')

theorem keeps_refl (st : Services × Owners) : Keeps parts st st :=
  ⟨fun _ _ h => h, id⟩

theorem keeps_trans (st₁ st₂ st₃ : Services × Owners) (h : Keeps parts st₁ st₂)
    (h' : Keeps parts st₂ st₃) : Keeps parts st₁ st₃ :=
  ⟨fun id name howner => h'.1 id name (h.1 id name howner), fun htraced => h'.2 (h.2 htraced)⟩

/-- A permitted call keeps each part with its owner. -/
theorem OwnedStep.keeps (hstep : OwnedStep env st call reply st')
    (hpermits : Permits parts st.2 call) : Keeps parts st st' :=
  ⟨hstep.2.grows, fun h => h.step hpermits hstep⟩

/-- The calls that everyone may make. -/
def Free : Call → Prop
  | .metadata (.confirmChunk _ _ _ _) | .storageNode _ (.writeChunk _ _) => False
  | _ => True

theorem free_of_reads (h : call.Reads) : Free call := by
  cases call with
  | metadata call => cases call <;> first | exact h.elim | trivial
  | storageNode address call => cases call <;> first | exact h.elim | trivial
  | _ => trivial

/-- Calls that send nothing are permitted. -/
theorem Free.permits (h : Free call) : Permits parts owners call := by
  unfold Permits
  split
  · exact h.elim
  · exact h.elim
  · trivial

/-- The program keeps it up, whatever others do, and its value satisfies `post`. -/
abbrev Behaves {α : Type} (env : Environment) (parts : String → Bytes → Prop)
    (program : Deployment.Program α) (post : α → Prop) : Prop :=
  ∀ st, program.EnsuresUnder (OwnedStep env) (Keeps parts) (fun value _ => post value) st

section

variable {α β : Type} {post : α → Prop} {post' : β → Prop}

/-- One program, and then another one. -/
theorem Behaves.of_bind {program : Deployment.Program α} {f : α → Deployment.Program β}
    (h : Behaves env parts program post)
    (hf : ∀ value, post value → Behaves env parts (f value) post') :
    Behaves env parts (program >>= f) post' := by
  intro st
  apply Library.Program.EnsuresUnder.of_bind keeps_refl
  exact (h st).mono fun value st' hvalue => hf value hvalue st'

theorem Behaves.of_call {next : call.Reply → Deployment.Program α} (hfree : Free call)
    (h : ∀ reply, Behaves env parts (next reply) post) :
    Behaves env parts (.call call next) post := by
  intro st st₁ hst₁ reply st₂ hstep
  exact ⟨hstep.keeps hfree.permits, h reply st₂⟩

theorem Behaves.of_free {program : Deployment.Program α} (h : program.Only Free) :
    Behaves env parts program fun _ => True := by
  intro st
  apply h.ensuresUnder
  intro st request reply st' hfree hstep
  exact hstep.keeps hfree.permits

end

end System
end ObjectStore
