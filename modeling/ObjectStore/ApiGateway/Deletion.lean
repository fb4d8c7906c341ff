import ObjectStore.ApiGateway.Download
import ObjectStore.ApiGateway.Upload

/-!
# API gateway - Failed deletions

A deletion removes the data from the storage nodes, then the chunk records one by one, and
the object last; failures of the first two stages are ignored.  When the last call fails, the
object is left with the chunks whose records could not be removed.

Main results:

- Theorem `Deleting.step`: what each call leaves of the object.
- Theorem `handleDeleteObject_ensures`: what a failed deletion leaves.
- Theorem `failed_delete_harmless_iff`: when downloads never deliver a part of it.
-/

namespace ObjectStore
namespace ApiGateway

open Deployment (Call Event Log Services SameServices Environment Faults Step)
open StorageMetadata (MetaObject Resolvable)
open StorageMetadata.Proto (MetaChunk)

/-! ## The record of a deletion -/

/-- A chunk record has been removed. -/
def isRemoval (id : UInt64) : Event → Bool
  | ⟨.metadata (.deleteChunk other), reply⟩ =>
      match (reply : Except Status Unit) with
      | .error _ => false
      | .ok _ => decide (other = id)
  | _ => false

/-- The data of a chunk has been removed from a storage node. -/
def isErasure (address : String) (id : UInt64) :
    Event → Bool
  | ⟨.storageNode other (.deleteChunk otherId), reply⟩ =>
      match (reply : Except Status UInt64) with
      | .error _ => false
      | .ok _ => decide (other = address ∧ otherId = id)
  | _ => false

/-- The record of the chunk has been deleted. -/
def removed (log : Log) (id : UInt64) : Bool := log.any (isRemoval id)

/-- The data of the chunk has been deleted on the storage node. -/
def erased (log : Log) (address : String) (id : UInt64) : Bool :=
  log.any (isErasure address id)

variable {env : Environment} {faults : Faults} {lib : Library} {name : String}
  {object : MetaObject} {pieces : UInt64 → Bytes} {s : Services}

/-- The steps of a deletion, with the record of its calls, while others leave the object
alone. -/
abbrev DeletionStep (env : Environment) (name : String) (object : MetaObject) :
    ObjectStore.Library.Step (Services × Log) Call Call.Reply :=
  ObjectStore.Library.Logged
    (ObjectStore.Library.Amid (Untouched name object.chunks) (Step env .withoutEffect))

@[simp]
theorem removed_append {log : Log} {event : Event} {id : UInt64} :
    removed (log ++ [event]) id = (removed log id || isRemoval id event) := by
  simp [removed]

@[simp]
theorem erased_append {log : Log} {event : Event} {address : String} {id : UInt64} :
    erased (log ++ [event]) address id = (erased log address id || isErasure address id event) := by
  simp [erased]

/-! ## What is left of the object -/

/-- The object without the chunks whose records have been removed. -/
def remaining (object : MetaObject) (log : Log) : MetaObject :=
  { object with chunks := object.chunks.filter fun id => !removed log id }

/-- What a deletion has made of the object that was stored in `s`. -/
structure Deleting (s : Services) (name : String) (object : MetaObject)
    (st : Services × Log) : Prop where
  stored : st.1.metadata.metadataStore.objects[name]? = some (remaining object st.2)
  chunks : ∀ id ∈ object.chunks, st.1.metadata.metadataStore.chunks[id]? =
    if removed st.2 id then none else s.metadata.metadataStore.chunks[id]?
  storageNodes : st.1.metadata.metadataStore.storageNodes = s.metadata.metadataStore.storageNodes
  data : ∀ id ∈ object.chunks, ∀ address,
    st.1.dataAt address id = if erased st.2 address id then none else s.dataAt address id

/-- The calls of the first two stages. -/
def Deletes (ids : List UInt64) : Call → Prop
  | .metadata (.deleteChunk id) => id ∈ ids
  | .storageNode _ (.deleteChunk id) => id ∈ ids
  | call => call.Reads

/-- What others do apart from the object does not matter. -/
theorem Deleting.untouched {s' : Services} {st : Services × Log}
    (h : Deleting s name object st) (huntouched : Untouched name object.chunks st.1 s') :
    Deleting s name object (s', st.2) where
  stored := huntouched.object.trans h.stored
  chunks id hid := (huntouched.chunks id hid).trans (h.chunks id hid)
  storageNodes := huntouched.storageNodes.trans h.storageNodes
  data id hid address := (huntouched.data id hid address).trans (h.data id hid address)

/-- A call that removes nothing. -/
theorem Deleting.same {s₁ s₂ : Services} {log : Log} {event : Event}
    (h : Deleting s name object (s₁, log))
    (hsame : SameServices s₁ s₂) (hremoval : ∀ id, isRemoval id event = false)
    (herasure : ∀ address id, isErasure address id event = false) :
    Deleting s name object (s₂, log ++ [event]) where
  stored := by
    have hremaining : remaining object (log ++ [event]) = remaining object log := by
      simp only [remaining, removed_append, hremoval, Bool.or_false]
    rw [hsame.memory.objects, hremaining]
    exact h.stored
  chunks id hid := by
    simp only [removed_append, hremoval, Bool.or_false, hsame.memory.chunks]
    exact h.chunks id hid
  storageNodes := hsame.memory.storageNodes.trans h.storageNodes
  data id hid address := by
    simp only [erased_append, herasure, Bool.or_false, hsame.dataAt]
    exact h.data id hid address

theorem isRemoval_reads {call : Call} {reply : call.Reply} (hcall : call.Reads) (id : UInt64) :
    isRemoval id ⟨call, reply⟩ = false := by
  cases call with
  | metadata call =>
      cases call with
      | deleteChunk _ => exact hcall.elim
      | _ => rfl
  | _ => rfl

theorem isErasure_reads {call : Call} {reply : call.Reply} (hcall : call.Reads) (address : String)
    (id : UInt64) : isErasure address id ⟨call, reply⟩ = false := by
  cases call with
  | storageNode _ call =>
      cases call with
      | deleteChunk _ => exact hcall.elim
      | _ => rfl
  | _ => rfl

/-- The removal of a record. -/
theorem Deleting.removeRecord {s₁ s₂ : Services} {log : Log} {id : UInt64}
    {reply : Except Status Unit} (h : Deleting s name object (s₁, log))
    (hstored : StoredObject s name object pieces) (hid : id ∈ object.chunks)
    (hstep : Step env .withoutEffect s₁ (.metadata (.deleteChunk id)) reply s₂) :
    Deleting s name object (s₂, log ++ [⟨.metadata (.deleteChunk id), reply⟩]) := by
  rcases hstep.metadata_effect (by decide) with ⟨hnodes, _, m, heffect, hmemory⟩
  have hrecord : ∀ {chunk : StorageMetadata.MetaChunk},
      s₁.metadata.metadataStore.chunks[id]? = some chunk →
        removed log id = false ∧ chunk.objectName = name := by
    intro chunk hchunk
    have hkept := h.chunks id hid
    rw [hchunk] at hkept
    cases hremoved : removed log id with
    | true =>
        rw [hremoved] at hkept
        cases hkept
    | false =>
        rw [hremoved] at hkept
        rcases hstored.recorded id hid with ⟨record, hrecord, _, hname⟩
        rw [hrecord] at hkept
        cases hkept
        exact ⟨rfl, hname⟩
  cases heffect with
  | refused status => exact h.same ⟨hmemory, hnodes⟩ (fun _ => rfl) fun _ _ => rfl
  | deleteOrphan hchunk hname status =>
      rw [(hrecord hchunk).2] at hname
      cases hname.symm.trans h.stored
  | deleteChunk hchunk hname =>
      rcases hrecord hchunk with ⟨hremoved, hobject⟩
      rw [hobject, h.stored] at hname
      cases hname
      have hremoval : ∀ other, removed (log ++ [⟨.metadata (.deleteChunk id), .ok ()⟩]) other =
          (removed log other || decide (id = other)) := fun _ => removed_append
      constructor
      · have hremaining : (remaining object log).removeChunk id =
            remaining object (log ++ [⟨.metadata (.deleteChunk id), .ok ()⟩]) := by
          simp only [StorageMetadata.MetaObject.removeChunk, remaining,
            List.filter_filter, hremoval]
          congr 1
          refine List.filter_congr fun other _ => ?_
          simp [eq_comm, Bool.and_comm]
        rw [hmemory.objects, hobject, hremaining]
        exact Std.ExtTreeMap.getElem?_insert_self
      · intro other hother
        rw [hmemory.chunks, hremoval]
        by_cases heq : id = other
        · subst heq
          simp [StorageMetadata.MetadataStore.withoutChunk,
            StorageMetadata.MetadataStore.withObject]
        · have hkept := h.chunks other hother
          simp only [StorageMetadata.MetadataStore.withoutChunk,
            StorageMetadata.MetadataStore.withObject,
            HashMap.getElem?_erase_of_ne _ (fun hsame => heq hsame.symm), heq, decide_false,
            Bool.or_false]
          exact hkept
      · exact hmemory.storageNodes.trans h.storageNodes
      · intro other hother address
        have hsame : s₂.dataAt address other = s₁.dataAt address other := by
          simp only [Services.dataAt, hnodes]
        rw [hsame, erased_append]
        simpa [isErasure] using h.data other hother address

/-- The removal of data. -/
theorem Deleting.eraseData {s₁ s₂ : Services} {log : Log} {address : String} {id : UInt64}
    {reply : Except Status UInt64} (h : Deleting s name object (s₁, log))
    (hstep : Step env .withoutEffect s₁ (.storageNode address (.deleteChunk id)) reply s₂) :
    Deleting s name object (s₂, log ++ [⟨.storageNode address (.deleteChunk id), reply⟩]) := by
  have hother : ∀ request, Call.storageNode address (.deleteChunk id) ≠ .metadata request :=
    fun _ => nofun
  have hmetadata := hstep.metadata_eq hother
  have hremoval : ∀ other, removed (log ++ [⟨.storageNode address (.deleteChunk id), reply⟩])
      other = removed log other := fun other => by simp [isRemoval]
  constructor
  · have hremaining : remaining object (log ++ [⟨.storageNode address (.deleteChunk id), reply⟩]) =
        remaining object log := by
      simp only [remaining, hremoval]
    rw [hmetadata, hremaining]
    exact h.stored
  · intro other hkept
    rw [hmetadata, hremoval]
    exact h.chunks other hkept
  · rw [hmetadata]
    exact h.storageNodes
  · intro other hkept place
    rw [hstep.deleteChunk_dataAt (by decide) place other, erased_append, h.data other hkept place]
    cases reply with
    | error status => simp [isErasure, Except.isOk, Except.toBool]
    | ok value =>
        by_cases heffect : place = address ∧ other = id
        · rcases heffect with ⟨rfl, rfl⟩
          simp [isErasure, Except.isOk, Except.toBool]
        · have hne : ¬ (address = place ∧ id = other) := fun hsame =>
            heffect ⟨hsame.1.symm, hsame.2.symm⟩
          simp [isErasure, Except.isOk, Except.toBool, heffect, hne]

/-- A call of the deletion removes what it names and nothing else. -/
theorem Deleting.step {st st' : Services × Log} {call : Call} {reply : call.Reply}
    (h : Deleting s name object st) (hstored : StoredObject s name object pieces)
    (hstep : DeletionStep env name object st call reply st')
    (hcall : Deletes object.chunks call) : Deleting s name object st' := by
  rcases st with ⟨s₀, log⟩
  rcases st' with ⟨s₂, log'⟩
  rcases hstep with ⟨⟨s₁, huntouched, hstep⟩, rfl⟩
  have h := h.untouched huntouched
  have hreads : call.Reads → Deleting s name object (s₂, log ++ [⟨call, reply⟩]) := by
    intro hreads
    exact h.same (hstep.reads hreads) (isRemoval_reads hreads)
      (isErasure_reads hreads)
  cases call with
  | metadata call =>
      cases call with
      | deleteChunk id => exact h.removeRecord hstored hcall hstep
      | _ => exact hreads hcall
  | storageNode address call =>
      cases call with
      | deleteChunk id => exact h.eraseData hstep
      | _ => exact hreads hcall
  | _ => exact hreads hcall

/-! ## The stages -/

theorem deleteTask_only {ids : List UInt64} {target : UInt64 × String} (h : target.1 ∈ ids) :
    (deleteTask target).Only (Deletes ids) := by
  have hretry : ∀ retries, (retryWithBackoff
      (Deployment.Program.storageNode target.2 (.deleteChunk target.1)) retries).Only
        (Deletes ids) := by
    intro retries
    induction retries with
    | zero => exact ⟨h, fun _ => trivial⟩
    | succ retries ih =>
        refine ⟨h, fun reply => ?_⟩
        change Except Status UInt64 at reply
        cases reply with
        | ok value => trivial
        | error status => exact ih
  have hconnect : (getOrConnect target.2).Only (Deletes ids) := by
    refine ⟨trivial, fun cached => ?_⟩
    change Bool at cached
    cases cached with
    | true => trivial
    | false =>
        refine ⟨trivial, fun connected => ?_⟩
        change Except String Unit at connected
        cases connected <;> trivial
  unfold deleteTask
  refine hconnect.of_bind fun connected => ?_
  split
  · trivial
  · refine (hretry 2).of_bind fun result => ?_
    split <;> trivial

theorem deleteRecords_only {ids : List UInt64} {chunks : List MetaChunk}
    (h : ∀ chunk ∈ chunks, chunk.id ∈ ids) : (deleteRecords chunks).Only (Deletes ids) := by
  induction chunks with
  | nil => trivial
  | cons chunk chunks ih =>
      refine ⟨h chunk List.mem_cons_self, fun _ => ?_⟩
      exact ih fun other hother => h other (List.mem_cons_of_mem _ hother)

/-- The first two stages. -/
theorem stages_only {ids : List UInt64} {chunks : List MetaChunk}
    (h : ∀ chunk ∈ chunks, chunk.id ∈ ids) :
    (Deployment.Program.joinAll ((deleteTargets chunks).map deleteTask)).Only (Deletes ids) := by
  refine ObjectStore.Library.Program.Only.joinAll trivial fun program hprogram => ?_
  rcases List.mem_map.mp hprogram with ⟨target, htarget, rfl⟩
  rcases List.mem_flatMap.mp htarget with ⟨chunk, hchunk, htarget⟩
  rcases List.mem_map.mp htarget with ⟨node, _, rfl⟩
  exact deleteTask_only (h chunk hchunk)

/-- Nothing has been removed before the first call. -/
theorem Deleting.start (hstored : StoredObject s name object pieces) :
    Deleting s name object (s, []) where
  stored := by
    have hremaining : remaining object [] = object := by simp [remaining, removed]
    rw [hremaining]
    exact hstored.stored
  chunks _ _ := rfl
  storageNodes := rfl
  data _ _ _ := rfl

/-- A failed deletion leaves the chunks whose records it could not remove; it has removed
records only if the lookup succeeded. -/
theorem handleDeleteObject_ensures (lib : Library) (hstored : StoredObject s name object pieces) :
    (handleDeleteObject lib name).Ensures (DeletionStep env name object)
      (fun value st => (∃ error, value = .error error) → Deleting s name object st ∧
        ((∀ id, removed st.2 id = false) ∨ validateObjectName lib name = .ok () ∧
          Resolvable s.metadata.metadataStore object.chunks)) (s, []) := by
  have hrely := untouched_readRely name object.chunks
  unfold handleDeleteObject
  split
  · exact fun _ => ⟨.start hstored, .inl fun _ => rfl⟩
  · rename_i hvalid
    intro found st₁ hfound
    have h₁ := Deleting.step (.start hstored) hstored hfound trivial
    rcases st₁ with ⟨s₂, log₁⟩
    rcases hfound with ⟨⟨s₁, hs₁, hfound⟩, rfl⟩
    have hs₂ := hrely.trans _ _ _ hs₁ (hrely.reads _ _ (hfound.reads trivial))
    have hfound := hfound.lookupObject_reply (by decide)
    rw [StorageMetadata.lookupObject_eq (hstored.untouched hs₁).stored] at hfound
    rcases hfound with rfl | ⟨_, status, rfl⟩
    · intro resolved st₂ hresolved
      have h₂ := h₁.step hstored hresolved trivial
      rcases st₂ with ⟨s₄, log₂⟩
      rcases hresolved with ⟨⟨s₃, hs₃, hresolved⟩, rfl⟩
      have hs₃ := hrely.trans _ _ _ hs₂ hs₃
      change Except Status StorageMetadata.Proto.GetObjectResponse at resolved
      cases resolved with
      | error status => exact fun _ => ⟨h₂, .inl fun _ => rfl⟩
      | ok response =>
          rcases hresolved.resolveObject_reply (by decide) with hreply | ⟨_, status, hreply⟩
          · rcases StorageMetadata.resolveObject_eq_ok_iff.mp hreply.symm with ⟨hresolvable, rfl⟩
            have hresolvable := (hs₃.resolvable_iff fun _ hid => hid).mp hresolvable
            have hids : ∀ chunk ∈ (s₃.metadata.metadataStore.response object).chunks,
                chunk.id ∈ object.chunks := fun chunk hchunk =>
              ((response_chunks (hstored.untouched hs₃)).2 chunk hchunk).1
            have hkeeps : ∀ (st : Services × Log) (call : Call) (reply : call.Reply) st',
                Deletes object.chunks call → Deleting s name object st →
                DeletionStep env name object st call reply st' → Deleting s name object st' :=
              fun _ _ _ _ hcall h hstep => h.step hstored hstep hcall
            change (Deployment.Program.joinAll _ >>= _).Ensures _ _ _
            refine .of_bind (((stages_only hids).ensures h₂ hkeeps).mono fun _ st₃ h₃ => ?_)
            refine .of_bind (((deleteRecords_only hids).ensures h₃ hkeeps).mono fun _ st₄ h₄ => ?_)
            intro deleted st₅ hdeleted
            rcases st₄ with ⟨s₄, log₄⟩
            rcases st₅ with ⟨s₆, log₆⟩
            rcases hdeleted with ⟨⟨s₅, hs₅, hdeleted⟩, rfl⟩
            have h₅ := h₄.untouched hs₅
            change Except Status Unit at deleted
            cases deleted with
            | ok value =>
                rintro ⟨error, herror⟩
                cases herror
            | error status =>
                refine fun _ => ⟨?_, .inr ⟨hvalid, hresolvable⟩⟩
                rcases hdeleted.metadata_effect (by decide) with ⟨hnodes, _, m, heffect, hmemory⟩
                cases heffect with
                | refused _ => exact h₅.same ⟨hmemory, hnodes⟩ (fun _ => rfl) fun _ _ => rfl
          · cases hreply
    · exact fun _ => ⟨h₁, .inl fun _ => rfl⟩

/-! ## Failed deletions -/

/-- Some replica still holds the data of the chunk after the deletion. -/
def Survives (s : Services) (log : Log) (id : UInt64) : Prop :=
  ∃ address, Replica s id address ∧ (s.dataAt address id).isSome ∧ erased log address id = false

/-- No chunk record has been removed, or the data of some chunk that is still listed is gone. -/
def Harmless (s : Services) (object : MetaObject) (log : Log) : Prop :=
  (∀ id ∈ object.chunks, removed log id = false) ∨
    ∃ id ∈ object.chunks, removed log id = false ∧ ¬ Survives s log id

/-- A chunk whose record is left has the replicas it had. -/
theorem Deleting.replica_iff {s' : Services} {log : Log} (h : Deleting s name object (s', log))
    {id : UInt64} (hid : id ∈ object.chunks) (hremoved : removed log id = false)
    {address : String} : Replica s' id address ↔ Replica s id address := by
  have hchunk : s'.metadata.metadataStore.chunks[id]? = s.metadata.metadataStore.chunks[id]? := by
    simpa [hremoved] using h.chunks id hid
  have hnodes : s'.metadata.metadataStore.storageNodes = s.metadata.metadataStore.storageNodes :=
    h.storageNodes
  simp only [Replica, hchunk, StorageMetadata.MetadataStore.registeredStorageNodes, hnodes]

/-- A chunk is live as long as one replica has not been erased. -/
theorem Deleting.live_iff {s' : Services} {log : Log} (h : Deleting s name object (s', log))
    {id : UInt64} (hid : id ∈ object.chunks) (hremoved : removed log id = false) :
    Live s' id ↔ Survives s log id := by
  refine exists_congr fun address => and_congr (h.replica_iff hid hremoved) ?_
  rw [h.data id hid address]
  cases erased log address id <;> simp

/-- The object goes on listing the chunks whose records are left. -/
theorem mem_remaining {log : Log} {id : UInt64} :
    id ∈ (remaining object log).chunks ↔ id ∈ object.chunks ∧ removed log id = false := by
  simp [remaining]

/-- A deletion that has removed no record leaves the object as it was. -/
theorem remaining_eq_self {log : Log} (h : ∀ id ∈ object.chunks, removed log id = false) :
    remaining object log = object := by
  have hall : object.chunks.filter (fun id => !removed log id) = object.chunks :=
    List.filter_eq_self.mpr fun id hid => by simp [h id hid]
  unfold remaining
  rw [hall]

/-- What is left of the object is well stored. -/
theorem Deleting.storedObject {s' : Services} {log : Log}
    (h : Deleting s name object (s', log)) (hstored : StoredObject s name object pieces) :
    StoredObject s' name (remaining object log) pieces := by
  constructor
  · exact h.stored
  · exact hstored.nodup.filter _
  · intro id hid
    rcases mem_remaining.mp hid with ⟨hmem, hremoved⟩
    rw [h.chunks id hmem, hremoved]
    exact hstored.recorded id hmem
  · intro id hid address haddress bytes hbytes
    rcases mem_remaining.mp hid with ⟨hmem, hremoved⟩
    rw [h.data id hmem address] at hbytes
    split at hbytes
    · cases hbytes
    · exact hstored.data id hmem address ((h.replica_iff hmem hremoved).mp haddress) bytes hbytes
  · exact fun id hid => hstored.nonempty id (mem_remaining.mp hid).1

/-- The chunks that are left can be resolved if all could be. -/
theorem Deleting.resolvable {s' : Services} {log : Log} (h : Deleting s name object (s', log))
    (hresolvable : Resolvable s.metadata.metadataStore object.chunks) :
    Resolvable s'.metadata.metadataStore (remaining object log).chunks := by
  intro id hid
  rcases mem_remaining.mp hid with ⟨hmem, hkept⟩
  have hchunk := h.chunks id hmem
  rw [hkept] at hchunk
  rcases hresolvable id hmem with ⟨chunk, hrecord, hnodes⟩
  refine ⟨chunk, hchunk.trans hrecord, fun nodeId hnodeId => ?_⟩
  have hregistered : s'.metadata.metadataStore.storageNodes =
      s.metadata.metadataStore.storageNodes := h.storageNodes
  rw [hregistered]
  exact hnodes nodeId hnodeId

/-- A download of an object that others leave alone can succeed. -/
theorem StoredObject.exists_download {ids : List UInt64}
    (hstored : StoredObject s name object pieces) (lib : Library) (download : Download)
    (hids : ∀ id ∈ object.chunks, id ∈ ids)
    (hvalid : validateObjectName lib name = .ok ())
    (hresolvable : Resolvable s.metadata.metadataStore object.chunks)
    (hlive : ∀ id ∈ object.chunks, Live s id) :
    ∃ response s', (download.handler lib name).Runs
        (ObjectStore.Library.Amid (Untouched name ids) (Step env .withoutEffect)) s response s' ∧
      download.Succeeds response ∧ download.Delivers lib (content object pieces) response := by
  have hanswered : ∀ (s : Services) (call : Call), Looks call → ∃ reply s',
      ObjectStore.Library.Amid (Untouched name ids) (Step env .none) s call reply s' := by
    intro s call hcall
    rcases hcall.answered s with ⟨reply, s', hstep⟩
    exact ⟨reply, s', s, (untouched_readRely name _).refl s, hstep⟩
  rcases ObjectStore.Library.Program.exists_runs (download.handler_looks lib name) hanswered s with
    ⟨response, s', hget⟩
  rcases hget.ensures (hstored.download_amid lib (by decide) download hids) with ⟨hsound, hlives⟩
  have hsucceeds := hlives rfl hvalid hresolvable hlive
  refine ⟨response, s', hget.mono fun _ _ _ _ hstep => ?_, hsucceeds, (hsound hsucceeds).1⟩
  exact ObjectStore.Library.Amid.mono (fun _ _ h => h) (fun _ _ _ _ hstep => hstep.of_none) hstep

/-- Without one of its chunks the content is shorter. -/
theorem content_remaining_ne {log : Log} (hnonempty : ∀ id ∈ object.chunks, pieces id ≠ [])
    {id : UInt64} (hid : id ∈ object.chunks) (hremoved : removed log id = true) :
    content (remaining object log) pieces ≠ content object pieces := by
  have hle : ∀ ids : List UInt64,
      ((ids.filter fun id => !removed log id).map pieces).flatten.length ≤
        (ids.map pieces).flatten.length := by
    intro ids
    induction ids with
    | nil => exact Nat.le_refl _
    | cons first ids ih =>
        cases hfirst : removed log first <;> simp [hfirst] at ih ⊢ <;> omega
  have hlt : ∀ ids : List UInt64, (∀ id ∈ ids, pieces id ≠ []) → id ∈ ids →
      ((ids.filter fun id => !removed log id).map pieces).flatten.length <
        (ids.map pieces).flatten.length := by
    intro ids hids hmem
    induction ids with
    | nil => cases hmem
    | cons first ids ih =>
        have hpos := List.length_pos_iff.mpr (hids first List.mem_cons_self)
        have hle := hle ids
        rcases List.mem_cons.mp hmem with rfl | hmem
        · simp [hremoved] at hle ⊢
          omega
        · have ih := ih (fun other hother => hids other (List.mem_cons_of_mem _ hother)) hmem
          cases hfirst : removed log first <;> simp [hfirst] at ih ⊢ <;> omega
  intro heq
  have hlength := hlt object.chunks hnonempty hid
  unfold content remaining at heq
  dsimp only at heq
  rw [heq] at hlength
  omega

/-- After a failed deletion of a stored object every download that succeeds delivers the whole
object exactly when the deletion was harmless. -/
theorem failed_delete_harmless_iff (hlib : lib.Lawful)
    (hstored : StoredObject s name object pieces) {s' : Services} {log : Log}
    {error : StatusCode × String}
    (hruns : (handleDeleteObject lib name).Runs (DeletionStep env name object) (s, [])
      (.error error) (s', log)) (download : Download) :
    (∀ response s'', (download.handler lib name).Runs
        (ObjectStore.Library.Amid (Untouched name object.chunks) (Step env .withoutEffect)) s'
          response s'' →
      download.Succeeds response → download.Delivers lib (content object pieces) response) ↔
      Harmless s object log := by
  rcases hruns.ensures (handleDeleteObject_ensures lib hstored) ⟨error, rfl⟩ with ⟨hleft, hlookup⟩
  have hstored' := hleft.storedObject hstored
  have hsub : ∀ id ∈ (remaining object log).chunks, id ∈ object.chunks := fun id hid =>
    (mem_remaining.mp hid).1
  constructor
  · intro hall
    by_contra hharm
    unfold Harmless at hharm
    push Not at hharm
    rcases hharm with ⟨⟨id, hid, hremoved⟩, hsurvives⟩
    have hremoved : removed log id = true := by simpa using hremoved
    rcases hlookup with hnone | ⟨hvalid, hresolvable⟩
    · cases hremoved.symm.trans (hnone id)
    · have hlive : ∀ other ∈ (remaining object log).chunks, Live s' other := by
        intro other hother
        rcases mem_remaining.mp hother with ⟨hmem, hkept⟩
        exact (hleft.live_iff hmem hkept).mpr (hsurvives other hmem hkept)
      rcases hstored'.exists_download lib download hsub hvalid (hleft.resolvable hresolvable)
        hlive with ⟨response, s'', hget, hsucceeds, hpart⟩
      have hdelivers := hall response s'' hget hsucceeds
      exact content_remaining_ne hstored.nonempty hid hremoved
        (Download.delivers_inj hlib hpart hdelivers)
  · intro hharmless response s'' hget hsucceeds
    rcases (hget.ensures (hstored'.download_amid lib (by decide) download hsub)).1 hsucceeds with
      ⟨hdelivers, hlive⟩
    rcases hharmless with hnone | ⟨id, hid, hkept, hgone⟩
    · rw [remaining_eq_self hnone] at hdelivers
      exact hdelivers
    · have hmem := mem_remaining.mpr ⟨hid, hkept⟩
      exact absurd ((hleft.live_iff hid hkept).mp (hlive id hmem)) hgone

/-! ## One object with one chunk -/

/-- The object `a` with one byte in the chunk 10. -/
def oneObject : Services where
  metadata := ⟨(StorageMetadata.MetadataStore.fresh .empty).afterCalls StorageMetadata.jsonLib
    [.constructStorageNode [1] "http://node-a:50051", .putObject 7 "a",
      .confirmChunk 10 "a" 7 1], ∅⟩
  nodes := (∅ : HashMap String StorageNode.BoundedMap).insert "http://node-a:50051"
    ((StorageNode.BoundedMap.empty 4).handle plainEnvironment.crc32 plainEnvironment.chunkSize
      (.writeChunk 10 [104])).2
  storageConnections := []

theorem plainLibrary_lawful : plainLibrary.Lawful where
  decode_encode bytes := by
    simp [plainLibrary, ObjectStore.Library.Base64.decode_encode]

theorem oneObject_stored :
    StoredObject oneObject "a" ⟨"a", 7, [10], 0⟩ fun _ => [104] where
  stored := by decide +kernel
  nodup := by decide
  recorded id hid := by
    rcases List.mem_singleton.mp hid
    exact ⟨⟨10, "a", 7, [1], .confirmed⟩, by decide +kernel, rfl, rfl⟩
  data id hid address _ bytes hbytes := by
    rcases List.mem_singleton.mp hid
    rcases Services.dataAt_eq_some_iff.mp hbytes with ⟨node, hnode, _⟩
    have hplace : address = "http://node-a:50051" := by
      by_contra hne
      have hother := HashMap.getElem?_insert_of_ne (∅ : HashMap String StorageNode.BoundedMap)
        ((StorageNode.BoundedMap.empty 4).handle plainEnvironment.crc32 plainEnvironment.chunkSize
          (.writeChunk 10 [104])).2 hne
      cases hnode.symm.trans (hother.trans Std.ExtTreeMap.getElem?_empty)
    subst hplace
    have hdata : oneObject.dataAt "http://node-a:50051" 10 = some [104] := by decide +kernel
    cases hbytes.symm.trans hdata
    rfl
  nonempty _ _ := by decide

/-- A call without faults happens amid calls for other objects. -/
theorem deletion_step {ids : List UInt64} {s s' : Services} {call : Call} {reply : call.Reply}
    (h : Step env .withoutEffect s call reply s') :
    ObjectStore.Library.Amid (Untouched name ids) (Step env .withoutEffect) s call reply s' :=
  ⟨s, (untouched_readRely name ids).refl s, h⟩

/-- When every call behind the lookup fails nothing is lost. -/
theorem failed_delete_harmless_iff_refused :
    ∃ s', ∀ response s'', (Download.json.handler plainLibrary "a").Runs
        (ObjectStore.Library.Amid (Untouched "a" [10]) (Step plainEnvironment .withoutEffect)) s'
          response s'' →
      Download.json.Succeeds response → Download.json.Delivers plainLibrary [104] response := by
  let check := fun result : HttpResult DeleteObjectResponsePayload × Services × Log =>
    !result.1.isOk && !removed result.2.2 10
  have hrun : ((handleDeleteObject plainLibrary "a").replay
      (ObjectStore.Library.serveLogged (Services.next plainEnvironment))
      [.serve .plain, .serve .plain, .serve .plain, .serve .plain, .fail "refused",
        .fail "refused", .fail "refused", .fail "refused", .fail "refused"]
      (oneObject, [])).any check = true := by
    decide +kernel
  have hscripted : ∃ value s' log, (handleDeleteObject plainLibrary "a").Runs
      (DeletionStep plainEnvironment "a" ⟨"a", 7, [10], 0⟩) (oneObject, []) value (s', log) ∧
        check (value, s', log) = true :=
    Deployment.scripted (fun _ _ _ _ => deletion_step) hrun
  rcases hscripted with ⟨value, s', log, hruns, hcheck⟩
  rcases Bool.and_eq_true_iff.mp hcheck with ⟨hfails, hkept⟩
  cases value with
  | ok value => cases hfails
  | error error =>
      refine ⟨s', (failed_delete_harmless_iff plainLibrary_lawful oneObject_stored hruns .json).mpr
        (.inl fun id hid => ?_)⟩
      rcases List.mem_singleton.mp hid
      simpa using hkept

/-- When only the last call fails, the object is left without its chunk and is delivered as an
empty one. -/
theorem deleted_content_served :
    ∃ error s' log, (handleDeleteObject plainLibrary "a").Runs
        (DeletionStep plainEnvironment "a" ⟨"a", 7, [10], 0⟩) (oneObject, []) (.error error)
          (s', log) ∧
      ∃ response s'', (Download.json.handler plainLibrary "a").Runs
          (ObjectStore.Library.Amid (Untouched "a" [10]) (Step plainEnvironment .withoutEffect)) s'
            response s'' ∧
        Download.json.Delivers plainLibrary [] response := by
  let delivered := fun response : HttpResult GetObjectResponsePayload =>
    decide (response = .ok ⟨plainLibrary.encode []⟩)
  let check := fun result : HttpResult DeleteObjectResponsePayload × Services × Log =>
    !result.1.isOk && ((handleGetObject plainLibrary "a").replay (Services.next plainEnvironment)
      [.serve .plain, .serve .plain] result.2.1).any fun result => delivered result.1
  have hrun : ((handleDeleteObject plainLibrary "a").replay
      (ObjectStore.Library.serveLogged (Services.next plainEnvironment))
      [.serve .plain, .serve .plain, .serve .plain, .serve .plain, .serve .plain, .serve .plain,
        .fail "refused"] (oneObject, [])).any check = true := by
    decide +kernel
  have hscripted : ∃ value s' log, (handleDeleteObject plainLibrary "a").Runs
      (DeletionStep plainEnvironment "a" ⟨"a", 7, [10], 0⟩) (oneObject, []) value (s', log) ∧
        check (value, s', log) = true :=
    Deployment.scripted (fun _ _ _ _ => deletion_step) hrun
  rcases hscripted with ⟨value, s', log, hruns, hcheck⟩
  rcases Bool.and_eq_true_iff.mp hcheck with ⟨hfails, hget⟩
  cases value with
  | ok value => cases hfails
  | error error =>
      have hdownload : ∃ response s'', (handleGetObject plainLibrary "a").Runs
          (ObjectStore.Library.Amid (Untouched "a" [10]) (Step plainEnvironment .withoutEffect)) s'
            response s'' ∧ delivered response = true :=
        Deployment.scripted_plain (fun _ _ _ _ => deletion_step) hget
      rcases hdownload with ⟨response, s'', hruns', hdelivered⟩
      have hresponse : response = .ok ⟨plainLibrary.encode []⟩ := of_decide_eq_true hdelivered
      exact ⟨error, s', log, hruns, response, s'', hruns', hresponse⟩

end ApiGateway
end ObjectStore
