import ObjectStore.StorageMetadata.ChunkRouting

/-!
# Storage metadata - The chunk index at rest

One node serves requests that change its chunks.  A handler locks the store, lets it go, and
then locks the chunk index once per entry, so handlers overlap; `delete_object` even locks the
store twice.  Between two requests the index should list the chunks of the store.

An id is settled when a handler in flight is still to write its index entry, or else record
and entry agree.  Every action of the node is orderly exactly when it keeps all ids settled.

Main definitions:

- `StorageMetadataImpl.construct`: a node over the files that it finds.
- `BusyNode`, `ServeAction`, `BusyNode.serve`: a node, its requests in flight and their steps.
- `StorageMetadataImpl.IndexMatches`: the index lists the `Confirmed` chunks of the store.
- `ServeAction.Orderly`: when an action keeps store and index in step.

Main results:

- Theorem `BusyNode.settled_serve_iff`: an action keeps ids settled exactly if it is orderly.
- Theorem `index_matches_at_rest`: after orderly actions the index of an idle node matches.
-/

namespace ObjectStore
namespace StorageMetadata

/-! ## One node and its requests -/

/-- `populate_from_chunks`. -/
def populateFromChunks (chunkIndex : HashMap UInt64 String) (chunks : HashMap UInt64 MetaChunk) :
    HashMap UInt64 String :=
  chunks.toList.foldl (fun index entry => index.insert entry.1 entry.2.objectName) chunkIndex

/-- `construct_standalone` over the files that it finds, and `populate_chunk_index`. -/
def StorageMetadataImpl.construct (lib : External) (files : MetaFiles) :
    IoResult StorageMetadataImpl :=
  (MetadataStore.new lib files).map fun store => ⟨store, populateFromChunks ∅ store.chunks⟩

/-- What a handler still has to do after its first lock. -/
inductive Unfinished where
  /-- `delete_object` has read the chunk list and waits for the store again. -/
  | deleting (name : String) (chunkIds : List UInt64)
  /-- The handler waits for the chunk index, or returns if nothing is left to write. -/
  | indexing (writes : List IndexWrite)

/-- A node and the handlers that it has not finished. -/
structure BusyNode where
  node : StorageMetadataImpl
  inFlight : List Unfinished

/-- What happens next at the node. -/
inductive ServeAction where
  /-- A new request locks the store. -/
  | store (io : SaveIo) (request : ForwardRequest)
  | updateObjectChecksum (io : SaveIo) (name : String) (checksum : UInt32) (totalSize : UInt64)
  /-- A new `delete_object` reads the chunk list. -/
  | list (name : String)
  /-- The handler at this place takes its next lock. -/
  | advance (place : Nat) (io : SaveIo)
  /-- Storage nodes come and go. -/
  | registry (storageNodes : HashMap UInt64 MetaStorageNode)

namespace BusyNode

variable (lib : External)

/-- The next lock of the handler at `place`, which has `work` left. -/
def advance (s : BusyNode) (place : Nat) (io : SaveIo) : Unfinished → Option BusyNode
  | .deleting name chunkIds =>
      (s.node.handleStore lib io false (.deleteObject name) chunkIds).map fun halves =>
        ⟨halves.1, s.inFlight.set place (.indexing halves.2)⟩
  | .indexing (write :: writes) =>
      some ⟨s.node.applyIndex write, s.inFlight.set place (.indexing writes)⟩
  | .indexing [] => some ⟨s.node, s.inFlight.eraseIdx place⟩

/-- One action; none when it cannot happen. -/
def serve (s : BusyNode) : ServeAction → Option BusyNode
  -- `delete_object` begins with the chunk list
  | .store _ (.deleteObject _) => none
  | .store io request =>
      (s.node.handleStore lib io false request []).map fun halves =>
        ⟨halves.1, s.inFlight ++ [.indexing halves.2]⟩
  | .updateObjectChecksum io name checksum totalSize =>
      some ⟨(s.node.updateObjectChecksum lib io name checksum totalSize).2, s.inFlight⟩
  | .list name => some ⟨s.node, s.inFlight ++ [.deleting name (s.node.listedChunks name)]⟩
  | .advance place io => s.inFlight[place]? >>= s.advance lib place io
  | .registry storageNodes =>
      some ⟨s.node.withStore { s.node.metadataStore with storageNodes := storageNodes },
        s.inFlight⟩

/-- One action after the other. -/
def serveAll (s : BusyNode) : List ServeAction → Option BusyNode
  | [] => some s
  | action :: actions => s.serve lib action >>= fun s' => s'.serveAll actions

end BusyNode

/-! ## Records and index entries -/

/-- Every `Confirmed` chunk is indexed under its object, and every indexed id has a record. -/
def StorageMetadataImpl.IndexMatches (self : StorageMetadataImpl) : Prop :=
  (∀ (id : UInt64) (chunk : MetaChunk), self.metadataStore.chunks[id]? = some chunk →
      chunk.status = .confirmed → self.chunkIndex[id]? = some chunk.objectName) ∧
    ∀ id, id ∈ self.chunkIndex → id ∈ self.metadataStore.chunks

/-- The same, for the record and the entry of one id. -/
def Agree (record : Option MetaChunk) (entry : Option String) : Prop :=
  (∀ chunk, record = some chunk → chunk.status = .confirmed → entry = some chunk.objectName) ∧
    (record = none → entry = none)

/-- The index matches when it agrees with every record. -/
theorem StorageMetadataImpl.indexMatches_iff (self : StorageMetadataImpl) :
    self.IndexMatches ↔
      ∀ id : UInt64, Agree self.metadataStore.chunks[id]? self.chunkIndex[id]? := by
  have hkeys : (∀ id, id ∈ self.chunkIndex → id ∈ self.metadataStore.chunks) ↔
      ∀ id : UInt64, self.metadataStore.chunks[id]? = none → self.chunkIndex[id]? = none := by
    refine forall_congr' fun id => ?_
    simp only [Std.ExtTreeMap.mem_iff_isSome_getElem?, ← Option.isNone_iff_eq_none,
      ← Option.not_isSome]
    grind
  unfold StorageMetadataImpl.IndexMatches Agree
  rw [hkeys, ← forall_and]

theorem agree_none {entry : Option String} : Agree none entry ↔ entry = none := by
  simp [Agree]

/-- A confirmed chunk has its entry. -/
theorem agree_confirmed {chunk : MetaChunk} (hstatus : chunk.status = .confirmed)
    {entry : Option String} : Agree (some chunk) entry ↔ entry = some chunk.objectName := by
  simp [Agree, hstatus]

/-- A pending chunk may have one or not. -/
theorem agree_pending {chunk : MetaChunk} (hstatus : chunk.status = .pending)
    (entry : Option String) : Agree (some chunk) entry := by
  simp [Agree, hstatus]

/-! ## Settled ids -/

/-- The chunk that the write is about. -/
def IndexWrite.chunkId : IndexWrite → UInt64
  | .insert chunkId _ => chunkId
  | .remove chunkId => chunkId

/-- The handler is still to write the index entry of this id. -/
def Unfinished.Owes (id : UInt64) : Unfinished → Prop
  | .deleting _ _ => False
  | .indexing writes => ∃ write ∈ writes, write.chunkId = id

/-- Some handler is. -/
def Owed (inFlight : List Unfinished) (id : UInt64) : Prop :=
  ∃ work ∈ inFlight, work.Owes id

/-- One more handler at work. -/
theorem owed_append {inFlight : List Unfinished} {work : Unfinished} {id : UInt64} :
    Owed (inFlight ++ [work]) id ↔ Owed inFlight id ∨ work.Owes id := by
  simp only [Owed, List.mem_append, List.mem_singleton, or_and_right, exists_or, exists_eq_left]

/-- The order of the handlers does not matter. -/
theorem owed_of_perm {inFlight inFlight' : List Unfinished} (h : inFlight.Perm inFlight')
    {id : UInt64} : Owed inFlight id ↔ Owed inFlight' id := by
  simp only [Owed, h.mem_iff]

theorem owed_cons {inFlight : List Unfinished} {work : Unfinished} {id : UInt64} :
    Owed (work :: inFlight) id ↔ work.Owes id ∨ Owed inFlight id := by
  simp only [Owed, List.mem_cons, or_and_right, exists_or, exists_eq_left]

theorem owed_get {inFlight : List Unfinished} {place : Nat} {work : Unfinished}
    (hwork : inFlight[place]? = some work) {id : UInt64} :
    Owed inFlight id ↔ work.Owes id ∨ Owed (inFlight.eraseIdx place) id := by
  rcases List.getElem?_eq_some_iff.mp hwork with ⟨hlt, rfl⟩
  rw [← owed_cons]
  exact owed_of_perm (List.getElem_cons_eraseIdx_perm hlt).symm

/-- A handler goes on. -/
theorem owed_set {inFlight : List Unfinished} {place : Nat} {work : Unfinished}
    (hwork : inFlight[place]? = some work) {next : Unfinished} {id : UInt64} :
    Owed (inFlight.set place next) id ↔ next.Owes id ∨ Owed (inFlight.eraseIdx place) id := by
  have hlt := (List.getElem?_eq_some_iff.mp hwork).1
  rw [← owed_cons]
  exact owed_of_perm (List.set_perm_cons_eraseIdx hlt next)

namespace BusyNode

/-- A handler in flight will write the entry of the id, or record and entry agree. -/
def SettledAt (s : BusyNode) (id : UInt64) : Prop :=
  Owed s.inFlight id ∨ Agree s.node.metadataStore.chunks[id]? s.node.chunkIndex[id]?

/-- No handler is at work. -/
def Settled (s : BusyNode) : Prop :=
  ∀ id, s.SettledAt id

/-- Where nothing is in flight, settled means that the index matches. -/
theorem settled_iff_of_rest {s : BusyNode} (hrest : s.inFlight = []) :
    s.Settled ↔ s.node.IndexMatches := by
  rw [StorageMetadataImpl.indexMatches_iff]
  refine forall_congr' fun id => ?_
  have hnone : ¬ Owed s.inFlight id := by simp [Owed, hrest]
  exact or_iff_right hnone

end BusyNode

/-! ## Orderly actions -/

/-- The record that the index write supposes. -/
def IndexWrite.Fits (chunks : HashMap UInt64 MetaChunk) : IndexWrite → Prop
  | .insert chunkId objectName =>
      ∃ chunk ∈ chunks[chunkId]?, chunk.status = .confirmed → chunk.objectName = objectName
  | .remove chunkId => ∀ chunk ∈ chunks[chunkId]?, chunk.status = .pending

namespace BusyNode

/-- The id is in the index under this name, or a handler will still write its entry. -/
def Covered (s : BusyNode) (id : UInt64) (name : String) : Prop :=
  Owed s.inFlight id ∨ s.node.chunkIndex[id]? = some name

/-- The id is not in the index, or a handler will still write its entry. -/
def Released (s : BusyNode) (id : UInt64) : Prop :=
  Owed s.inFlight id ∨ s.node.chunkIndex[id]? = none

end BusyNode

/-- The request changes no record without an index write for it. -/
def ForwardRequest.Orderly (s : BusyNode) (io : SaveIo) : ForwardRequest → Prop
  | .putChunk draws pick objectName _ =>
      s.node.metadataStore.chooseStorageNode pick = none ∨
        ∀ id ∈ MetadataStore.generateUniqueId draws s.node.metadataStore.chunks,
          (objectName ∈ s.node.metadataStore.objects ∧ io = .completes) ∨ s.Covered id objectName
  | .confirmChunk chunkId objectName _ storageNodeId =>
      storageNodeId ∈ s.node.metadataStore.storageNodes →
      objectName ∈ s.node.metadataStore.objects →
      (∀ chunk ∈ s.node.metadataStore.chunks[chunkId]?, chunk.status = .pending) →
        io = .completes ∨ s.Covered chunkId objectName
  | .deleteChunk chunkId =>
      ∀ chunk ∈ s.node.metadataStore.chunks[chunkId]?,
        (chunk.objectName ∈ s.node.metadataStore.objects ∧ io = .completes) ∨ s.Released chunkId
  | _ => True

/-- The next lock of a handler fits what the others have done since its last one. -/
def Unfinished.Orderly (s : BusyNode) (place : Nat) (io : SaveIo) : Unfinished → Prop
  | .deleting name chunkIds =>
      ∀ object ∈ s.node.metadataStore.objects[name]?, ∀ id ∈ object.chunks,
        (id ∈ chunkIds ∧ io = .completes) ∨ s.Released id
  | .indexing (write :: writes) =>
      write.Fits s.node.metadataStore.chunks ∨
        (∃ later ∈ writes, later.chunkId = write.chunkId) ∨
          Owed (s.inFlight.eraseIdx place) write.chunkId
  | .indexing [] => True

/-- The action keeps the calls on one chunk apart. -/
def ServeAction.Orderly (s : BusyNode) : ServeAction → Prop
  | .store io request => request.Orderly s io
  | .advance place io => ∀ work ∈ s.inFlight[place]?, work.Orderly s place io
  | _ => True

/-- Every action is orderly in the state that it meets. -/
def BusyNode.OrderlyAll (lib : External) (s : BusyNode) : List ServeAction → Prop
  | [] => True
  | action :: actions =>
      action.Orderly s ∧ ∀ s' ∈ s.serve lib action, s'.OrderlyAll lib actions

section

variable {s : BusyNode} {io : SaveIo}

instance : Decidable (io = .completes) :=
  match io with
  | .completes => isTrue rfl
  | .stops _ _ => isFalse SaveIo.noConfusion

instance {id : UInt64} {work : Unfinished} : Decidable (work.Owes id) :=
  match work with
  | .deleting _ _ => instDecidableFalse
  | .indexing writes => inferInstanceAs (Decidable (∃ write ∈ writes, write.chunkId = id))

instance {inFlight : List Unfinished} {id : UInt64} : Decidable (Owed inFlight id) :=
  inferInstanceAs (Decidable (∃ work ∈ inFlight, work.Owes id))

instance {chunks : HashMap UInt64 MetaChunk} {write : IndexWrite} : Decidable (write.Fits chunks) :=
  match write with
  | .insert chunkId objectName =>
      inferInstanceAs (Decidable (∃ chunk ∈ chunks[chunkId]?,
        chunk.status = .confirmed → chunk.objectName = objectName))
  | .remove chunkId =>
      inferInstanceAs (Decidable (∀ chunk ∈ chunks[chunkId]?, chunk.status = .pending))

instance {id : UInt64} {name : String} : Decidable (s.Covered id name) :=
  inferInstanceAs (Decidable (_ ∨ _))

instance {id : UInt64} : Decidable (s.Released id) :=
  inferInstanceAs (Decidable (_ ∨ _))

instance {request : ForwardRequest} : Decidable (request.Orderly s io) :=
  match request with
  | .putChunk .. =>
      -- ids are drawn from a finite type, which is not to be searched
      @instDecidableOr _ _ inferInstance (Option.decidableForallMem _)
  | .confirmChunk .. => inferInstanceAs (Decidable (_ → _))
  | .deleteChunk chunkId =>
      inferInstanceAs (Decidable (∀ chunk ∈ s.node.metadataStore.chunks[chunkId]?, _ ∨ _))
  | .putObject .. | .getObject _ | .deleteObject _ | .allocateChunk .. | .getChunk _
  | .addChunkReplica .. => instDecidableTrue

instance {place : Nat} {work : Unfinished} : Decidable (work.Orderly s place io) :=
  match work with
  | .deleting name _ =>
      inferInstanceAs (Decidable (∀ object ∈ s.node.metadataStore.objects[name]?,
        ∀ id ∈ object.chunks, _ ∨ _))
  | .indexing (_ :: _) => inferInstanceAs (Decidable (_ ∨ _))
  | .indexing [] => instDecidableTrue

instance {action : ServeAction} : Decidable (action.Orderly s) :=
  match action with
  | .store io request => inferInstanceAs (Decidable (request.Orderly s io))
  | .advance place io =>
      inferInstanceAs (Decidable (∀ work ∈ s.inFlight[place]?, work.Orderly s place io))
  | .updateObjectChecksum .. | .list _ | .registry _ => instDecidableTrue

instance decidableOrderlyAll (lib : External) :
    (actions : List ServeAction) → (s : BusyNode) → Decidable (s.OrderlyAll lib actions)
  | [], _ => instDecidableTrue
  | action :: actions, s =>
      have := decidableOrderlyAll lib actions
      inferInstanceAs (Decidable (action.Orderly s ∧
        ∀ s' ∈ s.serve lib action, s'.OrderlyAll lib actions))

end

/-! ## What the store half of a handler leaves -/

section

variable {lib : External} {io : SaveIo} {node after : StorageMetadataImpl}
  {chunkIds : List UInt64} {writes : List IndexWrite}

/-- A `save` keeps the records, and returns `Ok` when its file steps complete. -/
theorem saveThen_cases {α : Type} (m : MetadataStore) (value : α) :
    (m.saveThen lib io value).2.chunks = m.chunks ∧
      ((io = .completes ∧ (m.saveThen lib io value).1 = .ok value) ∨
        (io ≠ .completes ∧ ∃ error, (m.saveThen lib io value).1 = .error error)) := by
  have hchunks := save_chunks lib io m
  have hok := @MetadataStore.save_ok_iff lib io m
  unfold MetadataStore.saveThen
  split
  · rename_i hsave
    rw [hsave] at hchunks hok
    exact ⟨hchunks, .inl ⟨hok.mp rfl, rfl⟩⟩
  · rename_i error _ hsave
    rw [hsave] at hchunks hok
    refine ⟨hchunks, .inr ⟨fun hio => ?_, error, rfl⟩⟩
    cases hok.mpr hio

/-- What a handler is to write when its method ends like this. -/
def WritesWhen {α : Type} (result : IoResult α) (onOk : α → List IndexWrite)
    (writes : List IndexWrite) : Prop :=
  (∃ value, result = .ok value ∧ writes = onOk value) ∨
    (∃ error, result = .error error) ∧ writes = []

/-- Saved: the entries follow.  Not saved: they do not, and the records have changed anyway. -/
theorem writesWhen_saveThen {α : Type} {m : MetadataStore} {value : α}
    {onOk : α → List IndexWrite} (h : WritesWhen (m.saveThen lib io value).1 onOk writes) :
    (io = .completes ∧ writes = onOk value) ∨ io ≠ .completes ∧ writes = [] := by
  rcases (saveThen_cases m value).2 with ⟨hio, hok⟩ | ⟨hio, error, herror⟩
  · rcases h with ⟨value', hvalue, hwrites⟩ | ⟨⟨error, herror⟩, _⟩
    · rw [hok] at hvalue
      cases hvalue
      exact .inl ⟨hio, hwrites⟩
    · rw [hok] at herror
      cases herror
  · rcases h with ⟨value', hvalue, _⟩ | ⟨_, hwrites⟩
    · rw [herror] at hvalue
      cases hvalue
    · exact .inr ⟨hio, hwrites⟩

/-- A refused request owes the index nothing. -/
theorem writesWhen_error {α : Type} {error : IoError} {onOk : α → List IndexWrite}
    (h : WritesWhen (.error error) onOk writes) : writes = [] := by
  rcases h with ⟨_, hvalue, _⟩ | ⟨_, hwrites⟩
  · cases hvalue
  · exact hwrites

/-- `put_chunk` owes the index an entry. -/
theorem putChunk_handleStore {draws : List UInt64} {pick : Nat} {name : String}
    {checksum : UInt32}
    (h : node.handleStore lib io false (.putChunk draws pick name checksum) chunkIds =
      some (after, writes)) :
    ∃ result, node.metadataStore.putChunk lib io draws pick name checksum = some result ∧
      after = node.withStore result.2 ∧
      WritesWhen result.1 (fun value => [.insert value.1 name]) writes := by
  rcases Option.map_eq_some_iff.mp h with ⟨_, houtcome, heq⟩
  rcases Option.map_eq_some_iff.mp houtcome with ⟨_, hhandler, rfl⟩
  rcases Option.map_eq_some_iff.mp hhandler with ⟨⟨⟨kind, message⟩ | value, store⟩, hresult, rfl⟩
  · refine ⟨_, hresult, ?_⟩
    cases kind <;> cases heq <;> exact ⟨rfl, .inr ⟨⟨_, rfl⟩, rfl⟩⟩
  · refine ⟨_, hresult, ?_⟩
    cases heq
    exact ⟨rfl, .inl ⟨_, rfl, rfl⟩⟩

/-- `confirm_chunk` owes the index an entry. -/
theorem confirmChunk_handleStore {id : UInt64} {name : String} {checksum : UInt32}
    {nodeId : UInt64}
    (h : node.handleStore lib io false (.confirmChunk id name checksum nodeId) chunkIds =
      some (after, writes)) :
    after = node.withStore (node.metadataStore.confirmChunk lib io id name checksum nodeId).2 ∧
      WritesWhen (node.metadataStore.confirmChunk lib io id name checksum nodeId).1
        (fun _ => [.insert id name]) writes := by
  rcases Option.map_eq_some_iff.mp h with ⟨_, houtcome, heq⟩
  cases houtcome
  cases heq
  unfold StorageMetadataImpl.confirmChunk
  rcases node.metadataStore.confirmChunk lib io id name checksum nodeId with
    ⟨⟨kind, message⟩ | value, store⟩
  · cases kind <;> exact ⟨rfl, .inr ⟨⟨_, rfl⟩, rfl⟩⟩
  · exact ⟨rfl, .inl ⟨_, rfl, rfl⟩⟩

/-- `delete_chunk` owes the index a removal. -/
theorem deleteChunk_handleStore {id : UInt64}
    (h : node.handleStore lib io false (.deleteChunk id) chunkIds = some (after, writes)) :
    after = node.withStore (node.metadataStore.deleteChunk lib io id).2 ∧
      WritesWhen (node.metadataStore.deleteChunk lib io id).1 (fun _ => [.remove id]) writes := by
  rcases Option.map_eq_some_iff.mp h with ⟨_, houtcome, heq⟩
  cases houtcome
  cases heq
  unfold StorageMetadataImpl.deleteChunk
  rcases node.metadataStore.deleteChunk lib io id with ⟨⟨kind, message⟩ | value, store⟩
  · cases kind <;> exact ⟨rfl, .inr ⟨⟨_, rfl⟩, rfl⟩⟩
  · exact ⟨rfl, .inl ⟨_, rfl, rfl⟩⟩

/-- `delete_object` owes the index the removal of what it has read before. -/
theorem deleteObject_handleStore {name : String}
    (h : node.handleStore lib io false (.deleteObject name) chunkIds = some (after, writes)) :
    after = node.withStore (node.metadataStore.deleteObject lib io name).2 ∧
      WritesWhen (node.metadataStore.deleteObject lib io name).1
        (fun _ => chunkIds.map .remove) writes := by
  rcases Option.map_eq_some_iff.mp h with ⟨_, houtcome, heq⟩
  cases houtcome
  cases heq
  unfold StorageMetadataImpl.deleteObject
  dsimp only
  rcases node.metadataStore.deleteObject lib io name with ⟨⟨kind, message⟩ | value, store⟩
  · cases kind <;> exact ⟨rfl, .inr ⟨⟨_, rfl⟩, rfl⟩⟩
  · exact ⟨rfl, .inl ⟨_, rfl, rfl⟩⟩

/-! ## Store steps -/

variable {s : BusyNode} {store : MetadataStore} {inFlight : List Unfinished}

/-- After a store step only the ids whose records have changed are to be looked at. -/
theorem settled_store_iff (hsettled : s.Settled)
    (hflight : ∀ id, Owed inFlight id ↔
      (∃ write ∈ writes, write.chunkId = id) ∨ Owed s.inFlight id) (changed : UInt64 → Prop)
    (hframe : ∀ id : UInt64, ¬ changed id →
      store.chunks[id]? = s.node.metadataStore.chunks[id]?) :
    (⟨s.node.withStore store, inFlight⟩ : BusyNode).Settled ↔
      ∀ id, changed id → (∃ write ∈ writes, write.chunkId = id) ∨ Owed s.inFlight id ∨
        Agree store.chunks[id]? s.node.chunkIndex[id]? := by
  have hat : ∀ id, (⟨s.node.withStore store, inFlight⟩ : BusyNode).SettledAt id ↔
      (∃ write ∈ writes, write.chunkId = id) ∨ Owed s.inFlight id ∨
        Agree store.chunks[id]? s.node.chunkIndex[id]? := by
    intro id
    rw [BusyNode.SettledAt, hflight, or_assoc]
    rfl
  constructor
  · exact fun h id _ => (hat id).mp (h id)
  · intro h id
    by_cases hchanged : changed id
    · exact (hat id).mpr (h id hchanged)
    · rw [hat, hframe id hchanged]
      exact .inr (hsettled id)

/-- A store step that changes no record. -/
theorem settled_of_same_records (hsettled : s.Settled)
    (hflight : ∀ id, Owed inFlight id ↔
      (∃ write ∈ writes, write.chunkId = id) ∨ Owed s.inFlight id)
    (hrecords : store.chunks = s.node.metadataStore.chunks) :
    (⟨s.node.withStore store, inFlight⟩ : BusyNode).Settled := by
  refine (settled_store_iff hsettled hflight (fun _ => False) ?_).mpr ?_
  · exact fun id _ => by rw [hrecords]
  · exact fun id => False.elim

/-- A store step that confirms one chunk. -/
theorem settled_confirmed_iff (hsettled : s.Settled)
    (hflight : ∀ id, Owed inFlight id ↔
      (∃ write ∈ writes, write.chunkId = id) ∨ Owed s.inFlight id) {id : UInt64}
    {chunk : MetaChunk} (hstatus : chunk.status = .confirmed)
    (hrecords : store.chunks = s.node.metadataStore.chunks.insert id chunk) :
    (⟨s.node.withStore store, inFlight⟩ : BusyNode).Settled ↔
      (∃ write ∈ writes, write.chunkId = id) ∨ s.Covered id chunk.objectName := by
  rw [settled_store_iff hsettled hflight (fun other => other = id), forall_eq, hrecords,
    Std.ExtTreeMap.getElem?_insert_self, agree_confirmed hstatus]
  · rfl
  · intro other hne
    rw [hrecords, HashMap.getElem?_insert_of_ne _ _ hne]

/-- A confirmed chunk whose entry follows if its object is saved. -/
theorem settled_attached_iff (hsettled : s.Settled) {id nodeId : UInt64} {name : String}
    {object : MetaObject} {checksum : UInt32} {α : Type} {value : α}
    {onOk : α → List IndexWrite}
    (hwrites : WritesWhen ((s.node.metadataStore.withAttached id name object checksum
      nodeId).saveThen lib io value).1 onOk writes) (honOk : onOk value = [.insert id name]) :
    (⟨s.node.withStore ((s.node.metadataStore.withAttached id name object checksum
        nodeId).saveThen lib io value).2, s.inFlight ++ [.indexing writes]⟩ : BusyNode).Settled ↔
      io = .completes ∨ s.Covered id name := by
  have hflight := fun id => (@owed_append s.inFlight (.indexing writes) id).trans or_comm
  have hrecords := (@saveThen_cases lib io _
    (s.node.metadataStore.withAttached id name object checksum nodeId) value).1
  rw [settled_confirmed_iff hsettled hflight rfl hrecords]
  rcases writesWhen_saveThen hwrites with ⟨hio, rfl⟩ | ⟨hio, rfl⟩
  · simp [hio, honOk, IndexWrite.chunkId]
  · simp only [List.not_mem_nil, false_and, exists_false, false_or, hio]
    rfl

/-- A new chunk is settled once its entry is owed. -/
theorem putChunk_settled_iff (hsettled : s.Settled) {draws : List UInt64} {pick : Nat}
    {name : String} {checksum : UInt32}
    (h : s.node.handleStore lib io false (.putChunk draws pick name checksum) [] =
      some (after, writes)) :
    (⟨after, s.inFlight ++ [.indexing writes]⟩ : BusyNode).Settled ↔
      (ForwardRequest.putChunk draws pick name checksum).Orderly s io := by
  have hflight := fun id => (@owed_append s.inFlight (.indexing writes) id).trans or_comm
  rcases putChunk_handleStore h with ⟨result, hresult, rfl, hwrites⟩
  rcases MetadataStore.putChunk_effect hresult with
    ⟨hnode, rfl⟩ | ⟨id, storageNode, hid, hnode, hcase⟩
  · exact iff_of_true (settled_of_same_records hsettled hflight rfl) (.inl hnode)
  · have horderly : (ForwardRequest.putChunk draws pick name checksum).Orderly s io ↔
        (name ∈ s.node.metadataStore.objects ∧ io = .completes) ∨ s.Covered id name := by
      simp only [ForwardRequest.Orderly, hnode, hid, Option.mem_def, reduceCtorEq, false_or,
        Option.some.injEq, forall_eq']
    rw [horderly]
    rcases hcase with ⟨hname, rfl⟩ | ⟨object, hname, rfl⟩
    · -- the record stays behind, and the handler ends
      have habsent : name ∉ s.node.metadataStore.objects := by simpa using hname
      have hnone := writesWhen_error hwrites
      rw [settled_confirmed_iff hsettled hflight rfl rfl]
      simp [hnone, habsent, MetaChunk.addStorageNode, MetaChunk.new]
    · have hmem : name ∈ s.node.metadataStore.objects :=
        HashMap.mem_iff_exists_getElem?.mpr ⟨object, hname⟩
      rw [settled_attached_iff hsettled hwrites rfl]
      simp only [hmem, true_and]

/-- `confirm_chunk` past its checks. -/
theorem confirmChunk_attaches {m : MetadataStore} {id : UInt64} {name : String}
    {object : MetaObject} {nodeId : UInt64} (hnode : nodeId ∈ m.storageNodes)
    (hname : m.objects[name]? = some object)
    (hpending : ∀ chunk, m.chunks[id]? = some chunk → chunk.status = .pending)
    (checksum : UInt32) :
    m.confirmChunk lib io id name checksum nodeId =
      (m.withAttached id name object checksum nodeId).saveThen lib io () := by
  have hunconfirmed : (m.chunks[id]?).any (·.status = .confirmed) = false := by
    cases hid : m.chunks[id]? with
    | none => rfl
    | some chunk => simp [hpending chunk hid]
  simp [MetadataStore.confirmChunk, hnode, hunconfirmed, hname, MetadataStore.withAttached,
    MetadataStore.withChunk, MetadataStore.withObject]

theorem confirmChunk_settled_iff (hsettled : s.Settled) {id : UInt64} {name : String}
    {checksum : UInt32} {nodeId : UInt64}
    (h : s.node.handleStore lib io false (.confirmChunk id name checksum nodeId) [] =
      some (after, writes)) :
    (⟨after, s.inFlight ++ [.indexing writes]⟩ : BusyNode).Settled ↔
      (ForwardRequest.confirmChunk id name checksum nodeId).Orderly s io := by
  have hflight := fun id => (@owed_append s.inFlight (.indexing writes) id).trans or_comm
  rcases confirmChunk_handleStore h with ⟨rfl, hwrites⟩
  by_cases hchecks : nodeId ∈ s.node.metadataStore.storageNodes ∧
      name ∈ s.node.metadataStore.objects ∧
      ∀ chunk, s.node.metadataStore.chunks[id]? = some chunk → chunk.status = .pending
  · rcases hchecks with ⟨hnode, hmem, hpending⟩
    rcases HashMap.mem_iff_exists_getElem?.mp hmem with ⟨object, hname⟩
    rw [confirmChunk_attaches hnode hname hpending] at hwrites ⊢
    rw [settled_attached_iff hsettled hwrites rfl]
    constructor
    · exact fun hcovered _ _ _ => hcovered
    · exact fun horderly => horderly hnode hmem hpending
  · refine iff_of_true (settled_of_same_records hsettled hflight ?_)
      fun hnode hmem hpending => absurd ⟨hnode, hmem, hpending⟩ hchecks
    rcases MetadataStore.confirmChunk_effect lib io s.node.metadataStore id name checksum nodeId
      with ⟨error, hrefused⟩ | ⟨object, hname, hnode, hpending, _⟩
    · rw [hrefused]
    · have hmem : name ∈ s.node.metadataStore.objects :=
        HashMap.mem_iff_exists_getElem?.mpr ⟨object, hname⟩
      exact absurd ⟨hnode, hmem, hpending⟩ hchecks

/-- A store step that removes records. -/
theorem settled_removed_iff (hsettled : s.Settled)
    (hflight : ∀ id, Owed inFlight id ↔
      (∃ write ∈ writes, write.chunkId = id) ∨ Owed s.inFlight id) (removed : UInt64 → Prop)
    (hremoved : ∀ id : UInt64, removed id → store.chunks[id]? = none)
    (hframe : ∀ id : UInt64, ¬ removed id →
      store.chunks[id]? = s.node.metadataStore.chunks[id]?) :
    (⟨s.node.withStore store, inFlight⟩ : BusyNode).Settled ↔
      ∀ id, removed id → (∃ write ∈ writes, write.chunkId = id) ∨ s.Released id := by
  rw [settled_store_iff hsettled hflight removed hframe]
  refine forall₂_congr fun id hid => ?_
  rw [hremoved id hid, agree_none]
  rfl

theorem deleteChunk_settled_iff (hsettled : s.Settled) {id : UInt64}
    (h : s.node.handleStore lib io false (.deleteChunk id) [] = some (after, writes)) :
    (⟨after, s.inFlight ++ [.indexing writes]⟩ : BusyNode).Settled ↔
      (ForwardRequest.deleteChunk id).Orderly s io := by
  have hflight := fun id => (@owed_append s.inFlight (.indexing writes) id).trans or_comm
  rcases deleteChunk_handleStore h with ⟨rfl, hwrites⟩
  rcases MetadataStore.deleteChunk_effect lib io s.node.metadataStore id with
    ⟨hid, hrefused⟩ | ⟨chunk, hid, hcase⟩
  · refine iff_of_true (settled_of_same_records hsettled hflight ?_) ?_
    · rw [hrefused]
    · intro chunk hchunk
      rw [hid] at hchunk
      cases hchunk
  · have horderly : (ForwardRequest.deleteChunk id).Orderly s io ↔
        (chunk.objectName ∈ s.node.metadataStore.objects ∧ io = .completes) ∨ s.Released id := by
      constructor
      · exact fun horderly => horderly chunk hid
      · intro hreleased other hother
        rw [hid] at hother
        cases hother
        exact hreleased
    have herased : ∀ other : UInt64, ¬ other = id →
        (s.node.metadataStore.chunks.erase id)[other]? = s.node.metadataStore.chunks[other]? :=
      fun other hne => HashMap.getElem?_erase_of_ne _ hne
    have hgone : ∀ other : UInt64, other = id →
        (s.node.metadataStore.chunks.erase id)[other]? = none := by
      rintro other rfl
      exact Std.ExtTreeMap.getElem?_erase_self
    rw [horderly]
    rcases hcase with ⟨hname, hresult⟩ | ⟨object, hname, hresult⟩
    · -- the record is gone, and the handler ends
      have habsent : chunk.objectName ∉ s.node.metadataStore.objects := by simpa using hname
      rw [hresult] at hwrites ⊢
      have hnone := writesWhen_error hwrites
      rw [settled_removed_iff hsettled hflight (fun other => other = id) hgone herased]
      simp [hnone, habsent]
    · have hmem : chunk.objectName ∈ s.node.metadataStore.objects :=
        HashMap.mem_iff_exists_getElem?.mpr ⟨object, hname⟩
      rw [hresult, ← saveThen_unit] at hwrites
      rw [hresult, ← saveThen_unit]
      have hrecords := (@saveThen_cases lib io _ ((s.node.metadataStore.withoutChunk id).withObject
        chunk.objectName (object.removeChunk id)) ()).1
      rw [settled_removed_iff hsettled hflight (fun other => other = id)
        (by rw [hrecords]; exact hgone) (by rw [hrecords]; exact herased), forall_eq]
      rcases writesWhen_saveThen hwrites with ⟨hio, rfl⟩ | ⟨hio, rfl⟩
      · simp [hio, hmem, IndexWrite.chunkId]
      · simp [hio]

/-- The second lock of `delete_object`. -/
theorem deleteObject_settled_iff (hsettled : s.Settled) {place : Nat} {name : String}
    (hwork : s.inFlight[place]? = some (.deleting name chunkIds))
    (h : s.node.handleStore lib io false (.deleteObject name) chunkIds = some (after, writes)) :
    (⟨after, s.inFlight.set place (.indexing writes)⟩ : BusyNode).Settled ↔
      (Unfinished.deleting name chunkIds).Orderly s place io := by
  have hflight : ∀ id, Owed (s.inFlight.set place (.indexing writes)) id ↔
      (∃ write ∈ writes, write.chunkId = id) ∨ Owed s.inFlight id := by
    intro id
    rw [owed_set hwork, owed_get hwork]
    simp only [Unfinished.Owes, false_or]
  rcases deleteObject_handleStore h with ⟨rfl, hwrites⟩
  rcases MetadataStore.deleteObject_effect lib io s.node.metadataStore name with
    ⟨hname, hrefused⟩ | ⟨object, hname, hresult⟩
  · refine iff_of_true (settled_of_same_records hsettled hflight ?_) ?_
    · rw [hrefused]
    · intro object hobject
      rw [hname] at hobject
      cases hobject
  · have horderly : (Unfinished.deleting name chunkIds).Orderly s place io ↔
        ∀ id ∈ object.chunks, (id ∈ chunkIds ∧ io = .completes) ∨ s.Released id := by
      constructor
      · exact fun horderly => horderly object hname
      · intro hreleased other hother
        rw [hname] at hother
        cases hother
        exact hreleased
    rw [hresult, ← saveThen_unit] at hwrites
    rw [horderly, hresult, ← saveThen_unit]
    have hrecords := (@saveThen_cases lib io _
      (s.node.metadataStore.withoutObject name object) ()).1
    have hchunks : ∀ id : UInt64, (s.node.metadataStore.withoutObject name object).chunks[id]? =
        if id ∈ object.chunks then none else s.node.metadataStore.chunks[id]? :=
      fun id => HashMap.getElem?_foldl_erase object.chunks s.node.metadataStore.chunks id
    rw [settled_removed_iff hsettled hflight (· ∈ object.chunks)]
    · refine forall₂_congr fun id _ => ?_
      rcases writesWhen_saveThen hwrites with ⟨hio, rfl⟩ | ⟨hio, rfl⟩
      · simp [hio, IndexWrite.chunkId]
      · simp [hio]
    · intro id hid
      rw [hrecords, hchunks, if_pos hid]
    · intro id hid
      rw [hrecords, hchunks, if_neg hid]

/-- The store half of a handler. -/
theorem handleStore_eq {request : ForwardRequest}
    (h : node.handleStore lib io false request chunkIds = some (after, writes)) :
    ∃ answer left, node.handleLocally lib io request = some (answer, left) ∧
      after = node.withStore left.metadataStore ∧ writes = request.indexWrites chunkIds answer := by
  rcases Option.map_eq_some_iff.mp h with ⟨⟨answer, left⟩, houtcome, heq⟩
  cases heq
  exact ⟨answer, left, houtcome, rfl, rfl⟩

/-- A creation is settled. -/
theorem putObject_settled (hsettled : s.Settled) {checksum : UInt32} {name : String}
    (h : s.node.handleStore lib io false (.putObject checksum name) [] = some (after, writes)) :
    (⟨after, s.inFlight ++ [.indexing writes]⟩ : BusyNode).Settled := by
  have hflight := fun id => (@owed_append s.inFlight (.indexing writes) id).trans or_comm
  rcases handleStore_eq h with ⟨answer, left, houtcome, rfl, _⟩
  cases houtcome
  refine settled_of_same_records hsettled hflight ?_
  rw [(putObject_mirrors s.node checksum name).1]
  rcases MetadataStore.putObject_effect lib io s.node.metadataStore checksum name with
    ⟨_, _, hresult⟩ | ⟨_, hresult⟩
  · rw [hresult]
  · rw [hresult, save_chunks]
    rfl

/-- A reservation is not `Confirmed`, and its id is new. -/
theorem allocateChunk_settled (hsettled : s.Settled) {draws : List UInt64} {pick : Nat}
    {name : String}
    (h : s.node.handleStore lib io false (.allocateChunk draws pick name) [] =
      some (after, writes)) :
    (⟨after, s.inFlight ++ [.indexing writes]⟩ : BusyNode).Settled := by
  have hflight := fun id => (@owed_append s.inFlight (.indexing writes) id).trans or_comm
  rcases handleStore_eq h with ⟨answer, left, houtcome, rfl, _⟩
  rcases Option.map_eq_some_iff.mp houtcome with ⟨handler, hhandler, heq⟩
  rcases allocateChunk_mirrors hhandler with ⟨method, hmethod, hstore, _⟩
  have hleft : left.metadataStore = method.2 := by
    rw [← hstore]
    exact congrArg (fun outcome => outcome.2.metadataStore) heq.symm
  rcases MetadataStore.allocateChunk_effect hmethod with
    ⟨_, rfl⟩ | ⟨id, storageNode, _, _, rfl⟩
  · exact settled_of_same_records hsettled hflight (by rw [hleft])
  · rw [hleft]
    refine (settled_store_iff hsettled hflight (· = id) ?_).mpr ?_
    · intro other hne
      exact HashMap.getElem?_insert_of_ne _ _ hne
    · rintro other rfl
      refine .inr (.inr ?_)
      change Agree (s.node.metadataStore.chunks.insert other _)[other]? _
      rw [Std.ExtTreeMap.getElem?_insert_self]
      exact agree_pending rfl _

/-- One more replica changes neither the status nor the object of a record. -/
theorem addChunkReplica_settled (hsettled : s.Settled) {id nodeId : UInt64}
    (h : s.node.handleStore lib io false (.addChunkReplica id nodeId) [] =
      some (after, writes)) :
    (⟨after, s.inFlight ++ [.indexing writes]⟩ : BusyNode).Settled := by
  have hflight := fun id => (@owed_append s.inFlight (.indexing writes) id).trans or_comm
  rcases handleStore_eq h with ⟨answer, left, houtcome, rfl, _⟩
  cases houtcome
  change (⟨s.node.withStore (s.node.addChunkReplica lib io id nodeId).2.metadataStore, _⟩ :
    BusyNode).Settled
  rw [(addChunkReplica_mirrors s.node id nodeId).1]
  rcases MetadataStore.addChunkReplica_effect lib io s.node.metadataStore id nodeId with
    ⟨_, hresult⟩ | ⟨chunk, hid, _, _, _, hresult⟩
  · exact settled_of_same_records hsettled hflight (by rw [hresult])
  · rw [hresult]
    refine (settled_store_iff hsettled hflight (· = id) ?_).mpr ?_
    · intro other hne
      rw [save_chunks]
      exact HashMap.getElem?_insert_of_ne _ _ hne
    · rintro other rfl
      rw [save_chunks]
      change _ ∨ _ ∨ Agree (s.node.metadataStore.chunks.insert other _)[other]? _
      rw [Std.ExtTreeMap.getElem?_insert_self]
      have hbefore := hsettled other
      rw [BusyNode.SettledAt, hid] at hbefore
      rcases hbefore with howed | hagree
      · exact .inr (.inl howed)
      · refine .inr (.inr ⟨fun replicated hreplicated hstatus => ?_, fun hnone => by cases hnone⟩)
        cases hreplicated
        exact hagree.1 chunk rfl hstatus

/-- A store half leaves the node settled when no other handler is at work on the chunk. -/
theorem store_settled_iff (hsettled : s.Settled) {request : ForwardRequest}
    (hrequest : ∀ name, request ≠ .deleteObject name)
    (h : s.node.handleStore lib io false request [] = some (after, writes)) :
    (⟨after, s.inFlight ++ [.indexing writes]⟩ : BusyNode).Settled ↔ request.Orderly s io := by
  have hflight := fun id => (@owed_append s.inFlight (.indexing writes) id).trans or_comm
  cases request with
  | putObject checksum name => exact iff_of_true (putObject_settled hsettled h) trivial
  | putChunk draws pick name checksum => exact putChunk_settled_iff hsettled h
  | deleteObject name => exact absurd rfl (hrequest name)
  | allocateChunk draws pick name => exact iff_of_true (allocateChunk_settled hsettled h) trivial
  | confirmChunk id name checksum nodeId => exact confirmChunk_settled_iff hsettled h
  | deleteChunk id => exact deleteChunk_settled_iff hsettled h
  | addChunkReplica id nodeId => exact iff_of_true (addChunkReplica_settled hsettled h) trivial
  | getObject name =>
      rcases handleStore_eq h with ⟨answer, left, houtcome, rfl, _⟩
      cases houtcome
      exact iff_of_true (settled_of_same_records hsettled hflight rfl) trivial
  | getChunk id =>
      rcases handleStore_eq h with ⟨answer, left, houtcome, rfl, _⟩
      cases houtcome
      exact iff_of_true (settled_of_same_records hsettled hflight rfl) trivial

/-! ## Index steps -/

/-- After an index write the record and the entry agree exactly if the write fits the record. -/
theorem agree_apply_iff {chunks : HashMap UInt64 MetaChunk} {chunkIndex : HashMap UInt64 String}
    {write : IndexWrite} :
    Agree chunks[write.chunkId]? (write.apply chunkIndex)[write.chunkId]? ↔ write.Fits chunks := by
  cases write with
  | insert id name =>
      simp only [IndexWrite.chunkId, IndexWrite.apply, IndexWrite.Fits,
        Std.ExtTreeMap.getElem?_insert_self]
      cases chunks[id]? with
      | none => simp [Agree]
      | some chunk => simp [Agree, eq_comm]
  | remove id =>
      simp only [IndexWrite.chunkId, IndexWrite.apply, IndexWrite.Fits,
        Std.ExtTreeMap.getElem?_erase_self]
      cases chunks[id]? with
      | none => simp [Agree]
      | some chunk => cases hstatus : chunk.status <;> simp [Agree, hstatus]

theorem getElem?_apply_of_ne {chunkIndex : HashMap UInt64 String} {write : IndexWrite}
    {id : UInt64} (hne : id ≠ write.chunkId) :
    (write.apply chunkIndex)[id]? = chunkIndex[id]? := by
  cases write with
  | insert other name => exact HashMap.getElem?_insert_of_ne _ _ hne
  | remove other => exact HashMap.getElem?_erase_of_ne _ hne

/-- An index write settles the node when it comes in time. -/
theorem index_settled_iff (hsettled : s.Settled) {place : Nat} {write : IndexWrite}
    (hwork : s.inFlight[place]? = some (.indexing (write :: writes))) :
    (⟨s.node.applyIndex write, s.inFlight.set place (.indexing writes)⟩ : BusyNode).Settled ↔
      (Unfinished.indexing (write :: writes)).Orderly s place io := by
  have hat : ∀ id, (⟨s.node.applyIndex write,
        s.inFlight.set place (.indexing writes)⟩ : BusyNode).SettledAt id ↔
      ((∃ later ∈ writes, later.chunkId = id) ∨ Owed (s.inFlight.eraseIdx place) id) ∨
        Agree s.node.metadataStore.chunks[id]? (write.apply s.node.chunkIndex)[id]? := by
    intro id
    rw [BusyNode.SettledAt, owed_set hwork]
    rfl
  constructor
  · intro h
    rcases (hat write.chunkId).mp (h write.chunkId) with howed | hagree
    · exact .inr howed
    · exact .inl (agree_apply_iff.mp hagree)
  · intro horderly id
    rw [hat]
    by_cases hid : id = write.chunkId
    · subst hid
      rcases horderly with hfits | howed
      · exact .inr (agree_apply_iff.mpr hfits)
      · exact .inl howed
    · rw [getElem?_apply_of_ne hid]
      rcases hsettled id with howed | hagree
      · rw [owed_get hwork] at howed
        refine .inl (howed.imp_left ?_)
        rintro ⟨later, hlater, heq⟩
        rcases List.mem_cons.mp hlater with rfl | hlater
        · exact absurd heq.symm hid
        · exact ⟨later, hlater, heq⟩
      · exact .inr hagree

/-! ## Actions -/

theorem settled_of_same_flight (hsettled : s.Settled)
    (hflight : ∀ id, Owed inFlight id ↔ Owed s.inFlight id) :
    (⟨s.node, inFlight⟩ : BusyNode).Settled := by
  intro id
  rw [BusyNode.SettledAt, hflight]
  exact hsettled id

theorem updateObjectChecksum_records {name : String} {checksum : UInt32} {totalSize : UInt64} :
    (node.updateObjectChecksum lib io name checksum totalSize).2.metadataStore.chunks =
      node.metadataStore.chunks := by
  rw [(updateObjectChecksum_mirrors node name checksum totalSize).1]
  rcases MetadataStore.updateObjectChecksum_effect lib io node.metadataStore name checksum
    totalSize with ⟨_, hresult⟩ | ⟨_, _, hresult⟩
  · rw [hresult]
  · rw [hresult, save_chunks]
    rfl

/-- A handler that goes on leaves the node settled under the same condition. -/
theorem advance_settled_iff (hsettled : s.Settled) {place : Nat} {work : Unfinished}
    (hwork : s.inFlight[place]? = some work) {s' : BusyNode}
    (h : s.advance lib place io work = some s') :
    s'.Settled ↔ work.Orderly s place io := by
  cases work with
  | deleting name chunkIds =>
      simp only [BusyNode.advance, Option.map_eq_some_iff] at h
      rcases h with ⟨⟨after, writes⟩, hstore, rfl⟩
      exact deleteObject_settled_iff hsettled hwork hstore
  | indexing writes =>
      cases writes with
      | nil =>
          cases h
          refine iff_of_true (settled_of_same_flight hsettled fun id => ?_) trivial
          rw [owed_get hwork]
          simp [Unfinished.Owes]
      | cons write writes =>
          cases h
          exact index_settled_iff hsettled hwork

/-- From settled ids, the orderly actions are those that leave all ids settled. -/
theorem BusyNode.settled_serve_iff (hsettled : s.Settled) {action : ServeAction} {s' : BusyNode}
    (h : s.serve lib action = some s') : s'.Settled ↔ action.Orderly s := by
  cases action with
  | store io request =>
      by_cases hrequest : ∃ name, request = .deleteObject name
      · rcases hrequest with ⟨name, rfl⟩
        cases h
      · have hstore : (s.node.handleStore lib io false request []).map (fun halves =>
            (⟨halves.1, s.inFlight ++ [.indexing halves.2]⟩ : BusyNode)) = some s' := by
          cases request with
          | deleteObject name => exact absurd ⟨name, rfl⟩ hrequest
          | _ => exact h
        rcases Option.map_eq_some_iff.mp hstore with ⟨⟨after, writes⟩, hhalves, rfl⟩
        exact store_settled_iff hsettled (fun name heq => hrequest ⟨name, heq⟩) hhalves
  | updateObjectChecksum io name checksum totalSize =>
      cases h
      refine iff_of_true (fun id => ?_) trivial
      rw [BusyNode.SettledAt, updateObjectChecksum_chunkIndex, updateObjectChecksum_records]
      exact hsettled id
  | list name =>
      cases h
      refine iff_of_true (settled_of_same_flight hsettled fun id => ?_) trivial
      rw [owed_append]
      simp [Unfinished.Owes]
  | advance place io =>
      rcases Option.bind_eq_some_iff.mp h with ⟨work, hwork, hadvance⟩
      rw [advance_settled_iff hsettled hwork hadvance]
      constructor
      · intro horderly other hother
        rw [hwork] at hother
        cases hother
        exact horderly
      · exact fun horderly => horderly work hwork
  | registry storageNodes =>
      cases h
      exact iff_of_true hsettled trivial

end

/-! ## Runs -/

/-- A restart enters every record. -/
theorem populateFromChunks_get (chunks : HashMap UInt64 MetaChunk) (id : UInt64) :
    (populateFromChunks ∅ chunks)[id]? = (chunks[id]?).map (·.objectName) := by
  rcases HashMap.getElem?_foldl_insert Prod.fst (fun entry => entry.2.objectName) chunks.toList
    (∅ : HashMap UInt64 String) id with ⟨⟨key, chunk⟩, hentry, rfl, hfound⟩ | ⟨hnone, hfound⟩
  · rw [Std.ExtTreeMap.mem_toList_iff_getElem?_eq_some] at hentry
    rw [hentry]
    exact hfound
  · cases hid : chunks[id]? with
    | none => exact hfound.trans (by simp)
    | some chunk =>
        exact absurd rfl (hnone _ (Std.ExtTreeMap.mem_toList_iff_getElem?_eq_some.mpr hid))

/-- A node that has just started has indexed every record that it found. -/
theorem construct_settled {lib : External} {files : MetaFiles} {node : StorageMetadataImpl}
    (h : StorageMetadataImpl.construct lib files = .ok node) :
    (⟨node, []⟩ : BusyNode).Settled := by
  intro id
  unfold StorageMetadataImpl.construct at h
  cases hstore : MetadataStore.new lib files with
  | error error =>
      rw [hstore] at h
      cases h
  | ok store =>
      rw [hstore] at h
      cases h
      refine .inr ?_
      change Agree store.chunks[id]? (populateFromChunks ∅ store.chunks)[id]?
      rw [populateFromChunks_get]
      cases store.chunks[id]? <;> simp [Agree]

/-- Orderly runs stay settled. -/
theorem BusyNode.Settled.serveAll {lib : External} {s s' : BusyNode} (h : s.Settled)
    {actions : List ServeAction} (hrun : s.serveAll lib actions = some s')
    (horderly : s.OrderlyAll lib actions) : s'.Settled := by
  induction actions generalizing s with
  | nil =>
      cases hrun
      exact h
  | cons action actions ih =>
      rcases Option.bind_eq_some_iff.mp hrun with ⟨next, hserve, hrest⟩
      exact ih ((BusyNode.settled_serve_iff h hserve).mpr horderly.1) hrest
        (horderly.2 next hserve)

/-- The chunk index matches the store whenever no request is in flight. -/
theorem index_matches_at_rest (lib : External) (files : MetaFiles) (node : StorageMetadataImpl)
    (hstart : StorageMetadataImpl.construct lib files = .ok node) (actions : List ServeAction)
    (s : BusyNode) (hrun : BusyNode.serveAll lib ⟨node, []⟩ actions = some s)
    (horderly : BusyNode.OrderlyAll lib ⟨node, []⟩ actions) (hrest : s.inFlight = []) :
    s.node.IndexMatches := by
  have hsettled := (construct_settled hstart).serveAll hrun horderly
  exact (BusyNode.settled_iff_of_rest hrest).mp hsettled

/-! ## An upload and a chunk without object -/

/-- Storage node 1 registers. -/
def oneNodeRegistry : HashMap UInt64 MetaStorageNode :=
  (∅ : HashMap UInt64 MetaStorageNode).insert 1 ⟨1, "http://node-a:50051"⟩

/-- An object gets a chunk, one request after the other. -/
def uploadActions : List ServeAction :=
  [.registry oneNodeRegistry, .store .completes (.putObject 7 "a"), .advance 0 .completes,
    .store .completes (.putChunk [10] 0 "a" 5), .advance 0 .completes, .advance 0 .completes]

/-- A chunk is put before its object. -/
def earlyChunkActions : List ServeAction :=
  [.registry oneNodeRegistry, .store .completes (.putChunk [10] 0 "a" 5), .advance 0 .completes]

theorem uploadActions_run : (BusyNode.serveAll jsonLib ⟨freshNode, []⟩ uploadActions).isSome := by
  decide +kernel

theorem earlyChunkActions_run :
    (BusyNode.serveAll jsonLib ⟨freshNode, []⟩ earlyChunkActions).isSome := by
  decide +kernel

/-- The uploaded chunk is in the index when the node has answered. -/
theorem index_matches_at_rest_uploaded :
    ∃ s, BusyNode.serveAll jsonLib ⟨freshNode, []⟩ uploadActions = some s ∧ s.inFlight = [] ∧
      s.node.chunkIndex[(10 : UInt64)]? = some "a" ∧ s.node.IndexMatches := by
  have hrest : ((BusyNode.serveAll jsonLib ⟨freshNode, []⟩ uploadActions).get
      uploadActions_run).inFlight = [] := by
    rw [← List.isEmpty_iff]
    decide +kernel
  refine ⟨_, (Option.some_get uploadActions_run).symm, hrest, by decide +kernel, ?_⟩
  exact index_matches_at_rest jsonLib MetaFiles.empty freshNode rfl uploadActions _
    (Option.some_get uploadActions_run).symm (by decide +kernel) hrest

/-- The chunk is refused, and yet `Confirmed` and not in the index when the node is idle. -/
theorem index_misses_early_chunk :
    ∃ s, StorageMetadataImpl.construct jsonLib MetaFiles.empty = .ok freshNode ∧
      BusyNode.serveAll jsonLib ⟨freshNode, []⟩ earlyChunkActions = some s ∧ s.inFlight = [] ∧
      ¬ s.node.IndexMatches := by
  refine ⟨_, rfl, (Option.some_get earlyChunkActions_run).symm, ?_, fun hmatches => ?_⟩
  · rw [← List.isEmpty_iff]
    decide +kernel
  · have hindexed := hmatches.1 10 ⟨10, "a", 5, [1], .confirmed⟩ (by decide +kernel) rfl
    revert hindexed
    decide +kernel

end StorageMetadata
end ObjectStore
