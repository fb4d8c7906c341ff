import ObjectStore.Library.Program
import ObjectStore.StorageMetadata.Service
import ObjectStore.StorageNode.Service

/-!
# Deployment - The services behind the gateway

One metadata node, the storage nodes by address, and the calls that the gateway and the
replication service make.  A program of these services is a `Library.Program` over
`Call`; what a call does is a step on `Services`.

Main definitions:

- `MetadataCall`, `Call`: the calls, with the types of their replies.
- `Services`, `Services.serve`: what the services answer when nothing fails.
- `Step`: the same with failures.

Main results:

-/

namespace ObjectStore
namespace Deployment

open StorageMetadata (External SaveIo StorageMetadataImpl MetadataStore MetaObject)
open StorageMetadata.Proto (MetaStorageNode AllocateChunkResponse GetObjectResponse
  UnderReplicatedChunk)
open StorageNode (BoundedMap ChunkSize)

/-! ## Calls -/

/-- The requests of `storage_metadata.proto` that other services make.  `get_object` takes
the lock of the store twice, and is two calls. -/
inductive MetadataCall where
  | listStorageNodes
  | putObject (checksum : UInt32) (name : String)
  | allocateChunk (objectName : String) (checksum : UInt32)
  | confirmChunk (chunkId : UInt64) (objectName : String) (checksum : UInt32)
      (storageNodeId : UInt64)
  | lookupObject (objectName : String)
  | resolveObject (object : MetaObject)
  | deleteChunk (chunkId : UInt64)
  | deleteObject (objectName : String)
  | updateObjectChecksum (objectName : String) (checksum : UInt32) (totalSize : UInt64)
  | getStorageNode (id : UInt64)
  | listUnderReplicatedChunks (maxReplicas : UInt32)
  | addChunkReplica (chunkId storageNodeId : UInt64)
deriving DecidableEq

/-- What a request is answered with when it succeeds. -/
def MetadataCall.Response : MetadataCall → Type
  | .listStorageNodes => List MetaStorageNode
  | .allocateChunk _ _ => AllocateChunkResponse
  | .lookupObject _ => MetaObject
  | .resolveObject _ => GetObjectResponse
  | .getStorageNode _ => String
  | .listUnderReplicatedChunks _ => List UnderReplicatedChunk
  | .putObject _ _ | .confirmChunk _ _ _ _ | .deleteChunk _ | .deleteObject _
  | .updateObjectChecksum _ _ _ | .addChunkReplica _ _ => Unit

/-- The calls of the programs. -/
inductive Call where
  | metadata (call : MetadataCall)
  /-- `storage_factory.connect`. -/
  | connect (address : String)
  /-- A request over an open connection. -/
  | storageNode (address : String) (call : StorageNode.Call)
  /-- A look into `storage_connections` under its read lock. -/
  | cachedConnection (address : String)
  /-- The second look under the write lock, and the connection if there is none. -/
  | connectCached (address : String)
  /-- A random index. -/
  | choose (count : Nat)
  /-- Which of two futures the runtime polls next. -/
  | turn
deriving DecidableEq

/-- What a call is answered with. -/
def Call.Reply : Call → Type
  | .metadata call => Except Status call.Response
  | .connect _ | .connectCached _ => Except String Unit
  | .storageNode _ call => Except Status call.Response
  | .cachedConnection _ | .turn => Bool
  | .choose _ => Nat

/-- A program of the gateway or of the replication service. -/
abbrev Program (α : Type) := Library.Program Call Call.Reply α

namespace Program

/-- A program that makes one call. -/
def perform (call : Call) : Program call.Reply :=
  @Library.Program.perform Call Call.Reply call

/-- A call to the metadata service. -/
def metadata (call : MetadataCall) : Program (Except Status call.Response) :=
  perform (.metadata call)

/-- A new connection to a storage node. -/
def connect (address : String) : Program (Except String Unit) :=
  perform (.connect address)

/-- A call to the storage node at an address. -/
def storageNode (address : String) (call : StorageNode.Call) :
    Program (Except Status call.Response) :=
  perform (.storageNode address call)

/-- `join_all`. -/
def joinAll {α : Type} (programs : List (Program α)) : Program (List α) :=
  @Library.Program.joinAll Call Call.Reply α .turn (fun (first : Bool) => first) programs

end Program

/-- A call with its reply. -/
abbrev Event := Library.Event Call Call.Reply

/-- A record of calls. -/
abbrev Log := List Event

/-! ## Services -/

/-- What the services rely on. -/
structure Environment where
  lib : External
  crc32 : Bytes → UInt32
  chunkSize : ChunkSize

/-- What a call leaves open: the file steps, the random numbers, the order of polling and
the text of an error. -/
structure Choice where
  io : SaveIo
  draws : List UInt64
  pick : Nat
  message : String

/-- Nothing is drawn and nothing fails. -/
def Choice.plain : Choice := ⟨.completes, [], 0, ""⟩

/-- The metadata service and the storage nodes that it can register. -/
structure Services where
  metadata : StorageMetadataImpl
  /-- By address. -/
  nodes : HashMap String BoundedMap
  /-- The addresses in the gateway's cache. -/
  storageConnections : List String

namespace Services

/-- The metadata node has answered. -/
def withMetadata {α : Type} (self : Services) (answer : α × StorageMetadataImpl) : α × Services :=
  (answer.1, { self with metadata := answer.2 })

/-- What the metadata node answers. -/
def serveMetadata (env : Environment) (choice : Choice) (self : Services) :
    (call : MetadataCall) → Option (Except Status call.Response × Services)
  | .listStorageNodes => some (.ok self.metadata.listStorageNodes, self)
  | .putObject checksum name =>
      some (self.withMetadata (self.metadata.putObject env.lib choice.io checksum name))
  | .allocateChunk objectName _ =>
      (self.metadata.allocateChunk choice.draws choice.pick objectName).map self.withMetadata
  | .confirmChunk chunkId objectName checksum storageNodeId =>
      some (self.withMetadata
        (self.metadata.confirmChunk env.lib choice.io chunkId objectName checksum storageNodeId))
  | .lookupObject objectName =>
      some (self.metadata.metadataStore.lookupObject objectName, self)
  | .resolveObject object => some (self.metadata.metadataStore.resolveObject object, self)
  | .deleteChunk chunkId =>
      some (self.withMetadata (self.metadata.deleteChunk env.lib choice.io chunkId))
  | .deleteObject objectName =>
      some (self.withMetadata (self.metadata.deleteObject env.lib choice.io objectName))
  | .updateObjectChecksum objectName checksum totalSize =>
      some (self.withMetadata
        (self.metadata.updateObjectChecksum env.lib choice.io objectName checksum totalSize))
  | .getStorageNode id => some (self.metadata.getStorageNode id, self)
  | .listUnderReplicatedChunks maxReplicas =>
      some (.ok (self.metadata.listUnderReplicatedChunks maxReplicas), self)
  | .addChunkReplica chunkId storageNodeId =>
      some (self.withMetadata
        (self.metadata.addChunkReplica env.lib choice.io chunkId storageNodeId))

/-- What the services answer when nothing fails on the way. -/
def serve (env : Environment) (choice : Choice) (self : Services) :
    (call : Call) → Option (call.Reply × Services)
  | .metadata call => self.serveMetadata env choice call
  | .connect address =>
      if address ∈ self.nodes then some (.ok (), self) else some (.error choice.message, self)
  | .storageNode address call =>
      match self.nodes[address]? with
      | none => some (.error ⟨.unavailable, choice.message⟩, self)
      | some node =>
          let (answer, node) := node.handle env.crc32 env.chunkSize call
          some (answer, { self with nodes := self.nodes.insert address node })
  | .cachedConnection address => some (decide (address ∈ self.storageConnections), self)
  | .connectCached address =>
      if address ∈ self.storageConnections then some (.ok (), self)
      else if address ∈ self.nodes then
        some (.ok (), { self with storageConnections := address :: self.storageConnections })
      else some (.error choice.message, self)
  | .choose count => if choice.pick < count then some (choice.pick, self) else none
  | .turn => some (decide (choice.pick = 0), self)

end Services

/-! ## Failures -/

/-- How calls can fail: not at all, without any effect, or even after they took effect. -/
inductive Faults where
  | none
  | withoutEffect
  | any
deriving DecidableEq

/-- The reply is an error. -/
def Call.Fails : (call : Call) → call.Reply → Prop
  | .metadata _, reply => ∃ status, reply = .error status
  | .connect _, reply | .connectCached _, reply => ∃ message, reply = .error message
  | .storageNode _ _, reply => ∃ status, reply = .error status
  | .cachedConnection _, _ | .choose _, _ | .turn, _ => False

/-- One call.  A hash map lists its values in any order; chunks are then sorted by the number of
their replicas. -/
inductive Step (env : Environment) (faults : Faults) : Library.Step Services Call Call.Reply where
  | served {s s' : Services} {call : Call} {reply : call.Reply} {choice : Choice}
      (hio : choice.io = .completes ∨ faults = .any)
      (hserve : s.serve env choice call = some (reply, s')) : Step env faults s call reply s'
  | nodesListed {s : Services} {nodes : List MetaStorageNode}
      (hnodes : nodes.Perm s.metadata.listStorageNodes) :
      Step env faults s (.metadata .listStorageNodes) (.ok nodes) s
  | chunksListed {s : Services} {maxReplicas : UInt32} {chunks : List UnderReplicatedChunk}
      (hchunks : chunks.Perm (s.metadata.listUnderReplicatedChunks maxReplicas))
      (hsorted : chunks.Pairwise fun a b =>
        a.currentStorageNodeIds.length ≤ b.currentStorageNodeIds.length) :
      Step env faults s (.metadata (.listUnderReplicatedChunks maxReplicas)) (.ok chunks) s
  | failed {s : Services} {call : Call} {reply : call.Reply} (hfaults : faults ≠ .none)
      (hfails : call.Fails reply) : Step env faults s call reply s
  | lost {s s' : Services} {call : Call} {reply reply' : call.Reply} {choice : Choice}
      (hfaults : faults = .any) (hserve : s.serve env choice call = some (reply', s'))
      (hfails : call.Fails reply) : Step env faults s call reply s'

variable {env : Environment} {faults : Faults} {s s' : Services} {call : Call}
  {reply : call.Reply}

/-- Failures only add to what can happen. -/
theorem Step.any (h : Step env faults s call reply s') : Step env .any s call reply s' := by
  cases h with
  | served hio hserve => exact .served (.inr rfl) hserve
  | nodesListed hnodes => exact .nodesListed hnodes
  | chunksListed hchunks hsorted => exact .chunksListed hchunks hsorted
  | failed hfaults hfails => exact .failed (by decide) hfails
  | lost hfaults hserve hfails => exact .lost rfl hserve hfails

/-- A call that does not fail is a call that may fail. -/
theorem Step.of_none (h : Step env .none s call reply s') : Step env faults s call reply s' := by
  cases h with
  | served hio hserve => exact .served (.inl (hio.resolve_right (by decide))) hserve
  | nodesListed hnodes => exact .nodesListed hnodes
  | chunksListed hchunks hsorted => exact .chunksListed hchunks hsorted
  | failed hfaults _ => exact absurd rfl hfaults
  | lost hfaults _ _ => cases hfaults

/-- Something is chosen from what there is. -/
theorem Step.picked_lt {count picked : Nat} (h : Step env faults s (.choose count) picked s') :
    picked < count := by
  cases h with
  | @served _ _ _ _ choice hio hserve =>
      simp only [Services.serve, Option.ite_none_right_eq_some] at hserve
      rcases hserve with ⟨hlt, heq⟩
      cases heq
      exact hlt
  | failed _ hfails => exact hfails.elim
  | lost _ _ hfails => exact hfails.elim

/-! ## Scripted runs -/

/-- How a call goes. -/
inductive Decision where
  | serve (choice : Choice)
  | fail (message : String)

/-- The reply to a call that fails with a message. -/
def Call.failure (message : String) : (call : Call) → Option call.Reply
  | .metadata _ => some (.error ⟨.unavailable, message⟩)
  | .connect _ | .connectCached _ => some (.error message)
  | .storageNode _ _ => some (.error ⟨.unavailable, message⟩)
  | .cachedConnection _ | .choose _ | .turn => none

/-- The outcome of a call that goes as decided. -/
def Services.next (env : Environment) (s : Services) (call : Call) :
    Decision → Option (call.Reply × Services)
  | .serve choice =>
      match choice.io with
      | .completes => s.serve env choice call
      | _ => none
  | .fail message => (call.failure message).map fun reply => (reply, s)

/-- A scripted call is a step. -/
theorem Services.next_step (s : Services) (call : Call) (decision : Decision)
    (reply : call.Reply) (s' : Services) (h : s.next env call decision = some (reply, s')) :
    Step env .withoutEffect s call reply s' := by
  cases decision with
  | serve choice =>
      simp only [next] at h
      split at h
      · rename_i hio
        exact .served (.inl hio) h
      · cases h
  | fail message =>
      rcases Option.map_eq_some_iff.mp h with ⟨found, hfound, heq⟩
      cases heq
      refine .failed (by decide) ?_
      cases call <;> cases hfound <;> exact ⟨_, rfl⟩

/-- A run along a script, with the record of its calls. -/
theorem scripted {α : Type} {step : Library.Step Services Call Call.Reply}
    (hstep : ∀ s call reply s', Step env .withoutEffect s call reply s' → step s call reply s')
    {program : Program α} {script : List Decision} {s : Services}
    {check : α × Services × Log → Bool}
    (h : (program.replay (Library.serveLogged (Services.next env)) script (s, [])).any check =
      true) :
    ∃ value s' log, program.Runs (Library.Logged step) (s, []) value (s', log) ∧
      check (value, s', log) = true := by
  rcases (Option.any_eq_true _ _).mp h with ⟨⟨value, s', log⟩, hreplay, hcheck⟩
  refine ⟨value, s', log, Library.Program.runs_of_replay ?_ hreplay, hcheck⟩
  intro st request decision reply st' hserve
  have hlogged := Library.logged_of_serveLogged Services.next_step st request decision reply st'
    hserve
  exact ⟨hstep _ _ _ _ hlogged.1, hlogged.2⟩

/-- The same without a record. -/
theorem scripted_plain {α : Type} {step : Library.Step Services Call Call.Reply}
    (hstep : ∀ s call reply s', Step env .withoutEffect s call reply s' → step s call reply s')
    {program : Program α} {script : List Decision} {s : Services} {check : α → Bool}
    (h : (program.replay (Services.next env) script s).any (fun result => check result.1) = true) :
    ∃ value s', program.Runs step s value s' ∧ check value = true := by
  rcases (Option.any_eq_true _ _).mp h with ⟨⟨value, s'⟩, hreplay, hcheck⟩
  exact ⟨value, s', (Library.Program.runs_of_replay Services.next_step hreplay).mono hstep, hcheck⟩

end Deployment
end ObjectStore
