import ObjectStore.StorageMetadata.Routing

/-!
# Storage metadata - Listings gathered from the peers

`list_objects` and `list_under_replicated_chunks` answer with the local entries and with those
that the peers answer.  A peer whose list call fails is skipped; a peer that cannot be connected
to ends the gathering, and then the caller drops what the other peers answered.

Main definitions:

- `PeerReply`: what comes of connecting to a peer and calling it.
- `scatterGather`: the loop over the peers that both queries share.
- `StorageMetadataImpl.listObjectsWith`, `listUnderReplicatedChunksWith`: the handlers.
- `answeredEntries`: the entries of the peers that can be connected to and answer.

Main results:

- Theorem `scatterGather_eq_ok_iff`: when the gathering returns.
- Theorem `listObjectsWith_eq_cluster`: with every peer up, the listing of the cluster.
- Theorem `gathered_listings_complete_iff`: when no peer hides another one.
-/

namespace ObjectStore
namespace StorageMetadata

variable {α : Type}

/-! ## Scatter and gather -/

/-- `get_peer_client` gives an error text or a client, and the call of the client gives a
status or entries. -/
abbrev PeerReply (α : Type) := Except String (Except Status (List α))

/-- The loop over the addresses of the peers, each with what comes of it, and what has been
gathered so far. -/
def scatterGatherFrom (gathered : List α) : List (String × PeerReply α) → Except Status (List α)
  | [] => .ok gathered
  | (addr, reply) :: replies =>
      match reply with
      | .error e => .error ⟨.unavailable, s!"failed to connect to peer {addr}: {e}"⟩
      | .ok (.ok entries) => scatterGatherFrom (gathered ++ entries) replies
      | .ok (.error _) => scatterGatherFrom gathered replies

/-- `scatter_gather`: the answers of all peers, or the error of a peer that answers with one. -/
def scatterGather (replies : List (String × PeerReply α)) : Except Status (List α) :=
  scatterGatherFrom [] replies

/-- `scatter_gather_list_objects`. -/
def scatterGatherListObjects (replies : List (String × PeerReply Proto.MetaObject)) :
    Except Status (List Proto.MetaObject) :=
  scatterGather replies

/-- `scatter_gather_under_replicated_chunks`. -/
def scatterGatherUnderReplicatedChunks
    (replies : List (String × PeerReply Proto.UnderReplicatedChunk)) :
    Except Status (List Proto.UnderReplicatedChunk) :=
  scatterGather replies

/-- What the callers add to their local entries: an error is logged. -/
def gatheredOrNone (result : Except Status (List α)) : List α :=
  match result with
  | .ok entries => entries
  | .error _ => []

namespace StorageMetadataImpl

variable (self : StorageMetadataImpl)

/-- `list_objects`; without a forwarding layer there are no peers. -/
def listObjectsWith (forwardingLayer : Option (List (String × PeerReply Proto.MetaObject))) :
    List Proto.MetaObject :=
  match forwardingLayer with
  | some replies => self.listObjects ++ gatheredOrNone (scatterGatherListObjects replies)
  | none => self.listObjects

/-- `list_local_under_replicated_chunks`. -/
def listLocalUnderReplicatedChunks (maxReplicas : UInt32) : List Proto.UnderReplicatedChunk :=
  let maxReplicas := if maxReplicas = 0 then 3 else maxReplicas.toNat
  (self.metadataStore.listUnderReplicatedChunks maxReplicas).map fun chunk =>
    ⟨chunk.id, chunk.checksum, chunk.storageNodes⟩

/-- `list_under_replicated_chunks`. -/
def listUnderReplicatedChunksWith
    (forwardingLayer : Option (List (String × PeerReply Proto.UnderReplicatedChunk)))
    (maxReplicas : UInt32) : List Proto.UnderReplicatedChunk :=
  let localChunks := self.listLocalUnderReplicatedChunks maxReplicas
  let allChunks :=
    match forwardingLayer with
    | some replies =>
        localChunks ++ gatheredOrNone (scatterGatherUnderReplicatedChunks replies)
    | none => localChunks
  allChunks.insertionSort fun a b =>
    a.currentStorageNodeIds.length ≤ b.currentStorageNodeIds.length

/-- Without a cluster, only the node itself is asked. -/
theorem listUnderReplicatedChunksWith_none (maxReplicas : UInt32) :
    self.listUnderReplicatedChunksWith none maxReplicas =
      self.listUnderReplicatedChunks maxReplicas :=
  rfl

end StorageMetadataImpl

/-! ## Complete answers -/

/-- The entries that a peer could be asked for. -/
def PeerReply.entries : PeerReply α → List α
  | .ok (.ok entries) => entries
  | _ => []

/-- The entries of all peers that can be connected to and answer. -/
def answeredEntries (replies : List (String × PeerReply α)) : List α :=
  replies.flatMap fun peer => peer.2.entries

/-- There is a connection to every peer, whatever it answers. -/
def EveryPeerConnects (replies : List (String × PeerReply α)) : Prop :=
  ∀ peer ∈ replies, peer.2.isOk = true

/-- Peers that can be connected to are gathered from. -/
theorem scatterGatherFrom_eq_ok {replies : List (String × PeerReply α)}
    (h : EveryPeerConnects replies) (gathered : List α) :
    scatterGatherFrom gathered replies = .ok (gathered ++ answeredEntries replies) := by
  induction replies generalizing gathered with
  | nil => simp [scatterGatherFrom, answeredEntries]
  | cons peer replies ih =>
      have hrest : EveryPeerConnects replies :=
        fun other hmem => h other (List.mem_cons_of_mem _ hmem)
      have hpeer := h peer (by simp)
      rcases peer with ⟨addr, error | status | entries⟩
      · cases hpeer
      · rw [scatterGatherFrom, ih hrest]
        simp [answeredEntries, PeerReply.entries]
      · rw [scatterGatherFrom, ih hrest]
        simp [answeredEntries, PeerReply.entries]

/-- The first peer without a connection ends the loop. -/
theorem scatterGatherFrom_eq_error {replies : List (String × PeerReply α)}
    (h : ¬ EveryPeerConnects replies) (gathered : List α) :
    ∃ addr e, (addr, .error e) ∈ replies ∧ scatterGatherFrom gathered replies =
      .error ⟨.unavailable, s!"failed to connect to peer {addr}: {e}"⟩ := by
  induction replies generalizing gathered with
  | nil =>
      refine absurd (fun peer hmem => ?_) h
      cases hmem
  | cons peer replies ih =>
      rcases peer with ⟨addr, error | reply⟩
      · exact ⟨addr, error, by simp, rfl⟩
      · have hrest : ¬ EveryPeerConnects replies := by
          intro hall
          refine h fun other hmem => ?_
          rcases List.mem_cons.mp hmem with heq | hmem
          · rw [heq]
            rfl
          · exact hall other hmem
        cases reply with
        | error status =>
            rcases ih hrest gathered with ⟨addr', e, hmem, heq⟩
            exact ⟨addr', e, List.mem_cons_of_mem _ hmem, heq⟩
        | ok entries =>
            rcases ih hrest (gathered ++ entries) with ⟨addr', e, hmem, heq⟩
            exact ⟨addr', e, List.mem_cons_of_mem _ hmem, heq⟩

/-- Gathering succeeds when every peer can be connected to. -/
theorem scatterGather_eq_ok_iff {replies : List (String × PeerReply α)} :
    scatterGather replies = .ok (answeredEntries replies) ↔ EveryPeerConnects replies := by
  constructor
  · intro heq
    by_contra h
    rcases scatterGatherFrom_eq_error h [] with ⟨addr, e, _, herror⟩
    cases herror.symm.trans heq
  · intro h
    exact scatterGatherFrom_eq_ok h []

/-- The local entries are followed by all answered ones, or by none. -/
theorem append_gathered_perm_iff (localEntries : List α) (replies : List (String × PeerReply α)) :
    (localEntries ++ gatheredOrNone (scatterGather replies)).Perm
        (localEntries ++ answeredEntries replies) ↔
      EveryPeerConnects replies ∨ answeredEntries replies = [] := by
  by_cases h : EveryPeerConnects replies
  · rw [scatterGather_eq_ok_iff.mpr h]
    exact iff_of_true (List.Perm.refl _) (.inl h)
  · rcases scatterGatherFrom_eq_error h [] with ⟨addr, e, _, herror⟩
    rw [scatterGather, herror, gatheredOrNone, List.perm_append_left_iff, List.nil_perm]
    simp [h]

/-- With every peer up and answering, `list_objects` is the listing of the cluster. -/
theorem listObjectsWith_eq_cluster {cluster : Cluster} {nodeId : String}
    {node : StorageMetadataImpl} (hnode : cluster.nodes[nodeId]? = some node)
    (addr : String → String) (peers : List String) :
    node.listObjectsWith (some (peers.map fun peer =>
        (addr peer, .ok (.ok (match cluster.nodes[peer]? with
          | some node => node.listObjects
          | none => []))))) =
      cluster.listObjects nodeId peers := by
  rw [StorageMetadataImpl.listObjectsWith, scatterGatherListObjects]
  rw [scatterGather_eq_ok_iff.mpr]
  · rw [Cluster.listObjects, List.flatMap_cons, hnode]
    exact congrArg (node.listObjects ++ ·) (List.flatMap_map _ _ peers)
  · intro peer hmem
    rcases List.mem_map.mp hmem with ⟨_, _, heq⟩
    rw [← heq]
    rfl

/-- For every node, every list of peers and everything that may come of them: the answer of
`list_objects`, and likewise that of `list_under_replicated_chunks`, has the local entries and
all entries of the peers that can be connected to and answer, and nothing else, exactly if every
peer can be connected to, or those that can and answer have no entries. -/
theorem gathered_listings_complete_iff (self : StorageMetadataImpl)
    (objects : List (String × PeerReply Proto.MetaObject)) (maxReplicas : UInt32)
    (chunks : List (String × PeerReply Proto.UnderReplicatedChunk)) :
    ((self.listObjectsWith (some objects)).Perm (self.listObjects ++ answeredEntries objects) ↔
        EveryPeerConnects objects ∨ answeredEntries objects = []) ∧
      ((self.listUnderReplicatedChunksWith (some chunks) maxReplicas).Perm
          (self.listLocalUnderReplicatedChunks maxReplicas ++ answeredEntries chunks) ↔
        EveryPeerConnects chunks ∨ answeredEntries chunks = []) := by
  constructor
  · exact append_gathered_perm_iff self.listObjects objects
  · rw [StorageMetadataImpl.listUnderReplicatedChunksWith, (List.perm_insertionSort _ _).congr_left]
    exact append_gathered_perm_iff (self.listLocalUnderReplicatedChunks maxReplicas) chunks

/-! ## A peer that hides another one -/

/-- Two peers: the first cannot be connected to, the second has an object. -/
def downAndUp : List (String × PeerReply Proto.MetaObject) :=
  [("0.0.0.0:7001", .error "transport error"), ("0.0.0.0:7002", .ok (.ok [⟨"a", 5, [], 8⟩]))]

/-- The node has no objects of its own and answers with an empty list; had the second peer
come first, the answer would be the same. -/
theorem down_peer_hides_the_other :
    freshNode.listObjectsWith (some downAndUp) = [] ∧
      freshNode.listObjectsWith (some downAndUp.reverse) = [] ∧
      ¬ (freshNode.listObjectsWith (some downAndUp)).Perm
        (freshNode.listObjects ++ answeredEntries downAndUp) := by
  have hempty : freshNode.listObjectsWith (some downAndUp) = [] := by decide +kernel
  refine ⟨hempty, by decide +kernel, fun hperm => ?_⟩
  rw [hempty, List.nil_perm] at hperm
  simp [downAndUp, answeredEntries, PeerReply.entries] at hperm

end StorageMetadata
end ObjectStore
