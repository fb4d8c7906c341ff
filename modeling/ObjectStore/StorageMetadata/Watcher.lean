import ObjectStore.StorageMetadata.Routing

/-!
# Storage metadata - Routing between the writes of the watcher

The membership watcher takes a snapshot of the gossip and then writes the ring, the addresses
and the connections one after the other.  Requests are routed, and connections made and cached,
between any two of these writes.  An owner without an entry in the address table looks to
`get_owner_addr` like the node itself.

Main definitions:

- `Gossip`: the live nodes, and the ports of those that have published their address.
- `Watched`: a cluster manager, how far its watcher is, and the calls of `get_peer_client`.
- `WatchedStep`, `Watched.Run`: one step of the watcher or of a call, and runs.
- `Watched.Follows`: the tables are those of the snapshots that were written last.

Main results:

- Theorem `Watched.Run.follows`: this holds along every run.
- Theorem `handled_locally_iff_owner_known`: when only the owner handles a key locally.
-/

namespace ObjectStore
namespace StorageMetadata

/-! ## Gossip -/

/-- The address that `ClusterManager::new` publishes. -/
def grpcAddr (grpcPort : UInt16) : String :=
  s!"0.0.0.0:{grpcPort}"

/-- What the nodes make known.  A live node may not have published its address yet. -/
structure Gossip where
  liveNodeIds : List String
  grpcPorts : HashMap String UInt16
  live_of_published : ∀ id ∈ grpcPorts, id ∈ liveNodeIds

/-- Nothing is known of other nodes. -/
def Gossip.empty : Gossip := ⟨[], ∅, by simp⟩

/-- The snapshot that the watcher takes. -/
def Gossip.snapshot (self : Gossip) : Snapshot where
  liveNodeIds := self.liveNodeIds
  liveGrpcAddrs := self.grpcPorts.map fun _ grpcPort => grpcAddr grpcPort

theorem Gossip.getElem?_liveGrpcAddrs (self : Gossip) (id : String) :
    self.snapshot.liveGrpcAddrs[id]? = self.grpcPorts[id]?.map grpcAddr := by
  simp [snapshot]

/-! ## The parts of a tick -/

namespace ClusterManager

variable {Client : Type} (hash : String → UInt64)

/-- `is_local`; an empty ring is handled locally. -/
def isLocal (self : ClusterManager Client) (key : String) : Bool :=
  match self.ring.getOwner hash key with
  | some owner => owner == self.nodeId
  | none => true

/-- A tick's write to the addresses. -/
def updateAddrs (self : ClusterManager Client) (liveGrpcAddrs : HashMap String String) :
    ClusterManager Client :=
  { self with peerAddrs := liveGrpcAddrs }

/-- A tick's write to the connections. -/
def retainPeers (self : ClusterManager Client) (liveNodeIds : List String) :
    ClusterManager Client :=
  { self with peers := self.peers.filter fun nid _ => nid ∈ liveNodeIds }

end ClusterManager

/-! ## Runs -/

/-- A cached connection, with the node that it was made for. -/
structure Connection where
  target : String
deriving DecidableEq

/-- Which of its writes the watcher has made. -/
inductive WatcherPhase where
  | idle (last : Gossip)
  | taken (last next : Gossip)
  | ringUpdated (last next : Gossip)
  | addrsUpdated (last : Gossip)

/-- The gossip that was last written to the ring. -/
def WatcherPhase.ringGossip : WatcherPhase → Gossip
  | .idle last | .taken last _ | .addrsUpdated last => last
  | .ringUpdated _ next => next

/-- The gossip that was last written to the addresses. -/
def WatcherPhase.addrGossip : WatcherPhase → Gossip
  | .idle last | .taken last _ | .addrsUpdated last | .ringUpdated last _ => last

/-- A call of `get_peer_client` with an address that was read for `target`. -/
structure PeerCall where
  target : String
  addr : String
  /-- It has found no connection and is making one. -/
  connecting : Bool
deriving DecidableEq

/-- A cluster manager at work. -/
structure Watched where
  manager : ClusterManager Connection
  phase : WatcherPhase
  calls : List PeerCall

/-- The manager behind `ClusterManager::new`. -/
def Watched.start (hash : String → UInt64) (nodeId : String) : Watched :=
  ⟨ClusterManager.new hash nodeId, .idle .empty, []⟩

/-- What happens in a node: a step of its watcher, or a call of its handlers. -/
inductive WatchedEvent where
  | watcher
  | call
  /-- A cached connection is returned. -/
  | found (call : PeerCall) (connection : Connection)
  /-- A new connection is cached. -/
  | cached (call : PeerCall)

/-- One step.  Where a loop over the addresses takes the first entry that fits, the hash map may
list any of them first. -/
inductive WatchedStep (hash : String → UInt64) : Watched → WatchedEvent → Watched → Prop where
  | snapshot {s : Watched} {last : Gossip} (next : Gossip) (hphase : s.phase = .idle last) :
      WatchedStep hash s .watcher { s with phase := .taken last next }
  | ring {s : Watched} {last next : Gossip} (hphase : s.phase = .taken last next) :
      WatchedStep hash s .watcher
        { s with
          manager := s.manager.updateRing hash next.snapshot.liveNodeIds
          phase := .ringUpdated last next }
  | addrs {s : Watched} {last next : Gossip} (hphase : s.phase = .ringUpdated last next) :
      WatchedStep hash s .watcher
        { s with
          manager := s.manager.updateAddrs next.snapshot.liveGrpcAddrs
          phase := .addrsUpdated next }
  | peers {s : Watched} {last : Gossip} (hphase : s.phase = .addrsUpdated last) :
      WatchedStep hash s .watcher
        { s with
          manager := s.manager.retainPeers last.snapshot.liveNodeIds
          phase := .idle last }
  /-- The address of another node is read, by `get_owner_addr` or `get_all_peer_addrs`. -/
  | address {s : Watched} {target addr : String} (hother : target ≠ s.manager.nodeId)
      (haddr : s.manager.peerAddrs[target]? = some addr) :
      WatchedStep hash s .call { s with calls := ⟨target, addr, false⟩ :: s.calls }
  | found {s : Watched} {call : PeerCall} (hcall : call ∈ s.calls)
      (hconnecting : call.connecting = false) {nid : String}
      (hnid : s.manager.peerAddrs[nid]? = some call.addr) {connection : Connection}
      (hpeer : s.manager.peers[nid]? = some connection) :
      WatchedStep hash s (.found call connection) { s with calls := s.calls.erase call }
  | missed {s : Watched} {call : PeerCall} (hcall : call ∈ s.calls)
      (hconnecting : call.connecting = false)
      (hnone : ∀ nid : String, s.manager.peerAddrs[nid]? = some call.addr →
        s.manager.peers[nid]? = none) :
      WatchedStep hash s .call
        { s with calls := { call with connecting := true } :: s.calls.erase call }
  | cached {s : Watched} {call : PeerCall} (hcall : call ∈ s.calls)
      (hconnecting : call.connecting = true) {nid : String}
      (hnid : s.manager.peerAddrs[nid]? = some call.addr) :
      WatchedStep hash s (.cached call)
        { s with
          manager :=
            { s.manager with peers := s.manager.peers.insert nid ⟨call.target⟩ }
          calls := s.calls.erase call }
  /-- The connection fails, or the address is not in the table any more. -/
  | dropped {s : Watched} {call : PeerCall} (hcall : call ∈ s.calls)
      (hconnecting : call.connecting = true) :
      WatchedStep hash s .call { s with calls := s.calls.erase call }

/-- The states of a run with the steps that leave them, and the state that is reached. -/
inductive Watched.Run (hash : String → UInt64) (nodeId : String) :
    List (Watched × WatchedEvent) → Watched → Prop where
  | start : Run hash nodeId [] (.start hash nodeId)
  | step {trace : List (Watched × WatchedEvent)} {s s' : Watched} {event : WatchedEvent}
      (hrun : Run hash nodeId trace s) (hstep : WatchedStep hash s event s') :
      Run hash nodeId (trace ++ [(s, event)]) s'

/-! ## Owners and members -/

variable {hash : String → UInt64}

/-- A node with a vnode on the ring. -/
def HashRing.HasVnode (self : HashRing) (nodeId : String) : Prop :=
  ∃ position : UInt64, self.ring[position]? = some nodeId

theorem HashRing.hasVnode_of_addNode {ring : HashRing} {nodeId other : String}
    (h : (ring.addNode hash nodeId).HasVnode other) : other = nodeId ∨ ring.HasVnode other := by
  rcases h with ⟨position, hposition⟩
  rcases @getElem?_addNode_loop hash ring nodeId VNODES_PER_NODE position with
    ⟨hfound, _⟩ | ⟨hfound, _⟩
  · exact .inl (Option.some.inj (hposition.symm.trans hfound))
  · exact .inr ⟨position, hfound.symm.trans hposition⟩

theorem HashRing.hasVnode_removeNode {ring : HashRing} {nodeId other : String} :
    (ring.removeNode nodeId).HasVnode other ↔ ring.HasVnode other ∧ other ≠ nodeId := by
  simp [HasVnode, removeNode, Option.filter_eq_some_iff]

/-- The loop that adds nodes only adds those. -/
theorem HashRing.hasVnode_of_foldl_addNode (P : String → Prop) [DecidablePred P]
    {live : List String} {ring : HashRing} {other : String}
    (h : (live.foldl (fun ring nid => if P nid then ring.addNode hash nid else ring)
      ring).HasVnode other) : other ∈ live ∨ ring.HasVnode other := by
  induction live generalizing ring with
  | nil => exact .inr h
  | cons first rest ih =>
      rcases ih h with hmem | hother
      · exact .inl (List.mem_cons_of_mem _ hmem)
      · dsimp only at hother
        split at hother
        · rcases hasVnode_of_addNode hother with heq | hother
          · exact .inl (by simp [heq])
          · exact .inr hother
        · exact .inr hother

/-- The loop that removes nodes removes all of them. -/
theorem HashRing.hasVnode_foldl_removeNode (P : String → Prop) [DecidablePred P]
    {current : List String} {ring : HashRing} {other : String} :
    (current.foldl (fun ring nid => if P nid then ring.removeNode nid else ring)
        ring).HasVnode other ↔
      ring.HasVnode other ∧ ¬ (other ∈ current ∧ P other) := by
  induction current generalizing ring with
  | nil => simp
  | cons first rest ih =>
      rw [List.foldl_cons, ih]
      split
      · rename_i hP
        rw [hasVnode_removeNode, List.mem_cons]
        constructor
        · rintro ⟨⟨hother, hne⟩, hrest⟩
          exact ⟨hother, fun h => hrest ⟨h.1.resolve_left hne, h.2⟩⟩
        · rintro ⟨hother, hall⟩
          exact ⟨⟨hother, fun heq => hall ⟨.inl heq, heq ▸ hP⟩⟩, fun h => hall ⟨.inr h.1, h.2⟩⟩
      · rename_i hP
        rw [List.mem_cons]
        constructor
        · rintro ⟨hother, hrest⟩
          refine ⟨hother, ?_⟩
          rintro ⟨heq | hmem, hother'⟩
          · exact hP (heq ▸ hother')
          · exact hrest ⟨hmem, hother'⟩
        · rintro ⟨hother, hall⟩
          exact ⟨hother, fun h => hall ⟨.inr h.1, h.2⟩⟩

theorem HashRing.mem_nodes {ring : HashRing} {nodeId : String} :
    nodeId ∈ ring.nodes ↔ ring.HasVnode nodeId := by
  rw [nodes, List.mem_dedup, List.mem_mergeSort, HashMap.mem_valueList]
  rfl

/-- After the write to the ring, its members are the node itself and live nodes. -/
theorem ClusterManager.hasVnode_of_updateRing {Client : Type} {manager : ClusterManager Client}
    {liveNodeIds : List String} {other : String}
    (h : (manager.updateRing hash liveNodeIds).ring.HasVnode other) :
    other = manager.nodeId ∨ other ∈ liveNodeIds := by
  rcases (HashRing.hasVnode_foldl_removeNode _).mp h with ⟨hadded, hkept⟩
  by_contra hneither
  rw [not_or] at hneither
  rcases HashRing.hasVnode_of_foldl_addNode _ hadded with hlive | hold
  · exact hneither.2 hlive
  · exact hkept ⟨HashRing.mem_nodes.mpr hold, hneither⟩

/-! ## The tables follow the gossip -/

/-- The addresses are those of the gossip that was last written to them, and the ring has no
members but the node itself and the live nodes of the gossip that was last written to it. -/
structure Watched.Follows (nodeId : String) (s : Watched) : Prop where
  sameNode : s.manager.nodeId = nodeId
  peerAddrs : s.manager.peerAddrs = s.phase.addrGossip.snapshot.liveGrpcAddrs
  members : ∀ other, s.manager.ring.HasVnode other →
    other = nodeId ∨ other ∈ s.phase.ringGossip.liveNodeIds

/-- At the start the node is on the ring alone. -/
theorem Watched.start_ring (nodeId : String) :
    (Watched.start hash nodeId).manager.ring = HashRing.new.addNode hash nodeId := by
  simp only [start, ClusterManager.new]

theorem Watched.follows_start (nodeId : String) : (Watched.start hash nodeId).Follows nodeId := by
  constructor
  · rfl
  · refine Std.ExtTreeMap.ext_getElem? fun id => ?_
    rw [Gossip.getElem?_liveGrpcAddrs]
    simp [start, ClusterManager.new, WatcherPhase.addrGossip, Gossip.empty]
  · intro other hother
    rw [start_ring] at hother
    rcases HashRing.hasVnode_of_addNode hother with heq | ⟨position, hposition⟩
    · exact .inl heq
    · simp [HashRing.new] at hposition

theorem WatchedStep.follows {nodeId : String} {s s' : Watched} {event : WatchedEvent}
    (hstep : WatchedStep hash s event s') (h : s.Follows nodeId) : s'.Follows nodeId := by
  rcases h with ⟨hnodeId, hpeerAddrs, hmembers⟩
  cases hstep with
  | snapshot next hphase =>
      rw [hphase] at hpeerAddrs hmembers
      exact ⟨hnodeId, hpeerAddrs, hmembers⟩
  | ring hphase =>
      rw [hphase] at hpeerAddrs
      refine ⟨hnodeId, hpeerAddrs, fun other hother => ?_⟩
      rw [← hnodeId]
      exact ClusterManager.hasVnode_of_updateRing hother
  | addrs hphase =>
      rw [hphase] at hmembers
      exact ⟨hnodeId, rfl, hmembers⟩
  | peers hphase =>
      rw [hphase] at hpeerAddrs hmembers
      exact ⟨hnodeId, hpeerAddrs, hmembers⟩
  | address | found | missed | cached | dropped => exact ⟨hnodeId, hpeerAddrs, hmembers⟩

theorem Watched.Run.follows {nodeId : String} {trace : List (Watched × WatchedEvent)}
    {s : Watched} (hrun : Watched.Run hash nodeId trace s) : s.Follows nodeId := by
  induction hrun with
  | start => exact follows_start nodeId
  | step hrun hstep ih => exact hstep.follows ih

/-- A round of the watcher without calls in between is a tick. -/
theorem Watched.Run.tick {nodeId : String} {trace : List (Watched × WatchedEvent)} {s : Watched}
    (hrun : Watched.Run hash nodeId trace s) {last : Gossip} (hphase : s.phase = .idle last)
    (next : Gossip) :
    ∃ trace', Watched.Run hash nodeId trace'
      { s with
        manager := s.manager.membershipTick hash next.snapshot
        phase := .idle next } := by
  have htaken := hrun.step (.snapshot next hphase)
  have hring := htaken.step (.ring rfl)
  have haddrs := hring.step (.addrs rfl)
  exact ⟨_, haddrs.step (.peers rfl)⟩

/-- An address in the table is that of the port which the node has published. -/
theorem Watched.Follows.getElem?_peerAddrs {nodeId : String} {s : Watched} (h : s.Follows nodeId)
    (id : String) :
    s.manager.peerAddrs[id]? = s.phase.addrGossip.grpcPorts[id]?.map grpcAddr := by
  rw [h.peerAddrs, Gossip.getElem?_liveGrpcAddrs]

/-! ## Who handles a key -/

/-- The key is handled by forwarding it, unless the node owns it. -/
def ClusterManager.LocalOnlyByOwner (hash : String → UInt64) {Client : Type}
    (self : ClusterManager Client) (key : String) : Prop :=
  (self.getOwnerAddr hash key = none ↔ self.isLocal hash key = true) ∧
    (self.routeByObject hash key = .local ↔ self.isLocal hash key = true)

/-- A key is handled by its owner only, exactly if the owner is the node itself or has an
address in the table. -/
theorem ClusterManager.localOnlyByOwner_iff {Client : Type} {self : ClusterManager Client}
    {key : String} :
    self.LocalOnlyByOwner hash key ↔
      ∀ owner, self.ring.getOwner hash key = some owner →
        owner = self.nodeId ∨ owner ∈ self.peerAddrs := by
  have hroute : self.routeByObject hash key = .local ↔ self.getOwnerAddr hash key = none := by
    rw [routeByObject]
    cases self.getOwnerAddr hash key <;> simp
  rw [LocalOnlyByOwner, hroute, and_self, getOwnerAddr, isLocal]
  cases self.ring.getOwner hash key with
  | none => simp
  | some owner =>
      by_cases hself : owner = self.nodeId
      · simp [hself]
      · simp [hself]

/-- In every state of every run, whatever the gossip was and however calls are interleaved with
the writes of the watcher: a key is handled locally only by its owner exactly if its owner on the
ring is the node itself or had published its address in the gossip that was last written to the
addresses.  All keys are, if this gossip has the addresses of all other nodes that were live in
the gossip that was last written to the ring. -/
theorem handled_locally_iff_owner_known (hash : String → UInt64) (nodeId : String)
    (trace : List (Watched × WatchedEvent)) (s : Watched)
    (hrun : Watched.Run hash nodeId trace s) :
    (∀ key, s.manager.LocalOnlyByOwner hash key ↔
      ∀ owner, s.manager.ring.getOwner hash key = some owner →
        owner = nodeId ∨ owner ∈ s.phase.addrGossip.grpcPorts) ∧
      ((∀ id ∈ s.phase.ringGossip.liveNodeIds, id = nodeId ∨ id ∈ s.phase.addrGossip.grpcPorts) →
        ∀ key, s.manager.LocalOnlyByOwner hash key) := by
  have hfollows := hrun.follows
  have hiff : ∀ key, s.manager.LocalOnlyByOwner hash key ↔
      ∀ owner, s.manager.ring.getOwner hash key = some owner →
        owner = nodeId ∨ owner ∈ s.phase.addrGossip.grpcPorts := by
    intro key
    have hpublished : ∀ owner, owner ∈ s.manager.peerAddrs ↔
        owner ∈ s.phase.addrGossip.grpcPorts := by
      intro owner
      rw [Std.ExtTreeMap.mem_iff_isSome_getElem?, hfollows.getElem?_peerAddrs, Option.isSome_map,
        ← Std.ExtTreeMap.mem_iff_isSome_getElem?]
    rw [ClusterManager.localOnlyByOwner_iff, hfollows.sameNode]
    simp only [hpublished]
  refine ⟨hiff, fun hall key => (hiff key).mpr fun owner howner => ?_⟩
  rcases hfollows.members owner (HashRing.mem_nodes_of_getOwner howner) with heq | hlive
  · exact .inl heq
  · exact hall owner hlive

/-! ## An owner without an address -/

/-- A member owns the keys of its own vnodes. -/
theorem Holds.getOwner_vnodeKey {ring : HashRing} {members : Set String}
    (h : Holds hash ring members) {id : String} (hid : id ∈ members) {i : Nat}
    (hi : i < VNODES_PER_NODE) : ring.getOwner hash (vnodeKey id i) = some id := by
  have hvnode : ring.ring[hash (vnodeKey id i)]? = some id := (h _ id).mpr ⟨hid, i, hi, rfl⟩
  exact HashRing.getOwner_eq_some_iff.mpr (.inl ⟨_, hvnode, UInt64.le_refl _, fun q _ hle => hle⟩)

/-- Both nodes are live, and `a` has published its address. -/
def firstGossip : Gossip where
  liveNodeIds := ["a", "b"]
  grpcPorts := (∅ : HashMap String UInt16).insert "a" 3001
  live_of_published := by simp

/-- Both nodes have published their addresses, with different ports. -/
def laterGossip : Gossip where
  liveNodeIds := ["a", "b"]
  grpcPorts := ((∅ : HashMap String UInt16).insert "a" 3001).insert "b" 4001
  live_of_published := by
    intro id hid
    have hcases : "b" = id ∨ "a" = id := by simpa using hid
    rcases hcases with heq | heq <;> simp [← heq]

/-- What a first round of the watcher leaves on `a`. -/
def firstRound (gossip : Gossip) : Watched :=
  { Watched.start rankHash "a" with
    manager := (Watched.start rankHash "a").manager.membershipTick rankHash gossip.snapshot
    phase := .idle gossip }

theorem run_firstRound (gossip : Gossip) :
    ∃ trace, Watched.Run rankHash "a" trace (firstRound gossip) :=
  Watched.Run.start.tick rfl gossip

/-- `b` is a member of the ring of `a`. -/
theorem getOwner_firstRound {gossip : Gossip} (hgossip : gossip.liveNodeIds = ["a", "b"]) :
    (firstRound gossip).manager.ring.getOwner rankHash (vnodeKey "b" 0) = some "b" := by
  have hlive : ∀ id ∈ gossip.snapshot.liveNodeIds, id ∈ ({"a", "b"} : Set String) := by
    intro id hmem
    rw [Gossip.snapshot, hgossip] at hmem
    simpa using hmem
  have hself : Holds rankHash (Watched.start rankHash "a").manager.ring {"a"} := by
    rw [Watched.start_ring]
    exact holds_self rankHash_vnodesDistinct (by simp)
  have hround := hself.membershipTick rankHash_vnodesDistinct hlive (by simp)
    (Set.mem_singleton "a")
  have hmember : "b" = (Watched.start rankHash "a").manager.nodeId ∨
      "b" ∈ gossip.snapshot.liveNodeIds := by
    refine .inr ?_
    rw [Gossip.snapshot, hgossip]
    simp
  have hzero : 0 < VNODES_PER_NODE := by decide
  exact hround.getOwner_vnodeKey (Set.mem_ofPred_eq.mpr hmember) hzero

/-- With both addresses published `a` handles its own keys and forwards the others. -/
theorem handled_locally_iff_owner_known_published :
    (∃ trace, Watched.Run rankHash "a" trace (firstRound laterGossip)) ∧
      ∀ key, (firstRound laterGossip).manager.LocalOnlyByOwner rankHash key := by
  rcases run_firstRound laterGossip with ⟨trace, hrun⟩
  refine ⟨⟨trace, hrun⟩,
    (handled_locally_iff_owner_known rankHash "a" trace _ hrun).2 fun id hid => .inr ?_⟩
  have hcases : id = "a" ∨ id = "b" := by
    simpa [firstRound, WatcherPhase.ringGossip, laterGossip] using hid
  rcases hcases with heq | heq <;> subst heq <;>
    simp [firstRound, WatcherPhase.addrGossip, laterGossip]

/-- `b` is live and on the ring, and has not published its address yet: `a` handles a key of `b`
itself. -/
theorem unknown_owner_handled_locally :
    (∃ trace, Watched.Run rankHash "a" trace (firstRound firstGossip)) ∧
      (firstRound firstGossip).manager.getOwnerAddr rankHash (vnodeKey "b" 0) = none ∧
      (firstRound firstGossip).manager.routeByObject rankHash (vnodeKey "b" 0) = .local ∧
      (firstRound firstGossip).manager.isLocal rankHash (vnodeKey "b" 0) = false := by
  have howner := @getOwner_firstRound firstGossip rfl
  have hnodeId : (firstRound firstGossip).manager.nodeId = "a" := rfl
  have hunknown : (firstRound firstGossip).manager.peerAddrs["b"]? = none := by
    change firstGossip.snapshot.liveGrpcAddrs["b"]? = none
    rw [Gossip.getElem?_liveGrpcAddrs]
    simp [firstGossip]
  have hnone : (firstRound firstGossip).manager.getOwnerAddr rankHash (vnodeKey "b" 0) = none := by
    rw [ClusterManager.getOwnerAddr, howner, hnodeId]
    simpa using hunknown
  refine ⟨run_firstRound firstGossip, hnone, ?_, ?_⟩
  · rw [ClusterManager.routeByObject, hnone]
  · rw [ClusterManager.isLocal, howner, hnodeId]
    decide

end StorageMetadata
end ObjectStore
