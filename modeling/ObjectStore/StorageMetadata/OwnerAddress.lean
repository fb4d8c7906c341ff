import ObjectStore.StorageMetadata.Watcher

/-!
# Storage metadata - Owners behind their addresses

A node publishes the address that it listens on, which names its port and no host.  Forwarding
looks up the owner's address and then a connection under any node with that address.  This tells
the owner apart from the other nodes only where no other node has published the same port.

Main definitions:

- `Watched.Unambiguous`: a connection is looked up or cached under an address of one node.
- `Watched.FiledUnderTarget`: a connection is cached under the node that it was made for.

Main results:

- Theorem `Watched.Run.filedUnderTarget`: this holds along runs that are unambiguous.
- Theorem `Watched.Run.mixes_connections`: without this, a run hands out another node's
  connection.
- Theorem `owner_address_identifies_owner_iff`: when the address belongs to the owner only.
-/

namespace ObjectStore
namespace StorageMetadata

variable {hash : String → UInt64}

/-! ## Ports and addresses -/

theorem grpcAddr_injective {grpcPort grpcPort' : UInt16}
    (h : grpcAddr grpcPort = grpcAddr grpcPort') : grpcPort = grpcPort' := by
  have happend : "0.0.0.0:" ++ toString grpcPort = "0.0.0.0:" ++ toString grpcPort' := h
  have hdigits : grpcPort.toNat.repr = grpcPort'.toNat.repr := by
    have hlists := congrArg String.toList happend
    rw [String.toList_append, String.toList_append] at hlists
    exact String.toList_inj.mp (List.append_cancel_left hlists)
  exact UInt16.toNat_inj.mp (Nat.repr_injective hdigits)

/-- A node has an address in the table exactly if it has published the port. -/
theorem Watched.Follows.peerAddrs_eq_grpcAddr {nodeId : String} {s : Watched}
    (h : s.Follows nodeId) {id : String} {grpcPort : UInt16} :
    s.manager.peerAddrs[id]? = some (grpcAddr grpcPort) ↔
      s.phase.addrGossip.grpcPorts[id]? = some grpcPort := by
  rw [h.getElem?_peerAddrs, Option.map_eq_some_iff]
  constructor
  · rintro ⟨published, hpublished, haddr⟩
    rw [hpublished, grpcAddr_injective haddr]
  · intro hpublished
    exact ⟨grpcPort, hpublished, rfl⟩

/-! ## Cached connections -/

/-- No node but the target has the address under which the connection is looked up or cached. -/
def Watched.Unambiguous (s : Watched) (event : WatchedEvent) : Prop :=
  ∀ call : PeerCall, (event = .cached call ∨ ∃ connection, event = .found call connection) →
    ∀ id : String, s.manager.peerAddrs[id]? = some call.addr → id = call.target

/-- Connections are cached under the node that they were made for. -/
def Watched.FiledUnderTarget (s : Watched) : Prop :=
  ∀ (nid : String) (connection : Connection), s.manager.peers[nid]? = some connection →
    connection.target = nid

theorem ClusterManager.peers_of_retainPeers {Client : Type} {self : ClusterManager Client}
    {liveNodeIds : List String} {nid : String} {client : Client}
    (h : (self.retainPeers liveNodeIds).peers[nid]? = some client) :
    self.peers[nid]? = some client := by
  have hkept : (self.peers.filter fun nid _ => nid ∈ liveNodeIds)[nid]? = some client := h
  rw [Std.ExtTreeMap.getElem?_filter, Option.pfilter_eq_some_iff] at hkept
  rcases hkept with ⟨hpeer, _⟩
  exact hpeer

theorem WatchedStep.filedUnderTarget {s s' : Watched} {event : WatchedEvent}
    (hstep : WatchedStep hash s event s') (hunambiguous : s.Unambiguous event)
    (h : s.FiledUnderTarget) : s'.FiledUnderTarget := by
  cases hstep with
  | peers hphase =>
      intro nid connection hpeer
      exact h nid connection (ClusterManager.peers_of_retainPeers hpeer)
  | @cached call hcall hconnecting nid hnid =>
      have htarget := hunambiguous call (.inl rfl) nid hnid
      intro other connection hpeer
      rw [Std.ExtTreeMap.getElem?_insert] at hpeer
      split at hpeer
      · rename_i heq
        have hsame : nid = other := by simpa using heq
        rw [← Option.some.inj hpeer, ← hsame, htarget]
      · exact h other connection hpeer
  | snapshot | ring | addrs | address | found | missed | dropped => exact h

theorem Watched.Run.filedUnderTarget {nodeId : String} {trace : List (Watched × WatchedEvent)}
    {s : Watched} (hrun : Watched.Run hash nodeId trace s)
    (hunambiguous : ∀ step ∈ trace, step.1.Unambiguous step.2) : s.FiledUnderTarget := by
  induction hrun with
  | start =>
      intro nid connection hpeer
      simp [Watched.start, ClusterManager.new] at hpeer
  | step hrun hstep ih =>
      have hbefore := ih fun step hmem => hunambiguous step (List.mem_append_left _ hmem)
      have hlast := hunambiguous _ (List.mem_append_right _ (List.mem_singleton_self _))
      exact hstep.filedUnderTarget hlast hbefore

/-- Every step of a run is made in a state that the run has reached before. -/
theorem Watched.Run.of_mem {nodeId : String} {trace : List (Watched × WatchedEvent)}
    {s : Watched} (hrun : Watched.Run hash nodeId trace s) {before : Watched}
    {event : WatchedEvent} (hmem : (before, event) ∈ trace) :
    ∃ s' start rest, Watched.Run hash nodeId start before ∧ WatchedStep hash before event s' ∧
      trace = start ++ (before, event) :: rest := by
  induction hrun with
  | start => simp at hmem
  | @step trace s s' last hrun hstep ih =>
      rcases List.mem_append.mp hmem with hearlier | hlast
      · rcases ih hearlier with ⟨after, start, rest, hstart, hmade, htrace⟩
        exact ⟨after, start, rest ++ [(s, last)], hstart, hmade, by simp [htrace]⟩
      · have hpair : (before, event) = (s, last) := by simpa using hlast
        rcases Prod.mk.inj hpair with ⟨hs, hevent⟩
        subst hs hevent
        exact ⟨s', trace, [], hrun, hstep, rfl⟩

/-- In an unambiguous run every call gets a connection to its target. -/
theorem Watched.Run.found_target {nodeId : String} {trace : List (Watched × WatchedEvent)}
    {s : Watched} (hrun : Watched.Run hash nodeId trace s)
    (hunambiguous : ∀ step ∈ trace, step.1.Unambiguous step.2) {before : Watched}
    {call : PeerCall} {connection : Connection}
    (hmem : (before, .found call connection) ∈ trace) : connection.target = call.target := by
  rcases hrun.of_mem hmem with ⟨s', start, rest, hstart, hstep, htrace⟩
  have hfiled := hstart.filedUnderTarget fun step hstep =>
    hunambiguous step (by rw [htrace]; exact List.mem_append_left _ hstep)
  cases hstep with
  | @found _ hcall hconnecting nid hnid connection hpeer =>
      have htarget := hunambiguous _ hmem call (.inr ⟨connection, rfl⟩) nid hnid
      rw [hfiled nid connection hpeer, htarget]

/-- Two other nodes with one address and no connection yet: a connection to the one is handed
out for the other. -/
theorem Watched.Run.mixes_connections {nodeId : String} {trace : List (Watched × WatchedEvent)}
    {s : Watched} (hrun : Watched.Run hash nodeId trace s) {first second addr : String}
    (hfirst : s.manager.peerAddrs[first]? = some addr)
    (hsecond : s.manager.peerAddrs[second]? = some addr)
    (hfirstOther : first ≠ s.manager.nodeId) (hsecondOther : second ≠ s.manager.nodeId)
    (hnone : ∀ nid : String, s.manager.peers[nid]? = none) :
    ∃ trace' s', Watched.Run hash nodeId trace' s' ∧
      ∃ before, (before, .found ⟨second, addr, false⟩ ⟨first⟩) ∈ trace' := by
  have hread := hrun.step (.address hfirstOther hfirst)
  have hmissed := hread.step
    (.missed (List.mem_cons_self ..) rfl fun nid _ => hnone nid)
  have hcached := hmissed.step (.cached (List.mem_cons_self ..) rfl hsecond)
  have hagain := hcached.step (@WatchedStep.address hash _ second addr hsecondOther hsecond)
  have hpeer : (s.manager.peers.insert second (⟨first⟩ : Connection))[second]? = some ⟨first⟩ := by
    simp
  have hfound := hagain.step (.found (List.mem_cons_self ..) rfl hsecond hpeer)
  exact ⟨_, _, hfound, _, List.mem_append_right _ (List.mem_singleton_self _)⟩

/-! ## The owner's address -/

/-- In every state of every run, whatever ports the nodes publish: for a key of another node that
has published its port, the address names the owner and no other live node exactly if no other
node has published this port.  A run that looks up and caches connections only under addresses
of one node hands out connections to the node that was asked for, in whatever order they were
made. -/
theorem owner_address_identifies_owner_iff (hash : String → UInt64) (nodeId : String)
    (trace : List (Watched × WatchedEvent)) (s : Watched)
    (hrun : Watched.Run hash nodeId trace s) :
    (∀ (key owner : String) (grpcPort : UInt16),
        s.manager.ring.getOwner hash key = some owner → owner ≠ nodeId →
        s.phase.addrGossip.grpcPorts[owner]? = some grpcPort →
        ∃ addr, s.manager.getOwnerAddr hash key = some addr ∧
          ((∀ id, id ∈ s.phase.addrGossip.liveNodeIds ∧ s.manager.peerAddrs[id]? = some addr ↔
              id = owner) ↔
            ∀ id, s.phase.addrGossip.grpcPorts[id]? = some grpcPort → id = owner)) ∧
      ((∀ step ∈ trace, step.1.Unambiguous step.2) →
        ∀ before call connection, (before, .found call connection) ∈ trace →
          connection.target = call.target) := by
  have hfollows := hrun.follows
  refine ⟨fun key owner grpcPort howner hother hport => ?_,
    fun hunambiguous before call connection hmem => hrun.found_target hunambiguous hmem⟩
  have haddr : s.manager.getOwnerAddr hash key = some (grpcAddr grpcPort) := by
    rw [ClusterManager.getOwnerAddr, howner, hfollows.sameNode]
    simpa [hother] using hfollows.peerAddrs_eq_grpcAddr.mpr hport
  have hlive : ∀ id, s.phase.addrGossip.grpcPorts[id]? = some grpcPort →
      id ∈ s.phase.addrGossip.liveNodeIds := fun id hid =>
    s.phase.addrGossip.live_of_published id
      (HashMap.mem_iff_exists_getElem?.mpr ⟨grpcPort, hid⟩)
  refine ⟨grpcAddr grpcPort, haddr, ?_⟩
  simp only [hfollows.peerAddrs_eq_grpcAddr]
  constructor
  · intro hone id hid
    exact (hone id).mp ⟨hlive id hid, hid⟩
  · intro hunique id
    constructor
    · rintro ⟨_, hid⟩
      exact hunique id hid
    · intro heq
      subst heq
      exact ⟨hlive id hport, hport⟩

/-! ## Nodes with the default port -/

/-- Both nodes have published the default port. -/
def defaultPorts : Gossip where
  liveNodeIds := ["a", "b"]
  grpcPorts := ((∅ : HashMap String UInt16).insert "a" 3001).insert "b" 3001
  live_of_published := by
    intro id hid
    have hcases : "b" = id ∨ "a" = id := by simpa using hid
    rcases hcases with heq | heq <;> simp [← heq]

/-- Two more nodes with the default port, seen from `a`. -/
def twoPeers : Gossip where
  liveNodeIds := ["b", "c"]
  grpcPorts := ((∅ : HashMap String UInt16).insert "b" 3001).insert "c" 3001
  live_of_published := by
    intro id hid
    have hcases : "c" = id ∨ "b" = id := by simpa using hid
    rcases hcases with heq | heq <;> simp [← heq]

/-- A port stays when another node publishes the same one. -/
theorem getElem?_insert_samePort {published : HashMap String UInt16} {id id' : String}
    {grpcPort : UInt16} (h : published[id]? = some grpcPort) :
    (published.insert id' grpcPort)[id]? = some grpcPort := by
  by_cases heq : id = id'
  · rw [heq, Std.ExtTreeMap.getElem?_insert_self]
  · rw [HashMap.getElem?_insert_of_ne _ _ heq, h]

/-- Two nodes that have published one port have one address in the table. -/
theorem peerAddrs_of_samePort {gossip : Gossip} {trace : List (Watched × WatchedEvent)}
    {first second : String} {grpcPort : UInt16}
    (hrun : Watched.Run rankHash "a" trace (firstRound gossip))
    (hports : gossip.grpcPorts =
      ((∅ : HashMap String UInt16).insert first grpcPort).insert second grpcPort) :
    (firstRound gossip).manager.peerAddrs[first]? = some (grpcAddr grpcPort) ∧
      (firstRound gossip).manager.peerAddrs[second]? = some (grpcAddr grpcPort) := by
  have hfirst : gossip.grpcPorts[first]? = some grpcPort := by
    rw [hports]
    exact getElem?_insert_samePort Std.ExtTreeMap.getElem?_insert_self
  have hsecond : gossip.grpcPorts[second]? = some grpcPort := by
    rw [hports]
    exact Std.ExtTreeMap.getElem?_insert_self
  exact ⟨hrun.follows.peerAddrs_eq_grpcAddr.mpr hfirst,
    hrun.follows.peerAddrs_eq_grpcAddr.mpr hsecond⟩

/-- `laterGossip` has different ports: the address of `b` belongs to `b` only. -/
theorem owner_address_identifies_owner_iff_differentPorts :
    (firstRound laterGossip).manager.getOwnerAddr rankHash (vnodeKey "b" 0) =
        some (grpcAddr 4001) ∧
      ∀ id, id ∈ ["a", "b"] ∧
          (firstRound laterGossip).manager.peerAddrs[id]? = some (grpcAddr 4001) ↔ id = "b" := by
  rcases run_firstRound laterGossip with ⟨trace, hrun⟩
  have hport : laterGossip.grpcPorts["b"]? = some 4001 := by simp [laterGossip]
  have hother : "b" ≠ "a" := by decide
  rcases (owner_address_identifies_owner_iff rankHash "a" trace _ hrun).1 (vnodeKey "b" 0) "b"
    4001 (@getOwner_firstRound laterGossip rfl) hother hport with ⟨addr, haddr, hiff⟩
  have hunique : ∀ id, laterGossip.grpcPorts[id]? = some 4001 → id = "b" := by
    intro id hid
    by_contra hne
    rw [laterGossip, HashMap.getElem?_insert_of_ne _ _ hne] at hid
    by_cases ha : id = "a"
    · rw [ha] at hid
      simp at hid
    · rw [HashMap.getElem?_insert_of_ne _ _ ha] at hid
      simp at hid
  have hpeer : (firstRound laterGossip).manager.peerAddrs["b"]? = some (grpcAddr 4001) :=
    hrun.follows.peerAddrs_eq_grpcAddr.mpr hport
  have hvalue : addr = grpcAddr 4001 := by
    have hb := ((hiff.mpr hunique) "b").mpr rfl
    exact Option.some.inj (hb.2.symm.trans hpeer)
  rw [hvalue] at haddr hiff
  exact ⟨haddr, hiff.mpr hunique⟩

/-- `a` and `b` have the same address, which is the one that `a` finds for a key of `b`.  With a
third node a connection to `b` is handed out for `c`. -/
theorem shared_port_hides_the_owner :
    (∃ trace, Watched.Run rankHash "a" trace (firstRound defaultPorts)) ∧
      (firstRound defaultPorts).manager.getOwnerAddr rankHash (vnodeKey "b" 0) =
        some (grpcAddr 3001) ∧
      "a" ∈ defaultPorts.liveNodeIds ∧
      (firstRound defaultPorts).manager.peerAddrs["a"]? = some (grpcAddr 3001) ∧
      ∃ trace s, Watched.Run rankHash "a" trace s ∧
        ∃ before, (before, .found ⟨"c", grpcAddr 3001, false⟩ ⟨"b"⟩) ∈ trace := by
  rcases run_firstRound defaultPorts with ⟨trace, hrun⟩
  rcases run_firstRound twoPeers with ⟨trace', hrun'⟩
  rcases peerAddrs_of_samePort hrun rfl with ⟨hfirst, hsecond⟩
  rcases peerAddrs_of_samePort hrun' rfl with ⟨hasked, hother⟩
  have haddr : (firstRound defaultPorts).manager.getOwnerAddr rankHash (vnodeKey "b" 0) =
      some (grpcAddr 3001) := by
    rw [ClusterManager.getOwnerAddr, @getOwner_firstRound defaultPorts rfl,
      hrun.follows.sameNode]
    simpa using hsecond
  have hnone : ∀ nid : String, (firstRound twoPeers).manager.peers[nid]? = none := by
    intro nid
    cases hfound : (firstRound twoPeers).manager.peers[nid]? with
    | none => rfl
    | some connection =>
        have hstart := ClusterManager.peers_of_retainPeers hfound
        simp [Watched.start, ClusterManager.new] at hstart
  have hmixed := hrun'.mixes_connections hasked hother
    (by rw [hrun'.follows.sameNode]; decide) (by rw [hrun'.follows.sameNode]; decide) hnone
  exact ⟨⟨trace, hrun⟩, haddr, by simp [defaultPorts], hfirst, hmixed⟩

end StorageMetadata
end ObjectStore
