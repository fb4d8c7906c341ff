import ObjectStore.StorageMetadata.HashRing

/-!
# Storage metadata - Membership and the ring

`ClusterManager` in `cluster.rs`: the watcher compares the ids on the ring with each
gossip snapshot, adds the ids that are missing and removes those that have departed.
The abstract state of a ring is the set of its members.  As long as no two vnode keys
share a hash, a ring holds exactly the vnodes of its members, whatever happened
before.

Main results:

- Theorem `vnodeKey_injective`: vnode keys of different nodes never coincide.
- Theorem `Holds.unique`: the members determine the ring.
- Theorem `Holds.membershipTick`: one tick sets the members to the snapshot.
- Theorem `ring_follows_last_snapshot`: histories do not matter.
-/

namespace ObjectStore
namespace StorageMetadata

/-! ## The watcher -/

/-- What gossip reports at a tick. -/
structure Snapshot where
  /-- In any order, and possibly with repetitions. -/
  liveNodeIds : List String
  liveGrpcAddrs : HashMap String String

/-- `ClusterManager`: what a node knows of the other metadata nodes. -/
structure ClusterManager (Client : Type) where
  ring : HashRing
  nodeId : String
  peers : HashMap String Client
  peerAddrs : HashMap String String

namespace ClusterManager

variable {Client : Type} (hash : String → UInt64)

/-- The part of `ClusterManager::new` that concerns the ring and the peers. -/
def new (nodeId : String) : ClusterManager Client where
  ring := HashRing.new.addNode hash nodeId
  nodeId := nodeId
  peers := ∅
  peerAddrs := ∅

/-- One round of the loop of `spawn_membership_watcher`. -/
def membershipTick (self : ClusterManager Client) (snapshot : Snapshot) :
    ClusterManager Client :=
  let currentNodes := self.ring.nodes
  let added := snapshot.liveNodeIds.foldl (fun ring nid =>
    if nid ≠ self.nodeId ∧ nid ∉ currentNodes then ring.addNode hash nid else ring) self.ring
  let removed := currentNodes.foldl (fun ring nid =>
    if nid ≠ self.nodeId ∧ nid ∉ snapshot.liveNodeIds then ring.removeNode nid else ring) added
  { self with
    ring := removed
    peerAddrs := snapshot.liveGrpcAddrs
    peers := self.peers.filter fun nid _ => nid ∈ snapshot.liveNodeIds }

/-- The watcher after a history of snapshots. -/
def watch (self : ClusterManager Client) (history : List Snapshot) : ClusterManager Client :=
  history.foldl (membershipTick hash) self

end ClusterManager

/-- The ring built from empty out of the node itself and a list of ids. -/
def ringOf (hash : String → UInt64) (nodeId : String) (ids : List String) : HashRing :=
  ids.foldl (HashRing.addNode hash) (HashRing.new.addNode hash nodeId)

/-- The ids of the last snapshot. -/
def lastLiveNodeIds (history : List Snapshot) : List String :=
  (history.getLast?.map Snapshot.liveNodeIds).getD []

/-! ## Vnode keys -/

/-- The last separator splits a list in one way. -/
theorem append_cons_inj_of_forall {α : Type} {p : α → Bool} {l l' d d' : List α} {c : α}
    (hc : p c = false) (hd : ∀ x ∈ d, p x = true) (hd' : ∀ x ∈ d', p x = true)
    (h : l ++ c :: d = l' ++ c :: d') : l = l' ∧ d = d' := by
  have hsplit : ∀ {l d : List α}, (∀ x ∈ d, p x = true) →
      ((l ++ c :: d).reverse.takeWhile p = d.reverse ∧
        (l ++ c :: d).reverse.dropWhile p = c :: l.reverse) := by
    intro l d hall
    have hreverse : (l ++ c :: d).reverse = d.reverse ++ c :: l.reverse := by simp
    have hall' : ∀ x ∈ d.reverse, p x = true := fun x hx => hall x (List.mem_reverse.mp hx)
    rw [hreverse, List.takeWhile_append_of_pos hall', List.dropWhile_append_of_pos hall']
    simp [hc]
  have htake := (hsplit (l := l) hd).1
  rw [h, (hsplit (l := l') hd').1] at htake
  have hdrop := (hsplit (l := l) hd).2
  rw [h, (hsplit (l := l') hd').2] at hdrop
  have htail := (List.cons.inj hdrop).2
  exact ⟨(List.reverse_injective htail).symm, (List.reverse_injective htake).symm⟩

theorem toList_vnodeKey (nodeId : String) (i : Nat) :
    (vnodeKey nodeId i).toList =
      (nodeId.toList ++ "-vnode".toList) ++ '-' :: Nat.toDigits 10 i := by
  have hkey : vnodeKey nodeId i = nodeId ++ "-vnode-" ++ toString i := rfl
  rw [hkey, String.toList_append, String.toList_append, Nat.toString_eq_ofList_toDigits]
  simp

/-- The number behind the last dash is the vnode index, and what comes before it ends
with the id, whatever characters the id has. -/
theorem vnodeKey_injective {nodeId nodeId' : String} {i j : Nat}
    (h : vnodeKey nodeId i = vnodeKey nodeId' j) : nodeId = nodeId' ∧ i = j := by
  have hlists := congrArg String.toList h
  rw [toList_vnodeKey, toList_vnodeKey] at hlists
  have hdigits : ∀ n, ∀ c ∈ Nat.toDigits 10 n, c.isDigit = true := fun n c hmem =>
    Nat.isDigit_of_mem_toDigits (b := 10) (by decide) (by decide) hmem
  rcases append_cons_inj_of_forall (by decide) (hdigits i) (hdigits j) hlists with
    ⟨hbefore, hnumber⟩
  constructor
  · exact String.toList_inj.mp (List.append_cancel_right hbefore)
  · calc
      i = Nat.ofDigitChars 10 (Nat.toDigits 10 i) 0 := Nat.ofDigitChars_ten_toDigits.symm
      _ = Nat.ofDigitChars 10 (Nat.toDigits 10 j) 0 := by rw [hnumber]
      _ = j := Nat.ofDigitChars_ten_toDigits

/-! ## Rings and their members -/

variable {hash : String → UInt64}

/-- Two different vnode keys of the ids never share a hash. -/
def VnodesDistinct (hash : String → UInt64) (ids : Set String) : Prop :=
  ∀ id ∈ ids, ∀ id' ∈ ids, ∀ i < VNODES_PER_NODE, ∀ j < VNODES_PER_NODE,
    hash (vnodeKey id i) = hash (vnodeKey id' j) → vnodeKey id i = vnodeKey id' j

/-- A vnode of the node sits at `position`. -/
def VnodeAt (hash : String → UInt64) (nodeId : String) (position : UInt64) : Prop :=
  ∃ i < VNODES_PER_NODE, hash (vnodeKey nodeId i) = position

/-- The ring holds exactly the vnodes of `members`. -/
def Holds (hash : String → UInt64) (ring : HashRing) (members : Set String) : Prop :=
  ∀ (position : UInt64) (nodeId : String),
    ring.ring[position]? = some nodeId ↔ nodeId ∈ members ∧ VnodeAt hash nodeId position

/-- A position belongs to one id. -/
theorem VnodesDistinct.eq_of_vnodeAt {ids : Set String} (h : VnodesDistinct hash ids)
    {id id' : String} (hid : id ∈ ids) (hid' : id' ∈ ids) {position : UInt64}
    (hat : VnodeAt hash id position) (hat' : VnodeAt hash id' position) : id = id' := by
  rcases hat with ⟨i, hi, hposition⟩
  rcases hat' with ⟨j, hj, hposition'⟩
  exact (vnodeKey_injective (h id hid id' hid' i hi j hj (hposition.trans hposition'.symm))).1

/-- The members determine the ring. -/
theorem Holds.unique {ring ring' : HashRing} {members : Set String}
    (h : Holds hash ring members) (h' : Holds hash ring' members) : ring = ring' := by
  have hmap : ring.ring = ring'.ring := by
    refine Std.ExtTreeMap.ext_getElem? fun position => ?_
    cases hfound : ring'.ring[position]? with
    | some nodeId => exact (h position nodeId).mpr ((h' position nodeId).mp hfound)
    | none =>
        cases hother : ring.ring[position]? with
        | none => rfl
        | some nodeId =>
            have hsome := (h' position nodeId).mpr ((h position nodeId).mp hother)
            rw [hfound] at hsome
            cases hsome
  cases ring
  cases ring'
  exact congrArg HashRing.mk hmap

/-- An empty ring has no members. -/
theorem holds_new : Holds hash HashRing.new ∅ := by
  intro position nodeId
  simp [HashRing.new]

/-- The positions after the first `n` rounds of the loop of `add_node`. -/
theorem getElem?_addNode_loop (ring : HashRing) (nodeId : String) (n : Nat)
    (position : UInt64) :
    ((List.range n).foldl
        (fun ring i => (⟨ring.ring.insert (hash (vnodeKey nodeId i)) nodeId⟩ : HashRing))
        ring).ring[position]? = some nodeId ∧ (∃ i < n, hash (vnodeKey nodeId i) = position) ∨
      ((List.range n).foldl
        (fun ring i => (⟨ring.ring.insert (hash (vnodeKey nodeId i)) nodeId⟩ : HashRing))
        ring).ring[position]? = ring.ring[position]? ∧
        ¬ ∃ i < n, hash (vnodeKey nodeId i) = position := by
  induction n with
  | zero => exact .inr ⟨rfl, by simp⟩
  | succ n ih =>
      rw [List.range_succ, List.foldl_append, List.foldl_cons, List.foldl_nil]
      by_cases hlast : hash (vnodeKey nodeId n) = position
      · refine .inl ⟨?_, n, by omega, hlast⟩
        rw [← hlast]
        exact Std.ExtTreeMap.getElem?_insert_self
      · rw [HashMap.getElem?_insert_of_ne _ _ (Ne.symm hlast)]
        rcases ih with ⟨hfound, i, hi, hposition⟩ | ⟨hfound, hnone⟩
        · exact .inl ⟨hfound, i, by omega, hposition⟩
        · refine .inr ⟨hfound, ?_⟩
          rintro ⟨i, hi, hposition⟩
          rcases Nat.lt_or_ge i n with hlt | hge
          · exact hnone ⟨i, hlt, hposition⟩
          · have heq : i = n := by omega
            subst heq
            exact hlast hposition

/-- Adding a node adds one member. -/
theorem Holds.addNode {ring : HashRing} {members : Set String} (h : Holds hash ring members)
    {nodeId : String} (hids : VnodesDistinct hash (insert nodeId members)) :
    Holds hash (ring.addNode hash nodeId) (insert nodeId members) := by
  intro position owner
  have hself : nodeId ∈ insert nodeId members := Set.mem_insert _ _
  rcases @getElem?_addNode_loop hash ring nodeId VNODES_PER_NODE position with
    ⟨hfound, hat⟩ | ⟨hfound, hnone⟩
  · have hlookup : (ring.addNode hash nodeId).ring[position]? = some nodeId := hfound
    rw [hlookup]
    constructor
    · intro heq
      cases heq
      exact ⟨hself, hat⟩
    · rintro ⟨hmem, hat'⟩
      rw [hids.eq_of_vnodeAt hself hmem hat hat']
  · have hlookup : (ring.addNode hash nodeId).ring[position]? = ring.ring[position]? := hfound
    rw [hlookup, h position owner]
    constructor
    · rintro ⟨hmem, hat⟩
      exact ⟨Set.mem_insert_of_mem _ hmem, hat⟩
    · rintro ⟨hmem, hat⟩
      rcases Set.mem_insert_iff.mp hmem with rfl | hmem
      · exact absurd hat hnone
      · exact ⟨hmem, hat⟩

/-- Removing a node removes one member. -/
theorem Holds.removeNode {ring : HashRing} {members : Set String}
    (h : Holds hash ring members) (nodeId : String) :
    Holds hash (ring.removeNode nodeId) (members \ {nodeId}) := by
  intro position owner
  have hlookup : (ring.removeNode nodeId).ring[position]? = some owner ↔
      ring.ring[position]? = some owner ∧ owner ≠ nodeId := by
    simp [HashRing.removeNode, Option.filter_eq_some_iff]
  rw [hlookup, h position owner]
  simp only [Set.mem_sdiff, Set.mem_singleton_iff]
  tauto

/-- `nodes` recovers the members. -/
theorem Holds.mem_nodes {ring : HashRing} {members : Set String}
    (h : Holds hash ring members) {nodeId : String} :
    nodeId ∈ ring.nodes ↔ nodeId ∈ members := by
  rw [HashRing.nodes, List.mem_dedup, List.mem_mergeSort, HashMap.mem_valueList]
  constructor
  · rintro ⟨position, hposition⟩
    exact ((h position nodeId).mp hposition).1
  · intro hmem
    exact ⟨hash (vnodeKey nodeId 0), (h _ nodeId).mpr ⟨hmem, 0, by decide, rfl⟩⟩

/-! ## Reconciliation -/

theorem VnodesDistinct.mono {ids ids' : Set String} (h : VnodesDistinct hash ids)
    (hsub : ids' ⊆ ids) : VnodesDistinct hash ids' :=
  fun id hid id' hid' => h id (hsub hid) id' (hsub hid')

/-- The loop that adds nodes. -/
theorem Holds.foldl_addNode {ids : Set String} (hids : VnodesDistinct hash ids)
    (P : String → Prop) [DecidablePred P] (live : List String) (hlive : ∀ id ∈ live, id ∈ ids)
    {ring : HashRing} {members : Set String} (hmembers : members ⊆ ids)
    (h : Holds hash ring members) :
    Holds hash (live.foldl (fun ring nid => if P nid then ring.addNode hash nid else ring) ring)
      (members ∪ {id | id ∈ live ∧ P id}) := by
  induction live generalizing ring members with
  | nil => simpa using h
  | cons first rest ih =>
      have hfirst : first ∈ ids := hlive first List.mem_cons_self
      have hrest : ∀ id ∈ rest, id ∈ ids := fun id hid => hlive id (List.mem_cons_of_mem _ hid)
      rw [List.foldl_cons]
      by_cases hP : P first
      · have hinsert : insert first members ⊆ ids := Set.insert_subset hfirst hmembers
        have hnext := ih hrest hinsert (h.addNode (hids.mono hinsert))
        rw [if_pos hP]
        convert hnext using 1
        ext id
        simp only [Set.mem_union, Set.mem_ofPred_eq, List.mem_cons, Set.mem_insert_iff]
        constructor
        · rintro (hmem | ⟨rfl | hmem, hid⟩)
          · exact .inl (.inr hmem)
          · exact .inl (.inl rfl)
          · exact .inr ⟨hmem, hid⟩
        · rintro ((rfl | hmem) | ⟨hmem, hid⟩)
          · exact .inr ⟨.inl rfl, hP⟩
          · exact .inl hmem
          · exact .inr ⟨.inr hmem, hid⟩
      · have hnext := ih hrest hmembers h
        rw [if_neg hP]
        convert hnext using 1
        ext id
        simp only [Set.mem_union, Set.mem_ofPred_eq, List.mem_cons]
        constructor
        · rintro (hmem | ⟨rfl | hmem, hid⟩)
          · exact .inl hmem
          · exact absurd hid hP
          · exact .inr ⟨hmem, hid⟩
        · rintro (hmem | ⟨hmem, hid⟩)
          · exact .inl hmem
          · exact .inr ⟨.inr hmem, hid⟩

/-- The loop that removes nodes. -/
theorem Holds.foldl_removeNode (P : String → Prop) [DecidablePred P] (current : List String)
    {ring : HashRing} {members : Set String} (h : Holds hash ring members) :
    Holds hash (current.foldl (fun ring nid => if P nid then ring.removeNode nid else ring) ring)
      (members \ {id | id ∈ current ∧ P id}) := by
  induction current generalizing ring members with
  | nil => simpa using h
  | cons first rest ih =>
      rw [List.foldl_cons]
      by_cases hP : P first
      · have hnext := ih (h.removeNode first)
        rw [if_pos hP]
        convert hnext using 1
        ext id
        simp only [Set.mem_sdiff, Set.mem_ofPred_eq, List.mem_cons, Set.mem_singleton_iff]
        by_cases heq : id = first
        · simp [heq, hP]
        · simp [heq]
      · have hnext := ih h
        rw [if_neg hP]
        convert hnext using 1
        ext id
        simp only [Set.mem_sdiff, Set.mem_ofPred_eq, List.mem_cons]
        by_cases heq : id = first
        · simp [heq, hP]
        · simp [heq]

/-- A tick makes the node and the live nodes the members, whoever they were before. -/
theorem Holds.membershipTick {Client : Type} {ids members : Set String}
    {manager : ClusterManager Client} {snapshot : Snapshot}
    (hids : VnodesDistinct hash ids) (hlive : ∀ id ∈ snapshot.liveNodeIds, id ∈ ids)
    (hmembers : members ⊆ ids) (hself : manager.nodeId ∈ members)
    (h : Holds hash manager.ring members) :
    Holds hash (manager.membershipTick hash snapshot).ring
      {id | id = manager.nodeId ∨ id ∈ snapshot.liveNodeIds} := by
  have hadded := h.foldl_addNode hids
    (fun nid => nid ≠ manager.nodeId ∧ nid ∉ manager.ring.nodes) snapshot.liveNodeIds hlive
    hmembers
  have hremoved := hadded.foldl_removeNode
    (fun nid => nid ≠ manager.nodeId ∧ nid ∉ snapshot.liveNodeIds) manager.ring.nodes
  have hset : (members ∪ {id | id ∈ snapshot.liveNodeIds ∧
        (id ≠ manager.nodeId ∧ id ∉ manager.ring.nodes)}) \
        {id | id ∈ manager.ring.nodes ∧ (id ≠ manager.nodeId ∧ id ∉ snapshot.liveNodeIds)} =
      {id | id = manager.nodeId ∨ id ∈ snapshot.liveNodeIds} := by
    ext id
    simp only [Set.mem_ofPred_eq, Set.mem_sdiff, Set.mem_union, h.mem_nodes]
    by_cases hid : id = manager.nodeId
    · subst hid
      simp [hself]
    · tauto
  rw [← hset]
  exact hremoved

/-! ## Histories -/

/-- The last live nodes are among those that may be. -/
theorem lastLiveNodeIds_subset {ids : Set String} {history : List Snapshot}
    (hhistory : ∀ snapshot ∈ history, ∀ id ∈ snapshot.liveNodeIds, id ∈ ids) :
    ∀ id ∈ lastLiveNodeIds history, id ∈ ids := by
  intro id hid
  unfold lastLiveNodeIds at hid
  cases hlast : history.getLast? with
  | none => simp [hlast] at hid
  | some snapshot =>
      rw [hlast] at hid
      exact hhistory snapshot (List.mem_of_getLast? hlast) id hid

/-- A new manager has itself as the only member. -/
theorem holds_self {ids : Set String} (hids : VnodesDistinct hash ids) {nodeId : String}
    (hself : nodeId ∈ ids) : Holds hash (HashRing.new.addNode hash nodeId) {nodeId} := by
  have hnew : Holds hash (HashRing.new.addNode hash nodeId) (insert nodeId ∅) :=
    holds_new.addNode (hids.mono (by simpa using hself))
  rwa [insert_empty_eq] at hnew

/-- Along every history the members are the node and the last snapshot. -/
theorem holds_watch {Client : Type} {ids : Set String} (hids : VnodesDistinct hash ids)
    {nodeId : String} (hself : nodeId ∈ ids) (history : List Snapshot)
    (hhistory : ∀ snapshot ∈ history, ∀ id ∈ snapshot.liveNodeIds, id ∈ ids) :
    ((ClusterManager.new hash nodeId : ClusterManager Client).watch hash history).nodeId =
        nodeId ∧
      Holds hash ((ClusterManager.new hash nodeId : ClusterManager Client).watch hash history).ring
        {id | id = nodeId ∨ id ∈ lastLiveNodeIds history} := by
  induction history using List.reverseRecOn with
  | nil =>
      have hset : {id | id = nodeId ∨ id ∈ lastLiveNodeIds []} = {nodeId} := by
        ext id
        simp [lastLiveNodeIds]
      rw [hset]
      simp only [ClusterManager.watch, List.foldl_nil, ClusterManager.new]
      exact ⟨trivial, holds_self hids hself⟩
  | append_singleton history snapshot ih =>
      have hprevious : ∀ other ∈ history, ∀ id ∈ other.liveNodeIds, id ∈ ids :=
        fun other hother => hhistory other (List.mem_append_left _ hother)
      have hlive := hhistory snapshot (by simp)
      rcases ih hprevious with ⟨hnodeId, hholds⟩
      have hmembers : {id | id = nodeId ∨ id ∈ lastLiveNodeIds history} ⊆ ids := by
        rintro id (rfl | hid)
        · exact hself
        · exact lastLiveNodeIds_subset hprevious id hid
      have hwatch : (ClusterManager.new hash nodeId : ClusterManager Client).watch hash
            (history ++ [snapshot]) =
          ((ClusterManager.new hash nodeId : ClusterManager Client).watch hash
            history).membershipTick hash snapshot := by
        simp [ClusterManager.watch]
      have htick := hholds.membershipTick hids hlive hmembers (by rw [hnodeId]; exact .inl rfl)
      have hlast : lastLiveNodeIds (history ++ [snapshot]) = snapshot.liveNodeIds := by
        simp [lastLiveNodeIds]
      rw [hnodeId] at htick
      rw [hwatch, hlast]
      exact ⟨hnodeId, htick⟩

/-- The ring built from empty has the same members. -/
theorem holds_ringOf {ids : Set String} (hids : VnodesDistinct hash ids) {nodeId : String}
    (hself : nodeId ∈ ids) (live : List String) (hlive : ∀ id ∈ live, id ∈ ids) :
    Holds hash (ringOf hash nodeId live) {id | id = nodeId ∨ id ∈ live} := by
  have hall := (holds_self hids hself).foldl_addNode hids (fun _ => True) live hlive
    (by simpa using hself)
  have hset : {nodeId} ∪ {id | id ∈ live ∧ True} = {id | id = nodeId ∨ id ∈ live} := by
    ext id
    simp
  rw [hset] at hall
  simp only [if_true] at hall
  exact hall

/-- After every history of gossip snapshots the ring is the one built from empty out of
the node itself and the last snapshot.  Two nodes whose last snapshots agree, each
together with the node itself, name the same owner for every key. -/
theorem ring_follows_last_snapshot (hash : String → UInt64) (ids : Set String)
    (hids : VnodesDistinct hash ids) (Client : Type) (nodeId : String) (hself : nodeId ∈ ids)
    (history : List Snapshot)
    (hhistory : ∀ snapshot ∈ history, ∀ id ∈ snapshot.liveNodeIds, id ∈ ids) :
    ((ClusterManager.new hash nodeId : ClusterManager Client).watch hash history).ring =
        ringOf hash nodeId (lastLiveNodeIds history) ∧
      ∀ nodeId' ∈ ids, ∀ history' : List Snapshot,
        (∀ snapshot ∈ history', ∀ id ∈ snapshot.liveNodeIds, id ∈ ids) →
        (∀ id, id = nodeId ∨ id ∈ lastLiveNodeIds history ↔
          id = nodeId' ∨ id ∈ lastLiveNodeIds history') →
        ∀ key, ((ClusterManager.new hash nodeId : ClusterManager Client).watch hash
              history).ring.getOwner hash key =
            ((ClusterManager.new hash nodeId' : ClusterManager Client).watch hash
              history').ring.getOwner hash key := by
  have hwatch := (@holds_watch hash Client _ hids _ hself history hhistory).2
  constructor
  · have hring := holds_ringOf hids hself (lastLiveNodeIds history)
      (lastLiveNodeIds_subset hhistory)
    exact hwatch.unique hring
  · intro nodeId' hself' history' hhistory' hsame key
    have hwatch' := (@holds_watch hash Client _ hids _ hself' history' hhistory').2
    have hset : {id | id = nodeId ∨ id ∈ lastLiveNodeIds history} =
        {id | id = nodeId' ∨ id ∈ lastLiveNodeIds history'} := Set.ext hsame
    rw [hset] at hwatch
    rw [hwatch.unique hwatch']

/-- A hash that numbers the vnode keys of the nodes `a` and `b`. -/
def rankHash (key : String) : UInt64 :=
  UInt64.ofNat ((["a", "b"].flatMap fun id => (List.range VNODES_PER_NODE).map (vnodeKey id)).idxOf
    key)

theorem rankHash_vnodesDistinct : VnodesDistinct rankHash {"a", "b"} := by
  have hmem : ∀ id ∈ ({"a", "b"} : Set String), ∀ i < VNODES_PER_NODE, vnodeKey id i ∈
      ["a", "b"].flatMap fun id => (List.range VNODES_PER_NODE).map (vnodeKey id) := by
    intro id hid i hi
    exact List.mem_flatMap.mpr
      ⟨id, by simpa using hid, List.mem_map.mpr ⟨i, List.mem_range.mpr hi, rfl⟩⟩
  have hlength : (["a", "b"].flatMap fun id =>
      (List.range VNODES_PER_NODE).map (vnodeKey id)).length = 300 := by
    simp [VNODES_PER_NODE]
  intro id hid id' hid' i hi j hj heq
  have hlt := List.idxOf_lt_length_of_mem (hmem id hid i hi)
  have hlt' := List.idxOf_lt_length_of_mem (hmem id' hid' j hj)
  have hnat := congrArg UInt64.toNat heq
  rw [rankHash, rankHash, UInt64.toNat_ofNat_of_lt' (by rw [UInt64.size]; omega),
    UInt64.toNat_ofNat_of_lt' (by rw [UInt64.size]; omega)] at hnat
  exact (List.idxOf_inj (hmem id hid i hi)).mp hnat

/-- `a` saw `b` join, leave and join again; `b` saw `a` in its first snapshot. -/
theorem ring_follows_last_snapshot_twoNodes :
    ((ClusterManager.new rankHash "a" : ClusterManager Unit).watch rankHash
        [⟨["b"], ∅⟩, ⟨[], ∅⟩, ⟨["b", "a", "b"], ∅⟩]).ring.getOwner rankHash =
      ((ClusterManager.new rankHash "b" : ClusterManager Unit).watch rankHash
        [⟨["a"], ∅⟩]).ring.getOwner rankHash := by
  funext key
  have hagree := (ring_follows_last_snapshot rankHash {"a", "b"} rankHash_vnodesDistinct Unit "a"
    (by simp) [⟨["b"], ∅⟩, ⟨[], ∅⟩, ⟨["b", "a", "b"], ∅⟩] (by simp)).2
  have hlast : ∀ id, id = "a" ∨ id ∈ lastLiveNodeIds
        [⟨["b"], ∅⟩, ⟨[], ∅⟩, ⟨["b", "a", "b"], ∅⟩] ↔
      id = "b" ∨ id ∈ lastLiveNodeIds [⟨["a"], ∅⟩] := by
    intro id
    simp only [lastLiveNodeIds, List.getLast?_cons_cons, List.getLast?_singleton, Option.map_some,
      Option.getD_some, List.mem_cons, List.not_mem_nil, or_false]
    tauto
  exact hagree "b" (by simp) [⟨["a"], ∅⟩] (by simp) hlast key

end StorageMetadata
end ObjectStore
