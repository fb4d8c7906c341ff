import ObjectStore.StorageMetadata.Registry
import ObjectStore.StorageMetadata.Restart
import ObjectStore.System.OnDisk

/-!
# System - Storage nodes come and come back

A storage node that starts registers its address under a fresh id and opens its file: a new
one, or the one that it has left, from which it recovers its index.  Between requests and
cycles storage nodes may start and restart, and clients still see a map.

Main definitions:

- `Opens`, `Starts`: a storage node starts.
- `DiskEvents`: requests, cycles and starts.
- `StoredOnDisk`: what the chunk stores and the records make up.

Main results:

- Theorem `Starts.stored`: a start keeps the contents.
- Theorem `disk_store_refines_map`: every run is a run of the map.
- Theorem `disk_get_iff_last_put`: a download delivers what was uploaded last.
-/

namespace ObjectStore
namespace System

open ApiGateway (Download Library Replica StatusCode plainEnvironment plainLibrary
  plainLibrary_lawful oneNode validateObjectName)
open Deployment (Call Choice Environment Services)
open Library (ByteFile Lts Simulation)
open Library.KeyValue (Event)
open StorageMetadata (MetaStorageNode MetadataStore StorageMetadataImpl)
open StorageNode (BoundedMap ChunkStore ChunkStoreOptions Disk slotCount)

variable {env : Environment} {lib : Library} {debug : StatusCode × String → String}
  {crc32 : Bytes → UInt32} {d d' : DiskServices} {s s' : Services}
  {map : String → Option Bytes} {address : String}

/-! ## Starts -/

/-- The chunk store of a storage node that starts.  The number of slots is not decreased. -/
inductive Opens (crc32 : Bytes → UInt32) : Option ChunkStore → ChunkStore → Prop where
  | created {disk : Disk} {allocatedSlots : Option Nat} {options : ChunkStoreOptions}
      {store : ChunkStore} (hreliable : disk.Reliable) (hempty : disk.file = ByteFile.empty)
      (hopen : ChunkStore.construct crc32 disk false allocatedSlots options =
        .returned (.ok store)) : Opens crc32 none store
  | reopened {left store : ChunkStore} {allocatedSlots : Option Nat}
      {options : ChunkStoreOptions} (hslots : left.totalSlots ≤ slotCount allocatedSlots)
      (hopen : ChunkStore.construct crc32 left.file true allocatedSlots options =
        .returned (.ok store)) : Opens crc32 (some left) store

/-- A storage node starts: it registers, and opens its chunk store. -/
inductive Starts (env : Environment) : DiskServices → String → DiskServices → Prop where
  | intro {d : DiskServices} {address : String} {draws : List UInt64} {id : UInt64}
      {metadata : StorageMetadataImpl} {store : ChunkStore}
      (hregister : d.metadata.putStorageNode env.lib draws address = some (.ok id, metadata))
      (hopens : Opens env.crc32 d.stores[address]? store) :
      Starts env d address
        { d with metadata := metadata, stores := d.stores.insert address store }

/-- A file that could be opened is not too large. -/
theorem le_maxFileLen_of_reopened {disk : Disk} {allocatedSlots : Option Nat}
    {options : ChunkStoreOptions} {store : ChunkStore}
    (h : ChunkStore.construct crc32 disk true allocatedSlots options = .returned (.ok store)) :
    StorageNode.SLOT_SIZE * slotCount allocatedSlots ≤ StorageNode.maxFileLen := by
  unfold ChunkStore.construct at h
  split at h
  · rename_i opened disk' hopen
    exact StorageNode.le_maxFileLen_of_openFile hopen
  · cases h
  · cases h

/-- The new chunk store holds what the old one held. -/
theorem Opens.represents {found : Option ChunkStore} {store : ChunkStore}
    {node : Option BoundedMap} (h : Opens crc32 found store)
    (hfound : Option.Rel (StorageNode.Represents crc32) found node) :
    ∃ node', StorageNode.Represents crc32 store node' ∧
      ∀ id : UInt64, node'.live[id]? = node.bind fun node => node.live[id]? := by
  cases h with
  | @created disk allocatedSlots options store hreliable hempty hopen =>
      cases hfound
      have hslots := StorageNode.le_maxFileLen_of_construct hopen
      rcases StorageNode.represents_construct hreliable hempty hslots options with
        ⟨store', hopen', hrepresents⟩
      cases hopen.symm.trans hopen'
      exact ⟨_, hrepresents, by simp [BoundedMap.empty]⟩
  | @reopened left store allocatedSlots options hslots hopen =>
      cases hfound with
      | @some _ node hrepresents =>
          rw [hrepresents.totalSlots] at hslots
          rcases hrepresents.restart hslots (le_maxFileLen_of_reopened hopen) options with
            ⟨store', hopen', hgrown⟩
          cases hopen.symm.trans hopen'
          exact ⟨_, hgrown, fun id => rfl⟩

/-- A storage node has come, with the data that was at its address. -/
structure Joined (s : Services) (address : String) (s' : Services) : Prop where
  objects : s'.metadata.metadataStore.objects = s.metadata.metadataStore.objects
  chunks : s'.metadata.metadataStore.chunks = s.metadata.metadataStore.chunks
  registry : ∃ id, id ∉ s.metadata.metadataStore.storageNodes ∧
    s'.metadata.metadataStore.storageNodes =
      s.metadata.metadataStore.storageNodes.insert id ⟨id, address⟩
  reachable : ∀ other : String, other ∈ s.nodes ∨ other = address → other ∈ s'.nodes
  data : ∀ (other : String) (id : UInt64), s'.dataAt other id = s.dataAt other id

/-- Over maps, a storage node that starts has come. -/
theorem OnDisk.starts (h : OnDisk env.crc32 d s) (hstarts : Starts env d address d') :
    ∃ s', OnDisk env.crc32 d' s' ∧ Joined s address s' := by
  cases hstarts with
  | @intro draws id metadata store hregister hopens =>
      rcases hopens.represents (h.stores address) with ⟨node, hrepresents, hlive⟩
      refine ⟨_, h.insert hrepresents metadata, ?_⟩
      rw [h.metadata] at hregister
      have hmaps := StorageMetadata.putStorageNode_maps hregister
      rcases StorageMetadata.StableCluster.putStorageNode_eq_some env.lib hregister with
        ⟨id', hid, hresult⟩
      constructor
      · exact congrArg (·.objects) hmaps
      · exact congrArg (·.chunks) hmaps
      · split at hresult
        · have hfresh := StorageMetadata.generateUniqueId_fresh hid
          exact ⟨id', by simpa [HashMap.mem_iff_exists_getElem?] using hfresh, hresult.2⟩
        · rcases hresult.1 with ⟨status, hstatus⟩
          cases hstatus
      · intro other hother
        by_cases heq : other = address
        · subst heq
          exact HashMap.mem_iff_exists_getElem?.mpr ⟨node, by simp⟩
        · rcases HashMap.mem_iff_exists_getElem?.mp (hother.resolve_right heq) with ⟨held, hheld⟩
          refine HashMap.mem_iff_exists_getElem?.mpr ⟨held, ?_⟩
          rw [HashMap.getElem?_insert_of_ne _ _ heq]
          exact hheld
      · intro other id
        by_cases heq : other = address
        · subst heq
          simp [Services.dataAt, hlive]
        · simp only [Services.dataAt, HashMap.getElem?_insert_of_ne _ _ heq]

/-! ## The contents stay -/

theorem Joined.replica_iff (h : Joined s address s') {pieces : UInt64 → Bytes}
    (htidy : Tidy crc32 [] pieces s) (id : UInt64) (other : String) :
    Replica s' id other ↔ Replica s id other := by
  rcases h.registry with ⟨newId, hnew, hregistry⟩
  rw [System.replica_iff, System.replica_iff, h.chunks, hregistry]
  have hold : ∀ (chunk : StorageMetadata.MetaChunk) (nodeId : UInt64),
      s.metadata.metadataStore.chunks[id]? = some chunk → nodeId ∈ chunk.storageNodes →
        nodeId ≠ newId := by
    rintro chunk nodeId hchunk hmem rfl
    exact hnew ((htidy.catalogued.placed id chunk hchunk).registered nodeId hmem)
  constructor
  · rintro ⟨chunk, nodeId, node, hchunk, hmem, hnode, haddress⟩
    rw [HashMap.getElem?_insert_of_ne _ _ (hold chunk nodeId hchunk hmem)] at hnode
    exact ⟨chunk, nodeId, node, hchunk, hmem, hnode, haddress⟩
  · rintro ⟨chunk, nodeId, node, hchunk, hmem, hnode, haddress⟩
    refine ⟨chunk, nodeId, node, hchunk, hmem, ?_, haddress⟩
    rw [HashMap.getElem?_insert_of_ne _ _ (hold chunk nodeId hchunk hmem)]
    exact hnode

/-- A registration adds a node that no record names. -/
theorem Joined.tidy (h : Joined s address s') {pieces : UInt64 → Bytes}
    (htidy : Tidy crc32 [] pieces s) : Tidy crc32 [] pieces s' := by
  have hreplica := h.replica_iff htidy
  rcases h.registry with ⟨newId, hnew, hregistry⟩
  have hregistered : ∀ nodeId ∈ s.metadata.metadataStore.storageNodes,
      nodeId ∈ s'.metadata.metadataStore.storageNodes := by
    intro nodeId hmem
    rw [hregistry]
    exact Std.ExtTreeMap.mem_insert.mpr (.inr hmem)
  have hcatalogued := htidy.catalogued
  constructor
  · constructor
    · rw [hregistry]
      exact hcatalogued.keyed.insert newId address
    · rw [h.objects]
      exact hcatalogued.named
    · rw [h.objects, h.chunks]
      exact hcatalogued.listed
    · rw [h.objects]
      exact hcatalogued.nodup
    · intro id chunk hchunk
      rw [h.chunks] at hchunk
      have hplaced := hcatalogued.placed id chunk hchunk
      refine ⟨hplaced.key, hplaced.confirmed, ?_, hplaced.replicated, hplaced.distinct, ?_⟩
      · rw [h.objects]
        exact hplaced.owner
      · exact fun nodeId hmem => hregistered nodeId (hplaced.registered nodeId hmem)
  · intro hnil
    have hmem : (⟨newId, address⟩ : MetaStorageNode) ∈
        s'.metadata.metadataStore.storageNodes.valueList := by
      rw [hregistry]
      exact HashMap.mem_valueList.mpr ⟨newId, by simp⟩
    rw [hnil] at hmem
    exact absurd hmem List.not_mem_nil
  · intro node hnode
    rw [hregistry] at hnode
    rcases HashMap.mem_valueList.mp hnode with ⟨nodeId, hnodeId⟩
    by_cases heq : nodeId = newId
    · subst heq
      obtain rfl := HashMap.getElem?_insert_same _ hnodeId
      exact h.reachable _ (.inr rfl)
    · rw [HashMap.getElem?_insert_of_ne _ _ heq] at hnodeId
      exact h.reachable _ (.inl (htidy.node_reachable hnodeId))
  · intro id other hid hheld
    rw [h.data]
    exact htidy.held id other hid ((hreplica id other).mp hheld)
  · intro id other bytes hbytes
    rw [h.data] at hbytes
    rcases htidy.owned id other bytes hbytes with ⟨hid, hheld⟩
    exact ⟨hid, (hreplica id other).mpr hheld⟩
  · rw [h.chunks]
    exact htidy.whole

/-- A registration does not show in the map. -/
theorem Joined.represents (h : Joined s address s') (hmap : Represents crc32 s map) :
    Represents crc32 s' map := by
  rcases hmap with ⟨pieces, htidy, rfl⟩
  refine ⟨pieces, h.tidy htidy, ?_⟩
  funext name
  simp only [contents, h.objects]

/-! ## Requests, cycles and starts -/

/-- What the chunk stores and the records make up. -/
def StoredOnDisk (env : Environment) (lib : Library) (d : DiskServices)
    (map : String → Option Bytes) : Prop :=
  ∃ s, OnDisk env.crc32 d s ∧ Represents lib.crc32 s map

/-- Every call is answered, and no storage node is too full for a write. -/
def RoomyDiskStep (env : Environment) : Library.Step DiskServices Call Call.Reply :=
  fun d call reply d' => DiskStep env .none d call reply d' ∧ outOfRoom call reply = false

/-- An exchange, or the start of a storage node. -/
inductive DiskEvent where
  | exchange (exchange : Exchange)
  | started (address : String)

/-- One event. -/
inductive DiskEvents (env : Environment) (lib : Library) (debug : StatusCode × String → String) :
    Lts DiskServices DiskEvent where
  | exchange {d d' : DiskServices} {exchange : Exchange}
      (hexchange :
        ExchangesOver (RoomyDiskStep env) DiskServices.metadata lib debug d exchange d') :
      DiskEvents env lib debug d (.exchange exchange) d'
  | started {d d' : DiskServices} {address : String} (hstarts : Starts env d address d') :
      DiskEvents env lib debug d (.started address) d'

/-- What clients are told; they do not see starts. -/
inductive DiskShows (lib : Library) : DiskEvent → Event String Bytes → Prop where
  | exchange {exchange : Exchange} {event : Event String Bytes}
      (hshows : Shows lib exchange event) :
      DiskShows lib (.exchange exchange) event
  | started {address : String} : DiskShows lib (.started address) .idle

/-- What the stores serve with room, the maps serve. -/
theorem roomyDiskStep_simulates (env : Environment) :
    fitting.Simulates (RoomyDiskStep env) (RoomyStep (slotted env)) (OnDisk env.crc32) := by
  intro d s call reply d' h hfits hstep
  rcases diskStep_simulates env .none d s call reply d' h hfits hstep.1 with
    ⟨hsends, s', hs', hnext⟩
  exact ⟨hsends, s', ⟨hs', hstep.2⟩, hnext⟩

/-- Over layers that answer alike, the same exchanges are possible. -/
theorem ExchangesOver.of_simulates {σ τ : Type} {lower : Library.Step τ Call Call.Reply}
    {upper : Library.Step σ Call Call.Reply} {rel : τ → σ → Prop}
    {below : τ → StorageMetadataImpl} {above : σ → StorageMetadataImpl}
    (h : fitting.Simulates lower upper rel) (hmetadata : ∀ t s, rel t s → below t = above s)
    {t t' : τ} {s : σ} {exchange : Exchange} (hrel : rel t s)
    (hexchange : ExchangesOver lower below lib debug t exchange t') :
    ∃ s', ExchangesOver upper above lib debug s exchange s' ∧ rel t' s' := by
  cases hexchange with
  | put hbody hrun =>
      rcases h.runs (upload_fits _ lib _) hrel hrun with ⟨s', hrun', hrel'⟩
      exact ⟨s', .put hbody hrun', hrel'⟩
  | get hrun =>
      rcases h.runs (download_fits lib _ _) hrel hrun with ⟨s', hrun', hrel'⟩
      exact ⟨s', .get hrun', hrel'⟩
  | list hlisted hrun =>
      rw [hmetadata t s hrel] at hlisted
      rcases h.runs (listing_fits lib debug _) hrel hrun with ⟨s', hrun', hrel'⟩
      exact ⟨s', .list hlisted hrun', hrel'⟩
  | delete hrun =>
      rcases h.runs (deletion_fits lib _) hrel hrun with ⟨s', hrun', hrel'⟩
      exact ⟨s', .delete hrun', hrel'⟩
  | cycle hrun =>
      rcases h.runs (cycle_fits lib.crc32 _) hrel hrun with ⟨s', hrun', hrel'⟩
      exact ⟨s', .cycle hrun', hrel'⟩

/-- Every event is a step of the map. -/
theorem diskEvents_simulate (env : Environment) (lib : Library)
    (debug : StatusCode × String → String) :
    Simulation (DiskEvents env lib debug) Library.KeyValue.steps (StoredOnDisk env lib)
      (DiskShows lib) := by
  rintro d map event d' ⟨s, hdisk, hmap⟩ hevent
  cases hevent with
  | exchange hexchange =>
      have hmetadata : ∀ d s, OnDisk env.crc32 d s → d.metadata = s.metadata :=
        fun _ _ h => h.metadata
      rcases ExchangesOver.of_simulates (roomyDiskStep_simulates env) hmetadata hdisk hexchange with
        ⟨s', hexchange', hdisk'⟩
      rcases exchanges_simulate (slotted env) lib debug s map _ s' hmap hexchange' with
        ⟨shown, map', hshows, hstep, hmap'⟩
      exact ⟨shown, map', .exchange hshows, hstep, s', hdisk', hmap'⟩
  | started hstarts =>
      rcases hdisk.starts hstarts with ⟨s', hdisk', hjoined⟩
      exact ⟨.idle, map, .started, ⟨trivial, rfl⟩, s', hdisk', hjoined.represents hmap⟩

/-- Every run over chunk stores on disk is a run of the map. -/
theorem disk_store_refines_map (env : Environment) (lib : Library)
    (debug : StatusCode × String → String) (d d' : DiskServices) (map : String → Option Bytes)
    (events : List DiskEvent) (h : StoredOnDisk env lib d map)
    (htrace : (DiskEvents env lib debug).Trace d events d') :
    ∃ shown map', List.Forall₂ (DiskShows lib) events shown ∧
      Library.KeyValue.steps.Trace map shown map' ∧ StoredOnDisk env lib d' map' :=
  (diskEvents_simulate env lib debug).trace h htrace

/-! ## What clients can rely on -/

/-- The exchanges among the events. -/
def exchangesOf (events : List DiskEvent) : List Exchange :=
  events.filterMap fun
    | .exchange exchange => some exchange
    | .started _ => none

/-- Restarts show nothing, so the last upload is the same. -/
theorem last_iff_lastPut_onDisk {name : String} {bytes : Bytes} {events : List DiskEvent}
    {shown : List (Event String Bytes)} (h : List.Forall₂ (DiskShows lib) events shown) :
    Library.KeyValue.Last shown name bytes ↔ LastPut lib (exchangesOf events) name bytes := by
  rw [LastPut, exchangesOf, Library.since_filterMap_iff]
  symm
  apply Library.since_congr h
  · intro event shown hshows
    cases hshows with
    | exchange hshows => simpa using shows_created_iff hshows
    | started => simp
  · intro event shown hshows
    cases hshows with
    | exchange hshows => simpa using shows_removed_iff hshows
    | started => simp

/-- A download delivers what was uploaded last, however often storage nodes have been restarted,
and finds nothing if that was deleted. -/
theorem disk_get_iff_last_put (env : Environment) (lib : Library)
    (debug : StatusCode × String → String) (hlib : lib.Lawful) (d d' d'' : DiskServices)
    (s : Services) (hdisk : OnDisk env.crc32 d s) (hfresh : Fresh s) (events : List DiskEvent)
    (htrace : (DiskEvents env lib debug).Trace d events d') (download : Download) (name : String)
    (hvalid : validateObjectName lib name = .ok ()) (response : download.Response)
    (hget : DiskEvents env lib debug d' (.exchange (.get download name response)) d'') :
    (∀ bytes, download.Delivers lib bytes response ↔
      LastPut lib (exchangesOf events) name bytes) ∧
    ((∃ msg, response = Download.failure (.notFound, msg) download) ↔
      ∀ bytes, ¬ LastPut lib (exchangesOf events) name bytes) := by
  have hstart : StoredOnDisk env lib d fun _ => none := ⟨s, hdisk, hfresh.represents⟩
  rcases disk_store_refines_map env lib debug d d' _ events hstart htrace with
    ⟨shown, map, hshows, hshown, hstored⟩
  rcases diskEvents_simulate env lib debug d' map _ d'' hstored hget with
    ⟨event, map', hevent, hstep, _⟩
  simp only [← last_iff_lastPut_onDisk hshows]
  cases hevent with
  | exchange hresponse => exact get_shown_iff hlib hvalid hshown hresponse hstep

/-! ## A restart between an upload and a download -/

/-- A storage node can be restarted with the slots that it has. -/
theorem OnDisk.exists_starts (h : OnDisk env.crc32 d s) {node : BoundedMap}
    (hnode : s.nodes[address]? = some node)
    (hfits : StorageNode.SLOT_SIZE * node.capacity ≤ StorageNode.maxFileLen)
    {draws : List UInt64} {id : UInt64} {metadata : StorageMetadataImpl}
    (hregister : s.metadata.putStorageNode env.lib draws address = some (.ok id, metadata)) :
    ∃ d', Starts env d address d' := by
  have hstore := h.stores address
  rw [hnode] at hstore
  rw [← h.metadata] at hregister
  cases hfound : d.stores[address]? with
  | none =>
      rw [hfound] at hstore
      cases hstore
  | some left =>
      rw [hfound] at hstore
      cases hstore with
      | some hrepresents =>
          have hslots : slotCount (some node.capacity) = node.capacity := rfl
          rcases hrepresents.restart (Nat.le_of_eq hslots.symm) hfits ChunkStoreOptions.default with
            ⟨store, hopen, _⟩
          have hopens : Opens env.crc32 d.stores[address]? store := by
            rw [hfound]
            exact .reopened (Nat.le_of_eq (hrepresents.totalSlots.trans hslots.symm)) hopen
          exact ⟨_, .intro hregister hopens⟩

/-- What the maps serve with room, the stores serve. -/
theorem roomyStep_simulates (env : Environment) :
    fitting.Simulates (RoomyStep (slotted env)) (RoomyDiskStep env)
      fun s d => OnDisk env.crc32 d s := by
  intro s d call reply s' h hfits hstep
  rcases step_simulates env .none s d call reply s' h hfits hstep.1 with
    ⟨hsends, d', hd', hnext⟩
  exact ⟨hsends, d', ⟨hd', hstep.2⟩, hnext⟩

/-- A read is answered in every state. -/
theorem looks_roomy {call : Call} (h : ApiGateway.Looks call) (s : Services) :
    ∃ reply s', RoomyStep env s call reply s' := by
  rcases ApiGateway.Looks.answered h s with ⟨reply, s', hstep⟩
  refine ⟨reply, s', hstep, ?_⟩
  cases call with
  | storageNode address call => cases call <;> first | exact h.elim | rfl
  | _ => rfl

/-- One byte is uploaded, the storage node is restarted, and the byte is downloaded again. -/
theorem disk_get_iff_last_put_oneNode :
    ∃ (d d' d'' : DiskServices) (put : ApiGateway.HttpResult ApiGateway.PutObjectResponsePayload)
      (response : Download.json.Response),
      (DiskEvents plainEnvironment plainLibrary (·.2)).Trace d
        [.exchange (.put (.json "aA==") "a" put), .started "http://node-a:50051"] d' ∧
      DiskEvents plainEnvironment plainLibrary (·.2) d'
        (.exchange (.get .json "a" response)) d'' ∧
      Download.json.Delivers plainLibrary [104] response := by
  have hrun : ((ApiGateway.handlePutObject plainLibrary "a" "aA==").replay
      (roomyNext plainEnvironment)
      [.plain, .plain, .plain, .plain, ⟨.completes, [10], 0, ""⟩, .plain, .plain, .plain, .plain]
      oneNode).any (fun (put, s') => put.isOk &&
        (s'.nodes["http://node-a:50051"]?).any (fun node => decide (node.capacity = 4)) &&
        (s'.metadata.putStorageNode plainEnvironment.lib [2] "http://node-a:50051").any
          fun (answer, _) => answer.isOk) = true := by
    decide +kernel
  rcases (Option.any_eq_true _ _).mp hrun with ⟨⟨put, s₁⟩, hput, hchecks⟩
  simp only [Bool.and_eq_true, Option.any_eq_true] at hchecks
  rcases hchecks with ⟨⟨hok, node, hnode, hcapacity⟩, ⟨answer, metadata⟩, hregister, hanswer⟩
  rcases exists_oneNode_onDisk with ⟨d, hdisk⟩
  have hmetadata : ∀ s d, OnDisk plainEnvironment.crc32 d s → s.metadata = d.metadata :=
    fun _ _ h => h.metadata.symm
  -- the upload
  have hputs : Exchanges plainEnvironment plainLibrary (·.2) oneNode
      (.put (.json "aA==") "a" put) s₁ :=
    .put (.inl ⟨_, rfl⟩) (Library.Program.runs_of_replay roomyNext_step hput)
  rcases ExchangesOver.of_simulates
    (roomyStep_simulates plainEnvironment) hmetadata hdisk hputs with
    ⟨d₁, hputs₁, hdisk₁⟩
  -- the restart
  change Except Status UInt64 at answer
  cases answer with
  | error status => cases hanswer
  | ok id =>
      have hfits : StorageNode.SLOT_SIZE * node.capacity ≤ StorageNode.maxFileLen := by
        rw [of_decide_eq_true hcapacity]
        decide
      rcases hdisk₁.exists_starts hnode hfits hregister with ⟨d₂, hstarts⟩
      rcases hdisk₁.starts hstarts with ⟨s₂, hdisk₂, _⟩
      -- the download
      rcases Library.Program.exists_runs
        (ApiGateway.Download.handler_looks plainLibrary "a" .json)
        (fun s call hcall => looks_roomy hcall s) s₂ with ⟨response, s₃, hget⟩
      have hgets : Exchanges plainEnvironment plainLibrary (·.2) s₂ (.get .json "a" response) s₃ :=
        .get hget
      rcases ExchangesOver.of_simulates
        (roomyStep_simulates plainEnvironment) hmetadata hdisk₂ hgets
        with ⟨d₃, hgets₃, _⟩
      have htrace : (DiskEvents plainEnvironment plainLibrary (·.2)).Trace d
          [.exchange (.put (.json "aA==") "a" put), .started "http://node-a:50051"] d₂ :=
        .cons (.exchange hputs₁) (.cons (.started hstarts) (.nil d₂))
      have hvalid : validateObjectName plainLibrary "a" = .ok () := by decide +kernel
      have hboth := disk_get_iff_last_put plainEnvironment plainLibrary (·.2) plainLibrary_lawful d
        d₂ d₃ oneNode hdisk oneNode_fresh _ htrace .json "a" hvalid response (.exchange hgets₃)
      refine ⟨d, d₂, d₃, put, response, htrace, .exchange hgets₃, (hboth.1 [104]).mpr ?_⟩
      cases put with
      | error error => cases hok
      | ok payload =>
          exact ⟨[], _, [], rfl, ⟨_, payload, rfl, by decide +kernel⟩, by simp⟩

end System
end ObjectStore
