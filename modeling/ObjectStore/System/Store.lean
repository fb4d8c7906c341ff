import ObjectStore.ApiGateway.Deletion
import ObjectStore.System.Cycles
import ObjectStore.System.Deletions
import ObjectStore.System.Listings
import ObjectStore.System.Uploads

/-!
# System - The object store is a map

Requests of clients and cycles of the replication service, one after the other and with no
call failing, show their clients a map from names to bytes.  Chunks, replicas and cycles are
not seen.

Main definitions:

- `Exchange`: a request with its response.
- `ExchangesOver`, `Exchanges`: the steps of the whole deployment.
- `Shows`: what a response tells the client about the map.

Main results:

- Theorem `exchanges_simulate`: every exchange is a step of the map.
- Theorem `store_refines_map`: every run of the deployment is a run of the map.
- Theorem `get_iff_last_put`: a download delivers what was uploaded last.
- Theorem `data_iff_replica`: the storage nodes hold what is recorded, and nothing else.
-/

namespace ObjectStore
namespace System

open ApiGateway (DeleteObjectResponsePayload Download HttpResult Library ListObjectsResponsePayload
  MAX_OBJECT_SIZE PutObjectResponsePayload Replica StatusCode Upload handleDeleteObject
  handleGetObject handleListObjects handlePutObject oneNode plainEnvironment plainLibrary
  plainLibrary_lawful validateObjectName)
open Deployment (Call Environment SameServices Services)
open Library (Lts Simulation)
open Library.KeyValue (Event)
open ReplicationService (CycleReport Needy listingOf replicateChunk runReplicationCycle)
open StorageMetadata (StorageMetadataImpl)

variable {env : Environment} {lib : Library} {debug : StatusCode × String → String}
  {crc32 : Bytes → UInt32} {s s' : Services} {map : String → Option Bytes} {name : String}
  {upload : Upload} {download : Download} {bytes : Bytes}

/-! ## Exchanges -/

/-- A request, or a cycle of the replication service, with what comes of it. -/
inductive Exchange where
  | put (upload : Upload) (name : String) (response : HttpResult PutObjectResponsePayload)
  | get (download : Download) (name : String) (response : download.Response)
  | list (response : HttpResult (List ListObjectsResponsePayload))
  | delete (name : String) (response : HttpResult DeleteObjectResponsePayload)
  | cycle (maxChunksPerCycle : Nat) (result : Except String CycleReport)

/-- The request carries bytes that are not too many. -/
def Complete (lib : Library) (upload : Upload) : Prop :=
  ∃ body, upload.body lib = some body ∧ body.length ≤ MAX_OBJECT_SIZE

/-- One exchange, from its first call to its last, over services that answer by `step`.  A
multipart body that breaks off is noticed after its first chunks have been stored, and is left
out. -/
inductive ExchangesOver {σ : Type} (step : Library.Step σ Call Call.Reply)
    (metadata : σ → StorageMetadataImpl) (lib : Library) (debug : StatusCode × String → String) :
    Lts σ Exchange where
  | put {s s' : σ} {upload : Upload} {name : String}
      {response : HttpResult PutObjectResponsePayload}
      (hbody : (∃ payload, upload = .json payload) ∨ Complete lib upload)
      (hrun : (upload.handler lib name).Runs step s response s') :
      ExchangesOver step metadata lib debug s (.put upload name response) s'
  | get {s s' : σ} {download : Download} {name : String} {response : download.Response}
      (hrun : (download.handler lib name).Runs step s response s') :
      ExchangesOver step metadata lib debug s (.get download name response) s'
  | list {s s' : σ} {objects : List StorageMetadata.Proto.MetaObject}
      {response : HttpResult (List ListObjectsResponsePayload)}
      (hlisted : objects.Perm (metadata s).listObjects)
      (hrun : (handleListObjects lib debug (.ok objects)).Runs step s response s') :
      ExchangesOver step metadata lib debug s (.list response) s'
  | delete {s s' : σ} {name : String} {response : HttpResult DeleteObjectResponsePayload}
      (hrun : (handleDeleteObject lib name).Runs step s response s') :
      ExchangesOver step metadata lib debug s (.delete name response) s'
  | cycle {s s' : σ} {maxChunksPerCycle : Nat} {result : Except String CycleReport}
      (hrun : (runReplicationCycle lib.crc32 maxChunksPerCycle).Runs step s result s') :
      ExchangesOver step metadata lib debug s (.cycle maxChunksPerCycle result) s'

/-- Exchanges with storage nodes that have room, with no call failing. -/
abbrev Exchanges (env : Environment) (lib : Library) (debug : StatusCode × String → String) :
    Lts Services Exchange :=
  ExchangesOver (RoomyStep env) Services.metadata lib debug

/-- What the client is told.  Requests that are not well formed say nothing about the map. -/
inductive Shows (lib : Library) : Exchange → Event String Bytes → Prop where
  | created {upload : Upload} {name : String} {body : Bytes} (hbody : upload.body lib = some body) :
      Shows lib (.put upload name (.ok ⟨"upload complete", body.length⟩)) (.created name body)
  | conflict {upload : Upload} {name : String} :
      Shows lib (.put upload name (.error (.conflict, "object name already used"))) (.conflict name)
  | putRejected {upload : Upload} {name msg : String} {code : StatusCode}
      (hcode : code = .badRequest ∨ code = .payloadTooLarge)
      (hinvalid : validateObjectName lib name ≠ .ok () ∨ ¬ Complete lib upload) :
      Shows lib (.put upload name (.error (code, msg))) .idle
  | found {download : Download} {name : String} {bytes : Bytes} {response : download.Response}
      (hdelivers : download.Delivers lib bytes response) :
      Shows lib (.get download name response) (.found name bytes)
  | missing {download : Download} {name msg : String} :
      Shows lib (.get download name (Download.failure (.notFound, msg) download)) (.missing name)
  | getRejected {download : Download} {name msg : String}
      (hinvalid : validateObjectName lib name ≠ .ok ()) :
      Shows lib (.get download name (Download.failure (.badRequest, msg) download)) .idle
  | listed {payloads : List ListObjectsResponsePayload} {entries : List (String × Bytes)}
      (hentries : List.Forall₂ (ShowsEntry lib) entries payloads) :
      Shows lib (.list (.ok payloads)) (.listed entries)
  | removed {name : String} : Shows lib (.delete name (.ok ⟨"object deleted"⟩)) (.removed name)
  | nothing {name msg : String} : Shows lib (.delete name (.error (.notFound, msg))) (.missing name)
  | deleteRejected {name msg : String} (hinvalid : validateObjectName lib name ≠ .ok ()) :
      Shows lib (.delete name (.error (.badRequest, msg))) .idle
  | cycled {maxChunksPerCycle : Nat} {result : Except String CycleReport} :
      Shows lib (.cycle maxChunksPerCycle result) .idle

/-! ## One exchange -/

/-- The exchange is a step of the map. -/
def Refines (lib : Library) (map : String → Option Bytes) (exchange : Exchange) (s' : Services) :
    Prop :=
  ∃ event map', Shows lib exchange event ∧ Library.KeyValue.steps map event map' ∧
    Represents lib.crc32 s' map'

/-- A request that is refused at once. -/
theorem Refines.idle {exchange : Exchange} (h : Represents lib.crc32 s' map)
    (hshows : Shows lib exchange .idle) : Refines lib map exchange s' :=
  ⟨.idle, map, hshows, ⟨trivial, rfl⟩, h⟩

/-- What a well-formed upload shows. -/
theorem Stores.refines {body : Bytes} {response : HttpResult PutObjectResponsePayload}
    (hbody : upload.body lib = some body) (h : Stores lib.crc32 name body map response s') :
    Refines lib map (.put upload name response) s' := by
  unfold Stores at h
  split at h
  · rename_i hnone
    rcases h with ⟨rfl, hafter⟩
    exact ⟨.created name body, _, .created hbody, ⟨hnone, rfl⟩, hafter⟩
  · rename_i found hfound
    rcases h with ⟨rfl, hafter⟩
    refine ⟨.conflict name, map, .conflict, ⟨?_, rfl⟩, hafter⟩
    simp [Event.Allowed, hfound]

/-- An upload creates what it carries, unless the name is in use. -/
theorem put_refines {response : HttpResult PutObjectResponsePayload}
    (h : Represents lib.crc32 s map)
    (hbody : (∃ payload, upload = .json payload) ∨ Complete lib upload)
    (hrun : (upload.handler lib name).Runs (RoomyStep env) s response s') :
    Refines lib map (.put upload name response) s' := by
  cases hvalid : validateObjectName lib name with
  | error msg =>
      have hinvalid : validateObjectName lib name ≠ .ok () := by simp [hvalid]
      have hrefused : upload.handler lib name = .done (.error (.badRequest, msg)) := by
        cases upload with
        | json payload => simp [Upload.handler, ApiGateway.handlePutObject, hvalid]
        | multipart fields => simp [Upload.handler, ApiGateway.handlePutObjectMultipart, hvalid]
      rw [hrefused] at hrun
      cases hrun
      exact .idle h (.putRejected (.inl rfl) (.inl hinvalid))
  | ok value =>
      by_cases hcomplete : Complete lib upload
      · rcases hcomplete with ⟨body, hbody, hsize⟩
        exact (hrun.ensures (upload_stores upload lib hvalid hbody hsize h)).refines hbody
      · rcases hbody.resolve_right hcomplete with ⟨payload, rfl⟩
        change (ApiGateway.handlePutObject lib name payload).Runs _ _ _ _ at hrun
        unfold ApiGateway.handlePutObject at hrun
        rw [hvalid] at hrun
        cases hdecoded : lib.decode payload with
        | error err =>
            rw [hdecoded] at hrun
            cases hrun
            exact .idle h (.putRejected (.inl rfl) (.inr hcomplete))
        | ok decoded =>
            have hlong : MAX_OBJECT_SIZE < decoded.length := by
              by_contra hshort
              exact hcomplete ⟨decoded, by simp [Upload.body, hdecoded], by omega⟩
            rw [hdecoded] at hrun
            dsimp only at hrun
            rw [if_pos hlong] at hrun
            cases hrun
            exact .idle h (.putRejected (.inr rfl) (.inr hcomplete))

/-- A download finds what the map has. -/
theorem get_refines {response : download.Response} (h : Represents lib.crc32 s map)
    (hrun : (download.handler lib name).Runs (RoomyStep env) s response s') :
    Refines lib map (.get download name response) s' := by
  cases hvalid : validateObjectName lib name with
  | error msg =>
      have hinvalid : validateObjectName lib name ≠ .ok () := by simp [hvalid]
      rw [Download.handler_eq, hvalid] at hrun
      cases hrun
      exact .idle h (.getRejected hinvalid)
  | ok value =>
      rcases hrun.ensures (download_serves download lib hvalid h) with ⟨hserves, hafter⟩
      unfold Serves at hserves
      split at hserves
      · rename_i bytes hfound
        exact ⟨.found name bytes, map, .found hserves, ⟨hfound, rfl⟩, hafter⟩
      · rename_i hnone
        rcases hserves with ⟨msg, rfl⟩
        exact ⟨.missing name, map, .missing, ⟨hnone, rfl⟩, hafter⟩

/-- A deletion removes what the map has. -/
theorem delete_refines {response : HttpResult DeleteObjectResponsePayload}
    (h : Represents lib.crc32 s map)
    (hrun : (handleDeleteObject lib name).Runs (RoomyStep env) s response s') :
    Refines lib map (.delete name response) s' := by
  cases hvalid : validateObjectName lib name with
  | error msg =>
      have hinvalid : validateObjectName lib name ≠ .ok () := by simp [hvalid]
      unfold handleDeleteObject at hrun
      rw [hvalid] at hrun
      cases hrun
      exact .idle h (.deleteRejected hinvalid)
  | ok value =>
      have hremoves := hrun.ensures (handleDeleteObject_removes lib hvalid h)
      unfold Removes at hremoves
      split at hremoves
      · rename_i found hfound
        rcases hremoves with ⟨rfl, hafter⟩
        refine ⟨.removed name, _, .removed, ⟨?_, rfl⟩, hafter⟩
        simp [Event.Allowed, hfound]
      · rename_i hnone
        rcases hremoves with ⟨⟨msg, rfl⟩, hafter⟩
        exact ⟨.missing name, map, .nothing, ⟨hnone, rfl⟩, hafter⟩

/-- A cycle keeps the contents, whatever it copies. -/
theorem cycle_represents {maxChunksPerCycle : Nat} {result : Except String CycleReport}
    (h : Represents crc32 s map)
    (hrun : (runReplicationCycle crc32 maxChunksPerCycle).Runs (RoomyStep env) s result s') :
    Represents crc32 s' map := by
  rcases h with ⟨pieces, htidy, rfl⟩
  have hturn : ∀ (nodes : List StorageMetadata.Proto.MetaStorageNode) (s : Services)
      (record : StorageMetadata.MetaChunk), Tidy crc32 [] pieces s → Needy s record.id record →
      nodes.Perm s.metadata.listStorageNodes → True →
      (replicateChunk crc32 nodes (listingOf record)).Ensures (RoomyStep env)
        (fun _ s' => Turned crc32 pieces False record s s' ∧ True) s :=
    fun nodes s record htidy hneedy hnodes _ =>
      (replicateChunk_turned crc32 htidy hneedy fun node => hnodes.mem_iff.mp).mono
        fun _ _ hturned => ⟨hturned, trivial⟩
  have hcycle := runReplicationCycle_cycled hturn (fun _ _ _ _ => trivial) htidy trivial
    maxChunksPerCycle
  rcases (hrun.ensures hcycle).1 with ⟨records, _, _, hcycled⟩
  refine ⟨pieces, hcycled.tidy, ?_⟩
  funext name
  simp only [contents, hcycled.objects]

/-- Every exchange is a step of the map. -/
theorem exchanges_simulate (env : Environment) (lib : Library)
    (debug : StatusCode × String → String) :
    Simulation (Exchanges env lib debug) Library.KeyValue.steps (Represents lib.crc32)
      (Shows lib) := by
  intro s map exchange s' h hexchange
  cases hexchange with
  | put hbody hrun => exact put_refines h hbody hrun
  | get hrun => exact get_refines h hrun
  | list hlisted hrun =>
      rcases hrun.ensures (handleListObjects_displays h hlisted) with
        ⟨⟨entries, payloads, rfl, hentries, hshown⟩, rfl⟩
      exact ⟨.listed entries, map, .listed hshown, ⟨hentries, rfl⟩, h⟩
  | delete hrun => exact delete_refines h hrun
  | cycle hrun => exact Refines.idle (cycle_represents h hrun) .cycled

/-! ## Runs -/

/-- Every run of the deployment is a run of the map. -/
theorem store_refines_map (env : Environment) (lib : Library)
    (debug : StatusCode × String → String) (s s' : Services) (map : String → Option Bytes)
    (exchanges : List Exchange) (h : Represents lib.crc32 s map)
    (htrace : (Exchanges env lib debug).Trace s exchanges s') :
    ∃ events map', List.Forall₂ (Shows lib) exchanges events ∧
      Library.KeyValue.steps.Trace map events map' ∧ Represents lib.crc32 s' map' :=
  (exchanges_simulate env lib debug).trace h htrace

/-- A deployment in which nothing has been stored yet. -/
structure Fresh (s : Services) : Prop where
  keyed : StorageMetadata.RegistryKeyed s.metadata.metadataStore.storageNodes
  registered : s.metadata.metadataStore.storageNodes.valueList ≠ []
  reachable : ∀ node ∈ s.metadata.metadataStore.storageNodes.valueList, node.address ∈ s.nodes
  noObjects : s.metadata.metadataStore.objects = ∅
  noChunks : s.metadata.metadataStore.chunks = ∅
  noData : ∀ (address : String) (id : UInt64), s.dataAt address id = none

/-- Nothing stored is the empty map. -/
theorem Fresh.represents (h : Fresh s) : Represents crc32 s fun _ => none := by
  have hcatalogued : Catalogued s.metadata.metadataStore := by
    constructor
    · exact h.keyed
    all_goals
      intro _ _ hrecord
      simp [h.noObjects, h.noChunks] at hrecord
  have htidy : Tidy crc32 [] (fun _ => []) s := by
    constructor
    · exact hcatalogued
    · exact h.registered
    · exact h.reachable
    · intro id address _ hreplica
      rcases replica_iff.mp hreplica with ⟨chunk, _, _, hchunk, _⟩
      simp [h.noChunks] at hchunk
    · intro id address bytes hbytes
      rw [h.noData] at hbytes
      cases hbytes
    · intro id chunk hchunk
      simp [h.noChunks] at hchunk
  exact ⟨fun _ => [], htidy, funext fun name => by simp [contents, h.noObjects]⟩

/-! ## What clients can rely on -/

/-- The bytes have been uploaded under this name, and the name has not been deleted since. -/
def LastPut (lib : Library) (exchanges : List Exchange) (name : String) (bytes : Bytes) : Prop :=
  Library.Since
    (fun exchange => ∃ upload payload, exchange = .put upload name (.ok payload) ∧
      upload.body lib = some bytes)
    (fun exchange => ∃ payload, exchange = .delete name (.ok payload)) exchanges

/-- An upload that succeeds is the creation of its bytes. -/
theorem shows_created_iff {exchange : Exchange} {event : Event String Bytes}
    (hshows : Shows lib exchange event) :
    (∃ upload payload, exchange = .put upload name (.ok payload) ∧
      upload.body lib = some bytes) ↔ event = .created name bytes := by
  constructor
  · rintro ⟨upload, payload, rfl, hbody⟩
    cases hshows with
    | created hfound =>
        cases hfound.symm.trans hbody
        rfl
  · intro hevent
    subst hevent
    cases hshows with
    | created hbody => exact ⟨_, _, rfl, hbody⟩

/-- A deletion that succeeds is the removal of the name. -/
theorem shows_removed_iff {exchange : Exchange} {event : Event String Bytes}
    (hshows : Shows lib exchange event) :
    (∃ payload, exchange = .delete name (.ok payload)) ↔ event = .removed name := by
  constructor
  · rintro ⟨payload, rfl⟩
    cases hshows
    rfl
  · intro hevent
    subst hevent
    cases hshows
    exact ⟨_, rfl⟩

/-- The responses tell which creations and removals the map has seen. -/
theorem last_iff_lastPut {exchanges : List Exchange} {events : List (Event String Bytes)}
    (h : List.Forall₂ (Shows lib) exchanges events) :
    Library.KeyValue.Last events name bytes ↔ LastPut lib exchanges name bytes := by
  symm
  apply Library.since_congr h
  · exact fun _ _ => shows_created_iff
  · exact fun _ _ => shows_removed_iff

theorem Delivers.succeeds {response : download.Response}
    (h : download.Delivers lib bytes response) : download.Succeeds response := by
  cases download with
  | json => exact ⟨_, h⟩
  | stream =>
      rcases h with ⟨body, hbody, herror, _⟩
      exact ⟨body, hbody, herror⟩

/-- What a download tells about the run before it. -/
theorem get_shown_iff (hlib : lib.Lawful) (hvalid : validateObjectName lib name = .ok ())
    {events : List (Event String Bytes)} {map' : String → Option Bytes}
    (htrace : Library.KeyValue.steps.Trace (fun _ => none) events map)
    {response : download.Response} {event : Event String Bytes}
    (hshown : Shows lib (.get download name response) event)
    (hstep : Library.KeyValue.steps map event map') :
    (∀ bytes, download.Delivers lib bytes response ↔ Library.KeyValue.Last events name bytes) ∧
      ((∃ msg, response = Download.failure (.notFound, msg) download) ↔
        ∀ bytes, ¬ Library.KeyValue.Last events name bytes) := by
  simp only [← Library.KeyValue.value_iff_last htrace]
  cases hshown with
  | @found _ _ found _ hdelivers =>
      have hfound : map name = some found := hstep.1
      constructor
      · intro bytes
        rw [hfound, Option.some_inj]
        constructor
        · exact fun h => Download.delivers_inj hlib hdelivers h
        · rintro rfl
          exact hdelivers
      · constructor
        · rintro ⟨msg, rfl⟩
          exact absurd (Delivers.succeeds hdelivers) (Download.not_succeeds_failure _)
        · exact fun h => absurd hfound (h found)
  | @missing _ _ msg =>
      have hnone : map name = none := hstep.1
      constructor
      · intro bytes
        rw [hnone]
        constructor
        · exact fun h => absurd (Delivers.succeeds h) (Download.not_succeeds_failure _)
        · exact nofun
      · refine iff_of_true ⟨msg, rfl⟩ fun bytes => ?_
        simp [hnone]
  | getRejected hinvalid => exact absurd hvalid hinvalid

/-- A download delivers what was uploaded last, and finds nothing if that was deleted. -/
theorem get_iff_last_put (env : Environment) (lib : Library)
    (debug : StatusCode × String → String) (hlib : lib.Lawful) (s s' s'' : Services)
    (hfresh : Fresh s) (exchanges : List Exchange)
    (htrace : (Exchanges env lib debug).Trace s exchanges s') (download : Download)
    (name : String) (hvalid : validateObjectName lib name = .ok ()) (response : download.Response)
    (hget : Exchanges env lib debug s' (.get download name response) s'') :
    (∀ bytes, download.Delivers lib bytes response ↔ LastPut lib exchanges name bytes) ∧
      ((∃ msg, response = Download.failure (.notFound, msg) download) ↔
        ∀ bytes, ¬ LastPut lib exchanges name bytes) := by
  rcases store_refines_map env lib debug s s' _ exchanges hfresh.represents htrace with
    ⟨events, map, hshows, hevents, hrepresents⟩
  rcases exchanges_simulate env lib debug s' map _ s'' hrepresents hget with
    ⟨event, map', hshown, hstep, _⟩
  simp only [← last_iff_lastPut hshows]
  exact get_shown_iff hlib hvalid hevents hshown hstep

/-- After any run, the storage nodes hold the recorded replicas and nothing else; the records
belong to one object each, with the checksum of their data. -/
theorem data_iff_replica (env : Environment) (lib : Library)
    (debug : StatusCode × String → String) (s s' : Services) (hfresh : Fresh s)
    (exchanges : List Exchange) (htrace : (Exchanges env lib debug).Trace s exchanges s') :
    (∀ (address : String) (id : UInt64), (s'.dataAt address id).isSome ↔ Replica s' id address) ∧
      ∀ (id : UInt64) (chunk : StorageMetadata.MetaChunk),
        s'.metadata.metadataStore.chunks[id]? = some chunk →
        chunk.status = .confirmed ∧
        (∃! name : String, ∃ object : StorageMetadata.MetaObject,
          s'.metadata.metadataStore.objects[name]? = some object ∧ id ∈ object.chunks) ∧
        ∀ (address : String) (bytes : Bytes), s'.dataAt address id = some bytes →
          lib.crc32 bytes = chunk.checksum := by
  rcases store_refines_map env lib debug s s' _ exchanges hfresh.represents htrace with
    ⟨_, _, _, _, pieces, htidy, _⟩
  constructor
  · intro address id
    constructor
    · intro hdata
      rcases Option.isSome_iff_exists.mp hdata with ⟨bytes, hbytes⟩
      exact (htidy.owned id address bytes hbytes).2
    · intro hreplica
      rw [htidy.held id address nofun hreplica]
      rfl
  · intro id chunk hchunk
    have hplaced := htidy.catalogued.placed id chunk hchunk
    refine ⟨hplaced.confirmed, ⟨chunk.objectName, hplaced.owner, ?_⟩,
      fun address bytes hbytes => ?_⟩
    · rintro other ⟨object, hobject, hid⟩
      rcases htidy.catalogued.listed other object hobject id hid with ⟨found, hfound, howner⟩
      cases hchunk.symm.trans hfound
      exact howner.symm
    · have hreplica := (htidy.owned id address bytes hbytes).2
      rw [htidy.held id address nofun hreplica] at hbytes
      cases hbytes
      exact (htidy.whole id chunk hchunk).2.symm

/-! ## A run -/

/-- The replies are served as asked; the uploads draw the id 10 for their chunks. -/
def plainChoices : List Deployment.Choice :=
  [.plain, .plain, .plain, .plain, ⟨.completes, [10], 0, ""⟩, .plain, .plain, .plain, .plain]

/-- One byte is uploaded and deleted; another one is uploaded under the same name and
downloaded. -/
theorem oneNode_exchanges :
    ∃ (first : HttpResult PutObjectResponsePayload)
      (deletion : HttpResult DeleteObjectResponsePayload)
      (second : HttpResult PutObjectResponsePayload) (s' : Services)
      (get : Download.json.Response) (s'' : Services),
      (Exchanges plainEnvironment plainLibrary (·.2)).Trace oneNode
        [.put (.json "aA==") "a" first, .delete "a" deletion, .put (.json "aQ==") "a" second] s' ∧
      Exchanges plainEnvironment plainLibrary (·.2) s' (.get .json "a" get) s'' ∧
      Download.json.Delivers plainLibrary [105] get := by
  have hrun : ((handlePutObject plainLibrary "a" "aA==").replay (roomyNext plainEnvironment)
      plainChoices oneNode).any (fun (_, s) => ((handleDeleteObject plainLibrary "a").replay
        (roomyNext plainEnvironment) plainChoices s).any fun (_, s) =>
          ((handlePutObject plainLibrary "a" "aQ==").replay (roomyNext plainEnvironment)
            plainChoices s).any fun (_, s) => ((handleGetObject plainLibrary "a").replay
              (roomyNext plainEnvironment) plainChoices s).any fun (get, _) =>
                decide (get = .ok ⟨plainLibrary.encode [105]⟩)) = true := by
    decide +kernel
  rcases (Option.any_eq_true _ _).mp hrun with ⟨⟨first, s₁⟩, hfirst, hrun⟩
  rcases (Option.any_eq_true _ _).mp hrun with ⟨⟨deletion, s₂⟩, hdeletion, hrun⟩
  rcases (Option.any_eq_true _ _).mp hrun with ⟨⟨second, s₃⟩, hsecond, hrun⟩
  rcases (Option.any_eq_true _ _).mp hrun with ⟨⟨get, s₄⟩, hget, hresponse⟩
  have hputs : Exchanges plainEnvironment plainLibrary (·.2) oneNode
      (.put (.json "aA==") "a" first) s₁ :=
    .put (.inl ⟨_, rfl⟩) (Library.Program.runs_of_replay roomyNext_step hfirst)
  have hdeletes : Exchanges plainEnvironment plainLibrary (·.2) s₁ (.delete "a" deletion) s₂ :=
    .delete (Library.Program.runs_of_replay roomyNext_step hdeletion)
  have hputsAgain : Exchanges plainEnvironment plainLibrary (·.2) s₂
      (.put (.json "aQ==") "a" second) s₃ :=
    .put (.inl ⟨_, rfl⟩) (Library.Program.runs_of_replay roomyNext_step hsecond)
  have hgets : Exchanges plainEnvironment plainLibrary (·.2) s₃
      (.get .json "a" (get : Download.json.Response)) s₄ :=
    .get (Library.Program.runs_of_replay roomyNext_step hget)
  have hdelivers : get = .ok ⟨plainLibrary.encode [105]⟩ := of_decide_eq_true hresponse
  exact ⟨first, deletion, second, s₃, get, s₄,
    .cons hputs (.cons hdeletes (.cons hputsAgain (.nil s₃))), hgets, hdelivers⟩

theorem oneNode_fresh : Fresh oneNode where
  keyed := StorageMetadata.registryKeyed_empty.insert 1 "http://node-a:50051"
  registered := by decide +kernel
  reachable := by
    have hlisted : oneNode.metadata.metadataStore.storageNodes.valueList =
        [⟨1, "http://node-a:50051"⟩] := by decide +kernel
    rw [hlisted, List.forall_mem_singleton]
    exact HashMap.mem_iff_exists_getElem?.mpr ⟨_, Std.ExtTreeMap.getElem?_insert_self⟩
  noObjects := by decide +kernel
  noChunks := by decide +kernel
  noData address id := by
    by_contra hdata
    rcases Option.ne_none_iff_exists'.mp hdata with ⟨bytes, hbytes⟩
    rcases Services.dataAt_eq_some_iff.mp hbytes with ⟨node, hnode, hlive⟩
    have hempty : node = .empty 4 := by
      by_cases haddress : address = "http://node-a:50051"
      · subst haddress
        exact (HashMap.getElem?_insert_same _ hnode).symm
      · simp [oneNode, HashMap.getElem?_insert_of_ne _ _ haddress] at hnode
    rw [hempty] at hlive
    simp [StorageNode.BoundedMap.empty] at hlive

/-- An upload, a deletion, another upload and a download. -/
theorem store_refines_map_oneNode :
    ∃ (exchanges : List Exchange) (s' : Services) (map : String → Option Bytes),
      exchanges.length = 3 ∧
      (Exchanges plainEnvironment plainLibrary (·.2)).Trace oneNode exchanges s' ∧
      Represents plainLibrary.crc32 s' map := by
  rcases oneNode_exchanges with ⟨first, deletion, second, s', _, _, htrace, _⟩
  rcases store_refines_map plainEnvironment plainLibrary (·.2) oneNode s' _ _
    oneNode_fresh.represents htrace with ⟨events, map, _, _, hmap⟩
  exact ⟨_, s', map, rfl, htrace, hmap⟩

/-- The second upload is the last one; the first one has been deleted. -/
theorem get_iff_last_put_oneNode :
    ∃ first deletion second,
      let exchanges : List Exchange :=
        [.put (.json "aA==") "a" first, .delete "a" deletion, .put (.json "aQ==") "a" second]
      LastPut plainLibrary exchanges "a" [105] ∧ ¬ LastPut plainLibrary exchanges "a" [104] := by
  rcases oneNode_exchanges with
    ⟨first, deletion, second, s', get, s'', htrace, hget, hdelivers⟩
  have hvalid : validateObjectName plainLibrary "a" = .ok () := by decide +kernel
  have hlast := (get_iff_last_put plainEnvironment plainLibrary (·.2) plainLibrary_lawful oneNode
    s' s'' oneNode_fresh _ htrace .json "a" hvalid get hget).1
  refine ⟨first, deletion, second, (hlast [105]).mp hdelivers, fun hfirst => ?_⟩
  have hsame := Download.delivers_inj plainLibrary_lawful hdelivers ((hlast [104]).mpr hfirst)
  simp at hsame

/-- An upload, a deletion, another upload and a download. -/
theorem data_iff_replica_oneNode :
    ∃ (exchanges : List Exchange) (s' : Services), exchanges.length = 3 ∧
      (Exchanges plainEnvironment plainLibrary (·.2)).Trace oneNode exchanges s' ∧
      ∀ (address : String) (id : UInt64),
        (s'.dataAt address id).isSome ↔ Replica s' id address := by
  rcases oneNode_exchanges with ⟨first, deletion, second, s', _, _, htrace, _⟩
  exact ⟨_, s', rfl, htrace, (data_iff_replica plainEnvironment plainLibrary (·.2) oneNode s'
    oneNode_fresh _ htrace).1⟩

end System
end ObjectStore
