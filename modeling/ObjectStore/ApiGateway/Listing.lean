import ObjectStore.ApiGateway.Deletion

/-!
# API gateway - Listing and downloading

A listing reads every chunk of every object, as the downloads of these objects do.  A download
goes on to the next replica when a read fails; a listing goes on only when a connection fails.

Main definitions:

- `Pattern`: what is listed, which addresses can be connected to and what is read there.
- `Pattern.Downloadable`, `Pattern.FirstServes`: what a download and a listing need.

Main results:

- Theorem `Pattern.handleGetObject_reports`: a download reads the first replica that serves.
- Theorem `Pattern.handleListObjects_reports`: a listing reads the first replica it connects to.
- Theorem `Pattern.listsDownloadable_iff`: when a listing succeeds with every download.
-/

namespace ObjectStore
namespace ApiGateway

open Deployment (Call)
open StorageMetadata.Proto (MetaStorageNode MetaChunk MetaObject GetObjectResponse)

/-! ## Patterns of failures -/

/-- The listed objects, whose names differ; the addresses that accept a connection; and what a
read of a chunk returns there. -/
structure Pattern where
  objects : List MetaObject
  nodup : (objects.map (·.name)).Nodup
  connects : String → Bool
  serves : String → UInt64 → Option Bytes

namespace Pattern

variable (self : Pattern) {lib : Library} {debug : StatusCode × String → String}

/-- The object that is listed under the name. -/
def find (name : String) : Option MetaObject :=
  self.objects.find? fun object => object.name = name

/-- The record behind a listed object. -/
def stored (object : MetaObject) : StorageMetadata.MetaObject :=
  ⟨object.name, object.checksum, object.chunks.map (·.id), object.totalSize⟩

/-- What may be replied to a call.  The cache holds addresses that accept a connection. -/
def Answers : (call : Call) → call.Reply → Prop
  | .metadata (.lookupObject name), reply => Reports ((self.find name).map stored) reply
  | .metadata (.resolveObject object), reply =>
      Reports ((self.find object.name).map fun listed =>
        (⟨listed.checksum, listed.chunks⟩ : GetObjectResponse)) reply
  | .connect address, reply | .connectCached address, reply =>
      Reports (if self.connects address then some () else none) reply
  | .cachedConnection address, reply => reply = true → self.connects address = true
  | .storageNode address (.readChunk id), reply =>
      Reports (self.serves address id)
        ((reply : Except Status StorageNode.ReadChunkResponse).map (·.chunkBytes))
  | .turn, _ => True
  | _, _ => False

/-- One call.  Nothing changes the pattern. -/
def step : Library.Step Unit Call Call.Reply :=
  fun _ call reply _ => self.Answers call reply

/-! ## What is read -/

/-- What a node gives of a chunk. -/
def reads (id : UInt64) (node : MetaStorageNode) : Option Bytes :=
  if self.connects node.address then self.serves node.address id else none

/-- What a download reads of a chunk. -/
def readable (chunk : MetaChunk) : Option Bytes :=
  chunk.storageNodes.findSome? (self.reads chunk.id)

/-- The replica that a listing connects to. -/
def firstConnected (chunk : MetaChunk) : Option MetaStorageNode :=
  chunk.storageNodes.find? fun node => self.connects node.address

/-- What a listing reads of a chunk. -/
def listed (lib : Library) (chunk : MetaChunk) : Option ListObjectsResponseChunk :=
  (self.firstConnected chunk).bind fun node =>
    (self.serves node.address chunk.id).map fun bytes =>
      ⟨chunk.id, lib.encode bytes, node.address⟩

/-- The object has a valid name, and every chunk a replica that connects and serves. -/
def Downloadable (lib : Library) (object : MetaObject) : Prop :=
  validateObjectName lib object.name = .ok () ∧
    ∀ chunk ∈ object.chunks, ∃ node ∈ chunk.storageNodes,
      self.connects node.address = true ∧ (self.serves node.address chunk.id).isSome

/-- The first replica that connects serves the chunk. -/
def FirstServes (chunk : MetaChunk) : Prop :=
  ∃ node, self.firstConnected chunk = some node ∧ (self.serves node.address chunk.id).isSome

variable {self}

/-- A replica can be read when its node can be connected to and serves the chunk. -/
theorem reads_isSome_iff {id : UInt64} {node : MetaStorageNode} :
    (self.reads id node).isSome ↔
      self.connects node.address = true ∧ (self.serves node.address id).isSome := by
  unfold reads
  split <;> simp_all

/-- A chunk can be read when one of its replicas can. -/
theorem readable_isSome_iff {chunk : MetaChunk} :
    (self.readable chunk).isSome ↔ ∃ node ∈ chunk.storageNodes,
      self.connects node.address = true ∧ (self.serves node.address chunk.id).isSome := by
  simp only [readable, List.findSome?_isSome_iff, reads_isSome_iff]

/-- A chunk can be listed when the first replica that can be connected to serves it. -/
theorem listed_isSome_iff {chunk : MetaChunk} :
    (self.listed lib chunk).isSome ↔ self.FirstServes chunk := by
  unfold listed FirstServes
  cases hfirst : self.firstConnected chunk with
  | none => simp
  | some node => simp

/-- Where a listing reads a chunk, a download reads the same. -/
theorem readable_of_first {chunk : MetaChunk} {node : MetaStorageNode} {bytes : Bytes}
    (hfirst : self.firstConnected chunk = some node)
    (hserves : self.serves node.address chunk.id = some bytes) :
    self.readable chunk = some bytes := by
  unfold firstConnected at hfirst
  unfold readable
  generalize chunk.storageNodes = nodes at hfirst ⊢
  induction nodes with
  | nil => cases hfirst
  | cons other nodes ih =>
      rw [List.find?_cons] at hfirst
      rw [List.findSome?_cons]
      cases hconnects : self.connects other.address with
      | true =>
          simp only [hconnects] at hfirst
          cases hfirst
          rw [reads, hconnects, if_pos rfl, hserves]
      | false =>
          simp only [hconnects] at hfirst
          rw [reads, hconnects, if_neg (by decide)]
          exact ih hfirst

theorem find_eq_some {object : MetaObject} (h : object ∈ self.objects) :
    self.find object.name = some object := by
  have hnodup := self.nodup
  unfold find
  generalize self.objects = objects at h hnodup ⊢
  induction objects with
  | nil => cases h
  | cons other objects ih =>
      rw [List.map_cons, List.nodup_cons] at hnodup
      rcases List.mem_cons.mp h with rfl | h
      · simp
      · have hne : other.name ≠ object.name :=
          fun heq => hnodup.1 (heq ▸ List.mem_map_of_mem h)
        rw [List.find?_cons_of_neg (by simpa using hne)]
        exact ih h hnodup.2

/-! ## Downloading -/

/-- All calls are made side by side with calls that leave the pattern as it is. -/
abbrev Anything (_ _ : Unit) : Prop := True

/-- The pool connects as the pattern says. -/
theorem getOrConnect_reports (address : String) :
    (getOrConnect address).EnsuresUnder self.step Anything
      (fun result _ => Reports (if self.connects address then some () else none) result) () := by
  intro _ _ cached _ hcached
  refine ⟨trivial, ?_⟩
  change Bool at cached
  cases cached with
  | true =>
      intro _ _
      have hconnects : self.connects address = true := hcached rfl
      rw [hconnects]
      rfl
  | false =>
      intro _ _ connected _ hconnected
      refine ⟨trivial, ?_⟩
      change Except String Unit at connected
      cases connected with
      | ok value => exact fun _ _ => hconnected
      | error err => exact fun _ _ => hconnected

/-- A read serves what the pattern says. -/
theorem retryRead_reports (address : String) (id : UInt64) (retries : Nat) :
    (retryWithBackoff (Deployment.Program.storageNode address (.readChunk id))
      retries).EnsuresUnder self.step Anything
        (fun result _ => Reports (self.serves address id) (result.map (·.chunkBytes))) () := by
  induction retries with
  | zero => exact fun _ _ reply _ hreply => ⟨trivial, fun _ _ => hreply⟩
  | succ retries ih =>
      intro _ _ reply _ hreply
      refine ⟨trivial, ?_⟩
      change Except Status StorageNode.ReadChunkResponse at reply
      cases reply with
      | ok resp => exact fun _ _ => hreply
      | error status => exact ih

/-- The first replica that can be read gives the data. -/
theorem readChunk_reads (id : UInt64) (nodes : List MetaStorageNode) :
    (readChunk id nodes).EnsuresUnder self.step Anything
      (fun value _ => value = nodes.findSome? (self.reads id)) () := by
  induction nodes with
  | nil => exact fun _ _ => rfl
  | cons node nodes ih =>
      unfold readChunk
      rw [List.findSome?_cons]
      refine .of_bind (fun _ => trivial) ((getOrConnect_reports node.address).mono
        fun connected _ hconnected => ?_)
      cases hconnects : self.connects node.address with
      | false =>
          rw [reads, hconnects, if_neg (by decide)]
          cases connected with
          | ok value => rw [hconnects] at hconnected; cases hconnected
          | error error => exact ih
      | true =>
          rw [reads, hconnects, if_pos rfl]
          cases connected with
          | error error => rw [hconnects] at hconnected; cases hconnected
          | ok value =>
              refine .of_bind (fun _ => trivial) ((retryRead_reports node.address id 2).mono
                fun result _ hresult => ?_)
              cases result with
              | ok resp =>
                  change self.serves node.address id = some resp.chunkBytes at hresult
                  rw [hresult]
                  exact fun _ _ => rfl
              | error status =>
                  change self.serves node.address id = none at hresult
                  rw [hresult]
                  exact ih

/-- The task of a chunk reports whether the chunk can be read. -/
theorem readTask_reports (chunk : MetaChunk) :
    (readTask chunk).EnsuresUnder self.step Anything
      (fun result _ => Reports (self.readable chunk) result) () := by
  unfold readTask
  refine .of_bind (fun _ => trivial) ((readChunk_reads chunk.id chunk.storageNodes).mono
    fun value _ hvalue => ?_)
  cases value with
  | none => exact fun _ _ => hvalue.symm
  | some bytes => exact fun _ _ => hvalue.symm

theorem readTasks_report (chunks : List MetaChunk) :
    (Deployment.Program.joinAll (chunks.map readTask)).Ensures self.step
      (fun results _ => List.Forall₂ (fun chunk result => Reports (self.readable chunk) result)
        chunks results) () := by
  have hjoined : (Deployment.Program.joinAll (chunks.map readTask)).EnsuresUnder self.step Anything
      (fun results _ => List.Forall₂ (fun chunk result => Reports (self.readable chunk) result)
        chunks results) () :=
    Library.Program.EnsuresUnder.joinAll (fun _ => trivial) (fun _ _ _ _ _ => trivial)
      (fun _ _ _ _ => trivial) fun chunk _ => readTask_reports chunk
  exact (hjoined.amid fun _ => trivial).anti fun _ _ _ _ hstep => ⟨(), trivial, hstep⟩

/-- A download of a listed object reads each chunk at the first replica that connects and
serves it. -/
theorem handleGetObject_reports {object : MetaObject} (hobject : object ∈ self.objects)
    (hvalid : validateObjectName lib object.name = .ok ()) :
    (handleGetObject lib object.name).Ensures self.step
      (fun response _ => Reports ((object.chunks.mapM self.readable).map fun pieces =>
        ⟨lib.encode pieces.flatten⟩) response) () := by
  have hfind := find_eq_some hobject
  unfold handleGetObject
  rw [hvalid]
  intro found _ hfound
  change Except Status StorageMetadata.MetaObject at found
  change Reports ((self.find object.name).map stored) found at hfound
  rw [hfind] at hfound
  cases found with
  | error status => cases hfound
  | ok record =>
      cases hfound
      intro resolved _ hresolved
      change Except Status GetObjectResponse at resolved
      change Reports ((self.find object.name).map fun listed =>
        (⟨listed.checksum, listed.chunks⟩ : GetObjectResponse)) resolved at hresolved
      rw [hfind] at hresolved
      cases resolved with
      | error status => cases hresolved
      | ok response =>
          cases hresolved
          change (Deployment.Program.joinAll (object.chunks.map readTask) >>= _).Ensures _ _ _
          refine .of_bind ((readTasks_report object.chunks).mono fun results _ hresults => ?_)
          have hcollected := collect_reports hresults
          cases hresult : collect results with
          | error error =>
              rw [hresult, reports_error_iff, Option.map_eq_none_iff] at hcollected
              change (object.chunks.mapM self.readable).map _ = none
              rw [hcollected]
              rfl
          | ok chunkData =>
              rw [hresult] at hcollected
              change (object.chunks.mapM self.readable).map _ = some _
              rcases Option.map_eq_some_iff.mp hcollected with ⟨pieces, hpieces, rfl⟩
              rw [hpieces]
              rfl

/-! ## Listing -/

/-- The listing connects to the first replica that it can connect to. -/
theorem connectFirst_finds (lastErr : Option String) (nodes : List MetaStorageNode) :
    (connectFirst lastErr nodes).Ensures self.step
      (fun result _ => Reports ((nodes.find? fun node => self.connects node.address).map
        (·.address)) result) () := by
  induction nodes generalizing lastErr with
  | nil => rfl
  | cons node nodes ih =>
      intro connected _ hconnected
      rw [List.find?_cons]
      change Except String Unit at connected
      change Reports (if self.connects node.address then some () else none) connected at hconnected
      cases hconnects : self.connects node.address with
      | true =>
          rw [hconnects] at hconnected
          cases connected with
          | ok value => rfl
          | error err => cases hconnected
      | false =>
          rw [hconnects] at hconnected
          cases connected with
          | ok value => cases hconnected
          | error err => exact ih (some err)

/-- A chunk is listed from that replica, or the listing fails. -/
theorem listChunk_reports (chunk : MetaChunk) :
    (listChunk lib debug chunk).Ensures self.step
      (fun result _ => Reports (self.listed lib chunk) result) () := by
  unfold listChunk listed firstConnected
  split
  · rename_i hempty
    rw [List.isEmpty_iff.mp hempty]
    rfl
  · refine .of_bind ((connectFirst_finds none chunk.storageNodes).mono fun result _ hresult => ?_)
    cases result with
    | error lastErr =>
        rw [Option.map_eq_none_iff.mp hresult]
        rfl
    | ok address =>
        rcases Option.map_eq_some_iff.mp hresult with ⟨node, hnode, rfl⟩
        rw [hnode]
        intro reply _ hreply
        change Except Status StorageNode.ReadChunkResponse at reply
        cases reply with
        | error err =>
            change self.serves node.address chunk.id = none at hreply
            change (self.serves node.address chunk.id).map _ = none
            rw [hreply]
            rfl
        | ok resp =>
            change self.serves node.address chunk.id = some resp.chunkBytes at hreply
            change (self.serves node.address chunk.id).map _ = some _
            rw [hreply]
            rfl

theorem listChunks_report (chunks : List MetaChunk) :
    (listChunks lib debug chunks).Ensures self.step
      (fun result _ => Reports (chunks.mapM (self.listed lib)) result) () := by
  induction chunks with
  | nil => rfl
  | cons chunk chunks ih =>
      rw [List.mapM_cons]
      refine .of_bind ((listChunk_reports chunk).mono fun result _ hresult => ?_)
      cases result with
      | error error =>
          rw [reports_error_iff.mp hresult]
          rfl
      | ok payload =>
          rw [reports_ok_iff.mp hresult]
          refine .of_bind (ih.mono fun rest _ hrest => ?_)
          cases rest with
          | error error =>
              rw [reports_error_iff.mp hrest]
              rfl
          | ok payloads =>
              rw [reports_ok_iff.mp hrest]
              rfl

/-- What a listing says about an object. -/
def listedObject (self : Pattern) (lib : Library) (object : MetaObject) :
    Option ListObjectsResponsePayload :=
  (object.chunks.mapM (self.listed lib)).map fun chunks => ⟨object.name, chunks⟩

/-- A listing has all objects, or it fails. -/
theorem listEach_reports (objects : List MetaObject) :
    (listEach lib debug objects).Ensures self.step
      (fun result _ => Reports (objects.mapM (self.listedObject lib)) result) () := by
  induction objects with
  | nil => rfl
  | cons object objects ih =>
      rw [List.mapM_cons]
      refine .of_bind ((listChunks_report object.chunks).mono fun result _ hresult => ?_)
      cases result with
      | error error =>
          rw [listedObject, reports_error_iff.mp hresult]
          rfl
      | ok chunks =>
          rw [listedObject, reports_ok_iff.mp hresult]
          refine .of_bind (ih.mono fun rest _ hrest => ?_)
          cases rest with
          | error error =>
              change (objects.mapM (self.listedObject lib) >>= _) = none
              rw [reports_error_iff.mp hrest]
              rfl
          | ok payloads =>
              change (objects.mapM (self.listedObject lib) >>= _) = some _
              rw [reports_ok_iff.mp hrest]
              rfl

/-- A listing reads each chunk at the first replica that connects, and nowhere else. -/
theorem handleListObjects_reports :
    (handleListObjects lib debug (.ok self.objects)).Ensures self.step
      (fun listing _ => Reports (self.objects.mapM (self.listedObject lib)) listing) () :=
  listEach_reports self.objects

/-! ## Both run to their end -/

/-- The pattern answers every call of a download. -/
theorem looks_answered (self : Pattern) (call : Call) (h : Looks call) (s : Unit) :
    ∃ reply s', self.step s call reply s' := by
  cases call with
  | metadata call =>
      cases call with
      | lookupObject name =>
          cases hfind : (self.find name).map stored with
          | none => exact ⟨.error ⟨.notFound, ""⟩, (), hfind⟩
          | some object => exact ⟨.ok object, (), hfind⟩
      | resolveObject object =>
          cases hfind : (self.find object.name).map fun listed =>
              (⟨listed.checksum, listed.chunks⟩ : GetObjectResponse) with
          | none => exact ⟨.error ⟨.notFound, ""⟩, (), hfind⟩
          | some response => exact ⟨.ok response, (), hfind⟩
      | _ => exact h.elim
  | storageNode address call =>
      cases call with
      | readChunk id =>
          cases hserves : self.serves address id with
          | none => exact ⟨.error ⟨.notFound, ""⟩, (), hserves⟩
          | some bytes => exact ⟨.ok ⟨id, bytes, 0⟩, (), hserves⟩
      | _ => exact h.elim
  | connectCached address =>
      cases hconnects : self.connects address with
      | false => exact ⟨.error "", (), if_neg (by rw [hconnects]; decide)⟩
      | true => exact ⟨.ok (), (), if_pos hconnects⟩
  | cachedConnection address => exact ⟨false, (), nofun⟩
  | turn => exact ⟨false, (), trivial⟩
  | connect _ | choose _ => exact h.elim

/-- The calls of a listing. -/
def Visits : Call → Prop
  | .connect _ => True
  | .storageNode _ call =>
      match call with
      | .readChunk _ => True
      | _ => False
  | _ => False

/-- The pattern answers every call of a listing. -/
theorem visits_answered (self : Pattern) (call : Call) (h : Visits call) (s : Unit) :
    ∃ reply s', self.step s call reply s' := by
  cases call with
  | connect address => exact self.looks_answered (.connectCached address) trivial s
  | storageNode address call =>
      cases call with
      | readChunk id => exact self.looks_answered (.storageNode address (.readChunk id)) trivial s
      | _ => exact h.elim
  | _ => exact h.elim

theorem connectFirst_visits (lastErr : Option String) (nodes : List MetaStorageNode) :
    (connectFirst lastErr nodes).Only Visits := by
  induction nodes generalizing lastErr with
  | nil => trivial
  | cons node nodes ih =>
      refine ⟨trivial, fun connected => ?_⟩
      change Except String Unit at connected
      cases connected with
      | ok value => trivial
      | error err => exact ih (some err)

theorem listChunk_visits (chunk : MetaChunk) : (listChunk lib debug chunk).Only Visits := by
  unfold listChunk
  split
  · trivial
  · refine (connectFirst_visits none _).of_bind fun result => ?_
    cases result with
    | error lastErr => trivial
    | ok address =>
        refine ⟨trivial, fun reply => ?_⟩
        change Except Status StorageNode.ReadChunkResponse at reply
        cases reply with
        | error err => trivial
        | ok resp => trivial

theorem listChunks_visits (chunks : List MetaChunk) :
    (listChunks lib debug chunks).Only Visits := by
  induction chunks with
  | nil => trivial
  | cons chunk chunks ih =>
      refine (listChunk_visits chunk).of_bind fun result => ?_
      cases result with
      | error error => trivial
      | ok payload =>
          refine ih.of_bind fun rest => ?_
          cases rest with
          | error error => trivial
          | ok payloads => trivial

theorem listEach_visits (objects : List MetaObject) : (listEach lib debug objects).Only Visits := by
  induction objects with
  | nil => trivial
  | cons object objects ih =>
      refine (listChunks_visits object.chunks).of_bind fun result => ?_
      cases result with
      | error error => trivial
      | ok chunks =>
          refine ih.of_bind fun rest => ?_
          cases rest with
          | error error => trivial
          | ok payloads => trivial

/-! ## Agreement -/

/-- A download of the object ends with the payload. -/
def Downloads (self : Pattern) (lib : Library) (name : String)
    (payload : GetObjectResponsePayload) : Prop :=
  (handleGetObject lib name).Runs self.step () (.ok payload) ()

/-- The decoded chunks of a listed object are, one after the other, what downloads of the
object return. -/
def ListsContent (self : Pattern) (lib : Library) (object : MetaObject)
    (listed : ListObjectsResponsePayload) : Prop :=
  listed.name = object.name ∧ ∀ payload, self.Downloads lib object.name payload →
    ∃ pieces : List Bytes,
      List.Forall₂ (fun chunk bytes => lib.decode chunk.bytes = .ok bytes) listed.chunks pieces ∧
        lib.decode payload.bytes = .ok pieces.flatten

/-- If every listed object can be downloaded, then the listing succeeds and lists the content
of each of them. -/
def ListsDownloadable (self : Pattern) (lib : Library)
    (debug : StatusCode × String → String) : Prop :=
  (∀ object ∈ self.objects, ∃ payload, self.Downloads lib object.name payload) →
    (∃ listing, (handleListObjects lib debug (.ok self.objects)).Runs self.step () listing ()) ∧
      ∀ listing, (handleListObjects lib debug (.ok self.objects)).Runs self.step () listing () →
        ∃ payloads, listing = .ok payloads ∧
          List.Forall₂ (self.ListsContent lib) self.objects payloads

/-- A download delivers the pieces of the object. -/
theorem Downloads.pieces {object : MetaObject} (hobject : object ∈ self.objects)
    {payload : GetObjectResponsePayload} (h : self.Downloads lib object.name payload) :
    validateObjectName lib object.name = .ok () ∧ ∃ pieces : List Bytes,
      List.Forall₂ (fun chunk bytes => self.readable chunk = some bytes) object.chunks pieces ∧
        payload = ⟨lib.encode pieces.flatten⟩ := by
  cases hvalid : validateObjectName lib object.name with
  | error msg =>
      unfold Downloads handleGetObject at h
      rw [hvalid] at h
      cases h
  | ok value =>
      have hreports := h.ensures (handleGetObject_reports hobject hvalid)
      rcases Option.map_eq_some_iff.mp (reports_ok_iff.mp hreports) with ⟨pieces, hpieces, rfl⟩
      exact ⟨rfl, pieces, mapM_eq_some_iff.mp hpieces, rfl⟩

/-- An object can be downloaded when all of its chunks can be read. -/
theorem exists_downloads_iff {object : MetaObject} (hobject : object ∈ self.objects) :
    (∃ payload, self.Downloads lib object.name payload) ↔ self.Downloadable lib object := by
  constructor
  · rintro ⟨payload, hpayload⟩
    rcases hpayload.pieces hobject with ⟨hvalid, pieces, hpieces, _⟩
    refine ⟨hvalid, fun chunk hchunk => readable_isSome_iff.mp ?_⟩
    have hall := mapM_eq_some_iff.mpr hpieces
    exact mapM_isSome_iff.mp (by rw [hall]; rfl) chunk hchunk
  · rintro ⟨hvalid, hreadable⟩
    have hlooks : (handleGetObject lib object.name).Only Looks :=
      Download.json.handler_looks lib object.name
    rcases Library.Program.exists_runs hlooks (fun s call hcall => self.looks_answered call hcall s)
      () with ⟨response, ⟨⟩, hrun⟩
    have hreports := hrun.ensures (handleGetObject_reports hobject hvalid)
    have hsome := mapM_isSome_iff.mpr fun chunk hchunk =>
      readable_isSome_iff.mpr (hreadable chunk hchunk)
    rcases Option.isSome_iff_exists.mp hsome with ⟨pieces, hpieces⟩
    rw [hpieces] at hreports
    cases response with
    | error error => cases hreports
    | ok payload => exact ⟨payload, hrun⟩

/-- A listing comes to an end. -/
theorem exists_listing (self : Pattern) (lib : Library) (debug : StatusCode × String → String) :
    ∃ listing, (handleListObjects lib debug (.ok self.objects)).Runs self.step () listing () := by
  have hvisits : (handleListObjects lib debug (.ok self.objects)).Only Visits :=
    listEach_visits self.objects
  rcases Library.Program.exists_runs hvisits (fun s call hcall => self.visits_answered call hcall s)
    () with ⟨listing, ⟨⟩, hrun⟩
  exact ⟨listing, hrun⟩

/-- An object can be listed when all of its chunks can. -/
theorem listedObject_isSome_iff {object : MetaObject} :
    (self.listedObject lib object).isSome ↔
      ∀ chunk ∈ object.chunks, self.FirstServes chunk := by
  simp only [listedObject, Option.isSome_map, mapM_isSome_iff, listed_isSome_iff]

/-- The listed bytes of a chunk are those that a download reads. -/
theorem listed_decodes (hlib : lib.Lawful) {chunks : List MetaChunk}
    {payloads : List ListObjectsResponseChunk} {pieces : List Bytes}
    (hlisted : List.Forall₂ (fun chunk payload => self.listed lib chunk = some payload) chunks
      payloads)
    (hread : List.Forall₂ (fun chunk bytes => self.readable chunk = some bytes) chunks pieces) :
    List.Forall₂ (fun payload bytes => lib.decode payload.bytes = .ok bytes) payloads pieces := by
  induction hlisted generalizing pieces with
  | nil =>
      cases hread
      exact .nil
  | @cons chunk payload chunks payloads hpayload _ ih =>
      cases hread with
      | @cons _ bytes _ pieces hbytes hread =>
          rcases Option.bind_eq_some_iff.mp hpayload with ⟨node, hnode, hserved⟩
          rcases Option.map_eq_some_iff.mp hserved with ⟨found, hfound, rfl⟩
          cases hbytes.symm.trans (readable_of_first hnode hfound)
          exact .cons (hlib.decode_encode bytes) (ih hread)

/-- A listing succeeds with the downloads, and lists their content, when some listed object
cannot be downloaded or the first replica that connects serves every chunk. -/
theorem listsDownloadable_iff (self : Pattern) (hlib : lib.Lawful)
    (debug : StatusCode × String → String) :
    self.ListsDownloadable lib debug ↔
      (∃ object ∈ self.objects, ¬ self.Downloadable lib object) ∨
        ∀ object ∈ self.objects, ∀ chunk ∈ object.chunks, self.FirstServes chunk := by
  constructor
  · intro hlists
    by_cases hall : ∀ object ∈ self.objects, self.Downloadable lib object
    · right
      rcases hlists fun object hobject => (exists_downloads_iff hobject).mpr (hall object hobject)
        with ⟨⟨listing, hrun⟩, hlisting⟩
      rcases hlisting listing hrun with ⟨payloads, rfl, _⟩
      have hreports := reports_ok_iff.mp (hrun.ensures handleListObjects_reports)
      intro object hobject
      have hsome := mapM_isSome_iff.mp (by rw [hreports]; rfl) object hobject
      exact listedObject_isSome_iff.mp hsome
    · left
      push Not at hall
      exact hall
  · rintro (⟨object, hobject, hnot⟩ | hfirst) hdownloads
    · exact absurd ((exists_downloads_iff hobject).mp (hdownloads object hobject)) hnot
    · refine ⟨exists_listing self lib debug, fun listing hrun => ?_⟩
      have hreports := hrun.ensures handleListObjects_reports
      have hsome : (self.objects.mapM (self.listedObject lib)).isSome :=
        mapM_isSome_iff.mpr fun object hobject =>
          listedObject_isSome_iff.mpr (hfirst object hobject)
      rcases Option.isSome_iff_exists.mp hsome with ⟨payloads, hpayloads⟩
      cases listing with
      | error error => cases (reports_error_iff.mp hreports).symm.trans hpayloads
      | ok found =>
          cases (reports_ok_iff.mp hreports).symm.trans hpayloads
          refine ⟨payloads, rfl, ?_⟩
          have hall := (List.forall₂_and_left _ _).mpr
            ⟨fun object hobject => hobject, mapM_eq_some_iff.mp hpayloads⟩
          refine hall.imp fun object payload hlisted => ?_
          rcases Option.map_eq_some_iff.mp hlisted.2 with ⟨chunks, hchunks, rfl⟩
          refine ⟨rfl, fun got hgot => ?_⟩
          rcases hgot.pieces hlisted.1 with ⟨_, pieces, hpieces, rfl⟩
          exact ⟨pieces, listed_decodes hlib (mapM_eq_some_iff.mp hchunks) hpieces,
            hlib.decode_encode _⟩

/-- One object with one chunk on two nodes that both accept connections; `holder` holds it. -/
def twoReplicas (holder : String) : Pattern where
  objects := [⟨"a", 7, [⟨10, 7, [⟨1, "http://node-a:50051"⟩, ⟨2, "http://node-b:50051"⟩]⟩], 1⟩]
  nodup := by simp
  connects _ := true
  serves address _ := if address = holder then some [104] else none

/-- With the chunk on the first replica the listing shows it. -/
theorem listsDownloadable_iff_firstHolder :
    (twoReplicas "http://node-a:50051").ListsDownloadable plainLibrary (·.2) := by
  refine (listsDownloadable_iff _ plainLibrary_lawful _).mpr (.inr fun object hobject => ?_)
  cases List.mem_singleton.mp hobject
  intro chunk hchunk
  cases List.mem_singleton.mp hchunk
  exact ⟨⟨1, "http://node-a:50051"⟩, rfl, rfl⟩

/-- The object can be downloaded from its second replica, but the listing fails at the first. -/
theorem listing_fails_at_missing_replica :
    ¬ (twoReplicas "http://node-b:50051").ListsDownloadable plainLibrary (·.2) := by
  intro hlists
  have hdownloads : ∀ object ∈ (twoReplicas "http://node-b:50051").objects,
      ∃ payload,
        (twoReplicas "http://node-b:50051").Downloads plainLibrary object.name payload := by
    intro object hobject
    refine (exists_downloads_iff hobject).mpr ?_
    cases List.mem_singleton.mp hobject
    refine ⟨by decide +kernel, fun chunk hchunk => ?_⟩
    cases List.mem_singleton.mp hchunk
    exact ⟨⟨2, "http://node-b:50051"⟩, by decide, rfl, by decide⟩
  rcases hlists hdownloads with ⟨⟨listing, hrun⟩, hlisting⟩
  rcases hlisting listing hrun with ⟨payloads, rfl, _⟩
  have hreports := reports_ok_iff.mp (hrun.ensures handleListObjects_reports)
  have hnone : (twoReplicas "http://node-b:50051").objects.mapM
      ((twoReplicas "http://node-b:50051").listedObject plainLibrary) = none := by decide
  rw [hnone] at hreports
  cases hreports

end Pattern

end ApiGateway
end ObjectStore
