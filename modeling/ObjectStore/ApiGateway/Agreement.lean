import ObjectStore.ApiGateway.Deletion
import ObjectStore.Library.Tasks

/-!
# API gateway - The two downloads agree

The JSON download reads all chunks side by side, the streamed one reads them one after the
other.  What comes of each attempt is given by the positions of the chunk and of its replica
and by the number of the attempt, and is the same for both.

Main definitions:

- `Outcomes`: the answer of the metadata node, and the outcome of every attempt.
- `Outcomes.piece`, `Outcomes.contacted`: what is read of a chunk, and where.
- `Download.tagged`: the downloads with their calls tagged by the position of the chunk.

Main results:

- Theorem `Download.forget_tagged`: without the tags they are the handlers.
- Theorem `Outcomes.readChunk_piece`: a chunk is read at its first readable replica.
- Theorem `downloads_agree`: both downloads return the same bytes, or both end in an error.
-/

namespace ObjectStore
namespace ApiGateway

open Deployment (Call)
open ObjectStore.Library (Tagged Apart)
open StorageMetadata.Proto (MetaStorageNode MetaChunk GetObjectResponse)

/-! ## Tags -/

/-- A program whose calls carry the position of the chunk that they are made for. -/
abbrev ByChunk (α : Type) : Type := Tagged (Option Nat) Call Call.Reply α

/-- `join_all`. -/
def joinTagged {α : Type} (programs : List (ByChunk α)) : ByChunk (List α) :=
  @Library.Program.joinAll (Option Nat × Call) (fun request => request.2.Reply) α (none, .turn)
    (fun (first : Bool) => first) programs

/-- Without the labels, the tasks are joined as usual. -/
theorem forget_joinTagged {α : Type} (programs : List (ByChunk α)) :
    (joinTagged programs).forget =
      Deployment.Program.joinAll (programs.map Library.Program.forget) :=
  @Library.Program.forget_joinAll (Option Nat) Call Call.Reply α (none, .turn)
    (fun (first : Bool) => first) programs

/-- The stream of `handle_get_object_stream`. -/
def streamTagged : List (MetaChunk × Nat) → ByChunk StreamBody
  | [] => pure ⟨[], none⟩
  | item :: items => do
      match ← (readChunk item.1.id item.1.storageNodes).tag (some item.2) with
      | none =>
          pure ⟨[], some ⟨.other,
            s!"could not read chunk {item.1.id} from any storage node"⟩⟩
      | some bytes =>
          let body ← streamTagged items
          pure { body with yields := bytes :: body.yields }

namespace Download

/-- The data part of the handler, with each call labelled by the chunk it is for. -/
def readTagged (lib : Library) (chunks : List MetaChunk) :
    (download : Download) → ByChunk download.Response
  | json => do
      let results ← joinTagged (chunks.zipIdx.map fun item => (readTask item.1).tag (some item.2))
      match collect results with
      | .error error => pure (.error error)
      | .ok chunkData => pure (.ok ⟨lib.encode chunkData⟩)
  | stream => do
      let body ← streamTagged chunks.zipIdx
      pure (.ok body)

/-- The handler of a download, with each call labelled by the chunk it is for. -/
def tagged (lib : Library) (name : String) (download : Download) : ByChunk download.Response :=
  match validateObjectName lib name with
  | .error msg => pure (failure (.badRequest, msg) download)
  | .ok () => (do
      match ← (getObject name).tag none with
      | .error err =>
          pure (failure
            (.notFound, s!"could not get object {name}: " ++ lib.display err) download)
      | .ok response => readTagged lib response.chunks download)

theorem forget_streamTagged (chunks : List MetaChunk) (i : Nat) :
    (streamTagged (chunks.zipIdx i)).forget = streamChunks chunks := by
  induction chunks generalizing i with
  | nil => rfl
  | cons chunk chunks ih =>
      rw [List.zipIdx_cons, streamTagged, streamChunks, Library.Program.forget_bind,
        Library.Program.forget_tag]
      congr 1
      funext value
      cases value with
      | none => rfl
      | some bytes =>
          simp only [Library.Program.forget_bind, ih]
          rfl

/-- Without the labels, it is the data part of the handler. -/
theorem forget_readTagged (lib : Library) (chunks : List MetaChunk) (download : Download) :
    (readTagged lib chunks download).forget = read lib chunks download := by
  cases download with
  | json =>
      rw [readTagged, read, Library.Program.forget_bind, forget_joinTagged]
      have htasks : (chunks.zipIdx.map fun item => ((readTask item.1).tag (some item.2) :
          ByChunk (HttpResult Bytes))).map Library.Program.forget = chunks.map readTask := by
        rw [List.map_map]
        conv_rhs => rw [← List.zipIdx_map_fst 0 chunks, List.map_map]
        exact List.map_congr_left fun item _ => Library.Program.forget_tag _ _
      rw [htasks]
      congr 1
      funext results
      cases collect results <;> rfl
  | stream =>
      rw [readTagged, read, Library.Program.forget_bind, forget_streamTagged]
      rfl

/-- Without the tags the program is the handler. -/
theorem forget_tagged (lib : Library) (name : String) (download : Download) :
    (tagged lib name download).forget = download.handler lib name := by
  rw [handler_eq, tagged]
  cases hvalid : validateObjectName lib name with
  | error msg => rfl
  | ok value =>
      dsimp only
      rw [Library.Program.forget_bind, Library.Program.forget_tag]
      congr 1
      funext found
      cases found with
      | error err => rfl
      | ok response => exact forget_readTagged lib _ download

end Download

/-! ## Outcomes -/

/-- What the metadata node answers; whether replica `j` of chunk `i` accepts a connection; and
what attempt `k` to read the chunk there returns. -/
structure Outcomes where
  answer : GetObjectResponse
  connects : Nat → Nat → Bool
  reads : Nat → Nat → Nat → Option Bytes

/-- How far a task has come: the replicas it has contacted, and its attempts at the last one. -/
structure Progress where
  contacted : List String
  attempts : Nat

/-- No replica has been contacted. -/
def Progress.start (_ : Option Nat) : Progress := ⟨[], 0⟩

namespace Outcomes

/-- One call made for a chunk, or for none.  A connection may be in the cache. -/
def steps (self : Outcomes) : Option Nat → Library.Step Progress Call Call.Reply
  | none, p, .metadata (.lookupObject _), reply, p' =>
      (∃ object, reply = (.ok object : Except Status StorageMetadata.MetaObject)) ∧ p' = p
  | none, p, .metadata (.resolveObject _), reply, p' =>
      reply = (.ok self.answer : Except Status GetObjectResponse) ∧ p' = p
  | none, p, .turn, _, p' => p' = p
  | some i, p, .cachedConnection address, reply, p' =>
      (reply = true → self.connects i p.contacted.length = true) ∧
        p' = ⟨p.contacted ++ [address], 0⟩
  | some i, p, .connectCached _, reply, p' =>
      Reports (if self.connects i (p.contacted.length - 1) then some () else none) reply ∧ p' = p
  | some i, p, .storageNode _ (.readChunk _), reply, p' =>
      Reports (self.reads i (p.contacted.length - 1) p.attempts)
        ((reply : Except Status StorageNode.ReadChunkResponse).map (·.chunkBytes)) ∧
          p' = ⟨p.contacted, p.attempts + 1⟩
  | _, _, _, _, _ => False

/-- Replica `j` of chunk `i` connects and answers within the first three attempts. -/
def readAt (self : Outcomes) (i j : Nat) : Option Bytes :=
  if self.connects i j then (List.range 3).findSome? (self.reads i j) else none

/-- What the first readable replica of a chunk returns. -/
def piece (self : Outcomes) (item : MetaChunk × Nat) : Option Bytes :=
  (List.range item.1.storageNodes.length).findSome? (self.readAt item.2)

/-- The addresses of the replicas up to the first readable one. -/
def contacted (self : Outcomes) (item : MetaChunk × Nat) : List String :=
  (item.1.storageNodes.take ((List.range item.1.storageNodes.length).findIdx
    (fun j => (self.readAt item.2 j).isSome) + 1)).map (·.address)

/-- The chunks with their positions. -/
def items (self : Outcomes) : List (MetaChunk × Nat) := self.answer.chunks.zipIdx

variable {self : Outcomes} {i : Nat}

/-! ## Reading a chunk -/

/-- The pool connects as the pattern says, and nothing else of the task changes. -/
theorem getOrConnect_outcome (address : String) (p : Progress) :
    (getOrConnect address).Ensures (self.steps (some i))
      (fun result p' => p' = ⟨p.contacted ++ [address], 0⟩ ∧
        Reports (if self.connects i p.contacted.length then some () else none) result) p := by
  rintro cached _ ⟨hcached, rfl⟩
  change Bool at cached
  cases cached with
  | true =>
      refine ⟨rfl, ?_⟩
      rw [hcached rfl]
      rfl
  | false =>
      rintro connected _ ⟨hconnected, rfl⟩
      change Except String Unit at connected
      rw [List.length_append, List.length_singleton, Nat.add_sub_cancel] at hconnected
      cases connected with
      | ok value => exact ⟨rfl, hconnected⟩
      | error err => exact ⟨rfl, hconnected⟩

/-- A read succeeds when one of its attempts does. -/
theorem retryRead_outcome (address : String) (id : UInt64) (retries : Nat) (p : Progress) :
    (retryWithBackoff (Deployment.Program.storageNode address (.readChunk id)) retries).Ensures
      (self.steps (some i))
      (fun result p' => p'.contacted = p.contacted ∧
        Reports ((List.range' p.attempts (retries + 1)).findSome?
          (self.reads i (p.contacted.length - 1))) (result.map (·.chunkBytes))) p := by
  induction retries generalizing p with
  | zero =>
      rintro reply _ ⟨hreply, rfl⟩
      refine ⟨rfl, ?_⟩
      rw [List.range'_one, List.findSome?_singleton]
      exact hreply
  | succ retries ih =>
      rintro reply _ ⟨hreply, rfl⟩
      rw [List.range'_succ, List.findSome?_cons]
      change Except Status StorageNode.ReadChunkResponse at reply
      cases reply with
      | ok resp =>
          rw [reports_ok_iff.mp hreply]
          exact ⟨rfl, rfl⟩
      | error status =>
          rw [reports_error_iff.mp hreply]
          exact ih ⟨p.contacted, p.attempts + 1⟩

/-- The replicas are tried in order, up to the first one that can be read. -/
theorem readChunk_outcome (id : UInt64) (nodes : List MetaStorageNode) (p : Progress) :
    (readChunk id nodes).Ensures (self.steps (some i))
      (fun value p' =>
        value = (List.range' p.contacted.length nodes.length).findSome? (self.readAt i) ∧
        p'.contacted = p.contacted ++
          (nodes.take ((List.range' p.contacted.length nodes.length).findIdx
            (fun j => (self.readAt i j).isSome) + 1)).map (·.address)) p := by
  induction nodes generalizing p with
  | nil => exact ⟨rfl, (List.append_nil _).symm⟩
  | cons node nodes ih =>
      -- the replica has not been read, and the others are tried behind it
      have hnext : ∀ q : Progress, q.contacted = p.contacted ++ [node.address] →
          self.readAt i p.contacted.length = none →
          (readChunk id nodes).Ensures (self.steps (some i)) (fun value p' =>
            value = (List.range' p.contacted.length (nodes.length + 1)).findSome?
              (self.readAt i) ∧
            p'.contacted = p.contacted ++ ((node :: nodes).take
              ((List.range' p.contacted.length (nodes.length + 1)).findIdx
                (fun j => (self.readAt i j).isSome) + 1)).map (·.address)) q := by
        intro q hq hnone
        refine (ih q).mono fun value p' hvalue => ?_
        rw [hq, List.length_append, List.length_singleton] at hvalue
        rw [List.range'_succ, List.findSome?_cons, List.findIdx_cons, hnone]
        refine ⟨hvalue.1, ?_⟩
        rw [hvalue.2, List.append_assoc]
        rfl
      unfold readChunk
      refine .of_bind ((getOrConnect_outcome node.address p).mono fun connected q hq => ?_)
      rcases hq with ⟨rfl, hconnected⟩
      cases connected with
      | error error =>
          refine hnext _ rfl ?_
          rw [readAt]
          split
          · rename_i hconnects
            rw [hconnects] at hconnected
            cases hconnected
          · rfl
      | ok value =>
          have hconnects : self.connects i p.contacted.length = true := by
            by_contra hnot
            rw [if_neg hnot] at hconnected
            cases hconnected
          refine .of_bind ((retryRead_outcome node.address id 2 _).mono fun result q hq => ?_)
          have hreadAt : Reports (self.readAt i p.contacted.length)
              (result.map (·.chunkBytes)) := by
            rw [readAt, if_pos hconnects, List.range_eq_range']
            have hreports := hq.2
            rw [List.length_append, List.length_singleton, Nat.add_sub_cancel] at hreports
            exact hreports
          cases result with
          | ok resp =>
              have hread := reports_ok_iff.mp hreadAt
              rw [List.length_cons, List.range'_succ, List.findSome?_cons, List.findIdx_cons, hread]
              exact ⟨rfl, hq.1⟩
          | error status => exact hnext q hq.1 (reports_error_iff.mp hreadAt)

/-- A chunk is read at its first readable replica, and no replica behind it is contacted. -/
theorem readChunk_piece (item : MetaChunk × Nat) {p : Progress} (hp : p.contacted = []) :
    (readChunk item.1.id item.1.storageNodes).Ensures (self.steps (some item.2))
      (fun value p' => value = self.piece item ∧ p'.contacted = self.contacted item) p := by
  refine (readChunk_outcome item.1.id item.1.storageNodes p).mono fun value p' hvalue => ?_
  rw [hp, List.length_nil, ← List.range_eq_range', List.nil_append] at hvalue
  exact hvalue

/-- The task of a chunk ends with the piece that the pattern gives it. -/
theorem readTask_piece (item : MetaChunk × Nat) {p : Progress} (hp : p.contacted = []) :
    (readTask item.1).Ensures (self.steps (some item.2))
      (fun result p' => Reports (self.piece item) result ∧ p'.contacted = self.contacted item)
      p := by
  refine .of_bind ((readChunk_piece item hp).mono fun value p' hvalue => ?_)
  cases value with
  | none => exact ⟨hvalue.1.symm, hvalue.2⟩
  | some bytes => exact ⟨hvalue.1.symm, hvalue.2⟩

/-! ## Reading all chunks -/

/-- The pieces of a stream: all of them, or those in front of the first unreadable chunk. -/
def Streams (self : Outcomes) (items : List (MetaChunk × Nat)) (body : StreamBody) : Prop :=
  (∃ pieces, items.mapM self.piece = some pieces ∧ body = ⟨pieces, none⟩) ∨
    ∃ before item after pieces error, items = before ++ item :: after ∧
      before.mapM self.piece = some pieces ∧ self.piece item = none ∧ body = ⟨pieces, some error⟩

/-- A chunk that is read comes before the chunks behind it. -/
theorem Streams.cons {item : MetaChunk × Nat} {items : List (MetaChunk × Nat)} {bytes : Bytes}
    {body : StreamBody} (hitem : self.piece item = some bytes) (h : self.Streams items body) :
    self.Streams (item :: items) { body with yields := bytes :: body.yields } := by
  rcases h with
    ⟨pieces, hpieces, rfl⟩ | ⟨before, other, after, pieces, error, rfl, hpieces, hother, rfl⟩
  · refine .inl ⟨bytes :: pieces, ?_, rfl⟩
    rw [List.mapM_cons, hitem, hpieces]
    rfl
  · refine .inr ⟨item :: before, other, after, bytes :: pieces, error, rfl, ?_, hother, rfl⟩
    rw [List.mapM_cons, hitem, hpieces]
    rfl

/-- A stream yields the pieces up to the first chunk that cannot be read. -/
theorem streamTagged_streams {items : List (MetaChunk × Nat)}
    (hnodup : (items.map Prod.snd).Nodup) {s : Option Nat → Progress}
    (hs : ∀ item ∈ items, (s (some item.2)).contacted = []) :
    (streamTagged items).Ensures (Apart self.steps)
      (fun body s' => self.Streams items body ∧
        (∀ item ∈ items, (s' (some item.2)).contacted <+: self.contacted item) ∧
        ∀ i, i ∉ items.map Prod.snd → s' (some i) = s (some i)) s := by
  induction items generalizing s with
  | nil => exact ⟨.inl ⟨[], rfl, rfl⟩, by simp, fun _ _ => rfl⟩
  | cons item items ih =>
      rw [List.map_cons, List.nodup_cons] at hnodup
      refine .of_bind ((readChunk_piece item (hs item List.mem_cons_self)).tag.mono
        fun value s₁ hvalue => ?_)
      rcases hvalue with ⟨⟨hpiece, hcontacted⟩, hframe⟩
      have hothers : ∀ i, i ≠ item.2 → s₁ (some i) = s (some i) :=
        fun i hi => hframe (some i) (by simpa using hi)
      have hrest : ∀ other ∈ items, s₁ (some other.2) = s (some other.2) := by
        intro other hother
        refine hothers other.2 fun heq => hnodup.1 ?_
        rw [← heq]
        exact List.mem_map_of_mem hother
      cases value with
      | none =>
          refine ⟨.inr ⟨[], item, items, [], _, rfl, rfl, hpiece.symm, rfl⟩, ?_, ?_⟩
          · intro other hother
            rcases List.mem_cons.mp hother with rfl | hmem
            · rw [hcontacted]
            · rw [hrest other hmem, hs other hother]
              exact List.nil_prefix
          · intro i hi
            rw [List.map_cons, List.mem_cons, not_or] at hi
            exact hothers i hi.1
      | some bytes =>
          have hs₁ : ∀ other ∈ items, (s₁ (some other.2)).contacted = [] := by
            intro other hother
            rw [hrest other hother]
            exact hs other (List.mem_cons_of_mem _ hother)
          refine .of_bind ((ih hnodup.2 hs₁).mono fun body s₂ hbody => ?_)
          rcases hbody with ⟨hstreams, hprefix, hframe₂⟩
          refine ⟨hstreams.cons hpiece.symm, ?_, ?_⟩
          · intro other hother
            rcases List.mem_cons.mp hother with rfl | hmem
            · rw [hframe₂ _ hnodup.1, hcontacted]
            · exact hprefix other hmem
          · intro i hi
            rw [List.map_cons, List.mem_cons, not_or] at hi
            rw [hframe₂ i hi.2, hothers i hi.1]

theorem items_nodup (self : Outcomes) : (self.items.map Prod.snd).Nodup := by
  rw [items, List.zipIdx_map_snd]
  exact List.nodup_range'

/-- Each joined task ends with its own piece, whatever the order of their calls. -/
theorem joinTagged_pieces (self : Outcomes) {s : Option Nat → Progress}
    (hs : ∀ item ∈ self.items, (s (some item.2)).contacted = []) :
    (joinTagged (self.items.map fun item => (readTask item.1).tag (some item.2))).Ensures
      (Apart self.steps)
      (fun results s' => List.Forall₂ (fun item result => Reports (self.piece item) result ∧
        (s' (some item.2)).contacted = self.contacted item) self.items results) s := by
  have hnodup : (self.items.map fun item => some item.2).Nodup := by
    have hmap := self.items_nodup.map (Option.some_injective Nat)
    rwa [List.map_map] at hmap
  have hmem : (none : Option Nat) ∉ self.items.map fun item => some item.2 := by
    intro hmem
    rcases List.mem_map.mp hmem with ⟨item, _, hitem⟩
    cases hitem
  have hturn : ∀ x (reply : Call.turn.Reply) x',
      self.steps none x Call.turn reply x' → x' = x := fun _ _ _ h => h
  exact Library.Program.Ensures.joinAll_apart hturn hnodup hmem
    fun item hitem => readTask_piece item (hs item hitem)

/-- The answers of the metadata node. -/
theorem getObject_outcome (name : String) (s : Option Nat → Progress) :
    ((getObject name).tag none).Ensures (Apart self.steps)
      (fun found s' => found = .ok self.answer ∧ ∀ i, s' (some i) = s (some i)) s := by
  have hfound : (getObject name).Ensures (self.steps none)
      (fun found _ => found = .ok self.answer) (s none) := by
    rintro found _ ⟨⟨object, rfl⟩, rfl⟩
    rintro resolved _ ⟨rfl, rfl⟩
    rfl
  exact hfound.tag.mono fun found s' hs' => ⟨hs'.1, fun i => hs'.2 (some i) (by simp)⟩

/-- The JSON download has all pieces or fails. -/
theorem json_outcome {lib : Library} {name : String}
    (hvalid : validateObjectName lib name = .ok ()) :
    (Download.json.tagged lib name).Ensures (Apart self.steps)
      (fun response s' =>
        Reports ((self.items.mapM self.piece).map fun pieces =>
          (⟨lib.encode pieces.flatten⟩ : GetObjectResponsePayload)) response ∧
        ∀ item ∈ self.items, (s' (some item.2)).contacted = self.contacted item)
      Progress.start := by
  rw [Download.tagged, hvalid]
  refine .of_bind ((getObject_outcome name _).mono fun found s hfound => ?_)
  rcases hfound with ⟨rfl, hs⟩
  have hstart : ∀ item ∈ self.items, (s (some item.2)).contacted = [] :=
    fun item _ => by rw [hs]; rfl
  refine .of_bind ((self.joinTagged_pieces hstart).mono fun results s' hresults => ?_)
  have hcollected := collect_reports (hresults.imp fun _ _ h => h.1)
  have hcontacted := ((List.forall₂_and_left _ _).mp (hresults.imp fun _ _ h => ⟨h.2, h.1⟩)).1
  cases hresult : collect results with
  | error error =>
      rw [hresult, reports_error_iff, Option.map_eq_none_iff] at hcollected
      refine ⟨?_, hcontacted⟩
      rw [hcollected]
      rfl
  | ok chunkData =>
      rw [hresult] at hcollected
      rcases Option.map_eq_some_iff.mp hcollected with ⟨pieces, hpieces, rfl⟩
      refine ⟨?_, hcontacted⟩
      rw [hpieces]
      rfl

/-- The streamed download yields the pieces up to the first failure. -/
theorem stream_outcome {lib : Library} {name : String}
    (hvalid : validateObjectName lib name = .ok ()) :
    (Download.stream.tagged lib name).Ensures (Apart self.steps)
      (fun response s' => (∃ body, response = .ok body ∧ self.Streams self.items body) ∧
        ∀ item ∈ self.items, (s' (some item.2)).contacted <+: self.contacted item)
      Progress.start := by
  rw [Download.tagged, hvalid]
  refine .of_bind ((getObject_outcome name _).mono fun found s hfound => ?_)
  rcases hfound with ⟨rfl, hs⟩
  have hstart : ∀ item ∈ self.items, (s (some item.2)).contacted = [] :=
    fun item _ => by rw [hs]; rfl
  refine .of_bind ((streamTagged_streams self.items_nodup hstart).mono fun body s' hbody => ?_)
  exact ⟨⟨body, rfl, hbody.1⟩, hbody.2.1⟩

/-! ## Both run to their end -/

/-- The calls of the tagged downloads. -/
def Asked (request : Option Nat × Call) : Prop :=
  match request with
  | (none, .metadata (.lookupObject _)) | (none, .metadata (.resolveObject _)) => True
  | (none, .turn) => True
  | (none, _) => False
  | (some _, call) => Probes call

theorem asked_of_probes {request : Option Nat × Call}
    (h : request.1 = some i ∧ Probes request.2) : Asked request := by
  rcases request with ⟨label, call⟩
  rcases h with ⟨rfl, hcall⟩
  exact hcall

theorem streamTagged_asked (items : List (MetaChunk × Nat)) : (streamTagged items).Only Asked := by
  induction items with
  | nil => trivial
  | cons item items ih =>
      refine (((readChunk_probes item.1.id item.1.storageNodes).tag (some item.2)).mono
        fun _ => asked_of_probes).of_bind fun value => ?_
      cases value with
      | none => trivial
      | some bytes => exact ih.of_bind fun _ => trivial

theorem readTagged_asked (lib : Library) (chunks : List MetaChunk) (download : Download) :
    (download.readTagged lib chunks).Only Asked := by
  cases download with
  | json =>
      have hjoined : (joinTagged (chunks.zipIdx.map fun item =>
          ((readTask item.1).tag (some item.2) : ByChunk (HttpResult Bytes)))).Only Asked := by
        refine Library.Program.Only.joinAll trivial fun task htask => ?_
        rcases List.mem_map.mp htask with ⟨item, _, rfl⟩
        exact ((readTask_probes item.1).tag (some item.2)).mono fun _ => asked_of_probes
      refine hjoined.of_bind fun results => ?_
      cases collect results <;> trivial
  | stream => exact (streamTagged_asked chunks.zipIdx).of_bind fun _ => trivial

/-- A download only makes calls that the pattern answers. -/
theorem tagged_asked (lib : Library) (name : String) (download : Download) :
    (download.tagged lib name).Only Asked := by
  rw [Download.tagged]
  cases validateObjectName lib name with
  | error msg => trivial
  | ok value =>
      have hobject : ((getObject name).tag none : ByChunk _).Only Asked := by
        refine ⟨trivial, fun found => ?_⟩
        change Except Status StorageMetadata.MetaObject at found
        cases found with
        | error status => trivial
        | ok object => exact ⟨trivial, fun _ => trivial⟩
      refine hobject.of_bind fun found => ?_
      cases found with
      | error err => trivial
      | ok response => exact readTagged_asked lib _ download

/-- There is a reply to every call. -/
theorem asked_answered (self : Outcomes) (s : Option Nat → Progress)
    (request : Option Nat × Call) (h : Asked request) :
    ∃ reply s', Apart self.steps s request reply s' := by
  have hlocal : ∃ reply x, self.steps request.1 (s request.1) request.2 reply x := by
    rcases request with ⟨label, call⟩
    cases label with
    | none =>
        cases call with
        | metadata call =>
            cases call with
            | lookupObject _ => exact ⟨.ok ⟨"", 0, [], 0⟩, _, ⟨_, rfl⟩, rfl⟩
            | resolveObject _ => exact ⟨.ok self.answer, _, rfl, rfl⟩
            | _ => exact h.elim
        | turn => exact ⟨true, _, rfl⟩
        | _ => exact h.elim
    | some i =>
        cases call with
        | cachedConnection address => exact ⟨false, _, nofun, rfl⟩
        | connectCached address =>
            cases hconnects : self.connects i ((s (some i)).contacted.length - 1) with
            | false => exact ⟨.error "", _, by rw [hconnects]; rfl, rfl⟩
            | true => exact ⟨.ok (), _, by rw [hconnects]; rfl, rfl⟩
        | storageNode address call =>
            cases call with
            | readChunk id =>
                cases hread : self.reads i ((s (some i)).contacted.length - 1)
                    (s (some i)).attempts with
                | none => exact ⟨.error ⟨.unavailable, ""⟩, _, hread, rfl⟩
                | some bytes => exact ⟨.ok ⟨id, bytes, 0⟩, _, hread, rfl⟩
            | _ => exact h.elim
        | _ => exact h.elim
  rcases hlocal with ⟨reply, x, hx⟩
  exact ⟨reply, _, x, hx, rfl⟩

/-! ## Agreement -/

/-- Every chunk is readable, and both responses are their pieces in order. -/
def Complete (self : Outcomes) (lib : Library) (json : Download.json.Response)
    (stream : Download.stream.Response) : Prop :=
  ∃ pieces payload body, self.items.mapM self.piece = some pieces ∧
    json = .ok payload ∧ lib.decode payload.bytes = .ok pieces.flatten ∧
    stream = .ok body ∧ body.error = none ∧ body.yields.flatten = pieces.flatten

/-- Some chunk is not readable: the one response is an error, the other one ends in an error
behind the pieces of the chunks in front of it. -/
def Broken (self : Outcomes) (json : Download.json.Response)
    (stream : Download.stream.Response) : Prop :=
  ∃ before item after pieces, self.items = before ++ item :: after ∧
    before.mapM self.piece = some pieces ∧ self.piece item = none ∧
    (∃ error, json = .error error) ∧
    ∃ body, stream = .ok body ∧ body.error.isSome ∧ body.yields = pieces

/-- The two outcomes for the same pieces agree. -/
theorem agreement (self : Outcomes) {lib : Library} (hlib : lib.Lawful)
    {json : Download.json.Response} {stream : Download.stream.Response} {body : StreamBody}
    (hjson : Reports ((self.items.mapM self.piece).map fun pieces =>
      (⟨lib.encode pieces.flatten⟩ : GetObjectResponsePayload)) json)
    (hstream : stream = .ok body) (hbody : self.Streams self.items body) :
    self.Complete lib json stream ∨ self.Broken json stream := by
  rcases hbody with ⟨pieces, hpieces, rfl⟩ |
    ⟨before, item, after, pieces, error, hitems, hpieces, hitem, rfl⟩
  · rw [hpieces] at hjson
    cases json with
    | error error => cases hjson
    | ok payload =>
        cases hjson
        exact .inl ⟨pieces, _, _, hpieces, rfl, hlib.decode_encode _, hstream, rfl, rfl⟩
  · cases json with
    | error found =>
        exact .inr ⟨before, item, after, pieces, hitems, hpieces, hitem, ⟨found, rfl⟩, _, hstream,
          rfl, rfl⟩
    | ok payload =>
        rcases Option.map_eq_some_iff.mp hjson with ⟨all, hall, _⟩
        have hsome := mapM_isSome_iff.mp (by rw [hall]; rfl) item (by rw [hitems]; simp)
        rw [hitem] at hsome
        cases hsome

end Outcomes

/-- The tagged programs are the two handlers.  Whatever comes of the attempts, both run to an
end; they return the same pieces or both end in an error, and neither contacts a replica behind
the first readable one of a chunk. -/
theorem downloads_agree {lib : Library} (hlib : lib.Lawful) {name : String}
    (hvalid : validateObjectName lib name = .ok ()) (outcomes : Outcomes) :
    (∀ download : Download, (download.tagged lib name).forget = download.handler lib name ∧
      ∃ response s, (download.tagged lib name).Runs (Apart outcomes.steps) Progress.start
        response s) ∧
    ∀ json s, (Download.json.tagged lib name).Runs (Apart outcomes.steps) Progress.start json s →
    ∀ stream s', (Download.stream.tagged lib name).Runs (Apart outcomes.steps) Progress.start
        stream s' →
      (outcomes.Complete lib json stream ∨ outcomes.Broken json stream) ∧
      ∀ item ∈ outcomes.items, (s (some item.2)).contacted <+: outcomes.contacted item ∧
        (s' (some item.2)).contacted <+: outcomes.contacted item := by
  refine ⟨fun download => ⟨download.forget_tagged lib name, ?_⟩, ?_⟩
  · exact Library.Program.exists_runs (Outcomes.tagged_asked lib name download)
      (fun s request h => outcomes.asked_answered s request h) Progress.start
  · intro json s hjson stream s' hstream
    rcases hjson.ensures (Outcomes.json_outcome hvalid) with ⟨hreports, hcontacted⟩
    rcases hstream.ensures (Outcomes.stream_outcome hvalid) with ⟨⟨body, hbody, hstreams⟩, hprefix⟩
    refine ⟨outcomes.agreement hlib hreports hbody hstreams, fun item hitem => ?_⟩
    exact ⟨hcontacted item hitem ▸ List.prefix_rfl, hprefix item hitem⟩

/-- A download whose first replica does not connect, and whose second answers at last. -/
theorem downloads_agree_secondReplica :
    let outcomes : Outcomes :=
      { answer := ⟨7, [⟨10, 7, [⟨1, "http://node-a:50051"⟩, ⟨2, "http://node-b:50051"⟩]⟩]⟩
        connects := fun _ j => j == 1
        reads := fun _ _ k => if k = 2 then some [104] else none }
    ∃ json s stream s',
      (Download.json.tagged plainLibrary "a").Runs (Apart outcomes.steps) Progress.start json s ∧
      (Download.stream.tagged plainLibrary "a").Runs (Apart outcomes.steps) Progress.start stream
        s' ∧
      (outcomes.Complete plainLibrary json stream ∨ outcomes.Broken json stream) := by
  intro outcomes
  have hvalid : validateObjectName plainLibrary "a" = .ok () := by decide +kernel
  rcases downloads_agree plainLibrary_lawful hvalid outcomes with ⟨hruns, hagree⟩
  rcases (hruns .json).2 with ⟨json, s, hjson⟩
  rcases (hruns .stream).2 with ⟨stream, s', hstream⟩
  exact ⟨json, s, stream, s', hjson, hstream, (hagree json s hjson stream s' hstream).1⟩

end ApiGateway
end ObjectStore
