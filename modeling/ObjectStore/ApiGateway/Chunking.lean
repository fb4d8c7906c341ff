import ObjectStore.ApiGateway.Upload

/-!
# API gateway - How the two uploads cut a body

The JSON handler cuts the whole body.  The streaming handler sees it in fragments of any
lengths and carries what does not fill a chunk over to the next fragment.  When every call
succeeds both write the same payloads.

Main definitions:

- `Succeeding`: calls that are answered in any way but with an error.
- `written`: the payloads that have been sent to storage nodes.
- `Carried`: what the streaming handler has written, buffered and received.

Main results:

- Theorem `chunks_eq_of_full`: whole pieces and a short rest are the chunks of a body.
- Theorem `streamField_ensures`: the loop over the fragments.
- Theorem `streaming_eq_whole_body`: the two handlers compared.
-/

namespace ObjectStore
namespace ApiGateway

open Deployment (Call Event Log)
open StorageNode (ChunkSize)

/-! ## Cutting a body -/

/-- With enough fuel the number of steps does not matter. -/
theorem chunksFrom_eq (n : Nat) (hn : 0 < n) (fuel fuel' : Nat) (bytes : Bytes)
    (hfuel : bytes.length ≤ fuel) (hfuel' : bytes.length ≤ fuel') :
    chunksFrom n fuel bytes = chunksFrom n fuel' bytes := by
  induction fuel generalizing fuel' bytes with
  | zero =>
      have hnil : bytes = [] := List.length_eq_zero_iff.mp (by omega)
      subst hnil
      cases fuel' <;> rfl
  | succ fuel ih =>
      cases bytes with
      | nil => cases fuel' <;> rfl
      | cons byte bytes =>
          cases fuel' with
          | zero => simp at hfuel'
          | succ fuel' =>
              simp only [chunksFrom]
              rw [ih fuel' ((byte :: bytes).drop n)]
              · simp only [List.length_drop, List.length_cons] at hfuel ⊢
                omega
              · simp only [List.length_drop, List.length_cons] at hfuel' ⊢
                omega

@[simp]
theorem chunks_nil (n : Nat) : chunks n [] = [] := rfl

/-- The first chunk, and the chunks of the rest. -/
theorem chunks_of_ne_nil {n : Nat} (hn : 0 < n) {bytes : Bytes} (hne : bytes ≠ []) :
    chunks n bytes = bytes.take n :: chunks n (bytes.drop n) := by
  cases bytes with
  | nil => exact absurd rfl hne
  | cons byte bytes =>
      have hlength : ((byte :: bytes).drop n).length ≤ bytes.length := by
        simp only [List.length_drop, List.length_cons]
        omega
      change (byte :: bytes).take n :: chunksFrom n bytes.length ((byte :: bytes).drop n) = _
      rw [chunksFrom_eq n hn bytes.length _ _ hlength (Nat.le_refl _)]
      rfl

/-- The chunk that is left over at the end, if any. -/
def lastChunk (rest : Bytes) : List Bytes :=
  if rest.isEmpty then [] else [rest]

/-- A body shorter than a chunk is one chunk, unless it is empty. -/
theorem chunks_of_short {n : Nat} (hn : 0 < n) {rest : Bytes} (hshort : rest.length < n) :
    chunks n rest = lastChunk rest := by
  cases rest with
  | nil => rfl
  | cons byte rest =>
      have hle : (byte :: rest).length ≤ n := Nat.le_of_lt hshort
      rw [chunks_of_ne_nil hn (List.cons_ne_nil _ _), List.take_of_length_le hle,
        List.drop_eq_nil_of_le hle, chunks_nil]
      rfl

/-- Pieces of full length and a short rest are the chunks of what they make up. -/
theorem chunks_eq_of_full {n : Nat} (hn : 0 < n) {pieces : List Bytes} {rest : Bytes}
    (hfull : ∀ piece ∈ pieces, piece.length = n) (hshort : rest.length < n) :
    chunks n (pieces.flatten ++ rest) = pieces ++ lastChunk rest := by
  induction pieces with
  | nil => exact chunks_of_short hn hshort
  | cons piece pieces ih =>
      have hpiece : piece.length = n := hfull piece List.mem_cons_self
      have hrest := ih fun other hother => hfull other (List.mem_cons_of_mem _ hother)
      have hne : (piece :: pieces).flatten ++ rest ≠ [] := by
        intro hnil
        have hlength := congrArg List.length hnil
        simp only [List.flatten_cons, List.length_append, List.length_nil] at hlength
        omega
      have htake : ((piece :: pieces).flatten ++ rest).take n = piece := by
        rw [List.flatten_cons, List.append_assoc, ← hpiece, List.take_left]
      have hdrop : ((piece :: pieces).flatten ++ rest).drop n = pieces.flatten ++ rest := by
        rw [List.flatten_cons, List.append_assoc, ← hpiece, List.drop_left]
      rw [chunks_of_ne_nil hn hne, htake, hdrop, hrest]
      rfl

/-- The chunks make up the body. -/
theorem flatten_chunks {n : Nat} (hn : 0 < n) (bytes : Bytes) :
    (chunks n bytes).flatten = bytes := by
  induction hlength : bytes.length using Nat.strong_induction_on generalizing bytes with
  | _ length ih =>
      by_cases hne : bytes = []
      · rw [hne]
        rfl
      · have hpos := List.length_pos_iff.mpr hne
        have hshorter : (bytes.drop n).length < length := by
          rw [List.length_drop]
          omega
        rw [chunks_of_ne_nil hn hne, List.flatten_cons, ih _ hshorter _ rfl, List.take_append_drop]

/-! ## Calls that succeed -/

/-- A reply that is not an error.  There is a storage node, and its chunks have the size
`chunkSize`. -/
def Succeeds (chunkSize : ChunkSize) : (call : Call) → call.Reply → Prop
  | .metadata .listStorageNodes, reply => ∃ node nodes, reply = .ok (node :: nodes)
  | .storageNode _ .getChunkSize, reply => reply = .ok chunkSize
  | call, reply => ¬ call.Fails reply

/-- Every call succeeds and is recorded. -/
def Succeeding (chunkSize : ChunkSize) : Library.Step Log Call Call.Reply :=
  fun log call reply log' => Succeeds chunkSize call reply ∧ log' = log ++ [⟨call, reply⟩]

/-- The data that a call sends to a storage node. -/
def sentBytes : Event → Option Bytes
  | ⟨.storageNode _ (.writeChunk _ bytes), _⟩ => some bytes
  | _ => none

/-- The payloads written so far. -/
def written (log : Log) : List Bytes :=
  log.filterMap sentBytes

/-- The object, the checksum and the size that a call records. -/
def sentSummary : Event → Option (String × UInt32 × UInt64)
  | ⟨.metadata (.updateObjectChecksum name checksum totalSize), _⟩ =>
      some (name, checksum, totalSize)
  | _ => none

/-- The checksums and sizes recorded after the data. -/
def summaries (log : Log) : List (String × UInt32 × UInt64) :=
  log.filterMap sentSummary

/-- `log'` extends `log` by calls that write `pieces` and record `totals`. -/
structure Adds (pieces : List Bytes) (totals : List (String × UInt32 × UInt64)) (log log' : Log) :
    Prop where
  written : written log' = written log ++ pieces
  summaries : summaries log' = summaries log ++ totals

variable {chunkSize : ChunkSize} {lib : Library} {name : String} {log log' log'' : Log}
  {pieces pieces' : List Bytes} {totals totals' : List (String × UInt32 × UInt64)}

theorem Adds.refl (log : Log) : Adds [] [] log log :=
  ⟨(List.append_nil _).symm, (List.append_nil _).symm⟩

/-- What two parts of a run add is added one after the other. -/
theorem Adds.trans (h : Adds pieces totals log log') (h' : Adds pieces' totals' log' log'') :
    Adds (pieces ++ pieces') (totals ++ totals') log log'' where
  written := by rw [h'.written, h.written, List.append_assoc]
  summaries := by rw [h'.summaries, h.summaries, List.append_assoc]

/-- A call that succeeds adds what it sends. -/
theorem Succeeding.adds {call : Call} {reply : call.Reply}
    (h : Succeeding chunkSize log call reply log') :
    Adds (sentBytes ⟨call, reply⟩).toList (sentSummary ⟨call, reply⟩).toList log log' := by
  rw [h.2]
  constructor
  · rw [written, List.filterMap_append, written]
    cases hevent : sentBytes ⟨call, reply⟩ <;> simp [hevent]
  · rw [summaries, List.filterMap_append, summaries]
    cases hevent : sentSummary ⟨call, reply⟩ <;> simp [hevent]

theorem Succeeding.metadata_ok {call : Deployment.MetadataCall}
    {reply : Except Status call.Response}
    (h : Succeeding chunkSize log (.metadata call) reply log') : ∃ value, reply = .ok value := by
  cases reply with
  | ok value => exact ⟨value, rfl⟩
  | error status =>
      cases call with
      | listStorageNodes =>
          rcases h.1 with ⟨node, nodes, hreply⟩
          cases hreply
      | _ => exact absurd ⟨status, rfl⟩ h.1

theorem Succeeding.connectCached_ok {address : String} {reply : Except String Unit}
    (h : Succeeding chunkSize log (.connectCached address) reply log') : reply = .ok () := by
  cases reply with
  | ok value => rfl
  | error message => exact absurd ⟨message, rfl⟩ h.1

theorem Succeeding.connect_ok {address : String} {reply : Except String Unit}
    (h : Succeeding chunkSize log (.connect address) reply log') : reply = .ok () := by
  cases reply with
  | ok value => rfl
  | error message => exact absurd ⟨message, rfl⟩ h.1

theorem Succeeding.writeChunk_ok {address : String} {id : UInt64} {bytes : Bytes}
    {reply : Except Status UInt64}
    (h : Succeeding chunkSize log (.storageNode address (.writeChunk id bytes)) reply log') :
    ∃ value, reply = .ok value := by
  cases reply with
  | ok value => exact ⟨value, rfl⟩
  | error status => exact absurd ⟨status, rfl⟩ h.1

/-! ## The loops -/

/-- A connection adds nothing. -/
theorem getOrConnect_adds (address : String) :
    (getOrConnect address).Ensures (Succeeding chunkSize)
      (fun value log' => value = .ok () ∧ Adds [] [] log log') log := by
  unfold getOrConnect
  intro cached log₁ hcached
  have h₁ := hcached.adds
  change Bool at cached
  cases cached with
  | true => exact ⟨rfl, h₁⟩
  | false =>
      intro connected log₂ hconnected
      have h₂ := h₁.trans hconnected.adds
      cases hconnected.connectCached_ok
      exact ⟨rfl, h₂⟩

/-- One piece is written. -/
theorem storeChunk_adds (lib : Library) (name : String) (chunk : Bytes) :
    (storeChunk lib name chunk).Ensures (Succeeding chunkSize)
      (fun value log' => value = .ok () ∧ Adds [chunk] [] log log') log := by
  unfold storeChunk
  intro allocated log₁ hallocated
  have h₁ := hallocated.adds
  rcases hallocated.metadata_ok with ⟨alloc, rfl⟩
  change (getOrConnect alloc.storageNodeAddress >>= _).Ensures _ _ _
  refine .of_bind ((getOrConnect_adds alloc.storageNodeAddress).mono fun connected log₂ h₂ => ?_)
  rcases h₂ with ⟨rfl, h₂⟩
  intro reply log₃ hwritten
  have h₃ := (h₁.trans h₂).trans hwritten.adds
  rcases hwritten.writeChunk_ok with ⟨id, rfl⟩
  intro confirmed log₄ hconfirmed
  have h₄ := h₃.trans hconfirmed.adds
  rcases hconfirmed.metadata_ok with ⟨value, rfl⟩
  exact ⟨rfl, h₄⟩

/-- A flush writes its buffer as one payload. -/
theorem flushChunkToStorage_adds (lib : Library) (name : String) (buf : Bytes) :
    (flushChunkToStorage lib buf name).Ensures (Succeeding chunkSize)
      (fun value log' => value = .ok () ∧ Adds [buf] [] log log') log := by
  rw [flushChunkToStorage_eq]
  refine .of_bind ((storeChunk_adds lib name buf).mono ?_)
  rintro value log' ⟨rfl, hadds⟩
  exact ⟨rfl, hadds⟩

/-- The loop of the JSON handler writes the chunks one by one. -/
theorem putChunks_adds (lib : Library) (name : String) (chunked : List Bytes) :
    (putChunks lib name chunked).Ensures (Succeeding chunkSize)
      (fun value log' => value = .ok () ∧ Adds chunked [] log log') log := by
  induction chunked generalizing log with
  | nil => exact ⟨rfl, .refl log⟩
  | cons chunk chunked ih =>
      rw [putChunks_cons]
      refine .of_bind ((storeChunk_adds lib name chunk).mono ?_)
      rintro value log₁ ⟨rfl, hstored⟩
      refine (@ih log₁).mono fun value log₂ hrest => ?_
      exact ⟨hrest.1, hstored.trans hrest.2⟩

/-- The invariant of the streaming handler: what has been received is either written, in
pieces of full length, or still buffered. -/
structure Carried (n : Nat) (pieces : List Bytes) (buffer received : Bytes) : Prop where
  bytes : pieces.flatten ++ buffer = received
  full : ∀ piece ∈ pieces, piece.length = n

/-- A full buffer gives one piece, and the rest stays in the buffer. -/
theorem Carried.flush {n : Nat} {buffer received : Bytes}
    (h : Carried n pieces buffer received) (hlength : n ≤ buffer.length) :
    Carried n (pieces ++ [buffer.take n]) (buffer.drop n) received where
  bytes := by
    rw [← h.bytes]
    simp
  full := by
    intro piece hpiece
    rcases List.mem_append.mp hpiece with hpiece | hpiece
    · exact h.full piece hpiece
    · rw [List.mem_singleton.mp hpiece, List.length_take]
      omega

/-- A fragment goes to the end of the buffer. -/
theorem Carried.receive {n : Nat} {buffer received : Bytes}
    (h : Carried n pieces buffer received) (chunkData : Bytes) :
    Carried n pieces (buffer ++ chunkData) (received ++ chunkData) where
  bytes := by rw [← List.append_assoc, h.bytes]
  full := h.full

/-- The drain loop flushes until the buffer is shorter than a chunk. -/
theorem flushFull_adds (lib : Library) (name : String) {n : Nat} (hn : 0 < n) (fuel : Nat)
    {buffer received : Bytes} (hfuel : buffer.length ≤ fuel)
    (h : Carried n pieces buffer received) :
    (flushFull lib name n fuel buffer).Ensures (Succeeding chunkSize)
      (fun value log' => ∃ flushed buffer', value = .ok buffer' ∧ buffer'.length < n ∧
        Carried n (pieces ++ flushed) buffer' received ∧ Adds flushed [] log log') log := by
  induction fuel generalizing buffer pieces log with
  | zero =>
      refine ⟨[], buffer, rfl, by omega, ?_, .refl log⟩
      rw [List.append_nil]
      exact h
  | succ fuel ih =>
      unfold flushFull
      split
      · rename_i hlength
        refine .of_bind ((flushChunkToStorage_adds lib name (buffer.take n)).mono
          fun value log₁ h₁ => ?_)
        rcases h₁ with ⟨rfl, h₁⟩
        have hshorter : (buffer.drop n).length ≤ fuel := by
          rw [List.length_drop]
          omega
        refine (ih hshorter (h.flush hlength)).mono fun value log₂ h₂ => ?_
        rcases h₂ with ⟨flushed, buffer', hvalue, hshort, hcarried, hadds⟩
        refine ⟨buffer.take n :: flushed, buffer', hvalue, hshort, ?_, h₁.trans hadds⟩
        rw [List.append_assoc] at hcarried
        exact hcarried
      · rename_i hlength
        refine ⟨[], buffer, rfl, by omega, ?_, .refl log⟩
        rw [List.append_nil]
        exact h

/-- The loop over the fragments.  It ends well exactly when the whole fits. -/
theorem streamField_ensures (lib : Library) (name : String) {n : Nat} (hn : 0 < n)
    (fragments : List Bytes) {buffer received : Bytes} (hshort : buffer.length < n)
    (hsize : received.length ≤ MAX_OBJECT_SIZE) (h : Carried n pieces buffer received) :
    (streamField lib name n buffer received (fragments.map .ok)).Ensures (Succeeding chunkSize)
      (fun value log' =>
        if (received ++ fragments.flatten).length ≤ MAX_OBJECT_SIZE then
          ∃ flushed buffer', value = .ok (buffer', received ++ fragments.flatten) ∧
            buffer'.length < n ∧
            Carried n (pieces ++ flushed) buffer' (received ++ fragments.flatten) ∧
            Adds flushed [] log log'
        else ∃ msg, value = .error (.payloadTooLarge, msg)) log := by
  induction fragments generalizing buffer received pieces log with
  | nil =>
      simp only [List.flatten_nil, List.append_nil, if_pos hsize]
      refine ⟨[], buffer, rfl, hshort, ?_, .refl log⟩
      rw [List.append_nil]
      exact h
  | cons chunkData fragments ih =>
      have hwhole : received ++ (chunkData :: fragments).flatten =
          received ++ chunkData ++ fragments.flatten := by
        rw [List.flatten_cons, List.append_assoc]
      rw [hwhole, List.map_cons]
      unfold streamField
      dsimp only
      by_cases hlimit : MAX_OBJECT_SIZE < (received ++ chunkData).length
      · have hbeyond : ¬ (received ++ chunkData ++ fragments.flatten).length ≤
            MAX_OBJECT_SIZE := by
          rw [List.length_append]
          omega
        rw [if_pos hlimit]
        simp only [if_neg hbeyond]
        exact ⟨_, rfl⟩
      · rw [if_neg hlimit]
        refine .of_bind ((flushFull_adds lib name hn _ (Nat.le_refl _) (h.receive chunkData)).mono
          fun value log₁ h₁ => ?_)
        rcases h₁ with ⟨flushed, buffer', rfl, hshort', hcarried, hadds⟩
        refine (ih hshort' (by omega) hcarried).mono fun value log₂ h₂ => ?_
        split
        · rename_i hfits
          rw [if_pos hfits] at h₂
          rcases h₂ with ⟨flushed', buffer'', hvalue, hshort'', hcarried', hadds'⟩
          refine ⟨flushed ++ flushed', buffer'', hvalue, hshort'', ?_, hadds.trans hadds'⟩
          rw [← List.append_assoc]
          exact hcarried'
        · rename_i hbeyond
          rw [if_neg hbeyond] at h₂
          exact h₂

/-- The final flush writes what is left. -/
theorem flushRest_adds (lib : Library) (name : String) (buffer : Bytes) :
    (flushRest lib name buffer).Ensures (Succeeding chunkSize)
      (fun value log' => value = .ok () ∧ Adds (lastChunk buffer) [] log log') log := by
  unfold flushRest lastChunk
  split
  · exact ⟨rfl, .refl log⟩
  · exact flushChunkToStorage_adds lib name buffer

/-- The loop over some fragments is the loop over the first of them, and then over the
others. -/
def resumeField (lib : Library) (name : String) (n : Nat) (reads : List (Except String Bytes)) :
    HttpResult (Bytes × Bytes) → Deployment.Program (HttpResult (Bytes × Bytes))
  | .error error => pure (.error error)
  | .ok (buffer, received) => streamField lib name n buffer received reads

/-- The loop over fragments can be cut between any two of them. -/
theorem streamField_append (lib : Library) (name : String) (n : Nat) (buffer received : Bytes)
    (before after : List (Except String Bytes)) :
    streamField lib name n buffer received (before ++ after) =
      streamField lib name n buffer received before >>= resumeField lib name n after := by
  induction before generalizing buffer received with
  | nil => rfl
  | cons read before ih =>
      cases read with
      | error err => rfl
      | ok chunkData =>
          rw [List.cons_append, streamField, streamField]
          dsimp only
          split
          · rfl
          · rw [Library.Program.bind_assoc]
            congr 1
            funext flushed
            cases flushed with
            | error error => rfl
            | ok buffer => exact ih _ _

/-! ## The handlers -/

/-- The upload of `body` ends well exactly when it fits; then the chunks of the body have
been written and `totals` has been recorded. -/
def Completes (n : Nat) (body : Bytes) (totals : List (String × UInt32 × UInt64))
    (value : HttpResult PutObjectResponsePayload) (log : Log) : Prop :=
  ((∃ response, value = .ok response) ↔ body.length ≤ MAX_OBJECT_SIZE) ∧
    (body.length ≤ MAX_OBJECT_SIZE →
      value = .ok ⟨"upload complete", body.length⟩ ∧ written log = chunks n body ∧
        summaries log = totals)

/-- A body that is too large ends in an error. -/
theorem completes_of_error {n : Nat} {body : Bytes} {value : HttpResult PutObjectResponsePayload}
    (hsize : ¬ body.length ≤ MAX_OBJECT_SIZE) (hvalue : ∃ error, value = .error error) :
    Completes n body totals value log := by
  rcases hvalue with ⟨error, rfl⟩
  refine ⟨iff_of_false ?_ hsize, fun hfits => absurd hfits hsize⟩
  rintro ⟨response, hresponse⟩
  cases hresponse

/-- A body that fits ends well once its chunks have been written. -/
theorem completes_of_adds {n : Nat} {body : Bytes} (hsize : body.length ≤ MAX_OBJECT_SIZE)
    (h : Adds (chunks n body) totals [] log) :
    Completes n body totals (.ok ⟨"upload complete", body.length⟩) log :=
  ⟨iff_of_true ⟨_, rfl⟩ hsize, fun _ => ⟨rfl, h.written, h.summaries⟩⟩

theorem rollback_fails {α : Type} {error : StatusCode × String} :
    (rollback name error : Deployment.Program (HttpResult α)).Ensures (Succeeding chunkSize)
      (fun value _ => ∃ error, value = .error error) log :=
  fun _ _ _ => ⟨error, rfl⟩

/-- The JSON upload writes the chunks of the body. -/
theorem storeObject_completes (lib : Library) (name : String) {body : Bytes}
    (hsize : body.length ≤ MAX_OBJECT_SIZE) (h : Adds [] [] [] log) :
    (storeObject lib name body chunkSize).Ensures (Succeeding chunkSize)
      (Completes chunkSize.bytes body []) log := by
  unfold storeObject
  intro created log₁ hcreated
  have h₁ := h.trans hcreated.adds
  rcases hcreated.metadata_ok with ⟨value, rfl⟩
  change (putChunks lib name _ >>= _).Ensures _ _ _
  refine .of_bind ((putChunks_adds lib name _).mono fun stored log₂ h₂ => ?_)
  rcases h₂ with ⟨rfl, h₂⟩
  exact completes_of_adds hsize (h₁.trans h₂)

/-- The multipart upload writes the chunks of the body and records its checksum and size. -/
theorem streamObject_completes (lib : Library) (name : String) {multipart : Multipart}
    {field : Field} {fragments : List Bytes} (hfile : findFile multipart = .ok field)
    (hdata : field.data = fragments.map .ok) (h : Adds [] [] [] log) :
    (streamObject lib name multipart chunkSize).Ensures (Succeeding chunkSize)
      (Completes chunkSize.bytes fragments.flatten
        [(name, lib.crc32 fragments.flatten, UInt64.ofNat fragments.flatten.length)]) log := by
  unfold streamObject
  intro created log₁ hcreated
  have h₁ := h.trans hcreated.adds
  rcases hcreated.metadata_ok with ⟨value, rfl⟩
  simp only [hfile, hdata]
  have hstart : Carried chunkSize.bytes [] [] [] := ⟨rfl, by simp⟩
  have hempty : ([] : Bytes).length < chunkSize.bytes := chunkSize.positive
  change (streamField lib name _ _ _ _ >>= _).Ensures _ _ _
  refine .of_bind ((streamField_ensures lib name chunkSize.positive fragments hempty
    (Nat.zero_le _) hstart).mono fun streamed log₂ h₂ => ?_)
  rw [List.nil_append] at h₂
  split at h₂
  · rename_i hfits
    rcases h₂ with ⟨flushed, buffer, rfl, hshort, hcarried, h₂⟩
    change (flushRest lib name buffer >>= _).Ensures _ _ _
    refine .of_bind ((flushRest_adds lib name buffer).mono fun rest log₃ h₃ => ?_)
    rcases h₃ with ⟨rfl, h₃⟩
    intro updated log₄ hupdated
    rcases hupdated.metadata_ok with ⟨value, rfl⟩
    have hchunks : chunks chunkSize.bytes fragments.flatten = flushed ++ lastChunk buffer := by
      rw [← hcarried.bytes]
      exact chunks_eq_of_full chunkSize.positive hcarried.full hshort
    refine completes_of_adds hfits ?_
    rw [hchunks]
    have hadds := ((h₁.trans h₂).trans h₃).trans hupdated.adds
    simpa [sentBytes, sentSummary] using hadds
  · rename_i hbeyond
    rcases h₂ with ⟨msg, rfl⟩
    exact rollback_fails.mono fun value _ hvalue => completes_of_error hbeyond hvalue

/-- The handler of JSON uploads, for a valid name and payload. -/
theorem handlePutObject_completes (lib : Library) {payload : String} {body : Bytes}
    (hname : validateObjectName lib name = .ok ()) (hpayload : lib.decode payload = .ok body) :
    (handlePutObject lib name payload).Ensures (Succeeding chunkSize)
      (Completes chunkSize.bytes body []) [] := by
  unfold handlePutObject
  simp only [hname, hpayload]
  by_cases hsize : MAX_OBJECT_SIZE < body.length
  · rw [if_pos hsize]
    exact completes_of_error (by omega) ⟨_, rfl⟩
  · rw [if_neg hsize]
    intro listed log₁ hlisted
    have h₁ := (Adds.refl []).trans hlisted.adds
    rcases hlisted.1 with ⟨testNode, nodes, rfl⟩
    intro connected log₂ hconnected
    have h₂ := h₁.trans hconnected.adds
    cases hconnected.connect_ok
    intro sized log₃ hsized
    have h₃ := h₂.trans hsized.adds
    cases hsized.1
    exact storeObject_completes lib name (by omega) h₃

/-- The handler of multipart uploads, for a valid name and a body that is whole. -/
theorem handlePutObjectMultipart_completes (lib : Library) {multipart : Multipart}
    {field : Field} {fragments : List Bytes} (hname : validateObjectName lib name = .ok ())
    (hfile : findFile multipart = .ok field) (hdata : field.data = fragments.map .ok) :
    (handlePutObjectMultipart lib name multipart).Ensures (Succeeding chunkSize)
      (Completes chunkSize.bytes fragments.flatten
        [(name, lib.crc32 fragments.flatten, UInt64.ofNat fragments.flatten.length)]) [] := by
  unfold handlePutObjectMultipart
  simp only [hname]
  intro listed log₁ hlisted
  have h₁ := (Adds.refl []).trans hlisted.adds
  rcases hlisted.1 with ⟨testNode, nodes, rfl⟩
  intro connected log₂ hconnected
  have h₂ := h₁.trans hconnected.adds
  cases hconnected.connect_ok
  intro sized log₃ hsized
  have h₃ := h₂.trans hsized.adds
  cases hsized.1
  exact streamObject_completes lib name hfile hdata h₃

/-- Some reply succeeds. -/
theorem succeeding_answers (chunkSize : ChunkSize) (log : Log) (call : Call) :
    ∃ reply log', Succeeding chunkSize log call reply log' := by
  have hreply : ∃ reply, Succeeds chunkSize call reply := by
    have hok : ∀ {ε α : Type} (value : α),
        ¬ ∃ error : ε, (Except.ok value : Except ε α) = .error error := by
      rintro ε α value ⟨error, herror⟩
      cases herror
    cases call with
    | metadata call =>
        cases call with
        | listStorageNodes => exact ⟨.ok [⟨0, ""⟩], _, _, rfl⟩
        | allocateChunk _ _ => exact ⟨.ok ⟨0, "", 0⟩, hok _⟩
        | lookupObject _ => exact ⟨.ok ⟨"", 0, [], 0⟩, hok _⟩
        | resolveObject _ => exact ⟨.ok ⟨0, []⟩, hok _⟩
        | getStorageNode _ => exact ⟨.ok "", hok _⟩
        | listUnderReplicatedChunks _ => exact ⟨.ok [], hok _⟩
        | _ => exact ⟨.ok (), hok _⟩
    | storageNode address call =>
        cases call with
        | getChunkSize => exact ⟨.ok chunkSize, rfl⟩
        | writeChunk id bytes => exact ⟨.ok id, hok _⟩
        | readChunk id => exact ⟨.ok ⟨id, [], 0⟩, hok _⟩
        | deleteChunk id => exact ⟨.ok id, hok _⟩
        | getFreeChunks => exact ⟨.ok (0 : Nat), hok _⟩
    | connect _ => exact ⟨.ok (), hok _⟩
    | connectCached _ => exact ⟨.ok (), hok _⟩
    | cachedConnection _ => exact ⟨true, id⟩
    | choose _ => exact ⟨(0 : Nat), id⟩
    | turn => exact ⟨true, id⟩
  rcases hreply with ⟨reply, hreply⟩
  exact ⟨reply, _, hreply, rfl⟩

/-- There is a run in which all calls succeed. -/
theorem succeeding_runs {α : Type} (chunkSize : ChunkSize) (program : Deployment.Program α) :
    ∃ value log, program.Runs (Succeeding chunkSize) [] value log := by
  have honly : program.Only fun _ => True := by
    induction program with
    | done value => trivial
    | call request next ih => exact ⟨trivial, ih⟩
  exact Library.Program.exists_runs honly
    (fun log call _ => succeeding_answers chunkSize log call) []

/-- With all calls succeeding, a streamed upload is an upload of the whole body.  However the
body is delivered, both handlers end well exactly when the body fits, and then they have
written the same payloads, the chunks of the body; the checksum and the size recorded at the
end are those of the body.  After any number of fragments, the loop holds less than a chunk
in its buffer. -/
theorem streaming_eq_whole_body (lib : Library) (name : String) (chunkSize : ChunkSize)
    (body : Bytes) (fragments : List Bytes) (multipart : Multipart) (field : Field)
    (payload : String) (hname : validateObjectName lib name = .ok ())
    (hpayload : lib.decode payload = .ok body) (hfile : findFile multipart = .ok field)
    (hdata : field.data = fragments.map .ok) (hbody : fragments.flatten = body) :
    (∀ value log, (handlePutObject lib name payload).Runs (Succeeding chunkSize) [] value log →
      ((∃ response, value = .ok response) ↔ body.length ≤ MAX_OBJECT_SIZE) ∧
        (body.length ≤ MAX_OBJECT_SIZE → written log = chunks chunkSize.bytes body)) ∧
    (∀ value log,
      (handlePutObjectMultipart lib name multipart).Runs (Succeeding chunkSize) [] value log →
        ((∃ response, value = .ok response) ↔ body.length ≤ MAX_OBJECT_SIZE) ∧
          (body.length ≤ MAX_OBJECT_SIZE → written log = chunks chunkSize.bytes body ∧
            ∃ totalSize : UInt64, totalSize.toNat = body.length ∧
              summaries log = [(name, lib.crc32 body, totalSize)])) ∧
    (∀ before after, fragments = before ++ after →
      streamField lib name chunkSize.bytes [] [] (fragments.map .ok) =
          streamField lib name chunkSize.bytes [] [] (before.map .ok) >>=
            resumeField lib name chunkSize.bytes (after.map .ok) ∧
        ∀ start buffer received log,
          (streamField lib name chunkSize.bytes [] [] (before.map .ok)).Runs
            (Succeeding chunkSize) start (.ok (buffer, received)) log →
              received = before.flatten ∧ buffer.length < chunkSize.bytes) ∧
    (∃ value log, (handlePutObject lib name payload).Runs (Succeeding chunkSize) [] value log) ∧
    ∃ value log,
      (handlePutObjectMultipart lib name multipart).Runs (Succeeding chunkSize) [] value log := by
  subst hbody
  refine ⟨fun value log hruns => ?_, fun value log hruns => ?_, fun before after hsplit => ?_,
    succeeding_runs chunkSize _, succeeding_runs chunkSize _⟩
  · have h := hruns.ensures (handlePutObject_completes lib hname hpayload)
    exact ⟨h.1, fun hsize => (h.2 hsize).2.1⟩
  · have h := hruns.ensures (handlePutObjectMultipart_completes lib hname hfile hdata)
    refine ⟨h.1, fun hsize => ⟨(h.2 hsize).2.1, _, ?_, (h.2 hsize).2.2⟩⟩
    have hlimit : MAX_OBJECT_SIZE < UInt64.size := by decide
    exact UInt64.toNat_ofNat_of_lt' (Nat.lt_of_le_of_lt hsize hlimit)
  · constructor
    · rw [hsplit, List.map_append, streamField_append]
    · intro start buffer received log hruns
      have hstart : Carried chunkSize.bytes [] [] [] := ⟨rfl, by simp⟩
      have hempty : ([] : Bytes).length < chunkSize.bytes := chunkSize.positive
      have h := hruns.ensures (streamField_ensures lib name chunkSize.positive before hempty
        (Nat.zero_le _) hstart)
      rw [List.nil_append] at h
      split at h
      · rcases h with ⟨flushed, buffer', hvalue, hshort, _, _⟩
        cases hvalue
        exact ⟨rfl, hshort⟩
      · rcases h with ⟨msg, hvalue⟩
        cases hvalue

/-- A body of five bytes, delivered in four fragments to chunks of two bytes. -/
theorem streaming_eq_whole_body_fiveBytes :
    ∃ value log, (handlePutObjectMultipart plainLibrary "a"
        [.ok ⟨some "file", [.ok [1], .ok [2, 3, 4], .ok [], .ok [5]]⟩]).Runs
          (Succeeding ⟨2, by decide⟩) [] value log ∧
      written log = [[1, 2], [3, 4], [5]] ∧
      ∃ totalSize : UInt64, totalSize.toNat = 5 ∧
        summaries log = [("a", plainLibrary.crc32 [1, 2, 3, 4, 5], totalSize)] := by
  have h := streaming_eq_whole_body plainLibrary "a" ⟨2, by decide⟩ [1, 2, 3, 4, 5]
    [[1], [2, 3, 4], [], [5]] [.ok ⟨some "file", [.ok [1], .ok [2, 3, 4], .ok [], .ok [5]]⟩]
    ⟨some "file", [.ok [1], .ok [2, 3, 4], .ok [], .ok [5]]⟩ "AQIDBAU="
    (by decide +kernel) (by decide +kernel) rfl rfl rfl
  rcases h.2.2.2.2 with ⟨value, log, hruns⟩
  rcases (h.2.1 value log hruns).2 (by decide) with ⟨hwritten, hsummaries⟩
  exact ⟨value, log, hruns, hwritten, hsummaries⟩

end ApiGateway
end ObjectStore
