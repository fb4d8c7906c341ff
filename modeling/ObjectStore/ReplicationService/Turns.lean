import ObjectStore.ReplicationService.Cycle

/-!
# Replication service - Turns of a cycle

What a cycle does for one chunk, said once: it looks around, and then it may write one copy,
record it, and delete it again when recording it has failed.  A cycle is a listing and one such
turn for each chunk that it tries.  Calls may fail in any way, also after they took effect.

Main definitions:

- `Turn`: the calls of one turn with the states around them, and its outcome.
- `Turns`: one turn after the other.
- `Attempt`, `Attempts`: the rounds of the loop, each for one chunk.
- `Tries`: the calls of a cycle, listings and attempts.
- `Cycled`: the same by what the calls leave.

Main results:

- Theorem `replicateChunk_turn`: the body of the loop makes a turn.
- Theorem `replicateChunk_begins`: a chunk that can be copied is not passed over.
- Theorem `runReplicationCycle_tries`: a cycle is a listing and its attempts.
-/

namespace ObjectStore
namespace ReplicationService

open Deployment (Call Environment Faults Program SameServices Services Step)
open StorageMetadata.Proto (MetaStorageNode UnderReplicatedChunk)

/-- A call of a cycle with the states around it. -/
abbrev Transition := Library.Transition Services Call Call.Reply

/-! ## One turn -/

/-- Calls that only look, before the chunk `id` is written. -/
structure Looked (id : UInt64) (s : Services) (events : List Transition) (s' : Services) :
    Prop where
  same : SameServices s s'
  looks : ∀ event ∈ events, LooksFor id event.request

/-- A listed storage node that is not among the listed replicas. -/
structure IsTarget (nodes : List MetaStorageNode) (chunk : UnderReplicatedChunk)
    (target : MetaStorageNode) : Prop where
  listed : target ∈ nodes
  other : target.id ∉ chunk.currentStorageNodeIds

section

variable (env : Environment) (faults : Faults)

/-- The clean-up behind a replica that was not recorded. -/
inductive CleanedUp (address : String) (id : UInt64) (s : Services) :
    List Transition → Services → Prop where
  | unreached {message : String} {s' : Services}
      (hconnect : Step env faults s (.connect address) (.error message) s') :
      CleanedUp address id s [⟨s, .connect address, .error message, s'⟩] s'
  | tried {s₁ s' : Services} {reply : Except Status UInt64}
      (hconnect : Step env faults s (.connect address) (.ok ()) s₁)
      (hdelete : Step env faults s₁ (.storageNode address (.deleteChunk id)) reply s') :
      CleanedUp address id s
        [⟨s, .connect address, .ok (), s₁⟩,
          ⟨s₁, .storageNode address (.deleteChunk id), reply, s'⟩] s'

/-- The turn of a chunk with its outcome, by how far it gets. -/
inductive Turn (nodes : List MetaStorageNode) (chunk : UnderReplicatedChunk) (s : Services) :
    ChunkOutcome → List Transition → Services → Prop where
  | looked {outcome : ChunkOutcome} {events : List Transition} {s' : Services}
      (houtcome : outcome ≠ .replicated) (hlooked : Looked chunk.chunkId s events s') :
      Turn nodes chunk s outcome events s'
  | refused {looks : List Transition} {s₁ s' : Services} {target : MetaStorageNode}
      {bytes : Bytes} {status : Status} (hlooked : Looked chunk.chunkId s looks s₁)
      (htarget : IsTarget nodes chunk target) (hbytes : env.crc32 bytes = chunk.checksum)
      (hwrite : Step env faults s₁ (.storageNode target.address (.writeChunk chunk.chunkId bytes))
        (.error status) s') :
      Turn nodes chunk s (.failed "write_chunk")
        (looks ++ [⟨s₁, .storageNode target.address (.writeChunk chunk.chunkId bytes),
          .error status, s'⟩]) s'
  | recorded {looks : List Transition} {s₁ s₂ s' : Services} {target : MetaStorageNode}
      {bytes : Bytes} {id : UInt64} (hlooked : Looked chunk.chunkId s looks s₁)
      (htarget : IsTarget nodes chunk target) (hbytes : env.crc32 bytes = chunk.checksum)
      (hwrite : Step env faults s₁ (.storageNode target.address (.writeChunk chunk.chunkId bytes))
        (.ok id) s₂)
      (hadd : Step env faults s₂ (.metadata (.addChunkReplica chunk.chunkId target.id)) (.ok ())
        s') :
      Turn nodes chunk s .replicated
        (looks ++ [⟨s₁, .storageNode target.address (.writeChunk chunk.chunkId bytes), .ok id, s₂⟩,
          ⟨s₂, .metadata (.addChunkReplica chunk.chunkId target.id), .ok (), s'⟩]) s'
  | cleaned {looks cleanup : List Transition} {s₁ s₂ s₃ s' : Services}
      {target : MetaStorageNode} {bytes : Bytes} {id : UInt64} {status : Status}
      (hlooked : Looked chunk.chunkId s looks s₁) (htarget : IsTarget nodes chunk target)
      (hbytes : env.crc32 bytes = chunk.checksum)
      (hwrite : Step env faults s₁ (.storageNode target.address (.writeChunk chunk.chunkId bytes))
        (.ok id) s₂)
      (hadd : Step env faults s₂ (.metadata (.addChunkReplica chunk.chunkId target.id))
        (.error status) s₃)
      (hcleanup : CleanedUp env faults target.address chunk.chunkId s₃ cleanup s') :
      Turn nodes chunk s (.failed "update_metadata")
        (looks ++ ⟨s₁, .storageNode target.address (.writeChunk chunk.chunkId bytes), .ok id, s₂⟩ ::
          ⟨s₂, .metadata (.addChunkReplica chunk.chunkId target.id), .error status, s₃⟩ ::
            cleanup) s'

/-- The turns of several chunks. -/
inductive Turns (nodes : List MetaStorageNode) :
    List UnderReplicatedChunk → Services → List Transition → Services → Prop where
  | nil (s : Services) : Turns nodes [] s [] s
  | cons {chunk : UnderReplicatedChunk} {chunks : List UnderReplicatedChunk} {s s₁ s' : Services}
      {outcome : ChunkOutcome} {events rest : List Transition}
      (hturn : Turn env faults nodes chunk s outcome events s₁)
      (hturns : Turns nodes chunks s₁ rest s') :
      Turns nodes (chunk :: chunks) s (events ++ rest) s'

end

/-! ## The body of the loop -/

section

variable {env : Environment} {faults : Faults} {nodes : List MetaStorageNode}
  {chunk : UnderReplicatedChunk} {id : UInt64} {s s₁ s₂ : Services} {looks more : List Transition}

/-- Looks follow one another. -/
theorem Looked.append (h : Looked id s looks s₁) (h' : Looked id s₁ more s₂) :
    Looked id s (looks ++ more) s₂ where
  same := h.same.trans h'.same
  looks := by
    intro event hevent
    rcases List.mem_append.mp hevent with hmem | hmem
    · exact h.looks event hmem
    · exact h'.looks event hmem

theorem Looked.single {request : Call} {reply : request.Reply} (hlooks : LooksFor id request)
    (hstep : Step env faults s request reply s₁) : Looked id s [⟨s, request, reply, s₁⟩] s₁ where
  same := hstep.reads hlooks.looks.reads
  looks := by
    intro event hevent
    rw [List.mem_singleton.mp hevent]
    exact hlooks

/-- A program that only looks leaves the services as they are. -/
theorem looks_looked {α : Type} {program : Program α} (h : program.Only (LooksFor id)) :
    program.EnsuresTraced (Step env faults) (fun _ events s' => Looked id s events s') s := by
  have hsteps : ∀ (a : Services) (request : Call) (reply : request.Reply) (b : Services),
      LooksFor id request → SameServices s a → Step env faults a request reply b →
        SameServices s b :=
    fun a request reply b hlooks hsame hstep => hsame.trans (hstep.reads hlooks.looks.reads)
  refine (h.ensuresTraced (.refl s) hsteps).mono ?_
  · rintro value events s' ⟨hsame, hlooks⟩
    exact ⟨hsame, hlooks⟩

/-- A cleanup tries to delete the copy. -/
theorem cleanUp_cleanedUp (address : String) (id : UInt64) :
    (cleanUp address id).EnsuresTraced (Step env faults)
      (fun _ events s' => CleanedUp env faults address id s events s') s := by
  intro connected s₁ hconnect
  change Except String Unit at connected
  cases connected with
  | error message => exact .unreached hconnect
  | ok _ => exact fun reply s' hdelete => .tried hconnect hdelete

/-- From the second connection to the target on. -/
theorem writeTarget_turn {target : MetaStorageNode} {bytes : Bytes}
    (hlooked : Looked chunk.chunkId s looks s₁) (htarget : IsTarget nodes chunk target)
    (hbytes : env.crc32 bytes = chunk.checksum) :
    (writeTarget target.address chunk.chunkId bytes >>= fun written =>
      match written with
      | .error label => pure (.failed label)
      | .ok () => recordReplica chunk.chunkId target : Program ChunkOutcome).EnsuresTraced
      (Step env faults)
      (fun outcome events s' => Turn env faults nodes chunk s outcome (looks ++ events) s') s₁ := by
  intro connected s₂ hconnect
  change Except String Unit at connected
  have hconnected : LooksFor chunk.chunkId (.connect target.address) := trivial
  have hlooked' := hlooked.append (.single hconnected hconnect)
  cases connected with
  | error message => exact .looked nofun hlooked'
  | ok _ =>
      intro written s₃ hwrite
      change Except Status UInt64 at written
      cases written with
      | error status =>
          change Turn env faults nodes chunk s _ (looks ++ _ :: [_]) s₃
          rw [List.append_cons]
          exact .refused hlooked' htarget hbytes hwrite
      | ok id =>
          intro added s₄ hadd
          change Except Status Unit at added
          cases added with
          | ok _ =>
              change Turn env faults nodes chunk s _ (looks ++ _ :: [_, _]) s₄
              rw [List.append_cons]
              exact .recorded hlooked' htarget hbytes hwrite hadd
          | error status =>
              change (cleanUp target.address chunk.chunkId >>= fun _ =>
                (pure (.failed "update_metadata") : Program ChunkOutcome)).EnsuresTraced _ _ s₄
              refine .of_bind ((cleanUp_cleanedUp target.address chunk.chunkId).mono ?_)
              intro _ cleanup s' hcleanup
              change Turn env faults nodes chunk s _ (looks ++ _ :: _ :: _ :: (cleanup ++ [])) s'
              rw [List.append_nil, List.append_cons]
              exact .cleaned hlooked' htarget hbytes hwrite hadd hcleanup

/-- The copy of a chunk, from the source to the record. -/
theorem copyChunk_turn {target : MetaStorageNode} (hlooked : Looked chunk.chunkId s looks s₁)
    (htarget : IsTarget nodes chunk target) :
    (copyChunk env.crc32 chunk target).EnsuresTraced (Step env faults)
      (fun outcome events s' => Turn env faults nodes chunk s outcome (looks ++ events) s') s₁ := by
  unfold copyChunk
  split
  · rw [← List.append_nil looks] at hlooked
    exact .looked nofun hlooked
  · rename_i sourceNodeId _ _
    refine .of_bind ((looks_looked (readSource_looksFor chunk.chunkId sourceNodeId)).mono ?_)
    intro read events s₂ hread
    have hlooked' := hlooked.append hread
    cases read with
    | error label =>
        change Turn env faults nodes chunk s _ (looks ++ (events ++ [])) s₂
        rw [List.append_nil]
        exact .looked nofun hlooked'
    | ok chunkData =>
        dsimp only
        split
        · change Turn env faults nodes chunk s _ (looks ++ (events ++ [])) s₂
          rw [List.append_nil]
          exact .looked nofun hlooked'
        · rename_i hchecksum
          simp only [← List.append_assoc]
          exact writeTarget_turn hlooked' htarget (not_not.mp hchecksum)

theorem length_pos_of_not_isEmpty {α : Type} {items : List α} (h : ¬ items.isEmpty = true) :
    0 < items.length :=
  List.length_pos_iff.mpr fun heq => h (List.isEmpty_iff.mpr heq)

/-- The body of the loop makes a turn. -/
theorem replicateChunk_turn (env : Environment) (faults : Faults) (nodes : List MetaStorageNode)
    (chunk : UnderReplicatedChunk) (s : Services) :
    (replicateChunk env.crc32 nodes chunk).EnsuresTraced (Step env faults)
      (fun outcome events s' => Turn env faults nodes chunk s outcome events s') s := by
  unfold replicateChunk
  dsimp only
  split
  · exact .looked nofun ⟨.refl s, by simp⟩
  · rename_i hnonempty
    intro picked s₁ hpicked
    change Nat at picked
    have hchosen : LooksFor chunk.chunkId (.choose (nodes.filter fun n =>
        !chunk.currentStorageNodeIds.contains n.id).length) :=
      length_pos_of_not_isEmpty hnonempty
    have hlooked := Looked.single hchosen hpicked
    dsimp only [Library.Program.bind]
    split
    · exact .looked nofun hlooked
    · rename_i target htarget
      have hmem := List.mem_filter.mp (List.mem_of_getElem? htarget)
      have htarget : IsTarget nodes chunk target := ⟨hmem.1, by simpa using hmem.2⟩
      refine .of_bind ((looks_looked (hasSpace_looksFor target.address chunk.chunkId)).mono ?_)
      intro space events s₂ hspace
      have hlooked' := hlooked.append hspace
      split
      · exact copyChunk_turn hlooked' htarget
      · rw [← List.append_nil events] at hlooked'
        exact .looked nofun hlooked'

/-- A turn passes a chunk over only when every listed storage node has it: otherwise its first
calls choose a target and connect to it. -/
structure Begins (nodes : List MetaStorageNode) (chunk : UnderReplicatedChunk)
    (outcome : ChunkOutcome) (events : List Transition) : Prop where
  passed : (∀ target, ¬ IsTarget nodes chunk target) → outcome = .skipped ∧ events = []
  chosen : (∃ target, IsTarget nodes chunk target) → ∃ target, IsTarget nodes chunk target ∧
    ∃ picked connected rest count, events = picked :: connected :: rest ∧
      picked.request = .choose count ∧ connected.request = .connect target.address

/-- The targets are the nodes without a replica. -/
theorem mem_eligible_iff {target : MetaStorageNode} :
    target ∈ nodes.filter (fun n => !chunk.currentStorageNodeIds.contains n.id) ↔
      IsTarget nodes chunk target := by
  rw [List.mem_filter]
  constructor
  · rintro ⟨hlisted, hother⟩
    exact ⟨hlisted, by simpa using hother⟩
  · rintro ⟨hlisted, hother⟩
    exact ⟨hlisted, by simpa using hother⟩

/-- A turn begins with a call about its chunk, unless there is no target. -/
theorem replicateChunk_begins (env : Environment) (faults : Faults) (nodes : List MetaStorageNode)
    (chunk : UnderReplicatedChunk) (s : Services) :
    (replicateChunk env.crc32 nodes chunk).EnsuresTraced (Step env faults)
      (fun outcome events _ => Begins nodes chunk outcome events) s := by
  unfold replicateChunk
  dsimp only
  split
  · rename_i hempty
    refine ⟨fun _ => ⟨rfl, rfl⟩, ?_⟩
    rintro ⟨target, htarget⟩
    rw [← mem_eligible_iff, List.isEmpty_iff.mp hempty] at htarget
    cases htarget
  · intro picked s₁ hpicked
    change Nat at picked
    have hlt := hpicked.picked_lt
    dsimp only [Library.Program.bind]
    split
    · rename_i hnone
      exact absurd hlt (Nat.not_lt.mpr (List.getElem?_eq_none_iff.mp hnone))
    · rename_i target htarget
      have htarget := mem_eligible_iff.mp (List.mem_of_getElem? htarget)
      intro connected s₂ hconnect
      refine (Library.Program.ensuresTraced_steps _ s₂).mono fun outcome rest s' _ => ?_
      constructor
      · exact fun hnone => absurd htarget (hnone target)
      · exact fun _ => ⟨target, htarget, _, _, rest, _, rfl, rfl, rfl⟩

end

/-! ## One attempt after the other -/

/-- A round of the loop: a chunk, what becomes of it, and the calls for it. -/
structure Attempt where
  chunk : UnderReplicatedChunk
  outcome : ChunkOutcome
  before : Services
  events : List Transition
  after : Services

section

variable (env : Environment) (faults : Faults) (nodes : List MetaStorageNode)

/-- The body of the loop ran for the chunk. -/
def Attempt.Ran (attempt : Attempt) : Prop :=
  (replicateChunk env.crc32 nodes attempt.chunk).Runs (Library.Traced (Step env faults))
    (attempt.before, []) attempt.outcome (attempt.after, attempt.events)

/-- Each attempt begins where the one before it ended. -/
inductive Attempts : Services → List Attempt → Services → Prop where
  | nil (s : Services) : Attempts s [] s
  | cons {attempt : Attempt} {attempts : List Attempt} {s' : Services}
      (hran : attempt.Ran env faults nodes) (hattempts : Attempts attempt.after attempts s') :
      Attempts attempt.before (attempt :: attempts) s'

end

section

variable {env : Environment} {faults : Faults} {nodes : List MetaStorageNode}
  {chunks : List UnderReplicatedChunk} {s s' : Services} {attempt : Attempt}
  {attempts : List Attempt}

/-- An attempt is a turn of its chunk. -/
theorem Attempt.Ran.turn (h : attempt.Ran env faults nodes) :
    Turn env faults nodes attempt.chunk attempt.before attempt.outcome attempt.events
      attempt.after := by
  rcases h.ensuresTraced (replicateChunk_turn env faults nodes attempt.chunk attempt.before) with
    ⟨events, hevents, hturn⟩
  rwa [hevents, List.nil_append]

theorem Attempt.Ran.begins (h : attempt.Ran env faults nodes) :
    Begins nodes attempt.chunk attempt.outcome attempt.events := by
  rcases h.ensuresTraced (replicateChunk_begins env faults nodes attempt.chunk attempt.before) with
    ⟨events, hevents, hbegins⟩
  rwa [hevents, List.nil_append]

/-- Each attempt has been made. -/
theorem Attempts.ran (h : Attempts env faults nodes s attempts s') :
    ∀ attempt ∈ attempts, attempt.Ran env faults nodes := by
  induction h with
  | nil s => simp
  | cons hran hattempts ih => exact List.forall_mem_cons.mpr ⟨hran, ih⟩

/-- Attempts are turns, one after the other. -/
theorem Attempts.turns (h : Attempts env faults nodes s attempts s') :
    Turns env faults nodes (attempts.map (·.chunk)) s (attempts.flatMap (·.events)) s' := by
  induction h with
  | nil s => exact .nil s
  | cons hran hattempts ih => exact .cons hran.turn ih

/-- The loop makes one attempt for each chunk, in the order of the list. -/
theorem replicateChunks_attempts (env : Environment) (faults : Faults)
    (nodes : List MetaStorageNode) (chunks : List UnderReplicatedChunk) (s : Services) :
    (replicateChunks env.crc32 nodes chunks).EnsuresTraced (Step env faults)
      (fun outcomes events s' => ∃ attempts, attempts.map (·.chunk) = chunks ∧
        attempts.map (·.outcome) = outcomes ∧ attempts.flatMap (·.events) = events ∧
        Attempts env faults nodes s attempts s') s := by
  induction chunks generalizing s with
  | nil => exact ⟨[], rfl, rfl, rfl, .nil s⟩
  | cons chunk chunks ih =>
      refine .of_bind ((Library.Program.ensuresTraced_runs _ s).mono ?_)
      intro outcome events s₁ hruns
      refine .of_bind ((ih s₁).mono ?_)
      rintro outcomes rest s' ⟨attempts, hchunks, houtcomes, hevents, hattempts⟩
      have hran : Attempt.Ran env faults nodes ⟨chunk, outcome, s, events, s₁⟩ := hruns []
      refine ⟨⟨chunk, outcome, s, events, s₁⟩ :: attempts, ?_, ?_, ?_, .cons hran hattempts⟩
      · rw [List.map_cons, hchunks]
      · rw [List.map_cons, houtcomes]
      · rw [List.flatMap_cons, hevents, List.append_nil]

/-- The turns of a run that is not traced. -/
theorem turns_of_runs {outcomes : List ChunkOutcome}
    (h : (replicateChunks env.crc32 nodes chunks).Runs (Step env faults) s outcomes s') :
    ∃ events, Turns env faults nodes chunks s events s' := by
  rcases h.traced [] with ⟨trace, htraced⟩
  rcases htraced.ensuresTraced (replicateChunks_attempts env faults nodes chunks s) with
    ⟨events, _, attempts, hchunks, _, hevents, hattempts⟩
  refine ⟨events, ?_⟩
  rw [← hchunks, ← hevents]
  exact hattempts.turns

end

/-! ## The cycle -/

/-- The requests for the listings. -/
def Lists : Call → Prop
  | .metadata (.listUnderReplicatedChunks _) | .metadata .listStorageNodes => True
  | _ => False

theorem Lists.reads {call : Call} (h : Lists call) : call.Reads := by
  cases call with
  | metadata call => cases call <;> first | exact h | trivial
  | _ => exact h.elim

/-- A cycle call by call: two listings, then an attempt for each of the first chunks listed.  It
tries nothing only when a listing fails or is empty. -/
inductive Tries (env : Environment) (faults : Faults) (maxChunksPerCycle : Nat) (s : Services) :
    Except String CycleReport → List Attempt → List Transition → Services → Prop where
  | unlisted {status : Status} {s' : Services}
      (hchunks : Step env faults s (.metadata (.listUnderReplicatedChunks MAX_REPLICAS))
        (.error status) s') :
      Tries env faults maxChunksPerCycle s (.error "list_chunks") []
        [⟨s, .metadata (.listUnderReplicatedChunks MAX_REPLICAS), .error status, s'⟩] s'
  | nothing {s' : Services}
      (hchunks : Step env faults s (.metadata (.listUnderReplicatedChunks MAX_REPLICAS))
        (.ok []) s') :
      Tries env faults maxChunksPerCycle s (.ok ⟨0, 0, []⟩) []
        [⟨s, .metadata (.listUnderReplicatedChunks MAX_REPLICAS), .ok [], s'⟩] s'
  | nodesUnlisted {chunks : List UnderReplicatedChunk} {status : Status} {s₁ s' : Services}
      (hchunks : Step env faults s (.metadata (.listUnderReplicatedChunks MAX_REPLICAS))
        (.ok chunks) s₁) (hlisted : chunks ≠ [])
      (hnodes : Step env faults s₁ (.metadata .listStorageNodes) (.error status) s') :
      Tries env faults maxChunksPerCycle s (.error "list_nodes") []
        [⟨s, .metadata (.listUnderReplicatedChunks MAX_REPLICAS), .ok chunks, s₁⟩,
          ⟨s₁, .metadata .listStorageNodes, .error status, s'⟩] s'
  | noNodes {chunks : List UnderReplicatedChunk} {s₁ s' : Services}
      (hchunks : Step env faults s (.metadata (.listUnderReplicatedChunks MAX_REPLICAS))
        (.ok chunks) s₁) (hlisted : chunks ≠ [])
      (hnodes : Step env faults s₁ (.metadata .listStorageNodes) (.ok []) s') :
      Tries env faults maxChunksPerCycle s (.ok ⟨chunks.length, 0, []⟩) []
        [⟨s, .metadata (.listUnderReplicatedChunks MAX_REPLICAS), .ok chunks, s₁⟩,
          ⟨s₁, .metadata .listStorageNodes, .ok [], s'⟩] s'
  | looped {chunks : List UnderReplicatedChunk} {nodes : List MetaStorageNode}
      {attempts : List Attempt} {s₁ s₂ s' : Services}
      (hchunks : Step env faults s (.metadata (.listUnderReplicatedChunks MAX_REPLICAS))
        (.ok chunks) s₁) (hlisted : chunks ≠ [])
      (hnodes : Step env faults s₁ (.metadata .listStorageNodes) (.ok nodes) s₂)
      (hregistered : nodes ≠ [])
      (htaken : attempts.map (·.chunk) = chunks.take maxChunksPerCycle)
      (hattempts : Attempts env faults nodes s₂ attempts s') :
      Tries env faults maxChunksPerCycle s
        (.ok ⟨chunks.length, chunks.length - maxChunksPerCycle, attempts.map (·.outcome)⟩) attempts
        (⟨s, .metadata (.listUnderReplicatedChunks MAX_REPLICAS), .ok chunks, s₁⟩ ::
          ⟨s₁, .metadata .listStorageNodes, .ok nodes, s₂⟩ :: attempts.flatMap (·.events)) s'

/-- A cycle tries the chunks of its listing in order. -/
theorem runReplicationCycle_tries (env : Environment) (faults : Faults) (maxChunksPerCycle : Nat)
    (s : Services) :
    (runReplicationCycle env.crc32 maxChunksPerCycle).EnsuresTraced (Step env faults)
      (fun result events s' => ∃ attempts,
        Tries env faults maxChunksPerCycle s result attempts events s') s := by
  intro listed s₁ hchunks
  change Except Status (List UnderReplicatedChunk) at listed
  cases listed with
  | error status => exact ⟨[], .unlisted hchunks⟩
  | ok chunks =>
      dsimp only [Library.Program.bind]
      split
      · rename_i hempty
        cases List.isEmpty_iff.mp hempty
        exact ⟨[], .nothing hchunks⟩
      · rename_i hnonempty
        have hlisted : chunks ≠ [] := fun heq => hnonempty (List.isEmpty_iff.mpr heq)
        intro found s₂ hnodes
        change Except Status (List MetaStorageNode) at found
        cases found with
        | error status => exact ⟨[], .nodesUnlisted hchunks hlisted hnodes⟩
        | ok nodes =>
            dsimp only [Library.Program.bind]
            split
            · rename_i hempty
              cases List.isEmpty_iff.mp hempty
              exact ⟨[], .noNodes hchunks hlisted hnodes⟩
            · rename_i hnodesNonempty
              have hregistered : nodes ≠ [] := fun heq =>
                hnodesNonempty (List.isEmpty_iff.mpr heq)
              refine .of_bind ((replicateChunks_attempts env faults nodes _ s₂).mono ?_)
              rintro outcomes events s' ⟨attempts, htaken, houtcomes, hevents, hattempts⟩
              subst houtcomes
              subst hevents
              refine ⟨attempts, ?_⟩
              change Tries env faults maxChunksPerCycle s _ _ (_ :: _ :: (_ ++ [])) s'
              rw [List.append_nil]
              exact .looped hchunks hlisted hnodes hregistered htaken hattempts

/-- A cycle, with the listings that it goes by if it gets that far. -/
inductive Cycled (env : Environment) (faults : Faults) (maxChunksPerCycle : Nat) (s : Services) :
    List Transition → Services → Prop where
  | idle {events : List Transition} {s' : Services} (hsame : SameServices s s')
      (hlists : ∀ event ∈ events, Lists event.request) :
      Cycled env faults maxChunksPerCycle s events s'
  | tried {chunks : List UnderReplicatedChunk} {nodes : List MetaStorageNode}
      {events : List Transition} {s₁ s₂ s' : Services}
      (hchunks : Step env faults s (.metadata (.listUnderReplicatedChunks MAX_REPLICAS))
        (.ok chunks) s₁)
      (hnodes : Step env faults s₁ (.metadata .listStorageNodes) (.ok nodes) s₂)
      (hturns : Turns env faults nodes (chunks.take maxChunksPerCycle) s₂ events s') :
      Cycled env faults maxChunksPerCycle s
        (⟨s, .metadata (.listUnderReplicatedChunks MAX_REPLICAS), .ok chunks, s₁⟩ ::
          ⟨s₁, .metadata .listStorageNodes, .ok nodes, s₂⟩ :: events) s'

/-- The attempts are the turns of the cycle. -/
theorem Tries.cycled {env : Environment} {faults : Faults} {maxChunksPerCycle : Nat}
    {s s' : Services} {result : Except String CycleReport} {attempts : List Attempt}
    {events : List Transition}
    (h : Tries env faults maxChunksPerCycle s result attempts events s') :
    Cycled env faults maxChunksPerCycle s events s' := by
  have hfirst : Lists (.metadata (.listUnderReplicatedChunks MAX_REPLICAS)) := trivial
  have hsecond : Lists (.metadata .listStorageNodes) := trivial
  cases h with
  | unlisted hchunks | nothing hchunks =>
      exact .idle (hchunks.reads hfirst.reads) (List.forall_mem_singleton.mpr hfirst)
  | nodesUnlisted hchunks _ hnodes | noNodes hchunks _ hnodes =>
      refine .idle ((hchunks.reads hfirst.reads).trans (hnodes.reads hsecond.reads)) ?_
      exact List.forall_mem_cons.mpr ⟨hfirst, List.forall_mem_singleton.mpr hsecond⟩
  | looped hchunks _ hnodes _ htaken hattempts =>
      exact .tried hchunks hnodes (htaken ▸ hattempts.turns)

/-- A cycle is a listing and its turns. -/
theorem runReplicationCycle_cycled (env : Environment) (faults : Faults) (maxChunksPerCycle : Nat)
    (s : Services) :
    (runReplicationCycle env.crc32 maxChunksPerCycle).EnsuresTraced (Step env faults)
      (fun _ events s' => Cycled env faults maxChunksPerCycle s events s') s := by
  refine (runReplicationCycle_tries env faults maxChunksPerCycle s).mono ?_
  rintro result events s' ⟨attempts, htries⟩
  exact htries.cycled

end ReplicationService
end ObjectStore
