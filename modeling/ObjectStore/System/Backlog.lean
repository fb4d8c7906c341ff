import ObjectStore.Library.Draining
import ObjectStore.System.Convergence

/-!
# System - A backlog of replication

Chunks may need more copies than a cycle makes.  The metadata lists them in any order, and the
cycle takes the first ones, so that some chunk may be passed over again and again.  Still every
cycle makes as many copies as it may, or serves each chunk that needs one.

Main definitions:

- `chunkIds`, `backlog`: the chunks, and the copies that they lack.
- `Maintained`: what cycles keep, whatever they copy.

Main results:

- Theorem `runReplicationCycle_round`: one cycle.
- Theorem `cycles_drain`: how many cycles are enough.
-/

namespace ObjectStore
namespace System

open Deployment (Environment Services)
open Library (Progress Round missing progress_of_trace short)
open ReplicationService (CycleReport Needy replicateChunk runReplicationCycle)
open StorageMetadata (MetaChunk)

variable {env : Environment} {crc32 : Bytes → UInt32} {s s' s₁ : Services}
  {pieces : UInt64 → Bytes} {id : UInt64} {limit : Nat}

/-! ## One cycle -/

/-- The ids of the recorded chunks. -/
def chunkIds (s : Services) : Finset UInt64 :=
  s.metadata.metadataStore.chunks.keys.toFinset

@[simp]
theorem mem_chunkIds : id ∈ chunkIds s ↔ id ∈ s.metadata.metadataStore.chunks := by
  rw [chunkIds, List.mem_toFinset, Std.ExtTreeMap.mem_keys]

/-- The copies that are missing to three of each chunk. -/
noncomputable def backlog (s : Services) : Nat :=
  missing (chunkIds s) 3 (copies s)

/-- The objects and their chunks stay. -/
structure Maintained (crc32 : Bytes → UInt32) (pieces : UInt64 → Bytes) (s s' : Services) :
    Prop where
  tidy : Tidy crc32 [] pieces s'
  spread : Spread s'
  objects : s'.metadata.metadataStore.objects = s.metadata.metadataStore.objects
  chunkIds : chunkIds s' = chunkIds s

/-- Cycles follow one another. -/
theorem Maintained.trans (h : Maintained crc32 pieces s s₁) (h' : Maintained crc32 pieces s₁ s') :
    Maintained crc32 pieces s s' where
  tidy := h'.tidy
  spread := h'.spread
  objects := h'.objects.trans h.objects
  chunkIds := h'.chunkIds.trans h.chunkIds

/-- Each chunk has a copy. -/
theorem copies_pos (htidy : Tidy crc32 [] pieces s) (hspread : Spread s)
    (hid : id ∈ s.metadata.metadataStore.chunks) : 0 < copies s id := by
  rcases HashMap.mem_iff_exists_getElem?.mp hid with ⟨record, hrecord⟩
  rw [copies_eq htidy hspread hrecord]
  exact List.length_pos_iff.mpr (htidy.catalogued.placed id record hrecord).replicated

/-- The chunks to replicate are those below the target. -/
theorem Tidy.mem_needy_iff_short {records : List MetaChunk} (htidy : Tidy crc32 [] pieces s)
    (hspread : Spread s) (hneedy : ∀ record, record ∈ records ↔ Needy s record.id record) :
    id ∈ records.map MetaChunk.id ↔ id ∈ short (chunkIds s) 3 (copies s) := by
  rw [Library.mem_short, mem_chunkIds]
  constructor
  · intro hmem
    rcases List.mem_map.mp hmem with ⟨record, hrecord, rfl⟩
    have hstored := ((hneedy record).mp hrecord).stored
    rw [copies_eq htidy hspread hstored, ← htidy.mem_needy_iff hneedy hstored]
    exact ⟨HashMap.mem_iff_exists_getElem?.mpr ⟨record, hstored⟩, hmem⟩
  · rintro ⟨hid, hshort⟩
    rcases HashMap.mem_iff_exists_getElem?.mp hid with ⟨record, hrecord⟩
    rw [copies_eq htidy hspread hrecord] at hshort
    exact (htidy.mem_needy_iff hneedy hrecord).mpr hshort

/-- One cycle makes as many copies as it may, or one of each chunk that needs one. -/
theorem runReplicationCycle_round {result : Except String CycleReport}
    (htidy : Tidy env.crc32 [] pieces s) (hspread : Spread s)
    (hcycle : Cycles env limit s result s') :
    Maintained env.crc32 pieces s s' ∧
      ∃ served, Round (chunkIds s) 3 limit (copies s) (copies s') served := by
  have hensures : (runReplicationCycle env.crc32 limit).Ensures (RoomyStep env) _ s :=
    runReplicationCycle_cycled (fun nodes s record htidy hneedy hnodes hspread =>
      replicateChunk_grows htidy hneedy hnodes hspread)
    (fun _ _ hsame hspread => hspread.same hsame) htidy hspread limit
  rcases hcycle.ensures hensures with ⟨⟨records, hdistinct, hneedy, hcycled⟩, hspread'⟩
  have htaken : ∀ record ∈ records.take limit, Needy s record.id record :=
    fun record hrecord => (hneedy record).mp (List.mem_of_mem_take hrecord)
  have hids : ((records.take limit).map MetaChunk.id).Nodup := by
    rw [List.map_take]
    exact hdistinct.sublist (List.take_sublist _ _)
  refine ⟨⟨hcycled.tidy, hspread', hcycled.objects, ?_⟩,
    ((records.take limit).map MetaChunk.id).toFinset, ?_⟩
  · ext id
    rw [mem_chunkIds, mem_chunkIds]
    exact hcycled.mem_chunks_iff htaken
  constructor
  · intro id hid
    rw [List.mem_toFinset, List.map_take] at hid
    exact (htidy.mem_needy_iff_short hspread hneedy).mp (List.mem_of_mem_take hid)
  · rcases Nat.le_total limit records.length with hlonger | hshorter
    · left
      rw [List.toFinset_card_of_nodup hids, List.length_map, List.length_take]
      exact min_eq_left hlonger
    · right
      ext id
      rw [List.take_of_length_le hshorter, List.mem_toFinset]
      exact htidy.mem_needy_iff_short hspread hneedy
  · intro id hid
    rcases HashMap.mem_iff_exists_getElem?.mp (mem_chunkIds.mp hid) with ⟨record, hrecord⟩
    rcases hcycled.exists_record htaken hrecord with ⟨record', hrecord', hlength⟩
    rw [copies_eq htidy hspread hrecord, copies_eq hcycled.tidy hspread' hrecord', hlength]
    simp only [List.mem_toFinset]

/-! ## Cycles -/

/-- Each cycle makes up for as many replicas as it may. -/
theorem cycles_progress {results : List (Except String CycleReport)}
    (htrace : (Cycles env limit).Trace s results s') (htidy : Tidy env.crc32 [] pieces s)
    (hspread : Spread s) :
    Maintained env.crc32 pieces s s' ∧
      Progress (chunkIds s) 3 limit results.length (copies s) (copies s') := by
  refine progress_of_trace (fun s₁ result s₂ hkept hcycle => ?_) htrace ⟨htidy, hspread, rfl, rfl⟩
  rcases runReplicationCycle_round hkept.tidy hkept.spread hcycle with ⟨hkept', served, hround⟩
  rw [hkept.chunkIds] at hround
  exact ⟨hkept.trans hkept', served, hround⟩

/-- With any limit the backlog is worked off: after as many cycles as it takes to copy all that is
missing, and two more, every chunk has three copies. -/
theorem cycles_drain (env : Environment) (limit : Nat) (s s' : Services)
    (map : String → Option Bytes) (h : Represents env.crc32 s map) (hspread : Spread s)
    (hlimit : 0 < limit) (results : List (Except String CycleReport))
    (htrace : (Cycles env limit).Trace s results s')
    (hresults : backlog s / limit + 2 ≤ results.length) :
    Represents env.crc32 s' map ∧
      ∀ id ∈ s.metadata.metadataStore.chunks, copies s' id = max (copies s id) 3 := by
  rcases h with ⟨pieces, htidy, rfl⟩
  rcases cycles_progress htrace htidy hspread with ⟨hkept, hprogress⟩
  have hlacking : ∀ id ∈ chunkIds s, 3 ≤ copies s id + 2 := by
    intro id hid
    have hpos := copies_pos htidy hspread (mem_chunkIds.mp hid)
    omega
  refine ⟨⟨pieces, hkept.tidy, ?_⟩, fun id hid => ?_⟩
  · funext name
    simp only [contents, hkept.objects]
  · exact hprogress.reached hlimit hlacking hresults id (mem_chunkIds.mpr hid)

/-- A cycle that makes one copy at most. -/
def replicateOne (s : Services) : Option (Except String CycleReport × Services) :=
  (runReplicationCycle Library.crc32 1).replay (roomyNext ApiGateway.plainEnvironment)
    (.replicate 12 .plain) s

/-- The scripted cycle is a cycle. -/
theorem cycles_of_replicateOne {result : Except String CycleReport}
    (h : replicateOne s = some (result, s')) :
    Cycles ApiGateway.plainEnvironment 1 s result s' :=
  Library.Program.runs_of_replay roomyNext_step h

/-- Two copies are missing, so four cycles with a limit of one are enough. -/
theorem cycles_drain_unreplicated :
    ∃ (results : List (Except String CycleReport)) (s' : Services),
      (Cycles ApiGateway.plainEnvironment 1).Trace unreplicated results s' ∧
      backlog unreplicated = 2 ∧ results.length = 4 ∧ copies s' 10 = 3 := by
  have hrun : ((replicateOne unreplicated).any fun first =>
      (replicateOne first.2).any fun second =>
        (replicateOne second.2).any fun third => (replicateOne third.2).isSome) = true := by
    decide +kernel
  simp only [Option.any_eq_true, Option.isSome_iff_exists] at hrun
  rcases hrun with ⟨⟨r₁, s₁⟩, h₁, ⟨r₂, s₂⟩, h₂, ⟨r₃, s₃⟩, h₃, ⟨r₄, s₄⟩, h₄⟩
  have htrace : (Cycles ApiGateway.plainEnvironment 1).Trace unreplicated [r₁, r₂, r₃, r₄] s₄ :=
    .cons (cycles_of_replicateOne h₁) (.cons (cycles_of_replicateOne h₂)
      (.cons (cycles_of_replicateOne h₃) (.cons (cycles_of_replicateOne h₄) (.nil _))))
  have hchunk : unreplicated.metadata.metadataStore.chunks[(10 : UInt64)]? =
      some ⟨10, "a", Library.crc32 [104], [1], .confirmed⟩ := by decide +kernel
  have hone : copies unreplicated 10 = 1 := copies_eq unreplicated_tidy unreplicated_spread hchunk
  have hids : chunkIds unreplicated = {10} := by
    rw [chunkIds, ← Std.ExtTreeMap.map_fst_toList_eq_keys, unreplicated_chunks]
    rfl
  have hbacklog : backlog unreplicated = 2 := by
    rw [backlog, missing, hids, Finset.sum_singleton, hone]
  have hcopies := (cycles_drain ApiGateway.plainEnvironment 1 unreplicated s₄ _
    ⟨_, unreplicated_tidy, rfl⟩ unreplicated_spread (by decide) _ htrace
    (by rw [hbacklog]; rfl)).2 10 (HashMap.mem_iff_exists_getElem?.mpr ⟨_, hchunk⟩)
  rw [hone] at hcopies
  exact ⟨_, s₄, htrace, hbacklog, rfl, hcopies⟩

end System
end ObjectStore
