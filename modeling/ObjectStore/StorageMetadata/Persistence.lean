import ObjectStore.StorageMetadata.Json
import ObjectStore.StorageMetadata.Run

/-!
# Storage metadata - Crash durability

The main file changes only by a rename, and what is renamed over it is a complete
and synced encoding of the maps in memory.  So a crash at any point leaves the
encoding of the latest completed `save` behind, and reloading it is exact.

Main results:

- Theorem `Persisted.new`: reloading yields the maps of the latest completed save.
- Theorem `reload_exact_and_ok_durable`: durability along every run, whatever
  step of whatever `save` fails or is the point of a crash.
-/

namespace ObjectStore
namespace StorageMetadata

/-! ## What the main file holds -/

/-- The file that a completed `save` of `g` leaves at `path`. -/
def savedFile (lib : External) (g : Maps) : FileImage where
  contents := (lib.toJson g.persistentState).toUTF8
  synced := true

/-- The main file holds the maps `g`; before the first completed save there is no
file, and `g` is empty. -/
def Persisted (lib : External) (files : MetaFiles) (g : Maps) : Prop :=
  (files.main = none ∧ g = Maps.empty) ∨ files.main = some (savedFile lib g)

/-- Of the file steps of `save` only a completed rename touches the main file, and
by then the temporary file is complete and synced. -/
theorem save_main (lib : External) (io : SaveIo) (m : MetadataStore) :
    (m.save lib io).2.files.main =
      match io with
      | .completes => some (savedFile lib m.maps)
      | .stops _ _ => m.files.main := by
  unfold MetadataStore.save
  cases io with
  | completes => rfl
  | stops step error => cases step <;> rfl

theorem Persisted.save {lib : External} {m : MetadataStore} {g : Maps}
    (h : Persisted lib m.files g) (io : SaveIo) :
    Persisted lib (m.save lib io).2.files (io.lastSaved m.maps g) := by
  unfold Persisted
  rw [save_main]
  cases io with
  | completes => exact .inr rfl
  | stops step error => exact h

theorem Persisted.survives {lib : External} {files files' : MetaFiles} {g : Maps}
    (h : Persisted lib files g) (hcrash : files.Survives files') :
    Persisted lib files' g := by
  rcases h with ⟨hnone, hempty⟩ | hmain
  · exact .inl ⟨hcrash.main_absent hnone, hempty⟩
  · right
    have hsurvives := hcrash.main _ hmain
    cases hmain' : files'.main with
    | none =>
        rw [hmain'] at hsurvives
        simp [FileImage.Survives, savedFile] at hsurvives
    | some file' =>
        rw [hmain'] at hsurvives
        obtain ⟨hcontents, hsynced⟩ := hsurvives rfl
        cases file'
        simp_all [savedFile]

/-! ## Reloading -/

theorem fromUTF8_toUTF8 (s : String) : String.fromUTF8? s.toUTF8 = some s := by
  have hvalid : s.toUTF8.IsValidUTF8 := s.isValidUTF8
  rw [String.fromUTF8?, dif_pos hvalid]
  rfl

/-- An encoding is never the empty file, which `new` takes for no state at all. -/
theorem toJson_size_pos {lib : External} (hlib : lib.Lawful) (state : PersistentState) :
    0 < (lib.toJson state).toUTF8.size := by
  rcases Nat.eq_zero_or_pos (lib.toJson state).toUTF8.size with hzero | hpos
  · have hempty : lib.toJson state = "" := String.utf8ByteSize_eq_zero_iff.mp hzero
    have hroundtrip := hlib.fromJson_toJson state
    rw [hempty] at hroundtrip
    exact absurd hroundtrip (hlib.fromJson_empty state)
  · exact hpos

/-- Reloading the main file yields exactly the maps it holds, and no storage
nodes. -/
theorem Persisted.new {lib : External} (hlib : lib.Lawful) {files : MetaFiles} {g : Maps}
    (h : Persisted lib files g) :
    MetadataStore.new lib files =
      .ok { MetadataStore.fresh files with objects := g.objects, chunks := g.chunks } := by
  rcases h with ⟨hnone, rfl⟩ | hmain
  · simp only [MetadataStore.new, hnone]
    rfl
  · simp only [MetadataStore.new, hmain, savedFile, toJson_size_pos hlib, if_true,
      fromUTF8_toUTF8, hlib.fromJson_toJson]
    rfl

/-! ## Along runs -/

theorem Step.persisted {lib : External} (hlib : lib.Lawful)
    {allowed : MetadataStore → Event → Prop} {p p' : MetadataStore × Maps}
    (hstep : Step lib allowed p p') (h : Persisted lib p.1.files p.2) :
    Persisted lib p'.1.files p'.2 := by
  cases hstep with
  | @saving s m g op io _ hsave =>
      rw [← hsave.files_eq] at h
      exact h.save io
  | other _ hnot happly =>
      rcases (Op.side_of_not_callsSave hnot happly).1 with rfl | hside
      · exact h
      · rw [← hside.files_eq] at h
        exact h
  | restart _ hcrash hnew =>
      have hfiles := h.survives hcrash
      rw [hfiles.new hlib] at hnew
      cases hnew
      exact hfiles

theorem Run.persisted {lib : External} (hlib : lib.Lawful)
    {allowed : MetadataStore → Event → Prop} {s : MetadataStore} {g : Maps}
    (hrun : Run lib allowed s g) : Persisted lib s.files g :=
  hrun.invariant (P := fun s g => Persisted lib s.files g)
    (fun _ => .inl ⟨rfl, rfl⟩) (fun _ _ _ _ _ hstep h => hstep.persisted hlib h)

/-- After a crash or a stop anywhere in a run, the maps reloaded are the in-memory
maps at the latest `save` whose rename completed. -/
theorem Run.reload {lib : External} (hlib : lib.Lawful)
    {allowed : MetadataStore → Event → Prop} {s : MetadataStore} {g : Maps}
    (hrun : Run lib allowed s g) {files : MetaFiles} (hcrash : s.files.Survives files) :
    ∃ s', MetadataStore.new lib files = .ok s' ∧ s'.maps = g :=
  ⟨_, ((hrun.persisted hlib).survives hcrash).new hlib, rfl⟩

/-- What empty maps have, and calls that save and side edits preserve, holds of memory
and of the maps of the latest completed save: a restart exchanges one for the other. -/
theorem Run.maps_invariant {lib : External} (hlib : lib.Lawful)
    {allowed : MetadataStore → Event → Prop} {I : Maps → Prop} (hempty : I Maps.empty)
    (hsave : ∀ (s m : MetadataStore) (op : Op) (io : SaveIo), allowed s (.call op io) →
      op.CallsSave lib s m → I s.maps → I m.maps)
    (hside : ∀ (s m : MetadataStore) (op : Op), SideEdit lib op s m → I s.maps → I m.maps)
    {s : MetadataStore} {g : Maps} (hrun : Run lib allowed s g) : I s.maps ∧ I g := by
  refine hrun.invariant (P := fun s g => I s.maps ∧ I g) (fun _ => ⟨hempty, hempty⟩) ?_
  intro s g s' g' hbefore hstep ⟨hmemory, hsaved⟩
  cases hstep with
  | @saving _ m _ op io hallowed hcalls =>
      have hm := hsave s m op io hallowed hcalls hmemory
      simp only [save_maps]
      cases io with
      | completes => exact ⟨hm, hm⟩
      | stops step error => exact ⟨hm, hsaved⟩
  | other _ hnot happly =>
      rcases (Op.side_of_not_callsSave hnot happly).1 with rfl | hedit
      · exact ⟨hmemory, hsaved⟩
      · exact ⟨hside _ _ _ hedit hmemory, hsaved⟩
  | restart _ hcrash hnew =>
      rw [((hbefore.persisted hlib).survives hcrash).new hlib] at hnew
      cases hnew
      exact ⟨hsaved, hsaved⟩

/-- The same for what every allowed call preserves, saved or not. -/
theorem Run.apply_invariant {lib : External} (hlib : lib.Lawful)
    {allowed : MetadataStore → Event → Prop} {I : Maps → Prop} (hempty : I Maps.empty)
    (hcall : ∀ (s s' : MetadataStore) (op : Op) (io : SaveIo) (result : IoResult Unit),
      allowed s (.call op io) → op.apply lib io s = some (result, s') → I s.maps → I s'.maps)
    {s : MetadataStore} {g : Maps} (hrun : Run lib allowed s g) : I s.maps ∧ I g := by
  refine hrun.invariant (P := fun s g => I s.maps ∧ I g) (fun _ => ⟨hempty, hempty⟩) ?_
  intro s g s' g' hbefore hstep ⟨hmemory, hsaved⟩
  cases hstep with
  | @saving _ m _ op io hallowed hcalls =>
      have hs' := hcall s _ op io _ hallowed (hcalls io) hmemory
      refine ⟨hs', ?_⟩
      cases io with
      | completes => exact hs'
      | stops step error => exact hsaved
  | other hallowed _ happly => exact ⟨hcall _ _ _ _ _ hallowed happly hmemory, hsaved⟩
  | restart _ hcrash hnew =>
      rw [((hbefore.persisted hlib).survives hcrash).new hlib] at hnew
      cases hnew
      exact ⟨hsaved, hsaved⟩

/-- A call that returns `Ok` and is not volatile has completed a `save` of the
memory it leaves. -/
theorem Op.ok_completes {lib : External} {op : Op} {io : SaveIo} {s s' : MetadataStore}
    (happly : op.apply lib io s = some (.ok (), s')) (hop : ¬ op.Volatile) :
    op.CallsSave lib s { s' with files := s.files } ∧ io = .completes := by
  by_cases hsave : ∃ m, op.CallsSave lib s m
  · obtain ⟨m, hm⟩ := hsave
    have hio := hm io
    rw [happly] at hio
    have hresult : m.save lib io = (.ok (), s') := (Option.some.inj hio).symm
    have hfiles : m.files = s.files := hm.files_eq
    cases io with
    | stops step error => cases step <;> cases hresult
    | completes =>
        have hstore : m = { s' with files := s.files } := by
          have hs' : (m.save lib .completes).2 = s' := congrArg Prod.snd hresult
          rw [← hfiles, ← hs']
          rfl
        rw [← hstore]
        exact ⟨hm, rfl⟩
  · exact absurd ((Op.side_of_not_callsSave (not_exists.mp hsave) happly).2 rfl) hop

/-- The maps of the latest completed `save` change only when a later call completes
a `save` of its own. -/
theorem Steps.lastSaved_cases {lib : External} {allowed : MetadataStore → Event → Prop}
    {p p' : MetadataStore × Maps} (hsteps : Steps lib allowed p p') :
    p'.2 = p.2 ∨ ∃ s g, ∃ (op : Op) (m : MetadataStore), Steps lib allowed p (s, g) ∧
      op.CallsSave lib s m ∧
      p'.2 = m.maps ∧ Steps lib allowed ((m.save lib .completes).2, m.maps) p' := by
  induction hsteps with
  | refl => exact .inl rfl
  | @tail b c hbefore hlast ih =>
      have hkeep : c.2 = b.2 → c.2 = p.2 ∨
          ∃ s g, ∃ (op : Op) (m : MetadataStore), Steps lib allowed p (s, g) ∧
          op.CallsSave lib s m ∧ c.2 = m.maps ∧
          Steps lib allowed ((m.save lib .completes).2, m.maps) c := by
        intro heq
        rcases ih with hsame | ⟨s, g, op, m, hs, hsave, hmaps, hafter⟩
        · exact .inl (heq.trans hsame)
        · exact .inr ⟨s, g, op, m, hs, hsave, heq.trans hmaps, hafter.tail hlast⟩
      cases hlast with
      | @saving s m g op io hallowed hsave =>
          cases io with
          | completes => exact .inr ⟨s, g, op, m, hbefore, hsave, rfl, .refl⟩
          | stops step error => exact hkeep rfl
      | other => exact hkeep rfl
      | restart => exact hkeep rfl

/-- Durability and atomicity.  Wherever a run stops, the reload yields exactly the
in-memory maps at the latest `save` whose rename completed.  A call that returned
`Ok`, other than a reservation or a registry call, completed such a `save`, so a
later reload yields its maps, or the maps of a later completed `save`. -/
theorem reload_exact_and_ok_durable (lib : External) (hlib : lib.Lawful)
    (s : MetadataStore) (g : Maps) (hrun : Run lib anyEvent s g) :
    (∀ files, s.files.Survives files →
      ∃ s', MetadataStore.new lib files = .ok s' ∧ s'.maps = g) ∧
    (∀ (op : Op) io s', op.apply lib io s = some (.ok (), s') → ¬ op.Volatile →
      op.CallsSave lib s { s' with files := s.files } ∧ io = .completes ∧
      Run lib anyEvent s' s'.maps ∧
      ∀ s₁ g₁ files, Steps lib anyEvent (s', s'.maps) (s₁, g₁) → s₁.files.Survives files →
        ∃ s₂, MetadataStore.new lib files = .ok s₂ ∧ s₂.maps = g₁ ∧
          (g₁ = s'.maps ∨
            ∃ s₃ g₃, ∃ (op' : Op) (m : MetadataStore), Steps lib anyEvent (s', s'.maps) (s₃, g₃) ∧
            op'.CallsSave lib s₃ m ∧ g₁ = m.maps)) := by
  refine ⟨fun files hcrash => hrun.reload hlib hcrash, ?_⟩
  intro op io s' happly hop
  obtain ⟨hsave, rfl⟩ := Op.ok_completes happly hop
  have hstore : ({ s' with files := s.files } : MetadataStore).save lib .completes =
      (.ok (), s') := by
    have hio := hsave .completes
    rw [happly] at hio
    exact (Option.some.inj hio).symm
  have hnext : Run lib anyEvent s' s'.maps := by
    have hstep : Step lib anyEvent (s, g)
        ((({ s' with files := s.files } : MetadataStore).save lib .completes).2,
          SaveIo.completes.lastSaved s'.maps g) := .saving trivial hsave
    rw [hstore] at hstep
    exact hrun.extend (.single hstep)
  refine ⟨hsave, rfl, hnext, ?_⟩
  intro s₁ g₁ files hsteps hcrash
  obtain ⟨s₂, hnew, hmaps⟩ := (hnext.extend hsteps).reload hlib hcrash
  refine ⟨s₂, hnew, hmaps, ?_⟩
  rcases hsteps.lastSaved_cases with hsame | ⟨s₃, g₃, op', m, hs₃, hsave', hm, _⟩
  · exact .inl hsame
  · exact .inr ⟨s₃, g₃, op', m, hs₃, hsave', hm⟩

/-- An empty store that stores one object and crashes right after. -/
theorem reload_exact_and_ok_durable_put :
    ∃ s : MetadataStore, (MetadataStore.fresh MetaFiles.empty).putObject jsonLib .completes 7 "a" =
        (.ok (), s) ∧
      ∃ s', MetadataStore.new jsonLib s.files = .ok s' ∧ s'.maps = s.maps := by
  refine ⟨_, rfl, ?_⟩
  have hbefore := reload_exact_and_ok_durable jsonLib jsonLib_lawful _ _
    (Run.start jsonLib anyEvent)
  obtain ⟨_, _, hrun, _⟩ := hbefore.2 (.putObject 7 "a") .completes _ rfl (by simp [Op.Volatile])
  exact (reload_exact_and_ok_durable jsonLib jsonLib_lawful _ _ hrun).1 _ (.refl _)

end StorageMetadata
end ObjectStore
