import ObjectStore.Library.Refinement

/-!
# Library - Maps that change by events

The abstract view of a store: a map from keys to values, and what its clients see of it.  A
key is created once and not overwritten; it can be created again after it has been removed.

Main definitions:

- `KeyValue.Lists`: what a list of all entries is.
- `KeyValue.Event`, `KeyValue.steps`: what clients see, as steps of the map.
- `KeyValue.Last`: the last creation of a key that has not been removed since.

Main results:

- Theorem `KeyValue.value_iff_last`: the map holds what was created last.
- Theorems `KeyValue.trace_created`, `trace_refused`: runs of events of one kind.
-/

namespace ObjectStore
namespace Library
namespace KeyValue

variable {K V : Type}

/-- What a client sees. -/
inductive Event (K V : Type) where
  | created (key : K) (value : V)
  /-- A creation refused because the key is taken. -/
  | conflict (key : K)
  | found (key : K) (value : V)
  /-- The key is looked for or to be removed, and is not there. -/
  | missing (key : K)
  | removed (key : K)
  /-- Everything that is there, in some order. -/
  | listed (entries : List (K × V))
  | idle

/-- The entries are those of the map, each key once. -/
structure Lists (map : K → Option V) (entries : List (K × V)) : Prop where
  nodup : (entries.map Prod.fst).Nodup
  mem_iff : ∀ (key : K) (value : V), (key, value) ∈ entries ↔ map key = some value

/-- The map allows the event. -/
def Event.Allowed (map : K → Option V) : Event K V → Prop
  | .created key _ | .missing key => map key = none
  | .conflict key | .removed key => (map key).isSome
  | .found key value => map key = some value
  | .listed entries => Lists map entries
  | .idle => True

variable {map map' : K → Option V} {events : List (Event K V)} {event : Event K V} {key : K}
  {value : V}

/-- The key was created with this value, and it has not been removed since. -/
def Last (events : List (Event K V)) (key : K) (value : V) : Prop :=
  Since (· = .created key value) (· = .removed key) events

variable [DecidableEq K]

/-- The map after the event. -/
def Event.apply (map : K → Option V) : Event K V → K → Option V
  | .created key value => Function.update map key (some value)
  | .removed key => Function.update map key none
  | .conflict _ | .found _ _ | .missing _ | .listed _ | .idle => map

/-- A map takes the step of an event that it allows. -/
def steps : Lts (K → Option V) (Event K V) :=
  fun map event map' => event.Allowed map ∧ map' = event.apply map

/-- One more event. -/
theorem last_step (hallowed : event.Allowed map)
    (h : map key = some value ↔ Last events key value) :
    event.apply map key = some value ↔ Last (events ++ [event]) key value := by
  rw [Last, since_append_iff, ← Last, ← h]
  cases event with
  | created other found =>
      by_cases hkey : key = other
      · subst hkey
        have hnone : map key = none := hallowed
        simp [Event.apply, hnone]
      · simp [Event.apply, Function.update_of_ne hkey, Ne.symm hkey]
  | removed other =>
      by_cases hkey : key = other
      · subst hkey
        simp [Event.apply]
      · simp [Event.apply, Function.update_of_ne hkey, Ne.symm hkey]
  | conflict _ | found _ _ | missing _ | listed _ | idle => simp [Event.apply]

/-- In a map that was empty at first, a key has the value it was created with last. -/
theorem value_iff_last (h : steps.Trace (fun _ => none) events map) :
    map key = some value ↔ Last events key value := by
  induction events using List.reverseRecOn generalizing map with
  | nil =>
      rw [Lts.trace_nil_iff] at h
      subst h
      simp [Last, Since]
  | append_singleton events event ih =>
      rcases Lts.trace_append_iff.mp h with ⟨before, hbefore, hlast⟩
      rcases Lts.trace_cons_iff.mp hlast with ⟨after, hstep, hafter⟩
      rcases hstep with ⟨hallowed, rfl⟩
      rw [Lts.trace_nil_iff] at hafter
      rw [← hafter]
      exact last_step hallowed (ih hbefore)

/-- Different keys that are free are created, one after the other. -/
theorem trace_created {entries : List (K × V)} (hnodup : (entries.map Prod.fst).Nodup)
    (hfree : ∀ entry ∈ entries, map entry.1 = none)
    (hheld : ∀ entry ∈ entries, map' entry.1 = some entry.2)
    (hothers : ∀ key, key ∉ entries.map Prod.fst → map' key = map key) :
    steps.Trace map (entries.map fun entry => .created entry.1 entry.2) map' := by
  induction entries generalizing map with
  | nil =>
      rw [List.map_nil, Lts.trace_nil_iff]
      funext key
      exact (hothers key List.not_mem_nil).symm
  | cons entry entries ih =>
      rw [List.map_cons, List.nodup_cons] at hnodup
      rw [List.map_cons, Lts.trace_cons_iff]
      refine ⟨_, ⟨hfree entry List.mem_cons_self, rfl⟩, ih hnodup.2 ?_ ?_ ?_⟩
      · intro other hother
        have hne : other.1 ≠ entry.1 := by
          intro heq
          apply hnodup.1
          rw [← heq]
          exact List.mem_map_of_mem hother
        rw [Event.apply, Function.update_of_ne hne]
        exact hfree other (List.mem_cons_of_mem _ hother)
      · exact fun other hother => hheld other (List.mem_cons_of_mem _ hother)
      · intro key hkey
        by_cases heq : key = entry.1
        · rw [heq, Event.apply, Function.update_self]
          exact hheld entry List.mem_cons_self
        · rw [Event.apply, Function.update_of_ne heq]
          apply hothers
          rw [List.map_cons, List.mem_cons, not_or]
          exact ⟨heq, hkey⟩

/-- Refused creations, and events that say nothing, change nothing. -/
theorem trace_refused
    (h : ∀ event ∈ events, event = .idle ∨ ∃ key, event = .conflict key ∧ map key ≠ none) :
    steps.Trace map events map := by
  induction events with
  | nil => exact .nil map
  | cons event events ih =>
      rw [List.forall_mem_cons] at h
      rw [Lts.trace_cons_iff]
      refine ⟨map, ?_, ih h.2⟩
      rcases h.1 with rfl | ⟨key, rfl, htaken⟩
      · exact ⟨trivial, rfl⟩
      · exact ⟨Option.isSome_iff_ne_none.mpr htaken, rfl⟩

end KeyValue
end Library
end ObjectStore
