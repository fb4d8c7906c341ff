import ObjectStore.Library.Codec
import ObjectStore.StorageMetadata.Store

/-!
# Storage metadata - An encoding that `External` can stand for

The compact JSON text of a `PersistentState`, field by field as the derived
`Serialize` instances write it, with a decoder that inverts it.  Runs on concrete
stores use it where the results speak of any lawful `External`.

Main results:

- Theorem `jsonLib_lawful`: the encoding has the properties the store relies on.
-/

namespace ObjectStore
namespace StorageMetadata

open Library (Codec)

/-! ## The fields -/

/-- A checksum as a number. -/
def uint32Codec : Codec UInt32 :=
  Codec.nat.transport UInt32.toNat UInt32.ofNat fun n => by simp

/-- An id or a size as a number. -/
def uint64Codec : Codec UInt64 :=
  Codec.nat.transport UInt64.toNat UInt64.ofNat fun n => by simp

/-- A list of ids. -/
def idListCodec : Codec (List UInt64) :=
  uint64Codec.list '[' ']' (by decide) (.inl rfl)

/-- The name of a status. -/
def statusCodec : Codec ChunkStatus :=
  Codec.string.transport
    (fun status => match status with | .pending => "Pending" | .confirmed => "Confirmed")
    (fun name => if name = "Pending" then .pending else .confirmed)
    fun status => by cases status <;> decide

/-! ## The records -/

theorem starts_brace (rest : List Char) : Library.Starts ('\x7b' :: rest) :=
  ⟨'\x7b', rest, rfl, by decide, by decide⟩

theorem boundary_cons {c : Char} (hc : c.isDigit = false) (rest : List Char) :
    Library.Boundary (c :: rest) := by
  simp [Library.Boundary, hc]

/-- An object with its fields in order. -/
def objectCodec : Codec MetaObject :=
  (((Codec.string.pair ",\"checksum\":" uint32Codec fun _ => boundary_cons rfl _).pair
      ",\"chunks\":" idListCodec fun _ => boundary_cons rfl _).pair
      ",\"total_size\":" uint64Codec fun _ => boundary_cons rfl _)
    |>.wrap "\x7b\"name\":" "\x7d" (starts_brace _) (fun _ => boundary_cons rfl _)
    |>.transport (fun o => (((o.name, o.checksum), o.chunks), o.totalSize))
      (fun p => ⟨p.1.1.1, p.1.1.2, p.1.2, p.2⟩) fun _ => rfl

example : objectCodec.toString ⟨"a", 7, [10, 11], 0⟩ =
    "\x7b\"name\":\"a\",\"checksum\":7,\"chunks\":[10,11],\"total_size\":0\x7d" := by
  decide +kernel

/-- A chunk with its fields in order. -/
def chunkCodec : Codec MetaChunk :=
  ((((uint64Codec.pair ",\"object_name\":" Codec.string fun _ => boundary_cons rfl _).pair
      ",\"checksum\":" uint32Codec fun _ => boundary_cons rfl _).pair
      ",\"storage_nodes\":" idListCodec fun _ => boundary_cons rfl _).pair
      ",\"status\":" statusCodec fun _ => boundary_cons rfl _)
    |>.wrap "\x7b\"id\":" "\x7d" (starts_brace _) (fun _ => boundary_cons rfl _)
    |>.transport (fun c => ((((c.id, c.objectName), c.checksum), c.storageNodes), c.status))
      (fun p => ⟨p.1.1.1.1, p.1.1.1.2, p.1.1.2, p.1.2, p.2⟩) fun _ => rfl

/-! ## The maps -/

/-- An object whose members are the entries of a map. -/
def mapCodec {K V : Type} [Ord K] [Std.TransOrd K] [Std.LawfulEqOrd K] (key : Codec K)
    (value : Codec V) : Codec (HashMap K V) :=
  ((key.pair ":" value fun _ => boundary_cons rfl _).list '\x7b' '\x7d' (by decide) (.inr rfl))
    |>.transport Std.ExtTreeMap.toList (Std.ExtTreeMap.ofList · compare) HashMap.ofList_toList

/-- Integer keys are written as strings. -/
def quotedIdCodec : Codec UInt64 :=
  uint64Codec.wrap "\"" "\"" ⟨'"', [], rfl, by decide, by decide⟩ fun _ => boundary_cons rfl _

/-- The whole state, as `serde_json` writes it. -/
def stateCodec : Codec PersistentState :=
  ((uint32Codec.pair ",\"objects\":" (mapCodec Codec.string objectCodec)
      fun _ => boundary_cons rfl _).pair
      ",\"chunks\":" (mapCodec quotedIdCodec chunkCodec) fun _ => boundary_cons rfl _)
    |>.wrap "\x7b\"version\":" "\x7d" (starts_brace _) (fun _ => boundary_cons rfl _)
    |>.transport (fun s => ((s.version, s.objects), s.chunks))
      (fun p => ⟨p.1.1, p.1.2, p.2⟩) fun _ => rfl

/-- `serde_json` on the documents that it writes itself, and an address check that
refuses the empty string only. -/
def jsonLib : External where
  toJson := stateCodec.toString
  fromJson document :=
    match stateCodec.decode? document with
    | some state => .ok state
    | none => .error "expected value at line 1 column 1"
  isUri address := !address.isEmpty

/-- What is written is read back. -/
theorem jsonLib_lawful : jsonLib.Lawful where
  fromJson_toJson state := by
    simp only [jsonLib, Codec.decode?_toString]
  fromJson_empty state := by
    have hnone : stateCodec.decode [] = none := rfl
    simp [jsonLib, Codec.decode?, hnone]

end StorageMetadata
end ObjectStore
