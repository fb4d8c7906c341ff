import ObjectStore.ApiGateway.Upload
import ObjectStore.Library.Delimited

/-!
# API gateway - Object names

The grammar of object names and the validator.  A name has 1 to 1024 characters and is
cut by `/` into non-empty segments of alphanumeric characters, `-`, `_` and `.`.  The
validator measures the name in bytes of UTF-8, where the grammar counts characters.

Main results:

- Theorem `validateObjectName_ok_iff`: the names that the validator accepts.
- Theorem `validateObjectName_iff_isObjectName`: the names on which the validator and the
  grammar agree.
- Theorem `accented_name_refused`: 513 characters of two bytes are refused as too many.
-/

namespace ObjectStore
namespace ApiGateway

open ObjectStore.Library (Separated separated_cons nil_notMem_splitOn forall_mem_splitOn)

variable {lib : Library} {name : String}

/-! ## The grammar -/

/-- A character of a segment. -/
def NameChar (lib : Library) (c : Char) : Prop :=
  lib.isAlphanumeric c = true ∨ c = '-' ∨ c = '_' ∨ c = '.'

/-- Cut at the slashes, the name is made of non-empty segments. -/
def WellSegmented (lib : Library) (name : String) : Prop :=
  ∀ segment ∈ name.toList.splitOn '/', segment ≠ [] ∧ ∀ c ∈ segment, NameChar lib c

/-- The grammar of object names. -/
structure IsObjectName (lib : Library) (name : String) : Prop where
  nonempty : 1 ≤ name.length
  short : name.length ≤ MAX_OBJECT_NAME_LENGTH
  segments : WellSegmented lib name

/-- The tests on the whole name that say what its segments are. -/
theorem wellSegmented_iff :
    WellSegmented lib name ↔
      (∀ c ∈ name.toList, c = '/' ∨ NameChar lib c) ∧ name.toList ≠ [] ∧
        name.toList.head? ≠ some '/' ∧ name.toList.getLast? ≠ some '/' ∧
        Separated '/' name.toList := by
  have hnil : [] ∉ name.toList.splitOn '/' ↔ ∀ segment ∈ name.toList.splitOn '/', segment ≠ [] := by
    refine ⟨fun h segment hmem hempty => h (hempty ▸ hmem), fun h hmem => h [] hmem rfl⟩
  rw [← nil_notMem_splitOn, ← forall_mem_splitOn, hnil, WellSegmented]
  constructor
  · intro h
    exact ⟨fun segment hmem => (h segment hmem).2, fun segment hmem => (h segment hmem).1⟩
  · rintro ⟨hchars, hne⟩ segment hmem
    exact ⟨hne segment hmem, hchars segment hmem⟩

/-- The empty name has one segment, which is empty. -/
theorem WellSegmented.nonempty (h : WellSegmented lib name) : 1 ≤ name.length := by
  have hne : name.toList ≠ [] := (wellSegmented_iff.mp h).2.1
  have hpos : 0 < name.toList.length := List.length_pos_iff.mpr hne
  rwa [String.length_toList] at hpos

/-- Names are short and have segments that are not empty. -/
theorem isObjectName_iff :
    IsObjectName lib name ↔ name.length ≤ MAX_OBJECT_NAME_LENGTH ∧ WellSegmented lib name := by
  constructor
  · intro h
    exact ⟨h.short, h.segments⟩
  · rintro ⟨hshort, hsegments⟩
    exact ⟨hsegments.nonempty, hshort, hsegments⟩

/-! ## Bytes and characters -/

/-- The length in bytes is the sum over the characters. -/
theorem utf8ByteSize_ofList (chars : List Char) :
    (String.ofList chars).utf8ByteSize = (chars.map Char.utf8Size).sum := by
  induction chars with
  | nil => rfl
  | cons c chars ih =>
      rw [String.ofList_cons, String.utf8ByteSize_append, String.utf8ByteSize_singleton, ih,
        List.map_cons, List.sum_cons]

/-- No character takes less than a byte. -/
theorem length_le_utf8ByteSize (name : String) : name.length ≤ name.utf8ByteSize := by
  have hsum : name.utf8ByteSize = (name.toList.map Char.utf8Size).sum := by
    rw [← utf8ByteSize_ofList, String.ofList_toList]
  have hlength := List.length_le_sum_of_one_le (name.toList.map Char.utf8Size) (by
    intro size hmem
    rcases List.mem_map.mp hmem with ⟨c, _, rfl⟩
    exact c.utf8Size_pos)
  rw [List.length_map, String.length_toList] at hlength
  omega

/-! ## The validator -/

/-- No two separators meet. -/
theorem hasDoubleSlash_eq_false (chars : List Char) :
    hasDoubleSlash chars = false ↔ Separated '/' chars := by
  induction chars using hasDoubleSlash.induct with
  | case1 chars => simp [hasDoubleSlash, Separated]
  | case2 c chars hne ih =>
      have hhead : c = '/' → chars.head? ≠ some '/' := by
        intro hc hhead
        rcases List.head?_eq_some_iff.mp hhead with ⟨rest, hrest⟩
        exact hne rest hc hrest
      rw [hasDoubleSlash.eq_2 c chars hne, ih, separated_cons]
      exact (and_iff_right hhead).symm
  | case3 => simp [hasDoubleSlash, Separated]

/-- The names that the validator accepts. -/
theorem validateObjectName_ok_iff :
    validateObjectName lib name = .ok () ↔
      name.utf8ByteSize ≤ MAX_OBJECT_NAME_LENGTH ∧ WellSegmented lib name := by
  have hempty : name.isEmpty = true ↔ name.toList = [] := by
    rw [String.isEmpty_iff, String.toList_eq_nil_iff]
  have hchars : (name.toList.all fun c =>
      lib.isAlphanumeric c || c == '-' || c == '_' || c == '.' || c == '/') = true ↔
        ∀ c ∈ name.toList, c = '/' ∨ NameChar lib c := by
    rw [List.all_eq_true]
    refine forall₂_congr fun c _ => ?_
    simp only [Bool.or_eq_true, beq_iff_eq, NameChar]
    tauto
  rw [wellSegmented_iff, ← hasDoubleSlash_eq_false, ← hchars, validateObjectName]
  split_ifs with hnone hlong hbad hends hdouble
  · exact iff_of_false (by simp) fun h => h.2.2.1 (hempty.mp hnone)
  · exact iff_of_false (by simp) fun h => absurd h.1 (by omega)
  · refine iff_of_false (by simp) fun h => ?_
    rw [h.2.1] at hbad
    cases hbad
  · refine iff_of_false (by simp) fun h => ?_
    rw [Bool.or_eq_true, beq_iff_eq, beq_iff_eq] at hends
    exact hends.elim h.2.2.2.1 h.2.2.2.2.1
  · refine iff_of_false (by simp) fun h => ?_
    rw [h.2.2.2.2.2] at hdouble
    cases hdouble
  · rw [Bool.not_eq_true', Bool.not_eq_false] at hbad
    rw [Bool.or_eq_true, beq_iff_eq, beq_iff_eq, not_or] at hends
    rw [Bool.not_eq_true] at hdouble
    have hne : name.toList ≠ [] := fun hnil => hnone (hempty.mpr hnil)
    exact iff_of_true rfl ⟨by omega, hbad, hne, hends.1, hends.2, hdouble⟩

/-- The validator counts the bytes of a name, and the grammar its characters. -/
theorem validateObjectName_iff_isObjectName (lib : Library) (name : String) :
    (validateObjectName lib name = .ok () ↔ IsObjectName lib name) ↔
      name.utf8ByteSize ≤ MAX_OBJECT_NAME_LENGTH ∨ MAX_OBJECT_NAME_LENGTH < name.length ∨
        ¬ WellSegmented lib name := by
  have hle := length_le_utf8ByteSize name
  rw [validateObjectName_ok_iff, isObjectName_iff]
  constructor
  · intro hiff
    by_cases hsegments : WellSegmented lib name
    · by_cases hlength : MAX_OBJECT_NAME_LENGTH < name.length
      · exact .inr (.inl hlength)
      · exact .inl (hiff.mpr ⟨by omega, hsegments⟩).1
    · exact .inr (.inr hsegments)
  · rintro (hbytes | hlength | hsegments)
    · exact and_congr_left fun _ => iff_of_true hbytes (hle.trans hbytes)
    · exact iff_of_false (fun h => absurd h.1 (by omega)) fun h => absurd h.1 (by omega)
    · exact iff_of_false (fun h => hsegments h.2) fun h => hsegments h.2

/-- An accented letter is alphanumeric, and has two bytes. -/
def accentedLibrary : Library :=
  { plainLibrary with isAlphanumeric := fun c => c.isAlphanum || c == 'é' }

/-- 513 characters of two bytes are refused as more than 1024 characters. -/
theorem accented_name_refused :
    let name := String.ofList (List.replicate 513 'é')
    IsObjectName accentedLibrary name ∧
      validateObjectName accentedLibrary name =
        .error "object name must not exceed 1024 characters" := by
  intro name
  have hlist : name.toList = List.replicate 513 'é' := String.toList_ofList
  have hne : List.replicate 513 'é' ≠ [] := fun hnil =>
    absurd ((List.replicate_eq_nil_iff _).mp hnil) (by decide)
  have hlength : name.length = 513 := by
    rw [← String.length_toList, hlist, List.length_replicate]
  have hbytes : name.utf8ByteSize = 1026 := by
    rw [utf8ByteSize_ofList, List.map_replicate, List.sum_replicate]
    rfl
  have hsegments : WellSegmented accentedLibrary name := by
    have hslash : '/' ∉ List.replicate 513 'é' := fun hmem =>
      absurd (List.eq_of_mem_replicate hmem) (by decide)
    intro segment hmem
    rw [hlist, List.splitOn_eq_singleton hslash, List.mem_singleton] at hmem
    rw [hmem]
    refine ⟨hne, fun c hc => .inl ?_⟩
    rw [List.eq_of_mem_replicate hc]
    rfl
  have hempty : name.isEmpty = false := by
    rw [Bool.eq_false_iff, Ne, String.isEmpty_iff, ← String.toList_eq_nil_iff, hlist]
    exact hne
  refine ⟨isObjectName_iff.mpr ⟨?_, hsegments⟩, ?_⟩
  · rw [hlength]
    decide
  · rw [validateObjectName, hempty, if_neg Bool.false_ne_true, hbytes, if_pos (by decide)]
    rfl

end ApiGateway
end ObjectStore
