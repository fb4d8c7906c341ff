import ObjectStore.StorageNode.Disk

/-!
# Storage node - Exact transfers

The loops `write_all_at` and `read_exact_at` for every behaviour of the system calls
under them.  A call that moves at least one byte shortens what is left, and any other call
ends the loop, so a transfer makes at most one system call for each byte.

Main results:

- Theorem `replaced_iff`: the bytes of a range were replaced, and nothing else.
- Theorem `Disk.writeAllAt_exact`: the buffer is written, or a proper prefix of it.
- Theorem `Disk.readExactAt_exact`: the buffer holds the bytes of the file.
- Theorem `Disk.transfers_exact`: both loops.
-/

namespace ObjectStore
namespace StorageNode

open Library (ByteFile)

/-! ## What a transfer may do -/

/-- `file'` is `file` with the bytes from `offset` on replaced by `bytes`. -/
structure Replaced (file file' : ByteFile) (offset : Nat) (bytes : Bytes) : Prop where
  inside : ∀ i (hi : i < bytes.length), file'.byteAt (offset + i) = bytes[i]
  outside : ∀ position, position < offset ∨ offset + bytes.length ≤ position →
    file'.byteAt position = file.byteAt position
  /-- The file grows when the range ends behind its end. -/
  len : file'.len = if bytes = [] then file.len else max file.len (offset + bytes.length)

/-- Only one file results from replacing a range. -/
theorem replaced_iff {file file' : ByteFile} {offset : Nat} {bytes : Bytes} :
    Replaced file file' offset bytes ↔ file' = file.splice offset bytes := by
  constructor
  · intro h
    refine ByteFile.ext h.len fun position => ?_
    by_cases hin : offset ≤ position ∧ position < offset + bytes.length
    · have hinside := h.inside (position - offset) (by omega)
      rw [Nat.add_sub_cancel' hin.1] at hinside
      rw [hinside, ByteFile.byteAt_splice_of_mem hin.1 (by omega)]
    · have hout : position < offset ∨ offset + bytes.length ≤ position := by omega
      rw [h.outside position hout, ByteFile.byteAt_splice_of_disjoint hout]
  · rintro rfl
    refine ⟨fun i hi => ?_, fun position hout => ByteFile.byteAt_splice_of_disjoint hout, rfl⟩
    rw [ByteFile.byteAt_splice_of_mem (by omega) (by omega)]
    simp

/-- A write of a buffer made at most one system call for each byte, and wrote the buffer
or a proper prefix of it. -/
structure ExactWrite (disk : Disk) (buf : Bytes) (offset : Nat)
    (outcome : IoResult Unit × Disk) : Prop where
  terminates : ∃ made ≤ buf.length, outcome.2.calls = disk.calls.drop made
  ok : outcome.1 = .ok () → Replaced disk.file outcome.2.file offset buf
  error : ∀ error, outcome.1 = .error error →
    ∃ written < buf.length, Replaced disk.file outcome.2.file offset (buf.take written)

/-- A read of `count` bytes made at most one system call for each byte, left the file
alone, and returned its bytes. -/
structure ExactRead (disk : Disk) (count offset : Nat) (outcome : IoResult Bytes × Disk) :
    Prop where
  terminates : ∃ made ≤ count, outcome.2.calls = disk.calls.drop made
  file : outcome.2.file = disk.file
  ok : ∀ bytes, outcome.1 = .ok bytes → bytes.length = count ∧
    ∀ i (hi : i < bytes.length),
      offset + i < disk.file.len ∧ bytes[i] = disk.file.byteAt (offset + i)

/-- Two adjacent ranges are one. -/
theorem Replaced.append {file middle file' : ByteFile} {offset count : Nat} {bytes bytes' : Bytes}
    (h : Replaced file middle offset bytes) (hcount : bytes.length = count)
    (h' : Replaced middle file' (offset + count) bytes') :
    Replaced file file' offset (bytes ++ bytes') := by
  rw [replaced_iff] at h h' ⊢
  rw [h', h, ← hcount, ByteFile.splice_append]

/-! ## Writes -/

/-- A system call that moves nothing ends the loop and leaves the file. -/
theorem ExactWrite.of_stop {disk : Disk} {buf : Bytes} (hne : buf ≠ []) (offset : Nat)
    (error : IoError) :
    ExactWrite disk buf offset (.error error, ⟨disk.file, disk.calls.tail⟩) := by
  have hpos : 0 < buf.length := List.length_pos_iff.mpr hne
  refine ⟨⟨1, hpos, Stream'.tail_eq_drop _⟩, by simp, fun _ _ => ⟨0, hpos, replaced_iff.mpr ?_⟩⟩
  rw [List.take_zero, ByteFile.splice_nil]

/-- A system call that moves bytes in front of an exact write of the rest. -/
theorem ExactWrite.of_moved {disk : Disk} {buf : Bytes} {offset written : Nat}
    {outcome : IoResult Unit × Disk} (hwritten : written < buf.length)
    (hrest : ExactWrite ⟨disk.file.splice offset (buf.take (written + 1)), disk.calls.tail⟩
      (buf.drop (written + 1)) (offset + (written + 1)) outcome) :
    ExactWrite disk buf offset outcome := by
  have htake : (buf.take (written + 1)).length = written + 1 := by
    rw [List.length_take]
    omega
  have hfirst : Replaced disk.file (disk.file.splice offset (buf.take (written + 1))) offset
      (buf.take (written + 1)) := replaced_iff.mpr rfl
  constructor
  · rcases hrest.terminates with ⟨made, hmade, hcalls⟩
    rw [List.length_drop] at hmade
    refine ⟨made + 1, by omega, ?_⟩
    rw [hcalls, Stream'.drop_succ]
  · intro hok
    have hboth := hfirst.append htake (hrest.ok hok)
    rwa [List.take_append_drop] at hboth
  · intro error herror
    rcases hrest.error error herror with ⟨more, hmore, hsecond⟩
    rw [List.length_drop] at hmore
    have hboth := hfirst.append htake hsecond
    rw [← List.take_add] at hboth
    exact ⟨written + 1 + more, by omega, hboth⟩

namespace Disk

/-- The loop writes the buffer or a proper prefix of it, whatever the system calls do. -/
theorem writeAllAt_exact (self : Disk) (buf : Bytes) (offset : Nat) :
    ExactWrite self buf offset (self.writeAllAt buf offset) := by
  induction hlength : buf.length using Nat.strong_induction_on generalizing self buf offset with
  | h length ih =>
      by_cases hne : buf = []
      · rw [writeAllAt, if_pos hne]
        refine ⟨⟨0, Nat.zero_le _, rfl⟩, fun _ => replaced_iff.mpr ?_, by simp⟩
        rw [hne, ByteFile.splice_nil]
      · rcases writeAllAt_round self.calls hne offset with
          ⟨_, error, hstop⟩ | ⟨written, hwritten, _, hround⟩
        · rw [hstop self.file]
          exact .of_stop hne offset error
        · rw [hround self.file]
          refine .of_moved hwritten (ih _ ?_ _ _ _ rfl)
          rw [List.length_drop]
          omega

end Disk

/-! ## Reads -/

/-- A system call that reads nothing ends the loop. -/
theorem ExactRead.of_stop {disk : Disk} {count : Nat} (hpos : 0 < count) (offset : Nat)
    (error : IoError) :
    ExactRead disk count offset (.error error, ⟨disk.file, disk.calls.tail⟩) :=
  ⟨⟨1, hpos, Stream'.tail_eq_drop _⟩, rfl, by simp⟩

/-- A system call that reads bytes in front of an exact read of the rest. -/
theorem ExactRead.of_moved {disk disk' : Disk} {count offset moved : Nat}
    {result : IoResult Bytes} (hmoved : moved < count)
    (hlen : offset + (moved + 1) ≤ disk.file.len)
    (hrest : ExactRead ⟨disk.file, disk.calls.tail⟩ (count - (moved + 1)) (offset + (moved + 1))
      (result, disk')) :
    ExactRead disk count offset
      (result.map (disk.file.slice offset (moved + 1) ++ ·), disk') := by
  constructor
  · rcases hrest.terminates with ⟨made, hmade, hcalls⟩
    exact ⟨made + 1, by omega, hcalls⟩
  · exact hrest.file
  · intro bytes hok
    cases result with
    | error error => cases hok
    | ok rest =>
        cases hok
        rcases hrest.ok rest rfl with ⟨hlength, hbytes⟩
        refine ⟨by rw [List.length_append, ByteFile.length_slice, hlength]; omega, fun i hi => ?_⟩
        rw [List.length_append, ByteFile.length_slice] at hi
        by_cases hfirst : i < moved + 1
        · refine ⟨by omega, ?_⟩
          rw [List.getElem_append_left (by rwa [ByteFile.length_slice]), ByteFile.getElem_slice]
        · rcases hbytes (i - (moved + 1)) (by omega) with ⟨hinside, hbyte⟩
          have hposition : offset + (moved + 1) + (i - (moved + 1)) = offset + i := by omega
          rw [hposition] at hinside hbyte
          refine ⟨hinside, ?_⟩
          rw [List.getElem_append_right (by rw [ByteFile.length_slice]; omega)]
          simp only [ByteFile.length_slice]
          exact hbyte

namespace Disk

/-- The loop returns the bytes of the file, whatever the system calls do. -/
theorem readExactAt_exact (self : Disk) (count offset : Nat) :
    ExactRead self count offset (self.readExactAt count offset) := by
  induction count using Nat.strong_induction_on generalizing self offset with
  | h count ih =>
      by_cases hzero : count = 0
      · rw [readExactAt, if_pos hzero]
        refine ⟨⟨0, Nat.zero_le _, rfl⟩, rfl, ?_⟩
        rintro bytes ⟨⟩
        refine ⟨hzero.symm, fun i hi => ?_⟩
        cases hi
      · rcases self.readExactAt_round hzero offset with
          ⟨error, hstop⟩ | ⟨moved, hmoved, hlen, result, disk, hrest, hround⟩
        · rw [hstop]
          exact .of_stop (Nat.pos_of_ne_zero hzero) offset error
        · have hexact := ih (count - (moved + 1)) (by omega) ⟨self.file, self.calls.tail⟩
            (offset + (moved + 1))
          rw [hrest] at hexact
          rw [hround]
          exact .of_moved hmoved hlen hexact

/-- Both loops are exact, whatever the system calls do. -/
theorem transfers_exact (self : Disk) (buf : Bytes) (count offset : Nat) :
    ExactWrite self buf offset (self.writeAllAt buf offset) ∧
      ExactRead self count offset (self.readExactAt count offset) :=
  ⟨self.writeAllAt_exact buf offset, self.readExactAt_exact count offset⟩

end Disk
end StorageNode
end ObjectStore
