import ObjectStore.Io
import ObjectStore.Library.ByteFile

/-!
# Storage node - Positional I/O

The file behind a chunk store and the loops `write_all_at` and `read_exact_at` of
`chunk_store.rs`.  The operating system may move fewer bytes than it was asked to, or
none, or fail: what the coming system calls do is a stream that belongs to the state.

Main results:

- Theorem `Disk.writeAllAt_reliable`: without failures the buffer is written whole.
- Theorem `Disk.readExactAt_reliable`: without failures a range inside the file is
  read whole.
- Theorems `Disk.writeAllAt_round`, `readExactAt_round`: what one system call does to a loop.
- Theorem `Disk.writeAllAt_uniform`: whatever fails, a prefix of the buffer is written; its
  length is `Disk.bytesWritten`, which does not depend on the file.
- Theorem `Disk.readExactAt_uniform`: a read depends on the range that it reads.
-/

namespace ObjectStore
namespace StorageNode

open Library (ByteFile)

/-- What one system call does. -/
inductive SystemCall where
  /-- It succeeds; a read or a write moves at most `count` bytes. -/
  | moved (count : Nat)
  | failed (error : IoError)

/-- The open file together with what the coming system calls do. -/
structure Disk where
  file : ByteFile
  calls : Stream' SystemCall

/-- `i64::MAX`, the largest length that `set_len` passes to the operating system. -/
def maxFileLen : Nat := 2 ^ 63 - 1

namespace Disk

/-- A system call that moves no bytes: `open`, `sync_data` and `metadata`. -/
def call (self : Disk) : IoResult Unit × Disk :=
  match self.calls.head with
  | .moved _ => (.ok (), { self with calls := self.calls.tail })
  | .failed error => (.error error, { self with calls := self.calls.tail })

/-- `File::set_len`, which first converts the length to an `off64_t`. -/
def setLen (self : Disk) (len : Nat) : IoResult Unit × Disk :=
  if maxFileLen < len then (.error ⟨.invalidInput, "number too large to fit in target type"⟩, self)
  else
    match self.calls.head with
    | .moved _ => (.ok (), { file := self.file.setLen len, calls := self.calls.tail })
    | .failed error => (.error error, { self with calls := self.calls.tail })

/-- `FileExt::write_at`: the number of bytes written. -/
def writeAt (self : Disk) (buf : Bytes) (offset : Nat) : IoResult Nat × Disk :=
  match self.calls.head with
  | .moved count =>
      (.ok (min count buf.length),
        { file := self.file.splice offset (buf.take count), calls := self.calls.tail })
  | .failed error => (.error error, { self with calls := self.calls.tail })

/-- `FileExt::read_at`: the bytes read, no more than the file has. -/
def readAt (self : Disk) (count offset : Nat) : IoResult Bytes × Disk :=
  match self.calls.head with
  | .moved moved =>
      (.ok (self.file.slice offset (min (min moved count) (self.file.len - offset))),
        { self with calls := self.calls.tail })
  | .failed error => (.error error, { self with calls := self.calls.tail })

/-- `write_all_at`. -/
def writeAllAt (self : Disk) (buf : Bytes) (offset : Nat) : IoResult Unit × Disk :=
  if buf = [] then (.ok (), self)
  else
    match self.writeAt buf offset with
    | (.error error, self) => (.error error, self)
    | (.ok 0, self) => (.error ⟨.writeZero, "failed to write buffer"⟩, self)
    | (.ok (written + 1), self) =>
        self.writeAllAt (buf.drop (written + 1)) (offset + (written + 1))
termination_by buf.length
decreasing_by
  have hne : buf.length ≠ 0 := by simpa using ‹¬ buf = []›
  rw [List.length_drop]
  omega

/-- How many bytes of a buffer `write_all_at` writes, and the system calls that it leaves. -/
def bytesWritten (calls : Stream' SystemCall) (length : Nat) : Nat × Stream' SystemCall :=
  if length = 0 then (0, calls)
  else
    match calls.head with
    | .failed _ => (0, calls.tail)
    | .moved count =>
        match min count length with
        | 0 => (0, calls.tail)
        | written + 1 =>
            let (more, rest) := bytesWritten calls.tail (length - (written + 1))
            (written + 1 + more, rest)
termination_by length

/-- `read_exact_at` into a buffer of `count` bytes; a failure drops the buffer. -/
def readExactAt (self : Disk) (count offset : Nat) : IoResult Bytes × Disk :=
  if count = 0 then (.ok [], self)
  else
    match self.readAt count offset with
    | (.error error, self) => (.error error, self)
    | (.ok [], self) => (.error ⟨.unexpectedEof, "failed to fill buffer"⟩, self)
    | (.ok (byte :: read), self) =>
        match self.readExactAt (count - (read.length + 1)) (offset + (read.length + 1)) with
        | (.error error, self) => (.error error, self)
        | (.ok rest, self) => (.ok (byte :: read ++ rest), self)
termination_by count

/-! ## Without I/O errors -/

/-- No coming system call fails or moves nothing. -/
def Reliable (self : Disk) : Prop :=
  ∀ n, ∃ count, self.calls.get n = .moved (count + 1)

theorem Reliable.head {self : Disk} (h : self.Reliable) :
    ∃ count, self.calls.head = .moved (count + 1) :=
  h 0

theorem Reliable.tail {self : Disk} (h : self.Reliable) (file : ByteFile) :
    (⟨file, self.calls.tail⟩ : Disk).Reliable :=
  fun n => h (n + 1)

/-- The call returns `value` and leaves `file` behind; later calls are reliable too. -/
def Yields {α : Type} (outcome : IoResult α × Disk) (value : α) (file : ByteFile) : Prop :=
  ∃ disk, outcome = (.ok value, disk) ∧ disk.file = file ∧ disk.Reliable

theorem call_reliable {self : Disk} (h : self.Reliable) : Yields self.call () self.file := by
  rcases h.head with ⟨count, hhead⟩
  rw [call, hhead]
  exact ⟨_, rfl, rfl, h.tail _⟩

theorem setLen_reliable {self : Disk} (h : self.Reliable) {len : Nat} (hlen : len ≤ maxFileLen) :
    Yields (self.setLen len) () (self.file.setLen len) := by
  rcases h.head with ⟨count, hhead⟩
  rw [setLen, if_neg (by omega), hhead]
  exact ⟨_, rfl, rfl, h.tail _⟩

theorem writeAt_reliable {self : Disk} (h : self.Reliable) {buf : Bytes} (hne : buf ≠ [])
    (offset : Nat) :
    ∃ written < buf.length,
      Yields (self.writeAt buf offset) (written + 1)
        (self.file.splice offset (buf.take (written + 1))) := by
  rcases h.head with ⟨count, hhead⟩
  have hpos : 0 < buf.length := List.length_pos_iff.mpr hne
  have hmin : min count (buf.length - 1) + 1 = min (count + 1) buf.length := by omega
  refine ⟨min count (buf.length - 1), by omega, ?_⟩
  rw [writeAt, hhead, hmin, ← List.take_eq_take_min]
  exact ⟨_, rfl, rfl, h.tail _⟩

theorem readAt_reliable {self : Disk} (h : self.Reliable) {count offset : Nat} (hne : count ≠ 0)
    (hlen : offset + count ≤ self.file.len) :
    ∃ moved < count,
      Yields (self.readAt count offset) (self.file.slice offset (moved + 1)) self.file := by
  rcases h.head with ⟨moved, hhead⟩
  have hmin : min (min (moved + 1) count) (self.file.len - offset) = min moved (count - 1) + 1 := by
    omega
  refine ⟨min moved (count - 1), by omega, ?_⟩
  rw [readAt, hhead]
  simp only [hmin]
  exact ⟨_, rfl, rfl, h.tail _⟩

/-- The loop writes the buffer whole, however the system calls cut it up. -/
theorem writeAllAt_reliable {self : Disk} (h : self.Reliable) (buf : Bytes) (offset : Nat) :
    Yields (self.writeAllAt buf offset) () (self.file.splice offset buf) := by
  induction hlength : buf.length using Nat.strong_induction_on generalizing self buf offset with
  | h length ih =>
      by_cases hne : buf = []
      · rw [writeAllAt, if_pos hne, hne, ByteFile.splice_nil]
        exact ⟨_, rfl, rfl, h⟩
      · rcases writeAt_reliable h hne offset with ⟨written, hlt, disk, hwrite, hfile, hdisk⟩
        have htake : (buf.take (written + 1)).length = written + 1 := by
          rw [List.length_take]
          omega
        have hjoin : (self.file.splice offset (buf.take (written + 1))).splice
            (offset + (written + 1)) (buf.drop (written + 1)) = self.file.splice offset buf := by
          have hsplice := self.file.splice_append offset (buf.take (written + 1))
            (buf.drop (written + 1))
          rwa [htake, List.take_append_drop] at hsplice
        have hrest := ih (buf.drop (written + 1)).length (by rw [List.length_drop]; omega) hdisk
          (buf.drop (written + 1)) (offset + (written + 1)) rfl
        rw [hfile, hjoin] at hrest
        rw [writeAllAt, if_neg hne, hwrite]
        exact hrest

/-- The loop reads a range inside the file whole. -/
theorem readExactAt_reliable {self : Disk} (h : self.Reliable) {count offset : Nat}
    (hlen : offset + count ≤ self.file.len) :
    Yields (self.readExactAt count offset) (self.file.slice offset count) self.file := by
  induction count using Nat.strong_induction_on generalizing self offset with
  | h count ih =>
      by_cases hne : count = 0
      · rw [readExactAt, if_pos hne, hne, ByteFile.slice_zero]
        exact ⟨_, rfl, rfl, h⟩
      · rcases readAt_reliable h hne hlen with ⟨moved, hlt, disk, hread, hfile, hdisk⟩
        have hfirst : self.file.slice offset (moved + 1) =
            self.file.byteAt offset :: self.file.slice (offset + 1) moved := by
          rw [Nat.add_comm moved 1, ByteFile.slice_add]
          simp [ByteFile.slice]
        have hcount : moved + 1 + (count - (moved + 1)) = count := by omega
        have hjoin : self.file.slice offset (moved + 1) ++
            self.file.slice (offset + (moved + 1)) (count - (moved + 1)) =
              self.file.slice offset count := by
          rw [← ByteFile.slice_add, hcount]
        have hrange : offset + (moved + 1) + (count - (moved + 1)) ≤ disk.file.len := by
          rw [hfile]
          omega
        rcases ih (count - (moved + 1)) (by omega) hdisk hrange with
          ⟨disk', hrest, hfile', hdisk'⟩
        rw [hfile] at hrest hfile'
        rw [hfirst] at hread hjoin
        rw [readExactAt, if_neg hne, hread]
        simp only [ByteFile.length_slice, hrest, hjoin]
        exact ⟨disk', rfl, hfile', hdisk'⟩

/-! ## With I/O errors -/

/-- Some prefix of the buffer is in the file, and all of it when the call succeeds. -/
def Wrote (self : Disk) (buf : Bytes) (offset : Nat) (outcome : IoResult Unit × Disk) : Prop :=
  ∃ count ≤ buf.length, outcome.2.file = self.file.splice offset (buf.take count) ∧
    (outcome.1 = .ok () → count = buf.length)

@[simp]
theorem call_file (self : Disk) : self.call.2.file = self.file := by
  unfold call
  cases self.calls.head <;> rfl

/-- `set_len` resizes the file or leaves it. -/
theorem setLen_cases (self : Disk) (len : Nat) :
    ((self.setLen len).1 = .ok () ∧ len ≤ maxFileLen ∧
        (self.setLen len).2.file = self.file.setLen len) ∨
      ((∃ error, (self.setLen len).1 = .error error) ∧
        (self.setLen len).2.file = self.file) := by
  unfold setLen
  by_cases hlarge : maxFileLen < len
  · rw [if_pos hlarge]
    exact .inr ⟨⟨_, rfl⟩, rfl⟩
  · rw [if_neg hlarge]
    cases self.calls.head with
    | moved count => exact .inl ⟨rfl, by omega, rfl⟩
    | failed error => exact .inr ⟨⟨error, rfl⟩, rfl⟩

@[simp]
theorem readAt_file (self : Disk) (count offset : Nat) :
    (self.readAt count offset).2.file = self.file := by
  unfold readAt
  cases self.calls.head <;> rfl

/-- One round of the write loop, whatever the file holds: it stops, or a system call moves
bytes and the loop goes on behind them. -/
theorem writeAllAt_round (calls : Stream' SystemCall) {buf : Bytes} (hne : buf ≠ [])
    (offset : Nat) :
    (bytesWritten calls buf.length = (0, calls.tail) ∧
        ∃ error, ∀ file, (⟨file, calls⟩ : Disk).writeAllAt buf offset =
          (.error error, ⟨file, calls.tail⟩)) ∨
      ∃ written < buf.length,
        bytesWritten calls buf.length =
          (written + 1 + (bytesWritten calls.tail (buf.length - (written + 1))).1,
            (bytesWritten calls.tail (buf.length - (written + 1))).2) ∧
        ∀ file, (⟨file, calls⟩ : Disk).writeAllAt buf offset =
          (⟨file.splice offset (buf.take (written + 1)), calls.tail⟩ : Disk).writeAllAt
            (buf.drop (written + 1)) (offset + (written + 1)) := by
  have hpos : 0 < buf.length := List.length_pos_iff.mpr hne
  cases hhead : calls.head with
  | failed error =>
      refine .inl ⟨?_, error, fun file => ?_⟩
      · rw [bytesWritten, if_neg hpos.ne', hhead]
      · rw [writeAllAt, if_neg hne, writeAt, hhead]
  | moved count =>
      rcases hmin : min count buf.length with _ | written
      · have hcount : count = 0 := by omega
        refine .inl ⟨?_, ⟨.writeZero, "failed to write buffer"⟩, fun file => ?_⟩
        · rw [bytesWritten, if_neg hpos.ne', hhead]
          simp only [hmin]
        · rw [writeAllAt, if_neg hne, writeAt, hhead]
          simp only [hmin]
          rw [hcount, List.take_zero, ByteFile.splice_nil]
      · refine .inr ⟨written, by omega, ?_, fun file => ?_⟩
        · rw [bytesWritten, if_neg hpos.ne', hhead]
          simp only [hmin]
        · rw [writeAllAt, if_neg hne, writeAt, hhead]
          simp only [hmin]
          rw [List.take_eq_take_min, hmin]

/-- One round of the read loop. -/
theorem readExactAt_round (self : Disk) {count : Nat} (hne : count ≠ 0) (offset : Nat) :
    (∃ error, self.readExactAt count offset = (.error error, ⟨self.file, self.calls.tail⟩)) ∨
      ∃ moved < count, offset + (moved + 1) ≤ self.file.len ∧
        ∃ result disk, (⟨self.file, self.calls.tail⟩ : Disk).readExactAt (count - (moved + 1))
            (offset + (moved + 1)) = (result, disk) ∧
          self.readExactAt count offset =
            (result.map (self.file.slice offset (moved + 1) ++ ·), disk) := by
  rw [readExactAt, if_neg hne, readAt]
  cases self.calls.head with
  | failed error => exact .inl ⟨error, rfl⟩
  | moved many =>
      dsimp only
      rcases hmin : min (min many count) (self.file.len - offset) with _ | moved
      · rw [ByteFile.slice_zero]
        exact .inl ⟨_, rfl⟩
      · have hlength := ByteFile.length_slice self.file offset (moved + 1)
        refine .inr ⟨moved, by omega, by omega, ?_⟩
        cases hread : self.file.slice offset (moved + 1) with
        | nil =>
            rw [hread] at hlength
            cases hlength
        | cons byte read =>
            rw [hread, List.length_cons] at hlength
            simp only [hlength]
            rcases (⟨self.file, self.calls.tail⟩ : Disk).readExactAt (count - (moved + 1))
              (offset + (moved + 1)) with ⟨error | rest, disk⟩ <;> exact ⟨_, _, rfl, rfl⟩

/-- A read leaves the file alone. -/
@[simp]
theorem readExactAt_file (self : Disk) (count offset : Nat) :
    (self.readExactAt count offset).2.file = self.file := by
  induction count using Nat.strong_induction_on generalizing self offset with
  | h count ih =>
      by_cases hne : count = 0
      · rw [readExactAt, if_pos hne]
      · rcases self.readExactAt_round hne offset with
          ⟨error, hstop⟩ | ⟨moved, hmoved, _, result, disk, hrest, hround⟩
        · rw [hstop]
        · have hfile := ih (count - (moved + 1)) (by omega) ⟨self.file, self.calls.tail⟩
            (offset + (moved + 1))
          rw [hrest] at hfile
          rw [hround]
          exact hfile

/-- The loop does the same to every file: it writes `bytesWritten` bytes of the buffer, all of
them when it succeeds. -/
theorem writeAllAt_uniform (calls : Stream' SystemCall) (buf : Bytes) (offset : Nat) :
    ∃ result, (bytesWritten calls buf.length).1 ≤ buf.length ∧
      (result = .ok () ↔ (bytesWritten calls buf.length).1 = buf.length) ∧
      ∀ file, (⟨file, calls⟩ : Disk).writeAllAt buf offset =
        (result, ⟨file.splice offset (buf.take (bytesWritten calls buf.length).1),
          (bytesWritten calls buf.length).2⟩) := by
  induction hlength : buf.length using Nat.strong_induction_on generalizing calls buf offset with
  | h length ih =>
      rw [← hlength]
      by_cases hne : buf = []
      · have hnone : bytesWritten calls buf.length = (0, calls) := by
          rw [bytesWritten, hne, if_pos List.length_nil]
        rw [hnone]
        refine ⟨.ok (), Nat.zero_le _, by simp [hne], fun file => ?_⟩
        rw [writeAllAt, if_pos hne, List.take_zero, ByteFile.splice_nil]
      · have hpos : 0 < buf.length := List.length_pos_iff.mpr hne
        rcases writeAllAt_round calls hne offset with
          ⟨hcount, error, hstop⟩ | ⟨written, hwritten, hcount, hround⟩
        · rw [hcount]
          refine ⟨.error error, Nat.zero_le _, ?_, fun file => ?_⟩
          · simp [hpos.ne]
          · rw [hstop, List.take_zero, ByteFile.splice_nil]
        · have htake : (buf.take (written + 1)).length = written + 1 := by
            rw [List.length_take]
            omega
          rcases ih (buf.drop (written + 1)).length (by rw [List.length_drop]; omega) calls.tail
            (buf.drop (written + 1)) (offset + (written + 1)) rfl with
            ⟨result, hmore, hall, hwrite⟩
          rw [List.length_drop] at hmore hall hwrite
          rw [hcount]
          refine ⟨result, by omega, ?_, fun file => ?_⟩
          · rw [hall]
            omega
          · have hsplice := file.splice_append offset (buf.take (written + 1))
              ((buf.drop (written + 1)).take
                (bytesWritten calls.tail (buf.length - (written + 1))).1)
            rw [htake, ← List.take_add] at hsplice
            rw [hround, hwrite, hsplice]

/-- The loop writes a prefix of the buffer, wherever it stops. -/
theorem writeAllAt_written (self : Disk) (buf : Bytes) (offset : Nat) :
    self.Wrote buf offset (self.writeAllAt buf offset) := by
  rcases writeAllAt_uniform self.calls buf offset with ⟨result, hle, hall, hwrite⟩
  have hself := hwrite self.file
  refine ⟨_, hle, ?_, ?_⟩ <;> rw [hself]
  exact hall.mp

/-- Two files of one length with the same bytes in the range read alike. -/
theorem readExactAt_uniform {file file' : ByteFile} (hlen : file'.len = file.len)
    (calls : Stream' SystemCall) {count offset : Nat}
    (h : ∀ position, offset ≤ position → position < offset + count →
      file'.byteAt position = file.byteAt position) :
    ∃ result rest, (⟨file, calls⟩ : Disk).readExactAt count offset = (result, ⟨file, rest⟩) ∧
      (⟨file', calls⟩ : Disk).readExactAt count offset = (result, ⟨file', rest⟩) := by
  induction count using Nat.strong_induction_on generalizing calls offset with
  | h count ih =>
      by_cases hne : count = 0
      · refine ⟨.ok [], calls, ?_, ?_⟩ <;> rw [readExactAt, if_pos hne]
      · cases hhead : calls.head with
        | failed error =>
            refine ⟨.error error, calls.tail, ?_, ?_⟩ <;>
              rw [readExactAt, if_neg hne, readAt, hhead]
        | moved moved =>
            have hslice : file'.slice offset (min (min moved count) (file.len - offset)) =
                file.slice offset (min (min moved count) (file.len - offset)) :=
              ByteFile.slice_congr fun position hle hlt => h position hle (by omega)
            cases hread : file.slice offset (min (min moved count) (file.len - offset)) with
            | nil =>
                refine ⟨.error ⟨.unexpectedEof, "failed to fill buffer"⟩, calls.tail, ?_, ?_⟩
                · rw [readExactAt, if_neg hne, readAt, hhead]
                  simp only [hread]
                · rw [readExactAt, if_neg hne, readAt, hhead]
                  simp only [hlen, hslice, hread]
            | cons byte read =>
                rcases @ih (count - (read.length + 1)) (by omega) calls.tail
                  (offset + (read.length + 1))
                  (fun position hle hlt => h position (by omega) (by omega)) with
                  ⟨result, rest, hfirst, hsecond⟩
                cases result with
                | error error =>
                    refine ⟨.error error, rest, ?_, ?_⟩
                    · rw [readExactAt, if_neg hne, readAt, hhead]
                      simp only [hread, hfirst]
                    · rw [readExactAt, if_neg hne, readAt, hhead]
                      simp only [hlen, hslice, hread, hsecond]
                | ok bytes =>
                    refine ⟨.ok (byte :: read ++ bytes), rest, ?_, ?_⟩
                    · rw [readExactAt, if_neg hne, readAt, hhead]
                      simp only [hread, hfirst]
                    · rw [readExactAt, if_neg hne, readAt, hhead]
                      simp only [hlen, hslice, hread, hsecond]

/-- A read that succeeds returns the bytes of the file. -/
theorem readExactAt_ok {disk disk' : Disk} {count offset : Nat} {bytes : Bytes}
    (h : disk.readExactAt count offset = (.ok bytes, disk')) :
    bytes = disk.file.slice offset count := by
  induction count using Nat.strong_induction_on generalizing disk offset bytes with
  | h count ih =>
      by_cases hne : count = 0
      · rw [readExactAt, if_pos hne] at h
        cases h
        rw [hne, ByteFile.slice_zero]
      · rcases disk.readExactAt_round hne offset with
          ⟨error, hstop⟩ | ⟨moved, hmoved, _, result, last, hrest, hround⟩
        · rw [hstop] at h
          cases h
        · rw [hround] at h
          cases result with
          | error error => cases h
          | ok rest =>
              cases h
              have hcount : moved + 1 + (count - (moved + 1)) = count := by omega
              have htail := ih (count - (moved + 1)) (by omega) hrest
              change disk.file.slice offset (moved + 1) ++ rest = _
              rw [htail, ← ByteFile.slice_add, hcount]

end Disk
end StorageNode
end ObjectStore
