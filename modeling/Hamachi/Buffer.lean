import Hamachi.Heap
import Mathlib.Data.List.TakeDrop

namespace Hamachi

/-!
# Byte buffers

A buffer carries its size in its type.  Slices and writes are checked against
it, and writes are related to each other without looking at the contents: two
adjacent writes are one write, and disjoint writes commute.
-/

/-- One `char` of a buffer. -/
abbrev Byte := BitVec 8

/-- A `char` array of a known size. -/
@[ext] structure Buffer (size : Nat) where
  bytes : List Byte
  sized : bytes.length = size
  deriving DecidableEq

namespace Buffer

variable {size : Nat}

/-- A buffer that holds exactly the given bytes. -/
def of (bytes : List Byte) : Buffer bytes.length where
  bytes := bytes
  sized := rfl

/-- A buffer of zeros. -/
def zeroed (size : Nat) : Buffer size where
  bytes := List.replicate size 0
  sized := List.length_replicate

/-- Read one byte. -/
def byteAt (buffer : Buffer size) (index : Nat) : Except Fault Byte :=
  match buffer.bytes[index]? with
  | some byte => .ok byte
  | none => .error .outOfBounds

/-- Read `length` bytes from an offset. -/
def slice
    (buffer : Buffer size)
    (offset length : Nat) :
    Except Fault (Buffer length) :=
  if inside : offset + length ≤ size then
    .ok {
      bytes := (buffer.bytes.drop offset).take length
      sized := by
        have := buffer.sized
        rw [List.length_take, List.length_drop]
        omega
    }
  else
    .error .outOfBounds

/-- Write bytes from an offset. -/
def overwrite
    (buffer : Buffer size)
    (offset : Nat)
    (bytes : List Byte) :
    Except Fault (Buffer size) :=
  if inside : offset + bytes.length ≤ size then
    .ok {
      bytes :=
        buffer.bytes.take offset ++ bytes ++
          buffer.bytes.drop (offset + bytes.length)
      sized := by
        have := buffer.sized
        simp only [List.length_append, List.length_take, List.length_drop]
        omega
    }
  else
    .error .outOfBounds

/-- A byte in bounds can be read. -/
theorem byteAt_eq
    {buffer : Buffer size}
    {index : Nat}
    (inside : index < size) :
    buffer.byteAt index =
      .ok (buffer.bytes.get ⟨index, buffer.sized.symm ▸ inside⟩) := by
  have bound : index < buffer.bytes.length :=
    buffer.sized.symm ▸ inside
  simp [byteAt, List.getElem?_eq_getElem bound]

/-- A slice is the part that stands at its offset. -/
theorem slice_eq
    {buffer : Buffer size}
    {offset length : Nat}
    (before : List Byte)
    (part : Buffer length)
    (after : List Byte)
    (shape : buffer.bytes = before ++ part.bytes ++ after)
    (position : before.length = offset) :
    buffer.slice offset length = .ok part := by
  have total := buffer.sized
  have partSized := part.sized
  rw [shape, List.length_append, List.length_append] at total
  unfold slice
  rw [dif_pos (by omega)]
  congr 1
  ext1
  simp [shape, ← position, ← partSized]

/-- A slice in bounds never faults. -/
theorem slice_inside
    (buffer : Buffer size)
    (offset length : Nat)
    (inside : offset + length ≤ size) :
    ∃ part,
      buffer.slice offset length = .ok part ∧
        part.bytes = (buffer.bytes.drop offset).take length := by
  unfold slice
  rw [dif_pos inside]
  exact ⟨_, rfl, rfl⟩

/-- A slice out of bounds faults. -/
theorem slice_outside
    {buffer : Buffer size}
    {offset length : Nat}
    (outside : ¬ offset + length ≤ size) :
    buffer.slice offset length = .error .outOfBounds := by
  unfold slice
  rw [dif_neg outside]

/-- A write in bounds never faults. -/
theorem overwrite_inside
    (buffer : Buffer size)
    (offset : Nat)
    (bytes : List Byte)
    (inside : offset + bytes.length ≤ size) :
    ∃ written,
      buffer.overwrite offset bytes = .ok written ∧
        written.bytes =
          buffer.bytes.take offset ++ bytes ++
            buffer.bytes.drop (offset + bytes.length) := by
  unfold overwrite
  rw [dif_pos inside]
  exact ⟨_, rfl, rfl⟩

/-- Overwriting the start of a buffer puts the bytes first. -/
theorem overwrite_start
    (buffer : Buffer size)
    (bytes : List Byte)
    (fits : bytes.length ≤ size) :
    ∃ written,
      buffer.overwrite 0 bytes = .ok written ∧
        written.bytes = bytes ++ buffer.bytes.drop bytes.length := by
  obtain ⟨written, writes, layout⟩ :=
    overwrite_inside buffer 0 bytes (by omega)
  exact ⟨written, writes, by simpa using layout⟩

/-- What every index of a buffer reads after a write. -/
theorem overwrite_getElem?
    {buffer written : Buffer size}
    {offset : Nat}
    {bytes : List Byte}
    (writes : buffer.overwrite offset bytes = .ok written)
    (index : Nat) :
    written.bytes[index]? =
      if offset ≤ index ∧ index < offset + bytes.length then
        bytes[index - offset]?
      else
        buffer.bytes[index]? := by
  have sized := buffer.sized
  unfold overwrite at writes
  split at writes
  · cases writes
    simp only [List.append_assoc, List.getElem?_append,
      List.getElem?_drop, List.length_take]
    split
    · rw [if_neg (by omega), List.getElem?_take, if_pos (by omega)]
    · split
      · rw [if_pos (by omega), Nat.min_eq_left (by omega)]
      · rw [if_neg (by omega)]
        congr 1
        omega
  · cases writes

/-- A write out of bounds faults. -/
theorem overwrite_outside
    {buffer : Buffer size}
    {offset : Nat}
    {bytes : List Byte}
    (outside : ¬ offset + bytes.length ≤ size) :
    buffer.overwrite offset bytes = .error .outOfBounds := by
  unfold overwrite
  rw [dif_neg outside]

/-- Buffers are equal when they read alike. -/
theorem eq_of_getElem?
    {first second : Buffer size}
    (alike : ∀ index : Nat, first.bytes[index]? = second.bytes[index]?) :
    first = second :=
  Buffer.ext (List.ext_getElem? alike)

/-- What every index of a slice reads. -/
theorem slice_getElem?
    {buffer : Buffer size}
    {offset length : Nat}
    {part : Buffer length}
    (slices : buffer.slice offset length = .ok part)
    (index : Nat) :
    part.bytes[index]? =
      if index < length then buffer.bytes[offset + index]? else none := by
  unfold slice at slices
  split at slices
  · cases slices
    rw [List.getElem?_take]
    split
    · rw [List.getElem?_drop]
    · rfl
  · cases slices

/-- A slice of one byte is that byte. -/
theorem byteAt_of_slice
    {buffer : Buffer size}
    {index : Nat}
    {byte : Byte}
    (slices : buffer.slice index 1 = .ok (.of [byte])) :
    buffer.byteAt index = .ok byte := by
  have reads := slice_getElem? slices 0
  rw [if_pos Nat.one_pos, Nat.add_zero] at reads
  unfold byteAt
  rw [← reads]
  rfl

/-- Slices of two buffers that read alike are equal. -/
theorem slice_congr
    {size' offset offset' length : Nat}
    {first : Buffer size}
    {second : Buffer size'}
    (firstInside : offset + length ≤ size)
    (secondInside : offset' + length ≤ size')
    (alike :
      ∀ index < length,
        first.bytes[offset + index]? = second.bytes[offset' + index]?) :
    first.slice offset length = second.slice offset' length := by
  obtain ⟨part, slices, _⟩ := slice_inside first offset length firstInside
  obtain ⟨part', slices', _⟩ :=
    slice_inside second offset' length secondInside
  rw [slices, slices']
  congr 1
  apply eq_of_getElem?
  intro index
  rw [slice_getElem? slices, slice_getElem? slices']
  split
  · rename_i inside
    exact alike index inside
  · rfl

/-- A slice inside of what was written is a slice of the written bytes. -/
theorem slice_overwrite_inside
    {buffer written : Buffer size}
    {offset : Nat}
    {bytes : List Byte}
    (writes : buffer.overwrite offset bytes = .ok written)
    {start length : Nat}
    (inside : start + length ≤ bytes.length) :
    written.slice (offset + start) length =
      (Buffer.of bytes).slice start length := by
  have fits : offset + bytes.length ≤ size := by
    by_contra outside
    unfold overwrite at writes
    rw [dif_neg outside] at writes
    cases writes
  refine slice_congr (by omega) inside fun index below => ?_
  rw [overwrite_getElem? writes, if_pos (by omega), Nat.add_assoc,
    Nat.add_sub_cancel_left]
  rfl

/-- A part of what was written can be read. -/
theorem slice_written
    {buffer written : Buffer size}
    {offset start length : Nat}
    {bytes : List Byte}
    (writes : buffer.overwrite offset bytes = .ok written)
    (before : List Byte)
    (part : Buffer length)
    (after : List Byte)
    (shape : bytes = before ++ part.bytes ++ after)
    (position : offset + before.length = start) :
    written.slice start length = .ok part := by
  have inside : before.length + length ≤ bytes.length := by
    rw [shape, List.length_append, List.length_append, part.sized]
    omega
  subst position
  rw [slice_overwrite_inside writes inside]
  exact slice_eq before part after shape rfl

/-- A slice beside what was written is as before. -/
theorem slice_overwrite_outside
    {buffer written : Buffer size}
    {offset : Nat}
    {bytes : List Byte}
    (writes : buffer.overwrite offset bytes = .ok written)
    {start length : Nat}
    (beside :
      start + length ≤ offset ∨ offset + bytes.length ≤ start) :
    written.slice start length = buffer.slice start length := by
  by_cases fits : start + length ≤ size
  · refine slice_congr fits fits fun index below => ?_
    rw [overwrite_getElem? writes, if_neg (by omega)]
  · unfold slice
    rw [dif_neg fits, dif_neg fits]

/-- Two adjacent writes are one write. -/
theorem overwrite_adjacent
    (buffer : Buffer size)
    (offset : Nat)
    (first second : List Byte) :
    (buffer.overwrite offset first >>= fun written =>
      written.overwrite (offset + first.length) second) =
      buffer.overwrite offset (first ++ second) := by
  by_cases fits : offset + (first ++ second).length ≤ size
  · obtain ⟨whole, wholeWrite, _⟩ :=
      overwrite_inside buffer offset _ fits
    rw [List.length_append] at fits
    obtain ⟨middle, firstWrite, _⟩ :=
      overwrite_inside buffer offset first (by omega)
    obtain ⟨final, secondWrite, _⟩ :=
      overwrite_inside middle (offset + first.length) second (by omega)
    rw [firstWrite, ok_bind, secondWrite, wholeWrite]
    congr 1
    apply eq_of_getElem?
    intro index
    rw [overwrite_getElem? secondWrite, overwrite_getElem? firstWrite,
      overwrite_getElem? wholeWrite, List.length_append,
      List.getElem?_append]
    grind
  · rw [overwrite_outside fits]
    rw [List.length_append] at fits
    by_cases firstFits : offset + first.length ≤ size
    · obtain ⟨middle, firstWrite, _⟩ :=
        overwrite_inside buffer offset first firstFits
      rw [firstWrite, ok_bind, overwrite_outside (by omega)]
    · rw [overwrite_outside firstFits]
      rfl

/-- Two adjacent writes at a position given by its value. -/
theorem overwrite_next
    (buffer : Buffer size)
    {start next : Nat}
    (first second : List Byte)
    (position : start + first.length = next) :
    (buffer.overwrite start first >>= fun written =>
      written.overwrite next second) =
      buffer.overwrite start (first ++ second) :=
  position ▸ buffer.overwrite_adjacent start first second

/-- Writes to disjoint places commute. -/
theorem overwrite_disjoint
    (buffer : Buffer size)
    (offset offset' : Nat)
    (first second : List Byte)
    (disjoint : offset + first.length ≤ offset') :
    (buffer.overwrite offset' second >>= fun written =>
      written.overwrite offset first) =
      buffer.overwrite offset first >>= fun written =>
        written.overwrite offset' second := by
  by_cases firstFits : offset + first.length ≤ size
  · obtain ⟨lower, lowerWrite, _⟩ :=
      overwrite_inside buffer offset first firstFits
    by_cases secondFits : offset' + second.length ≤ size
    · obtain ⟨upper, upperWrite, _⟩ :=
        overwrite_inside buffer offset' second secondFits
      obtain ⟨lowerLast, lowerLastWrite, _⟩ :=
        overwrite_inside upper offset first firstFits
      obtain ⟨upperLast, upperLastWrite, _⟩ :=
        overwrite_inside lower offset' second secondFits
      rw [lowerWrite, upperWrite, ok_bind, ok_bind, lowerLastWrite,
        upperLastWrite]
      congr 1
      apply eq_of_getElem?
      intro index
      rw [overwrite_getElem? lowerLastWrite,
        overwrite_getElem? upperWrite,
        overwrite_getElem? upperLastWrite,
        overwrite_getElem? lowerWrite]
      grind
    · rw [lowerWrite, ok_bind, overwrite_outside secondFits,
        overwrite_outside secondFits]
      rfl
  · rw [overwrite_outside firstFits,
      overwrite_outside (show ¬ offset' + second.length ≤ size by omega)]
    rfl

end Buffer

/-- The little-endian bytes of a 32-bit word. -/
def bytes32 (word : BitVec 32) : Buffer 4 where
  bytes := [
    word.extractLsb' 0 8,
    word.extractLsb' 8 8,
    word.extractLsb' 16 8,
    word.extractLsb' 24 8
  ]
  sized := rfl

/-- A 32-bit load of four little-endian bytes. -/
def word32 (buffer : Buffer 4) : BitVec 32 :=
  match buffer with
  | ⟨[first, second, third, fourth], _⟩ =>
      fourth ++ third ++ second ++ first

/-- A word is loaded as it was stored. -/
@[simp] theorem word32_bytes32 (word : BitVec 32) :
    word32 (bytes32 word) = word := by
  apply BitVec.eq_of_getLsbD_eq
  intro index bound
  simp only [word32, bytes32, BitVec.getLsbD_append,
    BitVec.getLsbD_extractLsb']
  grind

/-- Every four bytes are the bytes of a word. -/
theorem bytes32_word32 (buffer : Buffer 4) :
    bytes32 (word32 buffer) = buffer := by
  obtain ⟨bytes, sized⟩ := buffer
  obtain ⟨first, second, third, fourth, rfl⟩ :
      ∃ first second third fourth,
        bytes = [first, second, third, fourth] := by
    match bytes, sized with
    | [first, second, third, fourth], _ =>
        exact ⟨first, second, third, fourth, rfl⟩
  ext1
  simp only [bytes32, word32, List.cons.injEq, and_true]
  refine ⟨?_, ?_, ?_, ?_⟩ <;>
    · apply BitVec.eq_of_getLsbD_eq
      intro index bound
      simp only [BitVec.getLsbD_append, BitVec.getLsbD_extractLsb']
      grind

end Hamachi
