import Hamachi.CString

namespace Hamachi

/-!
# The text buffers of the login form

`gui_login` hands its texts to the input dialog as 16-bit units and takes them
back as bytes.  Both conversions of `gui.cpp` work in place: `convertFromAscii`
goes downwards and `convertToAscii` upwards over the same buffer.
-/

/-- The bytes of a `uint16_t` in memory. -/
def bytes16 (unit : BitVec 16) : Buffer 2 where
  bytes := [unit.extractLsb' 0 8, unit.extractLsb' 8 8]
  sized := rfl

/-- A load of a `uint16_t`. -/
def word16 (buffer : Buffer 2) : BitVec 16 :=
  match buffer with
  | ⟨[low, high], _⟩ => high ++ low

/-- The unit of a character. -/
def unitOf (byte : Byte) : Buffer 2 :=
  bytes16 (byte.setWidth 16)

@[simp] theorem unitOf_bytes (byte : Byte) :
    (unitOf byte).bytes = [byte, 0] := by
  have low : (byte.setWidth 16).extractLsb' 0 8 = byte := by
    ext index bound
    have wide : index < 16 := by
      omega
    simp [wide, BitVec.getLsbD_eq_getElem bound]
  have high : (byte.setWidth 16).extractLsb' 8 8 = 0#8 := by
    ext index bound
    simp
  simp [unitOf, bytes16, low, high]

/-- The conversion of a unit to `unsigned char` gives the character back. -/
theorem word16_of_bytes
    {unit : Buffer 2}
    {byte : Byte}
    (low : unit.bytes[0]? = some byte)
    (high : unit.bytes[1]? = some 0) :
    (word16 unit).setWidth 8 = byte := by
  obtain ⟨bytes, sized⟩ := unit
  match bytes, sized, low, high with
  | [_, _], _, rfl, rfl =>
      exact BitVec.setWidth_append_eq_right

/-- `for(size_t i = 0; i < l; i++) *--q = *--p;`, with both pointers at the
given index. -/
def widenLoop : Nat → Buffer size → Except Fault (Buffer size)
  | 0, buffer => .ok buffer
  | index + 1, buffer => do
      let byte ← buffer.byteAt index
      let buffer ← buffer.overwrite (2 * index) (unitOf byte).bytes
      widenLoop index buffer

/-- `convertFromAscii`. -/
def convertFromAscii
    (buffer : Buffer size)
    (sz : Nat) :
    Except Fault (Buffer size) := do
  let l ← strlen buffer.bytes 0
  let terminator ← buffer.byteAt l
  let buffer ← buffer.overwrite (2 * l) (unitOf terminator).bytes
  let buffer ← widenLoop l buffer
  -- `ptr+sz-end` becomes a `size_t`.
  let rest := (((sz : Int) - 2 * l) % 0x10000000000000000).toNat
  buffer.overwrite (2 * l) (List.replicate rest 0)

/-- `while((*dst++ = *src++));`, with both pointers at the given index. -/
def narrowLoop : Nat → Nat → Buffer size → Except Fault (Buffer size)
  | 0, _, _ => .error .outOfFuel
  | fuel + 1, index, buffer => do
      let unit ← buffer.slice (2 * index) 2
      let byte := (word16 unit).setWidth 8
      let buffer ← buffer.overwrite index [byte]
      if byte = 0 then .ok buffer else narrowLoop fuel (index + 1) buffer

/-- `convertToAscii`. -/
def convertToAscii (buffer : Buffer size) : Except Fault (Buffer size) :=
  -- The units of the buffer bound the loop.
  narrowLoop (size + 1) 0 buffer

/-- The little-endian units of a text. -/
def units (text : List Byte) : List Byte :=
  text.flatMap fun byte => (unitOf byte).bytes

@[simp] theorem units_nil : units [] = [] :=
  rfl

@[simp] theorem units_cons (byte : Byte) (rest : List Byte) :
    units (byte :: rest) = byte :: 0 :: units rest := by
  simp [units]

@[simp] theorem units_length (text : List Byte) :
    (units text).length = 2 * text.length := by
  induction text with
  | nil =>
      rfl
  | cons byte rest inductionHypothesis =>
      simp only [units_cons, List.length_cons, inductionHypothesis]
      omega

/-- The characters stand at the even places. -/
theorem units_even
    (text : List Byte)
    (index : Nat) :
    (units text)[2 * index]? = text[index]? := by
  induction text generalizing index with
  | nil =>
      simp
  | cons byte rest inductionHypothesis =>
      cases index with
      | zero =>
          simp
      | succ index =>
          simpa [Nat.mul_succ] using inductionHypothesis index

/-- Zeros stand at the odd ones. -/
theorem units_odd
    {text : List Byte}
    {index : Nat}
    (inside : index < text.length) :
    (units text)[2 * index + 1]? = some 0 := by
  induction text generalizing index with
  | nil =>
      cases inside
  | cons byte rest inductionHypothesis =>
      cases index with
      | zero =>
          simp
      | succ index =>
          simpa [Nat.mul_succ] using
            inductionHypothesis (Nat.lt_of_succ_lt_succ inside)

variable
  {size : Nat}
  {buffer next : Buffer size}
  {text : List Byte}

/-- The units from an index on are written and the characters before it are
still there. -/
structure WidenedFrom
    (text : List Byte)
    (index : Nat)
    (buffer : Buffer size) : Prop where
  unread : ∀ place < index, buffer.bytes[place]? = text[place]?
  written :
    ∀ place, 2 * index ≤ place → place < 2 * text.length →
      buffer.bytes[place]? = (units text)[place]?

/-- One step of the loop widens one more character: what it writes stands
behind everything that is still to be read. -/
theorem WidenedFrom.step
    {index : Nat}
    (widened : WidenedFrom text (index + 1) buffer)
    (inText : index < text.length)
    (fits : 2 * text.length ≤ size) :
    ∃ byte next,
      buffer.byteAt index = .ok byte ∧
        buffer.overwrite (2 * index) (unitOf byte).bytes = .ok next ∧
        WidenedFrom text index next := by
  have reads := widened.unread index (Nat.lt_succ_self index)
  rw [List.getElem?_eq_getElem inText] at reads
  have loads : buffer.byteAt index = .ok text[index] := by
    simp only [Buffer.byteAt, reads]
  obtain ⟨next, writes, _⟩ :=
    buffer.overwrite_inside (2 * index) (unitOf text[index]).bytes
      (by simp only [unitOf_bytes, List.length_cons, List.length_nil]; omega)
  refine ⟨text[index], next, loads, writes, ?_, ?_⟩
  · intro place before
    rw [Buffer.overwrite_getElem? writes, if_neg (by omega)]
    exact widened.unread place (by omega)
  · intro place behind inside
    have reads := Buffer.overwrite_getElem? writes place
    simp only [unitOf_bytes, List.length_cons, List.length_nil] at reads
    rw [reads]
    split
    · obtain rfl | rfl : place = 2 * index ∨ place = 2 * index + 1 := by
        omega
      · rw [units_even]
        simp [inText]
      · rw [units_odd inText]
        simp
    · exact widened.written place (by omega) inside

/-- The loop widens every character before the index. -/
theorem WidenedFrom.widenLoop
    {index : Nat}
    (widened : WidenedFrom text index buffer)
    (inText : index ≤ text.length)
    (fits : 2 * text.length ≤ size) :
    ∃ next,
      widenLoop index buffer = .ok next ∧ WidenedFrom text 0 next := by
  induction index generalizing buffer with
  | zero =>
      exact ⟨buffer, rfl, widened⟩
  | succ index inductionHypothesis =>
      obtain ⟨byte, middle, loads, writes, stepped⟩ :=
        widened.step inText fits
      obtain ⟨next, loops, all⟩ :=
        inductionHypothesis stepped (Nat.le_of_succ_le inText)
      refine ⟨next, ?_, all⟩
      rw [Hamachi.widenLoop, loads, ok_bind, writes, ok_bind, loops]

/-- The widened text fills the buffer with its units and zeros. -/
theorem convertFromAscii_units
    {rest : List Byte}
    (noZero : 0 ∉ text)
    (fits : 2 * (text.length + 1) ≤ size)
    (addressable : size < 0x10000000000000000)
    (shape : buffer.bytes = text ++ 0 :: rest) :
    ∃ wide,
      convertFromAscii buffer size = .ok wide ∧
        wide.bytes =
          units text ++ List.replicate (size - 2 * text.length) 0 := by
  have terminator : buffer.byteAt text.length = .ok 0 := by
    simp [Buffer.byteAt, shape]
  obtain ⟨first, writesFirst, _⟩ :=
    buffer.overwrite_inside (2 * text.length) (unitOf 0).bytes
      (by simp only [unitOf_bytes, List.length_cons, List.length_nil]; omega)
  have start : WidenedFrom text text.length first := by
    refine ⟨fun place before => ?_, fun place behind inside => ?_⟩
    · rw [Buffer.overwrite_getElem? writesFirst, if_neg (by omega), shape,
        List.getElem?_append_left before]
    · omega
  obtain ⟨second, widens, all⟩ :=
    start.widenLoop le_rfl (by omega)
  have remaining :
      (((size : Int) - 2 * text.length) % 0x10000000000000000).toNat =
        size - 2 * text.length := by
    omega
  obtain ⟨wide, clears, _⟩ :=
    second.overwrite_inside (2 * text.length)
      (List.replicate (size - 2 * text.length) 0)
      (by rw [List.length_replicate]; omega)
  refine ⟨wide, ?_, ?_⟩
  · have length : strlen buffer.bytes 0 = .ok text.length :=
      strlen_text shape noZero
    simp only [convertFromAscii, length, terminator, writesFirst, widens,
      remaining, ok_bind]
    exact clears
  · apply List.ext_getElem?
    intro place
    have reads := Buffer.overwrite_getElem? clears place
    rw [List.length_replicate] at reads
    rw [reads, List.getElem?_append, units_length]
    have sized := second.sized
    by_cases inText : place < 2 * text.length
    · rw [if_neg (by omega), if_pos inText]
      exact all.written place (Nat.zero_le _) inText
    · rw [if_neg inText]
      split
      · rfl
      · rw [List.getElem?_eq_none (by omega),
          List.getElem?_eq_none (by rw [List.length_replicate]; omega)]

/-- The characters before an index are narrowed, and from twice the index on
the units are still there. -/
structure NarrowedTo
    (text : List Byte)
    (wide : List Byte)
    (index : Nat)
    (buffer : Buffer size) : Prop where
  written : ∀ place < index, buffer.bytes[place]? = text[place]?
  unread :
    ∀ place, 2 * index ≤ place → buffer.bytes[place]? = wide[place]?

/-- One step of the loop reads the unit at its index and stores it before
everything that is still to be read. -/
theorem NarrowedTo.step
    {wide : List Byte}
    {index : Nat}
    {byte : Byte}
    (narrowed : NarrowedTo text wide index buffer)
    (fits : 2 * (index + 1) ≤ size)
    (low : wide[2 * index]? = some byte)
    (high : wide[2 * index + 1]? = some 0) :
    ∃ unit next,
      buffer.slice (2 * index) 2 = .ok unit ∧
        (word16 unit).setWidth 8 = byte ∧
        buffer.overwrite index [byte] = .ok next ∧
        next.bytes[index]? = some byte ∧
        (∀ place < index, next.bytes[place]? = text[place]?) ∧
        ∀ place, 2 * (index + 1) ≤ place →
          next.bytes[place]? = wide[place]? := by
  obtain ⟨unit, slices, unitBytes⟩ := buffer.slice_inside (2 * index) 2 fits
  obtain ⟨next, writes, _⟩ :=
    buffer.overwrite_inside index [byte]
      (by simp only [List.length_cons, List.length_nil]; omega)
  have reads := Buffer.overwrite_getElem? writes
  simp only [List.length_cons, List.length_nil, Nat.zero_add] at reads
  refine ⟨unit, next, slices, ?_, writes, ?_, ?_, ?_⟩
  · have part := Buffer.slice_getElem? slices
    apply word16_of_bytes
    · rw [part, if_pos (by decide), Nat.add_zero,
        narrowed.unread _ le_rfl, low]
    · rw [part, if_pos (by decide), narrowed.unread _ (by omega), high]
  · simp [reads]
  · intro place before
    rw [reads, if_neg (by omega)]
    exact narrowed.written place before
  · intro place behind
    rw [reads, if_neg (by omega)]
    exact narrowed.unread place (by omega)

/-- The loop narrows the rest of the text and its terminator. -/
theorem NarrowedTo.narrowLoop
    {tail : List Byte}
    {index fuel : Nat}
    (narrowed : NarrowedTo text (units text ++ 0 :: 0 :: tail) index buffer)
    (noZero : 0 ∉ text)
    (fits : 2 * (text.length + 1) ≤ size)
    (inText : index ≤ text.length)
    (enough : text.length < index + fuel) :
    ∃ next,
      narrowLoop fuel index buffer = .ok next ∧
        (text ++ [0]) <+: next.bytes := by
  induction fuel generalizing index buffer with
  | zero =>
      omega
  | succ fuel inductionHypothesis =>
      rcases Nat.lt_or_eq_of_le inText with before | rfl
      · have low :
            (units text ++ 0 :: 0 :: tail)[2 * index]? =
              some text[index] := by
          rw [List.getElem?_append_left (by rw [units_length]; omega),
            units_even, List.getElem?_eq_getElem before]
        have high :
            (units text ++ 0 :: 0 :: tail)[2 * index + 1]? = some 0 := by
          rw [List.getElem?_append_left (by rw [units_length]; omega),
            units_odd before]
        obtain ⟨unit, next, slices, isByte, writes, stored, kept, unread⟩ :=
          narrowed.step (by omega) low high
        have stepped :
            NarrowedTo text (units text ++ 0 :: 0 :: tail) (index + 1)
              next := by
          refine ⟨fun place inside => ?_, unread⟩
          rcases Nat.lt_succ_iff_lt_or_eq.mp inside with lower | rfl
          · exact kept place lower
          · rw [stored, List.getElem?_eq_getElem before]
        have notZero : text[index] ≠ 0 := by
          intro isZero
          exact noZero (isZero ▸ List.getElem_mem before)
        obtain ⟨last, loops, restored⟩ :=
          inductionHypothesis stepped before (by omega)
        refine ⟨last, ?_, restored⟩
        simp only [Hamachi.narrowLoop, slices, isByte, writes, ok_bind,
          if_neg notZero]
        exact loops
      · have low :
            (units text ++ 0 :: 0 :: tail)[2 * text.length]? =
              some 0 := by
          rw [← units_length, List.getElem?_append_right le_rfl]
          simp
        have high :
            (units text ++ 0 :: 0 :: tail)[2 * text.length + 1]? =
              some 0 := by
          rw [← units_length, List.getElem?_append_right (by omega)]
          simp
        obtain ⟨unit, next, slices, isByte, writes, stored, kept, _⟩ :=
          narrowed.step fits low high
        refine ⟨next, ?_, ?_⟩
        · simp only [Hamachi.narrowLoop, slices, isByte, writes, ok_bind,
            if_true]
        · rw [List.prefix_iff_getElem?]
          intro place inside
          rw [List.length_append, List.length_singleton] at inside
          rcases Nat.lt_succ_iff_lt_or_eq.mp inside with lower | rfl
          · rw [List.getElem_append_left lower, kept place lower,
              List.getElem?_eq_getElem lower]
          · rw [stored]
            simp

/-- A widened text is narrowed to itself. -/
theorem convertToAscii_units
    {tail : List Byte}
    (noZero : 0 ∉ text)
    (shape : buffer.bytes = units text ++ 0 :: 0 :: tail) :
    ∃ narrow,
      convertToAscii buffer = .ok narrow ∧
        (text ++ [0]) <+: narrow.bytes := by
  have sized := buffer.sized
  rw [shape, List.length_append, units_length, List.length_cons,
    List.length_cons] at sized
  have start :
      NarrowedTo text (units text ++ 0 :: 0 :: tail) 0 buffer := by
    refine ⟨fun _ before => absurd before (Nat.not_lt_zero _), ?_⟩
    intro place _
    rw [shape]
  exact start.narrowLoop noZero (by omega) (Nat.zero_le _) (by omega)

/-- Up to the length that the input dialog allows, a text in a buffer of the
form is widened to its units and zeros up to the end, and narrowed to itself
again. -/
theorem text_widening_invertible
    (text rest : List Byte)
    (buffer : Buffer 4096)
    (noZero : 0 ∉ text)
    (short : text.length ≤ 2047)
    (shape : buffer.bytes = text ++ 0 :: rest) :
    ∃ wide,
      convertFromAscii buffer 4096 = .ok wide ∧
        wide.bytes =
          units text ++ List.replicate (4096 - 2 * text.length) 0 ∧
        ∃ narrow,
          convertToAscii wide = .ok narrow ∧
            (text ++ [0]) <+: narrow.bytes ∧
            textAt narrow.bytes 0 = .ok text := by
  obtain ⟨wide, widens, layout⟩ :=
    convertFromAscii_units noZero (by omega) (by decide) shape
  obtain ⟨zeros, isZeros⟩ :
      ∃ zeros, 4096 - 2 * text.length = zeros + 2 :=
    ⟨4096 - 2 * text.length - 2, by omega⟩
  have ends : wide.bytes =
      units text ++ 0 :: 0 :: List.replicate zeros 0 := by
    rw [layout, isZeros, List.replicate_succ, List.replicate_succ]
  obtain ⟨narrow, narrows, restored⟩ := convertToAscii_units noZero ends
  refine ⟨wide, widens, layout, narrow, narrows, restored, ?_⟩
  obtain ⟨tail, isNarrow⟩ := restored
  rw [List.append_assoc, List.singleton_append] at isNarrow
  exact textAt_text isNarrow.symm noZero

/-- A text of two characters. -/
theorem text_widening_invertible_two :
    ∃ buffer : Buffer 4096,
      buffer.bytes = [104, 255] ++ 0 :: List.replicate 4093 7 ∧
        ∃ wide,
          convertFromAscii buffer 4096 = .ok wide ∧
            wide.bytes = [104, 0, 255, 0] ++ List.replicate 4092 0 ∧
            ∃ narrow,
              convertToAscii wide = .ok narrow ∧
                ([104, 255] ++ [0]) <+: narrow.bytes ∧
                textAt narrow.bytes 0 = .ok [104, 255] :=
  let buffer : Buffer 4096 := {
    bytes := [104, 255] ++ 0 :: List.replicate 4093 7
    sized := by
      rw [List.length_append, @List.length_cons _ 0, List.length_replicate]
      rfl
  }
  ⟨buffer, rfl,
    text_widening_invertible [104, 255] _ buffer (by decide) (by decide) rfl⟩

end Hamachi
