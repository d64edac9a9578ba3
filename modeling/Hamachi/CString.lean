import Hamachi.Buffer

namespace Hamachi

/-!
# C strings in a block

The functions of `string.h` on the bytes of a block, from an offset on.  They
fault where the C function would read past the block.
-/

/-- The bytes of a string literal. -/
def chars (literal : String) : List Byte :=
  literal.toList.map fun char => BitVec.ofNat 8 char.toNat

/-- `'\n'`. -/
def newline : Byte := 10

/-- `']'`. -/
def closingBracket : Byte := 93

/-- `strlen`. -/
def strlen (block : List Byte) (p : Nat) : Except Fault Nat :=
  match (block.drop p).findIdx? (· == 0) with
  | some length => .ok length
  | none => .error .outOfBounds

/-- The string that a pointer to `char` stands for. -/
def textAt (block : List Byte) (p : Nat) : Except Fault (List Byte) := do
  let length ← strlen block p
  .ok ((block.drop p).take length)

/-- A text without a terminator is read past its block. -/
theorem textAt_error
    {block : List Byte}
    {p : Nat}
    {fault : Fault}
    (faults : textAt block p = .error fault) :
    fault = .outOfBounds := by
  unfold textAt strlen at faults
  split at faults
  · cases faults
  · cases faults
    rfl

/-- `strchr`, for a byte other than the terminator. -/
def strchr
    (block : List Byte)
    (p : Nat)
    (wanted : Byte) :
    Except Fault (Option Nat) :=
  match (block.drop p).findIdx? fun byte => byte == wanted || byte == 0 with
  | some index =>
      if block[p + index]? = some wanted then
        .ok (some (p + index))
      else
        .ok none
  | none => .error .outOfBounds

/-- `!strncmp`, for as many bytes as the text without terminators has. -/
def startsWith (block : List Byte) : Nat → List Byte → Except Fault Bool
  | _, [] => .ok true
  | p, wanted :: rest =>
      match block[p]? with
      | none => .error .outOfBounds
      | some byte =>
          if byte = wanted then
            startsWith block (p + 1) rest
          else
            .ok false

section Text

variable
  {block text rest : List Byte}
  {p : Nat}

/-- The length of a text in a block. -/
theorem strlen_text
    (shape : block.drop p = text ++ 0 :: rest)
    (noZero : 0 ∉ text) :
    strlen block p = .ok text.length := by
  have before : text.findIdx? (· == 0) = none := by
    refine List.findIdx?_eq_none_iff.mpr fun byte member => ?_
    simpa using fun isZero : byte = 0 => noZero (isZero ▸ member)
  have found :
      (text ++ 0 :: rest).findIdx? (· == 0) = some text.length := by
    rw [List.findIdx?_append, before, List.findIdx?_cons]
    simp
  rw [strlen, shape, found]

/-- A text in a block is read as it stands there. -/
theorem textAt_text
    (shape : block.drop p = text ++ 0 :: rest)
    (noZero : 0 ∉ text) :
    textAt block p = .ok text := by
  rw [textAt, strlen_text shape noZero, ok_bind, shape, List.take_left]

/-- `strchr` finds the first place of a byte in a text. -/
theorem strchr_text
    {wanted : Byte}
    (shape : block.drop p = text ++ 0 :: rest)
    (noZero : 0 ∉ text)
    (notZero : wanted ≠ 0) :
    strchr block p wanted =
      .ok ((text.findIdx? (· == wanted)).map (p + ·)) := by
  have same :
      text.findIdx? (fun byte => byte == wanted || byte == 0) =
        text.findIdx? (· == wanted) := by
    clear shape
    induction text with
    | nil =>
        rfl
    | cons byte rest inductionHypothesis =>
        rw [List.mem_cons, not_or] at noZero
        have notEnd : (byte == 0) = false := by
          simpa using Ne.symm noZero.1
        rw [List.findIdx?_cons, List.findIdx?_cons, notEnd, Bool.or_false,
          inductionHypothesis noZero.2]
  have reads :
      ∀ index, block[p + index]? = (text ++ 0 :: rest)[index]? := by
    intro index
    rw [← shape, List.getElem?_drop]
  unfold strchr
  rw [shape, List.findIdx?_append, same]
  cases found : text.findIdx? (· == wanted) with
  | none =>
      rw [List.findIdx?_cons]
      simpa [reads] using Ne.symm notZero
  | some index =>
      obtain ⟨inside, isWanted, _⟩ :=
        List.findIdx?_eq_some_iff_getElem.mp found
      simp only [Option.some_or, reads, List.getElem?_append_left inside,
        List.getElem?_eq_getElem inside]
      rw [if_pos (by simpa using isWanted), Option.map_some]

/-- The comparison of a text with the start that it should have. -/
theorem startsWith_text
    {wanted : List Byte}
    (shape : block.drop p = text ++ 0 :: rest)
    (noZero : 0 ∉ wanted) :
    startsWith block p wanted = .ok (wanted.isPrefixOf text) := by
  induction wanted generalizing p text with
  | nil =>
      simp [startsWith]
  | cons first wanted inductionHypothesis =>
      have reads : block[p]? = (text ++ 0 :: rest)[0]? := by
        rw [← shape, List.getElem?_drop, Nat.add_zero]
      rw [List.mem_cons, not_or] at noZero
      cases text with
      | nil =>
          have isOther : (0 : Byte) ≠ first := noZero.1
          have isEnd : block[p]? = some 0 := reads
          rw [startsWith, isEnd]
          exact if_neg isOther
      | cons char text =>
          have later : block.drop (p + 1) = text ++ 0 :: rest := by
            rw [← List.drop_drop, shape]
            rfl
          have isFirst : block[p]? = some char := reads
          simp only [startsWith, isFirst, List.isPrefixOf]
          split
          · rename_i same
            rw [inductionHypothesis later noZero.2, same]
            simp
          · rename_i different
            have notFirst : (first == char) = false := by
              simpa using Ne.symm different
            rw [notFirst, Bool.false_and]

end Text

end Hamachi
