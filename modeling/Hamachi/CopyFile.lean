import Hamachi.Buffer

namespace Hamachi

/-!
# The file copy of `daemon_start.c`

`copy_file` uses one variable for what `read` and `write` return, and returns
it.  The results of the host's calls follow a schedule, which gives for each
call the number of bytes that it moves at most, or a failure.
-/

/-- An open file: its contents and the offset of the descriptor. -/
structure OpenFile where
  contents : List Byte
  offset : Nat

namespace OpenFile

/-- `read` of up to `request` bytes; nothing is read at the end. -/
def read
    (file : OpenFile)
    (request : Nat)
    (answer : Option Nat) :
    OpenFile × Option (List Byte) :=
  match answer with
  | none => (file, none)
  | some most =>
      let data := (file.contents.drop file.offset).take (min most request)
      ({ file with offset := file.offset + data.length }, some data)

/-- `write`; the result is that of the call. -/
def write
    (file : OpenFile)
    (data : List Byte)
    (answer : Option Nat) :
    OpenFile × Int :=
  match answer with
  | none => (file, -1)
  | some most =>
      let data := data.take most
      let file := {
        contents :=
          file.contents.take file.offset ++ data ++
            file.contents.drop (file.offset + data.length)
        offset := file.offset + data.length
      }
      (file, data.length)

/-- `ftruncate(fd, lseek(fd, 0, SEEK_CUR))`, when it succeeds. -/
def truncate (file : OpenFile) : OpenFile :=
  { file with contents := file.contents.take file.offset }

end OpenFile

/-- What the host answers to the calls of `copy_file`, each in its turn: the
bytes that a `read` or a `write` moves at most, and whether `ftruncate`
succeeds.  A `read` of nothing is the end of the file. -/
structure CopySchedule where
  reads : Nat → Option Nat
  writes : Nat → Option Nat
  truncates : Bool
  positive : ∀ {call most}, reads call = some most → 0 < most

/-- The two files, and the calls that have been made. -/
structure CopyState where
  source : OpenFile
  target : OpenFile
  reads : Nat
  writes : Nat

/-- `while((chk = write(fd2, p, sz)) > 0)`; the bytes that are left at `p`. -/
def writeLoop
    (schedule : CopySchedule) :
    Nat → CopyState → List Byte → Except Fault (CopyState × List Byte)
  | 0, _, _ => .error .outOfFuel
  | fuel + 1, state, p =>
      let (target, chk) := state.target.write p (schedule.writes state.writes)
      let state :=
        { state with target := target, writes := state.writes + 1 }
      if chk > 0 then
        writeLoop schedule fuel state (p.drop chk.toNat)
      else
        .ok (state, p)

/-- `while((chk = read(fd1, buf, sizeof(buf))) > 0)`; the last value of
`chk`. -/
def copyLoop
    (schedule : CopySchedule) :
    Nat → CopyState → Except Fault (CopyState × Int)
  | 0, _ => .error .outOfFuel
  | fuel + 1, state =>
      let (source, result) :=
        state.source.read 4096 (schedule.reads state.reads)
      let state :=
        { state with source := source, reads := state.reads + 1 }
      match result with
      | none => .ok (state, -1)
      | some buf =>
          if buf.length > 0 then do
            -- Every pass but the last moves a byte of the buffer.
            let (state, left) ←
              writeLoop schedule (buf.length + 1) state buf
            if left.length ≠ 0 then
              .ok (state, -1)
            else
              copyLoop schedule fuel state
          else
            .ok (state, 0)

/-- What `copy_file` returns and what it leaves of the target. -/
structure Copied where
  ret : Int
  target : List Byte

/-- `copy_file`; a descriptor that `open` does not return is missing. -/
def copyFile
    (schedule : CopySchedule)
    (source old : List Byte)
    (srcOpens tgtOpens : Bool) :
    Except Fault Copied :=
  if ¬ srcOpens then
    .ok ⟨-1, old⟩
  else if ¬ tgtOpens then
    .ok ⟨-1, old⟩
  else do
    -- O_TRUNC
    let start : CopyState := ⟨⟨source, 0⟩, ⟨[], 0⟩, 0, 0⟩
    let (state, chk) ← copyLoop schedule (source.length + 1) start
    let target :=
      if schedule.truncates then state.target.truncate else state.target
    .ok ⟨chk, target.contents⟩

namespace OpenFile

variable {file : OpenFile}

/-- The offset is at the end of the file. -/
def AtEnd (file : OpenFile) : Prop :=
  file.offset = file.contents.length

/-- What is still to be read. -/
def remaining (file : OpenFile) : List Byte :=
  file.contents.drop file.offset

/-- Truncating a file at its end changes nothing. -/
theorem AtEnd.truncate
    (atEnd : file.AtEnd) :
    file.truncate = file := by
  have whole : file.contents.take file.offset = file.contents := by
    rw [atEnd, List.take_length]
  rw [OpenFile.truncate, whole]

/-- A write at the end appends what it takes, and stays at the end. -/
theorem AtEnd.write
    (atEnd : file.AtEnd)
    (data : List Byte)
    (most : Nat) :
    ∃ next,
      file.write data (some most) = (next, ((data.take most).length : Int)) ∧
        next.contents = file.contents ++ data.take most ∧
        next.AtEnd := by
  have before : file.contents.take file.offset = file.contents := by
    rw [atEnd, List.take_length]
  have behind :
      file.contents.drop (file.offset + (data.take most).length) = [] :=
    List.drop_of_length_le (atEnd ▸ Nat.le_add_right _ _)
  refine ⟨_, rfl, ?_, ?_⟩
  · rw [before, behind, List.append_nil]
  · simp only [AtEnd]
    rw [before, behind, List.append_nil, List.length_append, atEnd]

/-- A read takes a part of what remains, which is empty only at the end. -/
theorem read_some
    (request : Nat)
    {most : Nat}
    (asked : 0 < request)
    (positive : 0 < most) :
    ∃ next data,
      file.read request (some most) = (next, some data) ∧
        next.contents = file.contents ∧
        file.remaining = data ++ next.remaining ∧
        next.contents.take next.offset =
          file.contents.take file.offset ++ data ∧
        (data = [] → file.remaining = []) := by
  obtain ⟨later, isRest⟩ :=
    List.take_prefix (min most request) (file.contents.drop file.offset)
  generalize isData :
    (file.contents.drop file.offset).take (min most request) = data at isRest
  refine ⟨{ file with offset := file.offset + data.length }, data, ?_, rfl,
    ?_, ?_, ?_⟩
  · simp only [read, isData]
  · simp only [remaining]
    rw [← List.drop_drop, ← isRest, List.drop_left]
  · rw [List.take_add, ← isRest, List.take_left]
  · intro isEmpty
    rcases List.take_eq_nil_iff.mp (isData.trans isEmpty) with none | atEnd
    · omega
    · exact atEnd

end OpenFile

variable
  {schedule : CopySchedule}
  {state : CopyState}

/-- The inner loop appends a first part of the buffer to the target; what it
leaves is the rest. -/
theorem writeLoop_spec
    {fuel : Nat}
    {p : List Byte}
    (atEnd : state.target.AtEnd)
    (enough : p.length < fuel) :
    ∃ next left moved,
      writeLoop schedule fuel state p = .ok (next, left) ∧
        p = moved ++ left ∧
        next.source = state.source ∧
        next.target.contents = state.target.contents ++ moved ∧
        next.target.AtEnd := by
  induction fuel generalizing state p with
  | zero =>
      omega
  | succ fuel inductionHypothesis =>
      cases answer : schedule.writes state.writes with
      | none =>
          refine ⟨{ state with writes := state.writes + 1 }, p, [], ?_, rfl,
            rfl, (List.append_nil _).symm, atEnd⟩
          simp only [writeLoop, answer, OpenFile.write]
          rw [if_neg (by decide)]
      | some most =>
          obtain ⟨target, writes, contents, nextAtEnd⟩ :=
            atEnd.write p most
          simp only [writeLoop, answer, writes]
          split
          · rename_i some
            rw [Int.toNat_natCast]
            have shorter :
                (p.drop (p.take most).length).length < fuel := by
              have taken : (p.take most).length ≤ p.length :=
                List.length_take_le' most p
              rw [List.length_drop]
              omega
            obtain ⟨next, left, moved, loops, isRest, source, written,
              lastAtEnd⟩ := @inductionHypothesis
                { state with target := target, writes := state.writes + 1 }
                (p.drop (p.take most).length) nextAtEnd shorter
            refine ⟨next, left, p.take most ++ moved, loops, ?_, source, ?_,
              lastAtEnd⟩
            · rw [List.append_assoc, ← isRest]
              obtain ⟨later, isTaken⟩ := List.take_prefix most p
              generalize p.take most = taken at isTaken
              rw [← isTaken, List.drop_left]
            · rw [written, contents, List.append_assoc]
          · rename_i nothing
            have isNil : p.take most = [] :=
              List.eq_nil_of_length_eq_zero (by omega)
            refine ⟨_, p, [], rfl, rfl, rfl, ?_, nextAtEnd⟩
            rw [contents, isNil]

/-- At the head of the outer loop, the target holds what has been read. -/
structure InStep (state : CopyState) : Prop where
  same :
    state.target.contents =
      state.source.contents.take state.source.offset
  atEnd : state.target.AtEnd

/-- The outer loop returns zero with the whole source in the target, or a
failure. -/
theorem copyLoop_spec
    {fuel : Nat}
    (inStep : InStep state)
    (enough : state.source.remaining.length < fuel) :
    ∃ next chk,
      copyLoop schedule fuel state = .ok (next, chk) ∧
        (chk = 0 ∧ next.target.contents = state.source.contents ∨
          chk = -1) ∧
        next.target.AtEnd := by
  induction fuel generalizing state with
  | zero =>
      omega
  | succ fuel inductionHypothesis =>
      cases answer : schedule.reads state.reads with
      | none =>
          refine ⟨{ state with reads := state.reads + 1 }, -1, ?_, .inr rfl,
            inStep.atEnd⟩
          simp only [copyLoop, answer, OpenFile.read]
      | some most =>
          obtain ⟨source, data, reads, contents, split, taken, atEnd⟩ :=
            state.source.read_some 4096 (by decide)
              (schedule.positive answer)
          simp only [copyLoop, answer, reads]
          by_cases some : data.length > 0
          · rw [if_pos some]
            obtain ⟨middle, left, moved, loops, isData, sameSource, written,
              middleAtEnd⟩ := @writeLoop_spec schedule
                { state with source := source, reads := state.reads + 1 }
                (data.length + 1) data inStep.atEnd (Nat.lt_succ_self _)
            rw [loops, ok_bind]
            by_cases stuck : left.length ≠ 0
            · simp only [if_pos stuck]
              exact ⟨_, -1, rfl, .inr rfl, middleAtEnd⟩
            · simp only [if_neg stuck]
              have isMoved : data = moved := by
                rw [isData, List.eq_nil_of_length_eq_zero (not_not.mp stuck),
                  List.append_nil]
              have stillInStep : InStep middle := by
                refine ⟨?_, middleAtEnd⟩
                rw [written, sameSource, taken, ← isMoved, inStep.same]
              have fewer : middle.source.remaining.length < fuel := by
                have := congrArg List.length split
                rw [List.length_append] at this
                rw [sameSource]
                dsimp only
                omega
              obtain ⟨next, chk, copies, result, nextAtEnd⟩ :=
                inductionHypothesis stillInStep fewer
              refine ⟨next, chk, copies, ?_, nextAtEnd⟩
              rwa [sameSource, contents] at result
          · rw [if_neg some]
            have isNil : data = [] :=
              List.eq_nil_of_length_eq_zero (by omega)
            have all :
                state.target.contents = state.source.contents := by
              rw [inStep.same]
              exact List.take_of_length_le
                (List.drop_eq_nil_iff.mp (atEnd isNil))
            exact ⟨_, 0, rfl, .inl ⟨rfl, all⟩, inStep.atEnd⟩

/-- With both files open, `copy_file` returns whatever the host's calls do, and
returns zero only when the target ends up with the contents of the source. -/
theorem copyFile_zero
    (schedule : CopySchedule)
    (source old : List Byte) :
    ∃ copied,
      copyFile schedule source old true true = .ok copied ∧
        (copied.ret = 0 ∨ copied.ret = -1) ∧
        (copied.ret = 0 → copied.target = source) := by
  have inStep : InStep ⟨⟨source, 0⟩, ⟨[], 0⟩, 0, 0⟩ := ⟨rfl, rfl⟩
  obtain ⟨state, chk, copies, result, atEnd⟩ :=
    @copyLoop_spec schedule ⟨⟨source, 0⟩, ⟨[], 0⟩, 0, 0⟩ (source.length + 1)
      inStep (Nat.lt_succ_self _)
  have kept :
      (if schedule.truncates then state.target.truncate else state.target) =
        state.target := by
    rw [atEnd.truncate, ite_self]
  refine ⟨⟨chk, state.target.contents⟩, ?_, ?_, ?_⟩
  · simp only [copyFile, not_true_eq_false, if_false, copies, ok_bind, kept]
  · rcases result with ⟨isZero, _⟩ | isFailure
    · exact .inl isZero
    · exact .inr isFailure
  · intro isZero
    rcases result with ⟨_, same⟩ | isFailure
    · exact same
    · rw [isFailure] at isZero
      cases isZero

/-- Reads of three bytes, and writes of one or two. -/
def shortCalls : CopySchedule where
  reads := fun _ => some 3
  writes := fun call => some (call % 2 + 1)
  truncates := true
  positive := by
    rintro call most ⟨⟩
    decide

/-- A copy in short calls returns zero, over an older target. -/
theorem copyFile_zero_short :
    ∃ copied,
      copyFile shortCalls [1, 2, 3, 4, 5, 6, 7] [9, 9] true true =
          .ok copied ∧
        copied.ret = 0 ∧
        copied.target = [1, 2, 3, 4, 5, 6, 7] := by
  obtain ⟨copied, copies, -, same⟩ :=
    copyFile_zero shortCalls [1, 2, 3, 4, 5, 6, 7] [9, 9]
  have returned :
      (copyFile shortCalls [1, 2, 3, 4, 5, 6, 7] [9, 9] true true).map
        Copied.ret = .ok 0 := by
    decide
  rw [copies] at returned
  have isZero : copied.ret = 0 := Except.ok.inj returned
  exact ⟨copied, copies, isZero, same isZero⟩

end Hamachi
