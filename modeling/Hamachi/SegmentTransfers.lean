import Hamachi.ConsecutiveWrites
import Hamachi.SegmentLoading

namespace Hamachi.Loader

/-!
# The transfers of the segment loop

The loops of `load_elf` with a list of the bytes that each `read` stored.  When
`readall` returns 0, it has stored the next bytes of the file, as many as its
count says, one piece behind the other; its count is the low half of the file
size, as an `int`.
-/

/-- What the calls of `read` stored, and where. -/
abbrev Transfers := List (Word × List Byte)

/-- The loop of `readall`, with its transfers. -/
def readallLoopTraced
    (host : Host) :
    Nat → OpenFile → Memory 64 → Word → Int →
      Except Stop (Int × OpenFile × Memory 64 × Transfers)
  | fuel, file, memory, buf, cnt =>
      if 0 < cnt then
        match fuel with
        | 0 => .error (.faulted .outOfFuel)
        | fuel + 1 =>
            match host.read file memory buf cnt.toNat with
            | (chk, read, memory) =>
                if chk ≤ 0 then
                  .ok (-1, read, memory, [])
                else do
                  let (status, last, memory, writes) ←
                    readallLoopTraced host fuel read memory
                      (buf + BitVec.ofInt 64 chk) (cnt - chk)
                  let chunk := (file.bytes.drop file.offset).take chk.toNat
                  .ok (status, last, memory, (buf, chunk) :: writes)
      else
        .ok (0, file, memory, [])

/-- `if(readall(...)) { perror(...); return 1; }`, with its transfers. -/
def readallOrReturnTraced
    (host : Host)
    (file : OpenFile)
    (memory : Memory 64)
    (b : Word)
    (cnt : Int) :
    Except Stop (OpenFile × Memory 64 × Transfers) := do
  let (status, file, memory, writes) ←
    readallLoopTraced host cnt.toNat file memory b cnt
  if status ≠ 0 then
    .error (.returned 1)
  else
    .ok (file, memory, writes)

/-- One header in the loop that reads the segments, with its transfers. -/
def loadSegmentTraced
    (host : Host)
    (phdr : ProgramHeader)
    (file : OpenFile)
    (memory : Memory 64) :
    Except Stop (OpenFile × Memory 64 × Transfers) := do
  let file ← lseekOrReturn host file phdr.offset
  readallOrReturnTraced host file memory phdr.vaddr
    (phdr.fsz.setWidth 32).toInt

/-- The loop that reads the segments, with the transfers for each of them. -/
def loadSegmentsTraced
    (host : Host) :
    List ProgramHeader → OpenFile → Memory 64 →
      Except Stop (OpenFile × Memory 64 × List (ProgramHeader × Transfers))
  | [], file, memory => .ok (file, memory, [])
  | phdr :: rest, file, memory =>
      if phdr.isLoad then do
        let (file, memory, writes) ← loadSegmentTraced host phdr file memory
        let (file, memory, later) ←
          loadSegmentsTraced host rest file memory
        .ok (file, memory, (phdr, writes) :: later)
      else
        loadSegmentsTraced host rest file memory

/-- `load_elf` up to `close(fd)`, with the transfers for each segment. -/
def loadImageTraced
    (host : Host)
    (path : List Byte)
    (memory : Memory 64) :
    Except Stop (Image × List (ProgramHeader × Transfers)) := do
  let headers ← loadHeaders host path memory
  let (_, memory, transfers) ←
    loadSegmentsTraced host headers.phdrs headers.file headers.memory
  .ok (⟨headers.entry, headers.phdrs, lowAddr headers.phdrs,
    highAddr headers.phdrs, memory⟩, transfers)

/-! ## Listing the transfers changes nothing -/

theorem readallLoop_traced
    (host : Host)
    (fuel : Nat)
    (file : OpenFile)
    (memory : Memory 64)
    (buf : Word)
    (cnt : Int) :
    readallLoop host fuel file memory buf cnt =
      (do
        let (status, last, memory, _) ←
          readallLoopTraced host fuel file memory buf cnt
        .ok (status, last, memory)) := by
  induction fuel generalizing file memory buf cnt with
  | zero =>
      unfold readallLoop readallLoopTraced
      split <;> rfl
  | succ fuel inductionHypothesis =>
      unfold readallLoop readallLoopTraced
      split
      · dsimp only
        split
        · rfl
        · simp only [inductionHypothesis, bind_assoc, ok_bind]
      · rfl

theorem readallOrReturn_traced
    (host : Host)
    (file : OpenFile)
    (memory : Memory 64)
    (b : Word)
    (cnt : Int) :
    readallOrReturn host file memory b cnt =
      (do
        let (file, memory, _) ←
          readallOrReturnTraced host file memory b cnt
        .ok (file, memory)) := by
  unfold readallOrReturn readallOrReturnTraced readall
  rw [readallLoop_traced]
  simp only [bind_assoc, ok_bind]
  congr 1
  funext ⟨status, last, memory, writes⟩
  dsimp only
  split <;> rfl

theorem loadSegments_traced
    (host : Host)
    (phdrs : List ProgramHeader)
    (file : OpenFile)
    (memory : Memory 64) :
    loadSegments host phdrs file memory =
      (do
        let (file, memory, _) ← loadSegmentsTraced host phdrs file memory
        .ok (file, memory)) := by
  induction phdrs generalizing file memory with
  | nil =>
      rfl
  | cons phdr rest inductionHypothesis =>
      unfold loadSegments loadSegmentsTraced loadSegment
      split
      · unfold loadSegmentTraced
        simp only [readallOrReturn_traced, inductionHypothesis, bind_assoc,
          ok_bind]
      · simp only [ok_bind, inductionHypothesis]

/-- `load_elf` does what it does with its transfers listed. -/
theorem loadImage_traced
    (host : Host)
    (path : List Byte)
    (memory : Memory 64) :
    loadImage host path memory =
      (do
        let (image, _) ← loadImageTraced host path memory
        .ok image) := by
  rw [loadImage]
  unfold loadImageTraced
  simp only [loadSegments_traced, bind_assoc, ok_bind]

/-! ## What completes -/

/-- A `read` that returns a positive count has moved so many bytes. -/
theorem read_moves
    {host : Host}
    {file read : OpenFile}
    {memory filled : Memory 64}
    {buf : Word}
    {cnt : Nat}
    {chk : Int}
    (run : host.read file memory buf cnt = (chk, read, filled))
    (positive : 0 < chk) :
    ∃ moved : Nat,
      chk = moved ∧
        moved ≤ cnt ∧
        ((file.bytes.drop file.offset).take moved).length = moved ∧
        read = ⟨file.bytes, file.offset + moved, file.reads + 1⟩ ∧
        filled =
          memory.store buf ((file.bytes.drop file.offset).take moved) := by
  unfold Host.read at run
  dsimp only at run
  split at run
  · cases run
    omega
  · rename_i count answer
    split at run
    · rename_i chunkMapped
      cases run
      refine ⟨_, rfl, ?_, ?_, rfl, ?_⟩
      · simp only [List.length_take]
        omega
      · simp only [List.length_take]
        omega
      · congr 1
        rw [List.take_take, List.take_eq_take_iff, List.length_take]
        omega
    · cases run
      omega

/-- The loop of `readall` that ends with 0 has read what it was asked for. -/
structure ReadsWhole
    (file last : OpenFile)
    (memory filled : Memory 64)
    (buf : Word)
    (cnt : Nat)
    (writes : Transfers) :
    Prop where
  consecutive : Memory.Consecutive buf writes
  bytes :
    Memory.joined writes = (file.bytes.drop file.offset).take cnt
  length : (Memory.joined writes).length = cnt
  sameFile : last.bytes = file.bytes
  offset : last.offset = file.offset + cnt
  stored : filled = memory.storeAll writes

/-- Nothing is read for a count that is not positive. -/
theorem ReadsWhole.nothing
    (file : OpenFile)
    (memory : Memory 64)
    (buf : Word) :
    ReadsWhole file file memory memory buf 0 [] where
  consecutive := trivial
  bytes := rfl
  length := rfl
  sameFile := rfl
  offset := rfl
  stored := rfl

/-- One more piece in front of those that follow it. -/
theorem ReadsWhole.cons
    {file last : OpenFile}
    {memory filled : Memory 64}
    {buf : Word}
    {moved cnt reads : Nat}
    {writes : Transfers}
    (rest :
      ReadsWhole ⟨file.bytes, file.offset + moved, reads⟩ last
        (memory.store buf ((file.bytes.drop file.offset).take moved)) filled
        (buf + BitVec.ofNat 64 moved) cnt writes)
    (length : ((file.bytes.drop file.offset).take moved).length = moved) :
    ReadsWhole file last memory filled buf (moved + cnt)
      ((buf, (file.bytes.drop file.offset).take moved) :: writes) where
  consecutive := by
    refine ⟨rfl, ?_⟩
    rw [length]
    exact rest.consecutive
  bytes := by
    rw [Memory.joined_cons, rest.bytes, List.take_add, List.drop_drop]
  length := by
    rw [Memory.joined_cons, List.length_append, length, rest.length]
  sameFile := rest.sameFile
  offset := by
    rw [rest.offset, Nat.add_assoc]
  stored := rest.stored

theorem readallLoopTraced_readsWhole
    {host : Host}
    {fuel : Nat}
    {file last : OpenFile}
    {memory filled : Memory 64}
    {buf : Word}
    {cnt : Int}
    {writes : Transfers}
    (run :
      readallLoopTraced host fuel file memory buf cnt =
        .ok (0, last, filled, writes)) :
    ReadsWhole file last memory filled buf cnt.toNat writes := by
  induction fuel generalizing file memory buf cnt writes with
  | zero =>
      unfold readallLoopTraced at run
      split at run
      · cases run
      · rename_i done
        cases run
        rw [Int.toNat_of_nonpos (Int.not_lt.mp done)]
        exact .nothing _ _ _
  | succ fuel inductionHypothesis =>
      unfold readallLoopTraced at run
      split at run
      · rcases answer : host.read file memory buf cnt.toNat with
          ⟨chk, read, stored⟩
        simp only [answer] at run
        split at run
        · cases run
        · rename_i moves
          obtain ⟨moved, rfl, atMost, length, rfl, rfl⟩ :=
            read_moves answer (Int.not_le.mp moves)
          obtain ⟨⟨status, reached, result, later⟩, loops, isResult⟩ :=
            bind_eq_ok.mp run
          cases isResult
          have rest := inductionHypothesis loops
          have counts : cnt.toNat = moved + (cnt - moved).toNat := by
            omega
          rw [BitVec.ofInt_natCast] at rest
          rw [Int.toNat_natCast, counts]
          exact rest.cons length
      · rename_i done
        cases run
        rw [Int.toNat_of_nonpos (Int.not_lt.mp done)]
        exact .nothing _ _ _

/-- `readall` that lets `load_elf` go on has read what it was asked for. -/
theorem readallOrReturnTraced_readsWhole
    {host : Host}
    {file last : OpenFile}
    {memory filled : Memory 64}
    {b : Word}
    {cnt : Int}
    {writes : Transfers}
    (run :
      readallOrReturnTraced host file memory b cnt =
        .ok (last, filled, writes)) :
    ReadsWhole file last memory filled b cnt.toNat writes := by
  obtain ⟨⟨status, reached, stored, moved⟩, loops, result⟩ :=
    bind_eq_ok.mp run
  dsimp only at result
  split at result
  · cases result
  · rename_i isZero
    cases result
    obtain rfl := not_not.mp isZero
    exact readallLoopTraced_readsWhole loops

namespace ReadsWhole

variable
  {file last : OpenFile}
  {memory filled : Memory 64}
  {buf : Word}
  {cnt : Nat}
  {writes : Transfers}

/-- The pieces together are one store. -/
theorem store
    (reads : ReadsWhole file last memory filled buf cnt writes)
    (fits : cnt ≤ 2 ^ 64) :
    filled =
      memory.store buf ((file.bytes.drop file.offset).take cnt) := by
  rw [reads.stored,
    Memory.storeAll_consecutive reads.consecutive
      (by rw [reads.length]; exact fits),
    reads.bytes]

/-- The file has what was read of it. -/
theorem complete
    (reads : ReadsWhole file last memory filled buf cnt writes)
    (wanted : 0 < cnt) :
    file.offset + cnt ≤ file.bytes.length := by
  have length := reads.length
  rw [reads.bytes, List.length_take, List.length_drop] at length
  omega

end ReadsWhole

/-- The same of `readall` as it is. -/
theorem readallOrReturn_readsWhole
    {host : Host}
    {file last : OpenFile}
    {memory filled : Memory 64}
    {b : Word}
    {cnt : Int}
    (run : readallOrReturn host file memory b cnt = .ok (last, filled)) :
    ∃ writes, ReadsWhole file last memory filled b cnt.toNat writes := by
  rw [readallOrReturn_traced] at run
  obtain ⟨⟨reached, stored, writes⟩, traced, isResult⟩ :=
    bind_eq_ok.mp run
  cases isResult
  exact ⟨writes, readallOrReturnTraced_readsWhole traced⟩

/-- Where an `lseek` that lets `load_elf` go on has led.  One that fails is not
noticed when the offset asked for is the one that it returns. -/
theorem lseekOrReturn_sought
    {host : Host}
    {file sought : OpenFile}
    {offset : Word}
    (run : lseekOrReturn host file offset = .ok sought) :
    sought.bytes = file.bytes ∧
      sought.offset =
        (if host.seeks offset then offset.toNat else file.offset) ∧
      (host.seeks offset = false → offset = -1) := by
  unfold lseekOrReturn Host.lseek at run
  cases seeks : host.seeks offset with
  | true =>
      simp only [seeks, ↓reduceIte, ne_eq, not_true_eq_false] at run
      cases run
      simp
  | false =>
      simp only [seeks, Bool.false_eq_true, ↓reduceIte] at run
      split at run
      · cases run
      · rename_i isOffset
        cases run
        simp [← not_not.mp isOffset]

/-- The `int` that `readall` gets for a segment, when it is positive. -/
def ProgramHeader.cnt (phdr : ProgramHeader) : Nat :=
  (phdr.fsz.setWidth 32).toInt.toNat

/-- What the transfers for a segment are once the loop has gone past it. -/
structure ProgramHeader.Passed
    (phdr : ProgramHeader)
    (file : List Byte)
    (writes : Transfers) :
    Prop where
  consecutive : Memory.Consecutive phdr.vaddr writes
  length : (Memory.joined writes).length = phdr.cnt
  found :
    phdr.offset ≠ -1 →
      Memory.joined writes = (file.drop phdr.offset.toNat).take phdr.cnt

theorem loadSegmentTraced_passed
    {host : Host}
    {phdr : ProgramHeader}
    {file last : OpenFile}
    {memory filled : Memory 64}
    {writes : Transfers}
    (run :
      loadSegmentTraced host phdr file memory = .ok (last, filled, writes)) :
    last.bytes = file.bytes ∧
      filled = memory.storeAll writes ∧
      phdr.Passed file.bytes writes := by
  obtain ⟨sought, seeks, reads⟩ := bind_eq_ok.mp run
  obtain ⟨sameFile, offset, fails⟩ := lseekOrReturn_sought seeks
  have whole := readallOrReturnTraced_readsWhole reads
  refine ⟨whole.sameFile.trans sameFile, whole.stored,
    whole.consecutive, whole.length, fun notLast => ?_⟩
  have isSought : host.seeks phdr.offset = true := by
    by_contra unsought
    exact notLast (fails (Bool.eq_false_iff.mpr unsought))
  rw [whole.bytes, sameFile, offset, if_pos isSought]
  rfl

/-- The loop over the headers goes past every segment, and its transfers are
what it did to the memory. -/
theorem loadSegmentsTraced_passed
    {host : Host}
    {phdrs : List ProgramHeader}
    {file last : OpenFile}
    {memory filled : Memory 64}
    {transfers : List (ProgramHeader × Transfers)}
    (run :
      loadSegmentsTraced host phdrs file memory =
        .ok (last, filled, transfers)) :
    transfers.map Prod.fst = phdrs.filter ProgramHeader.isLoad ∧
      filled = memory.storeAll (transfers.flatMap Prod.snd) ∧
      ∀ entry, entry ∈ transfers → entry.1.Passed file.bytes entry.2 := by
  induction phdrs generalizing file memory transfers with
  | nil =>
      cases run
      exact ⟨rfl, rfl, fun _ member => (List.not_mem_nil member).elim⟩
  | cons phdr rest inductionHypothesis =>
      unfold loadSegmentsTraced at run
      split at run
      · rename_i load
        obtain ⟨⟨reached, stored, writes⟩, segment, run⟩ :=
          bind_eq_ok.mp run
        obtain ⟨⟨reachedLast, storedLast, later⟩, others, isResult⟩ :=
          bind_eq_ok.mp run
        cases isResult
        obtain ⟨sameFile, isStored, passed⟩ :=
          loadSegmentTraced_passed segment
        obtain ⟨headers, isStoredLast, othersPassed⟩ :=
          inductionHypothesis others
        refine ⟨?_, ?_, ?_⟩
        · rw [List.map_cons, headers, List.filter_cons_of_pos load]
        · rw [isStoredLast, isStored]
          exact List.foldl_append.symm
        · rw [← sameFile] at passed ⊢
          exact List.forall_mem_cons.mpr ⟨passed, othersPassed⟩
      · rename_i notLoad
        rw [List.filter_cons_of_neg notLoad]
        exact inductionHypothesis run

end Hamachi.Loader
