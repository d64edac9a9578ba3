import Hamachi.SegmentTransfers

namespace Hamachi.Loader

/-!
# Which accepted files were fully loaded

`load_elf` rejects a file whose segments cannot be read, but what it reads of a
segment is decided by the low half of the file size, and where it writes is not
compared with the mapping.  The fields of the headers tell exactly when an
accepted file was loaded whole and inside the mapping.
-/

/-- The program headers of the file, from where `load_elf` reads them. -/
def headersRead (host : Host) (path : List Byte) : List ProgramHeader :=
  let file := (openPath host path).2
  let ehdr := file.bytes.drop file.offset
  -- An `lseek` that fails with the offset asked for goes unnoticed.
  let table :=
    if host.seeks (phoffField ehdr) then (phoffField ehdr).toNat
    else file.offset + 64
  (List.range (phnumField ehdr)).map fun i =>
    headerAt file.bytes (table + 56 * i)

/-- The `PT_LOAD` headers among them. -/
def segmentsRead (host : Host) (path : List Byte) : List ProgramHeader :=
  (headersRead host path).filter ProgramHeader.isLoad

theorem field_drop
    (file : List Byte)
    (start offset length : Nat) :
    field (file.drop start) offset length =
      field file (start + offset) length := by
  rw [field, field, List.drop_drop]

/-- The fields of an ELF header that `readall` has put into `data`. -/
theorem ReadsWhole.ehdr_fields
    {file last : OpenFile}
    {data : Memory 64}
    {writes : Transfers}
    (reads : ReadsWhole file last (localArray 64) data 0 64 writes) :
    derefWord data 32 =
        .ok (phoffField (file.bytes.drop file.offset)) ∧
      deref data 56 2 =
        .ok (phnumField (file.bytes.drop file.offset)) := by
  have complete := reads.complete (by decide)
  rw [reads.store (by decide), phoffField, phnumField, field_drop,
    field_drop]
  exact
    ⟨derefWord_filled (localArray 64) complete (by decide) (by decide),
      deref_filled (localArray 64) complete (by decide) (by decide)⟩

/-- The headers of a table that `readall` has put into `ph`. -/
theorem ReadsWhole.programHeaders
    {file last : OpenFile}
    {ph : Memory 64}
    {phnum : Nat}
    {writes : Transfers}
    (reads :
      ReadsWhole file last (localArray (phnum * 56)) ph 0 (phnum * 56)
        writes)
    (small : phnum < 65536) :
    (List.range phnum).mapM (programHeader ph) =
      .ok ((List.range phnum).map fun i =>
        headerAt file.bytes (file.offset + 56 * i)) := by
  rw [reads.store (by omega), Nat.mul_comm]
  refine mapM_ok fun i member => ?_
  have inside := List.mem_range.mp member
  have complete := reads.complete (by omega)
  exact programHeader_filled (by omega) (by omega) inside

/-- The headers that `load_elf` has read are those of the file. -/
theorem loadHeaders_read
    {host : Host}
    {path : List Byte}
    {memory : Memory 64}
    {headers : Headers}
    (run : loadHeaders host path memory = .ok headers) :
    headers.phdrs = headersRead host path ∧
      headers.file.bytes = (openPath host path).2.bytes := by
  unfold loadHeaders at run
  unfold headersRead
  rcases opened : openPath host path with ⟨fd, file⟩
  simp only [opened] at run ⊢
  split at run
  · cases run
  · obtain ⟨⟨pastEhdr, data⟩, readsEhdr, run⟩ := bind_eq_ok.mp run
    obtain ⟨entry, _, run⟩ := bind_eq_ok.mp run
    obtain ⟨phoff, isPhoff, run⟩ := bind_eq_ok.mp run
    obtain ⟨phentsize, _, run⟩ := bind_eq_ok.mp run
    split at run
    · cases run
    · obtain ⟨phnum, isPhnum, run⟩ := bind_eq_ok.mp run
      obtain ⟨sought, seeks, run⟩ := bind_eq_ok.mp run
      obtain ⟨⟨pastTable, ph⟩, readsTable, run⟩ := bind_eq_ok.mp run
      obtain ⟨phdrs, readsPhdrs, run⟩ := bind_eq_ok.mp run
      obtain ⟨mapped, _, run⟩ := bind_eq_ok.mp run
      cases run
      obtain ⟨_, ehdr⟩ := readallOrReturn_readsWhole readsEhdr
      obtain ⟨_, table⟩ := readallOrReturn_readsWhole readsTable
      obtain ⟨phoffRead, phnumRead⟩ := ehdr.ehdr_fields
      cases isPhoff.symm.trans phoffRead
      cases isPhnum.symm.trans phnumRead
      obtain ⟨soughtFile, soughtOffset, _⟩ := lseekOrReturn_sought seeks
      have headers := table.programHeaders (phnumField_lt _)
      cases readsPhdrs.symm.trans headers
      rw [table.sameFile, soughtFile, soughtOffset, ehdr.sameFile,
        ehdr.offset]
      exact ⟨rfl, rfl⟩

/-! ## The mapping -/

/-- Where the bytes of a segment have to end to lie below `high_addr`. -/
theorem le_highAddr_iff
    (phdrs : List ProgramHeader)
    {stop : Nat}
    (positive : 0 < stop) :
    stop ≤ (highAddr phdrs).toNat ↔
      (∀ other ∈ phdrs.filter ProgramHeader.isLoad,
          other.stop.toNat ≤ 2 ^ 64 - 16384) ∧
        ∃ other ∈ phdrs.filter ProgramHeader.isLoad,
          (stop - 1) / 16384 * 16384 < other.stop.toNat := by
  have reached :
      (∃ other ∈ phdrs.filter ProgramHeader.isLoad,
          (stop - 1) / 16384 * 16384 < other.stop.toNat) ↔
        (stop - 1) / 16384 * 16384 < (bounds phdrs).2.toNat := by
    rw [← not_iff_not, Nat.not_lt, bounds_le_iff]
    push Not
    rfl
  have bound := (bounds phdrs).2.isLt
  rw [reached, ← bounds_le_iff, highAddr_toNat]
  omega

/-- The bytes of a segment lie in the mapping when they end in it. -/
theorem inside_iff
    {vaddr low high : Word}
    {size : Nat}
    (starts : low.toNat ≤ vaddr.toNat)
    (positive : 0 < size) :
    (∀ address : Word,
        distance vaddr address < size →
        low.toNat ≤ address.toNat ∧ address.toNat < high.toNat) ↔
      vaddr.toNat + size ≤ high.toNat := by
  have highBound := high.isLt
  have vaddrBound := vaddr.isLt
  constructor
  · intro inside
    by_contra past
    -- The first address of the segment that is not below `high`.
    let first := max vaddr.toNat high.toNat
    have small : first < 2 ^ 64 := by
      omega
    have isFirst : (BitVec.ofNat 64 first).toNat = first := by
      rw [BitVec.toNat_ofNat, Nat.mod_eq_of_lt small]
    have reached : distance vaddr (BitVec.ofNat 64 first) < size := by
      rw [distance_eq, isFirst, if_pos (by omega)]
      omega
    have := (inside _ reached).2
    omega
  · intro ends address reached
    rw [distance_eq] at reached
    split at reached <;> omega

/-! ## Whole segments inside the mapping -/

/-- All bytes of the segment were read from the file, and every byte was
written inside `[low, high)`. -/
structure ProgramHeader.FullyLoaded
    (phdr : ProgramHeader)
    (file : List Byte)
    (low high : Word)
    (writes : Transfers) :
    Prop where
  whole : (Memory.joined writes).length = phdr.fsz.toNat
  bytes : Memory.joined writes = phdr.bytes file
  inside :
    ∀ address,
      Memory.Reaches writes address →
      low.toNat ≤ address.toNat ∧ address.toNat < high.toNat

/-- If `load_elf` gets past the segments, every one of them is fully loaded. -/
def LoadsFully
    (host : Host)
    (path : List Byte)
    (memory : Memory 64) :
    Prop :=
  ∀ image transfers,
    loadImageTraced host path memory = .ok (image, transfers) →
      transfers.map Prod.fst =
          image.phdrs.filter ProgramHeader.isLoad ∧
        ∀ entry ∈ transfers,
          entry.1.FullyLoaded (openPath host path).2.bytes
            image.low image.high entry.2

/-- The file size is an `int`, the offset is none that a failing `lseek`
returns, and the last byte lies in a page below the end of some segment, while
no segment ends in the last page. -/
def ProgramHeader.Fits
    (segments : List ProgramHeader)
    (phdr : ProgramHeader) :
    Prop :=
  phdr.fsz = 0 ∨
    (phdr.fsz.toNat < 2 ^ 31 ∧
      phdr.offset ≠ -1 ∧
      (∀ other ∈ segments, other.stop.toNat ≤ 2 ^ 64 - 16384) ∧
      ∃ other ∈ segments,
        (phdr.vaddr.toNat + phdr.fsz.toNat - 1) / 16384 * 16384 <
          other.stop.toNat)

/-- The count is the file size only below `2^31`. -/
theorem ProgramHeader.cnt_eq_iff (phdr : ProgramHeader) :
    phdr.cnt = phdr.fsz.toNat ↔ phdr.fsz.toNat < 2 ^ 31 := by
  have bound := phdr.fsz.isLt
  unfold ProgramHeader.cnt
  rw [BitVec.toInt_eq_toNat_cond, BitVec.toNat_setWidth]
  split <;> omega

theorem ProgramHeader.cnt_lt (phdr : ProgramHeader) :
    phdr.cnt < 2 ^ 31 := by
  unfold ProgramHeader.cnt
  rw [BitVec.toInt_eq_toNat_cond]
  split <;> omega

namespace ProgramHeader.Passed

variable
  {phdr : ProgramHeader}
  {file : List Byte}
  {low high : Word}
  {writes : Transfers}

/-- The transfers reach the bytes from the segment's address on. -/
theorem reaches
    (passed : phdr.Passed file writes)
    (address : Word) :
    Memory.Reaches writes address ↔
      distance phdr.vaddr address < phdr.cnt := by
  have small := phdr.cnt_lt
  rw [Memory.reaches_consecutive passed.consecutive
    (by rw [passed.length]; omega), passed.length]

/-- Nothing has to be read of a segment without bytes in the file. -/
theorem fullyLoaded_empty
    (passed : phdr.Passed file writes)
    (empty : phdr.fsz = 0) :
    phdr.FullyLoaded file low high writes := by
  have noCount : phdr.cnt = 0 := by
    rw [phdr.cnt_eq_iff.mpr (by simp [empty]), empty]
    rfl
  have nothing : Memory.joined writes = [] :=
    List.length_eq_zero_iff.mp (passed.length.trans noCount)
  refine ⟨?_, ?_, fun address reached => ?_⟩
  · simp [nothing, empty]
  · simp [nothing, ProgramHeader.bytes, empty]
  · rw [passed.reaches, noCount] at reached
    omega

/-- When the transfers for a segment are the whole segment, inside the
mapping. -/
theorem fullyLoaded_iff
    (passed : phdr.Passed file writes)
    (representable : file.length < 2 ^ 64)
    (starts : low.toNat ≤ phdr.vaddr.toNat)
    (nonempty : phdr.fsz ≠ 0) :
    phdr.FullyLoaded file low high writes ↔
      phdr.fsz.toNat < 2 ^ 31 ∧
        phdr.offset ≠ -1 ∧
        phdr.vaddr.toNat + phdr.fsz.toNat ≤ high.toNat := by
  have positive : 0 < phdr.fsz.toNat :=
    Nat.pos_of_ne_zero fun isZero =>
      nonempty (BitVec.eq_of_toNat_eq isZero)
  constructor
  · intro loaded
    have counted : phdr.cnt = phdr.fsz.toNat :=
      passed.length.symm.trans loaded.whole
    refine ⟨phdr.cnt_eq_iff.mp counted, fun isLast => ?_,
      (inside_iff starts positive).mp fun address near => ?_⟩
    · -- No file has a byte at that offset.
      have length := loaded.whole
      rw [loaded.bytes, ProgramHeader.bytes, isLast, List.length_take,
        List.length_drop] at length
      have offset : (-1 : Word).toNat = 2 ^ 64 - 1 := by
        decide
      omega
    · exact loaded.inside address
        ((passed.reaches address).mpr (counted ▸ near))
  · rintro ⟨small, notLast, ends⟩
    have counted := phdr.cnt_eq_iff.mpr small
    refine ⟨passed.length.trans counted, ?_, fun address reached => ?_⟩
    · rw [passed.found notLast, counted]
      rfl
    · rw [passed.reaches, counted] at reached
      exact (inside_iff starts positive).mpr ends address reached

/-- The same condition on the headers. -/
theorem fullyLoaded_iff_fits
    {phdrs : List ProgramHeader}
    (passed : phdr.Passed file writes)
    (representable : file.length < 2 ^ 64)
    (member : phdr ∈ phdrs.filter ProgramHeader.isLoad) :
    phdr.FullyLoaded file (lowAddr phdrs) (highAddr phdrs) writes ↔
      phdr.Fits (phdrs.filter ProgramHeader.isLoad) := by
  unfold ProgramHeader.Fits
  by_cases empty : phdr.fsz = 0
  · exact iff_of_true (passed.fullyLoaded_empty empty) (.inl empty)
  · have positive : 0 < phdr.vaddr.toNat + phdr.fsz.toNat :=
      Nat.add_pos_right _ (Nat.pos_of_ne_zero fun isZero =>
        empty (BitVec.eq_of_toNat_eq isZero))
    rw [passed.fullyLoaded_iff representable (lowAddr_le_vaddr member) empty,
      le_highAddr_iff phdrs positive, or_iff_right empty]

end ProgramHeader.Passed

/-- What an accepted file's segments were loaded by. -/
theorem loadImageTraced_passed
    {host : Host}
    {path : List Byte}
    {memory : Memory 64}
    {image : Image}
    {transfers : List (ProgramHeader × Transfers)}
    (run : loadImageTraced host path memory = .ok (image, transfers)) :
    image.phdrs = headersRead host path ∧
      image.low = lowAddr image.phdrs ∧
      image.high = highAddr image.phdrs ∧
      transfers.map Prod.fst =
        image.phdrs.filter ProgramHeader.isLoad ∧
      ∀ entry ∈ transfers,
        entry.1.Passed (openPath host path).2.bytes entry.2 := by
  obtain ⟨headers, headersRun, run⟩ := bind_eq_ok.mp run
  obtain ⟨⟨last, filled, later⟩, segmentsRun, isResult⟩ :=
    bind_eq_ok.mp run
  cases isResult
  obtain ⟨isRead, sameFile⟩ := loadHeaders_read headersRun
  obtain ⟨names, _, passed⟩ := loadSegmentsTraced_passed segmentsRun
  rw [sameFile] at passed
  exact ⟨isRead, rfl, rfl, names, passed⟩

/-- An accepted file was fully loaded exactly when each of its segments with
bytes in the file fits: `readall` is given the low half of the file size, and
nothing compares the file size with the mapping. -/
theorem loadsFully_iff
    {host : Host}
    {path : List Byte}
    {memory : Memory 64}
    {image : Image}
    (accepted : loadImage host path memory = .ok image)
    (representable : (openPath host path).2.bytes.length < 2 ^ 64) :
    LoadsFully host path memory ↔
      ∀ phdr ∈ segmentsRead host path,
        phdr.Fits (segmentsRead host path) := by
  rw [loadImage_traced] at accepted
  obtain ⟨⟨image, transfers⟩, run, _⟩ := bind_eq_ok.mp accepted
  obtain ⟨isRead, isLow, isHigh, names, passed⟩ :=
    loadImageTraced_passed run
  have isSegments :
      transfers.map Prod.fst = segmentsRead host path := by
    rw [names, isRead]
    rfl
  have each (entry : ProgramHeader × Transfers)
      (member : entry ∈ transfers) :
      entry.1.FullyLoaded (openPath host path).2.bytes image.low
          image.high entry.2 ↔
        entry.1.Fits (segmentsRead host path) := by
    have listed : entry.1 ∈ segmentsRead host path := by
      rw [← isSegments]
      exact List.mem_map_of_mem member
    rw [isLow, isHigh, isRead]
    exact (passed entry member).fullyLoaded_iff_fits representable listed
  constructor
  · intro loads phdr member
    rw [← isSegments] at member
    obtain ⟨entry, inTransfers, rfl⟩ := List.mem_map.mp member
    exact (each entry inTransfers).mp
      ((loads image transfers run).2 entry inTransfers)
  · intro fits image' transfers' run'
    cases run.symm.trans run'
    refine ⟨names, fun entry member => (each entry member).mpr ?_⟩
    refine fits entry.1 ?_
    rw [← isSegments]
    exact List.mem_map_of_mem member

/-- A host that seeks inside the file leaves the headers where the file has
them. -/
theorem Host.Serves.segmentsRead
    {host : Host}
    {path file : List Byte}
    (serves : host.Serves path file)
    (table : (phoffField file).toNat ≤ file.length) :
    (openPath host path).2.bytes = file ∧
      segmentsRead host path = segments file := by
  have opened := openPath_file path (serves.seeks 0 (by simp))
  rw [serves.content] at opened
  refine ⟨by rw [opened], ?_⟩
  unfold Loader.segmentsRead headersRead
  rw [opened]
  simp only [List.drop_zero, serves.seeks _ table, ↓reduceIte]
  rfl

set_option maxRecDepth 8000 in
theorem length_twoSegments : twoSegments.length < 2 ^ 64 := by
  decide

/-- Both segments of the file are loaded whole. -/
theorem loadsFully_twoSegments :
    LoadsFully shortReads (chars "hamachid") fun _ => none := by
  obtain ⟨filled, accepted, _⟩ :=
    loadImage_shows (fun _ => none) twoSegments_loadable shortReads_serves
  obtain ⟨isFile, isSegments⟩ :=
    shortReads_serves.segmentsRead
      (Nat.le_of_add_right_le twoSegments_loadable.table)
  refine
    (loadsFully_iff accepted (by rw [isFile]; exact length_twoSegments)).mpr
      ?_
  rw [isSegments, twoSegments_segments]
  refine List.forall_mem_cons.mpr ⟨.inr ?_,
    List.forall_mem_singleton.mpr (.inr ?_)⟩
  · exact ⟨by decide, by decide, by decide, by decide⟩
  · exact ⟨by decide, by decide, by decide, by decide⟩

/-- A file with one segment, whose size is `2^32`. -/
def overlong : List Byte :=
  littleEndianBytes 32 0 ++ littleEndianBytes 22 64 ++
    littleEndianBytes 2 56 ++ littleEndianBytes 8 1 ++
    headerBytes 1 0 0x400000 0x100000000 0x100000000

/-- The host of the two segments, with the overlong file. -/
def overlongReads : Host :=
  { shortReads with content := fun _ => overlong }

set_option maxRecDepth 8000 in
theorem programHeaders_overlong :
    programHeaders overlong =
      [⟨1, 0, 0x400000, 0x100000000, 0x100000000⟩] := by
  rfl

theorem overlong_completeHeaders : CompleteHeaders overlong where
  header := by
    decide
  phentsize := by
    decide
  table := by
    decide

theorem overlongReads_serves :
    overlongReads.Serves (chars "hamachid") overlong where
  opens := by
    decide
  content := rfl
  seeks _ _ := rfl
  splits call := ⟨call % 5, rfl⟩
  maps := rfl

/-- Nothing is read of the segment, and the file is accepted. -/
theorem loadImageTraced_overlong :
    ∃ image,
      loadImageTraced overlongReads (chars "hamachid") (fun _ => none) =
        .ok (image,
          [(⟨1, 0, 0x400000, 0x100000000, 0x100000000⟩, [])]) := by
  obtain ⟨read, _, headersRun⟩ :=
    loadHeaders_complete (fun _ => none) overlong_completeHeaders
      overlongReads_serves
  rw [programHeaders_overlong] at headersRun
  exact ⟨_, by rw [loadImageTraced, headersRun]; rfl⟩

theorem not_loadsFully_overlong :
    (∃ image,
      loadImage overlongReads (chars "hamachid") (fun _ => none) =
        .ok image) ∧
      ¬LoadsFully overlongReads (chars "hamachid") fun _ => none := by
  obtain ⟨image, run⟩ := loadImageTraced_overlong
  refine ⟨⟨image, by rw [loadImage_traced, run]; rfl⟩, fun loads => ?_⟩
  have loaded := (loads image _ run).2 _ (List.mem_singleton_self _)
  exact absurd loaded.whole (by decide)

end Hamachi.Loader
