import Hamachi.PageRounding
import Hamachi.Readall

namespace Hamachi.Loader

/-!
# Segment loading

The header table is read as the file has it, the bounds enclose every segment
and are rounded outward, and every segment is filled without touching the
others.
-/

/-! ## Reading the headers -/

theorem localArray_mapped (size : Nat) (small : size ≤ 2 ^ 64) :
    (localArray size).mapped 0 size = true := by
  rw [Memory.mapped_iff]
  intro index inside
  rw [localArray, Memory.fill_inside]
  · rfl
  · rw [distance_add 0 (by omega)]
    exact inside

/-- A filled array gives back the bytes it was filled with. -/
theorem deref_filled
    (array : Memory 64)
    {file : List Byte}
    {start size offset length : Nat}
    (complete : start + size ≤ file.length)
    (small : size ≤ 2 ^ 64)
    (inside : offset + length ≤ size) :
    deref (array.store 0 ((file.drop start).take size))
        (BitVec.ofNat 64 offset) length =
      .ok (field file (start + offset) length) := by
  have bytesLength : ((file.drop start).take size).length = size := by
    rw [List.length_take, List.length_drop]
    omega
  have loaded :=
    Memory.load_store array 0
      (show ((file.drop start).take size).length ≤ 2 ^ 64 by omega)
      (show offset + length ≤ ((file.drop start).take size).length by omega)
  simp only [BitVec.ofNat_eq_ofNat, BitVec.zero_add] at loaded
  simp only [BitVec.ofNat_eq_ofNat, deref, Memory.number, loaded, Option.map_some]
  rw [field, List.drop_take, List.take_take, List.drop_drop,
    Nat.min_eq_left (by omega)]

theorem derefWord_filled
    (array : Memory 64)
    {file : List Byte}
    {start size offset : Nat}
    (complete : start + size ≤ file.length)
    (small : size ≤ 2 ^ 64)
    (inside : offset + 8 ≤ size) :
    derefWord (array.store 0 ((file.drop start).take size))
        (BitVec.ofNat 64 offset) =
      .ok (BitVec.ofNat 64 (field file (start + offset) 8)) := by
  rw [derefWord, deref_filled array complete small inside]
  rfl

/-- The reads of `ph[i]` see the header of the file. -/
theorem programHeader_filled
    {array : Memory 64}
    {file : List Byte}
    {start count i : Nat}
    (complete : start + 56 * count ≤ file.length)
    (small : 56 * count ≤ 2 ^ 64)
    (inside : i < count) :
    programHeader (array.store 0 ((file.drop start).take (56 * count))) i =
      .ok (headerAt file (start + 56 * i)) := by
  have kind :=
    deref_filled array complete small
      (show 56 * i + 4 ≤ 56 * count by omega)
  have word (shift : Nat) (fits : shift + 8 ≤ 56) :
      derefWord (array.store 0 ((file.drop start).take (56 * count)))
          (BitVec.ofNat 64 (56 * i) + BitVec.ofNat 64 shift) =
        .ok (BitVec.ofNat 64 (field file (start + 56 * i + shift) 8)) := by
    rw [← BitVec.ofNat_add, Nat.add_assoc]
    exact derefWord_filled array complete small (by omega)
  have offset := word 8 (by omega)
  have vaddr := word 16 (by omega)
  have fsz := word 32 (by omega)
  have msz := word 40 (by omega)
  simp only [BitVec.ofNat_eq_ofNat] at kind offset vaddr fsz msz
  simp only [programHeader, kind, offset, vaddr, fsz, msz, ok_bind,
    BitVec.ofNat_eq_ofNat]
  rfl

/-- A loop over a list whose steps all succeed. -/
theorem mapM_ok
    {steps : List Item}
    {run : Item → Except Stop Value}
    {value : Item → Value}
    (succeeds : ∀ item ∈ steps, run item = .ok (value item)) :
    steps.mapM run = .ok (steps.map value) := by
  induction steps with
  | nil =>
      rfl
  | cons item rest inductionHypothesis =>
      have first := succeeds item (List.mem_cons_self ..)
      have others :=
        inductionHypothesis fun later member =>
          succeeds later (List.mem_cons_of_mem _ member)
      simp only [List.mapM_cons, first, others, ok_bind]
      rfl

/-! ## The bounds of the image -/

/-- The bounds enclose a segment. -/
def Encloses (bounds : Word × Word) (phdr : ProgramHeader) : Prop :=
  bounds.1.toNat ≤ phdr.vaddr.toNat ∧
    phdr.vaddr.toNat + phdr.msz.toNat ≤ bounds.2.toNat

/-- `vaddr + msz`, as the loop over the headers computes it. -/
def ProgramHeader.stop (phdr : ProgramHeader) : Word :=
  phdr.vaddr + phdr.msz

/-- The lower bound is the least address of a segment. -/
theorem le_foldl_widen
    (phdrs : List ProgramHeader)
    (start : Word × Word)
    (bound : Nat) :
    bound ≤ (phdrs.foldl widen start).1.toNat ↔
      bound ≤ start.1.toNat ∧
        ∀ phdr ∈ phdrs.filter ProgramHeader.isLoad,
          bound ≤ phdr.vaddr.toNat := by
  induction phdrs generalizing start with
  | nil =>
      simp
  | cons phdr rest inductionHypothesis =>
      rw [List.foldl_cons, inductionHypothesis]
      by_cases load : phdr.isLoad = true
      · rw [List.filter_cons_of_pos load, List.forall_mem_cons, ← and_assoc]
        refine and_congr_left fun _ => ?_
        unfold widen
        rw [if_pos load]
        dsimp only
        split
        · rename_i less
          rw [BitVec.lt_def] at less
          omega
        · rename_i notLess
          rw [BitVec.lt_def] at notLess
          omega
      · rw [List.filter_cons_of_neg load]
        unfold widen
        rw [if_neg load]

/-- The upper bound is the greatest end of a segment. -/
theorem foldl_widen_le
    (phdrs : List ProgramHeader)
    (start : Word × Word)
    (bound : Nat) :
    (phdrs.foldl widen start).2.toNat ≤ bound ↔
      start.2.toNat ≤ bound ∧
        ∀ phdr ∈ phdrs.filter ProgramHeader.isLoad,
          phdr.stop.toNat ≤ bound := by
  induction phdrs generalizing start with
  | nil =>
      simp
  | cons phdr rest inductionHypothesis =>
      rw [List.foldl_cons, inductionHypothesis]
      by_cases load : phdr.isLoad = true
      · rw [List.filter_cons_of_pos load, List.forall_mem_cons, ← and_assoc]
        refine and_congr_left fun _ => ?_
        unfold widen ProgramHeader.stop
        rw [if_pos load]
        dsimp only
        split
        · rename_i greater
          rw [GT.gt, BitVec.lt_def] at greater
          omega
        · rename_i notGreater
          rw [GT.gt, BitVec.lt_def] at notGreater
          omega
      · rw [List.filter_cons_of_neg load]
        unfold widen
        rw [if_neg load]

/-- What the upper bound stays below. -/
theorem bounds_le_iff
    (phdrs : List ProgramHeader)
    (bound : Nat) :
    (bounds phdrs).2.toNat ≤ bound ↔
      ∀ phdr ∈ phdrs.filter ProgramHeader.isLoad,
        phdr.stop.toNat ≤ bound := by
  rw [bounds, foldl_widen_le]
  simp

/-- Segments below `2^63` are enclosed. -/
theorem bounds_enclose
    {phdrs : List ProgramHeader}
    (below :
      ∀ phdr ∈ phdrs.filter ProgramHeader.isLoad,
        phdr.vaddr.toNat + phdr.msz.toNat ≤ 2 ^ 63) :
    (bounds phdrs).2.toNat ≤ 2 ^ 63 ∧
      ∀ phdr ∈ phdrs.filter ProgramHeader.isLoad,
        Encloses (bounds phdrs) phdr := by
  have stops :
      ∀ phdr ∈ phdrs.filter ProgramHeader.isLoad,
        phdr.stop.toNat = phdr.vaddr.toNat + phdr.msz.toNat := by
    intro phdr member
    have fits := below phdr member
    rw [ProgramHeader.stop, BitVec.toNat_add,
      Nat.mod_eq_of_lt (by omega)]
  refine ⟨(bounds_le_iff phdrs _).mpr fun phdr member => ?_,
    fun phdr member => ⟨?_, ?_⟩⟩
  · rw [stops phdr member]
    exact below phdr member
  · exact ((le_foldl_widen phdrs (~~~0, 0) _).mp le_rfl).2 phdr member
  · rw [← stops phdr member]
    exact (bounds_le_iff phdrs _).mp le_rfl phdr member

/-- `low_addr` is the lower bound, rounded down to a page. -/
theorem lowAddr_toNat (phdrs : List ProgramHeader) :
    (lowAddr phdrs).toNat = (bounds phdrs).1.toNat / 16384 * 16384 := by
  have mask : (-pageSize).toNat = 2 ^ 64 - 2 ^ 14 := by
    decide
  rw [lowAddr, BitVec.toNat_and, mask,
    and_high_mask (by omega) (bounds phdrs).1.isLt]
  rfl

/-- Every segment starts above the lower end of the mapping. -/
theorem lowAddr_le_vaddr
    {phdrs : List ProgramHeader}
    {phdr : ProgramHeader}
    (member : phdr ∈ phdrs.filter ProgramHeader.isLoad) :
    (lowAddr phdrs).toNat ≤ phdr.vaddr.toNat := by
  have least :=
    ((le_foldl_widen phdrs (~~~0, 0) _).mp (Nat.le_refl _)).2 phdr member
  rw [lowAddr_toNat]
  exact (Nat.div_mul_le_self _ _).trans least

/-- `high_addr` is the upper bound, rounded up to a page; the last page wraps
around. -/
theorem highAddr_toNat (phdrs : List ProgramHeader) :
    (highAddr phdrs).toNat =
      ((bounds phdrs).2.toNat + 16383) / 16384 * 16384 % 2 ^ 64 := by
  have mask : (pageSize - 1).toNat = 2 ^ 14 - 1 := by
    decide
  have bound := (bounds phdrs).2.isLt
  have previous :
      ((bounds phdrs).2 - 1).toNat =
        ((bounds phdrs).2.toNat + (2 ^ 64 - 1)) % 2 ^ 64 := by
    rw [BitVec.toNat_sub, Nat.add_comm]
    rfl
  rw [highAddr, BitVec.toNat_add, BitVec.toNat_or, mask, or_low_mask,
    previous]
  show (_ + 1) % 2 ^ 64 = _
  omega

/-! ## Filling the segments -/

/-- The bytes of a sound segment are those at a distance below its size. -/
theorem ProgramHeader.Sound.covers_iff
    {phdr : ProgramHeader}
    {file : List Byte}
    (sound : phdr.Sound file)
    {address : Word} :
    phdr.Covers address ↔ distance phdr.vaddr address < phdr.msz.toNat := by
  have below := sound.below
  have bound := address.isLt
  rw [distance_eq]
  unfold ProgramHeader.Covers
  split <;> omega

/-- How far a byte of a sound segment lies past its address. -/
theorem ProgramHeader.Sound.distance_vaddr
    {phdr : ProgramHeader}
    {file : List Byte}
    (sound : phdr.Sound file)
    {index : Nat}
    (inside : index < phdr.msz.toNat) :
    distance phdr.vaddr (phdr.vaddr + BitVec.ofNat 64 index) = index := by
  have small := sound.small
  exact distance_add phdr.vaddr (by omega)

theorem ProgramHeader.Sound.covers_vaddr
    {phdr : ProgramHeader}
    {file : List Byte}
    (sound : phdr.Sound file)
    {index : Nat}
    (inside : index < phdr.msz.toNat) :
    phdr.Covers (phdr.vaddr + BitVec.ofNat 64 index) := by
  rw [sound.covers_iff, sound.distance_vaddr inside]
  exact inside

/-- The sizes of a sound segment survive the conversion to `int`. -/
theorem ProgramHeader.Sound.cnt_eq
    {phdr : ProgramHeader}
    {file : List Byte}
    (sound : phdr.Sound file) :
    (phdr.fsz.setWidth 32).toInt = phdr.fsz.toNat := by
  have shorter := sound.shorter
  have small := sound.small
  have same : (phdr.fsz.setWidth 32).toNat = phdr.fsz.toNat := by
    rw [BitVec.toNat_setWidth, Nat.mod_eq_of_lt (by omega)]
  rw [BitVec.toInt_eq_toNat_of_lt (by omega), same]

/-- What the file holds of a segment. -/
def ProgramHeader.bytes
    (phdr : ProgramHeader)
    (file : List Byte) :
    List Byte :=
  (file.drop phdr.offset.toNat).take phdr.fsz.toNat

theorem ProgramHeader.Sound.bytes_length
    {phdr : ProgramHeader}
    {file : List Byte}
    (sound : phdr.Sound file) :
    (phdr.bytes file).length = phdr.fsz.toNat := by
  have inside := sound.inside
  rw [ProgramHeader.bytes, List.length_take, List.length_drop]
  omega

/-- Storing what the file holds over zeros shows the segment. -/
theorem ProgramHeader.Sound.shows_store
    {phdr : ProgramHeader}
    {file : List Byte}
    {memory : Memory 64}
    (sound : phdr.Sound file)
    (zeros :
      ∀ address, phdr.Covers address → memory address = some 0) :
    Shows (memory.store phdr.vaddr (phdr.bytes file)) file phdr := by
  intro index inside
  have place := sound.distance_vaddr inside
  unfold ProgramHeader.byteAt
  split
  next read =>
    rw [Memory.store_inside (by rw [place, sound.bytes_length]; exact read),
      place, ProgramHeader.bytes, List.getElem?_take_of_lt read,
      List.getElem?_drop]
  next past =>
    rw [Memory.store_outside (by rw [place, sound.bytes_length]; omega)]
    exact zeros _ (sound.covers_vaddr inside)

/-- A segment's bytes are stored inside the segment. -/
theorem ProgramHeader.Sound.store_beside
    {phdr : ProgramHeader}
    {file : List Byte}
    {memory : Memory 64}
    {address : Word}
    (sound : phdr.Sound file)
    (beside : ¬phdr.Covers address) :
    memory.store phdr.vaddr (phdr.bytes file) address = memory address := by
  have shorter := sound.shorter
  rw [sound.covers_iff] at beside
  exact Memory.store_outside (by rw [sound.bytes_length]; omega)

/-- Two memories that agree on a segment show it alike. -/
theorem Shows.congr
    {first second : Memory 64}
    {file : List Byte}
    {phdr : ProgramHeader}
    (shown : Shows first file phdr)
    (sound : phdr.Sound file)
    (agree :
      ∀ address, phdr.Covers address → second address = first address) :
    Shows second file phdr := by
  intro index inside
  rw [agree _ (sound.covers_vaddr inside)]
  exact shown index inside

/-- A header is loaded by storing what the file holds of it. -/
theorem loadSegment_stores
    {host : Host}
    {phdr : ProgramHeader}
    {file : OpenFile}
    {memory : Memory 64}
    (seeks :
      ∀ offset : Word, offset.toNat ≤ file.bytes.length → host.seeks offset)
    (splits : ∀ call, ∃ count, host.readAnswer call = .upTo count)
    (load : phdr.isLoad = true)
    (sound : phdr.Sound file.bytes)
    (zeros :
      ∀ address, phdr.Covers address → memory address = some 0) :
    ∃ offset reads,
      loadSegment host phdr file memory =
        .ok (⟨file.bytes, offset, reads⟩,
          memory.store phdr.vaddr (phdr.bytes file.bytes)) := by
  have inside := sound.inside
  have shorter := sound.shorter
  have small := sound.small
  have sought :
      lseekOrReturn host file phdr.offset =
        .ok ⟨file.bytes, phdr.offset.toNat, file.reads⟩ := by
    simp [lseekOrReturn, Host.lseek, seeks phdr.offset (by omega)]
  have target : memory.mapped phdr.vaddr phdr.fsz.toNat = true := by
    rw [Memory.mapped_iff]
    intro index below
    rw [zeros _ (sound.covers_vaddr (below.trans_le shorter))]
    rfl
  obtain ⟨reads, run⟩ :=
    readallOrReturn_transfers splits
      ⟨file.bytes, phdr.offset.toNat, file.reads⟩ inside target (by omega)
  refine ⟨phdr.offset.toNat + phdr.fsz.toNat, reads, ?_⟩
  rw [loadSegment, if_pos load, sought, ok_bind, sound.cnt_eq, run]
  rfl

/-- The loop over the headers shows every segment and touches nothing else. -/
theorem loadSegments_shows
    {host : Host}
    {phdrs : List ProgramHeader}
    {file : OpenFile}
    {memory : Memory 64}
    (seeks :
      ∀ offset : Word, offset.toNat ≤ file.bytes.length → host.seeks offset)
    (splits : ∀ call, ∃ count, host.readAnswer call = .upTo count)
    (sound :
      ∀ phdr ∈ phdrs.filter ProgramHeader.isLoad, phdr.Sound file.bytes)
    (apart :
      (phdrs.filter ProgramHeader.isLoad).Pairwise fun first second =>
        ∀ address, ¬(first.Covers address ∧ second.Covers address))
    (zeros :
      ∀ phdr ∈ phdrs.filter ProgramHeader.isLoad,
        ∀ address, phdr.Covers address → memory address = some 0) :
    ∃ read filled,
      loadSegments host phdrs file memory = .ok (read, filled) ∧
        (∀ phdr ∈ phdrs.filter ProgramHeader.isLoad,
          Shows filled file.bytes phdr) ∧
        (∀ address,
          (∀ phdr ∈ phdrs.filter ProgramHeader.isLoad,
            ¬phdr.Covers address) →
          filled address = memory address) ∧
        ∀ address, (memory address).isSome = true →
          (filled address).isSome = true := by
  induction phdrs generalizing file memory with
  | nil =>
      exact ⟨file, memory, rfl, by simp, fun _ _ => rfl, fun _ known => known⟩
  | cons phdr rest inductionHypothesis =>
      cases load : phdr.isLoad with
      | false =>
          rw [List.filter_cons_of_neg (by simp [load])] at sound apart zeros ⊢
          have skipped :
              loadSegment host phdr file memory = .ok (file, memory) := by
            rw [loadSegment, if_neg (by simp [load])]
          rw [loadSegments, skipped, ok_bind]
          exact inductionHypothesis seeks sound apart zeros
      | true =>
          rw [List.filter_cons_of_pos load] at sound apart zeros ⊢
          have here := sound phdr (List.mem_cons_self ..)
          have hereZeros := zeros phdr (List.mem_cons_self ..)
          obtain ⟨beside, restApart⟩ := List.pairwise_cons.mp apart
          obtain ⟨offset, reads, run⟩ :=
            loadSegment_stores seeks splits load here hereZeros
          have restZeros :
              ∀ later ∈ rest.filter ProgramHeader.isLoad,
                ∀ address, later.Covers address →
                  memory.store phdr.vaddr (phdr.bytes file.bytes) address =
                    some 0 := by
            intro later member address covered
            rw [here.store_beside fun both =>
              beside later member address ⟨both, covered⟩]
            exact zeros later (List.mem_cons_of_mem _ member) address covered
          obtain ⟨read, filled, restRun, shown, untouched, known⟩ :=
            @inductionHypothesis
              ⟨file.bytes, offset, reads⟩ _ seeks
              (fun later member => sound later (List.mem_cons_of_mem _ member))
              restApart restZeros
          refine ⟨read, filled, ?_, ?_, ?_, ?_⟩
          · rw [loadSegments, run, ok_bind]
            exact restRun
          · intro later member
            cases member with
            | head =>
                refine (here.shows_store hereZeros).congr here ?_
                intro address covered
                exact untouched address fun later member both =>
                  beside later member address ⟨covered, both⟩
            | tail _ member =>
                exact shown later member
          · intro address outside
            rw [untouched address fun later member =>
              outside later (List.mem_cons_of_mem _ member)]
            exact here.store_beside (outside phdr (List.mem_cons_self ..))
          · intro address before
            exact known address (Memory.isSome_store before)

/-! ## The image -/

theorem phnumField_lt (file : List Byte) : phnumField file < 65536 := by
  have bound := littleEndian_lt ((file.drop 56).take 2)
  have short : ((file.drop 56).take 2).length ≤ 2 := List.length_take_le ..
  exact bound.trans_le (Nat.pow_le_pow_right (by omega) short)

/-- `load_elf` starts to read at the start of the file. -/
theorem openPath_file
    {host : Host}
    (path : List Byte)
    (seeks : host.seeks 0 = true) :
    (openPath host path).2 =
      ⟨host.content (openPath host path).1, 0, 0⟩ := by
  unfold openPath
  split
  · simp only [Host.lseek, seeks, if_true]
    rfl
  · rfl

/-- The rounded bounds are aligned, in order, and enclose every segment. -/
theorem rounded_bounds
    {file : List Byte}
    (loadable : Loadable file) :
    (lowAddr (programHeaders file)).toNat % 16384 = 0 ∧
      (highAddr (programHeaders file)).toNat % 16384 = 0 ∧
      ∀ phdr ∈ segments file,
        (lowAddr (programHeaders file)).toNat ≤ phdr.vaddr.toNat ∧
          phdr.vaddr.toNat + phdr.msz.toNat ≤
            (highAddr (programHeaders file)).toNat := by
  obtain ⟨below, enclosed⟩ :=
    bounds_enclose fun phdr (member : phdr ∈ segments file) =>
      (loadable.sound phdr member).below
  obtain ⟨witness, member, positive⟩ := loadable.nonempty
  have reaches := (enclosed witness member).2
  have low := lowAddr_toNat (programHeaders file)
  have high := highAddr_toNat (programHeaders file)
  refine ⟨by omega, by omega, ?_⟩
  intro phdr inside
  obtain ⟨starts, stops⟩ := enclosed phdr inside
  omega

/-- What `mmap` leaves between two addresses in order. -/
theorem fill_between
    {memory : Memory 64}
    {low high address : Word}
    (starts : low.toNat ≤ address.toNat)
    (stops : address.toNat < high.toNat) :
    memory.fill low (high - low).toNat (some 0) address = some 0 := by
  refine Memory.fill_inside ?_
  have highBound := high.isLt
  rw [distance_eq, if_pos starts, BitVec.toNat_sub_of_le
    (BitVec.le_def.mpr (by omega))]
  omega

/-- The array that has been filled with the ELF header. -/
def ehdr (file : List Byte) : Memory 64 :=
  (localArray 64).store 0 ((file.drop 0).take 64)

/-- The array that has been filled with the header table. -/
def table (file : List Byte) : Memory 64 :=
  (localArray (phnumField file * 56)).store 0
    ((file.drop (phoffField file).toNat).take (phnumField file * 56))

/-- A file with a complete ELF header and header table. -/
structure CompleteHeaders (file : List Byte) : Prop where
  header : 64 ≤ file.length
  phentsize : field file 54 2 = 56
  table : (phoffField file).toNat + 56 * phnumField file ≤ file.length

theorem Loadable.completeHeaders
    {file : List Byte}
    (loadable : Loadable file) :
    CompleteHeaders file :=
  ⟨loadable.header, loadable.phentsize, loadable.table⟩

/-- The ELF header is read whole, and its fields are those of the file. -/
theorem ehdr_read
    {host : Host}
    {file : List Byte}
    (splits : ∀ call, ∃ count, host.readAnswer call = .upTo count)
    (complete : CompleteHeaders file) :
    (∃ reads,
      readallOrReturn host ⟨file, 0, 0⟩ (localArray 64) 0 64 =
        .ok (⟨file, 64, reads⟩, ehdr file)) ∧
      derefWord (ehdr file) 24 = .ok (entryField file) ∧
      derefWord (ehdr file) 32 = .ok (phoffField file) ∧
      deref (ehdr file) 54 2 = .ok 56 ∧
      deref (ehdr file) 56 2 = .ok (phnumField file) := by
  have whole : 0 + 64 ≤ file.length := by
    have := complete.header
    omega
  have word (offset : Nat) (inside : offset + 8 ≤ 64) :=
    derefWord_filled (localArray 64) whole (by omega) inside
  have half (offset : Nat) (inside : offset + 2 ≤ 64) :=
    deref_filled (localArray 64) whole (by omega) inside
  have entry := word 24 (by omega)
  have phoff := word 32 (by omega)
  have phentsize := half 54 (by omega)
  have phnum := half 56 (by omega)
  simp only [Nat.zero_add] at entry phoff phentsize phnum
  rw [complete.phentsize] at phentsize
  obtain ⟨reads, run⟩ :=
    readallOrReturn_transfers splits ⟨file, 0, 0⟩ whole
      (localArray_mapped 64 (by omega)) (by omega)
  exact ⟨⟨reads, run⟩, entry, phoff, phentsize, phnum⟩

/-- The header table is read whole, and its headers are those of the file. -/
theorem table_read
    {host : Host}
    {file : List Byte}
    (offset reads : Nat)
    (seeks : ∀ offset : Word, offset.toNat ≤ file.length → host.seeks offset)
    (splits : ∀ call, ∃ count, host.readAnswer call = .upTo count)
    (complete : CompleteHeaders file) :
    ∃ sought read,
      lseekOrReturn host ⟨file, offset, reads⟩ (phoffField file) =
        .ok sought ∧
      readallOrReturn host sought (localArray (phnumField file * 56)) 0
          (phnumField file * 56) =
        .ok (read, table file) ∧
      read.bytes = file ∧
      (List.range (phnumField file)).mapM (programHeader (table file)) =
        .ok (programHeaders file) := by
  have whole := complete.table
  have count := phnumField_lt file
  obtain ⟨readsAfter, run⟩ :=
    readallOrReturn_transfers splits
      ⟨file, (phoffField file).toNat, reads⟩
      (show (phoffField file).toNat + phnumField file * 56 ≤ file.length by
        omega)
      (localArray_mapped (phnumField file * 56) (by omega))
      (by omega)
  rw [Int.natCast_mul] at run
  refine ⟨⟨file, (phoffField file).toNat, reads⟩, _, ?_, run, rfl, ?_⟩
  · simp [lseekOrReturn, Host.lseek, seeks (phoffField file) (by omega)]
  · unfold table
    rw [Nat.mul_comm]
    refine mapM_ok fun i member => ?_
    exact programHeader_filled whole (by omega) (List.mem_range.mp member)

/-- The headers of a complete table are read and the image is mapped. -/
theorem loadHeaders_complete
    {host : Host}
    {path file : List Byte}
    (memory : Memory 64)
    (complete : CompleteHeaders file)
    (serves : host.Serves path file) :
    ∃ read,
      read.bytes = file ∧
        loadHeaders host path memory =
          .ok ⟨entryField file, programHeaders file, read,
            (unmapLow memory).fill (lowAddr (programHeaders file))
              (highAddr (programHeaders file) -
                lowAddr (programHeaders file)).toNat (some 0)⟩ := by
  have opened := openPath_file path (serves.seeks 0 (by simp))
  rw [serves.content] at opened
  obtain ⟨fd, whole, valid⟩ :
      ∃ fd : Int, openPath host path = (fd, ⟨file, 0, 0⟩) ∧ 0 ≤ fd :=
    ⟨_, Prod.ext rfl opened, serves.opens⟩
  obtain ⟨⟨reads, dataRun⟩, entry, phoff, phentsize, phnum⟩ :=
    ehdr_read serves.splits complete
  obtain ⟨sought, read, seekRun, phRun, sameFile, headers⟩ :=
    table_read 64 reads serves.seeks serves.splits complete
  have mapRun :
      mmapOrReturn host (unmapLow memory) (lowAddr (programHeaders file))
          (highAddr (programHeaders file) - lowAddr (programHeaders file)) =
        .ok ((unmapLow memory).fill (lowAddr (programHeaders file))
          (highAddr (programHeaders file) -
            lowAddr (programHeaders file)).toNat (some 0)) := by
    rw [mmapOrReturn, if_pos serves.maps]
  refine ⟨read, sameFile, ?_⟩
  unfold loadHeaders
  rw [whole]
  simp only [if_neg (Int.not_lt.mpr valid), dataRun, entry, phoff,
    phentsize, phnum, seekRun, phRun, headers, mapRun, ok_bind, ne_eq,
    not_true_eq_false, if_false]

/-- A loadable file is accepted, and its segments are put into the mapping. -/
theorem loadImage_shows
    {host : Host}
    {path file : List Byte}
    (memory : Memory 64)
    (loadable : Loadable file)
    (serves : host.Serves path file) :
    ∃ filled,
      loadImage host path memory =
          .ok ⟨entryField file, programHeaders file,
            lowAddr (programHeaders file), highAddr (programHeaders file),
            filled⟩ ∧
        (∀ phdr ∈ segments file, Shows filled file phdr) ∧
        ∀ address,
          (lowAddr (programHeaders file)).toNat ≤ address.toNat →
          address.toNat < (highAddr (programHeaders file)).toNat →
          (filled address).isSome = true := by
  obtain ⟨_, _, covered⟩ := rounded_bounds loadable
  obtain ⟨read, rfl, headersRun⟩ :=
    loadHeaders_complete memory loadable.completeHeaders serves
  have zeros :
      ∀ phdr ∈ segments read.bytes, ∀ address, phdr.Covers address →
        (unmapLow memory).fill (lowAddr (programHeaders read.bytes))
            (highAddr (programHeaders read.bytes) -
              lowAddr (programHeaders read.bytes)).toNat (some 0) address =
          some 0 := by
    rintro phdr member address ⟨above, below⟩
    obtain ⟨starts, stops⟩ := covered phdr member
    exact fill_between (by omega) (by omega)
  obtain ⟨last, filled, run, shown, -, known⟩ :=
    loadSegments_shows serves.seeks serves.splits loadable.sound
      loadable.apart zeros
  refine ⟨filled, ?_, shown, ?_⟩
  · rw [loadImage, headersRun, ok_bind, run, ok_bind]
  · intro address starts stops
    refine known address ?_
    rw [fill_between starts stops]
    rfl

/-- Every loadable file is loaded, whatever the host does to the transfers. -/
theorem loadImage_loaded
    {host : Host}
    {path file : List Byte}
    (memory : Memory 64)
    (loadable : Loadable file)
    (serves : host.Serves path file) :
    ∃ image, loadImage host path memory = .ok image ∧ image.Loaded file := by
  obtain ⟨lowAligned, highAligned, covered⟩ := rounded_bounds loadable
  obtain ⟨filled, run, shown, mapped⟩ :=
    loadImage_shows memory loadable serves
  exact ⟨_, run, rfl, lowAligned, highAligned, mapped, covered, shown⟩

/-- A program header as a file has it. -/
def headerBytes (kind offset vaddr fsz msz : Nat) : List Byte :=
  littleEndianBytes 4 kind ++ littleEndianBytes 4 0 ++
    littleEndianBytes 8 offset ++ littleEndianBytes 16 vaddr ++
    littleEndianBytes 8 fsz ++ littleEndianBytes 16 msz

/-- A file with two segments, the upper one first, and another header between
them. -/
def twoSegments : List Byte :=
  littleEndianBytes 24 0 ++ littleEndianBytes 8 0x400102 ++
    littleEndianBytes 22 64 ++ littleEndianBytes 2 56 ++
    littleEndianBytes 8 3 ++
    headerBytes 1 232 0x603ffe 4 20 ++ headerBytes 2 232 0x603ffe 4 4 ++
    headerBytes 1 234 0x400102 3 3 ++ [1, 2, 3, 4, 5]

/-- A host that reads a few bytes at a time. -/
def shortReads : Host where
  openFile _ := 3
  content _ := twoSegments
  position _ := 0
  readAnswer call := .upTo (call % 5)
  seeks _ := true
  maps _ _ := true

set_option maxRecDepth 8000 in
theorem twoSegments_segments :
    segments twoSegments =
      [⟨1, 232, 0x603ffe, 4, 20⟩, ⟨1, 234, 0x400102, 3, 3⟩] := by
  rfl

set_option maxRecDepth 8000 in
theorem twoSegments_loadable : Loadable twoSegments where
  header := by
    decide
  phentsize := by
    decide
  table := by
    decide
  sound := by
    rw [twoSegments_segments]
    refine List.forall_mem_cons.mpr ⟨?_, List.forall_mem_singleton.mpr ?_⟩
    · constructor <;> decide
    · constructor <;> decide
  apart := by
    rw [twoSegments_segments]
    refine List.pairwise_pair.mpr fun address both => ?_
    have upper := both.1.1
    have lower := both.2.2
    simp at upper lower
    omega
  nonempty := by
    rw [twoSegments_segments]
    exact ⟨_, List.mem_cons_self .., by decide⟩

theorem shortReads_serves :
    shortReads.Serves (chars "hamachid") twoSegments where
  opens := by
    decide
  content := rfl
  seeks _ _ := rfl
  splits call := ⟨call % 5, rfl⟩
  maps := rfl

/-- The file is loaded through short reads. -/
theorem loadImage_twoSegments :
    ∃ image,
      loadImage shortReads (chars "hamachid") (fun _ => none) = .ok image ∧
        image.Loaded twoSegments :=
  loadImage_loaded (fun _ => none) twoSegments_loadable shortReads_serves

end Hamachi.Loader
