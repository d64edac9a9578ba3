import Hamachi.LoadElf

namespace Hamachi.Loader

/-!
# ELF files and what loading one means

The program headers and the segments that the bytes of a file describe, the
files a loader has to accept, and what its memory shows once the segments are
in place.
-/

/-- A little-endian field of a file. -/
def field (file : List Byte) (offset length : Nat) : Nat :=
  littleEndian ((file.drop offset).take length)

/-- `e_entry`. -/
def entryField (file : List Byte) : Word :=
  BitVec.ofNat 64 (field file 24 8)

/-- `e_phoff`. -/
def phoffField (file : List Byte) : Word :=
  BitVec.ofNat 64 (field file 32 8)

/-- `e_phnum`. -/
def phnumField (file : List Byte) : Nat :=
  field file 56 2

/-- The program header at an offset of the file. -/
def headerAt (file : List Byte) (offset : Nat) : ProgramHeader where
  kind := BitVec.ofNat 32 (field file offset 4)
  offset := BitVec.ofNat 64 (field file (offset + 8) 8)
  vaddr := BitVec.ofNat 64 (field file (offset + 16) 8)
  fsz := BitVec.ofNat 64 (field file (offset + 32) 8)
  msz := BitVec.ofNat 64 (field file (offset + 40) 8)

/-- The program header table. -/
def programHeaders (file : List Byte) : List ProgramHeader :=
  (List.range (phnumField file)).map fun i =>
    headerAt file ((phoffField file).toNat + 56 * i)

/-- The `PT_LOAD` headers. -/
def segments (file : List Byte) : List ProgramHeader :=
  (programHeaders file).filter ProgramHeader.isLoad

/-- The address lies in `[vaddr, vaddr + memsz)`. -/
def ProgramHeader.Covers (phdr : ProgramHeader) (address : Word) : Prop :=
  phdr.vaddr.toNat ≤ address.toNat ∧
    address.toNat < phdr.vaddr.toNat + phdr.msz.toNat

/-- A segment whose sizes and places a file can be asked for. -/
structure ProgramHeader.Sound
    (phdr : ProgramHeader)
    (file : List Byte) :
    Prop where
  below : phdr.vaddr.toNat + phdr.msz.toNat ≤ 2 ^ 63
  shorter : phdr.fsz.toNat ≤ phdr.msz.toNat
  small : phdr.msz.toNat < 2 ^ 31
  inside : phdr.offset.toNat + phdr.fsz.toNat ≤ file.length

/-- A file with a complete header table and segments that can be loaded. -/
structure Loadable (file : List Byte) : Prop where
  header : 64 ≤ file.length
  phentsize : field file 54 2 = 56
  table : (phoffField file).toNat + 56 * phnumField file ≤ file.length
  sound : ∀ phdr ∈ segments file, phdr.Sound file
  apart :
    (segments file).Pairwise fun first second =>
      ∀ address, ¬(first.Covers address ∧ second.Covers address)
  nonempty : ∃ phdr ∈ segments file, 0 < phdr.msz.toNat

/-- A host that opens the path, seeks inside the file, splits transfers at
will, and maps the image. -/
structure Host.Serves
    (host : Host)
    (path file : List Byte) :
    Prop where
  opens : 0 ≤ (openPath host path).1
  content : host.content (openPath host path).1 = file
  seeks : ∀ offset : Word, offset.toNat ≤ file.length → host.seeks offset
  splits : ∀ call, ∃ count, host.readAnswer call = .upTo count
  maps :
    host.maps (lowAddr (programHeaders file))
      (highAddr (programHeaders file) - lowAddr (programHeaders file))

/-- The bytes of a segment: those of the file, then zeros. -/
def ProgramHeader.byteAt
    (phdr : ProgramHeader)
    (file : List Byte)
    (index : Nat) :
    Option Byte :=
  if index < phdr.fsz.toNat then
    file[phdr.offset.toNat + index]?
  else
    some 0

/-- The memory shows the whole segment. -/
def Shows
    (memory : Memory 64)
    (file : List Byte)
    (phdr : ProgramHeader) :
    Prop :=
  ∀ index < phdr.msz.toNat,
    memory (phdr.vaddr + BitVec.ofNat 64 index) = phdr.byteAt file index

/-- What segment loading has to achieve. -/
structure Image.Loaded (image : Image) (file : List Byte) : Prop where
  entry : image.entry = entryField file
  lowAligned : image.low.toNat % 16384 = 0
  highAligned : image.high.toNat % 16384 = 0
  mapped :
    ∀ address : Word,
      image.low.toNat ≤ address.toNat → address.toNat < image.high.toNat →
        (image.memory address).isSome
  covered :
    ∀ phdr ∈ segments file,
      image.low.toNat ≤ phdr.vaddr.toNat ∧
        phdr.vaddr.toNat + phdr.msz.toNat ≤ image.high.toNat
  shown : ∀ phdr ∈ segments file, Shows image.memory file phdr

end Hamachi.Loader
