import Hamachi.FlatMemory
import Hamachi.CString

namespace Hamachi.Loader

/-!
# The segment loader of `ldr.c`

`load_elf` up to `close(fd)`.  The process memory holds what the loader maps
and fills; the local arrays `data` and `ph` are memories of their own.  The
host decides how `read` splits a transfer and which calls fail.
-/

/-- `void*` and `unsigned long long`. -/
abbrev Word := BitVec 64

/-- `PAGE_SIZE`, as the makefile defines it. -/
def pageSize : Word := 16384

/-- How `load_elf` stops before its end. -/
inductive Stop where
  | returned (code : Int)
  | faulted (fault : Fault)
  deriving Repr, DecidableEq

@[simp] theorem ok_bind
    (value : α)
    (next : α → Except Stop β) :
    ((Except.ok value : Except Stop α) >>= next) = next value :=
  rfl

/-- Invert a successful bind into its two successful halves. -/
theorem bind_eq_ok
    {first : Except Stop α}
    {next : α → Except Stop β}
    {result : β} :
    (first >>= next) = .ok result ↔
      ∃ value, first = .ok value ∧ next value = .ok result := by
  cases first with
  | error stop =>
      simp [bind, Except.bind]
  | ok value =>
      simp [bind, Except.bind]

/-- What the host answers to one `read`: failure, or a transfer of at most
`count` of the bytes that are there, but at least one. -/
inductive ReadAnswer where
  | fails
  | upTo (count : Nat)

/-- The host under the loader: what `open` returns, the file and the offset
behind a descriptor, and which calls succeed.  The calls on a descriptor that
is not open fail. -/
structure Host where
  openFile : List Byte → Int
  content : Int → List Byte
  position : Int → Nat
  readAnswer : Nat → ReadAnswer
  seeks : Word → Bool
  maps : Word → Word → Bool

/-- An open file: its bytes, the offset, and how often it has been read. -/
structure OpenFile where
  bytes : List Byte
  offset : Nat
  reads : Nat

/-- A local array of `size` bytes. -/
def localArray (size : Nat) : Memory 64 :=
  Memory.fill (fun _ => none) 0 size (some 0)

/-- `read`; a transfer to unmapped memory fails. -/
def Host.read
    (host : Host)
    (file : OpenFile)
    (memory : Memory 64)
    (buf : Word)
    (cnt : Nat) :
    Int × OpenFile × Memory 64 :=
  let failed := (-1, { file with reads := file.reads + 1 }, memory)
  match host.readAnswer file.reads with
  | .fails => failed
  | .upTo count =>
      let chunk := ((file.bytes.drop file.offset).take cnt).take (max 1 count)
      if memory.mapped buf chunk.length then
        (chunk.length,
          { file with
            offset := file.offset + chunk.length
            reads := file.reads + 1 },
          memory.store buf chunk)
      else
        failed

/-- `lseek` to an offset from the start of the file. -/
def Host.lseek
    (host : Host)
    (file : OpenFile)
    (offset : Word) :
    Word × OpenFile :=
  if host.seeks offset then
    (offset, { file with offset := offset.toNat })
  else
    (-1, file)

/-- The loop of `readall`.  Every iteration but the last one reads at least
one byte. -/
def readallLoop
    (host : Host) :
    Nat → OpenFile → Memory 64 → Word → Int →
      Except Stop (Int × OpenFile × Memory 64)
  | fuel, file, memory, buf, cnt =>
      if 0 < cnt then
        match fuel with
        | 0 => .error (.faulted .outOfFuel)
        | fuel + 1 =>
            match host.read file memory buf cnt.toNat with
            | (chk, file, memory) =>
                if chk ≤ 0 then
                  .ok (-1, file, memory)
                else
                  readallLoop host fuel file memory
                    (buf + BitVec.ofInt 64 chk) (cnt - chk)
      else
        .ok (0, file, memory)

/-- `readall`. -/
def readall
    (host : Host)
    (file : OpenFile)
    (memory : Memory 64)
    (b : Word)
    (cnt : Int) :
    Except Stop (Int × OpenFile × Memory 64) :=
  readallLoop host cnt.toNat file memory b cnt

/-- `if(readall(...)) { perror(...); return 1; }` -/
def readallOrReturn
    (host : Host)
    (file : OpenFile)
    (memory : Memory 64)
    (b : Word)
    (cnt : Int) :
    Except Stop (OpenFile × Memory 64) := do
  let (status, file, memory) ← readall host file memory b cnt
  if status ≠ 0 then
    .error (.returned 1)
  else
    .ok (file, memory)

/-- `if(lseek(...) != offset) { perror(...); return 1; }` -/
def lseekOrReturn
    (host : Host)
    (file : OpenFile)
    (offset : Word) :
    Except Stop OpenFile :=
  match host.lseek file offset with
  | (result, file) =>
      if result ≠ offset then
        .error (.returned 1)
      else
        .ok file

/-- Read a little-endian number through a pointer. -/
def deref
    (memory : Memory 64)
    (pointer : Word)
    (length : Nat) :
    Except Stop Nat :=
  match memory.number pointer length with
  | some number => .ok number
  | none => .error (.faulted .invalidPointer)

/-- `*(unsigned long long*)pointer`. -/
def derefWord (memory : Memory 64) (pointer : Word) : Except Stop Word := do
  return BitVec.ofNat 64 (← deref memory pointer 8)

/-- The fields of a program header that `load_elf` reads. -/
structure ProgramHeader where
  kind : BitVec 32
  offset : Word
  vaddr : Word
  fsz : Word
  msz : Word
  deriving DecidableEq

/-- The reads of `ph[i]`. -/
def programHeader (ph : Memory 64) (i : Nat) : Except Stop ProgramHeader := do
  let phdr := BitVec.ofNat 64 (56 * i)
  return {
    kind := BitVec.ofNat 32 (← deref ph phdr 4)
    offset := ← derefWord ph (phdr + 8)
    vaddr := ← derefWord ph (phdr + 16)
    fsz := ← derefWord ph (phdr + 32)
    msz := ← derefWord ph (phdr + 40)
  }

/-- `*(int*)phdr == 1`. -/
def ProgramHeader.isLoad (phdr : ProgramHeader) : Bool :=
  phdr.kind = 1

/-- One header in the loop that computes `low_addr` and `high_addr`. -/
def widen (bounds : Word × Word) (phdr : ProgramHeader) : Word × Word :=
  if phdr.isLoad then
    (if phdr.vaddr < bounds.1 then phdr.vaddr else bounds.1,
      if phdr.vaddr + phdr.msz > bounds.2 then phdr.vaddr + phdr.msz
      else bounds.2)
  else
    bounds

/-- `low_addr` and `high_addr` before they are rounded. -/
def bounds (phdrs : List ProgramHeader) : Word × Word :=
  phdrs.foldl widen (~~~0, 0)

/-- `low_addr`. -/
def lowAddr (phdrs : List ProgramHeader) : Word :=
  (bounds phdrs).1 &&& -pageSize

/-- `high_addr`. -/
def highAddr (phdrs : List ProgramHeader) : Word :=
  ((bounds phdrs).2 - 1 ||| (pageSize - 1)) + 1

/-- The fixed anonymous `mmap` of the image. -/
def mmapOrReturn
    (host : Host)
    (memory : Memory 64)
    (low size : Word) :
    Except Stop (Memory 64) :=
  if host.maps low size then
    .ok (memory.fill low size.toNat (some 0))
  else
    .error (.returned 1)

/-- One header in the loop that reads the segments. -/
def loadSegment
    (host : Host)
    (phdr : ProgramHeader)
    (file : OpenFile)
    (memory : Memory 64) :
    Except Stop (OpenFile × Memory 64) :=
  if phdr.isLoad then do
    let file ← lseekOrReturn host file phdr.offset
    readallOrReturn host file memory phdr.vaddr
      (phdr.fsz.setWidth 32).toInt
  else
    .ok (file, memory)

/-- The loop that reads the segments. -/
def loadSegments
    (host : Host) :
    List ProgramHeader → OpenFile → Memory 64 →
      Except Stop (OpenFile × Memory 64)
  | [], file, memory => .ok (file, memory)
  | phdr :: rest, file, memory => do
      let (file, memory) ← loadSegment host phdr file memory
      loadSegments host rest file memory

/-- `isspace`. -/
def isSpace (byte : Byte) : Bool :=
  byte = 32 || (9 ≤ byte && byte ≤ 13)

/-- The value of the leading digits. -/
def digits : Int → List Byte → Int
  | value, [] => value
  | value, byte :: rest =>
      if 48 ≤ byte && byte ≤ 57 then
        digits (10 * value + (byte.toNat - 48)) rest
      else
        value

/-- `atoi`. -/
def atoi (text : List Byte) : Int :=
  match text.dropWhile isSpace with
  | 45 :: rest => -digits 0 rest
  | 43 :: rest => digits 0 rest
  | rest => digits 0 rest

/-- The descriptor that `load_elf` reads from, and the file behind it. -/
def openPath (host : Host) (path : List Byte) : Int × OpenFile :=
  if path.take 8 = chars "/dev/fd/" then
    let fd := atoi (path.drop 8)
    (fd, (host.lseek ⟨host.content fd, host.position fd, 0⟩ 0).2)
  else
    let fd := host.openFile path
    (fd, ⟨host.content fd, 0, 0⟩)

/-- What `load_elf` has at `close(fd)`. -/
structure Image where
  entry : Word
  phdrs : List ProgramHeader
  low : Word
  high : Word
  memory : Memory 64

/-- `munmap(0, 0x800000000)`. -/
def unmapLow (memory : Memory 64) : Memory 64 :=
  memory.fill 0 0x800000000 none

/-- What `load_elf` has when it starts to read the segments. -/
structure Headers where
  entry : Word
  phdrs : List ProgramHeader
  file : OpenFile
  memory : Memory 64

/-- `load_elf` up to the loop that reads the segments. -/
def loadHeaders
    (host : Host)
    (path : List Byte)
    (memory : Memory 64) :
    Except Stop Headers := do
  let memory := unmapLow memory
  let (fd, file) := openPath host path
  if fd < 0 then
    .error (.returned 1)
  else
    let (file, data) ← readallOrReturn host file (localArray 64) 0 64
    let entry ← derefWord data 24
    let phoff ← derefWord data 32
    let phentsize ← deref data 54 2
    if phentsize ≠ 56 then
      .error (.returned 1)
    else
      let phnum ← deref data 56 2
      let file ← lseekOrReturn host file phoff
      let (file, ph) ←
        readallOrReturn host file (localArray (phnum * 56)) 0 (phnum * 56)
      let phdrs ← (List.range phnum).mapM (programHeader ph)
      let memory ←
        mmapOrReturn host memory (lowAddr phdrs)
          (highAddr phdrs - lowAddr phdrs)
      .ok ⟨entry, phdrs, file, memory⟩

/-- `load_elf` up to `close(fd)`. -/
def loadImage
    (host : Host)
    (path : List Byte)
    (memory : Memory 64) :
    Except Stop Image := do
  let headers ← loadHeaders host path memory
  let (_, memory) ←
    loadSegments host headers.phdrs headers.file headers.memory
  .ok ⟨headers.entry, headers.phdrs, lowAddr headers.phdrs,
    highAddr headers.phdrs, memory⟩

end Hamachi.Loader
