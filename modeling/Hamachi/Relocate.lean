import Hamachi.LoadElf
import Hamachi.Lookup

namespace Hamachi.Loader

/-!
# Relocation in `ldr.c`

The rest of `load_elf`: the dynamic section, the two relocation loops, and what
they take from `lookup.c` and `stub_gen.c`.  Of a symbol table only the
`reloc_addr` columns ever change.
-/

/-- Where the linker has put the symbols of the loader, the auxiliary table,
and the pages that `mmap(NULL, ...)` returns one after the other. -/
structure Linkage where
  address : String → Word
  auxsymbols : List SymbolDesc
  stubPage : Nat → Option Word

/-- What relocation changes: the memory, the `reloc_addr` columns, the
`counter` of `lookup_data`, and how many stubs there are. -/
structure LinkState where
  memory : Memory 64
  relocAddr : SymbolPointer → Word
  counter : Nat
  stubs : Nat

/-- `*(type*)pointer = ...` -/
def storeAt
    (memory : Memory 64)
    (pointer : Word)
    (bytes : List Byte) :
    Except Stop (Memory 64) :=
  if memory.mapped pointer bytes.length then
    .ok (memory.store pointer bytes)
  else
    .error (.faulted .invalidPointer)

/-- The bytes of a pointer. -/
def wordBytes (word : Word) : List Byte :=
  littleEndianBytes 8 word.toNat

/-- The string at a pointer; no string is longer than the address space. -/
def cString (memory : Memory 64) : Nat → Word → Option (List Byte)
  | 0, _ => none
  | fuel + 1, pointer =>
      match memory pointer with
      | none => none
      | some byte =>
          if byte = 0 then
            some []
          else
            (cString memory fuel (pointer + 1)).map (byte :: ·)

/-- The characters of a string, if they are those of a name. -/
def nameOf (text : List Byte) : Option Name :=
  let chars := text.map fun byte => Char.ofNat byte.toNat
  if ascii : chars.all isNameChar = true then
    some ⟨chars, ascii⟩
  else
    none

/-- The `value` of a row. -/
def Linkage.value (linkage : Linkage) (row : SymbolDesc) : Word :=
  match row.value with
  | .null => 0
  | .addressOf linkerSymbol => linkage.address linkerSymbol

/-- The row under a `struct symbol_desc*`. -/
def Linkage.rowAt
    (linkage : Linkage) :
    SymbolPointer → Option SymbolDesc
  | .symbols index => if index < 0 then none else symbols[index.toNat]?
  | .auxsymbols index =>
      if index < 0 then none else linkage.auxsymbols[index.toNat]?

/-- `lookup`, with the row it returns.  A string with a byte above 127 is no
row's name, and the signed comparisons of `lookup_in` find no row for it. -/
def Linkage.lookup
    (linkage : Linkage)
    (text : List Byte) :
    Except Stop (Option (SymbolPointer × SymbolDesc)) :=
  match nameOf text with
  | none => .ok none
  | some name =>
      match Hamachi.lookup name linkage.auxsymbols
          linkage.auxsymbols.length with
      | .error fault => .error (.faulted fault)
      | .ok none => .ok none
      | .ok (some pointer) =>
          match linkage.rowAt pointer with
          | none => .error (.faulted .outOfBounds)
          | some row => .ok (some (pointer, row))

/-- The code at the start of a stub. -/
def stubCode : List Byte :=
  [0xe8, 0, 0, 0, 0, 0xff, 0x25, 5, 0, 0, 0]

/-- `generate_stub`. -/
def generateStub
    (linkage : Linkage)
    (name : List Byte)
    (s : LinkState) :
    Except Stop (Word × LinkState) :=
  match linkage.stubPage s.stubs with
  | none => .error (.faulted .invalidPointer)
  | some page => do
      let memory := s.memory.fill page 16384 (some 0)
      let memory ← storeAt memory page stubCode
      let memory ←
        storeAt memory (page + 16) (wordBytes (linkage.address "stub_entry"))
      let memory ← storeAt memory (page + 24) name
      .ok (page, { s with memory := memory, stubs := s.stubs + 1 })

/-- `lookup_function`. -/
def lookupFunction
    (linkage : Linkage)
    (name : List Byte)
    (s : LinkState) :
    Except Stop (Word × LinkState) := do
  match ← linkage.lookup name with
  | some (_, x) =>
      if x.isFn then
        .ok (linkage.value x, s)
      else
        generateStub linkage name s
  | none => generateStub linkage name s

/-- The end of `lookup_data`, for what is not a data symbol. -/
def unresolved (s : LinkState) : Word × LinkState :=
  (BitVec.ofNat 64 s.counter <<< 32 ||| 0xdeadbeef,
    { s with counter := s.counter + 1 })

/-- `lookup_data`. -/
def lookupData
    (linkage : Linkage)
    (name : List Byte)
    (tgt : Word)
    (s : LinkState) :
    Except Stop (Word × LinkState) := do
  match ← linkage.lookup name with
  | some (pointer, x) =>
      if !x.isFn then
        if tgt > 1 then
          let ans ← derefWord s.memory (linkage.value x)
          .ok (ans,
            { s with
              relocAddr := fun other =>
                if other = pointer then tgt else s.relocAddr other })
        else if tgt = 0 && s.relocAddr pointer ≠ 0 then
          .ok (s.relocAddr pointer, s)
        else
          .ok (linkage.value x, s)
      else
        .ok (unresolved s)
  | none => .ok (unresolved s)

/-- What a relocation loop reads of one entry. -/
structure Relocation where
  a : Word
  kind : BitVec 32
  sym : Word
  name : Word
  text : List Byte
  deriving DecidableEq

/-- The reads of a relocation loop at one entry. -/
def readRelocation
    (memory : Memory 64)
    (symtab strtab place : Word) :
    Except Stop Relocation := do
  let a ← derefWord memory place
  let b ← derefWord memory (place + 8)
  let _ ← derefWord memory (place + 16)
  let sym := symtab + (b >>> 32) * 24
  let name := strtab + BitVec.ofNat 64 (← deref memory sym 4)
  match cString memory (2 ^ 64) name with
  | none => .error (.faulted .invalidPointer)
  | some text => .ok ⟨a, b.setWidth 32, sym, name, text⟩

/-- `*(void**)a = lookup_data(name, a)`. -/
def assignData
    (linkage : Linkage)
    (entry : Relocation)
    (s : LinkState) :
    Except Stop LinkState := do
  let (value, s) ← lookupData linkage entry.text entry.a s
  let memory ← storeAt s.memory entry.a (wordBytes value)
  .ok { s with memory := memory }

/-- `*(void**)a = lookup_function(name)`. -/
def assignFunction
    (linkage : Linkage)
    (entry : Relocation)
    (s : LinkState) :
    Except Stop LinkState := do
  let (value, s) ← lookupFunction linkage entry.text s
  let memory ← storeAt s.memory entry.a (wordBytes value)
  .ok { s with memory := memory }

/-- The body of the loop over `DT_RELA`. -/
def applyRela
    (linkage : Linkage)
    (entry : Relocation)
    (s : LinkState) :
    Except Stop LinkState :=
  if entry.kind = 5 then
    assignData linkage entry s
  else if entry.kind = 6 || entry.kind = 7 then
    assignFunction linkage entry s
  else
    .error (.faulted .aborted)

/-- The body of the loop over `DT_JMPREL`. -/
def applyJmprel
    (linkage : Linkage)
    (entry : Relocation)
    (s : LinkState) :
    Except Stop LinkState :=
  if entry.kind = 6 then
    .ok s
  else if entry.kind = 5 then
    assignData linkage entry s
  else if entry.kind = 7 then
    assignFunction linkage entry s
  else
    .error (.faulted .aborted)

/-- `count` iterations of a relocation loop, from the entry at `place`. -/
def relocateTable
    (body : Relocation → LinkState → Except Stop LinkState)
    (symtab strtab : Word) :
    Nat → Word → LinkState → Except Stop LinkState
  | 0, _, s => .ok s
  | count + 1, place, s => do
      let entry ← readRelocation s.memory symtab strtab place
      let s ← body entry s
      relocateTable body symtab strtab count (place + 24) s

/-- The tables that the dynamic section names. -/
structure Dynamic where
  reladyn : Word := 0
  reladynSz : Word := 0
  relaplt : Word := 0
  relapltSz : Word := 0
  symtab : Word := 0
  strtab : Word := 0
  deriving DecidableEq

/-- One entry of the dynamic section. -/
def Dynamic.record (dynamic : Dynamic) (key value : Word) : Dynamic :=
  if key = 7 then { dynamic with reladyn := value }
  else if key = 8 then { dynamic with reladynSz := value }
  else if key = 23 then { dynamic with relaplt := value }
  else if key = 2 then { dynamic with relapltSz := value }
  else if key = 6 then { dynamic with symtab := value }
  else if key = 5 then { dynamic with strtab := value }
  else dynamic

/-- `count` iterations of the loop over the dynamic section. -/
def readDynamic
    (memory : Memory 64) :
    Nat → Word → Dynamic → Except Stop Dynamic
  | 0, _, dynamic => .ok dynamic
  | count + 1, place, dynamic => do
      let key ← derefWord memory place
      let value ← derefWord memory (place + 8)
      readDynamic memory count (place + 16) (dynamic.record key value)

/-- How often `for(i = 0; i < size; i += step)` runs. -/
def iterations (size step : Nat) : Nat :=
  (size + step - 1) / step

/-- `dyn_addr` and `dyn_sz`. -/
def dynamicSection (phdrs : List ProgramHeader) : Word × Word :=
  phdrs.foldl
    (fun found phdr => if phdr.kind = 2 then (phdr.vaddr, phdr.msz) else found)
    (0, 0)

/-- The dynamic section of an image. -/
def imageDynamic
    (phdrs : List ProgramHeader)
    (memory : Memory 64) :
    Except Stop Dynamic :=
  match dynamicSection phdrs with
  | (dynAddr, dynSz) =>
      readDynamic memory (iterations dynSz.toNat 16) dynAddr {}

/-- The two relocation loops. -/
def relocateTables
    (linkage : Linkage)
    (dynamic : Dynamic)
    (s : LinkState) :
    Except Stop LinkState := do
  let s ←
    relocateTable (applyRela linkage) dynamic.symtab dynamic.strtab
      (iterations dynamic.reladynSz.toNat 24) dynamic.reladyn s
  relocateTable (applyJmprel linkage) dynamic.symtab dynamic.strtab
    (iterations dynamic.relapltSz.toNat 24) dynamic.relaplt s

/-- `load_elf` from `close(fd)` on. -/
def relocate
    (linkage : Linkage)
    (phdrs : List ProgramHeader)
    (s : LinkState) :
    Except Stop LinkState := do
  let dynamic ← imageDynamic phdrs s.memory
  relocateTables linkage dynamic s

/-- `load_elf`, with `*entry`. -/
def loadElf
    (host : Host)
    (linkage : Linkage)
    (path : List Byte)
    (s : LinkState) :
    Except Stop (Word × LinkState) := do
  let image ← loadImage host path s.memory
  let s ← relocate linkage image.phdrs { s with memory := image.memory }
  .ok (image.entry, s)

end Hamachi.Loader
