import Hamachi.Relocate

namespace Hamachi.Loader

/-!
# Relocation tables and what the ABI asks of them

The entries that an image's tables describe, the memory that the ABI asks for
after relocation, and the tables that the loader's eight-byte stores can
handle.
-/

/-- `R_X86_64_COPY`. -/
def copyKind : BitVec 32 := 5

/-- An entry of a relocation table, with the `st_size` of its symbol in the
image and the row that defines the symbol. -/
structure Entry extends Relocation where
  stSize : Word
  row : SymbolDesc

namespace Entry

/-- The bytes that the ABI asks the entry to fill. -/
def length (entry : Entry) : Nat :=
  if entry.kind = copyKind then entry.stSize.toNat else 8

/-- The address is one of the entry's target. -/
def Covers (entry : Entry) (address : Word) : Prop :=
  distance entry.a address < entry.length

/-- The address is one of the target, or of the eight bytes at its start. -/
def Touches (entry : Entry) (address : Word) : Prop :=
  distance entry.a address < max 8 entry.length

/-- The address is one of the eight bytes that are stored for the entry. -/
def Reaches (entry : Entry) (address : Word) : Prop :=
  distance entry.a address < 8

/-- No address is touched by both entries. -/
def Beside (first second : Entry) : Prop :=
  ∀ address, ¬(first.Touches address ∧ second.Touches address)

/-- No address is one of both targets. -/
def Apart (first second : Entry) : Prop :=
  ∀ address, ¬(first.Covers address ∧ second.Covers address)

/-- The entry stands at a place of the table. -/
structure At
    (entry : Entry)
    (memory : Memory 64)
    (dynamic : Dynamic)
    (place : Word) :
    Prop where
  read :
    readRelocation memory dynamic.symtab dynamic.strtab place =
      .ok entry.toRelocation
  size : derefWord memory (entry.sym + 16) = .ok entry.stSize

end Entry

/-- The entries stand in a row from a place on. -/
def Tabulates
    (memory : Memory 64)
    (dynamic : Dynamic) :
    List Entry → Word → Prop
  | [], _ => True
  | entry :: rest, place =>
      entry.At memory dynamic place ∧
        Tabulates memory dynamic rest (place + 24)

/-- An image with its two relocation tables, of the kinds that belong there,
with targets in the image that do not overlap, and with all symbols in the
symbol tables. -/
structure Layout
    (linkage : Linkage)
    (phdrs : List ProgramHeader)
    (memory : Memory 64)
    (dynamic : Dynamic)
    (rela jmprel : List Entry) :
    Prop where
  located : imageDynamic phdrs memory = .ok dynamic
  relaCount : rela.length = iterations dynamic.reladynSz.toNat 24
  jmprelCount : jmprel.length = iterations dynamic.relapltSz.toNat 24
  relaTable : Tabulates memory dynamic rela dynamic.reladyn
  jmprelTable : Tabulates memory dynamic jmprel dynamic.relaplt
  relaKinds :
    ∀ entry ∈ rela, entry.kind = 5 ∨ entry.kind = 6 ∨ entry.kind = 7
  jmprelKinds : ∀ entry ∈ jmprel, entry.kind = 7
  defined :
    ∀ entry ∈ rela ++ jmprel,
      entry.row ∈ symbols ++ linkage.auxsymbols ∧
        nameOf entry.text = some entry.row.name
  apart : (rela ++ jmprel).Pairwise Entry.Apart
  mapped :
    ∀ entry ∈ rela ++ jmprel, ∀ address,
      entry.Covers address → (memory address).isSome

/-- What the ABI asks of the memory after relocation. -/
structure Relocated
    (linkage : Linkage)
    (entries : List Entry)
    (before after : Memory 64) :
    Prop where
  copies :
    ∀ entry ∈ entries, entry.kind = copyKind →
      ∀ index < entry.stSize.toNat,
        after (entry.a + BitVec.ofNat 64 index) =
          before (linkage.value entry.row + BitVec.ofNat 64 index)
  slots :
    ∀ entry ∈ entries, entry.kind ≠ copyKind →
      after.load entry.a 8 = some (wordBytes (linkage.value entry.row))
  untouched :
    ∀ address, (before address).isSome →
      (∀ entry ∈ entries, ¬entry.Covers address) →
      after address = before address

/-- Relocation ends, and leaves what the ABI asks for. -/
def Relocates
    (linkage : Linkage)
    (phdrs : List ProgramHeader)
    (entries : List Entry)
    (s : LinkState) :
    Prop :=
  ∃ s', relocate linkage phdrs s = .ok s' ∧
    Relocated linkage entries s.memory s'.memory

/-- No entry touches the address. -/
def Free (entries : List Entry) (address : Word) : Prop :=
  ∀ entry ∈ entries, ¬entry.Touches address

/-! ## What the loader gets right -/

/-- `lookup` finds the row that defines the symbol. -/
def Entry.Found (entry : Entry) (linkage : Linkage) : Prop :=
  ∃ pointer, linkage.lookup entry.text = .ok (some (pointer, entry.row))

/-- The symbol is found as what the entry's kind is looked up as: data for a
copy, a function for a slot. -/
structure Entry.Resolved (entry : Entry) (linkage : Linkage) : Prop where
  found : entry.Found linkage
  copy : entry.kind = copyKind → 1 < entry.a ∧ entry.row.isFn = false
  slot : entry.kind ≠ copyKind → entry.row.isFn = true

/-- The byte that belongs `index` bytes past the entry's target: that of the
definition, or of the symbol's address. -/
def Entry.byte
    (entry : Entry)
    (linkage : Linkage)
    (memory : Memory 64)
    (index : Nat) : Option Byte :=
  if entry.kind = copyKind then
    memory (linkage.value entry.row + BitVec.ofNat 64 index)
  else
    (wordBytes (linkage.value entry.row))[index]?

/-- What the ABI asks an address to hold: the byte of the target that it is one
of, or else what it held. -/
def Asked
    (linkage : Linkage)
    (memory : Memory 64)
    (entries : List Entry)
    (address : Word)
    (content : Option Byte) : Prop :=
  (∀ entry ∈ entries, entry.Covers address →
      content = entry.byte linkage memory (distance entry.a address)) ∧
    ((∀ entry ∈ entries, ¬entry.Covers address) → content = memory address)

/-- Of the eight-byte stores for these entries, the one for this entry is the
last that reaches the address. -/
def LastAt
    (entries : List Entry)
    (address : Word)
    (entry : Entry) : Prop :=
  ∃ front back,
    entries = front ++ entry :: back ∧ entry.Reaches address ∧
      ∀ other ∈ back, ¬other.Reaches address

/-- An iteration of a relocation loop: an entry and its place in the table. -/
structure Turn where
  entry : Entry
  place : Word

/-- The iterations over a table. -/
def tableTurns : List Entry → Word → List Turn
  | [], _ => []
  | entry :: rest, place => ⟨entry, place⟩ :: tableTurns rest (place + 24)

/-- The iterations of both loops. -/
def Dynamic.turns
    (dynamic : Dynamic)
    (rela jmprel : List Entry) : List Turn :=
  tableTurns rela dynamic.reladyn ++ tableTurns jmprel dynamic.relaplt

/-- What an iteration does depends on the byte: one of `r_offset` and `r_info`,
of `st_name`, of the name, or of a definition that is copied. -/
inductive Turn.Reads
    (linkage : Linkage)
    (turn : Turn)
    (address : Word) : Prop
  | relocation (inside : distance turn.place address < 16)
  | symbol (inside : distance turn.entry.sym address < 4)
  | name
      (inside :
        distance turn.entry.name address ≤ turn.entry.text.length)
  | definition
      (copy : turn.entry.kind = copyKind)
      (inside : distance (linkage.value turn.entry.row) address < 8)

/-- No store changes a byte that a later iteration reads: the last store before
the iteration that reaches the byte stores what was there. -/
def Undisturbed
    (linkage : Linkage)
    (memory : Memory 64)
    (iterations : List Turn) : Prop :=
  ∀ front turn back, iterations = front ++ turn :: back →
    ∀ address, turn.Reads linkage address →
      ∀ entry, LastAt (front.map Turn.entry) address entry →
        entry.Resolved linkage ∧
          entry.byte linkage memory (distance entry.a address) =
            memory address

/-- Tables that the loader gets right: every symbol is resolved, no store
reaches an unmapped byte or changes what is still read, and wherever a store
is the last that reaches a byte, or none does, the ABI asks for what is
there. -/
structure Handled
    (linkage : Linkage)
    (memory : Memory 64)
    (dynamic : Dynamic)
    (rela jmprel : List Entry) :
    Prop where
  resolved : ∀ entry ∈ rela ++ jmprel, entry.Resolved linkage
  mapped :
    ∀ entry ∈ rela ++ jmprel, ∀ address,
      entry.Reaches address → (memory address).isSome
  definitions :
    ∀ entry ∈ rela ++ jmprel, entry.kind = copyKind → ∀ address,
      distance (linkage.value entry.row) address < 8 →
        (memory address).isSome
  undisturbed : Undisturbed linkage memory (dynamic.turns rela jmprel)
  stored :
    ∀ address entry, LastAt (rela ++ jmprel) address entry →
      Asked linkage memory (rela ++ jmprel) address
        (entry.byte linkage memory (distance entry.a address))
  unreached :
    ∀ address, (∀ entry ∈ rela ++ jmprel, ¬entry.Reaches address) →
      Asked linkage memory (rela ++ jmprel) address (memory address)

/-- Nothing that the loader stores by mistake is right by accident: `lookup`
answers with no other row, a store by mistake is not stored over, the stub
pages are apart and are no symbol's address, and the placeholder's first byte
is not the one asked for. -/
structure Telling
    (linkage : Linkage)
    (memory : Memory 64)
    (entries : List Entry) :
    Prop where
  sound :
    ∀ entry ∈ entries, ∀ pointer row,
      linkage.lookup entry.text = .ok (some (pointer, row)) →
      row = entry.row
  proper : ∀ entry ∈ entries, entry.kind = copyKind → 1 < entry.a
  unmarked :
    ∀ entry ∈ entries, entry.kind = copyKind → ¬entry.Resolved linkage →
      ¬Asked linkage memory entries entry.a (some 0xef)
  lasting :
    ∀ front entry back, entries = front ++ entry :: back →
      ¬entry.Resolved linkage →
      ∀ other ∈ back, ∀ address,
        ¬(entry.Reaches address ∧ other.Reaches address)
  fresh :
    ∀ stub page, linkage.stubPage stub = some page →
      ∀ address, distance page address < 16384 →
        memory address = none ∧
          ∀ entry ∈ entries, ¬entry.Reaches address ∧
            (entry.kind = copyKind →
              8 ≤ distance (linkage.value entry.row) address)
  distinct :
    ∀ stub page, linkage.stubPage stub = some page →
      ∀ entry ∈ entries, linkage.value entry.row ≠ page
  short : ∀ entry ∈ entries, entry.text.length ≤ 16360

end Hamachi.Loader
