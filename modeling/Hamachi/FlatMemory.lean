import Hamachi.Buffer
import Mathlib.Algebra.Group.Nat.Defs

namespace Hamachi

/-!
# Flat byte memories

A memory gives every address of a machine word a byte or leaves it unmapped.
Addresses wrap around, so a byte is located by its distance from the base of an
access.  Loads and stores of byte lists are related through that distance.
-/

/-- A byte-addressed memory; unmapped addresses hold nothing. -/
abbrev Memory (width : Nat) := BitVec width → Option Byte

/-- How far an address lies past a base, going up and around. -/
def distance {width : Nat} (base address : BitVec width) : Nat :=
  (address - base).toNat

/-- The number that a list of bytes stands for, lowest byte first. -/
def littleEndian : List Byte → Nat
  | [] => 0
  | byte :: rest => byte.toNat + 256 * littleEndian rest

/-- A number as a list of `length` bytes, lowest byte first. -/
def littleEndianBytes : Nat → Nat → List Byte
  | 0, _ => []
  | length + 1, number =>
      BitVec.ofNat 8 number :: littleEndianBytes length (number / 256)

@[simp] theorem length_littleEndianBytes (length number : Nat) :
    (littleEndianBytes length number).length = length := by
  induction length generalizing number with
  | zero =>
      rfl
  | succ length inductionHypothesis =>
      simp [littleEndianBytes, inductionHypothesis]

/-- The number that the bytes of a number stand for. -/
theorem littleEndian_littleEndianBytes (length number : Nat) :
    littleEndian (littleEndianBytes length number) =
      number % 256 ^ length := by
  induction length generalizing number with
  | zero =>
      simp [littleEndian, littleEndianBytes, Nat.mod_one]
  | succ length inductionHypothesis =>
      have split :
          number % 256 ^ (length + 1) =
            number % 256 + 256 * (number / 256 % 256 ^ length) := by
        rw [Nat.pow_succ, Nat.mul_comm, Nat.mod_mul]
      rw [littleEndianBytes, littleEndian, inductionHypothesis, split]
      rfl

/-- The bytes of the number that bytes stand for. -/
theorem littleEndianBytes_littleEndian (bytes : List Byte) :
    littleEndianBytes bytes.length (littleEndian bytes) = bytes := by
  induction bytes with
  | nil =>
      rfl
  | cons byte rest inductionHypothesis =>
      have small : byte.toNat < 256 := byte.isLt
      have quotient :
          (byte.toNat + 256 * littleEndian rest) / 256 =
            littleEndian rest := by
        omega
      have remainder :
          BitVec.ofNat 8 (byte.toNat + 256 * littleEndian rest) = byte := by
        apply BitVec.eq_of_toNat_eq
        rw [BitVec.toNat_ofNat]
        omega
      rw [List.length_cons, littleEndian, littleEndianBytes, quotient,
        remainder, inductionHypothesis]

theorem littleEndian_lt (bytes : List Byte) :
    littleEndian bytes < 256 ^ bytes.length := by
  induction bytes with
  | nil =>
      simp [littleEndian]
  | cons byte rest inductionHypothesis =>
      have small : byte.toNat < 256 := byte.isLt
      rw [littleEndian, List.length_cons, Nat.pow_succ]
      omega

namespace Memory

variable {width : Nat}

/-- Read `length` bytes from a base on. -/
def load
    (memory : Memory width)
    (base : BitVec width) :
    Nat → Option (List Byte)
  | 0 => some []
  | length + 1 => do
      let bytes ← memory.load base length
      let byte ← memory (base + BitVec.ofNat width length)
      some (bytes ++ [byte])

/-- Put bytes at a base, over whatever was there. -/
def store
    (memory : Memory width)
    (base : BitVec width)
    (bytes : List Byte) :
    Memory width :=
  fun address =>
    match bytes[distance base address]? with
    | some byte => some byte
    | none => memory address

/-- Give every address of a range the same content. -/
def fill
    (memory : Memory width)
    (base : BitVec width)
    (length : Nat)
    (content : Option Byte) :
    Memory width :=
  fun address =>
    if distance base address < length then
      content
    else
      memory address

/-- Are all bytes of a range mapped? -/
def mapped
    (memory : Memory width)
    (base : BitVec width)
    (length : Nat) :
    Bool :=
  (List.range length).all fun index =>
    (memory (base + BitVec.ofNat width index)).isSome

/-- The number that `length` bytes from a base on hold. -/
def number
    (memory : Memory width)
    (base : BitVec width)
    (length : Nat) :
    Option Nat :=
  (memory.load base length).map littleEndian

end Memory

section Distances

variable {width : Nat}

theorem distance_lt (base address : BitVec width) :
    distance base address < 2 ^ width :=
  (address - base).isLt

/-- The distance as a difference of numbers. -/
theorem distance_eq (base address : BitVec width) :
    distance base address =
      if base.toNat ≤ address.toNat then
        address.toNat - base.toNat
      else
        address.toNat + 2 ^ width - base.toNat := by
  have addressBound := address.isLt
  have baseBound := base.isLt
  unfold distance
  rw [BitVec.toNat_sub]
  split
  next above =>
    have wrapped :
        2 ^ width - base.toNat + address.toNat =
          address.toNat - base.toNat + 2 ^ width := by
      omega
    rw [wrapped, Nat.add_mod_right, Nat.mod_eq_of_lt (by omega)]
  next below =>
    rw [Nat.mod_eq_of_lt (by omega)]
    omega

/-- Adding a number to an address. -/
theorem toNat_add_ofNat
    (base : BitVec width)
    {count : Nat}
    (small : count < 2 ^ width) :
    (base + BitVec.ofNat width count).toNat =
      if base.toNat + count < 2 ^ width then
        base.toNat + count
      else
        base.toNat + count - 2 ^ width := by
  have baseBound := base.isLt
  rw [BitVec.toNat_add, BitVec.toNat_ofNat, Nat.mod_eq_of_lt small]
  split
  next fits =>
    exact Nat.mod_eq_of_lt fits
  next wraps =>
    rw [Nat.mod_eq_sub_mod (by omega), Nat.mod_eq_of_lt (by omega)]

/-- Going `count` up from a base is at distance `count`. -/
theorem distance_add
    (base : BitVec width)
    {count : Nat}
    (small : count < 2 ^ width) :
    distance base (base + BitVec.ofNat width count) = count := by
  have baseBound := base.isLt
  rw [distance_eq, toNat_add_ofNat base small]
  split <;> split <;> omega

/-- The distance leads from the base to the address. -/
@[simp] theorem add_distance (base address : BitVec width) :
    base + BitVec.ofNat width (distance base address) = address := by
  unfold distance
  rw [BitVec.ofNat_toNat, BitVec.setWidth_eq, BitVec.add_comm,
    BitVec.sub_add_cancel]

/-- Going up from a base may go around, and is then shorter. -/
theorem distance_ofNat_le (base : BitVec width) (count : Nat) :
    distance base (base + BitVec.ofNat width count) ≤ count := by
  unfold distance
  rw [BitVec.add_comm, BitVec.add_sub_cancel, BitVec.toNat_ofNat]
  exact Nat.mod_le ..

/-- Moving the base up shortens the distance of what lies past it. -/
theorem distance_advance
    (base address : BitVec width)
    {count : Nat}
    (past : count ≤ distance base address) :
    distance (base + BitVec.ofNat width count) address =
      distance base address - count := by
  have baseBound := base.isLt
  have addressBound := address.isLt
  have small := Nat.lt_of_le_of_lt past (distance_lt base address)
  rw [distance_eq] at past ⊢
  rw [distance_eq base, toNat_add_ofNat base small]
  split at past <;> split <;> split <;> omega

/-- Moving the base past an address takes the address almost all around. -/
theorem distance_passed
    (base address : BitVec width)
    {count : Nat}
    (small : count < 2 ^ width)
    (passed : distance base address < count) :
    distance (base + BitVec.ofNat width count) address =
      distance base address + 2 ^ width - count := by
  have baseBound := base.isLt
  have addressBound := address.isLt
  rw [distance_eq] at passed ⊢
  rw [distance_eq base, toNat_add_ofNat base small]
  split at passed <;> split <;> split <;> omega

end Distances

namespace Memory

variable {width : Nat}

/-- What a load returns, byte by byte. -/
theorem load_eq_some
    {memory : Memory width}
    {base : BitVec width}
    {length : Nat}
    {bytes : List Byte} :
    memory.load base length = some bytes ↔
      bytes.length = length ∧
        ∀ index < length,
          memory (base + BitVec.ofNat width index) = bytes[index]? := by
  induction length generalizing bytes with
  | zero =>
      simp [load, eq_comm (a := [])]
  | succ length inductionHypothesis =>
      simp only [load, Option.bind_eq_bind, Option.bind_eq_some_iff,
        Option.some.injEq, inductionHypothesis]
      constructor
      · rintro ⟨front, ⟨frontLength, frontBytes⟩, last, lastByte, rfl⟩
        refine ⟨by simp [frontLength], ?_⟩
        intro index inside
        rcases Nat.lt_succ_iff_lt_or_eq.mp inside with before | rfl
        · rw [frontBytes index before, List.getElem?_append_left (by omega)]
        · rw [lastByte, List.getElem?_append_right (by omega), frontLength]
          simp
      · rintro ⟨bytesLength, agrees⟩
        have nonempty : bytes ≠ [] := by
          rintro rfl
          simp at bytesLength
        refine ⟨bytes.dropLast, ⟨by simp [bytesLength], ?_⟩,
          bytes.getLast nonempty, ?_, List.dropLast_append_getLast nonempty⟩
        · intro index inside
          rw [agrees index (by omega), List.getElem?_dropLast,
            if_pos (by omega)]
        · rw [agrees length (by omega), ← List.getLast?_eq_some_getLast,
            List.getLast?_eq_getElem?, bytesLength]
          rfl

theorem mapped_iff
    {memory : Memory width}
    {base : BitVec width}
    {length : Nat} :
    memory.mapped base length = true ↔
      ∀ index < length,
        (memory (base + BitVec.ofNat width index)).isSome = true := by
  simp [mapped]

/-- A mapped range can be loaded. -/
theorem exists_load
    {memory : Memory width}
    {base : BitVec width}
    {length : Nat}
    (known :
      ∀ index < length,
        (memory (base + BitVec.ofNat width index)).isSome = true) :
    ∃ bytes, memory.load base length = some bytes := by
  induction length with
  | zero =>
      exact ⟨[], rfl⟩
  | succ length inductionHypothesis =>
      obtain ⟨front, loaded⟩ :=
        inductionHypothesis fun index inside => known index (by omega)
      obtain ⟨last, here⟩ :=
        Option.isSome_iff_exists.mp (known length (by omega))
      exact ⟨front ++ [last], by simp [load, loaded, here]⟩

/-- Inside the range a store leaves the stored bytes. -/
theorem store_inside
    {memory : Memory width}
    {base address : BitVec width}
    {bytes : List Byte}
    (inside : distance base address < bytes.length) :
    memory.store base bytes address = bytes[distance base address]? := by
  simp only [store, List.getElem?_eq_getElem inside]

/-- Outside the range a store changes nothing. -/
theorem store_outside
    {memory : Memory width}
    {base address : BitVec width}
    {bytes : List Byte}
    (outside : bytes.length ≤ distance base address) :
    memory.store base bytes address = memory address := by
  simp only [store, List.getElem?_eq_none outside]

@[simp] theorem store_nil
    (memory : Memory width)
    (base : BitVec width) :
    memory.store base [] = memory := by
  funext address
  exact store_outside (Nat.zero_le _)

/-- An address that two memories agree on is stored to alike. -/
theorem store_congr
    {first second : Memory width}
    {base address : BitVec width}
    {bytes : List Byte}
    (agree : first address = second address) :
    first.store base bytes address = second.store base bytes address := by
  simp only [store, agree]

/-- Two stores one after the other are one store of the joined bytes. -/
theorem store_store
    (memory : Memory width)
    (base : BitVec width)
    {first second : List Byte}
    (fits : first.length + second.length ≤ 2 ^ width) :
    (memory.store base first).store
        (base + BitVec.ofNat width first.length) second =
      memory.store base (first ++ second) := by
  by_cases wraps : first.length = 2 ^ width
  · have noRest : second = [] := by
      rw [← List.length_eq_zero_iff]
      omega
    rw [noRest, store_nil, List.append_nil]
  funext address
  have addressBound := distance_lt base address
  by_cases passed : distance base address < first.length
  · have around := distance_passed base address (by omega) passed
    rw [store_outside (by omega), store_inside passed,
      store_inside (by rw [List.length_append]; omega),
      List.getElem?_append_left passed]
  · have ahead := distance_advance base address (Nat.le_of_not_lt passed)
    by_cases inside : distance base address < first.length + second.length
    · rw [store_inside (by omega), ahead,
        store_inside (by rw [List.length_append]; exact inside),
        List.getElem?_append_right (by omega)]
    · rw [store_outside (by omega), store_outside (by omega),
        store_outside (by rw [List.length_append]; omega)]

/-- A store does not unmap anything. -/
theorem isSome_store
    {memory : Memory width}
    {base address : BitVec width}
    {bytes : List Byte}
    (known : (memory address).isSome = true) :
    (memory.store base bytes address).isSome = true := by
  by_cases inside : distance base address < bytes.length
  · rw [store_inside inside, List.getElem?_eq_getElem inside]
    rfl
  · rw [store_outside (by omega)]
    exact known

theorem mapped_store
    {memory : Memory width}
    {base target : BitVec width}
    {length : Nat}
    {bytes : List Byte}
    (known : memory.mapped target length = true) :
    (memory.store base bytes).mapped target length = true := by
  rw [mapped_iff] at known ⊢
  intro index inside
  exact isSome_store (known index inside)

/-- Part of a range is mapped when the whole is. -/
theorem mapped_part
    {memory : Memory width}
    {base : BitVec width}
    {part length : Nat}
    (offset : Nat)
    (known : memory.mapped base length = true)
    (inside : offset + part ≤ length) :
    memory.mapped (base + BitVec.ofNat width offset) part = true := by
  rw [mapped_iff] at known ⊢
  intro index below
  rw [BitVec.add_assoc, ← BitVec.ofNat_add]
  exact known (offset + index) (by omega)

/-- Loading back a part of what was stored. -/
theorem load_store
    (memory : Memory width)
    (base : BitVec width)
    {bytes : List Byte}
    {offset length : Nat}
    (fits : bytes.length ≤ 2 ^ width)
    (inside : offset + length ≤ bytes.length) :
    (memory.store base bytes).load
        (base + BitVec.ofNat width offset) length =
      some ((bytes.drop offset).take length) := by
  refine load_eq_some.mpr ⟨?_, ?_⟩
  · rw [List.length_take, List.length_drop]
    omega
  · intro index below
    have place :
        distance base (base + BitVec.ofNat width (offset + index)) =
          offset + index :=
      distance_add base (by omega)
    rw [BitVec.add_assoc, ← BitVec.ofNat_add,
      store_inside (by omega), place, List.getElem?_take_of_lt below,
      List.getElem?_drop]

theorem fill_inside
    {memory : Memory width}
    {base address : BitVec width}
    {length : Nat}
    {content : Option Byte}
    (inside : distance base address < length) :
    memory.fill base length content address = content :=
  if_pos inside

theorem fill_outside
    {memory : Memory width}
    {base address : BitVec width}
    {length : Nat}
    {content : Option Byte}
    (outside : length ≤ distance base address) :
    memory.fill base length content address = memory address :=
  if_neg (Nat.not_lt.mpr outside)

/-! Several stores, one after the other. -/

/-- Carry out a list of stores. -/
def storeAll
    (memory : Memory width)
    (writes : List (BitVec width × List Byte)) :
    Memory width :=
  writes.foldl (fun memory write => memory.store write.1 write.2) memory

/-- An address that two memories agree on is stored to alike. -/
theorem storeAll_congr
    {first second : Memory width}
    {writes : List (BitVec width × List Byte)}
    {address : BitVec width}
    (agree : first address = second address) :
    first.storeAll writes address = second.storeAll writes address := by
  induction writes generalizing first second with
  | nil =>
      exact agree
  | cons write rest inductionHypothesis =>
      exact inductionHypothesis (store_congr agree)

/-- An address that no store reaches keeps its content. -/
theorem storeAll_outside
    (memory : Memory width)
    {writes : List (BitVec width × List Byte)}
    {address : BitVec width}
    (outside :
      ∀ write ∈ writes, write.2.length ≤ distance write.1 address) :
    memory.storeAll writes address = memory address := by
  induction writes generalizing memory with
  | nil =>
      rfl
  | cons write rest inductionHypothesis =>
      have here := outside write (List.mem_cons_self ..)
      have later :=
        inductionHypothesis (memory.store write.1 write.2)
          fun other member => outside other (List.mem_cons_of_mem _ member)
      exact later.trans (store_outside here)

/-- An address shows what the last store that reaches it has stored. -/
theorem storeAll_last
    (memory : Memory width)
    (front : List (BitVec width × List Byte))
    {back : List (BitVec width × List Byte)}
    {write : BitVec width × List Byte}
    {address : BitVec width}
    (reaches : distance write.1 address < write.2.length)
    (later : ∀ other ∈ back, other.2.length ≤ distance other.1 address) :
    memory.storeAll (front ++ write :: back) address =
      write.2[distance write.1 address]? := by
  have joined :
      memory.storeAll (front ++ write :: back) =
        ((memory.storeAll front).store write.1 write.2).storeAll back := by
    rw [storeAll, List.foldl_append, List.foldl_cons]
    rfl
  rw [joined, storeAll_outside _ later, store_inside reaches]

/-- An address that exactly one store reaches shows what it stored. -/
theorem storeAll_inside
    (memory : Memory width)
    {writes : List (BitVec width × List Byte)}
    {write : BitVec width × List Byte}
    {address : BitVec width}
    (apart :
      writes.Pairwise fun first second =>
        ∀ address, ¬(distance first.1 address < first.2.length ∧
          distance second.1 address < second.2.length))
    (member : write ∈ writes)
    (inside : distance write.1 address < write.2.length) :
    memory.storeAll writes address =
      write.2[distance write.1 address]? := by
  induction writes generalizing memory with
  | nil =>
      exact absurd member (List.not_mem_nil)
  | cons first rest inductionHypothesis =>
      obtain ⟨beside, restApart⟩ := List.pairwise_cons.mp apart
      cases member with
      | head =>
          have later :=
            storeAll_outside (memory.store write.1 write.2)
              fun other (member : other ∈ rest) =>
                Nat.le_of_not_lt fun reached =>
                  beside other member address ⟨inside, reached⟩
          exact later.trans (store_inside inside)
      | tail _ member =>
          exact inductionHypothesis (memory.store first.1 first.2) restApart
            member

end Memory

end Hamachi
