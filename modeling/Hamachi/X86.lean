import Hamachi.FlatMemory

namespace Hamachi.X86

/-!
# A few instructions of x86-64

Calls, jumps and pops as a trampoline uses them: their encoding, their decoding
from memory, and what one step of the machine does.
-/

/-- The registers that these instructions use, and the memory. -/
structure Machine where
  rip : BitVec 64
  rsp : BitVec 64
  rdi : BitVec 64
  memory : Memory 64

/-- Instructions, with their displacement from the next instruction. -/
inductive Instruction where
  | call (displacement : BitVec 32)
  /-- `jmp *displacement(%rip)` -/
  | jumpIndirect (displacement : BitVec 32)
  | jump (displacement : BitVec 32)
  | popRdi
  deriving DecidableEq

/-- A number of 32 bits in an instruction. -/
def immediate (number : BitVec 32) : List Byte :=
  littleEndianBytes 4 number.toNat

/-- A quadword in memory. -/
def quadword (word : BitVec 64) : List Byte :=
  littleEndianBytes 8 word.toNat

namespace Instruction

/-- The bytes of an instruction. -/
def encode : Instruction → List Byte
  | call displacement => 0xe8 :: immediate displacement
  | jumpIndirect displacement => 0xff :: 0x25 :: immediate displacement
  | jump displacement => 0xe9 :: immediate displacement
  | popRdi => [0x5f]

/-- Where the displacement of an instruction leads. -/
def displaced (next : BitVec 64) (displacement : BitVec 32) : BitVec 64 :=
  next + displacement.signExtend 64

end Instruction

/-- The displacement at an address. -/
def immediateAt
    (memory : Memory 64)
    (address : BitVec 64) : Option (BitVec 32) :=
  (memory.number address 4).map (BitVec.ofNat 32)

/-- The instruction at an address, and its length. -/
def decode
    (memory : Memory 64)
    (address : BitVec 64) : Option (Instruction × Nat) := do
  let opcode ← memory address
  if opcode = 0xe8 then
    let displacement ← immediateAt memory (address + 1)
    some (.call displacement, 5)
  else if opcode = 0xff then
    let modrm ← memory (address + 1)
    if modrm = 0x25 then
      let displacement ← immediateAt memory (address + 2)
      some (.jumpIndirect displacement, 6)
    else
      none
  else if opcode = 0xe9 then
    let displacement ← immediateAt memory (address + 1)
    some (.jump displacement, 5)
  else if opcode = 0x5f then
    some (.popRdi, 1)
  else
    none

/-- Perform an instruction; `next` is the address behind it. -/
def perform
    (machine : Machine)
    (next : BitVec 64) : Instruction → Option Machine
  | .call displacement =>
      let rsp := machine.rsp - 8
      if machine.memory.mapped rsp 8 then
        some { machine with
          rip := Instruction.displaced next displacement
          rsp := rsp
          memory := machine.memory.store rsp (quadword next) }
      else
        none
  | .jumpIndirect displacement =>
      (machine.memory.number (Instruction.displaced next displacement) 8).map
        fun target => { machine with rip := BitVec.ofNat 64 target }
  | .jump displacement =>
      some { machine with rip := Instruction.displaced next displacement }
  | .popRdi =>
      (machine.memory.number machine.rsp 8).map fun value =>
        { machine with
          rip := next
          rsp := machine.rsp + 8
          rdi := BitVec.ofNat 64 value }

/-- One step of the machine. -/
def step (machine : Machine) : Option Machine := do
  let (instruction, length) ← decode machine.memory machine.rip
  perform machine (machine.rip + BitVec.ofNat 64 length) instruction

/-- That many steps. -/
def steps : Nat → Machine → Option Machine
  | 0, machine => some machine
  | count + 1, machine => do
      let machine ← step machine
      steps count machine

@[simp] theorem length_immediate (number : BitVec 32) :
    (immediate number).length = 4 :=
  length_littleEndianBytes ..

/-- A quadword is read back as it was written. -/
theorem number_of_quadword
    {memory : Memory 64}
    {address word : BitVec 64}
    (loaded : memory.load address 8 = some (quadword word)) :
    (memory.number address 8).map (BitVec.ofNat 64) = some word := by
  have small : word.toNat < 256 ^ 8 := word.isLt
  rw [Memory.number, loaded, Option.map_some, Option.map_some, quadword,
    littleEndian_littleEndianBytes, Nat.mod_eq_of_lt small,
    BitVec.ofNat_toNat, BitVec.setWidth_eq]

/-- A displacement is read back as it was written. -/
theorem immediateAt_of_load
    {memory : Memory 64}
    {address : BitVec 64}
    {number : BitVec 32}
    (loaded : memory.load address 4 = some (immediate number)) :
    immediateAt memory address = some number := by
  have small : number.toNat < 256 ^ 4 := number.isLt
  rw [immediateAt, Memory.number, loaded, Option.map_some, Option.map_some,
    immediate, littleEndian_littleEndianBytes, Nat.mod_eq_of_lt small,
    BitVec.ofNat_toNat, BitVec.setWidth_eq]

/-- The start of a loaded list. -/
theorem load_cons
    {memory : Memory 64}
    {address : BitVec 64}
    {byte : Byte}
    {rest : List Byte}
    (loaded :
      memory.load address (byte :: rest).length = some (byte :: rest)) :
    memory address = some byte ∧
      memory.load (address + 1) rest.length = some rest := by
  obtain ⟨_, shown⟩ := Memory.load_eq_some.mp loaded
  constructor
  · have first := shown 0 (Nat.succ_pos _)
    rwa [BitVec.add_zero] at first
  · refine Memory.load_eq_some.mpr ⟨rfl, fun index inside => ?_⟩
    have later := shown (index + 1) (Nat.succ_lt_succ inside)
    rw [Nat.add_comm index 1, BitVec.ofNat_add, ← BitVec.add_assoc,
      Nat.add_comm 1 index] at later
    exact later

/-- An encoded instruction is decoded as itself. -/
theorem decode_encode
    {memory : Memory 64}
    {address : BitVec 64}
    {instruction : Instruction}
    (loaded :
      memory.load address instruction.encode.length =
        some instruction.encode) :
    decode memory address = some (instruction, instruction.encode.length) := by
  cases instruction with
  | call displacement =>
      obtain ⟨opcode, operand⟩ := load_cons loaded
      rw [length_immediate] at operand
      rw [decode, opcode, Option.bind_eq_bind, Option.bind_some, if_pos rfl,
        immediateAt_of_load operand]
      rfl
  | jumpIndirect displacement =>
      obtain ⟨opcode, rest⟩ := load_cons loaded
      obtain ⟨modrm, operand⟩ := load_cons rest
      rw [length_immediate, BitVec.add_assoc] at operand
      rw [decode, opcode, Option.bind_eq_bind, Option.bind_some,
        if_neg (by decide), if_pos rfl, modrm, Option.bind_eq_bind,
        Option.bind_some, if_pos rfl,
        show immediateAt memory (address + 2) = some displacement from
          immediateAt_of_load operand]
      rfl
  | jump displacement =>
      obtain ⟨opcode, operand⟩ := load_cons loaded
      rw [length_immediate] at operand
      rw [decode, opcode, Option.bind_eq_bind, Option.bind_some,
        if_neg (by decide), if_neg (by decide), if_pos rfl,
        immediateAt_of_load operand]
      rfl
  | popRdi =>
      obtain ⟨opcode, _⟩ := load_cons loaded
      rw [decode, opcode]
      rfl

/-- A step performs the instruction at the program counter. -/
theorem step_of_load
    {machine : Machine}
    (instruction : Instruction)
    (loaded :
      machine.memory.load machine.rip instruction.encode.length =
        some instruction.encode) :
    step machine =
      perform machine
        (machine.rip + BitVec.ofNat 64 instruction.encode.length)
        instruction := by
  rw [step, decode_encode loaded]
  rfl

/-! The instructions, one by one. -/

theorem step_call
    {machine : Machine}
    {displacement : BitVec 32}
    (loaded :
      machine.memory.load machine.rip 5 =
        some (Instruction.call displacement).encode)
    (mapped : machine.memory.mapped (machine.rsp - 8) 8 = true) :
    step machine =
      some { machine with
        rip := Instruction.displaced (machine.rip + 5) displacement
        rsp := machine.rsp - 8
        memory :=
          machine.memory.store (machine.rsp - 8)
            (quadword (machine.rip + 5)) } := by
  rw [step_of_load (.call displacement) loaded, perform]
  exact if_pos mapped

theorem step_jumpIndirect
    {machine : Machine}
    {displacement : BitVec 32}
    {target : BitVec 64}
    (loaded :
      machine.memory.load machine.rip 6 =
        some (Instruction.jumpIndirect displacement).encode)
    (pointed :
      machine.memory.load
          (Instruction.displaced (machine.rip + 6) displacement) 8 =
        some (quadword target)) :
    step machine = some { machine with rip := target } := by
  obtain ⟨number, read, value⟩ :=
    Option.map_eq_some_iff.mp (number_of_quadword pointed)
  rw [step_of_load (.jumpIndirect displacement) loaded, perform, ← value]
  exact congrArg (Option.map _) read

theorem step_jump
    {machine : Machine}
    {displacement : BitVec 32}
    (loaded :
      machine.memory.load machine.rip 5 =
        some (Instruction.jump displacement).encode) :
    step machine =
      some { machine with
        rip := Instruction.displaced (machine.rip + 5) displacement } :=
  step_of_load (.jump displacement) loaded

theorem step_popRdi
    {machine : Machine}
    {value : BitVec 64}
    (loaded :
      machine.memory.load machine.rip 1 = some Instruction.popRdi.encode)
    (pushed : machine.memory.load machine.rsp 8 = some (quadword value)) :
    step machine =
      some { machine with
        rip := machine.rip + 1
        rsp := machine.rsp + 8
        rdi := value } := by
  obtain ⟨number, read, same⟩ :=
    Option.map_eq_some_iff.mp (number_of_quadword pushed)
  rw [step_of_load .popRdi loaded, perform, ← same]
  exact congrArg (Option.map _) read

/-- Loads from memories that agree on the range are alike. -/
theorem load_congr
    {memory other : Memory 64}
    {base : BitVec 64}
    {length : Nat}
    (same :
      ∀ index < length,
        memory (base + BitVec.ofNat 64 index) =
          other (base + BitVec.ofNat 64 index)) :
    memory.load base length = other.load base length := by
  induction length with
  | zero =>
      rfl
  | succ length inductionHypothesis =>
      rw [Memory.load, Memory.load, same length (Nat.lt_succ_self _),
        inductionHypothesis fun index inside =>
          same index (Nat.lt_succ_of_lt inside)]

/-- What is loaded from a range that a store does not reach stays. -/
theorem load_of_apart
    {memory : Memory 64}
    {address target : BitVec 64}
    {length : Nat}
    {bytes stored : List Byte}
    (loaded : memory.load address length = some bytes)
    (apart :
      ∀ index < length,
        stored.length ≤ distance target (address + BitVec.ofNat 64 index)) :
    (memory.store target stored).load address length = some bytes := by
  rw [← loaded]
  exact load_congr fun index inside =>
    Memory.store_outside (apart index inside)

end Hamachi.X86
