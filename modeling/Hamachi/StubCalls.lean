import Hamachi.RelocationRuns
import Hamachi.X86

namespace Hamachi.Loader

/-!
# Calls of functions that the loader lacks

`generate_stub` writes a trampoline for every function that `lookup` does not
find.  A call of such a function reaches `stub`, which is given the address of
the trampoline and finds the name of the function behind it.
-/

open X86 (Machine Instruction)

/-- A stub of `generate_stub` for a name. -/
structure StubAt
    (linkage : Linkage)
    (memory : Memory 64)
    (page : Word)
    (text : List Byte) : Prop where
  code : memory.load page 11 = some stubCode
  target :
    memory.load (page + 16) 8 =
      some (wordBytes (linkage.address "stub_entry"))
  name : memory.load (page + 24) (text.length + 1) = some (text ++ [0])

/-- The code of `stub_entry`: `pop %rdi` and `jmp stub`. -/
def EntryCode (linkage : Linkage) (memory : Memory 64) : Prop :=
  let entry := linkage.address "stub_entry"
  ∃ displacement,
    memory.load entry 1 = some Instruction.popRdi.encode ∧
      memory.load (entry + 1) 5 =
        some (Instruction.jump displacement).encode ∧
      Instruction.displaced (entry + 6) displacement =
        linkage.address "stub"

/-- The quadword below the stack pointer is writable, and is no part of the
stub or of `stub_entry`. -/
structure StackClear
    (linkage : Linkage)
    (page : Word)
    (machine : Machine) : Prop where
  mapped : machine.memory.mapped (machine.rsp - 8) 8 = true
  page :
    ∀ address,
      distance page address < 16384 → 8 ≤ distance (machine.rsp - 8) address
  entry :
    ∀ address,
      distance (linkage.address "stub_entry") address < 6 →
        8 ≤ distance (machine.rsp - 8) address

/-- `stub(it)` was called: the string at `it + 19` is the name, the stack is
as it was before, and so is the memory apart from what is below it. -/
structure Reports
    (linkage : Linkage)
    (text : List Byte)
    (machine final : Machine) : Prop where
  called : final.rip = linkage.address "stub"
  name : cString final.memory (2 ^ 64) (final.rdi + 19) = some text
  stack : final.rsp = machine.rsp
  kept :
    ∀ address,
      8 ≤ distance (machine.rsp - 8) address →
        final.memory address = machine.memory address

section Parts

/-- A part of what is loaded. -/
theorem load_part
    {memory : Memory 64}
    {base : Word}
    {length : Nat}
    {bytes : List Byte}
    (loaded : memory.load base length = some bytes)
    (offset count : Nat)
    (inside : offset + count ≤ length) :
    memory.load (base + BitVec.ofNat 64 offset) count =
      some ((bytes.drop offset).take count) := by
  obtain ⟨sized, shown⟩ := Memory.load_eq_some.mp loaded
  refine Memory.load_eq_some.mpr ⟨?_, fun index below => ?_⟩
  · rw [List.length_take, List.length_drop]
    omega
  · rw [BitVec.add_assoc, ← BitVec.ofNat_add, shown _ (by omega),
      List.getElem?_take_of_lt below, List.getElem?_drop]

/-- A text in front of a zero is a string. -/
theorem cString_of_load
    {memory : Memory 64}
    {pointer : Word}
    {text : List Byte}
    (noZero : 0 ∉ text)
    (loaded :
      memory.load pointer (text.length + 1) = some (text ++ [0]))
    {fuel : Nat}
    (enough : text.length < fuel) :
    cString memory fuel pointer = some text := by
  induction text generalizing pointer fuel with
  | nil =>
      obtain ⟨fuel, rfl⟩ := Nat.exists_eq_succ_of_ne_zero (Nat.ne_zero_of_lt enough)
      obtain ⟨first, _⟩ := X86.load_cons loaded
      rw [cString, first]
      rfl
  | cons byte rest inductionHypothesis =>
      obtain ⟨fuel, rfl⟩ := Nat.exists_eq_succ_of_ne_zero (Nat.ne_zero_of_lt enough)
      obtain ⟨notZero, noZero⟩ := not_or.mp (mt List.mem_cons.mpr noZero)
      have whole :
          memory.load pointer (byte :: (rest ++ [0])).length =
            some (byte :: (rest ++ [0])) := by
        simpa using loaded
      obtain ⟨first, later⟩ := X86.load_cons whole
      rw [List.length_append] at later
      have shorter : rest.length < fuel := by
        rw [List.length_cons] at enough
        omega
      rw [cString, first]
      simp only [Ne.symm notZero, if_false,
        inductionHypothesis noZero later shorter]
      rfl

/-- A string has no zero in it. -/
theorem noZero_of_cString
    {memory : Memory 64}
    {fuel : Nat}
    {pointer : Word}
    {text : List Byte}
    (read : cString memory fuel pointer = some text) :
    0 ∉ text ∧ text.length < fuel := by
  induction fuel generalizing pointer text with
  | zero =>
      cases read
  | succ fuel inductionHypothesis =>
      rw [cString] at read
      cases here : memory pointer with
      | none =>
          simp [here] at read
      | some byte =>
          simp only [here] at read
          split at read
          next terminator =>
            cases read
            exact ⟨List.not_mem_nil, Nat.succ_pos _⟩
          next proper =>
            obtain ⟨rest, restRead, rfl⟩ := Option.map_eq_some_iff.mp read
            obtain ⟨noZero, short⟩ := inductionHypothesis restRead
            refine ⟨?_, Nat.succ_lt_succ short⟩
            rw [List.mem_cons, not_or]
            exact ⟨Ne.symm proper, noZero⟩

/-- How far a part of a range lies past its base. -/
theorem distance_part
    {base : Word}
    {index bound : Nat}
    (offset : Nat)
    (inside : offset + index < min bound (2 ^ 64)) :
    distance base
        (base + BitVec.ofNat 64 offset + BitVec.ofNat 64 index) <
      bound := by
  rw [BitVec.add_assoc, ← BitVec.ofNat_add, distance_add _ (by omega)]
  omega

/-- An address in front of the base of a store is out of its reach. -/
theorem distance_before
    {base : Word}
    {index length : Nat}
    (offset : Nat)
    (before : index < offset)
    (small : offset + length ≤ 2 ^ 64) :
    length ≤
      distance (base + BitVec.ofNat 64 offset)
        (base + BitVec.ofNat 64 index) := by
  by_cases empty : length = 0
  · omega
  have place : distance base (base + BitVec.ofNat 64 index) = index :=
    distance_add _ (by omega)
  rw [distance_passed base _ (by omega) (by omega), place]
  omega

end Parts

/-- The call of the next instruction. -/
theorem StubAt.calls
    {linkage : Linkage}
    {page : Word}
    {text : List Byte}
    {machine : Machine}
    (stubAt : StubAt linkage machine.memory page text)
    (machineAt : machine.rip = page)
    (mapped : machine.memory.mapped (machine.rsp - 8) 8 = true) :
    X86.step machine =
      some { machine with
        rip := page + 5
        rsp := machine.rsp - 8
        memory :=
          machine.memory.store (machine.rsp - 8) (wordBytes (page + 5)) } := by
  have loaded :
      machine.memory.load machine.rip 5 =
        some (Instruction.call 0).encode := by
    have part := load_part stubAt.code 0 5 (by omega)
    rw [BitVec.add_zero] at part
    rw [machineAt, part]
    rfl
  have next : Instruction.displaced (page + 5) 0 = page + 5 :=
    BitVec.add_zero _
  rw [X86.step_call loaded mapped, machineAt, next]
  rfl

/-- The jump to `stub_entry`. -/
theorem StubAt.enters
    {linkage : Linkage}
    {page : Word}
    {text : List Byte}
    {machine : Machine}
    (stubAt : StubAt linkage machine.memory page text)
    (machineAt : machine.rip = page + 5) :
    X86.step machine =
      some { machine with rip := linkage.address "stub_entry" } := by
  have loaded :
      machine.memory.load machine.rip 6 =
        some (Instruction.jumpIndirect 5).encode := by
    rw [machineAt]
    exact load_part stubAt.code 5 6 (by omega)
  refine X86.step_jumpIndirect loaded ?_
  have target :
      Instruction.displaced (machine.rip + 6) 5 = page + 16 := by
    rw [machineAt, BitVec.add_assoc, Instruction.displaced, BitVec.add_assoc]
    rfl
  rw [target]
  exact stubAt.target

/-- What a store elsewhere leaves of a stub. -/
theorem StubAt.store
    {linkage : Linkage}
    {memory : Memory 64}
    {page target : Word}
    {text bytes : List Byte}
    (stubAt : StubAt linkage memory page text)
    (short : text.length ≤ 16359)
    (apart :
      ∀ address,
        distance page address < 16384 →
          bytes.length ≤ distance target address) :
    StubAt linkage (memory.store target bytes) page text where
  code :=
    X86.load_of_apart stubAt.code fun index below =>
      apart _ (by rw [distance_add _ (by omega)]; omega)
  target :=
    X86.load_of_apart stubAt.target fun index below =>
      apart _ (distance_part 16 (by omega))
  name :=
    X86.load_of_apart stubAt.name fun index below =>
      apart _ (distance_part 24 (by omega))

section Making

variable
  (linkage : Linkage)
  (name : List Byte)
  (memory : Memory 64)
  (page : Word)

/-- The memory that `generate_stub` leaves. -/
def stubbed : Memory 64 :=
  (((memory.fill page 16384 (some 0)).store page stubCode).store
      (page + BitVec.ofNat 64 16)
      (wordBytes (linkage.address "stub_entry"))).store
    (page + BitVec.ofNat 64 24) name

theorem stubbed_code
    (short : name.length ≤ 16359) :
    (stubbed linkage name memory page).load page 11 = some stubCode := by
  have length : stubCode.length = 11 := rfl
  have stored :=
    @Memory.load_store 64 (memory.fill page 16384 (some 0)) page stubCode 0 11
      (by rw [length]; decide) (by rw [length])
  rw [BitVec.add_zero] at stored
  refine X86.load_of_apart (X86.load_of_apart stored ?_) ?_
  · intro index below
    rw [length_wordBytes]
    exact distance_before 16 (by omega) (by omega)
  · intro index below
    exact distance_before 24 (by omega) (by omega)

theorem stubbed_target
    (short : name.length ≤ 16359) :
    (stubbed linkage name memory page).load (page + BitVec.ofNat 64 16) 8 =
      some (wordBytes (linkage.address "stub_entry")) := by
  have stored :=
    @Memory.load_store 64
      ((memory.fill page 16384 (some 0)).store page stubCode)
      (page + BitVec.ofNat 64 16) (wordBytes (linkage.address "stub_entry"))
      0 8 (by rw [length_wordBytes]; decide) (by rw [length_wordBytes])
  rw [BitVec.add_zero] at stored
  refine X86.load_of_apart stored fun index below => ?_
  rw [BitVec.add_assoc, ← BitVec.ofNat_add]
  exact distance_before 24 (by omega) (by omega)

theorem stubbed_name
    (short : name.length ≤ 16359) :
    (stubbed linkage name memory page).load (page + BitVec.ofNat 64 24)
        (name.length + 1) =
      some (name ++ [0]) := by
  refine Memory.load_eq_some.mpr ⟨List.length_append, fun index below => ?_⟩
  have place :
      distance (page + BitVec.ofNat 64 24)
          (page + BitVec.ofNat 64 24 + BitVec.ofNat 64 index) =
        index :=
    distance_add _ (by omega)
  rw [stubbed]
  by_cases inName : index < name.length
  · rw [Memory.store_inside (by rw [place]; exact inName), place,
      List.getElem?_append_left inName]
  · -- The zero that ends the name is one of the fresh page.
    rw [Memory.store_outside (by omega), BitVec.add_assoc,
      ← BitVec.ofNat_add]
    have inPage :
        distance page (page + BitVec.ofNat 64 (24 + index)) = 24 + index :=
      distance_add _ (by omega)
    have pastTarget :=
      @distance_advance 64 page (page + BitVec.ofNat 64 (24 + index)) 16
        (by omega)
    have length : stubCode.length = 11 := rfl
    rw [Memory.store_outside (by rw [length_wordBytes, pastTarget]; omega),
      Memory.store_outside (by omega), Memory.fill_inside (by omega),
      List.getElem?_append_right (by omega),
      show index - name.length = 0 by omega]
    rfl

end Making

/-- `generate_stub` makes a stub for its name. -/
theorem generateStub_eq_ok
    {linkage : Linkage}
    {name : List Byte}
    {page : Word}
    {s s' : LinkState}
    (run : generateStub linkage name s = .ok (page, s')) :
    linkage.stubPage s.stubs = some page ∧
      s' = { s with
        memory := stubbed linkage name s.memory page
        stubs := s.stubs + 1 } := by
  unfold generateStub at run
  cases mapped : linkage.stubPage s.stubs with
  | none =>
      simp [mapped] at run
  | some fresh =>
      simp only [mapped, bind_eq_ok] at run
      obtain ⟨first, firstRun, second, secondRun, third, thirdRun, last⟩ := run
      obtain ⟨-, rfl⟩ := storeAt_eq_ok.mp firstRun
      obtain ⟨-, rfl⟩ := storeAt_eq_ok.mp secondRun
      obtain ⟨-, rfl⟩ := storeAt_eq_ok.mp thirdRun
      cases last
      exact ⟨rfl, rfl⟩

theorem stubAt_stubbed
    (linkage : Linkage)
    {name : List Byte}
    (memory : Memory 64)
    (page : Word)
    (short : name.length ≤ 16359) :
    StubAt linkage (stubbed linkage name memory page) page name where
  code := stubbed_code linkage name memory page short
  target := stubbed_target linkage name memory page short
  name := stubbed_name linkage name memory page short

/-- Calling a stub calls `stub` with the name of the missing function. -/
theorem StubAt.reports
    {linkage : Linkage}
    {page : Word}
    {text : List Byte}
    {machine : Machine}
    (stubAt : StubAt linkage machine.memory page text)
    (entryCode : EntryCode linkage machine.memory)
    (clear : StackClear linkage page machine)
    (machineAt : machine.rip = page)
    (noZero : 0 ∉ text)
    (short : text.length ≤ 16359) :
    ∃ final,
      X86.steps 4 machine = some final ∧
        Reports linkage text machine final := by
  obtain ⟨displacement, pops, jumps, toStub⟩ := entryCode
  let memory := machine.memory.store (machine.rsp - 8) (wordBytes (page + 5))
  let entry := linkage.address "stub_entry"
  let called : Machine := ⟨page + 5, machine.rsp - 8, machine.rdi, memory⟩
  let entered : Machine := { called with rip := entry }
  let popped : Machine := ⟨entry + 1, machine.rsp, page + 5, memory⟩
  let final : Machine := { popped with rip := linkage.address "stub" }
  have left : StubAt linkage memory page text := stubAt.store short clear.page
  have calls : X86.step machine = some called :=
    stubAt.calls machineAt clear.mapped
  have enters : X86.step called = some entered :=
    @StubAt.enters linkage page text called left rfl
  have pops : X86.step entered = some popped := by
    have loaded :
        memory.load entry 1 = some Instruction.popRdi.encode :=
      X86.load_of_apart pops fun index below =>
        clear.entry _ (by rw [distance_add _ (by omega)]; omega)
    have pushed :
        memory.load (machine.rsp - 8) 8 = some (wordBytes (page + 5)) := by
      have stored :=
        @Memory.load_store 64 machine.memory (machine.rsp - 8)
          (wordBytes (page + 5)) 0 8 (by rw [length_wordBytes]; decide)
          (by rw [length_wordBytes])
      rw [BitVec.add_zero] at stored
      exact stored
    have back : machine.rsp - 8 + 8 = machine.rsp :=
      BitVec.sub_add_cancel ..
    rw [@X86.step_popRdi entered _ loaded pushed]
    show some { entered with rip := _, rsp := machine.rsp - 8 + 8, rdi := _ } = _
    rw [back]
  have jumps : X86.step popped = some final := by
    have loaded :
        memory.load (entry + 1) 5 =
          some (Instruction.jump displacement).encode :=
      X86.load_of_apart jumps fun index below =>
        clear.entry _ (distance_part 1 (by omega))
    have next : entry + 1 + 5 = entry + 6 := BitVec.add_assoc ..
    rw [@X86.step_jump popped _ loaded]
    show some { popped with rip := Instruction.displaced (entry + 1 + 5) _ } = _
    rw [next, toStub]
  refine ⟨final, ?_, rfl, ?_, rfl, fun address beyond => ?_⟩
  · simp only [X86.steps, calls, enters, pops, jumps, Option.bind_eq_bind,
      Option.bind_some]
  · have place : final.rdi + 19 = page + 24 := BitVec.add_assoc ..
    rw [place]
    exact cString_of_load noZero left.name (by omega)
  · exact Memory.store_outside beyond

end Hamachi.Loader
