import Hamachi.RelocationTables

namespace Hamachi.Loader

/-!
# One entry of a relocation table

The reads of an entry see what the image had as long as the stores before it
leave those bytes alone.  Every entry then stores eight bytes at its target:
those of the definition, the address of the function, a fresh stub, or the
placeholder of `lookup_data`.
-/

/-! ## Targets -/

theorem Entry.length_copy
    {entry : Entry}
    (copy : entry.kind = copyKind) :
    entry.length = entry.stSize.toNat :=
  if_pos copy

theorem Entry.length_slot
    {entry : Entry}
    (slot : entry.kind ≠ copyKind) :
    entry.length = 8 :=
  if_neg slot

/-- How far a byte that the entry touches lies past its target. -/
theorem Entry.distance_target
    {entry : Entry}
    {index : Nat}
    (inside : index < max 8 entry.length) :
    distance entry.a (entry.a + BitVec.ofNat 64 index) = index := by
  refine distance_add entry.a ?_
  have size := entry.stSize.isLt
  by_cases copy : entry.kind = copyKind
  · rw [Entry.length_copy copy] at inside
    omega
  · rw [Entry.length_slot copy] at inside
    omega

theorem Entry.touches_target
    {entry : Entry}
    {index : Nat}
    (inside : index < max 8 entry.length) :
    entry.Touches (entry.a + BitVec.ofNat 64 index) := by
  rw [Entry.Touches, Entry.distance_target inside]
  exact inside

/-! ## Reads -/

theorem deref_eq_ok
    {memory : Memory 64}
    {pointer : Word}
    {length number : Nat} :
    deref memory pointer length = .ok number ↔
      ∃ bytes, memory.load pointer length = some bytes ∧
        littleEndian bytes = number := by
  unfold deref Memory.number
  cases memory.load pointer length with
  | none =>
      simp
  | some bytes =>
      simp

theorem derefWord_eq_ok
    {memory : Memory 64}
    {pointer value : Word} :
    derefWord memory pointer = .ok value ↔
      ∃ bytes, memory.load pointer 8 = some bytes ∧
        wordBytes value = bytes := by
  unfold derefWord deref Memory.number
  cases loaded : memory.load pointer 8 with
  | none =>
      simp [bind, Except.bind]
  | some bytes =>
      have eight := (Memory.load_eq_some.mp loaded).1
      have small : littleEndian bytes < 2 ^ 64 := by
        have bound := littleEndian_lt bytes
        rw [eight] at bound
        exact bound
      have back := littleEndianBytes_littleEndian bytes
      rw [eight] at back
      simp only [Option.map_some, ok_bind, Option.some.injEq,
        exists_eq_left']
      constructor
      · intro read
        cases read
        rw [wordBytes, BitVec.toNat_ofNat, Nat.mod_eq_of_lt small, back]
      · intro same
        have number : littleEndian (wordBytes value) = value.toNat :=
          (littleEndian_littleEndianBytes 8 value.toNat).trans
            (Nat.mod_eq_of_lt value.isLt)
        rw [same] at number
        rw [number, BitVec.ofNat_toNat, BitVec.setWidth_eq]
        rfl

theorem storeAt_eq_ok
    {memory stored : Memory 64}
    {pointer : Word}
    {bytes : List Byte} :
    storeAt memory pointer bytes = .ok stored ↔
      memory.mapped pointer bytes.length = true ∧
        memory.store pointer bytes = stored := by
  unfold storeAt
  split
  next mapped =>
    simp [mapped]
  next unmapped =>
    simp [unmapped]

section Same

variable
  {memory current : Memory 64}
  {pointer : Word}
  {length : Nat}

/-- A load of bytes that are as they were. -/
theorem load_same
    {bytes : List Byte}
    (same :
      ∀ index < length,
        (memory (pointer + BitVec.ofNat 64 index)).isSome →
        current (pointer + BitVec.ofNat 64 index) =
          memory (pointer + BitVec.ofNat 64 index))
    (loaded : memory.load pointer length = some bytes) :
    current.load pointer length = some bytes := by
  obtain ⟨sized, shown⟩ := Memory.load_eq_some.mp loaded
  refine Memory.load_eq_some.mpr ⟨sized, ?_⟩
  intro index inside
  have here := shown index inside
  rw [List.getElem?_eq_getElem (by omega)] at here
  rw [same index inside (by rw [here]; rfl)]
  exact shown index inside

theorem deref_same
    {number : Nat}
    (same :
      ∀ index < length,
        (memory (pointer + BitVec.ofNat 64 index)).isSome →
        current (pointer + BitVec.ofNat 64 index) =
          memory (pointer + BitVec.ofNat 64 index))
    (read : deref memory pointer length = .ok number) :
    deref current pointer length = .ok number := by
  obtain ⟨bytes, loaded, value⟩ := deref_eq_ok.mp read
  exact deref_eq_ok.mpr ⟨bytes, load_same same loaded, value⟩

theorem derefWord_same
    {value : Word}
    (same :
      ∀ index < 8,
        (memory (pointer + BitVec.ofNat 64 index)).isSome →
        current (pointer + BitVec.ofNat 64 index) =
          memory (pointer + BitVec.ofNat 64 index))
    (read : derefWord memory pointer = .ok value) :
    derefWord current pointer = .ok value := by
  obtain ⟨bytes, loaded, value⟩ := derefWord_eq_ok.mp read
  exact derefWord_eq_ok.mpr ⟨bytes, load_same same loaded, value⟩

/-- A word that is mapped can be read, whatever it is. -/
theorem derefWord_mapped
    (mapped : current.mapped pointer 8 = true) :
    ∃ value, derefWord current pointer = .ok value := by
  obtain ⟨bytes, loaded⟩ := Memory.exists_load (Memory.mapped_iff.mp mapped)
  refine ⟨BitVec.ofNat 64 (littleEndian bytes), ?_⟩
  simp only [Loader.derefWord, Loader.deref, Memory.number, loaded,
    Option.map_some, ok_bind]
  rfl

/-- A string whose bytes are as they were. -/
theorem cString_same
    {fuel : Nat}
    {text : List Byte}
    (same :
      ∀ index ≤ text.length,
        (memory (pointer + BitVec.ofNat 64 index)).isSome →
        current (pointer + BitVec.ofNat 64 index) =
          memory (pointer + BitVec.ofNat 64 index))
    (read : cString memory fuel pointer = some text) :
    cString current fuel pointer = some text := by
  induction fuel generalizing pointer text with
  | zero =>
      simp [Loader.cString] at read
  | succ fuel inductionHypothesis =>
      rw [Loader.cString] at read ⊢
      cases here : memory pointer with
      | none =>
          simp [here] at read
      | some byte =>
          have first := same 0 (Nat.zero_le _)
          simp only [BitVec.add_zero] at first
          rw [first (by rw [here]; rfl)]
          simp only [here] at read ⊢
          split at read
          next terminator =>
            rw [if_pos terminator]
            exact read
          next proper =>
            obtain ⟨rest, restRead, rfl⟩ := Option.map_eq_some_iff.mp read
            rw [if_neg proper, inductionHypothesis ?_ restRead]
            · rfl
            · intro index inside
              have later := same (index + 1) (Nat.succ_le_succ inside)
              rw [Nat.add_comm index 1, BitVec.ofNat_add,
                ← BitVec.add_assoc] at later
              exact later

end Same

/-- What a successful read of an entry has read. -/
theorem readRelocation_eq_ok
    {memory : Memory 64}
    {symtab strtab place : Word}
    {entry : Relocation} :
    readRelocation memory symtab strtab place = .ok entry ↔
      ∃ a b c offset text,
        derefWord memory place = .ok a ∧
        derefWord memory (place + 8) = .ok b ∧
        derefWord memory (place + 16) = .ok c ∧
        deref memory (symtab + (b >>> 32) * 24) 4 = .ok offset ∧
        cString memory (2 ^ 64) (strtab + BitVec.ofNat 64 offset) =
          some text ∧
        entry =
          ⟨a, b.setWidth 32, symtab + (b >>> 32) * 24,
            strtab + BitVec.ofNat 64 offset, text⟩ := by
  unfold readRelocation
  simp only [bind_eq_ok]
  constructor
  · rintro ⟨a, aRead, b, bRead, c, cRead, offset, offsetRead, rest⟩
    split at rest
    · cases rest
    next text textRead =>
      cases rest
      exact ⟨a, b, c, offset, text, aRead, bRead, cRead, offsetRead,
        textRead, rfl⟩
  · rintro ⟨a, b, c, offset, text, aRead, bRead, cRead, offsetRead,
      textRead, rfl⟩
    refine ⟨a, aRead, b, bRead, c, cRead, offset, offsetRead, ?_⟩
    rw [textRead]

/-- The reads of an entry, when what it depends on is as it was. -/
theorem readRelocation_same
    {memory current : Memory 64}
    {symtab strtab place : Word}
    {entry : Relocation}
    (placeSame :
      ∀ index < 16,
        (memory (place + BitVec.ofNat 64 index)).isSome →
        current (place + BitVec.ofNat 64 index) =
          memory (place + BitVec.ofNat 64 index))
    (symbolSame :
      ∀ index < 4,
        (memory (entry.sym + BitVec.ofNat 64 index)).isSome →
        current (entry.sym + BitVec.ofNat 64 index) =
          memory (entry.sym + BitVec.ofNat 64 index))
    (nameSame :
      ∀ index ≤ entry.text.length,
        (memory (entry.name + BitVec.ofNat 64 index)).isSome →
        current (entry.name + BitVec.ofNat 64 index) =
          memory (entry.name + BitVec.ofNat 64 index))
    (mapped :
      ∀ address, (memory address).isSome → (current address).isSome)
    (read : readRelocation memory symtab strtab place = .ok entry) :
    readRelocation current symtab strtab place = .ok entry := by
  obtain ⟨a, b, c, offset, text, aRead, bRead, cRead, offsetRead, textRead,
    rfl⟩ := readRelocation_eq_ok.mp read
  obtain ⟨addend, loaded, -⟩ := derefWord_eq_ok.mp cRead
  obtain ⟨sized, shown⟩ := Memory.load_eq_some.mp loaded
  obtain ⟨other, otherRead⟩ :
      ∃ other, derefWord current (place + 16) = .ok other := by
    refine derefWord_mapped (Memory.mapped_iff.mpr fun index inside => ?_)
    refine mapped _ ?_
    rw [shown index inside, List.getElem?_eq_getElem (by omega)]
    rfl
  refine readRelocation_eq_ok.mpr
    ⟨a, b, other, offset, text, ?_, ?_, otherRead, ?_, ?_, rfl⟩
  · exact derefWord_same
      (fun index small => placeSame index (by omega)) aRead
  · refine derefWord_same (fun index small => ?_) bRead
    have later := placeSame (8 + index) (by omega)
    rw [BitVec.ofNat_add, ← BitVec.add_assoc] at later
    exact later
  · exact deref_same symbolSame offsetRead
  · exact cString_same nameSame textRead

/-- The current memory maps all that the image maps, and has what the image
had outside of the targets. -/
structure Agrees
    (entries : List Entry)
    (memory current : Memory 64) :
    Prop where
  kept :
    ∀ address, (memory address).isSome → Free entries address →
      current address = memory address
  mapped :
    ∀ address, (memory address).isSome → (current address).isSome

theorem agrees_refl (entries : List Entry) (memory : Memory 64) :
    Agrees entries memory memory :=
  ⟨fun _ _ _ => rfl, fun _ known => known⟩

/-- The reads of an entry, when no entry touches what they read. -/
theorem Agrees.readRelocation
    {entries : List Entry}
    {memory current : Memory 64}
    {symtab strtab place : Word}
    {entry : Relocation}
    (agrees : Agrees entries memory current)
    (placeFree :
      ∀ index < 24, Free entries (place + BitVec.ofNat 64 index))
    (symbolFree :
      ∀ index < 24, Free entries (entry.sym + BitVec.ofNat 64 index))
    (nameFree :
      ∀ index ≤ entry.text.length,
        Free entries (entry.name + BitVec.ofNat 64 index))
    (read : readRelocation memory symtab strtab place = .ok entry) :
    readRelocation current symtab strtab place = .ok entry :=
  readRelocation_same
    (fun index small known =>
      agrees.kept _ known (placeFree index (by omega)))
    (fun index small known =>
      agrees.kept _ known (symbolFree index (by omega)))
    (fun index inside known => agrees.kept _ known (nameFree index inside))
    agrees.mapped read

/-! ## Stores -/

/-- What both loops do with an entry of the kinds that belong there. -/
def assign
    (linkage : Linkage)
    (entry : Relocation)
    (s : LinkState) :
    Except Stop LinkState :=
  if entry.kind = copyKind then
    assignData linkage entry s
  else
    assignFunction linkage entry s

theorem applyRela_eq
    {linkage : Linkage}
    {entry : Relocation}
    (kinds : entry.kind = 5 ∨ entry.kind = 6 ∨ entry.kind = 7) :
    applyRela linkage entry = assign linkage entry := by
  funext s
  rcases kinds with kind | kind | kind <;>
    simp [applyRela, assign, copyKind, kind]

theorem applyJmprel_eq
    {linkage : Linkage}
    {entry : Relocation}
    (kind : entry.kind = 7) :
    applyJmprel linkage entry = assign linkage entry := by
  funext s
  simp [applyJmprel, assign, copyKind, kind]

/-- The image has the address. -/
def Known (memory : Memory 64) (address : Word) : Prop :=
  (memory address).isSome

/-- On the addresses that matter, one memory is the other with eight bytes
stored at the entry's target. -/
structure StoresAt
    (entry : Entry)
    (matters : Word → Prop)
    (before after : Memory 64)
    (bytes : List Byte) :
    Prop where
  eight : bytes.length = 8
  stored :
    ∀ address, matters address →
      after address = before.store entry.a bytes address

@[simp] theorem length_wordBytes (word : Word) :
    (wordBytes word).length = 8 :=
  length_littleEndianBytes 8 word.toNat

/-- Storing at a target keeps the agreement. -/
theorem Agrees.store
    {entries : List Entry}
    {memory before after : Memory 64}
    {entry : Entry}
    {bytes : List Byte}
    (agrees : Agrees entries memory before)
    (member : entry ∈ entries)
    (stores : StoresAt entry (Known memory) before after bytes) :
    Agrees entries memory after where
  kept address known free := by
    have untouched := free entry member
    rw [stores.stored address known, Memory.store_outside]
    · exact agrees.kept address known free
    · rw [stores.eight]
      unfold Entry.Touches at untouched
      omega
  mapped address known := by
    rw [stores.stored address known]
    exact Memory.isSome_store (agrees.mapped address known)

/-- The last assignment of both loops' bodies. -/
theorem storesAt_of_storeAt
    {matters : Word → Prop}
    {before after : Memory 64}
    {entry : Entry}
    {word : Word}
    (run : storeAt before entry.a (wordBytes word) = .ok after) :
    StoresAt entry matters before after (wordBytes word) := by
  obtain ⟨-, rfl⟩ := storeAt_eq_ok.mp run
  exact ⟨length_wordBytes word, fun _ _ => rfl⟩

/-! ## Data symbols -/

theorem lookupData_data
    {linkage : Linkage}
    {text : List Byte}
    {tgt : Word}
    {s : LinkState}
    {pointer : SymbolPointer}
    {row : SymbolDesc}
    (found : linkage.lookup text = .ok (some (pointer, row)))
    (data : row.isFn = false)
    (proper : 1 < tgt) :
    lookupData linkage text tgt s =
      derefWord s.memory (linkage.value row) >>= fun ans =>
        .ok (ans,
          { s with
            relocAddr := fun other =>
              if other = pointer then tgt else s.relocAddr other }) := by
  have above : tgt > 1 := proper
  simp only [lookupData, found, ok_bind, data, above, if_true,
    Bool.not_false]

/-- The placeholder ends in `0xef`. -/
theorem unresolved_marked (s : LinkState) :
    (wordBytes (unresolved s).1)[0]? = some 0xef := by
  have low :
      BitVec.ofNat 8 (unresolved s).1.toNat = (unresolved s).1.setWidth 8 :=
    BitVec.ofNat_toNat ..
  have shifted : (BitVec.ofNat 64 s.counter <<< 32).setWidth 8 = 0 := by
    ext index inside
    simp
  show some (BitVec.ofNat 8 (unresolved s).1.toNat) = some 0xef
  rw [low, unresolved, BitVec.setWidth_or, shifted]
  rfl

/-- `lookup_data` answers with the content of a data symbol that it finds, or
with the placeholder. -/
theorem lookupData_cases
    {linkage : Linkage}
    {text : List Byte}
    {tgt value : Word}
    {s s' : LinkState}
    (proper : 1 < tgt)
    (run : lookupData linkage text tgt s = .ok (value, s')) :
    s'.memory = s.memory ∧
      ((∃ pointer row,
          linkage.lookup text = .ok (some (pointer, row)) ∧
            row.isFn = false ∧
            derefWord s.memory (linkage.value row) = .ok value) ∨
        (wordBytes value)[0]? = some 0xef) := by
  have answered := run
  unfold lookupData at answered
  obtain ⟨result, looked, -⟩ := bind_eq_ok.mp answered
  cases result with
  | none =>
      simp only [lookupData, looked, ok_bind] at run
      cases run
      exact ⟨rfl, .inr (unresolved_marked s)⟩
  | some found =>
      obtain ⟨pointer, row⟩ := found
      cases function : row.isFn with
      | true =>
          simp [lookupData, looked, function] at run
          have same := congrArg Prod.fst run
          have kept := congrArg Prod.snd run
          simp only at same kept
          subst same kept
          exact ⟨rfl, .inr (unresolved_marked s)⟩
      | false =>
          rw [lookupData_data looked function proper] at run
          obtain ⟨ans, read, stored⟩ := bind_eq_ok.mp run
          cases stored
          exact ⟨rfl, .inl ⟨pointer, row, looked, function, read⟩⟩

/-! ## Functions -/

theorem lookupFunction_function
    {linkage : Linkage}
    {text : List Byte}
    {s : LinkState}
    {pointer : SymbolPointer}
    {row : SymbolDesc}
    (found : linkage.lookup text = .ok (some (pointer, row)))
    (function : row.isFn = true) :
    lookupFunction linkage text s = .ok (linkage.value row, s) := by
  simp only [lookupFunction, found, ok_bind, function, if_true]

/-- A stub lies within its page. -/
theorem generateStub_cases
    {linkage : Linkage}
    {name : List Byte}
    {page : Word}
    {s s' : LinkState}
    (short : name.length ≤ 16360)
    (run : generateStub linkage name s = .ok (page, s')) :
    linkage.stubPage s.stubs = some page ∧
      ∀ address, 16384 ≤ distance page address →
        s'.memory address = s.memory address := by
  unfold generateStub at run
  cases mapped : linkage.stubPage s.stubs with
  | none =>
      simp [mapped] at run
  | some fresh =>
      simp only [mapped, bind_eq_ok] at run
      obtain ⟨first, firstRun, second, secondRun, third, thirdRun, last⟩ := run
      obtain ⟨-, rfl⟩ := storeAt_eq_ok.mp firstRun
      obtain ⟨-, rfl⟩ := storeAt_eq_ok.mp secondRun
      obtain ⟨-, rfl⟩ := storeAt_eq_ok.mp thirdRun
      cases last
      refine ⟨rfl, ?_⟩
      intro address beyond
      have entryPlace :
          distance (page + BitVec.ofNat 64 16) address =
            distance page address - 16 :=
        distance_advance page address (by omega)
      have namePlace :
          distance (page + BitVec.ofNat 64 24) address =
            distance page address - 24 :=
        distance_advance page address (by omega)
      have code : stubCode.length = 11 := rfl
      simp only [BitVec.ofNat_eq_ofNat]
      rw [Memory.store_outside (by rw [namePlace]; omega),
        Memory.store_outside
          (by rw [entryPlace, length_wordBytes]; omega),
        Memory.store_outside (by rw [code]; omega),
        Memory.fill_outside beyond]

/-- `lookup_function` answers with the address of a function that it finds, or
with a fresh stub. -/
theorem lookupFunction_cases
    {linkage : Linkage}
    {text : List Byte}
    {value : Word}
    {s s' : LinkState}
    (short : text.length ≤ 16360)
    (run : lookupFunction linkage text s = .ok (value, s')) :
    (∃ pointer row,
        linkage.lookup text = .ok (some (pointer, row)) ∧
          row.isFn = true ∧ value = linkage.value row ∧ s' = s) ∨
      ∃ stub, linkage.stubPage stub = some value ∧
        ∀ address, 16384 ≤ distance value address →
          s'.memory address = s.memory address := by
  have answered := run
  unfold lookupFunction at answered
  obtain ⟨result, looked, -⟩ := bind_eq_ok.mp answered
  cases result with
  | none =>
      simp only [lookupFunction, looked, ok_bind] at run
      exact .inr ⟨_, generateStub_cases short run⟩
  | some found =>
      obtain ⟨pointer, row⟩ := found
      cases function : row.isFn with
      | true =>
          rw [lookupFunction_function looked function] at run
          cases run
          exact .inl ⟨pointer, row, looked, function, rfl, rfl⟩
      | false =>
          simp only [lookupFunction, looked, ok_bind, function,
            Bool.false_eq_true, if_false] at run
          exact .inr ⟨_, generateStub_cases short run⟩

/-! ## Assignments -/

section Assignments

variable
  {linkage : Linkage}
  {entry : Entry}
  {s s' : LinkState}

/-- What a copy's definition holds is a word. -/
theorem bytes_of_derefWord
    {memory : Memory 64}
    {value : Word}
    (copy : entry.kind = copyKind)
    (read : derefWord memory (linkage.value entry.row) = .ok value) :
    ∀ index < 8,
      (wordBytes value)[index]? = entry.byte linkage memory index := by
  obtain ⟨bytes, loaded, rfl⟩ := derefWord_eq_ok.mp read
  intro index inside
  rw [Entry.byte, if_pos copy]
  exact ((Memory.load_eq_some.mp loaded).2 index inside).symm

/-- An entry whose symbol is resolved is stored the bytes that belong there. -/
theorem assign_resolved
    (resolved : entry.Resolved linkage)
    (run : assign linkage entry.toRelocation s = .ok s') :
    ∃ value,
      (∀ index < 8,
        (wordBytes value)[index]? = entry.byte linkage s.memory index) ∧
        s.memory.mapped entry.a 8 = true ∧
        s'.memory = s.memory.store entry.a (wordBytes value) := by
  obtain ⟨pointer, found⟩ := resolved.found
  by_cases copy : entry.kind = copyKind
  · obtain ⟨proper, data⟩ := resolved.copy copy
    rw [assign, if_pos copy, assignData,
      lookupData_data found data proper] at run
    obtain ⟨⟨value, answered⟩, looked, last⟩ := bind_eq_ok.mp run
    obtain ⟨answer, read, isAnswer⟩ := bind_eq_ok.mp looked
    cases isAnswer
    obtain ⟨stored, storing, result⟩ := bind_eq_ok.mp last
    cases result
    obtain ⟨mapped, rfl⟩ := storeAt_eq_ok.mp storing
    rw [length_wordBytes] at mapped
    exact ⟨value, bytes_of_derefWord copy read, mapped, rfl⟩
  · rw [assign, if_neg copy, assignFunction,
      lookupFunction_function found (resolved.slot copy), ok_bind] at run
    obtain ⟨stored, storing, result⟩ := bind_eq_ok.mp run
    cases result
    obtain ⟨mapped, rfl⟩ := storeAt_eq_ok.mp storing
    rw [length_wordBytes] at mapped
    refine ⟨linkage.value entry.row, fun index _ => ?_, mapped, rfl⟩
    rw [Entry.byte, if_neg copy]

/-- An entry whose symbol is resolved can be carried out. -/
theorem assign_ends
    (resolved : entry.Resolved linkage)
    (target : s.memory.mapped entry.a 8 = true)
    (definition :
      entry.kind = copyKind →
        s.memory.mapped (linkage.value entry.row) 8 = true) :
    ∃ s', assign linkage entry.toRelocation s = .ok s' := by
  obtain ⟨pointer, found⟩ := resolved.found
  have stores (value : Word) :
      storeAt s.memory entry.a (wordBytes value) =
        .ok (s.memory.store entry.a (wordBytes value)) := by
    rw [storeAt, length_wordBytes, if_pos target]
  by_cases copy : entry.kind = copyKind
  · obtain ⟨proper, data⟩ := resolved.copy copy
    obtain ⟨value, read⟩ := derefWord_mapped (definition copy)
    rw [assign, if_pos copy, assignData,
      lookupData_data found data proper, read]
    simp only [ok_bind, stores]
    exact ⟨_, rfl⟩
  · rw [assign, if_neg copy, assignFunction,
      lookupFunction_function found (resolved.slot copy)]
    simp only [ok_bind, stores]
    exact ⟨_, rfl⟩

/-- The address lies on no page of a stub. -/
def OffStubs (linkage : Linkage) (address : Word) : Prop :=
  ∀ stub page, linkage.stubPage stub = some page →
    16384 ≤ distance page address

/-- An entry whose symbol is not resolved is stored the placeholder, or the
address of a stub. -/
theorem assign_unresolved
    {entries : List Entry}
    {memory : Memory 64}
    (telling : Telling linkage memory entries)
    (member : entry ∈ entries)
    (unresolved : ¬entry.Resolved linkage)
    (run : assign linkage entry.toRelocation s = .ok s') :
    ∃ value,
      (entry.kind = copyKind → (wordBytes value)[0]? = some 0xef) ∧
        (entry.kind ≠ copyKind →
          ∃ stub, linkage.stubPage stub = some value) ∧
        (∀ address, OffStubs linkage address → entry.Reaches address →
          (s.memory address).isSome) ∧
        ∀ address, OffStubs linkage address →
          s'.memory address =
            s.memory.store entry.a (wordBytes value) address := by
  have reached {current : Memory 64} {address : Word}
      (mapped : current.mapped entry.a 8 = true)
      (reaches : entry.Reaches address) :
      (current address).isSome := by
    have here := Memory.mapped_iff.mp mapped _ reaches
    rwa [add_distance] at here
  by_cases copy : entry.kind = copyKind
  · have proper := telling.proper entry member copy
    rw [assign, if_pos copy] at run
    obtain ⟨⟨value, answered⟩, looked, last⟩ := bind_eq_ok.mp run
    obtain ⟨stored, storing, result⟩ := bind_eq_ok.mp last
    cases result
    obtain ⟨sameMemory, answer⟩ := lookupData_cases proper looked
    simp only [sameMemory] at storing
    obtain ⟨mapped, rfl⟩ := storeAt_eq_ok.mp storing
    rw [length_wordBytes] at mapped
    refine ⟨value, fun _ => ?_, fun slot => absurd copy slot,
      fun address _ reaches => reached mapped reaches, fun _ _ => rfl⟩
    rcases answer with ⟨pointer, row, found, data, read⟩ | marked
    · obtain rfl := telling.sound entry member pointer row found
      exact absurd
        ⟨⟨pointer, found⟩, fun _ => ⟨proper, data⟩,
          fun slot => absurd copy slot⟩
        unresolved
    · exact marked
  · rw [assign, if_neg copy] at run
    obtain ⟨⟨value, answered⟩, looked, last⟩ := bind_eq_ok.mp run
    obtain ⟨stored, storing, result⟩ := bind_eq_ok.mp last
    cases result
    obtain ⟨mapped, rfl⟩ := storeAt_eq_ok.mp storing
    rw [length_wordBytes] at mapped
    rcases lookupFunction_cases (telling.short entry member) looked with
      ⟨pointer, row, found, function, -, -⟩ | ⟨stub, isStub, kept⟩
    · obtain rfl := telling.sound entry member pointer row found
      exact absurd
        ⟨⟨pointer, found⟩, fun isCopy => absurd isCopy copy,
          fun _ => function⟩
        unresolved
    · refine ⟨value, fun isCopy => absurd isCopy copy,
        fun _ => ⟨stub, isStub⟩, fun address off reaches => ?_,
        fun address off => Memory.store_congr (kept address ?_)⟩
      · rw [← kept address (off stub value isStub)]
        exact reached mapped reaches
      · exact off stub value isStub

end Assignments

end Hamachi.Loader
