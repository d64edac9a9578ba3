import Hamachi.RelocationCorrectness
import Hamachi.StubCalls

namespace Hamachi.Loader

/-!
# Calls out of a relocated image

After relocation a jump through a slot reaches the function that `lookup`
finds, or ends in `stub` with the name of the function that it does not find:
no later store of the loops reaches a stub, and no stub another one.
-/

open X86 (Machine Instruction)

/-- An image with its two relocation tables, of the kinds that belong there,
whose targets lie apart from each other and from what the loops read. -/
structure Slots
    (phdrs : List ProgramHeader)
    (memory : Memory 64)
    (dynamic : Dynamic)
    (rela jmprel : List Entry) :
    Prop where
  located : imageDynamic phdrs memory = .ok dynamic
  relaCount : rela.length = iterations dynamic.reladynSz.toNat 24
  jmprelCount : jmprel.length = iterations dynamic.relapltSz.toNat 24
  relaTable : Tabulates memory dynamic rela dynamic.reladyn
  jmprelTable : Tabulates memory dynamic jmprel dynamic.relaplt
  relaKinds :
    ∀ entry ∈ rela, entry.kind = 5 ∨ entry.kind = 6 ∨ entry.kind = 7
  jmprelKinds : ∀ entry ∈ jmprel, entry.kind = 7
  apart : (rela ++ jmprel).Pairwise Entry.Beside
  mapped :
    ∀ entry ∈ rela ++ jmprel, ∀ address,
      entry.Touches address → (memory address).isSome
  relaBytes :
    ∀ index < 24 * rela.length,
      Free (rela ++ jmprel) (dynamic.reladyn + BitVec.ofNat 64 index)
  jmprelBytes :
    ∀ index < 24 * jmprel.length,
      Free (rela ++ jmprel) (dynamic.relaplt + BitVec.ofNat 64 index)
  symbolBytes :
    ∀ entry ∈ rela ++ jmprel, ∀ index < 24,
      Free (rela ++ jmprel) (entry.sym + BitVec.ofNat 64 index)
  nameBytes :
    ∀ entry ∈ rela ++ jmprel, ∀ index ≤ entry.text.length,
      Free (rela ++ jmprel) (entry.name + BitVec.ofNat 64 index)

/-- `mmap` returns pages that nothing uses, and every name fits in one. -/
structure FreshPages
    (linkage : Linkage)
    (memory : Memory 64)
    (entries : List Entry) :
    Prop where
  fresh :
    ∀ stub page, linkage.stubPage stub = some page →
      ∀ address, distance page address < 16384 → memory address = none
  apart :
    ∀ stub page other otherPage,
      linkage.stubPage stub = some page →
      linkage.stubPage other = some otherPage →
      stub ≠ other →
      ∀ address,
        distance page address < 16384 → 16384 ≤ distance otherPage address
  short : ∀ entry ∈ entries, entry.text.length ≤ 16359

/-- A later state has the stubs of an earlier one as they were. -/
structure StubsKept
    (linkage : Linkage)
    (before after : LinkState) :
    Prop where
  more : before.stubs ≤ after.stubs
  same :
    ∀ stub < before.stubs, ∀ page, linkage.stubPage stub = some page →
      ∀ address,
        distance page address < 16384 →
          after.memory address = before.memory address

/-- `lookup` finds no function of the name. -/
def Missing (linkage : Linkage) (text : List Byte) : Prop :=
  ∀ pointer row,
    linkage.lookup text = .ok (some (pointer, row)) → row.isFn = false

/-- What the slot of a name holds: the address of the function, or a stub. -/
def SlotHolds
    (linkage : Linkage)
    (s : LinkState)
    (text bytes : List Byte) : Prop :=
  (∃ pointer row,
      linkage.lookup text = .ok (some (pointer, row)) ∧
        row.isFn = true ∧ bytes = wordBytes (linkage.value row)) ∨
    (Missing linkage text ∧
      ∃ stub page,
        stub < s.stubs ∧ linkage.stubPage stub = some page ∧
          bytes = wordBytes page ∧ StubAt linkage s.memory page text)

/-- A jump through the slot of an entry, at any time after relocation: the
slot and the stubs are as relocation has left them, and the stack lies
elsewhere. -/
structure CallThrough
    (linkage : Linkage)
    (relocated : Memory 64)
    (entry : Entry)
    (machine : Machine) :
    Prop where
  jumps :
    ∃ displacement,
      machine.memory.load machine.rip 6 =
          some (Instruction.jumpIndirect displacement).encode ∧
        Instruction.displaced (machine.rip + 6) displacement = entry.a
  slot : machine.memory.load entry.a 8 = relocated.load entry.a 8
  stubs :
    ∀ stub page, linkage.stubPage stub = some page →
      ∀ address,
        distance page address < 16384 →
          machine.memory address = relocated address
  entryCode : EntryCode linkage machine.memory
  stack :
    ∀ stub page, linkage.stubPage stub = some page →
      StackClear linkage page machine

section Steps

variable
  {linkage : Linkage}
  {memory : Memory 64}
  {entries : List Entry}

theorem StubsKept.refl (s : LinkState) : StubsKept linkage s s :=
  ⟨Nat.le_refl _, fun _ _ _ _ _ _ => rfl⟩

theorem StubsKept.trans
    {first second third : LinkState}
    (earlier : StubsKept linkage first second)
    (later : StubsKept linkage second third) :
    StubsKept linkage first third where
  more := earlier.more.trans later.more
  same stub made page isStub address inside :=
    (later.same stub (made.trans_le earlier.more) page isStub address
      inside).trans
      (earlier.same stub made page isStub address inside)

/-- A stub is read on its page only. -/
theorem StubAt.congr
    {current other : Memory 64}
    {page : Word}
    {text : List Byte}
    (stubAt : StubAt linkage current page text)
    (short : text.length ≤ 16359)
    (same :
      ∀ address,
        distance page address < 16384 → other address = current address) :
    StubAt linkage other page text := by
  constructor
  · rw [← stubAt.code]
    exact X86.load_congr fun index below =>
      same _ (by rw [distance_add _ (by omega)]; omega)
  · rw [← stubAt.target]
    exact X86.load_congr fun index below =>
      same _ (distance_part 16 (by omega))
  · rw [← stubAt.name]
    exact X86.load_congr fun index below =>
      same _ (distance_part 24 (by omega))

/-- What a slot holds stays right while the stubs are kept. -/
theorem SlotHolds.later
    {before after : LinkState}
    {text bytes : List Byte}
    (holds : SlotHolds linkage before text bytes)
    (short : text.length ≤ 16359)
    (kept : StubsKept linkage before after) :
    SlotHolds linkage after text bytes := by
  rcases holds with found | ⟨missing, stub, page, made, isStub, is, stubAt⟩
  · exact .inl found
  · exact .inr ⟨missing, stub, page, made.trans_le kept.more, isStub, is,
      stubAt.congr short (kept.same stub made page isStub)⟩

/-- A store at a target leaves the pages of stubs alone. -/
theorem FreshPages.beyond_target
    {entry : Entry}
    {stub : Nat}
    {page address : Word}
    (pages : FreshPages linkage memory entries)
    (mapped :
      ∀ address, entry.Touches address → (memory address).isSome)
    (isStub : linkage.stubPage stub = some page)
    (inside : distance page address < 16384) :
    8 ≤ distance entry.a address := by
  by_contra near
  have touches : entry.Touches address := by
    unfold Entry.Touches
    omega
  have known := mapped address touches
  rw [pages.fresh stub page isStub address inside] at known
  cases known

/-- The assignment of an entry whose memory alone has changed. -/
theorem StubsKept.store
    {entry : Entry}
    {before after : LinkState}
    {bytes : List Byte}
    {stored : Memory 64}
    (kept : StubsKept linkage before after)
    (pages : FreshPages linkage memory entries)
    (mapped :
      ∀ address, entry.Touches address → (memory address).isSome)
    (eight : bytes.length = 8)
    (storing : after.memory.store entry.a bytes = stored) :
    StubsKept linkage before { after with memory := stored } where
  more := kept.more
  same stub made page isStub address inside := by
    have beyond := pages.beyond_target mapped isStub inside
    rw [← storing]
    exact (Memory.store_outside (by omega)).trans
      (kept.same stub made page isStub address inside)

/-- `lookup_data` changes neither the memory nor the stubs. -/
theorem lookupData_kept
    {text : List Byte}
    {tgt value : Word}
    {s s' : LinkState}
    (run : lookupData linkage text tgt s = .ok (value, s')) :
    s'.memory = s.memory ∧ s'.stubs = s.stubs := by
  unfold lookupData at run
  obtain ⟨result, -, answer⟩ := bind_eq_ok.mp run
  rcases result with _ | ⟨pointer, row⟩
  · cases answer
    exact ⟨rfl, rfl⟩
  · simp only at answer
    split at answer
    · split at answer
      · obtain ⟨ans, -, last⟩ := bind_eq_ok.mp answer
        cases last
        exact ⟨rfl, rfl⟩
      · split at answer <;>
        · cases answer
          exact ⟨rfl, rfl⟩
    · cases answer
      exact ⟨rfl, rfl⟩

/-- `lookup_function` answers with a function, or adds a stub. -/
theorem lookupFunction_eq_ok
    {text : List Byte}
    {value : Word}
    {s s' : LinkState}
    (run : lookupFunction linkage text s = .ok (value, s')) :
    (∃ pointer row,
        linkage.lookup text = .ok (some (pointer, row)) ∧
          row.isFn = true ∧ value = linkage.value row ∧ s' = s) ∨
      (Missing linkage text ∧ generateStub linkage text s = .ok (value, s')) := by
  unfold lookupFunction at run
  obtain ⟨result, looked, answer⟩ := bind_eq_ok.mp run
  rcases result with _ | ⟨pointer, row⟩
  · refine .inr ⟨fun pointer row found => ?_, answer⟩
    rw [looked] at found
    cases found
  · simp only at answer
    split at answer
    next function =>
      cases answer
      exact .inl ⟨pointer, row, looked, function, rfl, rfl⟩
    next data =>
      refine .inr ⟨fun other otherRow found => ?_, answer⟩
      rw [looked] at found
      cases found
      exact Bool.eq_false_iff.mpr data

/-- A new stub leaves the others alone, and what the image maps. -/
theorem generateStub_kept
    {text : List Byte}
    {page : Word}
    {s s' : LinkState}
    (pages : FreshPages linkage memory entries)
    (short : text.length ≤ 16359)
    (run : generateStub linkage text s = .ok (page, s')) :
    StubsKept linkage s s' ∧
      ∀ address, (memory address).isSome →
        s'.memory address = s.memory address := by
  obtain ⟨isStub, kept⟩ := generateStub_cases (by omega) run
  obtain ⟨-, rfl⟩ := generateStub_eq_ok run
  refine ⟨⟨Nat.le_succ _, ?_⟩, ?_⟩
  · intro stub made other isOther address inside
    exact kept address
      (pages.apart stub other s.stubs page isOther isStub (by omega) address
        inside)
  · intro address known
    refine kept address ?_
    by_contra inside
    rw [pages.fresh s.stubs page isStub address (by omega)] at known
    cases known

/-- An assignment keeps the stubs, and gives a slot what belongs there. -/
theorem assign_slot
    {entry : Entry}
    {before after : LinkState}
    (pages : FreshPages linkage memory entries)
    (member : entry ∈ entries)
    (mapped :
      ∀ address, entry.Touches address → (memory address).isSome)
    (run : assign linkage entry.toRelocation before = .ok after) :
    StubsKept linkage before after ∧
      ∃ bytes,
        StoresAt entry (Known memory) before.memory after.memory bytes ∧
          (entry.kind ≠ copyKind →
            SlotHolds linkage after entry.text bytes) := by
  have short := pages.short entry member
  by_cases copy : entry.kind = copyKind
  · rw [assign, if_pos copy] at run
    obtain ⟨⟨value, answered⟩, looked, last⟩ := bind_eq_ok.mp run
    obtain ⟨stored, storing, result⟩ := bind_eq_ok.mp last
    cases result
    obtain ⟨sameMemory, sameStubs⟩ := lookupData_kept looked
    have kept : StubsKept linkage before answered :=
      ⟨sameStubs.ge, fun _ _ _ _ _ _ => by rw [sameMemory]⟩
    refine ⟨kept.store pages mapped (length_wordBytes value)
      (storeAt_eq_ok.mp storing).2, wordBytes value, ?_,
      fun slot => absurd copy slot⟩
    rw [← sameMemory]
    exact storesAt_of_storeAt storing
  · rw [assign, if_neg copy] at run
    obtain ⟨⟨value, answered⟩, looked, last⟩ := bind_eq_ok.mp run
    obtain ⟨stored, storing, result⟩ := bind_eq_ok.mp last
    cases result
    have stores :
        StoresAt entry (Known memory) answered.memory stored (wordBytes value) :=
      storesAt_of_storeAt storing
    obtain ⟨-, same⟩ := storeAt_eq_ok.mp storing
    rcases lookupFunction_eq_ok looked with
      ⟨pointer, row, found, function, rfl, rfl⟩ | ⟨missing, generated⟩
    · exact ⟨(StubsKept.refl _).store pages mapped (length_wordBytes _) same,
        _, stores, fun _ => .inl ⟨pointer, row, found, function, rfl⟩⟩
    · obtain ⟨kept, imageKept⟩ := generateStub_kept pages short generated
      obtain ⟨isStub, rfl⟩ := generateStub_eq_ok generated
      refine ⟨kept.store pages mapped (length_wordBytes value) same,
        wordBytes value, ⟨length_wordBytes value, fun address known => ?_⟩,
        fun _ => .inr ⟨missing, before.stubs, value, Nat.lt_succ_self _,
          isStub, rfl, ?_⟩⟩
      · exact (stores.stored address known).trans
          (Memory.store_congr (imageKept address known))
      · rw [← same]
        refine (stubAt_stubbed linkage _ value short).store short
          fun address inside => ?_
        rw [length_wordBytes]
        exact pages.beyond_target mapped isStub inside

end Steps

section Runs

/-- What a loop needs of the image to read its table. -/
structure Legible
    (memory : Memory 64)
    (dynamic : Dynamic)
    (entries rest : List Entry)
    (place : Word) :
    Prop where
  table : Tabulates memory dynamic rest place
  tableBytes :
    ∀ index < 24 * rest.length,
      Free entries (place + BitVec.ofNat 64 index)
  symbolBytes :
    ∀ entry ∈ rest, ∀ index < 24,
      Free entries (entry.sym + BitVec.ofNat 64 index)
  nameBytes :
    ∀ entry ∈ rest, ∀ index ≤ entry.text.length,
      Free entries (entry.name + BitVec.ofNat 64 index)

variable
  {linkage : Linkage}
  {memory : Memory 64}
  {dynamic : Dynamic}
  {entries rest : List Entry}

theorem Legible.tail
    {entry : Entry}
    {place : Word}
    (legible : Legible memory dynamic entries (entry :: rest) place) :
    Legible memory dynamic entries rest (place + 24) where
  table := legible.table.2
  tableBytes index inside := by
    have later := legible.tableBytes (24 + index) (by
      rw [List.length_cons]
      omega)
    rw [BitVec.ofNat_add, ← BitVec.add_assoc] at later
    exact later
  symbolBytes other member :=
    legible.symbolBytes other (List.mem_cons_of_mem _ member)
  nameBytes other member :=
    legible.nameBytes other (List.mem_cons_of_mem _ member)

theorem Legible.read
    {current : Memory 64}
    {entry : Entry}
    {place : Word}
    (legible : Legible memory dynamic entries (entry :: rest) place)
    (agrees : Agrees entries memory current) :
    readRelocation current dynamic.symtab dynamic.strtab place =
      .ok entry.toRelocation := by
  refine agrees.readRelocation ?_
    (legible.symbolBytes entry (List.mem_cons_self ..))
    (legible.nameBytes entry (List.mem_cons_self ..)) legible.table.1.read
  intro index inside
  refine legible.tableBytes index ?_
  rw [List.length_cons]
  omega

/-- What the bytes stored for an entry are, as a later state shows. -/
def Stored
    (linkage : Linkage)
    (s : LinkState)
    (entry : Entry)
    (bytes : List Byte) : Prop :=
  entry.kind ≠ copyKind → SlotHolds linkage s entry.text bytes

/-- An outcome as a later state shows it. -/
theorem Outcome.later
    {matters : Word → Prop}
    {before after : Memory 64}
    {s s' : LinkState}
    {writes : Writes}
    (outcome :
      Outcome (Stored linkage s) matters before after rest writes)
    (pages : FreshPages linkage memory entries)
    (listed : ∀ entry ∈ rest, entry ∈ entries)
    (kept : StubsKept linkage s s') :
    Outcome (Stored linkage s') matters before after rest writes where
  listed := outcome.listed
  eight := outcome.eight
  result write member slot :=
    (outcome.result write member slot).later
      (pages.short _ (listed _ (outcome.entry_mem member))) kept
  stored := outcome.stored

/-- A loop stores what belongs in the slots, and keeps the stubs. -/
theorem relocateTable_slots
    {place : Word}
    {s s' : LinkState}
    {body : Relocation → LinkState → Except Stop LinkState}
    (legible : Legible memory dynamic entries rest place)
    (listed : ∀ entry ∈ rest, entry ∈ entries)
    (pages : FreshPages linkage memory entries)
    (mapped :
      ∀ entry ∈ entries, ∀ address,
        entry.Touches address → (memory address).isSome)
    (assigns :
      ∀ entry ∈ rest,
        body entry.toRelocation = assign linkage entry.toRelocation)
    (agrees : Agrees entries memory s.memory)
    (run :
      relocateTable body dynamic.symtab dynamic.strtab rest.length place s =
        .ok s') :
    Agrees entries memory s'.memory ∧ StubsKept linkage s s' ∧
      ∃ writes,
        Outcome (Stored linkage s') (Known memory) s.memory s'.memory rest
          writes := by
  induction rest generalizing place s with
  | nil =>
      cases run
      exact ⟨agrees, .refl _, [], rfl, by simp, by simp, fun _ _ => rfl⟩
  | cons entry rest inductionHypothesis =>
      have here : entry ∈ entries := listed entry (List.mem_cons_self ..)
      have later : ∀ other ∈ rest, other ∈ entries := fun other member =>
        listed other (List.mem_cons_of_mem _ member)
      rw [List.length_cons, relocateTable, legible.read agrees, ok_bind]
        at run
      obtain ⟨next, first, others⟩ := bind_eq_ok.mp run
      rw [assigns entry (List.mem_cons_self ..)] at first
      obtain ⟨kept, bytes, stores, holds⟩ :=
        assign_slot pages here (mapped entry here) first
      obtain ⟨agreesAfter, keptAfter, writes, outcome⟩ :=
        inductionHypothesis legible.tail later
          (fun other member => assigns other (List.mem_cons_of_mem _ member))
          (agrees.store here stores) others
      have now :
          Outcome (Stored linkage next) (Known memory) s.memory next.memory [entry]
            [(entry, bytes)] :=
        ⟨rfl, by simpa using stores.eight, by simpa [Stored] using holds,
          stores.stored⟩
      exact ⟨agreesAfter, kept.trans keptAfter, (entry, bytes) :: writes,
        (now.later pages (by simpa using here) keptAfter).append outcome⟩

end Runs

section Calls

variable
  {linkage : Linkage}
  {phdrs : List ProgramHeader}
  {dynamic : Dynamic}
  {rela jmprel : List Entry}
  {s s' : LinkState}

/-- After both loops every slot holds what belongs there. -/
theorem relocate_slots
    (slots : Slots phdrs s.memory dynamic rela jmprel)
    (pages : FreshPages linkage s.memory (rela ++ jmprel))
    (run : relocate linkage phdrs s = .ok s') :
    ∃ writes,
      Outcome (Stored linkage s') (Known s.memory) s.memory s'.memory
        (rela ++ jmprel) writes := by
  rw [relocate, slots.located, ok_bind, relocateTables,
    ← slots.relaCount, ← slots.jmprelCount] at run
  obtain ⟨middle, relaRun, jmprelRun⟩ := bind_eq_ok.mp run
  have inRela (entry : Entry) (member : entry ∈ rela) :
      entry ∈ rela ++ jmprel :=
    List.mem_append_left _ member
  have inJmprel (entry : Entry) (member : entry ∈ jmprel) :
      entry ∈ rela ++ jmprel :=
    List.mem_append_right _ member
  obtain ⟨agrees, -, relaWrites, relaOutcome⟩ :=
    relocateTable_slots
      ⟨slots.relaTable, slots.relaBytes,
        fun entry member => slots.symbolBytes entry (inRela entry member),
        fun entry member => slots.nameBytes entry (inRela entry member)⟩
      inRela pages slots.mapped
      (fun entry member => applyRela_eq (slots.relaKinds entry member))
      (agrees_refl _ _) relaRun
  obtain ⟨-, kept, jmprelWrites, jmprelOutcome⟩ :=
    relocateTable_slots
      ⟨slots.jmprelTable, slots.jmprelBytes,
        fun entry member => slots.symbolBytes entry (inJmprel entry member),
        fun entry member => slots.nameBytes entry (inJmprel entry member)⟩
      inJmprel pages slots.mapped
      (fun entry member => applyJmprel_eq (slots.jmprelKinds entry member))
      agrees jmprelRun
  exact ⟨relaWrites ++ jmprelWrites,
    (relaOutcome.later pages inRela kept).append jmprelOutcome⟩

theorem Tabulates.exists_at
    {memory : Memory 64}
    {entries : List Entry}
    {place : Word}
    (table : Tabulates memory dynamic entries place)
    {entry : Entry}
    (member : entry ∈ entries) :
    ∃ place, entry.At memory dynamic place := by
  induction entries generalizing place with
  | nil =>
      cases member
  | cons first rest inductionHypothesis =>
      cases member with
      | head =>
          exact ⟨place, table.1⟩
      | tail _ later =>
          exact inductionHypothesis table.2 later

/-- The name of an entry is a string. -/
theorem Slots.noZero
    (slots : Slots phdrs s.memory dynamic rela jmprel)
    {entry : Entry}
    (member : entry ∈ rela ++ jmprel) :
    0 ∉ entry.text := by
  obtain ⟨place, here⟩ : ∃ place, entry.At s.memory dynamic place := by
    rcases List.mem_append.mp member with inRela | inJmprel
    · exact slots.relaTable.exists_at inRela
    · exact slots.jmprelTable.exists_at inJmprel
  obtain ⟨_, _, _, _, text, _, _, _, _, read, same⟩ :=
    readRelocation_eq_ok.mp here.read
  rw [same]
  exact (noZero_of_cString read).1

/-- What a slot of the relocated image shows. -/
theorem relocate_slot_shows
    (slots : Slots phdrs s.memory dynamic rela jmprel)
    (pages : FreshPages linkage s.memory (rela ++ jmprel))
    (run : relocate linkage phdrs s = .ok s')
    {entry : Entry}
    (member : entry ∈ rela ++ jmprel)
    (slot : entry.kind ≠ copyKind) :
    ∃ bytes,
      s'.memory.load entry.a 8 = some bytes ∧
        SlotHolds linkage s' entry.text bytes := by
  obtain ⟨writes, outcome⟩ := relocate_slots slots pages run
  obtain ⟨bytes, written⟩ := outcome.exists_write member
  refine ⟨bytes, ?_, outcome.result _ written slot⟩
  exact Memory.load_eq_some.mpr ⟨outcome.eight _ written,
    fun index inside =>
      outcome.shown slots.apart slots.mapped written inside⟩

/-- A call through a slot of a relocated image reaches the function that
`lookup` finds for its name; if it finds none, the call ends in `stub`, which
is given that very name. -/
theorem relocate_calls
    (slots : Slots phdrs s.memory dynamic rela jmprel)
    (pages : FreshPages linkage s.memory (rela ++ jmprel))
    (run : relocate linkage phdrs s = .ok s')
    {entry : Entry}
    (member : entry ∈ rela ++ jmprel)
    (slot : entry.kind ≠ copyKind)
    {machine : Machine}
    (through : CallThrough linkage s'.memory entry machine) :
    (∃ pointer row,
        linkage.lookup entry.text = .ok (some (pointer, row)) ∧
          row.isFn = true ∧
          X86.step machine =
            some { machine with rip := linkage.value row }) ∨
      (Missing linkage entry.text ∧
        ∃ final,
          X86.steps 5 machine = some final ∧
            Reports linkage entry.text machine final) := by
  obtain ⟨bytes, shown, holds⟩ :=
    relocate_slot_shows slots pages run member slot
  obtain ⟨displacement, jumps, toSlot⟩ := through.jumps
  have pointed :
      machine.memory.load
          (Instruction.displaced (machine.rip + 6) displacement) 8 =
        some bytes := by
    rw [toSlot, through.slot, shown]
  rcases holds with
    ⟨pointer, row, found, function, rfl⟩ |
      ⟨missing, stub, page, -, isStub, rfl, stubAt⟩
  · exact .inl ⟨pointer, row, found, function,
      X86.step_jumpIndirect jumps pointed⟩
  · have short := pages.short entry member
    let jumped : Machine := { machine with rip := page }
    have first : X86.step machine = some jumped :=
      X86.step_jumpIndirect jumps pointed
    have left : StubAt linkage jumped.memory page entry.text :=
      stubAt.congr short (through.stubs stub page isStub)
    have stack := through.stack stub page isStub
    obtain ⟨final, later, reports⟩ :=
      left.reports through.entryCode
        ⟨stack.mapped, stack.page, stack.entry⟩ rfl (slots.noZero member)
        short
    refine .inr ⟨missing, final, ?_,
      reports.called, reports.name, reports.stack, reports.kept⟩
    rw [X86.steps, first]
    exact later

end Calls

/-! ## A slot of the data symbol `stdout` -/

/-- `stub_entry` at `0x800000` and `stub` behind it. -/
def callLinkage : Linkage :=
  { sampleLinkage with
    address := fun linkerSymbol =>
      if linkerSymbol = "stub" then 0x800010
      else sampleLinkage.address linkerSymbol }

/-- A stack at `0x700000`, a jump through `0x401000` at `0x600000`, and the
code of `stub_entry`. -/
def callMemory (relocated : Memory 64) : Memory 64 :=
  ((relocated.fill 0x700000 0x1000 (some 0)).store 0x600000
      (Instruction.jumpIndirect 0xffe00ffa).encode).store 0x800000
    (Instruction.popRdi.encode ++ (Instruction.jump 10).encode)

def callMachine (relocated : Memory 64) : Machine where
  rip := 0x600000
  rsp := 0x700800
  rdi := 0
  memory := callMemory relocated

/-- The pages below the targets are free. -/
theorem sample_free
    {address : Word}
    (below : address.toNat < 0x401000) :
    Free ([stdoutEntry (BitVec.ofNat 32 6)] ++ [closeEntry 0x401100])
      address := by
  intro entry member
  rcases List.mem_pair.mp member with rfl | rfl
  · rw [Entry.Touches, stdoutEntry_length, stdoutEntry, distance]
    bv_omega
  · rw [Entry.Touches, closeEntry_length, closeEntry, distance]
    bv_omega

theorem sample_slots :
    Slots samplePhdrs (sampleState 6 0x401100).memory sampleDynamic
      [stdoutEntry (BitVec.ofNat 32 6)] [closeEntry 0x401100] :=
  have layout := sample_layout (.inl ⟨rfl, rfl⟩)
  { layout with
    apart := by
      refine List.pairwise_pair.mpr ?_
      rintro address ⟨first, second⟩
      rw [Entry.Touches, stdoutEntry_length, stdoutEntry, distance] at first
      rw [Entry.Touches, closeEntry_length, closeEntry, distance] at second
      bv_omega
    mapped := by
      intro entry member address touches
      refine sample_mapped (.inl
        (sample_reaches (.inl ⟨rfl, rfl⟩) member ?_))
      rcases List.mem_pair.mp member with rfl | rfl
      · rwa [Entry.Touches, stdoutEntry_length] at touches
      · rwa [Entry.Touches, closeEntry_length] at touches
    relaBytes := by
      intro index inside
      have small : index < 24 := inside
      exact sample_free (by unfold sampleDynamic; bv_omega)
    jmprelBytes := by
      intro index inside
      have small : index < 24 := inside
      exact sample_free (by unfold sampleDynamic; bv_omega)
    symbolBytes := by
      intro entry member index small
      refine sample_free ?_
      rcases List.mem_pair.mp member with rfl | rfl
      · unfold stdoutEntry
        bv_omega
      · unfold closeEntry
        bv_omega
    nameBytes := by
      intro entry member index inside
      refine sample_free ?_
      rcases List.mem_pair.mp member with rfl | rfl
      · have small : index ≤ 6 := inside
        unfold stdoutEntry
        bv_omega
      · have small : index ≤ 5 := inside
        unfold closeEntry
        bv_omega }

theorem sample_pages :
    FreshPages callLinkage (sampleState 6 0x401100).memory
      ([stdoutEntry (BitVec.ofNat 32 6)] ++ [closeEntry 0x401100]) where
  fresh stub page found address inside := by
    have place := sample_stubPage found
    refine sample_unmapped ?_
    unfold distance at inside
    bv_omega
  apart stub page other otherPage found otherFound different address inside := by
    simp only [callLinkage, sampleLinkage] at found otherFound
    split at found
    · split at otherFound
      · cases found
        cases otherFound
        unfold distance at inside ⊢
        bv_omega
      · cases otherFound
    · cases found
  short entry member := by
    rcases List.mem_pair.mp member with rfl | rfl
    · exact show 6 ≤ 16359 by decide
    · exact show 5 ≤ 16359 by decide

set_option maxRecDepth 8000 in
theorem sample_run :
    ∃ s', relocate callLinkage samplePhdrs (sampleState 6 0x401100) = .ok s' :=
  ⟨_, rfl⟩

theorem callMemory_elsewhere
    {relocated : Memory 64}
    {address : Word}
    (elsewhere : address.toNat < 0x600000 ∨ 0x900000 ≤ address.toNat) :
    callMemory relocated address = relocated address := by
  have entry :
      (Instruction.popRdi.encode ++ (Instruction.jump 10).encode).length ≤
        distance 0x800000 address := by
    show 6 ≤ distance 0x800000 address
    unfold distance
    bv_omega
  have jump :
      (Instruction.jumpIndirect 0xffe00ffa).encode.length ≤
        distance 0x600000 address := by
    show 6 ≤ distance 0x600000 address
    unfold distance
    bv_omega
  have stack : 0x1000 ≤ distance 0x700000 address := by
    unfold distance
    bv_omega
  rw [callMemory, Memory.store_outside entry, Memory.store_outside jump,
    Memory.fill_outside stack]

theorem callMachine_through (relocated : Memory 64) :
    CallThrough callLinkage relocated (stdoutEntry (BitVec.ofNat 32 6))
      (callMachine relocated) where
  jumps := by
    have toSlot :
        Instruction.displaced (0x600000 + 6) 0xffe00ffa = 0x401000 := by
      decide
    refine ⟨0xffe00ffa, ?_, toSlot⟩
    have stored :=
      @Memory.load_store 64 (relocated.fill 0x700000 0x1000 (some 0)) 0x600000
        (Instruction.jumpIndirect 0xffe00ffa).encode 0 6 (by decide)
        (by decide)
    rw [BitVec.add_zero] at stored
    refine X86.load_of_apart stored fun index below => ?_
    have small : index < 6 := below
    show 6 ≤ distance 0x800000 (0x600000 + BitVec.ofNat 64 index)
    unfold distance
    bv_omega
  slot :=
    X86.load_congr fun index below => callMemory_elsewhere (by
      unfold stdoutEntry
      bv_omega)
  stubs stub page isStub address inside := by
    have place := sample_stubPage isStub
    refine callMemory_elsewhere (.inr ?_)
    unfold distance at inside
    bv_omega
  entryCode := by
    have toStub :
        Instruction.displaced (0x800000 + 6) 10 = 0x800010 := by
      decide
    exact ⟨10,
      @Memory.load_store 64 _ 0x800000 _ 0 1 (by decide) (by decide),
      @Memory.load_store 64 _ 0x800000 _ 1 5 (by decide) (by decide),
      toStub⟩
  stack stub page isStub := by
    have place := sample_stubPage isStub
    refine ⟨?_, fun address inside => ?_, fun address inside => ?_⟩
    · refine Memory.mapped_store (Memory.mapped_store
        (Memory.mapped_iff.mpr fun index below => ?_))
      have inStack :
          distance 0x700000 (0x700800 - 8 + BitVec.ofNat 64 index) < 0x1000 := by
        unfold distance
        bv_omega
      rw [callMachine, Memory.fill_inside inStack]
      rfl
    · show 8 ≤ distance (0x700800 - 8) address
      unfold distance at inside ⊢
      bv_omega
    · show 8 ≤ distance (0x700800 - 8) address
      have entry : distance 0x800000 address < 6 := inside
      unfold distance at entry ⊢
      bv_omega

/-- A call through the slot of `stdout`, which is no function. -/
theorem relocate_calls_stdout :
    ∃ s' final,
      relocate callLinkage samplePhdrs (sampleState 6 0x401100) = .ok s' ∧
        X86.steps 5 (callMachine s'.memory) = some final ∧
          Reports callLinkage (chars "stdout") (callMachine s'.memory)
            final := by
  obtain ⟨s', run⟩ := sample_run
  rcases relocate_calls sample_slots sample_pages run
      (List.mem_cons_self ..) (by decide) (callMachine_through s'.memory) with
    ⟨pointer, row, found, function, -⟩ | ⟨-, final, steps, reports⟩
  · have answer :
        callLinkage.lookup (stdoutEntry (BitVec.ofNat 32 6)).text =
          .ok (some (.symbols 97, symbols[97])) :=
      sample_lookup_stdout
    rw [answer] at found
    cases found
    cases function
  · exact ⟨s', final, run, steps, reports⟩

end Hamachi.Loader
