import Hamachi.RelocationRuns

namespace Hamachi.Loader

/-!
# Relocation and the ABI

The loops relocate the tables that they can handle as the ABI asks; and unless
a store changes what is still read, or something is right by accident, only
those.
-/

/-! ## What the ABI asks of an address -/

section Asked

variable
  {linkage : Linkage}
  {phdrs : List ProgramHeader}
  {memory after : Memory 64}
  {dynamic : Dynamic}
  {rela jmprel : List Entry}
  {entry : Entry}

theorem Entry.byte_copy
    (copy : entry.kind = copyKind)
    (index : Nat) :
    entry.byte linkage memory index =
      memory (linkage.value entry.row + BitVec.ofNat 64 index) :=
  if_pos copy

theorem Entry.byte_slot
    (slot : entry.kind ≠ copyKind)
    (index : Nat) :
    entry.byte linkage memory index =
      (wordBytes (linkage.value entry.row))[index]? :=
  if_neg slot

theorem Entry.covers_target
    {index : Nat}
    (inside : index < entry.length) :
    entry.Covers (entry.a + BitVec.ofNat 64 index) := by
  rw [Entry.Covers, Entry.distance_target (by omega)]
  exact inside

/-- The memory is relocated exactly when every address of the image holds what
is asked. -/
theorem relocated_iff_asked
    (layout : Layout linkage phdrs memory dynamic rela jmprel) :
    Relocated linkage (rela ++ jmprel) memory after ↔
      ∀ address, (memory address).isSome →
        Asked linkage memory (rela ++ jmprel) address (after address) := by
  constructor
  · refine fun relocated address known => ⟨fun entry member covers => ?_,
      relocated.untouched address known⟩
    by_cases copy : entry.kind = copyKind
    · have copied :=
        relocated.copies entry member copy (distance entry.a address)
          (by rwa [Entry.Covers, Entry.length_copy copy] at covers)
      rw [add_distance] at copied
      rw [copied, Entry.byte_copy copy]
    · have shown :=
        (Memory.load_eq_some.mp (relocated.slots entry member copy)).2
          (distance entry.a address)
          (by rwa [Entry.Covers, Entry.length_slot copy] at covers)
      rw [add_distance] at shown
      rw [shown, Entry.byte_slot copy]
  · intro asked
    have shown (entry : Entry) (member : entry ∈ rela ++ jmprel)
        (index : Nat) (inside : index < entry.length) :
        after (entry.a + BitVec.ofNat 64 index) =
          entry.byte linkage memory index := by
      have covers := Entry.covers_target inside
      rw [(asked _ (layout.mapped entry member _ covers)).1 entry member
        covers, Entry.distance_target (by omega)]
    refine ⟨fun entry member copy index inside => ?_,
      fun entry member slot => ?_,
      fun address known => (asked address known).2⟩
    · rw [shown entry member index (by rwa [Entry.length_copy copy]),
        Entry.byte_copy copy]
    · refine Memory.load_eq_some.mpr ⟨length_wordBytes _, fun index inside => ?_⟩
      rw [shown entry member index (by rwa [Entry.length_slot slot]),
        Entry.byte_slot slot]

instance : Std.Symm Entry.Apart where
  symm _ _ apart address both := apart address ⟨both.2, both.1⟩

end Asked

/-! ## Runs -/

/-- What the loops can have stored for an entry, in memory that the image
has. -/
structure Entry.Possible
    (entry : Entry)
    (linkage : Linkage)
    (memory : Memory 64)
    (bytes : List Byte) :
    Prop where
  right :
    entry.Resolved linkage →
      ∀ index < 8, bytes[index]? = entry.byte linkage memory index
  copy :
    ¬entry.Resolved linkage → entry.kind = copyKind →
      bytes[0]? = some 0xef
  slot :
    ¬entry.Resolved linkage → entry.kind ≠ copyKind →
      ∃ stub page, linkage.stubPage stub = some page ∧
        bytes = wordBytes page
  mapped : ∀ address, entry.Reaches address → (memory address).isSome

/-- The addresses that matter are at least those of the image, of the stores
and of the copied definitions. -/
structure Matters
    (linkage : Linkage)
    (memory : Memory 64)
    (entries : List Entry)
    (matters : Word → Prop) :
    Prop where
  image : ∀ address, (memory address).isSome → matters address
  targets :
    ∀ entry ∈ entries, ∀ address, entry.Reaches address → matters address
  definitions :
    ∀ entry ∈ entries, entry.kind = copyKind → ∀ address,
      distance (linkage.value entry.row) address < 8 → matters address

/-- Some iterations have made their stores. -/
def Made
    (linkage : Linkage)
    (matters : Word → Prop)
    (memory : Memory 64)
    (front : List Turn)
    (s : LinkState) : Prop :=
  ∃ writes,
    Outcome (fun entry => entry.Possible linkage memory) matters memory
      s.memory (front.map Turn.entry) writes

section Made

variable
  {linkage : Linkage}
  {phdrs : List ProgramHeader}
  {matters : Word → Prop}
  {memory : Memory 64}
  {dynamic : Dynamic}
  {rela jmprel : List Entry}
  {front back : List Turn}
  {turn : Turn}
  {address : Word}
  {s s' : LinkState}

/-- The stores leave all bytes mapped that were. -/
theorem Made.isSome
    (made : Made linkage matters memory front s)
    (here : matters address)
    (known : (memory address).isSome) :
    (s.memory address).isSome := by
  obtain ⟨writes, outcome⟩ := made
  rcases outcome.cases here with
    ⟨-, same⟩ | ⟨entry, bytes, ⟨_, _, _, reaches, _⟩, eight, -, shown⟩
  · rwa [same]
  · rw [shown, List.getElem?_eq_getElem (reaches.trans_eq eight.symm)]
    rfl

/-- The stores map nothing. -/
theorem Made.isSome_image
    (made : Made linkage matters memory front s)
    (here : matters address)
    (known : (s.memory address).isSome) :
    (memory address).isSome := by
  obtain ⟨writes, outcome⟩ := made
  rcases outcome.cases here with
    ⟨-, same⟩ | ⟨entry, bytes, ⟨_, _, _, reaches, _⟩, -, possible, -⟩
  · rwa [← same]
  · exact possible.mapped address reaches

/-- What an iteration reads is as the image has it. -/
theorem Made.same
    (made : Made linkage matters memory front s)
    (undisturbed : Undisturbed linkage memory (dynamic.turns rela jmprel))
    (split : dynamic.turns rela jmprel = front ++ turn :: back)
    (here : matters address)
    (reads : turn.Reads linkage address) :
    s.memory address = memory address := by
  obtain ⟨writes, outcome⟩ := made
  rcases outcome.cases here with
    ⟨-, same⟩ | ⟨entry, bytes, last, eight, possible, shown⟩
  · exact same
  · obtain ⟨resolved, stays⟩ :=
      undisturbed front turn back split address reads entry last
    obtain ⟨_, _, _, reaches, _⟩ := last
    rw [shown, possible.right resolved _ reaches, stays]

theorem Dynamic.turn_mem
    (split : dynamic.turns rela jmprel = front ++ turn :: back) :
    turn.entry ∈ rela ++ jmprel := by
  rw [← dynamic.map_turns, split]
  exact List.mem_map_of_mem
    (List.mem_append_right _ (List.mem_cons_self ..))

/-- Every iteration is one of an entry that stands at its place. -/
theorem Layout.at_turn
    (layout : Layout linkage phdrs memory dynamic rela jmprel)
    (split : dynamic.turns rela jmprel = front ++ turn :: back) :
    turn.entry.At memory dynamic turn.place := by
  have member : turn ∈ dynamic.turns rela jmprel := by
    rw [split]
    exact List.mem_append_right _ (List.mem_cons_self ..)
  rcases List.mem_append.mp member with inRela | inJmprel
  · exact layout.relaTable.at_turn inRela
  · exact layout.jmprelTable.at_turn inJmprel

/-- An iteration reads its entry. -/
theorem Made.read
    (layout : Layout linkage phdrs memory dynamic rela jmprel)
    (isMatter : Matters linkage memory (rela ++ jmprel) matters)
    (undisturbed : Undisturbed linkage memory (dynamic.turns rela jmprel))
    (split : dynamic.turns rela jmprel = front ++ turn :: back)
    (made : Made linkage matters memory front s) :
    readRelocation s.memory dynamic.symtab dynamic.strtab turn.place =
      .ok turn.entry.toRelocation := by
  refine readRelocation_same (fun index small known => ?_)
    (fun index small known => ?_) (fun index inside known => ?_)
    (fun address known => made.isSome (isMatter.image _ known) known)
    (layout.at_turn split).read
  · refine made.same undisturbed split (isMatter.image _ known)
      (.relocation ?_)
    rwa [distance_add _ (by omega)]
  · refine made.same undisturbed split (isMatter.image _ known) (.symbol ?_)
    rwa [distance_add _ (by omega)]
  · refine made.same undisturbed split (isMatter.image _ known) (.name ?_)
    exact (distance_ofNat_le ..).trans inside

/-- A store of what belongs there, for an entry whose symbol is resolved. -/
theorem Made.resolved
    (isMatter : Matters linkage memory (rela ++ jmprel) matters)
    (undisturbed : Undisturbed linkage memory (dynamic.turns rela jmprel))
    (split : dynamic.turns rela jmprel = front ++ turn :: back)
    (made : Made linkage matters memory front s)
    (resolved : turn.entry.Resolved linkage)
    (run : assign linkage turn.entry.toRelocation s = .ok s') :
    ∃ bytes, turn.entry.Possible linkage memory bytes ∧
      StoresAt turn.entry matters s.memory s'.memory bytes := by
  have member := Dynamic.turn_mem split
  obtain ⟨value, right, mapped, stored⟩ := assign_resolved resolved run
  refine ⟨wordBytes value, ⟨fun _ index inside => ?_,
    fun unresolved => absurd resolved unresolved,
    fun unresolved => absurd resolved unresolved,
    fun address reaches => ?_⟩, length_wordBytes value,
    fun address _ => by rw [stored]⟩
  · rw [right index inside]
    by_cases copy : turn.entry.kind = copyKind
    · have near :
          distance (linkage.value turn.entry.row)
              (linkage.value turn.entry.row + BitVec.ofNat 64 index) < 8 := by
        rwa [distance_add _ (by omega)]
      rw [Entry.byte_copy copy, Entry.byte_copy copy]
      exact made.same undisturbed split
        (isMatter.definitions _ member copy _ near) (.definition copy near)
    · rw [Entry.byte_slot copy, Entry.byte_slot copy]
  · refine made.isSome_image (isMatter.targets _ member _ reaches) ?_
    have here := Memory.mapped_iff.mp mapped _ reaches
    rwa [add_distance] at here

/-- One more store. -/
theorem Made.more
    (made : Made linkage matters memory front s)
    {bytes : List Byte}
    (possible : turn.entry.Possible linkage memory bytes)
    (stores : StoresAt turn.entry matters s.memory s'.memory bytes) :
    Made linkage matters memory (front ++ [turn]) s' := by
  obtain ⟨writes, outcome⟩ := made
  refine ⟨writes ++ [(turn.entry, bytes)], ?_⟩
  rw [List.map_append]
  exact outcome.append (stores.outcome possible)

theorem Made.refl
    (linkage : Linkage)
    (matters : Word → Prop)
    (s : LinkState) :
    Made linkage matters s.memory [] s :=
  ⟨[], .refl ..⟩

end Made

/-! ## Tables that are handled -/

section Handled

variable
  {linkage : Linkage}
  {phdrs : List ProgramHeader}
  {dynamic : Dynamic}
  {rela jmprel : List Entry}
  {s s' : LinkState}

/-- Without stubs every address can be considered. -/
theorem matters_all
    (linkage : Linkage)
    (memory : Memory 64)
    (entries : List Entry) :
    Matters linkage memory entries fun _ => True :=
  ⟨fun _ _ => trivial, fun _ _ _ _ => trivial, fun _ _ _ _ _ => trivial⟩

theorem Handled.carried
    (layout : Layout linkage phdrs s.memory dynamic rela jmprel)
    (handled : Handled linkage s.memory dynamic rela jmprel) :
    Carried linkage dynamic (dynamic.turns rela jmprel)
      (Made linkage (fun _ => True) s.memory) where
  reads _ _ _ split _ made :=
    made.read layout (matters_all ..) handled.undisturbed split
  assigns _ _ _ split _ _ made run := by
    obtain ⟨bytes, possible, stores⟩ :=
      made.resolved (matters_all ..) handled.undisturbed split
        (handled.resolved _ (Dynamic.turn_mem split)) run
    exact made.more possible stores

theorem Handled.ends
    (handled : Handled linkage s.memory dynamic rela jmprel)
    {front back : List Turn}
    {turn : Turn}
    {current : LinkState}
    (split : dynamic.turns rela jmprel = front ++ turn :: back)
    (made : Made linkage (fun _ => True) s.memory front current) :
    ∃ next, assign linkage turn.entry.toRelocation current = .ok next := by
  have member := Dynamic.turn_mem split
  refine assign_ends (handled.resolved _ member)
    (Memory.mapped_iff.mpr fun index inside => ?_)
    (fun copy => Memory.mapped_iff.mpr fun index inside => ?_)
  · refine made.isSome trivial (handled.mapped _ member _ ?_)
    rwa [Entry.Reaches, distance_add _ (by omega)]
  · refine made.isSome trivial (handled.definitions _ member copy _ ?_)
    rwa [distance_add _ (by omega)]

/-- Tables that are handled are relocated as the ABI asks. -/
theorem relocates_of_handled
    (layout : Layout linkage phdrs s.memory dynamic rela jmprel)
    (handled : Handled linkage s.memory dynamic rela jmprel) :
    Relocates linkage phdrs (rela ++ jmprel) s := by
  have carried := handled.carried layout
  obtain ⟨s', run⟩ :=
    carried.relocate_ends layout
      (fun _ _ _ split _ made => handled.ends split made) (.refl ..)
  obtain ⟨writes, outcome⟩ := carried.relocate layout (.refl ..) run
  rw [dynamic.map_turns] at outcome
  refine ⟨s', run, (relocated_iff_asked layout).mpr fun address _ => ?_⟩
  rcases @Outcome.cases _ _ _ _ _ _ address outcome trivial with
    ⟨unreached, same⟩ | ⟨entry, bytes, last, -, possible, shown⟩
  · rw [same]
    exact handled.unreached address unreached
  · have asked := handled.stored address entry last
    obtain ⟨front, back, split, reaches, -⟩ := last
    have member : entry ∈ rela ++ jmprel := by
      rw [split]
      exact List.mem_append_right _ (List.mem_cons_self ..)
    rw [shown, possible.right (handled.resolved entry member) _ reaches]
    exact asked

end Handled

/-! ## Tables that are relocated -/

section Relocated

variable
  {linkage : Linkage}
  {phdrs : List ProgramHeader}
  {dynamic : Dynamic}
  {rela jmprel : List Entry}
  {s s' : LinkState}

/-- The pages of the stubs do not matter. -/
theorem Telling.matters
    {memory : Memory 64}
    {entries : List Entry}
    (telling : Telling linkage memory entries) :
    Matters linkage memory entries (OffStubs linkage) where
  image address known stub page isStub := by
    by_contra inside
    rw [(telling.fresh stub page isStub address (by omega)).1] at known
    cases known
  targets entry member address reaches stub page isStub := by
    by_contra inside
    exact ((telling.fresh stub page isStub address (by omega)).2 entry
      member).1 reaches
  definitions entry member copy address near stub page isStub := by
    by_contra inside
    have far :=
      ((telling.fresh stub page isStub address (by omega)).2 entry member).2
        copy
    omega

theorem Telling.carried
    (layout : Layout linkage phdrs s.memory dynamic rela jmprel)
    (undisturbed : Undisturbed linkage s.memory (dynamic.turns rela jmprel))
    (telling : Telling linkage s.memory (rela ++ jmprel)) :
    Carried linkage dynamic (dynamic.turns rela jmprel)
      (Made linkage (OffStubs linkage) s.memory) where
  reads _ _ _ split _ made :=
    made.read layout telling.matters undisturbed split
  assigns front turn back split before after made run := by
    by_cases resolved : turn.entry.Resolved linkage
    · obtain ⟨bytes, possible, stores⟩ :=
        made.resolved telling.matters undisturbed split resolved run
      exact made.more possible stores
    · have member := Dynamic.turn_mem split
      obtain ⟨value, marked, isStub, mapped, stored⟩ :=
        assign_unresolved telling member resolved run
      refine made.more
        ⟨fun found => absurd found resolved, fun _ => marked, fun _ slot => ?_,
          fun address reaches => ?_⟩
        ⟨length_wordBytes value, stored⟩
      · obtain ⟨stub, found⟩ := isStub slot
        exact ⟨stub, value, found, rfl⟩
      · have off := telling.matters.targets _ member _ reaches
        exact made.isSome_image off (mapped address off reaches)

end Relocated

/-- Once the segments are in place, `load_elf` goes on to relocate the image
and returns its entry. -/
theorem loadElf_relocates
    {host : Host}
    {linkage : Linkage}
    {path : List Byte}
    {dynamic : Dynamic}
    {rela jmprel : List Entry}
    {image : Image}
    {s : LinkState}
    (loaded : loadImage host path s.memory = .ok image)
    (layout : Layout linkage image.phdrs image.memory dynamic rela jmprel)
    (handled : Handled linkage image.memory dynamic rela jmprel) :
    ∃ s', loadElf host linkage path s = .ok (image.entry, s') ∧
      Relocated linkage (rela ++ jmprel) image.memory s'.memory := by
  obtain ⟨s', run, relocated⟩ :=
    @relocates_of_handled linkage image.phdrs dynamic rela jmprel
      { s with memory := image.memory } layout handled
  refine ⟨s', ?_, relocated⟩
  rw [loadElf, loaded, ok_bind, run, ok_bind]

/-! ## An image that refers to `stdout` -/

/-- A dynamic section at `0x400000`, a relocation of `stdout` at `0x400060` and
one of `close` at `0x400078`, the symbols at `0x400090` and their names at
`0x4000d8`. -/
def sampleTables (kind slot : Nat) : List Byte :=
  littleEndianBytes 8 7 ++ littleEndianBytes 8 0x400060 ++
    littleEndianBytes 8 8 ++ littleEndianBytes 8 24 ++
    littleEndianBytes 8 23 ++ littleEndianBytes 8 0x400078 ++
    littleEndianBytes 8 2 ++ littleEndianBytes 8 24 ++
    littleEndianBytes 8 6 ++ littleEndianBytes 8 0x400090 ++
    littleEndianBytes 8 5 ++ littleEndianBytes 8 0x4000d8 ++
    littleEndianBytes 8 0x401000 ++ littleEndianBytes 4 kind ++
    littleEndianBytes 12 1 ++
    littleEndianBytes 8 slot ++ littleEndianBytes 4 7 ++
    littleEndianBytes 12 2 ++
    littleEndianBytes 24 0 ++
    littleEndianBytes 16 1 ++ littleEndianBytes 8 8 ++
    littleEndianBytes 16 8 ++ littleEndianBytes 8 0 ++
    chars "\x00stdout\x00close\x00"

/-- The image, and the loader's `stdout` in a page of sevens. -/
def sampleMemory (kind slot : Nat) : Memory 64 :=
  ((Memory.fill (fun _ => none) 0x900000 0x1000 (some 7)).fill
    0x400000 0x2000 (some 0)).store 0x400000 (sampleTables kind slot)

def sampleLinkage : Linkage where
  address linkerSymbol :=
    if linkerSymbol = "p_stdout" then 0x900000 else 0x800000
  auxsymbols := []
  stubPage stub :=
    if stub < 16 then
      some (0x10000000 + BitVec.ofNat 64 (0x4000 * stub))
    else
      none

def sampleState (kind slot : Nat) : LinkState where
  memory := sampleMemory kind slot
  relocAddr _ := 0
  counter := 1
  stubs := 0

def samplePhdrs : List ProgramHeader :=
  [⟨2, 0, 0x400000, 96, 96⟩]

def sampleDynamic : Dynamic :=
  ⟨0x400060, 24, 0x400078, 24, 0x400090, 0x4000d8⟩

def stdoutEntry (kind : BitVec 32) : Entry where
  a := 0x401000
  kind := kind
  sym := 0x4000a8
  name := 0x4000d9
  text := chars "stdout"
  stSize := 8
  row := symbols[97]

def closeEntry (slot : Word) : Entry where
  a := slot
  kind := 7
  sym := 0x4000c0
  name := 0x4000e0
  text := chars "close"
  stSize := 0
  row := symbols[22]

theorem stdoutEntry_length (kind : BitVec 32) :
    (stdoutEntry kind).length = 8 := by
  unfold Entry.length
  split <;> rfl

theorem closeEntry_length (slot : Word) : (closeEntry slot).length = 8 := rfl

/-- What is mapped before relocation. -/
theorem sample_mapped
    {kind slot : Nat}
    {address : Word}
    (inside :
      distance 0x400000 address < 0x2000 ∨
        distance 0x900000 address < 0x1000) :
    ((sampleMemory kind slot) address).isSome := by
  refine Memory.isSome_store ?_
  by_cases image : distance 0x400000 address < 0x2000
  · rw [Memory.fill_inside image]
    rfl
  · rw [Memory.fill_outside (by omega), Memory.fill_inside (by omega)]
    rfl

/-- Both targets are of eight bytes. -/
theorem sample_covers
    {kind : BitVec 32}
    {slot address : Word}
    {entry : Entry}
    (member : entry ∈ [stdoutEntry kind] ++ [closeEntry slot]) :
    entry.Covers address ↔ entry.Reaches address := by
  rcases List.mem_pair.mp member with rfl | rfl
  · rw [Entry.Covers, stdoutEntry_length, Entry.Reaches]
  · rw [Entry.Covers, closeEntry_length, Entry.Reaches]

/-- The slot of `close` lies behind the target of `stdout`, or where the entry
of `stdout` was. -/
def SampleSlot (kind slot : Nat) : Prop :=
  kind = 6 ∧ slot = 0x401100 ∨ kind = 5 ∧ slot = 0x400060

/-- Every store keeps to the image. -/
theorem sample_reaches
    {kind slot : Nat}
    (known : SampleSlot kind slot)
    {entry : Entry}
    {address : Word}
    (member :
      entry ∈ [stdoutEntry (BitVec.ofNat 32 kind)] ++
        [closeEntry (BitVec.ofNat 64 slot)])
    (reaches : entry.Reaches address) :
    distance 0x400000 address < 0x2000 := by
  unfold Entry.Reaches at reaches
  unfold distance at reaches ⊢
  rcases List.mem_pair.mp member with rfl | rfl
  · unfold stdoutEntry at reaches
    bv_omega
  · unfold closeEntry at reaches
    rcases known with ⟨-, rfl⟩ | ⟨-, rfl⟩ <;> bv_omega

set_option maxRecDepth 8000 in
theorem sample_layout
    {kind slot : Nat}
    (known : SampleSlot kind slot) :
    Layout sampleLinkage samplePhdrs (sampleState kind slot).memory
      sampleDynamic [stdoutEntry (BitVec.ofNat 32 kind)]
      [closeEntry (BitVec.ofNat 64 slot)] := by
  have mapped :
      ∀ entry ∈ [stdoutEntry (BitVec.ofNat 32 kind)] ++
          [closeEntry (BitVec.ofNat 64 slot)],
        ∀ address, entry.Covers address →
          ((sampleState kind slot).memory address).isSome :=
    fun entry member address covers =>
      sample_mapped (.inl (sample_reaches known member
        ((sample_covers member).mp covers)))
  have apart :
      ∀ address,
        ¬((stdoutEntry (BitVec.ofNat 32 kind)).Covers address ∧
          (closeEntry (BitVec.ofNat 64 slot)).Covers address) := by
    rintro address ⟨first, second⟩
    rw [Entry.Covers, stdoutEntry_length, stdoutEntry, distance] at first
    rw [Entry.Covers, closeEntry_length, closeEntry, distance] at second
    rcases known with ⟨-, rfl⟩ | ⟨-, rfl⟩ <;> bv_omega
  rcases known with ⟨rfl, rfl⟩ | ⟨rfl, rfl⟩
  all_goals
    refine ⟨rfl, rfl, rfl, ⟨⟨rfl, rfl⟩, trivial⟩, ⟨⟨rfl, rfl⟩, trivial⟩,
      by decide, by decide, ?_, List.pairwise_pair.mpr apart, mapped⟩
    intro entry member
    rcases List.mem_pair.mp member with rfl | rfl
    · exact ⟨List.mem_append_left _ (List.getElem_mem _), rfl⟩
    · exact ⟨List.mem_append_left _ (List.getElem_mem _), rfl⟩

set_option maxRecDepth 8000 in
theorem sample_lookup_stdout :
    sampleLinkage.lookup (chars "stdout") =
      .ok (some (.symbols 97, symbols[97])) := by
  rfl

-- Rewriting by the equation of `sampleTables` is slow; `delta` unfolds it.
theorem length_sampleTables (kind slot : Nat) :
    (sampleTables kind slot).length = 230 := by
  have names : (chars "\x00stdout\x00close\x00").length = 14 := rfl
  delta sampleTables
  simp only [List.length_append, length_littleEndianBytes, names]

theorem sample_unmapped
    {kind slot : Nat}
    {address : Word}
    (beyond : 0x1000000 ≤ address.toNat) :
    (sampleMemory kind slot) address = none := by
  have image : 0x2000 ≤ distance 0x400000 address := by
    unfold distance
    bv_omega
  have page : 0x1000 ≤ distance 0x900000 address := by
    unfold distance
    bv_omega
  have tables : (sampleTables kind slot).length ≤ 0x2000 := by
    rw [length_sampleTables]
    decide
  rw [sampleMemory, Memory.store_outside (by omega),
    Memory.fill_outside (by omega), Memory.fill_outside (by omega)]

/-- The stub pages lie beyond the image and the loader. -/
theorem sample_stubPage
    {stub : Nat}
    {page : Word}
    (found : sampleLinkage.stubPage stub = some page) :
    0x10000000 ≤ page.toNat ∧ page.toNat < 0x10040000 := by
  simp only [sampleLinkage] at found
  split at found
  · cases found
    bv_omega
  · cases found

end Hamachi.Loader
