import Hamachi.RelocationSteps
import Mathlib.Data.List.Pairwise

namespace Hamachi.Loader

/-!
# Both relocation loops

The loops carry out one eight-byte store for each entry.  An address shows
afterwards what the last store that reaches it has stored.
-/

/-- Entries with the bytes that were stored for each. -/
abbrev Writes := List (Entry × List Byte)

/-- The stores of the entries. -/
def Writes.stores (writes : Writes) : List (Word × List Byte) :=
  writes.map fun write => (write.1.a, write.2)

/-- The memory after a run over the entries: one store for each, of bytes that
are a possible result. -/
structure Outcome
    (Result : Entry → List Byte → Prop)
    (matters : Word → Prop)
    (before after : Memory 64)
    (entries : List Entry)
    (writes : Writes) :
    Prop where
  listed : writes.map Prod.fst = entries
  eight : ∀ write ∈ writes, write.2.length = 8
  result : ∀ write ∈ writes, Result write.1 write.2
  stored :
    ∀ address, matters address →
      after address = before.storeAll writes.stores address

/-- A run over some entries, then a run over others. -/
theorem Outcome.append
    {Result : Entry → List Byte → Prop}
    {matters : Word → Prop}
    {before middle after : Memory 64}
    {entries others : List Entry}
    {writes later : Writes}
    (first : Outcome Result matters before middle entries writes)
    (second : Outcome Result matters middle after others later) :
    Outcome Result matters before after (entries ++ others)
      (writes ++ later) where
  listed := by
    rw [List.map_append, first.listed, second.listed]
  eight write member := by
    rcases List.mem_append.mp member with member | member
    · exact first.eight write member
    · exact second.eight write member
  result write member := by
    rcases List.mem_append.mp member with member | member
    · exact first.result write member
    · exact second.result write member
  stored address known := by
    have joined :
        before.storeAll (Writes.stores (writes ++ later)) =
          (before.storeAll writes.stores).storeAll later.stores := by
      rw [Writes.stores, List.map_append, Memory.storeAll, List.foldl_append]
      rfl
    rw [second.stored address known, joined]
    exact Memory.storeAll_congr (first.stored address known)

/-- No store. -/
theorem Outcome.refl
    (Result : Entry → List Byte → Prop)
    (matters : Word → Prop)
    (memory : Memory 64) :
    Outcome Result matters memory memory [] [] :=
  ⟨rfl, by simp, by simp, fun _ _ => rfl⟩

/-- One store. -/
theorem StoresAt.outcome
    {Result : Entry → List Byte → Prop}
    {matters : Word → Prop}
    {before after : Memory 64}
    {entry : Entry}
    {bytes : List Byte}
    (stores : StoresAt entry matters before after bytes)
    (result : Result entry bytes) :
    Outcome Result matters before after [entry] [(entry, bytes)] :=
  ⟨rfl, by simpa using stores.eight, by simpa using result, stores.stored⟩

/-! ## The loops -/

/-- What holds after the iterations before one holds after that one too, and
lets it read what the image has. -/
structure Carried
    (linkage : Linkage)
    (dynamic : Dynamic)
    (iterations : List Turn)
    (Holds : List Turn → LinkState → Prop) :
    Prop where
  reads :
    ∀ front turn back, iterations = front ++ turn :: back →
      ∀ s, Holds front s →
        readRelocation s.memory dynamic.symtab dynamic.strtab turn.place =
          .ok turn.entry.toRelocation
  assigns :
    ∀ front turn back, iterations = front ++ turn :: back →
      ∀ s s', Holds front s →
        assign linkage turn.entry.toRelocation s = .ok s' →
        Holds (front ++ [turn]) s'

section Loops

variable
  {linkage : Linkage}
  {phdrs : List ProgramHeader}
  {dynamic : Dynamic}
  {iterations front back : List Turn}
  {rela jmprel rest : List Entry}
  {Holds : List Turn → LinkState → Prop}
  {body : Relocation → LinkState → Except Stop LinkState}
  {place : Word}
  {s s' : LinkState}

/-- What is carried through a loop holds after it. -/
theorem Carried.table
    (carried : Carried linkage dynamic iterations Holds)
    (bodies :
      ∀ entry ∈ rest,
        body entry.toRelocation = assign linkage entry.toRelocation)
    (split : iterations = front ++ tableTurns rest place ++ back)
    (holds : Holds front s)
    (run :
      relocateTable body dynamic.symtab dynamic.strtab rest.length place s =
        .ok s') :
    Holds (front ++ tableTurns rest place) s' := by
  induction rest generalizing front place s with
  | nil =>
      cases run
      simpa [tableTurns] using holds
  | cons entry rest inductionHypothesis =>
      have here :
          iterations =
            front ++ ⟨entry, place⟩ :: (tableTurns rest (place + 24) ++ back) := by
        rw [split, tableTurns]
        simp
      rw [List.length_cons, relocateTable,
        carried.reads _ _ _ here s holds, ok_bind] at run
      obtain ⟨next, first, later⟩ := bind_eq_ok.mp run
      rw [bodies entry (List.mem_cons_self ..)] at first
      have further :
          iterations =
            front ++ [⟨entry, place⟩] ++ tableTurns rest (place + 24) ++ back := by
        rw [here]
        simp
      have after :=
        inductionHypothesis
          (fun other member => bodies other (List.mem_cons_of_mem _ member))
          further (carried.assigns _ _ _ here s next holds first) later
      simpa [tableTurns] using after

/-- If every iteration can be carried out, so can the loop. -/
theorem Carried.table_ends
    (carried : Carried linkage dynamic iterations Holds)
    (ends :
      ∀ front turn back, iterations = front ++ turn :: back →
        ∀ s, Holds front s →
          ∃ s', assign linkage turn.entry.toRelocation s = .ok s')
    (bodies :
      ∀ entry ∈ rest,
        body entry.toRelocation = assign linkage entry.toRelocation)
    (split : iterations = front ++ tableTurns rest place ++ back)
    (holds : Holds front s) :
    ∃ s',
      relocateTable body dynamic.symtab dynamic.strtab rest.length place s =
        .ok s' := by
  induction rest generalizing front place s with
  | nil =>
      exact ⟨s, rfl⟩
  | cons entry rest inductionHypothesis =>
      have here :
          iterations =
            front ++ ⟨entry, place⟩ :: (tableTurns rest (place + 24) ++ back) := by
        rw [split, tableTurns]
        simp
      obtain ⟨next, first⟩ := ends _ _ _ here s holds
      have further :
          iterations =
            front ++ [⟨entry, place⟩] ++ tableTurns rest (place + 24) ++ back := by
        rw [here]
        simp
      obtain ⟨last, later⟩ :=
        inductionHypothesis
          (fun other member => bodies other (List.mem_cons_of_mem _ member))
          further (carried.assigns _ _ _ here s next holds first)
      refine ⟨last, ?_⟩
      rw [List.length_cons, relocateTable,
        carried.reads _ _ _ here s holds, ok_bind,
        bodies entry (List.mem_cons_self ..), first]
      exact later

/-- The loop over `DT_RELA` comes first. -/
theorem Dynamic.turns_rela
    (dynamic : Dynamic)
    (rela jmprel : List Entry) :
    dynamic.turns rela jmprel =
      [] ++ tableTurns rela dynamic.reladyn ++ tableTurns jmprel dynamic.relaplt :=
  rfl

/-- The loop over `DT_JMPREL` comes last. -/
theorem Dynamic.turns_jmprel
    (dynamic : Dynamic)
    (rela jmprel : List Entry) :
    dynamic.turns rela jmprel =
      tableTurns rela dynamic.reladyn ++ tableTurns jmprel dynamic.relaplt ++ [] :=
  (List.append_nil _).symm

variable
  (layout : Layout linkage phdrs s.memory dynamic rela jmprel)
  (carried : Carried linkage dynamic (dynamic.turns rela jmprel) Holds)
include layout carried

/-- What is carried through both loops holds after relocation. -/
theorem Carried.relocate
    (holds : Holds [] s)
    (run : relocate linkage phdrs s = .ok s') :
    Holds (dynamic.turns rela jmprel) s' := by
  rw [Loader.relocate, layout.located, ok_bind, relocateTables,
    ← layout.relaCount, ← layout.jmprelCount] at run
  obtain ⟨middle, relaRun, jmprelRun⟩ := bind_eq_ok.mp run
  have middleHolds :=
    carried.table
      (fun entry member => applyRela_eq (layout.relaKinds entry member))
      (dynamic.turns_rela rela jmprel) holds relaRun
  exact carried.table
    (fun entry member => applyJmprel_eq (layout.jmprelKinds entry member))
    (dynamic.turns_jmprel rela jmprel) middleHolds jmprelRun

/-- If every iteration can be carried out, relocation ends. -/
theorem Carried.relocate_ends
    (ends :
      ∀ front turn back, dynamic.turns rela jmprel = front ++ turn :: back →
        ∀ s, Holds front s →
          ∃ s', assign linkage turn.entry.toRelocation s = .ok s')
    (holds : Holds [] s) :
    ∃ s', Loader.relocate linkage phdrs s = .ok s' := by
  have relaBodies :
      ∀ entry ∈ rela,
        applyRela linkage entry.toRelocation =
          assign linkage entry.toRelocation :=
    fun entry member => applyRela_eq (layout.relaKinds entry member)
  obtain ⟨middle, relaRun⟩ :=
    carried.table_ends ends relaBodies (dynamic.turns_rela rela jmprel) holds
  have middleHolds :=
    carried.table relaBodies (dynamic.turns_rela rela jmprel) holds relaRun
  obtain ⟨last, jmprelRun⟩ :=
    carried.table_ends ends
      (fun entry member => applyJmprel_eq (layout.jmprelKinds entry member))
      (dynamic.turns_jmprel rela jmprel) middleHolds
  refine ⟨last, ?_⟩
  rw [Loader.relocate, layout.located, ok_bind, relocateTables,
    ← layout.relaCount, ← layout.jmprelCount, relaRun, ok_bind]
  exact jmprelRun

end Loops

/-- Every iteration is one of an entry that stands at its place. -/
theorem Tabulates.at_turn
    {memory : Memory 64}
    {dynamic : Dynamic}
    {entries : List Entry}
    {place : Word}
    (table : Tabulates memory dynamic entries place)
    {turn : Turn}
    (member : turn ∈ tableTurns entries place) :
    turn.entry.At memory dynamic turn.place := by
  induction entries generalizing place with
  | nil =>
      cases member
  | cons entry rest inductionHypothesis =>
      rcases List.mem_cons.mp member with rfl | later
      · exact table.1
      · exact inductionHypothesis table.2 later

@[simp] theorem map_tableTurns
    (entries : List Entry)
    (place : Word) :
    (tableTurns entries place).map Turn.entry = entries := by
  induction entries generalizing place with
  | nil =>
      rfl
  | cons entry rest inductionHypothesis =>
      rw [tableTurns, List.map_cons, inductionHypothesis]

@[simp] theorem Dynamic.map_turns
    (dynamic : Dynamic)
    (rela jmprel : List Entry) :
    (dynamic.turns rela jmprel).map Turn.entry = rela ++ jmprel := by
  rw [Dynamic.turns, List.map_append, map_tableTurns, map_tableTurns]

/-! ## What the memory shows -/

/-- Either no entry's store reaches the address, or one is the last. -/
theorem lastAt_cases
    (entries : List Entry)
    (address : Word) :
    (∀ entry ∈ entries, ¬entry.Reaches address) ∨
      ∃ entry, LastAt entries address entry := by
  induction entries with
  | nil =>
      exact .inl fun _ member => absurd member List.not_mem_nil
  | cons entry rest inductionHypothesis =>
      rcases inductionHypothesis with none | ⟨last, front, back, rfl, found⟩
      · by_cases reaches : entry.Reaches address
        · exact .inr ⟨entry, [], rest, rfl, reaches, none⟩
        · refine .inl fun other member => ?_
          rcases List.mem_cons.mp member with rfl | later
          · exact reaches
          · exact none other later
      · exact .inr ⟨last, entry :: front, back, rfl, found⟩

theorem Outcome.exists_write
    {Result : Entry → List Byte → Prop}
    {matters : Word → Prop}
    {before after : Memory 64}
    {entries : List Entry}
    {writes : Writes}
    {entry : Entry}
    (outcome : Outcome Result matters before after entries writes)
    (member : entry ∈ entries) :
    ∃ bytes, (entry, bytes) ∈ writes := by
  rw [← outcome.listed] at member
  obtain ⟨⟨_, bytes⟩, listed, rfl⟩ := List.mem_map.mp member
  exact ⟨bytes, listed⟩

theorem Outcome.entry_mem
    {Result : Entry → List Byte → Prop}
    {matters : Word → Prop}
    {before after : Memory 64}
    {entries : List Entry}
    {writes : Writes}
    {write : Entry × List Byte}
    (outcome : Outcome Result matters before after entries writes)
    (member : write ∈ writes) :
    write.1 ∈ entries := by
  rw [← outcome.listed]
  exact List.mem_map_of_mem member

/-- The stores of entries that are apart do not overlap. -/
theorem Outcome.stores_apart
    {Result : Entry → List Byte → Prop}
    {matters : Word → Prop}
    {before after : Memory 64}
    {entries : List Entry}
    {writes : Writes}
    (outcome : Outcome Result matters before after entries writes)
    (apart : entries.Pairwise Entry.Beside) :
    writes.stores.Pairwise fun first second =>
      ∀ address, ¬(distance first.1 address < first.2.length ∧
        distance second.1 address < second.2.length) := by
  rw [← outcome.listed, List.pairwise_map] at apart
  rw [Writes.stores, List.pairwise_map]
  refine apart.imp_of_mem ?_
  intro first second firstMember secondMember beside address both
  rw [outcome.eight first firstMember, outcome.eight second secondMember]
    at both
  obtain ⟨firstReaches, secondReaches⟩ := both
  exact beside address
    ⟨firstReaches.trans_le (Nat.le_max_left ..),
      secondReaches.trans_le (Nat.le_max_left ..)⟩

/-- At its target every entry shows the bytes that were stored for it. -/
theorem Outcome.shown
    {Result : Entry → List Byte → Prop}
    {matters : Word → Prop}
    {before after : Memory 64}
    {entries : List Entry}
    {writes : Writes}
    {entry : Entry}
    {bytes : List Byte}
    {index : Nat}
    (outcome : Outcome Result matters before after entries writes)
    (apart : entries.Pairwise Entry.Beside)
    (mapped :
      ∀ entry ∈ entries, ∀ address, entry.Touches address → matters address)
    (member : (entry, bytes) ∈ writes)
    (inside : index < 8) :
    after (entry.a + BitVec.ofNat 64 index) = bytes[index]? := by
  have near : index < max 8 entry.length := by
    omega
  have place := Entry.distance_target near
  have eight : bytes.length = 8 := outcome.eight _ member
  have stored : (entry.a, bytes) ∈ writes.stores :=
    List.mem_map_of_mem member
  have shown :=
    Memory.storeAll_inside before (outcome.stores_apart apart) stored
      (show distance entry.a (entry.a + BitVec.ofNat 64 index) <
        bytes.length by omega)
  rw [outcome.stored _ (mapped _ (outcome.entry_mem member) _
    (Entry.touches_target near)),
    shown, place]

/-- Out of reach of every store the memory is as it was. -/
theorem Outcome.kept
    {Result : Entry → List Byte → Prop}
    {matters : Word → Prop}
    {before after : Memory 64}
    {entries : List Entry}
    {writes : Writes}
    {address : Word}
    (outcome : Outcome Result matters before after entries writes)
    (here : matters address)
    (unreached : ∀ entry ∈ entries, ¬entry.Reaches address) :
    after address = before address := by
  rw [outcome.stored address here]
  refine Memory.storeAll_outside before ?_
  intro store stored
  obtain ⟨write, member, rfl⟩ := List.mem_map.mp stored
  rw [outcome.eight write member]
  exact Nat.le_of_not_lt (unreached write.1 (outcome.entry_mem member))

/-- What is stored for an entry shows wherever no later store reaches. -/
theorem Outcome.shown_last
    {Result : Entry → List Byte → Prop}
    {matters : Word → Prop}
    {before after : Memory 64}
    {front back : List Entry}
    {entry : Entry}
    {writes : Writes}
    (outcome :
      Outcome Result matters before after (front ++ entry :: back) writes) :
    ∃ bytes,
      bytes.length = 8 ∧ Result entry bytes ∧
        ∀ address, matters address → entry.Reaches address →
          (∀ other ∈ back, ¬other.Reaches address) →
          after address = bytes[distance entry.a address]? := by
  obtain ⟨earlier, others, rfl, -, listed⟩ :=
    List.map_eq_append_iff.mp outcome.listed
  obtain ⟨⟨written, bytes⟩, later, rfl, isEntry, rfl⟩ :=
    List.map_eq_cons_iff.mp listed
  obtain rfl : entry = written := isEntry.symm
  have member {write : Entry × List Byte} (isLater : write ∈ later) :
      write ∈ earlier ++ (entry, bytes) :: later :=
    List.mem_append_right _ (List.mem_cons_of_mem _ isLater)
  have here : (entry, bytes) ∈ earlier ++ (entry, bytes) :: later :=
    List.mem_append_right _ (List.mem_cons_self ..)
  have eight : bytes.length = 8 := outcome.eight _ here
  refine ⟨bytes, eight, outcome.result _ here, ?_⟩
  intro address here reaches unreached
  have stores :
      Writes.stores (earlier ++ (entry, bytes) :: later) =
        Writes.stores earlier ++ (entry.a, bytes) :: Writes.stores later := by
    rw [Writes.stores, List.map_append, List.map_cons]
    rfl
  rw [outcome.stored address here, stores]
  refine Memory.storeAll_last before _ (reaches.trans_eq eight.symm) ?_
  intro store stored
  obtain ⟨write, isLater, rfl⟩ := List.mem_map.mp stored
  rw [outcome.eight write (member isLater)]
  exact Nat.le_of_not_lt
    (unreached write.1 (List.mem_map_of_mem isLater))

/-- An address is as it was, or shows what was stored last. -/
theorem Outcome.cases
    {Result : Entry → List Byte → Prop}
    {matters : Word → Prop}
    {before after : Memory 64}
    {entries : List Entry}
    {writes : Writes}
    {address : Word}
    (outcome : Outcome Result matters before after entries writes)
    (here : matters address) :
    ((∀ entry ∈ entries, ¬entry.Reaches address) ∧
        after address = before address) ∨
      ∃ entry bytes,
        LastAt entries address entry ∧ bytes.length = 8 ∧
          Result entry bytes ∧
          after address = bytes[distance entry.a address]? := by
  rcases lastAt_cases entries address with
    none | ⟨entry, front, back, rfl, reaches, unreached⟩
  · exact .inl ⟨none, outcome.kept here none⟩
  · obtain ⟨bytes, eight, result, shown⟩ := outcome.shown_last
    exact .inr ⟨entry, bytes, ⟨front, back, rfl, reaches, unreached⟩, eight,
      result, shown address here reaches unreached⟩

end Hamachi.Loader
