import Hamachi.Buckets
import Hamachi.MacTableMap

namespace Hamachi.MacTable

/-!
# The growth loop of `set_mac_for_ip`

The loop relinks the entries of the old chains in place.  At every moment the
entries moved so far are distributed over the new buckets, and the chains not
walked yet are as they were, because no two entries share a block.
-/

/-- The entries of a table. -/
def entries (cap : Nat) (chains : Nat → List Stored) : List Stored :=
  collect cap chains

/-- The new chains after entries were moved. -/
def rehashed (ll : Nat) (moved : List Stored) : Nat → List Stored :=
  distribute ((bucketOf · ll) ∘ Stored.key) moved

/-- The new buckets hold the entries moved so far. -/
structure Holds
    (heap : Heap HashmapEntry)
    (e : List Addr)
    (ll : Nat)
    (moved : List Stored) : Prop where
  length : e.length = ll
  chain :
    ∀ {hsh head},
      e[hsh]? = some head → Chain heap head (rehashed ll moved hsh)

/-- A zero-filled array holds nothing. -/
theorem holds_zeroFilled
    (heap : Heap HashmapEntry)
    (ll : Nat) :
    Holds heap (List.replicate ll 0) ll [] where
  length := List.length_replicate
  chain := by
    intro hsh head atHead
    rw [List.getElem?_replicate] at atHead
    split at atHead
    · exact (Option.some.inj atHead).symm
    · cases atHead

section Loop

variable
  {heap : Heap HashmapEntry}
  {e : List Addr}
  {ll : Nat}
  {moved : List Stored}

/-- The body of the inner loop puts an entry to the front of its new bucket. -/
theorem Holds.relink
    (holds : Holds heap e ll moved)
    (positive : 0 < ll)
    {entry : Stored}
    (nonNull : entry.block ≠ 0)
    (isNew : entry.block ∉ moved.map Stored.block) :
    ∃ head,
      readBucket e (bucketOf entry.key ll) = .ok head ∧
        Holds
          (heap.set entry.block
            { key := entry.key, mac := entry.mac, next := head })
          (e.set (bucketOf entry.key ll) entry.block) ll
          (moved ++ [entry]) := by
  have inside : bucketOf entry.key ll < e.length := by
    rw [holds.length]
    exact bucketOf_lt entry.key positive
  have kept :
      ∀ {hsh head},
        e[hsh]? = some head →
          Chain
            (heap.set entry.block
              { key := entry.key
                mac := entry.mac
                next := e[bucketOf entry.key ll] })
            head (rehashed ll moved hsh) := by
    intro hsh head atHead
    refine (holds.chain atHead).congr fun other member => ?_
    apply Heap.load_set_other
    intro same
    apply isNew
    rw [← same]
    exact List.mem_map_of_mem (mem_distribute.mp member).1
  refine ⟨e[bucketOf entry.key ll], ?_, ?_, ?_⟩
  · simp [readBucket, inside]
  · rw [List.length_set]
    exact holds.length
  · intro hsh head atHead
    rw [rehashed, distribute_append_singleton]
    split
    · rename_i isBucket
      cases (show bucketOf entry.key ll = hsh from isBucket)
      rw [List.getElem?_set_self inside] at atHead
      cases atHead
      exact ⟨rfl, e[bucketOf entry.key ll],
        Heap.load_set_same heap nonNull _,
        kept (List.getElem?_eq_getElem inside)⟩
    · rename_i isOther
      have different : bucketOf entry.key ll ≠ hsh := isOther
      rw [List.getElem?_set_ne different] at atHead
      exact kept atHead

/-- The inner loop moves one chain. -/
theorem Holds.relinkChain
    (holds : Holds heap e ll moved)
    (positive : 0 < ll)
    {x : Addr}
    {chain : List Stored}
    (walks : Chain heap x chain)
    (blocksNodup : ((moved ++ chain).map Stored.block).Nodup) :
    ∃ relinked buckets,
      (∀ fuel,
        chain.length ≤ fuel →
        MacTable.relinkChain ll fuel heap e x = .ok (relinked, buckets)) ∧
        Holds relinked buckets ll (moved ++ chain) ∧
        relinked.live = heap.live ∧
        ∀ block,
          block ∉ chain.map Stored.block →
            relinked.load block = heap.load block := by
  induction chain generalizing heap e moved x with
  | nil =>
      have isNull : x = 0 := walks
      refine ⟨heap, e, fun fuel _ => ?_, ?_, rfl, fun _ _ => rfl⟩
      · unfold MacTable.relinkChain
        rw [if_pos isNull]
      · rwa [List.append_nil]
  | cons entry rest inductionHypothesis =>
      obtain ⟨rfl, next, loaded, later⟩ := walks
      have nonNull := Heap.load_ne_null loaded
      have blocks := blocksNodup
      rw [List.map_append, List.map_cons] at blocks
      obtain ⟨isOnce, _⟩ := List.nodup_cons.mp (List.nodup_middle.mp blocks)
      obtain ⟨notMoved, notLater⟩ :=
        not_or.mp fun member => isOnce (List.mem_append.mpr member)
      obtain ⟨head, reads, holdsMore⟩ :=
        holds.relink positive nonNull notMoved
      have kept :
          ∀ other ∈ rest, other.block ≠ entry.block := by
        intro other member same
        apply notLater
        rw [← same]
        exact List.mem_map_of_mem member
      obtain ⟨relinked, buckets, runs, holdsAll, live, others⟩ :=
        inductionHypothesis holdsMore
          (later.congr fun other member =>
            Heap.load_set_other heap (kept other member) _)
          (by rwa [List.append_assoc, List.singleton_append])
      refine ⟨relinked, buckets, fun fuel enough => ?_, ?_, live, ?_⟩
      · obtain ⟨fuel, rfl⟩ : ∃ less, fuel = less + 1 :=
          Nat.exists_eq_succ_of_ne_zero (by
            rintro rfl
            simp at enough)
        unfold MacTable.relinkChain
        simp only [nonNull, ↓reduceIte, loaded, ok_bind, reads,
          Heap.store_of_load loaded]
        exact runs fuel (by simpa using enough)
      · rwa [List.append_assoc, List.singleton_append] at holdsAll
      · intro block notMember
        rw [List.map_cons, List.mem_cons, not_or] at notMember
        rw [others block notMember.2,
          Heap.load_set_other heap notMember.1]

/-- Chains that do not meet the changed blocks stay chains. -/
theorem chains_congr
    {changed : Heap HashmapEntry}
    {data : List Addr}
    {chains : List (List Stored)}
    (walks : List.Forall₂ (Chain heap) data chains)
    (same :
      ∀ entry ∈ chains.flatten,
        changed.load entry.block = heap.load entry.block) :
    List.Forall₂ (Chain changed) data chains := by
  induction walks with
  | nil =>
      exact .nil
  | cons first _ inductionHypothesis =>
      simp only [List.flatten_cons, List.mem_append] at same
      exact .cons
        (first.congr fun entry member => same entry (.inl member))
        (inductionHypothesis fun entry member => same entry (.inr member))

/-- The outer loop moves all chains. -/
theorem Holds.relinkAll
    (holds : Holds heap e ll moved)
    (positive : 0 < ll)
    {data : List Addr}
    {chains : List (List Stored)}
    (walks : List.Forall₂ (Chain heap) data chains)
    (blocksNodup : ((moved ++ chains.flatten).map Stored.block).Nodup) :
    ∃ relinked buckets,
      (∀ fuel,
        chains.flatten.length ≤ fuel →
        MacTable.relinkAll fuel ll data heap e = .ok (relinked, buckets)) ∧
        Holds relinked buckets ll (moved ++ chains.flatten) ∧
        relinked.live = heap.live := by
  induction chains generalizing heap e moved data with
  | nil =>
      cases walks
      exact ⟨heap, e, fun _ _ => rfl, by simpa using holds, rfl⟩
  | cons chain chains inductionHypothesis =>
      cases walks with
      | @cons head _ data _ first rest =>
          rw [List.flatten_cons, ← List.append_assoc] at blocksNodup
          have blocks := blocksNodup
          rw [List.map_append] at blocks
          obtain ⟨notShared, _, apart⟩ := List.nodup_append.mp blocks
          obtain ⟨relinked, buckets, runs, holdsMore, live, others⟩ :=
            holds.relinkChain positive first notShared
          have walksOn :
              List.Forall₂ (Chain relinked) data chains := by
            refine chains_congr rest fun entry member => others _ ?_
            intro shared
            refine apart entry.block ?_ _ (List.mem_map_of_mem member) rfl
            rw [List.map_append]
            exact List.mem_append_right _ shared
          obtain ⟨final, array, runsOn, holdsAll, finalLive⟩ :=
            inductionHypothesis holdsMore walksOn blocksNodup
          refine ⟨final, array, fun fuel enough => ?_, ?_,
            finalLive.trans live⟩
          · rw [List.flatten_cons, List.length_append] at enough
            unfold MacTable.relinkAll
            simp only [runs fuel (by omega), ok_bind]
            exact runsOn fuel (by omega)
          · rwa [List.flatten_cons, ← List.append_assoc]

end Loop

/-- With distinct keys the first entry of a key is the entry of the key. -/
theorem lookup_eq_some_iff
    {addr : InAddr}
    {chain : List Stored}
    {entry : Stored}
    (keysNodup : (chain.map Stored.key).Nodup) :
    lookup addr chain = some entry ↔ entry ∈ chain ∧ entry.key = addr := by
  constructor
  · intro found
    exact ⟨List.mem_of_find?_eq_some found,
      by simpa using List.find?_some found⟩
  · rintro ⟨member, rfl⟩
    obtain ⟨other, found⟩ :=
      Option.isSome_iff_exists.mp
        (List.find?_isSome.mpr ⟨entry, member, decide_eq_true rfl⟩ :
          (chain.find? fun other => other.key = entry.key).isSome)
    have sameKey : other.key = entry.key := by
      simpa using List.find?_some found
    rw [lookup, found, List.inj_on_of_nodup_map keysNodup
      (List.mem_of_find?_eq_some found) member sameKey]

namespace WellFormed

variable
  {table : MacTable}
  {chains : Nat → List Stored}

/-- The entries of a well-formed table have distinct keys. -/
theorem entries_keysNodup
    (wellFormed : WellFormed table chains) :
    ((entries table.cap chains).map Stored.key).Nodup :=
  @nodup_collect _ _ _ _ Stored.key (bucketOf · table.cap)
    (fun _ bound _ member =>
      wellFormed.inBucket bound (List.mem_map_of_mem member))
    (fun _ bound => wellFormed.keysNodup bound)

/-- The chains of a well-formed table do not share blocks. -/
theorem entries_blocksNodup
    (wellFormed : WellFormed table chains) :
    ((entries table.cap chains).map Stored.block).Nodup := by
  refine List.Nodup.map_on ?_ wellFormed.entries_keysNodup.of_map
  intro entry inEntries other inOthers sameBlock
  obtain ⟨first, firstBound, member⟩ := mem_collect.mp inEntries
  obtain ⟨second, secondBound, otherMember⟩ := mem_collect.mp inOthers
  exact List.inj_on_of_nodup_map wellFormed.entries_keysNodup inEntries
    inOthers
    (wellFormed.key_eq_of_block_eq secondBound firstBound otherMember
      member sameBlock)

/-- What a well-formed table says of an address. -/
theorem contents_eq_some_iff
    (wellFormed : WellFormed table chains)
    {addr : InAddr}
    {mac : Mac} :
    contents table.cap chains addr = some mac ↔
      ∃ entry ∈ entries table.cap chains,
        entry.key = addr ∧ entry.mac = mac := by
  unfold contents
  rcases Nat.eq_zero_or_pos table.cap with isZero | positive
  · simp [isZero, entries, collect]
  rw [if_neg (Nat.ne_of_gt positive), Option.map_eq_some_iff]
  have bound := bucketOf_lt addr positive
  constructor
  · rintro ⟨entry, found, isMac⟩
    obtain ⟨member, isKey⟩ :=
      (lookup_eq_some_iff (wellFormed.keysNodup bound)).mp found
    exact ⟨entry, mem_collect.mpr ⟨_, bound, member⟩, isKey, isMac⟩
  · rintro ⟨entry, member, rfl, isMac⟩
    obtain ⟨hsh, below, inChain⟩ := mem_collect.mp member
    cases wellFormed.inBucket below (List.mem_map_of_mem inChain)
    exact ⟨entry,
      (lookup_eq_some_iff (wellFormed.keysNodup bound)).mpr ⟨inChain, rfl⟩,
      isMac⟩

/-- The heads of the buckets and their chains. -/
theorem walks
    (wellFormed : WellFormed table chains) :
    List.Forall₂ (Chain table.heap) table.data
      ((List.range table.cap).map chains) := by
  rw [List.forall₂_iff_get]
  refine ⟨by simp [wellFormed.length], fun index inside _ => ?_⟩
  rw [List.get_eq_getElem, List.get_eq_getElem, List.getElem_map,
    List.getElem_range]
  exact wellFormed.chain (List.getElem?_eq_getElem inside)

/-- A table whose buckets hold the entries of a well-formed one is well
formed. -/
theorem of_holds
    (wellFormed : WellFormed table chains)
    {heap : Heap HashmapEntry}
    {e : List Addr}
    {ll : Nat}
    (holds : Holds heap e ll (entries table.cap chains))
    (sameLive : heap.live = table.heap.live) :
    WellFormed { table with heap := heap, data := e, cap := ll }
      (rehashed ll (entries table.cap chains)) where
  length := holds.length
  chain := holds.chain
  inBucket := by
    intro hsh key _ member
    obtain ⟨entry, inChain, rfl⟩ := List.mem_map.mp member
    exact (mem_distribute.mp inChain).2
  keysNodup := by
    intro hsh _
    exact nodup_distribute wellFormed.entries_keysNodup hsh
  live := by
    intro hsh block _ member
    obtain ⟨entry, inChain, rfl⟩ := List.mem_map.mp member
    obtain ⟨old, bound, inOld⟩ :=
      mem_collect.mp (mem_distribute.mp inChain).1
    change _ ∈ heap.live
    rw [sameLive]
    exact wellFormed.live bound (List.mem_map_of_mem inOld)

/-- Two well-formed tables with the same entries say the same. -/
theorem contents_eq_of_perm
    {other : MacTable}
    {otherChains : Nat → List Stored}
    (wellFormed : WellFormed table chains)
    (otherWellFormed : WellFormed other otherChains)
    (same : (entries other.cap otherChains).Perm (entries table.cap chains)) :
    contents other.cap otherChains = contents table.cap chains := by
  funext addr
  apply Option.ext
  intro mac
  simp only [wellFormed.contents_eq_some_iff,
    otherWellFormed.contents_eq_some_iff, same.mem_iff]

/-- Enough fuel for every entry is enough for a lookup. -/
theorem getMacForIp_entries
    (wellFormed : WellFormed table chains)
    (addr : InAddr)
    {fuel : Nat}
    (enough : (entries table.cap chains).length ≤ fuel) :
    MacTable.getMacForIp fuel table addr =
      .ok (contents table.cap chains addr) := by
  rcases Nat.eq_zero_or_pos table.cap with isZero | positive
  · simp [MacTable.getMacForIp, MacTable.getMacForIpInternal, isZero,
      contents]
  · exact wellFormed.getMacForIp addr
      ((length_le_collect (bucketOf_lt addr positive)).trans enough)

/-- The growth loop keeps the table: it ends, and the table with the new buckets
is well formed, has the same entries and gives the same answers. -/
theorem growth_keeps_entries
    (wellFormed : WellFormed table chains) :
    ∃ grown chains',
      grown.cap = 2 * table.cap + 1 ∧
        grown.l = table.l ∧
        WellFormed grown chains' ∧
        ((entries grown.cap chains').map Stored.block).Nodup ∧
        (entries grown.cap chains').Perm (entries table.cap chains) ∧
        ∀ fuel,
          (entries table.cap chains).length ≤ fuel →
          MacTable.relinkAll fuel (2 * table.cap + 1) table.data table.heap
                (List.replicate (2 * table.cap + 1) 0) =
              .ok (grown.heap, grown.data) ∧
            (table.l = 2 * table.cap →
              growIfFull fuel table (fun _ => 0) = .ok grown) ∧
            ∀ addr,
              ∃ answer,
                MacTable.getMacForIp fuel table addr = .ok answer ∧
                  MacTable.getMacForIp fuel grown addr = .ok answer := by
  have positive : 0 < 2 * table.cap + 1 := Nat.succ_pos _
  have flat :
      ((List.range table.cap).map chains).flatten =
        entries table.cap chains :=
    List.flatMap_def.symm
  obtain ⟨heap, e, runs, holds, sameLive⟩ :=
    (holds_zeroFilled table.heap (2 * table.cap + 1)).relinkAll positive
      wellFormed.walks
      (by
        rw [flat]
        exact wellFormed.entries_blocksNodup)
  rw [flat, List.nil_append] at holds
  rw [flat] at runs
  have grownWellFormed := wellFormed.of_holds holds sameLive
  have same :
      (entries (2 * table.cap + 1)
        (rehashed (2 * table.cap + 1) (entries table.cap chains))).Perm
        (entries table.cap chains) :=
    collect_distribute_perm wellFormed.entries_keysNodup
      fun entry _ => bucketOf_lt entry.key positive
  refine
    ⟨{ table with heap := heap, data := e, cap := 2 * table.cap + 1 },
      rehashed (2 * table.cap + 1) (entries table.cap chains), rfl, rfl,
      grownWellFormed, grownWellFormed.entries_blocksNodup, same,
      fun fuel enough =>
        ⟨runs fuel enough, fun isFull => ?_, fun addr => ?_⟩⟩
  · have zeros :
        (List.range (2 * table.cap + 1)).map (fun _ => 0) =
          List.replicate (2 * table.cap + 1) 0 := by
      simp
    unfold growIfFull
    rw [if_pos isFull]
    simp only [zeros, runs fuel enough, ok_bind]
  · refine ⟨_, wellFormed.getMacForIp_entries addr enough, ?_⟩
    rw [grownWellFormed.getMacForIp_entries addr
        (same.length_eq.trans_le enough),
      wellFormed.contents_eq_of_perm grownWellFormed same]

end WellFormed

/-- An entry for an address. -/
def exampleEntry (block : Addr) (key : InAddr) : Stored :=
  ⟨block, key, .of [2, 0, 0, 0, 0, 1]⟩

/-- One bucket with two entries in its chain. -/
def twoEntries : MacTable where
  heap :=
    { cell := fun address =>
        if address = 64 then
          some ⟨0x0100000a, .of [2, 0, 0, 0, 0, 1], 128⟩
        else if address = 128 then
          some ⟨0x0200000a, .of [2, 0, 0, 0, 0, 1], 0⟩
        else
          none
      live := {64, 128} }
  data := [64]
  l := 2
  cap := 1

theorem twoEntries_wellFormed :
    WellFormed twoEntries
      fun _ => [exampleEntry 64 0x0100000a, exampleEntry 128 0x0200000a] where
  length := rfl
  chain := by
    intro hsh head atHead
    rcases hsh with _ | later
    · cases atHead
      exact ⟨rfl, 128, rfl, rfl, 0, rfl, rfl⟩
    · cases atHead
  inBucket := by
    intro hsh key bound _
    have isZero : hsh = 0 := Nat.lt_one_iff.mp bound
    rw [isZero]
    exact Nat.mod_one _
  keysNodup := by
    intro hsh _
    decide
  live := by
    intro hsh block _ member
    simpa [exampleEntry, twoEntries] using member

/-- The two entries are spread over three buckets. -/
theorem growth_keeps_entries_two :
    ∃ grown chains,
      grown.cap = 3 ∧
        WellFormed grown chains ∧
        (entries 3 chains).Perm
          [exampleEntry 64 0x0100000a, exampleEntry 128 0x0200000a] ∧
        growIfFull 2 twoEntries (fun _ => 0) = .ok grown := by
  obtain ⟨grown, chains, isThree, _, wellFormed, _, same, grows⟩ :=
    twoEntries_wellFormed.growth_keeps_entries
  change grown.cap = 3 at isThree
  rw [isThree] at same
  exact ⟨grown, chains, isThree, wellFormed, same,
    (grows 2 (by decide)).2.1 rfl⟩

end Hamachi.MacTable
