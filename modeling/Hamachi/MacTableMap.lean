import Hamachi.MacTable

namespace Hamachi

/-!
# The IP-to-MAC table as a map

`map.c` is meant to be a last-write-wins map from addresses to MACs.  A table
is well formed when every bucket head starts a finite chain of entries of that
bucket; lookups and insertions in a well-formed table are those of the map.
-/

/-- The purpose of the table. -/
abbrev MacMap := InAddr → Option Mac

namespace MacMap

/-- The map without entries. -/
def empty : MacMap :=
  fun _ => none

/-- Overwrite one address. -/
def set (map : MacMap) (addr : InAddr) (mac : Mac) : MacMap :=
  Function.update map addr (some mac)

end MacMap

namespace MacTable

/-- An entry of the table and the block that holds it. -/
structure Stored where
  block : Addr
  key : InAddr
  mac : Mac

/-- Following `next` from `x` visits exactly `entries` and ends. -/
def Chain (heap : Heap HashmapEntry) : Addr → List Stored → Prop
  | x, [] => x = 0
  | x, entry :: rest =>
      x = entry.block ∧
        ∃ next,
          heap.load entry.block =
              .ok { key := entry.key, mac := entry.mac, next := next } ∧
            Chain heap next rest

/-- The first entry of a chain with a given key. -/
def lookup (addr : InAddr) (entries : List Stored) : Option Stored :=
  entries.find? fun entry => entry.key = addr

namespace Chain

variable {heap changed : Heap HashmapEntry}

/-- Only the blocks of a chain matter to it. -/
theorem congr
    {x : Addr}
    {entries : List Stored}
    (chain : Chain heap x entries)
    (same :
      ∀ entry,
        entry ∈ entries →
        changed.load entry.block = heap.load entry.block) :
    Chain changed x entries := by
  induction entries generalizing x with
  | nil =>
      exact chain
  | cons entry rest inductionHypothesis =>
      obtain ⟨isHead, next, loaded, later⟩ := chain
      refine ⟨isHead, next, ?_, ?_⟩
      · rw [same entry (by simp), loaded]
      · exact inductionHypothesis later fun other member =>
          same other (by simp [member])

/-- Every entry of a chain can be read. -/
theorem load_of_mem
    {x : Addr}
    {entries : List Stored}
    (chain : Chain heap x entries)
    {entry : Stored}
    (member : entry ∈ entries) :
    ∃ next,
      heap.load entry.block =
        .ok { key := entry.key, mac := entry.mac, next := next } := by
  induction entries generalizing x with
  | nil =>
      simp at member
  | cons head rest inductionHypothesis =>
      obtain ⟨_, next, loaded, later⟩ := chain
      rcases List.mem_cons.mp member with isHead | inRest
      · subst isHead
        exact ⟨next, loaded⟩
      · exact inductionHypothesis later inRest

/-- The walk over a chain finds the first entry with the key. -/
theorem findEntry
    {x : Addr}
    {entries : List Stored}
    (chain : Chain heap x entries)
    (addr : InAddr)
    {fuel : Nat}
    (enough : entries.length ≤ fuel) :
    MacTable.findEntry heap addr fuel x =
      .ok (((lookup addr entries).map Stored.block).getD 0) := by
  induction entries generalizing x fuel with
  | nil =>
      have isNull : x = 0 := chain
      unfold MacTable.findEntry
      simp [isNull, lookup]
  | cons entry rest inductionHypothesis =>
      obtain ⟨isHead, next, loaded, later⟩ := chain
      have nonNull : entry.block ≠ 0 := Heap.load_ne_null loaded
      obtain ⟨less, rfl⟩ : ∃ less, fuel = less + 1 :=
        Nat.exists_eq_succ_of_ne_zero (by
          rintro rfl
          simp at enough)
      unfold MacTable.findEntry
      simp only [isHead, nonNull, ↓reduceIte, loaded, ok_bind]
      by_cases found : entry.key = addr
      · simp [found, lookup]
      · simp only [found, ↓reduceIte]
        rw [inductionHypothesis later (by simpa using enough)]
        simp [lookup, found]

/-- Overwriting the MAC of an entry with a fresh key list keeps the chain. -/
theorem setMac
    {x : Addr}
    {leading trailing : List Stored}
    {entry : Stored}
    (chain : Chain heap x (leading ++ entry :: trailing))
    (notLeading : ∀ other, other ∈ leading → other.block ≠ entry.block)
    (notTrailing : ∀ other, other ∈ trailing → other.block ≠ entry.block)
    {next : Addr}
    (loaded :
      heap.load entry.block =
        .ok { key := entry.key, mac := entry.mac, next := next })
    (mac : Mac) :
    Chain
      (heap.set entry.block { key := entry.key, mac := mac, next := next })
      x (leading ++ { entry with mac := mac } :: trailing) := by
  induction leading generalizing x with
  | nil =>
      obtain ⟨isHead, next', loaded', later⟩ := chain
      have sameNext : next' = next := by
        rw [loaded] at loaded'
        injection loaded' with same
        injection same with _ _ sameNext
        exact sameNext.symm
      subst sameNext
      refine ⟨isHead, next',
        Heap.load_set_same heap (Heap.load_ne_null loaded) _, ?_⟩
      exact later.congr fun other member =>
        Heap.load_set_other heap (notTrailing other member) _
  | cons head rest inductionHypothesis =>
      obtain ⟨isHead, next', loaded', later⟩ := chain
      refine ⟨isHead, next', ?_, ?_⟩
      · rw [Heap.load_set_other heap (notLeading head (by simp)) _]
        exact loaded'
      · exact inductionHypothesis later fun other member =>
          notLeading other (by simp [member])

end Chain

/-- Every bucket is a finite chain of the keys that hash to it, once each. -/
structure WellFormed
    (table : MacTable)
    (chains : Nat → List Stored) : Prop where
  length :
    table.data.length = table.cap
  chain :
    ∀ {hsh head},
      table.data[hsh]? = some head →
      Chain table.heap head (chains hsh)
  inBucket :
    ∀ {hsh key},
      hsh < table.cap →
      key ∈ (chains hsh).map Stored.key →
      bucketOf key table.cap = hsh
  keysNodup :
    ∀ {hsh},
      hsh < table.cap →
      ((chains hsh).map Stored.key).Nodup
  live :
    ∀ {hsh block},
      hsh < table.cap →
      block ∈ (chains hsh).map Stored.block →
      block ∈ table.heap.live

/-- The map that the chains of a table stand for. -/
def contents (cap : Nat) (chains : Nat → List Stored) : MacMap :=
  fun addr =>
    if cap = 0 then
      none
    else
      (lookup addr (chains (bucketOf addr cap))).map Stored.mac

/-- A new chain for the bucket of an address writes one entry of the map. -/
theorem contents_update
    {cap : Nat}
    (positive : 0 < cap)
    {chains : Nat → List Stored}
    {addr : InAddr}
    {mac : Mac}
    {entries : List Stored}
    (written : (lookup addr entries).map Stored.mac = some mac)
    (kept :
      ∀ query,
        query ≠ addr →
        (lookup query entries).map Stored.mac =
          (lookup query (chains (bucketOf addr cap))).map Stored.mac) :
    contents cap (Function.update chains (bucketOf addr cap) entries) =
      (contents cap chains).set addr mac := by
  funext query
  by_cases sameAddr : query = addr
  · subst sameAddr
    simp [contents, MacMap.set, Nat.ne_of_gt positive, written]
  · rw [MacMap.set, Function.update_of_ne sameAddr]
    simp only [contents, Nat.ne_of_gt positive, ↓reduceIte]
    by_cases sameBucket : bucketOf query cap = bucketOf addr cap
    · rw [sameBucket, Function.update_self]
      exact kept query sameAddr
    · rw [Function.update_of_ne sameBucket]

namespace WellFormed

variable
  {table : MacTable}
  {chains : Nat → List Stored}

/-- The head of a bucket below the capacity exists. -/
theorem readBucket
    (wellFormed : WellFormed table chains)
    {hsh : Nat}
    (bound : hsh < table.cap) :
    ∃ head,
      MacTable.readBucket table.data hsh = .ok head ∧
        table.data[hsh]? = some head := by
  have inData : hsh < table.data.length := by
    rw [wellFormed.length]
    exact bound
  refine ⟨table.data[hsh], ?_, List.getElem?_eq_getElem inData⟩
  simp [MacTable.readBucket, inData]

/-- The internal lookup finds the entry of the address in its bucket. -/
theorem getMacForIpInternal
    (wellFormed : WellFormed table chains)
    (positive : 0 < table.cap)
    (addr : InAddr)
    {fuel : Nat}
    (enough : (chains (bucketOf addr table.cap)).length ≤ fuel) :
    MacTable.getMacForIpInternal fuel table addr =
      .ok (((lookup addr (chains (bucketOf addr table.cap))).map
        Stored.block).getD 0) := by
  obtain ⟨head, reads, atHead⟩ :=
    wellFormed.readBucket (bucketOf_lt addr positive)
  unfold MacTable.getMacForIpInternal
  simp only [Nat.ne_of_gt positive, ↓reduceIte, reads, ok_bind]
  exact (wellFormed.chain atHead).findEntry addr enough

/-- A lookup in a well-formed table is a lookup in its map. -/
theorem getMacForIp
    (wellFormed : WellFormed table chains)
    (addr : InAddr)
    {fuel : Nat}
    (enough : (chains (bucketOf addr table.cap)).length ≤ fuel) :
    MacTable.getMacForIp fuel table addr =
      .ok (contents table.cap chains addr) := by
  unfold MacTable.getMacForIp
  rcases Nat.eq_zero_or_pos table.cap with isZero | positive
  · simp [MacTable.getMacForIpInternal, isZero, contents]
  · rw [wellFormed.getMacForIpInternal positive addr enough]
    simp only [contents, Nat.ne_of_gt positive, ↓reduceIte, ok_bind]
    cases found :
        lookup addr (chains (bucketOf addr table.cap)) with
    | none =>
        simp
    | some entry =>
        obtain ⟨head, _, atHead⟩ :=
          wellFormed.readBucket (bucketOf_lt addr positive)
        obtain ⟨next, loaded⟩ :=
          (wellFormed.chain atHead).load_of_mem
            (List.mem_of_find?_eq_some found)
        have nonNull : entry.block ≠ 0 := Heap.load_ne_null loaded
        simp [nonNull, loaded]

/-- A bucket that exists is below the capacity. -/
theorem lt_cap
    (wellFormed : WellFormed table chains)
    {hsh : Nat}
    {head : Addr}
    (atHead : table.data[hsh]? = some head) :
    hsh < table.cap := by
  rw [← wellFormed.length]
  exact (List.getElem?_eq_some_iff.mp atHead).1

/-- An entry of a bucket can be read. -/
theorem load_entry
    (wellFormed : WellFormed table chains)
    {hsh : Nat}
    {entry : Stored}
    (bound : hsh < table.cap)
    (member : entry ∈ chains hsh) :
    ∃ next,
      table.heap.load entry.block =
        .ok { key := entry.key, mac := entry.mac, next := next } := by
  obtain ⟨head, _, atHead⟩ := wellFormed.readBucket bound
  exact (wellFormed.chain atHead).load_of_mem member

/-- One block holds one key. -/
theorem key_eq_of_block_eq
    (wellFormed : WellFormed table chains)
    {first second : Nat}
    {entry other : Stored}
    (firstBound : first < table.cap)
    (secondBound : second < table.cap)
    (entryMember : entry ∈ chains first)
    (otherMember : other ∈ chains second)
    (sameBlock : other.block = entry.block) :
    other.key = entry.key := by
  obtain ⟨next, loaded⟩ := wellFormed.load_entry firstBound entryMember
  obtain ⟨next', loaded'⟩ := wellFormed.load_entry secondBound otherMember
  rw [sameBlock, loaded] at loaded'
  injection loaded' with same
  injection same with sameKey
  exact sameKey.symm

/-- The blocks of two buckets are different. -/
theorem block_ne_of_bucket_ne
    (wellFormed : WellFormed table chains)
    {first second : Nat}
    {entry other : Stored}
    (firstBound : first < table.cap)
    (secondBound : second < table.cap)
    (entryMember : entry ∈ chains first)
    (otherMember : other ∈ chains second)
    (different : second ≠ first) :
    other.block ≠ entry.block := by
  intro sameBlock
  have sameKey :=
    wellFormed.key_eq_of_block_eq firstBound secondBound
      entryMember otherMember sameBlock
  apply different
  rw [← wellFormed.inBucket firstBound (List.mem_map_of_mem entryMember),
    ← wellFormed.inBucket secondBound (List.mem_map_of_mem otherMember),
    sameKey]

/-- A table with one bucket replaced is well formed when the new chain is. -/
theorem update
    (wellFormed : WellFormed table chains)
    {changed : MacTable}
    {bucket : Nat}
    {entries : List Stored}
    (sameCap : changed.cap = table.cap)
    (sameLength : changed.data.length = table.data.length)
    (chain :
      ∀ head,
        changed.data[bucket]? = some head →
        Chain changed.heap head entries)
    (sameHeads :
      ∀ hsh, hsh ≠ bucket → changed.data[hsh]? = table.data[hsh]?)
    (sameBlocks :
      ∀ hsh entry,
        hsh < table.cap →
        hsh ≠ bucket →
        entry ∈ chains hsh →
        changed.heap.load entry.block = table.heap.load entry.block)
    (inBucket :
      ∀ key,
        key ∈ entries.map Stored.key →
        bucketOf key table.cap = bucket)
    (keysNodup : (entries.map Stored.key).Nodup)
    (live :
      ∀ block,
        block ∈ entries.map Stored.block →
        block ∈ changed.heap.live)
    (stillLive : table.heap.live ⊆ changed.heap.live) :
    WellFormed changed (Function.update chains bucket entries) where
  length := by
    rw [sameLength, sameCap, wellFormed.length]
  chain := by
    intro hsh head atHead
    by_cases same : hsh = bucket
    · subst same
      rw [Function.update_self]
      exact chain head atHead
    · rw [Function.update_of_ne same]
      rw [sameHeads hsh same] at atHead
      exact (wellFormed.chain atHead).congr fun entry member =>
        sameBlocks hsh entry (wellFormed.lt_cap atHead) same member
  inBucket := by
    intro hsh key bound member
    rw [sameCap] at bound ⊢
    by_cases same : hsh = bucket
    · subst same
      rw [Function.update_self] at member
      exact inBucket key member
    · rw [Function.update_of_ne same] at member
      exact wellFormed.inBucket bound member
  keysNodup := by
    intro hsh bound
    rw [sameCap] at bound
    by_cases same : hsh = bucket
    · subst same
      rw [Function.update_self]
      exact keysNodup
    · rw [Function.update_of_ne same]
      exact wellFormed.keysNodup bound
  live := by
    intro hsh block bound member
    rw [sameCap] at bound
    by_cases same : hsh = bucket
    · subst same
      rw [Function.update_self] at member
      exact live block member
    · rw [Function.update_of_ne same] at member
      exact stillLive (wellFormed.live bound member)

/-- An entry with a key of its own has a block of its own. -/
theorem block_ne_of_split
    (wellFormed : WellFormed table chains)
    {hsh : Nat}
    (bound : hsh < table.cap)
    {leading trailing : List Stored}
    {entry : Stored}
    (shape : chains hsh = leading ++ entry :: trailing)
    {other : Stored}
    (otherMember : other ∈ leading ++ trailing) :
    other.block ≠ entry.block := by
  intro sameBlock
  have keysNodup := wellFormed.keysNodup bound
  rw [shape, List.map_append, List.map_cons] at keysNodup
  have keyOnce := (List.nodup_cons.mp (List.nodup_middle.mp keysNodup)).1
  have sameKey :=
    wellFormed.key_eq_of_block_eq bound bound
      (by
        rw [shape]
        exact List.mem_append_right _ List.mem_cons_self)
      (by
        rw [shape]
        rcases List.mem_append.mp otherMember with inLeading | inTrailing
        · exact List.mem_append_left _ inLeading
        · exact List.mem_append_right _
            (List.mem_cons_of_mem _ inTrailing))
      sameBlock
  apply keyOnce
  rw [← sameKey, ← List.map_append]
  exact List.mem_map_of_mem otherMember

/-- `set_mac_for_ip` on a known address overwrites that address only. -/
theorem setMacForIp_known
    (wellFormed : WellFormed table chains)
    (positive : 0 < table.cap)
    {addr : InAddr}
    {entry : Stored}
    (found :
      lookup addr (chains (bucketOf addr table.cap)) = some entry)
    (mac : Mac)
    (allocation : MapAllocation) :
    ∃ changed chains',
      (∀ fuel,
        (chains (bucketOf addr table.cap)).length ≤ fuel →
        MacTable.setMacForIp fuel table addr mac allocation =
          .ok changed) ∧
        WellFormed changed chains' ∧
        changed.cap = table.cap ∧
        changed.l = table.l ∧
        contents table.cap chains' =
          (contents table.cap chains).set addr mac ∧
        (∀ hsh, (chains' hsh).length = (chains hsh).length) ∧
        changed.heap.live = table.heap.live := by
  have bound := bucketOf_lt addr positive
  obtain ⟨isKey, leading, trailing, shape, others⟩ :=
    List.find?_eq_some_iff_append.mp found
  have isKey : entry.key = addr := by simpa using isKey
  have member : entry ∈ chains (bucketOf addr table.cap) :=
    List.mem_of_find?_eq_some found
  obtain ⟨next, loaded⟩ := wellFormed.load_entry bound member
  have blockOnce :
      ∀ other,
        other ∈ leading ++ trailing →
        other.block ≠ entry.block :=
    fun other => wellFormed.block_ne_of_split bound shape
  let entries := leading ++ { entry with mac := mac } :: trailing
  have sameKeys :
      entries.map Stored.key =
        (chains (bucketOf addr table.cap)).map Stored.key := by
    simp [entries, shape]
  have sameBlocks :
      entries.map Stored.block =
        (chains (bucketOf addr table.cap)).map Stored.block := by
    simp [entries, shape]
  refine
    ⟨{ table with
        heap := table.heap.set entry.block
          { key := entry.key, mac := mac, next := next } },
      Function.update chains (bucketOf addr table.cap) entries, ?_,
      wellFormed.update rfl rfl ?_ (fun _ _ => rfl) ?_ ?_ ?_ ?_
        (Finset.Subset.refl _),
      rfl, rfl, contents_update positive ?_ ?_, ?_, rfl⟩
  · intro fuel enough
    unfold MacTable.setMacForIp
    rw [wellFormed.getMacForIpInternal positive addr enough, found]
    have nonNull : entry.block ≠ 0 := Heap.load_ne_null loaded
    simp [nonNull, loaded, Heap.store_of_load loaded]
  · intro head atHead
    have chain := wellFormed.chain atHead
    rw [shape] at chain
    exact chain.setMac
      (fun other inLeading =>
        blockOnce other (List.mem_append_left _ inLeading))
      (fun other inTrailing =>
        blockOnce other (List.mem_append_right _ inTrailing))
      loaded mac
  · intro hsh other otherBound different otherMember
    apply Heap.load_set_other
    exact wellFormed.block_ne_of_bucket_ne bound otherBound member
      otherMember different
  · intro key keyMember
    rw [sameKeys] at keyMember
    exact wellFormed.inBucket bound keyMember
  · rw [sameKeys]
    exact wellFormed.keysNodup bound
  · intro block blockMember
    rw [sameBlocks] at blockMember
    exact wellFormed.live bound blockMember
  · have notLeading :
        leading.find? (fun other => other.key = addr) = none :=
      List.find?_eq_none.mpr fun other inLeading => by
        simpa using others other inLeading
    simp [entries, lookup, List.find?_append, notLeading, isKey]
  · intro query different
    have notKey : entry.key ≠ query := by
      rw [isKey]
      exact different.symm
    simp [entries, shape, lookup, List.find?_append, notKey]
  · intro hsh
    by_cases same : hsh = bucketOf addr table.cap
    · subst same
      simp [entries, shape]
    · simp [same]

/-- The block of a new entry is not used by the table yet. -/
theorem block_ne_available
    (wellFormed : WellFormed table chains)
    {block : Addr}
    (available : table.heap.Available block)
    {hsh : Nat}
    {entry : Stored}
    (bound : hsh < table.cap)
    (member : entry ∈ chains hsh) :
    entry.block ≠ block := by
  rintro rfl
  exact available.2
    (wellFormed.live bound (List.mem_map_of_mem member))

/-- The insertion at the end of `set_mac_for_ip` adds the new address only. -/
theorem insertEntry
    (wellFormed : WellFormed table chains)
    (positive : 0 < table.cap)
    {addr : InAddr}
    (unknown : lookup addr (chains (bucketOf addr table.cap)) = none)
    (mac : Mac)
    (allocation : MapAllocation)
    (available : table.heap.Available allocation.entry) :
    ∃ changed chains',
      MacTable.insertEntry table addr mac allocation = .ok changed ∧
        WellFormed changed chains' ∧
        changed.cap = table.cap ∧
        changed.l = table.l ∧
        contents table.cap chains' =
          (contents table.cap chains).set addr mac ∧
        (∀ hsh, (chains' hsh).length ≤ (chains hsh).length + 1) ∧
        changed.heap.live =
          insert allocation.entry table.heap.live := by
  have bound := bucketOf_lt addr positive
  obtain ⟨head, reads, atHead⟩ := wellFormed.readBucket bound
  have nonNull := available.1
  let stored : Stored :=
    { block := allocation.entry, key := addr, mac := mac }
  let heap :=
    (table.heap.malloc allocation.entry allocation.entryJunk).set
      allocation.entry { key := addr, mac := mac, next := head }
  have loadedNew :
      heap.load allocation.entry =
        .ok { key := addr, mac := mac, next := head } :=
    Heap.load_set_same _ nonNull _
  have loadedOld :
      ∀ {hsh entry},
        hsh < table.cap →
        entry ∈ chains hsh →
        heap.load entry.block = table.heap.load entry.block := by
    intro hsh entry entryBound member
    have different :=
      wellFormed.block_ne_available available entryBound member
    rw [Heap.load_set_other _ different, Heap.load_malloc_other _ different]
  have live : heap.live = insert allocation.entry table.heap.live :=
    Heap.live_malloc _ nonNull _
  refine
    ⟨{ table with
        heap := heap
        data :=
          table.data.set (bucketOf addr table.cap) allocation.entry },
      Function.update chains (bucketOf addr table.cap)
        (stored :: chains (bucketOf addr table.cap)),
      ?_,
      wellFormed.update rfl (by simp) ?_ ?_ ?_ ?_ ?_ ?_ ?_,
      rfl, rfl, contents_update positive ?_ ?_, ?_, live⟩
  · have loadedJunk :=
      Heap.load_malloc_same table.heap nonNull allocation.entryJunk
    simp [MacTable.insertEntry, reads, Heap.store_of_load loadedJunk, heap]
  · intro other atOther
    rw [List.getElem?_set_self (by
      rw [wellFormed.length]
      exact bound)] at atOther
    injection atOther with isEntry
    subst isEntry
    refine ⟨rfl, head, loadedNew, ?_⟩
    exact (wellFormed.chain atHead).congr fun entry member =>
      loadedOld bound member
  · intro hsh different
    exact List.getElem?_set_ne (Ne.symm different)
  · intro hsh entry entryBound _ member
    exact loadedOld entryBound member
  · intro key keyMember
    rcases List.mem_cons.mp keyMember with isNew | isOld
    · rw [isNew]
    · exact wellFormed.inBucket bound isOld
  · refine List.nodup_cons.mpr ⟨?_, wellFormed.keysNodup bound⟩
    intro member
    obtain ⟨entry, inChain, sameKey⟩ := List.mem_map.mp member
    have absent := List.find?_eq_none.mp unknown entry inChain
    have sameKey : entry.key = addr := sameKey
    simp [sameKey] at absent
  · intro block blockMember
    rw [live]
    rcases List.mem_cons.mp blockMember with isNew | isOld
    · rw [isNew]
      exact Finset.mem_insert_self _ _
    · exact Finset.mem_insert_of_mem (wellFormed.live bound isOld)
  · rw [live]
    exact Finset.subset_insert _ _
  · simp [lookup, stored]
  · intro query different
    simp [lookup, stored, show addr ≠ query from Ne.symm different]
  · intro hsh
    by_cases same : hsh = bucketOf addr table.cap
    · subst same
      simp
    · simp [same]

end WellFormed

end MacTable

end Hamachi
