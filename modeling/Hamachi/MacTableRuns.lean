import Hamachi.MacTableMap

namespace Hamachi.MacTable

/-!
# Sequences of `set_mac_for_ip` calls

The entry count `l` never moves, so the table grows once, from no bucket to
one, and that bucket starts with whatever `malloc` left in it.  A sequence of
calls acts as a map exactly when that word is null; otherwise a walk that
misses every entry runs off the end of the chain.
-/

/-- One call, with what the host's `malloc` would return in it. -/
structure SetCall where
  addr : InAddr
  mac : Mac
  allocation : MapAllocation

/-- Execute a sequence of calls. -/
def setAll
    (fuel : Nat)
    (table : MacTable)
    (calls : List SetCall) : Except Fault MacTable :=
  calls.foldlM
    (fun table call =>
      table.setMacForIp fuel call.addr call.mac call.allocation)
    table

/-- The MAC of the last call for an address. -/
def lastMac (calls : List SetCall) : MacMap :=
  fun addr =>
    (calls.reverse.find? fun call => call.addr = addr).map SetCall.mac

/-- The entry blocks of a sequence are distinct and not null. -/
def HostAllocates (calls : List SetCall) : Prop :=
  (calls.map fun call => call.allocation.entry).Nodup ∧
    ∀ call, call ∈ calls → call.allocation.entry ≠ 0

/-- With enough fuel the calls return, and so does every later lookup. -/
def ActsAsMap (calls : List SetCall) : Prop :=
  ∃ bound table,
    ∀ fuel, bound ≤ fuel →
      setAll fuel initial calls = .ok table ∧
        ∀ addr,
          getMacForIp fuel table addr = .ok (lastMac calls addr)

/-- The first bucket array, if there is one, starts with a null pointer. -/
def FirstBucketNull (calls : List SetCall) : Prop :=
  ∀ call, calls.head? = some call → call.allocation.bucketJunk 0 = 0

@[simp] theorem lastMac_nil :
    lastMac [] = MacMap.empty :=
  rfl

/-- One more call overwrites one address of the map. -/
theorem lastMac_append_singleton
    (calls : List SetCall)
    (call : SetCall) :
    lastMac (calls ++ [call]) =
      (lastMac calls).set call.addr call.mac := by
  funext query
  by_cases sameAddr : query = call.addr
  · subst sameAddr
    simp [lastMac, MacMap.set]
  · simp [lastMac, MacMap.set, sameAddr, Ne.symm sameAddr]

theorem bucketOf_one (addr : InAddr) : bucketOf addr 1 = 0 :=
  Nat.mod_one _

/-- The table after its only growth, before the first entry is inserted. -/
def grown (bucket : Addr) : MacTable where
  heap := .empty
  data := [bucket]
  l := 0
  cap := 1

/-- The first call grows the table and inserts into the new bucket. -/
theorem setMacForIp_initial
    (fuel : Nat)
    (addr : InAddr)
    (mac : Mac)
    (allocation : MapAllocation) :
    setMacForIp fuel initial addr mac allocation =
      insertEntry (grown (allocation.bucketJunk 0)) addr mac
        allocation := by
  simp [setMacForIp, getMacForIpInternal, initial, growIfFull, relinkAll,
    grown]

/-- A grown table with `l = 0` does not grow again. -/
theorem growIfFull_one
    {table : MacTable}
    (notCounted : table.l = 0)
    (oneBucket : table.cap = 1)
    (fuel : Nat)
    (bucketJunk : Nat → Addr) :
    growIfFull fuel table bucketJunk = .ok table := by
  simp [growIfFull, notCounted, oneBucket]

/-- The state of a table after a sequence of calls that acts as a map. -/
structure Follows (table : MacTable) (calls : List SetCall) : Prop where
  notCounted :
    table.l = 0
  oneBucket :
    table.cap = 1
  represented :
    ∃ chains,
      WellFormed table chains ∧
        contents table.cap chains = lastMac calls ∧
        (chains 0).length ≤ calls.length
  live :
    ∀ block,
      block ∈ table.heap.live →
      block ∈ calls.map fun call => call.allocation.entry

/-- A null bucket makes the grown table a well-formed empty one. -/
theorem wellFormed_grown : WellFormed (grown 0) fun _ => [] where
  length :=
    rfl
  chain := by
    intro hsh head atHead
    rcases hsh with _ | later
    · injection atHead with isNull
      exact isNull.symm
    · simp [grown] at atHead
  inBucket := by
    intro hsh key _ member
    simp at member
  keysNodup := by
    intro hsh _
    exact List.nodup_nil
  live := by
    intro hsh block _ member
    simp at member

/-- The first call with a null bucket. -/
theorem Follows.first
    {call : SetCall}
    (bucketNull : call.allocation.bucketJunk 0 = 0)
    (entryNonNull : call.allocation.entry ≠ 0) :
    ∃ table,
      (∀ fuel,
        setMacForIp fuel initial call.addr call.mac call.allocation =
          .ok table) ∧
        Follows table [call] := by
  obtain ⟨table, chains, inserts, wellFormed, sameCap, sameL, sameMap,
      lengths, live⟩ :=
    wellFormed_grown.insertEntry Nat.one_pos
      (rfl : lookup call.addr [] = none) call.mac call.allocation
      ⟨entryNonNull, Finset.notMem_empty _⟩
  refine ⟨table, fun fuel => ?_, sameL, sameCap,
    ⟨chains, wellFormed, ?_, lengths 0⟩, ?_⟩
  · rw [setMacForIp_initial, bucketNull]
    exact inserts
  · rw [sameCap, sameMap]
    have noContents :
        contents (grown 0).cap (fun _ => []) = lastMac [] := by
      funext query
      simp [contents, grown, lookup, MacMap.empty]
    rw [noContents]
    exact (lastMac_append_singleton [] call).symm
  · intro block member
    rw [live] at member
    simpa [grown, Heap.empty] using member

/-- Every later call. -/
theorem Follows.later
    {table : MacTable}
    {calls : List SetCall}
    (follows : Follows table calls)
    {call : SetCall}
    (entryNonNull : call.allocation.entry ≠ 0)
    (entryFresh :
      call.allocation.entry ∉
        calls.map fun call => call.allocation.entry) :
    ∃ changed,
      (∀ fuel,
        calls.length ≤ fuel →
        setMacForIp fuel table call.addr call.mac call.allocation =
          .ok changed) ∧
        Follows changed (calls ++ [call]) := by
  obtain ⟨notCounted, oneBucket, ⟨chains, wellFormed, sameMap, length⟩,
    live⟩ := follows
  have positive : 0 < table.cap := by
    rw [oneBucket]
    exact Nat.one_pos
  have bucket : bucketOf call.addr table.cap = 0 := by
    rw [oneBucket]
    exact bucketOf_one call.addr
  cases found : lookup call.addr (chains 0) with
  | some entry =>
      obtain ⟨changed, chains', sets, wellFormed', sameCap, sameL,
          changedMap, lengths, sameLive⟩ :=
        wellFormed.setMacForIp_known positive (by rw [bucket, found])
          call.mac call.allocation
      refine ⟨changed, fun fuel enough => sets fuel ?_,
        sameL.trans notCounted, sameCap.trans oneBucket,
        ⟨chains', wellFormed', ?_, ?_⟩, ?_⟩
      · rw [bucket]
        exact length.trans enough
      · rw [sameCap, changedMap, sameMap, lastMac_append_singleton]
      · rw [lengths 0, List.length_append]
        exact length.trans (Nat.le_add_right _ _)
      · intro block member
        rw [sameLive] at member
        rw [List.map_append]
        exact List.mem_append_left _ (live block member)
  | none =>
      have available : table.heap.Available call.allocation.entry :=
        ⟨entryNonNull, fun member => entryFresh (live _ member)⟩
      obtain ⟨changed, chains', inserts, wellFormed', sameCap, sameL,
          changedMap, lengths, changedLive⟩ :=
        wellFormed.insertEntry positive (by rw [bucket, found])
          call.mac call.allocation available
      refine ⟨changed, fun fuel enough => ?_, sameL.trans notCounted,
        sameCap.trans oneBucket, ⟨chains', wellFormed', ?_, ?_⟩, ?_⟩
      · unfold setMacForIp
        rw [wellFormed.getMacForIpInternal positive call.addr
          (by rw [bucket]; exact length.trans enough), bucket, found]
        simp [growIfFull_one notCounted oneBucket, inserts]
      · rw [sameCap, changedMap, sameMap, lastMac_append_singleton]
      · rw [List.length_append]
        exact (lengths 0).trans (Nat.add_le_add_right length 1)
      · intro block member
        rw [changedLive, Finset.mem_insert] at member
        rw [List.map_append]
        rcases member with isNew | isOld
        · subst isNew
          exact List.mem_append_right _ (by simp)
        · exact List.mem_append_left _ (live block isOld)

/-- A sequence whose first bucket is null is followed by the table. -/
theorem follows_of_firstBucketNull
    {calls : List SetCall}
    (allocates : HostAllocates calls)
    (bucketNull : FirstBucketNull calls)
    (nonempty : calls ≠ []) :
    ∃ table,
      (∀ fuel,
        calls.length ≤ fuel →
        setAll fuel initial calls = .ok table) ∧
        Follows table calls := by
  induction calls using List.reverseRecOn with
  | nil =>
      exact (nonempty rfl).elim
  | append_singleton calls call inductionHypothesis =>
      obtain ⟨entriesNodup, entriesNonNull⟩ := allocates
      have entryNonNull := entriesNonNull call (by simp)
      rcases List.eq_nil_or_concat calls with isNil | nonempty
      · subst isNil
        obtain ⟨table, sets, follows⟩ :=
          Follows.first (bucketNull call rfl) entryNonNull
        refine ⟨table, fun fuel _ => ?_, follows⟩
        simpa [setAll] using sets fuel
      · have nonempty : calls ≠ [] := by
          obtain ⟨init, last, rfl⟩ := nonempty
          simp
        rw [List.map_append, List.nodup_append] at entriesNodup
        obtain ⟨table, runs, follows⟩ :=
          inductionHypothesis
            ⟨entriesNodup.1, fun other member =>
              entriesNonNull other (List.mem_append_left _ member)⟩
            (fun first isHead => bucketNull first (by
              rw [List.head?_append_of_ne_nil _ nonempty]
              exact isHead))
            nonempty
        obtain ⟨changed, sets, changedFollows⟩ :=
          follows.later entryNonNull fun member =>
            entriesNodup.2.2 _ member _ (by simp) rfl
        refine ⟨changed, fun fuel enough => ?_, changedFollows⟩
        have enough : calls.length ≤ fuel := by
          rw [List.length_append] at enough
          exact (Nat.le_add_right _ _).trans enough
        rw [setAll, List.foldlM_append]
        have runs := runs fuel enough
        rw [setAll] at runs
        rw [runs]
        simpa using sets fuel enough

/-- A sequence whose first bucket is null acts as a map. -/
theorem actsAsMap_of_firstBucketNull
    {calls : List SetCall}
    (allocates : HostAllocates calls)
    (bucketNull : FirstBucketNull calls) :
    ActsAsMap calls := by
  rcases Decidable.em (calls = []) with isNil | nonempty
  · subst isNil
    exact ⟨0, initial, fun fuel _ =>
      ⟨rfl, fun addr => rfl⟩⟩
  · obtain ⟨table, runs, notCounted, oneBucket,
      ⟨chains, wellFormed, sameMap, length⟩, _⟩ :=
      follows_of_firstBucketNull allocates bucketNull nonempty
    refine ⟨calls.length, table, fun fuel enough =>
      ⟨runs fuel enough, fun addr => ?_⟩⟩
    rw [wellFormed.getMacForIp addr, sameMap]
    rw [oneBucket, bucketOf_one]
    exact length.trans enough

/-- A one-entry table whose chain goes on through a garbage pointer. -/
structure Dangling
    (table : MacTable)
    (key : InAddr) : Prop where
  oneBucket :
    table.cap = 1
  entry :
    ∃ block bucket mac,
      table.data = [block] ∧
        bucket ≠ 0 ∧
        table.heap.load block =
          .ok { key := key, mac := mac, next := bucket } ∧
        ∀ other, other ≠ 0 → other ≠ block →
          table.heap.load other = .error .invalidPointer

/-- A walk that misses the only entry never returns. -/
theorem findEntry_dangling
    {heap : Heap HashmapEntry}
    {key addr : InAddr}
    {block bucket : Addr}
    {mac : Mac}
    (bucketNonNull : bucket ≠ 0)
    (loaded :
      heap.load block =
        .ok { key := key, mac := mac, next := bucket })
    (others :
      ∀ other, other ≠ 0 → other ≠ block →
        heap.load other = .error .invalidPointer)
    (missing : key ≠ addr)
    (fuel : Nat)
    (result : Addr) :
    findEntry heap addr fuel block ≠ .ok result := by
  have blockNonNull := Heap.load_ne_null loaded
  induction fuel with
  | zero =>
      unfold findEntry
      simp [blockNonNull]
  | succ fuel inductionHypothesis =>
      unfold findEntry
      simp only [blockNonNull, ↓reduceIte, loaded, ok_bind, missing]
      by_cases selfLoop : bucket = block
      · rw [selfLoop]
        exact inductionHypothesis
      · unfold findEntry
        cases fuel with
        | zero =>
            simp [bucketNonNull]
        | succ fuel =>
            simp [bucketNonNull, others bucket bucketNonNull selfLoop]

/-- In a dangling table the lookup of any other address never returns. -/
theorem Dangling.getMacForIpInternal_ne_ok
    {table : MacTable}
    {key addr : InAddr}
    (dangling : Dangling table key)
    (missing : key ≠ addr)
    (fuel : Nat)
    (result : Addr) :
    getMacForIpInternal fuel table addr ≠ .ok result := by
  obtain ⟨oneBucket, block, bucket, mac, shape, bucketNonNull, loaded,
    others⟩ := dangling
  unfold getMacForIpInternal
  simp only [oneBucket, Nat.one_ne_zero, ↓reduceIte, bucketOf_one, shape,
    readBucket, List.getElem?_cons_zero, ok_bind]
  exact findEntry_dangling bucketNonNull loaded others missing fuel result

/-- A call that returns leaves a dangling table dangling. -/
theorem Dangling.setMacForIp
    {table changed : MacTable}
    {key addr : InAddr}
    {mac : Mac}
    {allocation : MapAllocation}
    {fuel : Nat}
    (dangling : Dangling table key)
    (sets :
      table.setMacForIp fuel addr mac allocation = .ok changed) :
    Dangling changed key := by
  by_cases known : key = addr
  · subst known
    obtain ⟨oneBucket, block, bucket, oldMac, shape, bucketNonNull,
      loaded, others⟩ := dangling
    have blockNonNull := Heap.load_ne_null loaded
    have finds :
        getMacForIpInternal fuel table key = .ok block ∨
          getMacForIpInternal fuel table key =
            .error .outOfFuel := by
      unfold getMacForIpInternal
      simp only [oneBucket, Nat.one_ne_zero, ↓reduceIte, bucketOf_one,
        shape, readBucket, List.getElem?_cons_zero, ok_bind]
      unfold findEntry
      cases fuel with
      | zero =>
          simp [blockNonNull]
      | succ fuel =>
          simp [blockNonNull, loaded]
    unfold MacTable.setMacForIp at sets
    rcases finds with finds | starves
    · rw [finds] at sets
      simp only [ok_bind, ne_eq, blockNonNull, not_false_eq_true,
        ↓reduceIte, loaded, Heap.store_of_load loaded] at sets
      injection sets with sets
      subst sets
      refine ⟨oneBucket, block, bucket, mac, shape, bucketNonNull,
        Heap.load_set_same _ blockNonNull _, ?_⟩
      intro other otherNonNull different
      rw [Heap.load_set_other _ different]
      exact others other otherNonNull different
    · rw [starves] at sets
      cases sets
  · unfold MacTable.setMacForIp at sets
    obtain ⟨ans, found, _⟩ := bind_eq_ok.mp sets
    exact (dangling.getMacForIpInternal_ne_ok known fuel ans found).elim

/-- The first call with a garbage bucket leaves a dangling table. -/
theorem Dangling.first
    {call : SetCall}
    (bucketNonNull : call.allocation.bucketJunk 0 ≠ 0)
    {fuel : Nat}
    {table : MacTable}
    (sets :
      MacTable.setMacForIp fuel initial call.addr call.mac
        call.allocation = .ok table) :
    Dangling table call.addr := by
  rw [setMacForIp_initial] at sets
  by_cases entryNull : call.allocation.entry = 0
  · simp [insertEntry, grown, bucketOf_one, readBucket, entryNull,
      Heap.malloc, Heap.store] at sets
  · have loadedJunk :=
      Heap.load_malloc_same (.empty : Heap HashmapEntry) entryNull
        call.allocation.entryJunk
    simp only [insertEntry, grown, bucketOf_one, readBucket,
      List.getElem?_cons_zero, ok_bind,
      Heap.store_of_load loadedJunk] at sets
    injection sets with sets
    subst sets
    refine ⟨rfl, call.allocation.entry, call.allocation.bucketJunk 0,
      call.mac, rfl, bucketNonNull, Heap.load_set_same _ entryNull _, ?_⟩
    intro other otherNonNull different
    rw [Heap.load_set_other _ different,
      Heap.load_malloc_other _ different]
    simp [Heap.load, Heap.empty, otherNonNull]

/-- A dangling table stays dangling over a run. -/
theorem Dangling.setAll
    {table final : MacTable}
    {key : InAddr}
    {calls : List SetCall}
    {fuel : Nat}
    (dangling : Dangling table key)
    (runs : MacTable.setAll fuel table calls = .ok final) :
    Dangling final key := by
  induction calls generalizing table with
  | nil =>
      injection runs with isFinal
      subst isFinal
      exact dangling
  | cons call rest inductionHypothesis =>
      rw [MacTable.setAll, List.foldlM_cons] at runs
      obtain ⟨middle, sets, later⟩ := bind_eq_ok.mp runs
      exact inductionHypothesis (dangling.setMacForIp sets) later

/-- A sequence that acts as a map started from a null bucket. -/
theorem firstBucketNull_of_actsAsMap
    {calls : List SetCall}
    (acts : ActsAsMap calls) :
    FirstBucketNull calls := by
  obtain ⟨bound, table, acts⟩ := acts
  intro call isHead
  by_contra bucketNonNull
  obtain ⟨runs, lookups⟩ := acts bound le_rfl
  obtain ⟨rest, rfl⟩ : ∃ rest, calls = call :: rest :=
    ⟨calls.tail, (List.cons_head?_tail isHead).symm⟩
  rw [setAll, List.foldlM_cons] at runs
  obtain ⟨middle, sets, later⟩ := bind_eq_ok.mp runs
  have dangling := (Dangling.first bucketNonNull sets).setAll later
  have missing : call.addr ≠ call.addr ^^^ 1 := by
    intro same
    have isZero :
        call.addr ^^^ call.addr = call.addr ^^^ (call.addr ^^^ 1) :=
      congrArg (call.addr ^^^ ·) same
    rw [← BitVec.xor_assoc, BitVec.xor_self, BitVec.zero_xor] at isZero
    exact absurd isZero (by decide)
  have looksUp := lookups (call.addr ^^^ 1)
  unfold getMacForIp at looksUp
  obtain ⟨ans, found, _⟩ := bind_eq_ok.mp looksUp
  exact dangling.getMacForIpInternal_ne_ok missing bound ans found

/-- Exactly the sequences with a null first bucket act as a map. -/
theorem actsAsMap_iff_firstBucketNull
    {calls : List SetCall}
    (allocates : HostAllocates calls) :
    ActsAsMap calls ↔ FirstBucketNull calls :=
  ⟨firstBucketNull_of_actsAsMap,
    actsAsMap_of_firstBucketNull allocates⟩

/-- A call for 10.0.0.1 whose bucket array was left with `bucket` in it. -/
def exampleCall (bucket : Addr) : SetCall where
  addr := 0x0100000a
  mac := .of [2, 0, 0, 0, 0, 1]
  allocation :=
    { bucketJunk := fun _ => bucket
      entry := 64
      entryJunk :=
        { key := 0, mac := .of [0, 0, 0, 0, 0, 0], next := 0 } }

/-- A later call with its block, on what `malloc` left in the arrays. -/
def laterCall (addr : InAddr) (last : Byte) (entry : Addr) : SetCall where
  addr := addr
  mac := .of [2, 0, 0, 0, 0, last]
  allocation :=
    { bucketJunk := fun _ => 8
      entry := entry
      entryJunk :=
        { key := 0, mac := .of [0, 0, 0, 0, 0, 0], next := 0 } }

/-- The first bucket array was cleared; the third call is for the address of the
first one. -/
def clearedCalls : List SetCall :=
  [exampleCall 0, laterCall 0x0200000a 2 128, laterCall 0x0100000a 3 192,
    laterCall 0x0300000a 4 256]

theorem actsAsMap_cleared :
    ActsAsMap clearedCalls ∧
      lastMac clearedCalls 0x0100000a = some (.of [2, 0, 0, 0, 0, 3]) := by
  refine ⟨(actsAsMap_iff_firstBucketNull ⟨?_, ?_⟩).mpr ?_, by decide⟩
  · decide
  · decide
  · intro call isHead
    injection isHead with isCall
    subst isCall
    rfl

/--
With a garbage bucket the same call returns, but the lookup of 10.0.0.2 follows
the garbage.
-/
theorem not_actsAsMap_garbage :
    HostAllocates [exampleCall 8] ∧
      (∃ table,
        setAll 10 initial [exampleCall 8] = .ok table ∧
          getMacForIp 10 table 0x0200000a = .error .invalidPointer) ∧
      ¬ActsAsMap [exampleCall 8] := by
  refine ⟨⟨by simp, by simp [exampleCall]⟩, ⟨_, rfl, rfl⟩,
    fun acts => ?_⟩
  have isNull := firstBucketNull_of_actsAsMap acts (exampleCall 8) rfl
  exact absurd isNull (by decide)

end Hamachi.MacTable
