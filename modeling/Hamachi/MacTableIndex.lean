import Hamachi.MacTableGrowth
import Hamachi.MacTableRuns
import Mathlib.Data.List.Dedup

namespace Hamachi.MacTable

/-!
# The table as an index

After every sequence of calls the table should hold each address once, in the
bucket that its hash names, and `l` should count the entries, so that the table
grows with them.  The first part holds.  Nothing counts the entries, so `l`
stays zero and the one bucket takes them all.
-/

/-- What `set_mac_for_ip` has to keep true of the table. -/
structure Indexes
    (table : MacTable)
    (chains : Nat → List Stored)
    (calls : List SetCall) : Prop where
  wellFormed : WellFormed table chains
  setOnce :
    ∀ call ∈ calls,
      ((entries table.cap chains).map Stored.key).count call.addr = 1
  inBucket :
    ∀ call ∈ calls,
      call.addr ∈
        (chains (bucketOf call.addr table.cap)).map Stored.key
  counted : table.l = (entries table.cap chains).length
  bounded : (entries table.cap chains).length ≤ 2 * table.cap

/-- The calls return and leave an index. -/
def KeepsIndex (calls : List SetCall) : Prop :=
  ∃ table,
    (∀ fuel,
      calls.length ≤ fuel → setAll fuel initial calls = .ok table) ∧
      ∃ chains, Indexes table chains calls

section Count

variable
  {fuel : Nat}
  {table changed : MacTable}

/-- Growth leaves the count alone. -/
theorem growIfFull_l
    {bucketJunk : Nat → Addr}
    (grows : growIfFull fuel table bucketJunk = .ok changed) :
    changed.l = table.l := by
  unfold growIfFull at grows
  split at grows
  · obtain ⟨moved, _, isChanged⟩ := bind_eq_ok.mp grows
    cases isChanged
    rfl
  · cases grows
    rfl

/-- So does the insertion of an entry. -/
theorem insertEntry_l
    {addr : InAddr}
    {mac : Mac}
    {allocation : MapAllocation}
    (inserts : insertEntry table addr mac allocation = .ok changed) :
    changed.l = table.l := by
  obtain ⟨head, _, stores⟩ := bind_eq_ok.mp inserts
  obtain ⟨heap, _, isChanged⟩ := bind_eq_ok.mp stores
  cases isChanged
  rfl

theorem setMacForIp_l
    {addr : InAddr}
    {mac : Mac}
    {allocation : MapAllocation}
    (sets : setMacForIp fuel table addr mac allocation = .ok changed) :
    changed.l = table.l := by
  obtain ⟨ans, _, sets⟩ := bind_eq_ok.mp sets
  split at sets
  · obtain ⟨entry, _, stores⟩ := bind_eq_ok.mp sets
    obtain ⟨heap, _, isChanged⟩ := bind_eq_ok.mp stores
    cases isChanged
    rfl
  · obtain ⟨grown, grows, inserts⟩ := bind_eq_ok.mp sets
    exact (insertEntry_l inserts).trans (growIfFull_l grows)

/-- No sequence of calls counts anything. -/
theorem setAll_l
    {calls : List SetCall}
    (runs : setAll fuel table calls = .ok changed) :
    changed.l = table.l := by
  induction calls generalizing table with
  | nil =>
      cases runs
      rfl
  | cons call rest inductionHypothesis =>
      rw [setAll, List.foldlM_cons] at runs
      obtain ⟨middle, sets, later⟩ := bind_eq_ok.mp runs
      exact (inductionHypothesis later).trans (setMacForIp_l sets)

end Count

/-- The addresses with a MAC are those that were set. -/
theorem lastMac_isSome_iff
    {calls : List SetCall}
    {addr : InAddr} :
    (∃ mac, lastMac calls addr = some mac) ↔
      addr ∈ calls.map SetCall.addr := by
  rw [← Option.isSome_iff_exists, lastMac, Option.isSome_map,
    List.find?_isSome]
  simp [eq_comm]

/-- With zero-filled buckets every address that was set has one entry, in its
bucket, and there is an entry for each of them; but `l` is zero, and there is
one bucket. -/
theorem placed_of_zeroFilled
    {calls : List SetCall}
    (allocates : HostAllocates calls)
    (zeroFilled : FirstBucketNull calls)
    (nonempty : calls ≠ []) :
    ∃ table chains,
      (∀ fuel,
        calls.length ≤ fuel → setAll fuel initial calls = .ok table) ∧
        WellFormed table chains ∧
        (∀ call ∈ calls,
          ((entries table.cap chains).map Stored.key).count call.addr = 1 ∧
            call.addr ∈
              (chains (bucketOf call.addr table.cap)).map Stored.key) ∧
        (entries table.cap chains).length =
          (calls.map SetCall.addr).dedup.length ∧
        table.l = 0 ∧ table.cap = 1 := by
  obtain ⟨table, runs, follows⟩ :=
    follows_of_firstBucketNull allocates zeroFilled nonempty
  obtain ⟨chains, wellFormed, sameMap, _⟩ := follows.represented
  have keys :
      ∀ addr,
        addr ∈ (entries table.cap chains).map Stored.key ↔
          addr ∈ calls.map SetCall.addr := by
    intro addr
    rw [← lastMac_isSome_iff, ← sameMap]
    simp only [wellFormed.contents_eq_some_iff, List.mem_map]
    constructor
    · rintro ⟨entry, member, isKey⟩
      exact ⟨entry.mac, entry, member, isKey, rfl⟩
    · rintro ⟨mac, entry, member, isKey, _⟩
      exact ⟨entry, member, isKey⟩
  refine ⟨table, chains, runs, wellFormed, fun call member => ?_, ?_,
    follows.notCounted, follows.oneBucket⟩
  · have inEntries :=
      (keys call.addr).mpr (List.mem_map_of_mem member)
    refine ⟨List.count_eq_one_of_mem wellFormed.entries_keysNodup inEntries,
      ?_⟩
    obtain ⟨entry, inTable, isKey⟩ := List.mem_map.mp inEntries
    obtain ⟨hsh, bound, inChain⟩ := mem_collect.mp inTable
    rw [← isKey, wellFormed.inBucket bound (List.mem_map_of_mem inChain)]
    exact List.mem_map_of_mem inChain
  · have same :
        ((entries table.cap chains).map Stored.key).Perm
          (calls.map SetCall.addr).dedup :=
      (List.perm_ext_iff_of_nodup wellFormed.entries_keysNodup
        (List.nodup_dedup _)).mpr fun addr => by
          rw [keys, List.mem_dedup]
    rw [← same.length_eq, List.length_map]

/-- One call leaves an entry that is not counted. -/
theorem not_keepsIndex_cons
    (call : SetCall)
    (rest : List SetCall) :
    ¬ KeepsIndex (call :: rest) := by
  rintro ⟨table, runs, chains, indexes⟩
  have notCounted : table.l = 0 := setAll_l (runs _ le_rfl)
  have once := indexes.setOnce call List.mem_cons_self
  have noEntries := indexes.counted
  rw [notCounted, eq_comm, List.length_eq_zero_iff] at noEntries
  rw [noEntries] at once
  cases once

/-- The empty table is an index of no calls. -/
theorem indexes_initial : Indexes initial (fun _ => []) [] where
  wellFormed :=
    { length := rfl
      chain := fun atHead => by cases atHead
      inBucket := fun bound => absurd bound (Nat.not_lt_zero _)
      keysNodup := fun bound => absurd bound (Nat.not_lt_zero _)
      live := fun bound => absurd bound (Nat.not_lt_zero _) }
  setOnce := by simp
  inBucket := by simp
  counted := rfl
  bounded := Nat.zero_le _

/-- Only the empty sequence of calls keeps the index. -/
theorem keepsIndex_iff_nil {calls : List SetCall} :
    KeepsIndex calls ↔ calls = [] := by
  constructor
  · intro keeps
    cases calls with
    | nil => rfl
    | cons call rest => exact absurd keeps (not_keepsIndex_cons call rest)
  · rintro rfl
    exact ⟨initial, fun _ _ => rfl, fun _ => [], indexes_initial⟩

/-- Calls for three addresses, with cleared bucket arrays. -/
def threeCalls : List SetCall :=
  [exampleCall 0,
    { exampleCall 0 with
      addr := 0x0200000a
      allocation := { (exampleCall 0).allocation with entry := 128 } },
    { exampleCall 0 with
      addr := 0x0300000a
      allocation := { (exampleCall 0).allocation with entry := 192 } }]

/-- Three entries share the only bucket, and none is counted. -/
theorem not_keepsIndex_threeCalls :
    (∃ table chains,
      setAll 3 initial threeCalls = .ok table ∧
        WellFormed table chains ∧
        (entries table.cap chains).length = 3 ∧
        table.l = 0 ∧ table.cap = 1) ∧
      ¬ KeepsIndex threeCalls := by
  refine ⟨?_, not_keepsIndex_cons _ _⟩
  have allocates : HostAllocates threeCalls :=
    ⟨by decide, by simp [threeCalls, exampleCall]⟩
  have zeroFilled : FirstBucketNull threeCalls := by
    intro call isHead
    cases isHead
    rfl
  obtain ⟨table, chains, runs, wellFormed, _, length, notCounted,
      oneBucket⟩ :=
    placed_of_zeroFilled allocates zeroFilled (by simp [threeCalls])
  exact ⟨table, chains, runs 3 le_rfl, wellFormed, length, notCounted,
    oneBucket⟩

end Hamachi.MacTable
