import Hamachi.Buffer
import Mathlib.Data.List.Nodup

namespace Hamachi

/-!
# The IP-to-MAC table of `map.c`

The table is an array of bucket heads whose chains are heap blocks.  Both
`malloc` calls of `set_mac_for_ip` are arguments of the model: the words that
the new bucket array happens to hold, and the block that becomes the entry.
Walking a chain need not end, so the walks take fuel.
-/

/-- `in_addr_t`. -/
abbrev InAddr := BitVec 32

/-- The contents of a `char[6]` that holds a MAC address. -/
abbrev Mac := Buffer 6

/-- `struct hashmap_entry`. -/
structure HashmapEntry where
  key : InAddr
  mac : Mac
  next : Addr
  deriving DecidableEq

/-- The static variables of `map.c`; `data` is the array they point to. -/
structure MacTable where
  heap : Heap HashmapEntry
  data : List Addr
  l : Nat
  cap : Nat

/-- What the two `malloc` calls of `set_mac_for_ip` return. -/
structure MapAllocation where
  bucketJunk : Nat → Addr
  entry : Addr
  entryJunk : HashmapEntry

namespace MacTable

/-- `MASK`. -/
def mask : InAddr := 0xdeadbeef

/-- The statics at program start. -/
def initial : MacTable where
  heap := .empty
  data := []
  l := 0
  cap := 0

/-- `(addr ^ MASK) % cap`. -/
def bucketOf (addr : InAddr) (cap : Nat) : Nat :=
  (addr ^^^ mask).toNat % cap

theorem bucketOf_lt (addr : InAddr) {cap : Nat} (positive : 0 < cap) :
    bucketOf addr cap < cap :=
  Nat.mod_lt _ positive

/-- `data[hsh]`. -/
def readBucket (data : List Addr) (hsh : Nat) : Except Fault Addr :=
  match data[hsh]? with
  | none => .error .outOfBounds
  | some head => .ok head

/-- The loop of `get_mac_for_ip_internal`, from the entry `x`. -/
def findEntry
    (heap : Heap HashmapEntry)
    (addr : InAddr) : Nat → Addr → Except Fault Addr
  | fuel, x =>
      if x = 0 then
        .ok 0
      else
        match fuel with
        | 0 => .error .outOfFuel
        | fuel + 1 => do
            let entry ← heap.load x
            if entry.key = addr then
              .ok x
            else
              findEntry heap addr fuel entry.next

/--
`get_mac_for_ip_internal`; the entry stands for the pointer to its `mac`.
-/
def getMacForIpInternal
    (fuel : Nat)
    (table : MacTable)
    (addr : InAddr) : Except Fault Addr :=
  if table.cap = 0 then
    .ok 0
  else do
    let head ← readBucket table.data (bucketOf addr table.cap)
    findEntry table.heap addr fuel head

/-- `get_mac_for_ip`: `none` is the result `0`. -/
def getMacForIp
    (fuel : Nat)
    (table : MacTable)
    (addr : InAddr) : Except Fault (Option Mac) := do
  let ans ← getMacForIpInternal fuel table addr
  if ans = 0 then
    .ok none
  else do
    let entry ← table.heap.load ans
    .ok (some entry.mac)

/-- The inner growth loop: move one old chain into the new buckets. -/
def relinkChain
    (ll : Nat) :
    Nat →
    Heap HashmapEntry →
    List Addr →
    Addr →
    Except Fault (Heap HashmapEntry × List Addr)
  | fuel, heap, e, x =>
      if x = 0 then
        .ok (heap, e)
      else
        match fuel with
        | 0 => .error .outOfFuel
        | fuel + 1 => do
            let entry ← heap.load x
            let next := entry.next
            let hsh := bucketOf entry.key ll
            let head ← readBucket e hsh
            let heap ← heap.store x { entry with next := head }
            relinkChain ll fuel heap (e.set hsh x) next

/-- The outer growth loop, over the old buckets. -/
def relinkAll
    (fuel ll : Nat) :
    List Addr →
    Heap HashmapEntry →
    List Addr →
    Except Fault (Heap HashmapEntry × List Addr)
  | [], heap, e => .ok (heap, e)
  | head :: rest, heap, e => do
      let (heap, e) ← relinkChain ll fuel heap e head
      relinkAll fuel ll rest heap e

/-- The growth branch of `set_mac_for_ip`. -/
def growIfFull
    (fuel : Nat)
    (table : MacTable)
    (bucketJunk : Nat → Addr) : Except Fault MacTable :=
  if table.l = 2 * table.cap then do
    let ll := 2 * table.cap + 1
    let e := (List.range ll).map bucketJunk
    let (heap, e) ← relinkAll fuel ll table.data table.heap e
    .ok { table with heap := heap, data := e, cap := ll }
  else
    .ok table

/-- The tail of `set_mac_for_ip`: a new entry in front of its bucket. -/
def insertEntry
    (table : MacTable)
    (addr : InAddr)
    (mac : Mac)
    (allocation : MapAllocation) : Except Fault MacTable := do
  let hsh := bucketOf addr table.cap
  let cur := allocation.entry
  let heap := table.heap.malloc cur allocation.entryJunk
  let head ← readBucket table.data hsh
  let heap ← heap.store cur { key := addr, mac := mac, next := head }
  .ok { table with heap := heap, data := table.data.set hsh cur }

/-- `set_mac_for_ip`.  The source never changes `l`. -/
def setMacForIp
    (fuel : Nat)
    (table : MacTable)
    (addr : InAddr)
    (mac : Mac)
    (allocation : MapAllocation) : Except Fault MacTable := do
  let ans ← getMacForIpInternal fuel table addr
  if ans ≠ 0 then do
    let entry ← table.heap.load ans
    let heap ← table.heap.store ans { entry with mac := mac }
    .ok { table with heap := heap }
  else do
    let table ← growIfFull fuel table allocation.bucketJunk
    insertEntry table addr mac allocation

end MacTable

end Hamachi
