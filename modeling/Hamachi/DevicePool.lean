import Hamachi.Runs
import Hamachi.TunKernel
import Hamachi.Ownership

namespace Hamachi

/-!
# The pool of device indices

`tun_open` acquires an index in `used`, writes it to the block of a new device
and registers the destructor of the device; `opaque_free` empties the slot,
frees the block, reads the index from it once more and releases it.  The
allocator may overwrite a block that it has back.
-/

/-- The address of a `struct opaque`. -/
abbrev Block := Nat

/-- The next action of a thread.  `own` is the index that the `tun_open` of the
device acquired; the code reads it from the block. -/
inductive PoolPlace where
  /-- in no function of the module -/
  | idle
  /-- `atomic_cmpset_int(used+i, 0, 1)` of `acquire_idx` -/
  | acquiring (i : Slot)
  /-- `malloc` of `opaque_alloc` -/
  | allocating (i : Slot)
  /-- `op->idx = idx` -/
  | initializing (i : Slot) (op : Block)
  /-- `release_iface(idx, op->iface)` -/
  | publishing (i : Slot) (op : Block)
  /-- `devfs_set_cdevpriv` -/
  | registering (i : Slot) (op : Block)
  /-- `acquire_iface(op->idx)` of `opaque_free` reads the slot -/
  | freeAcquiring (op : Block) (own : Slot)
  /-- it compares and swaps the slot -/
  | freeComparing (op : Block) (own : Slot) (ans : Addr)
  /-- `atomic_store_rel_ptr` of the null pointer -/
  | freeClearing (op : Block) (own : Slot)
  /-- `free(op, get_M_TEMP())` -/
  | freeing (op : Block) (own : Slot)
  /-- `int idx = op->idx` -/
  | freeReading (op : Block) (own : Slot)
  /-- `release_idx(idx)` -/
  | freeReleasing (idx : Int) (own : Slot)
  deriving DecidableEq

namespace PoolPlace

/-- The index of the device that a thread creates or destroys. -/
def index : PoolPlace → Option Slot
  | .idle => none
  | .acquiring _ => none
  | .allocating i => some i
  | .initializing i _ => some i
  | .publishing i _ => some i
  | .registering i _ => some i
  | .freeAcquiring _ own => some own
  | .freeComparing _ own _ => some own
  | .freeClearing _ own => some own
  | .freeing _ own => some own
  | .freeReading _ own => some own
  | .freeReleasing _ own => some own

/-- The allocated block of the device that a thread creates or destroys. -/
def block : PoolPlace → Option Block
  | .initializing _ op => some op
  | .publishing _ op => some op
  | .registering _ op => some op
  | .freeAcquiring op _ => some op
  | .freeComparing op _ _ => some op
  | .freeClearing op _ => some op
  | .freeing op _ => some op
  | _ => none

/-- The block of a thread that has a written index, and this index. -/
def written : PoolPlace → Option (Block × Slot)
  | .publishing i op => some (op, i)
  | .registering i op => some (op, i)
  | .freeAcquiring op own => some (op, own)
  | .freeComparing op own _ => some (op, own)
  | .freeClearing op own => some (op, own)
  | .freeing op own => some (op, own)
  | _ => none

end PoolPlace

/-- The state that `tun_open` and `opaque_free` share. -/
structure DevicePool where
  used : Slot → Int
  ifaces : Slot → Addr
  /-- `op->idx` of every block, allocated or not -/
  memory : Block → Int
  allocated : Finset Block
  /-- the devices with a registered destructor, and the index that the
  `tun_open` of each acquired -/
  devices : Block → Option Slot
  threads : Thread → PoolPlace

namespace DevicePool

/-- What happens next: a thread calls `tun_open` or goes on, `malloc` or
`devfs_set_cdevpriv` returns, the kernel calls a destructor, or the allocator
overwrites a block that it has back. -/
inductive Label where
  | tunOpen (t : Thread)
  | allocates (t : Thread) (op : Block)
  | publishes (t : Thread) (iface : Addr)
  | registers (t : Thread)
  | registerFails (t : Thread)
  | opaqueFree (t : Thread) (op : Block)
  | overwrites (op : Block) (value : Int)
  | runs (t : Thread)
  deriving DecidableEq

/-- Move a thread to another place. -/
def goto
    (pool : DevicePool)
    (t : Thread)
    (place : PoolPlace) : DevicePool :=
  { pool with threads := Function.update pool.threads t place }

/-- Store to `used`. -/
def setUsed (pool : DevicePool) (i : Slot) (flag : Int) : DevicePool :=
  { pool with used := Function.update pool.used i flag }

/-- Store to `ifaces`. -/
def setIface (pool : DevicePool) (i : Slot) (iface : Addr) : DevicePool :=
  { pool with ifaces := Function.update pool.ifaces i iface }

/-- Store to `op->idx`. -/
def setIdx (pool : DevicePool) (op : Block) (idx : Int) : DevicePool :=
  { pool with memory := Function.update pool.memory op idx }

/-- Add a device, or take it away. -/
def setDevice
    (pool : DevicePool)
    (op : Block)
    (own : Option Slot) : DevicePool :=
  { pool with devices := Function.update pool.devices op own }

/-- The element of `used` and `ifaces` that an `int` selects; another one is
outside of the arrays. -/
def slotOf (idx : Int) : Option Slot :=
  if 0 ≤ idx then
    if isSlot : idx.toNat < 10 then
      some ⟨idx.toNat, isSlot⟩
    else
      none
  else
    none

/-- `release_idx`.  What an index outside of `used` does to other memory is
left out. -/
def releaseIdx (pool : DevicePool) (idx : Int) : DevicePool :=
  match slotOf idx with
  | some i =>
      if pool.used i = 1 then
        pool.setUsed i 0
      else
        pool
  | none => pool

/-- Where `acquire_idx` goes after it found an index in use; after the last one
`tun_open` returns `ENOMEM`. -/
def afterUsed (i : Slot) : PoolPlace :=
  if isSlot : i.val + 1 < 10 then
    .acquiring ⟨i.val + 1, isSlot⟩
  else
    .idle

/-- The next action of a thread, unless it is idle or waits for the kernel. -/
def run (pool : DevicePool) (t : Thread) : Option DevicePool :=
  match pool.threads t with
  | .acquiring i =>
      if pool.used i = 0 then
        some ((pool.setUsed i 1).goto t (.allocating i))
      else
        some (pool.goto t (afterUsed i))
  | .initializing i op =>
      some ((pool.setIdx op i.val).goto t (.publishing i op))
  | .freeAcquiring op own =>
      (slotOf (pool.memory op)).map fun i =>
        if pool.ifaces i = 0 then
          pool.goto t (.freeClearing op own)
        else if pool.ifaces i = ifaceAcquired then
          pool.goto t (.freeAcquiring op own)
        else
          pool.goto t (.freeComparing op own (pool.ifaces i))
  | .freeComparing op own ans =>
      (slotOf (pool.memory op)).map fun i =>
        if pool.ifaces i = ans then
          (pool.setIface i ifaceAcquired).goto t (.freeClearing op own)
        else
          pool.goto t (.freeAcquiring op own)
  | .freeClearing op own =>
      (slotOf (pool.memory op)).map fun i =>
        (pool.setIface i 0).goto t (.freeing op own)
  | .freeing op own =>
      some ({ pool with allocated := pool.allocated.erase op }.goto t
        (.freeReading op own))
  | .freeReading op own =>
      some (pool.goto t (.freeReleasing (pool.memory op) own))
  | .freeReleasing idx _ =>
      some ((pool.releaseIdx idx).goto t .idle)
  | _ => none

/-- One step of the module. -/
def next (pool : DevicePool) : Label → Option DevicePool
  | .tunOpen t =>
      if pool.threads t = .idle then
        some (pool.goto t (.acquiring firstSlot))
      else
        none
  | .allocates t op =>
      match pool.threads t with
      | .allocating i =>
          if op ∉ pool.allocated then
            -- `M_ZERO`
            some (({ pool with allocated := insert op pool.allocated }.setIdx
              op 0).goto t (.initializing i op))
          else
            none
      | _ => none
  | .publishes t iface =>
      match pool.threads t with
      | .publishing i op =>
          if iface ≠ 0 ∧ iface ≠ ifaceAcquired then
            some ((pool.setIface i iface).goto t (.registering i op))
          else
            none
      | _ => none
  | .registers t =>
      match pool.threads t with
      | .registering i op =>
          some ((pool.setDevice op (some i)).goto t .idle)
      | _ => none
  | .registerFails t =>
      match pool.threads t with
      | .registering _ _ => some (pool.goto t .idle)
      | _ => none
  | .opaqueFree t op =>
      if pool.threads t = .idle then
        (pool.devices op).map fun own =>
          (pool.setDevice op none).goto t (.freeAcquiring op own)
      else
        none
  | .overwrites op value =>
      if op ∉ pool.allocated then
        some (pool.setIdx op value)
      else
        none
  | .runs t => pool.run t

/-- One step as a relation. -/
def Step (pool : DevicePool) (label : Label) (after : DevicePool) : Prop :=
  pool.next label = some after

/-- An action of a thread, by the branch of the source that it takes. -/
inductive Acts (pool : DevicePool) (t : Thread) : DevicePool → Prop where
  /-- `acquire_idx` finds a free index -/
  | acquires
      (i : Slot)
      (isPlace : pool.threads t = .acquiring i)
      (isFree : pool.used i = 0) :
      Acts pool t ((pool.setUsed i 1).goto t (.allocating i))
  | inUse
      (i : Slot)
      (isPlace : pool.threads t = .acquiring i)
      (isUsed : pool.used i ≠ 0) :
      Acts pool t (pool.goto t (afterUsed i))
  | initializes
      (i : Slot)
      (op : Block)
      (isPlace : pool.threads t = .initializing i op) :
      Acts pool t ((pool.setIdx op i.val).goto t (.publishing i op))
  /-- `acquire_iface` finds no interface -/
  | absent
      (i : Slot)
      (op : Block)
      (own : Slot)
      (isPlace : pool.threads t = .freeAcquiring op own)
      (isSlot : slotOf (pool.memory op) = some i)
      (isNull : pool.ifaces i = 0) :
      Acts pool t (pool.goto t (.freeClearing op own))
  /-- another thread owns the slot -/
  | again
      (i : Slot)
      (op : Block)
      (own : Slot)
      (isPlace : pool.threads t = .freeAcquiring op own)
      (isSlot : slotOf (pool.memory op) = some i)
      (isAcquired : pool.ifaces i = ifaceAcquired) :
      Acts pool t (pool.goto t (.freeAcquiring op own))
  | seesIface
      (i : Slot)
      (op : Block)
      (own : Slot)
      (isPlace : pool.threads t = .freeAcquiring op own)
      (isSlot : slotOf (pool.memory op) = some i)
      (isIface : pool.ifaces i ≠ 0 ∧ pool.ifaces i ≠ ifaceAcquired) :
      Acts pool t (pool.goto t (.freeComparing op own (pool.ifaces i)))
  | takes
      (i : Slot)
      (op : Block)
      (own : Slot)
      (ans : Addr)
      (isPlace : pool.threads t = .freeComparing op own ans)
      (isSlot : slotOf (pool.memory op) = some i)
      (found : pool.ifaces i = ans) :
      Acts pool t
        ((pool.setIface i ifaceAcquired).goto t (.freeClearing op own))
  | loses
      (i : Slot)
      (op : Block)
      (own : Slot)
      (ans : Addr)
      (isPlace : pool.threads t = .freeComparing op own ans)
      (isSlot : slotOf (pool.memory op) = some i)
      (lost : pool.ifaces i ≠ ans) :
      Acts pool t (pool.goto t (.freeAcquiring op own))
  | clears
      (i : Slot)
      (op : Block)
      (own : Slot)
      (isPlace : pool.threads t = .freeClearing op own)
      (isSlot : slotOf (pool.memory op) = some i) :
      Acts pool t ((pool.setIface i 0).goto t (.freeing op own))
  | frees
      (op : Block)
      (own : Slot)
      (isPlace : pool.threads t = .freeing op own) :
      Acts pool t
        ({ pool with allocated := pool.allocated.erase op }.goto t
          (.freeReading op own))
  | reads
      (op : Block)
      (own : Slot)
      (isPlace : pool.threads t = .freeReading op own) :
      Acts pool t (pool.goto t (.freeReleasing (pool.memory op) own))
  | releases
      (idx : Int)
      (own : Slot)
      (isPlace : pool.threads t = .freeReleasing idx own) :
      Acts pool t ((pool.releaseIdx idx).goto t .idle)

variable
  {pool after : DevicePool}
  {label : Label}
  {t : Thread}

/-- Every action of a thread is one of the branches. -/
theorem acts_of_run
    (runs : pool.run t = some after) :
    pool.Acts t after := by
  cases isPlace : pool.threads t with
  | acquiring i =>
      simp only [run, isPlace] at runs
      split at runs <;> cases runs <;> rename_i test
      · exact .acquires i isPlace test
      · exact .inUse i isPlace test
  | initializing i op =>
      simp only [run, isPlace] at runs
      cases runs
      exact .initializes i op isPlace
  | freeAcquiring op own =>
      simp only [run, isPlace] at runs
      obtain ⟨i, isSlot, isAfter⟩ := Option.map_eq_some_iff.mp runs
      split at isAfter
      · subst isAfter
        rename_i isNull
        exact .absent i op own isPlace isSlot isNull
      · split at isAfter <;> subst isAfter <;> rename_i notNull test
        · exact .again i op own isPlace isSlot test
        · exact .seesIface i op own isPlace isSlot ⟨notNull, test⟩
  | freeComparing op own ans =>
      simp only [run, isPlace] at runs
      obtain ⟨i, isSlot, isAfter⟩ := Option.map_eq_some_iff.mp runs
      split at isAfter <;> subst isAfter <;> rename_i test
      · exact .takes i op own ans isPlace isSlot test
      · exact .loses i op own ans isPlace isSlot test
  | freeClearing op own =>
      simp only [run, isPlace] at runs
      obtain ⟨i, isSlot, rfl⟩ := Option.map_eq_some_iff.mp runs
      exact .clears i op own isPlace isSlot
  | freeing op own =>
      simp only [run, isPlace] at runs
      cases runs
      exact .frees op own isPlace
  | freeReading op own =>
      simp only [run, isPlace] at runs
      cases runs
      exact .reads op own isPlace
  | freeReleasing idx own =>
      simp only [run, isPlace] at runs
      cases runs
      exact .releases idx own isPlace
  | _ =>
      simp [run, isPlace] at runs

/-- A step, by its guards and its effect. -/
inductive Steps (pool : DevicePool) : Label → DevicePool → Prop where
  | tunOpen
      (t : Thread)
      (isIdle : pool.threads t = .idle) :
      Steps pool (.tunOpen t) (pool.goto t (.acquiring firstSlot))
  | allocates
      (t : Thread)
      (op : Block)
      (i : Slot)
      (isPlace : pool.threads t = .allocating i)
      (isFree : op ∉ pool.allocated) :
      Steps pool (.allocates t op)
        (({ pool with allocated := insert op pool.allocated }.setIdx
          op 0).goto t (.initializing i op))
  | publishes
      (t : Thread)
      (iface : Addr)
      (i : Slot)
      (op : Block)
      (isPlace : pool.threads t = .publishing i op)
      (isPointer : iface ≠ 0 ∧ iface ≠ ifaceAcquired) :
      Steps pool (.publishes t iface)
        ((pool.setIface i iface).goto t (.registering i op))
  | registers
      (t : Thread)
      (i : Slot)
      (op : Block)
      (isPlace : pool.threads t = .registering i op) :
      Steps pool (.registers t) ((pool.setDevice op (some i)).goto t .idle)
  | registerFails
      (t : Thread)
      (i : Slot)
      (op : Block)
      (isPlace : pool.threads t = .registering i op) :
      Steps pool (.registerFails t) (pool.goto t .idle)
  | opaqueFree
      (t : Thread)
      (op : Block)
      (own : Slot)
      (isIdle : pool.threads t = .idle)
      (isDevice : pool.devices op = some own) :
      Steps pool (.opaqueFree t op)
        ((pool.setDevice op none).goto t (.freeAcquiring op own))
  | overwrites
      (op : Block)
      (value : Int)
      (isFree : op ∉ pool.allocated) :
      Steps pool (.overwrites op value) (pool.setIdx op value)
  | runs
      {after : DevicePool}
      (t : Thread)
      (acts : pool.Acts t after) :
      Steps pool (.runs t) after

/-- What a step does. -/
theorem steps_of_step (step : Step pool label after) :
    pool.Steps label after := by
  cases label with
  | tunOpen t =>
      simp only [Step, next] at step
      split at step <;> cases step
      rename_i isIdle
      exact .tunOpen t isIdle
  | allocates t op =>
      simp only [Step, next] at step
      split at step <;> [rename_i i isPlace; cases step]
      split at step <;> cases step
      rename_i isFree
      exact .allocates t op i isPlace isFree
  | publishes t iface =>
      simp only [Step, next] at step
      split at step <;> [rename_i i op isPlace; cases step]
      split at step <;> cases step
      rename_i isPointer
      exact .publishes t iface i op isPlace isPointer
  | registers t =>
      simp only [Step, next] at step
      split at step <;> cases step
      rename_i i op isPlace
      exact .registers t i op isPlace
  | registerFails t =>
      simp only [Step, next] at step
      split at step <;> cases step
      rename_i i op isPlace
      exact .registerFails t i op isPlace
  | opaqueFree t op =>
      simp only [Step, next] at step
      split at step <;> [rename_i isIdle; cases step]
      obtain ⟨own, isDevice, rfl⟩ := Option.map_eq_some_iff.mp step
      exact .opaqueFree t op own isIdle isDevice
  | overwrites op value =>
      simp only [Step, next] at step
      split at step <;> cases step
      rename_i isFree
      exact .overwrites op value isFree
  | runs t =>
      exact .runs t (acts_of_run step)

end DevicePool

end Hamachi
