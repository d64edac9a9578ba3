import Hamachi.DevicePool

namespace Hamachi

/-!
# Who owns an index

Every index in use is owned by one device, through the thread that creates or
destroys it or through its registered destructor.  This lasts as long as
`devfs_set_cdevpriv` succeeds and a freed block keeps its index until
`opaque_free` has read it.
-/

namespace DevicePool

/-- A device with its destructor registered, or the thread that creates or
destroys one. -/
abbrev Holder := Block ⊕ Thread

/-- The index that a holder owns. -/
def index (pool : DevicePool) : Holder → Option Slot
  | .inl op => pool.devices op
  | .inr t => (pool.threads t).index

/-- The allocated block that a holder owns. -/
def block (pool : DevicePool) : Holder → Option Block
  | .inl op => (pool.devices op).map fun _ => op
  | .inr t => (pool.threads t).block

/-- A device with the index is being created, live or being destroyed. -/
def InUse (pool : DevicePool) (i : Slot) : Prop :=
  (∃ op, pool.devices op = some i) ∨
    ∃ t, (pool.threads t).index = some i

/-- The module when it is loaded; the allocator has handed out no block. -/
def loaded : DevicePool where
  used := fun _ => 0
  ifaces := fun _ => 0
  memory := fun _ => 0
  allocated := ∅
  devices := fun _ => none
  threads := fun _ => .idle

/-- `devfs_set_cdevpriv` does not fail, and a freed block still holds its index
when `opaque_free` reads it. -/
def Careful (pool : DevicePool) (label : Label) : Prop :=
  (∀ t, label ≠ .registerFails t) ∧
    ∀ t op own,
      label = .runs t →
        pool.threads t = .freeReading op own →
          pool.memory op = own.val

/-- A step under these conditions. -/
def CarefulStep
    (pool : DevicePool)
    (label : Label)
    (after : DevicePool) : Prop :=
  pool.Step label after ∧ pool.Careful label

section Moves

variable
  {pool after : DevicePool}
  {t : Thread}
  {place : PoolPlace}
  {op : Block}
  {own : Option Slot}

/-- A move changes what the thread owns. -/
theorem index_goto :
    (pool.goto t place).index =
      Function.update pool.index (.inr t) place.index := by
  funext holder
  cases holder with
  | inl op =>
      rfl
  | inr u =>
      by_cases isMover : u = t
      · subst isMover
        simp [index, goto]
      · simp [index, goto, isMover]

/-- A move changes which block the thread owns. -/
theorem block_goto :
    (pool.goto t place).block =
      Function.update pool.block (.inr t) place.block := by
  funext holder
  cases holder with
  | inl op =>
      rfl
  | inr u =>
      by_cases isMover : u = t
      · subst isMover
        simp [block, goto]
      · simp [block, goto, isMover]

/-- A device owns its index. -/
theorem index_setDevice :
    (pool.setDevice op own).index =
      Function.update pool.index (.inl op) own := by
  funext holder
  cases holder with
  | inl other =>
      by_cases isDevice : other = op
      · subst isDevice
        simp [index, setDevice]
      · simp [index, setDevice, isDevice]
  | inr t =>
      rfl

/-- A device owns its block. -/
theorem block_setDevice :
    (pool.setDevice op own).block =
      Function.update pool.block (.inl op) (own.map fun _ => op) := by
  funext holder
  cases holder with
  | inl other =>
      by_cases isDevice : other = op
      · subst isDevice
        simp [block, setDevice]
      · simp [block, setDevice, isDevice]
  | inr t =>
      rfl

/-- Marking an index changes its flag. -/
theorem used_setUsed_self
    {i : Slot}
    {flag : Int} :
    (pool.setUsed i flag).used i = flag :=
  Function.update_self ..

/-- Marking an index changes no other flag. -/
theorem used_setUsed_of_ne
    {i j : Slot}
    {flag : Int}
    (different : j ≠ i) :
    (pool.setUsed i flag).used j = pool.used j :=
  Function.update_of_ne different ..

/-- An index is in use when it has a holder. -/
theorem held_index_iff
    {i : Slot} :
    Held pool.index i ↔ pool.InUse i := by
  simp [Held, InUse, index]

end Moves

/-- What holds in every run under these conditions. -/
structure PoolInvariant (pool : DevicePool) : Prop where
  indices : Exclusive pool.index
  blocks : Exclusive pool.block
  live : ∀ op, Held pool.block op → op ∈ pool.allocated
  deviceIdx : ∀ op own, pool.devices op = some own → pool.memory op = own.val
  threadIdx :
    ∀ t op own, (pool.threads t).written = some (op, own) →
      pool.memory op = own.val
  flag : ∀ i, pool.used i = 0 ∨ pool.used i = 1
  used : ∀ i, pool.used i = 1 ↔ Held pool.index i
  releasing :
    ∀ t idx own, pool.threads t = .freeReleasing idx own → idx = own.val

/-- What the invariant says of the flags and of the blocks that the thread does
not own. -/
structure Contents (pool : DevicePool) (t : Thread) : Prop where
  deviceIdx : ∀ op own, pool.devices op = some own → pool.memory op = own.val
  threadIdx :
    ∀ u op own, u ≠ t → (pool.threads u).written = some (op, own) →
      pool.memory op = own.val
  flag : ∀ i, pool.used i = 0 ∨ pool.used i = 1
  releasing :
    ∀ u idx own, pool.threads u = .freeReleasing idx own → idx = own.val

theorem loaded_poolInvariant : loaded.PoolInvariant where
  indices := by
    rintro (op | t) other i owns <;>
      simp [index, loaded, PoolPlace.index] at owns
  blocks := by
    rintro (op | t) other i owns <;>
      simp [block, loaded, PoolPlace.block] at owns
  live := by
    rintro op ⟨holder | t, owns⟩ <;>
      simp [block, loaded, PoolPlace.block] at owns
  deviceIdx := by simp [loaded]
  threadIdx := by simp [loaded, PoolPlace.written]
  flag := by simp [loaded]
  used := by simp [loaded, Held, index, PoolPlace.index]
  releasing := by simp [loaded]

namespace PoolInvariant

variable
  {pool : DevicePool}
  {t : Thread}
  {place : PoolPlace}
  {i : Slot}
  {op : Block}

/-- A thread with a written index owns its block. -/
theorem block_of_written
    {own : Slot}
    (written : place.written = some (op, own)) :
    place.block = some op := by
  cases place <;> simp_all [PoolPlace.written, PoolPlace.block]

/-- A device owns its block. -/
theorem block_of_device
    (isDevice : pool.devices op = some i) :
    pool.block (.inl op) = some op := by
  simp [DevicePool.block, isDevice]

theorem contents
    (invariant : pool.PoolInvariant)
    (t : Thread) :
    pool.Contents t where
  deviceIdx := invariant.deviceIdx
  threadIdx u op own _ := invariant.threadIdx u op own
  flag := invariant.flag
  releasing := invariant.releasing

/-- Marking an index leaves every flag set or clear. -/
theorem contents_setUsed
    {flag : Int}
    (invariant : pool.PoolInvariant)
    (t : Thread)
    (known : flag = 0 ∨ flag = 1) :
    (pool.setUsed i flag).Contents t where
  deviceIdx := (invariant.contents t).deviceIdx
  threadIdx := (invariant.contents t).threadIdx
  flag j := by
    by_cases isIndex : j = i
    · rw [isIndex, used_setUsed_self]
      exact known
    · rw [used_setUsed_of_ne isIndex]
      exact invariant.flag j
  releasing := invariant.releasing

/-- A move of a thread, by what it owns afterwards. -/
theorem goto
    (contents : pool.Contents t)
    (indices :
      Exclusive (Function.update pool.index (.inr t) place.index))
    (blocks :
      Exclusive (Function.update pool.block (.inr t) place.block))
    (live :
      ∀ op, Held (Function.update pool.block (.inr t) place.block) op →
        op ∈ pool.allocated)
    (written :
      ∀ op own, place.written = some (op, own) →
        pool.memory op = own.val)
    (used :
      ∀ i, pool.used i = 1 ↔
        Held (Function.update pool.index (.inr t) place.index) i)
    (releasing :
      ∀ idx own, place = .freeReleasing idx own → idx = own.val) :
    (pool.goto t place).PoolInvariant := by
  rw [← index_goto] at indices used
  rw [← block_goto] at blocks live
  refine ⟨indices, blocks, live, contents.deviceIdx, ?_, contents.flag,
    used, ?_⟩
  · intro u op own isWritten
    simp only [DevicePool.goto, Function.update_apply] at isWritten
    split at isWritten <;> rename_i isMover
    · exact written op own isWritten
    · exact contents.threadIdx u op own isMover isWritten
  · intro u idx own isReleasing
    simp only [DevicePool.goto, Function.update_apply] at isReleasing
    split at isReleasing
    · exact releasing idx own isReleasing
    · exact contents.releasing u idx own isReleasing

/-- A move of a thread that keeps its index and its block. -/
theorem moves
    (invariant : pool.PoolInvariant)
    (index : place.index = (pool.threads t).index)
    (block : place.block = (pool.threads t).block)
    (written :
      ∀ op own, place.written = some (op, own) →
        (pool.threads t).written = some (op, own))
    (releasing :
      ∀ idx own, place = .freeReleasing idx own → idx = own.val) :
    (pool.goto t place).PoolInvariant := by
  have sameIndex :
      Function.update pool.index (.inr t) place.index = pool.index := by
    rw [index]
    exact Function.update_eq_self ..
  have sameBlock :
      Function.update pool.block (.inr t) place.block = pool.block := by
    rw [block]
    exact Function.update_eq_self ..
  apply PoolInvariant.goto
  case contents =>
    exact invariant.contents t
  case indices =>
    rw [sameIndex]
    exact invariant.indices
  case blocks =>
    rw [sameBlock]
    exact invariant.blocks
  case live =>
    rw [sameBlock]
    exact invariant.live
  case written =>
    exact fun op own isWritten =>
      invariant.threadIdx t op own (written op own isWritten)
  case used =>
    rw [sameIndex]
    exact invariant.used
  case releasing =>
    exact releasing

/-- A store to `ifaces`. -/
theorem setIface
    {iface : Addr}
    (invariant : pool.PoolInvariant) :
    (pool.setIface i iface).PoolInvariant :=
  { invariant with }

/-- A write to a block that nobody owns. -/
theorem setIdx
    {value : Int}
    (invariant : pool.PoolInvariant)
    (unowned : ¬ Held pool.block op) :
    (pool.setIdx op value).PoolInvariant := by
  have elsewhere :
      ∀ other, Held pool.block other →
        (pool.setIdx op value).memory other = pool.memory other := by
    intro other held
    have different : other ≠ op := by
      rintro rfl
      exact unowned held
    exact Function.update_of_ne different ..
  refine { invariant with deviceIdx := ?_, threadIdx := ?_ }
  · intro other own isDevice
    rw [elsewhere other ⟨.inl other, block_of_device isDevice⟩]
    exact invariant.deviceIdx other own isDevice
  · intro u other own isWritten
    rw [elsewhere other ⟨.inr u, block_of_written isWritten⟩]
    exact invariant.threadIdx u other own isWritten

/-- `acquire_idx` finds a free index. -/
theorem acquires
    (invariant : pool.PoolInvariant)
    (isPlace : pool.threads t = .acquiring i)
    (isFree : pool.used i = 0) :
    ((pool.setUsed i 1).goto t (.allocating i)).PoolInvariant := by
  have free : ¬ Held pool.index i := by
    rw [← invariant.used, isFree]
    decide
  have empty : pool.index (.inr t) = none := by
    simp [DevicePool.index, isPlace, PoolPlace.index]
  have block :
      Function.update pool.block (.inr t) none = pool.block := by
    rw [Function.update_eq_self_iff]
    simp [DevicePool.block, isPlace, PoolPlace.block]
  apply PoolInvariant.goto
  case contents =>
    exact invariant.contents_setUsed t (.inr rfl)
  case indices =>
    exact invariant.indices.take free
  case blocks =>
    exact invariant.blocks.drop
  case live =>
    intro op held
    exact invariant.live op (block ▸ held)
  case written =>
    simp [PoolPlace.written]
  case used =>
    intro j
    refine Iff.trans ?_ (Exclusive.held_take empty).symm
    by_cases isIndex : j = i
    · rw [isIndex, used_setUsed_self]
      simp
    · rw [used_setUsed_of_ne isIndex, invariant.used]
      simp only [isIndex, false_or]
  case releasing =>
    simp

/-- `malloc` returns a block. -/
theorem allocates
    (invariant : pool.PoolInvariant)
    (isPlace : pool.threads t = .allocating i)
    (isFree : op ∉ pool.allocated) :
    (({ pool with allocated := insert op pool.allocated }.setIdx op 0).goto t
      (.initializing i op)).PoolInvariant := by
  have unowned : ¬ Held pool.block op :=
    fun held => isFree (invariant.live op held)
  have written := @PoolInvariant.setIdx _ _ 0 invariant unowned
  have empty : pool.block (.inr t) = none := by
    simp [DevicePool.block, isPlace, PoolPlace.block]
  have index :
      Function.update pool.index (.inr t) (some i) = pool.index := by
    rw [Function.update_eq_self_iff]
    simp [DevicePool.index, isPlace, PoolPlace.index]
  apply PoolInvariant.goto
  case contents =>
    exact { written.contents t with }
  case indices =>
    exact index.symm ▸ invariant.indices
  case blocks =>
    exact invariant.blocks.take unowned
  case live =>
    intro other held
    rcases (Exclusive.held_take empty).mp held with rfl | held
    · exact Finset.mem_insert_self ..
    · exact Finset.mem_insert_of_mem (invariant.live other held)
  case written =>
    simp [PoolPlace.written]
  case used =>
    exact index.symm ▸ invariant.used
  case releasing =>
    simp

/-- The block of a thread is no registered device's. -/
theorem not_device_of_block
    (invariant : pool.PoolInvariant)
    (owns : (pool.threads t).block = some op) :
    pool.devices op = none := by
  cases isDevice : pool.devices op with
  | none =>
      rfl
  | some own =>
      have same := invariant.blocks (.inl op) (.inr t) op
        (block_of_device isDevice) owns
      cases same

/-- `opaque_alloc` writes the index to the block. -/
theorem initializes
    (invariant : pool.PoolInvariant)
    (isPlace : pool.threads t = .initializing i op) :
    ((pool.setIdx op i.val).goto t (.publishing i op)).PoolInvariant := by
  have owns : pool.block (.inr t) = some op := by
    simp [DevicePool.block, isPlace, PoolPlace.block]
  have index :
      Function.update pool.index (.inr t) (some i) = pool.index := by
    rw [Function.update_eq_self_iff]
    simp [DevicePool.index, isPlace, PoolPlace.index]
  have block :
      Function.update pool.block (.inr t) (some op) = pool.block := by
    rw [← owns]
    exact Function.update_eq_self ..
  have elsewhere :
      ∀ holder other, holder ≠ .inr t → pool.block holder = some other →
        (pool.setIdx op i.val).memory other = pool.memory other := by
    intro holder other different owned
    have notOwn : other ≠ op := by
      rintro rfl
      exact different (invariant.blocks holder (.inr t) other owned owns)
    exact Function.update_of_ne notOwn ..
  apply PoolInvariant.goto
  case contents =>
    refine { invariant.contents t with deviceIdx := ?_, threadIdx := ?_ }
    · intro other own isDevice
      rw [elsewhere (.inl other) other Sum.inl_ne_inr
        (block_of_device isDevice)]
      exact invariant.deviceIdx other own isDevice
    · intro u other own different isWritten
      have notMover : (.inr u : Holder) ≠ .inr t :=
        fun same => different (Sum.inr.inj same)
      rw [elsewhere (.inr u) other notMover (block_of_written isWritten)]
      exact invariant.threadIdx u other own isWritten
  case indices =>
    exact index.symm ▸ invariant.indices
  case blocks =>
    exact block.symm ▸ invariant.blocks
  case live =>
    exact block.symm ▸ invariant.live
  case written =>
    rintro other own isWritten
    cases isWritten
    exact Function.update_self ..
  case used =>
    exact index.symm ▸ invariant.used
  case releasing =>
    simp

/-- `devfs_set_cdevpriv` registers the destructor. -/
theorem registers
    (invariant : pool.PoolInvariant)
    (isPlace : pool.threads t = .registering i op) :
    ((pool.setDevice op (some i)).goto t .idle).PoolInvariant := by
  have ownsIndex : pool.index (.inr t) = some i := by
    simp [DevicePool.index, isPlace, PoolPlace.index]
  have ownsBlock : pool.block (.inr t) = some op := by
    simp [DevicePool.block, isPlace, PoolPlace.block]
  have notDevice := invariant.not_device_of_block ownsBlock
  have noIndex : pool.index (.inl op) = none := notDevice
  have noBlock : pool.block (.inl op) = none := by
    simp [DevicePool.block, notDevice]
  have index :
      Function.update (pool.setDevice op (some i)).index (.inr t) none =
        Function.update (Function.update pool.index (.inr t) none)
          (.inl op) (some i) := by
    rw [index_setDevice, Function.update_comm Sum.inl_ne_inr]
  have block :
      Function.update (pool.setDevice op (some i)).block (.inr t) none =
        Function.update (Function.update pool.block (.inr t) none)
          (.inl op) (some op) := by
    rw [block_setDevice, Function.update_comm Sum.inl_ne_inr]
    rfl
  apply PoolInvariant.goto
  case contents =>
    refine { invariant.contents t with deviceIdx := ?_ }
    intro other own isDevice
    simp only [DevicePool.setDevice, Function.update_apply] at isDevice
    split at isDevice <;> rename_i isNew
    · cases isDevice
      rw [isNew]
      exact invariant.threadIdx t op i (by simp [isPlace, PoolPlace.written])
    · exact invariant.deviceIdx other own isDevice
  case indices =>
    exact index.symm ▸ invariant.indices.transfer ownsIndex
  case blocks =>
    exact block.symm ▸ invariant.blocks.transfer ownsBlock
  case live =>
    intro other held
    have wasHeld :=
      (invariant.blocks.held_transfer ownsBlock noBlock).mp (block ▸ held)
    exact invariant.live other wasHeld
  case written =>
    simp [PoolPlace.written]
  case used =>
    intro j
    have held := @Exclusive.held_transfer _ _ _ _ _ _ _ j invariant.indices
      ownsIndex noIndex
    exact (invariant.used j).trans (held.symm.trans (index ▸ Iff.rfl))
  case releasing =>
    simp

/-- The kernel calls the destructor. -/
theorem opaqueFree
    {own : Slot}
    (invariant : pool.PoolInvariant)
    (isIdle : pool.threads t = .idle)
    (isDevice : pool.devices op = some own) :
    ((pool.setDevice op none).goto t
      (.freeAcquiring op own)).PoolInvariant := by
  have ownsIndex : pool.index (.inl op) = some own := isDevice
  have ownsBlock := block_of_device isDevice
  have noIndex : pool.index (.inr t) = none := by
    simp [DevicePool.index, isIdle, PoolPlace.index]
  have noBlock : pool.block (.inr t) = none := by
    simp [DevicePool.block, isIdle, PoolPlace.block]
  apply PoolInvariant.goto
  case contents =>
    refine { invariant.contents t with deviceIdx := ?_ }
    intro other owner isOther
    simp only [DevicePool.setDevice, Function.update_apply] at isOther
    split at isOther
    · cases isOther
    · exact invariant.deviceIdx other owner isOther
  case indices =>
    rw [index_setDevice]
    exact invariant.indices.transfer isDevice
  case blocks =>
    rw [block_setDevice]
    exact invariant.blocks.transfer ownsBlock
  case live =>
    intro other held
    rw [block_setDevice] at held
    have wasHeld :=
      (invariant.blocks.held_transfer ownsBlock noBlock).mp held
    exact invariant.live other wasHeld
  case written =>
    intro other owner isWritten
    cases isWritten
    exact invariant.deviceIdx op own isDevice
  case used =>
    intro j
    rw [index_setDevice]
    have held := @Exclusive.held_transfer _ _ _ _ _ _ _ j invariant.indices
      ownsIndex noIndex
    exact (invariant.used j).trans held.symm
  case releasing =>
    simp

/-- `opaque_free` frees the block. -/
theorem frees
    {own : Slot}
    (invariant : pool.PoolInvariant)
    (isPlace : pool.threads t = .freeing op own) :
    ({ pool with allocated := pool.allocated.erase op }.goto t
      (.freeReading op own)).PoolInvariant := by
  have ownsBlock : pool.block (.inr t) = some op := by
    simp [DevicePool.block, isPlace, PoolPlace.block]
  have index :
      Function.update pool.index (.inr t) (some own) = pool.index := by
    rw [Function.update_eq_self_iff]
    simp [DevicePool.index, isPlace, PoolPlace.index]
  apply PoolInvariant.goto
  case contents =>
    exact { invariant.contents t with }
  case indices =>
    exact index.symm ▸ invariant.indices
  case blocks =>
    exact invariant.blocks.drop
  case live =>
    intro other held
    obtain ⟨different, wasHeld⟩ :=
      (invariant.blocks.held_drop ownsBlock).mp held
    exact Finset.mem_erase.mpr ⟨different, invariant.live other wasHeld⟩
  case written =>
    simp [PoolPlace.written]
  case used =>
    exact index.symm ▸ invariant.used
  case releasing =>
    simp

/-- `opaque_free` clears the flag of its own index. -/
theorem releaseIdx_eq
    {idx : Int}
    {own : Slot}
    (invariant : pool.PoolInvariant)
    (isPlace : pool.threads t = .freeReleasing idx own) :
    pool.used own = 1 ∧ pool.releaseIdx idx = pool.setUsed own 0 := by
  have owns : pool.index (.inr t) = some own := by
    simp [DevicePool.index, isPlace, PoolPlace.index]
  have isUsed := (invariant.used own).mpr ⟨.inr t, owns⟩
  have isSlot : slotOf idx = some own := by
    rw [invariant.releasing t idx own isPlace]
    simp [slotOf]
  simp [releaseIdx, isSlot, isUsed]

/-- `opaque_free` releases its index. -/
theorem releases
    {idx : Int}
    {own : Slot}
    (invariant : pool.PoolInvariant)
    (isPlace : pool.threads t = .freeReleasing idx own) :
    ((pool.releaseIdx idx).goto t .idle).PoolInvariant := by
  have owns : pool.index (.inr t) = some own := by
    simp [DevicePool.index, isPlace, PoolPlace.index]
  have block :
      Function.update pool.block (.inr t) none = pool.block := by
    rw [Function.update_eq_self_iff]
    simp [DevicePool.block, isPlace, PoolPlace.block]
  rw [(invariant.releaseIdx_eq isPlace).2]
  apply PoolInvariant.goto
  case contents =>
    exact invariant.contents_setUsed t (.inl rfl)
  case indices =>
    exact invariant.indices.drop
  case blocks =>
    exact block.symm ▸ invariant.blocks
  case live =>
    exact block.symm ▸ invariant.live
  case written =>
    simp [PoolPlace.written]
  case used =>
    intro j
    refine Iff.trans ?_ (invariant.indices.held_drop owns).symm
    by_cases isIndex : j = own
    · rw [isIndex, used_setUsed_self]
      simp
    · rw [used_setUsed_of_ne isIndex, invariant.used]
      simp [isIndex]
  case releasing =>
    simp

/-- Every action of a thread keeps the invariant, if a freed block still has
its index. -/
theorem acts
    {after : DevicePool}
    (invariant : pool.PoolInvariant)
    (acts : pool.Acts t after)
    (intact :
      ∀ op own, pool.threads t = .freeReading op own →
        pool.memory op = own.val) :
    after.PoolInvariant := by
  cases acts with
  | acquires i isPlace isFree =>
      exact invariant.acquires isPlace isFree
  | inUse i isPlace isUsed =>
      have isNext :
          (∃ j, afterUsed i = .acquiring j) ∨ afterUsed i = .idle := by
        unfold afterUsed
        split
        · exact .inl ⟨_, rfl⟩
        · exact .inr rfl
      rcases isNext with ⟨j, isNext⟩ | isNext <;>
        · rw [isNext]
          apply invariant.moves <;>
            simp [isPlace, PoolPlace.index, PoolPlace.block,
              PoolPlace.written]
  | initializes i op isPlace =>
      exact invariant.initializes isPlace
  | takes i op own ans isPlace isSlot found =>
      apply invariant.setIface.moves <;>
        simp [isPlace, DevicePool.setIface, PoolPlace.index, PoolPlace.block,
          PoolPlace.written]
  | clears i op own isPlace isSlot =>
      apply invariant.setIface.moves <;>
        simp [isPlace, DevicePool.setIface, PoolPlace.index, PoolPlace.block,
          PoolPlace.written]
  | frees op own isPlace =>
      exact invariant.frees isPlace
  | reads op own isPlace =>
      apply invariant.moves <;>
        simp [isPlace, intact op own isPlace, PoolPlace.index,
          PoolPlace.block, PoolPlace.written]
  | releases idx own isPlace =>
      exact invariant.releases isPlace
  | _ =>
      apply invariant.moves <;>
        simp [*, PoolPlace.index, PoolPlace.block, PoolPlace.written]

/-- Every step under the conditions keeps the invariant. -/
theorem step
    {after : DevicePool}
    {label : Label}
    (invariant : pool.PoolInvariant)
    (step : pool.CarefulStep label after) :
    after.PoolInvariant := by
  obtain ⟨noFailure, intact⟩ := step.2
  cases steps_of_step step.1 with
  | tunOpen t isIdle =>
      apply invariant.moves <;>
        simp [isIdle, PoolPlace.index, PoolPlace.block, PoolPlace.written]
  | allocates t op i isPlace isFree =>
      exact invariant.allocates isPlace isFree
  | publishes t iface i op isPlace isPointer =>
      apply invariant.setIface.moves <;>
        simp [isPlace, DevicePool.setIface, PoolPlace.index, PoolPlace.block,
          PoolPlace.written]
  | registers t i op isPlace =>
      exact invariant.registers isPlace
  | registerFails t i op isPlace =>
      exact absurd rfl (noFailure t)
  | opaqueFree t op own isIdle isDevice =>
      exact invariant.opaqueFree isIdle isDevice
  | overwrites op value isFree =>
      exact invariant.setIdx fun held => isFree (invariant.live op held)
  | runs t acts =>
      exact invariant.acts acts fun op own => intact t op own rfl

/-- Every run under the conditions keeps the invariant. -/
theorem run
    {final : DevicePool}
    {labels : List Label}
    (run : Run CarefulStep loaded labels final) :
    final.PoolInvariant :=
  run.invariant (fun invariant step => invariant.step step)
    loaded_poolInvariant

end PoolInvariant

end DevicePool

end Hamachi
