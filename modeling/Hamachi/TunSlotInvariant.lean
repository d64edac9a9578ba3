import Hamachi.TunSlots

namespace Hamachi

/-!
# What holds of the slots in every run

As long as each device has an index of its own, a slot is empty unless the
interface of its device is published, and a marked slot has an owner.
-/

namespace TunModule

/-- The interface of a device with the index is published and not yet taken
back. -/
def Published (tun : TunModule) (i : Slot) : Prop :=
  i ∈ tun.kernel.opaques ∨
    ∃ t,
      (tun.kernel.threads t).published = some i ∨
        (tun.allocs t).published = some i

/-- What holds in every run in which each device has an index of its own. -/
structure SlotInvariant (tun : TunModule) : Prop where
  consistent : tun.kernel.Consistent
  pointer :
    ∀ t i iface,
      (tun.kernel.threads t).obtained = some (i, iface) →
        iface ≠ 0 ∧ iface ≠ ifaceAcquired
  owner :
    ∀ i, tun.kernel.ifaces i = ifaceAcquired →
      ∃ t, (tun.kernel.threads t).Owns i
  idle : ∀ t, tun.allocs t ≠ .outside → tun.kernel.threads t = .idle
  allocLock :
    ∀ t i, (tun.allocs t).lockHeld = some i → tun.kernel.lock i = some t
  oneHolder :
    ∀ t other i,
      tun.holds t = some i → tun.holds other = some i → t = other
  unheld : ∀ t i, tun.holds t = some i → i ∉ tun.kernel.opaques
  empty : ∀ i, tun.kernel.ifaces i = 0 ↔ ¬ tun.Published i

theorem loaded_invariant : loaded.SlotInvariant where
  consistent := TunKernel.Quiet.consistent
    ⟨fun _ => rfl, fun _ => rfl, fun _ => rfl, fun _ => Nat.zero_ne_one⟩
  pointer := by simp [loaded]
  owner := by simp [loaded, ifaceAcquired]
  idle := by simp [loaded]
  allocLock := by simp [loaded]
  oneHolder := by simp [loaded, holds]
  unheld := by simp [loaded, holds]
  empty := by simp [loaded, Published]

namespace SlotInvariant

variable
  {tun : TunModule}
  {kernel : TunKernel}
  {t : Thread}
  {place : Place}
  {i : Slot}

/-- A thread in `opaque_free` is not in `opaque_alloc`. -/
theorem outside
    (invariant : tun.SlotInvariant)
    (busy : tun.kernel.threads t ≠ .idle) :
    tun.allocs t = .outside := by
  by_contra notOutside
  exact busy (invariant.idle t notOutside)

/-- A move of a thread outside `opaque_alloc` that begins no destruction. -/
theorem moves
    (invariant : tun.SlotInvariant)
    (outside : tun.allocs t = .outside)
    (consistent : kernel.Consistent)
    (threads :
      kernel.threads = Function.update tun.kernel.threads t place)
    (opaques : kernel.opaques = tun.kernel.opaques)
    (lock :
      ∀ u j, u ≠ t → tun.kernel.lock j = some u → kernel.lock j = some u)
    (freeing :
      ∀ j, place.freeing = some j →
        (tun.kernel.threads t).freeing = some j)
    (owner :
      ∀ j, kernel.ifaces j = ifaceAcquired →
        place.Owns j ∨
          tun.kernel.ifaces j = ifaceAcquired ∧
            ¬ (tun.kernel.threads t).Owns j)
    (pointer :
      ∀ j iface, place.obtained = some (j, iface) →
        iface ≠ 0 ∧ iface ≠ ifaceAcquired)
    (empty :
      ∀ j, kernel.ifaces j = 0 ↔
        ¬ Published { tun with kernel := kernel } j) :
    SlotInvariant { tun with kernel := kernel } := by
  have holds :
      ∀ u j, TunModule.holds { tun with kernel := kernel } u = some j →
        tun.holds u = some j := by
    intro u j
    simp only [TunModule.holds, threads, Option.or_eq_some_iff]
    by_cases same : u = t
    · subst same
      simp only [Function.update_self, outside, AllocPlace.index]
      exact fun held => .inl (freeing j (by simpa using held))
    · simp [same]
  constructor
  case consistent =>
    exact consistent
  case pointer =>
    intro u j iface
    simp only [threads, Function.update_apply]
    split
    · exact pointer j iface
    · exact invariant.pointer u j iface
  case owner =>
    intro j acquired
    rcases owner j acquired with owns | ⟨wasAcquired, notOwner⟩
    · exact ⟨t, by simpa [threads] using owns⟩
    · obtain ⟨u, owns⟩ := invariant.owner j wasAcquired
      have different : u ≠ t := by
        rintro rfl
        exact notOwner owns
      exact ⟨u, by simpa [threads, different] using owns⟩
  case idle =>
    intro u notOutside
    have different : u ≠ t := by
      rintro rfl
      exact notOutside outside
    simpa [threads, different] using invariant.idle u notOutside
  case allocLock =>
    intro u j held
    have different : u ≠ t := by
      rintro rfl
      simp [outside] at held
    exact lock u j different (invariant.allocLock u j held)
  case oneHolder =>
    intro u other j first second
    exact invariant.oneHolder u other j (holds u j first)
      (holds other j second)
  case unheld =>
    intro u j held
    rw [opaques]
    exact invariant.unheld u j (holds u j held)
  case empty =>
    exact empty

/-- A slot stays published while the thread that moves keeps its device. -/
theorem published_iff
    {j : Slot}
    (threads :
      kernel.threads = Function.update tun.kernel.threads t place)
    (opaques : kernel.opaques = tun.kernel.opaques)
    (published : place.published = (tun.kernel.threads t).published) :
    Published { tun with kernel := kernel } j ↔ tun.Published j := by
  have same :
      ∀ u, (kernel.threads u).published =
        (tun.kernel.threads u).published := by
    intro u
    rw [threads, Function.update_apply]
    split <;> rename_i isMover
    · rw [isMover, published]
    · rfl
  simp only [Published, opaques, same]

/-- A move that leaves the slots alone. -/
theorem idles
    (invariant : tun.SlotInvariant)
    (outside : tun.allocs t = .outside)
    (consistent : kernel.Consistent)
    (threads :
      kernel.threads = Function.update tun.kernel.threads t place)
    (opaques : kernel.opaques = tun.kernel.opaques)
    (ifaces : kernel.ifaces = tun.kernel.ifaces)
    (lock :
      ∀ u j, u ≠ t → tun.kernel.lock j = some u → kernel.lock j = some u)
    (freeing :
      ∀ j, place.freeing = some j →
        (tun.kernel.threads t).freeing = some j)
    (published : place.published = (tun.kernel.threads t).published)
    (owns :
      ∀ j, (tun.kernel.threads t).Owns j → place.Owns j)
    (obtained :
      ∀ j iface, place.obtained = some (j, iface) →
        (tun.kernel.threads t).obtained = some (j, iface)) :
    SlotInvariant { tun with kernel := kernel } := by
  apply invariant.moves outside consistent threads opaques lock freeing
  · intro j acquired
    rw [ifaces] at acquired
    by_cases isOwner : (tun.kernel.threads t).Owns j
    · exact .inl (owns j isOwner)
    · exact .inr ⟨acquired, isOwner⟩
  · intro j iface isObtained
    exact invariant.pointer t j iface (obtained j iface isObtained)
  · intro j
    rw [published_iff threads opaques published, ifaces, invariant.empty]

/-- A store changes its slot. -/
theorem stored_self
    {value : Addr} :
    ((kernel.setIface i value).goto t place).ifaces i = value :=
  Function.update_self ..

/-- A store changes no other slot. -/
theorem stored_of_ne
    {value : Addr}
    {j : Slot}
    (different : j ≠ i) :
    ((kernel.setIface i value).goto t place).ifaces j = kernel.ifaces j :=
  Function.update_of_ne different ..

/-- A move that stores an interface or the mark to a slot of its own. -/
theorem stores
    {value : Addr}
    (invariant : tun.SlotInvariant)
    (outside : tun.allocs t = .outside)
    (consistent : ((tun.kernel.setIface i value).goto t place).Consistent)
    (wasPresent : tun.kernel.ifaces i ≠ 0)
    (isPresent : value ≠ 0)
    (freeing :
      ∀ j, place.freeing = some j →
        (tun.kernel.threads t).freeing = some j)
    (published : place.published = (tun.kernel.threads t).published)
    (marks : value = ifaceAcquired → place.Owns i)
    (ownSlot : ∀ j, (tun.kernel.threads t).Owns j → j = i)
    (pointer :
      ∀ j iface, place.obtained = some (j, iface) →
        iface ≠ 0 ∧ iface ≠ ifaceAcquired) :
    SlotInvariant { tun with
      kernel := (tun.kernel.setIface i value).goto t place } := by
  apply invariant.moves outside consistent rfl rfl
    (fun _ _ _ held => held) freeing
  · intro j acquired
    by_cases isSlot : j = i
    · subst isSlot
      rw [stored_self] at acquired
      exact .inl (marks acquired)
    · rw [stored_of_ne isSlot] at acquired
      exact .inr ⟨acquired, fun owns => isSlot (ownSlot j owns)⟩
  · exact pointer
  · intro j
    have same :
        Published { tun with
          kernel := (tun.kernel.setIface i value).goto t place } j ↔
          tun.Published j :=
      published_iff rfl rfl published
    rw [same, ← invariant.empty]
    by_cases isSlot : j = i
    · subst isSlot
      simp [stored_self, isPresent, wasPresent]
    · rw [stored_of_ne isSlot]

/-- A thread in `opaque_free` whose interface is not taken back finds one in
the slot. -/
theorem ne_null
    (invariant : tun.SlotInvariant)
    (published : (tun.kernel.threads t).published = some i) :
    tun.kernel.ifaces i ≠ 0 := by
  intro isNull
  exact (invariant.empty i).mp isNull (.inr ⟨t, .inl published⟩)

/-- A free `op->lock` is held by nobody. -/
theorem lock_of_free
    {owner : Option Thread}
    (free : tun.kernel.lock i = none) :
    ∀ u j, u ≠ t → tun.kernel.lock j = some u →
      (tun.kernel.setLock i owner).lock j = some u := by
  intro u j _ held
  have different : j ≠ i := by
    rintro rfl
    simp [free] at held
  simpa [TunKernel.setLock, different] using held

/-- An `op->lock` is held by one thread. -/
theorem lock_of_held
    {owner : Option Thread}
    (held : tun.kernel.lock i = some t) :
    ∀ u j, u ≠ t → tun.kernel.lock j = some u →
      (tun.kernel.setLock i owner).lock j = some u := by
  intro u j other isHeld
  have different : j ≠ i := by
    rintro rfl
    exact other (Option.some.inj (isHeld.symm.trans held))
  simpa [TunKernel.setLock, different] using isHeld

/-- A thread in `opaque_alloc` holds its new device. -/
theorem holds_of_index
    (invariant : tun.SlotInvariant)
    (index : (tun.allocs t).index = some i) :
    tun.holds t = some i := by
  have isIdle : tun.kernel.threads t = .idle := by
    apply invariant.idle
    intro outside
    simp [outside] at index
  rw [TunModule.holds, isIdle, index]
  rfl

/-- The interface of a device that is created or destroyed is published by the
thread that does so. -/
theorem holds_of_published
    (invariant : tun.SlotInvariant)
    (published :
      (tun.kernel.threads t).published = some i ∨
        (tun.allocs t).published = some i) :
    tun.holds t = some i := by
  rcases published with destroys | creates
  · cases isPlace : tun.kernel.threads t <;>
      simp_all [TunModule.holds]
  · apply invariant.holds_of_index
    cases isPlace : tun.allocs t <;> simp_all

/-- Whether a device that is created or destroyed is published is known to the
thread that does so. -/
theorem published_iff_of_holds
    (invariant : tun.SlotInvariant)
    (holds : tun.holds t = some i) :
    tun.Published i ↔
      (tun.kernel.threads t).published = some i ∨
        (tun.allocs t).published = some i := by
  constructor
  · rintro (isOpen | ⟨u, published⟩)
    · exact absurd isOpen (invariant.unheld t i holds)
    · have isHolder := invariant.holds_of_published published
      rwa [invariant.oneHolder t u i holds isHolder]
  · exact fun published => .inr ⟨t, published⟩

/-- The store of `opaque_free` takes back its own interface only. -/
theorem published_of_clears
    {j : Slot}
    (invariant : tun.SlotInvariant)
    (isPlace : tun.kernel.threads t = .freeClearing i) :
    Published { tun with
      kernel := (tun.kernel.setIface i 0).goto t (.freeUnlocking i) } j ↔
      j ≠ i ∧ tun.Published j := by
  have outside := invariant.outside (t := t) (by simp [isPlace])
  have isHolder : tun.holds t = some i := by
    simp [TunModule.holds, isPlace]
  have others :
      ∀ u, u ≠ t →
        ((tun.kernel.setIface i 0).goto t (.freeUnlocking i)).threads u =
          tun.kernel.threads u :=
    fun u other => Function.update_of_ne other ..
  have mover :
      ((tun.kernel.setIface i 0).goto t (.freeUnlocking i)).threads t =
        .freeUnlocking i :=
    Function.update_self ..
  constructor
  · rintro (isOpen | ⟨u, published⟩)
    · refine ⟨?_, .inl isOpen⟩
      rintro rfl
      exact invariant.unheld t j isHolder isOpen
    · have other : u ≠ t := by
        rintro rfl
        simp [mover, outside] at published
      dsimp only at published
      rw [others u other] at published
      refine ⟨?_, .inr ⟨u, published⟩⟩
      rintro rfl
      have holds := invariant.holds_of_published published
      exact other (invariant.oneHolder u t j holds isHolder)
  · rintro ⟨different, isOpen | ⟨u, published⟩⟩
    · exact .inl isOpen
    · have other : u ≠ t := by
        rintro rfl
        simp [isPlace, outside, Ne.symm different] at published
      refine .inr ⟨u, ?_⟩
      dsimp only
      rwa [others u other]

/-- The store of `opaque_free`. -/
theorem clears
    (invariant : tun.SlotInvariant)
    (consistent :
      ((tun.kernel.setIface i 0).goto t (.freeUnlocking i)).Consistent)
    (isPlace : tun.kernel.threads t = .freeClearing i) :
    SlotInvariant { tun with
      kernel := (tun.kernel.setIface i 0).goto t (.freeUnlocking i) } := by
  have outside := invariant.outside (t := t) (by simp [isPlace])
  apply invariant.moves outside consistent rfl rfl
    (fun _ _ _ held => held)
  · simp [isPlace]
  · intro j acquired
    by_cases isSlot : j = i
    · subst isSlot
      rw [stored_self] at acquired
      exact absurd acquired Nat.zero_ne_one
    · rw [stored_of_ne isSlot] at acquired
      simp [acquired, isPlace, Ne.symm isSlot]
  · simp
  · intro j
    rw [invariant.published_of_clears isPlace]
    by_cases isSlot : j = i
    · subst isSlot
      simp [stored_self]
    · rw [stored_of_ne isSlot, invariant.empty]
      simp [isSlot]

/-- Every action of a thread keeps the invariant. -/
theorem acts
    (invariant : tun.SlotInvariant)
    (outside : tun.allocs t = .outside)
    (acts : tun.kernel.Acts t kernel) :
    SlotInvariant { tun with kernel := kernel } := by
  have consistent := invariant.consistent.acts acts
  have locked := invariant.consistent.lockHeld t
  cases acts with
  | absent i isPlace isNull =>
      rcases TunKernel.afterSlot_cases i with ⟨j, isNext⟩ | isNext <;>
        · rw [isNext] at consistent ⊢
          apply invariant.idles outside consistent rfl rfl rfl <;>
            simp [isPlace, TunKernel.goto]
  | takes i ans isPlace found =>
      have compared := invariant.consistent.seen t ans (by simp [isPlace])
      have present : tun.kernel.ifaces i ≠ 0 := by
        rw [found]
        exact compared.1
      apply invariant.stores outside consistent present Nat.one_ne_zero <;>
        simp_all
  | releases i iface isPlace =>
      have isPointer := invariant.pointer t i iface (by simp [isPlace])
      have acquired := invariant.consistent.owned t i (by simp [isPlace])
      have present : tun.kernel.ifaces i ≠ 0 := by
        rw [acquired]
        exact Nat.one_ne_zero
      rcases TunKernel.afterSlot_cases i with ⟨j, isNext⟩ | isNext <;>
        · rw [isNext] at consistent ⊢
          apply invariant.stores outside consistent present isPointer.1 <;>
            simp [isPlace, isPointer]
  | freeAbsent i isPlace isNull =>
      have published : (tun.kernel.threads t).published = some i := by
        simp [isPlace]
      exact absurd isNull (invariant.ne_null published)
  | freeTakes i ans isPlace found =>
      have published : (tun.kernel.threads t).published = some i := by
        simp [isPlace]
      apply invariant.stores outside consistent
        (invariant.ne_null published) Nat.one_ne_zero <;>
        simp [isPlace]
  | freeClears i isPlace =>
      exact invariant.clears consistent isPlace
  | enters i iface broadaddr rest isPlace isFree =>
      apply invariant.idles outside consistent rfl rfl rfl
        (lock_of_free isFree) <;>
        simp [isPlace]
  | returns i iface rest isPlace =>
      have held := locked i (by simp [isPlace])
      apply invariant.idles outside consistent rfl rfl rfl
        (lock_of_held held) <;>
        simp [isPlace]
  | freeLocks i isPlace isFree =>
      apply invariant.idles outside consistent rfl rfl rfl
        (lock_of_free isFree) <;>
        simp [isPlace]
  | freeUnlocks i isPlace =>
      have held := locked i (by simp [isPlace])
      apply invariant.idles outside consistent rfl rfl rfl
        (lock_of_held held) <;>
        simp [isPlace]
  | _ =>
      apply invariant.idles outside consistent rfl rfl rfl <;>
        simp [*, TunKernel.goto, TunKernel.setAddrMtx]

/-- `opaque_alloc` holds the lock of its own device only. -/
theorem index_of_lockHeld
    {allocPlace : AllocPlace}
    (held : allocPlace.lockHeld = some i) :
    allocPlace.index = some i := by
  cases allocPlace <;> simp_all

/-- Two threads hold two devices. -/
theorem ne_of_holds
    {u : Thread}
    {j : Slot}
    (invariant : tun.SlotInvariant)
    (holds : tun.holds t = some i)
    (other : u ≠ t)
    (held : tun.holds u = some j) :
    j ≠ i := by
  rintro rfl
  exact other (invariant.oneHolder u t j held holds)

/-- A device has one holder after a step of a thread that keeps its device, or
begins with one that nobody else holds. -/
theorem oneHolder_of_moves
    {after : TunModule}
    (invariant : tun.SlotInvariant)
    (others : ∀ u, u ≠ t → after.holds u = tun.holds u)
    (free :
      ∀ j, after.holds t = some j → ∀ u, u ≠ t → tun.holds u ≠ some j) :
    ∀ u other j,
      after.holds u = some j → after.holds other = some j → u = other := by
  intro u other j first second
  by_cases isFirst : u = t <;> by_cases isSecond : other = t
  · rw [isFirst, isSecond]
  · subst isFirst
    rw [others other isSecond] at second
    exact absurd second (free j first other isSecond)
  · subst isSecond
    rw [others u isFirst] at first
    exact absurd first (free j second u isFirst)
  · rw [others u isFirst] at first
    rw [others other isSecond] at second
    exact invariant.oneHolder u other j first second

/-- The kernel calls the destructor of a device. -/
theorem opaqueFree
    (invariant : tun.SlotInvariant)
    (outside : tun.allocs t = .outside)
    (isIdle : tun.kernel.threads t = .idle)
    (isOpen : i ∈ tun.kernel.opaques)
    (consistent :
      ({ tun.kernel with opaques := tun.kernel.opaques.erase i }.goto t
        (.freeLocking i)).Consistent) :
    SlotInvariant { tun with
      kernel :=
        { tun.kernel with opaques := tun.kernel.opaques.erase i }.goto t
          (.freeLocking i) } := by
  have threads :
      ∀ u, ({ tun.kernel with opaques := tun.kernel.opaques.erase i }.goto t
        (.freeLocking i)).threads u =
          if u = t then .freeLocking i else tun.kernel.threads u :=
    fun u => Function.update_apply ..
  constructor
  case consistent =>
    exact consistent
  case pointer =>
    intro u j iface
    dsimp only
    rw [threads]
    split
    · simp
    · exact invariant.pointer u j iface
  case owner =>
    intro j acquired
    obtain ⟨u, owns⟩ := invariant.owner j acquired
    have different : u ≠ t := by
      rintro rfl
      simp [isIdle] at owns
    refine ⟨u, ?_⟩
    dsimp only
    rwa [threads, if_neg different]
  case idle =>
    intro u notOutside
    have different : u ≠ t := by
      rintro rfl
      exact notOutside outside
    dsimp only
    rw [threads, if_neg different]
    exact invariant.idle u notOutside
  case allocLock =>
    exact invariant.allocLock
  case oneHolder =>
    apply invariant.oneHolder_of_moves (t := t)
    · intro u different
      simp only [TunModule.holds, threads, if_neg different]
    · intro j begins u _ held
      have isDevice : i = j := by
        simpa [TunModule.holds, threads] using begins
      rw [← isDevice] at held
      exact invariant.unheld u i held isOpen
  case unheld =>
    intro u j held isMember
    obtain ⟨different, wasOpen⟩ := Finset.mem_erase.mp isMember
    by_cases isCaller : u = t
    · subst isCaller
      simp [TunModule.holds, threads, Ne.symm different] at held
    · simp only [TunModule.holds, threads, if_neg isCaller] at held
      exact invariant.unheld u j held wasOpen
  case empty =>
    intro j
    have same :
        Published { tun with
          kernel :=
            { tun.kernel with opaques := tun.kernel.opaques.erase i }.goto t
              (.freeLocking i) } j ↔ tun.Published j := by
      simp only [Published, threads]
      by_cases isDevice : j = i
      · subst isDevice
        have caller : (if t = t then Place.freeLocking j else
            tun.kernel.threads t).published = some j := by
          simp
        exact iff_of_true (.inr ⟨t, .inl caller⟩) (.inl isOpen)
      · refine or_congr (by simp [TunKernel.goto, isDevice])
          (exists_congr fun u => or_congr_left ?_)
        by_cases isCaller : u = t
        · simp [isCaller, isIdle, Ne.symm isDevice]
        · rw [if_neg isCaller]
    rw [same]
    exact invariant.empty j

/-- A step of `opaque_alloc`. -/
theorem allocates
    {allocPlace : AllocPlace}
    (invariant : tun.SlotInvariant)
    (isIdle : tun.kernel.threads t = .idle)
    (consistent : kernel.Consistent)
    (threads : kernel.threads = tun.kernel.threads)
    (acquired :
      ∀ j, kernel.ifaces j = ifaceAcquired →
        tun.kernel.ifaces j = ifaceAcquired)
    (locked :
      ∀ j, allocPlace.lockHeld = some j → kernel.lock j = some t)
    (lock :
      ∀ u j, u ≠ t → tun.holds u = some j →
        kernel.lock j = tun.kernel.lock j)
    (index :
      ∀ j, allocPlace.index = some j →
        j ∉ kernel.opaques ∧ ∀ u, u ≠ t → tun.holds u ≠ some j)
    (opaques :
      ∀ j ∈ kernel.opaques,
        j ∈ tun.kernel.opaques ∨ (tun.allocs t).index = some j)
    (empty :
      ∀ j, kernel.ifaces j = 0 ↔
        ¬ (tun.goto kernel t allocPlace).Published j) :
    (tun.goto kernel t allocPlace).SlotInvariant := by
  have allocs :
      ∀ u, (tun.goto kernel t allocPlace).allocs u =
        if u = t then allocPlace else tun.allocs u :=
    fun u => Function.update_apply ..
  have mover : (tun.goto kernel t allocPlace).holds t = allocPlace.index := by
    simp only [TunModule.holds, allocs, if_true]
    rw [TunModule.goto, threads, isIdle]
    rfl
  have others :
      ∀ u, u ≠ t → (tun.goto kernel t allocPlace).holds u = tun.holds u := by
    intro u different
    simp only [TunModule.holds, allocs, if_neg different]
    rw [TunModule.goto, threads]
  constructor
  case consistent =>
    exact consistent
  case pointer =>
    rw [TunModule.goto, threads]
    exact invariant.pointer
  case owner =>
    rw [TunModule.goto, threads]
    exact fun j isAcquired => invariant.owner j (acquired j isAcquired)
  case idle =>
    intro u notOutside
    rw [TunModule.goto, threads]
    by_cases isMover : u = t
    · rw [isMover, isIdle]
    · rw [allocs, if_neg isMover] at notOutside
      exact invariant.idle u notOutside
  case allocLock =>
    intro u j held
    rw [allocs] at held
    split at held <;> rename_i isMover
    · rw [isMover]
      exact locked j held
    · have holds := invariant.holds_of_index (index_of_lockHeld held)
      exact (lock u j isMover holds).trans (invariant.allocLock u j held)
  case oneHolder =>
    apply invariant.oneHolder_of_moves others
    rw [mover]
    exact fun j isIndex => (index j isIndex).2
  case unheld =>
    intro u j held isMember
    by_cases isMover : u = t
    · rw [isMover, mover] at held
      exact (index j held).1 isMember
    · rw [others u isMover] at held
      rcases opaques j isMember with isOpen | isNew
      · exact invariant.unheld u j held isOpen
      · have holds := invariant.holds_of_index isNew
        exact isMover (invariant.oneHolder u t j held holds)
  case empty =>
    exact empty

/-- A step of `opaque_alloc` that publishes nothing. -/
theorem published_iff_of_goto
    {allocPlace : AllocPlace}
    {j : Slot}
    (threads : kernel.threads = tun.kernel.threads)
    (opaques : kernel.opaques = tun.kernel.opaques)
    (published : allocPlace.published = (tun.allocs t).published) :
    (tun.goto kernel t allocPlace).Published j ↔ tun.Published j := by
  have same :
      ∀ u, (Function.update tun.allocs t allocPlace u).published =
        (tun.allocs u).published := by
    intro u
    rw [Function.update_apply]
    split <;> rename_i isMover
    · rw [isMover, published]
    · rfl
  simp only [Published, TunModule.goto, threads, opaques, same]

/-- A thread that holds `op->lock` owns the slot or destroys the device. -/
theorem owned_or_freeing_of_lockHeld
    (held : place.lockHeld = some i) :
    place.owned = some i ∨ place.freeing = some i := by
  cases place <;> simp_all

/-- `opaque_alloc` is called with an index of its own. -/
theorem opaqueAlloc
    (invariant : tun.SlotInvariant)
    (isIdle : tun.kernel.threads t = .idle)
    (outside : tun.allocs t = .outside)
    (free : ¬ tun.InUse i) :
    (tun.goto tun.kernel t (.locking i)).SlotInvariant := by
  obtain ⟨notOpen, notHeld⟩ := not_or.mp free
  apply invariant.allocates isIdle invariant.consistent rfl
  case acquired =>
    exact fun _ acquired => acquired
  case locked =>
    simp
  case lock =>
    exact fun _ _ _ _ => rfl
  case index =>
    intro j isIndex
    cases isIndex
    exact ⟨notOpen, fun u _ held => notHeld ⟨u, held⟩⟩
  case opaques =>
    exact fun _ isOpen => .inl isOpen
  case empty =>
    intro j
    rw [published_iff_of_goto rfl rfl (by rw [outside]; rfl)]
    exact invariant.empty j

/-- The interface that `opaque_alloc` has still to publish is not in its
slot. -/
theorem not_published_of_creates
    (invariant : tun.SlotInvariant)
    (index : (tun.allocs t).index = some i)
    (unpublished : (tun.allocs t).published = none) :
    ¬ tun.Published i := by
  have isIdle : tun.kernel.threads t = .idle := by
    apply invariant.idle
    intro outside
    simp [outside] at index
  rw [invariant.published_iff_of_holds (invariant.holds_of_index index),
    isIdle, unpublished]
  simp

/-- Nobody owns the slot of an interface that `opaque_alloc` has still to
publish. -/
theorem not_owned_of_null
    {u : Thread}
    (invariant : tun.SlotInvariant)
    (isNull : tun.kernel.ifaces i = 0) :
    (tun.kernel.threads u).owned ≠ some i := by
  intro isOwner
  have acquired := invariant.consistent.owned u i isOwner
  exact absurd (isNull.symm.trans acquired) Nat.zero_ne_one

/-- A device that is being created is not destroyed. -/
theorem not_freeing_of_creates
    {u : Thread}
    (invariant : tun.SlotInvariant)
    (index : (tun.allocs t).index = some i) :
    (tun.kernel.threads u).freeing ≠ some i := by
  intro destroys
  have held : tun.holds u = some i := by
    rw [TunModule.holds, destroys]
    rfl
  have same := invariant.oneHolder u t i held (invariant.holds_of_index index)
  subst same
  have isIdle : tun.kernel.threads u = .idle := by
    apply invariant.idle
    intro outside
    simp [outside] at index
  simp [isIdle] at destroys

/-- Setting one lock leaves the others. -/
theorem setLock_of_ne
    {owner : Option Thread}
    {j : Slot}
    (different : j ≠ i) :
    (kernel.setLock i owner).lock j = kernel.lock j :=
  Function.update_of_ne different ..

/-- A lock that no thread of the other functions holds can be set. -/
theorem consistent_of_setLock
    {owner : Option Thread}
    (consistent : kernel.Consistent)
    (free : ∀ u, (kernel.threads u).lockHeld ≠ some i) :
    (kernel.setLock i owner).Consistent := by
  refine { consistent with lockHeld := ?_ }
  intro u j held
  have different : j ≠ i := by
    rintro rfl
    exact free u held
  rw [setLock_of_ne different]
  exact consistent.lockHeld u j held

/-- `opaque_alloc` locks the new `op->lock`. -/
theorem allocLocks
    (invariant : tun.SlotInvariant)
    (isPlace : tun.allocs t = .locking i) :
    (tun.goto (tun.kernel.setLock i (some t)) t
      (.publishing i)).SlotInvariant := by
  have index : (tun.allocs t).index = some i := by
    simp [isPlace]
  have holds := invariant.holds_of_index index
  have isIdle := invariant.idle t (by simp [isPlace])
  have isNull : tun.kernel.ifaces i = 0 := by
    rw [invariant.empty]
    exact invariant.not_published_of_creates index (by simp [isPlace])
  have unlocked : ∀ u, (tun.kernel.threads u).lockHeld ≠ some i := by
    intro u held
    rcases owned_or_freeing_of_lockHeld held with isOwner | destroys
    · exact invariant.not_owned_of_null isNull isOwner
    · exact invariant.not_freeing_of_creates index destroys
  apply invariant.allocates isIdle
    (consistent_of_setLock invariant.consistent unlocked) rfl
  case acquired =>
    exact fun _ acquired => acquired
  case locked =>
    intro j isLock
    cases isLock
    exact Function.update_self ..
  case lock =>
    intro u j other held
    exact setLock_of_ne (invariant.ne_of_holds holds other held)
  case index =>
    intro j isIndex
    cases isIndex
    refine ⟨invariant.unheld t i holds, fun u other held => ?_⟩
    exact invariant.ne_of_holds holds other held rfl
  case opaques =>
    exact fun _ isOpen => .inl isOpen
  case empty =>
    intro j
    have same :
        (tun.goto (tun.kernel.setLock i (some t)) t
          (.publishing i)).Published j ↔ tun.Published j :=
      published_iff_of_goto rfl rfl (by rw [isPlace]; rfl)
    rw [same]
    exact invariant.empty j

/-- Publishing changes the slot. -/
theorem publish_self
    {iface : Addr}
    {addrs : List (Option InAddr)} :
    (kernel.publish i iface addrs).ifaces i = iface :=
  Function.update_self ..

/-- Publishing changes no other slot. -/
theorem publish_of_ne
    {iface : Addr}
    {addrs : List (Option InAddr)}
    {j : Slot}
    (different : j ≠ i) :
    (kernel.publish i iface addrs).ifaces j = kernel.ifaces j :=
  Function.update_of_ne different ..

/-- A slot that nobody owns or clears can be stored to. -/
theorem consistent_of_publish
    {iface : Addr}
    {addrs : List (Option InAddr)}
    (consistent : kernel.Consistent)
    (unowned : ∀ u, (kernel.threads u).owned ≠ some i)
    (notCleared : ∀ u, kernel.threads u ≠ .freeClearing i) :
    (kernel.publish i iface addrs).Consistent := by
  refine { consistent with owned := ?_, clearing := ?_ }
  · intro u j isOwner
    have different : j ≠ i := by
      rintro rfl
      exact unowned u isOwner
    exact (publish_of_ne different).trans (consistent.owned u j isOwner)
  · intro u j clears
    have different : j ≠ i := by
      rintro rfl
      exact notCleared u clears
    rw [publish_of_ne different]
    exact consistent.clearing u j clears

/-- A step of `opaque_alloc` leaves the other devices published or not. -/
theorem published_iff_of_ne
    {allocPlace : AllocPlace}
    {j : Slot}
    (threads : kernel.threads = tun.kernel.threads)
    (opaques : j ∈ kernel.opaques ↔ j ∈ tun.kernel.opaques)
    (before : (tun.allocs t).published ≠ some j)
    (now : allocPlace.published ≠ some j) :
    (tun.goto kernel t allocPlace).Published j ↔ tun.Published j := by
  simp only [Published, TunModule.goto, threads, opaques]
  refine or_congr_right (exists_congr fun u => or_congr_right ?_)
  by_cases isMover : u = t
  · rw [isMover, Function.update_self]
    exact iff_of_false now before
  · rw [Function.update_of_ne isMover]

/-- `opaque_alloc` publishes its interface. -/
theorem publishes
    {iface : Addr}
    {addrs : List (Option InAddr)}
    (invariant : tun.SlotInvariant)
    (isPlace : tun.allocs t = .publishing i)
    (isPointer : iface ≠ 0 ∧ iface ≠ ifaceAcquired) :
    (tun.goto (tun.kernel.publish i iface addrs) t
      (.unlocking i)).SlotInvariant := by
  have index : (tun.allocs t).index = some i := by
    simp [isPlace]
  have holds := invariant.holds_of_index index
  have isIdle := invariant.idle t (by simp [isPlace])
  have unpublished :=
    invariant.not_published_of_creates index (by simp [isPlace])
  have isNull := (invariant.empty i).mpr unpublished
  have consistent :
      (tun.kernel.publish i iface addrs).Consistent := by
    apply consistent_of_publish invariant.consistent
    · exact fun u => invariant.not_owned_of_null isNull
    · intro u clears
      refine invariant.not_freeing_of_creates index (u := u) ?_
      simp [clears]
  apply invariant.allocates isIdle consistent rfl
  case acquired =>
    intro j acquired
    by_cases isSlot : j = i
    · subst isSlot
      rw [publish_self] at acquired
      exact absurd acquired isPointer.2
    · rwa [publish_of_ne isSlot] at acquired
  case locked =>
    intro j isLock
    cases isLock
    exact invariant.allocLock t i (by simp [isPlace])
  case lock =>
    exact fun _ _ _ _ => rfl
  case index =>
    intro j isIndex
    cases isIndex
    refine ⟨invariant.unheld t i holds, fun u other held => ?_⟩
    exact invariant.ne_of_holds holds other held rfl
  case opaques =>
    exact fun _ isOpen => .inl isOpen
  case empty =>
    intro j
    by_cases isSlot : j = i
    · subst isSlot
      rw [publish_self]
      refine iff_of_false isPointer.1 (not_not_intro (.inr ⟨t, .inr ?_⟩))
      simp [TunModule.goto]
    · have same :
          (tun.goto (tun.kernel.publish i iface addrs) t
            (.unlocking i)).Published j ↔ tun.Published j :=
        published_iff_of_ne rfl Iff.rfl (by simp [isPlace])
          (by simpa using Ne.symm isSlot)
      rw [same, publish_of_ne isSlot]
      exact invariant.empty j

/-- `opaque_alloc` unlocks `op->lock` and returns. -/
theorem allocReturns
    (invariant : tun.SlotInvariant)
    (isPlace : tun.allocs t = .unlocking i) :
    (tun.goto (tun.kernel.finishAlloc i) t .outside).SlotInvariant := by
  have index : (tun.allocs t).index = some i := by
    simp [isPlace]
  have holds := invariant.holds_of_index index
  have isIdle := invariant.idle t (by simp [isPlace])
  have locked := invariant.allocLock t i (by simp [isPlace])
  have unlocked : ∀ u, (tun.kernel.threads u).lockHeld ≠ some i := by
    intro u held
    have isOwner := invariant.consistent.lockHeld u i held
    have same := Option.some.inj (isOwner.symm.trans locked)
    rw [same, isIdle] at held
    simp at held
  have consistent : (tun.kernel.finishAlloc i).Consistent :=
    { @consistent_of_setLock _ _ none invariant.consistent unlocked with }
  apply invariant.allocates isIdle consistent rfl
  case acquired =>
    exact fun _ acquired => acquired
  case locked =>
    simp
  case lock =>
    intro u j other held
    exact setLock_of_ne (invariant.ne_of_holds holds other held)
  case index =>
    simp
  case opaques =>
    intro j isMember
    rcases Finset.mem_insert.mp isMember with rfl | isOpen
    · exact .inr index
    · exact .inl isOpen
  case empty =>
    intro j
    refine (invariant.empty j).trans (not_congr ?_)
    by_cases isSlot : j = i
    · subst isSlot
      refine iff_of_true (.inr ⟨t, .inr (by simp [isPlace])⟩) (.inl ?_)
      exact Finset.mem_insert_self ..
    · have same :
          (tun.goto (tun.kernel.finishAlloc i) t .outside).Published j ↔
            tun.Published j := by
        have threads :
            (tun.kernel.finishAlloc i).threads = tun.kernel.threads :=
          rfl
        apply published_iff_of_ne threads
        · simp [TunKernel.finishAlloc, TunKernel.setLock, isSlot]
        · simpa [isPlace] using Ne.symm isSlot
        · simp
      exact same.symm

/-- Every step that gives a new device an index of its own keeps the
invariant. -/
theorem step
    {after : TunModule}
    {label : Label}
    (invariant : tun.SlotInvariant)
    (step : tun.OwnIndexStep label after) :
    after.SlotInvariant := by
  rcases step_cases step.1 with
    ⟨kernelLabel, kernel, rfl, outside, kernelStep, rfl⟩ |
    ⟨t, i, rfl, isIdle, outside, rfl⟩ |
    ⟨t, i, rfl, isPlace, rfl⟩ |
    ⟨t, i, iface, addrs, rfl, isPlace, notNull, notMark, rfl⟩ |
    ⟨t, i, rfl, isPlace, rfl⟩
  · have consistent := invariant.consistent.step kernelStep
    rcases TunKernel.step_cases kernelStep with
      ⟨t, rfl, isIdle, rfl⟩ |
      ⟨t, i, rfl, isIdle, isOpen, rfl⟩ | ⟨t, rfl, acts⟩
    · change tun.allocs t = .outside at outside
      apply invariant.idles outside consistent rfl rfl rfl
        (fun _ _ _ held => held) <;>
        simp [isIdle]
    · exact invariant.opaqueFree outside isIdle isOpen consistent
    · exact invariant.acts outside acts
  · exact invariant.opaqueAlloc isIdle outside (step.2 t i rfl)
  · exact invariant.allocLocks isPlace
  · exact invariant.publishes isPlace ⟨notNull, notMark⟩
  · exact invariant.allocReturns isPlace

/-- Every run in which each device has an index of its own keeps the
invariant. -/
theorem run
    {final : TunModule}
    {labels : List Label}
    (run : Run OwnIndexStep loaded labels final) :
    final.SlotInvariant :=
  run.invariant (fun invariant step => invariant.step step) loaded_invariant

/-- Two threads do not own a slot. -/
theorem owner_unique
    {u : Thread}
    (invariant : tun.SlotInvariant)
    (first : (tun.kernel.threads t).Owns i)
    (second : (tun.kernel.threads u).Owns i) :
    t = u := by
  rcases first with isOwner | clears <;>
    rcases second with isOther | otherClears
  · exact invariant.consistent.oneOwner t u i isOwner isOther
  · exact absurd isOwner
      ((invariant.consistent.clearing u i otherClears).2 t)
  · exact absurd isOther ((invariant.consistent.clearing t i clears).2 u)
  · apply invariant.oneHolder t u i
    · simp [TunModule.holds, clears]
    · simp [TunModule.holds, otherClears]

/-- While a sender has an interface, `opaque_free` does not pass its store. -/
theorem not_clears
    {iface : Addr}
    {label : Label}
    (invariant : tun.SlotInvariant)
    (obtained : (tun.kernel.threads t).obtained = some (i, iface)) :
    ¬ tun.Clears i label := by
  rintro ⟨u, _, clears⟩
  have isOwner : (tun.kernel.threads t).owned = some i := by
    cases isPlace : tun.kernel.threads t <;> simp_all
  exact (invariant.consistent.clearing u i clears).2 t isOwner

end SlotInvariant

end TunModule

end Hamachi
