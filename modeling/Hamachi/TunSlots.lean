import Hamachi.TunLockOrder

namespace Hamachi

/-!
# The protocol of the interface slots

`opaque_alloc` publishes an interface in the slot of its device, senders take it
out and put it back, and `opaque_free` takes it out for good.  As long as each
device has an index of its own, a slot is empty unless its device is published,
and a taken slot has one owner.
-/

/-- Where a thread is in `opaque_alloc`. -/
inductive AllocPlace where
  | outside
  /-- `mtx_lock(&op->lock)` of the new device -/
  | locking (i : Slot)
  /-- `release_iface(idx, op->iface)` -/
  | publishing (i : Slot)
  /-- `mtx_unlock(&op->lock)` -/
  | unlocking (i : Slot)
  deriving DecidableEq

namespace AllocPlace

/-- The index of the new device. -/
@[simp] def index : AllocPlace → Option Slot
  | .outside => none
  | .locking i => some i
  | .publishing i => some i
  | .unlocking i => some i

/-- The new device whose interface is in its slot. -/
@[simp] def published : AllocPlace → Option Slot
  | .unlocking i => some i
  | _ => none

/-- The new device whose `op->lock` is held. -/
@[simp] def lockHeld : AllocPlace → Option Slot
  | .publishing i => some i
  | .unlocking i => some i
  | _ => none

end AllocPlace

namespace Place

/-- The device that a thread in `opaque_free` is destroying. -/
@[simp] def freeing : Place → Option Slot
  | .freeLocking i => some i
  | .freeAcquiring i => some i
  | .freeComparing i _ => some i
  | .freeClearing i => some i
  | .freeUnlocking i => some i
  | _ => none

/-- The device whose interface `opaque_free` has still to take back. -/
@[simp] def published : Place → Option Slot
  | .freeLocking i => some i
  | .freeAcquiring i => some i
  | .freeComparing i _ => some i
  | .freeClearing i => some i
  | _ => none

/-- The slot and the interface that `acquire_iface` returned to a sender which
has not put it back. -/
@[simp] def obtained : Place → Option (Slot × Addr)
  | .lockingAddrs i iface => some (i, iface)
  | .sending i iface _ => some (i, iface)
  | .inOutput i iface _ => some (i, iface)
  | .releasing i iface => some (i, iface)
  | _ => none

/-- A thread owns a slot: a sender, or `opaque_free` between `acquire_iface`
and its store. -/
@[simp] def Owns (i : Slot) (place : Place) : Prop :=
  place.owned = some i ∨ place = .freeClearing i

end Place

/-- The kernel module with threads in `opaque_alloc`. -/
structure TunModule where
  kernel : TunKernel
  allocs : Thread → AllocPlace

namespace TunKernel

/-- Store a new interface with these addresses to a slot. -/
def publish
    (kernel : TunKernel)
    (i : Slot)
    (iface : Addr)
    (addrs : List (Option InAddr)) : TunKernel :=
  { kernel.setIface i iface with
    addrs := Function.update kernel.addrs i addrs }

/-- Release the `op->lock` of a new device, which can then be closed. -/
def finishAlloc (kernel : TunKernel) (i : Slot) : TunKernel :=
  { kernel.setLock i none with opaques := insert i kernel.opaques }

end TunKernel

namespace TunModule

/-- What happens next: something in the other functions, or in `opaque_alloc`,
where the new interface has these addresses. -/
inductive Label where
  | kernel (label : TunKernel.Label)
  | opaqueAlloc (t : Thread) (i : Slot)
  | allocLocks (t : Thread)
  | publishes (t : Thread) (iface : Addr) (addrs : List (Option InAddr))
  | allocReturns (t : Thread)
  deriving DecidableEq

/-- Move a thread to another place in `opaque_alloc`. -/
def goto
    (tun : TunModule)
    (kernel : TunKernel)
    (t : Thread)
    (place : AllocPlace) : TunModule where
  kernel := kernel
  allocs := Function.update tun.allocs t place

/-- One step of the module.  The device can be closed once `opaque_alloc` has
returned. -/
def next (tun : TunModule) : Label → Option TunModule
  | .kernel label =>
      if tun.allocs label.thread = .outside then
        (tun.kernel.next label).map fun kernel =>
          { tun with kernel := kernel }
      else
        none
  | .opaqueAlloc t i =>
      if tun.kernel.threads t = .idle ∧ tun.allocs t = .outside then
        some (tun.goto tun.kernel t (.locking i))
      else
        none
  | .allocLocks t =>
      match tun.allocs t with
      | .locking i =>
          some (tun.goto (tun.kernel.setLock i (some t)) t (.publishing i))
      | _ => none
  | .publishes t iface addrs =>
      match tun.allocs t with
      | .publishing i =>
          if iface ≠ 0 ∧ iface ≠ ifaceAcquired then
            some (tun.goto (tun.kernel.publish i iface addrs) t
              (.unlocking i))
          else
            none
      | _ => none
  | .allocReturns t =>
      match tun.allocs t with
      | .unlocking i =>
          some (tun.goto (tun.kernel.finishAlloc i) t .outside)
      | _ => none

/-- One step as a relation. -/
def Step (tun : TunModule) (label : Label) (after : TunModule) : Prop :=
  tun.next label = some after

/-- The device that a thread is creating or destroying. -/
def holds (tun : TunModule) (t : Thread) : Option Slot :=
  (tun.kernel.threads t).freeing.or (tun.allocs t).index

/-- A device with the index exists. -/
def InUse (tun : TunModule) (i : Slot) : Prop :=
  i ∈ tun.kernel.opaques ∨ ∃ t, tun.holds t = some i

/-- A step that gives a new device an index of its own. -/
def OwnIndexStep
    (tun : TunModule)
    (label : Label)
    (after : TunModule) : Prop :=
  tun.Step label after ∧
    ∀ t i, label = .opaqueAlloc t i → ¬ tun.InUse i

/-- The module when it is loaded. -/
def loaded : TunModule where
  kernel := {
    ifaces := fun _ => 0
    lock := fun _ => none
    addrMtx := fun _ => none
    addrs := fun _ => []
    opaques := ∅
    threads := fun _ => .idle
  }
  allocs := fun _ => .outside

/-- The step is the store of `opaque_free` to a slot. -/
def Clears (tun : TunModule) (i : Slot) (label : Label) : Prop :=
  ∃ t, label = .kernel (.runs t) ∧ tun.kernel.threads t = .freeClearing i

/-- The step publishes an interface in a slot. -/
def Publishes (tun : TunModule) (i : Slot) (label : Label) : Prop :=
  ∃ t iface addrs,
    label = .publishes t iface addrs ∧ tun.allocs t = .publishing i

/-- `acquire_iface` of a sender returns an interface. -/
def Obtains
    (tun : TunModule)
    (t : Thread)
    (i : Slot)
    (iface : Addr)
    (label : Label)
    (after : TunModule) : Prop :=
  label = .kernel (.runs t) ∧
    tun.kernel.threads t = .comparing i iface ∧
    after.kernel.threads t = .lockingAddrs i iface

/-- The interface that a thread has was returned to it by `acquire_iface`, and
`opaque_free` has not taken it back since. -/
def ObtainedBy
    (start : TunModule)
    (labels : List Label)
    (reached : TunModule)
    (t : Thread)
    (i : Slot)
    (iface : Addr) : Prop :=
  ∃ before label later source obtained,
    labels = before ++ label :: later ∧
      Run Step start before source ∧
      source.Step label obtained ∧
      source.Obtains t i iface label obtained ∧
      Run (fun tun label after =>
          tun.Step label after ∧ ¬ tun.Clears i label)
        obtained later reached

/-- The protocol of a slot at the end of a run. -/
structure SlotProtocol
    (start : TunModule)
    (labels : List Label)
    (reached : TunModule)
    (i : Slot) : Prop where
  /-- a taken slot has exactly one owner -/
  oneOwner :
    reached.kernel.ifaces i = ifaceAcquired →
      ∃! t, (reached.kernel.threads t).Owns i
  /-- an interface in use was not taken back since it was obtained -/
  noUseAfterFree :
    ∀ t iface,
      (reached.kernel.threads t).obtained = some (i, iface) →
        ObtainedBy start labels reached t i iface
  /-- a slot that was taken back is empty until it is published again -/
  staysEmpty :
    ∀ before label later source cleared,
      labels = before ++ label :: later →
        Run Step start before source →
        source.Clears i label →
        source.Step label cleared →
        Run (fun tun label after =>
            tun.Step label after ∧ ¬ tun.Publishes i label)
          cleared later reached →
        reached.kernel.ifaces i = 0

/-- What a step does. -/
theorem step_cases
    {tun after : TunModule}
    {label : Label}
    (step : tun.Step label after) :
    (∃ kernelLabel kernel,
        label = .kernel kernelLabel ∧
          tun.allocs kernelLabel.thread = .outside ∧
          tun.kernel.Step kernelLabel kernel ∧
          after = { tun with kernel := kernel }) ∨
      (∃ t i,
        label = .opaqueAlloc t i ∧
          tun.kernel.threads t = .idle ∧
          tun.allocs t = .outside ∧
          after = tun.goto tun.kernel t (.locking i)) ∨
      (∃ t i,
        label = .allocLocks t ∧
          tun.allocs t = .locking i ∧
          after =
            tun.goto (tun.kernel.setLock i (some t)) t (.publishing i)) ∨
      (∃ t i iface addrs,
        label = .publishes t iface addrs ∧
          tun.allocs t = .publishing i ∧
          iface ≠ 0 ∧
          iface ≠ ifaceAcquired ∧
          after =
            tun.goto (tun.kernel.publish i iface addrs) t
              (.unlocking i)) ∨
      ∃ t i,
        label = .allocReturns t ∧
          tun.allocs t = .unlocking i ∧
          after = tun.goto (tun.kernel.finishAlloc i) t .outside := by
  cases label with
  | kernel kernelLabel =>
      simp only [Step, next] at step
      split at step <;> [rename_i outside; cases step]
      obtain ⟨kernel, kernelStep, rfl⟩ := Option.map_eq_some_iff.mp step
      exact .inl ⟨kernelLabel, kernel, rfl, outside, kernelStep, rfl⟩
  | opaqueAlloc t i =>
      simp only [Step, next] at step
      split at step <;> [rename_i calls; cases step]
      cases step
      exact .inr (.inl ⟨t, i, rfl, calls.1, calls.2, rfl⟩)
  | allocLocks t =>
      simp only [Step, next] at step
      split at step <;> [rename_i i isPlace; cases step]
      cases step
      exact .inr (.inr (.inl ⟨t, i, rfl, isPlace, rfl⟩))
  | publishes t iface addrs =>
      simp only [Step, next] at step
      split at step <;> [rename_i i isPlace; cases step]
      split at step <;> [rename_i isPointer; cases step]
      cases step
      exact .inr (.inr (.inr (.inl ⟨t, i, iface, addrs, rfl, isPlace,
        isPointer.1, isPointer.2, rfl⟩)))
  | allocReturns t =>
      simp only [Step, next] at step
      split at step <;> [rename_i i isPlace; cases step]
      cases step
      exact .inr (.inr (.inr (.inr ⟨t, i, rfl, isPlace, rfl⟩)))

/-- A step determines the state after it. -/
theorem step_functional
    {source target other : TunModule}
    {label : Label}
    (first : source.Step label target)
    (second : source.Step label other) :
    target = other :=
  Option.some.inj (first.symm.trans second)

end TunModule

end Hamachi
