import Hamachi.Tuntap
import Mathlib.Data.Finset.Insert

namespace Hamachi

/-!
# Threads in the kernel module `tun`

The state is what `new_udp_send` and `opaque_free` share: the slots `ifaces`,
each device's `op->lock`, and the address mutex of its interface.  A thread is
in one of the two functions, at a place between two of their atomic actions; a
packet sent to the broadcast address of an interface enters `tun_output` in the
sending thread.
-/

/-- An index of `ifaces`. -/
abbrev Slot := Fin 10

/-- The slot at which the loop of `new_udp_send` starts. -/
abbrev firstSlot : Slot := 0

/-- A kernel thread. -/
abbrev Thread := Nat

/-- `IFACE_ACQUIRED`. -/
def ifaceAcquired : Addr := 1

/-- The next action of a thread. -/
inductive Place where
  /-- in no function of the module -/
  | idle
  /-- `acquire_iface` of `new_udp_send` reads the slot -/
  | acquiring (i : Slot)
  /-- it compares and swaps the slot -/
  | comparing (i : Slot) (ans : Addr)
  /-- `mtx_lock(&IF_ADDR_MTX(*iface))` -/
  | lockingAddrs (i : Slot) (iface : Addr)
  /-- `TAILQ_FOREACH` with these addresses left -/
  | sending (i : Slot) (iface : Addr) (rest : List (Option InAddr))
  /-- `tun_output` inside `mtx_lock(&op->lock)` -/
  | inOutput (i : Slot) (iface : Addr) (rest : List (Option InAddr))
  /-- `release_iface` -/
  | releasing (i : Slot) (iface : Addr)
  /-- `mtx_lock(&op->lock)` of `opaque_free` -/
  | freeLocking (i : Slot)
  /-- `acquire_iface` of `opaque_free` reads the slot -/
  | freeAcquiring (i : Slot)
  /-- it compares and swaps the slot -/
  | freeComparing (i : Slot) (ans : Addr)
  /-- `atomic_store_rel_ptr` of the null pointer -/
  | freeClearing (i : Slot)
  /-- the tear-down up to `mtx_unlock(&op->lock)` -/
  | freeUnlocking (i : Slot)
  deriving DecidableEq

/-- `opaque_free` of a device is in `acquire_iface`. -/
def Place.InAcquire (i : Slot) : Place → Prop
  | .freeAcquiring j => j = i
  | .freeComparing j _ => j = i
  | _ => False

/-- `new_udp_send` owns the slot of a device and is at `mtx_lock(&op->lock)` of
`tun_output`. -/
def Place.AtOpLock (i : Slot) : Place → Prop
  | .sending j _ (some _ :: _) => j = i
  | _ => False

/-- The shared state of the module and the places of the threads. -/
structure TunKernel where
  ifaces : Slot → Addr
  /-- the owner of `op->lock` -/
  lock : Slot → Option Thread
  /-- the owner of `IF_ADDR_MTX` -/
  addrMtx : Slot → Option Thread
  /-- `if_addrhead`; an entry without an `AF_INET` broadcast address is `none` -/
  addrs : Slot → List (Option InAddr)
  /-- the devices whose destructor `opaque_free` has not been called -/
  opaques : Finset Slot
  threads : Thread → Place

namespace TunKernel

/-- Move a thread to another place. -/
def goto (kernel : TunKernel) (t : Thread) (place : Place) : TunKernel :=
  { kernel with threads := Function.update kernel.threads t place }

/-- Store to a slot. -/
def setIface (kernel : TunKernel) (i : Slot) (iface : Addr) : TunKernel :=
  { kernel with ifaces := Function.update kernel.ifaces i iface }

/-- Take or release `op->lock`. -/
def setLock
    (kernel : TunKernel)
    (i : Slot)
    (owner : Option Thread) : TunKernel :=
  { kernel with lock := Function.update kernel.lock i owner }

/-- Take or release `IF_ADDR_MTX`. -/
def setAddrMtx
    (kernel : TunKernel)
    (i : Slot)
    (owner : Option Thread) : TunKernel :=
  { kernel with addrMtx := Function.update kernel.addrMtx i owner }

/-- Where `acquire_iface` goes after it read `ans`. -/
def afterRead
    (ans : Addr)
    (again : Place)
    (compare : Addr → Place)
    (absent : Place) : Place :=
  if ans = 0 then
    absent
  else if ans = ifaceAcquired then
    again
  else
    compare ans

/-- Where the loop of `new_udp_send` goes after a slot. -/
def afterSlot (i : Slot) : Place :=
  if isSlot : i.val + 1 < 10 then
    .acquiring ⟨i.val + 1, isSlot⟩
  else
    .idle

/-- The next action of a thread, unless it is idle or has to wait. -/
def run (kernel : TunKernel) (t : Thread) : Option TunKernel :=
  match kernel.threads t with
  | .idle => none
  | .acquiring i =>
      some (kernel.goto t
        (afterRead (kernel.ifaces i) (.acquiring i) (.comparing i)
          (afterSlot i)))
  | .comparing i ans =>
      if kernel.ifaces i = ans then
        some ((kernel.setIface i ifaceAcquired).goto t
          (.lockingAddrs i ans))
      else
        some (kernel.goto t (.acquiring i))
  | .lockingAddrs i iface =>
      if kernel.addrMtx i = none then
        some ((kernel.setAddrMtx i (some t)).goto t
          (.sending i iface (kernel.addrs i)))
      else
        none
  | .sending i iface [] =>
      some ((kernel.setAddrMtx i none).goto t (.releasing i iface))
  | .sending i iface (none :: rest) =>
      some (kernel.goto t (.sending i iface rest))
  | .sending i iface (some _ :: rest) =>
      if kernel.lock i = none then
        some ((kernel.setLock i (some t)).goto t (.inOutput i iface rest))
      else
        none
  | .inOutput i iface rest =>
      some ((kernel.setLock i none).goto t (.sending i iface rest))
  | .releasing i iface =>
      some ((kernel.setIface i iface).goto t (afterSlot i))
  | .freeLocking i =>
      if kernel.lock i = none then
        some ((kernel.setLock i (some t)).goto t (.freeAcquiring i))
      else
        none
  | .freeAcquiring i =>
      some (kernel.goto t
        (afterRead (kernel.ifaces i) (.freeAcquiring i) (.freeComparing i)
          (.freeClearing i)))
  | .freeComparing i ans =>
      if kernel.ifaces i = ans then
        some ((kernel.setIface i ifaceAcquired).goto t (.freeClearing i))
      else
        some (kernel.goto t (.freeAcquiring i))
  | .freeClearing i =>
      some ((kernel.setIface i 0).goto t (.freeUnlocking i))
  | .freeUnlocking i =>
      some ((kernel.setLock i none).goto t .idle)

/-- What happens next: a thread calls a function of the module or goes on. -/
inductive Label where
  | udpSend (t : Thread)
  | opaqueFree (t : Thread) (i : Slot)
  | runs (t : Thread)
  deriving DecidableEq

/-- One step of the module; the kernel calls the destructor of a device once. -/
def next (kernel : TunKernel) : Label → Option TunKernel
  | .udpSend t =>
      if kernel.threads t = .idle then
        some (kernel.goto t (.acquiring firstSlot))
      else
        none
  | .opaqueFree t i =>
      if kernel.threads t = .idle ∧ i ∈ kernel.opaques then
        some ({ kernel with opaques := kernel.opaques.erase i }.goto t
          (.freeLocking i))
      else
        none
  | .runs t =>
      kernel.run t

/-- One step as a relation. -/
def Step (kernel : TunKernel) (label : Label) (after : TunKernel) : Prop :=
  kernel.next label = some after

/-- No call is under way. -/
structure Quiet (kernel : TunKernel) : Prop where
  idle : ∀ t, kernel.threads t = .idle
  unlocked : ∀ i, kernel.lock i = none
  addrsUnlocked : ∀ i, kernel.addrMtx i = none
  released : ∀ i, kernel.ifaces i ≠ ifaceAcquired

/-- A thread in `opaque_free` holds `op->lock` and waits for the slot, while a
thread in `new_udp_send` owns the slot and waits in `tun_output` for the same
lock. -/
def Deadlocked (kernel : TunKernel) : Prop :=
  ∃ i freeing sender,
    (kernel.threads freeing).InAcquire i ∧
      kernel.lock i = some freeing ∧
      kernel.ifaces i = ifaceAcquired ∧
      (kernel.threads sender).AtOpLock i

/-- An action of a thread, by the branch of the source that it takes. -/
inductive Acts (kernel : TunKernel) (t : Thread) : TunKernel → Prop where
  /-- `acquire_iface` finds no interface, and the loop goes on -/
  | absent
      (i : Slot)
      (isPlace : kernel.threads t = .acquiring i)
      (isNull : kernel.ifaces i = 0) :
      Acts kernel t (kernel.goto t (afterSlot i))
  /-- another thread owns the slot -/
  | again
      (i : Slot)
      (isPlace : kernel.threads t = .acquiring i)
      (isAcquired : kernel.ifaces i = ifaceAcquired) :
      Acts kernel t (kernel.goto t (.acquiring i))
  | reads
      (i : Slot)
      (isPlace : kernel.threads t = .acquiring i)
      (isIface : kernel.ifaces i ≠ 0 ∧ kernel.ifaces i ≠ ifaceAcquired) :
      Acts kernel t (kernel.goto t (.comparing i (kernel.ifaces i)))
  | takes
      (i : Slot)
      (ans : Addr)
      (isPlace : kernel.threads t = .comparing i ans)
      (found : kernel.ifaces i = ans) :
      Acts kernel t
        ((kernel.setIface i ifaceAcquired).goto t (.lockingAddrs i ans))
  | loses
      (i : Slot)
      (ans : Addr)
      (isPlace : kernel.threads t = .comparing i ans)
      (lost : kernel.ifaces i ≠ ans) :
      Acts kernel t (kernel.goto t (.acquiring i))
  | locksAddrs
      (i : Slot)
      (iface : Addr)
      (isPlace : kernel.threads t = .lockingAddrs i iface)
      (isFree : kernel.addrMtx i = none) :
      Acts kernel t
        ((kernel.setAddrMtx i (some t)).goto t
          (.sending i iface (kernel.addrs i)))
  /-- the end of the address list -/
  | sentAll
      (i : Slot)
      (iface : Addr)
      (isPlace : kernel.threads t = .sending i iface []) :
      Acts kernel t
        ((kernel.setAddrMtx i none).goto t (.releasing i iface))
  | skips
      (i : Slot)
      (iface : Addr)
      (rest : List (Option InAddr))
      (isPlace : kernel.threads t = .sending i iface (none :: rest)) :
      Acts kernel t (kernel.goto t (.sending i iface rest))
  | enters
      (i : Slot)
      (iface : Addr)
      (broadaddr : InAddr)
      (rest : List (Option InAddr))
      (isPlace :
        kernel.threads t = .sending i iface (some broadaddr :: rest))
      (isFree : kernel.lock i = none) :
      Acts kernel t
        ((kernel.setLock i (some t)).goto t (.inOutput i iface rest))
  | returns
      (i : Slot)
      (iface : Addr)
      (rest : List (Option InAddr))
      (isPlace : kernel.threads t = .inOutput i iface rest) :
      Acts kernel t
        ((kernel.setLock i none).goto t (.sending i iface rest))
  | releases
      (i : Slot)
      (iface : Addr)
      (isPlace : kernel.threads t = .releasing i iface) :
      Acts kernel t ((kernel.setIface i iface).goto t (afterSlot i))
  | freeLocks
      (i : Slot)
      (isPlace : kernel.threads t = .freeLocking i)
      (isFree : kernel.lock i = none) :
      Acts kernel t
        ((kernel.setLock i (some t)).goto t (.freeAcquiring i))
  | freeAbsent
      (i : Slot)
      (isPlace : kernel.threads t = .freeAcquiring i)
      (isNull : kernel.ifaces i = 0) :
      Acts kernel t (kernel.goto t (.freeClearing i))
  | freeAgain
      (i : Slot)
      (isPlace : kernel.threads t = .freeAcquiring i)
      (isAcquired : kernel.ifaces i = ifaceAcquired) :
      Acts kernel t (kernel.goto t (.freeAcquiring i))
  | freeReads
      (i : Slot)
      (isPlace : kernel.threads t = .freeAcquiring i)
      (isIface : kernel.ifaces i ≠ 0 ∧ kernel.ifaces i ≠ ifaceAcquired) :
      Acts kernel t (kernel.goto t (.freeComparing i (kernel.ifaces i)))
  | freeTakes
      (i : Slot)
      (ans : Addr)
      (isPlace : kernel.threads t = .freeComparing i ans)
      (found : kernel.ifaces i = ans) :
      Acts kernel t
        ((kernel.setIface i ifaceAcquired).goto t (.freeClearing i))
  | freeLoses
      (i : Slot)
      (ans : Addr)
      (isPlace : kernel.threads t = .freeComparing i ans)
      (lost : kernel.ifaces i ≠ ans) :
      Acts kernel t (kernel.goto t (.freeAcquiring i))
  | freeClears
      (i : Slot)
      (isPlace : kernel.threads t = .freeClearing i) :
      Acts kernel t ((kernel.setIface i 0).goto t (.freeUnlocking i))
  | freeUnlocks
      (i : Slot)
      (isPlace : kernel.threads t = .freeUnlocking i) :
      Acts kernel t ((kernel.setLock i none).goto t .idle)

variable
  {kernel after : TunKernel}
  {label : Label}
  {t : Thread}

/-- What a thread does after `acquire_iface` read the slot. -/
theorem afterRead_cases
    {ans : Addr}
    {again absent : Place}
    {compare : Addr → Place} :
    (ans = 0 ∧ afterRead ans again compare absent = absent) ∨
      (ans = ifaceAcquired ∧
        afterRead ans again compare absent = again) ∨
        (ans ≠ 0 ∧ ans ≠ ifaceAcquired) ∧
          afterRead ans again compare absent = compare ans := by
  unfold afterRead
  grind

/-- After a slot `new_udp_send` goes on with the next one or returns. -/
theorem afterSlot_cases (i : Slot) :
    (∃ j, afterSlot i = .acquiring j) ∨ afterSlot i = .idle := by
  unfold afterSlot
  split
  · exact .inl ⟨_, rfl⟩
  · exact .inr rfl

/-- Every action of a thread is one of the branches. -/
theorem acts_of_run
    (runs : kernel.run t = some after) :
    kernel.Acts t after := by
  cases isPlace : kernel.threads t with
  | idle =>
      simp [run, isPlace] at runs
  | acquiring i =>
      simp only [run, isPlace, Option.some.injEq] at runs
      subst runs
      rcases afterRead_cases with ⟨isNull, absent⟩ | ⟨isAcquired, again⟩ |
        ⟨isIface, compare⟩
      · rw [absent]
        exact .absent i isPlace isNull
      · rw [again]
        exact .again i isPlace isAcquired
      · rw [compare]
        exact .reads i isPlace isIface
  | comparing i ans =>
      simp only [run, isPlace] at runs
      split at runs <;> cases runs <;> rename_i test
      · exact .takes i ans isPlace test
      · exact .loses i ans isPlace test
  | lockingAddrs i iface =>
      simp only [run, isPlace] at runs
      split at runs <;> cases runs
      rename_i isFree
      exact .locksAddrs i iface isPlace isFree
  | sending i iface rest =>
      cases rest with
      | nil =>
          simp only [run, isPlace] at runs
          cases runs
          exact .sentAll i iface isPlace
      | cons address rest =>
          cases address with
          | none =>
              simp only [run, isPlace] at runs
              cases runs
              exact .skips i iface rest isPlace
          | some broadaddr =>
              simp only [run, isPlace] at runs
              split at runs <;> cases runs
              rename_i isFree
              exact .enters i iface broadaddr rest isPlace isFree
  | inOutput i iface rest =>
      simp only [run, isPlace] at runs
      cases runs
      exact .returns i iface rest isPlace
  | releasing i iface =>
      simp only [run, isPlace] at runs
      cases runs
      exact .releases i iface isPlace
  | freeLocking i =>
      simp only [run, isPlace] at runs
      split at runs <;> cases runs
      rename_i isFree
      exact .freeLocks i isPlace isFree
  | freeAcquiring i =>
      simp only [run, isPlace, Option.some.injEq] at runs
      subst runs
      rcases afterRead_cases with ⟨isNull, absent⟩ | ⟨isAcquired, again⟩ |
        ⟨isIface, compare⟩
      · rw [absent]
        exact .freeAbsent i isPlace isNull
      · rw [again]
        exact .freeAgain i isPlace isAcquired
      · rw [compare]
        exact .freeReads i isPlace isIface
  | freeComparing i ans =>
      simp only [run, isPlace] at runs
      split at runs <;> cases runs <;> rename_i test
      · exact .freeTakes i ans isPlace test
      · exact .freeLoses i ans isPlace test
  | freeClearing i =>
      simp only [run, isPlace] at runs
      cases runs
      exact .freeClears i isPlace
  | freeUnlocking i =>
      simp only [run, isPlace] at runs
      cases runs
      exact .freeUnlocks i isPlace

/-- A step is a call by an idle thread or an action. -/
theorem step_cases (step : Step kernel label after) :
    (∃ t,
        label = .udpSend t ∧
          kernel.threads t = .idle ∧
          after = kernel.goto t (.acquiring firstSlot)) ∨
      (∃ t i,
        label = .opaqueFree t i ∧
          kernel.threads t = .idle ∧
          i ∈ kernel.opaques ∧
          after =
            { kernel with opaques := kernel.opaques.erase i }.goto t
              (.freeLocking i)) ∨
      ∃ t, label = .runs t ∧ kernel.Acts t after := by
  cases label with
  | udpSend t =>
      simp only [Step, next] at step
      split at step <;> cases step
      rename_i isIdle
      exact .inl ⟨t, rfl, isIdle, rfl⟩
  | opaqueFree t i =>
      simp only [Step, next] at step
      split at step <;> cases step
      rename_i isOpen
      exact .inr (.inl ⟨t, i, rfl, isOpen.1, isOpen.2, rfl⟩)
  | runs t =>
      exact .inr (.inr ⟨t, rfl, acts_of_run step⟩)

end TunKernel

end Hamachi
