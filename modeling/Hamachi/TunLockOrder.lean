import Hamachi.TunKernel
import Hamachi.Runs

namespace Hamachi

/-!
# The lock order of `new_udp_send` and `opaque_free`

`new_udp_send` takes the slot of a device and then, in `tun_output`, its
`op->lock`; `opaque_free` takes them in the other order.  The deadlock is
reached exactly through the steps by which one of the two takes its first
resource while the other still wants it.
-/

namespace Place

/-- The slot that `new_udp_send` owns at a place. -/
@[simp] def owned : Place → Option Slot
  | .lockingAddrs i _ => some i
  | .sending i _ _ => some i
  | .inOutput i _ _ => some i
  | .releasing i _ => some i
  | _ => none

/-- The device whose `op->lock` a thread holds at a place. -/
@[simp] def lockHeld : Place → Option Slot
  | .inOutput i _ _ => some i
  | .freeAcquiring i => some i
  | .freeComparing i _ => some i
  | .freeClearing i => some i
  | .freeUnlocking i => some i
  | _ => none

/-- The interface whose address mutex a thread holds at a place. -/
@[simp] def addrsHeld : Place → Option Slot
  | .sending i _ _ => some i
  | .inOutput i _ _ => some i
  | _ => none

/-- The value of a slot that a thread is about to compare. -/
@[simp] def seen : Place → Option Addr
  | .comparing _ ans => some ans
  | .freeComparing _ ans => some ans
  | _ => none

/-- Some interface address can be sent to. -/
def Usable (addrs : List (Option InAddr)) : Prop :=
  ∃ broadaddr, some broadaddr ∈ addrs

/-- `new_udp_send` owns the slot of a device, does not hold its `op->lock` and
has a send to make. -/
@[simp] def SendsLeft
    (addrs : Slot → List (Option InAddr))
    (i : Slot) : Place → Prop
  | .lockingAddrs j _ => j = i ∧ Usable (addrs j)
  | .sending j _ rest => j = i ∧ Usable rest
  | _ => False

attribute [simp] InAcquire AtOpLock

end Place

namespace TunKernel

open Place (Usable)

/-- What holds of the shared state in every run. -/
structure Consistent (kernel : TunKernel) : Prop where
  lockHeld :
    ∀ t i, (kernel.threads t).lockHeld = some i → kernel.lock i = some t
  addrsHeld :
    ∀ t i, kernel.addrMtx i = some t →
      (kernel.threads t).addrsHeld = some i
  owned :
    ∀ t i, (kernel.threads t).owned = some i →
      kernel.ifaces i = ifaceAcquired
  oneOwner :
    ∀ t other i,
      (kernel.threads t).owned = some i →
        (kernel.threads other).owned = some i →
          t = other
  clearing :
    ∀ t i, kernel.threads t = .freeClearing i →
      (kernel.ifaces i = ifaceAcquired ∨ kernel.ifaces i = 0) ∧
        ∀ other, (kernel.threads other).owned ≠ some i
  seen :
    ∀ t ans, (kernel.threads t).seen = some ans →
      ans ≠ 0 ∧ ans ≠ ifaceAcquired

theorem Quiet.consistent
    {kernel : TunKernel}
    (quiet : kernel.Quiet) :
    kernel.Consistent := by
  constructor <;>
    simp [quiet.idle, quiet.addrsUnlocked, Place.lockHeld, Place.owned,
      Place.seen]

namespace Consistent

variable
  {kernel after : TunKernel}
  {t : Thread}
  {place : Place}
  {i : Slot}

/-- A move that takes and releases nothing. -/
theorem moves
    (consistent : kernel.Consistent)
    (sameLock : place.lockHeld = (kernel.threads t).lockHeld)
    (sameAddrs : place.addrsHeld = (kernel.threads t).addrsHeld)
    (sameOwned : place.owned = (kernel.threads t).owned)
    (clearing :
      ∀ i, place = .freeClearing i →
        (kernel.ifaces i = ifaceAcquired ∨ kernel.ifaces i = 0) ∧
          ∀ other, (kernel.threads other).owned ≠ some i)
    (seen :
      ∀ ans, place.seen = some ans → ans ≠ 0 ∧ ans ≠ ifaceAcquired) :
    (kernel.goto t place).Consistent := by
  obtain ⟨oldLock, oldAddrs, oldOwned, oldOwner, oldClearing, oldSeen⟩ :=
    consistent
  constructor
  all_goals
    intro u
    simp only [goto, Function.update_apply]
    grind

/-- A move that takes `op->lock`. -/
theorem locks
    (consistent : kernel.Consistent)
    (free : kernel.lock i = none)
    (taken : place.lockHeld = some i)
    (sameAddrs : place.addrsHeld = (kernel.threads t).addrsHeld)
    (sameOwned : place.owned = (kernel.threads t).owned)
    (notClearing : ∀ i, place ≠ .freeClearing i)
    (noneSeen : place.seen = none) :
    ((kernel.setLock i (some t)).goto t place).Consistent := by
  obtain ⟨oldLock, oldAddrs, oldOwned, oldOwner, oldClearing, oldSeen⟩ :=
    consistent
  constructor
  all_goals
    intro u
    simp only [goto, setLock, Function.update_apply]
    grind

/-- A move that releases `op->lock`. -/
theorem unlocks
    (consistent : kernel.Consistent)
    (held : (kernel.threads t).lockHeld = some i)
    (released : place.lockHeld = none)
    (sameAddrs : place.addrsHeld = (kernel.threads t).addrsHeld)
    (sameOwned : place.owned = (kernel.threads t).owned)
    (noneSeen : place.seen = none) :
    ((kernel.setLock i none).goto t place).Consistent := by
  obtain ⟨oldLock, oldAddrs, oldOwned, oldOwner, oldClearing, oldSeen⟩ :=
    consistent
  have notClearing : ∀ i, place ≠ .freeClearing i := by
    rintro i rfl
    cases released
  constructor
  all_goals
    intro u
    simp only [goto, setLock, Function.update_apply]
    grind

/-- A move that takes the address mutex. -/
theorem locksAddrs
    (consistent : kernel.Consistent)
    (taken : place.addrsHeld = some i)
    (sameLock : place.lockHeld = (kernel.threads t).lockHeld)
    (sameOwned : place.owned = (kernel.threads t).owned)
    (noneHeld : (kernel.threads t).addrsHeld = none)
    (noneSeen : place.seen = none) :
    ((kernel.setAddrMtx i (some t)).goto t place).Consistent := by
  obtain ⟨oldLock, oldAddrs, oldOwned, oldOwner, oldClearing, oldSeen⟩ :=
    consistent
  have notClearing : ∀ i, place ≠ .freeClearing i := by
    rintro i rfl
    cases taken
  constructor
  all_goals
    intro u
    simp only [goto, setAddrMtx, Function.update_apply]
    grind

/-- A move that releases the address mutex. -/
theorem unlocksAddrs
    (consistent : kernel.Consistent)
    (held : (kernel.threads t).addrsHeld = some i)
    (sameLock : place.lockHeld = (kernel.threads t).lockHeld)
    (sameOwned : place.owned = (kernel.threads t).owned)
    (notClearing : ∀ i, place ≠ .freeClearing i)
    (noneSeen : place.seen = none) :
    ((kernel.setAddrMtx i none).goto t place).Consistent := by
  obtain ⟨oldLock, oldAddrs, oldOwned, oldOwner, oldClearing, oldSeen⟩ :=
    consistent
  constructor
  all_goals
    intro u
    simp only [goto, setAddrMtx, Function.update_apply]
    grind

/-- A slot with the value that a thread has seen is owned by nobody. -/
theorem unowned
    {ans : Addr}
    (consistent : kernel.Consistent)
    (seen : (kernel.threads t).seen = some ans)
    (found : kernel.ifaces i = ans)
    (other : Thread) :
    (kernel.threads other).owned ≠ some i := by
  intro isOwner
  have acquired := consistent.owned other i isOwner
  exact (consistent.seen t ans seen).2 (found.symm.trans acquired)

/-- A move that takes a slot with the value that the thread has seen. -/
theorem takes
    {ans : Addr}
    (consistent : kernel.Consistent)
    (seen : (kernel.threads t).seen = some ans)
    (found : kernel.ifaces i = ans)
    (owner :
      place.owned = some i ∧ (∀ j, place ≠ .freeClearing j) ∨
        place = .freeClearing i)
    (sameLock : place.lockHeld = (kernel.threads t).lockHeld)
    (sameAddrs : place.addrsHeld = (kernel.threads t).addrsHeld)
    (noneSeen : place.seen = none) :
    ((kernel.setIface i ifaceAcquired).goto t place).Consistent := by
  have unowned := consistent.unowned seen found
  have nobodyClears :
      ∀ other, kernel.threads other ≠ .freeClearing i := by
    intro other clears
    have range := (consistent.clearing other i clears).1
    have compared := consistent.seen t ans seen
    grind
  obtain ⟨oldLock, oldAddrs, oldOwned, oldOwner, oldClearing, oldSeen⟩ :=
    consistent
  constructor
  all_goals
    intro u
    simp only [goto, setIface, Function.update_apply]
    grind [Place.owned]

/-- A move that stores to a slot and ends owning none. -/
theorem gives
    {iface : Addr}
    (consistent : kernel.Consistent)
    (owner :
      (kernel.threads t).owned = some i ∨
        kernel.threads t = .freeClearing i ∧ iface = 0)
    (noneOwned : place.owned = none)
    (sameLock : place.lockHeld = (kernel.threads t).lockHeld)
    (sameAddrs : place.addrsHeld = (kernel.threads t).addrsHeld)
    (notClearing : ∀ j, place ≠ .freeClearing j)
    (noneSeen : place.seen = none) :
    ((kernel.setIface i iface).goto t place).Consistent := by
  obtain ⟨oldLock, oldAddrs, oldOwned, oldOwner, oldClearing, oldSeen⟩ :=
    consistent
  constructor
  all_goals
    intro u
    simp only [goto, setIface, Function.update_apply]
    grind

/-- Every action of a thread keeps the shared state consistent. -/
theorem acts
    (consistent : kernel.Consistent)
    (acts : kernel.Acts t after) :
    after.Consistent := by
  cases acts with
  | absent i isPlace isNull =>
      rcases afterSlot_cases i with ⟨j, isNext⟩ | isNext <;>
        · rw [isNext]
          apply consistent.moves <;> simp [isPlace]
  | again i isPlace isAcquired =>
      apply consistent.moves <;> simp [isPlace]
  | reads i isPlace isIface =>
      apply consistent.moves <;> simp [isPlace, isIface]
  | takes i ans isPlace found =>
      have isSeen : (kernel.threads t).seen = some ans := by
        simp [isPlace]
      apply consistent.takes isSeen found <;> simp [isPlace]
  | loses i ans isPlace lost =>
      apply consistent.moves <;> simp [isPlace]
  | locksAddrs i iface isPlace isFree =>
      apply consistent.locksAddrs <;> simp [isPlace]
  | sentAll i iface isPlace =>
      apply consistent.unlocksAddrs <;> simp [isPlace]
  | skips i iface rest isPlace =>
      apply consistent.moves <;> simp [isPlace]
  | enters i iface broadaddr rest isPlace isFree =>
      apply consistent.locks isFree <;> simp [isPlace]
  | returns i iface rest isPlace =>
      apply consistent.unlocks <;> simp [isPlace]
  | releases i iface isPlace =>
      rcases afterSlot_cases i with ⟨j, isNext⟩ | isNext <;>
        · rw [isNext]
          apply consistent.gives <;> simp [isPlace]
  | freeLocks i isPlace isFree =>
      apply consistent.locks isFree <;> simp [isPlace]
  | freeAbsent i isPlace isNull =>
      apply consistent.moves <;> simp [isPlace]
      refine ⟨.inr isNull, fun other isOwner => ?_⟩
      exact absurd (isNull.symm.trans (consistent.owned other i isOwner))
        (by decide)
  | freeAgain i isPlace isAcquired =>
      apply consistent.moves <;> simp [isPlace]
  | freeReads i isPlace isIface =>
      apply consistent.moves <;> simp [isPlace, isIface]
  | freeTakes i ans isPlace found =>
      have isSeen : (kernel.threads t).seen = some ans := by
        simp [isPlace]
      apply consistent.takes isSeen found <;> simp [isPlace]
  | freeLoses i ans isPlace lost =>
      apply consistent.moves <;> simp [isPlace]
  | freeClears i isPlace =>
      apply consistent.gives <;> simp [isPlace]
  | freeUnlocks i isPlace =>
      apply consistent.unlocks <;> simp [isPlace]

/-- Every step keeps the shared state consistent. -/
theorem step
    {label : Label}
    (consistent : kernel.Consistent)
    (step : Step kernel label after) :
    after.Consistent := by
  rcases step_cases step with ⟨t, _, isIdle, rfl⟩ |
    ⟨t, i, _, isIdle, _, rfl⟩ | ⟨t, _, acts⟩
  · apply consistent.moves <;> simp [isIdle]
  · have erased :
        { kernel with opaques := kernel.opaques.erase i }.Consistent :=
      ⟨consistent.lockHeld, consistent.addrsHeld, consistent.owned,
        consistent.oneOwner, consistent.clearing, consistent.seen⟩
    apply erased.moves <;> simp [isIdle]
  · exact consistent.acts acts

end Consistent

/-- The step does not take the first of the two resources of a device while a
thread of the other function has its own first one and still wants this. -/
def Orderly (kernel : TunKernel) : Label → Prop
  | .runs t =>
      (∀ i, kernel.threads t = .freeLocking i →
        ∀ other, ¬ (kernel.threads other).SendsLeft kernel.addrs i) ∧
      ∀ i ans, kernel.threads t = .comparing i ans →
        kernel.ifaces i = ans → Usable (kernel.addrs i) →
          ∀ other, ¬ (kernel.threads other).InAcquire i
  | _ => True

/-- An orderly step. -/
def OrderlyStep
    (kernel : TunKernel)
    (label : Label)
    (after : TunKernel) : Prop :=
  Step kernel label after ∧ kernel.Orderly label

/-- No two threads want what the other has. -/
def Unopposed (kernel : TunKernel) : Prop :=
  ∀ i freeing sender,
    (kernel.threads freeing).InAcquire i →
      ¬ (kernel.threads sender).SendsLeft kernel.addrs i

/-- What an action of a thread does to the two conflicting claims: it comes to
wait for a slot by locking `op->lock` only, and to have sends left by taking
the slot or returning from `tun_output` only. -/
structure Moves (kernel : TunKernel) (t : Thread) (place : Place) : Prop where
  inAcquire :
    ∀ i, place.InAcquire i →
      (kernel.threads t).InAcquire i ∨ kernel.threads t = .freeLocking i
  sendsLeft :
    ∀ i, place.SendsLeft kernel.addrs i →
      (kernel.threads t).SendsLeft kernel.addrs i ∨
        (∃ ans, kernel.threads t = .comparing i ans ∧
          kernel.ifaces i = ans ∧ Usable (kernel.addrs i)) ∨
        ∃ iface rest, kernel.threads t = .inOutput i iface rest

section Opposition

variable
  {kernel after : TunKernel}
  {label : Label}
  {t : Thread}

/-- An action of a thread changes the place of that thread only. -/
theorem acts_moves
    (acts : kernel.Acts t after) :
    ∃ place,
      after.threads = Function.update kernel.threads t place ∧
        after.addrs = kernel.addrs ∧
        kernel.Moves t place := by
  cases acts <;> refine ⟨_, rfl, rfl, ?_⟩
  case absent i isPlace isNull =>
    rcases afterSlot_cases i with ⟨j, isNext⟩ | isNext <;>
      · rw [isNext]
        constructor <;> simp
  case takes i ans isPlace found =>
    constructor <;> simp [isPlace, found]
  case skips i iface rest isPlace =>
    constructor <;> simp [isPlace, Usable]
  case releases i iface isPlace =>
    rcases afterSlot_cases i with ⟨j, isNext⟩ | isNext <;>
      · rw [isNext]
        constructor <;> simp
  all_goals
    constructor <;> simp [*]

/-- A step moves one thread; a call of a function moves it to its start. -/
theorem step_moves
    (step : Step kernel label after) :
    ∃ t place,
      after.threads = Function.update kernel.threads t place ∧
        after.addrs = kernel.addrs ∧
        (label = .runs t ∧ kernel.Moves t place ∨
          kernel.threads t = .idle ∧
            ∀ i, ¬ place.InAcquire i ∧ ¬ place.SendsLeft kernel.addrs i) := by
  rcases step_cases step with ⟨t, _, isIdle, rfl⟩ |
    ⟨t, i, _, isIdle, _, rfl⟩ | ⟨t, isRun, acts⟩
  · exact ⟨t, _, rfl, rfl, .inr ⟨isIdle, by simp⟩⟩
  · exact ⟨t, _, rfl, rfl, .inr ⟨isIdle, by simp⟩⟩
  · obtain ⟨place, threads, addrs, moves⟩ := acts_moves acts
    exact ⟨t, place, threads, addrs, .inl ⟨isRun, moves⟩⟩

/-- A thread comes to wait for a slot in `opaque_free` by locking `op->lock`. -/
theorem inAcquire_of_step
    {freeing : Thread}
    {i : Slot}
    (step : Step kernel label after)
    (inAcquire : (after.threads freeing).InAcquire i) :
    (kernel.threads freeing).InAcquire i ∨
      label = .runs freeing ∧ kernel.threads freeing = .freeLocking i := by
  obtain ⟨t, place, threads, _, moved⟩ := step_moves step
  rw [threads] at inAcquire
  by_cases isMoved : freeing = t
  · subst isMoved
    rw [Function.update_self] at inAcquire
    rcases moved with ⟨isRun, moves⟩ | ⟨_, neither⟩
    · exact (moves.inAcquire i inAcquire).imp_right fun locks =>
        ⟨isRun, locks⟩
    · exact absurd inAcquire (neither i).1
  · rw [Function.update_of_ne isMoved] at inAcquire
    exact .inl inAcquire

/-- A thread comes to have sends left by taking the slot or by returning from
`tun_output`. -/
theorem sendsLeft_of_step
    {sender : Thread}
    {i : Slot}
    (step : Step kernel label after)
    (sendsLeft : (after.threads sender).SendsLeft after.addrs i) :
    (kernel.threads sender).SendsLeft kernel.addrs i ∨
      label = .runs sender ∧
        ((∃ ans, kernel.threads sender = .comparing i ans ∧
            kernel.ifaces i = ans ∧ Usable (kernel.addrs i)) ∨
          ∃ iface rest, kernel.threads sender = .inOutput i iface rest) := by
  obtain ⟨t, place, threads, addrs, moved⟩ := step_moves step
  rw [threads, addrs] at sendsLeft
  by_cases isMoved : sender = t
  · subst isMoved
    rw [Function.update_self] at sendsLeft
    rcases moved with ⟨isRun, moves⟩ | ⟨_, neither⟩
    · exact (moves.sendsLeft i sendsLeft).imp_right fun cause =>
        ⟨isRun, cause⟩
    · exact absurd sendsLeft (neither i).2
  · rw [Function.update_of_ne isMoved] at sendsLeft
    exact .inl sendsLeft

/-- `opaque_free` holds `op->lock` while it is in `acquire_iface`. -/
theorem lockHeld_of_inAcquire
    {place : Place}
    {i : Slot}
    (inAcquire : place.InAcquire i) :
    place.lockHeld = some i := by
  unfold Place.InAcquire at inAcquire
  split at inAcquire
  · simp [inAcquire]
  · simp [inAcquire]
  · cases inAcquire

/-- An orderly step opposes no threads. -/
theorem Unopposed.step
    (unopposed : kernel.Unopposed)
    (consistent : kernel.Consistent)
    (step : OrderlyStep kernel label after) :
    after.Unopposed := by
  obtain ⟨step, orderly⟩ := step
  intro i freeing sender inAcquire sendsLeft
  rcases inAcquire_of_step step inAcquire with
    wasInAcquire | ⟨rfl, locks⟩
  · rcases sendsLeft_of_step step sendsLeft with
      hadSendsLeft | ⟨rfl, ⟨ans, compares, found, usable⟩ |
        ⟨iface, rest, returns⟩⟩
    · exact unopposed i freeing sender wasInAcquire hadSendsLeft
    · exact orderly.2 i ans compares found usable freeing wasInAcquire
    · -- Both hold `op->lock`, so they are one thread.
      have senderLock := consistent.lockHeld sender i (by simp [returns])
      have freeingLock := consistent.lockHeld freeing i
        (lockHeld_of_inAcquire wasInAcquire)
      rw [freeingLock] at senderLock
      cases senderLock
      simp [returns] at wasInAcquire
  · rcases sendsLeft_of_step step sendsLeft with
      hadSendsLeft | ⟨isRun, ⟨ans, compares, _⟩ | ⟨iface, rest, returns⟩⟩
    · exact orderly.1 i locks sender hadSendsLeft
    · cases isRun
      simp [locks] at compares
    · cases isRun
      simp [locks] at returns

/-- Every state of an orderly run is consistent and opposes no threads. -/
theorem unopposed_of_run
    {start final : TunKernel}
    {labels : List Label}
    (quiet : start.Quiet)
    (run : Run OrderlyStep start labels final) :
    final.Consistent ∧ final.Unopposed := by
  have startUnopposed : start.Unopposed := by
    intro i freeing sender inAcquire
    simp [quiet.idle] at inAcquire
  have preserved :
      ∀ {source label target},
        source.Consistent ∧ source.Unopposed →
          OrderlyStep source label target →
            target.Consistent ∧ target.Unopposed := by
    rintro source label target ⟨consistent, unopposed⟩ step
    exact ⟨consistent.step step.1, unopposed.step consistent step⟩
  exact @Run.invariant _ _ _ (fun kernel => kernel.Consistent ∧
    kernel.Unopposed) preserved _ _ _ run ⟨quiet.consistent, startUnopposed⟩

/-- A thread at `op->lock` of `tun_output` is in the loop of its sender. -/
theorem atOpLock_cases
    {place : Place}
    {i : Slot}
    (atOpLock : place.AtOpLock i) :
    ∃ iface broadaddr rest,
      place = .sending i iface (some broadaddr :: rest) := by
  unfold Place.AtOpLock at atOpLock
  split at atOpLock
  · subst atOpLock
    exact ⟨_, _, _, rfl⟩
  · cases atOpLock

/-- Threads that do not oppose each other are not in a deadlock. -/
theorem Unopposed.not_deadlocked
    (unopposed : kernel.Unopposed) :
    ¬ kernel.Deadlocked := by
  rintro ⟨i, freeing, sender, inAcquire, _, _, atOpLock⟩
  obtain ⟨iface, broadaddr, rest, isPlace⟩ := atOpLock_cases atOpLock
  apply unopposed i freeing sender inAcquire
  rw [isPlace]
  exact ⟨rfl, broadaddr, List.mem_cons_self⟩

/-- A sender in its loop reaches `op->lock` past the addresses that it skips. -/
theorem deadlock_of_sending
    {freeing sender : Thread}
    {i : Slot}
    {iface : Addr}
    {rest : List (Option InAddr)}
    (consistent : kernel.Consistent)
    (inAcquire : (kernel.threads freeing).InAcquire i)
    (sending : kernel.threads sender = .sending i iface rest)
    (usable : Usable rest) :
    ∃ labels last, Run Step kernel labels last ∧ last.Deadlocked := by
  induction rest generalizing kernel with
  | nil =>
      obtain ⟨broadaddr, member⟩ := usable
      cases member
  | cons address rest inductionHypothesis =>
      cases address with
      | some broadaddr =>
          refine ⟨[], kernel, .nil kernel, i, freeing, sender, inAcquire,
            consistent.lockHeld freeing i (lockHeld_of_inAcquire inAcquire),
            consistent.owned sender i (by simp [sending]), ?_⟩
          simp [sending]
      | none =>
          have different : freeing ≠ sender := by
            rintro rfl
            simp [sending] at inAcquire
          have skips :
              Step kernel (.runs sender)
                (kernel.goto sender (.sending i iface rest)) := by
            simp [Step, next, TunKernel.run, sending]
          obtain ⟨labels, last, run, deadlocked⟩ :=
            inductionHypothesis (consistent.step skips)
              (by simpa [goto, different] using inAcquire)
              (by simp [goto]) (by simpa [Usable] using usable)
          exact ⟨_, last, .cons _ labels skips run, deadlocked⟩

/-- Opposed threads run into the deadlock when the sender goes on. -/
theorem deadlock_of_opposed
    {freeing sender : Thread}
    {i : Slot}
    (consistent : kernel.Consistent)
    (inAcquire : (kernel.threads freeing).InAcquire i)
    (sendsLeft : (kernel.threads sender).SendsLeft kernel.addrs i) :
    ∃ labels last, Run Step kernel labels last ∧ last.Deadlocked := by
  unfold Place.SendsLeft at sendsLeft
  split at sendsLeft
  · rename_i j iface isPlace
    obtain ⟨rfl, usable⟩ := sendsLeft
    have addrsFree : kernel.addrMtx j = none := by
      by_contra isHeld
      obtain ⟨holder, held⟩ := Option.ne_none_iff_exists'.mp isHeld
      have holdsAddrs := consistent.addrsHeld holder j held
      have owns : (kernel.threads holder).owned = some j := by
        cases isHolder : kernel.threads holder <;> simp_all
      obtain rfl :=
        consistent.oneOwner holder sender j owns (by simp [isPlace])
      simp [isPlace] at holdsAddrs
    have different : freeing ≠ sender := by
      rintro rfl
      simp [isPlace] at inAcquire
    have locks :
        Step kernel (.runs sender)
          ((kernel.setAddrMtx j (some sender)).goto sender
            (.sending j iface (kernel.addrs j))) := by
      simp [Step, next, TunKernel.run, isPlace, addrsFree]
    have stillInAcquire :
        (((kernel.setAddrMtx j (some sender)).goto sender
          (.sending j iface (kernel.addrs j))).threads freeing).InAcquire
            j := by
      simpa [goto, setAddrMtx, different] using inAcquire
    have sending :
        ((kernel.setAddrMtx j (some sender)).goto sender
          (.sending j iface (kernel.addrs j))).threads sender =
            .sending j iface (kernel.addrs j) := by
      simp [goto]
    obtain ⟨labels, last, run, deadlocked⟩ :=
      deadlock_of_sending (consistent.step locks) stillInAcquire sending
        usable
    exact ⟨_, last, .cons _ labels locks run, deadlocked⟩
  · rename_i j iface rest isPlace
    obtain ⟨rfl, usable⟩ := sendsLeft
    exact deadlock_of_sending consistent inAcquire isPlace usable
  · cases sendsLeft

/-- A step that is not orderly leaves two threads opposed. -/
theorem opposed_of_step
    (step : Step kernel label after)
    (notOrderly : ¬ kernel.Orderly label) :
    ∃ i freeing sender,
      (after.threads freeing).InAcquire i ∧
        (after.threads sender).SendsLeft after.addrs i := by
  cases label with
  | udpSend t =>
      exact absurd trivial notOrderly
  | opaqueFree t i =>
      exact absurd trivial notOrderly
  | runs t =>
      rcases not_and_or.mp notOrderly with notFirst | notSecond
      · push Not at notFirst
        obtain ⟨i, locks, sender, sendsLeft⟩ := notFirst
        have different : sender ≠ t := by
          rintro rfl
          simp [locks] at sendsLeft
        simp only [Step, next, TunKernel.run, locks] at step
        split at step <;> cases step
        refine ⟨i, t, sender, by simp [goto], ?_⟩
        simpa [goto, setLock, different] using sendsLeft
      · push Not at notSecond
        obtain ⟨i, ans, compares, found, usable, freeing, inAcquire⟩ :=
          notSecond
        have different : freeing ≠ t := by
          rintro rfl
          simp [compares] at inAcquire
        simp only [Step, next, TunKernel.run, compares, found, if_true]
          at step
        cases step
        refine ⟨i, freeing, t, ?_, ?_⟩
        · simpa [goto, setIface, different] using inAcquire
        · simpa [goto, setIface] using usable

/-- An orderly run reaches no deadlock, and any step that is not orderly leads
to one. -/
theorem not_deadlocked_of_orderly
    {start final : TunKernel}
    {labels : List Label}
    (quiet : start.Quiet)
    (run : Run OrderlyStep start labels final) :
    ¬ final.Deadlocked ∧
      ∀ label after,
        Step final label after → ¬ final.Orderly label →
          ∃ later last, Run Step after later last ∧ last.Deadlocked := by
  obtain ⟨consistent, unopposed⟩ := unopposed_of_run quiet run
  refine ⟨unopposed.not_deadlocked, fun label after step notOrderly => ?_⟩
  obtain ⟨i, freeing, sender, inAcquire, sendsLeft⟩ :=
    opposed_of_step step notOrderly
  exact deadlock_of_opposed (consistent.step step) inAcquire sendsLeft

/-- A step of another thread leaves the place of a thread alone. -/
theorem threads_of_step
    (step : Step kernel label after)
    (busy : kernel.threads t ≠ .idle)
    (other : label ≠ .runs t) :
    after.threads t = kernel.threads t := by
  obtain ⟨u, place, threads, _, moved⟩ := step_moves step
  have different : t ≠ u := by
    rintro rfl
    rcases moved with ⟨isRun, _⟩ | ⟨isIdle, _⟩
    · exact other isRun
    · exact busy isIdle
  rw [threads, Function.update_of_ne different]

/-- The closer of a deadlock does not get out of `acquire_iface`. -/
theorem inAcquire_stays
    {freeing : Thread}
    {i : Slot}
    (consistent : kernel.Consistent)
    (inAcquire : (kernel.threads freeing).InAcquire i)
    (acquired : kernel.ifaces i = ifaceAcquired)
    (runs : kernel.run freeing = some after) :
    (after.threads freeing).InAcquire i := by
  cases isPlace : kernel.threads freeing <;>
    simp only [isPlace, Place.InAcquire] at inAcquire
  case freeAcquiring j =>
    subst inAcquire
    simp only [TunKernel.run, isPlace, acquired] at runs
    cases runs
    simp [goto, afterRead, ifaceAcquired]
  case freeComparing j ans =>
    subst inAcquire
    have compared := (consistent.seen freeing ans (by simp [isPlace])).2
    have lost : kernel.ifaces j ≠ ans := by
      rw [acquired]
      exact compared.symm
    simp only [TunKernel.run, isPlace, if_neg lost] at runs
    cases runs
    simp [goto]

/-- No step gets out of a deadlock. -/
theorem Deadlocked.step
    (deadlocked : kernel.Deadlocked)
    (consistent : kernel.Consistent)
    (step : Step kernel label after) :
    after.Deadlocked := by
  obtain ⟨i, freeing, sender, inAcquire, locked, acquired, atOpLock⟩ :=
    deadlocked
  obtain ⟨iface, broadaddr, rest, isPlace⟩ := atOpLock_cases atOpLock
  have afterConsistent := consistent.step step
  have senderWaits : kernel.run sender = none := by
    simp [TunKernel.run, isPlace, locked]
  have senderStays : after.threads sender = kernel.threads sender := by
    refine threads_of_step step (by simp [isPlace]) ?_
    rintro rfl
    exact absurd (senderWaits.symm.trans step) (by simp)
  have freeingStays : (after.threads freeing).InAcquire i := by
    by_cases isRun : label = .runs freeing
    · subst isRun
      exact inAcquire_stays consistent inAcquire acquired step
    · rw [threads_of_step step _ isRun]
      · exact inAcquire
      · intro isIdle
        simp [isIdle] at inAcquire
  exact ⟨i, freeing, sender, freeingStays,
    afterConsistent.lockHeld freeing i (lockHeld_of_inAcquire freeingStays),
    afterConsistent.owned sender i (by simp [senderStays, isPlace]),
    senderStays ▸ atOpLock⟩

/-- A deadlock is for ever. -/
theorem Deadlocked.run
    {final : TunKernel}
    {labels : List Label}
    (deadlocked : kernel.Deadlocked)
    (consistent : kernel.Consistent)
    (run : Run Step kernel labels final) :
    final.Deadlocked := by
  induction run with
  | nil kernel =>
      exact deadlocked
  | cons label rest first _ inductionHypothesis =>
      exact inductionHypothesis (deadlocked.step consistent first)
        (consistent.step first)

end Opposition

/-- One device in the first slot, whose interface has one broadcast address. -/
def oneDevice : TunKernel where
  ifaces := fun i => if i = firstSlot then 0x1000 else 0
  lock := fun _ => none
  addrMtx := fun _ => none
  addrs := fun _ => [some 0xff000019]
  opaques := {firstSlot}
  threads := fun _ => .idle

theorem oneDevice_quiet : oneDevice.Quiet where
  idle := fun _ => rfl
  unlocked := fun _ => rfl
  addrsUnlocked := fun _ => rfl
  released := by
    intro i
    unfold oneDevice ifaceAcquired
    dsimp only
    split <;> decide

section Alone

variable
  {kernel after : TunKernel}
  {t : Thread}

/-- The other threads are in no function of the module. -/
def Alone (kernel : TunKernel) (t : Thread) : Prop :=
  ∀ other, other ≠ t → kernel.threads other = .idle

/-- The thread of a label. -/
def Label.thread : Label → Thread
  | .udpSend t => t
  | .opaqueFree t _ => t
  | .runs t => t

theorem threads_of_next
    {label : Label}
    (follows : kernel.next label = some after) :
    ∃ place,
      after.threads = Function.update kernel.threads label.thread place := by
  cases label with
  | udpSend t | opaqueFree t i =>
      simp only [next] at follows
      split at follows <;> cases follows
      exact ⟨_, rfl⟩
  | runs t =>
      simp only [next, TunKernel.run] at follows
      split at follows <;> (try split at follows) <;> cases follows <;>
        exact ⟨_, rfl⟩

/-- A thread that is alone stays so, and opposes nobody. -/
theorem Alone.step
    {label : Label}
    (alone : kernel.Alone label.thread)
    (follows : kernel.next label = some after) :
    OrderlyStep kernel label after ∧ after.Alone label.thread := by
  obtain ⟨place, threads⟩ := threads_of_next follows
  refine ⟨⟨follows, ?_⟩, fun other isOther => ?_⟩
  · cases label with
    | udpSend t | opaqueFree t i => exact trivial
    | runs t =>
        refine ⟨fun i locks other => ?_, fun i ans compares _ _ other => ?_⟩ <;>
          by_cases isOther : other = t
        · simp [isOther, locks]
        · simp [alone other isOther]
        · simp [isOther, compares]
        · simp [alone other isOther]
  · rw [threads, Function.update_of_ne isOther]
    exact alone other isOther

/-- The calls of one thread are orderly while there is no other. -/
theorem Alone.run
    {labels : List Label}
    (alone : kernel.Alone t)
    (own : ∀ label ∈ labels, label.thread = t)
    (follows : labels.foldlM next kernel = some after) :
    Run OrderlyStep kernel labels after ∧ after.Alone t := by
  induction labels generalizing kernel with
  | nil =>
      cases follows
      exact ⟨.nil _, alone⟩
  | cons label rest inductionHypothesis =>
      rw [List.foldlM_cons] at follows
      obtain ⟨middle, first, later⟩ := Option.bind_eq_some_iff.mp follows
      have isOwn := own label List.mem_cons_self
      subst isOwn
      obtain ⟨orderly, still⟩ := alone.step first
      obtain ⟨run, last⟩ := inductionHypothesis still
        (fun other member => own other (List.mem_cons_of_mem _ member)) later
      exact ⟨.cons label rest orderly run, last⟩

end Alone

/-- A thread sends on the device, and then another one closes it. -/
theorem not_deadlocked_closing :
    ∃ labels final,
      Run OrderlyStep oneDevice labels final ∧
        Label.udpSend 0 ∈ labels ∧
        Label.opaqueFree 1 0 ∈ labels ∧
        final.threads 0 = .idle ∧
        final.threads 1 = .idle ∧
        ¬ final.Deadlocked := by
  let sends : List Label := .udpSend 0 :: List.replicate 16 (.runs 0)
  let closes : List Label := .opaqueFree 1 0 :: List.replicate 5 (.runs 1)
  have sent :
      ∃ middle,
        sends.foldlM next oneDevice = some middle ∧
          middle.threads 0 = .idle ∧
          ∃ final,
            closes.foldlM next middle = some final ∧
              final.threads 0 = .idle ∧
              final.threads 1 = .idle :=
    ⟨_, rfl, rfl, _, rfl, rfl, rfl⟩
  obtain ⟨middle, sending, isSent, final, closing, isIdle, isClosed⟩ := sent
  obtain ⟨first, alone⟩ :=
    Alone.run (t := 0) (fun _ _ => rfl) (by simp [sends, Label.thread]) sending
  have onlyCloser : middle.Alone 1 := by
    intro other isOther
    by_cases isSender : other = 0
    · rw [isSender, isSent]
    · exact alone other isSender
  obtain ⟨second, -⟩ :=
    onlyCloser.run (by simp [closes, Label.thread]) closing
  have run := first.append second
  exact ⟨_, final, run, by simp [sends], by simp [closes], isIdle, isClosed,
    (not_deadlocked_of_orderly oneDevice_quiet run).1⟩

/-- A sender takes the slot, then the device is closed. -/
theorem deadlocked_sending_closing :
    ∃ labels final, Run Step oneDevice labels final ∧ final.Deadlocked := by
  let labels : List Label :=
    [.udpSend 0, .runs 0, .runs 0, .opaqueFree 1 0, .runs 1, .runs 0]
  have follows :
      ∃ final, labels.foldlM next oneDevice = some final ∧
        final.threads 1 = .freeAcquiring 0 ∧
        final.lock 0 = some 1 ∧
        final.ifaces 0 = ifaceAcquired ∧
        final.threads 0 = .sending 0 0x1000 [some 0xff000019] :=
    ⟨_, rfl, rfl, rfl, rfl, rfl⟩
  obtain ⟨final, follows, closer, locked, acquired, sender⟩ := follows
  refine ⟨labels, final, Run.of_foldlM follows, 0, 1, 0, ?_, locked,
    acquired, ?_⟩
  · simp [closer]
  · simp [sender]

end TunKernel

end Hamachi
