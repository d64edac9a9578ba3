import Hamachi.UdpSendCopies

namespace Hamachi

/-!
# The slots and the address mutexes between calls of `new_udp_send`

A marked slot has one owner, which brings its interface back; an address mutex
is held exactly while its owner is in `TAILQ_FOREACH`.
-/

namespace SendPlace

/-- The slot that a call owns at a place, and the interface taken from it. -/
def owned : SendPlace → Option (Slot × Addr)
  | .lockingAddrs i iface => some (i, iface)
  | .sending i iface _ => some (i, iface)
  | .releasing i iface => some (i, iface)
  | _ => none

/-- The interface whose address mutex a call holds at a place. -/
def addrsHeld : SendPlace → Option Addr
  | .sending _ iface _ => some iface
  | _ => none

/-- The value of a slot that a call is about to compare. -/
def seen : SendPlace → Option Addr
  | .comparing _ ans => some ans
  | _ => none

end SendPlace

namespace SendCall

variable {i : Slot}

/-- After a slot the loop reads the next one or ends. -/
theorem afterSlot_cases (i : Slot) :
    (∃ j, j.val = i.val + 1 ∧ afterSlot i = .acquiring j) ∨
      i.val + 1 = 10 ∧ afterSlot i = .lastSend := by
  unfold afterSlot
  split
  · exact .inl ⟨_, rfl, rfl⟩
  · exact .inr ⟨by omega, rfl⟩

theorem afterSlot_owned :
    (afterSlot i).owned = none := by
  unfold afterSlot
  split <;> rfl

theorem afterSlot_addrsHeld :
    (afterSlot i).addrsHeld = none := by
  unfold afterSlot
  split <;> rfl

theorem afterSlot_seen :
    (afterSlot i).seen = none := by
  unfold afterSlot
  split <;> rfl

theorem begin_place
    (args : SendArgs) :
    (begin args).place = .acquiring firstSlot ∨
      (begin args).place = .lastSend := by
  unfold begin
  split
  · exact .inl rfl
  · exact .inr rfl

end SendCall

namespace SendKernel

/-- What a call owns. -/
def owned (kernel : SendKernel) (c : CallId) : Option (Slot × Addr) :=
  (kernel.calls c).bind fun call => call.place.owned

/-- The interface whose address mutex a call holds. -/
def addrsHeld (kernel : SendKernel) (c : CallId) : Option Addr :=
  (kernel.calls c).bind fun call => call.place.addrsHeld

/-- The value that a call is about to compare. -/
def seen (kernel : SendKernel) (c : CallId) : Option Addr :=
  (kernel.calls c).bind fun call => call.place.seen

/-- What holds of the shared state in every run. -/
structure Consistent (kernel : SendKernel) : Prop where
  owned :
    ∀ c i iface, kernel.owned c = some (i, iface) →
      kernel.ifaces i = ifaceAcquired ∧ i ∉ kernel.closing ∧ IsIface iface
  oneOwner :
    ∀ c d i iface other,
      kernel.owned c = some (i, iface) →
        kernel.owned d = some (i, other) →
          c = d
  owner :
    ∀ i, kernel.ifaces i = ifaceAcquired → i ∉ kernel.closing →
      ∃ c iface, kernel.owned c = some (i, iface)
  clearing :
    ∀ i ∈ kernel.closing,
      kernel.ifaces i = ifaceAcquired ∨ kernel.ifaces i = 0
  addrsHeld :
    ∀ c iface,
      kernel.addrMtx iface = some c ↔ kernel.addrsHeld c = some iface
  seen :
    ∀ c ans, kernel.seen c = some ans → IsIface ans

/-- No call is under way and no slot is being cleared. -/
structure Quiet (kernel : SendKernel) : Prop where
  returned :
    ∀ c call, kernel.calls c = some call →
      ∃ result, call.place = .returned result
  closed : kernel.closing = ∅
  released : ∀ i, kernel.ifaces i ≠ ifaceAcquired
  addrsUnlocked : ∀ iface, kernel.addrMtx iface = none

section Calls

variable
  {kernel : SendKernel}
  {c : CallId}
  {call : SendCall}

theorem owned_of_call (isCall : kernel.calls c = some call) :
    kernel.owned c = call.place.owned := by
  simp [owned, isCall]

theorem addrsHeld_of_call (isCall : kernel.calls c = some call) :
    kernel.addrsHeld c = call.place.addrsHeld := by
  simp [addrsHeld, isCall]

theorem seen_of_call (isCall : kernel.calls c = some call) :
    kernel.seen c = call.place.seen := by
  simp [seen, isCall]

@[simp] theorem setCall_owned :
    (kernel.setCall c call).owned =
      Function.update kernel.owned c call.place.owned := by
  funext d
  by_cases same : d = c
  · subst same
    simp [owned, setCall]
  · simp [owned, setCall, same]

@[simp] theorem setIface_owned
    {i : Slot}
    {iface : Addr} :
    (kernel.setIface i iface).owned = kernel.owned :=
  rfl

@[simp] theorem setCall_addrsHeld :
    (kernel.setCall c call).addrsHeld =
      Function.update kernel.addrsHeld c call.place.addrsHeld := by
  funext d
  by_cases same : d = c
  · subst same
    simp [addrsHeld, setCall]
  · simp [addrsHeld, setCall, same]

@[simp] theorem setCall_seen :
    (kernel.setCall c call).seen =
      Function.update kernel.seen c call.place.seen := by
  funext d
  by_cases same : d = c
  · subst same
    simp [seen, setCall]
  · simp [seen, setCall, same]

/-- A call holds the address mutex of an interface that it took. -/
theorem owned_of_addrsHeld
    {iface : Addr}
    (held : kernel.addrsHeld c = some iface) :
    ∃ i, kernel.owned c = some (i, iface) := by
  obtain ⟨call, isCall, holds⟩ := Option.bind_eq_some_iff.mp held
  cases isPlace : call.place with
  | sending i other rest =>
      simp only [isPlace, SendPlace.addrsHeld, Option.some.injEq] at holds
      exact ⟨i, by simp [owned_of_call isCall, isPlace, SendPlace.owned, holds]⟩
  | _ =>
      simp [isPlace, SendPlace.addrsHeld] at holds

end Calls

theorem Quiet.consistent
    {kernel : SendKernel}
    (quiet : kernel.Quiet) :
    kernel.Consistent := by
  have idle :
      ∀ c, kernel.owned c = none ∧
        kernel.addrsHeld c = none ∧ kernel.seen c = none := by
    intro c
    cases isCall : kernel.calls c with
    | none =>
        simp [owned, addrsHeld, seen, isCall]
    | some call =>
        obtain ⟨result, isPlace⟩ := quiet.returned c call isCall
        simp [owned, addrsHeld, seen, isCall, isPlace, SendPlace.owned,
          SendPlace.addrsHeld, SendPlace.seen]
  constructor <;>
    simp [idle, quiet.closed, quiet.released, quiet.addrsUnlocked]

namespace Consistent

variable
  {addrs : Addr → List (Option Ifaddr)}
  {kernel after : SendKernel}
  {c : CallId}
  {call : SendCall}
  {i : Slot}
  {iface : Addr}
  {result : BitVec 32}
  {label : Label}

/-- The number of chains is not shared by slots and mutexes. -/
theorem setPackets
    {packets : Nat}
    (consistent : kernel.Consistent) :
    (kernel.setPackets packets).Consistent where
  owned := consistent.owned
  oneOwner := consistent.oneOwner
  owner := consistent.owner
  clearing := consistent.clearing
  addrsHeld := consistent.addrsHeld
  seen := consistent.seen

/-- A move that takes and releases nothing. -/
theorem moves
    (consistent : kernel.Consistent)
    (sameOwned : call.place.owned = kernel.owned c)
    (sameHeld : call.place.addrsHeld = kernel.addrsHeld c)
    (seen : ∀ ans, call.place.seen = some ans → IsIface ans) :
    (kernel.setCall c call).Consistent := by
  have owned : (kernel.setCall c call).owned = kernel.owned := by
    rw [setCall_owned, sameOwned, Function.update_eq_self]
  have held : (kernel.setCall c call).addrsHeld = kernel.addrsHeld := by
    rw [setCall_addrsHeld, sameHeld, Function.update_eq_self]
  constructor
  case owned =>
    rw [owned]
    exact consistent.owned
  case oneOwner =>
    rw [owned]
    exact consistent.oneOwner
  case owner =>
    rw [owned]
    exact consistent.owner
  case clearing =>
    exact consistent.clearing
  case addrsHeld =>
    rw [held]
    exact consistent.addrsHeld
  case seen =>
    intro d ans
    rw [setCall_seen, Function.update_apply]
    split
    · exact seen ans
    · exact consistent.seen d ans

/-- A call that holds no address mutex stores to a slot that is not being
cleared. -/
theorem stores
    (consistent : kernel.Consistent)
    (notClosing : i ∉ kernel.closing)
    (heldNothing : kernel.addrsHeld c = none)
    (isHeld : call.place.addrsHeld = none)
    (isSeen : call.place.seen = none)
    (owned :
      ∀ d j other, ((kernel.setIface i iface).setCall c call).owned d =
          some (j, other) →
        Function.update kernel.ifaces i iface j = ifaceAcquired ∧
          j ∉ kernel.closing ∧ IsIface other)
    (oneOwner :
      ∀ d e j first second,
        ((kernel.setIface i iface).setCall c call).owned d =
            some (j, first) →
          ((kernel.setIface i iface).setCall c call).owned e =
              some (j, second) →
            d = e)
    (owner :
      ∀ j, Function.update kernel.ifaces i iface j = ifaceAcquired →
        j ∉ kernel.closing →
          ∃ d other, ((kernel.setIface i iface).setCall c call).owned d =
            some (j, other)) :
    ((kernel.setIface i iface).setCall c call).Consistent := by
  refine ⟨owned, oneOwner, owner, ?_, ?_, ?_⟩
  case refine_1 =>
    intro j closing
    have different : j ≠ i := by
      rintro rfl
      exact notClosing closing
    simpa [setCall, setIface, different] using consistent.clearing j closing
  case refine_2 =>
    intro d other
    have sameHeld :
        ((kernel.setIface i iface).setCall c call).addrsHeld =
          kernel.addrsHeld := by
      rw [setCall_addrsHeld, isHeld, ← heldNothing]
      exact Function.update_eq_self ..
    rw [sameHeld]
    exact consistent.addrsHeld d other
  case refine_3 =>
    intro d ans
    rw [setCall_seen, isSeen, Function.update_apply]
    split
    · simp
    · exact consistent.seen d ans

/-- A call takes a slot. -/
theorem takes
    (consistent : kernel.Consistent)
    (ownedNothing : kernel.owned c = none)
    (heldNothing : kernel.addrsHeld c = none)
    (isIface : IsIface iface)
    (found : kernel.ifaces i = iface)
    (isOwned : call.place.owned = some (i, iface))
    (isHeld : call.place.addrsHeld = none)
    (isSeen : call.place.seen = none) :
    ((kernel.setIface i ifaceAcquired).setCall c call).Consistent := by
  have unowned :
      ∀ d other, kernel.owned d ≠ some (i, other) := by
    intro d other isOwner
    exact isIface.2 (found ▸ (consistent.owned d i other isOwner).1)
  have notClosing : i ∉ kernel.closing := by
    intro closing
    rcases consistent.clearing i closing with marked | cleared
    · exact isIface.2 (found ▸ marked)
    · exact isIface.1 (found ▸ cleared)
  apply consistent.stores notClosing heldNothing isHeld isSeen <;>
    simp only [setCall_owned, setIface_owned, isOwned]
  case owned =>
    intro d j other
    rw [Function.update_apply]
    split
    · rintro ⟨⟩
      exact ⟨Function.update_self .., notClosing, isIface⟩
    · intro isOwner
      have different : j ≠ i := by
        rintro rfl
        exact unowned d other isOwner
      rw [Function.update_of_ne different]
      exact consistent.owned d j other isOwner
  case oneOwner =>
    intro d e j first second
    rw [Function.update_apply, Function.update_apply]
    split <;> split <;> rename_i isFirst isSecond
    · exact fun _ _ => isFirst.trans isSecond.symm
    · rintro ⟨⟩ isOwner
      exact absurd isOwner (unowned e second)
    · rintro isOwner ⟨⟩
      exact absurd isOwner (unowned d first)
    · exact consistent.oneOwner d e j first second
  case owner =>
    intro j marked stillOpen
    by_cases same : j = i
    · exact ⟨c, iface, by rw [same, Function.update_self]⟩
    · rw [Function.update_of_ne same] at marked
      obtain ⟨d, other, isOwner⟩ := consistent.owner j marked stillOpen
      have different : d ≠ c := by
        rintro rfl
        simp [ownedNothing] at isOwner
      exact ⟨d, other, by rwa [Function.update_of_ne different]⟩

/-- A call brings an interface back. -/
theorem gives
    (consistent : kernel.Consistent)
    (wasOwned : kernel.owned c = some (i, iface))
    (heldNothing : kernel.addrsHeld c = none)
    (isOwned : call.place.owned = none)
    (isHeld : call.place.addrsHeld = none)
    (isSeen : call.place.seen = none) :
    ((kernel.setIface i iface).setCall c call).Consistent := by
  obtain ⟨_, notClosing, isIface⟩ := consistent.owned c i iface wasOwned
  apply consistent.stores notClosing heldNothing isHeld isSeen <;>
    simp only [setCall_owned, setIface_owned, isOwned]
  case owned =>
    intro d j other
    rw [Function.update_apply]
    split
    · simp
    · rename_i notGiver
      intro isOwner
      have different : j ≠ i := by
        rintro rfl
        exact notGiver
          (consistent.oneOwner d c j other iface isOwner wasOwned)
      rw [Function.update_of_ne different]
      exact consistent.owned d j other isOwner
  case oneOwner =>
    intro d e j first second
    rw [Function.update_apply, Function.update_apply]
    split
    · simp
    · split
      · simp
      · exact consistent.oneOwner d e j first second
  case owner =>
    intro j marked stillOpen
    have different : j ≠ i := by
      rintro rfl
      rw [Function.update_self] at marked
      exact isIface.2 marked
    rw [Function.update_of_ne different] at marked
    obtain ⟨d, other, isOwner⟩ := consistent.owner j marked stillOpen
    have notGiver : d ≠ c := by
      rintro rfl
      rw [wasOwned] at isOwner
      cases isOwner
      exact different rfl
    exact ⟨d, other, by rwa [Function.update_of_ne notGiver]⟩

/-- A call takes or releases an address mutex. -/
theorem setsAddrMtx
    {held : Option CallId}
    (consistent : kernel.Consistent)
    (sameOwned : call.place.owned = kernel.owned c)
    (isSeen : call.place.seen = none)
    (addrsHeld :
      ∀ d other,
        Function.update kernel.addrMtx iface held other = some d ↔
          Function.update kernel.addrsHeld c call.place.addrsHeld d =
            some other) :
    ((kernel.setAddrMtx iface held).setCall c call).Consistent := by
  have owned :
      ((kernel.setAddrMtx iface held).setCall c call).owned =
        kernel.owned := by
    rw [setCall_owned, sameOwned]
    exact Function.update_eq_self ..
  refine ⟨?_, ?_, ?_, consistent.clearing, ?_, ?_⟩
  case refine_1 =>
    rw [owned]
    exact consistent.owned
  case refine_2 =>
    rw [owned]
    exact consistent.oneOwner
  case refine_3 =>
    rw [owned]
    exact consistent.owner
  case refine_4 =>
    rw [setCall_addrsHeld]
    exact addrsHeld
  case refine_5 =>
    intro d ans
    rw [setCall_seen, isSeen, Function.update_apply]
    split
    · simp
    · exact consistent.seen d ans

/-- A call takes a free address mutex. -/
theorem locksAddrs
    (consistent : kernel.Consistent)
    (sameOwned : call.place.owned = kernel.owned c)
    (isFree : kernel.addrMtx iface = none)
    (heldNothing : kernel.addrsHeld c = none)
    (isHeld : call.place.addrsHeld = some iface)
    (isSeen : call.place.seen = none) :
    ((kernel.setAddrMtx iface (some c)).setCall c call).Consistent := by
  apply consistent.setsAddrMtx sameOwned isSeen
  intro d other
  have before := consistent.addrsHeld d other
  rw [isHeld, Function.update_apply, Function.update_apply]
  split <;> split <;> rename_i isMutex isMover
  · simp [isMutex, isMover]
  · rw [← before, isMutex, isFree]
    simp [Ne.symm isMover]
  · rw [before, isMover, heldNothing]
    simp [Ne.symm isMutex]
  · exact before

/-- A call releases the address mutex that it holds. -/
theorem unlocksAddrs
    (consistent : kernel.Consistent)
    (sameOwned : call.place.owned = kernel.owned c)
    (wasHeld : kernel.addrsHeld c = some iface)
    (isHeld : call.place.addrsHeld = none)
    (isSeen : call.place.seen = none) :
    ((kernel.setAddrMtx iface none).setCall c call).Consistent := by
  apply consistent.setsAddrMtx sameOwned isSeen
  intro d other
  have before := consistent.addrsHeld d other
  have wasLocked := (consistent.addrsHeld c iface).mpr wasHeld
  rw [isHeld, Function.update_apply, Function.update_apply]
  split <;> split <;> rename_i isMutex isMover
  · simp
  · rw [← before, isMutex, wasLocked]
    simp [Ne.symm isMover]
  · rw [before, isMover, wasHeld]
    simp [Ne.symm isMutex]
  · exact before

/-- Every action keeps the invariant. -/
theorem acts
    (consistent : kernel.Consistent)
    (isCall : kernel.calls c = some call)
    (acts : kernel.Acts addrs c call result after) :
    after.Consistent := by
  have owned := owned_of_call isCall
  have held := addrsHeld_of_call isCall
  have seen := seen_of_call isCall
  cases acts with
  | absent i isPlace isNull =>
      rw [isPlace] at owned held
      apply consistent.moves
      · exact SendCall.afterSlot_owned.trans owned.symm
      · exact SendCall.afterSlot_addrsHeld.trans held.symm
      · intro ans isSeen
        cases SendCall.afterSlot_seen.symm.trans isSeen
  | reads i isPlace isIface =>
      rw [isPlace] at owned held
      apply consistent.moves owned.symm held.symm
      rintro _ ⟨⟩
      exact isIface
  | takes i ans isPlace found =>
      rw [isPlace] at owned held seen
      exact consistent.takes owned held (consistent.seen c ans seen) found
        rfl rfl rfl
  | locksAddrs i iface isPlace isFree =>
      rw [isPlace] at owned held
      exact consistent.locksAddrs owned.symm isFree held rfl rfl
  | sentAll i iface isPlace =>
      rw [isPlace] at owned held
      exact consistent.unlocksAddrs owned.symm held rfl rfl
  | sends i iface ia2 rest broadaddr isPlace isValid =>
      rw [isPlace] at owned held
      apply consistent.setPackets.moves owned.symm held.symm
      rintro _ ⟨⟩
  | releases i iface isPlace =>
      rw [isPlace] at owned held
      exact consistent.gives owned held SendCall.afterSlot_owned
        SendCall.afterSlot_addrsHeld SendCall.afterSlot_seen
  | lastSends isPlace =>
      rw [isPlace] at owned held
      apply consistent.moves owned.symm held.symm
      rintro _ ⟨⟩
  | _ =>
      rename_i isPlace _
      rw [isPlace] at owned held
      apply consistent.moves owned.symm held.symm
      rintro _ ⟨⟩

/-- A call begins. -/
theorem begins
    {args : SendArgs}
    (consistent : kernel.Consistent)
    (isNew : kernel.calls c = none) :
    (kernel.setCall c (.begin args)).Consistent := by
  rcases SendCall.begin_place args with isPlace | isPlace <;>
    apply consistent.moves <;>
    simp [isPlace, SendPlace.owned, SendPlace.addrsHeld, SendPlace.seen,
      SendKernel.owned, SendKernel.addrsHeld, isNew]

/-- `opaque_alloc` publishes an interface. -/
theorem opens
    (consistent : kernel.Consistent)
    (isClear : kernel.ifaces i = 0 ∧ i ∉ kernel.closing)
    (isIface : IsIface iface) :
    (kernel.setIface i iface).Consistent := by
  obtain ⟨isNull, notClosing⟩ := isClear
  refine ⟨?_, consistent.oneOwner, ?_, ?_, consistent.addrsHeld,
    consistent.seen⟩
  case refine_1 =>
    intro d j other isOwner
    obtain ⟨marked, rest⟩ := consistent.owned d j other isOwner
    have different : j ≠ i := by
      rintro rfl
      exact Nat.zero_ne_one (isNull.symm.trans marked)
    exact ⟨(Function.update_of_ne different ..).trans marked, rest⟩
  case refine_2 =>
    intro j marked stillOpen
    have different : j ≠ i := by
      rintro rfl
      exact isIface.2 ((Function.update_self ..).symm.trans marked)
    exact consistent.owner j
      ((Function.update_of_ne different ..).symm.trans marked) stillOpen
  case refine_3 =>
    intro j closing
    have different : j ≠ i := by
      rintro rfl
      exact notClosing closing
    simpa [setIface, different] using consistent.clearing j closing

/-- `opaque_free` acquires a slot. -/
theorem closeTakes
    (consistent : kernel.Consistent)
    (isFree : kernel.ifaces i ≠ ifaceAcquired) :
    (kernel.closeTake i).Consistent := by
  have unowned :
      ∀ d j other, kernel.owned d = some (j, other) → j ≠ i := by
    rintro d j other isOwner rfl
    exact isFree (consistent.owned d j other isOwner).1
  have elsewhere :
      ∀ j, j ≠ i → (kernel.closeTake i).ifaces j = kernel.ifaces j := by
    intro j different
    simp only [closeTake]
    split
    · rfl
    · exact Function.update_of_ne different ..
  refine ⟨?_, consistent.oneOwner, ?_, ?_, consistent.addrsHeld,
    consistent.seen⟩
  case refine_1 =>
    intro d j other isOwner
    have different := unowned d j other isOwner
    obtain ⟨marked, notClosing, isIface⟩ := consistent.owned d j other isOwner
    exact ⟨(elsewhere j different).trans marked,
      by simp [closeTake, different, notClosing], isIface⟩
  case refine_2 =>
    intro j marked stillOpen
    simp only [closeTake, Finset.mem_insert, not_or] at stillOpen
    exact consistent.owner j ((elsewhere j stillOpen.1).symm.trans marked)
      stillOpen.2
  case refine_3 =>
    intro j closing
    by_cases same : j = i
    · subst same
      simp only [closeTake]
      split <;> rename_i isNull
      · exact .inr isNull
      · exact .inl (Function.update_self ..)
    · rw [elsewhere j same]
      simp only [closeTake, Finset.mem_insert, same, false_or] at closing
      exact consistent.clearing j closing

/-- `opaque_free` clears the slot that it acquired. -/
theorem closeClears
    (consistent : kernel.Consistent)
    (isClosing : i ∈ kernel.closing) :
    (kernel.closeClear i).Consistent := by
  refine ⟨?_, consistent.oneOwner, ?_, ?_, consistent.addrsHeld,
    consistent.seen⟩
  case refine_1 =>
    intro d j other isOwner
    obtain ⟨marked, notClosing, isIface⟩ := consistent.owned d j other isOwner
    have different : j ≠ i := by
      rintro rfl
      exact notClosing isClosing
    exact ⟨(Function.update_of_ne different ..).trans marked,
      by simp [closeClear, notClosing], isIface⟩
  case refine_2 =>
    intro j marked stillOpen
    have different : j ≠ i := by
      rintro rfl
      exact Nat.zero_ne_one ((Function.update_self ..).symm.trans marked)
    apply consistent.owner j
    · exact (Function.update_of_ne different ..).symm.trans marked
    · simpa [closeClear, different] using stillOpen
  case refine_3 =>
    intro j closing
    simp only [closeClear, Finset.mem_erase] at closing
    simpa [closeClear, closing.1] using consistent.clearing j closing.2

/-- Every step keeps the invariant. -/
theorem step
    (consistent : kernel.Consistent)
    (step : Step addrs kernel label after) :
    after.Consistent := by
  cases step with
  | udpSend c args isNew fresh =>
      exact consistent.begins isNew
  | runs c result runs =>
      obtain ⟨call, isCall, acts⟩ := exists_acts runs
      exact consistent.acts isCall acts
  | opens i iface isClear isIface =>
      exact consistent.opens isClear isIface
  | closeTakes i isFree =>
      exact consistent.closeTakes isFree
  | closeClears i isClosing =>
      exact consistent.closeClears isClosing

/-- Every run keeps the invariant. -/
theorem run
    {final : SendKernel}
    {labels : List Label}
    (consistent : kernel.Consistent)
    (run : Run (Step addrs) kernel labels final) :
    final.Consistent :=
  @Run.invariant _ _ _ Consistent
    (fun consistent step => consistent.step step) _ _ _ run consistent

end Consistent

end SendKernel

end Hamachi
