import Hamachi.UdpSendSlots

namespace Hamachi

/-!
# The interfaces that a broadcast finds

What a slot contains does not change while its owner is away with it, so a
broadcast finds, and brings back, what the slots contained when it began, as
long as no device is closed.
-/

namespace SendKernel

/-- A slot has an interface, or the null pointer, in it or with its owner. -/
def Contains (kernel : SendKernel) (i : Slot) (iface : Addr) : Prop :=
  kernel.ifaces i = iface ∧ iface ≠ ifaceAcquired ∨
    ∃ c, kernel.owned c = some (i, iface)

/-- What `acquire_iface` returns for an interface, or for the null pointer. -/
def acquireIface (iface : Addr) : Option Addr :=
  if iface = 0 then none else some iface

/-- A step of `opaque_free`. -/
def Label.Closes : Label → Prop
  | .closeTakes _ => True
  | .closeClears _ => True
  | _ => False

variable
  {addrs : Addr → List (Option Ifaddr)}
  {kernel after : SendKernel}
  {c d : CallId}
  {call : SendCall}
  {args : SendArgs}
  {result : BitVec 32}
  {label : Label}
  {i : Slot}
  {iface other : Addr}

/-- Only `opaque_free` clears a slot. -/
theorem closing_of_step
    (closed : kernel.closing = ∅)
    (noClose : ¬ label.Closes)
    (step : Step addrs kernel label after) :
    after.closing = ∅ := by
  cases step with
  | runs c result runs =>
      obtain ⟨call, isCall, acts⟩ := exists_acts runs
      cases acts <;> exact closed
  | closeTakes i isFree =>
      exact absurd trivial noClose
  | closeClears i isClosing =>
      exact absurd trivial noClose
  | _ =>
      exact closed

namespace Contains

/-- A slot contains one interface. -/
theorem functional
    (consistent : kernel.Consistent)
    (first : kernel.Contains i iface)
    (second : kernel.Contains i other) :
    iface = other := by
  rcases first with ⟨isStored, notMarked⟩ | ⟨c, isOwner⟩ <;>
    rcases second with ⟨alsoStored, alsoNotMarked⟩ | ⟨d, alsoOwner⟩
  · exact isStored.symm.trans alsoStored
  · have marked := (consistent.owned d i other alsoOwner).1
    exact absurd (isStored.symm.trans marked) notMarked
  · have marked := (consistent.owned c i iface isOwner).1
    exact absurd (alsoStored.symm.trans marked) alsoNotMarked
  · cases consistent.oneOwner c d i iface other isOwner alsoOwner
    cases isOwner.symm.trans alsoOwner
    rfl

/-- A slot that is not being cleared contains something. -/
theorem exists_of_not_closing
    (consistent : kernel.Consistent)
    (notClosing : i ∉ kernel.closing) :
    ∃ iface, kernel.Contains i iface := by
  by_cases marked : kernel.ifaces i = ifaceAcquired
  · obtain ⟨c, iface, isOwner⟩ := consistent.owner i marked notClosing
    exact ⟨iface, .inr ⟨c, isOwner⟩⟩
  · exact ⟨kernel.ifaces i, .inl ⟨rfl, marked⟩⟩

/-- An action that leaves the slots and what the call owns alone. -/
theorem moves
    {next : SendCall}
    (contains : kernel.Contains i iface)
    (sameIfaces : after.ifaces = kernel.ifaces)
    (calls : after.calls = Function.update kernel.calls c (some next))
    (sameOwned : next.place.owned = kernel.owned c) :
    after.Contains i iface := by
  have owned : after.owned = kernel.owned := by
    funext d
    by_cases same : d = c
    · subst same
      rw [← sameOwned]
      simp [SendKernel.owned, calls]
    · simp [SendKernel.owned, calls, same]
  unfold Contains
  rw [sameIfaces, owned]
  exact contains

/-- A call that takes a slot has its interface. -/
theorem takes
    (contains : kernel.Contains i iface)
    {j : Slot}
    {place : SendCall}
    (ownedNothing : kernel.owned c = none)
    (isOwned : place.place.owned = some (j, kernel.ifaces j)) :
    Contains ((kernel.setIface j ifaceAcquired).setCall c place) i iface := by
  rcases contains with ⟨isStored, notMarked⟩ | ⟨d, isOwner⟩
  · by_cases same : i = j
    · subst same
      refine .inr ⟨c, ?_⟩
      rw [setCall_owned, Function.update_self, isOwned, isStored]
    · exact .inl ⟨(Function.update_of_ne same ..).trans isStored, notMarked⟩
  · have different : d ≠ c := by
      rintro rfl
      simp [ownedNothing] at isOwner
    refine .inr ⟨d, ?_⟩
    rw [setCall_owned, Function.update_of_ne different]
    exact isOwner

/-- A call that releases a slot puts its interface back. -/
theorem gives
    (contains : kernel.Contains i iface)
    (consistent : kernel.Consistent)
    {j : Slot}
    {place : SendCall}
    (wasOwned : kernel.owned c = some (j, other)) :
    Contains ((kernel.setIface j other).setCall c place) i iface := by
  obtain ⟨marked, _⟩ := consistent.owned c j other wasOwned
  rcases contains with ⟨isStored, notMarked⟩ | ⟨d, isOwner⟩
  · have different : i ≠ j := by
      rintro rfl
      exact notMarked (isStored.symm.trans marked)
    exact .inl ⟨(Function.update_of_ne different ..).trans isStored, notMarked⟩
  · by_cases same : d = c
    · subst same
      cases isOwner.symm.trans wasOwned
      exact .inl ⟨Function.update_self ..,
        (consistent.owned d i iface isOwner).2.2.2⟩
    · refine .inr ⟨d, ?_⟩
      rw [setCall_owned, Function.update_of_ne same]
      exact isOwner

/-- No action changes what a slot contains. -/
theorem acts
    (contains : kernel.Contains i iface)
    (consistent : kernel.Consistent)
    (isCall : kernel.calls c = some call)
    (acts : kernel.Acts addrs c call result after) :
    after.Contains i iface := by
  have owned := owned_of_call isCall
  cases acts with
  | takes j ans isPlace found =>
      rw [isPlace] at owned
      apply contains.takes owned
      rw [found]
      rfl
  | releases j other isPlace =>
      rw [isPlace] at owned
      exact contains.gives consistent owned
  | absent j isPlace isNull =>
      rw [isPlace] at owned
      exact contains.moves rfl rfl
        (SendCall.afterSlot_owned.trans owned.symm)
  | sentAll j other isPlace =>
      rw [isPlace] at owned
      exact contains.moves rfl rfl owned.symm
  | sends j other ia2 rest broadaddr isPlace isValid =>
      rw [isPlace] at owned
      exact contains.moves rfl rfl owned.symm
  | lastSends isPlace =>
      rw [isPlace] at owned
      exact contains.moves rfl rfl owned.symm
  | _ =>
      rename_i isPlace _
      rw [isPlace] at owned
      exact contains.moves rfl rfl owned.symm

/-- Without a close, a slot keeps its interface, and it stays empty until one
is published. -/
theorem step
    (contains : kernel.Contains i iface)
    (consistent : kernel.Consistent)
    (stays : ¬ label.Closes ∧ (iface ≠ 0 ∨ ∀ other, label ≠ .opens i other))
    (step : Step addrs kernel label after) :
    after.Contains i iface := by
  cases step with
  | udpSend c args isNew fresh =>
      refine contains.moves rfl rfl ?_
      rcases SendCall.begin_place args with isPlace | isPlace <;>
        simp [isPlace, SendPlace.owned, SendKernel.owned, isNew]
  | runs c result runs =>
      obtain ⟨call, isCall, acts⟩ := exists_acts runs
      exact contains.acts consistent isCall acts
  | opens j other isClear isIface =>
      rcases contains with ⟨isStored, notMarked⟩ | ⟨c, isOwner⟩
      · have different : i ≠ j := by
          rintro rfl
          rcases stays.2 with present | notOpened
          · exact present (isStored.symm.trans isClear.1)
          · exact notOpened other rfl
        exact .inl
          ⟨(Function.update_of_ne different ..).trans isStored, notMarked⟩
      · exact .inr ⟨c, isOwner⟩
  | closeTakes j isFree =>
      exact absurd trivial stays.1
  | closeClears j isClosing =>
      exact absurd trivial stays.1

/-- The same in every run without a close. -/
theorem run
    {start final : SendKernel}
    {labels : List Label}
    (contains : start.Contains i iface)
    (consistent : start.Consistent)
    (stays :
      ∀ label ∈ labels,
        ¬ label.Closes ∧ (iface ≠ 0 ∨ ∀ other, label ≠ .opens i other))
    (run : Run (Step addrs) start labels final) :
    final.Contains i iface := by
  have kept :
      final.Consistent ∧ final.Contains i iface := by
    refine @Run.invariant _ _ _
      (fun kernel => kernel.Consistent ∧ kernel.Contains i iface)
      ?_ _ _ _ (run.allowing stays) ⟨consistent, contains⟩
    rintro source label target ⟨consistent, contains⟩ ⟨stays, step⟩
    exact ⟨consistent.step step, contains.step consistent stays step⟩
  exact kept.2

end Contains

/-- A slot was unmarked and had the interface, or was empty, at some moment of
a run. -/
def Saw
    (addrs : Addr → List (Option Ifaddr))
    (start : SendKernel)
    (labels : List Label)
    (final : SendKernel)
    (i : Slot)
    (iface : Addr) : Prop :=
  ∃ leading trailing middle,
    labels = leading ++ trailing ∧
      Run (Step addrs) start leading middle ∧
      Run (Step addrs) middle trailing final ∧
      middle.ifaces i = iface ∧
      iface ≠ ifaceAcquired

/-- A moment of a run is one of every longer run. -/
theorem Saw.concat
    {start : SendKernel}
    {labels : List Label}
    (saw : Saw addrs start labels kernel i iface)
    (step : Step addrs kernel label after) :
    Saw addrs start (labels ++ [label]) after i iface := by
  obtain ⟨leading, trailing, middle, rfl, first, later, isStored, notMarked⟩ :=
    saw
  exact ⟨leading, trailing ++ [label], middle, List.append_assoc .., first,
    later.concat step, isStored, notMarked⟩

/-- An action of a call is the result of `acquire_iface` for the slot at hand or
leaves the results alone. -/
theorem found_of_acts
    (faithful : Faithful addrs args kernel.packets call)
    (acts : kernel.Acts addrs c call result after) :
    ∃ next,
      after.calls c = some next ∧
        (next.found = call.found ∨
          ∃ i : Slot,
            call.found.length = i ∧
              kernel.ifaces i ≠ ifaceAcquired ∧
              next.found = call.found ++ [acquireIface (kernel.ifaces i)]) := by
  have reached := faithful.reached
  cases acts with
  | absent i isPlace isNull =>
      rw [isPlace] at reached
      refine ⟨_, Function.update_self .., .inr ⟨i, reached.2, ?_, ?_⟩⟩
      · rw [isNull]
        exact Nat.zero_ne_one
      · simp [SendCall.acquired, acquireIface, isNull]
  | takes i ans isPlace found =>
      rw [isPlace] at reached
      obtain ⟨_, isLength, isIface⟩ := reached
      rw [← found] at isIface
      refine ⟨_, Function.update_self .., .inr ⟨i, isLength, isIface.2, ?_⟩⟩
      simp [SendCall.acquired, acquireIface, isIface.1, ← found]
  | _ =>
      exact ⟨_, Function.update_self .., .inl rfl⟩

/-- The same of every step. -/
theorem found_of_step
    (isCall : kernel.calls c = some call)
    (faithful : Faithful addrs args kernel.packets call)
    (step : Step addrs kernel label after) :
    ∃ next,
      after.calls c = some next ∧
        (next.found = call.found ∨
          ∃ i : Slot,
            call.found.length = i ∧
              kernel.ifaces i ≠ ifaceAcquired ∧
              next.found = call.found ++ [acquireIface (kernel.ifaces i)]) := by
  rcases acts_or_same isCall step with ⟨result, acts⟩ | ⟨same, _⟩
  · exact found_of_acts faithful acts
  · exact ⟨call, same, .inl rfl⟩

/-- Every result of `acquire_iface` so far is what the slot had in it at some
moment of the run. -/
def Observed
    (addrs : Addr → List (Option Ifaddr))
    (start : SendKernel)
    (labels : List Label)
    (final : SendKernel)
    (found : List (Option Addr)) : Prop :=
  ∀ (i : Slot) entry, found[i.val]? = some entry →
    ∃ iface, Saw addrs start labels final i iface ∧
      entry = acquireIface iface

namespace Observed

variable
  {start final : SendKernel}
  {labels : List Label}
  {found : List (Option Addr)}

theorem concat
    (observed : Observed addrs start labels kernel found)
    (step : Step addrs kernel label after) :
    Observed addrs start (labels ++ [label]) after found := by
  intro i entry isFound
  obtain ⟨iface, saw, isEntry⟩ := observed i entry isFound
  exact ⟨iface, saw.concat step, isEntry⟩

/-- One more result. -/
theorem acquires
    (observed : Observed addrs start labels final found)
    (saw : Saw addrs start labels final i iface)
    (isLength : found.length = i) :
    Observed addrs start labels final (found ++ [acquireIface iface]) := by
  intro j entry isFound
  rcases lt_trichotomy j.val found.length with isOld | isNew | isBeyond
  · rw [List.getElem?_append_left isOld] at isFound
    exact observed j entry isFound
  · obtain rfl : j = i := Fin.ext (isNew.trans isLength)
    rw [isNew, List.getElem?_concat_length] at isFound
    exact ⟨iface, saw, (Option.some.inj isFound).symm⟩
  · rw [List.getElem?_eq_none (by simp; omega)] at isFound
    cases isFound

/-- In every run a call has found what the slots had in them. -/
theorem run
    (begun : start.calls c = some (.begin args))
    (fresh : args.Fresh start.packets)
    (run : Run (Step addrs) start labels final)
    (isCall : final.calls c = some call) :
    Observed addrs start labels final call.found := by
  have traced :
      ∃ call, final.calls c = some call ∧
        Faithful addrs args final.packets call ∧
          Observed addrs start labels final call.found := by
    refine @Run.history _ _ _
      (fun labels kernel => ∃ call, kernel.calls c = some call ∧
        Faithful addrs args kernel.packets call ∧
          Observed addrs start labels kernel call.found)
      _ _ _ ⟨_, begun, .begin fresh, ?_⟩ ?_ run
    · simp [Observed, SendCall.begin]
    rintro passed source label target before
      ⟨call, isCall, faithful, observed⟩ step
    obtain ⟨next, isNext, nextFaithful⟩ :=
      Tracks.step ⟨call, isCall, faithful⟩ step
    refine ⟨next, isNext, nextFaithful, ?_⟩
    obtain ⟨other, isOther, same | ⟨i, isLength, notMarked, isFound⟩⟩ :=
      found_of_step isCall faithful step
    · cases isNext.symm.trans isOther
      rw [same]
      exact observed.concat step
    · cases isNext.symm.trans isOther
      rw [isFound]
      apply (observed.concat step).acquires _ isLength
      exact ⟨passed, [label], source, rfl, before,
        .cons label [] step (.nil target), rfl, notMarked⟩
  obtain ⟨other, isOther, _, observed⟩ := traced
  cases isCall.symm.trans isOther
  exact observed

end Observed

end SendKernel

end Hamachi
