import Hamachi.UdpSendCompletion

namespace Hamachi

/-!
# What a call of `new_udp_send` does from its beginning to its return
-/

namespace SendKernel

/-- No device is closed. -/
def NoCloses (labels : List Label) : Prop :=
  ∀ label ∈ labels, ¬ label.Closes

/-- No device is opened at a slot that is empty. -/
def Stays (labels : List Label) (i : Slot) (iface : Addr) : Prop :=
  iface ≠ 0 ∨ ∀ other, Label.opens i other ∉ labels

/-- What a call that has returned leaves behind when no device was closed: it
found the interfaces of the beginning, each is back in its slot or with another
call, and the call owns no slot and no address mutex.  When all calls have
returned, the interfaces are in the slots and the address mutexes are free. -/
structure LeavesSlots
    (start : SendKernel)
    (labels : List Label)
    (final : SendKernel)
    (c : CallId)
    (call : SendCall) : Prop where
  found :
    call.args.Broadcasts →
      ∀ i iface, start.Contains i iface → Stays labels i iface →
        call.found[i.val]? = some (acquireIface iface)
  same :
    ∀ i iface, start.Contains i iface → Stays labels i iface →
      final.Contains i iface
  foundBack :
    ∀ (i : Slot) iface, call.found[i.val]? = some (some iface) →
      final.Contains i iface
  ownsNothing : final.owned c = none
  locksNothing : ∀ iface, final.addrMtx iface ≠ some c
  quiet :
    (∀ d other, final.calls d = some other →
        ∃ result, other.place = .returned result) →
      final.Quiet ∧
        ∀ i iface, start.Contains i iface → Stays labels i iface →
          final.ifaces i = iface

section Runs

variable
  {addrs : Addr → List (Option Ifaddr)}
  {start final : SendKernel}
  {c : CallId}
  {call : SendCall}
  {args : SendArgs}
  {result : BitVec 32}
  {labels : List Label}
  {i : Slot}
  {iface : Addr}

/-- Without a close, no slot is cleared. -/
theorem closing_of_run
    (run : Run (Step addrs) start labels final)
    (noCloses : NoCloses labels)
    (closed : start.closing = ∅) :
    final.closing = ∅ := by
  exact @Run.invariant _ _ _ (fun kernel => kernel.closing = ∅)
    (fun closed step => closing_of_step closed step.1 step.2)
    _ _ _ (run.allowing noCloses) closed

/-- What a slot contains at the beginning it contains at every moment. -/
theorem Contains.stays
    (contains : start.Contains i iface)
    (consistent : start.Consistent)
    (noCloses : NoCloses labels)
    (stays : Stays labels i iface)
    (run : Run (Step addrs) start labels final) :
    final.Contains i iface := by
  refine contains.run consistent (fun label member => ⟨noCloses label member,
    ?_⟩) run
  rcases stays with present | notOpened
  · exact .inl present
  · refine .inr fun other isOpens => ?_
    exact notOpened other (isOpens ▸ member)

/-- What a call saw in a slot is what the slot contained at the beginning. -/
theorem Saw.eq_start
    {other : Addr}
    (saw : Saw addrs start labels final i other)
    (consistent : start.Consistent)
    (noCloses : NoCloses labels)
    (contains : start.Contains i iface)
    (stays : Stays labels i iface) :
    other = iface := by
  obtain ⟨leading, trailing, middle, rfl, first, _, isStored, notMarked⟩ :=
    saw
  have leadingStays : Stays leading i iface :=
    stays.imp_right fun notOpened other member =>
      notOpened other (List.mem_append_left _ member)
  have leadingCloses : NoCloses leading := fun label member =>
    noCloses label (List.mem_append_left _ member)
  have middleContains :=
    contains.stays consistent leadingCloses leadingStays first
  have alsoContains : middle.Contains i other :=
    .inl ⟨isStored, notMarked⟩
  exact alsoContains.functional (consistent.run first) middleContains

/-- An interface that a call saw in a slot is one that the slot contains at the
end. -/
theorem Saw.contains_final
    (saw : Saw addrs start labels final i iface)
    (consistent : start.Consistent)
    (noCloses : NoCloses labels)
    (present : iface ≠ 0) :
    final.Contains i iface := by
  obtain ⟨leading, trailing, middle, rfl, first, later, isStored,
    notMarked⟩ := saw
  have trailingCloses : NoCloses trailing := fun label member =>
    noCloses label (List.mem_append_right _ member)
  exact Contains.stays (.inl ⟨isStored, notMarked⟩) (consistent.run first)
    trailingCloses (.inl present) later

/-- Where all calls have returned and no slot is being cleared, the shared state
is quiet. -/
theorem Consistent.quiet
    (consistent : final.Consistent)
    (closed : final.closing = ∅)
    (returned :
      ∀ d other, final.calls d = some other →
        ∃ result, other.place = .returned result) :
    final.Quiet := by
  have idle :
      ∀ d, final.owned d = none ∧ final.addrsHeld d = none := by
    intro d
    cases isCall : final.calls d with
    | none =>
        simp [SendKernel.owned, SendKernel.addrsHeld, isCall]
    | some other =>
        obtain ⟨result, isPlace⟩ := returned d other isCall
        rw [owned_of_call isCall, addrsHeld_of_call isCall, isPlace]
        exact ⟨rfl, rfl⟩
  refine ⟨returned, closed, ?_, ?_⟩
  · intro i isMarked
    obtain ⟨d, iface, isOwned⟩ := consistent.owner i isMarked
      (by simp [closed])
    simp [(idle d).1] at isOwned
  · intro iface
    cases isMutex : final.addrMtx iface with
    | none =>
        rfl
    | some holder =>
        have held := (consistent.addrsHeld holder iface).mp isMutex
        simp [(idle holder).2] at held

/-- In a quiet state what a slot contains is in it. -/
theorem Quiet.ifaces_of_contains
    (quiet : final.Quiet)
    (contains : final.Contains i iface) :
    final.ifaces i = iface := by
  rcases contains with ⟨isStored, _⟩ | ⟨d, isOwned⟩
  · exact isStored
  · exact absurd (quiet.consistent.owned d i iface isOwned).1
      (quiet.released i)

/-- What a call leaves behind when no device was closed. -/
theorem leavesSlots
    (begun : start.calls c = some (.begin args))
    (fresh : args.Fresh start.packets)
    (consistent : start.Consistent)
    (closed : start.closing = ∅)
    (run : Run (Step addrs) start labels final)
    (noCloses : NoCloses labels)
    (isCall : final.calls c = some call)
    (returned : call.place = .returned result) :
    LeavesSlots start labels final c call := by
  obtain ⟨other, isOther, faithful⟩ := Tracks.run begun fresh run
  cases isCall.symm.trans isOther
  have delivered := faithful.delivered returned
  have observed := Observed.run begun fresh run isCall
  have finalConsistent := consistent.run run
  have stillClosed := closing_of_run run noCloses closed
  constructor
  case found =>
    intro broadcasts i iface contains stays
    have isSlot : i.val < call.found.length := by
      rw [faithful.sameArgs] at broadcasts
      rw [delivered.visited, if_pos broadcasts]
      exact i.isLt
    obtain ⟨seen, saw, isEntry⟩ :=
      observed i _ (List.getElem?_eq_getElem isSlot)
    rw [List.getElem?_eq_getElem isSlot, isEntry,
      saw.eq_start consistent noCloses contains stays]
  case same =>
    intro i iface contains stays
    exact contains.stays consistent noCloses stays run
  case foundBack =>
    intro i iface isFound
    obtain ⟨seen, saw, isEntry⟩ := observed i _ isFound
    unfold acquireIface at isEntry
    split at isEntry <;> cases isEntry
    exact saw.contains_final consistent noCloses ‹_›
  case ownsNothing =>
    rw [owned_of_call isCall, returned]
    rfl
  case locksNothing =>
    intro iface isMutex
    have held := (finalConsistent.addrsHeld c iface).mp isMutex
    rw [addrsHeld_of_call isCall, returned] at held
    cases held
  case quiet =>
    intro allReturned
    have quiet := finalConsistent.quiet stillClosed allReturned
    refine ⟨quiet, fun i iface contains stays => ?_⟩
    exact quiet.ifaces_of_contains
      (contains.stays consistent noCloses stays run)

end Runs

/-- From its beginning to its return, whatever the other calls do, which devices
are opened and closed and what `old_udp_send` answers, a call of `new_udp_send`
sends one copy to each valid address of each interface that it finds and then
the original, whose result it returns, and to another destination only the
original.  As long as no device is closed it can always return, and it leaves
the slots and the address mutexes as it found them. -/
theorem udpSend_fansOut
    (addrs : Addr → List (Option Ifaddr))
    {start : SendKernel}
    {c : CallId}
    {args : SendArgs}
    (begun : start.calls c = some (.begin args))
    (fresh : args.Fresh start.packets) :
    (∀ labels final call result,
        Run (Step addrs) start labels final →
          final.calls c = some call →
            call.place = .returned result →
              Delivered addrs args result call ∧
                Observed addrs start labels final call.found ∧
                (¬ args.Broadcasts → call.sends = [⟨args, result⟩])) ∧
      (start.Consistent → start.closing = ∅ →
        ∀ labels final,
          Run (Step addrs) start labels final →
            NoCloses labels →
              final.CanReturn addrs c ∧
                ∀ call result,
                  final.calls c = some call →
                    call.place = .returned result →
                      LeavesSlots start labels final c call) := by
  constructor
  · intro labels final call result run isCall returned
    obtain ⟨other, isOther, faithful⟩ := Tracks.run begun fresh run
    cases isCall.symm.trans isOther
    have delivered := faithful.delivered returned
    exact ⟨delivered, Observed.run begun fresh run isCall,
      delivered.sends_of_not_broadcasts⟩
  · intro consistent closed labels final run noCloses
    obtain ⟨call, isCall, _⟩ := Tracks.run begun fresh run
    constructor
    · exact canReturn (consistent.run run)
        (closing_of_run run noCloses closed) (by simp [isCall])
    · intro call result isCall returned
      exact leavesSlots begun fresh consistent closed run noCloses isCall
        returned

/-- One device is open, and no call is under way. -/
def oneInterface : SendKernel where
  ifaces := fun i => if i.val = 3 then 2 else 0
  addrMtx := fun _ => none
  packets := 1
  closing := ∅
  calls := fun _ => none

theorem oneInterface_quiet : oneInterface.Quiet where
  returned := by simp [oneInterface]
  closed := rfl
  released := by
    intro i
    simp only [oneInterface, ifaceAcquired]
    split <;> decide
  addrsUnlocked := by simp [oneInterface]

/-- A message without control data to the broadcast address. -/
def oneMessage : SendArgs where
  so := 0
  flags := 0
  m := some ⟨0, [1, 2, 3]⟩
  addr := some ⟨16, afInet, 0x3039, inaddrBroadcast, 0⟩
  control := none
  td := 0

theorem udpSend_fansOut_oneMessage :
    ∃ labels final call result,
      Run (Step fun _ => [none, some ⟨oneMessage.addr⟩])
          (oneInterface.setCall 0 (.begin oneMessage)) labels final ∧
        final.calls 0 = some call ∧
        call.place = .returned result ∧
        Delivered (fun _ => [none, some ⟨oneMessage.addr⟩]) oneMessage result
          call ∧
        LeavesSlots (oneInterface.setCall 0 (.begin oneMessage)) labels final
          0 call := by
  obtain ⟨everyRun, withoutCloses⟩ :=
    @udpSend_fansOut (fun _ => [none, some ⟨oneMessage.addr⟩])
      (oneInterface.setCall 0 (.begin oneMessage)) 0 oneMessage
      (by simp [setCall]) ⟨by decide, by decide⟩
  have consistent : (oneInterface.setCall 0 (.begin oneMessage)).Consistent :=
    oneInterface_quiet.consistent.begins rfl
  obtain ⟨canReturn, _⟩ := withoutCloses consistent rfl [] _ (.nil _)
    (by simp [NoCloses])
  obtain ⟨labels, final, run, call, result, isCall, returned⟩ :=
    canReturn fun _ _ => 0
  have steps := steps_of_answered run
  have noCloses : NoCloses labels := by
    refine Run.labels ?_ run
    rintro source label target ⟨c, rfl, _⟩
    exact id
  obtain ⟨delivered, _⟩ :=
    everyRun labels final call result steps isCall returned
  obtain ⟨_, leaves⟩ := withoutCloses consistent rfl labels final steps
    noCloses
  exact ⟨labels, final, call, result, steps, isCall, returned, delivered,
    leaves call result isCall returned⟩

end SendKernel

end Hamachi
