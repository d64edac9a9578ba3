import Hamachi.UdpSend

namespace Hamachi

/-!
# What a call of `new_udp_send` hands to `old_udp_send`

In every run, whatever the other calls and the devices do, a call has sent one
copy for each valid address of the interfaces that `acquire_iface` returned to
it, up to its place in the loops.
-/

/-- The addresses that a broadcast goes to, in the order of the loops. -/
def due
    (addrs : Addr → List (Option Ifaddr))
    (found : List (Option Addr)) : List InAddr :=
  found.flatMap fun slot =>
    match slot with
    | none => []
    | some iface => (addrs iface).filterMap validAddr

/-- A send to one of the addresses with packets of its own. -/
structure IsCopy
    (args : SendArgs)
    (broadaddr : InAddr)
    (send : UdpSend) : Prop where
  so : send.args.so = args.so
  flags : send.args.flags = args.flags
  addr : send.args.addr = args.addrTo broadaddr
  td : send.args.td = args.td
  m : send.args.m.map Packet.contents = args.m.map Packet.contents
  control :
    send.args.control.map Packet.contents =
      args.control.map Packet.contents

/-- One copy for each address; no chain is handed over twice, and none of them
is the original message or control data. -/
structure SentCopies
    (args : SendArgs)
    (packets : Nat)
    (handled : List InAddr)
    (copies : List UdpSend) : Prop where
  isCopy : List.Forall₂ (IsCopy args) handled copies
  distinct :
    (args.packetIds ++ copies.flatMap fun send => send.args.packetIds).Nodup
  allocated :
    ∀ id ∈ args.packetIds ++ copies.flatMap fun send => send.args.packetIds,
      id < packets

namespace SendPlace

/-- The addresses of the interface at hand that are left. -/
@[simp] def todo (addrs : Addr → List (Option Ifaddr)) :
    SendPlace → List InAddr
  | .lockingAddrs _ iface => (addrs iface).filterMap validAddr
  | .sending _ _ rest => rest.filterMap validAddr
  | _ => []

/-- The send of the `return` statement. -/
@[simp] def last (args : SendArgs) : SendPlace → List UdpSend
  | .returned result => [⟨args, result⟩]
  | _ => []

/-- The loop has got to this place with the results of `acquire_iface` for so
many slots. -/
@[simp] def Reached (args : SendArgs) (count : Nat) : SendPlace → Prop
  | .acquiring i => args.Broadcasts ∧ count = i
  | .comparing i ans => args.Broadcasts ∧ count = i ∧ IsIface ans
  | .lockingAddrs i _ => args.Broadcasts ∧ count = i + 1
  | .sending i _ _ => args.Broadcasts ∧ count = i + 1
  | .releasing i _ => args.Broadcasts ∧ count = i + 1
  | .lastSend => count = if args.Broadcasts then 10 else 0
  | .returned _ => count = if args.Broadcasts then 10 else 0

end SendPlace

namespace SendCall

variable
  {addrs : Addr → List (Option Ifaddr)}
  {args : SendArgs}
  {i : Slot}

@[simp] theorem afterSlot_todo :
    (afterSlot i).todo addrs = [] := by
  unfold afterSlot
  split <;> rfl

@[simp] theorem afterSlot_last :
    (afterSlot i).last args = [] := by
  unfold afterSlot
  split <;> rfl

/-- After a slot the loop has passed one more. -/
theorem afterSlot_reached
    {count : Nat}
    (broadcasts : args.Broadcasts)
    (isCount : count = i + 1) :
    (afterSlot i).Reached args count := by
  unfold afterSlot
  split
  · exact ⟨broadcasts, isCount⟩
  · simp only [SendPlace.Reached, if_pos broadcasts]
    omega

end SendCall

/-- One more result of `acquire_iface` adds the addresses of its interface. -/
theorem due_append
    (addrs : Addr → List (Option Ifaddr))
    (found : List (Option Addr))
    (iface : Option Addr) :
    due addrs (found ++ [iface]) = due addrs found ++ due addrs [iface] :=
  List.flatMap_append

section Dup

variable
  {packets : Nat}
  {m : Option Packet}

/-- A copy has the contents of the original. -/
theorem dup_contents :
    (dup packets m).1.map Packet.contents = m.map Packet.contents := by
  cases m <;> rfl

theorem dup_le :
    packets ≤ (dup packets m).2 := by
  cases m <;> simp [dup]

/-- A copy is a new chain. -/
theorem dup_new
    {id : Nat}
    (isCopy : id ∈ (dup packets m).1.toList.map Packet.id) :
    packets ≤ id ∧ id < (dup packets m).2 := by
  cases m with
  | none =>
      simp [dup] at isCopy
  | some chain =>
      simp [dup] at isCopy ⊢
      omega

theorem dup_nodup :
    ((dup packets m).1.toList.map Packet.id).Nodup := by
  cases m <;> simp [dup]

end Dup

section CopyArgs

open SendKernel (copyArgs)

variable
  {packets : Nat}
  {args : SendArgs}
  {broadaddr : InAddr}

theorem copyArgs_le :
    packets ≤ (copyArgs packets args broadaddr).2 :=
  dup_le.trans dup_le

/-- The two copies are new chains. -/
theorem copyArgs_new
    {id : Nat}
    (isCopy : id ∈ (copyArgs packets args broadaddr).1.packetIds) :
    packets ≤ id ∧ id < (copyArgs packets args broadaddr).2 := by
  simp only [SendArgs.packetIds, List.map_append, List.mem_append] at isCopy
  rcases isCopy with isMessage | isControl
  · obtain ⟨lower, upper⟩ := dup_new isMessage
    exact ⟨lower, upper.trans_le dup_le⟩
  · obtain ⟨lower, upper⟩ := dup_new isControl
    exact ⟨dup_le.trans lower, upper⟩

theorem copyArgs_nodup :
    (copyArgs packets args broadaddr).1.packetIds.Nodup := by
  simp only [SendArgs.packetIds, List.map_append]
  refine dup_nodup.append dup_nodup ?_
  intro id isMessage isControl
  exact absurd (dup_new isMessage).2 (Nat.not_lt.mpr (dup_new isControl).1)

/-- The arguments for an address are a copy of the original ones. -/
theorem copyArgs_isCopy
    (result : BitVec 32) :
    IsCopy args broadaddr
      ⟨(copyArgs packets args broadaddr).1, result⟩ where
  so := rfl
  flags := rfl
  addr := rfl
  td := rfl
  m := dup_contents
  control := dup_contents

end CopyArgs

namespace SentCopies

open SendKernel (copyArgs)

variable
  {args : SendArgs}
  {packets : Nat}
  {handled : List InAddr}
  {copies : List UdpSend}

/-- Chains stay allocated while more are. -/
theorem mono
    {more : Nat}
    (copied : SentCopies args packets handled copies)
    (le : packets ≤ more) :
    SentCopies args more handled copies where
  isCopy := copied.isCopy
  distinct := copied.distinct
  allocated := fun id member => (copied.allocated id member).trans_le le

/-- One more copy. -/
theorem concat
    (copied : SentCopies args packets handled copies)
    (broadaddr : InAddr)
    (result : BitVec 32) :
    SentCopies args (copyArgs packets args broadaddr).2
      (handled ++ [broadaddr])
      (copies ++ [⟨(copyArgs packets args broadaddr).1, result⟩]) where
  isCopy :=
    List.rel_append copied.isCopy
      (.cons (copyArgs_isCopy result) .nil)
  distinct := by
    simp only [List.flatMap_append, List.flatMap_singleton,
      ← List.append_assoc]
    refine copied.distinct.append copyArgs_nodup ?_
    intro id isOld isNew
    exact absurd (copied.allocated id isOld)
      (Nat.not_lt.mpr (copyArgs_new isNew).1)
  allocated := by
    intro id member
    simp only [List.flatMap_append, List.flatMap_singleton,
      ← List.append_assoc] at member
    rcases List.mem_append.mp member with isOld | isNew
    · exact (copied.allocated id isOld).trans_le copyArgs_le
    · exact (copyArgs_new isNew).2

end SentCopies

/-- A call with these arguments has sent the copies that are due at its place,
and nothing but the original after them. -/
structure Faithful
    (addrs : Addr → List (Option Ifaddr))
    (args : SendArgs)
    (packets : Nat)
    (call : SendCall) : Prop where
  sameArgs : call.args = args
  reached : call.place.Reached args call.found.length
  copied :
    ∃ handled copies,
      due addrs call.found = handled ++ call.place.todo addrs ∧
        call.sends = copies ++ call.place.last args ∧
        SentCopies args packets handled copies

namespace Faithful

variable
  {addrs : Addr → List (Option Ifaddr)}
  {args : SendArgs}
  {packets : Nat}
  {call after : SendCall}

/-- A call that begins has sent nothing. -/
theorem begin
    (fresh : args.Fresh packets) :
    Faithful addrs args packets (.begin args) where
  sameArgs := rfl
  reached := by
    simp only [SendCall.begin]
    split <;> rename_i broadcasts
    · exact ⟨broadcasts, rfl⟩
    · simp [broadcasts]
  copied := by
    refine ⟨[], [], ?_, ?_, .nil, ?_, ?_⟩
    · simp only [SendCall.begin]
      split <;> rfl
    · simp only [SendCall.begin]
      split <;> rfl
    · simpa using fresh.distinct
    · simpa using fresh.allocated

theorem mono
    {more : Nat}
    (faithful : Faithful addrs args packets call)
    (le : packets ≤ more) :
    Faithful addrs args more call where
  sameArgs := faithful.sameArgs
  reached := faithful.reached
  copied := by
    obtain ⟨handled, copies, isDue, isSent, copied⟩ := faithful.copied
    exact ⟨handled, copies, isDue, isSent, copied.mono le⟩

/-- A call goes on at a place where the same addresses are left. -/
theorem goes
    {place next : SendPlace}
    (faithful : Faithful addrs args packets call)
    (isPlace : call.place = place)
    (reached : next.Reached args call.found.length)
    (notLast : place.last args = [])
    (stillNotLast : next.last args = [])
    (sameTodo : place.todo addrs = next.todo addrs) :
    Faithful addrs args packets (call.goto next) where
  sameArgs := faithful.sameArgs
  reached := reached
  copied := by
    obtain ⟨handled, copies, isDue, isSent, copied⟩ := faithful.copied
    refine ⟨handled, copies, ?_, ?_, copied⟩
    · rw [isPlace, sameTodo] at isDue
      exact isDue
    · rw [isPlace, notLast, ← stillNotLast] at isSent
      exact isSent

/-- A call goes on with what `acquire_iface` returned, at a place where the
addresses of this interface are left. -/
theorem acquires
    {place next : SendPlace}
    {iface : Option Addr}
    (faithful : Faithful addrs args packets call)
    (isPlace : call.place = place)
    (reached : next.Reached args (call.found.length + 1))
    (notLast : place.last args = [])
    (stillNotLast : next.last args = [])
    (noneLeft : place.todo addrs = [])
    (isTodo : due addrs [iface] = next.todo addrs) :
    Faithful addrs args packets (call.acquired iface next) where
  sameArgs := faithful.sameArgs
  reached := by
    simpa [SendCall.acquired] using reached
  copied := by
    obtain ⟨handled, copies, isDue, isSent, copied⟩ := faithful.copied
    refine ⟨handled, copies, ?_, ?_, copied⟩
    · rw [isPlace, noneLeft, List.append_nil] at isDue
      calc due addrs (call.found ++ [iface])
          = due addrs call.found ++ due addrs [iface] :=
            due_append addrs call.found iface
        _ = handled ++ next.todo addrs := by
            rw [isDue, isTodo]
    · rw [isPlace, notLast, ← stillNotLast] at isSent
      exact isSent

end Faithful

namespace SendKernel

variable
  {addrs : Addr → List (Option Ifaddr)}
  {kernel after : SendKernel}
  {c d : CallId}
  {call : SendCall}
  {args : SendArgs}
  {result : BitVec 32}
  {label : Label}

/-- An action keeps what a call has sent in line with its place. -/
theorem faithful_of_acts
    (faithful : Faithful addrs args kernel.packets call)
    (acts : kernel.Acts addrs c call result after) :
    ∃ next,
      after.calls c = some next ∧
        Faithful addrs args after.packets next := by
  have reached := faithful.reached
  cases acts with
  | absent i isPlace isNull =>
      rw [isPlace] at reached
      refine ⟨_, Function.update_self .., faithful.acquires isPlace ?_ rfl
        SendCall.afterSlot_last rfl SendCall.afterSlot_todo.symm⟩
      exact SendCall.afterSlot_reached reached.1 (congrArg (· + 1) reached.2)
  | again i isPlace isAcquired =>
      rw [isPlace] at reached
      exact ⟨_, Function.update_self ..,
        faithful.goes isPlace reached rfl rfl rfl⟩
  | reads i isPlace isIface =>
      rw [isPlace] at reached
      exact ⟨_, Function.update_self ..,
        faithful.goes isPlace ⟨reached.1, reached.2, isIface⟩ rfl rfl rfl⟩
  | takes i ans isPlace found =>
      rw [isPlace] at reached
      refine ⟨_, Function.update_self .., faithful.acquires isPlace ?_ rfl
        rfl rfl (List.append_nil _)⟩
      exact ⟨reached.1, congrArg (· + 1) reached.2.1⟩
  | loses i ans isPlace lost =>
      rw [isPlace] at reached
      exact ⟨_, Function.update_self ..,
        faithful.goes isPlace ⟨reached.1, reached.2.1⟩ rfl rfl rfl⟩
  | locksAddrs i iface isPlace isFree =>
      rw [isPlace] at reached
      exact ⟨_, Function.update_self ..,
        faithful.goes isPlace reached rfl rfl rfl⟩
  | sentAll i iface isPlace =>
      rw [isPlace] at reached
      exact ⟨_, Function.update_self ..,
        faithful.goes isPlace reached rfl rfl rfl⟩
  | skips i iface ia2 rest isPlace isInvalid =>
      rw [isPlace] at reached
      exact ⟨_, Function.update_self ..,
        faithful.goes isPlace reached rfl rfl
          (List.filterMap_cons_none isInvalid)⟩
  | sends i iface ia2 rest broadaddr isPlace isValid =>
      rw [isPlace] at reached
      refine ⟨_, Function.update_self .., faithful.sameArgs, reached, ?_⟩
      obtain ⟨handled, copies, isDue, isSent, copied⟩ := faithful.copied
      rw [← faithful.sameArgs] at copied ⊢
      refine ⟨handled ++ [broadaddr], _, ?_, ?_,
        copied.concat broadaddr result⟩
      · simp [SendCall.sent, isDue, isPlace, isValid]
      · simp [SendCall.sent, isSent, isPlace, faithful.sameArgs]
  | releases i iface isPlace =>
      rw [isPlace] at reached
      exact ⟨_, Function.update_self ..,
        faithful.goes isPlace
          (SendCall.afterSlot_reached reached.1 reached.2) rfl
          SendCall.afterSlot_last SendCall.afterSlot_todo.symm⟩
  | lastSends isPlace =>
      rw [isPlace] at reached
      refine ⟨_, Function.update_self .., faithful.sameArgs, reached, ?_⟩
      obtain ⟨handled, copies, isDue, isSent, copied⟩ := faithful.copied
      refine ⟨handled, copies, ?_, ?_, copied⟩
      · simpa [SendCall.sent, isPlace] using isDue
      · simp [SendCall.sent, isSent, isPlace, faithful.sameArgs]

/-- Actions allocate chains and free none. -/
theorem packets_of_acts
    (acts : kernel.Acts addrs c call result after) :
    kernel.packets ≤ after.packets := by
  cases acts with
  | sends i iface ia2 rest broadaddr isPlace isValid =>
      exact @copyArgs_le _ _ broadaddr
  | _ =>
      exact le_rfl

/-- An action is about one call. -/
theorem calls_of_acts
    (acts : kernel.Acts addrs c call result after)
    (different : d ≠ c) :
    after.calls d = kernel.calls d := by
  cases acts <;> exact Function.update_of_ne different ..

/-- A step is an action of a call that has begun, or leaves it alone. -/
theorem acts_or_same
    (isCall : kernel.calls c = some call)
    (step : Step addrs kernel label after) :
    (∃ result, kernel.Acts addrs c call result after) ∨
      after.calls c = some call ∧ kernel.packets ≤ after.packets := by
  cases step with
  | udpSend d other isNew fresh =>
      have different : c ≠ d := by
        rintro rfl
        simp [isNew] at isCall
      refine .inr ⟨?_, le_rfl⟩
      rw [← isCall]
      exact Function.update_of_ne different ..
  | runs d result runs =>
      obtain ⟨mover, isMover, acts⟩ := exists_acts runs
      by_cases same : c = d
      · subst same
        cases isCall.symm.trans isMover
        exact .inl ⟨result, acts⟩
      · exact .inr ⟨(calls_of_acts acts same).trans isCall,
          packets_of_acts acts⟩
  | _ =>
      exact .inr ⟨isCall, le_rfl⟩

/-- A call with these arguments has begun, and it has sent what is due. -/
def Tracks
    (addrs : Addr → List (Option Ifaddr))
    (kernel : SendKernel)
    (c : CallId)
    (args : SendArgs) : Prop :=
  ∃ call,
    kernel.calls c = some call ∧
      Faithful addrs args kernel.packets call

namespace Tracks

/-- Every step keeps what a call has sent in line with its place. -/
theorem step
    (tracks : Tracks addrs kernel c args)
    (step : Step addrs kernel label after) :
    Tracks addrs after c args := by
  obtain ⟨call, isCall, faithful⟩ := tracks
  rcases acts_or_same isCall step with ⟨result, acts⟩ | ⟨same, more⟩
  · exact faithful_of_acts faithful acts
  · exact ⟨call, same, faithful.mono more⟩

/-- In every run a call has sent what is due at its place. -/
theorem run
    {start final : SendKernel}
    {labels : List Label}
    (begun : start.calls c = some (.begin args))
    (fresh : args.Fresh start.packets)
    (run : Run (Step addrs) start labels final) :
    Tracks addrs final c args :=
  @Run.invariant _ _ _ (fun kernel => Tracks addrs kernel c args)
    (fun tracks step => tracks.step step) _ _ _ run
    ⟨_, begun, .begin fresh⟩

end Tracks

end SendKernel

/-- A call that has returned: it has visited the ten slots, or none for another
destination than the broadcast address, has sent one copy for each address
that was due, and then the original once, whose result it returned. -/
structure Delivered
    (addrs : Addr → List (Option Ifaddr))
    (args : SendArgs)
    (result : BitVec 32)
    (call : SendCall) : Prop where
  visited : call.found.length = if args.Broadcasts then 10 else 0
  sent :
    ∃ copies,
      call.sends = copies ++ [⟨args, result⟩] ∧
        List.Forall₂ (IsCopy args) (due addrs call.found) copies
  ownPackets :
    (call.sends.flatMap fun send => send.args.packetIds).Nodup

/-- A call that sent what is due has delivered it when it returns. -/
theorem Faithful.delivered
    {addrs : Addr → List (Option Ifaddr)}
    {args : SendArgs}
    {packets : Nat}
    {call : SendCall}
    {result : BitVec 32}
    (faithful : Faithful addrs args packets call)
    (returned : call.place = .returned result) :
    Delivered addrs args result call := by
  obtain ⟨handled, copies, isDue, isSent, copied⟩ := faithful.copied
  have allHandled : due addrs call.found = handled := by
    simpa [returned] using isDue
  have sends : call.sends = copies ++ [⟨args, result⟩] := by
    simpa [returned] using isSent
  constructor
  case visited =>
    simpa [returned] using faithful.reached
  case sent =>
    exact ⟨copies, sends, allHandled ▸ copied.isCopy⟩
  case ownPackets =>
    rw [sends, List.flatMap_append, List.flatMap_singleton]
    exact (List.perm_append_comm.nodup_iff).mp copied.distinct

/-- To another destination than the broadcast address only the original is
sent. -/
theorem Delivered.sends_of_not_broadcasts
    {addrs : Addr → List (Option Ifaddr)}
    {args : SendArgs}
    {result : BitVec 32}
    {call : SendCall}
    (delivered : Delivered addrs args result call)
    (unicast : ¬ args.Broadcasts) :
    call.sends = [⟨args, result⟩] := by
  obtain ⟨copies, sends, isCopy⟩ := delivered.sent
  have foundNothing : call.found = [] := by
    rw [← List.length_eq_zero_iff, delivered.visited, if_neg unicast]
  rw [foundNothing] at isCopy
  cases isCopy
  exact sends

end Hamachi
