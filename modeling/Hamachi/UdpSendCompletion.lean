import Hamachi.UdpSendInterfaces
import Mathlib.Data.Fintype.Basic

namespace Hamachi

/-!
# A broadcast can always return

While no slot is being cleared, every owner of a slot can go on until it
releases the slot, and a call that finds no marked slot can go on until it
returns, whatever `old_udp_send` answers.
-/

namespace SendKernel

/-- An action of some call, to which `old_udp_send` answers what a function of
the state says. -/
def Answered
    (addrs : Addr → List (Option Ifaddr))
    (answer : SendKernel → CallId → BitVec 32)
    (kernel : SendKernel)
    (label : Label)
    (after : SendKernel) : Prop :=
  ∃ c, label = .runs c (answer kernel c) ∧ Step addrs kernel label after

/-- Some run of such actions gets to a goal. -/
def Reaches
    (addrs : Addr → List (Option Ifaddr))
    (answer : SendKernel → CallId → BitVec 32)
    (kernel : SendKernel)
    (Goal : SendKernel → Prop) : Prop :=
  ∃ labels final,
    Run (Answered addrs answer) kernel labels final ∧ Goal final

/-- A call has returned. -/
def Returned (c : CallId) (kernel : SendKernel) : Prop :=
  ∃ call result,
    kernel.calls c = some call ∧ call.place = .returned result

/-- A call can return, whatever `old_udp_send` answers. -/
def CanReturn
    (kernel : SendKernel)
    (addrs : Addr → List (Option Ifaddr))
    (c : CallId) : Prop :=
  ∀ answer, Reaches addrs answer kernel (Returned c)

/-- No slot is marked. -/
def Unmarked (kernel : SendKernel) : Prop :=
  ∀ i, kernel.ifaces i ≠ ifaceAcquired

/-- The slots that are marked. -/
def marked (kernel : SendKernel) : Finset Slot :=
  Finset.univ.filter fun i => kernel.ifaces i = ifaceAcquired

/-- A call is at the next slot, and the interface of its slot is back. -/
structure Passed
    (kernel : SendKernel)
    (c : CallId)
    (i : Slot)
    (iface : Addr)
    (final : SendKernel) : Prop where
  ifaces : final.ifaces = Function.update kernel.ifaces i iface
  others : ∀ d, d ≠ c → final.calls d = kernel.calls d
  place :
    ∃ call, final.calls c = some call ∧ call.place = SendCall.afterSlot i

section Completion

variable
  {addrs : Addr → List (Option Ifaddr)}
  {answer : SendKernel → CallId → BitVec 32}
  {kernel after final : SendKernel}
  {c : CallId}
  {call : SendCall}
  {labels : List Label}
  {i : Slot}
  {iface : Addr}
  {Goal Further : SendKernel → Prop}

@[simp] theorem mem_marked :
    i ∈ kernel.marked ↔ kernel.ifaces i = ifaceAcquired := by
  simp [marked]

/-- Answered actions are steps. -/
theorem steps_of_answered
    (run : Run (Answered addrs answer) kernel labels final) :
    Run (Step addrs) kernel labels final :=
  run.imp fun ⟨_, _, step⟩ => step

/-- Actions of calls clear no slot. -/
theorem closing_of_answered
    (run : Run (Answered addrs answer) kernel labels final)
    (closed : kernel.closing = ∅) :
    final.closing = ∅ := by
  refine @Run.invariant _ _ _ (fun kernel => kernel.closing = ∅)
    ?_ _ _ _ run closed
  rintro source label target closed ⟨c, rfl, step⟩
  exact closing_of_step closed id step

namespace Reaches

theorem now (holds : Goal kernel) :
    Reaches addrs answer kernel Goal :=
  ⟨[], kernel, .nil kernel, holds⟩

/-- A goal that leads to a further one; the invariant goes along. -/
theorem andThen
    (consistent : kernel.Consistent)
    (closed : kernel.closing = ∅)
    (first : Reaches addrs answer kernel Goal)
    (later :
      ∀ middle : SendKernel, middle.Consistent → middle.closing = ∅ →
        Goal middle → Reaches addrs answer middle Further) :
    Reaches addrs answer kernel Further := by
  obtain ⟨leading, middle, toMiddle, holds⟩ := first
  obtain ⟨trailing, final, toFinal, further⟩ := later middle
    (consistent.run (steps_of_answered toMiddle))
    (closing_of_answered toMiddle closed) holds
  exact ⟨_, final, toMiddle.append toFinal, further⟩

/-- A goal reached after an action of a call. -/
theorem act
    (isCall : kernel.calls c = some call)
    (acts : kernel.Acts addrs c call (answer kernel c) after)
    (later : Reaches addrs answer after Goal) :
    Reaches addrs answer kernel Goal := by
  obtain ⟨labels, final, run, holds⟩ := later
  have step := Step.runs c _ (run_of_acts isCall acts)
  exact ⟨_, final, .cons _ labels ⟨c, rfl, step⟩ run, holds⟩

end Reaches

/-- A call passes a slot after an action that touches only itself and that
slot. -/
theorem Acts.passes
    {next : SendCall}
    (acts : kernel.Acts addrs c call (answer kernel c) after)
    (isCall : kernel.calls c = some call)
    (sameElsewhere :
      Function.update after.ifaces i iface =
        Function.update kernel.ifaces i iface)
    (calls : after.calls = Function.update kernel.calls c (some next))
    (later :
      after.calls c = some next →
        Reaches addrs answer after (Passed after c i iface)) :
    Reaches addrs answer kernel (Passed kernel c i iface) := by
  have isNext : after.calls c = some next := by
    rw [calls, Function.update_self]
  obtain ⟨labels, final, run, passed⟩ := later isNext
  refine .act isCall acts ⟨labels, final, run, ?_, ?_, passed.place⟩
  · rw [passed.ifaces, sameElsewhere]
  · intro d different
    rw [passed.others d different, calls, Function.update_of_ne different]

/-- `release_iface` brings a call to the next slot. -/
theorem pass_of_releasing
    (isCall : kernel.calls c = some call)
    (isPlace : call.place = .releasing i iface) :
    Reaches addrs answer kernel (Passed kernel c i iface) := by
  refine .act isCall (.releases i iface isPlace) (.now ⟨rfl, ?_, _,
    Function.update_self .., rfl⟩)
  intro d different
  exact Function.update_of_ne different ..

/-- A call in `TAILQ_FOREACH` can go on to the next slot. -/
theorem pass_of_sending
    (rest : List (Option Ifaddr))
    (isCall : kernel.calls c = some call)
    (isPlace : call.place = .sending i iface rest) :
    Reaches addrs answer kernel (Passed kernel c i iface) := by
  induction rest generalizing kernel call with
  | nil =>
      exact (Acts.sentAll i iface isPlace).passes isCall rfl rfl
        fun isNext => pass_of_releasing isNext rfl
  | cons ia2 rest inductionHypothesis =>
      cases isAddr : validAddr ia2 with
      | none =>
          exact (Acts.skips i iface ia2 rest isPlace isAddr).passes isCall
            rfl rfl fun isNext => inductionHypothesis isNext rfl
      | some broadaddr =>
          exact (Acts.sends i iface ia2 rest broadaddr isPlace isAddr).passes
            isCall rfl rfl fun isNext => inductionHypothesis isNext rfl

/-- A call whose interface has a free address mutex can go on to the next
slot. -/
theorem pass_of_locking
    (isCall : kernel.calls c = some call)
    (isPlace : call.place = .lockingAddrs i iface)
    (isFree : kernel.addrMtx iface = none) :
    Reaches addrs answer kernel (Passed kernel c i iface) :=
  (Acts.locksAddrs i iface isPlace isFree).passes isCall rfl rfl
    fun isNext => pass_of_sending (addrs iface) isNext rfl

/-- The holder of an address mutex can go on to the next slot. -/
theorem pass_of_holder
    (consistent : kernel.Consistent)
    (isLocked : kernel.addrMtx iface = some c) :
    ∃ i, kernel.owned c = some (i, iface) ∧
      Reaches addrs answer kernel (Passed kernel c i iface) := by
  have held := (consistent.addrsHeld c iface).mp isLocked
  obtain ⟨call, isCall, holds⟩ := Option.bind_eq_some_iff.mp held
  cases isPlace : call.place with
  | sending i other rest =>
      rw [isPlace] at holds
      cases holds
      refine ⟨i, ?_, pass_of_sending rest isCall isPlace⟩
      rw [owned_of_call isCall, isPlace]
      rfl
  | _ =>
      simp [isPlace, SendPlace.addrsHeld] at holds

/-- While a call owns a slot, some owner can go on to the next slot. -/
theorem pass_of_owned
    (consistent : kernel.Consistent)
    (isOwned : kernel.owned c = some (i, iface)) :
    ∃ d j other, kernel.owned d = some (j, other) ∧
      Reaches addrs answer kernel (Passed kernel d j other) := by
  obtain ⟨call, isCall, owns⟩ := Option.bind_eq_some_iff.mp isOwned
  cases isPlace : call.place with
  | lockingAddrs j other =>
      rw [isPlace] at owns
      cases owns
      cases isMutex : kernel.addrMtx iface with
      | none =>
          exact ⟨c, i, iface, isOwned, pass_of_locking isCall isPlace isMutex⟩
      | some holder =>
          -- the owner waits for the call in `TAILQ_FOREACH`
          obtain ⟨j, alsoOwned, passes⟩ := pass_of_holder consistent isMutex
          exact ⟨holder, j, iface, alsoOwned, passes⟩
  | sending j other rest =>
      rw [isPlace] at owns
      cases owns
      exact ⟨c, i, iface, isOwned, pass_of_sending rest isCall isPlace⟩
  | releasing j other =>
      rw [isPlace] at owns
      cases owns
      exact ⟨c, i, iface, isOwned, pass_of_releasing isCall isPlace⟩
  | _ =>
      simp [isPlace, SendPlace.owned] at owns

namespace Passed

/-- No call is forgotten. -/
theorem calls
    {d : CallId}
    (passed : Passed kernel c i iface final)
    (begun : kernel.calls d ≠ none) :
    final.calls d ≠ none := by
  by_cases same : d = c
  · obtain ⟨call, isCall, _⟩ := passed.place
    simp [same, isCall]
  · rwa [passed.others d same]

/-- One slot less is marked. -/
theorem marked
    (passed : Passed kernel c i iface final)
    (notMarked : iface ≠ ifaceAcquired) :
    final.marked = kernel.marked.erase i := by
  ext j
  rw [mem_marked, Finset.mem_erase, mem_marked, passed.ifaces]
  by_cases same : j = i
  · simp [same, notMarked]
  · simp [same]

/-- A call that brings back what the slot has marks nothing. -/
theorem unmarked
    (passed : Passed kernel c i (kernel.ifaces i) final)
    (unmarked : kernel.Unmarked) :
    final.Unmarked := by
  intro j
  rw [passed.ifaces, Function.update_eq_self]
  exact unmarked j

end Passed

/-- Every owner can release its slot before the call goes on. -/
theorem unmark
    (consistent : kernel.Consistent)
    (closed : kernel.closing = ∅)
    (begun : kernel.calls c ≠ none) :
    Reaches addrs answer kernel fun final =>
      final.Unmarked ∧ final.calls c ≠ none := by
  induction isCount : kernel.marked.card generalizing kernel with
  | zero =>
      refine .now ⟨fun i isMarked => ?_, begun⟩
      have member := mem_marked.mpr isMarked
      rw [Finset.card_eq_zero.mp isCount] at member
      exact absurd member (Finset.notMem_empty i)
  | succ count inductionHypothesis =>
      obtain ⟨i, member⟩ : kernel.marked.Nonempty := by
        rw [← Finset.card_pos, isCount]
        exact Nat.succ_pos count
      obtain ⟨d, iface, isOwned⟩ := consistent.owner i
        (mem_marked.mp member) (by simp [closed])
      obtain ⟨owner, j, other, owns, passes⟩ :=
        pass_of_owned consistent isOwned
      obtain ⟨wasMarked, _, isIface⟩ := consistent.owned owner j other owns
      refine passes.andThen consistent closed ?_
      intro middle middleConsistent stillClosed passed
      apply inductionHypothesis middleConsistent stillClosed
        (passed.calls begun)
      rw [passed.marked isIface.2,
        Finset.card_erase_of_mem (mem_marked.mpr wasMarked), isCount]
      rfl

/-- Where no slot is marked, no address mutex is held. -/
theorem Unmarked.addrMtx
    (unmarked : kernel.Unmarked)
    (consistent : kernel.Consistent) :
    kernel.addrMtx iface = none := by
  cases isMutex : kernel.addrMtx iface with
  | none =>
      rfl
  | some holder =>
      obtain ⟨i, isOwned⟩ :=
        owned_of_addrsHeld ((consistent.addrsHeld holder iface).mp isMutex)
      exact absurd (consistent.owned holder i iface isOwned).1 (unmarked i)

/-- The compare-and-swap of an unmarked slot brings a call to the next one. -/
theorem pass_of_comparing
    (consistent : kernel.Consistent)
    (unmarked : kernel.Unmarked)
    (isCall : kernel.calls c = some call)
    (isPlace : call.place = .comparing i (kernel.ifaces i)) :
    Reaches addrs answer kernel (Passed kernel c i (kernel.ifaces i)) :=
  (Acts.takes i _ isPlace rfl).passes isCall (Function.update_idem ..) rfl
    fun isNext => pass_of_locking isNext rfl (unmarked.addrMtx consistent)

/-- A call passes an unmarked slot. -/
theorem pass_of_acquiring
    (consistent : kernel.Consistent)
    (unmarked : kernel.Unmarked)
    (isCall : kernel.calls c = some call)
    (isPlace : call.place = .acquiring i) :
    Reaches addrs answer kernel (Passed kernel c i (kernel.ifaces i)) := by
  by_cases isNull : kernel.ifaces i = 0
  · refine .act isCall (.absent i isPlace isNull) (.now ⟨?_, ?_, _,
      Function.update_self .., rfl⟩)
    · exact (Function.update_eq_self ..).symm
    · intro d different
      exact Function.update_of_ne different ..
  · have reads : kernel.Acts addrs c call (answer kernel c) _ :=
      .reads i isPlace ⟨isNull, unmarked i⟩
    have middleConsistent := consistent.acts isCall reads
    exact reads.passes isCall rfl rfl fun isNext =>
      pass_of_comparing middleConsistent unmarked isNext rfl

/-- The `return` statement. -/
theorem return_of_lastSend
    (isCall : kernel.calls c = some call)
    (isPlace : call.place = .lastSend) :
    Reaches addrs answer kernel (Returned c) :=
  .act isCall (.lastSends isPlace)
    (.now ⟨_, _, Function.update_self .., rfl⟩)

/-- A call passes all the slots that are left. -/
theorem return_of_afterSlot
    (consistent : kernel.Consistent)
    (closed : kernel.closing = ∅)
    (unmarked : kernel.Unmarked)
    (isCall : kernel.calls c = some call)
    (isPlace : call.place = SendCall.afterSlot i) :
    Reaches addrs answer kernel (Returned c) := by
  induction left : 9 - i.val generalizing kernel call i with
  | zero =>
      rcases SendCall.afterSlot_cases i with ⟨j, isNext, _⟩ | ⟨_, isLast⟩
      · omega
      · exact return_of_lastSend isCall (isPlace.trans isLast)
  | succ left inductionHypothesis =>
      rcases SendCall.afterSlot_cases i with
        ⟨j, isNext, isAcquiring⟩ | ⟨_, isLast⟩
      · refine Reaches.andThen consistent closed
          (pass_of_acquiring consistent unmarked isCall
            (isPlace.trans isAcquiring)) ?_
        intro middle middleConsistent stillClosed passed
        obtain ⟨next, isNextCall, isNextPlace⟩ := passed.place
        exact inductionHypothesis middleConsistent stillClosed
          (passed.unmarked unmarked) isNextCall isNextPlace (by omega)
      · exact return_of_lastSend isCall (isPlace.trans isLast)

/-- A call returns after it passes an unmarked slot. -/
theorem return_of_pass
    (consistent : kernel.Consistent)
    (closed : kernel.closing = ∅)
    (unmarked : kernel.Unmarked)
    (passes :
      Reaches addrs answer kernel (Passed kernel c i (kernel.ifaces i))) :
    Reaches addrs answer kernel (Returned c) := by
  refine passes.andThen consistent closed ?_
  intro middle middleConsistent stillClosed passed
  obtain ⟨next, isNext, isPlace⟩ := passed.place
  exact return_of_afterSlot middleConsistent stillClosed
    (passed.unmarked unmarked) isNext isPlace

/-- Where no slot is marked, every call can return. -/
theorem return_of_unmarked
    (consistent : kernel.Consistent)
    (closed : kernel.closing = ∅)
    (unmarked : kernel.Unmarked)
    (isCall : kernel.calls c = some call) :
    Reaches addrs answer kernel (Returned c) := by
  have ownsNothing :
      ∀ i iface, call.place.owned ≠ some (i, iface) := by
    intro i iface owns
    have isOwned := (owned_of_call isCall).trans owns
    exact unmarked i (consistent.owned c i iface isOwned).1
  cases isPlace : call.place with
  | acquiring i =>
      exact return_of_pass consistent closed unmarked
        (pass_of_acquiring consistent unmarked isCall isPlace)
  | comparing i ans =>
      by_cases found : kernel.ifaces i = ans
      · subst found
        exact return_of_pass consistent closed unmarked
          (pass_of_comparing consistent unmarked isCall isPlace)
      · have loses : kernel.Acts addrs c call (answer kernel c) _ :=
          .loses i ans isPlace found
        have middleConsistent := consistent.acts isCall loses
        refine .act isCall loses ?_
        exact return_of_pass middleConsistent closed unmarked
          (pass_of_acquiring middleConsistent unmarked
            (Function.update_self ..) rfl)
  | lastSend =>
      exact return_of_lastSend isCall isPlace
  | returned result =>
      exact .now ⟨call, result, isCall, isPlace⟩
  | lockingAddrs i iface =>
      exact absurd (by rw [isPlace]; rfl) (ownsNothing i iface)
  | sending i iface rest =>
      exact absurd (by rw [isPlace]; rfl) (ownsNothing i iface)
  | releasing i iface =>
      exact absurd (by rw [isPlace]; rfl) (ownsNothing i iface)

/-- While no slot is being cleared, every call can return. -/
theorem canReturn
    (consistent : kernel.Consistent)
    (closed : kernel.closing = ∅)
    (begun : kernel.calls c ≠ none) :
    kernel.CanReturn addrs c := by
  intro answer
  refine (unmark consistent closed begun).andThen consistent closed ?_
  rintro middle middleConsistent stillClosed ⟨unmarked, stillBegun⟩
  obtain ⟨call, isCall⟩ := Option.ne_none_iff_exists'.mp stillBegun
  exact return_of_unmarked middleConsistent stillClosed unmarked isCall

end Completion

end SendKernel

end Hamachi
