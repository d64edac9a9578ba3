import Hamachi.UdpSendInterfaces
import Mathlib.Data.Fintype.Basic

namespace Hamachi

/-!
# The calls of `new_udp_send` and the lock order

The threads of `TunKernel` are the calls of `SendKernel` without the data that
they send.  While no device is opened or closed every step of a call is a run of
its thread, so what holds of the lock order holds of the calls.
-/

/-- The place of a thread in the same place. -/
def SendPlace.place : SendPlace → Place
  | .acquiring i => .acquiring i
  | .comparing i ans => .comparing i ans
  | .lockingAddrs i iface => .lockingAddrs i iface
  | .sending i iface rest => .sending i iface (rest.map validAddr)
  | .releasing i iface => .releasing i iface
  | .lastSend => .idle
  | .returned _ => .idle

/-- The loops go on alike. -/
theorem SendCall.afterSlot_place
    {i : Slot} :
    (SendCall.afterSlot i).place = TunKernel.afterSlot i := by
  unfold SendCall.afterSlot TunKernel.afterSlot
  split <;> rfl

namespace SendKernel

/-- The locks and places of the calls; `devices` are the interfaces of the
slots, and `op->lock` is free between two calls of `old_udp_send`. -/
def tunKernel
    (addrs : Addr → List (Option Ifaddr))
    (devices : Slot → Addr)
    (kernel : SendKernel) : TunKernel where
  ifaces := kernel.ifaces
  lock := fun _ => none
  addrMtx := fun i => kernel.addrMtx (devices i)
  addrs := fun i => (addrs (devices i)).map validAddr
  opaques := Finset.univ
  threads := fun c =>
    match kernel.calls c with
    | none => .idle
    | some call => call.place.place

/-- The slots contain the interfaces of their devices. -/
def Placed (devices : Slot → Addr) (kernel : SendKernel) : Prop :=
  ∀ i iface, kernel.Contains i iface → iface = 0 ∨ iface = devices i

/-- A step of a call. -/
def CallStep
    (addrs : Addr → List (Option Ifaddr))
    (kernel : SendKernel)
    (label : Label)
    (after : SendKernel) : Prop :=
  (¬ label.Closes ∧ ∀ i iface, label ≠ .opens i iface) ∧
    Step addrs kernel label after

section Threads

variable
  {addrs : Addr → List (Option Ifaddr)}
  {devices : Slot → Addr}
  {kernel after : SendKernel}
  {c : CallId}
  {call : SendCall}
  {result : BitVec 32}
  {label : Label}
  {i : Slot}

@[simp] theorem tunKernel_setCall :
    (kernel.setCall c call).tunKernel addrs devices =
      (kernel.tunKernel addrs devices).goto c call.place.place := by
  have threads :
      ((kernel.setCall c call).tunKernel addrs devices).threads =
        Function.update (kernel.tunKernel addrs devices).threads c
          call.place.place := by
    funext d
    by_cases same : d = c
    · subst same
      simp [tunKernel, setCall]
    · simp [tunKernel, setCall, same]
  rw [TunKernel.goto, ← threads]
  rfl

@[simp] theorem tunKernel_setIface
    {iface : Addr} :
    (kernel.setIface i iface).tunKernel addrs devices =
      (kernel.tunKernel addrs devices).setIface i iface :=
  rfl

@[simp] theorem tunKernel_setPackets
    {packets : Nat} :
    (kernel.setPackets packets).tunKernel addrs devices =
      kernel.tunKernel addrs devices :=
  rfl

/-- Interfaces of different slots have mutexes of their own. -/
theorem tunKernel_setAddrMtx
    {owner : Option CallId}
    (distinct : Function.Injective devices) :
    (kernel.setAddrMtx (devices i) owner).tunKernel addrs devices =
      (kernel.tunKernel addrs devices).setAddrMtx i owner := by
  have addrMtx :
      ((kernel.setAddrMtx (devices i) owner).tunKernel addrs
          devices).addrMtx =
        Function.update (kernel.tunKernel addrs devices).addrMtx i owner := by
    funext j
    by_cases same : j = i
    · subst same
      simp [tunKernel, setAddrMtx]
    · simp [tunKernel, setAddrMtx, same, distinct.ne same]
  rw [TunKernel.setAddrMtx, ← addrMtx]
  rfl

theorem tunKernel_thread
    (isCall : kernel.calls c = some call) :
    (kernel.tunKernel addrs devices).threads c = call.place.place := by
  simp [tunKernel, isCall]

/-- A call owns the interface of the device. -/
theorem Placed.owned
    {iface : Addr}
    (placed : Placed devices kernel)
    (consistent : kernel.Consistent)
    (isCall : kernel.calls c = some call)
    (owns : call.place.owned = some (i, iface)) :
    iface = devices i := by
  have isOwned := (owned_of_call isCall).trans owns
  obtain ⟨_, _, isIface⟩ := consistent.owned c i iface isOwned
  exact (placed i iface (.inr ⟨c, isOwned⟩)).resolve_left isIface.1

/-- No step of a call brings another interface to a slot. -/
theorem Placed.step
    (placed : Placed devices kernel)
    (consistent : kernel.Consistent)
    (closed : kernel.closing = ∅)
    (step : CallStep addrs kernel label after) :
    Placed devices after := by
  intro i iface contains
  obtain ⟨⟨noClose, noOpen⟩, step⟩ := step
  obtain ⟨before, containsBefore⟩ :=
    @Contains.exists_of_not_closing kernel i consistent (by simp [closed])
  have stays := containsBefore.step consistent
    ⟨noClose, .inr fun other => noOpen i other⟩ step
  cases contains.functional (consistent.step step) stays
  exact placed i iface containsBefore

/-- A thread that stays idle does nothing. -/
theorem run_of_idle
    {tun : TunKernel}
    (isIdle : tun.threads c = .idle) :
    ∃ labels, Run TunKernel.Step tun labels (tun.goto c .idle) := by
  have same : tun.goto c .idle = tun := by
    rw [TunKernel.goto, ← isIdle, Function.update_eq_self]
  rw [same]
  exact ⟨[], .nil tun⟩

/-- An action of a thread as a run. -/
theorem run_of_tunRun
    {tun tunAfter : TunKernel}
    (c : CallId)
    (runs : tun.run c = some tunAfter) :
    ∃ labels, Run TunKernel.Step tun labels tunAfter :=
  ⟨[.runs c], .cons _ _ runs (.nil _)⟩

/-- A send is the way through `tun_output`, which leaves `op->lock` free. -/
theorem run_of_send
    {iface : Addr}
    {broadaddr : InAddr}
    {rest : List (Option InAddr)}
    (thread :
      (kernel.tunKernel addrs devices).threads c =
        .sending i iface (some broadaddr :: rest)) :
    ∃ labels,
      Run TunKernel.Step (kernel.tunKernel addrs devices) labels
        ((kernel.tunKernel addrs devices).goto c
          (.sending i iface rest)) := by
  have enters :
      (kernel.tunKernel addrs devices).run c =
        some (((kernel.tunKernel addrs devices).setLock i (some c)).goto c
          (.inOutput i iface rest)) := by
    simp only [TunKernel.run, thread]
    rfl
  have leaves :
      (((kernel.tunKernel addrs devices).setLock i (some c)).goto c
          (.inOutput i iface rest)).run c =
        some ((kernel.tunKernel addrs devices).goto c
          (.sending i iface rest)) := by
    simp [TunKernel.run, TunKernel.goto, TunKernel.setLock, tunKernel]
  exact ⟨[.runs c, .runs c], .cons _ _ enters (.cons _ _ leaves (.nil _))⟩

/-- An action of a call is a run of its thread. -/
theorem tunRun_of_acts
    (consistent : kernel.Consistent)
    (placed : Placed devices kernel)
    (distinct : Function.Injective devices)
    (isCall : kernel.calls c = some call)
    (acts : kernel.Acts addrs c call result after) :
    ∃ labels,
      Run TunKernel.Step (kernel.tunKernel addrs devices) labels
        (after.tunKernel addrs devices) := by
  have thread :=
    @tunKernel_thread addrs devices kernel c call isCall
  have ifaces :
      (kernel.tunKernel addrs devices).ifaces = kernel.ifaces := rfl
  cases acts with
  | absent i isPlace isNull =>
      rw [isPlace] at thread
      refine run_of_tunRun c ?_
      rw [tunKernel_setCall]
      simp only [TunKernel.run, thread, SendPlace.place, ifaces, isNull,
        TunKernel.afterRead, if_true]
      exact congrArg (fun place => some (TunKernel.goto _ c place))
        SendCall.afterSlot_place.symm
  | again i isPlace isAcquired =>
      rw [isPlace] at thread
      refine run_of_tunRun c ?_
      rw [tunKernel_setCall]
      simp [TunKernel.run, thread, SendPlace.place, ifaces, isAcquired,
        TunKernel.afterRead, ifaceAcquired, SendCall.goto]
  | reads i isPlace isIface =>
      rw [isPlace] at thread
      refine run_of_tunRun c ?_
      rw [tunKernel_setCall]
      simp only [TunKernel.run, thread, SendPlace.place, ifaces,
        TunKernel.afterRead, if_neg isIface.1, if_neg isIface.2,
        SendCall.goto]
  | takes i ans isPlace found =>
      rw [isPlace] at thread
      refine run_of_tunRun c ?_
      rw [tunKernel_setCall, tunKernel_setIface]
      simp only [TunKernel.run, thread, SendPlace.place, ifaces, if_pos found,
        SendCall.acquired]
  | loses i ans isPlace lost =>
      rw [isPlace] at thread
      refine run_of_tunRun c ?_
      rw [tunKernel_setCall]
      simp only [TunKernel.run, thread, SendPlace.place, ifaces, if_neg lost,
        SendCall.goto]
  | locksAddrs i iface isPlace isFree =>
      have isDevice : iface = devices i :=
        placed.owned consistent isCall (by rw [isPlace]; rfl)
      subst isDevice
      rw [isPlace] at thread
      refine run_of_tunRun c ?_
      have isFree :
          (kernel.tunKernel addrs devices).addrMtx i = none := isFree
      rw [tunKernel_setCall, tunKernel_setAddrMtx distinct]
      simp only [TunKernel.run, thread, SendPlace.place, if_pos isFree]
      rfl
  | sentAll i iface isPlace =>
      have isDevice : iface = devices i :=
        placed.owned consistent isCall (by rw [isPlace]; rfl)
      subst isDevice
      rw [isPlace] at thread
      refine run_of_tunRun c ?_
      rw [tunKernel_setCall, tunKernel_setAddrMtx distinct]
      simp only [TunKernel.run, thread, SendPlace.place, List.map_nil]
      rfl
  | skips i iface ia2 rest isPlace isInvalid =>
      rw [isPlace] at thread
      refine run_of_tunRun c ?_
      rw [tunKernel_setCall]
      simp only [TunKernel.run, thread, SendPlace.place, List.map_cons,
        isInvalid]
      rfl
  | sends i iface ia2 rest broadaddr isPlace isValid =>
      rw [isPlace, SendPlace.place, List.map_cons, isValid] at thread
      rw [tunKernel_setCall, tunKernel_setPackets]
      exact run_of_send thread
  | releases i iface isPlace =>
      rw [isPlace] at thread
      refine run_of_tunRun c ?_
      rw [tunKernel_setCall, tunKernel_setIface]
      simp only [TunKernel.run, thread, SendPlace.place]
      exact congrArg (fun place => some (TunKernel.goto _ c place))
        SendCall.afterSlot_place.symm
  | lastSends isPlace =>
      rw [isPlace] at thread
      rw [tunKernel_setCall]
      exact run_of_idle thread

/-- A step of a call is a run of its thread. -/
theorem tunRun_of_step
    (consistent : kernel.Consistent)
    (placed : Placed devices kernel)
    (distinct : Function.Injective devices)
    (step : CallStep addrs kernel label after) :
    ∃ labels,
      Run TunKernel.Step (kernel.tunKernel addrs devices) labels
        (after.tunKernel addrs devices) := by
  obtain ⟨⟨noClose, noOpen⟩, step⟩ := step
  cases step with
  | udpSend c args isNew fresh =>
      have thread : (kernel.tunKernel addrs devices).threads c = .idle := by
        simp [tunKernel, isNew]
      rw [tunKernel_setCall]
      rcases SendCall.begin_place args with isPlace | isPlace <;>
        rw [isPlace]
      · refine ⟨[.udpSend c], .cons _ _ ?_ (.nil _)⟩
        simp only [TunKernel.Step, TunKernel.next, if_pos thread]
        rfl
      · exact run_of_idle thread
  | runs c result runs =>
      obtain ⟨call, isCall, acts⟩ := exists_acts runs
      exact tunRun_of_acts consistent placed distinct isCall acts
  | opens i iface isClear isIface =>
      exact absurd rfl (noOpen i iface)
  | closeTakes i isFree =>
      exact absurd trivial noClose
  | closeClears i isClosing =>
      exact absurd trivial noClose

/-- The kernel module with the data that is sent refines the one without:
every run of the calls, from a state in which the slots contain the interfaces
of their devices, is a run of the threads, and what is shown of the places of
all runs of `TunKernel` holds of the calls. -/
theorem tunRun_of_run
    {final : SendKernel}
    {labels : List Label}
    (consistent : kernel.Consistent)
    (placed : Placed devices kernel)
    (closed : kernel.closing = ∅)
    (distinct : Function.Injective devices)
    (run : Run (CallStep addrs) kernel labels final) :
    ∃ tunLabels,
      Run TunKernel.Step (kernel.tunKernel addrs devices) tunLabels
        (final.tunKernel addrs devices) := by
  induction run with
  | nil kernel =>
      exact ⟨[], .nil _⟩
  | cons label rest step later inductionHypothesis =>
      obtain ⟨leading, first⟩ :=
        tunRun_of_step consistent placed distinct step
      obtain ⟨trailing, last⟩ :=
        inductionHypothesis (consistent.step step.2)
          (placed.step consistent closed step)
          (closing_of_step closed step.1.1 step.2)
      exact ⟨_, first.append last⟩

end Threads

end SendKernel

end Hamachi
