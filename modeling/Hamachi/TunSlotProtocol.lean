import Hamachi.TunSlotInvariant

namespace Hamachi

/-!
# Every slot follows its protocol

One step lemma for each of the three parts, and the runs over them.
-/

namespace TunModule

section Steps

variable
  {tun after : TunModule}
  {kernel kernelAfter : TunKernel}
  {label : Label}
  {t : Thread}
  {i : Slot}
  {iface : Addr}

/-- A thread comes to have an interface by `acquire_iface` only. -/
theorem obtained_of_acts
    (acts : kernel.Acts t kernelAfter)
    (obtained : (kernelAfter.threads t).obtained = some (i, iface)) :
    (kernel.threads t).obtained = some (i, iface) ∨
      kernel.threads t = .comparing i iface ∧
        kernelAfter.threads t = .lockingAddrs i iface := by
  cases acts with
  | absent j isPlace isNull =>
      rcases TunKernel.afterSlot_cases j with ⟨k, isNext⟩ | isNext <;>
        simp [TunKernel.goto, isNext] at obtained
  | releases j other isPlace =>
      rcases TunKernel.afterSlot_cases j with ⟨k, isNext⟩ | isNext <;>
        simp [TunKernel.goto, isNext] at obtained
  | _ =>
      simp_all [TunKernel.goto]

/-- A step of the other functions is about one thread. -/
theorem obtained_of_kernelStep
    {kernelLabel : TunKernel.Label}
    (step : kernel.Step kernelLabel kernelAfter)
    (obtained : (kernelAfter.threads t).obtained = some (i, iface)) :
    (kernel.threads t).obtained = some (i, iface) ∨
      kernelLabel = .runs t ∧
        kernel.threads t = .comparing i iface ∧
        kernelAfter.threads t = .lockingAddrs i iface := by
  rcases TunKernel.step_cases step with
    ⟨u, rfl, isIdle, rfl⟩ | ⟨u, j, rfl, isIdle, isOpen, rfl⟩ |
    ⟨u, rfl, acts⟩
  · by_cases isCaller : t = u
    · simp [TunKernel.goto, isCaller] at obtained
    · simp only [TunKernel.goto, Function.update_of_ne isCaller] at obtained
      exact .inl obtained
  · by_cases isCaller : t = u
    · simp [TunKernel.goto, isCaller] at obtained
    · simp only [TunKernel.goto, Function.update_of_ne isCaller] at obtained
      exact .inl obtained
  · by_cases isMover : t = u
    · subst isMover
      rcases obtained_of_acts acts obtained with had | takes
      · exact .inl had
      · exact .inr ⟨rfl, takes⟩
    · obtain ⟨place, threads, _⟩ := TunKernel.acts_moves acts
      rw [threads, Function.update_of_ne isMover] at obtained
      exact .inl obtained

/-- A thread comes to have an interface by `acquire_iface` of its own only. -/
theorem obtained_of_step
    (step : tun.Step label after)
    (obtained : (after.kernel.threads t).obtained = some (i, iface)) :
    (tun.kernel.threads t).obtained = some (i, iface) ∨
      tun.Obtains t i iface label after := by
  rcases step_cases step with
    ⟨kernelLabel, kernel, rfl, _, kernelStep, rfl⟩ | ⟨u, j, _, _, _, rfl⟩ |
    ⟨u, j, _, _, rfl⟩ | ⟨u, j, other, addrs, _, _, _, _, rfl⟩ |
    ⟨u, j, _, _, rfl⟩
  case inl =>
    rcases obtained_of_kernelStep kernelStep obtained with
      had | ⟨rfl, takes⟩
    · exact .inl had
    · exact .inr ⟨rfl, takes⟩
  all_goals
    exact .inl obtained

/-- No action of a thread stores to an empty slot. -/
theorem null_of_acts
    (consistent : kernel.Consistent)
    (isNull : kernel.ifaces i = 0)
    (acts : kernel.Acts t kernelAfter) :
    kernelAfter.ifaces i = 0 := by
  have elsewhere :
      ∀ {j value place}, kernel.ifaces j ≠ 0 →
        ((kernel.setIface j value).goto t place).ifaces i = 0 := by
    intro j value place present
    have different : i ≠ j := by
      rintro rfl
      exact present isNull
    exact (SlotInvariant.stored_of_ne different).trans isNull
  cases acts with
  | takes j ans isPlace found =>
      apply elsewhere
      rw [found]
      exact (consistent.seen t ans (by simp [isPlace])).1
  | releases j other isPlace =>
      apply elsewhere
      rw [consistent.owned t j (by simp [isPlace])]
      exact Nat.one_ne_zero
  | freeTakes j ans isPlace found =>
      apply elsewhere
      rw [found]
      exact (consistent.seen t ans (by simp [isPlace])).1
  | freeClears j isPlace =>
      by_cases isSlot : i = j
      · rw [isSlot]
        exact SlotInvariant.stored_self
      · exact (SlotInvariant.stored_of_ne isSlot).trans isNull
  | _ =>
      exact isNull

/-- An empty slot stays empty until an interface is published in it. -/
theorem null_of_step
    (consistent : tun.kernel.Consistent)
    (isNull : tun.kernel.ifaces i = 0)
    (step : tun.Step label after)
    (notPublished : ¬ tun.Publishes i label) :
    after.kernel.ifaces i = 0 := by
  rcases step_cases step with
    ⟨kernelLabel, kernel, rfl, _, kernelStep, rfl⟩ | ⟨u, j, _, _, _, rfl⟩ |
    ⟨u, j, _, _, rfl⟩ | ⟨u, j, iface, addrs, rfl, isPlace, _, _, rfl⟩ |
    ⟨u, j, _, _, rfl⟩
  case inl =>
    rcases TunKernel.step_cases kernelStep with
      ⟨u, _, _, rfl⟩ | ⟨u, j, _, _, _, rfl⟩ | ⟨u, _, acts⟩
    · exact isNull
    · exact isNull
    · exact null_of_acts consistent isNull acts
  case inr.inr.inr.inl =>
    have different : i ≠ j := by
      rintro rfl
      exact notPublished ⟨u, iface, addrs, rfl, isPlace⟩
    exact (SlotInvariant.publish_of_ne different).trans isNull
  all_goals
    exact isNull

/-- The store of `opaque_free` empties the slot. -/
theorem null_of_clears
    (clears : tun.Clears i label)
    (step : tun.Step label after) :
    after.kernel.ifaces i = 0 := by
  obtain ⟨u, rfl, isPlace⟩ := clears
  rcases step_cases step with
    ⟨kernelLabel, kernel, isLabel, _, kernelStep, rfl⟩ |
    ⟨_, _, isLabel, _⟩ | ⟨_, _, isLabel, _⟩ | ⟨_, _, _, _, isLabel, _⟩ |
    ⟨_, _, isLabel, _⟩ <;>
    cases isLabel
  simp only [TunKernel.Step, TunKernel.next, TunKernel.run, isPlace]
    at kernelStep
  cases kernelStep
  exact SlotInvariant.stored_self

/-- A marked slot has exactly one owner. -/
theorem SlotInvariant.owner_existsUnique
    (invariant : tun.SlotInvariant)
    (acquired : tun.kernel.ifaces i = ifaceAcquired) :
    ∃! t, (tun.kernel.threads t).Owns i := by
  obtain ⟨owner, owns⟩ := invariant.owner i acquired
  exact ⟨owner, owns, fun other owned =>
    invariant.owner_unique owned owns⟩

/-- In every run an interface that a thread has was obtained after the last
store of `opaque_free` to the slot. -/
theorem obtained_of_run
    {final : TunModule}
    {labels : List Label}
    (run : Run OwnIndexStep loaded labels final)
    (obtained : (final.kernel.threads t).obtained = some (i, iface)) :
    ObtainedBy loaded labels final t i iface := by
  have traced :
      final.SlotInvariant ∧
        ((final.kernel.threads t).obtained = some (i, iface) →
          ObtainedBy loaded labels final t i iface) := by
    refine @Run.history _ _ _
      (fun labels tun => tun.SlotInvariant ∧
        ((tun.kernel.threads t).obtained = some (i, iface) →
          ObtainedBy loaded labels tun t i iface))
      _ _ _ ⟨loaded_invariant, ?_⟩ ?_ run
    · simp [loaded]
    · rintro passed source label target before ⟨invariant, had⟩ step
      refine ⟨invariant.step step, fun obtained => ?_⟩
      have leading := before.imp And.left
      rcases obtained_of_step step.1 obtained with already | obtains
      · obtain ⟨first, taken, later, start, reached, rfl, run, takes,
          obtains, since⟩ := had already
        refine ⟨first, taken, later ++ [label], start, reached, by simp, run,
          takes, obtains, since.concat ⟨step.1, ?_⟩⟩
        exact invariant.not_clears already
      · exact ⟨passed, label, [], source, target, rfl, leading, step.1,
          obtains, .nil target⟩
  exact traced.2 obtained

/-- In every run a slot that was taken back is empty until an interface is
published in it. -/
theorem null_of_run
    {start final : TunModule}
    {labels : List Label}
    (invariant : start.SlotInvariant)
    (isNull : start.kernel.ifaces i = 0)
    (run :
      Run (fun tun label after =>
          tun.OwnIndexStep label after ∧ ¬ tun.Publishes i label)
        start labels final) :
    final.kernel.ifaces i = 0 := by
  have kept :
      final.SlotInvariant ∧ final.kernel.ifaces i = 0 := by
    refine @Run.invariant _ _ _
      (fun tun => tun.SlotInvariant ∧ tun.kernel.ifaces i = 0)
      ?_ _ _ _ run ⟨invariant, isNull⟩
    rintro source label target ⟨invariant, isNull⟩ ⟨step, notPublished⟩
    exact ⟨invariant.step step,
      null_of_step invariant.consistent isNull step.1 notPublished⟩
  exact kept.2

/-- In every run in which each device has an index of its own, every slot
follows the protocol. -/
theorem slotProtocol_of_run
    {final : TunModule}
    {labels : List Label}
    (run : Run OwnIndexStep loaded labels final)
    (i : Slot) :
    SlotProtocol loaded labels final i where
  oneOwner := (SlotInvariant.run run).owner_existsUnique
  noUseAfterFree := fun t iface obtained => obtained_of_run run obtained
  staysEmpty := by
    rintro before label later source cleared rfl first clears step rest
    obtain ⟨middle, leading, trailing⟩ := run.split
    cases first.functional (leading.imp And.left) step_functional
    cases trailing with
    | cons _ _ ownStep trailing =>
        cases step_functional step ownStep.1
        have both := trailing.both rest fun own other =>
          step_functional own.1 other.1
        apply null_of_run ((SlotInvariant.run leading).step ownStep)
          (null_of_clears clears step)
        exact both.imp fun steps => ⟨steps.1, steps.2.2⟩

end Steps

/-- Steps after which no device is created are about indices of their own. -/
theorem ownIndex_of_noAlloc
    {start final : TunModule}
    {labels : List Label}
    (run : Run Step start labels final)
    (noAlloc : ∀ label ∈ labels, ∀ t i, label ≠ .opaqueAlloc t i) :
    Run OwnIndexStep start labels final :=
  (run.allowing noAlloc).imp fun steps =>
    ⟨steps.2, fun t i isAlloc => absurd isAlloc (steps.1 t i)⟩

/-- A device is opened, a sender takes its interface, and the device is closed
while the sender has it. -/
theorem slotProtocol_closedWhileTaken :
    ∃ labels final,
      Run OwnIndexStep loaded labels final ∧
        final.kernel.ifaces 1 = ifaceAcquired ∧
        SlotProtocol loaded labels final 1 := by
  let rest : List Label :=
    [.allocLocks 0, .publishes 0 0x1000 [none], .allocReturns 0,
      .kernel (.udpSend 1), .kernel (.runs 1), .kernel (.runs 1),
      .kernel (.runs 1), .kernel (.opaqueFree 0 1), .kernel (.runs 0),
      .kernel (.runs 0)]
  have opens :
      OwnIndexStep loaded (.opaqueAlloc 0 1)
        (loaded.goto loaded.kernel 0 (.locking 1)) := by
    refine ⟨by simp [Step, next, loaded], ?_⟩
    simp [InUse, holds, loaded]
  have follows :
      ∃ final,
        rest.foldlM next (loaded.goto loaded.kernel 0 (.locking 1)) =
            some final ∧
          final.kernel.ifaces 1 = ifaceAcquired :=
    ⟨_, rfl, rfl⟩
  obtain ⟨final, follows, acquired⟩ := follows
  have later := ownIndex_of_noAlloc (Run.of_foldlM follows) (by simp [rest])
  have run := Run.cons _ _ opens later
  exact ⟨_, final, run, acquired, slotProtocol_of_run run 1⟩

end TunModule

end Hamachi
