import Hamachi.DevicePoolInvariant

namespace Hamachi

/-!
# What the pool of indices promises

No two live devices share an index, a destruction clears the flag of its own
index, and a failing `tun_open` leaves nothing behind.  A run keeps this at
every point exactly when its steps are careful.
-/

namespace DevicePool

/-- The thread of a step. -/
def Label.thread : Label → Option Thread
  | .tunOpen t => some t
  | .allocates t _ => some t
  | .publishes t _ => some t
  | .registers t => some t
  | .registerFails t => some t
  | .opaqueFree t _ => some t
  | .overwrites _ _ => none
  | .runs t => some t

/-- `tun_open` returns an error. -/
def ReturnsError (pool : DevicePool) (t : Thread) (label : Label) : Prop :=
  label = .registerFails t ∨
    label = .runs t ∧
      ∃ i,
        pool.threads t = .acquiring i ∧
          pool.used i ≠ 0 ∧
          afterUsed i = .idle

/-- A step in which no other thread than this one changes an index. -/
def StepAlone
    (t : Thread)
    (i : Slot)
    (pool : DevicePool)
    (label : Label)
    (after : DevicePool) : Prop :=
  pool.Step label after ∧
    (label.thread ≠ some t →
      after.used i = pool.used i ∧ after.ifaces i = pool.ifaces i)

/-- What the pool of indices promises at the end of a run. -/
structure PoolSafe
    (start : DevicePool)
    (labels : List Label)
    (reached : DevicePool) : Prop where
  /-- no two live devices hold the same index -/
  distinct :
    ∀ op other,
      (reached.devices op).isSome →
        (reached.devices other).isSome →
          reached.memory op = reached.memory other → op = other
  /-- a destruction clears exactly the flag that its `tun_open` set -/
  clearsOwn :
    ∀ t idx own after,
      reached.threads t = .freeReleasing idx own →
        reached.Step (.runs t) after →
          reached.used own = 1 ∧
            after.used = Function.update reached.used own 0
  /-- a `tun_open` that returns an error leaves `used` and `ifaces` as they
  were, other threads apart -/
  errorKeeps :
    ∀ t i before during label source opened returning,
      labels = before ++ .tunOpen t :: (during ++ [label]) →
        Run Step start before source →
        source.Step (.tunOpen t) opened →
        .tunOpen t ∉ during →
        Run (StepAlone t i) opened during returning →
        returning.ReturnsError t label →
        returning.Step label reached →
        reached.used i = source.used i ∧
          reached.ifaces i = source.ifaces i
  /-- an index is marked exactly while a device has it -/
  inUse : ∀ i, reached.used i = 1 ↔ reached.InUse i

/-- The pool keeps its promises at every point of a run. -/
def PoolSafeAlong (start : DevicePool) (labels : List Label) : Prop :=
  ∀ leading reached,
    leading <+: labels →
      Run Step start leading reached →
        PoolSafe start leading reached

namespace PoolInvariant

variable
  {pool : DevicePool}
  {t : Thread}

/-- Two registered devices have different indices in their blocks. -/
theorem distinct
    {op other : Block}
    (invariant : pool.PoolInvariant)
    (isDevice : (pool.devices op).isSome)
    (isOther : (pool.devices other).isSome)
    (same : pool.memory op = pool.memory other) :
    op = other := by
  obtain ⟨own, isOwn⟩ := Option.isSome_iff_exists.mp isDevice
  obtain ⟨others, isOthers⟩ := Option.isSome_iff_exists.mp isOther
  rw [invariant.deviceIdx op own isOwn,
    invariant.deviceIdx other others isOthers] at same
  have sameIndex : own = others := Fin.ext (by exact_mod_cast same)
  subst sameIndex
  exact Sum.inl.inj (invariant.indices (.inl op) (.inl other) own isOwn
    isOthers)

/-- `release_idx` clears the flag that `tun_open` set. -/
theorem clearsOwn
    {idx : Int}
    {own : Slot}
    {after : DevicePool}
    (invariant : pool.PoolInvariant)
    (isPlace : pool.threads t = .freeReleasing idx own)
    (step : pool.Step (.runs t) after) :
    pool.used own = 1 ∧ after.used = Function.update pool.used own 0 := by
  obtain ⟨isUsed, releases⟩ := invariant.releaseIdx_eq isPlace
  simp only [DevicePool.Step, next, DevicePool.run, isPlace, releases] at step
  cases step
  exact ⟨isUsed, rfl⟩

end PoolInvariant

section Errors

variable
  {pool source opened returning reached after : DevicePool}
  {label : Label}
  {labels : List Label}
  {t : Thread}
  {i : Slot}

/-- `release_idx` moves no thread. -/
theorem threads_releaseIdx
    {idx : Int} :
    (pool.releaseIdx idx).threads = pool.threads := by
  unfold releaseIdx
  split
  · split <;> rfl
  · rfl

/-- An action of a thread moves that thread only. -/
theorem threads_of_acts
    {u : Thread}
    (acts : pool.Acts u after)
    (other : t ≠ u) :
    after.threads t = pool.threads t := by
  cases acts with
  | releases idx own isPlace =>
      rw [← @threads_releaseIdx pool idx]
      exact Function.update_of_ne other ..
  | _ =>
      exact Function.update_of_ne other ..

/-- A step of another thread or of the allocator leaves a thread alone. -/
theorem threads_of_step
    (step : pool.Step label after)
    (other : label.thread ≠ some t) :
    after.threads t = pool.threads t := by
  cases steps_of_step step with
  | overwrites op value isFree =>
      rfl
  | runs u acts =>
      exact threads_of_acts acts fun same => other (congrArg some same.symm)
  | _ =>
      exact Function.update_of_ne
        (fun same => other (congrArg some same.symm)) ..

/-- `acquire_idx` goes on only past an index in use. -/
theorem acquiring_of_acts
    {j : Slot}
    (acts : pool.Acts t after)
    (acquires : after.threads t = .acquiring j) :
    (∃ k, pool.threads t = .acquiring k) ∧
      after.used = pool.used ∧
      after.ifaces = pool.ifaces := by
  cases acts with
  | inUse k isPlace isUsed =>
      exact ⟨⟨k, isPlace⟩, rfl, rfl⟩
  | _ =>
      simp [goto] at acquires

/-- A thread is in `acquire_idx` after a step of its own only if the step calls
`tun_open` or goes on past an index in use. -/
theorem acquiring_of_step
    {j : Slot}
    (step : pool.Step label after)
    (own : label.thread = some t)
    (notCalled : label ≠ .tunOpen t)
    (acquires : after.threads t = .acquiring j) :
    (∃ k, pool.threads t = .acquiring k) ∧
      after.used = pool.used ∧
      after.ifaces = pool.ifaces := by
  cases steps_of_step step with
  | overwrites op value isFree =>
      cases own
  | tunOpen u isIdle =>
      cases own
      exact absurd rfl notCalled
  | runs u acts =>
      cases own
      exact acquiring_of_acts acts acquires
  | _ =>
      cases own
      simp [goto] at acquires

/-- As long as a thread is in `acquire_idx`, an index is what it was. -/
def Unchanged
    (source : DevicePool)
    (t : Thread)
    (i : Slot)
    (pool : DevicePool) : Prop :=
  ∀ j, pool.threads t = .acquiring j →
    pool.used i = source.used i ∧ pool.ifaces i = source.ifaces i

/-- `acquire_idx` changes nothing until it returns an index. -/
theorem unchanged_of_step
    (unchanged : Unchanged source t i pool)
    (step : StepAlone t i pool label after)
    (notCalled : label ≠ .tunOpen t) :
    Unchanged source t i after := by
  intro j acquires
  by_cases own : label.thread = some t
  · obtain ⟨⟨k, acquired⟩, used, ifaces⟩ :=
      acquiring_of_step step.1 own notCalled acquires
    rw [used, ifaces]
    exact unchanged k acquired
  · obtain ⟨used, ifaces⟩ := step.2 own
    rw [threads_of_step step.1 own] at acquires
    rw [used, ifaces]
    exact unchanged j acquires

/-- A `tun_open` that finds no free index has changed nothing. -/
theorem errorKeeps_of_run
    (opens : source.Step (.tunOpen t) opened)
    (notCalled : .tunOpen t ∉ labels)
    (run : Run (StepAlone t i) opened labels returning)
    (noFailure : label ≠ .registerFails t)
    (error : returning.ReturnsError t label)
    (step : returning.Step label reached) :
    reached.used i = source.used i ∧ reached.ifaces i = source.ifaces i := by
  have start : Unchanged source t i opened := by
    cases steps_of_step opens
    exact fun _ _ => ⟨rfl, rfl⟩
  have quiet := run.allowing fun label member =>
    (fun same => notCalled (same ▸ member) : label ≠ .tunOpen t)
  have unchanged : Unchanged source t i returning :=
    @Run.invariant _ _ _ (Unchanged source t i)
      (fun unchanged steps => unchanged_of_step unchanged steps.2 steps.1)
      _ _ _ quiet start
  rcases error with fails | ⟨rfl, j, acquires, isUsed, isLast⟩
  · exact absurd fails noFailure
  · simp only [Step, next, DevicePool.run, acquires, if_neg isUsed] at step
    cases step
    exact unchanged j acquires

end Errors

/-- As long as `devfs_set_cdevpriv` succeeds and freed blocks keep their index
until it is read, the pool keeps its promises. -/
theorem poolSafe_of_careful
    {final : DevicePool}
    {labels : List Label}
    (run : Run CarefulStep loaded labels final) :
    PoolSafe loaded labels final where
  distinct := fun _ _ => (PoolInvariant.run run).distinct
  clearsOwn := fun _ _ _ _ => (PoolInvariant.run run).clearsOwn
  errorKeeps := by
    rintro t i before during label source opened returning rfl _ opens
      notCalled alone error step
    have notFailed : label ≠ .registerFails t :=
      run.labels (fun step => step.2.1) label (by simp) t
    exact errorKeeps_of_run opens notCalled alone notFailed error step
  inUse := fun i =>
    ((PoolInvariant.run run).used i).trans held_index_iff

/-- A step determines the state after it. -/
theorem step_functional
    {source target other : DevicePool}
    {label : Label}
    (first : source.Step label target)
    (second : source.Step label other) :
    target = other :=
  Option.some.inj (first.symm.trans second)

section Converse

variable
  {pool after : DevicePool}
  {label : Label}
  {labels : List Label}
  {t : Thread}

/-- A failing `devfs_set_cdevpriv` leaves an index marked that no device has. -/
theorem PoolInvariant.not_failing
    (invariant : pool.PoolInvariant)
    (step : pool.Step (.registerFails t) after)
    (inUse : ∀ i, after.used i = 1 ↔ after.InUse i) :
    False := by
  cases steps_of_step step with
  | registerFails _ i op isPlace =>
      have owns : pool.index (.inr t) = some i := by
        simp [DevicePool.index, isPlace, PoolPlace.index]
      have marked := (invariant.used i).mpr ⟨.inr t, owns⟩
      have held := held_index_iff.mpr ((inUse i).mp marked)
      rw [index_goto] at held
      exact ((invariant.indices.held_drop owns).mp held).1 rfl

/-- `release_idx` of another index leaves the flag. -/
theorem used_releaseIdx_of_ne
    {idx : Int}
    {own : Slot}
    (different : idx ≠ own.val) :
    (pool.releaseIdx idx).used own = pool.used own := by
  unfold releaseIdx
  split
  · rename_i i isSlot
    split
    · apply used_setUsed_of_ne
      rintro rfl
      unfold slotOf at isSlot
      split at isSlot <;> [split at isSlot; skip] <;> cases isSlot
      simp_all
    · rfl
  · rfl

/-- An overwritten block makes `opaque_free` leave its own index marked. -/
theorem eq_of_clearsOwn
    {op : Block}
    {own : Slot}
    (isPlace : pool.threads t = .freeReading op own)
    (step : pool.Step (.runs t) after)
    (clearsOwn :
      ∀ t idx own last,
        after.threads t = .freeReleasing idx own →
          after.Step (.runs t) last →
            after.used own = 1 ∧
              last.used = Function.update after.used own 0) :
    pool.memory op = own.val := by
  by_contra overwritten
  simp only [Step, next, DevicePool.run, isPlace] at step
  cases step
  have isReleasing :
      (pool.goto t (.freeReleasing (pool.memory op) own)).threads t =
        .freeReleasing (pool.memory op) own :=
    Function.update_self ..
  have releases :
      (pool.goto t (.freeReleasing (pool.memory op) own)).Step (.runs t)
        (((pool.goto t (.freeReleasing (pool.memory op) own)).releaseIdx
          (pool.memory op)).goto t .idle) := by
    simp only [Step, next, DevicePool.run, isReleasing]
  obtain ⟨marked, cleared⟩ := clearsOwn t _ own _ isReleasing releases
  have stays :
      ((pool.goto t (.freeReleasing (pool.memory op) own)).releaseIdx
        (pool.memory op)).used own = 1 :=
    (used_releaseIdx_of_ne overwritten).trans marked
  have isCleared := congrFun cleared own
  rw [Function.update_self] at isCleared
  exact absurd (stays.symm.trans isCleared) (by decide)

/-- A step after which the pool keeps its promises is careful. -/
theorem PoolInvariant.careful_of_safe
    (invariant : pool.PoolInvariant)
    (step : pool.Step label after)
    (safe : PoolSafe loaded labels after) :
    pool.Careful label := by
  constructor
  · rintro t rfl
    exact invariant.not_failing step safe.inUse
  · rintro t op own rfl isPlace
    exact eq_of_clearsOwn isPlace step safe.clearsOwn

end Converse

/-- In a run the pool keeps its promises at every point exactly when
`devfs_set_cdevpriv` does not fail and every freed block still holds its index
when `opaque_free` reads it. -/
theorem poolSafeAlong_iff_careful
    {final : DevicePool}
    {labels : List Label}
    (run : Run Step loaded labels final) :
    PoolSafeAlong loaded labels ↔ Run CarefulStep loaded labels final := by
  constructor
  · intro safe
    have careful :
        labels <+: labels → Run CarefulStep loaded labels final := by
      refine @Run.history _ _ Step
        (fun passed reached => passed <+: labels →
          Run CarefulStep loaded passed reached)
        _ _ _ ?_ ?_ run
      · exact fun _ => .nil _
      · intro passed source label target before carefulBefore step isPrefix
        have earlier := (List.prefix_append passed [label]).trans isPrefix
        have carefulRun := carefulBefore earlier
        have safeAfter := safe _ _ isPrefix (before.concat step)
        exact carefulRun.concat
          ⟨step, (PoolInvariant.run carefulRun).careful_of_safe step
            safeAfter⟩
    exact careful (List.prefix_refl labels)
  · rintro careful leading reached ⟨trailing, rfl⟩ toReached
    obtain ⟨middle, toMiddle, _⟩ := careful.split
    obtain rfl : middle = reached :=
      (toMiddle.imp And.left).functional toReached step_functional
    exact poolSafe_of_careful toMiddle

/-- A device is opened and closed while nothing overwrites its block. -/
theorem poolSafeAlong_openedAndClosed :
    ∃ labels final,
      Run Step loaded labels final ∧
        .opaqueFree 0 0x100 ∈ labels ∧
        (PoolSafeAlong loaded labels ↔
          Run CarefulStep loaded labels final) := by
  let labels : List Label :=
    [.tunOpen 0, .runs 0, .allocates 0 0x100, .runs 0, .publishes 0 0x1000,
      .registers 0, .opaqueFree 0 0x100, .runs 0, .runs 0, .runs 0, .runs 0,
      .runs 0, .runs 0]
  have follows :
      ∃ final, labels.foldlM next loaded = some final ∧ final.used 0 = 0 :=
    ⟨_, rfl, rfl⟩
  obtain ⟨final, follows, _⟩ := follows
  have run : Run Step loaded labels final := Run.of_foldlM follows
  exact ⟨labels, final, run, by simp [labels],
    poolSafeAlong_iff_careful run⟩

/-- The block of a closed device is overwritten with the index of another one,
and the next device gets the same index. -/
theorem not_poolSafeAlong_overwritten :
    ¬ ∀ labels final,
      Run Step loaded labels final → PoolSafeAlong loaded labels := by
  intro safe
  let labels : List Label :=
    [.tunOpen 0, .runs 0, .allocates 0 0x100, .runs 0, .publishes 0 0x1000,
      .registers 0,
      .tunOpen 1, .runs 1, .runs 1, .allocates 1 0x200, .runs 1,
      .publishes 1 0x2000, .registers 1,
      .opaqueFree 0 0x100, .runs 0, .runs 0, .runs 0, .runs 0,
      .overwrites 0x100 1, .runs 0, .runs 0,
      .tunOpen 2, .runs 2, .runs 2, .allocates 2 0x300, .runs 2,
      .publishes 2 0x3000, .registers 2]
  have follows :
      ∃ final, labels.foldlM next loaded = some final ∧
        final.devices 0x200 = some 1 ∧
        final.devices 0x300 = some 1 ∧
        final.memory 0x200 = final.memory 0x300 :=
    ⟨_, rfl, rfl, rfl, rfl⟩
  obtain ⟨final, follows, first, second, same⟩ := follows
  have run : Run Step loaded labels final := Run.of_foldlM follows
  have distinct :=
    (safe labels final run labels final (List.prefix_refl _) run).distinct
  have equal := distinct 0x200 0x300 (by simp [first]) (by simp [second]) same
  exact absurd equal (by decide)

end DevicePool

end Hamachi
