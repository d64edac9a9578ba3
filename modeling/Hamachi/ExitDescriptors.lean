import Hamachi.DescriptorAccounts
import Hamachi.NextRun

namespace Hamachi

/-!
# The descriptors that survive an emulated exit

`resource_collect` closes the tracked descriptors.  `impl_accept` tracks none,
so a descriptor survives the exit exactly when it was accepted and not closed.
-/

/-- Finalising tracked descriptors closes them and no other. -/
theorem finaliseAll_opened
    {resources : List (Handles.Tracked Finaliser Payload)}
    {glue final : Glue}
    (tracked :
      ∀ resource ∈ resources, ∃ fd,
        resource.free = .resFd ∧ resource.payload = .fd fd)
    (finalises :
      Handles.finaliseAll runtime resources glue = .ok final)
    (fd : Int) :
    fd ∈ final.host.opened ↔
      fd ∈ glue.host.opened ∧
        ∀ resource ∈ resources, resource.payload ≠ .fd fd := by
  induction resources generalizing glue with
  | nil =>
      cases finalises
      simp
  | cons resource rest inductionHypothesis =>
      obtain ⟨changed, finalisesFirst, finalisesRest⟩ :=
        bind_eq_ok.mp finalises
      obtain ⟨closed, isFd, isPayload⟩ :=
        tracked resource List.mem_cons_self
      change Glue.finalise resource.free _ resource.payload glue = _
        at finalisesFirst
      rw [isFd, isPayload] at finalisesFirst
      cases finalisesFirst
      have restTracked :
          ∀ other ∈ rest, ∃ fd,
            other.free = .resFd ∧ other.payload = .fd fd :=
        fun other member =>
          tracked other (List.mem_cons_of_mem _ member)
      rw [inductionHypothesis restTracked finalisesRest]
      simp only [Glue.hostClose, Host.close, Finset.mem_erase,
        List.forall_mem_cons, isPayload, ne_eq, Payload.fd.injEq]
      grind

/-- After an exit exactly the owed descriptors are open. -/
theorem Accounts.exit
    {owed : Set Int}
    {process final : Process}
    (accounts : Accounts owed process)
    (exits : process.implExit = .ok final)
    (fd : Int) :
    fd ∈ final.glue.host.opened ↔ fd ∈ owed := by
  obtain ⟨resources, accounting⟩ := accounts
  obtain ⟨_, glue, finalises, isFinal⟩ := accounting.holds.implExit exits
  have tracked :
      ∀ resource ∈ resources, ∃ fd,
        resource.free = .resFd ∧ resource.payload = .fd fd := by
    intro resource member
    obtain ⟨id, isFd, isPayload, _⟩ := accounting.tracked resource member
    exact ⟨id, isFd, isPayload⟩
  rw [isFinal]
  change fd ∈ glue.host.opened ↔ _
  rw [finaliseAll_opened tracked finalises, accounting.opened fd]
  constructor
  · rintro ⟨isEntry | isOwed, notResource⟩
    · obtain ⟨resource, member, isPayload, _⟩ :=
        accounting.entries fd isEntry
      exact absurd isPayload (notResource resource member)
    · exact isOwed
  · intro isOwed
    refine ⟨.inr isOwed, fun resource member isPayload => ?_⟩
    obtain ⟨id, _, samePayload, isEntry⟩ :=
      accounting.tracked resource member
    rw [isPayload] at samePayload
    cases samePayload
    rw [accounting.untracked fd isOwed] at isEntry
    exact handleOf_ne_null _ isEntry.symm

/-- No descriptor survives an emulated exit exactly when every descriptor that
`impl_accept` returned was passed to `impl_close` afterwards. -/
theorem noneOpen_iff_acceptedClosed
    {start reached final : Process}
    {calls : List SysCall}
    (fresh : Fresh start)
    (noneOpened : start.glue.host.opened = ∅)
    (run : Run Process.Step start calls reached)
    (onDescriptors : ∀ call ∈ calls, call.onDescriptors = true)
    (exits : reached.implExit = .ok final) :
    final.glue.host.opened = ∅ ↔
      EachSettled SysCall.accepts SysCall.closesFd calls := by
  have startAccounts :=
    accounts_empty fresh.holds fresh.clean.noEntry noneOpened
      fresh.clean.noEpoll
  have accounts :=
    (run_onDescriptors run onDescriptors).outstanding Accounts.step
      startAccounts
  rw [← outstanding_empty_iff, Finset.eq_empty_iff_forall_notMem,
    Set.eq_empty_iff_forall_notMem]
  exact forall_congr' fun fd => not_congr (accounts.exit exits fd)

/-- A server that exits with a connection open. -/
def connectionLeftOpen : List SysCall :=
  [.socket 2 1 0 4 8 freshBlock, .accept 4 5]

/-- A server that closes its connection before it exits. -/
def connectionClosed : List SysCall :=
  connectionLeftOpen ++ [.close 5 0]

/-- After the connection was closed an exit leaves no descriptor open. -/
theorem noneOpen_connectionClosed :
    ∃ reached final,
      Run Process.Step Process.initial connectionClosed reached ∧
        reached.implExit = .ok final ∧
        final.glue.host.opened = ∅ := by
  have passes :
      Process.reaches (Process.exitsWith fun _ => true) Process.initial
        connectionClosed = true := by
    decide +kernel
  obtain ⟨reached, final, run, exits, _⟩ := Process.exists_exit passes
  have settled :
      EachSettled SysCall.accepts SysCall.closesFd connectionClosed := by
    decide
  exact ⟨reached, final, run, exits,
    (noneOpen_iff_acceptedClosed initial_fresh rfl run (by decide)
      exits).mpr settled⟩

/-- An accepted connection survives the exit. -/
theorem open_connectionLeftOpen :
    ∃ reached final,
      Run Process.Step Process.initial connectionLeftOpen reached ∧
        reached.implExit = .ok final ∧
        5 ∈ final.glue.host.opened := by
  have passes :
      Process.reaches
        (Process.exitsWith fun final => 5 ∈ final.glue.host.opened)
        Process.initial connectionLeftOpen = true := by
    decide +kernel
  obtain ⟨reached, final, run, exits, tested⟩ := Process.exists_exit passes
  exact ⟨reached, final, run, exits, of_decide_eq_true tested⟩

end Hamachi
