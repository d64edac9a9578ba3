import Hamachi.ExitResidue

namespace Hamachi

/-!
# The emulated run after an exit

The handles that the statics hold in a run come from the allocations of that
run when the run starts with clean statics.  With this, the residue of an exit
is settled exactly when every descriptor that entered the tables was closed.
-/

/-- Every handle in the statics is that of one of the blocks. -/
structure Owns (blocks : Set Addr) (glue : Glue) : Prop where
  perFd :
    ∀ fd, glue.perFdResources fd ≠ 0 →
      ∃ buf ∈ blocks, glue.perFdResources fd = handleOf buf
  epollRs :
    glue.epollRs ≠ 0 →
      ∃ buf ∈ blocks, glue.epollRs = handleOf buf

/-- The blocks that `malloc` returned during a list of calls. -/
def blocksOf (calls : List SysCall) : Set Addr :=
  { buf | ∃ call ∈ calls, buf ∈ call.block }

namespace Owns

variable
  {blocks : Set Addr}
  {glue changed : Glue}
  {process next : Process}

theorem frame
    (owns : Owns blocks glue)
    (frame : Frame glue changed) :
    Owns blocks changed where
  perFd := by
    rw [frame.perFdResources]
    exact owns.perFd
  epollRs := by
    rw [frame.epollRs]
    exact owns.epollRs

/-- A `resource_free` puts no handle in the statics. -/
theorem free
    {h : Addr}
    (owns : Owns blocks process.glue)
    (frees : process.free h = .ok next) :
    Owns blocks next.glue := by
  obtain ⟨same, epollRs⟩ := Process.free_tables frees
  constructor
  · rw [same.perFdResources]
    exact owns.perFd
  · rcases epollRs with isNull | sameEpoll
    · rw [isNull]
      exact fun created => absurd rfl created
    · rw [sameEpoll]
      exact owns.epollRs

/-- A tracked descriptor has the handle of the block of its call. -/
theorem trackFd
    {fd : Int}
    {buf : Addr}
    {junk : Resource Finaliser Payload}
    (owns : Owns blocks process.glue)
    (member : buf ∈ blocks)
    (tracks : process.trackFd fd buf junk = .ok next) :
    Owns blocks next.glue := by
  obtain ⟨_, nextGlue⟩ := Process.trackFd_completed tracks
  rw [nextGlue]
  refine ⟨fun id => ?_, owns.epollRs⟩
  by_cases isFd : id = fd
  · subst isFd
    exact fun _ => ⟨buf, member, by simp⟩
  · simpa [isFd] using owns.perFd id

/-- A host call does not matter. -/
theorem onHost
    (owns : Owns blocks process.glue)
    (host : Host) :
    Owns blocks (process.onHost host).glue :=
  ⟨owns.perFd, owns.epollRs⟩

/-- `impl_close` puts no handle in the statics. -/
theorem close
    {fd result ret : Int}
    (owns : Owns blocks process.glue)
    (completes : process.implClose fd result = .ok (next, ret)) :
    Owns blocks next.glue := by
  rcases Process.implClose_completed completes with
    ⟨_, frees⟩ | ⟨freed, closesResource, _, rfl⟩
  · exact owns.free frees
  · have frees := Process.closeResource_completed closesResource
    have freedOwns : Owns blocks freed.glue := by
      refine free ?_ frees
      exact ⟨owns.perFd, owns.epollRs⟩
    refine ⟨fun id => ?_, freedOwns.epollRs⟩
    by_cases isFd : id = fd
    · subst isFd
      simp [Glue.hostClose]
    · simpa [Glue.hostClose, isFd] using freedOwns.perFd id

/-- A system call puts handles of its own block in the statics only. -/
theorem perform
    {call : SysCall}
    (owns : Owns blocks process.glue)
    (members : ∀ buf ∈ call.block, buf ∈ blocks)
    (performs : process.perform call = .ok next) :
    Owns blocks next.glue := by
  cases call with
  | open64 path flags mode fd buf junk =>
      obtain ⟨⟨opened, _⟩, completes, isNext⟩ := bind_eq_ok.mp performs
      cases isNext
      exact (owns.onHost _).trackFd (members buf rfl)
        (Process.implOpen64_completed completes)
  | socket domain type protocol ans buf junk =>
      obtain ⟨⟨opened, _⟩, completes, isNext⟩ := bind_eq_ok.mp performs
      cases isNext
      obtain ⟨call, ⟨_, rfl⟩ | ⟨_, tracks⟩⟩ :=
        Process.implSocket_completed completes
      · exact owns.onHost _
      · exact (owns.onHost _).trackFd (members buf rfl) tracks
  | accept sock ans =>
      cases performs
      exact owns.onHost _
  | epollCreate buf junk =>
      obtain ⟨⟨created, _⟩, completes, isNext⟩ := bind_eq_ok.mp performs
      cases isNext
      obtain ⟨allocated, _, rfl⟩ :=
        Process.implEpollCreate_completed completes
      exact ⟨owns.perFd, fun _ => ⟨buf, members buf rfl, rfl⟩⟩
  | epollCtl fd op fd2 event =>
      obtain ⟨⟨glue, _⟩, completes, isNext⟩ := bind_eq_ok.mp performs
      cases isNext
      exact owns.frame (.implEpollCtl completes)
  | ioctl fd cmd ifru garbage ans =>
      obtain ⟨⟨glue, _⟩, completes, isNext⟩ := bind_eq_ok.mp performs
      cases isNext
      by_cases isTunSetIff : cmd = tunSetIff
      · subst isTunSetIff
        obtain ⟨_, perFdResources, _, epollRs⟩ :=
          implIoctl_tunSetIff completes
        constructor
        · rw [perFdResources]
          exact owns.perFd
        · rw [epollRs]
          exact owns.epollRs
      · exact owns.frame (.implIoctl isTunSetIff completes)
  | read fd buf host =>
      obtain ⟨⟨glue, _⟩, completes, isNext⟩ := bind_eq_ok.mp performs
      cases isNext
      exact owns.frame (.implRead completes)
  | write fd buf result =>
      obtain ⟨⟨glue, _⟩, completes, isNext⟩ := bind_eq_ok.mp performs
      cases isNext
      exact owns.frame (.implWrite completes)
  | fopen64 path mode fp buf junk =>
      obtain ⟨⟨final, _⟩, completes, isNext⟩ := bind_eq_ok.mp performs
      cases isNext
      obtain ⟨opened, ans, opens, rest⟩ :=
        Process.implFopen64_completed completes
      have openedOwns := owns.frame (Frame.openStream opens).2
      rcases rest with rfl | ⟨allocated, h, allocates, stores⟩
      · exact openedOwns
      · rw [Process.storePayload_glue stores,
          (Process.alloc_completed allocates).2]
        exact openedOwns
  | fclose f result =>
      obtain ⟨⟨final, _⟩, completes, isNext⟩ := bind_eq_ok.mp performs
      cases isNext
      obtain ⟨fp, closed, ans, stored, closes, stores, frees⟩ :=
        Process.implFclose_completed completes
      have closedOwns := owns.frame (Frame.closeStream closes).2
      rw [← Process.storePayload_glue stores] at closedOwns
      exact closedOwns.free frees
  | malloc buf junk =>
      obtain ⟨⟨allocated, _⟩, completes, isNext⟩ := bind_eq_ok.mp performs
      cases isNext
      rw [(Process.alloc_completed completes).2]
      exact owns
  | free ptr lookedUp =>
      obtain ⟨storage, frees | rfl⟩ := Process.implFree_completed performs
      · refine free ?_ frees
        exact ⟨owns.perFd, owns.epollRs⟩
      · exact ⟨owns.perFd, owns.epollRs⟩
  | close fd result =>
      obtain ⟨⟨closed, _⟩, completes, isNext⟩ := bind_eq_ok.mp performs
      cases isNext
      exact owns.close completes

/-- The statics hold handles of the blocks of a run when they held none
before. -/
theorem run
    {calls : List SysCall}
    (run : Run Process.Step process calls next)
    (owns : Owns blocks process.glue)
    (members : blocksOf calls ⊆ blocks) :
    Owns blocks next.glue := by
  induction run with
  | nil process =>
      exact owns
  | cons call rest first _ inductionHypothesis =>
      apply inductionHypothesis
      · apply owns.perform ?_ first.2
        exact fun buf isBlock =>
          members ⟨call, List.mem_cons_self, isBlock⟩
      · rintro buf ⟨later, member, isBlock⟩
        exact members ⟨later, List.mem_cons_of_mem _ member, isBlock⟩

end Owns

/-- The process in which the next emulated run starts. -/
def Process.restart (process : Process) : Process :=
  { process with glue := { process.glue with isMainThread := true } }

/-- A process in which an emulated run may start. -/
structure Fresh (process : Process) : Prop where
  holds : process.Holds []
  clean : Clean process

/-- An exit left no residue: the statics are as at program start, the next run
can create the tap device, and it frees handles of its own allocations only. -/
structure NoResidue (process : Process) : Prop where
  clean : Clean process
  tunAgain :
    ∀ fd ifru garbage ans,
      LinuxIfru.flags ifru = .ok tapFlags →
        ∃ glue,
          process.restart.glue.implIoctl fd tunSetIff ifru garbage ans =
            .ok (glue, 0)
  ownHandles :
    ∀ calls later,
      Run Process.Step process.restart calls later →
        Owns (blocksOf calls) later.glue

theorem initial_fresh : Fresh Process.initial where
  holds := Process.initial_holds
  clean := ⟨rfl, rfl, rfl, fun _ => rfl⟩

/-- Clean statics own their handles for want of any. -/
theorem Clean.owns
    {process : Process}
    (clean : Clean process)
    (blocks : Set Addr) :
    Owns blocks process.glue where
  perFd := fun fd isEntry => absurd (clean.noEntry fd) isEntry
  epollRs := fun isCreated => absurd clean.noEpoll isCreated

/-- Clean statics are all that the next run needs. -/
theorem noResidue_iff_clean {process : Process} :
    NoResidue process ↔ Clean process := by
  constructor
  · exact NoResidue.clean
  · intro clean
    refine ⟨clean, ?_, ?_⟩
    · intro fd ifru garbage ans isTap
      refine ⟨{ process.restart.glue with tunFd := fd }, ?_⟩
      have free : process.restart.glue.tunFd = -1 := clean.noTun
      simp [Glue.implIoctl, free, isTap]
    · intro calls later run
      have owns := clean.owns (blocksOf calls)
      exact Owns.run run ⟨owns.perFd, owns.epollRs⟩ subset_rfl

/-- After an exit the statics are clean exactly when nothing was owed. -/
theorem Leaves.clean_iff
    {owed : Set Int}
    {process final : Process}
    (leaves : Leaves owed process)
    (exits : process.implExit = .ok final) :
    Clean final ↔ owed = ∅ := by
  obtain ⟨resources, holds, hasEpoll, remembers⟩ := leaves
  obtain ⟨finalHolds, glue, finalises, isFinal⟩ := holds.implExit exits
  obtain ⟨same, noEpoll⟩ := finaliseAll_tables finalises hasEpoll
  have perFdResources :
      final.glue.perFdResources = process.glue.perFdResources := by
    rw [isFinal]
    exact same.perFdResources
  have tunFd : final.glue.tunFd = process.glue.tunFd := by
    rw [isFinal]
    exact same.tunFd
  rw [Set.eq_empty_iff_forall_notMem]
  constructor
  · intro clean fd isOwed
    rcases (remembers fd).mp isOwed with isEntry | ⟨isTun, notNone⟩
    · exact isEntry (perFdResources ▸ clean.noEntry fd)
    · exact notNone (isTun.symm.trans (tunFd ▸ clean.noTun))
  · intro noneOwed
    refine ⟨finalHolds.represents.segment, ?_, ?_, ?_⟩
    · rw [isFinal]
      exact noEpoll
    · by_contra hasTun
      rw [tunFd] at hasTun
      exact noneOwed _ ((remembers _).mpr (.inr ⟨rfl, hasTun⟩))
    · intro fd
      by_contra isEntry
      rw [perFdResources] at isEntry
      exact noneOwed fd ((remembers fd).mpr (.inl isEntry))

/-- An emulated exit leaves no residue exactly when every descriptor that
`impl_open64` and `impl_socket` returned, and every one that became the tap
device, was passed to `impl_close` afterwards. -/
theorem noResidue_iff_eachSettled
    {start reached final : Process}
    {calls : List SysCall}
    (fresh : Fresh start)
    (run : Run Process.Step start calls reached)
    (exits : reached.implExit = .ok final) :
    NoResidue final ↔
      EachSettled SysCall.enters SysCall.closes calls := by
  have startLeaves : Leaves ∅ start := by
    refine ⟨[], fresh.holds, ?_, ?_⟩
    · exact fun created => absurd fresh.clean.noEpoll created
    · intro fd
      have noEntry := fresh.clean.noEntry fd
      have noTun := fresh.clean.noTun
      grind
  have reachedLeaves := run.outstanding Leaves.step startLeaves
  rw [noResidue_iff_clean, reachedLeaves.clean_iff exits,
    outstanding_empty_iff]

/-- A request for a tap device without packet information. -/
def tapRequest : LinuxIfru :=
  .of [0x02, 0x10, 0, 0, 0, 0, 0, 0, 0, 0, 0, 0, 0, 0, 0, 0]

/-- A program that exits with its tap device open. -/
def tapLeftOpen : List SysCall :=
  [.open64 "/dev/net/tun" 2 0 3 8 freshBlock,
    .ioctl 3 tunSetIff tapRequest 0 0]

/-- A program that closes its tap device before it exits. -/
def tapClosed : List SysCall :=
  .malloc 100 freshBlock :: tapLeftOpen ++ [.close 3 0]

/-- An exit after the tap device was closed leaves no residue. -/
theorem noResidue_tapClosed :
    ∃ reached final,
      Run Process.Step Process.initial tapClosed reached ∧
        reached.implExit = .ok final ∧
        NoResidue final := by
  have passes :
      Process.reaches (Process.exitsWith fun _ => true) Process.initial
        tapClosed = true := by
    decide +kernel
  obtain ⟨reached, final, run, exits, _⟩ := Process.exists_exit passes
  have settled : EachSettled SysCall.enters SysCall.closes tapClosed := by
    decide
  exact ⟨reached, final, run, exits,
    (noResidue_iff_eachSettled initial_fresh run exits).mpr settled⟩

/-- An exit with the tap device open leaves `tun_fd` behind. -/
theorem residue_tapLeftOpen :
    ∃ reached final,
      Run Process.Step Process.initial tapLeftOpen reached ∧
        reached.implExit = .ok final ∧
        ¬ NoResidue final := by
  have passes :
      Process.reaches
        (Process.exitsWith fun final => final.glue.tunFd == 3)
        Process.initial tapLeftOpen = true := by
    decide +kernel
  obtain ⟨reached, final, run, exits, tested⟩ := Process.exists_exit passes
  refine ⟨reached, final, run, exits, fun noResidue => ?_⟩
  have isTun : final.glue.tunFd = 3 := eq_of_beq tested
  rw [noResidue.clean.noTun] at isTun
  exact absurd isTun (by decide)

end Hamachi
