import Hamachi.ProcessRuns

namespace Hamachi

/-!
# Failed interface requests

`impl_ioctl` changes `tun_fd` before it looks at the flags of a `TUNSETIFF`, and
the addresses of `tuntap.c` before it asks the host.  When the request is then
rejected the change stays.
-/

/-- `SIOCSIFADDR` in the numbering of Linux. -/
def siocSifAddr : Int := 35094

/-- `SIOCSIFBRDADDR` in the numbering of Linux. -/
def siocSifBrdAddr : Int := 35098

/-- The tap device and the addresses of its interface are the same. -/
structure SameInterface (glue changed : Glue) : Prop where
  tunFd : changed.tunFd = glue.tunFd
  macaddr : changed.tuntap.macaddr = glue.tuntap.macaddr
  ipaddr : changed.tuntap.ipaddr = glue.tuntap.ipaddr
  brdaddr : changed.tuntap.brdaddr = glue.tuntap.brdaddr

namespace Glue

/-- If the request fails the interface is as before, and a `TUNSETIFF` can be
tried again. -/
structure FailsWhole
    (glue : Glue)
    (fd cmd : Int)
    (ifru : LinuxIfru)
    (garbage : InAddr)
    (ans : Int) : Prop where
  unchanged :
    ∀ changed,
      glue.implIoctl fd cmd ifru garbage ans = .ok (changed, -1) →
        SameInterface glue changed
  retries :
    ∀ changed,
      cmd = tunSetIff →
      glue.implIoctl fd cmd ifru garbage ans = .ok (changed, -1) →
      ∀ correct : LinuxIfru,
        correct.flags = .ok tapFlags →
          ∃ final,
            changed.implIoctl fd tunSetIff correct garbage ans =
              .ok (final, 0)

/-- The request stores something new and is then rejected: a `TUNSETIFF` for
its flags, an address by the host. -/
def HalfMade
    (glue : Glue)
    (fd cmd : Int)
    (ifru : LinuxIfru)
    (garbage : InAddr)
    (ans : Int) : Prop :=
  (cmd = tunSetIff ∧ glue.tunFd = -1 ∧ fd ≠ -1 ∧
    ifru.flags ≠ .ok tapFlags) ∨
  (cmd = siocSifAddr ∧ ans = -1 ∧
    ∃ addr, ifru.sinAddr garbage = .ok addr ∧
      addr ≠ glue.tuntap.ipaddr) ∨
  (cmd = siocSifBrdAddr ∧ ans = -1 ∧
    ∃ addr, ifru.sinAddr garbage = .ok addr ∧
      addr ≠ glue.tuntap.brdaddr)

variable
  {glue changed : Glue}
  {fd cmd ans : Int}
  {ifru : LinuxIfru}
  {garbage : InAddr}

/-- The flags can be read from every request. -/
theorem flags_returns (ifru : LinuxIfru) :
    ∃ flags, LinuxIfru.flags ifru = .ok flags := by
  unfold LinuxIfru.flags
  rw [Buffer.byteAt_eq (by decide), ok_bind,
    Buffer.byteAt_eq (by decide), ok_bind]
  exact ⟨_, rfl⟩

/-- `TUNSETIFF` without a tap device. -/
theorem implIoctl_tap
    {flags : BitVec 16}
    (noTap : glue.tunFd = -1)
    (reads : LinuxIfru.flags ifru = .ok flags) :
    glue.implIoctl fd tunSetIff ifru garbage ans =
      if flags ≠ tapFlags then
        .ok ({ glue with tunFd := fd, errno := 25 }, -1)
      else
        .ok ({ glue with tunFd := fd }, 0) := by
  unfold implIoctl
  rw [if_pos rfl, if_neg (not_not.mpr noTap)]
  simp only [reads, ok_bind]

/-- `SIOCSIFADDR`. -/
theorem implIoctl_address
    {addr : InAddr}
    (reads : ifru.sinAddr garbage = .ok addr) :
    glue.implIoctl fd siocSifAddr ifru garbage ans =
      .ok ({ glue with tuntap := { glue.tuntap with ipaddr := addr } },
        ans) := by
  unfold implIoctl
  rw [if_neg (by decide), if_neg (by decide), if_neg (by decide),
    if_pos (by decide), reads, ok_bind]

/-- `SIOCSIFBRDADDR`. -/
theorem implIoctl_broadcast
    {addr : InAddr}
    (reads : ifru.sinAddr garbage = .ok addr) :
    glue.implIoctl fd siocSifBrdAddr ifru garbage ans =
      .ok ({ glue with tuntap := { glue.tuntap with brdaddr := addr } },
        ans) := by
  unfold implIoctl
  rw [if_neg (by decide), if_neg (by decide), if_neg (by decide),
    if_neg (by decide), if_neg (by decide), if_pos (by decide), reads,
    ok_bind]

/-- A request that fails is one of three, and each says what it has stored. -/
theorem implIoctl_failed
    (fails :
      glue.implIoctl fd cmd ifru garbage ans = .ok (changed, -1)) :
    (cmd = tunSetIff ∧ glue.tunFd = -1 ∧ ifru.flags ≠ .ok tapFlags ∧
        changed = { glue with tunFd := fd, errno := 25 }) ∨
      (ans = -1 ∧ changed = glue) ∨
      ∃ addr,
        ans = -1 ∧ ifru.sinAddr garbage = .ok addr ∧
          (cmd = siocSifAddr ∧
              changed =
                { glue with
                  tuntap := { glue.tuntap with ipaddr := addr } } ∨
            cmd = siocSifBrdAddr ∧
              changed =
                { glue with
                  tuntap := { glue.tuntap with brdaddr := addr } }) := by
  unfold implIoctl at fails
  split at fails
  · rename_i isTap
    split at fails
    · cases fails
    · rename_i noTap
      obtain ⟨flags, reads, rest⟩ := bind_eq_ok.mp fails
      split at rest
      · rename_i wrong
        cases rest
        refine .inl ⟨isTap, not_not.mp noTap, ?_, rfl⟩
        rw [reads]
        exact fun same => wrong (Except.ok.inj same)
      · cases rest
  · split at fails
    · obtain ⟨_, _, rest⟩ := bind_eq_ok.mp fails
      cases rest
    · split at fails
      · cases fails
      · split at fails
        · rename_i isAddr
          obtain ⟨addr, reads, rest⟩ := bind_eq_ok.mp fails
          cases rest
          exact .inr (.inr ⟨addr, rfl, reads, .inl ⟨isAddr, rfl⟩⟩)
        · split at fails
          · obtain ⟨_, _, rest⟩ := bind_eq_ok.mp fails
            cases rest
            exact .inr (.inl ⟨rfl, rfl⟩)
          · split at fails
            · rename_i isBroadcast
              obtain ⟨addr, reads, rest⟩ := bind_eq_ok.mp fails
              cases rest
              exact .inr (.inr ⟨addr, rfl, reads, .inr ⟨isBroadcast, rfl⟩⟩)
            · cases fails

/-- In every state, a request fails as a whole exactly when it is not half
made. -/
theorem failsWhole_iff :
    glue.FailsWhole fd cmd ifru garbage ans ↔
      ¬ glue.HalfMade fd cmd ifru garbage ans := by
  constructor
  · rintro whole (⟨rfl, noTap, isNew, wrong⟩ |
      ⟨rfl, rfl, addr, reads, isNew⟩ | ⟨rfl, rfl, addr, reads, isNew⟩)
    · obtain ⟨flags, isFlags⟩ := flags_returns ifru
      have differ : flags ≠ tapFlags := by
        rintro rfl
        exact wrong isFlags
      have fails := @implIoctl_tap glue fd ans ifru garbage _ noTap isFlags
      rw [if_pos differ] at fails
      exact isNew ((whole.unchanged _ fails).tunFd.trans noTap)
    · exact isNew (whole.unchanged _ (implIoctl_address reads)).ipaddr
    · exact isNew (whole.unchanged _ (implIoctl_broadcast reads)).brdaddr
  · intro notHalf
    have unchanged :
        ∀ changed,
          glue.implIoctl fd cmd ifru garbage ans = .ok (changed, -1) →
            SameInterface glue changed := by
      intro changed fails
      rcases implIoctl_failed fails with ⟨isTap, noTap, wrong, rfl⟩ |
        ⟨_, rfl⟩ |
        ⟨addr, isFailed, reads, ⟨isCmd, rfl⟩ | ⟨isCmd, rfl⟩⟩
      · refine ⟨?_, rfl, rfl, rfl⟩
        by_contra isNew
        exact notHalf (.inl ⟨isTap, noTap, noTap ▸ isNew, wrong⟩)
      · exact ⟨rfl, rfl, rfl, rfl⟩
      · refine ⟨rfl, rfl, ?_, rfl⟩
        by_contra isNew
        exact notHalf (.inr (.inl ⟨isCmd, isFailed, addr, reads, isNew⟩))
      · refine ⟨rfl, rfl, rfl, ?_⟩
        by_contra isNew
        exact notHalf (.inr (.inr ⟨isCmd, isFailed, addr, reads, isNew⟩))
    refine ⟨unchanged, ?_⟩
    rintro changed rfl fails correct reads
    have noTap : glue.tunFd = -1 := (implIoctl_tunSetIff fails).1
    have stillNoTap : changed.tunFd = -1 :=
      (unchanged changed fails).tunFd.trans noTap
    refine ⟨{ changed with tunFd := fd }, ?_⟩
    rw [implIoctl_tap stillNoTap reads, if_neg (not_not.mpr rfl)]

end Glue

namespace Process

/-- The call, if it is an `ioctl`, fails as a whole in this state. -/
def FailsWhole (process : Process) : SysCall → Prop
  | .ioctl fd cmd ifru garbage ans =>
      process.glue.FailsWhole fd cmd ifru garbage ans
  | _ => True

/-- The call is no `ioctl` that is rejected after it has stored something. -/
def CompletesOrKeeps (process : Process) : SysCall → Prop
  | .ioctl fd cmd ifru garbage ans =>
      ¬ process.glue.HalfMade fd cmd ifru garbage ans
  | _ => True

theorem failsWhole_iff_completesOrKeeps
    {process : Process}
    {call : SysCall} :
    process.FailsWhole call ↔ process.CompletesOrKeeps call := by
  cases call with
  | ioctl fd cmd ifru garbage ans =>
      exact Glue.failsWhole_iff
  | _ =>
      exact Iff.rfl

/-- In every state of a run a failing interface request changes nothing,
exactly when no request of the run is half made. -/
theorem failsWhole_everywhere_iff
    {start final : Process}
    {calls : List SysCall}
    (run : Run Step start calls final) :
    (∀ leading call trailing reached,
        calls = leading ++ call :: trailing →
        Run Step start leading reached →
        reached.FailsWhole call) ↔
      Run (fun process call next =>
          process.CompletesOrKeeps call ∧ process.Step call next)
        start calls final := by
  rw [run.everywhere_iff fun first second => step_functional first second]
  simp only [failsWhole_iff_completesOrKeeps]

/-- A request with the flags of a tun device. -/
def tunRequest : LinuxIfru :=
  .of [0x01, 0x10, 0, 0, 0, 0, 0, 0, 0, 0, 0, 0, 0, 0, 0, 0]

/-- A request with the flags of a tap device. -/
def correctRequest : LinuxIfru :=
  .of [0x02, 0x10, 0, 0, 0, 0, 0, 0, 0, 0, 0, 0, 0, 0, 0, 0]

/-- A netmask of `255.0.0.0`. -/
def netmaskRequest : LinuxIfru :=
  .of [0x02, 0x00, 0, 0, 255, 0, 0, 0, 0, 0, 0, 0, 0, 0, 0, 0]

/-- A tap device whose netmask the host rejects. -/
def netmaskRejected : List SysCall :=
  [.ioctl 3 tunSetIff correctRequest 0 0,
    .ioctl 3 35100 netmaskRequest 0 (-1)]

/-- The rejected netmask changed nothing. -/
theorem failsWhole_netmaskRejected :
    ∃ final,
      Run Step initial netmaskRejected final ∧
        ∀ leading call trailing reached,
          netmaskRejected = leading ++ call :: trailing →
          Run Step initial leading reached →
          reached.FailsWhole call := by
  have passes :
      reaches (fun _ => true) initial netmaskRejected = true := by
    decide
  obtain ⟨final, run, _⟩ := exists_run passes
  have neverHalf :
      ∀ call ∈ netmaskRejected,
        ∀ process : Process, process.CompletesOrKeeps call := by
    intro call member process
    have flags : correctRequest.flags = .ok tapFlags := rfl
    rcases List.mem_pair.mp member with rfl | rfl
    · rintro (⟨_, _, _, wrong⟩ | ⟨isCmd, _⟩ | ⟨isCmd, _⟩)
      · exact wrong flags
      · exact absurd isCmd (by decide)
      · exact absurd isCmd (by decide)
    · rintro (⟨isCmd, _⟩ | ⟨isCmd, _⟩ | ⟨isCmd, _⟩) <;>
        exact absurd isCmd (by decide)
  refine ⟨final, run, (failsWhole_everywhere_iff run).mpr ?_⟩
  exact (run.allowing neverHalf).imp fun step => ⟨step.1 _, step.2⟩

/-- A `TUNSETIFF` that is rejected for its flags leaves its descriptor in
`tun_fd`, and the next one aborts. -/
theorem not_failsWhole_tunRequest :
    (∃ final, Run Step initial
        [.ioctl 3 tunSetIff tunRequest 0 0] final) ∧
      ¬ initial.FailsWhole (.ioctl 3 tunSetIff tunRequest 0 0) ∧
      ∃ changed,
        Glue.initial.implIoctl 3 tunSetIff tunRequest 0 0 =
            .ok (changed, -1) ∧
          changed.implIoctl 3 tunSetIff correctRequest 0 0 =
            .error .aborted := by
  have passes :
      reaches (fun _ => true) initial
        [.ioctl 3 tunSetIff tunRequest 0 0] = true := by
    decide
  obtain ⟨final, run, _⟩ := exists_run passes
  refine ⟨⟨final, run⟩, ?_, _, rfl, rfl⟩
  intro whole
  have sameTun := (whole.unchanged _ rfl).tunFd
  exact absurd sameTun (by decide)

end Process

end Hamachi
