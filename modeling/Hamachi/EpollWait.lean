import Hamachi.GlueDevices

namespace Hamachi

/-!
# Waiting for events

`impl_epoll_wait` asks the host's `select` for the three interest sets, then
scans the descriptors in order and stores one event for each readiness, as long
as the caller's array has room.  A pending ARP reply makes the tap device
readable without the host's knowledge.
-/

section

variable {Item : Type}

/-- Append an item to a list that may not outgrow `room`. -/
def appendWithin (room : Int) (stored : List Item) (item : Item) : List Item :=
  if (stored.length : Int) < room then stored ++ [item] else stored

/-- Appending within a room keeps the first items that fit. -/
theorem foldl_appendWithin
    {room : Int}
    {stored items : List Item}
    (fits : stored.length ≤ room.toNat) :
    items.foldl (appendWithin room) stored =
      (stored ++ items).take room.toNat := by
  induction items generalizing stored with
  | nil =>
      rw [List.append_nil, List.take_of_length_le fits]
      rfl
  | cons item rest inductionHypothesis =>
      rw [List.foldl_cons, appendWithin]
      split
      · rename_i hasRoom
        rw [inductionHypothesis (by simp; omega)]
        simp
      · rename_i full
        have isFull : stored.length = room.toNat := by
          omega
        rw [inductionHypothesis fits, ← isFull, List.take_left,
          List.take_left]

/-- A full list takes no more items. -/
theorem foldl_appendWithin_full
    {room : Int}
    {stored : List Item}
    (full : ¬ (stored.length : Int) < room)
    (items : List Item) :
    items.foldl (appendWithin room) stored = stored := by
  induction items with
  | nil =>
      rfl
  | cons item rest inductionHypothesis =>
      rw [List.foldl_cons, appendWithin, if_neg full]
      exact inductionHypothesis

end

/-- `struct timeval`. -/
structure Timeval where
  tvSec : Int
  tvUsec : Int
  deriving DecidableEq

/-- The arguments of `select` after the number of descriptors; no timeout is a
wait without limit. -/
structure SelectCall where
  readfds : Finset Int
  writefds : Finset Int
  exceptfds : Finset Int
  timeout : Option Timeval

/-- What `select` returns, and leaves in the three sets. -/
inductive SelectResult where
  | failed (errno : Int)
  | returned (r w x : Finset Int)

/-- What one `impl_epoll_wait` does: the `select` it makes, if any, and the
events it stores. -/
structure EpollWait where
  glue : Glue
  call : Option SelectCall
  ee : List EpollEvent
  ret : Int

/-- `FD_ISSET`; for a descriptor beyond the set it reads the bits beside it. -/
def fdIsSet (beside : Int → Bool) (fd : Int) (set : Finset Int) : Bool :=
  if 0 ≤ fd ∧ fd < fdSetSize then fd ∈ set else beside fd

namespace Glue

/-- `tuntap_has_fake_pkt`. -/
def tuntapHasFakePkt (glue : Glue) : Bool :=
  glue.tuntap.fakepktSz ≠ 0

/-- The condition under which `need_fake` is set. -/
def needFake (glue : Glue) (beside : Int → Bool) : Bool :=
  0 ≤ glue.tunFd && fdIsSet beside glue.tunFd glue.epollIn &&
    glue.tuntapHasFakePkt

/-- The `select` of `impl_epoll_wait`. -/
def selectCall
    (glue : Glue)
    (timeout : Int)
    (beside : Int → Bool) :
    SelectCall :=
  let ts :=
    if glue.needFake beside then
      ⟨0, 0⟩
    else
      ⟨timeout.tdiv 1000, timeout.tmod 1000 * 1000⟩
  let timeout := if glue.needFake beside then 0 else timeout
  {
    readfds := glue.epollIn
    writefds := glue.epollOut
    exceptfds := glue.epollErr
    timeout := if timeout = -1 then none else some ts
  }

/-- The event stored for a descriptor. -/
def eventOf (glue : Glue) (flag : BitVec 32) (i : Int) : EpollEvent :=
  ⟨flag, glue.epollPerFdData i⟩

/-- The body of the loop of `impl_epoll_wait`; `idx` is the length of `ee`. -/
def reportFd
    (glue : Glue)
    (needFake : Bool)
    (r w x : Finset Int)
    (maxevents : Int)
    (ee : List EpollEvent)
    (i : Int) :
    List EpollEvent :=
  let ee :=
    if (ee.length : Int) < maxevents ∧ i ∈ r then
      ee ++ [glue.eventOf Hamachi.epollIn i]
    else if (ee.length : Int) < maxevents ∧ i = glue.tunFd ∧ needFake then
      ee ++ [glue.eventOf Hamachi.epollIn i]
    else
      ee
  let ee :=
    if (ee.length : Int) < maxevents ∧ i ∈ w then
      ee ++ [glue.eventOf Hamachi.epollOut i]
    else
      ee
  if (ee.length : Int) < maxevents ∧ i ∈ x then
    ee ++ [glue.eventOf Hamachi.epollErr i]
  else
    ee

/-- `for(int i = 0; i < FD_SETSIZE && idx < maxevents; i++)`, with `left`
descriptors to go. -/
def reportFds
    (glue : Glue)
    (needFake : Bool)
    (r w x : Finset Int)
    (maxevents : Int) :
    Nat → Int → List EpollEvent → List EpollEvent
  | 0, _, ee => ee
  | left + 1, i, ee =>
      if (ee.length : Int) < maxevents then
        reportFds glue needFake r w x maxevents left (i + 1)
          (glue.reportFd needFake r w x maxevents ee i)
      else
        ee

/-- `impl_epoll_wait`; `host` is the host's `select`. -/
def implEpollWait
    (glue : Glue)
    (fd maxevents timeout : Int)
    (beside : Int → Bool)
    (host : SelectCall → SelectResult) :
    EpollWait :=
  if fd ≠ epollFd ∨ glue.epollRs = 0 then
    { glue := { glue with errno := 9 }, call := none, ee := [], ret := -1 }
  else
    let call := glue.selectCall timeout beside
    match host call with
    | .failed errno =>
        {
          glue := { glue with errno := errno }
          call := some call
          ee := []
          ret := -1
        }
    | .returned r w x =>
        let ee := glue.reportFds (glue.needFake beside) r w x maxevents
          fdSetSize.toNat 0 []
        { glue := glue, call := some call, ee := ee, ret := ee.length }

end Glue

/-- What a descriptor may be ready for, in the order of the reports. -/
inductive Readiness where
  | input
  | output
  | error
  deriving DecidableEq

namespace Readiness

/-- The flag that reports a readiness. -/
def flag : Readiness → BitVec 32
  | .input => epollIn
  | .output => epollOut
  | .error => epollErr

/-- The place of a readiness among those of one descriptor. -/
def rank : Readiness → Nat
  | .input => 0
  | .output => 1
  | .error => 2

end Readiness

/-- The order of reports: by descriptor, then by readiness. -/
def Precedes (first second : Int × Readiness) : Prop :=
  first.1 < second.1 ∨
    first.1 = second.1 ∧ first.2.rank < second.2.rank

namespace Glue

/-- An ARP reply waits for a reader of the tap device. -/
def FakePending (glue : Glue) : Prop :=
  0 ≤ glue.tunFd ∧ glue.tunFd < fdSetSize ∧
    glue.tunFd ∈ glue.epollIn ∧ glue.tuntap.fakepktSz ≠ 0

/-- The event that reports an entry. -/
def entryEvent (glue : Glue) (entry : Int × Readiness) : EpollEvent :=
  glue.eventOf entry.2.flag entry.1

/-- A descriptor is ready, by the host's answer or for a pending reply. -/
def IsReady
    (glue : Glue)
    (r w x : Finset Int)
    (entry : Int × Readiness) : Prop :=
  0 ≤ entry.1 ∧ entry.1 < fdSetSize ∧
    match entry.2 with
    | .input => entry.1 ∈ r ∨ entry.1 = glue.tunFd ∧ glue.FakePending
    | .output => entry.1 ∈ w
    | .error => entry.1 ∈ x

end Glue

/-- A wait reports the first `maxevents` of all ready entries, in order, and
does not block on a pending reply. -/
structure EpollWait.ReportsFirst
    (wait : EpollWait)
    (glue : Glue)
    (r w x : Finset Int)
    (maxevents : Int) : Prop where
  events :
    ∃ ready : List (Int × Readiness),
      ready.Pairwise Precedes ∧
        (∀ entry, entry ∈ ready ↔ glue.IsReady r w x entry) ∧
        wait.ee = (ready.take maxevents.toNat).map glue.entryEvent ∧
        wait.ret = wait.ee.length
  neverBlocks :
    glue.FakePending →
      ∃ call, wait.call = some call ∧ call.timeout = some ⟨0, 0⟩

namespace Glue

variable
  {glue : Glue}
  {fake : Bool}
  {r w x : Finset Int}
  {maxevents : Int}

/-- The entries of one descriptor. -/
def readyOf
    (glue : Glue)
    (fake : Bool)
    (r w x : Finset Int)
    (i : Int) :
    List (Int × Readiness) :=
  (if i ∈ r ∨ i = glue.tunFd ∧ fake then [(i, .input)] else []) ++
    (if i ∈ w then [(i, .output)] else []) ++
    (if i ∈ x then [(i, .error)] else [])

/-- The entries of `left` descriptors from `i` on. -/
def readyFrom
    (glue : Glue)
    (fake : Bool)
    (r w x : Finset Int) :
    Nat → Int → List (Int × Readiness)
  | 0, _ => []
  | left + 1, i =>
      glue.readyOf fake r w x i ++
        readyFrom glue fake r w x left (i + 1)

/-- The body of the loop appends the entries of a descriptor while there is
room: of the two sources of input it takes one only. -/
theorem reportFd_eq
    (ee : List EpollEvent)
    (i : Int) :
    glue.reportFd fake r w x maxevents ee i =
      ((glue.readyOf fake r w x i).map glue.entryEvent).foldl
        (appendWithin maxevents) ee := by
  have input (ee : List EpollEvent) :
      (if (ee.length : Int) < maxevents ∧ i ∈ r then
          ee ++ [glue.eventOf Hamachi.epollIn i]
        else if (ee.length : Int) < maxevents ∧ i = glue.tunFd ∧ fake then
          ee ++ [glue.eventOf Hamachi.epollIn i]
        else
          ee) =
        ((if i ∈ r ∨ i = glue.tunFd ∧ fake then
            [(i, Readiness.input)]
          else
            []).map glue.entryEvent).foldl (appendWithin maxevents) ee := by
    by_cases hasRoom : (ee.length : Int) < maxevents
    · by_cases real : i ∈ r
      · simp [hasRoom, real, appendWithin, entryEvent, Readiness.flag]
      · simp only [hasRoom, real, true_and, false_or, if_false]
        split
        · simp [hasRoom, appendWithin, entryEvent, Readiness.flag]
        · rfl
    · rw [foldl_appendWithin_full hasRoom]
      simp [hasRoom]
  have single
      (readiness : Readiness)
      (ready : Prop)
      [Decidable ready]
      (ee : List EpollEvent) :
      (if (ee.length : Int) < maxevents ∧ ready then
          ee ++ [glue.eventOf readiness.flag i]
        else
          ee) =
        ((if ready then [(i, readiness)] else []).map
          glue.entryEvent).foldl (appendWithin maxevents) ee := by
    by_cases isReady : ready
    · simp [isReady, appendWithin, entryEvent]
    · simp [isReady]
  unfold reportFd readyOf
  simp only [List.map_append, List.foldl_append]
  rw [input, ← single .output, ← single .error]
  rfl

/-- The loop appends the entries of all its descriptors while there is room. -/
theorem reportFds_eq
    {left : Nat}
    (i : Int)
    (ee : List EpollEvent) :
    glue.reportFds fake r w x maxevents left i ee =
      ((glue.readyFrom fake r w x left i).map glue.entryEvent).foldl
        (appendWithin maxevents) ee := by
  induction left generalizing i ee with
  | zero =>
      rfl
  | succ left inductionHypothesis =>
      rw [reportFds]
      split
      · rw [inductionHypothesis, reportFd_eq, readyFrom, List.map_append,
          List.foldl_append]
      · rename_i full
        exact (foldl_appendWithin_full full _).symm

/-- Membership in the entries of one descriptor. -/
theorem mem_readyOf
    {i : Int}
    {entry : Int × Readiness} :
    entry ∈ glue.readyOf fake r w x i ↔
      entry.1 = i ∧
        match entry.2 with
        | .input => i ∈ r ∨ i = glue.tunFd ∧ fake
        | .output => i ∈ w
        | .error => i ∈ x := by
  obtain ⟨fd, readiness⟩ := entry
  cases readiness with
  | input =>
      simp [readyOf, and_comm]
  | output =>
      simp [readyOf, and_comm]
  | error =>
      simp [readyOf, and_comm]

/-- Membership in the entries of a range of descriptors. -/
theorem mem_readyFrom
    {left : Nat}
    {i : Int}
    {entry : Int × Readiness} :
    entry ∈ glue.readyFrom fake r w x left i ↔
      i ≤ entry.1 ∧ entry.1 < i + left ∧
        entry ∈ glue.readyOf fake r w x entry.1 := by
  induction left generalizing i with
  | zero =>
      simp only [readyFrom, List.not_mem_nil, false_iff]
      omega
  | succ left inductionHypothesis =>
      rw [readyFrom, List.mem_append, inductionHypothesis]
      constructor
      · rintro (first | later)
        · have isFirst := (mem_readyOf.mp first).1
          exact ⟨by omega, by omega, isFirst ▸ first⟩
        · exact ⟨by omega, by omega, later.2.2⟩
      · rintro ⟨low, high, member⟩
        rcases Int.lt_or_eq_of_le low with later | isFirst
        · exact .inr ⟨by omega, by omega, member⟩
        · rw [isFirst]
          exact .inl member

/-- The entries of one descriptor are in order. -/
theorem readyOf_pairwise (i : Int) :
    (glue.readyOf fake r w x i).Pairwise Precedes := by
  unfold readyOf
  split <;> split <;> split <;>
    simp [Precedes, Readiness.rank]

/-- The entries of a range of descriptors are in order. -/
theorem readyFrom_pairwise
    (left : Nat)
    (i : Int) :
    (glue.readyFrom fake r w x left i).Pairwise Precedes := by
  induction left generalizing i with
  | zero =>
      exact .nil
  | succ left inductionHypothesis =>
      rw [readyFrom, List.pairwise_append]
      refine ⟨readyOf_pairwise i, inductionHypothesis (i + 1), ?_⟩
      intro first isFirst later isLater
      have atFirst := (mem_readyOf.mp isFirst).1
      have atLater := (mem_readyFrom.mp isLater).1
      exact .inl (by omega)

/-- Within the sets `need_fake` says that a reply is pending. -/
theorem needFake_iff
    {beside : Int → Bool}
    (inside : glue.tunFd < fdSetSize) :
    glue.needFake beside = true ↔ glue.FakePending := by
  unfold needFake FakePending fdIsSet tuntapHasFakePkt
  by_cases nonnegative : 0 ≤ glue.tunFd
  · simp [nonnegative, inside]
  · simp [nonnegative]

/-- The scanned entries are the ready ones. -/
theorem mem_readyFrom_iff_isReady
    {beside : Int → Bool}
    {entry : Int × Readiness} :
    entry ∈ glue.readyFrom (glue.needFake beside) r w x
        fdSetSize.toNat 0 ↔
      glue.IsReady r w x entry := by
  have size : ((fdSetSize.toNat : Nat) : Int) = fdSetSize := rfl
  rw [mem_readyFrom, mem_readyOf, IsReady, size, Int.zero_add]
  refine and_congr_right fun _ => and_congr_right fun below => ?_
  rw [and_iff_right rfl]
  cases entry.2 with
  | input =>
      refine or_congr_right (and_congr_right fun isTun => ?_)
      exact needFake_iff (isTun ▸ below)
  | output =>
      exact Iff.rfl
  | error =>
      exact Iff.rfl

/-- What a wait returns after a successful `select`. -/
theorem implEpollWait_returned
    (created : glue.epollRs ≠ 0)
    (maxevents timeout : Int)
    (beside : Int → Bool)
    {host : SelectCall → SelectResult}
    (selected :
      host (glue.selectCall timeout beside) = .returned r w x) :
    ∃ ee,
      glue.implEpollWait epollFd maxevents timeout beside host =
          {
            glue := glue
            call := some (glue.selectCall timeout beside)
            ee := ee
            ret := ee.length
          } ∧
        ee =
          ((glue.readyFrom (glue.needFake beside) r w x
            fdSetSize.toNat 0).take maxevents.toNat).map
              glue.entryEvent := by
  refine ⟨glue.reportFds (glue.needFake beside) r w x maxevents
    fdSetSize.toNat 0 [], ?_, ?_⟩
  · unfold implEpollWait
    rw [if_neg (by simp [created])]
    simp only [selected]
  · rw [reportFds_eq, foldl_appendWithin (Nat.zero_le _),
      List.nil_append, List.map_take]

/-- After a successful `select` the wait reports the first `maxevents` of all
ready entries. -/
theorem implEpollWait_reportsFirst
    (created : glue.epollRs ≠ 0)
    (maxevents timeout : Int)
    (beside : Int → Bool)
    {host : SelectCall → SelectResult}
    (selected :
      host (glue.selectCall timeout beside) = .returned r w x) :
    (glue.implEpollWait epollFd maxevents timeout beside host).ReportsFirst
      glue r w x maxevents := by
  obtain ⟨ee, waits, reported⟩ :=
    implEpollWait_returned created maxevents timeout beside selected
  rw [waits]
  constructor
  · refine ⟨glue.readyFrom (glue.needFake beside) r w x
      fdSetSize.toNat 0, readyFrom_pairwise _ _, ?_, reported, rfl⟩
    intro entry
    exact mem_readyFrom_iff_isReady
  · intro pending
    refine ⟨_, rfl, ?_⟩
    have needed : glue.needFake beside = true :=
      (needFake_iff pending.2.1).mpr pending
    simp [selectCall, needed]

/-- An epoll instance that waits for the tap device and one more descriptor,
with an ARP reply pending. -/
def replyPending : Glue :=
  { initial with
    epollRs := 4104
    tunFd := 4
    epollIn := {4, 7}
    epollOut := {7}
    tuntap := { initial.tuntap with fakepktSz := 42 } }

/-- Input on both descriptors, and room for two events. -/
theorem implEpollWait_replyPending :
    (replyPending.implEpollWait epollFd 2 (-1) (fun _ => false)
        (fun _ => .returned {4, 7} {7} ∅)).ReportsFirst
      replyPending {4, 7} {7} ∅ 2 :=
  implEpollWait_reportsFirst (by decide) 2 (-1) (fun _ => false) rfl

end Glue

end Hamachi
