import Hamachi.EpollDescriptors

namespace Hamachi

/-!
# One event for each descriptor

A Linux `epoll_wait` reports a descriptor once, with all flags that it is ready
for.  `impl_epoll_wait` stores an event for each flag, so a descriptor that is
ready in two ways is reported once only if the array is full before its turn.
-/

section Sorted

variable
  {Item : Type}
  {key : Item → Int}
  {items : List Item}

/-- In a list sorted by a key the items below a bound come first. -/
theorem filter_append_filter_of_sorted
    (sorted :
      items.Pairwise fun first second => key first ≤ key second)
    (bound : Int) :
    items =
      items.filter (fun item => key item < bound) ++
        items.filter (fun item => bound ≤ key item) := by
  induction items with
  | nil =>
      rfl
  | cons head rest inductionHypothesis =>
      obtain ⟨least, later⟩ := List.pairwise_cons.mp sorted
      by_cases below : key head < bound
      · rw [List.filter_cons_of_pos (by simpa using below),
          List.filter_cons_of_neg (by simpa using below),
          List.cons_append, ← inductionHypothesis later]
      · have noneBelow :
            (head :: rest).filter (fun item => key item < bound) = [] := by
          refine List.filter_eq_nil_iff.mpr ?_
          intro item member
          have above : key head ≤ key item := by
            rcases List.mem_cons.mp member with rfl | inRest
            · exact le_rfl
            · exact least item inRest
          simp only [decide_eq_true_eq]
          omega
        have allAbove :
            (head :: rest).filter (fun item => bound ≤ key item) =
              head :: rest := by
          refine List.filter_eq_self.mpr ?_
          intro item member
          have above : key head ≤ key item := by
            rcases List.mem_cons.mp member with rfl | inRest
            · exact le_rfl
            · exact least item inRest
          simp only [decide_eq_true_eq]
          omega
        rw [noneBelow, allAbove, List.nil_append]

/-- The first `count` items of a list sorted by a key reach a value of the key
when there are fewer items below it. -/
theorem exists_mem_take_of_sorted
    (sorted :
      items.Pairwise fun first second => key first ≤ key second)
    {bound : Int}
    {count : Nat} :
    (∃ item ∈ items.take count, key item = bound) ↔
      (∃ item ∈ items, key item = bound) ∧
        (items.filter (fun item => key item < bound)).length < count := by
  have shape := filter_append_filter_of_sorted sorted bound
  constructor
  · rintro ⟨item, member, isBound⟩
    refine ⟨⟨item, List.mem_of_mem_take member, isBound⟩, ?_⟩
    by_contra few
    rw [shape, List.take_append_of_le_length (by omega)] at member
    have below := (List.mem_filter.mp (List.mem_of_mem_take member)).2
    simp [isBound] at below
  · rintro ⟨⟨item, member, isBound⟩, many⟩
    have isAbove :
        item ∈ items.filter fun item => bound ≤ key item :=
      List.mem_filter.mpr ⟨member, by simp [isBound]⟩
    obtain ⟨head, rest, above⟩ :=
      List.exists_cons_of_ne_nil (List.ne_nil_of_mem isAbove)
    have headAbove : bound ≤ key head := by
      have inAbove :
          head ∈ items.filter fun item => bound ≤ key item := by
        rw [above]
        exact List.mem_cons_self ..
      simpa using (List.mem_filter.mp inAbove).2
    have headLeast : key head ≤ key item := by
      have aboveSorted := sorted.filter (fun item => bound ≤ key item)
      rw [above] at aboveSorted isAbove
      rcases List.mem_cons.mp isAbove with rfl | inRest
      · exact le_rfl
      · exact (List.pairwise_cons.mp aboveSorted).1 item inRest
    refine ⟨head, ?_, by omega⟩
    obtain ⟨less, enough⟩ := Nat.exists_eq_add_of_lt many
    rw [shape, above, List.take_append, List.mem_append]
    right
    rw [enough, Nat.add_assoc, Nat.add_sub_cancel_left, List.take_succ_cons]
    exact List.mem_cons_self ..

end Sorted

namespace Glue

instance (glue : Glue) : Decidable glue.FakePending :=
  inferInstanceAs (Decidable (_ ∧ _))

instance
    (glue : Glue)
    (r w x : Finset Int) :
    (entry : Int × Readiness) → Decidable (glue.IsReady r w x entry)
  | (_, .input) => inferInstanceAs (Decidable (_ ∧ _ ∧ (_ ∨ _)))
  | (_, .output) => inferInstanceAs (Decidable (_ ∧ _ ∧ _ ∈ w))
  | (_, .error) => inferInstanceAs (Decidable (_ ∧ _ ∧ _ ∈ x))

/-- All ready entries, in the order of the reports. -/
def ready
    (glue : Glue)
    (r w x : Finset Int) :
    List (Int × Readiness) :=
  glue.readyFrom (decide glue.FakePending) r w x fdSetSize.toNat 0

/-- How many entries are reported before those of a descriptor. -/
def readyBefore
    (glue : Glue)
    (r w x : Finset Int)
    (fd : Int) : Nat :=
  ((glue.ready r w x).filter fun entry => entry.1 < fd).length

/-- The flag of a readiness, if the descriptor is ready in this way. -/
def flagIfReady
    (glue : Glue)
    (r w x : Finset Int)
    (fd : Int)
    (readiness : Readiness) : BitVec 32 :=
  if glue.IsReady r w x (fd, readiness) then readiness.flag else 0

/-- The union of the flags that a descriptor is ready for. -/
def readyFlags
    (glue : Glue)
    (r w x : Finset Int)
    (fd : Int) : BitVec 32 :=
  glue.flagIfReady r w x fd .input |||
    glue.flagIfReady r w x fd .output |||
    glue.flagIfReady r w x fd .error

/-- `select` leaves subsets of the interest sets, and the data that the caller
registered tell the watched descriptors apart. -/
structure Selected (glue : Glue) (r w x : Finset Int) : Prop where
  input : r ⊆ glue.epollIn
  output : w ⊆ glue.epollOut
  error : x ⊆ glue.epollErr
  distinct : Set.InjOn glue.epollPerFdData glue.interest

/-- A descriptor that is ready in two ways has `maxevents` entries of other
descriptors before it. -/
def SplitsNone
    (glue : Glue)
    (r w x : Finset Int)
    (maxevents : Int) : Prop :=
  ∀ fd first second,
    glue.IsReady r w x (fd, first) →
    glue.IsReady r w x (fd, second) →
    first ≠ second →
    maxevents ≤ glue.readyBefore r w x fd

end Glue

/-- The descriptors that a `select` leaves in the sets; a failed one reports
none. -/
def SelectResult.Leaves (r w x : Finset Int) : SelectResult → Prop
  | .failed _ => r = ∅ ∧ w = ∅ ∧ x = ∅
  | .returned r' w' x' => r' = r ∧ w' = w ∧ x' = x

/-- A wait reports no descriptor twice, and each with all its flags. -/
structure EpollWait.MergesFlags
    (wait : EpollWait)
    (glue : Glue)
    (r w x : Finset Int) : Prop where
  apart : (wait.ee.map EpollEvent.data).Nodup
  merged :
    ∀ event ∈ wait.ee,
      ∃ fd ∈ glue.interest,
        event.data = glue.epollPerFdData fd ∧
          event.events = glue.readyFlags r w x fd

namespace Glue

variable
  {glue : Glue}
  {r w x : Finset Int}

/-- Only the tap device among the scanned descriptors can make a difference
between two values of `need_fake`. -/
theorem readyFrom_congr
    {fake other : Bool}
    {left : Nat}
    {i : Int}
    (same :
      i ≤ glue.tunFd → glue.tunFd < i + left → fake = other) :
    glue.readyFrom fake r w x left i = glue.readyFrom other r w x left i := by
  induction left generalizing i with
  | zero =>
      rfl
  | succ left inductionHypothesis =>
      have here :
          glue.readyOf fake r w x i = glue.readyOf other r w x i := by
        by_cases isTun : i = glue.tunFd
        · rw [same (by omega) (by omega)]
        · simp [readyOf, isTun]
      rw [readyFrom, readyFrom, here,
        inductionHypothesis fun low high =>
          same (by omega) (by push_cast; omega)]

/-- The entries that the loop scans. -/
theorem readyFrom_needFake (beside : Int → Bool) :
    glue.readyFrom (glue.needFake beside) r w x fdSetSize.toNat 0 =
      glue.ready r w x := by
  refine readyFrom_congr fun _ below => ?_
  have inside : glue.tunFd < fdSetSize := by
    simpa [fdSetSize] using below
  rw [Bool.eq_iff_iff, decide_eq_true_eq, needFake_iff inside]

theorem mem_ready {entry : Int × Readiness} :
    entry ∈ glue.ready r w x ↔ glue.IsReady r w x entry := by
  rw [← readyFrom_needFake fun _ => false]
  exact mem_readyFrom_iff_isReady

theorem ready_pairwise : (glue.ready r w x).Pairwise Precedes :=
  readyFrom_pairwise _ _

/-- The entries are sorted by descriptor. -/
theorem ready_sorted :
    (glue.ready r w x).Pairwise fun first second => first.1 ≤ second.1 := by
  refine ready_pairwise.imp ?_
  rintro first second (less | same)
  · exact less.le
  · exact same.1.le

/-- A ready descriptor is watched. -/
theorem Selected.mem_interest
    (selected : glue.Selected r w x)
    {fd : Int}
    {readiness : Readiness}
    (isReady : glue.IsReady r w x (fd, readiness)) :
    fd ∈ glue.interest := by
  obtain ⟨_, _, source⟩ := isReady
  unfold interest
  cases readiness with
  | input =>
      rcases source with inSet | ⟨isTun, pending⟩
      · simp [selected.input inSet]
      · have sameFd : fd = glue.tunFd := isTun
        rw [sameFd]
        simp [pending.2.2.1]
  | output =>
      simp [selected.output source]
  | error =>
      simp [selected.error source]

/-- The flags of a descriptor that is ready in one way only. -/
theorem readyFlags_single
    {fd : Int}
    {readiness : Readiness}
    (isReady : glue.IsReady r w x (fd, readiness))
    (only :
      ∀ other, glue.IsReady r w x (fd, other) → other = readiness) :
    glue.readyFlags r w x fd = readiness.flag := by
  have flagIfReady_eq (other : Readiness) :
      glue.flagIfReady r w x fd other =
        if other = readiness then readiness.flag else 0 := by
    unfold flagIfReady
    by_cases same : other = readiness
    · rw [same, if_pos isReady, if_pos rfl]
    · rw [if_neg (mt (only other) same), if_neg same]
  unfold readyFlags
  rw [flagIfReady_eq, flagIfReady_eq, flagIfReady_eq]
  cases readiness <;> decide

/-- Flags that are those of one readiness show that there is no other. -/
theorem only_of_readyFlags
    {fd : Int}
    {readiness : Readiness}
    (flags : glue.readyFlags r w x fd = readiness.flag)
    {other : Readiness}
    (isReady : glue.IsReady r w x (fd, other)) :
    other = readiness := by
  have has : glue.readyFlags r w x fd &&& other.flag = other.flag := by
    have own : glue.flagIfReady r w x fd other = other.flag :=
      if_pos isReady
    unfold readyFlags
    cases other with
    | input =>
        rw [own]
        unfold flagIfReady
        split <;> split <;> decide
    | output =>
        rw [own]
        unfold flagIfReady
        split <;> split <;> decide
    | error =>
        rw [own]
        unfold flagIfReady
        split <;> split <;> decide
  rw [flags] at has
  cases readiness <;> cases other <;> first | rfl | exact absurd has (by decide)

/-- A ready descriptor with few entries before it is among those that fit. -/
theorem exists_mem_take
    {fd : Int}
    {readiness : Readiness}
    {count : Nat}
    (isReady : glue.IsReady r w x (fd, readiness))
    (early : glue.readyBefore r w x fd < count) :
    ∃ reached, (fd, reached) ∈ (glue.ready r w x).take count := by
  obtain ⟨⟨reached, other⟩, member, isReached⟩ :=
    (exists_mem_take_of_sorted ready_sorted).mpr
      ⟨⟨(fd, readiness), mem_ready.mpr isReady, rfl⟩, early⟩
  obtain rfl : reached = fd := isReached
  exact ⟨other, member⟩

/-- If no descriptor is split, one that fits is ready in one way only. -/
theorem SplitsNone.only
    {maxevents : Int}
    (splitsNone : glue.SplitsNone r w x maxevents)
    {entry : Int × Readiness}
    (member : entry ∈ (glue.ready r w x).take maxevents.toNat)
    {other : Readiness}
    (otherReady : glue.IsReady r w x (entry.1, other)) :
    other = entry.2 := by
  by_contra different
  have reached :=
    (exists_mem_take_of_sorted ready_sorted).mp ⟨entry, member, rfl⟩
  have full := splitsNone entry.1 other entry.2 otherReady
    (mem_ready.mp (List.mem_of_mem_take member)) different
  unfold readyBefore at full
  omega

/-- After a `select` that returns, the flags of each descriptor are merged
exactly when the reports reach no descriptor that is ready in two ways. -/
theorem mergesFlags_returned_iff
    (created : glue.epollRs ≠ 0)
    (maxevents timeout : Int)
    (beside : Int → Bool)
    {host : SelectCall → SelectResult}
    (returned :
      host (glue.selectCall timeout beside) = .returned r w x)
    (selected : glue.Selected r w x) :
    (glue.implEpollWait epollFd maxevents timeout beside host).MergesFlags
        glue r w x ↔
      glue.SplitsNone r w x maxevents := by
  obtain ⟨ee, waits, reported⟩ :=
    implEpollWait_returned created maxevents timeout beside returned
  rw [readyFrom_needFake] at reported
  rw [waits]
  constructor
  · intro merges fd first second firstReady secondReady different
    by_contra reaches
    have early : glue.readyBefore r w x fd < maxevents.toNat := by
      omega
    obtain ⟨readiness, member⟩ := exists_mem_take firstReady early
    have stored : glue.entryEvent (fd, readiness) ∈ ee := by
      rw [reported]
      exact List.mem_map_of_mem member
    obtain ⟨other, watched, sameData, merged⟩ :=
      merges.merged _ stored
    have isReady := mem_ready.mp (List.mem_of_mem_take member)
    have same : fd = other :=
      selected.distinct (selected.mem_interest isReady) watched sameData
    rw [← same] at merged
    have isFirst := only_of_readyFlags merged.symm firstReady
    have isSecond := only_of_readyFlags merged.symm secondReady
    exact different (isFirst.trans isSecond.symm)
  · intro splitsNone
    constructor
    · change (ee.map EpollEvent.data).Nodup
      rw [reported, List.map_map]
      refine List.pairwise_map.mpr ?_
      refine (ready_pairwise.sublist (List.take_sublist ..)).imp_of_mem ?_
      intro first second firstMember secondMember precedes sameData
      have firstReady := mem_ready.mp (List.mem_of_mem_take firstMember)
      have secondReady := mem_ready.mp (List.mem_of_mem_take secondMember)
      have sameFd : first.1 = second.1 :=
        selected.distinct (selected.mem_interest firstReady)
          (selected.mem_interest secondReady) sameData
      have sameReadiness : second.2 = first.2 :=
        splitsNone.only firstMember (sameFd ▸ secondReady)
      rcases precedes with less | later
      · omega
      · rw [sameReadiness] at later
        omega
    · intro event stored
      have stored : event ∈ ee := stored
      rw [reported] at stored
      obtain ⟨entry, member, rfl⟩ := List.mem_map.mp stored
      have isReady := mem_ready.mp (List.mem_of_mem_take member)
      exact ⟨entry.1, selected.mem_interest isReady, rfl,
        (readyFlags_single isReady
          fun _ otherReady => splitsNone.only member otherReady).symm⟩

/-- After a `select` that fails, a descriptor is ready for input at most. -/
theorem splitsNone_failed (maxevents : Int) :
    glue.SplitsNone ∅ ∅ ∅ maxevents := by
  have onlyInput
      {fd : Int}
      {readiness : Readiness}
      (isReady : glue.IsReady ∅ ∅ ∅ (fd, readiness)) :
      readiness = .input := by
    obtain ⟨_, _, source⟩ := isReady
    cases readiness with
    | input => rfl
    | output => exact absurd source (Finset.notMem_empty fd)
    | error => exact absurd source (Finset.notMem_empty fd)
  intro fd first second firstReady secondReady different
  exact absurd ((onlyInput firstReady).trans (onlyInput secondReady).symm)
    different

/-- A wait merges the flags of each descriptor exactly when it reaches no
descriptor that is ready in two ways. -/
theorem mergesFlags_iff_splitsNone
    (created : glue.epollRs ≠ 0)
    (maxevents timeout : Int)
    (beside : Int → Bool)
    {host : SelectCall → SelectResult}
    (leaves : (host (glue.selectCall timeout beside)).Leaves r w x)
    (selected : glue.Selected r w x) :
    (glue.implEpollWait epollFd maxevents timeout beside host).MergesFlags
        glue r w x ↔
      glue.SplitsNone r w x maxevents := by
  cases outcome : host (glue.selectCall timeout beside) with
  | failed errno =>
      rw [outcome] at leaves
      obtain ⟨rfl, rfl, rfl⟩ := leaves
      have nothing :
          (glue.implEpollWait epollFd maxevents timeout beside host).ee =
            [] := by
        unfold implEpollWait
        rw [if_neg (by simp [created])]
        simp only [outcome]
      refine ⟨fun _ => splitsNone_failed maxevents, fun _ => ⟨?_, ?_⟩⟩
      · rw [nothing]
        exact List.nodup_nil
      · intro event stored
        rw [nothing] at stored
        cases stored
  | returned r' w' x' =>
      rw [outcome] at leaves
      obtain ⟨rfl, rfl, rfl⟩ := leaves
      exact mergesFlags_returned_iff created maxevents timeout beside
        outcome selected

/-- An epoll instance that watches two descriptors for input and output. -/
def watchingTwo : Glue :=
  { initial with
    epollRs := 4104
    epollIn := {5, 7}
    epollOut := {5, 7}
    epollPerFdData := fun fd => if fd = 5 then 105 else 107 }

theorem watchingTwo_selected
    {r w : Finset Int}
    (input : r ⊆ {5, 7})
    (output : w ⊆ {5, 7}) :
    watchingTwo.Selected r w ∅ where
  input := input
  output := output
  error := Finset.empty_subset _
  distinct := by
    have watched : watchingTwo.interest = {5, 7} := by
      decide
    intro first firstMember second secondMember same
    rw [watched] at firstMember secondMember
    simp only [Finset.coe_insert, Finset.coe_singleton,
      Set.mem_insert_iff, Set.mem_singleton_iff] at firstMember secondMember
    rcases firstMember with rfl | rfl <;>
      rcases secondMember with rfl | rfl
    · rfl
    · exact absurd same (by decide)
    · exact absurd same (by decide)
    · rfl

/-- One descriptor to read from and one to write to. -/
theorem mergesFlags_apart :
    (watchingTwo.implEpollWait epollFd 4 (-1) (fun _ => false)
        (fun _ => .returned {5} {7} ∅)).MergesFlags
      watchingTwo {5} {7} ∅ := by
  have leaves :
      SelectResult.Leaves {5} {7} ∅ (.returned {5} {7} ∅) :=
    ⟨rfl, rfl, rfl⟩
  refine (@mergesFlags_iff_splitsNone watchingTwo {5} {7} ∅ (by decide) 4
    (-1) (fun _ => false) (fun _ => .returned {5} {7} ∅) leaves
    (watchingTwo_selected (by decide) (by decide))).mpr ?_
  intro fd first second firstReady secondReady different
  obtain ⟨_, _, firstSource⟩ := firstReady
  obtain ⟨_, _, secondSource⟩ := secondReady
  cases first <;> cases second <;>
    simp_all [FakePending, watchingTwo, initial]

/-- A descriptor that is ready for input and output is reported twice. -/
theorem not_mergesFlags_twoWays :
    watchingTwo.Selected {7} {7} ∅ ∧
      ¬ (watchingTwo.implEpollWait epollFd 2 (-1) (fun _ => false)
          (fun _ => .returned {7} {7} ∅)).MergesFlags
        watchingTwo {7} {7} ∅ := by
  refine ⟨watchingTwo_selected (by decide) (by decide), ?_⟩
  intro merges
  have reported :
      (watchingTwo.implEpollWait epollFd 2 (-1) (fun _ => false)
          (fun _ => .returned {7} {7} ∅)).ee =
        [⟨Hamachi.epollIn, 107⟩, ⟨Hamachi.epollOut, 107⟩] := by
    decide
  have apart := merges.apart
  rw [reported] at apart
  exact absurd apart (by decide)

end Glue

end Hamachi
