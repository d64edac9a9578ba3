import Hamachi.AddressReturns
import Hamachi.AddrinfoList

namespace Hamachi

/-!
# Conversion and release of address lists

Converting puts one resource for each node in front of the others, the newest
first; releasing removes them again.  `strdup` does not take a null pointer, so
only lists whose nodes all have a canonical name are converted.
-/

open Handles

/-- A resource of the process. -/
abbrev Node := Tracked AddrinfoFree AddrinfoBlock

/-- A node of the host and the allocations for its copy. -/
abbrev NodePlan := HostAddrinfo × Allocation

/-- The fields of the copy of a node, as `fill` leaves them. -/
def filled
    (arg : HostAddrinfo)
    (allocation : Allocation)
    (l : Nat) : Addrinfo :=
  { allocation.ai with
    aiFlags := arg.aiFlags
    aiFamily := linuxAiFamily arg.aiFamily
    aiSocktype := arg.aiSocktype
    aiProtocol := arg.aiProtocol
    aiAddrlen := l
    aiAddr := handleOf allocation.buf + saOffset
    aiCanonname := allocation.name }

/-- The resource that holds a node. -/
def nodeAt (buf : Addr) (ai : Addrinfo) (sa : LinuxAddr) : Node where
  block := buf
  free := .resAddrinfo
  payload := .laax ai sa

/-- Every node has a canonical name. -/
def AllNamed (nodes : List NodePlan) : Prop :=
  ∀ node ∈ nodes, node.1.canonname.isSome

/-- `malloc` returned blocks that were free, for the nodes and for the names. -/
structure FreshBlocks (resolver : Resolver) (nodes : List NodePlan) : Prop where
  bufs : ∀ node ∈ nodes, resolver.handles.heap.Available node.2.buf
  bufsApart : (nodes.map fun node => node.2.buf).Nodup
  names : ∀ node ∈ nodes, resolver.state.strings.Available node.2.name
  namesApart : (nodes.map fun node => node.2.name).Nodup

/-- Allocating the block of the first node leaves those of the others
available. -/
theorem available_of_grows
    {Block : Type}
    {heap grown : Heap Block}
    {key : NodePlan → Addr}
    {node : NodePlan}
    {rest : List NodePlan}
    (available : ∀ later ∈ node :: rest, heap.Available (key later))
    (apart : ((node :: rest).map key).Nodup)
    (grows : grown.live = insert (key node) heap.live) :
    ∀ later ∈ rest, grown.Available (key later) := by
  intro later member
  obtain ⟨nonNull, notLive⟩ := available later (List.mem_cons_of_mem _ member)
  refine ⟨nonNull, ?_⟩
  rw [grows, Finset.mem_insert]
  rintro (same | isOld)
  · exact (List.nodup_cons.mp apart).1
      (List.mem_map.mpr ⟨later, member, same⟩)
  · exact notLive isOld

/-- The strings after the names have been copied. -/
def copyNames :
    List NodePlan → Heap (List Byte) → Heap (List Byte)
  | [], strings => strings
  | (arg, allocation) :: rest, strings =>
      copyNames rest
        (strings.malloc allocation.name (arg.canonname.getD []))

/-- The resources of a converted list and the handle of the first. -/
inductive Converted : List NodePlan → Addr → List Node → Prop where
  | nil : Converted [] 0 []
  | cons
      {arg : HostAddrinfo}
      {allocation : Allocation}
      {rest : List NodePlan}
      {next : Addr}
      {nodes : List Node}
      {sa : LinuxAddr}
      {l : Nat}
      (converts :
        bsdAddrToLinuxAddr arg.addr allocation.sa = .ok (sa, l))
      (later : Converted rest next nodes) :
      Converted ((arg, allocation) :: rest) (handleOf allocation.buf)
        (nodeAt allocation.buf
          { filled arg allocation l with aiNext := next } sa :: nodes)

/-- There is a copy for each node. -/
theorem Converted.length
    {nodes : List NodePlan}
    {first : Addr}
    {copies : List Node}
    (converted : Converted nodes first copies) :
    copies.length = nodes.length := by
  induction converted with
  | nil => rfl
  | cons _ _ inductionHypothesis =>
      exact congrArg Nat.succ inductionHypothesis

/-- The resources that a store through `ans` leaves. -/
def relink (i : Addr) : Ans → List Node → List Node
  | .next _, ⟨block, free, .laax ai sa⟩ :: rest =>
      ⟨block, free, .laax { ai with aiNext := i } sa⟩ :: rest
  | _, resources => resources

/-- `ans` is the variable of the caller, or it leads to the newest resource. -/
def Leads : Ans → List Node → Prop
  | .res, _ => True
  | .next owner, resources =>
      ∃ block ai sa rest,
        owner = handleOf block ∧ resources = nodeAt block ai sa :: rest

theorem leads_res (resources : List Node) : Leads .res resources :=
  trivial

@[simp] theorem relink_res (i : Addr) (resources : List Node) :
    relink i .res resources = resources :=
  rfl

theorem leads_next
    (buf : Addr)
    (ai : Addrinfo)
    (sa : LinuxAddr)
    (rest : List Node) :
    Leads (.next (handleOf buf)) (nodeAt buf ai sa :: rest) :=
  ⟨buf, ai, sa, rest, rfl, rfl⟩

/-- The variable of the caller after a store through `ans`. -/
def resAfter (res i : Addr) : Ans → Addr
  | .res => i
  | .next _ => res

section Strings

variable {strings : Heap (List Byte)} {nodes : List NodePlan}

/-- Copying names leaves the other strings alone. -/
theorem copyNames_load_other
    {address : Addr}
    (others : ∀ node ∈ nodes, address ≠ node.2.name) :
    (copyNames nodes strings).load address = strings.load address := by
  induction nodes generalizing strings with
  | nil => rfl
  | cons node rest inductionHypothesis =>
      obtain ⟨arg, allocation⟩ := node
      refine (inductionHypothesis
        (List.forall_mem_of_forall_mem_cons others)).trans ?_
      exact Heap.load_malloc_other _ (others _ List.mem_cons_self) _

/-- Every name is copied. -/
theorem copyNames_load
    (nonNull : ∀ node ∈ nodes, node.2.name ≠ 0)
    (apart : (nodes.map fun node => node.2.name).Nodup)
    {node : NodePlan}
    (member : node ∈ nodes) :
    (copyNames nodes strings).load node.2.name =
      .ok (node.1.canonname.getD []) := by
  induction nodes generalizing strings with
  | nil => cases member
  | cons first rest inductionHypothesis =>
      obtain ⟨notLater, restApart⟩ := List.nodup_cons.mp apart
      rcases List.mem_cons.mp member with rfl | inRest
      · have others :
            ∀ later ∈ rest, node.2.name ≠ later.2.name := by
          intro later isLater same
          exact notLater (List.mem_map.mpr ⟨later, isLater, same.symm⟩)
        refine (copyNames_load_other others).trans ?_
        exact Heap.load_malloc_same _
          (nonNull node List.mem_cons_self) _
      · exact inductionHypothesis
          (List.forall_mem_of_forall_mem_cons nonNull)
          restApart inRest

/-- The copies are the new live strings. -/
theorem copyNames_live
    (nonNull : ∀ node ∈ nodes, node.2.name ≠ 0) :
    (copyNames nodes strings).live =
      (nodes.map fun node => node.2.name).toFinset ∪ strings.live := by
  induction nodes generalizing strings with
  | nil => simp [copyNames]
  | cons first rest inductionHypothesis =>
      obtain ⟨arg, allocation⟩ := first
      refine (inductionHypothesis
        (List.forall_mem_of_forall_mem_cons nonNull)).trans ?_
      rw [Heap.live_malloc _ (nonNull _ List.mem_cons_self),
        List.map_cons, List.toFinset_cons, Finset.union_insert,
        Finset.insert_union]

end Strings

namespace Resolver

variable
  {resolver : Resolver}
  {resources leading trailing : List Node}
  {arg : HostAddrinfo}
  {allocation : Allocation}
  {rest nodes : List NodePlan}
  {ans : Ans}

/-- A node of the list of resources can be read. -/
theorem laaxAt_node
    {buf : Addr}
    {ai : Addrinfo}
    {sa : LinuxAddr}
    (represents :
      Represents resolver.handles
        (leading ++ nodeAt buf ai sa :: trailing)) :
    resolver.laaxAt (handleOf buf) = .ok (ai, sa) := by
  obtain ⟨_, loaded, _⟩ := represents.load_block
  have readable :
      resolver.handles.heap.load (resourceOf (handleOf buf)) = _ :=
    (congrArg _ (resourceOf_handleOf buf)).trans loaded
  unfold laaxAt
  rw [readable]
  rfl

/-- The garbage of a new block is converted into. -/
theorem exists_conversion (arg : HostAddrinfo) (garbage : LinuxAddr) :
    ∃ sa l, bsdAddrToLinuxAddr arg.addr garbage = .ok (sa, l) := by
  obtain ⟨converted, converts, _⟩ :=
    bsdAddrToLinuxAddr_returns
      (@Buffer.byteAt_eq _ arg.addr 1 (by decide)) garbage
  exact ⟨converted, _, converts⟩

/-- A new block is filled with a node that has a canonical name. -/
theorem fill_spec
    {sa : LinuxAddr}
    {l : Nat}
    {text : List Byte}
    (represents :
      Represents resolver.handles
        (nodeAt allocation.buf allocation.ai allocation.sa :: resources))
    (converts :
      bsdAddrToLinuxAddr arg.addr allocation.sa = .ok (sa, l))
    (named : arg.canonname = some text) :
    ∃ handles,
      resolver.fill (handleOf allocation.buf) arg allocation.name =
          .ok { resolver with
            handles := handles
            state := { resolver.state with
              strings :=
                resolver.state.strings.malloc allocation.name text } } ∧
        Represents handles
          (nodeAt allocation.buf (filled arg allocation l) sa ::
            resources) := by
  have isFirst :
      Represents resolver.handles
        ([] ++ nodeAt allocation.buf allocation.ai allocation.sa ::
          resources) :=
    represents
  obtain ⟨handles, stores, stored⟩ :=
    isFirst.storePayload (.laax (filled arg allocation l) sa)
  refine ⟨handles, ?_, stored⟩
  have stores :
      resolver.handles.storePayload (handleOf allocation.buf)
        (.laax (filled arg allocation l) sa) = .ok handles :=
    stores
  unfold filled at stores
  unfold fill
  simp only [laaxAt_node isFirst, ok_bind, converts, named, strdup, stores]
  rfl

/-- A node without a canonical name stops the conversion. -/
theorem fill_unnamed
    {name : Addr}
    (represents :
      Represents resolver.handles
        (nodeAt allocation.buf allocation.ai allocation.sa :: resources))
    (unnamed : arg.canonname = none) :
    resolver.fill (handleOf allocation.buf) arg name =
      .error .nullPointer := by
  obtain ⟨sa, l, converts⟩ := exists_conversion arg allocation.sa
  have isFirst :
      Represents resolver.handles
        ([] ++ nodeAt allocation.buf allocation.ai allocation.sa ::
          resources) :=
    represents
  unfold fill
  simp only [laaxAt_node isFirst, ok_bind, converts, unnamed, strdup]
  rfl

/-- A store through `ans` reaches the variable of the caller or the newest of
the older resources. -/
theorem storeAns_spec
    {i : Addr}
    (represents : Represents resolver.handles (leading ++ resources))
    (leads : Leads ans resources) :
    ∃ handles,
      resolver.storeAns i ans =
          .ok { resolver with
            handles := handles
            res := resAfter resolver.res i ans } ∧
        Represents handles (leading ++ relink i ans resources) := by
  cases ans with
  | res =>
      exact ⟨resolver.handles, rfl, represents⟩
  | next owner =>
      obtain ⟨block, ai, sa, older, rfl, rfl⟩ := leads
      obtain ⟨handles, stores, stored⟩ :=
        represents.storePayload (.laax { ai with aiNext := i } sa)
      refine ⟨handles, ?_, stored⟩
      have stores :
          resolver.handles.storePayload (handleOf block) _ = _ :=
        stores
      unfold storeAns
      simp only [laaxAt_node represents, ok_bind]
      rw [stores]
      rfl

theorem blocks_relink (i : Addr) (ans : Ans) (resources : List Node) :
    blocks (relink i ans resources) = blocks resources := by
  unfold relink
  split <;> rfl

/-- One turn of the conversion of a node with a canonical name. -/
theorem convert_step
    {text : List Byte}
    (represents : Represents resolver.handles resources)
    (leads : Leads ans resources)
    (fresh : FreshBlocks resolver ((arg, allocation) :: rest))
    (named : arg.canonname = some text) :
    ∃ next sa l,
      bsdAddrToLinuxAddr arg.addr allocation.sa = .ok (sa, l) ∧
        bsdToLinuxAddrinfo ((arg, allocation) :: rest) ans resolver =
          bsdToLinuxAddrinfo rest (.next (handleOf allocation.buf)) next ∧
        Represents next.handles
          (nodeAt allocation.buf (filled arg allocation l) sa ::
            relink (handleOf allocation.buf) ans resources) ∧
        next.res =
          resAfter resolver.res (handleOf allocation.buf) ans ∧
        next.state =
          { resolver.state with
            strings :=
              resolver.state.strings.malloc allocation.name text } ∧
        FreshBlocks next rest := by
  obtain ⟨sa, l, converts⟩ := exists_conversion arg allocation.sa
  obtain ⟨allocated, allocates, isNew⟩ :=
    represents.resourceAlloc (fresh.bufs _ List.mem_cons_self)
      allocation.junk .resAddrinfo
  obtain ⟨written, fills, isFilled⟩ :=
    @fill_spec { resolver with handles := allocated } resources arg
      allocation sa l text isNew converts named
  have represents' :
      Represents written
        ([nodeAt allocation.buf (filled arg allocation l) sa] ++
          resources) :=
    isFilled
  obtain ⟨linked, stores, isLinked⟩ :=
    @storeAns_spec
      { resolver with
        handles := written
        state := { resolver.state with
          strings := resolver.state.strings.malloc allocation.name text } }
      resources _ ans (handleOf allocation.buf) represents' leads
  let next : Resolver := {
    handles := linked
    state := { resolver.state with
      strings := resolver.state.strings.malloc allocation.name text }
    res := resAfter resolver.res (handleOf allocation.buf) ans
  }
  refine ⟨next, sa, l, converts, ?_, isLinked, rfl, rfl, ?_⟩
  · rw [bsdToLinuxAddrinfo, allocates, ok_bind]
    simp only [fills, ok_bind, stores]
    rfl
  · have bufsGrow :
        linked.heap.live =
          insert allocation.buf resolver.handles.heap.live := by
      rw [isLinked.liveBlocks, represents.liveBlocks, ← List.toFinset_cons]
      exact congrArg (fun older => (allocation.buf :: older).toFinset)
        (blocks_relink ..)
    have namesGrow :=
      Heap.live_malloc resolver.state.strings
        (fresh.names _ List.mem_cons_self).1 text
    exact ⟨available_of_grows fresh.bufs fresh.bufsApart bufsGrow,
      (List.nodup_cons.mp fresh.bufsApart).2,
      available_of_grows fresh.names fresh.namesApart namesGrow,
      (List.nodup_cons.mp fresh.namesApart).2⟩

/-- Nodes that all have canonical names are converted: the new resources stand
in front of the others, and the link is stored through `ans`. -/
theorem bsdToLinuxAddrinfo_named
    (represents : Represents resolver.handles resources)
    (leads : Leads ans resources)
    (fresh : FreshBlocks resolver nodes)
    (named : AllNamed nodes) :
    ∃ final first copies,
      bsdToLinuxAddrinfo nodes ans resolver = .ok final ∧
        Converted nodes first copies ∧
        Represents final.handles
          (copies.reverse ++ relink first ans resources) ∧
        final.res = resAfter resolver.res first ans ∧
        final.state =
          { resolver.state with
            strings := copyNames nodes resolver.state.strings } := by
  induction nodes generalizing resolver ans resources with
  | nil =>
      have isAll : Represents resolver.handles ([] ++ resources) :=
        represents
      obtain ⟨linked, stores, isLinked⟩ :=
        @storeAns_spec resolver resources [] ans 0 isAll leads
      exact ⟨_, 0, [], stores, .nil, isLinked, rfl, rfl⟩
  | cons node rest inductionHypothesis =>
      obtain ⟨arg, allocation⟩ := node
      obtain ⟨text, isText⟩ :=
        Option.isSome_iff_exists.mp (named _ List.mem_cons_self)
      obtain ⟨next, sa, l, converts, steps, isNext, nextRes, nextState,
          nextFresh⟩ :=
        convert_step represents leads fresh isText
      obtain ⟨final, first, copies, runs, converted, isFinal, finalRes,
          finalState⟩ :=
        inductionHypothesis isNext (leads_next ..) nextFresh
          (List.forall_mem_of_forall_mem_cons named)
      refine ⟨final, _, _, steps.trans runs, .cons converts converted, ?_,
        finalRes.trans nextRes, ?_⟩
      · rw [List.reverse_cons, List.append_assoc]
        exact isFinal
      · rw [finalState, nextState, copyNames, isText]
        rfl

/-- A node without a canonical name stops the conversion. -/
theorem bsdToLinuxAddrinfo_unnamed
    (represents : Represents resolver.handles resources)
    (leads : Leads ans resources)
    (fresh : FreshBlocks resolver nodes)
    (unnamed : ¬ AllNamed nodes) :
    bsdToLinuxAddrinfo nodes ans resolver = .error .nullPointer := by
  induction nodes generalizing resolver ans resources with
  | nil =>
      exact absurd (fun _ member => by cases member) unnamed
  | cons node rest inductionHypothesis =>
      obtain ⟨arg, allocation⟩ := node
      cases isNamed : arg.canonname with
      | none =>
          obtain ⟨allocated, allocates, isNew⟩ :=
            represents.resourceAlloc (fresh.bufs _ List.mem_cons_self)
              allocation.junk .resAddrinfo
          have stops :=
            @fill_unnamed { resolver with handles := allocated } resources
              arg allocation allocation.name isNew isNamed
          rw [bsdToLinuxAddrinfo, allocates, ok_bind]
          simp only [stops, error_bind]
      | some text =>
          obtain ⟨next, sa, l, _, steps, isNext, _, _, nextFresh⟩ :=
            convert_step represents leads fresh isNamed
          rw [steps]
          refine inductionHypothesis isNext (leads_next ..)
            nextFresh fun restNamed => unnamed fun node member => ?_
          rcases List.mem_cons.mp member with rfl | inRest
          · exact Option.isSome_iff_exists.mpr ⟨text, isNamed⟩
          · exact restNamed node inRest

/-- The copy `i` of a node says what the node says. -/
structure IsCopy
    (strings : Heap (List Byte))
    (i : Addr)
    (arg : HostAddrinfo)
    (ai : Addrinfo)
    (sa : LinuxAddr) : Prop where
  scalars :
    ai.aiFlags = arg.aiFlags ∧ ai.aiSocktype = arg.aiSocktype ∧
      ai.aiProtocol = arg.aiProtocol
  family : ai.aiFamily = linuxAiFamily arg.aiFamily
  address :
    ai.aiAddr = i + saOffset ∧
      ∃ garbage, bsdAddrToLinuxAddr arg.addr garbage = .ok (sa, ai.aiAddrlen)
  canonname :
    match arg.canonname with
    | none => ai.aiCanonname = 0
    | some text => strings.load ai.aiCanonname = .ok text

/-- Following `ai_next` visits copies of the nodes in order, and ends. -/
def Lists (resolver : Resolver) : Addr → List HostAddrinfo → Prop
  | i, [] => i = 0
  | i, arg :: rest =>
      ∃ ai sa,
        resolver.laaxAt i = .ok (ai, sa) ∧
          IsCopy resolver.state.strings i arg ai sa ∧
          resolver.Lists ai.aiNext rest

/-- The conversion copies the list, and releasing the copy frees its nodes and
names and nothing else.  Freeing a block twice is a fault. -/
def ConvertsAndReleases
    (resolver : Resolver)
    (resources : List Node)
    (nodes : List NodePlan) : Prop :=
  ∃ converted,
    bsdToLinuxAddrinfo nodes .res resolver = .ok converted ∧
      converted.Lists converted.res (nodes.map Prod.fst) ∧
      ∃ released,
        converted.implFreeaddrinfo converted.res = .ok released ∧
          Represents released.handles resources ∧
          released.state.strings.live = resolver.state.strings.live ∧
          released.state.glue = resolver.state.glue

/-- Converted resources are the list of the Linux program. -/
theorem lists_of_converted
    {first : Addr}
    {copies : List Node}
    (represents : Represents resolver.handles resources)
    (converted : Converted nodes first copies)
    (tracked : ∀ copy ∈ copies, copy ∈ resources)
    (named : AllNamed nodes)
    (names :
      ∀ node ∈ nodes,
        resolver.state.strings.load node.2.name =
          .ok (node.1.canonname.getD [])) :
    resolver.Lists first (nodes.map Prod.fst) := by
  induction converted with
  | nil => rfl
  | @cons arg allocation rest next copies sa l converts later
      inductionHypothesis =>
      obtain ⟨leading, trailing, shape⟩ :=
        List.append_of_mem (tracked _ List.mem_cons_self)
      obtain ⟨text, isText⟩ :=
        Option.isSome_iff_exists.mp (named _ List.mem_cons_self)
      have copied := names _ List.mem_cons_self
      rw [isText] at copied
      refine ⟨{ filled arg allocation l with aiNext := next }, sa,
        laaxAt_node (shape ▸ represents), ?_, ?_⟩
      · refine ⟨⟨rfl, rfl, rfl⟩, rfl, ⟨rfl, allocation.sa, converts⟩, ?_⟩
        rw [isText]
        exact copied
      · exact inductionHypothesis
          (List.forall_mem_of_forall_mem_cons tracked)
          (List.forall_mem_of_forall_mem_cons named)
          (List.forall_mem_of_forall_mem_cons names)

/-- Releasing a converted list that is not the oldest removes its nodes and
frees their names. -/
theorem freeLoop_converted
    {first : Addr}
    {copies older : List Node}
    {successor : Node}
    {fuel : Nat}
    (converted : Converted nodes first copies)
    (represents :
      Represents resolver.handles (copies.reverse ++ successor :: older))
    (nonNull : ∀ node ∈ nodes, node.2.name ≠ 0)
    (apart : (nodes.map fun node => node.2.name).Nodup)
    (live : ∀ node ∈ nodes, node.2.name ∈ resolver.state.strings.live)
    (enough : nodes.length ≤ fuel) :
    ∃ final,
      freeLoop fuel first resolver = .ok final ∧
        Represents final.handles (successor :: older) ∧
        final.state.strings.live =
          resolver.state.strings.live \
            (nodes.map fun node => node.2.name).toFinset ∧
        final.state.glue = resolver.state.glue := by
  induction converted generalizing resolver fuel with
  | nil =>
      refine ⟨resolver, ?_, represents, by simp, rfl⟩
      unfold freeLoop
      rw [if_pos rfl]
  | @cons arg allocation rest next copies sa l converts later
      inductionHypothesis =>
      obtain ⟨fuel, rfl⟩ : ∃ less, fuel = less + 1 :=
        Nat.exists_eq_succ_of_ne_zero (by
          rintro rfl
          simp at enough)
      obtain ⟨notLater, restApart⟩ := List.nodup_cons.mp apart
      rw [List.reverse_cons, List.append_assoc] at represents
      obtain ⟨freed, frees, isFreed⟩ :=
        represents.resourceFree addrinfoRuntime resolver.state
      obtain ⟨strings, releases, remaining, _⟩ :=
        Heap.release_live (fun _ => none) resolver.state.strings
          (nonNull _ List.mem_cons_self) (live _ List.mem_cons_self)
      let next' : Resolver := {
        handles := freed
        state := { resolver.state with strings := strings }
        res := resolver.res
      }
      have stillLive :
          ∀ node ∈ rest, node.2.name ∈ next'.state.strings.live := by
        intro node member
        change node.2.name ∈ strings.live
        rw [remaining, Finset.mem_erase]
        refine ⟨fun same => notLater ?_,
          live node (List.mem_cons_of_mem _ member)⟩
        exact List.mem_map.mpr ⟨node, member, same⟩
      obtain ⟨final, loops, isFinal, finalLive, finalGlue⟩ :=
        @inductionHypothesis next' fuel isFreed
          (List.forall_mem_of_forall_mem_cons nonNull)
          restApart stillLive (by simpa using enough)
      refine ⟨final, ?_, isFinal, ?_, finalGlue⟩
      · have reads := laaxAt_node represents
        have frees :
            resolver.handles.resourceFree addrinfoRuntime resolver.state
                (handleOf allocation.buf) =
              .ok (freed, { resolver.state with strings := strings }) := by
          refine frees.trans ?_
          change (resolver.state.strings.release (fun _ => none)
            allocation.name >>= _) >>= _ = _
          rw [releases]
          rfl
        rw [freeLoop, if_neg (handleOf_ne_null _)]
        simp only [reads, ok_bind, frees]
        exact loops
      · rw [finalLive, remaining, List.map_cons, List.toFinset_cons]
        ext address
        simp only [Finset.mem_sdiff, Finset.mem_erase, Finset.mem_insert]
        tauto

/-- Releasing a converted list that is the oldest writes through the null
pointer that ends the list of resources. -/
theorem implFreeaddrinfo_oldest
    {first : Addr}
    {copies : List Node}
    (converted : Converted nodes first copies)
    (nonempty : nodes ≠ [])
    (represents : Represents resolver.handles copies.reverse)
    (final : Resolver) :
    resolver.implFreeaddrinfo first ≠ .ok final := by
  intro frees
  cases converted with
  | nil => exact nonempty rfl
  | @cons arg allocation rest next copies sa l converts later =>
      rw [List.reverse_cons] at represents
      unfold implFreeaddrinfo freeLoop at frees
      rw [if_neg (handleOf_ne_null _)] at frees
      split at frees
      · cases frees
      · obtain ⟨_, _, rest⟩ := bind_eq_ok.mp frees
        obtain ⟨_, releases, _⟩ := bind_eq_ok.mp rest
        have stops :=
          represents.resourceFree_oldest addrinfoRuntime resolver.state
        obtain ⟨_, _, isError⟩ :=
          bind_eq_ok.mp (stops.symm.trans releases)
        cases isError

/-- A list that is converted and released has names everywhere and is not the
oldest. -/
theorem named_of_convertsAndReleases
    (represents : Represents resolver.handles resources)
    (fresh : FreshBlocks resolver nodes)
    (completes : resolver.ConvertsAndReleases resources nodes) :
    AllNamed nodes ∧ (nodes = [] ∨ resources ≠ []) := by
  obtain ⟨converted, converts, _, released, frees, _⟩ := completes
  have named : AllNamed nodes := by
    by_contra unnamed
    rw [bsdToLinuxAddrinfo_unnamed represents (leads_res _) fresh unnamed]
      at converts
    cases converts
  refine ⟨named, ?_⟩
  by_contra oldest
  obtain ⟨nonempty, noOthers⟩ := not_or.mp oldest
  obtain ⟨final, first, copies, runs, isConverted, isFinal, finalRes, _⟩ :=
    bsdToLinuxAddrinfo_named represents (leads_res _) fresh named
  cases converts.symm.trans runs
  rw [not_not.mp noOthers] at isFinal
  rw [finalRes] at frees
  exact implFreeaddrinfo_oldest isConverted nonempty
    (by simpa using isFinal) released frees

/-- Releasing a converted list leaves the resources and the strings from before
the conversion. -/
theorem implFreeaddrinfo_converted
    {strings : Heap (List Byte)}
    {first : Addr}
    {copies : List Node}
    (converted : Converted nodes first copies)
    (represents :
      Represents resolver.handles (copies.reverse ++ resources))
    (others : nodes = [] ∨ resources ≠ [])
    (apart : (nodes.map fun node => node.2.name).Nodup)
    (available : ∀ node ∈ nodes, strings.Available node.2.name)
    (live :
      resolver.state.strings.live =
        (nodes.map fun node => node.2.name).toFinset ∪ strings.live) :
    ∃ released,
      resolver.implFreeaddrinfo first = .ok released ∧
        Represents released.handles resources ∧
        released.state.strings.live = strings.live ∧
        released.state.glue = resolver.state.glue := by
  rcases others with isEmpty | hasOthers
  · subst isEmpty
    cases converted
    refine ⟨resolver, ?_, represents, by simpa using live, rfl⟩
    unfold implFreeaddrinfo freeLoop
    rw [if_pos rfl]
  · obtain ⟨successor, older, rfl⟩ := List.exists_cons_of_ne_nil hasOthers
    have enough : nodes.length ≤ resolver.handles.heap.live.card := by
      rw [represents.liveBlocks,
        List.toFinset_card_of_nodup represents.blocksNodup]
      simp only [blocks, List.length_map, List.length_append,
        List.length_reverse, converted.length]
      omega
    have nameLive :
        ∀ node ∈ nodes, node.2.name ∈ resolver.state.strings.live := by
      intro node member
      rw [live, Finset.mem_union, List.mem_toFinset]
      exact .inl (List.mem_map.mpr ⟨node, member, rfl⟩)
    obtain ⟨released, frees, isReleased, releasedLive, sameGlue⟩ :=
      freeLoop_converted converted represents
        (fun node member => (available node member).1) apart nameLive enough
    refine ⟨released, frees, isReleased, ?_, sameGlue⟩
    rw [releasedLive, live, Finset.union_sdiff_left,
      Finset.sdiff_eq_self_iff_disjoint, Finset.disjoint_right]
    intro address isName
    obtain ⟨node, member, rfl⟩ :=
      List.mem_map.mp (List.mem_toFinset.mp isName)
    exact (available node member).2

/-- A list of the host is converted and released exactly when every node has a
canonical name, and a node that is released is not the oldest resource. -/
theorem convertsAndReleases_iff
    (represents : Represents resolver.handles resources)
    (fresh : FreshBlocks resolver nodes) :
    resolver.ConvertsAndReleases resources nodes ↔
      AllNamed nodes ∧ (nodes = [] ∨ resources ≠ []) := by
  refine ⟨named_of_convertsAndReleases represents fresh, ?_⟩
  rintro ⟨named, others⟩
  obtain ⟨final, first, copies, runs, isConverted, isFinal, finalRes,
      finalState⟩ :=
    bsdToLinuxAddrinfo_named represents (leads_res _) fresh named
  have nonNull : ∀ node ∈ nodes, node.2.name ≠ 0 :=
    fun node member => (fresh.names node member).1
  have isFirst : final.res = first := finalRes
  have live :
      final.state.strings.live =
        (nodes.map fun node => node.2.name).toFinset ∪
          resolver.state.strings.live := by
    rw [finalState]
    exact copyNames_live nonNull
  have lists : final.Lists first (nodes.map Prod.fst) := by
    refine lists_of_converted isFinal isConverted ?_ named ?_
    · intro copy member
      exact List.mem_append_left _ (List.mem_reverse.mpr member)
    · intro node member
      rw [finalState]
      exact copyNames_load nonNull fresh.namesApart member
  obtain ⟨released, frees, isReleased, releasedLive, sameGlue⟩ :=
    implFreeaddrinfo_converted isConverted isFinal others fresh.namesApart
      fresh.names live
  rw [← isFirst] at lists frees
  refine ⟨final, runs, lists, released, frees, isReleased, releasedLive, ?_⟩
  rw [sameGlue, finalState]

/-- `impl_getaddrinfo` needs no case of its own for an empty answer. -/
theorem implGetaddrinfo_eq
    (resolver : Resolver)
    (hints garbage : Addrinfo)
    (host : Addrinfo → Int × List NodePlan) :
    resolver.implGetaddrinfo hints garbage host = (do
      let (ans, bsdRes) := host (bsdHints hints garbage)
      let resolver ← bsdToLinuxAddrinfo bsdRes .res resolver
      return (resolver, ans)) := by
  unfold implGetaddrinfo
  obtain ⟨ans, bsdRes⟩ := host (bsdHints hints garbage)
  cases bsdRes with
  | nil => rfl
  | cons node rest => exact if_pos (List.cons_ne_nil _ _)

end Resolver

/-- `127.0.0.1` as the host reports it. -/
def localhost (canonname : Option (List Byte)) : HostAddrinfo where
  aiFlags := 0
  aiFamily := 2
  aiSocktype := 1
  aiProtocol := 6
  addr := ⟨[16, 2, 0, 80, 127, 0, 0, 1] ++ List.replicate 100 0, by simp⟩
  canonname := canonname

/-- Blocks that the allocator returns for it. -/
def localhostBlocks : Allocation where
  buf := 8192
  ai := ⟨0, 0, 0, 0, 0, 0, 0, 0⟩
  sa := .zeroed 112
  name := 12288

/-- `::1` as the host reports it. -/
def localhost6 : HostAddrinfo where
  aiFlags := 0
  aiFamily := 28
  aiSocktype := 1
  aiProtocol := 6
  addr :=
    ⟨[28, 28, 0, 80] ++ List.replicate 19 0 ++ [1] ++ List.replicate 84 0,
      by simp⟩
  canonname := some (chars "localhost6")

/-- Blocks that the allocator returns for it. -/
def localhost6Blocks : Allocation where
  buf := 16384
  ai := ⟨0, 0, 0, 0, 0, 0, 0, 0⟩
  sa := .zeroed 112
  name := 20480

/-- The two nodes of `localhost`. -/
def localhosts : List NodePlan :=
  [(localhost (some (chars "localhost")), localhostBlocks),
    (localhost6, localhost6Blocks)]

/-- A process without strings, whose resources are given. -/
def resolving
    (handles : Handles AddrinfoFree AddrinfoBlock) : Resolver where
  handles := handles
  state := { strings := .empty, glue := .initial }
  res := 0

theorem fresh_localhost
    {handles : Handles AddrinfoFree AddrinfoBlock}
    (available : handles.heap.Available 8192)
    (canonname : Option (List Byte)) :
    FreshBlocks (resolving handles) [(localhost canonname, localhostBlocks)] where
  bufs := by
    intro node member
    rw [List.mem_singleton.mp member]
    exact available
  bufsApart := List.nodup_singleton _
  names := by
    intro node member
    rw [List.mem_singleton.mp member]
    exact ⟨show (12288 : Addr) ≠ 0 by decide, Finset.notMem_empty _⟩
  namesApart := List.nodup_singleton _

theorem fresh_localhosts
    {handles : Handles AddrinfoFree AddrinfoBlock}
    (available : handles.heap.Available 8192)
    (other : handles.heap.Available 16384) :
    FreshBlocks (resolving handles) localhosts where
  bufs := by
    intro node member
    rcases List.mem_pair.mp member with rfl | rfl
    · exact available
    · exact other
  bufsApart := by decide
  names := by
    intro node member
    rcases List.mem_pair.mp member with rfl | rfl
    · exact ⟨show (12288 : Addr) ≠ 0 by decide, Finset.notMem_empty _⟩
    · exact ⟨show (20480 : Addr) ≠ 0 by decide, Finset.notMem_empty _⟩
  namesApart := by decide

namespace Resolver

/-- Two named nodes of different families beside another resource are converted
and released. -/
theorem convertsAndReleases_localhost :
    ∃ handles socket,
      Represents handles [socket] ∧
        (resolving handles).ConvertsAndReleases [socket] localhosts := by
  obtain ⟨handles, _, represents⟩ :=
    (represents_initial :
      Represents (initial : Handles AddrinfoFree AddrinfoBlock) []
      ).resourceAlloc (show Heap.Available _ 4096 by decide)
      { magic := 0, next := 0, prev := .list, free := .another .resFd,
        payload := .another (.fd 3) }
      (.another .resFd)
  have available : handles.heap.Available 8192 := by
    refine ⟨by decide, ?_⟩
    rw [represents.liveBlocks]
    decide
  have other : handles.heap.Available 16384 := by
    refine ⟨by decide, ?_⟩
    rw [represents.liveBlocks]
    decide
  refine ⟨handles, _, represents, ?_⟩
  refine (@convertsAndReleases_iff (resolving handles) _ localhosts represents
    (fresh_localhosts available other)).mpr
      ⟨?_, .inr (List.cons_ne_nil _ _)⟩
  intro node member
  rcases List.mem_pair.mp member with rfl | rfl <;> rfl

/-- A node without a canonical name is not converted. -/
theorem not_convertsAndReleases_unnamed :
    ¬ ∀ (resolver : Resolver) (resources : List Node)
      (nodes : List NodePlan),
      Represents resolver.handles resources →
        FreshBlocks resolver nodes →
          resolver.ConvertsAndReleases resources nodes := by
  intro converts
  have fresh := @fresh_localhost .initial (by decide) none
  obtain ⟨converted, runs, _⟩ :=
    converts (resolving .initial) [] _ represents_initial fresh
  have unnamed : ¬ AllNamed [(localhost none, localhostBlocks)] := by
    intro named
    exact absurd (named _ List.mem_cons_self) (by decide)
  rw [@bsdToLinuxAddrinfo_unnamed (resolving .initial) [] _ .res
    represents_initial (leads_res _) fresh unnamed] at runs
  cases runs

end Resolver

end Hamachi
