import Hamachi.SocketCalls

namespace Hamachi

/-!
# Unix socket paths on the host

A path that the Linux program binds or connects to is prefixed and cut to the
103 bytes that fit in front of the terminator of the host's `sun_path`.  What
two paths have in common there decides whether they meet.
-/

variable {size room : Nat}

/-- A buffer holds a Linux address of family `AF_UNIX` with the path. -/
structure HoldsPath (path : List Byte) (addr : Buffer size) : Prop where
  family : addr.slice 0 2 = .ok ⟨[1, 0], rfl⟩
  text : ∃ rest, addr.bytes.drop 2 = path ++ 0 :: rest
  noZero : 0 ∉ path

/-- `struct sockaddr_un` of Linux with a path in it. -/
def sockaddrUn (path : List Byte) :
    Buffer ([1, 0] ++ path ++ List.replicate (108 - path.length) 0).length :=
  .of ([1, 0] ++ path ++ List.replicate (108 - path.length) 0)

/-- A path that Linux allows is held by its structure. -/
theorem sockaddrUn_holds
    {path : List Byte}
    (short : path.length ≤ 107)
    (noZero : 0 ∉ path) :
    HoldsPath path (sockaddrUn path) where
  family := Buffer.slice_eq [] ⟨[1, 0], rfl⟩ _ (List.append_assoc ..) rfl
  text := by
    refine ⟨List.replicate (107 - path.length) 0, ?_⟩
    rw [← List.replicate_succ,
      show 107 - path.length + 1 = 108 - path.length by omega]
    rfl
  noZero := noZero

/-- What the host's `sun_path` says for a Linux path. -/
def hostPath (path : List Byte) : List Byte :=
  (chars pathPrefix ++ path).take 103

/-- The path that a call passes to the host, if it passes an address. -/
def AddrPass.path (pass : AddrPass) : Option (List Byte) :=
  pass.passed.bind fun bytes => (textAt bytes 2).toOption

/-- Binding the first address and connecting to the second cannot meet: the
conversions yield two paths or make a call fail. -/
def StayApart
    (first : Buffer size)
    (second : Buffer room)
    (garbage other : BsdAddr) : Prop :=
  ∀ host otherHost,
    ∃ bound connected,
      implBind first garbage host = .ok bound ∧
        implConnect second other otherHost = .ok connected ∧
        (bound.path = none ∨ connected.path = none ∨
          bound.path ≠ connected.path)

/-- What `strncpy` leaves in front of the last byte. -/
theorem strncpy_take (text : List Byte) :
    (strncpy text 104).take 103 =
      text.take 103 ++ List.replicate (103 - text.length) 0 := by
  rw [strncpy, List.take_take, List.take_append, List.take_replicate]
  congr 2
  omega

/-- Zeros in front of a zero. -/
theorem replicate_zero_append (count : Nat) (rest : List Byte) :
    List.replicate count 0 ++ 0 :: rest =
      0 :: (List.replicate count 0 ++ rest) := by
  induction count with
  | zero =>
      rfl
  | succ count inductionHypothesis =>
      rw [List.replicate_succ, List.cons_append, inductionHypothesis]
      rfl

/-- The host's path is a text of its own. -/
theorem noZero_hostPath
    {path : List Byte}
    (noZero : 0 ∉ path) :
    0 ∉ hostPath path := by
  intro member
  rcases List.mem_append.mp (List.mem_of_mem_take member) with
    inPrefix | inPath
  · exact absurd inPrefix (by decide)
  · exact noZero inPath

section Conversion

variable
  {path : List Byte}
  {addr : Buffer size}

/-- The two stores to `sun_path` leave the host's path in it. -/
theorem storePath
    (path : List Byte)
    (bsdAddr : BsdAddr) :
    ∃ copied written rest,
      bsdAddr.overwrite 2 (strncpy (chars pathPrefix ++ path) 104) =
          .ok copied ∧
        copied.overwrite 105 [0] = .ok written ∧
        written.bytes.drop 2 = hostPath path ++ 0 :: rest := by
  obtain ⟨copied, copies, copiedBytes⟩ :=
    bsdAddr.overwrite_inside 2 (strncpy (chars pathPrefix ++ path) 104)
      (by simp)
  obtain ⟨written, writes, writtenBytes⟩ :=
    copied.overwrite_inside 105 [0] (by decide)
  have sized := bsdAddr.sized
  refine ⟨copied, written,
    List.replicate (103 - (chars pathPrefix ++ path).length) 0 ++
      copied.bytes.drop 106,
    copies, writes, ?_⟩
  have front : (bsdAddr.bytes.take 2).length = 2 := by
    rw [List.length_take]
    omega
  have kept :
      (copied.bytes.take 105).drop 2 =
        (strncpy (chars pathPrefix ++ path) 104).take 103 := by
    rw [copiedBytes, List.drop_take, List.append_assoc,
      List.drop_left' front, List.take_append_of_le_length (by simp)]
  have long : 2 ≤ (copied.bytes.take 105).length := by
    rw [List.length_take, copied.sized]
    decide
  rw [writtenBytes, List.append_assoc, List.drop_append_of_le_length long,
    kept, strncpy_take, ← replicate_zero_append, List.append_assoc]
  rfl

/-- `linux_addr_to_bsd_addr` of a Unix address never fails. -/
theorem linuxAddrToBsdAddr_unix
    (holds : HoldsPath path addr)
    (garbage : BsdAddr) :
    ∃ bsdAddr rest,
      linuxAddrToBsdAddr addr garbage = .ok (bsdAddr, 106) ∧
        bsdAddr.bytes.drop 2 = hostPath path ++ 0 :: rest := by
  obtain ⟨rest, shape⟩ := holds.text
  obtain ⟨named, names, _⟩ :=
    garbage.overwrite_inside 1 [1] (by decide)
  obtain ⟨copied, written, after, copies, writes, layout⟩ :=
    storePath path named
  refine ⟨written, after, ?_, layout⟩
  unfold linuxAddrToBsdAddr
  rw [holds.family, ok_bind, if_neg (by decide), if_neg (by decide),
    if_pos rfl, names, ok_bind, textAt_text shape holds.noZero, ok_bind]
  dsimp only
  rw [copies, ok_bind, writes]
  rfl

/-- The 106 bytes that the host gets say the host's path. -/
theorem path_of_slice
    {bsdAddr : BsdAddr}
    {argument : Buffer 106}
    {rest : List Byte}
    (noZero : 0 ∉ path)
    (shape : bsdAddr.bytes.drop 2 = hostPath path ++ 0 :: rest)
    (slices : bsdAddr.slice 0 106 = .ok argument) :
    (textAt argument.bytes 2).toOption = some (hostPath path) := by
  obtain ⟨part, reads, isPart⟩ :=
    bsdAddr.slice_inside 0 106 (by decide)
  cases slices.symm.trans reads
  have short : (hostPath path).length ≤ 103 := List.length_take_le ..
  have inside :
      argument.bytes.drop 2 =
        hostPath path ++ 0 :: rest.take (103 - (hostPath path).length) := by
    rw [isPart, List.drop_zero, List.drop_take, shape, List.take_append,
      List.take_of_length_le (by omega),
      show 106 - 2 - (hostPath path).length =
        103 - (hostPath path).length + 1 by omega,
      List.take_succ_cons]
  rw [textAt_text inside (noZero_hostPath noZero)]
  rfl

/-- `impl_bind` passes the host's path. -/
theorem implBind_unix
    (holds : HoldsPath path addr)
    (garbage : BsdAddr)
    (host : HostStatus) :
    ∃ bound,
      implBind addr garbage host = .ok bound ∧
        bound.path = some (hostPath path) := by
  obtain ⟨bsdAddr, rest, converts, shape⟩ :=
    linuxAddrToBsdAddr_unix holds garbage
  obtain ⟨argument, slices, _⟩ :=
    bsdAddr.slice_inside 0 106 (by decide)
  refine ⟨⟨some argument.bytes, host.ret, host.errno⟩, ?_,
    path_of_slice holds.noZero shape slices⟩
  unfold implBind
  rw [converts, ok_bind]
  dsimp only
  rw [if_neg (by decide), slices]
  rfl

/-- So does `impl_connect`. -/
theorem implConnect_unix
    (holds : HoldsPath path addr)
    (garbage : BsdAddr)
    (host : HostStatus) :
    ∃ connected,
      implConnect addr garbage host = .ok connected ∧
        connected.path = some (hostPath path) := by
  obtain ⟨bsdAddr, rest, converts, shape⟩ :=
    linuxAddrToBsdAddr_unix holds garbage
  obtain ⟨argument, slices, _⟩ :=
    bsdAddr.slice_inside 0 106 (by decide)
  have reachable : isUnreachable addr = .ok false := by
    rw [isUnreachable, holds.family, ok_bind, if_neg (by decide)]
    rfl
  refine ⟨⟨some argument.bytes, host.ret,
      if host.errno = 36 then 115 else host.errno⟩, ?_,
    path_of_slice holds.noZero shape slices⟩
  unfold implConnect
  rw [converts, ok_bind]
  dsimp only
  rw [if_neg (by decide), reachable, ok_bind, if_neg (by decide), slices]
  rfl

end Conversion

/-- The prefix leaves room for 85 bytes of a path. -/
theorem hostPath_eq_iff {first second : List Byte} :
    hostPath first = hostPath second ↔ first.take 85 = second.take 85 := by
  have eighteen : (chars pathPrefix).length = 18 := rfl
  simp only [hostPath, List.take_append, eighteen]
  exact List.append_right_inj _

section Pairs

variable
  {firstPath secondPath : List Byte}
  {first : Buffer size}
  {second : Buffer room}

/-- Paths that the host cannot tell apart meet. -/
theorem not_stayApart
    (holdsFirst : HoldsPath firstPath first)
    (holdsSecond : HoldsPath secondPath second)
    (garbage other : BsdAddr)
    (same : hostPath firstPath = hostPath secondPath) :
    ¬ StayApart first second garbage other := by
  intro apart
  obtain ⟨bound, connected, binds, connects, differ⟩ :=
    apart ⟨0, 0⟩ ⟨0, 0⟩
  obtain ⟨_, binds', boundPath⟩ := implBind_unix holdsFirst garbage ⟨0, 0⟩
  obtain ⟨_, connects', connectedPath⟩ :=
    implConnect_unix holdsSecond other ⟨0, 0⟩
  cases binds.symm.trans binds'
  cases connects.symm.trans connects'
  rw [boundPath, connectedPath, same] at differ
  simp at differ

/-- Two paths stay apart exactly when they differ in their first 85 bytes. -/
theorem stayApart_iff
    (holdsFirst : HoldsPath firstPath first)
    (holdsSecond : HoldsPath secondPath second)
    (garbage other : BsdAddr) :
    StayApart first second garbage other ↔
      firstPath.take 85 ≠ secondPath.take 85 := by
  rw [ne_eq, ← hostPath_eq_iff]
  constructor
  · intro apart same
    exact not_stayApart holdsFirst holdsSecond garbage other same apart
  · intro different host otherHost
    obtain ⟨bound, binds, boundPath⟩ := implBind_unix holdsFirst garbage host
    obtain ⟨connected, connects, connectedPath⟩ :=
      implConnect_unix holdsSecond other otherHost
    refine ⟨bound, connected, binds, connects, .inr (.inr ?_)⟩
    rw [boundPath, connectedPath]
    exact fun same => different (Option.some.inj same)

/-- Two short paths in one directory. -/
theorem stayApart_short :
    StayApart (sockaddrUn (chars "/run/a")) (sockaddrUn (chars "/run/b"))
      (.zeroed 108) (.zeroed 108) :=
  (stayApart_iff (sockaddrUn_holds (by decide) (by decide))
    (sockaddrUn_holds (by decide) (by decide)) _ _).mpr (by decide)

end Pairs

/-- The directory of two sockets. -/
def longDirectory : List Byte :=
  chars "/var/run/" ++ List.replicate 76 97

/-- The sockets `b` and `c` of the directory meet on the host. -/
theorem not_stayApart_long :
    longDirectory ++ [98] ≠ longDirectory ++ [99] ∧
      ¬ StayApart (sockaddrUn (longDirectory ++ [98]))
        (sockaddrUn (longDirectory ++ [99]))
        (.zeroed 108) (.zeroed 108) :=
  ⟨by decide,
    not_stayApart (sockaddrUn_holds (by decide) (by decide))
      (sockaddrUn_holds (by decide) (by decide)) _ _
      (hostPath_eq_iff.mpr (by decide))⟩

end Hamachi
