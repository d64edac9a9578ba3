import Hamachi.Encapsulation
import Hamachi.GlueFrames
import Hamachi.PosixFiles
import Hamachi.ResourceListOperations

namespace Hamachi

/-!
# Open flags of Linux on the files of the host

`impl_open64` translates the access mode, `O_CREAT` and `O_NONBLOCK`, and drops
the other flags.  What becomes of a file is compared with the files as the
Linux program names them, which the host keeps under a prefix.

The descriptor of a file may be the one that `tun_fd` still holds from a tap
device that an exit closed: then `impl_write` takes what is written for
Ethernet frames.
-/

/-- The open flags of a system. -/
structure FlagNumbers where
  creat : Nat
  excl : Nat
  trunc : Nat
  append : Nat

/-- The numbering of Linux. -/
def linuxNumbers : FlagNumbers where
  creat := 64
  excl := 128
  trunc := 512
  append := 1024

/-- The numbering of the host. -/
def bsdNumbers : FlagNumbers where
  creat := 0x200
  excl := 0x800
  trunc := 0x400
  append := 8

/-- What a flag word asks for.  `O_NONBLOCK` changes nothing for a file. -/
def FlagNumbers.intent (numbers : FlagNumbers) (flags : Nat) : OpenIntent where
  reads := flags &&& 3 ≠ 1
  writes := flags &&& 3 ≠ 0
  creates := flags &&& numbers.creat ≠ 0
  excludes := flags &&& numbers.excl ≠ 0
  truncates := flags &&& numbers.trunc ≠ 0
  appends := flags &&& numbers.append ≠ 0

inductive AccessMode where
  | rdonly
  | wronly
  | rdwr

def AccessMode.toNat : AccessMode → Nat
  | .rdonly => 0
  | .wronly => 1
  | .rdwr => 2

/-- An access mode and any of the five flags. -/
structure LinuxOpenFlags where
  access : AccessMode
  creat : Bool
  excl : Bool
  trunc : Bool
  append : Bool
  nonblock : Bool

/-- The flag word. -/
def LinuxOpenFlags.toNat (flags : LinuxOpenFlags) : Nat :=
  flags.access.toNat ||| (if flags.creat then 64 else 0) |||
    (if flags.excl then 128 else 0) ||| (if flags.trunc then 512 else 0) |||
    (if flags.append then 1024 else 0) |||
    (if flags.nonblock then 2048 else 0)

/-- What Linux is asked for. -/
def LinuxOpenFlags.intent (flags : LinuxOpenFlags) : OpenIntent :=
  linuxNumbers.intent flags.toNat

/-- The host is asked for the same without `O_EXCL`, `O_TRUNC` and
`O_APPEND`. -/
theorem intent_openFlags (flags : LinuxOpenFlags) :
    bsdNumbers.intent (openFlags flags.toNat) = flags.intent.plain := by
  obtain ⟨access, creat, excl, trunc, append, nonblock⟩ := flags
  cases access <;> cases creat <;> cases excl <;> cases trunc <;>
    cases append <;> cases nonblock <;> rfl

namespace Glue

/-- `impl_write` gives writes to the descriptor to `popen_write`. -/
def Captures (glue : Glue) (fd : Int) : Prop :=
  fd = 1 ∧ glue.isInPopen

instance (glue : Glue) (fd : Int) : Decidable (glue.Captures fd) :=
  inferInstanceAs (Decidable (_ ∧ _))

/-- What `impl_write` hands to the host's `write`, if anything. -/
def handedOn
    {cnt : Nat}
    (glue : Glue)
    (fd : Int)
    (buf : Buffer cnt) : Except Fault (Option (List Byte)) :=
  if fd = glue.tunFd then do
    let write ← tuntapWrite glue.tuntap buf cnt
    return write.written
  else if glue.Captures fd then
    return none
  else
    return some buf.bytes

/-- `impl_write` for each chunk, on a descriptor that the host opened for a
file. -/
def writeChunks
    (fd : Int)
    (intent : OpenIntent)
    (path : String) :
    List (List Byte) →
    Glue →
    Files String Byte × Nat →
    Except Fault (Files String Byte × Nat)
  | [], _, state => .ok state
  | chunk :: rest, glue, state => do
      let handed ← glue.handedOn fd (.of chunk)
      let result : Int :=
        if intent.writes then (handed.getD []).length else -1
      let (written, _) ← glue.implWrite fd (.of chunk) result
      let state :=
        match handed with
        | none => state
        | some bytes => Files.write intent path state bytes
      writeChunks fd intent path rest written state

end Glue

/-- `impl_open64` and `impl_write` for each chunk: whether the host opened the
file, and the files at the end.  What `impl_open64` does with a refusal does not
touch the files. -/
def Process.openAndWrite
    (process : Process)
    (files : Files String Byte)
    (path : String)
    (flags : LinuxOpenFlags)
    (mode : Nat)
    (fd : Int)
    (buf : Addr)
    (junk : Resource Finaliser Payload)
    (chunks : List (List Byte)) :
    Except Fault (Bool × Files String Byte) :=
  let intent := bsdNumbers.intent (openFlags flags.toNat)
  match files.opened intent (openPath path) with
  | none => .ok (false, files)
  | some files => do
      let (process, fd) ←
        process.implOpen64 path flags.toNat mode fd buf junk
      let (files, _) ←
        Glue.writeChunks fd intent (openPath path) chunks process.glue
          (files, 0)
      return (true, files)

/-- The files as the Linux program names them. -/
def linuxFiles (files : Files String Byte) : Files String Byte :=
  files.along buildFakePath

variable
  {glue : Glue}
  {process : Process}
  {files : Files String Byte}
  {fd : Int}
  {path : String}
  {flags : LinuxOpenFlags}
  {mode : Nat}
  {buf : Addr}
  {junk : Resource Finaliser Payload}

/-- Writes that are handed on write the file. -/
theorem Glue.writeChunks_handedOn
    (notTun : fd ≠ glue.tunFd)
    (handsOn : ¬ glue.Captures fd)
    (intent : OpenIntent)
    (path : String)
    (chunks : List (List Byte))
    (state : Files String Byte × Nat) :
    writeChunks fd intent path chunks glue state =
      .ok (chunks.foldl (Files.write intent path) state) := by
  induction chunks generalizing state with
  | nil => rfl
  | cons chunk rest inductionHypothesis =>
      have writes (result : Int) :
          glue.implWrite fd (.of chunk) result = .ok (glue, result) := by
        unfold implWrite
        rw [if_neg notTun]
        exact if_neg handsOn
      have hands : glue.handedOn fd (.of chunk) = .ok (some chunk) := by
        unfold handedOn
        rw [if_neg notTun, if_neg handsOn]
        rfl
      simp only [writeChunks, writes, hands, ok_bind]
      exact inductionHypothesis _

/-- Writes to the descriptor in `tun_fd` write the packets of the frames that
are sent to the tap. -/
theorem Glue.writeChunks_tun
    (isTun : fd = glue.tunFd)
    (intent : OpenIntent)
    (path : String)
    (chunks : List (List Byte))
    (state : Files String Byte × Nat) :
    writeChunks fd intent path chunks glue state =
      .ok ((chunks.filterMap (ipPacketFor glue.tuntap.macaddr)).foldl
        (Files.write intent path) state) := by
  induction chunks generalizing glue state with
  | nil => rfl
  | cons chunk rest inductionHypothesis =>
      obtain ⟨first, writesFirst, _⟩ :=
        tuntapWrite_replies glue.tuntap (.of chunk) chunk.length
      have hands :
          glue.handedOn fd (.of chunk) =
            .ok (ipPacketFor glue.tuntap.macaddr chunk) := by
        unfold handedOn
        rw [if_pos isTun, writesFirst]
        exact congrArg Except.ok (tuntapWrite_written writesFirst)
      simp only [writeChunks, hands, ok_bind]
      generalize (if intent.writes then
        (((ipPacketFor glue.tuntap.macaddr chunk).getD []).length : Int)
        else -1) = result
      obtain ⟨write, writes, sameNode, _⟩ :=
        tuntapWrite_replies glue.tuntap (.of chunk) result
      have sameMac : write.tap.macaddr = glue.tuntap.macaddr :=
        sameNode.1
      have written :
          glue.implWrite fd (.of chunk) result =
            .ok ({ glue with tuntap := write.tap }, write.ret) := by
        unfold implWrite
        rw [if_pos isTun, writes]
        rfl
      have later :=
        @inductionHypothesis { glue with tuntap := write.tap } isTun
      dsimp only at later
      rw [sameMac] at later
      rw [written, ok_bind]
      cases isPacket : ipPacketFor glue.tuntap.macaddr chunk with
      | none =>
          rw [List.filterMap_cons_none isPacket]
          exact later state
      | some packet =>
          rw [List.filterMap_cons_some isPacket, List.foldl_cons]
          exact later _

/-- Writes that are captured leave the files alone. -/
theorem Glue.writeChunks_captured
    (notTun : fd ≠ glue.tunFd)
    (captures : glue.Captures fd)
    (intent : OpenIntent)
    (path : String)
    (chunks : List (List Byte))
    (state : Files String Byte × Nat) :
    writeChunks fd intent path chunks glue state = .ok state := by
  induction chunks generalizing glue with
  | nil => rfl
  | cons chunk rest inductionHypothesis =>
      have writes (result : Int) :
          glue.implWrite fd (.of chunk) result =
            .ok ({ glue with popenData := glue.popenData ++ chunk },
              chunk.length) := by
        unfold implWrite
        rw [if_neg notTun]
        exact if_pos captures
      have hands : glue.handedOn fd (.of chunk) = .ok none := by
        unfold handedOn
        rw [if_neg notTun, if_pos captures]
        rfl
      simp only [writeChunks, writes, hands, ok_bind]
      exact inductionHypothesis notTun captures

theorem buildFakePath_injective : Function.Injective buildFakePath := by
  intro first second same
  have sameChars := congrArg String.toList same
  simp only [buildFakePath, String.toList_append] at sameChars
  exact String.toList_inj.mp (List.append_cancel_left sameChars)

/-- A descriptor that fits the table is registered in a new block. -/
theorem Process.implOpen64_registers
    {resources : List (Handles.Tracked Finaliser Payload)}
    (represents : Handles.Represents process.handles resources)
    (available : process.handles.heap.Available buf)
    (inTable : 0 ≤ fd ∧ fd < perFdSize)
    (path : String)
    (flags mode : Nat)
    (junk : Resource Finaliser Payload) :
    ∃ opened,
      process.implOpen64 path flags mode fd buf junk = .ok opened := by
  obtain ⟨allocated, allocates, isNew⟩ :=
    represents.resourceAlloc available junk .resFd
  have isFirst :
      Handles.Represents allocated
        ([] ++ ⟨buf, .resFd, junk.payload⟩ :: resources) :=
    isNew
  obtain ⟨stored, stores, _⟩ := isFirst.storePayload (.fd fd)
  have stores :
      allocated.storePayload (handleOf buf) (.fd fd) = .ok stored :=
    stores
  unfold implOpen64 trackFd alloc storePayload Glue.setPerFd
  simp only [allocates, ok_bind, if_pos inTable, stores]
  exact ⟨_, rfl⟩

/-- The chunks that reach the file. -/
def Process.reaching
    (process : Process)
    (fd : Int)
    (chunks : List (List Byte)) : List (List Byte) :=
  if fd = process.glue.tunFd then
    chunks.filterMap (ipPacketFor process.glue.tuntap.macaddr)
  else if process.glue.Captures fd then
    []
  else
    chunks

/-- Every packet is shorter than its frame. -/
theorem packets_shorter
    (macaddr : Mac)
    (chunks : List (List Byte)) :
    (chunks.filterMap (ipPacketFor macaddr)).flatten.length <
        chunks.flatten.length ∨
      (chunks.filterMap (ipPacketFor macaddr)).flatten = [] ∧
        chunks.flatten = [] := by
  induction chunks with
  | nil => exact .inr ⟨rfl, rfl⟩
  | cons chunk rest inductionHypothesis =>
      cases isPacket : ipPacketFor macaddr chunk with
      | none =>
          rw [List.filterMap_cons_none isPacket, List.flatten_cons,
            List.length_append]
          cases chunk with
          | nil => simpa using inductionHypothesis
          | cons byte bytes =>
              refine .inl ?_
              rcases inductionHypothesis with shorter | ⟨nothing, isEmpty⟩
              · omega
              · rw [nothing, isEmpty]
                simp
      | some packet =>
          obtain ⟨isLong, _, _, rfl⟩ := ipPacketFor_eq_some isPacket
          rw [List.filterMap_cons_some isPacket, List.flatten_cons,
            List.flatten_cons, List.length_append, List.length_append,
            List.length_drop]
          refine .inl ?_
          rcases inductionHypothesis with shorter | ⟨nothing, isEmpty⟩
          · omega
          · rw [nothing, isEmpty]
            omega

/-- A tap and a captured output take a part of what is written. -/
theorem Process.reaching_shorter
    {process : Process}
    {fd : Int}
    (takes : fd = process.glue.tunFd ∨ process.glue.Captures fd)
    (intent : OpenIntent)
    (chunks : List (List Byte)) :
    (intent.accepted (process.reaching fd chunks)).length <
        (intent.accepted chunks).length ∨
      intent.accepted (process.reaching fd chunks) = [] ∧
        intent.accepted chunks = [] := by
  unfold OpenIntent.accepted
  by_cases writes : intent.writes
  · simp only [writes, ↓reduceIte]
    unfold reaching
    split
    · exact packets_shorter ..
    · rename_i notTun
      rw [if_pos (takes.resolve_left notTun)]
      cases chunks.flatten with
      | nil => exact .inr ⟨rfl, rfl⟩
      | cons byte bytes => exact .inl (Nat.succ_pos _)
  · simp [writes]

/-- The two calls are a session of the host's `open` and `write`. -/
theorem Process.openAndWrite_eq
    {chunks : List (List Byte)}
    (registers :
      ∃ opened,
        process.implOpen64 path flags.toNat mode fd buf junk = .ok opened) :
    process.openAndWrite files path flags mode fd buf junk chunks =
      .ok (files.session flags.intent.plain (openPath path)
        (process.reaching fd chunks)) := by
  obtain ⟨⟨next, ret⟩, opens⟩ := registers
  obtain ⟨tracked, tracks, isNext⟩ := bind_eq_ok.mp opens
  cases isNext
  have sameGlue := (trackFd_completed tracks).2
  have sameTun : next.glue.tunFd = process.glue.tunFd := by
    rw [sameGlue]
  have sameTap : next.glue.tuntap = process.glue.tuntap := by
    rw [sameGlue]
  have sameCaptures : next.glue.Captures fd ↔ process.glue.Captures fd := by
    rw [sameGlue]
    exact Iff.rfl
  unfold openAndWrite Files.session reaching
  rw [intent_openFlags]
  cases isOpened : files.opened flags.intent.plain (openPath path) with
  | none =>
      simp only [isOpened]
  | some opened =>
      simp only [isOpened, opens, ok_bind]
      by_cases isTun : fd = process.glue.tunFd
      · rw [Glue.writeChunks_tun (isTun.trans sameTun.symm), if_pos isTun,
          sameTap]
        rfl
      have notTun : fd ≠ next.glue.tunFd := fun same =>
        isTun (same.trans sameTun)
      by_cases captures : process.glue.Captures fd
      · rw [Glue.writeChunks_captured notTun (sameCaptures.mpr captures),
          if_neg isTun, if_pos captures]
        rfl
      · rw [Glue.writeChunks_handedOn notTun (mt sameCaptures.mp captures),
          if_neg isTun, if_neg captures]
        rfl

/-- The code leaves what Linux leaves. -/
def Process.Emulates
    (process : Process)
    (files : Files String Byte)
    (path : String)
    (flags : LinuxOpenFlags)
    (mode : Nat)
    (fd : Int)
    (buf : Addr)
    (junk : Resource Finaliser Payload)
    (chunks : List (List Byte)) : Prop :=
  ∃ opens final,
    process.openAndWrite files path flags mode fd buf junk chunks =
        .ok (opens, final) ∧
      (opens, linuxFiles final) =
        (linuxFiles files).session flags.intent path chunks

/-- The dropped flags are immaterial for what is written, or, if the tap or a
captured output takes the writes, they and the lost part of the writes are. -/
def Process.Immaterial
    (process : Process)
    (files : Files String Byte)
    (path : String)
    (flags : LinuxOpenFlags)
    (fd : Int)
    (chunks : List (List Byte)) : Prop :=
  if fd = process.glue.tunFd ∨ process.glue.Captures fd then
    (linuxFiles files).Tolerates flags.intent path
      (process.reaching fd chunks) chunks
  else
    (linuxFiles files).Indifferent flags.intent path chunks

/-- For every path that is not a device, a file is opened and written as on
Linux exactly when the dropped flags are immaterial, and the bytes that the tap
or a captured output takes if the descriptor is theirs. -/
theorem Process.emulates_iff_immaterial
    {resources : List (Handles.Tracked Finaliser Payload)}
    (represents : Handles.Represents process.handles resources)
    (available : process.handles.heap.Available buf)
    (inTable : 0 ≤ fd ∧ fd < perFdSize)
    (isFile : path ≠ "/dev/urandom" ∧ path ≠ "/dev/net/tun")
    (files : Files String Byte)
    (chunks : List (List Byte)) :
    process.Emulates files path flags mode fd buf junk chunks ↔
      process.Immaterial files path flags fd chunks := by
  have isPrefixed : openPath path = buildFakePath path := by
    unfold openPath
    rw [if_neg isFile.1, if_neg isFile.2]
  have plain :=
    @Files.session_along _ _ _ _ _ _ buildFakePath_injective files
      flags.intent.plain path (process.reaching fd chunks)
  have registers :=
    implOpen64_registers represents available inTable path flags.toNat mode
      junk
  have sessions :
      process.Emulates files path flags mode fd buf junk chunks ↔
        (linuxFiles files).session flags.intent.plain path
            (process.reaching fd chunks) =
          (linuxFiles files).session flags.intent path chunks := by
    unfold Emulates linuxFiles
    rw [openAndWrite_eq registers, isPrefixed, plain]
    constructor
    · rintro ⟨opens, final, isDone, same⟩
      rw [Except.ok.inj isDone]
      exact same
    · intro same
      exact ⟨_, _, rfl, same⟩
  rw [sessions]
  unfold Immaterial
  split
  · rename_i takes
    exact Files.session_plain_shorter_iff
      (reaching_shorter takes flags.intent chunks)
  · rename_i reachesFile
    obtain ⟨notTun, notCaptured⟩ := not_or.mp reachesFile
    rw [reaching, if_neg notTun, if_neg notCaptured]
    exact Files.session_plain_iff chunks

/-- A configuration file of two bytes that may be read and written. -/
def configured : Files String Byte where
  contents := fun path =>
    if path = "/user/home/hamachi/etc/config" then some [1, 2] else none
  mayRead := fun _ => true
  mayWrite := fun _ => true
  mayCreate := fun _ => true

/-- `O_WRONLY|O_CREAT|O_TRUNC`. -/
def rewriting : LinuxOpenFlags where
  access := .wronly
  creat := true
  excl := false
  trunc := true
  append := false
  nonblock := false

/-- `O_WRONLY`. -/
def patching : LinuxOpenFlags where
  access := .wronly
  creat := false
  excl := false
  trunc := false
  append := false
  nonblock := false

/-- A process whose tap device was closed by an exit. -/
def Process.afterTap : Process :=
  { Process.initial with
    glue := { Process.initial.glue with tunFd := 3 } }

/-- A file is rewritten with as many bytes as it had; and a write that gets lost
because the descriptor was that of a tap wrote what was there. -/
theorem Process.emulates_rewriting :
    Process.initial.Emulates configured "/etc/config" rewriting 0 3 4096
        freshBlock [[3], [4]] ∧
      Process.afterTap.Emulates configured "/etc/config" patching 0 3 4096
        freshBlock [[1]] := by
  constructor
  · refine (@emulates_iff_immaterial .initial 3 "/etc/config" rewriting 0
      4096 freshBlock [] Handles.represents_initial (by decide) (by decide)
      (by decide) configured [[3], [4]]).mpr ?_
    unfold Immaterial
    rw [if_neg (by decide)]
    intro old exist _
    cases exist
    exact ⟨by decide, fun _ => ⟨rfl, by decide⟩, by decide⟩
  · refine (@emulates_iff_immaterial .afterTap 3 "/etc/config" patching 0
      4096 freshBlock [] Handles.represents_initial (by decide) (by decide)
      (by decide) configured [[1]]).mpr ?_
    unfold Immaterial
    rw [if_pos (.inl rfl)]
    refine ⟨fun absent => absurd absent (by decide), fun old exist _ => ?_⟩
    cases exist
    exact ⟨by decide, by decide, by decide⟩

/-- A shorter configuration keeps the end of the longer one. -/
theorem Process.not_emulates_shorter :
    ¬ ∀ (path : String) (flags : LinuxOpenFlags) (chunks : List (List Byte)),
      path ≠ "/dev/urandom" ∧ path ≠ "/dev/net/tun" →
        Process.initial.Emulates configured path flags 0 3 4096 freshBlock
          chunks := by
  intro emulates
  obtain ⟨opens, final, done, same⟩ :=
    emulates "/etc/config" rewriting [[3]] (by decide)
  rw [openAndWrite_eq ⟨_, rfl⟩] at done
  cases done
  have contents := congrArg (fun result =>
    (Prod.snd result).contents "/etc/config") same
  exact absurd contents (by decide)

end Hamachi
