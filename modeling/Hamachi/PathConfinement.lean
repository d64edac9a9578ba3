import Hamachi.FileTree
import Hamachi.Glue

namespace Hamachi

/-!
# The files of the emulated program

`glue.c` puts a prefix in front of the paths that the Linux program names.  For
absolute paths that never climb above the root this makes the directory of the
prefix the program's whole file system, as `chroot` would.
-/

/-- What the glue asks the host about a file. -/
inductive HostRequest where
  | stat
  | mkdir (mode : Nat)
  | open (flags mode : Nat)
  | fopen (mode : String)
  | unlink
  deriving DecidableEq

/-- The file calls of the Linux program. -/
inductive PathCall where
  | xstat64 (path : String)
  | mkdir (path : String) (mode : Nat)
  | open64 (path : String) (flags mode : Nat)
  | fopen64 (path mode : String)
  | unlink (path : String)
  deriving DecidableEq

/-- The host's file system calls: what they do at the end of a path, which
files are directories that may be searched, what they return when the path
leads nowhere, and which streams are not null. -/
structure HostFiles (Node Answer : Type) where
  op : HostRequest → FileOp Node Answer
  searchable : Node → Bool
  failed : Answer
  opened : Answer → Bool

/-- The files, and whether `log_handle` is set. -/
structure PathState (Node : Type) where
  tree : FileTree (List Char) Node
  logHandle : Bool

/-- Where a component of a path leads. -/
def component : List Char → Hop (List Char)
  | [] => .stay
  | ['.'] => .stay
  | ['.', '.'] => .up
  | name => .down name

/-- The components of a path. -/
def hopsOf (path : String) : List (Hop (List Char)) :=
  (path.toList.splitOn '/').map component

namespace PathCall

/-- The path that the program names. -/
def path : PathCall → String
  | .xstat64 path => path
  | .mkdir path _ => path
  | .open64 path _ _ => path
  | .fopen64 path _ => path
  | .unlink path => path

/-- The path that the glue passes to the host. -/
def hostPath : PathCall → String
  | .xstat64 path => buildFakePath path
  | .mkdir path _ => buildFakePath path
  | .open64 path _ _ => openPath path
  | .fopen64 path _ => buildFakePath path
  | .unlink path => buildFakePath path

/-- The call opens the log of the engine. -/
def OpensLog : PathCall → Prop
  | .fopen64 path _ => path = linuxLogPath
  | _ => False

instance : DecidablePred OpensLog
  | .fopen64 path _ => inferInstanceAs (Decidable (path = linuxLogPath))
  | .xstat64 _ => .isFalse id
  | .mkdir _ _ => .isFalse id
  | .open64 _ _ _ => .isFalse id
  | .unlink _ => .isFalse id

/-- What the glue asks the host, if it does not answer by itself: the tun
device is faked, and the log is opened once. -/
def request (logHandle : Bool) : PathCall → Option HostRequest
  | .xstat64 path =>
      if path = "/dev/net/tun" then
        none
      else
        some .stat
  | .mkdir _ mode => some (.mkdir mode)
  | .open64 _ flags mode => some (.open (openFlags flags) mode)
  | .fopen64 path mode =>
      if path = linuxLogPath then
        if logHandle then
          none
        else
          some (.fopen "w")
      else
        some (.fopen mode)
  | .unlink _ => some .unlink

variable {Node Answer : Type}

/-- One call; `place` is the path that the file system gets for it. -/
def perform
    (files : HostFiles Node Answer)
    (place : PathCall → String)
    (state : PathState Node)
    (call : PathCall) : Except Fault (Option Answer × PathState Node) :=
  match call.request state.logHandle with
  | none => .ok (none, state)
  | some request =>
      let (answer, tree) :=
        state.tree.perform files.searchable files.failed (files.op request) []
          (hopsOf (place call))
      if call.OpensLog ∧ files.opened answer = false then
        -- `setvbuf` is called without a test of the stream.
        .error .nullPointer
      else
        .ok (some answer, {
          tree := tree
          logHandle := state.logHandle || call.OpensLog
        })

/-- Calls in order, with their answers. -/
def performAll
    (files : HostFiles Node Answer)
    (place : PathCall → String) :
    PathState Node →
    List PathCall →
    Except Fault (List (Option Answer) × PathState Node)
  | state, [] => .ok ([], state)
  | state, call :: rest => do
      let (answer, state) ← call.perform files place state
      let (answers, state) ← performAll files place state rest
      .ok (answer :: answers, state)

end PathCall

/-- The location of the prefix. -/
def pathPrefixLocation : List (List Char) :=
  [['u', 's', 'e', 'r'], ['h', 'o', 'm', 'e'], ['h', 'a', 'm', 'a', 'c', 'h', 'i']]

variable {Node Answer : Type}

/-- What the program sees: the files below the prefix. -/
def PathState.seen (state : PathState Node) : PathState Node where
  tree := state.tree.below pathPrefixLocation
  logHandle := state.logHandle

/-- The hops of a prefixed absolute path are those of the prefix and then those
of the path after its slash. -/
theorem hopsOf_buildFakePath
    {path : String}
    {rest : List Char}
    (absolute : path.toList = '/' :: rest) :
    hopsOf (buildFakePath path) =
        hopsOf pathPrefix ++ (rest.splitOn '/').map component ∧
      hopsOf path = .stay :: (rest.splitOn '/').map component := by
  constructor
  · rw [hopsOf, buildFakePath, String.toList_append, absolute,
      List.splitOn_append_cons_self, List.map_append]
    rfl
  · rw [hopsOf, absolute, show '/' :: rest = [] ++ '/' :: rest from rfl,
      List.splitOn_append_cons_self]
    rfl

section Leaving

/-- A text without separators is put in front of the first component. -/
theorem splitOn_append_first
    {text : List Char}
    (noSlash : '/' ∉ text)
    {rest first : List Char}
    {others : List (List Char)}
    (split : rest.splitOn '/' = first :: others) :
    (text ++ rest).splitOn '/' = (text ++ first) :: others := by
  induction text with
  | nil =>
      exact split
  | cons char text inductionHypothesis =>
      obtain ⟨notSlash, noSlash⟩ :=
        not_or.mp (mt List.mem_cons.mpr noSlash)
      rw [List.cons_append, List.splitOn_cons_eq_if_modifyHead,
        inductionHypothesis noSlash, if_neg (by simpa using Ne.symm notSlash)]
      rfl

/-- A path that starts with anything but a slash runs together with the
prefix. -/
theorem hopsOf_relative
    {path : String}
    {char : Char}
    {rest : List Char}
    (relative : path.toList = char :: rest)
    (notSlash : char ≠ '/') :
    ∃ name others,
      hopsOf (buildFakePath path) =
          [.stay, .down ['u', 's', 'e', 'r'], .down ['h', 'o', 'm', 'e'],
            .down name] ++ others ∧
        name ≠ ['h', 'a', 'm', 'a', 'c', 'h', 'i'] := by
  obtain ⟨first, others, split⟩ :=
    List.exists_cons_of_ne_nil (List.splitOn_ne_nil '/' rest)
  have whole :
      (char :: rest).splitOn '/' = (char :: first) :: others := by
    rw [List.splitOn_cons_eq_if_modifyHead, split,
      if_neg (by simpa using notSlash)]
    rfl
  have layout :
      (buildFakePath path).toList =
        [] ++ '/' :: (['u', 's', 'e', 'r'] ++ '/' :: (['h', 'o', 'm', 'e'] ++
          '/' :: (['h', 'a', 'm', 'a', 'c', 'h', 'i'] ++ char :: rest))) := by
    rw [buildFakePath, String.toList_append, relative]
    rfl
  refine ⟨['h', 'a', 'm', 'a', 'c', 'h', 'i'] ++ char :: first,
    others.map component, ?_, by simp⟩
  rw [hopsOf, layout, List.splitOn_append_cons_self,
    List.splitOn_append_cons_self, List.splitOn_append_cons_self,
    splitOn_append_first (by decide) whole]
  rfl

/-- The locations that a prefixed path leads through, once it has passed the
prefix, are below the prefix exactly for the empty path and for absolute paths
that never climb above the root. -/
theorem staysBelow_iff (path : String) :
    (∀ leading,
      leading <+: hopsOf (buildFakePath path) →
        4 ≤ leading.length →
          pathPrefixLocation <+: Hop.leadsAll [] leading) ↔
      path = "" ∨
        (∃ rest, path.toList = '/' :: rest) ∧
          Hop.NeverClimb 0 (hopsOf path) := by
  have prefixHops :
      hopsOf pathPrefix =
        [.stay, .down ['u', 's', 'e', 'r'], .down ['h', 'o', 'm', 'e'],
          .down ['h', 'a', 'm', 'a', 'c', 'h', 'i']] := by
    decide
  cases isPath : path.toList with
  | nil =>
      obtain rfl : path = "" := String.toList_eq_nil_iff.mp isPath
      refine ⟨fun _ => .inl rfl, fun _ leading isPrefix long => ?_⟩
      have whole : leading = hopsOf pathPrefix := by
        refine isPrefix.eq_of_length_le ?_
        rw [show buildFakePath "" = pathPrefix from rfl, prefixHops]
        exact long
      rw [whole, prefixHops]
      decide
  | cons char rest =>
      have nonempty : path ≠ "" := by
        rintro rfl
        cases isPath
      by_cases isSlash : char = '/'
      · subst isSlash
        obtain ⟨hostHops, seenHops⟩ := hopsOf_buildFakePath isPath
        have inside := Hop.neverClimb_iff
          (show pathPrefixLocation ≠ [] by decide) []
          ((rest.splitOn '/').map component)
        rw [List.append_nil] at inside
        rw [hostHops, seenHops, or_iff_right nonempty,
          and_iff_right ⟨rest, rfl⟩]
        refine Iff.trans ?_ inside.symm
        constructor
        · intro below leading isPrefix
          have beyond := below (hopsOf pathPrefix ++ leading)
            ((List.prefix_append_right_inj _).mpr isPrefix)
            (by rw [List.length_append, prefixHops]; exact Nat.le_add_right ..)
          rwa [Hop.leadsAll_append] at beyond
        · intro below leading isPrefix long
          obtain ⟨later, rfl⟩ :
              ∃ later, leading = hopsOf pathPrefix ++ later := by
            have first : hopsOf pathPrefix <+: leading :=
              List.prefix_of_prefix_length_le (List.prefix_append _ _)
                isPrefix (by rw [prefixHops]; exact long)
            obtain ⟨later, isLater⟩ := first
            exact ⟨later, isLater.symm⟩
          rw [Hop.leadsAll_append]
          exact below later
            ((List.prefix_append_right_inj _).mp isPrefix)
      · obtain ⟨name, others, hops, different⟩ :=
          hopsOf_relative isPath isSlash
        constructor
        · intro below
          have outside := below _ (hops ▸ List.prefix_append _ others)
            (le_refl 4)
          exact absurd outside (by
            simpa [Hop.leadsAll, Hop.leads, pathPrefixLocation]
              using different.symm)
        · rintro (isEmpty | ⟨⟨_, absolute⟩, _⟩)
          · exact absurd isEmpty nonempty
          · cases absolute
            exact absurd rfl isSlash

end Leaving

namespace PathCall

end PathCall

end Hamachi
