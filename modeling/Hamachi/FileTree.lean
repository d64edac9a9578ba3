import Mathlib.Data.List.Infix
import Mathlib.Logic.Function.Basic

namespace Hamachi

/-!
# Paths in a tree of files

A file lies at a location, the names from the root down to it.  A path is
walked hop by hop, through directories only; the operations on it act on the
file at the location where the walk ends.  A tree mounted at a location of a
larger one is used by paths that never climb above its root as if it stood
alone.
-/

variable {Name Node Answer : Type}

/-- Where a component of a path leads. -/
inductive Hop (Name : Type) where
  | stay
  | up
  | down (name : Name)
  deriving DecidableEq

/-- The files by their location. -/
abbrev FileTree (Name Node : Type) :=
  List Name → Option Node

/-- What an operation does to the file at a location, if there is one. -/
abbrev FileOp (Node Answer : Type) :=
  Option Node → Answer × Option Node

namespace Hop

/-- The location after a hop; above the root is the root. -/
def leads (location : List Name) : Hop Name → List Name
  | stay => location
  | up => location.dropLast
  | down name => location ++ [name]

/-- The hops never lead above the location that is `depth` levels up. -/
def NeverClimb : Nat → List (Hop Name) → Prop
  | _, [] => True
  | depth, stay :: rest => NeverClimb depth rest
  | 0, up :: _ => False
  | depth + 1, up :: rest => NeverClimb depth rest
  | depth, down _ :: rest => NeverClimb (depth + 1) rest

instance NeverClimb.decidable :
    ∀ (depth : Nat) (hops : List (Hop Name)),
      Decidable (NeverClimb depth hops)
  | _, [] => .isTrue trivial
  | depth, stay :: rest => decidable depth rest
  | 0, up :: _ => .isFalse id
  | depth + 1, up :: rest => decidable depth rest
  | depth, down _ :: rest => decidable (depth + 1) rest

/-- A hop that does not climb above the root stays below it. -/
theorem NeverClimb.cons
    (root : List Name)
    {location : List Name}
    {hop : Hop Name}
    {rest : List (Hop Name)}
    (inside : NeverClimb location.length (hop :: rest)) :
    hop.leads (root ++ location) = root ++ hop.leads location ∧
      NeverClimb (hop.leads location).length rest := by
  cases hop with
  | stay =>
      exact ⟨rfl, inside⟩
  | up =>
      rcases List.eq_nil_or_concat' location with rfl | ⟨init, last, rfl⟩
      · exact inside.elim
      · rw [List.length_append] at inside
        rw [leads, leads, ← List.append_assoc, List.dropLast_concat,
          List.dropLast_concat]
        exact ⟨rfl, inside⟩
  | down name =>
      refine ⟨List.append_assoc .., ?_⟩
      rw [leads, List.length_append]
      exact inside

/-- A hop that does not climb, before hops that do not. -/
theorem NeverClimb.append
    {location : List Name}
    {hop : Hop Name}
    {rest : List (Hop Name)}
    (inside : NeverClimb location.length [hop])
    (later : NeverClimb (hop.leads location).length rest) :
    NeverClimb location.length (hop :: rest) := by
  cases hop with
  | stay =>
      exact later
  | up =>
      rcases List.eq_nil_or_concat' location with rfl | ⟨init, last, rfl⟩
      · exact inside.elim
      · rw [leads, List.dropLast_concat] at later
        rw [List.length_append]
        exact later
  | down name =>
      rw [leads, List.length_append] at later
      exact later

/-- The location after a list of hops. -/
def leadsAll (location : List Name) (hops : List (Hop Name)) : List Name :=
  hops.foldl (fun location hop => hop.leads location) location

theorem leadsAll_append
    (location : List Name)
    (first later : List (Hop Name)) :
    leadsAll location (first ++ later) =
      leadsAll (leadsAll location first) later :=
  List.foldl_append

/-- Hops stay below a root that is not the root of everything exactly when
they never climb above it. -/
theorem neverClimb_iff
    {root : List Name}
    (mounted : root ≠ [])
    (location : List Name)
    (hops : List (Hop Name)) :
    NeverClimb location.length hops ↔
      ∀ leading,
        leading <+: hops → root <+: leadsAll (root ++ location) leading := by
  induction hops generalizing location with
  | nil =>
      refine ⟨fun _ leading isPrefix => ?_, fun _ => trivial⟩
      rw [List.prefix_nil.mp isPrefix]
      exact List.prefix_append root location
  | cons hop rest inductionHypothesis =>
      constructor
      · intro inside leading isPrefix
        obtain ⟨moved, later⟩ := inside.cons root
        cases leading with
        | nil =>
            exact List.prefix_append root location
        | cons first leading =>
            obtain ⟨rfl, shorter⟩ := List.cons_prefix_cons.mp isPrefix
            have below :=
              (inductionHypothesis (first.leads location)).mp later leading
                shorter
            rwa [← moved] at below
      · intro below
        have notAbove : hop = .up → location ≠ [] := by
          rintro rfl rfl
          have climbed :=
            (below [.up] (List.prefix_append [.up] rest)).length_le
          simp only [leadsAll, List.foldl_cons, List.foldl_nil, leads,
            List.append_nil, List.length_dropLast] at climbed
          have := List.length_pos_iff.mpr mounted
          omega
        have inside : NeverClimb location.length [hop] := by
          cases hop with
          | stay =>
              trivial
          | up =>
              obtain ⟨name, others, rfl⟩ :=
                List.exists_cons_of_ne_nil (notAbove rfl)
              trivial
          | down name =>
              trivial
        have later : NeverClimb (hop.leads location).length rest := by
          refine (inductionHypothesis _).mpr fun leading isPrefix => ?_
          rw [← (inside.cons root).1]
          exact below (hop :: leading)
            (List.cons_prefix_cons.mpr ⟨rfl, isPrefix⟩)
        exact inside.append later

end Hop

namespace FileTree

/-- Follow hops through directories that may be searched. -/
def walk
    (searchable : Node → Bool)
    (tree : FileTree Name Node) :
    List Name → List (Hop Name) → Option (List Name)
  | location, [] => some location
  | location, hop :: rest =>
      if (tree location).any searchable then
        walk searchable tree (hop.leads location) rest
      else
        none

/-- Perform an operation at the end of a walk. -/
def perform
    [DecidableEq Name]
    (searchable : Node → Bool)
    (failed : Answer)
    (op : FileOp Node Answer)
    (tree : FileTree Name Node)
    (location : List Name)
    (hops : List (Hop Name)) : Answer × FileTree Name Node :=
  match tree.walk searchable location hops with
  | none => (failed, tree)
  | some target =>
      ((op (tree target)).1,
        Function.update tree target (op (tree target)).2)

/-- The part of a tree below a location. -/
def below
    (tree : FileTree Name Node)
    (root : List Name) : FileTree Name Node :=
  fun location => tree (root ++ location)

variable
  {searchable : Node → Bool}
  {tree : FileTree Name Node}

section Perform

variable
  [DecidableEq Name]
  {failed : Answer}
  {op : FileOp Node Answer}

end Perform

end FileTree

end Hamachi
