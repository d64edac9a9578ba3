import Hamachi.CString

namespace Hamachi

/-!
# The network list of `utils.c`

`list_networks` goes twice over the lines of the captured output: to count the
networks and the bytes of their names, and to copy the names into a block that
starts with an array of pointers to them.
-/

/-- `split_lines`. -/
def splitLines (data : List Byte) (sz : Nat) : Except Fault (List Byte) :=
  if sz ≤ data.length then
    .ok ((data.take sz).map (fun byte => if byte = newline then 0 else byte) ++
      data.drop sz)
  else
    .error .outOfBounds

/-- What stands before the name of a network. -/
def networkMark : List Byte := chars " * ["

/-- `strchr(p, ']')` on a line that has the mark. -/
def bracketOf (buf : List Byte) (p : Nat) : Except Fault (Option Nat) := do
  if ← startsWith buf p networkMark then
    strchr buf p closingBracket
  else
    .ok none

/-- `while(p != endp)` over the lines; `found` is what the loop does with a line
at `p` that has the mark and a `]` at `ss`. -/
def scanLines
    (buf : List Byte)
    (endp : Nat)
    (found : Result → Nat → Nat → Except Fault Result) :
    Nat → Nat → Result → Except Fault Result
  | fuel, p, result =>
      if p = endp then
        .ok result
      else
        match fuel with
        | 0 => .error .outOfFuel
        | fuel + 1 => do
            let ss ← bracketOf buf p
            let result ← ss.elim (.ok result) (found result p)
            let length ← strlen buf p
            scanLines buf endp found fuel (p + length + 1) result

/-- `nnets` and `lnets`. -/
structure NetworkCounts where
  nnets : Nat
  lnets : Nat
  deriving DecidableEq

/-- The first loop counts a name and its terminator. -/
def countNetwork
    (counts : NetworkCounts)
    (p ss : Nat) :
    Except Fault NetworkCounts :=
  .ok {
    nnets := counts.nnets + 1
    lnets := counts.lnets + (ss - (p + 4) + 1)
  }

/-- The block of the result, of `size` bytes: `nnets` pointers and the names
that they point to; `ptrc` is the offset of the next name. -/
structure NetworkArray where
  nnets : Nat
  size : Nat
  ptrs : List Nat
  ptrc : Nat
  names : List (List Byte)
  deriving DecidableEq

/-- The second loop stores a pointer, the name and its terminator. -/
def copyNetwork
    (buf : List Byte)
    (array : NetworkArray)
    (p ss : Nat) :
    Except Fault NetworkArray :=
  let length := ss - (p + 4)
  if array.ptrs.length < array.nnets ∧
      array.ptrc + length + 1 ≤ array.size then
    .ok { array with
      ptrs := array.ptrs ++ [array.ptrc]
      ptrc := array.ptrc + length + 1
      names := array.names ++ [(buf.drop (p + 4)).take length] }
  else
    .error .outOfBounds

/-- The two loops of `list_networks` over the captured block. -/
def parseNetworks (buf : List Byte) (sz : Nat) : Except Fault NetworkArray := do
  let buf ← splitLines buf sz
  -- Every line takes at least its terminator.
  let fuel := buf.length + 1
  let counts ← scanLines buf sz countNetwork fuel 0 ⟨0, 0⟩
  scanLines buf sz (copyNetwork buf) fuel 0 {
    nnets := counts.nnets
    size := 8 * counts.nnets + counts.lnets
    ptrs := []
    ptrc := 8 * counts.nnets
    names := []
  }

example :
    (parseNetworks (chars "Networks:\n * [one]\n * [two] x\n" ++ [0]) 30).map
      (fun array => (array.nnets, array.names)) =
        .ok (2, [chars "one", chars "two"]) := by
  decide

end Hamachi
