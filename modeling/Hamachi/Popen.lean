import Hamachi.Buffer
import Mathlib.Algebra.Group.Nat.Defs

namespace Hamachi

/-!
# The capture buffer of `popen.c`

`popen_write` appends to a block that it grows by doubling, in the arithmetic of
`size_t`; `popen_get` hands the block out.  What the buffer stands for is the
list of bytes written since the last `popen_get`.
-/

/-- The number of values of `size_t`. -/
def sizeModulus : Nat := 2 ^ 64

/-- The statics of `popen.c`; `data` is the block at `popen_data`, of the size
last asked for, and is empty while the pointer is null. -/
structure Popen where
  data : List Byte
  sz : Nat
  cap : Nat
  isInPopen : Bool

/-- The contents of a block after `realloc` to `size` bytes. -/
def reallocated
    (old : List Byte)
    (size : Nat)
    (junk : Nat → Byte) :
    List Byte :=
  (List.range size).map fun index => old.getD index (junk index)

/-- `memcpy(block + offset, buf, sz)`. -/
def copyInto
    (block : List Byte)
    (offset : Nat)
    (buf : List Byte)
    (sz : Nat) :
    Except Fault (List Byte) :=
  if sz ≤ buf.length ∧ (sz = 0 ∨ offset + sz ≤ block.length) then
    .ok (block.take offset ++ buf.take sz ++ block.drop (offset + sz))
  else
    .error .outOfBounds

/-- `while(need > new_cap) new_cap *= 2;` -/
def growCap (need : Nat) : Nat → Nat → Except Fault Nat
  | fuel, newCap =>
      if need > newCap then
        match fuel with
        | 0 => .error .outOfFuel
        | fuel + 1 => growCap need fuel (newCap * 2 % sizeModulus)
      else
        .ok newCap

/-- A capacity is zero or a power of two of a `size_t`. -/
def IsCapacity (cap : Nat) : Prop :=
  cap = 0 ∨ ∃ k ≤ 63, cap = 2 ^ k

namespace Popen

/-- The statics at program start and after `popen_get`. -/
def empty : Popen where
  data := []
  sz := 0
  cap := 0
  isInPopen := false

/-- `popen_write`; a block that `realloc` enlarges ends in `junk`. -/
def write
    (popen : Popen)
    (buf : List Byte)
    (sz : Nat)
    (junk : Nat → Byte) :
    Except Fault Popen := do
  let newCap := popen.cap
  let newCap := if sz ≠ 0 ∧ newCap = 0 then newCap + 1 else newCap
  -- Doubling a power of two passes every bit of a `size_t` in 64 steps.
  let newCap ← growCap ((popen.sz + sz) % sizeModulus) 64 newCap
  let popen :=
    if newCap > popen.cap then
      { popen with
        data := reallocated popen.data newCap junk
        cap := newCap }
    else
      popen
  let data ← copyInto popen.data popen.sz buf sz
  .ok { popen with data := data, sz := (popen.sz + sz) % sizeModulus }

/-- `popen_get`: the block, its size and the statics afterwards. -/
def get (popen : Popen) : List Byte × Nat × Popen :=
  (popen.data, popen.sz, empty)

/-- The bytes that `popen_get` delivers. -/
def delivered (popen : Popen) : List Byte :=
  popen.get.1.take popen.get.2.1

/-- The buffer stands for a list of bytes. -/
structure Holds (popen : Popen) (bytes : List Byte) : Prop where
  block : popen.data.length = popen.cap
  capacity : IsCapacity popen.cap
  size : popen.sz = bytes.length
  contents : popen.delivered = bytes

end Popen

theorem IsCapacity.le
    {cap : Nat}
    (isCapacity : IsCapacity cap) :
    cap ≤ 2 ^ 63 := by
  rcases isCapacity with rfl | ⟨k, bound, rfl⟩
  · exact Nat.zero_le _
  · exact Nat.pow_le_pow_right (by decide) bound

/-- Doubling keeps a capacity one: the last one wraps to zero. -/
theorem IsCapacity.double
    {cap : Nat}
    (isCapacity : IsCapacity cap) :
    IsCapacity (cap * 2 % sizeModulus) := by
  rcases isCapacity with rfl | ⟨k, bound, rfl⟩
  · exact .inl rfl
  · rcases Nat.lt_or_eq_of_le bound with below | rfl
    · have fits : 2 ^ (k + 1) < sizeModulus :=
        Nat.pow_lt_pow_right (by decide) (by omega)
      rw [← Nat.pow_succ, Nat.mod_eq_of_lt fits]
      exact .inr ⟨k + 1, below, rfl⟩
    · exact .inl (by decide)

/-- What the loop returns is a capacity for the need. -/
theorem growCap_completed
    {need fuel cap grown : Nat}
    (isCapacity : IsCapacity cap)
    (grows : growCap need fuel cap = .ok grown) :
    IsCapacity grown ∧ need ≤ grown := by
  induction fuel generalizing cap with
  | zero =>
      rw [growCap] at grows
      split at grows
      · cases grows
      · cases grows
        exact ⟨isCapacity, by omega⟩
  | succ fuel inductionHypothesis =>
      rw [growCap] at grows
      split at grows
      · exact inductionHypothesis isCapacity.double grows
      · cases grows
        exact ⟨isCapacity, by omega⟩

/-- From a power of two the loop returns for every need up to `2 ^ 63`. -/
theorem growCap_returns
    {need fuel k : Nat}
    (bound : k ≤ 63)
    (enough : 63 ≤ k + fuel)
    (small : need ≤ 2 ^ 63) :
    ∃ grown, growCap need fuel (2 ^ k) = .ok grown := by
  induction fuel generalizing k with
  | zero =>
      obtain rfl : k = 63 := by
        omega
      refine ⟨2 ^ 63, ?_⟩
      rw [growCap, if_neg (by omega)]
  | succ fuel inductionHypothesis =>
      rw [growCap]
      split
      · rename_i larger
        have below : k < 63 := by
          by_contra last
          obtain rfl : k = 63 := by
            omega
          omega
        have fits : 2 ^ (k + 1) < sizeModulus :=
          Nat.pow_lt_pow_right (by decide) (by omega)
        rw [← Nat.pow_succ, Nat.mod_eq_of_lt fits]
        exact inductionHypothesis below (by omega)
      · exact ⟨_, rfl⟩

/-- A need above `2 ^ 63` is never met, however long the loop runs. -/
theorem growCap_diverges
    {need cap : Nat}
    (isCapacity : IsCapacity cap)
    (large : 2 ^ 63 < need)
    (fuel : Nat) :
    growCap need fuel cap = .error .outOfFuel := by
  have below := isCapacity.le
  induction fuel generalizing cap with
  | zero =>
      rw [growCap, if_pos (by omega)]
  | succ fuel inductionHypothesis =>
      rw [growCap, if_pos (by omega)]
      exact inductionHypothesis isCapacity.double isCapacity.double.le

/-- A larger block begins with the old contents. -/
theorem reallocated_take
    {old : List Byte}
    {size kept : Nat}
    (junk : Nat → Byte)
    (inside : kept ≤ old.length)
    (larger : kept ≤ size) :
    (reallocated old size junk).take kept = old.take kept := by
  apply List.ext_getElem
  · simp [reallocated, inside, larger]
  · intro index below _
    simp only [reallocated, List.length_take, List.length_map,
      List.length_range] at below
    simp [reallocated, List.getD_eq_getElem?_getD,
      List.getElem?_eq_getElem (show index < old.length by omega)]

/-- A copy inside a block keeps its size and what stands before. -/
theorem copyInto_completed
    {block buf copied : List Byte}
    {offset sz : Nat}
    (inside : offset ≤ block.length)
    (copies : copyInto block offset buf sz = .ok copied) :
    sz ≤ buf.length ∧
      offset + sz ≤ block.length ∧
      copied.length = block.length ∧
      copied.take (offset + sz) = block.take offset ++ buf.take sz := by
  unfold copyInto at copies
  split at copies
  · rename_i bounds
    obtain ⟨readable, writable⟩ := bounds
    cases copies
    have fits : offset + sz ≤ block.length := by
      omega
    have head :
        (block.take offset ++ buf.take sz).length = offset + sz := by
      simp [inside, readable]
    refine ⟨readable, fits, ?_, ?_⟩
    · rw [List.length_append, head, List.length_drop]
      omega
    · rw [← head, List.take_left]
  · cases copies

/-- A copy inside a block returns. -/
theorem copyInto_inside
    {block buf : List Byte}
    {offset sz : Nat}
    (readable : sz ≤ buf.length)
    (writable : offset + sz ≤ block.length) :
    ∃ copied, copyInto block offset buf sz = .ok copied := by
  unfold copyInto
  rw [if_pos ⟨readable, .inr writable⟩]
  exact ⟨_, rfl⟩

namespace Popen

variable
  {popen next : Popen}
  {bytes : List Byte}

theorem delivered_eq (popen : Popen) :
    popen.delivered = popen.data.take popen.sz :=
  rfl

theorem holds_empty : empty.Holds [] where
  block := rfl
  capacity := .inl rfl
  size := rfl
  contents := rfl

/-- The bytes lie inside the block. -/
theorem Holds.inside
    (holds : popen.Holds bytes) :
    popen.sz ≤ popen.data.length := by
  have length := congrArg List.length holds.contents
  rw [← holds.size, delivered_eq, List.length_take] at length
  omega

/-- The buffer after the growth of `popen_write`. -/
def grownTo
    (popen : Popen)
    (newCap : Nat)
    (junk : Nat → Byte) :
    Popen :=
  if newCap > popen.cap then
    { popen with
      data := reallocated popen.data newCap junk
      cap := newCap }
  else
    popen

/-- Growing keeps the bytes. -/
theorem Holds.grownTo
    (holds : popen.Holds bytes)
    {newCap : Nat}
    (isCapacity : IsCapacity newCap)
    (junk : Nat → Byte) :
    (popen.grownTo newCap junk).Holds bytes := by
  unfold Popen.grownTo
  split
  · rename_i larger
    have inside := holds.inside
    have block := holds.block
    refine ⟨by simp [reallocated], isCapacity, holds.size, ?_⟩
    rw [← holds.contents]
    exact reallocated_take junk inside
      (show popen.sz ≤ newCap by omega)
  · exact holds

theorem grownTo_sz
    (popen : Popen)
    (newCap : Nat)
    (junk : Nat → Byte) :
    (popen.grownTo newCap junk).sz = popen.sz := by
  unfold grownTo
  split <;> rfl

theorem grownTo_isInPopen
    (popen : Popen)
    (newCap : Nat)
    (junk : Nat → Byte) :
    (popen.grownTo newCap junk).isInPopen = popen.isInPopen := by
  unfold grownTo
  split <;> rfl

theorem grownTo_cap
    (popen : Popen)
    (newCap : Nat)
    (junk : Nat → Byte) :
    newCap ≤ (popen.grownTo newCap junk).cap := by
  unfold grownTo
  split
  · exact le_rfl
  · omega

/-- The capacity from which `popen_write` starts to double. -/
def startCap (popen : Popen) (sz : Nat) : Nat :=
  if sz ≠ 0 ∧ popen.cap = 0 then popen.cap + 1 else popen.cap

theorem Holds.startCap
    (holds : popen.Holds bytes)
    (sz : Nat) :
    IsCapacity (popen.startCap sz) := by
  unfold Popen.startCap
  split
  · rename_i isNew
    exact .inr ⟨0, by decide, by omega⟩
  · exact holds.capacity

/-- The stages of `popen_write`. -/
theorem write_eq
    (popen : Popen)
    (buf : List Byte)
    (sz : Nat)
    (junk : Nat → Byte) :
    popen.write buf sz junk =
      (growCap ((popen.sz + sz) % sizeModulus) 64 (popen.startCap sz) >>=
        fun newCap =>
          let grown := popen.grownTo newCap junk
          copyInto grown.data grown.sz buf sz >>= fun data =>
            .ok { grown with
              data := data
              sz := (grown.sz + sz) % sizeModulus }) :=
  rfl

/-- A completed `popen_write` appended the bytes. -/
theorem Holds.write_completed
    {buf : List Byte}
    {sz : Nat}
    {junk : Nat → Byte}
    (holds : popen.Holds bytes)
    (writes : popen.write buf sz junk = .ok next) :
    next.Holds (bytes ++ buf.take sz) ∧
      next.isInPopen = popen.isInPopen := by
  rw [write_eq] at writes
  obtain ⟨newCap, grows, rest⟩ := bind_eq_ok.mp writes
  obtain ⟨data, copies, isNext⟩ := bind_eq_ok.mp rest
  have isCapacity := (growCap_completed (holds.startCap sz) grows).1
  have grown := holds.grownTo isCapacity junk
  obtain ⟨readable, fits, sameLength, contents⟩ :=
    copyInto_completed grown.inside copies
  have noWrap :
      (popen.grownTo newCap junk).sz + sz < sizeModulus := by
    have bound := IsCapacity.le grown.capacity
    have block := grown.block
    have wide : 2 ^ 63 < sizeModulus := by
      decide
    omega
  rw [Nat.mod_eq_of_lt noWrap] at isNext
  cases isNext
  refine ⟨⟨?_, grown.capacity, ?_, ?_⟩, grownTo_isInPopen _ _ _⟩
  · exact sameLength.trans grown.block
  · change (popen.grownTo newCap junk).sz + sz = _
    rw [grown.size, List.length_append, List.length_take,
      Nat.min_eq_left readable]
  · change data.take ((popen.grownTo newCap junk).sz + sz) = _
    rw [contents]
    exact congrArg (· ++ _) grown.contents

/-- The bytes of a buffer fit a `size_t`. -/
theorem Holds.length_le
    (holds : popen.Holds bytes) :
    bytes.length ≤ 2 ^ 63 := by
  have inside := holds.inside
  rw [holds.size, holds.block] at inside
  exact inside.trans (IsCapacity.le holds.capacity)

/-- Up to `2 ^ 63` bytes in total `popen_write` returns. -/
theorem Holds.write_returns
    {buf : List Byte}
    (holds : popen.Holds bytes)
    (junk : Nat → Byte)
    (small : bytes.length + buf.length ≤ 2 ^ 63) :
    ∃ next, popen.write buf buf.length junk = .ok next := by
  have need : (popen.sz + buf.length) % sizeModulus =
      bytes.length + buf.length := by
    rw [holds.size]
    have wide : 2 ^ 63 < sizeModulus := by
      decide
    exact Nat.mod_eq_of_lt (by omega)
  have grows :
      ∃ newCap,
        growCap ((popen.sz + buf.length) % sizeModulus) 64
          (popen.startCap buf.length) = .ok newCap := by
    rw [need]
    rcases holds.startCap buf.length with isZero | ⟨k, bound, isPower⟩
    · refine ⟨0, ?_⟩
      have nothing : bytes.length + buf.length = 0 := by
        have inside := holds.inside
        rw [holds.block, holds.size] at inside
        unfold Popen.startCap at isZero
        split at isZero <;> omega
      rw [isZero, nothing]
      rfl
    · rw [isPower]
      exact growCap_returns bound (by omega) small
  obtain ⟨newCap, grows⟩ := grows
  obtain ⟨isCapacity, enough⟩ :=
    growCap_completed (holds.startCap _) grows
  have grown := holds.grownTo isCapacity junk
  have atLeast := grownTo_cap popen newCap junk
  have room :
      (popen.grownTo newCap junk).sz + buf.length ≤
        (popen.grownTo newCap junk).data.length := by
    rw [grown.block, grownTo_sz, holds.size]
    omega
  obtain ⟨data, copies⟩ := copyInto_inside le_rfl room
  rw [write_eq, grows, ok_bind]
  simp only [copies, ok_bind]
  exact ⟨_, rfl⟩

end Popen

end Hamachi
