import Hamachi.StdoutCapture

namespace Hamachi

/-!
# Captures one after the other

Between two calls of `popen_get` the buffer of `popen.c` collects the blocks
that are written.  As long as a capture stays below `2 ^ 63` bytes none of them
is lost; a format that the host cannot print, however, reaches the buffer with a
size of almost `2 ^ 64` bytes.
-/

/-- A block for `popen_write`, and what new memory holds. -/
abbrev BlockWrite := List Byte × (Nat → Byte)

/-- The blocks of some writes, in order. -/
def written (writes : List BlockWrite) : List Byte :=
  writes.flatMap fun write => write.1

namespace Popen

/-- Calls of `popen_write` in order, each with the whole of its block. -/
def writeAll
    (popen : Popen)
    (writes : List BlockWrite) :
    Except Fault Popen :=
  writes.foldlM
    (fun popen write => popen.write write.1 write.1.length write.2) popen

/-- The state in which `my_popen` starts the program. -/
def captureStart (popen : Popen) : Popen :=
  { popen with isInPopen := true }

/-- Captures in order: the writes of each, and `popen_get`. -/
def captureAll
    (popen : Popen) :
    List (List BlockWrite) → Except Fault (List (List Byte) × Popen)
  | [] =>
      .ok ([], popen)
  | writes :: rest => do
      let popen ← popen.captureStart.writeAll writes
      let (data, sz, popen) := popen.get
      let (outputs, last) ← popen.captureAll rest
      .ok (data.take sz :: outputs, last)

/-- The size is that of the bytes written, and the block has room for them. -/
structure Accounts (popen : Popen) (bytes : List Byte) : Prop where
  total : popen.sz = bytes.length
  room : popen.sz ≤ popen.cap
  block : popen.data.length = popen.cap

variable {popen final : Popen} {held : List Byte}

theorem Holds.accounts
    (holds : popen.Holds held) :
    popen.Accounts held where
  total := holds.size
  room := holds.block ▸ holds.inside
  block := holds.block

/-- The flag is no part of what the buffer holds. -/
theorem Holds.captureStart
    (holds : popen.Holds held) :
    popen.captureStart.Holds held :=
  { holds with }

/-- Up to `2 ^ 63` bytes in total, writes return and append their blocks. -/
theorem Holds.writeAll
    (holds : popen.Holds held)
    {writes : List BlockWrite}
    (small : held.length + (written writes).length ≤ 2 ^ 63) :
    ∃ final,
      popen.writeAll writes = .ok final ∧
        final.Holds (held ++ written writes) := by
  induction writes generalizing popen held with
  | nil =>
      exact ⟨popen, rfl, by simpa [written] using holds⟩
  | cons write rest inductionHypothesis =>
      have total :
          (written (write :: rest)).length =
            write.1.length + (written rest).length := by
        simp [written]
      obtain ⟨next, writes⟩ :=
        holds.write_returns write.2
          (show held.length + write.1.length ≤ 2 ^ 63 by omega)
      have appended := (holds.write_completed writes).1
      rw [List.take_length] at appended
      have remaining :
          (held ++ write.1).length + (written rest).length ≤ 2 ^ 63 := by
        rw [List.length_append]
        omega
      obtain ⟨final, rests, holdsAll⟩ :=
        inductionHypothesis appended remaining
      refine ⟨final, ?_, ?_⟩
      · simp only [Popen.writeAll, List.foldlM_cons, writes, ok_bind]
        exact rests
      · rwa [List.append_assoc] at holdsAll

/-- What `popen_get` hands out of a buffer, and what it leaves. -/
theorem Holds.get
    (holds : popen.Holds held) :
    popen.get.1.take popen.get.2.1 = held ∧ popen.get.2.2 = Popen.empty :=
  ⟨holds.contents, rfl⟩

/-- Captures of up to `2 ^ 63` bytes each deliver what was written in them. -/
theorem Holds.captureAll
    (holds : popen.Holds [])
    {captures : List (List BlockWrite)}
    (small : ∀ writes ∈ captures, (written writes).length ≤ 2 ^ 63) :
    ∃ last,
      popen.captureAll captures = .ok (captures.map written, last) ∧
        last = (if captures = [] then popen else Popen.empty) := by
  induction captures generalizing popen with
  | nil =>
      exact ⟨popen, rfl, rfl⟩
  | cons writes rest inductionHypothesis =>
      obtain ⟨now, later⟩ := List.forall_mem_cons.mp small
      obtain ⟨final, writesAll, holdsAll⟩ :=
        holds.captureStart.writeAll
          (show [].length + (written writes).length ≤ 2 ^ 63 by simpa)
      obtain ⟨last, captures, isLast⟩ :=
        inductionHypothesis holds_empty later
      refine ⟨last, ?_, by simpa using isLast⟩
      have contents := holdsAll.get.1
      rw [List.nil_append] at contents
      simp only [Popen.captureAll, writesAll, ok_bind]
      rw [holdsAll.get.2, captures, ok_bind]
      simp only [contents, List.map_cons]

/-- From the state that `popen_get` leaves, captures of up to `2 ^ 63` bytes
keep every byte: after each write the size is the total so far and lies inside
of the block, and each `popen_get` delivers the blocks of its capture in order
and leaves the initial state. -/
theorem captures_keep_every_byte
    (before : Popen)
    (captures : List (List BlockWrite))
    (small : ∀ writes ∈ captures, (written writes).length ≤ 2 ^ 63) :
    before.get.2.2.captureAll captures =
        .ok (captures.map written, Popen.empty) ∧
      ∀ writes ∈ captures, ∀ leading, leading <+: writes →
        ∃ popen,
          before.get.2.2.captureStart.writeAll leading = .ok popen ∧
            popen.Accounts (written leading) := by
  constructor
  · obtain ⟨last, captured, isLast⟩ := holds_empty.captureAll small
    rw [ite_self] at isLast
    rw [← isLast]
    exact captured
  · rintro writes member leading ⟨trailing, rfl⟩
    have below :
        (written leading).length ≤
          (written (leading ++ trailing)).length := by
      simp [written]
    obtain ⟨popen, writesLeading, holds⟩ :=
      holds_empty.captureStart.writeAll
        (show [].length + (written leading).length ≤ 2 ^ 63 by
          have := small _ member
          simp only [List.length_nil]
          omega)
    exact ⟨popen, writesLeading, holds.accounts⟩

/-- Two captures, with an empty block among those of the first. -/
theorem captures_keep_every_byte_twice :
    Popen.empty.get.2.2.captureAll
        [[([104], fun _ => 0), ([], fun _ => 1), ([105, 10], fun _ => 2)],
          [([33], fun _ => 3)]] =
      .ok ([[104, 105, 10], [33]], Popen.empty) :=
  (captures_keep_every_byte Popen.empty _ (by decide)).1

/-- The failure of `vasprintf` is reported and the capture stays as it is. -/
def KeepsOnFailure
    (popen : Popen)
    (found : List Byte)
    (junk : Nat → Byte) : Prop :=
  ∃ next,
    popenPrintf popen (.failed found) junk = .ok (next, -1) ∧
      next.delivered = popen.delivered ∧
      next.sz = popen.sz ∧
      next.cap = popen.cap

/-- What a failed format asks of the buffer: one byte less than it holds, in
the arithmetic of `size_t`. -/
theorem failed_need
    (popen : Popen)
    (found : List Byte) :
    (popen.sz + (Vasprintf.failed found).passed.2) % sizeModulus =
      if popen.sz = 0 then sizeModulus - 1
      else (popen.sz - 1) % sizeModulus := by
  have wide : 0 < sizeModulus := by
    decide
  simp only [Vasprintf.passed]
  split
  · rename_i isEmpty
    rw [isEmpty, Nat.zero_add]
    exact Nat.mod_eq_of_lt (by omega)
  · have shape :
        popen.sz + (sizeModulus - 1) = popen.sz - 1 + sizeModulus := by
      omega
    rw [shape, Nat.add_mod_right]

/-- On an empty capture the capacity doubles past its last bit and then stays
zero: however long the loop runs, it does not end. -/
theorem Holds.failed_diverges
    (holds : popen.Holds held)
    (isEmpty : held = [])
    (found : List Byte)
    (fuel : Nat) :
    growCap
        ((popen.sz + (Vasprintf.failed found).passed.2) % sizeModulus) fuel
        (popen.startCap (Vasprintf.failed found).passed.2) =
      .error .outOfFuel := by
  have size : popen.sz = 0 := by
    rw [holds.size, isEmpty, List.length_nil]
  rw [failed_need, if_pos size]
  exact growCap_diverges (holds.startCap _) (by decide) fuel

/-- On a capture that holds bytes nothing grows, and the copy runs past the
block. -/
theorem Holds.failed_overruns
    (holds : popen.Holds held)
    (notEmpty : held ≠ [])
    (found : List Byte)
    (junk : Nat → Byte) :
    popenPrintf popen (.failed found) junk = .error .outOfBounds := by
  have some := List.length_pos_iff.mpr notEmpty
  have size := holds.size
  have length := holds.length_le
  have wide : 2 ^ 63 < sizeModulus - 1 := by
    decide
  have inside := holds.inside
  have block := holds.block
  have start :
      popen.startCap (Vasprintf.failed found).passed.2 = popen.cap := by
    unfold Popen.startCap
    rw [if_neg (by omega)]
  have need :
      (popen.sz + (Vasprintf.failed found).passed.2) % sizeModulus =
        popen.sz - 1 := by
    rw [failed_need, if_neg (by omega), Nat.mod_eq_of_lt (by omega)]
  have grows : growCap (popen.sz - 1) 64 popen.cap = .ok popen.cap := by
    unfold growCap
    rw [if_neg (by omega)]
  have same : popen.grownTo popen.cap junk = popen := by
    unfold Popen.grownTo
    rw [if_neg (by omega)]
  have overruns :
      copyInto popen.data popen.sz (Vasprintf.failed found).passed.1
          (Vasprintf.failed found).passed.2 =
        .error .outOfBounds := by
    have capacity := IsCapacity.le holds.capacity
    unfold copyInto
    rw [if_neg]
    simp only [Vasprintf.passed]
    omega
  unfold popenPrintf
  rw [write_eq, start, need, grows]
  simp only [ok_bind, same, overruns, error_bind]

/-- No capture survives a failed format. -/
theorem Holds.not_keepsOnFailure
    (holds : popen.Holds held)
    (found : List Byte)
    (junk : Nat → Byte) :
    ¬ popen.KeepsOnFailure found junk := by
  rintro ⟨next, prints, _⟩
  by_cases isEmpty : held = []
  · unfold popenPrintf at prints
    rw [write_eq, holds.failed_diverges isEmpty] at prints
    cases prints
  · rw [holds.failed_overruns isEmpty] at prints
    cases prints

/-- A capture of one byte does not survive it. -/
theorem Holds.not_keepsOnFailure_one :
    (Popen.mk [104] 1 1 true).Holds [104] ∧
      ¬ (Popen.mk [104] 1 1 true).KeepsOnFailure [] fun _ => 0 :=
  have holds : (Popen.mk [104] 1 1 true).Holds [104] :=
    ⟨rfl, .inr ⟨0, by decide, rfl⟩, rfl, rfl⟩
  ⟨holds, holds.not_keepsOnFailure [] fun _ => 0⟩

/-- On the capture that has just begun, `popen_printf` does not return. -/
theorem not_keepsOnFailure_start :
    Popen.empty.captureStart.Holds [] ∧
      ¬ Popen.empty.captureStart.KeepsOnFailure [] fun _ => 0 := by
  refine ⟨holds_empty.captureStart, ?_⟩
  rintro ⟨next, prints, _⟩
  unfold popenPrintf at prints
  rw [write_eq, holds_empty.captureStart.failed_diverges rfl] at prints
  cases prints

end Popen

end Hamachi
