import Hamachi.FlatMemory

namespace Hamachi.Memory

variable {width : Nat}

/-!
# Consecutive writes

A transfer that is cut into pieces writes each piece where the one before it
ended.  Together the pieces are one write, and they reach the bytes that it
reaches.
-/

/-- The bytes of a list of writes. -/
def joined (writes : List (BitVec width × List Byte)) : List Byte :=
  writes.flatMap Prod.snd

@[simp] theorem joined_nil :
    joined ([] : List (BitVec width × List Byte)) = [] :=
  rfl

@[simp] theorem joined_cons
    (write : BitVec width × List Byte)
    (rest : List (BitVec width × List Byte)) :
    joined (write :: rest) = write.2 ++ joined rest :=
  rfl

/-- Each write starts where the one before it ended. -/
def Consecutive :
    BitVec width → List (BitVec width × List Byte) → Prop
  | _, [] => True
  | base, write :: rest =>
      write.1 = base ∧
        Consecutive (base + BitVec.ofNat width write.2.length) rest

/-- Some write reaches the address. -/
def Reaches
    (writes : List (BitVec width × List Byte))
    (address : BitVec width) : Prop :=
  ∃ write, write ∈ writes ∧ distance write.1 address < write.2.length

/-- Consecutive writes are one write. -/
theorem storeAll_consecutive
    {base : BitVec width}
    {writes : List (BitVec width × List Byte)}
    (consecutive : Consecutive base writes)
    (fits : (joined writes).length ≤ 2 ^ width)
    (memory : Memory width) :
    memory.storeAll writes = memory.store base (joined writes) := by
  induction writes generalizing base memory with
  | nil =>
      exact (store_nil memory base).symm
  | cons write rest inductionHypothesis =>
      obtain ⟨starts, later⟩ := consecutive
      rw [joined_cons, List.length_append] at fits
      rw [joined_cons, ← store_store memory base fits,
        ← inductionHypothesis later (by omega), ← starts]
      rfl

/-- Consecutive writes reach what lies within their length of the first. -/
theorem reaches_consecutive
    {base : BitVec width}
    {writes : List (BitVec width × List Byte)}
    (consecutive : Consecutive base writes)
    (fits : (joined writes).length < 2 ^ width)
    (address : BitVec width) :
    Reaches writes address ↔
      distance base address < (joined writes).length := by
  induction writes generalizing base with
  | nil =>
      simp [Reaches]
  | cons write rest inductionHypothesis =>
      obtain ⟨starts, later⟩ := consecutive
      rw [joined_cons, List.length_append] at fits
      have restReaches := inductionHypothesis later (by omega)
      have split :
          Reaches (write :: rest) address ↔
            distance base address < write.2.length ∨
              Reaches rest address := by
        simp [Reaches, ← starts]
      rw [split, restReaches, joined_cons, List.length_append]
      by_cases passed : distance base address < write.2.length
      · simp only [passed, true_or, true_iff]
        omega
      · rw [distance_advance base address (Nat.le_of_not_lt passed)]
        simp only [passed, false_or]
        omega

end Hamachi.Memory
