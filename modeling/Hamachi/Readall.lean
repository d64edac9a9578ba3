import Hamachi.ElfFile

namespace Hamachi.Loader

/-!
# Complete transfers

However the host splits it, `readall` transfers every byte it was asked for
when the file has them and the target is mapped.  A local array that it has
filled reads back the fields of the file.
-/

/-- What one short read does. -/
theorem read_transfers
    {host : Host}
    {file : OpenFile}
    {memory : Memory 64}
    {buf : Word}
    {cnt count : Nat}
    (answer : host.readAnswer file.reads = .upTo count)
    (wanted : 0 < cnt)
    (left : file.offset + cnt ≤ file.bytes.length)
    (mapped : memory.mapped buf cnt = true) :
    ∃ moved, 0 < moved ∧ moved ≤ cnt ∧
      host.read file memory buf cnt =
        ((moved : Int), ⟨file.bytes, file.offset + moved, file.reads + 1⟩,
          memory.store buf ((file.bytes.drop file.offset).take moved)) := by
  refine ⟨min (max 1 count) cnt, by omega, by omega, ?_⟩
  have chunkLength :
      ((file.bytes.drop file.offset).take
        (min (max 1 count) cnt)).length = min (max 1 count) cnt := by
    rw [List.length_take, List.length_drop]
    omega
  have target :
      memory.mapped buf (min (max 1 count) cnt) = true := by
    have part := Memory.mapped_part 0 mapped
      (show 0 + min (max 1 count) cnt ≤ cnt by omega)
    simpa using part
  simp only [Host.read, answer, List.take_take, chunkLength, target, if_true]

/-- A read that transfers something is followed by the rest of the loop. -/
theorem readallLoop_step
    {host : Host}
    {fuel cnt moved : Nat}
    {file read : OpenFile}
    {memory filled : Memory 64}
    {buf : Word}
    (wanted : 0 < cnt)
    (positive : 0 < moved)
    (run : host.read file memory buf cnt = ((moved : Int), read, filled)) :
    readallLoop host (fuel + 1) file memory buf cnt =
      readallLoop host fuel read filled (buf + BitVec.ofNat 64 moved)
        ((cnt : Int) - moved) := by
  rw [readallLoop, if_pos (by omega), Int.toNat_natCast]
  simp only [run]
  rw [if_neg (by omega), BitVec.ofInt_natCast]

/-- The loop transfers all that is left to transfer. -/
theorem readallLoop_transfers
    {host : Host}
    (splits : ∀ call, ∃ count, host.readAnswer call = .upTo count)
    {fuel cnt : Nat}
    {file : OpenFile}
    {memory : Memory 64}
    {buf : Word}
    (enough : cnt ≤ fuel)
    (left : file.offset + cnt ≤ file.bytes.length)
    (mapped : memory.mapped buf cnt = true)
    (fits : cnt ≤ 2 ^ 64) :
    ∃ reads,
      readallLoop host fuel file memory buf cnt =
        .ok (0, ⟨file.bytes, file.offset + cnt, reads⟩,
          memory.store buf ((file.bytes.drop file.offset).take cnt)) := by
  induction fuel generalizing cnt file memory buf with
  | zero =>
      have done : cnt = 0 := by
        omega
      subst done
      refine ⟨file.reads, ?_⟩
      rw [readallLoop, if_neg (by omega), List.take_zero, Memory.store_nil]
      rfl
  | succ fuel inductionHypothesis =>
      rcases Nat.eq_zero_or_pos cnt with rfl | wanted
      · refine ⟨file.reads, ?_⟩
        rw [readallLoop, if_neg (by omega), List.take_zero, Memory.store_nil]
        rfl
      · obtain ⟨count, answer⟩ := splits file.reads
        obtain ⟨moved, positive, atMost, run⟩ :=
          read_transfers answer wanted left mapped
        have chunkLength :
            ((file.bytes.drop file.offset).take moved).length = moved := by
          rw [List.length_take, List.length_drop]
          omega
        have restMapped :
            (memory.store buf
                ((file.bytes.drop file.offset).take moved)).mapped
              (buf + BitVec.ofNat 64 moved) (cnt - moved) = true :=
          Memory.mapped_store (Memory.mapped_part moved mapped (by omega))
        have restLeft :
            file.offset + moved + (cnt - moved) ≤ file.bytes.length := by
          omega
        obtain ⟨reads, rest⟩ :=
          @inductionHypothesis (cnt - moved)
            ⟨file.bytes, file.offset + moved, file.reads + 1⟩ _ _ (by omega)
            restLeft restMapped (by omega)
        refine ⟨reads, ?_⟩
        have restLength :
            ((file.bytes.drop (file.offset + moved)).take
              (cnt - moved)).length ≤ cnt - moved :=
          List.length_take_le ..
        have joined :=
          Memory.store_store memory buf
            (show ((file.bytes.drop file.offset).take moved).length +
                ((file.bytes.drop (file.offset + moved)).take
                  (cnt - moved)).length ≤ 2 ^ 64 by omega)
        rw [chunkLength, ← List.drop_drop, ← List.take_add,
          Nat.add_sub_cancel' atMost] at joined
        rw [readallLoop_step wanted positive run, ← Int.natCast_sub atMost,
          rest]
        simp only [← List.drop_drop, joined]
        congr 4
        omega

/-- `readall` succeeds, and transfers the next `cnt` bytes of the file. -/
theorem readallOrReturn_transfers
    {host : Host}
    (splits : ∀ call, ∃ count, host.readAnswer call = .upTo count)
    (file : OpenFile)
    {cnt : Nat}
    {memory : Memory 64}
    {buf : Word}
    (left : file.offset + cnt ≤ file.bytes.length)
    (mapped : memory.mapped buf cnt = true)
    (fits : cnt ≤ 2 ^ 64) :
    ∃ reads,
      readallOrReturn host file memory buf cnt =
        .ok (⟨file.bytes, file.offset + cnt, reads⟩,
          memory.store buf ((file.bytes.drop file.offset).take cnt)) := by
  obtain ⟨reads, run⟩ :=
    readallLoop_transfers splits (Nat.le_refl cnt) left mapped fits
  refine ⟨reads, ?_⟩
  rw [readallOrReturn, readall, Int.toNat_natCast, run]
  rfl

end Hamachi.Loader
