import Hamachi.DelimitedLines
import Hamachi.NetworkList
import Mathlib.Algebra.GroupWithZero.Nat

namespace Hamachi

/-!
# The lines of the network list

`list_networks` ends its scans where the cursor meets the end of the output.
It does so exactly when the last line has a delimiter; then both scans see the
same lines, and what the second one stores fills the block of the first.
-/

open DelimitedLines

/-- A line of the output ends at a newline, which `split_lines` turns into a
terminator, or at a terminator. -/
def isLineEnd (byte : Byte) : Bool :=
  byte == newline || byte == 0

/-- The name in a line: what stands between the mark and the first bracket. -/
def networkName (line : List Byte) : Option (List Byte) :=
  if networkMark.isPrefixOf line ∧ closingBracket ∈ line then
    some ((line.drop 4).takeWhile (· != closingBracket))
  else
    none

/-- The names in the lines of an output. -/
def networkNames (output : List Byte) : List (List Byte) :=
  (output.splitOnP isLineEnd).filterMap networkName

/-- What `list_networks` does with the captured output. -/
def listNetworks (output : List Byte) : Except Fault NetworkArray :=
  parseNetworks (output ++ [0]) output.length

/-- The output is empty or its last line is ended. -/
def EndsLine (output : List Byte) : Prop :=
  ∀ last ∈ output.getLast?, isLineEnd last = true

instance (output : List Byte) : Decidable (EndsLine output) :=
  inferInstanceAs (Decidable (∀ last ∈ output.getLast?, _))

/-- The size of a name with its terminator, for each name. -/
def namesSize (names : List (List Byte)) : Nat :=
  (withMarks 0 names).length

/-- The string area of the block. -/
def NetworkArray.strings (array : NetworkArray) : List Byte :=
  withMarks 0 array.names

/-- The array holds names and fills its block: each pointer points at its name
in the string area, which takes the rest of the block. -/
structure NetworkArray.Holds
    (array : NetworkArray)
    (names : List (List Byte)) : Prop where
  names_eq : array.names = names
  counted : array.nnets = names.length
  pointers : array.ptrs.length = array.nnets
  pointsAt :
    ∀ (i : Nat) (name : List Byte), names[i]? = some name →
      ∃ offset,
        array.ptrs[i]? = some (8 * array.nnets + offset) ∧
          textAt array.strings offset = .ok name
  sized : array.size = 8 * array.nnets + array.strings.length
  filled : array.ptrc = array.size

@[simp] theorem namesSize_nil : namesSize [] = 0 :=
  rfl

theorem namesSize_concat
    (names : List (List Byte))
    (name : List Byte) :
    namesSize (names ++ [name]) = namesSize names + (name.length + 1) := by
  simp [namesSize]

/-- The bytes of the names and of one terminator for each. -/
theorem namesSize_eq_sum (names : List (List Byte)) :
    namesSize names = (names.map fun name => name.length + 1).sum := by
  simp [namesSize, withMarks, List.length_flatMap]

/-- The block after `split_lines`. -/
theorem splitLines_output (output : List Byte) :
    splitLines (output ++ [0]) output.length =
      .ok (marked isLineEnd 0 output ++ [0]) := by
  have inside : output.length ≤ (output ++ [0]).length := by
    simp
  have same :
      output.map (fun byte => if byte = newline then 0 else byte) =
        marked isLineEnd 0 output := by
    refine List.map_congr_left fun byte _ => ?_
    by_cases isNewline : byte = newline
    · simp [isLineEnd, isNewline]
    · by_cases isZero : byte = 0
      · simp [isLineEnd, isZero]
      · have notEnd : isLineEnd byte = false :=
          Bool.or_eq_false_iff.mpr
            ⟨beq_false_of_ne isNewline, beq_false_of_ne isZero⟩
        rw [if_neg isNewline, notEnd]
        rfl
  rw [splitLines, if_pos inside, List.take_left, List.drop_left, same]

section Scan

variable
  {buf line rest : List Byte}
  {p : Nat}

/-- The first place of a byte is behind those that are others. -/
theorem findIdx?_eq_length_takeWhile
    {wanted : Byte}
    (member : wanted ∈ line) :
    line.findIdx? (· == wanted) =
      some (line.takeWhile (· != wanted)).length := by
  induction line with
  | nil =>
      cases member
  | cons byte line inductionHypothesis =>
      rw [List.findIdx?_cons, List.takeWhile_cons]
      by_cases same : byte = wanted
      · simp [same]
      · have later := inductionHypothesis
          ((List.mem_cons.mp member).resolve_left (Ne.symm same))
        have isOther : (byte == wanted) = false := beq_false_of_ne same
        simp [isOther, bne, later]

/-- The bracket of a line with the mark stands right behind the name. -/
theorem findIdx?_bracket
    (isMarked : networkMark.isPrefixOf line)
    (bracketed : closingBracket ∈ line) :
    line.findIdx? (· == closingBracket) =
      some (((line.drop 4).takeWhile (· != closingBracket)).length + 4) := by
  obtain ⟨tail, rfl⟩ := List.isPrefixOf_iff_prefix.mp isMarked
  have inTail : closingBracket ∈ tail := by
    rcases List.mem_append.mp bracketed with inMark | inTail
    · exact absurd inMark (by decide)
    · exact inTail
  have front :
      networkMark.findIdx? (· == closingBracket) = none := by
    decide
  have behind : (networkMark ++ tail).drop 4 = tail :=
    rfl
  rw [behind, List.findIdx?_append, front, Option.none_or,
    findIdx?_eq_length_takeWhile inTail]
  rfl

/-- What the scan finds in a line is the end of its name. -/
theorem bracketOf_line
    (shape : buf.drop p = line ++ 0 :: rest)
    (noZero : 0 ∉ line) :
    bracketOf buf p =
      .ok ((networkName line).map fun name => p + 4 + name.length) := by
  have starts := startsWith_text shape
    (show (0 : Byte) ∉ networkMark by decide)
  unfold bracketOf networkName
  rw [starts, ok_bind]
  by_cases isMarked : networkMark.isPrefixOf line
  · rw [if_pos isMarked, strchr_text shape noZero (by decide)]
    by_cases bracketed : closingBracket ∈ line
    · rw [if_pos ⟨isMarked, bracketed⟩, findIdx?_bracket isMarked bracketed]
      simp only [Option.map_some]
      congr 2
      omega
    · have none : line.findIdx? (· == closingBracket) = none := by
        refine List.findIdx?_eq_none_iff.mpr fun byte member => ?_
        exact beq_false_of_ne fun same => bracketed (same ▸ member)
      rw [if_neg (fun both => bracketed both.2), none]
      rfl
  · rw [if_neg isMarked, if_neg (fun both => isMarked both.1)]
    rfl

/-- The bytes of a name stand behind the mark of its line. -/
theorem take_name
    {name : List Byte}
    (shape : buf.drop p = line ++ 0 :: rest)
    (isName : networkName line = some name) :
    (buf.drop (p + 4)).take name.length = name := by
  unfold networkName at isName
  split at isName
  · rename_i both
    obtain ⟨tail, rfl⟩ := List.isPrefixOf_iff_prefix.mp both.1
    cases isName
    have behind : (networkMark ++ tail).drop 4 = tail :=
      rfl
    have shifted : buf.drop (p + 4) = tail ++ 0 :: rest := by
      rw [← List.drop_drop, shape]
      rfl
    have isPrefix : tail.takeWhile (· != closingBracket) <+: tail :=
      List.takeWhile_prefix _
    obtain ⟨suffix, isTail⟩ := isPrefix
    have whole :
        tail ++ 0 :: rest =
          tail.takeWhile (· != closingBracket) ++ (suffix ++ 0 :: rest) := by
      rw [← List.append_assoc, isTail]
    rw [shifted, behind, whole, List.take_left]
  · cases isName

/-- One line of a scan. -/
theorem scanLines_line
    {Result : Type}
    {found : Result → Nat → Nat → Except Fault Result}
    {endp fuel : Nat}
    {result : Result}
    (notEnd : p ≠ endp)
    (shape : buf.drop p = line ++ 0 :: rest)
    (noZero : 0 ∉ line) :
    scanLines buf endp found (fuel + 1) p result =
      ((networkName line).elim (.ok result)
          (fun name => found result p (p + 4 + name.length)) >>=
        scanLines buf endp found fuel (p + line.length + 1)) := by
  rw [scanLines, if_neg notEnd, bracketOf_line shape noZero]
  simp only [ok_bind, strlen_text shape noZero]
  cases networkName line <;> rfl

/-- A scan over ended lines takes their names in order: what each name keeps
holds behind them, where the scan goes on with the fuel that is left. -/
theorem scanLines_lines
    {Result : Type}
    {found : Result → Nat → Nat → Except Fault Result}
    {Inv : List (List Byte) → Result → Prop}
    {all : List (List Byte)}
    (step :
      ∀ {done : List (List Byte)} {result : Result} {name : List Byte}
        {p : Nat},
        Inv done result →
        (done ++ [name]) <+: all →
        (buf.drop (p + 4)).take name.length = name →
        ∃ next,
          found result p (p + 4 + name.length) = .ok next ∧
            Inv (done ++ [name]) next)
    {endp fuel : Nat}
    {lines done : List (List Byte)}
    {result : Result}
    (shape : buf.drop p = withMarks 0 lines ++ rest)
    (noZero : ∀ line ∈ lines, 0 ∉ line)
    (inside : p + (withMarks 0 lines).length ≤ endp)
    (holds : Inv done result)
    (known : (done ++ lines.filterMap networkName) <+: all) :
    ∃ next,
      scanLines buf endp found (lines.length + fuel) p result =
          scanLines buf endp found fuel
            (p + (withMarks 0 lines).length) next ∧
        Inv (done ++ lines.filterMap networkName) next := by
  induction lines generalizing p done result with
  | nil =>
      refine ⟨result, ?_, by simpa using holds⟩
      rw [List.length_nil, Nat.zero_add]
      rfl
  | cons line lines inductionHypothesis =>
      obtain ⟨lineNoZero, linesNoZero⟩ := List.forall_mem_cons.mp noZero
      rw [withMarks_cons, List.append_assoc, List.cons_append] at shape
      have size :
          (withMarks 0 (line :: lines)).length =
            line.length + 1 + (withMarks 0 lines).length := by
        rw [withMarks_cons, List.length_append, List.length_cons]
        omega
      rw [size] at inside ⊢
      have later :
          buf.drop (p + line.length + 1) = withMarks 0 lines ++ rest := by
        rw [← List.drop_drop, ← List.drop_drop, shape, List.drop_left]
        rfl
      have scans := @scanLines_line _ _ _ _ _ found endp
        (lines.length + fuel) result (by omega) shape lineNoZero
      have length :
          (line :: lines).length + fuel = lines.length + fuel + 1 := by
        rw [List.length_cons]
        omega
      rw [length, scans, ← Nat.add_assoc p, ← Nat.add_assoc p]
      cases isName : networkName line with
      | none =>
          rw [List.filterMap_cons_none isName] at known ⊢
          exact inductionHypothesis later linesNoZero (by omega) holds known
      | some name =>
          rw [List.filterMap_cons_some isName, List.append_cons] at known ⊢
          obtain ⟨middle, finds, kept⟩ :=
            step holds ((List.prefix_append _ _).trans known)
              (take_name shape isName)
          rw [Option.elim_some, finds, ok_bind]
          exact inductionHypothesis later linesNoZero (by omega) kept known

/-- The counts of some names. -/
def countsOf (names : List (List Byte)) : NetworkCounts where
  nnets := names.length
  lnets := namesSize names

/-- The first loop adds a name to the counts. -/
theorem countNetwork_name
    {done : List (List Byte)}
    {name : List Byte}
    {p : Nat} :
    countNetwork (countsOf done) p (p + 4 + name.length) =
      .ok (countsOf (done ++ [name])) := by
  unfold countNetwork countsOf
  rw [namesSize_concat, List.length_append, Nat.add_sub_cancel_left]
  rfl

/-- The array for some names after the second loop has stored the first ones:
the next one goes behind them. -/
structure Stored
    (all done : List (List Byte))
    (array : NetworkArray) : Prop where
  names_eq : array.names = done
  counted : array.nnets = all.length
  sized : array.size = 8 * all.length + namesSize all
  pointers : array.ptrs.length = done.length
  next : array.ptrc = 8 * all.length + namesSize done
  pointsAt :
    ∀ (i : Nat) (name : List Byte), done[i]? = some name →
      array.ptrs[i]? = some (8 * all.length + namesSize (done.take i))

/-- Some of the names have no more bytes than all. -/
theorem namesSize_le
    {done all : List (List Byte)}
    (known : done <+: all) :
    namesSize done ≤ namesSize all := by
  obtain ⟨remaining, rfl⟩ := known
  simp [namesSize]

/-- The second loop has room for every name that the first one counted. -/
theorem Stored.copyNetwork
    {all done : List (List Byte)}
    {array : NetworkArray}
    {name : List Byte}
    (stored : Stored all done array)
    (known : (done ++ [name]) <+: all)
    (isName : (buf.drop (p + 4)).take name.length = name) :
    ∃ next,
      copyNetwork buf array p (p + 4 + name.length) = .ok next ∧
        Stored all (done ++ [name]) next := by
  have length := known.length_le
  have size := namesSize_le known
  rw [List.length_append, List.length_singleton] at length
  rw [namesSize_concat] at size
  have room :
      array.ptrs.length < array.nnets ∧
        array.ptrc + name.length + 1 ≤ array.size := by
    have pointers := stored.pointers
    have counted := stored.counted
    have sized := stored.sized
    have next := stored.next
    omega
  unfold Hamachi.copyNetwork
  simp only [Nat.add_sub_cancel_left, if_pos room, isName]
  refine ⟨_, rfl, ⟨?_, stored.counted, stored.sized, ?_, ?_, ?_⟩⟩
  · rw [stored.names_eq]
  · simp [stored.pointers]
  · simp only [namesSize_concat, stored.next]
    omega
  · intro i other isOther
    have bound := List.getElem?_eq_some_iff.mp isOther
    obtain ⟨inside, _⟩ := bound
    rw [List.length_append, List.length_singleton] at inside
    rcases Nat.lt_succ_iff_lt_or_eq.mp inside with before | rfl
    · rw [List.getElem?_append_left before] at isOther
      rw [List.getElem?_append_left (stored.pointers ▸ before),
        stored.pointsAt i other isOther,
        List.take_append_of_le_length (Nat.le_of_lt before)]
    · rw [List.take_left, ← stored.pointers, List.getElem?_concat_length,
        stored.next]

end Scan

/-- When all names are stored, the array holds them and its block is full. -/
theorem Stored.holds
    {names : List (List Byte)}
    {array : NetworkArray}
    (noZero : ∀ name ∈ names, 0 ∉ name)
    (stored : Stored names names array) :
    array.Holds names where
  names_eq := stored.names_eq
  counted := stored.counted
  pointers := by
    rw [stored.pointers, stored.counted]
  pointsAt := by
    intro i name isName
    refine ⟨namesSize (names.take i), ?_, ?_⟩
    · rw [stored.counted]
      exact stored.pointsAt i name isName
    · obtain ⟨inside, isThere⟩ := List.getElem?_eq_some_iff.mp isName
      have shape :
          array.strings =
            withMarks 0 (names.take i) ++
              (name ++ 0 :: withMarks 0 (names.drop (i + 1))) := by
        rw [NetworkArray.strings, stored.names_eq, ← withMarks_cons,
          ← withMarks_append, ← isThere, List.getElem_cons_drop,
          List.take_append_drop]
      have behind :
          array.strings.drop (namesSize (names.take i)) =
            name ++ 0 :: withMarks 0 (names.drop (i + 1)) := by
        rw [shape, namesSize, List.drop_left]
      exact textAt_text behind (noZero name (List.mem_of_getElem? isName))
  sized := by
    rw [stored.sized, stored.counted, NetworkArray.strings, stored.names_eq]
    rfl
  filled := by
    rw [stored.next, stored.sized]

/-- The lines of an output contain no terminator. -/
theorem noZero_of_line
    {output line : List Byte}
    (member : line ∈ output.splitOnP isLineEnd) :
    0 ∉ line := by
  intro isZero
  exact absurd (not_isEnd member 0 isZero) (by decide)

/-- Nor do the names in them. -/
theorem noZero_of_name
    {output name : List Byte}
    (member : name ∈ networkNames output) :
    0 ∉ name := by
  obtain ⟨line, isLine, isName⟩ := List.mem_filterMap.mp member
  unfold networkName at isName
  split at isName
  · cases isName
    intro isZero
    exact noZero_of_line isLine
      (List.mem_of_mem_drop ((List.takeWhile_prefix _).subset isZero))
  · cases isName

/-- The last line of an output is empty exactly when it is ended. -/
theorem unended_eq_nil_iff_endsLine
    {output : List Byte} :
    unended isLineEnd output = [] ↔ EndsLine output :=
  unended_eq_nil_iff (show isLineEnd 0 = true by decide)

/-- The names of an output are those of its ended lines and of its last. -/
theorem networkNames_eq (output : List Byte) :
    networkNames output =
      (ended isLineEnd output).filterMap networkName ++
        (networkName (unended isLineEnd output)).toList := by
  rw [networkNames, splitOnP_eq, List.filterMap_append]
  cases isName : networkName (unended isLineEnd output) <;>
    simp [isName]

/-- The block of `list_networks`: the lines, and the last one behind them. -/
theorem marked_output
    (output : List Byte) :
    marked isLineEnd 0 output ++ [0] =
      withMarks 0 (ended isLineEnd output) ++
        (unended isLineEnd output ++ 0 :: []) := by
  rw [marked_eq, List.append_assoc]

/-- The scans cover the output. -/
theorem output_length (output : List Byte) :
    output.length =
      (withMarks 0 (ended isLineEnd output)).length +
        (unended isLineEnd output).length := by
  have whole := congrArg List.length
    (@marked_eq _ isLineEnd (0 : Byte) output)
  rwa [marked, List.length_map, List.length_append] at whole

/-- The ended lines of an output contain no terminator. -/
theorem noZero_of_ended
    {output line : List Byte}
    (member : line ∈ ended isLineEnd output) :
    0 ∉ line := by
  refine @noZero_of_line output line ?_
  rw [splitOnP_eq]
  exact List.mem_append_left _ member

/-- The first loop counts the names of the ended lines. -/
theorem scanLines_counts
    (output : List Byte)
    (fuel : Nat) :
    scanLines (marked isLineEnd 0 output ++ [0]) output.length countNetwork
        ((ended isLineEnd output).length + fuel) 0 ⟨0, 0⟩ =
      scanLines (marked isLineEnd 0 output ++ [0]) output.length countNetwork
        fuel (withMarks 0 (ended isLineEnd output)).length
        (countsOf ((ended isLineEnd output).filterMap networkName)) := by
  have length := output_length output
  obtain ⟨counts, counting, rfl⟩ :=
    @scanLines_lines (marked isLineEnd 0 output ++ [0])
      (unended isLineEnd output ++ [0]) 0 _ countNetwork
      (fun done counts => counts = countsOf done)
      ((ended isLineEnd output).filterMap networkName)
      (by
        rintro done _ name p rfl _ _
        exact ⟨_, countNetwork_name, rfl⟩)
      output.length fuel (ended isLineEnd output) [] ⟨0, 0⟩
      (marked_output output) (fun _ => noZero_of_ended) (by omega) rfl
      List.prefix_rfl
  rwa [Nat.zero_add, List.nil_append] at counting

/-- A loop that has left the block reads the start of a line behind it. -/
theorem scanLines_behind
    {Result : Type}
    {buf : List Byte}
    {found : Result → Nat → Nat → Except Fault Result}
    {endp fuel p : Nat}
    {result : Result}
    (notEnd : p ≠ endp)
    (behind : buf.length ≤ p) :
    scanLines buf endp found (fuel + 1) p result = .error .outOfBounds := by
  have reads :
      startsWith buf p networkMark = .error .outOfBounds := by
    rw [show networkMark = 32 :: [42, 32, 91] from rfl, startsWith,
      List.getElem?_eq_none behind]
  rw [scanLines, if_neg notEnd, bracketOf, reads]
  rfl

/-- On an output whose last line is ended both loops end, and the array holds
the names and fills its block. -/
theorem listNetworks_ended
    {output : List Byte}
    (endsLine : EndsLine output) :
    ∃ array,
      listNetworks output = .ok array ∧
        array.Holds (networkNames output) := by
  have lastEmpty := unended_eq_nil_iff_endsLine.mpr endsLine
  have shape := marked_output output
  have length := output_length output
  have names := networkNames_eq output
  rw [lastEmpty, List.nil_append] at shape
  rw [lastEmpty, List.length_nil, Nat.add_zero] at length
  rw [lastEmpty, show networkName [] = none from rfl, Option.toList_none,
    List.append_nil] at names
  obtain ⟨fuel, isFuel⟩ :
      ∃ fuel,
        (marked isLineEnd 0 output ++ [0]).length + 1 =
          (ended isLineEnd output).length + fuel := by
    have := @length_le_withMarks _ (0 : Byte) (ended isLineEnd output)
    refine Nat.exists_eq_add_of_le ?_
    rw [shape, List.length_append]
    omega
  have stops
      {Result : Type}
      {found : Result → Nat → Nat → Except Fault Result}
      (result : Result) :
      scanLines (marked isLineEnd 0 output ++ [0]) output.length found fuel
          (withMarks 0 (ended isLineEnd output)).length result =
        .ok result := by
    unfold scanLines
    rw [if_pos length.symm]
  obtain ⟨array, copying, stored⟩ :=
    @scanLines_lines (marked isLineEnd 0 output ++ [0]) [0] 0 _
      (copyNetwork (marked isLineEnd 0 output ++ [0]))
      (Stored (networkNames output)) (networkNames output)
      (fun stored known isName => stored.copyNetwork known isName)
      output.length fuel (ended isLineEnd output) [] {
        nnets := (networkNames output).length
        size := 8 * (networkNames output).length +
          namesSize (networkNames output)
        ptrs := []
        ptrc := 8 * (networkNames output).length
        names := []
      }
      shape (fun _ => noZero_of_ended) (by omega)
      ⟨rfl, rfl, rfl, rfl, rfl, by simp⟩
      (by rw [List.nil_append, names])
  rw [List.nil_append, ← names] at stored
  rw [Nat.zero_add, stops] at copying
  refine ⟨array, ?_, stored.holds fun _ => noZero_of_name⟩
  rw [listNetworks, parseNetworks, splitLines_output, ok_bind]
  simp only [isFuel, scanLines_counts, stops, ok_bind]
  rw [← names]
  exact copying

/-- On any other output the first loop steps over the end of the output with
the last line, and reads on behind the block. -/
theorem listNetworks_unended
    {output : List Byte}
    (notEnded : ¬ EndsLine output) :
    listNetworks output = .error .outOfBounds := by
  have lastLine : unended isLineEnd output ≠ [] := fun isNil =>
    notEnded (unended_eq_nil_iff_endsLine.mp isNil)
  have positive := List.length_pos_iff.mpr lastLine
  have length := output_length output
  have lastNoZero : 0 ∉ unended isLineEnd output := by
    refine @noZero_of_line output _ ?_
    rw [splitOnP_eq]
    exact List.mem_append_right _ (List.mem_singleton_self _)
  have blockLength :
      (marked isLineEnd 0 output ++ [0]).length = output.length + 1 := by
    simp [marked]
  obtain ⟨fuel, isFuel⟩ :
      ∃ fuel,
        (marked isLineEnd 0 output ++ [0]).length + 1 =
          (ended isLineEnd output).length + (fuel + 1 + 1) := by
    have := @length_le_withMarks _ (0 : Byte) (ended isLineEnd output)
    exact ⟨output.length - (ended isLineEnd output).length, by omega⟩
  have lastShape :
      (marked isLineEnd 0 output ++ [0]).drop
          (withMarks 0 (ended isLineEnd output)).length =
        unended isLineEnd output ++ 0 :: [] := by
    rw [marked_output, List.drop_left]
  have last := @scanLines_line _ _ _ _ _ countNetwork output.length
    (fuel + 1) (countsOf ((ended isLineEnd output).filterMap networkName))
    (by omega) lastShape lastNoZero
  obtain ⟨next, finds⟩ :
      ∃ next,
        (networkName (unended isLineEnd output)).elim
            (.ok (countsOf ((ended isLineEnd output).filterMap networkName)))
            (fun name => countNetwork
              (countsOf ((ended isLineEnd output).filterMap networkName))
              (withMarks 0 (ended isLineEnd output)).length
              ((withMarks 0 (ended isLineEnd output)).length + 4 +
                name.length)) =
          .ok next := by
    cases networkName (unended isLineEnd output) <;> exact ⟨_, rfl⟩
  -- The cursor is one byte behind the block.
  have overruns :
      scanLines (marked isLineEnd 0 output ++ [0]) output.length
          countNetwork (fuel + 1)
          ((withMarks 0 (ended isLineEnd output)).length +
            (unended isLineEnd output).length + 1) next =
        .error .outOfBounds :=
    scanLines_behind (by omega) (by omega)
  rw [finds, ok_bind, overruns] at last
  rw [listNetworks, parseNetworks, splitLines_output, ok_bind]
  simp only [isFuel, scanLines_counts, last, error_bind]

/-- The loops of `list_networks` end, and read only the bytes of the block,
exactly on the outputs that are empty or end in a newline or a terminator. -/
theorem listNetworks_safe_iff (output : List Byte) :
    (∃ array, listNetworks output = .ok array) ↔ EndsLine output := by
  constructor
  · rintro ⟨array, lists⟩
    by_contra notEnded
    rw [listNetworks_unended notEnded] at lists
    cases lists
  · intro endsLine
    obtain ⟨array, lists, _⟩ := listNetworks_ended endsLine
    exact ⟨array, lists⟩

/-- One byte without a newline is read past its block. -/
theorem not_listNetworks_safe :
    ¬ ∀ output, ∃ array, listNetworks output = .ok array := by
  intro safe
  obtain ⟨array, lists⟩ := safe [120]
  rw [listNetworks_unended (by decide)] at lists
  cases lists

/-- The array of an output that is empty or ends in a newline or a terminator
has the names of its lines in order, and the pointers and names that the second
loop stores fill the block that the first one sized. -/
theorem listNetworks_names
    (output : List Byte)
    (endsLine : EndsLine output) :
    ∃ array,
      listNetworks output = .ok array ∧
        array.Holds (networkNames output) ∧
        array.size =
          8 * (networkNames output).length +
            ((networkNames output).map fun name => name.length + 1).sum := by
  obtain ⟨array, lists, holds⟩ := listNetworks_ended endsLine
  refine ⟨array, lists, holds, ?_⟩
  rw [← namesSize_eq_sum, holds.sized, holds.counted,
    NetworkArray.strings, holds.names_eq]
  rfl

/-- Two networks, one of them with a bracket behind its name, and a line
without a bracket. -/
theorem listNetworks_names_two :
    networkNames (chars " * [a]]\nx\n * [b\n * [c]\n") =
        [chars "a", chars "c"] ∧
      ∃ array,
        listNetworks (chars " * [a]]\nx\n * [b\n * [c]\n") = .ok array ∧
          array.Holds
            (networkNames (chars " * [a]]\nx\n * [b\n * [c]\n")) ∧
          array.size =
            8 * (networkNames
                (chars " * [a]]\nx\n * [b\n * [c]\n")).length +
              ((networkNames
                (chars " * [a]]\nx\n * [b\n * [c]\n")).map
                  fun name => name.length + 1).sum :=
  ⟨by decide, listNetworks_names _ (by decide)⟩

end Hamachi
