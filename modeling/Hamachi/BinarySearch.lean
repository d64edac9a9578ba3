import Hamachi.Heap
import Mathlib.Data.Int.Order.Basic

namespace Hamachi

/-!
# Binary search with a fallible test

`bisect` narrows an open interval `(low, high)` of integers to two neighbours.
The test may fail, as an array read does; on an interval where it succeeds and
is monotone, the right neighbour is the first index that passes.
-/

/-- `while(h - l > 1) { int m = (l + h) / 2; if(test m) h = m; else l = m; }`,
returning the final `h`. -/
def bisect
    (test : Int → Except Fault Bool)
    (fuel : Nat)
    (low high : Int) :
    Except Fault Int :=
  if high - low > 1 then
    match fuel with
    | 0 => .error .outOfFuel
    | fuel + 1 => do
        let middle := (low + high).tdiv 2
        if ← test middle then
          bisect test fuel low middle
        else
          bisect test fuel middle high
  else
    .ok high

/-- The test answers `passes` everywhere strictly inside an interval. -/
def AnswersOn
    (test : Int → Except Fault Bool)
    (passes : Int → Prop)
    [DecidablePred passes]
    (low high : Int) : Prop :=
  ∀ index, low < index → index < high →
    test index = .ok (decide (passes index))

/-- Once passed, the test is passed by every later index of the interval. -/
def MonotoneOn (passes : Int → Prop) (low high : Int) : Prop :=
  ∀ first second, low < first → first < second → second < high →
    passes first → passes second

/-- `boundary` separates the indices that fail from those that pass. -/
structure Boundary
    (passes : Int → Prop)
    (low high boundary : Int) : Prop where
  above : low < boundary
  atMost : boundary ≤ high
  fails : ∀ index, low < index → index < boundary → ¬ passes index
  succeeds : ∀ index, boundary ≤ index → index < high → passes index

section

variable
  {test : Int → Except Fault Bool}
  {passes : Int → Prop}
  [DecidablePred passes]

/-- The midpoint lies strictly inside an interval that starts at `-1` or later. -/
theorem midpoint_inside
    {low high : Int}
    (start : -1 ≤ low)
    (wide : high - low > 1) :
    low < (low + high).tdiv 2 ∧ (low + high).tdiv 2 < high := by
  rw [Int.tdiv_eq_ediv_of_nonneg (by omega)]
  omega

/-- `bisect` finds the boundary of a monotone test. -/
theorem bisect_boundary
    {fuel : Nat}
    {low high : Int}
    (start : -1 ≤ low)
    (ordered : low < high)
    (enough : high - low ≤ fuel + 1)
    (answers : AnswersOn test passes low high)
    (monotone : MonotoneOn passes low high) :
    ∃ boundary,
      bisect test fuel low high = .ok boundary ∧
        Boundary passes low high boundary := by
  induction fuel generalizing low high with
  | zero =>
      refine ⟨high, ?_, ordered, le_rfl, ?_, ?_⟩
      · rw [bisect, if_neg (by omega)]
      · intro index above below
        omega
      · intro index above below
        omega
  | succ fuel inductionHypothesis =>
      by_cases wide : high - low > 1
      · obtain ⟨above, below⟩ := midpoint_inside start wide
        have answer := answers _ above below
        by_cases passed : passes ((low + high).tdiv 2)
        · obtain ⟨boundary, found, isBoundary⟩ :=
            inductionHypothesis start above (by omega)
              (fun index lower upper =>
                answers index lower (by omega))
              (fun first second lower between upper =>
                monotone first second lower between (by omega))
          refine ⟨boundary, ?_, isBoundary.above, ?_,
            isBoundary.fails, ?_⟩
          · rw [bisect, if_pos wide]
            simp [answer, passed, found]
          · exact isBoundary.atMost.trans below.le
          · intro index lower upper
            rcases lt_trichotomy index ((low + high).tdiv 2) with
              before | rfl | after
            · exact isBoundary.succeeds index lower before
            · exact passed
            · exact monotone _ index above after upper passed
        · obtain ⟨boundary, found, isBoundary⟩ :=
            inductionHypothesis (by omega) below (by omega)
              (fun index lower upper =>
                answers index (by omega) upper)
              (fun first second lower between upper =>
                monotone first second (by omega) between upper)
          refine ⟨boundary, ?_, above.trans isBoundary.above,
            isBoundary.atMost, ?_, isBoundary.succeeds⟩
          · rw [bisect, if_pos wide]
            simp [answer, passed, found]
          · intro index lower upper
            rcases lt_trichotomy index ((low + high).tdiv 2) with
              before | rfl | after
            · intro early
              exact passed (monotone index _ lower before below early)
            · exact passed
            · exact isBoundary.fails index after upper
      · refine ⟨high, ?_, ordered, le_rfl, ?_, ?_⟩
        · rw [bisect, if_neg wide]
        · intro index above below
          omega
        · intro index above below
          omega

/-- Two searches, for `key ≤` and for `key <`, enclose the equal elements. -/
theorem Boundary.equal_iff
    {Key : Type}
    [LinearOrder Key]
    {element : Int → Key}
    {key : Key}
    {low high first last : Int}
    (lower : Boundary (fun index => key ≤ element index) low high first)
    (upper :
      Boundary (fun index => key < element index) (first - 1) high last) :
    ∀ index, low < index → index < high →
      (element index = key ↔ first ≤ index ∧ index < last) := by
  intro index above below
  constructor
  · intro equal
    refine ⟨not_lt.mp ?_, not_le.mp ?_⟩
    · intro early
      exact lower.fails index above early equal.ge
    · intro late
      exact (upper.succeeds index late below).ne' equal
  · rintro ⟨late, early⟩
    exact le_antisymm
      (not_lt.mp (upper.fails index (by omega) early))
      (lower.succeeds index late below)

/-- An empty interval is left as it is. -/
theorem bisect_empty
    {fuel : Nat}
    {low high : Int}
    (narrow : high - low ≤ 1) :
    bisect test fuel low high = .ok high := by
  unfold bisect
  rw [if_neg (by omega)]

end

end Hamachi
