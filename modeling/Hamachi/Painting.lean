import Mathlib.Data.List.Basic
import Mathlib.Logic.Function.Basic

namespace Hamachi

/-!
# Painting points of a plane

A list of writes to a function, in order.  Where a list covers a point, what
was there before does not matter; and painting a memory at the addresses of
points is painting the plane that the memory holds.
-/

variable
  {Point Address Value : Type}
  [DecidableEq Point]
  [DecidableEq Address]

/-- Give the points their values, one after the other. -/
def paint : List (Point × Value) → (Point → Value) → Point → Value
  | [], plane => plane
  | (point, value) :: rest, plane =>
      paint rest (Function.update plane point value)

theorem paint_append
    (first later : List (Point × Value))
    (plane : Point → Value) :
    paint (first ++ later) plane = paint later (paint first plane) := by
  induction first generalizing plane with
  | nil =>
      rfl
  | cons write rest inductionHypothesis =>
      exact inductionHypothesis _

/-- One more write. -/
theorem paint_concat
    (writes : List (Point × Value))
    (point : Point)
    (value : Value)
    (plane : Point → Value) :
    paint (writes ++ [(point, value)]) plane =
      Function.update (paint writes plane) point value :=
  paint_append writes [(point, value)] plane

/-- The same writes keep an agreement at a point. -/
theorem paint_congr
    (writes : List (Point × Value))
    {plane other : Point → Value}
    {point : Point}
    (agree : plane point = other point) :
    paint writes plane point = paint writes other point := by
  induction writes generalizing plane other with
  | nil =>
      exact agree
  | cons write rest inductionHypothesis =>
      refine inductionHypothesis ?_
      by_cases here : point = write.1
      · rw [here, Function.update_self, Function.update_self]
      · rw [Function.update_of_ne here, Function.update_of_ne here, agree]

/-- What was there before does not matter where something is written. -/
theorem paint_of_mem
    {writes : List (Point × Value)}
    {point : Point}
    (written : point ∈ writes.map Prod.fst)
    (plane other : Point → Value) :
    paint writes plane point = paint writes other point := by
  induction writes generalizing plane other with
  | nil =>
      cases written
  | cons write rest inductionHypothesis =>
      rw [List.map_cons] at written
      rcases List.mem_cons.mp written with here | later
      · refine paint_congr rest ?_
        rw [here, Function.update_self, Function.update_self]
      · exact inductionHypothesis later _ _

/-- A write to a memory that holds a plane at the addresses of its points. -/
theorem update_address
    {address : Point → Address}
    {memory : Address → Value}
    {plane : Point → Value}
    {point written : Point}
    {value : Value}
    (distinct : address point = address written → point = written)
    (holds : memory (address point) = plane point) :
    Function.update memory (address written) value (address point) =
      Function.update plane written value point := by
  by_cases here : point = written
  · rw [here, Function.update_self, Function.update_self]
  · rw [Function.update_of_ne here,
      Function.update_of_ne fun same => here (distinct same), holds]

end Hamachi
