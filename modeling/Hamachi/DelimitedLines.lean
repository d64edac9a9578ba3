import Mathlib.Data.List.Basic

namespace Hamachi

/-!
# Lines that are ended by a delimiter

A text splits into lines at its delimiters.  With every delimiter replaced by
one mark, the text is the sequence of its ended lines, each with the mark after
it, and of a last line that has no delimiter.
-/

namespace DelimitedLines

variable {α : Type} (isEnd : α → Bool)

/-- The lines of a text that have a delimiter after them. -/
def ended (text : List α) : List (List α) :=
  (text.splitOnP isEnd).dropLast

/-- What stands behind the last delimiter. -/
def unended (text : List α) : List α :=
  (text.splitOnP isEnd).getLast (List.splitOnP_ne_nil isEnd text)

/-- Replace the delimiters by a mark. -/
def marked (mark : α) (text : List α) : List α :=
  text.map fun char => if isEnd char then mark else char

/-- The ended lines with a mark after each. -/
def withMarks (mark : α) (lines : List (List α)) : List α :=
  lines.flatMap fun line => line ++ [mark]

variable {isEnd : α → Bool} {mark : α} {text : List α}

@[simp] theorem withMarks_nil : withMarks mark [] = [] :=
  rfl

@[simp] theorem withMarks_cons
    (line : List α)
    (rest : List (List α)) :
    withMarks mark (line :: rest) = line ++ mark :: withMarks mark rest := by
  simp [withMarks]

@[simp] theorem withMarks_append
    (lines rest : List (List α)) :
    withMarks mark (lines ++ rest) =
      withMarks mark lines ++ withMarks mark rest :=
  List.flatMap_append

/-- Each line takes at least the place of its mark. -/
theorem length_le_withMarks (lines : List (List α)) :
    lines.length ≤ (withMarks mark lines).length := by
  induction lines with
  | nil =>
      exact Nat.zero_le _
  | cons line rest inductionHypothesis =>
      simp only [withMarks_cons, List.length_append, List.length_cons]
      omega

/-- The lines of a text are the ended ones and one more. -/
theorem splitOnP_eq (isEnd : α → Bool) (text : List α) :
    text.splitOnP isEnd = ended isEnd text ++ [unended isEnd text] :=
  (List.dropLast_append_getLast _).symm

/-- No line contains a delimiter. -/
theorem not_isEnd
    {line : List α}
    (member : line ∈ text.splitOnP isEnd) :
    ∀ char ∈ line, isEnd char = false := by
  induction text generalizing line with
  | nil =>
      simp_all
  | cons first rest inductionHypothesis =>
      rw [List.splitOnP_cons_eq_if_modifyHead] at member
      split at member
      · rcases List.mem_cons.mp member with rfl | later
        · simp
        · exact inductionHypothesis later
      · rename_i notEnd
        cases pieces : rest.splitOnP isEnd with
        | nil =>
            exact absurd pieces (List.splitOnP_ne_nil isEnd rest)
        | cons head tail =>
            rw [pieces] at member inductionHypothesis
            rcases List.mem_cons.mp member with rfl | later
            · refine List.forall_mem_cons.mpr ⟨by simpa using notEnd, ?_⟩
              exact inductionHypothesis List.mem_cons_self
            · exact inductionHypothesis (List.mem_cons_of_mem _ later)

/-- A text and one more mark are its lines with marks. -/
theorem marked_append_mark :
    marked isEnd mark text ++ [mark] =
      withMarks mark (text.splitOnP isEnd) := by
  induction text with
  | nil =>
      simp [marked]
  | cons first rest inductionHypothesis =>
      rw [List.splitOnP_cons_eq_if_modifyHead, marked, List.map_cons,
        List.cons_append]
      change _ :: (marked isEnd mark rest ++ [mark]) = _
      rw [inductionHypothesis]
      split
      · rfl
      · cases pieces : rest.splitOnP isEnd with
        | nil =>
            exact absurd pieces (List.splitOnP_ne_nil isEnd rest)
        | cons head tail =>
            simp

/-- A text is its ended lines with marks and its last line. -/
theorem marked_eq :
    marked isEnd mark text =
      withMarks mark (ended isEnd text) ++ unended isEnd text := by
  have whole := @marked_append_mark _ isEnd mark text
  rw [splitOnP_eq, withMarks_append, withMarks_cons, withMarks_nil,
    ← List.append_assoc] at whole
  exact List.append_cancel_right whole

/-- Nothing stands behind the last delimiter when the text ends in one. -/
theorem unended_eq_nil_iff
    (isMark : isEnd mark = true) :
    unended isEnd text = [] ↔ ∀ last ∈ text.getLast?, isEnd last = true := by
  have decomposed := @marked_eq _ isEnd mark text
  have lastOf :
      ∀ last ∈ text.getLast?,
        (marked isEnd mark text).getLast? =
          some (if isEnd last then mark else last) := by
    intro last isLast
    rw [marked, List.getLast?_map, isLast, Option.map_some]
  constructor
  · intro isNil last isLast
    by_contra notEnd
    have shown := lastOf last isLast
    rw [if_neg notEnd, decomposed, isNil, List.append_nil] at shown
    rcases List.eq_nil_or_concat (ended isEnd text) with
      noLines | ⟨lines, line, isLines⟩
    · rw [noLines] at shown
      cases shown
    · rw [isLines, List.concat_eq_append, withMarks_append, withMarks_cons,
        withMarks_nil, ← List.append_assoc, List.getLast?_concat] at shown
      cases shown
      exact notEnd isMark
  · intro ends
    by_contra notNil
    obtain ⟨front, char, isLine⟩ :=
      (List.eq_nil_or_concat (unended isEnd text)).resolve_left notNil
    have notEnd : isEnd char = false := by
      refine @not_isEnd _ isEnd text (unended isEnd text) ?_ char ?_
      · rw [splitOnP_eq]
        simp
      · rw [isLine]
        simp
    have shown : (marked isEnd mark text).getLast? = some char := by
      rw [decomposed, isLine, List.concat_eq_append, ← List.append_assoc,
        List.getLast?_concat]
    cases isLast : text.getLast? with
    | none =>
        rw [marked, List.getLast?_map, isLast] at shown
        cases shown
    | some last =>
        rw [lastOf last isLast, if_pos (ends last isLast)] at shown
        cases shown
        rw [isMark] at notEnd
        cases notEnd

end DelimitedLines

end Hamachi
