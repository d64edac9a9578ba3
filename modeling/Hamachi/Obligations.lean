import Hamachi.Runs
import Mathlib.Data.Set.Basic

namespace Hamachi

/-!
# Obligations along a run

Some labels raise an obligation and later labels settle it.  `outstanding` is
what is still owed after a list of labels; nothing is owed exactly when every
raised obligation is settled later on.
-/

variable {Label Id : Type}

/-- What is owed after one label: it settles before it raises. -/
def owedAfter
    (raises settles : Label → Option Id)
    (owed : Set Id)
    (label : Label) : Set Id :=
  { id | raises label = some id ∨ id ∈ owed ∧ settles label ≠ some id }

/-- What is owed after a list of labels. -/
def outstanding
    (raises settles : Label → Option Id)
    (owed : Set Id)
    (labels : List Label) : Set Id :=
  labels.foldl (owedAfter raises settles) owed

/-- Every obligation that the labels raise is settled by a later label. -/
def EachSettled
    (raises settles : Label → Option Id) :
    List Label → Prop
  | [] => True
  | label :: rest =>
      (∀ id ∈ raises label, ∃ later ∈ rest, settles later = some id) ∧
        EachSettled raises settles rest

variable {raises settles : Label → Option Id}

instance EachSettled.decidable [DecidableEq Id] :
    ∀ labels : List Label, Decidable (EachSettled raises settles labels)
  | [] =>
      .isTrue trivial
  | _ :: rest =>
      have := decidable rest
      inferInstanceAs (Decidable (_ ∧ _))

/-- A label that neither raises nor settles changes nothing. -/
theorem owedAfter_neutral
    {owed : Set Id}
    {label : Label}
    (raisesNone : raises label = none)
    (settlesNone : settles label = none) :
    owedAfter raises settles owed label = owed := by
  ext id
  simp [owedAfter, raisesNone, settlesNone]

/-- What is owed at the end was owed at the start or raised on the way, and
was not settled since. -/
theorem outstanding_eq_empty_iff
    {owed : Set Id}
    {labels : List Label} :
    outstanding raises settles owed labels = ∅ ↔
      (∀ id ∈ owed, ∃ later ∈ labels, settles later = some id) ∧
        EachSettled raises settles labels := by
  induction labels generalizing owed with
  | nil =>
      simp [outstanding, EachSettled, Set.eq_empty_iff_forall_notMem]
  | cons label rest inductionHypothesis =>
      have step :
          outstanding raises settles owed (label :: rest) =
            outstanding raises settles (owedAfter raises settles owed label)
              rest :=
        rfl
      rw [step, inductionHypothesis]
      constructor
      · rintro ⟨allSettled, later⟩
        refine ⟨?_, fun id raised => allSettled id (.inl raised), later⟩
        intro id isOwed
        by_cases now : settles label = some id
        · exact ⟨label, List.mem_cons_self, now⟩
        · obtain ⟨settler, member, settled⟩ :=
            allSettled id (.inr ⟨isOwed, now⟩)
          exact ⟨settler, List.mem_cons_of_mem _ member, settled⟩
      · rintro ⟨startSettled, nowSettled, later⟩
        refine ⟨?_, later⟩
        rintro id (raised | ⟨isOwed, notNow⟩)
        · exact nowSettled id raised
        · obtain ⟨settler, member, settled⟩ := startSettled id isOwed
          rcases List.mem_cons.mp member with rfl | inRest
          · exact absurd settled notNow
          · exact ⟨settler, inRest, settled⟩

/-- From nothing owed, nothing is owed at the end exactly when every
obligation is settled. -/
theorem outstanding_empty_iff {labels : List Label} :
    outstanding raises settles ∅ labels = ∅ ↔
      EachSettled raises settles labels := by
  rw [outstanding_eq_empty_iff]
  simp

/-- A run keeps a relation between its state and what is owed. -/
theorem Run.outstanding
    {State : Type}
    {Step : State → Label → State → Prop}
    {Relates : Set Id → State → Prop}
    (step :
      ∀ {owed source label target},
        Relates owed source →
          Step source label target →
            Relates (owedAfter raises settles owed label) target)
    {initial final : State}
    {labels : List Label}
    (run : Run Step initial labels final)
    {owed : Set Id}
    (relates : Relates owed initial) :
    Relates (Hamachi.outstanding raises settles owed labels) final := by
  induction run generalizing owed with
  | nil state =>
      exact relates
  | cons label rest first _ inductionHypothesis =>
      exact inductionHypothesis (step relates first)

end Hamachi
