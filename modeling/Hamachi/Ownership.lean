import Mathlib.Logic.Function.Basic

namespace Hamachi

/-!
# Exclusive ownership

Holders own at most one resource each; ownership is exclusive when no resource
has two holders.  A holder takes a free resource, gives its own to another
holder, or drops it.
-/

variable
  {Holder Resource : Type}

/-- No resource has two holders. -/
def Exclusive (own : Holder → Option Resource) : Prop :=
  ∀ holder other resource,
    own holder = some resource → own other = some resource → holder = other

/-- A resource has a holder. -/
def Held (own : Holder → Option Resource) (resource : Resource) : Prop :=
  ∃ holder, own holder = some resource

namespace Exclusive

variable
  [DecidableEq Holder]
  {own : Holder → Option Resource}
  {holder giver taker : Holder}
  {resource other : Resource}

/-- A holder drops what it has. -/
theorem drop
    (exclusive : Exclusive own) :
    Exclusive (Function.update own holder none) := by
  intro first second resource owns owned
  have notFirst : first ≠ holder := by
    rintro rfl
    simp at owns
  have notSecond : second ≠ holder := by
    rintro rfl
    simp at owned
  rw [Function.update_of_ne notFirst] at owns
  rw [Function.update_of_ne notSecond] at owned
  exact exclusive first second resource owns owned

/-- A holder takes a free resource. -/
theorem take
    (exclusive : Exclusive own)
    (free : ¬ Held own resource) :
    Exclusive (Function.update own holder (some resource)) := by
  intro first second wanted owns owned
  rw [Function.update_apply] at owns owned
  by_cases isFirst : first = holder <;> by_cases isSecond : second = holder
  · rw [isFirst, isSecond]
  · rw [if_pos isFirst] at owns
    rw [if_neg isSecond, ← Option.some.inj owns] at owned
    exact absurd ⟨second, owned⟩ free
  · rw [if_pos isSecond] at owned
    rw [if_neg isFirst, ← Option.some.inj owned] at owns
    exact absurd ⟨first, owns⟩ free
  · rw [if_neg isFirst] at owns
    rw [if_neg isSecond] at owned
    exact exclusive first second wanted owns owned

/-- What a holder drops is free. -/
theorem held_drop
    (exclusive : Exclusive own)
    (owns : own holder = some resource) :
    Held (Function.update own holder none) other ↔
      other ≠ resource ∧ Held own other := by
  constructor
  · rintro ⟨owner, owned⟩
    have different : owner ≠ holder := by
      rintro rfl
      simp at owned
    rw [Function.update_of_ne different] at owned
    refine ⟨?_, owner, owned⟩
    rintro rfl
    exact different (exclusive owner holder other owned owns)
  · rintro ⟨different, owner, owned⟩
    refine ⟨owner, ?_⟩
    have notDropped : owner ≠ holder := by
      rintro rfl
      exact different (Option.some.inj (owned.symm.trans owns))
    rwa [Function.update_of_ne notDropped]

/-- What a holder takes is held. -/
theorem held_take
    (empty : own holder = none) :
    Held (Function.update own holder (some resource)) other ↔
      other = resource ∨ Held own other := by
  constructor
  · rintro ⟨owner, owned⟩
    by_cases isTaker : owner = holder
    · rw [isTaker, Function.update_self] at owned
      exact .inl (Option.some.inj owned).symm
    · rw [Function.update_of_ne isTaker] at owned
      exact .inr ⟨owner, owned⟩
  · rintro (rfl | ⟨owner, owned⟩)
    · exact ⟨holder, Function.update_self ..⟩
    · refine ⟨owner, ?_⟩
      have notTaker : owner ≠ holder := by
        rintro rfl
        simp [empty] at owned
      rwa [Function.update_of_ne notTaker]

/-- A holder gives what it has to another one. -/
theorem transfer
    (exclusive : Exclusive own)
    (owns : own giver = some resource) :
    Exclusive
      (Function.update (Function.update own giver none) taker
        (some resource)) := by
  apply exclusive.drop.take
  rw [exclusive.held_drop owns]
  simp

/-- Giving leaves every resource held or free. -/
theorem held_transfer
    (exclusive : Exclusive own)
    (owns : own giver = some resource)
    (empty : own taker = none) :
    Held
        (Function.update (Function.update own giver none) taker
          (some resource))
        other ↔
      Held own other := by
  have stillEmpty : Function.update own giver none taker = none := by
    rw [Function.update_apply, empty, ite_self]
  rw [held_take stillEmpty, exclusive.held_drop owns]
  constructor
  · rintro (rfl | ⟨_, held⟩)
    · exact ⟨giver, owns⟩
    · exact held
  · intro held
    by_cases isGiven : other = resource
    · exact .inl isGiven
    · exact .inr ⟨isGiven, held⟩

end Exclusive

end Hamachi
