import Hamachi.MainLoopRules

namespace Hamachi

/-!
# The main loop is safe

`my_popen` is called with a null buffer and size zero only, and a network is
accessed inside of the list only, at every point of every run.
-/

namespace App

open Program

/-- An event that the callee expects. -/
def Event.Allowed : Event → Prop
  | .popen buf sz _ => buf = 0 ∧ sz = 0
  | .network netid nnets => 0 ≤ netid ∧ netid < nnets
  | .dialog _ => True

/-- Every call of `my_popen` and every access to the network list so far was
allowed. -/
def Observed (state : AppState) : Prop :=
  ∀ event ∈ state.events, Event.Allowed event

/-- Neither `abort` nor an access outside of the network list. -/
def Harmless (stopped : Stopped) : Prop :=
  stopped ≠ .aborted ∧ stopped ≠ .badNetwork

/-- One more allowed event. -/
theorem observed_append
    {state : AppState}
    {event : Event}
    (observed : Observed state)
    (allowed : Event.Allowed event) :
    ∀ other ∈ state.events ++ [event], Event.Allowed other := by
  intro other member
  rcases List.mem_append.mp member with before | now
  · exact observed other before
  · rw [List.mem_singleton.mp now]
    exact allowed

/-- The main loop observes allowed events only. -/
theorem observedDiscipline :
    Discipline Observed (fun _ => True) Harmless where
  null := trivial
  popenData := fun _ _ => trivial
  malloc := fun _ _ observed => ⟨trivial, observed⟩
  free := fun _ _ _ observed _ _ => observed
  store := fun _ _ _ _ observed _ _ => observed
  popen := fun _ _ _ observed _ => observed
  input := fun _ _ _ _ observed => observed
  popenEvent := fun _ _ observed => observed_append observed ⟨rfl, rfl⟩
  networkEvent := fun _ _ _ observed lower upper =>
    observed_append observed ⟨lower, upper⟩
  dialogEvent := fun _ _ observed => observed_append observed trivial
  waiting := by simp [Harmless]
  overflow := by simp [Harmless]
  fault := by simp [Harmless]

/-- A run of the application up to any number of rounds, whether it returns or
stops, has called `my_popen` with a null buffer and size zero only and accessed
networks inside of the list only. -/
theorem main_safe
    (count : Nat)
    (pads : List Keys)
    (outputs : List (List (List Byte)))
    (imes : List ImeResult)
    (junk : Nat → Byte) :
    Observed (main count (appStart pads outputs imes junk)).2 ∧
      ∀ stopped,
        (main count (appStart pads outputs imes junk)).1 = .error stopped →
          Harmless stopped := by
  have observed : Observed (appStart pads outputs imes junk) := by
    simp [Observed, appStart]
  have maintained := observedDiscipline.main count _ observed
  rcases outcome : main count (appStart pads outputs imes junk)
    with ⟨reason | result, after⟩ <;>
    rw [outcome] at maintained
  · refine ⟨maintained.1, ?_⟩
    rintro stopped ⟨⟩
    exact maintained.2
  · refine ⟨maintained.1, ?_⟩
    rintro stopped ⟨⟩

end App

end Hamachi
