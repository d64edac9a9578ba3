import Hamachi.Runs
import Mathlib.Data.Set.Lattice

namespace Hamachi

/-!
# Nodes over an unreliable medium

A message stays in the medium once it is sent, and any node may receive any
message of the medium at any time: messages may be lost, repeated, reordered
and delivered to the wrong node.  What happens at the nodes is recorded as a
growing set of facts.
-/

/-- What one step of a node does. -/
structure Reaction (State Message Fact : Type) where
  next : State
  sends : Set Message
  facts : Set Fact

/-- The states of all nodes, the messages sent so far, and what happened. -/
structure Network (Node State Message Fact : Type) where
  states : Node → State
  medium : Set Message
  facts : Set Fact

namespace Network

variable
  {Node State Message Fact : Type}
  [DecidableEq Node]
  {React :
    Node → State → Option Message → Reaction State Message Fact → Prop}

/-- The network after a reaction of one node. -/
def after
    (network : Network Node State Message Fact)
    (node : Node)
    (reaction : Reaction State Message Fact) :
    Network Node State Message Fact where
  states := Function.update network.states node reaction.next
  medium := network.medium ∪ reaction.sends
  facts := network.facts ∪ reaction.facts

/-- One node reacts, by itself or to a message of the medium. -/
inductive Step
    (React :
      Node → State → Option Message → Reaction State Message Fact → Prop) :
    Network Node State Message Fact →
    Node →
    Network Node State Message Fact → Prop where
  | react
      {network : Network Node State Message Fact}
      {node : Node}
      {input : Option Message}
      {reaction : Reaction State Message Fact}
      (available : ∀ message ∈ input, message ∈ network.medium)
      (reacts : React node (network.states node) input reaction) :
      Step React network node (network.after node reaction)

@[simp] theorem after_states_self
    (network : Network Node State Message Fact)
    (node : Node)
    (reaction : Reaction State Message Fact) :
    (network.after node reaction).states node = reaction.next :=
  Function.update_self ..

theorem after_states_of_ne
    (network : Network Node State Message Fact)
    {node other : Node}
    (reaction : Reaction State Message Fact)
    (others : other ≠ node) :
    (network.after node reaction).states other = network.states other :=
  Function.update_of_ne others ..

/-- A network whose nodes are good, whose messages are honest given what
happened so far, and in which only allowed things happened. -/
structure Sound
    (Good : Node → State → Prop)
    (Honest : Set Fact → Message → Prop)
    (Allowed : Set Fact → Fact → Prop)
    (network : Network Node State Message Fact) : Prop where
  states : ∀ node, Good node (network.states node)
  medium : ∀ message ∈ network.medium, Honest network.facts message
  facts : ∀ fact ∈ network.facts, Allowed network.facts fact

/-- What has to be shown of one reaction, by the node alone, for every network
to stay sound. -/
structure Discipline
    (React :
      Node → State → Option Message → Reaction State Message Fact → Prop)
    (Good : Node → State → Prop)
    (Honest : Set Fact → Message → Prop)
    (Allowed : Set Fact → Fact → Prop) : Prop where
  honestMono :
    ∀ {known more message},
      known ⊆ more → Honest known message → Honest more message
  allowedMono :
    ∀ {known more fact}, known ⊆ more → Allowed known fact → Allowed more fact
  reacts :
    ∀ {known node state input reaction},
      Good node state →
        (∀ message ∈ input, Honest known message) →
          React node state input reaction →
            Good node reaction.next ∧
              (∀ message ∈ reaction.sends,
                Honest (known ∪ reaction.facts) message) ∧
              ∀ fact ∈ reaction.facts,
                Allowed (known ∪ reaction.facts) fact

variable
  {Good : Node → State → Prop}
  {Honest : Set Fact → Message → Prop}
  {Allowed : Set Fact → Fact → Prop}

/-- A step of a disciplined node keeps the network sound. -/
theorem Sound.step
    (discipline : Discipline React Good Honest Allowed)
    {network next : Network Node State Message Fact}
    {node : Node}
    (sound : network.Sound Good Honest Allowed)
    (step : Step React network node next) :
    next.Sound Good Honest Allowed := by
  cases step with
  | @react input reaction available reacts =>
      have grown : network.facts ⊆ network.facts ∪ reaction.facts :=
        Set.subset_union_left
      obtain ⟨good, honest, allowed⟩ :=
        discipline.reacts (sound.states node)
          (fun message isInput =>
            sound.medium message (available message isInput))
          reacts
      refine {
        states := fun other => ?_
        medium := ?_
        facts := ?_
      }
      · by_cases self : other = node
        · subst self
          rwa [after_states_self]
        · rw [after_states_of_ne network reaction self]
          exact sound.states other
      · rintro message (old | new)
        · exact discipline.honestMono grown (sound.medium message old)
        · exact honest message new
      · rintro fact (old | new)
        · exact discipline.allowedMono grown (sound.facts fact old)
        · exact allowed fact new

/-- Every interleaving of disciplined nodes keeps the network sound. -/
theorem Sound.run
    (discipline : Discipline React Good Honest Allowed)
    {initial final : Network Node State Message Fact}
    {nodes : List Node}
    (run : Run (Step React) initial nodes final)
    (sound : initial.Sound Good Honest Allowed) :
    final.Sound Good Honest Allowed :=
  run.invariant (fun holds step => holds.step discipline step) sound

end Network

end Hamachi
