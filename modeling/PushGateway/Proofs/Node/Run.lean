import PushGateway.Node.Event

/-!
Runs of a node. A move is something from outside, a step of one of its tasks, or a push that
somebody delivers to a channel directly; nothing says in which order they come. A task that has to
wait makes an empty move.
-/

namespace PushGateway

inductive Move
  | event (e : Event)
  | task (t : Task)
  | deliver (c : Nat) (f : Frame)

namespace Node

def move (n : Node) : Move → Node
  | .event e => e.apply n
  | .task t => (n.step t).getD n
  | .deliver c f => n.modifyChannel c fun ch => (ch.deliver f).2

/-- The node after the moves of a history, the latest of which comes first. -/
def after (n : Node) : List Move → Node
  | [] => n
  | m :: h => (after n h).move m

/-- `P` holds of every move of a history, at the node that makes it. -/
def Along (P : Node → Move → Prop) (n : Node) : List Move → Prop
  | [] => True
  | m :: h => Along P n h ∧ P (n.after h) m

instance decidableAlong {P : Node → Move → Prop} [d : ∀ n m, Decidable (P n m)] (n : Node) :
    (h : List Move) → Decidable (Along P n h)
  | [] => .isTrue trivial
  | m :: h => @instDecidableAnd _ _ (decidableAlong n h) (d (n.after h) m)

end Node

end PushGateway
