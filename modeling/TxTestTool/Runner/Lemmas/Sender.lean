import TxTestTool.Runner.Lemmas.Inversion

/-!
# Runs that differ in the life of the `Sender`

Only the branch of the stop channel sees whether the `Sender` is still there.
-/

namespace TxTestTool.Runner

variable {H : Type*} [DecidableEq H] {cfg : Config} {s t : State H} {i : Input H} {alive : Bool}
  {label : Exit → Exit}

def Phase.relabel (label : Exit → Exit) : Phase → Phase
  | .saving how => .saving (label how)
  | .reporting how => .reporting (label how)
  | .returned how => .returned (label how)
  | p => p

/-- The same state with the `Sender` alive or not, and another name for the way out. -/
def State.relabel (alive : Bool) (label : Exit → Exit) (s : State H) : State H :=
  { s with senderAlive := alive, phase := s.phase.relabel label }

end TxTestTool.Runner
