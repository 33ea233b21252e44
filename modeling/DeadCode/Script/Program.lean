import DeadCode.Script.Grammar.Statement

/-!
# DeadCode.Script.Program

The grammar of scripts with its recursion closed. Each goal within a goal takes one unit of fuel,
and the goals that are open at once have each passed over some of the text or are one of a few that
start at the same place, so a multiple of the text's length is enough.
-/

namespace DeadCode.Script

variable {script : List Char}

namespace Grammar

/-- How one goal is read, when `g` reads the goals within it. -/
def production (g : Grammar script) : Goal → Parse script (Tree script)
  | .statement => g.statement
  | .block => g.block
  | .expression limits => g.expression limits
  | .assignment limits => g.assignment limits
  | .operand limits => g.operand limits
  | .pattern => g.pattern
  | .parameters => g.parameters
  | .type => g.typeExpression
  | .element => g.element

end Grammar

/-- Read a goal with goals nested at most `fuel` deep. -/
def readGoal (dialect : Dialect) : Nat → Goal → Parse script (Tree script)
  | 0, _ => failure
  | fuel + 1, goal => Grammar.production ⟨dialect, readGoal dialect fuel⟩ goal

/-- The statements of a script. -/
def program (dialect : Dialect) (script : List Char) : List (Tree script) :=
  let g : Grammar script := ⟨dialect, readGoal dialect (8 * script.length + 16)⟩
  match g.statements (fun _ => false) (State.start script) with
  | some (trees, _) => trees
  | none => []

end DeadCode.Script
