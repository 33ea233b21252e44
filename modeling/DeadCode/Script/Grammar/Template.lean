import DeadCode.Script.Parse

/-!
# DeadCode.Script.Grammar.Template

Template literals, in expressions and in types.
-/

namespace DeadCode.Script

open Parse

/-- The text of a template up to its end or to the start of a substitution: whether a substitution
starts, and the length of the text. -/
def chunk : List Char → Bool × Nat
  | [] => (false, 0)
  | '`' :: _ => (false, 1)
  | '$' :: '\x7b' :: _ => (true, 2)
  | '\\' :: _ :: cs =>
    let (open?, n) := chunk cs
    (open?, n + 2)
  | _ :: cs =>
    let (open?, n) := chunk cs
    (open?, n + 1)

variable {script : List Char}

/-- One substitution of a template, if the text behind the present token comes to one. Reading then
stands at the brace that closes it, otherwise behind the template. -/
def substitution (part : Parse script (Tree script)) : Parse script (Option (Tree script)) := do
  let (open?, n) := chunk (← get).rest
  passBehind n
  if open? then
    let tree ← part
    ensure (← atMark "\x7d")
    return some tree
  return none

/-- A template literal whose substitutions are read by `part`. -/
def template (part : Parse script (Tree script)) : Parse script (Tree script) := do
  let start ← get
  match hhere : start.here with
  | '`' :: _ =>
    let parts ← many (substitution part)
    if parts.isEmpty then return .literal (← literalSince start hhere rfl)
    return .template parts
  | _ => failure

end DeadCode.Script
