import DeadCode.Text.Basic

/-!
# DeadCode.Script.Quoted

String literals of scripts. A literal is kept as it is written, with its quotes; what it says is its
text without the quotes at its ends. That it is a part of the script and opens with a quote belongs
to its type, so wherever a script names a module, the literal that names it can be found there. A
literal need not be closed: one that is left open says what stands behind its quotes.
-/

namespace DeadCode.Script

open Text

/-- Whether `c` is a quote. -/
def isQuote (c : Char) : Bool := c == '"' || c == '\'' || c == '`'

/-- The text of a literal without the quotes at its ends. -/
def unquote (literal : List Char) : List Char := trimWhile isQuote literal

/-- A literal of a script that says something. -/
structure Quoted (script : List Char) where
  /-- The literal with its quotes. -/
  literal : List Char
  opens : literal.head?.any isQuote = true
  stands : literal <:+: script
  ne_nil : unquote literal ≠ []

/-- What a literal says. -/
def Quoted.chars {script : List Char} (quoted : Quoted script) : List Char := unquote quoted.literal

/-- A literal of a script, if it says anything. -/
def Quoted.ofLiteral? {script : List Char} (literal : List Char)
    (hopens : literal.head?.any isQuote = true) (hstands : literal <:+: script) :
    Option (Quoted script) :=
  if hne : unquote literal ≠ [] then some ⟨literal, hopens, hstands, hne⟩ else none

end DeadCode.Script
