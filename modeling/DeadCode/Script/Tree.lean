import DeadCode.Script.Quoted
import DeadCode.Syntax.Module

/-!
# DeadCode.Script.Tree

Syntax trees of scripts, as far as imports and exports depend on them. Names, literals, calls,
bindings, declarations and the module statements keep their form; every other construct is a `group`
of its parts in the order of the text.

A place in the text is given by the number of characters from it to the end (`left`). A tree belongs
to one script, in which its literals stand.
-/

namespace DeadCode.Script

/-- What an import statement says. -/
structure ImportClause (script : List Char) where
  /-- The module, when it has a name. -/
  source : Option (Quoted script)
  specifiers : List Specifier
  /-- Whether the module is loaded by a call of `require` behind an equals sign. -/
  required : Bool

/-- What an export statement says, apart from its parts. -/
inductive ExportClause (script : List Char) where
  /-- The default export. -/
  | asDefault
  /-- The names that its declaration binds. -/
  | declaration
  /-- Listed names with the names that they are exported under, possibly those of another module. -/
  | listed (names : List (String × String)) (source : Option (Quoted script))
  /-- All names of another module, possibly under one name. -/
  | all (under : Option String) (source : Option (Quoted script))
  /-- Nothing that another module could name. -/
  | nothing

/-- A syntax tree. -/
inductive Tree (script : List Char) where
  /-- A name that is bound or referred to; names of properties and types are not kept. -/
  | name (text : String)
  /-- The word `import` in the place of a function. -/
  | importWord
  | comment
  /-- A string literal, or a template literal in which nothing is substituted. -/
  | literal (quoted : Option (Quoted script))
  /-- A template literal with the parts that are substituted in it. -/
  | template (parts : List (Tree script))
  /-- A call: what is called, the types that it is called at, and its arguments. -/
  | call (left : Nat) (callee : Tree script) (types : List (Tree script))
      (arguments : List (Tree script))
  /-- A binding of which only `target` binds names. -/
  | binds (before : List (Tree script)) (target : Tree script) (after : List (Tree script))
  /-- A pattern that takes an object or an array apart. -/
  | pattern (parts : List (Tree script))
  /-- One variable of a declaration: what is bound, its type and its value. -/
  | declarator (target : Tree script) (type : List (Tree script)) (value : List (Tree script))
  /-- A declaration of variables. -/
  | variableDeclaration (declarators : List (Tree script))
  /-- A declaration of one name. -/
  | declared (name : String) (parts : List (Tree script))
  /-- A declaration of something that exists elsewhere. -/
  | ambient (parts : List (Tree script))
  | importing (left : Nat) (clause : ImportClause script)
  | exporting (left : Nat) (clause : ExportClause script) (parts : List (Tree script))
  | group (parts : List (Tree script))
  deriving Inhabited

end DeadCode.Script
