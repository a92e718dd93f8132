import Descent.Parser.Complete
import Descent.Script.Grammar
import Descent.Transcript

/-!
Complete scripts and expressions, and the outline of a script: its operators, numbers and names in
preorder, one to a line, with two spaces for every level.
-/

namespace Descent.Script

def parseProgram (source : List Char) : Except SyntaxError (List Tree) :=
  program.complete source

/-- The source has to be one expression, apart from spaces around it. -/
def parseExpression (source : List Char) : Except SyntaxError Tree :=
  (parser .expression).complete source

def outlineLine (level : Nat × String) : String :=
  String.ofList (List.replicate (2 * level.1) ' ') ++ level.2

def outline (statements : List Tree) : List String :=
  (Tree.levelsAll 0 statements).map outlineLine

/-- Shows the outline of a source, or tells its syntax error. -/
def display (source : List Char) : Transcript :=
  match parseProgram source with
  | .ok statements => ⟨outline statements, []⟩
  | .error error => ⟨[], ["error: " ++ error.message]⟩

end Descent.Script
