import Toolwright.Failure
import Toolwright.Wrapper.Layout

/-!
Renderers: what turns a tool into the text of a generated file. A renderer is told how often it was
called before, so that one that keeps a state can be told from one that does not; `checked` renders
twice and refuses a renderer whose answers differ.
-/

namespace Toolwright

structure Renderer where
  /-- The end of the names of generated files, without its dot. -/
  extension : String
  /-- The text for a tool after a number of earlier calls. -/
  render : Nat → Tool → String

namespace Renderer

def wrapper : Renderer := ⟨"rs", fun _ tool => (Wrapper.Source.ofTool tool).text⟩

def generatedPath (r : Renderer) (tool : Tool) : Path :=
  tool.outputPath (".Generated." ++ r.extension)

/-- The text for a tool, rendered twice if asked to, and the number of calls after that. -/
def checked (r : Renderer) (calls : Nat) (tool : Tool) (verify : Bool) :
    Except Failure String × Nat :=
  let text := r.render calls tool
  if verify then
    if r.render (calls + 1) tool = text then (.ok text, calls + 2)
    else (.error (.render tool.definitionFileName .unstable), calls + 2)
  else (.ok text, calls + 1)

end Renderer

end Toolwright
