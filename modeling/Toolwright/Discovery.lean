import Toolwright.Failure
import Toolwright.Files.Glob

/-!
The descriptions of a directory: the files directly in it whose names end in `.json`, in the order
of their paths. They are found by a pattern in which the directory stands for itself.
-/

namespace Toolwright.Discovery

def hasJsonEnd (name : String) : Bool := ".json".toList.isSuffixOf name.toList

def jsonPattern (dir : Path) : String :=
  String.ofList (Text.dropEnd (· == '/') (Files.Glob.escape dir.text.toList)) ++ "/*.json"

def discover (t : Files.Tree) (dir : Path) : Except Failure (List Path) :=
  if t.isDirectory dir then
    match Files.Glob.paths t (jsonPattern dir) with
    | .error position => .error (.io (.unclosedBracket position))
    | .ok paths => .ok ((paths.filter t.isFile).mergeSort Path.le)
  else .error (.io (.notDirectory dir))

end Toolwright.Discovery
