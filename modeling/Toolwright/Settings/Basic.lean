import Toolwright.Duration
import Toolwright.Loading

/-!
Settings of the program. Everything has a default.
-/

namespace Toolwright

structure OutputSettings where
  /-- Where the directories of the tools are. -/
  directory : Path := ⟨"."⟩
  provenanceBase : String := LoadOptions.defaultProvenance
  verifyDeterminism : Bool := true

structure ReferenceSettings where
  enabled : Bool := true
  fetchTimeout : Duration := ⟨30000⟩
  maxConcurrent : Nat := 4
  /-- The name that is sent with requests. -/
  agent : String := "toolgen/0.1.0"

structure RunSettings where
  failFast : Bool := false
  dryRun : Bool := false

structure Settings where
  logLevel : Option String := some "info"
  output : OutputSettings := {}
  references : ReferenceSettings := {}
  run : RunSettings := {}

def Settings.standard : Settings := {}

end Toolwright
