import Workbench.Settings
import Workbench.Workspace.Operation

/-!
# The demo tree

What a new free workspace holds when it starts with the demo tree: a home directory with a few
files and the usual directories of a system. The directory that is set as home is there in any
case.
-/

namespace Workbench

/-- A node to be created, with the nodes below it. -/
inductive Plant where
  | file (name content : String) (marks : NodeUpdate)
  | directory (name : String) (marks : NodeUpdate) (below : List Plant)

namespace Seed

def readme : String :=
  "# Welcome to HENU\n\n" ++
  "This is your home directory.\n\n" ++
  "## Available Commands\n" ++
  "- help: Show all commands\n" ++
  "- ls: List files\n" ++
  "- cd: Change directory\n" ++
  "- mkdir: Create directory\n" ++
  "- touch: Create file\n" ++
  "- rm: Remove file\n" ++
  "- cat: View file\n" ++
  "- ai: AI tools"

def script : String :=
  "console.log(\"Hello HENU!\");\n\n" ++
  "function greet() \x7b\n" ++
  "  return \"Welcome to the terminal!\";\n" ++
  "\x7d\n\n" ++
  "greet();"

def config : String :=
  "\x7b\n  \"theme\": \"dark\",\n  \"aiEnabled\": true,\n  \"terminalType\": \"bash\"\n\x7d"

def unmarked : NodeUpdate := {}

def tagged (tags : List String) : NodeUpdate := { tags := some tags }

def favored (tags : List String) : NodeUpdate := { tags := some tags, favorite := some true }

def demo : List Plant :=
  [.directory "home" unmarked
      [.directory "user" unmarked
        [.directory "Documents" (tagged ["docs", "work"]) [],
          .directory "Downloads" (tagged ["downloads"]) [],
          .directory "Projects" (favored ["code", "projects"]) [],
          .file "README.md" readme (favored ["documentation", "readme"]),
          .directory ".config" (tagged ["config", "hidden"]) [],
          .file "script.js" script (tagged ["javascript", "code"])]],
    .directory "etc" unmarked [.file "config.json" config (tagged ["configuration", "system"])],
    .directory "var" (tagged ["system", "logs"]) [],
    .directory "tmp" (tagged ["temporary", "system"]) [],
    .directory "bin" (tagged ["binaries", "system"]) []]

mutual

/-- Creates a plant below a directory of a free workspace. -/
def grow (now : Timestamp) (parentId : NodeId) : Plant → Workspace → Workspace
  | .file name content marks, s =>
    let n := s.drawnNode .file name parentId content now
    (s.added n parentId now).marked n.id marks
  | .directory name marks below, s =>
    let n := s.drawnNode .directory name parentId "" now
    growAll now n.id below ((s.added n parentId now).marked n.id marks)

def growAll (now : Timestamp) (parentId : NodeId) : List Plant → Workspace → Workspace
  | [], s => s
  | p :: rest, s => growAll now parentId rest (grow now parentId p s)

end

/-- A free workspace with the demo tree and the home directory. -/
def planted (home : String) (now : Timestamp) : Workspace :=
  let world : World Unit := ⟨growAll now rootId demo (.new home now), ()⟩
  (world.ensureDirectories ⟨none, now⟩ home "/").2.space

end Seed

end Workbench
