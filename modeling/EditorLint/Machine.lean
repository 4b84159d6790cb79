import EditorLint.FileSystem
import EditorLint.Settings.Logging

/-!
# The machine

What an operation sees of the machine it runs on: the files, the working directory,
the environment variables, and the accounts of the system.

Assumed: a request sees one state of the machine while it loads the settings and searches.
-/

namespace EditorLint

/-- Files, working directory, environment variables in their order, and accounts. -/
structure Machine where
  files : FileSystem
  cwd : Path
  environment : List (Text × Text)
  accounts : Accounts

namespace Machine

def getVariable (m : Machine) (name : String) : Option Text :=
  (m.environment.find? fun (n, _) => n.isString name).map (·.2)

def home (m : Machine) : Home := ⟨m.getVariable "HOME", m.accounts⟩

def probe (m : Machine) (p : Path) : Except Failure Bool := m.files.contains m.cwd p

end Machine

end EditorLint
