import Typestate.Config.Basic
import Typestate.Files.Path

/-!
# Finding the configuration

Without a path of its own, a configuration is looked for next to the program and then in each
directory above it, as far as the path of the program is written.
-/

namespace Typestate.Config

/-- The name of configuration files. -/
def fileName : String := "unsafe-drop.toml"

/-- Where a configuration is looked for, nearest first. -/
def candidates (start : Path) : List Path := start.ancestors.map (fun dir => dir.child fileName)

/-- The first path that satisfies a test which may have effects. -/
def firstM {m : Type → Type} [Monad m] (test : Path → m Bool) : List Path → m (Option Path)
  | [] => pure none
  | p :: rest => do if ← test p then pure (some p) else firstM test rest

/-- The nearest configuration from a directory on upwards. -/
def find? {m : Type → Type} [Monad m] (isFile : Path → m Bool) (start : Path) :
    m (Option Path) :=
  firstM isFile (candidates start)

end Typestate.Config
