import BranchForm.Settings
import BranchForm.Yaml.Node

/-!
# Settings files

Settings may be kept in a file, as a YAML document.

* `CompileSettings.ofYaml` reads settings from the text of a file;
* `CompileSettings.ofMissing` reports a file that is missing with its path in the form that
  `plainPath` gives it.
-/

namespace BranchForm

/-- A path without empty components and without those that stay in a directory; two slashes at its
begin are kept, more are one. -/
def plainPath (path : String) : String :=
  let cs := path.toList
  let slashes := (cs.takeWhile (· == '/')).length
  let root := if slashes = 0 then "" else if slashes = 2 then "//" else "/"
  let components := (cs.splitOn '/').map String.ofList
  let body := "/".intercalate (components.filter fun c => c != "" && c != ".")
  if root = "" ∧ body = "" then "." else root ++ body

namespace CompileSettings

/-- Reads settings from the text of a file. -/
def ofYaml (text : String) : Except Error CompileSettings := do
  match ← (Yaml.readDocument text).mapError .fault with
  | none => decode .null
  | some node =>
    let v ← node.value.mapError .fault
    decode v

/-- Reads the settings of a file that is missing: a path must be a text. -/
def ofMissing (path : Value) : Except Error CompileSettings :=
  match path with
  | .text path => .error (.settingsFileMissing (plainPath path))
  | _ => Value.fail .wrongKind

end CompileSettings

end BranchForm
