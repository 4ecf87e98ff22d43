import TableTree.Settings.Fields
import TableTree.Toml.Document
/-!
# Settings from documents

Results:

* `Settings.ofDocument`: the settings that a document gives, checked.
* `Settings.ofFile`: the settings that a file holds, or why there are none.
-/

namespace TableTree

/-- What a value of a document gives to a setting. -/
def SettingValue.ofToml : Toml.Value → SettingValue
  | .text s => .text s
  | .integer n => .integer n.toInt
  | .real x => .real x
  | .flag b => .flag b
  | .moment _ | .array _ | .table _ _ | .rows _ _ => .other

namespace Settings

/-- The settings of a document, with defaults for those it does not give. -/
def ofDocument (s : String) : Except Misuse Settings := do
  let given : Option Settings := do
    let fields ← Toml.Fields.ofDocument? s
    ofFields? (fields.map fun (name, value) => (name, .ofToml value))
  match given with
  | none => throw .malformed
  | some settings =>
    settings.check
    pure settings

/-- The settings in a file, given its bytes or why it cannot be read. -/
def ofFile (name : String) (content : Except FileFault ByteArray) : Except Misuse Settings :=
  match content with
  | .error fault => .error (.unreadable name fault)
  | .ok bytes =>
    match String.fromUTF8? bytes with
    | none => .error (.unreadable name .notText)
    | some s => ofDocument s

end Settings

end TableTree
