import WorkPlan.Log.Event
import WorkPlan.Settings.Basic
import WorkPlan.Toml.Reader

/-!
# Loading settings

Settings are kept in a file.  The strict loader gives every failure back; the lenient one logs it and
goes on with the defaults.  A missing file is not worth a warning.
-/

namespace WorkPlan

/-- Why a file has no text. -/
inductive FileFault
  | missing
  | directory
  | notText
  /-- Any other reason, in the words of the system. -/
  | other (message : String)
deriving DecidableEq, Repr

/-- How the system names a fault. -/
def FileFault.message : FileFault → String
  | .missing => "No such file or directory (os error 2)"
  | .directory => "Is a directory (os error 21)"
  | .notText => "stream did not contain valid UTF-8"
  | .other message => message

/-- The text of a file, or why there is none. -/
abbrev FileText := Except FileFault String

/-- The text of a file with the given bytes. -/
def FileText.ofBytes (bytes : List UInt8) : FileText :=
  match String.fromUTF8? ⟨bytes.toArray⟩ with
  | some text => .ok text
  | none => .error .notText

inductive LoadError
  | file (fault : FileFault)
  | malformed (reason : String)
deriving DecidableEq, Repr

def LoadError.message : LoadError → String
  | .file fault => "I/O error: " ++ fault.message
  | .malformed reason => "parse error: " ++ reason

namespace Settings

/-- The settings that a text writes down. -/
def ofToml? (text : String) : Option Settings := Toml.readTree? text >>= decode? .toml

/-- The settings of a file, read by a decoder that says what is wrong with a text. -/
def loadStrict (decode : String → Except String Settings) (file : FileText) :
    Except LoadError Settings :=
  match file with
  | .error fault => .error (.file fault)
  | .ok text =>
    match decode text with
    | .ok settings => .ok settings
    | .error reason => .error (.malformed reason)

/-- The settings of the file at a path, or the defaults, and what is logged. -/
def load (decode : String → Except String Settings) (path : String) (file : FileText) :
    Settings × List Log.Event :=
  match file with
  | .error .missing => ({}, [.settingsMissing path])
  | .error fault => ({}, [.settingsUnreadable path fault.message])
  | .ok text =>
    match decode text with
    | .ok settings => (settings, [])
    | .error reason => ({}, [.settingsMalformed path reason])

end Settings

end WorkPlan
