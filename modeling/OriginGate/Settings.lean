import OriginGate.Registry
import OriginGate.Toml.Reader

/-!
# Settings

* `Settings` : where the state is kept, which methods are restricted beside the built-in ones, and
  whether approved accounts are checked;
* `Settings.registry` : the registry that they ask for;
* `Settings.json`, `Settings.ofDocument?`;
* `Settings.ofToml`, `Settings.load` : the settings of a text, or of the file under a path.
-/

namespace OriginGate

/-- The settings of a gate. -/
structure Settings where
  /-- The file of the state; without one the state is kept in memory. -/
  statePath : Option String
  /-- Restricted methods that the wallet answers, with their descriptions. -/
  restrictedMethods : SortedMap String String
  /-- Whether the wallet has to know the accounts that are approved. -/
  validateAccounts : Bool

namespace Settings

def default : Settings := ⟨none, .empty, true⟩

def withStatePath (path : String) (s : Settings) : Settings := { s with statePath := some path }

def withRestrictedMethod (name description : String) (s : Settings) : Settings :=
  { s with restrictedMethods := s.restrictedMethods.insert name description }

def withValidateAccounts (validate : Bool) (s : Settings) : Settings :=
  { s with validateAccounts := validate }

/-- The built-in restricted methods and the configured ones. -/
def registry (s : Settings) : Registry :=
  s.restrictedMethods.entries.foldl (fun r e => r.registerProvider e.1 e.2) .builtin

def json (s : Settings) : Json :=
  .obj [("state_path", Json.ofOption (s.statePath.map .str)),
    ("restricted_methods", .obj (s.restrictedMethods.entries.map fun e => (e.1, .str e.2))),
    ("validate_accounts", .bool s.validateAccounts)]

def shape : Shape := ⟨["state_path", "restricted_methods", "validate_accounts"], 0, false⟩

def ofDocument? (d : Document) : Option Settings := do
  let r ← shape.read? d
  let statePath ← r.optional? "state_path" Document.text?
  let restrictedMethods ←
    r.orDefault? "restricted_methods" .empty (Document.table? Document.text?)
  let validateAccounts ← r.orDefault? "validate_accounts" true Document.bool?
  pure ⟨statePath, restrictedMethods, validateAccounts⟩

/-- Why settings cannot be had. -/
inductive LoadError where
  /-- There is no file to read under the path. -/
  | unreadable (path : String)
  | malformed
deriving DecidableEq

/-- What is said of a file that cannot be read. -/
def LoadError.message : LoadError → String
  | unreadable path => "failed to read config " ++ path
  | malformed => "malformed config"

/-- The settings that a TOML text writes. -/
def ofToml (text : String) : Except LoadError Settings :=
  match (Toml.read? text).bind ofDocument? with
  | some s => .ok s
  | none => .error .malformed

/-- The settings in the file under a path, given its content if there is one. -/
def load (path : String) : (content : Option String) → Except LoadError Settings
  | some text => ofToml text
  | none => .error (.unreadable path)

end Settings

end OriginGate
