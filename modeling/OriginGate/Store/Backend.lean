import OriginGate.Store.State
import OriginGate.Json.Reader
import OriginGate.Json.Printer

/-!
# Where the state is kept

* `StoreError` : why the state could not be read or written;
* `MemoryBackend` : keeps the state itself and counts the writes; it may refuse them;
* `FileBackend` : keeps the text of the state in a file; a write first stages the text beside the
  file and then puts it in its place;
* `Backend` : either of them, with `load` and `persist`; `setReadOnly` and `modifyFile` are what
  happens to it from outside.
-/

namespace OriginGate

/-- Why the state could not be read or written. -/
inductive StoreError where
  /-- The file system refused, for the given reason. -/
  | io (reason : String)
  /-- The text does not write a state, for the given reason. -/
  | malformed (reason : String)
  | readOnly

def StoreError.message : StoreError → String
  | io reason => "failed to access permissions state: " ++ reason
  | malformed reason => "failed to (de)serialize permissions state: " ++ reason
  | readOnly => "permissions state is read-only"

/-- A backend in memory. -/
structure MemoryBackend where
  persisted : Option State
  /-- The number of successful writes. -/
  writes : Nat
  /-- Whether writes are refused. -/
  readOnly : Bool

namespace MemoryBackend

/-- A backend that holds nothing yet. -/
def empty : MemoryBackend := ⟨none, 0, false⟩

def persist (next : State) (b : MemoryBackend) : MemoryBackend × Except StoreError Unit :=
  if b.readOnly then (b, .error .readOnly)
  else ({ b with persisted := some next, writes := b.writes + 1 }, .ok ())

end MemoryBackend

/-- What stands under the path of the file. -/
inductive FileEntry where
  | missing
  | text (content : String)
  | directory

/-- A backend in a file. -/
structure FileBackend where
  entry : FileEntry
  /-- Whether a staged text was left beside the file. -/
  staged : Bool

namespace FileBackend

/-- A backend whose file does not exist yet. -/
def empty : FileBackend := ⟨.missing, false⟩

/-- The text of a state in its file. -/
def format (s : State) : String := s.json.pretty

/-- The state that a text writes. -/
def parse (text : String) : Except StoreError State :=
  match (Document.read? State.outline text).bind State.ofDocument? with
  | some s => .ok s
  | none => .error (.malformed "not a permissions state")

def load (b : FileBackend) : Except StoreError (Option State) :=
  match b.entry with
  | .missing => .ok none
  | .text content => (parse content).map some
  | .directory => .error (.io "is a directory")

/-- A directory in the place of the file stops the last step, after the text was staged. -/
def persist (next : State) (b : FileBackend) : FileBackend × Except StoreError Unit :=
  match b.entry with
  | .directory => ({ b with staged := true }, .error (.io "is a directory"))
  | _ => (⟨.text (format next), false⟩, .ok ())

/-- The text of the file, if it can be read. -/
def content? (b : FileBackend) : Option String :=
  match b.entry with
  | .text content => some content
  | _ => none

/-- Puts a text into the file, unless a directory is in its place. -/
def write (content : String) (b : FileBackend) : FileBackend :=
  match b.entry with
  | .directory => b
  | _ => { b with entry := .text content }

/-- Removes what stands under the path of the file. -/
def remove (b : FileBackend) : FileBackend := { b with entry := .missing }

/-- Puts an empty directory in the place of the file. -/
def block (b : FileBackend) : FileBackend := { b with entry := .directory }

end FileBackend

/-- A place where the state is kept. -/
inductive Backend where
  | memory (b : MemoryBackend)
  | file (b : FileBackend)

namespace Backend

/-- The state that was persisted last, none if there was none. -/
def load : Backend → Except StoreError (Option State)
  | memory b => .ok b.persisted
  | file b => b.load

/-- Puts a state in the place of the persisted one. -/
def persist (next : State) : Backend → Backend × Except StoreError Unit
  | memory b => let (b, r) := b.persist next; (memory b, r)
  | file b => let (b, r) := b.persist next; (file b, r)

/-- Refuses writes in memory from now on, or no longer. -/
def setReadOnly (readOnly : Bool) : Backend → Backend
  | memory b => memory { b with readOnly }
  | file b => file b

/-- Changes the file, if the state is kept in one. -/
def modifyFile (change : FileBackend → FileBackend) : Backend → Backend
  | memory b => memory b
  | file b => file (change b)

end Backend

end OriginGate
