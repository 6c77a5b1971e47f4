import OriginGate.Store.Backend

/-!
# The store

* `Store` : the visible state and the backend that keeps it;
* `Store.load` : the store of what a backend holds;
* `Store.put` : makes a state visible after it was persisted; a state equal to the visible one is
  not written, and a failed write leaves the visible state;
* `Store.grant`, `revoke`, `setPermissions`, `clear`, `setMetadata`.
-/

namespace OriginGate

/-- The visible state, and the backend that keeps it. -/
structure Store where
  state : State
  backend : Backend

namespace Store

/-- The store of what a backend holds, the empty state if it holds nothing. -/
def load (backend : Backend) : Except StoreError Store :=
  match backend.load with
  | .ok persisted => .ok ⟨persisted.getD .empty, backend⟩
  | .error e => .error e

/-- Persists a state and makes it visible. -/
def put (next : State) (s : Store) : Store × Except StoreError Unit :=
  if next == s.state then (s, .ok ())
  else
    match s.backend.persist next with
    | (backend, .ok ()) => (⟨next, backend⟩, .ok ())
    | (backend, .error e) => ({ s with backend := backend }, .error e)

def setPermissions (o : Origin) (ps : List Permission) (s : Store) :
    Store × Except StoreError Unit :=
  s.put (s.state.setPermissions o ps)

def grant (o : Origin) (ps : List Permission) (s : Store) : Store × Except StoreError Unit :=
  s.put (s.state.grant o ps)

/-- Takes the permissions for some methods and returns them. -/
def revoke (o : Origin) (methods : List String) (s : Store) :
    Store × Except StoreError (List Permission) :=
  let (t, written) := s.put (s.state.revoke o methods)
  (t, written.map fun _ => s.state.revoked o methods)

def clear (s : Store) : Store × Except StoreError Unit := s.put s.state.clear

def setMetadata (o : Origin) (m : SiteMetadata) (s : Store) : Store × Except StoreError Unit :=
  s.put (s.state.setMetadata o m)

end Store

end OriginGate
