import OriginGate.Approvals.Announcements
import OriginGate.Approvals.Pending
import OriginGate.Settings
import OriginGate.Store.Basic
import OriginGate.Supply
import OriginGate.Wallet

/-!
# The gate and the world around it

* `Gate` : what a gate holds: its registry, the state it shows and the requests that await a
  decision;
* `World` : what it works with: backend, wallet, announcements, tickets, usage log and supply;
* `System` : a gate in its world; `System.create` : a new one on the backend of a world;
* `System.update` : a change of the store; `System.accounts` : the accounts an origin may see;
* `Progress` : whether an operation is done or waits.

Operations are functions on a system. One that has to wait gives what it waits with, and is taken
up again by a function on that.
-/

namespace OriginGate

/-- What a gate holds. -/
structure Gate where
  registry : Registry
  /-- Whether the wallet has to know the accounts that are approved. -/
  validateAccounts : Bool
  /-- The visible state. -/
  state : State
  pending : Pending

/-- The reports of page usage. -/
structure UsageLog where
  /-- Whether anybody wants to know. -/
  enabled : Bool
  events : List (Origin × UsageEvent)

/-- What a gate works with. Gates that follow each other share it. -/
structure World where
  backend : Backend
  wallet : Wallet
  announcements : Announcements
  tickets : Tickets
  usage : UsageLog
  supply : Supply

/-- A gate in its world. -/
structure System where
  gate : Gate
  world : World

/-- The state of an operation: done, or waiting with what it needs to go on. -/
inductive Progress (σ α : Type) where
  | done (a : α)
  | waiting (s : σ)

namespace Progress

variable {σ τ α β : Type}

def map (f : α → β) : Progress σ α → Progress σ β
  | done a => done (f a)
  | waiting s => waiting s

/-- Renames what an operation waits with. -/
def mapWaiting (f : σ → τ) : Progress σ α → Progress τ α
  | done a => done a
  | waiting s => waiting (f s)

def done? : Progress σ α → Option α
  | done a => some a
  | waiting _ => none

end Progress

namespace UsageLog

def record (o : Origin) (e : UsageEvent) (u : UsageLog) : UsageLog :=
  if u.enabled then { u with events := u.events ++ [(o, e)] } else u

end UsageLog

namespace Gate

/-- The accounts that an origin may see: those of the caveat of its permission for them. -/
def accounts (o : Origin) (g : Gate) : List Account :=
  match (g.state.permission? o accountsMethod).bind (·.caveat? .accounts) with
  | some (.accounts allowed) => allowed
  | _ => []

/-- A set of methods has to be non-empty, and all of them restricted. -/
def validate (requested : RequestedPermissions) (g : Gate) : Except PermissionError Unit :=
  if requested.isEmpty then .error (.invalidParams "must request at least one permission")
  else
    match requested.keys.find? (!g.registry.isRestricted ·) with
    | some method => .error (.unknownPermission method)
    | none => .ok ()

end Gate

namespace System

/-- A new gate on the backend of a world. -/
def create (settings : Settings) (w : World) : Except PermissionError System :=
  match Store.load w.backend with
  | .ok store =>
    .ok ⟨⟨settings.registry, settings.validateAccounts, store.state, .empty⟩, w⟩
  | .error e => .error (.store e)

/-! ## Store -/

/-- The visible state with the backend that keeps it. -/
def store (s : System) : Store := ⟨s.gate.state, s.world.backend⟩

/-- The system with another store. -/
def withStore (store : Store) (s : System) : System :=
  ⟨{ s.gate with state := store.state }, { s.world with backend := store.backend }⟩

/-- Carries out a change of the store. -/
def update {α : Type} (change : Store → Store × Except StoreError α) (s : System) :
    System × Except StoreError α :=
  let (store, result) := change s.store
  (s.withStore store, result)

/-- The accounts that an origin may see. -/
def accounts (o : Origin) (s : System) : List Account := s.gate.accounts o

/-! ## Operations that never wait -/

/-- Takes the permissions of an origin for some methods and returns them. -/
def revoke (o : Origin) (methods : List String) (s : System) :
    System × Except PermissionError (List Permission) :=
  let (s, result) := s.update (·.revoke o methods)
  (s, result.mapError .store)

/-- Takes every permission of every origin. -/
def clear (s : System) : System × Except PermissionError Unit :=
  let (s, result) := s.update (·.clear)
  (s, result.mapError .store)

/-- Records what a site reports about itself, if it gives a name. -/
def recordMetadata (o : Origin) (report : Option SiteReport) (extensionId : Option String)
    (s : System) : System × Except PermissionError Unit :=
  match (report.bind (·.name)).filter (· ≠ "") with
  | none => (s, .ok ())
  | some name =>
    let (s, result) := s.update (·.setMetadata o ⟨name, extensionId⟩)
    (s, result.mapError .store)

def logUsage (o : Origin) (e : UsageEvent) (s : System) : System :=
  { s with world := { s.world with usage := s.world.usage.record o e } }

end System

end OriginGate
