import OriginGate.Permission.Error

/-!
# Restricted methods

* `Executor` : who answers an authorized call; `RestrictedMethod` : a method with its description;
* `Registry` : the restricted methods by name; `Registry.builtin` holds `eth_accounts`;
* `Registry.authorize` : whether an origin may call a method, and with which parameters.
-/

namespace OriginGate

/-- The method that tells the accounts. It is always restricted. -/
def accountsMethod : String := "eth_accounts"

/-- Who answers an authorized call. -/
inductive Executor where
  /-- The gate, with the permitted accounts that the wallet knows. -/
  | accounts
  /-- The wallet, with the parameters that the caveats let through. -/
  | provider
deriving DecidableEq

/-- A method that needs a permission. -/
structure RestrictedMethod where
  description : String
  executor : Executor
deriving DecidableEq

/-- The restricted methods, by name. -/
structure Registry where
  methods : SortedMap String RestrictedMethod

/-- What an authorized call may do. -/
structure Authorized where
  /-- The permission that allows it; none if the method is not restricted. -/
  permission : Option Permission
  /-- The parameters after all caveats. -/
  params : Json

namespace Registry

/-- The registry of the methods that are always restricted. -/
def builtin : Registry :=
  ⟨SortedMap.empty.insert accountsMethod
    ⟨"View the addresses of the user's chosen accounts.", .accounts⟩⟩

/-- Registers a method, in place of one with its name. -/
def register (name : String) (m : RestrictedMethod) (r : Registry) : Registry :=
  ⟨r.methods.insert name m⟩

/-- Registers a method that the wallet answers. -/
def registerProvider (name description : String) (r : Registry) : Registry :=
  r.register name ⟨description, .provider⟩

def isRestricted (method : String) (r : Registry) : Bool := r.methods.contains method

/-- Who answers calls of a method. -/
def executor (method : String) (r : Registry) : Executor :=
  match r.methods.find? method with
  | some m => m.executor
  | none => .provider

/--
A call to a method that is not restricted passes as it is. Any other needs a permission of the
origin, and its caveats decide on the parameters.
-/
def authorize (state : State) (origin : Origin) (method : String) (params : Json)
    (r : Registry) : Except PermissionError Authorized :=
  if r.isRestricted method then
    match state.permission? origin method with
    | none => .error (.unauthorized origin method)
    | some permission =>
      match Caveats.onParams params permission.caveats with
      | .ok params => .ok ⟨some permission, params⟩
      | .error (caveat, reason) => .error (.caveatRejected origin method caveat reason)
  else .ok ⟨none, params⟩

end Registry

end OriginGate
