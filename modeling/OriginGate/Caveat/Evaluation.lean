import OriginGate.Caveat.Basic

/-!
# What caveats do to a call

* `Caveat.Refusal` : why a caveat refuses the parameters of a call;
* `Caveat.onParams` : the parameters that a caveat lets through; `Caveat.onResult` : what it leaves
  of a result;
* `Caveats.onParams`, `Caveats.onResult` : a list of caveats in order; the first refusal ends it.
-/

namespace OriginGate

/-- Why parameters are refused. -/
inductive Caveat.Refusal where
  | account (account : Account)
  | param (key : String)
  | notAnObject
deriving DecidableEq

/-- The text of a refusal. -/
def Caveat.Refusal.message : Caveat.Refusal → String
  | account a => "account " ++ a.checksummed ++ " is not permitted"
  | param key => "param `" ++ key ++ "` is not permitted"
  | notAnObject => "expected params to be an object"

namespace Caveat

/-! ## Parameters -/

/-- The account that one positional parameter names: itself, or by the field `from`. -/
def namedAccount? : Json → Option Account
  | .obj fields => (Json.lookup? "from" fields).bind Account.prefixed?
  | j => Account.prefixed? j

/-- The accounts that parameters name, in order. Parameters by name refer to none. -/
def namedAccounts : Json → List Account
  | .arr items => items.filterMap namedAccount?
  | _ => []

/-- The fields that are checked one by one: of an object, or of the first parameter. -/
def checkedFields? : Json → Option (List (String × Json))
  | .obj fields => some fields
  | .arr (.obj fields :: _) => some fields
  | _ => none

/-- Whether a field is among the allowed ones with the same value. -/
def allows (allowed : List (String × Json)) (field : String × Json) : Bool :=
  match Json.lookup? field.1 allowed with
  | some value => value.same field.2
  | none => false

/-- The lesser of two strings, by code points. -/
local instance : Min String := .leftLeaningOfLE String

/-- The least key of the fields that are not allowed. -/
def offendingKey? (allowed fields : List (String × Json)) : Option String :=
  ((fields.filter (!allows allowed ·)).map (·.1)).min?

/-- The parameters with which the call goes on, or why it does not. -/
def onParams (params : Json) : Caveat → Except Refusal Json
  | accounts allowed =>
    match (namedAccounts params).find? (· ∉ allowed) with
    | some account => .error (.account account)
    | none => .ok params
  | forceParams forced => .ok forced
  | requireSubset allowed =>
    match checkedFields? params with
    | none => .error .notAnObject
    | some fields =>
      match offendingKey? allowed fields with
      | some key => .error (.param key)
      | none => .ok params
  | limitLength _ => .ok params

/-! ## Results -/

/-- Whether a value is an account among the allowed ones. -/
def isAllowed (allowed : List Account) (j : Json) : Bool :=
  match Account.prefixed? j with
  | some account => account ∈ allowed
  | none => false

/-- What the caveat leaves of a list; a list that holds anything but accounts is left alone. -/
def onItems (items : List Json) : Caveat → List Json
  | accounts allowed =>
    if items.all (fun j => (Account.prefixed? j).isSome) then items.filter (isAllowed allowed)
    else items
  | limitLength limit => items.take limit.toNat
  | _ => items

/-- What the caveat leaves of a result. Only lists are touched. -/
def onResult (result : Json) (c : Caveat) : Json :=
  match result with
  | .arr items => .arr (c.onItems items)
  | j => j

end Caveat

namespace Caveats

/-- The parameters after all caveats, or the kind of the first that refuses and its reason. -/
def onParams (params : Json) : List Caveat → Except (Caveat.Kind × Caveat.Refusal) Json
  | [] => .ok params
  | c :: cs =>
    match c.onParams params with
    | .ok params => onParams params cs
    | .error refusal => .error (c.kind, refusal)

/-- The result after all caveats. -/
def onResult (result : Json) (cs : List Caveat) : Json :=
  cs.foldl (fun result c => c.onResult result) result

end Caveats

end OriginGate
