import OriginGate.Proofs.Refusals

/-!
# Keys in calls that are forwarded

* `Caveat.Within` : an object all of whose fields are among the allowed ones, with equal values;
* `Caveat.onParams_requireSubset` : what a restriction of keys lets through;
* `Json.objects` : the objects in parameters where a wallet finds keys; `Json.laterObjects` : those
  behind the first parameter;
* `System.forwarded_keys` : which of them a restriction of keys holds of when a call is forwarded.

Of a list of parameters only the first is looked at. It has to be an object, and its keys are
bounded; whatever follows it passes unchecked.
-/

namespace OriginGate

/-! ## Objects among parameters -/

namespace Json

/-- The objects in parameters where keys are found: the parameters themselves, or those among them
that are given by position. -/
def objects : Json → List (List (String × Json))
  | obj fields => [fields]
  | arr items => items.filterMap asObject?
  | _ => []

/-- The objects behind the first parameter. -/
def laterObjects : Json → List (List (String × Json))
  | arr items => items.tail.filterMap asObject?
  | _ => []

end Json

namespace Caveat

variable {params out : Json} {allowed fields : List (String × Json)}

/-- Every field of an object is among the allowed ones, with an equal value. -/
def Within (allowed fields : List (String × Json)) : Prop :=
  ∀ f ∈ fields, ∃ value, Json.lookup? f.1 allowed = some value ∧ (value == f.2) = true

theorem not_offends_iff {field : String × Json} :
    ¬ Offends allowed field ↔
      ∃ value, Json.lookup? field.1 allowed = some value ∧ (value == field.2) = true := by
  simp [Offends]

theorem Keyed.unique {others : List (String × Json)} (h : Keyed params fields)
    (h' : Keyed params others) : fields = others := by
  cases h with
  | object => cases h'; rfl
  | first => cases h'; rfl

theorem Keyed.objects_eq (h : Keyed params fields) :
    params.objects = fields :: params.laterObjects := by
  cases h with
  | object => rfl
  | first => rfl

theorem Keyed.ofJson_eq (h : Keyed params fields) : (Rpc.Params.ofJson params).json = params := by
  cases h with
  | object => rfl
  | first => rfl

theorem onParams_requireSubset :
    (requireSubset allowed).onParams params = .ok out ↔
      out = params ∧ ∃ fields, Keyed params fields ∧ Within allowed fields := by
  rw [onParams_eq_ok_iff, and_comm]
  refine and_congr_right fun _ => ⟨fun h => ?_, ?_⟩
  · by_cases hkeyed : ∃ fields, Keyed params fields
    · obtain ⟨fields, hkeyed⟩ := hkeyed
      refine ⟨fields, hkeyed, fun f hf => not_offends_iff.1 fun offends => ?_⟩
      exact h (.param hkeyed hf offends)
    · exact absurd (.notAnObject (not_exists.1 hkeyed)) h
  · rintro ⟨fields, hkeyed, hwithin⟩ (_ | h | ⟨keyed, mem, offends⟩)
    · exact h fields hkeyed
    · cases keyed.unique hkeyed
      exact not_offends_iff.2 (hwithin _ mem) offends

end Caveat

/-! ## What is forwarded -/

namespace System

variable {s : System} {o : Origin} {method : String} {params : Json} {p : Permission}
  {c : Rpc.MethodCall}

/-- A restriction of keys after which nothing is forced: a call is forwarded with the parameters
that the caveats leave, and these have fields that are all allowed. The restriction holds of every
object among them if and only if it holds of those behind the first parameter. -/
theorem forwarded_keys (h : s.Forwards o method params p c) {allowed : List (String × Json)}
    (final : Caveats.Final (.requireSubset allowed) p.caveats) :
    c.params.json = Caveats.effective params p.caveats ∧
    (∃ fields, Caveat.Keyed c.params.json fields ∧ Caveat.Within allowed fields) ∧
    ((∀ fields ∈ c.params.json.objects, Caveat.Within allowed fields) ↔
      ∀ fields ∈ c.params.json.laterObjects, Caveat.Within allowed fields) := by
  obtain ⟨out, hout, rfl⟩ := h.onParams
  obtain ⟨between, hchecked⟩ := Caveats.onParams_final hout final
  obtain ⟨rfl, fields, hkeyed, hwithin⟩ := Caveat.onParams_requireSubset.1 hchecked
  have hsent : (Rpc.MethodCall.create .null method (.ofJson out)).params.json = out :=
    hkeyed.ofJson_eq
  rw [hsent]
  refine ⟨Caveats.effective_of_onParams hout, ⟨fields, hkeyed, hwithin⟩, ?_⟩
  rw [hkeyed.objects_eq, List.forall_mem_cons, and_iff_right hwithin]

/-- A system in which a site may sign for one chain. -/
def bounded (o : Origin) (chain : String) : System :=
  ⟨⟨Settings.signing.registry, true,
    State.empty.setPermissions o
      [⟨⟨0⟩, "eth_sign", o, [.requireSubset [("chainId", .str chain)]], 0⟩], .empty⟩, .initial []⟩

/-- A permission for one chain forwards a second object with another. -/
theorem forwarded_keys_second :
    ∃ (p : Permission) (c : Rpc.MethodCall),
      (bounded ⟨"site"⟩ "0x1").Forwards ⟨"site"⟩ "eth_sign"
        (.arr [.obj [("chainId", .str "0x1")], .obj [("chainId", .str "0x5")]]) p c ∧
      p.caveats = [.requireSubset [("chainId", .str "0x1")]] ∧
      ¬ ∀ fields ∈ c.params.json.objects,
        Caveat.Within [("chainId", .str "0x1")] fields := by
  have hforwards : (bounded ⟨"site"⟩ "0x1").Forwards ⟨"site"⟩ "eth_sign"
      (.arr [.obj [("chainId", .str "0x1")], .obj [("chainId", .str "0x5")]])
      ⟨⟨0⟩, "eth_sign", ⟨"site"⟩, [.requireSubset [("chainId", .str "0x1")]], 0⟩
      (.create .null "eth_sign" (.ofJson
        (.arr [.obj [("chainId", .str "0x1")], .obj [("chainId", .str "0x5")]]))) :=
    ⟨by decide, by decide, rfl, _, .executed, rfl⟩
  refine ⟨_, _, hforwards, rfl, fun hall => ?_⟩
  obtain ⟨-, -, hiff⟩ := forwarded_keys hforwards ⟨[], [], rfl, fun _ => List.not_mem_nil⟩
  have hsecond := hiff.1 hall [("chainId", .str "0x5")] List.mem_cons_self
  obtain ⟨value, hvalue, heq⟩ := hsecond _ List.mem_cons_self
  cases hvalue
  exact absurd heq (by decide)

end System

end OriginGate
