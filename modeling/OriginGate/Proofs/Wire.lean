import OriginGate.Proofs.Calls

/-!
# Requests are read as they were written

* `Json.value?_document` : the document of a canonical value stands for it;
* `Params.Canonical`, `Call.Canonical`, `Request.Canonical` : the values among the parameters are
  canonical;
* `MethodCall.document_eq`, `Notification.document_eq`, `Call.document_invalid` : what each kind of
  call is written as;
* `Call.decodes_document` : a call is read as what it was; `Call.ofDocument?_arr` : no list of objects
  is read as the positional form of one call;
* `Request.reads_back` : a request is read as what it was.
-/

namespace OriginGate

/-! ## Documents of values -/

namespace Json

theorem tree?_document (j : Json) : j.document.tree? = some j := by
  rw [← documentWithin_of_depth j (Nat.le_refl j.depth), tree?_documentWithin, if_pos (Nat.le_refl _)]

theorem readable_document (j : Json) : j.document.readable := by
  rw [Document.readable, tree?_document]
  rfl

theorem value?_document {j : Json} (h : j.Canonical) : j.document.value? = some j := by
  rw [Document.value?, tree?_document, Option.map_some, normalize_of_canonical j h]

theorem normalize_str (s : String) : (str s).normalize = str s := rfl

theorem documentFields_eq (fields : List (String × Json)) :
    documentFields fields = fields.map fun f => (f.1, f.2.document) := by
  induction fields with
  | nil => rfl
  | cons f rest ih =>
    obtain ⟨k, x⟩ := f
    rw [documentFields, ih, List.map_cons]

theorem normalizeItems_eq (items : List Json) : normalizeItems items = items.map normalize := by
  induction items with
  | nil => rfl
  | cons x rest ih => rw [normalizeItems, ih, List.map_cons]

theorem documentItems_eq (items : List Json) : documentItems items = items.map document := by
  induction items with
  | nil => rfl
  | cons x rest ih => rw [documentItems, ih, List.map_cons]

theorem distinct_documentFields {fields : List (String × Json)} (h : (fields.map (·.1)).Nodup) :
    Document.Distinct (documentFields fields) where
  readable := readable_document (.obj fields)
  keys := by
    rw [documentFields_eq, List.map_map]
    exact h

end Json

namespace Rpc

/-! ## Canonical parameters -/

/-- The values among the parameters are canonical. -/
def Params.Canonical (p : Params) : Prop := p.json.Canonical

def Call.Canonical : Call → Prop
  | method c => c.params.Canonical
  | notification n => n.params.Canonical
  | invalid _ => True

def Request.Canonical : Request → Prop
  | single call => call.Canonical
  | batch calls => ∀ call ∈ calls, call.Canonical

theorem Params.ofDocument?_document {p : Params} (h : p.Canonical) :
    ofDocument? p.json.document = some p := by
  rw [ofDocument?, Json.value?_document h]
  cases p <;> rfl

/-- Parameters are read where they were written, also if there are none. -/
theorem Params.orDefault?_document {r : Record} {p : Params} (h : p.Canonical)
    (hget : r.get? "params" = some p.json.document) :
    r.orDefault? "params" .none ofDocument? = some p :=
  Record.orDefault?_eq_some.2 (.inr ⟨_, hget, ofDocument?_document h⟩)

/-! ## What calls are written as -/

theorem Id.normalize_json (i : Id) : i.json.normalize = i.json := by cases i <;> rfl

theorem compare_method : compare "method" "jsonrpc" = .gt := rfl

theorem compare_params : compare "params" "jsonrpc" = .gt := rfl

theorem compare_params_method : compare "params" "method" = .gt := rfl

theorem MethodCall.document_eq {c : MethodCall} (h : c.params.Canonical) :
    c.json.normalize.document =
      .obj (Json.documentFields [("id", c.id.json), ("jsonrpc", c.version.json),
        ("method", .str c.method), ("params", c.params.json)]) := by
  have hid : compare "id" "jsonrpc" = .lt := rfl
  have hsorted : (SortedMap.ofList [("jsonrpc", c.version.json), ("method", Json.str c.method),
      ("params", c.params.json), ("id", c.id.json)]).entries =
      [("id", c.id.json), ("jsonrpc", c.version.json), ("method", .str c.method),
        ("params", c.params.json)] := by
    simp only [SortedMap.ofList, List.foldl, SortedMap.insert, SortedMap.empty,
      SortedMap.insertEntry, compare_method, compare_params, compare_params_method, hid]
  have hversion : c.version.json.normalize = c.version.json := rfl
  rw [json, Json.normalize]
  simp only [Json.normalizeFields, Id.normalize_json, Json.normalize_of_canonical _ h, hversion,
    Json.normalize_str]
  rw [hsorted, Json.document]

theorem Notification.document_eq {n : Notification} (h : n.params.Canonical) :
    n.json.normalize.document =
      .obj (Json.documentFields [("jsonrpc", Json.ofOption (n.version.map Version.json)),
        ("method", .str n.method), ("params", n.params.json)]) := by
  have hsorted : (SortedMap.ofList [("jsonrpc", Json.ofOption (n.version.map Version.json)),
      ("method", Json.str n.method), ("params", n.params.json)]).entries =
      [("jsonrpc", Json.ofOption (n.version.map Version.json)), ("method", .str n.method),
        ("params", n.params.json)] := by
    simp only [SortedMap.ofList, List.foldl, SortedMap.insert, SortedMap.empty,
      SortedMap.insertEntry, compare_method, compare_params, compare_params_method]
  have hversion : (Json.ofOption (n.version.map Version.json)).normalize =
      Json.ofOption (n.version.map Version.json) := by
    cases n.version <;> rfl
  rw [json, Json.normalize]
  simp only [Json.normalizeFields, Json.normalize_of_canonical _ h, hversion,
    Json.normalize_str]
  rw [hsorted, Json.document]

theorem Call.document_invalid (i : Id) :
    (Call.invalid i).json.normalize.document = .obj (Json.documentFields [("id", i.json)]) := by
  rw [json, Json.normalize, Json.normalizeFields, Json.normalizeFields, Id.normalize_json]
  rfl

/-! ## One call -/

namespace Call

theorem decodes_method {c : MethodCall} (h : c.params.Canonical) :
    ofDocument? c.json.normalize.document = some (.method c) := by
  rw [MethodCall.document_eq h]
  have distinct : Document.Distinct (Json.documentFields [("id", c.id.json),
      ("jsonrpc", c.version.json), ("method", .str c.method), ("params", c.params.json)]) :=
    Json.distinct_documentFields (by simp)
  refine (ofDocument?_method distinct).2 ((MethodCall.ofDocument?_iff distinct).2 ?_)
  refine ⟨?_, ⟨c.version.json.document, rfl, rfl⟩, rfl, ?_, rfl⟩
  · simp [Json.documentFields, MethodCall.shape]
  · exact Params.orDefault?_document h rfl

/-- Without an id it is no method call. -/
theorem decodes_notification {n : Notification} (h : n.params.Canonical) :
    ofDocument? n.json.normalize.document = some (.notification n) := by
  rw [Notification.document_eq h]
  have distinct : Document.Distinct (Json.documentFields
      [("jsonrpc", Json.ofOption (n.version.map Version.json)), ("method", .str n.method),
        ("params", n.params.json)]) :=
    Json.distinct_documentFields (by simp)
  refine (ofDocument?_notification distinct).2 ((Notification.ofDocument?_iff distinct).2 ?_)
  refine ⟨?_, ?_, rfl, Params.orDefault?_document h rfl⟩
  · simp [Json.documentFields, Notification.shape]
  · rcases n.version with _ | v
    · rfl
    · rfl

/-- Without a method it is no other call. -/
theorem decodes_invalid (i : Id) :
    ofDocument? (Call.invalid i).json.normalize.document = some (.invalid i) := by
  rw [document_invalid]
  have distinct : Document.Distinct (Json.documentFields [("id", i.json)]) :=
    Json.distinct_documentFields (by simp)
  have noMethod : Record.get? "method" (Json.documentFields [("id", i.json)]) = none := rfl
  refine (ofDocument?_invalid distinct).2 ⟨?_, ?_, (invalidId?_iff distinct).2 rfl⟩
  · refine Option.eq_none_iff_forall_ne_some.2 fun c hc => ?_
    cases noMethod.symm.trans ((MethodCall.ofDocument?_iff distinct).1 hc).2.2.1
  · refine Option.eq_none_iff_forall_ne_some.2 fun n hn => ?_
    cases noMethod.symm.trans ((Notification.ofDocument?_iff distinct).1 hn).2.2.1

theorem decodes_document {call : Call} (h : call.Canonical) :
    ofDocument? call.json.normalize.document = some call := by
  cases call with
  | method c => exact decodes_method h
  | notification n => exact decodes_notification h
  | invalid i => exact decodes_invalid i

/-- An object is no version unless the version is its only key, and that of a call is not. -/
theorem version_document {call : Call} (h : call.Canonical) :
    Version.ofDocument? call.json.normalize.document = none := by
  have hmany : ∀ (f g : String × Document) (rest : List (String × Document)),
      Version.ofDocument? (.obj (f :: g :: rest)) = none := by
    intro f g rest
    simp [Version.ofDocument?, Document.name?]
  cases call with
  | method c =>
    rw [json, MethodCall.document_eq h]
    exact hmany _ _ _
  | notification n =>
    rw [json, Notification.document_eq h]
    exact hmany _ _ _
  | invalid i =>
    rw [document_invalid]
    cases i <;> rfl

theorem document_ne_null {call : Call} (h : call.Canonical) :
    call.json.normalize.document ≠ .null := by
  cases call with
  | method c => rw [json, MethodCall.document_eq h]; nofun
  | notification n => rw [json, Notification.document_eq h]; nofun
  | invalid i => rw [document_invalid]; nofun

/-- A list is the positional form of a call only if it begins with a version, or with null. -/
theorem ofDocument?_arr {items : List Document}
    (h : ∀ d ∈ items, d ≠ .null ∧ Version.ofDocument? d = none) :
    ofDocument? (.arr items) = none := by
  have hmethod : MethodCall.ofDocument? (.arr items) = none := by
    rw [MethodCall.ofDocument?, Shape.read?]
    split
    · rename_i hlength
      obtain ⟨d, rest, rfl⟩ := List.exists_cons_of_length_pos (Nat.lt_of_lt_of_le (by decide) hlength.1)
      have hnone := (h d List.mem_cons_self).2
      have hversion : Record.required? "jsonrpc" Version.ofDocument?
          (MethodCall.shape.names.zip (d :: rest)) = none := hnone
      simp [hversion]
    · rfl
  have hnotification : Notification.ofDocument? (.arr items) = none := by
    rw [Notification.ofDocument?, Shape.read?]
    split
    · rename_i hlength
      obtain ⟨d, rest, rfl⟩ := List.exists_cons_of_length_pos (Nat.lt_of_lt_of_le (by decide) hlength.1)
      obtain ⟨hnull, hnone⟩ := h d List.mem_cons_self
      have hversion : Record.optional? "jsonrpc" Version.ofDocument?
          (Notification.shape.names.zip (d :: rest)) = none := by
        refine Option.eq_none_iff_forall_ne_some.2 fun v hv => ?_
        rcases Record.optional?_eq_some.1 hv with ⟨hget | hget, -⟩ | ⟨e, v, hget, -, hread, -⟩
        · cases hget
        · exact hnull (Option.some.inj hget)
        · cases hget
          cases hnone.symm.trans hread
      simp [hversion]
    · rfl
  unfold ofDocument?
  rw [hmethod, hnotification]
  split <;> rfl

end Call

/-! ## Requests -/

namespace Request

theorem decodes_batch {calls : List Call} (h : ∀ call ∈ calls, call.Canonical) :
    ofDocument? (batch calls).json.normalize.document = some (batch calls) := by
  have hitems : (batch calls).json.normalize.document =
      .arr (calls.map fun call => call.json.normalize.document) := by
    rw [json, Json.normalize, Json.normalizeItems_eq, Json.document, Json.documentItems_eq,
      List.map_map, List.map_map]
    rfl
  have hsingle : Call.ofDocument? (.arr (calls.map fun call => call.json.normalize.document)) =
      none := by
    refine Call.ofDocument?_arr fun d hd => ?_
    obtain ⟨call, hcall, rfl⟩ := List.mem_map.1 hd
    exact ⟨Call.document_ne_null (h call hcall), Call.version_document (h call hcall)⟩
  have hcalls : (calls.map fun call => call.json.normalize.document).mapM Call.ofDocument? =
      some calls := mapM_restored fun call hcall => Call.decodes_document (h call hcall)
  rw [ofDocument?, if_pos (Json.readable_document _), hitems, hsingle]
  simp only [Document.list?, hcalls, Option.map_some]

/-- What a request writes is read as the same request. -/
theorem reads_back {r : Request} (h : r.Canonical) :
    ofDocument? r.json.normalize.document = some r := by
  cases r with
  | single call =>
    rw [ofDocument?, if_pos (Json.readable_document _)]
    rw [json, Call.decodes_document h]
  | batch calls => exact decodes_batch h

/-- A batch of all kinds of calls: a method call with a null id, notifications with and without a
version, and an invalid call. -/
def mixed : Request :=
  .batch [.method ⟨.v2, "eth_sign", .object [("data", .str "0x"), ("for", .null)], .null⟩,
    .notification ⟨some .v2, "eth_chainId", .array [.int 1]⟩,
    .notification ⟨none, "eth_chainId", .none⟩, .invalid (.number 7)]

theorem reads_back_mixed :
    mixed.Canonical ∧ ofDocument? mixed.json.normalize.document = some mixed := by
  have canonical : mixed.Canonical := by
    intro call hcall
    simp only [List.mem_cons, List.not_mem_nil, or_false] at hcall
    rcases hcall with rfl | rfl | rfl | rfl
    · exact ⟨by decide, trivial, trivial, trivial⟩
    · exact ⟨trivial, trivial⟩
    · trivial
    · trivial
  exact ⟨canonical, reads_back canonical⟩

end Request

end Rpc

end OriginGate
