import OriginGate.Proofs.Documents
import OriginGate.Rpc.Response

/-!
# Responses are read as they were written

* `ErrorCode.ofCode_code` : which codes are those that their numbers name;
* `Error.restored` : what is read where an error was written;
* `Outcome.ReadAs`, `Response.ReadAs` : how what is read depends on what was written;
  `Outcome.Plain`, `Response.Plain` : what is read as itself;
* `Response.sorted` : the fields of a response in the order in which they stand;
* `Response.restores_contents` : every response is read back in this way.

Nothing that is written tells a null from something absent, nor a server error from the error that
its number names.
-/

namespace OriginGate

/-- Where a value was written, an optional part is read from it, unless it is null. -/
theorem Record.optional?_written {α : Type} {read? : Document → Option α} {name : String}
    {r : Record} {j : Json} {a : α} (hget : r.get? name = some j.document)
    (hread : read? j.document = some a) :
    ∃ back, r.optional? name read? = some back ∧ (j ≠ .null → back = some a) := by
  by_cases hnull : j = .null
  · refine ⟨none, Record.optional?_eq_some.2 (.inl ⟨.inr ?_, rfl⟩), fun hne => absurd hnull hne⟩
    rw [hget, hnull]
    rfl
  · refine ⟨some a, Record.optional?_eq_some.2 (.inr ⟨_, a, hget, ?_, hread, rfl⟩), fun _ => rfl⟩
    cases j with
    | null => exact absurd rfl hnull
    | _ => simp [Json.document]

namespace Rpc

/-! ## Codes and errors -/

namespace ErrorCode

theorem ofDocument?_document (c : ErrorCode) :
    ofDocument? c.json.document = some (ofCode c.code) := by
  rw [ofDocument?, json, Json.document, Document.int64?_toInt, Option.map_some]

/-- Only a server error with the number of another code is not the code of its number. -/
theorem ofCode_code {c : ErrorCode} (h : ∀ n, c = serverError n → ofCode n = serverError n) :
    ofCode c.code = c := by
  cases c with
  | serverError n => exact h n rfl
  | _ => rfl

end ErrorCode

/-- The data of an error, if any, are canonical. -/
def Error.Canonical (e : Error) : Prop := ∀ data, e.data = some data → data.Canonical

theorem Error.restored {e : Error} (h : e.Canonical) :
    ∃ data, ofDocument? e.json.normalize.document = some ⟨.ofCode e.code.code, e.message, data⟩ ∧
      (e.data ≠ some .null → data = e.data) := by
  obtain ⟨code, message, _ | data⟩ := e
  · have hdocument : (json ⟨code, message, none⟩).normalize.document =
        .obj (Json.documentFields [("code", code.json), ("message", .str message)]) := by
      apply Json.document_record
      · simp [Ascending]; decide
      · simp [Json.normalize, ErrorCode.json]
      · simp
    have hfields : ∀ c : Document, ofDocument? (.obj [("code", c), ("message", .str message)]) =
        (ErrorCode.ofDocument? c).bind fun code => some ⟨code, message, none⟩ := fun _ => rfl
    refine ⟨none, ?_, fun _ => rfl⟩
    rw [hdocument]
    simp only [Json.documentFields, Json.document, hfields, code.ofDocument?_document]
    rfl
  · have hdocument : (json ⟨code, message, some data⟩).normalize.document =
        .obj (Json.documentFields
          [("code", code.json), ("data", data), ("message", .str message)]) := by
      apply Json.document_record
      · simp [Ascending]; decide
      · simp [Json.normalize, ErrorCode.json, Json.normalize_of_canonical _ (h data rfl)]
      · simp
    have hfields : ∀ c d : Document,
        ofDocument? (.obj [("code", c), ("data", d), ("message", .str message)]) =
          (ErrorCode.ofDocument? c).bind fun code =>
            (Record.optional? "data" Document.value? [("data", d)]).bind fun data =>
              some ⟨code, message, data⟩ := fun _ _ => rfl
    rw [hdocument]
    simp only [Json.documentFields, Json.document, hfields, code.ofDocument?_document]
    have hget : Record.get? "data" [("data", data.document)] = some data.document := rfl
    obtain ⟨back, hback, hkept⟩ :=
      Record.optional?_written hget (Json.value?_document (h data rfl))
    refine ⟨back, ?_, fun hne => hkept fun hnull => hne (congrArg some hnull)⟩
    rw [hback]
    rfl

/-! ## Outcomes -/

namespace Outcome

def Canonical : Outcome → Prop
  | success value => value.Canonical
  | failure error => error.Canonical

/-- What is read where an outcome was written: the same, but for the number of a code and for null
data. -/
structure ReadAs (o back : Outcome) : Prop where
  success : ∀ value, o = .success value → back = .success value
  failure : ∀ e, o = .failure e → ∃ data,
    back = .failure ⟨.ofCode e.code.code, e.message, data⟩ ∧ (e.data ≠ some .null → data = e.data)

/-- No null data, and no server error with the number of another code. -/
structure Plain (o : Outcome) : Prop where
  data : ∀ e, o = .failure e → e.data ≠ some .null
  code : ∀ e, o = .failure e → ∀ n, e.code = .serverError n → ErrorCode.ofCode n = .serverError n

theorem ReadAs.eq {o back : Outcome} (h : o.ReadAs back) (plain : o.Plain) : back = o := by
  cases o with
  | success value => exact h.success value rfl
  | failure e =>
    obtain ⟨data, hback, hdata⟩ := h.failure e rfl
    rw [hback, hdata (plain.data e rfl), ErrorCode.ofCode_code (plain.code e rfl)]

theorem readAs_success (value : Json) : (success value).ReadAs (success value) where
  success _ h := h
  failure _ h := nomatch h

theorem readAs_failure {e : Error} {data : Option Json}
    (h : e.data ≠ some .null → data = e.data) :
    (failure e).ReadAs (failure ⟨.ofCode e.code.code, e.message, data⟩) where
  success _ hvalue := nomatch hvalue
  failure f hf := by
    cases hf
    exact ⟨data, rfl, h⟩

end Outcome

/-! ## Responses -/

namespace Response

def Canonical (r : Response) : Prop := r.outcome.Canonical

/-- What is read where a response was written: the same, but for a null id and what is lost of an
error. -/
structure ReadAs (r back : Response) : Prop where
  version : back.version = r.version
  id : r.id ≠ some .null → back.id = r.id
  outcome : r.outcome.ReadAs back.outcome

/-- Nothing of the response is lost when it is read. -/
structure Plain (r : Response) : Prop where
  id : r.id ≠ some .null
  outcome : r.outcome.Plain

theorem ReadAs.eq {r back : Response} (h : r.ReadAs back) (plain : r.Plain) : back = r := by
  obtain ⟨version, id, outcome⟩ := back
  cases h.version
  cases h.id plain.id
  cases h.outcome.eq plain.outcome
  rfl

/-- The id among the fields that are written. -/
def idField (r : Response) : List (String × Json) :=
  match r.id with
  | some id => [("id", id.json)]
  | none => []

/-- The fields that are written, in the order of their names. -/
def sorted (r : Response) : List (String × Json) :=
  match r.outcome with
  | .success value => r.idField ++ [("jsonrpc", r.version.json), ("result", value)]
  | .failure e => ("error", e.json.normalize) :: r.idField ++ [("jsonrpc", r.version.json)]

theorem document_eq {r : Response} (h : r.Canonical) :
    r.json.normalize.document = .obj (Json.documentFields r.sorted) := by
  obtain ⟨version, _ | id, value | e⟩ := r
  all_goals apply Json.document_record
  case none.success.h | none.failure.h | some.success.h | some.failure.h =>
    simp [Ascending, sorted, idField]
    decide
  case none.success.length | none.failure.length | some.success.length | some.failure.length =>
    simp [sorted, idField]
  case none.success.subset | some.success.subset =>
    have hvalue := Json.normalize_of_canonical value h
    simp [Outcome.field, sorted, idField, Version.json, Json.normalize, Id.normalize_json, hvalue]
  case none.failure.subset | some.failure.subset =>
    simp [Outcome.field, sorted, idField, Version.json, Json.normalize, Id.normalize_json]

theorem ofDocument?_sorted (r : Response) :
    ofDocument? (.obj (Json.documentFields r.sorted)) = (do
      let id ← Record.optional? "id" Id.ofDocument? (Json.documentFields r.sorted)
      let outcome ← outcome? (Json.documentFields r.sorted)
      pure ⟨r.version, id, outcome⟩) := by
  have distinct : Document.Distinct (Json.documentFields r.sorted) := by
    apply Json.distinct_documentFields
    obtain ⟨version, _ | id, value | e⟩ := r <;> simp [sorted, idField]
  have named : ∀ f ∈ Json.documentFields r.sorted, f.1 ∈ shape.names := by
    rw [Json.documentFields_eq]
    obtain ⟨version, _ | id, value | e⟩ := r <;> simp [sorted, idField, shape]
  have hversion : Record.required? "jsonrpc" Version.ofDocument? (Json.documentFields r.sorted) =
      some r.version := by
    obtain ⟨⟨⟩, _ | id, value | e⟩ := r <;> rfl
  rw [ofDocument?, if_pos distinct.readable, Shape.readFields?_closed distinct.keys rfl,
    if_pos named]
  simp only [Option.bind_eq_bind, Option.bind_some, hversion]

theorem optional?_id (r : Response) :
    ∃ id, Record.optional? "id" Id.ofDocument? (Json.documentFields r.sorted) = some id ∧
      (r.id ≠ some .null → id = r.id) := by
  obtain ⟨version, _ | id, outcome⟩ := r
  · exact ⟨none, by cases outcome <;> rfl, fun _ => rfl⟩
  · have hget : Record.get? "id" (Json.documentFields (sorted ⟨version, some id, outcome⟩)) =
        some id.json.document := by
      cases outcome <;> rfl
    obtain ⟨back, hback, hkept⟩ := Record.optional?_written hget (Id.ofDocument?_iff.2 rfl)
    refine ⟨back, hback, fun hne => hkept fun hnull => hne ?_⟩
    cases id with
    | null => rfl
    | _ => cases hnull

theorem outcome?_sorted {r : Response} (h : r.Canonical) :
    ∃ outcome, outcome? (Json.documentFields r.sorted) = some outcome ∧
      r.outcome.ReadAs outcome := by
  obtain ⟨version, id, value | e⟩ := r
  · refine ⟨.success value, ?_, Outcome.readAs_success value⟩
    have hvalue := congrArg (Option.map Outcome.success) (Json.value?_document h)
    cases id <;> exact hvalue
  · obtain ⟨data, hread, hdata⟩ := Error.restored h
    refine ⟨_, ?_, Outcome.readAs_failure hdata⟩
    have herror := congrArg (Option.map Outcome.failure) hread
    cases id <;> exact herror

/-- A response is read as one with the same contents. -/
theorem restores_contents {r : Response} (h : r.Canonical) :
    ∃ back, ofDocument? r.json.normalize.document = some back ∧ r.ReadAs back ∧
      (r.Plain → back = r) := by
  obtain ⟨id, hid, hsame⟩ := r.optional?_id
  obtain ⟨outcome, houtcome, hreadAs⟩ := outcome?_sorted h
  have back : r.ReadAs ⟨r.version, id, outcome⟩ := ⟨rfl, hsame, hreadAs⟩
  refine ⟨_, ?_, back, back.eq⟩
  rw [document_eq h, ofDocument?_sorted, hid, houtcome]
  rfl

/-- A response with data, for a call with a text as its id. -/
def withData : Response :=
  create (.string "a")
    (.failure ⟨.serverError 7, "busy", some (.obj [("by", .int 2), ("of", .null)])⟩)

theorem restores_contents_withData :
    withData.Canonical ∧ withData.Plain ∧ withData.ReadAs withData ∧
      ofDocument? withData.json.normalize.document = some withData := by
  have canonical : withData.Canonical := by
    intro data hdata
    cases hdata
    exact ⟨by decide, trivial, trivial, trivial⟩
  have plain : withData.Plain := by
    refine ⟨by decide, ?_, ?_⟩
    · intro e he
      cases he
      simp
    · intro e he n hn
      cases he
      cases hn
      rfl
  obtain ⟨back, hread, hback, heq⟩ := restores_contents canonical
  rw [heq plain] at hread hback
  exact ⟨canonical, plain, hback, hread⟩

/-- A server error with the number of another code is read as that code, a null id as none and null
data as no data. -/
theorem not_every_response_restored :
    ofDocument? (create (.number 1)
          (.failure ⟨.serverError 4001, "no", none⟩)).json.normalize.document ≠
        some (create (.number 1) (.failure ⟨.serverError 4001, "no", none⟩)) ∧
      ofDocument? (create .null (.success (.int 1))).json.normalize.document ≠
        some (create .null (.success (.int 1))) ∧
      ofDocument? (create (.number 1)
          (.failure ⟨.internalError, "no", some .null⟩)).json.normalize.document ≠
        some (create (.number 1) (.failure ⟨.internalError, "no", some .null⟩)) := by
  have hcode : ofDocument? (create (.number 1)
      (.failure ⟨.serverError 4001, "no", none⟩)).json.normalize.document =
        some (create (.number 1) (.failure ⟨.userRejectedRequest, "no", none⟩)) := rfl
  have hid : ofDocument? (create .null (.success (.int 1))).json.normalize.document =
      some ⟨.v2, none, .success (.int 1)⟩ := rfl
  have hdata : ofDocument? (create (.number 1)
      (.failure ⟨.internalError, "no", some .null⟩)).json.normalize.document =
        some (create (.number 1) (.failure ⟨.internalError, "no", none⟩)) := rfl
  rw [hcode, hid, hdata]
  simp [create]

end Response

end Rpc

end OriginGate
