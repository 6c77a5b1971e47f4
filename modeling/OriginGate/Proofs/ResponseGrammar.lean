import OriginGate.Proofs.Responses

/-!
# Which values are responses

* `Json.present?` : a value that is not null;
* `Record.required?_written`, `Record.optional?_written_iff` : when a field is read where the fields
  of a value were written;
* `Version.Written`, `Error.Reads` : the values that are read as the version, and those that are
  read as an error, by name or by position;
* `Response.Accepted` : the objects that are responses; `Response.Carries` : what is read from them;
* `Response.ofDocument?_iff` : which object is read as which response; `Response.accepted_iff` : a
  value is read if and only if it is such an object, and what it gives.

A response and the outcome in it have their fields in one object. Exactly one of `result` and
`error` has to stand there: of two the second would be a key that no response has.
-/

namespace OriginGate

/-! ## Fields of values -/

namespace Json

/-- A value that is not null. -/
def present? : Json → Option Json
  | null => none
  | j => some j

theorem present?_eq_some {j k : Json} : j.present? = some k ↔ j ≠ .null ∧ j = k := by
  cases j <;> simp [present?]

theorem document_inj {j k : Json} (h : j.document = k.document) : j = k := by
  have htree := congrArg Document.tree? h
  rw [tree?_document, tree?_document] at htree
  exact Option.some.inj htree

theorem document_eq_null {j : Json} : j.document = .null ↔ j = .null := by
  cases j <;> simp [document]

variable {fields : List (String × Json)}

theorem get?_documentFields (name : String) (fields : List (String × Json)) :
    Record.get? name (documentFields fields) = (lookup? name fields).map document := by
  rw [documentFields_eq, Record.get?, lookup?, List.find?_map, Option.map_map, Option.map_map]
  rfl

theorem canonical_lookup? (h : (obj fields).Canonical) {name : String} {j : Json}
    (hj : lookup? name fields = some j) : j.Canonical := by
  obtain ⟨f, hf, rfl⟩ := Option.map_eq_some_iff.1 hj
  exact canonicalFields_iff.1 h.2 f (List.mem_of_find?_eq_some hf)

theorem forall_documentFields {names : List String} :
    (∀ f ∈ documentFields fields, f.1 ∈ names) ↔ ∀ f ∈ fields, f.1 ∈ names := by
  rw [documentFields_eq, List.forall_mem_map]

theorem distinct_of_canonical (h : (obj fields).Canonical) :
    Document.Distinct (documentFields fields) :=
  distinct_documentFields (SortedMap.keys_nodup ⟨fields, h.1⟩)

end Json

namespace Record

variable {α : Type} {name : String} {read? : Document → Option α} {toJson : α → Json}
  {fields : List (String × Json)} {a : α} {b : Option α}

theorem required?_written :
    required? name read? (Json.documentFields fields) = some a ↔
      ∃ j, Json.lookup? name fields = some j ∧ read? j.document = some a := by
  rw [required?_eq_some, Json.get?_documentFields]
  cases Json.lookup? name fields <;> simp

/-- If a thing is read from what it writes and from nothing else, an optional field gives the thing
that writes its value, unless that is null. -/
theorem optional?_written_iff
    (h : ∀ j, Json.lookup? name fields = some j → ∀ a, read? j.document = some a ↔ j = toJson a) :
    optional? name read? (Json.documentFields fields) = some b ↔
      (Json.lookup? name fields).bind Json.present? = b.map toJson := by
  rw [optional?_eq_some, Json.get?_documentFields]
  rcases hj : Json.lookup? name fields with _ | j
  · cases b <;> simp
  · specialize h j hj
    by_cases hnull : j = .null
    · subst hnull
      cases b <;> simp [Json.document, Json.present?]
    · have hpresent : j.present? = some j := Json.present?_eq_some.2 ⟨hnull, rfl⟩
      have hdocument : j.document ≠ .null := mt Json.document_eq_null.1 hnull
      cases b <;> simp [hpresent, hdocument, h]

end Record

namespace Rpc

open Json (lookup? present?)

/-! ## Versions and errors -/

/-- The values that stand for the version: its text, or an object with the text as its only key and
null in it. -/
def Version.Written (j : Json) : Prop := j = .str "2.0" ∨ j = .obj [("2.0", .null)]

theorem Version.ofDocument?_document {j : Json} {v : Version} :
    ofDocument? j.document = some v ↔ Version.Written j := by
  have hread : ofDocument? j.document = some v ↔ j.document.name? = some "2.0" := by
    cases v
    unfold ofDocument?
    split <;> simp_all
  have hname : j.document.name? = some "2.0" ↔
      j.document = (Json.str "2.0").document ∨
        j.document = (Json.obj [("2.0", .null)]).document := by
    unfold Document.name?
    split <;> simp_all [Json.document, Json.documentFields]
  rw [hread, hname]
  exact or_congr ⟨Json.document_inj, congrArg _⟩ ⟨Json.document_inj, congrArg _⟩

namespace ErrorCode

/-- A code is read from the integers of 64 bits. -/
theorem ofDocument?_eq_some {j : Json} {c : ErrorCode} :
    ofDocument? j.document = some c ↔ ∃ n : Int64, j = .int n.toInt ∧ c = ofCode n := by
  constructor
  · intro h
    obtain ⟨n, hn, rfl⟩ := Option.map_eq_some_iff.1 h
    refine ⟨n, ?_, rfl⟩
    have hid : Id.ofDocument? j.document = some (.number n) := by
      cases j with
      | int k => exact Option.map_eq_some_iff.2 ⟨n, hn, rfl⟩
      | _ => cases hn
    exact Json.document_inj (Id.ofDocument?_iff.1 hid)
  · rintro ⟨n, rfl, rfl⟩
    rw [ofDocument?, Json.document, Document.int64?_toInt, Option.map_some]

end ErrorCode

namespace Error

/-- The fields that make up an error. -/
structure Holds (fields : List (String × Json)) (e : Error) : Prop where
  code : ∃ n : Int64, lookup? "code" fields = some (.int n.toInt) ∧ e.code = .ofCode n
  message : lookup? "message" fields = some (.str e.message)
  /-- Null data are none. -/
  data : (lookup? "data" fields).bind present? = e.data

/-- A value is an error: an object with the fields of one and no others, or the list of the
three. -/
inductive Reads : Json → Error → Prop where
  | named {fields : List (String × Json)} {e : Error}
    (keys : ∀ f ∈ fields, f.1 ∈ ["code", "message", "data"]) (holds : Holds fields e) :
    Reads (.obj fields) e
  | listed {code message data : Json} {e : Error}
    (holds : Holds [("code", code), ("message", message), ("data", data)] e) :
    Reads (.arr [code, message, data]) e

/-- The error of a record. -/
def ofRecord? (r : Record) : Option Error := do
  let code ← r.required? "code" ErrorCode.ofDocument?
  let message ← r.required? "message" Document.text?
  let data ← r.optional? "data" Document.value?
  pure ⟨code, message, data⟩

theorem ofDocument?_eq (d : Document) : ofDocument? d = (shape.read? d).bind ofRecord? := rfl

variable {fields : List (String × Json)} {e : Error} {j : Json}

theorem ofRecord?_iff (canonical : ∀ data, lookup? "data" fields = some data → data.Canonical) :
    ofRecord? (Json.documentFields fields) = some e ↔ Holds fields e := by
  have hdata : ∀ data, Record.optional? "data" Document.value? (Json.documentFields fields) =
      some data ↔ (lookup? "data" fields).bind present? = data := by
    intro data
    have hread : ∀ k, lookup? "data" fields = some k →
        ∀ x, Document.value? k.document = some x ↔ k = id x := by
      intro k hk x
      rw [Json.value?_document (canonical k hk), Option.some.injEq, id]
    rw [Record.optional?_written_iff hread, Option.map_id_fun, id]
  obtain ⟨code, message, data⟩ := e
  simp only [ofRecord?, Option.bind_eq_bind, Option.bind_eq_some_iff, Option.pure_def,
    Option.some.injEq, Error.mk.injEq, Record.required?_written, hdata, text?_eq_some,
    ErrorCode.ofDocument?_eq_some]
  constructor
  · rintro ⟨_, ⟨_, hcode, n, rfl, rfl⟩, _, ⟨k, hmessage, hk⟩, _, hpresent, rfl, rfl, rfl⟩
    cases Json.document_inj (k := .str _) hk
    exact ⟨⟨n, hcode, rfl⟩, hmessage, hpresent⟩
  · rintro ⟨⟨n, hcode, rfl⟩, hmessage, hpresent⟩
    exact ⟨_, ⟨_, hcode, n, rfl, rfl⟩, _, ⟨_, hmessage, rfl⟩, _, hpresent, rfl, rfl, rfl⟩

theorem read?_obj (h : (Json.obj fields).Canonical) :
    shape.read? (Json.obj fields).document =
      if ∀ f ∈ fields, f.1 ∈ shape.names then some (Json.documentFields fields) else none := by
  have closed : shape.closed = true := rfl
  have hclosed := Shape.readFields?_closed (Json.distinct_of_canonical h).keys closed
  simp only [Json.forall_documentFields] at hclosed
  exact hclosed

/-- A canonical value is read as an error if and only if it is one. -/
theorem ofDocument?_document_iff (h : j.Canonical) :
    ofDocument? j.document = some e ↔ Reads j e := by
  rw [ofDocument?_eq]
  cases j with
  | obj fields =>
    have hrecord := ofRecord?_iff (e := e) fun _ => Json.canonical_lookup? h
    rw [read?_obj h]
    constructor
    · intro hread
      split at hread
      · rename_i hkeys
        exact .named hkeys (hrecord.1 hread)
      · cases hread
    · rintro ⟨keys, holds⟩
      rw [if_pos (show ∀ f ∈ fields, f.1 ∈ shape.names from keys)]
      exact hrecord.2 holds
  | arr items =>
    have hrecord : ∀ {code message data : Json}, items = [code, message, data] →
        (ofRecord? (Json.documentFields [("code", code), ("message", message), ("data", data)]) =
          some e ↔ Holds [("code", code), ("message", message), ("data", data)] e) := by
      rintro code message data rfl
      apply ofRecord?_iff
      rintro _ ⟨⟩
      exact h.2.2.1
    constructor
    · intro hread
      obtain ⟨r, hshape, hread⟩ := Option.bind_eq_some_iff.1 hread
      rw [Json.document, Shape.read?] at hshape
      split at hshape
      · rename_i hlength
        obtain ⟨code, message, data, rfl⟩ : ∃ code message data, items = [code, message, data] := by
          rw [Json.documentItems_eq, List.length_map] at hlength
          exact List.length_eq_three.1 (Nat.le_antisymm hlength.2 hlength.1)
        cases hshape
        exact .listed ((hrecord rfl).1 hread)
      · cases hshape
    · rintro (_ | holds)
      exact (hrecord rfl).2 holds
  | _ => exact iff_of_false (fun hread => by cases hread) (fun hreads => by cases hreads)

end Error

/-! ## Responses -/

/-- The outcome among the fields of a response. -/
inductive Outcome.Reads (fields : List (String × Json)) : Outcome → Prop where
  | success {value : Json} (result : lookup? "result" fields = some value)
    (noError : lookup? "error" fields = none) : Reads fields (.success value)
  | failure {j : Json} {e : Error} (noResult : lookup? "result" fields = none)
    (error : lookup? "error" fields = some j) (reads : Error.Reads j e) : Reads fields (.failure e)

namespace Response

/-- The fields of a response. -/
structure Reads (fields : List (String × Json)) (r : Response) : Prop where
  keys : ∀ f ∈ fields, f.1 ∈ ["jsonrpc", "id", "result", "error"]
  version : ∃ j, lookup? "jsonrpc" fields = some j ∧ Version.Written j
  /-- A null id is none. -/
  id : (lookup? "id" fields).bind present? = r.id.map Id.json
  outcome : Outcome.Reads fields r.outcome

/-- What stands in an object that is a response. -/
structure Accepted (fields : List (String × Json)) : Prop where
  /-- No other keys stand there. -/
  keys : ∀ f ∈ fields, f.1 ∈ ["jsonrpc", "id", "result", "error"]
  version : ∃ j, lookup? "jsonrpc" fields = some j ∧ Version.Written j
  /-- An id that is there is null, a string or an integer of 64 bits. -/
  id : ∀ j, lookup? "id" fields = some j → j.document.IsId
  /-- Either a result stands there or an error. -/
  outcome : (∃ j, lookup? "result" fields = some j) ↔ lookup? "error" fields = none
  error : ∀ j, lookup? "error" fields = some j → ∃ e, Error.Reads j e

/-- What the response to an object carries. -/
structure Carries (fields : List (String × Json)) (r : Response) : Prop where
  /-- It is a success if a result stands there, be it null. -/
  success : r.outcome.isSuccess = true ↔ ∃ j, lookup? "result" fields = some j
  value : ∀ j, lookup? "result" fields = some j → r.outcome = .success j
  error : ∀ j, lookup? "error" fields = some j → ∃ e, r.outcome = .failure e ∧ Error.Reads j e
  /-- It has an id if one stands there that is not null. -/
  hasId : r.id.isSome = true ↔ ∃ j, lookup? "id" fields = some j ∧ j ≠ .null
  id : ∀ j, lookup? "id" fields = some j → j ≠ .null → ∃ i, r.id = some i ∧ j = i.json

variable {fields : List (String × Json)} {r : Response} {j : Json}

theorem outcome?_iff (h : (Json.obj fields).Canonical) {o : Outcome} :
    outcome? (Json.documentFields fields) = some o ↔ Outcome.Reads fields o := by
  rw [outcome?, Json.get?_documentFields, Json.get?_documentFields]
  rcases hresult : lookup? "result" fields with _ | value <;>
    rcases herror : lookup? "error" fields with _ | j
  · refine ⟨nofun, ?_⟩
    rintro (⟨result, -⟩ | ⟨-, error, -⟩)
    · cases hresult.symm.trans result
    · cases herror.symm.trans error
  · have hread : ∀ e, Error.ofDocument? j.document = some e ↔ Error.Reads j e :=
      fun e => Error.ofDocument?_document_iff (Json.canonical_lookup? h herror)
    simp only [Option.map_some, Option.map_none, Option.map_eq_some_iff, hread]
    constructor
    · rintro ⟨e, reads, rfl⟩
      exact .failure hresult herror reads
    · rintro (⟨result, -⟩ | ⟨-, error, reads⟩)
      · cases hresult.symm.trans result
      · cases herror.symm.trans error
        exact ⟨_, reads, rfl⟩
  · have hvalue := Json.value?_document (Json.canonical_lookup? h hresult)
    simp only [Option.map_some, Option.map_none, hvalue, Option.some.injEq]
    constructor
    · rintro rfl
      exact .success hresult herror
    · rintro (⟨result, -⟩ | ⟨noResult, -⟩)
      · cases hresult.symm.trans result
        rfl
      · cases hresult.symm.trans noResult
  · refine ⟨nofun, ?_⟩
    rintro (⟨-, noError⟩ | ⟨noResult, -⟩)
    · cases herror.symm.trans noError
    · cases hresult.symm.trans noResult

/-- An object is read as a response if and only if it has the fields of that response. -/
theorem ofDocument?_iff (h : (Json.obj fields).Canonical) :
    ofDocument? (Json.obj fields).document = some r ↔ Reads fields r := by
  have distinct := Json.distinct_of_canonical h
  have hid : ∀ id, Record.optional? "id" Id.ofDocument? (Json.documentFields fields) = some id ↔
      (lookup? "id" fields).bind present? = id.map Id.json := by
    intro id
    apply Record.optional?_written_iff
    intro j _ i
    rw [Id.ofDocument?_iff]
    exact ⟨Json.document_inj, congrArg _⟩
  rw [Json.document, ofDocument?, if_pos distinct.readable,
    Shape.readFields?_closed distinct.keys rfl]
  simp only [Json.forall_documentFields]
  obtain ⟨⟨⟩, id, outcome⟩ := r
  by_cases hkeys : ∀ f ∈ fields, f.1 ∈ shape.names
  · rw [if_pos hkeys, Option.bind_eq_bind, Option.bind_some]
    constructor
    · intro hread
      obtain ⟨version, hversion, hread⟩ := Option.bind_eq_some_iff.1 hread
      obtain ⟨back, hback, hread⟩ := Option.bind_eq_some_iff.1 hread
      obtain ⟨found, hfound, hread⟩ := Option.bind_eq_some_iff.1 hread
      cases hread
      obtain ⟨j, hj, hversion⟩ := Record.required?_written.1 hversion
      exact ⟨hkeys, ⟨j, hj, Version.ofDocument?_document.1 hversion⟩, (hid _).1 hback,
        (outcome?_iff h).1 hfound⟩
    · rintro ⟨-, ⟨j, hj, hwritten⟩, hback, hfound⟩
      have hversion := Record.required?_written.2
        ⟨j, hj, Version.ofDocument?_document (v := .v2).2 hwritten⟩
      simp [hversion, (hid _).2 hback, (outcome?_iff h).2 hfound]
  · rw [if_neg hkeys]
    exact iff_of_false (fun hread => by cases hread) fun hreads => hkeys hreads.keys

/-! ## What is accepted, and what it gives -/

theorem exists_id_iff :
    (∃ id : Option Id, (lookup? "id" fields).bind present? = id.map Id.json) ↔
      ∀ j, lookup? "id" fields = some j → j.document.IsId := by
  rcases lookup? "id" fields with _ | j
  · exact ⟨nofun, fun _ => ⟨none, rfl⟩⟩
  · rw [Option.bind_some]
    by_cases hnull : j = .null
    · subst hnull
      refine ⟨?_, fun _ => ⟨none, rfl⟩⟩
      rintro - _ ⟨⟩
      trivial
    · rw [Json.present?_eq_some.2 ⟨hnull, rfl⟩]
      constructor
      · rintro ⟨_ | i, hi⟩ _ ⟨⟩
        · cases hi
        · exact isId_iff.2 ⟨i, congrArg _ (Option.some.inj hi)⟩
      · intro hproper
        obtain ⟨i, hi⟩ := isId_iff.1 (hproper j rfl)
        exact ⟨some i, congrArg some (Json.document_inj hi)⟩

theorem accepted_of_reads (h : Reads fields r) : Accepted fields where
  keys := h.keys
  version := h.version
  id := exists_id_iff.1 ⟨r.id, h.id⟩
  outcome := by
    obtain ⟨version, id, outcome⟩ := r
    rcases h.outcome with ⟨result, noError⟩ | ⟨noResult, error, reads⟩
    · simp [result, noError]
    · simp [noResult, error]
  error j hj := by
    obtain ⟨version, id, outcome⟩ := r
    rcases h.outcome with ⟨result, noError⟩ | ⟨noResult, error, reads⟩
    · cases hj.symm.trans noError
    · cases hj.symm.trans error
      exact ⟨_, reads⟩

theorem exists_reads (h : Accepted fields) : ∃ r, Reads fields r := by
  obtain ⟨id, hid⟩ := exists_id_iff.2 h.id
  rcases herror : lookup? "error" fields with _ | j
  · obtain ⟨value, result⟩ := h.outcome.2 herror
    exact ⟨⟨.v2, id, .success value⟩, h.keys, h.version, hid, .success result herror⟩
  · obtain ⟨e, reads⟩ := h.error j herror
    have noResult : lookup? "result" fields = none := by
      refine Option.eq_none_iff_forall_ne_some.2 fun value hvalue => ?_
      cases herror.symm.trans (h.outcome.1 ⟨value, hvalue⟩)
    exact ⟨⟨.v2, id, .failure e⟩, h.keys, h.version, hid, .failure noResult herror reads⟩

theorem carries_of_reads (h : Reads fields r) : Carries fields r := by
  obtain ⟨version, id, outcome⟩ := r
  have hid : ∀ {i : Json}, lookup? "id" fields = some i → i ≠ .null →
      ∃ k, id = some k ∧ i = k.json := by
    intro i hi hne
    have hpresent := h.id
    rw [hi, Option.bind_some, Json.present?_eq_some.2 ⟨hne, rfl⟩] at hpresent
    obtain ⟨k, hk, rfl⟩ := Option.map_eq_some_iff.1 hpresent.symm
    exact ⟨k, hk, rfl⟩
  have hasId : id.isSome = true ↔ ∃ i, lookup? "id" fields = some i ∧ i ≠ .null := by
    constructor
    · intro hsome
      obtain ⟨k, rfl⟩ := Option.isSome_iff_exists.1 hsome
      obtain ⟨i, hi, hpresent⟩ := Option.bind_eq_some_iff.1 h.id
      exact ⟨i, hi, (Json.present?_eq_some.1 hpresent).1⟩
    · rintro ⟨i, hi, hne⟩
      obtain ⟨k, rfl, -⟩ := hid hi hne
      rfl
  refine ⟨?success, ?value, ?error, hasId, fun i hi hne => hid hi hne⟩
  all_goals rcases h.outcome with ⟨result, noError⟩ | ⟨noResult, error, reads⟩
  case success.success => simp [Outcome.isSuccess, result]
  case success.failure => simp [Outcome.isSuccess, noResult]
  case value.success => simp [result]
  case value.failure => simp [noResult]
  case error.success => simp [noError]
  case error.failure =>
    intro k hk
    cases hk.symm.trans error
    exact ⟨_, rfl, reads⟩

/-- A value is read as a response if and only if it is an object that is one, and the response
carries what stands there. -/
theorem accepted_iff (h : j.Canonical) :
    ((∃ r, ofDocument? j.document = some r) ↔ ∃ fields, j = .obj fields ∧ Accepted fields) ∧
      ∀ fields r, j = .obj fields → ofDocument? j.document = some r → Carries fields r := by
  constructor
  · constructor
    · rintro ⟨r, hr⟩
      cases j with
      | obj fields => exact ⟨fields, rfl, accepted_of_reads ((ofDocument?_iff h).1 hr)⟩
      | _ => cases hr
    · rintro ⟨fields, rfl, haccepted⟩
      obtain ⟨r, hreads⟩ := exists_reads haccepted
      exact ⟨r, (ofDocument?_iff h).2 hreads⟩
  · rintro fields r rfl hr
    exact carries_of_reads ((ofDocument?_iff h).1 hr)

/-- The fields of a response with a null id, the version as an object and the error as a list. -/
def refusal : List (String × Json) :=
  [("error", .arr [.int 4001, .str "no", .null]), ("id", .null),
    ("jsonrpc", .obj [("2.0", .null)])]

/-- The fields of a response with a null result, and an error beside it. -/
def undecided : List (String × Json) :=
  [("error", .arr [.int 4001, .str "no", .null]), ("jsonrpc", .str "2.0"), ("result", .null)]

theorem accepted_iff_refusal :
    (Json.obj refusal).Canonical ∧ (Json.obj undecided).Canonical ∧ Accepted refusal ∧
      (∃ r, ofDocument? (Json.obj refusal).document = some r ∧ Carries refusal r ∧ r.id = none) ∧
      ¬ ∃ r, ofDocument? (Json.obj undecided).document = some r := by
  have hrefusal : (Json.obj refusal).Canonical := ⟨by decide,
    ⟨trivial, trivial, trivial, trivial⟩, trivial, ⟨by decide, trivial, trivial⟩, trivial⟩
  have hundecided : (Json.obj undecided).Canonical := ⟨by decide,
    ⟨trivial, trivial, trivial, trivial⟩, trivial, trivial, trivial⟩
  have hread : ofDocument? (Json.obj refusal).document =
      some ⟨.v2, none, .failure ⟨.userRejectedRequest, "no", none⟩⟩ := rfl
  obtain ⟨haccepts, hcarries⟩ := accepted_iff hrefusal
  obtain ⟨fields, heq, haccepted⟩ := haccepts.1 ⟨_, hread⟩
  cases heq
  refine ⟨hrefusal, hundecided, haccepted, ⟨_, hread, hcarries _ _ rfl hread, rfl⟩, fun h => ?_⟩
  obtain ⟨fields, heq, haccepted⟩ := (accepted_iff hundecided).1.1 h
  cases heq
  cases haccepted.outcome.1 ⟨_, rfl⟩

end Response

end Rpc

end OriginGate
