import OriginGate.Proofs.Decoding
import OriginGate.Rpc.Request

/-!
# What an object is read as

* `Record.required?_eq_some`, `optional?_eq_some`, `orDefault?_eq_some` : when a field is read;
* `Shape.readFields?_closed`, `readFields?_open` : the fields of an object with distinct keys;
* `Document.Distinct` : such an object, all of whose parts stand for values;
* `MethodCall.ofDocument?_iff`, `Notification.ofDocument?_iff`, `Call.invalidId?_iff` : when an object
  is read as each kind of call, and as which;
* `Call.Classified` : which kind of call an object is; `Call.classified` : this holds of every object.

The three kinds overlap, because every object with a proper id is read as an invalid call when
nothing else fits, so each clause says what excludes the ones before it.
-/

namespace OriginGate

/-! ## Fields of records -/

namespace Record

variable {r : Record} {name : String} {α : Type} {read? : Document → Option α} {a default : α}

theorem required?_eq_some :
    r.required? name read? = some a ↔ ∃ d, r.get? name = some d ∧ read? d = some a := by
  unfold required?
  cases r.get? name <;> simp

theorem orDefault?_eq_some :
    r.orDefault? name default read? = some a ↔
      (r.get? name = none ∧ a = default) ∨ ∃ d, r.get? name = some d ∧ read? d = some a := by
  unfold orDefault?
  cases r.get? name <;> simp [eq_comm]

theorem optional?_eq_some {b : Option α} :
    r.optional? name read? = some b ↔
      ((r.get? name = none ∨ r.get? name = some .null) ∧ b = none) ∨
        ∃ d a, r.get? name = some d ∧ d ≠ .null ∧ read? d = some a ∧ b = some a := by
  unfold optional?
  rcases r.get? name with _ | d
  · simp [eq_comm]
  · cases d <;> simp [eq_comm]

theorem get?_eq_none : r.get? name = none ↔ ∀ f ∈ r, f.1 ≠ name := by
  simp [get?, List.find?_eq_none]

theorem get?_filter {names : List String} (h : name ∈ names) :
    get? name (r.filter (·.1 ∈ names)) = r.get? name := by
  have hsame : ∀ f : String × Document,
      decide (decide (f.1 ∈ names) = true ∧ decide (f.1 = name) = true) = decide (f.1 = name) := by
    intro f
    by_cases hf : f.1 = name <;> simp [hf, h]
  simp only [get?, List.find?_filter, hsame]

end Record

namespace Shape

variable {shape : Shape} {fields : List (String × Document)}

theorem readFields?_eq (distinct : (fields.map (·.1)).Nodup) :
    shape.readFields? fields =
      if shape.closed → ∀ f ∈ fields, f.1 ∈ shape.names then some (fields.filter (·.1 ∈ shape.names))
      else none := by
  have hnodup : ((fields.filter (·.1 ∈ shape.names)).map (·.1)).Nodup :=
    (List.filter_sublist.map _).nodup distinct
  have hlength : (fields.filter (·.1 ∈ shape.names)).length = fields.length ↔
      ∀ f ∈ fields, f.1 ∈ shape.names := by
    rw [List.length_filter_eq_length_iff]
    simp
  simp only [readFields?, hnodup, hlength, true_and]

/-- No key may stand in an object of a closed shape that the shape does not name. -/
theorem readFields?_closed (distinct : (fields.map (·.1)).Nodup) (closed : shape.closed = true) :
    shape.readFields? fields = if ∀ f ∈ fields, f.1 ∈ shape.names then some fields else none := by
  rw [readFields?_eq distinct]
  by_cases h : ∀ f ∈ fields, f.1 ∈ shape.names
  · rw [if_pos fun _ => h, if_pos h, List.filter_eq_self.2 (by simpa using h)]
  · rw [if_neg fun hall => h (hall closed), if_neg h]

theorem readFields?_open (distinct : (fields.map (·.1)).Nodup) (opened : shape.closed = false) :
    shape.readFields? fields = some (fields.filter (·.1 ∈ shape.names)) := by
  rw [readFields?_eq distinct, if_pos (by simp [opened])]

end Shape

/-! ## Parts of documents -/

namespace Document

theorem readable_of_mem {fields : List (String × Document)} (h : (obj fields).readable) :
    ∀ f ∈ fields, f.2.readable := by
  unfold readable at h ⊢
  rw [tree?, Option.isSome_map] at h
  induction fields with
  | nil => simp
  | cons f rest ih =>
    obtain ⟨k, d⟩ := f
    rw [treeFields?] at h
    rcases hd : d.tree? with _ | x
    · simp [hd] at h
    rcases hrest : treeFields? rest with _ | xs
    · simp [hd, hrest] at h
    intro g hg
    rcases List.mem_cons.1 hg with rfl | hg
    · simp [hd]
    · exact ih (by simp [hrest]) g hg

/-- An object with each of its keys once, all of whose parts stand for values. -/
structure Distinct (fields : List (String × Document)) : Prop where
  readable : (obj fields).readable
  keys : (fields.map (·.1)).Nodup

theorem Distinct.readable_get? {fields : List (String × Document)} (h : Distinct fields)
    {name : String} {d : Document} (hd : Record.get? name fields = some d) : d.readable := by
  obtain ⟨f, hf, rfl⟩ := Option.map_eq_some_iff.1 hd
  exact readable_of_mem h.readable f (List.mem_of_find?_eq_some hf)

/-- What stands where parameters may stand. -/
def IsParams : Document → Prop
  | null | arr _ | obj _ => True
  | _ => False

/-- What stands where an id may stand: a string, null, or an integer that fits 64 bits. -/
def IsId : Document → Prop
  | null | str _ => True
  | int n => -2 ^ 63 ≤ n ∧ n < 2 ^ 63
  | _ => False

end Document

namespace Rpc

theorem Params.ofDocument?_isSome {d : Document} (h : d.readable) :
    (ofDocument? d).isSome ↔ d.IsParams := by
  obtain ⟨j, hj⟩ := Option.isSome_iff_exists.1 h
  cases d with
  | arr items =>
    obtain ⟨xs, -, rfl⟩ := Option.map_eq_some_iff.1 hj
    simp [ofDocument?, Document.value?, hj, Json.normalize, Document.IsParams]
  | obj fields =>
    obtain ⟨fs, -, rfl⟩ := Option.map_eq_some_iff.1 hj
    simp [ofDocument?, Document.value?, hj, Json.normalize, Document.IsParams]
  | unreadable => cases h
  | _ =>
    cases hj
    simp [ofDocument?, Document.value?, Document.tree?, Json.normalize, Document.IsParams]

/-- An id is read from exactly what it writes. -/
theorem Id.ofDocument?_iff {d : Document} {i : Id} :
    ofDocument? d = some i ↔ d = i.json.document := by
  constructor
  · intro h
    cases d with
    | int n =>
      obtain ⟨k, hk, rfl⟩ := Option.map_eq_some_iff.1 h
      rw [Document.int64?] at hk
      split at hk
      · rename_i hrange
        cases hk
        rw [json, Json.document, Int64.toInt_ofInt_of_le hrange.1 hrange.2]
      · cases hk
    | str _ | null => cases h; rfl
    | _ => cases h
  · rintro rfl
    cases i with
    | number n => simp [json, Json.document, ofDocument?, Document.int64?_toInt]
    | _ => rfl

theorem isId_iff {d : Document} : d.IsId ↔ ∃ i : Id, d = i.json.document := by
  simp only [← Id.ofDocument?_iff]
  cases d with
  | int n =>
    have hrange : (-Int.pow 2 63 ≤ n ∧ n < Int.pow 2 63) ↔ (-2 ^ 63 ≤ n ∧ n < 2 ^ 63) := Iff.rfl
    simp only [Id.ofDocument?, Document.int64?, Document.IsId, hrange]
    split <;> simp_all
  | _ => simp [Id.ofDocument?, Document.int64?, Document.IsId]

theorem text?_eq_some {d : Document} {s : String} : d.text? = some s ↔ d = .str s := by
  cases d <;> simp [Document.text?]

variable {fields : List (String × Document)}

theorem params_of_some (h : Document.Distinct fields) {p : Params}
    (hp : Record.orDefault? "params" .none Params.ofDocument? fields = some p) :
    ∀ d, Record.get? "params" fields = some d → d.IsParams := by
  intro d hd
  rcases Record.orDefault?_eq_some.1 hp with ⟨habsent, -⟩ | ⟨e, he, hread⟩
  · cases hd.symm.trans habsent
  · cases hd.symm.trans he
    exact (Params.ofDocument?_isSome (h.readable_get? hd)).1 (hread ▸ rfl)

theorem exists_params (h : Document.Distinct fields)
    (proper : ∀ d, Record.get? "params" fields = some d → d.IsParams) :
    ∃ p, Record.orDefault? "params" .none Params.ofDocument? fields = some p := by
  rcases hd : Record.get? "params" fields with _ | d
  · exact ⟨.none, Record.orDefault?_eq_some.2 (.inl ⟨hd, rfl⟩)⟩
  · obtain ⟨p, hp⟩ := Option.isSome_iff_exists.1
      ((Params.ofDocument?_isSome (h.readable_get? hd)).2 (proper d hd))
    exact ⟨p, Record.orDefault?_eq_some.2 (.inr ⟨d, hd, hp⟩)⟩

/-! ## Calls with an id -/

/-- What stands in an object that is a method call. -/
structure IsMethodCall (fields : List (String × Document)) : Prop where
  id : ∃ d, Record.get? "id" fields = some d
  keys : ∀ f ∈ fields, f.1 ∈ ["jsonrpc", "method", "params", "id"]
  version : ∃ d, Record.get? "jsonrpc" fields = some d ∧ Version.ofDocument? d = some .v2
  method : ∃ s, Record.get? "method" fields = some (.str s)
  params : ∀ d, Record.get? "params" fields = some d → d.IsParams

theorem MethodCall.ofDocument?_iff (h : Document.Distinct fields) {c : MethodCall} :
    ofDocument? (.obj fields) = some c ↔
      (∀ f ∈ fields, f.1 ∈ shape.names) ∧
        (∃ d, Record.get? "jsonrpc" fields = some d ∧ Version.ofDocument? d = some c.version) ∧
        Record.get? "method" fields = some (.str c.method) ∧
        Record.orDefault? "params" .none Params.ofDocument? fields = some c.params ∧
        Record.get? "id" fields = some c.id.json.document := by
  have hread : shape.readFields? fields =
      if ∀ f ∈ fields, f.1 ∈ shape.names then some fields else none :=
    Shape.readFields?_closed h.keys rfl
  rw [ofDocument?, Shape.read?, hread]
  by_cases hkeys : ∀ f ∈ fields, f.1 ∈ shape.names
  · rw [if_pos hkeys, Option.bind_eq_bind, Option.bind_some]
    constructor
    · intro hc
      obtain ⟨version, hversion, hc⟩ := Option.bind_eq_some_iff.1 hc
      obtain ⟨method, hmethod, hc⟩ := Option.bind_eq_some_iff.1 hc
      obtain ⟨params, hparams, hc⟩ := Option.bind_eq_some_iff.1 hc
      obtain ⟨id, hid, hc⟩ := Option.bind_eq_some_iff.1 hc
      cases hc
      obtain ⟨m, hm, hmethod⟩ := Record.required?_eq_some.1 hmethod
      obtain ⟨i, hi, hid⟩ := Record.required?_eq_some.1 hid
      cases text?_eq_some.1 hmethod
      cases Id.ofDocument?_iff.1 hid
      exact ⟨hkeys, Record.required?_eq_some.1 hversion, hm, hparams, hi⟩
    · rintro ⟨-, hversion, hmethod, hparams, hid⟩
      have hmethod' := Record.required?_eq_some.2 ⟨_, hmethod, text?_eq_some.2 rfl⟩
      have hid' := Record.required?_eq_some.2 ⟨_, hid, Id.ofDocument?_iff.2 rfl⟩
      simp [Record.required?_eq_some.2 hversion, hmethod', hparams, hid']
  · rw [if_neg hkeys]
    constructor
    · intro hc
      cases hc
    · exact fun hc => absurd hc.1 hkeys

theorem MethodCall.exists_iff (h : Document.Distinct fields)
    (proper : ∀ d, Record.get? "id" fields = some d → d.IsId) :
    (∃ c, ofDocument? (.obj fields) = some c) ↔ IsMethodCall fields := by
  constructor
  · rintro ⟨c, hc⟩
    obtain ⟨hkeys, hversion, hmethod, hparams, hid⟩ := (ofDocument?_iff h).1 hc
    exact ⟨⟨_, hid⟩, hkeys, hversion, ⟨_, hmethod⟩, params_of_some h hparams⟩
  · intro hcall
    obtain ⟨d, hd⟩ := hcall.id
    obtain ⟨id, rfl⟩ := isId_iff.1 (proper d hd)
    obtain ⟨method, hmethod⟩ := hcall.method
    obtain ⟨params, hparams⟩ := exists_params h hcall.params
    exact ⟨⟨.v2, method, params, id⟩,
      (ofDocument?_iff h).2 ⟨hcall.keys, hcall.version, hmethod, hparams, hd⟩⟩

/-! ## Calls without an id -/

/-- What stands in an object that is a notification. -/
structure IsNotification (fields : List (String × Document)) : Prop where
  id : Record.get? "id" fields = none
  keys : ∀ f ∈ fields, f.1 ∈ ["jsonrpc", "method", "params"]
  version : ∀ d, Record.get? "jsonrpc" fields = some d → d = .null ∨ Version.ofDocument? d = some .v2
  method : ∃ s, Record.get? "method" fields = some (.str s)
  params : ∀ d, Record.get? "params" fields = some d → d.IsParams

theorem Notification.ofDocument?_iff (h : Document.Distinct fields) {n : Notification} :
    ofDocument? (.obj fields) = some n ↔
      (∀ f ∈ fields, f.1 ∈ shape.names) ∧
        Record.optional? "jsonrpc" Version.ofDocument? fields = some n.version ∧
        Record.get? "method" fields = some (.str n.method) ∧
        Record.orDefault? "params" .none Params.ofDocument? fields = some n.params := by
  have hread : shape.readFields? fields =
      if ∀ f ∈ fields, f.1 ∈ shape.names then some fields else none :=
    Shape.readFields?_closed h.keys rfl
  rw [ofDocument?, Shape.read?, hread]
  by_cases hkeys : ∀ f ∈ fields, f.1 ∈ shape.names
  · rw [if_pos hkeys, Option.bind_eq_bind, Option.bind_some]
    constructor
    · intro hn
      obtain ⟨version, hversion, hn⟩ := Option.bind_eq_some_iff.1 hn
      obtain ⟨method, hmethod, hn⟩ := Option.bind_eq_some_iff.1 hn
      obtain ⟨params, hparams, hn⟩ := Option.bind_eq_some_iff.1 hn
      cases hn
      obtain ⟨m, hm, hmethod⟩ := Record.required?_eq_some.1 hmethod
      cases text?_eq_some.1 hmethod
      exact ⟨hkeys, hversion, hm, hparams⟩
    · rintro ⟨-, hversion, hmethod, hparams⟩
      have hmethod' := Record.required?_eq_some.2 ⟨_, hmethod, text?_eq_some.2 rfl⟩
      simp [hversion, hmethod', hparams]
  · rw [if_neg hkeys]
    constructor
    · intro hn
      cases hn
    · exact fun hn => absurd hn.1 hkeys

theorem Notification.exists_iff (h : Document.Distinct fields) :
    (∃ n, ofDocument? (.obj fields) = some n) ↔ IsNotification fields := by
  constructor
  · rintro ⟨n, hn⟩
    obtain ⟨hkeys, hversion, hmethod, hparams⟩ := (ofDocument?_iff h).1 hn
    refine ⟨?_, hkeys, fun d hd => ?_, ⟨_, hmethod⟩, params_of_some h hparams⟩
    · refine Record.get?_eq_none.2 fun f hf heq => ?_
      have := hkeys f hf
      rw [heq] at this
      exact absurd this (by decide)
    · rcases Record.optional?_eq_some.1 hversion with ⟨habsent | hnull, -⟩ | ⟨e, v, he, -, hv, -⟩
      · cases hd.symm.trans habsent
      · cases hd.symm.trans hnull
        exact .inl rfl
      · cases hd.symm.trans he
        cases v
        exact .inr hv
  · intro hcall
    obtain ⟨method, hmethod⟩ := hcall.method
    obtain ⟨params, hparams⟩ := exists_params h hcall.params
    obtain ⟨version, hversion⟩ : ∃ version,
        Record.optional? "jsonrpc" Version.ofDocument? fields = some version := by
      rcases hd : Record.get? "jsonrpc" fields with _ | d
      · exact ⟨none, Record.optional?_eq_some.2 (.inl ⟨.inl hd, rfl⟩)⟩
      · by_cases hnull : d = .null
        · exact ⟨none, Record.optional?_eq_some.2 (.inl ⟨.inr (hnull ▸ hd), rfl⟩)⟩
        · have hv := (hcall.version d hd).resolve_left hnull
          exact ⟨some .v2, Record.optional?_eq_some.2 (.inr ⟨d, .v2, hd, hnull, hv, rfl⟩)⟩
    exact ⟨⟨version, method, params⟩,
      (ofDocument?_iff h).2 ⟨hcall.keys, hversion, hmethod, hparams⟩⟩

/-! ## Any call -/

namespace Call

theorem invalidId?_iff (h : Document.Distinct fields) {i : Id} :
    invalidId? (.obj fields) = some i ↔
      (Record.get? "id" fields).getD .null = i.json.document := by
  have hget := Record.get?_filter (r := fields) (show "id" ∈ invalidShape.names by decide)
  simp only [invalidId?, Shape.readFields?_open h.keys (show invalidShape.closed = false from rfl),
    Option.bind_eq_bind, Option.bind_some, Record.orDefault?, hget]
  rcases Record.get? "id" fields with _ | d
  · simp only [Option.getD_none, ← Id.ofDocument?_iff]
    rfl
  · exact Id.ofDocument?_iff

/-- An object gives an id unless something stands in its place that is none. -/
theorem exists_invalidId?_iff (h : Document.Distinct fields) :
    (∃ i, invalidId? (.obj fields) = some i) ↔ ∀ d, Record.get? "id" fields = some d → d.IsId := by
  simp only [invalidId?_iff h, ← isId_iff]
  rcases Record.get? "id" fields with _ | d
  · exact ⟨nofun, fun _ => trivial⟩
  · simp

/-- What is read as a method call has an id, so it is not read as a notification. -/
theorem not_both (h : Document.Distinct fields) {n : Notification}
    (hn : Notification.ofDocument? (.obj fields) = some n) :
    MethodCall.ofDocument? (.obj fields) = none := by
  have hid := ((Notification.exists_iff h).1 ⟨n, hn⟩).id
  refine Option.eq_none_iff_forall_ne_some.2 fun c hc => ?_
  cases hid.symm.trans ((MethodCall.ofDocument?_iff h).1 hc).2.2.2.2

theorem ofDocument?_method (h : Document.Distinct fields) {c : MethodCall} :
    ofDocument? (.obj fields) = some (.method c) ↔
      MethodCall.ofDocument? (.obj fields) = some c := by
  rw [ofDocument?, if_pos h.readable]
  rcases MethodCall.ofDocument? (.obj fields) with _ | c'
  · rcases Notification.ofDocument? (.obj fields) <;> simp
  · simp

theorem ofDocument?_notification (h : Document.Distinct fields) {n : Notification} :
    ofDocument? (.obj fields) = some (.notification n) ↔
      Notification.ofDocument? (.obj fields) = some n := by
  rw [ofDocument?, if_pos h.readable]
  rcases hm : MethodCall.ofDocument? (.obj fields) with _ | c
  · rcases Notification.ofDocument? (.obj fields) <;> simp
  · refine ⟨nofun, fun hn => ?_⟩
    cases hm.symm.trans (not_both h hn)

theorem ofDocument?_invalid (h : Document.Distinct fields) {i : Id} :
    ofDocument? (.obj fields) = some (.invalid i) ↔
      MethodCall.ofDocument? (.obj fields) = none ∧ Notification.ofDocument? (.obj fields) = none ∧
        invalidId? (.obj fields) = some i := by
  rw [ofDocument?, if_pos h.readable]
  rcases MethodCall.ofDocument? (.obj fields) with _ | c
  · rcases Notification.ofDocument? (.obj fields) <;> simp
  · simp

theorem ofDocument?_none (h : Document.Distinct fields) :
    ofDocument? (.obj fields) = none ↔
      MethodCall.ofDocument? (.obj fields) = none ∧ Notification.ofDocument? (.obj fields) = none ∧
        invalidId? (.obj fields) = none := by
  rw [ofDocument?, if_pos h.readable]
  rcases MethodCall.ofDocument? (.obj fields) with _ | c
  · rcases Notification.ofDocument? (.obj fields) <;> simp
  · simp

/-- What an object is read as, by what stands in it. -/
structure Classified (fields : List (String × Document)) : Prop where
  /-- An object is no call if something stands in it as an id that is none. -/
  fails : ofDocument? (.obj fields) = none ↔ ∃ d, Record.get? "id" fields = some d ∧ ¬ d.IsId
  method : (∀ d, Record.get? "id" fields = some d → d.IsId) →
    ((∃ c, ofDocument? (.obj fields) = some (.method c)) ↔ IsMethodCall fields)
  notification : (∃ n, ofDocument? (.obj fields) = some (.notification n)) ↔ IsNotification fields
  /-- In all other cases it is an invalid call. -/
  invalid : (∀ d, Record.get? "id" fields = some d → d.IsId) → ¬ IsMethodCall fields →
    ¬ IsNotification fields → ∃ i, ofDocument? (.obj fields) = some (.invalid i)
  methodId : ∀ c, ofDocument? (.obj fields) = some (.method c) →
    Record.get? "id" fields = some c.id.json.document
  /-- The id of an invalid call is null if the object has none. -/
  invalidId : ∀ i, ofDocument? (.obj fields) = some (.invalid i) →
    (Record.get? "id" fields).getD .null = i.json.document

theorem classified (h : Document.Distinct fields) : Classified fields where
  fails := by
    rw [ofDocument?_none h]
    constructor
    · rintro ⟨-, -, hnone⟩
      by_contra hproper
      obtain ⟨i, hi⟩ := (exists_invalidId?_iff h).2 (by simpa using hproper)
      cases hnone.symm.trans hi
    · rintro ⟨d, hd, hno⟩
      refine ⟨?_, ?_, ?_⟩ <;> refine Option.eq_none_iff_forall_ne_some.2 fun x hx => ?_
      · cases hd.symm.trans ((MethodCall.ofDocument?_iff h).1 hx).2.2.2.2
        exact hno (isId_iff.2 ⟨_, rfl⟩)
      · cases hd.symm.trans ((Notification.exists_iff h).1 ⟨x, hx⟩).id
      · exact hno ((exists_invalidId?_iff h).1 ⟨x, hx⟩ d hd)
  method proper := by
    simp only [ofDocument?_method h]
    exact MethodCall.exists_iff h proper
  notification := by
    simp only [ofDocument?_notification h]
    exact Notification.exists_iff h
  invalid proper hmethod hnotification := by
    obtain ⟨i, hi⟩ := (exists_invalidId?_iff h).2 proper
    refine ⟨i, (ofDocument?_invalid h).2 ⟨?_, ?_, hi⟩⟩
    · refine Option.eq_none_iff_forall_ne_some.2 fun c hc => hmethod ?_
      exact (MethodCall.exists_iff h proper).1 ⟨c, hc⟩
    · refine Option.eq_none_iff_forall_ne_some.2 fun n hn => hnotification ?_
      exact (Notification.exists_iff h).1 ⟨n, hn⟩
  methodId c hc := ((MethodCall.ofDocument?_iff h).1 ((ofDocument?_method h).1 hc)).2.2.2.2
  invalidId i hi := (invalidId?_iff h).1 ((ofDocument?_invalid h).1 hi).2.2

end Call

end Rpc

end OriginGate
