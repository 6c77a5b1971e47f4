import OriginGate.Proofs.Wire

/-!
# States and requests for permissions are read as they were written

* `Json.normalize_ascending`, `Json.document_record` : an object with ascending keys is written in
  that order, and a record in the order of its names;
* `Document.Restores` : a thing is read from the value that it writes; `restores_list`,
  `restores_table`, `restores_byOrigin` : so are lists and maps of such things;
* `Caveat.restores`, `Permission.restores`, `State.restores`, `PermissionsRequest.restores`,
  `ApprovedRequest.restores` : so is each kind of record;
* `Document.restores_states_and_requests` : all together, for canonical values in the caveats.

Unlike the text of a state, its value has no limit of depth, and its fields stand in the order of
their names.
-/

namespace OriginGate

/-! ## Objects as values -/

namespace Json

theorem normalizeFields_eq (fields : List (String × Json)) :
    normalizeFields fields = fields.map fun f => (f.1, f.2.normalize) := by
  induction fields with
  | nil => rfl
  | cons f rest ih =>
    obtain ⟨k, x⟩ := f
    rw [normalizeFields, ih, List.map_cons]

/-- Fields in ascending order stay where they are. -/
theorem normalize_ascending {fields : List (String × Json)} (h : Ascending fields) :
    (obj fields).normalize = obj (fields.map fun f => (f.1, f.2.normalize)) := by
  have hsorted : Ascending (fields.map fun f => (f.1, f.2.normalize)) := by
    unfold Ascending
    rw [List.pairwise_map]
    exact h
  rw [normalize, normalizeFields_eq]
  exact congrArg obj (congrArg SortedMap.entries (SortedMap.ofList_entries ⟨_, hsorted⟩))

/-- The fields of a record take the order of their names. -/
theorem normalize_record {fields sorted : List (String × Json)} (h : Ascending sorted)
    (subset : sorted ⊆ fields.map fun f => (f.1, f.2.normalize))
    (length : fields.length ≤ sorted.length) : (obj fields).normalize = obj sorted := by
  rw [normalize, normalizeFields_eq]
  congr 1
  apply SortedMap.ofList_of_subset h subset
  rw [List.length_map]
  exact length

theorem document_record {fields sorted : List (String × Json)} (h : Ascending sorted)
    (subset : sorted ⊆ fields.map fun f => (f.1, f.2.normalize))
    (length : fields.length ≤ sorted.length) :
    (obj fields).normalize.document = .obj (documentFields sorted) := by
  rw [normalize_record h subset length, document]

end Json

/-! ## Things that are read back -/

namespace Document

variable {α : Type} {read? : Document → Option α} {toJson : α → Json}

/-- A thing is read from the value that it writes. -/
def Restores (read? : Document → Option α) (toJson : α → Json) (a : α) : Prop :=
  read? (toJson a).normalize.document = some a

/-- What is decoded at every depth is read from its value, if that is written in order. -/
theorem Decodes.restores {a : α} (h : Decodes read? toJson a)
    (ordered : (toJson a).normalize = toJson a) : Restores read? toJson a := by
  have hdepth := h (toJson a).depth
  rw [if_pos (Nat.le_refl _), Json.documentWithin_of_depth _ (Nat.le_refl _)] at hdepth
  unfold Restores
  rw [ordered]
  exact hdepth

/-- A record is read from its fields in the order of their names. -/
theorem Restores.of_record {a : α} {fields : List (String × Json)} (record : toJson a = .obj fields)
    (sorted : List (String × Json)) (ascending : Ascending sorted)
    (subset : sorted ⊆ fields.map fun f => (f.1, f.2.normalize))
    (length : fields.length ≤ sorted.length)
    (hread : read? (.obj (Json.documentFields sorted)) = some a) : Restores read? toJson a := by
  unfold Restores
  rw [record, Json.document_record ascending subset length]
  exact hread

theorem restores_list {as : List α} (h : ∀ a ∈ as, Restores read? toJson a) :
    Restores (list? read?) (fun as => .arr (as.map toJson)) as := by
  unfold Restores
  rw [Json.normalize, Json.normalizeItems_eq, Json.document, Json.documentItems_eq, List.map_map,
    List.map_map]
  exact mapM_restored h

/-- The entries of an ascending map are read back with their keys. -/
theorem restores_entries {fields : List (String × α)}
    (ascending : Ascending (fields.map fun f => (f.1, toJson f.2)))
    (h : ∀ f ∈ fields, Restores read? toJson f.2) :
    Restores (entries? read?) (fun fields => .obj (fields.map fun f => (f.1, toJson f.2)))
      fields := by
  unfold Restores
  simp only
  rw [Json.normalize_ascending ascending, Json.document, Json.documentFields_eq, List.map_map,
    List.map_map]
  apply mapM_restored
  intro f hf
  have hread : read? (toJson f.2).normalize.document = some f.2 := h f hf
  simp [hread]

theorem restores_table {m : SortedMap String α} (h : ∀ e ∈ m.entries, Restores read? toJson e.2) :
    Restores (table? read?) (fun m => .obj (m.entries.map fun e => (e.1, toJson e.2))) m := by
  have ascending : Ascending (m.entries.map fun e => (e.1, toJson e.2)) :=
    List.pairwise_map.2 m.ascending
  have hentries := restores_entries ascending h
  unfold Restores at hentries ⊢
  rw [table?, hentries, Option.map_some, SortedMap.ofList_entries]

theorem restores_byOrigin {m : SortedMap Origin α}
    (h : ∀ e ∈ m.entries, Restores read? toJson e.2) :
    Restores (byOrigin? read?) (SortedMap.jsonByOrigin toJson) m := by
  have hnamed : ∀ f ∈ m.entries.map fun e => (e.1.name, e.2), Restores read? toJson f.2 := by
    intro f hf
    obtain ⟨e, he, rfl⟩ := List.mem_map.1 hf
    exact h e he
  -- Origins are ordered by their names.
  have ascending :
      Ascending ((m.entries.map fun e => (e.1.name, e.2)).map fun f => (f.1, toJson f.2)) := by
    rw [List.map_map]
    exact List.pairwise_map.2 m.ascending
  have hentries := restores_entries ascending hnamed
  have hback : (m.entries.map fun e => (e.1.name, e.2)).map
      (fun e => ((⟨e.1⟩ : Origin), e.2)) = m.entries := by
    rw [List.map_map]
    exact List.map_id _
  have hjson : m.jsonByOrigin toJson =
      .obj ((m.entries.map fun e => (e.1.name, e.2)).map fun f => (f.1, toJson f.2)) := by
    rw [SortedMap.jsonByOrigin, List.map_map]
    rfl
  unfold Restores at hentries ⊢
  rw [hjson, byOrigin?, hentries, Option.map_some, hback, SortedMap.ofList_entries]

end Document

open Document (Restores)

/-! ## Permissions and sites -/

theorem Caveat.restores {c : Caveat} (h : c.Canonical) : Restores ofDocument? json c := by
  apply (Caveat.decodes h).restores
  apply Json.normalize_of_canonical
  exact ⟨by simp [Ascending]; rfl, trivial, h, trivial⟩

theorem Permission.restores {p : Permission} (h : ∀ c ∈ p.caveats, c.Canonical) :
    Restores ofDocument? json p := by
  have hcaveats := Document.restores_list fun c hc => Caveat.restores (h c hc)
  have hid : Uuid.ofDocument? (.str p.id.text) = some p.id := by
    rw [Uuid.ofDocument?, Document.text?, Option.bind_some, Uuid.read?_text]
  have hfields : ∀ cs d i o c : Document,
      ofDocument? (.obj [("caveats", cs), ("date", d), ("id", i), ("invoker", o),
        ("parentCapability", c)]) = (do
          let id ← Uuid.ofDocument? i
          let capability ← c.text?
          let invoker ← Origin.ofDocument? o
          let caveats ← cs.list? Caveat.ofDocument?
          let date ← d.int64?
          pure ⟨id, capability, invoker, caveats, date⟩) := fun _ _ _ _ _ => rfl
  unfold Restores at hcaveats
  simp only at hcaveats
  refine Restores.of_record rfl
    [("caveats", (Json.arr (p.caveats.map Caveat.json)).normalize), ("date", .int p.date.toInt),
      ("id", p.id.json), ("invoker", p.invoker.json), ("parentCapability", .str p.capability)]
    ?ascending ?subset ?length ?hread
  case ascending => simp [Ascending]; decide
  case subset => simp [Json.normalize, Uuid.json, Origin.json]
  case length => simp
  case hread =>
    simp only [Json.documentFields, hfields, hcaveats]
    simp only [Json.document, Uuid.json, Origin.json, hid, Document.int64?_toInt]
    rfl

theorem Domain.restores {d : Domain} (h : ∀ p ∈ d.permissions, ∀ c ∈ p.caveats, c.Canonical) :
    Restores ofDocument? json d := by
  have hlist := Document.restores_list fun p hp => Permission.restores (h p hp)
  unfold Restores at hlist
  simp only at hlist
  refine Restores.of_record rfl
    [("permissions", (Json.arr (d.permissions.map Permission.json)).normalize)]
    ?ascending ?subset ?length ?hread
  case ascending => simp [Ascending]
  case subset => simp
  case length => simp
  case hread =>
    simp only [Json.documentFields, ofDocument?_fields, hlist]
    rfl

theorem SiteMetadata.restores (m : SiteMetadata) : Restores ofDocument? json m := by
  obtain ⟨name, _ | id⟩ := m
  · rfl
  · refine Restores.of_record rfl [("extensionId", .str id), ("name", .str name)]
      ?ascending ?subset ?length ?hread
    case ascending => simp [Ascending]; decide
    case subset => simp [Json.normalize]
    case length => simp
    case hread => rfl

/-! ## States -/

theorem State.restores {s : State} (h : s.EveryCaveat Caveat.Canonical) :
    Restores ofDocument? json s := by
  have hdomains := Document.restores_byOrigin
    fun e (he : e ∈ s.domains.entries) => Domain.restores (h.entries he)
  have hmetadata := Document.restores_byOrigin
    fun e (_ : e ∈ s.metadata.entries) => SiteMetadata.restores e.2
  have hfields : ∀ m d : Document,
      ofDocument? (.obj [("domainMetadata", m), ("domains", d)]) = (do
        let domains ← d.byOrigin? Domain.ofDocument?
        let metadata ← m.byOrigin? SiteMetadata.ofDocument?
        pure ⟨domains, metadata⟩) := fun _ _ => rfl
  unfold Restores at hdomains hmetadata
  refine Restores.of_record rfl
    [("domainMetadata", (s.metadata.jsonByOrigin SiteMetadata.json).normalize),
      ("domains", (s.domains.jsonByOrigin Domain.json).normalize)]
    ?ascending ?subset ?length ?hread
  case ascending => simp [Ascending]; decide
  case subset => simp
  case length => simp
  case hread =>
    simp only [Json.documentFields, hfields, hdomains, hmetadata]
    rfl

/-! ## Requests -/

theorem RequestedPermission.restores {p : RequestedPermission} (h : ∀ c ∈ p.caveats, c.Canonical) :
    Restores ofDocument? json p := by
  obtain ⟨caveats⟩ := p
  rcases caveats with _ | ⟨c, rest⟩
  · rfl
  · have hcaveats := Document.restores_list fun d hd => Caveat.restores (h d hd)
    have hfields : ∀ d : Document, ofDocument? (.obj [("caveats", d)]) =
        (d.list? Caveat.ofDocument?).bind fun caveats => some ⟨caveats⟩ := fun _ => rfl
    unfold Restores at hcaveats
    simp only at hcaveats
    refine Restores.of_record rfl
      [("caveats", (Json.arr ((c :: rest).map Caveat.json)).normalize)]
      ?ascending ?subset ?length ?hread
    case ascending => simp [Ascending]
    case subset => simp
    case length => simp
    case hread =>
      rw [Json.documentFields, Json.documentFields, hfields, hcaveats]
      rfl

theorem RequestedPermissions.restores {ps : RequestedPermissions}
    (h : EveryCaveat Caveat.Canonical ps) : Restores ofDocument? json ps :=
  Document.restores_table fun e he => RequestedPermission.restores (h e he)

theorem RequestId.ofDocument?_document (id : RequestId) :
    ofDocument? id.json.document = some id := by
  simp [ofDocument?, Uuid.ofDocument?, json, Uuid.json, Json.document, Document.text?,
    Uuid.read?_text]

theorem PermissionsRequest.restores {r : PermissionsRequest}
    (h : RequestedPermissions.EveryCaveat Caveat.Canonical r.permissions) :
    Restores ofDocument? json r := by
  obtain ⟨id, origin, permissions, metadata⟩ := r
  have hpermissions := RequestedPermissions.restores h
  unfold Restores at hpermissions
  simp only at hpermissions
  rcases metadata with _ | m
  · have hfields : ∀ i o ps : Document,
        ofDocument? (.obj [("id", i), ("origin", o), ("permissions", ps)]) = (do
          let id ← RequestId.ofDocument? i
          let origin ← Origin.ofDocument? o
          let permissions ← RequestedPermissions.ofDocument? ps
          pure ⟨id, origin, permissions, none⟩) := fun _ _ _ => rfl
    refine Restores.of_record rfl
      [("id", id.json), ("origin", origin.json),
        ("permissions", (RequestedPermissions.json permissions).normalize)]
      ?ascending ?subset ?length ?hread
    case ascending => simp [Ascending]; decide
    case subset => simp [Json.normalize, RequestId.json, Uuid.json, Origin.json]
    case length => simp
    case hread =>
      simp only [Json.documentFields, hfields, hpermissions, id.ofDocument?_document]
      rfl
  · have hmetadata := m.restores
    have hfields : ∀ (i o ps : Document) (fields : List (String × Document)),
        ofDocument? (.obj [("id", i), ("metadata", .obj fields), ("origin", o),
          ("permissions", ps)]) = (do
            let id ← RequestId.ofDocument? i
            let origin ← Origin.ofDocument? o
            let permissions ← RequestedPermissions.ofDocument? ps
            let metadata ← (SiteMetadata.ofDocument? (.obj fields)).map some
            pure ⟨id, origin, permissions, metadata⟩) := fun _ _ _ _ => rfl
    -- What is recorded about a site is an object, and so no null that would count as absent.
    obtain ⟨fields, hobject⟩ : ∃ fields, m.json.normalize.document = .obj fields := ⟨_, rfl⟩
    unfold Restores at hmetadata
    rw [hobject] at hmetadata
    refine Restores.of_record rfl
      [("id", id.json), ("metadata", m.json.normalize), ("origin", origin.json),
        ("permissions", (RequestedPermissions.json permissions).normalize)]
      ?ascending ?subset ?length ?hread
    case ascending => simp [Ascending]; decide
    case subset => simp [Json.normalize, RequestId.json, Uuid.json, Origin.json]
    case length => simp
    case hread =>
      simp only [Json.documentFields, hobject, hfields, hpermissions, hmetadata,
        id.ofDocument?_document]
      rfl

theorem ApprovedRequest.restores {a : ApprovedRequest}
    (h : RequestedPermissions.EveryCaveat Caveat.Canonical a.permissions) :
    Restores ofDocument? json a := by
  obtain ⟨id, permissions⟩ := a
  have hpermissions := RequestedPermissions.restores h
  have hfields : ∀ i ps : Document, ofDocument? (.obj [("id", i), ("permissions", ps)]) = (do
      let id ← RequestId.ofDocument? i
      let permissions ← RequestedPermissions.ofDocument? ps
      pure ⟨id, permissions⟩) := fun _ _ => rfl
  unfold Restores at hpermissions
  simp only at hpermissions
  refine Restores.of_record rfl
    [("id", id.json), ("permissions", (RequestedPermissions.json permissions).normalize)]
    ?ascending ?subset ?length ?hread
  case ascending => simp [Ascending]; decide
  case subset => simp [Json.normalize, RequestId.json, Uuid.json]
  case length => simp
  case hread =>
    simp only [Json.documentFields, hfields, hpermissions, id.ofDocument?_document]
    rfl

/-! ## All of them -/

namespace Document

/-- States, requests and approvals are read as what they were. -/
theorem restores_states_and_requests :
    (∀ s : State, s.EveryCaveat Caveat.Canonical →
      State.ofDocument? s.json.normalize.document = some s) ∧
    (∀ r : PermissionsRequest, RequestedPermissions.EveryCaveat Caveat.Canonical r.permissions →
      PermissionsRequest.ofDocument? r.json.normalize.document = some r) ∧
    ∀ a : ApprovedRequest, RequestedPermissions.EveryCaveat Caveat.Canonical a.permissions →
      ApprovedRequest.ofDocument? a.json.normalize.document = some a := by
  refine ⟨?states, ?requests, ?approvals⟩
  case states => exact fun _ h => State.restores h
  case requests => exact fun _ h => PermissionsRequest.restores h
  case approvals => exact fun _ h => ApprovedRequest.restores h

/-- Caveats of all kinds, one of them with an object in it. -/
def caveatsOfAllKinds : List Caveat :=
  [.limitLength 3, .accounts [⟨1⟩, ⟨2⟩], .forceParams (.arr [.obj [("a", .null), ("b", .int 1)]]),
    .requireSubset [("chainId", .str "0x1"), ("data", .null)]]

theorem canonical_caveatsOfAllKinds : ∀ c ∈ caveatsOfAllKinds, c.Canonical := by
  intro c hc
  simp only [caveatsOfAllKinds, List.mem_cons, List.not_mem_nil, or_false] at hc
  rcases hc with rfl | rfl | rfl | rfl
  · trivial
  · exact ⟨trivial, trivial, trivial⟩
  · exact ⟨⟨by decide, trivial, trivial, trivial⟩, trivial⟩
  · exact ⟨by decide, trivial, trivial, trivial⟩

/-- What is granted or asked for with those caveats. -/
def restricted : RequestedPermissions :=
  SortedMap.empty.insert "eth_accounts" ⟨caveatsOfAllKinds⟩ |>.insert "eth_sign" ⟨[]⟩

/-- A site with two permissions, and one about which something is recorded. -/
def twoSites : State where
  domains := SortedMap.empty.insert ⟨"https://a.test"⟩
    ⟨[⟨⟨1⟩, "eth_accounts", ⟨"https://a.test"⟩, caveatsOfAllKinds, -1⟩,
      ⟨⟨2⟩, "eth_sign", ⟨"https://a.test"⟩, [], 7⟩]⟩
  metadata := SortedMap.empty.insert ⟨"https://b.test"⟩ ⟨"B", some "extension"⟩

theorem restores_twoSites_and_restricted :
    (twoSites.EveryCaveat Caveat.Canonical ∧
      State.ofDocument? twoSites.json.normalize.document = some twoSites) ∧
    RequestedPermissions.EveryCaveat Caveat.Canonical restricted ∧
    PermissionsRequest.ofDocument? (PermissionsRequest.json ⟨⟨⟨3⟩⟩, ⟨"https://a.test"⟩, restricted,
      some ⟨"A", none⟩⟩).normalize.document =
        some ⟨⟨⟨3⟩⟩, ⟨"https://a.test"⟩, restricted, some ⟨"A", none⟩⟩ ∧
    ApprovedRequest.ofDocument? (ApprovedRequest.json ⟨⟨⟨3⟩⟩, restricted⟩).normalize.document =
      some ⟨⟨⟨3⟩⟩, restricted⟩ := by
  have hstate : twoSites.EveryCaveat Caveat.Canonical := by
    intro o p hp
    unfold State.permissions twoSites at hp
    rw [SortedMap.find?_insert] at hp
    by_cases ho : o = ⟨"https://a.test"⟩
    · simp only [ho, if_pos, List.mem_cons, List.not_mem_nil, or_false] at hp
      rcases hp with rfl | rfl
      · exact canonical_caveatsOfAllKinds
      · exact fun c hc => absurd hc List.not_mem_nil
    · rw [if_neg ho] at hp
      exact absurd hp List.not_mem_nil
  have hrequested : RequestedPermissions.EveryCaveat Caveat.Canonical restricted := by
    intro e he
    have hentries : restricted.entries =
        [("eth_accounts", ⟨caveatsOfAllKinds⟩), ("eth_sign", ⟨[]⟩)] := rfl
    rw [hentries] at he
    simp only [List.mem_cons, List.not_mem_nil, or_false] at he
    rcases he with rfl | rfl
    · exact canonical_caveatsOfAllKinds
    · exact fun c hc => absurd hc List.not_mem_nil
  obtain ⟨states, requests, approvals⟩ := restores_states_and_requests
  exact ⟨⟨hstate, states _ hstate⟩, hrequested, requests _ hrequested, approvals _ hrequested⟩

end Document

end OriginGate
