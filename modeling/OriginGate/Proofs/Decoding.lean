import OriginGate.Permission.Request
import OriginGate.Proofs.Reading
import OriginGate.Store.State

/-!
# The state is decoded as it was written

* `Json.normalize_of_canonical` : a canonical value is read as itself;
* `Document.Decodes` : a thing is decoded from what it writes, unless that is nested too deep;
  `decodes_list`, `decodes_entries` : so are lists and maps of such things;
* `Caveat.Canonical` : the value of a caveat is canonical; `Caveat.Proper` : its integers fit 64
  bits besides;
* `State.EveryCaveat` : a condition on all caveats in force;
* `State.decodes` : a state is decoded from what it writes;
* `State.proper_ofDocument?` : all caveats of a decoded state are proper, and it is nested no deeper
  than its document; `RequestedPermissions.proper_ofDocument?` : so are those of a decoded request.

Whether a state is decoded depends on its depth alone: its reader skips nothing that is written.
-/

namespace OriginGate

/-! ## Canonical values -/

namespace Json

mutual

theorem normalize_of_canonical : (j : Json) → j.Canonical → j.normalize = j
  | arr items, h => by rw [normalize, normalizeItems_of_canonical items h]
  | obj fields, h => by
    have hsorted : (SortedMap.ofList fields).entries = fields :=
      congrArg SortedMap.entries (SortedMap.ofList_entries ⟨fields, h.1⟩)
    rw [normalize, normalizeFields_of_canonical fields h.2, hsorted]
  | null, _ => rfl
  | bool _, _ => rfl
  | int _, _ => rfl
  | double _, _ => rfl
  | str _, _ => rfl

theorem normalizeItems_of_canonical : (items : List Json) → CanonicalItems items →
    normalizeItems items = items
  | [], _ => rfl
  | x :: xs, h => by
    rw [normalizeItems, normalize_of_canonical x h.1, normalizeItems_of_canonical xs h.2]

theorem normalizeFields_of_canonical : (fields : List (String × Json)) →
    CanonicalFields fields → normalizeFields fields = fields
  | [], _ => rfl
  | (k, x) :: fs, h => by
    rw [normalizeFields, normalize_of_canonical x h.1, normalizeFields_of_canonical fs h.2]

end

theorem value?_documentWithin {j : Json} (h : j.Canonical) (room : Nat) :
    (j.documentWithin room).value? = if j.depth ≤ room then some j else none := by
  rw [Document.value?, tree?_documentWithin]
  split
  · rw [Option.map_some, normalize_of_canonical j h]
  · rfl

end Json

/-! ## Decoding -/

namespace Document

variable {α : Type} {read? : Document → Option α} {toJson : α → Json}

/-- A thing is decoded from what it writes, unless that is nested too deep. -/
def Decodes (read? : Document → Option α) (toJson : α → Json) (a : α) : Prop :=
  ∀ room, read? ((toJson a).documentWithin room) = if (toJson a).depth ≤ room then some a else none

theorem Decodes.of_str {a : α} {s : String} (hjson : toJson a = .str s)
    (hread : read? (.str s) = some a) : Decodes read? toJson a := by
  intro room
  rw [hjson, if_pos (show (Json.str s).depth ≤ room from Nat.zero_le _)]
  exact hread

/-- A thing that is written as an array or an object takes a level for itself. -/
theorem Decodes.of_level {a : α} {n : Nat} (depth : (toJson a).depth = n + 1)
    (bottom : read? ((toJson a).documentWithin 0) = none)
    (h : ∀ room, read? ((toJson a).documentWithin (room + 1)) = if n ≤ room then some a else none) :
    Decodes read? toJson a := by
  intro room
  rw [depth]
  cases room with
  | zero => rw [bottom, if_neg (Nat.not_succ_le_zero n)]
  | succ room => simp only [h room, Nat.add_le_add_iff_right]

theorem mapM_documentWithin {as : List α} (h : ∀ a ∈ as, Decodes read? toJson a) (room : Nat) :
    ((as.map toJson).map (Json.documentWithin room)).mapM read? =
      if Json.depthItems (as.map toJson) ≤ room then some as else none := by
  rw [List.map_map]
  refine (mapM_conditional fun a ha => h a ha room).trans ?_
  simp only [Json.depthItems_le_iff, List.forall_mem_map]

theorem decodes_list {as : List α} (h : ∀ a ∈ as, Decodes read? toJson a) :
    Decodes (list? read?) (fun as => .arr (as.map toJson)) as := by
  refine .of_level rfl rfl fun room => ?_
  rw [Json.documentWithin_arr_succ]
  exact mapM_documentWithin h room

theorem mapM_entriesWithin {fields : List (String × α)}
    (h : ∀ f ∈ fields, Decodes read? toJson f.2) (room : Nat) :
    ((fields.map fun f => (f.1, toJson f.2)).map fun f => (f.1, f.2.documentWithin room)).mapM
        (fun f => (read? f.2).map (f.1, ·)) =
      if Json.depthFields (fields.map fun f => (f.1, toJson f.2)) ≤ room then some fields
      else none := by
  have hentries : ∀ f ∈ fields,
      (read? ((toJson f.2).documentWithin room)).map (f.1, ·) =
        if (toJson f.2).depth ≤ room then some f else none := by
    intro f hf
    rw [h f hf room]
    split
    · rfl
    · rfl
  rw [List.map_map]
  refine (mapM_conditional hentries).trans ?_
  simp only [Json.depthFields_le_iff, List.forall_mem_map]

theorem decodes_entries {fields : List (String × α)}
    (h : ∀ f ∈ fields, Decodes read? toJson f.2) :
    Decodes (entries? read?) (fun fields => .obj (fields.map fun f => (f.1, toJson f.2)))
      fields := by
  refine .of_level rfl rfl fun room => ?_
  rw [Json.documentWithin_obj_succ]
  exact mapM_entriesWithin h room

theorem decodes_byOrigin {m : SortedMap Origin α}
    (h : ∀ e ∈ m.entries, Decodes read? toJson e.2) :
    Decodes (byOrigin? read?) (SortedMap.jsonByOrigin toJson) m := by
  intro room
  have hnamed : ∀ f ∈ m.entries.map fun e => (e.1.name, e.2), Decodes read? toJson f.2 := by
    intro f hf
    obtain ⟨e, he, rfl⟩ := List.mem_map.1 hf
    exact h e he
  have hjson : m.jsonByOrigin toJson =
      .obj ((m.entries.map fun e => (e.1.name, e.2)).map fun f => (f.1, toJson f.2)) := by
    rw [SortedMap.jsonByOrigin, List.map_map]
    rfl
  have hentries := decodes_entries hnamed room
  simp only at hentries
  rw [hjson, byOrigin?, hentries]
  split
  · have hback : (m.entries.map fun e => (e.1.name, e.2)).map
        (fun e => ((⟨e.1⟩ : Origin), e.2)) = m.entries := by
      rw [List.map_map]
      exact List.map_id _
    rw [Option.map_some, hback, SortedMap.ofList_entries]
  · rfl

theorem int64?_toInt (n : Int64) : (Document.int n.toInt).int64? = some n := by
  have low : -Int.pow 2 63 ≤ n.toInt := n.le_toInt
  have high : n.toInt < Int.pow 2 63 := n.toInt_lt
  rw [int64?, if_pos ⟨low, high⟩, Int64.ofInt_toInt]

end Document

/-! ## Caveats -/

namespace Caveat

/-- The value of a caveat is canonical. -/
def Canonical (c : Caveat) : Prop := c.content.Canonical

/-- The value of a caveat is one that can be read: canonical, with integers that fit 64 bits. -/
structure Proper (c : Caveat) : Prop where
  canonical : c.Canonical
  integers : c.content.Leaves Json.IntegerFits

theorem ofDocument?_fields (kind : Kind) (content : Document) :
    ofDocument? (.obj [("type", .str kind.name), ("value", content)]) = ofContent? content kind := by
  cases kind <;> rfl

theorem decodes_account (a : Account) : Document.Decodes Account.ofDocument? Account.json a :=
  .of_str rfl a.read?_text

theorem ofContent?_documentWithin {c : Caveat} (h : c.Canonical) (room : Nat) :
    ofContent? (c.content.documentWithin room) c.kind =
      if c.content.depth ≤ room then some c else none := by
  cases c with
  | accounts allowed =>
    have hlist : Document.list? Account.ofDocument? ((accounts allowed).content.documentWithin room)
        = if (accounts allowed).content.depth ≤ room then some allowed else none :=
      Document.decodes_list (fun a _ => decodes_account a) room
    rw [kind, ofContent?, hlist]
    split <;> rfl
  | forceParams params =>
    have hvalue : ((forceParams params).content.documentWithin room).value? =
        if (forceParams params).content.depth ≤ room then some params else none :=
      Json.value?_documentWithin h room
    rw [kind, ofContent?, hvalue]
    split <;> rfl
  | requireSubset allowed =>
    have hvalue : ((requireSubset allowed).content.documentWithin room).value? =
        if (requireSubset allowed).content.depth ≤ room then some (.obj allowed) else none :=
      Json.value?_documentWithin h room
    cases room with
    | zero => exact (if_neg (Nat.not_succ_le_zero _)).symm
    | succ room =>
      rw [content, Json.documentWithin_obj_succ] at hvalue ⊢
      rw [kind, ofContent?, Document.valueFields?, hvalue]
      by_cases hroom : (Json.obj allowed).depth ≤ room + 1
      · rw [if_pos hroom, if_pos hroom]
        rfl
      · rw [if_neg hroom, if_neg hroom]
        rfl
  | limitLength limit =>
    have hlimit : (limit.toNat : Int) < Int.pow 2 64 := Int.ofNat_lt.2 limit.toNat_lt
    have hread : (Document.int limit.toNat).uint64? = some limit := by
      rw [Document.uint64?, if_pos ⟨Int.natCast_nonneg _, hlimit⟩, Int.toNat_natCast,
        UInt64.ofNat_toNat]
    have hdocument : (limitLength limit).content.documentWithin room = .int limit.toNat := rfl
    rw [hdocument, kind, ofContent?, hread]
    exact (if_pos (Nat.zero_le _)).symm

theorem depth_json (c : Caveat) : c.json.depth = c.content.depth + 1 := by
  simp [json, Kind.json, Json.depth, Json.depthFields]

theorem decodes {c : Caveat} (h : c.Canonical) : Document.Decodes ofDocument? json c := by
  refine .of_level c.depth_json rfl fun room => ?_
  have hfields : c.json.documentWithin (room + 1) =
      .obj [("type", .str c.kind.name), ("value", c.content.documentWithin room)] := by
    rw [json, Json.documentWithin_obj_succ]
    rfl
  rw [hfields, ofDocument?_fields, ofContent?_documentWithin h room]

end Caveat

/-! ## Permissions and sites -/

namespace Permission

theorem ofDocument?_fields (i c o cs d : Document) :
    ofDocument? (.obj [("id", i), ("parentCapability", c), ("invoker", o), ("caveats", cs),
      ("date", d)]) = (do
        let id ← Uuid.ofDocument? i
        let capability ← c.text?
        let invoker ← Origin.ofDocument? o
        let caveats ← cs.list? Caveat.ofDocument?
        let date ← d.int64?
        pure ⟨id, capability, invoker, caveats, date⟩) := rfl

theorem depth_json (p : Permission) :
    p.json.depth = (Json.arr (p.caveats.map Caveat.json)).depth + 1 := by
  simp [json, Uuid.json, Origin.json, Json.depth, Json.depthFields]

theorem decodes {p : Permission} (h : ∀ c ∈ p.caveats, c.Canonical) :
    Document.Decodes ofDocument? json p := by
  refine .of_level p.depth_json rfl fun room => ?_
  have hcaveats := Document.decodes_list (fun c hc => Caveat.decodes (h c hc)) room
  have hid : Uuid.ofDocument? (.str p.id.text) = some p.id := by
    rw [Uuid.ofDocument?, Document.text?, Option.bind_some, Uuid.read?_text]
  have hfields : p.json.documentWithin (room + 1) =
      .obj [("id", .str p.id.text), ("parentCapability", .str p.capability),
        ("invoker", .str p.invoker.name),
        ("caveats", (Json.arr (p.caveats.map Caveat.json)).documentWithin room),
        ("date", .int p.date.toInt)] := by
    rw [json, Json.documentWithin_obj_succ]
    rfl
  simp only at hcaveats
  rw [hfields, ofDocument?_fields, hcaveats, hid, Document.int64?_toInt]
  split <;> rfl

end Permission

theorem Domain.ofDocument?_fields (ps : Document) :
    ofDocument? (.obj [("permissions", ps)]) =
      (ps.list? Permission.ofDocument?).bind fun permissions => some ⟨permissions⟩ := rfl

theorem Domain.depth_json (d : Domain) :
    d.json.depth = (Json.arr (d.permissions.map Permission.json)).depth + 1 := by
  simp [json, Json.depth, Json.depthFields]

theorem Domain.decodes {d : Domain} (h : ∀ p ∈ d.permissions, ∀ c ∈ p.caveats, c.Canonical) :
    Document.Decodes ofDocument? json d := by
  refine .of_level d.depth_json rfl fun room => ?_
  have hlist := Document.decodes_list (fun p hp => Permission.decodes (h p hp)) room
  simp only at hlist
  rw [json, Json.documentWithin_obj_succ, List.map_singleton, ofDocument?_fields, hlist]
  split <;> rfl

theorem SiteMetadata.depth_json (m : SiteMetadata) : m.json.depth = 1 := by
  rcases h : m.extensionId with _ | id <;> simp [json, h, Json.depth, Json.depthFields]

theorem SiteMetadata.decodes (m : SiteMetadata) : Document.Decodes ofDocument? json m := by
  refine .of_level m.depth_json rfl fun room => ?_
  rw [if_pos (Nat.zero_le room)]
  obtain ⟨name, _ | id⟩ := m
  · rw [json, Json.documentWithin_obj_succ]
    rfl
  · rw [json, Json.documentWithin_obj_succ]
    rfl

/-! ## States -/

namespace State

/-- Every caveat in force satisfies a condition. -/
def EveryCaveat (P : Caveat → Prop) (s : State) : Prop :=
  ∀ o, ∀ p ∈ s.permissions o, ∀ c ∈ p.caveats, P c

theorem EveryCaveat.entries {P : Caveat → Prop} {s : State} (h : s.EveryCaveat P)
    {e : Origin × Domain} (he : e ∈ s.domains.entries) :
    ∀ p ∈ e.2.permissions, ∀ c ∈ p.caveats, P c := by
  have hfind : s.domains.find? e.1 = some e.2 := SortedMap.find?_eq_some_iff.2 he
  have hpermissions : s.permissions e.1 = e.2.permissions := by
    rw [permissions, hfind]
  intro p hp
  rw [← hpermissions] at hp
  exact h e.1 p hp

theorem ofDocument?_fields (d m : Document) :
    ofDocument? (.obj [("domains", d), ("domainMetadata", m)]) = (do
      let domains ← d.byOrigin? Domain.ofDocument?
      let metadata ← m.byOrigin? SiteMetadata.ofDocument?
      pure ⟨domains, metadata⟩) := rfl

theorem depth_json (s : State) :
    s.json.depth = max (s.domains.jsonByOrigin Domain.json).depth
      (s.metadata.jsonByOrigin SiteMetadata.json).depth + 1 := by
  simp [json, Json.depth, Json.depthFields]

/-- A state is decoded from what it writes, unless that is nested too deep. -/
theorem decodes {s : State} (h : s.EveryCaveat Caveat.Canonical) :
    Document.Decodes ofDocument? json s := by
  refine .of_level s.depth_json rfl fun room => ?_
  have hdomains := Document.decodes_byOrigin
    (fun e (he : e ∈ s.domains.entries) => Domain.decodes (h.entries he)) room
  have hmetadata := Document.decodes_byOrigin
    (fun e (_ : e ∈ s.metadata.entries) => SiteMetadata.decodes e.2) room
  have hfields : s.json.documentWithin (room + 1) =
      .obj [("domains", (s.domains.jsonByOrigin Domain.json).documentWithin room),
        ("domainMetadata", (s.metadata.jsonByOrigin SiteMetadata.json).documentWithin room)] := by
    rw [json, Json.documentWithin_obj_succ]
    rfl
  rw [hfields, ofDocument?_fields, hdomains, hmetadata]
  simp only [Nat.max_le]
  by_cases hd : (s.domains.jsonByOrigin Domain.json).depth ≤ room <;>
    by_cases hm : (s.metadata.jsonByOrigin SiteMetadata.json).depth ≤ room <;> simp [hd, hm]

end State

/-! ## What is decoded -/

theorem Caveat.withinLimits_ofContent? {d : Document} {room : Nat} (h : d.Within room)
    {kind : Kind} {c : Caveat} (hc : ofContent? d kind = some c) : c.content.WithinLimits room := by
  cases kind with
  | accounts =>
    obtain ⟨allowed, hallowed, rfl⟩ := Option.map_eq_some_iff.1 hc
    have hroom := (Document.within_list? h hallowed).1
    refine Json.withinLimits_arr hroom fun x hx => ?_
    obtain ⟨a, -, rfl⟩ := List.mem_map.1 hx
    exact ⟨trivial, trivial, Nat.zero_le _⟩
  | forceParams =>
    obtain ⟨params, hparams, rfl⟩ := Option.map_eq_some_iff.1 hc
    exact Document.withinLimits_value? h hparams
  | requireSubset =>
    cases d with
    | obj fields =>
      obtain ⟨allowed, hallowed, rfl⟩ := Option.map_eq_some_iff.1 hc
      unfold Document.valueFields? at hallowed
      split at hallowed
      · rename_i hvalue
        cases hallowed
        exact Document.withinLimits_value? h hvalue
      · cases hallowed
    | _ => cases hc
  | limitLength =>
    obtain ⟨limit, -, rfl⟩ := Option.map_eq_some_iff.1 hc
    have hlimit : (limit.toNat : Int) < 2 ^ 64 := Int.ofNat_lt.2 limit.toNat_lt
    have hsign : (0 : Int) ≤ limit.toNat := Int.natCast_nonneg _
    exact ⟨trivial, ⟨by omega, hlimit⟩, Nat.zero_le _⟩

theorem Caveat.withinLimits_ofDocument? {d : Document} {room : Nat} (h : d.Within room)
    {c : Caveat} (hc : ofDocument? d = some c) :
    0 < room ∧ c.content.WithinLimits (room - 1) := by
  unfold ofDocument? at hc
  obtain ⟨r, hr, hc⟩ := Option.bind_eq_some_iff.1 hc
  obtain ⟨hroom, hfields⟩ := Shape.within_read? h hr
  obtain ⟨kind, -, hc⟩ := Option.bind_eq_some_iff.1 hc
  refine ⟨hroom, ?_⟩
  split at hc
  · -- A value before its kind is decoded from what was set aside.
    rename_i content rest
    obtain ⟨kept, hkept, hc⟩ := Option.bind_eq_some_iff.1 hc
    have hcontent := hfields _ List.mem_cons_self
    exact withinLimits_ofContent? (Document.within_setAside? hcontent hkept) hc
  · obtain ⟨content, hcontent, hread⟩ := Record.within_required? hfields hc
    exact withinLimits_ofContent? hcontent hread

/-- Every caveat that is decoded is proper, and nested no deeper than its document. -/
theorem Caveat.proper_ofDocument? {d : Document} {room : Nat} (h : d.Within room) {c : Caveat}
    (hc : ofDocument? d = some c) : c.Proper ∧ c.json.depth ≤ room := by
  obtain ⟨hroom, hlimits⟩ := withinLimits_ofDocument? h hc
  refine ⟨⟨hlimits.canonical, hlimits.integers⟩, ?_⟩
  have hcontent := hlimits.depth
  rw [depth_json]
  omega

theorem Json.depth_arr_map_le {α : Type} {toJson : α → Json} {as : List α} {n : Nat}
    (h : ∀ a ∈ as, (toJson a).depth ≤ n) : (arr (as.map toJson)).depth ≤ n + 1 := by
  refine Nat.succ_le_succ (depthItems_le_iff.2 fun x hx => ?_)
  obtain ⟨a, ha, rfl⟩ := List.mem_map.1 hx
  exact h a ha

theorem SortedMap.depth_jsonByOrigin_le {α : Type} {toJson : α → Json} {m : SortedMap Origin α}
    {n : Nat} (h : ∀ e ∈ m.entries, (toJson e.2).depth ≤ n) :
    (m.jsonByOrigin toJson).depth ≤ n + 1 := by
  refine Nat.succ_le_succ (Json.depthFields_le_iff.2 fun f hf => ?_)
  obtain ⟨e, he, rfl⟩ := List.mem_map.1 hf
  exact h e he

/-- A permission without caveats may lack the field that a written one has. -/
theorem Permission.proper_ofDocument? {d : Document} {room : Nat} (h : d.Within room)
    {p : Permission} (hp : ofDocument? d = some p) :
    (∀ c ∈ p.caveats, c.Proper) ∧ p.json.depth ≤ max room 2 := by
  simp only [ofDocument?, Option.bind_eq_bind, Option.bind_eq_some_iff] at hp
  obtain ⟨r, hr, id, -, capability, -, invoker, -, caveats, hcaveats, date, -, hp⟩ := hp
  cases hp
  obtain ⟨hroom, hfields⟩ := Shape.within_read? h hr
  rcases Record.within_orDefault? hfields hcaveats with rfl | ⟨list, hlist, hread⟩
  · refine ⟨fun c hc => absurd hc List.not_mem_nil, ?_⟩
    rw [depth_json]
    exact Nat.le_max_right _ _
  · obtain ⟨hroom', hall⟩ := Document.within_list? hlist hread
    have heach : ∀ c ∈ caveats, c.Proper ∧ c.json.depth ≤ room - 2 := by
      intro c hc
      obtain ⟨x, hx, hxc⟩ := hall c hc
      exact Caveat.proper_ofDocument? hx hxc
    have hdepth := Json.depth_arr_map_le fun c hc => (heach c hc).2
    refine ⟨fun c hc => (heach c hc).1, ?_⟩
    rw [depth_json]
    simp only
    omega

theorem Domain.proper_ofDocument? {d : Document} {room : Nat} (h : d.Within room)
    {domain : Domain} (hdomain : ofDocument? d = some domain) :
    (∀ p ∈ domain.permissions, ∀ c ∈ p.caveats, c.Proper) ∧ domain.json.depth ≤ max room 4 := by
  simp only [ofDocument?, Option.bind_eq_bind, Option.bind_eq_some_iff] at hdomain
  obtain ⟨r, hr, permissions, hpermissions, hdomain⟩ := hdomain
  cases hdomain
  obtain ⟨hroom, hfields⟩ := Shape.within_read? h hr
  obtain ⟨list, hlist, hread⟩ := Record.within_required? hfields hpermissions
  obtain ⟨hroom', hall⟩ := Document.within_list? hlist hread
  have heach : ∀ p ∈ permissions, (∀ c ∈ p.caveats, c.Proper) ∧ p.json.depth ≤ max (room - 2) 2 := by
    intro p hp
    obtain ⟨x, hx, hxp⟩ := hall p hp
    exact Permission.proper_ofDocument? hx hxp
  have hdepth := Json.depth_arr_map_le fun p hp => (heach p hp).2
  refine ⟨fun p hp => (heach p hp).1, ?_⟩
  rw [depth_json]
  simp only
  omega

theorem Document.within_byOrigin? {α : Type} {read? : Document → Option α} {d : Document}
    {room : Nat} (h : d.Within room) {m : SortedMap Origin α} (hm : d.byOrigin? read? = some m) :
    0 < room ∧ ∀ e ∈ m.entries, ∃ x : Document, x.Within (room - 1) ∧ read? x = some e.2 := by
  obtain ⟨entries, hentries, rfl⟩ := Option.map_eq_some_iff.1 hm
  obtain ⟨hroom, hall⟩ := within_entries? h hentries
  refine ⟨hroom, fun e he => ?_⟩
  obtain ⟨f, hf, rfl⟩ := List.mem_map.1 (SortedMap.mem_of_mem_ofList he)
  exact hall f hf

/-- Every caveat of a state that is decoded is proper, and the state is nested no deeper than its
document, or than a state without free values is. -/
theorem State.proper_ofDocument? {d : Document} {room : Nat} (h : d.Within room) {s : State}
    (hs : ofDocument? d = some s) : s.EveryCaveat Caveat.Proper ∧ s.json.depth ≤ max room 6 := by
  simp only [ofDocument?, Option.bind_eq_bind, Option.bind_eq_some_iff] at hs
  obtain ⟨r, hr, domains, hdomains, metadata, hmetadata, hs⟩ := hs
  cases hs
  obtain ⟨hroom, hfields⟩ := Shape.within_read? h hr
  have hsites : (metadata.jsonByOrigin SiteMetadata.json).depth ≤ 2 :=
    SortedMap.depth_jsonByOrigin_le fun e _ => Nat.le_of_eq (SiteMetadata.depth_json e.2)
  have heach : ∀ e ∈ domains.entries, (∀ p ∈ e.2.permissions, ∀ c ∈ p.caveats, c.Proper) ∧
      e.2.json.depth ≤ max (room - 2) 4 := by
    rcases Record.within_orDefault? hfields hdomains with rfl | ⟨table, htable, hread⟩
    · exact fun e he => absurd he List.not_mem_nil
    · intro e he
      obtain ⟨x, hx, hxe⟩ := (Document.within_byOrigin? htable hread).2 e he
      exact Domain.proper_ofDocument? hx hxe
  have hdepth := SortedMap.depth_jsonByOrigin_le fun e he => (heach e he).2
  constructor
  · intro o p hp
    unfold State.permissions at hp
    split at hp
    · rename_i domain hfind
      exact (heach _ (SortedMap.find?_eq_some_iff.1 hfind)).1 p hp
    · exact absurd hp List.not_mem_nil
  · rw [depth_json]
    simp only
    omega

/-! ## Requests -/

namespace RequestedPermissions

/-- Every caveat that is asked for, or approved, satisfies a condition. -/
def EveryCaveat (P : Caveat → Prop) (ps : RequestedPermissions) : Prop :=
  ∀ e ∈ ps.entries, ∀ c ∈ e.2.caveats, P c

/-- Every caveat of a request that is decoded is proper. -/
theorem proper_ofDocument? {d : Document} {room : Nat} (h : d.Within room)
    {ps : RequestedPermissions} (hps : ofDocument? d = some ps) : EveryCaveat Caveat.Proper ps := by
  obtain ⟨entries, hentries, rfl⟩ := Option.map_eq_some_iff.1 hps
  intro e he c hc
  obtain ⟨x, hx, hxe⟩ :=
    (Document.within_entries? h hentries).2 e (SortedMap.mem_of_mem_ofList he)
  simp only [RequestedPermission.ofDocument?, Option.bind_eq_bind, Option.bind_eq_some_iff] at hxe
  obtain ⟨r, hr, caveats, hcaveats, hentry⟩ := hxe
  have hcaveats' : e.2.caveats = caveats :=
    (congrArg RequestedPermission.caveats (Option.some.inj hentry)).symm
  rw [hcaveats'] at hc
  rcases Record.within_orDefault? (Shape.within_read? hx hr).2 hcaveats with
    rfl | ⟨list, hlist, hread⟩
  · exact absurd hc List.not_mem_nil
  · obtain ⟨y, hy, hyc⟩ := (Document.within_list? hlist hread).2 c hc
    exact (Caveat.proper_ofDocument? hy hyc).1

end RequestedPermissions

end OriginGate
