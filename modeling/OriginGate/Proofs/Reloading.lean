import OriginGate.Proofs.Decoding
import OriginGate.Proofs.Shape

/-!
# What a file gives back

* `Caveat.Faithful` : a proper caveat whose doubles are read as they were written;
* `FileBackend.parse_format` : the text of a state whose caveats are faithful is read as the state,
  unless it is nested deeper than the reader goes;
* `Store.Puts` : a store changes by nothing but puts; `Served.puts`, `System.puts_carryOut`,
  `Approving.Finished.puts` : so do the steps of a session, apart from changes of the file from
  outside;
* `Store.Kept` : what is persisted is what is visible;
* `Session.reload_run` : what a new store on the file holds after any run.

A value in a caveat stands one level deeper in the state than in the call that asks for it, so the
state of an approved request can be nested deeper than any text that is read.
-/

namespace OriginGate

/-! ## The text of a state -/

namespace Json

mutual

theorem leaves_and {P Q : Json → Prop} : (j : Json) → j.Leaves P → j.Leaves Q →
    j.Leaves fun x => P x ∧ Q x
  | arr items, hp, hq => leavesItems_and items hp hq
  | obj fields, hp, hq => leavesFields_and fields hp hq
  | null, hp, hq => ⟨hp, hq⟩
  | bool _, hp, hq => ⟨hp, hq⟩
  | int _, hp, hq => ⟨hp, hq⟩
  | double _, hp, hq => ⟨hp, hq⟩
  | str _, hp, hq => ⟨hp, hq⟩

theorem leavesItems_and {P Q : Json → Prop} : (items : List Json) → LeavesItems P items →
    LeavesItems Q items → LeavesItems (fun x => P x ∧ Q x) items
  | [], _, _ => trivial
  | x :: xs, hp, hq => ⟨leaves_and x hp.1 hq.1, leavesItems_and xs hp.2 hq.2⟩

theorem leavesFields_and {P Q : Json → Prop} : (fields : List (String × Json)) →
    LeavesFields P fields → LeavesFields Q fields → LeavesFields (fun x => P x ∧ Q x) fields
  | [], _, _ => trivial
  | (_, x) :: fs, hp, hq => ⟨leaves_and x hp.1 hq.1, leavesFields_and fs hp.2 hq.2⟩

end

theorem printable_str (s : String) : (str s).Printable := ⟨trivial, trivial⟩

theorem printable_arr_map {α : Type} {toJson : α → Json} {as : List α}
    (h : ∀ a ∈ as, (toJson a).Printable) : (arr (as.map toJson)).Printable := by
  refine leavesItems_iff.2 fun x hx => ?_
  obtain ⟨a, ha, rfl⟩ := List.mem_map.1 hx
  exact h a ha

end Json

theorem SortedMap.printable_jsonByOrigin {α : Type} {toJson : α → Json} {m : SortedMap Origin α}
    (h : ∀ e ∈ m.entries, (toJson e.2).Printable) : (m.jsonByOrigin toJson).Printable := by
  refine Json.leavesFields_iff.2 fun f hf => ?_
  obtain ⟨e, he, rfl⟩ := List.mem_map.1 hf
  exact h e he

namespace Caveat

/-- The doubles in the value of a caveat are read as they were written. -/
def DoublesReadBack (c : Caveat) : Prop := c.content.Leaves Json.DoubleReadsBack

/-- The value of a caveat is one that can be read, and is read as it was written. -/
structure Faithful (c : Caveat) : Prop where
  proper : c.Proper
  doubles : c.DoublesReadBack

theorem faithful_accounts (allowed : List Account) : (accounts allowed).Faithful := by
  have hleaves : ∀ {P : Json → Prop}, (∀ s, P (.str s)) → (accounts allowed).content.Leaves P := by
    intro P hstr
    refine Json.leavesItems_iff.2 fun x hx => ?_
    obtain ⟨a, -, rfl⟩ := List.mem_map.1 hx
    exact hstr _
  have hcanonical : (accounts allowed).Canonical := by
    refine Json.canonicalItems_iff.2 fun x hx => ?_
    obtain ⟨a, -, rfl⟩ := List.mem_map.1 hx
    trivial
  exact ⟨⟨hcanonical, hleaves fun _ => trivial⟩, hleaves fun _ => trivial⟩

theorem Faithful.printable {c : Caveat} (h : c.Faithful) : c.json.Printable :=
  ⟨Json.printable_str _, Json.leaves_and _ h.proper.integers h.doubles, trivial⟩

/-- Only the value of an accounts caveat is outlined, and its items are strings. -/
theorem fits_outline (c : Caveat) : outline.Fits c.json := by
  refine .tagged ?_
  cases c with
  | accounts allowed =>
    refine .list fun x hx => ?_
    obtain ⟨a, -, rfl⟩ := List.mem_map.1 hx
    exact .str _ _
  | forceParams params => exact .any _
  | requireSubset allowed => exact .any _
  | limitLength limit => exact .any _

end Caveat

namespace Permission

theorem printable_json {p : Permission} (h : ∀ c ∈ p.caveats, c.Faithful) :
    p.json.Printable := by
  have hdate : (Json.int p.date.toInt).Printable := by
    have low : -2 ^ 63 ≤ p.date.toInt := p.date.le_toInt
    have high : p.date.toInt < 2 ^ 63 := p.date.toInt_lt
    exact ⟨⟨low, by omega⟩, trivial⟩
  exact ⟨Json.printable_str _, Json.printable_str _, Json.printable_str _,
    Json.printable_arr_map fun c hc => (h c hc).printable, hdate, trivial⟩

theorem fits_outline (p : Permission) : outline.Fits p.json := by
  have hcaveats : (Outline.list Caveat.outline).Fits (.arr (p.caveats.map Caveat.json)) := by
    refine .list fun x hx => ?_
    obtain ⟨c, -, rfl⟩ := List.mem_map.1 hx
    exact c.fits_outline
  refine .record fun f hf => ?_
  simp only [List.mem_cons, List.not_mem_nil, or_false] at hf
  rcases hf with rfl | rfl | rfl | rfl | rfl
  · exact .any _
  · exact .any _
  · exact .any _
  · exact hcaveats
  · exact .any _

end Permission

namespace Domain

theorem printable_json {d : Domain} (h : ∀ p ∈ d.permissions, ∀ c ∈ p.caveats, c.Faithful) :
    d.json.Printable :=
  ⟨Json.printable_arr_map fun p hp => Permission.printable_json (h p hp), trivial⟩

theorem fits_outline (d : Domain) : outline.Fits d.json := by
  have hpermissions :
      (Outline.list Permission.outline).Fits (.arr (d.permissions.map Permission.json)) := by
    refine .list fun x hx => ?_
    obtain ⟨p, -, rfl⟩ := List.mem_map.1 hx
    exact p.fits_outline
  refine .record fun f hf => ?_
  obtain rfl := List.mem_singleton.1 hf
  exact hpermissions

end Domain

theorem SiteMetadata.printable_json (m : SiteMetadata) : m.json.Printable := by
  obtain ⟨name, _ | id⟩ := m
  · exact ⟨Json.printable_str _, trivial⟩
  · exact ⟨Json.printable_str _, Json.printable_str _, trivial⟩

namespace State

theorem printable_json {s : State} (h : s.EveryCaveat Caveat.Faithful) : s.json.Printable := by
  have hdomains : (s.domains.jsonByOrigin Domain.json).Printable :=
    SortedMap.printable_jsonByOrigin fun e he => Domain.printable_json (h.entries he)
  have hmetadata : (s.metadata.jsonByOrigin SiteMetadata.json).Printable :=
    SortedMap.printable_jsonByOrigin fun e _ => SiteMetadata.printable_json e.2
  exact ⟨hdomains, hmetadata, trivial⟩

theorem fits_outline (s : State) : outline.Fits s.json := by
  have hdomains : (Outline.table Domain.outline).Fits (s.domains.jsonByOrigin Domain.json) := by
    refine .table fun f hf => ?_
    obtain ⟨e, -, rfl⟩ := List.mem_map.1 hf
    exact e.2.fits_outline
  refine .record fun f hf => ?_
  simp only [List.mem_cons, List.not_mem_nil, or_false] at hf
  rcases hf with rfl | rfl
  · exact hdomains
  · exact .any _

end State

/-- The text of a state is read as the state, unless it is nested deeper than the reader goes. -/
theorem FileBackend.parse_format {s : State} (h : s.EveryCaveat Caveat.Faithful) :
    parse (format s) =
      if s.json.depth ≤ Document.nestingLimit then .ok s
      else .error (.malformed "not a permissions state") := by
  have hread := Document.read?_pretty (State.printable_json h) s.fits_outline
  have hdecode := State.decodes (fun o p hp c hc => (h o p hp c hc).proper.canonical)
    Document.nestingLimit
  by_cases hdepth : s.json.depth ≤ Document.nestingLimit
  · rw [if_pos hdepth] at hdecode ⊢
    simp only [parse, format, hread, Option.bind_some, hdecode]
  · rw [if_neg hdepth] at hdecode ⊢
    simp only [parse, format, hread, Option.bind_some, hdecode]

/-! ## Stores -/

namespace Store

/-- A store after some puts, or none. -/
inductive Puts (s : Store) : Store → Prop where
  | refl : Puts s s
  | put {t : Store} (h : Puts s t) (next : State) : Puts s (t.put next).1

theorem Puts.trans {s t u : Store} (h₁ : Puts s t) (h₂ : Puts t u) : Puts s u := by
  induction h₂ with
  | refl => exact h₁
  | put _ next ih => exact ih.put next

theorem Puts.single (next : State) (s : Store) : Puts s (s.put next).1 := .put .refl next

/-- A store on a file that can be written: it is as it was loaded, or the file has the text of the
visible state. -/
inductive Kept (loaded : Store) : Store → Prop where
  | asLoaded {b : FileBackend} (file : loaded.backend = .file b) (free : b.entry ≠ .directory) :
    Kept loaded loaded
  | written (s : State) : Kept loaded ⟨s, .file ⟨.text (FileBackend.format s), false⟩⟩

variable {loaded s t : Store}

theorem Kept.exists_file (h : Kept loaded s) :
    ∃ b, s.backend = .file b ∧ b.entry ≠ .directory := by
  cases h with
  | asLoaded file free => exact ⟨_, file, free⟩
  | written s => exact ⟨_, rfl, nofun⟩

theorem persist_free {b : FileBackend} (free : b.entry ≠ .directory) (next : State) :
    (Backend.file b).persist next = (.file ⟨.text (FileBackend.format next), false⟩, .ok ()) := by
  have hpersist : b.persist next = (⟨.text (FileBackend.format next), false⟩, .ok ()) := by
    unfold FileBackend.persist
    split
    · rename_i hdirectory
      exact absurd hdirectory free
    · rfl
  rw [Backend.persist, hpersist]

/-- A write succeeds, since no directory is in the place of the file. -/
theorem Kept.put (h : Kept loaded s) (next : State) : Kept loaded (s.put next).1 := by
  obtain ⟨b, file, free⟩ := h.exists_file
  have hpersist := persist_free free next
  rw [← file] at hpersist
  have htaken := taken_put next s
  generalize (s.put next).1 = t, (s.put next).2 = r at htaken
  cases htaken with
  | shown _ => exact h
  | written hwritten =>
    rw [hpersist] at hwritten
    cases hwritten
    exact .written next
  | failed hfailed =>
    rw [hpersist] at hfailed
    cases hfailed

theorem Kept.puts (h : Kept loaded s) (hputs : Puts s t) : Kept loaded t := by
  induction hputs with
  | refl => exact h
  | put _ next ih => exact ih.put next

/-- The state that a file gives is nested no deeper than the reader goes, and its caveats are
proper. -/
theorem proper_load {b : FileBackend} (h : load (.file b) = .ok s) :
    s.backend = .file b ∧ b.entry ≠ .directory ∧ s.state.EveryCaveat Caveat.Proper ∧
      s.state.json.depth ≤ Document.nestingLimit := by
  rw [load, Backend.load, FileBackend.load] at h
  cases hentry : b.entry with
  | missing =>
    rw [hentry] at h
    cases h
    have hempty : State.empty.json.depth ≤ Document.nestingLimit := by decide
    exact ⟨rfl, nofun, fun o p hp => absurd hp List.not_mem_nil, hempty⟩
  | directory =>
    rw [hentry] at h
    cases h
  | text content =>
    rw [hentry] at h
    simp only [FileBackend.parse] at h
    cases hstate : (Document.read? State.outline content).bind State.ofDocument? with
    | none =>
      rw [hstate] at h
      cases h
    | some state =>
      rw [hstate] at h
      cases h
      obtain ⟨d, hd, hread⟩ := Option.bind_eq_some_iff.1 hstate
      obtain ⟨hproper, hdepth⟩ := State.proper_ofDocument? (Document.within_read? hd) hread
      exact ⟨rfl, nofun, hproper, hdepth⟩

/-- A store that kept its state is loaded as it is, unless the state is nested too deep. -/
theorem Kept.load (h : Kept loaded s) (opened : Store.load loaded.backend = .ok loaded)
    (shallow : loaded.state.json.depth ≤ Document.nestingLimit)
    (faithful : s.state.EveryCaveat Caveat.Faithful) :
    Store.load s.backend =
      if s.state.json.depth ≤ Document.nestingLimit then .ok s
      else .error (.malformed "not a permissions state") := by
  cases h with
  | asLoaded _ _ => rw [opened, if_pos shallow]
  | written state =>
    have hparse := FileBackend.parse_format faithful
    simp only [Store.load, Backend.load, FileBackend.load] at hparse ⊢
    rw [hparse]
    by_cases hdepth : state.json.depth ≤ Document.nestingLimit
    · rw [if_pos hdepth, if_pos hdepth]
      rfl
    · rw [if_neg hdepth, if_neg hdepth]
      rfl

end Store

/-! ## Steps -/

namespace System

theorem Served.puts {o : Origin} {may : Gate → Rpc.MethodCall → Prop} {s t : System}
    {as : List Awaiting} (h : Served o may s t as) : s.store.Puts t.store := by
  cases h with
  | registered _ h =>
    obtain ⟨-, -, -, rfl⟩ := register_ok h
    exact .refl
  | recorded m => exact .single _ _
  | _ => exact .refl

theorem ServedAll.puts {o : Origin} {may : Gate → Rpc.MethodCall → Prop} {s t : System}
    {as : List Awaiting} (h : ServedAll o may s t as) : s.store.Puts t.store := by
  induction h with
  | nil s => exact .refl
  | cons first _ ih => exact first.puts.trans ih

theorem puts_resolve (id : RequestId) (d : Decision) (s : System) :
    s.store.Puts (s.resolve id d).1.store := by
  rcases h : s.gate.pending.lookUp? id with _ | e
  · rw [resolve_absent d h]
    exact .refl
  · rw [resolve_found d h]
    exact .refl

theorem puts_carryOut (c : Command) (s : System) : s.store.Puts (c.carryOut s).1.store := by
  cases c with
  | reject id reason => exact puts_resolve id _ s
  | rejectOrigin o =>
    rcases rejectOrigin_fst o none s with h | ⟨id, -, h⟩
    · rw [Command.carryOut, h]
      exact .refl
    · rw [Command.carryOut, h]
      exact puts_resolve id _ s
  | recordMetadata o report extensionId =>
    simp only [Command.carryOut, recordMetadata]
    split
    · exact .refl
    · exact .single _ _
  | revoke o methods => exact .single _ _
  | clear => exact .single _ _
  | logUsage o e => exact .refl

end System

theorem Approving.Finished.puts {a : Approving} {s t : System} {d : Decision}
    (h : a.Finished s t d) : s.store.Puts t.store := by
  have hgrant : ∀ {granted : List Permission} {store : Store} {r : Except StoreError Unit},
      s.store.grant a.origin granted = (store, r) → s.store.Puts store := by
    intro granted store r hstored
    have hput : store = (s.store.put (s.gate.state.grant a.origin granted)).1 :=
      (congrArg Prod.fst hstored).symm
    rw [hput]
    exact .single _ _
  cases h with
  | late _ _ => exact .refl
  | invalid _ _ => exact .refl
  | unstored _ _ stored _ => exact hgrant stored
  | granted _ _ _ stored _ => exact hgrant stored

namespace Session

variable {s : Session} {loaded : Store}

theorem kept_after (hs : s.Undivided) (h : loaded.Kept s.system.store) {a : Action}
    (undisturbed : ∀ change, a ≠ .event (.file change)) :
    loaded.Kept (s.after a).system.store := by
  have hchanged := changed_step hs a
  generalize (s.after a).system = t at hchanged
  cases hchanged with
  | same => exact h
  | served _ _ hserved => exact h.puts hserved.puts
  | approved _ _ hfinished => exact h.puts hfinished.puts
  | abandoned _ _ =>
    rw [abandonAll_eq]
    exact h
  | commanded _ _ => exact h.puts (System.puts_carryOut _ _)
  | @happened e given =>
    cases e with
    | file change => exact absurd given (undisturbed change)
    | readOnly value =>
      -- A file does not know of being read-only.
      obtain ⟨b, file, -⟩ := h.exists_file
      have hbackend : s.world.backend.setReadOnly value = s.world.backend := by
        rw [show s.world.backend = .file b from file]
        rfl
      have hstore : System.store ⟨s.gate, (Event.readOnly value).change s.world⟩ =
          s.system.store := congrArg (Store.mk s.gate.state) hbackend
      rw [hstore]
      exact h
    | _ => exact h

/-! ## Runs -/

/-- The caveats of what is granted are those that were approved, but for the accounts. -/
theorem mem_caveats {a : Approving} {method : String} {approved : RequestedPermission} {c : Caveat}
    (h : c ∈ a.caveats method approved) : c = .accounts a.accounts ∨ c ∈ approved.caveats := by
  unfold Approving.caveats at h
  split at h
  · rcases List.mem_cons.1 h with h | h
    · exact .inl h
    · exact .inr (List.mem_filter.1 h).1
  · exact .inr h

/-- What holds of the loaded caveats, of those that are approved and of all on accounts holds of
all that are in force. -/
theorem everyCaveat_run {P : Caveat → Prop} (accounts : ∀ allowed, P (.accounts allowed))
    (hs : s.Undivided) (none : s.waiting = []) (loaded : s.gate.state.EveryCaveat P)
    {actions : List Action}
    (approved : ∀ r accounts, .start (.approve r accounts) ∈ actions →
      RequestedPermissions.EveryCaveat P r.permissions) :
    (s.run actions).gate.state.EveryCaveat P := by
  intro o p hp c hc
  rcases written_run hs actions hp with hp | ⟨before, a, later, id, granted, rfl, h, hp⟩
  · exact loaded o p hp c hc
  · rcases h.ends (undivided_run hs before) with ⟨-, hd, -⟩ | ⟨n, approving, -, under, finished⟩
    · cases hd
    · obtain ⟨-, rfl⟩ := finished.valid
      obtain ⟨e, he, -, hcaveats⟩ := Approving.mem_drawn hp
      obtain ⟨early, late, r, hactions, -⟩ := began_approving hs none under
      have hmem : Action.start (.approve approving.approved approving.accounts) ∈
          before ++ a :: later := by
        have hmem : Action.start (.approve approving.approved approving.accounts) ∈
            before ++ [a] := by
          rw [hactions]
          exact List.mem_append_right _ List.mem_cons_self
        rw [← List.singleton_append, ← List.append_assoc]
        exact List.mem_append_left _ hmem
      rw [hcaveats] at hc
      rcases mem_caveats hc with rfl | hc
      · exact accounts _
      · exact approved _ _ hmem e he c hc

theorem kept_run (hs : s.Undivided) (h : loaded.Kept s.system.store) {actions : List Action}
    (undisturbed : ∀ change, .event (.file change) ∉ actions) :
    loaded.Kept (s.run actions).system.store := by
  induction actions using List.reverseRecOn with
  | nil => exact h
  | append_singleton before a ih =>
    have hbefore := ih fun change hmem => undisturbed change (List.mem_append_left _ hmem)
    rw [run_snoc]
    refine kept_after (undivided_run hs before) hbefore fun change heq => ?_
    exact undisturbed change (List.mem_append_right _ (heq ▸ List.mem_singleton_self _))

/-- In every run of a new session on a file, a new store on the file shows what the gate shows,
unless the state is nested deeper than the reader goes: then the file cannot be loaded. -/
theorem reload_run {settings : Settings} {w : World} {b : FileBackend}
    (created : create settings w = .ok s) (file : w.backend = .file b)
    (loaded : s.gate.state.EveryCaveat Caveat.DoublesReadBack) (actions : List Action)
    (approved : ∀ r accounts, .start (.approve r accounts) ∈ actions →
      RequestedPermissions.EveryCaveat Caveat.Faithful r.permissions)
    (undisturbed : ∀ change, .event (.file change) ∉ actions) :
    Store.load (s.run actions).world.backend =
      if (s.run actions).gate.state.json.depth ≤ Document.nestingLimit then
        .ok ⟨(s.run actions).gate.state, (s.run actions).world.backend⟩
      else .error (.malformed "not a permissions state") := by
  have hs := undivided_create created
  have hnone := waiting_create created
  obtain ⟨store, hload, rfl⟩ := create_eq created
  -- Since the file was loaded, it is no directory, and every later write succeeds.
  rw [file] at hload
  obtain ⟨hbackend, hfree, hproper, hshallow⟩ := Store.proper_load hload
  have hstore : System.store ⟨⟨settings.registry, settings.validateAccounts, store.state, .empty⟩,
      w⟩ = store := by
    rw [System.store, file, ← hbackend]
  have hkept : store.Kept (System.store
      ⟨⟨settings.registry, settings.validateAccounts, store.state, .empty⟩, w⟩) := by
    rw [hstore]
    exact .asLoaded hbackend hfree
  refine (kept_run hs hkept undisturbed).load ?_ hshallow ?_
  · rw [hbackend]
    exact hload
  · refine everyCaveat_run Caveat.faithful_accounts hs hnone ?_ approved
    intro o p hp c hc
    exact ⟨hproper o p hp c hc, loaded o p hp c hc⟩

/-! ### A value that is nested too deep -/

/-- A null in so many arrays. -/
def nested : Nat → Json
  | 0 => .null
  | n + 1 => .arr [nested n]

theorem canonical_nested : (n : Nat) → (nested n).Canonical
  | 0 => trivial
  | n + 1 => ⟨canonical_nested n, trivial⟩

theorem leaves_nested {P : Json → Prop} (h : P .null) : (n : Nat) → (nested n).Leaves P
  | 0 => h
  | n + 1 => ⟨leaves_nested h n, trivial⟩

theorem faithful_nested (n : Nat) : (Caveat.forceParams (nested n)).Faithful :=
  ⟨⟨canonical_nested n, leaves_nested trivial n⟩, leaves_nested trivial n⟩

/-- The call by which a site asks that it may sign with a value, and with no other parameters. -/
def asking (value : Json) : Json :=
  .obj [("jsonrpc", .str "2.0"), ("method", .str "wallet_requestPermissions"),
    ("params", .arr [.obj [("eth_sign",
      .obj [("caveats", .arr [(Caveat.forceParams value).json])])]]),
    ("id", .int 1)]

theorem printable_asking {value : Json} (h : value.Printable) : (asking value).Printable := by
  have hcaveat : (Caveat.forceParams value).json.Printable :=
    ⟨Json.printable_str _, h, trivial⟩
  have hparams : (Json.arr [.obj [("eth_sign",
      .obj [("caveats", .arr [(Caveat.forceParams value).json])])]]).Printable :=
    ⟨⟨⟨⟨hcaveat, trivial⟩, trivial⟩, trivial⟩, trivial⟩
  exact ⟨Json.printable_str _, Json.printable_str _, hparams, ⟨⟨by decide, by decide⟩, trivial⟩, trivial⟩

/-- A world with a file that does not exist yet. -/
def onFile : World := { World.initial [] with backend := .file .empty }

set_option maxRecDepth 100000 in
/-- A site asks for a permission in a text of 127 levels, and is granted what it asks for. The state
has a level more and is persisted, but it cannot be loaded. -/
theorem reload_run_nested :
    ∃ s request asked actions, create .signing onFile = .ok s ∧
      (Document.read? .any (asking (nested 121)).pretty).bind Rpc.Request.ofDocument? =
        some request ∧
      (s.after (.start (.request ⟨⟨"site"⟩, none⟩ request))).gate.pending.find? ⟨⟨0⟩⟩ =
        some asked ∧
      actions = [.start (.request ⟨⟨"site"⟩, none⟩ request),
        .start (.approve ⟨⟨⟨0⟩⟩, asked.permissions⟩ [])] ∧
      (s.run actions).gate.state.json.depth = 128 ∧
      Store.load (s.run actions).world.backend = .error (.malformed "not a permissions state") := by
  let s : Session := ⟨.signing, onFile, ⟨Settings.signing.registry, true, .empty, .empty⟩, 0, [],
    [], 0, []⟩
  let permissions : RequestedPermissions := .insert "eth_sign" ⟨[.forceParams (nested 121)]⟩ .empty
  let request : Rpc.Request := .single (.method ⟨.v2, "wallet_requestPermissions",
    .array [.obj [("eth_sign", .obj [("caveats",
      .arr [(Caveat.forceParams (nested 121)).json])])]], .number 1⟩)
  let actions : List Action := [.start (.request ⟨⟨"site"⟩, none⟩ request),
    .start (.approve ⟨⟨⟨0⟩⟩, permissions⟩ [])]
  have created : create .signing onFile = .ok s := rfl
  have hread : Document.read? .any (asking (nested 121)).pretty =
      some (asking (nested 121)).document := by
    rw [Document.read?_pretty (printable_asking (leaves_nested ⟨trivial, trivial⟩ _)) (.any _),
      Json.documentWithin_of_depth]
    decide
  have approved : ∀ r accounts, .start (.approve r accounts) ∈ actions →
      RequestedPermissions.EveryCaveat Caveat.Faithful r.permissions := by
    intro r accounts hr
    simp only [actions, List.mem_cons, List.not_mem_nil, or_false, Action.start.injEq,
      reduceCtorEq, false_or, Operation.approve.injEq] at hr
    obtain ⟨rfl, rfl⟩ := hr
    intro e he c hc
    obtain rfl := List.mem_singleton.1 he
    obtain rfl := List.mem_singleton.1 hc
    exact faithful_nested 121
  have undisturbed : ∀ change, .event (.file change) ∉ actions := by simp [actions]
  have hdepth : (s.run actions).gate.state.json.depth = 128 := by decide +kernel
  have hreload := reload_run created rfl (fun o p hp => absurd hp List.not_mem_nil) actions approved
    undisturbed
  refine ⟨s, request, ⟨⟨⟨0⟩⟩, ⟨"site"⟩, permissions, none⟩, actions, ?_, ?_, ?_, ?_, ?_, ?_⟩
  · exact created
  · rw [hread]
    rfl
  · rfl
  · rfl
  · exact hdepth
  · rw [hreload, hdepth]
    exact if_neg (by decide)

end Session

end OriginGate
