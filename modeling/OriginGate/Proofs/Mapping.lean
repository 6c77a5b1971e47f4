import OriginGate.Proofs.Agreement
import OriginGate.Proofs.Documents
import OriginGate.Proofs.Mirroring
import OriginGate.Proofs.Separation

/-!
# The store as a map from origins and methods to permissions

* `Store.Taken.beq` : what a store shows after it took a state equals that state;
* `Store.permissions_revoke` : a revocation that succeeds keeps exactly the permissions for other
  methods;
* `Mutation.origin?` : the origin of a mutation; `Mutation.agrees`, `Mutation.spares` : what a
  mutation does depends on what the store holds for its origin, and it leaves what it holds for
  others;
* `Mutation.commutes` : so mutations of different origins may change places;
* `Store.Maps` : what the mutations of a store do to the permissions (`Store.maps`).

A store that shows an equal state already keeps it, so that a grant may leave permissions that only
equal those granted. Of a list that holds several permissions for a method the first counts.
-/

namespace OriginGate

/-! ## Permissions after a mutation -/

theorem State.permission?_congr {s t : State} (h : t.domains = s.domains) (o : Origin)
    (method : String) : t.permission? o method = s.permission? o method := by
  rw [permission?, permission?, permissions, permissions, h]

namespace Store

variable {s t : Store} {next : State}

theorem Taken.beq (h : Taken next s t (.ok ())) : (next == t.state) = true := by
  rcases h.state_of_ok with hstate | ⟨hsame, hstate⟩
  · rw [hstate]
    exact BEq.rfl
  · rw [hstate]
    exact hsame

theorem taken_of_put {r : Except StoreError Unit} (h : s.put next = (t, r)) : Taken next s t r := by
  have htaken := taken_put next s
  rwa [h] at htaken

theorem refusal_put (next : State) (s : Store) :
    (s.put next).1.backend.refusal? = s.backend.refusal? := by
  obtain ⟨b, hb, hpersist⟩ := s.backend.persist_eq next
  have htaken := taken_put next s
  generalize (s.put next).1 = t, (s.put next).2 = r at htaken
  cases htaken with
  | shown same => rfl
  | written h =>
    rw [hpersist] at h
    rw [← (Prod.mk.inj h).1]
    exact hb
  | failed h =>
    rw [hpersist] at h
    rw [← (Prod.mk.inj h).1]
    exact hb

theorem taken_revoke {o : Origin} {methods : List String} {taken : List Permission}
    (h : s.revoke o methods = (t, .ok taken)) :
    taken = s.state.revoked o methods ∧ Taken (s.state.revoke o methods) s t (.ok ()) := by
  rcases hput : s.put (s.state.revoke o methods) with ⟨u, e | _⟩
  · simp only [revoke, hput] at h
    cases h
  · simp only [revoke, hput] at h
    cases h
    exact ⟨rfl, taken_of_put hput⟩

/-- A revocation that succeeds keeps the permissions for other methods. If the store showed an equal
state already, there was none to give back. -/
theorem permissions_revoke {o : Origin} {methods : List String}
    (h : Taken (s.state.revoke o methods) s t (.ok ())) :
    t.state.permissions o = (s.state.permissions o).filter (·.capability ∉ methods) := by
  have hkept := State.permissions_revoke o o methods s.state
  rw [if_pos rfl] at hkept
  rcases h.state_of_ok with hstate | ⟨hsame, hstate⟩
  · rw [hstate, hkept]
  · have hlength := List.length_eq_of_beq (State.permissions_beq hsame o)
    rw [hkept] at hlength
    rw [hstate, List.filter_sublist.eq_of_length hlength]

theorem domains_clear (h : Taken s.state.clear s t (.ok ())) : t.state.domains = .empty := by
  rcases h.state_of_ok with hstate | ⟨hsame, hstate⟩
  · rw [hstate]
    rfl
  · have hlength : (SortedMap.empty : SortedMap Origin Domain).entries.length =
        s.state.domains.entries.length :=
      List.length_eq_of_beq (State.domains_of_beq hsame)
    rw [hstate]
    exact SortedMap.ext (List.length_eq_zero_iff.1 hlength.symm)

end Store

/-! ## Mutations of different origins -/

namespace Store.Agrees

variable {o : Origin} {s t u : Store}

theorem symm (h : s.Agrees o t) : t.Agrees o s :=
  ⟨h.domain.symm, h.metadata.symm, h.refusal.symm⟩

theorem trans (h₁ : s.Agrees o t) (h₂ : t.Agrees o u) : s.Agrees o u :=
  ⟨h₂.domain.trans h₁.domain, h₂.metadata.trans h₁.metadata, h₂.refusal.trans h₁.refusal⟩

end Store.Agrees

namespace Mutation

variable {m n : Mutation} {o q : Origin} {s t : Store}

/-- The origin of a mutation; a clearance concerns all. -/
def origin? : Mutation → Option Origin
  | setPermissions o _ | grant o _ | revoke o _ | setMetadata o _ => some o
  | clear => none

/-- What a mutation does to its origin depends on what the store holds for it alone. -/
theorem agrees (ho : m.origin? = some o) (h : s.Agrees o t) :
    (m.carryOut s).1.Agrees o (m.carryOut t).1 ∧ (m.carryOut t).2 = (m.carryOut s).2 := by
  cases m with
  | setPermissions p ps =>
    cases ho
    exact (h.setPermissions ps).imp id (congrArg (Except.map fun _ => []))
  | grant p ps =>
    cases ho
    exact (h.grant ps).imp id (congrArg (Except.map fun _ => []))
  | revoke p methods =>
    cases ho
    exact h.revoke methods
  | clear => cases ho
  | setMetadata p metadata =>
    cases ho
    exact (h.setMetadata metadata).imp id (congrArg (Except.map fun _ => []))

theorem find?_next (ho : m.origin? = some o) (hne : q ≠ o) (s : State) :
    (m.next s).domains.find? q = s.domains.find? q := by
  cases m with
  | setPermissions p ps =>
    cases ho
    exact s.find?_setPermissions hne ps
  | grant p ps =>
    cases ho
    exact s.find?_grant hne ps
  | revoke p methods =>
    cases ho
    exact s.find?_setPermissions hne _
  | clear => cases ho
  | setMetadata p metadata => rfl

theorem siteMetadata?_next (ho : m.origin? = some o) (hne : q ≠ o) (s : State) :
    (m.next s).siteMetadata? q = s.siteMetadata? q := by
  cases m with
  | setMetadata p metadata =>
    cases ho
    exact s.siteMetadata?_setMetadata hne metadata
  | _ => rfl

theorem metadata_next (h : ∀ o metadata, m ≠ .setMetadata o metadata) (s : State) :
    (m.next s).metadata = s.metadata := by
  cases m with
  | setMetadata p metadata => exact absurd rfl (h p metadata)
  | _ => rfl

theorem state_carryOut (m : Mutation) (s : Store) :
    (m.carryOut s).1.state = m.next s.state ∨ (m.carryOut s).1.state = s.state := by
  rw [m.carryOut_eq]
  exact Store.put_state (m.next s.state) s

theorem metadata_carryOut (h : ∀ o metadata, m ≠ .setMetadata o metadata) (s : Store) :
    (m.carryOut s).1.state.metadata = s.state.metadata := by
  rcases m.state_carryOut s with hstate | hstate
  · rw [hstate, metadata_next h]
  · rw [hstate]

/-- A mutation leaves what the store holds for other origins. -/
theorem spares (ho : m.origin? = some o) (hne : q ≠ o) (s : Store) :
    s.Agrees q (m.carryOut s).1 where
  domain := by
    rcases m.state_carryOut s with hstate | hstate
    · rw [hstate, find?_next ho hne]
    · rw [hstate]
  metadata := by
    rcases m.state_carryOut s with hstate | hstate
    · rw [hstate, siteMetadata?_next ho hne]
    · rw [hstate]
  refusal := by
    rw [m.carryOut_eq]
    exact Store.refusal_put _ s

/-- Mutations of different origins may change places. Each answers as it would alone. -/
theorem commutes (ho : m.origin? = some o) (hq : n.origin? = some q) (hne : o ≠ q) (s : Store) :
    (n.carryOut (m.carryOut s).1).1.state = (m.carryOut (n.carryOut s).1).1.state ∧
      (n.carryOut (m.carryOut s).1).2 = (n.carryOut s).2 := by
  -- Both orders leave an origin what its own mutation alone leaves.
  have hagree : ∀ p, (n.carryOut (m.carryOut s).1).1.Agrees p (m.carryOut (n.carryOut s).1).1 := by
    intro p
    by_cases hpo : p = o
    · subst hpo
      have hlast := spares hq hne (m.carryOut s).1
      exact hlast.symm.trans (agrees ho (spares hq hne s)).1
    · have hlast := spares ho hpo (n.carryOut s).1
      by_cases hpq : p = q
      · subst hpq
        exact (agrees hq (spares ho hpo s)).1.symm.trans hlast
      · have hother := (spares ho hpo s).trans (spares hq hpq (m.carryOut s).1)
        exact hother.symm.trans ((spares hq hpq s).trans hlast)
  refine ⟨?_, (agrees hq (spares ho (Ne.symm hne) s)).2⟩
  have hdomains := SortedMap.ext_find? fun p => (hagree p).domain.symm
  have hmetadata := SortedMap.ext_find? fun p => (hagree p).metadata.symm
  generalize (n.carryOut (m.carryOut s).1).1.state = t at hdomains hmetadata
  generalize (m.carryOut (n.carryOut s).1).1.state = u at hdomains hmetadata
  cases t
  cases u
  cases hdomains
  cases hmetadata
  rfl

end Mutation

/-! ## The map -/

/-- What the mutations of a store do to the permissions of the origins. -/
structure Store.Maps (s : Store) : Prop where
  /-- A grant puts its permissions after those for other methods. The first of them for a method is
  found, else the one from before. -/
  granted : ∀ o ps t, s.grant o ps = (t, .ok ()) →
    ((s.state.permissions o).filter (fun p => p.capability ∉ ps.map (·.capability)) ++ ps ==
      t.state.permissions o) = true ∧
    ∀ method, ((ps.find? (·.capability = method)).or (s.state.permission? o method) ==
      t.state.permission? o method) = true
  /-- A revocation gives back the permissions for its methods and keeps the others. -/
  revoked : ∀ o methods t taken, s.revoke o methods = (t, .ok taken) →
    taken = (s.state.permissions o).filter (·.capability ∈ methods) ∧
    t.state.permissions o = (s.state.permissions o).filter (·.capability ∉ methods) ∧
    ∀ method, t.state.permission? o method =
      if method ∈ methods then none else s.state.permission? o method
  replaced : ∀ o ps t, s.setPermissions o ps = (t, .ok ()) →
    (ps == t.state.permissions o) = true
  cleared : ∀ t, s.clear = (t, .ok ()) → t.state.domains = .empty
  /-- Entries of other origins stay as they are. -/
  others : ∀ (m : Mutation) o, m.origin? = some o → ∀ q ≠ o,
    (m.carryOut s).1.state.domains.find? q = s.state.domains.find? q
  metadata : ∀ m : Mutation, (∀ o metadata, m ≠ .setMetadata o metadata) →
    (m.carryOut s).1.state.metadata = s.state.metadata
  /-- Mutations of different origins leave the same state in either order, and answer the same. -/
  commutes : ∀ (m n : Mutation) o q, m.origin? = some o → n.origin? = some q → o ≠ q →
    (n.carryOut (m.carryOut s).1).1.state = (m.carryOut (n.carryOut s).1).1.state ∧
    (n.carryOut (m.carryOut s).1).2 = (n.carryOut s).2

namespace Store

theorem maps (s : Store) : s.Maps where
  granted := by
    intro o ps t h
    have hput := (taken_of_put h).beq
    have hlist := State.permissions_beq hput o
    rw [State.permissions_grant, if_pos rfl, State.filter_regranted] at hlist
    refine ⟨hlist, fun method => ?_⟩
    rw [← State.permission?_grant]
    exact State.permission?_beq hput o method
  revoked := by
    intro o methods t taken h
    obtain ⟨htaken, hput⟩ := taken_revoke h
    have hkept := permissions_revoke hput
    refine ⟨htaken, hkept, fun method => ?_⟩
    rw [State.permission?, hkept, Permission.find?_others]
    rfl
  replaced := by
    intro o ps t h
    have hlist := State.permissions_beq (taken_of_put h).beq o
    rwa [State.permissions_setPermissions, if_pos rfl] at hlist
  cleared := fun t h => domains_clear (taken_of_put h)
  others := fun m o ho q hne => (Mutation.spares ho hne s).domain
  metadata := fun m h => Mutation.metadata_carryOut h s
  commutes := fun m n o q ho hq hne => Mutation.commutes ho hq hne s

/-- A permission of a site that its number tells from others. -/
def numbered (id : BitVec 128) (method : String) : Permission := ⟨⟨id⟩, method, ⟨"site"⟩, [], 0⟩

/-- A store that holds two permissions for one method. -/
def repeated : Store :=
  ⟨State.empty.setPermissions ⟨"site"⟩ [numbered 0 "a", numbered 1 "b", numbered 2 "a"],
    .memory .empty⟩

/-- Several permissions for a method are replaced together, granted together and revoked
together. -/
theorem maps_repeated :
    ∃ t u, repeated.grant ⟨"site"⟩ [numbered 3 "a", numbered 4 "a"] = (t, .ok ()) ∧
      ([numbered 1 "b", numbered 3 "a", numbered 4 "a"] == t.state.permissions ⟨"site"⟩) = true ∧
      (some (numbered 3 "a") == t.state.permission? ⟨"site"⟩ "a") = true ∧
      t.revoke ⟨"site"⟩ ["a"] = (u, .ok [numbered 3 "a", numbered 4 "a"]) ∧
      u.state.permission? ⟨"site"⟩ "a" = none := by
  have hgrant : repeated.grant ⟨"site"⟩ [numbered 3 "a", numbered 4 "a"] = (_, .ok ()) := rfl
  have hrevoke : (repeated.grant ⟨"site"⟩ [numbered 3 "a", numbered 4 "a"]).1.revoke ⟨"site"⟩
      ["a"] = (_, .ok [numbered 3 "a", numbered 4 "a"]) := rfl
  obtain ⟨hlist, hfound⟩ := repeated.maps.granted _ _ _ hgrant
  obtain ⟨-, -, hgone⟩ := (maps _).revoked _ _ _ _ hrevoke
  exact ⟨_, _, hgrant, hlist, hfound "a", hrevoke, hgone "a"⟩

end Store

end OriginGate
