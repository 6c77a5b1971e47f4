import OriginGate.Proofs.Changes
import OriginGate.Proofs.Equality

/-!
# A backend in memory mirrors its store

* `Mutation` : a change of the granted state; `Mutation.next` : what it makes of a state;
* `Store.Access` : a mutation, or a switch of the backend between writable and read-only;
* `Store.run` : a list of accesses; `Store.changes` : how many of them changed the state;
* `Store.Mirrored` : the backend holds what the store shows; `Mutation.Exact` : what a mutation does
  then, and when it fails;
* `mirrored_run` : both hold throughout a run, and each change was one write.

A store on a backend in memory is at any time the store that opening the backend would give
(`MemoryBackend.opened`).
-/

namespace OriginGate

/-! ## Mutations -/

/-- A change of the granted state. -/
inductive Mutation where
  | setPermissions (o : Origin) (permissions : List Permission)
  | grant (o : Origin) (permissions : List Permission)
  | revoke (o : Origin) (methods : List String)
  | clear
  | setMetadata (o : Origin) (metadata : SiteMetadata)

namespace Mutation

/-- The state that a mutation makes of a state. -/
def next (m : Mutation) (s : State) : State :=
  match m with
  | setPermissions o permissions => s.setPermissions o permissions
  | grant o permissions => s.grant o permissions
  | revoke o methods => s.revoke o methods
  | clear => s.clear
  | setMetadata o metadata => s.setMetadata o metadata

/-- The permissions that a mutation gives back: those that it revokes. -/
def taken (m : Mutation) (s : State) : List Permission :=
  match m with
  | revoke o methods => s.revoked o methods
  | _ => []

/-- Carries out a mutation on a store. -/
def carryOut (m : Mutation) (s : Store) : Store × Except StoreError (List Permission) :=
  match m with
  | setPermissions o permissions =>
    let (s, r) := s.setPermissions o permissions; (s, r.map fun _ => [])
  | grant o permissions => let (s, r) := s.grant o permissions; (s, r.map fun _ => [])
  | revoke o methods => s.revoke o methods
  | clear => let (s, r) := s.clear; (s, r.map fun _ => [])
  | setMetadata o metadata => let (s, r) := s.setMetadata o metadata; (s, r.map fun _ => [])

theorem carryOut_eq (m : Mutation) (s : Store) :
    m.carryOut s =
      ((s.put (m.next s.state)).1, (s.put (m.next s.state)).2.map fun _ => m.taken s.state) := by
  cases m <;> rfl

end Mutation

/-! ## Runs -/

/-- What happens to a store that is the only one to write to its backend. -/
inductive Store.Access where
  | mutation (m : Mutation)
  | readOnly (value : Bool)

namespace Store

def access (a : Access) (s : Store) : Store :=
  match a with
  | .mutation m => (m.carryOut s).1
  | .readOnly value => { s with backend := s.backend.setReadOnly value }

/-- The store after some accesses. -/
def run (accesses : List Access) (s : Store) : Store := accesses.foldl (fun s a => s.access a) s

/-- How many of some accesses changed the state. -/
def changes : List Access → Store → Nat
  | [], _ => 0
  | a :: rest, s =>
    (if (s.access a).state == s.state then 0 else 1) + changes rest (s.access a)

/-- The store shows what the backend holds, so that opening the backend gives this store. -/
structure Mirrored (b : MemoryBackend) (s : Store) : Prop where
  backend : s.backend = .memory b
  shown : b.persisted.getD .empty = s.state
  equal : b.persisted.getD .empty == s.state
  reopened : load (.memory b) = .ok s

end Store

/-- What a mutation does to a store on a backend in memory. -/
structure Mutation.Exact (m : Mutation) (s : Store) (b : MemoryBackend) : Prop where
  /-- It fails where there is something to write that cannot be written. -/
  fails : (∃ e, (m.carryOut s).2 = .error e) ↔ b.readOnly ∧ ¬ m.next s.state == s.state
  /-- Then nothing has changed. -/
  failed : ∀ e, (m.carryOut s).2 = .error e → e = .readOnly ∧ (m.carryOut s).1 = s
  /-- Where there is nothing to write it succeeds, also if nothing can be written. -/
  unchanged : m.next s.state == s.state → m.carryOut s = (s, .ok (m.taken s.state))
  /-- Anything else it writes once. -/
  written : ¬ m.next s.state == s.state → ¬ b.readOnly →
    m.carryOut s =
      (⟨m.next s.state,
        .memory { b with persisted := some (m.next s.state), writes := b.writes + 1 }⟩,
      .ok (m.taken s.state))

/-! ## Mirroring -/

/-- The store that a backend in memory opens as. -/
def MemoryBackend.opened (b : MemoryBackend) : Store := ⟨b.persisted.getD .empty, .memory b⟩

namespace Store

variable (b : MemoryBackend)

theorem load_memory : load (.memory b) = .ok b.opened := rfl

theorem mirrored_opened : b.opened.Mirrored b := ⟨rfl, rfl, BEq.rfl, rfl⟩

theorem put_opened (next : State) :
    (next == b.opened.state ∧ b.opened.put next = (b.opened, .ok ())) ∨
      (¬ next == b.opened.state ∧ b.readOnly ∧
        b.opened.put next = (b.opened, .error .readOnly)) ∨
      (¬ next == b.opened.state ∧ ¬ b.readOnly ∧
        b.opened.put next =
          (({ b with persisted := some next, writes := b.writes + 1 } : MemoryBackend).opened,
            .ok ())) := by
  unfold put
  by_cases same : next == b.opened.state
  · exact .inl ⟨same, if_pos same⟩
  · rw [if_neg same]
    by_cases locked : b.readOnly
    · refine .inr (.inl ⟨same, locked, ?_⟩)
      simp [MemoryBackend.opened, Backend.persist, MemoryBackend.persist, locked]
    · refine .inr (.inr ⟨same, locked, ?_⟩)
      simp [MemoryBackend.opened, Backend.persist, MemoryBackend.persist, locked]

/-- An access leaves a store that its backend opens as; if the state changed, it was written once. -/
theorem access_opened (a : Access) :
    ∃ c : MemoryBackend, b.opened.access a = c.opened ∧
      c.writes = b.writes + if c.opened.state == b.opened.state then 0 else 1 := by
  cases a with
  | mutation m =>
    rw [access, m.carryOut_eq]
    rcases put_opened b (m.next b.opened.state) with
      ⟨-, h⟩ | ⟨-, -, h⟩ | ⟨changed, -, h⟩
    · exact ⟨b, by rw [h], by simp⟩
    · exact ⟨b, by rw [h], by simp⟩
    · refine ⟨_, by rw [h], ?_⟩
      rw [if_neg (by exact changed)]
  | readOnly value => exact ⟨{ b with readOnly := value }, rfl, by simp [MemoryBackend.opened]⟩

theorem run_opened (accesses : List Access) :
    ∃ c : MemoryBackend, b.opened.run accesses = c.opened ∧
      c.writes = b.writes + b.opened.changes accesses := by
  induction accesses generalizing b with
  | nil => exact ⟨b, rfl, rfl⟩
  | cons a rest ih =>
    obtain ⟨c, hc, hwrites⟩ := access_opened b a
    obtain ⟨d, hd, hmore⟩ := ih c
    refine ⟨d, ?_, ?_⟩
    · rw [← hd, ← hc]; rfl
    · rw [hmore, hwrites, changes, hc]
      omega

theorem exact_opened (m : Mutation) : m.Exact b.opened b := by
  rcases put_opened b (m.next b.opened.state) with
    ⟨same, h⟩ | ⟨changed, locked, h⟩ | ⟨changed, free, h⟩
  · have heq : m.carryOut b.opened = (b.opened, .ok (m.taken b.opened.state)) := by
      rw [m.carryOut_eq, h]; rfl
    exact {
      fails := by simp [heq, same]
      failed := by simp [heq]
      unchanged := fun _ => heq
      written := fun changed => absurd same changed }
  · have heq : m.carryOut b.opened = (b.opened, .error .readOnly) := by
      rw [m.carryOut_eq, h]; rfl
    exact {
      fails := by simp [heq, changed, locked]
      failed := by simp [heq]
      unchanged := fun same => absurd same changed
      written := fun _ free => absurd locked free }
  · have heq : m.carryOut b.opened =
        (⟨m.next b.opened.state,
          .memory { b with persisted := some (m.next b.opened.state), writes := b.writes + 1 }⟩,
        .ok (m.taken b.opened.state)) := by
      rw [m.carryOut_eq, h]; rfl
    exact {
      fails := by simp [heq, free]
      failed := by simp [heq]
      unchanged := fun same => absurd same changed
      written := fun _ _ => heq }

/-- However a store on a backend in memory is used, and whenever the backend refuses writes, the
backend holds what the store shows, and it has written every change once. -/
theorem mirrored_run (accesses : List Access) :
    ∃ s, load (.memory b) = .ok s ∧
      ∃ c : MemoryBackend, (s.run accesses).Mirrored c ∧
        c.writes = b.writes + s.changes accesses ∧
        ∀ m : Mutation, m.Exact (s.run accesses) c := by
  obtain ⟨c, hrun, hwrites⟩ := run_opened b accesses
  refine ⟨b.opened, load_memory b, c, ?_, hwrites, ?_⟩
  · rw [hrun]; exact mirrored_opened c
  · rw [hrun]; exact exact_opened c

end Store

end OriginGate
