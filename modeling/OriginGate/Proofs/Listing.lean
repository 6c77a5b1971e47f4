import OriginGate.Proofs.ByteOrder
import OriginGate.Proofs.Decisions
import OriginGate.Proofs.Mirroring

/-!
# Which origins a store lists

* `State.Hollow` : an origin has an entry without permissions;
* `Store.Move` : a mutation, or any change of the backend from outside; `Store.moved` : what moves
  make of a store;
* `Mutation.Settles` : a mutation after which an origin has no such entry; `Store.LeftEmpty` : a
  grant of nothing made one, and no mutation has settled it since;
* `Mutation.Writes` : the backend takes what a mutation makes of the state;
* `Store.lists_moved` : the origins that a store lists, and those in what it persists.
-/

namespace OriginGate

/-! ## Entries without permissions -/

namespace State

/-- An origin has an entry, but no permissions. -/
def Hollow (o : Origin) (s : State) : Prop := s.domains.find? o = some ⟨[]⟩

variable {o : Origin} {s t : State}

theorem mem_origins_iff : o ∈ s.origins ↔ ∃ d, s.domains.find? o = some d := by
  rw [origins, SortedMap.mem_keys_iff, SortedMap.contains, Option.isSome_iff_exists]

theorem Hollow.permissions_eq (h : s.Hollow o) : s.permissions o = [] := by
  unfold Hollow at h
  rw [permissions, h]

theorem mem_origins_iff_or : o ∈ s.origins ↔ s.permissions o ≠ [] ∨ s.Hollow o := by
  rw [mem_origins_iff, permissions, Hollow]
  cases s.domains.find? o with
  | none => simp
  | some d =>
    obtain ⟨ps⟩ := d
    by_cases h : ps = [] <;> simp [h]

theorem hollow_congr (h : s == t) : s.Hollow o ↔ t.Hollow o := by
  unfold Hollow
  rcases some_of_beq (SortedMap.find?_beq (domains_of_beq h) o) with
    ⟨hs, ht⟩ | ⟨⟨ps⟩, ⟨qs⟩, hs, ht, hlist⟩
  · rw [hs, ht]
  · have hlength : ps.length = qs.length := List.length_eq_of_beq hlist
    rw [hs, ht]
    simp only [Option.some.injEq, Domain.mk.injEq, ← List.length_eq_zero_iff, hlength]

theorem hollow_setPermissions {p : Origin} {ps : List Permission} :
    (s.setPermissions p ps).Hollow o ↔ s.Hollow o ∧ p ≠ o := by
  unfold Hollow setPermissions
  by_cases hp : o = p
  · subst hp
    split
    · simp [SortedMap.find?_erase]
    · rename_i hsome
      simp only [SortedMap.find?_insert, if_true, Option.some.injEq, Domain.mk.injEq, ne_eq,
        not_true_eq_false, and_false, iff_false]
      exact fun hnil => hsome (List.isEmpty_iff.2 hnil)
  · have hfind : (if ps.isEmpty then s.domains.erase p else s.domains.insert p ⟨ps⟩).find? o =
        s.domains.find? o := by
      split
      · rw [SortedMap.find?_erase, if_neg hp]
      · rw [SortedMap.find?_insert, if_neg hp]
    simp only [hfind, ne_eq, Ne.symm hp, not_false_eq_true, and_true]

/-- A grant of nothing to an origin without permissions makes an entry without permissions. -/
theorem hollow_grant {p : Origin} {ps : List Permission} :
    (s.grant p ps).Hollow o ↔
      p = o ∧ ps = [] ∧ s.permissions o = [] ∨ s.Hollow o ∧ ¬ (p = o ∧ ps ≠ []) := by
  unfold Hollow grant
  rw [SortedMap.find?_insert]
  by_cases hp : o = p
  · subst hp
    rw [if_pos rfl, Option.some.injEq, Domain.mk.injEq, List.append_eq_nil_iff]
    by_cases hps : ps = []
    · subst hps
      have hall : (s.permissions o).filter (!regranted [] ·) = s.permissions o := by
        rw [List.filter_eq_self]
        intro q _
        rfl
      have hnone : s.Hollow o → s.permissions o = [] := Hollow.permissions_eq
      rw [hall]
      unfold Hollow at hnone
      simp only [and_true, true_and, ne_eq, not_true_eq_false, and_false, not_false_eq_true]
      exact ⟨.inl, fun h => h.elim id hnone⟩
    · simp only [hps, and_false, false_and, ne_eq, not_false_eq_true, and_true, not_true_eq_false,
        or_false]
  · simp only [if_neg hp, Ne.symm hp, false_and, not_false_eq_true, and_true, false_or]

end State

/-! ## Mutations -/

namespace Mutation

/-- After this mutation an origin has permissions, or no entry. -/
def Settles (o : Origin) : Mutation → Prop
  | setPermissions p _ => p = o
  | grant p ps => p = o ∧ ps ≠ []
  | revoke p _ => p = o
  | clear => True
  | setMetadata _ _ => False

/-- A mutation of a store succeeds. -/
def Done (m : Mutation) (s : Store) : Prop := ∃ taken, (m.carryOut s).2 = .ok taken

/-- The backend takes what a mutation makes of the visible state. -/
structure Writes (m : Mutation) (s : Store) (next : State) : Prop where
  next_eq : next = m.next s.state
  changed : ¬ next == s.state
  taken : ∃ backend, s.backend.persist next = (backend, .ok ())

variable {m : Mutation} {s : Store} {o : Origin}

theorem hollow_next {t : State} :
    (m.next t).Hollow o ↔
      m = .grant o [] ∧ t.permissions o = [] ∨ t.Hollow o ∧ ¬ m.Settles o := by
  cases m with
  | setPermissions p ps =>
    rw [next, State.hollow_setPermissions]
    simp only [Settles, reduceCtorEq, false_and, false_or, ne_eq]
  | grant p ps =>
    rw [next, State.hollow_grant]
    simp only [Settles, grant.injEq, and_assoc]
  | revoke p methods =>
    rw [next, State.revoke, State.hollow_setPermissions]
    simp only [Settles, reduceCtorEq, false_and, false_or, ne_eq]
  | clear =>
    simp only [next, Settles, reduceCtorEq, false_and, not_true_eq_false, and_false, or_self,
      iff_false]
    intro h
    cases (show (none : Option Domain) = some ⟨[]⟩ from h)
  | setMetadata p metadata =>
    simp only [next, Settles, reduceCtorEq, false_and, not_false_eq_true, and_true, false_or]
    exact Iff.rfl

theorem hollow_carryOut :
    (m.carryOut s).1.state.Hollow o ↔
      m = .grant o [] ∧ s.state.permissions o = [] ∧ m.Done s ∨
        s.state.Hollow o ∧ ¬ (m.Settles o ∧ m.Done s) := by
  unfold Done
  rw [m.carryOut_eq]
  have htaken := Store.taken_put (m.next s.state) s
  generalize (s.put (m.next s.state)).1 = t, (s.put (m.next s.state)).2 = r at htaken
  have hnext := @hollow_next m o s.state
  cases htaken with
  | shown same =>
    simpa [Except.map] using (State.hollow_congr same).symm.trans hnext
  | written h => simpa [Except.map] using hnext
  | failed h => simp [Except.map]

theorem Writes.carryOut_eq {next : State} (h : m.Writes s next) :
    (m.carryOut s).1.state = next ∧ (m.carryOut s).1.backend.Keeps next := by
  obtain ⟨rfl, changed, backend, hpersist⟩ := h
  rw [m.carryOut_eq, Store.put, if_neg changed, hpersist]
  exact ⟨rfl, Backend.keeps_persist hpersist⟩

end Mutation

/-! ## Moves -/

/-- What happens to a store: a mutation, or anything at all to its backend from outside. -/
inductive Store.Move where
  | mutation (m : Mutation)
  | outside (change : Backend → Backend)

namespace Store

def move (a : Move) (s : Store) : Store :=
  match a with
  | .mutation m => (m.carryOut s).1
  | .outside change => { s with backend := change s.backend }

/-- The store after some moves. -/
def moved (moves : List Move) (s : Store) : Store := moves.foldl (fun s a => s.move a) s

variable {s : Store} {moves : List Move} {o : Origin}

theorem moved_snoc (a : Move) : s.moved (moves ++ [a]) = (s.moved moves).move a := by
  rw [moved, List.foldl_append]
  rfl

/-- An origin without permissions was granted nothing, and no mutation has settled it since. -/
inductive LeftEmpty (o : Origin) (s : Store) : List Move → Prop where
  | granted {moves : List Move} (none : (s.moved moves).state.permissions o = [])
    (done : (Mutation.grant o []).Done (s.moved moves)) :
    LeftEmpty o s (moves ++ [.mutation (.grant o [])])
  | later {moves : List Move} {a : Move} (h : LeftEmpty o s moves)
    (unsettled : ∀ m, a = .mutation m → ¬ (m.Settles o ∧ m.Done (s.moved moves))) :
    LeftEmpty o s (moves ++ [a])

theorem leftEmpty_snoc {a : Move} :
    LeftEmpty o s (moves ++ [a]) ↔
      a = .mutation (.grant o []) ∧ (s.moved moves).state.permissions o = [] ∧
          (Mutation.grant o []).Done (s.moved moves) ∨
        LeftEmpty o s moves ∧
          ∀ m, a = .mutation m → ¬ (m.Settles o ∧ m.Done (s.moved moves)) := by
  constructor
  · intro h
    generalize hmoves : moves ++ [a] = all at h
    cases h with
    | granted none done =>
      obtain ⟨rfl, ha⟩ := List.append_inj' hmoves rfl
      exact .inl ⟨List.singleton_inj.1 ha, none, done⟩
    | later h unsettled =>
      obtain ⟨rfl, ha⟩ := List.append_inj' hmoves rfl
      rw [List.singleton_inj.1 ha]
      exact .inr ⟨h, unsettled⟩
  · rintro (⟨rfl, none, done⟩ | ⟨h, unsettled⟩)
    · exact .granted none done
    · exact .later h unsettled

/-- What one move does to an entry without permissions. -/
theorem hollow_move {a : Move} :
    (s.move a).state.Hollow o ↔
      a = .mutation (.grant o []) ∧ s.state.permissions o = [] ∧ (Mutation.grant o []).Done s ∨
        s.state.Hollow o ∧ ∀ m, a = .mutation m → ¬ (m.Settles o ∧ m.Done s) := by
  cases a with
  | mutation m =>
    rw [move, Mutation.hollow_carryOut]
    simp only [Move.mutation.injEq, forall_eq']
    refine or_congr_left (and_congr_right ?_)
    rintro rfl
    exact Iff.rfl
  | outside change => simp [move]

theorem hollow_moved (fresh : ¬ s.state.Hollow o) :
    (s.moved moves).state.Hollow o ↔ LeftEmpty o s moves := by
  induction moves using List.reverseRecOn with
  | nil =>
    refine ⟨fun h => absurd h fresh, fun h => ?_⟩
    generalize hnil : [] = all at h
    cases h with
    | granted _ _ => exact absurd hnil.symm (List.concat_ne_nil _ _)
    | later _ _ => exact absurd hnil.symm (List.concat_ne_nil _ _)
  | append_singleton moves a ih => rw [moved_snoc, hollow_move, leftEmpty_snoc, ih]

/-- What a store lists after some moves. -/
structure Lists (s : Store) (moves : List Move) : Prop where
  /-- No origin is listed twice. -/
  ascending : (s.moved moves).state.origins.Pairwise fun o p => bytes o.name < bytes p.name
  /-- The origins with a permission are listed, and those with an entry that was left empty. -/
  listed : ∀ o, o ∈ (s.moved moves).state.origins ↔
    (s.moved moves).state.permissions o ≠ [] ∨ LeftEmpty o s moves
  none : ∀ o, LeftEmpty o s moves → (s.moved moves).state.permissions o = []
  /-- What the next mutation writes has an entry without permissions for just those as well. -/
  persisted : ∀ m next, m.Writes (s.moved moves) next →
    ((s.moved moves).move (.mutation m)).backend.Keeps next ∧
      ∀ o, next.Hollow o ↔ LeftEmpty o s (moves ++ [.mutation m])

/-- A store that opens on a backend without a state lists the origins that hold a permission, and
those to which nothing was granted while they held none. -/
theorem lists_moved {b : Backend} (nothing : b.load = .ok none) :
    ∃ s, load b = .ok s ∧ ∀ moves, s.Lists moves := by
  refine ⟨⟨.empty, b⟩, ?_, fun moves => ?_⟩
  · rw [load, nothing]
    rfl
  · have hollow : ∀ {moves : List Move} {o : Origin},
        ((⟨.empty, b⟩ : Store).moved moves).state.Hollow o ↔ LeftEmpty o ⟨.empty, b⟩ moves :=
      hollow_moved nofun
    exact {
      ascending := by
        refine (SortedMap.keys_ascend _).imp fun {o p} h => lt_iff_bytes.1 ?_
        rw [Origin.compare_eq] at h
        exact compare_lt_iff_lt.1 h
      listed := fun o => by rw [State.mem_origins_iff_or, hollow]
      none := fun o h => (hollow.2 h).permissions_eq
      persisted := fun m next h => by
        obtain ⟨hstate, hkeeps⟩ := h.carryOut_eq
        refine ⟨hkeeps, fun o => ?_⟩
        rw [← hollow, moved_snoc, move, hstate] }

/-- A grant of nothing to an origin that holds nothing lists it and is persisted. -/
theorem lists_moved_grant :
    (Backend.memory .empty).load = .ok none ∧
      ∃ s, load (.memory .empty) = .ok s ∧
        ⟨"site"⟩ ∈ (s.moved [.mutation (.grant ⟨"site"⟩ [])]).state.origins ∧
        (s.moved [.mutation (.grant ⟨"site"⟩ [])]).state.permissions ⟨"site"⟩ = [] ∧
        ∃ next, (s.moved [.mutation (.grant ⟨"site"⟩ [])]).backend.Keeps next ∧
          next.Hollow ⟨"site"⟩ := by
  obtain ⟨s, hload, hlists⟩ := @lists_moved (.memory .empty) rfl
  cases hload
  have hempty : LeftEmpty ⟨"site"⟩ ⟨.empty, .memory .empty⟩
      [.mutation (.grant ⟨"site"⟩ [])] := @LeftEmpty.granted _ _ [] rfl ⟨[], rfl⟩
  have hwrites : (Mutation.grant ⟨"site"⟩ []).Writes ⟨.empty, .memory .empty⟩
      (State.empty.grant ⟨"site"⟩ []) := ⟨rfl, by decide, _, rfl⟩
  obtain ⟨hkeeps, hhollow⟩ := (hlists []).persisted _ _ hwrites
  exact ⟨rfl, _, rfl, ((hlists _).listed _).2 (.inr hempty), (hlists _).none _ hempty, _, hkeeps,
    (hhollow _).2 hempty⟩

end Store

end OriginGate
