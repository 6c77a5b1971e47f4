import OriginGate.Proofs.Requests

/-!
# Ids that are never given twice

* `World.DrawsIds` : requests were announced under ids that were drawn, one after the other, from
  the supply (`drawsIds_step`, `drawsIds_run`);
* `Supply.Distinct` : the supply has not repeated itself among the first draws;
* `Session.fresh_run` : then no id is given to two requests.
-/

namespace OriginGate

/-! ## Ids that are drawn -/

/-- The first `n` draws give distinct identifiers. There are only so many of them, so that no supply
goes on like this forever. -/
def Supply.Distinct (n : Nat) (s : Supply) : Prop :=
  ∀ i j, i < j → j < n → s.id i ≠ s.id j

/-- Some requests were announced, each under an id that was drawn for it. -/
structure World.DrawsIds (w v : World) : Prop where
  supply : w.supply.Draws v.supply
  ids : ∃ draws : List Nat,
    v.announcements.announced.map (·.id) =
      w.announcements.announced.map (·.id) ++ draws.map (fun n => ⟨w.supply.id n⟩) ∧
    draws.Pairwise (· < ·) ∧ ∀ n ∈ draws, w.supply.drawn ≤ n ∧ n < v.supply.drawn

namespace World.DrawsIds

variable {w v u : World}

theorem of_announced (announced : v.announcements.announced = w.announcements.announced)
    (supply : w.supply.Draws v.supply) : DrawsIds w v := by
  refine ⟨supply, [], ?_, List.Pairwise.nil, fun n hn => absurd hn List.not_mem_nil⟩
  rw [announced, List.map_nil, List.append_nil]

theorem refl (w : World) : DrawsIds w w := of_announced rfl (.refl _)

theorem trans (h₁ : DrawsIds w v) (h₂ : DrawsIds v u) : DrawsIds w u := by
  obtain ⟨first, hfirst, hascend, hbounds⟩ := h₁.ids
  obtain ⟨more, hmore, hascend', hbounds'⟩ := h₂.ids
  refine ⟨h₁.supply.trans h₂.supply, first ++ more, ?_, ?_, fun n hn => ?_⟩
  · rw [hmore, hfirst, h₁.supply.id, List.map_append, List.append_assoc]
  · refine List.pairwise_append.2 ⟨hascend, hascend', fun n hn m hm => ?_⟩
    exact Nat.lt_of_lt_of_le (hbounds n hn).2 (hbounds' m hm).1
  · have hle := h₁.supply.drawn
    have hle' := h₂.supply.drawn
    rcases List.mem_append.1 hn with hn | hn
    · have := hbounds n hn
      omega
    · have := hbounds' n hn
      omega

/-- Ids that were drawn from a supply that has not repeated itself are told apart. -/
theorem fresh (h : DrawsIds w v) (distinct : w.supply.Distinct v.supply.drawn)
    (none : w.announcements.announced = []) : v.Fresh := by
  obtain ⟨draws, hids, hascend, hbounds⟩ := h.ids
  unfold World.Fresh
  rw [hids, none, List.map_nil, List.nil_append, List.Nodup, List.pairwise_map]
  refine hascend.imp_of_mem fun {i j} _ hj hij heq => ?_
  exact distinct i j hij (hbounds j hj).2 (congrArg RequestId.uuid heq)

end World.DrawsIds

/-! ## Steps -/

namespace System

theorem Served.drawsIds {o : Origin} {may : Gate → Rpc.MethodCall → Prop} {s t : System}
    {as : List Awaiting} (h : Served o may s t as) : s.world.DrawsIds t.world := by
  cases h with
  | @registered permissions id ticket _ valid h =>
    obtain ⟨-, hid, -, rfl⟩ := register_ok h
    refine ⟨⟨rfl, Nat.le_succ _⟩, [s.world.supply.drawn], ?_, List.pairwise_singleton _ _, ?_⟩
    · change (s.world.announcements.announced ++ [_]).map _ = _
      rw [List.map_append, List.map_singleton, List.map_singleton, ← hid]
    · intro n hn
      obtain rfl := List.mem_singleton.1 hn
      exact ⟨Nat.le_refl _, Nat.lt_succ_self _⟩
  | _ => exact .of_announced rfl (.refl _)

theorem ServedAll.drawsIds {o : Origin} {may : Gate → Rpc.MethodCall → Prop} {s t : System}
    {as : List Awaiting} (h : ServedAll o may s t as) : s.world.DrawsIds t.world := by
  induction h with
  | nil s => exact .refl _
  | cons first _ ih => exact first.drawsIds.trans ih

end System

theorem Event.drawsIds (e : Event) (w : World) : w.DrawsIds (e.change w) := by
  cases e <;> exact .of_announced rfl (.refl _)

namespace Session

variable {s : Session}

theorem drawsIds_step (hs : s.Undivided) (a : Action) : s.world.DrawsIds (s.after a).world := by
  have hchanged := changed_step hs a
  change s.world.DrawsIds (s.after a).system.world
  generalize (s.after a).system = t at hchanged
  cases hchanged with
  | same => exact .refl _
  | served begun site h => exact h.drawsIds
  | approved under ended h =>
    exact .of_announced (congrArg Announcements.announced h.steady.announcements) h.steady.supply
  | abandoned dropped hw =>
    rw [abandonAll_eq]
    exact .of_announced rfl (.refl _)
  | @commanded c given h =>
    have hsteady := System.steady_carryOut c s.system
    exact .of_announced (congrArg Announcements.announced hsteady.announcements) hsteady.supply
  | @happened e given => exact e.drawsIds s.world

theorem drawsIds_run (hs : s.Undivided) (actions : List Action) :
    s.world.DrawsIds (s.run actions).world := by
  refine hs.run_induction (P := fun t => s.world.DrawsIds t.world) (.refl _) (fun t a ht h => ?_)
    actions
  exact h.trans (drawsIds_step ht a)

/-- A run of a new session gives no id to two requests, as long as the supply has not repeated
itself. -/
theorem fresh_run {settings : Settings} {w : World} (created : create settings w = .ok s)
    (actions : List Action) (distinct : w.supply.Distinct (s.run actions).world.supply.drawn)
    (none : w.announcements.announced = []) : (s.run actions).world.Fresh := by
  have hs := undivided_create created
  obtain ⟨store, -, rfl⟩ := create_eq created
  exact (drawsIds_run hs actions).fresh distinct none

end Session

end OriginGate
