import OriginGate.Proofs.Calls

/-!
# One call or a batch

* `Document.readable_arr` : a list of readable documents is readable;
* `Call.second_text` : a list that is read as one call has a text in the second place, the method;
* `Request.Lists` : a list whose items are read as calls;
* `Request.not_both` : no document is one call and a list of calls; `Request.readings` : the three
  cases that are left;
* `Request.unambiguous` : how every document is read as a request.

A call may be given as the list of its fields, and the version in the first place may be an object,
which an item of a batch may be as well. It is the second place that tells the two apart: a text is
no call.
-/

namespace OriginGate

namespace Document

theorem readable_arr {items : List Document} (h : ∀ d ∈ items, d.readable) :
    (arr items).readable := by
  unfold readable at h ⊢
  rw [tree?, Option.isSome_map]
  induction items with
  | nil => rfl
  | cons d rest ih =>
    obtain ⟨x, hx⟩ := Option.isSome_iff_exists.1 (h d List.mem_cons_self)
    obtain ⟨xs, hxs⟩ := Option.isSome_iff_exists.1
      (ih fun e he => h e (List.mem_cons_of_mem _ he))
    simp [treeItems?, hx, hxs]

theorem list?_eq_some {α : Type} {read? : Document → Option α} {d : Document} {as : List α} :
    d.list? read? = some as ↔
      ∃ items, d = .arr items ∧ List.Forall₂ (fun e a => read? e = some a) items as := by
  cases d with
  | arr items =>
    rw [list?, mapM_eq_some_iff]
    simp
  | _ => simp [list?]

end Document

namespace Rpc

/-! ## Calls as lists -/

namespace Call

theorem readable_of_some {d : Document} {call : Call} (h : ofDocument? d = some call) :
    d.readable := by
  unfold ofDocument? at h
  split at h
  · assumption
  · cases h

theorem ofDocument?_str (s : String) : ofDocument? (.str s) = none := rfl

theorem second_of_method {names : List String} {items : List Document} {s : String}
    (h : Record.required? "method" Document.text? (("jsonrpc" :: "method" :: names).zip items) =
      some s) : ∃ first rest, items = first :: .str s :: rest := by
  match items with
  | [] => cases h
  | [_] => cases h
  | first :: d :: rest =>
    have hd : d.text? = some s := h
    rw [text?_eq_some.1 hd]
    exact ⟨first, rest, rfl⟩

/-- A list that is one call has a text in the second place. -/
theorem second_text {items : List Document} {call : Call}
    (h : ofDocument? (.arr items) = some call) : ∃ first s rest, items = first :: .str s :: rest := by
  have hfields : ∀ {shape : Shape} {r : Record}, shape.read? (.arr items) = some r →
      r = shape.names.zip items := by
    intro shape r hr
    rw [Shape.read?] at hr
    split at hr
    · exact (Option.some.inj hr).symm
    · cases hr
  rw [ofDocument?, if_pos (readable_of_some h)] at h
  rcases hmethod : MethodCall.ofDocument? (.arr items) with _ | c
  · rcases hnotification : Notification.ofDocument? (.arr items) with _ | n
    · rw [hmethod, hnotification] at h
      cases h
    · obtain ⟨r, hr, hnotification⟩ := Option.bind_eq_some_iff.1 hnotification
      obtain ⟨version, -, hnotification⟩ := Option.bind_eq_some_iff.1 hnotification
      obtain ⟨s, hs, -⟩ := Option.bind_eq_some_iff.1 hnotification
      cases hfields hr
      obtain ⟨first, rest, hitems⟩ := second_of_method hs
      exact ⟨first, s, rest, hitems⟩
  · obtain ⟨r, hr, hmethod⟩ := Option.bind_eq_some_iff.1 hmethod
    obtain ⟨version, -, hmethod⟩ := Option.bind_eq_some_iff.1 hmethod
    obtain ⟨s, hs, -⟩ := Option.bind_eq_some_iff.1 hmethod
    cases hfields hr
    obtain ⟨first, rest, hitems⟩ := second_of_method hs
    exact ⟨first, s, rest, hitems⟩

end Call

/-! ## Requests -/

namespace Request

/-- A document is a list whose items are read as these calls, in order. -/
def Lists (d : Document) (calls : List Call) : Prop :=
  ∃ items, d = .arr items ∧
    List.Forall₂ (fun e call => Call.ofDocument? e = some call) items calls

variable {d : Document} {call : Call} {calls : List Call}

theorem Lists.readable (h : Lists d calls) : d.readable := by
  obtain ⟨items, rfl, hitems⟩ := h
  refine Document.readable_arr fun e he => ?_
  obtain ⟨call, -, hcall⟩ := exists_of_forall₂ hitems e he
  exact Call.readable_of_some hcall

/-- No document is one call and a list of calls: the second item would be a text and a call. -/
theorem not_both (hcall : Call.ofDocument? d = some call) : ¬ Lists d calls := by
  rintro ⟨items, rfl, hitems⟩
  obtain ⟨first, s, rest, rfl⟩ := Call.second_text hcall
  obtain ⟨second, -, hsecond⟩ := exists_of_forall₂ hitems (.str s)
    (List.mem_cons_of_mem _ List.mem_cons_self)
  cases (Call.ofDocument?_str s).symm.trans hsecond

theorem readings (d : Document) :
    (∃ call, Call.ofDocument? d = some call ∧ d.list? Call.ofDocument? = none ∧
        ofDocument? d = some (.single call)) ∨
      (∃ calls, Call.ofDocument? d = none ∧ d.list? Call.ofDocument? = some calls ∧
        ofDocument? d = some (.batch calls)) ∨
      Call.ofDocument? d = none ∧ d.list? Call.ofDocument? = none ∧ ofDocument? d = none := by
  rcases hcall : Call.ofDocument? d with _ | call
  · rcases hlist : d.list? Call.ofDocument? with _ | calls
    · refine .inr (.inr ⟨rfl, rfl, ?_⟩)
      rw [ofDocument?, hcall, hlist]
      simp
    · have hreadable := Lists.readable (Document.list?_eq_some.1 hlist)
      refine .inr (.inl ⟨calls, rfl, rfl, ?_⟩)
      rw [ofDocument?, if_pos hreadable, hcall, hlist]
      rfl
  · have hlist : d.list? Call.ofDocument? = none :=
      Option.eq_none_iff_forall_ne_some.2 fun calls hcalls =>
        not_both hcall (Document.list?_eq_some.1 hcalls)
    refine .inl ⟨call, rfl, hlist, ?_⟩
    rw [ofDocument?, if_pos (Call.readable_of_some hcall), hcall]

theorem single_iff : ofDocument? d = some (.single call) ↔ Call.ofDocument? d = some call := by
  rcases readings d with ⟨_, hcall, -, hread⟩ | ⟨_, hcall, -, hread⟩ | ⟨hcall, -, hread⟩ <;>
    simp [hcall, hread]

theorem batch_iff : ofDocument? d = some (.batch calls) ↔ Lists d calls := by
  rw [Lists, ← Document.list?_eq_some]
  rcases readings d with ⟨_, -, hlist, hread⟩ | ⟨_, -, hlist, hread⟩ | ⟨-, hlist, hread⟩ <;>
    simp [hlist, hread]

/-- Whichever of the two is tried first, the same is read. -/
theorem ofDocument?_eq_or (d : Document) :
    ofDocument? d =
      ((d.list? Call.ofDocument?).map .batch).or ((Call.ofDocument? d).map .single) := by
  rcases readings d with ⟨_, hcall, hlist, hread⟩ | ⟨_, hcall, hlist, hread⟩ |
      ⟨hcall, hlist, hread⟩ <;>
    simp [hcall, hlist, hread]

theorem eq_none_iff : ofDocument? d = none ↔
    (∀ call, Call.ofDocument? d ≠ some call) ∧ ∀ calls, ¬ Lists d calls := by
  simp only [ne_eq, ← single_iff, ← batch_iff]
  constructor
  · intro hnone
    simp [hnone]
  · rintro ⟨hsingle, hbatch⟩
    refine Option.eq_none_iff_forall_ne_some.2 fun request hread => ?_
    cases request with
    | single call => exact hsingle call hread
    | batch calls => exact hbatch calls hread

/-- What a document is read as, by what its items are. -/
structure Unambiguous (d : Document) : Prop where
  single : ∀ call, ofDocument? d = some (.single call) ↔ Call.ofDocument? d = some call
  batch : ∀ calls, ofDocument? d = some (.batch calls) ↔ Lists d calls
  apart : ¬ ((∃ call, Call.ofDocument? d = some call) ∧ ∃ calls, Lists d calls)
  /-- The same is read if a list of calls is tried first. -/
  order : ofDocument? d =
    ((d.list? Call.ofDocument?).map Request.batch).or ((Call.ofDocument? d).map Request.single)
  fails : ofDocument? d = none ↔
    (∀ call, Call.ofDocument? d ≠ some call) ∧ ∀ calls, ¬ Lists d calls
  /-- A list with one item that is no call is no batch. -/
  spoilt : ∀ items, d = .arr items → (∃ e ∈ items, Call.ofDocument? e = none) →
    (∀ call, Call.ofDocument? d ≠ some call) → ofDocument? d = none

/-- Every document is read as one call, or as a batch, or not at all, whichever is tried first. The
empty list is a batch. -/
theorem unambiguous : (∀ d, Unambiguous d) ∧ ofDocument? (.arr []) = some (.batch []) := by
  refine ⟨fun d => ?_, rfl⟩
  exact {
    single := fun call => single_iff
    batch := fun calls => batch_iff
    apart := fun ⟨⟨_, hcall⟩, _, hcalls⟩ => not_both hcall hcalls
    order := ofDocument?_eq_or d
    fails := eq_none_iff
    spoilt := by
      rintro items rfl ⟨e, he, hnone⟩ hcall
      refine eq_none_iff.2 ⟨hcall, ?_⟩
      rintro calls ⟨_, ⟨⟩, hitems⟩
      obtain ⟨call, -, hread⟩ := exists_of_forall₂ hitems e he
      cases hnone.symm.trans hread }

/-- A list that begins with a version is one call if a text follows, and a batch if an object
does. -/
example : ofDocument? (.arr [.obj [("2.0", .null)], .str "eth_chainId"]) =
      some (.single (.notification ⟨some .v2, "eth_chainId", .none⟩)) ∧
    ofDocument? (.arr [.obj [("2.0", .null)], .obj [("id", .int 1)]]) =
      some (.batch [.invalid .null, .invalid (.number 1)]) :=
  ⟨rfl, rfl⟩

end Request

end Rpc

end OriginGate
