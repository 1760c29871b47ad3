import Mathlib
import Fibers.Proofs.QueueConservation
/-!
# Work-stealing queues: routing, classes and conservation

A work-stealing group keeps four kinds of queue: the reactor queue, a pinned queue per
worker, the global queue and a deque per worker. This module says where a ready entity goes
(`Stealing.pushReady_routes`): a reactor entity to the reactor queue; a group-local one to
the pinned queue of its home worker, else of the calling worker, else of some worker; a
yielded one to the global queue; any other to the caller's deque while the caller entered
this group and its deque has room, else to the global queue. The choice of "some worker" is
left open: the group may pick any.

It then follows the group through every sequence of calls that threads make on it
(`Stealing.Call`): entering and leaving, starting fibers one at a time or in a batch, making
fibers ready again, and the acquisitions of workers, thieves and other groups. Each queue
keeps to its class of entities (`Stealing.Classes`): the reactor queue holds reactor
entities, the pinned queues group-local ones that are not reactor entities, and the global
queue and the deques the others. And nothing is lost or made twice: what the queues hold and
what the calls handed out is, up to order, what the calls put in (`Stealing.runCalls_ledger`).
So the number of queued entities is what was put in less what was handed out, and a thief
or another group never takes a group-local or reactor entity.

Each call is one step here; the queues themselves are linearisable, and every acquisition
is also available as its parts (`stealGlobal`, `acquireReactor`, `stealFromPeers`), so runs
that interleave the parts of several calls are runs of this model too.
-/

namespace Fibers

/-! ## 1. Lists of queues -/

section Queues

variable {α : Type}

/-- Replacing one queue of a list of queues replaces its entities. -/
theorem flatten_set_perm_of_lt (ys : List α) :
    ∀ {l : List (List α)} {i : Nat}, i < l.length →
      ((l.set i ys).flatten ++ l.getD i []).Perm (ys ++ l.flatten)
  | [], _, h => absurd h (by simp)
  | q :: l, 0, _ => by
    simp only [List.set_cons_zero, List.flatten_cons, List.getD_cons_zero, List.append_assoc]
    exact (@List.perm_append_comm _ l.flatten q).append_left ys
  | q :: l, i + 1, h => by
    have ih := flatten_set_perm_of_lt ys (l := l) (i := i) (by simpa using h)
    simp only [List.set_cons_succ, List.flatten_cons, List.getD_cons_succ, List.append_assoc]
    exact (ih.append_left q).trans (List.perm_append_comm_assoc q ys l.flatten)

theorem forall_mem_modify {P : α → Prop} (f : α → α) :
    ∀ {l : List α} {i : Nat}, (∀ x ∈ l, P x) → (∀ x ∈ l, P (f x)) → ∀ x ∈ l.modify i f, P x
  | [], _, _, _ => by simp
  | y :: l, 0, h, hf => by
    simp only [List.modify_zero_cons, List.mem_cons, forall_eq_or_imp]
    exact ⟨hf y (by simp), fun x hx => h x (by simp [hx])⟩
  | y :: l, i + 1, h, hf => by
    simp only [List.modify_succ_cons, List.mem_cons, forall_eq_or_imp]
    exact ⟨h y (by simp), forall_mem_modify f (fun x hx => h x (by simp [hx]))
      (fun x hx => hf x (by simp [hx]))⟩

theorem getD_modify_ne (f : α → α) {l : List α} {i j : Nat} (h : j ≠ i) :
    (l.modify i f).getD j = l.getD j := by
  funext d
  simp [List.getD_eq_getElem?_getD, Ne.symm h]

theorem getD_modify_self (f : α → α) {l : List α} {i : Nat} (h : i < l.length) (d : α) :
    (l.modify i f).getD i d = f (l.getD i d) := by
  simp [List.getD_eq_getElem?_getD, h]

theorem exists_mem_set {l : List (List α)} {j : Nat} {ys : List α} {x : α}
    (hys : ∀ y ∈ ys, ∃ q ∈ l, y ∈ q) (h : ∃ q ∈ l.set j ys, x ∈ q) : ∃ q ∈ l, x ∈ q := by
  obtain ⟨q, hq, hx⟩ := h
  rcases List.mem_or_eq_of_mem_set hq with hq | rfl
  · exact ⟨q, hq, hx⟩
  · exact hys x hx

theorem exists_mem_modify_append {l : List (List α)} {j : Nat} {b : List α} {x : α}
    (h : ∃ q ∈ l.modify j (· ++ b), x ∈ q) : (∃ q ∈ l, x ∈ q) ∨ x ∈ b := by
  obtain ⟨q, hq, hx⟩ := h
  refine forall_mem_modify (P := fun q => ∀ x ∈ q, (∃ q ∈ l, x ∈ q) ∨ x ∈ b) (· ++ b)
    (fun q hq x hx => .inl ⟨q, hq, hx⟩) (fun q hq x hx => ?_) q hq x hx
  rcases List.mem_append.mp hx with hx | hx
  · exact .inl ⟨q, hq, hx⟩
  · exact .inr hx

theorem sum_lengths (l : List (List α)) : (l.map List.length).foldr (· + ·) 0 = l.flatten.length := by
  induction l with
  | nil => rfl
  | cons q l ih => simp [ih]

end Queues

namespace Injector

@[simp] theorem items_foldl_push (xs : List Entity) (q : Injector) :
    (xs.foldl Injector.push q).items = q.items ++ xs := by
  induction xs generalizing q with
  | nil => simp
  | cons x xs ih => simp [ih, items_push]

end Injector

namespace Stealing

/-! ## 2. Where a ready entity goes -/

/-- A queue of a work-stealing group. -/
inductive Place where
  | reactor
  | pinned (i : Nat)
  | global
  | deque (i : Nat)
  deriving DecidableEq, Repr

/-- The entities queued at a place, the front first. -/
def queueAt (s : Stealing) : Place → List Entity
  | .reactor => s.reactor.items
  | .pinned i => s.pinned.getD i []
  | .global => s.global.items
  | .deque i => s.deque i

/-- Where an entity made ready by thread `t` belongs: a reactor entity in the reactor queue;
a group-local one in the pinned queue of its home worker, else of the calling worker, else
of any worker; a yielded one in the global queue; any other in the caller's deque when the
caller entered this group and its deque has room, and otherwise in the global queue. -/
inductive Routes (s : Stealing) (t : Nat) (e : Entity) (yielded : Bool) : Place → Prop where
  | reactor : e.reactor = true → Routes s t e yielded .reactor
  | home (h : Nat) : e.reactor = false → e.groupLocal = true → e.home = some h → h < s.size →
      Routes s t e yielded (.pinned h)
  | caller (i : Nat) : e.reactor = false → e.groupLocal = true → (∀ h, e.home = some h → s.size ≤ h) →
      s.localIndex t = some i → Routes s t e yielded (.pinned i)
  | anyWorker (i : Nat) : e.reactor = false → e.groupLocal = true → (∀ h, e.home = some h → s.size ≤ h) →
      s.localIndex t = none → i < s.size → Routes s t e yielded (.pinned i)
  | yielded : e.reactor = false → e.groupLocal = false → yielded = true → Routes s t e yielded .global
  | own (i : Nat) : e.reactor = false → e.groupLocal = false → yielded = false → s.localIndex t = some i →
      (s.deque i).length < s.localCapacity → Routes s t e yielded (.deque i)
  | spill : e.reactor = false → e.groupLocal = false → yielded = false →
      (∀ i, s.localIndex t = some i → s.localCapacity ≤ (s.deque i).length) → Routes s t e yielded .global

variable {s s' : Stealing} {t i : Nat} {e : Entity}

/-- Without a usable home, a group-local entity goes to the caller's pinned queue, or to the
first one when the caller is no worker of this group. -/
theorem routes_pinned_fallback (hw : s.WF) (hr : e.reactor = false) (hl : e.groupLocal = true)
    (hfar : ∀ h, e.home = some h → s.size ≤ h) (y : Bool) :
    Routes s t e y (.pinned ((s.localIndex t).getD 0)) := by
  cases hi : s.localIndex t with
  | some i => exact .caller i hr hl hfar hi
  | none => exact .anyWorker 0 hr hl hfar hi hw.pos

/-- The pinned queue a group-local entity goes to is one the routing rule allows. -/
theorem routes_pinnedIndex (hw : s.WF) (hr : e.reactor = false) (hl : e.groupLocal = true) (y : Bool) :
    Routes s t e y (.pinned (s.pinnedIndex t e)) := by
  unfold pinnedIndex
  cases hh : e.home with
  | none => exact routes_pinned_fallback hw hr hl (fun h he => by simp [hh] at he) y
  | some h =>
    by_cases hlt : h < s.size
    · simpa only [hlt, if_true] using Routes.home h hr hl hh hlt
    · simp only [hlt, if_false]
      refine routes_pinned_fallback hw hr hl (fun h' he => ?_) y
      rw [hh, Option.some.injEq] at he
      omega

/-- The queues after `e` joined the tail of the one at `p`. -/
def Added (s s' : Stealing) (e : Entity) (p : Place) : Prop :=
  ∀ q, s'.queueAt q = if q = p then s.queueAt q ++ [e] else s.queueAt q

theorem added_reactor : Added s { s with reactor := s.reactor.push e } e .reactor := by
  intro q
  cases q <;> simp [queueAt, deque, Injector.items_push]

theorem added_global : Added s { s with global := s.global.push e } e .global := by
  intro q
  cases q <;> simp [queueAt, deque, Injector.items_push]

theorem added_pinned (hi : i < s.pinned.length) :
    Added s { s with pinned := s.pinned.modify i (· ++ [e]) } e (.pinned i) := by
  intro q
  cases q with
  | pinned j =>
    by_cases hj : j = i
    · subst hj
      simp only [queueAt, getD_modify_self _ hi, if_true]
    · simp only [queueAt, getD_modify_ne _ hj, Place.pinned.injEq, hj, if_false]
  | _ => simp [queueAt, deque]

theorem added_deque (hi : i < s.deques.length) :
    Added s { s with deques := s.deques.modify i (· ++ [e]) } e (.deque i) := by
  intro q
  cases q with
  | deque j =>
    by_cases hj : j = i
    · subst hj
      simp only [queueAt, deque, getD_modify_self _ hi, if_true]
    · simp only [queueAt, deque, getD_modify_ne _ hj, Place.deque.injEq, hj, if_false]
  | _ => simp [queueAt]

/-- Making an entity ready appends it to the one queue the routing rule names, and to no
other. -/
theorem pushReady_routes (hw : s.WF) (e : Entity) (y : Bool) :
    ∃ p, Routes s t e y p ∧ Added s (s.pushReady t e y) e p := by
  unfold pushReady
  by_cases hr : e.reactor = true
  · exact ⟨.reactor, .reactor hr, by simpa [hr] using added_reactor⟩
  have hr' : e.reactor = false := by simpa using hr
  by_cases hl : e.groupLocal = true
  · refine ⟨.pinned (s.pinnedIndex t e), routes_pinnedIndex hw hr' hl y, ?_⟩
    simpa [hr, hl] using added_pinned (by rw [hw.pinned]; exact pinnedIndex_lt hw e)
  have hl' : e.groupLocal = false := by simpa using hl
  by_cases hy : y = true
  · exact ⟨.global, .yielded hr' hl' hy, by simpa [hr, hl, hy] using added_global⟩
  have hy' : y = false := by simpa using hy
  cases hi : s.localIndex t with
  | none =>
    refine ⟨.global, .spill hr' hl' hy' (fun i h => by simp [hi] at h), ?_⟩
    simpa [hr, hl, hy, hi] using added_global
  | some i =>
    by_cases hc : (s.deque i).length < s.localCapacity
    · refine ⟨.deque i, .own i hr' hl' hy' hi hc, ?_⟩
      simpa [hr, hl, hy, hi, hc] using added_deque (by rw [hw.deques]; exact hw.slots t i hi)
    · refine ⟨.global, .spill hr' hl' hy' (fun j h => ?_), ?_⟩
      · rw [hi, Option.some.injEq] at h
        subst h
        omega
      · simpa [hr, hl, hy, hi, hc] using added_global

/-! ## 3. The classes of the queues -/

/-- The entities a place may hold: reactor entities in the reactor queue, group-local ones that
are not reactor entities in the pinned queues, and all others in the global queue and the
deques. -/
def Place.admits : Place → Entity → Bool
  | .reactor, e => e.reactor
  | .pinned _, e => e.groupLocal && !e.reactor
  | .global, e | .deque _, e => !e.groupLocal && !e.reactor

/-- Queued in some pinned queue. -/
def PinnedQueued (s : Stealing) (e : Entity) : Prop := ∃ q ∈ s.pinned, e ∈ q

/-- Queued in the global queue or in some deque. -/
def PlainQueued (s : Stealing) (e : Entity) : Prop := e ∈ s.global.items ∨ ∃ q ∈ s.deques, e ∈ q

/-- Every queue holds only entities of its class. -/
structure Classes (s : Stealing) : Prop where
  reactor : ∀ e ∈ s.reactor.items, Place.reactor.admits e = true
  pinned : ∀ e, s.PinnedQueued e → (Place.pinned 0).admits e = true
  plain : ∀ e, s.PlainQueued e → Place.global.admits e = true

theorem mem_getD_of_mem {α : Type} {l : List (List α)} {i : Nat} {x : α} (h : x ∈ l.getD i []) :
    ∃ q ∈ l, x ∈ q := by
  rw [List.getD_eq_getElem?_getD] at h
  cases hq : l[i]? with
  | none => simp [hq] at h
  | some q =>
    rw [hq, Option.getD_some] at h
    exact ⟨q, List.mem_of_getElem? hq, h⟩

/-- Read at any place, the classes say what the claim says. -/
theorem Classes.queueAt (hc : s.Classes) {p : Place} (he : e ∈ s.queueAt p) : p.admits e = true := by
  cases p with
  | reactor => exact hc.reactor e he
  | pinned i => exact hc.pinned e (mem_getD_of_mem he)
  | global => exact hc.plain e (.inl he)
  | deque i => exact hc.plain e (.inr (mem_getD_of_mem he))

/-- An entity is routed to a queue of its class. -/
theorem Routes.admits {y : Bool} {p : Place} (h : Routes s t e y p) : p.admits e = true := by
  cases h <;> simp_all [Place.admits]

theorem Classes.of_queueAt (h : ∀ p, ∀ e ∈ s.queueAt p, p.admits e = true) : s.Classes where
  reactor := h .reactor
  pinned e := by
    rintro ⟨q, hq, he⟩
    obtain ⟨i, hi, rfl⟩ := List.getElem_of_mem hq
    refine h (.pinned i) e ?_
    show e ∈ s.pinned.getD i []
    rwa [List.getD_eq_getElem _ _ hi]
  plain e := by
    rintro (he | ⟨q, hq, he⟩)
    · exact h .global e he
    · obtain ⟨i, hi, rfl⟩ := List.getElem_of_mem hq
      refine h (.deque i) e ?_
      show e ∈ s.deques.getD i []
      rwa [List.getD_eq_getElem _ _ hi]

/-- Adding an entity to a queue of its class keeps the classes. -/
theorem Classes.added (hc : s.Classes) {p : Place} (ha : Added s s' e p) (he : p.admits e = true) :
    s'.Classes := by
  refine Classes.of_queueAt (fun q x hx => ?_)
  rw [ha q] at hx
  split at hx
  · rename_i hq
    rcases List.mem_append.mp hx with hx | hx
    · exact hc.queueAt hx
    · rw [List.mem_singleton.mp hx, hq]
      exact he
  · exact hc.queueAt hx

theorem pushReady_classes (hw : s.WF) (hc : s.Classes) (e : Entity) (y : Bool) :
    (s.pushReady t e y).Classes := by
  obtain ⟨p, hr, ha⟩ := pushReady_routes (t := t) hw e y
  exact hc.added ha hr.admits

/-- What a take leaves: every entity still queued was queued before in a queue of the same
class. -/
structure Drawn (s s' : Stealing) : Prop where
  reactor : ∀ e ∈ s'.reactor.items, e ∈ s.reactor.items
  pinned : ∀ e, s'.PinnedQueued e → s.PinnedQueued e
  plain : ∀ e, s'.PlainQueued e → s.PlainQueued e

theorem Drawn.refl (s : Stealing) : Drawn s s := ⟨fun _ h => h, fun _ h => h, fun _ h => h⟩

theorem Drawn.trans {s₂ : Stealing} (h₁ : Drawn s s') (h₂ : Drawn s' s₂) : Drawn s s₂ :=
  ⟨fun e h => h₁.reactor e (h₂.reactor e h), fun e h => h₁.pinned e (h₂.pinned e h),
    fun e h => h₁.plain e (h₂.plain e h)⟩

theorem Classes.drawn (hc : s.Classes) (hd : Drawn s s') : s'.Classes :=
  ⟨fun e h => hc.reactor e (hd.reactor e h), fun e h => hc.pinned e (hd.pinned e h),
    fun e h => hc.plain e (hd.plain e h)⟩

/-! ### Takes and moves keep the classes -/

theorem popDeque_drawn {j : Nat} {o : Option Entity} (h : s.popDeque j = (s', o)) : Drawn s s' := by
  unfold popDeque at h
  split at h
  · simp only [Prod.mk.injEq] at h
    rw [← h.1]
    exact Drawn.refl s
  · rename_i x rest hd
    simp only [Prod.mk.injEq] at h
    rw [← h.1]
    refine ⟨fun _ h => h, fun _ h => h, fun e he => ?_⟩
    rcases he with he | he
    · exact .inl he
    · refine .inr (exists_mem_set (fun y hy => mem_getD_of_mem (i := j) ?_) he)
      show y ∈ s.deque j
      rw [hd]
      exact List.mem_cons_of_mem x hy

theorem popPinned_drawn {j : Nat} {o : Option Entity} (h : s.popPinned j = (s', o)) : Drawn s s' := by
  unfold popPinned at h
  split at h
  · simp only [Prod.mk.injEq] at h
    rw [← h.1]
    exact Drawn.refl s
  · rename_i x rest hd
    simp only [Prod.mk.injEq] at h
    rw [← h.1]
    refine ⟨fun _ h => h, fun e he => exists_mem_set (fun y hy => mem_getD_of_mem (i := j) ?_) he,
      fun _ h => h⟩
    rw [hd]
    exact List.mem_cons_of_mem x hy

theorem popLocal_drawn {o : Option Entity} (h : s.popLocal t = (s', o)) : Drawn s s' := by
  unfold popLocal at h
  split at h
  · exact popDeque_drawn h
  · simp only [Prod.mk.injEq] at h
    rw [← h.1]
    exact Drawn.refl s

theorem acquireReactor_drawn {o : Option Entity} (h : s.acquireReactor = (s', o)) : Drawn s s' := by
  unfold acquireReactor at h
  rcases hsteal : s.reactor.steal with ⟨r, o'⟩
  simp only [hsteal, Prod.mk.injEq] at h
  rw [← h.1]
  refine ⟨fun e he => ?_, fun _ h => h, fun _ h => h⟩
  cases o' with
  | none => rwa [(Injector.steal_none hsteal rfl).1] at he
  | some x =>
    rw [Injector.steal_some hsteal]
    exact List.mem_cons_of_mem x he

/-- What a batch steal leaves of an injector, with what it took. -/
theorem Injector.stealBatch_items {q q' : Injector} {batch : List Entity} {o : Option Entity}
    (h : q.stealBatch = (q', batch, o)) : q.items = o.toList ++ (batch ++ q'.items) := by
  cases o with
  | none =>
    obtain ⟨rfl, rfl, hq⟩ := Injector.stealBatch_none h rfl
    simp [hq]
  | some x => simpa using Injector.stealBatch_some h

theorem Injector.steal_items {q q' : Injector} {o : Option Entity} (h : q.steal = (q', o)) :
    q.items = o.toList ++ q'.items := by
  cases o with
  | none =>
    obtain ⟨rfl, hq⟩ := Injector.steal_none h rfl
    simp [hq]
  | some x => simpa using Injector.steal_some h

theorem stealGlobal_drawn {o : Option Entity} (h : s.stealGlobal t = (s', o)) : Drawn s s' := by
  unfold stealGlobal at h
  split at h
  · rename_i j hj
    rcases hsteal : s.global.stealBatch with ⟨g, batch, o'⟩
    simp only [hsteal, Prod.mk.injEq] at h
    rw [← h.1]
    have hg := Injector.stealBatch_items hsteal
    -- the batch leaves the global queue for the thief's deque
    refine ⟨fun _ h => h, fun _ h => h, fun e he => ?_⟩
    rcases he with he | he
    · exact .inl (by rw [hg]; simp [he])
    · rcases exists_mem_modify_append he with he | he
      · exact .inr he
      · exact .inl (by rw [hg]; simp [he])
  · rcases hsteal : s.global.steal with ⟨g, o'⟩
    simp only [hsteal, Prod.mk.injEq] at h
    rw [← h.1]
    have hg := Injector.steal_items hsteal
    refine ⟨fun _ h => h, fun _ h => h, fun e he => ?_⟩
    rcases he with he | he
    · exact .inl (by rw [hg]; simp [he])
    · exact .inr he

theorem tick_drawn (t : Nat) : Drawn s (s.tick t).1 := by
  unfold tick
  split
  · exact Drawn.refl s
  · exact ⟨fun _ h => h, fun _ h => h, fun _ h => h⟩

theorem acquire_drawn {o : Option Entity} (h : s.acquire t i = (s', o)) : Drawn s s' := by
  unfold acquire at h
  rcases ht : s.tick t with ⟨s₁, due⟩
  have d₁ : Drawn s s₁ := by simpa only [ht] using tick_drawn (s := s) t
  simp only [ht] at h
  -- the reactor queue when due, then the pinned queue, the own deque and the global queue
  rcases hr : (if due = true then s₁.acquireReactor else (s₁, none)) with ⟨s₂, o₂⟩
  have d₂ : Drawn s₁ s₂ := by
    split at hr
    · exact acquireReactor_drawn hr
    · simp only [Prod.mk.injEq] at hr
      rw [← hr.1]
      exact Drawn.refl _
  simp only [hr] at h
  cases o₂ with
  | some e₂ =>
    simp only [Prod.mk.injEq] at h
    rw [← h.1]
    exact d₁.trans d₂
  | none =>
    rcases hp : s₂.popPinned i with ⟨s₃, o₃⟩
    have d₃ := popPinned_drawn hp
    simp only [hp] at h
    cases o₃ with
    | some e₃ =>
      simp only [Prod.mk.injEq] at h
      rw [← h.1]
      exact (d₁.trans d₂).trans d₃
    | none =>
      rcases hl : s₃.popLocal t with ⟨s₄, o₄⟩
      have d₄ := popLocal_drawn hl
      simp only [hl] at h
      cases o₄ with
      | some e₄ =>
        simp only [Prod.mk.injEq] at h
        rw [← h.1]
        exact ((d₁.trans d₂).trans d₃).trans d₄
      | none => exact (((d₁.trans d₂).trans d₃).trans d₄).trans (stealGlobal_drawn h)

theorem stealFromPeers_drawn {o : Option Entity} (h : s.stealFromPeers i = (s', o)) : Drawn s s' := by
  unfold stealFromPeers at h
  dsimp only at h
  split at h
  · exact popDeque_drawn h
  · simp only [Prod.mk.injEq] at h
    rw [← h.1]
    exact Drawn.refl s

theorem remoteAcquire_drawn {o : Option Entity} (h : s.remoteAcquire = (s', o)) : Drawn s s' := by
  unfold remoteAcquire at h
  rcases hsteal : s.global.steal with ⟨g, o'⟩
  simp only [hsteal] at h
  cases o' with
  | some x =>
    simp only [Prod.mk.injEq] at h
    rw [← h.1]
    have hg := Injector.steal_items hsteal
    refine ⟨fun _ h => h, fun _ h => h, fun e he => ?_⟩
    rcases he with he | he
    · exact .inl (by rw [hg]; simp [he])
    · exact .inr he
  | none =>
    obtain ⟨rfl, -⟩ := Injector.steal_none hsteal rfl
    simp only at h
    split at h
    · exact popDeque_drawn h
    · simp only [Prod.mk.injEq] at h
      rw [← h.1]
      exact Drawn.refl s

/-! ## 4. Entering and leaving -/

theorem lookup_filter_ne (t u : Nat) : ∀ ps : List (Nat × WorkerSlot),
    (ps.filter (·.1 ≠ t)).lookup u = if u = t then none else ps.lookup u
  | [] => by simp
  | (v, sl) :: ps => by
    have ih := lookup_filter_ne t u ps
    by_cases hv : v = t
    · subst hv
      have hf : ((v, sl) :: ps).filter (·.1 ≠ v) = ps.filter (·.1 ≠ v) := by simp
      rw [hf, ih]
      by_cases hu : u = v
      · simp [hu]
      · have hb : (u == v) = false := by simpa using hu
        simp [List.lookup, hb, hu]
    · have hf : ((v, sl) :: ps).filter (·.1 ≠ t) = (v, sl) :: ps.filter (·.1 ≠ t) := by
        simp [hv]
      rw [hf]
      by_cases hu : u = v
      · subst hu
        simp [List.lookup, hv]
      · have hb : (u == v) = false := by simpa using hu
        simp only [List.lookup, hb, ih]

theorem lookup_enter (t u : Nat) (sl : WorkerSlot) (ps : List (Nat × WorkerSlot)) :
    (ps.filter (·.1 ≠ t) ++ [(t, sl)]).lookup u = if u = t then some sl else ps.lookup u := by
  rw [List.lookup_append, lookup_filter_ne]
  by_cases hu : u = t
  · subst hu
    simp [List.lookup]
  · have hb : (u == t) = false := by simpa using hu
    simp [hu, List.lookup, hb]

theorem localIndex_enter {index : Nat} (h : s.enter t index = .ok s') (u : Nat) :
    s'.localIndex u = if u = t then some index else s.localIndex u := by
  unfold enter at h
  split at h
  · simp only [Except.ok.injEq] at h
    subst h
    unfold localIndex slotOf
    rw [lookup_enter]
    split <;> rfl
  · simp at h

/-- Entering claims a worker and moves no entity. -/
theorem enter_ok {index : Nat} (hw : s.WF) (h : s.enter t index = .ok s') :
    s'.entities = s.entities ∧ Drawn s s' ∧ s'.WF := by
  have hl := localIndex_enter h
  unfold enter at h
  split at h
  · rename_i hc
    simp only [Except.ok.injEq] at h
    subst h
    refine ⟨rfl, ⟨fun _ h => h, fun _ h => h, fun _ h => h⟩, ⟨hw.deques, hw.pinned, hw.pos, fun u j hj => ?_⟩⟩
    rw [hl u] at hj
    split at hj
    · rw [Option.some.injEq] at hj
      show j < s.size
      exact hj ▸ hc.1
    · exact hw.slots u j hj
  · simp at h

/-- Leaving drains the thread's deque into the global queue: the same entities, in queues of
the same class. -/
theorem leave_ok (hw : s.WF) (t : Nat) :
    (s.leave t).entities.Perm s.entities ∧ Drawn s (s.leave t) ∧ (s.leave t).WF := by
  unfold leave
  split
  · exact ⟨List.Perm.refl _, Drawn.refl s, hw⟩
  · rename_i i hi
    have hlt : i < s.deques.length := by rw [hw.deques]; exact hw.slots t i hi
    refine ⟨?_, ⟨fun _ h => h, fun _ h => h, fun e he => ?_⟩, ⟨by simpa using hw.deques, hw.pinned, hw.pos,
      fun u j hj => ?_⟩⟩
    · have hp := Multiset.coe_eq_coe.mpr (flatten_set_perm_of_lt [] hlt)
      simp only [← Multiset.coe_add, List.nil_append] at hp
      rw [← Multiset.coe_eq_coe, coe_entities, coe_entities]
      simp only [Injector.items_foldl_push, ← Multiset.coe_add, deque]
      rw [← hp]
      abel
    · rcases he with he | he
      · simp only [Injector.items_foldl_push, List.mem_append] at he
        rcases he with he | he
        · exact .inl he
        · exact .inr (mem_getD_of_mem he)
      · exact .inr (exists_mem_set (by simp) he)
    · simp only [localIndex, slotOf, lookup_filter_ne] at hj
      split at hj
      · simp at hj
      · exact hw.slots u j hj

/-! ## 5. Starting batches -/

theorem pushGlobal_perm (e : Entity) : ({ s with global := s.global.push e } : Stealing).entities.Perm
    (e :: s.entities) := by
  rw [← Multiset.coe_eq_coe, ← Multiset.cons_coe, coe_entities, coe_entities]
  simp only [Injector.items_push, ← Multiset.coe_add, Multiset.coe_singleton, ← Multiset.singleton_add]
  abel

/-- Starting a batch queues exactly its entities, each in a queue of its class. -/
theorem startAll_ok (t : Nat) : ∀ (es : List Entity) {s : Stealing}, s.WF → s.Classes →
    (s.startAll t es).entities.Perm (es ++ s.entities) ∧ (s.startAll t es).WF ∧ (s.startAll t es).Classes
  | [], s, hw, hc => ⟨List.Perm.refl _, hw, hc⟩
  | e :: es, s, hw, hc => by
    -- a group-local or reactor entity is made ready; any other goes to the global queue
    have hstep : ∃ s₁ : Stealing, s.startAll t (e :: es) = s₁.startAll t es ∧
        s₁.entities.Perm (e :: s.entities) ∧ s₁.WF ∧ s₁.Classes := by
      by_cases hx : e.groupLocal = true ∨ e.reactor = true
      · refine ⟨s.pushReady t e false, by simp [startAll, hx], pushReady_perm hw e false,
          pushReady_wf hw e false, pushReady_classes hw hc e false⟩
      · refine ⟨{ s with global := s.global.push e }, by simp [startAll, hx], pushGlobal_perm e,
          ⟨hw.deques, hw.pinned, hw.pos, hw.slots⟩, hc.added added_global ?_⟩
        simp only [not_or, Bool.not_eq_true] at hx
        simp [Place.admits, hx.1, hx.2]
    obtain ⟨s₁, heq, hp, hw₁, hc₁⟩ := hstep
    obtain ⟨ip, iw, ic⟩ := startAll_ok t es hw₁ hc₁
    rw [heq]
    exact ⟨ip.trans ((hp.append_left es).trans List.perm_middle), iw, ic⟩

/-! ## 6. Taking -/

/-- What a take leaves: the queues held the entity handed out, if any, and what is left, in a
well-formed group. -/
def Gave (s s' : Stealing) (o : Option Entity) : Prop := s.entities.Perm (o.toList ++ s'.entities) ∧ s'.WF

theorem Took.gave (h : Took s s' e) : Gave s s' (some e) := ⟨h.1, h.2.2.1⟩

theorem Kept.gave (h : Kept s s') : Gave s s' none := ⟨by simp [h.1], h.2.2.1⟩

theorem remoteAcquire_gave (hw : s.WF) {o : Option Entity} (h : s.remoteAcquire = (s', o)) : Gave s s' o := by
  unfold remoteAcquire at h
  rcases hsteal : s.global.steal with ⟨g, o'⟩
  simp only [hsteal] at h
  cases o' with
  | some x =>
    simp only [Prod.mk.injEq] at h
    obtain ⟨rfl, rfl⟩ := h
    refine ⟨?_, ⟨hw.deques, hw.pinned, hw.pos, hw.slots⟩⟩
    rw [← Multiset.coe_eq_coe, Option.toList_some, List.singleton_append, ← Multiset.cons_coe, coe_entities,
      coe_entities, Injector.steal_some hsteal, ← Multiset.cons_coe]
    simp only [← Multiset.singleton_add]
    abel
  | none =>
    obtain ⟨rfl, -⟩ := Injector.steal_none hsteal rfl
    simp only at h
    split at h
    · cases o with
      | none => rw [popDeque_none h rfl]; exact (Kept.refl hw).gave
      | some x => exact (popDeque_took hw h).gave
    · simp only [Prod.mk.injEq] at h
      obtain ⟨rfl, rfl⟩ := h
      exact (Kept.refl hw).gave

theorem acquire_gave (hw : s.WF) {o : Option Entity} (h : s.acquire t i = (s', o)) : Gave s s' o := by
  cases o with
  | none => exact (acquire_kept hw h).gave
  | some x => exact (acquire_took hw h).gave

theorem acquireReactor_gave (hw : s.WF) {o : Option Entity} (h : s.acquireReactor = (s', o)) : Gave s s' o := by
  cases o with
  | none => rw [acquireReactor_none h rfl]; exact (Kept.refl hw).gave
  | some x => exact (acquireReactor_took hw h).gave

theorem stealFromPeers_gave (hw : s.WF) {o : Option Entity} (h : s.stealFromPeers i = (s', o)) :
    Gave s s' o := by
  cases o with
  | none => rw [stealFromPeers_none h rfl]; exact (Kept.refl hw).gave
  | some x => exact (stealFromPeers_took hw h).gave

theorem stealGlobal_gave (hw : s.WF) {o : Option Entity} (h : s.stealGlobal t = (s', o)) : Gave s s' o := by
  cases o with
  | none => rw [stealGlobal_none h rfl]; exact (Kept.refl hw).gave
  | some x => exact (stealGlobal_took hw h).gave

theorem popDeque_mem {j : Nat} (h : s.popDeque j = (s', some e)) : e ∈ s.deque j := by
  unfold popDeque at h
  split at h
  · simp at h
  · rename_i x rest hd
    simp only [Prod.mk.injEq, Option.some.injEq] at h
    rw [hd, h.2]
    exact List.mem_cons_self

/-- A thief takes from a deque. -/
theorem stealFromPeers_plain (h : s.stealFromPeers i = (s', some e)) : s.PlainQueued e := by
  unfold stealFromPeers at h
  dsimp only at h
  split at h
  · exact .inr (mem_getD_of_mem (popDeque_mem h))
  · simp at h

/-- A take from the global queue hands out its front. -/
theorem stealGlobal_plain (h : s.stealGlobal t = (s', some e)) : s.PlainQueued e := by
  unfold stealGlobal at h
  split at h
  · rcases hsteal : s.global.stealBatch with ⟨g, batch, o⟩
    simp only [hsteal, Prod.mk.injEq] at h
    rw [h.2] at hsteal
    exact .inl (by rw [Injector.stealBatch_some hsteal]; exact List.mem_cons_self)
  · rcases hsteal : s.global.steal with ⟨g, o⟩
    simp only [hsteal, Prod.mk.injEq] at h
    rw [h.2] at hsteal
    exact .inl (by rw [Injector.steal_some hsteal]; exact List.mem_cons_self)

/-- Another group takes from the global queue or a deque. -/
theorem remoteAcquire_plain (h : s.remoteAcquire = (s', some e)) : s.PlainQueued e := by
  unfold remoteAcquire at h
  rcases hsteal : s.global.steal with ⟨g, o⟩
  simp only [hsteal] at h
  cases o with
  | some x =>
    simp only [Prod.mk.injEq, Option.some.injEq] at h
    rw [← h.2]
    exact .inl (by rw [Injector.steal_some hsteal]; exact List.mem_cons_self)
  | none =>
    simp only at h
    split at h
    · exact .inr (mem_getD_of_mem (popDeque_mem h))
    · simp at h

/-! ## 7. Calls and their ledger -/

/-- A call a thread makes on a work-stealing group. -/
inductive Call where
  /-- Thread `t` claims worker `i`'s deque. -/
  | enter (t i : Nat)
  | leave (t : Nat)
  /-- Thread `t` starts a fiber. -/
  | startFiber (t : Nat) (e : Entity)
  | startFibers (t : Nat) (es : List Entity)
  /-- Thread `t` makes a fiber ready again: a resume, or a requeue after a yield (`yielded`) or
  a switch. -/
  | pushReady (t : Nat) (e : Entity) (yielded : Bool)
  /-- Worker `i` on thread `t` acquires. -/
  | acquire (t i : Nat)
  | acquireReactor
  /-- A thief, worker `i`, steals from its peers' deques. -/
  | stealFromPeers (i : Nat)
  /-- Thread `t` takes from the global queue, moving a batch into its deque if it has one. -/
  | stealGlobal (t : Nat)
  /-- Another group takes work. -/
  | remoteAcquire
  deriving Inhabited, Repr

namespace Call

/-- The entities a call puts in. -/
def puts : Call → List Entity
  | .startFiber _ e | .pushReady _ e _ => [e]
  | .startFibers _ es => es
  | _ => []

/-- Whether the call is a thief's or another group's. -/
def byThief : Call → Bool
  | .stealFromPeers _ | .stealGlobal _ | .remoteAcquire => true
  | _ => false

end Call

/-- A call: the group after it and the entity it hands out, if any. Entering a claimed or
missing worker aborts. -/
def call (s : Stealing) : Call → Except Abort (Stealing × Option Entity)
  | .enter t i => (s.enter t i).map (fun s => (s, none))
  | .leave t => .ok (s.leave t, none)
  | .startFiber t e => .ok (s.pushReady t e false, none)
  | .startFibers t es => .ok (s.startAll t es, none)
  | .pushReady t e y => .ok (s.pushReady t e y, none)
  | .acquire t i => .ok (s.acquire t i)
  | .acquireReactor => .ok s.acquireReactor
  | .stealFromPeers i => .ok (s.stealFromPeers i)
  | .stealGlobal t => .ok (s.stealGlobal t)
  | .remoteAcquire => .ok s.remoteAcquire

/-- Runs calls in order, stopping at an abort: the group after them and the entities they
handed out, in order. -/
def runCalls (s : Stealing) : List Call → Except Abort (Stealing × List Entity)
  | [] => .ok (s, [])
  | c :: cs =>
    match s.call c with
    | .ok (s', o) => (s'.runCalls cs).map (fun r => (r.1, o.toList ++ r.2))
    | .error a => .error a

/-- The ledger of one call: what it hands out and what stays queued is what it puts in and
what was queued; the group stays well formed and its queues keep to their classes. -/
def Ledger (s s' : Stealing) (puts out : List Entity) : Prop :=
  (out ++ s'.entities).Perm (puts ++ s.entities) ∧ s'.WF ∧ s'.Classes

theorem Gave.ledger {o : Option Entity} (hg : Gave s s' o) (hd : Drawn s s') (hc : s.Classes) :
    Ledger s s' [] o.toList :=
  ⟨by simpa using hg.1.symm, hg.2, hc.drawn hd⟩

theorem ledger_put {e : Entity} (hp : s'.entities.Perm (e :: s.entities)) (hw : s'.WF) (hc : s'.Classes) :
    Ledger s s' [e] [] :=
  ⟨by simpa using hp, hw, hc⟩

/-- Every call keeps the ledger. -/
theorem call_ledger {c : Call} {o : Option Entity} (hw : s.WF) (hc : s.Classes) (h : s.call c = .ok (s', o)) :
    Ledger s s' c.puts o.toList := by
  cases c with
  | enter t i =>
    cases he : s.enter t i with
    | error a => simp [call, he, Except.map] at h
    | ok s₁ =>
      simp only [call, he, Except.map, Except.ok.injEq, Prod.mk.injEq] at h
      obtain ⟨rfl, rfl⟩ := h
      obtain ⟨hent, hd, hw'⟩ := enter_ok hw he
      exact ⟨by simp [hent, Call.puts], hw', hc.drawn hd⟩
  | leave t =>
    simp only [call, Except.ok.injEq, Prod.mk.injEq] at h
    obtain ⟨rfl, rfl⟩ := h
    obtain ⟨hp, hd, hw'⟩ := leave_ok hw t
    exact ⟨by simpa [Call.puts] using hp, hw', hc.drawn hd⟩
  | startFiber t e =>
    simp only [call, Except.ok.injEq, Prod.mk.injEq] at h
    obtain ⟨rfl, rfl⟩ := h
    exact ledger_put (pushReady_perm hw e false) (pushReady_wf hw e false) (pushReady_classes hw hc e false)
  | startFibers t es =>
    simp only [call, Except.ok.injEq, Prod.mk.injEq] at h
    obtain ⟨rfl, rfl⟩ := h
    obtain ⟨hp, hw', hc'⟩ := startAll_ok t es hw hc
    exact ⟨by simpa [Call.puts] using hp, hw', hc'⟩
  | pushReady t e y =>
    simp only [call, Except.ok.injEq, Prod.mk.injEq] at h
    obtain ⟨rfl, rfl⟩ := h
    exact ledger_put (pushReady_perm hw e y) (pushReady_wf hw e y) (pushReady_classes hw hc e y)
  | acquire t i =>
    simp only [call, Except.ok.injEq] at h
    exact (acquire_gave hw h).ledger (acquire_drawn h) hc
  | acquireReactor =>
    simp only [call, Except.ok.injEq] at h
    exact (acquireReactor_gave hw h).ledger (acquireReactor_drawn h) hc
  | stealFromPeers i =>
    simp only [call, Except.ok.injEq] at h
    exact (stealFromPeers_gave hw h).ledger (stealFromPeers_drawn h) hc
  | stealGlobal t =>
    simp only [call, Except.ok.injEq] at h
    exact (stealGlobal_gave hw h).ledger (stealGlobal_drawn h) hc
  | remoteAcquire =>
    simp only [call, Except.ok.injEq] at h
    exact (remoteAcquire_gave hw h).ledger (remoteAcquire_drawn h) hc

open scoped List in
/-- Every run of calls keeps the ledger: what the queues hold and what the calls handed out is,
up to order, what was queued and what the calls put in. -/
theorem runCalls_ledger : ∀ (cs : List Call) {s s' : Stealing} {out : List Entity}, s.WF → s.Classes →
    s.runCalls cs = .ok (s', out) → Ledger s s' (cs.flatMap Call.puts) out
  | [], s, s', out, hw, hc, h => by
    simp only [runCalls, Except.ok.injEq, Prod.mk.injEq] at h
    obtain ⟨rfl, rfl⟩ := h
    exact ⟨by simp, hw, hc⟩
  | c :: cs, s, s', out, hw, hc, h => by
    unfold runCalls at h
    rcases hcall : s.call c with a | ⟨s₁, o⟩
    · simp [hcall] at h
    rw [hcall] at h
    rcases hrun : s₁.runCalls cs with a | ⟨s₂, out'⟩
    · simp [hrun, Except.map] at h
    simp only [hrun, Except.map, Except.ok.injEq, Prod.mk.injEq] at h
    obtain ⟨rfl, rfl⟩ := h
    obtain ⟨p₁, hw₁, hc₁⟩ := call_ledger hw hc hcall
    obtain ⟨p₂, hw₂, hc₂⟩ := runCalls_ledger cs hw₁ hc₁ hrun
    refine ⟨?_, hw₂, hc₂⟩
    -- what this call handed out, then what the rest did, against what each put in
    calc (o.toList ++ out' ++ s₂.entities)
        _ = o.toList ++ (out' ++ s₂.entities) := List.append_assoc _ _ _
        _ ~ o.toList ++ ((cs.flatMap Call.puts) ++ s₁.entities) := p₂.append_left _
        _ ~ (cs.flatMap Call.puts) ++ (o.toList ++ s₁.entities) := List.perm_append_comm_assoc _ _ _
        _ ~ (cs.flatMap Call.puts) ++ (c.puts ++ s.entities) := p₁.append_left _
        _ ~ c.puts ++ ((cs.flatMap Call.puts) ++ s.entities) := List.perm_append_comm_assoc _ _ _
        _ = (c :: cs).flatMap Call.puts ++ s.entities := by simp

/-! ## 8. From the start -/

/-- The count of queued entities is the number of entities the queues hold. -/
theorem queued_eq_length (s : Stealing) : s.queued = s.entities.length := by
  simp [queued, entities, Injector.size, sum_lengths]
  omega

theorem create_wf {n : Nat} (hn : 0 < n) (cap : Nat) : (Stealing.create n cap).WF :=
  ⟨by simp [create], by simp [create], hn, fun t i h => by simp [create, localIndex, slotOf] at h⟩

@[simp] theorem create_entities (n cap : Nat) : (Stealing.create n cap).entities = [] := by
  simp [create, entities]

theorem create_classes (n cap : Nat) : (Stealing.create n cap).Classes where
  reactor e he := by simp [create] at he
  pinned e he := by
    obtain ⟨q, hq, he⟩ := he
    simp only [create, List.mem_replicate] at hq
    simp [hq.2] at he
  plain e he := by
    rcases he with he | ⟨q, hq, he⟩
    · simp [create] at he
    · simp only [create, List.mem_replicate] at hq
      simp [hq.2] at he

/-- A work-stealing scheduler is created empty, for at least one worker. -/
theorem eq_create_of_scheduler {c : Config} {n : Nat} {s : Stealing}
    (h : Scheduler.create c n = .ok (.stealing s)) : s = Stealing.create n c.localQueueCapacity ∧ 0 < n := by
  unfold Scheduler.create at h
  split at h
  · split at h <;> simp at h
  · split at h
    · split at h
      · simp at h
      · simp only [Except.ok.injEq, Scheduler.stealing.injEq] at h
        exact ⟨h.symm, by omega⟩
    · simp at h

/-- A thief or another group takes only entities that are neither group-local nor reactor
entities. -/
theorem call_thief_plain {c : Call} (hc : s.Classes) (hth : c.byThief = true)
    (h : s.call c = .ok (s', some e)) : e.groupLocal = false ∧ e.reactor = false := by
  have hq : s.PlainQueued e := by
    cases c with
    | stealFromPeers i =>
      simp only [call, Except.ok.injEq] at h
      exact stealFromPeers_plain h
    | stealGlobal t =>
      simp only [call, Except.ok.injEq] at h
      exact stealGlobal_plain h
    | remoteAcquire =>
      simp only [call, Except.ok.injEq] at h
      exact remoteAcquire_plain h
    | _ => simp [Call.byThief] at hth
  have := hc.plain e hq
  simpa [Place.admits] using this

/-- **Work-stealing queues route, classify and conserve.** Take a work-stealing scheduler as a
configuration creates it, and any sequence of calls threads make on it. In the group it
reaches, a ready entity goes to exactly the queue the routing rule names; the entities the
queues hold and those the calls handed out are, counted with multiplicity, those the calls
put in; every queue holds only entities of its class; the queued count is what was put in less
what was handed out; and a thief or another group takes no group-local or reactor entity. -/
theorem queues_route_and_conserve {c : Config} {n : Nat} {s₀ s : Stealing} {out : List Entity}
    (hcreate : Scheduler.create c n = .ok (.stealing s₀)) (cs : List Call)
    (hrun : s₀.runCalls cs = .ok (s, out)) :
    (∀ t e y, ∃ p, Routes s t e y p ∧ Added s (s.pushReady t e y) e p) ∧
    (out ++ s.entities).Perm (cs.flatMap Call.puts) ∧
    (∀ p, ∀ e ∈ s.queueAt p, p.admits e = true) ∧
    s.queued + out.length = (cs.flatMap Call.puts).length ∧
    (∀ (c : Call) s' e, c.byThief = true → s.call c = .ok (s', some e) → e.groupLocal = false ∧ e.reactor = false) := by
  obtain ⟨rfl, hn⟩ := eq_create_of_scheduler hcreate
  obtain ⟨hp, hw, hc⟩ := runCalls_ledger cs (create_wf hn _) (create_classes _ _) hrun
  rw [create_entities, List.append_nil] at hp
  refine ⟨fun t e y => pushReady_routes hw e y, hp, fun p e he => hc.queueAt he, ?_,
    fun c s' e hth h => call_thief_plain hc hth h⟩
  rw [queued_eq_length, ← hp.length_eq, List.length_append]
  omega

/-- A fiber started from outside the group goes to the global queue, where another group
takes it. -/
theorem queues_route_and_conserve_remote_take :
    Scheduler.create { scheduling := "v2" } 2 = .ok (.stealing (Stealing.create 2 256)) ∧
    (Stealing.create 2 256).runCalls [.startFiber 0 { id := 7 }, .remoteAcquire] =
      .ok (((Stealing.create 2 256).pushReady 0 { id := 7 } false).remoteAcquire.1, [{ id := 7 }]) ∧
    ((∀ t e y, ∃ p, Routes (((Stealing.create 2 256).pushReady 0 { id := 7 } false).remoteAcquire.1) t e y p ∧
        Added (((Stealing.create 2 256).pushReady 0 { id := 7 } false).remoteAcquire.1)
          ((((Stealing.create 2 256).pushReady 0 { id := 7 } false).remoteAcquire.1).pushReady t e y) e p) ∧
      ([({ id := 7 } : Entity)] ++ (((Stealing.create 2 256).pushReady 0 { id := 7 } false).remoteAcquire.1).entities).Perm
        ([Call.startFiber 0 { id := 7 }, .remoteAcquire].flatMap Call.puts) ∧
      (∀ p, ∀ e ∈ (((Stealing.create 2 256).pushReady 0 { id := 7 } false).remoteAcquire.1).queueAt p,
        p.admits e = true) ∧
      (((Stealing.create 2 256).pushReady 0 { id := 7 } false).remoteAcquire.1).queued + [({ id := 7 } : Entity)].length =
        ([Call.startFiber 0 { id := 7 }, .remoteAcquire].flatMap Call.puts).length ∧
      (∀ (c : Call) s' e, c.byThief = true →
        (((Stealing.create 2 256).pushReady 0 { id := 7 } false).remoteAcquire.1).call c = .ok (s', some e) →
          e.groupLocal = false ∧ e.reactor = false)) :=
  have hcreate : Scheduler.create { scheduling := "v2" } 2 = .ok (.stealing (Stealing.create 2 256)) := rfl
  have hrun : (Stealing.create 2 256).runCalls [.startFiber 0 { id := 7 }, .remoteAcquire] =
      .ok (((Stealing.create 2 256).pushReady 0 { id := 7 } false).remoteAcquire.1, [{ id := 7 }]) := rfl
  ⟨hcreate, hrun, queues_route_and_conserve hcreate _ hrun⟩

end Stealing

end Fibers
