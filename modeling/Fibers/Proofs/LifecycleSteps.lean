import Mathlib
import Fibers.Proofs.LifecycleView
/-!
# Every step keeps every fiber's view in order

`Lifecycle.Inv` asks that every fiber show a view `Look.Ok` allows, that nothing refer to a
fiber that does not exist, and that the scheduler be well formed. Every step keeps it
(`Lifecycle.Inv.step`), and no step aborts (`Lifecycle.Inv.step_ok`): the checks of
`mark_ready` and of a master running a fiber never fail, because

* a fiber held ready is ready and unlocked, so the master that takes it runs it;
* a fiber a master handles after a yield or a switch is running and unlocked, so its master
  makes it ready;
* a fiber whose block a waker claimed is either still suspending, with its scheduler lock
  held until its master has finished the switch (the waker waits), or waiting.

Each step changes the views of at most two fibers; the lemmas of `Fibers.Proofs.LifecycleView`
show the other views unchanged.
-/

namespace Fibers

namespace Look

/-- The view of a fiber that does not exist: nothing holds, handles or claims it. -/
def Absent (k : Look) : Prop := k.held = 0 ∧ k.handling = [] ∧ k.claims = 0

theorem ok_of_nil {k : Look} (h : k.handling = []) : k.Ok ↔ k.cell.Rests k.held k.wake := by
  simp [Ok, h]

theorem ok_of_single {k : Look} {x : Handling} (h : k.handling = [x]) :
    k.Ok ↔ k.held = 0 ∧ x.Fits k.cell k.wake := by
  simp [Ok, h]

/-- Whether a view is in order depends on the fiber's state, lock and body, how often it is
held, how it is handled and its pending wake, and on nothing else. -/
theorem ok_congr {k k' : Look} (hs : k'.cell.state = k.cell.state) (hl : k'.cell.locked = k.cell.locked)
    (hp : k'.cell.program = k.cell.program) (hh : k'.held = k.held) (hd : k'.handling = k.handling)
    (hw : k'.wake = k.wake) : k'.Ok ↔ k.Ok := by
  simp only [Ok, FiberCell.Rests, Handling.Fits, hs, hl, hp, hh, hd, hw]

end Look

namespace Lifecycle

/-- The invariant of a group: every fiber's view is in order, nothing refers to a fiber that
does not exist, and the scheduler is well formed. -/
structure Inv (l : Lifecycle) : Prop where
  ok : ∀ g, g < l.fibers.length → (l.look g).Ok
  absent : ∀ g, l.fibers.length ≤ g → (l.look g).Absent
  sched : l.sched.WF

variable {l l' : Lifecycle} {f g i r : Nat}

@[simp] theorem fiber_setPhase (p : MasterPhase) : (l.setPhase i p).fiber g = l.fiber g := rfl
@[simp] theorem fiber_setSched (s : Scheduler) : (l.setSched s).fiber g = l.fiber g := rfl
@[simp] theorem fiber_setWakerPhase (p : WakerPhase) : (l.setWakerPhase r p).fiber g = l.fiber g := rfl
@[simp] theorem master_updateFiber (h : FiberCell → FiberCell) : (l.updateFiber f h).master i = l.master i := rfl
@[simp] theorem master_setSched (s : Scheduler) : (l.setSched s).master i = l.master i := rfl
@[simp] theorem master_addFiber (c : FiberCell) : (l.addFiber c).master i = l.master i := rfl
@[simp] theorem master_setWakerPhase (p : WakerPhase) : (l.setWakerPhase r p).master i = l.master i := rfl
@[simp] theorem waker_updateFiber (h : FiberCell → FiberCell) : (l.updateFiber f h).waker r = l.waker r := rfl
@[simp] theorem waker_setSched (s : Scheduler) : (l.setSched s).waker r = l.waker r := rfl
@[simp] theorem waker_setPhase (p : MasterPhase) : (l.setPhase i p).waker r = l.waker r := rfl

/-! ## 1. Reading the invariant -/

theorem look_eq (hc : l'.fiber g = l.fiber g) (hh : l'.readyHolds.count g = l.readyHolds.count g)
    (hd : l'.handlings g = l.handlings g) (hcl : l'.claims.count g = l.claims.count g) :
    l'.look g = l.look g := by
  simp [look, hc, hh, hd, hcl]

theorem mem_handlings (hm : i < l.masters.length) {h : Handling}
    (hh : (l.master i).phase.handling g = some h) : h ∈ l.handlings g := by
  refine List.mem_filterMap.mpr ⟨l.master i, ?_, hh⟩
  rw [master, List.getD_eq_getElem _ _ hm]
  exact List.getElem_mem hm

/-- The fiber a master handles exists; that master alone handles it, nothing holds it ready,
and its words fit what the master does with it. -/
theorem Inv.handled (hi : l.Inv) (hm : i < l.masters.length) {h : Handling}
    (hh : (l.master i).phase.handling g = some h) :
    g < l.fibers.length ∧ l.handlings g = [h] ∧ l.readyHolds.count g = 0 ∧ h.Fits (l.fiber g) (l.look g).wake := by
  have hmem := mem_handlings hm hh
  have hg : g < l.fibers.length := by
    by_contra hge
    have := (hi.absent g (by omega)).2.1
    simp only [look] at this
    simp [this] at hmem
  have hok := hi.ok g hg
  simp only [Look.Ok, look] at hok hmem
  split at hok
  · simp_all
  · rename_i x hx
    rw [hx] at hmem
    simp only [List.mem_singleton] at hmem
    subst hmem
    exact ⟨hg, hx, hok.1, hok.2⟩
  · exact hok.elim

/-- A fiber held ready exists, is ready and unlocked, is held exactly once, no master handles
it and no wake is pending for it. -/
theorem Inv.held (hi : l.Inv) (hg : 0 < l.readyHolds.count g) :
    g < l.fibers.length ∧ l.handlings g = [] ∧ l.readyHolds.count g = 1 ∧ (l.fiber g).state = .ready ∧
      (l.fiber g).locked = false ∧ (l.look g).wake = 0 := by
  have hlt : g < l.fibers.length := by
    by_contra hge
    have := (hi.absent g (by omega)).1
    simp only [look] at this
    omega
  have hok := hi.ok g hlt
  simp only [Look.Ok] at hok
  split at hok
  · rename_i hn
    obtain ⟨hl, hs⟩ := hok
    simp only [look] at hn hl hs ⊢
    refine ⟨hlt, hn, ?_⟩
    cases hc : (l.fiber g).state <;> simp only [hc] at hs
    · exact ⟨hs.1, rfl, hl, hs.2⟩
    all_goals omega
  · simp only [look] at hok
    omega
  · exact hok.elim

/-- A handled fiber is locked, or has no pending wake. -/
theorem Handling.locked_or_quiet {x : Handling} {c : FiberCell} {w : Nat} (h : x.Fits c w) :
    c.locked = true ∨ w = 0 := by
  cases x with
  | running => exact Or.inr h.2.2
  | suspending st => cases st <;> exact Or.inl h.2.1
  | switched b => cases b with
    | false => exact Or.inr h.2.2
    | true => exact Or.inl h.2.1

/-- A fiber with a waker's claim whose lock is free exists, is waiting with no block queued,
is claimed once, and nothing holds or handles it. -/
theorem Inv.claimed (hi : l.Inv) (hg : 0 < l.claims.count g) (hu : (l.fiber g).locked = false) :
    g < l.fibers.length ∧ l.handlings g = [] ∧ l.readyHolds.count g = 0 ∧ (l.fiber g).state = .waiting ∧
      l.claims.count g = 1 ∧ (l.fiber g).published = false := by
  have hlt : g < l.fibers.length := by
    by_contra hge
    have := (hi.absent g (by omega)).2.2
    simp only [look] at this
    omega
  have hok := hi.ok g hlt
  simp only [Look.Ok, Look.wake, look] at hok
  split at hok
  · rename_i hn
    obtain ⟨-, hs⟩ := hok
    refine ⟨hlt, hn, ?_⟩
    -- a running fiber is always handled; ready and dead ones have no pending wake
    cases hc : (l.fiber g).state <;> simp only [hc] at hs
    · omega
    · obtain ⟨h0, h1⟩ := hs
      refine ⟨h0, rfl, ?_⟩
      cases hp : (l.fiber g).published <;> simp only [hp, Bool.false_eq_true, if_false, if_true] at h1 <;>
        simp <;> omega
    · omega
  · -- a handled fiber with a pending wake holds its lock
    obtain ⟨-, hf⟩ := hok
    rcases Handling.locked_or_quiet hf with h | h
    · simp [hu] at h
    · omega
  · exact hok.elim

/-! ## 2. Building the invariant from the views -/

/-- A group whose views are those of an invariant group, but for a list of fibers whose new
views are in order, is invariant. -/
theorem Inv.of_looks (hi : l.Inv) (hw : l'.sched.WF) (hlen : l.fibers.length ≤ l'.fibers.length)
    (A : List Nat) (same : ∀ g, g ∉ A → l'.look g = l.look g)
    (fine : ∀ g ∈ A, g < l'.fibers.length ∧ (l'.look g).Ok)
    (new : ∀ g, l.fibers.length ≤ g → g < l'.fibers.length → g ∈ A) : l'.Inv where
  ok g hg := by
    by_cases hA : g ∈ A
    · exact (fine g hA).2
    · rw [same g hA]
      exact hi.ok g (by by_contra hge; exact hA (new g (by omega) hg))
  absent g hg := by
    have hA : g ∉ A := fun hA => by have := (fine g hA).1; omega
    rw [same g hA]
    exact hi.absent g (by omega)
  sched := hw

/-- The same, when no fiber's view changes and no fiber is added. -/
theorem Inv.of_same (hi : l.Inv) (hw : l'.sched.WF) (hlen : l'.fibers.length = l.fibers.length)
    (same : ∀ g, l'.look g = l.look g) : l'.Inv :=
  hi.of_looks hw (by omega) [] (fun g _ => same g) (by simp) (fun g h₁ h₂ => by omega)

theorem look_wake (l : Lifecycle) (g : Nat) :
    (l.look g).wake = (if (l.fiber g).published then 1 else 0) + l.claims.count g := rfl

theorem ok_handled {x : Handling} (hh : l.handlings g = [x]) (h0 : l.readyHolds.count g = 0)
    (hf : x.Fits (l.fiber g) (l.look g).wake) : (l.look g).Ok :=
  (Look.ok_of_single (k := l.look g) hh).mpr ⟨h0, hf⟩

theorem ok_rests (hh : l.handlings g = []) (hr : (l.fiber g).Rests (l.readyHolds.count g) (l.look g).wake) :
    (l.look g).Ok :=
  (Look.ok_of_nil (k := l.look g) hh).mpr hr

theorem count_ids_of_perm {s s' : Scheduler} {xs : List Entity} (h : s.entities.Perm (xs ++ s'.entities))
    (g : Nat) : s.ids.count g = (xs.map Entity.id).count g + s'.ids.count g := by
  have := (h.map Entity.id).count_eq g
  simpa [Scheduler.ids, List.count_append] using this

@[simp] theorem holds_idle : MasterPhase.idle.holds = [] := rfl
@[simp] theorem waker_holds_idle : WakerPhase.idle.holds = [] := rfl
@[simp] theorem claim_idle : WakerPhase.idle.claim = none := rfl

theorem holds_le_readyHolds (hm : i < l.masters.length) (g : Nat) :
    (l.master i).phase.holds.count g ≤ l.readyHolds.count g := by
  have := count_readyHolds_setPhase hm .idle g
  simp only [holds_idle, List.count_nil] at this
  omega

theorem claim_le_claims (hr : r < l.wakers.length) (g : Nat) :
    (l.waker r).phase.claim.toList.count g ≤ l.claims.count g := by
  have := count_claims_setWakerPhase hr .idle g
  simp only [claim_idle, Option.toList_none, List.count_nil] at this
  omega

theorem handling_ne_running (hg : g ≠ f) : (MasterPhase.running f).handling g = none := by
  simp [MasterPhase.handling, Ne.symm hg]

theorem handling_ne_suspending {st : SuspendStage} (hg : g ≠ f) :
    (MasterPhase.suspending f st).handling g = none := by
  simp [MasterPhase.handling, Ne.symm hg]

theorem handling_ne_switched {a : SwitchAction} (hg : g ≠ f) :
    (MasterPhase.switched f a).handling g = none := by
  simp [MasterPhase.handling, Ne.symm hg]

@[simp] theorem handling_idle : MasterPhase.idle.handling g = none := rfl
@[simp] theorem handling_run {e : Entity} : (MasterPhase.run e).handling g = none := rfl
@[simp] theorem handling_requeue {y : Bool} {o : Option Entity} : (MasterPhase.requeue f y o).handling g = none := rfl
@[simp] theorem handling_after (o : Option Entity) : (after o).handling g = none := by
  cases o <;> rfl

@[simp] theorem holds_after (o : Option Entity) : (after o).holds = o.toList.map Entity.id := by
  cases o <;> rfl

/-! ## 3. A master's steps -/

/-- A master at the top of its loop that finds an entity moves it from the scheduler to its
hand: no view changes. -/
theorem Inv.seek (hi : l.Inv) (hm : i < l.masters.length) (hp : (l.master i).phase = .idle)
    (h : l.seek i = some l') : l'.Inv := by
  unfold Lifecycle.seek at h
  rcases ht : l.sched.take (l.master i).thread (l.master i).index with ⟨s, _ | e⟩
  · simp [ht] at h
  · simp only [ht, Option.some.injEq] at h
    subst h
    obtain ⟨hperm, hw⟩ := Scheduler.take_perm hi.sched ht
    refine hi.of_same hw (by simp) (fun g => look_eq rfl ?_ ?_ rfl)
    · have h1 := count_readyHolds_setPhase (l := l.setSched s) hm (.run e) g
      have h2 := count_readyHolds_setSched (l := l) s g
      have h3 : l.sched.ids.count g = ([e].map Entity.id).count g + s.ids.count g :=
        count_ids_of_perm hperm g
      have hmi : (l.setSched s).master i = l.master i := rfl
      rw [hmi, hp] at h1
      simp only [MasterPhase.holds, List.count_nil, List.map_cons, List.map_nil] at h1 h3
      omega
    · exact handlings_setPhase_of_eq _ (show (MasterPhase.run e).handling g = (l.master i).phase.handling g by
        simp [hp])

/-- The fiber in a master's hand is held ready. -/
theorem held_of_run (hm : i < l.masters.length) {e : Entity} (hp : (l.master i).phase = .run e) :
    0 < l.readyHolds.count e.id := by
  have := holds_le_readyHolds hm e.id
  rw [hp] at this
  simp only [MasterPhase.holds, List.count_singleton_self] at this
  omega

/-- A master runs the ready fiber in its hand: the fiber leaves the hand for the master's
handling and runs; no other view changes. -/
theorem Inv.launch (hi : l.Inv) (hm : i < l.masters.length) {e : Entity} (hp : (l.master i).phase = .run e)
    (h : l.launch i e = .ok (some l')) : l'.Inv := by
  obtain ⟨hlt, hn, h1, hready, hunl, hw⟩ := hi.held (held_of_run hm hp)
  unfold Lifecycle.launch at h
  simp only [hunl, hready, Bool.false_eq_true, if_false, if_true, Except.ok.injEq,
    Option.some.injEq] at h
  subst h
  generalize hc' : (fun c : FiberCell => { c with
    state := .running
    started := true
    home := if (l.fiber e.id).groupLocal && (l.fiber e.id).home.isNone then some (l.master i).index
      else (l.fiber e.id).home }) = c'
  have hcell : (l.updateFiber e.id c').fiber e.id = c' (l.fiber e.id) := fiber_updateFiber_self hlt c'
  have hst : (c' (l.fiber e.id)).state = .running ∧ (c' (l.fiber e.id)).locked = false ∧
      (c' (l.fiber e.id)).published = (l.fiber e.id).published := by
    subst hc'
    exact ⟨rfl, hunl, rfl⟩
  have hm' : i < (l.updateFiber e.id c').masters.length := by simpa using hm
  -- what the master holds moves from its hand to its handling
  have hheld : ∀ g, ((l.updateFiber e.id c').setPhase i (.running e.id)).readyHolds.count g +
      (if e.id = g then 1 else 0) = l.readyHolds.count g := by
    intro g
    have := count_readyHolds_setPhase hm' (.running e.id) g
    rw [master_updateFiber, hp] at this
    simp only [MasterPhase.holds, List.count_singleton, List.count_nil, readyHolds_updateFiber,
      beq_iff_eq] at this
    omega
  refine hi.of_looks (by simpa using hi.sched) (by simp) [e.id] (fun g hg => ?_) (fun g hg => ?_)
    (fun g h₁ h₂ => by simp at h₂; omega)
  · have hge : g ≠ e.id := by simpa using hg
    refine look_eq (by simp [fiber_updateFiber_ne hge]) ?_ ?_ rfl
    · have := hheld g
      simp only [Ne.symm hge, if_false, add_zero] at this
      exact this
    · exact handlings_setPhase_of_eq _ (by rw [master_updateFiber, hp, handling_ne_running hge]; rfl)
  · simp only [List.mem_singleton] at hg
    subst hg
    refine ⟨by simpa using hlt, ok_handled (x := .running) ?_ ?_ ?_⟩
    · refine (handlings_setPhase_of_only hm' _ (by rw [master_updateFiber, hp]; simpa using hn)).trans ?_
      simp [MasterPhase.handling]
    · have := hheld e.id
      simp only [if_true] at this
      omega
    · rw [look_wake] at hw ⊢
      simp only [fiber_setPhase, hcell, claims_setPhase, claims_updateFiber] at hw ⊢
      exact ⟨hst.1, hst.2.1, by rw [hst.2.2]; exact hw⟩

/-! ## 4. A running fiber's operations -/

/-- How the places holding a fiber ready change when master `i` moves to phase `p` in a group
whose masters and wakers are those of `l`, and whose scheduler may differ. -/
theorem count_readyHolds_move (hm : i < l.masters.length) (l₁ : Lifecycle) (hms : l₁.masters = l.masters)
    (hws : l₁.wakers = l.wakers) (p : MasterPhase) (g : Nat) :
    (l₁.setPhase i p).readyHolds.count g + (l.master i).phase.holds.count g + l.sched.ids.count g =
      l.readyHolds.count g + p.holds.count g + l₁.sched.ids.count g := by
  have h := count_readyHolds_setPhase (l := l₁) (by rwa [hms]) p g
  have hmi : l₁.master i = l.master i := by simp [master, hms]
  rw [hmi] at h
  simp only [readyHolds, List.count_append, hms, hws] at h ⊢
  omega

/-- What the invariant says of the fiber a master runs. -/
theorem Inv.running (hi : l.Inv) (hm : i < l.masters.length) (hp : (l.master i).phase = .running f) :
    f < l.fibers.length ∧ l.handlings f = [.running] ∧ l.readyHolds.count f = 0 ∧
      (l.fiber f).state = .running ∧ (l.fiber f).locked = false ∧ (l.fiber f).published = false ∧
      l.claims.count f = 0 := by
  obtain ⟨hlt, hh, h0, hs, hl, hw⟩ := hi.handled hm (g := f) (h := .running) (by simp [hp, MasterPhase.handling])
  rw [look_wake] at hw
  refine ⟨hlt, hh, h0, hs, hl, ?_, by omega⟩
  cases hpub : (l.fiber f).published
  · rfl
  · simp [hpub] at hw

/-- The fiber a master runs moves on in its body: only its own view changes, and not in what
the invariant asks of it. -/
theorem Inv.reprogram (hi : l.Inv) (hm : i < l.masters.length) (hp : (l.master i).phase = .running f)
    (rest : List FiberOp) : (l.updateFiber f (fun c => { c with program := rest })).Inv := by
  obtain ⟨hlt, hh, h0, hs, hl, hpub, hc⟩ := hi.running hm hp
  refine hi.of_looks (by simpa using hi.sched) (by simp) [f] (fun g hg => ?_) (fun g hg => ?_)
    (fun g h₁ h₂ => by simp at h₂; omega)
  · exact look_eq (fiber_updateFiber_ne (by simpa using hg) _) rfl rfl rfl
  · simp only [List.mem_singleton] at hg
    subst hg
    refine ⟨by simpa using hlt, ok_handled (x := .running) hh h0 ?_⟩
    rw [look_wake]
    simp [fiber_updateFiber_self hlt, hs, hl, hpub, hc, Handling.Fits]

/-- The counter shows in no view. -/
theorem Inv.withCounter (hi : l.Inv) (n : Nat) : ({ l with counter := n } : Lifecycle).Inv :=
  ⟨hi.ok, hi.absent, hi.sched⟩

/-- Master `i`, which handles `f` alone, changes `f`'s words and moves to a phase that
handles at most `f` and holds what it held: only `f`'s view changes, to the one given. -/
theorem Inv.rehandle (hi : l.Inv) (hm : i < l.masters.length) (hf : f < l.fibers.length)
    (hq : ∀ g, g ≠ f → (l.master i).phase.handling g = none)
    (hone : l.handlings f = ((l.master i).phase.handling f).toList) (h0 : l.readyHolds.count f = 0)
    {h : FiberCell → FiberCell} {p : MasterPhase} (hp : ∀ g, g ≠ f → p.handling g = none)
    (hholds : p.holds = (l.master i).phase.holds)
    (hok : (⟨h (l.fiber f), 0, (p.handling f).toList, l.claims.count f⟩ : Look).Ok) :
    ((l.updateFiber f h).setPhase i p).Inv := by
  have hcount : ∀ g, ((l.updateFiber f h).setPhase i p).readyHolds.count g = l.readyHolds.count g := by
    intro g
    have := count_readyHolds_move hm (l.updateFiber f h) rfl rfl p g
    simp only [hholds, sched_updateFiber] at this
    omega
  refine hi.of_looks (by simpa using hi.sched) (by simp) [f] (fun g hg => ?_) (fun g hg => ?_)
    (fun g h₁ h₂ => by simp at h₂; omega)
  · have hgf : g ≠ f := by simpa using hg
    refine look_eq (by simp [fiber_updateFiber_ne hgf]) (hcount g) ?_ rfl
    exact handlings_setPhase_of_eq _ (by rw [master_updateFiber, hp g hgf, hq g hgf])
  · simp only [List.mem_singleton] at hg
    subst hg
    refine ⟨by simpa using hf, ?_⟩
    have hlook : ((l.updateFiber g h).setPhase i p).look g =
        ⟨h (l.fiber g), 0, (p.handling g).toList, l.claims.count g⟩ := by
      simp only [look, fiber_setPhase, fiber_updateFiber_self hf, hcount, h0, claims_setPhase,
        claims_updateFiber, Look.mk.injEq, true_and, and_true]
      exact handlings_setPhase_of_only (l := l.updateFiber g h) (by simpa using hm) p
        (by rw [master_updateFiber, handlings_updateFiber]; exact hone)
    rw [hlook]
    exact hok

/-- A fiber at the end of its body dies: its master goes back to the top of its loop. -/
theorem Inv.finish (hi : l.Inv) (hm : i < l.masters.length) (hp : (l.master i).phase = .running f)
    (hprog : (l.fiber f).program = []) :
    ((l.updateFiber f (fun c => { c with state := .dead })).setPhase i .idle).Inv := by
  obtain ⟨hlt, hh, h0, hs, hl, hpub, hc⟩ := hi.running hm hp
  refine hi.rehandle hm hlt (fun g hg => by simp [hp, handling_ne_running hg])
    (by simp [hh, hp, MasterPhase.handling]) h0 (fun g _ => rfl) (by simp [hp, MasterPhase.holds]) ?_
  exact (Look.ok_of_nil rfl).mpr ⟨hl, rfl, by simp [Look.wake, hpub, hc], hprog⟩

/-- A fiber about to wait takes its own scheduler lock. -/
theorem Inv.lockSelf (hi : l.Inv) (hm : i < l.masters.length) (hp : (l.master i).phase = .running f)
    (rest : List FiberOp) :
    ((l.updateFiber f (fun c => { c with program := rest, locked := true })).setPhase i
      (.suspending f .publish)).Inv := by
  obtain ⟨hlt, hh, h0, hs, hl, hpub, hc⟩ := hi.running hm hp
  refine hi.rehandle hm hlt (fun g hg => by simp [hp, handling_ne_running hg])
    (by simp [hh, hp, MasterPhase.handling]) h0 (fun g hg => handling_ne_suspending hg)
    (by simp [hp, MasterPhase.holds]) ?_
  refine (Look.ok_of_single (x := .suspending .publish) (by simp [MasterPhase.handling])).mpr ⟨rfl, ?_⟩
  exact ⟨hs, rfl, by simp [Look.wake, hpub, hc]⟩

/-- A fiber yields under work stealing: it switches to its master with nothing to run next. -/
theorem Inv.yieldAlone (hi : l.Inv) (hm : i < l.masters.length) (hp : (l.master i).phase = .running f)
    (rest : List FiberOp) :
    ((l.updateFiber f (fun c => { c with program := rest })).setPhase i (.switched f (.yield none))).Inv := by
  obtain ⟨hlt, hh, h0, hs, hl, hpub, hc⟩ := hi.running hm hp
  refine hi.rehandle hm hlt (fun g hg => by simp [hp, handling_ne_running hg])
    (by simp [hh, hp, MasterPhase.handling]) h0 (fun g hg => handling_ne_switched hg)
    (by simp [hp, MasterPhase.holds, SwitchAction.holds]) ?_
  refine (Look.ok_of_single (x := .switched false) (by simp [MasterPhase.handling, SwitchAction.isSuspend])).mpr
    ⟨rfl, ?_⟩
  exact ⟨hs, hl, by simp [Look.wake, hpub, hc]⟩

/-- Master `i`, which handles `f` alone and holds nothing, takes an entity, if any, from the
scheduler into the phase it moves to, which handles at most `f`: only `f`'s view changes,
to the one given. -/
theorem Inv.handOver (hi : l.Inv) (hm : i < l.masters.length) (hf : f < l.fibers.length)
    (hq : ∀ g, g ≠ f → (l.master i).phase.handling g = none) (hold : (l.master i).phase.holds = [])
    (hone : l.handlings f = ((l.master i).phase.handling f).toList) (h0 : l.readyHolds.count f = 0)
    {s : Scheduler} {o : Option Entity} (hs : l.sched.entities.Perm (o.toList ++ s.entities)) (hw : s.WF)
    {p : MasterPhase} (hp : ∀ g, g ≠ f → p.handling g = none) (hholds : p.holds = o.toList.map Entity.id)
    (hok : (⟨l.fiber f, 0, (p.handling f).toList, l.claims.count f⟩ : Look).Ok) :
    ((l.setSched s).setPhase i p).Inv := by
  -- the entity taken moves from the scheduler to the master: no count changes
  have hcount : ∀ g, ((l.setSched s).setPhase i p).readyHolds.count g = l.readyHolds.count g := by
    intro g
    have h₁ := count_readyHolds_move hm (l.setSched s) rfl rfl p g
    have h₂ := count_ids_of_perm hs g
    simp only [hold, hholds, List.count_nil, sched_setSched] at h₁
    omega
  refine hi.of_looks (by simpa using hw) (by simp) [f] (fun g hg => ?_) (fun g hg => ?_)
    (fun g h₁ h₂ => by simp at h₂; omega)
  · have hgf : g ≠ f := by simpa using hg
    refine look_eq rfl (hcount g) ?_ rfl
    exact handlings_setPhase_of_eq _ (by rw [master_setSched, hp g hgf, hq g hgf])
  · simp only [List.mem_singleton] at hg
    subst hg
    refine ⟨by simpa using hf, ?_⟩
    have hlook : ((l.setSched s).setPhase i p).look g = ⟨l.fiber g, 0, (p.handling g).toList, l.claims.count g⟩ := by
      simp only [look, fiber_setPhase, fiber_setSched, hcount, h0, claims_setPhase, claims_setSched,
        Look.mk.injEq, true_and, and_true]
      exact handlings_setPhase_of_only (l := l.setSched s) (by simpa using hm) p
        (by rw [master_setSched, handlings_setSched]; exact hone)
    rw [hlook]
    exact hok

/-- A fiber yields on the shared queue while another is queued: it switches to its master
with the front entity. -/
theorem Inv.yieldShared (hi : l.Inv) (hm : i < l.masters.length) (hp : (l.master i).phase = .running f)
    (rest : List FiberOp) {q q' : SharedQueue} {e : Entity} (hq : l.sched = .shared q)
    (hpop : q.pop = (q', some e)) :
    (((l.updateFiber f (fun c => { c with program := rest })).setSched (.shared q')).setPhase i
      (.switched f (.yield (some e)))).Inv := by
  obtain ⟨hlt, hh, h0, hs, hl, hpub, hc⟩ := hi.running hm hp
  have hi₁ := hi.reprogram hm hp rest
  have hperm := Scheduler.handOff_perm (s := .shared q) (by rw [← hq]; exact hi.sched)
    (show (Scheduler.shared q).handOff = (.shared q', some e) by simp [Scheduler.handOff, hpop])
  refine hi₁.handOver (by simpa using hm) (by simpa using hlt)
    (fun g hg => by simp [hp, handling_ne_running hg]) (by simp [hp, MasterPhase.holds])
    (by simp [hh, hp, MasterPhase.handling]) (by simpa using h0) (o := some e)
    (by rw [sched_updateFiber, hq]; exact hperm.1) hperm.2
    (fun g hg => handling_ne_switched hg) (by simp [MasterPhase.holds, SwitchAction.holds]) ?_
  refine (Look.ok_of_single (x := .switched false) (by simp [MasterPhase.handling, SwitchAction.isSuspend])).mpr
    ⟨rfl, ?_⟩
  simp [Handling.Fits, Look.wake, fiber_updateFiber_self hlt, hs, hl, hpub, hc]

theorem fiber_addFiber_ne (hg : g ≠ l.fibers.length) (c : FiberCell) : (l.addFiber c).fiber g = l.fiber g := by
  rcases Nat.lt_or_gt_of_ne hg with hlt | hgt
  · exact fiber_addFiber_lt hlt c
  · have h₁ : (l.fibers ++ [c]).length ≤ g := by simp; omega
    have h₂ : l.fibers.length ≤ g := by omega
    simp only [addFiber, fiber, List.getD_eq_getElem?_getD, List.getElem?_eq_none h₁, List.getElem?_eq_none h₂]

/-- A new fiber's view: ready, unlocked, with nothing pending. -/
theorem ok_fresh {c : FiberCell} (hready : c.state = .ready) (hunl : c.locked = false) (hpub : c.published = false)
    {k : Look} (hc : k.cell = c) (hh : k.handling = []) (h1 : k.held = 1) (h0 : k.claims = 0) : k.Ok := by
  refine (Look.ok_of_nil hh).mpr ⟨hc ▸ hunl, ?_⟩
  simp [hc, hready, h1, Look.wake, hpub, h0]

/-- A fiber spawns a fiber through the run queue: the new fiber is ready and queued once. -/
theorem Inv.spawn (hi : l.Inv) {t : Nat} {c : FiberCell} (hready : c.state = .ready) (hunl : c.locked = false)
    (hpub : c.published = false) {s : Scheduler}
    (hpush : l.sched.push t (c.entity l.fibers.length) false = some s) : ((l.setSched s).addFiber c).Inv := by
  obtain ⟨hperm, hw⟩ := Scheduler.push_perm hi.sched hpush
  have hcount : ∀ g, (l.setSched s).readyHolds.count g =
      l.readyHolds.count g + if g = l.fibers.length then 1 else 0 := by
    intro g
    have h₁ := count_readyHolds_setSched (l := l) s g
    have h₂ := count_ids_of_perm (show s.entities.Perm ([c.entity l.fibers.length] ++ l.sched.entities) from hperm) g
    simp only [FiberCell.entity, List.map_cons, List.map_nil, List.count_singleton, beq_iff_eq] at h₂
    split_ifs at h₂ ⊢ with hg hg' hg' <;> omega
  have hn := hi.absent l.fibers.length le_rfl
  simp only [Look.Absent, look] at hn
  refine hi.of_looks hw (by simp) [l.fibers.length] (fun g hg => ?_) (fun g hg => ?_)
    (fun g h₁ h₂ => by simp at h₂ ⊢; omega)
  · have hgn : g ≠ l.fibers.length := by simpa using hg
    exact look_eq (fiber_addFiber_ne (l := l.setSched s) hgn c) (by simp [hcount, hgn]) rfl rfl
  · simp only [List.mem_singleton] at hg
    subst hg
    refine ⟨by simp, ok_fresh hready hunl hpub (fiber_addFiber_self (l := l.setSched s) c) ?_ ?_ ?_⟩
    · simpa [look] using hn.2.1
    · simp [look, hcount, hn.1]
    · simpa [look] using hn.2.2

/-- A fiber starts a fiber by dispatch: it switches to its master, which is to run the new
fiber at once. -/
theorem Inv.dispatch (hi : l.Inv) (hm : i < l.masters.length) (hp : (l.master i).phase = .running f)
    {c : FiberCell} (hready : c.state = .ready) (hunl : c.locked = false) (hpub : c.published = false) :
    ((l.addFiber c).setPhase i (.switched f (.switchTo l.fibers.length))).Inv := by
  obtain ⟨hlt, hh, h0, hs, hl, hpubf, hc⟩ := hi.running hm hp
  have hfn : f ≠ l.fibers.length := by omega
  have hn := hi.absent l.fibers.length le_rfl
  simp only [Look.Absent, look] at hn
  have hm' : i < (l.addFiber c).masters.length := by simpa using hm
  -- the master holds the new fiber in its switch
  have hcount : ∀ g, ((l.addFiber c).setPhase i (.switched f (.switchTo l.fibers.length))).readyHolds.count g =
      l.readyHolds.count g + if g = l.fibers.length then 1 else 0 := by
    intro g
    have := count_readyHolds_move hm (l.addFiber c) rfl rfl (.switched f (.switchTo l.fibers.length)) g
    simp only [hp, MasterPhase.holds, SwitchAction.holds, List.count_nil, List.count_singleton, sched_addFiber,
      beq_iff_eq] at this
    split_ifs at this ⊢ <;> omega
  have hhand : ∀ g, g ≠ f → ((l.addFiber c).setPhase i (.switched f (.switchTo l.fibers.length))).handlings g =
      l.handlings g := fun g hg =>
    handlings_setPhase_of_eq _ (by rw [master_addFiber, hp, handling_ne_switched hg, handling_ne_running hg])
  refine hi.of_looks (by simpa using hi.sched) (by simp) [f, l.fibers.length] (fun g hg => ?_) (fun g hg => ?_)
    (fun g h₁ h₂ => by simp at h₂ ⊢; omega)
  · simp only [List.mem_cons, not_or, List.not_mem_nil, or_false] at hg
    exact look_eq (by simp [fiber_addFiber_ne hg.2]) (by simp [hcount, hg.2]) (hhand g hg.1) rfl
  · simp only [List.mem_cons, List.not_mem_nil, or_false] at hg
    rcases hg with rfl | rfl
    · refine ⟨by simp; omega, ok_handled (x := .switched false) ?_ (by simp [hcount, hfn, h0]) ?_⟩
      · refine (handlings_setPhase_of_only hm' _ (by simp [hh, hp, MasterPhase.handling])).trans ?_
        simp [MasterPhase.handling, SwitchAction.isSuspend]
      · rw [look_wake]
        simp [Handling.Fits, fiber_addFiber_lt hlt, hs, hl, hpubf, hc]
    · refine ⟨by simp, ok_fresh hready hunl hpub (by simp [look, fiber_addFiber_self]) ?_ ?_ ?_⟩
      · simp [look, hhand _ (Ne.symm hfn), hn.2.1]
      · simp [look, hcount, hn.1]
      · simpa [look] using hn.2.2

/-- **Every operation of a running fiber keeps the invariant.** -/
theorem Inv.perform (hi : l.Inv) (hm : i < l.masters.length) (hp : (l.master i).phase = .running f)
    (h : l.perform i f = some l') : l'.Inv := by
  unfold Lifecycle.perform at h
  rcases hprog : (l.fiber f).program with _ | ⟨op, rest⟩
  · simp only [hprog, Option.some.injEq] at h
    subst h
    exact hi.finish hm hp hprog
  cases op with
  | work =>
    simp only [hprog, Option.some.injEq] at h
    subst h
    exact (hi.reprogram hm hp rest).withCounter _
  | wait =>
    have hl := (hi.running hm hp).2.2.2.2.1
    simp only [hprog, hl, Bool.false_eq_true, if_false, Option.some.injEq] at h
    subst h
    exact hi.lockSelf hm hp rest
  | yield =>
    simp only [hprog, sched_updateFiber] at h
    cases hs : l.sched with
    | shared q =>
      simp only [hs] at h
      rcases hpop : q.pop with ⟨q', _ | e⟩
      · simp only [hpop, Option.some.injEq] at h
        subst h
        exact hi.reprogram hm hp rest
      · simp only [hpop, Option.some.injEq] at h
        subst h
        exact hi.yieldShared hm hp rest hs hpop
    | stealing st =>
      simp only [hs, Option.some.injEq] at h
      subst h
      exact hi.yieldAlone hm hp rest
  | spawn gl rc body =>
    simp only [hprog] at h
    rcases hpush : l.sched.push (l.master i).thread
      (({ program := body, groupLocal := gl, reactor := rc } : FiberCell).entity l.fibers.length) false with
      _ | s
    · simp [hpush] at h
    · simp only [hpush, Option.some.injEq] at h
      subst h
      exact (hi.reprogram hm hp rest).spawn rfl rfl rfl (by simpa using hpush)
  | dispatch gl rc body =>
    simp only [hprog, Option.some.injEq] at h
    subst h
    have := (hi.reprogram hm hp rest).dispatch (by simpa using hm) (by simpa using hp)
      (c := { program := body, started := true, groupLocal := gl, reactor := rc }) rfl rfl rfl
    rwa [length_updateFiber] at this

/-! ## 5. Suspending, switching and requeueing -/

/-- **Every step of a suspending fiber keeps the invariant**: it queues its block, marks
itself waiting, then hands its master the next entity, its lock still held. -/
theorem Inv.suspendStep (hi : l.Inv) (hm : i < l.masters.length) {st : SuspendStage}
    (hp : (l.master i).phase = .suspending f st) : (l.suspendStep i f st).Inv := by
  obtain ⟨hlt, hh, h0, hfit⟩ := hi.handled hm (g := f) (h := .suspending st) (by simp [hp, MasterPhase.handling])
  have hq : ∀ g, g ≠ f → (l.master i).phase.handling g = none := fun g hg => by
    rw [hp]; exact handling_ne_suspending hg
  have hold : (l.master i).phase.holds = [] := by rw [hp]; rfl
  have hone : l.handlings f = ((l.master i).phase.handling f).toList := by
    rw [hh, hp]; simp [MasterPhase.handling]
  rw [look_wake] at hfit
  cases st with
  | publish =>
    obtain ⟨hs, hl, hw⟩ := hfit
    refine hi.rehandle hm hlt hq hone h0 (fun g hg => handling_ne_suspending hg) (by rw [hold]; rfl) ?_
    refine (Look.ok_of_single (x := .suspending .mark) (by simp [MasterPhase.handling])).mpr ⟨rfl, hs, hl, ?_⟩
    simp only [Look.wake, if_true]
    omega
  | mark =>
    obtain ⟨-, hl, hw⟩ := hfit
    refine hi.rehandle hm hlt hq hone h0 (fun g hg => handling_ne_suspending hg) (by rw [hold]; rfl) ?_
    exact (Look.ok_of_single (x := .suspending .pop) (by simp [MasterPhase.handling])).mpr
      ⟨rfl, rfl, hl, by simpa [Look.wake] using hw⟩
  | pop =>
    obtain ⟨hs, hl, hw⟩ := hfit
    unfold Lifecycle.suspendStep
    rcases ho : l.sched.handOff with ⟨s, next⟩
    obtain ⟨hperm, hws⟩ := Scheduler.handOff_perm hi.sched ho
    refine hi.handOver hm hlt hq hold hone h0 hperm hws (fun g hg => handling_ne_switched hg) rfl ?_
    exact (Look.ok_of_single (x := .switched true) (by simp [MasterPhase.handling, SwitchAction.isSuspend])).mpr
      ⟨rfl, hs, hl, by simpa [Look.wake] using hw⟩

/-- A suspended fiber's master releases the fiber's lock once the switch is complete, and runs
what the fiber handed it: the fiber rests, waiting. -/
theorem Inv.release (hi : l.Inv) (hm : i < l.masters.length) {next : Option Entity}
    (hp : (l.master i).phase = .switched f (.suspend next)) :
    ((l.updateFiber f (fun c => { c with locked := false })).setPhase i (after next)).Inv := by
  obtain ⟨hlt, hh, h0, hs, hl, hw⟩ := hi.handled hm (g := f) (h := .switched true)
    (by simp [hp, MasterPhase.handling, SwitchAction.isSuspend])
  refine hi.rehandle hm hlt (fun g hg => by rw [hp]; exact handling_ne_switched hg)
    (by simp [hh, hp, MasterPhase.handling, SwitchAction.isSuspend]) h0 (fun g _ => handling_after _)
    (by rw [holds_after, hp]; rfl) ?_
  refine (Look.ok_of_nil (by simp)).mpr ⟨rfl, ?_⟩
  rw [look_wake] at hw
  simp [hs, Look.wake, hw]

/-- Making a fiber ready under its lock, when it is unlocked and in the state expected. -/
theorem markReady_of (hl : (l.fiber f).locked = false) {st : FiberState} (hs : (l.fiber f).state = st) :
    l.markReady f st = .ok (some (l.updateFiber f (fun c => { c with state := .ready }))) := by
  simp [markReady, hl, hs]

/-- The master of a fiber that yielded or switched to another makes it ready again: the fiber
rests, held once, by the master that is to queue it. -/
theorem Inv.readyAgain (hi : l.Inv) (hm : i < l.masters.length) {a : SwitchAction}
    (hp : (l.master i).phase = .switched f a) (ha : a.isSuspend = false) {y : Bool} {next : Option Entity}
    (hnext : next.toList.map Entity.id = a.holds) :
    ((l.updateFiber f (fun c => { c with state := .ready })).setPhase i (.requeue f y next)).Inv := by
  obtain ⟨hlt, hh, h0, hs, hl, hw⟩ := hi.handled hm (g := f) (h := .switched false)
    (by simp [hp, MasterPhase.handling, ha])
  have hm' : i < (l.updateFiber f (fun c => { c with state := .ready })).masters.length := by simpa using hm
  -- the master now holds the fiber, besides what the switch handed it
  have hcount : ∀ g, ((l.updateFiber f (fun c => { c with state := .ready })).setPhase i
      (.requeue f y next)).readyHolds.count g = l.readyHolds.count g + if g = f then 1 else 0 := by
    intro g
    have := count_readyHolds_move hm (l.updateFiber f (fun c => { c with state := .ready })) rfl rfl
      (.requeue f y next) g
    simp only [hp, MasterPhase.holds, ← hnext, List.count_cons, sched_updateFiber, beq_iff_eq] at this
    split_ifs at this ⊢ <;> omega
  refine hi.of_looks (by simpa using hi.sched) (by simp) [f] (fun g hg => ?_) (fun g hg => ?_)
    (fun g h₁ h₂ => by simp at h₂; omega)
  · have hgf : g ≠ f := by simpa using hg
    refine look_eq (by simp [fiber_updateFiber_ne hgf]) (by simp [hcount, hgf]) ?_ rfl
    exact handlings_setPhase_of_eq _ (by rw [master_updateFiber, hp, handling_ne_switched hgf]; rfl)
  · simp only [List.mem_singleton] at hg
    subst hg
    refine ⟨by simpa using hlt, ok_rests ?_ ?_⟩
    · refine (handlings_setPhase_of_only hm' _ (by simp [hh, hp, MasterPhase.handling, ha])).trans ?_
      simp
    · rw [look_wake] at hw ⊢
      simp [fiber_updateFiber_self hlt, FiberCell.Rests, hl, hcount, h0, hw]

/-- **A master's handling of a switch keeps the invariant.** -/
theorem Inv.afterSwitch (hi : l.Inv) (hm : i < l.masters.length) {a : SwitchAction}
    (hp : (l.master i).phase = .switched f a) (h : l.afterSwitch i f a = .ok (some l')) : l'.Inv := by
  cases a with
  | suspend next =>
    simp only [Lifecycle.afterSwitch, Except.ok.injEq, Option.some.injEq] at h
    subst h
    exact hi.release hm hp
  | yield next =>
    obtain ⟨-, -, -, hs, hl, -⟩ := hi.handled hm (g := f) (h := .switched false)
      (by simp [hp, MasterPhase.handling, SwitchAction.isSuspend])
    simp only [Lifecycle.afterSwitch, markReady_of hl hs, Except.map, Option.map_some,
      Except.ok.injEq, Option.some.injEq] at h
    subst h
    exact hi.readyAgain hm hp rfl (by simp [SwitchAction.holds])
  | switchTo t =>
    obtain ⟨-, -, -, hs, hl, -⟩ := hi.handled hm (g := f) (h := .switched false)
      (by simp [hp, MasterPhase.handling, SwitchAction.isSuspend])
    simp only [Lifecycle.afterSwitch, markReady_of hl hs, Except.map, Option.map_some,
      Except.ok.injEq, Option.some.injEq] at h
    subst h
    exact hi.readyAgain hm hp rfl (by simp [SwitchAction.holds, FiberCell.entity])

/-- A master queues the fiber it made ready again: the fiber moves from the master to the
scheduler. -/
theorem Inv.requeue (hi : l.Inv) (hm : i < l.masters.length) {y : Bool} {next : Option Entity}
    (hp : (l.master i).phase = .requeue f y next) (h : l.requeue i f y next = some l') : l'.Inv := by
  unfold Lifecycle.requeue at h
  rcases hpush : l.sched.push (l.master i).thread ((l.fiber f).entity f) y with _ | s
  · simp [hpush] at h
  simp only [hpush, Option.some.injEq] at h
  subst h
  obtain ⟨hperm, hw⟩ := Scheduler.push_perm hi.sched hpush
  refine hi.of_same (by simpa using hw) (by simp) (fun g => look_eq rfl ?_ ?_ rfl)
  · have h₁ := count_readyHolds_move hm (l.setSched s) rfl rfl (after next) g
    have h₂ := count_ids_of_perm (show s.entities.Perm ([(l.fiber f).entity f] ++ l.sched.entities) from hperm) g
    rw [holds_after] at h₁
    simp only [hp, MasterPhase.holds, List.count_cons, sched_setSched, List.map_cons, List.map_nil,
      FiberCell.entity, List.count_nil, beq_iff_eq] at h₁ h₂
    split_ifs at h₁ h₂ <;> omega
  · exact handlings_setPhase_of_eq _ (by rw [master_setSched, hp]; simp)

/-! ## 6. A waker's steps -/

@[simp] theorem claim_resume : (WakerPhase.resume f).claim = some f := rfl
@[simp] theorem waker_holds_resume : (WakerPhase.resume f).holds = [] := rfl
@[simp] theorem claim_push {e : Entity} : (WakerPhase.push e).claim = none := rfl
@[simp] theorem waker_holds_push {e : Entity} : (WakerPhase.push e).holds = [e.id] := rfl

/-- A free waker claims a queued block: the fiber's pending wake moves from its block to the
waker, and no view changes in what the invariant asks. -/
theorem Inv.claim (hi : l.Inv) (hr : r < l.wakers.length) (hp : (l.waker r).phase = .idle)
    (hpub : (l.fiber f).published = true) :
    ((l.updateFiber f (fun c => { c with published := false })).setWakerPhase r (.resume f)).Inv := by
  have hf : f < l.fibers.length := by
    by_contra hge
    rw [fiber, List.getD_eq_default _ _ (by omega)] at hpub
    cases hpub
  have hr' : r < (l.updateFiber f (fun c => { c with published := false })).wakers.length := by simpa using hr
  have hclaims : ∀ g, ((l.updateFiber f (fun c => { c with published := false })).setWakerPhase r
      (.resume f)).claims.count g = l.claims.count g + if g = f then 1 else 0 := by
    intro g
    have := count_claims_setWakerPhase hr' (.resume f) g
    simp only [waker_updateFiber, hp, claim_idle, claim_resume, Option.toList_none, Option.toList_some,
      List.count_nil, List.count_singleton, claims_updateFiber, beq_iff_eq] at this
    split_ifs at this ⊢ <;> omega
  have hcount : ∀ g, ((l.updateFiber f (fun c => { c with published := false })).setWakerPhase r
      (.resume f)).readyHolds.count g = l.readyHolds.count g := by
    intro g
    have := count_readyHolds_setWakerPhase hr' (.resume f) g
    simp only [waker_updateFiber, hp, waker_holds_idle, waker_holds_resume, List.count_nil,
      readyHolds_updateFiber] at this
    omega
  refine hi.of_looks (by simpa using hi.sched) (by simp) [f] (fun g hg => ?_) (fun g hg => ?_)
    (fun g h₁ h₂ => by simp at h₂; omega)
  · have hgf : g ≠ f := by simpa using hg
    exact look_eq (by simp [fiber_updateFiber_ne hgf]) (hcount g) rfl (by simp [hclaims, hgf])
  · simp only [List.mem_singleton] at hg
    subst hg
    refine ⟨by simpa using hf, (Look.ok_congr (k := l.look g) ?_ ?_ ?_ ?_ ?_ ?_).mpr (hi.ok g hf)⟩
    all_goals simp only [look, fiber_setWakerPhase, fiber_updateFiber_self hf, hcount, handlings_setWakerPhase,
      handlings_updateFiber]
    simp only [Look.wake, hclaims, hpub, if_true, Bool.false_eq_true, if_false]
    omega

/-- A waker makes the fiber whose block it claimed ready, once its lock is free: the fiber
was waiting, and the waker now holds it. -/
theorem Inv.resume (hi : l.Inv) (hr : r < l.wakers.length) (hp : (l.waker r).phase = .resume f)
    (hl : (l.fiber f).locked = false) :
    ((l.updateFiber f (fun c => { c with state := .ready })).setWakerPhase r
      (.push ((l.fiber f).entity f))).Inv := by
  have hc : 0 < l.claims.count f := by
    have := claim_le_claims hr f
    simp only [hp, claim_resume, Option.toList_some, List.count_singleton_self] at this
    omega
  obtain ⟨hf, hh, h0, hs, h1, hpub⟩ := hi.claimed hc hl
  have hr' : r < (l.updateFiber f (fun c => { c with state := .ready })).wakers.length := by simpa using hr
  have hclaims : ∀ g, ((l.updateFiber f (fun c => { c with state := .ready })).setWakerPhase r
      (.push ((l.fiber f).entity f))).claims.count g + (if g = f then 1 else 0) = l.claims.count g := by
    intro g
    have := count_claims_setWakerPhase hr' (.push ((l.fiber f).entity f)) g
    simp only [waker_updateFiber, hp, claim_resume, claim_push, Option.toList_none, Option.toList_some,
      List.count_nil, List.count_singleton, claims_updateFiber, beq_iff_eq] at this
    split_ifs at this ⊢ <;> omega
  have hcount : ∀ g, ((l.updateFiber f (fun c => { c with state := .ready })).setWakerPhase r
      (.push ((l.fiber f).entity f))).readyHolds.count g = l.readyHolds.count g + if g = f then 1 else 0 := by
    intro g
    have := count_readyHolds_setWakerPhase hr' (.push ((l.fiber f).entity f)) g
    simp only [waker_updateFiber, hp, waker_holds_resume, waker_holds_push, List.count_nil,
      readyHolds_updateFiber] at this
    have he : ((l.fiber f).entity f).id = f := rfl
    rw [he, List.count_singleton] at this
    by_cases hg : g = f
    · subst hg
      simp only [beq_self_eq_true, if_true] at this ⊢
      omega
    · simp only [beq_iff_eq, Ne.symm hg, hg, if_false] at this ⊢
      omega
  refine hi.of_looks (by simpa using hi.sched) (by simp) [f] (fun g hg => ?_) (fun g hg => ?_)
    (fun g h₁ h₂ => by simp at h₂; omega)
  · have hgf : g ≠ f := by simpa using hg
    refine look_eq (by simp [fiber_updateFiber_ne hgf]) (by simp [hcount, hgf]) rfl ?_
    have := hclaims g
    simp only [hgf, if_false, add_zero] at this
    exact this
  · simp only [List.mem_singleton] at hg
    subst hg
    have hcl := hclaims g
    simp only [if_true] at hcl
    refine ⟨by simpa using hf, ok_rests (by simpa using hh) ?_⟩
    rw [look_wake]
    simp [fiber_updateFiber_self hf, FiberCell.Rests, hl, hcount, h0, hpub]
    omega

/-- A waker queues the fiber it made ready: the fiber moves from the waker to the scheduler. -/
theorem Inv.push (hi : l.Inv) (hr : r < l.wakers.length) {e : Entity} (hp : (l.waker r).phase = .push e)
    {s : Scheduler} (hpush : l.sched.push (l.waker r).thread e false = some s) :
    ((l.setSched s).setWakerPhase r .idle).Inv := by
  obtain ⟨hperm, hw⟩ := Scheduler.push_perm hi.sched hpush
  have hr' : r < (l.setSched s).wakers.length := by simpa using hr
  refine hi.of_same (by simpa using hw) (by simp) (fun g => look_eq rfl ?_ rfl ?_)
  · have h₁ := count_readyHolds_setWakerPhase hr' .idle g
    have h₂ := count_readyHolds_setSched (l := l) s g
    have h₃ := count_ids_of_perm (show s.entities.Perm ([e] ++ l.sched.entities) from hperm) g
    simp only [waker_setSched, hp, waker_holds_push, waker_holds_idle, List.count_nil, List.map_cons,
      List.map_nil] at h₁ h₃
    omega
  · have := count_claims_setWakerPhase hr' .idle g
    simp only [waker_setSched, hp, claim_push, claim_idle, Option.toList_none, List.count_nil,
      claims_setSched] at this
    omega

/-! ## 7. Every step keeps the invariant, and none aborts -/

theorem markReady_of_locked (hl : (l.fiber f).locked = true) (st : FiberState) : l.markReady f st = .ok none := by
  simp [markReady, hl]

/-- A fiber whose block a waker claimed is waiting once its lock is free. -/
theorem Inv.waiting_of_resume (hi : l.Inv) (hr : r < l.wakers.length) (hp : (l.waker r).phase = .resume f)
    (hl : (l.fiber f).locked = false) : (l.fiber f).state = .waiting := by
  have hc : 0 < l.claims.count f := by
    have := claim_le_claims hr f
    simp only [hp, claim_resume, Option.toList_some, List.count_singleton_self] at this
    omega
  exact (hi.claimed hc hl).2.2.2.1

/-- The fiber that switched to a master after a yield or a switch is running and unlocked. -/
theorem Inv.running_of_switched (hi : l.Inv) (hm : i < l.masters.length) {a : SwitchAction}
    (hp : (l.master i).phase = .switched f a) (ha : a.isSuspend = false) :
    (l.fiber f).state = .running ∧ (l.fiber f).locked = false := by
  obtain ⟨-, -, -, hs, hl, -⟩ := hi.handled hm (g := f) (h := .switched false) (by simp [hp, MasterPhase.handling, ha])
  exact ⟨hs, hl⟩

theorem Inv.masterStep (hi : l.Inv) (h : l.masterStep i = .ok (some l')) : l'.Inv := by
  unfold Lifecycle.masterStep at h
  split_ifs at h with hm
  · cases hp : (l.master i).phase with
    | idle =>
      simp only [hp, Except.ok.injEq] at h
      exact hi.seek hm hp h
    | run e =>
      simp only [hp] at h
      exact hi.launch hm hp h
    | running f =>
      simp only [hp, Except.ok.injEq] at h
      exact hi.perform hm hp h
    | suspending f st =>
      simp only [hp, Except.ok.injEq, Option.some.injEq] at h
      exact h ▸ hi.suspendStep hm hp
    | switched f a =>
      simp only [hp] at h
      exact hi.afterSwitch hm hp h
    | requeue f y next =>
      simp only [hp, Except.ok.injEq] at h
      exact hi.requeue hm hp h
  · simp at h

theorem Inv.wakerStep (hi : l.Inv) (h : l.wakerStep r f = .ok (some l')) : l'.Inv := by
  unfold Lifecycle.wakerStep at h
  by_cases hr : r < l.wakers.length
  · rw [if_pos hr] at h
    cases hp : (l.waker r).phase with
    | idle =>
      simp only [hp] at h
      by_cases hpub : (l.fiber f).published = true
      · simp only [hpub, if_true, Except.ok.injEq, Option.some.injEq] at h
        exact h ▸ hi.claim hr hp hpub
      · simp only [hpub, Bool.false_eq_true, if_false, Except.ok.injEq, reduceCtorEq] at h
    | resume g =>
      simp only [hp] at h
      cases hl : (l.fiber g).locked
      · simp only [markReady_of hl (hi.waiting_of_resume hr hp hl), Except.map, Option.map_some,
          Except.ok.injEq, Option.some.injEq] at h
        exact h ▸ hi.resume hr hp hl
      · simp [markReady_of_locked hl, Except.map] at h
    | push e =>
      simp only [hp] at h
      rcases hpush : l.sched.push (l.waker r).thread e false with _ | s
      · simp [hpush] at h
      · simp only [hpush, Except.ok.injEq, Option.some.injEq] at h
        exact h ▸ hi.push hr hp hpush
  · simp only [hr, if_false, Except.ok.injEq, reduceCtorEq] at h

/-- **Every step keeps the invariant.** -/
theorem Inv.step (hi : l.Inv) {a : Lifecycle.Turn} (h : l.step a = .ok (some l')) : l'.Inv := by
  cases a with
  | master i => exact hi.masterStep h
  | waker r f => exact hi.wakerStep h

/-- **No step aborts**: the fatal checks of making a fiber ready and of resuming one never
fail. -/
theorem Inv.step_ok (hi : l.Inv) (a : Lifecycle.Turn) : ∃ o, l.step a = .ok o := by
  cases a with
  | master i =>
    simp only [Lifecycle.step, Lifecycle.masterStep]
    split_ifs with hm
    · cases hp : (l.master i).phase with
      | run e =>
        obtain ⟨-, -, -, hready, hunl, -⟩ := hi.held (held_of_run hm hp)
        simp [Lifecycle.launch, hunl, hready]
      | switched f a =>
        cases a with
        | suspend next => simp [Lifecycle.afterSwitch]
        | yield next =>
          obtain ⟨hs, hl⟩ := hi.running_of_switched hm hp rfl
          simp [Lifecycle.afterSwitch, markReady_of hl hs, Except.map]
        | switchTo t =>
          obtain ⟨hs, hl⟩ := hi.running_of_switched hm hp rfl
          simp [Lifecycle.afterSwitch, markReady_of hl hs, Except.map]
      | _ => simp
    · simp
  | waker r f =>
    simp only [Lifecycle.step, Lifecycle.wakerStep]
    by_cases hr : r < l.wakers.length
    · rw [if_pos hr]
      cases hp : (l.waker r).phase with
      | idle =>
        simp only
        split_ifs
        · exact ⟨_, rfl⟩
        · exact ⟨_, rfl⟩
      | resume g =>
        cases hl : (l.fiber g).locked
        · simp [markReady_of hl (hi.waiting_of_resume hr hp hl), Except.map]
        · simp [markReady_of_locked hl, Except.map]
      | push e =>
        simp only
        rcases l.sched.push (l.waker r).thread e false with _ | s
        · exact ⟨_, rfl⟩
        · exact ⟨_, rfl⟩
    · exact ⟨none, by simp [hr]⟩

/-- A turn of an invariant group never aborts, and keeps the invariant. -/
theorem Inv.next (hi : l.Inv) (a : Lifecycle.Turn) : ∃ l', l.next a = .ok l' ∧ l'.Inv := by
  obtain ⟨o, ho⟩ := hi.step_ok a
  unfold Lifecycle.next
  cases o with
  | none => exact ⟨l, by simp [ho], hi⟩
  | some l₁ => exact ⟨l₁, by simp [ho], hi.step ho⟩

/-- **Every run of an invariant group goes through without an abort, and keeps the
invariant**, whatever the schedule. -/
theorem Inv.run (hi : l.Inv) (schedule : List Lifecycle.Turn) : ∃ l', l.run schedule = .ok l' ∧ l'.Inv := by
  induction schedule generalizing l with
  | nil => exact ⟨l, rfl, hi⟩
  | cons a rest ih =>
    obtain ⟨l₁, h₁, hi₁⟩ := hi.next a
    obtain ⟨l₂, h₂, hi₂⟩ := ih hi₁
    refine ⟨l₂, ?_, hi₂⟩
    simp only [Lifecycle.run, List.foldlM_cons, h₁]
    exact h₂

end Lifecycle

end Fibers
