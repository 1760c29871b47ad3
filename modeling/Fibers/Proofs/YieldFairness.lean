import Mathlib
import Fibers.Proofs.SingleWorker
/-!
# A yielding fiber lets the queued ones run first

Take a group started with one worker, any number of wakers and any body for its root fiber,
and any run of it. Suppose its master runs a fiber `f` that is about to yield, and that `f` is
not a reactor fiber, nor, with work stealing, group-local. Then every entity queued at that
moment (with work stealing, every one that is not a reactor entity) is launched before `f` is
launched again, whatever the steps in between (`Lifecycle.yield_lets_queued_run_first`). With
the shared queue, a fiber that yields while nothing is queued goes on at once.

The proof follows the part of the group's line ahead of `f` (`Lifecycle.ahead`). Once `f` has
yielded, its master holds it until it queues it at the tail of the line, and from then on it
is in the line (`Lifecycle.Behind`). Every step either launches the front of the line, or
keeps what was ahead of `f`, in order, while entities join the line or go to its front
(`Lifecycle.Behind.step`): none of those is `f`, since a fiber is held at most once. So what
was ahead of `f` when it yielded is launched, in order, before `f` (`Lifecycle.Behind.launches`).

A group-local fiber is different by design: with work stealing it goes back to its worker's
pinned queue, which the worker polls first, and may run again before the others
(`Lifecycle.local_yield_runs_again_first`).
-/

namespace Fibers

namespace Lifecycle

variable {l l' : Lifecycle} {a : Turn} {f : Nat}

/-! ## 1. What a run launches, and what is ahead of a fiber -/

/-- The entities a schedule launches, in order, until an abort. -/
def launches (l : Lifecycle) : List Turn → List Entity
  | [] => []
  | a :: rest =>
    match l.next a with
    | .ok l' => l.launched a ++ l'.launches rest
    | .error _ => []

/-- The part of the line ahead of fiber `f`: all of it while `f` is not in it. -/
def ahead (l : Lifecycle) (f : Nat) : List Entity := l.line.takeWhile (·.id != f)

/-- What one step does to what is ahead of fiber `f`, given what it launches: it launches `f`
with nothing ahead of it, or it launches nothing and keeps what was ahead in order, or it
launches the first entity ahead. -/
def AheadStep (f : Nat) (o A A' : List Entity) : Prop :=
  (∃ x, o = [x] ∧ x.id = f ∧ A = []) ∨ (o = [] ∧ A.Sublist A') ∨ ∃ x, o = [x] ∧ A = x :: A'

/-- An entity joining a list anywhere keeps what is ahead of the first that fails a test,
when it passes the test itself. -/
theorem takeWhile_sublist_insert {α : Type} {p : α → Bool} {x : α} (hx : p x = true) :
    ∀ A B : List α, ((A ++ B).takeWhile p).Sublist ((A ++ x :: B).takeWhile p)
  | [], B => by
    rw [List.nil_append, List.nil_append, List.takeWhile_cons_of_pos hx]
    exact List.sublist_cons_self x _
  | y :: A, B => by
    by_cases hy : p y = true
    · simp only [List.cons_append, List.takeWhile_cons_of_pos hy]
      exact (takeWhile_sublist_insert hx A B).cons_cons y
    · simp [List.takeWhile_cons_of_neg hy]

/-! ## 2. How a step moves what is ahead of a fiber in the line -/

/-- **A step keeps what is ahead of `f` in the line, or launches its front**, when no entity
that joins the line or goes to its front is `f`'s. -/
theorem LineStep.ahead {o L : List Entity} (hl : LineStep l o L) (hj : ∀ x, l.Joins x → x.id ≠ f)
    (hc : ∀ x, l.Cuts x → x.id ≠ f) : AheadStep f o (l.ahead f) (L.takeWhile (·.id != f)) := by
  cases hl with
  | keep => exact .inr (.inl ⟨rfl, List.Sublist.refl _⟩)
  | join hA hx =>
    refine .inr (.inl ⟨rfl, ?_⟩)
    rw [Lifecycle.ahead, hA]
    exact takeWhile_sublist_insert (by simpa using hj _ hx) _ _
  | cut hx =>
    refine .inr (.inl ⟨rfl, ?_⟩)
    rw [List.takeWhile_cons_of_pos (by simpa using hc _ hx)]
    exact List.sublist_cons_self _ _
  | @launch x L hL =>
    rw [Lifecycle.ahead, hL]
    by_cases hx : x.id = f
    · exact .inl ⟨x, rfl, hx, List.takeWhile_cons_of_neg (by simpa using hx)⟩
    · exact .inr (.inr ⟨x, rfl, List.takeWhile_cons_of_pos (by simpa using hx)⟩)

/-- A fiber in the line stays in it until it is launched. -/
theorem LineStep.mem {o L : List Entity} (hl : LineStep l o L) (hf : f ∈ l.line.map Entity.id)
    (ho : ∀ x ∈ o, x.id ≠ f) : f ∈ L.map Entity.id := by
  cases hl with
  | keep => exact hf
  | join hA hx =>
    rw [hA] at hf
    simp only [List.map_append, List.mem_append, List.map_cons, List.mem_cons] at hf ⊢
    tauto
  | cut hx => exact List.mem_cons_of_mem _ hf
  | @launch x L hL =>
    rw [hL, List.map_cons, List.mem_cons] at hf
    exact hf.resolve_left (fun h => ho x (List.mem_singleton_self x) h.symm)

/-- While `f` is in the line, nothing that joins the line or goes to its front is `f`'s: `f`
is held once, in the line, and exists. -/
theorem Single.fresh (h : l.Single) (hf : f ∈ l.line.map Entity.id) :
    (∀ x, l.Joins x → x.id ≠ f) ∧ ∀ x, l.Cuts x → x.id ≠ f := by
  have hle := h.count_le f
  have hpos : 0 < (l.line.map Entity.id).count f := List.count_pos_iff.mpr hf
  have hlt : f < l.fibers.length := h.inv.lt_length (by rw [← h.count_holders f]; omega)
  have hr : f ∉ l.sched.reactorItems.map Entity.id := fun hm => by
    have := List.count_pos_iff.mpr hm
    omega
  have hs : f ∉ (l.master 0).phase.spare := fun hm => by
    have := List.count_pos_iff.mpr hm
    omega
  have hw : f ∉ l.woken := fun hm => by
    have := List.count_pos_iff.mpr hm
    omega
  refine ⟨fun x hx hxf => ?_, fun x hx hxf => ?_⟩
  · rcases hx with hx | hx | hx
    · omega
    · exact hw (hxf ▸ hx)
    · exact hs (hxf ▸ hx)
  · rcases hx with hx | hx
    · exact hr (hxf ▸ List.mem_map_of_mem hx)
    · exact hs (hxf ▸ hx)

/-! ## 3. From the yield until the fiber runs again -/

/-- Fiber `f` goes to the tail of the line when queued after a yield: with work stealing it is
neither a reactor fiber nor group-local. -/
def YieldsToTail (l : Lifecycle) (f : Nat) : Prop :=
  l.sched.isShared = false → (l.fiber f).kind = (false, false)

/-- Where a fiber that yielded stands until its master runs it again: with its master, about
to be made ready or to be queued at the tail of the line, or in the line. -/
inductive Behind (f : Nat) (l : Lifecycle) : Prop where
  | switched {next : Option Entity} : l.Single → (l.master 0).phase = .switched f (.yield next) →
      l.YieldsToTail f → Behind f l
  | requeue {next : Option Entity} : l.Single → (l.master 0).phase = .requeue f true next →
      l.YieldsToTail f → Behind f l
  | queued : l.Single → f ∈ l.line.map Entity.id → Behind f l

theorem Behind.single (hb : Behind f l) : l.Single := by
  cases hb <;> assumption

/-- A fiber its master handles or holds aside is in no other place. -/
theorem Single.not_mem_of_master (h : l.Single)
    (hm : (l.master 0).phase.on = some f ∨ f ∈ (l.master 0).phase.spare) :
    f ∉ l.line.map Entity.id ∧ f ∉ l.woken := by
  have hle := h.count_le f
  have hpos : 0 < (l.master 0).phase.on.toList.count f + (l.master 0).phase.spare.count f := by
    rcases hm with hm | hm
    · simp [hm]
    · have := List.count_pos_iff.mpr hm
      omega
  refine ⟨fun hl => ?_, fun hw => ?_⟩
  · have := List.count_pos_iff.mpr hl
    omega
  · have := List.count_pos_iff.mpr hw
    omega

/-- While no waker is about to queue fiber `f`, a waker's step keeps the master, the kinds of
the fibers and what is ahead of `f`, in order. -/
theorem Single.waker_ahead {r g : Nat} (h : l.Single) (hw : f ∉ l.woken) (hs : l.wakerStep r g = .ok (some l')) :
    l'.masters = l.masters ∧ l'.YieldsToTail f = l.YieldsToTail f ∧ (l.ahead f).Sublist (l'.ahead f) := by
  obtain ⟨hmove, hm, hk, hline⟩ := h.wakerStep_line hs
  refine ⟨hm, by simp only [YieldsToTail, hk, hmove.isShared], ?_⟩
  rcases hline with heq | ⟨A, B, x, hA, hB, hx⟩
  · rw [Lifecycle.ahead, Lifecycle.ahead, heq]
  · rw [Lifecycle.ahead, Lifecycle.ahead, hA, hB]
    exact takeWhile_sublist_insert (by simpa using fun hxf : x.id = f => hw (hxf ▸ hx)) _ _

/-- What is ahead of a fiber out of the line is the whole line. -/
theorem ahead_eq_line (hout : f ∉ l.line.map Entity.id) : l.ahead f = l.line :=
  List.takeWhile_eq_self_iff.mpr (fun x hx => by
    simpa using fun hxf : x.id = f => hout (hxf ▸ List.mem_map_of_mem hx))

/-- Right after the yield, the master makes the fiber ready again, then queues it at the tail
of the line; meanwhile the wakers only add to the line. -/
theorem Behind.switched_step {next : Option Entity} (h : l.Single)
    (hp : (l.master 0).phase = .switched f (.yield next)) (hk : l.YieldsToTail f)
    (hs : l.step a = .ok (some l')) :
    AheadStep f (l.launched a) (l.ahead f) (l'.ahead f) ∧ Behind f l' := by
  obtain ⟨hout, hw⟩ := h.not_mem_of_master (f := f) (.inl (by simp [hp, MasterPhase.on]))
  have hs₀ := hs
  cases a with
  | master i =>
    have hl : l.launched (.master i) = [] := by
      rcases Nat.lt_or_ge i 1 with hi | hi
      · obtain rfl : i = 0 := by omega
        simp [launched, hp]
      · simp [launched, Lifecycle.step, masterStep, h.length, show ¬i < 1 by omega]
    simp only [Lifecycle.step, masterStep] at hs
    split_ifs at hs with hi
    · obtain rfl : i = 0 := by have := h.length; omega
      simp only [hp, Lifecycle.afterSwitch] at hs
      rcases hm : l.markReady f .running with _ | _ | l₁
      · simp [hm, Except.map] at hs
      · simp [hm, Except.map] at hs
      simp only [hm, Except.map, Option.map_some, Except.ok.injEq, Option.some.injEq] at hs
      rw [markReady_some hm] at hs
      subst hs
      have hline : ((l.updateFiber f fun c => { c with state := .ready }).setPhase 0
          (.requeue f true next)).line = l.line := by
        rw [line_setPhase (by simp [h.length])]
        simp [line, hp, MasterPhase.nextUp]
      refine ⟨.inr (.inl ⟨hl, by rw [Lifecycle.ahead, Lifecycle.ahead, hline]⟩), @Behind.requeue _ _ next (h.step hs₀)
        (by simp [master_setPhase_self (show 0 < (l.updateFiber f _).masters.length by simp [h.length])])
        (fun hsh => ?_)⟩
      rw [fiber_setPhase,
        kind_updateFiber (fun c => show ({ c with state := .ready } : FiberCell).kind = c.kind from rfl)]
      exact hk (by simpa using hsh)
    · simp at hs
  | waker r g =>
    obtain ⟨hm, hk', hsub⟩ := h.waker_ahead hw hs
    refine ⟨.inr (.inl ⟨rfl, hsub⟩), .switched (h.step hs) (by simpa [master, hm] using hp) (hk' ▸ hk)⟩

/-- Once made ready again, the master queues the fiber at the tail of the line, where it stays;
meanwhile the wakers only add to the line. -/
theorem Behind.requeue_step {next : Option Entity} (h : l.Single)
    (hp : (l.master 0).phase = .requeue f true next) (hk : l.YieldsToTail f)
    (hs : l.step a = .ok (some l')) :
    AheadStep f (l.launched a) (l.ahead f) (l'.ahead f) ∧ Behind f l' := by
  obtain ⟨hout, hw⟩ := h.not_mem_of_master (f := f) (.inr (by simp [hp, MasterPhase.spare]))
  have hs₀ := hs
  cases a with
  | master i =>
    simp only [Lifecycle.step, masterStep] at hs
    split_ifs at hs with hi
    · obtain rfl : i = 0 := by have := h.length; omega
      have hl : l.launched (.master 0) = [] := by simp [launched, hp]
      simp only [hp, Except.ok.injEq] at hs
      obtain ⟨hline, -⟩ := h.requeue_line_yield hp hk hs
      have hmem : f ∈ l'.line.map Entity.id := by simp [hline, FiberCell.entity]
      refine ⟨.inr (.inl ⟨hl, ?_⟩), .queued (h.step hs₀) hmem⟩
      rw [ahead_eq_line hout, Lifecycle.ahead, hline, List.takeWhile_append_of_pos
        (fun x hx => by simpa using fun hxf : x.id = f => hout (hxf ▸ List.mem_map_of_mem hx))]
      simp [FiberCell.entity]
    · simp at hs
  | waker r g =>
    obtain ⟨hm, hk', hsub⟩ := h.waker_ahead hw hs
    refine ⟨.inr (.inl ⟨rfl, hsub⟩), .requeue (h.step hs) (by simpa [master, hm] using hp) (hk' ▸ hk)⟩

/-- While the fiber is in the line, every step keeps what is ahead of it or launches the
front of the line. -/
theorem Behind.queued_step (h : l.Single) (hf : f ∈ l.line.map Entity.id) (hs : l.step a = .ok (some l')) :
    AheadStep f (l.launched a) (l.ahead f) (l'.ahead f) ∧ ((∀ x ∈ l.launched a, x.id ≠ f) → Behind f l') := by
  obtain ⟨-, -, hl⟩ := h.step_line hs
  obtain ⟨hj, hc⟩ := h.fresh hf
  exact ⟨hl.ahead hj hc, fun ho => .queued (h.step hs) (hl.mem hf ho)⟩

/-- **The step lemma**: from the yield until the fiber runs again, every step keeps what is
ahead of it in order, or launches the first entity ahead; and the fiber stays behind, until a
step launches it with nothing ahead of it. -/
theorem Behind.step (hb : Behind f l) (hs : l.step a = .ok (some l')) :
    AheadStep f (l.launched a) (l.ahead f) (l'.ahead f) ∧ ((∀ x ∈ l.launched a, x.id ≠ f) → Behind f l') := by
  cases hb with
  | switched h hp hk =>
    obtain ⟨ha, hb'⟩ := Behind.switched_step h hp hk hs
    exact ⟨ha, fun _ => hb'⟩
  | requeue h hp hk =>
    obtain ⟨ha, hb'⟩ := Behind.requeue_step h hp hk hs
    exact ⟨ha, fun _ => hb'⟩
  | queued h hf => exact Behind.queued_step h hf hs

/-- A turn whose actor takes no step launches nothing. -/
theorem launched_of_none (ho : l.step a = .ok none) : l.launched a = [] := by
  cases a with
  | master i =>
    simp only [launched, ho]
    split <;> simp_all
  | waker r g => rfl

/-- **The run lemma**: whatever the schedule, what is ahead of the fiber in the line is
launched, in order, before the fiber is launched again. -/
theorem Behind.launches (hb : Behind f l) (u : List Turn) (hf : f ∈ (l.launches u).map Entity.id) :
    (l.ahead f).Sublist ((l.launches u).takeWhile (·.id != f)) := by
  induction u generalizing l with
  | nil => simp [Lifecycle.launches] at hf
  | cons a rest ih =>
    obtain ⟨o, ho⟩ := hb.single.inv.step_ok a
    cases o with
    | none =>
      have hn : l.next a = .ok l := by simp [Lifecycle.next, ho]
      simp only [Lifecycle.launches, hn, launched_of_none ho, List.nil_append] at hf ⊢
      exact ih hb hf
    | some l₁ =>
      have hn : l.next a = .ok l₁ := by simp [Lifecycle.next, ho]
      obtain ⟨hstep, hnext⟩ := hb.step ho
      simp only [Lifecycle.launches, hn] at hf ⊢
      rcases hstep with ⟨x, -, -, hA⟩ | ⟨hx, hsub⟩ | ⟨x, hx, hA⟩
      · -- the fiber itself is launched, with nothing ahead of it
        rw [hA]
        exact List.nil_sublist _
      · rw [hx, List.nil_append] at hf ⊢
        exact hsub.trans (ih (hnext (by simp [hx])) hf)
      · -- the first entity ahead is launched
        have hxf : x.id ≠ f := by
          simpa using List.mem_takeWhile_imp (show x ∈ l.ahead f by rw [hA]; exact List.mem_cons_self ..)
        rw [hx, List.singleton_append] at hf ⊢
        rw [List.takeWhile_cons_of_pos (by simpa using hxf), hA]
        have hf' : f ∈ (l₁.launches rest).map Entity.id := by
          rw [List.map_cons, List.mem_cons] at hf
          exact hf.resolve_left (fun h => hxf h.symm)
        exact (ih (hnext (by simp [hx, hxf])) hf').cons_cons x

/-! ## 4. The yield -/

/-- A fiber whose master has just taken its yield is behind all of the line. -/
theorem Single.behind_of_yield (next : Option Entity) (h : l.Single)
    (hp : (l.master 0).phase = .switched f (.yield next)) (hk : l.YieldsToTail f) :
    Behind f l ∧ l.ahead f = l.line :=
  ⟨.switched h hp hk, ahead_eq_line (h.not_mem_of_master (.inl (by simp [hp, MasterPhase.on]))).1⟩

/-- A fiber that yields while something is queued switches to its master with the front of the
line, and its master holds it aside: all the line is ahead of it. With work stealing it switches
even when nothing is queued. -/
theorem Single.yield_behind {rest : List FiberOp} (h : l.Single) (hm : (l.master 0).phase = .running f)
    (hp : (l.fiber f).program = .yield :: rest) (hk : l.YieldsToTail f)
    (hne : l.sched.isShared = true → l.sched.line ≠ []) :
    ∃ l₁, l.step (.master 0) = .ok (some l₁) ∧ Behind f l₁ ∧ l₁.ahead f = l.sched.line := by
  have hkind : ((l.updateFiber f fun c => { c with program := rest }).fiber f).kind = (l.fiber f).kind :=
    kind_updateFiber (fun c => show ({ c with program := rest } : FiberCell).kind = c.kind from rfl) f
  cases hs : l.sched with
  | shared q =>
    obtain ⟨x, xs, hq⟩ := List.exists_cons_of_ne_nil
      (show q.queue ≠ [] by simpa [hs, Scheduler.isShared, Scheduler.line] using hne)
    have hstep : l.step (.master 0) = .ok (some (((l.updateFiber f fun c => { c with program := rest }).setSched
        (.shared { q with queue := xs })).setPhase 0 (.switched f (.yield (some x))))) := by
      simp [Lifecycle.step, masterStep, h.length, hm, Lifecycle.perform, hp, hs, SharedQueue.pop, hq]
    have h₁ := h.step hstep
    obtain ⟨hb, ha⟩ := h₁.behind_of_yield (f := f) (some x) (by simp [master_setPhase_self, h.length])
      (fun hsh => by simp [Scheduler.isShared] at hsh)
    refine ⟨_, hstep, hb, ?_⟩
    rw [ha, line_setPhase (by simp [h.length])]
    simp [MasterPhase.nextUp, Scheduler.line, hq]
  | stealing st =>
    have hstep : l.step (.master 0) = .ok (some ((l.updateFiber f fun c => { c with program := rest }).setPhase
        0 (.switched f (.yield none)))) := by
      simp [Lifecycle.step, masterStep, h.length, hm, Lifecycle.perform, hp, hs]
    have h₁ := h.step hstep
    obtain ⟨hb, ha⟩ := h₁.behind_of_yield (f := f) none (by simp [master_setPhase_self, h.length])
      (fun hsh => by rw [fiber_setPhase, hkind]; exact hk (by simpa [hs] using hsh))
    refine ⟨_, hstep, hb, ?_⟩
    rw [ha, line_setPhase (by simp [h.length])]
    simp [MasterPhase.nextUp, hs]

/-! ## 5. Yield does not starve the queued -/

/-- **A yielding fiber lets the queued ones run first.** In a group started with one worker,
take any run, and a fiber `f` that its master runs and that is about to yield, and that is not
a reactor fiber nor, with work stealing, group-local. Whatever the turns after the yield,
every entity queued at that moment (with work stealing, every one that is not a reactor
entity) is launched before `f` is launched again. With the shared queue, a fiber that yields
while nothing is queued goes on at once: its master keeps running it, and nothing else
changes. -/
theorem yield_lets_queued_run_first {c : Config} {wakers : Nat} {root : List FiberOp} {pre : List Turn}
    {l₀ l : Lifecycle} {f : Nat} {rest : List FiberOp}
    (hstart : Lifecycle.start c 1 wakers root = .ok l₀) (hrun : l₀.run pre = .ok l)
    (hm : (l.master 0).phase = .running f) (hp : (l.fiber f).program = .yield :: rest)
    (hk : l.sched.isShared = false → (l.fiber f).reactor = false ∧ (l.fiber f).groupLocal = false) :
    (∀ u, ∀ e ∈ l.sched.entities, (l.sched.isShared = false → e.reactor = false) →
      f ∈ (l.launches (.master 0 :: u)).map Entity.id →
      e ∈ (l.launches (.master 0 :: u)).takeWhile (·.id != f)) ∧
    (l.sched.isShared = true → l.sched.entities = [] →
      l.step (.master 0) = .ok (some (l.updateFiber f fun c => { c with program := rest }))) := by
  have h := (Single.start hstart).run hrun
  refine ⟨fun u e he hr hf => ?_, fun hsh hempty => ?_⟩
  · -- everything in the line when `f` yields is ahead of it until it runs again
    have hline := Scheduler.mem_line h.inv.sched h.sched he hr
    obtain ⟨l₁, hstep, hb, ha⟩ := h.yield_behind hm hp
      (fun hsh => by simp [FiberCell.kind, hk hsh]) (fun _ => List.ne_nil_of_mem hline)
    have hl : l.launched (.master 0) = [] := by simp [launched, hm]
    have hn : l.next (.master 0) = .ok l₁ := by simp [Lifecycle.next, hstep]
    simp only [Lifecycle.launches, hn, hl, List.nil_append] at hf ⊢
    exact (hb.launches u hf).subset (ha ▸ hline)
  · cases hs : l.sched with
    | shared q =>
      have hq : q.queue = [] := by simpa [hs, Scheduler.entities] using hempty
      simp [Lifecycle.step, masterStep, h.length, hm, Lifecycle.perform, hp, hs, SharedQueue.pop, hq]
    | stealing st => simp [hs, Scheduler.isShared] at hsh

/-- With work stealing, the root fiber starts one that adds one, then yields: the one it
started runs before the root runs again. -/
theorem yield_lets_queued_run_first_spawn :
    ∃ l₀ l, Lifecycle.start { scheduling := "v2" } 1 0 [.spawn false false [.work], .yield, .work] = .ok l₀ ∧
      l₀.run [.master 0, .master 0, .master 0] = .ok l ∧ (l.master 0).phase = .running 0 ∧
      (l.fiber 0).program = [.yield, .work] ∧
      (l.sched.isShared = false → (l.fiber 0).reactor = false ∧ (l.fiber 0).groupLocal = false) ∧
      (∀ u, ∀ e ∈ l.sched.entities, (l.sched.isShared = false → e.reactor = false) →
        0 ∈ (l.launches (.master 0 :: u)).map Entity.id →
        e ∈ (l.launches (.master 0 :: u)).takeWhile (·.id != 0)) ∧
      (l.sched.isShared = true → l.sched.entities = [] →
        l.step (.master 0) = .ok (some (l.updateFiber 0 fun c => { c with program := [.work] }))) :=
  ⟨_, _, rfl, rfl, rfl, rfl, fun _ => ⟨rfl, rfl⟩,
    @yield_lets_queued_run_first { scheduling := "v2" } 0 [.spawn false false [.work], .yield, .work]
      [.master 0, .master 0, .master 0] _ _ 0 [.work] rfl rfl rfl rfl (fun _ => ⟨rfl, rfl⟩)⟩

/-- With work stealing, a group-local fiber that yields goes back to its worker's pinned queue,
which the worker polls first: it runs again before a fiber that was queued when it yielded.
The root starts a group-local fiber that yields, and another fiber; once the root has ended
and the group-local fiber runs, five turns of the master see it yield and run again, while the
other stays queued. -/
theorem local_yield_runs_again_first :
    ∃ l₀ l, Lifecycle.start { scheduling := "v2" } 1 0
        [.spawn true false [.yield, .work], .spawn false false [.work]] = .ok l₀ ∧
      l₀.run (List.replicate 7 (.master 0)) = .ok l ∧ (l.master 0).phase = .running 1 ∧
      (l.fiber 1).program = [.yield, .work] ∧ (l.fiber 1).reactor = false ∧
      l.sched.entities.map (fun e => (e.id, e.reactor)) = [(2, false)] ∧
      (l.launches (List.replicate 5 (.master 0))).map Entity.id = [1] :=
  ⟨_, _, rfl, rfl, rfl, rfl, rfl, rfl, rfl⟩

end Lifecycle

end Fibers
