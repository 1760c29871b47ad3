import Mathlib
import Fibers.Proofs.LiveInvariant
/-!
# Changes that keep the live-fiber accounting

`Fibers.Proofs.LiveInvariant` states the invariant `Census.Inv` of the live-fiber accounting
and shows that letting go of what a census refers to keeps it. A world also takes things on:
this module says, for every other kind of change, under which side conditions it keeps the
invariant. The side conditions are what the world's operations know when they make the change;
`Fibers.Proofs.LiveAccounting` discharges them.

## Contents
1. Looking a census up after a change.
2. Tasks and handles: a holder's tasks replaced (`Census.Inv.setTasks`), a holder's handles
   replaced (`Census.Inv.setHandles`). A spawn in flight may be taken on only for a fiber no
   task, run queue or worker names; a handle only for a fiber whose spawn can no longer give up.
3. New fibers: a spawn describes them, and they count as live from then on.
4. Run queues and workers: handing fibers to a run queue, drawing from it, a worker about to
   take a fiber or running one.
5. Statuses: a joinable spawn that gives up, a fiber given its stack, a fiber that returns.
6. Waits, chores, barriers, timeouts and the end of a run.
-/

namespace Fibers

namespace Census

variable {v v' : Census} {h : Holder} {ts : List Task} {f g k : Nat}

/-! ## 1. Looking a census up after a change -/

theorem fiber_of_lt (hf : f < v.fibers.length) : v.fiber f = v.fibers[f] := by
  simp [fiber, List.getD_eq_getElem?_getD, List.getElem?_eq_getElem hf]

/-- Changing one fiber of a census, in range. -/
theorem fiber_modify (F : FiberView → FiberView) (hf : f < v.fibers.length) (g : Nat) :
    ({ v with fibers := v.fibers.modify f F } : Census).fiber g =
      if g = f then F (v.fiber f) else v.fiber g := by
  simp only [fiber, List.getD_eq_getElem?_getD]
  split
  · next hg => subst hg; simp [List.getElem?_eq_getElem hf]
  · next hg => rw [List.getElem?_modify_ne _ _ (Ne.symm hg)]

theorem thread_of_lt {t : Nat} (ht : t < v.threads.length) : v.thread t = v.threads[t] := by
  simp [thread, List.getD_eq_getElem?_getD, List.getElem?_eq_getElem ht]

/-- A change of one fiber that keeps its status keeps every status. -/
theorem statuses_modify {F : FiberView → FiberView}
    (hF : ∀ x, v.fibers[f]? = some x → (F x).status = x.status) :
    ({ v with fibers := v.fibers.modify f F } : Census).statuses = v.statuses :=
  map_modify_of_eq_at hF

@[simp] theorem tasksOf_setTasks (hh : v.Has h) : (v.setTasks h ts).tasksOf h = ts := by
  cases h with
  | fiber f k =>
    simp only [setTasks, tasksOf]
    rw [fiber_modify _ hh, if_pos rfl]
  | thread t =>
    simp [setTasks, tasksOf, thread, List.getD_eq_getElem?_getD, List.getElem?_eq_getElem (show t < v.threads.length from hh)]

theorem has_setTasks {h' : Holder} : (v.setTasks h ts).Has h' ↔ v.Has h' := by
  cases h <;> cases h' <;> simp [setTasks, Has]

/-- The census after a holder's tasks changed, as the tasks of every holder then. -/
theorem tasks_setHandles (hs : List (Nat × Nat)) : (v.setHandles h hs).tasks = v.tasks := by
  cases h <;> simp only [setHandles, tasks] <;> congr 1 <;> exact flatMap_modify_of_eq fun _ => rfl

theorem handles_setTasks (ts : List Task) : (v.setTasks h ts).handles = v.handles := by
  cases h <;> simp only [setTasks, handles] <;> congr 1 <;> exact flatMap_modify_of_eq fun _ => rfl

theorem statuses_setHandles (hs : List (Nat × Nat)) : (v.setHandles h hs).statuses = v.statuses := by
  cases h with
  | fiber f k => exact map_modify_of_eq (fun _ => rfl)
  | thread t => rfl

/-- Replacing the tasks of a holder keeps every status when a fiber keeps having work. -/
theorem statuses_setTasks (hb : ∀ f k, h = .fiber f k → ts.isEmpty = (v.fiber f).tasks.isEmpty) :
    (v.setTasks h ts).statuses = v.statuses := by
  cases h with
  | fiber f k =>
    refine statuses_modify fun x hx => ?_
    have hfx : v.fiber f = x := by simp [fiber, List.getD_eq_getElem?_getD, hx]
    have := hb f k rfl
    rw [hfx] at this
    simp [FiberView.status, FiberView.busy, this]
  | thread t => rfl

/-- Replacing the handles of a holder. -/
theorem handles_setHandles_perm (hs : List (Nat × Nat)) (hh : v.Has h) :
    ((v.setHandles h hs).handles ++ v.handlesOf h).Perm (hs ++ v.handles) := by
  cases h with
  | fiber f k =>
    have hp := flatMap_modify_perm FiberView.handles (fun x => { x with handles := hs }) (l := v.fibers) hh
    have hget : (v.fiber f).handles = v.fibers[f].handles := by rw [fiber_of_lt hh]
    simp only [setHandles, handles, handlesOf, hget]
    rw [← Multiset.coe_eq_coe] at hp ⊢
    simp only [← Multiset.coe_add] at hp ⊢
    rw [add_right_comm, hp, add_assoc]
  | thread t =>
    have hp := flatMap_modify_perm ThreadView.handles (fun x => { x with handles := hs }) (l := v.threads) hh
    have hget : (v.thread t).handles = v.threads[t].handles := by rw [thread_of_lt hh]
    simp only [setHandles, handles, handlesOf, hget]
    rw [← Multiset.coe_eq_coe] at hp ⊢
    simp only [← Multiset.coe_add] at hp ⊢
    rw [add_assoc, hp, add_left_comm]

theorem mem_handles_setHandles {hs : List (Nat × Nat)} {d : Nat × Nat} (hh : v.Has h)
    (hd : d ∈ (v.setHandles h hs).handles) : d ∈ hs ∨ d ∈ v.handles := by
  have := (handles_setHandles_perm hs hh).subset (List.mem_append_left _ hd)
  simpa using this

theorem mem_handlesOf {d : Nat × Nat} (hh : v.Has h) (hd : d ∈ v.handlesOf h) : d ∈ v.handles := by
  have := (handles_setHandles_perm [] hh).subset (List.mem_append_right _ hd)
  simpa using this

/-- The fibers whose spawns a holder's tasks carry are spawns in flight of the census. -/
theorem mem_spawning_of_tasksOf (hh : v.Has h) (hf : f ∈ (v.tasksOf h).flatMap Task.spawning) :
    f ∈ v.spawning := by
  have := (refs_setTasks_perm Task.spawning [] hh).subset (List.mem_append_right _ hf)
  simpa [spawning] using this

theorem mem_trying_of_tasksOf (hh : v.Has h) (hf : f ∈ (v.tasksOf h).flatMap Task.trying) :
    f ∈ v.trying := by
  have := (refs_setTasks_perm Task.trying [] hh).subset (List.mem_append_right _ hf)
  simpa [trying] using this

theorem mem_adopting_of_tasksOf (hh : v.Has h) (hf : f ∈ (v.tasksOf h).flatMap Task.adopting) :
    f ∈ v.adopting := by
  have := (refs_setTasks_perm Task.adopting [] hh).subset (List.mem_append_right _ hf)
  simpa [adopting] using this

/-- A task list that names no spawn in flight names no joinable spawn that may give up. -/
theorem trying_eq_nil {ts : List Task} (h : ts.flatMap Task.spawning = []) :
    ts.flatMap Task.trying = [] := by
  induction ts with
  | nil => rfl
  | cons t ts ih =>
    simp only [List.flatMap_cons, List.append_eq_nil_iff] at h ⊢
    exact ⟨List.eq_nil_of_sublist_nil (h.1 ▸ t.trying_sublist_spawning), ih h.2⟩

/-! ## 2. Tasks and handles -/

/-- `v'` differs from `v` at most in the tasks and handles of fibers and threads, and every
fiber keeps its status. -/
structure Reassigned (v' v : Census) : Prop where
  statuses : v'.statuses = v.statuses
  frame : v' = { v with fibers := v'.fibers, threads := v'.threads }

/-- Reassigning tasks and handles keeps the invariant when every fiber's tasks end its body
once, every spawn in flight was in flight or is of a fiber that nothing names and that has
work and no stack, and every handle names the exit barrier of a fiber whose spawn can no longer
give up. -/
theorem Inv.reassigned (hi : v.Inv) (hr : v'.Reassigned v)
    (hends : ∀ f, Task.Ends (v'.fiber f).tasks)
    (hspawn : ∀ f ∈ v'.spawning, f ∈ v.spawning ∨
      (f ∉ v.placed ∧ (v.fiber f).started = false ∧ (v.fiber f).busy = true))
    (hnodup : v'.spawning.Nodup)
    (hlatch : ∀ d ∈ v'.handles, ∃ f, (v.fiber f).latch = some d.2)
    (hfree : ∀ f b, (v.fiber f).latch = some b → (f ∈ v'.trying ∨ (v.fiber f).dropped = true) →
      ∀ d ∈ v'.handles, d.2 ≠ b)
    (hadopt : ∀ f ∈ v'.adopting, f ∉ v'.trying ∧ (v.fiber f).dropped = false) : v'.Inv := by
  have hs := hr.statuses
  have e := hr.frame
  have hplaced : v'.placed = v.placed := by rw [e]; rfl
  have hload : ∀ k, v'.load k = v.load k := fun k => by rw [e]; rfl
  have hchores : v'.choreFibers = v.choreFibers := by rw [e]; rfl
  have hrefs : v'.blockRefs = v.blockRefs := by rw [e]
  have hwaiters : v'.waiters = v.waiters := by rw [e]
  have hsched : ∀ g, v'.sched g = v.sched g := fun g => by rw [e]; rfl
  refine ⟨⟨?_, ?_, hends⟩, ⟨fun f hf => ?_, hnodup, fun f hf => ?_, fun f hf => ?_,
    fun k f hk => ?_, fun f hf => ?_, fun b hb => ?_, fun b hb f hf => ?_, fun r hr => ?_,
    fun g => ?_⟩, ⟨?_, fun f b hb => ?_, fun f g b hf hg => ?_, fun f b hb => ?_⟩,
    ⟨fun d hd => ?_, fun f b hb hf d hd => ?_, fun f hf => ?_⟩, fun he => ?_⟩
  · rw [congrArg Census.live e, hi.counts.live,
      countP_of_statuses hs (p := FiberView.busy) (q := (·.2.2)) (fun _ => rfl)]
  · rw [congrArg Census.outstanding e, hi.counts.outstanding,
      countP_of_statuses hs (p := fun x => x.busy && x.started) (q := fun s => s.2.2 && s.2.1)
        (fun _ => rfl)]
  · rw [started_of_statuses hs, busy_of_statuses hs]
    rcases hspawn f hf with hf | ⟨-, hst, hb⟩
    · exact hi.places.spawning f hf
    · exact ⟨hst, hb⟩
  · rw [hplaced]
    rcases hspawn f hf with hf | ⟨hp, -⟩
    · exact hi.places.apart f hf
    · exact hp
  · rw [dropped_of_statuses hs]
    exact hi.places.placed f (hplaced ▸ hf)
  · rw [started_of_statuses hs]
    exact hi.places.running k f (hload k ▸ hk)
  · rw [started_of_statuses hs]
    exact hi.places.chores f (hchores ▸ hf)
  · rw [hwaiters]
    exact hi.places.blocks b (hrefs ▸ hb)
  · rw [started_of_statuses hs]
    exact hi.places.waiters b (hrefs ▸ hb) f (by simpa [waiter, hwaiters] using hf)
  · rw [congrArg Census.timeouts e]
    exact hi.places.timeouts r (congrArg Census.timeoutRefs e ▸ hr)
  · rw [hsched]
    exact hi.places.sound g
  · rw [congrArg Census.barriers e, congrArg Census.latches e]
    exact hi.latches.barriers
  · rw [congrArg Census.barriers e, congrArg Census.latches e]
    exact hi.latches.range f b (by rwa [latch_of_statuses hs] at hb)
  · exact hi.latches.own f g b (by rwa [latch_of_statuses hs] at hf) (by rwa [latch_of_statuses hs] at hg)
  · rw [congrArg Census.latches e, returned_of_statuses hs]
    exact hi.latches.count f b (by rwa [latch_of_statuses hs] at hb)
  · obtain ⟨f, hf⟩ := hlatch d hd
    exact ⟨f, by rw [latch_of_statuses hs]; exact hf⟩
  · rw [latch_of_statuses hs] at hb
    rw [dropped_of_statuses hs] at hf
    exact hfree f b hb hf d hd
  · rw [dropped_of_statuses hs]
    exact hadopt f hf
  · rw [congrArg Census.live e]
    exact hi.quiet (congrArg Census.ending e ▸ he)

theorem frame_setTasks (h : Holder) (ts : List Task) :
    v.setTasks h ts = { v with fibers := (v.setTasks h ts).fibers, threads := (v.setTasks h ts).threads } := by
  cases h <;> rfl

theorem frame_setHandles (h : Holder) (hs : List (Nat × Nat)) :
    v.setHandles h hs = { v with fibers := (v.setHandles h hs).fibers, threads := (v.setHandles h hs).threads } := by
  cases h <;> rfl

/-- Replacing the tasks of a holder. A fiber keeps having work and its tasks end its body once;
a spawn in flight the new tasks name was named by the old ones, or is of a fiber that nothing
names, that has work and no stack; a joinable spawn that may give up could before, or is of a
fiber no handle names and no dispatch adopts; a handle to keep once a dispatch has launched its
fiber is of a fiber that cannot give up. -/
theorem Inv.setTasks (hi : v.Inv) (hh : v.Has h)
    (hf : ∀ f k, h = .fiber f k → (v.fiber f).busy = true ∧ ts ≠ [] ∧ Task.Ends ts)
    (hspawn : ∀ f ∈ ts.flatMap Task.spawning, f ∈ (v.tasksOf h).flatMap Task.spawning ∨
      (f ∉ v.spawning ∧ f ∉ v.placed ∧ (v.fiber f).started = false ∧ (v.fiber f).busy = true))
    (hnodup : (ts.flatMap Task.spawning).Nodup)
    (htry : ∀ f ∈ ts.flatMap Task.trying, f ∈ (v.tasksOf h).flatMap Task.trying ∨
      (f ∉ v.adopting ∧ ∀ b, (v.fiber f).latch = some b → ∀ d ∈ v.handles, d.2 ≠ b))
    (hadopt : ∀ f ∈ ts.flatMap Task.adopting, f ∉ ts.flatMap Task.trying ∧
      (f ∈ (v.tasksOf h).flatMap Task.adopting ∨ (f ∉ v.trying ∧ (v.fiber f).dropped = false))) :
    (v.setTasks h ts).Inv := by
  -- what the new tasks name comes from the old census or from the new tasks
  have mem : ∀ {F : Task → List Nat} {x : Nat}, x ∈ (v.setTasks h ts).tasks.flatMap F →
      x ∈ ts.flatMap F ∨ x ∈ v.tasks.flatMap F := fun hx => mem_refs_setTasks hh hx
  have old : ∀ {F : Task → List Nat} {x : Nat}, x ∈ (v.tasksOf h).flatMap F → x ∈ v.tasks.flatMap F :=
    fun hx => by simpa using (refs_setTasks_perm _ [] hh).subset (List.mem_append_right _ hx)
  refine hi.reassigned ⟨statuses_setTasks fun f k hfk => ?_, frame_setTasks h ts⟩
    (fun f => ?_) (fun f hf' => ?_) ?_ (fun d hd => ?_) (fun f b hb hft d hd => ?_) (fun f hf' => ?_)
  · obtain ⟨hb, hne, -⟩ := hf f k hfk
    simp only [FiberView.busy, Bool.not_eq_eq_eq_not, Bool.not_true] at hb
    simp [hb, hne]
  · cases h with
    | fiber f' k =>
      simp only [setTasks]
      rw [fiber_modify _ hh]
      split
      · next hf' => subst hf'; exact (hf f k rfl).2.2
      · exact hi.counts.ends f
    | thread t => exact hi.counts.ends f
  · rcases mem hf' with hn | ho
    · rcases hspawn f hn with hn | ⟨-, hfresh⟩
      · exact .inl (old hn)
      · exact .inr hfresh
    · exact .inl ho
  · -- a fiber is named at most once: by the new tasks, or by the old census less the old tasks
    have hp := refs_setTasks_perm Task.spawning ts hh
    rw [List.nodup_iff_count_le_one]
    intro x
    have hc := hp.count_eq x
    simp only [List.count_append] at hc
    have h₁ := List.nodup_iff_count_le_one.mp hnodup x
    have h₂ := List.nodup_iff_count_le_one.mp hi.places.nodup x
    by_cases hx : x ∈ ts.flatMap Task.spawning
    · rcases hspawn x hx with hx' | ⟨hx', -⟩
      · have := List.count_pos_iff.mpr hx'
        change (v.setTasks h ts).spawning.count x + _ = _ + v.spawning.count x at hc
        omega
      · have := List.count_eq_zero.mpr hx'
        change (v.setTasks h ts).spawning.count x + _ = _ + v.spawning.count x at hc
        omega
    · have := List.count_eq_zero.mpr hx
      change (v.setTasks h ts).spawning.count x + _ = _ + v.spawning.count x at hc
      omega
  · rw [handles_setTasks] at hd
    exact hi.handles.latch d hd
  · rw [handles_setTasks] at hd
    rcases hft with hft | hdrop
    · rcases mem hft with hn | ho
      · rcases htry f hn with hn | ⟨-, hfree⟩
        · exact hi.handles.free f b hb (.inl (old hn)) d hd
        · exact hfree b hb d hd
      · exact hi.handles.free f b hb (.inl ho) d hd
    · exact hi.handles.free f b hb (.inr hdrop) d hd
  · -- a fiber to adopt may not give up: it could not before, and the new tasks do not let it
    have notNew : f ∈ v.adopting → f ∉ ts.flatMap Task.trying := fun ha hn => by
      rcases htry f hn with hn | ⟨hn, -⟩
      · exact (hi.handles.adopting f ha).1 (old hn)
      · exact hn ha
    rcases mem hf' with hn | ho
    · obtain ⟨hnt, hold⟩ := hadopt f hn
      rcases hold with hold | ⟨hnt', hd⟩
      · obtain ⟨hnt', hd⟩ := hi.handles.adopting f (old hold)
        refine ⟨fun ht => ?_, hd⟩
        rcases mem ht with ht | ht
        · exact hnt ht
        · exact hnt' ht
      · refine ⟨fun ht => ?_, hd⟩
        rcases mem ht with ht | ht
        · exact hnt ht
        · exact hnt' ht
    · obtain ⟨hnt, hd⟩ := hi.handles.adopting f ho
      refine ⟨fun ht => ?_, hd⟩
      rcases mem ht with ht | ht
      · exact notNew ho ht
      · exact hnt ht

/-- The spawns in flight a holder's tasks name, each once. -/
theorem nodup_spawning_tasksOf (hi : v.Inv) (hh : v.Has h) :
    ((v.tasksOf h).flatMap Task.spawning).Nodup := by
  have hp := refs_setTasks_perm Task.spawning [] hh
  have : ((v.setTasks h []).spawning ++ (v.tasksOf h).flatMap Task.spawning).Nodup :=
    hp.nodup_iff.mpr (by rw [List.flatMap_nil, List.nil_append]; exact hi.places.nodup)
  exact (List.nodup_append.mp this).2.1

/-- What the tasks of a holder name is named in the census. -/
theorem mem_refs_of_tasksOf (hh : v.Has h) {F : Task → List Nat} {x : Nat}
    (hx : x ∈ (v.tasksOf h).flatMap F) : x ∈ v.tasks.flatMap F := by
  simpa using (refs_setTasks_perm F [] hh).subset (List.mem_append_right _ hx)

/-- Carrying out a holder's first task, one that does not end a fiber's body, and putting in
its place tasks that name only spawns in flight it named, in its order. -/
theorem Inv.replaceFirst (hi : v.Inv) (hh : v.Has h) {t : Task} {rest ps : List Task}
    (ht : v.tasksOf h = t :: rest)
    (hend : ∀ f k, h = .fiber f k → t.ends = false ∧ ∀ p ∈ ps, p.ends = false)
    (hsp : (ps.flatMap Task.spawning).Sublist t.spawning)
    (htry : ∀ f ∈ ps.flatMap Task.trying, f ∈ t.trying)
    (had : ∀ f ∈ ps.flatMap Task.adopting, f ∈ t.adopting) :
    (v.setTasks h (ps ++ rest)).Inv := by
  have hnd := nodup_spawning_tasksOf hi hh
  rw [ht, List.flatMap_cons] at hnd
  -- what the new tasks name, the old ones named
  have sub : ∀ {F : Task → List Nat}, (∀ f ∈ ps.flatMap F, f ∈ F t) → ∀ f ∈ (ps ++ rest).flatMap F,
      f ∈ (v.tasksOf h).flatMap F := fun hF f hf => by
    rw [ht, List.flatMap_cons]
    rw [List.flatMap_append, List.mem_append] at hf
    rcases hf with hf | hf
    · exact List.mem_append_left _ (hF f hf)
    · exact List.mem_append_right _ hf
  refine hi.setTasks hh (fun f k hfk => ?_) (fun f hf => .inl (sub (fun f hf => hsp.subset hf) f hf)) ?_
    (fun f hf => .inl (sub htry f hf)) (fun f hf => ⟨fun hft => ?_, .inl (sub had f hf)⟩)
  · obtain ⟨hte, hps⟩ := hend f k hfk
    subst hfk
    have hends := hi.counts.ends f
    simp only [tasksOf] at ht
    rw [ht] at hends
    obtain ⟨hne, hrest⟩ := hends.tail hte
    exact ⟨by simp [FiberView.busy, ht], by simp [hne], hrest.append hne hps⟩
  · rw [List.flatMap_append]
    exact hnd.sublist (hsp.append (List.Sublist.refl _))
  · -- a fiber the tasks adopt could not give up before, and the new tasks give up no more
    have hfa := mem_refs_of_tasksOf hh (sub had f hf)
    exact (hi.handles.adopting f hfa).1 (mem_refs_of_tasksOf hh (sub htry f hft))

/-- Putting tasks in front of a holder's tasks. They name spawns in flight of fibers nothing
names, each once, that have work and no stack; joinable spawns of fibers that no dispatch adopts
and no handle names; adoptions of fibers that cannot give up. -/
theorem Inv.push (hi : v.Inv) (hh : v.Has h) {ps : List Task}
    (hbusy : ∀ f k, h = .fiber f k → (v.fiber f).busy = true ∧ ∀ p ∈ ps, p.ends = false)
    (hsp : ∀ f ∈ ps.flatMap Task.spawning,
      f ∉ v.spawning ∧ f ∉ v.placed ∧ (v.fiber f).started = false ∧ (v.fiber f).busy = true)
    (hnd : (ps.flatMap Task.spawning).Nodup)
    (htry : ∀ f ∈ ps.flatMap Task.trying,
      f ∉ v.adopting ∧ ∀ b, (v.fiber f).latch = some b → ∀ d ∈ v.handles, d.2 ≠ b)
    (had : ∀ f ∈ ps.flatMap Task.adopting,
      f ∉ ps.flatMap Task.trying ∧ f ∉ v.trying ∧ (v.fiber f).dropped = false) :
    (v.setTasks h (ps ++ v.tasksOf h)).Inv := by
  have mem : ∀ {F : Task → List Nat} {f : Nat}, f ∈ (ps ++ v.tasksOf h).flatMap F →
      f ∈ ps.flatMap F ∨ f ∈ (v.tasksOf h).flatMap F := fun hf => by
    simpa only [List.flatMap_append, List.mem_append] using hf
  refine hi.setTasks hh (fun f k hfk => ?_) (fun f hf => ?_) ?_ (fun f hf => ?_) (fun f hf => ?_)
  · obtain ⟨hb, hps⟩ := hbusy f k hfk
    subst hfk
    have hne : (v.fiber f).tasks ≠ [] := by simpa [FiberView.busy] using hb
    exact ⟨hb, by simp [tasksOf, hne], (hi.counts.ends f).append hne hps⟩
  · rcases mem hf with hf | hf
    · exact .inr (hsp f hf)
    · exact .inl hf
  · rw [List.flatMap_append, List.nodup_append]
    exact ⟨hnd, nodup_spawning_tasksOf hi hh, fun a ha b hb hab =>
      (hsp a ha).1 (hab ▸ mem_spawning_of_tasksOf hh hb)⟩
  · rcases mem hf with hf | hf
    · exact .inr (htry f hf)
    · exact .inl hf
  · rcases mem hf with hf | hf
    · obtain ⟨hnt, hnt', hd⟩ := had f hf
      refine ⟨fun hft => ?_, .inr ⟨hnt', hd⟩⟩
      rcases mem hft with hft | hft
      · exact hnt hft
      · exact hnt' (mem_trying_of_tasksOf hh hft)
    · have hfa := mem_adopting_of_tasksOf hh hf
      refine ⟨fun hft => ?_, .inl hf⟩
      rcases mem hft with hft | hft
      · exact (htry f hft).1 hfa
      · exact (hi.handles.adopting f hfa).1 (mem_trying_of_tasksOf hh hft)

/-- Putting tasks that name no spawn and no adoption in front of a holder's tasks. -/
theorem Inv.pushPlain (hi : v.Inv) (hh : v.Has h) {ps : List Task}
    (hbusy : ∀ f k, h = .fiber f k → (v.fiber f).busy = true)
    (hps : ∀ p ∈ ps, p.ends = false ∧ p.spawning = [] ∧ p.adopting = []) :
    (v.setTasks h (ps ++ v.tasksOf h)).Inv := by
  have hsp : ps.flatMap Task.spawning = [] := List.flatMap_eq_nil_iff.mpr fun p hp => (hps p hp).2.1
  have had : ps.flatMap Task.adopting = [] := List.flatMap_eq_nil_iff.mpr fun p hp => (hps p hp).2.2
  have htry := trying_eq_nil hsp
  refine hi.push hh (fun f k hfk => ⟨hbusy f k hfk, fun p hp => (hps p hp).1⟩) ?_ ?_ ?_ ?_
  · rw [hsp]; intro f hf; cases hf
  · rw [hsp]; exact List.nodup_nil
  · rw [htry]; intro f hf; cases hf
  · rw [had]; intro f hf; cases hf

/-- Replacing the handles of a holder: each handle kept was held, or names the exit barrier of a
fiber whose spawn can no longer give up. -/
theorem Inv.setHandles (hi : v.Inv) (hh : v.Has h) {hs : List (Nat × Nat)}
    (hkeep : ∀ d ∈ hs, d ∈ v.handlesOf h ∨
      ∃ f, (v.fiber f).latch = some d.2 ∧ f ∉ v.trying ∧ (v.fiber f).dropped = false) :
    (v.setHandles h hs).Inv := by
  -- a handle now held was held before, or names a fiber that can no longer give up
  have mem : ∀ d ∈ (v.setHandles h hs).handles, d ∈ v.handles ∨
      ∃ f, (v.fiber f).latch = some d.2 ∧ f ∉ v.trying ∧ (v.fiber f).dropped = false := by
    intro d hd
    rcases mem_handles_setHandles hh hd with hd | hd
    · rcases hkeep d hd with hd | hd
      · exact .inl (mem_handlesOf hh hd)
      · exact .inr hd
    · exact .inl hd
  have htasks := tasks_setHandles (v := v) (h := h) hs
  refine hi.reassigned ⟨statuses_setHandles hs, frame_setHandles h hs⟩ (fun f => ?_) (fun f hf => ?_) ?_
    (fun d hd => ?_) (fun f b hb hft d hd => ?_) (fun f hf => ?_)
  · cases h with
    | fiber f' k =>
      simp only [setHandles]
      rw [fiber_modify _ hh]
      split
      · next hf => subst hf; exact hi.counts.ends f
      · exact hi.counts.ends f
    | thread t => exact hi.counts.ends f
  · exact .inl (by rwa [spawning, htasks] at hf)
  · rw [spawning, htasks]
    exact hi.places.nodup
  · rcases mem d hd with hd | ⟨f, hf, -⟩
    · exact hi.handles.latch d hd
    · exact ⟨f, hf⟩
  · rw [trying, htasks] at hft
    rcases mem d hd with hd | ⟨f', hf', hnt, hnd⟩
    · exact hi.handles.free f b hb hft d hd
    · intro heq
      rw [heq] at hf'
      have := hi.latches.own f f' b hb hf'
      subst this
      rcases hft with hft | hft
      · exact hnt hft
      · rw [hnd] at hft
        cases hft
  · rw [adopting, htasks] at hf
    rw [trying, htasks]
    exact hi.handles.adopting f hf

/-! ## 3. New fibers -/

theorem fiber_append (xs : List FiberView) (f : Nat) :
    ({ v with fibers := v.fibers ++ xs } : Census).fiber f =
      if f < v.fibers.length then v.fiber f else xs.getD (f - v.fibers.length) {} := by
  simp only [fiber, List.getD_eq_getElem?_getD]
  split
  · next hf => rw [List.getElem?_append_left hf]
  · next hf => rw [List.getElem?_append_right (by omega)]

/-- A fiber a spawn describes: with work, no stack and no handle, its tasks ending its body
once and naming no spawn in flight and no fiber to adopt. -/
structure Fresh (x : FiberView) : Prop where
  started : x.started = false
  handles : x.handles = []
  busy : x.tasks ≠ []
  ends : Task.Ends x.tasks
  spawning : x.tasks.flatMap Task.spawning = []
  adopting : x.tasks.flatMap Task.adopting = []

/-- What the tasks of a census with more fibers refer to, when theirs refer to nothing. -/
theorem refs_append {xs : List FiberView} {F : Task → List Nat} (hF : ∀ x ∈ xs, x.tasks.flatMap F = []) :
    ({ v with fibers := v.fibers ++ xs } : Census).tasks.flatMap F = v.tasks.flatMap F := by
  have hx : (xs.flatMap FiberView.tasks).flatMap F = [] := by
    rw [List.flatMap_assoc, List.flatMap_eq_nil_iff]
    exact hF
  simp only [tasks, List.flatMap_append, hx, List.append_nil]

section Describe

variable {xs : List FiberView} (hxs : ∀ x ∈ xs, Fresh x)
include hxs

theorem spawning_describe : ({ v with fibers := v.fibers ++ xs } : Census).spawning = v.spawning :=
  refs_append fun x hx => (hxs x hx).spawning

theorem trying_describe : ({ v with fibers := v.fibers ++ xs } : Census).trying = v.trying :=
  refs_append fun x hx => trying_eq_nil (hxs x hx).spawning

theorem adopting_describe : ({ v with fibers := v.fibers ++ xs } : Census).adopting = v.adopting :=
  refs_append fun x hx => (hxs x hx).adopting

theorem handles_describe : ({ v with fibers := v.fibers ++ xs } : Census).handles = v.handles := by
  have hx : xs.flatMap FiberView.handles = [] := List.flatMap_eq_nil_iff.mpr fun x hx => (hxs x hx).handles
  simp [handles, hx]

/-- A fiber past the old ones is one of those described, or none at all. -/
theorem fiber_describe_new (hf : ¬ f < v.fibers.length) :
    ({ v with fibers := v.fibers ++ xs } : Census).fiber f = {} ∨
      Fresh (({ v with fibers := v.fibers ++ xs } : Census).fiber f) := by
  rw [fiber_append, if_neg hf, List.getD_eq_getElem?_getD]
  cases hx : xs[f - v.fibers.length]? with
  | none => exact .inl rfl
  | some x => exact .inr (hxs x (List.mem_of_getElem? hx))

end Describe

/-- New fibers that a spawn describes, none of them joinable, while the run goes on: they count
as live at once. -/
theorem Inv.describe (hi : v.Inv) (hq : v.ending ≠ some .quiet) {xs : List FiberView}
    (hxs : ∀ x ∈ xs, Fresh x) (hl : ∀ x ∈ xs, x.latch = none) :
    ({ v with fibers := v.fibers ++ xs, live := v.live + xs.length } : Census).Inv := by
  set v' : Census := { v with fibers := v.fibers ++ xs, live := v.live + xs.length }
  have hold : ∀ f, f < v.fibers.length → v'.fiber f = v.fiber f := fun f hf =>
    (fiber_append (v := v) xs f).trans (if_pos hf)
  -- every fiber past the old ones is a fresh one with no exit barrier, or none at all
  have hnew : ∀ f, ¬ f < v.fibers.length →
      (v'.fiber f).latch = none ∧ (v'.fiber f).started = false ∧ Task.Ends (v'.fiber f).tasks := by
    intro f hf
    have hv : v'.fiber f = ({ v with fibers := v.fibers ++ xs } : Census).fiber f := rfl
    rcases fiber_describe_new hxs hf with h | h
    · rw [hv, h]
      exact ⟨rfl, rfl, .nil⟩
    · rw [hv]
      refine ⟨?_, h.started, h.ends⟩
      rw [fiber_append, if_neg hf, List.getD_eq_getElem?_getD]
      cases hx : xs[f - v.fibers.length]? with
      | none => rfl
      | some x => exact hl x (List.mem_of_getElem? hx)
  have hlt : ∀ f b, (v'.fiber f).latch = some b → f < v.fibers.length := fun f b hb => by
    by_contra hf
    rw [(hnew f hf).1] at hb
    cases hb
  have hsp : v'.spawning = v.spawning := spawning_describe hxs
  have htry : v'.trying = v.trying := trying_describe hxs
  have had : v'.adopting = v.adopting := adopting_describe hxs
  have hhd : v'.handles = v.handles := handles_describe hxs
  refine ⟨⟨?_, ?_, fun f => ?_⟩, ⟨fun f hf => ?_, ?_, fun f hf => ?_, fun f hf => ?_,
    fun k f hk => ?_, fun f hf => ?_, hi.places.blocks, fun b hb f hf => ?_, hi.places.timeouts,
    hi.places.sound⟩, ⟨hi.latches.barriers, fun f b hb => ?_, fun f g b hf hg => ?_, fun f b hb => ?_⟩,
    ⟨fun d hd => ?_, fun f b hb hf d hd => ?_, fun f hf => ?_⟩, fun he => absurd he hq⟩
  · have hb : xs.countP FiberView.busy = xs.length :=
      List.countP_eq_length.mpr fun x hx => by simpa [FiberView.busy] using (hxs x hx).busy
    show v.live + xs.length = (v.fibers ++ xs).countP FiberView.busy
    rw [List.countP_append, hb, hi.counts.live]
  · have hb : xs.countP (fun x => x.busy && x.started) = 0 :=
      List.countP_eq_zero.mpr fun x hx => by simp [(hxs x hx).started]
    show v.outstanding = (v.fibers ++ xs).countP (fun x => x.busy && x.started)
    rw [List.countP_append, hb, hi.counts.outstanding, Nat.add_zero]
  · by_cases hf : f < v.fibers.length
    · rw [hold f hf]
      exact hi.counts.ends f
    · exact (hnew f hf).2.2
  · rw [hsp] at hf
    rw [hold f (lt_of_busy (hi.places.spawning f hf).2)]
    exact hi.places.spawning f hf
  · rw [hsp]
    exact hi.places.nodup
  · rw [hsp] at hf
    exact hi.places.apart f hf
  · rw [hold f (lt_of_not_dropped (hi.places.placed f hf))]
    exact hi.places.placed f hf
  · have := hi.places.running k f hk
    rw [hold f (lt_of_started this)]
    exact this
  · have := hi.places.chores f hf
    rw [hold f (lt_of_started this)]
    exact this
  · have := hi.places.waiters b hb f hf
    rw [hold f (lt_of_started this)]
    exact this
  · have hf := hlt f b hb
    rw [hold f hf] at hb
    exact hi.latches.range f b hb
  · have hf' := hlt f b hf
    have hg' := hlt g b hg
    rw [hold f hf'] at hf
    rw [hold g hg'] at hg
    exact hi.latches.own f g b hf hg
  · have hf := hlt f b hb
    rw [hold f hf] at hb ⊢
    exact hi.latches.count f b hb
  · rw [hhd] at hd
    obtain ⟨f, hf⟩ := hi.handles.latch d hd
    exact ⟨f, by rw [hold f (lt_of_latch hf)]; exact hf⟩
  · rw [hhd] at hd
    rw [htry] at hf
    have hf' := hlt f b hb
    rw [hold f hf'] at hb hf
    exact hi.handles.free f b hb hf d hd
  · rw [had] at hf
    rw [htry]
    obtain ⟨ht, hd⟩ := hi.handles.adopting f hf
    exact ⟨ht, by rw [hold f (lt_of_not_dropped hd)]; exact hd⟩

/-- A joinable fiber a spawn describes, with an exit barrier of its own not yet open, while the
run goes on: it counts as live at once. -/
theorem Inv.describeJoinable (hi : v.Inv) (hq : v.ending ≠ some .quiet) {x : FiberView}
    (hx : Fresh x) (hl : x.latch = some v.latches.length) :
    ({ v with fibers := v.fibers ++ [x], latches := v.latches ++ [1], live := v.live + 1 } : Census).Inv := by
  set v' : Census := { v with fibers := v.fibers ++ [x], latches := v.latches ++ [1], live := v.live + 1 }
  have hxs : ∀ y ∈ [x], Fresh y := by simpa using hx
  have hold : ∀ f, f < v.fibers.length → v'.fiber f = v.fiber f := fun f hf =>
    (fiber_append (v := v) [x] f).trans (if_pos hf)
  have hself : v'.fiber v.fibers.length = x :=
    (fiber_append (v := v) [x] _).trans (by simp)
  have hpast : ∀ f, v.fibers.length < f → v'.fiber f = {} := fun f hf => by
    refine (fiber_append (v := v) [x] f).trans ?_
    rw [if_neg (by omega), List.getD_eq_getElem?_getD, List.getElem?_eq_none (by simp; omega)]
    rfl
  -- the new fiber owns the new barrier, every other fiber a barrier of the old census
  have hcases : ∀ f b, (v'.fiber f).latch = some b →
      (f < v.fibers.length ∧ (v.fiber f).latch = some b) ∨ (f = v.fibers.length ∧ b = v.latches.length) := by
    intro f b hb
    rcases Nat.lt_trichotomy f v.fibers.length with hf | rfl | hf
    · exact .inl ⟨hf, by rwa [hold f hf] at hb⟩
    · rw [hself, hl] at hb
      exact .inr ⟨rfl, (Option.some.inj hb).symm⟩
    · rw [hpast f hf] at hb
      cases hb
  have hsp : v'.spawning = v.spawning := spawning_describe hxs
  have htry : v'.trying = v.trying := trying_describe hxs
  have had : v'.adopting = v.adopting := adopting_describe hxs
  have hhd : v'.handles = v.handles := handles_describe hxs
  have hgetD : ∀ b, b < v.latches.length → v'.latches.getD b 0 = v.latches.getD b 0 := fun b hb => by
    simp only [v', List.getD_eq_getElem?_getD, List.getElem?_append_left hb]
  refine ⟨⟨?_, ?_, fun f => ?_⟩, ⟨fun f hf => ?_, ?_, fun f hf => ?_, fun f hf => ?_,
    fun k f hk => ?_, fun f hf => ?_, hi.places.blocks, fun b hb f hf => ?_, hi.places.timeouts,
    hi.places.sound⟩, ⟨?_, fun f b hb => ?_, fun f g b hf hg => ?_, fun f b hb => ?_⟩,
    ⟨fun d hd => ?_, fun f b hb hf d hd => ?_, fun f hf => ?_⟩, fun he => absurd he hq⟩
  · show v.live + 1 = (v.fibers ++ [x]).countP FiberView.busy
    rw [List.countP_append, hi.counts.live]
    simp [FiberView.busy, hx.busy]
  · show v.outstanding = (v.fibers ++ [x]).countP (fun x => x.busy && x.started)
    rw [List.countP_append, hi.counts.outstanding]
    simp [hx.started]
  · rcases Nat.lt_trichotomy f v.fibers.length with hf | rfl | hf
    · rw [hold f hf]
      exact hi.counts.ends f
    · rw [hself]
      exact hx.ends
    · rw [hpast f hf]
      exact .nil
  · rw [hsp] at hf
    rw [hold f (lt_of_busy (hi.places.spawning f hf).2)]
    exact hi.places.spawning f hf
  · rw [hsp]
    exact hi.places.nodup
  · rw [hsp] at hf
    exact hi.places.apart f hf
  · rw [hold f (lt_of_not_dropped (hi.places.placed f hf))]
    exact hi.places.placed f hf
  · have := hi.places.running k f hk
    rw [hold f (lt_of_started this)]
    exact this
  · have := hi.places.chores f hf
    rw [hold f (lt_of_started this)]
    exact this
  · have := hi.places.waiters b hb f hf
    rw [hold f (lt_of_started this)]
    exact this
  · show v.barriers ≤ (v.latches ++ [1]).length
    have := hi.latches.barriers
    simp only [List.length_append, List.length_singleton]
    omega
  · show v.barriers ≤ b ∧ b < (v.latches ++ [1]).length
    have := hi.latches.barriers
    simp only [List.length_append, List.length_singleton]
    rcases hcases f b hb with ⟨-, hb⟩ | ⟨-, rfl⟩
    · have := hi.latches.range f b hb
      omega
    · omega
  · rcases hcases f b hf with ⟨-, hf⟩ | ⟨hf, hb⟩ <;> rcases hcases g b hg with ⟨-, hg⟩ | ⟨hg, hb'⟩
    · exact hi.latches.own f g b hf hg
    · have := (hi.latches.range f _ hf).2
      omega
    · have := (hi.latches.range g _ hg).2
      omega
    · rw [hf, hg]
  · rcases hcases f b hb with ⟨hf, hb'⟩ | ⟨rfl, rfl⟩
    · rw [hold f hf, hgetD b (hi.latches.range f b hb').2]
      exact hi.latches.count f b hb'
    · rw [hself]
      simp [v', FiberView.returned, hx.started]
  · rw [hhd] at hd
    obtain ⟨f, hf⟩ := hi.handles.latch d hd
    exact ⟨f, by rw [hold f (lt_of_latch hf)]; exact hf⟩
  · rw [hhd] at hd
    rw [htry] at hf
    rcases hcases f b hb with ⟨hf', hb⟩ | ⟨rfl, rfl⟩
    · rw [hold f hf'] at hf
      exact hi.handles.free f b hb hf d hd
    · -- no handle of the old census names the new barrier
      obtain ⟨g, hg⟩ := hi.handles.latch d hd
      have := (hi.latches.range g _ hg).2
      omega
  · rw [had] at hf
    rw [htry]
    obtain ⟨ht, hd⟩ := hi.handles.adopting f hf
    exact ⟨ht, by rw [hold f (lt_of_not_dropped hd)]; exact hd⟩

/-! ## 4. Run queues and workers -/

theorem mem_placed_of_sched {e : Entity} (he : e ∈ (v.sched g).entities) : e.id ∈ v.placed := by
  simp only [sched, List.getD_eq_getElem?_getD] at he
  cases hg : v.scheds[g]? with
  | none =>
    rw [hg, Option.getD_none] at he
    exact absurd he List.not_mem_nil
  | some s =>
    rw [hg, Option.getD_some] at he
    exact List.mem_append_left _ (List.mem_flatMap.mpr ⟨s, List.mem_of_getElem? hg, List.mem_map_of_mem he⟩)

theorem mem_placed_of_load {e : Entity} (he : v.load k = .entering e) : e.id ∈ v.placed := by
  simp only [load, List.getD_eq_getElem?_getD] at he
  cases hk : v.loads[k]? with
  | none => simp [hk] at he
  | some l =>
    rw [hk, Option.getD_some] at he
    subst he
    exact List.mem_append_right _ (List.mem_flatMap.mpr ⟨_, List.mem_of_getElem? hk, by simp [Load.taking]⟩)

theorem sched_setSched (s : Scheduler) (g' : Nat) :
    (v.setSched g s).sched g' = if g' = g ∧ g < v.scheds.length then s else v.sched g' := by
  simp only [sched, setSched, List.getD_eq_getElem?_getD, List.getElem?_set]
  split_ifs <;> simp_all

/-- Replacing the scheduler of a group: it stays fit to run, and what it holds that the old one
did not is of fibers not in flight and not dropped. -/
theorem Inv.setSched (hi : v.Inv) {s : Scheduler} (hs : (v.sched g).Sound → s.Sound)
    (hnew : ∀ e ∈ s.entities, e ∈ (v.sched g).entities ∨
      (e.id ∉ v.spawning ∧ (v.fiber e.id).dropped = false)) :
    (v.setSched g s).Inv := by
  -- what the new census places was placed, or is one of the new entities
  have hplaced : ∀ f ∈ (v.setSched g s).placed, f ∈ v.placed ∨
      ∃ e ∈ s.entities, e.id = f ∧ e.id ∉ v.spawning ∧ (v.fiber e.id).dropped = false := by
    intro f hf
    simp only [placed, List.mem_append] at hf
    rcases hf with hf | hf
    · rcases mem_flatMap_set hf with hf | hf
      · exact .inl (List.mem_append_left _ hf)
      · obtain ⟨e, he, rfl⟩ := List.mem_map.mp hf
        rcases hnew e he with he' | he'
        · exact .inl (mem_placed_of_sched he')
        · exact .inr ⟨e, he, rfl, he'⟩
    · exact .inl (List.mem_append_right _ hf)
  refine ⟨⟨hi.counts.1, hi.counts.2, hi.counts.3⟩, ⟨hi.places.spawning, hi.places.nodup,
    fun f hf hp => ?_, fun f hf => ?_, hi.places.running, hi.places.chores, hi.places.blocks,
    hi.places.waiters, hi.places.timeouts, fun g' => ?_⟩,
    ⟨hi.latches.1, hi.latches.2, hi.latches.3, hi.latches.4⟩, ⟨hi.handles.1, hi.handles.2, hi.handles.3⟩,
    hi.quiet⟩
  · rcases hplaced f hp with hp | ⟨e, -, rfl, he, -⟩
    · exact hi.places.apart f hf hp
    · exact he hf
  · rcases hplaced f hf with hp | ⟨e, -, rfl, -, he⟩
    · exact hi.places.placed f hp
    · exact he
  · rw [sched_setSched]
    split_ifs with hg
    · exact hs (hg.1 ▸ hi.places.sound g')
    · exact hi.places.sound g'

/-- Draws from run queues keep the invariant, and what they hand out is of a fiber not in
flight and not dropped. -/
theorem Inv.draws {v₁ : Census} {o : Option Entity} (hi : v.Inv) (hd : v.Draws v₁ o) :
    v₁.Inv ∧ ∀ e ∈ o, e.id ∉ v₁.spawning ∧ (v₁.fiber e.id).dropped = false := by
  induction hd with
  | stay v => exact ⟨hi, fun e he => by cases he⟩
  | skip hd _ ih =>
    obtain ⟨g, s', rfl, hp⟩ := hd
    refine ih (hi.setSched (fun hs => (hp hs).2) fun e he => .inl ?_)
    exact (hp (hi.places.sound g)).1.symm.subset (by simpa using he)
  | found hd =>
    obtain ⟨g, s', rfl, hp⟩ := hd
    rename_i e
    have hmem : e.id ∈ _ := mem_placed_of_sched ((hp (hi.places.sound g)).1.symm.subset (by simp))
    refine ⟨hi.setSched (fun hs => (hp hs).2) fun e' he => .inl ?_, fun e' he' => ?_⟩
    · exact (hp (hi.places.sound g)).1.symm.subset (by simp [he])
    · cases he'
      exact ⟨fun hs => hi.places.apart _ hs hmem, hi.places.placed _ hmem⟩

/-- What a worker may hold: an entity of a fiber not in flight and not dropped, a fiber with a
stack, or nothing. -/
def LoadOk (v : Census) : Load → Prop
  | .idle => True
  | .entering e => e.id ∉ v.spawning ∧ (v.fiber e.id).dropped = false
  | .running f => (v.fiber f).started = true

theorem load_setLoad (l : Load) (k' : Nat) :
    (v.setLoad k l).load k' = if k' = k ∧ k < v.loads.length then l else v.load k' := by
  simp only [load, setLoad, List.getD_eq_getElem?_getD, List.getElem?_set]
  split_ifs <;> simp_all

/-- A worker changes what it holds. -/
theorem Inv.setLoad (hi : v.Inv) {l : Load} (hl : v.LoadOk l) : (v.setLoad k l).Inv := by
  have hplaced : ∀ f ∈ (v.setLoad k l).placed, f ∈ v.placed ∨ f ∈ l.taking := by
    intro f hf
    simp only [placed, List.mem_append] at hf
    rcases hf with hf | hf
    · exact .inl (List.mem_append_left _ hf)
    · rcases mem_flatMap_set hf with hf | hf
      · exact .inl (List.mem_append_right _ hf)
      · exact .inr hf
  refine ⟨⟨hi.counts.1, hi.counts.2, hi.counts.3⟩, ⟨hi.places.spawning, hi.places.nodup,
    fun f hf hp => ?_, fun f hf => ?_, fun k' f hk => ?_, hi.places.chores, hi.places.blocks,
    hi.places.waiters, hi.places.timeouts, hi.places.sound⟩,
    ⟨hi.latches.1, hi.latches.2, hi.latches.3, hi.latches.4⟩, ⟨hi.handles.1, hi.handles.2, hi.handles.3⟩,
    hi.quiet⟩
  · rcases hplaced f hp with hp | hp
    · exact hi.places.apart f hf hp
    · cases l with
      | entering e =>
        simp only [Load.taking, List.mem_singleton] at hp
        subst hp
        exact hl.1 hf
      | _ => simp [Load.taking] at hp
  · rcases hplaced f hf with hp | hp
    · exact hi.places.placed f hp
    · cases l with
      | entering e =>
        simp only [Load.taking, List.mem_singleton] at hp
        subst hp
        exact hl.2
      | _ => simp [Load.taking] at hp
  · rw [load_setLoad] at hk
    split_ifs at hk
    · subst hk
      exact hl
    · exact hi.places.running k' f hk

/-- A worker takes what draws from run queues handed out, or goes on with nothing. -/
theorem Inv.draw {v₁ : Census} {o : Option Entity} (hi : v.Inv) (hd : v.Draws v₁ o) (k : Nat) :
    (v₁.setLoad k (Load.ofTaken o)).Inv := by
  obtain ⟨hi₁, ho⟩ := hi.draws hd
  refine hi₁.setLoad ?_
  cases o with
  | none => trivial
  | some e => exact ho e rfl

/-! ## 5. Statuses -/

/-- Counting the fibers after one of them changed, from the old count. -/
theorem countP_modify {p : FiberView → Bool} (F : FiberView → FiberView) (hf : f < v.fibers.length)
    {a b : Bool} (ha : p (v.fiber f) = a) (hb : p (F (v.fiber f)) = b) :
    (v.fibers.modify f F).countP p + (if a then 1 else 0) = v.fibers.countP p + (if b then 1 else 0) := by
  rw [fiber_of_lt hf] at ha hb
  subst ha hb
  have key : ∀ (l : List FiberView) (i : Nat) (hi : i < l.length),
      (l.modify i F).countP p + (if p l[i] then 1 else 0) = l.countP p + (if p (F l[i]) then 1 else 0) := by
    intro l
    induction l with
    | nil => intro i hi; simp at hi
    | cons x l ih =>
      intro i hi
      cases i with
      | zero => simp only [List.modify_zero_cons, List.countP_cons, List.getElem_cons_zero]; omega
      | succ i =>
        have := ih i (by simpa using hi)
        simp only [List.modify_succ_cons, List.countP_cons, List.getElem_cons_succ]
        omega
  exact key v.fibers f hf

/-- The tasks of a census after a fiber dropped tasks that name nothing, or all its tasks. -/
theorem refs_dropTasks {F : Task → List Nat} (hf : f < v.fibers.length) {x : Nat}
    (hx : x ∈ ({ v with fibers := v.fibers.modify f (fun y => { y with tasks := [] }) } : Census).tasks.flatMap F) :
    x ∈ v.tasks.flatMap F := by
  have := (refs_setTasks_perm F [] (h := .fiber f 0) hf).subset (List.mem_append_left _ hx)
  simpa using this

theorem spawning_dropTasks (hf : f < v.fibers.length) :
    (({ v with fibers := v.fibers.modify f (fun y => { y with tasks := [] }) } : Census).spawning).Subperm
      v.spawning := by
  have hp := refs_setTasks_perm Task.spawning [] (h := .fiber f 0) hf
  simp only [List.flatMap_nil, List.nil_append] at hp
  exact (List.sublist_append_left _ _).subperm.trans hp.subperm

/-- A joinable spawn gives up: the fiber never ran, nothing names it, no handle names its exit
barrier, and it no longer counts as live. -/
theorem Inv.giveUp (hi : v.Inv) (hst : (v.fiber f).started = false) (hb : (v.fiber f).busy = true)
    (hsp : f ∉ v.spawning) (hp : f ∉ v.placed) (had : f ∉ v.adopting)
    (hfree : ∀ b, (v.fiber f).latch = some b → ∀ d ∈ v.handles, d.2 ≠ b) :
    ({ v with fibers := v.fibers.modify f (fun y => { y with tasks := [] }), live := v.live - 1 } : Census).Inv := by
  have hf : f < v.fibers.length := lt_of_busy hb
  set v' : Census := { v with fibers := v.fibers.modify f (fun y => { y with tasks := [] }), live := v.live - 1 }
  have hfib : ∀ g, v'.fiber g = if g = f then { v.fiber f with tasks := [] } else v.fiber g :=
    fiber_modify (v := v) _ hf
  -- only the fiber that gave up changes, and only its work
  have hother : ∀ g, g ≠ f → v'.fiber g = v.fiber g := fun g hg => by rw [hfib, if_neg hg]
  have hself : v'.fiber f = { v.fiber f with tasks := [] } := by rw [hfib, if_pos rfl]
  have hstarted : ∀ g, (v'.fiber g).started = (v.fiber g).started := fun g => by
    rw [hfib]; split
    · next hg => subst hg; rfl
    · rfl
  have hlatch : ∀ g, (v'.fiber g).latch = (v.fiber g).latch := fun g => by
    rw [hfib]; split
    · next hg => subst hg; rfl
    · rfl
  have hdrop : ∀ g, (v'.fiber g).dropped = false → (v.fiber g).dropped = false := fun g hg => by
    by_cases hgf : g = f
    · subst hgf; simp [FiberView.dropped, hst, hself] at hg
    · rwa [hother g hgf] at hg
  have hsub := spawning_dropTasks (v := v) hf
  have htry : ∀ g ∈ v'.trying, g ∈ v.trying := fun g hg => refs_dropTasks hf hg
  have hadopt : ∀ g ∈ v'.adopting, g ∈ v.adopting := fun g hg => refs_dropTasks hf hg
  have hne : ∀ g ∈ v.spawning, g ≠ f := fun g hg hgf => hsp (hgf ▸ hg)
  refine ⟨⟨?_, ?_, fun g => ?_⟩, ⟨fun g hg => ?_, ?_, fun g hg hg' => ?_, fun g hg => ?_,
    fun k g hk => ?_, fun g hg => ?_, hi.places.blocks, fun b hb g hg => ?_, hi.places.timeouts,
    hi.places.sound⟩, ⟨hi.latches.barriers, fun g b hg => ?_, fun g g' b hg hg' => ?_, fun g b hg => ?_⟩,
    ⟨fun d hd => ?_, fun g b hg hgt d hd => ?_, fun g hg => ?_⟩, fun he => ?_⟩
  · have h := countP_modify (p := FiberView.busy) (fun y => { y with tasks := [] }) hf hb
      (b := false) rfl
    simp only [if_true, Bool.false_eq_true, if_false] at h
    show v.live - 1 = (v.fibers.modify f _).countP FiberView.busy
    rw [hi.counts.live]
    omega
  · have h := countP_modify (p := fun x => x.busy && x.started) (fun y => { y with tasks := [] }) hf
      (a := false) (b := false) (by simp [hst]) (by simp [hst])
    simp only [Bool.false_eq_true, if_false] at h
    show v.outstanding = (v.fibers.modify f _).countP (fun x => x.busy && x.started)
    rw [hi.counts.outstanding]
    omega
  · by_cases hgf : g = f
    · subst hgf; rw [hself]; exact .nil
    · rw [hother g hgf]; exact hi.counts.ends g
  · have hg' := hsub.subset hg
    rw [hother g (hne g hg')]
    exact hi.places.spawning g hg'
  · obtain ⟨l, hl, hs⟩ := hsub
    exact hl.nodup_iff.mp (hi.places.nodup.sublist hs)
  · exact hi.places.apart g (hsub.subset hg) hg'
  · rw [hother g (fun hgf => hp (hgf ▸ hg))]
    exact hi.places.placed g hg
  · rw [hstarted]; exact hi.places.running k g hk
  · rw [hstarted]; exact hi.places.chores g hg
  · rw [hstarted]; exact hi.places.waiters b hb g hg
  · rw [hlatch] at hg; exact hi.latches.range g b hg
  · rw [hlatch] at hg hg'; exact hi.latches.own g g' b hg hg'
  · rw [hlatch] at hg
    have hr : (v'.fiber g).returned = (v.fiber g).returned := by
      rw [FiberView.returned_eq, FiberView.returned_eq, hstarted]
      by_cases hgf : g = f
      · subst hgf; simp [hst]
      · rw [hother g hgf]
    rw [hr]
    exact hi.latches.count g b hg
  · obtain ⟨g, hg⟩ := hi.handles.latch d (by rwa [show v'.handles = v.handles from handles_setTasks (h := .fiber f 0) []] at hd)
    exact ⟨g, by rw [hlatch]; exact hg⟩
  · rw [show v'.handles = v.handles from handles_setTasks (h := .fiber f 0) []] at hd
    rw [hlatch] at hg
    by_cases hgf : g = f
    · subst hgf
      exact hfree b hg d hd
    · rw [hother g hgf] at hgt
      exact hi.handles.free g b hg (hgt.imp (htry g) id) d hd
  · obtain ⟨hnt, hnd⟩ := hi.handles.adopting g (hadopt g hg)
    refine ⟨fun ht => hnt (htry g ht), ?_⟩
    rw [hother g (fun hgf => had (hgf ▸ hadopt g hg))]
    exact hnd
  · show v.live - 1 = 0
    rw [hi.quiet he]

/-- A fiber gets its stack: it had work and none, and no spawn of it is in flight; the stack
counts as outstanding. -/
theorem Inv.instantiate (hi : v.Inv) (hst : (v.fiber f).started = false) (hb : (v.fiber f).busy = true)
    (hsp : f ∉ v.spawning) :
    ({ v with
        fibers := v.fibers.modify f (fun y => { y with started := true })
        outstanding := v.outstanding + 1 } : Census).Inv := by
  have hf : f < v.fibers.length := lt_of_busy hb
  set v' : Census :=
    { v with
      fibers := v.fibers.modify f (fun y => { y with started := true })
      outstanding := v.outstanding + 1 }
  have hfib : ∀ g, v'.fiber g = if g = f then { v.fiber f with started := true } else v.fiber g :=
    fiber_modify (v := v) _ hf
  have hother : ∀ g, g ≠ f → v'.fiber g = v.fiber g := fun g hg => by rw [hfib, if_neg hg]
  have hself : v'.fiber f = { v.fiber f with started := true } := by rw [hfib, if_pos rfl]
  -- the fiber keeps its work, its exit barrier and its handles; only its stack is new
  have hsame : ∀ g, (v'.fiber g).tasks = (v.fiber g).tasks ∧ (v'.fiber g).latch = (v.fiber g).latch ∧
      (v'.fiber g).busy = (v.fiber g).busy := fun g => by
    by_cases hg : g = f
    · subst hg; rw [hself]; exact ⟨rfl, rfl, rfl⟩
    · rw [hother g hg]; exact ⟨rfl, rfl, rfl⟩
  have hdrop : ∀ g, (v'.fiber g).dropped = (v.fiber g).dropped := fun g => by
    by_cases hg : g = f
    · subst hg; rw [hself]; simp [FiberView.dropped_eq, FiberView.busy] at hb ⊢; simp [hb]
    · rw [hother g hg]
  have hret : ∀ g, (v'.fiber g).returned = (v.fiber g).returned := fun g => by
    by_cases hg : g = f
    · subst hg; rw [hself]; simp [FiberView.returned_eq, FiberView.busy] at hb ⊢; simp [hb, hst]
    · rw [hother g hg]
  have hstarted : ∀ g, (v.fiber g).started = true → (v'.fiber g).started = true := fun g hg => by
    by_cases hgf : g = f
    · subst hgf; rw [hself]
    · rwa [hother g hgf]
  have htasks : v'.tasks = v.tasks := by
    simp only [v', tasks]
    congr 1
    exact flatMap_modify_of_eq fun _ => rfl
  have hhandles : v'.handles = v.handles := by
    simp only [v', Census.handles]
    congr 1
    exact flatMap_modify_of_eq fun _ => rfl
  have hsp' : v'.spawning = v.spawning := by rw [spawning, htasks]; rfl
  have htry : v'.trying = v.trying := by rw [trying, htasks]; rfl
  have had : v'.adopting = v.adopting := by rw [adopting, htasks]; rfl
  refine ⟨⟨?_, ?_, fun g => (hsame g).1 ▸ hi.counts.ends g⟩, ⟨fun g hg => ?_, hsp' ▸ hi.places.nodup,
    fun g hg => hi.places.apart g (hsp' ▸ hg), fun g hg => (hdrop g) ▸ hi.places.placed g hg,
    fun k g hk => hstarted g (hi.places.running k g hk), fun g hg => hstarted g (hi.places.chores g hg),
    hi.places.blocks, fun b hb g hg => hstarted g (hi.places.waiters b hb g hg), hi.places.timeouts,
    hi.places.sound⟩, ⟨hi.latches.barriers, fun g b hg => hi.latches.range g b ((hsame g).2.1 ▸ hg),
    fun g g' b hg hg' => hi.latches.own g g' b ((hsame g).2.1 ▸ hg) ((hsame g').2.1 ▸ hg'),
    fun g b hg => (hret g) ▸ hi.latches.count g b ((hsame g).2.1 ▸ hg)⟩, ⟨fun d hd => ?_,
    fun g b hg hgt d hd => ?_, fun g hg => ?_⟩, hi.quiet⟩
  · have h := countP_modify (p := FiberView.busy) (fun y => { y with started := true }) hf hb hb
    show v.live = (v.fibers.modify f _).countP FiberView.busy
    rw [hi.counts.live]
    omega
  · have h := countP_modify (p := fun x => x.busy && x.started) (fun y => { y with started := true }) hf
      (a := false) (b := true) (by simp [hst]) (by simp only [Bool.and_true]; exact hb)
    simp only [Bool.false_eq_true, if_false, if_true] at h
    show v.outstanding + 1 = (v.fibers.modify f _).countP (fun x => x.busy && x.started)
    rw [hi.counts.outstanding]
    omega
  · rw [hsp'] at hg
    have := hi.places.spawning g hg
    rw [hother g (fun hgf => hsp (hgf ▸ hg))]
    exact this
  · rw [hhandles] at hd
    obtain ⟨g, hg⟩ := hi.handles.latch d hd
    exact ⟨g, (hsame g).2.1 ▸ hg⟩
  · rw [hhandles] at hd
    rw [htry, hdrop] at hgt
    exact hi.handles.free g b ((hsame g).2.1 ▸ hg) hgt d hd
  · rw [had] at hg
    rw [htry, hdrop]
    exact hi.handles.adopting g hg

/-- A fiber returns: its last task was the end of its body; it no longer counts as live, its
stack no longer as outstanding, and its exit barrier, if it has one, opens. -/
theorem Inv.exit (hi : v.Inv) (ht : (v.fiber f).tasks = [.exit]) (hst : (v.fiber f).started = true)
    {ls : List Nat} (hls : ∀ b, (v.fiber f).latch = some b → ls = v.latches.set b 0)
    (hnone : (v.fiber f).latch = none → ls = v.latches) :
    ({ v with
        fibers := v.fibers.modify f (fun y => { y with tasks := [] })
        latches := ls
        live := v.live - 1
        outstanding := v.outstanding - 1 } : Census).Inv := by
  have hb : (v.fiber f).busy = true := by simp [FiberView.busy, ht]
  have hf : f < v.fibers.length := lt_of_busy hb
  set v' : Census :=
    { v with
      fibers := v.fibers.modify f (fun y => { y with tasks := [] })
      latches := ls
      live := v.live - 1
      outstanding := v.outstanding - 1 }
  have hfib : ∀ g, v'.fiber g = if g = f then { v.fiber f with tasks := [] } else v.fiber g :=
    fiber_modify (v := v) _ hf
  have hother : ∀ g, g ≠ f → v'.fiber g = v.fiber g := fun g hg => by rw [hfib, if_neg hg]
  have hself : v'.fiber f = { v.fiber f with tasks := [] } := by rw [hfib, if_pos rfl]
  have hstarted : ∀ g, (v'.fiber g).started = (v.fiber g).started := fun g => by
    rw [hfib]; split
    · next hg => subst hg; rfl
    · rfl
  have hlatch : ∀ g, (v'.fiber g).latch = (v.fiber g).latch := fun g => by
    rw [hfib]; split
    · next hg => subst hg; rfl
    · rfl
  -- the fiber that returned has a stack, so it neither was in flight nor is dropped
  have hsp : f ∉ v.spawning := fun h => by
    rw [(hi.places.spawning f h).1] at hst
    cases hst
  have hdrop : ∀ g, (v'.fiber g).dropped = (v.fiber g).dropped := fun g => by
    by_cases hgf : g = f
    · subst hgf; rw [hself]; simp [FiberView.dropped, hst]
    · rw [hother g hgf]
  -- the barriers keep their number, and only the one of the fiber that returned changes
  have hlen : ls.length = v.latches.length := by
    cases hl : (v.fiber f).latch with
    | none => rw [hnone hl]
    | some b => rw [hls b hl, List.length_set]
  have hcount : ∀ g b, g ≠ f → (v.fiber g).latch = some b → ls.getD b 0 = v.latches.getD b 0 := by
    intro g b hgf hg
    cases hl : (v.fiber f).latch with
    | none => rw [hnone hl]
    | some b' =>
      have hne : b' ≠ b := fun hbb => hgf (hi.latches.own g f b hg (hbb ▸ hl))
      rw [hls b' hl, List.getD_eq_getElem?_getD, List.getD_eq_getElem?_getD,
        List.getElem?_set_ne hne]
  have hsub := spawning_dropTasks (v := v) hf
  have htry : ∀ g ∈ v'.trying, g ∈ v.trying := fun g hg => refs_dropTasks hf hg
  have hadopt : ∀ g ∈ v'.adopting, g ∈ v.adopting := fun g hg => refs_dropTasks hf hg
  have hne : ∀ g ∈ v.spawning, g ≠ f := fun g hg hgf => hsp (hgf ▸ hg)
  have hhd : v'.handles = v.handles := handles_setTasks (h := .fiber f 0) []
  refine ⟨⟨?_, ?_, fun g => ?_⟩, ⟨fun g hg => ?_, ?_, fun g hg hg' => ?_, fun g hg => ?_,
    fun k g hk => ?_, fun g hg => ?_, hi.places.blocks, fun b hb g hg => ?_, hi.places.timeouts,
    hi.places.sound⟩, ⟨?_, fun g b hg => ?_, fun g g' b hg hg' => ?_, fun g b hg => ?_⟩,
    ⟨fun d hd => ?_, fun g b hg hgt d hd => ?_, fun g hg => ?_⟩, fun he => ?_⟩
  · have h := countP_modify (p := FiberView.busy) (fun y => { y with tasks := [] }) hf hb
      (b := false) rfl
    simp only [if_true, Bool.false_eq_true, if_false] at h
    show v.live - 1 = (v.fibers.modify f _).countP FiberView.busy
    rw [hi.counts.live]
    omega
  · have h := countP_modify (p := fun x => x.busy && x.started) (fun y => { y with tasks := [] }) hf
      (a := true) (b := false) (by simp only [hst, Bool.and_true]; exact hb) rfl
    simp only [if_true, Bool.false_eq_true, if_false] at h
    show v.outstanding - 1 = (v.fibers.modify f _).countP (fun x => x.busy && x.started)
    rw [hi.counts.outstanding]
    omega
  · by_cases hgf : g = f
    · subst hgf; rw [hself]; exact .nil
    · rw [hother g hgf]; exact hi.counts.ends g
  · have hg' := hsub.subset hg
    rw [hother g (hne g hg')]
    exact hi.places.spawning g hg'
  · obtain ⟨l, hl, hs⟩ := hsub
    exact hl.nodup_iff.mp (hi.places.nodup.sublist hs)
  · exact hi.places.apart g (hsub.subset hg) hg'
  · rw [hdrop]; exact hi.places.placed g hg
  · rw [hstarted]; exact hi.places.running k g hk
  · rw [hstarted]; exact hi.places.chores g hg
  · rw [hstarted]; exact hi.places.waiters b hb g hg
  · show v.barriers ≤ ls.length
    rw [hlen]; exact hi.latches.barriers
  · rw [hlatch] at hg
    show v.barriers ≤ b ∧ b < ls.length
    rw [hlen]; exact hi.latches.range g b hg
  · rw [hlatch] at hg hg'; exact hi.latches.own g g' b hg hg'
  · rw [hlatch] at hg
    show ls.getD b 0 = _
    by_cases hgf : g = f
    · subst hgf
      -- the barrier of the fiber that returned is open, and the fiber has returned
      rw [hself, hls b hg, List.getD_eq_getElem?_getD, List.getElem?_set_self (hi.latches.range g b hg).2]
      simp [FiberView.returned, hst]
    · rw [hcount g b hgf hg, hother g hgf]
      exact hi.latches.count g b hg
  · rw [hhd] at hd
    obtain ⟨g, hg⟩ := hi.handles.latch d hd
    exact ⟨g, by rw [hlatch]; exact hg⟩
  · rw [hhd] at hd
    rw [hlatch] at hg
    rw [hdrop] at hgt
    exact hi.handles.free g b hg (hgt.imp (htry g) id) d hd
  · obtain ⟨hnt, hnd⟩ := hi.handles.adopting g (hadopt g hg)
    exact ⟨fun ht => hnt (htry g ht), by rw [hdrop]; exact hnd⟩
  · show v.live - 1 = 0
    rw [hi.quiet he]

/-! ## 6. Waits, chores, barriers, timeouts and the end of a run -/

/-- Waitables change: the blocks they hold were held, or are among `extra`, blocks that exist
and whose waiters, if fibers, have a stack. -/
theorem Inv.rewaited (hi : v.Inv) {extra : List Nat} (hr : v.Rewaited v' extra)
    (hx : ∀ b ∈ extra, b < v.waiters.length ∧ ∀ f, v.waiter b = .fiber f → (v.fiber f).started = true) :
    v'.Inv := by
  obtain ⟨e, hb⟩ := hr
  rw [e] at hb ⊢
  refine ⟨⟨hi.counts.1, hi.counts.2, hi.counts.3⟩, ⟨hi.places.spawning, hi.places.nodup,
    hi.places.apart, hi.places.placed, hi.places.running, hi.places.chores, fun b hb' => ?_,
    fun b hb' f hf => ?_, hi.places.timeouts, hi.places.sound⟩,
    ⟨hi.latches.1, hi.latches.2, hi.latches.3, hi.latches.4⟩, ⟨hi.handles.1, hi.handles.2, hi.handles.3⟩,
    hi.quiet⟩
  · rcases hb b hb' with hb' | hb'
    · exact hi.places.blocks b hb'
    · exact (hx b hb').1
  · rcases hb b hb' with hb' | hb'
    · exact hi.places.waiters b hb' f hf
    · exact (hx b hb').2 f hf

/-- A new block, of a waiter that is a plain thread or a fiber with a stack. -/
theorem Inv.addWaiter (hi : v.Inv) {x : Waiter} (hx : ∀ f, x = .fiber f → (v.fiber f).started = true) :
    ({ v with waiters := v.waiters ++ [x] } : Census).Inv ∧
      ∀ f, ({ v with waiters := v.waiters ++ [x] } : Census).waiter v.waiters.length = .fiber f →
        (v.fiber f).started = true := by
  have hold : ∀ b, b < v.waiters.length →
      ({ v with waiters := v.waiters ++ [x] } : Census).waiter b = v.waiter b := fun b hb => by
    simp only [waiter, List.getD_eq_getElem?_getD, List.getElem?_append_left hb]
  refine ⟨⟨⟨hi.counts.1, hi.counts.2, hi.counts.3⟩, ⟨hi.places.spawning, hi.places.nodup,
    hi.places.apart, hi.places.placed, hi.places.running, hi.places.chores, fun b hb => ?_,
    fun b hb f hf => ?_, hi.places.timeouts, hi.places.sound⟩,
    ⟨hi.latches.1, hi.latches.2, hi.latches.3, hi.latches.4⟩, ⟨hi.handles.1, hi.handles.2, hi.handles.3⟩,
    hi.quiet⟩, fun f hf => hx f ?_⟩
  · have := hi.places.blocks b hb
    simp only [List.length_append, List.length_singleton]
    omega
  · rw [hold b (hi.places.blocks b hb)] at hf
    exact hi.places.waiters b hb f hf
  · simpa [waiter] using hf

/-- Queueing a new block of a waiter that is a plain thread or a fiber with a stack. -/
theorem Inv.enqueue (hi : v.Inv) {x : Waiter} (hx : ∀ f, x = .fiber f → (v.fiber f).started = true)
    (hr : ({ v with waiters := v.waiters ++ [x] } : Census).Rewaited v' [v.waiters.length]) : v'.Inv := by
  obtain ⟨hi₁, hx₁⟩ := hi.addWaiter hx
  refine hi₁.rewaited hr fun b hb => ?_
  rw [List.mem_singleton] at hb
  subst hb
  exact ⟨by simp, hx₁⟩

theorem mem_choreFibers_setChores {a : Actor} {cs : List Chore} {x : Nat}
    (hx : x ∈ (v.setChores a cs).choreFibers) : x ∈ cs.flatMap Chore.fibers ∨ x ∈ v.choreFibers := by
  have key : ∀ {l : List (List Chore)} {i : Nat}, x ∈ (l.set i cs).flatten.flatMap Chore.fibers →
      x ∈ cs.flatMap Chore.fibers ∨ x ∈ l.flatten.flatMap Chore.fibers := fun {l i} h => by
    rw [← List.flatMap_id', List.flatMap_assoc] at h ⊢
    rcases mem_flatMap_set h with h | h
    · exact .inr h
    · exact .inl h
  cases a <;> simp only [setChores, choreFibers, List.flatMap_append, List.mem_append] at hx ⊢
  · rcases hx with (hx | hx) | hx
    · rcases key hx with hx | hx
      · exact .inl hx
      · exact .inr (.inl (.inl hx))
    · exact .inr (.inl (.inr hx))
    · exact .inr (.inr hx)
  · rcases hx with (hx | hx) | hx
    · exact .inr (.inl (.inl hx))
    · rcases key hx with hx | hx
      · exact .inl hx
      · exact .inr (.inl (.inr hx))
    · exact .inr (.inr hx)
  · rcases hx with (hx | hx) | hx
    · exact .inr (.inl (.inl hx))
    · exact .inr (.inl (.inr hx))
    · rcases key hx with hx | hx
      · exact .inl hx
      · exact .inr (.inr hx)

theorem mem_choreFibers_of_choresOf {a : Actor} {x : Nat}
    (hx : x ∈ (v.choresOf a).flatMap Chore.fibers) : x ∈ v.choreFibers := by
  obtain ⟨c, hc, hx⟩ := List.mem_flatMap.mp hx
  have key : ∀ (l : List (List Chore)) (i : Nat), c ∈ l.getD i [] → c ∈ l.flatten := fun l i h => by
    rw [List.getD_eq_getElem?_getD] at h
    cases hi : l[i]? with
    | none => simp [hi] at h
    | some cs => rw [hi, Option.getD_some] at h; exact List.mem_flatten.mpr ⟨cs, List.mem_of_getElem? hi, h⟩
  refine List.mem_flatMap.mpr ⟨c, ?_, hx⟩
  cases a <;> simp only [choresOf] at hc <;> simp only [List.mem_append]
  · exact .inl (.inl (key _ _ hc))
  · exact .inl (.inr (key _ _ hc))
  · exact .inr (key _ _ hc)

/-- An actor's chores change: the fibers they make ready have stacks. -/
theorem Inv.setChores (hi : v.Inv) {a : Actor} {cs : List Chore}
    (hcs : ∀ f ∈ cs.flatMap Chore.fibers, (v.fiber f).started = true) : (v.setChores a cs).Inv := by
  have e : v.setChores a cs =
      { v with
        workerChores := (v.setChores a cs).workerChores
        threadChores := (v.setChores a cs).threadChores
        timerChores := (v.setChores a cs).timerChores } := by
    cases a <;> rfl
  rw [e]
  refine ⟨⟨hi.counts.1, hi.counts.2, hi.counts.3⟩, ⟨hi.places.spawning, hi.places.nodup,
    hi.places.apart, hi.places.placed, hi.places.running, fun f hf => ?_, hi.places.blocks,
    hi.places.waiters, hi.places.timeouts, hi.places.sound⟩,
    ⟨hi.latches.1, hi.latches.2, hi.latches.3, hi.latches.4⟩, ⟨hi.handles.1, hi.handles.2, hi.handles.3⟩,
    hi.quiet⟩
  have hf' : f ∈ (v.setChores a cs).choreFibers := by rw [e]; exact hf
  rcases mem_choreFibers_setChores hf' with hf | hf
  · exact hcs f hf
  · exact hi.places.chores f hf

/-- Chores that wake the waiters of blocks held make ready only fibers with stacks. -/
theorem Wakes.started (hi : v.Inv) {cs : List Chore} (hw : v.Wakes cs) :
    ∀ f ∈ cs.flatMap Chore.fibers, (v.fiber f).started = true := by
  intro f hf
  obtain ⟨c, hc, hf⟩ := List.mem_flatMap.mp hf
  obtain ⟨b, hb, rfl⟩ := hw c hc
  cases hw' : v.waiter b with
  | fiber g =>
    rw [hw'] at hf
    simp only [Chore.fibers, List.mem_singleton] at hf
    subst hf
    exact hi.places.waiters b hb _ hw'
  | thread t => simp [hw', Chore.fibers] at hf

/-- A scenario barrier changes its count: no fiber's exit barrier is among them. -/
theorem Inv.setBarrier (hi : v.Inv) {b n : Nat} (hb : b < v.barriers) :
    ({ v with latches := v.latches.set b n } : Census).Inv := by
  refine ⟨⟨hi.counts.1, hi.counts.2, hi.counts.3⟩, ⟨hi.places.spawning, hi.places.nodup,
    hi.places.apart, hi.places.placed, hi.places.running, hi.places.chores, hi.places.blocks,
    hi.places.waiters, hi.places.timeouts, hi.places.sound⟩, ⟨?_, fun f b' hf => ?_,
    hi.latches.own, fun f b' hf => ?_⟩, ⟨hi.handles.1, hi.handles.2, hi.handles.3⟩, hi.quiet⟩
  · simpa using hi.latches.barriers
  · simpa using hi.latches.range f b' hf
  · have hne : b ≠ b' := by have := (hi.latches.range f b' hf).1; omega
    show (v.latches.set b n).getD b' 0 = _
    rw [List.getD_eq_getElem?_getD, List.getElem?_set_ne hne, ← List.getD_eq_getElem?_getD]
    exact hi.latches.count f b' hf

/-- A timeout record for a block that exists and whose waiter, if a fiber, has a stack. -/
theorem Inv.addTimeout (hi : v.Inv) {b : Nat} (hb : b < v.waiters.length)
    (hw : ∀ f, v.waiter b = .fiber f → (v.fiber f).started = true) :
    ({ v with blockRefs := v.blockRefs ++ [b], timeouts := v.timeouts + 1 } : Census).Inv := by
  refine ⟨⟨hi.counts.1, hi.counts.2, hi.counts.3⟩, ⟨hi.places.spawning, hi.places.nodup,
    hi.places.apart, hi.places.placed, hi.places.running, hi.places.chores, fun b' hb' => ?_,
    fun b' hb' f hf => ?_, fun r hr => Nat.lt_succ_of_lt (hi.places.timeouts r hr), hi.places.sound⟩,
    ⟨hi.latches.1, hi.latches.2, hi.latches.3, hi.latches.4⟩, ⟨hi.handles.1, hi.handles.2, hi.handles.3⟩,
    hi.quiet⟩
  · rcases List.mem_append.mp hb' with hb' | hb'
    · exact hi.places.blocks b' hb'
    · rw [List.mem_singleton.mp hb']; exact hb
  · rcases List.mem_append.mp hb' with hb' | hb'
    · exact hi.places.waiters b' hb' f hf
    · rw [List.mem_singleton.mp hb'] at hf; exact hw f hf

/-- A timer armed with the timeout record of this number, which exists. -/
theorem Inv.addTimeoutRef (hi : v.Inv) {rs : List Nat} (hr : ∀ r ∈ rs, r < v.timeouts) :
    ({ v with timeoutRefs := v.timeoutRefs ++ rs } : Census).Inv := by
  refine ⟨⟨hi.counts.1, hi.counts.2, hi.counts.3⟩, ⟨hi.places.spawning, hi.places.nodup,
    hi.places.apart, hi.places.placed, hi.places.running, hi.places.chores, hi.places.blocks,
    hi.places.waiters, fun r hr' => ?_, hi.places.sound⟩,
    ⟨hi.latches.1, hi.latches.2, hi.latches.3, hi.latches.4⟩, ⟨hi.handles.1, hi.handles.2, hi.handles.3⟩,
    hi.quiet⟩
  rcases List.mem_append.mp hr' with hr' | hr'
  · exact hi.places.timeouts r hr'
  · exact hr r hr'

/-- The run ends: quietly only with no fiber live. -/
theorem Inv.setEnding (hi : v.Inv) {e : Option Ending} (he : e = some .quiet → v.live = 0) :
    ({ v with ending := e } : Census).Inv :=
  ⟨⟨hi.counts.1, hi.counts.2, hi.counts.3⟩, ⟨hi.places.spawning, hi.places.nodup,
    hi.places.apart, hi.places.placed, hi.places.running, hi.places.chores, hi.places.blocks,
    hi.places.waiters, hi.places.timeouts, hi.places.sound⟩,
    ⟨hi.latches.1, hi.latches.2, hi.latches.3, hi.latches.4⟩, ⟨hi.handles.1, hi.handles.2, hi.handles.3⟩, he⟩

end Census

end Fibers
