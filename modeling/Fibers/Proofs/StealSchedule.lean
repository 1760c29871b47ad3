import Fibers.World.Queue
import Mathlib.Data.List.Perm.Basic
/-!
# The foreign-steal schedule

A worker steals from the groups of its steal schedule (`Fibers.Sched.Victim`): every attempt is
one tick, and a group registered with ratio `n` is tried every `n`-th tick. The results here
hold for every order in which the heap hands out equally due victims and for every answer of
the groups, that is for the relations `Round`, `Loop`, `Steal` and `Steals`; the world's own
steal is one attempt of them (`World.stealForeign_steal`).

* `idle_or_top`, `Chain.length_add_dueCount`: the loop can always pop or return, and every
  round lowers the number of due victims by one, so no sequence of rounds, finished or not,
  has more rounds than there are victims.
* `steal_attempt_schedule`: one attempt pops only due victims, each registered victim at most
  once; a tried victim is next due one period after the tick; and an attempt registers no
  victim, so a victim whose group is gone is dropped for good.
* `due_victim_popped_within`: a victim due at the next tick is popped within as many attempts
  as there are victims due no later than it, because every attempt that passes it over tries
  one of these and moves it behind it.

The schedule is counted in unbounded numbers. Its only arithmetic is the clock plus one at a
tick, the clock plus the offset plus one at registration, and the tick plus the ratio at a try.
-/

namespace Fibers

namespace VictimQueue

open scoped List

variable {q q' : VictimQueue} {v : Victim} {r : Reply} {rs : List (Victim × Reply)}

/-! ## 1. Schedules, and what one round does -/

/-- Every victim waits at least one tick between two tries, as registration makes sure. -/
def WF (q : VictimQueue) : Prop := ∀ v ∈ q.victims, 0 < v.every

/-- The victims due at the clock: the measure of the loop. -/
def dueCount (q : VictimQueue) : Nat := q.victims.countP (·.due ≤ q.clock)

/-- What a victim popped at tick `t` leaves in the queue: nothing when its group is gone, else
itself, due one period later. -/
def leftBy (v : Victim) (t : Nat) : Reply → List Victim
  | .gone => []
  | .empty | .stolen => [{ v with due := t + v.every }]

instance (q : VictimQueue) (i : Nat) (v : Victim) : Decidable (q.Top i v) :=
  inferInstanceAs (Decidable (_ ∧ _ ∧ _))

instance (q : VictimQueue) : Decidable q.Idle :=
  inferInstanceAs (Decidable (∀ v ∈ q.victims, _))

instance (q : VictimQueue) : Decidable q.WF :=
  inferInstanceAs (Decidable (∀ v ∈ q.victims, _))

@[simp] theorem tick_victims : q.tick.victims = q.victims := rfl

@[simp] theorem tick_clock : q.tick.clock = q.clock + 1 := rfl

theorem wf_empty : ({} : VictimQueue).WF := fun _ hv => nomatch hv

theorem WF.add (hq : q.WF) (g n offset : Nat) : (q.add g n offset).WF := by
  intro v hv
  simp only [VictimQueue.add, List.mem_append, List.mem_singleton] at hv
  rcases hv with hv | rfl
  · exact hq v hv
  · exact Nat.lt_of_lt_of_le Nat.one_pos (Nat.le_max_right n 1)

theorem WF.tick (hq : q.WF) : q.tick.WF := hq

/-- What a victim leaves behind is due after the tick, and has its group and its period. -/
theorem mem_leftBy {t : Nat} {w : Victim} (hw : w ∈ leftBy v t r) :
    r ≠ .gone ∧ w = { v with due := t + v.every } := by
  cases r <;> simp_all [leftBy]

theorem map_group_leftBy (t : Nat) :
    (leftBy v t r).map (·.group) = if r = .gone then [] else [v.group] := by
  cases r <;> rfl

/-- Modifying one position is, up to order, taking its element out and putting the modified
one in. -/
theorem modify_perm {α : Type} {l : List α} {i : Nat} (h : i < l.length) (f : α → α) :
    l.modify i f ~ f l[i] :: l.eraseIdx i := by
  rw [List.modify_eq_take_cons_drop h, List.eraseIdx_eq_take_drop_succ]
  exact List.perm_middle

/-- **One round, up to order.** The popped victim leaves the queue, what it leaves behind comes
in, and every other victim stays as it was. -/
theorem Round.perm (h : q.Round (v, r) q') :
    ∃ rest, q.victims ~ v :: rest ∧ q'.victims ~ leftBy v q.clock r ++ rest ∧
      q'.clock = q.clock := by
  obtain ⟨i, ⟨hi, -, -⟩, rfl⟩ := h
  obtain ⟨hlt, rfl⟩ := List.getElem?_eq_some_iff.1 hi
  refine ⟨q.victims.eraseIdx i, (List.getElem_cons_eraseIdx_perm hlt).symm, ?_, ?_⟩
  · cases r <;> simp [answer, drop, reschedule, leftBy, modify_perm hlt]
  · cases r <;> rfl

theorem Round.top (h : q.Round (v, r) q') :
    v ∈ q.victims ∧ v.due ≤ q.clock ∧ ∀ w ∈ q.victims, v.due ≤ w.due := by
  obtain ⟨i, ⟨hi, hd, hmin⟩, -⟩ := h
  exact ⟨List.mem_of_getElem? hi, hd, hmin⟩

theorem Round.clock (h : q.Round (v, r) q') : q'.clock = q.clock := by
  obtain ⟨_, -, -, h⟩ := h.perm
  exact h

/-- Everything in the queue after a round was there before, or was left by the popped
victim. -/
theorem Round.mem {w : Victim} (h : q.Round (v, r) q') (hw : w ∈ q'.victims) :
    w ∈ q.victims ∨ w ∈ leftBy v q.clock r := by
  obtain ⟨rest, h₀, h₁, -⟩ := h.perm
  rcases List.mem_append.1 (h₁.subset hw) with hw | hw
  · exact .inr hw
  · exact .inl (h₀.symm.subset (List.mem_cons_of_mem _ hw))

theorem Round.wf (hq : q.WF) (h : q.Round (v, r) q') : q'.WF := by
  intro w hw
  rcases h.mem hw with hw | hw
  · exact hq w hw
  · obtain ⟨-, rfl⟩ := mem_leftBy hw
    exact hq v h.top.1

/-- What the popped victim leaves behind is due only after the clock. -/
theorem Round.lt_due {w : Victim} (hq : q.WF) (h : q.Round (v, r) q')
    (hw : w ∈ leftBy v q.clock r) : q.clock < w.due := by
  obtain ⟨-, rfl⟩ := mem_leftBy hw
  have := hq v h.top.1
  simp only
  omega

/-- A victim due by the clock after a round was in the queue before it. -/
theorem Round.mem_of_due {w : Victim} (hq : q.WF) (h : q.Round (v, r) q') (hw : w ∈ q'.victims)
    (hd : w.due ≤ q.clock) : w ∈ q.victims := by
  rcases h.mem hw with hw | hw
  · exact hw
  · exact absurd (h.lt_due hq hw) (by omega)

/-- A victim due only after the clock stays through a round. -/
theorem Round.mem_of_lt {w : Victim} (h : q.Round (v, r) q') (hw : w ∈ q.victims)
    (hlt : q.clock < w.due) : w ∈ q'.victims := by
  obtain ⟨rest, h₀, h₁, -⟩ := h.perm
  have hne : w ≠ v := by
    rintro rfl
    exact absurd h.top.2.1 (by omega)
  have hrest : w ∈ rest := (List.mem_cons.1 (h₀.subset hw)).resolve_left hne
  exact h₁.symm.subset (List.mem_append_right _ hrest)

theorem Round.left_mem (h : q.Round (v, r) q') (hr : r ≠ .gone) :
    { v with due := q.clock + v.every } ∈ q'.victims := by
  obtain ⟨rest, -, h₁, -⟩ := h.perm
  refine h₁.symm.subset (List.mem_append_left _ ?_)
  cases r <;> simp_all [leftBy]

/-- **A round takes one victim out of every count it is in.** Of the victims due by `d`, for
a `d` the clock has reached, the popped one leaves and nothing comes in, since what it leaves
behind is due only after the clock. -/
theorem Round.countP_due (hq : q.WF) (h : q.Round (v, r) q') {d : Nat} (hd : d ≤ q.clock) :
    q'.victims.countP (·.due ≤ d) + (if v.due ≤ d then 1 else 0) =
      q.victims.countP (·.due ≤ d) := by
  obtain ⟨rest, h₀, h₁, -⟩ := h.perm
  have hleft : (leftBy v q.clock r).countP (·.due ≤ d) = 0 := by
    rw [List.countP_eq_zero]
    intro w hw
    have := h.lt_due hq hw
    simp only [decide_eq_true_eq]
    omega
  rw [h₀.countP_eq, h₁.countP_eq, List.countP_append, hleft, List.countP_cons]
  simp

/-- A round lowers the number of due victims by one. -/
theorem Round.dueCount (hq : q.WF) (h : q.Round (v, r) q') : q'.dueCount + 1 = q.dueCount := by
  have step := h.countP_due hq (Nat.le_refl _)
  simp only [VictimQueue.dueCount, h.clock, h.top.2.1, if_true] at step ⊢
  exact step

/-- Of the copies of a victim due by the clock, a round takes out the popped one. -/
theorem Round.count (hq : q.WF) (h : q.Round (v, r) q') {x : Victim} (hx : x.due ≤ q.clock) :
    q'.victims.count x + (if v = x then 1 else 0) = q.victims.count x := by
  obtain ⟨rest, h₀, h₁, -⟩ := h.perm
  have hleft : (leftBy v q.clock r).count x = 0 := by
    rw [List.count_eq_zero]
    intro hw
    exact absurd (h.lt_due hq hw) (by omega)
  rw [h₀.count_eq, h₁.count_eq, List.count_append, hleft, List.count_cons]
  simp

/-- A round keeps every group but that of a popped victim whose group is gone. -/
theorem Round.groups (h : q.Round (v, r) q') :
    q.victims.map (·.group) ~
      q'.victims.map (·.group) ++ (if r = .gone then [v.group] else []) := by
  obtain ⟨rest, h₀, h₁, -⟩ := h.perm
  have e₀ := h₀.map (·.group)
  have e₁ := h₁.map (·.group)
  rw [List.map_append, map_group_leftBy] at e₁
  rw [List.map_cons] at e₀
  by_cases hr : r = .gone
  · simp only [hr, if_true, List.nil_append] at e₁ ⊢
    -- the dropped group goes to the end: `v.group :: rest ~ rest ++ [v.group]`
    exact e₀.trans ((List.perm_append_singleton _ _).symm.trans (e₁.symm.append_right _))
  · simp only [hr, if_false, List.singleton_append, List.append_nil] at e₁ ⊢
    exact e₀.trans e₁.symm

/-! ## 2. The earliest victim, and a loop that never gets stuck -/

theorem earliest_cons_isSome (v : Victim) (rest : List Victim) :
    (earliest (v :: rest)).isSome := by
  simp only [earliest]
  split <;> rfl

theorem earliest_eq_none {l : List Victim} : earliest l = none ↔ l = [] := by
  cases l with
  | nil => simp [earliest]
  | cons v rest =>
    have := earliest_cons_isSome v rest
    simp_all [Option.isSome_iff_ne_none]

/-- `earliest` finds the least due of a list, and a victim that has it. -/
theorem earliest_spec : ∀ {l : List Victim} {d : Nat}, earliest l = some d →
    (∃ v ∈ l, v.due = d) ∧ ∀ w ∈ l, d ≤ w.due
  | [], _, h => by simp [earliest] at h
  | v :: rest, d, h => by
    simp only [earliest] at h
    split at h
    · rename_i d' hd'
      obtain ⟨⟨u, hu, rfl⟩, hmin⟩ := earliest_spec hd'
      obtain rfl := Option.some.inj h
      refine ⟨?_, ?_⟩
      · by_cases hle : v.due ≤ u.due
        · exact ⟨v, List.mem_cons_self, by omega⟩
        · exact ⟨u, List.mem_cons_of_mem _ hu, by omega⟩
      · intro w hw
        rcases List.mem_cons.1 hw with rfl | hw
        · omega
        · have := hmin w hw
          omega
    · rename_i hnone
      obtain rfl := earliest_eq_none.1 hnone
      obtain rfl := Option.some.inj h
      simp

/-- **The loop never gets stuck**: when some victim is due, the heap has one to hand out. -/
theorem idle_or_top (q : VictimQueue) : q.Idle ∨ ∃ i v, q.Top i v := by
  by_cases h : q.Idle
  · exact .inl h
  · right
    obtain ⟨w, hw, hwd⟩ : ∃ w ∈ q.victims, w.due ≤ q.clock := by
      simpa [Idle] using h
    obtain ⟨d, hd⟩ : ∃ d, earliest q.victims = some d := by
      cases hl : q.victims with
      | nil => simp [hl] at hw
      | cons u rest => exact Option.isSome_iff_exists.1 (earliest_cons_isSome u rest)
    obtain ⟨⟨v, hv, rfl⟩, hmin⟩ := earliest_spec hd
    obtain ⟨i, hi⟩ := List.mem_iff_getElem?.1 hv
    exact ⟨i, v, hi, Nat.le_trans (hmin w hw) hwd, hmin⟩

/-! ## 3. Rounds one after another -/

/-- Rounds one after another, whatever the groups answer. -/
inductive Chain : VictimQueue → List (Victim × Reply) → VictimQueue → Prop
  | nil (q : VictimQueue) : Chain q [] q
  | cons {q q₁ q' : VictimQueue} {v : Victim} {r : Reply} {rs : List (Victim × Reply)} :
      q.Round (v, r) q₁ → Chain q₁ rs q' → Chain q ((v, r) :: rs) q'

theorem Rounds.chain (h : q.Rounds rs q') : q.Chain rs q' := by
  induction h with
  | nil => exact .nil _
  | @cons _ _ _ e _ hr _ _ ih =>
    obtain ⟨v, r⟩ := e
    exact .cons hr ih

theorem Chain.snoc {q₀ : VictimQueue} (h : q.Chain rs q₀) (hr : q₀.Round (v, r) q') :
    q.Chain (rs ++ [(v, r)]) q' := by
  induction h with
  | nil => exact .cons hr (.nil _)
  | cons h₁ _ ih => exact .cons h₁ (ih hr)

theorem Loop.chain (h : q.Loop rs q') : q.Chain rs q' := by
  rcases h with ⟨h, -⟩ | ⟨rs₀, q₀, v, rfl, h₀, h₁⟩
  · exact h.chain
  · exact h₀.chain.snoc h₁

theorem Chain.clock (h : q.Chain rs q') : q'.clock = q.clock := by
  induction h with
  | nil => rfl
  | cons h₁ _ ih => rw [ih, h₁.clock]

theorem Chain.wf (hq : q.WF) (h : q.Chain rs q') : q'.WF := by
  induction h with
  | nil => exact hq
  | cons h₁ _ ih => exact ih (h₁.wf hq)

/-- **Every round pops a due victim and moves it past the clock**, so the rounds and the
victims still due add up to the victims due at the start. -/
theorem Chain.length_add_dueCount (hq : q.WF) (h : q.Chain rs q') :
    rs.length + q'.dueCount = q.dueCount := by
  induction h with
  | nil => simp
  | cons h₁ _ ih =>
    have step := h₁.dueCount hq
    have ih := ih (h₁.wf hq)
    simp only [List.length_cons]
    omega

/-- No sequence of rounds has more rounds than there are victims. -/
theorem Chain.length_le (hq : q.WF) (h : q.Chain rs q') : rs.length ≤ q.victims.length := by
  have := h.length_add_dueCount hq
  have : q.dueCount ≤ q.victims.length := List.countP_le_length
  omega

/-- Rounds never add to the victims due by a tick the clock has reached. -/
theorem Chain.countP_le (hq : q.WF) (h : q.Chain rs q') {d : Nat} (hd : d ≤ q.clock) :
    q'.victims.countP (·.due ≤ d) ≤ q.victims.countP (·.due ≤ d) := by
  induction h with
  | nil => exact Nat.le_refl _
  | cons h₁ _ ih =>
    have step := h₁.countP_due hq hd
    have ih := ih (h₁.wf hq) (by rw [h₁.clock]; exact hd)
    omega

/-- A victim due only after the clock stays through the rounds. -/
theorem Chain.mem_of_lt {w : Victim} (h : q.Chain rs q') (hw : w ∈ q.victims)
    (hlt : q.clock < w.due) : w ∈ q'.victims := by
  induction h with
  | nil => exact hw
  | cons h₁ _ ih => exact ih (h₁.mem_of_lt hw hlt) (by rw [h₁.clock]; exact hlt)

/-- A victim due by the clock after the rounds was there before them. -/
theorem Chain.mem_of_due {w : Victim} (hq : q.WF) (h : q.Chain rs q') (hw : w ∈ q'.victims)
    (hd : w.due ≤ q.clock) : w ∈ q.victims := by
  induction h with
  | nil => exact hw
  | cons h₁ _ ih => exact h₁.mem_of_due hq (ih (h₁.wf hq) hw (by rw [h₁.clock]; exact hd)) hd

/-- Rounds pop only victims that were there and due. -/
theorem Chain.popped (hq : q.WF) (h : q.Chain rs q') :
    ∀ e ∈ rs, e.1 ∈ q.victims ∧ e.1.due ≤ q.clock := by
  induction h with
  | nil => simp
  | cons h₁ _ ih =>
    intro e he
    rcases List.mem_cons.1 he with rfl | he
    · exact ⟨h₁.top.1, h₁.top.2.1⟩
    · obtain ⟨hm, hd⟩ := ih (h₁.wf hq) e he
      rw [h₁.clock] at hd
      exact ⟨h₁.mem_of_due hq hm hd, hd⟩

/-- Of the copies of a victim due by the clock, each round that pops one takes it out, and no
copy comes in. -/
theorem Chain.count (hq : q.WF) (h : q.Chain rs q') {x : Victim} (hx : x.due ≤ q.clock) :
    q'.victims.count x + rs.countP (·.1 = x) = q.victims.count x := by
  induction h with
  | nil => simp
  | cons h₁ _ ih =>
    have step := h₁.count hq hx
    have ih := ih (h₁.wf hq) (by rw [h₁.clock]; exact hx)
    simp only [List.countP_cons, decide_eq_true_eq] at ih ⊢
    omega

/-- A tried victim stays, due one period after the clock, until the rounds end. -/
theorem Chain.left_mem (hq : q.WF) (h : q.Chain rs q') :
    ∀ e ∈ rs, e.2 ≠ .gone → { e.1 with due := q.clock + e.1.every } ∈ q'.victims := by
  induction h with
  | nil => simp
  | @cons q q₁ q' v r rs h₁ h₂ ih =>
    intro e he hr
    rcases List.mem_cons.1 he with rfl | he
    · have hpos := hq v h₁.top.1
      refine h₂.mem_of_lt (h₁.left_mem hr) ?_
      rw [h₁.clock]
      simp only
      omega
    · have := ih (h₁.wf hq) e he hr
      rwa [h₁.clock] at this

/-- The groups after the rounds are those before, less one for every group found gone. -/
theorem Chain.groups (h : q.Chain rs q') :
    q.victims.map (·.group) ~
      q'.victims.map (·.group) ++ (rs.filter (·.2 = .gone)).map (·.1.group) := by
  induction h with
  | nil => simp
  | @cons q q₁ q' v r rs h₁ _ ih =>
    calc q.victims.map (·.group)
        ~ q₁.victims.map (·.group) ++ (if r = .gone then [v.group] else []) := h₁.groups
      _ ~ (q'.victims.map (·.group) ++ (rs.filter (·.2 = .gone)).map (·.1.group)) ++
            (if r = .gone then [v.group] else []) := ih.append_right _
      _ ~ q'.victims.map (·.group) ++
            ((if r = .gone then [v.group] else []) ++ (rs.filter (·.2 = .gone)).map (·.1.group)) := by
        rw [List.append_assoc]
        exact List.perm_append_comm.append_left _
      _ = q'.victims.map (·.group) ++ (((v, r) :: rs).filter (·.2 = .gone)).map (·.1.group) := by
        by_cases hr : r = .gone <;> simp [hr]

/-! ## 4. One steal attempt -/

/-- An attempt without victims changes nothing; any other is a loop from the ticked queue. -/
theorem Steal.cases (h : q.Steal rs q') :
    (q.victims = [] ∧ rs = [] ∧ q' = q) ∨ q.tick.Loop rs q' := by
  unfold Steal at h
  split at h
  · rename_i he
    exact .inl ⟨List.isEmpty_iff.1 he, h⟩
  · exact .inr h

theorem Steal.clock_le (h : q.Steal rs q') : q.clock ≤ q'.clock := by
  rcases h.cases with ⟨-, -, rfl⟩ | h
  · exact Nat.le_refl _
  · rw [h.chain.clock, tick_clock]
    exact Nat.le_succ _

theorem Steal.wf (hq : q.WF) (h : q.Steal rs q') : q'.WF := by
  rcases h.cases with ⟨-, -, rfl⟩ | h
  · exact hq
  · exact h.chain.wf hq.tick

/-- Of the copies of a victim due at the tick, an attempt takes out those it pops, and no copy
comes in. -/
theorem Steal.count (hq : q.WF) (h : q.Steal rs q') {x : Victim} (hx : x.due ≤ q.clock + 1) :
    q'.victims.count x + rs.countP (·.1 = x) = q.victims.count x := by
  rcases h.cases with ⟨-, rfl, rfl⟩ | h
  · simp
  · exact h.chain.count hq.tick hx

/-- What one steal attempt from `q`, popping `rs` and leaving `q'`, keeps to. -/
structure Attempt (q : VictimQueue) (rs : List (Victim × Reply)) (q' : VictimQueue) : Prop where
  /-- It pops no more victims than are registered. -/
  bounded : rs.length ≤ q.victims.length
  /-- It pops only registered victims due at the tick. -/
  due : ∀ e ∈ rs, e.1 ∈ q.victims ∧ e.1.due ≤ q.clock + 1
  /-- It pops each registered victim at most once. -/
  once : ∀ x, rs.countP (·.1 = x) ≤ q.victims.count x
  /-- A victim it tries is next due one period after the tick. -/
  period : ∀ e ∈ rs, e.2 ≠ .gone → { e.1 with due := q.clock + 1 + e.1.every } ∈ q'.victims
  /-- The groups left are those before, less the groups found gone. -/
  dropped : q.victims.map (·.group) ~
    q'.victims.map (·.group) ++ (rs.filter (·.2 = .gone)).map (·.1.group)
  /-- The schedule stays well formed. -/
  wf : q'.WF

theorem Loop.attempt (hq : q.WF) (h : q.tick.Loop rs q') : q.Attempt rs q' where
  bounded := Chain.length_le (q := q.tick) hq.tick h.chain
  due := h.chain.popped hq.tick
  once x := by
    by_cases hx : x.due ≤ q.clock + 1
    · have := h.chain.count hq.tick hx
      rw [tick_victims] at this
      omega
    · -- a victim not yet due is never popped
      have : rs.countP (·.1 = x) = 0 := by
        rw [List.countP_eq_zero]
        intro e he hex
        have := (h.chain.popped hq.tick e he).2
        simp only [decide_eq_true_eq] at hex
        subst hex
        exact hx this
      omega
  period := h.chain.left_mem hq.tick
  dropped := h.chain.groups
  wf := h.chain.wf hq.tick

/-- **One steal attempt keeps to the schedule**, whatever order the heap hands out equally due
victims in and whatever the groups answer. Its loop returns after at most as many rounds as
there are victims: from every point it reaches it can pop or return, and no sequence of rounds
is longer. It pops only due victims, each at most once; a victim it tries is next due one period
after the tick, so it is not tried again before; and the groups found gone are dropped for
good. -/
theorem steal_attempt_schedule (hq : q.WF) (h : q.Steal rs q') :
    q.Attempt rs q' ∧ ∀ rs₁ q₁, q.tick.Rounds rs₁ q₁ →
      rs₁.length ≤ q.victims.length ∧ (q₁.Idle ∨ ∃ i v, q₁.Top i v) := by
  refine ⟨?_, fun rs₁ q₁ h₁ => ⟨?_, idle_or_top q₁⟩⟩
  · rcases h.cases with ⟨-, rfl, rfl⟩ | h
    · exact ⟨by simp, by simp, by simp, by simp, by simp, hq⟩
    · exact h.attempt hq
  · exact Chain.length_le (q := q.tick) hq.tick h₁.chain

/-- Two victims registered at clock 0, the first due at once: the first attempt tries it and
finds nothing, and moves it two ticks on. -/
theorem steal_attempt_schedule_first_try :
    (({} : VictimQueue).add 7 2 0 |>.add 8 3 1).WF ∧
    (({} : VictimQueue).add 7 2 0 |>.add 8 3 1).Steal [(⟨7, 2, 1⟩, .empty)]
      { victims := [⟨7, 2, 3⟩, ⟨8, 3, 2⟩], clock := 1 } ∧
    (({} : VictimQueue).add 7 2 0 |>.add 8 3 1).Attempt [(⟨7, 2, 1⟩, .empty)]
      { victims := [⟨7, 2, 3⟩, ⟨8, 3, 2⟩], clock := 1 } ∧
    ∀ rs₁ q₁, (({} : VictimQueue).add 7 2 0 |>.add 8 3 1).tick.Rounds rs₁ q₁ →
      rs₁.length ≤ (({} : VictimQueue).add 7 2 0 |>.add 8 3 1).victims.length ∧
        (q₁.Idle ∨ ∃ i v, q₁.Top i v) :=
  have hq : (({} : VictimQueue).add 7 2 0 |>.add 8 3 1).WF := (wf_empty.add 7 2 0).add 8 3 1
  have h : (({} : VictimQueue).add 7 2 0 |>.add 8 3 1).Steal [(⟨7, 2, 1⟩, .empty)]
      { victims := [⟨7, 2, 3⟩, ⟨8, 3, 2⟩], clock := 1 } :=
    .inl ⟨.cons ⟨0, by decide, rfl⟩ (by decide) (.nil _), by decide⟩
  ⟨hq, h, steal_attempt_schedule hq h⟩

/-! ## 5. Attempt after attempt: no due victim is passed over for long -/

/-- **An attempt that passes a due victim over moves a victim ahead of it behind it.** When a
victim due at the tick is still there after the attempt, the loop cannot have found nothing
due, so it returned on a steal; the victim it stole from was due no later, and is now due only
after the tick. So of the victims due no later than the one passed over, one fewer is left. -/
theorem Steal.passed_over (hq : q.WF) (h : q.Steal rs q') (hv : v ∈ q'.victims)
    (hdue : v.due ≤ q.clock + 1) :
    q'.victims.countP (·.due ≤ v.due) < q.victims.countP (·.due ≤ v.due) := by
  rcases h.cases with ⟨he, -, rfl⟩ | h
  · simp [he] at hv
  rcases h with ⟨h, hidle⟩ | ⟨rs₀, q₀, u, rfl, h₀, h₁⟩
  · -- the loop found nothing due, yet `v` is due
    have := hidle v hv
    rw [h.chain.clock, tick_clock] at this
    omega
  · have hc₀ : q₀.clock = q.clock + 1 := by rw [h₀.chain.clock, tick_clock]
    have hq₀ : q₀.WF := h₀.chain.wf hq.tick
    have hv₀ : v ∈ q₀.victims := h₁.mem_of_due hq₀ hv (by omega)
    have hu : u.due ≤ v.due := h₁.top.2.2 v hv₀
    have step := h₁.countP_due hq₀ (d := v.due) (by omega)
    have hle := h₀.chain.countP_le hq.tick (d := v.due) (by rw [tick_clock]; exact hdue)
    simp only [hu, if_true, tick_victims] at step hle
    omega

theorem Steals.wf (hq : q.WF) {rss : List (List (Victim × Reply))} (h : q.Steals rss q') :
    q'.WF := by
  induction h with
  | nil => exact hq
  | cons h₁ _ ih => exact ih (h₁.wf hq)

/-- Over attempt after attempt, the copies of a victim due at the first tick go down by the
times it is popped. -/
theorem Steals.count (hq : q.WF) {rss : List (List (Victim × Reply))} (h : q.Steals rss q')
    {x : Victim} (hx : x.due ≤ q.clock + 1) :
    q'.victims.count x + rss.flatten.countP (·.1 = x) = q.victims.count x := by
  induction h with
  | nil => simp
  | cons h₁ _ ih =>
    have step := h₁.count hq hx
    have ih := ih (h₁.wf hq) (by have := h₁.clock_le; omega)
    rw [List.flatten_cons, List.countP_append]
    omega

/-- A victim due at the first tick is gone from the queue once as many attempts have passed as
there were victims due no later than it. -/
theorem Steals.not_mem (hq : q.WF) {rss : List (List (Victim × Reply))} (h : q.Steals rss q')
    (hdue : v.due ≤ q.clock + 1) (hlen : q.victims.countP (·.due ≤ v.due) ≤ rss.length) :
    v ∉ q'.victims := by
  induction h with
  | nil q =>
    intro hv
    have : 0 < q.victims.countP (·.due ≤ v.due) := List.countP_pos_iff.2 ⟨v, hv, by simp⟩
    simp only [List.length_nil] at hlen
    omega
  | cons h₁ h₂ ih =>
    rename_i q q₁ q' rs rss
    by_cases hv₁ : v ∈ q₁.victims
    · -- passed over: one fewer victim is ahead of it, with one attempt fewer to go
      have := h₁.passed_over hq hv₁ hdue
      refine ih (h₁.wf hq) (by have := h₁.clock_le; omega) ?_
      simp only [List.length_cons] at hlen
      omega
    · -- popped: no copy of it comes back
      intro hv
      have hc := h₂.count (h₁.wf hq) (x := v) (by have := h₁.clock_le; omega)
      have h₀ : q₁.victims.count v = 0 := List.count_eq_zero.2 hv₁
      have hpos : 0 < q'.victims.count v := List.count_pos_iff.2 hv
      omega

/-- **No due victim is starved.** Whatever order the heap hands out equally due victims in and
whatever the groups answer, every copy of a victim due at the next tick is popped exactly once
within as many attempts as there are victims due no later than it, at most the number of
victims: it is tried then, unless its group is gone. -/
theorem due_victim_popped_within (hq : q.WF) {rss : List (List (Victim × Reply))}
    (h : q.Steals rss q') (hdue : v.due ≤ q.clock + 1)
    (hlen : q.victims.countP (·.due ≤ v.due) ≤ rss.length) :
    v ∉ q'.victims ∧ rss.flatten.countP (·.1 = v) = q.victims.count v := by
  have hgone := h.not_mem hq hdue hlen
  have hc := h.count hq hdue
  rw [List.count_eq_zero.2 hgone] at hc
  exact ⟨hgone, by omega⟩

/-- Two victims due at the first tick: the first attempt steals from the one registered first,
and the other, passed over, is tried at the second, as late as the bound allows. -/
theorem due_victim_popped_within_second :
    (({} : VictimQueue).add 7 2 0 |>.add 8 3 0).WF ∧
    (({} : VictimQueue).add 7 2 0 |>.add 8 3 0).Steals
      [[(⟨7, 2, 1⟩, .stolen)], [(⟨8, 3, 1⟩, .empty)]]
      { victims := [⟨7, 2, 3⟩, ⟨8, 3, 5⟩], clock := 2 } ∧
    (⟨8, 3, 1⟩ : Victim).due ≤ (({} : VictimQueue).add 7 2 0 |>.add 8 3 0).clock + 1 ∧
    (({} : VictimQueue).add 7 2 0 |>.add 8 3 0).victims.countP (·.due ≤ 1) ≤ 2 ∧
    (⟨8, 3, 1⟩ : Victim) ∉ [(⟨7, 2, 3⟩ : Victim), ⟨8, 3, 5⟩] ∧
    [[((⟨7, 2, 1⟩ : Victim), Reply.stolen)], [(⟨8, 3, 1⟩, .empty)]].flatten.countP
        (·.1 = ⟨8, 3, 1⟩) =
      (({} : VictimQueue).add 7 2 0 |>.add 8 3 0).victims.count ⟨8, 3, 1⟩ :=
  have hq : (({} : VictimQueue).add 7 2 0 |>.add 8 3 0).WF := (wf_empty.add 7 2 0).add 8 3 0
  have h₁ : (({} : VictimQueue).add 7 2 0 |>.add 8 3 0).Steal [(⟨7, 2, 1⟩, .stolen)]
      { victims := [⟨7, 2, 3⟩, ⟨8, 3, 1⟩], clock := 1 } :=
    .inr ⟨[], _, _, rfl, .nil _, 0, by decide, rfl⟩
  have h₂ : ({ victims := [⟨7, 2, 3⟩, ⟨8, 3, 1⟩], clock := 1 } : VictimQueue).Steal
      [(⟨8, 3, 1⟩, .empty)] { victims := [⟨7, 2, 3⟩, ⟨8, 3, 5⟩], clock := 2 } :=
    .inl ⟨.cons ⟨1, by decide, rfl⟩ (by decide) (.nil _), by decide⟩
  have hrun := Steals.cons h₁ (.cons h₂ (.nil _))
  ⟨hq, hrun, by decide, by decide, due_victim_popped_within hq hrun (by decide) (by decide)⟩

/-! ## 6. The world's steal is one attempt

The world's steal makes the choices of the relation one way: `nextDue` hands out the first
registered of the earliest due victims, and a group never vanishes, so no reply is `gone`. Its
loop is bounded by the number of victims, which the count of due victims never exceeds. -/

theorem idle_of_dueCount (h : q.dueCount = 0) : q.Idle := by
  intro w hw
  have := List.countP_eq_zero.1 h w hw
  simp only [decide_eq_true_eq, Nat.not_le] at this
  exact this

theorem nextDue_some {i : Nat} (h : q.nextDue = some i) : ∃ v, q.Top i v := by
  unfold nextDue at h
  split at h
  · rename_i d hd
    obtain ⟨-, hmin⟩ := earliest_spec hd
    split at h
    · obtain ⟨hi, hp, -⟩ := List.findIdx?_eq_some_iff_getElem.1 h
      simp only [beq_iff_eq] at hp
      exact ⟨q.victims[i], List.getElem?_eq_getElem hi, by omega, fun w hw => hp ▸ hmin w hw⟩
    · exact absurd h (by simp)
  · exact absurd h (by simp)

theorem nextDue_none (h : q.nextDue = none) : q.Idle := by
  intro w hw
  unfold nextDue at h
  split at h
  · rename_i d hd
    obtain ⟨⟨u, hu, rfl⟩, hmin⟩ := earliest_spec hd
    split at h
    · -- the search for the earliest due cannot miss `u`, which has it
      have := List.findIdx?_eq_none_iff.1 h u hu
      simp at this
    · have := hmin w hw
      omega
  · rename_i hnone
    simp [earliest_eq_none.1 hnone] at hw

theorem Loop.idle (h : q.Idle) : q.Loop [] q := .inl ⟨.nil q, h⟩

theorem Loop.stolen {i : Nat} (h : q.Top i v) : q.Loop [(v, .stolen)] (q.reschedule i) :=
  .inr ⟨[], q, v, rfl, .nil q, i, h, rfl⟩

theorem Loop.cons {q₁ : VictimQueue} {e : Victim × Reply} (h₁ : q.Round e q₁)
    (he : e.2 ≠ .stolen) (h : q₁.Loop rs q') : q.Loop (e :: rs) q' := by
  rcases h with ⟨h, hi⟩ | ⟨rs₀, q₀, u, rfl, h₀, hr⟩
  · exact .inl ⟨.cons h₁ he h, hi⟩
  · exact .inr ⟨e :: rs₀, q₀, u, rfl, .cons h₁ he h₀, hr⟩

end VictimQueue

namespace World

open VictimQueue

variable {w : World}

theorem victims_modifyWorker_of {j k : Nat} {f : Worker → Worker}
    (hf : ∀ x, (f x).victims = x.victims) :
    ((w.modifyWorker j f).worker k).victims = (w.worker k).victims := by
  simp only [World.worker, World.modifyWorker, List.getD_eq_getElem?_getD, List.getElem?_modify]
  by_cases h : j = k <;> cases w.workers[k]? <;> simp [h, hf]

theorem victims_modifyWorker_self {k : Nat} (hk : k < w.workers.length) (Q : VictimQueue) :
    ((w.modifyWorker k (fun x => { x with victims := Q })).worker k).victims = Q := by
  simp [World.worker, World.modifyWorker, List.getD_eq_getElem?_getD, hk]

theorem lt_length_of_victims {k : Nat} (h : (w.worker k).victims.victims ≠ []) :
    k < w.workers.length := by
  by_contra hk
  apply h
  simp [World.worker, List.getD_eq_getElem?_getD, List.getElem?_eq_none (Nat.le_of_not_lt hk)]
  rfl

theorem victims_unpark (g i : Nat) (next : Phase) (k : Nat) :
    ((w.unpark g i next).worker k).victims = (w.worker k).victims := by
  unfold unpark
  dsimp only
  split
  · split
    · exact victims_modifyWorker_of (fun _ => rfl)
    · rfl
  · rfl

theorem victims_wakeOneShared (g k : Nat) :
    ((w.wakeOneShared g).worker k).victims = (w.worker k).victims := by
  unfold wakeOneShared
  split
  · exact victims_unpark _ _ _ _
  · rfl

/-- A thief's take from another group leaves every steal schedule as it was. -/
theorem victims_remoteAcquire (g k : Nat) :
    ((w.remoteAcquire g).1.worker k).victims = (w.worker k).victims := by
  unfold remoteAcquire
  split
  · dsimp only
    rw [apply_ite (fun w : World => (w.worker k).victims), victims_wakeOneShared, ite_self]
    rfl
  · rfl

/-- The world's loop, with fuel no smaller than the count of due victims, is one loop of the
schedule: it returns an entity exactly when its last round stole one. -/
theorem stealDue_loop (k : Nat) : ∀ (fuel : Nat) (w : World) {w' : World} {o : Option Entity},
    (w.worker k).victims.WF → (w.worker k).victims.dueCount ≤ fuel →
    stealDue k fuel w = (w', o) →
    ∃ rs, (w.worker k).victims.Loop rs (w'.worker k).victims ∧
      (o.isSome ↔ ∃ v, (v, Reply.stolen) ∈ rs)
  | 0, w, w', o, _, hfuel, h => by
    simp only [stealDue, Prod.mk.injEq] at h
    obtain ⟨rfl, rfl⟩ := h
    exact ⟨[], .idle (idle_of_dueCount (by omega)), by simp⟩
  | fuel + 1, w, w', o, hq, hfuel, h => by
    unfold stealDue at h
    dsimp only at h
    split at h
    · rename_i hnone
      simp only [Prod.mk.injEq] at h
      obtain ⟨rfl, rfl⟩ := h
      exact ⟨[], .idle (nextDue_none hnone), by simp⟩
    · rename_i i hi
      obtain ⟨v, hv⟩ := nextDue_some hi
      have hk : k < w.workers.length := lt_length_of_victims (by
        intro he
        simp [VictimQueue.Top, he] at hv)
      have hround : (w.worker k).victims.Round (v, .empty) ((w.worker k).victims.reschedule i) :=
        ⟨i, hv, rfl⟩
      -- the try is written into the schedule before the group is asked
      have hw₁ := victims_modifyWorker_self hk ((w.worker k).victims.reschedule i)
      split at h
      · rename_i w₁ e hr
        simp only [Prod.mk.injEq] at h
        obtain ⟨rfl, rfl⟩ := h
        have hv₁ := congrArg (fun p : World × Option Entity => (p.1.worker k).victims) hr
        simp only [victims_remoteAcquire, hw₁] at hv₁
        rw [← hv₁]
        exact ⟨[(v, .stolen)], .stolen hv, by simp⟩
      · rename_i w₁ hr
        have hv₁ := congrArg (fun p : World × Option Entity => (p.1.worker k).victims) hr
        simp only [victims_remoteAcquire, hw₁] at hv₁
        rw [eq_comm] at hv₁
        have hd := hround.dueCount hq
        obtain ⟨rs, hl, ho⟩ := stealDue_loop k fuel w₁ (hv₁ ▸ hround.wf hq)
          (by rw [hv₁]; omega) h
        rw [hv₁] at hl
        exact ⟨(v, .empty) :: rs, .cons hround (by simp) hl, by simp [ho]⟩

/-- **The world's steal is one attempt of the schedule**, returning an entity exactly when its
loop stole one. -/
theorem stealForeign_steal {k : Nat} {w' : World} {o : Option Entity}
    (hq : (w.worker k).victims.WF) (h : w.stealForeign k = (w', o)) :
    ∃ rs, (w.worker k).victims.Steal rs (w'.worker k).victims ∧
      (o.isSome ↔ ∃ v, (v, Reply.stolen) ∈ rs) := by
  unfold stealForeign at h
  dsimp only at h
  split at h
  · rename_i he
    simp only [Prod.mk.injEq] at h
    obtain ⟨rfl, rfl⟩ := h
    exact ⟨[], by simp [VictimQueue.Steal, he], by simp⟩
  · rename_i he
    have hk : k < w.workers.length := lt_length_of_victims (by simpa [VictimQueue.isEmpty] using he)
    have hw₁ := victims_modifyWorker_self hk (w.worker k).victims.tick
    obtain ⟨rs, hl, ho⟩ := stealDue_loop k _ _ (by rw [hw₁]; exact hq.tick)
      (by rw [hw₁]; exact List.countP_le_length) h
    rw [hw₁] at hl
    exact ⟨rs, by simp [VictimQueue.Steal, he, hl], ho⟩

end World

end Fibers
