import Mathlib
import Fibers.Plan
import Fibers.Sched.Basic
import Fibers.Proofs.StackConservation
/-!
# What planning promises

`planGroups` cuts a runtime's workers into scheduling groups. This module states, for every
configuration with at least one worker and every topology whose nodes come in ascending
order (as every map of nodes to cpus gives them), everything a plan is:

* `splitEvenly` cuts a total into parts of `1..per`, the larger parts first and no two parts
  more than one apart, summing to the total (`sum_splitEvenly`, `splitEvenly_pairwise`).
* Planning fails only by the product `concurrency * allowed cpus` of some node passing the
  word, and only in the node-aware layout (`planGroups_eq_error_iff`).
* Every plan is a non-empty list of groups of `1..max 1 workersPerGroup` workers, so every
  group of a valid configuration gets a scheduler (`scheduler_create_ok`).
* The flat layout puts exactly `concurrency` workers on node 0 with the configured cpus.
* The node-aware layout follows the nodes in ascending order, gives each node with an
  allowed cpu at least one group pinned to exactly those cpus, and sums to less than
  `concurrency` plus the number of such nodes. Its shares are taken of all cpus, counted
  before the affinity applies, so the workers sum to `concurrency` times the fraction of
  cpus allowed, rounded up per node: at least `concurrency` when no cpu is filtered out,
  and fewer when the affinity leaves cpus out (`numa_layout_shortfall`).

## Contents
1. Splitting evenly.
2. Nodes, their allowed cpus and their shares.
3. The two layouts.
4. The laws of a plan.
-/

namespace Fibers

/-! ## 1. Splitting evenly -/

section Split

variable {total per : Nat}

/-- The parts cover the total: `splitCount` is the ceiling of `total / per`. -/
theorem le_splitCount_mul (hp : 0 < per) : total ≤ splitCount total per * per := by
  have h := Nat.div_add_mod (total + per - 1) per
  have hr := Nat.mod_lt (total + per - 1) hp
  rw [Nat.mul_comm] at h
  unfold splitCount
  omega

theorem splitCount_pos (hp : 0 < per) (ht : total ≠ 0) : 0 < splitCount total per :=
  Nat.div_pos (by omega) hp

/-- No more parts than the total: each part holds at least one. -/
theorem splitCount_le (hp : 0 < per) : splitCount total per ≤ total := by
  rcases Nat.eq_zero_or_pos total with rfl | ht
  · simp [splitCount, Nat.div_eq_of_lt (show per - 1 < per by omega)]
  · apply Nat.div_le_of_le_mul
    have h₁ : total - 1 ≤ per * (total - 1) := Nat.le_mul_of_pos_left (total - 1) hp
    have h₂ : per * (total - 1) + per = per * total := by
      rw [← Nat.mul_succ]; congr 1; omega
    omega

/-- A split is the larger parts, then the smaller ones. -/
theorem splitEvenly_eq_replicate (hp : 0 < per) (ht : total ≠ 0) :
    splitEvenly total per =
      List.replicate (total % splitCount total per) (total / splitCount total per + 1) ++
        List.replicate (splitCount total per - total % splitCount total per)
          (total / splitCount total per) := by
  have hm : total % splitCount total per < splitCount total per :=
    Nat.mod_lt total (splitCount_pos hp ht)
  simp only [splitEvenly, ht, if_false]
  apply List.ext_getElem
  · simp; omega
  · intro i h₁ h₂
    simp only [List.getElem_map, List.getElem_range, List.getElem_append, List.length_replicate,
      List.getElem_replicate]
    split_ifs <;> omega

theorem mem_splitEvenly {x : Nat} (hp : 0 < per) (hx : x ∈ splitEvenly total per) :
    1 ≤ x ∧ x ≤ per := by
  have ht : total ≠ 0 := by rintro rfl; simp [splitEvenly] at hx
  rw [splitEvenly_eq_replicate hp ht] at hx
  have hg : 0 < splitCount total per := splitCount_pos hp ht
  have hcover : total ≤ splitCount total per * per := le_splitCount_mul hp
  have hdm := Nat.div_add_mod total (splitCount total per)
  have hbase : 1 ≤ total / splitCount total per := (Nat.one_le_div_iff hg).2 (splitCount_le hp)
  have hle : total / splitCount total per ≤ per := Nat.div_le_of_le_mul hcover
  simp only [List.mem_append, List.mem_replicate] at hx
  rcases hx with ⟨hne, rfl⟩ | ⟨_, rfl⟩
  · -- a larger part exists only when the smaller ones stay below `per`
    refine ⟨by omega, ?_⟩
    by_contra hlt
    have : splitCount total per * per ≤ splitCount total per * (total / splitCount total per) :=
      Nat.mul_le_mul_left _ (by omega)
    omega
  · exact ⟨hbase, hle⟩

/-- A split sums to its total. -/
theorem sum_splitEvenly (hp : 0 < per) : (splitEvenly total per).sum = total := by
  rcases Nat.eq_zero_or_pos total with rfl | ht
  · simp [splitEvenly]
  rw [splitEvenly_eq_replicate hp (by omega)]
  have hm : total % splitCount total per < splitCount total per :=
    Nat.mod_lt total (splitCount_pos hp (by omega))
  have hdm := Nat.div_add_mod total (splitCount total per)
  have hsplit : total % splitCount total per * (total / splitCount total per) +
      (splitCount total per - total % splitCount total per) * (total / splitCount total per) =
      splitCount total per * (total / splitCount total per) := by
    rw [← Nat.add_mul, Nat.add_sub_cancel' hm.le]
  simp only [List.sum_append, List.sum_const_nat]
  rw [Nat.mul_add, Nat.mul_one]
  omega

theorem splitEvenly_ne_nil (hp : 0 < per) (ht : total ≠ 0) : splitEvenly total per ≠ [] := by
  intro h
  have := @sum_splitEvenly total per hp
  rw [h] at this
  simp at this
  omega

/-- The parts of a split never grow, and no two differ by more than one. -/
theorem splitEvenly_pairwise (total per : Nat) :
    (splitEvenly total per).Pairwise (fun a b => b ≤ a ∧ a ≤ b + 1) := by
  rcases Nat.eq_zero_or_pos per with rfl | hp
  · simp [splitEvenly, splitCount]
  rcases Nat.eq_zero_or_pos total with rfl | ht
  · simp [splitEvenly]
  rw [splitEvenly_eq_replicate hp (by omega)]
  simp only [List.pairwise_append, List.pairwise_replicate, List.mem_replicate]
  refine ⟨.inr ⟨le_refl _, by omega⟩, .inr ⟨le_refl _, by omega⟩, ?_⟩
  rintro a ⟨_, rfl⟩ b ⟨_, rfl⟩
  omega

end Split

/-! ## 2. Nodes, their allowed cpus and their shares -/

/-- The nodes of a list, each with its allowed cpus, those with none left out. -/
def allowedNodes (c : Config) (nodes : List (Nat × List Nat)) : List (Nat × List Nat) :=
  (nodes.map (fun p => (p.1, allowedCores c p.2))).filter (fun p => !p.2.isEmpty)

/-- The workers of a node with these allowed cpus among `cpusTotal` cpus: their part of
`concurrency`, rounded up, at least one. -/
def nodeShare (c : Config) (cpusTotal : Nat) (cores : List Nat) : Nat :=
  max ((c.concurrency * cores.length + max cpusTotal 1 - 1) / max cpusTotal 1) 1

/-- Some node's share takes its product past the word. -/
def Overflows (c : Config) (nodes : List (Nat × List Nat)) : Prop :=
  ∃ p ∈ allowedNodes c nodes, Nat.pow 2 64 ≤ c.concurrency * p.2.length

instance (c : Config) (nodes : List (Nat × List Nat)) : Decidable (Overflows c nodes) :=
  inferInstanceAs (Decidable (∃ p ∈ allowedNodes c nodes, _))

/-- The groups of nodes with the given cpus, node by node, each node's count split. -/
def splitNodes (per : Nat) (count : List Nat → Nat) (nodes : List (Nat × List Nat)) :
    List GroupPlan :=
  nodes.flatMap (fun p => (splitEvenly (count p.2) per).map (fun size => ⟨p.1, size, p.2⟩))

/-- The groups of every node with an allowed cpu, node by node, each node's share split. -/
def nodeLayout (c : Config) (cpusTotal per : Nat) (nodes : List (Nat × List Nat)) :
    List GroupPlan :=
  splitNodes per (nodeShare c cpusTotal) (allowedNodes c nodes)

section Nodes

variable {c : Config} {cpusTotal per : Nat} {p : Nat × List Nat} {nodes : List (Nat × List Nat)}

@[simp] theorem allowedNodes_nil : allowedNodes c [] = [] := rfl

theorem allowedNodes_cons_of_nil (h : allowedCores c p.2 = []) :
    allowedNodes c (p :: nodes) = allowedNodes c nodes := by
  simp [allowedNodes, h]

theorem allowedNodes_cons (h : allowedCores c p.2 ≠ []) :
    allowedNodes c (p :: nodes) = (p.1, allowedCores c p.2) :: allowedNodes c nodes := by
  simp [allowedNodes, h]

theorem nodeLayout_cons_of_nil (h : allowedCores c p.2 = []) :
    nodeLayout c cpusTotal per (p :: nodes) = nodeLayout c cpusTotal per nodes := by
  simp [nodeLayout, allowedNodes_cons_of_nil h]

theorem nodeLayout_cons (h : allowedCores c p.2 ≠ []) :
    nodeLayout c cpusTotal per (p :: nodes) =
      (splitEvenly (nodeShare c cpusTotal (allowedCores c p.2)) per).map
        (fun size => ⟨p.1, size, allowedCores c p.2⟩) ++ nodeLayout c cpusTotal per nodes := by
  simp [nodeLayout, splitNodes, allowedNodes_cons h]

theorem nodeGroups_of_nil (h : allowedCores c p.2 = []) : nodeGroups c cpusTotal per p = .ok [] := by
  simp [nodeGroups, h]

theorem nodeGroups_of_overflow (hne : allowedCores c p.2 ≠ [])
    (h : Nat.pow 2 64 ≤ c.concurrency * (allowedCores c p.2).length) :
    nodeGroups c cpusTotal per p = .error Abort.multiplyOverflow := by
  simp [nodeGroups, nodePlans, List.isEmpty_iff, hne, h]

theorem nodeGroups_of_fits (hne : allowedCores c p.2 ≠ [])
    (h : c.concurrency * (allowedCores c p.2).length < Nat.pow 2 64) :
    nodeGroups c cpusTotal per p =
      .ok ((splitEvenly (nodeShare c cpusTotal (allowedCores c p.2)) per).map
        (fun size => ⟨p.1, size, allowedCores c p.2⟩)) := by
  simp [nodeGroups, nodePlans, nodeShare, List.isEmpty_iff, hne, Nat.not_le.2 h]

/-- The groups of one more node, in front of the groups of the others. -/
theorem flatten_mapM_cons {g : List GroupPlan} (hp : nodeGroups c cpusTotal per p = .ok g) :
    List.flatten <$> (p :: nodes).mapM (nodeGroups c cpusTotal per) =
      (g ++ ·) <$> (List.flatten <$> nodes.mapM (nodeGroups c cpusTotal per)) := by
  rw [List.mapM_cons, hp, except_ok_bind]
  cases nodes.mapM (nodeGroups c cpusTotal per) <;> rfl

/-- With no share past the word, the node-aware groups are each node's split, in order. -/
theorem flatten_mapM_nodeGroups (h : ¬ Overflows c nodes) :
    List.flatten <$> nodes.mapM (nodeGroups c cpusTotal per) =
      .ok (nodeLayout c cpusTotal per nodes) := by
  induction nodes with
  | nil => rfl
  | cons p nodes ih =>
    by_cases hp : allowedCores c p.2 = []
    · have ih' := ih (fun ⟨q, hq, hle⟩ => h ⟨q, by rwa [allowedNodes_cons_of_nil hp], hle⟩)
      rw [flatten_mapM_cons (nodeGroups_of_nil hp), ih', nodeLayout_cons_of_nil hp]
      rfl
    · have hfit : c.concurrency * (allowedCores c p.2).length < Nat.pow 2 64 :=
        Nat.not_le.1 fun hle => h ⟨_, by rw [allowedNodes_cons hp]; exact List.mem_cons_self, hle⟩
      have ih' := ih (fun ⟨q, hq, hle⟩ =>
        h ⟨q, by rw [allowedNodes_cons hp]; exact List.mem_cons_of_mem _ hq, hle⟩)
      rw [flatten_mapM_cons (nodeGroups_of_fits hp hfit), ih', nodeLayout_cons hp]
      rfl

/-- A share past the word panics, whichever node it is. -/
theorem flatten_mapM_nodeGroups_error (h : Overflows c nodes) :
    List.flatten <$> nodes.mapM (nodeGroups c cpusTotal per) = .error Abort.multiplyOverflow := by
  induction nodes with
  | nil => obtain ⟨q, hq, -⟩ := h; simp at hq
  | cons p nodes ih =>
    obtain ⟨q, hq, hle⟩ := h
    by_cases hp : allowedCores c p.2 = []
    · rw [allowedNodes_cons_of_nil hp] at hq
      rw [flatten_mapM_cons (nodeGroups_of_nil hp), ih ⟨q, hq, hle⟩]
      rfl
    · by_cases hfit : c.concurrency * (allowedCores c p.2).length < Nat.pow 2 64
      · rw [allowedNodes_cons hp, List.mem_cons] at hq
        rcases hq with rfl | hq
        · exact absurd hle (Nat.not_le.2 hfit)
        rw [flatten_mapM_cons (nodeGroups_of_fits hp hfit), ih ⟨q, hq, hle⟩]
        rfl
      · rw [List.mapM_cons, nodeGroups_of_overflow hp (Nat.not_lt.1 hfit), except_error_bind]
        rfl

end Nodes

/-! ## 3. The two layouts -/

/-- Planning follows the machine's nodes: the configuration asks for it, the machine has
more than one node, and some node has an allowed cpu. -/
def NumaLayout (c : Config) (t : Topology) : Prop :=
  c.numaAware = true ∧ 1 < t.numNodes ∧ allowedNodes c t.nodeCores ≠ []

instance (c : Config) (t : Topology) : Decidable (NumaLayout c t) :=
  inferInstanceAs (Decidable (_ ∧ _ ∧ _))

section Layouts

variable {c : Config} {t : Topology}

theorem numaPlans_eq (c : Config) (t : Topology) (per : Nat) :
    numaPlans c t per = List.flatten <$> t.nodeCores.mapM (nodeGroups c t.cpuCount per) := rfl

theorem nodeLayout_eq_nil {cpusTotal per : Nat} {nodes : List (Nat × List Nat)}
    (h : allowedNodes c nodes = []) : nodeLayout c cpusTotal per nodes = [] := by
  simp [nodeLayout, splitNodes, h]

theorem nodeLayout_ne_nil {cpusTotal per : Nat} {nodes : List (Nat × List Nat)} (hp : 0 < per)
    (h : allowedNodes c nodes ≠ []) : nodeLayout c cpusTotal per nodes ≠ [] := by
  obtain ⟨q, rest, hq⟩ := List.exists_cons_of_ne_nil h
  have hs : splitEvenly (nodeShare c cpusTotal q.2) per ≠ [] :=
    splitEvenly_ne_nil hp (by simp [nodeShare])
  simp [nodeLayout, splitNodes, hq, hs]

/-- Outside the node-aware layout, the plan is the flat one. -/
theorem planGroups_of_flat (h : ¬ NumaLayout c t) :
    planGroups c t = .ok (flatPlans c (max c.workersPerGroup 1)) := by
  unfold planGroups
  split_ifs with hn
  · -- asked for, on several nodes, but no node has an allowed cpu: no node-aware plan
    have hnil : allowedNodes c t.nodeCores = [] := by
      by_contra hne
      exact h ⟨by simpa using hn.1, hn.2, hne⟩
    have hno : ¬ Overflows c t.nodeCores := fun ⟨q, hq, _⟩ => by simp [hnil] at hq
    simp only [numaPlans_eq, flatten_mapM_nodeGroups hno, nodeLayout_eq_nil hnil]
  · rfl

/-- In the node-aware layout, with no share past the word, the plan is each node's split. -/
theorem planGroups_of_numa (h : NumaLayout c t) (ho : ¬ Overflows c t.nodeCores) :
    planGroups c t = .ok (nodeLayout c t.cpuCount (max c.workersPerGroup 1) t.nodeCores) := by
  have hn : c.numaAware = true ∧ t.numNodes > 1 := ⟨h.1, h.2.1⟩
  have hne : nodeLayout c t.cpuCount (max c.workersPerGroup 1) t.nodeCores ≠ [] :=
    nodeLayout_ne_nil (by omega) h.2.2
  obtain ⟨q, rest, hq⟩ := List.exists_cons_of_ne_nil hne
  simp only [planGroups, hn, and_self, if_true, numaPlans_eq, flatten_mapM_nodeGroups ho, hq]

/-- A share past the word panics the node-aware layout. -/
theorem planGroups_of_overflow (h : c.numaAware = true ∧ 1 < t.numNodes)
    (ho : Overflows c t.nodeCores) : planGroups c t = .error Abort.multiplyOverflow := by
  have hn : c.numaAware = true ∧ t.numNodes > 1 := h
  simp only [planGroups, hn, and_self, if_true, numaPlans_eq, flatten_mapM_nodeGroups_error ho]

/-- Planning fails only by a node's product passing the word in the node-aware layout. -/
theorem planGroups_eq_error_iff {a : Abort} :
    planGroups c t = .error a ↔
      a = Abort.multiplyOverflow ∧ (c.numaAware = true ∧ 1 < t.numNodes) ∧ Overflows c t.nodeCores := by
  by_cases hn : c.numaAware = true ∧ 1 < t.numNodes
  · by_cases ho : Overflows c t.nodeCores
    · rw [planGroups_of_overflow hn ho]
      simp [hn, ho, eq_comm]
    · by_cases hl : NumaLayout c t
      · rw [planGroups_of_numa hl ho]; simp [ho]
      · rw [planGroups_of_flat hl]; simp [ho]
  · rw [planGroups_of_flat (fun h => hn ⟨h.1, h.2.1⟩)]
    simp [hn]

end Layouts

/-! ## 4. The laws of a plan -/

section Groups

variable {per : Nat} {count : List Nat → Nat} {nodes : List (Nat × List Nat)}

theorem mem_splitNodes {q : GroupPlan} :
    q ∈ splitNodes per count nodes ↔
      ∃ p ∈ nodes, q.workers ∈ splitEvenly (count p.2) per ∧ q.nodeId = p.1 ∧ q.affinity = p.2 := by
  simp only [splitNodes, List.mem_flatMap, List.mem_map]
  constructor
  · rintro ⟨p, hp, s, hs, rfl⟩
    exact ⟨p, hp, hs, rfl, rfl⟩
  · rintro ⟨p, hp, hs, hn, ha⟩
    exact ⟨p, hp, q.workers, hs, by cases q; simp_all⟩

theorem sum_splitNodes (hp : 0 < per) :
    ((splitNodes per count nodes).map GroupPlan.workers).sum = (nodes.map (fun p => count p.2)).sum := by
  induction nodes with
  | nil => rfl
  | cons p nodes ih =>
    simp only [splitNodes, List.flatMap_cons, List.map_append, List.sum_append, List.map_cons,
      List.sum_cons] at ih ⊢
    rw [ih, List.map_map]
    simp [Function.comp_def, sum_splitEvenly hp]

/-- Nodes in ascending order give groups in ascending node order. -/
theorem nodeIds_splitNodes (hs : nodes.Pairwise (fun a b => a.1 < b.1)) :
    ((splitNodes per count nodes).map GroupPlan.nodeId).Pairwise (· ≤ ·) := by
  rw [splitNodes, List.map_flatMap, List.pairwise_flatMap]
  refine ⟨fun p _ => ?_, ?_⟩
  · simp [List.map_map, Function.comp_def, List.pairwise_replicate]
  · refine hs.imp fun {a b} hab => ?_
    simp only [List.map_map, Function.comp_def, List.map_const', List.mem_replicate]
    rintro x ⟨_, rfl⟩ y ⟨_, rfl⟩
    exact hab.le

/-- With distinct nodes, the groups of any one node are one split. -/
theorem filter_splitNodes (hs : nodes.Pairwise (fun a b => a.1 < b.1)) (n : Nat) :
    ∃ k, ((splitNodes per count nodes).filter (fun q => q.nodeId = n)).map GroupPlan.workers =
      splitEvenly k per := by
  induction nodes with
  | nil => exact ⟨0, by simp [splitNodes, splitEvenly]⟩
  | cons p nodes ih =>
    rw [List.pairwise_cons] at hs
    have hsplit : ((splitEvenly (count p.2) per).map (fun size => (⟨p.1, size, p.2⟩ : GroupPlan))).map
        GroupPlan.workers = splitEvenly (count p.2) per := by
      simp [List.map_map, Function.comp_def]
    rw [splitNodes, List.flatMap_cons, List.filter_append]
    by_cases hn : p.1 = n
    · -- this node's groups all match, and no later node is `n`
      refine ⟨count p.2, ?_⟩
      have hrest : (splitNodes per count nodes).filter (fun q => q.nodeId = n) = [] := by
        rw [List.filter_eq_nil_iff]
        intro q hq
        obtain ⟨p', hp', -, hq', -⟩ := mem_splitNodes.1 hq
        have := hs.1 p' hp'
        simp only [decide_eq_true_eq]
        omega
      rw [← splitNodes, hrest, List.append_nil, List.filter_eq_self.2 (by simp [hn]), hsplit]
    · obtain ⟨k, hk⟩ := ih hs.2
      refine ⟨k, ?_⟩
      rw [List.filter_eq_nil_iff.2 (by simp [hn]), List.nil_append, ← splitNodes, hk]

theorem splitNodes_sized (hp : 0 < per) {q : GroupPlan} (hq : q ∈ splitNodes per count nodes) :
    1 ≤ q.workers ∧ q.workers ≤ per := by
  obtain ⟨p, -, hs, -, -⟩ := mem_splitNodes.1 hq
  exact mem_splitEvenly hp hs

theorem splitNodes_even (hs : nodes.Pairwise (fun a b => a.1 < b.1)) (n : Nat) :
    (((splitNodes per count nodes).filter (fun q => q.nodeId = n)).map GroupPlan.workers).Pairwise
      (fun a b => b ≤ a ∧ a ≤ b + 1) := by
  obtain ⟨k, hk⟩ := filter_splitNodes hs n
  rw [hk]
  exact splitEvenly_pairwise k per

end Groups

namespace Topology

theorem ofMap_ascending {m : List (Nat × List Nat)} (h : Keyed.Ascending m) :
    Keyed.Ascending (ofMap m).nodeCores :=
  List.Pairwise.filter _ h

/-- A topology built from node and cpu pairs lists its nodes in ascending order. -/
theorem ofPairs_ascending (pairs : List (Nat × List Nat)) : Keyed.Ascending (ofPairs pairs).nodeCores := by
  apply ofMap_ascending
  suffices h : ∀ m : List (Nat × List Nat), Keyed.Ascending m →
      Keyed.Ascending (pairs.foldl (fun m p => Keyed.set p.1 p.2 m) m) from
    h [] List.Pairwise.nil
  induction pairs with
  | nil => exact fun _ h => h
  | cons p pairs ih => exact fun _ h => ih _ h.set

end Topology

section Shares

variable {c : Config} {cpusTotal : Nat} {cores : List Nat}

/-- A ceiling share times the divisor reaches the numerator. -/
theorem le_ceil_mul {a d : Nat} (hd : 0 < d) : a ≤ (a + d - 1) / d * d := by
  have h := Nat.div_add_mod (a + d - 1) d
  have hr := Nat.mod_lt (a + d - 1) hd
  rw [Nat.mul_comm] at h
  omega

/-- ... and stays below the numerator plus the divisor. -/
theorem ceil_mul_lt {a d : Nat} (hd : 0 < d) : (a + d - 1) / d * d < a + d := by
  have h := Nat.div_mul_le_self (a + d - 1) d
  omega

theorem nodeShare_eq (hc : 0 < c.concurrency) (hne : cores ≠ []) :
    nodeShare c cpusTotal cores =
      (c.concurrency * cores.length + max cpusTotal 1 - 1) / max cpusTotal 1 := by
  have hlen : 0 < cores.length := List.length_pos_iff.2 hne
  have hpos : 1 ≤ c.concurrency * cores.length := Nat.mul_pos hc hlen
  have : 1 ≤ (c.concurrency * cores.length + max cpusTotal 1 - 1) / max cpusTotal 1 :=
    (Nat.one_le_div_iff (by omega)).2 (by omega)
  simp only [nodeShare]
  omega

/-- A node's share, times all cpus, covers its allowed cpus' part of the workers... -/
theorem le_nodeShare_mul (hc : 0 < c.concurrency) (hne : cores ≠ []) :
    c.concurrency * cores.length ≤ nodeShare c cpusTotal cores * max cpusTotal 1 := by
  rw [nodeShare_eq hc hne]
  exact le_ceil_mul (by omega)

/-- ... by less than one share. -/
theorem nodeShare_mul_lt (hc : 0 < c.concurrency) (hne : cores ≠ []) :
    nodeShare c cpusTotal cores * max cpusTotal 1 < c.concurrency * cores.length + max cpusTotal 1 := by
  rw [nodeShare_eq hc hne]
  exact ceil_mul_lt (by omega)

theorem mem_allowedNodes {p : Nat × List Nat} {nodes : List (Nat × List Nat)}
    (h : p ∈ allowedNodes c nodes) : p.2 ≠ [] := by
  simp only [allowedNodes, List.mem_filter] at h
  simpa using h.2

theorem allowedNodes_ascending {nodes : List (Nat × List Nat)} (h : Keyed.Ascending nodes) :
    (allowedNodes c nodes).Pairwise (fun a b => a.1 < b.1) := by
  have h' : nodes.Pairwise (fun a b => a.1 < b.1) := h
  unfold allowedNodes
  exact (h'.map (fun p : Nat × List Nat => (p.1, allowedCores c p.2))
    (fun _ _ hab => hab)).filter _

/-- No node allows more cpus than it has. -/
theorem allowed_le_cpus (nodes : List (Nat × List Nat)) :
    ((allowedNodes c nodes).map (fun p => p.2.length)).sum ≤ (nodes.map (fun p => p.2.length)).sum := by
  induction nodes with
  | nil => simp
  | cons p nodes ih =>
    have hle : (allowedCores c p.2).length ≤ p.2.length := by
      unfold allowedCores; split_ifs
      · exact le_refl _
      · exact List.length_filter_le _ _
    by_cases hp : allowedCores c p.2 = []
    · rw [allowedNodes_cons_of_nil hp]; simp; omega
    · rw [allowedNodes_cons hp]; simp; omega

theorem cpuCount_eq (t : Topology) : t.cpuCount = (t.nodeCores.map (fun p => p.2.length)).sum := rfl

/-- The shares of nodes, times all cpus, cover `concurrency` times their cpus... -/
theorem shares_cover (cpusTotal : Nat) (hc : 0 < c.concurrency) {nodes : List (Nat × List Nat)}
    (hn : ∀ p ∈ nodes, p.2 ≠ []) :
    c.concurrency * (nodes.map (fun p => p.2.length)).sum ≤
      (nodes.map (fun p => nodeShare c cpusTotal p.2)).sum * max cpusTotal 1 := by
  rw [← List.sum_map_mul_left, ← List.sum_map_mul_right]
  exact List.sum_le_sum fun p hp => le_nodeShare_mul hc (hn p hp)

/-- ... by less than one share per node. -/
theorem shares_below (cpusTotal : Nat) (hc : 0 < c.concurrency) {nodes : List (Nat × List Nat)}
    (hn : ∀ p ∈ nodes, p.2 ≠ []) (hne : nodes ≠ []) :
    (nodes.map (fun p => nodeShare c cpusTotal p.2)).sum * max cpusTotal 1 <
      c.concurrency * (nodes.map (fun p => p.2.length)).sum + nodes.length * max cpusTotal 1 := by
  have hconst : (nodes.map (fun _ => max cpusTotal 1)).sum = nodes.length * max cpusTotal 1 := by
    rw [List.map_const', List.sum_const_nat]
  rw [← List.sum_map_mul_left, ← List.sum_map_mul_right, ← hconst, ← List.sum_map_add]
  exact List.sum_lt_sum_of_ne_nil hne _ _ fun p hp => nodeShare_mul_lt hc (hn p hp)

end Shares

/-- The cpus the configuration allows, over every node. -/
def allowedCpuCount (c : Config) (t : Topology) : Nat :=
  ((allowedNodes c t.nodeCores).map (fun p => p.2.length)).sum

/-- What a plan of configuration `c` on machine `t` is. -/
structure PlanLaws (c : Config) (t : Topology) (plans : List GroupPlan) : Prop where
  nonempty : plans ≠ []
  /-- Every group has between one and `max 1 workersPerGroup` workers. -/
  sized : ∀ p ∈ plans, 1 ≤ p.workers ∧ p.workers ≤ max c.workersPerGroup 1
  /-- The groups of a node are one split: their sizes never grow and differ by at most one. -/
  even : ∀ n, ((plans.filter (fun p => p.nodeId = n)).map GroupPlan.workers).Pairwise
    (fun a b => b ≤ a ∧ a ≤ b + 1)
  /-- A valid configuration gives every group a scheduler. -/
  schedulers : c.validate = .ok () → ∀ p ∈ plans, ∃ s, Scheduler.create c p.workers = .ok s
  /-- The flat layout: exactly `concurrency` workers, on node 0 with the configured cpus. -/
  flat : ¬ NumaLayout c t →
    (plans.map GroupPlan.workers).sum = c.concurrency ∧
      ∀ p ∈ plans, p.nodeId = 0 ∧ p.affinity = c.cpuAffinity
  /-- The node-aware layout: groups in ascending node order... -/
  ascending : NumaLayout c t → (plans.map GroupPlan.nodeId).Pairwise (· ≤ ·)
  /-- ... pinned to exactly the allowed cpus of their node, each such node having one... -/
  pinned : NumaLayout c t → ∀ node cores,
    (node, cores) ∈ allowedNodes c t.nodeCores ↔ ∃ p ∈ plans, p.nodeId = node ∧ p.affinity = cores
  /-- ... fewer workers than `concurrency` plus one per such node... -/
  below : NumaLayout c t →
    (plans.map GroupPlan.workers).sum < c.concurrency + (allowedNodes c t.nodeCores).length
  /-- ... and, times all cpus, at least `concurrency` times the allowed cpus. -/
  covers : NumaLayout c t →
    c.concurrency * allowedCpuCount c t ≤ (plans.map GroupPlan.workers).sum * max t.cpuCount 1

/-- A valid configuration accepts every group size from one to its `workersPerGroup`. -/
theorem scheduler_create_ok {c : Config} {size : Nat} (hv : c.validate = .ok ()) (h1 : 1 ≤ size)
    (h2 : size ≤ max c.workersPerGroup 1) : ∃ s, Scheduler.create c size = .ok s := by
  unfold Config.validate at hv
  split_ifs at hv with hs hw hq hr hk
  have hknown : c.scheduling = "v1" ∨ c.scheduling = "v2" := by
    simp only [Config.knownScheduling] at hk
    by_cases h1' : c.scheduling = "v1"
    · exact .inl h1'
    · exact .inr (by simpa [h1'] using hk)
  have hcap : ¬ c.runQueueCapacity > Nat.pow 2 63 := hr
  have hsize : ¬ (size = 0 ∨ size > maxGroupSize) := by simp only [maxGroupSize]; omega
  rcases hknown with h1' | h2'
  · simp [Scheduler.create, SharedQueue.create, h1', hcap, hsize]
  · simp [Scheduler.create, h2', Nat.ne_of_gt h1]

/-- The flat plan keeps every law. -/
theorem flatPlans_laws {c : Config} {t : Topology} (hc : 0 < c.concurrency) (hl : ¬ NumaLayout c t) :
    PlanLaws c t (flatPlans c (max c.workersPerGroup 1)) := by
  have hp : 0 < max c.workersPerGroup 1 := by omega
  have heq : flatPlans c (max c.workersPerGroup 1) =
      splitNodes (max c.workersPerGroup 1) (fun _ => c.concurrency) [(0, c.cpuAffinity)] := by
    simp [flatPlans, splitNodes]
  have hsized : ∀ p ∈ flatPlans c (max c.workersPerGroup 1),
      1 ≤ p.workers ∧ p.workers ≤ max c.workersPerGroup 1 := by
    rw [heq]; exact fun p hp' => splitNodes_sized hp hp'
  refine ⟨?_, hsized, ?_, fun hv p hp' => scheduler_create_ok hv (hsized p hp').1 (hsized p hp').2,
    fun _ => ⟨?_, ?_⟩, fun h => absurd h hl, fun h => absurd h hl, fun h => absurd h hl,
    fun h => absurd h hl⟩
  · simpa [flatPlans] using splitEvenly_ne_nil hp (Nat.ne_of_gt hc)
  · rw [heq]; exact splitNodes_even (by simp)
  · rw [heq, sum_splitNodes hp]; simp
  · intro p hp'
    rw [heq] at hp'
    obtain ⟨q, hq, -, hn, ha⟩ := mem_splitNodes.1 hp'
    simp only [List.mem_singleton] at hq
    subst hq
    exact ⟨hn, ha⟩

/-- The node-aware plan keeps every law. -/
theorem nodeLayout_laws {c : Config} {t : Topology} (hc : 0 < c.concurrency)
    (ht : Keyed.Ascending t.nodeCores) (hl : NumaLayout c t) :
    PlanLaws c t (nodeLayout c t.cpuCount (max c.workersPerGroup 1) t.nodeCores) := by
  have hp : 0 < max c.workersPerGroup 1 := by omega
  have hs : (allowedNodes c t.nodeCores).Pairwise (fun a b => a.1 < b.1) :=
    allowedNodes_ascending ht
  have hn : ∀ p ∈ allowedNodes c t.nodeCores, p.2 ≠ [] := fun p hp' => mem_allowedNodes hp'
  have hsized : ∀ p ∈ nodeLayout c t.cpuCount (max c.workersPerGroup 1) t.nodeCores,
      1 ≤ p.workers ∧ p.workers ≤ max c.workersPerGroup 1 :=
    fun p hp' => splitNodes_sized hp hp'
  have hsum : ((nodeLayout c t.cpuCount (max c.workersPerGroup 1) t.nodeCores).map
      GroupPlan.workers).sum = ((allowedNodes c t.nodeCores).map (fun p => nodeShare c t.cpuCount p.2)).sum :=
    sum_splitNodes hp
  refine ⟨nodeLayout_ne_nil hp hl.2.2, hsized, splitNodes_even hs,
    fun hv p hp' => scheduler_create_ok hv (hsized p hp').1 (hsized p hp').2,
    fun h => absurd hl h, fun _ => nodeIds_splitNodes hs, fun _ node cores => ⟨?_, ?_⟩,
    fun _ => ?_, fun _ => ?_⟩
  · intro hmem
    have hsplit : splitEvenly (nodeShare c t.cpuCount cores) (max c.workersPerGroup 1) ≠ [] :=
      splitEvenly_ne_nil hp (by simp [nodeShare])
    obtain ⟨s, hs'⟩ := List.exists_mem_of_ne_nil _ hsplit
    exact ⟨⟨node, s, cores⟩, mem_splitNodes.2 ⟨(node, cores), hmem, hs', rfl, rfl⟩, rfl, rfl⟩
  · rintro ⟨q, hq, rfl, rfl⟩
    obtain ⟨p, hp', -, hn', ha'⟩ := mem_splitNodes.1 hq
    rw [hn', ha']
    exact hp'
  · -- the allowed cpus are at most all cpus, so the shares stay below `concurrency` per node
    have hb := shares_below t.cpuCount hc hn hl.2.2
    have hle : ((allowedNodes c t.nodeCores).map (fun p => p.2.length)).sum ≤ max t.cpuCount 1 :=
      (allowed_le_cpus t.nodeCores).trans (by rw [cpuCount_eq]; omega)
    have hmul := Nat.mul_le_mul_left c.concurrency hle
    have key : ((allowedNodes c t.nodeCores).map (fun p => nodeShare c t.cpuCount p.2)).sum *
        max t.cpuCount 1 < (c.concurrency + (allowedNodes c t.nodeCores).length) * max t.cpuCount 1 := by
      rw [Nat.add_mul]
      omega
    rw [hsum]
    exact Nat.lt_of_mul_lt_mul_right key
  · rw [hsum]
    exact shares_cover t.cpuCount hc hn

/-- What planning does for `c` on machine `t`: it fails only by a node's product passing the
word in the node-aware layout, and every plan it gives keeps the laws. -/
def Planned (c : Config) (t : Topology) : Prop :=
  (∀ a, planGroups c t = .error a ↔
    a = Abort.multiplyOverflow ∧ (c.numaAware = true ∧ 1 < t.numNodes) ∧ Overflows c t.nodeCores) ∧
  ∀ plans, planGroups c t = .ok plans → PlanLaws c t plans

/-- **Planning.** For a configuration with at least one worker, on a machine whose nodes come
in ascending order, planning is `Planned`. -/
theorem planGroups_laws (c : Config) (t : Topology) (ht : Keyed.Ascending t.nodeCores)
    (hc : 0 < c.concurrency) : Planned c t := by
  refine ⟨fun _ => planGroups_eq_error_iff, fun plans h => ?_⟩
  by_cases hl : NumaLayout c t
  · have ho : ¬ Overflows c t.nodeCores := fun ho => by
      rw [planGroups_of_overflow ⟨hl.1, hl.2.1⟩ ho] at h
      cases h
    rw [planGroups_of_numa hl ho, Except.ok.injEq] at h
    subst h
    exact nodeLayout_laws hc ht hl
  · rw [planGroups_of_flat hl, Except.ok.injEq] at h
    subst h
    exact flatPlans_laws hc hl

/-- Two nodes of four cpus each, eight workers in groups of four. -/
theorem planGroups_laws_two_nodes :
    Keyed.Ascending (Topology.ofPairs [(0, [0, 1, 2, 3]), (1, [4, 5, 6, 7])]).nodeCores ∧
    0 < ({ concurrency := 8, numaAware := true, workersPerGroup := 4 } : Config).concurrency ∧
    Planned { concurrency := 8, numaAware := true, workersPerGroup := 4 }
      (Topology.ofPairs [(0, [0, 1, 2, 3]), (1, [4, 5, 6, 7])]) :=
  ⟨Topology.ofPairs_ascending _, by decide,
    planGroups_laws _ _ (Topology.ofPairs_ascending _) (by decide)⟩

/-- With two of sixteen cpus allowed, the node-aware layout plans three workers where
twenty-four were asked for: shares are taken of all cpus, before the affinity applies. -/
theorem numa_layout_shortfall :
    NumaLayout { concurrency := 24, cpuAffinity := [11, 5], numaAware := true, workersPerGroup := 9 }
      (Topology.ofPairs [(0, [2, 3, 4, 7, 9, 10, 12, 14]), (2, [0, 1, 5, 6, 8, 11, 13, 15])]) ∧
    planGroups { concurrency := 24, cpuAffinity := [11, 5], numaAware := true, workersPerGroup := 9 }
      (Topology.ofPairs [(0, [2, 3, 4, 7, 9, 10, 12, 14]), (2, [0, 1, 5, 6, 8, 11, 13, 15])]) =
      .ok [⟨2, 3, [5, 11]⟩] :=
  ⟨by decide, rfl⟩

end Fibers
