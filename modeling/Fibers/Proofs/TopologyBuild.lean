import Mathlib
import Fibers.Topology.Basic
import Fibers.Proofs.StackConservation
/-!
# What a topology built from a node map holds

`Topology.ofMap` builds a topology from a map of node ids to cpu lists, given as the map's
entries in ascending node order. This module states, for every such map, everything the
result is (`Topology.ofMap_builtFrom`):

* the nodes are the map's entries whose list is not empty, the lists unchanged, and the node
  count is their number;
* the cpu table is keyed, in ascending order, by exactly the cpus that some list holds, and
  gives each cpu the greatest node whose list holds it: the table is written node after node
  in ascending order, and a later node overwrites an earlier one;
* `nodeOf` answers that node, and 0 for a cpu that no list holds;
* the lengths of the lists add up to the size of the table exactly when no cpu is listed
  twice, within one list or across two.

The last law is the one that fails for the lists a cpu-list text may give, which keep
duplicates and may overlap.

## Contents
1. Writing cpus into the table.
2. The greatest node of a cpu.
3. Counting cpus.
4. The laws of a built topology.
-/

namespace Fibers

namespace Topology

variable {m : List (Nat × List Nat)}

/-! ## 1. Writing cpus into the table -/

/-- Writing every cpu of a list to one node: a listed cpu now goes to that node. -/
theorem lookup_foldl_set (n c : Nat) : ∀ (cs : List Nat) (acc : List (Nat × Nat)),
    (cs.foldl (fun acc x => Keyed.set x n acc) acc).lookup c =
      if c ∈ cs then some n else acc.lookup c
  | [], acc => by simp
  | x :: cs, acc => by
    rw [List.foldl_cons, lookup_foldl_set n c cs]
    by_cases hc : c ∈ cs
    · simp [hc]
    · by_cases hx : c = x
      · subst hx
        simp [hc]
      · simp [hc, hx, Keyed.lookup_set_ne hx]

/-- Writing the lists of several nodes in turn: a cpu goes to the last node whose list holds
it, and otherwise keeps what the table gave it. -/
theorem lookup_foldl_nodes (c : Nat) : ∀ (L : List (Nat × List Nat)) (acc : List (Nat × Nat)),
    (L.foldl (fun acc p => p.2.foldl (fun acc x => Keyed.set x p.1 acc) acc) acc).lookup c =
      ((L.filter (fun p => c ∈ p.2)).map Prod.fst).getLast?.or (acc.lookup c)
  | [], acc => by simp
  | p :: L, acc => by
    rw [List.foldl_cons, lookup_foldl_nodes c L, lookup_foldl_set]
    by_cases hc : c ∈ p.2
    · cases hl : ((L.filter (fun p => c ∈ p.2)).map Prod.fst).getLast? <;>
        simp [hc, List.getLast?_cons, hl]
    · simp [hc]

theorem ascending_foldl_set (n : Nat) : ∀ (cs : List Nat) {acc : List (Nat × Nat)},
    Keyed.Ascending acc → Keyed.Ascending (cs.foldl (fun acc x => Keyed.set x n acc) acc)
  | [], _, h => h
  | _ :: cs, _, h => ascending_foldl_set n cs h.set

/-- The table is keyed in ascending cpu order. -/
theorem coreToNode_ascending (t : Topology) : Keyed.Ascending t.coreToNode := by
  suffices h : ∀ (L : List (Nat × List Nat)) {acc : List (Nat × Nat)}, Keyed.Ascending acc →
      Keyed.Ascending (L.foldl (fun acc p => p.2.foldl (fun acc x => Keyed.set x p.1 acc) acc) acc) from
    h t.nodeCores List.Pairwise.nil
  intro L
  induction L with
  | nil => exact id
  | cons p L ih => exact fun h => ih (ascending_foldl_set p.1 p.2 h)

/-! ## 2. The greatest node of a cpu -/

/-- On keys in ascending order the last is the greatest. -/
theorem getLast?_eq_max? : ∀ {ns : List Nat}, ns.Pairwise (· < ·) → ns.getLast? = ns.max?
  | [], _ => rfl
  | n :: ns, h => by
    obtain ⟨a, ha⟩ : ∃ a, (n :: ns).getLast? = some a :=
      Option.isSome_iff_exists.1 (List.getLast?_isSome.2 (List.cons_ne_nil n ns))
    rw [ha, eq_comm, List.max?_eq_some_iff]
    obtain ⟨ys, hys⟩ := List.getLast?_eq_some_iff.1 ha
    rw [hys] at h ⊢
    refine ⟨List.mem_append_right ys List.mem_cons_self, fun b hb => ?_⟩
    rcases List.mem_append.1 hb with hb | hb
    · exact Nat.le_of_lt ((List.pairwise_append.1 h).2.2 b hb a (List.mem_singleton_self a))
    · simp only [List.mem_singleton] at hb
      exact Nat.le_of_eq hb

/-- The nodes whose lists hold a cpu are those of the map: an empty list holds none. -/
theorem filter_mem_ofMap (c : Nat) :
    (ofMap m).nodeCores.filter (fun p => c ∈ p.2) = m.filter (fun p => c ∈ p.2) := by
  simp only [ofMap, List.filter_filter]
  congr 1
  funext p
  cases hp : p.2 with
  | nil => simp
  | cons x xs => simp

/-- The table gives a cpu the greatest node whose list holds it, none when no list does. -/
theorem lookup_coreToNode (hm : Keyed.Ascending m) (c : Nat) :
    (ofMap m).coreToNode.lookup c = ((m.filter (fun p => c ∈ p.2)).map Prod.fst).max? := by
  have hkeys : ((m.filter (fun p => c ∈ p.2)).map Prod.fst).Pairwise (· < ·) :=
    List.pairwise_map.2 (hm.sublist List.filter_sublist)
  rw [coreToNode, lookup_foldl_nodes, filter_mem_ofMap, getLast?_eq_max? hkeys]
  simp

/-- The table's keys are the cpus that some list holds. -/
theorem mem_coreToNode (c : Nat) :
    c ∈ (ofMap m).coreToNode.map Prod.fst ↔ ∃ p ∈ m, c ∈ p.2 := by
  have hsome : ((ofMap m).coreToNode.lookup c).isSome ↔ ∃ p ∈ m, c ∈ p.2 := by
    rw [coreToNode, lookup_foldl_nodes, filter_mem_ofMap]
    simp
  rw [← hsome, List.lookup_isSome_iff, List.mem_map]
  simp only [beq_iff_eq]
  exact ⟨fun ⟨p, hp, h⟩ => ⟨p, hp, h.symm⟩, fun ⟨p, hp, h⟩ => ⟨p, hp, h.symm⟩⟩

/-! ## 3. Counting cpus -/

/-- The cpus of the nodes, list after list. -/
def allCpus (t : Topology) : List Nat := (t.nodeCores.map Prod.snd).flatten

theorem mem_allCpus (c : Nat) : c ∈ (ofMap m).allCpus ↔ ∃ p ∈ m, c ∈ p.2 := by
  simp only [allCpus, ofMap, List.mem_flatten, List.mem_map, List.mem_filter]
  constructor
  · rintro ⟨_, ⟨p, ⟨hp, -⟩, rfl⟩, hc⟩
    exact ⟨p, hp, hc⟩
  · rintro ⟨p, hp, hc⟩
    exact ⟨p.2, ⟨p, ⟨hp, by simpa using List.ne_nil_of_mem hc⟩, rfl⟩, hc⟩

theorem length_allCpus (t : Topology) :
    t.allCpus.length = (t.nodeCores.map (fun p => p.2.length)).sum := by
  simp [allCpus, List.length_flatten, Function.comp_def]

/-- The table holds one entry per distinct cpu. -/
theorem length_coreToNode : (ofMap m).coreToNode.length = (ofMap m).allCpus.toFinset.card := by
  have hnd : ((ofMap m).coreToNode.map Prod.fst).Nodup :=
    (List.pairwise_map.2 (coreToNode_ascending (ofMap m))).imp Nat.ne_of_lt
  have hset : ((ofMap m).coreToNode.map Prod.fst).toFinset = (ofMap m).allCpus.toFinset := by
    ext c
    simp only [List.mem_toFinset]
    rw [mem_coreToNode, mem_allCpus]
  rw [← List.length_map Prod.fst, ← List.toFinset_card_of_nodup hnd, hset]

/-- The cpus are listed once each exactly when the lists hold no duplicate and no two share a
cpu. -/
theorem nodup_allCpus_iff (t : Topology) :
    t.allCpus.Nodup ↔
      (∀ p ∈ t.nodeCores, p.2.Nodup) ∧ t.nodeCores.Pairwise (fun a b => a.2.Disjoint b.2) := by
  rw [allCpus, List.nodup_flatten, List.pairwise_map, List.forall_mem_map]

/-! ## 4. The laws of a built topology -/

/-- What a topology built from the node map `m` holds. -/
structure BuiltFrom (m : List (Nat × List Nat)) (t : Topology) : Prop where
  /-- The nodes are the entries with cpus, their lists unchanged. -/
  nodes : t.nodeCores = m.filter (fun p => !p.2.isEmpty)
  numNodes : t.numNodes = (m.filter (fun p => !p.2.isEmpty)).length
  /-- The cpu table is keyed in ascending order. -/
  ascending : Keyed.Ascending t.coreToNode
  /-- Its keys are exactly the cpus that some list holds. -/
  keys : ∀ c, c ∈ t.coreToNode.map Prod.fst ↔ ∃ p ∈ m, c ∈ p.2
  /-- It gives each cpu the greatest node whose list holds it. -/
  lookup : ∀ c, t.coreToNode.lookup c = ((m.filter (fun p => c ∈ p.2)).map Prod.fst).max?
  /-- A cpu is on that node, or on node 0 when no list holds it. -/
  nodeOf : ∀ c, t.nodeOf c = (((m.filter (fun p => c ∈ p.2)).map Prod.fst).max?).getD 0
  /-- The lengths of the lists add up to the size of the table exactly when no cpu is listed
  twice. -/
  covers_once : (t.nodeCores.map (fun p => p.2.length)).sum = t.coreToNode.length ↔
    (∀ p ∈ t.nodeCores, p.2.Nodup) ∧ t.nodeCores.Pairwise (fun a b => a.2.Disjoint b.2)

/-- A topology built from a map of nodes to cpus, its entries in ascending node order, keeps
the nodes with cpus and sends each cpu to the greatest node listing it; its lists cover the
table once exactly when they are free of duplicates and pairwise disjoint. -/
theorem ofMap_builtFrom (hm : Keyed.Ascending m) : BuiltFrom m (ofMap m) where
  nodes := rfl
  numNodes := rfl
  ascending := coreToNode_ascending (ofMap m)
  keys := mem_coreToNode
  lookup := lookup_coreToNode hm
  nodeOf c := by rw [Topology.nodeOf, lookup_coreToNode hm]
  covers_once := by
    rw [← length_allCpus, length_coreToNode, ← nodup_allCpus_iff]
    constructor
    · intro h
      exact List.dedup_eq_self.1 ((List.dedup_sublist _).eq_of_length
        (by rw [← List.card_toFinset, h]))
    · intro h
      rw [List.toFinset_card_of_nodup h]

/-- Cpu 1 is listed by nodes 0 and 2 and goes to node 2; node 1 has no cpus and is dropped;
cpu 5 is listed by no node. -/
theorem ofMap_builtFrom_overlap :
    Keyed.Ascending [(0, [0, 1]), (1, []), (2, [1, 2])] ∧
      BuiltFrom [(0, [0, 1]), (1, []), (2, [1, 2])] (ofMap [(0, [0, 1]), (1, []), (2, [1, 2])]) :=
  ⟨by simp [Keyed.Ascending], ofMap_builtFrom (by simp [Keyed.Ascending])⟩

example : (ofMap [(0, [0, 1]), (1, []), (2, [1, 2])]).coreToNode = [(0, 0), (1, 2), (2, 2)] ∧
    (ofMap [(0, [0, 1]), (1, []), (2, [1, 2])]).nodeOf 5 = 0 := by
  decide

end Topology

end Fibers
