import Fibers.Keyed
/-!
# Machine topology

A topology maps memory nodes, in ascending id order, to their cpus. Nodes without cpus
are dropped when a topology is built. Each cpu belongs to the greatest node whose list
holds it, and a cpu that no node lists is taken to be on node 0.
-/

namespace Fibers

/-- Memory nodes and their cpus. -/
structure Topology where
  /-- Node ids in ascending order, each with its cpus in the order given. -/
  nodeCores : List (Nat × List Nat)
  deriving Inhabited, Repr

namespace Topology

/-- The topology of an ascending map from node to cpus, without the nodes that have none. -/
def ofMap (m : List (Nat × List Nat)) : Topology :=
  ⟨m.filter (fun p => !p.2.isEmpty)⟩

/-- The topology of node and cpu pairs taken in order, a later pair of a node replacing
an earlier one. -/
def ofPairs (pairs : List (Nat × List Nat)) : Topology :=
  ofMap (pairs.foldl (fun m p => Keyed.set p.1 p.2 m) [])

/-- One node holding cpus `0` to `n - 1`. -/
def uniform (n : Nat) : Topology := ofMap [(0, List.range n)]

/-- The number of nodes. -/
def numNodes (t : Topology) : Nat := t.nodeCores.length

/-- Each listed cpu with its node, in ascending cpu order: the greatest node listing it. -/
def coreToNode (t : Topology) : List (Nat × Nat) :=
  t.nodeCores.foldl (fun m p => p.2.foldl (fun m c => Keyed.set c p.1 m) m) []

/-- The node of a cpu, or 0 for a cpu that no node lists. -/
def nodeOf (t : Topology) (cpu : Nat) : Nat := (t.coreToNode.lookup cpu).getD 0

end Topology

end Fibers
