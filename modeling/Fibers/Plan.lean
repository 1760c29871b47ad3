import Fibers.Config.Basic
import Fibers.Topology.Basic
/-!
# Planning scheduling groups

The workers of a runtime are cut into scheduling groups of at most `workersPerGroup`
workers each, with sizes as even as possible (`splitEvenly`). When the configuration asks
for memory-node awareness and the machine has more than one node, every node with an
allowed cpu gets its own groups, with workers in proportion to its share of all cpus,
rounded up and at least one; otherwise all groups are on node 0 with the configured cpus.
-/

namespace Fibers

/-- One planned scheduling group. -/
structure GroupPlan where
  nodeId : Nat
  workers : Nat
  /-- The cpus its workers may run on; empty means all. -/
  affinity : List Nat
  deriving Inhabited, BEq, Repr

/-- The fewest parts of at most `per` each that `total` can be cut into: the ceiling of
`total / per`. -/
def splitCount (total per : Nat) : Nat := (total + per - 1) / per

/-- `total` cut into the fewest parts of at most `per` each, the first parts one larger
than the others when the parts cannot be equal. -/
def splitEvenly (total per : Nat) : List Nat :=
  if total = 0 then []
  else
    let groups := splitCount total per
    (List.range groups).map (fun i => total / groups + if i < total % groups then 1 else 0)

/-- The cpus of a node that the configuration allows: all of them when it sets no affinity. -/
def allowedCores (c : Config) (cores : List Nat) : List Nat :=
  if c.cpuAffinity.isEmpty then cores else cores.filter (c.cpuAffinity.contains ·)

/-- The cpus of every node, counted before any affinity applies. -/
def Topology.cpuCount (t : Topology) : Nat := (t.nodeCores.map (fun p => p.2.length)).foldr (· + ·) 0

/-- The groups of a node with these allowed cpus, for `total` workers among `cpusTotal`
cpus; a product past the word panics. -/
def nodePlans (total cpusTotal per node : Nat) (cores : List Nat) :
    Except Abort (List GroupPlan) :=
  let product := total * cores.length
  if product ≥ Nat.pow 2 64 then .error Abort.multiplyOverflow
  else
    let workers := max ((product + max cpusTotal 1 - 1) / max cpusTotal 1) 1
    .ok ((splitEvenly workers per).map (fun size => ⟨node, size, cores⟩))

/-- The groups of one node of the machine: none when no cpu of the node is allowed. -/
def nodeGroups (c : Config) (cpusTotal per : Nat) (p : Nat × List Nat) :
    Except Abort (List GroupPlan) :=
  let cores := allowedCores c p.2
  if cores.isEmpty then .ok [] else nodePlans c.concurrency cpusTotal per p.1 cores

/-- The plans of every node with an allowed cpu, in the topology's node order; the first
node whose share overflows panics. -/
def numaPlans (c : Config) (t : Topology) (per : Nat) : Except Abort (List GroupPlan) :=
  List.flatten <$> t.nodeCores.mapM (nodeGroups c t.cpuCount per)

/-- The groups of a runtime that ignores the machine's nodes: all on node 0, with the
configured cpus. -/
def flatPlans (c : Config) (per : Nat) : List GroupPlan :=
  (splitEvenly c.concurrency per).map (fun size => ⟨0, size, c.cpuAffinity⟩)

/-- The worker count a configuration asks for, `0` meaning the machine's. -/
def effectiveConcurrency (c : Config) (machine : Nat) : Nat :=
  if c.concurrency = 0 then machine else c.concurrency

/-- The groups of a runtime of `c.concurrency` workers on a machine of topology `t`. -/
def planGroups (c : Config) (t : Topology) : Except Abort (List GroupPlan) :=
  let per := max c.workersPerGroup 1
  if c.numaAware ∧ t.numNodes > 1 then
    match numaPlans c t per with
    | .error a => .error a
    | .ok [] => .ok (flatPlans c per)
    | .ok plans => .ok plans
  else .ok (flatPlans c per)

end Fibers
