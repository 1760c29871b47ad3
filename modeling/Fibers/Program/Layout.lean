import Fibers.Plan
import Fibers.Text.Listing
import Fibers.Program.Output
/-!
# The layout report

The layout report describes a machine: its number of memory nodes, the node of each cpu,
the cpus of each node, and then the groups a runtime of the default configuration plans on
it, first without and then with memory-node awareness. Each group line gives the group's
id, its node, its number of workers and the cpus its workers may run on.

The default configuration asks the machine for its number of workers, so the report
takes the machine's cpu count with its topology. A plan that panics ends the report
there.
-/

namespace Fibers

namespace Layout

/-- The line of group `id`. -/
def groupLine (id : Nat) (p : GroupPlan) : String :=
  "  group " ++ toString id ++ ": node " ++ toString p.nodeId ++ ", " ++ toString p.workers ++
    " workers, cpus " ++ Text.listText p.affinity

/-- The lines describing topology `t`. -/
def machineLines (t : Topology) : List String :=
  [ "Detected " ++ toString t.numNodes ++ " NUMA nodes",
    "Core -> Node map: " ++
      Text.mapText (t.coreToNode.map (fun (c, n) => (toString c, toString n))),
    "Node -> Cores map: " ++
      Text.mapText (t.nodeCores.map (fun (n, cs) => (toString n, Text.listText cs))) ]

/-- The lines of the groups planned with or without memory-node awareness. -/
def planLines (t : Topology) (machine : Nat) (numaAware : Bool) :
    Except Abort (List String) := do
  let c : Config := { numaAware }
  let plans ← planGroups { c with concurrency := effectiveConcurrency c machine } t
  return ["", "Group layout (numa_aware = " ++ toString numaAware ++ "):"] ++
    (plans.zipIdx).map (fun (p, id) => groupLine id p)

/-- The report on a machine of topology `t` and `machine` cpus. -/
def run (t : Topology) (machine : Nat) : Output :=
  Output.sections (machineLines t) [] [planLines t machine false, planLines t machine true]

end Layout

end Fibers
