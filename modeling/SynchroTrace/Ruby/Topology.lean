import SynchroTrace.Garnet.Router

/-!
Controller `c` is switch `c` where it sends and switch `c + nodes` where it receives, and router `r`
is switch `r + 2 * nodes`, as in the source.
-/

namespace SynchroTrace.Ruby
open Garnet

def infiniteLatency : Int := 10000

structure BasicLink where
  latency : Int
  weight : Int
  deriving DecidableEq, Repr

structure BasicExtLink extends BasicLink where
  cntrlId : Nat
  routerId : Nat
  deriving DecidableEq, Repr

structure BasicIntLink extends BasicLink where
  nodeA : Nat
  nodeB : Nat
  deriving DecidableEq, Repr

/-- The parameters of a `Topology` that its constructor accepts. -/
structure Topology (m : Machines) where
  numRouters : Nat
  extLinks : List BasicExtLink
  intLinks : List BasicIntLink
  nodes_gt_one : 1 < m.nodes
  extLinks_length : extLinks.length = m.nodes
  extLinks_bound : ∀ link ∈ extLinks, link.cntrlId < m.nodes ∧ link.routerId < numRouters
  intLinks_bound : ∀ link ∈ intLinks, link.nodeA < numRouters ∧ link.nodeB < numRouters

/-- `m_link_map`: the last link that was added between two switches counts. -/
abbrev LinkMap := List ((Nat × Nat) × BasicLink)

namespace LinkMap

variable (map : LinkMap)

def addLink (src dest : Nat) (link : BasicLink) : LinkMap :=
  ((src, dest), link) :: map

def maxSwitchId : Nat :=
  map.foldl (fun id entry => max (max id entry.1.1) entry.1.2) 0

def numSwitches : Nat := map.maxSwitchId + 1

end LinkMap

abbrev Matrix := Nat → Nat → Int

def Matrix.set (matrix : Matrix) (i j : Nat) (value : Int) : Matrix :=
  Function.update matrix i (Function.update (matrix i) j value)

/-- The sum over a third switch, an `int`. -/
def Matrix.through (matrix : Matrix) (i k j : Nat) : Int := (matrix i k + matrix k j).bmod (2 ^ 32)

inductive Topology.Fault where
  | intermediateSwitch
  | makeLink
  | rounds
  deriving DecidableEq, Repr

namespace Topology

structure Paths where
  currentDist : Matrix
  latencies : Matrix
  interSwitches : Matrix

structure Scan where
  minimum : Int
  previousMinimum : Int
  intermediateSwitch : Option Nat
  interSwitches : Matrix

def Scan.visit (dist : Matrix) (i j : Nat) (scan : Scan) (k : Nat) : Scan :=
  let minimum := min scan.minimum (dist.through i k j)
  let scan := { scan with minimum }
  let scan := if scan.previousMinimum ≠ minimum then
    { scan with
      intermediateSwitch := some k
      interSwitches := scan.interSwitches.set i j
        ((scan.interSwitches i k + scan.interSwitches k j + 1).bmod (2 ^ 32)) }
    else scan
  { scan with previousMinimum := minimum }

def Paths.scan (nodes i j : Nat) (paths : Paths) : Scan :=
  let start := paths.currentDist i j
  (List.range nodes).foldl (Scan.visit paths.currentDist i j)
    ⟨start, start, none, paths.interSwitches⟩

def relax (nodes i : Nat) (state : Paths × Bool) (j : Nat) : Except Fault (Paths × Bool) :=
  let (paths, change) := state
  let scan := paths.scan nodes i j
  let paths := { paths with interSwitches := scan.interSwitches }
  if paths.currentDist i j ≠ scan.minimum then
    match scan.intermediateSwitch with
    | none => .error .intermediateSwitch
    | some k =>
      if k < nodes then
        .ok ({ paths with
          currentDist := paths.currentDist.set i j scan.minimum
          latencies := paths.latencies.set i j (paths.latencies.through i k j) }, true)
      else .error .intermediateSwitch
  else .ok (paths, change)

def pass (nodes : Nat) (paths : Paths) : Except Fault (Paths × Bool) :=
  (List.range nodes).foldlM (fun state i => (List.range nodes).foldlM (relax nodes i) state)
    (paths, false)

def extendShortestPath (nodes : Nat) : (rounds : Nat) → Paths → Except Fault Paths
  | 0, _ => .error .rounds
  | rounds + 1, paths => do
    let (paths, change) ← pass nodes paths
    if change then extendShortestPath nodes rounds paths else pure paths

def linkIsShortestPathToNode (src next final : Nat) (weights dist : Matrix) : Bool :=
  (weights src next + dist next final).bmod (2 ^ 32) = dist src final

variable {m : Machines}

def shortestPathToNode (m : Machines) (src next : Nat) (weights dist : Matrix) : NetDest m :=
  (m.all.filter fun id =>
    linkIsShortestPathToNode src next (id.nodeID + m.nodes) weights dist).toFinset

variable (t : Topology m)

def linkMap : LinkMap :=
  let nodes := m.nodes
  let ext := t.extLinks.foldl (fun (map : LinkMap) link =>
    (map.addLink link.cntrlId (link.routerId + 2 * nodes) link.toBasicLink).addLink
      (link.routerId + 2 * nodes) (link.cntrlId + nodes) link.toBasicLink) []
  t.intLinks.foldl (fun (map : LinkMap) link =>
    (map.addLink (link.nodeA + 2 * nodes) (link.nodeB + 2 * nodes) link.toBasicLink).addLink
      (link.nodeB + 2 * nodes) (link.nodeA + 2 * nodes) link.toBasicLink) ext

def topologyWeights : Matrix := fun i j =>
  match t.linkMap.lookup (i, j) with
  | some link => link.weight
  | none => if i = j then 0 else infiniteLatency

def components : Paths where
  currentDist := t.topologyWeights
  latencies i j := (t.linkMap.lookup (i, j)).elim (-1) BasicLink.latency
  interSwitches _ _ := 0

/-- An output port of a router: the switch that its link leads to, the destinations that
`RoutingUnit_d` has for it and its weight. -/
structure OutPort (m : Machines) where
  dest : Nat
  entry : NetDest m
  weight : Int

structure Links (m : Machines) where
  outPorts : Nat → List (OutPort m)

def Links.addOutPort (links : Links m) (router : Nat) (port : OutPort m) : Links m :=
  { outPorts := Function.update links.outPorts router (links.outPorts router ++ [port]) }

/-- `makeLink`, with what `makeInLink`, `makeOutLink` and `makeInternalLink` of the network do. A
link from a controller is no output port of a router. -/
def makeLink (t : Topology m) (links : Links m) (src dest : Nat) (entry : NetDest m) :
    Except Fault (Links m) :=
  let nodes := m.nodes
  let weight := (t.linkMap.lookup (src, dest)).elim 0 BasicLink.weight
  if ¬ (2 * nodes ≤ src ∨ 2 * nodes ≤ dest) then .error .makeLink
  else if src < nodes then .ok links
  else if dest < 2 * nodes then
    if nodes ≤ dest ∧ dest - nodes < nodes ∧ src - 2 * nodes < t.numRouters then
      .ok (links.addOutPort (src - 2 * nodes) ⟨dest, entry, weight⟩)
    else .error .makeLink
  else if 2 * nodes ≤ src ∧ 2 * nodes ≤ dest then
    .ok (links.addOutPort (src - 2 * nodes) ⟨dest, entry, weight⟩)
  else .error .makeLink

def hookUp (dist : Matrix) (i : Nat) (links : Links m) (j : Nat) : Except Fault (Links m) :=
  let weight := t.topologyWeights i j
  if 0 < weight ∧ weight ≠ infiniteLatency then
    t.makeLink links i j (shortestPathToNode m i j t.topologyWeights dist)
  else .ok links

def createLinks (rounds : Nat) : Except Fault (Links m) := do
  let switches := t.linkMap.numSwitches
  let paths ← extendShortestPath switches rounds t.components
  (List.range switches).foldlM (fun links i =>
    (List.range switches).foldlM (t.hookUp paths.currentDist i) links) ⟨fun _ => []⟩

end Topology

end SynchroTrace.Ruby
