import Mathlib.Tactic.FinCases
import SynchroTrace.Garnet.Multicast
import SynchroTrace.Ruby.ShortestPaths

namespace SynchroTrace.Garnet

section RouteCompute
variable {cfg : Config} {r port : Nat} {dest : NetDest cfg.machines}

/-- What the loop of `routeCompute` has found among the ports it has visited. -/
inductive Best (dest : NetDest cfg.machines) (visited : List ((NetDest cfg.machines × Nat) × Nat)) :
    Option Nat × Nat → Prop
  | none (far : ∀ entry ∈ visited, dest ∩ entry.1.1 ≠ ∅ → infinite ≤ entry.1.2) :
      Best dest visited (none, infinite)
  | some (entry : (NetDest cfg.machines × Nat) × Nat) (member : entry ∈ visited)
      (meets : dest ∩ entry.1.1 ≠ ∅) : Best dest visited (some entry.2, entry.1.2)

/-- The loop has found a port of the table that leads to the destination, unless all of those weigh
too much. -/
theorem best_routeCompute (r : Nat) (dest : NetDest cfg.machines) :
    ∃ weight, Best dest (cfg.routingTable r).zipIdx (routeCompute r dest, weight) := by
  let improve (best : Option Nat × Nat) (entry : (NetDest cfg.machines × Nat) × Nat) :=
    if dest ∩ entry.1.1 ≠ ∅ ∧ entry.1.2 < best.2 then (some entry.2, entry.1.2) else best
  have visits : ∀ (before after : List ((NetDest cfg.machines × Nat) × Nat)) best,
      Best dest before best → Best dest (before ++ after) (after.foldl improve best) := by
    intro before after
    induction after generalizing before with
    | nil => simp
    | cons entry rest ih =>
      intro best found
      have step : Best dest (before ++ [entry]) (improve best entry) := by
        by_cases better : dest ∩ entry.1.1 ≠ ∅ ∧ entry.1.2 < best.2
        · rw [show improve best entry = (some entry.2, entry.1.2) from if_pos better]
          exact .some entry (by simp) better.1
        · rw [show improve best entry = best from if_neg better]
          cases found with
          | none far =>
            refine .none fun other member meets => ?_
            obtain member | rfl := by simpa using member
            · exact far other member meets
            · exact Nat.not_lt.mp fun less => better ⟨meets, less⟩
          | some other member meets => exact .some other (List.mem_append_left _ member) meets
      simpa using ih (before ++ [entry]) _ step
  exact ⟨_, visits [] _ _ (.none (by simp))⟩

theorem routeCompute_some (h : routeCompute r dest = some port) :
    ∃ entry weight, (cfg.routingTable r)[port]? = some (entry, weight) ∧ dest ∩ entry ≠ ∅ := by
  obtain ⟨weight, best⟩ := best_routeCompute r dest
  rw [h] at best
  cases best with
  | some entry member meets =>
    exact ⟨entry.1.1, entry.1.2, List.mem_zipIdx_iff_getElem?.mp member, meets⟩

theorem exists_routeCompute {entry : NetDest cfg.machines} {weight : Nat}
    (member : (entry, weight) ∈ cfg.routingTable r) (meets : dest ∩ entry ≠ ∅)
    (light : weight < infinite) : ∃ port, routeCompute r dest = some port := by
  obtain ⟨_, best⟩ := best_routeCompute r dest
  match found : routeCompute r dest with
  | some port => exact ⟨port, rfl⟩
  | none =>
    rw [found] at best
    cases best with
    | none far =>
      obtain ⟨place, there⟩ := List.mem_iff_getElem?.mp member
      have := far ((entry, weight), place) (List.mem_zipIdx_iff_getElem?.mpr there) meets
      exact absurd light (Nat.not_lt.mpr this)

end RouteCompute

end SynchroTrace.Garnet

namespace SynchroTrace.Ruby.Topology
open Garnet Walks

variable {m : Machines} {t : Topology m} {i j k : Nat}

def routerSwitch (m : Machines) (r : Nat) : Nat := r + 2 * m.nodes

def nodeSwitch (id : MachineID m) : Nat := id.nodeID + m.nodes

def Linked (t : Topology m) (i j : Nat) : Prop := (t.linkMap.lookup (i, j)).isSome

instance (t : Topology m) (i j : Nat) : Decidable (t.Linked i j) :=
  inferInstanceAs (Decidable (_ = true))

def weight (t : Topology m) (i j : Nat) : Int :=
  (t.linkMap.lookup (i, j)).elim 0 BasicLink.weight

structure Positive (t : Topology m) : Prop where
  extLinks : ∀ link ∈ t.extLinks, 0 < link.weight
  intLinks : ∀ link ∈ t.intLinks, 0 < link.weight

/-- The sum of two weights is an `int`. -/
structure Light (t : Topology m) : Prop where
  extLinks : ∀ link ∈ t.extLinks, link.weight < 2 ^ 30
  intLinks : ∀ link ∈ t.intLinks, link.weight < 2 ^ 30

/-- The total weight of a shortest path from a router to a controller is below the infinite one. -/
def Reaches (t : Topology m) : Prop :=
  ∀ r < t.numRouters, ∀ id : MachineID m,
    ∃ c ∈ costs t.Linked t.weight (routerSwitch m r) (nodeSwitch id), c < infiniteLatency

theorem nodeID_lt (id : MachineID m) : id.nodeID < m.nodes := by
  have own := Machines.baseNumber_succ id.1
  have later := Machines.baseNumber_mono (m := m) (show id.1.val + 1 ≤ m.numTypes from id.1.isLt)
  have := id.2.isLt
  simp only [MachineID.nodeID, Machines.nodes]
  omega

inductive Form (t : Topology m) : Nat × Nat → BasicLink → Prop
  | into (link : BasicExtLink) (member : link ∈ t.extLinks) :
      Form t (link.cntrlId, link.routerId + 2 * m.nodes) link.toBasicLink
  | out (link : BasicExtLink) (member : link ∈ t.extLinks) :
      Form t (link.routerId + 2 * m.nodes, link.cntrlId + m.nodes) link.toBasicLink
  | forth (link : BasicIntLink) (member : link ∈ t.intLinks) :
      Form t (link.nodeA + 2 * m.nodes, link.nodeB + 2 * m.nodes) link.toBasicLink
  | back (link : BasicIntLink) (member : link ∈ t.intLinks) :
      Form t (link.nodeB + 2 * m.nodes, link.nodeA + 2 * m.nodes) link.toBasicLink

variable {entry : (Nat × Nat) × BasicLink}

theorem form_of_mem (member : entry ∈ t.linkMap) :
    Form t entry.1 entry.2 := by
  have adds : ∀ {α : Type} (links : List α) (add : LinkMap → α → LinkMap) (map : LinkMap),
      (∀ entry ∈ map, Form t entry.1 entry.2) →
      (∀ link ∈ links, ∀ map : LinkMap, (∀ entry ∈ map, Form t entry.1 entry.2) →
        ∀ entry ∈ add map link, Form t entry.1 entry.2) →
      ∀ entry ∈ links.foldl add map, Form t entry.1 entry.2 := by
    intro α links add map start step
    exact List.foldlRecOn links add start fun map forms link member => step link member map forms
  refine adds _ _ _ (adds _ _ _ (by simp) ?_) ?_ entry member
  · intro link member map forms entry added
    simp only [LinkMap.addLink, List.mem_cons] at added
    obtain rfl | rfl | added := added
    · exact .out link member
    · exact .into link member
    · exact forms entry added
  · intro link member map forms entry added
    simp only [LinkMap.addLink, List.mem_cons] at added
    obtain rfl | rfl | added := added
    · exact .back link member
    · exact .forth link member
    · exact forms entry added

theorem mem_of_lookup {map : LinkMap} {key : Nat × Nat} {link : BasicLink}
    (found : map.lookup key = some link) : (key, link) ∈ map := by
  induction map with
  | nil => cases found
  | cons entry rest ih =>
    obtain ⟨key', link'⟩ := entry
    rw [List.lookup_cons] at found
    split at found
    · rename_i same
      cases found
      rw [beq_iff_eq.mp same]
      exact List.mem_cons_self
    · exact List.mem_cons_of_mem _ (ih found)

theorem Linked.form (linked : t.Linked i j) :
    ∃ link, Form t (i, j) link ∧ t.weight i j = link.weight ∧
      t.topologyWeights i j = link.weight := by
  obtain ⟨link, found⟩ := Option.isSome_iff_exists.mp linked
  refine ⟨link, form_of_mem (mem_of_lookup found), ?_, ?_⟩
  · simp [weight, found]
  · simp [topologyWeights, found]

theorem weight_eq (linked : t.Linked i j) : t.topologyWeights i j = t.weight i j := by
  obtain ⟨link, -, weight, entry⟩ := linked.form
  rw [weight, entry]

theorem Linked.weight_of {P : Int → Prop} (linked : t.Linked i j)
    (extLinks : ∀ link ∈ t.extLinks, P link.weight)
    (intLinks : ∀ link ∈ t.intLinks, P link.weight) : P (t.weight i j) := by
  obtain ⟨link, form, same, -⟩ := linked.form
  rw [same]
  cases form with
  | into link member => exact extLinks link member
  | out link member => exact extLinks link member
  | forth link member => exact intLinks link member
  | back link member => exact intLinks link member

theorem Positive.weight_pos (positive : t.Positive) (linked : t.Linked i j) : 0 < t.weight i j :=
  linked.weight_of positive.extLinks positive.intLinks

theorem Light.weight_lt (light : t.Light) (linked : t.Linked i j) : t.weight i j < 2 ^ 30 :=
  linked.weight_of (P := (· < 2 ^ 30)) light.extLinks light.intLinks

theorem weights_unlinked (unlinked : ¬ t.Linked i j) :
    t.topologyWeights i j = if i = j then 0 else infiniteLatency := by
  have missing : t.linkMap.lookup (i, j) = none := Option.not_isSome_iff_eq_none.mp unlinked
  simp [topologyWeights, missing]

theorem Positive.represents (positive : t.Positive) (light : t.Light) :
    Represents t.Linked t.weight t.topologyWeights where
  light i j := by
    by_cases linked : t.Linked i j
    · rw [weight_eq linked]
      exact light.weight_lt linked
    · rw [weights_unlinked linked]
      split_ifs <;> decide
  nonneg i j := by
    by_cases linked : t.Linked i j
    · rw [weight_eq linked]
      exact (positive.weight_pos linked).le
    · rw [weights_unlinked linked]
      split_ifs <;> decide
  attained i j := by
    intro finite
    by_cases linked : t.Linked i j
    · exact ⟨[j], .cons linked .nil, by simp [weight_eq linked]⟩
    · rw [weights_unlinked linked] at finite ⊢
      split_ifs at finite ⊢ with same
      · subst same
        exact ⟨[], .nil, rfl⟩
      · exact absurd finite (lt_irrefl _)
  linked i j linked := (weight_eq linked).le

theorem le_maxSwitchId {map : LinkMap} (member : entry ∈ map) :
    entry.1.1 ≤ map.maxSwitchId ∧ entry.1.2 ≤ map.maxSwitchId := by
  have bound : ∀ (map : LinkMap) (id : Nat),
      let top := map.foldl (fun id entry => max (max id entry.1.1) entry.1.2) id
      id ≤ top ∧ ∀ entry ∈ map, entry.1.1 ≤ top ∧ entry.1.2 ≤ top := by
    intro map
    induction map with
    | nil => simp
    | cons first rest ih =>
      intro id
      obtain ⟨above, later⟩ := ih (max (max id first.1.1) first.1.2)
      simp only [List.foldl_cons, List.forall_mem_cons]
      refine ⟨by omega, ⟨by omega, by omega⟩, later⟩
  exact (bound map 0).2 entry member

theorem Linked.lt_numSwitches (linked : t.Linked i j) :
    i < t.linkMap.numSwitches ∧ j < t.linkMap.numSwitches := by
  obtain ⟨link, found⟩ := Option.isSome_iff_exists.mp linked
  obtain ⟨src, dest⟩ := le_maxSwitchId (mem_of_lookup found)
  exact ⟨Nat.lt_succ_of_le src, Nat.lt_succ_of_le dest⟩

variable {dist : Matrix} {links : Links m} {r : Nat}

/-- A port of a router is for a link of it, with the destinations that are nearer by its weight. -/
structure Leads (t : Topology m) (dist : Matrix) (r : Nat) (port : OutPort m) : Prop where
  linked : t.Linked (routerSwitch m r) port.dest
  weight : port.weight = t.weight (routerSwitch m r) port.dest
  entry : port.entry = shortestPathToNode m (routerSwitch m r) port.dest t.topologyWeights dist

/-- What the body of the loop of `createLinks` does. -/
inductive HookedUp (t : Topology m) (dist : Matrix) (i j : Nat) (links : Links m) : Links m → Prop
  | skipped (none : ∀ r, i = routerSwitch m r → t.Linked i j → t.weight i j = infiniteLatency) :
      HookedUp t dist i j links links
  | added (r : Nat) (port : OutPort m) (leads : Leads t dist r port) (src : i = routerSwitch m r)
      (dest : j = port.dest) : HookedUp t dist i j links (links.addOutPort r port)

theorem exists_makeLink (linked : t.Linked i j) (dist : Matrix) (links : Links m) :
    ∃ next, t.makeLink links i j (shortestPathToNode m i j t.topologyWeights dist) = .ok next ∧
      HookedUp t dist i j links next := by
  have same : (t.linkMap.lookup (i, j)).elim 0 BasicLink.weight = t.weight i j := rfl
  obtain ⟨link, form, -⟩ := linked.form
  have added : ∀ r dest, i = routerSwitch m r → j = dest → HookedUp t dist i j links
      (links.addOutPort r ⟨dest, shortestPathToNode m i j t.topologyWeights dist,
        t.weight i j⟩) := by
    rintro r dest rfl rfl
    exact .added r _ ⟨linked, rfl, rfl⟩ rfl rfl
  cases form with
  | into link member =>
    have bound := t.extLinks_bound link member
    refine ⟨links, ?_, .skipped fun r src _ => ?_⟩
    · unfold makeLink
      rw [if_neg (by omega), if_pos bound.1]
    · unfold routerSwitch at src
      omega
  | out link member =>
    have bound := t.extLinks_bound link member
    refine ⟨_, ?_, added link.routerId _ rfl rfl⟩
    unfold makeLink
    simp only [same, Nat.add_sub_cancel]
    rw [if_neg (by omega), if_neg (by omega), if_pos (by omega), if_pos (by omega)]
  | forth link member =>
    refine ⟨_, ?_, added link.nodeA _ rfl rfl⟩
    unfold makeLink
    simp only [same, Nat.add_sub_cancel]
    rw [if_neg (by omega), if_neg (by omega), if_neg (by omega), if_pos (by omega)]
  | back link member =>
    refine ⟨_, ?_, added link.nodeB _ rfl rfl⟩
    unfold makeLink
    simp only [same, Nat.add_sub_cancel]
    rw [if_neg (by omega), if_neg (by omega), if_neg (by omega), if_pos (by omega)]

theorem exists_hookUp (t : Topology m) (positive : t.Positive) (dist : Matrix) (i j : Nat)
    (links : Links m) :
    ∃ next, t.hookUp dist i links j = .ok next ∧ HookedUp t dist i j links next := by
  unfold hookUp
  dsimp only
  by_cases linked : t.Linked i j
  · have pos := positive.weight_pos linked
    rw [weight_eq linked]
    by_cases finite : t.weight i j = infiniteLatency
    · rw [if_neg fun h => h.2 finite]
      exact ⟨links, rfl, .skipped fun _ _ _ => finite⟩
    · rw [if_pos ⟨pos, finite⟩]
      exact exists_makeLink linked dist links
  · refine ⟨links, ?_, .skipped fun _ _ here => absurd here linked⟩
    rw [weights_unlinked linked, if_neg]
    split_ifs <;> decide

theorem hookUp_ok (positive : t.Positive) {next : Links m}
    (h : t.hookUp dist i links j = .ok next) : HookedUp t dist i j links next := by
  obtain ⟨_, same, hooked⟩ := exists_hookUp t positive dist i j links
  rw [h] at same
  cases same
  exact hooked

section
variable {next : Links m} (hooked : HookedUp t dist i j links next)
include hooked

theorem HookedUp.leads (before : ∀ r, ∀ port ∈ links.outPorts r, Leads t dist r port) :
    ∀ r, ∀ port ∈ next.outPorts r, Leads t dist r port := by
  cases hooked with
  | skipped => exact before
  | added r port leads src dest =>
    intro r' port' member
    by_cases here : r' = r
    · subst here
      obtain member | rfl := by simpa [Links.addOutPort] using member
      · exact before r' port' member
      · exact leads
    · exact before r' port' (by simpa [Links.addOutPort, here] using member)

theorem HookedUp.keeps (before : ∃ port ∈ links.outPorts r, port.dest = k) :
    ∃ port ∈ next.outPorts r, port.dest = k := by
  obtain ⟨port, member, there⟩ := before
  refine ⟨port, ?_, there⟩
  cases hooked with
  | skipped => exact member
  | added r' port' =>
    by_cases here : r = r'
    · subst here
      simp [Links.addOutPort, member]
    · simpa [Links.addOutPort, here] using member

theorem HookedUp.makes (src : i = routerSwitch m r) (linked : t.Linked i j)
    (finite : t.weight i j ≠ infiniteLatency) :
    ∃ port ∈ next.outPorts r, port.dest = j := by
  cases hooked with
  | skipped none => exact absurd (none r src linked) finite
  | added r' port leads src' dest =>
    obtain rfl : r = r' := by
      simp only [routerSwitch] at src src'
      omega
    exact ⟨port, by simp [Links.addOutPort], dest.symm⟩

end

structure Wired (t : Topology m) (dist : Matrix) (links : Links m) : Prop where
  attained : Attained t.Linked t.weight t.topologyWeights dist
  closed : Closed t.linkMap.numSwitches dist
  leads : ∀ r, ∀ port ∈ links.outPorts r, Leads t dist r port
  weights : ∀ i j, t.Linked i j → 0 < t.weight i j ∧ t.weight i j < 2 ^ 30
  ports : ∀ r j, t.Linked (routerSwitch m r) j → t.weight (routerSwitch m r) j ≠ infiniteLatency →
    ∃ port ∈ links.outPorts r, port.dest = j

theorem exists_createLinks (positive : t.Positive) (light : t.Light) :
    ∃ dist links rounds, Wired t dist links ∧
      ∀ more, rounds ≤ more → t.createLinks more = .ok links := by
  obtain ⟨rounds, final, attained, closed, ends⟩ :=
    exists_shortestPath t.linkMap.numSwitches (positive.represents light)
      t.components.latencies t.components.interSwitches
  have total : ∃ links, (List.range t.linkMap.numSwitches).foldlM (fun links i =>
      (List.range t.linkMap.numSwitches).foldlM (t.hookUp final.currentDist i) links)
        ⟨fun _ => []⟩ = .ok links := by
    refine Outcome.foldlM_total (fun i _ links => ?_) _
    refine Outcome.foldlM_total (fun j _ links => ?_) _
    exact (exists_hookUp t positive _ i j links).imp fun _ both => both.1
  obtain ⟨links, hooked⟩ := total
  refine ⟨final.currentDist, links, rounds, ⟨attained, closed, ?_, fun i j linked =>
    ⟨positive.weight_pos linked, light.weight_lt linked⟩, ?_⟩,
    fun more enough => ?_⟩
  · refine Outcome.foldlM_invariant (fun links => ∀ r, ∀ port ∈ Links.outPorts links r,
      Leads t final.currentDist r port) (fun i _ before after inv row => ?_) (by simp) hooked
    exact Outcome.foldlM_invariant (fun links => ∀ r, ∀ port ∈ Links.outPorts links r,
      Leads t final.currentDist r port)
      (fun j _ before after inv step => (hookUp_ok positive step).leads inv) inv row
  · intro r j linked finite
    have bound := linked.lt_numSwitches
    have keep : ∀ i before after, (∃ port ∈ Links.outPorts before r, port.dest = j) →
        (List.range t.linkMap.numSwitches).foldlM (t.hookUp final.currentDist i) before =
          .ok after → ∃ port ∈ Links.outPorts after r, port.dest = j := by
      intro i before after made row
      exact Outcome.foldlM_invariant (fun links => ∃ port ∈ Links.outPorts links r, port.dest = j)
        (fun _ _ _ _ made step => (hookUp_ok positive step).keeps made) made row
    refine Outcome.foldlM_establish (fun links => ∃ port ∈ Links.outPorts links r, port.dest = j)
      (List.mem_range.mpr bound.1) (fun before after row => ?_)
      (fun i _ before after => keep i before after) hooked
    exact Outcome.foldlM_establish (fun links => ∃ port ∈ Links.outPorts links r, port.dest = j)
      (List.mem_range.mpr bound.2)
      (fun _ _ step => (hookUp_ok positive step).makes rfl linked finite)
      (fun _ _ _ _ made step => (hookUp_ok positive step).keeps made) row
  · simp only [createLinks]
    rw [show t.components = ⟨t.topologyWeights, t.components.latencies,
      t.components.interSwitches⟩ from rfl, ends more enough]
    exact hooked

def withPorts (cfg : Garnet.Config) (links : Links cfg.machines) : Garnet.Config :=
  { cfg with
    numOutports := fun r => (links.outPorts r).length
    routingTable := fun r => (links.outPorts r).map fun port => (port.entry, port.weight.toNat) }

def nextHop (cfg : Garnet.Config) (links : Links cfg.machines) (id : MachineID cfg.machines) (r : Nat) :
    Option (OutPort cfg.machines) := do
  let port ← @routeCompute (withPorts cfg links) r {id}
  (links.outPorts r)[port]?

def travel (cfg : Garnet.Config) (links : Links cfg.machines) (id : MachineID cfg.machines) :
    (hops : Nat) → (switch : Nat) → Option (List Nat)
  | 0, switch => if switch = nodeSwitch id then some [] else none
  | hops + 1, switch =>
    if switch = nodeSwitch id then some []
    else do
      let port ← nextHop cfg links id (switch - 2 * cfg.machines.nodes)
      let rest ← travel cfg links id hops port.dest
      some (port.dest :: rest)

section Travel
variable {cfg : Garnet.Config} {t : Topology cfg.machines} {dist : Matrix} {links : Links cfg.machines}
  {id : MachineID cfg.machines} {r : Nat} {port : OutPort cfg.machines}

variable {m : Machines}

theorem mem_shortestPathToNode {src next : Nat} {weights dist : Matrix}
    {id : MachineID m} : id ∈ shortestPathToNode m src next weights dist ↔
      (weights src next + dist next (nodeSwitch id)).bmod (2 ^ 32) = dist src (nodeSwitch id) := by
  simp [shortestPathToNode, linkIsShortestPathToNode, Machines.mem_all, nodeSwitch]

theorem routerSwitch_ne_nodeSwitch (r : Nat) (id : MachineID m) :
    routerSwitch m r ≠ nodeSwitch id := by
  have := nodeID_lt id
  simp only [routerSwitch, nodeSwitch]
  omega

theorem not_linked_node {t : Topology m} {c j : Nat} (bound : c < m.nodes) :
    ¬ t.Linked (c + m.nodes) j := by
  intro linked
  obtain ⟨link, form, -⟩ := linked.form
  generalize src : (c + m.nodes, j) = key at form
  cases form with
  | into link member =>
    have := (t.extLinks_bound link member).1
    simp only [Prod.mk.injEq] at src
    omega
  | _ =>
    simp only [Prod.mk.injEq] at src
    omega

theorem Wired.sum (wired : Wired t dist links) {i k : Nat} (linked : t.Linked i k) (j : Nat) :
    (t.topologyWeights i k + dist k j).bmod (2 ^ 32) = t.weight i k + dist k j := by
  have weight := wired.weights i k linked
  have nonneg := wired.attained.nonneg k j
  have light := wired.attained.light k j
  rw [weight_eq linked]
  exact Int.bmod_eq_of_le (by omega) (by omega)

theorem Wired.potential (wired : Wired t dist links)
    (inside : nodeSwitch id < t.linkMap.numSwitches) :
    Potential t.Linked t.weight (dist · (nodeSwitch id)) (nodeSwitch id) where
  step i k linked := by
    obtain ⟨boundI, boundK⟩ := linked.lt_numSwitches
    have leg := wired.attained.below i k
    rw [weight_eq linked] at leg
    have := wired.closed i boundI _ inside k boundK
    rw [wired.attained.through] at this
    omega
  target := by
    have below := wired.attained.below (nodeSwitch id) (nodeSwitch id)
    have unlinked : ¬ t.Linked (nodeSwitch id) (nodeSwitch id) := not_linked_node (nodeID_lt id)
    rw [weights_unlinked unlinked, if_pos rfl] at below
    exact le_antisymm below (wired.attained.nonneg _ _)

theorem Wired.descends (wired : Wired t dist links) (h : nextHop cfg links id r = some port) :
    Descends t.Linked t.weight (dist · (nodeSwitch id)) (routerSwitch cfg.machines r) port.dest ∧
      port.weight = t.weight (routerSwitch cfg.machines r) port.dest := by
  obtain ⟨number, computed, found⟩ := Option.bind_eq_some_iff.mp h
  obtain ⟨entry, weight, there, meets⟩ := routeCompute_some computed
  have leads := wired.leads r port (List.mem_of_getElem? found)
  have same : port.entry = entry := by
    change ((links.outPorts r).map fun port => (port.entry, port.weight.toNat))[number]? = _ at there
    simp only [List.getElem?_map, found, Option.map_some] at there
    exact congrArg Prod.fst (Option.some.inj there)
  have member : id ∈ port.entry := by
    obtain ⟨id', member⟩ := Finset.nonempty_iff_ne_empty.mpr meets
    obtain ⟨here, there⟩ := Finset.mem_inter.mp member
    obtain rfl := Finset.mem_singleton.mp here
    exact same ▸ there
  rw [leads.entry] at member
  have exact' := mem_shortestPathToNode.mp member
  rw [wired.sum leads.linked] at exact'
  exact ⟨⟨leads.linked, exact'⟩, leads.weight⟩

theorem Wired.exists_nextHop (wired : Wired t dist links) (positive : t.Positive)
    (inside : nodeSwitch id < t.linkMap.numSwitches)
    (near : dist (routerSwitch cfg.machines r) (nodeSwitch id) < infiniteLatency) :
    ∃ port, nextHop cfg links id r = some port := by
  obtain ⟨k, linked, exact'⟩ := (wired.potential inside).exists_next
    (wired.attained.attained _ _ near) (routerSwitch_ne_nodeSwitch r id)
  have pos := positive.weight_pos linked
  have rest := wired.attained.nonneg k (nodeSwitch id)
  have light : t.weight (routerSwitch cfg.machines r) k < infiniteLatency := by omega
  obtain ⟨port, member, rfl⟩ := wired.ports r k linked light.ne
  have leads := wired.leads r port member
  have serves : id ∈ port.entry := by
    rw [leads.entry, mem_shortestPathToNode, wired.sum linked]
    exact exact'
  have row : (port.entry, port.weight.toNat) ∈ (withPorts cfg links).routingTable r :=
    List.mem_map_of_mem member
  have meets : ({id} : NetDest cfg.machines) ∩ port.entry ≠ ∅ :=
    Finset.nonempty_iff_ne_empty.mp ⟨id, Finset.mem_inter.mpr ⟨Finset.mem_singleton_self _, serves⟩⟩
  have small : port.weight.toNat < infinite := by
    rw [leads.weight]
    simp only [infiniteLatency, infinite] at light ⊢
    omega
  obtain ⟨number, computed⟩ := exists_routeCompute row meets small
  obtain ⟨entry, weight, there, -⟩ := routeCompute_some computed
  have bound : number < (links.outPorts r).length := by
    simpa [withPorts] using (List.getElem?_eq_some_iff.mp there).1
  exact ⟨(links.outPorts r)[number], Option.bind_eq_some_iff.mpr
    ⟨number, computed, List.getElem?_eq_getElem bound⟩⟩

def Hop (cfg : Garnet.Config) (links : Links cfg.machines) (id : MachineID cfg.machines) (i k : Nat) :
    Prop :=
  ∃ r port, i = routerSwitch cfg.machines r ∧ nextHop cfg links id r = some port ∧ port.dest = k

theorem travel_of_walk {i : Nat} {path : List Nat}
    (walk : Walk (Hop cfg links id) i (nodeSwitch id) path) :
    travel cfg links id path.length i = some path := by
  generalize there : nodeSwitch id = target at walk
  induction walk with
  | nil => simp [travel, there]
  | @cons i k j rest head _ ih =>
    obtain ⟨r, port, rfl, next, rfl⟩ := head
    have away := routerSwitch_ne_nodeSwitch r id
    have number : routerSwitch cfg.machines r - 2 * cfg.machines.nodes = r := Nat.add_sub_cancel ..
    simp [travel, away, number, next, ih there]

theorem Wired.next_good (wired : Wired t dist links) {k : Nat}
    (linked : t.Linked (routerSwitch cfg.machines r) k)
    (near : dist k (nodeSwitch id) < infiniteLatency) :
    k = nodeSwitch id ∨ ∃ r' < t.numRouters, k = routerSwitch cfg.machines r' := by
  obtain ⟨link, form, -⟩ := linked.form
  generalize pair : (routerSwitch cfg.machines r, k) = key at form
  simp only [routerSwitch] at pair
  cases form with
  | into link member =>
    have := (t.extLinks_bound link member).1
    simp only [Prod.mk.injEq] at pair
    omega
  | out link member =>
    obtain rfl := (Prod.mk.inj pair).2
    obtain ⟨rest, walk, -⟩ := wired.attained.attained _ _ near
    generalize nodeSwitch id = target at walk
    cases walk with
    | nil => exact .inl rfl
    | cons first => exact absurd first (not_linked_node (t.extLinks_bound link member).1)
  | forth link member =>
    exact .inr ⟨link.nodeB, (t.intLinks_bound link member).2, (Prod.mk.inj pair).2⟩
  | back link member =>
    exact .inr ⟨link.nodeA, (t.intLinks_bound link member).1, (Prod.mk.inj pair).2⟩

end Travel

/-- With positive weights below `2 ^ 30`, `routeCompute` picks a link to a neighbour that is nearer
to the controller by exactly the weight of the link, and a packet arrives over a path of least total
weight. -/
theorem table_routing_shortest (cfg : Garnet.Config) (t : Topology cfg.machines)
    (positive : t.Positive) (light : t.Light) (reaches : t.Reaches) :
    ∃ links rounds, (∀ more, rounds ≤ more → t.createLinks more = .ok links) ∧
      ∀ r < t.numRouters, ∀ id : MachineID cfg.machines,
        (∃ port distance, nextHop cfg links id r = some port ∧
          t.Linked (routerSwitch cfg.machines r) port.dest ∧
          port.weight = t.weight (routerSwitch cfg.machines r) port.dest ∧
          IsLeast (costs t.Linked t.weight port.dest (nodeSwitch id)) distance ∧
          IsLeast (costs t.Linked t.weight (routerSwitch cfg.machines r) (nodeSwitch id))
            (port.weight + distance)) ∧
        ∃ hops path, travel cfg links id hops (routerSwitch cfg.machines r) = some path ∧
          Walk t.Linked (routerSwitch cfg.machines r) (nodeSwitch id) path ∧
          (routerSwitch cfg.machines r :: path).Nodup ∧
          IsLeast (costs t.Linked t.weight (routerSwitch cfg.machines r) (nodeSwitch id))
            (cost t.weight (routerSwitch cfg.machines r) path) := by
  obtain ⟨dist, links, rounds, wired, made⟩ := exists_createLinks positive light
  refine ⟨links, rounds, made, fun r bound id => ?_⟩
  have inside : nodeSwitch id < t.linkMap.numSwitches := by
    obtain ⟨c, ⟨path, walk, -⟩, -⟩ := reaches r bound id
    obtain ⟨k, linked⟩ := walk.exists_last (routerSwitch_ne_nodeSwitch r id)
    exact linked.lt_numSwitches.2
  have potential := wired.potential inside
  have near : ∀ r < t.numRouters,
      dist (routerSwitch cfg.machines r) (nodeSwitch id) < infiniteLatency := by
    intro r bound
    obtain ⟨c, ⟨path, walk, rfl⟩, finite⟩ := reaches r bound id
    exact (potential.le_cost walk).trans_lt finite
  have descends : ∀ i k, Hop cfg links id i k →
      Descends t.Linked t.weight (dist · (nodeSwitch id)) i k := by
    rintro i k ⟨r, port, rfl, next, rfl⟩
    exact (wired.descends next).1
  have falls : ∀ i k, Descends t.Linked t.weight (dist · (nodeSwitch id)) i k →
      dist k (nodeSwitch id) < dist i (nodeSwitch id) := by
    intro i k step
    have := positive.weight_pos step.link
    have := step.exact_weight
    omega
  constructor
  · obtain ⟨port, next⟩ := wired.exists_nextHop positive inside (near r bound)
    obtain ⟨step, weight⟩ := wired.descends next
    have nearer := (falls _ _ step).trans (near r bound)
    refine ⟨port, dist port.dest (nodeSwitch id), next, step.link, weight,
      potential.isLeast (wired.attained.attained _ _ nearer), ?_⟩
    rw [weight, step.exact_weight]
    exact potential.isLeast (wired.attained.attained _ _ (near r bound))
  · have leads : ∃ path, Walk (Hop cfg links id) (routerSwitch cfg.machines r) (nodeSwitch id)
        path := by
      refine exists_descent (p := (dist · (nodeSwitch id))) (fun i => i = nodeSwitch id ∨
        ∃ r < t.numRouters, i = routerSwitch cfg.machines r) ?_
        (fun i _ => wired.attained.nonneg i _) (.inr ⟨r, bound, rfl⟩)
      rintro i (rfl | ⟨r, bound, rfl⟩) away
      · exact absurd rfl away
      · obtain ⟨port, next⟩ := wired.exists_nextHop positive inside (near r bound)
        have step := (wired.descends next).1
        have less := falls _ _ step
        exact ⟨port.dest, ⟨r, port, rfl, next, rfl⟩,
          wired.next_good step.link (less.trans (near r bound)), less⟩
    obtain ⟨path, walk⟩ := leads
    obtain ⟨linked, total⟩ := walk.of_descends descends
    refine ⟨path.length, path, travel_of_walk walk, linked,
      (walk.nodup descends fun i k linked => positive.weight_pos linked).2, ?_⟩
    rw [potential.target, Int.add_zero] at total
    rw [total]
    exact potential.isLeast (wired.attained.attained _ _ (near r bound))

/-- Three routers in a ring, with controllers at the first two. -/
def ring (heavy : Int) : Topology oneVc.machines where
  numRouters := 3
  extLinks := [⟨⟨1, 1⟩, 0, 0⟩, ⟨⟨1, 2⟩, 1, 1⟩]
  intLinks := [⟨⟨1, 5⟩, 0, 1⟩, ⟨⟨1, 2⟩, 1, 2⟩, ⟨⟨1, heavy⟩, 0, 2⟩]
  nodes_gt_one := by decide
  extLinks_length := by decide
  extLinks_bound := by decide
  intLinks_bound := by simp

theorem ring_positive {heavy : Int} (positive : 0 < heavy) : (ring heavy).Positive :=
  ⟨by simp [ring], by simp [ring, positive]⟩

theorem ring_reaches (heavy : Int) : (ring heavy).Reaches := by
  have near : ∀ i j path, Walk (ring heavy).Linked i j path →
      cost (ring heavy).weight i path < infiniteLatency →
      ∃ c ∈ costs (ring heavy).Linked (ring heavy).weight i j, c < infiniteLatency :=
    fun _ _ path walk light => ⟨_, ⟨path, walk, rfl⟩, light⟩
  rintro r bound ⟨type, number⟩
  change r < 3 at bound
  obtain rfl | rfl | rfl : r = 0 ∨ r = 1 ∨ r = 2 := by omega
  all_goals (fin_cases type; fin_cases number)
  · exact near 4 2 [2] (.cons rfl .nil) (show (1 : Int) < 10000 by decide)
  · exact near 4 3 [5, 3] (.cons rfl (.cons rfl .nil)) (show (7 : Int) < 10000 by decide)
  · exact near 5 2 [4, 2] (.cons rfl (.cons rfl .nil)) (show (6 : Int) < 10000 by decide)
  · exact near 5 3 [3] (.cons rfl .nil) (show (2 : Int) < 10000 by decide)
  · exact near 6 2 [5, 4, 2] (.cons rfl (.cons rfl (.cons rfl .nil)))
      (show (8 : Int) < 10000 by decide)
  · exact near 6 3 [5, 3] (.cons rfl (.cons rfl .nil)) (show (4 : Int) < 10000 by decide)

theorem table_routing_shortest_ring : (ring (2 ^ 30 - 1)).Reaches ∧
      ∃ links rounds, (∀ more, rounds ≤ more → (ring (2 ^ 30 - 1)).createLinks more = .ok links) ∧
        ∃ hops path, travel oneVc links ⟨⟨0, by decide⟩, ⟨1, by decide⟩⟩ hops 4 = some path ∧
          path.Nodup := by
  obtain ⟨links, rounds, made, routes⟩ := table_routing_shortest oneVc (ring (2 ^ 30 - 1))
    (ring_positive (by decide)) ⟨by decide, by decide⟩ (ring_reaches _)
  obtain ⟨-, hops, path, arrives, -, distinct, -⟩ :=
    routes 0 (by decide) ⟨⟨0, by decide⟩, ⟨1, by decide⟩⟩
  exact ⟨ring_reaches _, links, rounds, made, hops, path, arrives, distinct.of_cons⟩

/-- The way over the heavy link and back gets a negative distance, and no port is left for the
controller at the next router. -/
theorem heavy_link_strands : (ring (2 ^ 30)).Positive ∧ (ring (2 ^ 30)).Reaches ∧
    ∃ links, (ring (2 ^ 30)).createLinks 3 = .ok links ∧
      nextHop oneVc links ⟨⟨0, by decide⟩, ⟨1, by decide⟩⟩ 0 = none := by
  have check : ((ring (2 ^ 30)).createLinks 3).toOption.any (fun links =>
      (nextHop oneVc links ⟨⟨0, by decide⟩, ⟨1, by decide⟩⟩ 0).isNone) = true := by
    decide +kernel
  obtain ⟨links, made, none⟩ := Outcome.any_toOption check
  exact ⟨ring_positive (by decide), ring_reaches _, links, made, Option.isNone_iff_eq_none.mp none⟩

end SynchroTrace.Ruby.Topology
