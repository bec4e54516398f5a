import Reconciliation.Proofs.Graph.Order
import Reconciliation.Workflow.Build

/-!
Declarations of workflows. The graph of a declaration has an edge exactly where a node declares
a dependency on another one, provided that the names are distinct and all of them are known.
A declaration is accepted exactly if that holds and the dependencies form no cycle.
-/
namespace Reconciliation

namespace Digraph

/-- Edges from several sources to one target, added one after another. -/
theorem edge_foldl_connect (sources : List Nat) (target : Nat) (g : Digraph) (a b : Nat) :
    (sources.foldl (fun g x => g.connect x target) g).Edge a b ↔
      g.Edge a b ∨ (a ∈ sources ∧ b = target) := by
  induction sources generalizing g with
  | nil => simp
  | cons x rest ih =>
    rw [List.foldl_cons, ih, edge_connect, List.mem_cons]
    tauto

end Digraph

namespace WorkflowPlan
variable {I : Interface}

def nodeNames (p : WorkflowPlan I) : List String := p.nodes.map (·.name)

/-- The node at one position declares a dependency on the node at another one. -/
def DependsOn (p : WorkflowPlan I) (i j : Nat) : Prop :=
  ∃ n m, p.nodes[i]? = some n ∧ p.nodes[j]? = some m ∧ m.name ∈ n.dependsOn

/-- Each dependency names a declared node. -/
def Known (p : WorkflowPlan I) : Prop := ∀ n ∈ p.nodes, ∀ d ∈ n.dependsOn, d ∈ p.nodeNames

/-- No name is reported as repeated exactly if the names are distinct and none was seen before. -/
theorem repeatedName?_eq_none_iff (seen names : List String) :
    repeatedName? seen names = none ↔ names.Nodup ∧ ∀ n ∈ names, n ∉ seen := by
  induction names generalizing seen with
  | nil => simp [repeatedName?]
  | cons name rest ih =>
    unfold repeatedName?
    by_cases hseen : name ∈ seen
    · simp [hseen]
    · simp only [List.contains_iff_mem, hseen, if_false, ih, List.nodup_cons, List.mem_cons,
        forall_eq_or_imp, not_or]
      constructor
      · rintro ⟨hnodup, hrest⟩
        exact ⟨⟨fun hmem => (hrest name hmem).1 rfl, hnodup⟩, not_false,
          fun n hn => (hrest n hn).2⟩
      · rintro ⟨⟨hnot, hnodup⟩, _, hrest⟩
        exact ⟨hnodup, fun n hn => ⟨fun heq => hnot (heq ▸ hn), hrest n hn⟩⟩

/-- No dependency is reported as unknown exactly if all of them are names of nodes. -/
theorem unknownDependency?_eq_none_iff (names : List String) (nodes : List (Node I)) :
    unknownDependency? names nodes = none ↔ ∀ n ∈ nodes, ∀ d ∈ n.dependsOn, d ∈ names := by
  induction nodes with
  | nil => simp [unknownDependency?]
  | cons n rest ih =>
    unfold unknownDependency?
    cases hfind : n.dependsOn.find? fun d => !names.contains d with
    | none =>
      have hknown : ∀ d ∈ n.dependsOn, d ∈ names := by simpa using hfind
      simp only [ih, List.mem_cons, forall_eq_or_imp]
      exact ⟨fun hrest => ⟨hknown, hrest⟩, fun h => h.2⟩
    | some d =>
      have hmem := List.mem_of_find?_eq_some hfind
      have hunknown : d ∉ names := by simpa using List.find?_some hfind
      refine ⟨fun h => ?_, fun h => absurd (h n List.mem_cons_self d hmem) hunknown⟩
      cases h

/-- The graph after some nodes of the declaration. -/
theorem edge_foldl_nodes (names : List String) (nodes : List (Node I)) (g : Digraph)
    (a b : Nat) :
    (nodes.foldl (fun g n =>
      n.dependsOn.foldl (fun g d => g.connect (names.idxOf d) (names.idxOf n.name)) g) g).Edge
        a b ↔
      g.Edge a b ∨
        ∃ n ∈ nodes, ∃ d ∈ n.dependsOn, a = names.idxOf d ∧ b = names.idxOf n.name := by
  induction nodes generalizing g with
  | nil => simp
  | cons n rest ih =>
    have hfirst := Digraph.edge_foldl_connect (n.dependsOn.map names.idxOf)
      (names.idxOf n.name) g a b
    rw [List.foldl_map] at hfirst
    rw [List.foldl_cons, ih, hfirst]
    simp only [List.mem_map, List.mem_cons, exists_eq_or_imp]
    constructor
    · rintro ((hg | ⟨⟨d, hd, rfl⟩, rfl⟩) | hrest)
      · exact Or.inl hg
      · exact Or.inr (Or.inl ⟨d, hd, rfl, rfl⟩)
      · exact Or.inr (Or.inr hrest)
    · rintro (hg | ⟨d, hd, rfl, rfl⟩ | hrest)
      · exact Or.inl (Or.inl hg)
      · exact Or.inl (Or.inr ⟨⟨d, hd, rfl⟩, rfl⟩)
      · exact Or.inr hrest

theorem graph_preserves (p : WorkflowPlan I) (P : Digraph → Prop)
    (hstart : P ⟨p.nodes.length, []⟩) (hconnect : ∀ g x y, P g → P (g.connect x y)) :
    P p.graph := by
  unfold graph
  refine List.foldlRecOn (motive := P) p.nodes _ hstart fun g hg n _ => ?_
  exact List.foldlRecOn (motive := P) n.dependsOn _ hg fun g hg d _ => hconnect g _ _ hg

theorem graph_size (p : WorkflowPlan I) : p.graph.size = p.nodes.length :=
  p.graph_preserves (fun g => g.size = p.nodes.length) rfl
    fun g x y hg => by rw [Digraph.size_connect, hg]

theorem graph_nodup (p : WorkflowPlan I) : p.graph.edges.Nodup :=
  p.graph_preserves (fun g => g.edges.Nodup) List.nodup_nil
    fun g x y hg => g.nodup_connect hg x y

/-- With distinct names a node is found at the position of its name. -/
theorem idxOf_name (p : WorkflowPlan I) (hnodup : p.nodeNames.Nodup) (i : Nat) (n : Node I) :
    p.nodes[i]? = some n ↔ n ∈ p.nodes ∧ i = p.nodeNames.idxOf n.name := by
  have hname : ∀ (j : Nat) (m : Node I), p.nodes[j]? = some m →
      p.nodeNames.idxOf m.name = j := by
    intro j m hm
    obtain ⟨hj, rfl⟩ := List.getElem?_eq_some_iff.mp hm
    have hlt : j < p.nodeNames.length := by simpa [nodeNames] using hj
    have hget : p.nodeNames[j] = p.nodes[j].name := by simp [nodeNames]
    rw [← hget]
    exact hnodup.idxOf_getElem j hlt
  constructor
  · intro h
    exact ⟨List.mem_of_getElem? h, (hname i n h).symm⟩
  · rintro ⟨hmem, rfl⟩
    obtain ⟨j, hj⟩ := List.mem_iff_getElem?.mp hmem
    rw [hname j n hj, hj]

/-- The edges of the graph are the declared dependencies, turned around. -/
theorem graph_edge_iff (p : WorkflowPlan I) (hnodup : p.nodeNames.Nodup) (hknown : p.Known)
    (i j : Nat) : p.graph.Edge j i ↔ p.DependsOn i j := by
  have hedge := edge_foldl_nodes p.nodeNames p.nodes ⟨p.nodes.length, []⟩ j i
  have hempty : ¬ (⟨p.nodes.length, []⟩ : Digraph).Edge j i := List.not_mem_nil
  change p.graph.Edge j i ↔ _ at hedge
  rw [hedge, or_iff_right hempty]
  unfold DependsOn
  simp only [p.idxOf_name hnodup]
  constructor
  · rintro ⟨n, hn, d, hd, rfl, rfl⟩
    obtain ⟨m, hm, rfl⟩ := List.mem_map.mp (hknown n hn d hd)
    exact ⟨n, m, ⟨hn, rfl⟩, ⟨hm, rfl⟩, hd⟩
  · rintro ⟨n, m, ⟨hn, rfl⟩, ⟨hm, rfl⟩, hd⟩
    exact ⟨n, hn, m.name, hd, rfl, rfl⟩

theorem graph_wellFormed (p : WorkflowPlan I) (hnodup : p.nodeNames.Nodup)
    (hknown : p.Known) : p.graph.WellFormed where
  source_lt x y hedge := by
    obtain ⟨_, m, _, hm, _⟩ := (p.graph_edge_iff hnodup hknown y x).mp hedge
    rw [graph_size]
    exact (List.getElem?_eq_some_iff.mp hm).1
  target_lt x y hedge := by
    obtain ⟨n, _, hn, _⟩ := (p.graph_edge_iff hnodup hknown y x).mp hedge
    rw [graph_size]
    exact (List.getElem?_eq_some_iff.mp hn).1
  nodup := p.graph_nodup

/-- The dependencies lead from some node back to it. -/
def Cyclic (p : WorkflowPlan I) : Prop := ∃ i, Relation.TransGen p.DependsOn i i

theorem graph_acyclic_iff (p : WorkflowPlan I) (hnodup : p.nodeNames.Nodup)
    (hknown : p.Known) : p.graph.Acyclic ↔ ¬ p.Cyclic := by
  have hswap : p.graph.Edge = Function.swap p.DependsOn := by
    funext j i
    exact propext (p.graph_edge_iff hnodup hknown i j)
  unfold Digraph.Acyclic Cyclic
  rw [hswap, not_exists]
  simp only [Relation.transGen_swap]

/-- The workflow of a declaration, with an order of its nodes. -/
def ordered (p : WorkflowPlan I) (order : List Nat) : Workflow I where
  name := p.name
  nodes := p.nodes.mapIdx fun i n => place p.graph i n
  topological := order
  maxConcurrency := p.maxConcurrency
  positive := p.positive

theorem ordered_nodes (p : WorkflowPlan I) (order : List Nat) :
    (p.ordered order).nodes.map (·.node) = p.nodes := by
  refine List.ext_getElem? fun i => ?_
  rw [ordered, List.getElem?_map, List.getElem?_mapIdx, Option.map_map]
  exact Option.map_id'

/-- The four ways in which a declaration can be taken. -/
inductive Verdict (p : WorkflowPlan I) : Except Error (Workflow I) → Prop
  | duplicate (name : String) (h : ¬ p.nodeNames.Nodup) : Verdict p (.error (.duplicateNode name))
  | unknown (node dependency : String) (hn : p.nodeNames.Nodup) (h : ¬ p.Known) :
      Verdict p (.error (.unknownDependency node dependency))
  | cyclic (cycle : List String) (hn : p.nodeNames.Nodup) (hk : p.Known) (h : p.Cyclic) :
      Verdict p (.error (.cyclicGraph cycle))
  | accepted (order : List Nat) (hn : p.nodeNames.Nodup) (hk : p.Known) (h : ¬ p.Cyclic)
      (hperm : order.Perm (List.range p.nodes.length)) (hforward : p.graph.Forward order) :
      Verdict p (.ok (p.ordered order))

/-- The checks in their order: distinct names, known dependencies, no cycle. The verdict names the
first that fails. -/
theorem build_verdict (p : WorkflowPlan I) : Verdict p p.build := by
  have hrepeated := repeatedName?_eq_none_iff [] p.nodeNames
  have hunknown := unknownDependency?_eq_none_iff p.nodeNames p.nodes
  have hnames : p.nodes.map (·.name) = p.nodeNames := rfl
  unfold build
  dsimp only
  rw [hnames]
  cases hr : repeatedName? [] p.nodeNames with
  | some name =>
    refine .duplicate name fun hnodup => ?_
    rw [hrepeated.mpr ⟨hnodup, fun _ _ => List.not_mem_nil⟩] at hr
    cases hr
  | none =>
    have hnodup : p.nodeNames.Nodup := (hrepeated.mp hr).1
    cases hu : unknownDependency? p.nodeNames p.nodes with
    | some unknown =>
      refine .unknown unknown.1 unknown.2 hnodup fun hknown => ?_
      rw [hunknown.mpr hknown] at hu
      cases hu
    | none =>
      have hknown : p.Known := hunknown.mp hu
      have hacyclic := p.graph_acyclic_iff hnodup hknown
      rcases p.graph.topological_spec (p.graph_wellFormed hnodup hknown) with
        ⟨order, horder, hperm, hforward⟩ | ⟨x, hx, hcyclic⟩
      · rw [graph_size] at hperm
        have hgraph := hforward.acyclic fun x y hedge => by
          obtain ⟨n, _, hn, _⟩ := (p.graph_edge_iff hnodup hknown y x).mp hedge
          exact hperm.mem_iff.mpr (List.mem_range.mpr (List.getElem?_eq_some_iff.mp hn).1)
        simp only [horder]
        exact .accepted order hnodup hknown (hacyclic.mp hgraph) hperm hforward
      · simp only [hx]
        exact .cyclic _ hnodup hknown (by_contra fun hno => hacyclic.mpr hno x hcyclic)

theorem mem_place_predecessors (p : WorkflowPlan I) (hnodup : p.nodeNames.Nodup)
    (hknown : p.Known) (i j : Nat) (n : Node I) :
    j ∈ (place p.graph i n).predecessors ↔ p.DependsOn i j := by
  unfold place
  rw [Digraph.mem_ascending, Digraph.mem_predecessors, p.graph_edge_iff hnodup hknown]

theorem mem_place_successors (p : WorkflowPlan I) (hnodup : p.nodeNames.Nodup)
    (hknown : p.Known) (i j : Nat) (n : Node I) :
    j ∈ (place p.graph i n).successors ↔ p.DependsOn j i := by
  unfold place
  rw [Digraph.mem_ascending, Digraph.mem_successors, p.graph_edge_iff hnodup hknown]

/-- A declaration is refused for a repeated name, else for an unknown dependency, else for a
cycle, and accepted otherwise. The order of an accepted one lists every node once, after its
dependencies; the neighbours of each node are its dependencies and its dependents, in ascending
order. -/
theorem build_accepts_acyclic (p : WorkflowPlan I) :
    ((∃ name, p.build = .error (.duplicateNode name)) ↔ ¬ p.nodeNames.Nodup) ∧
    ((∃ node dependency, p.build = .error (.unknownDependency node dependency)) ↔
      p.nodeNames.Nodup ∧ ¬ p.Known) ∧
    ((∃ cycle, p.build = .error (.cyclicGraph cycle)) ↔
      p.nodeNames.Nodup ∧ p.Known ∧ p.Cyclic) ∧
    ((∃ w, p.build = .ok w) ↔ p.nodeNames.Nodup ∧ p.Known ∧ ¬ p.Cyclic) ∧
    ∀ w, p.build = .ok w →
      w.nodes.map (·.node) = p.nodes ∧
      w.topological.Perm (List.range p.nodes.length) ∧
      (∀ i j, p.DependsOn i j → w.topological.idxOf j < w.topological.idxOf i) ∧
      ∀ i n, w.nodes[i]? = some n →
        (∀ j, j ∈ n.predecessors ↔ p.DependsOn i j) ∧
        (∀ j, j ∈ n.successors ↔ p.DependsOn j i) ∧
        n.predecessors.Pairwise (· < ·) ∧ n.successors.Pairwise (· < ·) := by
  have hverdict := p.build_verdict
  generalize p.build = result at hverdict
  cases hverdict with
  | duplicate name h => simp [h]
  | unknown node dependency hn h => simp [hn, h]
  | cyclic cycle hn hk h => simp [hn, hk, h]
  | accepted order hn hk h hperm hforward =>
    refine ⟨by simp [hn], by simp [hk], by simp [h], by simp [hn, hk, h], ?_⟩
    intro w hw
    cases hw
    refine ⟨p.ordered_nodes order, hperm, fun i j hdep => ?_, fun i n hi => ?_⟩
    · have hmem : i ∈ order := by
        obtain ⟨n, _, hi, _⟩ := hdep
        exact hperm.mem_iff.mpr (List.mem_range.mpr (List.getElem?_eq_some_iff.mp hi).1)
      exact hforward.idxOf_lt i j hmem ((p.graph_edge_iff hn hk i j).mpr hdep)
    · rw [ordered, List.getElem?_mapIdx] at hi
      obtain ⟨node, _, rfl⟩ := Option.map_eq_some_iff.mp hi
      exact ⟨fun j => p.mem_place_predecessors hn hk i j node,
        fun j => p.mem_place_successors hn hk i j node,
        Digraph.pairwise_lt_ascending _ (p.graph.nodup_predecessors p.graph_nodup i),
        Digraph.pairwise_lt_ascending _ (p.graph.nodup_successors p.graph_nodup i)⟩

/-- A dependent without conditions that needs no call. -/
def silentNode (name : String) (dependsOn : List String) : Node ⟨Empty, nofun⟩ where
  name := name
  dependsOn := dependsOn
  capability := ⟨.readOnly, .singleton⟩
  check _ _ _ := none
  reconcile _ _ := .done (.ok {})
  delete _ _ := .done (.ok {})

/-- Two dependents of one node and a dependent of both, one dependency declared twice. -/
def diamond : WorkflowPlan ⟨Empty, nofun⟩ where
  name := "diamond"
  nodes := [silentNode "top" ["left", "right"], silentNode "left" ["base", "base"],
    silentNode "right" ["base"], silentNode "base" []]

/-- The diamond is accepted, in an order in which its base stands before what depends on it. -/
theorem build_accepts_acyclic_diamond :
    ∃ w, diamond.build = .ok w ∧ w.topological.Perm [0, 1, 2, 3] ∧
      w.topological.idxOf 3 < w.topological.idxOf 1 := by
  have haccepted : diamond.build.toOption.isSome = true := by decide
  cases hw : diamond.build with
  | error e =>
    rw [hw] at haccepted
    cases haccepted
  | ok w =>
    have hspec := diamond.build_accepts_acyclic.2.2.2.2 w hw
    have hdep : diamond.DependsOn 1 3 := ⟨_, _, rfl, rfl, by decide⟩
    exact ⟨w, rfl, hspec.2.1, hspec.2.2.1 1 3 hdep⟩

end WorkflowPlan
end Reconciliation
