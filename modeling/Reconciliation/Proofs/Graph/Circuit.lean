import Mathlib.Data.List.Chain
import Reconciliation.Graph.Cycle
import Reconciliation.Proofs.Graph.Search

/-!
The cycle that is found from a node on a cycle. The strong component of the node is found by two
searches, along the edges and against them, whose fuel covers every node and every edge. Each
node of the component has a successor in it, so the walk along least successors never gets
stuck; it visits no node twice before it closes, and so closes while there is fuel.
-/
namespace Reconciliation.Digraph

/-- The graph with its edges turned around. -/
def flip (g : Digraph) : Digraph := ⟨g.size, g.edges.map Prod.swap⟩

theorem edge_flip (g : Digraph) : g.flip.Edge = Function.swap g.Edge := by
  funext x y
  simp [flip, Edge, Function.swap]

theorem successors_flip (g : Digraph) : g.flip.successors = g.predecessors := by
  funext x
  simp [flip, successors, predecessors, List.filter_map, Function.comp_def]

theorem WellFormed.flip {g : Digraph} (hg : g.WellFormed) : g.flip.WellFormed where
  source_lt x y h := hg.target_lt y x (by rwa [edge_flip] at h)
  target_lt x y h := hg.source_lt y x (by rwa [edge_flip] at h)
  nodup := hg.nodup.map Prod.swap_injective

/-- Everything that spreading finds is reached from where it starts. -/
theorem spread_reached (g : Digraph) (x fuel : Nat) (stack seen : List Nat)
    (hstack : ∀ y ∈ stack, Relation.ReflTransGen g.Edge x y)
    (hseen : ∀ y ∈ seen, Relation.ReflTransGen g.Edge x y) :
    ∀ y ∈ spread g.successors fuel stack seen, Relation.ReflTransGen g.Edge x y := by
  induction fuel generalizing stack seen with
  | zero => exact hseen
  | succ fuel ih =>
    cases stack with
    | nil => exact hseen
    | cons z rest =>
      obtain ⟨hz, hrest⟩ := List.forall_mem_cons.mp hstack
      unfold spread
      split
      · exact ih rest seen hrest hseen
      · refine ih _ _ (fun y hy => ?_) (List.forall_mem_cons.mpr ⟨hz, hseen⟩)
        rcases List.mem_append.mp hy with hnext | hold
        · exact hz.tail ((g.mem_successors z y).mp hnext)
        · exact hrest y hold

/-- With enough fuel spreading finds all that it has seen or put on the stack, and the successors
of everything that it finds. -/
theorem spread_closed (g : Digraph) (hg : g.WellFormed) (fuel : Nat) (stack seen : List Nat)
    (hlt : ∀ x ∈ stack, x < g.size) (hfuel : stack.length + g.budget seen ≤ fuel)
    (hclosed : ∀ x ∈ seen, ∀ y, g.Edge x y → y ∈ stack ++ seen) :
    (∀ x ∈ stack ++ seen, x ∈ spread g.successors fuel stack seen) ∧
      ∀ x ∈ spread g.successors fuel stack seen, ∀ y, g.Edge x y →
        y ∈ spread g.successors fuel stack seen := by
  induction fuel generalizing stack seen with
  | zero =>
    obtain rfl : stack = [] := List.length_eq_zero_iff.mp (by omega)
    exact ⟨fun x hx => hx, hclosed⟩
  | succ fuel ih =>
    cases stack with
    | nil => exact ⟨fun x hx => hx, hclosed⟩
    | cons z rest =>
      obtain ⟨hz, hrest⟩ := List.forall_mem_cons.mp hlt
      rw [List.length_cons] at hfuel
      unfold spread
      by_cases hseen : z ∈ seen
      · rw [if_pos (List.contains_iff_mem.mpr hseen)]
        have hmem : ∀ y ∈ z :: rest ++ seen, y ∈ rest ++ seen := by
          intro y hy
          rcases List.mem_cons.mp hy with rfl | hy
          · exact List.mem_append_right rest hseen
          · exact hy
        obtain ⟨hfound, hnext⟩ := ih rest seen hrest (by omega) fun x hx y hedge =>
          hmem y (hclosed x hx y hedge)
        exact ⟨fun x hx => hfound x (hmem x hx), hnext⟩
      · rw [if_neg (by rwa [List.contains_iff_mem])]
        have hcost := g.budget_discover seen z hz hseen
        have hmem : ∀ y ∈ z :: rest ++ seen, y ∈ g.successors z ++ rest ++ z :: seen := by
          intro y hy
          simp only [List.cons_append, List.mem_cons, List.mem_append] at hy ⊢
          tauto
        have hstack : ∀ y ∈ g.successors z ++ rest, y < g.size := by
          intro y hy
          rcases List.mem_append.mp hy with hy | hy
          · exact hg.target_lt z y ((g.mem_successors z y).mp hy)
          · exact hrest y hy
        have hbudget : (g.successors z ++ rest).length + g.budget (z :: seen) ≤ fuel := by
          rw [List.length_append]
          omega
        obtain ⟨hfound, hnext⟩ := ih _ (z :: seen) hstack hbudget fun x hx y hedge => by
          rcases List.mem_cons.mp hx with rfl | hx
          · have hy := (g.mem_successors x y).mpr hedge
            exact List.mem_append_left _ (List.mem_append_left rest hy)
          · exact hmem y (hclosed x hx y hedge)
        exact ⟨fun x hx => hfound x (hmem x hx), hnext⟩

/-- The fuel of a search covers all that can be reached. -/
theorem mem_reachable_iff (g : Digraph) (hg : g.WellFormed) (x y : Nat) (hx : x < g.size) :
    y ∈ reachable g.successors (g.size + g.edges.length + 2) x ↔
      Relation.ReflTransGen g.Edge x y := by
  have hfuel : [x].length + g.budget [] ≤ g.size + g.edges.length + 2 := by
    have hbudget := g.budget_le []
    rw [List.length_singleton]
    omega
  have hlt : ∀ z ∈ [x], z < g.size := fun z hz => List.mem_singleton.mp hz ▸ hx
  obtain ⟨hfound, hnext⟩ := g.spread_closed hg _ [x] [] hlt hfuel
    fun z hz => absurd hz List.not_mem_nil
  constructor
  · refine g.spread_reached x _ [x] [] (fun z hz => ?_) (fun z hz => absurd hz List.not_mem_nil) y
    rw [List.mem_singleton.mp hz]
  · intro hpath
    induction hpath with
    | refl => exact hfound x List.mem_cons_self
    | tail _ hedge ih => exact hnext _ ih _ hedge

/-- The component of a node is its strong component. -/
theorem mem_component_iff (g : Digraph) (hg : g.WellFormed) (x y : Nat) (hx : x < g.size) :
    y ∈ g.component x ↔
      Relation.ReflTransGen g.Edge x y ∧ Relation.ReflTransGen g.Edge y x := by
  have hback := g.flip.mem_reachable_iff hg.flip x y hx
  rw [successors_flip, edge_flip, Relation.reflTransGen_swap] at hback
  have hlength : g.flip.edges.length = g.edges.length := List.length_map Prod.swap
  rw [hlength] at hback
  unfold component
  rw [List.mem_filter, List.contains_iff_mem, g.mem_reachable_iff hg x y hx, and_comm]
  exact and_congr_right fun _ => hback

/-- A component through which a cycle leads has no dead ends. -/
theorem component_goes_on (g : Digraph) (hg : g.WellFormed) (x : Nat) (hlt : x < g.size)
    (hx : Relation.TransGen g.Edge x x) (y : Nat) (hy : y ∈ g.component x) :
    ∃ z ∈ g.component x, g.Edge y z := by
  obtain ⟨hto, hfrom⟩ := (g.mem_component_iff hg x y hlt).mp hy
  have hround : Relation.TransGen g.Edge y x := Relation.TransGen.trans_right hfrom hx
  obtain ⟨z, hedge, hback⟩ := Relation.TransGen.head'_iff.mp hround
  exact ⟨z, (g.mem_component_iff hg x z hlt).mpr ⟨hto.tail hedge, hback⟩, hedge⟩

/-- A way along the edges that ends where it begins and visits no node twice in between. -/
structure Circuit (g : Digraph) (cycle : List Nat) : Prop where
  long : 2 ≤ cycle.length
  closed : cycle.head? = cycle.getLast?
  distinct : cycle.dropLast.Nodup
  chained : cycle.IsChain g.Edge

/-- A walk through a set of nodes that has not closed; the latest node comes first. -/
structure Walk (g : Digraph) (inside path : List Nat) : Prop where
  within : ∀ x ∈ path, x ∈ inside
  distinct : path.Nodup
  chained : path.reverse.IsChain g.Edge

/-- A walk that comes back to one of its nodes closes there. -/
theorem Walk.circuit {g : Digraph} {inside path : List Nat} {x y : Nat}
    (h : Walk g inside (x :: path)) (hy : y ∈ x :: path) (hedge : g.Edge x y) :
    Circuit g ((x :: path).reverse.dropWhile (· ≠ y) ++ [y]) := by
  obtain ⟨before, after, heq, hnot⟩ := List.eq_append_cons_of_mem (List.mem_reverse.mpr hy)
  have hdrop : (x :: path).reverse.dropWhile (· ≠ y) = y :: after := by
    have hpass : ∀ z ∈ before, decide (z ≠ y) = true := by
      intro z hz
      exact decide_eq_true fun hzy => hnot (hzy ▸ hz)
    rw [heq, List.dropWhile_append_of_pos hpass, List.dropWhile_cons_of_neg (by simp)]
  have hlast : (y :: after).getLast? = some x := by
    have hreverse : (x :: path).reverse.getLast? = some x := by simp
    rw [heq, List.getLast?_append] at hreverse
    simpa using hreverse
  have hnodup := List.nodup_reverse.mpr h.distinct
  have hchain := h.chained
  rw [heq] at hnodup hchain
  rw [hdrop]
  refine ⟨?_, ?_, ?_, ?_⟩
  · simp
  · rw [List.getLast?_concat]
    rfl
  · rw [List.dropLast_concat]
    exact (List.nodup_append.mp hnodup).2.1
  · refine List.isChain_append.mpr ⟨(List.isChain_append.mp hchain).2.1,
      List.isChain_singleton y, fun a ha b hb => ?_⟩
    rw [hlast] at ha
    obtain rfl := Option.some.inj ha
    obtain rfl := Option.some.inj hb
    exact hedge

theorem Walk.extend {g : Digraph} {inside path : List Nat} {x y : Nat}
    (h : Walk g inside (x :: path)) (hin : y ∈ inside) (hy : y ∉ x :: path)
    (hedge : g.Edge x y) : Walk g inside (y :: x :: path) where
  within := List.forall_mem_cons.mpr ⟨hin, h.within⟩
  distinct := List.nodup_cons.mpr ⟨hy, h.distinct⟩
  chained := by
    rw [List.reverse_cons]
    refine List.isChain_append.mpr ⟨h.chained, List.isChain_singleton y, fun a ha b hb => ?_⟩
    rw [List.getLast?_reverse] at ha
    obtain rfl := Option.some.inj ha
    obtain rfl := Option.some.inj hb
    exact hedge

/-- The walk along least successors closes: it finds a successor at every node, and visits no
more nodes than there are. -/
theorem follow_circuit (g : Digraph) (inside : List Nat) (hlt : ∀ x ∈ inside, x < g.size)
    (hgoes : ∀ x ∈ inside, ∃ y ∈ inside, g.Edge x y) (fuel : Nat) (path : List Nat)
    (hpath : path ≠ []) (h : Walk g inside path) (hfuel : g.size + 1 ≤ fuel + path.length) :
    Circuit g (follow g inside fuel path) := by
  induction fuel generalizing path with
  | zero =>
    have hle : path.length ≤ g.size := by
      have hsub : path ⊆ List.range g.size := fun x hx =>
        List.mem_range.mpr (hlt x (h.within x hx))
      simpa using (h.distinct.subperm hsub).length_le
    omega
  | succ fuel ih =>
    cases path with
    | nil => exact absurd rfl hpath
    | cons x path =>
      obtain ⟨z, hz, hxz⟩ := hgoes x (h.within x List.mem_cons_self)
      have hmem : z ∈ (g.successors x).filter inside.contains := by
        rw [List.mem_filter, mem_successors, List.contains_iff_mem]
        exact ⟨hxz, hz⟩
      unfold follow
      cases hmin : ((g.successors x).filter inside.contains).min? with
      | none =>
        rw [List.min?_eq_none_iff] at hmin
        exact absurd hmem (hmin ▸ List.not_mem_nil)
      | some y =>
        have hy := List.min?_mem hmin
        rw [List.mem_filter, mem_successors, List.contains_iff_mem] at hy
        dsimp only
        by_cases hclosed : y ∈ x :: path
        · rw [if_pos (List.contains_iff_mem.mpr hclosed)]
          exact h.circuit hclosed hy.1
        · rw [if_neg (by rwa [List.contains_iff_mem])]
          refine ih _ (List.cons_ne_nil y _) (h.extend hy.2 hclosed hy.1) ?_
          simp only [List.length_cons] at hfuel ⊢
          omega

/-- What is found from a node on a cycle is a cycle. -/
theorem cycleFrom_circuit (g : Digraph) (hg : g.WellFormed) (x : Nat)
    (hx : Relation.TransGen g.Edge x x) : Circuit g (g.cycleFrom x) := by
  obtain ⟨y, hedge, _⟩ := Relation.TransGen.head'_iff.mp hx
  have hlt : x < g.size := hg.source_lt x y hedge
  refine g.follow_circuit (g.component x) (fun y hy => ?_) (g.component_goes_on hg x hlt hx) _ [x]
    (List.cons_ne_nil x []) ⟨fun y hy => ?_, List.nodup_singleton x, List.isChain_singleton x⟩
    (Nat.le_add_right _ _)
  · obtain ⟨z, _, hedge⟩ := g.component_goes_on hg x hlt hx y hy
    exact hg.source_lt y z hedge
  · rw [List.mem_singleton.mp hy, g.mem_component_iff hg x x hlt]
    exact ⟨.refl, .refl⟩

end Reconciliation.Digraph
