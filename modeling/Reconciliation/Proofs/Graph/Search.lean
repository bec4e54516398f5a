import Reconciliation.Graph.Topological
import Reconciliation.Proofs.Graph.Edges

/-!
Depth-first search with a stack on which a node may stand several times. A node that is
discovered but not finished stays on the stack, and what stands above it was reached from it;
so each of its successors is finished before it or leads back to it. Every node is finished in
the end, because the fuel covers each discovery and each edge.
-/
namespace Reconciliation.Digraph

namespace Search

/-- The node on top is done with. -/
def close (s : Search) (x : Nat) : Search :=
  { s with finished := if s.finished.contains x then s.finished else x :: s.finished }

def discover (s : Search) (x : Nat) : Search := { s with discovered := x :: s.discovered }

end Search

/-- The successors that a discovery puts on the stack. -/
def fresh (g : Digraph) (x : Nat) (seen : List Nat) : List Nat :=
  (g.successors x).filter fun y => !(x :: seen).contains y

theorem mem_fresh (g : Digraph) (x y : Nat) (seen : List Nat) :
    y ∈ g.fresh x seen ↔ g.Edge x y ∧ y ≠ x ∧ y ∉ seen := by
  simp [fresh, mem_successors]

theorem explore_close (g : Digraph) (fuel x : Nat) (rest : List Nat) (s : Search)
    (hx : x ∈ s.discovered) :
    g.explore (fuel + 1) (x :: rest) s = g.explore fuel rest (s.close x) := by
  simp [explore, hx, Search.close]

theorem explore_loop (g : Digraph) (fuel x : Nat) (rest : List Nat) (s : Search)
    (hx : x ∉ s.discovered) (hloop : g.Edge x x) :
    g.explore (fuel + 1) (x :: rest) s = .error x := by
  simp [explore, hx, mem_successors, hloop]

theorem explore_discover (g : Digraph) (fuel x : Nat) (rest : List Nat) (s : Search)
    (hx : x ∉ s.discovered) (hloop : ¬ g.Edge x x) :
    g.explore (fuel + 1) (x :: rest) s =
      g.explore fuel ((g.fresh x s.discovered).reverse ++ x :: rest) (s.discover x) := by
  simp [explore, hx, mem_successors, hloop, fresh, Search.discover]

/-- The steps that discoveries may still cost: one for each node, one for each of its edges. -/
def budget (g : Digraph) (seen : List Nat) : Nat :=
  ∑ x ∈ Finset.range g.size \ seen.toFinset, (1 + (g.successors x).length)

theorem budget_discover (g : Digraph) (seen : List Nat) (x : Nat) (hx : x < g.size)
    (hnew : x ∉ seen) :
    g.budget seen = 1 + (g.successors x).length + g.budget (x :: seen) := by
  have hmem : x ∈ Finset.range g.size \ seen.toFinset := by simp [hx, hnew]
  unfold budget
  rw [List.toFinset_cons, Finset.sdiff_insert,
    ← Finset.add_sum_erase _ (fun x => 1 + (g.successors x).length) hmem]

theorem budget_le (g : Digraph) (seen : List Nat) :
    g.budget seen ≤ g.size + g.edges.length := by
  have hedges := g.sum_length_successors_le (Finset.range g.size \ seen.toFinset)
  have hnodes : (Finset.range g.size \ seen.toFinset).card ≤ g.size := by
    calc (Finset.range g.size \ seen.toFinset).card
        ≤ (Finset.range g.size).card := Finset.card_le_card Finset.sdiff_subset
      _ = g.size := Finset.card_range g.size
  unfold budget
  rw [Finset.sum_add_distrib, ← Finset.card_eq_sum_ones]
  omega

/-- The fuel of a search pays for its start and everything that it can discover. -/
theorem budget_lt_exploreFuel (g : Digraph) (seen : List Nat) :
    g.budget seen + 1 ≤ g.exploreFuel := by
  have hbudget := g.budget_le seen
  unfold exploreFuel
  omega

/-- The part of the stack above the first entry of a node. -/
def above (x : Nat) (stack : List Nat) : List Nat := stack.takeWhile (· ≠ x)

theorem above_self (x : Nat) (rest : List Nat) : above x (x :: rest) = [] := by
  simp [above]

theorem above_cons (x y : Nat) (rest : List Nat) (hne : y ≠ x) :
    above x (y :: rest) = y :: above x rest := by
  simp [above, hne]

theorem above_append (x : Nat) (top rest : List Nat) (hx : x ∉ top) :
    above x (top ++ rest) = top ++ above x rest := by
  unfold above
  apply List.takeWhile_append_of_pos
  intro y hy
  simp only [decide_eq_true_eq]
  rintro rfl
  exact hx hy

/-- What holds of a search at every moment. -/
structure Searching (g : Digraph) (stack : List Nat) (s : Search) : Prop where
  finished_discovered : ∀ x ∈ s.finished, x ∈ s.discovered
  finished_nodup : s.finished.Nodup
  open_stacked : ∀ x ∈ s.discovered, x ∉ s.finished → x ∈ stack
  discovered_lt : ∀ x ∈ s.discovered, x < g.size
  stack_lt : ∀ x ∈ stack, x < g.size
  loopless : ∀ x ∈ s.discovered, ¬ g.Edge x x

/-- What holds besides. An edge leads to a node that is finished earlier, or that waits above on
the stack, or that leads back. -/
structure Descending (g : Digraph) (stack : List Nat) (s : Search) : Prop where
  reached : ∀ x ∈ s.discovered, x ∉ s.finished →
    ∀ y ∈ above x stack, Relation.TransGen g.Edge x y
  awaited : ∀ x ∈ s.discovered, x ∉ s.finished → ∀ y, g.Edge x y →
    y ∈ s.finished ∨ y ∈ above x stack ∨ Relation.TransGen g.Edge y x
  ordered : ∀ before x after, s.finished = before ++ x :: after →
    ∀ y, g.Edge x y → y ∈ after ∨ Relation.TransGen g.Edge y x

theorem mem_close (s : Search) (x y : Nat) :
    y ∈ (s.close x).finished ↔ y = x ∨ y ∈ s.finished := by
  unfold Search.close
  by_cases hx : x ∈ s.finished
  · simp only [List.contains_iff_mem, hx, if_true]
    constructor
    · exact Or.inr
    · rintro (rfl | hy)
      · exact hx
      · exact hy
  · simp [hx]

/-- A node is finished when the search comes back to it. -/
theorem Searching.close {g : Digraph} {x : Nat} {rest : List Nat} {s : Search}
    (h : Searching g (x :: rest) s) (hx : x ∈ s.discovered) :
    Searching g rest (s.close x) where
  finished_discovered y hy := by
    rcases (mem_close s x y).mp hy with rfl | hold
    · exact hx
    · exact h.finished_discovered y hold
  finished_nodup := by
    unfold Search.close
    by_cases hin : x ∈ s.finished
    · simp only [List.contains_iff_mem, hin, if_true]
      exact h.finished_nodup
    · simp only [List.contains_iff_mem, hin, if_false]
      exact List.nodup_cons.mpr ⟨hin, h.finished_nodup⟩
  open_stacked y hy hopen := by
    rw [mem_close, not_or] at hopen
    exact (List.mem_cons.mp (h.open_stacked y hy hopen.2)).resolve_left hopen.1
  discovered_lt := h.discovered_lt
  stack_lt y hy := h.stack_lt y (List.mem_cons_of_mem x hy)
  loopless := h.loopless

/-- A node that is discovered stays on the stack, with its new successors above it. -/
theorem Searching.discover {g : Digraph} (hg : g.WellFormed) {x : Nat} {rest : List Nat}
    {s : Search} (h : Searching g (x :: rest) s) (hloop : ¬ g.Edge x x) :
    Searching g ((g.fresh x s.discovered).reverse ++ x :: rest) (s.discover x) where
  finished_discovered y hy := List.mem_cons_of_mem x (h.finished_discovered y hy)
  finished_nodup := h.finished_nodup
  open_stacked y hy hopen := by
    refine List.mem_append_right _ ?_
    rcases List.mem_cons.mp hy with rfl | hold
    · exact List.mem_cons_self
    · exact h.open_stacked y hold hopen
  discovered_lt y hy := by
    rcases List.mem_cons.mp hy with rfl | hold
    · exact h.stack_lt y List.mem_cons_self
    · exact h.discovered_lt y hold
  stack_lt y hy := by
    rcases List.mem_append.mp hy with hfresh | hold
    · rw [List.mem_reverse, mem_fresh] at hfresh
      exact hg.target_lt x y hfresh.1
    · exact h.stack_lt y hold
  loopless y hy := by
    rcases List.mem_cons.mp hy with rfl | hold
    · exact hloop
    · exact h.loopless y hold

/-- A node is finished only after its successors that stood above it. -/
theorem Descending.close {g : Digraph} {x : Nat} {rest : List Nat} {s : Search}
    (h : Descending g (x :: rest) s) (hx : x ∈ s.discovered) :
    Descending g rest (s.close x) where
  reached y hy hopen z hz := by
    rw [mem_close, not_or] at hopen
    refine h.reached y hy hopen.2 z ?_
    rw [above_cons y x rest (Ne.symm hopen.1)]
    exact List.mem_cons_of_mem x hz
  awaited y hy hopen z hz := by
    rw [mem_close, not_or] at hopen
    have hold := h.awaited y hy hopen.2 z hz
    rw [above_cons y x rest (Ne.symm hopen.1), List.mem_cons] at hold
    rw [mem_close]
    rcases hold with hfin | (rfl | habove) | hback
    · exact Or.inl (Or.inr hfin)
    · exact Or.inl (Or.inl rfl)
    · exact Or.inr (Or.inl habove)
    · exact Or.inr (Or.inr hback)
  ordered before y after heq z hz := by
    unfold Search.close at heq
    by_cases hin : x ∈ s.finished
    · simp only [List.contains_iff_mem, hin, if_true] at heq
      exact h.ordered before y after heq z hz
    · simp only [List.contains_iff_mem, hin, if_false] at heq
      cases before with
      | nil =>
        obtain ⟨rfl, rfl⟩ := List.cons_eq_cons.mp heq
        have hsucc := h.awaited x hx hin z hz
        rw [above_self] at hsucc
        exact hsucc.imp_right fun hold => hold.resolve_left List.not_mem_nil
      | cons w before =>
        exact h.ordered before y after (List.cons_eq_cons.mp heq).2 z hz

/-- A successor of a node that is discovered was not discovered before, or it is finished, or
it leads back: everything on the stack above an unfinished node was reached from it. -/
theorem Descending.discover {g : Digraph} {x : Nat} {rest : List Nat} {s : Search}
    (h : Descending g (x :: rest) s) (hx : x ∉ s.discovered) (hloop : ¬ g.Edge x x) :
    Descending g ((g.fresh x s.discovered).reverse ++ x :: rest) (s.discover x) := by
  have hself : x ∉ (g.fresh x s.discovered).reverse := by
    rw [List.mem_reverse, mem_fresh]
    exact fun hmem => hmem.2.1 rfl
  have hold : ∀ y ∈ s.discovered, y ∉ (g.fresh x s.discovered).reverse := by
    intro y hy
    rw [List.mem_reverse, mem_fresh]
    exact fun hmem => hmem.2.2 hy
  have hbelow : ∀ y ∈ s.discovered, y ∉ s.finished → Relation.TransGen g.Edge y x := by
    intro y hy hopen
    have hne : x ≠ y := fun heq => hx (heq ▸ hy)
    refine h.reached y hy hopen x ?_
    rw [above_cons y x rest hne]
    exact List.mem_cons_self
  refine ⟨?_, ?_, h.ordered⟩
  · intro y hy hopen z hz
    rcases List.mem_cons.mp hy with rfl | hdisc
    · rw [above_append _ _ _ hself, above_self, List.append_nil, List.mem_reverse,
        mem_fresh] at hz
      exact .single hz.1
    · rw [above_append _ _ _ (hold y hdisc), List.mem_append, List.mem_reverse, mem_fresh] at hz
      rcases hz with hfresh | habove
      · exact (hbelow y hdisc hopen).tail hfresh.1
      · exact h.reached y hdisc hopen z habove
  · intro y hy hopen z hz
    rcases List.mem_cons.mp hy with rfl | hdisc
    · rw [above_append _ _ _ hself, above_self, List.append_nil, List.mem_reverse, mem_fresh]
      by_cases hfin : z ∈ s.finished
      · exact Or.inl hfin
      by_cases hseen : z ∈ s.discovered
      · exact Or.inr (Or.inr (hbelow z hseen hfin))
      · exact Or.inr (Or.inl ⟨hz, fun heq => hloop (heq ▸ hz), hseen⟩)
    · rw [above_append _ _ _ (hold y hdisc), List.mem_append]
      exact (h.awaited y hdisc hopen z hz).imp_right (Or.imp_left Or.inr)

/-- The outcome of a search: an edge from a node to itself, or an empty stack and all of some
nodes discovered. -/
def Explored (g : Digraph) (nodes : List Nat) : Except Nat Search → Prop
  | .error x => g.Edge x x
  | .ok s => Searching g [] s ∧ Descending g [] s ∧ ∀ x ∈ nodes, x ∈ s.discovered

theorem Explored.mono {g : Digraph} {nodes nodes' : List Nat} {r : Except Nat Search}
    (h : Explored g nodes r) (hnodes : ∀ x ∈ nodes', x ∈ nodes) : Explored g nodes' r := by
  cases r with
  | error x => exact h
  | ok s =>
    obtain ⟨hsearch, hdescends, hdiscovered⟩ := h
    exact ⟨hsearch, hdescends, fun x hx => hdiscovered x (hnodes x hx)⟩

/-- With enough fuel the search from a stack finishes all that stands on it. -/
theorem explore_explored (g : Digraph) (hg : g.WellFormed) (fuel : Nat) (stack : List Nat)
    (s : Search) (h : Searching g stack s) (hd : Descending g stack s)
    (hfuel : stack.length + g.budget s.discovered ≤ fuel) :
    Explored g (stack ++ s.discovered) (g.explore fuel stack s) := by
  induction fuel generalizing stack s with
  | zero =>
    obtain rfl : stack = [] := List.length_eq_zero_iff.mp (by omega)
    exact ⟨h, hd, fun x hx => hx⟩
  | succ fuel ih =>
    cases stack with
    | nil => exact ⟨h, hd, fun x hx => hx⟩
    | cons x rest =>
      rw [List.length_cons] at hfuel
      by_cases hx : x ∈ s.discovered
      · have hbudget : rest.length + g.budget (s.close x).discovered ≤ fuel := by
          change rest.length + g.budget s.discovered ≤ fuel
          omega
        rw [explore_close g fuel x rest s hx]
        refine (ih rest (s.close x) (h.close hx) (hd.close hx) hbudget).mono fun y hy => ?_
        rcases List.mem_cons.mp hy with rfl | hy
        · exact List.mem_append_right _ hx
        · exact hy
      by_cases hloop : g.Edge x x
      · rw [explore_loop g fuel x rest s hx hloop]
        exact hloop
      · have hfresh : (g.fresh x s.discovered).length ≤ (g.successors x).length :=
          List.length_filter_le _ _
        have hcost := g.budget_discover s.discovered x (h.stack_lt x List.mem_cons_self) hx
        have hbudget : ((g.fresh x s.discovered).reverse ++ x :: rest).length +
            g.budget (s.discover x).discovered ≤ fuel := by
          rw [List.length_append, List.length_reverse, List.length_cons]
          change _ + g.budget (x :: s.discovered) ≤ fuel
          omega
        rw [explore_discover g fuel x rest s hx hloop]
        refine (ih _ _ (h.discover hg hloop) (hd.discover hx hloop) hbudget).mono fun y hy => ?_
        rcases List.mem_append.mp hy with hstack | hdisc
        · exact List.mem_append_left _ (List.mem_append_right _ hstack)
        · exact List.mem_append_right _ (List.mem_cons_of_mem x hdisc)

/-- Between searches from single nodes everything discovered is finished. -/
theorem Searching.finished_of_discovered {g : Digraph} {s : Search} (h : Searching g [] s)
    (x : Nat) (hx : x ∈ s.discovered) : x ∈ s.finished := by
  by_contra hopen
  exact List.not_mem_nil (h.open_stacked x hx hopen)

theorem Searching.start {g : Digraph} {s : Search} (h : Searching g [] s) (x : Nat)
    (hx : x < g.size) : Searching g [x] s where
  finished_discovered := h.finished_discovered
  finished_nodup := h.finished_nodup
  open_stacked y hy hopen := absurd (h.finished_of_discovered y hy) hopen
  discovered_lt := h.discovered_lt
  stack_lt _ hy := by
    rw [List.mem_singleton.mp hy]
    exact hx
  loopless := h.loopless

theorem Descending.start {g : Digraph} {s : Search} (hs : Searching g [] s)
    (h : Descending g [] s) (x : Nat) : Descending g [x] s where
  reached y hy hopen := absurd (hs.finished_of_discovered y hy) hopen
  awaited y hy hopen := absurd (hs.finished_of_discovered y hy) hopen
  ordered := h.ordered

/-- The searches from all nodes in turn finish all of them. -/
theorem exploreAll_explored (g : Digraph) (hg : g.WellFormed) (xs : List Nat)
    (hxs : ∀ x ∈ xs, x < g.size) (s : Search) (h : Searching g [] s) (hd : Descending g [] s) :
    Explored g (xs ++ s.discovered) (g.exploreAll xs s) := by
  induction xs generalizing s with
  | nil => exact ⟨h, hd, fun x hx => hx⟩
  | cons x rest ih =>
    have hx : x < g.size := hxs x List.mem_cons_self
    have hrest : ∀ y ∈ rest, y < g.size := fun y hy => hxs y (List.mem_cons_of_mem x hy)
    unfold exploreAll
    by_cases hseen : x ∈ s.discovered
    · simp only [List.contains_iff_mem, hseen, if_true]
      refine (ih hrest s h hd).mono fun y hy => ?_
      rcases List.mem_cons.mp hy with rfl | hy
      · exact List.mem_append_right _ hseen
      · exact hy
    · simp only [List.contains_iff_mem, hseen, if_false]
      have hfuel : [x].length + g.budget s.discovered ≤ g.exploreFuel := by
        have hbudget := g.budget_lt_exploreFuel s.discovered
        rw [List.length_singleton]
        omega
      have hfirst :=
        explore_explored g hg g.exploreFuel [x] s (h.start x hx) (hd.start h x) hfuel
      cases hr : g.explore g.exploreFuel [x] s with
      | error y =>
        rw [hr] at hfirst
        exact hfirst
      | ok s' =>
        rw [hr] at hfirst
        obtain ⟨hsearch, hdescends, hdiscovered⟩ := hfirst
        refine (ih hrest s' hsearch hdescends).mono fun y hy => ?_
        rcases List.mem_append.mp hy with hlist | hdisc
        · rcases List.mem_cons.mp hlist with rfl | hlist
          · exact List.mem_append_right _ (hdiscovered y List.mem_cons_self)
          · exact List.mem_append_left _ hlist
        · exact List.mem_append_right _ (hdiscovered y (List.mem_append_right _ hdisc))

end Reconciliation.Digraph
