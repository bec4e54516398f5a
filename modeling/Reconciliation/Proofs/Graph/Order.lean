import Reconciliation.Proofs.Graph.Search

/-!
Topological orders. The search against the edges from each node in turn reaches a second node
exactly if some edge into the node does not come from before it; so the candidate order is
accepted exactly if every edge leads forward. An edge of the candidate that leads backward lies
on a cycle, and a cycle lets no order lead forward.
-/
namespace Reconciliation.Digraph

/-- Every edge into a node of the list comes from before it. -/
def Forward (g : Digraph) (order : List Nat) : Prop :=
  ∀ before x after, order = before ++ x :: after → ∀ y, g.Edge y x → y ∈ before

/-- An edge that leads forward goes to a later position. -/
theorem Forward.idxOf_lt {g : Digraph} {order : List Nat} (h : g.Forward order) (x y : Nat)
    (hx : x ∈ order) (hedge : g.Edge y x) : order.idxOf y < order.idxOf x := by
  obtain ⟨before, after, heq, hnot⟩ := List.eq_append_cons_of_mem hx
  have hy : y ∈ before := h before x after heq y hedge
  have hxpos : order.idxOf x = before.length := by
    rw [heq, List.idxOf_append_of_notMem hnot, List.idxOf_cons_self, Nat.add_zero]
  have hypos : order.idxOf y = before.idxOf y := by
    rw [heq, List.idxOf_append_of_mem hy]
  rw [hxpos, hypos]
  exact List.idxOf_lt_length_of_mem hy

theorem Forward.acyclic {g : Digraph} {order : List Nat} (h : g.Forward order)
    (hall : ∀ x y, g.Edge x y → y ∈ order) : g.Acyclic := by
  have hlt : ∀ x y, Relation.TransGen g.Edge x y → order.idxOf x < order.idxOf y := by
    intro x y hpath
    induction hpath with
    | single hedge => exact h.idxOf_lt _ x (hall _ _ hedge) hedge
    | tail _ hedge ih => exact ih.trans (h.idxOf_lt _ _ (hall _ _ hedge) hedge)
  intro x hcycle
  exact Nat.lt_irrefl _ (hlt x x hcycle)

theorem backward_extends (g : Digraph) (fuel : Nat) (stack seen visited : List Nat) :
    ∃ more, (g.backward fuel stack seen visited).1 = visited ++ more := by
  induction fuel generalizing stack seen visited with
  | zero => exact ⟨[], (List.append_nil visited).symm⟩
  | succ fuel ih =>
    cases stack with
    | nil => exact ⟨[], (List.append_nil visited).symm⟩
    | cons x rest =>
      unfold backward
      split
      · exact ih rest seen visited
      · obtain ⟨more, hmore⟩ := ih
          (((g.predecessors x).filter fun y => !(x :: seen).contains y).reverse ++ rest)
          (x :: seen) (visited ++ [x])
        exact ⟨x :: more, by rw [hmore, List.append_assoc, List.singleton_append]⟩

/-- A search against the edges stops at its start if everything before it was seen. -/
theorem backward_alone (g : Digraph) (fuel x : Nat) (seen : List Nat) (hx : x ∉ seen)
    (hpred : ∀ y, g.Edge y x → y = x ∨ y ∈ seen) :
    g.backward (fuel + 2) [x] seen [] = ([x], x :: seen) := by
  have hnone : ((g.predecessors x).filter fun y => !(x :: seen).contains y) = [] := by
    rw [List.filter_eq_nil_iff]
    intro y hy
    rw [mem_predecessors] at hy
    have hseen : (x :: seen).contains y = true :=
      List.contains_iff_mem.mpr (List.mem_cons.mpr (hpred y hy))
    rw [hseen]
    decide
  simp only [backward, List.contains_iff_mem, hx, if_false, hnone, List.reverse_nil,
    List.nil_append]

/-- Otherwise it goes on to such a node. -/
theorem backward_goes_on (g : Digraph) (fuel x y : Nat) (seen : List Nat) (hx : x ∉ seen)
    (hedge : g.Edge y x) (hy : y ≠ x ∧ y ∉ seen) :
    ∃ z more, (g.backward (fuel + 2) [x] seen []).1 = x :: z :: more ∧
      g.Edge z x ∧ z ≠ x ∧ z ∉ seen := by
  have hmem : y ∈ ((g.predecessors x).filter fun y => !(x :: seen).contains y).reverse := by
    simp [mem_predecessors, hedge, hy.1, hy.2]
  obtain ⟨z, rest, hstack⟩ := List.exists_cons_of_ne_nil (List.ne_nil_of_mem hmem)
  have hfirst : z ∈ ((g.predecessors x).filter fun y => !(x :: seen).contains y).reverse := by
    rw [hstack]
    exact List.mem_cons_self
  have hz : g.Edge z x ∧ z ≠ x ∧ z ∉ seen := by
    simpa [mem_predecessors] using hfirst
  have hnew : z ∉ x :: seen := by
    rw [List.mem_cons, not_or]
    exact hz.2
  obtain ⟨more, hmore⟩ := g.backward_extends fuel
    (((g.predecessors z).filter fun y => !(z :: x :: seen).contains y).reverse ++ rest)
    (z :: x :: seen) [x, z]
  refine ⟨z, more, ?_, hz⟩
  simp only [backward, List.contains_iff_mem, hx, if_false, List.append_nil, hstack, hnew,
    List.nil_append]
  exact hmore

/-- Every edge into a node of the order comes from before it, from a node seen earlier, or is a
loop. -/
def Foreseen (g : Digraph) (seen order : List Nat) : Prop :=
  ∀ before x after, order = before ++ x :: after →
    ∀ y, g.Edge y x → y = x ∨ y ∈ seen ∨ y ∈ before

theorem foreseen_nil (g : Digraph) (seen : List Nat) : g.Foreseen seen [] := by
  intro before x after h
  exact absurd h.symm (List.append_ne_nil_of_right_ne_nil before (List.cons_ne_nil x after))

/-- The first node of an order needs nothing but itself and what was seen before. -/
theorem foreseen_cons (g : Digraph) (seen rest : List Nat) (x : Nat) :
    g.Foreseen seen (x :: rest) ↔
      (∀ y, g.Edge y x → y = x ∨ y ∈ seen) ∧ g.Foreseen (x :: seen) rest := by
  constructor
  · intro h
    refine ⟨fun y hedge => ?_, fun before z after heq y hedge => ?_⟩
    · exact (h [] x rest rfl y hedge).imp_right fun hy => hy.resolve_right List.not_mem_nil
    · rcases h (x :: before) z after (by rw [heq]; rfl) y hedge with hself | hseen | hbefore
      · exact Or.inl hself
      · exact Or.inr (Or.inl (List.mem_cons_of_mem x hseen))
      · rcases List.mem_cons.mp hbefore with rfl | hbefore
        · exact Or.inr (Or.inl List.mem_cons_self)
        · exact Or.inr (Or.inr hbefore)
  · rintro ⟨hpred, h⟩ before z after heq y hedge
    cases before with
    | nil =>
      obtain ⟨rfl, _⟩ := List.cons_eq_cons.mp heq
      exact (hpred y hedge).imp_right Or.inl
    | cons w before =>
      obtain ⟨rfl, htail⟩ := List.cons_eq_cons.mp heq
      rcases h before z after htail y hedge with hself | hseen | hbefore
      · exact Or.inl hself
      · rcases List.mem_cons.mp hseen with rfl | hseen
        · exact Or.inr (Or.inr List.mem_cons_self)
        · exact Or.inr (Or.inl hseen)
      · exact Or.inr (Or.inr (List.mem_cons_of_mem _ hbefore))

/-- A node is passed over if the search backward from it finds no other one; otherwise a
predecessor of it that was not seen is caught. -/
theorem firstCaught_cons (g : Digraph) (x : Nat) (rest seen : List Nat) (hx : x ∉ seen) :
    ((∀ y, g.Edge y x → y = x ∨ y ∈ seen) ∧
      g.firstCaught (x :: rest) seen = g.firstCaught rest (x :: seen)) ∨
    ∃ y, g.Edge y x ∧ y ≠ x ∧ y ∉ seen ∧ g.firstCaught (x :: rest) seen = some y := by
  by_cases hpred : ∀ y, g.Edge y x → y = x ∨ y ∈ seen
  · have hback := g.backward_alone (2 * g.size + g.edges.length) x seen hx hpred
    refine Or.inl ⟨hpred, ?_⟩
    unfold firstCaught exploreFuel
    rw [hback]
    cases rest <;> rfl
  · have hback : ∃ y, g.Edge y x ∧ y ≠ x ∧ y ∉ seen := by
      simpa only [not_forall, not_or, exists_prop] using hpred
    obtain ⟨y, hedge, hy⟩ := hback
    obtain ⟨z, more, hvisited, hz, hne, hnew⟩ :=
      g.backward_goes_on (2 * g.size + g.edges.length) x y seen hx hedge hy
    refine Or.inr ⟨z, hz, hne, hnew, ?_⟩
    unfold firstCaught exploreFuel
    generalize g.backward (2 * g.size + g.edges.length + 2) [x] seen [] = result at hvisited
    obtain ⟨visited, seen'⟩ := result
    obtain rfl : visited = x :: z :: more := hvisited
    rfl

theorem firstCaught_cons_eq_none_iff (g : Digraph) (x : Nat) (rest seen : List Nat)
    (hx : x ∉ seen) :
    g.firstCaught (x :: rest) seen = none ↔
      (∀ y, g.Edge y x → y = x ∨ y ∈ seen) ∧ g.firstCaught rest (x :: seen) = none := by
  rcases g.firstCaught_cons x rest seen hx with ⟨hpred, hstep⟩ | ⟨y, hedge, hne, hnew, hstep⟩
  · rw [hstep]
    exact ⟨fun h => ⟨hpred, h⟩, fun h => h.2⟩
  · rw [hstep]
    exact ⟨fun h => (Option.some_ne_none y h).elim,
      fun h => ((h.1 y hedge).elim hne hnew).elim⟩

theorem unseen_of_nodup {x : Nat} {rest seen : List Nat} (hnodup : (x :: rest).Nodup)
    (hdisjoint : ∀ y ∈ x :: rest, y ∉ seen) : ∀ y ∈ rest, y ∉ x :: seen := by
  intro y hy hmem
  rcases List.mem_cons.mp hmem with rfl | hseen
  · exact (List.nodup_cons.mp hnodup).1 hy
  · exact hdisjoint y (List.mem_cons_of_mem x hy) hseen

/-- What is caught has an edge into the order, but does not come from before its target. -/
theorem firstCaught_eq_some (g : Digraph) (order seen : List Nat) (y : Nat)
    (hnodup : order.Nodup) (hdisjoint : ∀ x ∈ order, x ∉ seen)
    (h : g.firstCaught order seen = some y) :
    y ∉ seen ∧ ∃ before x after, order = before ++ x :: after ∧ g.Edge y x ∧ y ∉ before := by
  induction order generalizing seen with
  | nil => cases h
  | cons x rest ih =>
    rcases g.firstCaught_cons x rest seen (hdisjoint x List.mem_cons_self) with
      ⟨_, hstep⟩ | ⟨z, hedge, _, hnew, hstep⟩
    · obtain ⟨hunseen, before, z, after, heq, hedge, hbefore⟩ :=
        ih (x :: seen) hnodup.of_cons (unseen_of_nodup hnodup hdisjoint) (hstep.symm.trans h)
      rw [List.mem_cons, not_or] at hunseen
      refine ⟨hunseen.2, x :: before, z, after, by rw [heq]; rfl, hedge, ?_⟩
      rw [List.mem_cons, not_or]
      exact ⟨hunseen.1, hbefore⟩
    · obtain rfl := Option.some.inj (hstep.symm.trans h)
      exact ⟨hnew, [], x, rest, rfl, hedge, List.not_mem_nil⟩

/-- Nothing is caught exactly if every edge comes from before, is seen, or is a loop. -/
theorem firstCaught_eq_none_iff (g : Digraph) (order seen : List Nat) (hnodup : order.Nodup)
    (hdisjoint : ∀ x ∈ order, x ∉ seen) :
    g.firstCaught order seen = none ↔ g.Foreseen seen order := by
  induction order generalizing seen with
  | nil => exact ⟨fun _ => g.foreseen_nil seen, fun _ => rfl⟩
  | cons x rest ih =>
    rw [g.firstCaught_cons_eq_none_iff x rest seen (hdisjoint x List.mem_cons_self),
      foreseen_cons, ih (x :: seen) hnodup.of_cons (unseen_of_nodup hnodup hdisjoint)]

/-- The candidate order lists every node once. -/
theorem finished_perm {g : Digraph} {s : Search} (h : Searching g [] s)
    (hall : ∀ x ∈ List.range g.size, x ∈ s.discovered) : s.finished.Perm (List.range g.size) := by
  rw [List.perm_ext_iff_of_nodup h.finished_nodup List.nodup_range]
  intro x
  constructor
  · intro hx
    exact List.mem_range.mpr (h.discovered_lt x (h.finished_discovered x hx))
  · intro hx
    exact h.finished_of_discovered x (hall x hx)

/-- An edge that does not lead forward in the candidate order lies on a cycle: its target was
finished after its source, so it leads back to the source. -/
theorem finished_forward_or_cyclic {g : Digraph} (hg : g.WellFormed) {s : Search}
    (h : Searching g [] s) (hd : Descending g [] s)
    (hall : ∀ x ∈ List.range g.size, x ∈ s.discovered) {before after : List Nat} {x y : Nat}
    (heq : s.finished = before ++ x :: after) (hedge : g.Edge y x) :
    y ∈ before ∨ Relation.TransGen g.Edge y y := by
  have hmem : y ∈ s.finished :=
    h.finished_of_discovered y (hall y (List.mem_range.mpr (hg.source_lt y x hedge)))
  have hnodup := h.finished_nodup
  rw [heq] at hmem hnodup
  rw [List.mem_append, List.mem_cons] at hmem
  rcases hmem with hbefore | rfl | hafter
  · exact Or.inl hbefore
  · exact Or.inr (.single hedge)
  · obtain ⟨between, later, rfl⟩ := List.append_of_mem hafter
    have hsplit : s.finished = (before ++ x :: between) ++ y :: later := by
      rw [heq, List.append_assoc, List.cons_append]
    rcases hd.ordered _ y later hsplit x hedge with hlater | hback
    · have hnew : x ∉ between ++ y :: later :=
        (List.nodup_cons.mp (List.nodup_append.mp hnodup).2.1).1
      exact absurd (List.mem_append_right between (List.mem_cons_of_mem y hlater)) hnew
    · exact Or.inr (.head hedge hback)

theorem searching_empty (g : Digraph) : Searching g [] {} where
  finished_discovered _ hx := absurd hx List.not_mem_nil
  finished_nodup := List.nodup_nil
  open_stacked _ hx := absurd hx List.not_mem_nil
  discovered_lt _ hx := absurd hx List.not_mem_nil
  stack_lt _ hx := absurd hx List.not_mem_nil
  loopless _ hx := absurd hx List.not_mem_nil

theorem descending_empty (g : Digraph) : Descending g [] {} where
  reached _ hx := absurd hx List.not_mem_nil
  awaited _ hx := absurd hx List.not_mem_nil
  ordered before x after h := absurd h.symm (List.append_ne_nil_of_right_ne_nil before
    (List.cons_ne_nil x after))

/-- The candidate order is accepted exactly if it leads forward. -/
theorem firstCaught_finished (g : Digraph) {s : Search} (h : Searching g [] s) :
    g.firstCaught s.finished [] = none ↔ g.Forward s.finished := by
  rw [firstCaught_eq_none_iff g s.finished [] h.finished_nodup fun _ _ => List.not_mem_nil]
  constructor
  · intro hcaught before x after heq y hedge
    have hx : x ∈ s.discovered := h.finished_discovered x (by rw [heq]; simp)
    rcases hcaught before x after heq y hedge with rfl | hseen | hbefore
    · exact absurd hedge (h.loopless y hx)
    · exact absurd hseen List.not_mem_nil
    · exact hbefore
  · intro hforward before x after heq y hedge
    exact Or.inr (Or.inr (hforward before x after heq y hedge))

/-- A search without a loop gives the finished nodes, unless one of them is caught. -/
theorem topological_of_explored (g : Digraph) (s : Search)
    (hs : g.exploreAll (List.range g.size) {} = .ok s) :
    g.topological = (g.firstCaught s.finished []).elim (.ok s.finished) .error := by
  have hbind : ∀ f : Search → Except Nat (List Nat), (Except.ok s >>= f) = f s := fun _ => rfl
  unfold topological
  rw [hs, hbind]
  cases g.firstCaught s.finished [] <;> rfl

/-- The outcome of sorting: every node once and every edge forward, or a node on a cycle. -/
theorem topological_spec (g : Digraph) (hg : g.WellFormed) :
    (∃ order, g.topological = .ok order ∧ order.Perm (List.range g.size) ∧
      g.Forward order) ∨
    ∃ x, g.topological = .error x ∧ Relation.TransGen g.Edge x x := by
  have hexplored := exploreAll_explored g hg (List.range g.size)
    (fun x hx => List.mem_range.mp hx) {} g.searching_empty g.descending_empty
  cases hs : g.exploreAll (List.range g.size) {} with
  | error x =>
    rw [hs] at hexplored
    refine Or.inr ⟨x, ?_, .single hexplored⟩
    unfold topological
    rw [hs]
    rfl
  | ok s =>
    rw [hs] at hexplored
    rw [g.topological_of_explored s hs]
    obtain ⟨hsearch, hdescends, hdiscovered⟩ := hexplored
    have hall : ∀ x ∈ List.range g.size, x ∈ s.discovered :=
      fun x hx => hdiscovered x (List.mem_append_left _ hx)
    cases hf : g.firstCaught s.finished [] with
    | none =>
      have hforward := (g.firstCaught_finished hsearch).mp hf
      exact Or.inl ⟨s.finished, rfl, finished_perm hsearch hall, hforward⟩
    | some y =>
      obtain ⟨_, before, x, after, heq, hedge, hbefore⟩ := g.firstCaught_eq_some s.finished [] y
        hsearch.finished_nodup (fun _ _ => List.not_mem_nil) hf
      have hcyclic := finished_forward_or_cyclic hg hsearch hdescends hall heq hedge
      exact Or.inr ⟨y, rfl, hcyclic.resolve_left hbefore⟩

end Reconciliation.Digraph
