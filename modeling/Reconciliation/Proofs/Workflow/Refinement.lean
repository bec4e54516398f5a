import Reconciliation.Proofs.Workflow.Passage

/-!
The concurrent pass and the pass that takes one node at a time. However long the answers take
and however many nodes may run at a time, both have the same outcomes.
-/
namespace Reconciliation

namespace WorkflowPlan
variable {I : Interface} {σ : Type}

/-- A pass over an accepted workflow comes to its end, and whatever the delays of the answers
and the bound on the running nodes are, it records for every node the outcome that the node has
when one node is taken at a time. -/
theorem pass_refines_sequential (p : WorkflowPlan I) (w : Workflow I) (hw : p.build = .ok w)
    (env : Environment I σ) (primary : ManagedObject) (ctx : Context)
    (answers : String → NodeAnswers)
    (hans : ∀ n ∈ p.nodes, n.Answers env primary ctx (answers n.name)) (mode : PassMode)
    (now : Nat) (s : σ) :
    (∃ fuel r, ((w.pass mode primary ctx).finish env fuel now s).1 = some r) ∧
      ∀ fuel r, ((w.pass mode primary ctx).finish env fuel now s).1 = some r →
        r.completionOrder.Nodup ∧
          ∀ name, r.outcome? name = w.sequentialOutcome? mode answers name := by
  obtain ⟨hformed, hnodes⟩ := p.build_wellFormed w hw
  have hans' : ∀ n ∈ w.nodes, n.node.Answers env primary ctx (answers n.node.name) := by
    intro n hn
    refine hans n.node ?_
    rw [← hnodes]
    exact List.mem_map_of_mem hn
  have hcourse : Pass.OnCourse w env answers primary ctx mode (w.pass mode primary ctx) :=
    .walking mode _ ((w.walk mode).sound_begin hformed env _)
  refine ⟨hcourse.underway.exists_finish hformed now s, fun fuel r hr => ?_⟩
  exact hcourse.settled_of_finish hformed hans' fuel _ now s r hr

/-- Calls that only take their time, in milliseconds. -/
abbrev waiting : Interface := ⟨Nat, fun _ => Unit⟩

def clock : Environment waiting Unit where
  issue _ delay s := (delay, s)
  answer _ _ s := ((), s)

/-- A node that gives each of its answers after a delay. -/
def slowNode (name : String) (dependsOn : List String) (delay : Nat) (a : NodeAnswers) :
    Node waiting where
  name := name
  dependsOn := dependsOn
  capability := ⟨.mutating, .singleton⟩
  check kind _ _ := (a.check kind).map fun answer => .call delay fun _ => .done answer
  reconcile _ _ := .call delay fun _ => .done a.reconcile
  delete _ _ := .call delay fun _ => .done a.delete

/-- The answers do not depend on the delay with which they are given. -/
theorem slowNode_answers (env : Environment waiting σ) (primary : ManagedObject) (ctx : Context)
    (name : String) (dependsOn : List String) (delay : Nat) (a : NodeAnswers) :
    (slowNode name dependsOn delay a).Answers env primary ctx a := by
  have hslow : ∀ (answer : Except Error Operations) r, (Task.call delay fun _ =>
      .done answer : Task waiting Error _).Returns env r → r = answer := by
    intro answer r hr
    cases hr with
    | call _ _ _ _ _ hr => exact Task.eq_of_returns_done env _ _ hr
  refine ⟨fun kind => ?_, hslow a.reconcile, hslow a.delete⟩
  unfold slowNode
  dsimp only
  cases a.check kind with
  | none => exact .none
  | some answer =>
    refine .some fun r hr => ?_
    cases hr with
    | call _ _ _ _ _ hr =>
      cases hr
      rfl

/-- Settings that are inactive and a cache that is not wanted any more; the page needs the
former, the interface both. -/
def rolloutAnswers : String → NodeAnswers
  | "settings" => { check := fun | .activation => some (.ok false) | _ => none }
  | "cache" => { check := fun | .reconcilePrecondition => some (.ok false) | _ => none }
  | "api" => { delete := .ok { deleted := 1 } }
  | _ => {}

def rollout : WorkflowPlan waiting where
  name := "rollout"
  nodes := [slowNode "api" ["settings", "cache"] 4 (rolloutAnswers "api"),
    slowNode "settings" [] 3 (rolloutAnswers "settings"),
    slowNode "cache" [] 5 (rolloutAnswers "cache"),
    slowNode "page" ["settings"] 1 (rolloutAnswers "page")]

/-- Below both, the mark goes before the inactive node. -/
theorem pass_refines_sequential_rollout :
    ∃ w, rollout.build = .ok w ∧ ∃ fuel r,
      ((w.pass .reconcile default { primary := default }).finish clock fuel 0 ()).1 = some r ∧
        r.outcome? "api" = some (.deleted { deleted := 1 }) ∧
        r.outcome? "page" = some .skippedInactive := by
  have hbuild : rollout.build = .ok (rollout.ordered [2, 1, 3, 0]) := rfl
  have hans : ∀ n ∈ rollout.nodes,
      n.Answers clock default { primary := default } (rolloutAnswers n.name) := by
    unfold rollout
    simp only [List.forall_mem_cons]
    refine ⟨?_, ?_, ?_, ?_, fun _ h => absurd h List.not_mem_nil⟩
    all_goals exact slowNode_answers clock _ _ _ _ _ _
  obtain ⟨⟨fuel, r, hr⟩, hresult⟩ := rollout.pass_refines_sequential _ hbuild clock default
    { primary := default } rolloutAnswers hans .reconcile 0 ()
  obtain ⟨_, houtcome⟩ := hresult fuel r hr
  refine ⟨_, hbuild, fuel, r, hr, ?_, ?_⟩
  · rw [houtcome]
    rfl
  · rw [houtcome]
    rfl

end WorkflowPlan
end Reconciliation
