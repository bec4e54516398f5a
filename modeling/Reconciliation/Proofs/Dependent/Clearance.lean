import Reconciliation.Proofs.Cluster.Dwindling
import Reconciliation.Proofs.Dependent.Ownership
import Reconciliation.Proofs.Workflow.Attainment

/-!
What the cleanup of owned objects leaves behind. A single object is deleted under the identity
that its template gives it. The objects of a set are deleted by name: of several with one name, in
different namespaces, only the last one is.
-/
namespace Reconciliation

theorem BulkPlan.members_deletion {I : Interface} {R : Type} (w : BulkWrites I R)
    (observed : SortedMap String R) :
    (deletion observed).members w = observed.entries.map fun e => w.delete e.1 e.2 := by
  unfold members deletion
  rw [List.map_nil, List.map_nil, List.append_nil, List.append_nil]

namespace Owned

open Client

/-- What a primary keeps in a cluster through one dependent: an object, or a set of objects. -/
inductive Holding where
  | object (kind : String) (template : Template)
  | objects (kind : String) (template : SetTemplate)

/-- The primary owns another object of the same name. -/
def Namesake (primary : ManagedObject) (kind : String) (c : Cluster) (o : ManagedObject) : Prop :=
  ∃ o' ∈ c.ownedBy primary.id kind, o'.id.name = o.id.name ∧ o'.id ≠ o.id

namespace Holding

def adapter : Holding → Adapter plainInterface ManagedObject
  | object kind template => Owned.object plain .mutating kind template
  | objects kind template => Owned.objects plain .mutating kind template

/-- The object is gone, and so are the members of the set, but for those with a namesake at the
start. -/
def Cleared (primary : ManagedObject) (start c : Cluster) : Holding → Prop
  | object kind template => ∀ o, render kind template primary = .ok o → c.Gone o.id
  | objects kind _ => ∀ o ∈ c.ownedBy primary.id kind,
    o.isTerminating = true ∨ Namesake primary kind start o

theorem Cleared.later {x : Holding} {primary : ManagedObject} {start c c' : Cluster}
    (h : x.Cleared primary start c) (hc : c.Keyed) (hmove : c.Dwindles c') :
    x.Cleared primary start c' := by
  cases x with
  | object kind template => exact fun o ho => hmove.gone hc (h o ho)
  | objects kind template =>
    intro o' ho'
    obtain ⟨o, ho, hid, hterminating⟩ := hmove.exists_ownedBy hc ho'
    rcases h o ho with hgone | ⟨other, hother, hname, hne⟩
    · exact Or.inl (hterminating hgone)
    · exact Or.inr ⟨other, hother, hid ▸ hname, hid ▸ hne⟩

/-- What the cleanup of the dependent is to leave. -/
def goal (x : Holding) (primary : ManagedObject) (start : Cluster) : Goal Cluster.Dwindles where
  Holds := fun c => c.Keyed ∧ x.Cleared primary start c
  lasts := fun _ _ hmove h => ⟨hmove.keyed h.1, h.2.later h.1 hmove⟩

end Holding

/-- Of the objects with one name, one is found under the name. -/
theorem exists_mem_ofList {α : Type} (l : List (String × α)) (e : String × α) (he : e ∈ l) :
    ∃ a, (e.1, a) ∈ (SortedMap.ofList l).entries := by
  have hget := SortedMap.get?_ofList l e.1
  cases hlookup : l.reverse.lookup e.1 with
  | some a =>
    rw [hlookup] at hget
    exact ⟨a, (SortedMap.get?_eq_some_iff _ _ _).mp hget⟩
  | none =>
    have hne := List.lookup_eq_none_iff.mp hlookup e (List.mem_reverse.mpr he)
    simp at hne

/-- The objects as a set, in which of several with one name the last one counts. -/
abbrev byName (os : List ManagedObject) : SortedMap String ManagedObject :=
  .ofList (os.map fun o => (o.id.name, o))

/-- The set of the members as they were found at a time after the start. -/
def listed (primary : ManagedObject) (kind : String) (start : Cluster)
    (observed : SortedMap String ManagedObject) : Goal Cluster.Dwindles where
  Holds := fun c => ∃ found : Cluster, start.Dwindles found ∧ found.Dwindles c ∧
    observed = byName (found.ownedBy primary.id kind)
  lasts := fun _ _ hmove ⟨found, hfound, hthen, heq⟩ => ⟨found, hfound, hthen.trans hmove, heq⟩

/-- Once the members that were found are gone, only namesakes of theirs are left. -/
theorem cleared_of_found (primary : ManagedObject) (kind : String) (template : SetTemplate)
    {start found c : Cluster} (hstart : start.Keyed) (hfound : start.Dwindles found)
    (hmove : found.Dwindles c)
    (hgone : ∀ e ∈ (byName (found.ownedBy primary.id kind)).entries, c.Gone e.2.id) :
    (Holding.objects kind template).Cleared primary start c := by
  have hkeyed := hfound.keyed hstart
  intro o ho
  obtain ⟨o₁, ho₁, hid, _⟩ := hmove.exists_ownedBy hkeyed ho
  obtain ⟨o₂, hentry⟩ := exists_mem_ofList _ _ (List.mem_map_of_mem ho₁)
  obtain ⟨o₂', ho₂, heq⟩ := List.mem_map.mp (mem_of_mem_ofList _ _ hentry)
  obtain ⟨hname, rfl⟩ := Prod.mk.inj heq
  have hstored := ((hmove.keyed hkeyed).mem_ownedBy_iff _ _ _).mp ho
  by_cases hsame : o₂'.id = o.id
  · exact Or.inl (hgone _ hentry o (hsame ▸ hstored.1))
  · obtain ⟨other, hother, hid', _⟩ := hfound.exists_ownedBy hstart ho₂
    exact Or.inr ⟨other, hother, by rw [hid', hname, hid], by rw [hid']; exact hsame⟩

section Deletions
variable (delay : Nat → ClusterCall → Cluster → Nat) (primary : ManagedObject)
  {start : Cluster} (hstart : start.Keyed)

/-- Calls that create nothing only take away. -/
theorem moves_call (c : ClusterCall) (hc : c.CreatesNothing) (next : c.Reply → Cluster → Prop)
    (s : Cluster) (hnext : ∀ now, next (c.answer now s).1 (c.answer now s).2) :
    (plainEnvironment delay).Moves Cluster.Dwindles c next s :=
  ⟨fun _ => s.dwindles_refl, fun now => c.dwindles_answer hc now s, hnext⟩

/-- The identity is on its way out. -/
def gone (id : ResourceId) : Goal Cluster.Dwindles where
  Holds := fun c => c.Keyed ∧ c.Gone id
  lasts := fun _ _ hmove h => ⟨hmove.keyed h.1, hmove.gone h.1 h.2⟩

include hstart

theorem delete_achieves (actual : ManagedObject) {s : Cluster} (hs : start.Dwindles s) :
    (delete plain actual).Achieves (plainEnvironment delay) (fun _ => gone actual.id) s := by
  have hcall : (plain.delete actual.id).Achieves (plainEnvironment delay)
      (fun _ => gone actual.id) s := by
    intro s' hmove
    have hkeyed := (hs.trans hmove).keyed hstart
    refine moves_call delay (.delete actual.id) trivial _ s' fun now => ⟨?_, ?_⟩
    · exact hkeyed.answer now (.delete actual.id)
    · exact s'.gone_delete hkeyed actual.id (.ofMillis now)
  exact hcall.bind fun _ _ _ hgone => hgone

/-- What is not found is gone already; what is found has the identity that was looked up. -/
def sought (id : ResourceId) : Option ManagedObject → Goal Cluster.Dwindles
  | none => gone id
  | some o => ⟨fun _ => o.id = id, fun _ _ _ h => h⟩

theorem get_achieves (id : ResourceId) {s : Cluster} (hs : start.Dwindles s) :
    (plain.get id).Achieves (plainEnvironment delay) (sought id) s := by
  intro s' hmove
  have hkeyed := (hs.trans hmove).keyed hstart
  refine moves_call delay (.get id) trivial _ s' fun now => ?_
  change (sought id (s'.get? id)).Holds s'
  cases hfound : s'.get? id with
  | none =>
    refine ⟨hkeyed, fun o ho => ?_⟩
    cases hfound.symm.trans ho
  | some o => exact hkeyed id o hfound

/-- A single object is on its way out when its deletion has succeeded. -/
theorem deleteSingleton_achieves (kind : String) (template : Template) (ctx : Context)
    {s : Cluster} (hs : start.Dwindles s) :
    (Adapter.deleteSingleton (secondary plain kind template primary)
      (objectWrites plain kind template) primary ctx).Achieves (plainEnvironment delay)
        (Goal.ifOk fun _ => (Holding.object kind template).goal primary start) s := by
  unfold Adapter.deleteSingleton secondary
  cases hrender : render kind template primary with
  | error e => trivial
  | ok desired =>
    have hcleared : ∀ c : Cluster, (gone desired.id).Holds c →
        ((Holding.object kind template).goal primary start).Holds c := by
      rintro c ⟨hkeyed, hgone⟩
      refine ⟨hkeyed, fun o ho => ?_⟩
      rw [hrender] at ho
      rwa [← Except.ok.inj ho]
    have hfound : ((plain.get desired.id).bind fun found =>
        (Action.done (.ok found) : Action plainInterface (Except Error _))).Achieves
          (plainEnvironment delay) (Goal.ifOk (sought desired.id)) s :=
      (get_achieves delay hstart desired.id hs).bind fun _ _ _ hfound => hfound
    refine hfound.andThen fun found s' hmove hsought => ?_
    cases found with
    | none => exact hcleared s' hsought
    | some actual =>
      have hid : actual.id = desired.id := hsought
      refine Action.Achieves.bind
        (delete_achieves delay hstart actual (hs.trans hmove)) fun outcome s'' _ hgone => ?_
      cases outcome with
      | ok _ => exact hcleared s'' (hid ▸ hgone)
      | error e => trivial

omit hstart in
/-- The members are found at a time after the start. -/
theorem secondaries_achieves (kind : String) {s : Cluster} (hs : start.Dwindles s) :
    (secondaries plain kind primary).Achieves (plainEnvironment delay)
      (Goal.ifOk (listed primary kind start)) s := by
  have hcall : (plain.ownedBy primary.id kind).Achieves (plainEnvironment delay)
      (fun os => listed primary kind start (byName os)) s := by
    intro s' hmove
    refine moves_call delay (.ownedBy primary.id kind) trivial _ s' fun now => ?_
    exact ⟨s', hs.trans hmove, s'.dwindles_refl, rfl⟩
  exact hcall.bind fun _ _ _ hlisted => hlisted

/-- So are the objects of a set, but for namesakes in other namespaces. -/
theorem bulk_delete_achieves (kind : String) (template : SetTemplate) (name : String)
    (ctx : Context) {s : Cluster} (hs : start.Dwindles s) :
    ((Owned.objects plain .mutating kind template).delete name primary ctx).Achieves
      (plainEnvironment delay)
      (Goal.ifOk fun _ => (Holding.objects kind template).goal primary start) s := by
  refine (Task.achieves_ofAction (secondaries_achieves delay primary kind hs)).andThen
    fun observed s' hmove hlisted => ?_
  obtain ⟨found, hfound, hthen, rfl⟩ := hlisted
  refine ⟨(byName (found.ownedBy primary.id kind)).entries.map fun e => gone e.2.id, ?_,
    fun results s'' hmove' hgone => ?_⟩
  · rw [BulkPlan.members_deletion, List.forall₂_map_left_iff, List.forall₂_map_right_iff,
      List.forall₂_same]
    exact fun e _ => delete_achieves delay hstart e.2 (hs.trans hmove)
  · have hcleared : ((Holding.objects kind template).goal primary start).Holds s'' := by
      refine ⟨(hs.trans (hmove.trans hmove')).keyed hstart, ?_⟩
      refine cleared_of_found primary kind template hstart hfound (hthen.trans hmove') ?_
      exact fun e he => (hgone _ (List.mem_map_of_mem he)).2
    change (Goal.ifOk _ (BulkPlan.conclude name _ results)).Holds s''
    cases BulkPlan.conclude name _ results with
    | ok _ => exact hcleared
    | error e => trivial

end Deletions

/-- A dependent that keeps objects of the primary. Its conditions create nothing. -/
structure Keeper where
  name : String
  dependsOn : List String := []
  holding : Holding
  condition? : ConditionKind → Option (Condition plainInterface ManagedObject) := fun _ => none
  quiet : ∀ kind condition, condition? kind = some condition → ∀ primary observed ctx,
    (condition primary observed ctx).CallsOnly ClusterCall.CreatesNothing

theorem Holding.observe_createsNothing (x : Holding) (primary : ManagedObject) (ctx : Context) :
    (x.adapter.observe primary ctx).CallsOnly ClusterCall.CreatesNothing := by
  cases x with
  | object kind template =>
    refine Action.CallsOnly.andThen (t := secondary plain kind template primary) ?_ fun _ => trivial
    unfold secondary
    cases render kind template primary with
    | ok o => exact ⟨trivial, fun _ => trivial⟩
    | error e => trivial
  | objects kind template => exact ⟨trivial, fun _ => trivial⟩

namespace Keeper

def node (k : Keeper) : Node plainInterface :=
  Dependent.toNode {
    name := k.name
    dependsOn := k.dependsOn
    adapter := k.holding.adapter
    condition? := k.condition? }

/-- The cleanup of a node that keeps owned objects clears them away. -/
theorem clears (k : Keeper) (delay : Nat → ClusterCall → Cluster → Nat)
    (primary : ManagedObject) (ctx : Context) {start s : Cluster} (hstart : start.Keyed)
    (hs : start.Dwindles s) :
    k.node.Clears (plainEnvironment delay) (k.holding.goal primary start) primary ctx s := by
  refine ⟨fun kind evaluate hevaluate => ?_, ?_⟩
  · obtain ⟨condition, hcondition, rfl⟩ := Option.map_eq_some_iff.mp hevaluate
    have hcalls := (k.holding.observe_createsNothing primary ctx).andThen fun observed =>
      k.quiet kind condition hcondition primary observed ctx
    have hquiet := hcalls.bind (f := fun outcome =>
      .done (outcome.mapError (Dependent.asEvaluationError k.name kind))) fun _ => trivial
    refine hquiet.achieves (fun c hc now c' => ?_) s
    exact ⟨c'.dwindles_refl, ClusterCall.dwindles_answer c hc now c'⟩
  · change (k.holding.adapter.delete k.name primary ctx).Achieves _ _ s
    cases k.holding with
    | object kind template =>
      exact Task.achieves_ofAction
        (deleteSingleton_achieves delay primary hstart kind template ctx hs)
    | objects kind template =>
      exact bulk_delete_achieves delay primary hstart kind template k.name ctx hs

end Keeper
end Owned
end Reconciliation
