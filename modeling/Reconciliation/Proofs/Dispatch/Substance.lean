import Reconciliation.Proofs.Cluster.Elsewhere
import Reconciliation.Proofs.Dispatch.Interference
import Reconciliation.Proofs.Dispatch.Reasons
import Reconciliation.Proofs.Json.Equality

/-!
What the writes of a dispatch change. One that goes through gives the primary another spec, another
status or other finalizers, unless it records a failure: the record is written as the reconciler
asks for it, whatever status is there. So a dispatch that comes after another one with the same
verdicts, and with nobody else at the primary, has nothing to write but such a record.
-/
namespace Reconciliation

/-- The object has another spec, another status or other finalizers than it had. -/
inductive ManagedObject.Edited (o o' : ManagedObject) : Prop
  | spec (h : (o'.spec != o.spec) = true)
  -- floats are not known to be compared symmetrically, so either comparison may tell
  | status (h : (o.status != o'.status) = true ∨ (o'.status != o.status) = true)
  | finalizers (h : o'.finalizers ≠ o.finalizers)

/-- All that is asked for is equal to itself. -/
structure PrimaryUpdate.Reflexive (u : PrimaryUpdate) : Prop where
  spec : ∀ j, u.spec? = some j → j.Reflexive
  status : ∀ j, u.status? = some j → j.Reflexive

theorem Json.Reflexive.bne_self {j : Json} (h : j.Reflexive) : (j != j) = false := by
  unfold bne
  rw [h]
  rfl

theorem Json.Reflexive.bne_some {j : Json} (h : j.Reflexive) : (some j != some j) = false :=
  h.bne_self

namespace PrimaryUpdate

/-- Where an object is as an update has made it, the update asks for nothing new. -/
theorem Reflexive.changes_of_updated {u : PrimaryUpdate} (hu : u.Reflexive) {o o' : ManagedObject}
    (h : Dispatcher.Updated u o o') : u.changes o' = false := by
  cases hchanges : u.changes o with
  | false => rwa [h.same hchanges]
  | true =>
    obtain ⟨hspec, hstatus⟩ := h.asked hchanges
    unfold changes changesSpec
    rw [hspec]
    cases u with
    | none => rfl
    | status s => simp [changesStatus, spec?, hstatus, status?, (hu.status s rfl).bne_some]
    | resource spec status =>
      have hself := (hu.spec spec rfl).bne_self
      cases status with
      | none => simp [changesStatus, spec?, hself]
      | some s => simp [changesStatus, spec?, hstatus, status?, hself, (hu.status s rfl).bne_some]

end PrimaryUpdate

namespace Dispatcher

open Cluster

variable {I : Interface}

/-- The write records a failure, as the reconciler has just asked for it. -/
inductive RecordsFailure : Past I → ObjectPatch → Prop
  | intro (past : Past I) (o : ManagedObject) (ctx : Context) (e : Error) (v : FailureVerdict)
      (status : Json) (hstatus : v.status = some status) :
      RecordsFailure (past ++ [advice o ctx e v]) (.setStatus status)

/-- What an answer of the reconciler is to. -/
inductive Verdict where
  | reconcile (r : Except Error ReconcileVerdict)
  | cleanup (r : Except Error CleanupVerdict)
  | failure (v : FailureVerdict)

def verdict? : Exchange (dispatching I) → Option Verdict
  | ⟨.primary (.reconcile ..), r⟩ => some (.reconcile r)
  | ⟨.primary (.cleanup ..), r⟩ => some (.cleanup r)
  | ⟨.primary (.errorStatus ..), v⟩ => some (.failure v)
  | _ => none

/-- What the reconciler has said in the course of a dispatch. -/
def verdicts (past : Past I) : List Verdict := past.filterMap verdict?

section Effect
variable {d : Dispatcher I} {o : ManagedObject} {past : Past I} {p : ObjectPatch}

theorem hasFinalizer_withFinalizer (c : Cluster) (o : ManagedObject) (f : String) :
    (c.renew ((ObjectPatch.withFinalizer f).applyTo o)).hasFinalizer f = true := by
  change ((SortedMap.insert o.finalizers f ()).get? f).isSome = true
  rw [SortedMap.get?_insert_self]
  rfl

theorem hasFinalizer_withoutFinalizer (c : Cluster) (o : ManagedObject) (f : String) :
    (c.renew ((ObjectPatch.withoutFinalizer f).applyTo o)).hasFinalizer f = false := by
  change ((SortedMap.erase o.finalizers f).get? f).isSome = false
  rw [SortedMap.get?_erase_self]
  rfl

theorem lacks_of_missing {f : String} (h : d.missingFinalizer? o = some f) :
    o.hasFinalizer f = false := by
  obtain ⟨_, hlacks⟩ := Option.filter_eq_some_iff.mp h
  simpa using hlacks

theorem edited_of_changes {u : PrimaryUpdate} (h : u.changes o = true) (c : Cluster) :
    o.Edited (c.renew (ObjectPatch.applyTo { spec := u.spec?, status := u.status? } o)) := by
  cases u with
  | none => cases h
  | status s => exact .status (Or.inl h)
  | resource spec status =>
    rcases Bool.or_eq_true_iff.mp h with hspec | hstatus
    · exact .spec hspec
    · obtain ⟨hsome, hother⟩ := Bool.and_eq_true_iff.mp hstatus
      obtain ⟨s, rfl⟩ := Option.isSome_iff_exists.mp hsome
      exact .status (Or.inr hother)

/-- A patch that is not a record of a failure makes the object that was read another one. -/
theorem Called.edited (h : d.Called o past p) (c : Cluster) :
    o.Edited (c.renew (p.applyTo o)) ∨ RecordsFailure past p := by
  cases h with
  | addFinalizer f _ hlacks =>
    refine Or.inl (.finalizers fun hsame => ?_)
    have hholds := hasFinalizer_withFinalizer c o f
    unfold ManagedObject.hasFinalizer at hholds
    rw [hsame] at hholds
    exact absurd hholds (Bool.eq_false_iff.mp (lacks_of_missing hlacks))
  | update past _ ctx verdict p hp =>
    obtain ⟨hchanges, rfl⟩ := changes_of_patchFor_some o verdict.update p hp
    exact Or.inl (edited_of_changes hchanges c)
  | record past ctx e v status hstatus => exact Or.inr (.intro past o ctx e v status hstatus)
  | removeFinalizer past _ ctx f _ hholds =>
    refine Or.inl (.finalizers fun hsame => ?_)
    have hlacks := hasFinalizer_withoutFinalizer c o f
    unfold ManagedObject.hasFinalizer at hlacks
    rw [hsame] at hlacks
    exact absurd hholds (Bool.eq_false_iff.mp hlacks)

theorem RecordsFailure.cons (h : RecordsFailure past p) (x : Exchange (dispatching I)) :
    RecordsFailure (x :: past) p := by
  cases h with
  | intro past o ctx e v status hstatus => exact .intro (x :: past) o ctx e v status hstatus

/-- Only a cleanup takes a finalizer away, and it only does so from a terminating object. -/
theorem Called.inPlace (h : d.Called o past p) (hplace : d.missingFinalizer? o = none)
    (c : Cluster) :
    d.missingFinalizer? (c.renew (p.applyTo o)) = none ∨
      (c.renew (p.applyTo o)).isTerminating = true := by
  cases h with
  | addFinalizer f _ hlacks =>
    rw [hplace] at hlacks
    cases hlacks
  | update past _ ctx verdict p hp =>
    obtain ⟨_, rfl⟩ := changes_of_patchFor_some o verdict.update p hp
    exact Or.inl hplace
  | record => exact Or.inl hplace
  | removeFinalizer past hterminating => exact Or.inr hterminating

end Effect

section Course
variable {d : Dispatcher I} {before : List ClusterWrite} {t rest : Dispatching I DispatchSummary}
  {items : List (Item I)} {id : ResourceId}

/-- A write that goes through finds the primary as it was read. -/
theorem Interleaved.committed (hm : d.Motivates id [] t) (ht : WritesOnce id [] t)
    (earlier later : List (Item I)) (i : ResourceId) (v : Version) (p : ObjectPatch)
    (updated : ManagedObject)
    (h : Interleaved before t (earlier ++ .own (written i v p (.ok updated)) :: later) rest)
    (hroom : (assignments {} (before ++
      writes (earlier ++ .own (written i v p (.ok updated)) :: later))).length < UInt64.size - 1) :
    ∃ o past, exchanges earlier = observation id (some o) :: past ∧ d.Called o past p ∧
      (clusterAt before earlier).get? id = some o ∧
      updated = (clusterAt before earlier).renew (p.applyTo o) ∧
      (clusterAt before (earlier ++ [.own (written i v p (.ok updated))])).get? id =
        if updated.isReleased then none else some updated := by
  obtain ⟨⟨k, hcall⟩, htrue⟩ := h.before_own earlier later _
  have hmotivated := (hcall.leads.obeys hm).1
  generalize hpast : exchanges earlier = past at hmotivated
  cases hmotivated with
  | other past c hc => cases hc
  | write o past hunwritten p hp =>
    obtain ⟨read, hread⟩ := hcall.hasRead o past hpast
    obtain rfl := hread.id_eq
    have hsame : (clusterAt before earlier).changesOf o.id = read.changesOf o.id := by
      by_contra hchanged
      obtain ⟨e, he⟩ := (h.refused ht hroom earlier later p _ o read rfl hread hchanged).failed
      cases he
    have hstored := hread.stored (room_before hroom earlier _ rfl) hsame
    obtain ⟨o', _, hstored', hupdated, hafter⟩ :=
      patch_ok (before ++ writes earlier) o.id o.version p updated htrue.symm
    obtain rfl : o' = o := Option.some.inj (hstored'.symm.trans hstored)
    refine ⟨o', past, rfl, hp, hstored, hupdated, ?_⟩
    rw [clusterAt_concat_written]
    exact hafter

/-- Where the dispatch has not written and nobody else has been at the primary, it stands. -/
theorem stands_clusterAt (before : List ClusterWrite) (items more : List (Item I))
    (halone : ∀ w, .other w ∈ more → w.target ≠ id)
    (hunwritten : ∀ x ∈ exchanges more, x.call.write? = none) :
    Stands (clusterAt before items) (clusterAt before (items ++ more)) id ∧
      (clusterAt before (items ++ more)).conflictsLeft id ≤
        (clusterAt before items).conflictsLeft id := by
  unfold clusterAt
  rw [writes_append, ← List.append_assoc, ← others_eq_writes more hunwritten]
  refine elsewhere_ofHistory _ _ id fun w hw => halone w ?_
  obtain ⟨item, hitem, heq⟩ := List.mem_filterMap.mp hw
  cases item with
  | other w' => exact Option.some.inj heq ▸ hitem
  | own x => cases heq

theorem exchanges_read {o : ManagedObject} {past : Past I}
    (hpast : exchanges items = observation id (some o) :: past)
    (hunwritten : ∀ x ∈ past, x.call.write? = none) :
    ∀ x ∈ exchanges items, x.call.write? = none := by
  rw [hpast]
  exact List.forall_mem_cons.mpr ⟨rfl, hunwritten⟩

theorem clusterAt_nil (before : List ClusterWrite) :
    clusterAt before ([] : List (Item I)) = ofHistory before :=
  congrArg ofHistory (List.append_nil before)

theorem HasRead.found {o : ManagedObject} {read : Cluster}
    (h : HasRead before id o items read) : read.get? id = some o := by
  cases h with
  | intro start between hread => exact hread

/-- With nobody else at the primary, it is read as it has been from the beginning. -/
theorem HasRead.stands {o : ManagedObject} {read : Cluster} (h : HasRead before id o items read)
    (halone : ∀ w, .other w ∈ items → w.target ≠ id) : Stands (ofHistory before) read id := by
  cases h with
  | intro start between hread =>
    have hstart : ∀ w ∈ start, w.target ≠ id := fun w hw =>
      halone w (List.mem_append_left _ (List.mem_map_of_mem hw))
    exact (elsewhere_ofHistory before start id hstart).1

/-- What a dispatch that is over has left of its primary, with nobody else at it. -/
inductive Left (d : Dispatcher I) (id : ResourceId) (c c' : Cluster) (past : Past I) : Prop
  | untouched (hsame : c'.get? id = c.get? id)
      (hfree : ∀ o ctx, agreement o ctx ∈ past → d.finalizer = none)
  | patched (o : ManagedObject) (hread : c.get? id = some o) (earlier : Past I) (p : ObjectPatch)
      (hp : d.Called o earlier p)
      (hagreed : ∀ o' ctx, agreement o' ctx ∈ past →
        ∃ f, d.finalizer = some f ∧ p = .withoutFinalizer f)
      (now : Cluster) (hleft : ∀ o', c'.get? id = some o' → o' = now.renew (p.applyTo o))

variable (halone : ∀ w, .other w ∈ items → w.target ≠ id)
  (hunrefused : (ofHistory before).conflictsLeft id = 0)
include halone hunrefused

/-- What a dispatch has left of its primary, if nobody else was there. -/
theorem Interleaved.left (hm : d.Motivates id [] t) {summary : DispatchSummary}
    (h : Interleaved before t items (.done summary)) :
    Left d id (ofHistory before) (clusterAt before items) (exchanges items) := by
  have hfinished : d.Finished id (exchanges items) := h.leads.obeys hm
  generalize hpast : exchanges items = past at hfinished
  cases hfinished with
  | unwritten past hunwritten hfree =>
    have hstands := (stands_clusterAt before [] items halone
      (hpast ▸ hunwritten)).1.stored
    rw [clusterAt_nil] at hstands
    exact .untouched hstands hfree
  | written o past hunwritten p hp hagreed r =>
    obtain ⟨earlier, since, rfl, hearlier⟩ := split_last items _ _ hpast
    obtain ⟨⟨k, hcall⟩, htrue⟩ := h.before_own earlier (byOthers since) _
    have hquiet := exchanges_read hearlier hunwritten
    have hnone : ∀ x ∈ exchanges (byOthers (I := I) since), x.call.write? = none := by
      rw [exchanges_byOthers]
      exact fun _ hx => by cases hx
    obtain ⟨hstands, hfewer⟩ := stands_clusterAt before [] earlier
      (fun w hw => halone w (List.mem_append_left _ hw)) hquiet
    rw [clusterAt_nil] at hstands hfewer
    have hsince := (stands_clusterAt before
      (earlier ++ [.own (written o.id o.version p r)]) (byOthers since)
      (fun w hw => halone w (List.mem_append_right _ (List.mem_cons_of_mem _ hw))) hnone).1.stored
    obtain ⟨read, hread⟩ := hcall.hasRead o past hearlier
    obtain rfl := hread.id_eq
    have hstart := hread.stands fun w hw => halone w (List.mem_append_left _ hw)
    have hbefore := hstart.stored.symm.trans hread.found
    have hok := patch_of_current (clusterAt before earlier) o.id o
      (hstands.stored.trans hbefore) (Nat.le_zero.mp (hunrefused ▸ hfewer)) p
    obtain ⟨_, _, _, _, hafter⟩ := patch_ok _ o.id o.version p _ hok
    refine .patched o hbefore past p hp (fun o' ctx hx => ?_) (clusterAt before earlier)
      fun o' ho' => ?_
    · rcases List.mem_append.mp hx with hx | hx
      · rcases List.mem_cons.mp hx with hx | hx
        · cases congrArg Exchange.call hx
        · exact hagreed o' ctx hx
      · cases congrArg Exchange.call (List.mem_singleton.mp hx)
    · rw [List.append_assoc] at hsince
      change (clusterAt before (earlier ++ .own _ :: byOthers since)).get? o.id = _ at hsince
      rw [hsince, clusterAt_concat_written] at ho'
      unfold clusterAt at ho'
      rw [hafter] at ho'
      split at ho'
      · cases ho'
      · exact (Option.some.inj ho').symm

end Course

section Verdicts
variable {past : Past I}

theorem mem_verdicts {x : Exchange (dispatching I)} (hx : x ∈ past) {v : Verdict}
    (hv : verdict? x = some v) : v ∈ verdicts past :=
  List.mem_filterMap.mpr ⟨x, hx, hv⟩

theorem agreement_of_mem_verdicts (h : .cleanup (.ok .proceed) ∈ verdicts past) :
    ∃ o ctx, agreement o ctx ∈ past := by
  obtain ⟨⟨c, r⟩, hx, hv⟩ := List.mem_filterMap.mp h
  cases c with
  | pass w mode o ctx => cases hv
  | primary c =>
    cases c with
    | cleanup o ctx =>
      cases hv
      exact ⟨o, ctx, hx⟩
    | _ => cases hv

theorem judged_of_mem_verdicts {verdict : ReconcileVerdict}
    (h : .reconcile (.ok verdict) ∈ verdicts past) : ∃ o ctx, judged o ctx verdict ∈ past := by
  obtain ⟨⟨c, r⟩, hx, hv⟩ := List.mem_filterMap.mp h
  cases c with
  | pass w mode o ctx => cases hv
  | primary c =>
    cases c with
    | reconcile o ctx =>
      cases hv
      exact ⟨o, ctx, hx⟩
    | _ => cases hv

end Verdicts

/-- The second of two dispatches in a row is told nothing by the reconciler that the first has not
been told. Nobody else has been at the primary, and the first has found the finalizer in place. -/
structure Repeated (d : Dispatcher I) (id : ResourceId) (before : List ClusterWrite)
    (items items' : List (Item I)) : Prop where
  alone : ∀ w, .other w ∈ items ++ items' → w.target ≠ id
  unrefused : (ofHistory before).conflictsLeft id = 0
  inPlace : ∀ o, (ofHistory before).get? id = some o → d.missingFinalizer? o = none
  verdicts : verdicts (exchanges items') ⊆ verdicts (exchanges items)
  plain : ∀ o ctx verdict, .own (judged o ctx verdict) ∈ items → verdict.update.Reflexive

section Repeated
variable {d : Dispatcher I} {before : List ClusterWrite} {t : Dispatching I DispatchSummary}
  {items items' : List (Item I)} {id : ResourceId} {summary : DispatchSummary}
  (h : Interleaved before t items (.done summary))
  (hrepeated : d.Repeated id before items items') {o : ManagedObject}
  (hstill : (clusterAt before items).get? id = some o)
include h hrepeated hstill

/-- The finalizer that was in place is still there, unless the object is terminating. -/
theorem Repeated.inPlace_after (hm : d.Motivates id [] t) (hactive : o.isTerminating = false) :
    d.missingFinalizer? o = none := by
  have halone := fun w hw => hrepeated.alone w (List.mem_append_left items' hw)
  cases h.left halone hrepeated.unrefused hm with
  | untouched hsame => exact hrepeated.inPlace o (hsame ▸ hstill)
  | patched o₁ hread earlier p hp _ now hleft =>
    obtain rfl := hleft o hstill
    rcases hp.inPlace (hrepeated.inPlace o₁ hread) now with hplace | hterminating
    · exact hplace
    · rw [hactive] at hterminating
      cases hterminating

/-- Where the reconciler has agreed before, the finalizer is gone. -/
theorem Repeated.released (hm : d.Motivates id [] t) (f : String) (hf : d.finalizer = some f)
    (hagreed : .cleanup (.ok .proceed) ∈ Dispatcher.verdicts (exchanges items)) :
    o.hasFinalizer f = false := by
  have halone := fun w hw => hrepeated.alone w (List.mem_append_left items' hw)
  obtain ⟨o₁, ctx, hmem⟩ := agreement_of_mem_verdicts hagreed
  cases h.left halone hrepeated.unrefused hm with
  | untouched _ hfree =>
    rw [hfree o₁ ctx hmem] at hf
    cases hf
  | patched o₁' hread earlier p hp hremoved now hleft =>
    obtain rfl := hleft o hstill
    obtain ⟨f', hf', rfl⟩ := hremoved o₁ ctx hmem
    obtain rfl := Option.some.inj (hf.symm.trans hf')
    exact hasFinalizer_withoutFinalizer now o₁' f

/-- A verdict that has been put into effect asks for nothing new. -/
theorem Repeated.unchanged (ht : WritesOnce id [] t)
    (hroom : (assignments {} (before ++ writes items)).length < UInt64.size - 1)
    (verdict : ReconcileVerdict)
    (hjudged : .reconcile (.ok verdict) ∈ Dispatcher.verdicts (exchanges items)) :
    verdict.update.changes o = false := by
  obtain ⟨o₁, ctx, hmem⟩ := judged_of_mem_verdicts hjudged
  have hitem := (mem_exchanges items _).mp hmem
  obtain ⟨_, between, last', hpast, hbetween, _⟩ := (h.ended ht).of_judged o₁ ctx verdict hmem
  obtain ⟨earlier, last, since, read, rfl, hread, _, hful⟩ :=
    h.fulfilled ht hroom o₁ ctx verdict hitem
  have halone : ∀ w, .other w ∈ earlier → w.target ≠ id := fun w hw =>
    hrepeated.alone w (List.mem_append_left _ (List.mem_append_left _ hw))
  have hsince : ∀ w, .other w ∈ byOthers (I := I) since → w.target ≠ id := fun w hw =>
    hrepeated.alone w (List.mem_append_left _ (List.mem_append_right _ (List.mem_cons_of_mem _ hw)))
  have hearlier : exchanges earlier = observation id (some o₁) :: between := by
    rw [exchanges_append] at hpast
    change exchanges earlier ++ last :: exchanges (byOthers since) = _ at hpast
    rw [exchanges_byOthers] at hpast
    exact (List.append_inj' hpast rfl).1
  have hquiet := exchanges_read hearlier hbetween
  obtain ⟨hstands, hfewer⟩ := stands_clusterAt before [] earlier halone hquiet
  rw [clusterAt_nil] at hstands hfewer
  obtain ⟨o', ho', hupdated⟩ := (hful (hstands.changes.trans (hread.stands halone).changes.symm)
    (Nat.le_zero.mp (hrepeated.unrefused ▸ hfewer))).stored
  have hnone : ∀ x ∈ exchanges (byOthers (I := I) since), x.call.write? = none := by
    rw [exchanges_byOthers]
    exact fun _ hx => by cases hx
  have hafter := (stands_clusterAt before (earlier ++ [.own last]) (byOthers since)
    hsince hnone).1.stored
  rw [List.append_assoc] at hafter
  obtain rfl : o = o' := Option.some.inj (hstill.symm.trans (hafter.trans ho'))
  exact (hrepeated.plain o₁ ctx verdict hitem).changes_of_updated hupdated

/-- Of the reasons for a patch only the record of a failure is left. -/
theorem Repeated.records (hm : d.Motivates id [] t) (ht : WritesOnce id [] t)
    (hroom : (assignments {} (before ++ writes items)).length < UInt64.size - 1) {past : Past I}
    {p : ObjectPatch} (hcalled : d.Called o past p)
    (hsaid : ∀ x ∈ past, ∀ v, verdict? x = some v →
      v ∈ Dispatcher.verdicts (exchanges items)) : RecordsFailure past p := by
  cases hcalled with
  | record past ctx e v status hstatus => exact .intro past o ctx e v status hstatus
  | addFinalizer f hactive hlacks =>
    have hplace := hrepeated.inPlace_after h hstill hm hactive
    rw [hlacks] at hplace
    cases hplace
  | update past hactive ctx verdict p hp =>
    have hjudged := hsaid _ (List.mem_append_right _ (List.mem_singleton.mpr rfl)) _ rfl
    have hsame := hrepeated.unchanged h hstill ht hroom verdict hjudged
    have hchanges := (changes_of_patchFor_some o verdict.update p hp).1
    rw [hsame] at hchanges
    cases hchanges
  | removeFinalizer past hterminating ctx f hf hholds =>
    have hagreed := hsaid _ (List.mem_append_right _ (List.mem_singleton.mpr rfl)) _ rfl
    have hlacks := hrepeated.released h hstill hm f hf hagreed
    rw [hholds] at hlacks
    cases hlacks

end Repeated

/-- What the writes of a dispatch on its primary are worth. -/
structure Substantial (d : Dispatcher I) (before : List ClusterWrite) (id : ResourceId)
    (items : List (Item I)) (rest : Dispatching I DispatchSummary) : Prop where
  /-- A write that goes through makes the stored primary another one, or records a failure. -/
  changes : ∀ earlier i v p updated later,
    items = earlier ++ .own (written i v p (.ok updated)) :: later →
      ∃ o, (clusterAt before earlier).get? id = some o ∧
        (clusterAt before (earlier ++ [.own (written i v p (.ok updated))])).get? id =
          (if updated.isReleased then none else some updated) ∧
        (o.Edited updated ∨ RecordsFailure (exchanges earlier) p)
  /-- A dispatch that repeats this one records a failure, if it writes anything. -/
  repeated : ∀ summary, rest = .done summary → ∀ request retry items' rest',
    request.id = id →
      Interleaved (before ++ writes items) (d.dispatch request retry) items' rest' →
        (assignments {} (before ++ writes items ++ writes items')).length < UInt64.size - 1 →
          d.Repeated id before items items' → ∀ earlier i v p updated later,
            items' = earlier ++ .own (written i v p (.ok updated)) :: later →
              RecordsFailure (exchanges earlier) p

/-- As long as the versions have not run out, a dispatch writes nothing on its primary that is there
already, but for the record of a failure. So a dispatch that repeats another one, while nobody else
is at the primary and the reconciler has nothing new to say, writes nothing but such a record. -/
theorem writes_substantial (d : Dispatcher I) (request : ReconciliationRequest)
    (retry : Option RetryInfo) (before : List ClusterWrite) (items : List (Item I))
    (rest : Dispatching I DispatchSummary)
    (h : Interleaved before (d.dispatch request retry) items rest)
    (hroom : (assignments {} (before ++ writes items)).length < UInt64.size - 1) :
    d.Substantial before request.id items rest := by
  have ht := d.dispatch_writesOnce request retry
  have hm := d.dispatch_motivates request retry
  refine ⟨fun earlier i v p updated later hitems => ?_,
    fun summary hsummary request' retry' items' rest' hid h' hroom' hrepeated earlier i v p updated
      later hitems' => ?_⟩
  · subst hitems
    obtain ⟨o, past, hpast, hcalled, hstored, rfl, hafter⟩ :=
      h.committed hm ht earlier later i v p updated hroom
    refine ⟨o, hstored, hafter, (hcalled.edited _).imp_right fun hrecord => ?_⟩
    rw [hpast]
    exact hrecord.cons _
  · subst hsummary hitems'
    have ht' := d.dispatch_writesOnce request' retry'
    obtain ⟨o, past, hpast, hcalled, hstored, rfl, _⟩ :=
      h'.committed (d.dispatch_motivates request' retry') ht' earlier later i v p updated hroom'
    have hquiet := (h'.read_before_written ht' earlier later i v p _).1
    rw [hid] at hstored hpast
    have halone : ∀ w, .other w ∈ earlier → w.target ≠ request.id := fun w hw =>
      hrepeated.alone w (List.mem_append_right _ (List.mem_append_left _ hw))
    have hstands := (stands_clusterAt (before ++ writes items) [] earlier halone
      hquiet).1.stored
    rw [clusterAt_nil] at hstands
    have hstill : (clusterAt before items).get? request.id = some o := hstands.symm.trans hstored
    have hsaid : ∀ x ∈ past, ∀ v, verdict? x = some v →
        v ∈ verdicts (exchanges items) := by
      intro x hx v hv
      refine hrepeated.verdicts (mem_verdicts ?_ hv)
      rw [exchanges_append, hpast]
      exact List.mem_append_left _ (List.mem_cons_of_mem _ hx)
    rw [hpast]
    exact (hrepeated.records h hstill hm ht hroom hcalled hsaid).cons _

/-- The room with a record of the failure, as it is stored under a version. -/
def recorded (v : UInt64) : ManagedObject :=
  { roomRead with version := ⟨v⟩, status := some (.str "failed") }

/-- A dispatch of the room that fails and records it. -/
def recording (o updated : ManagedObject) : List (Item Client.plainInterface) :=
  [.own (observation room.id (some o)),
    .own ⟨.primary (.reconcile o { primary := room.id }),
      (.error (.reconciler "no heating") : Except Error ReconcileVerdict)⟩,
    .own (advice o { primary := room.id } (.reconciler "no heating")
      { status := some (.str "failed") }),
    .own (written o.id o.version (.setStatus (.str "failed")) (.ok updated))]

/-- A dispatch that fails and records its failure, whatever status is there. -/
theorem interleaved_recording (before : List ClusterWrite) (o updated : ManagedObject)
    (hread : (ofHistory before).get? room.id = some o) (hactive : o.isTerminating = false)
    (hwrite : ((ofHistory before).patch o.id o.version (.setStatus (.str "failed"))).1 =
      .ok updated) :
    Interleaved before (plainDispatcher.dispatch ⟨room.id, []⟩ none) (recording o updated)
      (.done { DispatchSummary.failed (.reconciler "no heating") with updated := some updated }) := by
  have hstart : Interleaved before (plainDispatcher.dispatch ⟨room.id, []⟩ none) []
    (plainDispatcher.dispatch ⟨room.id, []⟩ none) := .start
  have hobserved := hstart.own _ (.primary (.observe room.id)) _ (some o)
    ((clusterAt_nil (I := Client.plainInterface) before).symm ▸ hread.symm)
  change Interleaved before _ _ (if o.isTerminating = true then _ else
    plainDispatcher.reconcileActive o { primary := room.id }) at hobserved
  rw [if_neg (Bool.eq_false_iff.mp hactive)] at hobserved
  have hfailed := hobserved.own _ (.primary (.reconcile o { primary := room.id })) _
    (.error (.reconciler "no heating")) trivial
  have hadvised := hfailed.own _
    (.primary (.errorStatus o { primary := room.id } (.reconciler "no heating"))) _
    { status := some (.str "failed") } trivial
  have hnow : clusterAt (I := Client.plainInterface) before _ = ofHistory before :=
    clusterAt_nil before
  exact hadvised.own _ (.primary (.patch o.id o.version (.setStatus (.str "failed")))) _
    (.ok updated) (hnow ▸ hwrite.symm)

theorem interleaved_recording_twice :
    Interleaved [.create room] (plainDispatcher.dispatch ⟨room.id, []⟩ none)
        (recording roomRead (recorded 2))
        (.done { DispatchSummary.failed (.reconciler "no heating") with
          updated := some (recorded 2) }) ∧
      Interleaved ([.create room] ++ writes (recording roomRead (recorded 2)))
        (plainDispatcher.dispatch ⟨room.id, []⟩ none) (recording (recorded 2) (recorded 3))
        (.done { DispatchSummary.failed (.reconciler "no heating") with
          updated := some (recorded 3) }) ∧
      plainDispatcher.Repeated room.id [.create room] (recording roomRead (recorded 2))
        (recording (recorded 2) (recorded 3)) := by
  refine ⟨interleaved_recording _ _ _ rfl rfl rfl, interleaved_recording _ _ _ rfl rfl rfl, ?_⟩
  refine ⟨fun w hw => ?_, rfl, fun o _ => rfl, List.Subset.refl _, fun o ctx verdict hw => ?_⟩
  · simp [recording] at hw
  · simp only [recording, List.mem_cons, List.not_mem_nil, Item.own.injEq, or_false] at hw
    rcases hw with hw | hw | hw | hw <;> cases hw

/-- The record of a failure changes the room, and the dispatch that repeats it writes nothing but
such a record. -/
theorem writes_substantial_recording :
    (assignments {} ([.create room] ++ writes (recording roomRead (recorded 2)))).length <
        UInt64.size - 1 ∧
      (∃ o, (clusterAt [.create room] ((recording roomRead (recorded 2)).take 3)).get? room.id =
        some o ∧ (o.Edited (recorded 2) ∨ RecordsFailure
          (exchanges ((recording roomRead (recorded 2)).take 3)) (.setStatus (.str "failed")))) ∧
      RecordsFailure (exchanges ((recording (recorded 2) (recorded 3)).take 3))
        (.setStatus (.str "failed")) := by
  obtain ⟨hfirst, hsecond, hrepeated⟩ := interleaved_recording_twice
  have hroom : (assignments {} ([.create room] ++
    writes (recording roomRead (recorded 2)))).length < UInt64.size - 1 := by decide
  have hsubstantial :=
    plainDispatcher.writes_substantial ⟨room.id, []⟩ none _ _ _ hfirst hroom
  obtain ⟨o, hstored, _, hedited⟩ := hsubstantial.changes
    ((recording roomRead (recorded 2)).take 3) room.id ⟨1⟩ _ (recorded 2) [] rfl
  exact ⟨hroom, ⟨o, hstored, hedited⟩, hsubstantial.repeated _ rfl _ _ _ _ rfl hsecond (by decide)
    hrepeated ((recording (recorded 2) (recorded 3)).take 3) room.id ⟨2⟩ _ (recorded 3) [] rfl⟩

/-- A second dispatch records the failure that the first one has recorded: it is a repetition, and
yet its write goes through and leaves the room with the spec, the status and the finalizers that it
had. -/
theorem failure_recorded_again : ∃ items items' earlier o updated p summary summary',
    Interleaved [.create room] (plainDispatcher.dispatch ⟨room.id, []⟩ none) items
        (.done summary) ∧
      Interleaved ([.create room] ++ writes items) (plainDispatcher.dispatch ⟨room.id, []⟩ none)
        items' (.done summary') ∧
      plainDispatcher.Repeated room.id [.create room] items items' ∧
      items' = earlier ++ [.own (written o.id o.version p (.ok updated))] ∧
      (clusterAt ([.create room] ++ writes items) earlier).get? room.id = some o ∧
      (clusterAt ([.create room] ++ writes items) items').get? room.id = some updated ∧
      ¬ o.Edited updated := by
  obtain ⟨hfirst, hsecond, hrepeated⟩ := interleaved_recording_twice
  refine ⟨_, _, (recording (recorded 2) (recorded 3)).take 3, recorded 2, recorded 3, _, _, _,
    hfirst, hsecond, hrepeated, rfl, rfl, rfl, fun hedited => ?_⟩
  cases hedited with
  | spec h => exact absurd h (by decide)
  | status h => exact absurd h (by decide)
  | finalizers h => exact h rfl

end Dispatcher
end Reconciliation
