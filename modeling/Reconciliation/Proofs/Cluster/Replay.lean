import Reconciliation.Proofs.Cluster.History

/-!
The feed of a cluster and its store. A reader who takes over every change of the feed, in order,
arrives at the stored objects; and a write that comes to nothing leaves no trace in either.
-/
namespace Reconciliation

/-- The objects with one more change taken over. -/
def ChangeEvent.replayOn (objects : SortedMap ResourceId ManagedObject) (e : ChangeEvent) :
    SortedMap ResourceId ManagedObject :=
  match e.action with
  | .added | .updated => objects.insert e.object.id e.object
  | .deleted => objects.erase e.object.id

namespace Cluster

/-- The committed changes, the oldest first. -/
def feed (c : Cluster) : List ChangeEvent := c.log.reverse

/-- The objects that changes make of an empty store. -/
def replay (es : List ChangeEvent) : SortedMap ResourceId ManagedObject :=
  es.foldl ChangeEvent.replayOn {}

theorem replay_concat (es : List ChangeEvent) (e : ChangeEvent) :
    replay (es ++ [e]) = e.replayOn (replay es) :=
  List.foldl_append

/-- The feed tells of every change of the store, and of nothing else. -/
structure Faithful (c : Cluster) : Prop where
  replays : replay c.feed = c.objects
  /-- Only absent objects are added, only present ones updated or deleted. -/
  apt : ∀ before e rest, c.feed = before ++ e :: rest →
    (e.action = .added ↔ (replay before).get? e.object.id = none)
  counted : c.writeCount = c.feed.length

theorem faithful_empty : ({} : Cluster).Faithful := by
  refine ⟨rfl, fun before e rest h => ?_, rfl⟩
  have hlength := congrArg List.length h
  simp [feed] at hlength

/-- A change that is committed with its event keeps the feed faithful. -/
theorem Faithful.commit {c c' : Cluster} (h : c.Faithful) (e : ChangeEvent)
    (hlog : c'.log = e :: c.log) (hobjects : c'.objects = e.replayOn c.objects)
    (hwrites : c'.writes = c.writes + 1)
    (hapt : e.action = .added ↔ c.get? e.object.id = none) : c'.Faithful := by
  have hfeed : c'.feed = c.feed ++ [e] := by
    unfold feed
    rw [hlog, List.reverse_cons]
  refine ⟨?_, fun before e' rest hsplit => ?_, ?_⟩
  · rw [hfeed, replay_concat, h.replays, hobjects]
  · rw [hfeed] at hsplit
    rcases List.eq_nil_or_concat rest with rfl | ⟨rest, last, rfl⟩
    · -- the new event is the last one of the feed
      obtain ⟨rfl, hlast⟩ := List.append_inj' hsplit rfl
      obtain rfl : e = e' := List.singleton_inj.mp hlast
      rw [h.replays]
      exact hapt
    · have hsplit : c.feed ++ [e] = (before ++ e' :: rest) ++ [last] := by
        rw [hsplit, List.concat_eq_append, List.append_assoc, List.cons_append]
      exact h.apt before e' rest (List.append_inj_left' hsplit rfl)
  · unfold writeCount
    rw [hfeed, List.length_append, List.length_singleton, hwrites, ← h.counted]
    rfl

/-- Each change keeps the feed faithful, since it is committed with its event. -/
theorem Faithful.change {c c' : Cluster} (h : c.Faithful) (hchange : Change c c') :
    c'.Faithful := by
  cases hchange with
  | idle injected => exact ⟨h.replays, h.apt, h.counted⟩
  | added o hversion habsent =>
    refine h.commit ⟨.added, o⟩ rfl rfl rfl ?_
    simp only [habsent]
  | updated o old hversion hstored =>
    refine h.commit ⟨.updated, o⟩ rfl rfl rfl ?_
    simp only [hstored, reduceCtorEq]
  | released o old hversion hstored =>
    refine h.commit ⟨.deleted, o⟩ rfl rfl rfl ?_
    simp only [hstored, reduceCtorEq]
  | removed o hstored =>
    refine h.commit ⟨.deleted, o⟩ rfl rfl rfl ?_
    simp only [hstored, reduceCtorEq]

theorem faithful_ofHistory (ws : List ClusterWrite) : (ofHistory ws).Faithful :=
  ofHistory_keeps Faithful faithful_empty (fun _ _ _ hchange h => h.change hchange) ws

/-- The write comes to nothing: it fails, or it deletes once more what finalizers still hold. -/
def ComesToNothing (c : Cluster) (w : ClusterWrite) : Prop :=
  (∃ e, (w.perform c).1 = .error e) ∨
    ∃ id time o, w = .delete id time ∧ c.get? id = some o ∧ o.isTerminating = true ∧
      o.finalizers.isEmpty = false

/-- The second cluster differs from the first one only in that fewer patches of some object may be
left to be refused. -/
structure Undisturbed (c c' : Cluster) : Prop where
  objects : c'.objects = c.objects
  lastVersion : c'.lastVersion = c.lastVersion
  writeCount : c'.writeCount = c.writeCount
  feed : c'.feed = c.feed
  conflictsLeft : ∀ id, c'.conflictsLeft id ≤ c.conflictsLeft id

theorem Effect.undisturbed_of_error {c c' : Cluster} {w : ClusterWrite} {e : Error}
    (h : Effect c w (.error e) c') : c.Undisturbed c' := by
  cases h with
  | failed _ _ injected hfewer => exact ⟨rfl, rfl, rfl, rfl, hfewer⟩

/-- To delete once more what is terminating already leaves no trace. -/
theorem Effect.undisturbed_of_held {c c' : Cluster} {id : ResourceId} {time : Timestamp}
    {answer : Except Error (Option ManagedObject)} (h : Effect c (.delete id time) answer c')
    (o : ManagedObject) (hstored : c.get? id = some o) (hterminating : o.isTerminating = true)
    (hheld : o.finalizers.isEmpty = false) : c.Undisturbed c' := by
  cases h with
  | failed _ _ injected hfewer => exact ⟨rfl, rfl, rfl, rfl, hfewer⟩
  | removed o' hstored' hfree =>
    obtain rfl : o' = o := Option.some.inj (hstored'.symm.trans hstored)
    rw [hfree] at hheld
    cases hheld
  | held => exact ⟨rfl, rfl, rfl, rfl, fun _ => Nat.le_refl _⟩
  | marked o' hstored' _ hactive =>
    obtain rfl : o' = o := Option.some.inj (hstored'.symm.trans hstored)
    rw [hactive] at hterminating
    cases hterminating

/-- After every history the feed tells what is stored: replayed it gives the store, it adds only
what is absent and updates or deletes only what is present, and it is as long as the count of
writes. A write that then comes to nothing leaves the store and the feed as they are. -/
theorem feed_faithful (ws : List ClusterWrite) :
    (ofHistory ws).Faithful ∧
      ∀ w, (ofHistory ws).ComesToNothing w →
        (ofHistory ws).Undisturbed (ofHistory (ws ++ [w])) := by
  refine ⟨faithful_ofHistory ws, fun w hnothing => ?_⟩
  have heffect := effect_next ws w
  rcases hnothing with ⟨e, he⟩ | ⟨id, time, o, rfl, hstored, hterminating, hheld⟩
  · rw [he] at heffect
    exact heffect.undisturbed_of_error
  · exact heffect.undisturbed_of_held o hstored hterminating hheld

end Cluster
end Reconciliation
