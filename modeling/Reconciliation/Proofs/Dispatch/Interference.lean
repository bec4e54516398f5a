import Reconciliation.Proofs.Cluster.Standing
import Reconciliation.Proofs.Dispatch.Interleaving

/-!
What a dispatch does to its primary while others write. What they have done to the primary since it
was read is never written over, and where they have left it alone, the verdict of the reconciler is
put into effect as it stands.
-/
namespace Reconciliation.Dispatcher

open Cluster

variable {I : Interface}

/-- The dispatch has read the object from that cluster, before all its other exchanges. -/
inductive HasRead (before : List ClusterWrite) (id : ResourceId) (o : ManagedObject) :
    List (Item I) → Cluster → Prop
  | intro (start : List ClusterWrite) (between : List (Item I))
      (hread : (ofHistory (before ++ start)).get? id = some o) :
      HasRead before id o (byOthers start ++ .own (observation id (some o)) :: between)
        (ofHistory (before ++ start))

/-- What comes of a write of the dispatch where others have changed the primary since it was read:
it fails, every object is as they have left it, and the dispatch ends with an error. Only where the
primary is gone, its finalizer counts as removed. -/
structure Refused (left now : Cluster) (id : ResourceId) (p : ObjectPatch)
    (r : Except Error ManagedObject) (rest : Dispatching I DispatchSummary) : Prop where
  failed : ∃ e, r = .error e
  kept : now.objects = left.objects
  told : ∀ summary, rest = .done summary → summary.error.isSome = true ∨
    left.get? id = none ∧ (∃ f, p = .withoutFinalizer f) ∧ summary.finalizerRemoved = true

/-- The object is as the update makes it of the one that was read. -/
structure Updated (u : PrimaryUpdate) (o o' : ManagedObject) : Prop where
  /-- What is asked for is there, and what is not is as it was. -/
  asked : u.changes o = true → o'.spec = u.spec?.getD o.spec ∧ o'.status = u.status?.or o.status
  /-- Where the object agrees with what is asked for, it is as it was. -/
  same : u.changes o = false → o' = o
  generation : o'.generation.toNat = o.generation.toNat + (u.changesSpec o).toNat
  elsewhere : o' = { o with
    spec := o'.spec, status := o'.status, generation := o'.generation, version := o'.version }

/-- The update has been put into effect, with a write if it asks for something new. -/
structure Fulfilled (u : PrimaryUpdate) (id : ResourceId) (o : ManagedObject) (c c' : Cluster) :
    Prop where
  committed : c'.writeCount = c.writeCount + (u.changes o).toNat
  stored : ∃ o', c'.get? id = some o' ∧ Updated u o o'

/-- What a dispatch has done to its primary while others may have changed it. -/
structure Yields (before : List ClusterWrite) (id : ResourceId) (items : List (Item I))
    (rest : Dispatching I DispatchSummary) : Prop where
  once : items.countP Item.isOwnWrite ≤ 1
  /-- A write of the dispatch is one on its primary, with the version that it has read, and is
  refused if anything has been committed about the primary since. -/
  guarded : ∀ earlier i v p r later, items = earlier ++ .own (written i v p r) :: later →
    ∃ o read, HasRead before id o earlier read ∧ i = id ∧ v = o.version ∧
      ((clusterAt before earlier).changesOf id ≠ read.changesOf id →
        Refused (ofHistory (before ++ others earlier))
          (clusterAt before (earlier ++ [.own (written i v p r)])) id p r rest)
  /-- After a successful reconcile the dispatch writes if the verdict asks for something new. If
  nothing has been committed about the primary until the last exchange, and no conflict is injected,
  that exchange fulfils the verdict. -/
  fulfilled : ∀ summary, rest = .done summary → ∀ o ctx verdict,
    .own (judged o ctx verdict) ∈ items →
      ∃ earlier last since read, items = earlier ++ .own last :: byOthers since ∧
        HasRead before id o earlier read ∧
          items.countP Item.isOwnWrite = (verdict.update.changes o).toNat ∧
          ((clusterAt before earlier).changesOf id = read.changesOf id →
            (clusterAt before earlier).conflictsLeft id = 0 →
              Fulfilled verdict.update id o (clusterAt before earlier)
                (clusterAt before (earlier ++ [.own last])))

section Effect
variable {u : PrimaryUpdate} {id : ResourceId} {o : ManagedObject} {c : Cluster}

/-- The patch of an update makes of an object what is asked for. -/
theorem updated_renew (hchanges : u.changes o = true)
    (hroom : o.generation.toNat < UInt64.size - 1) :
    Updated u o
      (c.renew (ObjectPatch.applyTo { spec := u.spec?, status := u.status? } o)) := by
  refine ⟨fun _ => ⟨rfl, rfl⟩, fun hsame => ?_, ?_, ?_⟩
  · rw [hchanges] at hsame
    cases hsame
  · have hnext := ObjectPatch.toNat_nextGeneration { spec := u.spec?, status := u.status? } o
    have hchanged : (u.spec?.isSome && u.spec?.getD o.spec != o.spec) = u.changesSpec o := by
      unfold PrimaryUpdate.changesSpec
      cases u.spec? <;> rfl
    have hone := Bool.toNat_le (u.changesSpec o)
    rw [hchanged] at hnext
    exact hnext.trans (Nat.min_eq_left (by omega))
  · rfl

theorem fulfilled_of_same (hsame : u.changes o = false) (hstored : c.get? id = some o) :
    Fulfilled u id o c c := by
  have hspec : u.changesSpec o = false := (Bool.or_eq_false_iff.mp hsame).1
  refine ⟨?_, o, hstored, fun hchanges => ?_, fun _ => rfl, ?_, rfl⟩
  · rw [hsame]
    rfl
  · rw [hsame] at hchanges
    cases hchanges
  · rw [hspec]
    rfl

theorem fulfilled_of_patch (hchanges : u.changes o = true) (hactive : o.isTerminating = false)
    (hid : o.id = id) (hstored : c.get? id = some o) (hconflicts : c.conflictsLeft id = 0)
    (hroom : o.generation.toNat < UInt64.size - 1) :
    Fulfilled u id o c
      (c.patch id o.version { spec := u.spec?, status := u.status? }).2 := by
  subst hid
  rw [patch_of_active c o.id o hstored hconflicts hactive]
  refine ⟨?_, _, c.get?_put_self .updated (c.renew (ObjectPatch.applyTo _ o)),
    updated_renew hchanges hroom⟩
  rw [hchanges]
  rfl

end Effect

section Course
variable {before : List ClusterWrite} {t rest : Dispatching I DispatchSummary}
  {items : List (Item I)} {id : ResourceId}

theorem history_read (start : List ClusterWrite) (between : List (Item I))
    (found : Option ManagedObject) :
    before ++ writes (byOthers start ++ .own (observation id found) :: between) =
      before ++ start ++ writes between := by
  rw [writes_append, writes_byOthers, writes_own _ between rfl, List.append_assoc]

/-- The first exchange has read the object as it was stored then. -/
theorem Interleaved.hasRead (h : Interleaved before t items rest) (o : ManagedObject)
    (past : Past I) (hpast : exchanges items = observation id (some o) :: past) :
    ∃ read, HasRead before id o items read := by
  obtain ⟨start, between, rfl, _⟩ := split_first items _ past hpast
  have hfound := (h.before_own _ _ _).2
  have hread : clusterAt before (byOthers (I := I) start) = ofHistory (before ++ start) := by
    unfold clusterAt
    rw [writes_byOthers]
  refine ⟨_, .intro start between ?_⟩
  rw [← hread]
  exact hfound.symm

/-- An object that has been read has the identity that was asked for. -/
theorem HasRead.id_eq {o : ManagedObject} {read : Cluster} (h : HasRead before id o items read) :
    o.id = id := by
  cases h with
  | intro start between hread => exact keyed_ofHistory _ id o hread

/-- What has been read is what the first item says, if that is an exchange. -/
theorem HasRead.of_own_cons {o : ManagedObject} {read : Cluster} {x : Exchange (dispatching I)}
    (h : HasRead before id o (.own x :: items) read) :
    x = observation id (some o) ∧ read = ofHistory before := by
  generalize hall : Item.own x :: items = all at h
  cases h with
  | intro start between hread =>
    cases start with
    | nil => exact ⟨Item.own.inj (List.cons.inj hall).1, by rw [List.append_nil]⟩
    | cons w rest => cases (List.cons.inj hall).1

variable (ht : WritesOnce id [] t)
include ht

theorem Interleaved.mayCall {c : DispatchCall I} {k : c.Reply → Dispatching I DispatchSummary}
    (h : Interleaved before t items (.call c k)) : MayCall id (exchanges items) c :=
  (h.leads.obeys ht).1

/-- Before a write of the dispatch there is no other one. -/
theorem Interleaved.read_before_written (earlier later : List (Item I)) (i : ResourceId)
    (v : Version) (p : ObjectPatch) (r : Except Error ManagedObject)
    (h : Interleaved before t (earlier ++ .own (written i v p r) :: later) rest) :
    (∀ x ∈ exchanges earlier, x.call.write? = none) ∧
      ∃ o read, HasRead before id o earlier read ∧ i = id ∧ v = o.version := by
  obtain ⟨⟨k, hcall⟩, _⟩ := h.before_own earlier later _
  have hmay := hcall.mayCall ht
  generalize hpast : exchanges earlier = past at hmay
  cases hmay with
  | other past c hc => cases hc
  | write o past hunwritten p =>
    obtain ⟨read, hread⟩ := hcall.hasRead o past hpast
    exact ⟨List.forall_mem_cons.mpr ⟨rfl, hunwritten⟩, o, read, hread, hread.id_eq, rfl⟩

/-- A dispatch writes once at most, whatever others write in between. -/
theorem Interleaved.writes_once (h : Interleaved before t items rest) :
    items.countP Item.isOwnWrite ≤ 1 := by
  induction h with
  | start => exact Nat.zero_le 1
  | other items rest w _ ih =>
    rw [List.countP_append]
    exact ih
  | own items c k r hcall _ ih =>
    have hmay := hcall.mayCall ht
    rw [List.countP_append]
    generalize hpast : exchanges items = past at hmay
    cases hmay with
    | other past c hc =>
      rw [List.countP_singleton, if_neg]
      · exact ih
      · change ¬ c.write?.isSome = true
        rw [hc]
        exact Bool.false_ne_true
    | write o past hunwritten p =>
      have hnone : ∀ x ∈ exchanges items, x.call.write? = none := by
        rw [hpast]
        exact List.forall_mem_cons.mpr ⟨rfl, hunwritten⟩
      rw [countP_isOwnWrite_eq_zero items hnone, Nat.zero_add]
      exact List.countP_le_length

/-- A dispatch that is over has ended in one of its ways. -/
theorem Interleaved.ended {summary : DispatchSummary}
    (h : Interleaved before t items (.done summary)) : Ended id (exchanges items) summary :=
  h.leads.obeys ht

variable (hroom : (assignments {} (before ++ writes items)).length < UInt64.size - 1)
include hroom

omit ht in
/-- What is left for the versions up to some item. -/
theorem room_before (earlier later : List (Item I)) (hitems : items = earlier ++ later) :
    (assignments {} (before ++ writes earlier)).length < UInt64.size - 1 := by
  rw [hitems, writes_append, ← List.append_assoc] at hroom
  exact Nat.lt_of_le_of_lt (length_assignments_le _ _) hroom

/-- A write on a primary that has been changed since it was read is refused. -/
theorem Interleaved.refused (h : Interleaved before t items rest) (earlier later : List (Item I))
    (p : ObjectPatch) (r : Except Error ManagedObject) (o : ManagedObject) (read : Cluster)
    (hitems : items = earlier ++ .own (written id o.version p r) :: later)
    (hread : HasRead before id o earlier read)
    (hchanged : (clusterAt before earlier).changesOf id ≠ read.changesOf id) :
    Refused (ofHistory (before ++ others earlier))
      (clusterAt before (earlier ++ [.own (written id o.version p r)])) id p r rest := by
  subst hitems
  have hroom := room_before hroom earlier _ rfl
  have hunwritten := (h.read_before_written ht earlier later id o.version p r).1
  have hreply : r = ((clusterAt before earlier).patch id o.version p).1 :=
    (h.before_own earlier later _).2
  have hrefused : ∃ e, ((clusterAt before earlier).patch id o.version p).1 = .error e ∧
      ((clusterAt before earlier).patch id o.version p).2.objects =
        (clusterAt before earlier).objects ∧
      (e.isNotFound = true → (clusterAt before earlier).get? id = none) := by
    cases hread with
    | intro start between hread =>
      -- the writes since the read carry on the history that was read from
      unfold clusterAt at hchanged ⊢
      rw [history_read] at hchanged hroom ⊢
      exact patch_of_overtaken (before ++ start) (writes between) hroom id o hread hchanged p
  obtain ⟨e, hanswer, hkept, hgone⟩ := hrefused
  rw [hanswer] at hreply
  rw [others_eq_writes earlier hunwritten, clusterAt_concat_written]
  refine ⟨⟨e, hreply⟩, hkept, fun summary hsummary => ?_⟩
  rw [hsummary] at h
  have hmem : written id o.version p r ∈
      exchanges (earlier ++ .own (written id o.version p r) :: later) :=
    (mem_exchanges _ _).mpr (List.mem_append_right _ List.mem_cons_self)
  have htold := (h.ended ht).discloses id o.version p r hmem e hreply
  exact htold.imp_right fun ⟨hnotFound, hremoval⟩ => ⟨hgone hnotFound, hremoval⟩

omit ht in
/-- A primary about which nothing has been committed is stored as it was read. -/
theorem HasRead.stored {o : ManagedObject} {read : Cluster} (h : HasRead before id o items read)
    (hsame : (clusterAt before items).changesOf id = read.changesOf id) :
    (clusterAt before items).get? id = some o := by
  cases h with
  | intro start between hread =>
    unfold clusterAt at hsame ⊢
    rw [history_read] at hsame hroom ⊢
    rw [stored_of_unchanged (before ++ start) (writes between) hroom id hsame, hread]

/-- Where others have left the primary alone, the verdict is fulfilled with the last exchange. -/
theorem Interleaved.fulfilled {summary : DispatchSummary}
    (h : Interleaved before t items (.done summary)) (o : ManagedObject) (ctx : Context)
    (verdict : ReconcileVerdict) (hjudged : .own (judged o ctx verdict) ∈ items) :
    ∃ earlier last since read, items = earlier ++ .own last :: byOthers since ∧
      HasRead before id o earlier read ∧
        items.countP Item.isOwnWrite = (verdict.update.changes o).toNat ∧
        ((clusterAt before earlier).changesOf id = read.changesOf id →
          (clusterAt before earlier).conflictsLeft id = 0 →
            Fulfilled verdict.update id o (clusterAt before earlier)
              (clusterAt before (earlier ++ [.own last]))) := by
  obtain ⟨hactive, between, last, hpast, hbetween, hlast⟩ :=
    (h.ended ht).of_judged o ctx verdict ((mem_exchanges items _).mpr hjudged)
  obtain ⟨earlier, since, rfl, hearlier⟩ := split_last items _ last hpast
  obtain ⟨⟨k, hcall⟩, _⟩ := h.before_own earlier (byOthers since) last
  obtain ⟨read, hread⟩ := hcall.hasRead o between hearlier
  have hunwritten : ∀ x ∈ exchanges earlier, x.call.write? = none := by
    rw [hearlier]
    exact List.forall_mem_cons.mpr ⟨rfl, hbetween⟩
  have hcount := countP_isOwnWrite_last earlier last since hunwritten
  have hroom' := room_before hroom earlier _ rfl
  refine ⟨earlier, last, since, read, rfl, hread, ?_⟩
  rcases hlast with ⟨hnone, hquiet⟩ | ⟨p, r, hp, rfl⟩
  · have hsame := changes_of_patchFor_none o _ hnone
    refine ⟨?_, fun hunchanged _ => ?_⟩
    · rw [hcount, hquiet, hsame]
      rfl
    · rw [clusterAt_concat_own before earlier last hquiet]
      exact fulfilled_of_same hsame (hread.stored hroom' hunchanged)
  · obtain ⟨hchanges, rfl⟩ := changes_of_patchFor_some o _ p hp
    refine ⟨?_, fun hunchanged hconflicts => ?_⟩
    · rw [hcount, hchanges]
      rfl
    · have hstored := hread.stored hroom' hunchanged
      have hgeneration := generation_le_lastVersion _ hroom' id o hstored
      rw [(numbered_ofHistory _ hroom').counted] at hgeneration
      have hid := hread.id_eq
      rw [clusterAt_concat_written, hid]
      exact fulfilled_of_patch hchanges hactive hid hstored hconflicts
        (Nat.lt_of_le_of_lt hgeneration hroom')

end Course

/-- Whatever others do, a dispatch yields to their changes of its primary, as long as the versions
have not run out. It writes once at most, with the version that it has read, and the write is
refused if anything has been committed about the primary since. If nothing has, it does what the
reconciler has decided. -/
theorem dispatch_yields (d : Dispatcher I) (request : ReconciliationRequest)
    (retry : Option RetryInfo) (before : List ClusterWrite) (items : List (Item I))
    (rest : Dispatching I DispatchSummary)
    (h : Interleaved before (d.dispatch request retry) items rest)
    (hroom : (assignments {} (before ++ writes items)).length < UInt64.size - 1) :
    Yields before request.id items rest := by
  have ht := d.dispatch_writesOnce request retry
  refine ⟨h.writes_once ht, fun earlier i v p r later hitems => ?_,
    fun summary hsummary o ctx verdict hjudged => ?_⟩
  · subst hitems
    obtain ⟨_, o, read, hread, rfl, rfl⟩ := h.read_before_written ht earlier later i v p r
    exact ⟨o, read, hread, rfl, rfl, h.refused ht hroom earlier later p r o read rfl hread⟩
  · subst hsummary
    exact h.fulfilled ht hroom o ctx verdict hjudged

/-- A dispatcher that does no more than put the verdicts of the reconciler into effect. -/
def plainDispatcher : Dispatcher Client.plainInterface where
  finalizer := none
  readinessRecheck := .zero

/-- The room as a dispatch reads it. -/
def roomRead : ManagedObject := { Cluster.room with version := ⟨1⟩, generation := 1 }

/-- The room is to be reported as ready. -/
def readyVerdict : ReconcileVerdict := { update := .status (.str "ready") }

/-- A dispatch of the room that reports it as ready, with writes of others before it does. -/
def reporting (between : List ClusterWrite) (r : Except Error ManagedObject) :
    List (Item Client.plainInterface) :=
  [.own (observation room.id (some roomRead)),
    .own (judged roomRead { primary := room.id } readyVerdict)] ++ byOthers between ++
      [.own (written room.id ⟨1⟩ (.setStatus (.str "ready")) r)]

theorem interleaved_reporting (between : List ClusterWrite) :
    ∃ k, Interleaved [.create room] (plainDispatcher.dispatch ⟨room.id, []⟩ none)
      ([.own (observation room.id (some roomRead)),
        .own (judged roomRead { primary := room.id } readyVerdict)] ++ byOthers between)
      (.call (.primary (.patch room.id ⟨1⟩ (.setStatus (.str "ready")))) k) ∧
      (∀ e, k (.error e) = .done (.failed e)) ∧
        ∀ updated, k (.ok updated) = .done (.succeeded (some updated) none) := by
  have hstart : Interleaved [.create room] (plainDispatcher.dispatch ⟨room.id, []⟩ none) []
    (plainDispatcher.dispatch ⟨room.id, []⟩ none) := .start
  have hread := hstart.own _ (.primary (.observe room.id)) _ (some roomRead) rfl
  have hjudged := hread.own _ (.primary (.reconcile roomRead { primary := room.id })) _
    (.ok readyVerdict) trivial
  exact ⟨_, hjudged.append_others between, fun _ => rfl, fun _ => rfl⟩

/-- Where the room gets another spec in the meantime, that is not written over and the dispatch ends
with a conflict. Where it does not, the report is written. -/
theorem dispatch_yields_furnished :
    let furnish : ClusterWrite := .editSpec room.id (.str "oak")
    let conflict : Error := .conflict room.id ⟨1⟩ ⟨2⟩
    let ready : ManagedObject := { roomRead with version := ⟨2⟩, status := some (.str "ready") }
    (Interleaved [.create room] (plainDispatcher.dispatch ⟨room.id, []⟩ none)
        (reporting [furnish] (.error conflict)) (.done (.failed conflict)) ∧
      (assignments {} (.create room :: writes (reporting [furnish] (.error conflict)))).length <
        UInt64.size - 1 ∧
      Refused (ofHistory [.create room, furnish])
        (clusterAt [.create room] (reporting [furnish] (.error conflict))) room.id
        (.setStatus (.str "ready")) (.error conflict)
        (.done (.failed conflict) : Dispatching Client.plainInterface DispatchSummary)) ∧
    (Interleaved [.create room] (plainDispatcher.dispatch ⟨room.id, []⟩ none)
        (reporting [] (.ok ready)) (.done (.succeeded (some ready) none)) ∧
      (assignments {} (.create room :: writes (reporting [] (.ok ready)))).length <
        UInt64.size - 1 ∧
      (reporting [] (.ok ready)).countP Item.isOwnWrite = 1 ∧
      (clusterAt [.create room] (reporting [] (.ok ready))).get? room.id = some ready) := by
  intro furnish conflict ready
  refine ⟨?_, ?_⟩
  · obtain ⟨k, hcall, hfailed, _⟩ := interleaved_reporting [furnish]
    have hover := hcall.own _ (.primary (.patch room.id ⟨1⟩ (.setStatus (.str "ready")))) _
      (.error conflict) rfl
    rw [hfailed] at hover
    have hroom : (assignments {} (.create room ::
      writes (reporting [furnish] (.error conflict)))).length < UInt64.size - 1 := by decide
    have hyields := plainDispatcher.dispatch_yields ⟨room.id, []⟩ none _ _ _ hover hroom
    obtain ⟨o, read, hread, _, _, hrefused⟩ := hyields.guarded _ _ _ _ _ [] rfl
    obtain ⟨_, rfl⟩ := hread.of_own_cons
    exact ⟨hover, hroom, hrefused fun hsame => absurd (congrArg List.length hsame) (by decide)⟩
  · obtain ⟨k, hcall, _, hsucceeded⟩ := interleaved_reporting []
    have hover := hcall.own _ (.primary (.patch room.id ⟨1⟩ (.setStatus (.str "ready")))) _
      (.ok ready) rfl
    rw [hsucceeded] at hover
    have hroom : (assignments {} (.create room :: writes (reporting [] (.ok ready)))).length <
      UInt64.size - 1 := by decide
    have hyields := plainDispatcher.dispatch_yields ⟨room.id, []⟩ none _ _ _ hover hroom
    obtain ⟨_, _, _, _, _, _, hcount, _⟩ := hyields.fulfilled _ rfl roomRead
      { primary := room.id } readyVerdict (by simp)
    exact ⟨hover, hroom, hcount, rfl⟩

end Reconciliation.Dispatcher
