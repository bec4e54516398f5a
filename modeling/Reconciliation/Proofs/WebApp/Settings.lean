import Reconciliation.CommandLine.Program
import Reconciliation.Proofs.Settings.Document

/-!
The settings of the sample controller are a fixed point of printing and loading. A settings file
cannot take the bound on the attempts away, and loading fills in the kind, a name of its own and a
finalizer; of what the environment changes, only the finalizer that it switches off is filled in
again.
-/
namespace Reconciliation

namespace Toml

theorem toJson_ne_null (v : Value) : v.toJson ≠ .null := by
  cases v <;> simp [Value.toJson, Json.object]

/-- The fields of a record that a document states hold what the document states. -/
theorem record?_toJson {v : Value} {names : List String} {least : ℕ} {strict : Bool}
    {field : String → Option Json} (h : v.toJson.record? names least strict = some field)
    {k : String} {j : Json} (hk : field k = some j) : ∃ w : Value, j = w.toJson := by
  cases v with
  | table origin entries =>
    rw [Value.toJson, Json.object_eq_obj, Json.record?, jsonFields_eq_map] at h
    cases h
    dsimp only at hk
    rw [SortedMap.lookup_entries, SortedMap.get?_ofList] at hk
    have hmem := List.mem_reverse.mp (Association.mem_of_lookup _ k j hk)
    obtain ⟨e, -, he⟩ := List.mem_map.mp hmem
    exact ⟨e.2, (congrArg Prod.snd he).symm⟩
  | array ofTables items =>
    rw [Value.toJson, Json.record?, jsonItems_eq_map] at h
    split at h
    · cases h
      have hmem := (List.of_mem_zip (Association.mem_of_lookup _ k j hk)).2
      obtain ⟨w, -, hw⟩ := List.mem_map.mp hmem
      exact ⟨w, hw.symm⟩
    · cases h
  | datetime text =>
    rw [Value.toJson, Json.record?] at h
    cases h
    dsimp only at hk
    rw [List.lookup_cons, List.lookup_nil] at hk
    split at hk
    · cases hk
      exact ⟨.str text, by rw [Value.toJson]⟩
    · cases hk
  | _ =>
    rw [Value.toJson, Json.record?] at h
    · cases h
    all_goals simp

end Toml

namespace Settings

/-- A document of settings has no value for an absent bound, so one is always read. -/
theorem bounded_attempts_of_toJson {strict : Bool} {v : Toml.Value} {r : RetrySettings}
    (h : RetrySettings.ofJson? strict v.toJson = some r) : r.maxAttempts ≠ none := by
  unfold RetrySettings.ofJson? at h
  simp only [Option.bind_eq_bind, Option.bind_eq_some_iff] at h
  obtain ⟨field, hfield, _, -, attempts, hattempts, _, -, _, -, _, -, heq⟩ := h
  cases heq
  cases hk : field "max_attempts" with
  | none =>
    rw [hk] at hattempts
    cases hattempts
    exact nofun
  | some j =>
    obtain ⟨w, rfl⟩ := Toml.record?_toJson hfield hk
    rw [hk, Json.defaulted, Json.nullable] at hattempts
    · rintro rfl
      obtain ⟨n, -, hn⟩ := Option.map_eq_some_iff.mp hattempts
      cases hn
    · exact Toml.toJson_ne_null w

theorem bounded_attempts {raw : String} {s : Settings} (h : parseToml raw = .ok s) :
    s.retry.maxAttempts ≠ none := by
  unfold parseToml at h
  split at h
  · rename_i t ht
    cases h
    obtain ⟨table, -, hs⟩ := Option.bind_eq_some_iff.mp ht
    unfold ofJson? at hs
    simp only [Option.bind_eq_bind, Option.bind_eq_some_iff] at hs
    obtain ⟨field, hfield, _, -, _, -, _, -, _, -, _, -, _, -, retry, hretry, _, -, _, -, _, -,
      heq⟩ := hs
    cases heq
    cases hk : field "retry" with
    | none =>
      rw [hk] at hretry
      cases hretry
      exact nofun
    | some j =>
      obtain ⟨w, rfl⟩ := Toml.record?_toJson hfield hk
      rw [hk] at hretry
      exact bounded_attempts_of_toJson hretry
  · cases h

theorem overrideWorkers_ok {env : Environment} {s t : Settings} (h : overrideWorkers env s = .ok t) :
    ∃ workers, t = { s with workers } := by
  unfold overrideWorkers at h
  split at h
  · cases h
    exact ⟨s.workers, rfl⟩
  · split at h
    · cases h
      exact ⟨_, rfl⟩
    · cases h

theorem overrideNamespaces_eq (env : Environment) (s : Settings) :
    ∃ namespaces, overrideNamespaces env s = { s with namespaces } := by
  unfold overrideNamespaces
  split
  · exact ⟨s.namespaces, rfl⟩
  · exact ⟨_, rfl⟩

/-- The finalizer that the environment leaves. -/
def finalizerUnder (env : Environment) (f : Option String) : Option String :=
  match env "STEWARD_FINALIZER" with
  | none => f
  | some f => if f = "" then none else some f

theorem overrideFinalizer_eq (env : Environment) (s : Settings) :
    overrideFinalizer env s = { s with finalizer := finalizerUnder env s.finalizer } := by
  unfold overrideFinalizer finalizerUnder
  cases env "STEWARD_FINALIZER" <;> rfl

theorem finalizerUnder_eq_none_iff (env : Environment) (f : String) :
    finalizerUnder env (some f) = none ↔ env "STEWARD_FINALIZER" = some "" := by
  unfold finalizerUnder
  cases env "STEWARD_FINALIZER" with
  | none => exact iff_of_false nofun nofun
  | some g =>
    dsimp only
    rw [ite_eq_left_iff, Option.some.injEq]
    exact ⟨fun h => by_contra fun hg => (nomatch h hg), fun hg h => absurd hg h⟩

theorem bind_ok {α β : Type} {x : Except Error α} {f : α → Except Error β} {b : β}
    (h : x.bind f = .ok b) : ∃ a, x = .ok a ∧ f a = .ok b := by
  cases x with
  | error e => cases h
  | ok a => exact ⟨a, rfl, h⟩

theorem applyEnvironment_eq (env : Environment) (s : Settings) :
    applyEnvironment env s = (overrideWorkers env s).bind fun w =>
      (validate (overrideNamespaces env (overrideFinalizer env w))).bind fun _ =>
        .ok (overrideNamespaces env (overrideFinalizer env w)) := rfl

/-- The environment changes the workers, the finalizer and the namespaces, and the outcome is
valid. -/
theorem applyEnvironment_ok {env : Environment} {s t : Settings}
    (h : applyEnvironment env s = .ok t) :
    t.validate = .ok () ∧ ∃ workers namespaces,
      t = { s with workers, namespaces, finalizer := finalizerUnder env s.finalizer } := by
  rw [applyEnvironment_eq] at h
  obtain ⟨w, hw, h⟩ := bind_ok h
  obtain ⟨_, hvalid, h⟩ := bind_ok h
  obtain ⟨workers, rfl⟩ := overrideWorkers_ok hw
  obtain ⟨namespaces, hnamespaces⟩ :=
    overrideNamespaces_eq env (overrideFinalizer env { s with workers })
  rw [hnamespaces, overrideFinalizer_eq] at h hvalid
  cases h
  exact ⟨hvalid, workers, namespaces, rfl⟩

theorem applyEnvironment_none {s : Settings} (h : s.validate = .ok ()) :
    applyEnvironment (fun _ => none) s = .ok s := by
  have hworkers : overrideWorkers (fun _ => none) s = .ok s := rfl
  rw [applyEnvironment_eq, hworkers, Except.bind, show overrideNamespaces (fun _ => none)
    (overrideFinalizer (fun _ => none) s) = s from rfl, h]
  rfl

end Settings

namespace WebApp
variable {file : Option (String × Settings.File)} {env : Settings.Environment} {s t : Settings}

/-- What loading fills in: the kind, a name, and a finalizer where there is none. -/
theorem withDefaults_ok (h : withDefaults s = .ok t) :
    ∃ name, name ≠ ({} : Settings).name ∧
      t = { s with kind := kind, name, finalizer := s.finalizer.or (some finalizer) } := by
  have hname : (if s.name = ({} : Settings).name then controllerName else s.name) ≠
      ({} : Settings).name := by
    split_ifs with h
    · decide
    · exact h
  unfold withDefaults at h
  by_cases hempty : s.kind = ""
  · rw [if_pos hempty, if_neg (not_not_intro rfl)] at h
    cases h
    exact ⟨_, hname, rfl⟩
  · rw [if_neg hempty] at h
    dsimp only at h
    by_cases hkind : s.kind = kind
    · rw [if_neg (not_not_intro hkind)] at h
      cases h
      exact ⟨_, hname, by rw [← hkind]⟩
    · rw [if_pos hkind] at h
      cases h

/-- What loading makes sure of: the kind, a name other than the default one, a bound on the attempts,
and valid values. -/
structure Loaded (s : Settings) : Prop where
  kind : s.kind = kind
  name : s.name ≠ ({} : Settings).name
  attempts : s.retry.maxAttempts ≠ none
  valid : s.Valid

theorem parseFile_attempts {path : String} {content : Settings.File}
    (h : Settings.parseFile path content = .ok s) : s.retry.maxAttempts ≠ none := by
  unfold Settings.parseFile at h
  cases content with
  | missing => cases h
  | binary => cases h
  | text raw => exact Settings.bounded_attempts h

theorem loadSettings_given (path : String) (content : Settings.File) :
    loadSettings (some (path, content)) env = (Settings.parseFile path content).bind fun start =>
      (withDefaults start).bind fun full => full.applyEnvironment env := rfl

/-- Loading starts from settings with bounded attempts, fills in the defaults and lets the
environment have its way. -/
theorem loadSettings_ok (h : loadSettings file env = .ok s) :
    ∃ start : Settings, start.retry.maxAttempts ≠ none ∧ ∃ full, withDefaults start = .ok full ∧
      full.applyEnvironment env = .ok s := by
  cases file with
  | none =>
    have h : (withDefaults {}).bind (fun full => full.applyEnvironment env) = .ok s := h
    exact ⟨{}, nofun, Settings.bind_ok h⟩
  | some given =>
    rw [loadSettings_given given.1 given.2] at h
    obtain ⟨start, hstart, h⟩ := Settings.bind_ok h
    exact ⟨start, parseFile_attempts hstart, Settings.bind_ok h⟩

theorem loaded (h : loadSettings file env = .ok s) :
    Loaded s ∧ (s.finalizer = none ↔ env "STEWARD_FINALIZER" = some "") := by
  obtain ⟨start, hattempts, full, hfull, henv⟩ := loadSettings_ok h
  obtain ⟨name, hname, rfl⟩ := withDefaults_ok hfull
  obtain ⟨hvalid, workers, namespaces, rfl⟩ := Settings.applyEnvironment_ok henv
  refine ⟨⟨rfl, hname, hattempts, Settings.valid_iff.mp hvalid⟩, ?_⟩
  cases hs : start.finalizer <;> exact Settings.finalizerUnder_eq_none_iff env _

theorem withDefaults_loaded (h : Loaded s) :
    withDefaults s = .ok { s with finalizer := s.finalizer.or (some finalizer) } := by
  have hempty : s.kind ≠ "" := by
    rw [h.kind]
    decide
  unfold withDefaults
  rw [if_neg hempty]
  dsimp only
  rw [if_neg (not_not_intro h.kind), if_neg h.name]

theorem valid_withDefaults (h : Loaded s) :
    Settings.Valid { s with finalizer := s.finalizer.or (some finalizer) } := by
  obtain ⟨name, kind, workers, f, namespaces, labels, retry, workflow, interval, aware⟩ := s
  cases f with
  | none => exact h.valid.withFinalizer (by decide)
  | some f => exact h.valid

/-- Loading settings again that were loaded before, from what is printed for them. -/
theorem loadSettings_again (h : Loaded s) (path : String) (n : ℕ) :
    loadSettings (some (path, .text (s.document.text ++ String.ofList (List.replicate n '\n'))))
      (fun _ => none) = .ok { s with finalizer := s.finalizer.or (some finalizer) } := by
  have hparse := Settings.parseToml_document h.valid.isFinite n
  rw [Settings.bounded_eq_self_iff.mpr h.attempts] at hparse
  rw [loadSettings_given, show Settings.parseFile path (.text _) = Settings.parseToml _ from rfl, hparse,
    Except.bind, withDefaults_loaded h, Except.bind]
  exact Settings.applyEnvironment_none (Settings.valid_iff.mpr (valid_withDefaults h))

/-- Loaded settings are a fixed point of printing and loading, but for the finalizer where the
environment has switched it off: then the one of the sample comes back. -/
theorem loadSettings_printed (hload : loadSettings file env = .ok s) (hfits : s.printable = true) :
    ∃ text, s.toToml? = some text ∧
      CommandLine.runCommand s .config = { code := 0, stdout := text ++ "\n" } ∧
      (∀ path, ∀ raw ∈ [text, text ++ "\n"],
        loadSettings (some (path, .text raw)) (fun _ => none) =
          .ok { s with finalizer := s.finalizer.or (some finalizer) }) ∧
      (s.finalizer = none ↔ env "STEWARD_FINALIZER" = some "") := by
  obtain ⟨h, hfinalizer⟩ := loaded hload
  have htext := Settings.toToml?_eq hfits
  refine ⟨s.document.text, htext, ?_, fun path raw hraw => ?_, hfinalizer⟩
  · rw [CommandLine.runCommand, htext]
  · simp only [List.mem_cons, List.not_mem_nil, or_false] at hraw
    rcases hraw with rfl | rfl
    · have hagain := loadSettings_again h path 0
      rwa [Toml.append_no_breaks] at hagain
    · exact loadSettings_again h path 1

/-- An environment that sets one variable. -/
def only (name value : String) : Settings.Environment := fun v => if v = name then some value else none

/-- The settings without a file, for so many workers. -/
def withWorkers (workers : UInt64) : Settings where
  name := controllerName
  kind := kind
  workers := workers
  finalizer := some finalizer

/-- Settings with a number of workers from the environment load again as they were. -/
theorem loadSettings_printed_workers :
    loadSettings none (only "STEWARD_WORKERS" "12") = .ok (withWorkers 12) ∧
      (withWorkers 12).printable = true ∧
      ∃ text, (withWorkers 12).toToml? = some text ∧
        loadSettings (some ("steward.toml", .text text)) (fun _ => none) = .ok (withWorkers 12) := by
  have hload : loadSettings none (only "STEWARD_WORKERS" "12") = .ok (withWorkers 12) := by rfl
  have hfits : (withWorkers 12).printable = true := by decide
  obtain ⟨text, htext, -, hagain, -⟩ := loadSettings_printed hload hfits
  exact ⟨hload, hfits, text, htext, hagain _ text (by simp)⟩

/-- The settings without a file where the environment has switched the finalizer off. -/
def withoutFinalizer : Settings where
  name := controllerName
  kind := kind

/-- A finalizer that the environment has switched off comes back with the next loading. -/
theorem finalizer_filled_in_again :
    loadSettings none (only "STEWARD_FINALIZER" "") = .ok withoutFinalizer ∧
      withoutFinalizer.printable = true ∧
      ∃ text, withoutFinalizer.toToml? = some text ∧ ∀ path,
        loadSettings (some (path, .text text)) (fun _ => none) ≠ .ok withoutFinalizer := by
  have hload : loadSettings none (only "STEWARD_FINALIZER" "") = .ok withoutFinalizer := by rfl
  have hfits : withoutFinalizer.printable = true := by decide
  refine ⟨hload, hfits, _, Settings.toToml?_eq hfits, fun path => ?_⟩
  have hagain := loadSettings_again (loaded hload).1 path 0
  rw [Toml.append_no_breaks] at hagain
  rw [hagain]
  exact fun h => nomatch congrArg Settings.finalizer (Except.ok.inj h)

end WebApp
end Reconciliation
