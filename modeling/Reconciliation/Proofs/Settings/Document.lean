import Reconciliation.Proofs.Json.Record
import Reconciliation.Proofs.Number.Binary
import Reconciliation.Proofs.Settings.Validation
import Reconciliation.Proofs.Toml.Document
import Reconciliation.Settings.Document

/-!
Settings printed as a document and read again. Every field comes back as it was, except that a
missing bound on the attempts is read as its default. Valid settings can always be read again, since
their multiplier is finite. The text is read by the reader of documents, not taken back as the
value that was printed.
-/
namespace Reconciliation

open Toml (fields)

section Entries
variable {α : Type}

theorem lookup_fields (k : String) (entries : List (String × Toml.Entry)) :
    (fields entries).lookup k = (entries.lookup k).map fun e => e.value.toJson := by
  induction entries with
  | nil => rfl
  | cons e entries ih =>
    rw [fields, List.map_cons, List.lookup_cons, List.lookup_cons]
    cases k == e.1 with
    | true => rfl
    | false => exact ih

theorem lookup_present (k k' : String) (f : α → Toml.Entry) (a : Option α) :
    (Settings.present k f a).lookup k' = if k' == k then a.map f else none := by
  cases a with
  | none => exact (ite_self none).symm
  | some a =>
    rw [Settings.present, List.lookup_cons]
    cases k' == k <;> rfl

theorem keys_present (k : String) (f : α → Toml.Entry) (a : Option α) :
    ((Settings.present k f a).map (·.1)).Sublist [k] := by
  cases a with
  | none => exact List.nil_sublist [k]
  | some a => exact .refl [k]

/-- An optional value is left out where there is none, and then its default is read. -/
theorem defaulted_present {read : Json → Option α} {f : α → Toml.Entry}
    (h : ∀ a, read (f a).value.toJson = some a) (hnull : ∀ a, (f a).value.toJson ≠ .null)
    (a d : Option α) :
    Json.defaulted d (Json.nullable read) ((a.map f).map fun e => e.value.toJson) =
      some (a.or d) := by
  cases a with
  | none => rfl
  | some a => exact Json.nullable_optional (a := some a) (fun x _ => h x) hnull

theorem asString?_text (s : String) : Json.asString? (Toml.Entry.text s).value.toJson = some s := by
  rw [Toml.Entry.value, Toml.Value.toJson]
  rfl

theorem asBool?_bool (b : Bool) : Json.asBool? (Toml.Entry.bool b).value.toJson = some b := by
  rw [Toml.Entry.value, Toml.Value.toJson]
  rfl

theorem asFloat?_float (x : Float) : Json.asFloat? (Toml.Entry.float x).value.toJson = some x := by
  rw [Toml.Entry.value, Toml.Value.toJson]
  rfl

theorem readStrings?_texts (items : List String) :
    Json.readStrings? (Toml.Entry.texts items).value.toJson = some items := by
  rw [Toml.toJson_texts]
  exact Json.readStrings?_texts items

theorem asUInt64?_word (n : UInt64) : Json.asUInt64? (Settings.word n).value.toJson = some n := by
  rw [Settings.word, Toml.Entry.value, Toml.Value.toJson]
  exact Json.asUInt64?_nat n

theorem asUInt32?_nat (n : UInt32) :
    Json.asUInt32? (Toml.Entry.nat n.toNat).value.toJson = some n := by
  rw [Toml.Entry.value, Toml.Value.toJson]
  exact Json.asUInt32?_nat n

theorem toJson_nat_ne_null (n : ℕ) : (Toml.Entry.nat n).value.toJson ≠ .null := by
  simp [Toml.Entry.value, Toml.Value.toJson]

theorem toJson_text_ne_null (s : String) : (Toml.Entry.text s).value.toJson ≠ .null := by
  simp [Toml.Entry.value, Toml.Value.toJson]

end Entries

namespace RetrySettings

/-- The settings with the bound on the attempts that is read where none is written. -/
def bounded (r : RetrySettings) : RetrySettings :=
  { r with maxAttempts := r.maxAttempts.or ({} : RetrySettings).maxAttempts }

theorem keys_retryEntries (r : RetrySettings) :
    ((Settings.retryEntries r).map (·.1)).Sublist fieldNames := by
  simp only [Settings.retryEntries, List.map_append]
  exact (((List.Sublist.refl ["enabled"]).append (keys_present _ _ _)).append
    (.refl ["initial_interval_ms", "multiplier"])).append (keys_present _ _ _)

theorem nodup_keys (r : RetrySettings) : ((fields (Settings.retryEntries r)).map (·.1)).Nodup := by
  rw [fields, List.map_map]
  exact (keys_retryEntries r).nodup (by decide)

theorem lookup_retryEntries (r : RetrySettings) :
    (Settings.retryEntries r).lookup "enabled" = some (.bool r.enabled) ∧
    (Settings.retryEntries r).lookup "max_attempts" =
      (r.maxAttempts.map fun n => .nat n.toNat) ∧
    (Settings.retryEntries r).lookup "initial_interval_ms" =
      some (Settings.word r.initialIntervalMs) ∧
    (Settings.retryEntries r).lookup "multiplier" = some (.float r.multiplier) ∧
    (Settings.retryEntries r).lookup "max_interval_ms" = r.maxIntervalMs.map Settings.word := by
  refine ⟨rfl, ?_, ?_, ?_, ?_⟩ <;>
    simp [Settings.retryEntries, List.lookup_append, List.lookup_cons, lookup_present]

/-- The retry settings are read back with a bound on the attempts. -/
theorem ofJson?_fields (strict : Bool) (r : RetrySettings) :
    ofJson? strict (.object (fields (Settings.retryEntries r))) = some r.bounded := by
  obtain ⟨henabled, hattempts, hinitial, hmultiplier, hmax⟩ := lookup_retryEntries r
  unfold ofJson?
  rw [Json.record?_object (nodup_keys r)]
  dsimp only [Option.bind_eq_bind, Option.bind_some]
  simp only [lookup_fields]
  rw [henabled, hattempts, hinitial, hmultiplier, hmax,
    defaulted_present asUInt32?_nat fun n => toJson_nat_ne_null _,
    defaulted_present asUInt64?_word fun n => toJson_nat_ne_null _, Option.or_none]
  simp only [Option.map_some, Json.defaulted, asBool?_bool, asUInt64?_word, asFloat?_float]
  rfl

end RetrySettings

namespace WorkflowSettings

/-- The workflow settings are read back as they were. -/
theorem ofJson?_fields (strict : Bool) (w : WorkflowSettings) :
    ofJson? strict (.object (fields (Settings.workflowEntries w))) = some w := by
  have hkeys : ((fields (Settings.workflowEntries w)).map (·.1)).Nodup := by
    change ["max_concurrency", "readiness_recheck_interval_ms"].Nodup
    decide
  unfold ofJson?
  rw [Json.record?_object hkeys]
  dsimp only [Option.bind_eq_bind, Option.bind_some]
  simp only [lookup_fields]
  rw [show (Settings.workflowEntries w).lookup "max_concurrency" =
      some (Settings.word w.maxConcurrency) from rfl,
    show (Settings.workflowEntries w).lookup "readiness_recheck_interval_ms" =
      some (Settings.word w.readinessRecheckIntervalMs) from rfl]
  simp only [Option.map_some, Json.defaulted, asUInt64?_word]
  rfl

end WorkflowSettings

namespace Settings

/-- The settings that are read where those are written. -/
def bounded (s : Settings) : Settings := { s with retry := s.retry.bounded }

theorem keys_entries (s : Settings) : (s.entries.map (·.1)).Sublist
    ["name", "kind", "workers", "finalizer", "namespaces", "max_reconciliation_interval_ms",
      "generation_aware"] := by
  simp only [entries, List.map_append]
  exact ((((List.Sublist.refl ["name", "kind", "workers"]).append (keys_present _ _ _)).append
    (.refl ["namespaces"])).append (keys_present _ _ _)).append (.refl ["generation_aware"])

theorem nodup_keys (s : Settings) :
    (s.document.entries.map (·.1) ++ s.document.tables.map (·.1)).Nodup :=
  (s.keys_entries.append (.refl ["label_selector", "retry", "workflow"])).nodup (by decide)

theorem lookup_entries (s : Settings) :
    s.entries.lookup "name" = some (.text s.name) ∧
    s.entries.lookup "kind" = some (.text s.kind) ∧
    s.entries.lookup "workers" = some (word s.workers) ∧
    s.entries.lookup "finalizer" = s.finalizer.map .text ∧
    s.entries.lookup "namespaces" = some (.texts s.namespaces) ∧
    s.entries.lookup "max_reconciliation_interval_ms" = s.maxReconciliationIntervalMs.map word ∧
    s.entries.lookup "generation_aware" = some (.bool s.generationAware) := by
  refine ⟨rfl, rfl, rfl, ?_, ?_, ?_, ?_⟩ <;>
    simp [entries, List.lookup_append, List.lookup_cons, lookup_present]

theorem lookup_headers (s : Settings) :
    s.entries.lookup "label_selector" = none ∧ s.entries.lookup "retry" = none ∧
      s.entries.lookup "workflow" = none := by
  refine ⟨?_, ?_, ?_⟩ <;>
    simp [entries, List.lookup_append, List.lookup_cons, lookup_present]

theorem readStringMap?_labels (m : SortedMap String String) :
    Json.readStringMap? (.object (fields (m.entries.map fun e => (e.1, .text e.2)))) = some m := by
  have hfields : fields (m.entries.map fun e => (e.1, .text e.2)) =
      m.entries.map fun e => (e.1, .str e.2) := by
    rw [fields, List.map_map]
    refine List.map_congr_left fun e _ => ?_
    rw [Function.comp_apply, Toml.Entry.value, Toml.Value.toJson]
  rw [hfields, Json.readStringMap?_object]

/-- The table that a document states is read back field by field. -/
theorem ofJson?_document (strict : Bool) (s : Settings) :
    ofJson? strict s.document.table.toJson = some s.bounded := by
  have hkeys : ((fields s.document.entries ++ s.document.tables.map fun t =>
      (t.1, Json.object (fields t.2))).map (·.1)).Nodup := by
    rw [fields, List.map_append, List.map_map, List.map_map]
    exact s.nodup_keys
  obtain ⟨hname, hkind, hworkers, hfinalizer, hnamespaces, hinterval, haware⟩ := s.lookup_entries
  obtain ⟨hlabels, hretry, hworkflow⟩ := s.lookup_headers
  have htables : s.document.tables.map (fun t => (t.1, Json.object (fields t.2))) =
      [("label_selector", .object (fields (s.labelSelector.entries.map fun e => (e.1, .text e.2)))),
        ("retry", .object (fields (retryEntries s.retry))),
        ("workflow", .object (fields (workflowEntries s.workflow)))] := rfl
  rw [Toml.toJson_table]
  unfold ofJson?
  rw [Json.record?_object hkeys, htables, show s.document.entries = s.entries from rfl]
  dsimp only [Option.bind_eq_bind, Option.bind_some]
  simp only [List.lookup_append, lookup_fields]
  rw [hname, hkind, hworkers, hfinalizer, hnamespaces, hinterval, haware, hlabels, hretry, hworkflow]
  simp only [List.lookup_cons, List.lookup_nil, String.reduceBEq, Option.map_some, Option.map_none,
    Option.none_or, Option.or_none]
  rw [defaulted_present asString?_text toJson_text_ne_null,
    defaulted_present asUInt64?_word fun n => toJson_nat_ne_null _, Option.or_none, Option.or_none]
  simp only [Json.defaulted, asString?_text, asUInt64?_word, readStrings?_texts, asBool?_bool,
    readStringMap?_labels, RetrySettings.ofJson?_fields, WorkflowSettings.ofJson?_fields]
  rfl

theorem readable_present {k : String} {f : α → Toml.Entry} (h : ∀ a, (f a).Readable) (a : Option α) :
    ∀ e ∈ present k f a, e.2.Readable := by
  cases a with
  | none => exact nofun
  | some a => exact List.forall_mem_singleton.mpr (h a)

theorem readable_word (n : UInt64) : (word n).Readable := n.toNat_lt

theorem readable_entries (s : Settings) : ∀ e ∈ s.entries, e.2.Readable := by
  simp only [entries, List.forall_mem_append, List.forall_mem_cons]
  exact ⟨⟨⟨⟨⟨trivial, trivial, readable_word _, nofun⟩, readable_present (f := .text) (fun _ => trivial) _⟩,
    trivial, nofun⟩, readable_present readable_word _⟩, trivial, nofun⟩

theorem readable_retryEntries {r : RetrySettings} (hfinite : r.multiplier.isFinite = true) :
    ∀ e ∈ retryEntries r, e.2.Readable := by
  simp only [retryEntries, List.forall_mem_append, List.forall_mem_cons]
  exact ⟨⟨⟨⟨trivial, nofun⟩, readable_present (fun n => Nat.lt_trans n.toNat_lt (by decide)) _⟩,
    readable_word _, FloatParts.finite_of_isFinite hfinite, nofun⟩, readable_present readable_word _⟩

variable {s : Settings}

/-- All keys of a document are distinct, and all of its values can be read. -/
theorem readable_document (hfinite : s.retry.multiplier.isFinite = true) : s.document.Readable where
  keys := s.nodup_keys
  entries := s.readable_entries
  tables := by
    simp only [document, List.forall_mem_cons]
    refine ⟨⟨?_, ?_⟩, ⟨(RetrySettings.keys_retryEntries _).nodup (by decide),
      readable_retryEntries hfinite⟩, ⟨?_, ?_⟩, nofun⟩
    · rw [List.map_map]
      exact s.labelSelector.distinct_keys
    · simp only [List.forall_mem_map]
      exact fun _ _ => trivial
    · change ["max_concurrency", "readiness_recheck_interval_ms"].Nodup
      decide
    · simp only [workflowEntries, List.forall_mem_cons]
      exact ⟨readable_word _, readable_word _, nofun⟩

/-- A printed document is read, with whatever empty lines after it. -/
theorem parseToml_document (hfinite : s.retry.multiplier.isFinite = true) (n : ℕ) :
    parseToml (s.document.text ++ String.ofList (List.replicate n '\n')) = .ok s.bounded := by
  rw [parseToml, Toml.parse?_text (readable_document hfinite), Option.bind_some, ofJson?_document]

theorem toToml?_eq (hfits : s.printable = true) : s.toToml? = some s.document.text := if_pos hfits

theorem parseToml_text (hfinite : s.retry.multiplier.isFinite = true) :
    parseToml s.document.text = .ok s.bounded := by
  have h := parseToml_document hfinite 0
  rwa [Toml.append_no_breaks] at h

theorem bounded_eq_self_iff : s.bounded = s ↔ s.retry.maxAttempts ≠ none := by
  constructor
  · intro h hnone
    have hattempts := congrArg (fun s => s.retry.maxAttempts) h
    simp only [bounded, RetrySettings.bounded, hnone] at hattempts
    cases hattempts
  · intro h
    obtain ⟨n, hn⟩ := Option.ne_none_iff_exists'.mp h
    rw [bounded, RetrySettings.bounded, hn, Option.some_or, ← hn]

/-- Settings survive being printed and read, in every field, just where the attempts are bounded:
where they are not, the default bound is read. -/
theorem survives_printing (hfits : s.printable = true)
    (hfinite : s.retry.multiplier.isFinite = true) :
    ∃ text, s.toToml? = some text ∧
      parseToml text = .ok { s with
        retry.maxAttempts := s.retry.maxAttempts.or ({} : RetrySettings).maxAttempts } ∧
      (parseToml text = .ok s ↔ s.retry.maxAttempts ≠ none) := by
  refine ⟨s.document.text, toToml?_eq hfits, parseToml_text hfinite, ?_⟩
  rw [parseToml_text hfinite, Except.ok.injEq, bounded_eq_self_iff]

/-- Settings for a part of a cluster. -/
def regional : Settings where
  kind := "WebApp"
  finalizer := some "webapps.steward.io/cleanup"
  namespaces := ["north", "south"]
  labelSelector := .ofList [("tier", "front end")]
  retry := { maxAttempts := some 3, multiplier := 2.5 }

/-- With a bound on the attempts, these settings come back as they were. -/
theorem survives_printing_regional :
    regional.printable = true ∧ regional.retry.multiplier.isFinite = true ∧
      ∃ text, regional.toToml? = some text ∧ parseToml text = .ok regional := by
  have hfits : regional.printable = true := by decide
  have hfinite : regional.retry.multiplier.isFinite = true := by decide
  obtain ⟨text, htext, -, h⟩ := survives_printing hfits hfinite
  exact ⟨hfits, hfinite, text, htext, h.mpr nofun⟩

/-- Settings that never give up. -/
def unbounded : Settings where
  kind := "WebApp"
  retry := { maxAttempts := none }

/-- Without a bound on the attempts, they come back with one. -/
theorem unbounded_attempts_lost :
    unbounded.printable = true ∧ unbounded.retry.multiplier.isFinite = true ∧
      ∃ text, unbounded.toToml? = some text ∧ parseToml text ≠ .ok unbounded := by
  have hfinite : unbounded.retry.multiplier.isFinite = true := by decide
  refine ⟨by decide, hfinite, _, toToml?_eq (by decide), ?_⟩
  rw [parseToml_text hfinite]
  exact fun h => bounded_eq_self_iff.mp (Except.ok.inj h) rfl

end Settings
end Reconciliation
