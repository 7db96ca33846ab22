import KestrelSdk.Encoding.Strip
import KestrelSdk.Encoding.Url
import KestrelSdk.Order.Mapping

/-! The identity that traces carry: defaults of the process, the resource and the spans. -/

namespace KestrelSdk.Tracing

open Json (Str Value str)
open KestrelSdk.Order (Mapping)
open Encoding (strip)
open Encoding.Url (partition)

def KESTREL_REPO : Str := str "kestrel.repo"
def KESTREL_ORCHESTRATOR : Str := str "kestrel.orchestrator"
def KESTREL_RUN_ID : Str := str "kestrel.run_id"
def KESTREL_STAGE : Str := str "kestrel.stage"
def KESTREL_AGENT_NAME : Str := str "kestrel.agent_name"
def OPENINFERENCE_PROJECT_NAME : Str := str "openinference.project.name"
def OI_KIND_KEY : Str := str "openinference.span.kind"
def REPO_ENV : Str := str "KESTREL_REPO"
def RUN_ID_ENV : Str := str "KESTREL_RUN_ID"
def ORCHESTRATOR_ENV : Str := str "KESTREL_ORCHESTRATOR"
def OTEL_PROJECT_ENV : Str := str "KESTREL_OTEL_PROJECT"
def TRACES_ENDPOINT_ENV : Str := str "OTEL_EXPORTER_OTLP_TRACES_ENDPOINT"
def ENDPOINT_ENV : Str := str "OTEL_EXPORTER_OTLP_ENDPOINT"

/-- `os.environ.get`. -/
abbrev Environ := Str → Option Str

/-- `value or None`. -/
def orNone : Option Str → Option Str
  | some [] => none
  | value => value

/-- `_repo_from_run_id`. -/
def repoFromRunId (run_id : Option Str) : Option Str :=
  match orNone run_id with
  | none => none
  | some s => orNone (some (strip (partition 35 s).1))

/-- `_resolve_endpoint`. -/
def resolveEndpoint (environ : Environ) (endpoint : Option Str) : Option Str :=
  (orNone endpoint).or ((orNone (environ TRACES_ENDPOINT_ENV)).or (orNone (environ ENDPOINT_ENV)))

/-- `_resolve_project_name`. -/
def resolveProjectName (environ : Environ) (project_name : Option Str) : Option Str :=
  (orNone project_name).or (orNone (environ OTEL_PROJECT_ENV))

/-- The defaults of a tracer; none is a key that is missing, or `None`. -/
structure Defaults where
  repo : Option Str
  run_id : Option Str
  orchestrator : Option Str
  deriving DecidableEq

/-- `_env_defaults`. -/
def envDefaults (environ : Environ) : Defaults where
  repo := (orNone (environ REPO_ENV)).or (repoFromRunId (environ RUN_ID_ENV))
  run_id := orNone (environ RUN_ID_ENV)
  orchestrator := orNone (environ ORCHESTRATOR_ENV)

/-- The `resource_attributes`; none among the values is `None`. -/
abbrev ResourceAttributes := Mapping Str (Option Str)

/-- A default and the keys that override it, the last of them with precedence. -/
def overridden (attributes : ResourceAttributes) (keys : List Str) (default : Option Str) :
    Option Str :=
  keys.foldl (fun value src => (attributes.get src).getD value) default

/-- The defaults in `configure`: those of the environment, overridden by the resource attributes. -/
def configureDefaults (environ : Environ) (attributes : ResourceAttributes) : Defaults :=
  let defaults := envDefaults environ
  if attributes.entries = [] then defaults
  else
    let repo := overridden attributes [str "repo", KESTREL_REPO] defaults.repo
    let run_id := overridden attributes [str "run_id", KESTREL_RUN_ID] defaults.run_id
    let orchestrator :=
      overridden attributes [str "orchestrator", KESTREL_ORCHESTRATOR] defaults.orchestrator
    { repo := if orNone repo = none then (repoFromRunId run_id).or repo else repo
      run_id := run_id
      orchestrator := orchestrator }

/-- `attrs[key] = value`, where there is a value that is not empty. -/
def setSome {α : Type} (text : Str → α) (key : Str) (value : Option Str) (attrs : Mapping Str α) :
    Mapping Str α :=
  match orNone value with
  | none => attrs
  | some s => attrs.set key (text s)

def identityKeys : List Str :=
  [str "repo", str "run_id", str "orchestrator", KESTREL_REPO, KESTREL_RUN_ID, KESTREL_ORCHESTRATOR]

/-- The attributes beside the identity, as they are. -/
def passThrough (attrs : Mapping Str Str) (e : Str × Option Str) : Mapping Str Str :=
  if e.1 ∈ identityKeys then attrs
  else
    match e.2 with
    | none => attrs
    | some value => attrs.set e.1 value

/-- `_resource_attrs`. -/
def resourceAttrs (environ : Environ) (defaults : Defaults) (service_name : Str)
    (attributes : ResourceAttributes) (project_name : Option Str) : Mapping Str Str :=
  let attrs := Mapping.empty.set (str "service.name") service_name
  let attrs := setSome id KESTREL_REPO defaults.repo attrs
  let attrs := setSome id KESTREL_ORCHESTRATOR defaults.orchestrator attrs
  let attrs := setSome id KESTREL_RUN_ID defaults.run_id attrs
  let attrs := attributes.entries.foldl passThrough attrs
  setSome id OPENINFERENCE_PROJECT_NAME (resolveProjectName environ project_name) attrs

/-- A tracer, with the attributes of its resource where it exports. -/
structure KestrelTracer where
  resource : Option (Mapping Str Str)
  defaults : Defaults

/-- The arguments of `configure`. -/
structure ConfigureArgs where
  endpoint : Option Str
  attributes : ResourceAttributes
  service_name : Str
  project_name : Option Str

/-- `configure`. `setUp` says whether OpenTelemetry is installed and its provider and exporter come
up with a resource. -/
def configure (setUp : Mapping Str Str → Bool) (environ : Environ) (a : ConfigureArgs) :
    KestrelTracer :=
  let defaults := configureDefaults environ a.attributes
  match resolveEndpoint environ a.endpoint with
  | none => ⟨none, defaults⟩
  | some _ =>
    let resource := resourceAttrs environ defaults a.service_name a.attributes a.project_name
    if setUp resource then ⟨some resource, defaults⟩ else ⟨none, defaults⟩

/-- The arguments of a span that its attributes depend on. -/
structure SpanArgs where
  kind : Str
  agent_name : Option Str
  stage : Option Str
  repo : Option Str
  run_id : Option Str
  orchestrator : Option Str
  extra : Mapping Str Value
  attributes : Mapping Str Value

/-- `_kestrel_attrs`. -/
def kestrelAttrs (defaults : Defaults) (a : SpanArgs) : Mapping Str Value :=
  let run_id := a.run_id.or defaults.run_id
  let repo := a.repo.or defaults.repo
  let repo := if orNone repo = none then repoFromRunId run_id else repo
  let orchestrator := a.orchestrator.or defaults.orchestrator
  let attrs := setSome .str KESTREL_REPO repo Mapping.empty
  let attrs := setSome .str KESTREL_ORCHESTRATOR orchestrator attrs
  let attrs := setSome .str KESTREL_RUN_ID run_id attrs
  let attrs := setSome .str KESTREL_STAGE a.stage attrs
  setSome .str KESTREL_AGENT_NAME a.agent_name attrs

/-- One entry of `{k: v for k, v in more.items() if v is not None}`. -/
def setGiven (attrs : Mapping Str Value) (e : Str × Value) : Mapping Str Value :=
  match e.2 with
  | .none => attrs
  | v => attrs.set e.1 v

/-- `attrs.update(more)`, without what is `None`. -/
def updateGiven (attrs more : Mapping Str Value) : Mapping Str Value :=
  more.entries.foldl setGiven attrs

/-- The attributes of a span in `_span` and `_start_span`. -/
def KestrelTracer.spanAttrs (t : KestrelTracer) (a : SpanArgs) : Mapping Str Value :=
  let attrs := Mapping.empty.set OI_KIND_KEY (.str a.kind)
  let attrs := (kestrelAttrs t.defaults a).entries.foldl (fun m e => m.set e.1 e.2) attrs
  updateGiven (updateGiven attrs a.extra) a.attributes

/-! What is read of the attributes. -/

theorem orNone_idem (v : Option Str) : orNone (orNone v) = orNone v := by
  match v with
  | none => rfl
  | some [] => rfl
  | some (_ :: _) => rfl

theorem orNone_repoFromRunId (run_id : Option Str) :
    orNone (repoFromRunId run_id) = repoFromRunId run_id := by
  unfold repoFromRunId
  split
  · rfl
  · exact orNone_idem _

theorem repoFromRunId_orNone (run_id : Option Str) :
    repoFromRunId (orNone run_id) = repoFromRunId run_id := by
  rw [repoFromRunId, orNone_idem, repoFromRunId]

theorem get_setSome {α : Type} (text : Str → α) (key k : Str) (value : Option Str)
    (attrs : Mapping Str α) : (setSome text key value attrs).get k =
      if k = key then ((orNone value).map text).or (attrs.get k) else attrs.get k := by
  unfold setSome
  split
  · rename_i h
    simp [h]
  · rename_i s h
    rw [Mapping.get_set, h, Option.map_some, Option.some_or]

/-- What a value that is not `None` gives. -/
def given : Option Value → Option Value
  | some .none => none
  | v => v

theorem get_setGiven (m : Mapping Str Value) (e : Str × Value) (k : Str) :
    (setGiven m e).get k = if k = e.1 then (given (some e.2)).or (m.get k) else m.get k := by
  unfold setGiven given
  cases e.2 with
  | none => simp
  | bool b => exact Mapping.get_set ..
  | int i => exact Mapping.get_set ..
  | float x => exact Mapping.get_set ..
  | str s => exact Mapping.get_set ..
  | list l => exact Mapping.get_set ..
  | dict d => exact Mapping.get_set ..
  | object n => exact Mapping.get_set ..

/-- A loop over the entries of a mapping reads the entry of each key once. -/
theorem get_foldl {α β : Type} {step : Mapping Str β → Str × α → Mapping Str β}
    (value : α → Option β)
    (hstep : ∀ m e k, (step m e).get k = if k = e.1 then (value e.2).or (m.get k) else m.get k)
    (more : Mapping Str α) (m : Mapping Str β) (k : Str) :
    (more.entries.foldl step m).get k = ((more.get k).bind value).or (m.get k) := by
  obtain ⟨es, hnd⟩ := more
  rw [Mapping.get_eq_lookup ⟨es, hnd⟩]
  dsimp only
  induction es generalizing m with
  | nil => rfl
  | cons e es ih =>
    obtain ⟨l, v⟩ := e
    rw [List.map_cons, List.nodup_cons] at hnd
    rw [List.foldl_cons, ih (step m (l, v)) hnd.2, hstep, List.lookup_cons]
    by_cases h : k = l
    · subst h
      have hnone : es.lookup k = none := by
        apply List.lookup_eq_none_iff.2
        intro e he
        apply bne_iff_ne.2
        rintro rfl
        exact hnd.1 (List.mem_map.2 ⟨e, he, rfl⟩)
      simp [hnone]
    · have hb : (k == l) = false := by simpa using h
      simp [hb, h]

theorem get_updateGiven (attrs more : Mapping Str Value) (k : Str) :
    (updateGiven attrs more).get k = (given (more.get k)).or (attrs.get k) := by
  rw [updateGiven, get_foldl (fun v => given (some v)) get_setGiven]
  cases more.get k with
  | none => rfl
  | some v => rfl

theorem get_spanAttrs (t : KestrelTracer) (a : SpanArgs) {k : Str} (hk : k ≠ OI_KIND_KEY) :
    (t.spanAttrs a).get k = (given (a.attributes.get k)).or
      ((given (a.extra.get k)).or ((kestrelAttrs t.defaults a).get k)) := by
  have hset : ∀ (m : Mapping Str Value) (e : Str × Value) (k : Str), (m.set e.1 e.2).get k =
      if k = e.1 then (some e.2).or (m.get k) else m.get k := fun m e k => Mapping.get_set ..
  rw [KestrelTracer.spanAttrs, get_updateGiven, get_updateGiven,
    get_foldl some hset, Mapping.get_set, if_neg hk, Option.bind_fun_some]
  congr 2
  exact Option.or_none

theorem get_kestrelAttrs_run_id (defaults : Defaults) (a : SpanArgs) :
    (kestrelAttrs defaults a).get KESTREL_RUN_ID =
      (orNone (a.run_id.or defaults.run_id)).map .str := by
  have h1 : KESTREL_RUN_ID ≠ KESTREL_AGENT_NAME := by decide
  have h2 : KESTREL_RUN_ID ≠ KESTREL_STAGE := by decide
  have h3 : KESTREL_RUN_ID ≠ KESTREL_ORCHESTRATOR := by decide
  have h4 : KESTREL_RUN_ID ≠ KESTREL_REPO := by decide
  simp only [kestrelAttrs, get_setSome, h1, h2, h3, h4, if_true, if_false]
  exact Option.or_none

theorem get_kestrelAttrs_repo (defaults : Defaults) (a : SpanArgs) (ha : a.repo = none) :
    (kestrelAttrs defaults a).get KESTREL_REPO =
      ((orNone defaults.repo).or (repoFromRunId (a.run_id.or defaults.run_id))).map .str := by
  have h1 : KESTREL_REPO ≠ KESTREL_AGENT_NAME := by decide
  have h2 : KESTREL_REPO ≠ KESTREL_STAGE := by decide
  have h3 : KESTREL_REPO ≠ KESTREL_ORCHESTRATOR := by decide
  have h4 : KESTREL_REPO ≠ KESTREL_RUN_ID := by decide
  simp only [kestrelAttrs, get_setSome, h1, h2, h3, h4, if_true, if_false, ha, Option.none_or]
  rw [show (Mapping.empty : Mapping Str Value).get KESTREL_REPO = none from rfl, Option.or_none]
  congr 1
  cases hrepo : orNone defaults.repo with
  | none => rw [if_pos rfl, orNone_repoFromRunId, Option.none_or]
  | some s => rw [if_neg (by simp), hrepo, Option.some_or]

theorem get_passThrough (es : List (Str × Option Str)) (m : Mapping Str Str) {k : Str}
    (hk : k ∈ identityKeys) : (es.foldl passThrough m).get k = m.get k := by
  induction es generalizing m with
  | nil => rfl
  | cons e es ih =>
    rw [List.foldl_cons, ih]
    unfold passThrough
    split
    · rfl
    · rename_i hne
      split
      · rfl
      · rw [Mapping.get_set, if_neg]
        rintro rfl
        exact hne hk

theorem get_resourceAttrs (environ : Environ) (defaults : Defaults) (service_name : Str)
    (attributes : ResourceAttributes) (project_name : Option Str) :
    let attrs := resourceAttrs environ defaults service_name attributes project_name
    attrs.get KESTREL_REPO = orNone defaults.repo ∧
      attrs.get KESTREL_RUN_ID = orNone defaults.run_id := by
  have hempty : ∀ k : Str, (Mapping.empty : Mapping Str Str).get k = none := fun k => rfl
  have hrepo : KESTREL_REPO ≠ OPENINFERENCE_PROJECT_NAME ∧ KESTREL_REPO ≠ KESTREL_RUN_ID ∧
      KESTREL_REPO ≠ KESTREL_ORCHESTRATOR ∧ KESTREL_REPO ≠ str "service.name" := by decide
  have hrun : KESTREL_RUN_ID ≠ OPENINFERENCE_PROJECT_NAME ∧ KESTREL_RUN_ID ≠ KESTREL_REPO ∧
      KESTREL_RUN_ID ≠ KESTREL_ORCHESTRATOR ∧ KESTREL_RUN_ID ≠ str "service.name" := by decide
  constructor
  · rw [resourceAttrs, get_setSome, if_neg hrepo.1, get_passThrough _ _ (by decide)]
    simp only [get_setSome, Mapping.get_set, hrepo, if_true, if_false, hempty]
    simp
  · rw [resourceAttrs, get_setSome, if_neg hrun.1, get_passThrough _ _ (by decide)]
    simp only [get_setSome, Mapping.get_set, hrun, if_true, if_false, hempty]
    simp

/-! Whose repository is shown. -/

/-- The run id that the environment and the resource attributes leave as the default. -/
def effectiveRunId (environ : Environ) (attributes : ResourceAttributes) : Option Str :=
  overridden attributes [str "run_id", KESTREL_RUN_ID] (orNone (environ RUN_ID_ENV))

/-- The first repository that is mirrored: out of the environment, else out of the default. -/
def firstMirror (environ : Environ) (attributes : ResourceAttributes) : Option Str :=
  (repoFromRunId (environ RUN_ID_ENV)).or (repoFromRunId (effectiveRunId environ attributes))

/-- No repository is given to the process. -/
structure NoRepo (environ : Environ) (attributes : ResourceAttributes) : Prop where
  environ : orNone (environ REPO_ENV) = none
  shorthand : attributes.get (str "repo") = none
  canonical : attributes.get KESTREL_REPO = none

/-- No repository is given to a span. -/
structure SpanArgs.NoRepo (a : SpanArgs) : Prop where
  repo : a.repo = none
  extra : given (a.extra.get KESTREL_REPO) = none
  attributes : given (a.attributes.get KESTREL_REPO) = none

/-- The run id of a span, whose attributes override its argument. -/
def SpanArgs.effectiveRunId (a : SpanArgs) (default : Option Str) : Option Value :=
  (given (a.attributes.get KESTREL_RUN_ID)).or
    ((given (a.extra.get KESTREL_RUN_ID)).or ((orNone (a.run_id.or default)).map .str))

/-- The repository part of an attribute. -/
def repositoryOf : Option Value → Option Str
  | some (.str s) => repoFromRunId (some s)
  | _ => none

theorem configureDefaults_run_id (environ : Environ) (attributes : ResourceAttributes) :
    (configureDefaults environ attributes).run_id = effectiveRunId environ attributes := by
  unfold configureDefaults
  dsimp only
  split
  · rename_i h
    have hget : ∀ k, attributes.get k = none := by
      intro k
      rw [Mapping.get, h]
      rfl
    simp only [effectiveRunId, overridden, List.foldl_cons, List.foldl_nil, hget, Option.getD_none]
    rfl
  · rfl

/-- A mirrored default stays, whatever the run id is overridden by. -/
theorem configureDefaults_repo {environ : Environ} {attributes : ResourceAttributes}
    (h : NoRepo environ attributes) :
    (configureDefaults environ attributes).repo = firstMirror environ attributes := by
  have henv : (envDefaults environ).repo = repoFromRunId (environ RUN_ID_ENV) := by
    rw [envDefaults, h.environ]
    rfl
  have hrun := configureDefaults_run_id environ attributes
  unfold configureDefaults at hrun ⊢
  dsimp only at hrun ⊢
  split
  · rename_i hnil
    rw [if_pos hnil] at hrun
    rw [henv, firstMirror, ← hrun]
    change _ = (repoFromRunId (environ RUN_ID_ENV)).or (repoFromRunId (orNone (environ RUN_ID_ENV)))
    rw [repoFromRunId_orNone, Option.or_self]
  · rename_i hcons
    rw [if_neg hcons] at hrun
    simp only [overridden, List.foldl_cons, List.foldl_nil, h.shorthand, h.canonical,
      Option.getD_none, henv, orNone_repoFromRunId] at hrun ⊢
    rw [hrun, firstMirror]
    cases repoFromRunId (environ RUN_ID_ENV) with
    | none => simp
    | some s => rfl

theorem orNone_firstMirror (environ : Environ) (attributes : ResourceAttributes) :
    orNone (firstMirror environ attributes) = firstMirror environ attributes := by
  have h := orNone_repoFromRunId (environ RUN_ID_ENV)
  unfold firstMirror
  cases hrepo : repoFromRunId (environ RUN_ID_ENV) with
  | none => exact orNone_repoFromRunId _
  | some s =>
    rw [hrepo] at h
    exact h

theorem configure_defaults (setUp : Mapping Str Str → Bool) (environ : Environ) (c : ConfigureArgs) :
    (configure setUp environ c).defaults = configureDefaults environ c.attributes ∧
      ∀ resource ∈ (configure setUp environ c).resource, resource = resourceAttrs environ
        (configureDefaults environ c.attributes) c.service_name c.attributes c.project_name := by
  unfold configure
  split
  · exact ⟨rfl, by simp⟩
  · dsimp only
    split
    · refine ⟨rfl, ?_⟩
      intro resource hresource
      exact (Option.some.inj hresource).symm
    · exact ⟨rfl, by simp⟩

/-- Where no repository is given, the resource and the spans show the one of their own run id
exactly when the repository mirrored first is that one. -/
theorem trace_identity_iff (setUp : Mapping Str Str → Bool) (environ : Environ) (c : ConfigureArgs)
    (h : NoRepo environ c.attributes) :
    (∀ resource ∈ (configure setUp environ c).resource,
      (resource.get KESTREL_REPO = repoFromRunId (resource.get KESTREL_RUN_ID) ↔
        firstMirror environ c.attributes =
          repoFromRunId (effectiveRunId environ c.attributes))) ∧
    (∀ a : SpanArgs, a.NoRepo →
      let attrs := (configure setUp environ c).spanAttrs a
      (attrs.get KESTREL_REPO = (repositoryOf (attrs.get KESTREL_RUN_ID)).map .str ↔
        (firstMirror environ c.attributes).or
            (repoFromRunId (a.run_id.or (effectiveRunId environ c.attributes))) =
          repositoryOf (a.effectiveRunId (effectiveRunId environ c.attributes)))) := by
  obtain ⟨hdefaults, hresource⟩ := configure_defaults setUp environ c
  have hrepo := configureDefaults_repo h
  have hrun := configureDefaults_run_id environ c.attributes
  constructor
  · intro resource hr
    obtain ⟨h1, h2⟩ := get_resourceAttrs environ (configureDefaults environ c.attributes)
      c.service_name c.attributes c.project_name
    rw [hresource resource hr, h1, h2, hrepo, hrun, orNone_firstMirror, repoFromRunId_orNone]
  · intro a ha
    dsimp only
    rw [get_spanAttrs _ a (by decide), get_spanAttrs _ a (by decide), ha.attributes, ha.extra,
      hdefaults, get_kestrelAttrs_repo _ a ha.repo, get_kestrelAttrs_run_id, hrepo, hrun,
      orNone_firstMirror, Option.none_or, Option.none_or]
    exact (Option.map_injective fun _ _ => Value.str.inj).eq_iff

/-- `KESTREL_RUN_ID=a/b#1`. -/
def oneRun : Environ := fun name => if name = RUN_ID_ENV then some (str "a/b#1") else none

/-- `configure(endpoint="e", resource_attributes={"run_id": "c/d#2"})`. -/
def otherRun : ConfigureArgs where
  endpoint := some (str "e")
  attributes := Mapping.empty.set (str "run_id") (some (str "c/d#2"))
  service_name := str "kestrel"
  project_name := none

theorem oneRun_noRepo : NoRepo oneRun otherRun.attributes := ⟨by decide, by decide, by decide⟩

theorem trace_identity_sample :
    ∃ resource, (configure (fun _ => true) oneRun otherRun).resource = some resource ∧
      (resource.get KESTREL_REPO = repoFromRunId (resource.get KESTREL_RUN_ID) ↔
        firstMirror oneRun otherRun.attributes =
          repoFromRunId (effectiveRunId oneRun otherRun.attributes)) :=
  ⟨_, rfl, (trace_identity_iff (fun _ => true) oneRun otherRun oneRun_noRepo).1 _ rfl⟩

/-- A repository that was mirrored out of the environment survives another run id. -/
theorem mirrored_repo_survives : NoRepo oneRun otherRun.attributes ∧
    ∃ resource, (configure (fun _ => true) oneRun otherRun).resource = some resource ∧
      resource.get KESTREL_RUN_ID = some (str "c/d#2") ∧
      repoFromRunId (resource.get KESTREL_RUN_ID) = some (str "c/d") ∧
      resource.get KESTREL_REPO = some (str "a/b") :=
  ⟨oneRun_noRepo, _, rfl, by decide, by decide, by decide⟩

end KestrelSdk.Tracing
