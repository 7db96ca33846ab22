import KestrelSdk.Json.Value
import Mathlib.Data.List.Lex
import Mathlib.Data.Prod.Lex

namespace KestrelSdk.Features

open Json (Str)

def isAlnum (c : Nat) : Bool :=
  (65 ≤ c && c ≤ 90) || (97 ≤ c && c ≤ 122) || (48 ≤ c && c ≤ 57)

/-- `_STABLE_TOKEN.fullmatch`. -/
def isStableToken (s : Str) : Bool :=
  s.length ≤ 256 && (s.head?.any isAlnum) && (s.getLast?.any isAlnum) &&
    s.all fun c => isAlnum c || c == 46 || c == 95 || c == 58 || c == 64 || c == 45

inductive SetupStepClassification where
  | default
  | optional
  deriving DecidableEq

/-- A setup step that passed `__post_init__`. -/
structure SetupStepRegistration where
  owner : Str
  name : Str
  classification : SetupStepClassification
  order : Int
  before : List Str
  after : List Str
  owner_token : isStableToken owner = true
  name_token : isStableToken name = true
  before_nodup : before.Nodup
  after_nodup : after.Nodup
  relative : ∀ n ∈ before ++ after, isStableToken n = true ∧ n ≠ name
  apart : ∀ n ∈ before, n ∉ after
  deriving DecidableEq

/-- The `classification` argument. -/
inductive ClassificationArg where
  | member (c : SetupStepClassification)
  | text (s : Str)
  | other

/-- The arguments of the constructor. `order` is `none` where it is no int, `before` and `after`
where they are no collection. -/
structure SetupStepArgs where
  owner : Str
  name : Str
  callable : Bool
  classification : ClassificationArg
  order : Option Int
  before : Option (List Str)
  after : Option (List Str)

/-- The side a step is ordered on. -/
inductive Side where
  | before
  | after
  deriving DecidableEq

inductive SetupStepError where
  | owner
  | name
  | notCallable
  | classificationText
  | classificationType
  | order
  | notIterable (s : Side)
  | duplicates (s : Side)
  | orderingName
  | orderItself
  | bothSides
  deriving DecidableEq

/-- `SetupStepClassification(classification)`. -/
def ClassificationArg.resolve : ClassificationArg → Except SetupStepError SetupStepClassification
  | .member c => .ok c
  | .text s =>
    if s = Json.str "default" then .ok .default
    else if s = Json.str "optional" then .ok .optional
    else .error .classificationText
  | .other => .error .classificationType

/-- `unique_tuple`. -/
def uniqueTuple (s : Side) : Option (List Str) → Except SetupStepError {l : List Str // l.Nodup}
  | none => .error (.notIterable s)
  | some l => if h : l.Nodup then .ok ⟨l, h⟩ else .error (.duplicates s)

/-- The loop over the names a step is ordered against. -/
def checkRelatives (name : Str) :
    (l : List Str) → Except SetupStepError {_u : Unit // ∀ n ∈ l, isStableToken n = true ∧ n ≠ name}
  | [] => .ok ⟨(), by simp⟩
  | n :: l =>
    if ht : isStableToken n = true then
      if hn : n ≠ name then
        match checkRelatives name l with
        | .ok ⟨_, h⟩ => .ok ⟨(), by simpa using ⟨⟨ht, hn⟩, h⟩⟩
        | .error e => .error e
      else .error .orderItself
    else .error .orderingName

namespace SetupStepRegistration

/-- `__post_init__`. -/
def new (a : SetupStepArgs) : Except SetupStepError SetupStepRegistration :=
  if ho : isStableToken a.owner = true then
    if hn : isStableToken a.name = true then
      if !a.callable then .error .notCallable
      else do
        let classification ← a.classification.resolve
        match a.order with
        | none => .error .order
        | some order =>
          let before ← uniqueTuple .before a.before
          let after ← uniqueTuple .after a.after
          let relative ← checkRelatives a.name (before.val ++ after.val)
          if h : ∀ n ∈ before.val, n ∉ after.val then
            .ok ⟨a.owner, a.name, classification, order, before.val, after.val, ho, hn,
              before.property, after.property, relative.property, h⟩
          else .error .bothSides
    else .error .name
  else .error .owner

/-- What breaks ties between eligible steps. -/
def key (r : SetupStepRegistration) : Int ×ₗ Str := toLex (r.order, r.name)

end SetupStepRegistration

inductive ContributionContractError where
  | duplicate (name : Str)
  | unknown (source reference : Str)
  | cycle
  deriving DecidableEq

/-- `by_name`. -/
abbrev Steps := List SetupStepRegistration

/-- `by_name.get(name)`. -/
def Steps.byName (steps : Steps) (name : Str) : Option SetupStepRegistration :=
  steps.find? fun r => r.name = name

/-- The loop that fills `by_name`. -/
def checkNames (seen : List Str) : Steps → Except ContributionContractError Unit
  | [] => .ok ()
  | r :: rs => if r.name ∈ seen then .error (.duplicate r.name) else checkNames (r.name :: seen) rs

/-- `_require_setup_reference`. -/
def requireSetupReference (steps : Steps) (reference source : Str) :
    Except ContributionContractError Unit :=
  if reference ∈ steps.map (·.name) then .ok () else .error (.unknown source reference)

/-- `outgoing` and `indegree`. -/
structure Constraints where
  outgoing : Str → List Str
  indegree : Str → Int

namespace Constraints

def empty : Constraints := ⟨fun _ => [], fun _ => 0⟩

/-- One edge, counted once. -/
def add (g : Constraints) (source target : Str) : Constraints :=
  if target ∈ g.outgoing source then g
  else
    { outgoing := Function.update g.outgoing source (g.outgoing source ++ [target])
      indegree := Function.update g.indegree target (g.indegree target + 1) }

/-- The loop over the names that a step is ordered against; `edge` gives the source and the target
of each. -/
def addRelatives (steps : Steps) (name : Str) (edge : Str → Str × Str) (g : Constraints) :
    List Str → Except ContributionContractError Constraints
  | [] => .ok g
  | relative :: rest => do
    requireSetupReference steps relative name
    addRelatives steps name edge (g.add (edge relative).1 (edge relative).2) rest

/-- The loop over `registration.before`. -/
def addBefore (steps : Steps) (g : Constraints) (r : SetupStepRegistration) :
    Except ContributionContractError Constraints :=
  addRelatives steps r.name (fun target => (r.name, target)) g r.before

/-- The loop over `registration.after`. -/
def addAfter (steps : Steps) (g : Constraints) (r : SetupStepRegistration) :
    Except ContributionContractError Constraints :=
  addRelatives steps r.name (fun dependency => (dependency, r.name)) g r.after

/-- The loop over the steps. -/
def addSteps (steps : Steps) (g : Constraints) :
    List SetupStepRegistration → Except ContributionContractError Constraints
  | [] => .ok g
  | r :: rs => do
    let g ← addBefore steps g r
    let g ← addAfter steps g r
    addSteps steps g rs

end Constraints

/-- `heapq.heappop`: the least entry, and the rest. -/
def heappop (ready : List (Int ×ₗ Str)) : Option ((Int ×ₗ Str) × List (Int ×ₗ Str)) :=
  ready.min?.map fun m => (m, ready.erase m)

/-- The variables of the ordering loop. -/
structure Sorting where
  indegree : Str → Int
  ready : List (Int ×ₗ Str)
  ordered : List SetupStepRegistration

namespace Sorting

/-- The loop over the successors of a placed step. -/
def release (steps : Steps) (s : Sorting) : List Str → Sorting
  | [] => s
  | successor :: rest =>
    let s := { s with indegree := Function.update s.indegree successor (s.indegree successor - 1) }
    if s.indegree successor = 0 then
      release steps { s with ready := s.ready ++ ((steps.byName successor).map (·.key)).toList } rest
    else release steps s rest

/-- The iteration orders of the sets `outgoing[name]`. -/
structure SetOrder where
  iterate : Str → List Str → List Str
  perm : ∀ name l, (iterate name l).Perm l

/-- The `while` loop with at most `fuel` rounds; `none` when these do not empty `ready`. -/
def run (sets : SetOrder) (steps : Steps) (outgoing : Str → List Str) :
    Nat → Sorting → Option Sorting
  | fuel, s =>
    match heappop s.ready with
    | none => some s
    | some (m, ready) =>
      match fuel with
      | 0 => none
      | fuel + 1 =>
        let name := (ofLex m).2
        let s := { s with ready := ready, ordered := s.ordered ++ (steps.byName name).toList }
        run sets steps outgoing fuel (s.release steps (sets.iterate name (outgoing name)))

end Sorting

/-- `order_setup_step_registrations`; `none` when the loop needs more rounds than there are steps. -/
def orderSetupStepRegistrations (sets : Sorting.SetOrder) (steps : Steps) :
    Option (Except ContributionContractError (List SetupStepRegistration)) :=
  match checkNames [] steps with
  | .error e => some (.error e)
  | .ok () =>
    match Constraints.addSteps steps .empty steps with
    | .error e => some (.error e)
    | .ok g =>
      let ready := (steps.filter fun r => g.indegree r.name = 0).map (·.key)
      match Sorting.run sets steps g.outgoing steps.length ⟨g.indegree, ready, []⟩ with
      | none => none
      | some s =>
        if s.ordered.length ≠ steps.length then some (.error .cycle) else some (.ok s.ordered)

end KestrelSdk.Features
