import KestrelSdk.Json.Bytes

namespace KestrelSdk.Frozen

open Json (Str Bytes Key Value PyFloat FloatRepr)

/-- `None`, `bool`, `int`, a finite `float` and `str`. -/
inductive Scalar where
  | none
  | bool (b : Bool)
  | int (i : Int)
  | float (r : FloatRepr)
  | str (s : Str)
  deriving DecidableEq

/-- What the walk sees of an object: a scalar, a float that is not finite, the items of a mapping or
of a list or tuple, or an object of another type. -/
inductive View (ι : Type) where
  | scalar (s : Scalar)
  | nonFinite (x : PyFloat)
  | mapping (entries : List (Key × ι))
  | sequence (items : List ι)
  | other

/-- Objects by their `id`. A mapping has each key once. -/
structure Graph (ι : Type) where
  view : ι → View ι
  distinct : ∀ x es, view x = .mapping es → (es.map Prod.fst).Nodup

/-- `ImmutableJSON`. -/
inductive ImmutableJSON where
  | scalar (s : Scalar)
  | tuple (items : List ImmutableJSON)
  | mapping (entries : List (Str × ImmutableJSON))

/-- The rules of `JSONTypeError` and `JSONLimitError`; `recursion` is `RecursionError`, and `domain`
what a validator raises. -/
inductive Reject where
  | key
  | type
  | depth
  | nodes
  | keys
  | bytes
  | text
  | number
  | nonFinite
  | cycle
  | recursion
  | domain (n : Nat)
  deriving DecidableEq

/-- The bounds of a freeze are violated, or the value is too large or ill-formed to encode. -/
def Reject.IsBound (e : Reject) : Prop :=
  e = .depth ∨ e = .nodes ∨ e = .keys ∨ e = .bytes ∨ e = .text ∨ e = .number

structure JSONLimits where
  maxDepth : Option Int := none
  maxNodes : Option Int := none
  maxKeys : Option Int := none
  maxEncodedBytes : Option Int := none

/-- `validate_key`, `validate_string` and `validate_number`. -/
structure Validators where
  key : Key → Except Reject Str
  string : Str → Except Reject Str
  number : Scalar → Except Reject Scalar

/-- `_require_str_key`. -/
def requireStrKey : Key → Except Reject Str
  | .str s => .ok s
  | _ => .error .key

/-- The validators of a call that names none. -/
def Validators.default : Validators := ⟨requireStrKey, .ok, .ok⟩

/-- The validator that a scalar meets. -/
def Validators.scalar (check : Validators) : Scalar → Except Reject Scalar
  | .str s => (check.string s).map .str
  | .int i => check.number (.int i)
  | .float r => check.number (.float r)
  | s => .ok s

structure Config where
  limits : JSONLimits
  check : Validators

/-- `_Walk`. -/
structure Walk (ι : Type) where
  nodes : Nat
  keys : Nat
  size : Option Nat
  ancestors : List ι

/-- `limit is not None and n > limit`. -/
def exceeds (limit : Option Int) (n : Nat) : Bool := limit.any fun l => l < (n : Int)

/-- One code point of a text with `ensure_ascii=False`. -/
def escapeUnicode (c : Nat) : Str :=
  if c = 34 then [92, 34]
  else if c = 92 then [92, 92]
  else if c = 8 then [92, 98]
  else if c = 12 then [92, 102]
  else if c = 10 then [92, 110]
  else if c = 13 then [92, 114]
  else if c = 9 then [92, 116]
  else if c < 32 then Json.hexEscape c
  else [c]

def quote (s : Str) : Str := 34 :: (s.flatMap escapeUnicode ++ [34])

/-- `json.dumps(value, ensure_ascii=False, allow_nan=False)` of a scalar; `none` is `ValueError`. -/
def Scalar.text : Scalar → Option Str
  | .none => some (Json.str "null")
  | .bool b => some (Json.dumpBool b)
  | .int i => (Json.dumpInt i).toOption
  | .float r => some r.text
  | .str s => some (quote s)

/-- Its bytes. -/
def Scalar.encoded (s : Scalar) : Except Reject Bytes :=
  match s.text with
  | Option.none => .error .number
  | some t =>
    match Json.encodeUtf8 t with
    | Option.none => .error .text
    | some b => .ok b

namespace Walk

variable {ι : Type}

/-- `__init__`. -/
def start (limits : JSONLimits) : Walk ι :=
  ⟨0, 0, if limits.maxEncodedBytes.isSome then some 0 else none, []⟩

/-- `add_bytes`. -/
def addBytes (cfg : Config) (w : Walk ι) (count : Nat) : Except Reject (Walk ι) :=
  match w.size with
  | none => .ok w
  | some n =>
    if exceeds cfg.limits.maxEncodedBytes (n + count) then .error .bytes
    else .ok { w with size := some (n + count) }

/-- `add_node`. -/
def addNode (cfg : Config) (w : Walk ι) : Except Reject (Walk ι) :=
  if exceeds cfg.limits.maxNodes (w.nodes + 1) then .error .nodes
  else .ok { w with nodes := w.nodes + 1 }

/-- `add_key`. -/
def addKey (cfg : Config) (w : Walk ι) : Except Reject (Walk ι) :=
  if exceeds cfg.limits.maxKeys (w.keys + 1) then .error .keys
  else .ok { w with keys := w.keys + 1 }

/-- `add_scalar`. -/
def addScalar (cfg : Config) (w : Walk ι) (s : Scalar) : Except Reject (Walk ι) :=
  match w.size with
  | none => .ok w
  | some _ => do
    let b ← s.encoded
    w.addBytes cfg b.length

/-- `_enter`. -/
def enter [DecidableEq ι] (w : Walk ι) (x : ι) : Except Reject (Walk ι) :=
  if x ∈ w.ancestors then .error .cycle else .ok { w with ancestors := x :: w.ancestors }

/-- `self.ancestors.discard(id(value))`. -/
def discard [DecidableEq ι] (w : Walk ι) (x : ι) : Walk ι :=
  { w with ancestors := w.ancestors.erase x }

end Walk

/-- `frozen[key] = value`. -/
def setEntry (frozen : List (Str × ImmutableJSON)) (key : Str) (value : ImmutableJSON) : List (Str × ImmutableJSON) :=
  match frozen with
  | [] => [(key, value)]
  | (k, f) :: rest => if k = key then (k, value) :: rest else (k, f) :: setEntry rest key value

section Freeze

variable {ι : Type} (cfg : Config) (item : ι → Walk ι → Except Reject (ImmutableJSON × Walk ι))

/-- The loop of `_freeze_mapping` from entry `index` on. -/
def freezeEntries (index : Nat) (frozen : List (Str × ImmutableJSON)) :
    List (Key × ι) → Walk ι → Except Reject (List (Str × ImmutableJSON) × Walk ι)
  | [], w => .ok (frozen, w)
  | (rawKey, y) :: rest, w => do
    let key ← cfg.check.key rawKey
    let w ← w.addKey cfg
    let w ← w.addScalar cfg (.str key)
    let w ← w.addBytes cfg (1 + if index = 0 then 0 else 1)
    let (f, w) ← item y w
    freezeEntries (index + 1) (setEntry frozen key f) rest w

/-- The loop of `_freeze_sequence` from item `index` on. -/
def freezeItems (index : Nat) : List ι → Walk ι → Except Reject (List ImmutableJSON × Walk ι)
  | [], w => .ok ([], w)
  | y :: rest, w => do
    let w ← (if index = 0 then .ok w else w.addBytes cfg 1)
    let (f, w) ← item y w
    let (fs, w) ← freezeItems (index + 1) rest w
    return (f :: fs, w)

/-- `_Walk.freeze` with `_freeze_mapping` and `_freeze_sequence`. `frames` is the nesting that the
recursion limit leaves. -/
def freeze [DecidableEq ι] (g : Graph ι) :
    Nat → ι → Nat → Walk ι → Except Reject (ImmutableJSON × Walk ι)
  | frames, x, depth, w =>
    if exceeds cfg.limits.maxDepth depth then .error .depth
    else do
      let w ← w.addNode cfg
      match g.view x with
      | .scalar s =>
        let s ← cfg.check.scalar s
        let w ← w.addScalar cfg s
        return (.scalar s, w)
      | .nonFinite _ => .error .nonFinite
      | .mapping entries =>
        match frames with
        | 0 => .error .recursion
        | frames + 1 =>
          let w ← w.enter x
          let w ← w.addBytes cfg 2
          let (fs, w) ← freezeEntries cfg (fun y w => freeze g frames y (depth + 1) w) 0 [] entries w
          return (.mapping fs, w.discard x)
      | .sequence items =>
        match frames with
        | 0 => .error .recursion
        | frames + 1 =>
          let w ← w.enter x
          let w ← w.addBytes cfg 2
          let (fs, w) ← freezeItems cfg (fun y w => freeze g frames y (depth + 1) w) 0 items w
          return (.tuple fs, w.discard x)
      | .other => .error .type

/-- `FrozenJSON`. -/
structure FrozenJSON where
  value : ImmutableJSON
  encodedBytes : Option Nat

/-- `freeze_json`. -/
def freezeJson [DecidableEq ι] (g : Graph ι) (frames : Nat) (x : ι) : Except Reject FrozenJSON := do
  let (f, w) ← freeze cfg g frames x 0 (.start cfg.limits)
  return ⟨f, w.size⟩

end Freeze

/-- The scalar as a Python value. -/
def Scalar.value : Scalar → Value
  | .none => .none
  | .bool b => .bool b
  | .int i => .int i
  | .float r => .float (.finite r)
  | .str s => .str s

mutual
/-- `thaw_json`. -/
def thawJson : ImmutableJSON → Value
  | .scalar s => s.value
  | .tuple items => .list (thawItems items)
  | .mapping entries => .dict (thawEntries entries)
  termination_by structural f => f

def thawItems : List ImmutableJSON → List Value
  | [] => []
  | f :: fs => thawJson f :: thawItems fs
  termination_by structural l => l

def thawEntries : List (Str × ImmutableJSON) → List (Key × Value)
  | [] => []
  | (k, f) :: fs => (.str k, thawJson f) :: thawEntries fs
  termination_by structural l => l
end

mutual
/-- `json.dumps(value, ensure_ascii=False, allow_nan=False, separators=(",", ":"))`; `none` where it
raises. -/
def dumps : Value → Option Str
  | .none => some (Json.str "null")
  | .bool b => some (Json.dumpBool b)
  | .int i => (Json.dumpInt i).toOption
  | .float (.finite r) => some r.text
  | .float _ => none
  | .str s => some (quote s)
  | .list l => do
    let t ← dumpsItems l
    return 91 :: (t ++ [93])
  | .dict es => do
    let t ← dumpsEntries es
    return 123 :: (t ++ [125])
  | .object _ => none
  termination_by structural v => v

def dumpsItems : List Value → Option Str
  | [] => some []
  | v :: vs => do
    let t ← dumps v
    let ts ← dumpsItems vs
    return if vs.isEmpty then t else t ++ 44 :: ts
  termination_by structural l => l

def dumpsEntries : List (Key × Value) → Option Str
  | [] => some []
  | (k, v) :: es => do
    let q ← k.text.toOption
    let t ← dumps v
    let ts ← dumpsEntries es
    return quote q ++ 58 :: (if es.isEmpty then t else t ++ 44 :: ts)
  termination_by structural l => l
end

/-- `canonical_json_bytes`; `none` where it raises. -/
def canonicalJsonBytes (f : ImmutableJSON) : Option Bytes := do
  let t ← dumps (thawJson f)
  Json.encodeUtf8 t

end KestrelSdk.Frozen
