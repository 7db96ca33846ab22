import KestrelSdk.Json.Value

namespace KestrelSdk.Json

/-- Why `json.dumps` raises. -/
inductive DumpError where
  | digits
  | recursion
  | object (n : Nat)
  deriving DecidableEq

/-- `sys.int_info.default_max_str_digits`: longer decimal integers are not converted. -/
def maxStrDigits : Nat := 4300

/-- What the codec takes from its interpreter: the nesting that the C recursion limit leaves to
it, and `float(text)`. -/
structure Interpreter where
  nesting : Nat
  floatOf : Str → PyFloat

/-- An interpreter for texts without floats. -/
def Interpreter.floatless : Interpreter := ⟨1000, fun _ => .nan⟩

def hexDigit (n : Nat) : Nat := if n < 10 then 48 + n else 87 + n

/-- A `\uXXXX` escape. -/
def hexEscape (c : Nat) : Str :=
  [92, 117, hexDigit (c / 4096 % 16), hexDigit (c / 256 % 16), hexDigit (c / 16 % 16),
    hexDigit (c % 16)]

/-- One code point under `ensure_ascii`. -/
def escape (c : Nat) : Str :=
  if c = 34 then [92, 34]
  else if c = 92 then [92, 92]
  else if c = 8 then [92, 98]
  else if c = 12 then [92, 102]
  else if c = 10 then [92, 110]
  else if c = 13 then [92, 114]
  else if c = 9 then [92, 116]
  else if 32 ≤ c ∧ c ≤ 126 then [c]
  else if c < 0x10000 then hexEscape c
  else hexEscape (0xD800 + (c - 0x10000) / 1024) ++ hexEscape (0xDC00 + (c - 0x10000) % 1024)

/-- A quoted string. -/
def dumpStr (s : Str) : Str := 34 :: (s.flatMap escape ++ [34])

/-- Decimal digits, most significant first. -/
def natText (n : Nat) : Str := (Nat.toDigits 10 n).map Char.toNat

/-- `int.__repr__`, which refuses an integer with too many digits. -/
def dumpInt (i : Int) : Except DumpError Str :=
  if maxStrDigits < (natText i.natAbs).length then .error .digits
  else .ok (if i < 0 then 45 :: natText i.natAbs else natText i.natAbs)

def digitText (ds : Fin 10 × List (Fin 10)) : Str := (ds.1 :: ds.2).map fun d => 48 + d.val

namespace FloatRepr

def signText (r : FloatRepr) : Str := if r.negative then [45] else []

def fractionText (r : FloatRepr) : Str :=
  match r.fraction with
  | none => []
  | some ds => 46 :: digitText ds

def exponentText (r : FloatRepr) : Str :=
  match r.exponent with
  | none => []
  | some (negative, ds) => 101 :: (if negative then 45 else 43) :: digitText ds

def text (r : FloatRepr) : Str :=
  r.signText ++ natText r.whole ++ r.fractionText ++ r.exponentText

end FloatRepr

def dumpFloat : PyFloat → Str
  | .finite r => r.text
  | .inf => str "Infinity"
  | .negInf => str "-Infinity"
  | .nan => str "NaN"

def dumpBool (b : Bool) : Str := if b then str "true" else str "false"

/-- The text a key is quoted as. -/
def Key.text : Key → Except DumpError Str
  | .str s => .ok s
  | .none => .ok (Json.str "null")
  | .bool b => .ok (dumpBool b)
  | .int i => dumpInt i
  | .float x => .ok (dumpFloat x)
  | .object n => .error (.object n)

mutual
/-- `json.dumps(v, separators=(",", ":"))` with `d` levels of nesting left. -/
def dump (d : Nat) : Value → Except DumpError Str
  | .none => .ok (str "null")
  | .bool b => .ok (dumpBool b)
  | .int i => dumpInt i
  | .float x => .ok (dumpFloat x)
  | .str s => .ok (dumpStr s)
  | .list l =>
    match d with
    | 0 => .error .recursion
    | d + 1 => do
      let t ← dumpItems d l
      return 91 :: (t ++ [93])
  | .dict es =>
    match d with
    | 0 => .error .recursion
    | d + 1 => do
      let t ← dumpEntries d es
      return 123 :: (t ++ [125])
  | .object n => .error (.object n)
  termination_by structural v => v

def dumpItems (d : Nat) : List Value → Except DumpError Str
  | [] => .ok []
  | v :: vs => do
    let t ← dump d v
    let ts ← dumpItems d vs
    return if vs.isEmpty then t else t ++ 44 :: ts
  termination_by structural l => l

def dumpEntries (d : Nat) : List (Key × Value) → Except DumpError Str
  | [] => .ok []
  | (k, v) :: es => do
    let q ← k.text
    let t ← dump d v
    let ts ← dumpEntries d es
    return dumpStr q ++ 58 :: (if es.isEmpty then t else t ++ 44 :: ts)
  termination_by structural l => l
end

mutual
/-- `json.dumps(v, separators=("," + pad, ":" + pad))` with `d` levels of nesting left. -/
def dumpWith (pad : Str) (d : Nat) : Value → Except DumpError Str
  | .none => .ok (str "null")
  | .bool b => .ok (dumpBool b)
  | .int i => dumpInt i
  | .float x => .ok (dumpFloat x)
  | .str s => .ok (dumpStr s)
  | .list l =>
    match d with
    | 0 => .error .recursion
    | d + 1 => do
      let t ← dumpItemsWith pad d l
      return 91 :: (t ++ [93])
  | .dict es =>
    match d with
    | 0 => .error .recursion
    | d + 1 => do
      let t ← dumpEntriesWith pad d es
      return 123 :: (t ++ [125])
  | .object n => .error (.object n)
  termination_by structural v => v

def dumpItemsWith (pad : Str) (d : Nat) : List Value → Except DumpError Str
  | [] => .ok []
  | v :: vs => do
    let t ← dumpWith pad d v
    let ts ← dumpItemsWith pad d vs
    return if vs.isEmpty then t else t ++ 44 :: (pad ++ ts)
  termination_by structural l => l

def dumpEntriesWith (pad : Str) (d : Nat) : List (Key × Value) → Except DumpError Str
  | [] => .ok []
  | (k, v) :: es => do
    let q ← k.text
    let t ← dumpWith pad d v
    let ts ← dumpEntriesWith pad d es
    return dumpStr q ++ 58 :: (pad ++ if es.isEmpty then t else t ++ 44 :: (pad ++ ts))
  termination_by structural l => l
end

mutual
theorem dumpWith_nil : ∀ (v : Value) (d : Nat), dumpWith [] d v = dump d v
  | .none, _ => rfl
  | .bool _, _ => rfl
  | .int _, _ => rfl
  | .float _, _ => rfl
  | .str _, _ => rfl
  | .list l, 0 => rfl
  | .list l, d + 1 => by simp only [dumpWith, dump, dumpItemsWith_nil l d]
  | .dict es, 0 => rfl
  | .dict es, d + 1 => by simp only [dumpWith, dump, dumpEntriesWith_nil es d]
  | .object _, _ => rfl
  termination_by structural v => v

theorem dumpItemsWith_nil : ∀ (l : List Value) (d : Nat), dumpItemsWith [] d l = dumpItems d l
  | [], _ => rfl
  | v :: vs, d => by
    simp only [dumpItemsWith, dumpItems, dumpWith_nil v d, dumpItemsWith_nil vs d,
      List.nil_append]
  termination_by structural l => l

theorem dumpEntriesWith_nil : ∀ (es : List (Key × Value)) (d : Nat),
    dumpEntriesWith [] d es = dumpEntries d es
  | [], _ => rfl
  | (k, v) :: es, d => by
    simp only [dumpEntriesWith, dumpEntries, dumpWith_nil v d, dumpEntriesWith_nil es d,
      List.nil_append]
  termination_by structural es => es
end

namespace Interpreter

/-- `json.dumps(v, separators=(",", ":"))`. -/
def dumps (py : Interpreter) (v : Value) : Except DumpError Str :=
  dump py.nesting v

/-- `json.dumps(v)`. -/
def dumpsDefault (py : Interpreter) (v : Value) : Except DumpError Str :=
  dumpWith [32] py.nesting v

end Interpreter

end KestrelSdk.Json
