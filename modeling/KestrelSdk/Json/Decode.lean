import KestrelSdk.Json.Encode

namespace KestrelSdk.Json

/-- Why `json.loads` raises: `JSONDecodeError`, the `ValueError` of an integer with too many
digits, `RecursionError`. -/
inductive LoadError where
  | decode (msg : String)
  | digits
  | recursion
  deriving DecidableEq

def isSpace (c : Nat) : Bool := c == 32 || c == 9 || c == 10 || c == 13

def isDigit (c : Nat) : Bool := 48 ≤ c && c ≤ 57

def skipSpace (s : Str) : Str := s.dropWhile isSpace

def hexValue (c : Nat) : Option Nat :=
  if 48 ≤ c ∧ c ≤ 57 then some (c - 48)
  else if 97 ≤ c ∧ c ≤ 102 then some (c - 87)
  else if 65 ≤ c ∧ c ≤ 70 then some (c - 55)
  else none

/-- The four digits of a `\uXXXX` escape. -/
def hexQuad (a b c d : Nat) : Option Nat := do
  let a ← hexValue a
  let b ← hexValue b
  let c ← hexValue c
  let d ← hexValue d
  return 4096 * a + 256 * b + 16 * c + d

/-- The one-letter escapes. -/
def unescape (c : Nat) : Option Nat :=
  if c = 34 ∨ c = 92 ∨ c = 47 then some c
  else if c = 98 then some 8
  else if c = 102 then some 12
  else if c = 110 then some 10
  else if c = 114 then some 13
  else if c = 116 then some 9
  else none

/-- The code units of a string, up to its closing quote. -/
def scanUnits : Str → Except LoadError (Str × Str)
  | [] => .error (.decode "Unterminated string starting at")
  | 34 :: s => .ok ([], s)
  | [92] => .error (.decode "Unterminated string starting at")
  | 92 :: 117 :: a :: b :: c :: d :: s =>
    match hexQuad a b c d with
    | some u => do
      let (us, r) ← scanUnits s
      return (u :: us, r)
    | none => .error (.decode "Invalid \\uXXXX escape")
  | 92 :: x :: s =>
    if x = 117 then .error (.decode "Invalid \\uXXXX escape")
    else
      match unescape x with
      | some u => do
        let (us, r) ← scanUnits s
        return (u :: us, r)
      | none => .error (.decode "Invalid \\escape: ")
  | c :: s =>
    if c < 32 then .error (.decode "Invalid control character at")
    else do
      let (us, r) ← scanUnits s
      return (c :: us, r)

def isHigh (c : Nat) : Bool := 0xD800 ≤ c && c < 0xDC00

def isLow (c : Nat) : Bool := 0xDC00 ≤ c && c < 0xE000

/-- A high surrogate and the low one after it are one code point. -/
def joinSurrogates : Str → Str
  | a :: b :: s =>
    if isHigh a && isLow b then
      (0x10000 + (a - 0xD800) * 1024 + (b - 0xDC00)) :: joinSurrogates s
    else a :: joinSurrogates (b :: s)
  | s => s

def scanString (s : Str) : Except LoadError (Str × Str) := do
  let (us, r) ← scanUnits s
  return (joinSurrogates us, r)

/-- `n` read from decimal digits. -/
def natOf (ds : Str) : Nat := ds.foldl (fun n c => 10 * n + (c - 48)) 0

/-- The fraction, if a digit follows the point. -/
def scanFraction : Str → Str × Str
  | 46 :: c :: s =>
    if isDigit c then (46 :: c :: s.takeWhile isDigit, s.dropWhile isDigit) else ([], 46 :: c :: s)
  | s => ([], s)

/-- The exponent, if a digit follows the letter and the sign. -/
def scanExponent : Str → Str × Str
  | e :: s =>
    if e = 101 ∨ e = 69 then
      match s with
      | x :: y :: r =>
        if isDigit x then (e :: (x :: y :: r).takeWhile isDigit, (x :: y :: r).dropWhile isDigit)
        else if (x = 43 ∨ x = 45) ∧ isDigit y then
          (e :: x :: (y :: r).takeWhile isDigit, (y :: r).dropWhile isDigit)
        else ([], e :: s)
      | [x] => if isDigit x then ([e, x], []) else ([], e :: s)
      | [] => ([], [e])
    else ([], e :: s)
  | [] => ([], [])

/-- The integer digits: `0`, or digits that start with another. -/
def scanInteger : Str → Option (Str × Str)
  | 48 :: s => some ([48], s)
  | c :: s => if isDigit c then some (c :: s.takeWhile isDigit, s.dropWhile isDigit) else none
  | [] => none

def scanSign : Str → Str × Str
  | 45 :: s => ([45], s)
  | s => ([], s)

def scanNumber (floatOf : Str → PyFloat) (s : Str) : Except LoadError (Value × Str) :=
  let (sign, s) := scanSign s
  match scanInteger s with
  | none => .error (.decode "Expecting value")
  | some (ds, s) =>
    let (frac, s) := scanFraction s
    let (exp, s) := scanExponent s
    if frac.isEmpty && exp.isEmpty then
      if maxStrDigits < ds.length then .error .digits
      else .ok (.int (if sign.isEmpty then natOf ds else -natOf ds), s)
    else .ok (.float (floatOf (sign ++ ds ++ frac ++ exp)), s)

def literals : List (Str × Value) :=
  [(str "null", .none), (str "true", .bool true), (str "false", .bool false),
    (str "NaN", .float .nan), (str "Infinity", .float .inf), (str "-Infinity", .float .negInf)]

def scanLiteral (s : Str) : Option (Value × Str) :=
  literals.findSome? fun (t, v) => if t.isPrefixOf s then some (v, s.drop t.length) else none

mutual
/-- The value at the start of the text, with `d` levels of nesting left. The first argument
bounds the recursion. -/
def scanOnce (floatOf : Str → PyFloat) : Nat → Nat → Str → Except LoadError (Value × Str)
  | 0, _, _ => .error (.decode "Expecting value")
  | n + 1, d, s =>
    match s with
    | [] => .error (.decode "Expecting value")
    | c :: r =>
      if c = 34 then do
        let (t, r) ← scanString r
        return (.str t, r)
      else if c = 123 then
        match d with
        | 0 => .error .recursion
        | d + 1 =>
          match skipSpace r with
          | 125 :: r => .ok (.dict [], r)
          | r => scanEntries floatOf n d [] r
      else if c = 91 then
        match d with
        | 0 => .error .recursion
        | d + 1 =>
          match skipSpace r with
          | 93 :: r => .ok (.list [], r)
          | r => scanItems floatOf n d [] r
      else
        match scanLiteral (c :: r) with
        | some p => .ok p
        | none => scanNumber floatOf (c :: r)
  termination_by structural n => n

def scanItems (floatOf : Str → PyFloat) :
    Nat → Nat → List Value → Str → Except LoadError (Value × Str)
  | 0, _, _, _ => .error (.decode "Expecting value")
  | n + 1, d, acc, s => do
    let (v, s) ← scanOnce floatOf n d s
    match skipSpace s with
    | 93 :: r => return (.list (acc ++ [v]), r)
    | 44 :: r => scanItems floatOf n d (acc ++ [v]) (skipSpace r)
    | _ => .error (.decode "Expecting ',' delimiter")
  termination_by structural n => n

def scanEntries (floatOf : Str → PyFloat) :
    Nat → Nat → Dict → Str → Except LoadError (Value × Str)
  | 0, _, _, _ => .error (.decode "Expecting value")
  | n + 1, d, acc, s =>
    match s with
    | 34 :: s => do
      let (k, s) ← scanString s
      match skipSpace s with
      | 58 :: s => do
        let (v, s) ← scanOnce floatOf n d (skipSpace s)
        match skipSpace s with
        | 125 :: r => return (.dict (acc.set k v), r)
        | 44 :: r => scanEntries floatOf n d (acc.set k v) (skipSpace r)
        | _ => .error (.decode "Expecting ',' delimiter")
      | _ => .error (.decode "Expecting ':' delimiter")
    | _ => .error (.decode "Expecting property name enclosed in double quotes")
  termination_by structural n => n
end

namespace Interpreter

/-- `json.loads(s)`. -/
def loads (py : Interpreter) (s : Str) : Except LoadError Value :=
  match s with
  | 0xFEFF :: _ => .error (.decode "Unexpected UTF-8 BOM (decode using utf-8-sig)")
  | s => do
    let (v, r) ← scanOnce py.floatOf (2 * s.length + 2) py.nesting (skipSpace s)
    if (skipSpace r).isEmpty then return v else .error (.decode "Extra data")

end Interpreter

end KestrelSdk.Json
