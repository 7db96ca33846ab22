import KestrelSdk.Json.Value

namespace KestrelSdk.Json

namespace Value

mutual
/-- Whether two values are one and the same. -/
def same : Value → Value → Bool
  | .none, .none => true
  | .bool a, .bool b => a == b
  | .int i, .int j => i == j
  | .float x, .float y => x == y
  | .str s, .str t => s == t
  | .list l, .list m => sameItems l m
  | .dict d, .dict e => sameEntries d e
  | .object m, .object n => m == n
  | _, _ => false
  termination_by structural v => v

def sameItems : List Value → List Value → Bool
  | [], [] => true
  | v :: vs, w :: ws => same v w && sameItems vs ws
  | _, _ => false
  termination_by structural l => l

def sameEntries : List (Key × Value) → List (Key × Value) → Bool
  | [], [] => true
  | (k, v) :: es, (l, w) :: fs => k == l && same v w && sameEntries es fs
  | _, _ => false
  termination_by structural l => l
end

mutual
theorem same_iff : ∀ v w : Value, same v w = true ↔ v = w
  | .none, w => by cases w <;> simp [same]
  | .bool a, w => by cases w <;> simp [same]
  | .int i, w => by cases w <;> simp [same]
  | .float x, w => by cases w <;> simp [same]
  | .str s, w => by cases w <;> simp [same]
  | .list l, w => by
    cases w with
    | list m => simpa [same] using sameItems_iff l m
    | _ => simp [same]
  | .dict d, w => by
    cases w with
    | dict e => simpa [same] using sameEntries_iff d e
    | _ => simp [same]
  | .object n, w => by cases w <;> simp [same]
  termination_by structural v => v

theorem sameItems_iff : ∀ l m : List Value, sameItems l m = true ↔ l = m
  | [], m => by cases m <;> simp [sameItems]
  | v :: vs, m => by
    cases m with
    | nil => simp [sameItems]
    | cons w ws => simp [sameItems, same_iff v w, sameItems_iff vs ws]
  termination_by structural l => l

theorem sameEntries_iff : ∀ d e : List (Key × Value), sameEntries d e = true ↔ d = e
  | [], e => by cases e <;> simp [sameEntries]
  | (k, v) :: es, e => by
    cases e with
    | nil => simp [sameEntries]
    | cons f fs =>
      obtain ⟨l, w⟩ := f
      simp [sameEntries, same_iff v w, sameEntries_iff es fs, and_assoc]
  termination_by structural d => d
end

instance : DecidableEq Value := fun v w => decidable_of_iff _ (same_iff v w)

end Value

end KestrelSdk.Json
