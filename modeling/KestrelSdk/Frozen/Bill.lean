import KestrelSdk.Frozen.Walk
import Mathlib.Logic.Relation

namespace KestrelSdk.Frozen

open Json (Str Bytes Key Value)

/-- What a part of the walk costs: the levels it reaches down to, its nodes and keys, and its bytes,
`none` where something in it has no encoding. -/
structure Bill where
  reach : Nat
  nodes : Nat
  keys : Nat
  size : Option Nat

/-- The bytes of two parts. -/
def addSize : Option Nat → Option Nat → Option Nat
  | some m, some n => some (m + n)
  | _, _ => none

instance : Add Bill :=
  ⟨fun a b => ⟨max a.reach b.reach, a.nodes + b.nodes, a.keys + b.keys, addSize a.size b.size⟩⟩

namespace Bill

def zero : Bill := ⟨0, 0, 0, some 0⟩
def node : Bill := ⟨0, 1, 0, some 0⟩
def key : Bill := ⟨0, 0, 1, some 0⟩
def level (depth : Nat) : Bill := ⟨depth + 1, 0, 0, some 0⟩
def bytes (size : Option Nat) : Bill := ⟨0, 0, 0, size⟩

@[simp] theorem add_reach (a b : Bill) : (a + b).reach = max a.reach b.reach := rfl
@[simp] theorem add_nodes (a b : Bill) : (a + b).nodes = a.nodes + b.nodes := rfl
@[simp] theorem add_keys (a b : Bill) : (a + b).keys = a.keys + b.keys := rfl
@[simp] theorem add_size (a b : Bill) : (a + b).size = addSize a.size b.size := rfl

theorem add_assoc (a b c : Bill) : a + b + c = a + (b + c) := by
  have hsize : addSize (addSize a.size b.size) c.size = addSize a.size (addSize b.size c.size) := by
    cases a.size <;> cases b.size <;> cases c.size <;> simp [addSize, Nat.add_assoc]
  show Bill.mk _ _ _ _ = Bill.mk _ _ _ _
  simp only [add_reach, add_nodes, add_keys, add_size, hsize, Nat.max_assoc, Nat.add_assoc]

end Bill

variable {ι : Type}

/-- A limit is only looked at when something is added. -/
def Within (limit : Option Int) (total added : Nat) : Prop := added = 0 ∨ exceeds limit total = false

/-- The byte budget, where the walk has one. -/
def SizeWithin (limit : Option Int) : Option Nat → Option Nat → Prop
  | none, _ => True
  | some n, some m => Within limit (n + m) m
  | some _, none => False

/-- The limits leave room for a bill. -/
def Affordable (limits : JSONLimits) (w : Walk ι) (b : Bill) : Prop :=
  Within limits.maxDepth (b.reach - 1) b.reach ∧ Within limits.maxNodes (w.nodes + b.nodes) b.nodes ∧
    Within limits.maxKeys (w.keys + b.keys) b.keys ∧
    SizeWithin limits.maxEncodedBytes w.size b.size

/-- The counters after a bill. -/
def Walk.pay (w : Walk ι) (b : Bill) : Walk ι :=
  { w with
    nodes := w.nodes + b.nodes
    keys := w.keys + b.keys
    size := addSize w.size b.size }

theorem exceeds_mono {limit : Option Int} {m n : Nat} (h : exceeds limit n = false) (hmn : m ≤ n) :
    exceeds limit m = false := by
  cases limit with
  | none => rfl
  | some l =>
    simp only [exceeds, Option.any_some, decide_eq_false_iff_not] at h ⊢
    omega

theorem within_add {limit : Option Int} {n a b : Nat} :
    Within limit (n + (a + b)) (a + b) ↔ Within limit (n + a) a ∧ Within limit (n + a + b) b := by
  constructor
  · rintro (h | h)
    · exact ⟨.inl (by omega), .inl (by omega)⟩
    · exact ⟨.inr (exceeds_mono h (by omega)), .inr (exceeds_mono h (by omega))⟩
  · rintro ⟨ha, hb⟩
    obtain hb | hb := hb
    · subst hb
      exact ha
    · exact .inr (exceeds_mono hb (by omega))

theorem within_max {limit : Option Int} {a b : Nat} :
    Within limit (max a b - 1) (max a b) ↔ Within limit (a - 1) a ∧ Within limit (b - 1) b := by
  constructor
  · rintro (h | h)
    · exact ⟨.inl (by omega), .inl (by omega)⟩
    · exact ⟨.inr (exceeds_mono h (by omega)), .inr (exceeds_mono h (by omega))⟩
  · rintro ⟨ha, hb⟩
    obtain hab | hab := Nat.le_total a b
    · rw [Nat.max_eq_right hab]
      exact hb
    · rw [Nat.max_eq_left hab]
      exact ha

theorem sizeWithin_add {limit : Option Int} {s a b : Option Nat} :
    SizeWithin limit s (addSize a b) ↔ SizeWithin limit s a ∧ SizeWithin limit (addSize s a) b := by
  cases s with
  | none => cases a <;> cases b <;> simp [SizeWithin, addSize]
  | some n =>
    cases a with
    | none => simp [SizeWithin, addSize]
    | some m =>
      cases b with
      | none => simp [SizeWithin, addSize]
      | some k => exact within_add

/-- A bill is paid part by part. -/
theorem affordable_add {limits : JSONLimits} {w : Walk ι} {a b : Bill} :
    Affordable limits w (a + b) ↔ Affordable limits w a ∧ Affordable limits (w.pay a) b := by
  simp only [Affordable, Walk.pay, Bill.add_reach, Bill.add_nodes, Bill.add_keys, Bill.add_size,
    within_max, within_add, sizeWithin_add]
  tauto

theorem pay_add (w : Walk ι) (a b : Bill) : w.pay (a + b) = (w.pay a).pay b := by
  have hsize : addSize w.size (addSize a.size b.size) = addSize (addSize w.size a.size) b.size := by
    cases w.size <;> cases a.size <;> cases b.size <;> simp [addSize, Nat.add_assoc]
  simp only [Walk.pay, Bill.add_nodes, Bill.add_keys, Bill.add_size, hsize, Nat.add_assoc]

/-- A step that costs `b`: it succeeds with `x` exactly where the limits leave room for `b`. -/
def Charges {β : Type} (limits : JSONLimits) (w : Walk ι) (b : Bill) (r : Except Reject β) (x : β) :
    Prop :=
  (Affordable limits w b → r = .ok x) ∧ (¬ Affordable limits w b → ∃ e, r = .error e)

theorem Charges.bind {β γ : Type} {limits : JSONLimits} {w : Walk ι} {a b : Bill}
    {r : Except Reject β} {x : β} {k : β → Except Reject γ} {y : γ} (h : Charges limits w a r x)
    (hk : Charges limits (w.pay a) b (k x) y) : Charges limits w (a + b) (r >>= k) y := by
  constructor
  · intro hab
    obtain ⟨ha, hb⟩ := affordable_add.1 hab
    rw [h.1 ha]
    exact hk.1 hb
  · intro hab
    by_cases ha : Affordable limits w a
    · rw [h.1 ha]
      exact hk.2 fun hb => hab (affordable_add.2 ⟨ha, hb⟩)
    · obtain ⟨e, he⟩ := h.2 ha
      rw [he]
      exact ⟨e, rfl⟩

/-- A step for which nothing is charged. -/
theorem Charges.pure {β : Type} {limits : JSONLimits} {w : Walk ι} (x : β) :
    Charges limits w Bill.zero (.ok x) x := by
  constructor
  · intro _
    rfl
  · intro h
    exfalso
    apply h
    refine ⟨.inl rfl, .inl rfl, .inl rfl, ?_⟩
    cases w.size with
    | none => trivial
    | some n => exact .inl rfl

theorem Charges.congr {β : Type} {limits : JSONLimits} {w : Walk ι} {a b : Bill}
    {r r' : Except Reject β} {x y : β} (h : Charges limits w a r x) (hb : a = b) (hr : r = r')
    (hx : x = y) : Charges limits w b r' y := by
  subst hb hr hx
  exact h

section Steps

variable {c : Config} {w : Walk ι}

theorem sizeWithin_zero {limit : Option Int} {s : Option Nat} : SizeWithin limit s (some 0) := by
  cases s with
  | none => trivial
  | some n => exact .inl rfl

theorem addSize_zero (s : Option Nat) : addSize s (some 0) = s := by
  cases s <;> rfl

/-- The test of the depth. -/
theorem charges_level {β : Type} {b : Bill} (depth : Nat) {r : Except Reject β} {x : β}
    (h : Charges c.limits w b r x) :
    Charges c.limits w (.level depth + b)
      (if exceeds c.limits.maxDepth depth then .error .depth else r) x := by
  have hpay : w.pay (.level depth) = w := by
    simp only [Walk.pay, Bill.level, Nat.add_zero, addSize_zero]
  by_cases hd : exceeds c.limits.maxDepth depth = true
  · rw [if_pos hd]
    refine ⟨fun hab => ?_, fun _ => ⟨_, rfl⟩⟩
    obtain ⟨⟨hlevel | hlevel, _⟩, _⟩ := affordable_add.1 hab
    · cases hlevel
    · exact absurd hd (by simpa [Bill.level] using hlevel)
  · rw [if_neg hd]
    have hlevel : Affordable c.limits w (.level depth) :=
      ⟨.inr (by simpa [Bill.level] using hd), .inl rfl, .inl rfl, sizeWithin_zero⟩
    constructor
    · intro hab
      have hb := (affordable_add.1 hab).2
      rw [hpay] at hb
      exact h.1 hb
    · intro hab
      apply h.2
      intro hb
      exact hab (affordable_add.2 ⟨hlevel, by rwa [hpay]⟩)

theorem charges_node : Charges c.limits w .node (w.addNode c) (w.pay .node) := by
  unfold Walk.addNode
  by_cases hn : exceeds c.limits.maxNodes (w.nodes + 1) = true
  · rw [if_pos hn]
    refine ⟨fun h => ?_, fun _ => ⟨_, rfl⟩⟩
    obtain ⟨_, hnodes | hnodes, _⟩ := h
    · cases hnodes
    · exact absurd hn (by simpa [Bill.node] using hnodes)
  · rw [if_neg hn]
    constructor
    · intro _
      simp only [Walk.pay, Bill.node, Nat.add_zero, addSize_zero]
    · intro h
      exact absurd ⟨.inl rfl, .inr (by simpa [Bill.node] using hn), .inl rfl, sizeWithin_zero⟩ h

theorem charges_key : Charges c.limits w .key (w.addKey c) (w.pay .key) := by
  unfold Walk.addKey
  by_cases hn : exceeds c.limits.maxKeys (w.keys + 1) = true
  · rw [if_pos hn]
    refine ⟨fun h => ?_, fun _ => ⟨_, rfl⟩⟩
    obtain ⟨_, _, hkeys | hkeys, _⟩ := h
    · cases hkeys
    · exact absurd hn (by simpa [Bill.key] using hkeys)
  · rw [if_neg hn]
    constructor
    · intro _
      simp only [Walk.pay, Bill.key, Nat.add_zero, addSize_zero]
    · intro h
      exact absurd ⟨.inl rfl, .inl rfl, .inr (by simpa [Bill.key] using hn), sizeWithin_zero⟩ h

theorem charges_bytes {n : Nat} (hpos : 0 < n) :
    Charges c.limits w (.bytes (some n)) (w.addBytes c n) (w.pay (.bytes (some n))) := by
  unfold Walk.addBytes
  cases hs : w.size with
  | none =>
    constructor
    · intro _
      simp only [Walk.pay, Bill.bytes, hs, addSize, Nat.add_zero]
      rw [← hs]
    · intro h
      refine absurd ⟨.inl rfl, .inl rfl, .inl rfl, ?_⟩ h
      rw [hs]
      trivial
  | some m =>
    dsimp only
    by_cases hn : exceeds c.limits.maxEncodedBytes (m + n) = true
    · rw [if_pos hn]
      refine ⟨fun h => ?_, fun _ => ⟨_, rfl⟩⟩
      have hsize := h.2.2.2
      rw [hs] at hsize
      obtain hzero | hsize := hsize
      · omega
      · exact absurd hn (by simpa using hsize)
    · rw [if_neg hn]
      constructor
      · intro _
        simp only [Walk.pay, Bill.bytes, hs, addSize, Nat.add_zero]
      · intro h
        refine absurd ⟨.inl rfl, .inl rfl, .inl rfl, ?_⟩ h
        rw [hs]
        exact .inr (by simpa using hn)

end Steps

end KestrelSdk.Frozen
