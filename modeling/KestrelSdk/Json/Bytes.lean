import KestrelSdk.Json.RoundTrip

namespace KestrelSdk.Json

open Checks (ok_bind)

abbrev Bytes := List UInt8

def isTail (b : UInt8) : Bool := 0x80 ≤ b && b ≤ 0xBF

/-- The code points of two, three and four bytes, where they are well formed. -/
def decodeTwo (a b : UInt8) : Option Nat :=
  if 0xC2 ≤ a && a ≤ 0xDF && isTail b then some ((a.toNat - 0xC0) * 64 + (b.toNat - 0x80)) else none

def decodeThree (a b c : UInt8) : Option Nat :=
  if 0xE0 ≤ a && a ≤ 0xEF && isTail b && isTail c && !(a == 0xE0 && b < 0xA0) &&
      !(a == 0xED && 0x9F < b) then
    some ((a.toNat - 0xE0) * 4096 + (b.toNat - 0x80) * 64 + (c.toNat - 0x80))
  else none

def decodeFour (a b c d : UInt8) : Option Nat :=
  if 0xF0 ≤ a && a ≤ 0xF4 && isTail b && isTail c && isTail d && !(a == 0xF0 && b < 0x90) &&
      !(a == 0xF4 && 0x8F < b) then
    some ((a.toNat - 0xF0) * 262144 + (b.toNat - 0x80) * 4096 + (c.toNat - 0x80) * 64 +
      (d.toNat - 0x80))
  else none

/-- `line.decode("utf-8")`; `none` is `UnicodeDecodeError`. -/
def decodeUtf8 : Bytes → Option Str
  | [] => some []
  | a :: s =>
    if a < 0x80 then (decodeUtf8 s).map (a.toNat :: ·)
    else
      match s with
      | [] => none
      | b :: s =>
        match decodeTwo a b with
        | some u => (decodeUtf8 s).map (u :: ·)
        | none =>
          match s with
          | [] => none
          | c :: s =>
            match decodeThree a b c with
            | some u => (decodeUtf8 s).map (u :: ·)
            | none =>
              match s with
              | [] => none
              | d :: s =>
                match decodeFour a b c d with
                | some u => (decodeUtf8 s).map (u :: ·)
                | none => none

/-- One code point under `.encode("utf-8")`, which refuses surrogates. -/
def encodePoint (c : Nat) : Option Bytes :=
  if c < 0x80 then some [.ofNat c]
  else if c < 0x800 then some [.ofNat (0xC0 + c / 64), .ofNat (0x80 + c % 64)]
  else if 0xD800 ≤ c ∧ c < 0xE000 then none
  else if c < 0x10000 then
    some [.ofNat (0xE0 + c / 4096), .ofNat (0x80 + c / 64 % 64), .ofNat (0x80 + c % 64)]
  else
    some [.ofNat (0xF0 + c / 262144), .ofNat (0x80 + c / 4096 % 64), .ofNat (0x80 + c / 64 % 64),
      .ofNat (0x80 + c % 64)]

/-- `s.encode("utf-8")`; `none` is `UnicodeEncodeError`. -/
def encodeUtf8 : Str → Option Bytes
  | [] => some []
  | c :: s => do
    let b ← encodePoint c
    let bs ← encodeUtf8 s
    return b ++ bs

/-- ASCII text is encoded byte by byte, and read back. -/
theorem encodeUtf8_ascii {s : Str} (h : ∀ c ∈ s, c < 0x80) :
    encodeUtf8 s = some (s.map UInt8.ofNat) ∧ decodeUtf8 (s.map UInt8.ofNat) = some s := by
  induction s with
  | nil => exact ⟨rfl, rfl⟩
  | cons c s ih =>
    have hc : c < 0x80 := h c (List.mem_cons_self ..)
    obtain ⟨h1, h2⟩ := ih fun x hx => h x (List.mem_cons_of_mem c hx)
    have hnat : (UInt8.ofNat c).toNat = c := by
      rw [UInt8.toNat_ofNat']
      omega
    have hlt : UInt8.ofNat c < 0x80 := by
      rw [UInt8.lt_iff_toNat_lt, hnat]
      exact hc
    constructor
    · simp only [encodeUtf8, encodePoint, if_pos hc, h1]
      rfl
    · rw [List.map_cons]
      unfold decodeUtf8
      simp only [if_pos hlt, h2, hnat]
      rfl

/-- Printable ASCII, which is all that `ensure_ascii` leaves. -/
def Printable (s : Str) : Prop := ∀ c ∈ s, 32 ≤ c ∧ c ≤ 126

theorem Printable.append {s t : Str} (hs : Printable s) (ht : Printable t) : Printable (s ++ t) := by
  intro c hc
  rcases List.mem_append.1 hc with h | h
  · exact hs c h
  · exact ht c h

theorem Printable.cons {c : Nat} {s : Str} (hc : 32 ≤ c ∧ c ≤ 126) (hs : Printable s) :
    Printable (c :: s) := by
  intro x hx
  rcases List.mem_cons.1 hx with rfl | h
  · exact hc
  · exact hs x h

theorem Printable.nil : Printable [] := by
  intro c hc
  cases hc

theorem hexEscape_printable (c : Nat) : Printable (hexEscape c) := by
  have hx : ∀ n < 16, 32 ≤ hexDigit n ∧ hexDigit n ≤ 126 := by decide
  have hm : ∀ n, 32 ≤ hexDigit (n % 16) ∧ hexDigit (n % 16) ≤ 126 :=
    fun n => hx _ (Nat.mod_lt _ (by decide))
  exact .cons (by decide) (.cons (by decide) (.cons (hm _) (.cons (hm _) (.cons (hm _)
    (.cons (hm _) .nil)))))

theorem escape_printable (c : Nat) : Printable (escape c) := by
  have hpair : ∀ a b : Nat, (32 ≤ a ∧ a ≤ 126) → (32 ≤ b ∧ b ≤ 126) → Printable [a, b] :=
    fun a b ha hb => .cons ha (.cons hb .nil)
  unfold escape
  split_ifs with h1 h2 h3 h4 h5 h6 h7 h8 h9
  case pos | pos | pos | pos | pos | pos | pos => exact hpair _ _ (by decide) (by decide)
  · exact .cons h8 .nil
  · exact hexEscape_printable c
  · exact (hexEscape_printable _).append (hexEscape_printable _)

theorem dumpStr_printable (s : Str) : Printable (dumpStr s) := by
  refine .cons (by decide) (.append ?_ (.cons (by decide) .nil))
  intro c hc
  obtain ⟨x, -, hx⟩ := List.mem_flatMap.1 hc
  exact escape_printable x c hx

theorem Printable.digits {s : Str} (h : ∀ c ∈ s, isDigit c = true) : Printable s := by
  intro c hc
  have := h c hc
  simp only [isDigit, Bool.and_eq_true, decide_eq_true_eq] at this
  omega

theorem FloatRepr.text_printable (r : FloatRepr) : Printable r.text := by
  unfold FloatRepr.text FloatRepr.signText FloatRepr.fractionText FloatRepr.exponentText
  have hds : ∀ ds, Printable (digitText ds) := fun ds => .digits fun c => digitText_digit
  refine .append (.append (.append ?_ (.digits fun c => natText_digit)) ?_) ?_
  · split
    · exact .cons (by decide) .nil
    · exact .nil
  · split
    · exact .nil
    · exact .cons (by decide) (hds _)
  · split
    · exact .nil
    · exact .cons (by decide) (.cons (by split <;> decide) (hds _))

theorem dumpInt_printable {i : Int} {t : Str} (h : dumpInt i = .ok t) : Printable t := by
  unfold dumpInt at h
  split at h
  · cases h
  · cases h
    have hn : Printable (natText i.natAbs) := .digits fun c => natText_digit
    split
    · exact .cons (by decide) hn
    · exact hn

mutual
theorem dump_printable : ∀ (v : Value) {d : Nat} {t : Str}, dump d v = .ok t → Printable t
  | .none, d, t, h => by
    cases h
    unfold Printable
    decide
  | .bool b, d, t, h => by
    cases h
    unfold Printable
    cases b <;> decide
  | .int i, d, t, h => dumpInt_printable h
  | .float x, d, t, h => by
    cases h
    cases x with
    | finite r => exact r.text_printable
    | inf => unfold Printable; decide
    | negInf => unfold Printable; decide
    | nan => unfold Printable; decide
  | .str s, d, t, h => by
    cases h
    exact dumpStr_printable s
  | .object n, d, t, h => by cases h
  | .list l, d, t, h => by
    obtain ⟨e, ts, -, hts, rfl⟩ := dump_list h
    exact .cons (by decide) ((dumpItems_printable l hts).append (.cons (by decide) .nil))
  | .dict es, d, t, h => by
    obtain ⟨e, ts, -, hts, rfl⟩ := dump_dict h
    exact .cons (by decide) ((dumpEntries_printable es hts).append (.cons (by decide) .nil))
  termination_by structural v => v

theorem dumpItems_printable : ∀ (l : List Value) {d : Nat} {t : Str},
    dumpItems d l = .ok t → Printable t
  | [], d, t, h => by
    cases h
    exact .nil
  | v :: vs, d, t, h => by
    obtain ⟨u, us, hu, hus, rfl⟩ := dumpItems_cons h
    have h1 := dump_printable v hu
    have h2 := dumpItems_printable vs hus
    split
    · exact h1
    · exact h1.append (.cons (by decide) h2)
  termination_by structural l => l

theorem dumpEntries_printable : ∀ (es : List (Key × Value)) {d : Nat} {t : Str},
    dumpEntries d es = .ok t → Printable t
  | [], d, t, h => by
    cases h
    exact .nil
  | (k, v) :: es, d, t, h => by
    obtain ⟨q, u, us, -, hu, hus, rfl⟩ := dumpEntries_cons h
    have h1 := dump_printable v hu
    have h2 := dumpEntries_printable es hus
    refine (dumpStr_printable q).append (.cons (by decide) ?_)
    split
    · exact h1
    · exact h1.append (.cons (by decide) h2)
  termination_by structural es => es
end

namespace Interpreter

/-- `json.loads` of an encoded value, with or without the newline of its frame. -/
theorem loads_dumpWith (py : Interpreter) {pad : Str} (hpad : ∀ c ∈ pad, isSpace c = true) {d : Nat}
    {v : Value} {t s : Str} (h : dumpWith pad d v = .ok t) (hs : s = [] ∨ s = [10]) :
    py.loads (t ++ s) =
      if depth v ≤ py.nesting then .ok (image py.floatOf v) else .error .recursion := by
  obtain ⟨c, r, rfl, hsp, -, -, hc⟩ := dumpWith_head h
  have hstop : Stop s := by
    rcases hs with rfl | rfl
    · exact .nil
    · exact .cons (by decide)
  have hrest : (skipSpace s).isEmpty = true := by
    rcases hs with rfl | rfl <;> decide
  have hscan := scanOnce_dumpWith hpad py.floatOf v (2 * (c :: r ++ s).length + 2) py.nesting h
    hstop (by simp only [List.length_append]; omega)
  simp only [List.cons_append] at hscan ⊢
  unfold loads
  split
  · rename_i he
    cases he
    omega
  · simp only [skipSpace_cons hsp]
    rw [hscan]
    unfold readBack
    by_cases hd : depth v ≤ py.nesting
    · simp only [hd, if_true, ok_bind, hrest]
      rfl
    · simp only [hd, if_false]
      rfl

theorem loads_dump (py : Interpreter) {d : Nat} {v : Value} {t s : Str} (h : dump d v = .ok t)
    (hs : s = [] ∨ s = [10]) :
    py.loads (t ++ s) =
      if depth v ≤ py.nesting then .ok (image py.floatOf v) else .error .recursion := by
  rw [← dumpWith_nil] at h
  exact py.loads_dumpWith (by simp) h hs

end Interpreter

end KestrelSdk.Json
