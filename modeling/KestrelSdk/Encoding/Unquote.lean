import KestrelSdk.Json.Bytes
import Mathlib.Data.List.Forall2
import Mathlib.Data.List.TakeWhile
import Mathlib.Logic.Function.Iterate

/-! `urllib.parse.unquote`, and the texts for which one pass of it is all there is. -/

namespace KestrelSdk.Encoding

open Json (Str Bytes hexValue isTail decodeTwo decodeThree decodeFour)

/-- Whether `b` continues a character of three or four bytes that starts with `a`. -/
def continues (a b : UInt8) : Bool :=
  isTail b &&
    ((0xE0 ≤ a && a ≤ 0xEF && !(a == 0xE0 && b < 0xA0) && !(a == 0xED && 0x9F < b)) ||
      (0xF0 ≤ a && a ≤ 0xF4 && !(a == 0xF0 && b < 0x90) && !(a == 0xF4 && 0x8F < b)))

/-- `bytes.decode("utf-8", "replace")`: U+FFFD stands for each longest start of a character that is
not completed, and for each other byte that starts none. -/
def decodeReplace : Bytes → Str
  | [] => []
  | a :: s =>
    if a < 0x80 then a.toNat :: decodeReplace s
    else
      match s with
      | [] => [0xFFFD]
      | b :: s₁ =>
        match decodeTwo a b with
        | some u => u :: decodeReplace s₁
        | none =>
          if continues a b then
            match s₁ with
            | [] => [0xFFFD]
            | c :: s₂ =>
              match decodeThree a b c with
              | some u => u :: decodeReplace s₂
              | none =>
                if 0xF0 ≤ a && isTail c then
                  match s₂ with
                  | [] => [0xFFFD]
                  | d :: s₃ =>
                    match decodeFour a b c d with
                    | some u => u :: decodeReplace s₃
                    | none => 0xFFFD :: decodeReplace (d :: s₃)
                else 0xFFFD :: decodeReplace (c :: s₂)
          else 0xFFFD :: decodeReplace (b :: s₁)

/-- `unquote_to_bytes` of ASCII text. -/
def unquoteToBytes : Str → Bytes
  | 37 :: a :: b :: s =>
    match hexValue a, hexValue b with
    | some x, some y => .ofNat (16 * x + y) :: unquoteToBytes s
    | _, _ => 37 :: unquoteToBytes (a :: b :: s)
  | c :: s => .ofNat c :: unquoteToBytes s
  | [] => []

/-- The parts of `unquote` after the ASCII text `run`: the escapes of each run of ASCII text are read
together. -/
def unquoteParts (run : Str) : Str → Str
  | [] => decodeReplace (unquoteToBytes run)
  | c :: s =>
    if c < 128 then unquoteParts (run ++ [c]) s
    else decodeReplace (unquoteToBytes run) ++ c :: unquoteParts [] s

/-- `unquote`. -/
def unquote (s : Str) : Str := if s.contains 37 then unquoteParts [] s else s

/-! Texts whose escapes stand for characters of their own. -/

/-- `t` is `s` with its escapes read, each of which stands for a character with `ok`. -/
inductive Quoted (ok : Nat → Bool) : Str → Str → Prop
  | nil : Quoted ok [] []
  | plain {c : Nat} {s t : Str} (hc : c ≠ 37) (h : Quoted ok s t) : Quoted ok (c :: s) (c :: t)
  | escape {a b x y : Nat} {s t : Str} (ha : hexValue a = some x) (hb : hexValue b = some y)
      (hok : ok (16 * x + y) = true) (h : Quoted ok s t) :
      Quoted ok (37 :: a :: b :: s) ((16 * x + y) :: t)

section Quoted

variable {ok : Nat → Bool} {s t : Str}

theorem hexValue_range {a x : Nat} (h : hexValue a = some x) :
    (48 ≤ a ∧ a ≤ 57 ∨ 65 ≤ a ∧ a ≤ 70 ∨ 97 ≤ a ∧ a ≤ 102) ∧ x < 16 := by
  unfold hexValue at h
  split at h
  · cases h
    omega
  · split at h
    · cases h
      omega
    · split at h
      · cases h
        omega
      · cases h

theorem decodeReplace_ascii (h : ∀ c ∈ s, c < 128) : decodeReplace (s.map UInt8.ofNat) = s := by
  induction s with
  | nil => rfl
  | cons c s ih =>
    have hc := h c List.mem_cons_self
    have hlt : UInt8.ofNat c < 0x80 := by
      rw [UInt8.lt_iff_toNat_lt, UInt8.toNat_ofNat']
      show c % 256 < 128
      omega
    have hnat : (UInt8.ofNat c).toNat = c := by
      rw [UInt8.toNat_ofNat']
      omega
    rw [List.map_cons, decodeReplace.eq_def]
    simp only [if_pos hlt, hnat, ih fun d hd => h d (List.mem_cons_of_mem c hd)]

theorem unquoteParts_ascii (run : Str) (h : ∀ c ∈ s, c < 128) :
    unquoteParts run s = decodeReplace (unquoteToBytes (run ++ s)) := by
  induction s generalizing run with
  | nil => rw [unquoteParts, List.append_nil]
  | cons c s ih =>
    have hc := h c List.mem_cons_self
    rw [unquoteParts, if_pos hc, ih (run ++ [c]) fun d hd => h d (List.mem_cons_of_mem c hd),
      List.append_assoc]
    rfl

theorem unquoteToBytes_plain {c : Nat} (hc : c ≠ 37) (s : Str) :
    unquoteToBytes (c :: s) = .ofNat c :: unquoteToBytes s := by
  rw [unquoteToBytes.eq_def]
  split
  case h_1 heq => exact absurd (List.cons.inj heq).1 hc
  case h_2 heq =>
    obtain ⟨rfl, rfl⟩ := List.cons.inj heq
    rfl
  case h_3 heq => cases heq

theorem Quoted.bytes (h : Quoted ok s t) : unquoteToBytes s = t.map UInt8.ofNat := by
  induction h with
  | nil => rfl
  | plain hc h ih => rw [unquoteToBytes_plain hc, ih, List.map_cons]
  | escape ha hb hok h ih =>
    rw [List.map_cons, ← ih]
    simp only [unquoteToBytes, ha, hb]

/-- Reading the escapes gives characters of the text or those that escapes stand for. -/
theorem Quoted.chars (h : Quoted ok s t) : ∀ c ∈ t, (c ∈ s ∧ c ≠ 37) ∨ ok c = true := by
  induction h with
  | nil => simp
  | plain hc h ih =>
    intro d hd
    obtain rfl | hd := List.mem_cons.1 hd
    · exact .inl ⟨List.mem_cons_self, hc⟩
    · obtain ⟨hmem, hne⟩ | hok := ih d hd
      · exact .inl ⟨List.mem_cons_of_mem _ hmem, hne⟩
      · exact .inr hok
  | escape ha hb hok h ih =>
    intro d hd
    obtain rfl | hd := List.mem_cons.1 hd
    · exact .inr hok
    · obtain ⟨hmem, hne⟩ | hok := ih d hd
      · exact .inl ⟨by simp [hmem], hne⟩
      · exact .inr hok

/-- One pass of `unquote` reads the escapes of ASCII text. -/
theorem Quoted.unquote (h : Quoted ok s t) (hs : ∀ c ∈ s, c < 128)
    (hok : ∀ c, ok c = true → c < 128) : unquote s = t := by
  have ht : ∀ c ∈ t, c < 128 := by
    intro c hc
    obtain ⟨hmem, _⟩ | hc := h.chars c hc
    · exact hs c hmem
    · exact hok c hc
  have hparts : unquoteParts [] s = t := by
    rw [unquoteParts_ascii [] hs, List.nil_append, h.bytes, decodeReplace_ascii ht]
  unfold Encoding.unquote
  split
  case isTrue => exact hparts
  case isFalse hno =>
    have hplain : ∀ {s t : Str}, Quoted ok s t → s.contains 37 = false → s = t := by
      intro s t h
      induction h with
      | nil => exact fun _ => rfl
      | plain hc h ih =>
        intro hno
        simp only [List.contains_cons, Bool.or_eq_false_iff] at hno
        rw [ih hno.2]
      | escape => simp
    exact hplain h (by simpa using hno)

/-- No pass changes a text without escapes. -/
theorem unquote_of_none (h : 37 ∉ s) : unquote s = s := by
  unfold unquote
  rw [if_neg]
  simpa using h

/-- Where no escape stands for a percent sign, all further passes leave the text as the first one. -/
theorem Quoted.iterate (h : Quoted ok s t) (hs : ∀ c ∈ s, c < 128)
    (hok : ∀ c, ok c = true → c < 128 ∧ c ≠ 37) (n : Nat) : Encoding.unquote^[n + 1] s = t := by
  have hfixed : Encoding.unquote t = t := by
    apply unquote_of_none
    intro hmem
    obtain ⟨_, hne⟩ | hc := h.chars 37 hmem
    · exact hne rfl
    · exact (hok 37 hc).2 rfl
  rw [Function.iterate_succ_apply, h.unquote hs fun c hc => (hok c hc).1]
  exact Function.iterate_fixed hfixed n

/-- Where no escape stands for the separator, the segments are those of the text with their escapes
read. -/
theorem Quoted.segments (h : Quoted ok s t) {sep : Nat} (hsep : sep ≠ 37)
    (hhex : ∀ a x, hexValue a = some x → a ≠ sep) (hok : ∀ c, ok c = true → c ≠ sep) :
    List.Forall₂ (Quoted ok) (s.splitOn sep) (t.splitOn sep) := by
  have hcons : ∀ (c : Nat) (u : Str), List.splitOn sep (c :: u) =
      if c = sep then [] :: u.splitOn sep else (u.splitOn sep).modifyHead (c :: ·) := by
    intro c u
    simp only [List.splitOn, List.splitOnP_cons_eq_if_modifyHead, beq_iff_eq]
  induction h with
  | nil => exact .cons .nil .nil
  | @plain c s t hc h ih =>
    rw [hcons, hcons]
    generalize s.splitOn sep = us at ih ⊢
    generalize t.splitOn sep = vs at ih ⊢
    by_cases heq : c = sep
    · rw [if_pos heq, if_pos heq]
      exact .cons .nil ih
    · rw [if_neg heq, if_neg heq]
      cases ih with
      | nil => exact .nil
      | cons hhead htail => exact .cons (.plain hc hhead) htail
  | @escape a b x y s t ha hb hxy h ih =>
    rw [hcons, hcons, hcons, hcons, if_neg hsep.symm, if_neg (hhex a x ha), if_neg (hhex b y hb),
      if_neg (hok _ hxy)]
    generalize s.splitOn sep = us at ih ⊢
    generalize t.splitOn sep = vs at ih ⊢
    cases ih with
    | nil => exact .nil
    | cons hhead htail => exact .cons (.escape ha hb hxy hhead) htail

end Quoted

theorem exists_of_forall₂ {α β : Type*} {r : α → β → Prop} {xs : List α} {ys : List β}
    (h : List.Forall₂ r xs ys) {x : α} (hx : x ∈ xs) : ∃ y ∈ ys, r x y := by
  induction h with
  | nil => cases hx
  | cons hr h ih =>
    obtain rfl | hx := List.mem_cons.1 hx
    · exact ⟨_, List.mem_cons_self, hr⟩
    · obtain ⟨y, hy, hxy⟩ := ih hx
      exact ⟨y, List.mem_cons_of_mem _ hy, hxy⟩

end KestrelSdk.Encoding
