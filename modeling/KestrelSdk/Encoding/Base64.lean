import Mathlib.Data.List.Basic
import Mathlib.Tactic.Ring

namespace KestrelSdk.Base64

abbrev Bytes := List UInt8

/-- The letter of a sextet. -/
def letter (n : Nat) : UInt8 :=
  if n < 26 then .ofNat (65 + n)
  else if n < 52 then .ofNat (71 + n)
  else if n < 62 then .ofNat (n - 4)
  else if n = 62 then 43
  else 47

/-- `table_a2b_base64`; `none` is a byte outside the alphabet. -/
def sextet (c : UInt8) : Option Nat :=
  if 65 ≤ c.toNat ∧ c.toNat ≤ 90 then some (c.toNat - 65)
  else if 97 ≤ c.toNat ∧ c.toNat ≤ 122 then some (c.toNat - 71)
  else if 48 ≤ c.toNat ∧ c.toNat ≤ 57 then some (c.toNat + 4)
  else if c = 43 then some 62
  else if c = 47 then some 63
  else none

/-- `=`. -/
def pad : UInt8 := 61

/-- `binascii.b2a_base64(s, newline=False)`. -/
def encode : Bytes → Bytes
  | a :: b :: c :: s =>
    letter (a.toNat / 4) :: letter (a.toNat % 4 * 16 + b.toNat / 16) ::
      letter (b.toNat % 16 * 4 + c.toNat / 64) :: letter (c.toNat % 64) :: encode s
  | [a, b] =>
    [letter (a.toNat / 4), letter (a.toNat % 4 * 16 + b.toNat / 16), letter (b.toNat % 16 * 4), pad]
  | [a] => [letter (a.toNat / 4), letter (a.toNat % 4 * 16), pad, pad]
  | [] => []

/-- The encoding with `t` in the bits of the last letter that carry no byte. -/
def encodeSpare (t : Nat) : Bytes → Bytes
  | a :: b :: c :: s =>
    letter (a.toNat / 4) :: letter (a.toNat % 4 * 16 + b.toNat / 16) ::
      letter (b.toNat % 16 * 4 + c.toNat / 64) :: letter (c.toNat % 64) :: encodeSpare t s
  | [a, b] =>
    [letter (a.toNat / 4), letter (a.toNat % 4 * 16 + b.toNat / 16),
      letter (b.toNat % 16 * 4 + t), pad]
  | [a] => [letter (a.toNat / 4), letter (a.toNat % 4 * 16 + t), pad, pad]
  | [] => []

/-- What differs between releases of `binascii`: whether its strict mode lets padding follow a
complete quad. -/
structure Release where
  laxPadding : Bool

/-- The loop of `binascii.a2b_base64`; `none` is `binascii.Error`. `quad` letters of the current
quad are read, `left` holds their bits that made no byte yet. -/
def decodeLoop (rel : Release) (strict : Bool) (quad left pads : Nat) (started : Bool) :
    Bytes → Option Bytes
  | [] => if quad = 0 then some [] else none
  | c :: s =>
    if c = pad then
      if strict && quad == 0 && !rel.laxPadding then none
      else if quad < 2 then decodeLoop rel strict quad left pads true s
      else if quad + (pads + 1) < 4 then decodeLoop rel strict quad left (pads + 1) true s
      else if strict && !s.isEmpty then none
      else some []
    else
      match sextet c with
      | none => if strict then none else decodeLoop rel strict quad left pads started s
      | some v =>
        if strict && started then none
        else
          match quad with
          | 0 => decodeLoop rel strict 1 v 0 started s
          | 1 => (decodeLoop rel strict 2 (v % 16) 0 started s).map
              (UInt8.ofNat (left * 4 + v / 16) :: ·)
          | 2 => (decodeLoop rel strict 3 (v % 4) 0 started s).map
              (UInt8.ofNat (left * 16 + v / 4) :: ·)
          | _ => (decodeLoop rel strict 0 0 0 started s).map (UInt8.ofNat (left * 64 + v) :: ·)

theorem decodeLoop_nil (rel : Release) (strict : Bool) (quad left pads : Nat) (started : Bool) :
    decodeLoop rel strict quad left pads started [] = if quad = 0 then some [] else none :=
  rfl

theorem decodeLoop_cons (rel : Release) (strict : Bool) (quad left pads : Nat) (started : Bool)
    (c : UInt8) (s : Bytes) :
    decodeLoop rel strict quad left pads started (c :: s) =
      if c = pad then
        if strict && quad == 0 && !rel.laxPadding then none
        else if quad < 2 then decodeLoop rel strict quad left pads true s
        else if quad + (pads + 1) < 4 then decodeLoop rel strict quad left (pads + 1) true s
        else if strict && !s.isEmpty then none
        else some []
      else
        match sextet c with
        | none => if strict then none else decodeLoop rel strict quad left pads started s
        | some v =>
          if strict && started then none
          else
            match quad with
            | 0 => decodeLoop rel strict 1 v 0 started s
            | 1 => (decodeLoop rel strict 2 (v % 16) 0 started s).map
                (UInt8.ofNat (left * 4 + v / 16) :: ·)
            | 2 => (decodeLoop rel strict 3 (v % 4) 0 started s).map
                (UInt8.ofNat (left * 16 + v / 4) :: ·)
            | _ => (decodeLoop rel strict 0 0 0 started s).map (UInt8.ofNat (left * 64 + v) :: ·) :=
  rfl

/-- `binascii.a2b_base64(s, strict_mode=strict)`. -/
def decode (rel : Release) (strict : Bool) (s : Bytes) : Option Bytes :=
  if strict && s.head? == some pad then none else decodeLoop rel strict 0 0 0 false s

/-! Letters and sextets. -/

theorem letter_spec : ∀ n < 64, sextet (letter n) = some n ∧ letter n ≠ pad := by decide

theorem sextet_letter {n : Nat} (h : n < 64) : sextet (letter n) = some n := (letter_spec n h).1

theorem letter_ne_pad {n : Nat} (h : n < 64) : letter n ≠ pad := (letter_spec n h).2

theorem letter_inj {m n : Nat} (hm : m < 64) (hn : n < 64) (h : letter m = letter n) : m = n := by
  have heq := sextet_letter hm
  rw [h, sextet_letter hn] at heq
  exact (Option.some.inj heq).symm

theorem sextet_spec : ∀ n < 256,
    (sextet (.ofNat n)).all fun v => v < 64 && letter v == UInt8.ofNat n := by
  decide +kernel

theorem letter_sextet {c : UInt8} {v : Nat} (h : sextet c = some v) : v < 64 ∧ letter v = c := by
  have hall := sextet_spec c.toNat c.toNat_lt
  rw [UInt8.ofNat_toNat, h] at hall
  simpa using hall

theorem sextet_pad : sextet pad = none := by decide

/-! One quad of the strict loop. -/

section Strict

variable {rel : Release} {left pads : Nat} {s f : Bytes} {c : UInt8} {v : Nat}

/-- A letter after padding ends the strict loop, and so does the end of the text inside a quad. -/
theorem strict_started_one : decodeLoop rel true 1 left pads true s = none := by
  induction s with
  | nil => rfl
  | cons c s ih =>
    rw [decodeLoop_cons]
    by_cases hc : c = pad
    · simp [hc, ih]
    · cases hv : sextet c <;> simp [hc]

theorem strict_started_two :
    decodeLoop rel true 2 left 1 true s = some f ↔ s = [pad] ∧ f = [] := by
  cases s with
  | nil => simp [decodeLoop_nil]
  | cons c s =>
    rw [decodeLoop_cons]
    by_cases hc : c = pad
    · cases s <;> simp [hc, eq_comm]
    · cases hv : sextet c <;> simp [hc]

theorem strict_started_zero (hlax : rel.laxPadding = true) :
    decodeLoop rel true 0 left pads true s = some f ↔ (∀ c ∈ s, c = pad) ∧ f = [] := by
  induction s with
  | nil => simp [decodeLoop_nil, eq_comm]
  | cons c s ih =>
    rw [decodeLoop_cons]
    by_cases hc : c = pad
    · simp [hc, hlax, ih]
    · cases hv : sextet c <;> simp [hc]

/-- A letter at each place of the quad. -/
theorem decodeLoop_zero {b : Bool} (h : sextet c = some v) :
    decodeLoop rel b 0 left pads false (c :: s) = decodeLoop rel b 1 v 0 false s := by
  have hc : c ≠ pad := by
    rintro rfl
    cases h
  simp [decodeLoop_cons, hc, h]

theorem decodeLoop_one {b : Bool} (h : sextet c = some v) :
    decodeLoop rel b 1 left pads false (c :: s) =
      (decodeLoop rel b 2 (v % 16) 0 false s).map (UInt8.ofNat (left * 4 + v / 16) :: ·) := by
  have hc : c ≠ pad := by
    rintro rfl
    cases h
  simp [decodeLoop_cons, hc, h]

theorem decodeLoop_two {b : Bool} (h : sextet c = some v) :
    decodeLoop rel b 2 left pads false (c :: s) =
      (decodeLoop rel b 3 (v % 4) 0 false s).map (UInt8.ofNat (left * 16 + v / 4) :: ·) := by
  have hc : c ≠ pad := by
    rintro rfl
    cases h
  simp [decodeLoop_cons, hc, h]

theorem decodeLoop_three {b : Bool} (h : sextet c = some v) :
    decodeLoop rel b 3 left pads false (c :: s) =
      (decodeLoop rel b 0 0 0 false s).map (UInt8.ofNat (left * 64 + v) :: ·) := by
  have hc : c ≠ pad := by
    rintro rfl
    cases h
  simp [decodeLoop_cons, hc, h]

/-- What the strict loop reads: whole quads, then at most one padded quad. -/
inductive Reads (rel : Release) : Bytes → Bytes → Prop
  | done : Reads rel [] []
  | excess {s : Bytes} : rel.laxPadding = true → (∀ c ∈ s, c = pad) → Reads rel s []
  | one {v w : Nat} : v < 64 → w < 64 →
      Reads rel [letter v, letter w, pad, pad] [.ofNat (v * 4 + w / 16)]
  | two {v w x : Nat} : v < 64 → w < 64 → x < 64 →
      Reads rel [letter v, letter w, letter x, pad]
        [.ofNat (v * 4 + w / 16), .ofNat (w % 16 * 16 + x / 4)]
  | quad {v w x y : Nat} {s f : Bytes} : v < 64 → w < 64 → x < 64 → y < 64 → Reads rel s f →
      Reads rel (letter v :: letter w :: letter x :: letter y :: s)
        (.ofNat (v * 4 + w / 16) :: .ofNat (w % 16 * 16 + x / 4) :: .ofNat (x % 4 * 64 + y) :: f)

theorem decodeLoop_pads {b started : Bool} (hlax : rel.laxPadding = true)
    (hs : ∀ c ∈ s, c = pad) : decodeLoop rel b 0 left pads started s = some [] := by
  induction s generalizing started with
  | nil => rfl
  | cons c s ih =>
    have hc : c = pad := hs c (List.mem_cons_self ..)
    simp [decodeLoop_cons, hc, hlax, ih fun x hx => hs x (List.mem_cons_of_mem c hx)]

/-- The loop reads such a text in both modes. -/
theorem decodeLoop_of_reads (b : Bool) (h : Reads rel s f) :
    decodeLoop rel b 0 0 0 false s = some f := by
  induction h with
  | done => rfl
  | excess hlax hs => exact decodeLoop_pads hlax hs
  | one hv hw =>
    rw [decodeLoop_zero (sextet_letter hv), decodeLoop_one (sextet_letter hw)]
    simp [decodeLoop_cons]
  | two hv hw hx =>
    rw [decodeLoop_zero (sextet_letter hv), decodeLoop_one (sextet_letter hw),
      decodeLoop_two (sextet_letter hx)]
    simp [decodeLoop_cons]
  | quad hv hw hx hy hs ih =>
    rw [decodeLoop_zero (sextet_letter hv), decodeLoop_one (sextet_letter hw),
      decodeLoop_two (sextet_letter hx), decodeLoop_three (sextet_letter hy), ih]
    rfl

/-- Each place of the quad takes a letter or, from the third on, the padding. -/
theorem strict_place {quad : Nat} (h : decodeLoop rel true quad left 0 false (c :: s) = some f) :
    c = pad ∨ ∃ v, v < 64 ∧ c = letter v := by
  by_cases hc : c = pad
  · exact .inl hc
  · cases hv : sextet c with
    | none => simp [decodeLoop_cons, hc, hv] at h
    | some v =>
      obtain ⟨hlt, hl⟩ := letter_sextet hv
      exact .inr ⟨v, hlt, hl.symm⟩

theorem strict_three (h : decodeLoop rel true 3 left 0 false s = some f) :
    (s = [pad] ∧ f = []) ∨ ∃ y s' g, y < 64 ∧ s = letter y :: s' ∧
      decodeLoop rel true 0 0 0 false s' = some g ∧ f = .ofNat (left * 64 + y) :: g := by
  cases s with
  | nil => simp [decodeLoop_nil] at h
  | cons c s =>
    obtain rfl | ⟨y, hy, rfl⟩ := strict_place h
    · cases s <;> simp [decodeLoop_cons] at h
      exact .inl ⟨rfl, h⟩
    · rw [decodeLoop_three (sextet_letter hy)] at h
      obtain ⟨g, hg, rfl⟩ := Option.map_eq_some_iff.1 h
      exact .inr ⟨y, s, g, hy, rfl, hg, rfl⟩

theorem strict_two (h : decodeLoop rel true 2 left 0 false s = some f) :
    (s = [pad, pad] ∧ f = []) ∨ ∃ x s' g, x < 64 ∧ s = letter x :: s' ∧
      decodeLoop rel true 3 (x % 4) 0 false s' = some g ∧ f = .ofNat (left * 16 + x / 4) :: g := by
  cases s with
  | nil => simp [decodeLoop_nil] at h
  | cons c s =>
    obtain rfl | ⟨x, hx, rfl⟩ := strict_place h
    · have hrest : decodeLoop rel true 2 left 1 true s = some f := by
        simpa [decodeLoop_nil, decodeLoop_cons] using h
      obtain ⟨rfl, rfl⟩ := strict_started_two.1 hrest
      exact .inl ⟨rfl, rfl⟩
    · rw [decodeLoop_two (sextet_letter hx)] at h
      obtain ⟨g, hg, rfl⟩ := Option.map_eq_some_iff.1 h
      exact .inr ⟨x, s, g, hx, rfl, hg, rfl⟩

theorem strict_one (h : decodeLoop rel true 1 left 0 false s = some f) :
    ∃ w s' g, w < 64 ∧ s = letter w :: s' ∧
      decodeLoop rel true 2 (w % 16) 0 false s' = some g ∧ f = .ofNat (left * 4 + w / 16) :: g := by
  cases s with
  | nil => simp [decodeLoop_nil] at h
  | cons c s =>
    obtain rfl | ⟨w, hw, rfl⟩ := strict_place h
    · simp [decodeLoop_cons, strict_started_one] at h
    · rw [decodeLoop_one (sextet_letter hw)] at h
      obtain ⟨g, hg, rfl⟩ := Option.map_eq_some_iff.1 h
      exact ⟨w, s, g, hw, rfl, hg, rfl⟩

theorem reads_of_decodeLoop (h : decodeLoop rel true 0 0 0 false s = some f) : Reads rel s f := by
  induction hn : s.length using Nat.strong_induction_on generalizing s f with
  | _ n ih =>
    cases s with
    | nil =>
      obtain rfl : [] = f := by simpa [decodeLoop_nil, decodeLoop_cons] using h
      exact .done
    | cons c s =>
      obtain rfl | ⟨v, hv, rfl⟩ := strict_place h
      · have hlax : rel.laxPadding = true := by
          by_contra hlax
          simp [decodeLoop_cons, hlax] at h
        have hrest : decodeLoop rel true 0 0 0 true s = some f := by
          simpa [decodeLoop_nil, decodeLoop_cons, hlax] using h
        obtain ⟨hs, rfl⟩ := (strict_started_zero hlax).1 hrest
        apply Reads.excess hlax
        intro x hx
        obtain rfl | hx := List.mem_cons.1 hx
        · rfl
        · exact hs x hx
      · rw [decodeLoop_zero (sextet_letter hv)] at h
        obtain ⟨w, s1, g1, hw, rfl, h1, rfl⟩ := strict_one h
        obtain ⟨rfl, rfl⟩ | ⟨x, s2, g2, hx, rfl, h2, rfl⟩ := strict_two h1
        · exact .one hv hw
        · obtain ⟨rfl, rfl⟩ | ⟨y, s3, g3, hy, rfl, h3, rfl⟩ := strict_three h2
          · exact .two hv hw hx
          · have hlen : s3.length < n := by
              simp only [List.length_cons] at hn
              omega
            exact .quad hv hw hx hy (ih s3.length hlen h3 rfl)

/-- Strict mode accepts exactly the texts that `Reads` describes. -/
theorem decode_strict_iff :
    decode rel true s = some f ↔ s.head? ≠ some pad ∧ Reads rel s f := by
  unfold decode
  by_cases hs : s.head? = some pad
  · simp [hs]
  · simp only [hs, Bool.true_and, beq_iff_eq, if_false, ne_eq, not_false_eq_true, true_and]
    exact ⟨reads_of_decodeLoop, decodeLoop_of_reads true⟩

end Strict

/-! Encoding and reading. -/

section RoundTrip

variable {rel : Release} {s f : Bytes}

/-- A text whose length is a multiple of three has one strict reading, where padding may not follow
a complete quad. -/
theorem Reads.eq_encode (hlax : rel.laxPadding = false) (h : Reads rel s f)
    (hthree : f.length % 3 = 0) : s = encode f := by
  induction h with
  | done => rfl
  | excess hl => simp [hl] at hlax
  | one => simp at hthree
  | two => simp at hthree
  | @quad v w x y s f hv hw hx hy hs ih =>
    have hf : f.length % 3 = 0 := by
      simp only [List.length_cons] at hthree
      omega
    have ha : (UInt8.ofNat (v * 4 + w / 16)).toNat = v * 4 + w / 16 := by
      rw [UInt8.toNat_ofNat']
      omega
    have hb : (UInt8.ofNat (w % 16 * 16 + x / 4)).toNat = w % 16 * 16 + x / 4 := by
      rw [UInt8.toNat_ofNat']
      omega
    have hc : (UInt8.ofNat (x % 4 * 64 + y)).toNat = x % 4 * 64 + y := by
      rw [UInt8.toNat_ofNat']
      omega
    rw [encode, ha, hb, hc, ← ih hf, show (v * 4 + w / 16) / 4 = v by omega,
      show (v * 4 + w / 16) % 4 * 16 + (w % 16 * 16 + x / 4) / 16 = w by omega,
      show (w % 16 * 16 + x / 4) % 16 * 4 + (x % 4 * 64 + y) / 64 = x by omega,
      show (x % 4 * 64 + y) % 64 = y by omega]

/-- Three bytes are one quad. -/
theorem Reads.group (h : Reads rel s f) (a b c : UInt8) :
    Reads rel (letter (a.toNat / 4) :: letter (a.toNat % 4 * 16 + b.toNat / 16) ::
      letter (b.toNat % 16 * 4 + c.toNat / 64) :: letter (c.toNat % 64) :: s) (a :: b :: c :: f) := by
  have ha := a.toNat_lt
  have hb := b.toNat_lt
  have hc := c.toNat_lt
  have hread := Reads.quad (v := a.toNat / 4) (w := a.toNat % 4 * 16 + b.toNat / 16)
    (x := b.toNat % 16 * 4 + c.toNat / 64) (y := c.toNat % 64) (by omega) (by omega) (by omega)
    (by omega) h
  rw [show a.toNat / 4 * 4 + (a.toNat % 4 * 16 + b.toNat / 16) / 16 = a.toNat by omega,
    show (a.toNat % 4 * 16 + b.toNat / 16) % 16 * 16 + (b.toNat % 16 * 4 + c.toNat / 64) / 4 =
      b.toNat by omega,
    show (b.toNat % 16 * 4 + c.toNat / 64) % 4 * 64 + c.toNat % 64 = c.toNat by omega,
    UInt8.ofNat_toNat, UInt8.ofNat_toNat, UInt8.ofNat_toNat] at hread
  exact hread

theorem encodeSpare_zero (f : Bytes) : encodeSpare 0 f = encode f := by
  induction f using encode.induct with
  | case1 a b c s ih => rw [encodeSpare, encode, ih]
  | case2 a b => rfl
  | case3 a => rfl
  | case4 => rfl

/-- The spare bits are not read. -/
theorem reads_encodeSpare {t : Nat} (ht : t < 4) (f : Bytes) : Reads rel (encodeSpare t f) f := by
  induction f using encode.induct with
  | case1 a b c s ih =>
    exact ih.group a b c
  | case2 a b =>
    have ha := a.toNat_lt
    have hb := b.toNat_lt
    have hread : Reads rel _ _ := .two (v := a.toNat / 4) (w := a.toNat % 4 * 16 + b.toNat / 16)
      (x := b.toNat % 16 * 4 + t) (by omega) (by omega) (by omega)
    rw [show a.toNat / 4 * 4 + (a.toNat % 4 * 16 + b.toNat / 16) / 16 = a.toNat by omega,
      show (a.toNat % 4 * 16 + b.toNat / 16) % 16 * 16 + (b.toNat % 16 * 4 + t) / 4 = b.toNat by
        omega,
      UInt8.ofNat_toNat, UInt8.ofNat_toNat] at hread
    exact hread
  | case3 a =>
    have ha := a.toNat_lt
    have hread : Reads rel _ _ := .one (v := a.toNat / 4) (w := a.toNat % 4 * 16 + t) (by omega)
      (by omega)
    rw [show a.toNat / 4 * 4 + (a.toNat % 4 * 16 + t) / 16 = a.toNat by omega,
      UInt8.ofNat_toNat] at hread
    exact hread
  | case4 => exact .done

theorem reads_encode (f : Bytes) : Reads rel (encode f) f := by
  rw [← encodeSpare_zero]
  exact reads_encodeSpare (by omega) f

/-- Where bytes are left over, the spare bits make a second text. -/
theorem encodeSpare_ne {f : Bytes} (hthree : f.length % 3 ≠ 0) : encodeSpare 1 f ≠ encode f := by
  induction f using encode.induct with
  | case1 a b c s ih =>
    intro heq
    simp only [encodeSpare, encode, List.cons.injEq, true_and] at heq
    apply ih _ heq
    simp only [List.length_cons] at hthree
    omega
  | case2 a b =>
    intro heq
    simp only [encodeSpare, encode, List.cons.injEq, true_and, and_true] at heq
    have hsame := letter_inj (by omega) (by omega) heq
    omega
  | case3 a =>
    intro heq
    simp only [encodeSpare, encode, List.cons.injEq, true_and, and_true] at heq
    have hsame := letter_inj (by omega) (by omega) heq
    omega
  | case4 => simp at hthree

/-- A lax release reads padding after complete quads as nothing. -/
theorem reads_encode_pad (hlax : rel.laxPadding = true) {f : Bytes} (hthree : f.length % 3 = 0) :
    Reads rel (encode f ++ [pad]) f := by
  induction f using encode.induct with
  | case1 a b c s ih =>
    have hs : s.length % 3 = 0 := by
      simp only [List.length_cons] at hthree
      omega
    exact (ih hs).group a b c
  | case2 a b => simp at hthree
  | case3 a => simp at hthree
  | case4 => exact .excess hlax (by simp [encode])

theorem head_encodeSpare (t : Nat) (f : Bytes) : (encodeSpare t f).head? ≠ some pad := by
  match f with
  | a :: _ :: _ :: _ | [a, _] | [a] =>
    have hne := letter_ne_pad (n := a.toNat / 4) (by have ha := a.toNat_lt; omega)
    simpa [encodeSpare] using hne
  | [] => simp [encodeSpare]

/-- Both modes read the encoding back. -/
theorem decode_encoded (b : Bool) (f : Bytes) : decode rel b (encode f) = some f := by
  have hhead := head_encodeSpare 0 f
  rw [encodeSpare_zero] at hhead
  unfold decode
  rw [if_neg (by simp [hhead])]
  exact decodeLoop_of_reads b (reads_encode f)

theorem encode_length (f : Bytes) : (encode f).length = 4 * ((f.length + 2) / 3) := by
  match f with
  | a :: b :: c :: s =>
    have := encode_length s
    simp only [encode, List.length_cons]
    omega
  | [a, b] => simp [encode]
  | [a] => simp [encode]
  | [] => rfl

/-- Letters and padding are printable, and neither a quote nor a backslash. -/
theorem encode_plain (f : Bytes) :
    ∀ c ∈ encode f, 43 ≤ c.toNat ∧ c.toNat ≤ 122 ∧ c.toNat ≠ 92 := by
  have hletter : ∀ n < 64, 43 ≤ (letter n).toNat ∧ (letter n).toNat ≤ 122 ∧
      (letter n).toNat ≠ 92 := by decide
  have hpad : 43 ≤ pad.toNat ∧ pad.toNat ≤ 122 ∧ pad.toNat ≠ 92 := by decide
  match f with
  | a :: b :: c :: s =>
    have ha := a.toNat_lt
    have hb := b.toNat_lt
    have hc := c.toNat_lt
    simp only [encode, List.forall_mem_cons]
    exact ⟨hletter _ (by omega), hletter _ (by omega), hletter _ (by omega),
      hletter _ (by omega), encode_plain s⟩
  | [a, b] =>
    have ha := a.toNat_lt
    have hb := b.toNat_lt
    simp only [encode, List.forall_mem_cons]
    exact ⟨hletter _ (by omega), hletter _ (by omega), hletter _ (by omega), hpad, by simp⟩
  | [a] =>
    have ha := a.toNat_lt
    simp only [encode, List.forall_mem_cons]
    exact ⟨hletter _ (by omega), hletter _ (by omega), hpad, hpad, by simp⟩
  | [] => simp [encode]

theorem reads_nil (h : Reads rel s []) (hhead : s.head? ≠ some pad) : s = [] := by
  cases h with
  | done => rfl
  | excess hlax hs =>
    cases s with
    | nil => rfl
    | cons c s =>
      have hc : c = pad := hs c (List.mem_cons_self ..)
      simp [hc] at hhead

/-- Strict mode reads a text as `f` exactly when it is the encoding, where no bytes are left over
and padding may not follow a complete quad. -/
theorem decode_strict_eq (hlax : rel.laxPadding = false) (hthree : f.length % 3 = 0) :
    decode rel true s = some f ↔ s = encode f := by
  constructor
  · intro h
    exact (decode_strict_iff.1 h).2.eq_encode hlax hthree
  · rintro rfl
    exact decode_encoded true f

/-- A second text for `f` exists when bytes are left over or padding may follow a complete quad. -/
theorem exists_second_text (hne : f ≠ []) (h : f.length % 3 = 0 → rel.laxPadding = true) :
    ∃ s, s ≠ encode f ∧ decode rel true s = some f := by
  by_cases hthree : f.length % 3 = 0
  · have hread := reads_encode_pad (h hthree) hthree
    refine ⟨encode f ++ [pad], by simp, decode_strict_iff.2 ⟨?_, hread⟩⟩
    have hhead := head_encodeSpare 0 f
    rw [encodeSpare_zero] at hhead
    cases hf : encode f with
    | nil =>
      match f with
      | _ :: _ :: _ :: _ | [_, _] | [_] => simp [encode] at hf
      | [] => exact absurd rfl hne
    | cons c s => simpa [hf] using hhead
  · exact ⟨encodeSpare 1 f, encodeSpare_ne hthree,
      decode_strict_iff.2 ⟨head_encodeSpare 1 f, reads_encodeSpare (by omega) f⟩⟩

end RoundTrip

/-! The URL-safe alphabet. -/

/-- `bytes.maketrans(b"-_", b"+/")`. -/
def toStandard (c : UInt8) : UInt8 := if c = 45 then 43 else if c = 95 then 47 else c

/-- `bytes.maketrans(b"+/", b"-_")`. -/
def toUrlsafe (c : UInt8) : UInt8 := if c = 43 then 45 else if c = 47 then 95 else c

/-- `base64.urlsafe_b64encode`. -/
def urlsafeEncode (f : Bytes) : Bytes := (encode f).map toUrlsafe

/-- `base64.b64decode(s, altchars=b"-_", validate=strict)`. -/
def urlsafeDecode (rel : Release) (strict : Bool) (s : Bytes) : Option Bytes :=
  decode rel strict (s.map toStandard)

theorem toUrlsafe_toStandard {c : UInt8} (h : c ≠ 43 ∧ c ≠ 47) : toUrlsafe (toStandard c) = c := by
  unfold toStandard toUrlsafe
  split
  · simp_all
  · split <;> simp_all

theorem toStandard_toUrlsafe {c : UInt8} (h : c ≠ 45 ∧ c ≠ 95) : toStandard (toUrlsafe c) = c := by
  unfold toStandard toUrlsafe
  split
  · simp_all
  · split <;> simp_all

theorem letter_standard : ∀ n < 64, letter n ≠ 45 ∧ letter n ≠ 95 := by decide

/-- A strict text consists of letters and padding. -/
theorem Reads.mem {rel : Release} {s f : Bytes} (h : Reads rel s f) {c : UInt8} (hc : c ∈ s) :
    c = pad ∨ ∃ n < 64, c = letter n := by
  induction h with
  | done => simp at hc
  | excess _ hs => exact .inl (hs c hc)
  | one hv hw =>
    simp only [List.mem_cons, List.not_mem_nil, or_false] at hc
    obtain rfl | rfl | rfl | rfl := hc
    · exact .inr ⟨_, hv, rfl⟩
    · exact .inr ⟨_, hw, rfl⟩
    · exact .inl rfl
    · exact .inl rfl
  | two hv hw hx =>
    simp only [List.mem_cons, List.not_mem_nil, or_false] at hc
    obtain rfl | rfl | rfl | rfl := hc
    · exact .inr ⟨_, hv, rfl⟩
    · exact .inr ⟨_, hw, rfl⟩
    · exact .inr ⟨_, hx, rfl⟩
    · exact .inl rfl
  | quad hv hw hx hy _ ih =>
    simp only [List.mem_cons] at hc
    obtain rfl | rfl | rfl | rfl | hc := hc
    · exact .inr ⟨_, hv, rfl⟩
    · exact .inr ⟨_, hw, rfl⟩
    · exact .inr ⟨_, hx, rfl⟩
    · exact .inr ⟨_, hy, rfl⟩
    · exact ih hc

theorem Reads.map_toStandard {rel : Release} {s f : Bytes} (h : Reads rel s f) :
    (s.map toUrlsafe).map toStandard = s := by
  rw [List.map_map]
  have hid : ∀ c ∈ s, (toStandard ∘ toUrlsafe) c = id c := by
    intro c hc
    apply toStandard_toUrlsafe
    obtain rfl | ⟨n, hn, rfl⟩ := h.mem hc
    · decide
    · exact letter_standard n hn
  rw [List.map_congr_left hid, List.map_id]

theorem urlsafeDecode_urlsafeEncode (rel : Release) (b : Bool) (f : Bytes) :
    urlsafeDecode rel b (urlsafeEncode f) = some f := by
  unfold urlsafeDecode urlsafeEncode
  have hread : Reads rel (encode f) f := reads_encode f
  rw [hread.map_toStandard, decode_encoded]

end KestrelSdk.Base64
