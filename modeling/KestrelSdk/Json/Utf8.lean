import KestrelSdk.Json.Bytes

namespace KestrelSdk.Json

theorem toNat_ofNat {n : Nat} (h : n < 256) : (UInt8.ofNat n).toNat = n := by
  rw [UInt8.toNat_ofNat']
  omega

theorem isTail_ofNat {n : Nat} (h : n < 64) : isTail (.ofNat (0x80 + n)) = true := by
  have hn : (UInt8.ofNat (0x80 + n)).toNat = 0x80 + n := toNat_ofNat (by omega)
  simp only [isTail, Bool.and_eq_true, decide_eq_true_eq, UInt8.le_iff_toNat_le, hn, UInt8.toNat_ofNat]
  omega

variable {c : Nat} (s : Bytes)

theorem decodeUtf8_one (hc : c < 0x80) :
    decodeUtf8 (.ofNat c :: s) = (decodeUtf8 s).map (c :: ·) := by
  have hn : (UInt8.ofNat c).toNat = c := toNat_ofNat (by omega)
  have hlt : UInt8.ofNat c < 0x80 := by
    rw [UInt8.lt_iff_toNat_lt, hn]
    exact hc
  rw [decodeUtf8.eq_def]
  simp only [if_pos hlt, hn]

/-- The bytes from `0x80` on do not stand for themselves. -/
theorem not_ascii {n : Nat} (h : 0x80 ≤ n) (hn : n < 256) : ¬ UInt8.ofNat n < 0x80 := by
  rw [UInt8.lt_iff_toNat_lt, toNat_ofNat hn]
  simp only [UInt8.toNat_ofNat]
  omega

theorem decodeUtf8_two (hlow : 0x80 ≤ c) (hhigh : c < 0x800) :
    decodeUtf8 (.ofNat (0xC0 + c / 64) :: .ofNat (0x80 + c % 64) :: s) =
      (decodeUtf8 s).map (c :: ·) := by
  have ha : (UInt8.ofNat (0xC0 + c / 64)).toNat = 0xC0 + c / 64 := toNat_ofNat (by omega)
  have hb : (UInt8.ofNat (0x80 + c % 64)).toNat = 0x80 + c % 64 := toNat_ofNat (by omega)
  have htwo : decodeTwo (.ofNat (0xC0 + c / 64)) (.ofNat (0x80 + c % 64)) = some c := by
    unfold decodeTwo
    rw [isTail_ofNat (by omega), if_pos, ha, hb, Option.some.injEq]
    · omega
    · simp only [Bool.and_true, Bool.and_eq_true, decide_eq_true_eq, UInt8.le_iff_toNat_le, ha,
        UInt8.toNat_ofNat]
      omega
  rw [decodeUtf8.eq_def]
  simp only [if_neg (not_ascii (n := 0xC0 + c / 64) (by omega) (by omega)), htwo]

/-- A first byte from `0xE0` on does not begin two bytes. -/
theorem decodeTwo_none {n : Nat} (h : 0xE0 ≤ n) (hn : n < 256) (b : UInt8) :
    decodeTwo (.ofNat n) b = none := by
  unfold decodeTwo
  rw [if_neg]
  simp only [Bool.and_eq_true, decide_eq_true_eq, UInt8.le_iff_toNat_le, toNat_ofNat hn,
    UInt8.toNat_ofNat]
  omega

theorem decodeUtf8_three (hlow : 0x800 ≤ c) (hhigh : c < 0x10000)
    (hsurrogate : ¬ (0xD800 ≤ c ∧ c < 0xE000)) :
    decodeUtf8 (.ofNat (0xE0 + c / 4096) :: .ofNat (0x80 + c / 64 % 64) ::
      .ofNat (0x80 + c % 64) :: s) = (decodeUtf8 s).map (c :: ·) := by
  have ha : (UInt8.ofNat (0xE0 + c / 4096)).toNat = 0xE0 + c / 4096 := toNat_ofNat (by omega)
  have hb : (UInt8.ofNat (0x80 + c / 64 % 64)).toNat = 0x80 + c / 64 % 64 := toNat_ofNat (by omega)
  have hd : (UInt8.ofNat (0x80 + c % 64)).toNat = 0x80 + c % 64 := toNat_ofNat (by omega)
  have hthree : decodeThree (.ofNat (0xE0 + c / 4096)) (.ofNat (0x80 + c / 64 % 64))
      (.ofNat (0x80 + c % 64)) = some c := by
    unfold decodeThree
    rw [isTail_ofNat (by omega), isTail_ofNat (by omega), if_pos, ha, hb, hd, Option.some.injEq]
    · omega
    · simp only [Bool.and_true, Bool.and_eq_true, Bool.not_eq_true', Bool.and_eq_false_iff, beq_eq_false_iff_ne,
        decide_eq_true_eq, decide_eq_false_iff_not, UInt8.le_iff_toNat_le, UInt8.lt_iff_toNat_lt,
        ne_eq, ← UInt8.toNat_inj, ha, hb, UInt8.toNat_ofNat]
      omega
  rw [decodeUtf8.eq_def]
  simp only [if_neg (not_ascii (n := 0xE0 + c / 4096) (by omega) (by omega)), decodeTwo_none (n := 0xE0 + c / 4096) (by omega) (by omega), hthree]

/-- A first byte from `0xF0` on does not begin three bytes. -/
theorem decodeThree_none {n : Nat} (h : 0xF0 ≤ n) (hn : n < 256) (b d : UInt8) :
    decodeThree (.ofNat n) b d = none := by
  unfold decodeThree
  rw [if_neg]
  simp only [Bool.and_eq_true, decide_eq_true_eq, UInt8.le_iff_toNat_le, toNat_ofNat hn,
    UInt8.toNat_ofNat]
  omega

theorem decodeUtf8_four (hlow : 0x10000 ≤ c) (hhigh : c < 0x110000) :
    decodeUtf8 (.ofNat (0xF0 + c / 262144) :: .ofNat (0x80 + c / 4096 % 64) ::
      .ofNat (0x80 + c / 64 % 64) :: .ofNat (0x80 + c % 64) :: s) =
        (decodeUtf8 s).map (c :: ·) := by
  have ha : (UInt8.ofNat (0xF0 + c / 262144)).toNat = 0xF0 + c / 262144 := toNat_ofNat (by omega)
  have hb : (UInt8.ofNat (0x80 + c / 4096 % 64)).toNat = 0x80 + c / 4096 % 64 :=
    toNat_ofNat (by omega)
  have hd : (UInt8.ofNat (0x80 + c / 64 % 64)).toNat = 0x80 + c / 64 % 64 := toNat_ofNat (by omega)
  have he : (UInt8.ofNat (0x80 + c % 64)).toNat = 0x80 + c % 64 := toNat_ofNat (by omega)
  have hfour : decodeFour (.ofNat (0xF0 + c / 262144)) (.ofNat (0x80 + c / 4096 % 64))
      (.ofNat (0x80 + c / 64 % 64)) (.ofNat (0x80 + c % 64)) = some c := by
    unfold decodeFour
    rw [isTail_ofNat (by omega), isTail_ofNat (by omega), isTail_ofNat (by omega), if_pos, ha, hb,
      hd, he, Option.some.injEq]
    · omega
    · simp only [Bool.and_true, Bool.and_eq_true, Bool.not_eq_true', Bool.and_eq_false_iff, beq_eq_false_iff_ne,
        decide_eq_true_eq, decide_eq_false_iff_not, UInt8.le_iff_toNat_le, UInt8.lt_iff_toNat_lt,
        ne_eq, ← UInt8.toNat_inj, ha, hb, UInt8.toNat_ofNat]
      omega
  rw [decodeUtf8.eq_def]
  simp only [if_neg (not_ascii (n := 0xF0 + c / 262144) (by omega) (by omega)), decodeTwo_none (n := 0xF0 + c / 262144) (by omega) (by omega),
    decodeThree_none (n := 0xF0 + c / 262144) (by omega) (by omega), hfour]

/-- A code point is read back from its bytes. -/
theorem decodeUtf8_encodePoint {b : Bytes} (h : encodePoint c = some b) (hc : c < 0x110000) :
    decodeUtf8 (b ++ s) = (decodeUtf8 s).map (c :: ·) := by
  unfold encodePoint at h
  split_ifs at h with h1 h2 h3 h4
  · cases h
    exact decodeUtf8_one s h1
  · cases h
    exact decodeUtf8_two s (by omega) h2
  · cases h
    exact decodeUtf8_three s (by omega) h4 h3
  · cases h
    exact decodeUtf8_four s (by omega) hc

/-- A text is read back from its bytes. -/
theorem decodeUtf8_encodeUtf8 {t : Str} {b : Bytes} (h : encodeUtf8 t = some b)
    (ht : ∀ c ∈ t, c < 0x110000) : decodeUtf8 b = some t := by
  induction t generalizing b with
  | nil =>
    cases h
    rfl
  | cons c t ih =>
    simp only [encodeUtf8, Option.bind_eq_bind, Option.bind_eq_some_iff] at h
    obtain ⟨p, hp, q, hq, hb⟩ := h
    cases hb
    rw [decodeUtf8_encodePoint q hp (ht c (List.mem_cons_self ..)),
      ih hq fun d hd => ht d (List.mem_cons_of_mem c hd)]
    rfl

end KestrelSdk.Json
