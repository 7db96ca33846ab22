import KestrelSdk.Json.RoundTrip

namespace KestrelSdk.Json

open Checks (ok_bind)

theorem skipSpace_length (s : Str) : (skipSpace s).length ≤ s.length :=
  (List.dropWhile_suffix isSpace).length_le

theorem scanUnits_cons_length {u : Nat} {s us r : Str}
    (ih : ∀ us r, scanUnits s = .ok (us, r) → r.length < s.length)
    (h : (do let (us, r) ← scanUnits s; return (u :: us, r)) = Except.ok (us, r)) :
    r.length < s.length := by
  cases hx : scanUnits s with
  | error e =>
    rw [hx] at h
    cases h
  | ok p =>
    rw [hx] at h
    cases h
    exact ih _ _ hx

theorem scanUnits_length {s us r : Str} (h : scanUnits s = .ok (us, r)) : r.length < s.length := by
  induction s using scanUnits.induct generalizing us r with
  | case1 => cases h
  | case2 s =>
    cases h
    simp
  | case3 => cases h
  | case4 a b c d s u hq ih =>
    simp only [scanUnits, hq] at h
    have := scanUnits_cons_length (fun us r => ih) h
    simp only [List.length_cons]
    omega
  | case5 a b c d s hq =>
    simp only [scanUnits, hq] at h
    cases h
  | case6 s hne =>
    rw [scanUnits] at h
    · simp at h
    all_goals assumption
  | case7 x s hne hx u hu ih =>
    rw [scanUnits] at h
    · rw [if_neg hx, hu] at h
      have := scanUnits_cons_length (fun us r => ih) h
      simp only [List.length_cons]
      omega
    all_goals assumption
  | case8 x s hne hx hu =>
    rw [scanUnits] at h
    · rw [if_neg hx, hu] at h
      cases h
    all_goals assumption
  | case9 c s h1 h2 h3 h4 hc =>
    rw [scanUnits] at h
    · rw [if_pos hc] at h
      cases h
    all_goals assumption
  | case10 c s h1 h2 h3 h4 hc ih =>
    rw [scanUnits] at h
    · rw [if_neg hc] at h
      have := scanUnits_cons_length (fun us r => ih) h
      simp only [List.length_cons]
      omega
    all_goals assumption

theorem scanString_length {s t r : Str} (h : scanString s = .ok (t, r)) : r.length < s.length := by
  unfold scanString at h
  cases hx : scanUnits s with
  | error e =>
    rw [hx] at h
    cases h
  | ok p =>
    rw [hx] at h
    cases h
    exact scanUnits_length hx

theorem scanSign_length (s : Str) : (scanSign s).2.length ≤ s.length := by
  unfold scanSign
  split
  · simp
  · exact Nat.le_refl _

theorem scanInteger_length {s ds r : Str} (h : scanInteger s = some (ds, r)) :
    r.length < s.length := by
  unfold scanInteger at h
  split at h
  · cases h
    simp
  · split at h
    · cases h
      have := (List.dropWhile_suffix isDigit (l := ‹List Nat›)).length_le
      simp only [List.length_cons]
      omega
    · cases h
  · cases h

theorem scanFraction_length (s : Str) : (scanFraction s).2.length ≤ s.length := by
  unfold scanFraction
  split
  · split
    · have := (List.dropWhile_suffix isDigit (l := ‹List Nat›)).length_le
      simp only [List.length_cons]
      omega
    · exact Nat.le_refl _
  · exact Nat.le_refl _

theorem scanExponent_length (s : Str) : (scanExponent s).2.length ≤ s.length := by
  have hd : ∀ l : Str, (l.dropWhile isDigit).length ≤ l.length :=
    fun l => (List.dropWhile_suffix isDigit).length_le
  unfold scanExponent
  split
  · split
    · split
      · split
        · exact Nat.le_succ_of_le (hd _)
        · split
          · exact Nat.le_succ_of_le (Nat.le_succ_of_le (hd _))
          · exact Nat.le_refl _
      · split
        · simp
        · exact Nat.le_refl _
      · exact Nat.le_refl _
    · exact Nat.le_refl _
  · exact Nat.le_refl _

theorem scanNumber_length {f : Str → PyFloat} {s r : Str} {v : Value}
    (h : scanNumber f s = .ok (v, r)) : r.length < s.length := by
  have h1 := scanSign_length s
  simp only [scanNumber] at h
  split at h
  · cases h
  · rename_i ds x hx
    have h2 := scanInteger_length hx
    have h3 := scanFraction_length x
    have h4 := scanExponent_length (scanFraction x).2
    split at h
    · split at h
      · cases h
      · cases h
        omega
    · cases h
      omega

theorem scanLiteral_length {s r : Str} {v : Value} (h : scanLiteral s = some (v, r)) :
    r.length < s.length := by
  obtain ⟨⟨t, w⟩, hmem, hif⟩ := List.exists_of_findSome?_eq_some h
  have hpos : 0 < t.length := by
    have hall : ∀ p ∈ literals, 0 < p.1.length := by
      intro p hp
      simp only [literals, List.mem_cons, List.not_mem_nil, or_false] at hp
      rcases hp with rfl | rfl | rfl | rfl | rfl | rfl <;> decide
    exact hall _ hmem
  simp only at hif
  split at hif
  · rename_i hpre
    cases hif
    have := (List.isPrefixOf_iff_prefix.1 hpre).length_le
    rw [List.length_drop]
    omega
  · cases hif

/-- The rest of the text after a value is shorter than the text. -/
theorem scan_length (f : Str → PyFloat) (n : Nat) :
    (∀ d s v r, scanOnce f n d s = .ok (v, r) → r.length < s.length) ∧
    (∀ d acc s v r, scanItems f n d acc s = .ok (v, r) → r.length < s.length) ∧
    (∀ d acc s v r, scanEntries f n d acc s = .ok (v, r) → r.length < s.length) := by
  induction n with
  | zero =>
    refine ⟨?_, ?_, ?_⟩
    all_goals
      intros
      rename_i h
      cases h
  | succ n ih =>
    obtain ⟨ih1, ih2, ih3⟩ := ih
    refine ⟨?_, ?_, ?_⟩
    · intro d s v r h
      simp only [scanOnce] at h
      split at h
      · cases h
      · rename_i c x
        have hx := skipSpace_length x
        simp only [List.length_cons]
        split_ifs at h
        · cases hs : scanString x with
          | error e =>
            rw [hs] at h
            cases h
          | ok p =>
            rw [hs] at h
            cases h
            have := scanString_length hs
            omega
        · split at h
          · cases h
          · split at h
            · rename_i he
              cases h
              rw [he, List.length_cons] at hx
              omega
            · have := ih3 _ _ _ _ _ h
              omega
        · split at h
          · cases h
          · split at h
            · rename_i he
              cases h
              rw [he, List.length_cons] at hx
              omega
            · have := ih2 _ _ _ _ _ h
              omega
        · split at h
          · rename_i hl
            cases h
            exact scanLiteral_length hl
          · exact scanNumber_length h
    · intro d acc s v r h
      simp only [scanItems] at h
      cases hs : scanOnce f n d s with
      | error e =>
        rw [hs] at h
        cases h
      | ok p =>
        rw [hs, ok_bind] at h
        have h1 := ih1 _ _ _ _ hs
        have h2 := skipSpace_length p.2
        split at h
        · rename_i he
          cases h
          rw [he, List.length_cons] at h2
          omega
        · rename_i x he
          rw [he, List.length_cons] at h2
          have := ih2 _ _ _ _ _ h
          have := skipSpace_length x
          omega
        · cases h
    · intro d acc s v r h
      simp only [scanEntries] at h
      split at h
      · rename_i x
        cases hk : scanString x with
        | error e =>
          rw [hk] at h
          cases h
        | ok p =>
          rw [hk, ok_bind] at h
          have h0 := scanString_length hk
          have h1 := skipSpace_length p.2
          simp only [List.length_cons]
          split at h
          · rename_i y hy
            rw [hy, List.length_cons] at h1
            have h2 := skipSpace_length y
            cases hs : scanOnce f n d (skipSpace y) with
            | error e =>
              rw [hs] at h
              cases h
            | ok q =>
              rw [hs, ok_bind] at h
              have h3 := ih1 _ _ _ _ hs
              have h4 := skipSpace_length q.2
              split at h
              · rename_i he
                cases h
                rw [he, List.length_cons] at h4
                omega
              · rename_i z he
                rw [he, List.length_cons] at h4
                have := ih3 _ _ _ _ _ h
                have := skipSpace_length z
                omega
              · cases h
          · cases h
      · cases h

/-- More recursion than twice the length of the text changes nothing. -/
theorem scan_fuel (f : Str → PyFloat) (n : Nat) :
    (∀ m d s, 2 * s.length + 1 ≤ n → n ≤ m → scanOnce f m d s = scanOnce f n d s) ∧
    (∀ m d acc s, 2 * s.length + 2 ≤ n → n ≤ m → scanItems f m d acc s = scanItems f n d acc s) ∧
    (∀ m d acc s, 2 * s.length + 2 ≤ n → n ≤ m →
      scanEntries f m d acc s = scanEntries f n d acc s) := by
  induction n with
  | zero =>
    refine ⟨?_, ?_, ?_⟩
    all_goals
      intros
      omega
  | succ n ih =>
    obtain ⟨ih1, ih2, ih3⟩ := ih
    refine ⟨?_, ?_, ?_⟩
    · intro m d s hn hm
      obtain ⟨m, rfl⟩ : ∃ k, m = k + 1 := ⟨m - 1, by omega⟩
      simp only [scanOnce]
      cases s with
      | nil => rfl
      | cons c x =>
        have hx := skipSpace_length x
        simp only [List.length_cons] at hn
        have e2 : ∀ d y, y.length ≤ x.length → scanItems f m d [] y = scanItems f n d [] y :=
          fun d y hy => ih2 m d [] y (by omega) (by omega)
        have e3 : ∀ d y, y.length ≤ x.length → scanEntries f m d [] y = scanEntries f n d [] y :=
          fun d y hy => ih3 m d [] y (by omega) (by omega)
        cases d with
        | zero => rfl
        | succ d =>
          dsimp only
          generalize skipSpace x = y at hx ⊢
          have h2 := e2 d y hx
          have h3 := e3 d y hx
          split_ifs
          · rfl
          · split
            · rfl
            · exact h3
          · split
            · rfl
            · exact h2
          · rfl
    · intro m d acc s hn hm
      obtain ⟨m, rfl⟩ : ∃ k, m = k + 1 := ⟨m - 1, by omega⟩
      simp only [scanItems]
      rw [ih1 m d s (by omega) (by omega)]
      cases hs : scanOnce f n d s with
      | error e => rfl
      | ok p =>
        have h1 := (scan_length f n).1 _ _ _ _ hs
        have h2 := skipSpace_length p.2
        simp only [ok_bind]
        split
        · rfl
        · rename_i y hy
          rw [hy, List.length_cons] at h2
          have h3 := skipSpace_length y
          exact ih2 m d _ _ (by omega) (by omega)
        · rfl
    · intro m d acc s hn hm
      obtain ⟨m, rfl⟩ : ∃ k, m = k + 1 := ⟨m - 1, by omega⟩
      simp only [scanEntries]
      split
      · rename_i x
        simp only [List.length_cons] at hn
        cases hk : scanString x with
        | error e => rfl
        | ok p =>
          have h0 := scanString_length hk
          have h1 := skipSpace_length p.2
          simp only [ok_bind]
          split
          · rename_i y hy
            rw [hy, List.length_cons] at h1
            have h2 := skipSpace_length y
            rw [ih1 m d (skipSpace y) (by omega) (by omega)]
            cases hs : scanOnce f n d (skipSpace y) with
            | error e => rfl
            | ok q =>
              have h3 := (scan_length f n).1 _ _ _ _ hs
              have h4 := skipSpace_length q.2
              simp only [ok_bind]
              split
              · rfl
              · rename_i z hz
                rw [hz, List.length_cons] at h4
                have h5 := skipSpace_length z
                exact ih3 m d _ _ (by omega) (by omega)
              · rfl
          · rfl
      · rfl

/-- `loads` is the scanner at any greater bound on its recursion. -/
theorem Interpreter.loads_fuel (py : Interpreter) (s : Str) (n : Nat) (hn : 2 * s.length + 2 ≤ n)
    (hb : ∀ r, s ≠ 0xFEFF :: r) :
    py.loads s = (do
      let (v, r) ← scanOnce py.floatOf n py.nesting (skipSpace s)
      if (skipSpace r).isEmpty then return v else .error (.decode "Extra data")) := by
  have hs := skipSpace_length s
  rw [(scan_fuel py.floatOf (2 * s.length + 2)).1 n _ _ (by omega) hn]
  unfold Interpreter.loads
  split
  · exact absurd rfl (hb _)
  · rfl

end KestrelSdk.Json
