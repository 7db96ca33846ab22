import Mathlib.Data.List.TakeWhile
import Mathlib.Data.Nat.Init

/-! Splitting a text on the elements that separate its words. -/

namespace KestrelSdk.Encoding

variable {α : Type*} (space : α → Bool)

/-- At most `n` words are split off; what follows them is the last part, its leading separators
dropped. -/
def splitMax : Nat → List α → List (List α)
  | 0, s =>
    match s.dropWhile space with
    | [] => []
    | c :: r => [c :: r]
  | n + 1, s =>
    match s.dropWhile space with
    | [] => []
    | c :: r =>
      (c :: r).takeWhile (fun d => !space d) ::
        splitMax n ((c :: r).dropWhile fun d => !space d)

/-- A text of `k` elements has at most `k` words. -/
def words (s : List α) : List (List α) := splitMax space s.length s

/-- What follows the first `n` words, its leading separators dropped. -/
def afterWords : Nat → List α → List α
  | 0, s => s.dropWhile space
  | n + 1, s => afterWords n ((s.dropWhile space).dropWhile fun d => !space d)

/-- A word ends where the text `s` goes on: `s` is empty or starts with a separator. -/
def Breaks (s : List α) : Prop := ∀ c ∈ s.head?, space c = true

instance (s : List α) : Decidable (Breaks space s) :=
  inferInstanceAs (Decidable (∀ c ∈ s.head?, space c = true))

/-- The words of a text, one by one. -/
inductive Spaced : List α → List (List α) → Prop where
  | nil {g : List α} (hg : ∀ c ∈ g, space c = true) : Spaced g []
  | cons {g w s : List α} {ws : List (List α)} (hg : ∀ c ∈ g, space c = true) (hne : w ≠ [])
      (hw : ∀ c ∈ w, space c = false) (hs : Breaks space s) (hrest : Spaced s ws) :
      Spaced (g ++ (w ++ s)) (w :: ws)

variable {space}

theorem dropWhile_gap {g : List α} (hg : ∀ c ∈ g, space c = true) (s : List α) :
    (g ++ s).dropWhile space = s.dropWhile space := by
  induction g with
  | nil => rfl
  | cons c g ih =>
    rw [List.cons_append, List.dropWhile_cons_of_pos (hg c (List.mem_cons_self ..))]
    exact ih fun d hd => hg d (List.mem_cons_of_mem c hd)

theorem dropWhile_all {g : List α} (hg : ∀ c ∈ g, space c = true) : g.dropWhile space = [] :=
  List.dropWhile_eq_nil_iff.2 hg

theorem dropWhile_word {w : List α} (hne : w ≠ []) (hw : ∀ c ∈ w, space c = false) (s : List α) :
    (w ++ s).dropWhile space = w ++ s := by
  cases w with
  | nil => exact absurd rfl hne
  | cons c w => exact List.dropWhile_cons_of_neg (by simp [hw c (List.mem_cons_self ..)])

theorem Breaks.dropWhile {s : List α} (h : Breaks space s) :
    s.dropWhile (fun d => !space d) = s := by
  cases s with
  | nil => rfl
  | cons c s => exact List.dropWhile_cons_of_neg (by simp [h c rfl])

theorem Breaks.takeWhile {s : List α} (h : Breaks space s) :
    s.takeWhile (fun d => !space d) = [] := by
  cases s with
  | nil => rfl
  | cons c s => exact List.takeWhile_cons_of_neg (by simp [h c rfl])

theorem takeWhile_word {w s : List α} (hw : ∀ c ∈ w, space c = false) (hs : Breaks space s) :
    (w ++ s).takeWhile (fun d => !space d) = w := by
  rw [List.takeWhile_append_of_pos (by simpa using hw), hs.takeWhile, List.append_nil]

theorem dropWhile_through {w s : List α} (hw : ∀ c ∈ w, space c = false) (hs : Breaks space s) :
    (w ++ s).dropWhile (fun d => !space d) = s := by
  rw [List.dropWhile_append_of_pos (by simpa using hw), hs.dropWhile]

theorem Breaks.append {g s : List α} (hg : ∀ c ∈ g, space c = true) (hne : g ≠ []) :
    Breaks space (g ++ s) := by
  cases g with
  | nil => exact absurd rfl hne
  | cons c g =>
    intro d hd
    obtain rfl : c = d := by simpa using hd
    exact hg c (List.mem_cons_self ..)

theorem breaks_dropWhile (s : List α) : Breaks space (s.dropWhile fun d => !space d) := by
  intro c hc
  have h := List.head?_dropWhile_not (fun d => !space d) s
  rw [Option.mem_def] at hc
  rw [hc] at h
  simpa using h

theorem takeWhile_gap (s : List α) : ∀ c ∈ s.takeWhile space, space c = true :=
  fun _ hc => List.mem_takeWhile_imp hc

theorem takeWhile_not (s : List α) : ∀ c ∈ s.takeWhile (fun d => !space d), space c = false :=
  fun _ hc => by simpa using List.mem_takeWhile_imp hc

/-- Every text has words. -/
theorem exists_spaced (n : Nat) (s : List α) (hn : s.length ≤ n) : ∃ ws, Spaced space s ws := by
  induction n generalizing s with
  | zero =>
    obtain rfl := List.length_eq_zero_iff.1 (Nat.le_zero.1 hn)
    exact ⟨[], .nil (by simp)⟩
  | succ n ih =>
    have hsplit := List.takeWhile_append_dropWhile (p := space) (l := s)
    cases hd : s.dropWhile space with
    | nil => exact ⟨[], .nil (List.dropWhile_eq_nil_iff.1 hd)⟩
    | cons c r =>
      have hc : space c = false := by
        have h := List.head?_dropWhile_not space s
        simpa [hd] using h
      have hwt := List.takeWhile_append_dropWhile (p := fun d => !space d) (l := c :: r)
      have hne : (c :: r).takeWhile (fun d => !space d) ≠ [] := by simp [hc]
      have hlen : ((c :: r).dropWhile fun d => !space d).length ≤ n := by
        have h1 := congrArg List.length hwt
        have h2 := congrArg List.length hsplit
        have h3 := List.length_pos_iff.2 hne
        rw [hd] at h2
        simp only [List.length_append] at h1 h2
        omega
      obtain ⟨ws, hws⟩ := ih _ hlen
      refine ⟨(c :: r).takeWhile (fun d => !space d) :: ws, ?_⟩
      rw [← hsplit, hd, ← hwt]
      have htake : (((c :: r).takeWhile fun d => !space d) ++
          (c :: r).dropWhile fun d => !space d).takeWhile (fun d => !space d) =
          (c :: r).takeWhile fun d => !space d := by rw [hwt]
      rw [htake]
      exact .cons (takeWhile_gap s) hne (takeWhile_not _) (breaks_dropWhile _) hws

/-- The first `n` words and, when anything is left, the rest of the text. -/
theorem Spaced.splitMax {s : List α} {ws : List (List α)} (h : Spaced space s ws) (n : Nat) :
    splitMax space n s = ws.take n ++ (if n < ws.length then [afterWords space n s] else []) := by
  induction h generalizing n with
  | nil hg =>
    cases n with
    | zero => simp [Encoding.splitMax, dropWhile_all hg]
    | succ n => simp [Encoding.splitMax, dropWhile_all hg]
  | @cons g w s ws hg hne hw hs hrest ih =>
    have hdrop : (g ++ (w ++ s)).dropWhile space = w ++ s := by
      rw [dropWhile_gap hg, dropWhile_word hne hw]
    obtain ⟨c, r, hcr⟩ := List.exists_cons_of_ne_nil (l := w ++ s) (by simp [hne])
    cases n with
    | zero =>
      rw [Encoding.splitMax, afterWords, hdrop, hcr]
      simp
    | succ n =>
      rw [Encoding.splitMax, hdrop, hcr]
      simp only
      rw [← hcr, takeWhile_word hw hs, dropWhile_through hw hs, ih n, afterWords, hdrop,
        dropWhile_through hw hs]
      simp

theorem Spaced.words {s : List α} {ws : List (List α)} (h : Spaced space s ws) :
    words space s = ws := by
  have hle : ws.length ≤ s.length := by
    induction h with
    | nil hg => exact Nat.zero_le _
    | cons hg hne hw hs hrest ih =>
      have := List.length_pos_iff.2 hne
      simp only [List.length_cons, List.length_append]
      omega
  rw [Encoding.words, h.splitMax, if_neg (by omega), List.append_nil, List.take_of_length_le hle]

theorem spaced_words (s : List α) : Spaced space s (words space s) := by
  obtain ⟨ws, hws⟩ : ∃ ws, Spaced space s ws := exists_spaced s.length s le_rfl
  rwa [hws.words]

theorem splitMax_eq (n : Nat) (s : List α) : splitMax space n s =
    (words space s).take n ++
      (if n < (words space s).length then [afterWords space n s] else []) :=
  (spaced_words s).splitMax n

/-- No word of `s ++ t` lies across the end of `s`. -/
def Parted (space : α → Bool) (s t : List α) : Prop :=
  Breaks space t ∨ ∃ c ∈ s.getLast?, space c = true

theorem Parted.of_word {g w s t : List α} (hne : w ≠ []) (hw : ∀ c ∈ w, space c = false)
    (hs : Breaks space s) (h : Parted space (g ++ (w ++ s)) t) :
    Parted space s t ∧ Breaks space (s ++ t) := by
  cases s with
  | nil =>
    rcases h with h | ⟨c, hc, hsp⟩
    · exact ⟨.inl h, h⟩
    · -- the text would end with its word, whose elements do not separate
      have hmem : c ∈ w := by
        apply List.mem_of_getLast?
        cases hl : w.getLast? with
        | none => exact absurd (List.getLast?_eq_none_iff.1 hl) hne
        | some d => simpa [List.getLast?_append, hl] using hc
      rw [hw c hmem] at hsp
      exact absurd hsp (by simp)
  | cons d s =>
    refine ⟨?_, hs⟩
    rcases h with h | ⟨c, hc, hsp⟩
    · exact .inl h
    · refine .inr ⟨c, ?_, hsp⟩
      cases hl : (d :: s).getLast? with
      | none => simp at hl
      | some e => simpa [List.getLast?_append, hl] using hc

theorem Spaced.of_gap {g t : List α} {ws : List (List α)} (hg : ∀ c ∈ g, space c = true)
    (ht : Spaced space t ws) : Spaced space (g ++ t) ws := by
  have happ : ∀ k : List α, (∀ c ∈ k, space c = true) → ∀ c ∈ g ++ k, space c = true := by
    intro k hk c hc
    rcases List.mem_append.1 hc with h | h
    · exact hg c h
    · exact hk c h
  cases ht with
  | nil hk => exact .nil (happ _ hk)
  | cons hk hne hw hu hrest =>
    rw [← List.append_assoc]
    exact .cons (happ _ hk) hne hw hu hrest

/-- Words that lie on one side stay whole. -/
theorem Spaced.append {s t : List α} {ws vs : List (List α)} (h : Spaced space s ws)
    (ht : Spaced space t vs) (hb : Parted space s t) : Spaced space (s ++ t) (ws ++ vs) := by
  induction h with
  | nil hg => exact ht.of_gap hg
  | cons hg hne hw hs hrest ih =>
    obtain ⟨hb, hs⟩ := hb.of_word hne hw hs
    have := Spaced.cons hg hne hw hs (ih hb)
    simpa [List.append_assoc] using this

theorem words_append {s t : List α} (hb : Parted space s t) :
    words space (s ++ t) = words space s ++ words space t :=
  ((spaced_words s).append (spaced_words t) hb).words

theorem words_gap {g : List α} (hg : ∀ c ∈ g, space c = true) : words space g = [] :=
  (Spaced.nil hg).words

theorem breaks_gap {g : List α} (hg : ∀ c ∈ g, space c = true) : Breaks space g := by
  intro c hc
  exact hg c (List.mem_of_head? hc)

theorem afterWords_gap {g : List α} (hg : ∀ c ∈ g, space c = true) (n : Nat) (s : List α) :
    afterWords space n (g ++ s) = afterWords space n s := by
  cases n with
  | zero => exact dropWhile_gap hg s
  | succ n => rw [afterWords, afterWords, dropWhile_gap hg]

/-- Whitespace around a text does not change its words. -/
theorem words_between {g k : List α} (hg : ∀ c ∈ g, space c = true)
    (hk : ∀ c ∈ k, space c = true) (s : List α) :
    words space (g ++ s ++ k) = words space s := by
  rw [words_append (.inl (breaks_gap hk)), words_gap hk, List.append_nil]
  exact ((spaced_words s).of_gap hg).words

/-- A text starts with its first word. -/
theorem Spaced.head {s : List α} {ws : List (List α)} (h : Spaced space s ws) :
    (s.dropWhile space).head? = ws.head?.bind List.head? := by
  cases h with
  | nil hg => rw [dropWhile_all hg]; rfl
  | @cons g w s ws hg hne hw hs hrest =>
    rw [dropWhile_gap hg, dropWhile_word hne hw]
    cases w with
    | nil => exact absurd rfl hne
    | cons c w => rfl

theorem Spaced.afterWords_append {s t : List α} {ws : List (List α)} (h : Spaced space s ws)
    (hb : Parted space s t) : afterWords space ws.length (s ++ t) = t.dropWhile space := by
  induction h with
  | nil hg => exact dropWhile_gap hg t
  | @cons g w s ws hg hne hw hs hrest ih =>
    obtain ⟨hb, hs⟩ := hb.of_word hne hw hs
    rw [List.append_assoc, List.append_assoc, List.length_cons, afterWords, dropWhile_gap hg,
      dropWhile_word hne hw, dropWhile_through hw hs, ih hb]

theorem afterWords_append {s t : List α} (hb : Parted space s t) :
    afterWords space (words space s).length (s ++ t) = t.dropWhile space :=
  (spaced_words s).afterWords_append hb

/-- No text is left behind the last word. -/
theorem Spaced.afterWords_nil {s : List α} {ws : List (List α)} (h : Spaced space s ws) {n : Nat}
    (hn : ws.length ≤ n) : afterWords space n s = [] := by
  induction h generalizing n with
  | @nil g hg =>
    have hnil : ∀ n, afterWords space n ([] : List α) = [] := by
      intro n
      induction n with
      | zero => rfl
      | succ n ih => exact ih
    cases n with
    | zero => exact dropWhile_all hg
    | succ n => rw [afterWords, dropWhile_all hg, List.dropWhile_nil, hnil]
  | @cons g w s ws hg hne hw hs hrest ih =>
    obtain ⟨n, rfl⟩ : ∃ m, n = m + 1 := ⟨n - 1, by simp only [List.length_cons] at hn; omega⟩
    rw [afterWords, dropWhile_gap hg, dropWhile_word hne hw, dropWhile_through hw hs]
    exact ih (by simpa using hn)

/-- The part behind `n` words is what is left of the text. -/
theorem splitMax_last (n : Nat) (s : List α) :
    (splitMax space n s)[n]?.getD [] = afterWords space n s := by
  rw [splitMax_eq]
  by_cases h : n < (words space s).length
  · have hlen : ((words space s).take n).length = n := by simp; omega
    rw [if_pos h, List.getElem?_append_right (by omega), hlen, Nat.sub_self]
    rfl
  · rw [if_neg h, List.append_nil, (spaced_words s).afterWords_nil (by omega),
      List.getElem?_eq_none (by rw [List.length_take]; exact min_le_left _ _)]
    rfl

theorem splitMax_take (n : Nat) (s : List α) :
    (splitMax space n s).take n = (words space s).take n := by
  rw [splitMax_eq]
  by_cases h : n < (words space s).length
  · rw [if_pos h, List.take_append_of_le_length (by simp; omega), List.take_take, Nat.min_self]
  · rw [if_neg h, List.append_nil, List.take_take, Nat.min_self]

theorem Spaced.gap_of_nil {s : List α} {ws : List (List α)} (h : Spaced space s ws) (hws : ws = []) :
    ∀ c ∈ s, space c = true := by
  cases h with
  | nil hg => exact hg
  | cons => exact absurd hws (List.cons_ne_nil _ _)

/-- Where a word lies across the end of `s`, the last word of `s` is not one of `s ++ t`. -/
theorem Spaced.take_append_ne {s t : List α} {ws : List (List α)} (h : Spaced space s ws)
    (hws : ws ≠ []) (hb : ¬ Parted space s t) :
    (Encoding.words space (s ++ t)).take ws.length ≠ ws := by
  induction h with
  | nil hg => exact absurd rfl hws
  | @cons g w s ws hg hne hw hs hrest ih =>
    cases s with
    | nil =>
      -- the word goes on in `t`
      obtain rfl : ws = [] := by rw [← hrest.words]; exact words_gap (by simp)
      let v := t.takeWhile fun d => !space d
      let u := t.dropWhile fun d => !space d
      have htv : v ++ u = t := List.takeWhile_append_dropWhile
      have hv : v ≠ [] := by
        intro hv
        apply hb
        refine .inl ?_
        have : t = u := by rw [← htv, hv, List.nil_append]
        rw [this]
        exact breaks_dropWhile t
      have hwv : ∀ c ∈ w ++ v, space c = false := by
        intro c hc
        rcases List.mem_append.1 hc with h | h
        · exact hw c h
        · exact takeWhile_not t c h
      have hsp : Spaced space (g ++ (w ++ v ++ u)) ((w ++ v) :: Encoding.words space u) :=
        .cons hg (by simp [hne]) hwv (breaks_dropWhile t) (spaced_words u)
      have htext : g ++ (w ++ []) ++ t = g ++ (w ++ v ++ u) := by
        rw [← htv]
        simp
      rw [htext, hsp.words]
      simpa using hv
    | cons d s =>
      have hb' : ¬ Parted space (d :: s) t := by
        rintro (h | ⟨c, hc, hsp⟩)
        · exact hb (.inl h)
        · refine hb (.inr ⟨c, ?_, hsp⟩)
          cases hl : (d :: s).getLast? with
          | none => simp at hl
          | some e =>
            rw [hl] at hc
            simpa [List.getLast?_append, hl] using hc
      have hne' : ws ≠ [] := by
        intro h
        have hk := hrest.gap_of_nil h
        refine hb' (.inr ⟨(d :: s).getLast (by simp), List.getLast?_eq_some_getLast _, ?_⟩)
        exact hk _ (List.getLast_mem _)
      have hsp : Spaced space (g ++ (w ++ (d :: s ++ t))) (w :: Encoding.words space (d :: s ++ t)) :=
        .cons hg hne hw (by simpa [Breaks] using hs d rfl) (spaced_words _)
      have htext : g ++ (w ++ d :: s) ++ t = g ++ (w ++ (d :: s ++ t)) := by simp
      rw [htext, hsp.words, List.length_cons, List.take_succ_cons]
      intro h
      exact ih hne' hb' (List.cons.inj h).2

theorem take_append_ne {s t : List α} (hws : words space s ≠ []) (hb : ¬ Parted space s t) :
    (words space (s ++ t)).take (words space s).length ≠ words space s :=
  (spaced_words s).take_append_ne hws hb

end KestrelSdk.Encoding
