import KestrelSdk.Json.Value

namespace KestrelSdk.Encoding

open Json (Str)

/-- `str.isspace` of one code point. -/
def isSpace (c : Nat) : Bool :=
  (9 ≤ c && c ≤ 13) || (28 ≤ c && c ≤ 32) || c == 0x85 || c == 0xA0 || c == 0x1680 ||
    (0x2000 ≤ c && c ≤ 0x200A) || c == 0x2028 || c == 0x2029 || c == 0x202F || c == 0x205F ||
    c == 0x3000

/-- `str.strip`. -/
def strip (s : Str) : Str := ((s.dropWhile isSpace).reverse.dropWhile isSpace).reverse

/-- What text mode reads for the line ends of a file. -/
def universalNewlines : Str → Str
  | 13 :: 10 :: s => 10 :: universalNewlines s
  | 13 :: s => 10 :: universalNewlines s
  | c :: s => c :: universalNewlines s
  | [] => []

theorem dropWhile_of_none {s : Str} (h : ∀ c ∈ s, isSpace c = false) : s.dropWhile isSpace = s := by
  cases s with
  | nil => rfl
  | cons c s => exact List.dropWhile_cons_of_neg (by simp [h c (List.mem_cons_self ..)])

theorem strip_of_none {s : Str} (h : ∀ c ∈ s, isSpace c = false) : strip s = s := by
  unfold strip
  rw [dropWhile_of_none h, dropWhile_of_none, List.reverse_reverse]
  intro c hc
  exact h c (List.mem_reverse.1 hc)

/-- A text with no space at its ends is stripped already. -/
theorem strip_of_ends {s : Str} (hhead : ∀ c ∈ s.head?, isSpace c = false)
    (hlast : ∀ c ∈ s.getLast?, isSpace c = false) : strip s = s := by
  have hdrop : ∀ s : Str, (∀ c ∈ s.head?, isSpace c = false) → s.dropWhile isSpace = s := by
    intro s hs
    cases s with
    | nil => rfl
    | cons c s => exact List.dropWhile_cons_of_neg (by simp [hs c rfl])
  unfold strip
  rw [hdrop s hhead, hdrop s.reverse, List.reverse_reverse]
  rw [List.head?_reverse]
  exact hlast

/-- A stripped text ends with no space. -/
theorem last_of_strip {s : Str} (h : strip s = s) : ∀ c ∈ s.getLast?, isSpace c = false := by
  intro c hc
  rw [← h, strip, List.getLast?_reverse] at hc
  have hno := List.head?_dropWhile_not isSpace (s.dropWhile isSpace).reverse
  rw [Option.mem_def.1 hc] at hno
  exact hno

theorem universalNewlines_of_none {s : Str} (h : ∀ c ∈ s, isSpace c = false) :
    universalNewlines s = s := by
  induction s using universalNewlines.induct with
  | case1 s ih => simp [isSpace] at h
  | case2 s hs ih => simp [isSpace] at h
  | case3 c s hc hs ih =>
    rw [universalNewlines, ih fun d hd => h d (List.mem_cons_of_mem c hd)]
    · exact hc
    · exact hs
  | case4 => rfl

end KestrelSdk.Encoding
