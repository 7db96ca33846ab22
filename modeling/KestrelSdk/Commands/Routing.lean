import KestrelSdk.Commands.Parse

namespace KestrelSdk.Commands

open Json (Str str)
open Encoding (isSpace strip words splitMax afterWords Parted)

namespace AgentTool

/-- The leading words that `parse_command_args` drops from a line. -/
def droppedWords (tool : AgentTool) (user_input : Str) : List Str :=
  let line := strip user_input
  if line.head? ≠ some 33 then [] else (splitMax isSpace (tool.prefixWordCount line) line).take
    (tool.prefixWordCount line)

/-- No word of the line lies across the end of the prefix that it starts with: the line ends
there or goes on with whitespace, or the prefix ends with whitespace. -/
def AtWordEnd (pre user_input : Str) : Prop :=
  pre <+: strip user_input → Parted isSpace pre ((strip user_input).drop pre.length)

end AgentTool

open AgentTool

/-- One of the two selections sends the line to the tool. -/
def Selected (tools : List AgentTool) (tool : AgentTool) (user_input : Str) : Prop :=
  tool.canHandleCommand user_input = true ∨ skillTool tools user_input = some tool

/-- Parsing drops the words of the prefix that a line was selected by and reads all that was
typed behind it, and two tools whose prefixes are no word-wise prefixes of one another do not
both take a line. -/
def RoutingAgrees (tools : List AgentTool) (user_input : Str) : Prop :=
  (∀ tool ∈ tools, ∀ pre, tool.schema.command_prefix = some pre →
    Selected tools tool user_input →
      tool.droppedWords user_input = words isSpace pre ∧
      tool.arguments (strip user_input) =
        ((strip user_input).drop pre.length).dropWhile isSpace) ∧
  ∀ one ∈ tools, ∀ other ∈ tools, ∀ pre post, one.schema.command_prefix = some pre →
    other.schema.command_prefix = some post → ¬ words isSpace pre <+: words isSpace post →
      ¬ words isSpace post <+: words isSpace pre →
        ¬ (one.canHandleCommand user_input = true ∧ other.canHandleCommand user_input = true)

theorem exists_strip (s : Str) : ∃ g k, s = g ++ strip s ++ k ∧ (∀ c ∈ g, isSpace c = true) ∧
    (∀ c ∈ k, isSpace c = true) ∧ g = s.takeWhile isSpace := by
  refine ⟨s.takeWhile isSpace, ((s.dropWhile isSpace).reverse.takeWhile isSpace).reverse, ?_,
    Encoding.takeWhile_gap s, ?_, rfl⟩
  · rw [List.append_assoc, strip, ← List.reverse_append, List.takeWhile_append_dropWhile,
      List.reverse_reverse, List.takeWhile_append_dropWhile]
  · intro c hc
    exact Encoding.takeWhile_gap _ c (List.mem_reverse.1 hc)

/-- A text that ends with no whitespace is stripped on the left only. -/
theorem exists_strip_left {s : Str} (h : ∃ c ∈ s.getLast?, isSpace c = false) :
    ∃ g, s = g ++ strip s ∧ ∀ c ∈ g, isSpace c = true := by
  obtain ⟨g, k, hs, hg, hk, -⟩ := exists_strip s
  obtain ⟨c, hc, hsp⟩ := h
  cases hl : k.getLast? with
  | none =>
    rw [List.getLast?_eq_none_iff.1 hl, List.append_nil] at hs
    exact ⟨g, hs, hg⟩
  | some d =>
    have hcd : d = c := by
      rw [hs] at hc
      simpa [List.getLast?_append, hl] using hc
    have := hk d (List.mem_of_getLast? hl)
    rw [hcd, hsp] at this
    exact absurd this (by simp)

theorem words_strip (s : Str) : words isSpace (strip s) = words isSpace s := by
  obtain ⟨g, k, hs, hg, hk, -⟩ := exists_strip s
  conv_rhs => rw [hs]
  exact (Encoding.words_between hg hk _).symm

/-- Stripping keeps the first character of the first word. -/
theorem head_strip (s : Str) : (strip s).head? = (words isSpace s).head?.bind List.head? := by
  have hsp : Encoding.Spaced isSpace (strip s) (words isSpace (strip s)) :=
    Encoding.spaced_words _
  rw [← words_strip s, ← hsp.head]
  have hidem : (strip s).dropWhile isSpace = strip s := by
    cases hs : strip s with
    | nil => rfl
    | cons c t =>
      obtain ⟨g, k, hsg, -, -, hg⟩ := exists_strip s
      have hdrop : s.dropWhile isSpace = strip s ++ k := by
        have h1 := List.takeWhile_append_dropWhile (p := isSpace) (l := s)
        rw [← hg] at h1
        rw [List.append_assoc] at hsg
        exact List.append_cancel_left (h1.trans hsg)
      have hc := List.head?_dropWhile_not isSpace s
      rw [hdrop, hs] at hc
      exact List.dropWhile_cons_of_neg (by simpa using hc)
  rw [hidem]

section
variable {tools : List AgentTool} {tool : AgentTool} {user_input s : Str}

theorem command_of_prefix (hp : tool.schema.command_prefix = some (33 :: s)) (line : Str) :
    tool.command line = 33 :: s := by
  rw [command, hp]

theorem words_bang_ne : words isSpace (33 :: s) ≠ [] := by
  intro h
  have hsp : Encoding.Spaced isSpace (33 :: s) (words isSpace (33 :: s)) :=
    Encoding.spaced_words _
  have hgap := hsp.gap_of_nil h 33 (List.mem_cons_self ..)
  exact absurd hgap (by decide)

/-- What a selection says of the line: it goes on behind the prefix, or the prefix goes on with
whitespace behind the line. -/
theorem selected_line (hp : tool.schema.command_prefix = some (33 :: s))
    (h : Selected tools tool user_input) :
    (∃ r, strip user_input = 33 :: s ++ r) ∨
      ∃ k, k ≠ [] ∧ (∀ c ∈ k, isSpace c = true) ∧ 33 :: s = strip user_input ++ k := by
  rcases h with h | h
  · rw [canHandleCommand, hp] at h
    obtain ⟨r, hr⟩ := List.isPrefixOf_iff_prefix.1 h
    exact .inl ⟨r, hr.symm⟩
  · have hfound := List.find?_some h
    rw [hp] at hfound
    obtain ⟨r, hr⟩ := List.isPrefixOf_iff_prefix.1 hfound
    obtain ⟨g, k, hs, -, hk, hg⟩ := exists_strip user_input
    have hnil : g = [] := by
      rw [hg, ← hr]
      exact List.takeWhile_cons_of_neg (by decide)
    rw [hnil, List.nil_append] at hs
    have htext : 33 :: s ++ r = strip user_input ++ k := by rw [hr, ← hs]
    rcases List.append_eq_append_iff.1 htext with ⟨t, ht, -⟩ | ⟨t, ht, hkt⟩
    · exact .inl ⟨t, ht⟩
    · cases t with
      | nil => exact .inl ⟨[], by rw [ht, List.append_nil, List.append_nil]⟩
      | cons c t =>
        refine .inr ⟨c :: t, by simp, fun d hd => hk d ?_, ht⟩
        rw [hkt]
        exact List.mem_append_left r hd

/-- A selected line starts with `!`. -/
theorem selected_head (hp : tool.schema.command_prefix = some (33 :: s))
    (h : Selected tools tool user_input) : (strip user_input).head? = some 33 := by
  rcases selected_line hp h with ⟨r, hr⟩ | ⟨k, -, hk, hline⟩
  · rw [hr]
    rfl
  · cases hs : strip user_input with
    | nil =>
      rw [hs, List.nil_append] at hline
      have := hk 33 (by rw [← hline]; exact List.mem_cons_self ..)
      exact absurd this (by decide)
    | cons c t =>
      rw [hs, List.cons_append] at hline
      rw [List.head?_cons, ← (List.cons.inj hline).1]

theorem dropped_of_selected (hp : tool.schema.command_prefix = some (33 :: s))
    (h : Selected tools tool user_input) : tool.droppedWords user_input =
      (words isSpace (strip user_input)).take (words isSpace (33 :: s)).length := by
  have hhead := selected_head hp h
  simp only [droppedWords, hhead, ne_eq, not_true_eq_false, if_false, prefixWordCount,
    command_of_prefix hp]
  exact Encoding.splitMax_take _ _

/-- What the parser drops and what it reads, where a word of the line ends with the prefix. -/
theorem selected_agrees (hp : tool.schema.command_prefix = some (33 :: s))
    (h : Selected tools tool user_input) (hend : AtWordEnd (33 :: s) user_input) :
    tool.droppedWords user_input = words isSpace (33 :: s) ∧
      tool.arguments (strip user_input) =
        ((strip user_input).drop (33 :: s).length).dropWhile isSpace := by
  have hargs : tool.arguments (strip user_input) =
      afterWords isSpace (words isSpace (33 :: s)).length (strip user_input) := by
    simp only [arguments, prefixWordCount, command_of_prefix hp]
    exact Encoding.splitMax_last _ _
  rw [dropped_of_selected hp h, hargs]
  rcases selected_line hp h with ⟨r, hr⟩ | ⟨k, hne, hk, hline⟩
  · have hdrop : (strip user_input).drop (33 :: s).length = r := by
      rw [hr, List.drop_left]
    have hend := hend ⟨r, hr.symm⟩
    rw [hdrop] at hend
    rw [hdrop, hr, Encoding.words_append hend, List.take_left, Encoding.afterWords_append hend]
    exact ⟨rfl, rfl⟩
  · have hwords : words isSpace (33 :: s) = words isSpace (strip user_input) := by
      have hb : Parted isSpace (strip user_input) k := .inl (by
        simpa using Encoding.Breaks.append (s := []) hk hne)
      rw [hline, Encoding.words_append hb, Encoding.words_gap hk, List.append_nil]
    have hlen : (strip user_input).length ≤ (33 :: s).length := by
      rw [hline, List.length_append]
      omega
    rw [hwords, List.take_length, List.drop_eq_nil_of_le hlen,
      (Encoding.spaced_words _).afterWords_nil le_rfl]
    exact ⟨rfl, rfl⟩

theorem handled_differs (hp : tool.schema.command_prefix = some (33 :: s))
    (h : tool.canHandleCommand user_input = true) (hend : ¬ AtWordEnd (33 :: s) user_input) :
    tool.droppedWords user_input ≠ words isSpace (33 :: s) := by
  have hsel : Selected [] tool user_input := .inl h
  rw [dropped_of_selected hp hsel]
  rw [AtWordEnd, Classical.not_imp] at hend
  obtain ⟨⟨r, hr⟩, hend⟩ := hend
  rw [← hr, List.drop_left] at hend
  rw [← hr]
  exact Encoding.take_append_ne words_bang_ne hend

end

/-- Routing agrees with parsing on a line exactly when every tool prefix that the line starts
with ends where a word of the line does. -/
theorem routing_agrees_iff (tools : List AgentTool) (user_input : Str)
    (hbang : ∀ tool ∈ tools, ∃ s, tool.schema.command_prefix = some (33 :: s)) :
    RoutingAgrees tools user_input ↔
      ∀ tool ∈ tools, ∀ pre, tool.schema.command_prefix = some pre →
        AtWordEnd pre user_input := by
  constructor
  · rintro ⟨h, -⟩ tool htool pre hp
    obtain ⟨s, hs⟩ := hbang tool htool
    obtain rfl : pre = 33 :: s := Option.some.inj (hp.symm.trans hs)
    by_contra hend
    have hhandles : tool.canHandleCommand user_input = true := by
      rw [canHandleCommand, hs]
      rw [AtWordEnd, Classical.not_imp] at hend
      exact List.isPrefixOf_iff_prefix.2 hend.1
    exact handled_differs hs hhandles hend (h tool htool _ hp (.inl hhandles)).1
  · intro h
    have hagree : ∀ tool ∈ tools, ∀ pre, tool.schema.command_prefix = some pre →
        Selected tools tool user_input →
          tool.droppedWords user_input = words isSpace pre ∧
          tool.arguments (strip user_input) =
            ((strip user_input).drop pre.length).dropWhile isSpace ∧
          words isSpace pre <+: words isSpace (strip user_input) := by
      intro tool htool pre hp hsel
      obtain ⟨s, hs⟩ := hbang tool htool
      obtain rfl : pre = 33 :: s := Option.some.inj (hp.symm.trans hs)
      obtain ⟨h1, h2⟩ := selected_agrees hs hsel (h tool htool _ hp)
      refine ⟨h1, h2, ?_⟩
      rw [← h1, dropped_of_selected hs hsel]
      exact List.take_prefix _ _
    refine ⟨fun tool htool pre hp hsel => ?_, ?_⟩
    · obtain ⟨h1, h2, -⟩ := hagree tool htool pre hp hsel
      exact ⟨h1, h2⟩
    · rintro one hone other hother pre post hpre hpost hno hno' ⟨h1, h2⟩
      have hp1 := (hagree one hone pre hpre (.inl h1)).2.2
      have hp2 := (hagree other hother post hpost (.inl h2)).2.2
      rcases List.prefix_or_prefix_of_prefix hp1 hp2 with h | h
      · exact hno h
      · exact hno' h

/-- The tool `mem` under `!mem`, without parameters. -/
def memTool : AgentTool := ⟨str "mem", ⟨some (str "!mem"), []⟩⟩

theorem routing_agrees_at_mem : RoutingAgrees [memTool] (str "!mem x") :=
  (routing_agrees_iff [memTool] (str "!mem x") (by simp [memTool, str])).2 (by
    intro tool htool pre hp
    obtain rfl := List.mem_singleton.1 htool
    obtain rfl : str "!mem" = pre := by simpa [memTool] using hp
    exact fun _ => .inl (by decide))

/-- `!memory x` is sent to the tool under `!mem`, which drops `!memory`. -/
theorem memory_sent_to_mem : ¬ ∀ (tools : List AgentTool) (user_input : Str),
    (∀ tool ∈ tools, ∃ s, tool.schema.command_prefix = some (33 :: s)) →
      RoutingAgrees tools user_input := by
  intro h
  have hagree := (h [memTool] (str "!memory x") (by simp [memTool, str])).1 memTool (by simp)
    (str "!mem") rfl (.inl (by decide))
  exact absurd hagree.1 (by decide)

end KestrelSdk.Commands
