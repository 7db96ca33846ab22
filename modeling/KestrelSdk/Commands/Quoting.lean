import KestrelSdk.Commands.Routing
import Mathlib.Data.List.DropRight

namespace KestrelSdk.Commands

open Json (Str str Value)
open Encoding (isSpace strip words afterWords Breaks)
open KestrelSdk.Order (Mapping)

/-- A value between double quotes. -/
def escapeQuoted (v : Str) : Str := v.flatMap fun c => if c = 34 ∨ c = 92 then [92, c] else [c]

/-- The two ways to quote a value. -/
inductive Quoted (v : Str) : Str → Prop where
  | double : Quoted v (34 :: (escapeQuoted v ++ [34]))
  | single (h : 39 ∉ v) : Quoted v (39 :: (v ++ [39]))

/-- Texts one after the other, each behind some whitespace. -/
inductive Laid : List Str → Str → Prop where
  | nil : Laid [] []
  | cons {g p s : Str} {ps : List Str} (hg : ∀ c ∈ g, isSpace c = true) (hne : g ≠ [])
      (hrest : Laid ps s) : Laid (p :: ps) (g ++ (p ++ s))

def isLetter (c : Nat) : Bool := (65 ≤ c && c ≤ 90) || c == 95 || (97 ≤ c && c ≤ 122)

/-- An ASCII identifier. -/
def IsIdentifier (s : Str) : Prop :=
  ∃ c r, s = c :: r ∧ isLetter c = true ∧ ∀ d ∈ r, (isLetter d || (48 ≤ d && d ≤ 57)) = true

/-- `name=value` with a quoted value. -/
inductive NamedQuoted (e : Str × Str) : Str → Prop where
  | intro {q : Str} (hq : Quoted e.2 q) : NamedQuoted e (e.1 ++ 61 :: q)

/-- A command line of a tool with string parameters: its prefix, quoted values for the first
parameters, and quoted values by name for some of the others. -/
structure QuotedLine (tool : AgentTool) (positional : List Str) (named : List (Str × Str))
    (user_input : Str) : Prop where
  line : ∃ pre rest qs ns, tool.schema.command_prefix = some pre ∧
    (words isSpace pre).head?.bind List.head? = some 33 ∧ user_input = pre ++ rest ∧
    Laid (qs ++ ns) rest ∧ List.Forall₂ Quoted positional qs ∧ List.Forall₂ NamedQuoted named ns
  identifiers : ∀ param ∈ tool.schema.parameters, IsIdentifier param.name
  strings : ∀ param ∈ tool.schema.parameters, param.type = str "string"
  distinct : (tool.schema.parameters.map ToolParameter.name).Nodup
  fits : positional.length ≤ tool.schema.parameters.length
  named_rest : ∀ e ∈ named,
    e.1 ∈ (tool.schema.parameters.map ToolParameter.name).drop positional.length
  named_distinct : (named.map Prod.fst).Nodup

/-- The arguments that the values stand for, with the defaults of the other parameters. -/
def boundValues (parameters : List ToolParameter) (positional : List Str)
    (named : List (Str × Str)) : List (Str × Value) :=
  parameters.filterMap fun param =>
    match (((parameters.map ToolParameter.name).zip positional) ++ named).lookup param.name with
    | some v => some (param.name, .str v)
    | none =>
      match param.default with
      | .none => none
      | v => some (param.name, v)

section
variable {a : Alphabet} {command : Str}

theorem readChars_escaped (opened chars v rest : Str) (hb : Breaks isSpace rest) :
    readChars a command 34 opened chars (escapeQuoted v ++ 34 :: rest) =
      .ok (chars ++ v, rest) := by
  induction v generalizing chars with
  | nil =>
    change readChars a command 34 opened chars (34 :: rest) = _
    cases rest with
    | nil => simp [readChars]
    | cons d s =>
      have hd : isSpace d = true := hb d rfl
      simp [readChars, hd]
  | cons c v ih =>
    have happ : chars ++ c :: v = chars ++ [c] ++ v := by simp
    rw [happ, ← ih]
    by_cases hc : c = 34 ∨ c = 92
    · have hesc : escapeQuoted (c :: v) ++ 34 :: rest =
          92 :: c :: (escapeQuoted v ++ 34 :: rest) := by simp [escapeQuoted, hc]
      rw [hesc]
      rcases hc with rfl | rfl <;> simp [readChars]
    · have hesc : escapeQuoted (c :: v) ++ 34 :: rest = c :: (escapeQuoted v ++ 34 :: rest) := by
        simp [escapeQuoted, hc]
      rw [not_or] at hc
      rw [hesc]
      cases hs : escapeQuoted v ++ 34 :: rest with
      | nil => simp at hs
      | cons d s => simp [readChars, hc.1, hc.2]

theorem readChars_single (opened chars v rest : Str) (hv : 39 ∉ v) (hb : Breaks isSpace rest) :
    readChars a command 39 opened chars (v ++ 39 :: rest) = .ok (chars ++ v, rest) := by
  induction v generalizing chars with
  | nil =>
    change readChars a command 39 opened chars (39 :: rest) = _
    cases rest with
    | nil => simp [readChars]
    | cons d s =>
      have hd : isSpace d = true := hb d rfl
      simp [readChars, hd]
  | cons c v ih =>
    rw [List.mem_cons, not_or] at hv
    have happ : chars ++ c :: v = chars ++ [c] ++ v := by simp
    rw [happ, ← ih _ hv.2, List.cons_append]
    cases hs : v ++ 39 :: rest with
    | nil => simp at hs
    | cons d s => simp [readChars, Ne.symm hv.1]

variable (a command) in
/-- A quoted value is read up to its closing quote. -/
theorem Quoted.read {v q : Str} (hq : Quoted v q) (rest : Str) (hb : Breaks isSpace rest) :
    ∃ c s, q ++ rest = c :: s ∧ isQuote c = true ∧
      readQuoted a command c s = .ok (v, rest) := by
  cases hq with
  | double =>
    refine ⟨34, escapeQuoted v ++ 34 :: rest, by simp, rfl, ?_⟩
    exact readChars_escaped _ [] v rest hb
  | single hv =>
    refine ⟨39, v ++ 39 :: rest, by simp, rfl, ?_⟩
    exact readChars_single _ [] v rest hv hb

/-- A text that one turn of the tokenizer reads as a token. -/
def Reads (a : Alphabet) (command : Str) (piece : Str) (token : CommandToken) : Prop :=
  (∃ c ∈ piece.head?, isSpace c = false) ∧
    ∀ rest, Breaks isSpace rest → nextToken a command (piece ++ rest) = .ok (token, rest)

theorem Quoted.reads {v q : Str} (hq : Quoted v q) : Reads a command q ⟨v, none⟩ := by
  constructor
  · cases hq with
    | double => exact ⟨34, rfl, rfl⟩
    | single => exact ⟨39, rfl, rfl⟩
  · intro rest hb
    obtain ⟨c, s, hcs, hquote, hr⟩ := hq.read a command rest hb
    rw [hcs, nextToken, if_pos hquote, hr]

theorem isWord_of_isLetter {c : Nat} (h : (isLetter c || (48 ≤ c && c ≤ 57)) = true) :
    a.isWord c = true := by
  simp only [isLetter, Bool.or_eq_true, Bool.and_eq_true, decide_eq_true_eq, beq_iff_eq] at h
  have hlt : c < 128 := by omega
  simp only [Alphabet.isWord, if_pos hlt, Bool.or_eq_true, Bool.and_eq_true, decide_eq_true_eq,
    beq_iff_eq]
  omega

theorem letter_not_digit {c : Nat} (h : isLetter c = true) :
    a.isDigit c = false ∧ isQuote c = false ∧ isSpace c = false := by
  simp only [isLetter, Bool.or_eq_true, Bool.and_eq_true, decide_eq_true_eq, beq_iff_eq] at h
  have hlt : c < 128 := by omega
  refine ⟨?_, ?_, ?_⟩
  · simp only [Alphabet.isDigit, if_pos hlt, Bool.and_eq_false_iff, decide_eq_false_iff_not]
    omega
  · simp only [isQuote, Bool.or_eq_false_iff, beq_eq_false_iff_ne]
    omega
  · simp only [isSpace, Bool.or_eq_false_iff, Bool.and_eq_false_iff, decide_eq_false_iff_not,
      beq_eq_false_iff_ne]
    omega

/-- An identifier with `=` behind it is the head of a named token. -/
theorem namedToken_identifier {name : Str} (h : IsIdentifier name) (rest : Str) :
    namedToken a (name ++ 61 :: rest) = some (name, rest) := by
  obtain ⟨c, r, rfl, hc, hr⟩ := h
  have hword : a.isWord c = true := isWord_of_isLetter (by rw [hc]; rfl)
  have hall : ∀ d ∈ r, a.isWord d = true := fun d hd => isWord_of_isLetter (hr d hd)
  have heq : a.isWord 61 = false := by simp [Alphabet.isWord]
  have hdrop : (r ++ 61 :: rest).dropWhile a.isWord = 61 :: rest := by
    rw [List.dropWhile_append_of_pos hall, List.dropWhile_cons_of_neg (by simp [heq])]
  have htake : (r ++ 61 :: rest).takeWhile a.isWord = r := by
    rw [List.takeWhile_append_of_pos hall, List.takeWhile_cons_of_neg (by simp [heq]),
      List.append_nil]
  rw [List.cons_append, namedToken, hword, (letter_not_digit hc).1, hdrop, htake]
  rfl

theorem NamedQuoted.reads {e : Str × Str} {q : Str} (hq : NamedQuoted e q)
    (hname : IsIdentifier e.1) : Reads a command q ⟨e.1 ++ [61] ++ e.2, some e⟩ := by
  obtain ⟨c, r, hcr, hc, hr⟩ := id hname
  have hletter := letter_not_digit (a := a) hc
  cases hq with
  | @intro q hq =>
    constructor
    · exact ⟨c, by rw [hcr]; rfl, hletter.2.2⟩
    · intro rest hb
      obtain ⟨d, s, hds, hquote, hread⟩ := hq.read a command rest hb
      have hnamed : namedToken a (e.1 ++ 61 :: (d :: s)) = some (e.1, d :: s) :=
        namedToken_identifier hname _
      rw [List.append_assoc, List.cons_append, hds]
      rw [hcr] at hnamed ⊢
      rw [List.cons_append] at hnamed ⊢
      rw [nextToken, hletter.2.1, hnamed]
      simp [hquote, hread, ← hcr]

theorem reads_positional {positional qs : List Str} (h : List.Forall₂ Quoted positional qs) :
    List.Forall₂ (Reads a command) qs (positional.map (⟨·, none⟩)) := by
  induction h with
  | nil => exact .nil
  | cons hq _ ih => exact .cons hq.reads ih

theorem reads_named {named : List (Str × Str)} {ns : List Str}
    (h : List.Forall₂ NamedQuoted named ns) (hid : ∀ e ∈ named, IsIdentifier e.1) :
    List.Forall₂ (Reads a command) ns
      (named.map fun e => ⟨e.1 ++ [61] ++ e.2, some e⟩) := by
  induction h with
  | nil => exact .nil
  | @cons e _ named _ hq _ ih =>
    apply List.Forall₂.cons
    · exact hq.reads (hid e (List.mem_cons_self ..))
    · exact ih fun d hd => hid d (List.mem_cons_of_mem e hd)

/-- Pieces that are laid out one by one are read one by one. -/
theorem Laid.tokenize {pieces : List Str} {line : Str} (h : Laid pieces line)
    {tokens : List CommandToken} (hreads : List.Forall₂ (Reads a command) pieces tokens)
    (before : List CommandToken) (fuel : Nat) (hfuel : pieces.length < fuel) :
    tokenizeLoop a command fuel line before = some (.ok (before ++ tokens)) := by
  induction h generalizing tokens before fuel with
  | nil =>
    cases hreads
    obtain ⟨n, rfl⟩ : ∃ n, fuel = n + 1 := ⟨fuel - 1, by simp at hfuel; omega⟩
    simp [tokenizeLoop]
  | @cons g p s ps hg hne hrest ih =>
    cases hreads with
    | @cons _ token _ tokens hread hreads =>
      obtain ⟨n, rfl⟩ : ∃ n, fuel = n + 1 := ⟨fuel - 1, by simp at hfuel; omega⟩
      obtain ⟨⟨c, hc, hsp⟩, hnext⟩ := hread
      have hb : Breaks isSpace s := by
        cases hrest with
        | nil => simp [Breaks]
        | cons hg hne _ => exact Encoding.Breaks.append hg hne
      obtain ⟨r, rfl⟩ : ∃ r, p = c :: r := by
        cases p with
        | nil => simp at hc
        | cons d r => exact ⟨r, by simp at hc; rw [hc]⟩
      have hdrop : (g ++ (c :: r ++ s)).dropWhile isSpace = c :: (r ++ s) := by
        rw [Encoding.dropWhile_gap hg, List.cons_append, List.dropWhile_cons_of_neg (by simp [hsp])]
      have hn : nextToken a command (c :: (r ++ s)) = .ok (token, s) := hnext s hb
      rw [tokenizeLoop, hdrop]
      simp only [hn]
      rw [ih hreads (before ++ [token]) n (by simpa using hfuel), List.append_assoc,
        List.singleton_append]

theorem tokenizeLoop_dropWhile (fuel : Nat) (line : Str) (before : List CommandToken) :
    tokenizeLoop a command fuel (line.dropWhile isSpace) before =
      tokenizeLoop a command fuel line before := by
  cases fuel with
  | zero => rfl
  | succ n =>
    have hidem : (line.dropWhile isSpace).dropWhile isSpace = line.dropWhile isSpace :=
      List.dropWhile_idempotent ..
    rw [tokenizeLoop, tokenizeLoop, hidem]

end

section
variable {sh : Shell} {command : Str} {parameters : Mapping Str ToolParameter}

theorem sortTokens_named (named : List (Str × Str)) (positional : List Str)
    (before : List (Str × Str)) (hmem : ∀ e ∈ named, (parameters.get e.1).isSome = true) :
    sortTokens sh command parameters positional before
      (named.map fun e => ⟨e.1 ++ [61] ++ e.2, some e⟩) = .ok (positional, before ++ named) := by
  induction named generalizing before with
  | nil => simp [sortTokens]
  | cons e named ih =>
    have he := hmem e (List.mem_cons_self ..)
    rw [List.map_cons, sortTokens, Option.filter_some, if_pos he]
    simp only
    rw [ih (before ++ [e]) fun d hd => hmem d (List.mem_cons_of_mem e hd), List.append_assoc,
      List.singleton_append]

theorem sortTokens_positional (positional before : List Str) (tokens : List CommandToken) :
    sortTokens sh command parameters before [] (positional.map (⟨·, none⟩) ++ tokens) =
      sortTokens sh command parameters (before ++ positional) [] tokens := by
  induction positional generalizing before with
  | nil => simp
  | cons v positional ih =>
    rw [List.map_cons, List.cons_append, sortTokens]
    simp only [Option.filter_none, List.isEmpty_nil, if_true]
    rw [ih, List.append_assoc, List.singleton_append]

variable (sh command) in
/-- Named values for distinct parameters that have none yet are all supplied. -/
theorem supplyNamed_ok {named : List (Str × Str)} (supplied : Supplied)
    (hnd : (named.map Prod.fst).Nodup) (hfresh : ∀ e ∈ named, supplied.get e.1 = none) :
    ∃ m, supplyNamed sh command supplied named = .ok m ∧
      ∀ k, (m.get k).map Prod.fst = (named.lookup k).or ((supplied.get k).map Prod.fst) := by
  induction named generalizing supplied with
  | nil => exact ⟨supplied, rfl, fun k => by simp⟩
  | cons e named ih =>
    obtain ⟨name, value⟩ := e
    rw [List.map_cons, List.nodup_cons] at hnd
    have hnone : supplied.get name = none := hfresh (name, value) (List.mem_cons_self ..)
    have hne : ∀ e ∈ named, e.1 ≠ name := by
      intro e he h
      exact hnd.1 (List.mem_map.2 ⟨e, he, h⟩)
    obtain ⟨m, hm, hget⟩ := ih (supplied.set name (value, againText sh name value)) hnd.2 (by
      intro e he
      rw [Mapping.get_set, if_neg (hne e he)]
      exact hfresh e (List.mem_cons_of_mem _ he))
    refine ⟨m, ?_, ?_⟩
    · rw [supplyNamed, hnone]
      exact hm
    · intro k
      rw [hget, Mapping.get_set, List.lookup_cons]
      by_cases h : k = name
      · subst h
        have : named.lookup k = none := List.lookup_eq_none_iff.2 fun e he => by
          simpa using (hne e he).symm
        simp [this]
      · have hb : (k == name) = false := by simpa using h
        simp [h, hb]

variable (sh command) in
theorem convertCommandValue_string {param : ToolParameter} (h : param.type = str "string")
    (text : Str) : convertCommandValue sh command param text = .ok (.str text) := by
  have hobject : str "string" ≠ str "object" := by decide
  have harray : str "string" ≠ str "array" := by decide
  rw [convertCommandValue, h, if_pos ⟨hobject, harray⟩, coerceType, coerceJsonValue,
    if_neg (by decide), if_neg (by decide), if_neg (by decide), Option.getD_some]

theorem bindArguments_strings (supplied : Supplied) (params : List ToolParameter)
    (given : List (Str × Str)) (hstr : ∀ param ∈ params, param.type = str "string")
    (hgiven : ∀ param ∈ params,
      (supplied.get param.name).map Prod.fst = given.lookup param.name) :
    bindArguments sh command supplied (params.map fun param => (param.name, param)) =
      .ok (params.filterMap fun param =>
        match given.lookup param.name with
        | some v => some (param.name, .str v)
        | none =>
          match param.default with
          | .none => none
          | v => some (param.name, v)) := by
  induction params with
  | nil => rfl
  | cons param params ih =>
    have htail := ih (fun p hp => hstr p (List.mem_cons_of_mem param hp))
      fun p hp => hgiven p (List.mem_cons_of_mem param hp)
    have hhere := hgiven param (List.mem_cons_self ..)
    rw [List.map_cons, bindArguments, htail, bindArgument]
    cases hs : supplied.get param.name with
    | none =>
      rw [hs, Option.map_none] at hhere
      cases hd : param.default <;>
        simp [← hhere, hd, bind, Except.bind, pure, Except.pure]
    | some v =>
      rw [hs, Option.map_some] at hhere
      have hconv := convertCommandValue_string sh command (hstr param (List.mem_cons_self ..)) v.1
      simp [hconv, ← hhere, bind, Except.bind, pure, Except.pure, Except.map]

end

theorem Laid.breaks {pieces : List Str} {line : Str} (h : Laid pieces line) :
    Breaks isSpace line := by
  cases h with
  | nil => simp [Breaks]
  | cons hg hne _ => exact Encoding.Breaks.append hg hne

/-- A line of pieces ends as its last piece does. -/
theorem Laid.last {pieces : List Str} {line : Str} (h : Laid pieces line)
    (hp : ∀ p ∈ pieces, ∃ c ∈ p.getLast?, isSpace c = false) :
    line = [] ∨ ∃ c ∈ line.getLast?, isSpace c = false := by
  induction h with
  | nil => exact .inl rfl
  | @cons g p s ps hg hne hrest ih =>
    right
    obtain ⟨c, hc, hsp⟩ : ∃ c ∈ (p ++ s).getLast?, isSpace c = false := by
      rcases ih fun q hq => hp q (List.mem_cons_of_mem p hq) with rfl | ⟨c, hc, hsp⟩
      · rw [List.append_nil]
        exact hp p (List.mem_cons_self ..)
      · refine ⟨c, ?_, hsp⟩
        rw [Option.mem_def] at hc ⊢
        rw [List.getLast?_append, hc, Option.some_or]
    refine ⟨c, ?_, hsp⟩
    rw [Option.mem_def] at hc ⊢
    rw [List.getLast?_append, hc, Option.some_or]

theorem Quoted.last {v q : Str} (h : Quoted v q) : ∃ c ∈ q.getLast?, isSpace c = false := by
  cases h with
  | double => exact ⟨34, by simp [List.getLast?_cons], rfl⟩
  | single => exact ⟨39, by simp [List.getLast?_cons], rfl⟩

theorem NamedQuoted.last {e : Str × Str} {q : Str} (h : NamedQuoted e q) :
    ∃ c ∈ q.getLast?, isSpace c = false := by
  cases h with
  | @intro q hq =>
    obtain ⟨c, hc, hsp⟩ := hq.last
    refine ⟨c, ?_, hsp⟩
    rw [Option.mem_def] at hc ⊢
    have : (61 :: q).getLast? = some c := by rw [List.getLast?_cons, hc, Option.getD_some]
    rw [List.getLast?_append, this, Option.some_or]

/-- The text behind the words of the prefix. -/
theorem afterWords_line {pre rest : Str} {pieces : List Str} (h : Laid pieces rest)
    (hp : ∀ p ∈ pieces, ∃ c ∈ p.getLast?, isSpace c = false) :
    afterWords isSpace (words isSpace pre).length (strip (pre ++ rest)) =
      rest.dropWhile isSpace := by
  rcases h.last hp with rfl | ⟨c, hc, hsp⟩
  · rw [List.append_nil, ← words_strip pre, (Encoding.spaced_words _).afterWords_nil le_rfl]
    rfl
  · obtain ⟨g, hg, hgap⟩ := exists_strip_left (s := pre ++ rest) ⟨c, by
      rw [Option.mem_def] at hc ⊢
      rw [List.getLast?_append, hc, Option.some_or], hsp⟩
    rw [← Encoding.afterWords_gap hgap, ← hg, Encoding.afterWords_append (.inl h.breaks)]

theorem exists_of_forall₂ {α β : Type} {R : α → β → Prop} {l : List α} {r : List β}
    (h : List.Forall₂ R l r) {b : β} (hb : b ∈ r) : ∃ a, R a b := by
  induction h with
  | nil => simp at hb
  | @cons a c l r hac _ ih =>
    rcases List.mem_cons.1 hb with rfl | hb
    · exact ⟨a, hac⟩
    · exact ih hb

theorem lookup_map_text {α β : Type} (f : Str × α → β) (es : List (Str × α)) (k : Str) :
    ((es.map fun e => (e.1, e.2, f e)).lookup k).map Prod.fst = es.lookup k := by
  induction es with
  | nil => rfl
  | cons e es ih =>
    obtain ⟨l, v⟩ := e
    by_cases h : k = l
    · simp [h]
    · have hb : (k == l) = false := by simpa using h
      rw [List.map_cons, List.lookup_cons, List.lookup_cons, hb]
      exact ih

theorem keys_zip {names positional : List Str} (h : positional.length ≤ names.length) :
    (names.zip positional).map Prod.fst = names.take positional.length := by
  induction positional generalizing names with
  | nil => simp
  | cons v positional ih =>
    cases names with
    | nil => simp at h
    | cons n names =>
      rw [List.zip_cons_cons, List.map_cons, ih (by simpa using h), List.length_cons,
        List.take_succ_cons]

namespace QuotedLine

variable {tool : AgentTool} {positional : List Str} {named : List (Str × Str)} {user_input : Str}

theorem parameters_entries (h : QuotedLine tool positional named user_input) :
    tool.parameters.entries =
      tool.schema.parameters.map fun param => (param.name, param) := by
  rw [AgentTool.parameters, Mapping.entries_ofList (by simpa [Function.comp_def] using h.distinct)]

theorem parameters_keys (h : QuotedLine tool positional named user_input) :
    tool.parameters.keys = tool.schema.parameters.map ToolParameter.name := by
  rw [Mapping.keys, h.parameters_entries, List.map_map]
  rfl

theorem named_known (h : QuotedLine tool positional named user_input) {e : Str × Str}
    (he : e ∈ named) : e.1 ∈ tool.schema.parameters.map ToolParameter.name :=
  List.mem_of_mem_drop (h.named_rest e he)

theorem identifier (h : QuotedLine tool positional named user_input) {e : Str × Str}
    (he : e ∈ named) : IsIdentifier e.1 := by
  obtain ⟨param, hparam, hname⟩ := List.mem_map.1 (h.named_known he)
  rw [← hname]
  exact h.identifiers param hparam

/-- The positional values are supplied for the first parameters. -/
theorem supplied (sh : Shell) (h : QuotedLine tool positional named user_input) (k : Str) :
    ((supplyPositional sh tool.parameters positional).get k).map Prod.fst =
      ((tool.schema.parameters.map ToolParameter.name).zip positional).lookup k := by
  have hzip : ((tool.schema.parameters.map ToolParameter.name).zip positional).map Prod.fst =
      (tool.schema.parameters.map ToolParameter.name).take positional.length :=
    keys_zip (by simpa using h.fits)
  rw [supplyPositional, h.parameters_keys, Mapping.get_eq_lookup, Mapping.entries_ofList]
  · exact lookup_map_text _ _ k
  · rw [List.map_map]
    change (((tool.schema.parameters.map ToolParameter.name).zip positional).map Prod.fst).Nodup
    rw [hzip]
    exact h.distinct.sublist (List.take_sublist _ _)

theorem not_positional (h : QuotedLine tool positional named user_input) {e : Str × Str}
    (he : e ∈ named) :
    ((tool.schema.parameters.map ToolParameter.name).zip positional).lookup e.1 = none := by
  apply List.lookup_eq_none_iff.2
  intro d hd
  have hmem : d.1 ∈ (tool.schema.parameters.map ToolParameter.name).take positional.length := by
    rw [← keys_zip (by simpa using h.fits)]
    exact List.mem_map_of_mem hd
  have hnd := h.distinct
  rw [← List.take_append_drop positional.length
    (tool.schema.parameters.map ToolParameter.name)] at hnd
  have hne := (List.nodup_append.1 hnd).2.2 _ hmem _ (h.named_rest e he)
  simpa using fun heq => hne heq.symm

/-- The tokens of the line are its values. -/
theorem tokens (sh : Shell) (h : QuotedLine tool positional named user_input) :
    (strip user_input).head? = some 33 ∧
      tokenizeCommand sh.toAlphabet (tool.command (strip user_input))
        (tool.arguments (strip user_input)) =
        .ok (positional.map (⟨·, none⟩) ++ named.map fun e => ⟨e.1 ++ [61] ++ e.2, some e⟩) := by
  obtain ⟨pre, rest, qs, ns, hpre, hbang, rfl, hlaid, hqs, hns⟩ := h.line
  have hhead : (strip (pre ++ rest)).head? = some 33 := by
    rw [head_strip, Encoding.words_append (.inl hlaid.breaks)]
    cases hw : words isSpace pre with
    | nil => simp [hw] at hbang
    | cons w ws => simpa [hw] using hbang
  refine ⟨hhead, ?_⟩
  have hcommand : tool.command (strip (pre ++ rest)) = pre := by
    cases pre with
    | nil => simp [words, Encoding.splitMax] at hbang
    | cons c s => rw [AgentTool.command, hpre]
  have hlast : ∀ p ∈ qs ++ ns, ∃ c ∈ p.getLast?, isSpace c = false := by
    intro p hp
    rcases List.mem_append.1 hp with hp | hp
    · obtain ⟨v, hv⟩ := exists_of_forall₂ hqs hp
      exact hv.last
    · obtain ⟨e, he⟩ := exists_of_forall₂ hns hp
      exact he.last
  have harguments : tool.arguments (strip (pre ++ rest)) = rest.dropWhile isSpace := by
    simp only [AgentTool.arguments, AgentTool.prefixWordCount, hcommand]
    rw [Encoding.splitMax_last, afterWords_line hlaid hlast]
  have hreads : List.Forall₂ (Reads sh.toAlphabet pre) (qs ++ ns)
      (positional.map (⟨·, none⟩) ++ named.map fun e => ⟨e.1 ++ [61] ++ e.2, some e⟩) := by
    apply List.rel_append
    · exact reads_positional hqs
    · exact reads_named hns fun e he => h.identifier he
  rw [hcommand, harguments]
  have hloop := tokenizeCommand_loop sh.toAlphabet pre (rest.dropWhile isSpace)
    ((rest.dropWhile isSpace).length + (qs ++ ns).length + 1) (by omega)
  rw [tokenizeLoop_dropWhile, hlaid.tokenize hreads [] _ (by omega)] at hloop
  exact (Option.some.inj hloop).symm

end QuotedLine

/-- A quoted line is parsed into its values. The tokenizer ends on every line: it consumes all of
it or raises, and names no token that starts with a quote. -/
theorem quoted_line_parsed (sh : Shell) (tool : AgentTool) (positional : List Str)
    (named : List (Str × Str)) (user_input : Str)
    (h : QuotedLine tool positional named user_input) :
    tool.parseCommandArgs sh user_input =
        .ok (boundValues tool.schema.parameters positional named) ∧
      ∀ (a : Alphabet) (command line : Str),
        (∀ fuel, line.length < fuel →
          tokenizeLoop a command fuel line [] = some (tokenizeCommand a command line)) ∧
        ∀ tokens, tokenizeCommand a command line = .ok tokens → Consumed line tokens := by
  refine ⟨?_, fun a command line =>
    ⟨fun fuel hfuel => tokenizeCommand_loop a command line fuel hfuel,
      fun tokens => tokenizeCommand_consumes⟩⟩
  obtain ⟨hhead, htokens⟩ := h.tokens sh
  have hknown : ∀ e ∈ named, (tool.parameters.get e.1).isSome = true := by
    intro e he
    rw [← Mapping.mem_keys_iff, h.parameters_keys]
    exact h.named_known he
  have hfits : ¬ tool.parameters.keys.length < positional.length := by
    rw [h.parameters_keys, List.length_map]
    exact not_lt.2 h.fits
  have hfresh : ∀ e ∈ named,
      (supplyPositional sh tool.parameters positional).get e.1 = none := by
    intro e he
    have := h.supplied sh e.1
    rw [h.not_positional he] at this
    exact Option.map_eq_none_iff.1 this
  obtain ⟨m, hm, hget⟩ := supplyNamed_ok sh (tool.command (strip user_input))
    (supplyPositional sh tool.parameters positional) h.named_distinct hfresh
  have hgiven : ∀ param ∈ tool.schema.parameters, (m.get param.name).map Prod.fst =
      (((tool.schema.parameters.map ToolParameter.name).zip positional) ++ named).lookup
        param.name := by
    intro param _
    rw [hget, h.supplied sh, List.lookup_append]
    cases hl : named.lookup param.name with
    | none => rw [Option.none_or, Option.or_none]
    | some v =>
      have hmem : (param.name, v) ∈ named := by
        obtain ⟨l₁, l₂, hnamed, -⟩ := List.lookup_eq_some_iff.1 hl
        rw [hnamed]
        exact List.mem_append_right l₁ (List.mem_cons_self ..)
      rw [h.not_positional hmem]
      rfl
  rw [AgentTool.parseCommandArgs]
  simp only [hhead, ne_eq, not_true_eq_false, if_false, htokens]
  rw [bindTokens, sortTokens_positional, sortTokens_named _ _ _ hknown]
  simp only [List.nil_append, bind, Except.bind, if_neg hfits, hm]
  rw [h.parameters_entries]
  exact bindArguments_strings m tool.schema.parameters _ h.strings hgiven

/-- `!mem search` with the string parameters `query` and `limit`. -/
def searchTool : AgentTool :=
  ⟨str "search", ⟨some (str "!mem search"),
    [⟨str "query", str "string", .none, false⟩, ⟨str "limit", str "string", .str (str "5"), false⟩]⟩⟩

theorem searchTool_line : QuotedLine searchTool [str "a \"b"] [(str "limit", str "x y")]
    (str "!mem search \"a \\\"b\"  limit='x y'") where
  line := by
    have hlimit : NamedQuoted (str "limit", str "x y") (str "limit" ++ 61 :: str "'x y'") :=
      .intro (.single (by decide))
    refine ⟨str "!mem search", str " " ++ (str "\"a \\\"b\"" ++
      (str "  " ++ (str "limit" ++ 61 :: str "'x y'" ++ []))), [_], [_], rfl, by decide, rfl,
      .cons (by decide) (by decide) (.cons (by decide) (by decide) .nil),
      .cons .double .nil, .cons hlimit .nil⟩
  identifiers := by
    intro param hparam
    rcases List.mem_pair.1 hparam with rfl | rfl
    · exact ⟨113, str "uery", rfl, rfl, by decide⟩
    · exact ⟨108, str "imit", rfl, rfl, by decide⟩
  strings := by
    intro param hparam
    rcases List.mem_pair.1 hparam with rfl | rfl <;> rfl
  distinct := by decide
  fits := by decide
  named_rest := by decide
  named_distinct := by decide

/-- A shell that knows ASCII. -/
def asciiShell : Shell where
  repr s := [39] ++ s ++ [39]
  word _ := false
  digit _ := false
  word_not_space := by simp
  json := .floatless
  intOf _ := none
  floatOf _ := none
  lower s := s

theorem searchTool_parsed : searchTool.parseCommandArgs asciiShell
    (str "!mem search \"a \\\"b\"  limit='x y'") =
      .ok [(str "query", .str (str "a \"b")), (str "limit", .str (str "x y"))] :=
  (quoted_line_parsed asciiShell searchTool _ _ _ searchTool_line).1

end KestrelSdk.Commands
