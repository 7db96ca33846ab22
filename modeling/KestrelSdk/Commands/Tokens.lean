import KestrelSdk.Encoding.Strip
import KestrelSdk.Encoding.Words

namespace KestrelSdk.Commands

open Json (Str str)
open Encoding (isSpace Breaks)

/-- `CommandParseError`: the command and what is wrong with its line. -/
structure CommandParseError where
  command : Str
  message : Str
  deriving DecidableEq

/-- `str(error)`. -/
def CommandParseError.text (e : CommandParseError) : Str := e.command ++ str ": " ++ e.message

/-- What the parser takes from its interpreter: `repr` of a string, and which characters beyond
ASCII are letters or digits (`\w`) and decimal digits (`\d`). -/
structure Alphabet where
  repr : Str → Str
  word : Nat → Bool
  digit : Nat → Bool
  word_not_space : ∀ c, word c = true → isSpace c = false

namespace Alphabet

def isWord (a : Alphabet) (c : Nat) : Bool :=
  if c < 128 then (48 ≤ c && c ≤ 57) || (65 ≤ c && c ≤ 90) || c == 95 || (97 ≤ c && c ≤ 122)
  else a.word c

def isDigit (a : Alphabet) (c : Nat) : Bool :=
  if c < 128 then 48 ≤ c && c ≤ 57 else a.digit c

end Alphabet

def isQuote (c : Nat) : Bool := c == 34 || c == 39

/-- How much of a typed value an error message echoes. -/
def ECHO_LIMIT : Nat := 60

def echo (a : Alphabet) (text : Str) : Str :=
  let rendered := a.repr text
  if rendered.length > ECHO_LIMIT then rendered.take ECHO_LIMIT ++ str "..." else rendered

/-- One argument of a command line. `named` holds the `name` and the `value` of a bare
`name=value`, which come together. -/
structure CommandToken where
  text : Str
  named : Option (Str × Str)
  deriving DecidableEq

def trailingText (a : Alphabet) (quote d : Nat) (chars : Str) : Str :=
  str "unexpected " ++ echo a [d] ++ str " after the closing " ++ [quote] ++ str " of " ++
    echo a chars ++ str "; a quoted value ends at its closing quote, so to pass a value " ++
    str "containing spaces or quotes, quote the whole value (single quotes keep double " ++
    str "quotes inside it)"

def unbalancedText (a : Alphabet) (quote : Nat) (opened : Str) : Str :=
  str "unbalanced quote: the " ++ [quote] ++ str " that opens " ++ echo a opened ++
    str " is never closed; a value that starts with a quote must end with the same quote"

section
variable (a : Alphabet) (command : Str)

/-- The loop of `_read_quoted` over what follows the opening quote. `opened` is the line from
that quote on, `chars` is what was read. It leaves the line past the closing quote. -/
def readChars (quote : Nat) (opened : Str) : Str → Str → Except CommandParseError (Str × Str)
  | _, [] => .error ⟨command, unbalancedText a quote opened⟩
  | chars, char :: s =>
    if char = quote then
      match s with
      | [] => .ok (chars, [])
      | d :: s =>
        if isSpace d then .ok (chars, d :: s)
        else .error ⟨command, trailingText a quote d chars⟩
    else
      match s with
      | d :: s =>
        if quote = 34 ∧ char = 92 ∧ (d = 34 ∨ d = 92) then readChars quote opened (chars ++ [d]) s
        else readChars quote opened (chars ++ [char]) (d :: s)
      | [] => readChars quote opened (chars ++ [char]) []

/-- `_read_quoted(line, start, command)`, where the line from `start` on is `quote :: s`. -/
def readQuoted (quote : Nat) (s : Str) : Except CommandParseError (Str × Str) :=
  readChars a command quote (quote :: s) [] s

/-- `_NAMED_TOKEN.match(line, index)`: the name, and the line past its `=`. -/
def namedToken : Str → Option (Str × Str)
  | [] => none
  | c :: s =>
    if a.isWord c && !a.isDigit c then
      match s.dropWhile a.isWord with
      | 61 :: r => some (c :: s.takeWhile a.isWord, r)
      | _ => none
    else none

/-- The token that an unquoted word stands for. -/
def wordToken (line : Str) : CommandToken :=
  let text := line.takeWhile fun c => !isSpace c
  match namedToken a line with
  | some (name, r) => ⟨text, some (name, r.takeWhile fun c => !isSpace c)⟩
  | none => ⟨text, none⟩

/-- The turn of the loop of `_tokenize_command` at a line that starts with no whitespace. -/
def nextToken (line : Str) : Except CommandParseError (CommandToken × Str) :=
  match line with
  | [] => .ok (wordToken a [], [])
  | c :: s =>
    if isQuote c then
      match readQuoted a command c s with
      | .ok (value, rest) => .ok (⟨value, none⟩, rest)
      | .error e => .error e
    else
      match namedToken a (c :: s) with
      | some (name, quote :: r) =>
        if isQuote quote then
          match readQuoted a command quote r with
          | .ok (value, rest) => .ok (⟨name ++ [61] ++ value, some (name, value)⟩, rest)
          | .error e => .error e
        else .ok (wordToken a (c :: s), (c :: s).dropWhile fun d => !isSpace d)
      | _ => .ok (wordToken a (c :: s), (c :: s).dropWhile fun d => !isSpace d)

/-- The loop of `_tokenize_command`, cut off after `fuel` turns. -/
def tokenizeLoop :
    Nat → Str → List CommandToken → Option (Except CommandParseError (List CommandToken))
  | 0, _, _ => none
  | fuel + 1, line, tokens =>
    match line.dropWhile isSpace with
    | [] => some (.ok tokens)
    | c :: s =>
      match nextToken a command (c :: s) with
      | .error e => some (.error e)
      | .ok (token, rest) => tokenizeLoop fuel rest (tokens ++ [token])

/-- `_tokenize_command(line, command)`. A turn that starts at a character takes it. -/
def tokenizeCommand (line : Str) : Except CommandParseError (List CommandToken) :=
  (tokenizeLoop a command (line.length + 1) line []).getD (.ok [])

end

/-- A line and the tokens that were read off it: nothing but whitespace lies between them, and
one that starts with a quote has no name. -/
inductive Consumed : Str → List CommandToken → Prop where
  | nil {g : Str} (hg : ∀ c ∈ g, isSpace c = true) : Consumed g []
  | cons {g s : Str} {c : Nat} {piece : Str} {t : CommandToken} {ts : List CommandToken}
      (hg : ∀ d ∈ g, isSpace d = true) (hc : isSpace c = false) (hs : Breaks isSpace s)
      (hquoted : isQuote c = true → t.named = none) (hrest : Consumed s ts) :
      Consumed (g ++ (c :: piece ++ s)) (t :: ts)

variable {a : Alphabet} {command : Str}

theorem readChars_consumes {quote : Nat} {opened chars s value rest : Str}
    (h : readChars a command quote opened chars s = .ok (value, rest)) :
    (∃ body, s = body ++ rest) ∧ Breaks isSpace rest := by
  fun_induction readChars a command quote opened chars s with
  | case1 chars => simp at h
  | case2 chars =>
    obtain ⟨-, rfl⟩ : chars = value ∧ [] = rest := by simpa using h
    exact ⟨⟨[quote], rfl⟩, by simp [Breaks]⟩
  | case3 chars d s hd =>
    obtain ⟨-, rfl⟩ : chars = value ∧ d :: s = rest := by simpa using h
    exact ⟨⟨[quote], rfl⟩, by simpa [Breaks] using hd⟩
  | case4 chars d s hd => simp at h
  | case5 chars char hne d s hesc ih =>
    obtain ⟨⟨body, hs⟩, hb⟩ := ih h
    exact ⟨⟨char :: d :: body, by rw [hs]; rfl⟩, hb⟩
  | case6 chars char hne d s hesc ih =>
    obtain ⟨⟨body, hs⟩, hb⟩ := ih h
    exact ⟨⟨char :: body, by rw [hs]; rfl⟩, hb⟩
  | case7 chars char hne ih =>
    obtain ⟨⟨body, hs⟩, hb⟩ := ih h
    exact ⟨⟨char :: body, by rw [List.cons_append, ← hs]⟩, hb⟩

theorem namedToken_append {line name r : Str} (h : namedToken a line = some (name, r)) :
    line = name ++ 61 :: r := by
  cases line with
  | nil => simp [namedToken] at h
  | cons c s =>
    simp only [namedToken] at h
    split at h
    · split at h
      · rename_i r' hd
        obtain ⟨rfl, rfl⟩ : c :: s.takeWhile a.isWord = name ∧ r' = r := by simpa using h
        rw [List.cons_append, ← hd, List.takeWhile_append_dropWhile]
      · simp at h
    · simp at h

/-- One turn takes a piece that starts with the character it stands at. -/
theorem nextToken_consumes {c : Nat} {s rest : Str} {t : CommandToken} (hc : isSpace c = false)
    (h : nextToken a command (c :: s) = .ok (t, rest)) :
    (∃ piece, c :: s = c :: piece ++ rest) ∧ Breaks isSpace rest ∧
      (isQuote c = true → t.named = none) := by
  have hword : ∃ piece, c :: s =
      c :: piece ++ (c :: s).dropWhile fun d => !isSpace d := by
    refine ⟨s.takeWhile fun d => !isSpace d, ?_⟩
    rw [List.dropWhile_cons_of_pos (by simp [hc]), List.cons_append,
      List.takeWhile_append_dropWhile]
  simp only [nextToken] at h
  split at h
  · split at h
    · rename_i value rest' hr
      obtain ⟨rfl, rfl⟩ : (⟨value, none⟩ : CommandToken) = t ∧ rest' = rest := by
        simpa using h
      obtain ⟨⟨body, hs⟩, hb⟩ := readChars_consumes hr
      exact ⟨⟨body, by rw [hs]; rfl⟩, hb, fun _ => rfl⟩
    · simp at h
  · rename_i hq
    split at h
    · rename_i name quote r hn
      split at h
      · split at h
        · rename_i value rest' hr
          obtain ⟨rfl, rfl⟩ :
              (⟨name ++ [61] ++ value, some (name, value)⟩ : CommandToken) = t ∧
                rest' = rest := by simpa using h
          obtain ⟨⟨body, hs⟩, hb⟩ := readChars_consumes hr
          have hline := namedToken_append hn
          refine ⟨?_, hb, fun h => absurd h hq⟩
          cases name with
          | nil =>
            obtain ⟨rfl, rfl⟩ : c = 61 ∧ s = quote :: r := by simpa using hline
            exact ⟨quote :: body, by rw [hs]; rfl⟩
          | cons d name =>
            obtain ⟨rfl, rfl⟩ : c = d ∧ s = name ++ 61 :: quote :: r := by simpa using hline
            exact ⟨name ++ 61 :: quote :: body, by rw [hs]; simp⟩
        · simp at h
      · obtain ⟨-, rfl⟩ : wordToken a (c :: s) = t ∧
            ((c :: s).dropWhile fun d => !isSpace d) = rest := by simpa using h
        exact ⟨hword, Encoding.breaks_dropWhile _, fun h => absurd h hq⟩
    · obtain ⟨-, rfl⟩ : wordToken a (c :: s) = t ∧
          ((c :: s).dropWhile fun d => !isSpace d) = rest := by simpa using h
      exact ⟨hword, Encoding.breaks_dropWhile _, fun h => absurd h hq⟩

variable (a command) in
/-- The loop ends within one turn more than the line has characters. -/
theorem tokenizeLoop_ends (fuel : Nat) (line : Str) (tokens : List CommandToken)
    (hfuel : line.length < fuel) :
    ∃ r, tokenizeLoop a command fuel line tokens = some r ∧
      ∀ out, r = .ok out → ∃ ts, out = tokens ++ ts ∧ Consumed line ts := by
  induction fuel generalizing line tokens with
  | zero => omega
  | succ fuel ih =>
    have hsplit := List.takeWhile_append_dropWhile (p := isSpace) (l := line)
    unfold tokenizeLoop
    cases hd : line.dropWhile isSpace with
    | nil =>
      refine ⟨_, rfl, ?_⟩
      rintro out ⟨⟩
      exact ⟨[], (List.append_nil _).symm, .nil (List.dropWhile_eq_nil_iff.1 hd)⟩
    | cons c s =>
      have hc : isSpace c = false := by
        have h := List.head?_dropWhile_not isSpace line
        simpa [hd] using h
      simp only
      cases hn : nextToken a command (c :: s) with
      | error e => exact ⟨_, rfl, fun out h => nomatch h⟩
      | ok r =>
        obtain ⟨t, rest⟩ := r
        obtain ⟨⟨piece, hpiece⟩, hb, hq⟩ := nextToken_consumes hc hn
        have hlen : rest.length < fuel := by
          have h1 := congrArg List.length hsplit
          rw [hd, hpiece] at h1
          simp only [List.length_append, List.length_cons] at h1
          omega
        obtain ⟨r, hr, hall⟩ := ih rest (tokens ++ [t]) hlen
        refine ⟨r, hr, fun out hout => ?_⟩
        obtain ⟨ts, rfl, hts⟩ := hall out hout
        refine ⟨t :: ts, List.append_assoc .., ?_⟩
        rw [← hsplit, hd, hpiece]
        exact .cons (Encoding.takeWhile_gap line) hc hb hq hts

/-- More fuel changes nothing once the loop has ended. -/
theorem tokenizeLoop_mono {fuel more : Nat} {line : Str} {tokens : List CommandToken}
    {r : Except CommandParseError (List CommandToken)} (hle : fuel ≤ more)
    (h : tokenizeLoop a command fuel line tokens = some r) :
    tokenizeLoop a command more line tokens = some r := by
  induction fuel generalizing more line tokens with
  | zero => simp [tokenizeLoop] at h
  | succ fuel ih =>
    obtain ⟨more, rfl⟩ : ∃ m, more = m + 1 := ⟨more - 1, by omega⟩
    unfold tokenizeLoop at h ⊢
    split at h
    · exact h
    · split at h
      · exact h
      · exact ih (by omega) h

variable (a command) in
theorem tokenizeCommand_loop (line : Str) (fuel : Nat) (hfuel : line.length < fuel) :
    tokenizeLoop a command fuel line [] = some (tokenizeCommand a command line) := by
  obtain ⟨r, hr, -⟩ := tokenizeLoop_ends a command (line.length + 1) line [] (Nat.lt_succ_self _)
  have : tokenizeCommand a command line = r := by rw [tokenizeCommand, hr, Option.getD_some]
  rw [this]
  exact tokenizeLoop_mono hfuel hr

theorem tokenizeCommand_consumes {line : Str} {ts : List CommandToken}
    (h : tokenizeCommand a command line = .ok ts) : Consumed line ts := by
  obtain ⟨r, hr, hall⟩ := tokenizeLoop_ends a command (line.length + 1) line [] (Nat.lt_succ_self _)
  rw [tokenizeCommand, hr, Option.getD_some] at h
  obtain ⟨ts', hts, hc⟩ := hall ts h
  rw [List.nil_append] at hts
  rwa [hts]

end KestrelSdk.Commands
