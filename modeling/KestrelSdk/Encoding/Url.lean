import KestrelSdk.Json.RoundTrip
import Mathlib.Data.List.TakeWhile

/-! `urllib.parse`: a URL split into its parts, and the parts of its authority. -/

namespace KestrelSdk.Encoding.Url

open Json (Str isDigit natOf maxStrDigits)

def isAlpha (c : Nat) : Bool := (65 ≤ c && c ≤ 90) || (97 ≤ c && c ≤ 122)

def isHexDigit (c : Nat) : Bool :=
  isDigit c || (65 ≤ c && c ≤ 70) || (97 ≤ c && c ≤ 102)

/-- `scheme_chars`. -/
def isSchemeChar (c : Nat) : Bool := isAlpha c || isDigit c || c == 43 || c == 45 || c == 46

def lowerAscii (c : Nat) : Nat := if 65 ≤ c ∧ c ≤ 90 then c + 32 else c

/-- What ends an authority: `/`, `?` or `#`. -/
def isDelimiter (c : Nat) : Bool := c == 47 || c == 63 || c == 35

/-- `s.partition(sep)`: the text before the first `sep`, and the text after it where there is one. -/
def partition (sep : Nat) (s : Str) : Str × Option Str :=
  match s.dropWhile (· ≠ sep) with
  | [] => (s, none)
  | _ :: after => (s.takeWhile (· ≠ sep), some after)

/-- `s.rpartition(sep)`: the text before the last `sep` where there is one, and the text after it. -/
def rpartition (sep : Nat) (s : Str) : Option Str × Str :=
  match partition sep s.reverse with
  | (_, none) => (none, s)
  | (after, some before) => (some before.reverse, after.reverse)

/-- What an interpreter checks of the brackets of an authority: that neither kind stands alone, also
the host between them, or moreover what stands around them. -/
inductive BracketCheck where
  | paired
  | host
  | netloc

/-- What `urllib.parse` takes from the interpreter: `str.lower`, `unicodedata.normalize` for NFKC,
whether `ipaddress.ip_address` reads an IPv6 address, and the check of brackets. -/
structure Tables where
  lower : Str → Str
  nfkc : Str → Str
  isIPv6 : Str → Bool
  brackets : BracketCheck

/-- `re.match(r"\Av[a-fA-F0-9]+\..+\Z", host)`. -/
def isIPvFuture : Str → Bool
  | 118 :: s =>
    match s.dropWhile isHexDigit with
    | 46 :: c :: s' => (s.head?.any isHexDigit) && (c :: s').all (· ≠ 10)
    | _ => false
  | _ => false

/-- `_check_bracketed_host`. -/
def checkBracketedHost (t : Tables) (host : Str) : Bool :=
  if host.head? = some 118 then isIPvFuture host else t.isIPv6 host

/-- `_check_bracketed_netloc`. -/
def checkBracketedNetloc (t : Tables) (netloc : Str) : Bool :=
  match partition 91 (rpartition 64 netloc).2 with
  | (before, some bracketed) =>
    let (host, port) := partition 93 bracketed
    before.isEmpty && ((port.getD []).isEmpty || (port.getD []).head? = some 58) &&
      checkBracketedHost t host
  | (before, none) => checkBracketedHost t (partition 58 before).1

/-- The brackets of an authority that `urlsplit` does not raise for. -/
def bracketsOk (t : Tables) (netloc : Str) : Bool :=
  if netloc.contains 91 then
    netloc.contains 93 &&
      match t.brackets with
      | .paired => true
      | .host => checkBracketedHost t (partition 93 ((partition 91 netloc).2.getD [])).1
      | .netloc => checkBracketedNetloc t netloc
  else !netloc.contains 93

/-- `_checknetloc`: no character of the authority is normalised to a text with a delimiter. -/
def checkNetloc (t : Tables) (netloc : Str) : Bool :=
  let n := netloc.filter fun c => c ≠ 64 && c ≠ 58 && c ≠ 35 && c ≠ 63
  netloc.all (· < 128) || t.nfkc n == n ||
    !(t.nfkc n).any fun c => c == 47 || c == 63 || c == 35 || c == 64 || c == 58

/-- What `urlsplit` removes first. -/
def clean (url : Str) : Str :=
  (url.dropWhile (· ≤ 32)).filter fun c => c ≠ 9 && c ≠ 10 && c ≠ 13

/-- The scheme in lower case, if there is one, and the text after it. -/
def splitScheme (url : Str) : Str × Str :=
  match partition 58 url with
  | (c :: scheme, some rest) =>
    if isAlpha c && (c :: scheme).all isSchemeChar then ((c :: scheme).map lowerAscii, rest)
    else ([], url)
  | _ => ([], url)

/-- The authority, if there is one, and the text after it. -/
def splitNetloc : Str → Str × Str
  | 47 :: 47 :: rest => (rest.takeWhile (!isDelimiter ·), rest.dropWhile (!isDelimiter ·))
  | url => ([], url)

structure SplitResult where
  scheme : Str
  netloc : Str
  path : Str
  query : Str
  fragment : Str

/-- `urlsplit`; none is `ValueError`. -/
def urlsplit (t : Tables) (url : Str) : Option SplitResult :=
  let (scheme, rest) := splitScheme (clean url)
  let (netloc, rest) := splitNetloc rest
  let (rest, fragment) := partition 35 rest
  let (path, query) := partition 63 rest
  if bracketsOk t netloc && checkNetloc t netloc then
    some ⟨scheme, netloc, path, query.getD [], fragment.getD []⟩
  else none

/-! The parts of an authority. -/

def username (netloc : Str) : Option Str :=
  (rpartition 64 netloc).1.map fun userinfo => (partition 58 userinfo).1

def password (netloc : Str) : Option Str :=
  (rpartition 64 netloc).1.bind fun userinfo => (partition 58 userinfo).2

/-- `_hostinfo`: the host and the text of the port. -/
def hostinfo (netloc : Str) : Str × Str :=
  match partition 91 (rpartition 64 netloc).2 with
  | (_, some bracketed) =>
    let (host, rest) := partition 93 bracketed
    (host, (partition 58 (rest.getD [])).2.getD [])
  | (hostinfo, none) =>
    let (host, port) := partition 58 hostinfo
    (host, port.getD [])

/-- `hostname`, whose zone keeps its case. -/
def hostname (t : Tables) (netloc : Str) : Option Str :=
  let (host, _) := hostinfo netloc
  if host = [] then none
  else
    match partition 37 host with
    | (address, some zone) => some (t.lower address ++ 37 :: zone)
    | (address, none) => some (t.lower address)

/-- `port`; none is `ValueError`. -/
def port (netloc : Str) : Option (Option Nat) :=
  let (_, text) := hostinfo netloc
  if text = [] then some none
  else if text.all isDigit && text.length ≤ maxStrDigits && natOf text ≤ 65535 then
    some (some (natOf text))
  else none

/-! What a partition says. -/

section Partition

variable {sep : Nat} {a b s : Str}

theorem partition_none (h : sep ∉ s) : partition sep s = (s, none) := by
  have hdrop : s.dropWhile (· ≠ sep) = [] := by
    apply List.dropWhile_eq_nil_iff.2
    intro c hc
    simp only [decide_eq_true_eq]
    rintro rfl
    exact h hc
  unfold partition
  rw [hdrop]

theorem partition_append (h : sep ∉ a) : partition sep (a ++ sep :: b) = (a, some b) := by
  have hall : ∀ c ∈ a, decide (c ≠ sep) = true := by
    intro c hc
    simp only [decide_eq_true_eq]
    rintro rfl
    exact h hc
  have hdrop : (a ++ sep :: b).dropWhile (· ≠ sep) = sep :: b := by
    rw [List.dropWhile_append_of_pos hall]
    simp
  have htake : (a ++ sep :: b).takeWhile (· ≠ sep) = a := by
    rw [List.takeWhile_append_of_pos hall]
    simp
  unfold partition
  rw [hdrop]
  simp only [htake]

/-- A text has no separator, or one splits it at the first. -/
theorem partition_cases (sep : Nat) (s : Str) :
    (sep ∉ s ∧ partition sep s = (s, none)) ∨
      ∃ a b, s = a ++ sep :: b ∧ sep ∉ a ∧ partition sep s = (a, some b) := by
  by_cases h : sep ∈ s
  · obtain ⟨a, b, rfl, ha⟩ := List.eq_append_cons_of_mem h
    exact .inr ⟨a, b, rfl, ha, partition_append ha⟩
  · exact .inl ⟨h, partition_none h⟩

theorem mem_of_partition {c : Nat} (h : c ∈ (partition sep s).1) : c ∈ s := by
  obtain ⟨_, hsplit⟩ | ⟨a, b, rfl, _, hsplit⟩ := partition_cases sep s
  · rw [hsplit] at h
    exact h
  · rw [hsplit] at h
    exact List.mem_append_left _ h

theorem rpartition_none (h : sep ∉ s) : rpartition sep s = (none, s) := by
  unfold rpartition
  rw [partition_none (by rwa [List.mem_reverse])]

end Partition

/-! The form of a URL with an authority. -/

/-- A scheme with its colon, or nothing, which `urlsplit` reads as `scheme`. -/
inductive IsScheme : Str → Str → Prop
  | none : IsScheme [] []
  | some (c : Nat) (s : Str) (hc : isAlpha c = true) (hs : (c :: s).all isSchemeChar = true) :
      IsScheme ((c :: s) ++ [58]) ((c :: s).map lowerAscii)

/-- What may follow an authority. -/
def EndsAuthority (rest : Str) : Prop := ∀ c ∈ rest.head?, isDelimiter c = true

theorem isSchemeChar_ne {c : Nat} (h : isSchemeChar c = true) :
    c ≠ 58 ∧ c ≠ 47 ∧ 32 < c ∧ c < 127 := by
  simp only [isSchemeChar, isAlpha, isDigit, Bool.or_eq_true, Bool.and_eq_true, decide_eq_true_eq,
    beq_iff_eq] at h
  omega

theorem scheme_colon {s : Str} (h : s.all isSchemeChar = true) : 58 ∉ s := by
  intro hmem
  exact (isSchemeChar_ne (List.all_eq_true.1 h 58 hmem)).1 rfl

/-- A scheme has no slash and no space. -/
theorem IsScheme.chars {before scheme : Str} (h : IsScheme before scheme) :
    ∀ c ∈ before, c ≠ 47 ∧ 32 < c ∧ c < 127 := by
  cases h with
  | none => simp
  | some c s hc hs =>
    intro x hx
    obtain hx | hx := List.mem_append.1 hx
    · exact (isSchemeChar_ne (List.all_eq_true.1 hs x hx)).2
    · obtain rfl := List.mem_singleton.1 hx
      decide

/-- The scheme is read back before two slashes. -/
theorem splitScheme_of {before scheme : Str} (h : IsScheme before scheme) (rest : Str) :
    splitScheme (before ++ 47 :: 47 :: rest) = (scheme, 47 :: 47 :: rest) := by
  cases h with
  | none =>
    obtain ⟨_, hsplit⟩ | ⟨a, b, heq, _, hsplit⟩ := partition_cases 58 (47 :: 47 :: rest)
    · simp only [splitScheme, List.nil_append, hsplit]
    · cases a with
      | nil => cases heq
      | cons c a =>
        obtain rfl := (List.cons.inj heq).1
        simp only [splitScheme, List.nil_append, hsplit]
        rfl
  | some c s hc hs =>
    have hsplit : partition 58 ((c :: s) ++ [58] ++ 47 :: 47 :: rest) =
        (c :: s, some (47 :: 47 :: rest)) := by
      rw [List.append_assoc]
      exact partition_append (scheme_colon hs)
    simp only [splitScheme, hsplit, hc, hs, Bool.and_self, if_true]

theorem splitNetloc_of {netloc rest : Str} (h : ∀ c ∈ netloc, isDelimiter c = false)
    (hrest : EndsAuthority rest) : splitNetloc (47 :: 47 :: (netloc ++ rest)) = (netloc, rest) := by
  have hall : ∀ c ∈ netloc, (!isDelimiter c) = true := by
    intro c hc
    rw [h c hc]
    rfl
  simp only [splitNetloc]
  rw [List.takeWhile_append_of_pos hall, List.dropWhile_append_of_pos hall]
  cases rest with
  | nil => simp
  | cons c rest =>
    have hc : isDelimiter c = true := hrest c rfl
    simp [hc]

theorem splitScheme_cases (url : Str) :
    ∃ before scheme rest, IsScheme before scheme ∧ url = before ++ rest ∧
      splitScheme url = (scheme, rest) := by
  obtain ⟨_, hsplit⟩ | ⟨a, b, rfl, _, hsplit⟩ := partition_cases 58 url
  · refine ⟨[], [], url, .none, rfl, ?_⟩
    simp only [splitScheme, hsplit]
  · cases a with
    | nil =>
      refine ⟨[], [], _, .none, rfl, ?_⟩
      simp only [splitScheme, hsplit]
      rfl
    | cons c a =>
      by_cases hscheme : (isAlpha c && (c :: a).all isSchemeChar) = true
      · obtain ⟨hc, ha⟩ := Bool.and_eq_true_iff.1 hscheme
        refine ⟨_, _, b, .some c a hc ha, by simp, ?_⟩
        simp only [splitScheme, hsplit, hscheme, if_true]
      · refine ⟨[], [], _, .none, rfl, ?_⟩
        simp only [splitScheme, hsplit, hscheme]
        rfl

/-- A URL with an authority is a scheme, two slashes, the authority and the rest. -/
theorem authority_form {url scheme rest netloc tail : Str} (hscheme : splitScheme url = (scheme, rest))
    (hnetloc : splitNetloc rest = (netloc, tail)) (hne : netloc ≠ []) :
    ∃ before, IsScheme before scheme ∧ url = before ++ 47 :: 47 :: (netloc ++ tail) ∧
      (∀ c ∈ netloc, isDelimiter c = false) ∧ EndsAuthority tail := by
  obtain ⟨before, scheme', rest', hbefore, hurl, hsplit⟩ := splitScheme_cases url
  rw [hscheme] at hsplit
  cases hsplit
  unfold splitNetloc at hnetloc
  split at hnetloc
  case h_1 r =>
    cases hnetloc
    refine ⟨before, hbefore, ?_, ?_, ?_⟩
    · rw [List.takeWhile_append_dropWhile]
      exact hurl
    · intro c hc
      simpa using List.mem_takeWhile_imp hc
    · intro c hc
      have hno := List.head?_dropWhile_not (!isDelimiter ·) r
      rw [Option.mem_def.1 hc] at hno
      simpa using hno
  case h_2 =>
    cases hnetloc
    exact absurd rfl hne

theorem mem_of_splitNetloc {rest : Str} {c : Nat} (h : c ∈ (splitNetloc rest).2) : c ∈ rest := by
  unfold splitNetloc at h
  split at h
  · exact List.mem_cons_of_mem _ (List.mem_cons_of_mem _ ((List.dropWhile_sublist _).mem h))
  · exact h

/-- The path of a URL is made of its characters. -/
theorem mem_of_path {t : Tables} {url : Str} {u : SplitResult} (h : urlsplit t url = some u) {c : Nat}
    (hc : c ∈ u.path) : c ∈ url := by
  obtain ⟨before, scheme, rest, _, hclean, hscheme⟩ := splitScheme_cases (clean url)
  rcases hnetloc : splitNetloc rest with ⟨netloc, tail⟩
  rcases hfragment : partition 35 tail with ⟨front, fragment⟩
  rcases hquery : partition 63 front with ⟨path, query⟩
  simp only [urlsplit, hscheme, hnetloc, hfragment, hquery] at h
  split at h
  case isTrue =>
    cases h
    have hfront : c ∈ front := @mem_of_partition 63 _ c (by rwa [hquery])
    have htail : c ∈ tail := @mem_of_partition 35 _ c (by rwa [hfragment])
    have hrest : c ∈ rest := mem_of_splitNetloc (by rwa [hnetloc])
    have hmem : c ∈ clean url := by
      rw [hclean]
      exact List.mem_append_right _ hrest
    exact (List.dropWhile_sublist _).mem (List.mem_of_mem_filter hmem)
  case isFalse => cases h

theorem scheme_of_urlsplit {t : Tables} {url : Str} {u : SplitResult} (h : urlsplit t url = some u) :
    u.scheme = (splitScheme (clean url)).1 := by
  rcases hscheme : splitScheme (clean url) with ⟨scheme, rest⟩
  rcases hnetloc : splitNetloc rest with ⟨netloc, tail⟩
  simp only [urlsplit, hscheme, hnetloc] at h
  split at h
  · cases h
    rfl
  · cases h

theorem clean_of {url : Str} (hall : ∀ c ∈ url, 32 ≤ c) (hhead : url.head? ≠ some 32) :
    clean url = url := by
  have hdrop : url.dropWhile (· ≤ 32) = url := by
    cases url with
    | nil => rfl
    | cons c url =>
      have hc := hall c List.mem_cons_self
      have hne : c ≠ 32 := by
        rintro rfl
        exact hhead rfl
      apply List.dropWhile_cons_of_neg
      simp only [decide_eq_true_eq]
      omega
  unfold clean
  rw [hdrop]
  apply List.filter_eq_self.2
  intro c hc
  have hc := hall c hc
  simp only [Bool.and_eq_true, decide_eq_true_eq]
  omega

/-! Authorities of a host and a port. -/

/-- The text of a port after a host. -/
def portText (port : Option Nat) : Str := (port.map fun port => 58 :: Json.natText port).getD []

/-- A port that `port` reads. -/
def IsPort (port : Option Nat) : Prop := ∀ p ∈ port, p ≤ 65535

section Authority

variable {host : Str} {p : Option Nat}

theorem portText_chars : ∀ c ∈ portText p, c = 58 ∨ isDigit c = true := by
  cases p with
  | none => simp [portText]
  | some p =>
    intro c hc
    obtain rfl | hc := List.mem_cons.1 hc
    · exact .inl rfl
    · exact .inr (Json.natText_digit hc)

theorem portText_not_mem {d : Nat} (hcolon : d ≠ 58) (hdigit : isDigit d = false) :
    d ∉ portText p := by
  intro hd
  obtain h | h := portText_chars d hd
  · exact hcolon h
  · rw [hdigit] at h
    cases h

/-- The text of a port is read back. -/
theorem port_natText {n : Nat} (hn : n ≤ 65535) :
    Json.natText n ≠ [] ∧ ((Json.natText n).all isDigit && (Json.natText n).length ≤ maxStrDigits &&
      natOf (Json.natText n) ≤ 65535) = true := by
  have hlen : (Json.natText n).length ≤ 5 := by
    rw [Json.natText, List.length_map]
    exact (Nat.length_toDigits_le_iff (by decide) (by decide)).2 (by omega)
  have hdigits : (Json.natText n).all isDigit = true :=
    List.all_eq_true.2 fun c hc => Json.natText_digit hc
  refine ⟨Json.natText_ne_nil n, ?_⟩
  rw [hdigits, Json.natOf_natText]
  simp only [Bool.true_and, Bool.and_eq_true, decide_eq_true_eq]
  exact ⟨hlen.trans (by decide), hn⟩

theorem partition_port (hhost : 58 ∉ host) :
    partition 58 (host ++ portText p) = (host, p.map Json.natText) := by
  cases p with
  | none =>
    rw [portText, Option.map_none, Option.getD_none, List.append_nil]
    exact partition_none hhost
  | some p => exact partition_append hhost

/-- A host without colon, brackets and at sign, and a port. -/
theorem hostinfo_plain (hhost : 58 ∉ host ∧ 64 ∉ host ∧ 91 ∉ host) :
    hostinfo (host ++ portText p) = (host, (p.map Json.natText).getD []) := by
  have hat : 64 ∉ host ++ portText p := by
    rw [List.mem_append, not_or]
    exact ⟨hhost.2.1, portText_not_mem (by decide) (by decide)⟩
  have hopen : 91 ∉ host ++ portText p := by
    rw [List.mem_append, not_or]
    exact ⟨hhost.2.2, portText_not_mem (by decide) (by decide)⟩
  simp only [hostinfo, rpartition_none hat, partition_none hopen, partition_port hhost.1]

/-- A host in brackets and a port. -/
theorem hostinfo_bracketed (hhost : 64 ∉ host ∧ 93 ∉ host) :
    hostinfo (91 :: (host ++ 93 :: portText p)) = (host, (p.map Json.natText).getD []) := by
  have hat : 64 ∉ 91 :: (host ++ 93 :: portText p) := by
    simp only [List.mem_cons, List.mem_append, not_or]
    exact ⟨by decide, hhost.1, by decide, portText_not_mem (by decide) (by decide)⟩
  have hopen : partition 91 (91 :: (host ++ 93 :: portText p)) =
      ([], some (host ++ 93 :: portText p)) :=
    partition_append (a := []) (by simp)
  have hport : (partition 58 (portText p)).2.getD [] = (p.map Json.natText).getD [] := by
    have h := @partition_port [] p (by simp)
    rw [List.nil_append] at h
    rw [h]
  simp only [hostinfo, rpartition_none hat, hopen, partition_append hhost.2, Option.getD_some, hport]

theorem port_of {netloc : Str} (hinfo : hostinfo netloc = (host, (p.map Json.natText).getD []))
    (hp : IsPort p) : port netloc = some p := by
  unfold port
  rw [hinfo]
  cases p with
  | none => rfl
  | some n =>
    obtain ⟨hne, hread⟩ := port_natText (hp n rfl)
    rw [Json.natOf_natText] at hread
    simp only [Option.map_some, Option.getD_some, if_neg hne, hread, if_true, Json.natOf_natText]

/-- A port that was read is one that can be written. -/
theorem isPort_of {netloc : Str} (h : port netloc = some p) : IsPort p := by
  unfold port at h
  simp only at h
  split at h
  case isTrue =>
    cases h
    intro n hn
    cases hn
  case isFalse =>
    split at h
    case isTrue hread =>
      cases h
      intro n hn
      cases hn
      simp only [Bool.and_eq_true, decide_eq_true_eq] at hread
      exact hread.2
    case isFalse => cases h

theorem userinfo_none {netloc : Str} (h : 64 ∉ netloc) :
    username netloc = none ∧ password netloc = none := by
  simp only [username, password, rpartition_none h, Option.map_none, Option.bind_none, and_self]

/-- An authority without user information has no at sign. -/
theorem at_of_username {netloc : Str} (h : username netloc = none) : 64 ∉ netloc := by
  intro hmem
  unfold username rpartition at h
  obtain ⟨hno, _⟩ | ⟨a, b, _, _, hsplit⟩ := partition_cases 64 netloc.reverse
  · exact hno (List.mem_reverse.2 hmem)
  · rw [hsplit] at h
    cases h

end Authority

end KestrelSdk.Encoding.Url
