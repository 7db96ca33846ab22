import KestrelSdk.Encoding.Unquote
import KestrelSdk.Encoding.Url
import KestrelSdk.Features.Setup

/-! The links of artifacts: the canonical endpoint, or a signed HTTPS URL with a safe path. -/

namespace KestrelSdk.Operator

open Json (Str str hexValue)
open Encoding (unquote Quoted)
open Encoding.Url (Tables urlsplit)
open Features (isAlnum isStableToken)

/-- A check that raises `ValueError` with its text. -/
abbrev Checked (α : Type) := Except String α

/-- `_ascii_url`. -/
def asciiUrl (value : Str) : Checked Unit :=
  if value.contains 92 || value.any fun c => c < 33 || 126 < c then
    .error "href contains unsafe characters"
  else .ok ()

def artifactEndpoint : Str := str "/authorized/artifacts/"

/-- `_CANONICAL_ARTIFACT_PATH.fullmatch(value)` with its group. -/
def canonicalArtifact (value : Str) : Option Str :=
  let group := value.drop artifactEndpoint.length
  if artifactEndpoint.isPrefixOf value && isStableToken group then some group else none

/-- `_safe_hostname` of ASCII text. -/
def safeHostname (t : Tables) (value : Str) : Bool :=
  if 253 < value.length || value.contains 37 then false
  else if value.contains 58 then t.isIPv6 value
  else
    let hostname := if value.getLast? = some 46 then value.dropLast else value
    !hostname.isEmpty && (hostname.splitOn 46).all fun label =>
      1 ≤ label.length && label.length ≤ 63 && label.head?.any isAlnum &&
        label.getLast?.any isAlnum && label.all fun c => isAlnum c || c == 45

/-- What an escape of a path or of a query may not stand for. -/
def unsafeEscape (path : Bool) (c : Nat) : Bool :=
  (path && (c == 47 || c == 92 || c == 46 || c == 37)) || c < 33 || 126 < c

/-- `_validate_percent_encoding`. -/
def validatePercentEncoding (field_name : String) (path : Bool) : Str → Checked Unit
  | 37 :: a :: b :: s =>
    match hexValue a, hexValue b with
    | some x, some y =>
      if unsafeEscape path (16 * x + y) then .error (field_name ++ " contains unsafe encoding")
      else validatePercentEncoding field_name path s
    | _, _ => .error (field_name ++ " contains invalid encoding")
  | c :: s =>
    if c = 37 then .error (field_name ++ " contains invalid encoding")
    else validatePercentEncoding field_name path s
  | [] => .ok ()

/-- The loop over the passes of `unquote`. -/
def decodePath : Nat → Str → Checked Str
  | 0, _ => .error "href contains excessive path encoding"
  | n + 1, path => if unquote path = path then .ok path else decodePath n (unquote path)

def unsafePath (path : Str) : Bool :=
  path.contains 92 || (path.splitOn 47).any (fun s => s == [46] || s == [46, 46]) ||
    path.any fun c => c < 33 || 126 < c

/-- The checks of an absolute link. -/
def signedHref (t : Tables) (value : Str) : Checked Unit :=
  match (urlsplit t value).bind fun u => (Encoding.Url.port u.netloc).map (u, ·) with
  | none => .error "href must be a valid signed HTTPS URL"
  | some (parsed, port) =>
    let hostname := (Encoding.Url.hostname t parsed.netloc).getD []
    if parsed.scheme ≠ str "https" ∨ hostname = [] ∨ safeHostname t hostname = false ∨
        (Encoding.Url.username parsed.netloc).isSome ∨
        (Encoding.Url.password parsed.netloc).isSome ∨ parsed.fragment ≠ [] ∨
        parsed.path.head? ≠ some 47 ∨ parsed.query = [] ∨
        port.any (fun port => !(1 ≤ port && port ≤ 65535)) then
      .error "absolute href must be a signed HTTPS URL"
    else do
      validatePercentEncoding "href path" true parsed.path
      validatePercentEncoding "href query" false parsed.query
      let path ← decodePath 4 parsed.path
      if unsafePath path then .error "href contains an unsafe path" else .ok ()

/-- `_authorized_artifact_href`; a `value` that is no string is none. -/
def authorizedArtifactHref (t : Tables) (value : Option Str) (artifact_id : Str) : Checked Str :=
  match value with
  | none => .error "href must be a bounded authorized artifact URL"
  | some value =>
    if value = [] ∨ 4096 < value.length then .error "href must be a bounded authorized artifact URL"
    else do
      asciiUrl value
      match canonicalArtifact value with
      | some group =>
        if group ≠ artifact_id then .error "canonical artifact href must use artifact_id"
        else return value
      | none =>
        if value.head? = some 47 then .error "relative href must use the canonical artifact endpoint"
        else
          signedHref t value
          return value

/-! What the checks leave of a path. -/

section Path

variable {t : Tables} {s path : Str}

/-- A text that passes the check of its escapes. -/
theorem validatePercentEncoding_ok {field_name : String} {path : Bool}
    (h : validatePercentEncoding field_name path s = .ok ()) :
    ∃ t, Quoted (fun c => !unsafeEscape path c) s t := by
  induction s using validatePercentEncoding.induct path with
  | case1 a b s x y hb ha hunsafe =>
    simp only [validatePercentEncoding, ha, hb, hunsafe, if_true] at h
    cases h
  | case2 a b s x y hb ha hsafe ih =>
    simp only [validatePercentEncoding, ha, hb, hsafe] at h
    obtain ⟨t, ht⟩ := ih h
    exact ⟨_, .escape ha hb (by simpa using hsafe) ht⟩
  | case3 a b s hno =>
    simp only [validatePercentEncoding] at h
    cases h
  | case4 s hno =>
    rw [validatePercentEncoding.eq_def] at h
    split at h
    case h_1 a b s' heq =>
      obtain ⟨_, rfl⟩ := List.cons.inj heq
      exact absurd rfl (hno a b s' rfl)
    case h_2 heq =>
      obtain ⟨rfl, rfl⟩ := List.cons.inj heq
      cases h
    case h_3 heq => cases heq
  | case5 c s hno hc ih =>
    rw [validatePercentEncoding.eq_def] at h
    split at h
    case h_1 a b s' heq => exact absurd (List.cons.inj heq).1 hc
    case h_2 heq =>
      obtain ⟨rfl, rfl⟩ := List.cons.inj heq
      rw [if_neg hc] at h
      obtain ⟨t, ht⟩ := ih h
      exact ⟨_, .plain hc ht⟩
    case h_3 heq => cases heq
  | case6 => exact ⟨[], .nil⟩

theorem safe_escape {c : Nat} (h : (!unsafeEscape true c) = true) :
    c ≠ 47 ∧ c ≠ 92 ∧ c ≠ 46 ∧ c ≠ 37 ∧ 33 ≤ c ∧ c ≤ 126 := by
  simp only [unsafeEscape, Bool.true_and, Bool.not_eq_true', Bool.or_eq_false_iff, beq_eq_false_iff_ne,
    decide_eq_false_iff_not] at h
  omega

theorem hexValue_slash {a x : Nat} (h : hexValue a = some x) : a ≠ 47 := by
  have hrange := (Encoding.hexValue_range h).1
  omega

/-- A path with safe escapes: as many segments as before, none of them `.` or `..`, and characters
that print, none of them a backslash. -/
structure SafePath (path decoded : Str) : Prop where
  segments : (decoded.splitOn 47).length = (path.splitOn 47).length
  dot : ∀ s ∈ decoded.splitOn 47, s ≠ [46] ∧ s ≠ [46, 46]
  backslash : 92 ∉ decoded
  printable : ∀ c ∈ decoded, 33 ≤ c ∧ c ≤ 126

theorem unsafePath_false (h : unsafePath path = false) :
    (∀ s ∈ path.splitOn 47, s ≠ [46] ∧ s ≠ [46, 46]) ∧ 92 ∉ path ∧ ∀ c ∈ path, 33 ≤ c ∧ c ≤ 126 := by
  simp only [unsafePath, Bool.or_eq_false_iff, List.any_eq_false, beq_iff_eq, Bool.or_eq_true,
    decide_eq_true_eq, not_or, not_lt] at h
  obtain ⟨⟨hback, hdot⟩, hprint⟩ := h
  refine ⟨hdot, by simpa using hback, ?_⟩
  intro c hc
  have := hprint c hc
  omega

/-- A text whose escapes stand for no dot is a dot segment where it reads as one. -/
theorem quoted_dots {u : Str} (h : Quoted (fun c => !unsafeEscape true c) s u)
    (hs : s = [46] ∨ s = [46, 46]) : u = s := by
  obtain rfl | rfl := hs
  · cases h with
    | plain _ h =>
      cases h
      rfl
  · cases h with
    | plain _ h =>
      cases h with
      | plain _ h =>
        cases h
        rfl

/-- The first pass of `unquote` over a path with safe escapes reads them all. -/
theorem iterate_escapes {u : Str} (h : Quoted (fun c => !unsafeEscape true c) path u)
    (hpath : ∀ c ∈ path, 33 ≤ c ∧ c ≤ 126) (n : Nat) : unquote^[n + 1] path = u := by
  apply h.iterate
  · intro c hc
    have := hpath c hc
    omega
  · intro c hc
    have := safe_escape hc
    omega

/-- The passes of `unquote` over a path whose escapes are safe. -/
theorem safePath_iterate {u : Str} (h : Quoted (fun c => !unsafeEscape true c) path u)
    (hpath : ∀ c ∈ path, 33 ≤ c ∧ c ≤ 126) (hback : 92 ∉ path) (hsafe : unsafePath u = false)
    (n : Nat) : SafePath path (unquote^[n] path) := by
  have hsegments := h.segments (by decide : 47 ≠ 37) (fun a x => hexValue_slash)
    fun c hc => (safe_escape hc).1
  obtain ⟨hdot, hu, hprint⟩ := unsafePath_false hsafe
  cases n with
  | zero =>
    refine ⟨rfl, ?_, hback, hpath⟩
    intro s hs
    obtain ⟨v, hv, hquoted⟩ := Encoding.exists_of_forall₂ hsegments hs
    have hne := hdot v hv
    constructor
    · rintro rfl
      exact hne.1 (quoted_dots hquoted (.inl rfl))
    · rintro rfl
      exact hne.2 (quoted_dots hquoted (.inr rfl))
  | succ n =>
    rw [iterate_escapes h hpath n]
    exact ⟨hsegments.length_eq.symm, hdot, hu, hprint⟩

/-- The loop ends after the first pass that changes nothing. -/
theorem decodePath_ok {u : Str} (h : ∀ n, unquote^[n + 1] path = u) (n : Nat) :
    decodePath (n + 2) path = .ok u := by
  have hfirst : unquote path = u := h 0
  have hfixed : unquote u = u := by
    have hsecond := h 1
    rw [Function.iterate_succ_apply, hfirst] at hsecond
    exact hsecond
  rw [decodePath]
  split
  case isTrue heq => rw [← hfirst, heq]
  case isFalse =>
    rw [hfirst, decodePath, if_pos hfixed]

end Path

/-! What is accepted. -/

section Accepted

variable {t : Tables} {value : Str}

/-- An absolute HTTPS URL with a host, whose path no further pass of `unquote` changes after the first
one and which stays safe under all of them. -/
def SignedUrl (t : Tables) (href : Str) : Prop :=
  ∃ parsed, urlsplit t href = some parsed ∧ parsed.scheme = str "https" ∧
    (Encoding.Url.hostname t parsed.netloc).getD [] ≠ [] ∧ parsed.path.head? = some 47 ∧
    (∀ n, unquote^[n + 1] parsed.path = unquote parsed.path) ∧
    ∀ n, SafePath parsed.path (unquote^[n] parsed.path)

theorem asciiUrl_ok (h : asciiUrl value = .ok ()) : 92 ∉ value ∧ ∀ c ∈ value, 33 ≤ c ∧ c ≤ 126 := by
  unfold asciiUrl at h
  split at h
  case isTrue => cases h
  case isFalse hno =>
    simp only [Bool.or_eq_true, List.contains_eq_mem, decide_eq_true_eq, List.any_eq_true, not_or,
      not_exists, not_and, not_lt] at hno
    refine ⟨hno.1, ?_⟩
    intro c hc
    have := hno.2 c hc
    omega

theorem asciiUrl_of (hback : 92 ∉ value) (h : ∀ c ∈ value, 33 ≤ c ∧ c ≤ 126) :
    asciiUrl value = .ok () := by
  unfold asciiUrl
  rw [if_neg]
  simp only [Bool.or_eq_true, List.contains_eq_mem, decide_eq_true_eq, List.any_eq_true, not_or,
    not_exists, not_and, not_lt]
  refine ⟨hback, ?_⟩
  intro c hc
  have := h c hc
  omega

theorem validatePercentEncoding_error {field_name e : String} {path : Bool} {s : Str}
    (h : validatePercentEncoding field_name path s = .error e) :
    e = field_name ++ " contains unsafe encoding" ∨
      e = field_name ++ " contains invalid encoding" := by
  induction s using validatePercentEncoding.induct path with
  | case1 a b s x y hb ha hunsafe =>
    simp only [validatePercentEncoding, ha, hb, hunsafe, if_true] at h
    cases h
    exact .inl rfl
  | case2 a b s x y hb ha hsafe ih =>
    simp only [validatePercentEncoding, ha, hb, hsafe] at h
    exact ih h
  | case3 a b s hno =>
    simp only [validatePercentEncoding] at h
    cases h
    exact .inr rfl
  | case4 s hno =>
    rw [validatePercentEncoding] at h
    · cases h
      exact .inr rfl
    · exact hno
  | case5 c s hno hc ih =>
    rw [validatePercentEncoding, if_neg hc] at h
    · exact ih h
    · exact hno
  | case6 => cases h

/-- How the checks of an absolute link end: it is a signed URL, or they raise for something else than
the number of passes. -/
theorem signedHref_spec (hvalue : 92 ∉ value ∧ ∀ c ∈ value, 33 ≤ c ∧ c ≤ 126) :
    (signedHref t value = .ok () ∧ SignedUrl t value) ∨
      ∃ e, signedHref t value = .error e ∧ e ≠ "href contains excessive path encoding" := by
  rcases hsplit : (urlsplit t value).bind fun u => (Encoding.Url.port u.netloc).map (u, ·) with
    _ | ⟨parsed, port⟩
  · refine .inr ⟨"href must be a valid signed HTTPS URL", ?_, by decide⟩
    simp only [signedHref, hsplit]
  · obtain ⟨u, hu, hport⟩ := Option.bind_eq_some_iff.1 hsplit
    obtain ⟨port', -, hpair⟩ := Option.map_eq_some_iff.1 hport
    obtain ⟨rfl, rfl⟩ := Prod.mk.inj hpair
    simp only [signedHref, hsplit]
    split
    case isTrue => exact .inr ⟨"absolute href must be a signed HTTPS URL", rfl, by decide⟩
    case isFalse hno =>
      simp only [not_or, ne_eq, not_not] at hno
      obtain ⟨hscheme, hhost, _, _, _, _, hhead, _⟩ := hno
      have hback : 92 ∉ u.path := fun hc => hvalue.1 (Encoding.Url.mem_of_path hu hc)
      have hpath : ∀ c ∈ u.path, 33 ≤ c ∧ c ≤ 126 :=
        fun c hc => hvalue.2 c (Encoding.Url.mem_of_path hu hc)
      cases hescapes : validatePercentEncoding "href path" true u.path with
      | error e =>
        refine .inr ⟨e, rfl, ?_⟩
        obtain rfl | rfl := validatePercentEncoding_error hescapes <;> decide
      | ok _ =>
        obtain ⟨w, hw⟩ := validatePercentEncoding_ok hescapes
        cases hquery : validatePercentEncoding "href query" false u.query with
        | error e =>
          refine .inr ⟨e, rfl, ?_⟩
          obtain rfl | rfl := validatePercentEncoding_error hquery <;> decide
        | ok _ =>
          have hiterate := iterate_escapes hw hpath
          rw [decodePath_ok hiterate 2]
          cases hsafe : unsafePath w with
          | true =>
            refine .inr ⟨"href contains an unsafe path", ?_, by decide⟩
            show (if unsafePath w = true then _ else _) = _
            rw [hsafe]
            rfl
          | false =>
            refine .inl ⟨?_, u, hu, hscheme, hhost, hhead, ?_, ?_⟩
            · show (if unsafePath w = true then _ else _) = _
              rw [hsafe]
              rfl
            · intro n
              exact (hiterate n).trans (hiterate 0).symm
            · exact safePath_iterate hw hpath hback hsafe

theorem isAlnum_range {c : Nat} (h : isAlnum c = true) : 33 ≤ c ∧ c ≤ 126 ∧ c ≠ 92 := by
  simp only [isAlnum, Bool.or_eq_true, Bool.and_eq_true, decide_eq_true_eq] at h
  omega

theorem stableToken_range {s : Str} (h : isStableToken s = true) :
    s.length ≤ 256 ∧ ∀ c ∈ s, 33 ≤ c ∧ c ≤ 126 ∧ c ≠ 92 := by
  simp only [isStableToken, Bool.and_eq_true, decide_eq_true_eq, List.all_eq_true, Bool.or_eq_true,
    beq_iff_eq] at h
  obtain ⟨⟨⟨hlen, _⟩, _⟩, hall⟩ := h
  refine ⟨hlen, ?_⟩
  intro c hc
  obtain (((((h | h) | h) | h) | h) | h) := hall c hc
  · exact isAlnum_range h
  all_goals omega

theorem canonicalArtifact_iff {id : Str} :
    canonicalArtifact value = some id ↔ isStableToken id = true ∧ value = artifactEndpoint ++ id := by
  unfold canonicalArtifact
  constructor
  · intro h
    simp only at h
    split at h
    case isTrue hmatch =>
      obtain ⟨hpre, htoken⟩ := Bool.and_eq_true_iff.1 hmatch
      obtain ⟨rest, rfl⟩ := List.isPrefixOf_iff_prefix.1 hpre
      rw [List.drop_left] at h htoken
      cases h
      exact ⟨htoken, rfl⟩
    case isFalse => cases h
  · rintro ⟨htoken, rfl⟩
    have hpre : artifactEndpoint.isPrefixOf (artifactEndpoint ++ id) = true :=
      List.isPrefixOf_iff_prefix.2 (List.prefix_append ..)
    simp only [List.drop_left, hpre, htoken, Bool.and_self, if_true]

/-- How the checks of a link end. -/
theorem authorizedArtifactHref_spec (t : Tables) (value id : Str) :
    (authorizedArtifactHref t (some value) id = .ok value ∧
        ((isStableToken id = true ∧ value = artifactEndpoint ++ id) ∨ SignedUrl t value)) ∨
      ∃ e, authorizedArtifactHref t (some value) id = .error e ∧
        e ≠ "href contains excessive path encoding" ∧
        ¬ (isStableToken id = true ∧ value = artifactEndpoint ++ id) := by
  by_cases hbound : value = [] ∨ 4096 < value.length
  · refine .inr ⟨"href must be a bounded authorized artifact URL", ?_, by decide, ?_⟩
    · simp only [authorizedArtifactHref, if_pos hbound]
    · rintro ⟨htoken, rfl⟩
      have hlen := (stableToken_range htoken).1
      have hendpoint : artifactEndpoint.length = 22 := by decide
      obtain hnil | hlong := hbound
      · have := congrArg List.length hnil
        rw [List.length_append, hendpoint] at this
        simp at this
      · rw [List.length_append, hendpoint] at hlong
        omega
  · simp only [authorizedArtifactHref, if_neg hbound]
    cases hascii : asciiUrl value with
    | error e =>
      refine .inr ⟨e, rfl, ?_, ?_⟩
      · rintro rfl
        unfold asciiUrl at hascii
        split at hascii
        · exact absurd (Except.error.inj hascii) (by decide)
        · cases hascii
      · rintro ⟨htoken, rfl⟩
        have hrange := (stableToken_range htoken).2
        have hendpoint : ∀ c ∈ artifactEndpoint, 33 ≤ c ∧ c ≤ 126 ∧ c ≠ 92 := by decide
        have hall : ∀ c ∈ artifactEndpoint ++ id, 33 ≤ c ∧ c ≤ 126 ∧ c ≠ 92 := by
          intro c hc
          obtain hc | hc := List.mem_append.1 hc
          · exact hendpoint c hc
          · exact hrange c hc
        rw [asciiUrl_of (fun hc => (hall 92 hc).2.2 rfl) fun c hc => ⟨(hall c hc).1, (hall c hc).2.1⟩]
          at hascii
        cases hascii
    | ok _ =>
      cases hcanonical : canonicalArtifact value with
      | some group =>
        have hgroup := canonicalArtifact_iff.1 hcanonical
        by_cases hid : group = id
        · subst hid
          refine .inl ⟨?_, .inl hgroup⟩
          show (if group ≠ group then _ else _) = _
          rw [if_neg (not_not_intro rfl)]
          rfl
        · refine .inr ⟨"canonical artifact href must use artifact_id", ?_, by decide, ?_⟩
          · show (if group ≠ id then _ else _) = _
            rw [if_pos hid]
          · intro h
            rw [canonicalArtifact_iff.2 h] at hcanonical
            exact hid (Option.some.inj hcanonical).symm
      | none =>
        have hno : ¬ (isStableToken id = true ∧ value = artifactEndpoint ++ id) := by
          intro h
          rw [canonicalArtifact_iff.2 h] at hcanonical
          cases hcanonical
        by_cases hslash : value.head? = some 47
        · refine .inr ⟨"relative href must use the canonical artifact endpoint", ?_, by decide, hno⟩
          show (if value.head? = some 47 then _ else _) = _
          rw [if_pos hslash]
        · obtain ⟨hsigned, hurl⟩ | ⟨e, hsigned, he⟩ := signedHref_spec (t := t) (asciiUrl_ok hascii)
          · refine .inl ⟨?_, .inr hurl⟩
            show (if value.head? = some 47 then _ else _) = _
            rw [if_neg hslash, hsigned]
            rfl
          · refine .inr ⟨e, ?_, he, hno⟩
            show (if value.head? = some 47 then _ else _) = _
            rw [if_neg hslash, hsigned]
            rfl

end Accepted

/-- An accepted link is the canonical path of the artifact or a signed URL with a safe path; no link
has too many passes of encoding; and a link without a scheme is accepted where it is the canonical
path of the artifact. -/
theorem authorized_href_safe (t : Tables) (value : Option Str) (artifact_id : Str) :
    (∀ href, authorizedArtifactHref t value artifact_id = .ok href → value = some href ∧
      ((isStableToken artifact_id = true ∧ href = artifactEndpoint ++ artifact_id) ∨
        SignedUrl t href)) ∧
    authorizedArtifactHref t value artifact_id ≠ .error "href contains excessive path encoding" ∧
    ∀ href, value = some href → (Encoding.Url.splitScheme (Encoding.Url.clean href)).1 = [] →
      (authorizedArtifactHref t value artifact_id = .ok href ↔
        isStableToken artifact_id = true ∧ href = artifactEndpoint ++ artifact_id) := by
  cases value with
  | none =>
    have hrun : authorizedArtifactHref t none artifact_id =
        .error "href must be a bounded authorized artifact URL" := rfl
    rw [hrun]
    refine ⟨?_, ?_, ?_⟩
    · intro _ h
      cases h
    · intro h
      exact absurd (Except.error.inj h) (by decide)
    · intro _ h
      cases h
  | some value =>
    obtain ⟨hrun, hform⟩ | ⟨e, hrun, he, hno⟩ := authorizedArtifactHref_spec t value artifact_id
    · rw [hrun]
      refine ⟨?_, by simp, ?_⟩
      · rintro href h
        cases h
        exact ⟨rfl, hform⟩
      · rintro href h hscheme
        cases h
        refine iff_of_true rfl ?_
        obtain hcanonical | ⟨parsed, hparsed, hhttps, _⟩ := hform
        · exact hcanonical
        · rw [Encoding.Url.scheme_of_urlsplit hparsed, hscheme] at hhttps
          cases hhttps
    · rw [hrun]
      refine ⟨?_, fun h => he (Except.error.inj h), ?_⟩
      · intro _ h
        cases h
      rintro href h _
      cases h
      exact iff_of_false (by simp) hno

end KestrelSdk.Operator
