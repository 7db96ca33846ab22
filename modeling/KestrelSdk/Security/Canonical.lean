import KestrelSdk.Encoding.Url
import KestrelSdk.Security.Outbound

namespace KestrelSdk.Security

open Json (Str str isDigit)
open Encoding (strip)
open Encoding.Url
open Checks (ok_of_bind)

/-- `urlparse` and the properties of its result; none is `ValueError`. -/
def urlparse (t : Tables) (url : Str) : Option ParseResult := do
  let u ← urlsplit t url
  let port ← port u.netloc
  return ⟨u.scheme, u.netloc, hostname t u.netloc, port, username u.netloc, password u.netloc⟩

/-- The characters that divide a URL: `/`, `?`, `#`, `@` and `:`. -/
def dividers : List Nat := [47, 63, 35, 64, 58]

/-- The zone of an IPv6 address in its text. -/
def zoneText (zone : Option Str) : Str := (zone.map fun zone => 37 :: zone).getD []

/-- What is documented of the interpreter's tables, of `ipaddress` and of `idna`. `fold` is the case
folding of a character. -/
structure NetLib.Documented (lib : NetLib) (t : Tables) (fold : Nat → Str) : Prop where
  urlparse : ∀ url, lib.urlparse url = Security.urlparse t url
  isIPv6 : ∀ s, t.isIPv6 s = (lib.ip_address (.text s)).any (·.isV6)
  lower : t.lower = lib.lower
  lower_ascii : ∀ s, (∀ c ∈ s, c < 128) → lib.lower s = s.map lowerAscii
  lower_chars : ∀ s, ∀ c ∈ lib.lower s, (97 ≤ c ∧ c ≤ 122) ∨ 128 ≤ c ∨ c ∈ s
  casefold : ∀ s, lib.casefold s = s.flatMap fold
  fold_ascii : ∀ c < 128, fold c = [lowerAscii c]
  fold_chars : ∀ c, 128 ≤ c → ∀ x ∈ fold c,
    (97 ≤ x ∧ x ≤ 122) ∨ x = c ∨ (128 ≤ x ∧ Json.IsScalar x)
  fold_fold : ∀ c, ∀ x ∈ fold c, fold x = [x]
  nfkc_ascii : ∀ c < 128, t.nfkc [c] = [c]
  nfkc_dividers : ∀ s, ∀ d ∈ dividers, d ∈ t.nfkc s ↔ ∃ c ∈ s, d ∈ t.nfkc [c]
  nfkc_fold : ∀ c, ∀ x ∈ fold c, ∀ d ∈ dividers, d ∈ t.nfkc [x] → d ∈ t.nfkc [c]
  text_v4 : ∀ w, lib.text (.v4 w) ≠ [] ∧ ∀ c ∈ lib.text (.v4 w), isDigit c = true ∨ c = 46
  text_v6 : ∀ w zone, lib.text (.v6 w zone) = lib.text (.v6 w none) ++ zoneText zone
  text_address : ∀ w, 58 ∈ lib.text (.v6 w none) ∧ ∀ c ∈ lib.text (.v6 w none),
    isDigit c = true ∨ (97 ≤ c ∧ c ≤ 102) ∨ c = 58 ∨ c = 46
  read_v4 : ∀ s w, lib.ip_address (.text s) = some (.v4 w) →
    (splitOn 46 s).length = 4 ∧ (splitOn 46 s).all lib.isdigit = true
  read_v6 : ∀ s w zone, lib.ip_address (.text s) = some (.v6 w zone) →
    ∃ a, s = a ++ zoneText zone ∧ 37 ∉ a ∧ 58 ∈ a
  read_text : ∀ l a, lib.ip_address l = some a → lib.ip_address (.text (lib.text a)) = some a
  read_zone : ∀ l w zone, lib.ip_address l = some (.v6 w (some zone)) →
    lib.ip_address (.text (lib.text (.v6 w (some (lib.casefold zone))))) =
      some (.v6 w (some (lib.casefold zone)))
  read_IPv4 : ∀ s w, lib.IPv4Address s = some w →
    lib.ip_address (.text (lib.text (.v4 w))) = some (.v4 w)
  read_address : ∀ a, lib.ip_address (.address a) = lib.ip_address (.text (lib.text a))
  encode_chars : ∀ s a, lib.encode s = some a →
    a ≠ [] ∧ ∀ c ∈ a, isAlpha c = true ∨ isDigit c = true ∨ c = 45 ∨ c = 46
  encode_lower : ∀ s a, lib.encode (lib.lower s) = some a → ∀ c ∈ a, ¬ (65 ≤ c ∧ c ≤ 90)
  encode_encode : ∀ s a, lib.encode s = some a → lib.encode a = some a

/-- A character that may stand in the zone of a canonical host. -/
structure HostChar (t : Tables) (c : Nat) : Prop where
  printable : 32 ≤ c ∧ c ≠ 127
  encodable : (Json.encodePoint c).isSome = true
  plain : c ≠ 47 ∧ c ≠ 63 ∧ c ≠ 35 ∧ c ≠ 64 ∧ c ≠ 93
  normal : 128 ≤ c → ∀ d ∈ dividers, d ∉ t.nfkc [c]

section Documented

variable {lib : NetLib} {t : Tables} {fold : Nat → Str} (doc : lib.Documented t fold)

theorem encodePoint_ascii {c : Nat} (h : c < 128) : (Json.encodePoint c).isSome = true := by
  unfold Json.encodePoint
  rw [if_pos h]
  rfl

theorem encodePoint_scalar {c : Nat} (h : Json.IsScalar c) : (Json.encodePoint c).isSome = true := by
  unfold Json.encodePoint
  split
  · rfl
  · split
    · rfl
    · split
      case isTrue hno =>
        unfold Json.IsScalar at h
        omega
      case isFalse => split <;> rfl

theorem HostChar.ascii {c : Nat} (h : c < 128) (hp : 32 ≤ c ∧ c ≠ 127)
    (hplain : c ≠ 47 ∧ c ≠ 63 ∧ c ≠ 35 ∧ c ≠ 64 ∧ c ≠ 93) : HostChar t c :=
  ⟨hp, encodePoint_ascii h, hplain, fun hc => absurd h (Nat.not_lt.2 hc)⟩

include doc in
/-- Case folding gives such characters again. -/
theorem HostChar.folded {c : Nat} (h : HostChar t c) : ∀ x ∈ fold c, HostChar t x := by
  have hprint := h.printable
  have hplain := h.plain
  intro x hx
  by_cases hc : c < 128
  · rw [doc.fold_ascii c hc, List.mem_singleton] at hx
    subst hx
    apply HostChar.ascii <;> unfold lowerAscii <;> split <;> omega
  · obtain hx' | rfl | ⟨hx', hscalar⟩ := doc.fold_chars c (by omega) x hx
    · apply HostChar.ascii <;> omega
    · exact h
    · refine ⟨by omega, encodePoint_scalar hscalar, by omega, ?_⟩
      intro _ d hd hmem
      exact h.normal (by omega) d hd (doc.nfkc_fold c x hx d hd hmem)

include doc in
theorem HostChar.casefold {s : Str} (h : ∀ c ∈ s, HostChar t c) :
    ∀ c ∈ lib.casefold s, HostChar t c := by
  intro c hc
  rw [doc.casefold] at hc
  obtain ⟨x, hx, hcx⟩ := List.mem_flatMap.1 hc
  exact (h x hx).folded doc c hcx

/-- Text in lower case. -/
def Lowered (s : Str) : Prop := ∀ c ∈ s, c < 128 ∧ ¬ (65 ≤ c ∧ c ≤ 90)

theorem Lowered.map {s : Str} (h : Lowered s) : s.map lowerAscii = s := by
  induction s with
  | nil => rfl
  | cons c s ih =>
    have hc := (h c List.mem_cons_self).2
    rw [List.map_cons, ih fun d hd => h d (List.mem_cons_of_mem c hd), lowerAscii, if_neg hc]

include doc in
theorem Lowered.lower {s : Str} (h : Lowered s) : lib.lower s = s := by
  rw [doc.lower_ascii s fun c hc => (h c hc).1, h.map]

include doc in
theorem Lowered.casefold {s : Str} (h : Lowered s) : lib.casefold s = s := by
  rw [doc.casefold]
  induction s with
  | nil => rfl
  | cons c s ih =>
    have hc := h c List.mem_cons_self
    rw [List.flatMap_cons, ih fun d hd => h d (List.mem_cons_of_mem c hd), doc.fold_ascii c hc.1,
      lowerAscii, if_neg hc.2]
    rfl

theorem isDigit_range {c : Nat} : isDigit c = true ↔ 48 ≤ c ∧ c ≤ 57 := by
  simp only [isDigit, Bool.and_eq_true, decide_eq_true_eq]

include doc in
theorem lowered_v4 (w : BitVec 32) : Lowered (lib.text (.v4 w)) := by
  intro c hc
  obtain hc | hc := (doc.text_v4 w).2 c hc
  · rw [isDigit_range] at hc
    omega
  · omega

include doc in
theorem lowered_v6 (w : BitVec 128) : Lowered (lib.text (.v6 w none)) := by
  intro c hc
  obtain hc | hc | hc | hc := (doc.text_address w).2 c hc
  · rw [isDigit_range] at hc
    omega
  all_goals omega

include doc in
/-- Folding the text of an IPv6 address folds its zone. -/
theorem casefold_v6 (w : BitVec 128) (zone : Option Str) :
    lib.casefold (lib.text (.v6 w zone)) = lib.text (.v6 w (zone.map lib.casefold)) := by
  rw [doc.text_v6 w zone, doc.text_v6 w (zone.map lib.casefold)]
  have happend : ∀ a b, lib.casefold (a ++ b) = lib.casefold a ++ lib.casefold b := by
    intro a b
    rw [doc.casefold, doc.casefold a, doc.casefold b, List.flatMap_append]
  have hpercent : lib.casefold [37] = [37] := by
    rw [doc.casefold, List.flatMap_singleton, doc.fold_ascii 37 (by decide)]
    rfl
  rw [happend, (lowered_v6 doc w).casefold doc]
  congr 1
  cases zone with
  | none =>
    rw [doc.casefold]
    rfl
  | some zone =>
    show lib.casefold ([37] ++ zone) = [37] ++ lib.casefold zone
    rw [happend, hpercent]

include doc in
theorem casefold_casefold (s : Str) : lib.casefold (lib.casefold s) = lib.casefold s := by
  rw [doc.casefold (lib.casefold s)]
  have hall : ∀ c ∈ lib.casefold s, fold c = [c] := by
    intro c hc
    rw [doc.casefold] at hc
    obtain ⟨x, _, hcx⟩ := List.mem_flatMap.1 hc
    exact doc.fold_fold x c hcx
  rw [List.flatMap_congr hall]
  simp

/-! Canonical hosts. -/

/-- The forms of a canonical host. -/
inductive HostForm (lib : NetLib) (t : Tables) : Str → Prop
  | v4 (w : BitVec 32) (h : lib.ip_address (.text (lib.text (.v4 w))) = some (.v4 w)) :
      HostForm lib t (lib.text (.v4 w))
  | v6 (w : BitVec 128) (zone : Option Str)
      (h : lib.ip_address (.text (lib.text (.v6 w zone))) = some (.v6 w zone))
      (hfold : zone.map lib.casefold = zone) (hzone : ∀ z ∈ zone, ∀ c ∈ z, HostChar t c) :
      HostForm lib t (lib.text (.v6 w zone))
  | dns (a : Str) (henc : lib.encode a = some a) (hne : a ≠ []) (hlow : Lowered a)
      (hchars : ∀ c ∈ a, isAlpha c = true ∨ isDigit c = true ∨ c = 45 ∨ c = 46)
      (hlabels : ((splitOn 46 a).length = 4 && (splitOn 46 a).all lib.isdigit) = false)
      (haddress : lib.ip_address (.text a) = none) : HostForm lib t a

/-- The zone in a host has such characters. -/
def ZoneChars (t : Tables) (host : Str) : Prop :=
  ∀ a zone, host = a ++ 37 :: zone → 37 ∉ a → ∀ c ∈ zone, HostChar t c

include doc in
theorem hostForm_dns {host canonical : Str} (h : canonicalDnsName lib host = .ok canonical) :
    HostForm lib t canonical := by
  unfold canonicalDnsName at h
  cases henc : lib.encode (lib.lower host) with
  | none =>
    rw [henc] at h
    cases h
  | some a =>
    rw [henc] at h
    obtain ⟨hne, hchars⟩ := doc.encode_chars _ a henc
    have hlow : Lowered a := by
      intro c hc
      refine ⟨?_, doc.encode_lower host a henc c hc⟩
      have hc := hchars c hc
      simp only [isAlpha, isDigit_range, Bool.or_eq_true, Bool.and_eq_true, decide_eq_true_eq] at hc
      omega
    simp only [hlow.casefold doc] at h
    split at h
    case isTrue =>
      cases hread : lib.IPv4Address a with
      | none =>
        rw [hread] at h
        cases h
      | some w =>
        rw [hread] at h
        cases h
        exact .v4 w (doc.read_IPv4 a w hread)
    case isFalse hlabels =>
      have hsame := Except.ok.inj h
      subst hsame
      have hlabels := Bool.eq_false_iff.2 hlabels
      refine .dns a (doc.encode_encode _ a henc) hne hlow hchars hlabels ?_
      cases haddress : lib.ip_address (.text a) with
      | none => rfl
      | some address =>
        cases address with
        | v4 w =>
          obtain ⟨hlen, hall⟩ := doc.read_v4 a w haddress
          rw [hlen, hall] at hlabels
          cases hlabels
        | v6 w zone =>
          obtain ⟨b, rfl, _, hcolon⟩ := doc.read_v6 a w zone haddress
          have hc := hchars 58 (List.mem_append_left _ hcolon)
          simp [isAlpha, isDigit] at hc

include doc in
/-- A canonical host has one of the forms. -/
theorem hostForm_literal {b : Bool} {host canonical : Str} (hzone : ZoneChars t host)
    (h : canonicalLiteral lib b host = .ok canonical) : HostForm lib t canonical := by
  unfold canonicalLiteral at h
  simp only at h
  split at h
  · cases h
  · cases haddress : lib.ip_address (.text host) with
    | none =>
      rw [haddress] at h
      exact hostForm_dns doc h
    | some address =>
      rw [haddress] at h
      cases address with
      | v4 w =>
        cases h
        rw [(lowered_v4 doc w).casefold doc]
        exact .v4 w (doc.read_text _ _ haddress)
      | v6 w zone =>
        cases h
        rw [casefold_v6 doc]
        cases zone with
        | none => exact .v6 w none (doc.read_text _ _ haddress) rfl (by simp)
        | some zone =>
          refine .v6 w _ (doc.read_zone _ w zone haddress) ?_ ?_
          · rw [Option.map_some, Option.map_some, casefold_casefold doc]
          · intro z hz
            cases hz
            obtain ⟨a, ha, hpercent, _⟩ := doc.read_v6 host w _ haddress
            exact HostChar.casefold doc (hzone a zone ha hpercent)

/-- The brackets that enclose an IPv6 address in a URL. -/
def enclose (host : Str) : Str := if host.contains 58 then 91 :: (host ++ [93]) else host

include doc in
theorem HostForm.colon {host : Str} (h : HostForm lib t host) :
    (∃ w zone, host = lib.text (.v6 w zone) ∧ 58 ∈ host) ∨
      58 ∉ host ∧ Lowered host ∧ host ≠ [] ∧ ∀ c ∈ host, isAlpha c = true ∨ isDigit c = true ∨
        c = 45 ∨ c = 46 := by
  cases h with
  | v4 w h =>
    refine .inr ⟨?_, lowered_v4 doc w, (doc.text_v4 w).1, ?_⟩
    · intro hc
      obtain hc | hc := (doc.text_v4 w).2 58 hc
      · cases hc
      · cases hc
    · intro c hc
      obtain hc | hc := (doc.text_v4 w).2 c hc
      · exact .inr (.inl hc)
      · exact .inr (.inr (.inr hc))
  | v6 w zone =>
    refine .inl ⟨w, zone, rfl, ?_⟩
    rw [doc.text_v6]
    exact List.mem_append_left _ (doc.text_address w).1
  | dns a henc hne hlow hchars =>
    refine .inr ⟨?_, hlow, hne, hchars⟩
    intro hc
    have := hchars 58 hc
    simp [isAlpha, isDigit] at this

include doc in
/-- A canonical host is its own canonical form, also as an address in brackets. -/
theorem HostForm.canonical {host : Str} (h : HostForm lib t host) (b : Bool)
    (hb : b = true → 58 ∈ host) : canonicalLiteral lib b host = .ok host := by
  cases h with
  | v4 w h =>
    have hb : b = false := by
      cases b with
      | false => rfl
      | true =>
        obtain hc | hc := (doc.text_v4 w).2 58 (hb rfl) <;> cases hc
    subst hb
    simp only [canonicalLiteral, h, Bool.false_and, (lowered_v4 doc w).casefold doc]
    rfl
  | v6 w zone h hfold =>
    have hv6 : (b && !(some (IpAddress.v6 w zone)).any (·.isV6)) = false := by
      simp [IpAddress.isV6]
    simp only [canonicalLiteral, h, hv6, casefold_v6 doc, hfold]
    rfl
  | dns a henc hne hlow hchars hlabels haddress =>
    have hb : b = false := by
      cases b with
      | false => rfl
      | true =>
        have := hchars 58 (hb rfl)
        simp [isAlpha, isDigit] at this
    subst hb
    simp only [canonicalLiteral, haddress, Bool.false_and, canonicalDnsName, hlow.lower doc, henc,
      hlow.casefold doc, hlabels]
    rfl

/-! The authority of a canonical host. -/

include doc in
theorem checkNetloc_of {netloc : Str} (hslash : 47 ∉ netloc)
    (h : ∀ c ∈ netloc, 128 ≤ c → ∀ d ∈ dividers, d ∉ t.nfkc [c]) : checkNetloc t netloc = true := by
  unfold checkNetloc
  simp only [Bool.or_eq_true]
  right
  rw [Bool.not_eq_true', List.any_eq_false]
  intro d hd hdivider
  have hdividers : d ∈ dividers := by
    simp only [Bool.or_eq_true, beq_iff_eq] at hdivider
    simp only [dividers, List.mem_cons, List.not_mem_nil]
    omega
  obtain ⟨c, hc, hdc⟩ := (doc.nfkc_dividers _ d hdividers).1 hd
  obtain ⟨hmem, hkept⟩ := List.mem_filter.1 hc
  by_cases hascii : c < 128
  · rw [doc.nfkc_ascii c hascii, List.mem_singleton] at hdc
    subst hdc
    simp only [Bool.and_eq_true, decide_eq_true_eq] at hkept
    simp only [dividers, List.mem_cons, List.not_mem_nil, or_false] at hdividers
    have hslash : d ≠ 47 := by
      rintro rfl
      exact hslash hmem
    omega
  · exact h c hmem (by omega) d hdividers hdc

include doc in
theorem checkNetloc_normal {netloc : Str} (hslash : 47 ∉ netloc) (h : checkNetloc t netloc = true) :
    ∀ c ∈ netloc, 128 ≤ c → ∀ d ∈ dividers, d ∉ t.nfkc [c] := by
  intro c hc hascii d hd hmem
  have hkept : c ∈ netloc.filter fun c => c ≠ 64 && c ≠ 58 && c ≠ 35 && c ≠ 63 := by
    apply List.mem_filter.2
    refine ⟨hc, ?_⟩
    simp only [Bool.and_eq_true, decide_eq_true_eq]
    omega
  have hnormal := (doc.nfkc_dividers _ d hd).2 ⟨c, hkept, hmem⟩
  simp only [dividers, List.mem_cons, List.not_mem_nil, or_false] at hd
  unfold checkNetloc at h
  simp only [Bool.or_eq_true] at h
  obtain (hall | hsame) | hno := h
  · have := List.all_eq_true.1 hall c hc
    simp only [decide_eq_true_eq] at this
    omega
  · rw [beq_iff_eq.1 hsame] at hnormal
    obtain ⟨hmem, hkept⟩ := List.mem_filter.1 hnormal
    simp only [Bool.and_eq_true, decide_eq_true_eq] at hkept
    have hslash : d ≠ 47 := by
      rintro rfl
      exact hslash hmem
    omega
  · rw [Bool.not_eq_true', List.any_eq_false] at hno
    apply hno d hnormal
    simp only [Bool.or_eq_true, beq_iff_eq]
    omega

/-- What parsing the authority of a canonical host and a port gives. -/
structure Authority (t : Tables) (host : Str) (port : Option Nat) (netloc : Str) : Prop where
  info : hostinfo netloc = (host, (port.map Json.natText).getD [])
  hostname : hostname t netloc = some host
  ne : host ≠ []
  user : 64 ∉ netloc
  brackets : bracketsOk t netloc = true
  normal : checkNetloc t netloc = true
  placed : checkBrackets netloc = .ok ()
  head : netloc.head? = some 91 ↔ 58 ∈ host
  delimiters : ∀ c ∈ netloc, isDelimiter c = false
  chars : ∀ c ∈ netloc, 32 ≤ c ∧ c ≠ 127 ∧ (Json.encodePoint c).isSome = true
  last : ∀ c ∈ netloc.getLast?, Encoding.isSpace c = false

theorem cut_append {sep : Nat} {a b : Str} (h : sep ∉ a) : cut sep (a ++ sep :: b) = (a, true, b) := by
  have hall : ∀ c ∈ a, decide (c ≠ sep) = true := by
    intro c hc
    simp only [decide_eq_true_eq]
    rintro rfl
    exact h hc
  have hdrop : (a ++ sep :: b).dropWhile (· ≠ sep) = sep :: b := by
    rw [List.dropWhile_append_of_pos hall]
    simp
  have htake : (a ++ sep :: b).takeWhile (· ≠ sep) = a := by
    rw [List.takeWhile_append_of_pos hall]
    simp
  unfold cut
  rw [hdrop]
  simp only [htake]

theorem isSpace_graph {c : Nat} (h : 33 ≤ c ∧ c ≤ 126) : Encoding.isSpace c = false := by
  simp only [Encoding.isSpace, Bool.or_eq_false_iff, Bool.and_eq_false_iff, decide_eq_false_iff_not,
    beq_eq_false_iff_ne]
  omega

theorem portText_graph {p : Option Nat} : ∀ c ∈ portText p, 33 ≤ c ∧ c ≤ 126 ∧ c ≠ 47 ∧ c ≠ 63 ∧
    c ≠ 35 ∧ c ≠ 64 ∧ c ≠ 91 ∧ c ≠ 93 := by
  intro c hc
  obtain rfl | hc := portText_chars c hc
  · decide
  · rw [isDigit_range] at hc
    omega

theorem isDelimiter_false {c : Nat} (h : c ≠ 47 ∧ c ≠ 63 ∧ c ≠ 35) : isDelimiter c = false := by
  simp only [isDelimiter, Bool.or_eq_false_iff, beq_eq_false_iff_ne]
  omega

include doc in
/-- The authority of a name or an IPv4 address. -/
theorem authority_plain {host : Str} {p : Option Nat} (hcolon : 58 ∉ host) (hlow : Lowered host)
    (hne : host ≠ [])
    (hchars : ∀ c ∈ host, isAlpha c = true ∨ isDigit c = true ∨ c = 45 ∨ c = 46) :
    Authority t host p (host ++ portText p) := by
  have hhost : ∀ c ∈ host, 33 ≤ c ∧ c ≤ 126 ∧ c ≠ 47 ∧ c ≠ 63 ∧ c ≠ 35 ∧ c ≠ 64 ∧ c ≠ 91 ∧ c ≠ 93 ∧
      c ≠ 37 := by
    intro c hc
    have hc := hchars c hc
    simp only [isAlpha, isDigit_range, Bool.or_eq_true, Bool.and_eq_true, decide_eq_true_eq] at hc
    omega
  have hall : ∀ c ∈ host ++ portText p, 33 ≤ c ∧ c ≤ 126 ∧ c ≠ 47 ∧ c ≠ 63 ∧ c ≠ 35 ∧ c ≠ 64 ∧
      c ≠ 91 ∧ c ≠ 93 := by
    intro c hc
    obtain hc | hc := List.mem_append.1 hc
    · have := hhost c hc
      omega
    · exact portText_graph c hc
  have hopen : 91 ∉ host ++ portText p := fun hc => (hall 91 hc).2.2.2.2.2.2.1 rfl
  have hclose : 93 ∉ host ++ portText p := fun hc => (hall 93 hc).2.2.2.2.2.2.2 rfl
  have hinfo := @hostinfo_plain host p
    ⟨hcolon, fun hc => (hhost 64 hc).2.2.2.2.2.1 rfl, fun hc => (hhost 91 hc).2.2.2.2.2.2.1 rfl⟩
  refine ⟨hinfo, ?_, hne, fun hc => (hall 64 hc).2.2.2.2.2.1 rfl, ?_, ?_, ?_, ?_, ?_, ?_, ?_⟩
  · simp only [Encoding.Url.hostname, hinfo, if_neg hne,
      partition_none fun hc => (hhost 37 hc).2.2.2.2.2.2.2.2 rfl, doc.lower, hlow.lower doc]
  · simp only [bracketsOk, List.contains_eq_mem, hopen, hclose]
    rfl
  · apply checkNetloc_of doc fun hc => (hall 47 hc).2.2.1 rfl
    intro c hc hascii
    have := hall c hc
    omega
  · unfold checkBrackets
    have hhead : (host ++ portText p).head? ≠ some 91 :=
      fun hhead => hopen (List.mem_of_head? hhead)
    simp only [if_neg hhead, List.contains_eq_mem, hopen, hclose]
    rfl
  · constructor
    · exact fun hhead => absurd (List.mem_of_head? hhead) hopen
    · exact fun hc => absurd hc hcolon
  · intro c hc
    have := hall c hc
    exact isDelimiter_false (by omega)
  · intro c hc
    have := hall c hc
    exact ⟨by omega, by omega, encodePoint_ascii (by omega)⟩
  · intro c hc
    have := hall c (List.mem_of_getLast? hc)
    exact isSpace_graph (by omega)

include doc in
theorem v6_address (w : BitVec 128) : ∀ c ∈ lib.text (.v6 w none), HostChar t c ∧ c ≠ 37 ∧ c ≠ 118 := by
  intro c hc
  have hrange := (doc.text_address w).2 c hc
  rw [isDigit_range] at hrange
  refine ⟨?_, by omega, by omega⟩
  apply HostChar.ascii <;> omega

include doc in
theorem v6_chars {w : BitVec 128} {zone : Option Str} (hzone : ∀ z ∈ zone, ∀ c ∈ z, HostChar t c) :
    ∀ c ∈ lib.text (.v6 w zone), HostChar t c := by
  intro c hc
  rw [doc.text_v6] at hc
  obtain hc | hc := List.mem_append.1 hc
  · exact (v6_address doc w c hc).1
  · cases zone with
    | none => cases hc
    | some zone =>
      obtain rfl | hc := List.mem_cons.1 hc
      · apply HostChar.ascii <;> omega
      · exact hzone zone rfl c hc

include doc in
/-- The host name of an IPv6 address with its zone. -/
theorem hostname_v6 {w : BitVec 128} {zone : Option Str} {netloc text : Str}
    (hinfo : hostinfo netloc = (lib.text (.v6 w zone), text)) :
    hostname t netloc = some (lib.text (.v6 w zone)) := by
  have hpercent : 37 ∉ lib.text (.v6 w none) := fun hc => (v6_address doc w 37 hc).2.1 rfl
  have hcolon : 58 ∈ lib.text (.v6 w zone) := by
    rw [doc.text_v6]
    exact List.mem_append_left _ (doc.text_address w).1
  have hlower : t.lower (lib.text (.v6 w none)) = lib.text (.v6 w none) := by
    rw [doc.lower]
    exact (lowered_v6 doc w).lower doc
  simp only [Encoding.Url.hostname, hinfo, if_neg (List.ne_nil_of_mem hcolon)]
  cases zone with
  | none => simp only [partition_none hpercent, hlower]
  | some zone =>
    have hsplit : partition 37 (lib.text (.v6 w (some zone))) =
        (lib.text (.v6 w none), some zone) := by
      rw [doc.text_v6 w (some zone)]
      exact partition_append hpercent
    simp only [hsplit, hlower]
    rw [doc.text_v6 w (some zone)]
    rfl

include doc in
/-- The authority of an IPv6 address. -/
theorem authority_v6 {w : BitVec 128} {zone : Option Str} {p : Option Nat}
    (hread : lib.ip_address (.text (lib.text (.v6 w zone))) = some (.v6 w zone))
    (hzone : ∀ z ∈ zone, ∀ c ∈ z, HostChar t c) :
    Authority t (lib.text (.v6 w zone)) p (91 :: (lib.text (.v6 w zone) ++ 93 :: portText p)) := by
  have hcolon : 58 ∈ lib.text (.v6 w zone) := by
    rw [doc.text_v6]
    exact List.mem_append_left _ (doc.text_address w).1
  have hfirst : (lib.text (.v6 w zone)).head? ≠ some 118 := by
    rw [doc.text_v6, List.head?_append_of_ne_nil _ (List.ne_nil_of_mem (doc.text_address w).1)]
    intro hhead
    exact (v6_address doc w 118 (List.mem_of_head? hhead)).2.2 rfl
  have hhost := v6_chars doc (w := w) hzone
  generalize hname : lib.text (.v6 w zone) = host at *
  have hall : ∀ c ∈ 91 :: (host ++ 93 :: portText p), HostChar t c ∨ c = 91 ∨
      33 ≤ c ∧ c ≤ 126 ∧ c ≠ 47 ∧ c ≠ 63 ∧ c ≠ 35 ∧ c ≠ 64 := by
    intro c hc
    obtain rfl | hc := List.mem_cons.1 hc
    · exact .inr (.inl rfl)
    · obtain hc | hc := List.mem_append.1 hc
      · exact .inl (hhost c hc)
      · obtain rfl | hc := List.mem_cons.1 hc
        · exact .inr (.inr (by decide))
        · have := portText_graph c hc
          exact .inr (.inr (by omega))
  have hplain : ∀ c ∈ 91 :: (host ++ 93 :: portText p), c ≠ 47 ∧ c ≠ 63 ∧ c ≠ 35 ∧ c ≠ 64 := by
    intro c hc
    obtain hc | rfl | hc := hall c hc
    · have := hc.plain
      omega
    · decide
    · omega
  have huser : 64 ∉ 91 :: (host ++ 93 :: portText p) := fun hc => (hplain 64 hc).2.2.2 rfl
  have hclose : 93 ∉ host := fun hc => (hhost 93 hc).plain.2.2.2.2 rfl
  have hinfo := @hostinfo_bracketed host p
    ⟨fun hc => (hhost 64 hc).plain.2.2.2.1 rfl, hclose⟩
  have hopened : partition 91 (91 :: (host ++ 93 :: portText p)) =
      ([], some (host ++ 93 :: portText p)) := partition_append (a := []) (by simp)
  have hclosed : partition 93 (host ++ 93 :: portText p) = (host, some (portText p)) :=
    partition_append hclose
  have hv6 : checkBracketedHost t host = true := by
    rw [checkBracketedHost, if_neg hfirst, doc.isIPv6, hread]
    rfl
  have hport : ((portText p).isEmpty || (portText p).head? = some 58) = true := by
    cases p with
    | none => rfl
    | some p => rfl
  refine ⟨hinfo, ?_, List.ne_nil_of_mem hcolon, huser, ?_, ?_, ?_, iff_of_true rfl hcolon, ?_, ?_, ?_⟩
  · subst hname
    exact hostname_v6 doc hinfo
  · have hcontains : (91 :: (host ++ 93 :: portText p)).contains 91 = true := by simp
    have hcontains' : (91 :: (host ++ 93 :: portText p)).contains 93 = true := by simp
    rw [bracketsOk, if_pos hcontains, hcontains', Bool.true_and]
    cases t.brackets with
    | paired => rfl
    | host =>
      simp only [hopened, Option.getD_some, hclosed]
      exact hv6
    | netloc =>
      simp only [checkBracketedNetloc, rpartition_none huser, hopened, hclosed, Option.getD_some,
        hport, hv6]
      rfl
  · apply checkNetloc_of doc fun hc => (hplain 47 hc).1 rfl
    intro c hc hascii
    obtain hc | rfl | hc := hall c hc
    · exact hc.normal hascii
    · omega
    · omega
  · have hcut : cut 93 (91 :: (host ++ 93 :: portText p)) = (91 :: host, true, portText p) := by
      apply cut_append (a := 91 :: host)
      simp only [List.mem_cons, not_or]
      exact ⟨by decide, hclose⟩
    unfold checkBrackets
    simp only [List.head?_cons, if_true, hcut]
    cases p with
    | none => rfl
    | some p => rfl
  · intro c hc
    have := hplain c hc
    exact isDelimiter_false (by omega)
  · intro c hc
    obtain hc | rfl | hc := hall c hc
    · exact ⟨hc.printable.1, hc.printable.2, hc.encodable⟩
    · decide
    · exact ⟨by omega, by omega, encodePoint_ascii (by omega)⟩
  · intro c hc
    have hlast : c ∈ 93 :: portText p := by
      rw [← List.cons_append, List.getLast?_append_of_ne_nil _ (List.cons_ne_nil _ _)] at hc
      exact List.mem_of_getLast? hc
    obtain rfl | hlast := List.mem_cons.1 hlast
    · decide
    · have := portText_graph c hlast
      exact isSpace_graph (by omega)

include doc in
/-- The authority that is written for a canonical host. -/
theorem HostForm.authority {host : Str} (h : HostForm lib t host) (p : Option Nat) :
    Authority t host p (enclose host ++ portText p) := by
  cases h.colon doc with
  | inl hv6 =>
    have hcolon : 58 ∈ host := hv6.choose_spec.choose_spec.2
    have henclose : enclose host ++ portText p = 91 :: (host ++ 93 :: portText p) := by
      rw [enclose, if_pos (by simpa using hcolon)]
      simp
    rw [henclose]
    cases h with
    | v6 w zone hread _ hzone => exact authority_v6 doc hread hzone
    | v4 w => exact absurd hcolon (by
        intro hc
        obtain hc | hc := (doc.text_v4 w).2 58 hc <;> cases hc)
    | dns a henc hne hlow hchars => exact absurd hcolon (by
        intro hc
        have := hchars 58 hc
        simp [isAlpha, isDigit] at this)
  | inr hplain =>
    obtain ⟨hcolon, hlow, hne, hchars⟩ := hplain
    have henclose : enclose host = host := by
      rw [enclose, if_neg]
      simpa using hcolon
    rw [henclose]
    exact authority_plain doc hcolon hlow hne hchars

/-! Parsing a URL again. -/

/-- A URL whose parts have a host is a scheme, an authority and the rest. -/
theorem urlparse_form {url : Str} {parsed : ParseResult} (hclean : clean url = url)
    (h : Security.urlparse t url = some parsed) (hhost : parsed.hostname.getD [] ≠ []) :
    ∃ before tail, IsScheme before parsed.scheme ∧
      url = before ++ 47 :: 47 :: (parsed.netloc ++ tail) ∧
      (∀ c ∈ parsed.netloc, isDelimiter c = false) ∧ EndsAuthority tail ∧
      parsed.hostname = hostname t parsed.netloc ∧ port parsed.netloc = some parsed.port ∧
      parsed.username = username parsed.netloc ∧ checkNetloc t parsed.netloc = true := by
  obtain ⟨u, hu, h⟩ := Option.bind_eq_some_iff.1 h
  obtain ⟨p, hp, h⟩ := Option.bind_eq_some_iff.1 h
  cases h
  rcases hscheme : splitScheme url with ⟨scheme, rest⟩
  rcases hnetloc : splitNetloc rest with ⟨netloc, tail⟩
  simp only [urlsplit, hclean, hscheme, hnetloc] at hu
  split at hu
  case isTrue hchecks =>
    cases hu
    have hne : netloc ≠ [] := by
      rintro rfl
      exact hhost rfl
    obtain ⟨before, hbefore, hurl, hdelim, htail⟩ := authority_form hscheme hnetloc hne
    exact ⟨before, tail, hbefore, hurl, hdelim, htail, rfl, hp, rfl, (Bool.and_eq_true_iff.1 hchecks).2⟩
  case isFalse => cases hu

theorem urlparse_of {before scheme netloc tail host : Str} {p : Option Nat}
    (hclean : clean (before ++ 47 :: 47 :: (netloc ++ tail)) = before ++ 47 :: 47 :: (netloc ++ tail))
    (hbefore : IsScheme before scheme) (htail : EndsAuthority tail) (hp : IsPort p)
    (h : Authority t host p netloc) :
    Security.urlparse t (before ++ 47 :: 47 :: (netloc ++ tail)) =
      some ⟨scheme, netloc, some host, p, none, none⟩ := by
  have huser := userinfo_none h.user
  unfold Security.urlparse
  simp only [urlsplit, hclean, splitScheme_of hbefore, splitNetloc_of h.delimiters htail, h.brackets,
    h.normal, Bool.and_self, if_true]
  simp only [Option.bind_eq_bind, Option.bind_some, port_of h.info hp, h.hostname, huser.1, huser.2]
  rfl

theorem cutSlashes_of {before rest : Str} (h : ∀ c ∈ before, c ≠ 47) :
    cutSlashes (before ++ 47 :: 47 :: rest) = (before, [47, 47], rest) := by
  induction before with
  | nil => rfl
  | cons c before ih =>
    have hc := h c List.mem_cons_self
    have hrest := ih fun d hd => h d (List.mem_cons_of_mem c hd)
    rw [List.cons_append, cutSlashes.eq_def]
    split
    case h_1 heq => exact absurd (List.cons.inj heq).1 hc
    case h_2 heq =>
      obtain ⟨rfl, rfl⟩ := List.cons.inj heq
      rw [hrest]
    case h_3 heq => cases heq

/-- The host of an accepted authority has the characters of a zone. -/
theorem hostinfo_chars {netloc : Str} (hat : 64 ∉ netloc) (hplaced : checkBrackets netloc = .ok ())
    (hdelim : ∀ c ∈ netloc, isDelimiter c = false)
    (hchars : ∀ c ∈ netloc, 32 ≤ c ∧ c ≠ 127 ∧ (Json.encodePoint c).isSome = true)
    (hnormal : ∀ c ∈ netloc, 128 ≤ c → ∀ d ∈ dividers, d ∉ t.nfkc [c]) :
    ∀ c ∈ (hostinfo netloc).1, HostChar t c := by
  have hhost : ∀ c ∈ netloc, c ≠ 93 → HostChar t c := by
    intro c hc hne
    obtain ⟨hprint, hdel, hencodable⟩ := hchars c hc
    have hdelimiter := hdelim c hc
    simp only [isDelimiter, Bool.or_eq_false_iff, beq_eq_false_iff_ne] at hdelimiter
    refine ⟨⟨hprint, hdel⟩, hencodable, ?_, hnormal c hc⟩
    have hat : c ≠ 64 := by
      rintro rfl
      exact hat hc
    omega
  unfold hostinfo
  rw [rpartition_none hat]
  obtain ⟨hopen, hsplit⟩ | ⟨a, b, rfl, _, hsplit⟩ := partition_cases 91 netloc
  · simp only [hsplit]
    intro c hc
    have hmem := mem_of_partition hc
    apply hhost c hmem
    rintro rfl
    unfold checkBrackets at hplaced
    rw [if_neg fun hhead => hopen (List.mem_of_head? hhead), if_pos] at hplaced
    · cases hplaced
    · simp [hmem]
  · simp only [hsplit]
    obtain ⟨hclose, hrest⟩ | ⟨x, y, rfl, hclose, hrest⟩ := partition_cases 93 b
    · rw [hrest]
      intro c hc
      apply hhost c (by simp [hc])
      rintro rfl
      exact hclose hc
    · rw [hrest]
      intro c hc
      apply hhost c (by simp [hc])
      rintro rfl
      exact hclose hc

include doc in
theorem zoneChars_hostname {netloc host : Str} (hchars : ∀ c ∈ (hostinfo netloc).1, HostChar t c)
    (h : hostname t netloc = some host) : ZoneChars t host := by
  have hlower : ∀ s : Str, 37 ∉ s → 37 ∉ t.lower s := by
    intro s hs hmem
    rw [doc.lower] at hmem
    obtain hc | hc | hc := doc.lower_chars s 37 hmem
    · omega
    · omega
    · exact hs hc
  unfold Encoding.Url.hostname at h
  simp only at h
  split at h
  case isTrue => cases h
  case isFalse =>
    intro a zone hsplit hpercent c hc
    obtain ⟨hno, hpart⟩ | ⟨x, y, hinfo, hno, hpart⟩ := partition_cases 37 (hostinfo netloc).1
    · rw [hpart] at h
      cases h
      exact absurd (hsplit ▸ by simp) (hlower _ hno)
    · rw [hpart] at h
      cases h
      have hsame := partition_append (b := y) (hlower x hno)
      rw [hsplit, partition_append hpercent] at hsame
      cases hsame
      apply hchars c
      rw [hinfo]
      simp [hc]

theorem mem_of_hostinfo {netloc : Str} {c : Nat} (hat : 64 ∉ netloc) (h : c ∈ (hostinfo netloc).1) :
    c ∈ netloc := by
  unfold hostinfo at h
  rw [rpartition_none hat] at h
  obtain ⟨_, hsplit⟩ | ⟨a, b, rfl, _, hsplit⟩ := partition_cases 91 netloc
  · simp only [hsplit] at h
    exact mem_of_partition h
  · simp only [hsplit] at h
    have := mem_of_partition h
    simp [this]

include doc in
/-- What is no letter in a host name is in the authority. -/
theorem mem_of_hostname {netloc host : Str} {c : Nat} (hat : 64 ∉ netloc)
    (h : hostname t netloc = some host) (hc : c ∈ host) (hlt : c < 97) : c ∈ netloc := by
  have hlower : ∀ s : Str, c ∈ t.lower s → c ∈ s := by
    intro s hs
    rw [doc.lower] at hs
    obtain h | h | h := doc.lower_chars s c hs
    · omega
    · omega
    · exact h
  unfold Encoding.Url.hostname at h
  simp only at h
  split at h
  case isTrue => cases h
  case isFalse =>
    apply mem_of_hostinfo hat
    obtain ⟨hno, hpart⟩ | ⟨x, y, hinfo, hno, hpart⟩ := partition_cases 37 (hostinfo netloc).1
    · rw [hpart] at h
      cases h
      exact hlower _ hc
    · rw [hpart] at h
      cases h
      rw [hinfo]
      obtain hc | hc := List.mem_append.1 hc
      · exact List.mem_append_left _ (hlower x hc)
      · exact List.mem_append_right _ hc

/-! Canonical URLs. -/

theorem encodable_iff {s : Str} :
    (Json.encodeUtf8 s).isSome = true ↔ ∀ c ∈ s, (Json.encodePoint c).isSome = true := by
  induction s with
  | nil => exact iff_of_true rfl (by simp)
  | cons c s ih =>
    rw [List.forall_mem_cons, ← ih, Json.encodeUtf8]
    cases Json.encodePoint c <;> cases Json.encodeUtf8 s <;> simp

/-- The checks of a raw URL. -/
structure RawUrl (url : Str) : Prop where
  stripped : strip url = url
  chars : ∀ c ∈ url, 32 ≤ c ∧ c ≠ 127 ∧ (Json.encodePoint c).isSome = true

theorem parseUrl_ok {url url' : Str} {parsed : ParseResult}
    (h : parseUrl lib (some url) = .ok (url', parsed)) :
    url' = url ∧ RawUrl url ∧ lib.urlparse url = some parsed := by
  obtain ⟨_, hraw, h⟩ := ok_of_bind h
  obtain ⟨_, hencode, h⟩ := ok_of_bind h
  have hraw := require_ok hraw
  have hencode := encodable_iff.1 (require_ok hencode)
  simp only [Bool.and_eq_true, beq_iff_eq, List.all_eq_true, decide_eq_true_eq, bne_iff_ne] at hraw
  cases hparse : lib.urlparse url with
  | none =>
    rw [hparse] at h
    cases h
  | some parsed' =>
    rw [hparse] at h
    cases h
    refine ⟨rfl, ⟨hraw.1.symm, ?_⟩, rfl⟩
    intro c hc
    exact ⟨(hraw.2 c hc).1, (hraw.2 c hc).2, hencode c hc⟩

theorem parseUrl_of {url : Str} {parsed : ParseResult} (hraw : RawUrl url)
    (h : lib.urlparse url = some parsed) : parseUrl lib (some url) = .ok (url, parsed) := by
  have hchars : (url == strip url && url.all fun c => 32 ≤ c && c != 127) = true := by
    simp only [Bool.and_eq_true, beq_iff_eq, List.all_eq_true, decide_eq_true_eq, bne_iff_ne]
    exact ⟨hraw.stripped.symm, fun c hc => ⟨(hraw.chars c hc).1, (hraw.chars c hc).2.1⟩⟩
  have hencode := encodable_iff.2 fun c hc => (hraw.chars c hc).2.2
  simp only [parseUrl, hchars, hencode, h]
  rfl

theorem RawUrl.clean {url : Str} (h : RawUrl url) : clean url = url := by
  apply clean_of fun c hc => (h.chars c hc).1
  intro hhead
  have hstrip := h.stripped
  cases url with
  | nil => cases hhead
  | cons c url =>
    cases hhead
    have hlen := congrArg List.length hstrip
    unfold strip at hlen
    rw [List.length_reverse] at hlen
    have hspace : Encoding.isSpace 32 = true := rfl
    rw [List.dropWhile_cons_of_pos hspace] at hlen
    have h1 := (List.dropWhile_suffix Encoding.isSpace (l := (url.dropWhile
      Encoding.isSpace).reverse)).length_le
    have h2 := (List.dropWhile_suffix Encoding.isSpace (l := url)).length_le
    rw [List.length_reverse] at h1
    rw [List.length_cons] at hlen
    omega

/-- The parts of a URL with a canonical host: the scheme, the host, the port and the rest. -/
structure Origin (lib : NetLib) (t : Tables) (allowed_schemes : List Str) (before raw host : Str)
    (p : Option Nat) (port : Nat) (tail : Str) : Prop where
  scheme : IsScheme before raw
  allowed : lib.lower raw ∈ allowed_schemes
  form : HostForm lib t host
  isPort : IsPort p
  port : originPort (lib.lower raw) p = .ok port
  ends : EndsAuthority tail
  chars : ∀ c ∈ tail, 32 ≤ c ∧ c ≠ 127 ∧ (Json.encodePoint c).isSome = true
  last : ∀ c ∈ tail.getLast?, Encoding.isSpace c = false

theorem canonicalOriginHost_enclosed (host : Str) :
    canonicalOriginHost lib (91 :: (host ++ [93])) = canonicalLiteral lib true host := by
  have hlast : (91 :: (host ++ [93])).getLast? = some 93 := by
    rw [← List.cons_append, List.getLast?_append_of_ne_nil _ (List.cons_ne_nil _ _)]
    rfl
  have hb : bracketed (91 :: (host ++ [93])) = true := by
    rw [bracketed, hlast]
    rfl
  rw [canonicalOriginHost, if_pos hb, List.tail_cons, List.dropLast_concat]

include doc in
theorem HostForm.origin {host : Str} (h : HostForm lib t host) :
    canonicalOriginHost lib host = .ok host := by
  have hb : bracketed host = false := by
    have hhead : host.head? ≠ some 91 := by
      intro hhead
      have hmem := List.mem_of_head? hhead
      obtain ⟨w, zone, rfl, _⟩ | ⟨_, _, _, hchars⟩ := h.colon doc
      · rw [doc.text_v6, List.head?_append_of_ne_nil _ (List.ne_nil_of_mem (doc.text_address w).1)]
          at hhead
        have hrange := (doc.text_address w).2 91 (List.mem_of_head? hhead)
        simp [isDigit] at hrange
      · have hrange := hchars 91 hmem
        simp [isAlpha, isDigit] at hrange
    rw [bracketed, Bool.and_eq_false_iff]
    left
    rw [beq_eq_false_iff_ne]
    exact hhead
  rw [canonicalOriginHost, if_neg (by rw [hb]; exact Bool.false_ne_true)]
  exact h.canonical doc false (fun hc => by cases hc)

/-- The canonical URL of an origin. -/
def originUrl (before host : Str) (p : Option Nat) (tail : Str) : Str :=
  before ++ 47 :: 47 :: (enclose host ++ portText p ++ tail)

include doc in
theorem Origin.raw {allowed_schemes : List Str} {before raw host : Str} {p : Option Nat} {port : Nat}
    {tail : Str} (h : Origin lib t allowed_schemes before raw host p port tail) :
    RawUrl (originUrl before host p tail) := by
  have hauth := h.form.authority doc p
  generalize hnetloc : enclose host ++ portText p = netloc at hauth
  have hne : netloc ≠ [] := by
    rintro rfl
    exact hauth.ne (congrArg Prod.fst hauth.info).symm
  rw [originUrl, hnetloc]
  constructor
  · apply Encoding.strip_of_ends
    · intro c hc
      cases before with
      | nil =>
        cases hc
        decide
      | cons d before =>
        obtain rfl := Option.some.inj hc
        have := h.scheme.chars d List.mem_cons_self
        exact isSpace_graph (by omega)
    · intro c hc
      rw [List.getLast?_append_of_ne_nil _ (List.cons_ne_nil _ _), List.getLast?_cons_cons,
        List.getLast?_cons_of_ne_nil (by simp [hne])] at hc
      cases htail : tail with
      | nil =>
        rw [htail, List.append_nil] at hc
        exact hauth.last c hc
      | cons d tail =>
        rw [htail, List.getLast?_append_of_ne_nil _ (List.cons_ne_nil _ _), ← htail] at hc
        exact h.last c hc
  · intro c hc
    obtain hc | hc := List.mem_append.1 hc
    · have := h.scheme.chars c hc
      exact ⟨by omega, by omega, encodePoint_ascii (by omega)⟩
    · obtain rfl | hc := List.mem_cons.1 hc
      · decide
      · obtain rfl | hc := List.mem_cons.1 hc
        · decide
        · obtain hc | hc := List.mem_append.1 hc
          · exact hauth.chars c hc
          · exact h.chars c hc

include doc in
/-- The canonical URL of an origin is its own canonical URL, with the same origin. -/
theorem Origin.canonical {allowed_schemes : List Str} {before raw host : Str} {p : Option Nat}
    {port : Nat} {tail : Str} (h : Origin lib t allowed_schemes before raw host p port tail) :
    canonicalUrlOrigin lib (some (originUrl before host p tail)) allowed_schemes =
      .ok (originUrl before host p tail, lib.lower raw, host, port) := by
  have hraw := h.raw doc
  have hauth := h.form.authority doc p
  have hparse := urlparse_of (hraw.clean) h.scheme h.ends h.isPort hauth
  rw [← doc.urlparse] at hparse
  have hallowed : allowed_schemes.contains (lib.lower raw) = true := List.contains_iff_mem.2 h.allowed
  have hhost : (host.isEmpty) = false := by
    rw [List.isEmpty_eq_false_iff]
    exact hauth.ne
  have horigin : allowedOrigin lib ⟨raw, enclose host ++ portText p, some host, p, none, none⟩
      allowed_schemes = .ok (lib.lower raw, host) := by
    simp only [allowedOrigin, hallowed, Option.getD_some, hhost, Option.isNone_none, Bool.and_self,
      hauth.placed]
    rfl
  have hliteral : canonicalOriginHost lib
      (if (enclose host ++ portText p).head? = some 91 then 91 :: (host ++ [93]) else host) =
        .ok host := by
    by_cases hcolon : 58 ∈ host
    · rw [if_pos (hauth.head.2 hcolon), canonicalOriginHost_enclosed]
      exact h.form.canonical doc true fun _ => hcolon
    · rw [if_neg fun hhead => hcolon (hauth.head.1 hhead)]
      exact h.form.origin doc
  have hcut : cutSlashes (originUrl before host p tail) =
      (before, [47, 47], enclose host ++ portText p ++ tail) :=
    cutSlashes_of fun c hc => (h.scheme.chars c hc).1
  have hbuild : canonicalUrlOrigin lib (some (originUrl before host p tail)) allowed_schemes =
      (do
        let host' ← canonicalOriginHost lib
          (if (enclose host ++ portText p).head? = some 91 then 91 :: (host ++ [93]) else host)
        let port ← originPort (lib.lower raw) p
        return (before ++ [47, 47] ++ (enclose host' ++ portText p) ++
          (enclose host ++ portText p ++ tail).drop (enclose host ++ portText p).length,
          lib.lower raw, host', port)) := by
    unfold canonicalUrlOrigin
    rw [parseUrl_of hraw hparse]
    show (allowedOrigin lib _ _ >>= _) = _
    rw [horigin]
    show (canonicalOriginHost lib _ >>= _) = _
    simp only [hcut]
    rfl
  rw [hbuild, hliteral]
  show (originPort (lib.lower raw) p >>= _) = _
  rw [h.port, List.drop_left]
  show Except.ok _ = _
  simp [originUrl]

include doc in
/-- An accepted URL has an origin, and its canonical URL differs from it in the authority alone. -/
theorem canonicalUrlOrigin_origin {url u scheme host : Str} {port : Nat} {allowed_schemes : List Str}
    (h : canonicalUrlOrigin lib (some url) allowed_schemes = .ok (u, scheme, host, port)) :
    ∃ before raw p tail netloc, Origin lib t allowed_schemes before raw host p port tail ∧
      scheme = lib.lower raw ∧ u = originUrl before host p tail ∧
      url = before ++ 47 :: 47 :: (netloc ++ tail) ∧ ∀ c ∈ netloc, isDelimiter c = false := by
  obtain ⟨⟨given, parsed⟩, hgiven, hafter⟩ := ok_of_bind h
  obtain ⟨⟨scheme', name⟩, hallowed, hnamed⟩ := ok_of_bind hafter
  obtain ⟨canonical, hcanonical, hported⟩ := ok_of_bind hnamed
  obtain ⟨n, hport, hresult⟩ := ok_of_bind hported
  clear h hafter hnamed hported
  obtain ⟨rfl, hraw, hparse⟩ := parseUrl_ok hgiven
  rw [doc.urlparse] at hparse
  obtain ⟨_, hscheme, hfound⟩ := ok_of_bind hallowed
  obtain ⟨_, hhost, hanonymous⟩ := ok_of_bind hfound
  obtain ⟨_, huser, hbracketed⟩ := ok_of_bind hanonymous
  obtain ⟨_, hplaced, hpair⟩ := ok_of_bind hbracketed
  clear hallowed hfound hanonymous hbracketed hgiven
  have hhost : parsed.hostname.getD [] ≠ [] := by
    have hne := require_ok hhost
    simpa using hne
  have huser : parsed.username = none := by
    have hnone := require_ok huser
    simp only [Bool.and_eq_true, Option.isNone_iff_eq_none] at hnone
    exact hnone.1
  obtain ⟨rfl, rfl⟩ := Prod.mk.inj (Except.ok.inj hpair)
  obtain ⟨before, tail, hbefore, rfl, hdelim, htail, hname, hp, husername, hnormal⟩ :=
    urlparse_form hraw.clean hparse hhost
  have hat := at_of_username (husername.symm.trans huser)
  have hnetlocChars : ∀ c ∈ parsed.netloc, 32 ≤ c ∧ c ≠ 127 ∧ (Json.encodePoint c).isSome = true :=
    fun c hc => hraw.chars c (by simp [hc])
  have hslash : 47 ∉ parsed.netloc := by
    intro hc
    have := hdelim 47 hc
    cases this
  have hzone : ZoneChars t (parsed.hostname.getD []) := by
    cases hsome : parsed.hostname with
    | none =>
      rw [hsome] at hhost
      exact absurd rfl hhost
    | some name =>
      apply zoneChars_hostname doc _ (hname.symm.trans hsome)
      exact hostinfo_chars hat hplaced hdelim hnetlocChars (checkNetloc_normal doc hslash hnormal)
  have hform : HostForm lib t canonical := by
    split at hcanonical
    case isTrue =>
      rw [canonicalOriginHost_enclosed] at hcanonical
      exact hostForm_literal doc hzone hcanonical
    case isFalse hhead =>
      have hplain : bracketed (parsed.hostname.getD []) = false := by
        rw [bracketed, Bool.and_eq_false_iff]
        left
        rw [beq_eq_false_iff_ne]
        intro hfirst
        cases hsome : parsed.hostname with
        | none =>
          rw [hsome] at hhost
          exact hhost rfl
        | some name =>
          rw [hsome] at hfirst
          have hmem := mem_of_hostname doc hat (hname.symm.trans hsome) (List.mem_of_head? hfirst)
            (by decide)
          unfold checkBrackets at hplaced
          rw [if_neg hhead, if_pos (by simp [hmem])] at hplaced
          cases hplaced
      rw [canonicalOriginHost, if_neg (by rw [hplain]; exact Bool.false_ne_true)] at hcanonical
      exact hostForm_literal doc hzone hcanonical
  have hresult := Except.ok.inj hresult
  simp only [cutSlashes_of fun c hc => (hbefore.chars c hc).1, List.drop_left, Prod.mk.injEq]
    at hresult
  obtain ⟨rfl, rfl, rfl, rfl⟩ := hresult
  refine ⟨before, parsed.scheme, parsed.port, tail, parsed.netloc,
    ⟨hbefore, List.contains_iff_mem.1 (require_ok hscheme), hform, isPort_of hp, hport, htail,
      fun c hc => hraw.chars c (by simp [hc]), ?_⟩, rfl, ?_, rfl, hdelim⟩
  · intro c hc
    have hne : tail ≠ [] := by
      rintro rfl
      cases hc
    apply Encoding.last_of_strip hraw.stripped
    rw [← List.cons_append, ← List.cons_append, ← List.append_assoc,
      List.getLast?_append_of_ne_nil _ hne]
    exact hc
  · simp [originUrl, enclose, portText]

/-! Records. -/

theorem exists_of_mapM {α β : Type} {f : α → Option β} {l : List α} {m : List β}
    (h : l.mapM f = some m) {b : β} (hb : b ∈ m) : ∃ a, f a = some b := by
  induction l generalizing m with
  | nil =>
    cases h
    cases hb
  | cons a l ih =>
    rw [List.mapM_cons] at h
    obtain ⟨c, hc, h⟩ := Option.bind_eq_some_iff.1 h
    obtain ⟨cs, hcs, h⟩ := Option.bind_eq_some_iff.1 h
    cases h
    obtain rfl | hb := List.mem_cons.1 hb
    · exact ⟨a, hc⟩
    · exact ih hcs hb

theorem mapM_map_of {α β : Type} {f : α → Option β} {g : β → α} {m : List β}
    (h : ∀ b ∈ m, f (g b) = some b) : (m.map g).mapM f = some m := by
  induction m with
  | nil => rfl
  | cons b m ih =>
    rw [List.map_cons, List.mapM_cons, h b List.mem_cons_self,
      ih fun c hc => h c (List.mem_cons_of_mem b hc)]
    rfl

theorem new_addresses {url : Option Str} {scheme host : Str} {port : Int}
    {ip_addresses : Option (List AddressLike)} {v : ValidatedOutboundURL lib}
    (h : ValidatedOutboundURL.new lib url scheme host port ip_addresses = .ok v) :
    ip_addresses.bind (·.mapM lib.ip_address) = some v.ip_addresses := by
  unfold ValidatedOutboundURL.new at h
  split at h
  case h_1 => cases h
  case h_2 => cases h
  case h_3 a as haddresses =>
    rw [haddresses]
    split at h
    case isTrue hallowed =>
      split at h
      case h_1 => cases h
      case h_2 canonical scheme' host' port' horigin =>
        obtain ⟨same, _, h⟩ := ok_of_bind h
        split at h
        case isTrue => cases h
        case isFalse =>
          split at h
          case isTrue =>
            cases h
            rfl
          case isFalse => cases h
    case isFalse => cases h

/-- A record is built from a URL with its origin, and from its addresses. -/
theorem new_of {v : ValidatedOutboundURL lib} {ip_addresses : List AddressLike}
    (haddresses : ip_addresses.mapM lib.ip_address = some v.ip_addresses)
    (horigin : canonicalUrlOrigin lib (some v.url) [v.scheme] = .ok (v.url, v.scheme, v.host, v.port))
    (hhost : canonicalOriginHost lib v.host = .ok v.host) :
    ValidatedOutboundURL.new lib (some v.url) v.scheme v.host v.port (some ip_addresses) = .ok v := by
  obtain ⟨url, scheme, host, port, addresses, found, allowed, origin, literal⟩ := v
  have hmatch : originHostsMatch lib host host = .ok true := by
    simp only at hhost
    rw [originHostsMatch, hhost]
    show Except.ok (host == host) = _
    rw [beq_self_eq_true]
  unfold ValidatedOutboundURL.new
  simp only at haddresses horigin ⊢
  rw [Option.bind_some, haddresses]
  cases addresses with
  | nil => exact absurd rfl found
  | cons a as =>
    simp only
    rw [dif_pos allowed]
    split
    case h_1 e he =>
      rw [horigin] at he
      cases he
    case h_2 canonical scheme' host' port' he =>
      rw [horigin] at he
      cases he
      have hsame : ((!true) || decide ((port : Int) ≠ port)) = false := by simp
      rw [hmatch]
      show (if ((!true) || decide ((port : Int) ≠ port)) = true then _ else _) = _
      rw [hsame, if_neg Bool.false_ne_true, dif_pos literal]
      rfl

end Documented

/-- The canonical URL of an accepted URL is its own canonical URL with the same origin, differs from
it in the authority alone, and its authority resolves to the host and the port; and a record is built
again from its own fields. -/
theorem canonical_url_idempotent {lib : NetLib} {t : Tables} {fold : Nat → Str}
    (doc : lib.Documented t fold) :
    (∀ url allowed_schemes u scheme host port,
      canonicalUrlOrigin lib (some url) allowed_schemes = .ok (u, scheme, host, port) →
      canonicalUrlOrigin lib (some u) allowed_schemes = .ok (u, scheme, host, port) ∧
      ∃ before netloc authority tail, url = before ++ 47 :: 47 :: (netloc ++ tail) ∧
        u = before ++ 47 :: 47 :: (authority ++ tail) ∧ 47 ∉ before ∧
        (∀ c ∈ netloc ++ authority, isDelimiter c = false) ∧ EndsAuthority tail ∧
        ∃ name p, hostname t authority = some name ∧ Encoding.Url.port authority = some p ∧
          canonicalOriginHost lib
            (if authority.head? = some 91 then 91 :: (name ++ [93]) else name) = .ok host ∧
          originPort scheme p = .ok port) ∧
    ∀ url scheme host port ip_addresses v,
      ValidatedOutboundURL.new lib url scheme host port ip_addresses = .ok v →
      ValidatedOutboundURL.new lib (some v.url) v.scheme v.host v.port
        (some (v.ip_addresses.map .address)) = .ok v := by
  constructor
  · intro url allowed_schemes u scheme host port h
    obtain ⟨before, raw, p, tail, netloc, horigin, rfl, rfl, rfl, hdelim⟩ :=
      canonicalUrlOrigin_origin doc h
    have hauth := horigin.form.authority doc p
    refine ⟨horigin.canonical doc, before, netloc, _, tail, rfl, rfl, ?_, ?_, horigin.ends, host, p,
      hauth.hostname, port_of hauth.info horigin.isPort, ?_, horigin.port⟩
    · exact fun hc => (horigin.scheme.chars 47 hc).1 rfl
    · intro c hc
      obtain hc | hc := List.mem_append.1 hc
      · exact hdelim c hc
      · exact hauth.delimiters c hc
    · by_cases hcolon : 58 ∈ host
      · rw [if_pos (hauth.head.2 hcolon), canonicalOriginHost_enclosed]
        exact horigin.form.canonical doc true fun _ => hcolon
      · rw [if_neg fun hhead => hcolon (hauth.head.1 hhead)]
        exact horigin.form.origin doc
  · intro url scheme host port ip_addresses v h
    obtain ⟨raw, hraw⟩ := v.origin
    obtain ⟨ls, rfl, hls⟩ := Option.bind_eq_some_iff.1 (new_addresses h)
    cases raw with
    | none => cases hraw
    | some raw =>
      obtain ⟨before, scheme', p, tail, _, horigin, hscheme, hurl, _, _⟩ :=
        canonicalUrlOrigin_origin doc hraw
      apply new_of _ _ (horigin.form.origin doc)
      · have hread : ∀ a ∈ v.ip_addresses, lib.ip_address (.address a) = some a := by
          intro a ha
          obtain ⟨l, hl⟩ := exists_of_mapM hls ha
          rw [doc.read_address]
          exact doc.read_text l a hl
        exact mapM_map_of hread
      · rw [hurl, horigin.canonical doc, hscheme]

/-- An interpreter for ASCII URLs with names and one IPv4 literal. -/
def asciiTables : Tables where
  lower s := s.map lowerAscii
  nfkc s := s
  isIPv6 _ := false
  brackets := .netloc

def dotted (w : BitVec 32) : Str :=
  Json.natText (w >>> 24).toNat ++ 46 :: (Json.natText (w >>> 16 &&& 255).toNat ++
    46 :: (Json.natText (w >>> 8 &&& 255).toNat ++ 46 :: Json.natText (w &&& 255).toNat))

def readLiteral (s : Str) : Option IpAddress :=
  if s = str "93.184.216.34" then some (.v4 0x5DB8D822) else none

def asciiText : IpAddress → Str
  | .v4 w => dotted w
  | .v6 w zone => 58 :: 58 :: (Json.natText w.toNat ++ zoneText zone)

def asciiLib : NetLib where
  ip_address
    | .address a => readLiteral (asciiText a)
    | .text s => readLiteral s
    | _ => none
  IPv4Address s := if s = str "93.184.216.34" then some 0x5DB8D822 else none
  text := asciiText
  is_private _ := false
  is_loopback _ := false
  is_link_local _ := false
  is_multicast _ := false
  is_reserved _ := false
  is_unspecified _ := false
  is_site_local _ := false
  is_global _ := true
  urlparse := Security.urlparse asciiTables
  lower s := s.map lowerAscii
  casefold s := s.map lowerAscii
  isdigit s := !s.isEmpty && s.all isDigit
  encode s :=
    if s ≠ [] ∧ ∀ c ∈ s, (97 ≤ c ∧ c ≤ 122) ∨ isDigit c = true ∨ c = 45 ∨ c = 46 then some s else none
  repr s := 39 :: (s ++ [39])

theorem readLiteral_some {s : Str} {a : IpAddress} (h : readLiteral s = some a) :
    s = str "93.184.216.34" ∧ a = .v4 0x5DB8D822 := by
  unfold readLiteral at h
  split at h
  case isTrue hs => exact ⟨hs, (Option.some.inj h).symm⟩
  case isFalse => cases h

theorem asciiLib_read {l : AddressLike} {a : IpAddress} (h : asciiLib.ip_address l = some a) :
    a = .v4 0x5DB8D822 := by
  cases l with
  | address b => exact (readLiteral_some h).2
  | text s => exact (readLiteral_some h).2
  | _ => cases h

theorem lowerAscii_cases (c : Nat) : (97 ≤ lowerAscii c ∧ lowerAscii c ≤ 122) ∨ lowerAscii c = c := by
  unfold lowerAscii
  split
  · omega
  · exact .inr rfl

theorem asciiLib_documented : asciiLib.Documented asciiTables fun c => [lowerAscii c] where
  urlparse _ := rfl
  isIPv6 s := by
    cases h : asciiLib.ip_address (.text s) with
    | none => rfl
    | some a =>
      obtain rfl := asciiLib_read h
      rfl
  lower := rfl
  lower_ascii _ _ := rfl
  lower_chars s c hc := by
    obtain ⟨x, hx, rfl⟩ := List.mem_map.1 hc
    obtain h | h := lowerAscii_cases x
    · exact .inl h
    · rw [h]
      exact .inr (.inr hx)
  casefold s := by
    show s.map lowerAscii = _
    induction s with
    | nil => rfl
    | cons c s ih => rw [List.map_cons, List.flatMap_cons, ih, List.singleton_append]
  fold_ascii _ _ := rfl
  fold_chars c hc x hx := by
    obtain rfl := List.mem_singleton.1 hx
    obtain h | h := lowerAscii_cases c
    · exact .inl h
    · exact .inr (.inl h)
  fold_fold c x hx := by
    obtain rfl := List.mem_singleton.1 hx
    obtain h | h := lowerAscii_cases (lowerAscii c)
    · obtain h' | h' := lowerAscii_cases c
      · rw [lowerAscii, if_neg (by omega)]
      · rw [h', h']
    · rw [h]
  nfkc_ascii _ _ := rfl
  nfkc_dividers s d _ := by simp [asciiTables]
  nfkc_fold c x hx d hd hmem := by
    obtain rfl := List.mem_singleton.1 hx
    obtain rfl := List.mem_singleton.1 hmem
    obtain h | h := lowerAscii_cases c
    · simp only [dividers, List.mem_cons, List.not_mem_nil, or_false] at hd
      omega
    · rw [h]
      exact List.mem_singleton_self c
  text_v4 w := by
    constructor
    · show dotted w ≠ []
      simp [dotted]
    · intro c hc
      show isDigit c = true ∨ c = 46
      simp only [asciiLib, asciiText, dotted, List.mem_append, List.mem_cons] at hc
      obtain hc | rfl | hc | rfl | hc | rfl | hc := hc
      · exact .inl (Json.natText_digit hc)
      · exact .inr rfl
      · exact .inl (Json.natText_digit hc)
      · exact .inr rfl
      · exact .inl (Json.natText_digit hc)
      · exact .inr rfl
      · exact .inl (Json.natText_digit hc)
  text_v6 w zone := by simp [asciiLib, asciiText, zoneText]
  text_address w := by
    constructor
    · exact List.mem_cons_self
    · intro c hc
      simp only [asciiLib, asciiText, zoneText, Option.map_none, Option.getD_none, List.append_nil,
        List.mem_cons] at hc
      obtain rfl | rfl | hc := hc
      · exact .inr (.inr (.inl rfl))
      · exact .inr (.inr (.inl rfl))
      · exact .inl (Json.natText_digit hc)
  read_v4 s w h := by
    obtain ⟨rfl, _⟩ := readLiteral_some h
    decide
  read_v6 s w zone h := by cases asciiLib_read h
  read_text l a h := by
    obtain rfl := asciiLib_read h
    decide
  read_zone l w zone h := by cases asciiLib_read h
  read_IPv4 s w h := by
    simp only [asciiLib] at h
    split at h
    · cases h
      decide
    · cases h
  read_address _ := rfl
  encode_chars s a h := by
    simp only [asciiLib] at h
    split at h
    case isTrue hs =>
      cases h
      refine ⟨hs.1, fun c hc => ?_⟩
      obtain hlower | hrest := hs.2 c hc
      · refine .inl ?_
        simp only [isAlpha, Bool.or_eq_true, Bool.and_eq_true, decide_eq_true_eq]
        exact .inr hlower
      · exact .inr hrest
    case isFalse => cases h
  encode_lower s a h c hc := by
    simp only [asciiLib] at h
    split at h
    case isTrue hs =>
      cases h
      have := hs.2 c hc
      rw [isDigit_range] at this
      omega
    case isFalse => cases h
  encode_encode s a h := by
    simp only [asciiLib] at h ⊢
    split at h
    case isTrue hs =>
      cases h
      rw [if_pos hs]
    case isFalse => cases h

/-- A URL with capitals, a padded port and an empty fragment, and a record of its canonical form. -/
theorem canonical_url_padded :
    canonicalUrlOrigin asciiLib (some (str "http://example.com:80/a//b?c#")) [str "http"] =
      .ok (str "http://example.com:80/a//b?c#", str "http", str "example.com", 80) ∧
    ∃ v : ValidatedOutboundURL asciiLib, v.url = str "http://example.com:80/a//b?c#" ∧
      ValidatedOutboundURL.new asciiLib (some v.url) v.scheme v.host v.port
        (some (v.ip_addresses.map .address)) = .ok v := by
  have hurl : canonicalUrlOrigin asciiLib (some (str "http://Example.COM:0080/a//b?c#"))
      [str "http"] =
        .ok (str "http://example.com:80/a//b?c#", str "http", str "example.com", 80) := by decide
  have hnew : ∃ v, ValidatedOutboundURL.new asciiLib (some (str "http://Example.COM:0080/a//b?c#"))
      (str "http") (str "example.com") 80 (some [.text (str "93.184.216.34")]) = .ok v ∧
        v.url = str "http://example.com:80/a//b?c#" := ⟨_, rfl, rfl⟩
  obtain ⟨v, hnew, hv⟩ := hnew
  exact ⟨((canonical_url_idempotent asciiLib_documented).1 _ _ _ _ _ _ hurl).1, v, hv,
    (canonical_url_idempotent asciiLib_documented).2 _ _ _ _ _ v hnew⟩

end KestrelSdk.Security
