import KestrelSdk.Asyncio.Machine
import KestrelSdk.Security.Salt

namespace KestrelSdk.Security

open Asyncio
open Json (Bytes)

namespace SaltFile

/-- The directory entry of the salt file. Its content was synced before the entry was made. -/
structure Entry where
  content : Bytes
  durable : Bool

/-- Why a load raises: `_KeyFileSaltUnavailableError`, `MasterKeyNotConfiguredError`, `ValueError` or
an `OSError` that is not caught. -/
inductive Failure where
  | unavailable
  | notConfigured
  | invalid
  | os
  deriving DecidableEq

inductive Result where
  | salt (s : Salt)
  | none
  | failed (e : Failure)
  deriving DecidableEq

/-- Where a call is: before `exists`, in `_publish_salt_file` before `os.open`, before the write and
sync of the temporary file, before `os.link`, before `is_file`, before `read_text`, in
`_make_key_file_salt_durable`, or ended. -/
inductive Pc where
  | checking
  | opening (s : Salt)
  | writing (s : Salt)
  | linking (s : Salt)
  | loading
  | reading
  | syncing (s : Salt)
  | ended (r : Result)
  deriving DecidableEq

/-- A run of `_load_or_create_key_file_salt`, or of `_load_existing_key_file_salt`. -/
structure Call where
  process : Nat
  write : Bool
  pc : Pc

/-- A load that succeeded: for writing, or for reading. -/
inductive Load where
  | write (s : Salt)
  | read (s : Option Salt)
  deriving DecidableEq

/-- The key file's directory, the calls that run, `_DURABLE_KEY_FILE_SALTS` of each process, and the
loads so far, oldest first. -/
structure Host where
  entry : Option Entry
  calls : List Call
  durable : Nat → List Salt
  log : List Load

/-- How a file-system step ends; `taken` is `FileExistsError` of `os.open`. -/
inductive Io where
  | ok
  | taken
  | error
  deriving DecidableEq

/-- What happens: a call starts, a call takes its next file-system step (`random` is what
`os.urandom` returns), a process ends, the system writes the directory back, or the host crashes. -/
inductive Event where
  | start (process : Nat) (write : Bool)
  | step (i : Nat) (io : Io) (random : Salt)
  | exit (process : Nat)
  | writeback
  | crash

/-- `os.fsync` of the directory. -/
def Entry.sync (e : Entry) : Entry := { e with durable := true }

namespace Host

/-- `os.link` to the name of the salt file, which never replaces. -/
def link (h : Host) (s : Salt) : Host :=
  match h.entry with
  | none => { h with entry := some ⟨Base64.urlsafeEncode s.val, false⟩ }
  | some _ => h

/-- `_fsync_directory`, which does nothing on Windows, and the note of the salt. -/
def makeDurable (nt : Bool) (h : Host) (process : Nat) (s : Salt) : Host :=
  { h with
    entry := if nt then h.entry else h.entry.map Entry.sync
    durable := Function.update h.durable process (s :: h.durable process) }

/-- The next step of a call. -/
def advance (rel : Base64.Release) (nt : Bool) (h : Host) (c : Call) (random : Salt) :
    Pc → Io → Option (Host × Pc)
  | .checking, .ok =>
    some (h, match h.entry with
      | some _ => .loading
      | none => if c.write then .opening random else .ended .none)
  | .checking, .error => some (h, .ended (.failed .os))
  | .opening s, .ok => some (h, .writing s)
  | .opening _, .taken => some (h, .loading)
  | .opening _, .error => some (h, .ended (.failed .unavailable))
  | .writing s, .ok => some (h, .linking s)
  | .writing _, .error => some (h, .ended (.failed .unavailable))
  | .linking s, .ok => some (h.link s, .loading)
  | .linking _, .error => some (h, .ended (.failed .unavailable))
  | .loading, .ok =>
    some (h, if h.entry.isSome then .reading else .ended (.failed .notConfigured))
  | .loading, .error => some (h, .ended (.failed .os))
  | .reading, .ok =>
    match h.entry with
    | none => some (h, .ended (.failed .os))
    | some e =>
      match readSalt rel e.content with
      | none => some (h, .ended (.failed .invalid))
      | some s => some (h, if c.write then .syncing s else .ended (.salt s))
  | .reading, .error => some (h, .ended (.failed .os))
  | .syncing s, .ok =>
    if s ∈ h.durable c.process then some (h, .ended (.salt s))
    else some (h.makeDurable nt c.process s, .ended (.salt s))
  | .syncing s, .error =>
    if s ∈ h.durable c.process then none else some (h, .ended (.failed .unavailable))
  | _, _ => none

end Host

/-- What a call that ended adds to the loads. -/
def loads (write : Bool) : Pc → List Load
  | .ended (.salt s) => [if write then .write s else .read (some s)]
  | .ended .none => [.read none]
  | _ => []

def Host.step (rel : Base64.Release) (nt : Bool) (h : Host) : Event → Option Host
  | .start p write => some { h with calls := h.calls ++ [⟨p, write, .checking⟩] }
  | .step i io random =>
    match h.calls[i]? with
    | none => none
    | some c =>
      match h.advance rel nt c random c.pc io with
      | none => none
      | some (h', pc) =>
        some { h' with calls := h.calls.set i { c with pc := pc }, log := h.log ++ loads c.write pc }
  | .exit p =>
    some { h with
      calls := h.calls.filter (·.process ≠ p), durable := Function.update h.durable p [] }
  | .writeback => some { h with entry := h.entry.map Entry.sync }
  | .crash =>
    some { h with entry := h.entry.filter (·.durable), calls := [], durable := fun _ => [] }

/-- A host, with the salt file as it was at first. -/
def host (rel : Base64.Release) (nt : Bool) (entry : Option Entry) : Machine Host Event where
  start := ⟨entry, [], fun _ => [], []⟩
  step := Host.step rel nt

/-! Agreement. -/

section Agreement

variable {rel : Base64.Release} {h h' : Host}

/-- The salt file holds the salt. -/
def Host.Has (rel : Base64.Release) (h : Host) (s : Salt) : Prop :=
  ∃ e, h.entry = some e ∧ readSalt rel e.content = some s

/-- The salt file holds the salt, and a crash does not lose it. -/
def Host.Keeps (rel : Base64.Release) (h : Host) (s : Salt) : Prop :=
  ∃ e, h.entry = some e ∧ e.durable = true ∧ readSalt rel e.content = some s

theorem Host.Keeps.has {s : Salt} (hk : h.Keeps rel s) : h.Has rel s := by
  obtain ⟨e, he, _, hs⟩ := hk
  exact ⟨e, he, hs⟩

theorem Host.Keeps.unique {s t : Salt} (hs : h.Keeps rel s) (ht : h.Has rel t) : t = s := by
  obtain ⟨e, he, _, hs⟩ := hs
  obtain ⟨f, hf, ht⟩ := ht
  rw [he] at hf
  cases hf
  rw [hs] at ht
  exact (Option.some.inj ht).symm

/-- The entry stays, and stays durable. -/
def Grows (h h' : Host) : Prop :=
  ∀ e, h.entry = some e →
    ∃ e', h'.entry = some e' ∧ e'.content = e.content ∧ (e.durable = true → e'.durable = true)

theorem Grows.refl (h : Host) : Grows h h := fun e he => ⟨e, he, rfl, id⟩

theorem Grows.has (hg : Grows h h') {s : Salt} (hs : h.Has rel s) : h'.Has rel s := by
  obtain ⟨e, he, hs⟩ := hs
  obtain ⟨e', he', hc, _⟩ := hg e he
  exact ⟨e', he', by rw [hc]; exact hs⟩

theorem Grows.keeps (hg : Grows h h') {s : Salt} (hs : h.Keeps rel s) : h'.Keeps rel s := by
  obtain ⟨e, he, hd, hs⟩ := hs
  obtain ⟨e', he', hc, hd'⟩ := hg e he
  exact ⟨e', he', hd' hd, by rw [hc]; exact hs⟩

theorem grows_sync (hh : h'.entry = h.entry.map Entry.sync) : Grows h h' := by
  intro e he
  rw [he] at hh
  exact ⟨e.sync, hh, rfl, fun _ => rfl⟩

theorem grows_link (s : Salt) : Grows h (h.link s) := by
  intro e he
  have hlink : h.link s = h := by
    unfold Host.link
    rw [he]
  rw [hlink]
  exact ⟨e, he, rfl, id⟩

/-- Each call that has read a salt, each noted salt and each load agrees with the salt file, and the
loads after a load for writing give its salt. -/
structure Agreed (rel : Base64.Release) (h : Host) : Prop where
  syncing : ∀ c ∈ h.calls, ∀ s, c.pc = .syncing s → h.Has rel s
  durable : ∀ p, ∀ s ∈ h.durable p, h.Keeps rel s
  log : ∀ s, .write s ∈ h.log → h.Keeps rel s
  order : h.log.Pairwise fun l m => ∀ s, l = .write s → m = .write s ∨ m = .read (some s)

/-- What a step of a call does. -/
structure Advances (rel : Base64.Release) (h : Host) (c : Call) (h' : Host) (pc : Pc) : Prop where
  grows : Grows h h'
  durable : ∀ p, ∀ s ∈ h'.durable p, s ∈ h.durable p ∨ h'.Keeps rel s
  syncing : ∀ s, pc = .syncing s → h'.Has rel s
  wrote : ∀ s, pc = .ended (.salt s) → c.write = true → h'.Keeps rel s
  found : ∀ s, pc = .ended (.salt s) → h'.Has rel s
  missed : pc = .ended .none → c.write = false ∧ h.entry = none

/-- A step after which the call has no salt. -/
theorem Advances.quiet {c : Call} {pc : Pc} (hg : Grows h h') (hd : h'.durable = h.durable)
    (hs : ∀ s, pc ≠ .syncing s ∧ pc ≠ .ended (.salt s)) (hn : pc ≠ .ended .none) :
    Advances rel h c h' pc := by
  refine ⟨hg, ?_, ?_, ?_, ?_, fun he => absurd he hn⟩
  · intro p s hm
    rw [hd] at hm
    exact .inl hm
  · exact fun s he => absurd he (hs s).1
  · exact fun s he => absurd he (hs s).2
  · exact fun s he => absurd he (hs s).2

/-- A salt that a call syncs is durable then. -/
theorem advances_sync {c : Call} {s : Salt} (hs : h.Has rel s) :
    Advances rel h c (h.makeDurable false c.process s) (.ended (.salt s)) := by
  have hkeep : (h.makeDurable false c.process s).Keeps rel s := by
    obtain ⟨e, he, hsalt⟩ := hs
    refine ⟨e.sync, ?_, rfl, hsalt⟩
    simp [Host.makeDurable, he]
  refine ⟨grows_sync (by simp [Host.makeDurable]), ?_, by simp, ?_, ?_, by simp⟩
  · intro p t ht
    by_cases hp : p = c.process
    · subst hp
      simp only [Host.makeDurable, Function.update_self] at ht
      obtain rfl | ht := List.mem_cons.1 ht
      · exact .inr hkeep
      · exact .inl ht
    · simp only [Host.makeDurable, Function.update_of_ne hp] at ht
      exact .inl ht
  · intro t ht _
    cases ht
    exact hkeep
  · intro t ht
    cases ht
    exact hkeep.has

theorem advances {c : Call} {random : Salt} {io : Io} {pc : Pc} (ha : Agreed rel h)
    (hc : c ∈ h.calls) (hstep : h.advance rel false c random c.pc io = some (h', pc)) :
    Advances rel h c h' pc := by
  have hquiet : ∀ {pc : Pc}, (∀ s, pc ≠ .syncing s ∧ pc ≠ .ended (.salt s)) → pc ≠ .ended .none →
      Advances rel h c h pc := fun hs hn => .quiet (.refl h) rfl hs hn
  cases hpc : c.pc with
  | checking =>
    rw [hpc] at hstep
    cases io with
    | ok =>
      cases hentry : h.entry with
      | some e =>
        simp only [Host.advance, hentry] at hstep
        cases hstep
        exact hquiet (by simp) (by simp)
      | none =>
        cases hw : c.write with
        | true =>
          simp only [Host.advance, hentry, hw] at hstep
          cases hstep
          exact hquiet (by simp) (by simp)
        | false =>
          simp only [Host.advance, hentry, hw] at hstep
          cases hstep
          refine ⟨.refl h, fun p s hm => .inl hm, by simp, by simp, by simp, fun _ => ⟨hw, hentry⟩⟩
    | taken => cases hstep
    | error =>
      cases hstep
      exact hquiet (by simp) (by simp)
  | opening s =>
    rw [hpc] at hstep
    cases io <;> cases hstep <;> exact hquiet (by simp) (by simp)
  | writing s =>
    rw [hpc] at hstep
    cases io <;> cases hstep <;> exact hquiet (by simp) (by simp)
  | linking s =>
    rw [hpc] at hstep
    cases io with
    | ok =>
      cases hstep
      apply Advances.quiet (grows_link s) _ (by simp) (by simp)
      unfold Host.link
      split <;> rfl
    | taken => cases hstep
    | error =>
      cases hstep
      exact hquiet (by simp) (by simp)
  | loading =>
    rw [hpc] at hstep
    cases io with
    | ok =>
      cases hstep
      apply hquiet <;> split <;> simp
    | taken => cases hstep
    | error =>
      cases hstep
      exact hquiet (by simp) (by simp)
  | reading =>
    rw [hpc] at hstep
    cases io with
    | ok =>
      cases hentry : h.entry with
      | none =>
        simp only [Host.advance, hentry] at hstep
        cases hstep
        exact hquiet (by simp) (by simp)
      | some e =>
        cases hsalt : readSalt rel e.content with
        | none =>
          simp only [Host.advance, hentry, hsalt] at hstep
          cases hstep
          exact hquiet (by simp) (by simp)
        | some s =>
          simp only [Host.advance, hentry, hsalt] at hstep
          cases hstep
          have hhas : h.Has rel s := ⟨e, hentry, hsalt⟩
          cases hw : c.write with
          | true =>
            refine ⟨.refl h, fun p s hm => .inl hm, ?_, by simp, by simp, by simp⟩
            intro t ht
            cases ht
            exact hhas
          | false =>
            refine ⟨.refl h, fun p s hm => .inl hm, by simp, by simp [hw], ?_, by simp⟩
            intro t ht
            cases ht
            exact hhas
    | taken => cases hstep
    | error =>
      cases hstep
      exact hquiet (by simp) (by simp)
  | syncing s =>
    rw [hpc] at hstep
    cases io with
    | ok =>
      simp only [Host.advance] at hstep
      split at hstep
      case isTrue hmem =>
        cases hstep
        have hkeep := ha.durable c.process s hmem
        refine ⟨.refl h, fun p s hm => .inl hm, by simp, ?_, ?_, by simp⟩
        · intro t ht _
          cases ht
          exact hkeep
        · intro t ht
          cases ht
          exact hkeep.has
      case isFalse =>
        cases hstep
        exact advances_sync (ha.syncing c hc s hpc)
    | taken => cases hstep
    | error =>
      simp only [Host.advance] at hstep
      split at hstep
      · cases hstep
      · cases hstep
        exact hquiet (by simp) (by simp)
  | ended r =>
    rw [hpc] at hstep
    cases hstep

/-- The loads that a step adds agree with the salt file and with the loads before it. -/
theorem Agreed.append {c : Call} {pc : Pc} {calls : List Call} (ha : Agreed rel h)
    (hadv : Advances rel h c h' pc)
    (hcalls : ∀ d ∈ calls, ∀ s, d.pc = .syncing s → h'.Has rel s) :
    Agreed rel { h' with calls := calls, log := h.log ++ loads c.write pc } := by
  have hnew : ∀ l ∈ loads c.write pc, (∀ s, l = .write s → h'.Keeps rel s) ∧
      ∀ s, h.Keeps rel s → l = .write s ∨ l = .read (some s) := by
    intro l hl
    cases pc with
    | ended r =>
      cases r with
      | salt s =>
        simp only [loads, List.mem_singleton] at hl
        subst hl
        constructor
        · intro t ht
          split at ht
          case isTrue hw =>
            cases ht
            exact hadv.wrote s rfl hw
          case isFalse => cases ht
        · intro t ht
          have hst := (hadv.grows.keeps ht).unique (hadv.found s rfl)
          subst hst
          split
          · exact .inl rfl
          · exact .inr rfl
      | none =>
        obtain ⟨_, hentry⟩ := hadv.missed rfl
        simp only [loads, List.mem_singleton] at hl
        subst hl
        constructor
        · intro t ht
          cases ht
        · rintro t ⟨e, he, _⟩
          rw [hentry] at he
          cases he
      | failed e => cases hl
    | _ => cases hl
  refine ⟨hcalls, ?_, ?_, ?_⟩
  · intro p s hs
    obtain hs | hs := hadv.durable p s hs
    · exact hadv.grows.keeps (ha.durable p s hs)
    · exact hs
  · intro s hs
    obtain hs | hs := List.mem_append.1 hs
    · exact hadv.grows.keeps (ha.log s hs)
    · exact (hnew _ hs).1 s rfl
  · apply List.pairwise_append.2 ⟨ha.order, ?_, ?_⟩
    · have hshort : (loads c.write pc).length ≤ 1 := by
        unfold loads
        split <;> simp
      cases hl : loads c.write pc with
      | nil => exact .nil
      | cons l rest =>
        rw [hl, List.length_cons] at hshort
        rw [List.eq_nil_of_length_eq_zero (by omega : rest.length = 0)]
        exact List.pairwise_singleton ..
    · intro l hl m hm s hls
      subst hls
      exact (hnew m hm).2 s (ha.log s hl)

theorem Agreed.step {e : Event} (ha : Agreed rel h) (hstep : h.step rel false e = some h') :
    Agreed rel h' := by
  cases e with
  | start p w =>
    cases hstep
    refine ⟨?_, ha.durable, ha.log, ha.order⟩
    intro c hc s hs
    obtain hc | hc := List.mem_append.1 hc
    · exact ha.syncing c hc s hs
    · obtain rfl := List.mem_singleton.1 hc
      cases hs
  | step i io random =>
    simp only [Host.step] at hstep
    split at hstep
    · cases hstep
    · rename_i c hc
      split at hstep
      · cases hstep
      · rename_i h₁ pc hadv
        cases hstep
        have hadv := advances ha (List.mem_of_getElem? hc) hadv
        apply ha.append hadv
        intro d hd s hs
        obtain hd | rfl := List.mem_or_eq_of_mem_set hd
        · exact hadv.grows.has (ha.syncing d hd s hs)
        · exact hadv.syncing s hs
  | exit p =>
    cases hstep
    refine ⟨fun c hc => ha.syncing c (List.mem_of_mem_filter hc), ?_, ha.log, ha.order⟩
    intro q s hs
    by_cases hq : q = p
    · subst hq
      simp at hs
    · simp only [Function.update_of_ne hq] at hs
      exact ha.durable q s hs
  | writeback =>
    cases hstep
    have hg : Grows h { h with entry := h.entry.map Entry.sync } := grows_sync rfl
    exact ⟨fun c hc s hs => hg.has (ha.syncing c hc s hs),
      fun p s hs => hg.keeps (ha.durable p s hs), fun s hs => hg.keeps (ha.log s hs), ha.order⟩
  | crash =>
    cases hstep
    refine ⟨by simp, by simp, ?_, ha.order⟩
    intro s hs
    obtain ⟨e, he, hd, hsalt⟩ := ha.log s hs
    exact ⟨e, by simp [he, hd], hd, hsalt⟩

theorem agreed {entry : Option Entry} (hr : (host rel false entry).Reachable h) : Agreed rel h := by
  refine hr.invariant (p := Agreed rel) ⟨by simp [host], by simp [host], by simp [host], ?_⟩
    fun _ _ _ ha hstep => ha.step hstep
  exact .nil

/-- All salts that were returned for writing are the same, also across crashes, and each load after
one of them that succeeds gives it. -/
theorem salts_agree {entry : Option Entry} (hr : (host rel false entry).Reachable h) :
    (∀ s t, .write s ∈ h.log → .write t ∈ h.log → s = t) ∧
    ∀ before after s, h.log = before ++ .write s :: after →
      ∀ l ∈ after, l = .write s ∨ l = .read (some s) := by
  have ha := agreed hr
  constructor
  · intro s t hs ht
    exact (ha.log t ht).unique (ha.log s hs).has
  · intro before after s hlog l hl
    have horder := ha.order
    rw [hlog] at horder
    exact (List.pairwise_cons.1 (List.pairwise_append.1 horder).2.1).1 l hl s rfl

end Agreement

/-- Two processes start. The first links its salt, the second adopts and syncs it, the host crashes,
and a third process reads it. -/
def race (a b : Salt) : List Event :=
  [.start 0 true, .start 1 true, .step 0 .ok a, .step 1 .ok b, .step 0 .ok a, .step 1 .ok b,
    .step 0 .ok a, .step 1 .ok b, .step 0 .ok a, .step 1 .ok b, .step 1 .ok b, .step 1 .ok b,
    .step 1 .ok b, .crash, .start 2 false, .step 0 .ok a, .step 0 .ok a, .step 0 .ok a]

theorem salts_agree_race : ∃ h s,
    (host ⟨true⟩ false none).runFrom (host ⟨true⟩ false none).start
      (race ⟨List.replicate 32 1, rfl⟩ ⟨List.replicate 32 2, rfl⟩) = some h ∧
    h.log = [.write s, .read (some s)] := by
  obtain ⟨h, hrun, s, t, hlog⟩ : ∃ h,
      (host ⟨true⟩ false none).runFrom (host ⟨true⟩ false none).start
        (race ⟨List.replicate 32 1, rfl⟩ ⟨List.replicate 32 2, rfl⟩) = some h ∧
      ∃ s t, h.log = [.write s, .read t] := ⟨_, rfl, _, _, rfl⟩
  have hreach : (host ⟨true⟩ false none).Reachable h := ⟨_, hrun⟩
  obtain ⟨_, hlater⟩ := salts_agree hreach
  obtain hread | hread := hlater [] [.read t] s hlog _ (List.mem_singleton_self _)
  · cases hread
  · rw [hread] at hlog
    exact ⟨h, s, hrun, hlog⟩

end SaltFile

end KestrelSdk.Security
