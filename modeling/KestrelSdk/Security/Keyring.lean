import KestrelSdk.Security.DataKey

namespace KestrelSdk.Security

open Json (Str Bytes encodeUtf8)

/-! What a process keeps. -/

namespace Run

variable {α β : Type} {m : Run α} {k : α → Run β} {p q : Process}

theorem bind_ok {x : α} (h : m p = (.ok x, q)) : (m >>= k) p = k x q := by
  show Run.bind m k p = k x q
  unfold Run.bind
  rw [h]

theorem bind_error {e : Raise} (h : m p = (.error e, q)) : (m >>= k) p = (.error e, q) := by
  show Run.bind m k p = (.error e, q)
  unfold Run.bind
  rw [h]

theorem look_ok {f : Process → Except Raise α} {x : α} (h : f p = .ok x) :
    Run.look f p = (.ok x, p) := by
  unfold Run.look
  rw [h]

theorem look_error {f : Process → Except Raise α} {e : Raise} (h : f p = .error e) :
    Run.look f p = (.error e, p) := by
  unfold Run.look
  rw [h]

end Run

/-- A published salt. -/
def Process.published (p : Process) (s : Salt) : Process :=
  { p with volume := { p.volume with salt := some (Base64.urlsafeEncode s.val) } }

/-- The salt that reads find. -/
abbrev Process.salt (rel : Base64.Release) (env : Environment) (p : Process) :
    Except Raise (Option Salt) :=
  readPassphraseSalt rel env p.volume

/-- What blocks the name of the salt file stays, and the salt file stays as it is, or a salt is
published where there was none. -/
structure Process.Kept (p q : Process) : Prop where
  blocked : q.volume.blocked = p.volume.blocked
  file : q.volume.salt = p.volume.salt ∨
    (p.volume.salt = none ∧ ∃ s : Salt, q.volume.salt = some (Base64.urlsafeEncode s.val))

/-- A link to nothing stands where a write would publish a salt. -/
def Process.Obstructed (rel : Base64.Release) (env : Environment) (p : Process) : Prop :=
  explicitSalt rel env = none ∧ env.keyFile.isSome = true ∧ p.volume.blocked = some .dangling ∧
    ∀ other, p.volume.publication ≠ .failed other

/-- A write finds its salt or is refused: reads find a valid salt or none, and nothing obstructs its
publication. -/
def Process.Ready (rel : Base64.Release) (env : Environment) (p : Process) : Prop :=
  (∃ s, p.salt rel env = .ok s) ∧ ¬ p.Obstructed rel env

section Kept

variable {rel : Base64.Release} {env : Environment} {p q r : Process}

theorem Process.Kept.refl (p : Process) : p.Kept p := ⟨rfl, .inl rfl⟩

theorem Process.Kept.trans (hpq : p.Kept q) (hqr : q.Kept r) : p.Kept r := by
  obtain ⟨hpq', hpq⟩ := hpq
  obtain ⟨hqr', hqr⟩ := hqr
  refine ⟨hqr'.trans hpq', ?_⟩
  obtain hpq | ⟨hp, s, hs⟩ := hpq
  · obtain hqr | ⟨hq, t, ht⟩ := hqr
    · exact .inl (hqr.trans hpq)
    · exact .inr ⟨hpq.symm.trans hq, t, ht⟩
  · obtain hqr | ⟨hq, _⟩ := hqr
    · exact .inr ⟨hp, s, hqr.trans hs⟩
    · rw [hs] at hq
      cases hq

theorem Process.Kept.of_volume (h : q.volume = p.volume) : p.Kept q := ⟨by rw [h], .inl (by rw [h])⟩

theorem Process.Kept.published (h : p.volume.salt = none) (s : Salt) : p.Kept (p.published s) :=
  ⟨rfl, .inr ⟨h, s, rfl⟩⟩

/-- Where nothing blocks its name, the salt file is loaded if there is one. -/
theorem loadExistingKeyFileSalt_free {v : Volume} (hb : v.blocked = none) :
    loadExistingKeyFileSalt rel v =
      match v.salt with
      | none => .ok none
      | some content => (loadPassphraseSaltFile rel (some content)).map some := by
  unfold loadExistingKeyFileSalt loadKeyFileSalt Volume.saltExists
  rw [hb]
  cases v.salt <;> rfl

/-- What blocks the name of the salt file decides the load. -/
theorem loadExistingKeyFileSalt_blocked {v w : Volume} {b : Blocked} (hv : v.blocked = some b)
    (hw : w.blocked = some b) : loadExistingKeyFileSalt rel w = loadExistingKeyFileSalt rel v := by
  unfold loadExistingKeyFileSalt loadKeyFileSalt Volume.saltExists
  rw [hv, hw]
  cases b <;> rfl

theorem load_published (s : Salt) :
    loadPassphraseSaltFile rel (some (Base64.urlsafeEncode s.val)) = .ok s := by
  simp only [loadPassphraseSaltFile, readSalt_published]

/-- A load is a matter of the salt file and of what blocks its name. -/
theorem loadExistingKeyFileSalt_congr {v w : Volume} (hb : w.blocked = v.blocked)
    (h : w.salt = v.salt) : loadExistingKeyFileSalt rel w = loadExistingKeyFileSalt rel v := by
  cases hv : v.blocked with
  | some b => exact loadExistingKeyFileSalt_blocked hv (hb.trans hv)
  | none =>
    rw [loadExistingKeyFileSalt_free hv, loadExistingKeyFileSalt_free (hb.trans hv), h]

/-- A salt that reads find stays, and where they find none they find none or a new one later. -/
theorem Process.Kept.salt (h : p.Kept q) {s : Option Salt} (hs : p.salt rel env = .ok s) :
    ∃ t, q.salt rel env = .ok t ∧ (s = none ∨ t = s) := by
  simp only [Process.salt, readPassphraseSalt] at hs ⊢
  cases hexp : explicitSalt rel env with
  | some r =>
    rw [hexp] at hs
    exact ⟨s, hs, .inr rfl⟩
  | none =>
    rw [hexp] at hs
    cases hfile : env.keyFile.isSome with
    | false =>
      rw [hfile] at hs
      exact ⟨s, hs, .inr rfl⟩
    | true =>
      rw [hfile] at hs
      simp only [if_true] at hs ⊢
      cases hb : p.volume.blocked with
      | some b =>
        rw [loadExistingKeyFileSalt_blocked hb (h.blocked.trans hb)]
        exact ⟨s, hs, .inr rfl⟩
      | none =>
        rw [loadExistingKeyFileSalt_free hb] at hs
        rw [loadExistingKeyFileSalt_free (h.blocked.trans hb)]
        obtain hq | ⟨hp, t, hq⟩ := h.file
        · rw [hq]
          exact ⟨s, hs, .inr rfl⟩
        · rw [hp] at hs
          rw [hq]
          cases hs
          exact ⟨some t, by simp only [load_published]; rfl, .inl rfl⟩

end Kept

/-- The salt is the one of the environment, or one beside the key file that the process noted as
durable; an environment without either has none. -/
def Process.Secured (rel : Base64.Release) (env : Environment) (p : Process) (s : Option Salt) :
    Prop :=
  explicitSalt rel env = none → env.keyFile.isSome = true → ∃ t ∈ p.durable, s = some t

/-- Each cached key is the one that its passphrase and its salt derive, and the passphrases are
among `used`. -/
def CacheSound (lib : KeyLib) (used : Set Bytes) (cache : List ((Key × Salt) × Key)) : Prop :=
  ∀ e ∈ cache, ∃ b ∈ used, ∃ s : Salt,
    e = ((lib.sha256 b, s), lib.pbkdf2 passphraseKdfIterations s.val b)

/-- What a process keeps when it resolves keys. -/
structure Leads (lib : KeyLib) (used : Set Bytes) (p q : Process) : Prop where
  kept : p.Kept q
  sound : CacheSound lib used q.cache

/-! The salt for a write. -/

/-- How a computation ends that needs the salt for a write: with the value for the salt that reads
find then, refused, or because writes are not ready. -/
inductive Salted {α : Type} (rel : Base64.Release) (env : Environment) (p q : Process)
    (f : Option Salt → α) : Except Raise α → Prop
  | found (s : Option Salt) (h : q.salt rel env = .ok s) (hs : q.Secured rel env s)
      (hp : p.Ready rel env) : Salted rel env p q f (.ok (f s))
  | refused (u : Unavailable) (s : Option Salt) (h : q.salt rel env = .ok s)
      (hp : p.Ready rel env) : Salted rel env p q f (.error (.unavailable u))
  | invalid (e : Raise) (h : ¬ p.Ready rel env) (he : ∀ u, e ≠ .unavailable u) :
      Salted rel env p q f (.error e)

section Write

variable {rel : Base64.Release} {env : Environment}

theorem publishKeyFileSalt_spec {p : Process} (hb : p.volume.blocked = none) :
    ∃ q, p.Kept q ∧ q.cache = p.cache ∧
      ((publishKeyFileSalt p = (.ok (), q) ∧ ∃ content, q.volume.salt = some content ∧
          (p.volume.salt = some content ∨
            (p.volume.salt = none ∧ ∃ s : Salt, content = Base64.urlsafeEncode s.val))) ∨
        (∃ u, publishKeyFileSalt p = (.error (.unavailable u), q) ∧ p.volume.salt = none ∧
          (q.volume.salt = none ∨ ∃ s : Salt, q.volume.salt = some (Base64.urlsafeEncode s.val)))) := by
  unfold publishKeyFileSalt Volume.saltExists publishSaltFile
  rw [hb]
  cases hsalt : p.volume.salt with
  | some content => exact ⟨p, .refl p, rfl, .inl ⟨rfl, content, hsalt, .inl rfl⟩⟩
  | none =>
    have hkept := fun s => Process.Kept.published hsalt s
    cases hpub : p.volume.publication with
    | linked s => exact ⟨p.published s, hkept s, rfl, .inl ⟨rfl, _, rfl, .inr ⟨rfl, s, rfl⟩⟩⟩
    | overtaken s => exact ⟨p.published s, hkept s, rfl, .inl ⟨rfl, _, rfl, .inr ⟨rfl, s, rfl⟩⟩⟩
    | failed other =>
      cases other with
      | none => exact ⟨p, .refl p, rfl, .inr ⟨_, rfl, rfl, .inl hsalt⟩⟩
      | some s => exact ⟨p.published s, hkept s, rfl, .inr ⟨_, rfl, rfl, .inr ⟨s, rfl⟩⟩⟩

/-- Where something blocks the name of the salt file, nothing is published: a file that is there
raises, and a link to nothing raises too unless the publication fails before. -/
theorem publishKeyFileSalt_blocked {p : Process} {b : Blocked} (hb : p.volume.blocked = some b) :
    (publishKeyFileSalt p = (.ok (), p) ∧
      (b = .dangling → ∀ other, p.volume.publication ≠ .failed other)) ∨
    (∃ u, publishKeyFileSalt p = (.error (.unavailable u), p) ∧ b = .dangling ∧
      ∃ other, p.volume.publication = .failed other) := by
  unfold publishKeyFileSalt Volume.saltExists publishSaltFile
  rw [hb]
  cases b with
  | unreadable => exact .inl ⟨rfl, by simp⟩
  | irregular => exact .inl ⟨rfl, by simp⟩
  | dangling =>
    cases hpub : p.volume.publication with
    | linked s => exact .inl ⟨rfl, by simp⟩
    | overtaken s => exact .inl ⟨rfl, by simp⟩
    | failed other => cases other <;> exact .inr ⟨_, rfl, rfl, _, rfl⟩

theorem makeKeyFileSaltDurable_spec (s : Salt) (p : Process) :
    ∃ q, q.volume = p.volume ∧ q.cache = p.cache ∧
      ((makeKeyFileSaltDurable s p = (.ok (), q) ∧ s ∈ q.durable) ∨
        makeKeyFileSaltDurable s p = (.error (.unavailable .unsynced), q)) := by
  unfold makeKeyFileSaltDurable
  split
  case isTrue hs => exact ⟨p, rfl, rfl, .inl ⟨rfl, hs⟩⟩
  case isFalse =>
    split
    · exact ⟨{ p with durable := s :: p.durable }, rfl, rfl, .inl ⟨rfl, List.mem_cons_self⟩⟩
    · exact ⟨p, rfl, rfl, .inr rfl⟩

/-- What reads find beside a key file. -/
theorem salt_keyFile {p : Process} (hexp : explicitSalt rel env = none)
    (hfile : env.keyFile.isSome = true) :
    p.salt rel env = loadExistingKeyFileSalt rel p.volume := by
  simp only [Process.salt, readPassphraseSalt, hexp, hfile, if_true]

theorem ready_of_free {p : Process} (hb : p.volume.blocked = none) {s : Option Salt}
    (hs : p.salt rel env = .ok s) : p.Ready rel env := by
  refine ⟨⟨s, hs⟩, ?_⟩
  rintro ⟨_, _, hdangling, _⟩
  rw [hb] at hdangling
  cases hdangling

theorem loadPassphraseSaltFile_raises {content : Option Bytes} {u : Unavailable} :
    loadPassphraseSaltFile rel content ≠ .error (.unavailable u) := by
  unfold loadPassphraseSaltFile
  split
  · simp
  · split <;> simp

theorem loadOrCreateKeyFileSalt_free {p : Process} (hexp : explicitSalt rel env = none)
    (hfile : env.keyFile.isSome = true) (hb : p.volume.blocked = none) :
    ∃ q r, ((do let s ← loadOrCreateKeyFileSalt rel; return some s) : Run (Option Salt)) p = (r, q) ∧
      p.Kept q ∧ q.cache = p.cache ∧ Salted rel env p q id r := by
  obtain ⟨q, hkept, hcache, hpub⟩ := publishKeyFileSalt_spec hb
  have hsalt : ∀ p : Process, p.volume.blocked = none → p.salt rel env =
      match p.volume.salt with
      | none => .ok none
      | some content => (loadPassphraseSaltFile rel (some content)).map some :=
    fun p hb => (salt_keyFile hexp hfile).trans (loadExistingKeyFileSalt_free hb)
  have hqb := hkept.blocked.trans hb
  obtain ⟨hpub, content, hcontent, hfrom⟩ | ⟨u, hpub, hp, hnone⟩ := hpub
  · have hlook : loadKeyFileSalt rel q.volume = loadPassphraseSaltFile rel (some content) := by
      unfold loadKeyFileSalt
      rw [hqb, hcontent]
    cases hload : loadPassphraseSaltFile rel (some content) with
    | error e =>
      refine ⟨q, .error e, ?_, hkept, hcache, .invalid e ?_ ?_⟩
      · apply Run.bind_error
        unfold loadOrCreateKeyFileSalt
        rw [Run.bind_ok hpub]
        exact Run.bind_error (Run.look_error (hlook.trans hload))
      · rintro ⟨⟨s, hs⟩, _⟩
        rw [hsalt p hb] at hs
        obtain hp | ⟨_, t, rfl⟩ := hfrom
        · rw [hp] at hs
          simp only [hload] at hs
          cases hs
        · rw [load_published] at hload
          cases hload
      · rintro u rfl
        exact loadPassphraseSaltFile_raises hload
    | ok s =>
      obtain ⟨q', hvol, hcache', hdur⟩ := makeKeyFileSaltDurable_spec s q
      have hread : q'.salt rel env = .ok (some s) := by
        rw [hsalt q' (by rw [hvol]; exact hqb), hvol, hcontent]
        simp only [hload]
        rfl
      have hkept' : p.Kept q' := hkept.trans (.of_volume hvol)
      have hready : p.Ready rel env := by
        obtain hp | ⟨hp, _⟩ := hfrom
        · apply ready_of_free (s := some s) hb
          rw [hsalt p hb, hp]
          simp only [hload]
          rfl
        · apply ready_of_free (s := none) hb
          rw [hsalt p hb, hp]
      have hrun : loadOrCreateKeyFileSalt rel p =
          ((do makeKeyFileSaltDurable s; return s) : Run Salt) q := by
        unfold loadOrCreateKeyFileSalt
        rw [Run.bind_ok hpub]
        exact Run.bind_ok (Run.look_ok (hlook.trans hload))
      obtain ⟨hdur, hmem⟩ | hdur := hdur
      · refine ⟨q', .ok (some s), ?_, hkept', hcache'.trans hcache,
          .found (some s) hread (fun _ _ => ⟨s, hmem, rfl⟩) hready⟩
        rw [Run.bind_ok (hrun.trans (Run.bind_ok hdur))]
        rfl
      · refine ⟨q', _, ?_, hkept', hcache'.trans hcache, .refused .unsynced (some s) hread hready⟩
        exact Run.bind_error (hrun.trans (Run.bind_error hdur))
  · have hready : p.Ready rel env := by
      apply ready_of_free (s := none) hb
      rw [hsalt p hb, hp]
    have hrefused : ∃ s, q.salt rel env = .ok s := by
      rw [hsalt q hqb]
      obtain hq | ⟨s, hq⟩ := hnone
      · rw [hq]
        exact ⟨none, rfl⟩
      · rw [hq]
        exact ⟨some s, by simp only [load_published]; rfl⟩
    obtain ⟨s, hs⟩ := hrefused
    refine ⟨q, .error (.unavailable u), ?_, hkept, hcache, .refused u s hs hready⟩
    apply Run.bind_error
    exact Run.bind_error hpub

theorem loadOrCreateKeyFileSalt_blocked {p : Process} (hexp : explicitSalt rel env = none)
    (hfile : env.keyFile.isSome = true) {b : Blocked} (hb : p.volume.blocked = some b) :
    ∃ r, ((do let s ← loadOrCreateKeyFileSalt rel; return some s) : Run (Option Salt)) p = (r, p) ∧
      Salted rel env p p id r := by
  have hsalt := salt_keyFile (p := p) hexp hfile
  obtain ⟨hpub, hdangling⟩ | ⟨u, hpub, rfl, other, hother⟩ := publishKeyFileSalt_blocked hb
  · obtain ⟨e, hload, he⟩ : ∃ e, loadKeyFileSalt rel p.volume = .error e ∧
        ∀ u, e ≠ .unavailable u := by
      unfold loadKeyFileSalt
      rw [hb]
      cases b <;> exact ⟨_, rfl, by simp⟩
    refine ⟨.error e, ?_, .invalid e ?_ he⟩
    · apply Run.bind_error
      unfold loadOrCreateKeyFileSalt
      rw [Run.bind_ok hpub]
      exact Run.bind_error (Run.look_error hload)
    · rintro ⟨⟨s, hs⟩, hclear⟩
      rw [hsalt] at hs
      unfold loadExistingKeyFileSalt Volume.saltExists at hs
      rw [hb, hload] at hs
      cases b with
      | unreadable => cases hs
      | irregular => cases hs
      | dangling => exact hclear ⟨hexp, hfile, hb, hdangling rfl⟩
  · have hnone : p.salt rel env = .ok none := by
      rw [hsalt]
      unfold loadExistingKeyFileSalt Volume.saltExists
      rw [hb]
      rfl
    refine ⟨_, Run.bind_error (Run.bind_error hpub), .refused u none hnone ⟨⟨none, hnone⟩, ?_⟩⟩
    rintro ⟨_, _, _, hno⟩
    exact hno other hother

theorem loadOrCreateKeyFileSalt_spec (p : Process) (hexp : explicitSalt rel env = none)
    (hfile : env.keyFile.isSome = true) :
    ∃ q r, ((do let s ← loadOrCreateKeyFileSalt rel; return some s) : Run (Option Salt)) p = (r, q) ∧
      p.Kept q ∧ q.cache = p.cache ∧ Salted rel env p q id r := by
  cases hb : p.volume.blocked with
  | none => exact loadOrCreateKeyFileSalt_free hexp hfile hb
  | some b =>
    obtain ⟨r, hrun, hsalted⟩ := loadOrCreateKeyFileSalt_blocked hexp hfile hb
    exact ⟨p, r, hrun, .refl p, rfl, hsalted⟩

theorem explicitSalt_raises {r : Except Raise Salt} (h : explicitSalt rel env = some r)
    (u : Unavailable) : r ≠ .error (.unavailable u) := by
  unfold explicitSalt at h
  split at h
  · split at h <;> cases h <;> simp
  · obtain ⟨content, _, rfl⟩ := Option.map_eq_some_iff.1 h
    exact loadPassphraseSaltFile_raises

/-- A write takes the salt that reads find then. -/
theorem writePassphraseSalt_spec (rel : Base64.Release) (env : Environment) (p : Process) :
    ∃ q r, writePassphraseSalt rel env p = (r, q) ∧ p.Kept q ∧ q.cache = p.cache ∧
      Salted rel env p q id r := by
  unfold writePassphraseSalt
  cases hexp : explicitSalt rel env with
  | some r =>
    have hread : p.salt rel env = r.map some := by
      simp only [Process.salt, readPassphraseSalt, hexp]
    have hclear : ¬ p.Obstructed rel env := by
      rintro ⟨hno, _⟩
      rw [hexp] at hno
      cases hno
    cases r with
    | ok s =>
      refine ⟨p, _, rfl, .refl p, rfl, .found (some s) hread ?_ ⟨⟨_, hread⟩, hclear⟩⟩
      intro hno
      rw [hexp] at hno
      cases hno
    | error e =>
      refine ⟨p, _, rfl, .refl p, rfl, .invalid e ?_ ?_⟩
      · rintro ⟨⟨s, hs⟩, _⟩
        rw [hread] at hs
        cases hs
      · rintro u rfl
        exact explicitSalt_raises hexp u rfl
  | none =>
    cases hfile : env.keyFile.isSome with
    | true => exact loadOrCreateKeyFileSalt_spec p hexp hfile
    | false =>
      have hnone : p.salt rel env = .ok none := by
        simp only [Process.salt, readPassphraseSalt, hexp, hfile]
        rfl
      refine ⟨p, .ok none, rfl, .refl p, rfl, .found none hnone ?_ ⟨⟨none, hnone⟩, ?_⟩⟩
      · intro _ hsome
        rw [hfile] at hsome
        cases hsome
      · rintro ⟨_, hsome, _⟩
        rw [hfile] at hsome
        cases hsome

end Write

/-! Master keys. -/

def ReadKeys.map {α β : Type} (f : α → β) (keys : ReadKeys α) : ReadKeys β :=
  ⟨f keys.newest, keys.older.map f⟩

def ReadKeys.toList {α : Type} (keys : ReadKeys α) : List α := keys.newest :: keys.older

/-- The master keys of a passphrase under a salt. -/
def masters (lib : KeyLib) (b : Bytes) : Option Salt → ReadKeys Key
  | none => ⟨lib.sha256 b, []⟩
  | some s => ⟨lib.pbkdf2 passphraseKdfIterations s.val b, [lib.sha256 b]⟩

/-- The resolved keys where the newest one writes, unless writes are refused. -/
def MasterKeys.of {α : Type} (read : ReadKeys α) : Option Unavailable → MasterKeys α
  | none => ⟨some read.newest, none, read⟩
  | some u => ⟨none, some u, read⟩

theorem MasterKeys.map_of {α β : Type} (read : ReadKeys α) (refusal : Option Unavailable)
    (f : α → β) : (MasterKeys.of read refusal).map f = .of (read.map f) refusal := by
  cases refusal <;> rfl

section Masters

variable {lib : KeyLib} {used : Set Bytes} {env : Environment} {key : Str} {b : Bytes} {p : Process}

theorem lookup_sound (hinj : Set.InjOn lib.sha256 used) (hb : b ∈ used)
    {cache : List ((Key × Salt) × Key)} (hc : CacheSound lib used cache) {s : Salt} {k : Key}
    (h : cache.lookup (lib.sha256 b, s) = some k) :
    k = lib.pbkdf2 passphraseKdfIterations s.val b := by
  obtain ⟨before, after, rfl, _⟩ := List.lookup_eq_some_iff.1 h
  obtain ⟨b', hb', s', heq⟩ := hc ((lib.sha256 b, s), k) (by simp)
  simp only [Prod.mk.injEq] at heq
  obtain ⟨⟨hsha, rfl⟩, rfl⟩ := heq
  rw [hinj hb hb' hsha]

theorem deriveLegacy_eq (hb : encodeUtf8 key = some b) (p : Process) :
    deriveLegacyPassphraseMasterKey lib key p = (.ok (lib.sha256 b), p) := by
  unfold deriveLegacyPassphraseMasterKey
  rw [hb]
  rfl

theorem deriveSalted_spec (hinj : Set.InjOn lib.sha256 used) (hb : encodeUtf8 key = some b)
    (hu : b ∈ used) (hc : CacheSound lib used p.cache) (s : Salt) :
    ∃ q, deriveSaltedPassphraseMasterKey lib key s p =
        (.ok (lib.pbkdf2 passphraseKdfIterations s.val b), q) ∧
      q.volume = p.volume ∧ q.durable = p.durable ∧ CacheSound lib used q.cache := by
  have hstart : deriveSaltedPassphraseMasterKey lib key s p = cachedMasterKey lib b s p := by
    unfold deriveSaltedPassphraseMasterKey
    rw [hb]
    rfl
  rw [hstart]
  cases hlookup : p.cache.lookup (lib.sha256 b, s) with
  | some k =>
    have hrun : cachedMasterKey lib b s p = (.ok k, p) := by
      simp only [cachedMasterKey, hlookup]
    rw [lookup_sound hinj hu hc hlookup] at hrun
    exact ⟨p, hrun, rfl, rfl, hc⟩
  | none =>
    have hrun : cachedMasterKey lib b s p =
        (.ok (lib.pbkdf2 passphraseKdfIterations s.val b),
          { p with cache := ((lib.sha256 b, s), lib.pbkdf2 passphraseKdfIterations s.val b) ::
            p.cache }) := by
      simp only [cachedMasterKey, hlookup]
    refine ⟨_, hrun, rfl, rfl, ?_⟩
    intro e he
    obtain rfl | he := List.mem_cons.1 he
    · exact ⟨b, hu, s, rfl⟩
    · exact hc e he

/-- The write key is the newest key for the salt that reads find then. -/
theorem derivePassphraseMasterKey_spec (env : Environment) (hinj : Set.InjOn lib.sha256 used)
    (hb : encodeUtf8 key = some b) (hu : b ∈ used) (hc : CacheSound lib used p.cache) :
    ∃ q r, derivePassphraseMasterKey lib env key p = (r, q) ∧ Leads lib used p q ∧
      Salted lib.release env p q (fun s => (masters lib b s).newest) r := by
  obtain ⟨q, r, hrun, hkept, hcache, hsalt⟩ := writePassphraseSalt_spec lib.release env p
  have hc : CacheSound lib used q.cache := by
    rw [hcache]
    exact hc
  unfold derivePassphraseMasterKey
  cases hsalt with
  | found s h hs hp =>
    rw [Run.bind_ok hrun]
    cases s with
    | none => exact ⟨q, _, deriveLegacy_eq hb q, ⟨hkept, hc⟩, .found none h hs hp⟩
    | some s =>
      obtain ⟨q', hrun', hvol, hdur, hc'⟩ := deriveSalted_spec hinj hb hu hc s
      refine ⟨q', _, hrun', ⟨hkept.trans (.of_volume hvol), hc'⟩, .found (some s) ?_ ?_ hp⟩
      · rw [Process.salt, hvol]
        exact h
      · rw [Process.Secured, hdur]
        exact hs
  | refused u s h hp =>
    rw [Run.bind_error hrun]
    exact ⟨q, _, rfl, ⟨hkept, hc⟩, .refused u s h hp⟩
  | invalid e h he =>
    rw [Run.bind_error hrun]
    exact ⟨q, _, rfl, ⟨hkept, hc⟩, .invalid e h he⟩

/-- The read keys are those of the salt that reads find. -/
theorem passphraseReadMasterKeys_ok (hinj : Set.InjOn lib.sha256 used)
    (hb : encodeUtf8 key = some b) (hu : b ∈ used) (hc : CacheSound lib used p.cache)
    {s : Option Salt} (hs : p.salt lib.release env = .ok s) :
    ∃ q, passphraseReadMasterKeys lib env key p = (.ok (masters lib b s), q) ∧
      q.volume = p.volume ∧ q.durable = p.durable ∧ CacheSound lib used q.cache := by
  unfold passphraseReadMasterKeys
  rw [Run.bind_ok (deriveLegacy_eq hb p), Run.bind_ok (Run.look_ok hs)]
  cases s with
  | none => exact ⟨p, rfl, rfl, rfl, hc⟩
  | some s =>
    obtain ⟨q, hsalted, hvol, hdur, hc'⟩ := deriveSalted_spec hinj hb hu hc s
    exact ⟨q, Run.bind_ok hsalted, hvol, hdur, hc'⟩

/-- The keys are resolved wherever a write is ready; the refusal is that of the write key. -/
theorem resolvePassphraseMasterKeys_spec (env : Environment) (hinj : Set.InjOn lib.sha256 used)
    (hb : encodeUtf8 key = some b) (hu : b ∈ used) (hc : CacheSound lib used p.cache) :
    ∃ q, Leads lib used p q ∧
      ((∃ s refusal, resolvePassphraseMasterKeys lib env key p =
          (.ok (.of (masters lib b s) refusal), q) ∧ q.salt lib.release env = .ok s ∧
        (refusal = none → q.Secured lib.release env s) ∧ p.Ready lib.release env ∧
        ∀ u, (derivePassphraseMasterKey lib env key p).1 = .error (.unavailable u) →
          refusal = some u) ∨
      ∃ e, resolvePassphraseMasterKeys lib env key p = (.error e, q) ∧
        ¬ p.Ready lib.release env) := by
  obtain ⟨q, r, hrun, hleads, hsalt⟩ := derivePassphraseMasterKey_spec env hinj hb hu hc
  unfold resolvePassphraseMasterKeys
  rw [hrun]
  cases hsalt with
  | found s h hs hp =>
    obtain ⟨q', hread, hvol, hdur, hc'⟩ := passphraseReadMasterKeys_ok hinj hb hu hleads.sound h
    refine ⟨q', ⟨hleads.kept.trans (.of_volume hvol), hc'⟩, .inl ⟨s, none, ?_, ?_, ?_, hp, ?_⟩⟩
    · exact Run.bind_ok hread
    · rw [Process.salt, hvol]
      exact h
    · intro _
      rw [Process.Secured, hdur]
      exact hs
    · intro u hu
      cases hu
  | refused u s h hp =>
    obtain ⟨q', hread, hvol, _, hc'⟩ := passphraseReadMasterKeys_ok hinj hb hu hleads.sound h
    refine ⟨q', ⟨hleads.kept.trans (.of_volume hvol), hc'⟩,
      .inl ⟨s, some u, ?_, ?_, by simp, hp, ?_⟩⟩
    · exact Run.bind_ok hread
    · rw [Process.salt, hvol]
      exact h
    · intro v hv
      cases hv
      rfl
  | invalid e h he =>
    refine ⟨q, hleads, .inr ⟨e, ?_, h⟩⟩
    cases e with
    | unavailable u => exact absurd rfl (he u)
    | _ => rfl

end Masters

/-! Ciphers. -/

section Ciphers

variable {lib : Crypto} {made : List Sealed}

/-- The cipher of resolved keys writes with the newest key and reads with all of them. -/
theorem cipherFor_encrypt (lib : Crypto) (read : ReadKeys Key) (refusal : Option Unavailable)
    (plaintext : Text) (nonce : Nonce) (aad : Option Bytes) :
    (cipherFor (.of read refusal)).encrypt lib plaintext nonce aad =
      match refusal with
      | some u => .error (.unavailable u)
      | none =>
        match (AEADCipher.of read.newest).encrypt lib plaintext nonce aad with
        | some token => .ok token
        | none => .error .encrypt := by
  cases refusal with
  | some u => rfl
  | none =>
    by_cases hsingle : read.older = []
    · simp only [cipherFor, MasterKeys.of, hsingle, and_self, if_true, Cipher.encrypt]
      all_goals rfl
    · simp only [cipherFor, MasterKeys.of, hsingle, and_false, if_false, Cipher.encrypt]
      all_goals rfl

theorem decryptWithAny_single (c : AEADCipher) (token : Text) (aad : Option Bytes) :
    decryptWithAny lib ⟨c, []⟩ token aad = c.decrypt lib token aad := by
  unfold decryptWithAny
  cases c.decrypt lib token aad with
  | ok data => rfl
  | error r => cases r <;> rfl

theorem cipherFor_decrypt (lib : Crypto) (read : ReadKeys Key) (refusal : Option Unavailable)
    (token : Text) (aad : Option Bytes) :
    (cipherFor (.of read refusal)).decrypt lib token aad =
      match decryptWithAny lib (read.map .of) token aad with
      | .ok data => .ok data
      | .error r => .error (.decrypt r) := by
  cases refusal with
  | some u => rfl
  | none =>
    obtain ⟨newest, older⟩ := read
    cases older with
    | nil =>
      simp only [cipherFor, MasterKeys.of, and_self, if_true, Cipher.decrypt, ReadKeys.map,
        List.map_nil, decryptWithAny_single]
      all_goals rfl
    | cons k older =>
      simp only [cipherFor, MasterKeys.of, reduceCtorEq, and_false, if_false, Cipher.decrypt]
      all_goals rfl

/-- A cipher opens the token of an encryption, or raises `DecryptionError`. -/
theorem Ideal.decrypt_made (ideal : Ideal lib made) {r : Sealed} (hr : r ∈ made) {t : Text}
    (ht : t.ascii = some (tokenOf r.frame)) {aad : Option Bytes}
    (haad : r.aad = AEADCipher.composeAad algAes256Gcm aad) (c : AEADCipher) :
    (c.key = r.key ∧ c.decrypt lib t aad = .ok r.data) ∨
      c.key ≠ r.key ∧ ∃ e, c.decrypt lib t aad = .error e ∧ e.IsDecryption := by
  rw [decrypt_text ht, decrypt_tokenOf]
  by_cases hkey : c.key = r.key
  · exact .inl ⟨hkey, ideal.openFramed_made hr hkey haad⟩
  · refine .inr ⟨hkey, openFramed_refusal ?_⟩
    intro data hopen
    obtain ⟨r', hr', hframe, hkey', _⟩ := ideal.opens_frame hopen
    rw [ideal.frame_inj hr' hr hframe] at hkey'
    exact hkey hkey'.symm

theorem Ideal.decryptWithOlder (ideal : Ideal lib made) {r : Sealed} (hr : r ∈ made) {t : Text}
    (ht : t.ascii = some (tokenOf r.frame)) {aad : Option Bytes}
    (haad : r.aad = AEADCipher.composeAad algAes256Gcm aad) (failure : Refusal)
    {older : List AEADCipher} (h : ∃ c ∈ older, c.key = r.key) :
    decryptWithOlder lib t aad failure older = .ok r.data := by
  induction older with
  | nil =>
    obtain ⟨c, hc, _⟩ := h
    cases hc
  | cons c older ih =>
    unfold KestrelSdk.Security.decryptWithOlder
    obtain ⟨_, hopen⟩ | ⟨hkey, e, hopen, he⟩ := ideal.decrypt_made hr ht haad c
    · rw [hopen]
    · rw [hopen]
      obtain ⟨d, hd, hdkey⟩ := h
      obtain rfl | hd := List.mem_cons.1 hd
      · exact absurd hdkey hkey
      · cases e with
        | unicode => exact absurd rfl he
        | _ => exact ih ⟨d, hd, hdkey⟩

/-- The read keys open the token of an encryption under one of them. -/
theorem Ideal.decryptWithAny (ideal : Ideal lib made) {r : Sealed} (hr : r ∈ made) {t : Text}
    (ht : t.ascii = some (tokenOf r.frame)) {aad : Option Bytes}
    (haad : r.aad = AEADCipher.composeAad algAes256Gcm aad) {read : ReadKeys Key}
    (h : ∃ k ∈ read.toList, k.val = r.key) :
    decryptWithAny lib (read.map .of) t aad = .ok r.data := by
  unfold KestrelSdk.Security.decryptWithAny
  obtain ⟨_, hopen⟩ | ⟨hkey, e, hopen, he⟩ :=
    ideal.decrypt_made hr ht haad (read.map AEADCipher.of).newest
  · rw [hopen]
  · rw [hopen]
    obtain ⟨k, hk, hkr⟩ := h
    obtain rfl | hk := List.mem_cons.1 hk
    · exact absurd hkr hkey
    · have hold : ∃ c ∈ (read.map AEADCipher.of).older, c.key = r.key :=
        ⟨.of k, List.mem_map.2 ⟨k, hk, rfl⟩, hkr⟩
      cases e with
      | unicode => exact absurd rfl he
      | _ => exact ideal.decryptWithOlder hr ht haad _ hold

end Ciphers

end KestrelSdk.Security
