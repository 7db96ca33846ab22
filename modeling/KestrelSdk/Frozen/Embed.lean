import KestrelSdk.Frozen.Agree

namespace KestrelSdk.Frozen

open Json (Str Key Value)

/-! Objects seen from a larger graph. -/

/-- The view with its parts renamed. -/
def View.map {ι κ : Type} (f : ι → κ) : View ι → View κ
  | .scalar s => .scalar s
  | .nonFinite x => .nonFinite x
  | .mapping entries => .mapping (entries.map fun e => (e.1, f e.2))
  | .sequence items => .sequence (items.map f)
  | .other => .other

theorem View.map_keys {ι κ : Type} (f : ι → κ) {v : View ι} {zs : List (Key × κ)}
    (h : v.map f = .mapping zs) : ∃ es, v = .mapping es ∧ zs.map Prod.fst = es.map Prod.fst := by
  cases v with
  | mapping es =>
    cases h
    exact ⟨es, rfl, by simp⟩
  | _ => cases h

section Embed

variable {ι κ : Type} {g : Graph ι} {h : Graph κ} {f : ι → κ}

mutual
/-- What an object reads as does not depend on the graph that it is seen from. -/
theorem reads_map (hf : ∀ y, h.view (f y) = (g.view y).map f) : ∀ (v : Value) (y : ι),
    Reads h v (f y) ↔ Reads g v y
  | .none, y => by
    simp only [Reads, hf]
    cases g.view y <;> simp [View.map]
  | .bool b, y => by
    simp only [Reads, hf]
    cases g.view y <;> simp [View.map]
  | .int i, y => by
    simp only [Reads, hf]
    cases g.view y <;> simp [View.map]
  | .float x, y => by
    cases x with
    | finite r =>
      simp only [Reads, hf]
      cases g.view y <;> simp [View.map]
    | _ =>
      simp only [Reads, hf]
      cases g.view y <;> simp [View.map]
  | .str s, y => by
    simp only [Reads, hf]
    cases g.view y <;> simp [View.map]
  | .list vs, y => by
    simp only [Reads, hf]
    cases hview : g.view y with
    | sequence ys => simpa [View.map] using readsItems_map hf vs ys
    | _ => simp [View.map]
  | .dict es, y => by
    simp only [Reads, hf]
    cases hview : g.view y with
    | mapping zs => simpa [View.map] using readsEntries_map hf es zs
    | _ => simp [View.map]
  | .object n, y => by simp only [Reads]
  termination_by structural v => v

theorem readsItems_map (hf : ∀ y, h.view (f y) = (g.view y).map f) : ∀ (vs : List Value)
    (ys : List ι), ReadsItems h vs (ys.map f) ↔ ReadsItems g vs ys
  | [], ys => by simp [ReadsItems]
  | v :: vs, [] => by simp [ReadsItems]
  | v :: vs, y :: ys => by
    have hhead := reads_map hf v y
    have htail := readsItems_map hf vs ys
    simp [ReadsItems, hhead, htail]
  termination_by structural vs => vs

theorem readsEntries_map (hf : ∀ y, h.view (f y) = (g.view y).map f) :
    ∀ (es : List (Key × Value)) (zs : List (Key × ι)),
      ReadsEntries h es (zs.map fun e => (e.1, f e.2)) ↔ ReadsEntries g es zs
  | [], zs => by simp [ReadsEntries]
  | (k, v) :: es, [] => by simp [ReadsEntries]
  | (k, v) :: es, (l, y) :: zs => by
    have hhead := reads_map hf v y
    have htail := readsEntries_map hf es zs
    simp [ReadsEntries, hhead, htail, and_assoc]
  termination_by structural es => es
end

end Embed

/-! A depth limit that the recursion limit leaves room for. -/

/-- No `RecursionError`. -/
def Roomy {β : Type} (r : Except Reject β) : Prop := Outcome (fun _ => True) (· ≠ .recursion) r

section Room

variable {ι : Type} {cfg : Config} {w : Walk ι}

theorem roomy_bytes (n : Nat) : Roomy (w.addBytes cfg n) := by
  unfold Walk.addBytes
  cases w.size with
  | none => trivial
  | some m =>
    dsimp only
    split
    · exact nofun
    · trivial

theorem roomy_scalar (s : Scalar) : Roomy (w.addScalar cfg s) := by
  unfold Walk.addScalar
  cases w.size with
  | none => trivial
  | some m =>
    have hencoded : Roomy s.encoded := by
      unfold Scalar.encoded
      split
      · exact nofun
      · split
        · exact nofun
        · trivial
    exact hencoded.bind fun b _ => roomy_bytes b.length

theorem roomy_node : Roomy (w.addNode cfg) := by
  unfold Walk.addNode
  split
  · exact nofun
  · trivial

theorem roomy_key : Roomy (w.addKey cfg) := by
  unfold Walk.addKey
  split
  · exact nofun
  · trivial

variable {limits : JSONLimits} {item : ι → Walk ι → Except Reject (ImmutableJSON × Walk ι)}

theorem roomy_items (hitem : ∀ y w, Roomy (item y w)) (index : Nat) (ys : List ι) (w : Walk ι) :
    Roomy (freezeItems (.plain limits) item index ys w) := by
  induction ys generalizing index w with
  | nil => trivial
  | cons y ys ih =>
    rw [freezeItems]
    have hcomma : Roomy (if index = 0 then .ok w else w.addBytes (.plain limits) 1) := by
      split
      · trivial
      · exact roomy_bytes 1
    apply hcomma.bind
    intro w1 _
    apply (hitem y w1).bind
    intro fw _
    apply (ih (index + 1) fw.2).bind
    intro rest _
    trivial

theorem roomy_entries (hitem : ∀ y w, Roomy (item y w)) (index : Nat)
    (frozen : List (Str × ImmutableJSON)) (zs : List (Key × ι)) (w : Walk ι) :
    Roomy (freezeEntries (.plain limits) item index frozen zs w) := by
  induction zs generalizing index frozen w with
  | nil => trivial
  | cons z zs ih =>
    obtain ⟨k, y⟩ := z
    simp only [freezeEntries, Config.plain, Validators.default]
    have hkey : Roomy (requireStrKey k) := by
      cases k with
      | str s => trivial
      | _ =>
        intro h
        cases h
    apply Outcome.bind hkey
    intro key _
    apply Outcome.bind roomy_key
    intro w1 _
    apply Outcome.bind (roomy_scalar (.str key))
    intro w2 _
    apply Outcome.bind (roomy_bytes _)
    intro w3 _
    apply Outcome.bind (hitem y w3)
    intro fw _
    exact ih (index + 1) _ fw.2

variable [DecidableEq ι] {g : Graph ι}

/-- The walk gives up at its depth limit before it runs out of frames. -/
theorem roomy_freeze {limit : Nat} (hl : limits.maxDepth = some (limit : Int)) (frames depth : Nat)
    (hroom : limit < frames + depth) (x : ι) (w : Walk ι) :
    Roomy (freeze (.plain limits) g frames x depth w) := by
  induction frames using Nat.strong_induction_on generalizing depth x w with
  | _ frames ih =>
    rw [freeze.eq_def]
    dsimp only
    split
    case isTrue => exact nofun
    case isFalse hdepth =>
      have hle : depth ≤ limit := by
        simp only [exceeds, hl, Option.any_some, decide_eq_true_eq, not_lt] at hdepth
        omega
      apply Outcome.bind roomy_node
      intro w1 _
      split
      case h_1 s _ =>
        have hscalar : (Config.plain limits).check.scalar s = .ok s := by cases s <;> rfl
        rw [hscalar]
        apply Outcome.bind (roomy_scalar s)
        intro w2 _
        trivial
      case h_2 => exact nofun
      case h_3 entries _ =>
        cases frames with
        | zero => omega
        | succ frames =>
          have hpart : ∀ y w, Roomy (freeze (.plain limits) g frames y (depth + 1) w) :=
            fun y w => ih frames (by omega) (depth + 1) (by omega) y w
          dsimp only
          unfold Walk.enter
          split
          · exact nofun
          · apply Outcome.bind (roomy_bytes 2)
            intro w2 _
            apply Outcome.bind (roomy_entries hpart 0 [] entries w2)
            intro fw _
            trivial
      case h_4 items _ =>
        cases frames with
        | zero => omega
        | succ frames =>
          have hpart : ∀ y w, Roomy (freeze (.plain limits) g frames y (depth + 1) w) :=
            fun y w => ih frames (by omega) (depth + 1) (by omega) y w
          dsimp only
          unfold Walk.enter
          split
          · exact nofun
          · apply Outcome.bind (roomy_bytes 2)
            intro w2 _
            apply Outcome.bind (roomy_items hpart 0 items w2)
            intro fw _
            trivial
      case h_5 => exact nofun

theorem not_recursion {limit : Nat} (hl : limits.maxDepth = some (limit : Int)) {frames : Nat}
    (hroom : limit < frames) (x : ι) :
    freezeJson (.plain limits) g frames x ≠ .error .recursion := by
  intro h
  have hrun : Roomy (freezeJson (.plain limits) g frames x) := by
    apply Outcome.bind (roomy_freeze hl frames 0 (by omega) x (.start limits))
    intro fw _
    trivial
  rw [h] at hrun
  exact hrun rfl

end Room

/-! What a budgeted freeze has measured. -/

/-- What a freeze with a budget takes has a canonical encoding, whose bytes it has counted, and is
within the limits. -/
theorem measured_of_ok {ι : Type} [DecidableEq ι] {g : Graph ι} {limits : JSONLimits} {budget : Int}
    (hb : limits.maxEncodedBytes = some budget) {frames : Nat} {x : ι} {r : FrozenJSON}
    (h : freezeJson (.plain limits) g frames x = .ok r) :
    ∃ b, canonicalJsonBytes r.value = some b ∧ r.encodedBytes = some b.length ∧
      (b.length : Int) ≤ budget ∧ Bounds limits.maxDepth (levels (thawJson r.value)) := by
  obtain ⟨hreads, hjson, hheight⟩ := copies_of_ok h
  have hroom := affordable_of_ok h
  obtain ⟨f, hf, hok, _⟩ := charges_start limits hreads hjson hheight
  have hsize : ∃ b, canonical (thawJson r.value) = some b := by
    have hwithin := hroom.2.2.2
    rw [bill_size _ 0 hjson] at hwithin
    unfold canonical
    cases hc : (dumps (thawJson r.value)).bind Json.encodeUtf8 with
    | none => simp [Walk.start, hb, textSize, hc, SizeWithin] at hwithin
    | some b => exact ⟨b, rfl⟩
  obtain ⟨b, hc⟩ := hsize
  obtain ⟨hdepth, _, _, hbytes⟩ := (affordable_start hb hjson hc).1 hroom
  refine ⟨b, by rw [canonical_thaw, hc], ?_, hbytes, hdepth⟩
  unfold freezeJson at h
  rw [hok hroom] at h
  have hcount := congrArg FrozenJSON.encodedBytes (Except.ok.inj h)
  rw [← hcount]
  unfold canonical at hc
  simp [Walk.pay, Walk.start, hb, zero_addSize, bill_size _ 0 hjson, textSize, hc]

end KestrelSdk.Frozen
