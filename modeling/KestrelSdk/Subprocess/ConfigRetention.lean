import KestrelSdk.Subprocess.Ownership

namespace KestrelSdk.Subprocess

open Asyncio

/-- The transition call that a caller is in. -/
def OpPc.call : OpPc → Option Nat
  | .transitionQueued n _ => some n
  | .applying f => some f.call
  | .finishing f _ _ => some f.call
  | .unregistering e _ | .resultRetiring e _ =>
    match e.kind with
    | .transition n => some n
    | _ => none
  | _ => none

/-- The pending transition that the caller has not finished yet. -/
def OpPc.held : OpPc → Option Pending
  | .applying f => f.pending
  | .finishing f _ (.pending _) => f.pending
  | _ => none

namespace Book

/-- `_pending_transition` does not refer to call `n`. -/
def Untold (b : Book) (n : Nat) : Prop := ∀ p, b.pending = some p → p.call ≠ n

/-- Call `n` has settled what becomes of the retained config. -/
structure Closed (b : Book) (n : Nat) : Prop where
  lt : n < b.nextCall
  untold : b.Untold n
  retained : (b.transitions n).retained = true ↔ (b.transitions n).returned = true ∨
    (b.transitions n).newlyFenced = true ∨ (b.transitions n).stopped = true
  fenced : (b.transitions n).alreadyFenced = true → (b.transitions n).retained = false

/-- The call of `f` has its transition pending, or a stop attempt has taken it. -/
structure Open (b : Book) (f : TransitionFrame) (p : Pending) : Prop where
  call : p.call = f.call
  next : p.nextConfig = (b.transitions f.call).next
  fenced : (b.transitions f.call).alreadyFenced = false
  taken : (b.pending = some p ∧ (b.transitions f.call).stopped = false ∧
      (b.transitions f.call).retained = false) ∨
    (b.Untold f.call ∧ (b.transitions f.call).stopped = true ∧
      (b.transitions f.call).retained = true)

/-- What the book says about the call a caller is in. -/
def CallOk (b : Book) : OpPc → Prop
  | .transitionQueued n next => n < b.nextCall ∧ b.transitions n = { next } ∧ b.Untold n
  | .applying f => f.call < b.nextCall ∧ (b.transitions f.call).returned = false ∧
      (b.transitions f.call).newlyFenced = false ∧
      match f.pending with
      | none => f.wasReplacementRequired = true ∧ (b.transitions f.call).stopped = false ∧
          (b.transitions f.call).retained = false ∧ b.Untold f.call
      | some p => f.wasReplacementRequired = false ∧ b.Open f p
  | .finishing f retain h => f.call < b.nextCall ∧
      retain = ((b.transitions f.call).returned || (b.transitions f.call).newlyFenced) ∧
      ∃ p, f.pending = some p ∧
        match h with
        | .pending _ => b.Open f p
        | .finished _ => b.Closed f.call
  | .unregistering e _ | .resultRetiring e _ => ∀ n, e.kind = .transition n → b.Closed n
  | _ => True

structure Retention (b : Book) : Prop where
  ok : ∀ t, b.CallOk (b.pcs t)
  apart : ∀ t u n, (b.pcs t).call = some n → (b.pcs u).call = some n → t = u
  pending : ∀ p, b.pending = some p → p.previousConfig = b.config ∧ ∃ t, (b.pcs t).held = some p
  fresh : ∀ n, b.nextCall ≤ n → (b.transitions n).retained = false

/-- A step writes the retained config only for the call that retains it. -/
inductive Written (b b' : Book) : Prop
  | kept (config : b'.config = b.config)
      (same : ∀ n, (b'.transitions n).retained = (b.transitions n).retained)
  | retained (n : Nat) (before : (b.transitions n).retained = false)
      (after : (b'.transitions n).retained = true) (config : b'.config = (b.transitions n).next)
      (others : ∀ m, m ≠ n → (b'.transitions m).retained = (b.transitions m).retained)

/-- A step touches the book of call `n` only. -/
structure Beside (b b' : Book) (n : Nat) : Prop where
  transitions : ∀ m, m ≠ n → b'.transitions m = b.transitions m
  pending : ∀ p, p.call ≠ n → (b'.pending = some p ↔ b.pending = some p)
  nextCall : b.nextCall ≤ b'.nextCall

variable {b b' : Book} {n m : Nat} {pc : OpPc} {t : Tid} {f : TransitionFrame} {p : Pending}

theorem CallOk.lt (h : b.CallOk pc) (hn : pc.call = some n) : n < b.nextCall := by
  cases pc with
  | transitionQueued k next =>
    cases hn
    exact h.1
  | applying f =>
    cases hn
    exact h.1
  | finishing f r x =>
    cases hn
    exact h.1
  | unregistering e x =>
    simp only [OpPc.call] at hn
    split at hn
    · rename_i k hk
      cases hn
      exact (h _ hk).lt
    · cases hn
  | resultRetiring e x =>
    simp only [OpPc.call] at hn
    split at hn
    · rename_i k hk
      cases hn
      exact (h _ hk).lt
    · cases hn
  | _ => cases hn

namespace Beside

theorem refl (b : Book) (n : Nat) : Beside b b n := ⟨fun _ _ => rfl, fun _ _ => .rfl, Nat.le_refl _⟩

theorem untold (h : Beside b b' n) (hm : m ≠ n) (hu : b.Untold m) : b'.Untold m := by
  intro p hp he
  exact hu p ((h.pending p (by rw [he]; exact hm)).1 hp) he

theorem closed (h : Beside b b' n) (hm : m ≠ n) (hc : b.Closed m) : b'.Closed m := by
  refine ⟨Nat.lt_of_lt_of_le hc.lt h.nextCall, h.untold hm hc.untold, ?_, ?_⟩
  · rw [h.transitions m hm]
    exact hc.retained
  · rw [h.transitions m hm]
    exact hc.fenced

theorem open_ (h : Beside b b' n) {f : TransitionFrame} {p : Pending} (hm : f.call ≠ n)
    (ho : b.Open f p) : b'.Open f p := by
  refine ⟨ho.call, ?_, ?_, ?_⟩
  · rw [h.transitions _ hm]
    exact ho.next
  · rw [h.transitions _ hm]
    exact ho.fenced
  · rw [h.transitions _ hm]
    obtain ⟨h1, h2⟩ | ⟨h1, h2⟩ := ho.taken
    · exact .inl ⟨(h.pending p (by rw [ho.call]; exact hm)).2 h1, h2⟩
    · exact .inr ⟨h.untold hm h1, h2⟩

/-- A caller in another call does not notice. -/
theorem callOk (h : Beside b b' n) (hn : pc.call ≠ some n) (hok : b.CallOk pc) : b'.CallOk pc := by
  have hexit : ∀ e : Exit, (match e.kind with | .transition k => some k | _ => none) ≠ some n →
      (∀ k, e.kind = .transition k → b.Closed k) → ∀ k, e.kind = .transition k → b'.Closed k := by
    intro e he hc k hk
    refine h.closed ?_ (hc k hk)
    rintro rfl
    exact he (by rw [hk])
  cases pc with
  | transitionQueued k next =>
    obtain ⟨h1, h2, h3⟩ := hok
    have hk : k ≠ n := fun e => hn (by rw [e]; rfl)
    exact ⟨Nat.lt_of_lt_of_le h1 h.nextCall, (h.transitions k hk).trans h2, h.untold hk h3⟩
  | applying f =>
    obtain ⟨h1, h2, h3, h4⟩ := hok
    have hk : f.call ≠ n := fun e => hn (by rw [← e]; rfl)
    refine ⟨Nat.lt_of_lt_of_le h1 h.nextCall, ?_, ?_, ?_⟩
    · rw [h.transitions _ hk]
      exact h2
    · rw [h.transitions _ hk]
      exact h3
    · cases hp : f.pending with
      | none =>
        simp only [hp] at h4 ⊢
        rw [h.transitions _ hk]
        exact ⟨h4.1, h4.2.1, h4.2.2.1, h.untold hk h4.2.2.2⟩
      | some p =>
        simp only [hp] at h4 ⊢
        exact ⟨h4.1, h.open_ hk h4.2⟩
  | finishing f r x =>
    obtain ⟨h1, h2, p, h3, h4⟩ := hok
    have hk : f.call ≠ n := fun e => hn (by rw [← e]; rfl)
    refine ⟨Nat.lt_of_lt_of_le h1 h.nextCall, ?_, p, h3, ?_⟩
    · rw [h.transitions _ hk]
      exact h2
    · cases x with
      | pending k => exact h.open_ hk h4
      | finished k => exact h.closed hk h4
  | unregistering e x => exact hexit e hn hok
  | resultRetiring e x => exact hexit e hn hok
  | _ => trivial

end Beside

/-- The caller `t` moves, and only the book of its own call changes. -/
theorem Retention.turn (h : b.Retention) (pc : OpPc) (hb : Beside b b' n)
    (hpcs : b'.pcs = Function.update b.pcs t pc) (hn : ∀ u, u ≠ t → (b.pcs u).call ≠ some n)
    (hcall : pc.call = none ∨ pc.call = some n) (hok : b'.CallOk pc)
    (hpend : ∀ p, b'.pending = some p → p.previousConfig = b'.config ∧
      (pc.held = some p ∨ ∃ u, u ≠ t ∧ (b.pcs u).held = some p))
    (hfresh : b'.nextCall ≤ n → (b'.transitions n).retained = false) : b'.Retention where
  ok := by
    intro u
    rw [hpcs]
    by_cases hu : u = t
    · subst hu
      simpa using hok
    · simp only [Function.update_of_ne hu]
      exact hb.callOk (hn u hu) (h.ok u)
  apart := by
    intro u v k hu hv
    rw [hpcs] at hu hv
    by_cases hut : u = t
    · by_cases hvt : v = t
      · rw [hut, hvt]
      · subst hut
        simp only [Function.update_self, Function.update_of_ne hvt] at hu hv
        obtain hc | hc := hcall
        · rw [hc] at hu
          cases hu
        · rw [hc] at hu
          cases hu
          exact absurd hv (hn v hvt)
    · by_cases hvt : v = t
      · subst hvt
        simp only [Function.update_self, Function.update_of_ne hut] at hu hv
        obtain hc | hc := hcall
        · rw [hc] at hv
          cases hv
        · rw [hc] at hv
          cases hv
          exact absurd hu (hn u hut)
      · simp only [Function.update_of_ne hut, Function.update_of_ne hvt] at hu hv
        exact h.apart u v k hu hv
  pending := by
    intro p hp
    obtain ⟨h1, h2⟩ := hpend p hp
    refine ⟨h1, ?_⟩
    rw [hpcs]
    obtain h2 | ⟨u, hu, h2⟩ := h2
    · exact ⟨t, by simpa using h2⟩
    · exact ⟨u, by simpa [hu] using h2⟩
  fresh := by
    intro m hm
    by_cases hmn : m = n
    · subst hmn
      exact hfresh hm
    · rw [hb.transitions m hmn]
      exact h.fresh m (Nat.le_trans hb.nextCall hm)

theorem Closed.congr (h : b.Closed n) (hp : b'.pending = b.pending)
    (ht : b'.transitions = b.transitions) (hn : b'.nextCall = b.nextCall) : b'.Closed n := by
  refine ⟨by rw [hn]; exact h.lt, fun p hb => h.untold p (hp ▸ hb), ?_, ?_⟩
  · rw [ht]
    exact h.retained
  · rw [ht]
    exact h.fenced

theorem CallOk.congr (h : b.CallOk pc) (hp : b'.pending = b.pending)
    (ht : b'.transitions = b.transitions) (hn : b'.nextCall = b.nextCall) : b'.CallOk pc := by
  have hall : ∀ n, Beside b b' n := fun n =>
    ⟨fun m _ => by rw [ht], fun p _ => by rw [hp], Nat.le_of_eq hn.symm⟩
  refine (hall b.nextCall).callOk (fun hc => ?_) h
  exact Nat.lt_irrefl _ (h.lt hc)

/-- A step that leaves the retained config alone. -/
structure Calm (b b' : Book) : Prop where
  retention : b'.Retention
  config : b'.config = b.config
  retained : ∀ n, (b'.transitions n).retained = (b.transitions n).retained
  ended : ∀ t n r, b'.ended = some (.transition t n r) →
    b.ended = some (.transition t n r) ∨ b'.Closed n

theorem Calm.trans {b'' : Book} (h : Calm b b') (he : b'.ended = b.ended) (h' : Calm b' b'') :
    Calm b b'' where
  retention := h'.retention
  config := h'.config.trans h.config
  retained := fun n => (h'.retained n).trans (h.retained n)
  ended := fun t n r hu => (h'.ended t n r hu).imp (fun e => he ▸ e) id

theorem Retention.calm (h : b.Retention) (he : b'.ended = b.ended) (hc : b'.config = b.config)
    (hp : b'.pending = b.pending) (ht : b'.transitions = b.transitions)
    (hn : b'.nextCall = b.nextCall) (hpcs : b'.pcs = b.pcs) : Calm b b' := by
  refine ⟨⟨fun t => ?_, ?_, ?_, ?_⟩, hc, fun n => by rw [ht], fun t n r hu => .inl (he ▸ hu)⟩
  · rw [hpcs]
    exact (h.ok t).congr hp ht hn
  · rw [hpcs]
    exact h.apart
  · rw [hp, hc, hpcs]
    exact h.pending
  · rw [hn, ht]
    exact h.fresh

/-- The caller `t` moves on inside its call, or leaves it. -/
theorem Retention.move (h : b.Retention) {i : Option Sid} {e : Option Ended}
    (hcall : pc.call = none ∨ pc.call = (b.pcs t).call) (hok : b.CallOk pc)
    (hheld : ∀ p, (b.pcs t).held = some p → b.pending = some p → pc.held = some p)
    (he : ∀ u n r, e = some (.transition u n r) → b.ended = some (.transition u n r) ∨ b.Closed n) :
    Calm b { b.move t pc with issued := i, ended := e } := by
  -- The number of the call, or one that nobody has.
  obtain ⟨n, hn, hc⟩ : ∃ n, (∀ u, u ≠ t → (b.pcs u).call ≠ some n) ∧
      (pc.call = none ∨ pc.call = some n) := by
    cases hk : pc.call with
    | none => exact ⟨b.nextCall, fun u _ hu => Nat.lt_irrefl _ ((h.ok u).lt hu), .inl rfl⟩
    | some n =>
      refine ⟨n, fun u hu hun => ?_, .inr rfl⟩
      rw [hk] at hcall
      simp only [reduceCtorEq, false_or] at hcall
      exact hu (h.apart u t n hun hcall.symm)
  have hbeside : Beside b { b.move t pc with issued := i, ended := e } n :=
    ⟨fun _ _ => rfl, fun _ _ => .rfl, Nat.le_refl _⟩
  refine ⟨h.turn pc hbeside rfl hn hc (hok.congr rfl rfl rfl) (fun p hp => ?_) (h.fresh n), rfl, fun _ => rfl,
    fun u m r hu => (he u m r hu).imp id fun hcl => hcl.congr rfl rfl rfl⟩
  obtain ⟨h1, u, hu⟩ := h.pending p hp
  refine ⟨h1, ?_⟩
  by_cases hut : u = t
  · subst hut
    exact .inl (hheld p hu hp)
  · exact .inr ⟨u, hut, hu⟩

/-- The caller that holds a pending transition, seen from the book. -/
theorem Retention.holder (h : b.Retention) {p : Pending} (hp : b.pending = some p) :
    ∃ t f, (b.pcs t).call = some p.call ∧ f.call = p.call ∧ f.pending = some p ∧ b.Open f p ∧
      (b.pcs t = .applying f ∨ ∃ retain n, b.pcs t = .finishing f retain (.pending n)) := by
  obtain ⟨-, t, ht⟩ := h.pending p hp
  have hok := h.ok t
  cases hpc : b.pcs t with
  | applying f =>
    rw [hpc] at ht hok
    have hf : f.pending = some p := ht
    obtain ⟨-, -, -, h4⟩ := hok
    simp only [hf] at h4
    exact ⟨t, f, by rw [hpc, h4.2.call]; rfl, h4.2.call.symm, hf, h4.2, .inl hpc⟩
  | finishing f retain x =>
    rw [hpc] at ht hok
    cases x with
    | finished k => cases ht
    | pending k =>
      obtain ⟨-, -, q, hq, h4⟩ := hok
      have hf : f.pending = some p := ht
      obtain rfl : q = p := Option.some.inj (hq.symm.trans hf)
      exact ⟨t, f, by rw [hpc, h4.call]; rfl, h4.call.symm, hf, h4, .inr ⟨retain, k, hpc⟩⟩
  | _ =>
    rw [hpc] at ht
    cases ht

theorem Open.pending_of (h : b.Open f p) (hp : b.pending = some p) :
    (b.transitions f.call).stopped = false ∧ (b.transitions f.call).retained = false := by
  obtain ⟨-, h1⟩ | ⟨h1, -⟩ := h.taken
  · exact h1
  · exact absurd h.call (h1 p hp)

/-- A stop attempt takes the pending transition: its call retains the next config. -/
theorem Retention.stop (h : b.Retention) {p : Pending} (hp : b.pending = some p) :
    { b with
      config := p.nextConfig
      pending := none
      transitions := Function.update b.transitions p.call
        { b.transitions p.call with stopped := true, retained := true } }.Retention ∧
      (b.transitions p.call).retained = false ∧ p.nextConfig = (b.transitions p.call).next := by
  obtain ⟨t, f, hcall, hf, hfp, hopen, hpc⟩ := h.holder hp
  obtain ⟨h1, h2⟩ := hopen.pending_of hp
  have hnext := hopen.next
  rw [hf] at h1 h2 hnext
  refine ⟨?_, h2, hnext⟩
  have hb : Beside b { b with
      config := p.nextConfig
      pending := none
      transitions := Function.update b.transitions p.call
        { b.transitions p.call with stopped := true, retained := true } } p.call := by
    refine ⟨fun m hm => Function.update_of_ne hm _ _, fun q hq => ?_, Nat.le_refl _⟩
    rw [hp]
    refine ⟨nofun, fun e => ?_⟩
    cases e
    exact absurd rfl hq
  have hopen' : { b with
      config := p.nextConfig
      pending := none
      transitions := Function.update b.transitions p.call
        { b.transitions p.call with stopped := true, retained := true } }.Open f p := by
    refine ⟨hopen.call, ?_, ?_, .inr ⟨nofun, ?_, ?_⟩⟩
    · simpa [hf] using hnext
    · have := hopen.fenced
      rw [hf] at this
      simpa [hf] using this
    · simp [hf]
    · simp [hf]
  refine h.turn (t := t) (b.pcs t) hb (by simp) (fun u hu hun => ?_) (.inr hcall) ?_
    (by simp) (fun hle => ?_)
  · exact hu (h.apart u t _ hun hcall)
  · have hok := h.ok t
    obtain hpc | ⟨retain, k, hpc⟩ := hpc
    · rw [hpc] at hok ⊢
      obtain ⟨a1, a2, a3, a4⟩ := hok
      simp only [hfp] at a4
      refine ⟨a1, ?_, ?_, ?_⟩
      · rw [hf] at a2
        simpa [hf] using a2
      · rw [hf] at a3
        simpa [hf] using a3
      · simp only [hfp]
        exact ⟨a4.1, hopen'⟩
    · rw [hpc] at hok ⊢
      obtain ⟨a1, a2, -⟩ := hok
      refine ⟨a1, ?_, p, hfp, hopen'⟩
      rw [hf] at a2
      simpa [hf] using a2
  · exact absurd ((h.ok t).lt hcall) (Nat.not_lt.2 hle)

/-- The finisher of call `f` retains the next config or restores the previous one. -/
theorem Retention.finish (h : b.Retention) {retain : Bool} {k x : Nat}
    (hpc : b.pcs t = .finishing f retain (.pending k)) (hf : f.pending = some p)
    (hp : b.pending = some p) :
    { b.move t (.finishing f retain (.finished x)) with
      config := if retain then p.nextConfig else p.previousConfig
      pending := none
      transitions := Function.update b.transitions p.call
        { b.transitions p.call with retained := retain } }.Retention ∧
      (b.transitions p.call).retained = false ∧ p.nextConfig = (b.transitions p.call).next ∧
      p.previousConfig = b.config := by
  have hok := h.ok t
  rw [hpc] at hok
  obtain ⟨hlt, hret, q, hq, hopen⟩ := hok
  obtain rfl : q = p := Option.some.inj (hq.symm.trans hf)
  obtain ⟨h1, h2⟩ := hopen.pending_of hp
  have hc := hopen.call
  have hfen := hopen.fenced
  have hnext := hopen.next
  rw [← hc] at h1 h2 hfen hret hlt hnext
  refine ⟨?_, h2, hnext, (h.pending q hp).1⟩
  have hcall : (b.pcs t).call = some q.call := by
    rw [hpc, hc]
    rfl
  refine h.turn (n := q.call) _ ⟨fun m hm => Function.update_of_ne hm _ _, fun r hr => ?_,
    Nat.le_refl _⟩ rfl (fun u hu hun => hu (h.apart u t _ hun hcall)) (.inr (by rw [hc]; rfl)) ?_
    nofun (fun hle => absurd hlt (Nat.not_lt.2 hle))
  · rw [hp]
    refine ⟨nofun, fun e => ?_⟩
    cases e
    exact absurd rfl hr
  · refine ⟨by rw [← hc]; exact hlt, ?_, q, hf, by rw [← hc]; exact hlt, nofun, ?_, ?_⟩
    · simp only [← hc, Function.update_self]
      exact hret
    · simp only [← hc, Function.update_self, h1]
      simp [hret]
    · simp only [← hc, Function.update_self, hfen]
      simp

/-- A queued call gets into the lifecycle section: it fails, finds the client fenced, or has its
transition pending. -/
theorem Retention.begin (h : b.Retention) {next : Cfg} (hq : b.CallOk (.transitionQueued n next))
    (hn : ∀ u, u ≠ t → (b.pcs u).call ≠ some n) (hp : b.pending = none) {fenced : Bool}
    {pd : Option Pending}
    (hcase : (pd = b.pending ∧ ∃ e x, pc = .unregistering e x ∧ e.kind = .transition n) ∨
      (pd = b.pending ∧ ∃ c, pc = .applying ⟨n, c, true, none, none, false⟩) ∨
      (fenced = false ∧ pd = some ⟨n, b.config, next⟩ ∧
        ∃ c, pc = .applying ⟨n, c, false, pd, none, false⟩)) :
    Calm b { b.move t pc with
      pending := pd
      transitions := Function.update b.transitions n
        { b.transitions n with alreadyFenced := fenced } } := by
  obtain ⟨hlt, hlog, -⟩ := hq
  have hpd : ∀ p, pd = some p → p.call = n ∧ p.previousConfig = b.config ∧ pc.held = some p := by
    rintro p rfl
    obtain ⟨h1, -⟩ | ⟨h1, -⟩ | ⟨-, h1, c, rfl⟩ := hcase
    · rw [hp] at h1
      cases h1
    · rw [hp] at h1
      cases h1
    · cases h1
      exact ⟨rfl, rfl, rfl⟩
  refine ⟨h.turn (n := n) pc ⟨fun m hm => Function.update_of_ne hm _ _, fun p hpn => ?_,
    Nat.le_refl _⟩ rfl hn ?_ ?_ (fun p e => ⟨(hpd p e).2.1, .inl (hpd p e).2.2⟩)
    (fun _ => by simp [hlog]), rfl, fun m => ?_, fun _ _ _ e => .inl e⟩
  · rw [hp]
    exact ⟨fun e => absurd (hpd p e).1 hpn, nofun⟩
  · obtain ⟨-, e, x, rfl, hk⟩ | ⟨-, c, rfl⟩ | ⟨-, -, c, rfl⟩ := hcase
    · simp [OpPc.call, hk]
    · exact .inr rfl
    · exact .inr rfl
  · obtain ⟨rfl, e, x, rfl, hk⟩ | ⟨rfl, c, rfl⟩ | ⟨rfl, rfl, c, rfl⟩ := hcase
    · intro m hm
      rw [hk] at hm
      cases hm
      refine ⟨hlt, fun p e => ?_, by simp [hlog], by simp [hlog]⟩
      rw [hp] at e
      cases e
    · refine ⟨hlt, by simp [hlog], by simp [hlog], rfl, by simp [hlog], by simp [hlog], ?_⟩
      intro p e
      rw [hp] at e
      cases e
    · refine ⟨hlt, by simp [hlog], by simp [hlog], rfl, rfl, ?_, ?_, .inl ⟨rfl, ?_, ?_⟩⟩
      all_goals simp [hlog]
  · by_cases hm : m = n
    · subst hm
      simp
    · simp [hm]

/-- The inner call of a transition has come back. -/
theorem Retention.answer (h : b.Retention) (hpc : b.pcs t = .applying f) {r v : Bool}
    (hrv : f.wasReplacementRequired = true → r = false ∧ v = false)
    (hcase : (f.pending = none ∧ ∃ e x, pc = .unregistering e x ∧ e.kind = .transition f.call) ∨
      ∃ g k, pc = .finishing g (r || v) (.pending k) ∧ g.call = f.call ∧ g.pending = f.pending ∧
        f.pending ≠ none) :
    Calm b { b.move t pc with
      transitions := Function.update b.transitions f.call
        { b.transitions f.call with returned := r, newlyFenced := v } } := by
  have hok := h.ok t
  rw [hpc] at hok
  obtain ⟨hlt, h1, h2, h3⟩ := hok
  have hcall : (b.pcs t).call = some f.call := by rw [hpc]; rfl
  have hret : ∀ m, (Function.update b.transitions f.call { b.transitions f.call with
      returned := r, newlyFenced := v } m).retained = (b.transitions m).retained := by
    intro m
    by_cases hm : m = f.call
    · subst hm
      simp
    · simp [hm]
  refine ⟨h.turn (n := f.call) pc ⟨fun m hm => Function.update_of_ne hm _ _,
    fun p _ => .rfl, Nat.le_refl _⟩ rfl (fun u hu hun => hu (h.apart u t _ hun hcall)) ?_ ?_
    (fun p e => ?_) (fun hle => absurd hlt (Nat.not_lt.2 hle)), rfl, hret, fun _ _ _ e => .inl e⟩
  · obtain ⟨-, e, x, rfl, hk⟩ | ⟨g, k, rfl, hg, -⟩ := hcase
    · simp [OpPc.call, hk]
    · exact .inr (by rw [← hg]; rfl)
  · obtain ⟨hf, e, x, rfl, hk⟩ | ⟨g, k, rfl, hg, hgp, hne⟩ := hcase
    · simp only [hf] at h3
      obtain ⟨h4, h5, h6, h7⟩ := h3
      obtain ⟨rfl, rfl⟩ := hrv h4
      intro m hm
      rw [hk] at hm
      cases hm
      exact ⟨hlt, h7, by simp [h5, h6], by simp [h6]⟩
    · obtain ⟨p, hfp⟩ := Option.ne_none_iff_exists'.1 hne
      simp only [hfp] at h3
      obtain ⟨-, hopen⟩ := h3
      refine ⟨by rw [hg]; exact hlt, by simp [hg], p, hgp.trans hfp, hopen.call.trans hg.symm, ?_,
        ?_, ?_⟩
      · simpa [hg] using hopen.next
      · simpa [hg] using hopen.fenced
      · simp only [hg, Function.update_self]
        exact hopen.taken
  · obtain ⟨h4, u, hu⟩ := h.pending p e
    refine ⟨h4, ?_⟩
    by_cases hut : u = t
    · subst hut
      rw [hpc] at hu
      have hfp : f.pending = some p := hu
      obtain ⟨hf, -⟩ | ⟨g, k, rfl, -, hgp, -⟩ := hcase
      · rw [hf] at hfp
        cases hfp
      · exact .inl (hgp.trans hfp)
    · exact .inr ⟨u, hut, hu⟩

end Book

namespace State

open Book

variable {s s' : State} {o : Custody} {t : Tid}

theorem stop_written (h : s.book.Retention) :
    s.takePendingTransition.book.Retention ∧ Written s.book s.takePendingTransition.book := by
  unfold takePendingTransition
  cases hp : s.pendingTransition with
  | none => exact ⟨h, .kept rfl fun _ => rfl⟩
  | some p =>
    obtain ⟨h1, h2, h3⟩ := h.stop (p := p) hp
    refine ⟨h1, .retained p.call h2 ?_ h3 fun m hm => ?_⟩
    · simp [book, setTransition]
    · simp [book, setTransition, hm]

/-- The private finisher task of a transition call. -/
theorem finishTransition_written (h : s.book.Retention) (hs : s.runFinishTransition t = some s') :
    s'.book.Retention ∧ Written s.book s'.book ∧ s'.ended = s.ended := by
  unfold runFinishTransition at hs
  split at hs
  · rename_i f retain k hpc
    split at hs
    · cases hs
      have hok := h.ok t
      have hpc' : s.book.pcs t = .finishing f retain (.pending k) := hpc
      rw [hpc'] at hok
      obtain ⟨hlt, hret, p, hf, hopen⟩ := hok
      simp only [hf]
      by_cases hp : s.pendingTransition = some p
      · obtain ⟨h1, h2, h3, h4⟩ := h.finish (x := s.now) hpc' hf hp
        have hb : ((s.finishTransition p retain).setOp t { s.ops t with
            pc := .finishing f retain (.finished s.now) }).book =
            { s.book.move t (.finishing f retain (.finished s.now)) with
              config := if retain then p.nextConfig else p.previousConfig
              pending := none
              transitions := Function.update s.book.transitions p.call
                { s.book.transitions p.call with retained := retain } } := by
          have hset := book_setOp (s.finishTransition p retain) t
            { s.ops t with pc := .finishing f retain (.finished s.now) }
          rw [hset]
          cases retain with
          | true => simp [State.finishTransition, hp, book, Book.move, setTransition]
          | false =>
            have hsame : Function.update s.transitions p.call
                { s.transitions p.call with retained := false } = s.transitions := by
              have : s.transitions p.call = { s.transitions p.call with retained := false } := by
                rw [← show (s.transitions p.call).retained = false from h2]
              rw [← this]
              exact Function.update_eq_self _ _
            simp [State.finishTransition, hp, book, Book.move, hsame]
        rw [hb]
        refine ⟨h1, ?_, ?_⟩
        · cases retain with
          | true =>
            refine .retained p.call h2 (by simp) (by simpa using h3) fun m hm => ?_
            simp [hm]
          | false =>
            refine .kept (by simpa using h4) fun m => ?_
            by_cases hm : m = p.call
            · subst hm
              simp [h2]
            · simp [hm]
        · exact congrArg Book.ended hb
      · have hfin : s.finishTransition p retain = s := by
          simp [State.finishTransition, hp]
        rw [hfin]
        obtain ⟨h1, -⟩ | ⟨h1, h2, h3⟩ := hopen.taken
        · exact absurd h1 hp
        · have hcl : s.book.Closed f.call := by
            refine ⟨hlt, h1, by simp [h2, h3], fun e => ?_⟩
            rw [hopen.fenced] at e
            cases e
          have hcall : (OpPc.finishing f retain (.finished s.now)).call = (s.book.pcs t).call := by
            rw [hpc']
            rfl
          have hm := h.move (i := s.issued) (e := s.ended) (.inr hcall) ⟨hlt, hret, p, hf, hcl⟩
            (fun q _ hq => ?_) (fun _ _ _ he => .inl he)
          · have hb := book_setOp s t { s.ops t with pc := .finishing f retain (.finished s.now) }
            rw [hb]
            exact ⟨hm.retention, .kept hm.config hm.retained, rfl⟩
          · rename_i hheld
            rw [hpc'] at hheld
            have hq' : f.pending = some q := hheld
            rw [hf] at hq'
            cases hq'
            exact absurd hq hp
    · cases hs
  · cases hs

/-- While another caller owns the lifecycle section, or nobody does, no transition is pending. -/
theorem pending_none (h : s.book.Retention) (hi : Inv s o)
    (hown : s.lifecycleLock.owner = some t) (hin : Inside (s.ops t).pc = false) :
    s.pendingTransition = none := by
  cases hp : s.pendingTransition with
  | none => rfl
  | some p =>
    obtain ⟨u, f, -, -, -, -, hpc⟩ := h.holder (p := p) hp
    have hu : Inside (s.ops u).pc = true := by
      obtain hpc | ⟨r, n, hpc⟩ := hpc
      · have : (s.ops u).pc = .applying f := hpc
        simp [this, Inside]
      · have : (s.ops u).pc = .finishing f r (.pending n) := hpc
        simp [this, Inside]
    have : u = t := Option.some.inj ((hi.lock u hu).symm.trans hown)
    subst this
    rw [hin] at hu
    cases hu

/-- What `prepare_config_transition` writes inside the lifecycle section, up to the inner call. -/
theorem transitionBody_book (s : State) (t : Tid) (n : Nat) (next : Cfg) : ∃ pc fenced pd,
    (s.transitionBody t n next).book = { s.book.move t pc with
      pending := pd
      transitions := Function.update s.transitions n
        { s.transitions n with alreadyFenced := fenced } } ∧
    ((pd = s.pendingTransition ∧ ∃ e x, pc = .unregistering e x ∧ e.kind = .transition n) ∨
      (pd = s.pendingTransition ∧ ∃ c, pc = .applying ⟨n, c, true, none, none, false⟩) ∨
      (fenced = false ∧ pd = some ⟨n, s.config, next⟩ ∧
        ∃ c, pc = .applying ⟨n, c, false, pd, none, false⟩)) := by
  dsimp only [transitionBody]
  split
  · rename_i e _
    refine ⟨.unregistering { kind := .transition n, failure := some e } (.pending s.now),
      (s.transitions n).alreadyFenced, s.pendingTransition, (s.book_leave t _).trans ?_,
      .inl ⟨rfl, _, _, rfl, rfl⟩⟩
    rw [Function.update_eq_self]
    rfl
  · rename_i c g _
    split
    · exact ⟨_, _, _, book_suspend _ t _, .inr (.inl ⟨rfl, c, rfl⟩)⟩
    · rename_i hf
      split
      · exact ⟨_, _, _, book_leave _ t _, .inl ⟨rfl, _, _, rfl, rfl⟩⟩
      · exact ⟨_, _, _, book_suspend _ t _, .inr (.inr ⟨by simpa using hf, rfl, c, rfl⟩)⟩

theorem transitionBody_calm (h : s.book.Retention) {n : Nat} {next : Cfg}
    (hq : s.book.CallOk (.transitionQueued n next)) (hn : ∀ u, u ≠ t → (s.book.pcs u).call ≠ some n)
    (hp : s.pendingTransition = none) : Calm s.book (s.transitionBody t n next).book := by
  obtain ⟨pc, fenced, pd, hb, hcase⟩ := transitionBody_book s t n next
  rw [hb]
  exact h.begin hq hn hp hcase

theorem transitionAfter_calm (h : s.book.Retention) {f : TransitionFrame}
    (hpc : (s.ops t).pc = .applying f) {i : Inner}
    (hi : f.wasReplacementRequired = true → i ≠ .returned) :
    Calm s.book (s.transitionAfter t f i).book := by
  have hr : (decide (i = .returned) || (!f.wasReplacementRequired && (s.clients f.client).fenced)) =
      (decide (i = .returned) || (decide (i ≠ .returned) &&
        (!f.wasReplacementRequired && (s.clients f.client).fenced))) := by
    cases i <;> simp
  have hrv : f.wasReplacementRequired = true → decide (i = .returned) = false ∧
      (decide (i ≠ .returned) && (!f.wasReplacementRequired && (s.clients f.client).fenced)) =
        false := by
    intro hw
    simp [hw, hi hw]
  dsimp only [transitionAfter]
  split
  · rename_i hp
    rw [book_leave]
    exact h.answer hpc hrv (.inl ⟨hp, _, _, rfl, rfl⟩)
  · rename_i p hp
    rw [book_suspend]
    refine h.answer hpc hrv (.inr ⟨_, _, congrArg (OpPc.finishing _ · _) hr, rfl, rfl, ?_⟩)
    simp [hp]

/-- A caller outside every transition call. -/
def Outside (s : State) (t : Tid) : Prop :=
  (s.ops t).pc.call = none ∧ (s.ops t).pc.held = none

/-- A handle of a caller outside every transition call. -/
theorem move_calm (h : s.book.Retention) (ho : s.Outside t) (pc : OpPc) (hc : pc.call = none)
    (hok : s.book.CallOk pc) {i : Option Sid} {e : Option Ended}
    (he : ∀ u n r, e ≠ some (.transition u n r) ∨ e = s.ended) :
    Calm s.book { s.book.move t pc with issued := i, ended := e } := by
  refine h.move (.inl hc) hok (fun p hp => ?_) (fun u n r hu => .inl ?_)
  · have : (s.ops t).pc.held = some p := hp
    rw [ho.2] at this
    cases this
  · obtain hne | heq := he u n r
    · exact absurd hu hne
    · rw [← hu, heq]
      rfl

theorem StartOut.calm (h : s.book.Retention) (ho : s.Outside t) (out : StartOut s t s') :
    Calm s.book s'.book := by
  cases out with
  | wait pc hb =>
    rw [hb]
    exact move_calm h ho (.start pc) (i := s.issued) (e := s.ended) rfl trivial
      fun _ _ _ => .inr rfl
  | leave e x hk hb =>
    rw [hb]
    refine move_calm h ho _ (i := s.issued) (e := s.ended) ?_ ?_ fun _ _ _ => .inr rfl
    · simp [OpPc.call, hk]
    · simp [CallOk, hk]
  | issue w hb hr hc hp =>
    have hw : (w.startIssue t).book = { (w.setOp t
        { pc := .start (.spawning { generation := w.generation, spawnTask := some w.nextSpawn })
          since := w.now, spawned := some w.nextSpawn }).book with issued := some w.nextSpawn } := rfl
    rw [hw, book_setOp, hb]
    exact move_calm h ho (.start _) (e := s.ended) rfl trivial fun _ _ _ => .inr rfl
  | ret sp hb hp =>
    rw [hb]
    exact move_calm h ho .idle (i := s.issued) rfl trivial fun _ _ _ => .inl (by simp)

/-- A caller queues for the lifecycle section, or its body runs. -/
theorem enter_calm {queued : OpPc} {body : State → State} (hq : Calm s.book (s.book.move t queued))
    (hb : ∀ l, s.lifecycleLock.acquire t = (l, true) →
      Calm s.book (body { s with lifecycleLock := l }).book) :
    Calm s.book (s.enter t queued body).book := by
  unfold enter
  split
  · rename_i l he
    exact hb l he
  · rw [book_suspend]
    exact hq

/-- The book after `prepare_config_transition` has drawn its number. -/
theorem call_calm (h : s.book.Retention) (next : Cfg) :
    Calm s.book (State.book { s.setTransition s.nextCall { next } with nextCall := s.nextCall + 1 }) ∧
      (State.book { s.setTransition s.nextCall { next } with
        nextCall := s.nextCall + 1 }).CallOk (.transitionQueued s.nextCall next) ∧
      ∀ u, (s.book.pcs u).call ≠ some s.nextCall := by
  have hn : ∀ u, (s.book.pcs u).call ≠ some s.nextCall := fun u hu =>
    Nat.lt_irrefl _ ((h.ok u).lt hu)
  have hun : s.book.Untold s.nextCall := by
    intro p hp he
    obtain ⟨t, f, hc, -⟩ := h.holder hp
    rw [he] at hc
    exact hn t hc
  refine ⟨⟨?_, rfl, fun m => ?_, fun _ _ _ e => .inl e⟩, ⟨Nat.lt_succ_self _, ?_, hun⟩, hn⟩
  · have hb : Beside s.book (State.book { s.setTransition s.nextCall { next } with
        nextCall := s.nextCall + 1 }) s.nextCall :=
      ⟨fun m hm => Function.update_of_ne hm _ _, fun _ _ => .rfl, Nat.le_succ _⟩
    refine ⟨fun t => hb.callOk (hn t) (h.ok t), h.apart, h.pending, fun m hm => ?_⟩
    have hm' : s.nextCall < m := hm
    rw [hb.transitions m (Nat.ne_of_gt hm')]
    exact h.fresh m (Nat.le_of_lt hm')
  · by_cases hm : m = s.nextCall
    · subst hm
      have := h.fresh s.nextCall (Nat.le_refl _)
      simp only [book, setTransition, Function.update_self]
      exact this.symm
    · simp [book, setTransition, hm]
  · simp [book, setTransition]

theorem Outside.idle (hpc : (s.ops t).pc = .idle) : s.Outside t := by
  simp [Outside, hpc, OpPc.call, OpPc.held]

/-- A handle of a caller outside every transition call that suspends or leaves. -/
theorem stay_calm (h : s.book.Retention) (ho : s.Outside t) (pc : OpPc) (hc : pc.call = none)
    (hok : s.book.CallOk pc) : Calm s.book (s.book.move t pc) :=
  move_calm h ho pc (i := s.issued) (e := s.ended) hc hok fun _ _ _ => .inr rfl

theorem healthBody_calm (h : s.book.Retention) (ho : s.Outside t) :
    Calm s.book (s.healthBody t).book := by
  unfold healthBody
  split
  · rw [book_leave]
    exact stay_calm h ho _ rfl (by simp [CallOk])
  · rw [book_suspend]
    exact stay_calm h ho (.probing _ _) rfl trivial

theorem publicCall_calm (h : s.book.Retention) (hi : Inv s o) (hpc : (s.ops t).pc = .idle)
    (c : Call) : Calm s.book (s.publicCall t c).book := by
  have hout := Outside.idle hpc
  -- Registration does not write the book, and a refused call is over at once.
  have hreg : ∀ (w w' : State) b, w.registerOperation t = (w', b) →
      w'.book = w.book ∧ w'.ops = w.ops ∧ w'.lifecycleLock = w.lifecycleLock := by
    intro w w' b he
    have h1 := w.book_register t
    obtain ⟨h2, h3, -⟩ := register_eq w t
    rw [he] at h1 h2 h3
    exact ⟨h1, h2, h3⟩
  cases c with
  | stop =>
    have hstay : ∀ a m, Calm s.book (s.book.move t (.stopping a m false)) := fun a m =>
      stay_calm h hout _ rfl trivial
    have hfresh : ∀ (a : Aid) x, State.book { (s.setAttempt a x).suspend t
        (.stopping a s.nextSpawn false) with nextAttempt := a + 1, stopTask := some a } =
        s.book.move t (.stopping a s.nextSpawn false) := fun a x =>
      (s.setAttempt a x).book_suspend t (.stopping a s.nextSpawn false)
    simp only [publicCall]
    dsimp only [stopCall]
    split
    · rw [hfresh]
      exact hstay _ _
    · split
      · rw [stopReturn, book_endCall]
        exact move_calm h hout .idle (i := s.issued) rfl trivial fun _ _ _ => .inl (by simp)
      · rw [hfresh]
        exact hstay _ _
      · rw [book_suspend]
        exact hstay _ _
  | start =>
    dsimp only [publicCall]
    split
    · rename_i w he
      rw [book_endCall, (hreg s w false he).1]
      exact move_calm h hout .idle (i := s.issued) rfl trivial fun _ _ _ => .inl (by simp)
    · rename_i w he
      obtain ⟨hb, hops, -⟩ := hreg s w true he
      rw [← hb] at h ⊢
      have hout' : w.Outside t := Outside.idle (by rw [hops]; exact hpc)
      refine enter_calm (stay_calm h hout' (.start .queued) rfl trivial) fun l _ => ?_
      exact StartOut.calm (s := { w with lifecycleLock := l }) h hout' (startBody_out _ t)
  | health =>
    dsimp only [publicCall]
    split
    · rename_i w he
      rw [book_endCall, (hreg s w false he).1]
      exact move_calm h hout .idle (i := s.issued) rfl trivial fun _ _ _ => .inl (by simp)
    · rename_i w he
      obtain ⟨hb, hops, -⟩ := hreg s w true he
      rw [← hb] at h ⊢
      have hout' : w.Outside t := Outside.idle (by rw [hops]; exact hpc)
      refine enter_calm (stay_calm h hout' .healthQueued rfl trivial) fun l _ => ?_
      exact healthBody_calm (s := { w with lifecycleLock := l }) h hout'
  | transition next =>
    dsimp only [publicCall]
    obtain ⟨hcalm, hq, hn⟩ := call_calm h next
    have hi' : Inv { s.setTransition s.nextCall { next } with nextCall := s.nextCall + 1 } o :=
      hi.idle (.same rfl) hi.sound rfl (.same rfl fun _ _ => rfl) (.same rfl) (fun _ _ => id) rfl
    refine hcalm.trans rfl ?_
    have h' := hcalm.retention
    have hpc' : (({ s.setTransition s.nextCall { next } with
      nextCall := s.nextCall + 1 } : State).ops t).pc = .idle := hpc
    have hn' : ∀ u, ((({ s.setTransition s.nextCall { next } with
      nextCall := s.nextCall + 1 } : State).book.pcs u).call ≠ some s.nextCall) := hn
    generalize ({ s.setTransition s.nextCall { next } with nextCall := s.nextCall + 1 } : State) = w
      at hq hi' h' hpc' hn'
    obtain ⟨hlt, hlog, hun⟩ := hq
    split
    · rename_i v he
      rw [book_endCall, (hreg w v false he).1]
      refine h'.move (.inl rfl) trivial (fun p hp => ?_) (fun u n r hu => .inr ?_)
      · have : (w.ops t).pc.held = some p := hp
        rw [hpc'] at this
        cases this
      · cases hu
        exact ⟨hlt, hun, by simp [hlog], by simp [hlog]⟩
    · rename_i v he
      obtain ⟨hb, hops, -⟩ := hreg w v true he
      have hiv : Inv v o := by
        have := hi'.register t
        rw [he] at this
        exact this
      have hvpc : (v.ops t).pc = .idle := by rw [hops]; exact hpc'
      rw [← hb] at h' hlt hlog hun hn' ⊢
      refine enter_calm ?_ fun l hl => ?_
      · refine ⟨h'.turn (n := s.nextCall) (.transitionQueued s.nextCall next)
          ⟨fun _ _ => rfl, fun _ _ => .rfl, Nat.le_refl _⟩ rfl (fun u _ => hn' u) (.inr rfl)
          ⟨hlt, hlog, hun⟩ (fun p hp => ?_) (h'.fresh _), rfl, fun _ => rfl, fun _ _ _ e => .inl e⟩
        obtain ⟨h1, u, hu⟩ := h'.pending p hp
        refine ⟨h1, .inr ⟨u, ?_, hu⟩⟩
        rintro rfl
        have : (v.ops u).pc.held = some p := hu
        rw [hvpc] at this
        cases this
      · obtain ⟨hil, hown⟩ := hiv.acquire hvpc hl
        refine transitionBody_calm (s := { v with lifecycleLock := l }) h' ⟨hlt, hlog, hun⟩
          (fun u _ => hn' u) (pending_none h' hil hown ?_)
        have : (({ v with lifecycleLock := l } : State).ops t).pc = .idle := hvpc
        rw [this]
        rfl

theorem leaveQueue_calm (h : s.book.Retention) {kind : Kind}
    (hc : ∀ n, kind = .transition n → (s.ops t).pc.call = some n ∧ s.book.Closed n)
    (hheld : (s.ops t).pc.held = none) : Calm s.book (s.leaveQueue t kind).book := by
  have key : ∀ x, Calm s.book (s.book.move t (.unregistering
      { kind, failure := some .cancelled, cancelled := true } x)) := by
    intro x
    refine h.move (i := s.issued) (e := s.ended) ?_ (fun n hn => (hc n hn).2) (fun p hp => ?_)
      fun _ _ _ he => .inl he
    · cases kind with
      | transition n => exact .inr (hc n rfl).1.symm
      | _ => exact .inl rfl
    · have : (s.ops t).pc.held = some p := hp
      rw [hheld] at this
      cases this
  dsimp only [leaveQueue]
  split
  · rw [book_leave]
    exact key _
  · rw [book_suspend]
    exact key _

theorem resume_calm (h : s.book.Retention) (hi : Inv s o) {i : Inner} {fence : Bool}
    (hr : s.resumable t i = true) : Calm s.book (s.resumeOp t i fence).book := by
  have hok := hi.ops t
  have hbook : s.book.CallOk (s.ops t).pc := h.ok t
  have hcancelled : ∀ n r, (s.ops t).pc.held = none →
      ∀ p, (s.book.pcs t).held = some p → s.book.pending = some p →
        (OpPc.unregistering n r).held = some p := by
    intro n r hn p hp
    have : (s.ops t).pc.held = some p := hp
    rw [hn] at this
    cases this
  cases hpc : (s.ops t).pc with
  | idle => simp [resumable, hpc] at hr
  | finished => simp [resumable, hpc] at hr
  | resultRetiring e c => simp only [OpOk, hpc] at hok
  | start pc =>
    refine StartOut.calm h ?_ (resumeStart_out hi hpc)
    simp [Outside, hpc, OpPc.call, OpPc.held]
  | healthQueued =>
    have ho : s.Outside t := by simp [Outside, hpc, OpPc.call, OpPc.held]
    simp only [resumeOp, hpc]
    split
    · exact leaveQueue_calm h (by simp) ho.2
    · exact healthBody_calm h ho
  | probing c g =>
    have ho : s.Outside t := by simp [Outside, hpc, OpPc.call, OpPc.held]
    have key : ∀ e : Exit, e.kind = .health → Calm s.book (s.leave t e).book := by
      intro e he
      rw [book_leave]
      exact stay_calm h ho _ (by simp [OpPc.call, he]) (by simp [CallOk, he])
    simp only [resumeOp, hpc, healthAfter]
    split
    · exact key _ rfl
    · exact key _ rfl
    · split <;> exact key _ rfl
  | transitionQueued n next =>
    rw [hpc] at hbook
    have hcl : s.book.Closed n := by
      obtain ⟨h1, h2, h3⟩ := hbook
      exact ⟨h1, h3, by simp [h2], by simp [h2]⟩
    have hcall : (s.ops t).pc.call = some n := by rw [hpc]; rfl
    simp only [resumeOp, hpc]
    split
    · refine leaveQueue_calm h (fun m hm => ?_) (by rw [hpc]; rfl)
      cases hm
      exact ⟨hcall, hcl⟩
    · rename_i hc
      simp only [Option.not_isSome_iff_eq_none] at hc
      have hown : s.lifecycleLock.owner = some t := by simpa [resumable, hpc, hc] using hr
      refine transitionBody_calm h hbook (fun u hu hun => hu (h.apart u t n hun hcall)) ?_
      exact pending_none h hi hown (by simp [hpc, Inside])
  | applying f =>
    simp only [resumeOp, hpc]
    refine transitionAfter_calm (s := s.setClient _ _) h hpc fun hw => ?_
    simpa [resumable, hpc, hw] using hr
  | finishing f retain x =>
    rw [hpc] at hbook
    simp only [resumeOp, hpc]
    cases x with
    | finished k =>
      obtain ⟨-, -, p, -, hcl⟩ := hbook
      simp only [book_leave]
      refine h.move (i := s.issued) (e := s.ended) (.inr ?_) ?_
        (hcancelled _ _ (by rw [hpc]; rfl)) fun _ _ _ he => .inl he
      · rw [show s.book.pcs t = _ from hpc]
        rfl
      · intro n hn
        cases hn
        exact hcl
    | pending k =>
      obtain ⟨h1, h2, p, h3, h4⟩ := hbook
      simp only [book_suspend]
      refine h.move (i := s.issued) (e := s.ended) (.inr ?_)
        ⟨h1, h2, p, h3, h4.call, h4.next, h4.fenced, h4.taken⟩ (fun p hp _ => ?_)
        fun _ _ _ he => .inl he
      · rw [show s.book.pcs t = _ from hpc]
        rfl
      · rw [show s.book.pcs t = _ from hpc] at hp
        exact hp
  | unregistering e x =>
    rw [hpc] at hbook
    simp only [OpOk, hpc] at hok
    have hcall : ∀ e' : Exit, e'.kind = e.kind → ∀ y,
        (OpPc.unregistering e' y).call = (s.book.pcs t).call := by
      intro e' he y
      rw [show s.book.pcs t = _ from hpc]
      simp [OpPc.call, he]
    simp only [resumeOp, hpc]
    cases x with
    | finished k =>
      simp only [afterUnregister, hok.1]
      have key : ∀ v : Ended, (∀ u n r, v = .transition u n r → e.kind = .transition n) →
          Calm s.book (s.endCall t v).book := by
        intro v hv
        rw [book_endCall]
        refine h.move (i := s.issued) (.inl rfl) trivial (fun p hp => ?_) (fun u n r hu => .inr ?_)
        · rw [show s.book.pcs t = _ from hpc] at hp
          cases hp
        · exact hbook n (hv u n r (Option.some.inj hu))
      dsimp only [finishCall]
      split
      · exact key _ (by simp)
      · exact key _ (by simp)
      · rename_i n hk
        refine key _ fun u m r hu => ?_
        cases hu
        exact hk
    | pending k =>
      simp only [book_suspend]
      exact h.move (i := s.issued) (e := s.ended) (.inr (hcall _ rfl (.pending k))) hbook
        (hcancelled _ _ (by rw [hpc]; rfl)) fun _ _ _ he => .inl he
  | stopping a mark c =>
    have ho : s.Outside t := by simp [Outside, hpc, OpPc.call, OpPc.held]
    simp only [resumeOp, hpc]
    split
    · rw [stopReturn, book_endCall]
      exact move_calm h ho .idle (i := s.issued) rfl trivial fun _ _ _ => .inl (by simp)
    · rw [book_suspend]
      exact stay_calm h ho (.stopping a mark true) rfl trivial

/-- What every step does to the book of the transition calls. -/
structure Kept (s s' : State) : Prop where
  retention : s'.book.Retention
  written : Written s.book s'.book
  ended : ∀ t n r, s'.ended = some (.transition t n r) →
    s.ended = some (.transition t n r) ∨ s'.book.Closed n

theorem Kept.of_calm (h : Calm s.book s'.book) : Kept s s' :=
  ⟨h.retention, .kept h.config h.retained, h.ended⟩

theorem Kept.of_book (h : s.book.Retention) (hb : s'.book = s.book) : Kept s s' :=
  .of_calm (by rw [hb]; exact h.calm rfl rfl rfl rfl rfl rfl)

/-- The caller's await moves within the same call. -/
theorem Kept.of_move (h : s.book.Retention) {pc : OpPc} (hb : s'.book = s.book.move t pc)
    (hc : pc.call = none ∨ pc.call = (s.ops t).pc.call) (hok : s.book.CallOk pc)
    (hheld : (s.ops t).pc.held = none) : Kept s s' := by
  refine .of_calm ?_
  rw [hb]
  refine h.move (i := s.issued) (e := s.ended) hc hok (fun p hp => ?_) fun _ _ _ he => .inl he
  have : (s.ops t).pc.held = some p := hp
  rw [hheld] at this
  cases this

theorem act_kept (h : s.book.Retention) (hi : Inv s o) {a : Action} (hs : s.act a = some s') :
    Kept s s' := by
  cases a with
  | call t c =>
    simp only [act] at hs
    split at hs
    · rename_i hpc
      cases hs
      exact .of_calm (publicCall_calm h hi hpc c)
    · cases hs
  | resume t i fence =>
    simp only [act] at hs
    split at hs
    · rename_i hr
      cases hs
      exact .of_calm (resume_calm h hi hr)
    · cases hs
  | finish t =>
    simp only [act] at hs
    split at hs
    · rename_i hpc
      cases hs
      refine .of_move h (book_setOp s t { pc := .finished }) (.inl rfl) trivial ?_
      rw [hpc]
      rfl
    · cases hs
  | claim t =>
    have hpc : ∃ pc, (s.ops t).pc = .start pc := by
      simp only [act, runClaim] at hs
      split at hs
      · exact ⟨_, by assumption⟩
      · exact ⟨_, by assumption⟩
      · rename_i e c hpc
        have hok := hi.ops t
        simp only [OpOk, hpc] at hok
      · cases hs
    obtain ⟨pc, hpc⟩ := hpc
    obtain ⟨pc', hb⟩ := claim_book hi hs
    exact .of_move h hb (.inl rfl) trivial (by rw [hpc]; rfl)
  | finalize t =>
    simp only [act, runFinalize] at hs
    split at hs
    · rename_i f k hpc
      split at hs
      · cases hs
        have hb := (book_setOp (s.finalizeStart f.generation) t { s.ops t with
          pc := .start (.finalizing f (.finished s.now)) }).trans (by rw [book_finalizeStart])
        refine .of_move h hb (.inl rfl) trivial ?_
        rw [hpc]
        rfl
      · cases hs
    · cases hs
  | finishTransition t =>
    obtain ⟨h1, h2, h3⟩ := finishTransition_written h hs
    exact ⟨h1, h2, fun u n r hu => .inl (h3 ▸ hu)⟩
  | unregister t =>
    simp only [act, runUnregister] at hs
    split at hs
    · rename_i e k hpc
      split at hs
      · cases hs
        have hb : (s.unregisterOperation t).book = s.book := rfl
        have hok : s.book.CallOk (s.ops t).pc := h.ok t
        refine .of_move h ((book_setOp _ t _).trans (by rw [hb])) (.inr ?_) ?_ ?_
        · rw [hpc]
          rfl
        · rw [hpc] at hok
          exact hok
        · rw [hpc]
          rfl
      · cases hs
    · cases hs
  | attempt a timedOut =>
    obtain hb | hb := attempt_book hs
    · exact .of_book h hb
    · obtain ⟨h1, h2⟩ := stop_written h
      obtain ⟨config, pending, log, heq⟩ := takePendingTransition_eq s
      have he : s'.ended = s.ended := by
        have := congrArg Book.ended hb
        rw [heq] at this
        exact this
      rw [← hb] at h1 h2
      exact ⟨h1, h2, fun u n r hu => .inl (he ▸ hu)⟩
  | late sp => exact .of_book h (late_book hs)
  | retire j =>
    obtain ⟨rfl, -⟩ := runRetire_eq hs
    exact .of_book h (s.book_retireChild j)
  | cancel t =>
    cases hs
    exact .of_book h (s.book_cancelOp t)
  | spawnCallback sp =>
    simp only [act] at hs
    split at hs
    · cases hs
      exact .of_book h (s.spawnCallback_book sp)
    · cases hs
  | retiredPhaseCallback r k =>
    simp only [act] at hs
    split at hs
    · cases hs
      exact .of_book h (book_soft (finishRetiredStartupTask_soft s r k))
    · cases hs
  | shutdownCallback r =>
    simp only [act] at hs
    split at hs
    · cases hs
      exact .of_book h (book_soft (finishRetiredShutdownTask_soft s r))
    · cases hs
  | closeCallback r =>
    simp only [act] at hs
    split at hs
    · cases hs
      obtain ⟨task, settled, succeeded, heq⟩ := finishRetiredCloseTask_eq s r
      rw [heq]
      exact .of_book h rfl
    · cases hs
  | tick =>
    cases hs
    exact .of_book h rfl
  | releaseOperation _ | spawnDone _ _ | phaseDone _ _ | phaseCallback _
  | shutdownDone _ _ | closeDone _ _ | exit _ | waitDone _ _ _ | clientDies _ =>
    simp only [act] at hs
    split at hs
    · cases hs
      exact .of_book h rfl
    · cases hs

theorem init_retention : (State.book {}).Retention :=
  ⟨fun _ => trivial, nofun, nofun, fun _ _ => rfl⟩

/-- A step starts from a clean record of the previous one. -/
theorem step_kept (h : s.book.Retention) (hi : Inv s o) {a : Action} (hs : s.step a = some s') :
    Kept { s with issued := none, ended := none } s' := by
  have hi' : Inv { s with issued := none, ended := none } o :=
    hi.still (.same rfl) rfl rfl (.same rfl fun _ _ => rfl) (.same rfl) rfl rfl
  have hb : State.book { s with issued := none, ended := none } =
      { s.book with issued := none, ended := none } := rfl
  refine act_kept ?_ hi' hs
  rw [hb]
  exact ⟨fun t => (h.ok t).congr rfl rfl rfl, h.apart, h.pending, h.fresh⟩

end State

theorem Reachable.retention {s : State} (h : Reachable s) : (∃ o, s.Inv o) ∧ s.book.Retention := by
  refine Machine.Reachable.invariant (m := machine)
    (p := fun s => (∃ o, s.Inv o) ∧ s.book.Retention)
    ⟨⟨_, State.Inv.init⟩, State.init_retention⟩ ?_ h
  rintro s a s' ⟨⟨o, hi⟩, hr⟩ hs
  exact ⟨hi.step hs, (State.step_kept hr hi hs).retention⟩

namespace State

open Book

/-- When a `prepare_config_transition` call is over, `_pending_transition` does not refer to it,
and it has retained its config exactly when the inner client returned a result, the call newly
fenced the client, or a stop attempt took its pending transition. Every step either leaves the
retained config alone or writes the config of the one call that retains it. -/
theorem config_retained_exactly {s : State} (h : Reachable s) :
    (∀ t n raised, s.ended = some (.transition t n raised) →
      (∀ p, s.pendingTransition = some p → p.call ≠ n) ∧
      ((s.transitions n).retained = true ↔ (s.transitions n).returned = true ∨
        (s.transitions n).newlyFenced = true ∨ (s.transitions n).stopped = true) ∧
      ((s.transitions n).alreadyFenced = true → (s.transitions n).retained = false)) ∧
    ∀ a s', s.step a = some s' → Written s.book s'.book := by
  obtain ⟨⟨o, hi⟩, hr⟩ := h.retention
  refine ⟨fun t n raised he => ?_, fun a s' hs => ?_⟩
  · obtain rfl | ⟨s₀, a, h₀, hs⟩ := h.cases
    · simp [machine] at he
    · obtain ⟨⟨o₀, hi₀⟩, hr₀⟩ := Reachable.retention h₀
      obtain hnone | hc := (step_kept hr₀ hi₀ hs).ended t n raised he
      · cases hnone
      · exact ⟨hc.untold, hc.retained, hc.fenced⟩
  · have := (step_kept hr hi hs).written
    cases this with
    | kept h1 h2 => exact .kept h1 h2
    | retained n h1 h2 h3 h4 => exact .retained n h1 h2 h3 h4

/-- A transition to config 7 that the inner client applies. -/
def appliedRun : List Action :=
  startedRun ++ [.call 1 (.transition 7), .resume 1 .returned false, .tick, .finishTransition 1,
    .resume 1 .returned false, .tick, .unregister 1, .resume 1 .returned false]

theorem config_retained_exactly_appliedRun :
    (machine.after appliedRun).ended = some (.transition 1 0 none) ∧
      (machine.after appliedRun).config = 7 ∧
      ((machine.after appliedRun).transitions 0).retained = true :=
  have he : (machine.after appliedRun).ended = some (.transition 1 0 none) := by decide
  ⟨he, by decide, ((config_retained_exactly (Machine.reachable_after (by decide))).1 1 0 none
    he).2.1.2 (.inl (by decide))⟩

end State

end KestrelSdk.Subprocess
