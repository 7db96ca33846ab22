import KestrelSdk.Json.Encode
import KestrelSdk.Tools.Delivery

namespace KestrelSdk.Tools

open Json (Str str Value Dict)

/-- Where the factory is: on a wrapper, in a call, called by a call, or lost. -/
inductive Place where
  | object (k : Nat)
  | call (i : Nat)
  | called (i : Nat)
  | gone

namespace Place

def delivered : Place → List Nat
  | .called i => [i]
  | _ => []

/-- What a step of call `i` does to the place. -/
inductive Leads (i : Nat) : Place → Place → Prop
  | stay (p : Place) : Leads i p p
  | take (k : Nat) : Leads i (.object k) (.call i)
  | transfer (k : Nat) : Leads i (.call i) (.object k)
  | start : Leads i (.call i) (.called i)
  | lose : Leads i (.call i) .gone

/-- A factory that was called or lost stays so. -/
def Final (p : Place) : Prop := p = .gone ∨ ∃ i, p = .called i

theorem Leads.final {i : Nat} {p q : Place} (h : Leads i p q) (hp : p.Final) : q = p := by
  cases h with
  | stay => rfl
  | take => rcases hp with hp | ⟨j, hp⟩ <;> cases hp
  | transfer => rcases hp with hp | ⟨j, hp⟩ <;> cases hp
  | start => rcases hp with hp | ⟨j, hp⟩ <;> cases hp
  | lose => rcases hp with hp | ⟨j, hp⟩ <;> cases hp

theorem Leads.other {i j : Nat} {p q : Place} (h : Leads i p q) (hj : j ≠ i)
    (hp : p = .call j) : q = .call j := by
  cases h with
  | stay => exact hp
  | take => cases hp
  | transfer => exact absurd (Place.call.inj hp).symm hj
  | start => exact absurd (Place.call.inj hp).symm hj
  | lose => exact absurd (Place.call.inj hp).symm hj

end Place

namespace Chain

/-- The wrappers stay, each with its baseline, and none gets the factory back. -/
def Grows (s s' : Chain) : Prop :=
  ∀ (k : Nat) (o : Envelope) (d : Delivery), s.objects[k]? = some o → o.deferred = some d →
    ∃ (o' : Envelope) (d' : Delivery), s'.objects[k]? = some o' ∧ o'.deferred = some d' ∧
      d'.baseline = d.baseline ∧ (d.publish = false → d'.publish = false)

theorem Grows.of_objects {s s' : Chain} (h : s'.objects = s.objects) : Grows s s' := by
  intro k o d ho hd
  exact ⟨o, d, by rw [h]; exact ho, hd, rfl, id⟩

theorem Grows.set {s s' : Chain} {k : Nat} {o o' : Envelope}
    (hs : s'.objects = s.objects.set k o') (ho : s.objects[k]? = some o)
    (h : ∀ d, o.deferred = some d → ∃ d', o'.deferred = some d' ∧ d'.baseline = d.baseline ∧
      (d.publish = false → d'.publish = false)) : Grows s s' := by
  intro l q d hq hd
  rw [hs, List.getElem?_set]
  by_cases hl : k = l
  · subst hl
    rw [ho] at hq
    obtain rfl := Option.some.inj hq
    obtain ⟨d', hd', hbaseline, hpublish⟩ := h d hd
    have hlt : k < s.objects.length := (List.getElem?_eq_some_iff.1 ho).1
    exact ⟨o', d', by simp [hlt], hd', hbaseline, hpublish⟩
  · exact ⟨q, d, by simpa [hl] using hq, hd, rfl, id⟩

theorem Grows.append {s s' : Chain} {o : Envelope} (hs : s'.objects = s.objects ++ [o]) :
    Grows s s' := by
  intro k q d hq hd
  refine ⟨q, d, ?_, hd, rfl, id⟩
  rw [hs, List.getElem?_append_left (List.getElem?_eq_some_iff.1 hq).1]
  exact hq

end Chain

/-- What holds of a call, where the factory is at `p`. -/
structure Call.Sound (eq : Dict → Dict → Bool) (s : Chain) (p : Place) (i : Nat) (c : Call) :
    Prop where
  carries : c.stage.carries = true → p = .call i ∧ c.took = true
  settled : c.took = true → c.stage.settled = true → p = .gone ∨ p = .called i
  owned : ∃ (o : Envelope) (d : Delivery), s.objects[c.request.self]? = some o ∧ o.deferred = some d ∧
    (c.stage ≠ .asked → d.publish = false) ∧ ∀ e b, c.compared = some (e, b) → b = d.baseline
  fresh : c.stage = .asked → c.took = false
  permitted : c.stage.passed = true → c.Permitted eq
  tool : ∀ k, c.stage = .ended (.successor k) → ∃ self m, c.request = .for_tool self m

theorem Call.Sound.frame {eq : Dict → Dict → Bool} {s s' : Chain} {p p' : Place} {i j : Nat}
    {c : Call} (h : c.Sound eq s p j) (hj : j ≠ i) (hgrow : s.Grows s')
    (hleads : Place.Leads i p p') : c.Sound eq s' p' j := by
  constructor
  · intro hc
    obtain ⟨hp, htook⟩ := h.carries hc
    exact ⟨hleads.other hj hp, htook⟩
  · intro htook hsettled
    have hp := h.settled htook hsettled
    rw [hleads.final (hp.imp id fun hp => ⟨j, hp⟩)]
    exact hp
  · obtain ⟨o, d, ho, hd, hpublish, hbaseline⟩ := h.owned
    obtain ⟨o', d', ho', hd', hbase, hkeep⟩ := hgrow _ o d ho hd
    refine ⟨o', d', ho', hd', fun hs => hkeep (hpublish hs), ?_⟩
    intro e b hb
    rw [hbase]
    exact hbaseline e b hb
  · exact h.fresh
  · exact h.permitted
  · exact h.tool

/-- The permission is about what a call asked and saw, whatever its stage. -/
theorem Call.Permitted.restage {eq : Dict → Dict → Bool} {c : Call} (h : c.Permitted eq)
    (stage : Stage) : ({ c with stage := stage } : Call).Permitted eq := h

namespace Chain

/-- The chain, with its one factory at `p`. -/
structure Inv (eq : Dict → Dict → Bool) (s : Chain) (p : Place) : Prop where
  objects : ∀ (k : Nat) (o : Envelope) (d : Delivery), s.objects[k]? = some o →
    o.deferred = some d → d.publish = true → p = .object k
  deliveries : s.deliveries = p.delivered
  calls : ∀ (i : Nat) (c : Call), s.calls[i]? = some c → c.Sound eq s p i
  delivered : ∀ i ∈ s.deliveries, ∃ c : Call, s.calls[i]? = some c ∧ c.Permitted eq
  context : ∀ ctx, s.context = some ctx → ∃ (i : Nat) (c : Call) (self : Nat) (a : FinalizeArgs),
    s.calls[i]? = some c ∧ c.stage.opens = true ∧ c.request = .finalize self a ∧
      a.context = some (some ctx)

variable {eq : Dict → Dict → Bool} {s s' : Chain} {p p' : Place}

theorem inv_initial (eq : Dict → Dict → Bool) (payload : Dict) :
    Inv eq (initial payload) (.object 0) := by
  constructor
  · intro k o d ho hd _
    cases k with
    | zero => rfl
    | succ k => simp [initial] at ho
  · rfl
  · intro i c hc
    simp [initial] at hc
  · intro i hi
    simp [initial] at hi
  · intro ctx hctx
    simp [initial] at hctx

/-- A step that leaves the calls alone. -/
theorem Inv.objects_only (h : Inv eq s p) (hcalls : s'.calls = s.calls)
    (hcontext : s'.context = s.context) (hdeliveries : s'.deliveries = s.deliveries)
    (hgrow : Grows s s') (hobjects : ∀ (k : Nat) (o : Envelope) (d : Delivery),
      s'.objects[k]? = some o → o.deferred = some d → d.publish = true → p = .object k) : Inv eq s' p := by
  constructor
  · exact hobjects
  · rw [hdeliveries]
    exact h.deliveries
  · intro i c hc
    rw [hcalls] at hc
    exact (h.calls i c hc).frame (Nat.succ_ne_self i).symm hgrow (.stay p)
  · rw [hdeliveries, hcalls]
    exact h.delivered
  · rw [hcontext, hcalls]
    exact h.context

/-- A step of one call. -/
theorem Inv.moved (h : Inv eq s p) {i : Nat} {c c' : Call} (hc : s.calls[i]? = some c)
    (hcalls : s'.calls = s.calls.set i c') (hgrow : Grows s s') (hleads : Place.Leads i p p')
    (hsound : c'.Sound eq s' p' i)
    (hobjects : ∀ (k : Nat) (o : Envelope) (d : Delivery), s'.objects[k]? = some o →
      o.deferred = some d → d.publish = true → p' = .object k)
    (hdeliveries : s'.deliveries = p'.delivered)
    (hpermitted : i ∈ s'.deliveries → c'.Permitted eq)
    (hcontext : ∀ ctx, s'.context = some ctx → (s.context = some ctx ∧
      (c.stage.opens = true → c'.stage.opens = true ∧ c'.request = c.request)) ∨
        c'.stage.opens = true ∧
          ∃ self a, c'.request = .finalize self a ∧ a.context = some (some ctx)) :
    Inv eq s' p' := by
  have hlt : i < s.calls.length := (List.getElem?_eq_some_iff.1 hc).1
  have hself : s'.calls[i]? = some c' := by
    rw [hcalls, List.getElem?_set]
    simp [hlt]
  have hother : ∀ j, j ≠ i → s'.calls[j]? = s.calls[j]? := by
    intro j hj
    rw [hcalls, List.getElem?_set_ne hj.symm]
  constructor
  · exact hobjects
  · exact hdeliveries
  · intro j q hq
    by_cases hj : j = i
    · subst hj
      rw [hself] at hq
      obtain rfl := Option.some.inj hq
      exact hsound
    · rw [hother j hj] at hq
      exact (h.calls j q hq).frame hj hgrow hleads
  · intro j hj
    by_cases hji : j = i
    · subst hji
      exact ⟨c', hself, hpermitted hj⟩
    · rw [hother j hji]
      apply h.delivered
      rw [hdeliveries] at hj
      rw [h.deliveries]
      cases hleads with
      | stay => exact hj
      | take => cases hj
      | transfer => cases hj
      | start => exact absurd (List.mem_singleton.1 hj) hji
      | lose => cases hj
  · intro ctx hctx
    rcases hcontext ctx hctx with ⟨hold, hkeep⟩ | ⟨hopens, self, a, hrequest, ha⟩
    · obtain ⟨j, q, self, a, hq, hopens, hrequest, ha⟩ := h.context ctx hold
      by_cases hj : j = i
      · subst hj
        rw [hc] at hq
        obtain rfl := Option.some.inj hq
        obtain ⟨hopens', hsame⟩ := hkeep hopens
        exact ⟨j, c', self, a, hself, hopens', hsame.trans hrequest, ha⟩
      · exact ⟨j, q, self, a, by rw [hother j hj]; exact hq, hopens, hrequest, ha⟩
    · exact ⟨i, c', self, a, hself, hopens, hrequest, ha⟩

theorem Inv.deliveries_of_call (h : Inv eq s p) {i : Nat} (hp : p = .call i) :
    s.deliveries = [] := by
  rw [h.deliveries, hp]
  rfl

theorem Inv.unpublished (h : Inv eq s p) {i : Nat} (hp : p = .call i) (k : Nat) (o : Envelope)
    (d : Delivery) (ho : s.objects[k]? = some o) (hd : o.deferred = some d)
    (hpublish : d.publish = true) : False := by
  have hk := h.objects k o d ho hd hpublish
  rw [hp] at hk
  cases hk

/-- A step of one call that keeps the wrappers, and the factory or loses it. -/
theorem Inv.put (h : Inv eq s p) {i : Nat} {c c' : Call} (hc : s.calls[i]? = some c)
    (hcalls : s'.calls = s.calls.set i c') (hobjects : s'.objects = s.objects)
    (hdeliveries : s'.deliveries = s.deliveries) (hp : p' = p ∨ p = .call i ∧ p' = .gone)
    (hsound : c'.Sound eq s' p' i) (hpermitted : p = .called i → c.Permitted eq → c'.Permitted eq)
    (hcontext : ∀ ctx, s'.context = some ctx → (s.context = some ctx ∧
      (c.stage.opens = true → c'.stage.opens = true ∧ c'.request = c.request)) ∨
        c'.stage.opens = true ∧
          ∃ self a, c'.request = .finalize self a ∧ a.context = some (some ctx)) :
    Inv eq s' p' := by
  have hleads : Place.Leads i p p' := by
    rcases hp with rfl | ⟨rfl, rfl⟩
    · exact .stay p'
    · exact .lose
  apply h.moved hc hcalls (Grows.of_objects hobjects) hleads hsound _ _ _ hcontext
  · intro k o d ho hd hpublish
    rw [hobjects] at ho
    rcases hp with rfl | ⟨hp, -⟩
    · exact h.objects k o d ho hd hpublish
    · exact (h.unpublished hp k o d ho hd hpublish).elim
  · rw [hdeliveries]
    rcases hp with rfl | ⟨hp, rfl⟩
    · exact h.deliveries
    · exact h.deliveries_of_call hp
  · intro hi
    rw [hdeliveries] at hi
    obtain ⟨q, hq, hperm⟩ := h.delivered i hi
    rw [hc] at hq
    obtain rfl := Option.some.inj hq
    apply hpermitted _ hperm
    rw [h.deliveries] at hi
    cases p with
    | called j => rw [List.mem_singleton.1 hi]
    | object k => cases hi
    | call j => cases hi
    | gone => cases hi

/-- A call keeps its wrapper when its stage changes. -/
theorem owned_restage {i : Nat} {c : Call} (h : c.Sound eq s p i) (hs : c.stage ≠ .asked)
    (hobjects : s'.objects = s.objects) :
    ∃ (o : Envelope) (d : Delivery), s'.objects[c.request.self]? = some o ∧
      o.deferred = some d ∧ d.publish = false ∧ ∀ e b, c.compared = some (e, b) → b = d.baseline := by
  obtain ⟨o, d, ho, hd, hpublish, hbaseline⟩ := h.owned
  exact ⟨o, d, by rw [hobjects]; exact ho, hd, hpublish hs, hbaseline⟩

theorem Inv.called (h : Inv eq s p) {r : Request} {o : Envelope} {d : Delivery}
    (ho : s.objects[r.self]? = some o) (hd : o.deferred = some d) :
    Inv eq { s with calls := s.calls ++ [⟨r, .asked, false, none⟩] } p := by
  have hold : ∀ (i : Nat) (c : Call), s.calls[i]? = some c →
      (s.calls ++ [⟨r, .asked, false, none⟩])[i]? = some c := by
    intro i c hc
    rw [List.getElem?_append_left (List.getElem?_eq_some_iff.1 hc).1]
    exact hc
  constructor
  · exact h.objects
  · exact h.deliveries
  · intro i c hc
    by_cases hlt : i < s.calls.length
    · rw [List.getElem?_append_left hlt] at hc
      exact (h.calls i c hc).frame (Nat.succ_ne_self i).symm (Grows.of_objects rfl) (.stay p)
    · rw [List.getElem?_append_right (Nat.le_of_not_lt hlt), List.getElem?_singleton] at hc
      split at hc
      · obtain rfl := Option.some.inj hc
        constructor
        · intro hcarries
          cases hcarries
        · intro htook
          cases htook
        · exact ⟨o, d, ho, hd, fun hs => absurd rfl hs, by simp⟩
        · exact fun _ => rfl
        · intro hpassed
          cases hpassed
        · intro k hk
          cases hk
      · cases hc
  · intro i hi
    obtain ⟨c, hc, hperm⟩ := h.delivered i hi
    exact ⟨c, hold i c hc, hperm⟩
  · intro ctx hctx
    obtain ⟨i, c, self, a, hc, hrest⟩ := h.context ctx hctx
    exact ⟨i, c, self, a, hold i c hc, hrest⟩

theorem Inv.mutate (h : Inv eq s p) {k : Nat} {o : Envelope} {payload : Dict}
    (ho : s.objects[k]? = some o) : Inv eq (s.setObject k { o with payload := payload }) p := by
  refine h.objects_only rfl rfl rfl (Grows.set rfl ho fun d hd => ⟨d, hd, rfl, id⟩) ?_
  intro l q d hq hd hpublish
  simp only [setObject, List.getElem?_set] at hq
  split at hq
  · rename_i hkl
    subst hkl
    split at hq
    · obtain rfl := Option.some.inj hq
      exact h.objects k o d ho hd hpublish
    · cases hq
  · exact h.objects l q d hq hd hpublish

theorem Inv.newDict (h : Inv eq s p) (payload : Dict) : Inv eq (s.addObject ⟨payload, none⟩) p := by
  refine h.objects_only rfl rfl rfl (Grows.append rfl) ?_
  intro k q d hq hd hpublish
  simp only [addObject, List.getElem?_append, List.getElem?_singleton] at hq
  split at hq
  · exact h.objects k q d hq hd hpublish
  · split at hq
    · obtain rfl := Option.some.inj hq
      cases hd
    · cases hq

/-- The factory moves from its wrapper into the call. -/
theorem Inv.take (h : Inv eq s p) {i : Nat} {c : Call} {o : Envelope} {d : Delivery}
    (hc : s.calls[i]? = some c) (hstage : c.stage = .asked)
    (ho : s.objects[c.request.self]? = some o) (hd : o.deferred = some d)
    (hpublish : d.publish = true) :
    Inv eq ((s.setObject c.request.self
      { o with deferred := some { d with publish := false } }).put i
        { c with stage := .taken, took := true }) (.call i) := by
  have hp := h.objects _ o d ho hd hpublish
  have hlt : c.request.self < s.objects.length := (List.getElem?_eq_some_iff.1 ho).1
  obtain ⟨o', d', ho', hd', -, hbaseline⟩ := (h.calls i c hc).owned
  rw [ho] at ho'
  obtain rfl := Option.some.inj ho'
  rw [hd] at hd'
  obtain rfl := Option.some.inj hd'
  have hdelivered : s.deliveries = [] := by
    rw [h.deliveries, hp]
    rfl
  refine h.moved hc rfl (Grows.set rfl ho ?_) ?_ ?_ ?_ hdelivered ?_ ?_
  · intro d' hd'
    rw [hd] at hd'
    obtain rfl := Option.some.inj hd'
    exact ⟨_, rfl, rfl, fun _ => rfl⟩
  · rw [hp]
    exact .take _
  · constructor
    · exact fun _ => ⟨rfl, rfl⟩
    · intro _ hsettled
      cases hsettled
    · exact ⟨{ o with deferred := some { d with publish := false } }, { d with publish := false },
        by simp [Chain.setObject, Chain.put, hlt], rfl, fun _ => rfl, hbaseline⟩
    · intro hasked
      cases hasked
    · intro hpassed
      cases hpassed
    · intro k hk
      cases hk
  · intro k q d' hq hd' hpublish'
    simp only [Chain.setObject, Chain.put, List.getElem?_set] at hq
    split at hq
    · obtain rfl := Option.some.inj hq
      obtain rfl := Option.some.inj hd'
      cases hpublish'
    · rename_i hk
      have hother := h.objects k q d' hq hd' hpublish'
      rw [hp] at hother
      exact absurd (Place.object.inj hother) hk
  · intro hi
    have : i ∈ s.deliveries := hi
    rw [hdelivered] at this
    cases this
  · intro ctx hctx
    exact .inl ⟨hctx, fun hopens => by rw [hstage] at hopens; cases hopens⟩

/-- A call that has not called the factory ends without it. -/
theorem Inv.stop (h : Inv eq s p) {i : Nat} {c c' : Call} {o : Outcome}
    (hc : s.calls[i]? = some c) (hstage : c.stage.begun = true)
    (hrequest : c'.request = c.request) (hended : c'.stage = .ended o)
    (ho : ∀ k, o ≠ .successor k)
    (hbaseline : ∀ e b d q, c'.compared = some (e, b) → s.objects[c.request.self]? = some q →
      q.deferred = some d → b = d.baseline) : Inv eq (s.put i c') .gone := by
  have hsound := h.calls i c hc
  obtain ⟨hcarries, hclosed, hs⟩ := Stage.carries_of_begun hstage
  have hp := (hsound.carries hcarries).1
  obtain ⟨q, d, hq, hd, hpublish, -⟩ :=
    owned_restage hsound hs (show s.objects = s.objects from rfl)
  refine h.put hc rfl rfl rfl (.inr ⟨hp, rfl⟩) ?_ ?_ ?_
  · constructor
    · intro hcarries
      rw [hended] at hcarries
      cases hcarries
    · exact fun _ _ => .inl rfl
    · refine ⟨q, d, ?_, hd, fun _ => hpublish, fun e b hb => hbaseline e b d q hb hq hd⟩
      rw [hrequest]
      exact hq
    · intro hasked
      rw [hended] at hasked
      cases hasked
    · intro hpassed
      rw [hended] at hpassed
      cases hpassed
    · intro k hk
      rw [hended] at hk
      exact absurd (Stage.ended.inj hk) (ho k)
  · intro hcalled
    rw [hp] at hcalled
    cases hcalled
  · intro ctx hctx
    refine .inl ⟨hctx, fun hopens => ?_⟩
    rw [hclosed] at hopens
    cases hopens

/-- The last wrapper's factory goes to its successor. -/
theorem Inv.transfer (h : Inv eq s p) {i : Nat} {c : Call} {payload : Dict} {self : Nat}
    {m : WrapperMetadata} (hc : s.calls[i]? = some c) (hstage : c.stage.begun = true)
    (hrequest : c.request = .for_tool self m) :
    Inv eq ((s.addObject ⟨payload, some ⟨payload, true⟩⟩).put i
      { c with stage := .ended (.successor s.objects.length) }) (.object s.objects.length) := by
  have hsound := h.calls i c hc
  obtain ⟨hcarries, hclosed, hs⟩ := Stage.carries_of_begun hstage
  have hp := (hsound.carries hcarries).1
  have hdelivered := h.deliveries_of_call hp
  obtain ⟨o, d, ho, hd, hpublish, hbaseline⟩ := hsound.owned
  have hlt : c.request.self < s.objects.length := (List.getElem?_eq_some_iff.1 ho).1
  refine h.moved hc rfl (Grows.append rfl) ?_ ?_ ?_ hdelivered ?_ ?_
  · rw [hp]
    exact .transfer _
  · constructor
    · intro hcarries
      cases hcarries
    · intro _ hsettled
      cases hsettled
    · refine ⟨o, d, ?_, hd, fun _ => hpublish hs, hbaseline⟩
      rw [← ho]
      exact List.getElem?_append_left hlt
    · intro hasked
      cases hasked
    · intro hpassed
      cases hpassed
    · exact fun _ _ => ⟨self, m, hrequest⟩
  · intro k q d' hq hd' hpublish'
    simp only [Chain.addObject, Chain.put, List.getElem?_append, List.getElem?_singleton] at hq
    split at hq
    · exact (h.unpublished hp k q d' hq hd' hpublish').elim
    · split at hq
      · rename_i hge hzero
        rw [Place.object.injEq]
        omega
      · cases hq
  · intro hi
    have hmem : i ∈ s.deliveries := hi
    rw [hdelivered] at hmem
    cases hmem
  · intro ctx hctx
    refine .inl ⟨hctx, fun hopens => ?_⟩
    rw [hclosed] at hopens
    cases hopens

/-- The call goes on and keeps what it asked and saw. -/
theorem Inv.proceed (h : Inv eq s p) {i : Nat} {c : Call} {stage : Stage}
    (hc : s.calls[i]? = some c) (hs : c.stage ≠ .asked) (hcalls : s'.calls = s.calls.set i { c with stage := stage })
    (hobjects : s'.objects = s.objects) (hdeliveries : s'.deliveries = s.deliveries)
    (hp : p' = p ∨ p = .call i ∧ p' = .gone)
    (hcarries : stage.carries = true → c.stage.carries = true ∧ p' = p)
    (hsettled : c.took = true → stage.settled = true → p' = .gone ∨ p' = .called i)
    (hpassed : stage.passed = true → c.stage.passed = true) (hasked : stage ≠ .asked)
    (htool : ∀ k, stage ≠ .ended (.successor k))
    (hcontext : ∀ ctx, s'.context = some ctx → (s.context = some ctx ∧
      (c.stage.opens = true → stage.opens = true)) ∨
        stage.opens = true ∧
          ∃ self a, c.request = .finalize self a ∧ a.context = some (some ctx)) :
    Inv eq s' p' := by
  have hsound := h.calls i c hc
  obtain ⟨o, d, ho, hd, hpublish, hbaseline⟩ := owned_restage hsound hs hobjects
  refine h.put hc hcalls hobjects hdeliveries hp ?_ (fun _ hperm => hperm.restage stage) ?_
  · constructor
    · intro hnew
      obtain ⟨hold, rfl⟩ := hcarries hnew
      exact hsound.carries hold
    · exact hsettled
    · exact ⟨o, d, ho, hd, fun _ => hpublish, hbaseline⟩
    · exact fun hnew => absurd hnew hasked
    · exact fun hnew => (hsound.permitted (hpassed hnew)).restage stage
    · exact fun k hk => absurd hk (htool k)
  · intro ctx hctx
    rcases hcontext ctx hctx with ⟨hold, hkeep⟩ | hnew
    · exact .inl ⟨hold, fun hopens => ⟨hkeep hopens, rfl⟩⟩
    · exact .inr hnew

theorem Inv.refuse (h : Inv eq s p) {i : Nat} {c : Call} {o : Envelope} {d : Delivery}
    (hc : s.calls[i]? = some c) (hstage : c.stage = .asked)
    (ho : s.objects[c.request.self]? = some o) (hd : o.deferred = some d)
    (hpublish : d.publish = false) :
    Inv eq (s.put i { c with stage := .ended .raised }) p := by
  have hsound := h.calls i c hc
  have htook := hsound.fresh hstage
  obtain ⟨o', d', ho', hd', -, hbaseline⟩ := hsound.owned
  rw [ho] at ho'
  obtain rfl := Option.some.inj ho'
  rw [hd] at hd'
  obtain rfl := Option.some.inj hd'
  refine h.put hc rfl rfl rfl (.inl rfl) ?_ (fun _ hperm => hperm.restage _) ?_
  · constructor
    · intro hcarries
      cases hcarries
    · intro hnew
      exact absurd (hnew.symm.trans htook) (by decide)
    · exact ⟨o, d, ho, hd, fun _ => hpublish, hbaseline⟩
    · intro hasked
      cases hasked
    · intro hpassed
      cases hpassed
    · intro k hk
      cases hk
  · intro ctx hctx
    exact .inl ⟨hctx, fun hopens => by rw [hstage] at hopens; cases hopens⟩

/-- The policy is checked on the envelope as it is then, against the baseline of the wrapper. -/
theorem Inv.approve (h : Inv eq s p) {i : Nat} {c : Call} {self : Nat} {a : FinalizeArgs}
    {e : Dict} {o : Envelope} {d : Delivery} (hc : s.calls[i]? = some c)
    (hstage : c.stage = .taken) (hrequest : c.request = .finalize self a)
    (ho : s.objects[self]? = some o) (hd : o.deferred = some d)
    (hpermits : permits eq self a e d.baseline = true) :
    Inv eq (s.put i { c with compared := some (e, d.baseline), stage := .approved e }) p := by
  have hsound := h.calls i c hc
  obtain ⟨hp, htook⟩ := hsound.carries (by rw [hstage]; rfl)
  obtain ⟨o', d', ho', hd', hpublish, -⟩ := hsound.owned
  rw [hrequest] at ho'
  rw [Request.self, ho] at ho'
  obtain rfl := Option.some.inj ho'
  rw [hd] at hd'
  obtain rfl := Option.some.inj hd'
  refine h.put hc rfl rfl rfl (.inl rfl) ?_ ?_ ?_
  · constructor
    · exact fun _ => ⟨hp, htook⟩
    · intro _ hsettled
      cases hsettled
    · refine ⟨o, d, ?_, hd, fun _ => hpublish (by rw [hstage]; simp), ?_⟩
      · dsimp only
        rw [hrequest]
        exact ho
      · rintro _ _ ⟨⟩
        rfl
    · intro hasked
      cases hasked
    · exact fun _ => ⟨htook, self, a, e, d.baseline, hrequest, rfl, hpermits⟩
    · intro k hk
      cases hk
  · intro hcalled
    rw [hp] at hcalled
    cases hcalled
  · intro ctx hctx
    exact .inl ⟨hctx, fun hopens => by rw [hstage] at hopens; cases hopens⟩

theorem Inv.start (h : Inv eq s p) {i : Nat} {c : Call} {result : Dict}
    (hc : s.calls[i]? = some c) (hstage : c.stage = .placed result) :
    Inv eq (({ s with deliveries := i :: s.deliveries } : Chain).put i
      { c with stage := .running result }) (.called i) := by
  have hsound := h.calls i c hc
  have hp := (hsound.carries (by rw [hstage]; rfl)).1
  have hperm := hsound.permitted (by rw [hstage]; rfl)
  have hdelivered := h.deliveries_of_call hp
  obtain ⟨o, d, ho, hd, hpublish, hbaseline⟩ := hsound.owned
  refine h.moved hc rfl (Grows.of_objects rfl) ?_ ?_ ?_ ?_ (fun _ => hperm.restage _) ?_
  · rw [hp]
    exact .start
  · constructor
    · intro hcarries
      cases hcarries
    · exact fun _ _ => .inr rfl
    · exact ⟨o, d, ho, hd, fun _ => hpublish (by rw [hstage]; simp), hbaseline⟩
    · intro hasked
      cases hasked
    · exact fun _ => hperm.restage _
    · intro k hk
      cases hk
  · exact fun k q d' hq hd' hpublish' => (h.unpublished hp k q d' hq hd' hpublish').elim
  · change i :: s.deliveries = _
    rw [hdelivered]
    rfl
  · exact fun ctx hctx => .inl ⟨hctx, fun _ => ⟨rfl, rfl⟩⟩

theorem not_final_call {i : Nat} (h : p = .call i) : ¬ p.Final := by
  rw [h]
  rintro (h | ⟨j, h⟩) <;> cases h

/-- A step keeps the invariant, and a factory that was called or lost stays so. -/
theorem Inv.step (h : Inv eq s p) (hchange : Change eq s s') :
    ∃ p', Inv eq s' p' ∧ (p.Final → p' = p) := by
  cases hchange with
  | call r o d ho hd => exact ⟨p, h.called ho hd, fun _ => rfl⟩
  | mutate k o payload ho => exact ⟨p, h.mutate ho, fun _ => rfl⟩
  | newDict payload => exact ⟨p, h.newDict payload, fun _ => rfl⟩
  | take i c o d hc hstage ho hd hpublish =>
    refine ⟨.call i, h.take hc hstage ho hd hpublish, ?_⟩
    rw [h.objects _ o d ho hd hpublish]
    rintro (hf | ⟨j, hf⟩) <;> cases hf
  | refuse i c o d hc hstage ho hd hpublish =>
    exact ⟨p, h.refuse hc hstage ho hd hpublish, fun _ => rfl⟩
  | copied i c payload hc hstage =>
    refine ⟨p, h.proceed hc (by rw [hstage]; simp) rfl rfl rfl (.inl rfl) ?_ ?_ ?_ (by simp)
      (by simp) ?_, fun _ => rfl⟩
    · exact fun _ => ⟨by rw [hstage]; rfl, rfl⟩
    · intro _ hsettled
      cases hsettled
    · intro hpassed
      cases hpassed
    · exact fun ctx hctx => .inl ⟨hctx, fun hopens => by rw [hstage] at hopens; cases hopens⟩
  | approve i c self a e o d hc hstage hrequest ho hd hpermits =>
    exact ⟨p, h.approve hc hstage hrequest ho hd hpermits, fun _ => rfl⟩
  | withhold i c r e o d hc hstage ho hd =>
    have hp := ((h.calls i c hc).carries (by rw [hstage]; rfl)).1
    refine ⟨.gone, h.stop hc (by rw [hstage]; rfl) rfl rfl (by simp) ?_,
      fun hf => absurd hf (not_final_call hp)⟩
    intro _ _ d' q hb hq hd'
    rw [ho] at hq
    obtain rfl := Option.some.inj hq
    rw [hd] at hd'
    obtain rfl := Option.some.inj hd'
    cases hb
    rfl
  | lose i c hc hstage =>
    have hsound := h.calls i c hc
    have hp := (hsound.carries (Stage.carries_of_begun hstage).1).1
    obtain ⟨o, d, ho, hd, -, hbaseline⟩ := hsound.owned
    refine ⟨.gone, h.stop hc hstage rfl rfl (by simp) ?_,
      fun hf => absurd hf (not_final_call hp)⟩
    intro e b d' q hb hq hd'
    rw [ho] at hq
    obtain rfl := Option.some.inj hq
    rw [hd] at hd'
    obtain rfl := Option.some.inj hd'
    exact hbaseline e b hb
  | transfer i c old payload self m hc hstage hrequest =>
    have hp := ((h.calls i c hc).carries (by rw [hstage]; rfl)).1
    exact ⟨_, h.transfer hc (by rw [hstage]; rfl) hrequest,
      fun hf => absurd hf (not_final_call hp)⟩
  | place i c self a result hc hstage hrequest =>
    refine ⟨p, h.proceed hc (by rw [hstage]; simp) rfl rfl rfl (.inl rfl) ?_ ?_ ?_ (by simp)
      (by simp) ?_, fun _ => rfl⟩
    · exact fun _ => ⟨by rw [hstage]; rfl, rfl⟩
    · intro _ hsettled
      cases hsettled
    · exact fun _ => by rw [hstage]; rfl
    · intro ctx hctx
      refine .inr ⟨rfl, self, a, hrequest, ?_⟩
      exact Option.join_eq_some_iff.1 hctx
  | start i c result hc hstage =>
    have hp := ((h.calls i c hc).carries (by rw [hstage]; rfl)).1
    exact ⟨.called i, h.start hc hstage, fun hf => absurd hf (not_final_call hp)⟩
  | unwind i c result produced hc hstage =>
    have hsound := h.calls i c hc
    have hasked : c.stage ≠ .asked := by rcases hstage with hs | hs | hs <;> simp [hs]
    have hpassed : c.stage.passed = true := by rcases hstage with hs | hs | hs <;> rw [hs] <;> rfl
    by_cases hcarries : c.stage.carries = true
    · have hp := (hsound.carries hcarries).1
      refine ⟨.gone, h.proceed hc hasked rfl rfl rfl (.inr ⟨hp, rfl⟩) ?_ (fun _ _ => .inl rfl)
        (fun _ => hpassed) (by simp) (by simp) ?_, fun hf => absurd hf (not_final_call hp)⟩
      · intro hnew
        cases hnew
      · exact fun ctx hctx => .inl ⟨hctx, fun _ => rfl⟩
    · have hsettled : c.stage.settled = true := by
        rcases hstage with hs | hs | hs <;> rw [hs] at hcarries ⊢ <;>
          first | exact absurd rfl hcarries | rfl
      refine ⟨p, h.proceed hc hasked rfl rfl rfl (.inl rfl) ?_
        (fun htook _ => hsound.settled htook hsettled) (fun _ => hpassed) (by simp) (by simp) ?_,
        fun _ => rfl⟩
      · intro hnew
        cases hnew
      · exact fun ctx hctx => .inl ⟨hctx, fun _ => rfl⟩
  | close i c result produced o hc hstage ho =>
    have hsound := h.calls i c hc
    refine ⟨p, h.proceed hc (by rw [hstage]; simp) rfl rfl rfl (.inl rfl) ?_
      (fun htook _ => hsound.settled htook (by rw [hstage]; rfl)) ?_ (by simp) ?_ ?_, fun _ => rfl⟩
    · intro hnew
      cases hnew
    · intro hnew
      cases hnew
    · intro k hk
      rcases ho with rfl | ⟨r, rfl⟩ <;> cases hk
    · intro ctx hctx
      cases hctx

/-- A dict without the private part never gets one. -/
theorem Change.plain (h : Change eq s s') {k : Nat} {o : Envelope} (ho : s.objects[k]? = some o)
    (hplain : o.deferred = none) :
    ∃ o' : Envelope, s'.objects[k]? = some o' ∧ o'.deferred = none := by
  have hlt : k < s.objects.length := (List.getElem?_eq_some_iff.1 ho).1
  have happend : ∀ e : Envelope, (s.objects ++ [e])[k]? = some o := by
    intro e
    rw [List.getElem?_append_left hlt]
    exact ho
  cases h with
  | mutate l q payload hq =>
    by_cases hkl : l = k
    · subst hkl
      rw [ho] at hq
      obtain rfl := Option.some.inj hq
      exact ⟨{ o with payload := payload }, by simp [setObject, hlt], hplain⟩
    · exact ⟨o, by simpa [setObject, hkl] using ho, hplain⟩
  | newDict payload => exact ⟨o, happend _, hplain⟩
  | transfer i c old payload self m hc hstage hrequest => exact ⟨o, happend _, hplain⟩
  | take i c q d hc hstage hq hd hpublish =>
    have hkl : c.request.self ≠ k := by
      intro hkl
      rw [hkl, ho] at hq
      obtain rfl := Option.some.inj hq
      rw [hplain] at hd
      cases hd
    exact ⟨o, by simpa [setObject, put, hkl] using ho, hplain⟩
  | _ => exact ⟨o, ho, hplain⟩

end Chain

section

variable {eq : Dict → Dict → Bool} {payload : Dict} {s s' : Chain}

theorem inv_reachable (h : (delivery eq payload).Reachable s) : ∃ p, Chain.Inv eq s p := by
  refine h.invariant (p := fun s => ∃ p, Chain.Inv eq s p) ⟨_, Chain.inv_initial eq payload⟩ ?_
  rintro s e s' ⟨p, hinv⟩ hstep
  obtain ⟨p', hinv', -⟩ := hinv.step (Chain.step_change hstep)
  exact ⟨p', hinv'⟩

/-- Once the factory was called or lost, no run gets it back. -/
theorem final_run {p : Place} (hinv : Chain.Inv eq s p) (hp : p.Final) {es : List Event}
    (hrun : (delivery eq payload).runFrom s es = some s') : Chain.Inv eq s' p := by
  refine Asyncio.Machine.runFrom_invariant (p := fun s => Chain.Inv eq s p) ?_ es hinv hrun
  intro s e s' hinv hstep
  obtain ⟨p', hinv', hsame⟩ := hinv.step (Chain.step_change hstep)
  rw [hsame hp] at hinv'
  exact hinv'

theorem plain_run {k : Nat} {es : List Event}
    (hplain : ∃ o : Envelope, s.objects[k]? = some o ∧ o.deferred = none)
    (hrun : (delivery eq payload).runFrom s es = some s') :
    ∃ o : Envelope, s'.objects[k]? = some o ∧ o.deferred = none := by
  refine Asyncio.Machine.runFrom_invariant
    (p := fun s : Chain => ∃ o : Envelope, s.objects[k]? = some o ∧ o.deferred = none)
    ?_ es hplain hrun
  rintro s e s' ⟨o, ho, hnone⟩ hstep
  exact (Chain.step_change hstep).plain ho hnone

/-- In every reachable state of a chain: the factory was called at most once, by a `finalize` with
`allowed` that took it off the wrapper it was given back and whose envelope equals the baseline of
that wrapper; any other `finalize` that ended, and any `for_tool` that raised, left its wrapper
without it, and where they took it nobody ever calls it; a copy never holds it; and a publication
context is the one of such a `finalize`, from just before its call of the factory to just after. -/
theorem deferred_delivery (h : (delivery eq payload).Reachable s) :
    s.deliveries.length ≤ 1 ∧
    (∀ i ∈ s.deliveries, ∃ (c : Call) (self : Nat) (a : FinalizeArgs) (e : Dict) (o : Envelope)
      (d : Delivery), s.calls[i]? = some c ∧ c.request = .finalize self a ∧ c.took = true ∧
      a.allowed = some true ∧ a.post_hook_result = some self ∧ s.objects[self]? = some o ∧
      o.deferred = some d ∧ c.compared = some (e, d.baseline) ∧ eq e d.baseline = true) ∧
    (∀ (i : Nat) (c : Call) (o : Outcome), s.calls[i]? = some c → c.stage = .ended o →
      i ∉ s.deliveries → (∃ self a, c.request = .finalize self a) ∨ o = .raised →
      (∀ (q : Envelope) (d : Delivery), s.objects[c.request.self]? = some q →
        q.deferred = some d → d.publish = false) ∧
      (c.took = true → ∀ es s', (delivery eq payload).runFrom s es = some s' →
        s'.deliveries = [] ∧ ∀ (k : Nat) (q : Envelope) (d : Delivery),
          s'.objects[k]? = some q → q.deferred = some d → d.publish = false)) ∧
    (∀ k s₁ es s₂, s.step eq (.copy k) = some s₁ → (delivery eq payload).runFrom s₁ es = some s₂ →
      ∃ o : Envelope, s₂.objects[s.objects.length]? = some o ∧ o.deferred = none) ∧
    ∀ ctx, s.context = some ctx → ∃ (i : Nat) (c : Call) (self : Nat) (a : FinalizeArgs),
      s.calls[i]? = some c ∧ c.stage.opens = true ∧ c.Permitted eq ∧
      c.request = .finalize self a ∧ a.context = some (some ctx) := by
  obtain ⟨p, hinv⟩ := inv_reachable h
  refine ⟨?_, ?_, ?_, ?_, ?_⟩
  · rw [hinv.deliveries]
    cases p <;> simp [Place.delivered]
  · intro i hi
    obtain ⟨c, hc, htook, self, a, e, b, hrequest, hcompared, hpermits⟩ := hinv.delivered i hi
    obtain ⟨o, d, ho, hd, -, hbaseline⟩ := (hinv.calls i c hc).owned
    obtain rfl := hbaseline e b hcompared
    rw [hrequest] at ho
    simp only [Chain.permits, Bool.and_eq_true, beq_iff_eq] at hpermits
    exact ⟨c, self, a, e, o, d, hc, hrequest, htook, hpermits.1.1, hpermits.1.2, ho, hd,
      hcompared, hpermits.2⟩
  · intro i c o hc hstage hi hkind
    have hsound := hinv.calls i c hc
    obtain ⟨q', d', hq', hd', hpublish, -⟩ := hsound.owned
    refine ⟨?_, ?_⟩
    · intro q d hq hd
      rw [hq'] at hq
      obtain rfl := Option.some.inj hq
      rw [hd'] at hd
      obtain rfl := Option.some.inj hd
      exact hpublish (by rw [hstage]; simp)
    · intro htook es s' hrun
      have hsettled : c.stage.settled = true := by
        rw [hstage]
        cases o with
        | raised => rfl
        | finalized r => rfl
        | successor k =>
          obtain ⟨self, m, hrequest⟩ := hsound.tool k hstage
          rcases hkind with ⟨self', a, hrequest'⟩ | hraised
          · rw [hrequest] at hrequest'
            cases hrequest'
          · cases hraised
      have hgone : p = .gone := by
        rcases hsound.settled htook hsettled with hp | hp
        · exact hp
        · rw [hinv.deliveries, hp] at hi
          exact absurd (List.mem_singleton.2 rfl) hi
      subst hgone
      have hinv' := final_run hinv (.inl rfl) hrun
      refine ⟨hinv'.deliveries, ?_⟩
      intro k q d hq hd
      by_contra hpublish
      cases hinv'.objects k q d hq hd (by simpa using hpublish)
  · intro k s₁ es s₂ hcopy hrun
    obtain ⟨o, -, hcopy⟩ := Option.bind_eq_some_iff.1 hcopy
    obtain rfl := Option.some.inj hcopy
    exact plain_run ⟨⟨o.payload, none⟩, by simp [Chain.addObject], rfl⟩ hrun
  · intro ctx hctx
    obtain ⟨i, c, self, a, hc, hopens, hrequest, ha⟩ := hinv.context ctx hctx
    refine ⟨i, c, self, a, hc, hopens, ?_, hrequest, ha⟩
    apply (hinv.calls i c hc).permitted
    revert hopens
    cases c.stage <;> simp [Stage.opens, Stage.passed]

end

/-- Envelopes with the same JSON text. -/
def sameText (a b : Dict) : Bool :=
  match Json.dump 9 (.dict a), Json.dump 9 (.dict b) with
  | .ok t, .ok u => t == u
  | _, _ => false

def sampleEnvelope : Dict :=
  [(.str (str "status"), .str (str "ok")), (.str (str "confirmation"), .str (str "Drawn"))]

def sampleContext : ToolPublicationContext :=
  ⟨str "agent", str "session", by decide, by decide⟩

def sampleFinalize : FinalizeArgs := ⟨some 0, some true, some (some sampleContext)⟩

def Stage.isRunning : Stage → Bool
  | .running _ => true
  | _ => false

/-- The publication context is set while the factory has not started: a reader in another thread
finds it there before the call. -/
theorem context_before_factory :
    ¬ ∀ s, (delivery sameText sampleEnvelope).Reachable s → s.context ≠ none →
      ∃ c ∈ s.calls, ∃ result, c.stage = .running result := by
  intro h
  have hreach : (delivery sameText sampleEnvelope).Reachable
      ((delivery sameText sampleEnvelope).after
        [.call (.finalize 0 sampleFinalize), .next 0, .next 0, .next 0]) :=
    Asyncio.Machine.reachable_after (by decide +kernel)
  obtain ⟨c, hc, result, hstage⟩ := h _ hreach (by decide +kernel)
  have hplaced : ∀ c ∈ ((delivery sameText sampleEnvelope).after
      [.call (.finalize 0 sampleFinalize), .next 0, .next 0, .next 0]).calls,
      c.stage.isRunning = false := by decide +kernel
  have hrunning := hplaced c hc
  rw [hstage] at hrunning
  cases hrunning

/-- A delivery whose wrapper was transferred once. -/
def sampleDelivery : List Event :=
  [.call (.for_tool 0 ⟨some (str "draw"), some [], some false⟩), .next 0, .next 0, .next 0,
    .call (.finalize 1 ⟨some 1, some true, some none⟩), .next 1, .next 1, .next 1, .next 1,
    .produce 1 (.list []), .next 1]

theorem sampleDelivery_once :
    ((delivery sameText sampleEnvelope).after sampleDelivery).deliveries = [1] ∧
      ((delivery sameText sampleEnvelope).after sampleDelivery).deliveries.length ≤ 1 := by
  have hreach : (delivery sameText sampleEnvelope).Reachable
      ((delivery sameText sampleEnvelope).after sampleDelivery) :=
    Asyncio.Machine.reachable_after (by decide +kernel)
  exact ⟨by decide +kernel, (deferred_delivery hreach).1⟩

end KestrelSdk.Tools
