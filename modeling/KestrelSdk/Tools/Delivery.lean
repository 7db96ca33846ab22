import KestrelSdk.Tools.Deferred

namespace KestrelSdk.Tools

open Json (Str str Value Dict)

namespace Stage

/-- The stages with the factory in a local variable. -/
def carries : Stage → Bool
  | .taken | .copied _ | .approved _ | .placed _ => true
  | _ => false

/-- Those of them before the policy of `finalize`. -/
def begun : Stage → Bool
  | .taken | .copied _ => true
  | _ => false

/-- The stages behind the policy of `finalize`, up to its result. -/
def passed : Stage → Bool
  | .approved _ | .placed _ | .running _ | .returned _ _ => true
  | _ => false

/-- The stages between the set and the clear of the publication context. -/
def opens : Stage → Bool
  | .placed _ | .running _ | .returned _ _ => true
  | _ => false

/-- The stages that a factory leaves only called or lost. -/
def settled : Stage → Bool
  | .running _ | .returned _ _ | .ended .raised | .ended (.finalized _) => true
  | _ => false

theorem carries_of_begun {t : Stage} (h : t.begun = true) :
    t.carries = true ∧ t.opens = false ∧ t ≠ .asked := by
  cases t <;> simp_all [begun, carries, opens]

end Stage

/-- A `finalize` that found the factory on its wrapper and that its policy lets through. -/
def Call.Permitted (eq : Dict → Dict → Bool) (c : Call) : Prop :=
  c.took = true ∧ ∃ self a e b, c.request = .finalize self a ∧ c.compared = some (e, b) ∧
    Chain.permits eq self a e b = true

namespace Chain

/-- What a step can do. -/
inductive Change (eq : Dict → Dict → Bool) (s : Chain) : Chain → Prop
  | call (r : Request) (o : Envelope) (d : Delivery) (ho : s.objects[r.self]? = some o)
      (hd : o.deferred = some d) :
      Change eq s { s with calls := s.calls ++ [⟨r, .asked, false, none⟩] }
  | mutate (k : Nat) (o : Envelope) (payload : Dict) (ho : s.objects[k]? = some o) :
      Change eq s (s.setObject k { o with payload := payload })
  | newDict (payload : Dict) : Change eq s (s.addObject ⟨payload, none⟩)
  | take (i : Nat) (c : Call) (o : Envelope) (d : Delivery) (hc : s.calls[i]? = some c)
      (hstage : c.stage = .asked) (ho : s.objects[c.request.self]? = some o)
      (hd : o.deferred = some d) (hpublish : d.publish = true) :
      Change eq s ((s.setObject c.request.self
        { o with deferred := some { d with publish := false } }).put i
          { c with stage := .taken, took := true })
  | refuse (i : Nat) (c : Call) (o : Envelope) (d : Delivery) (hc : s.calls[i]? = some c)
      (hstage : c.stage = .asked) (ho : s.objects[c.request.self]? = some o)
      (hd : o.deferred = some d) (hpublish : d.publish = false) :
      Change eq s (s.put i { c with stage := .ended .raised })
  | copied (i : Nat) (c : Call) (payload : Dict) (hc : s.calls[i]? = some c)
      (hstage : c.stage = .taken) : Change eq s (s.put i { c with stage := .copied payload })
  | approve (i : Nat) (c : Call) (self : Nat) (a : FinalizeArgs) (e : Dict) (o : Envelope)
      (d : Delivery) (hc : s.calls[i]? = some c) (hstage : c.stage = .taken)
      (hrequest : c.request = .finalize self a) (ho : s.objects[self]? = some o)
      (hd : o.deferred = some d) (hpermits : permits eq self a e d.baseline = true) :
      Change eq s (s.put i { c with compared := some (e, d.baseline), stage := .approved e })
  | withhold (i : Nat) (c : Call) (r : FinalizedToolResult) (e : Dict) (o : Envelope)
      (d : Delivery) (hc : s.calls[i]? = some c) (hstage : c.stage = .taken)
      (ho : s.objects[c.request.self]? = some o) (hd : o.deferred = some d) :
      Change eq s (s.put i
        { c with compared := some (e, d.baseline), stage := .ended (.finalized r) })
  | lose (i : Nat) (c : Call) (hc : s.calls[i]? = some c) (hstage : c.stage.begun = true) :
      Change eq s (s.put i { c with stage := .ended .raised })
  | transfer (i : Nat) (c : Call) (old payload : Dict) (self : Nat) (m : WrapperMetadata)
      (hc : s.calls[i]? = some c) (hstage : c.stage = .copied old)
      (hrequest : c.request = .for_tool self m) :
      Change eq s ((s.addObject ⟨payload, some ⟨payload, true⟩⟩).put i
        { c with stage := .ended (.successor s.objects.length) })
  | place (i : Nat) (c : Call) (self : Nat) (a : FinalizeArgs) (result : Dict)
      (hc : s.calls[i]? = some c) (hstage : c.stage = .approved result)
      (hrequest : c.request = .finalize self a) :
      Change eq s (({ s with context := a.context.join } : Chain).put i
        { c with stage := .placed result })
  | start (i : Nat) (c : Call) (result : Dict) (hc : s.calls[i]? = some c)
      (hstage : c.stage = .placed result) :
      Change eq s (({ s with deliveries := i :: s.deliveries } : Chain).put i
        { c with stage := .running result })
  | unwind (i : Nat) (c : Call) (result : Dict) (produced : Option Value)
      (hc : s.calls[i]? = some c)
      (hstage : c.stage = .approved result ∨ c.stage = .placed result ∨ c.stage = .running result) :
      Change eq s (s.put i { c with stage := .returned result produced })
  | close (i : Nat) (c : Call) (result : Dict) (produced : Option Value) (o : Outcome)
      (hc : s.calls[i]? = some c) (hstage : c.stage = .returned result produced)
      (ho : o = .raised ∨ ∃ r, o = .finalized r) :
      Change eq s (({ s with context := none } : Chain).put i { c with stage := .ended o })

variable {eq : Dict → Dict → Bool} {s s' : Chain}

theorem next_change {i : Nat} {c : Call} (hc : s.calls[i]? = some c)
    (h : s.next eq i c = some s') : Change eq s s' := by
  simp only [next, Option.bind_eq_bind, Option.bind_eq_some_iff] at h
  obtain ⟨o, ho, d, hd, h⟩ := h
  split at h
  · rename_i hstage
    obtain rfl := Option.some.inj h
    unfold take
    split
    · rename_i hpublish
      exact .take i c o d hc hstage ho hd hpublish
    · rename_i hpublish
      exact .refuse i c o d hc hstage ho hd (Bool.eq_false_iff.2 hpublish)
  · rename_i hstage _
    split at h
    · obtain rfl := Option.some.inj h
      exact .copied i c o.payload hc hstage
    · obtain rfl := Option.some.inj h
      exact .lose i c hc (by rw [hstage]; rfl)
  · rename_i self a hstage hrequest
    obtain rfl := Option.some.inj h
    unfold judge
    split
    · rename_i post _ _ _
      dsimp only
      split
      · rename_i hpermits
        rw [hrequest] at ho
        exact .approve i c self a post.payload o d hc hstage hrequest ho hd hpermits
      · exact .withhold i c _ post.payload o d hc hstage ho hd
    · exact .lose i c hc (by rw [hstage]; rfl)
  · rename_i payload self m hstage hrequest
    split at h
    · rename_i wrapped _
      obtain rfl := Option.some.inj h
      unfold construct
      split
      · exact .transfer i c payload wrapped self m hc hstage hrequest
      · exact .lose i c hc (by rw [hstage]; rfl)
    · obtain rfl := Option.some.inj h
      exact .lose i c hc (by rw [hstage]; rfl)
  · rename_i result self a hstage hrequest
    obtain rfl := Option.some.inj h
    exact .place i c self a result hc hstage hrequest
  · rename_i hstage
    obtain rfl := Option.some.inj h
    exact .start i c _ hc hstage
  · rename_i hstage
    obtain rfl := Option.some.inj h
    apply Change.close i c _ _ _ hc hstage
    split
    · exact .inr ⟨_, rfl⟩
    · exact .inl rfl
  · cases h

theorem fail_change {i : Nat} {c : Call} (hc : s.calls[i]? = some c)
    (h : s.fail i c = some s') : Change eq s s' := by
  unfold fail at h
  split at h
  · rename_i hstage
    obtain rfl := Option.some.inj h
    exact .lose i c hc (by rw [hstage]; rfl)
  · rename_i hstage
    obtain rfl := Option.some.inj h
    exact .lose i c hc (by rw [hstage]; rfl)
  · rename_i result hstage
    obtain rfl := Option.some.inj h
    exact .unwind i c result none hc (.inl hstage)
  · rename_i result hstage
    obtain rfl := Option.some.inj h
    exact .unwind i c result none hc (.inr (.inl hstage))
  · rename_i result hstage
    obtain rfl := Option.some.inj h
    exact .unwind i c result none hc (.inr (.inr hstage))
  · rename_i result produced hstage
    obtain rfl := Option.some.inj h
    exact .close i c result produced .raised hc hstage (.inl rfl)
  · cases h

theorem step_change {e : Event} (h : s.step eq e = some s') : Change eq s s' := by
  cases e with
  | call r =>
    simp only [step] at h
    split at h
    · rename_i payload d ho
      obtain rfl := Option.some.inj h
      exact .call r ⟨payload, some d⟩ d ho rfl
    · cases h
  | next i =>
    obtain ⟨c, hc, h⟩ := Option.bind_eq_some_iff.1 h
    exact next_change hc h
  | fail i =>
    obtain ⟨c, hc, h⟩ := Option.bind_eq_some_iff.1 h
    exact fail_change hc h
  | produce i produced =>
    obtain ⟨c, hc, h⟩ := Option.bind_eq_some_iff.1 h
    split at h
    · rename_i result hstage
      obtain rfl := Option.some.inj h
      exact .unwind i c result (some produced) hc (.inr (.inr hstage))
    · cases h
  | mutate k payload =>
    obtain ⟨o, ho, h⟩ := Option.bind_eq_some_iff.1 h
    obtain rfl := Option.some.inj h
    exact .mutate k o payload ho
  | copy k =>
    obtain ⟨o, -, h⟩ := Option.bind_eq_some_iff.1 h
    obtain rfl := Option.some.inj h
    exact .newDict o.payload
  | newDict payload =>
    obtain rfl := Option.some.inj h
    exact .newDict payload

end Chain

end KestrelSdk.Tools
