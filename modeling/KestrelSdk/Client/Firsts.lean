import KestrelSdk.Client.Gaps
import KestrelSdk.Client.Leases
import KestrelSdk.Client.Pairing

/-! The response that settles a request: the first one under its identifier. -/

namespace KestrelSdk.Client

open Json Protocol Asyncio

/-- The first response under an identifier. -/
def First (responses : List JsonRpcResponse) (id : Nat) (x : JsonRpcResponse) : Prop :=
  ∃ pre post, responses = pre ++ x :: post ∧ x.id = .int id ∧ ∀ y ∈ pre, y.id ≠ .int id

theorem First.append {rs : List JsonRpcResponse} {id : Nat} {x : JsonRpcResponse}
    (h : First rs id x) (new : List JsonRpcResponse) : First (rs ++ new) id x := by
  obtain ⟨pre, post, rfl, hid, hpre⟩ := h
  refine ⟨pre, post ++ new, ?_, hid, hpre⟩
  rw [List.append_assoc, List.cons_append]

theorem First.of_fresh {rs : List JsonRpcResponse} {id : Nat} {x : JsonRpcResponse}
    (hid : x.id = .int id) (h : ∀ y ∈ rs, y.id ≠ .int id) : First (rs ++ [x]) id x :=
  ⟨rs, [], rfl, hid, h⟩

theorem First.unique {rs : List JsonRpcResponse} {id : Nat} {x y : JsonRpcResponse}
    (hx : First rs id x) (hy : First rs id y) : x = y := by
  obtain ⟨pre, post, rfl, hxid, hpre⟩ := hx
  obtain ⟨pre', post', heq, hyid, hpre'⟩ := hy
  rcases List.append_eq_append_iff.1 heq with ⟨l, rfl, hl⟩ | ⟨l, rfl, hl⟩
  · cases l with
    | nil =>
      cases hl
      rfl
    | cons z l =>
      cases hl
      exact absurd hxid (hpre' _ (List.mem_append_right _ List.mem_cons_self))
  · cases l with
    | nil =>
      cases hl
      rfl
    | cons z l =>
      cases hl
      exact absurd hyid (hpre _ (List.mem_append_right _ List.mem_cons_self))

/-- A response to a request that the client has written, or to nobody. -/
def solicited (py : Interpreter) (s : State) : Action → Bool
  | .signal (.line b) =>
    match decodeMessage py b with
    | .ok (.response ⟨.int i, _⟩) => s.desk.written.any fun f => (f.id : Int) == i
    | .ok (.response ⟨.none, _⟩) => true
    | .ok (.response _) => false
    | _ => true
  | _ => true

/-- A client whose peer answers its requests only. -/
def answering (py : Interpreter) (p : Str) : Machine State Action :=
  (machine py p).restrict (solicited py)

theorem solicited_cases {py : Interpreter} {s : State} {b : Bytes} {r : JsonRpcResponse}
    (h : solicited py s (.signal (.line b)) = true) (hb : decodeMessage py b = .ok (.response r)) :
    r.id = .none ∨ ∃ f ∈ s.desk.written, r.id = .int f.id := by
  obtain ⟨id, answer⟩ := r
  simp only [solicited, hb] at h
  cases id with
  | none => exact .inl rfl
  | int i =>
    obtain ⟨f, hf, hi⟩ := List.any_eq_true.1 h
    exact .inr ⟨f, hf, congrArg Value.int (eq_of_beq hi).symm⟩
  | _ => cases h

theorem solicited_of {py : Interpreter} {s : State} {b : Bytes}
    (h : ∀ r, decodeMessage py b = .ok (.response r) →
      r.id = .none ∨ ∃ f ∈ s.desk.written, r.id = .int f.id) :
    solicited py s (.signal (.line b)) = true := by
  unfold solicited
  dsimp only
  split
  · rename_i i answer hb
    rcases h _ hb with hid | ⟨f, hf, hid⟩
    · cases hid
    · cases hid
      exact List.any_eq_true.2 ⟨f, hf, beq_self_eq_true _⟩
  · rfl
  · rename_i r hint hnone hb
    rcases h r hb with hid | ⟨f, -, hid⟩
    · exact absurd (by rw [← hid]) (hnone r.answer)
    · exact absurd (by rw [← hid]) (hint f.id r.answer)
  · rfl

/-- What a request has heard: nothing while it is pending, and what settled it is the first response
under its identifier or the end of the stream. -/
structure Engine.Heard (e : Engine) : Prop where
  pending : ∀ id ∈ e.desk.pending, ∀ x ∈ e.desk.responses, x.id ≠ .int id
  result : ∀ id v, e.desk.futures id = .done (.ok v) →
    ∃ x, First e.desk.responses id x ∧ x.answer = .result v
  error : ∀ id text, e.desk.futures id = .done (.error (.remote text)) →
    ∃ x failure, First e.desk.responses id x ∧ x.answer = .error failure
  terminal : ∀ id x, e.desk.futures id = .done (.error (.terminal x)) → e.closedExc ≠ none
  bound : ∀ x ∈ e.desk.responses, ∀ id : Nat, x.id = .int id → id ≤ e.desk.nextId

namespace Engine

variable {e e' : Engine}

theorem Heard.start : Heard {} := by
  constructor
  · intro id h
    cases h
  · intro id v h
    cases h
  · intro id text h
    cases h
  · intro id x h
    cases h
  · intro x h
    cases h

/-- A step that hears nothing new. -/
theorem Heard.mono (h : e.Heard)
    (hp : ∀ id ∈ e'.desk.pending, id ∈ e.desk.pending ∨ id = e.desk.nextId + 1)
    (hf : ∀ id r, e'.desk.futures id = .done r → e.desk.futures id = .done r)
    (hr : e'.desk.responses = e.desk.responses) (hn : e.desk.nextId ≤ e'.desk.nextId)
    (hx : e.closedExc ≠ none → e'.closedExc ≠ none) : e'.Heard where
  pending id hid x hm heq := by
    rw [hr] at hm
    rcases hp id hid with hold | rfl
    · exact h.pending id hold x hm heq
    · have := h.bound x hm _ heq
      omega
  result id v hv := hr ▸ h.result id v (hf id _ hv)
  error id text ht := hr ▸ h.error id text (hf id _ ht)
  terminal id x ht := hx (h.terminal id x (hf id _ ht))
  bound x hm id heq := (h.bound x (hr ▸ hm) id heq).trans hn

theorem Heard.failAll (h : e.Heard) (x : Terminal) : (e.endRead x).Heard where
  pending id hid := by cases hid
  result id v hv := by
    simp only [endRead, Desk.failAll] at hv
    split at hv
    · split at hv
      · cases hv
      · cases hv
    · exact h.result id v hv
  error id text ht := by
    simp only [endRead, Desk.failAll] at ht
    split at ht
    · split at ht
      · cases ht
      · cases ht
    · exact h.error id text ht
  terminal id y _ := by
    intro hn
    cases hn
  bound y hm id heq := h.bound y hm id heq

/-- A response that finds no pending request. -/
theorem Heard.unanswered (h : e.Heard) {r : JsonRpcResponse}
    (hid : ∀ id ∈ e.desk.pending, r.id ≠ .int id) (hn : ∀ id : Nat, r.id = .int id → id ≤ e.desk.nextId) :
    ({ e with desk := { e.desk with responses := e.desk.responses ++ [r] } } : Engine).Heard where
  pending id hp x hm := by
    rcases List.mem_append.1 hm with hm | hm
    · exact h.pending id hp x hm
    · obtain rfl := List.mem_singleton.1 hm
      exact hid id hp
  result id v hv := by
    obtain ⟨x, hx, ha⟩ := h.result id v hv
    exact ⟨x, hx.append [r], ha⟩
  error id text ht := by
    obtain ⟨x, failure, hx, ha⟩ := h.error id text ht
    exact ⟨x, failure, hx.append [r], ha⟩
  terminal := h.terminal
  bound x hm id heq := by
    rcases List.mem_append.1 hm with hm | hm
    · exact h.bound x hm id heq
    · obtain rfl := List.mem_singleton.1 hm
      exact hn id heq

/-- A response under the identifier of a pending request. -/
theorem Heard.answered (h : e.Heard) (hs : e.desk.Sound) {r : JsonRpcResponse} {id : Nat}
    (hid : r.id = .int id) (hp : id ∈ e.desk.pending) :
    ({ e with desk := ({ e.desk with
        responses := e.desk.responses ++ [r]
        pending := e.desk.pending.erase id } : Desk).settle id (Desk.outcome r.answer) } :
      Engine).Heard := by
  have hfirst : First (e.desk.responses ++ [r]) id r := .of_fresh hid (h.pending id hp)
  obtain ⟨-, hnext, hpending, hresponses⟩ := Desk.settle_frame
    ({ e.desk with responses := e.desk.responses ++ [r], pending := e.desk.pending.erase id } : Desk)
    id (Desk.outcome r.answer)
  have hdone : ∀ i q, (({ e.desk with
        responses := e.desk.responses ++ [r]
        pending := e.desk.pending.erase id } : Desk).settle id (Desk.outcome r.answer)).futures i =
      .done q → e.desk.futures i = .done q ∨ i = id ∧ q = Desk.outcome r.answer := by
    intro i q hq
    have hsettled := Desk.settle_done hq
    exact hsettled
  constructor
  · intro i hi x hm
    rw [hpending] at hi
    rw [hresponses] at hm
    rcases List.mem_append.1 hm with hm | hm
    · exact h.pending i (List.mem_of_mem_erase hi) x hm
    · obtain rfl := List.mem_singleton.1 hm
      intro heq
      have hii : id = i := by
        have := hid.symm.trans heq
        injection this with this
        exact Int.ofNat.inj this
      subst hii
      exact absurd hi (List.Nodup.not_mem_erase hs.nodup)
  · intro i v hv
    rw [hresponses]
    rcases hdone i _ hv with hold | ⟨rfl, hq⟩
    · obtain ⟨x, hx, ha⟩ := h.result i v hold
      exact ⟨x, hx.append [r], ha⟩
    · refine ⟨r, hfirst, ?_⟩
      cases ha : r.answer with
      | result w =>
        rw [ha] at hq
        cases hq
        rfl
      | error failure =>
        rw [ha] at hq
        cases hq
  · intro i text ht
    rw [hresponses]
    rcases hdone i _ ht with hold | ⟨rfl, hq⟩
    · obtain ⟨x, failure, hx, ha⟩ := h.error i text hold
      exact ⟨x, failure, hx.append [r], ha⟩
    · cases ha : r.answer with
      | result w =>
        rw [ha] at hq
        cases hq
      | error failure => exact ⟨r, failure, hfirst, ha⟩
  · intro i x ht
    rcases hdone i _ ht with hold | ⟨rfl, hq⟩
    · exact h.terminal i x hold
    · cases ha : r.answer with
      | result w =>
        rw [ha] at hq
        cases hq
      | error failure =>
        rw [ha] at hq
        cases hq
  · intro x hm i heq
    rw [hresponses] at hm
    rw [hnext]
    rcases List.mem_append.1 hm with hm | hm
    · exact h.bound x hm i heq
    · obtain rfl := List.mem_singleton.1 hm
      have := hid.symm.trans heq
      injection this with this
      obtain rfl := Int.ofNat.inj this
      exact (hs.pending id hp).2

theorem Heard.answer (h : e.Heard) (hs : e.desk.Sound) {r : JsonRpcResponse}
    (hr : r.id = .none ∨ ∃ f ∈ e.desk.written, r.id = .int f.id) :
    ({ e with desk := e.desk.answer r } : Engine).Heard := by
  unfold Desk.answer
  rcases hr with hid | ⟨f, hf, hid⟩
  · have hkey : Desk.keyOf r.id = none := by
      rw [hid]
      rfl
    simp only [hkey]
    apply h.unanswered
    · intro id _ heq
      rw [hid] at heq
      cases heq
    · intro id heq
      rw [hid] at heq
      cases heq
  · have hkey : Desk.keyOf r.id = some f.id := by
      rw [hid]
      simp only [Desk.keyOf, Int.natCast_nonneg, if_true, Int.toNat_natCast]
    have hsame : ∀ id : Nat, r.id = .int id → id = f.id := by
      intro id heq
      have := heq.symm.trans hid
      injection this with this
      exact Int.ofNat.inj this
    simp only [hkey]
    split
    · rename_i hp
      exact h.answered hs hid hp
    · rename_i hp
      apply h.unanswered
      · intro id hm heq
        exact hp (hsame id heq ▸ hm)
      · intro id heq
        rw [hsame id heq]
        exact hs.bound f hf

/-- A client that is terminal stays so. -/
theorem step_terminal {py : Interpreter} {shut : Bool} {g : Signal}
    (h : e.step py shut g = some e') (hx : e.closedExc ≠ none) : e'.closedExc ≠ none := by
  cases step_move h with
  | idle he => exact he ▸ hx
  | registers _ he => exact he ▸ hx
  | beginsRead _ _ he => exact he ▸ hx
  | beginsDrain _ _ _ he => exact he ▸ hx
  | beginsClose l _ he =>
    obtain ⟨-, -, -, hclosed, -⟩ := closeBegin_frame { e with fresh := l }
    rw [he, hclosed]
    exact hx
  | answers _ _ _ _ _ he => exact he ▸ hx
  | receives _ _ _ _ he => exact he ▸ hx
  | readEnds _ _ he =>
    subst he
    exact Option.some_ne_none _
  | drainEnds _ _ _ he => exact he ▸ hx
  | works _ _ _ he => exact he ▸ hx
  | gathers read _ _ _ _ he =>
    rw [he, (e.closeEnter_frame read).2.2.2.1]
    exact hx
  | clears _ _ _ he => exact he ▸ hx
  | closes _ _ he =>
    subst he
    exact Option.some_ne_none _

theorem Heard.step {py : Interpreter} {shut : Bool} {g : Signal} (h : e.Heard) (hs : e.desk.Sound)
    (hok : ∀ b r, g = .line b → decodeMessage py b = .ok (.response r) →
      r.id = .none ∨ ∃ f ∈ e.desk.written, r.id = .int f.id)
    (he : e.step py shut g = some e') : e'.Heard := by
  rcases step_desk he with hd | ⟨b, r, hg, hb, rfl⟩ | ⟨x, rfl⟩
  · apply h.mono
    · exact fun id hid => .inl (hd ▸ hid)
    · exact fun id r hf => hd ▸ hf
    · rw [hd]
    · rw [hd]
    · exact step_terminal he
  · exact h.answer hs (hok b r hg hb)
  · exact h.failAll x

end Engine

namespace State

variable {s s' : State} {t : Tid}

theorem Called.heard (hc : Called s s' t) (h : s.toEngine.Heard) : s'.toEngine.Heard := by
  obtain ⟨hdone, hresponses⟩ := hc.done
  refine h.mono ?_ hdone hresponses ?_ ?_
  · intro id hid
    cases hc.move with
    | inert _ he => exact .inl (he ▸ hid)
    | closes _ _ _ he =>
      rw [he, s.toEngine.createCloseTask_desk] at hid
      exact .inl hid
    | starts _ _ _ he =>
      rw [he, s.toEngine.createReadTask_desk] at hid
      exact .inl hid
    | sends m q _ _ _ _ he =>
      rw [he] at hid
      rcases List.mem_append.1 hid with hid | hid
      · exact .inl hid
      · exact .inr (List.mem_singleton.1 hid)
    | refused _ _ _ he =>
      rw [he] at hid
      rcases List.mem_append.1 (List.mem_of_mem_erase hid) with hid | hid
      · exact .inl hid
      · exact .inr (List.mem_singleton.1 hid)
    | ends i _ _ he =>
      rw [he] at hid
      exact .inl (List.mem_of_mem_erase hid)
    | cancels i _ _ he =>
      rw [he] at hid
      exact .inl ((s.desk.cancel_frame i).2.2.1 ▸ hid)
  · cases hc.move with
    | inert _ he => rw [he]
    | closes _ _ _ he => rw [he, s.toEngine.createCloseTask_desk]
    | starts _ _ _ he => rw [he, s.toEngine.createReadTask_desk]
    | sends m q _ _ _ _ he =>
      rw [he]
      exact Nat.le_succ _
    | refused _ _ _ he =>
      rw [he]
      exact Nat.le_succ _
    | ends i _ _ he =>
      rw [he]
      exact Nat.le_refl _
    | cancels i _ _ he =>
      rw [he]
      exact Nat.le_of_eq (s.desk.cancel_frame i).2.1.symm
  · intro hx
    cases hc.move with
    | inert _ he => exact he ▸ hx
    | closes _ _ _ he =>
      rw [he, s.toEngine.createCloseTask_frame.2]
      exact hx
    | starts _ _ hn _ => exact absurd hn hx
    | sends _ _ _ _ hn _ _ => exact absurd hn hx
    | refused _ _ hn _ => exact absurd hn hx
    | ends _ _ _ he => exact he ▸ hx
    | cancels _ _ _ he => exact he ▸ hx

/-- `fail` of a config transition fences the client, but for an error response on a live stream. -/
theorem fail_fences {v : Value} (hop : (s.calls t).op = .prepareConfigTransition v) (e : Raised)
    (he : isProtocolError e = false ∨ s.closedExc ≠ none) :
    (s.fail t e).restartRequired = true := by
  unfold fail
  simp only [hop]
  split
  · rfl
  · have hcond : (isProtocolError e && s.closedExc.isNone) = false := by
      rcases he with he | he
      · rw [he]
        rfl
      · cases hx : s.closedExc with
        | none => exact absurd hx he
        | some x => exact Bool.and_false _
    rw [hcond]
    rfl

theorem lifecycleSection_ends {py : Interpreter} {w : Bool} {r : Except Raised Value}
    (h : ((s.lifecycleSection py t w).calls t).pc = .finished r) :
    (∃ e, r = .error e) ∧ ((s.lifecycleSection py t w).calls t).id = (s.calls t).id := by
  have hrefuse : ∀ (s' : State) (e : Raised), s'.calls = s.calls →
      ((s'.finish t (.error e)).calls t).pc = .finished r →
      (∃ e, r = .error e) ∧ ((s'.finish t (.error e)).calls t).id = (s.calls t).id := by
    intro s' e hs hr
    rw [finish_calls, hs] at hr ⊢
    cases hr
    exact ⟨⟨e, rfl⟩, rfl⟩
  have hrequest : ∀ (s' : State) (m : Str) (q : Dict), (s'.calls t).id = (s.calls t).id →
      ((s'.request py t m q w).calls t).pc = .finished r →
      (∃ e, r = .error e) ∧ ((s'.request py t m q w).calls t).id = (s.calls t).id := by
    intro s' m q hid hr
    rcases request_outcome py s' t m q w with ⟨e, he⟩ | ⟨-, he, -⟩
    · rw [he] at hr ⊢
      cases hr
      exact ⟨⟨e, rfl⟩, hid⟩
    · rw [he] at hr
      cases hr
  unfold lifecycleSection at h ⊢
  cases hop : (s.calls t).op with
  | prepareConfigTransition v =>
    simp only [hop] at h ⊢
    unfold transition at h ⊢
    dsimp only at h ⊢
    split_ifs at h ⊢
    · exact hrefuse _ _ rfl h
    · exact hrefuse _ _ rfl h
    · cases hcap : s.configTransitionCapabilities with
      | none =>
        simp only [hcap] at h ⊢
        exact hrefuse _ _ rfl h
      | some c =>
        simp only [hcap] at h ⊢
        refine hrequest _ _ _ ?_ h
        simp only [setCall, Function.update_self]
  | _ =>
    simp only [hop] at h ⊢
    unfold shutdownSection at h ⊢
    split_ifs at h ⊢
    · exact hrefuse _ _ rfl h
    · exact hrequest _ _ _ rfl h

theorem invoke_ends {py : Interpreter} {p : Str} {w : Bool} {v : Value} {r : Except Raised Value}
    (hop : (s.calls t).op = .prepareConfigTransition v)
    (h : ((s.invoke py p t w).calls t).pc = .finished r) :
    (∃ e, r = .error e) ∧ ((s.invoke py p t w).calls t).id = (s.calls t).id := by
  have hrefuse : ∀ e, ((s.finish t (.error e)).calls t).pc = .finished r →
      (∃ e, r = .error e) ∧ ((s.finish t (.error e)).calls t).id = (s.calls t).id := by
    intro e hr
    rw [finish_calls] at hr ⊢
    cases hr
    exact ⟨⟨e, rfl⟩, rfl⟩
  unfold invoke at h ⊢
  cases v with
  | dict d =>
    simp only [hop] at h ⊢
    cases hcap : s.configTransitionCapabilities with
    | none =>
      simp only [hcap] at h ⊢
      exact hrefuse _ h
    | some c =>
      simp only [hcap] at h ⊢
      unfold enterLifecycle at h ⊢
      cases hl : s.lifecycleLock.acquire t with
      | mk l owns =>
        cases owns with
        | true =>
          simp only [hl] at h ⊢
          exact lifecycleSection_ends h
        | false =>
          simp only [hl, setPc, setCall, Function.update_self] at h
          cases h
  | _ =>
    simp only [hop] at h ⊢
    exact hrefuse _ h

/-- The response that ended a config transition. -/
def Replied (responses : List JsonRpcResponse) (c : Call) (answer : Answer) : Prop :=
  ∃ id x, c.id = some id ∧ First responses id x ∧ x.answer = answer

/-- What a config transition has heard when it ends: its result is that of its response, and it
raises without a fence where it was not sent, its response is an error, or the action of its
response has no hash. -/
structure Ends (s s' : State) (t : Tid) (r : Except Raised Value) : Prop where
  returns : ∀ w, r = .ok w → ∃ d o, Replied s.desk.responses (s'.calls t) (.result (.dict d)) ∧
    Transition.fromDict d = .ok o ∧ w = o.toDict
  raises : ∀ e, r = .error e → s'.restartRequired = s.restartRequired →
    (s'.calls t).id = none ∨
    (∃ failure, Replied s.desk.responses (s'.calls t) (.error failure)) ∨
    ∃ d, Replied s.desk.responses (s'.calls t) (.result (.dict d)) ∧
      Transition.fromDict d = .error .unhashable

theorem Ends.unsent {e : Raised} (hid : (s'.calls t).id = none) : Ends s s' t (.error e) where
  returns w hw := by cases hw
  raises _ _ _ := .inl hid

theorem Ends.fenced {e : Raised} (hf : s.restartRequired = false)
    (hr : s'.restartRequired = true) : Ends s s' t (.error e) where
  returns w hw := by cases hw
  raises _ _ hcalm := by
    rw [hf, hr] at hcalm
    cases hcalm

theorem completeTransition_ends {d : Desk} {id : Nat} {x : JsonRpcResponse} {u : Value}
    {r : Except Raised Value} (hf : s.restartRequired = false) (hid : (s.calls t).id = some id)
    (hx : First s.desk.responses id x) (ha : x.answer = .result u)
    (h : ((({ s with desk := d } : State).completeTransition t u).calls t).pc = .finished r) :
    Ends s (({ s with desk := d } : State).completeTransition t u) t r := by
  have hfence : ∀ (s' : State) (e : Raised), s'.restartRequired = true →
      ((s'.finish t (.error e)).calls t).pc = .finished r → Ends s (s'.finish t (.error e)) t r := by
    intro s' e hr hpc
    rw [finish_calls] at hpc
    cases hpc
    exact .fenced hf hr
  have hreplied : ∀ (s' : State) (q : Except Raised Value), s'.calls = s.calls →
      Replied s.desk.responses ((s'.finish t q).calls t) (.result u) := by
    intro s' q hs
    refine ⟨id, x, ?_, hx, ha⟩
    rw [finish_calls, hs]
    exact hid
  unfold completeTransition at h ⊢
  dsimp only at h ⊢
  cases u with
  | dict body =>
    cases ho : Transition.fromDict body with
    | error m =>
      cases m with
      | protocol =>
        simp only [ho] at h ⊢
        exact hfence _ _ rfl h
      | unhashable =>
        simp only [ho] at h ⊢
        have hpc := h
        rw [finish_calls] at hpc
        cases hpc
        constructor
        · intro w hw
          cases hw
        · intro e _ _
          exact .inr (.inr ⟨body, hreplied _ _ rfl, ho⟩)
    | ok o =>
      have hok : ∀ (s' : State), s'.calls = s.calls →
          ((s'.finish t (.ok o.toDict)).calls t).pc = .finished r →
          Ends s (s'.finish t (.ok o.toDict)) t r := by
        intro s' hs hpc
        rw [finish_calls] at hpc
        cases hpc
        constructor
        · intro w hw
          cases hw
          exact ⟨body, o, hreplied _ _ hs, ho, rfl⟩
        · intro e he
          cases he
      cases o with
      | restart =>
        simp only [ho] at h ⊢
        exact hok _ rfl h
      | applied =>
        simp only [ho] at h ⊢
        split at h
        · rename_i hlive
          rw [if_pos hlive]
          exact hok _ rfl h
        · rename_i hlive
          rw [if_neg hlive]
          exact hfence _ _ rfl h
  | _ => exact hfence _ _ rfl h

/-- A config transition that awaited its response. -/
theorem resume_ends {py : Interpreter} {p : Str} {w : Bool} {v : Value} {id : Nat}
    {r : Except Raised Value} (hl : s.Leased) (hh : s.toEngine.Heard) (hsound : (s.calls t).Sound)
    (hop : (s.calls t).op = .prepareConfigTransition v) (h₀ : (s.calls t).pc.awaiting = some id)
    (h : s.resume py p t w = some s') (hr : (s'.calls t).pc = .finished r) : Ends s s' t r := by
  have hf := hl.fresh t v id hop h₀
  have hid := hsound.id id h₀
  -- the request raised
  have hunwind : ∀ i e, isProtocolError e = false ∨ s.closedExc ≠ none →
      ((s.unwind t i e).calls t).pc = .finished r → Ends s (s.unwind t i e) t r := by
    intro i e he hpc
    obtain ⟨e', hcall⟩ := fail_call ({ s with desk := s.desk.abandon i } : State) t e
    have hfenced : (s.unwind t i e).restartRequired = true :=
      fail_fences (s := ({ s with desk := s.desk.abandon i } : State)) hop e he
    unfold unwind at hpc
    rw [hcall] at hpc
    cases hpc
    exact .fenced hf hfenced
  unfold resume at h
  dsimp only at h
  split at h
  · rename_i hpc
    rw [hpc] at h₀
    cases h₀
  · split_ifs at h
    · cases h
      exact hunwind _ _ (.inl rfl) hr
    · cases h
      simp only [setPc, setCall, Function.update_self] at hr
      cases hr
    · cases h
      exact hunwind _ _ (.inl rfl) hr
  · rename_i i hpc
    rw [hpc] at h₀
    cases h₀
    split at h
    · cases h
    · cases h
      exact hunwind _ _ (.inl rfl) hr
    · rename_i q hq
      split_ifs at h
      · cases h
        exact hunwind _ _ (.inl rfl) hr
      · split at h
        · rename_i u
          cases h
          obtain ⟨x, hx, ha⟩ := hh.result id u hq
          have hcomplete : ({ s with desk := s.desk.abandon id } : State).complete py p t u =
              ({ s with desk := s.desk.abandon id } : State).completeTransition t u := by
            unfold complete
            simp only [hop]
          rw [hcomplete] at hr ⊢
          exact completeTransition_ends hf hid hx ha hr
        · rename_i m
          cases h
          obtain ⟨x, failure, hx, ha⟩ := hh.error id m hq
          obtain ⟨e', hcall⟩ :=
            fail_call ({ s with desk := s.desk.abandon id } : State) t (.remote m)
          unfold unwind at hr ⊢
          have hpc' := hr
          rw [hcall] at hpc'
          cases hpc'
          constructor
          · intro u hu
            cases hu
          · intro e _ _
            refine .inr (.inl ⟨failure, id, x, ?_, hx, ha⟩)
            rw [hcall]
            exact hid
        · rename_i x
          cases h
          exact hunwind _ _ (.inr (hh.terminal id x hq)) hr
  · rename_i hpc
    rw [hpc] at h₀
    cases h₀
  · cases h

/-- A config transition that had not sent its request. -/
theorem parked_ends {py : Interpreter} {p : Str} {w : Bool} {v : Value} {r : Except Raised Value}
    (hl : s.Leased) (hop : (s'.calls t).op = .prepareConfigTransition v)
    (h₀ : (s.calls t).pc.awaiting = none) (h : s.resume py p t w = some s')
    (hr : (s'.calls t).pc = .finished r) : Ends s s' t r := by
  unfold resume at h
  dsimp only at h
  split at h
  · rename_i hpc
    have hid := ((hl.parked t).queued hpc).unsent
    have hcancelled : ∀ l, (((({ s with lifecycleLock := l } : State).finish t
        (.error .cancelled))).calls t).pc = .finished r →
        Ends s (({ s with lifecycleLock := l } : State).finish t (.error .cancelled)) t r := by
      intro l hfin
      rw [finish_calls] at hfin
      cases hfin
      apply Ends.unsent
      rw [finish_calls]
      exact hid
    split_ifs at h
    · cases h
      exact hcancelled _ hr
    · cases h
      exact hcancelled _ hr
    · cases h
      obtain ⟨⟨e, rfl⟩, hsame⟩ := lifecycleSection_ends hr
      exact .unsent (hsame.trans hid)
  · rename_i hpc
    rw [hpc] at h₀
    cases h₀
  · rename_i hpc
    rw [hpc] at h₀
    cases h₀
  · rename_i hpc
    have hclose := (hl.parked t).closing hpc
    have hno : ∀ q, ((s.finish t q).calls t).op ≠ .prepareConfigTransition v := by
      intro q hq
      rw [finish_calls] at hq
      exact absurd (hclose.symm.trans hq) Op.noConfusion
    split_ifs at h
    · cases h
      exact absurd hop (hno _)
    · split at h
      · cases h
        exact absurd hop (hno _)
      · cases h
  · cases h

end State

variable {py : Interpreter} {p : Str} {s s' : State} {a : Action} {t : Tid}

/-- What a config transition has heard when it ends. -/
theorem transition_ends {v : Value} {r : Except Raised Value} (ht : s.Tabled) (hl : s.Leased)
    (hh : s.toEngine.Heard) (h : step py p s a = some s')
    (hop : (s'.calls t).op = .prepareConfigTransition v)
    (hr : (s'.calls t).pc = .finished r) (hopen : ∀ r, (s.calls t).pc ≠ .finished r) :
    State.Ends s s' t r := by
  have hsame : s'.calls t ≠ s.calls t := by
    intro hs
    rw [hs] at hr
    exact hopen r hr
  rcases step_cases h ht with ⟨u, hcaller, hc⟩ | ⟨g, e, rfl, he, rfl⟩
  · have hu : t = u := by
      by_contra hne
      exact hsame (hc.others t hne)
    subst hu
    cases a with
    | call u op w =>
      cases hcaller
      simp only [step] at h
      split at h
      · cases h
        have hcall : (s.setCall t { op }).calls t = { op } := by
          simp only [State.setCall, Function.update_self]
        have hopv : ((s.setCall t { op }).calls t).op = .prepareConfigTransition v :=
          (congrFun (State.invoke_ops (s.setCall t { op }) w) t).symm.trans hop
        obtain ⟨⟨e, rfl⟩, hid⟩ := State.invoke_ends hopv hr
        rw [hcall] at hid
        exact .unsent hid
      · cases h
    | resume u w =>
      cases hcaller
      cases h₀ : (s.calls t).pc.awaiting with
      | some id =>
        obtain ⟨pc, hcall, -⟩ := State.resume_awaiting h₀ h
        rw [hcall] at hop
        exact State.resume_ends hl hh (ht.calls t) hop h₀ h hr
      | none => exact State.parked_ends hl hop h₀ h hr
    | cancel u =>
      cases hcaller
      rw [(State.cancel_call h).1] at hr
      exact absurd hr (hopen r)
    | signal g => cases hcaller
  · exact absurd rfl hsame

/-- The responses that a client has read stay. -/
theorem step_responses (ht : s.Tabled) (h : step py p s a = some s') :
    ∃ new, s'.desk.responses = s.desk.responses ++ new := by
  rcases step_cases h ht with ⟨t, -, hc⟩ | ⟨g, e, rfl, he, rfl⟩
  · exact ⟨[], by rw [hc.done.2, List.append_nil]⟩
  · rcases Engine.step_desk he with hd | ⟨b, r, -, -, rfl⟩ | ⟨x, rfl⟩
    · refine ⟨[], ?_⟩
      show e.desk.responses = _
      rw [hd, List.append_nil]
    · exact ⟨[r], (s.desk.answer_frame r).2.2⟩
    · exact ⟨[], (List.append_nil _).symm⟩

theorem Replied.append {rs : List JsonRpcResponse} {c : Call} {answer : Answer}
    (h : State.Replied rs c answer) (new : List JsonRpcResponse) :
    State.Replied (rs ++ new) c answer := by
  obtain ⟨id, x, hid, hx, ha⟩ := h
  exact ⟨id, x, hid, hx.append new, ha⟩

/-- What holds of a client whose peer answers its requests only. -/
structure State.Told (s : State) : Prop where
  tabled : s.Tabled
  leased : s.Leased
  heard : s.toEngine.Heard
  returned : ∀ t v w, (s.calls t).op = .prepareConfigTransition v →
    (s.calls t).pc = .finished (.ok w) → ∃ d o,
      State.Replied s.desk.responses (s.calls t) (.result (.dict d)) ∧
        Transition.fromDict d = .ok o ∧ w = o.toDict

theorem step_told (h : (answering py p).step s a = some s') (hs : s.Told) : s'.Told := by
  obtain ⟨hok, h⟩ := Machine.restrict_step h
  have ht := (step_tabled h hs.tabled).2
  have hl := step_leased h hs.tabled hs.leased
  have hh : s'.toEngine.Heard := by
    rcases step_cases h hs.tabled with ⟨t, -, hc⟩ | ⟨g, e, rfl, he, rfl⟩
    · exact hc.heard hs.heard
    · refine hs.heard.step hs.tabled.desk (fun b r hg hb => ?_) he
      subst hg
      exact solicited_cases hok hb
  refine ⟨ht, hl, hh, fun t v w hop hpc => ?_⟩
  obtain ⟨new, hnew⟩ := step_responses hs.tabled h
  by_cases hopen : ∃ r, (s.calls t).pc = .finished r
  · obtain ⟨r, hr⟩ := hopen
    have hsame := finished_same hs.tabled hr h
    rw [hsame] at hop hpc ⊢
    obtain ⟨d, o, hreplied, ho, hw⟩ := hs.returned t v w hop hpc
    exact ⟨d, o, hnew ▸ Replied.append hreplied new, ho, hw⟩
  · have hends := transition_ends hs.tabled hs.leased hs.heard h hop hpc
      fun r hr => hopen ⟨r, hr⟩
    obtain ⟨d, o, hreplied, ho, hw⟩ := hends.returns w rfl
    exact ⟨d, o, hnew ▸ Replied.append hreplied new, ho, hw⟩

theorem State.Told.start : State.Told {} := by
  refine ⟨.start, .start, .start, fun t v w _ hpc => ?_⟩
  cases hpc

end KestrelSdk.Client
