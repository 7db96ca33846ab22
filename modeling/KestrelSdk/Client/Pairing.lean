import KestrelSdk.Client.Table

namespace KestrelSdk.Client

open Json Protocol Asyncio

/-- A response under the identifier `true` while request 1 is pending: Python finds the key `1`
with it. -/
def impersonates (py : Interpreter) (s : State) : Action → Bool
  | .signal (.line b) =>
    match decodeMessage py b with
    | .ok (.response ⟨.bool true, _⟩) => decide (1 ∈ s.desk.pending)
    | _ => false
  | _ => false

/-- A client whose peer never answers request 1 under the identifier `true`. -/
def paired (py : Interpreter) (p : Str) : Machine State Action :=
  (machine py p).restrict fun s a => !impersonates py s a

namespace Desk

/-- A result or a remote error comes from a response under the very identifier of the request. -/
structure Answered (d : Desk) : Prop where
  result : ∀ id v, d.futures id = .done (.ok v) →
    ∃ x ∈ d.responses, x.id = .int id ∧ x.answer = .result v
  error : ∀ id text, d.futures id = .done (.error (.remote text)) →
    ∃ x ∈ d.responses, ∃ e, x.id = .int id ∧ x.answer = .error e ∧ e.message = text

variable {d d' : Desk}

theorem Answered.mono (h : d.Answered)
    (hd : ∀ id r, d'.futures id = .done r → d.futures id = .done r ∨ ∃ x, r = .error (.terminal x))
    (hr : ∀ x ∈ d.responses, x ∈ d'.responses) : d'.Answered where
  result id v hv := by
    rcases hd id _ hv with h₁ | ⟨x, hx⟩
    · obtain ⟨x, hx, h₂⟩ := h.result id v h₁
      exact ⟨x, hr x hx, h₂⟩
    · cases hx
  error id text ht := by
    rcases hd id _ ht with h₁ | ⟨x, hx⟩
    · obtain ⟨x, hx, h₂⟩ := h.error id text h₁
      exact ⟨x, hr x hx, h₂⟩
    · cases hx

/-- The key that a response finds is its integer identifier, unless it impersonates request 1. -/
theorem Sound.keyOf_pending (h : d.Sound) {v : Value} {id : Nat} (hk : keyOf v = some id)
    (hm : id ∈ d.pending) : v = .int id ∨ v = .bool true ∧ 1 ∈ d.pending := by
  have hpos := (h.pending id hm).1
  cases v with
  | int i =>
    simp only [keyOf] at hk
    split at hk
    · rename_i hi
      cases hk
      exact .inl (by rw [Int.toNat_of_nonneg hi])
    · cases hk
  | bool b =>
    cases hk
    cases b with
    | true => exact .inr ⟨rfl, hm⟩
    | false => simp at hpos
  | _ => cases hk

theorem settle_done {id i : Nat} {r q : Except Failure Value}
    (h : (d.settle id r).futures i = .done q) : d.futures i = .done q ∨ i = id ∧ q = r := by
  unfold settle at h
  split at h
  · simp only [Function.update_apply] at h
    split at h
    · rename_i hi
      cases h
      exact .inr ⟨hi, rfl⟩
    · exact .inl h
  · exact .inl h

theorem Answered.answer (h : d.Answered) (hs : d.Sound) {r : JsonRpcResponse}
    (hr : r.id = .bool true → 1 ∉ d.pending) : (d.answer r).Answered := by
  rcases d.answer_cases r with he | ⟨id, hm, hk, he⟩
  · rw [he]
    exact h.mono (fun _ _ hd => .inl hd) fun x hx => List.mem_append_left _ hx
  · have hid : r.id = .int id := by
      rcases hs.keyOf_pending hk hm with hid | ⟨hid, h1⟩
      · exact hid
      · exact absurd h1 (hr hid)
    have hlast : r ∈ (d.answer r).responses := by
      rw [(d.answer_frame r).2.2]
      exact List.mem_append_right _ (List.mem_singleton.2 rfl)
    have hold : ∀ x ∈ d.responses, x ∈ (d.answer r).responses := by
      intro x hx
      rw [(d.answer_frame r).2.2]
      exact List.mem_append_left _ hx
    have hdone : ∀ i q, (d.answer r).futures i = .done q →
        d.futures i = .done q ∨ i = id ∧ q = outcome r.answer := by
      intro i q hq
      rw [he] at hq
      have := settle_done hq
      exact this
    constructor
    · intro i v hv
      rcases hdone i _ hv with h₁ | ⟨rfl, hq⟩
      · obtain ⟨x, hx, h₂⟩ := h.result i v h₁
        exact ⟨x, hold x hx, h₂⟩
      · refine ⟨r, hlast, hid, ?_⟩
        cases ha : r.answer with
        | result w =>
          rw [ha] at hq
          cases hq
          rfl
        | error e =>
          rw [ha] at hq
          cases hq
    · intro i text ht
      rcases hdone i _ ht with h₁ | ⟨rfl, hq⟩
      · obtain ⟨x, hx, h₂⟩ := h.error i text h₁
        exact ⟨x, hold x hx, h₂⟩
      · cases ha : r.answer with
        | result w =>
          rw [ha] at hq
          cases hq
        | error e =>
          rw [ha] at hq
          cases hq
          exact ⟨r, hlast, e, hid, ha, rfl⟩

end Desk

namespace State

variable {s s' : State} {t : Tid}

/-- A step of a call settles no future with a result or an error. -/
theorem Called.done (hc : Called s s' t) :
    (∀ id r, s'.desk.futures id = .done r → s.desk.futures id = .done r) ∧
      s'.desk.responses = s.desk.responses := by
  have henroll : ∀ id r, s.desk.enroll.futures id = .done r → s.desk.futures id = .done r := by
    intro id r h
    simp only [Desk.enroll, Function.update_apply] at h
    split at h
    · cases h
    · exact h
  have hcancel : ∀ i id r, (s.desk.cancel i).futures id = .done r → s.desk.futures id = .done r := by
    intro i id r h
    unfold Desk.cancel at h
    split at h
    · simp only [Function.update_apply] at h
      split at h
      · cases h
      · exact h
    · exact h
  cases hc.move with
  | inert _ he => rw [show s'.desk = s.desk from congrArg Engine.desk he]; exact ⟨fun _ _ h => h, rfl⟩
  | closes _ _ _ he =>
    rw [show s'.desk = s.createCloseTask.desk from congrArg Engine.desk he,
      s.toEngine.createCloseTask_desk]
    exact ⟨fun _ _ h => h, rfl⟩
  | starts _ _ _ he =>
    rw [show s'.desk = s.createReadTask.desk from congrArg Engine.desk he,
      s.toEngine.createReadTask_desk]
    exact ⟨fun _ _ h => h, rfl⟩
  | sends m q _ _ _ _ he =>
    rw [show s'.desk = s.desk.enroll.write m q from congrArg Engine.desk he]
    exact ⟨henroll, rfl⟩
  | refused _ _ _ he =>
    rw [show s'.desk = s.desk.enroll.abandon _ from congrArg Engine.desk he]
    exact ⟨henroll, rfl⟩
  | ends i _ _ he =>
    rw [show s'.desk = s.desk.abandon i from congrArg Engine.desk he]
    exact ⟨fun _ _ h => h, rfl⟩
  | cancels i _ _ he =>
    rw [show s'.desk = s.desk.cancel i from congrArg Engine.desk he]
    exact ⟨hcancel i, (s.desk.cancel_frame i).2.2.2⟩

end State

variable {py : Interpreter} {p : Str} {s s' : State} {a : Action}

theorem paired_answered (h : (paired py p).Reachable s) : s.desk.Answered := by
  have key := h.invariant (p := fun s => s.Tabled ∧ s.desk.Answered) ⟨.start, ?_⟩
    fun s a s' hs ha => ?_
  · exact key.2
  · constructor
    · intro id v hv
      cases hv
    · intro id text ht
      cases ht
  · obtain ⟨hok, ha⟩ := Machine.restrict_step ha
    refine ⟨(step_tabled ha hs.1).2, ?_⟩
    rcases step_cases ha hs.1 with ⟨t, -, hc⟩ | ⟨g, e, rfl, he, rfl⟩
    · obtain ⟨hd, hr⟩ := hc.done
      exact hs.2.mono (fun id r h => .inl (hd id r h)) fun x hx => hr ▸ hx
    · show e.desk.Answered
      rcases Engine.step_desk he with hd | ⟨b, r, rfl, hb, rfl⟩ | ⟨x, rfl⟩
      · rw [hd]
        exact hs.2
      · refine hs.2.answer hs.1.desk fun hid hm => ?_
        obtain ⟨rid, ans⟩ := r
        cases hid
        simp [impersonates, hb, hm] at hok
      · refine hs.2.mono (fun id r h => ?_) fun x hx => hx
        simp only [Engine.endRead, Desk.failAll] at h
        split at h
        · split at h
          · cases h
            exact .inr ⟨x, rfl⟩
          · cases h
        · exact .inl h

/-- A call that has ended takes no further step. -/
theorem finished_same {t : Tid} {r : Except Raised Value} (hs : s.Tabled)
    (hr : (s.calls t).pc = .finished r) (h : step py p s a = some s') : s'.calls t = s.calls t := by
  rcases step_cases h hs with ⟨u, hu, hc⟩ | ⟨g, e, -, -, rfl⟩
  · by_cases htu : t = u
    · subst htu
      cases a with
      | call v op w =>
        cases hu
        simp [step, hr] at h
      | resume v ok =>
        cases hu
        simp [step, State.resume, hr] at h
      | cancel v =>
        cases hu
        simp [step, State.cancel, hr] at h
      | signal g => cases hu
    · exact hc.others t htu
  · rfl

theorem finished_stays {t : Tid} {r : Except Raised Value} (hs : s.Tabled)
    (hr : (s.calls t).pc = .finished r) (h : step py p s a = some s') :
    (s'.calls t).pc = .finished r := by
  rw [finished_same hs hr h]
  exact hr

/-- What a response frame changes: at most the pending future under its own integer identifier. -/
theorem response_changes {b : Bytes} {r : JsonRpcResponse} (hs : s.Tabled)
    (hb : decodeMessage py b = .ok (.response r))
    (hr : impersonates py s (.signal (.line b)) = false)
    (h : step py p s (.signal (.line b)) = some s') :
    s'.calls = s.calls ∧ ∀ id, s'.desk.futures id ≠ s.desk.futures id →
      r.id = .int id ∧ id ∈ s.desk.pending ∧ s.desk.futures id = .pending := by
  obtain ⟨e, he, rfl⟩ := Option.map_eq_some_iff.1 h
  refine ⟨rfl, fun id hid => ?_⟩
  simp only [Engine.step] at he
  split at he
  · cases he
    simp only [Engine.readLine, hb, Engine.readMessage, State.setEngine] at hid
    have hp : s.desk.futures id = .pending := by
      by_contra hne
      exact hid (s.desk.answer_keeps r id hne)
    rcases s.desk.answer_cases r with ha | ⟨i, hm, hk, ha⟩
    · rw [ha] at hid
      exact absurd rfl hid
    · have hi : id = i := by
        by_contra hne
        apply hid
        rw [ha]
        unfold Desk.settle
        split
        · exact Function.update_of_ne hne _ _
        · rfl
      subst hi
      refine ⟨?_, hm, hp⟩
      rcases hs.desk.keyOf_pending hk hm with h₁ | ⟨h₁, h₂⟩
      · exact h₁
      · obtain ⟨rid, ans⟩ := r
        cases h₁
        simp [impersonates, hb, h₂] at hr
  · cases he

/-- Requests and responses pair up as long as no response is read under the identifier `true`
while request 1 is pending. -/
theorem responses_paired (h : (paired py p).Reachable s) :
    (s.desk.written.map Frame.id).Nodup ∧
    (∀ id v, s.desk.futures id = .done (.ok v) →
      ∃ x ∈ s.desk.responses, x.id = .int id ∧ x.answer = .result v) ∧
    (∀ id text, s.desk.futures id = .done (.error (.remote text)) →
      ∃ x ∈ s.desk.responses, ∃ e, x.id = .int id ∧ x.answer = .error e ∧ e.message = text) ∧
    (∀ t u id, (s.calls t).id = some id → (s.calls u).id = some id → t = u) ∧
    (∀ t m q v, (s.calls t).op = .request m q → (s.calls t).pc = .finished (.ok v) →
      ∃ id, (s.calls t).id = some id ∧ ⟨id, m, q⟩ ∈ s.desk.written ∧
        ∃ x ∈ s.desk.responses, x.id = .int id ∧ x.answer = .result v) ∧
    (∀ t m q text, (s.calls t).op = .request m q →
      (s.calls t).pc = .finished (.error (.remote text)) →
      ∃ id, (s.calls t).id = some id ∧ ⟨id, m, q⟩ ∈ s.desk.written ∧
        ∃ x ∈ s.desk.responses, ∃ e, x.id = .int id ∧ x.answer = .error e ∧ e.message = text) ∧
    (∀ a s', (paired py p).step s a = some s' →
      (∀ id, s.desk.futures id ≠ .pending → s'.desk.futures id = s.desk.futures id) ∧
      ∀ t r, (s.calls t).pc = .finished r → (s'.calls t).pc = .finished r) ∧
    ∀ b r s', decodeMessage py b = .ok (.response r) →
      (paired py p).step s (.signal (.line b)) = some s' →
      s'.calls = s.calls ∧ ∀ id, s'.desk.futures id ≠ s.desk.futures id →
        r.id = .int id ∧ id ∈ s.desk.pending ∧ s.desk.futures id = .pending := by
  have ht : s.Tabled := reachable_tabled h.of_restrict
  have ha : s.desk.Answered := paired_answered h
  refine ⟨ht.desk.written.imp Nat.ne_of_lt, ha.result, ha.error, ht.distinct, ?_, ?_, ?_, ?_⟩
  · intro t m q v hop hpc
    obtain ⟨id, hid, hf⟩ := (ht.faithful t m q _ hop hpc).1 v rfl
    exact ⟨id, hid, ht.wrote t m q id hop hid, ha.result id v hf⟩
  · intro t m q text hop hpc
    obtain ⟨id, hid, hf⟩ := (ht.faithful t m q _ hop hpc).2 text rfl
    exact ⟨id, hid, ht.wrote t m q id hop hid, ha.error id text hf⟩
  · intro a s' hs
    obtain ⟨-, hs⟩ := Machine.restrict_step hs
    exact ⟨(step_tabled hs ht).1, fun t r hr => finished_stays ht hr hs⟩
  · intro b r s' hb hs
    obtain ⟨hok, hs⟩ := Machine.restrict_step hs
    exact response_changes (p := p) ht hb (by simpa using hok) hs

/-- A client with one request on its way. -/
def asked : State :=
  (machine .floatless []).after
    [.call 0 (.request (str "echo") []) true, .signal .begin, .resume 0 true]

theorem asked_reachable : (paired .floatless []).Reachable asked :=
  ⟨[.call 0 (.request (str "echo") []) true, .signal .begin, .resume 0 true], rfl⟩

/-- A result under `1` ends the request. -/
theorem responses_paired_result :
    ∃ s, (paired .floatless []).Reachable s ∧
      (s.calls 0).pc = .finished (.ok .none) ∧
      ∃ id, (s.calls 0).id = some id ∧ ⟨id, str "echo", []⟩ ∈ s.desk.written ∧
        ∃ x ∈ s.desk.responses, x.id = .int id ∧ x.answer = .result .none := by
  let r : JsonRpcResponse := ⟨.int 1, .result .none⟩
  obtain ⟨b, hb⟩ : ∃ b, encodeMessage .floatless r.toDict = .ok b := ⟨_, rfl⟩
  have hline : (paired .floatless []).step asked (.signal (.line b)) =
      some (asked.setEngine (asked.readMessage (.response r))) := by
    refine Machine.step_restrict ?_ (step_line rfl hb (by decide) rfl)
    have hd : decodeMessage .floatless b = .ok (.response r) := by
      rw [decodeMessage_encodeMessage hb]
      rfl
    simp only [impersonates, hd]
    rfl
  have hend : (paired .floatless []).step (asked.setEngine (asked.readMessage (.response r)))
      (.resume 0 true) = some _ := rfl
  have hreach := (asked_reachable.step hline).step hend
  exact ⟨_, hreach, rfl, (responses_paired hreach).2.2.2.2.1 0 (str "echo") [] .none rfl rfl⟩

/-- A result under `true` ends request 1 as well. -/
theorem true_answers_request_one :
    ∃ s, (machine .floatless []).Reachable s ∧ (s.calls 0).pc = .finished (.ok .none) ∧
      (s.calls 0).id = some 1 ∧ ∀ x ∈ s.desk.responses, x.id = .bool true := by
  let r : JsonRpcResponse := ⟨.bool true, .result .none⟩
  obtain ⟨b, hb⟩ : ∃ b, encodeMessage .floatless r.toDict = .ok b := ⟨_, rfl⟩
  have hline : (machine .floatless []).step asked (.signal (.line b)) =
      some (asked.setEngine (asked.readMessage (.response r))) :=
    step_line rfl hb (by decide) rfl
  have hend : (machine .floatless []).step (asked.setEngine (asked.readMessage (.response r)))
      (.resume 0 true) = some _ := rfl
  refine ⟨_, (asked_reachable.of_restrict.step hline).step hend, rfl, rfl, fun x hx => ?_⟩
  have hr : x ∈ [r] := hx
  cases List.mem_singleton.1 hr
  rfl

end KestrelSdk.Client
