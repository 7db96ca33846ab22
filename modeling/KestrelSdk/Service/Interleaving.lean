import KestrelSdk.Service.Jobs
import KestrelSdk.Service.Posting

/-! A service as the interleaving of its jobs, whatever breaks and whatever is cancelled. -/

namespace KestrelSdk.Service

open Json Protocol Asyncio Server

/-- The job that takes a step: the one that the action names, or the one that it brings. -/
def actor (rt : Runtime) (s : Server) : Action → Option Nat
  | .onInitialize i => some i
  | a =>
    match brings rt s a with
    | [] => a.own
    | _ => some s.jobs.length

/-- A new job, where it stands, and the loop beside it. -/
inductive Fresh (s : Server) : Work → JobPc → LoopPc → Prop where
  | request (r : JsonRpcRequest) (hi : isInline r.method = true) (hl : s.loop = .reading) :
      Fresh s (.request r) (.created r) (.awaiting s.jobs.length)
  | malformed (text : Str) (hl : s.loop = .reading) :
      Fresh s (.malformed text) (.locking (malformedResponse text).toDict none)
        (.awaiting s.jobs.length)
  | event (params : Dict) :
      Fresh s (.event params) (.locking (JsonRpcNotification.toDict ⟨FEATURE_EVENT, params⟩) none)
        s.loop

/-- A step of a service is a step of one of its jobs, or touches none. -/
inductive Interleaves (rt : Runtime) (s : Server) (a : Action) (s' : Server) : Prop where
  | turn (i : Nat) (p₀ : JobPc) (ha : actor rt s a = some i) (hb : brings rt s a = [])
      (hp : s.pc i = some p₀) (hs : Steps rt i p₀ s s')
  | creates (w : Work) (p₀ : JobPc) (loop : LoopPc) (ha : actor rt s a = some s.jobs.length)
      (hb : brings rt s a = [w]) (hw : Fresh s w p₀ loop)
      (hs : Steps rt s.jobs.length p₀ { s.create w p₀ with loop } s')
  | queues (r : JsonRpcRequest) (ha : actor rt s a = some s.jobs.length)
      (hb : brings rt s a = [.request r]) (hi : isInline r.method = false)
      (he : s' = s.create (.request r) (.created r))
  | configures (i : Nat) (r : JsonRpcRequest) (params config : Dict) (ha : actor rt s a = some i)
      (hb : brings rt s a = []) (hp : s.pc i = some (.awaiting r (.onInitialize params)))
      (he : s' = { s with life := { s.life with hostConfig := config } })
  | aside (ha : actor rt s a = none) (hb : brings rt s a = []) (hw : s'.works = s.works)
      (hp : s'.pc = s.pc) (hf : s'.frames = s.frames) (hlife : s'.life = s.life)
      (hl : ∀ j, s.loop = .awaiting j →
        s'.loop = .awaiting j ∧ (s.broken = true → s'.broken = true))

variable {rt : Runtime} {raised : DecodeError → Exn} {version : Str} {s s' : Server} {a : Action}
  {i : Nat} {life : Lifecycle} {p p₀ : JobPc} {new : List Sent} {w : Work}

namespace Moved

theorem works (h : Moved s s' i life p new) : s'.works = s.works := by
  have hw := works_setPc s i p
  unfold Server.works at hw ⊢
  rw [h.jobs, hw]

theorem pc_eq (h : Moved s s' i life p new) (j : Nat) : s'.pc j = (s.setPc i p).pc j := by
  unfold Server.pc
  rw [h.jobs]

theorem pc_self (h : Moved s s' i life p new) (hp : s.pc i = some p₀) : s'.pc i = some p := by
  rw [h.pc_eq, pc_setPc, if_pos rfl, hp]
  rfl

theorem pc_of_ne {j : Nat} (h : Moved s s' i life p new) (hj : j ≠ i) : s'.pc j = s.pc j := by
  rw [h.pc_eq, pc_setPc, if_neg (Ne.symm hj)]

end Moved

namespace Server

theorem works_create (s : Server) (w : Work) (p : JobPc) : (s.create w p).works = s.works ++ [w] :=
  List.map_append

theorem length_works (s : Server) : s.works.length = s.jobs.length := List.length_map ..

theorem pc_create_self (s : Server) (w : Work) (p : JobPc) :
    (s.create w p).pc s.jobs.length = some p := by
  unfold pc create
  rw [List.getElem?_concat_length]
  rfl

theorem pc_create_of_lt {j : Nat} (hj : j < s.jobs.length) : (s.create w p).pc j = s.pc j := by
  unfold pc create
  rw [List.getElem?_append_left hj]

theorem lt_of_pc {j : Nat} (h : s.pc j = some p) : j < s.jobs.length := by
  obtain ⟨job, hj, -⟩ := job_of_pc h
  exact (List.getElem?_eq_some_iff.1 hj).1

end Server

section Steps

theorem send_steps (rt : Runtime) (s : Server) (i : Nat) (data : Value) :
    Steps rt i (.locking data none) s (s.send rt i data none (escape i)) := by
  obtain ⟨p, new, hm, hp⟩ := send_offers rt s i data none
  exact ⟨s.life, p, new, hm, .sends data none p new hp⟩

theorem resume_interleaves (ha : actor rt s a = some i) (hb : brings rt s a = [])
    (h : (s.pc i).bind (s.resume rt i a) = some s') : Interleaves rt s a s' := by
  obtain ⟨p, hp, hs⟩ := Option.bind_eq_some_iff.1 h
  exact .turn i p ha hb hp (resume_steps hs)

theorem accept_interleaves {r : JsonRpcRequest} (hb : brings rt s a = [.request r])
    (ha : actor rt s a = some s.jobs.length) (hl : s.loop = .reading) :
    Interleaves rt s a (s.accept rt r) := by
  unfold accept
  cases hi : isInline r.method with
  | true =>
    simp only [if_true]
    exact .creates _ _ _ ha hb (.request r hi hl) (handleRequest_steps rt _ s.jobs.length r)
  | false =>
    simp only [Bool.false_eq_true, if_false]
    exact .queues r ha hb hi rfl

theorem readLine_interleaves (raised : DecodeError → Exn) {b : Bytes} (hl : s.loop = .reading) :
    Interleaves rt s (.line b) (s.readLine rt raised b) := by
  have hnot : ∀ j, s.loop ≠ .awaiting j := by
    intro j hj
    cases hl.symm.trans hj
  -- a line that brings no job
  have hnone : ∀ loop, brings rt s (.line b) = [] → Interleaves rt s (.line b) { s with loop } := by
    intro loop hb
    have ha : actor rt s (.line b) = none := by
      simp only [actor, hb]
      rfl
    exact .aside ha hb rfl rfl rfl rfl fun j hj => absurd hj (hnot j)
  have hsome : ∀ w, brings rt s (.line b) = [w] → actor rt s (.line b) = some s.jobs.length := by
    intro w hb
    simp only [actor, hb]
  unfold readLine
  by_cases hnil : b = []
  · rw [if_pos hnil]
    exact hnone _ (if_pos hnil)
  · rw [if_neg hnil]
    cases hd : decodeMessage rt.py b with
    | error e =>
      cases e with
      | protocol text =>
        have hb : brings rt s (.line b) = [.malformed text] := by
          simp only [brings, hd, hnil, if_false]
        exact .creates _ _ _ (hsome _ hb) hb (.malformed text hl) (send_steps rt _ _ _)
      | _ =>
        apply hnone
        simp only [brings, hd, hnil, if_false]
    | ok m =>
      cases m with
      | request r =>
        have hb : brings rt s (.line b) = [.request r] := by
          simp only [brings, hd, hnil, if_false]
        exact accept_interleaves hb (hsome _ hb) hl
      | _ =>
        have hb : brings rt s (.line b) = [] := by
          simp only [brings, hd, hnil, if_false]
        exact hnone s.loop hb

theorem emitEvent_interleaves (rt : Runtime) (s : Server) (params : Dict) :
    Interleaves rt s (.event params) (s.emitEvent rt params) := by
  unfold emitEvent
  by_cases hc : s.connected = true
  · have hb : brings rt s (.event params) = [.event params] := if_pos hc
    have ha : actor rt s (.event params) = some s.jobs.length := by
      simp only [actor, hb]
    rw [if_pos hc]
    exact .creates _ _ _ ha hb (.event params) (send_steps rt _ _ _)
  · have hb : brings rt s (.event params) = [] := if_neg hc
    have ha : actor rt s (.event params) = none := by
      simp only [actor, hb]
      rfl
    rw [if_neg hc]
    exact .aside ha hb rfl rfl rfl rfl fun j hj => ⟨hj, id⟩

/-- Every step is a step of one job, or touches none. -/
theorem step_interleaves (h : step rt raised version s a = some s') : Interleaves rt s a s' := by
  cases a with
  | serve =>
    simp only [step] at h
    split at h
    · rename_i hl
      cases h
      exact .aside rfl rfl rfl rfl rfl rfl fun j hj => by cases hl.symm.trans hj
    · cases h
  | line b =>
    simp only [step] at h
    split at h
    · rename_i hl
      cases h
      exact readLine_interleaves raised hl
    · cases h
  | readFails e =>
    simp only [step] at h
    split at h
    · rename_i hl
      cases h
      exact .aside rfl rfl rfl rfl rfl rfl fun j hj => by cases hl.symm.trans hj
    · cases h
  | close =>
    simp only [step] at h
    split at h
    · cases h
    · split at h
      · rename_i hl
        cases h
        exact .aside rfl rfl rfl rfl rfl rfl fun j hj => by cases hl.symm.trans hj
      · rename_i hl
        cases h
        exact .aside rfl rfl rfl rfl rfl rfl fun j hj => by cases hl.symm.trans hj
      · cases h
  | breaks =>
    cases h
    exact .aside rfl rfl rfl rfl rfl rfl fun j hj => ⟨hj, fun _ => rfl⟩
  | begin i => exact resume_interleaves rfl rfl h
  | hook i outcome => exact resume_interleaves rfl rfl h
  | locked i => exact resume_interleaves rfl rfl h
  | drained i e => exact resume_interleaves rfl rfl h
  | interrupted i => exact resume_interleaves rfl rfl h
  | cancel i =>
    have hworks : (s.jobs.modify i fun job => { job with cancelling := true }).map Job.work =
        s.jobs.map Job.work := by
      apply List.ext_getElem?
      intro j
      rw [List.getElem?_map, List.getElem?_map, List.getElem?_modify]
      split
      · cases s.jobs[j]? <;> rfl
      · cases s.jobs[j]? <;> rfl
    simp only [step] at h
    split at h
    · cases h
    · cases h
    · cases h
      exact .aside rfl rfl hworks (funext (pc_cancel s i)) rfl rfl fun j hj => ⟨hj, id⟩
  | registers registry =>
    cases h
    exact .aside rfl rfl rfl rfl rfl rfl fun j hj => ⟨hj, id⟩
  | event params =>
    cases h
    exact emitEvent_interleaves rt s params
  | onInitialize i =>
    simp only [step] at h
    split at h
    · rename_i r params hp
      cases h
      rcases onInitialize_cases version s params with ho | ⟨config, -, ho⟩
      · exact .configures i r params s.life.hostConfig rfl rfl hp ho
      · exact .configures i r params config rfl rfl hp ho
    · cases h
  | callTool name =>
    cases h
    rcases callTool_cases s name with ho | ⟨called, ho⟩
    · rw [ho]
      exact .aside rfl rfl rfl rfl rfl rfl fun j hj => ⟨hj, id⟩
    · rw [ho]
      exact .aside rfl rfl rfl rfl rfl rfl fun j hj => ⟨hj, id⟩
  | callHostIngress name =>
    cases h
    rcases callHostIngress_cases s name with ho | ⟨called, ho⟩
    · rw [ho]
      exact .aside rfl rfl rfl rfl rfl rfl fun j hj => ⟨hj, id⟩
    · rw [ho]
      exact .aside rfl rfl rfl rfl rfl rfl fun j hj => ⟨hj, id⟩

end Steps

/-- The jobs after a step. -/
theorem Interleaves.works (h : Interleaves rt s a s') : s'.works = s.works ++ brings rt s a := by
  cases h with
  | turn i p₀ ha hb hp hs =>
    obtain ⟨life, p, new, hm, -⟩ := hs
    rw [hb, List.append_nil, hm.works]
  | creates w p₀ loop ha hb hw hs =>
    obtain ⟨life, p, new, hm, -⟩ := hs
    rw [hb, hm.works]
    exact works_create s w p₀
  | queues r ha hb hi he =>
    rw [hb, he]
    exact works_create s _ _
  | configures i r params config ha hb hp he =>
    rw [hb, List.append_nil, he]
    rfl
  | aside ha hb hw hp hf hlife hl => rw [hb, List.append_nil, hw]

/-- The frames after a step. -/
theorem Interleaves.frames (h : Interleaves rt s a s') : ∃ new, s'.frames = s.frames ++ new := by
  cases h with
  | turn i p₀ ha hb hp hs =>
    obtain ⟨life, p, new, hm, -⟩ := hs
    exact ⟨new, hm.frames⟩
  | creates w p₀ loop ha hb hw hs =>
    obtain ⟨life, p, new, hm, -⟩ := hs
    exact ⟨new, hm.frames⟩
  | queues r ha hb hi he => exact ⟨[], he ▸ (List.append_nil _).symm⟩
  | configures i r params config ha hb hp he => exact ⟨[], he ▸ (List.append_nil _).symm⟩
  | aside ha hb hw hp hf hlife hl => exact ⟨[], hf.trans (List.append_nil _).symm⟩

end KestrelSdk.Service
