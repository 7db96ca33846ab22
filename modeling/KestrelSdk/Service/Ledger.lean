import KestrelSdk.Service.Interleaving

/-! A service with its history, which none of its steps reads. -/

namespace KestrelSdk.Service

open Json Protocol Asyncio Server

/-- A frame of a job, and the request whose `except` clauses catch what is raised beside it. -/
def Bears (w : Work) (data : Value) (handled : Option JsonRpcRequest) : Prop :=
  Answers w data ∧ ∀ r, handled = some r → w = .request r

/-- Where a job of some work can stand. -/
def JobPc.Handles (rt : Runtime) (w : Work) : JobPc → Prop
  | .created r => w = .request r
  | .awaiting r hook => w = .request r ∧ ∃ reg life life', Awaits rt reg life r life' hook
  | .locking data handled => Bears w data handled
  | .draining handled => ∀ r, handled = some r → w = .request r
  | .ended _ => True

/-- A frame that job `i` may have written. -/
def Sent.Of (rt : Runtime) (i : Nat) (w : Work) (f : Sent) : Prop :=
  f.job = i ∧ Answers w f.data ∧ encodeMessage rt.py f.data = .ok f.bytes

variable {rt : Runtime} {raised : DecodeError → Exn} {version : Str} {reg : Registry}
  {broken : Bool} {i : Nat} {life life' : Lifecycle} {p p₀ : JobPc} {new : List Sent} {w : Work}
  {s s' : Server} {a : Action} {r : JsonRpcRequest} {data data' : Value}
  {handled handled' : Option JsonRpcRequest}

theorem Rescued.bears (h : Rescued handled data' handled')
    (hw : ∀ r, handled = some r → w = .request r) : Bears w data' handled' := by
  cases handled' with
  | some r => exact absurd h id
  | none =>
    obtain ⟨r, hr, code, message, rfl, -⟩ := h
    obtain rfl := hw r hr
    refine ⟨⟨_, rfl⟩, fun r' hr' => ?_⟩
    cases hr'

theorem Offered.bears (h : Offered rt broken data handled data' handled')
    (hw : Bears w data handled) : Bears w data' handled' := by
  rcases h with ⟨rfl, rfl⟩ | ⟨-, hrescued⟩
  · exact hw
  · exact hrescued.bears hw.2

theorem Replied.bears {result : Except Exn Value}
    (h : Replied rt broken r result data' handled') : Bears (.request r) data' handled' := by
  have hsame : ∀ r', some r = some r' → Work.request r = .request r' := by
    intro r' hr
    cases hr
    rfl
  cases result with
  | ok v => exact Offered.bears h ⟨⟨_, rfl⟩, hsame⟩
  | error e => exact Rescued.bears h hsame

theorem Posted.handles {P : Value → Option JsonRpcRequest → Prop} (h : Posted rt broken P i p new)
    (hP : ∀ data handled, P data handled → Bears w data handled) :
    p.Handles rt w ∧ ∀ f ∈ new, f.Of rt i w := by
  have hnil : ∀ f ∈ ([] : List Sent), f.Of rt i w := by
    intro f hf
    cases hf
  cases h with
  | waits data handled hp => exact ⟨hP data handled hp, hnil⟩
  | writes data handled bytes hp hb _ =>
    obtain ⟨ha, hw⟩ := hP data handled hp
    refine ⟨hw, fun f hf => ?_⟩
    obtain rfl := List.mem_singleton.1 hf
    exact ⟨rfl, ha, hb⟩
  | ends result => exact ⟨trivial, hnil⟩

/-- A step of a job keeps to its work. -/
theorem Runs.handles (h : Runs rt reg broken i life p₀ life' p new) (hw : p₀.Handles rt w) :
    p.Handles rt w ∧ ∀ f ∈ new, f.Of rt i w := by
  have hnil : ∀ f ∈ ([] : List Sent), f.Of rt i w := by
    intro f hf
    cases hf
  cases h with
  | skips r => exact ⟨trivial, hnil⟩
  | calls r life' hook h => exact ⟨⟨hw, reg, life, life', h⟩, hnil⟩
  | answers r d result p new hd hr h =>
    obtain rfl : w = .request r := hw
    exact h.handles fun _ _ => Replied.bears
  | completes r hook outcome p new h =>
    obtain ⟨rfl, -⟩ := hw
    exact h.handles fun _ _ => Replied.bears
  | sends data handled p new h => exact h.handles fun _ _ ho => ho.bears hw
  | leaves data handled => exact ⟨trivial, hnil⟩
  | drains handled p new h => exact h.handles fun _ _ ho => ho.bears hw

/-- The same to a config transition. -/
structure Agree (life life' : Lifecycle) : Prop where
  hostConfig : life'.hostConfig = life.hostConfig
  restartRequired : life'.restartRequired = life.restartRequired

theorem Agree.refl (life : Lifecycle) : Agree life life := ⟨rfl, rfl⟩

theorem Agree.trans {life'' : Lifecycle} (h : Agree life life') (h' : Agree life' life'') :
    Agree life life'' :=
  ⟨h'.hostConfig.trans h.hostConfig, h'.restartRequired.trans h.restartRequired⟩

/-- Only a config transition changes what a config transition reads. -/
theorem Runs.agree (h : Runs rt reg broken i life p₀ life' p new) :
    Agree life life' ∨ ∃ r next, p₀ = .awaiting r (.onConfigTransition next) := by
  cases h with
  | calls r life' hook h =>
    cases h with
    | onShutdown hm => exact .inl ⟨rfl, rfl⟩
    | _ => exact .inl (.refl life)
  | completes r hook outcome p new h =>
    rcases complete_cases rt reg life hook outcome with hc | ⟨next, t, n, rfl, -, -⟩
    · rw [hc]
      exact .inl (.refl life)
    · exact .inr ⟨r, next, rfl⟩
  | _ => exact .inl (.refl life)

theorem Runs.not_ended (h : Runs rt reg broken i life p₀ life' p new) : p₀.isEnded = false := by
  cases h <;> rfl

/-- What holds of a service in every run: `serve` awaits each of its inline requests, and its frames
answer what its jobs are for. -/
structure Orderly (rt : Runtime) (s : Server) : Prop where
  inline : ∀ (i : Nat) r p, s.works[i]? = some (.request r) → isInline r.method = true →
    s.pc i = some p → p.isEnded = false → s.loop = .awaiting i
  handles : ∀ (i : Nat) w p, s.works[i]? = some w → s.pc i = some p → p.Handles rt w
  frames : ∀ f ∈ s.frames, ∃ w, s.works[f.job]? = some w ∧ f.Of rt f.job w

theorem work_of_pc (h : s.pc i = some p) : ∃ w, s.works[i]? = some w := by
  obtain ⟨job, hj, -⟩ := job_of_pc h
  refine ⟨job.work, ?_⟩
  unfold works
  rw [List.getElem?_map, hj]
  rfl

namespace Orderly

theorem moved (h : Orderly rt s) (hm : Moved s s' i life p new) (hp : s.pc i = some p₀)
    (hr : Runs rt reg broken i s.life p₀ life p new) : Orderly rt s' := by
  obtain ⟨w, hw⟩ := work_of_pc hp
  obtain ⟨hhandles, hnew⟩ := hr.handles (h.handles i w p₀ hw hp)
  constructor
  · intro j r q hj hinline hq hended
    rw [hm.works] at hj
    by_cases hji : j = i
    · rw [hji] at hj hq ⊢
      rw [hm.pc_self hp] at hq
      cases hq
      exact hm.loop i (h.inline i r p₀ hj hinline hp hr.not_ended) (.inr hended)
    · rw [hm.pc_of_ne hji] at hq
      exact hm.loop j (h.inline j r q hj hinline hq hended) (.inl hji)
  · intro j w' q hj hq
    rw [hm.works] at hj
    by_cases hji : j = i
    · rw [hji] at hj hq
      rw [hm.pc_self hp] at hq
      cases hq
      obtain rfl := Option.some.inj (hw.symm.trans hj)
      exact hhandles
    · rw [hm.pc_of_ne hji] at hq
      exact h.handles j w' q hj hq
  · intro f hf
    rw [hm.frames] at hf
    rw [hm.works]
    rcases List.mem_append.1 hf with hf | hf
    · exact h.frames f hf
    · obtain ⟨hjob, hof⟩ := hnew f hf
      exact ⟨w, hjob ▸ hw, rfl, hof⟩

/-- A new job, before its first turn. -/
theorem create (h : Orderly rt s) {loop : LoopPc} (hp : p.Handles rt w)
    (hl : ∀ j, s.loop = .awaiting j → loop = .awaiting j)
    (hi : ∀ r, w = .request r → isInline r.method = true → loop = .awaiting s.jobs.length) :
    Orderly rt { s.create w p with loop } := by
  have hold : ∀ {j : Nat} {w'}, (s.create w p).works[j]? = some w' →
      j < s.jobs.length ∧ s.works[j]? = some w' ∨ j = s.jobs.length ∧ w' = w := by
    intro j w' hj
    rw [works_create] at hj
    have hlen := s.length_works
    by_cases hlt : j < s.jobs.length
    · rw [List.getElem?_append_left (by omega)] at hj
      exact .inl ⟨hlt, hj⟩
    · obtain rfl : j = s.jobs.length := by
        have := (List.getElem?_eq_some_iff.1 hj).1
        rw [List.length_append, List.length_singleton] at this
        omega
      rw [← hlen, List.getElem?_concat_length] at hj
      exact .inr ⟨rfl, (Option.some.inj hj).symm⟩
  constructor
  · intro j r q hj hinline hq hended
    rcases hold hj with ⟨hlt, hj⟩ | ⟨rfl, rfl⟩
    · have hpc : s.pc j = some q := (pc_create_of_lt hlt).symm.trans hq
      exact hl j (h.inline j r q hj hinline hpc hended)
    · exact hi r rfl hinline
  · intro j w' q hj hq
    rcases hold hj with ⟨hlt, hj⟩ | ⟨rfl, rfl⟩
    · have hpc : s.pc j = some q := (pc_create_of_lt hlt).symm.trans hq
      exact h.handles j w' q hj hpc
    · have hpc : some p = some q := (pc_create_self s w' p).symm.trans hq
      cases hpc
      exact hp
  · intro f hf
    obtain ⟨w', hw', hof⟩ := h.frames f hf
    refine ⟨w', ?_, hof⟩
    show (s.create w p).works[f.job]? = some w'
    rw [works_create]
    exact (List.getElem?_append_left (List.getElem?_eq_some_iff.1 hw').1).trans hw'

theorem fresh (h : Orderly rt s) {loop : LoopPc} (hw : Fresh s w p loop) :
    Orderly rt { s.create w p with loop } := by
  cases hw with
  | request r hi hl =>
    refine h.create rfl (fun j hj => ?_) fun _ _ _ => rfl
    cases hl.symm.trans hj
  | malformed text hl =>
    refine h.create ⟨rfl, fun r hr => ?_⟩ (fun j hj => ?_) fun _ _ _ => rfl
    · cases hr
    · cases hl.symm.trans hj
  | event params =>
    refine h.create ⟨rfl, fun r hr => ?_⟩ (fun _ hj => hj) fun r hr => ?_
    · cases hr
    · cases hr

theorem step (h : Orderly rt s) (hs : Interleaves rt s a s') : Orderly rt s' := by
  cases hs with
  | turn i p₀ ha hb hp hs =>
    obtain ⟨life, p, new, hm, hr⟩ := hs
    exact h.moved hm hp hr
  | creates w p₀ loop ha hb hw hs =>
    obtain ⟨life, p, new, hm, hr⟩ := hs
    exact (h.fresh hw).moved hm (pc_create_self s w p₀) hr
  | queues r ha hb hi he =>
    subst he
    have hnone : ∀ r', Work.request r = .request r' → isInline r'.method = true →
        s.loop = .awaiting s.jobs.length := by
      intro r' hr hinline
      cases hr
      rw [hi] at hinline
      cases hinline
    exact h.create rfl (fun _ hj => hj) hnone
  | configures i r params config ha hb hp he =>
    subst he
    exact ⟨h.inline, h.handles, h.frames⟩
  | aside ha hb hw hp hf hlife hl =>
    constructor
    · intro j r q hj hinline hq hended
      rw [hw] at hj
      rw [hp] at hq
      exact (hl j (h.inline j r q hj hinline hq hended)).1
    · rw [hw, hp]
      exact h.handles
    · rw [hf, hw]
      exact h.frames

theorem start : Orderly rt {} := by
  constructor
  · intro i r p hi
    cases hi
  · intro i w p hi
    cases hi
  · intro f hf
    cases hf

end Orderly

/-- A turn of a job, from the lifecycle that it found to the one that it left. -/
structure Turn where
  job : Nat
  before : Lifecycle
  after : Lifecycle

/-- A service with its history: the lifecycle that each job found, the one that stood as each frame
was written, and the turns of the jobs. -/
structure Ledger where
  server : Server := {}
  found : List Lifecycle := []
  posted : List (Sent × Lifecycle) := []
  turns : List Turn := []

namespace Ledger

def step (rt : Runtime) (raised : DecodeError → Exn) (version : Str) (l : Ledger) (a : Action) :
    Option Ledger :=
  (Service.step rt raised version l.server a).map fun server =>
    { server
      found := l.found ++ (brings rt l.server a).map fun _ => l.server.life
      posted := l.posted ++
        (server.frames.drop l.server.frames.length).map fun f => (f, server.life)
      turns := l.turns ++
        ((actor rt l.server a).toList.map fun i => ⟨i, l.server.life, server.life⟩) }

/-- The frames of a job, with their lifecycles. -/
def postedBy (l : Ledger) (i : Nat) : List (Sent × Lifecycle) :=
  l.posted.filter fun x => x.1.job = i

def turnsOf (l : Ledger) (i : Nat) : List Turn := l.turns.filter fun t => t.job = i

end Ledger

/-- A service that keeps its ledger. -/
def recorded (rt : Runtime) (raised : DecodeError → Exn) (version : Str) : Machine Ledger Action where
  start := {}
  step := Ledger.step rt raised version

end KestrelSdk.Service
