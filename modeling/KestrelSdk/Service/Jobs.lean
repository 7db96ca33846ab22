import KestrelSdk.Service.Turns

/-! What a service owes to each of its jobs. -/

namespace KestrelSdk.Service

open Json Protocol Asyncio

def LoopPc.isClosed : LoopPc → Bool
  | .closed => true
  | _ => false

namespace Server

/-- The frames of a job. -/
def written (s : Server) (i : Nat) : List Sent := s.frames.filter fun f => f.job = i

def works (s : Server) : List Work := s.jobs.map Job.work

end Server

/-- The one frame of a job. -/
def Wrote (rt : Runtime) (w : Work) (fs : List Sent) : Prop :=
  ∃ f, fs = [f] ∧ Answers w f.data ∧ encodeMessage rt.py f.data = .ok f.bytes

/-- The frames of a job, by where it stands. `F` tells which jobs may end with an exception. -/
def Owed (rt : Runtime) (F : Work → Prop) (w : Work) (fs : List Sent) : JobPc → Prop
  | .created r => w = .request r ∧ fs = []
  | .awaiting r _ => w = .request r ∧ fs = []
  | .locking data handled => Answers w data ∧ Guarded rt w data handled ∧ fs = []
  | .draining _ => Wrote rt w fs
  | .ended (.ok _) => (∃ params, w = .event params) ∨ Wrote rt w fs
  | .ended (.error _) => F w ∧ fs = []

structure GoodJob (rt : Runtime) (F : Work → Prop) (s : Server) (i : Nat) (job : Job) : Prop where
  calm : job.cancelling = false
  identifies : ∀ r, job.work = .request r → Identifies r.id
  owed : Owed rt F job.work (s.written i) job.pc
  served : job.inflight = true → s.loop.isClosed = false

/-- What holds of a service whose wire takes every frame and whose jobs are not cancelled. -/
structure Good (rt : Runtime) (F : Work → Prop) (s : Server) : Prop where
  connected : s.loop.isClosed = false → s.connected = true
  unbroken : s.broken = false
  jobs : ∀ i job, s.jobs[i]? = some job → GoodJob rt F s i job
  awaited : ∀ i, s.loop = .awaiting i → ∃ job, s.jobs[i]? = some job ∧ job.inflight = true
  raised : ∀ i e, s.loop = .raised (some i) e →
    ∃ w, s.works[i]? = some w ∧ F w ∧ ∀ params, w ≠ .event params
  frames : ∀ f ∈ s.frames, f.job < s.jobs.length
  queue : ∃ q, s.writeLock = .ofQueue q ∧ Attended JobPc.waits JobPc.holds q s.pc
  stops : s.life.stopping = true → ∃ r, .request r ∈ s.works ∧ r.method = SHUTDOWN

/-- The same but for the job that takes its turn and the write lock. -/
structure Apart (rt : Runtime) (F : Work → Prop) (s : Server) (i : Nat) (w : Work) : Prop where
  connected : s.loop.isClosed = false → s.connected = true
  unbroken : s.broken = false
  present : ∃ pc, s.jobs[i]? = some ⟨w, pc, false⟩
  others : ∀ j job, j ≠ i → s.jobs[j]? = some job → GoodJob rt F s j job
  identifies : ∀ r, w = .request r → Identifies r.id
  served : (∀ params, w ≠ .event params) → s.loop.isClosed = false
  awaited : ∀ j, s.loop = .awaiting j → j ≠ i →
    ∃ job, s.jobs[j]? = some job ∧ job.inflight = true
  own : s.loop = .awaiting i → ∀ params, w ≠ .event params
  raised : ∀ j e, s.loop = .raised (some j) e →
    ∃ w, s.works[j]? = some w ∧ F w ∧ ∀ params, w ≠ .event params
  frames : ∀ f ∈ s.frames, f.job < s.jobs.length
  stops : s.life.stopping = true → ∃ r, .request r ∈ s.works ∧ r.method = SHUTDOWN

/-- The queue of the write lock without a job. -/
def Stands (s : Server) (i : Nat) (q : List Nat) : Prop :=
  s.writeLock = .ofQueue q ∧ Attended JobPc.waits JobPc.holds q (Function.update s.pc i none)

theorem inflight_of {w : Work} {pc : JobPc} {c : Bool} (hw : ∀ params, w ≠ .event params)
    (hpc : pc.isEnded = false) : Job.inflight ⟨w, pc, c⟩ = true := by
  cases w with
  | event params => exact absurd rfl (hw params)
  | request r => cases pc <;> first | rfl | cases hpc
  | malformed text => cases pc <;> first | rfl | cases hpc

theorem of_inflight {job : Job} (h : job.inflight = true) :
    (∀ params, job.work ≠ .event params) ∧ job.pc.isEnded = false := by
  obtain ⟨w, pc, c⟩ := job
  cases w with
  | event params => cases h
  | request r =>
    refine ⟨by rintro params ⟨⟩, ?_⟩
    cases pc <;> first | rfl | cases h
  | malformed text =>
    refine ⟨by rintro params ⟨⟩, ?_⟩
    cases pc <;> first | rfl | cases h

namespace Server

variable {s : Server} {i j : Nat}

theorem written_append_self (s : Server) (i : Nat) (data : Value) (bytes : Bytes) :
    ({ s with frames := s.frames ++ [⟨i, data, bytes⟩] } : Server).written i =
      s.written i ++ [⟨i, data, bytes⟩] := by
  unfold written
  rw [List.filter_append, List.filter_singleton]
  simp

theorem written_append_of_ne (h : j ≠ i) (data : Value) (bytes : Bytes) :
    ({ s with frames := s.frames ++ [⟨i, data, bytes⟩] } : Server).written j = s.written j := by
  unfold written
  rw [List.filter_append, List.filter_singleton]
  simp [Ne.symm h]

theorem getElem?_setPc_self {job : Job} (h : s.jobs[i]? = some job) (p : JobPc) :
    (s.setPc i p).jobs[i]? = some { job with pc := p } := by
  unfold setPc
  rw [List.getElem?_modify, h]
  simp only [Option.map_eq_map, Option.map_some, if_true]

theorem getElem?_setPc_of_ne (h : j ≠ i) (p : JobPc) : (s.setPc i p).jobs[j]? = s.jobs[j]? := by
  unfold setPc
  rw [List.getElem?_modify]
  simp only [if_neg (Ne.symm h)]
  exact Option.map_id'

theorem works_setPc (s : Server) (i : Nat) (p : JobPc) : (s.setPc i p).works = s.works := by
  unfold works setPc
  apply List.ext_getElem?
  intro j
  rw [List.getElem?_map, List.getElem?_map, List.getElem?_modify]
  split
  · cases s.jobs[j]? <;> rfl
  · cases s.jobs[j]? <;> rfl

theorem length_setPc (s : Server) (i : Nat) (p : JobPc) :
    (s.setPc i p).jobs.length = s.jobs.length :=
  List.length_modify ..

theorem pc_eq_update {job : Job} (h : s.jobs[i]? = some job) (p : JobPc) :
    (s.setPc i p).pc = Function.update s.pc i (some p) := by
  funext j
  rw [pc_setPc]
  by_cases hji : j = i
  · rw [hji, if_pos rfl, Function.update_self]
    unfold pc
    rw [h]
    rfl
  · rw [if_neg (Ne.symm hji), Function.update_of_ne hji]

theorem finish_loop_of_ne (h : s.loop ≠ .awaiting i) (result : Except Exn Unit) :
    (s.finish i result).loop = s.loop := by
  unfold finish
  cases hl : s.loop with
  | awaiting j =>
    have hji : j ≠ i := fun hji => h (hl.trans (hji ▸ rfl))
    simp only [if_neg hji]
  | _ => rfl

theorem finish_loop_ok (h : s.loop = .awaiting i) : (s.finish i (.ok ())).loop = s.again := by
  unfold finish
  simp only [h, if_true]

theorem finish_loop_error (h : s.loop = .awaiting i) (e : Exn) :
    (s.finish i (.error e)).loop = .raised (some i) e := by
  unfold finish
  simp only [h, if_true]

theorem again_cases (s : Server) :
    s.again = .reading ∨ s.again = .finishing ∧ s.life.stopping = true := by
  unfold again
  split
  · rename_i hs
    exact .inr ⟨rfl, hs⟩
  · exact .inl rfl

end Server

open Server

variable {rt : Runtime} {F : Work → Prop} {s s' : Server} {i j : Nat} {w : Work} {q : List Nat}

theorem GoodJob.congr {job : Job} (h : GoodJob rt F s i job) (hw : s'.written i = s.written i)
    (hl : s.loop.isClosed = false → s'.loop.isClosed = false) : GoodJob rt F s' i job := by
  refine ⟨h.calm, h.identifies, ?_, fun hjob => hl (h.served hjob)⟩
  rw [hw]
  exact h.owed

namespace Apart

theorem lock (h : Apart rt F s i w) (writeLock : FifoLock) :
    Apart rt F { s with writeLock } i w :=
  { h with others := fun j job hji hj => (h.others j job hji hj).congr rfl id }

theorem dispatched (h : Apart rt F s i w) (life : Lifecycle) (called : List Dispatch)
    (hs : life.stopping = true → ∃ r, .request r ∈ s.works ∧ r.method = SHUTDOWN) :
    Apart rt F { s with life, called } i w :=
  { h with
    others := fun j job hji hj => (h.others j job hji hj).congr rfl id
    stops := hs }

theorem frame (h : Apart rt F s i w) (data : Value) (bytes : Bytes) :
    Apart rt F { s with frames := s.frames ++ [⟨i, data, bytes⟩] } i w := by
  obtain ⟨pc, hi⟩ := h.present
  refine { h with others := fun j job hji hj => ?_, frames := fun f hf => ?_ }
  · exact (h.others j job hji hj).congr (written_append_of_ne hji data bytes) id
  · rcases List.mem_append.1 hf with hf | hf
    · exact h.frames f hf
    · obtain rfl := List.mem_singleton.1 hf
      exact (List.getElem?_eq_some_iff.1 hi).1

/-- `serve` awaits the job. -/
theorem await (h : Apart rt F s i w) (hw : ∀ params, w ≠ .event params) :
    Apart rt F { s with loop := .awaiting i } i w := by
  refine { h with
    connected := ?_, others := ?_, served := ?_, awaited := ?_, own := ?_, raised := ?_ }
  · exact fun _ => h.connected (h.served hw)
  · exact fun j job hji hj => (h.others j job hji hj).congr rfl fun _ => rfl
  · exact fun _ => rfl
  · intro j hj hji
    cases hj
    exact absurd rfl hji
  · exact fun _ => hw
  · rintro j e ⟨⟩

/-- The job goes on. -/
theorem good (h : Apart rt F s i w) {p : JobPc} (hl : s.writeLock = .ofQueue q)
    (hq : Attended JobPc.waits JobPc.holds q (Function.update s.pc i (some p)))
    (ho : Owed rt F w (s.written i) p) (hp : p.isEnded = false) : Good rt F (s.setPc i p) := by
  obtain ⟨pc, hi⟩ := h.present
  constructor
  · exact h.connected
  · exact h.unbroken
  · intro j job hj
    by_cases hji : j = i
    · rw [hji, getElem?_setPc_self hi p] at hj
      obtain rfl := Option.some.inj hj
      rw [hji]
      exact ⟨rfl, h.identifies, ho, fun hjob => h.served (of_inflight hjob).1⟩
    · rw [getElem?_setPc_of_ne hji] at hj
      exact (h.others j job hji hj).congr rfl id
  · intro j hj
    by_cases hji : j = i
    · rw [hji] at hj ⊢
      exact ⟨_, getElem?_setPc_self hi p, inflight_of (h.own hj) hp⟩
    · rw [getElem?_setPc_of_ne hji]
      exact h.awaited j hj hji
  · rw [works_setPc]
    exact h.raised
  · rw [length_setPc]
    exact h.frames
  · exact ⟨q, hl, (pc_eq_update hi p).symm ▸ hq⟩
  · rw [works_setPc]
    exact h.stops

/-- The job ends. -/
theorem finish (h : Apart rt F s i w) (hq : Stands s i q) {result : Except Exn Unit}
    (ho : Owed rt F w (s.written i) (.ended result)) : Good rt F (s.finish i result) := by
  obtain ⟨pc, hi⟩ := h.present
  have hloop : (s.loop ≠ .awaiting i ∧ (s.finish i result).loop = s.loop) ∨
      s.loop = .awaiting i ∧ ((s.finish i result).loop = s.again ∨
        ∃ e, result = .error e ∧ (s.finish i result).loop = .raised (some i) e) := by
    by_cases hawait : s.loop = .awaiting i
    · cases result with
      | ok _ => exact .inr ⟨hawait, .inl (finish_loop_ok hawait)⟩
      | error e => exact .inr ⟨hawait, .inr ⟨e, rfl, finish_loop_error hawait e⟩⟩
    · exact .inl ⟨hawait, finish_loop_of_ne hawait result⟩
  have hclosed : s.loop.isClosed = (s.finish i result).loop.isClosed := by
    rcases hloop with ⟨-, hl⟩ | ⟨hawait, hl | ⟨e, -, hl⟩⟩
    · rw [hl]
    · rw [hawait, hl]
      rcases s.again_cases with ha | ⟨ha, -⟩
      · rw [ha]
        rfl
      · rw [ha]
        rfl
    · rw [hawait, hl]
      rfl
  constructor
  · rw [← hclosed]
    exact h.connected
  · exact h.unbroken
  · intro j job hj
    by_cases hji : j = i
    · have hself := getElem?_setPc_self hi (.ended result)
      rw [hji] at hj
      obtain rfl := Option.some.inj (hself.symm.trans hj)
      rw [hji]
      refine ⟨rfl, h.identifies, ho, fun hjob => ?_⟩
      cases (of_inflight hjob).2
    · have hne := getElem?_setPc_of_ne (s := s) hji (.ended result)
      exact (h.others j job hji (hne.symm.trans hj)).congr rfl fun hl => hclosed ▸ hl
  · intro j hj
    rcases hloop with ⟨hawait, hl⟩ | ⟨-, hl | ⟨e, -, hl⟩⟩
    · rw [hl] at hj
      have hji : j ≠ i := fun hji => hawait (hji ▸ hj)
      have hne := getElem?_setPc_of_ne (s := s) hji (.ended result)
      obtain ⟨job, hjob, hin⟩ := h.awaited j hj hji
      exact ⟨job, hne.trans hjob, hin⟩
    · rw [hl] at hj
      rcases s.again_cases with ha | ⟨ha, -⟩
      · rw [ha] at hj
        cases hj
      · rw [ha] at hj
        cases hj
    · rw [hl] at hj
      cases hj
  · intro j e hj
    have hworks : (s.finish i result).works = s.works := works_setPc s i _
    rw [hworks]
    rcases hloop with ⟨-, hl⟩ | ⟨hawait, hl | ⟨e', rfl, hl⟩⟩
    · rw [hl] at hj
      exact h.raised j e hj
    · rw [hl] at hj
      rcases s.again_cases with ha | ⟨ha, -⟩
      · rw [ha] at hj
        cases hj
      · rw [ha] at hj
        cases hj
    · rw [hl] at hj
      cases hj
      refine ⟨w, ?_, ho.1, h.own hawait⟩
      unfold works
      rw [List.getElem?_map, hi]
      rfl
  · have hlen : (s.finish i result).jobs.length = s.jobs.length := length_setPc s i _
    rw [hlen]
    exact h.frames
  · have hpc : (s.finish i result).pc = Function.update s.pc i (some (.ended result)) :=
      pc_eq_update hi _
    exact ⟨q, hq.1, hpc ▸ hq.2.away rfl rfl⟩
  · have hworks : (s.finish i result).works = s.works := works_setPc s i _
    rw [hworks]
    exact h.stops

/-- The job takes its turn at the write lock. -/
theorem turned {E : Exn → Prop} {n : Nat} (h : Apart rt F s i w) (hq : Stands s i q)
    (hw : s.written i = []) (ht : Turned rt w E n i s s') (hE : ∀ e, E e → F w) :
    Good rt F s' := by
  cases ht with
  | waits data handled q' hl hne ha hg hn =>
    obtain rfl := FifoLock.ofQueue_injective (hq.1.symm.trans hl)
    exact (h.lock _).good rfl (hq.2.join rfl (by rintro ⟨⟩)) ⟨ha, hg, hw⟩ rfl
  | writes data handled bytes hl ha hb =>
    obtain rfl := FifoLock.ofQueue_injective (hq.1.symm.trans hl)
    refine ((h.lock _).frame data bytes).good rfl (hq.2.join rfl fun _ => rfl) ?_ rfl
    rw [written_append_self]
    show Wrote rt w (s.written i ++ _)
    rw [hw]
    exact ⟨_, rfl, ha, hb⟩
  | fails e he => exact h.finish hq ⟨hE e he, hw⟩

end Apart

/-- What the step of a job changes: where the job stands, and, where it ends, the loop that awaits
it. -/
def Settles (n i : Nat) (s s' : Server) : Prop :=
  ∃ p : JobPc, s'.jobs = (s.setPc i p).jobs ∧ p.rank ≤ n ∧
    (s'.loop = s.loop ∨ s.loop = .awaiting i ∧ p.isEnded = true ∧
      (s'.loop = s'.again ∨ ∃ e, s'.loop = .raised (some i) e))

theorem finish_settles (s : Server) (i n : Nat) (result : Except Exn Unit) :
    Settles n i s (s.finish i result) := by
  refine ⟨.ended result, rfl, Nat.zero_le n, ?_⟩
  by_cases hl : s.loop = .awaiting i
  · cases result with
    | ok _ => exact .inr ⟨hl, rfl, .inl (finish_loop_ok hl)⟩
    | error e => exact .inr ⟨hl, rfl, .inr ⟨e, finish_loop_error hl e⟩⟩
  · exact .inl (finish_loop_of_ne hl result)

theorem Turned.settles {E : Exn → Prop} {n : Nat} (h : Turned rt w E n i s s') (hn : 1 ≤ n) :
    Settles n i s s' := by
  cases h with
  | waits data handled q hl hq ha hg hr => exact ⟨_, rfl, hr, .inl rfl⟩
  | writes data handled bytes hl ha hb => exact ⟨_, rfl, hn, .inl rfl⟩
  | fails e he => exact finish_settles s i n _

theorem Settles.mono {n m : Nat} (h : Settles n i s s') (hnm : n ≤ m) : Settles m i s s' := by
  obtain ⟨p, hj, hp, hl⟩ := h
  exact ⟨p, hj, hp.trans hnm, hl⟩

theorem Settles.works {n : Nat} (h : Settles n i s s') : s'.works = s.works := by
  obtain ⟨p, hp, -, -⟩ := h
  have hw := works_setPc s i p
  unfold Server.works at hw ⊢
  rw [hp, hw]

namespace Apart

theorem calm (h : Apart rt F s i w) : s.isCancelling i = false := by
  obtain ⟨pc, hi⟩ := h.present
  unfold isCancelling
  rw [hi]
  rfl

theorem mem_works (h : Apart rt F s i w) : w ∈ s.works := by
  obtain ⟨pc, hi⟩ := h.present
  exact List.mem_map.2 ⟨_, List.mem_of_getElem? hi, rfl⟩

variable {r : JsonRpcRequest}

theorem open_wire (h : Apart rt F s i (.request r)) : s.connected = true :=
  h.connected (h.served (by rintro params ⟨⟩))

theorem reply (h : Apart rt F s i (.request r)) (hq : Stands s i q) (hw : s.written i = [])
    (hn : 2 ≤ rt.py.nesting) (result : Except Exn Value)
    (hF : ∀ e, failure rt r result = some e → rescue r false e = none → F (.request r)) :
    Good rt F (s.reply rt i r result) ∧ Settles 3 i s (s.reply rt i r result) := by
  have ht := reply_turned (h.identifies r rfl) hn h.open_wire h.unbroken hq.1 h.calm result
  exact ⟨h.turned hq hw ht fun e he => hF e he.1 he.2, ht.settles (by omega)⟩

theorem handleRequest (h : Apart rt F s i (.request r)) (hq : Stands s i q)
    (hw : s.written i = []) (hn : 2 ≤ rt.py.nesting)
    (hF : ∀ e, (dispatch rt s.registry s.life r).2.failure rt r = some e → rescue r false e = none →
      F (.request r)) :
    Good rt F (s.handleRequest rt i r) ∧ Settles 4 i s (s.handleRequest rt i r) := by
  unfold Server.handleRequest
  cases hd : dispatch rt s.registry s.life r with
  | mk life d =>
    cases d with
    | awaits hook =>
      have hs : life.stopping = true → ∃ r, .request r ∈ s.works ∧ r.method = SHUTDOWN := by
        cases dispatch_awaits hd with
        | onShutdown hm => exact fun _ => ⟨r, h.mem_works, hm⟩
        | _ => exact h.stops
      exact ⟨(h.dispatched life _ hs).good hq.1 (hq.2.away rfl rfl) ⟨rfl, hw⟩ rfl,
        .awaiting r hook, rfl, Nat.le_refl 4, .inl rfl⟩
    | returns v =>
      obtain rfl := dispatch_kept hd rfl
      rw [hd] at hF
      obtain ⟨hgood, hset⟩ := h.reply hq hw hn (.ok v) hF
      exact ⟨hgood, hset.mono (by omega)⟩
    | raises e =>
      obtain rfl := dispatch_kept hd rfl
      rw [hd] at hF
      obtain ⟨hgood, hset⟩ := h.reply hq hw hn (.error e) hF
      exact ⟨hgood, hset.mono (by omega)⟩

/-- A job whose frame nothing catches. -/
theorem send (h : Apart rt F s i w) (hq : Stands s i q) (hw : s.written i = [])
    (hc : s.connected = true) (hev : ∀ params, F (.event params)) {data : Value}
    (ha : Answers w data) (hg : Guarded rt w data none) :
    Good rt F (s.send rt i data none (escape i)) ∧
      Settles 2 i s (s.send rt i data none (escape i)) := by
  have hraised : ∀ e, encodeMessage rt.py data = .error e → F w := by
    intro e he
    rcases hg with ⟨params, rfl⟩ | ⟨bytes, hb⟩
    · exact hev params
    · rw [hb] at he
      cases he
  have ht : Turned rt w (fun _ => F w) 2 i s (s.send rt i data none (escape i)) :=
    send_turned hc h.unbroken hq.1 ha hg (Nat.le_refl 2) fun e he => .fails _ (hraised e he)
  exact ⟨h.turned hq hw ht fun e he => he, ht.settles (by omega)⟩

end Apart

/-- What the rest of `_dispatch` leaves of a shutdown. -/
theorem complete_stopping (rt : Runtime) (reg : Registry) (life : Lifecycle) (hook : Hook)
    (o : Outcome) : (complete rt reg life hook o).1.stopping = life.stopping := by
  rcases complete_cases rt reg life hook o with h | ⟨next, t, n, -, -, h⟩
  · rw [h]
  · rw [h]
    rcases commit_cases reg life next t with ⟨-, hc⟩ | ⟨_, -, -, -, hc⟩ | ⟨e, hc⟩
    · rw [hc]
    · rw [hc]
    · rw [hc]

namespace Server

theorem create_setPc (s : Server) (w : Work) (p : JobPc) :
    (s.create w p).setPc s.jobs.length p = s.create w p := by
  have hjobs : (s.jobs ++ [(⟨w, p, false⟩ : Job)]).modify s.jobs.length
      (fun job => { job with pc := p }) = s.jobs ++ [⟨w, p, false⟩] := by
    apply List.ext_getElem?
    intro j
    rw [List.getElem?_modify]
    split
    · rename_i hj
      rw [← hj, List.getElem?_concat_length]
      rfl
    · cases (s.jobs ++ [(⟨w, p, false⟩ : Job)])[j]? <;> rfl
  unfold setPc create
  rw [hjobs]

theorem callTool_cases (s : Server) (name : Str) :
    s.callTool name = s ∨ ∃ called, s.callTool name = { s with called } := by
  unfold callTool
  split
  · exact .inl rfl
  · split
    · exact .inr ⟨_, rfl⟩
    · exact .inl rfl

theorem callHostIngress_cases (s : Server) (name : Str) :
    s.callHostIngress name = s ∨ ∃ called, s.callHostIngress name = { s with called } := by
  unfold callHostIngress
  split
  · exact .inl rfl
  · split
    · exact .inr ⟨_, rfl⟩
    · exact .inl rfl

end Server

namespace Good

/-- What the feature changes. -/
theorem aside (h : Good rt F s) (life : Lifecycle) (registry : Registry) (called : List Dispatch)
    (hs : life.stopping = s.life.stopping) : Good rt F { s with life, registry, called } :=
  { h with
    jobs := fun i job hj => (h.jobs i job hj).congr rfl id
    stops := fun hl => h.stops (hs ▸ hl) }

/-- `serve` goes on without a job. -/
theorem roll (h : Good rt F s) {loop : LoopPc} (hs : s.loop.isClosed = false)
    (hl : loop = .finishing ∨ ∃ e, loop = .raised none e) : Good rt F { s with loop } := by
  refine { h with connected := ?_, jobs := ?_, awaited := ?_, raised := ?_ }
  · exact fun _ => h.connected hs
  · refine fun i job hj => (h.jobs i job hj).congr rfl fun _ => ?_
    rcases hl with rfl | ⟨e, rfl⟩
    · rfl
    · rfl
  · intro i hi
    rcases hl with rfl | ⟨e, rfl⟩
    · cases hi
    · cases hi
  · intro i e hi
    rcases hl with rfl | ⟨e', rfl⟩
    · cases hi
    · cases hi

theorem serve (h : Good rt F s) :
    Good rt F { s with loop := s.again, connected := true, broken := false } := by
  have hopen : s.again.isClosed = false := by
    rcases s.again_cases with ha | ⟨ha, -⟩
    · rw [ha]
      rfl
    · rw [ha]
      rfl
  refine { h with connected := ?_, unbroken := ?_, jobs := ?_, awaited := ?_, raised := ?_ }
  · exact fun _ => rfl
  · rfl
  · exact fun i job hj => (h.jobs i job hj).congr rfl fun _ => hopen
  · intro i hi
    rcases s.again_cases with ha | ⟨ha, -⟩
    · cases ha.symm.trans hi
    · cases ha.symm.trans hi
  · intro i e hi
    rcases s.again_cases with ha | ⟨ha, -⟩
    · cases ha.symm.trans hi
    · cases ha.symm.trans hi

theorem close (h : Good rt F s) (hjobs : s.jobs.any Job.inflight = false) :
    Good rt F { s with loop := .closed, connected := false } := by
  refine { h with connected := ?_, jobs := ?_, awaited := ?_, raised := ?_ }
  · rintro ⟨⟩
  · intro i job hj
    have hgood := h.jobs i job hj
    refine ⟨hgood.calm, hgood.identifies, hgood.owed, fun hin => ?_⟩
    have hno := List.any_eq_false.1 hjobs job (List.mem_of_getElem? hj)
    exact absurd hin hno
  · rintro i ⟨⟩
  · rintro i e ⟨⟩

theorem apart (h : Good rt F s) {job : Job} (hj : s.jobs[i]? = some job)
    (hp : job.pc.isEnded = false) : Apart rt F s i job.work := by
  have hgood := h.jobs i job hj
  have hcalm := hgood.calm
  obtain ⟨w, pc, c⟩ := job
  obtain rfl : c = false := hcalm
  refine { h with
    present := ?_, others := ?_, identifies := ?_, served := ?_, awaited := ?_, own := ?_ }
  · exact ⟨pc, hj⟩
  · exact fun j job _ hj => h.jobs j job hj
  · exact hgood.identifies
  · exact fun hw => hgood.served (inflight_of hw hp)
  · exact fun j hl _ => h.awaited j hl
  · intro hl
    obtain ⟨job, hjob, hin⟩ := h.awaited i hl
    obtain rfl := Option.some.inj (hj.symm.trans hjob)
    exact (of_inflight hin).1

theorem stands (h : Good rt F s) {job : Job} (hj : s.jobs[i]? = some job)
    (hp : job.pc.waits = false) : ∃ q, Stands s i q := by
  obtain ⟨q, hl, hq⟩ := h.queue
  refine ⟨q, hl, hq.apart ?_⟩
  unfold pc
  rw [hj]
  exact hp

/-- The owner of the write lock stands first in its queue. -/
theorem head (h : Good rt F s) (ho : s.writeLock.owner = some i) :
    ∃ q, s.writeLock = .ofQueue (i :: q) ∧ Attended JobPc.waits JobPc.holds (i :: q) s.pc ∧
      Stands s.releaseWrite i q := by
  obtain ⟨q, hl, hq⟩ := h.queue
  rw [hl, FifoLock.owner_ofQueue] at ho
  cases q with
  | nil => cases ho
  | cons j q =>
    obtain rfl := Option.some.inj ho
    refine ⟨q, hl, hq, ?_, hq.leave⟩
    show s.writeLock.release = _
    rw [hl, FifoLock.release_ofQueue]

theorem holder (h : Good rt F s) {job : Job} (hj : s.jobs[i]? = some job)
    (hp : job.pc.holds = true) : s.writeLock.owner = some i := by
  obtain ⟨q, hl, hq⟩ := h.queue
  rw [hl, FifoLock.owner_ofQueue]
  apply hq.head
  unfold pc
  rw [hj]
  exact hp

/-- A new job takes its first turn. -/
theorem create (h : Good rt F s) {p : JobPc} (hid : ∀ r, w = .request r → Identifies r.id)
    (hs : (∀ params, w ≠ .event params) → s.loop.isClosed = false) :
    Apart rt F (s.create w p) s.jobs.length w := by
  have hat : (s.create w p).jobs[s.jobs.length]? = some ⟨w, p, false⟩ := List.getElem?_concat_length
  have hold : ∀ (j : Nat) (job : Job), s.jobs[j]? = some job →
      (s.create w p).jobs[j]? = some job := by
    intro j job hj
    have hlt := (List.getElem?_eq_some_iff.1 hj).1
    have hsame : (s.create w p).jobs[j]? = s.jobs[j]? := List.getElem?_append_left hlt
    exact hsame.trans hj
  refine { h with
    present := ?_, others := ?_, identifies := ?_, served := ?_, awaited := ?_, own := ?_,
    raised := ?_, frames := ?_, stops := ?_ }
  · exact ⟨p, hat⟩
  · intro j job hji hj
    have hlt := (List.getElem?_eq_some_iff.1 hj).1
    have hlen : (s.create w p).jobs.length = s.jobs.length + 1 := List.length_append
    have hlt' : j < s.jobs.length := by omega
    have hsame : (s.create w p).jobs[j]? = s.jobs[j]? := List.getElem?_append_left hlt'
    exact (h.jobs j job (hsame.symm.trans hj)).congr rfl id
  · exact hid
  · exact hs
  · intro j hl _
    obtain ⟨job, hj, hin⟩ := h.awaited j hl
    exact ⟨job, hold j job hj, hin⟩
  · intro hl
    obtain ⟨job, hj, -⟩ := h.awaited _ hl
    exact absurd (List.getElem?_eq_some_iff.1 hj).1 (Nat.lt_irrefl _)
  · intro j e hl
    obtain ⟨w', hw, hF, hev⟩ := h.raised j e hl
    refine ⟨w', ?_, hF, hev⟩
    have hworks : (s.create w p).works = s.works ++ [w] := List.map_append
    rw [hworks]
    exact (List.getElem?_append_left (List.getElem?_eq_some_iff.1 hw).1).trans hw
  · intro f hf
    have hlt := h.frames f hf
    have hlen : (s.create w p).jobs.length = s.jobs.length + 1 := List.length_append
    omega
  · intro hl
    obtain ⟨r, hr, hm⟩ := h.stops hl
    have hworks : (s.create w p).works = s.works ++ [w] := List.map_append
    exact ⟨r, hworks ▸ List.mem_append_left _ hr, hm⟩

theorem create_unwritten (h : Good rt F s) (w : Work) (p : JobPc) :
    (s.create w p).written s.jobs.length = [] := by
  apply List.filter_eq_nil_iff.2
  intro f hf
  have hlt := h.frames f hf
  simp only [decide_eq_true_eq]
  omega

theorem create_stands (h : Good rt F s) (w : Work) (p : JobPc) :
    ∃ q, Stands (s.create w p) s.jobs.length q := by
  obtain ⟨q, hl, hq⟩ := h.queue
  have hpc : (s.create w p).pc = Function.update s.pc s.jobs.length (some p) := by
    funext j
    unfold pc Server.create
    by_cases hj : j = s.jobs.length
    · rw [hj, Function.update_self, List.getElem?_concat_length]
      rfl
    · rw [Function.update_of_ne hj, List.getElem?_append]
      split
      · rfl
      · have hout : s.jobs[j]? = none := List.getElem?_eq_none (by omega)
        have hone : [(⟨w, p, false⟩ : Job)].length ≤ j - s.jobs.length := by
          rw [List.length_singleton]
          omega
        rw [hout, List.getElem?_eq_none hone]
  refine ⟨q, hl, ?_⟩
  rw [hpc, Function.update_idem]
  refine hq.apart ?_
  unfold pc
  rw [List.getElem?_eq_none (Nat.le_refl _)]
  rfl

end Good

/-- The jobs that an action creates. -/
def brings (rt : Runtime) (s : Server) : Action → List Work
  | .line b =>
    if b = [] then []
    else
      match decodeMessage rt.py b with
      | .ok (.request r) => [.request r]
      | .error (.protocol text) => [.malformed text]
      | _ => []
  | .event params => if s.connected then [.event params] else []
  | _ => []

/-- The exception that reaches the `except` clauses of `_handle_request`. -/
def raisedBy (rt : Runtime) (s : Server) : Action → Option (JsonRpcRequest × Exn)
  | .begin i =>
    match s.pc i with
    | some (.created r) => ((dispatch rt s.registry s.life r).2.failure rt r).map (r, ·)
    | _ => none
  | .line b =>
    match decodeMessage rt.py b with
    | .ok (.request r) =>
      if isInline r.method then ((dispatch rt s.registry s.life r).2.failure rt r).map (r, ·)
      else none
    | _ => none
  | .hook i outcome =>
    match s.pc i with
    | some (.awaiting r hook) =>
      (failure rt r (complete rt s.registry s.life hook outcome).2).map (r, ·)
    | _ => none
  | .locked i =>
    match s.pc i with
    | some (.locking data (some r)) =>
      match encodeMessage rt.py data with
      | .error e => some (r, rt.raises e)
      | .ok _ => none
    | _ => none
  | _ => none

/-- The job that an action is a step of. -/
def Action.own : Action → Option Nat
  | .begin i => some i
  | .hook i _ => some i
  | .locked i => some i
  | .drained i _ => some i
  | .interrupted i => some i
  | _ => none

/-- Steps in which the wire takes its frames and no job is cancelled. -/
def Action.undisturbed : Action → Bool
  | .breaks => false
  | .cancel _ => false
  | .drained _ (some _) => false
  | _ => true

/-- What ends or starts the loop from outside. -/
def Outside (rt : Runtime) : Action → Prop
  | .serve => True
  | .readFails _ => True
  | .close => True
  | .line b => b = [] ∨ ∃ e, decodeMessage rt.py b = .error e ∧ ∀ text, e ≠ .protocol text
  | _ => False

/-- What a step does to the jobs. -/
inductive Stepped (rt : Runtime) (s : Server) (a : Action) (s' : Server) : Prop where
  | own (i n : Nat) (p : JobPc) (ha : a.own = some i) (hp : s.pc i = some p) (hn : n < p.rank)
      (hs : Settles n i s s')
  | creates (w : Work) (p : JobPc) (n : Nat) (loop : LoopPc) (ha : a.own = none)
      (hb : brings rt s a = [w])
      (hl : loop = s.loop ∨ s.loop = .reading ∧ loop = .awaiting s.jobs.length)
      (hs : Settles n s.jobs.length { s.create w p with loop } s')
  | aside (ha : a.own = none) (hb : brings rt s a = []) (hj : s'.jobs = s.jobs)
      (hl : s'.loop = s.loop ∨ Outside rt a ∧ ∀ j, s.loop ≠ .awaiting j)

theorem job_of_pc {p : JobPc} (h : s.pc i = some p) :
    ∃ job, s.jobs[i]? = some job ∧ job.pc = p := Option.map_eq_some_iff.1 h

section Steps

variable {a : Action} {p : JobPc} {outcome : Outcome}

theorem begin_good (hn : 2 ≤ rt.py.nesting)
    (hF : ∀ r e, raisedBy rt s (.begin i) = some (r, e) → rescue r false e = none → F (.request r))
    (h : Good rt F s) (hp : s.pc i = some p) (hs : s.resume rt i (.begin i) p = some s') :
    Good rt F s' ∧ Stepped rt s (.begin i) s' := by
  obtain ⟨job, hj, hpc⟩ := job_of_pc hp
  cases p with
  | created r =>
    have hap := h.apart hj (hpc ▸ rfl)
    have ho := (h.jobs i job hj).owed
    rw [hpc] at ho
    obtain ⟨hw, hfs⟩ := ho
    rw [hw] at hap
    obtain ⟨q, hq⟩ := h.stands hj (hpc ▸ rfl)
    simp only [Server.resume] at hs
    rw [if_neg (by rw [hap.calm]; exact Bool.false_ne_true)] at hs
    cases hs
    obtain ⟨hgood, hset⟩ := hap.handleRequest hq hfs hn fun e he => hF r e (by
      simp only [raisedBy, hp, he, Option.map_some])
    exact ⟨hgood, .own i 4 _ rfl hp (Nat.lt_succ_self 4) hset⟩
  | _ => cases hs

theorem hook_good (hn : 2 ≤ rt.py.nesting)
    (hF : ∀ r e, raisedBy rt s (.hook i outcome) = some (r, e) → rescue r false e = none →
      F (.request r))
    (h : Good rt F s) (hp : s.pc i = some p) (hs : s.resume rt i (.hook i outcome) p = some s') :
    Good rt F s' ∧ Stepped rt s (.hook i outcome) s' := by
  obtain ⟨job, hj, hpc⟩ := job_of_pc hp
  cases p with
  | awaiting r hook =>
    have hap := h.apart hj (hpc ▸ rfl)
    have ho := (h.jobs i job hj).owed
    rw [hpc] at ho
    obtain ⟨hw, hfs⟩ := ho
    rw [hw] at hap
    obtain ⟨q, hq⟩ := h.stands hj (hpc ▸ rfl)
    simp only [Server.resume, Server.completeRequest] at hs
    cases hs
    have hlife := hap.dispatched (complete rt s.registry s.life hook outcome).1 s.called
      fun hl => hap.stops ((complete_stopping rt s.registry s.life hook outcome) ▸ hl)
    obtain ⟨hgood, hset⟩ := hlife.reply hq hfs hn
      (complete rt s.registry s.life hook outcome).2 fun e he => hF r e (by
        simp only [raisedBy, hp, he, Option.map_some])
    exact ⟨hgood, .own i 3 _ rfl hp (Nat.lt_succ_self 3) hset⟩
  | _ => cases hs

theorem drained_good (h : Good rt F s) (hp : s.pc i = some p)
    (hs : s.resume rt i (.drained i none) p = some s') :
    Good rt F s' ∧ Stepped rt s (.drained i none) s' := by
  obtain ⟨job, hj, hpc⟩ := job_of_pc hp
  cases p with
  | draining handled =>
    have hap := h.apart hj (hpc ▸ rfl)
    have ho := (h.jobs i job hj).owed
    rw [hpc] at ho
    obtain ⟨q, hl, hq, hstands⟩ := h.head (h.holder hj (hpc ▸ rfl))
    simp only [Server.resume] at hs
    cases hs
    have hset := finish_settles s.releaseWrite i 0 (.ok ())
    exact ⟨(hap.lock _).finish hstands (.inr ho),
      .own i 0 _ rfl hp Nat.zero_lt_one hset⟩
  | _ => cases hs

theorem not_interrupted (h : Good rt F s) (hp : s.pc i = some p)
    (hs : s.resume rt i (.interrupted i) p = some s') : False := by
  obtain ⟨job, hj, hpc⟩ := job_of_pc hp
  have hcalm : s.isCancelling i = false := by
    unfold isCancelling
    rw [hj]
    exact (h.jobs i job hj).calm
  cases p with
  | locking data handled =>
    simp only [Server.resume, hcalm] at hs
    cases hs
  | draining handled =>
    simp only [Server.resume, hcalm] at hs
    cases hs
  | _ => cases hs

/-- The section of the write lock, for a job that has waited for it. -/
theorem write_good {data : Value} {handled : Option JsonRpcRequest} {job : Job}
    (hn : 2 ≤ rt.py.nesting) (hev : ∀ params, F (.event params))
    (hF : ∀ r e, raisedBy rt s (.locked i) = some (r, e) → rescue r false e = none →
      F (.request r))
    (h : Good rt F s) (hj : s.jobs[i]? = some job) (hpc : job.pc = .locking data handled)
    (howner : s.writeLock.owner = some i) :
    Good rt F (s.write rt i data handled (raise rt i handled)) ∧
      ∃ n < (JobPc.locking data handled).rank,
        Settles n i s (s.write rt i data handled (raise rt i handled)) := by
  have hap := h.apart hj (hpc ▸ rfl)
  have ho := (h.jobs i job hj).owed
  rw [hpc] at ho
  obtain ⟨ha, hg, hfs⟩ := ho
  obtain ⟨q, hl, hq, hstands⟩ := h.head howner
  have hp : s.pc i = some (.locking data handled) := by
    unfold pc
    rw [hj, ← hpc]
    rfl
  unfold write
  split
  · rename_i hc
    cases he : encodeMessage rt.py data with
    | error e =>
      cases handled with
      | some r =>
        have hwork : job.work = .request r := hg
        rw [hwork] at hap
        have hrel := hap.lock s.writeLock.release
        have hby : raisedBy rt s (.locked i) = some (r, rt.raises e) := by
          simp only [raisedBy, hp, he]
        have ht : Turned rt (.request r)
            (fun e => rescue r false e = none ∧ raisedBy rt s (.locked i) = some (r, e)) 2 i
            s.releaseWrite (s.releaseWrite.raise rt i (some r) (rt.raises e)) :=
          raise_turned (hrel.identifies r rfl) hn hrel.open_wire hrel.unbroken hstands.1
            fun hno => ⟨hrel.calm ▸ hno, hby⟩
        have hset := ht.settles (by omega)
        exact ⟨(hap.lock _).turned hstands hfs ht fun e he => hF r e he.2 he.1,
          2, Nat.lt_succ_self 2, hset⟩
      | none =>
        rcases hg with ⟨params, hwork⟩ | ⟨bytes, hb⟩
        · have hset := finish_settles s.releaseWrite i 0 (.error (rt.raises e))
          exact ⟨(hap.lock _).finish hstands ⟨hwork ▸ hev params, hfs⟩,
            0, Nat.zero_lt_succ 1, hset⟩
        · rw [hb] at he
          cases he
    | ok bytes =>
      simp only
      rw [if_neg (by rw [h.unbroken]; exact Bool.false_ne_true)]
      constructor
      · refine (hap.frame data bytes).good hl (hq.stay rfl) ?_ rfl
        rw [written_append_self, hfs]
        exact ⟨_, rfl, ha, he⟩
      · refine ⟨1, ?_, .draining handled, rfl, Nat.le_refl 1, .inl rfl⟩
        cases handled with
        | none => exact Nat.lt_succ_self 1
        | some r => exact Nat.lt_of_lt_of_le (Nat.lt_succ_self 1) (Nat.le_succ 2)
  · rename_i hc
    have hevent : ∃ params, job.work = .event params := by
      by_contra hno
      exact hc (h.connected (hap.served fun params hw => hno ⟨params, hw⟩))
    have hset := finish_settles s.releaseWrite i 0 (.ok ())
    refine ⟨(hap.lock _).finish hstands (.inl hevent), 0, ?_, hset⟩
    cases handled with
    | none => exact Nat.zero_lt_succ 1
    | some r => exact Nat.zero_lt_succ 2

theorem locked_good (hn : 2 ≤ rt.py.nesting) (hev : ∀ params, F (.event params))
    (hF : ∀ r e, raisedBy rt s (.locked i) = some (r, e) → rescue r false e = none →
      F (.request r))
    (h : Good rt F s) (hp : s.pc i = some p) (hs : s.resume rt i (.locked i) p = some s') :
    Good rt F s' ∧ Stepped rt s (.locked i) s' := by
  obtain ⟨job, hj, hpc⟩ := job_of_pc hp
  cases p with
  | locking data handled =>
    simp only [Server.resume] at hs
    split at hs
    · rename_i howner
      cases hs
      obtain ⟨hgood, n, hlt, hset⟩ := write_good hn hev hF h hj hpc howner
      exact ⟨hgood, .own i n _ rfl hp hlt hset⟩
    · cases hs
  | _ => cases hs

theorem accept_good {r : JsonRpcRequest} (hn : 2 ≤ rt.py.nesting) (hid : Identifies r.id)
    (hF : isInline r.method = true → ∀ e,
      (dispatch rt s.registry s.life r).2.failure rt r = some e → rescue r false e = none →
      F (.request r))
    (h : Good rt F s) (hl : s.loop = .reading) :
    Good rt F (s.accept rt r) ∧ ∃ loop,
      (loop = s.loop ∨ s.loop = .reading ∧ loop = .awaiting s.jobs.length) ∧
      ∃ n, Settles n s.jobs.length { s.create (.request r) (.created r) with loop }
        (s.accept rt r) := by
  have hap : Apart rt F (s.create (.request r) (.created r)) s.jobs.length (.request r) :=
    h.create (by rintro r' ⟨⟩; exact hid) fun _ => by rw [hl]; rfl
  have hfs := h.create_unwritten (.request r) (.created r)
  obtain ⟨q, hq⟩ := h.create_stands (.request r) (.created r)
  unfold accept
  split
  · rename_i hinline
    have hawait := hap.await (by rintro params ⟨⟩)
    obtain ⟨hgood, hset⟩ := hawait.handleRequest hq hfs hn (hF hinline)
    exact ⟨hgood, _, .inr ⟨hl, rfl⟩, 4, hset⟩
  · obtain ⟨pc, hpc⟩ := hap.present
    have hself : (s.create (.request r) (.created r)).setPc s.jobs.length (.created r) =
        s.create (.request r) (.created r) := create_setPc s _ _
    have hgood := hap.good (p := .created r) hq.1 (hq.2.away rfl rfl) ⟨rfl, hfs⟩ rfl
    rw [hself] at hgood
    refine ⟨hgood, s.loop, .inl rfl, 5, ⟨.created r, ?_, Nat.le_refl 5, .inl rfl⟩⟩
    exact (congrArg Server.jobs hself).symm

/-- The answer to a line that is no message. -/
theorem refuse_good (hn : 2 ≤ rt.py.nesting) (hev : ∀ params, F (.event params))
    (h : Good rt F s) (hl : s.loop = .reading) (text : Str) :
    Good rt F (s.refuse rt text) ∧ ∃ p n, Settles n s.jobs.length
      { s.create (.malformed text) p with loop := .awaiting s.jobs.length }
      (s.refuse rt text) := by
  have hg : Guarded rt (.malformed text) (malformedResponse text).toDict none :=
    .inr (encode_failure rt.py identifies_none hn (.inl rfl) text)
  have hap : Apart rt F (s.create (.malformed text) (.locking (malformedResponse text).toDict none))
      s.jobs.length (.malformed text) := h.create (by rintro r ⟨⟩) fun _ => by rw [hl]; rfl
  obtain ⟨q, hq⟩ := h.create_stands (.malformed text) (.locking (malformedResponse text).toDict none)
  have hawait := hap.await (by rintro params ⟨⟩)
  have hc := hap.connected (hap.served (by rintro params ⟨⟩))
  have hfs := h.create_unwritten (.malformed text) (.locking (malformedResponse text).toDict none)
  obtain ⟨hgood, hset⟩ := hawait.send hq hfs hc hev rfl hg
  exact ⟨hgood, _, 2, hset⟩

theorem emitEvent_good (hev : ∀ params, F (.event params)) (h : Good rt F s) (params : Dict) :
    Good rt F (s.emitEvent rt params) ∧ Stepped rt s (.event params) (s.emitEvent rt params) := by
  unfold emitEvent
  split
  · rename_i hc
    have hap : Apart rt F (s.create (.event params)
        (.locking (JsonRpcNotification.toDict ⟨FEATURE_EVENT, params⟩) none))
        s.jobs.length (.event params) :=
      h.create (by rintro r ⟨⟩) fun hw => absurd rfl (hw params)
    obtain ⟨q, hq⟩ := h.create_stands (.event params)
      (.locking (JsonRpcNotification.toDict ⟨FEATURE_EVENT, params⟩) none)
    have hfs := h.create_unwritten (.event params)
      (.locking (JsonRpcNotification.toDict ⟨FEATURE_EVENT, params⟩) none)
    obtain ⟨hgood, hset⟩ := hap.send hq hfs hc hev rfl (.inl ⟨params, rfl⟩)
    exact ⟨hgood, .creates _ _ 2 s.loop rfl (if_pos hc) (.inl rfl) hset⟩
  · rename_i hc
    exact ⟨h, .aside rfl (if_neg hc) rfl (.inl rfl)⟩

theorem readLine_good {raised : DecodeError → Exn} {b : Bytes} (hn : 2 ≤ rt.py.nesting)
    (hev : ∀ params, F (.event params))
    (hF : ∀ r e, raisedBy rt s (.line b) = some (r, e) → rescue r false e = none →
      F (.request r))
    (h : Good rt F s) (hl : s.loop = .reading) :
    Good rt F (s.readLine rt raised b) ∧ Stepped rt s (.line b) (s.readLine rt raised b) := by
  have hnot : ∀ j, s.loop ≠ .awaiting j := by
    intro j hj
    cases hl.symm.trans hj
  unfold readLine
  by_cases hnil : b = []
  · rw [if_pos hnil]
    exact ⟨h.roll (by rw [hl]; rfl) (.inl rfl),
      .aside rfl (if_pos hnil) rfl (.inr ⟨.inl hnil, hnot⟩)⟩
  · rw [if_neg hnil]
    cases hd : decodeMessage rt.py b with
    | error e =>
      cases e with
      | protocol text =>
        obtain ⟨hgood, p, n, hset⟩ := refuse_good hn hev h hl text
        exact ⟨hgood, .creates _ p n _ rfl (by simp only [brings, hd, hnil, if_false])
          (.inr ⟨hl, rfl⟩) hset⟩
      | _ =>
        refine ⟨h.roll (by rw [hl]; rfl) (.inr ⟨_, rfl⟩),
          .aside rfl ?_ rfl (.inr ⟨.inr ⟨_, hd, ?_⟩, hnot⟩)⟩
        · simp only [brings, hd, hnil, if_false]
        · rintro text ⟨⟩
    | ok m =>
      cases m with
      | request r =>
        obtain ⟨hgood, loop, hloop, n, hset⟩ := accept_good hn (request_identifies hd)
          (fun hinline e he => hF r e (by
            simp only [raisedBy, hd, hinline, he, if_true, Option.map_some])) h hl
        exact ⟨hgood, .creates _ _ n loop rfl (by simp only [brings, hd, hnil, if_false]) hloop hset⟩
      | _ => exact ⟨h, .aside rfl (by simp only [brings, hd, hnil, if_false]) rfl (.inl rfl)⟩

end Steps

/-- Every step keeps the service good. `hF` tells that a request may end with an exception that no
clause of `_handle_request` answers. -/
theorem step_good {raised : DecodeError → Exn} {version : Str} {a : Action}
    (hn : 2 ≤ rt.py.nesting) (hev : ∀ params, F (.event params))
    (hF : ∀ r e, raisedBy rt s a = some (r, e) → rescue r false e = none → F (.request r))
    (ha : a.undisturbed = true) (h : Good rt F s) (hs : step rt raised version s a = some s') :
    Good rt F s' ∧ Stepped rt s a s' := by
  cases a with
  | serve =>
    simp only [step] at hs
    split at hs
    · rename_i hl
      cases hs
      exact ⟨h.serve, .aside rfl rfl rfl (.inr ⟨trivial, fun j hj => by cases hl.symm.trans hj⟩)⟩
    · cases hs
  | line b =>
    simp only [step] at hs
    split at hs
    · rename_i hl
      cases hs
      exact readLine_good hn hev hF h hl
    · cases hs
  | readFails e =>
    simp only [step] at hs
    split at hs
    · rename_i hl
      cases hs
      exact ⟨h.roll (by rw [hl]; rfl) (.inr ⟨e, rfl⟩),
        .aside rfl rfl rfl (.inr ⟨trivial, fun j hj => by cases hl.symm.trans hj⟩)⟩
    · cases hs
  | close =>
    simp only [step] at hs
    split at hs
    · cases hs
    · rename_i hjobs
      have hjobs := Bool.eq_false_iff.2 hjobs
      split at hs
      · rename_i hl
        cases hs
        exact ⟨h.close hjobs,
          .aside rfl rfl rfl (.inr ⟨trivial, fun j hj => by cases hl.symm.trans hj⟩)⟩
      · rename_i hl
        cases hs
        exact ⟨h.close hjobs,
          .aside rfl rfl rfl (.inr ⟨trivial, fun j hj => by cases hl.symm.trans hj⟩)⟩
      · cases hs
  | breaks => cases ha
  | begin i =>
    obtain ⟨p, hp, hs⟩ := Option.bind_eq_some_iff.1 hs
    exact begin_good hn hF h hp hs
  | hook i outcome =>
    obtain ⟨p, hp, hs⟩ := Option.bind_eq_some_iff.1 hs
    exact hook_good hn hF h hp hs
  | locked i =>
    obtain ⟨p, hp, hs⟩ := Option.bind_eq_some_iff.1 hs
    exact locked_good hn hev hF h hp hs
  | drained i e =>
    cases e with
    | some e => cases ha
    | none =>
      obtain ⟨p, hp, hs⟩ := Option.bind_eq_some_iff.1 hs
      exact drained_good h hp hs
  | interrupted i =>
    obtain ⟨p, hp, hs⟩ := Option.bind_eq_some_iff.1 hs
    exact (not_interrupted h hp hs).elim
  | cancel i => cases ha
  | registers registry =>
    cases hs
    exact ⟨h.aside s.life registry s.called rfl, .aside rfl rfl rfl (.inl rfl)⟩
  | event params =>
    cases hs
    exact emitEvent_good hev h params
  | onInitialize i =>
    simp only [step] at hs
    split at hs
    · rename_i params _
      cases hs
      rcases onInitialize_cases version s params with ho | ⟨config, -, ho⟩
      · rw [ho]
        exact ⟨h, .aside rfl rfl rfl (.inl rfl)⟩
      · rw [ho]
        exact ⟨h.aside _ s.registry s.called rfl, .aside rfl rfl rfl (.inl rfl)⟩
    · cases hs
  | callTool name =>
    cases hs
    rcases callTool_cases s name with ho | ⟨called, ho⟩
    · rw [ho]
      exact ⟨h, .aside rfl rfl rfl (.inl rfl)⟩
    · rw [ho]
      exact ⟨h.aside s.life s.registry called rfl, .aside rfl rfl rfl (.inl rfl)⟩
  | callHostIngress name =>
    cases hs
    rcases callHostIngress_cases s name with ho | ⟨called, ho⟩
    · rw [ho]
      exact ⟨h, .aside rfl rfl rfl (.inl rfl)⟩
    · rw [ho]
      exact ⟨h.aside s.life s.registry called rfl, .aside rfl rfl rfl (.inl rfl)⟩

theorem start_good : Good rt F {} := by
  constructor
  · rintro ⟨⟩
  · rfl
  · rintro i job ⟨⟩
  · rintro i ⟨⟩
  · rintro i e ⟨⟩
  · intro f hf
    cases hf
  · refine ⟨[], rfl, List.nodup_nil, fun i => ?_, ?_⟩
    · exact iff_of_false List.not_mem_nil Bool.false_ne_true
    · rintro i ⟨⟩
  · rintro ⟨⟩

/-- A job that has not ended awaits its hook, or something can be done at the write lock. -/
theorem Good.progress (h : Good rt F s) (raised : DecodeError → Exn) (version : Str) {job : Job}
    (hj : s.jobs[i]? = some job) :
    job.pc.isEnded = true ∨ (∃ r hook, job.pc = .awaiting r hook) ∨
      ∃ a, a.own.isSome = true ∧ a.undisturbed = true ∧
        (step rt raised version s a).isSome = true := by
  have hpcs : ∀ {j : Nat} {job : Job}, s.jobs[j]? = some job → s.pc j = some job.pc := by
    intro j job hj
    unfold pc
    rw [hj]
    rfl
  have hheld : ∀ {j : Nat} {q : List Nat}, s.writeLock = .ofQueue (j :: q) →
      Attended JobPc.waits JobPc.holds (j :: q) s.pc → ∃ a : Action, a.own.isSome = true ∧
        a.undisturbed = true ∧ (step rt raised version s a).isSome = true := by
    intro j q hl hq
    have howner : s.writeLock.owner = some j := by rw [hl]; rfl
    obtain ⟨p, hp, hw⟩ := (Option.any_eq_true _ _).1 ((hq.mem j).1 List.mem_cons_self)
    cases p with
    | locking data handled =>
      refine ⟨.locked j, rfl, rfl, ?_⟩
      simp only [step, hp, Option.bind_some, Server.resume, howner, if_true, Option.isSome_some]
    | draining handled =>
      refine ⟨.drained j none, rfl, rfl, ?_⟩
      simp only [step, hp, Option.bind_some, Server.resume, Option.isSome_some]
    | _ => cases hw
  have hqueued : job.pc.waits = true → ∃ a : Action, a.own.isSome = true ∧
      a.undisturbed = true ∧ (step rt raised version s a).isSome = true := by
    intro hw
    obtain ⟨q, hl, hq⟩ := h.queue
    have hmem : i ∈ q := (hq.mem i).2 (by rw [hpcs hj]; exact hw)
    cases q with
    | nil => cases hmem
    | cons j q => exact hheld hl hq
  have hp := hpcs hj
  cases hpc : job.pc with
  | created r =>
    rw [hpc] at hp
    refine .inr (.inr ⟨.begin i, rfl, rfl, ?_⟩)
    simp only [step, hp, Option.bind_some, Server.resume]
    split
    · rfl
    · rfl
  | awaiting r hook => exact .inr (.inl ⟨r, hook, rfl⟩)
  | locking data handled => exact .inr (.inr (hqueued (by rw [hpc]; rfl)))
  | draining handled => exact .inr (.inr (hqueued (by rw [hpc]; rfl)))
  | ended result => exact .inl rfl

namespace Server

/-- The steps that the jobs have left, at most. -/
def rank (s : Server) : Nat := (s.jobs.map fun job => job.pc.rank).sum

end Server

theorem sum_modify {α : Type} (f : α → α) (g : α → Nat) {l : List α} {i : Nat} {a : α}
    (h : l[i]? = some a) : ((l.modify i f).map g).sum + g a = (l.map g).sum + g (f a) := by
  induction l generalizing i with
  | nil => cases h
  | cons b l ih =>
    cases i with
    | zero =>
      cases h
      simp only [List.modify_zero_cons, List.map_cons, List.sum_cons]
      omega
    | succ i =>
      have hl := ih h
      simp only [List.modify_succ_cons, List.map_cons, List.sum_cons]
      omega

/-- Every step of a job is one less for it to do. -/
theorem Settles.rank_lt {n : Nat} {p : JobPc} (h : Settles n i s s') (hp : s.pc i = some p)
    (hn : n < p.rank) : s'.rank < s.rank := by
  obtain ⟨p', hjobs, hp', -⟩ := h
  obtain ⟨job, hj, rfl⟩ := job_of_pc hp
  have hsum := sum_modify (fun job : Job => { job with pc := p' }) (fun job => job.pc.rank) hj
  have hrank : s'.rank = ((s.jobs.modify i fun job => { job with pc := p' }).map
      fun job => job.pc.rank).sum := by
    unfold rank
    rw [hjobs]
    rfl
  have hold : s.rank = (s.jobs.map fun job => job.pc.rank).sum := rfl
  simp only at hsum
  omega

end KestrelSdk.Service
