import Mathlib.Data.List.Range
import KestrelSdk.Asyncio.Machine
import KestrelSdk.Json.Bytes

/-! `_ThreadedStdioReader`, its thread and its callers. -/

namespace KestrelSdk.Stdio

open Asyncio
open Json (Bytes)

/-- What `stream.readline()` comes to: a line, empty at the end of the stream, or an exception. -/
inductive ReadResult where
  | line (b : Bytes)
  | raised (e : Nat)
  deriving DecidableEq

/-- Where the caller of a `readline` stands. -/
inductive ReaderCaller where
  | awaiting
  | returned (r : ReadResult)
  | cancelled
  deriving DecidableEq

/-- A `readline` with its future. -/
structure Readline where
  loop : Nat
  completion : Option ReadResult
  caller : ReaderCaller
  deriving DecidableEq

/-- Where the thread of `_threaded_stdio_read_loop` is. -/
inductive ReaderWorker where
  | absent
  | getting
  | reading (d : Nat)
  | reporting (d : Nat) (r : ReadResult)
  | ended
  deriving DecidableEq

/-- Where `close` stands: it holds the state lock while it empties the queue, and resolves the
readlines of its snapshot then. -/
inductive Closer where
  | idle
  | draining (ds : List Nat)
  | resolving (ds : List Nat)
  deriving DecidableEq

/-- `_ThreadedStdioReader`. A readline is its place in `calls`, `forgets` are the done callbacks that
have not run, and `reads` is all that the stream gave, with the readline it was read for. -/
structure Reader where
  requests : List (Option Nat) := []
  pending : List Nat := []
  worker : ReaderWorker := .absent
  closer : Closer := .idle
  calls : List Readline := []
  callbacks : List (Nat × ReadResult) := []
  forgets : List Nat := []
  closedLoops : List Nat := []
  reads : List (Nat × ReadResult) := []
  deriving DecidableEq

/-- The readlines that `close` has still to resolve. -/
def Closer.owing : Closer → List Nat
  | .idle => []
  | .draining ds => ds
  | .resolving ds => ds

/-- The readline that the thread reads for. -/
def ReaderWorker.current : ReaderWorker → List Nat
  | .reading d => [d]
  | _ => []

namespace Reader

/-- `_closed`. -/
def closed (s : Reader) : Bool :=
  match s.closer with
  | .idle => false
  | _ => true

/-- Whether `close` holds the state lock. -/
def locked (s : Reader) : Bool :=
  match s.closer with
  | .draining _ => true
  | _ => false

def onOpenLoop (s : Reader) (d : Nat) : Bool := (s.calls[d]?).any fun c => c.loop ∉ s.closedLoops

def awaits (s : Reader) (d : Nat) : Bool := (s.calls[d]?).any fun c => c.caller = .awaiting

/-- `loop.call_soon_threadsafe`, which a closed loop refuses. -/
def callSoon (s : Reader) (d : Nat) (r : ReadResult) : Reader :=
  if s.onOpenLoop d then { s with callbacks := s.callbacks ++ [(d, r)] } else s

/-- `readline`, up to its await. -/
def readline (s : Reader) (loop : Nat) : Reader :=
  if s.closed then { s with calls := s.calls ++ [⟨loop, none, .returned (.line [])⟩] }
  else { s with
    calls := s.calls ++ [⟨loop, none, .awaiting⟩]
    pending := s.pending ++ [s.calls.length]
    requests := s.requests ++ [some s.calls.length]
    worker := if s.worker = .absent then .getting else s.worker }

/-- Whether the weak reference to the future of a readline is dead: nobody waits for it, and nothing
holds it. -/
def collected (s : Reader) (d : Nat) : Bool :=
  d ∉ s.pending && d ∉ s.closer.owing && !s.awaits d && s.callbacks.all fun x => x.1 ≠ d

end Reader

/-- `_set_future_result` and `_set_future_exception`. -/
def Readline.resolve (r : ReadResult) (c : Readline) : Readline :=
  match c.completion with
  | none => { c with completion := some r }
  | some _ => c

/-- A result that a readline has, or has returned. -/
def Readline.Holds (c : Readline) (r : ReadResult) : Prop :=
  c.completion = some r ∨ c.caller = .returned r

theorem Readline.resolve_holds {c : Readline} {r r' : ReadResult} (h : (c.resolve r).Holds r') :
    c.Holds r' ∨ r' = r := by
  unfold resolve at h
  split at h
  · rcases h with h | h
    · exact .inr (Option.some.inj h).symm
    · exact .inl (.inr h)
  · exact .inl h

/-- What happens to a reader: calls, steps of the thread and of `close`, and what the event loops
do. -/
inductive ReaderEvent where
  | readline (loop : Nat)
  | close
  | discard
  | mark
  | resolve
  | get
  | read (r : ReadResult)
  | report (gone : Bool)
  | callback (d : Nat) (r : ReadResult)
  | forget (d : Nat)
  | resume (d : Nat)
  | cancel (d : Nat)
  | closeLoop (loop : Nat)
  deriving DecidableEq

namespace Reader

def step (s : Reader) : ReaderEvent → Option Reader
  | .readline loop => if s.locked ∨ loop ∈ s.closedLoops then none else some (s.readline loop)
  | .close =>
    match s.closer with
    | .idle => some { s with closer := .draining s.pending, pending := [] }
    | .draining _ => none
    | .resolving _ => some s
  | .discard =>
    match s.closer, s.requests with
    | .draining _, _ :: rest => some { s with requests := rest }
    | _, _ => none
  | .mark =>
    match s.closer, s.requests with
    | .draining ds, [] => some { s with closer := .resolving ds, requests := [none] }
    | _, _ => none
  | .resolve =>
    match s.closer with
    | .resolving (d :: ds) => some { s.callSoon d (.line []) with closer := .resolving ds }
    | _ => none
  | .get =>
    match s.worker, s.requests with
    | .getting, some d :: rest => some { s with requests := rest, worker := .reading d }
    | .getting, none :: rest => some { s with requests := rest, worker := .ended }
    | _, _ => none
  | .read r =>
    match s.worker with
    | .reading d => some { s with worker := .reporting d r, reads := s.reads ++ [(d, r)] }
    | _ => none
  | .report gone =>
    match s.worker with
    | .reporting d r =>
      if gone then
        if s.collected d then some { s with worker := .getting } else none
      else some { s.callSoon d r with worker := .getting }
    | _ => none
  | .callback d r =>
    if (d, r) ∈ s.callbacks ∧ s.onOpenLoop d then
      some { s with
        callbacks := s.callbacks.erase (d, r)
        calls := s.calls.modify d (·.resolve r)
        forgets := if (s.calls[d]?).any fun c => c.completion = none then s.forgets ++ [d]
                   else s.forgets }
    else none
  | .forget d =>
    if d ∈ s.forgets ∧ s.onOpenLoop d ∧ s.locked = false then
      some { s with forgets := s.forgets.erase d, pending := s.pending.erase d }
    else none
  | .resume d =>
    match s.calls[d]? with
    | some ⟨loop, some r, .awaiting⟩ =>
      if loop ∈ s.closedLoops then none
      else some { s with calls := s.calls.modify d fun c => { c with caller := .returned r } }
    | _ => none
  | .cancel d =>
    if s.awaits d ∧ s.onOpenLoop d then
      some { s with calls := s.calls.modify d fun c => { c with caller := .cancelled } }
    else none
  | .closeLoop loop => some { s with closedLoops := loop :: s.closedLoops }

end Reader

/-- A reader, its thread and its callers. -/
def reader : Machine Reader ReaderEvent where
  start := {}
  step := Reader.step

variable {s s' : Reader} {e : ReaderEvent} {d : Nat}

/-- What each step does, and when. -/
inductive ReaderMove (s : Reader) : ReaderEvent → Reader → Prop where
  | refused (loop : Nat) (hc : s.locked = false) (hclosed : s.closed = true) :
      ReaderMove s (.readline loop)
        { s with calls := s.calls ++ [⟨loop, none, .returned (.line [])⟩] }
  | accepts (loop : Nat) (hc : s.closer = .idle) :
      ReaderMove s (.readline loop) { s with
        calls := s.calls ++ [⟨loop, none, .awaiting⟩]
        pending := s.pending ++ [s.calls.length]
        requests := s.requests ++ [some s.calls.length]
        worker := if s.worker = .absent then .getting else s.worker }
  | closes (hc : s.closer = .idle) :
      ReaderMove s .close { s with closer := .draining s.pending, pending := [] }
  | again (ds : List Nat) (hc : s.closer = .resolving ds) : ReaderMove s .close s
  | discards (ds : List Nat) (x : Option Nat) (rest : List (Option Nat))
      (hc : s.closer = .draining ds) (hr : s.requests = x :: rest) :
      ReaderMove s .discard { s with requests := rest }
  | marks (ds : List Nat) (hc : s.closer = .draining ds) (hr : s.requests = []) :
      ReaderMove s .mark { s with closer := .resolving ds, requests := [none] }
  | resolves (d : Nat) (ds : List Nat) (hc : s.closer = .resolving (d :: ds)) :
      ReaderMove s .resolve { s.callSoon d (.line []) with closer := .resolving ds }
  | takes (d : Nat) (rest : List (Option Nat)) (hw : s.worker = .getting)
      (hr : s.requests = some d :: rest) :
      ReaderMove s .get { s with requests := rest, worker := .reading d }
  | leaves (rest : List (Option Nat)) (hw : s.worker = .getting) (hr : s.requests = none :: rest) :
      ReaderMove s .get { s with requests := rest, worker := .ended }
  | reads (d : Nat) (r : ReadResult) (hw : s.worker = .reading d) :
      ReaderMove s (.read r) { s with worker := .reporting d r, reads := s.reads ++ [(d, r)] }
  | reports (d : Nat) (r : ReadResult) (hw : s.worker = .reporting d r) :
      ReaderMove s (.report false) { s.callSoon d r with worker := .getting }
  | drops (d : Nat) (r : ReadResult) (hw : s.worker = .reporting d r) (hd : s.collected d = true) :
      ReaderMove s (.report true) { s with worker := .getting }
  | calls (d : Nat) (r : ReadResult) (hd : (d, r) ∈ s.callbacks) :
      ReaderMove s (.callback d r) { s with
        callbacks := s.callbacks.erase (d, r)
        calls := s.calls.modify d (·.resolve r)
        forgets := if (s.calls[d]?).any fun c => c.completion = none then s.forgets ++ [d]
                   else s.forgets }
  | forgets (d : Nat) (hd : d ∈ s.forgets) :
      ReaderMove s (.forget d) { s with
        forgets := s.forgets.erase d, pending := s.pending.erase d }
  | resumes (d : Nat) (loop : Nat) (r : ReadResult) (hd : s.calls[d]? = some ⟨loop, some r, .awaiting⟩) :
      ReaderMove s (.resume d) { s with
        calls := s.calls.modify d fun c => { c with caller := .returned r } }
  | cancels (d : Nat) :
      ReaderMove s (.cancel d) { s with
        calls := s.calls.modify d fun c => { c with caller := .cancelled } }
  | ends (loop : Nat) :
      ReaderMove s (.closeLoop loop) { s with closedLoops := loop :: s.closedLoops }

theorem Reader.step_move (h : s.step e = some s') : ReaderMove s e s' := by
  cases e with
  | readline loop =>
    simp only [Reader.step] at h
    split at h
    · cases h
    · rename_i hl
      cases h
      have hlocked : s.locked = false := Bool.eq_false_iff.2 fun hlocked => hl (.inl hlocked)
      unfold Reader.readline
      split
      · rename_i hclosed
        exact .refused loop hlocked hclosed
      · rename_i hopen
        apply ReaderMove.accepts loop
        unfold Reader.closed at hopen
        split at hopen
        · assumption
        · exact absurd rfl hopen
  | close =>
    simp only [Reader.step] at h
    split at h
    · rename_i hc
      cases h
      exact .closes hc
    · cases h
    · rename_i ds hc
      cases h
      exact .again ds hc
  | discard =>
    simp only [Reader.step] at h
    split at h
    · rename_i ds x rest hc hr
      cases h
      exact .discards ds x rest hc hr
    · cases h
  | mark =>
    simp only [Reader.step] at h
    split at h
    · rename_i ds hc hr
      cases h
      exact .marks ds hc hr
    · cases h
  | resolve =>
    simp only [Reader.step] at h
    split at h
    · rename_i d ds hc
      cases h
      exact .resolves d ds hc
    · cases h
  | get =>
    simp only [Reader.step] at h
    split at h
    · rename_i d rest hw hr
      cases h
      exact .takes d rest hw hr
    · rename_i rest hw hr
      cases h
      exact .leaves rest hw hr
    · cases h
  | read r =>
    simp only [Reader.step] at h
    split at h
    · rename_i d hw
      cases h
      exact .reads d r hw
    · cases h
  | report gone =>
    simp only [Reader.step] at h
    split at h
    · rename_i d r hw
      cases gone with
      | false =>
        cases h
        exact .reports d r hw
      | true =>
        simp only [if_true] at h
        split at h
        · rename_i hd
          cases h
          exact .drops d r hw hd
        · cases h
    · cases h
  | callback d r =>
    simp only [Reader.step] at h
    split at h
    · rename_i hd
      cases h
      exact .calls d r hd.1
    · cases h
  | forget d =>
    simp only [Reader.step] at h
    split at h
    · rename_i hd
      cases h
      exact .forgets d hd.1
    · cases h
  | resume d =>
    simp only [Reader.step] at h
    split at h
    · rename_i loop r hd
      split at h
      · cases h
      · cases h
        exact .resumes d loop r hd
    · cases h
  | cancel d =>
    simp only [Reader.step] at h
    split at h
    · cases h
      exact .cancels d
    · cases h
  | closeLoop loop =>
    cases h
    exact .ends loop

namespace Reader

/-- `call_soon_threadsafe` touches the callbacks only. -/
theorem callSoon_frame (s : Reader) (d : Nat) (r : ReadResult) :
    ∃ new : List (Nat × ReadResult), (∀ x ∈ new, x = (d, r)) ∧
      s.callSoon d r = { s with callbacks := s.callbacks ++ new } ∧
      (s.onOpenLoop d = true → (d, r) ∈ (s.callSoon d r).callbacks) := by
  unfold callSoon
  split
  · refine ⟨[(d, r)], fun x hx => List.mem_singleton.1 hx, rfl, fun _ => ?_⟩
    exact List.mem_append_right _ List.mem_cons_self
  · rename_i ho
    refine ⟨[], List.forall_mem_nil _, ?_, fun h => absurd h ho⟩
    rw [List.append_nil]

/-- The readlines that the thread has served, serves, and has to serve. -/
def turns (s : Reader) : List Nat := s.reads.map Prod.fst ++ s.worker.current ++ s.requests.filterMap id

/-- The readlines are served in the order of their calls. -/
structure InTurn (s : Reader) : Prop where
  ascending : s.turns.Pairwise (· < ·)
  bound : ∀ d ∈ s.turns, d < s.calls.length
  whole : s.closer = .idle → s.turns = List.range s.calls.length

theorem InTurn.sublist (h : s.InTurn) (ht : s'.turns.Sublist s.turns)
    (hc : s.calls.length ≤ s'.calls.length) (hi : s'.closer ≠ .idle) : s'.InTurn :=
  ⟨h.ascending.sublist ht, fun d hd => Nat.lt_of_lt_of_le (h.bound d (ht.subset hd)) hc,
    fun hidle => absurd hidle hi⟩

theorem InTurn.congr (h : s.InTurn) (ht : s'.turns = s.turns) (hc : s'.calls.length = s.calls.length)
    (hi : s'.closer = .idle → s.closer = .idle) : s'.InTurn := by
  refine ⟨ht ▸ h.ascending, fun d hd => ?_, fun hidle => ?_⟩
  · rw [hc]
    exact h.bound d (ht ▸ hd)
  · rw [ht, hc]
    exact h.whole (hi hidle)

theorem InTurn.step (h : s.InTurn) (hm : ReaderMove s e s') : s'.InTurn := by
  cases hm with
  | refused loop hc hclosed =>
    refine h.sublist (List.Sublist.refl _) ?_ fun hidle => ?_
    · rw [List.length_append]
      omega
    · unfold closed at hclosed
      rw [show s.closer = .idle from hidle] at hclosed
      cases hclosed
  | accepts loop hc =>
    have hcurrent : (if s.worker = .absent then ReaderWorker.getting else s.worker).current =
        s.worker.current := by
      split
      · rename_i hw
        rw [hw]
        rfl
      · rfl
    have hturns : ({ s with
        calls := s.calls ++ [⟨loop, none, .awaiting⟩]
        pending := s.pending ++ [s.calls.length]
        requests := s.requests ++ [some s.calls.length]
        worker := if s.worker = .absent then .getting else s.worker } : Reader).turns =
        s.turns ++ [s.calls.length] := by
      unfold turns
      rw [hcurrent, List.filterMap_append, ← List.append_assoc]
      rfl
    have hwhole := h.whole hc
    rw [hwhole, ← List.range_succ] at hturns
    refine ⟨?_, fun d hd => ?_, fun _ => ?_⟩
    · rw [hturns]
      exact List.pairwise_lt_range
    · rw [hturns] at hd
      rw [List.length_append, List.length_singleton]
      exact List.mem_range.1 hd
    · rw [hturns, List.length_append, List.length_singleton]
  | closes hc => exact h.sublist (List.Sublist.refl _) (Nat.le_refl _) (by simp)
  | again ds hc => exact h
  | discards ds x rest hc hr =>
    refine h.sublist ?_ (Nat.le_refl _) (by rw [hc]; simp)
    unfold turns
    rw [hr]
    exact ((List.sublist_cons_self x rest).filterMap id).append_left _
  | marks ds hc hr =>
    refine h.sublist ?_ (Nat.le_refl _) (by simp)
    unfold turns
    rw [hr]
    exact List.Sublist.refl _
  | resolves d ds hc =>
    obtain ⟨new, -, heq, -⟩ := s.callSoon_frame d (.line [])
    rw [heq]
    exact h.congr rfl rfl (by simp)
  | takes d rest hw hr =>
    refine h.congr ?_ rfl id
    unfold turns
    rw [hw, hr]
    simp [ReaderWorker.current]
  | leaves rest hw hr =>
    refine h.congr ?_ rfl id
    unfold turns
    rw [hw, hr]
    rfl
  | reads d r hw =>
    refine h.congr ?_ rfl id
    unfold turns
    rw [hw, List.map_append]
    simp [ReaderWorker.current]
  | reports d r hw =>
    obtain ⟨new, -, heq, -⟩ := s.callSoon_frame d r
    rw [heq]
    refine h.congr ?_ rfl id
    unfold turns
    rw [hw]
    rfl
  | drops d r hw hd =>
    refine h.congr ?_ rfl id
    unfold turns
    rw [hw]
    rfl
  | calls d r hd => exact h.congr rfl (List.length_modify ..) id
  | forgets d hd => exact h.congr rfl rfl id
  | resumes d loop r hd => exact h.congr rfl (List.length_modify ..) id
  | cancels d => exact h.congr rfl (List.length_modify ..) id
  | ends loop => exact h.congr rfl rfl id

/-- Where the result of a readline comes from: the stream, or a close. -/
def Gives (s : Reader) (d : Nat) (r : ReadResult) : Prop :=
  (d, r) ∈ s.reads ∨ s.closed = true ∧ r = .line []

/-- Whatever reaches a readline was read for it, or is the empty line of a close. -/
structure Honest (s : Reader) : Prop where
  callbacks : ∀ x ∈ s.callbacks, s.Gives x.1 x.2
  reporting : ∀ d r, s.worker = .reporting d r → (d, r) ∈ s.reads
  calls : ∀ (d : Nat) c r, s.calls[d]? = some c → c.Holds r → s.Gives d r

theorem Gives.mono {d : Nat} {r : ReadResult} (h : s.Gives d r)
    (hr : ∀ x ∈ s.reads, x ∈ s'.reads) (hc : s.closed = true → s'.closed = true) : s'.Gives d r := by
  rcases h with h | ⟨hclosed, hline⟩
  · exact .inl (hr _ h)
  · exact .inr ⟨hc hclosed, hline⟩

theorem Honest.mono (h : s.Honest) (hr : ∀ x ∈ s.reads, x ∈ s'.reads)
    (hc : s.closed = true → s'.closed = true)
    (hcallbacks : ∀ x ∈ s'.callbacks, x ∈ s.callbacks ∨ s'.Gives x.1 x.2)
    (hw : ∀ d r, s'.worker = .reporting d r → (d, r) ∈ s'.reads)
    (hcalls : ∀ (d : Nat) c' r, s'.calls[d]? = some c' → c'.Holds r →
      s'.Gives d r ∨ ∃ c, s.calls[d]? = some c ∧ c.Holds r) : s'.Honest := by
  refine ⟨fun x hx => ?_, hw, fun d c' r hd hholds => ?_⟩
  · rcases hcallbacks x hx with hx | hx
    · exact (h.callbacks x hx).mono hr hc
    · exact hx
  · rcases hcalls d c' r hd hholds with hgives | ⟨c, hcall, hholds⟩
    · exact hgives
    · exact (h.calls d c r hcall hholds).mono hr hc

/-- A step that leaves the calls and the callbacks alone. -/
theorem Honest.quiet (h : s.Honest) (hr : s'.reads = s.reads)
    (hc : s.closed = true → s'.closed = true) (hcallbacks : s'.callbacks = s.callbacks)
    (hcalls : s'.calls = s.calls)
    (hw : ∀ d r, s'.worker = .reporting d r → s.worker = .reporting d r) : s'.Honest := by
  refine h.mono (fun x hx => hr ▸ hx) hc (fun x hx => .inl (hcallbacks ▸ hx)) (fun d r hd => ?_)
    fun d c r hd hholds => .inr ⟨c, hcalls ▸ hd, hholds⟩
  rw [hr]
  exact h.reporting d r (hw d r hd)

/-- A call after a step on one of them. -/
theorem call_modified {d j : Nat} {f : Readline → Readline} {c' : Readline}
    (h : (s.calls.modify d f)[j]? = some c') :
    ∃ c, s.calls[j]? = some c ∧ c' = if d = j then f c else c := by
  rw [List.getElem?_modify] at h
  obtain ⟨c, hc, hc'⟩ := Option.map_eq_some_iff.1 h
  exact ⟨c, hc, hc'.symm⟩

/-- A call after a new one. -/
theorem call_appended {c : Readline} {d : Nat} {c' : Readline}
    (h : (s.calls ++ [c])[d]? = some c') : s.calls[d]? = some c' ∨ d = s.calls.length ∧ c' = c := by
  by_cases hd : d < s.calls.length
  · rw [List.getElem?_append_left hd] at h
    exact .inl h
  · rw [List.getElem?_append_right (Nat.le_of_not_lt hd)] at h
    obtain ⟨hlt, hc⟩ := List.getElem?_eq_some_iff.1 h
    rw [List.length_singleton] at hlt
    refine .inr ⟨by omega, ?_⟩
    rw [← hc]
    exact List.getElem_singleton _

theorem Honest.step (h : s.Honest) (hm : ReaderMove s e s') : s'.Honest := by
  cases hm with
  | refused loop hc hclosed =>
    refine h.mono (fun x hx => hx) id (fun x hx => .inl hx) h.reporting fun d c r hd hholds => ?_
    rcases call_appended hd with hd | ⟨-, rfl⟩
    · exact .inr ⟨c, hd, hholds⟩
    · rcases hholds with hholds | hholds
      · cases hholds
      · cases hholds
        exact .inl (.inr ⟨hclosed, rfl⟩)
  | accepts loop hc =>
    refine h.mono (fun x hx => hx) id (fun x hx => .inl hx) (fun d r hw => ?_) fun d c r hd hholds => ?_
    · dsimp only at hw
      split at hw
      · cases hw
      · exact h.reporting d r hw
    · rcases call_appended hd with hd | ⟨-, rfl⟩
      · exact .inr ⟨c, hd, hholds⟩
      · rcases hholds with hholds | hholds
        · cases hholds
        · cases hholds
  | closes hc => exact h.quiet rfl (fun _ => rfl) rfl rfl fun _ _ hw => hw
  | again ds hc => exact h
  | discards ds x rest hc hr => exact h.quiet rfl id rfl rfl fun _ _ hw => hw
  | marks ds hc hr => exact h.quiet rfl (fun _ => rfl) rfl rfl fun _ _ hw => hw
  | resolves d ds hc =>
    obtain ⟨new, hnew, heq, -⟩ := s.callSoon_frame d (.line [])
    rw [heq]
    refine h.mono (fun x hx => hx) (fun _ => rfl) (fun x hx => ?_) h.reporting
      fun d c r hd hholds => .inr ⟨c, hd, hholds⟩
    rcases List.mem_append.1 hx with hx | hx
    · exact .inl hx
    · rw [hnew x hx]
      exact .inr (.inr ⟨rfl, rfl⟩)
  | takes d rest hw hr => exact h.quiet rfl id rfl rfl fun _ _ hw => by cases hw
  | leaves rest hw hr => exact h.quiet rfl id rfl rfl fun _ _ hw => by cases hw
  | reads d r hw =>
    refine h.mono (fun x hx => List.mem_append_left _ hx) id (fun x hx => .inl hx)
      (fun d' r' hw' => ?_) fun d c r hd hholds => .inr ⟨c, hd, hholds⟩
    cases hw'
    exact List.mem_append_right _ List.mem_cons_self
  | reports d r hw =>
    obtain ⟨new, hnew, heq, -⟩ := s.callSoon_frame d r
    rw [heq]
    refine h.mono (fun x hx => hx) id (fun x hx => ?_) (fun _ _ hw => by cases hw)
      fun d c r hd hholds => .inr ⟨c, hd, hholds⟩
    rcases List.mem_append.1 hx with hx | hx
    · exact .inl hx
    · rw [hnew x hx]
      exact .inr (.inl (h.reporting d r hw))
  | drops d r hw hd => exact h.quiet rfl id rfl rfl fun _ _ hw => by cases hw
  | calls d r hd =>
    refine h.mono (fun x hx => hx) id (fun x hx => .inl (List.mem_of_mem_erase hx)) h.reporting
      fun j c' r' hj hholds => ?_
    obtain ⟨c, hc, rfl⟩ := call_modified hj
    split at hholds
    · rename_i hdj
      subst hdj
      rcases Readline.resolve_holds hholds with hholds | rfl
      · exact .inr ⟨c, hc, hholds⟩
      · exact .inl ((h.callbacks _ hd).mono (fun x hx => hx) id)
    · exact .inr ⟨c, hc, hholds⟩
  | forgets d hd => exact h.quiet rfl id rfl rfl fun _ _ hw => hw
  | resumes d loop r hd =>
    refine h.mono (fun x hx => hx) id (fun x hx => .inl hx) h.reporting fun j c' r' hj hholds => ?_
    obtain ⟨c, hc, rfl⟩ := call_modified hj
    split at hholds
    · rename_i hdj
      subst hdj
      obtain rfl := Option.some.inj (hd.symm.trans hc)
      refine .inr ⟨_, hc, ?_⟩
      rcases hholds with hholds | hholds
      · exact .inl hholds
      · cases hholds
        exact .inl rfl
    · exact .inr ⟨c, hc, hholds⟩
  | cancels d =>
    refine h.mono (fun x hx => hx) id (fun x hx => .inl hx) h.reporting fun j c' r' hj hholds => ?_
    obtain ⟨c, hc, rfl⟩ := call_modified hj
    split at hholds
    · refine .inr ⟨c, hc, ?_⟩
      rcases hholds with hholds | hholds
      · exact .inl hholds
      · cases hholds
    · exact .inr ⟨c, hc, hholds⟩
  | ends loop => exact h.quiet rfl id rfl rfl fun _ _ hw => hw

/-- The thread runs while it has requests to serve, and leaves only after a close has emptied the
queue. -/
structure Staffed (s : Reader) : Prop where
  running : s.closer = .idle → s.requests ≠ [] → s.worker ≠ .absent
  leaving : none ∈ s.requests ∨ s.worker = .ended → ∃ ds, s.closer = .resolving ds
  drained : ∀ ds, s.closer = .resolving ds → ∀ d, some d ∉ s.requests

theorem Staffed.congr (h : s.Staffed) (hr : s'.requests = s.requests) (hw : s'.worker = s.worker)
    (hc : s'.closer = s.closer) : s'.Staffed := by
  refine ⟨?_, ?_, ?_⟩
  · rw [hr, hw, hc]
    exact h.running
  · rw [hr, hw, hc]
    exact h.leaving
  · rw [hr, hc]
    exact h.drained

theorem Staffed.step (h : s.Staffed) (hm : ReaderMove s e s') : s'.Staffed := by
  have hidle : s.closer = .idle → none ∉ s.requests ∧ s.worker ≠ .ended := by
    intro hc
    refine ⟨fun hnone => ?_, fun hw => ?_⟩
    · obtain ⟨ds, hds⟩ := h.leaving (.inl hnone)
      cases hc.symm.trans hds
    · obtain ⟨ds, hds⟩ := h.leaving (.inr hw)
      cases hc.symm.trans hds
  -- a thread that goes on to another state than `ended`
  have hturn : ∀ {w : ReaderWorker}, w ≠ .absent → w ≠ .ended →
      ({ s with worker := w } : Reader).Staffed := by
    intro w habsent hended
    refine ⟨fun _ _ => habsent, fun hor => h.leaving (hor.imp_right fun hw => absurd hw hended),
      h.drained⟩
  cases hm with
  | refused loop hc hclosed => exact h.congr rfl rfl rfl
  | accepts loop hc =>
    obtain ⟨hnone, hended⟩ := hidle hc
    refine ⟨fun _ _ => ?_, fun hor => ?_, fun ds hds => ?_⟩
    · dsimp only
      split
      · exact ReaderWorker.noConfusion
      · assumption
    · exfalso
      rcases hor with hor | hor
      · rcases List.mem_append.1 hor with hor | hor
        · exact hnone hor
        · cases List.mem_singleton.1 hor
      · dsimp only at hor
        split at hor
        · cases hor
        · exact hended hor
    · cases hc.symm.trans hds
  | closes hc =>
    obtain ⟨hnone, hended⟩ := hidle hc
    refine ⟨fun hi => ?_, fun hor => ?_, fun ds hds => ?_⟩
    · cases hi
    · exact absurd hor (not_or_intro hnone hended)
    · cases hds
  | again ds hc => exact h
  | discards ds x rest hc hr =>
    refine ⟨fun hi => ?_, fun hor => ?_, fun ds' hds => ?_⟩
    · cases hc.symm.trans hi
    · apply h.leaving
      rw [hr]
      exact hor.imp_left fun hnone => List.mem_cons_of_mem x hnone
    · cases hc.symm.trans hds
  | marks ds hc hr =>
    refine ⟨fun hi => ?_, fun _ => ⟨ds, rfl⟩, fun ds' hds d hd => ?_⟩
    · cases hi
    · cases List.mem_singleton.1 hd
  | resolves d ds hc =>
    obtain ⟨new, -, heq, -⟩ := s.callSoon_frame d (.line [])
    rw [heq]
    refine ⟨fun hi => ?_, fun _ => ⟨ds, rfl⟩, fun ds' hds => h.drained _ hc⟩
    cases hi
  | takes d rest hw hr =>
    refine ⟨fun _ _ => ReaderWorker.noConfusion, fun hor => ?_, fun ds hds d' hd' => ?_⟩
    · apply h.leaving
      rcases hor with hor | hor
      · rw [hr]
        exact .inl (List.mem_cons_of_mem _ hor)
      · cases hor
    · apply h.drained ds hds d'
      rw [hr]
      exact List.mem_cons_of_mem _ hd'
  | leaves rest hw hr =>
    have hnone : none ∈ s.requests := by
      rw [hr]
      exact List.mem_cons_self
    obtain ⟨ds, hds⟩ := h.leaving (.inl hnone)
    refine ⟨fun _ _ => ReaderWorker.noConfusion, fun _ => ⟨ds, hds⟩, fun ds' hds' d' hd' => ?_⟩
    apply h.drained ds' hds' d'
    rw [hr]
    exact List.mem_cons_of_mem _ hd'
  | reads d r hw =>
    have hstaffed := hturn (w := .reporting d r) ReaderWorker.noConfusion ReaderWorker.noConfusion
    exact hstaffed.congr rfl rfl rfl
  | reports d r hw =>
    obtain ⟨new, -, heq, -⟩ := s.callSoon_frame d r
    have hstaffed := hturn (w := .getting) ReaderWorker.noConfusion ReaderWorker.noConfusion
    rw [heq]
    exact hstaffed.congr rfl rfl rfl
  | drops d r hw hd => exact hturn ReaderWorker.noConfusion ReaderWorker.noConfusion
  | calls d r hd => exact h.congr rfl rfl rfl
  | forgets d hd => exact h.congr rfl rfl rfl
  | resumes d loop r hd => exact h.congr rfl rfl rfl
  | cancels d => exact h.congr rfl rfl rfl
  | ends loop => exact h.congr rfl rfl rfl

/-- `_pending`, and then the snapshot of `close`, hold every readline without a result. -/
structure Held (s : Reader) : Prop where
  forgets : ∀ d ∈ s.forgets, ∃ c, s.calls[d]? = some c ∧ c.completion ≠ none
  pending : s.closer = .idle → ∀ (d : Nat) c, s.calls[d]? = some c → c.completion = none →
    d ∈ s.pending
  snapshot : ∀ ds, s.closer = .draining ds → ∀ (d : Nat) c, s.calls[d]? = some c →
    c.completion = none → d ∈ ds

theorem Held.congr (h : s.Held) (hf : s'.forgets = s.forgets) (hp : s'.pending = s.pending)
    (hc : s'.closer = s.closer) (hcalls : s'.calls = s.calls) : s'.Held := by
  refine ⟨?_, ?_, ?_⟩
  · rw [hf, hcalls]
    exact h.forgets
  · rw [hc, hcalls, hp]
    exact h.pending
  · rw [hc, hcalls]
    exact h.snapshot

/-- A step on one of the calls, which takes no result away. -/
theorem Held.modify {d : Nat} {f : Readline → Readline} (h : s.Held) (forgets : List Nat)
    (callbacks : List (Nat × ReadResult)) (hf : ∀ c, (f c).completion = none → c.completion = none)
    (hd : ∀ j ∈ forgets, j ∈ s.forgets ∨
      j = d ∧ (∃ c, s.calls[d]? = some c) ∧ ∀ c, (f c).completion ≠ none) :
    ({ s with calls := s.calls.modify d f, forgets, callbacks } : Reader).Held := by
  have hold : ∀ {j : Nat} {c' : Readline}, (s.calls.modify d f)[j]? = some c' →
      c'.completion = none → ∃ c, s.calls[j]? = some c ∧ c.completion = none := by
    intro j c' hj hnone
    obtain ⟨c, hc, rfl⟩ := call_modified hj
    split at hnone
    · exact ⟨c, hc, hf c hnone⟩
    · exact ⟨c, hc, hnone⟩
  have hnew : ∀ {j : Nat} {c : Readline}, s.calls[j]? = some c →
      (s.calls.modify d f)[j]? = some (if d = j then f c else c) := by
    intro j c hc
    rw [List.getElem?_modify, hc]
    rfl
  refine ⟨fun j hj => ?_, fun hi j c' hj hnone => ?_, fun ds hds j c' hj hnone => ?_⟩
  · rcases hd j hj with hj | ⟨rfl, ⟨c, hc⟩, hsome⟩
    · obtain ⟨c, hc, hne⟩ := h.forgets j hj
      refine ⟨_, hnew hc, ?_⟩
      split
      · exact fun hnone => hne (hf c hnone)
      · exact hne
    · refine ⟨_, hnew hc, ?_⟩
      rw [if_pos rfl]
      exact hsome c
  · obtain ⟨c, hc, hnone⟩ := hold hj hnone
    exact h.pending hi j c hc hnone
  · obtain ⟨c, hc, hnone⟩ := hold hj hnone
    exact h.snapshot ds hds j c hc hnone

theorem resolve_completion (c : Readline) (r : ReadResult) : (c.resolve r).completion ≠ none := by
  unfold Readline.resolve
  split
  · exact Option.some_ne_none r
  · rename_i x hx
    rw [hx]
    exact Option.some_ne_none x

theorem Held.step (h : s.Held) (hm : ReaderMove s e s') : s'.Held := by
  have hforgets : ∀ {new : Readline}, ∀ d ∈ s.forgets,
      ∃ c, (s.calls ++ [new])[d]? = some c ∧ c.completion ≠ none := by
    intro new d hd
    obtain ⟨c, hc, hne⟩ := h.forgets d hd
    refine ⟨c, ?_, hne⟩
    rw [List.getElem?_append_left (List.getElem?_eq_some_iff.1 hc).1, hc]
  cases hm with
  | refused loop hc hclosed =>
    refine ⟨hforgets, fun hi => ?_, fun ds hds => ?_⟩
    · unfold closed at hclosed
      rw [show s.closer = .idle from hi] at hclosed
      cases hclosed
    · unfold locked at hc
      rw [show s.closer = .draining ds from hds] at hc
      cases hc
  | accepts loop hc =>
    refine ⟨hforgets, fun _ d c hd hnone => ?_, fun ds hds => ?_⟩
    · rcases call_appended hd with hd | ⟨rfl, -⟩
      · exact List.mem_append_left _ (h.pending hc d c hd hnone)
      · exact List.mem_append_right _ List.mem_cons_self
    · cases hc.symm.trans hds
  | closes hc =>
    refine ⟨h.forgets, fun hi => ?_, fun ds hds => ?_⟩
    · cases hi
    · cases hds
      exact h.pending hc
  | again ds hc => exact h
  | discards ds x rest hc hr => exact h.congr rfl rfl rfl rfl
  | marks ds hc hr =>
    refine ⟨h.forgets, fun hi => ?_, fun ds hds => ?_⟩
    · cases hi
    · cases hds
  | resolves d ds hc =>
    obtain ⟨new, -, heq, -⟩ := s.callSoon_frame d (.line [])
    rw [heq]
    refine ⟨h.forgets, fun hi => ?_, fun ds hds => ?_⟩
    · cases hi
    · cases hds
  | takes d rest hw hr => exact h.congr rfl rfl rfl rfl
  | leaves rest hw hr => exact h.congr rfl rfl rfl rfl
  | reads d r hw => exact h.congr rfl rfl rfl rfl
  | reports d r hw =>
    obtain ⟨new, -, heq, -⟩ := s.callSoon_frame d r
    rw [heq]
    exact h.congr rfl rfl rfl rfl
  | drops d r hw hd => exact h.congr rfl rfl rfl rfl
  | calls d r hd =>
    refine h.modify _ _ (fun c hnone => absurd hnone (resolve_completion c r)) fun j hj => ?_
    split at hj
    · rename_i hany
      obtain ⟨c, hc, -⟩ := (Option.any_eq_true _ _).1 hany
      rcases List.mem_append.1 hj with hj | hj
      · exact .inl hj
      · exact .inr ⟨List.mem_singleton.1 hj, ⟨c, hc⟩, fun c => resolve_completion c r⟩
    · exact .inl hj
  | forgets d hd =>
    refine ⟨fun j hj => h.forgets j (List.mem_of_mem_erase hj), fun hi j c hj hnone => ?_, h.snapshot⟩
    have hne : j ≠ d := by
      rintro rfl
      obtain ⟨c', hc', hne⟩ := h.forgets j hd
      obtain rfl := Option.some.inj (hj.symm.trans hc')
      exact hne hnone
    exact (List.mem_erase_of_ne hne).2 (h.pending hi j c hj hnone)
  | resumes d loop r hd => exact h.modify _ _ (fun c hnone => hnone) fun j hj => .inl hj
  | cancels d => exact h.modify _ _ (fun c hnone => hnone) fun j hj => .inl hj
  | ends loop => exact h.congr rfl rfl rfl rfl

/-- A readline that waits, on a loop that runs. -/
def Waiting (s : Reader) (d : Nat) : Prop :=
  ∃ c, s.calls[d]? = some c ∧ c.completion = none ∧ c.caller = .awaiting ∧ c.loop ∉ s.closedLoops

/-- Somebody will still give a result to readline `d`. -/
def Owed (s : Reader) (d : Nat) : Prop :=
  some d ∈ s.requests ∨ d ∈ s.worker.current ∨ (∃ r, s.worker = .reporting d r) ∨
    (∃ r, (d, r) ∈ s.callbacks) ∨ d ∈ s.closer.owing

theorem Waiting.onOpenLoop (h : s.Waiting d) : s.onOpenLoop d = true := by
  obtain ⟨c, hc, -, -, hopen⟩ := h
  unfold Reader.onOpenLoop
  rw [hc]
  exact decide_eq_true hopen

/-- What waits after a step waited before, or is the readline of the step. -/
theorem Waiting.old (hm : ReaderMove s e s') (h : s'.Waiting d) :
    s.Waiting d ∨ some d ∈ s'.requests := by
  obtain ⟨c, hd, hnone, hawaits, hopen⟩ := h
  -- a step on one of the calls
  have hmodify : ∀ {j : Nat} {f : Readline → Readline}, (s.calls.modify j f)[d]? = some c →
      c.loop ∉ s.closedLoops → (∀ c, (f c).completion = none → (f c).caller = .awaiting →
        c.completion = none ∧ c.caller = .awaiting ∧ (f c).loop = c.loop) → s.Waiting d := by
    intro j f hj hopen hf
    obtain ⟨c₀, hc₀, rfl⟩ := call_modified hj
    split at hnone
    · rename_i hjd
      rw [if_pos hjd] at hawaits hopen
      obtain ⟨h1, h2, h3⟩ := hf c₀ hnone hawaits
      exact ⟨c₀, hc₀, h1, h2, h3 ▸ hopen⟩
    · rename_i hjd
      rw [if_neg hjd] at hawaits hopen
      exact ⟨c₀, hc₀, hnone, hawaits, hopen⟩
  cases hm with
  | refused loop hc hclosed =>
    rcases call_appended hd with hd | ⟨-, rfl⟩
    · exact .inl ⟨c, hd, hnone, hawaits, hopen⟩
    · cases hawaits
  | accepts loop hc =>
    rcases call_appended hd with hd | ⟨rfl, -⟩
    · exact .inl ⟨c, hd, hnone, hawaits, hopen⟩
    · exact .inr (List.mem_append_right _ List.mem_cons_self)
  | resolves j ds hc =>
    obtain ⟨new, -, heq, -⟩ := s.callSoon_frame j (.line [])
    rw [heq] at hd hopen
    exact .inl ⟨c, hd, hnone, hawaits, hopen⟩
  | reports j r hw =>
    obtain ⟨new, -, heq, -⟩ := s.callSoon_frame j r
    rw [heq] at hd hopen
    exact .inl ⟨c, hd, hnone, hawaits, hopen⟩
  | calls j r hj =>
    exact .inl (hmodify hd hopen fun c hnone => absurd hnone (resolve_completion c r))
  | resumes j loop r hj =>
    refine .inl (hmodify hd hopen fun c hnone hawaits => ?_)
    cases hawaits
  | cancels j =>
    refine .inl (hmodify hd hopen fun c hnone hawaits => ?_)
    cases hawaits
  | ends loop => exact .inl ⟨c, hd, hnone, hawaits, fun hmem => hopen (List.mem_cons_of_mem _ hmem)⟩
  | _ => exact .inl ⟨c, hd, hnone, hawaits, hopen⟩

/-- No step strands a readline. -/
theorem Owed.step (hh : s.Held) (hm : ReaderMove s e s') (hw : s.Waiting d) (hw' : s'.Waiting d)
    (h : s.Owed d) : s'.Owed d := by
  obtain ⟨c, hd, hnone, hawaits, -⟩ := id hw
  cases hm with
  | refused loop hc hclosed => exact h
  | accepts loop hc =>
    have hsame : s.worker ≠ .absent →
        (if s.worker = .absent then ReaderWorker.getting else s.worker) = s.worker := fun hne => if_neg hne
    rcases h with h | h | ⟨r, h⟩ | h | h
    · exact .inl (List.mem_append_left _ h)
    · refine .inr (.inl ?_)
      rw [hsame fun habsent => ?_]
      · exact h
      · rw [habsent] at h
        cases h
    · refine .inr (.inr (.inl ⟨r, ?_⟩))
      rw [hsame fun habsent => ?_]
      · exact h
      · cases habsent.symm.trans h
    · exact .inr (.inr (.inr (.inl h)))
    · exact .inr (.inr (.inr (.inr h)))
  | closes hc =>
    rcases h with h | h | h | h | h
    · exact .inl h
    · exact .inr (.inl h)
    · exact .inr (.inr (.inl h))
    · exact .inr (.inr (.inr (.inl h)))
    · rw [hc] at h
      cases h
  | again ds hc => exact h
  | discards ds x rest hc hr =>
    have hsnapshot : d ∈ s.closer.owing := by
      rw [hc]
      exact hh.snapshot ds hc d c hd hnone
    exact .inr (.inr (.inr (.inr hsnapshot)))
  | marks ds hc hr =>
    have hsnapshot : d ∈ ds := hh.snapshot ds hc d c hd hnone
    exact .inr (.inr (.inr (.inr hsnapshot)))
  | resolves j ds hc =>
    obtain ⟨new, -, heq, hsoon⟩ := s.callSoon_frame j (.line [])
    have hcallbacks : ∀ x ∈ s.callbacks, x ∈ (s.callSoon j (.line [])).callbacks := by
      intro x hx
      rw [heq]
      exact List.mem_append_left _ hx
    have hkept : (s.callSoon j (.line [])).requests = s.requests ∧
        (s.callSoon j (.line [])).worker = s.worker := by
      rw [heq]
      exact ⟨rfl, rfl⟩
    rcases h with h | h | h | ⟨r, h⟩ | h
    · exact .inl (hkept.1 ▸ h)
    · exact .inr (.inl (hkept.2 ▸ h))
    · exact .inr (.inr (.inl (hkept.2 ▸ h)))
    · exact .inr (.inr (.inr (.inl ⟨r, hcallbacks _ h⟩)))
    · rw [hc] at h
      rcases List.mem_cons.1 h with rfl | h
      · exact .inr (.inr (.inr (.inl ⟨_, hsoon hw.onOpenLoop⟩)))
      · exact .inr (.inr (.inr (.inr h)))
  | takes j rest hworker hr =>
    rcases h with h | h | ⟨r, h⟩ | h | h
    · rw [hr] at h
      rcases List.mem_cons.1 h with h | h
      · cases h
        exact .inr (.inl List.mem_cons_self)
      · exact .inl h
    · rw [hworker] at h
      cases h
    · cases hworker.symm.trans h
    · exact .inr (.inr (.inr (.inl h)))
    · exact .inr (.inr (.inr (.inr h)))
  | leaves rest hworker hr =>
    rcases h with h | h | ⟨r, h⟩ | h | h
    · rw [hr] at h
      rcases List.mem_cons.1 h with h | h
      · cases h
      · exact .inl h
    · rw [hworker] at h
      cases h
    · cases hworker.symm.trans h
    · exact .inr (.inr (.inr (.inl h)))
    · exact .inr (.inr (.inr (.inr h)))
  | reads j r hworker =>
    rcases h with h | h | ⟨r, h⟩ | h | h
    · exact .inl h
    · rw [hworker] at h
      cases List.mem_singleton.1 h
      exact .inr (.inr (.inl ⟨r, rfl⟩))
    · cases hworker.symm.trans h
    · exact .inr (.inr (.inr (.inl h)))
    · exact .inr (.inr (.inr (.inr h)))
  | reports j r hworker =>
    obtain ⟨new, -, heq, hsoon⟩ := s.callSoon_frame j r
    rcases h with h | h | ⟨r', h⟩ | ⟨r', h⟩ | h
    · rw [heq]
      exact .inl h
    · rw [hworker] at h
      cases h
    · cases hworker.symm.trans h
      exact .inr (.inr (.inr (.inl ⟨r, hsoon hw.onOpenLoop⟩)))
    · rw [heq]
      exact .inr (.inr (.inr (.inl ⟨r', List.mem_append_left _ h⟩)))
    · rw [heq]
      exact .inr (.inr (.inr (.inr h)))
  | drops j r hworker hj =>
    rcases h with h | h | ⟨r', h⟩ | h | h
    · exact .inl h
    · rw [hworker] at h
      cases h
    · cases hworker.symm.trans h
      have hwaits : s.awaits d = true := by
        unfold awaits
        rw [hd]
        exact decide_eq_true hawaits
      simp [collected, hwaits] at hj
    · exact .inr (.inr (.inr (.inl h)))
    · exact .inr (.inr (.inr (.inr h)))
  | calls j r hj =>
    rcases h with h | h | h | ⟨r', h⟩ | h
    · exact .inl h
    · exact .inr (.inl h)
    · exact .inr (.inr (.inl h))
    · refine .inr (.inr (.inr (.inl ⟨r', (List.mem_erase_of_ne ?_).2 h⟩)))
      rintro heq
      obtain ⟨rfl, rfl⟩ := Prod.mk.inj heq
      obtain ⟨c', hc', hnone', -⟩ := hw'
      obtain ⟨c₀, -, rfl⟩ := call_modified hc'
      rw [if_pos rfl] at hnone'
      exact resolve_completion c₀ r' hnone'
    · exact .inr (.inr (.inr (.inr h)))
  | forgets j hj => exact h
  | resumes j loop r hj => exact h
  | cancels j => exact h
  | ends loop => exact h

/-- What holds of a reader in every run. -/
structure Sound (s : Reader) : Prop where
  inTurn : s.InTurn
  honest : s.Honest
  staffed : s.Staffed
  held : s.Held
  owed : ∀ d, s.Waiting d → s.Owed d

theorem Sound.start : Sound {} := by
  refine ⟨⟨List.Pairwise.nil, List.forall_mem_nil _, fun _ => rfl⟩,
    ⟨List.forall_mem_nil _, fun d r hw => ?_, fun d c r hd => ?_⟩,
    ⟨fun _ hr => absurd rfl hr, fun hor => ?_, fun ds hds => ?_⟩,
    ⟨List.forall_mem_nil _, fun _ d c hd => ?_, fun ds hds => ?_⟩, fun d hd => ?_⟩
  · cases hw
  · cases hd
  · rcases hor with hor | hor
    · cases hor
    · cases hor
  · cases hds
  · cases hd
  · cases hds
  · obtain ⟨c, hc, -⟩ := hd
    cases hc

theorem Sound.step (h : s.Sound) (hs : s.step e = some s') : s'.Sound := by
  have hm := step_move hs
  refine ⟨h.inTurn.step hm, h.honest.step hm, h.staffed.step hm, h.held.step hm, fun d hd => ?_⟩
  rcases hd.old hm with hw | hmem
  · exact (h.owed d hw).step h.held hm hw hd
  · exact .inl hmem

/-- The reads that the thread has begun. -/
def begun (s : Reader) : Nat := s.reads.length + s.worker.current.length

end Reader

end KestrelSdk.Stdio
