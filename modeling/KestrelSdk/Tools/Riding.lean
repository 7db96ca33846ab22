import KestrelSdk.Asyncio.ContextVar
import KestrelSdk.Tools.Parts
import Mathlib.Data.Option.Basic

namespace KestrelSdk.Tools

open Json (Str str Value Key Dict)

theorem get_set (d : Dict) (k l : Str) (v : Value) :
    Dict.get (d.set k v) l = if l = k then some v else d.get l := by
  induction d with
  | nil =>
    rw [Dict.set, Dict.get_cons]
  | cons e d ih =>
    obtain ⟨key, w⟩ := e
    unfold Dict.set
    by_cases h : key = Key.str k
    · subst h
      rw [if_pos rfl, Dict.get_cons, Dict.get_cons]
      split <;> rfl
    · rw [if_neg h]
      unfold Dict.get at ih ⊢
      rw [List.lookup_cons, List.lookup_cons, ih]
      by_cases hl : Key.str l = key
      · have hne : l ≠ k := fun hlk => h (by rw [← hl, hlk])
        simp [hl, hne]
      · have hne : (Key.str l == key) = false := by simpa using hl
        simp [hne]

namespace Process

/-- What a task's value of the context variable is: the buffer of the call whose code it runs. The
token of each call is that value of its caller. -/
def Bound (s : Process) (t : Nat) : List Frame → Option Nat → Option Nat → Prop
  | [], inherited, current =>
    (inherited = none ∧ current = none) ∨
      ∃ (i : Nat) (c : ToolCall),
        inherited = some i ∧ s.calls[i]? = some c ∧ current = some c.buffer
  | f :: fs, inherited, current =>
    (∃ c : ToolCall, s.calls[f.call]? = some c ∧ current = some c.buffer ∧ c.outcome = none ∧
      c.owner = (t, fs.length)) ∧ s.Bound t fs inherited f.token

structure Inv (s : Process) : Prop where
  buffers : ∀ (i : Nat) (c : ToolCall), s.calls[i]? = some c → c.buffer < s.buffers.length
  distinct : ∀ (i j : Nat) (c d : ToolCall), s.calls[i]? = some c → s.calls[j]? = some d →
    c.buffer = d.buffer → i = j
  said : ∀ (i : Nat) (c : ToolCall), s.calls[i]? = some c → c.outcome = none →
    s.buffers[c.buffer]? = some c.said ∧ c.envelope = none
  ended : ∀ (i : Nat) (c : ToolCall) (o : ToolOutcome), s.calls[i]? = some c →
    c.outcome = some o → c.envelope = envelope c.name c.said o
  tasks : ∀ (t : Nat) (task : Task), s.tasks[t]? = some task →
    s.Bound t task.frames task.inherited task.current

/-- The calls of `s` are still there, and those that task `t` is in at a depth below `n` open. -/
def Keeps (s s' : Process) (t n : Nat) : Prop :=
  ∀ (i : Nat) (c : ToolCall), s.calls[i]? = some c → ∃ c' : ToolCall, s'.calls[i]? = some c' ∧
    c'.buffer = c.buffer ∧ c'.owner = c.owner ∧
      (c.owner.1 = t → c.owner.2 < n → c.outcome = none → c'.outcome = none)

variable {s s' : Process} {t : Nat}

theorem Bound.keep {frames : List Frame} {inherited current : Option Nat}
    (h : s.Bound t frames inherited current) (hk : s.Keeps s' t frames.length) :
    s'.Bound t frames inherited current := by
  induction frames generalizing current with
  | nil =>
    rcases h with hnone | ⟨i, c, hi, hc, hcurrent⟩
    · exact .inl hnone
    · obtain ⟨c', hc', hbuffer, -, -⟩ := hk i c hc
      exact .inr ⟨i, c', hi, hc', by rw [hbuffer]; exact hcurrent⟩
  | cons f fs ih =>
    obtain ⟨⟨c, hc, hcurrent, hopen, howner⟩, hrest⟩ := h
    obtain ⟨c', hc', hbuffer, howner', hstay⟩ := hk f.call c hc
    refine ⟨⟨c', hc', by rw [hbuffer]; exact hcurrent, ?_, by rw [howner']; exact howner⟩, ?_⟩
    · exact hstay (by rw [howner]) (by rw [howner]; exact Nat.lt_succ_self _) hopen
    · apply ih hrest
      intro i d hd
      obtain ⟨d', hd', hb, ho, hs⟩ := hk i d hd
      exact ⟨d', hd', hb, ho, fun h1 h2 => hs h1 (Nat.lt_succ_of_lt h2)⟩

/-- The running call of a task has the buffer that is current in it. -/
theorem Bound.running {task : Task} (h : s.Bound t task.frames task.inherited task.current) :
    (task.running = none ∧ task.current = none) ∨ ∃ (i : Nat) (c : ToolCall),
      task.running = some i ∧ s.calls[i]? = some c ∧ task.current = some c.buffer := by
  unfold Task.running
  cases hf : task.frames with
  | nil =>
    rw [hf] at h
    exact h
  | cons f fs =>
    rw [hf] at h
    obtain ⟨⟨c, hc, hcurrent, -⟩, -⟩ := h
    exact .inr ⟨f.call, c, rfl, hc, hcurrent⟩

theorem Bound.current {task : Task} (h : s.Bound t task.frames task.inherited task.current) :
    task.current = s.bufferOf task.running := by
  rcases h.running with ⟨hrunning, hcurrent⟩ | ⟨i, c, hrunning, hc, hcurrent⟩
  · rw [hrunning, hcurrent]
    rfl
  · rw [hrunning, hcurrent, bufferOf, Option.bind_some, hc]
    rfl

theorem Keeps.concat {c : ToolCall} {tasks : List Task} {buffers : List (List Value)} {n : Nat} :
    s.Keeps ⟨tasks, buffers, s.calls ++ [c]⟩ t n := by
  intro i d hd
  refine ⟨d, ?_, rfl, rfl, fun _ _ h => h⟩
  rw [List.getElem?_append_left (List.getElem?_eq_some_iff.1 hd).1]
  exact hd

theorem Inv.execute (h : s.Inv) {task : Task} (ht : s.tasks[t]? = some task) (name : Str) :
    Inv {
      tasks := s.tasks.set t { task with
        current := some s.buffers.length, frames := ⟨s.calls.length, task.current⟩ :: task.frames }
      buffers := s.buffers ++ [[]]
      calls := s.calls ++ [⟨name, s.buffers.length, (t, task.frames.length), [], none, none⟩] } := by
  constructor
  · intro i c hc
    rw [List.length_append, List.length_singleton]
    rcases Asyncio.getElem?_concat hc with hc | ⟨-, rfl⟩
    · exact Nat.lt_succ_of_lt (h.buffers i c hc)
    · exact Nat.lt_succ_self _
  · intro i j c d hc hd hsame
    rcases Asyncio.getElem?_concat hc with hc | ⟨hi, rfl⟩
    · rcases Asyncio.getElem?_concat hd with hd | ⟨-, rfl⟩
      · exact h.distinct i j c d hc hd hsame
      · exact absurd hsame (Nat.ne_of_lt (h.buffers i c hc))
    · rcases Asyncio.getElem?_concat hd with hd | ⟨hj, -⟩
      · exact absurd hsame.symm (Nat.ne_of_lt (h.buffers j d hd))
      · exact hi.trans hj.symm
  · intro i c hc hopen
    rcases Asyncio.getElem?_concat hc with hc | ⟨-, rfl⟩
    · obtain ⟨hsaid, henvelope⟩ := h.said i c hc hopen
      refine ⟨?_, henvelope⟩
      rw [List.getElem?_append_left (h.buffers i c hc)]
      exact hsaid
    · exact ⟨by simp, rfl⟩
  · intro i c o hc ho
    rcases Asyncio.getElem?_concat hc with hc | ⟨-, rfl⟩
    · exact h.ended i c o hc ho
    · cases ho
  · intro u other hu
    rw [List.getElem?_set] at hu
    split at hu
    · rename_i htu
      subst htu
      split at hu
      · obtain rfl := Option.some.inj hu
        refine ⟨⟨⟨name, s.buffers.length, (t, task.frames.length), [], none, none⟩, by simp, rfl,
          rfl, rfl⟩, (h.tasks t task ht).keep Keeps.concat⟩
      · cases hu
    · exact (h.tasks u other hu).keep Keeps.concat

theorem Inv.create_task (h : s.Inv) {task : Task} (ht : s.tasks[t]? = some task) :
    Inv { s with tasks := s.tasks ++ [⟨task.current, [], task.running⟩] } := by
  constructor
  · exact h.buffers
  · exact h.distinct
  · exact h.said
  · exact h.ended
  · intro u other hu
    rcases Asyncio.getElem?_concat hu with hu | ⟨-, rfl⟩
    · exact (h.tasks u other hu).keep fun i c hc => ⟨c, hc, rfl, rfl, fun _ _ h => h⟩
    · exact (h.tasks t task ht).running

/-- The calls after an append. Only the running call gets the part, and only while it is open. -/
theorem say_cases {running : Option Nat} {part : Value} {i : Nat} {c : ToolCall}
    (h : (s.say running part)[i]? = some c) : ∃ d, s.calls[i]? = some d ∧
      (c = d ∧ (running ≠ some i ∨ d.outcome ≠ none) ∨
        running = some i ∧ d.outcome = none ∧ c = { d with said := d.said ++ [part] }) := by
  unfold say at h
  cases running with
  | none => exact ⟨c, h, .inl ⟨rfl, .inl (by simp)⟩⟩
  | some j =>
    dsimp only at h
    rw [List.getElem?_modify] at h
    obtain ⟨d, hd, hc⟩ := Option.map_eq_some_iff.1 h
    refine ⟨d, hd, ?_⟩
    by_cases hj : j = i
    · subst hj
      rw [if_pos rfl] at hc
      by_cases hopen : d.outcome = none
      · rw [if_pos (by simp [hopen])] at hc
        exact .inr ⟨rfl, hopen, hc.symm⟩
      · rw [if_neg (by simpa using hopen)] at hc
        exact .inl ⟨hc.symm, .inr hopen⟩
    · rw [if_neg hj] at hc
      exact .inl ⟨hc.symm, .inl (by simpa using hj)⟩

theorem Keeps.say {running : Option Nat} {part : Value} {tasks : List Task}
    {buffers : List (List Value)} {n : Nat} :
    s.Keeps ⟨tasks, buffers, s.say running part⟩ t n := by
  intro i d hd
  have hlt : i < (s.say running part).length := by
    have := (List.getElem?_eq_some_iff.1 hd).1
    unfold Process.say
    split
    · exact this
    · rw [List.length_modify]
      exact this
  obtain ⟨c, hc⟩ : ∃ c, (s.say running part)[i]? = some c := ⟨_, List.getElem?_eq_getElem hlt⟩
  obtain ⟨e, he, hcase⟩ := say_cases hc
  rw [hd] at he
  obtain rfl := Option.some.inj he
  refine ⟨c, hc, ?_⟩
  rcases hcase with ⟨rfl, -⟩ | ⟨-, -, rfl⟩
  · exact ⟨rfl, rfl, fun _ _ h => h⟩
  · exact ⟨rfl, rfl, fun _ _ h => h⟩

/-- The part goes to the buffer of the running call and is one that it said, or the call ended. -/
theorem Inv.append (h : s.Inv) {task : Task} (ht : s.tasks[t]? = some task) {b : Nat}
    (hb : task.current = some b) (part : Value) :
    Inv { s with
      buffers := s.buffers.modify b (· ++ [part])
      calls := s.say task.running part } := by
  obtain ⟨-, hnone⟩ | ⟨j, q, hj, hq, hcurrent⟩ := (h.tasks t task ht).running
  · rw [hb] at hnone
    cases hnone
  rw [hb] at hcurrent
  obtain rfl := Option.some.inj hcurrent
  have hsame : ∀ (i : Nat) (c : ToolCall), (s.say task.running part)[i]? = some c →
      ∃ d : ToolCall, s.calls[i]? = some d ∧ c.buffer = d.buffer := by
    intro i c hc
    obtain ⟨d, hd, hcase⟩ := say_cases hc
    refine ⟨d, hd, ?_⟩
    rcases hcase with ⟨rfl, -⟩ | ⟨-, -, rfl⟩ <;> rfl
  constructor
  · intro i c hc
    obtain ⟨d, hd, hbuffer⟩ := hsame i c hc
    rw [List.length_modify, hbuffer]
    exact h.buffers i d hd
  · intro i k c d hc hd hbuffer
    obtain ⟨c', hc', hcb⟩ := hsame i c hc
    obtain ⟨d', hd', hdb⟩ := hsame k d hd
    exact h.distinct i k c' d' hc' hd' (by rw [← hcb, ← hdb]; exact hbuffer)
  · intro i c hc hopen
    obtain ⟨d, hd, hcase⟩ := say_cases hc
    rcases hcase with ⟨rfl, hother⟩ | ⟨hrun, hdopen, rfl⟩
    · obtain ⟨hsaid, henvelope⟩ := h.said i c hd hopen
      refine ⟨?_, henvelope⟩
      have hne : q.buffer ≠ c.buffer := by
        intro hbuffer
        obtain rfl := h.distinct j i q c hq hd hbuffer
        rcases hother with hother | hother
        · exact hother hj
        · exact hother hopen
      rw [List.getElem?_modify, hsaid]
      simp [hne]
    · obtain ⟨hsaid, henvelope⟩ := h.said i d hd hdopen
      refine ⟨?_, henvelope⟩
      rw [hj] at hrun
      obtain rfl := Option.some.inj hrun
      rw [hq] at hd
      obtain rfl := Option.some.inj hd
      rw [List.getElem?_modify, hsaid]
      simp
  · intro i c o hc ho
    obtain ⟨d, hd, hcase⟩ := say_cases hc
    rcases hcase with ⟨rfl, -⟩ | ⟨-, hdopen, rfl⟩
    · exact h.ended i c o hd ho
    · rw [hdopen] at ho
      cases ho
  · exact fun u other hu => (h.tasks u other hu).keep Keeps.say

/-- The innermost call of a task ends: its envelope is made of what it said, and its caller's
buffer is current again. -/
theorem Inv.finish (h : s.Inv) {task : Task} (ht : s.tasks[t]? = some task) {f : Frame}
    {fs : List Frame} (hframes : task.frames = f :: fs) {c : ToolCall}
    (hc : s.calls[f.call]? = some c) {l : List Value} (hl : s.buffers[c.buffer]? = some l)
    (o : ToolOutcome) : Inv { s with
      tasks := s.tasks.set t { task with current := f.token, frames := fs }
      calls := s.calls.set f.call { c with outcome := some o, envelope := envelope c.name l o } } := by
  have hbound := h.tasks t task ht
  rw [hframes] at hbound
  obtain ⟨⟨c', hc', -, hopen, howner⟩, hrest⟩ := hbound
  rw [hc] at hc'
  obtain rfl := Option.some.inj hc'
  have hsaid : l = c.said := by
    have h' := (h.said f.call c hc hopen).1
    rw [hl] at h'
    exact Option.some.inj h'
  have hlt : f.call < s.calls.length := (List.getElem?_eq_some_iff.1 hc).1
  have hcalls : ∀ (i : Nat) (d : ToolCall), (s.calls.set f.call
      { c with outcome := some o, envelope := envelope c.name l o })[i]? = some d →
      i = f.call ∧ d = { c with outcome := some o, envelope := envelope c.name l o } ∨
        i ≠ f.call ∧ s.calls[i]? = some d := by
    intro i d hd
    rw [List.getElem?_set, if_pos hlt] at hd
    split at hd
    · rename_i hi
      exact .inl ⟨hi.symm, (Option.some.inj hd).symm⟩
    · rename_i hi
      exact .inr ⟨Ne.symm hi, hd⟩
  -- a frame elsewhere has another owner, so it is not of the call that ends
  have hkeeps : ∀ u n, u ≠ t ∨ n ≤ fs.length → s.Keeps { s with
      tasks := s.tasks.set t { task with current := f.token, frames := fs }
      calls := s.calls.set f.call { c with outcome := some o, envelope := envelope c.name l o } }
      u n := by
    intro u n hun i d hd
    by_cases hi : i = f.call
    · subst hi
      rw [hc] at hd
      obtain rfl := Option.some.inj hd
      refine ⟨{ c with outcome := some o, envelope := envelope c.name l o }, by simp [hlt], rfl, rfl,
        ?_⟩
      intro hu hn
      rw [howner] at hu hn
      dsimp only at hu hn
      rcases hun with hun | hun
      · exact absurd hu.symm hun
      · omega
    · refine ⟨d, ?_, rfl, rfl, fun _ _ h => h⟩
      rw [← hd]
      exact List.getElem?_set_ne (Ne.symm hi)
  constructor
  · intro i d hd
    rcases hcalls i d hd with ⟨-, rfl⟩ | ⟨-, hd⟩
    · exact h.buffers f.call c hc
    · exact h.buffers i d hd
  · intro i j d e hd he hbuffer
    rcases hcalls i d hd with ⟨rfl, rfl⟩ | ⟨-, hd⟩
    · rcases hcalls j e he with ⟨rfl, -⟩ | ⟨-, he⟩
      · rfl
      · exact h.distinct _ j c e hc he hbuffer
    · rcases hcalls j e he with ⟨rfl, rfl⟩ | ⟨-, he⟩
      · exact h.distinct i _ d c hd hc hbuffer
      · exact h.distinct i j d e hd he hbuffer
  · intro i d hd hdopen
    rcases hcalls i d hd with ⟨-, rfl⟩ | ⟨-, hd⟩
    · cases hdopen
    · exact h.said i d hd hdopen
  · intro i d o' hd ho
    rcases hcalls i d hd with ⟨-, rfl⟩ | ⟨-, hd⟩
    · obtain rfl := Option.some.inj ho
      rw [hsaid]
    · exact h.ended i d o' hd ho
  · intro u other hu
    rw [List.getElem?_set] at hu
    split at hu
    · rename_i htu
      subst htu
      split at hu
      · obtain rfl := Option.some.inj hu
        exact hrest.keep (hkeeps t _ (.inr (Nat.le_refl _)))
      · cases hu
    · rename_i htu
      exact (h.tasks u other hu).keep (hkeeps u _ (.inl (Ne.symm htu)))

theorem Inv.step (h : s.Inv) {a : Action} (hs : s.step a = some s') : s'.Inv := by
  cases a with
  | execute t name =>
    obtain ⟨task, ht, hs⟩ := Option.bind_eq_some_iff.1 hs
    obtain rfl := Option.some.inj hs
    exact h.execute ht name
  | append t part =>
    obtain ⟨task, ht, hs⟩ := Option.bind_eq_some_iff.1 hs
    obtain ⟨b, hb, hs⟩ := Option.bind_eq_some_iff.1 hs
    obtain rfl := Option.some.inj hs
    exact h.append ht hb part
  | create_task t =>
    obtain ⟨task, ht, hs⟩ := Option.bind_eq_some_iff.1 hs
    obtain rfl := Option.some.inj hs
    exact h.create_task ht
  | finish t o =>
    obtain ⟨task, ht, hs⟩ := Option.bind_eq_some_iff.1 hs
    split at hs
    · cases hs
    · rename_i f fs hframes
      obtain ⟨c, hc, hs⟩ := Option.bind_eq_some_iff.1 hs
      obtain ⟨l, hl, hs⟩ := Option.bind_eq_some_iff.1 hs
      obtain rfl := Option.some.inj hs
      exact h.finish ht hframes hc hl o

theorem Inv.start : process.start.Inv := by
  constructor
  · intro i c hc
    cases hc
  · intro i j c d hc
    cases hc
  · intro i c hc
    cases hc
  · intro i c o hc
    cases hc
  · intro t task ht
    cases t with
    | zero =>
      obtain rfl := Option.some.inj ht
      exact .inl ⟨rfl, rfl⟩
    | succ t => cases ht

theorem inv_reachable (h : process.Reachable s) : s.Inv :=
  h.invariant Inv.start fun _ _ _ hinv hstep => hinv.step hstep

end Process

def card : Value := .dict [(.str (str "type"), .str (str "card"))]

def reply : Dict :=
  [(.str (str "status"), .str (str "ok")), (.str (str "confirmation"), .str (str "done"))]

end KestrelSdk.Tools
