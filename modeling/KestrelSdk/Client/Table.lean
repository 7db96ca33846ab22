import KestrelSdk.Client.Moves
import KestrelSdk.Client.Signals

namespace KestrelSdk.Client

open Json Protocol Asyncio

namespace Desk

/-- The identifiers of the frames ascend, the pending ones have been handed out, and a future that
was not handed out is pending. -/
structure Sound (d : Desk) : Prop where
  written : (d.written.map Frame.id).Pairwise (· < ·)
  bound : ∀ f ∈ d.written, f.id ≤ d.nextId
  pending : ∀ id ∈ d.pending, 1 ≤ id ∧ id ≤ d.nextId
  nodup : d.pending.Nodup
  futures : ∀ id, d.nextId < id → d.futures id = .pending

/-- A future that is done or cancelled keeps its outcome. -/
def Keeps (d d' : Desk) : Prop := ∀ id, d.futures id ≠ .pending → d'.futures id = d.futures id

theorem Keeps.refl (d : Desk) : d.Keeps d := fun _ _ => rfl

theorem Sound.start : Sound {} := by
  constructor <;> simp

variable {d : Desk}

theorem Sound.enroll (h : d.Sound) : d.enroll.Sound where
  written := h.written
  bound f hf := Nat.le_succ_of_le (h.bound f hf)
  pending id hid := by
    rcases List.mem_append.1 hid with hid | hid
    · obtain ⟨h1, h2⟩ := h.pending id hid
      exact ⟨h1, Nat.le_succ_of_le h2⟩
    · cases List.mem_singleton.1 hid
      exact ⟨Nat.succ_pos _, Nat.le_refl _⟩
  nodup := by
    refine List.nodup_append.2 ⟨h.nodup, by simp, ?_⟩
    intro a ha b hb hab
    cases List.mem_singleton.1 hb
    have := (h.pending a ha).2
    omega
  futures id hid := by
    have hne : id ≠ d.nextId + 1 := Nat.ne_of_gt hid
    show Function.update d.futures (d.nextId + 1) .pending id = .pending
    rw [Function.update_of_ne hne]
    exact h.futures id (Nat.lt_of_succ_lt hid)

theorem Sound.write (h : d.Sound) (hn : ∀ f ∈ d.written, f.id < d.nextId) (method : Str)
    (params : Dict) : (d.write method params).Sound where
  written := by
    show ((d.written ++ [(⟨d.nextId, method, params⟩ : Frame)]).map Frame.id).Pairwise (· < ·)
    rw [List.map_append, List.pairwise_append]
    refine ⟨h.written, by simp, ?_⟩
    intro a ha b hb
    obtain ⟨f, hf, rfl⟩ := List.mem_map.1 ha
    simp only [List.map_cons, List.map_nil, List.mem_singleton] at hb
    subst hb
    exact hn f hf
  bound f hf := by
    rcases List.mem_append.1 hf with hf | hf
    · exact h.bound f hf
    · cases List.mem_singleton.1 hf
      exact Nat.le_refl _
  pending := h.pending
  nodup := h.nodup
  futures := h.futures

theorem Sound.abandon (h : d.Sound) (id : Nat) : (d.abandon id).Sound where
  written := h.written
  bound := h.bound
  pending i hi := h.pending i (List.mem_of_mem_erase hi)
  nodup := h.nodup.erase id
  futures := h.futures

theorem Sound.settle (h : d.Sound) {id : Nat} (hid : id ≤ d.nextId) (r : Except Failure Value) :
    (d.settle id r).Sound := by
  unfold Desk.settle
  split
  · refine ⟨h.written, h.bound, h.pending, h.nodup, fun i hi => ?_⟩
    show Function.update d.futures id _ i = .pending
    rw [Function.update_of_ne (by intro he; subst he; exact absurd hi (Nat.not_lt.2 hid))]
    exact h.futures i hi
  · exact h

theorem Sound.cancel (h : d.Sound) {id : Nat} (hid : id ≤ d.nextId) : (d.cancel id).Sound := by
  unfold Desk.cancel
  split
  · refine ⟨h.written, h.bound, h.pending, h.nodup, fun i hi => ?_⟩
    show Function.update d.futures id _ i = .pending
    rw [Function.update_of_ne (by intro he; subst he; exact absurd hi (Nat.not_lt.2 hid))]
    exact h.futures i hi
  · exact h

theorem Sound.failAll (h : d.Sound) (x : Terminal) : (d.failAll x).Sound where
  written := h.written
  bound := h.bound
  pending := by simp [Desk.failAll]
  nodup := by simp [Desk.failAll]
  futures id hid := by
    have hp : id ∉ d.pending := fun hm => Nat.not_lt.2 (h.pending id hm).2 hid
    simp [Desk.failAll, h.futures id hid, hp]

/-- What a response does: nothing to a key that it does not find, otherwise it takes the entry out
of the table and settles its future. -/
theorem answer_cases (d : Desk) (r : JsonRpcResponse) :
    d.answer r = { d with responses := d.responses ++ [r] } ∨
      ∃ id ∈ d.pending, keyOf r.id = some id ∧
        d.answer r = ({ d with responses := d.responses ++ [r]
                               pending := d.pending.erase id } : Desk).settle id
          (outcome r.answer) := by
  unfold Desk.answer
  dsimp only
  split
  · exact .inl rfl
  · rename_i id hid
    split
    · rename_i hm
      exact .inr ⟨id, hm, hid, rfl⟩
    · exact .inl rfl

theorem Sound.answer (h : d.Sound) (r : JsonRpcResponse) : (d.answer r).Sound := by
  rcases d.answer_cases r with he | ⟨id, hm, -, he⟩
  · rw [he]
    exact ⟨h.written, h.bound, h.pending, h.nodup, h.futures⟩
  · have hs : ({ d with responses := d.responses ++ [r]
                        pending := d.pending.erase id } : Desk).Sound :=
      ⟨h.written, h.bound, fun i hi => h.pending i (List.mem_of_mem_erase hi), h.nodup.erase id,
        h.futures⟩
    rw [he]
    exact hs.settle (h.pending id hm).2 _

theorem settle_keeps (d : Desk) (id : Nat) (r : Except Failure Value) : d.Keeps (d.settle id r) := by
  intro i hi
  unfold settle
  split
  · rename_i hp
    show Function.update d.futures id _ i = d.futures i
    rw [Function.update_of_ne]
    intro he
    subst he
    exact hi hp
  · rfl

theorem cancel_keeps (d : Desk) (id : Nat) : d.Keeps (d.cancel id) := by
  intro i hi
  unfold Desk.cancel
  split
  · rename_i hp
    show Function.update d.futures id _ i = d.futures i
    rw [Function.update_of_ne]
    intro he
    subst he
    exact hi hp
  · rfl

theorem answer_keeps (d : Desk) (r : JsonRpcResponse) : d.Keeps (d.answer r) := by
  rcases d.answer_cases r with he | ⟨id, -, -, he⟩
  · rw [he]
    exact .refl d
  · rw [he]
    exact fun i hi => settle_keeps { d with responses := _, pending := _ } id _ i hi

theorem failAll_keeps (d : Desk) (x : Terminal) : d.Keeps (d.failAll x) := by
  intro i hi
  simp only [Desk.failAll]

theorem Sound.admit_keeps (h : d.Sound) : d.Keeps d.enroll := by
  intro i hi
  show Function.update d.futures (d.nextId + 1) .pending i = d.futures i
  rw [Function.update_of_ne]
  intro he
  subst he
  exact hi (h.futures _ (Nat.lt_succ_self _))

end Desk

theorem Call.Faithful.keeps {d d' : Desk} {c : Call} (hk : d.Keeps d')
    (h : c.Faithful d.futures) : c.Faithful d'.futures := by
  intro m p r hop hr
  obtain ⟨h1, h2⟩ := h m p r hop hr
  constructor
  · intro v hv
    obtain ⟨id, hid, hf⟩ := h1 v hv
    exact ⟨id, hid, by rw [hk id (by simp [hf]), hf]⟩
  · intro text ht
    obtain ⟨id, hid, hf⟩ := h2 text ht
    exact ⟨id, hid, by rw [hk id (by simp [hf]), hf]⟩

/-- The calls and the request table of a client agree: a call that awaits a request has its own
identifier, which is in the table unless its future is settled. -/
structure State.Tabled (s : State) : Prop where
  desk : s.desk.Sound
  calls : ∀ t, (s.calls t).Sound
  faithful : ∀ t, (s.calls t).Faithful s.desk.futures
  wrote : ∀ t, (s.calls t).Wrote s.desk.written
  ids : ∀ t id, (s.calls t).id = some id → id ≤ s.desk.nextId
  distinct : ∀ t u id, (s.calls t).id = some id → (s.calls u).id = some id → t = u
  bound : ∀ t id, (s.calls t).pc.awaiting = some id → id ≤ s.desk.nextId
  own : ∀ t u id, (s.calls t).pc.awaiting = some id → (s.calls u).pc.awaiting = some id → t = u
  listed : ∀ t id, (s.calls t).pc.awaiting = some id →
    id ∈ s.desk.pending ∨ s.desk.futures id ≠ .pending

namespace State

variable {s s' : State} {t : Tid}

theorem Tabled.start : Tabled {} := by
  refine ⟨.start, fun t => ⟨?_, ?_⟩, ?_, ?_, ?_, ?_, ?_, ?_, ?_⟩ <;>
    simp [CallPc.awaiting, Call.Faithful, Call.Wrote]

/-- A step of one call that keeps the table sound and every other call's entry. -/
theorem Tabled.called (h : s.Tabled) (hc : Called s s' t) (hd : s'.desk.Sound)
    (hk : s.desk.Keeps s'.desk) (hn : s.desk.nextId ≤ s'.desk.nextId)
    (hw : ∀ f ∈ s.desk.written, f ∈ s'.desk.written)
    (hp : ∀ u id, u ≠ t → (s.calls u).pc.awaiting = some id → id ∈ s.desk.pending →
      id ∈ s'.desk.pending ∨ s'.desk.futures id ≠ .pending)
    (hb : ∀ id, (s'.calls t).pc.awaiting = some id → id ≤ s'.desk.nextId ∧
      (∀ u, u ≠ t → (s.calls u).pc.awaiting ≠ some id) ∧
      (id ∈ s'.desk.pending ∨ s'.desk.futures id ≠ .pending)) : s'.Tabled where
  desk := hd
  calls u := by
    by_cases hu : u = t
    · rw [hu]
      exact hc.sound
    · rw [hc.others u hu]
      exact h.calls u
  faithful u := by
    by_cases hu : u = t
    · rw [hu]
      exact hc.faithful.keeps hk
    · rw [hc.others u hu]
      exact (h.faithful u).keeps hk
  wrote u m q id hop hid := by
    by_cases hu : u = t
    · subst hu
      cases hc.traced with
      | none hn =>
        rw [hn] at hid
        cases hid
      | kept hi ho => exact hw _ (h.wrote u m q id (ho.symm.trans hop) (hi.symm.trans hid))
      | sent m' q' hi hm hwr =>
        obtain ⟨rfl, rfl⟩ := hm m q hop
        cases hi.symm.trans hid
        exact hwr
    · rw [hc.others u hu] at hop hid
      exact hw _ (h.wrote u m q id hop hid)
  ids u id hid := by
    by_cases hu : u = t
    · subst hu
      cases hc.traced with
      | none hn =>
        rw [hn] at hid
        cases hid
      | kept hi => exact Nat.le_trans (h.ids u id (hi.symm.trans hid)) hn
      | sent _ _ hi _ _ hn' =>
        cases hi.symm.trans hid
        exact Nat.le_of_eq hn'.symm
    · rw [hc.others u hu] at hid
      exact Nat.le_trans (h.ids u id hid) hn
  distinct := by
    -- the identifier of call `t` is its old one or a new one
    have hold : ∀ u id, u ≠ t → (s.calls u).id = some id → (s'.calls t).id ≠ some id := by
      intro u id hu hid ht
      cases hc.traced with
      | none hn =>
        rw [hn] at ht
        cases ht
      | kept hi => exact hu (h.distinct u t id hid (hi.symm.trans ht))
      | sent _ _ hi =>
        cases hi.symm.trans ht
        exact absurd (h.ids u _ hid) (by omega)
    intro u v id hu hv
    by_cases hut : u = t
    · by_cases hvt : v = t
      · rw [hut, hvt]
      · subst hut
        rw [hc.others v hvt] at hv
        exact absurd hu (hold v id hvt hv)
    · by_cases hvt : v = t
      · subst hvt
        rw [hc.others u hut] at hu
        exact absurd hv (hold u id hut hu)
      · rw [hc.others u hut] at hu
        rw [hc.others v hvt] at hv
        exact h.distinct u v id hu hv
  bound u id hid := by
    by_cases hu : u = t
    · subst hu
      exact (hb id hid).1
    · rw [hc.others u hu] at hid
      exact Nat.le_trans (h.bound u id hid) hn
  own u v id hu hv := by
    by_cases hut : u = t
    · by_cases hvt : v = t
      · rw [hut, hvt]
      · subst hut
        rw [hc.others v hvt] at hv
        exact absurd hv ((hb id hu).2.1 v hvt)
    · by_cases hvt : v = t
      · subst hvt
        rw [hc.others u hut] at hu
        exact absurd hu ((hb id hv).2.1 u hut)
      · rw [hc.others u hut] at hu
        rw [hc.others v hvt] at hv
        exact h.own u v id hu hv
  listed u id hid := by
    by_cases hu : u = t
    · subst hu
      exact (hb id hid).2.2
    · rw [hc.others u hu] at hid
      rcases h.listed u id hid with hl | hl
      · exact hp u id hu hid hl
      · exact .inr (by rw [hk id hl]; exact hl)

/-- A step of a call that awaits nothing and leaves the request table alone. -/
theorem Tabled.silent (h : s.Tabled) (hc : Called s s' t) (hd : s'.desk = s.desk)
    (hpc : (s'.calls t).pc.awaiting = none) : s'.Tabled := by
  refine h.called hc (hd ▸ h.desk) (hd ▸ .refl _) (by rw [hd]) (fun f hf => hd ▸ hf)
    (fun u id _ _ hm => .inl (hd ▸ hm)) fun id hid => ?_
  rw [hpc] at hid
  cases hid

/-- A call's step on the request table: outcomes stay, and the table stays sound. -/
theorem Called.tabled (h : s.Tabled) (hc : Called s s' t) :
    s.desk.Keeps s'.desk ∧ s'.Tabled := by
  cases hc.move with
  | inert hpc he =>
    have hd : s'.desk = s.desk := congrArg Engine.desk he
    refine ⟨hd ▸ .refl _, h.called hc ?_ ?_ ?_ ?_ ?_ ?_⟩
    · exact hd ▸ h.desk
    · exact hd ▸ .refl _
    · rw [hd]
    · exact fun f hf => hd ▸ hf
    · exact fun u id _ _ hm => .inl (hd ▸ hm)
    · intro id hid
      rw [hpc] at hid
      rw [hd]
      exact ⟨h.bound t id hid, fun u hu hw => hu (h.own u t id hw hid), h.listed t id hid⟩
  | closes hpc _ _ he =>
    have hd : s'.desk = s.desk :=
      (congrArg Engine.desk he).trans s.toEngine.createCloseTask_desk
    exact ⟨hd ▸ .refl _, h.silent hc hd hpc⟩
  | starts hpc _ _ he =>
    have hd : s'.desk = s.desk :=
      (congrArg Engine.desk he).trans s.toEngine.createReadTask_desk
    exact ⟨hd ▸ .refl _, h.silent hc hd hpc⟩
  | sends method params hpc _ _ _ he =>
    have hd : s'.desk = s.desk.enroll.write method params := congrArg Engine.desk he
    have hk : s.desk.Keeps s'.desk := by
      rw [hd]
      exact fun i hi => h.desk.admit_keeps i hi
    refine ⟨hk, h.called hc ?_ hk ?_ ?_ ?_ ?_⟩
    · rw [hd]
      exact h.desk.enroll.write (fun f hf => Nat.lt_succ_of_le (h.desk.bound f hf)) method params
    · rw [hd]
      exact Nat.le_succ _
    · rw [hd]
      exact fun f hf => List.mem_append_left _ hf
    · rw [hd]
      exact fun u id _ _ hm => .inl (List.mem_append_left _ hm)
    · intro id hid
      rw [hpc] at hid
      cases hid
      rw [hd]
      refine ⟨Nat.le_refl _, fun u _ hw => ?_, .inl (List.mem_append_right _ (List.mem_singleton.2 rfl))⟩
      have := h.bound u _ hw
      omega
  | refused hpc _ _ he =>
    have hd : s'.desk = s.desk.enroll.abandon (s.desk.nextId + 1) := congrArg Engine.desk he
    have hk : s.desk.Keeps s'.desk := by
      rw [hd]
      exact fun i hi => h.desk.admit_keeps i hi
    refine ⟨hk, h.called hc ?_ hk ?_ ?_ ?_ ?_⟩
    · rw [hd]
      exact h.desk.enroll.abandon _
    · rw [hd]
      exact Nat.le_succ _
    · rw [hd]
      exact fun f hf => hf
    · rw [hd]
      intro u id _ hw hm
      have hne : id ≠ s.desk.nextId + 1 := by
        have := h.bound u id hw
        omega
      exact .inl ((List.mem_erase_of_ne hne).2 (List.mem_append_left _ hm))
    · intro id hid
      rw [hpc] at hid
      cases hid
  | ends i hpc h₀ he =>
    have hd : s'.desk = s.desk.abandon i := congrArg Engine.desk he
    have hk : s.desk.Keeps s'.desk := by
      rw [hd]
      exact .refl _
    refine ⟨hk, h.called hc ?_ hk ?_ ?_ ?_ ?_⟩
    · rw [hd]
      exact h.desk.abandon i
    · rw [hd]
      exact Nat.le_refl _
    · rw [hd]
      exact fun f hf => hf
    · rw [hd]
      intro u id hu hw hm
      have hne : id ≠ i := by
        intro hi
        subst hi
        exact hu (h.own u t id hw h₀)
      exact .inl ((List.mem_erase_of_ne hne).2 hm)
    · intro id hid
      rw [hpc] at hid
      cases hid
  | cancels i hpc h₀ he =>
    have hd : s'.desk = s.desk.cancel i := congrArg Engine.desk he
    obtain ⟨hw, hn, hpend, -⟩ := s.desk.cancel_frame i
    have hk : s.desk.Keeps s'.desk := by
      rw [hd]
      exact s.desk.cancel_keeps i
    refine ⟨hk, h.called hc ?_ hk ?_ ?_ ?_ ?_⟩
    · rw [hd]
      exact h.desk.cancel (h.bound t i h₀)
    · rw [hd, hn]
    · rw [hd, hw]
      exact fun f hf => hf
    · rw [hd, hpend]
      exact fun u id _ _ hm => .inl hm
    · intro id hid
      rw [hpc] at hid
      rw [hd, hn, hpend]
      refine ⟨h.bound t id hid, fun u hu hw => hu (h.own u t id hw hid), ?_⟩
      rcases h.listed t id hid with hl | hl
      · exact .inl hl
      · exact .inr (by rw [s.desk.cancel_keeps i id hl]; exact hl)

/-- A step of the tasks that changes the request table alone. -/
theorem Tabled.setEngine {e : Engine} (h : s.Tabled) (hd : e.desk.Sound)
    (hk : s.desk.Keeps e.desk) (hn : e.desk.nextId = s.desk.nextId)
    (hw : e.desk.written = s.desk.written)
    (hp : ∀ id, id ∈ s.desk.pending → s.desk.futures id = .pending →
      id ∈ e.desk.pending ∨ e.desk.futures id ≠ .pending) : (s.setEngine e).Tabled where
  desk := hd
  calls := h.calls
  faithful t := (h.faithful t).keeps hk
  wrote t m q id hop hid := by
    show _ ∈ e.desk.written
    rw [hw]
    exact h.wrote t m q id hop hid
  ids t id hid := hn ▸ h.ids t id hid
  distinct := h.distinct
  bound t id hid := hn ▸ h.bound t id hid
  own := h.own
  listed t id hid := by
    by_cases hf : s.desk.futures id = .pending
    · rcases h.listed t id hid with hl | hl
      · exact hp id hl hf
      · exact absurd hf hl
    · right
      show e.desk.futures id ≠ .pending
      rw [hk id hf]
      exact hf

/-- A signal on the request table. -/
theorem signal_tabled {py : Interpreter} {shut : Bool} {g : Signal} {e : Engine} (h : s.Tabled)
    (he : s.toEngine.step py shut g = some e) :
    s.desk.Keeps e.desk ∧ (s.setEngine e).Tabled := by
  rcases Engine.step_desk he with hd | ⟨b, r, -, -, rfl⟩ | ⟨x, rfl⟩
  · have hk : s.desk.Keeps e.desk := by
      rw [hd]
      exact .refl _
    exact ⟨hk, h.setEngine (hd ▸ h.desk) hk (by rw [hd]) (by rw [hd])
      fun id hm _ => .inl (hd ▸ hm)⟩
  · obtain ⟨hw, hn, -⟩ := s.desk.answer_frame r
    refine ⟨s.desk.answer_keeps r, h.setEngine (h.desk.answer r) (s.desk.answer_keeps r) hn hw ?_⟩
    intro id hm hf
    show id ∈ (s.desk.answer r).pending ∨ (s.desk.answer r).futures id ≠ .pending
    rcases s.desk.answer_cases r with ha | ⟨i, -, -, ha⟩
    · rw [ha]
      exact .inl hm
    · rw [ha]
      by_cases hi : id = i
      · subst hi
        right
        unfold Desk.settle
        simp [hf]
      · rw [(Desk.settle_frame _ i _).2.2.1]
        exact .inl ((List.mem_erase_of_ne hi).2 hm)
  · refine ⟨s.desk.failAll_keeps x, h.setEngine (h.desk.failAll x) (s.desk.failAll_keeps x) rfl rfl ?_⟩
    intro id hm hf
    right
    simp [Engine.endRead, Desk.failAll, hf, hm]

end State

variable {py : Interpreter} {p : Str} {s s' : State} {a : Action}

/-- A step is that of a call or that of a task. -/
theorem step_cases (h : step py p s a = some s') (hs : s.Tabled) :
    (∃ t, a.caller = some t ∧ State.Called s s' t) ∨
      ∃ g e, a = .signal g ∧ s.toEngine.step py s.shutdownStarted g = some e ∧ s' = s.setEngine e := by
  cases a with
  | call t op w => exact .inl ⟨t, rfl, step_called rfl (hs.calls t) h⟩
  | resume t ok => exact .inl ⟨t, rfl, step_called rfl (hs.calls t) h⟩
  | cancel t => exact .inl ⟨t, rfl, step_called rfl (hs.calls t) h⟩
  | signal g =>
    obtain ⟨e, he, rfl⟩ := Option.map_eq_some_iff.1 h
    exact .inr ⟨g, e, rfl, he, rfl⟩

theorem step_tabled (h : (machine py p).step s a = some s') (hs : s.Tabled) :
    s.desk.Keeps s'.desk ∧ s'.Tabled := by
  rcases step_cases h hs with ⟨t, -, hc⟩ | ⟨g, e, -, he, rfl⟩
  · exact hc.tabled hs
  · exact State.signal_tabled hs he

theorem reachable_tabled (h : (machine py p).Reachable s) : s.Tabled :=
  h.invariant .start fun _ _ _ hs ha => (step_tabled ha hs).2

end KestrelSdk.Client
