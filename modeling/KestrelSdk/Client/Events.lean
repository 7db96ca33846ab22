import KestrelSdk.Client.Order

namespace KestrelSdk.Client

open Json Protocol Asyncio

namespace Mail

variable {m : Mail} {w : Worker}

theorem InOrder.start : InOrder {} := by
  refine ⟨⟨by simp, List.nodup_nil, by simp, by simp, List.Pairwise.nil, by simp,
    List.Pairwise.nil, List.nil_suffix, by simp⟩, ⟨?_, ?_, ?_⟩, fun u d hu => ?_, fun u d hu => ?_,
    by simp, by simp⟩
  · simp [ahead, held, Pc.live]
  · simp [ahead, held, Pc.live]
  · simp
  · cases u <;> cases hu
  · cases u <;> cases hu

/-- A drain takes its first step. -/
theorem InOrder.enterDrain {k : Nat} (h : m.InOrder) (hk : ∀ d, m.drains k ≠ .delivering d) :
    (m.enter (.drain k) none).InOrder := by
  unfold Mail.enter
  split
  · rename_i l hl
    obtain ⟨ho, hfree⟩ := FifoLock.acquire_owner hl
    have hn := h.nextOther (.drain k)
    refine Section.flush ⟨h.books.setLock l, ho, fun u d _ hd => ?_, h.drains, ?_⟩
      ⟨hn.sorted, hn.onStream, hn.past⟩
    · have := h.owner u d hd
      rw [hfree] at this
      cases this
    · exact h.live
  · rename_i l hl
    obtain ⟨ho, -⟩ := FifoLock.acquire_queued hl
    exact h.setPc hk (by simp) ho (List.Sublist.refl _) (by simp)

/-- Handlers and buffer are cleared while nobody delivers. -/
theorem InOrder.clear (h : m.InOrder) (hfree : ∀ u d, m.pc u ≠ .delivering d) (l : FifoLock) :
    ({ m with handlers := [], buffer := [], lock := l } : Mail).InOrder := by
  have hahead : ({ m with handlers := [], buffer := [], lock := l } : Mail).ahead =
      m.read.live := by
    unfold ahead
    rw [held_nil (m := { m with handlers := [], buffer := [], lock := l }) fun u d => by
      cases u with
      | read => exact hfree .read d
      | drain k => exact hfree (.drain k) d]
    rfl
  have hn : m.Next m.read.live :=
    h.next.sublist ((List.sublist_append_right _ _).trans (List.sublist_append_right _ _))
  have hpc : ∀ u d, ({ m with handlers := [], buffer := [], lock := l } : Mail).pc u ≠
      .delivering d := by
    intro u d
    cases u with
    | read => exact hfree .read d
    | drain k => exact hfree (.drain k) d
  refine ⟨⟨h.books.stream, List.nodup_nil, by simp, h.books.valid, h.books.order, h.books.entered,
    h.books.sorted, List.nil_suffix, h.books.dropped⟩, ?_, fun u d hd => absurd hd (hpc u d),
    fun u d hd => absurd hd (hpc u d), h.drains, h.live⟩
  rw [hahead]
  exact ⟨hn.sorted, hn.onStream, hn.past⟩

/-- The lock takes in another waiter. -/
theorem InOrder.relock (h : m.InOrder) {l : FifoLock} (hl : l.owner = m.lock.owner) :
    ({ m with lock := l } : Mail).InOrder := by
  have hpc : ∀ u, ({ m with lock := l } : Mail).pc u = m.pc u := by
    intro u
    cases u <;> rfl
  have hahead : ({ m with lock := l } : Mail).ahead = m.ahead := by
    unfold ahead held
    rw [show ({ m with lock := l } : Mail).lock.owner = m.lock.owner from hl]
    simp only [hpc]
  refine ⟨h.books.setLock l, ?_, fun u d hd => hl.trans (h.owner u d (hpc u ▸ hd)),
    fun u d hd => ?_, h.drains, h.live⟩
  · rw [hahead]
    exact ⟨h.next.sorted, h.next.onStream, h.next.past⟩
  · have hc := h.current u d (hpc u ▸ hd)
    refine ⟨hc.event, ?_, hc.past, hc.later, hc.handlers⟩
    rw [hahead]
    exact hc.next

/-- A registration takes the next number and leaves the deliveries under way alone. -/
theorem InOrder.onEvent (h : m.InOrder) (hd : ∀ d, m.drains m.nextDrain ≠ .delivering d) :
    m.onEvent.InOrder := by
  have hbooks : ∀ m' : Mail, m'.stream = m.stream → m'.handlers = m.handlers ++ [m.nextHandler] →
      m'.nextHandler = m.nextHandler + 1 → m'.delivered = m.delivered → m'.buffered = m.buffered →
      m'.buffer = m.buffer → m'.dropped = m.dropped → m'.Books := by
    intro m' h1 h2 h3 h4 h5 h6 h7
    refine ⟨h1 ▸ h.books.stream, ?_, ?_, ?_, h4 ▸ h.books.order, ?_, h5 ▸ h.books.sorted, ?_, ?_⟩
    · rw [h2]
      refine List.nodup_append.2 ⟨h.books.handlers, by simp, fun a ha b hb hab => ?_⟩
      cases List.mem_singleton.1 hb
      exact Nat.ne_of_lt (h.books.bound a ha) hab
    · rw [h2, h3]
      intro a ha
      rcases List.mem_append.1 ha with ha | ha
      · exact Nat.lt_succ_of_lt (h.books.bound a ha)
      · cases List.mem_singleton.1 ha
        exact Nat.lt_succ_self _
    · rw [h4, h1]
      exact h.books.valid
    · rw [h5, h1]
      exact h.books.entered
    · rw [h5, h6]
      exact h.books.suffix
    · rw [h7, h5]
      exact h.books.dropped
  have hmove : ∀ m' : Mail, m'.Books → m'.stream = m.stream → m'.delivered = m.delivered →
      m'.buffered = m.buffered → m'.buffer = m.buffer → m'.read = m.read → m'.lock = m.lock →
      (∀ u d, m'.pc u = .delivering d → m.pc u = .delivering d) →
      (∀ u, (m'.pc u).rest = (m.pc u).rest) → (∀ k e, m'.drains k ≠ .locking (some e)) →
      m'.InOrder := by
    intro m' hb h1 h2 h3 h4 h5 h6 h7 h8 h9
    have hahead : m'.ahead = m.ahead := by
      unfold ahead held
      rw [h6, h4, h5]
      simp only [h8]
    refine ⟨hb, ⟨?_, ?_, ?_⟩, fun u d hu => h6 ▸ h.owner u d (h7 u d hu), fun u d hu => ?_, h9, ?_⟩
    · rw [hahead]
      exact h.next.sorted
    · rw [hahead, h1]
      exact h.next.onStream
    · rw [hahead, h2]
      exact h.next.past
    · have hc := h.current u d (h7 u d hu)
      refine ⟨h1 ▸ hc.event, ?_, h2 ▸ hc.past, h2 ▸ hc.later, hc.handlers⟩
      rw [hahead]
      exact hc.next
    · rw [h3, h5]
      exact h.live
  unfold Mail.onEvent
  dsimp only
  split
  · refine hmove _ (hbooks _ rfl rfl rfl rfl rfl rfl rfl) rfl rfl rfl rfl rfl rfl (fun u d hu => ?_)
      (fun u => ?_) fun k e => ?_
    · cases u with
      | read => exact hu
      | drain k =>
        simp only [pc, Function.update_apply] at hu
        split at hu
        · cases hu
        · exact hu
    · cases u with
      | read => rfl
      | drain k =>
        simp only [pc, Function.update_apply]
        split
        · rename_i hk
          subst hk
          cases hq : m.drains m.nextDrain with
          | delivering d => exact absurd hq (hd d)
          | _ => rfl
        · rfl
    · simp only [Function.update_apply]
      split
      · simp
      · exact h.drains k e
  · exact hmove _ (hbooks _ rfl rfl rfl rfl rfl rfl rfl) rfl rfl rfl rfl rfl rfl (fun u d hu => by
      cases u <;> exact hu) (fun u => by cases u <;> rfl) h.drains

end Mail

open Mail in
/-- Every signal keeps the order of the events. -/
theorem Engine.step_inOrder {py : Interpreter} {shut : Bool} {g : Signal} {e e' : Engine}
    (hq : e.Queued) (h : e.mail.InOrder) (hs : e.step py shut g = some e') : e'.mail.InOrder := by
  have hclear : ∀ (e₁ : Engine) (r : Bool), e₁.mail.InOrder → (e₁.closeEnter r).mail.InOrder := by
    intro e₁ r h₁
    unfold closeEnter
    split
    · rename_i l hl
      obtain ⟨-, hfree⟩ := FifoLock.acquire_owner hl
      refine h₁.clear (fun u d hd => ?_) _
      have := h₁.owner u d hd
      rw [hfree] at this
      cases this
    · rename_i l hl
      obtain ⟨ho, -⟩ := FifoLock.acquire_queued hl
      exact h₁.relock ho
  cases step_move hs with
  | idle he => exact he ▸ h
  | registers _ he =>
    subst he
    refine h.onEvent fun d hd => ?_
    rw [hq.drains _ (Nat.le_refl _)] at hd
    cases hd
  | beginsRead l hf he =>
    have hcr : e.mail.read = .created := (hq.worker .read).1 (by simp [hf])
    subst he
    have hp : ∀ p : Pc, p.live = [] → (∀ d, p ≠ .delivering d) → (∀ x, p ≠ .locking (some x)) →
        ({ e.mail with read := p } : Mail).InOrder := by
      intro p h1 h2 h3
      refine h.setPc (w := .read) (l := e.mail.lock) (fun d hd => ?_) h2 rfl ?_ h3
      · rw [show e.mail.read = .delivering d from hd] at hcr
        cases hcr
      · rw [setPc_otherLive, if_pos rfl, h1]
        exact List.nil_sublist _
    dsimp only
    split
    · exact hp .dropped rfl (by simp) (by simp)
    · exact hp .reading rfl (by simp) (by simp)
  | beginsDrain k l hf he =>
    have hcr : e.mail.drains k = .created := (hq.worker (.drain k)).1 (by simp [hf])
    subst he
    dsimp only
    split
    · refine h.setPc (w := .drain k) (p := .dropped) (l := e.mail.lock) (fun d hd => ?_) (by simp) rfl
        (List.Sublist.refl _) (by simp)
      rw [show e.mail.drains k = .delivering d from hd] at hcr
      cases hcr
    · refine h.enterDrain fun d hd => ?_
      rw [hd] at hcr
      cases hcr
  | beginsClose l _ he =>
    subst he
    unfold closeBegin
    dsimp only
    split
    · exact hclear _ _ h
    · exact h
  | answers _ _ _ _ _ he => exact he ▸ h
  | receives _ params _ hr he => exact he ▸ h.receive hr params
  | readEnds _ _ he => exact he ▸ h.stop .read
  | drainEnds k _ _ he => exact he ▸ h.stop (.drain k)
  | works w m hm he =>
    subst he
    rcases hm with hm | hm
    · exact h.locked hm
    · exact h.handled hm
  | gathers r _ _ _ _ he => exact he ▸ hclear e r h
  | clears r _ ho he =>
    subst he
    refine h.clear (fun u d hd => ?_) _
    have := h.owner u d hd
    rw [ho] at this
    exact u.code_ne_close (Option.some.inj this).symm
  | closes _ _ he => exact he ▸ h

variable {py : Interpreter} {p : Str} {s s' : State} {a : Action}

theorem step_inOrder (ho : s.Ordered) (h : s.mail.InOrder) (hs : step py p s a = some s') :
    s'.mail.InOrder := by
  rcases step_cases hs ho.tabled with ⟨t, -, hc⟩ | ⟨g, e, -, he, rfl⟩
  · obtain ⟨d, he | ⟨-, he⟩ | ⟨hx, he⟩⟩ := hc.move.engine
    · exact he ▸ h
    · have hm : s.createCloseTask.mail = s.mail := by
        unfold Engine.createCloseTask
        split
        · rfl
        · rfl
      rw [he]
      exact hm ▸ h
    · rw [he]
      show s.createReadTask.mail.InOrder
      unfold Engine.createReadTask
      split
      · exact h
      · rename_i hr
        have habs := ho.queued.unread (Bool.eq_false_iff.2 hr) hx
        refine h.setPc (w := .read) (p := .created) (l := s.mail.lock) (fun d hd => ?_) (by simp) rfl
          (List.nil_sublist _) (by simp)
        rw [show s.mail.read = .delivering d from hd] at habs
        cases habs
  · exact Engine.step_inOrder ho.queued h he

/-- The events that a handler was called with. -/
def Mail.deliveredTo (m : Mail) (h : Hid) : List Event :=
  (m.delivered.filter fun x => x.1 = h).map Prod.snd

theorem Mail.Books.deliveredTo {m : Mail} (hb : m.Books) (h : Hid) :
    ((m.deliveredTo h).Pairwise fun a b => a.seq < b.seq) ∧
      ∀ e ∈ m.deliveredTo h, m.stream[e.seq]? = some e := by
  constructor
  · refine List.pairwise_map.2 (List.Pairwise.imp_of_mem ?_ (hb.order.sublist List.filter_sublist))
    intro a b ha hb' hab
    have h1 := (List.mem_filter.1 ha).2
    have h2 := (List.mem_filter.1 hb').2
    simp only [decide_eq_true_eq] at h1 h2
    exact hab (h1.trans h2.symm)
  · intro e he
    obtain ⟨x, hx, rfl⟩ := List.mem_map.1 he
    exact hb.valid x (List.mem_filter.1 hx).1

/-- The line of a feature event without parameters. -/
def eventLine : Bytes :=
  match encodeMessage .floatless (JsonRpcNotification.toDict ⟨FEATURE_EVENT, []⟩) with
  | .ok b => b
  | .error _ => []

/-- A client after a feature event. -/
def State.hear (s : State) : State := s.setEngine { s.toEngine with mail := s.mail.receive [] }

theorem step_event {v : Str} (hread : s.mail.read = .reading) :
    (machine .floatless v).step s (.signal (.line eventLine)) = some s.hear := by
  have hb : encodeMessage .floatless (JsonRpcNotification.toDict ⟨FEATURE_EVENT, []⟩) =
      .ok eventLine := rfl
  have hm : parseMessage (image (Interpreter.floatOf .floatless)
      (JsonRpcNotification.toDict ⟨FEATURE_EVENT, []⟩)) = .ok (.notification ⟨FEATURE_EVENT, []⟩) := rfl
  exact step_line hread hb (by decide) hm

/-- A client whose peer has sent two events that nobody wanted yet. -/
def heardTwice : State := ((machine .floatless []).after [.call 0 .start true, .signal .begin]).hear.hear

theorem heardTwice_reachable : (machine .floatless []).Reachable heardTwice := by
  have h₀ : (machine .floatless []).Reachable
      ((machine .floatless []).after [.call 0 .start true, .signal .begin]) :=
    Machine.reachable_after rfl
  exact (h₀.step (step_event rfl)).step (step_event rfl)

end KestrelSdk.Client
