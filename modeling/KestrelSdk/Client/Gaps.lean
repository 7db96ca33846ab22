import KestrelSdk.Client.Events

namespace KestrelSdk.Client

open Json Protocol Asyncio

/-- A handler raises in a drain while later events of its buffer wait. -/
def loses (s : State) : Action → Bool
  | .signal (.handlerFails (.drain k)) =>
    match s.mail.drains k with
    | .delivering d => !d.rest.isEmpty
    | _ => false
  | _ => false

/-- A client whose drains fail on the last event of their buffer at most. -/
def lossless (py : Interpreter) (p : Str) : Machine State Action :=
  (machine py p).restrict fun s a => !loses s a

namespace Mail

/-- What the first handler was given, and what is on its way to it. -/
def account (m : Mail) : List Event := m.deliveredTo 0 ++ m.ahead

/-- Nobody is in the event lock before the first registration, and the buffer holds the youngest
events of the stream. -/
structure Quiet (m : Mail) : Prop where
  handlers : m.handlers = []
  delivered : m.delivered = []
  lock : m.lock = {}
  drains : m.nextDrain = 0
  read : m.read = .absent ∨ m.read = .created ∨ m.read = .reading
  buffer : m.buffer = m.stream.drop (m.stream.length - MAX_PENDING_EVENTS)

/-- The first handler's account is what it found in the buffer and every later event. -/
structure Gapless (m : Mail) : Prop where
  quiet : m.nextHandler = 0 → m.Quiet
  first : 0 < m.nextHandler → ∃ hs, m.handlers = 0 :: hs
  joined : m.joined ≤ m.stream.length
  opening : m.opening = (m.stream.take m.joined).drop (m.joined - MAX_PENDING_EVENTS)
  whole : 0 < m.nextHandler → m.account = m.opening ++ m.stream.drop m.joined
  later : ∀ w d, m.pc w = .delivering d → 0 ∉ d.handlers

variable {m m' : Mail} {w : Worker}

theorem Gapless.start : Gapless {} := by
  refine ⟨fun _ => ⟨rfl, rfl, rfl, rfl, .inl rfl, rfl⟩, by simp, by simp, by simp, by simp,
    fun u d hu => ?_⟩
  cases u <;> cases hu

theorem setPc_deliveredTo (m : Mail) (w : Worker) (p : Pc) (h : Hid) :
    (m.setPc w p).deliveredTo h = m.deliveredTo h := by
  cases w <;> rfl

theorem invoke_deliveredTo (m : Mail) (h : Hid) (e : Event) :
    (m.invoke h e).deliveredTo h = m.deliveredTo h ++ [e] := by
  simp [deliveredTo, invoke]

theorem invoke_deliveredTo_of_ne {h i : Hid} (hi : i ≠ h) (m : Mail) (e : Event) :
    (m.invoke i e).deliveredTo h = m.deliveredTo h := by
  simp [deliveredTo, invoke, hi]

theorem Section.leave_account {p : Pc} {l : FifoLock} (h : m.Section w)
    (hdel : ∀ d, p ≠ .delivering d) (hlive : ∀ e, p ≠ .locking e) :
    (({ m with lock := l } : Mail).setPc w p).account =
      m.deliveredTo 0 ++ (m.buffer ++ m.otherLive w) := by
  unfold account
  rw [h.leave_ahead hdel hlive, setPc_deliveredTo]
  rfl

/-- Dispatching moves events from the road to the first handler. -/
theorem Section.dispatch_account (es : List Event) {hs : List Hid} (h : m.Section w)
    (hh : m.handlers = 0 :: hs) :
    (m.dispatch w es).account = m.deliveredTo 0 ++ (es ++ (m.buffer ++ m.otherLive w)) ∧
      ∀ u d, (m.dispatch w es).pc u = .delivering d → 0 ∉ d.handlers := by
  cases es with
  | nil =>
    have hne := Worker.after_ne w
    refine ⟨h.leave_account hne.1 hne.2, fun u d hu => ?_⟩
    exact absurd hu (h.leave_free hne.1 u d)
  | cons e rest =>
    have hd : m.dispatch w (e :: rest) = (m.invoke 0 e).setPc w (.delivering ⟨e, 0, hs, rest⟩) := by
      simp only [Mail.dispatch, hh]
    rw [hd]
    refine ⟨?_, fun u q hu => ?_⟩
    · unfold account
      rw [deliver_ahead h.owner, setPc_deliveredTo, invoke_deliveredTo, List.append_assoc]
      rfl
    · rw [(h.deliver_pc u q hu).2]
      have hnd := h.books.handlers
      rw [hh] at hnd
      exact (List.nodup_cons.1 hnd).1

/-- The account of a section that starts with an empty buffer. -/
theorem Section.flush_account {hs : List Hid} (h : m.Section w) (hh : m.handlers = 0 :: hs) :
    (m.underLock w none).account = m.deliveredTo 0 ++ (m.buffer ++ m.otherLive w) ∧
      ∀ u d, (m.underLock w none).pc u = .delivering d → 0 ∉ d.handlers := by
  have hs' : ({ m with buffer := [] } : Mail).Section w :=
    ⟨h.books.clear, h.owner, h.others, h.drains, h.live⟩
  exact hs'.dispatch_account m.buffer hh

theorem Section.handle_account {hs : List Hid} {e : Event} (h : m.Section .read)
    (hh : m.handlers = 0 :: hs) :
    (m.underLock .read (some e)).account = m.deliveredTo 0 ++ (m.buffer ++ [e]) ∧
      ∀ u d, (m.underLock .read (some e)).pc u = .delivering d → 0 ∉ d.handlers := by
  have hs' : ({ m with buffer := [] } : Mail).Section .read :=
    ⟨h.books.clear, h.owner, h.others, h.drains, h.live⟩
  have hu : m.underLock .read (some e) =
      ({ m with buffer := [] } : Mail).dispatch .read (m.buffer ++ [e]) := by
    simp [underLock, hh]
  rw [hu]
  obtain ⟨h1, h2⟩ := hs'.dispatch_account (m.buffer ++ [e]) hh
  refine ⟨?_, h2⟩
  rw [h1]
  simp only [otherLive, if_true, List.append_nil]
  rfl

/-- A registered client keeps its account whole while the stream stands still. -/
theorem Gapless.keep (h : m.Gapless) (hreg : 0 < m.nextHandler) (ho : Only w m m')
    (ha : m'.account = m.account) (hl : ∀ u d, m'.pc u = .delivering d → 0 ∉ d.handlers) :
    m'.Gapless where
  quiet hz := by
    rw [ho.nextHandler] at hz
    omega
  first _ := by
    rw [ho.handlers]
    exact h.first hreg
  joined := by
    rw [ho.joined, ho.stream]
    exact h.joined
  opening := by
    rw [ho.opening, ho.stream, ho.joined]
    exact h.opening
  whole _ := by
    rw [ha, ho.opening, ho.stream, ho.joined]
    exact h.whole hreg
  later := hl

/-- Before the first registration no worker is in the event lock. -/
theorem Gapless.registered (h : m.Gapless) (hq : ∀ k, m.nextDrain ≤ k → m.drains k = .absent)
    (hw : (m.pc w).Suspended) (hr : m.pc w ≠ .reading) : 0 < m.nextHandler := by
  by_contra hz
  have hz' := h.quiet (by omega)
  cases w with
  | read =>
    rcases hz'.read with hread | hread | hread
    · exact hw.ne_absent hread
    · exact hw.ne_created hread
    · exact hr hread
  | drain k => exact hw.ne_absent (hq k (by simp [hz'.drains]))

/-- The worker that waited runs its section. -/
theorem Gapless.locked (h : m.Gapless) (hi : m.InOrder)
    (hq : ∀ k, m.nextDrain ≤ k → m.drains k = .absent) (hm : m.locked w = some m') : m'.Gapless := by
  have honly := (works_only (.inl hm)).2
  unfold Mail.locked at hm
  split at hm
  · rename_i live hpc
    have hreg : 0 < m.nextHandler := h.registered (w := w) hq (hpc ▸ .locking live) (by simp [hpc])
    obtain ⟨hs, hh⟩ := h.first hreg
    split at hm
    · rename_i ho
      cases hm
      have hsec := hi.section ho
      have hheld : m.held = [] := by
        rw [held_owner ho, hpc]
        rfl
      cases live with
      | none =>
        obtain ⟨h1, h2⟩ := hsec.flush_account hh
        refine h.keep hreg honly ?_ h2
        have hother : m.otherLive w = m.read.live := otherLive_eq (by rw [hpc]; rfl)
        rw [h1, hother]
        unfold account ahead
        rw [hheld]
        rfl
      | some e =>
        cases w with
        | drain k => exact absurd hpc (hi.drains k e)
        | read =>
          obtain ⟨h1, h2⟩ := hsec.handle_account (e := e) hh
          refine h.keep hreg honly ?_ h2
          rw [h1]
          unfold account ahead
          rw [hheld, show m.read = .locking (some e) from hpc]
          rfl
    · cases hm
  · cases hm

/-- The running handler has returned. -/
theorem Gapless.handled (h : m.Gapless) (hi : m.InOrder)
    (hq : ∀ k, m.nextDrain ≤ k → m.drains k = .absent) (hm : m.handled w = some m') : m'.Gapless := by
  have honly := (works_only (.inr hm)).2
  unfold Mail.handled at hm
  split at hm
  · rename_i d hpc
    have hreg : 0 < m.nextHandler := h.registered (w := w) hq (hpc ▸ .delivering d) (by simp [hpc])
    obtain ⟨hs, hh⟩ := h.first hreg
    have ho := hi.owner w d hpc
    have hsec := hi.section ho
    have hother : m.otherLive w = m.read.live := otherLive_eq (by rw [hpc]; rfl)
    have hheld : m.held = d.rest := by
      rw [held_owner ho, hpc]
      rfl
    have hzero := h.later w d hpc
    split at hm
    · rename_i i is his
      cases hm
      rw [his] at hzero
      have hi0 : i ≠ 0 := by
        rintro rfl
        exact hzero List.mem_cons_self
      refine h.keep hreg honly ?_ fun u q hu => ?_
      · unfold account
        rw [deliver_ahead ho, setPc_deliveredTo, invoke_deliveredTo_of_ne hi0, hother]
        unfold ahead
        rw [hheld]
      · rw [(hsec.deliver_pc u q hu).2]
        exact fun hmem => hzero (List.mem_cons_of_mem _ hmem)
    · cases hm
      obtain ⟨h1, h2⟩ := hsec.dispatch_account d.rest hh
      refine h.keep hreg honly ?_ h2
      rw [h1, hother]
      unfold account ahead
      rw [hheld]
  · cases hm

/-- A drain that fails on the last event of its buffer loses none. -/
theorem Gapless.stopDrain {k : Nat} {d : Delivery} (h : m.Gapless) (hi : m.InOrder)
    (hq : ∀ k, m.nextDrain ≤ k → m.drains k = .absent) (hpc : m.drains k = .delivering d)
    (hd : d.rest = []) : (m.stop (.drain k)).Gapless := by
  have hw : m.pc (.drain k) = .delivering d := hpc
  have hreg : 0 < m.nextHandler := h.registered (w := .drain k) hq (hw ▸ .delivering d) (by simp [hw])
  have ho := hi.owner (.drain k) d hpc
  have hsec := hi.section ho
  refine h.keep hreg (m.stop_only (.drain k)) ?_ fun u q hu => ?_
  · have hstop : m.stop (.drain k) =
        ({ m with lock := m.lock.release } : Mail).setPc (.drain k) .ended := by
      unfold Mail.stop
      simp only [ho, if_true]
    rw [hstop, hsec.leave_account (by simp) (by simp)]
    have hheld : m.held = [] := by
      rw [held_owner ho, hw]
      exact hd
    unfold account ahead
    rw [hheld]
    rfl
  · refine h.later u q ?_
    by_cases huk : u = .drain k
    · subst huk
      unfold Mail.stop at hu
      rw [setPc_pc_self] at hu
      cases hu
    · exact ((m.stop_only (.drain k)).others u huk).symm.trans hu

/-- A worker that does not deliver changes its place. -/
theorem Gapless.move {p : Pc} {l : FifoLock} (h : m.Gapless) (hw : ∀ d, m.pc w ≠ .delivering d)
    (hp : ∀ d, p ≠ .delivering d) (hl : l.owner = m.lock.owner)
    (hlive : (m.setPc w p).read.live = m.read.live)
    (hq : m.nextHandler = 0 → l = {} ∧ w = .read ∧ (p = .created ∨ p = .reading)) :
    (({ m with lock := l } : Mail).setPc w p).Gapless := by
  obtain ⟨h1, h2, h3, -, -, h6, h7, h8⟩ := ({ m with lock := l } : Mail).setPc_frame w p
  have hmore : (({ m with lock := l } : Mail).setPc w p).nextDrain = m.nextDrain ∧
      (({ m with lock := l } : Mail).setPc w p).joined = m.joined ∧
      (({ m with lock := l } : Mail).setPc w p).opening = m.opening := by
    cases w <;> exact ⟨rfl, rfl, rfl⟩
  obtain ⟨hdrain, hjoined, hopening⟩ := hmore
  refine ⟨fun hz => ?_, fun hz => ?_, ?_, ?_, fun hz => ?_,
    fun u d hu => h.later u d (move_pc hp u d hu)⟩
  · rw [h7] at hz
    have hquiet := h.quiet hz
    obtain ⟨r1, r2, r3⟩ := hq hz
    subst r2
    exact ⟨h6.trans hquiet.handlers, h2.trans hquiet.delivered, h8.trans r1,
      hdrain.trans hquiet.drains, .inr r3, hquiet.buffer⟩
  · rw [h7] at hz
    rw [h6]
    exact h.first hz
  · rw [hjoined, h1]
    exact h.joined
  · rw [hjoined, hopening, h1]
    exact h.opening
  · rw [h7] at hz
    unfold account
    rw [move_ahead hw hp hl, setPc_deliveredTo, hlive, h1, hjoined, hopening]
    exact h.whole hz

/-- A drain takes its first step. -/
theorem Gapless.enterDrain {k : Nat} (h : m.Gapless) (hi : m.InOrder)
    (hq : ∀ k, m.nextDrain ≤ k → m.drains k = .absent) (hk : m.drains k = .created) :
    (m.enter (.drain k) none).Gapless := by
  have hreg : 0 < m.nextHandler := by
    by_contra hz
    have hquiet := h.quiet (by omega)
    rw [hq k (by simp [hquiet.drains])] at hk
    cases hk
  obtain ⟨hs, hh⟩ := h.first hreg
  have hdel : ∀ d, m.pc (.drain k) ≠ .delivering d := by
    intro d hd
    rw [show m.drains k = .delivering d from hd] at hk
    cases hk
  unfold Mail.enter
  split
  · rename_i l hl
    obtain ⟨ho, hfree⟩ := FifoLock.acquire_owner hl
    have hnone : ∀ u d, m.pc u ≠ .delivering d := by
      intro u d hd
      have := hi.owner u d hd
      rw [hfree] at this
      cases this
    have hsec : ({ m with lock := l } : Mail).Section (.drain k) :=
      ⟨hi.books.setLock l, ho, fun u d _ => hnone u d, hi.drains, hi.live⟩
    obtain ⟨h1, h2⟩ := hsec.flush_account hh
    have honly : Only (.drain k) m (({ m with lock := l } : Mail).underLock (.drain k) none) :=
      (underLock_only _ (.drain k) none).after (pc_eq rfl) rfl
    refine h.keep hreg honly ?_ h2
    rw [h1]
    unfold account ahead
    rw [held_nil hnone]
    rfl
  · rename_i l hl
    obtain ⟨ho, -⟩ := FifoLock.acquire_queued hl
    exact h.move hdel (by simp) ho rfl fun hz => absurd hz (Nat.ne_of_gt hreg)

/-- A buffer of the youngest events takes in the next one. -/
theorem push_youngest {e : Event} {es : List Event}
    (hb : m.buffer = es.drop (es.length - MAX_PENDING_EVENTS)) :
    (m.push e).buffer = (es ++ [e]).drop ((es ++ [e]).length - MAX_PENDING_EVENTS) := by
  have hlen : m.buffer.length = es.length - (es.length - MAX_PENDING_EVENTS) := by
    rw [hb, List.length_drop]
  unfold Mail.push
  split
  · rename_i x l hbuf
    split
    · rename_i hfull
      have hl : l = es.drop (es.length - MAX_PENDING_EVENTS + 1) := by
        have := congrArg List.tail (hbuf.symm.trans hb)
        rwa [List.tail_cons, List.tail_drop] at this
      have hmax : 0 < MAX_PENDING_EVENTS := by decide
      have hbig : MAX_PENDING_EVENTS ≤ es.length := by
        rw [hlen] at hfull
        omega
      show l ++ [e] = _
      rw [hl, List.length_append, List.length_singleton,
        show es.length + 1 - MAX_PENDING_EVENTS = es.length - MAX_PENDING_EVENTS + 1 by
          omega, List.drop_append_of_le_length (by omega)]
    · rename_i hroom
      rw [hlen] at hroom
      have hsmall : es.length + 1 - MAX_PENDING_EVENTS = 0 := by omega
      have hzero : es.length - MAX_PENDING_EVENTS = 0 := by omega
      show m.buffer ++ [e] = _
      rw [List.length_append, List.length_singleton, hsmall, hb, hzero]
      rfl
  · rename_i hbuf
    have hz : es = [] := by
      rw [hbuf] at hlen
      simp only [List.length_nil, MAX_PENDING_EVENTS] at hlen
      exact List.length_eq_zero_iff.1 (by omega)
    rw [hz]
    show [e] = List.drop (1 - MAX_PENDING_EVENTS) [e]
    rw [show 1 - MAX_PENDING_EVENTS = 0 by simp [MAX_PENDING_EVENTS]]
    rfl

/-- The stream grows by an event that the account takes in. -/
theorem Gapless.grown {e : Event} (h : m.Gapless) (hreg : 0 < m.nextHandler)
    (ho : Only w { m with stream := m.stream ++ [e] } m') (ha : m'.account = m.account ++ [e])
    (hl : ∀ u d, m'.pc u = .delivering d → 0 ∉ d.handlers) : m'.Gapless where
  quiet hz := by
    rw [ho.nextHandler] at hz
    exact absurd hz (Nat.ne_of_gt hreg)
  first _ := by
    rw [ho.handlers]
    exact h.first hreg
  joined := by
    rw [ho.joined, ho.stream, List.length_append]
    exact Nat.le_add_right_of_le h.joined
  opening := by
    rw [ho.opening, ho.stream, ho.joined, List.take_append_of_le_length h.joined]
    exact h.opening
  whole _ := by
    rw [ha, ho.opening, ho.stream, ho.joined, List.drop_append_of_le_length h.joined, h.whole hreg,
      List.append_assoc]
  later := hl

/-- A feature event reaches the read loop. -/
theorem Gapless.receive (h : m.Gapless) (hi : m.InOrder) (hr : m.read = .reading) (params : Dict) :
    (m.receive params).Gapless := by
  have hi₁ := (hi.grow params).1
  have honly := m.receive_only params
  have hlive : m.read.live = [] := by
    rw [hr]
    rfl
  rcases Nat.eq_zero_or_pos m.nextHandler with hz | hreg
  · -- nobody has registered: the event is buffered
    have hquiet := h.quiet hz
    have hacq : m.lock.acquire Worker.read.code = (⟨some 0, []⟩, true) := by
      rw [hquiet.lock]
      rfl
    have hrec : m.receive params = ((({ m with
        stream := m.stream ++ [⟨m.stream.length, params⟩], lock := ⟨some 0, []⟩ } : Mail).push
          ⟨m.stream.length, params⟩).release .read) := by
      unfold Mail.receive Mail.enter
      simp only [hacq, underLock, hquiet.handlers, List.isEmpty_nil, if_true]
    obtain ⟨-, hframe⟩ := ({ m with
      stream := m.stream ++ [⟨m.stream.length, params⟩], lock := ⟨some 0, []⟩ } : Mail).push_frame
        ⟨m.stream.length, params⟩
    obtain ⟨hdel, hlock⟩ := ({ m with
      stream := m.stream ++ [⟨m.stream.length, params⟩], lock := ⟨some 0, []⟩ } : Mail).push_stays
        ⟨m.stream.length, params⟩
    simp only [Prod.mk.injEq] at hframe
    obtain ⟨f1, f2, f3, f4, f5, f6⟩ := hframe
    have hgrow : (m.receive params).stream = m.stream ++ [⟨m.stream.length, params⟩] := honly.stream
    have hn : (m.receive params).nextHandler = 0 := honly.nextHandler.trans hz
    refine ⟨fun _ => ⟨honly.handlers.trans hquiet.handlers, ?_, ?_, honly.nextDrain.trans hquiet.drains,
      ?_, ?_⟩, fun h0 => ?_, ?_, ?_, fun h0 => ?_, fun u d hu => ?_⟩
    · rw [hrec]
      exact hdel.trans hquiet.delivered
    · rw [hrec]
      show FifoLock.release _ = _
      rw [hlock]
      rfl
    · rw [hrec]
      exact .inr (.inr rfl)
    · rw [hgrow, hrec]
      exact push_youngest hquiet.buffer
    · omega
    · rw [honly.joined, hgrow, List.length_append]
      exact Nat.le_add_right_of_le h.joined
    · rw [honly.opening, hgrow, honly.joined, List.take_append_of_le_length h.joined]
      exact h.opening
    · omega
    · by_cases hu' : u = .read
      · subst hu'
        rw [hrec] at hu
        cases hu
      · exact h.later u d ((honly.others u hu').symm.trans hu)
  · obtain ⟨hs, hh⟩ := h.first hreg
    unfold Mail.receive Mail.enter
    dsimp only
    split
    · rename_i l hl
      obtain ⟨ho, hfree⟩ := FifoLock.acquire_owner hl
      have hnone : ∀ u d, m.pc u ≠ .delivering d := by
        intro u d hd
        have := hi.owner u d hd
        rw [show m.lock.owner = none from hfree] at this
        cases this
      have hsec : ({ m with stream := m.stream ++ [⟨m.stream.length, params⟩], lock := l } :
          Mail).Section .read :=
        ⟨hi₁.books.setLock l, ho, fun u d _ => hnone u d, hi.drains, by simp [otherLive]⟩
      obtain ⟨h1, h2⟩ := hsec.handle_account (e := ⟨m.stream.length, params⟩) hh
      refine h.grown hreg ((underLock_only _ .read _).after (pc_eq rfl) rfl) ?_ h2
      rw [h1]
      unfold account ahead
      rw [held_nil hnone, hlive, List.append_nil, List.nil_append, List.append_assoc]
      rfl
    · rename_i l hl
      obtain ⟨ho, -⟩ := FifoLock.acquire_queued hl
      have hidle : ∀ d, ({ m with stream := m.stream ++ [⟨m.stream.length, params⟩] } : Mail).pc .read ≠
          .delivering d := by
        intro d hd
        rw [show m.read = .delivering d from hd] at hr
        cases hr
      refine h.grown hreg ((setPc_only _ .read (.inl (.locking _))).after (pc_eq rfl) rfl) ?_
        fun u d hu => h.later u d (move_pc (m := { m with
          stream := m.stream ++ [⟨m.stream.length, params⟩] }) (by simp) u d hu)
      unfold account
      rw [move_ahead (m := { m with stream := m.stream ++ [⟨m.stream.length, params⟩] }) hidle
        (by simp) ho, setPc_deliveredTo]
      unfold ahead
      rw [hlive, List.append_nil, List.append_assoc, List.append_assoc]
      rfl

/-- What a registration leaves alone. -/
theorem onEvent_frame (m : Mail) :
    m.onEvent.handlers = m.handlers ++ [m.nextHandler] ∧
      m.onEvent.nextHandler = m.nextHandler + 1 ∧ m.onEvent.stream = m.stream ∧
      m.onEvent.delivered = m.delivered ∧ m.onEvent.buffer = m.buffer ∧ m.onEvent.lock = m.lock ∧
      m.onEvent.read = m.read ∧
      m.onEvent.opening = (if m.nextHandler = 0 then m.buffer else m.opening) ∧
      m.onEvent.joined = if m.nextHandler = 0 then m.stream.length else m.joined := by
  unfold Mail.onEvent
  dsimp only
  split
  · exact ⟨rfl, rfl, rfl, rfl, rfl, rfl, rfl, rfl, rfl⟩
  · exact ⟨rfl, rfl, rfl, rfl, rfl, rfl, rfl, rfl, rfl⟩

/-- No delivery begins or ends with a registration. -/
theorem onEvent_pc (hd : ∀ d, m.drains m.nextDrain ≠ .delivering d) (u : Worker) :
    (m.onEvent.pc u).rest = (m.pc u).rest ∧
      ∀ d, m.onEvent.pc u = .delivering d → m.pc u = .delivering d := by
  rcases m.onEvent_cases with ⟨-, hpc⟩ | ⟨-, hpc⟩
  · rw [hpc]
    exact ⟨rfl, fun d hu => hu⟩
  · rw [hpc]
    split
    · rename_i hu
      subst hu
      refine ⟨?_, by simp⟩
      show [] = (m.drains m.nextDrain).rest
      cases hq : m.drains m.nextDrain with
      | delivering d => exact absurd hq (hd d)
      | _ => rfl
    · exact ⟨rfl, fun d hu => hu⟩

/-- The first registration opens the account with the buffer, and later ones leave it alone. -/
theorem Gapless.onEvent (h : m.Gapless) (hd : ∀ d, m.drains m.nextDrain ≠ .delivering d) :
    m.onEvent.Gapless := by
  obtain ⟨h1, h2, h3, h4, h5, h6, h7, h8, h9⟩ := m.onEvent_frame
  have haccount : m.onEvent.account = m.account := by
    have hheld : m.onEvent.held = m.held := by
      unfold held
      rw [h6]
      split
      · exact (onEvent_pc hd _).1
      · rfl
    unfold account ahead deliveredTo
    rw [h4, h5, h7, hheld]
  refine ⟨fun hz => ?_, fun _ => ?_, ?_, ?_, fun _ => ?_, fun u d hu => ?_⟩
  · rw [h2] at hz
    omega
  · rw [h1]
    rcases Nat.eq_zero_or_pos m.nextHandler with hz | hreg
    · exact ⟨[], by rw [(h.quiet hz).handlers, hz, List.nil_append]⟩
    · obtain ⟨hs, hh⟩ := h.first hreg
      exact ⟨hs ++ [m.nextHandler], by rw [hh, List.cons_append]⟩
  · rw [h9, h3]
    split
    · exact Nat.le_refl _
    · exact h.joined
  · rw [h8, h9, h3]
    split
    · rename_i hz
      rw [List.take_length]
      exact (h.quiet hz).buffer
    · exact h.opening
  · rw [haccount, h8, h9, h3]
    split
    · -- nothing was delivered, and nobody holds an event
      rename_i hz
      have hquiet := h.quiet hz
      have hheld : m.held = [] := by
        unfold held
        rw [hquiet.lock]
        rfl
      have hlive : m.read.live = [] := by
        rcases hquiet.read with hread | hread | hread
        · rw [hread]
          rfl
        · rw [hread]
          rfl
        · rw [hread]
          rfl
      unfold account ahead deliveredTo
      rw [hquiet.delivered, hheld, hlive, List.drop_length]
      simp
    · rename_i hz
      exact h.whole (Nat.pos_of_ne_zero hz)
  · exact h.later u d ((onEvent_pc hd u).2 d hu)

end Mail

/-- What a client keeps until it is terminal or closes: nothing is cancelled, and the first
handler's account has no gap. -/
structure State.Sparing (s : State) : Prop where
  ordered : s.Ordered
  inOrder : s.mail.InOrder
  uncancelled : s.closeTask = .absent → s.drainCancel = [] ∧ s.readCancel = false
  gapless : s.closedExc = none → s.closeTask = .absent → s.mail.Gapless

namespace Engine

variable {py : Interpreter} {shut : Bool} {g : Signal} {e e' : Engine}

/-- A client whose close task is absent had none before. -/
theorem step_absent (hs : e.step py shut g = some e') (hc : e'.closeTask = .absent) :
    e.closeTask = .absent ∧ e'.drainCancel = e.drainCancel ∧ e'.readCancel = e.readCancel ∧
      (e'.closedExc = none → e.closedExc = none) := by
  cases step_move hs with
  | idle he =>
    subst he
    exact ⟨hc, rfl, rfl, id⟩
  | registers _ he =>
    subst he
    exact ⟨hc, rfl, rfl, id⟩
  | beginsRead _ _ he =>
    subst he
    exact ⟨hc, rfl, rfl, id⟩
  | beginsDrain _ _ _ he =>
    subst he
    exact ⟨hc, rfl, rfl, id⟩
  | beginsClose l hf he =>
    obtain ⟨-, -, -, -, -, h6⟩ := closeBegin_frame { e with fresh := l }
    rw [← he, hc] at h6
    rcases h6 with h6 | ⟨-, -, h6 | h6⟩
    · cases h6
    · cases h6
    · cases h6
  | answers _ _ _ _ _ he =>
    subst he
    exact ⟨hc, rfl, rfl, id⟩
  | receives _ _ _ _ he =>
    subst he
    exact ⟨hc, rfl, rfl, id⟩
  | readEnds _ _ he =>
    subst he
    exact ⟨hc, rfl, rfl, fun hx => by cases hx⟩
  | drainEnds _ _ _ he =>
    subst he
    exact ⟨hc, rfl, rfl, id⟩
  | works _ _ _ he =>
    subst he
    exact ⟨hc, rfl, rfl, id⟩
  | gathers read _ _ _ _ he =>
    obtain ⟨-, -, -, -, -, h6⟩ := e.closeEnter_frame read
    rw [← he, hc] at h6
    rcases h6 with h6 | h6
    · cases h6
    · cases h6
  | clears _ _ _ he =>
    subst he
    cases hc
  | closes _ _ he =>
    subst he
    cases hc

/-- A signal that loses nothing keeps the account. -/
theorem step_gapless (hq : e.Queued) (hi : e.mail.InOrder) (h : e.mail.Gapless)
    (hu : e.drainCancel = [] ∧ e.readCancel = false)
    (hk : ∀ k d, g = .handlerFails (.drain k) → e.mail.drains k = .delivering d → d.rest = [])
    (hs : e.step py shut g = some e') (hx : e'.closedExc = none) (hc : e'.closeTask = .absent) :
    e'.mail.Gapless := by
  have habs := step_absent hs hc
  cases step_move hs with
  | idle he => exact he ▸ h
  | registers _ he =>
    subst he
    refine h.onEvent fun d hd => ?_
    rw [hq.drains _ (Nat.le_refl _)] at hd
    cases hd
  | beginsRead l hf he =>
    have hcr : e.mail.read = .created := (hq.worker .read).1 (by simp [hf])
    subst he
    rw [hu.2]
    refine h.move (w := .read) (p := .reading) (l := e.mail.lock) (fun d hd => ?_) (by simp) rfl ?_
      fun hz => ⟨(h.quiet hz).lock, rfl, .inr rfl⟩
    · rw [show e.mail.read = .delivering d from hd] at hcr
      cases hcr
    · rw [hcr]
      rfl
  | beginsDrain k l hf he =>
    have hcr : e.mail.drains k = .created := (hq.worker (.drain k)).1 (by simp [hf])
    subst he
    rw [hu.1]
    exact h.enterDrain hi hq.drains hcr
  | beginsClose _ hf =>
    have hcr : e.closeTask = .created := hq.close.1 (by simp [hf])
    rw [habs.1] at hcr
    cases hcr
  | answers _ _ _ _ _ he => exact he ▸ h
  | receives _ params _ hr he => exact he ▸ h.receive hi hr params
  | readEnds _ _ he =>
    subst he
    cases hx
  | drainEnds k _ hg he =>
    subst he
    rcases hg with hg | ⟨hg, d, hd⟩
    · rw [hu.1] at hg
      cases hg
    · exact h.stopDrain hi hq.drains hd (hk k d hg hd)
  | works w m hm he =>
    subst he
    rcases hm with hm | hm
    · exact h.locked hi hq.drains hm
    · exact h.handled hi hq.drains hm
  | gathers _ _ hg =>
    rw [habs.1] at hg
    cases hg
  | clears _ hg =>
    rw [habs.1] at hg
    cases hg
  | closes _ hg =>
    rw [habs.1] at hg
    cases hg

end Engine

variable {py : Interpreter} {p : Str} {s s' : State} {a : Action}

theorem Engine.createCloseTask_created (e : Engine) : e.createCloseTask.closeTask ≠ .absent := by
  unfold createCloseTask
  split
  · simp
  · rename_i h
    exact h

theorem Engine.createReadTask_cancels (e : Engine) :
    e.createReadTask.drainCancel = e.drainCancel ∧ e.createReadTask.readCancel = e.readCancel ∧
      e.createReadTask.closedExc = e.closedExc := by
  unfold createReadTask
  split
  · exact ⟨rfl, rfl, rfl⟩
  · exact ⟨rfl, rfl, rfl⟩

/-- A read task that is created before the client closes finds the account as it was. -/
theorem State.Sparing.createReadTask (h : s.Sparing) (hx : s.closedExc = none)
    (hc : s.closeTask = .absent) : s.createReadTask.mail.Gapless := by
  have hg := h.gapless hx hc
  unfold Engine.createReadTask
  split
  · exact hg
  · rename_i hr
    have habs := h.ordered.queued.unread (Bool.eq_false_iff.2 hr) hx
    refine hg.move (w := .read) (p := .created) (l := s.mail.lock) (fun d hd => ?_) (by simp) rfl ?_
      fun hz => ⟨(hg.quiet hz).lock, rfl, .inl rfl⟩
    · rw [show s.mail.read = .delivering d from hd] at habs
      cases habs
    · rw [habs]
      rfl

theorem State.Sparing.step (h : s.Sparing) (hok : loses s a = false)
    (hs : step py p s a = some s') : s'.Sparing := by
  have ho := step_ordered h.ordered hs
  have hi := step_inOrder h.ordered h.inOrder hs
  rcases step_cases hs h.ordered.tabled with ⟨t, -, hc⟩ | ⟨g, e, ha, he, rfl⟩
  · obtain ⟨d, he | ⟨-, he⟩ | ⟨hx₀, he⟩⟩ := hc.move.engine
    · refine ⟨ho, hi, ?_, ?_⟩
      · rw [he]
        exact h.uncancelled
      · rw [he]
        exact h.gapless
    · have hne : s'.closeTask ≠ .absent := by
        rw [he]
        exact s.toEngine.createCloseTask_created
      exact ⟨ho, hi, fun hc => absurd hc hne, fun _ hc => absurd hc hne⟩
    · obtain ⟨h1, h2, h3⟩ := s.toEngine.createReadTask_cancels
      have h4 := s.toEngine.createReadTask_closeTask
      refine ⟨ho, hi, ?_, ?_⟩
      · rw [he]
        intro hc
        exact ⟨h1.trans (h.uncancelled (h4.symm.trans hc)).1, h2.trans (h.uncancelled (h4.symm.trans hc)).2⟩
      · rw [he]
        intro hx hc
        exact h.createReadTask hx₀ (h4.symm.trans hc)
  · refine ⟨ho, hi, fun hc => ?_, fun hx hc => ?_⟩
    · obtain ⟨h1, h2, h3, -⟩ := Engine.step_absent he hc
      exact ⟨h2.trans (h.uncancelled h1).1, h3.trans (h.uncancelled h1).2⟩
    · obtain ⟨h1, -, -, h4⟩ := Engine.step_absent he hc
      refine Engine.step_gapless h.ordered.queued h.inOrder (h.gapless (h4 hx) h1)
        (h.uncancelled h1) (fun k d hg hd => ?_) he hx hc
      subst ha
      subst hg
      simpa [loses, hd] using hok

theorem lossless_sparing (h : (lossless py p).Reachable s) : s.Sparing := by
  refine h.invariant (p := State.Sparing) ?_ fun s a s' hs ha => ?_
  · exact ⟨⟨.start, .start, fun h => absurd rfl h⟩, .start, fun _ => ⟨rfl, rfl⟩, fun _ _ => .start⟩
  · obtain ⟨hok, ha⟩ := Machine.restrict_step ha
    exact hs.step (by simpa using hok) ha

/-- As long as no handler raises in a drain with events left, the first handler is given the 256
youngest events before its registration and every later one, without a gap; what it was not given
yet is on its way. -/
theorem no_silent_gap (h : (lossless py p).Reachable s) (hx : s.closedExc = none)
    (hc : s.closeTask = .absent) (hreg : 0 < s.mail.nextHandler) :
    s.mail.opening = (s.mail.stream.take s.mail.joined).drop (s.mail.joined - MAX_PENDING_EVENTS) ∧
      s.mail.deliveredTo 0 <+: s.mail.opening ++ s.mail.stream.drop s.mail.joined ∧
      s.mail.deliveredTo 0 ++ s.mail.ahead = s.mail.opening ++ s.mail.stream.drop s.mail.joined := by
  have hg := (lossless_sparing h).gapless hx hc
  have hwhole := hg.whole hreg
  exact ⟨hg.opening, ⟨s.mail.ahead, hwhole⟩, hwhole⟩

theorem lossless_event {v : Str} (hread : s.mail.read = .reading) :
    (lossless .floatless v).step s (.signal (.line eventLine)) = some s.hear :=
  Machine.step_restrict rfl (step_event hread)

theorem heardTwice_lossless : (lossless .floatless []).Reachable heardTwice := by
  have h₀ : (lossless .floatless []).Reachable
      ((machine .floatless []).after [.call 0 .start true, .signal .begin]) :=
    ⟨[.call 0 .start true, .signal .begin], rfl⟩
  exact (h₀.step (lossless_event rfl)).step (lossless_event rfl)

/-- A handler that raises on the last event of a drain hears the next one. -/
theorem no_silent_gap_last_event :
    ∃ s, (lossless .floatless []).Reachable s ∧ s.mail.drains 0 = .ended ∧
      (s.mail.deliveredTo 0).map Event.seq = [0, 1, 2] ∧
      s.mail.deliveredTo 0 <+: s.mail.opening ++ s.mail.stream.drop s.mail.joined := by
  obtain ⟨s₁, h₁⟩ : ∃ s, (lossless .floatless []).runFrom heardTwice
      [.signal .onEvent, .signal .begin, .signal (.handled (.drain 0)),
        .signal (.handlerFails (.drain 0))] = some s := ⟨_, rfl⟩
  have hread : s₁.mail.read = .reading := by
    cases h₁
    rfl
  have hreach := (heardTwice_lossless.run h₁).step (lossless_event hread)
  have hopen : s₁.hear.closedExc = none ∧ s₁.hear.closeTask = .absent := by
    cases h₁
    exact ⟨rfl, rfl⟩
  have hreg : 0 < s₁.hear.mail.nextHandler := by
    cases h₁
    exact Nat.one_pos
  refine ⟨s₁.hear, hreach, ?_, ?_, (no_silent_gap hreach hopen.1 hopen.2 hreg).2.1⟩
  · cases h₁
    rfl
  · cases h₁
    rfl

/-- A handler that raises in a drain while another event waits: that event is lost, and the client
reads on. -/
theorem drain_failure_skips_event :
    ∃ s, (machine .floatless []).Reachable s ∧ s.closedExc = none ∧ s.closeTask = .absent ∧
      s.mail.read = .reading ∧ s.mail.joined = 2 ∧
      s.mail.opening.map Event.seq = [0, 1] ∧ (s.mail.deliveredTo 0).map Event.seq = [0, 2] ∧
      ¬ s.mail.deliveredTo 0 <+: s.mail.opening ++ s.mail.stream.drop s.mail.joined := by
  obtain ⟨s₁, h₁⟩ : ∃ s, (machine .floatless []).runFrom heardTwice
      [.signal .onEvent, .signal .begin, .signal (.handlerFails (.drain 0))] = some s := ⟨_, rfl⟩
  obtain ⟨s₂, h₂⟩ : ∃ s, (machine .floatless []).runFrom s₁.hear
      [.signal (.handled .read)] = some s := by
    cases h₁
    exact ⟨_, rfl⟩
  have hread : s₁.mail.read = .reading := by
    cases h₁
    rfl
  have hreach := ((heardTwice_reachable.run h₁).step (step_event hread)).run h₂
  have hgap : (s₂.mail.opening ++ s₂.mail.stream.drop s₂.mail.joined).map Event.seq = [0, 1, 2] ∧
      (s₂.mail.deliveredTo 0).map Event.seq = [0, 2] := by
    cases h₁
    cases h₂
    exact ⟨rfl, rfl⟩
  refine ⟨s₂, hreach, ?_, ?_, ?_, ?_, ?_, hgap.2, fun hpre => ?_⟩
  · cases h₁
    cases h₂
    rfl
  · cases h₁
    cases h₂
    rfl
  · cases h₁
    cases h₂
    rfl
  · cases h₁
    cases h₂
    rfl
  · cases h₁
    cases h₂
    rfl
  · have := hpre.map Event.seq
    rw [hgap.1, hgap.2] at this
    exact absurd this (by decide)

end KestrelSdk.Client
