import KestrelSdk.Client.Queue

namespace KestrelSdk.Client

open Json Protocol Asyncio

def Worker.ofCode : Nat → Option Worker
  | 0 => some .read
  | 1 => none
  | k + 2 => some (.drain k)

theorem Worker.ofCode_code (w : Worker) : Worker.ofCode w.code = some w := by
  cases w <;> rfl

theorem Worker.code_injective {w u : Worker} (h : w.code = u.code) : w = u := by
  have := w.ofCode_code
  rw [h, u.ofCode_code] at this
  exact (Option.some.inj this).symm

theorem Worker.code_ne_close (w : Worker) : w.code ≠ closeCode := by
  cases w with
  | read => simp [Worker.code, closeCode]
  | drain k => simp [Worker.code, closeCode]

def Pc.rest : Pc → List Event
  | .delivering d => d.rest
  | _ => []

def Pc.live : Pc → List Event
  | .locking (some e) => [e]
  | _ => []

namespace Mail

/-- The events that the owner of the event lock still holds. -/
def held (m : Mail) : List Event :=
  match m.lock.owner.bind Worker.ofCode with
  | some w => (m.pc w).rest
  | none => []

/-- The events still to be dispatched, in the order of their dispatch. -/
def ahead (m : Mail) : List Event := m.held ++ (m.buffer ++ m.read.live)

/-- Stream positions, registrations, deliveries and buffered events are what they should be. -/
structure Books (m : Mail) : Prop where
  stream : ∀ i (e : Event), m.stream[i]? = some e → e.seq = i
  handlers : m.handlers.Nodup
  bound : ∀ h ∈ m.handlers, h < m.nextHandler
  valid : ∀ x ∈ m.delivered, m.stream[x.2.seq]? = some x.2
  order : m.delivered.Pairwise fun a b => a.1 = b.1 → a.2.seq < b.2.seq
  entered : ∀ b ∈ m.buffered, m.stream[b.seq]? = some b
  sorted : m.buffered.Pairwise fun a b => a.seq < b.seq
  suffix : m.buffer <:+ m.buffered
  dropped : ∀ e ∈ m.dropped, ∃ pre post, m.buffered = pre ++ e :: post ∧ MAX_PENDING_EVENTS ≤ post.length

/-- `es` can come next: it follows the stream, behind everything that was delivered. -/
structure Next (m : Mail) (es : List Event) : Prop where
  sorted : es.Pairwise fun a b => a.seq < b.seq
  onStream : ∀ e ∈ es, m.stream[e.seq]? = some e
  past : ∀ x ∈ m.delivered, ∀ e ∈ es, x.2.seq < e.seq

/-- What a delivery under way has done and may still do. -/
structure Current (m : Mail) (d : Delivery) : Prop where
  event : m.stream[d.event.seq]? = some d.event
  next : ∀ e ∈ m.ahead, d.event.seq < e.seq
  past : ∀ x ∈ m.delivered, x.2.seq ≤ d.event.seq
  later : ∀ x ∈ m.delivered, x.1 ∈ d.handlers → x.2.seq < d.event.seq
  handlers : d.handlers.Nodup

structure InOrder (m : Mail) : Prop where
  books : m.Books
  next : m.Next m.ahead
  owner : ∀ w d, m.pc w = .delivering d → m.lock.owner = some w.code
  current : ∀ w d, m.pc w = .delivering d → m.Current d
  drains : ∀ k e, m.drains k ≠ .locking (some e)
  live : ∀ b ∈ m.buffered, ∀ e ∈ m.read.live, b.seq < e.seq

variable {m : Mail} {w : Worker}

theorem Next.tail {e : Event} {es : List Event} (h : m.Next (e :: es)) : m.Next es :=
  ⟨(List.pairwise_cons.1 h.sorted).2, fun x hx => h.onStream x (List.mem_cons_of_mem _ hx),
    fun x hx y hy => h.past x hx y (List.mem_cons_of_mem _ hy)⟩

theorem Next.sublist {es fs : List Event} (h : m.Next es) (hs : fs.Sublist es) : m.Next fs :=
  ⟨h.sorted.sublist hs, fun x hx => h.onStream x (hs.subset hx),
    fun x hx y hy => h.past x hx y (hs.subset hy)⟩

/-- Nobody delivers. -/
theorem held_nil (h : ∀ u d, m.pc u ≠ .delivering d) : m.held = [] := by
  unfold held
  split
  · rename_i u _
    cases hu : m.pc u with
    | delivering d => exact absurd hu (h u d)
    | _ => rfl
  · rfl

theorem held_owner (h : m.lock.owner = some w.code) : m.held = (m.pc w).rest := by
  simp [held, h, w.ofCode_code]

/-- The live event of another worker than `w`. -/
def otherLive (m : Mail) (w : Worker) : List Event := if w = .read then [] else m.read.live

theorem setPc_otherLive (m : Mail) (w : Worker) (p : Pc) :
    (m.setPc w p).read.live = if w = .read then p.live else m.read.live := by
  cases w <;> rfl

theorem setPc_frame (m : Mail) (w : Worker) (p : Pc) :
    (m.setPc w p).stream = m.stream ∧ (m.setPc w p).delivered = m.delivered ∧
      (m.setPc w p).buffer = m.buffer ∧ (m.setPc w p).buffered = m.buffered ∧
      (m.setPc w p).dropped = m.dropped ∧ (m.setPc w p).handlers = m.handlers ∧
      (m.setPc w p).nextHandler = m.nextHandler ∧ (m.setPc w p).lock = m.lock := by
  cases w <;> exact ⟨rfl, rfl, rfl, rfl, rfl, rfl, rfl, rfl⟩

theorem Books.setPc (h : m.Books) (w : Worker) (p : Pc) : (m.setPc w p).Books := by
  cases w <;>
    exact ⟨h.stream, h.handlers, h.bound, h.valid, h.order, h.entered, h.sorted, h.suffix, h.dropped⟩

theorem Books.setLock (h : m.Books) (l : FifoLock) : ({ m with lock := l } : Mail).Books :=
  ⟨h.stream, h.handlers, h.bound, h.valid, h.order, h.entered, h.sorted, h.suffix, h.dropped⟩

/-- A handler is called with the next event. -/
theorem Books.invoke {h : Hid} {e : Event} (hb : m.Books) (he : m.stream[e.seq]? = some e)
    (hp : ∀ x ∈ m.delivered, x.1 = h → x.2.seq < e.seq) : (m.invoke h e).Books where
  stream := hb.stream
  handlers := hb.handlers
  bound := hb.bound
  valid x hx := by
    rcases List.mem_append.1 hx with hx | hx
    · exact hb.valid x hx
    · cases List.mem_singleton.1 hx
      exact he
  order := by
    refine List.pairwise_append.2 ⟨hb.order, List.pairwise_singleton _ _, ?_⟩
    intro x hx y hy hxy
    cases List.mem_singleton.1 hy
    exact hp x hx hxy
  entered := hb.entered
  sorted := hb.sorted
  suffix := hb.suffix
  dropped := hb.dropped

/-- Worker `w` owns the event lock, and no other worker delivers. -/
structure Section (m : Mail) (w : Worker) : Prop where
  books : m.Books
  owner : m.lock.owner = some w.code
  others : ∀ u d, u ≠ w → m.pc u ≠ .delivering d
  drains : ∀ k e, m.drains k ≠ .locking (some e)
  live : ∀ b ∈ m.buffered, ∀ e ∈ m.otherLive w, b.seq < e.seq

theorem drains_setPc {p : Pc} (hd : ∀ k e, m.drains k ≠ .locking (some e))
    (hp : ∀ e, p ≠ .locking (some e)) (k : Nat) (e : Event) :
    (m.setPc w p).drains k ≠ .locking (some e) := by
  cases w with
  | read => exact hd k e
  | drain j =>
    simp only [setPc, Function.update_apply]
    split
    · exact hp e
    · exact hd k e

theorem Section.leave_free {p : Pc} {l : FifoLock} (h : m.Section w) (hdel : ∀ d, p ≠ .delivering d)
    (u : Worker) (d : Delivery) : (({ m with lock := l } : Mail).setPc w p).pc u ≠ .delivering d := by
  by_cases hu : u = w
  · rw [hu, setPc_pc_self]
    exact hdel d
  · rw [setPc_pc_of_ne _ _ hu]
    exact h.others u d hu

theorem leave_live {p : Pc} {l : FifoLock} (hlive : ∀ e, p ≠ .locking e) :
    (({ m with lock := l } : Mail).setPc w p).read.live = m.otherLive w := by
  rw [setPc_otherLive]
  unfold otherLive
  split
  · cases p with
    | locking e => exact absurd rfl (hlive e)
    | _ => rfl
  · rfl

/-- What is left to dispatch when the owner leaves the lock. -/
theorem Section.leave_ahead {p : Pc} {l : FifoLock} (h : m.Section w)
    (hdel : ∀ d, p ≠ .delivering d) (hlive : ∀ e, p ≠ .locking e) :
    (({ m with lock := l } : Mail).setPc w p).ahead = m.buffer ++ m.otherLive w := by
  obtain ⟨-, -, h3, -⟩ := ({ m with lock := l } : Mail).setPc_frame w p
  rw [ahead, held_nil (h.leave_free hdel), leave_live hlive, h3, List.nil_append]

/-- The owner leaves the lock for a place where it neither delivers nor waits. -/
theorem Section.leave {p : Pc} (h : m.Section w) (hn : m.Next (m.buffer ++ m.otherLive w))
    (hdel : ∀ d, p ≠ .delivering d) (hlive : ∀ e, p ≠ .locking e) :
    (({ m with lock := m.lock.release } : Mail).setPc w p).InOrder := by
  obtain ⟨h1, h2, -, h4, -⟩ := ({ m with lock := m.lock.release } : Mail).setPc_frame w p
  have hnone := h.leave_free (l := m.lock.release) hdel
  have hahead := h.leave_ahead (l := m.lock.release) hdel hlive
  refine ⟨(h.books.setLock _).setPc w p, ⟨?_, ?_, ?_⟩, fun u d hd => absurd hd (hnone u d),
    fun u d hd => absurd hd (hnone u d), drains_setPc h.drains fun e => hlive _, ?_⟩
  · rw [hahead]
    exact hn.sorted
  · rw [hahead, h1]
    exact hn.onStream
  · rw [hahead, h2]
    exact hn.past
  · rw [h4, leave_live hlive]
    exact h.live

theorem Worker.after_ne (w : Worker) : (∀ d, w.after ≠ .delivering d) ∧ ∀ e, w.after ≠ .locking e := by
  cases w <;> simp [Worker.after]

theorem Section.release (h : m.Section w) (hn : m.Next (m.buffer ++ m.otherLive w)) :
    (m.release w).InOrder := by
  exact h.leave hn (Worker.after_ne w).1 (Worker.after_ne w).2

theorem deliver_live (m : Mail) (w : Worker) (h : Hid) (e : Event) (d : Delivery) :
    ((m.invoke h e).setPc w (.delivering d)).read.live = m.otherLive w := by
  rw [setPc_otherLive]
  rfl

/-- What is left to dispatch behind a delivery. -/
theorem deliver_ahead {h : Hid} {e : Event} {d : Delivery} (ho : m.lock.owner = some w.code) :
    ((m.invoke h e).setPc w (.delivering d)).ahead = d.rest ++ (m.buffer ++ m.otherLive w) := by
  obtain ⟨-, -, h3, -, -, -, -, h8⟩ := (m.invoke h e).setPc_frame w (.delivering d)
  have howner : ((m.invoke h e).setPc w (.delivering d)).lock.owner = some w.code := by
    rw [h8]
    exact ho
  rw [ahead, held_owner howner, setPc_pc_self, deliver_live, h3]
  rfl

/-- The only delivery is the one that begins. -/
theorem Section.deliver_pc {h : Hid} {e : Event} {d : Delivery} (hs : m.Section w) (u : Worker)
    (q : Delivery) (hu : ((m.invoke h e).setPc w (.delivering d)).pc u = .delivering q) :
    u = w ∧ q = d := by
  by_cases huw : u = w
  · subst huw
    rw [setPc_pc_self] at hu
    exact ⟨rfl, (Pc.delivering.inj hu).symm⟩
  · rw [setPc_pc_of_ne _ _ huw] at hu
    exact absurd hu (hs.others u q huw)

/-- Dispatching what comes next keeps the order. -/
theorem Section.dispatch (es : List Event) (h : m.Section w)
    (hn : m.Next (es ++ (m.buffer ++ m.otherLive w))) : (m.dispatch w es).InOrder := by
  induction es with
  | nil => exact h.release hn
  | cons e rest ih =>
    unfold Mail.dispatch
    split
    · exact ih hn.tail
    · rename_i hd hs hhs
      have he : m.stream[e.seq]? = some e := hn.onStream e List.mem_cons_self
      have hpast : ∀ x ∈ m.delivered, x.2.seq < e.seq := fun x hx => hn.past x hx e List.mem_cons_self
      have hnd : (hd :: hs).Nodup := hhs ▸ h.books.handlers
      obtain ⟨h1, h2, h3, h4, -, -, -, h8⟩ :=
        (m.invoke hd e).setPc_frame w (.delivering ⟨e, hd, hs, rest⟩)
      have hpc := h.deliver_pc (h := hd) (e := e) (d := ⟨e, hd, hs, rest⟩)
      have hother := m.deliver_live w hd e ⟨e, hd, hs, rest⟩
      have hahead := deliver_ahead (h := hd) (e := e) (d := ⟨e, hd, hs, rest⟩) h.owner
      have hafter : ∀ x ∈ rest ++ (m.buffer ++ m.otherLive w), e.seq < x.seq :=
        (List.pairwise_cons.1 hn.sorted).1
      have hdel : ∀ x ∈ (m.invoke hd e).delivered, x ∈ m.delivered ∨ x = (hd, e) := by
        intro x hx
        rcases List.mem_append.1 hx with hx | hx
        · exact .inl hx
        · exact .inr (List.mem_singleton.1 hx)
      refine ⟨(h.books.invoke he fun x hx _ => hpast x hx).setPc _ _, ⟨?_, ?_, ?_⟩, ?_, ?_,
        drains_setPc h.drains (by simp), ?_⟩
      · rw [hahead]
        exact hn.tail.sorted
      · rw [hahead, h1]
        exact hn.tail.onStream
      · rw [hahead, h2]
        intro x hx y hy
        rcases hdel x hx with hx | rfl
        · exact hn.tail.past x hx y hy
        · exact hafter y hy
      · intro u d hu
        rw [(hpc u d hu).1, h8]
        exact h.owner
      · intro u d hu
        rw [(hpc u d hu).2]
        refine ⟨h1 ▸ he, ?_, ?_, ?_, (List.nodup_cons.1 hnd).2⟩
        · rw [hahead]
          exact hafter
        · rw [h2]
          intro x hx
          rcases hdel x hx with hx | rfl
          · exact Nat.le_of_lt (hpast x hx)
          · exact Nat.le_refl _
        · rw [h2]
          intro x hx hmem
          rcases hdel x hx with hx | rfl
          · exact hpast x hx
          · exact absurd hmem (List.nodup_cons.1 hnd).1
      · rw [h4, hother]
        exact h.live

theorem Books.clear (h : m.Books) : ({ m with buffer := [] } : Mail).Books :=
  ⟨h.stream, h.handlers, h.bound, h.valid, h.order, h.entered, h.sorted, List.nil_suffix, h.dropped⟩

theorem Next.clear {es : List Event} (h : m.Next es) : ({ m with buffer := [] } : Mail).Next es :=
  ⟨h.sorted, h.onStream, h.past⟩

/-- The buffer takes in a younger event, and drops its oldest one when it is full. -/
theorem Books.push {e : Event} (h : m.Books) (he : m.stream[e.seq]? = some e)
    (hb : ∀ b ∈ m.buffered, b.seq < e.seq) : (m.push e).Books := by
  have hentered : ∀ b ∈ m.buffered ++ [e], m.stream[b.seq]? = some b := by
    intro b hm
    rcases List.mem_append.1 hm with hm | hm
    · exact h.entered b hm
    · cases List.mem_singleton.1 hm
      exact he
  have hsorted : (m.buffered ++ [e]).Pairwise fun a b => a.seq < b.seq := by
    refine List.pairwise_append.2 ⟨h.sorted, List.pairwise_singleton _ _, ?_⟩
    intro a ha b hb'
    cases List.mem_singleton.1 hb'
    exact hb a ha
  have hsuffix : ∀ l, l <:+ m.buffered → l ++ [e] <:+ m.buffered ++ [e] := by
    rintro l ⟨pre, hl⟩
    exact ⟨pre, by rw [← hl, List.append_assoc]⟩
  have hdropped : ∀ x ∈ m.dropped, ∃ pre post, m.buffered ++ [e] = pre ++ x :: post ∧
      MAX_PENDING_EVENTS ≤ post.length := by
    intro x hx
    obtain ⟨pre, post, hp, hlen⟩ := h.dropped x hx
    refine ⟨pre, post ++ [e], by simp [hp], ?_⟩
    rw [List.length_append]
    exact Nat.le_add_right_of_le hlen
  unfold Mail.push
  split
  · rename_i x l hbuf
    split
    · rename_i hfull
      rw [hbuf] at hfull
      have hx : x :: l <:+ m.buffered := hbuf ▸ h.suffix
      obtain ⟨pre, hpre⟩ := hx
      refine ⟨h.stream, h.handlers, h.bound, h.valid, h.order, hentered, hsorted,
        hsuffix l ⟨pre ++ [x], by rw [← hpre]; simp⟩, fun y hy => ?_⟩
      rcases List.mem_append.1 hy with hy | hy
      · exact hdropped y hy
      · cases List.mem_singleton.1 hy
        refine ⟨pre, l ++ [e], by simp [← hpre], ?_⟩
        rw [List.length_append]
        exact hfull
    · exact ⟨h.stream, h.handlers, h.bound, h.valid, h.order, hentered, hsorted,
        hsuffix _ h.suffix, hdropped⟩
  · exact ⟨h.stream, h.handlers, h.bound, h.valid, h.order, hentered, hsorted,
      hsuffix [] List.nil_suffix, hdropped⟩

theorem push_buffer (m : Mail) (e : Event) : (m.push e).buffer.Sublist (m.buffer ++ [e]) := by
  unfold Mail.push
  split
  · rename_i x l hbuf
    split
    · rw [hbuf]
      exact List.sublist_cons_self _ _
    · exact List.Sublist.refl _
  · rename_i hbuf
    rw [hbuf]
    exact List.Sublist.refl _

theorem push_stays (m : Mail) (e : Event) :
    (m.push e).delivered = m.delivered ∧ (m.push e).lock = m.lock := by
  unfold Mail.push
  split
  · split
    · exact ⟨rfl, rfl⟩
    · exact ⟨rfl, rfl⟩
  · exact ⟨rfl, rfl⟩

/-- A drain, or the read task without an event of its own, empties the buffer. -/
theorem Section.flush (h : m.Section w) (hn : m.Next (m.buffer ++ m.otherLive w)) :
    (m.underLock w none).InOrder :=
  Section.dispatch (m := { m with buffer := [] }) m.buffer
    ⟨h.books.clear, h.owner, h.others, h.drains, h.live⟩ hn.clear

/-- The read task delivers its event behind the buffer, or buffers it. -/
theorem Section.handle {e : Event} (h : m.Section .read) (hn : m.Next (m.buffer ++ [e]))
    (hb : ∀ b ∈ m.buffered, b.seq < e.seq) : (m.underLock .read (some e)).InOrder := by
  have he : m.stream[e.seq]? = some e := hn.onStream e (by simp)
  have hpc : ∀ u, (m.push e).pc u = m.pc u := congrFun (m.push_frame e).1
  unfold underLock
  dsimp only
  split
  · obtain ⟨-, hf⟩ := m.push_frame e
    simp only [Prod.mk.injEq] at hf
    obtain ⟨hdelivered, hlock⟩ := m.push_stays e
    refine Section.release ⟨h.books.push he hb, ?_, fun u d hu => ?_, fun k x => ?_, by
      simp [otherLive]⟩ ?_
    · rw [hlock]
      exact h.owner
    · rw [hpc u]
      exact h.others u d hu
    · rw [show (m.push e).drains k = m.drains k from hpc (.drain k)]
      exact h.drains k x
    · have hnext := hn.sublist (m.push_buffer e)
      have hbuf : (m.push e).buffer ++ (m.push e).otherLive .read = (m.push e).buffer := by
        simp [otherLive]
      rw [hbuf]
      refine ⟨hnext.sorted, ?_, ?_⟩
      · rw [hf.2.2.2.1]
        exact hnext.onStream
      · rw [hdelivered]
        exact hnext.past
  · refine Section.dispatch (m := { m with buffer := [] }) (m.buffer ++ [e])
      ⟨h.books.clear, h.owner, h.others, h.drains, h.live⟩ ?_
    simpa [otherLive] using hn.clear

/-- The owner of the lock in a client that keeps the order. -/
theorem InOrder.section (h : m.InOrder) (ho : m.lock.owner = some w.code) : m.Section w where
  books := h.books
  owner := ho
  others u d hu hd := by
    have := h.owner u d hd
    rw [ho] at this
    exact hu (Worker.code_injective (Option.some.inj this)).symm
  drains := h.drains
  live b hb e he := by
    unfold otherLive at he
    split at he
    · cases he
    · exact h.live b hb e he

theorem otherLive_eq (h : (m.pc w).live = []) : m.otherLive w = m.read.live := by
  unfold otherLive
  split
  · rename_i hw
    subst hw
    exact h.symm
  · rfl

theorem otherLive_sublist (m : Mail) (w : Worker) : (m.otherLive w).Sublist m.read.live := by
  unfold otherLive
  split
  · exact List.nil_sublist _
  · exact List.Sublist.refl _

/-- What comes after the events that the owner holds. -/
theorem InOrder.nextOther (h : m.InOrder) (w : Worker) : m.Next (m.buffer ++ m.otherLive w) :=
  h.next.sublist (((List.Sublist.refl _).append (m.otherLive_sublist w)).trans
    (List.sublist_append_right _ _))

/-- What is left to dispatch when a worker that does not deliver changes its place. -/
theorem move_ahead {p : Pc} {l : FifoLock} (hw : ∀ d, m.pc w ≠ .delivering d)
    (hp : ∀ d, p ≠ .delivering d) (hl : l.owner = m.lock.owner) :
    (({ m with lock := l } : Mail).setPc w p).ahead =
      m.held ++ (m.buffer ++ (m.setPc w p).read.live) := by
  have hrest : ∀ {q : Pc}, (∀ d, q ≠ .delivering d) → q.rest = [] := by
    intro q hq
    cases q with
    | delivering d => exact absurd rfl (hq d)
    | _ => rfl
  have hheld : (({ m with lock := l } : Mail).setPc w p).held = m.held := by
    unfold held
    rw [(({ m with lock := l } : Mail).setPc_frame w p).2.2.2.2.2.2.2,
      show ({ m with lock := l } : Mail).lock.owner = m.lock.owner from hl]
    split
    · rename_i u _
      by_cases huw : u = w
      · rw [huw, setPc_pc_self, hrest hp, hrest hw]
      · rw [setPc_pc_of_ne _ _ huw]
        rfl
    · rfl
  have hlive : (({ m with lock := l } : Mail).setPc w p).read.live = (m.setPc w p).read.live := by
    cases w <;> rfl
  unfold ahead
  rw [hheld, hlive, (({ m with lock := l } : Mail).setPc_frame w p).2.2.1]

theorem move_pc {p : Pc} {l : FifoLock} (hp : ∀ d, p ≠ .delivering d) (u : Worker) (d : Delivery)
    (hu : (({ m with lock := l } : Mail).setPc w p).pc u = .delivering d) :
    m.pc u = .delivering d := by
  by_cases huw : u = w
  · rw [huw, setPc_pc_self] at hu
    exact absurd hu (hp d)
  · rwa [setPc_pc_of_ne _ _ huw] at hu

/-- A worker that does not deliver changes its place, with a live event that comes last. -/
theorem InOrder.move (h : m.InOrder) {p : Pc} {l : FifoLock} (hw : ∀ d, m.pc w ≠ .delivering d)
    (hp : ∀ d, p ≠ .delivering d) (hl : l.owner = m.lock.owner)
    (hn : m.Next (m.held ++ (m.buffer ++ (m.setPc w p).read.live)))
    (hc : ∀ u d, m.pc u = .delivering d → ∀ e ∈ (m.setPc w p).read.live, d.event.seq < e.seq)
    (hb : ∀ b ∈ m.buffered, ∀ e ∈ (m.setPc w p).read.live, b.seq < e.seq)
    (hd : ∀ k e, (m.setPc w p).drains k ≠ .locking (some e)) :
    (({ m with lock := l } : Mail).setPc w p).InOrder := by
  obtain ⟨h1, h2, -, h4, -, -, -, h8⟩ := ({ m with lock := l } : Mail).setPc_frame w p
  have hpc := move_pc (m := m) (w := w) (l := l) hp
  have hahead := move_ahead hw hp hl
  have hlive : (({ m with lock := l } : Mail).setPc w p).read.live = (m.setPc w p).read.live := by
    cases w <;> rfl
  refine ⟨(h.books.setLock l).setPc w p, ⟨?_, ?_, ?_⟩, fun u d hu => ?_, fun u d hu => ?_, ?_, ?_⟩
  · rw [hahead]
    exact hn.sorted
  · rw [hahead, h1]
    exact hn.onStream
  · rw [hahead, h2]
    exact hn.past
  · rw [h8]
    exact hl.trans (h.owner u d (hpc u d hu))
  · have hcur := h.current u d (hpc u d hu)
    refine ⟨?_, fun e he => ?_, ?_, ?_, hcur.handlers⟩
    · rw [h1]
      exact hcur.event
    · rw [hahead] at he
      rcases List.mem_append.1 he with he | he
      · exact hcur.next e (List.mem_append_left _ he)
      · rcases List.mem_append.1 he with he | he
        · exact hcur.next e (List.mem_append_right _ (List.mem_append_left _ he))
        · exact hc u d (hpc u d hu) e he
    · rw [h2]
      exact hcur.past
    · rw [h2]
      exact hcur.later
  · intro k e
    have := hd k e
    cases w <;> exact this
  · rw [h4, hlive]
    exact hb

/-- A worker that does not deliver changes its place, and no event waits for it anew. -/
theorem InOrder.setPc (h : m.InOrder) {p : Pc} {l : FifoLock}
    (hw : ∀ d, m.pc w ≠ .delivering d) (hp : ∀ d, p ≠ .delivering d)
    (hl : l.owner = m.lock.owner) (hlive : (m.setPc w p).read.live.Sublist m.read.live)
    (hd : ∀ e, p ≠ .locking (some e)) : (({ m with lock := l } : Mail).setPc w p).InOrder := by
  refine h.move hw hp hl (h.next.sublist ?_) (fun u d hu e he => ?_)
    (fun b hb e he => h.live b hb e (hlive.subset he)) (drains_setPc h.drains hd)
  · exact (List.Sublist.refl _).append ((List.Sublist.refl _).append hlive)
  · refine (h.current u d hu).next e ?_
    exact List.mem_append_right _ (List.mem_append_right _ (hlive.subset he))

/-- A worker stops. -/
theorem InOrder.stop (h : m.InOrder) (w : Worker) : (m.stop w).InOrder := by
  unfold Mail.stop
  dsimp only
  split
  · rename_i ho
    exact (h.section ho).leave (h.nextOther w) (by simp) (by simp)
  · rename_i ho
    refine h.setPc (fun d hd => ho (h.owner w d hd)) (by simp) rfl ?_ (by simp)
    rw [setPc_otherLive]
    split
    · exact List.nil_sublist _
    · exact List.Sublist.refl _

/-- A worker that has waited for the lock runs its section. -/
theorem InOrder.locked {m' : Mail} (h : m.InOrder) (hm : m.locked w = some m') : m'.InOrder := by
  unfold Mail.locked at hm
  split at hm
  · rename_i live hpc
    split at hm
    · rename_i ho
      cases hm
      have hs := h.section ho
      cases live with
      | none => exact hs.flush (h.nextOther w)
      | some e =>
        cases w with
        | drain k => exact absurd hpc (h.drains k e)
        | read =>
          have hread : m.read = .locking (some e) := hpc
          have hnext : m.Next (m.buffer ++ [e]) := by
            refine h.next.sublist ?_
            unfold ahead
            rw [hread]
            exact List.sublist_append_right _ _
          refine hs.handle hnext fun b hb => h.live b hb e ?_
          rw [hread]
          exact List.mem_singleton.2 rfl
    · cases hm
  · cases hm

/-- The running handler has returned: the next one is called. -/
theorem InOrder.handled {m' : Mail} (h : m.InOrder) (hm : m.handled w = some m') : m'.InOrder := by
  unfold Mail.handled at hm
  split at hm
  · rename_i d hpc
    have ho := h.owner w d hpc
    have hc := h.current w d hpc
    have hheld : m.held = d.rest := by
      rw [held_owner ho, hpc]
      rfl
    split at hm
    · rename_i hd hs hhs
      cases hm
      have hnd : (hd :: hs).Nodup := hhs ▸ hc.handlers
      obtain ⟨h1, h2, h3, h4, -, -, -, h8⟩ :=
        (m.invoke hd d.event).setPc_frame w (.delivering { d with current := hd, handlers := hs })
      have hpcs := (h.section ho).deliver_pc (h := hd) (e := d.event)
        (d := { d with current := hd, handlers := hs })
      have hother : m.otherLive w = m.read.live := otherLive_eq (by rw [hpc]; rfl)
      have hlive := m.deliver_live w hd d.event { d with current := hd, handlers := hs }
      have hahead : ((m.invoke hd d.event).setPc w
          (.delivering { d with current := hd, handlers := hs })).ahead = m.ahead := by
        rw [deliver_ahead ho, hother]
        unfold ahead
        rw [hheld]
      have hdel : ∀ x ∈ (m.invoke hd d.event).delivered, x ∈ m.delivered ∨ x = (hd, d.event) := by
        intro x hx
        rcases List.mem_append.1 hx with hx | hx
        · exact .inl hx
        · exact .inr (List.mem_singleton.1 hx)
      have hbooks : (m.invoke hd d.event).Books := by
        refine h.books.invoke hc.event fun x hx hxh => hc.later x hx ?_
        rw [hhs, hxh]
        exact List.mem_cons_self
      refine ⟨hbooks.setPc _ _, ⟨?_, ?_, ?_⟩, ?_, ?_, drains_setPc h.drains (by simp), ?_⟩
      · rw [hahead]
        exact h.next.sorted
      · rw [hahead, h1]
        exact h.next.onStream
      · rw [hahead, h2]
        intro x hx y hy
        rcases hdel x hx with hx | rfl
        · exact h.next.past x hx y hy
        · exact hc.next y hy
      · intro u q hu
        rw [(hpcs u q hu).1, h8]
        exact ho
      · intro u q hu
        rw [(hpcs u q hu).2]
        refine ⟨h1 ▸ hc.event, ?_, ?_, ?_, (List.nodup_cons.1 hnd).2⟩
        · rw [hahead]
          exact hc.next
        · rw [h2]
          intro x hx
          rcases hdel x hx with hx | rfl
          · exact hc.past x hx
          · exact Nat.le_refl _
        · rw [h2]
          intro x hx hmem
          rcases hdel x hx with hx | rfl
          · exact hc.later x hx (hhs ▸ List.mem_cons_of_mem _ hmem)
          · exact absurd hmem (List.nodup_cons.1 hnd).1
      · rw [h4, hlive, hother]
        exact h.live
    · cases hm
      refine (h.section ho).dispatch d.rest ?_
      have hnext := h.next
      unfold ahead at hnext
      rw [hheld] at hnext
      exact hnext.sublist ((List.Sublist.refl _).append
        ((List.Sublist.refl _).append (m.otherLive_sublist w)))
  · cases hm

/-- The stream grows by an event younger than all others. -/
theorem InOrder.grow (h : m.InOrder) (params : Dict) :
    let e : Event := ⟨m.stream.length, params⟩
    ({ m with stream := m.stream ++ [e] } : Mail).InOrder ∧
      ({ m with stream := m.stream ++ [e] } : Mail).Next (m.ahead ++ [e]) ∧
      ∀ b ∈ m.buffered, b.seq < e.seq := by
  intro e
  have hlt : ∀ x : Event, m.stream[x.seq]? = some x → x.seq < m.stream.length := by
    intro x hx
    exact (List.getElem?_eq_some_iff.1 hx).1
  have hkeep : ∀ x : Event, m.stream[x.seq]? = some x → (m.stream ++ [e])[x.seq]? = some x := by
    intro x hx
    rw [List.getElem?_append_left (hlt x hx)]
    exact hx
  have hnew : (m.stream ++ [e])[e.seq]? = some e := by
    rw [List.getElem?_append_right (Nat.le_refl _)]
    simp [e]
  refine ⟨⟨⟨fun i x hx => ?_, h.books.handlers, h.books.bound, fun x hx => hkeep _ (h.books.valid x hx),
    h.books.order, fun b hb => hkeep b (h.books.entered b hb), h.books.sorted, h.books.suffix,
    h.books.dropped⟩, ⟨h.next.sorted, fun x hx => hkeep x (h.next.onStream x hx), h.next.past⟩,
    h.owner, fun u d hd => ?_, h.drains, h.live⟩, ⟨?_, fun x hx => ?_, fun x hx y hy => ?_⟩,
    fun b hb => hlt b (h.books.entered b hb)⟩
  · by_cases hi : i < m.stream.length
    · rw [List.getElem?_append_left hi] at hx
      exact h.books.stream i x hx
    · rw [List.getElem?_append_right (Nat.le_of_not_lt hi)] at hx
      have hi' : i - m.stream.length = 0 := by
        by_contra hne
        rw [List.getElem?_eq_none (by simp; omega)] at hx
        cases hx
      rw [hi'] at hx
      cases hx
      simp only [e]
      omega
  · have hc := h.current u d hd
    exact ⟨hkeep _ hc.event, hc.next, hc.past, hc.later, hc.handlers⟩
  · refine List.pairwise_append.2 ⟨h.next.sorted, List.pairwise_singleton _ _, ?_⟩
    intro x hx y hy
    cases List.mem_singleton.1 hy
    exact hlt x (h.next.onStream x hx)
  · rcases List.mem_append.1 hx with hx | hx
    · exact hkeep x (h.next.onStream x hx)
    · cases List.mem_singleton.1 hx
      exact hnew
  · rcases List.mem_append.1 hy with hy | hy
    · exact h.next.past x hx y hy
    · cases List.mem_singleton.1 hy
      exact hlt x.2 (h.books.valid x hx)

/-- A feature event reaches the read loop. -/
theorem InOrder.receive (h : m.InOrder) (hr : m.read = .reading) (params : Dict) :
    (m.receive params).InOrder := by
  obtain ⟨h₁, hn, hb⟩ := h.grow params
  have hlive : m.read.live = [] := by
    rw [hr]
    rfl
  have hnext : ({ m with stream := m.stream ++ [⟨m.stream.length, params⟩] } : Mail).Next
      (m.buffer ++ [⟨m.stream.length, params⟩]) := by
    refine hn.sublist ?_
    unfold ahead
    rw [hlive, List.append_nil]
    exact (List.sublist_append_right _ _).append (List.Sublist.refl _)
  unfold Mail.receive Mail.enter
  dsimp only
  split
  · rename_i l hl
    obtain ⟨ho, hfree⟩ := FifoLock.acquire_owner hl
    refine Section.handle ⟨h₁.books.setLock l, ho, fun u d _ hd => ?_, h₁.drains, by
      simp [otherLive]⟩ ⟨hnext.sorted, hnext.onStream, hnext.past⟩ hb
    have := h₁.owner u d hd
    rw [show m.lock.owner = none from hfree] at this
    cases this
  · rename_i l hl
    obtain ⟨ho, -⟩ := FifoLock.acquire_queued hl
    -- the event waits behind everything else
    refine h₁.move (w := .read) (fun d hd => ?_) (by simp) ho ?_ (fun u d hd e he => ?_)
      (fun b hb' e he => ?_) h.drains
    · rw [show m.read = .delivering d from hd] at hr
      cases hr
    · refine hn.sublist ?_
      unfold ahead
      rw [hlive, List.append_nil, ← List.append_assoc]
      exact List.Sublist.refl _
    · cases List.mem_singleton.1 he
      exact (List.getElem?_eq_some_iff.1 (h.current u d hd).event).1
    · cases List.mem_singleton.1 he
      exact hb b hb'

end Mail

end KestrelSdk.Client
