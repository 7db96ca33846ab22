import KestrelSdk.Client.Engine

namespace KestrelSdk.Client

open Json Protocol Asyncio

/-- A task that stands at an await. -/
def Pc.Suspended : Pc → Prop
  | .reading => True
  | .locking _ => True
  | .delivering _ => True
  | _ => False

theorem Pc.Suspended.locking (live : Option Event) : (Pc.locking live).Suspended := trivial

theorem Pc.Suspended.delivering (d : Delivery) : (Pc.delivering d).Suspended := trivial

theorem Pc.Suspended.ne_created {p : Pc} (h : p.Suspended) : p ≠ .created := by
  rintro rfl
  exact h

theorem Pc.Suspended.ne_absent {p : Pc} (h : p.Suspended) : p ≠ .absent := by
  rintro rfl
  exact h

theorem Pc.Suspended.not_done {p : Pc} (h : p.Suspended) : isDone p = false := by
  cases p with
  | ended => exact absurd h id
  | dropped => exact absurd h id
  | _ => rfl

namespace Engine

/-- What a signal does to the engine. -/
inductive Move (py : Interpreter) (shut : Bool) (e e' : Engine) (g : Signal) : Prop where
  | idle (he : e' = e)
  | registers (hs : shut = false) (he : e' = e.onEvent)
  | beginsRead (l : List Task) (hf : e.fresh = .worker .read :: l)
      (he : e' = { e with
        fresh := l
        mail := { e.mail with read := if e.readCancel then .dropped else .reading } })
  | beginsDrain (k : Nat) (l : List Task) (hf : e.fresh = .worker (.drain k) :: l)
      (he : e' = { e with
        fresh := l
        mail := if k ∈ e.drainCancel then e.mail.setPc (.drain k) .dropped
                else e.mail.enter (.drain k) none })
  | beginsClose (l : List Task) (hf : e.fresh = .close :: l)
      (he : e' = ({ e with fresh := l } : Engine).closeBegin)
  | answers (b : Bytes) (r : JsonRpcResponse) (hg : g = .line b) (hr : e.mail.read = .reading)
      (hb : decodeMessage py b = .ok (.response r)) (he : e' = { e with desk := e.desk.answer r })
  | receives (b : Bytes) (params : Dict) (hg : g = .line b) (hr : e.mail.read = .reading)
      (he : e' = { e with mail := e.mail.receive params })
  | readEnds (x : Terminal) (hr : e.mail.read.Suspended) (he : e' = e.endRead x)
  | drainEnds (k : Nat) (hk : (e.mail.drains k).Suspended)
      (hg : k ∈ e.drainCancel ∨ g = .handlerFails (.drain k) ∧ ∃ d, e.mail.drains k = .delivering d)
      (he : e' = { e with mail := e.mail.stop (.drain k) })
  | works (w : Worker) (m : Mail) (hm : e.mail.locked w = some m ∨ e.mail.handled w = some m)
      (he : e' = { e with mail := m })
  | gathers (read : Bool) (ds : List Nat) (hc : e.closeTask = .gathering read ds)
      (hr : read = true → isDone e.mail.read = true)
      (hd : ∀ k ∈ ds, isDone (e.mail.drains k) = true) (he : e' = e.closeEnter read)
  | clears (read : Bool) (hc : e.closeTask = .locking read)
      (ho : e.mail.lock.owner = some closeCode) (he : e' = e.closeClear read)
  | closes (read : Bool) (hc : e.closeTask = .closing read)
      (he : e' = { e with
        closeTask := .done
        closedExc := some .connection
        hasReadTask := if read = e.hasReadTask then false else e.hasReadTask })

variable {py : Interpreter} {shut : Bool} {e e' : Engine} {g : Signal}

theorem readLine_move (b : Bytes) (hr : e.mail.read = .reading) :
    Move py shut e (e.readLine py b) (.line b) := by
  have hs : e.mail.read.Suspended := by
    rw [hr]
    exact trivial
  unfold readLine
  split
  · rename_i m hm
    cases m with
    | response r => exact .answers b r rfl hr hm rfl
    | notification n =>
      unfold readMessage
      dsimp only
      split
      · exact .receives b n.params rfl hr rfl
      · exact .idle rfl
    | request r => exact .idle rfl
  · exact .readEnds _ hs rfl
  · exact .readEnds _ hs rfl

theorem readCancelled_move (h : e.readCancelled = some e') :
    ∃ x, e.mail.read.Suspended ∧ e' = e.endRead x := by
  unfold readCancelled at h
  split at h
  · split at h
    · rename_i hr
      cases h
      exact ⟨_, hr ▸ trivial, rfl⟩
    · rename_i hr
      cases h
      exact ⟨_, hr ▸ trivial, rfl⟩
    · rename_i hr
      cases h
      exact ⟨_, hr ▸ trivial, rfl⟩
    · cases h
  · cases h

theorem drainCancelled_move {k : Nat} (h : e.drainCancelled k = some e') :
    k ∈ e.drainCancel ∧ (e.mail.drains k).Suspended ∧
      e' = { e with mail := e.mail.stop (.drain k) } := by
  unfold drainCancelled at h
  split at h
  · rename_i hk
    split at h
    · rename_i hd
      cases h
      exact ⟨hk, hd ▸ trivial, rfl⟩
    · rename_i hd
      cases h
      exact ⟨hk, hd ▸ trivial, rfl⟩
    · cases h
  · cases h

theorem handlerFails_move {w : Worker} (h : e.handlerFails w = some e') :
    Move py shut e e' (.handlerFails w) := by
  unfold handlerFails at h
  split at h
  · rename_i d hd
    cases w with
    | read =>
      cases h
      have hr : e.mail.read = .delivering d := hd
      exact .readEnds _ (hr ▸ trivial) rfl
    | drain k =>
      cases h
      have hk : e.mail.drains k = .delivering d := hd
      exact .drainEnds k (hk ▸ trivial) (.inr ⟨rfl, d, hk⟩) rfl
  · cases h

theorem beginTask_move (h : e.beginTask = some e') : Move py shut e e' g := by
  unfold beginTask at h
  split at h
  · cases h
  · rename_i l hf
    cases h
    exact .beginsRead l hf rfl
  · rename_i k l hf
    cases h
    exact .beginsDrain k l hf rfl
  · rename_i l hf
    cases h
    exact .beginsClose l hf rfl

theorem closeGathered_move (h : e.closeGathered = some e') : Move py shut e e' g := by
  unfold closeGathered at h
  split at h
  · rename_i read ds hc
    split at h
    · rename_i hd
      cases h
      simp only [Bool.and_eq_true, Bool.or_eq_true, Bool.not_eq_true', List.all_eq_true] at hd
      refine .gathers read ds hc (fun hr => ?_) hd.2 rfl
      rcases hd.1 with h₁ | h₁
      · rw [hr] at h₁
        cases h₁
      · exact h₁
    · cases h
  · cases h

/-- Every signal is one of the moves. -/
theorem step_move (h : e.step py shut g = some e') : Move py shut e e' g := by
  cases g with
  | onEvent =>
    cases h
    split
    · exact .idle rfl
    · rename_i hs
      exact .registers (Bool.eq_false_iff.2 hs) rfl
  | begin => exact beginTask_move h
  | line b =>
    simp only [step] at h
    split at h
    · rename_i hr
      cases h
      exact readLine_move b hr
    · cases h
  | readEof =>
    simp only [step] at h
    split at h
    · rename_i hr
      cases h
      exact .readEnds _ (hr ▸ trivial) rfl
    · cases h
  | readFails x =>
    simp only [step] at h
    split at h
    · rename_i hr
      cases h
      exact .readEnds _ (hr ▸ trivial) rfl
    · cases h
  | readCancelled =>
    obtain ⟨x, hr, he⟩ := readCancelled_move h
    exact .readEnds x hr he
  | drainCancelled k =>
    obtain ⟨hk, hd, he⟩ := drainCancelled_move h
    exact .drainEnds k hd (.inl hk) he
  | locked w =>
    obtain ⟨m, hm, rfl⟩ := Option.map_eq_some_iff.1 h
    exact .works w m (.inl hm) rfl
  | handled w =>
    obtain ⟨m, hm, rfl⟩ := Option.map_eq_some_iff.1 h
    exact .works w m (.inr hm) rfl
  | handlerFails w => exact handlerFails_move h
  | closeGathered => exact closeGathered_move h
  | closeLocked =>
    simp only [step, closeLocked] at h
    split at h
    · rename_i read hc
      split at h
      · rename_i ho
        cases h
        exact .clears read hc ho rfl
      · cases h
    · cases h
  | closeWaited =>
    simp only [step, closeWaited] at h
    split at h
    · rename_i read hc
      cases h
      exact .closes read hc rfl
    · cases h

theorem closeBegin_desk (e : Engine) : e.closeBegin.desk = e.desk := by
  unfold closeBegin
  dsimp only
  split
  · exact closeEnter_desk _ _
  · rfl

/-- What a signal does to the request table: nothing, the answer of a response that the line
holds, or the failure of every pending request with the end of the read loop. -/
theorem step_desk (h : e.step py shut g = some e') :
    e'.desk = e.desk ∨
      (∃ b r, g = .line b ∧ decodeMessage py b = .ok (.response r) ∧
        e' = { e with desk := e.desk.answer r }) ∨
      ∃ x, e' = e.endRead x := by
  cases step_move h with
  | idle he =>
    subst he
    exact .inl rfl
  | registers _ he =>
    subst he
    exact .inl rfl
  | beginsRead _ _ he =>
    subst he
    exact .inl rfl
  | beginsDrain _ _ _ he =>
    subst he
    exact .inl rfl
  | beginsClose _ _ he =>
    subst he
    exact .inl (closeBegin_desk _)
  | answers b r hg _ hb he => exact .inr (.inl ⟨b, r, hg, hb, he⟩)
  | receives _ _ _ _ he =>
    subst he
    exact .inl rfl
  | readEnds x _ he => exact .inr (.inr ⟨x, he⟩)
  | drainEnds _ _ _ he =>
    subst he
    exact .inl rfl
  | works _ _ _ he =>
    subst he
    exact .inl rfl
  | gathers _ _ _ _ _ he =>
    subst he
    exact .inl (closeEnter_desk _ _)
  | clears _ _ _ he =>
    subst he
    exact .inl rfl
  | closes _ _ he =>
    subst he
    exact .inl rfl

end Engine

end KestrelSdk.Client
