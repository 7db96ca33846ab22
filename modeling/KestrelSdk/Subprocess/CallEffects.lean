import KestrelSdk.Subprocess.RetireEffects

namespace KestrelSdk.Subprocess

open Asyncio

namespace State

open Children

variable {s s' : State} {o : Custody} {t : Tid} {r : Rid}

theorem gear_setOp {x : Op} (hnf : (s.ops t).pc ≠ .finished) (hx : x.pc ≠ .finished) :
    (s.setOp t x).gear = s.gear := by
  have : (s.setOp t x).opDone = s.opDone := by
    funext u
    by_cases hu : u = t
    · subst hu
      simp [opDone, setOp, hnf, hx]
    · simp [opDone, setOp, hu]
  simp only [gear, this]
  rfl

theorem suspend_ledger (h : s.gear.Ledger) {pc : OpPc} (hnf : (s.ops t).pc ≠ .finished)
    (hpc : pc ≠ .finished) : (s.suspend t pc).gear.Ledger := by
  rw [suspend, gear_setOp hnf hpc]
  exact h

theorem leave_ledger (h : s.gear.Ledger) (hnf : (s.ops t).pc ≠ .finished) (e : Exit) :
    (s.leave t e).gear.Ledger :=
  suspend_ledger (s := s.releaseLock) h hnf (by simp)

theorem endCall_ledger (h : s.gear.Ledger) (hnf : (s.ops t).pc ≠ .finished) (e : Ended) :
    (s.endCall t e).gear.Ledger := by
  have hg : (s.setOp t {}).gear = s.gear := gear_setOp hnf (by simp)
  have : (s.endCall t e).gear = (s.setOp t {}).gear := rfl
  rw [this, hg]
  exact h

theorem startReturn_ledger (h : s.gear.Ledger) (hnf : (s.ops t).pc ≠ .finished) :
    (s.startReturn t).gear.Ledger := by
  refine endCall_ledger (s := s.releaseLock.unregisterSuccessfulStartAtReturn t) ?_ hnf _
  exact h.grow { Gear.Grows.refl s.gear with active := List.filter_sublist }

/-- A new start takes the slot: nobody has cancelled its spawn. -/
theorem startIssue_ledger (h : s.gear.Ledger) (hnf : (s.ops t).pc ≠ .finished) :
    (s.startIssue t).gear.Ledger := by
  have hg : (s.startIssue t).gear = { s.gear with
      spawnTask := some s.nextSpawn, spawnCancelRequested := false
      nextSpawn := s.nextSpawn + 1 } := by
    have := gear_setOp (s := { s with
      stopTask := none, starting := true, startingGeneration := some s.generation
      startSettled := false, spawnTask := some s.nextSpawn, spawnCancelRequested := false
      spawns := Function.update s.spawns s.nextSpawn .running, nextSpawn := s.nextSpawn + 1
      issued := some s.nextSpawn }) (t := t) (x :=
        { pc := .start (.spawning { generation := s.generation, spawnTask := some s.nextSpawn })
          since := s.now, spawned := some s.nextSpawn }) hnf (by simp)
    exact this
  rw [hg]
  refine ⟨h.once.mono fun e he => ?_, h.fresh, h.terminated, h.waiting, h.kills, h.live, h.held,
    h.nodup, h.roster, h.apart⟩
  cases e with
  | spawnCancelled sp =>
    obtain ⟨h1, h2, h3⟩ := he
    refine ⟨Nat.lt_succ_of_lt h1, fun e => ?_, h3⟩
    obtain rfl : s.nextSpawn = sp := Option.some.inj e
    exact absurd h1 (Nat.lt_irrefl _)
  | _ => exact he

/-- A child moves into a new record together with what is known about it. -/
theorem newRetirement_ledger (h : s.gear.Ledger) {client : Option Cid} {process : Option Sid}
    {b : Bool} {spawn : Option Sid} {cancel : Bool} (g : Nat) (q : Bool)
    (hspawn : ∀ sp, spawn = some sp → s.spawnTask = some sp ∧ cancel = s.spawnCancelRequested) :
    ((s.cleared g q).newRetirement client process b spawn cancel).gear.Ledger := by
  rw [newRetirement_eq]
  simp only [cleared]
  have hold : ∀ {x : Retirement} {i : Rid}, i < s.nextRecord →
      Function.update s.records s.nextRecord x i = s.records i := fun hi => by
    simp [Nat.ne_of_lt hi]
  have hcase : ∀ {i : Nat}, i < s.nextRecord + 1 → i < s.nextRecord ∨ i = s.nextRecord :=
    fun hi => Nat.lt_succ_iff_lt_or_eq.1 hi
  refine ⟨h.once.mono fun e he => ?_, h.fresh, fun i hi ht => ?_, fun j hj p f hpc => ?_, h.kills,
    fun k hk => ?_, fun i hi k hk => ?_, h.nodup, h.roster, h.apart⟩
  · cases e with
    | terminate p =>
      obtain ⟨i, hi, h1, h2⟩ := he
      exact ⟨i, Nat.lt_succ_of_lt hi, by simpa [gear, hold hi] using h1,
        by simpa [gear, hold hi] using h2⟩
    | kill p =>
      obtain ⟨i, hi, h1, h2⟩ := he
      exact ⟨i, Nat.lt_succ_of_lt hi, by simpa [gear, hold hi] using h1,
        by simpa [gear, hold hi] using h2⟩
    | spawnCancelled sp =>
      obtain ⟨h1, h2, h3⟩ := he
      refine ⟨h1, fun e => (by cases e), fun i hi hs => ?_⟩
      obtain hi | rfl := hcase hi
      · simp only [gear, hold hi] at hs ⊢
        exact h3 i hi hs
      · simp only [gear, Function.update_self] at hs ⊢
        obtain ⟨h4, h5⟩ := hspawn sp hs
        exact h5.trans (h2 h4)
    | startupCancelled k =>
      obtain ⟨h1, h2, h3⟩ := he
      refine ⟨h1, fun hk => ?_, fun i hi hk => ?_⟩
      · cases b with
        | true => simp [gear] at hk
        | false => simpa [gear] using h2 (by simpa [gear] using hk)
      · obtain hi | rfl := hcase hi
        · simp only [gear, hold hi] at hk ⊢
          exact h3 i hi hk
        · cases b with
          | false => simp [gear] at hk
          | true =>
            have hk' : k ∈ s.startupTasks := by simpa [gear] using hk
            have hne : s.startupTasks ≠ [] := List.ne_nil_of_mem hk'
            simpa [gear, hne] using h2 hk'
    | _ => exact he
  · obtain hi | rfl := hcase hi
    · simp only [gear, hold hi] at ht ⊢
      exact h.terminated i hi ht
    · simp [gear] at ht
  · obtain hj | rfl := Nat.lt_succ_iff_lt_or_eq.1 hj
    · simp only [gear, Function.update_of_ne (Nat.ne_of_lt hj)] at hpc ⊢
      obtain ⟨h1, h2⟩ := h.waiting j hj p f hpc
      have h1' : (s.retireTasks j).record < s.nextRecord := h1
      refine ⟨Nat.lt_succ_of_lt h1', ?_⟩
      rw [hold h1']
      exact h2
    · simp [gear] at hpc
  · cases b with
    | true => simp [gear] at hk
    | false =>
      obtain ⟨h1, h2⟩ := h.live k (by simpa [gear] using hk)
      refine ⟨h1, fun i hi => ?_⟩
      obtain hi | rfl := hcase hi
      · simpa [gear, hold hi] using h2 i hi
      · simp [gear]
  · obtain hlt | rfl := hcase hi
    · simp only [gear, hold hlt] at hk
      obtain ⟨h1, h2⟩ := h.held i hlt k hk
      refine ⟨h1, fun i' hi' hk' => ?_⟩
      obtain hlt' | rfl := hcase hi'
      · simp only [gear, hold hlt'] at hk'
        exact h2 i' hlt' hk'
      · cases b with
        | false => simp [gear] at hk'
        | true => exact absurd hk ((h.live k (by simpa [gear] using hk')).2 i hlt)
    · cases b with
      | false => simp [gear] at hk
      | true =>
        obtain ⟨h1, h2⟩ := h.live k (by simpa [gear] using hk)
        refine ⟨h1, fun i' hi' hk' => ?_⟩
        obtain hlt' | rfl := hcase hi'
        · simp only [gear, hold hlt'] at hk'
          exact absurd hk' (h2 i' hlt')
        · rfl

/-- The live startup tasks move into an existing record. -/
theorem adoptStartup_ledger (h : s.gear.Ledger) (hr : r < s.nextRecord) (b : Bool) :
    (s.adoptStartup r b).gear.Ledger := by
  dsimp only [State.adoptStartup]
  split
  · refine h.adopt hr rfl rfl rfl rfl rfl fun k hk => ?_
    simp only [List.mem_append, List.mem_filter] at hk
    obtain hk | ⟨hk, -⟩ := hk
    · exact .inl ⟨hk, fun hm => List.mem_append_left _ hm⟩
    · exact .inr ⟨hk, fun hm => List.mem_append_right _ hm⟩
  · exact h

/-- The next startup phase: its task is new. -/
theorem startPhase_ledger (h : s.gear.Ledger) (hnf : (s.ops t).pc ≠ .finished) (f : StartFrame)
    (kind : Phase) : (s.startPhase t f kind).gear.Ledger := by
  refine suspend_ledger ?_ hnf (by simp)
  refine ⟨h.once.mono fun e he => ?_, h.fresh, h.terminated, h.waiting, h.kills, fun k hk => ?_,
    fun i hi k hk => ?_, h.nodup, h.roster, h.apart⟩
  · cases e with
    | startupCancelled k =>
      obtain ⟨h1, h2, h3⟩ := he
      refine ⟨Nat.lt_succ_of_lt h1, fun hk => h2 ?_, h3⟩
      obtain hk | hk := List.mem_append.1 hk
      · exact hk
      · rw [List.mem_singleton.1 hk] at h1
        exact absurd h1 (Nat.lt_irrefl _)
    | _ => exact he
  · obtain hk | hk := List.mem_append.1 hk
    · exact ⟨Nat.lt_succ_of_lt (h.live k hk).1, (h.live k hk).2⟩
    · rw [List.mem_singleton.1 hk]
      exact ⟨Nat.lt_succ_self _, fun i hi hm => Nat.lt_irrefl _ (h.held i hi _ hm).1⟩
  · exact ⟨Nat.lt_succ_of_lt (h.held i hi k hk).1, (h.held i hi k hk).2⟩

theorem startFinalize_ledger (h : s.gear.Ledger) (hnf : (s.ops t).pc ≠ .finished)
    (f : StartFrame) : (s.startFinalize t f).gear.Ledger :=
  suspend_ledger h hnf (by simp)

theorem startFailed_ledger (h : s.gear.Ledger) (hnf : (s.ops t).pc ≠ .finished) (f : StartFrame)
    (e : Failure) : (s.startFailed t f e).gear.Ledger := by
  dsimp only [startFailed]
  split
  · exact suspend_ledger h hnf (by simp)
  · exact startFinalize_ledger h hnf _

/-- The spawn is consumed by its start; the client over its process is new. -/
theorem startPublish_ledger (h : s.gear.Ledger) (hnf : (s.ops t).pc ≠ .finished) (f : StartFrame)
    {p : Sid} (hp : ∀ c < s.nextClient, (s.clients c).process ≠ p) (pipes : Bool) :
    (s.startPublish t f p pipes).gear.Ledger := by
  dsimp only [startPublish]
  have hw : (if s.spawnTask = some p then
      { s with spawnTask := none, spawnCancelRequested := false } else s).gear.Ledger ∧
      ((if s.spawnTask = some p then
        { s with spawnTask := none, spawnCancelRequested := false } else s).ops t).pc ≠
          .finished ∧
      ∀ c < (if s.spawnTask = some p then
        { s with spawnTask := none, spawnCancelRequested := false } else s).nextClient,
        ((if s.spawnTask = some p then
          { s with spawnTask := none, spawnCancelRequested := false } else s).clients c).process ≠
            p := by
    split
    · refine ⟨h.grow { Gear.Grows.refl s.gear with spawnTask := .inr rfl, spawnCancel := ?_ }, hnf, hp⟩
      exact fun e => absurd rfl e
    · exact ⟨h, hnf, hp⟩
  generalize (if s.spawnTask = some p then
      { s with spawnTask := none, spawnCancelRequested := false } else s) = w at hw
  obtain ⟨hw, hwf, hwp⟩ := hw
  split
  · exact startFailed_ledger hw hwf _ _
  · have hnew : State.gear { w with
        nextClient := w.nextClient + 1
        clients := Function.update w.clients w.nextClient { process := p }
        process := some p
        client := some w.nextClient } |>.Ledger := by
      refine hw.grow { Gear.Grows.refl w.gear with
                       clients := fun c => ?_, fresh := fun c hc => ?_
                       atop := Gear.over_new w.gear hwp }
      · by_cases hcn : c = w.nextClient
        · subst hcn
          obtain ⟨h1, h2⟩ := hw.fresh _ (Nat.le_refl _)
          exact ⟨fun e => absurd h1 e, fun e => absurd h2 e⟩
        · simp [gear, hcn]
      · have hlt : w.nextClient < c := hc
        exact ⟨Nat.le_of_lt hlt, by simp [gear, Nat.ne_of_gt hlt],
          by simp [gear, Nat.ne_of_gt hlt]⟩
    exact startPhase_ledger hnew hwf _ _

theorem spawn_holders (h : s.children.Sound o) (sp : Sid) :
    (s.spawnTask = some sp → sp < s.nextSpawn ∧
      ∀ q < s.nextRecord, (s.records q).spawnTask ≠ some sp) ∧
    ∀ q < s.nextRecord, (s.records q).spawnTask = some sp → sp < s.nextSpawn ∧
      s.spawnTask ≠ some sp ∧ ∀ i < s.nextRecord, (s.records i).spawnTask = some sp → i = q := by
  have hst : s.spawnTask = o.spawn s.children.last := h.place.spawnTask
  have hcur : ∀ i < s.nextRecord, (s.records i).spawnTask = some sp → o = .record i := by
    intro i hi his
    exact h.current hi fun hc => by simpa [children, his] using hc.1
  refine ⟨fun hs => ?_, fun q hq hqs => ?_⟩
  · cases o with
    | live =>
      obtain rfl : s.children.last = sp := Option.some.inj (hst.symm.trans hs)
      refine ⟨Nat.sub_lt (h.place.spawned (by simp)) Nat.one_pos, fun q hq hqs => ?_⟩
      cases hcur q hq hqs
    | _ => exact absurd (hst.symm.trans hs) (by simp [Custody.spawn])
  · have ho := hcur q hq hqs
    refine ⟨((h.records q hq).spawn sp hqs).1, ?_, fun i hi his => ?_⟩
    · rw [hst, ho]
      simp [Custody.spawn]
    · have h1 := hcur i hi his
      rw [ho] at h1
      cases h1
      rfl

theorem cancelSpawnOnce_ledger (h : s.gear.Ledger) (hs : s.children.Sound o) (sp : Sid) :
    (s.cancelSpawnOnce sp).gear.Ledger := by
  obtain ⟨hlive, hheld⟩ := spawn_holders hs sp
  unfold cancelSpawnOnce
  split
  · exact h
  · split
    · rename_i hst
      obtain ⟨hlt, hrec⟩ := hlive hst
      split
      · exact h
      · rename_i hf
        refine h.fire (e := .spawnCancelled sp) ?_ ?_
          ⟨hlt, fun _ => rfl, fun q hq hqs => absurd hqs (hrec q hq)⟩ rfl (by simp)
        · exact { Gear.Grows.refl s.gear with spawnCancel := fun _ _ => rfl }
        · rintro ⟨-, h2, -⟩
          exact hf (h2 hst)
    · split
      · rename_i r hfind
        have hr := (hs.place.retirements r (List.mem_of_find?_eq_some hfind)).1
        have hsp : (s.records r).spawnTask = some sp := by
          simpa using List.find?_some hfind
        obtain ⟨h1, h2, h3⟩ := hheld r hr hsp
        exact cancelRetiredSpawnOnce_ledger h hr hsp h1 h2 h3
      · exact h

theorem cancelStartupTaskOnce_ledger (h : s.gear.Ledger) (hs : s.children.Sound o) (k : Kid) :
    (s.cancelStartupTaskOnce k).gear.Ledger := by
  unfold cancelStartupTaskOnce
  split
  · exact h
  · split
    · rename_i hk
      obtain ⟨hlt, hrec⟩ := h.live k hk
      split
      · exact h
      · rename_i hf
        refine h.fire (e := .startupCancelled k) ?_ ?_
          ⟨hlt, fun _ => by simp [gear, State.log], fun q hq hqs => absurd hqs (hrec q hq)⟩ rfl
          (by simp)
        · exact { Gear.Grows.refl s.gear with startup := fun i hi => ⟨hi, List.mem_cons_of_mem k⟩ }
        · rintro ⟨-, h2, -⟩
          exact hf (h2 hk)
    · split
      · rename_i r hfind
        have hr := (hs.place.retirements r (List.mem_of_find?_eq_some hfind)).1
        exact cancelRetiredStartupTaskOnce_ledger h hr (by simpa using List.find?_some hfind)
      · exact h

theorem createRetireTask_ledger (h : s.gear.Ledger) (r : Rid) :
    (s.createRetireTask r).gear.Ledger := by
  have h' := setRecord_ledger (r := r) h (x := { s.records r with task := some s.nextRetireTask }) (.same rfl)
  have hg : (s.createRetireTask r).gear =
      { (s.setRecord r { s.records r with task := some s.nextRetireTask }).gear with
        retireTasks := Function.update s.retireTasks s.nextRetireTask ⟨r, .init, s.now⟩
        nextRetireTask := s.nextRetireTask + 1 } := rfl
  rw [hg]
  refine ⟨h'.once.mono fun e he => ?_, h'.fresh, h'.terminated, fun j hj p f hpc => ?_, h'.kills,
    h'.live, h'.held, h'.nodup, h'.roster, h'.apart⟩
  · cases e <;> exact he
  · obtain hj | rfl := Nat.lt_succ_iff_lt_or_eq.1 hj
    · simp only [Function.update_of_ne (Nat.ne_of_lt hj)] at hpc ⊢
      exact h'.waiting j hj p f hpc
    · simp at hpc

theorem prune_ledger (h : s.gear.Ledger) : s.pruneCompletedOperationsLocked.gear.Ledger := by
  refine h.grow { Gear.Grows.refl s.gear with
                  active := List.filter_sublist, retiring := fun u hu => ?_,
                  joined := fun u hu => (List.mem_filter.1 hu).1 }
  cases hd : s.opDone u with
  | true => exact .inr hd
  | false => exact .inl (List.mem_filter.2 ⟨hu, by simp [hd]⟩)

/-- A registered operation joins while nobody is being retired. -/
theorem register_ledger (h : s.gear.Ledger) (t : Tid) : (s.registerOperation t).1.gear.Ledger := by
  have hp := prune_ledger h
  dsimp only [registerOperation]
  generalize s.pruneCompletedOperationsLocked = w at hp ⊢
  split
  · exact hp
  · rename_i hc
    simp only [Bool.or_eq_true, not_or, Bool.not_eq_true', Bool.not_eq_false,
      List.isEmpty_iff] at hc
    obtain ⟨⟨⟨-, hret⟩, -⟩, -⟩ := hc
    split
    · exact hp
    · rename_i hmem
      refine ⟨hp.once.mono fun e he => ?_, hp.fresh, hp.terminated, hp.waiting, hp.kills, hp.live,
        hp.held, List.nodup_cons.2 ⟨hmem, hp.nodup⟩, fun u _ hu => ?_, hp.apart⟩
      · cases e <;> exact he
      · have hu' : u ∈ w.retiringOperations := hu
        rw [hret] at hu'
        cases hu'

theorem startRaise_ledger (h : s.gear.Ledger) (hnf : (s.ops t).pc ≠ .finished) (e : Failure)
    (c : Bool) : (s.startRaise t e c).gear.Ledger :=
  leave_ledger h hnf _

theorem startAdmit_ledger (h : s.gear.Ledger) (hnf : (s.ops t).pc ≠ .finished) :
    (s.startAdmit t).gear.Ledger := by
  unfold startAdmit
  split
  · exact startRaise_ledger h hnf _ _
  · exact startIssue_ledger h hnf

theorem retireTerminal_ledger (h : s.gear.Ledger) (hi : Inv s o) (hnf : (s.ops t).pc ≠ .finished)
    (hp : s.process.isSome ∨ s.client.isSome) :
    (s.retireTerminalPublishedChild t).gear.Ledger := by
  obtain ⟨c, rfl, h1, h2, -⟩ := hi.published hp
  have hg := newRetirement_grown s (s.generation + 1) s.spawnCancelRequested (some c)
    (some s.last) false none false
  have hl : ((s.cleared (s.generation + 1) s.spawnCancelRequested).newRetirement (some c)
      (some s.last) false none false).gear.Ledger :=
    newRetirement_ledger h (s.generation + 1) s.spawnCancelRequested (by simp)
  dsimp only [retireTerminalPublishedChild]
  rw [h1, h2, claim_published hi.sound]
  generalize (s.cleared (s.generation + 1) s.spawnCancelRequested).newRetirement (some c)
    (some s.last) false none false = u at hg hl
  simp only [hg.task]
  exact suspend_ledger hl (by rw [hg.ops]; exact hnf) (by simp)

theorem startAdmission_ledger (h : s.gear.Ledger) (hi : Inv s o)
    (hnf : (s.ops t).pc ≠ .finished) : (s.startAdmission t).gear.Ledger := by
  dsimp only [startAdmission]
  rw [hi.clear]
  split
  · rename_i hp
    split
    · exact startReturn_ledger h hnf
    · exact retireTerminal_ledger h hi hnf (by simpa using hp)
  · exact startAdmit_ledger h hnf

theorem startBody_ledger (h : s.gear.Ledger) (hi : Inv s o) (hnf : (s.ops t).pc ≠ .finished) :
    (s.startBody t).gear.Ledger := by
  unfold startBody
  split
  · rename_i hp
    exact retireTerminal_ledger h hi hnf (publishedChildIsTerminal_some hp)
  · exact startAdmission_ledger h hi hnf

theorem startAfterTerminal_ledger (h : s.gear.Ledger) (hi : Inv s o)
    (hnf : (s.ops t).pc ≠ .finished) {r : Rid} {j : Jid} {b c : Bool} (haw : s.Awaits r j)
    (hres : s.retireResult j = some b) : (s.startAfterTerminal t r b c).gear.Ledger := by
  unfold startAfterTerminal
  cases b with
  | false => exact startRaise_ledger h hnf _ _
  | true =>
    obtain ⟨o', h', -⟩ := hi.remove (haw.retired hres)
    obtain ⟨l, hl⟩ := removeRetirement_eq s r
    cases he : s.removeRetirementIfCompleteLocked r with
    | mk w b =>
      rw [he] at h' hl
      simp only at h' hl
      subst hl
      cases b with
      | false => exact startRaise_ledger (s := { s with retirements := l }) h hnf _ _
      | true =>
        simp only [Bool.not_true, Bool.false_eq_true, if_false]
        split
        · exact startRaise_ledger (s := { s with retirements := l }) h hnf _ _
        · exact startAdmission_ledger (s := { s with retirements := l }) h h' hnf

theorem startAfterSpawn_ledger (h : s.gear.Ledger) (hi : Inv s o) (hnf : (s.ops t).pc ≠ .finished)
    (f : StartFrame) {sp : Sid} {c : Bool}
    (hp : c = false → ∀ d < s.nextClient, (s.clients d).process ≠ sp) :
    (s.startAfterSpawn t f sp c).gear.Ledger := by
  have hcancel := cancelSpawnOnce_ledger h hi.sound sp
  have hops := (hi.cancelSpawnOnce sp).2.1
  unfold startAfterSpawn
  split
  · exact startFailed_ledger hcancel (by rw [hops]; exact hnf) f _
  · split
    · exact startFailed_ledger hcancel (by rw [hops]; exact hnf) f _
    · exact startFailed_ledger h hnf f _
    · exact startFailed_ledger h hnf f _
    · rename_i hc _ _ _
      exact startPublish_ledger h hnf f (hp (by simpa using hc)) _

theorem startAfterPhase_ledger (h : s.gear.Ledger) (hi : Inv s o) (hnf : (s.ops t).pc ≠ .finished)
    (f : StartFrame) (kind : Phase) (k : Kid) (c : Bool) :
    (s.startAfterPhase t f kind k c).gear.Ledger := by
  have hcancel := cancelStartupTaskOnce_ledger h hi.sound k
  have hops := (hi.cancelStartupTaskOnce k).2.1
  unfold startAfterPhase
  split
  · exact startFailed_ledger hcancel (by rw [hops]; exact hnf) f _
  · split
    · exact startFailed_ledger hcancel (by rw [hops]; exact hnf) f _
    · exact startFailed_ledger h hnf f _
    · exact startFailed_ledger h hnf f _
    · split
      · exact startPhase_ledger h hnf f _
      · exact startPhase_ledger h hnf f _
      · exact startPhase_ledger h hnf f _
      · exact startFinalize_ledger h hnf f

theorem startExit_ledger (h : s.gear.Ledger) (hnf : (s.ops t).pc ≠ .finished) (f : StartFrame) :
    (s.startExit t f).gear.Ledger := by
  unfold startExit
  split
  · exact startRaise_ledger h hnf _ _
  · split
    · exact startRaise_ledger h hnf _ _
    · exact startReturn_ledger h hnf

theorem startAfterFinalize_ledger (h : s.gear.Ledger) (hnf : (s.ops t).pc ≠ .finished)
    (f : StartFrame) : (s.startAfterFinalize t f).gear.Ledger := by
  unfold startAfterFinalize
  split
  · exact suspend_ledger h hnf (by simp)
  · exact startExit_ledger h hnf f

end State

end KestrelSdk.Subprocess
