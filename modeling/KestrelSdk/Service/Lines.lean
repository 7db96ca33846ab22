import KestrelSdk.Service.Replies

/-! Lines that are no messages. -/

namespace KestrelSdk.Service

open Json Protocol Asyncio Server

variable {rt : Runtime} {raised : DecodeError → Exn} {version : Str} {s s' : Server} {a : Action}
  {b : Bytes} {i j : Nat} {text : Str}

/-- A line that is UTF-8, and that `json.loads` reads or refuses with a `JSONDecodeError`. -/
def Loads (py : Interpreter) (b : Bytes) : Prop :=
  ∃ text, decodeUtf8 b = some text ∧ py.loads text ≠ .error .recursion ∧
    py.loads text ≠ .error .digits

theorem parseId_protocol {v : Value} {e : DecodeError} (h : parseId v = .error e) :
    ∃ text, e = .protocol text := by
  unfold parseId at h
  split at h <;> cases h
  exact ⟨_, rfl⟩

theorem requireStr_protocol {d : Dict} {key : String} {e : DecodeError}
    (h : requireStr d key = .error e) : ∃ text, e = .protocol text := by
  unfold requireStr at h
  split at h <;> cases h
  exact ⟨_, rfl⟩

theorem requireInt_protocol {d : Dict} {key : String} {e : DecodeError}
    (h : requireInt d key = .error e) : ∃ text, e = .protocol text := by
  unfold requireInt at h
  split at h <;> cases h
  exact ⟨_, rfl⟩

theorem parseMessage_params_protocol {d : Dict} {method : Str} {params : Dict} {e : DecodeError}
    (h : (match Dict.get d (str "id") with
      | some id => do
        let id ← parseId id
        return .request ⟨method, params, id⟩
      | none => return .notification ⟨method, params⟩ : Except DecodeError JsonRpcMessage) =
        .error e) : ∃ text, e = .protocol text := by
  cases hid : Dict.get d (str "id") with
  | none =>
    rw [hid] at h
    cases h
  | some id =>
    simp only [hid] at h
    rcases Checks.bind_error_iff.1 h with h | ⟨_, -, h⟩
    · exact parseId_protocol h
    · cases h

/-- Everything that `decode_message` raises after `json.loads` is a `ProtocolError`. -/
theorem parseMessage_protocol {raw : Value} {e : DecodeError} (h : parseMessage raw = .error e) :
    ∃ text, e = .protocol text := by
  cases raw with
  | dict d =>
    simp only [parseMessage] at h
    split at h
    · split at h
      · split at h
        · rcases Checks.bind_error_iff.1 h with h | ⟨method, -, h⟩
          · exact requireStr_protocol h
          · split at h
            · exact parseMessage_params_protocol h
            · exact parseMessage_params_protocol h
            · exact parseMessage_params_protocol h
            · cases h
              exact ⟨_, rfl⟩
        · split at h
          · cases h
            exact ⟨_, rfl⟩
          · split at h
            · rcases Checks.bind_error_iff.1 h with h | ⟨_, -, h⟩
              · exact parseId_protocol h
              · rcases Checks.bind_error_iff.1 h with h | ⟨_, -, h⟩
                · exact requireInt_protocol h
                · rcases Checks.bind_error_iff.1 h with h | ⟨_, -, h⟩
                  · exact requireStr_protocol h
                  · cases h
            · cases h
              exact ⟨_, rfl⟩
            · split at h
              · cases h
                exact ⟨_, rfl⟩
              · rcases Checks.bind_error_iff.1 h with h | ⟨_, -, h⟩
                · exact parseId_protocol h
                · cases h
      · cases h
        exact ⟨_, rfl⟩
    · cases h
      exact ⟨_, rfl⟩
  | _ =>
    cases h
    exact ⟨_, rfl⟩

theorem loads_iff (py : Interpreter) (b : Bytes) :
    Loads py b ↔ ∀ e, decodeMessage py b = .error e → ∃ text, e = .protocol text := by
  unfold Loads decodeMessage
  cases htext : decodeUtf8 b with
  | none => simp
  | some text =>
    simp only [Option.some.injEq, exists_eq_left']
    cases hload : py.loads text with
    | error e =>
      cases e with
      | decode msg => simp
      | recursion => simp
      | digits => simp
    | ok raw =>
      simp only
      refine iff_of_true ⟨by rintro ⟨⟩, by rintro ⟨⟩⟩ fun e he => parseMessage_protocol he

/-- A job whose end with an exception is none of `serve`'s own. -/
def IsMessage (w : Work) : Prop := ∀ text, w ≠ .malformed text

theorem undisturbed_step (hn : 2 ≤ rt.py.nesting) (h : Good rt IsMessage s)
    (hs : (undisturbed rt raised version).step s a = some s') :
    Good rt IsMessage s' ∧ Stepped rt s a s' := by
  obtain ⟨ha, hs⟩ := Machine.restrict_step hs
  refine step_good hn ?_ (fun r e hby hno => ?_) ha h hs
  · rintro params text ⟨⟩
  · rintro text ⟨⟩

theorem undisturbed_good (hn : 2 ≤ rt.py.nesting)
    (hs : (undisturbed rt raised version).Reachable s) : Good rt IsMessage s := by
  refine hs.invariant start_good ?_
  intro s a s' h ha
  exact (undisturbed_step hn h ha).1

namespace Settles

theorem pc_of_ne {n : Nat} (h : Settles n i s s') (hj : j ≠ i) : s'.pc j = s.pc j := by
  obtain ⟨p, hjobs, -, -⟩ := h
  unfold pc
  rw [hjobs, getElem?_setPc_of_ne hj]

end Settles

theorem pc_create {w : Work} {p : JobPc} {loop : LoopPc} (hj : j < s.jobs.length) :
    ({ s.create w p with loop } : Server).pc j = s.pc j := by
  unfold pc Server.create
  rw [List.getElem?_append_left hj]

theorem Stepped.ended {result : Except Exn Unit} (h : Stepped rt s a s')
    (hp : s.pc i = some (.ended result)) : s'.pc i = some (.ended result) := by
  cases h with
  | own j n p ha hpj hn hs =>
    by_cases hij : i = j
    · rw [← hij, hp] at hpj
      cases hpj
      cases hn
    · rw [hs.pc_of_ne hij, hp]
  | creates w p n loop ha hb hl hs =>
    obtain ⟨job, hjob, -⟩ := job_of_pc hp
    have hlt := (List.getElem?_eq_some_iff.1 hjob).1
    rw [hs.pc_of_ne (Nat.ne_of_lt hlt), pc_create hlt, hp]
  | aside ha hb hj hl =>
    unfold pc
    rw [hj]
    exact hp

theorem Stepped.getElem?_works {w : Work} (h : Stepped rt s a s') (hw : s.works[i]? = some w) :
    s'.works[i]? = some w := by
  rw [h.works, List.getElem?_append_left (List.getElem?_eq_some_iff.1 hw).1, hw]

/-- While `serve` awaits the answer to a line, every step leaves it there or ends the answer. -/
theorem Stepped.awaiting (h : Stepped rt s a s') (hgood : Good rt IsMessage s')
    (hw : s.works[i]? = some (.malformed text)) (hl : s.loop = .awaiting i) :
    s'.loop = .awaiting i ∨
      s'.loop = s'.again ∧ ∃ result, s'.pc i = some (.ended result) := by
  have hw' := h.getElem?_works hw
  obtain ⟨job, hjob, -⟩ := job_of_works hw
  cases h with
  | own j n p ha hp hn hs =>
    by_cases hij : i = j
    · rw [← hij] at hp hs
      obtain ⟨p', hp', -, hloop⟩ := pc_of_settles hs hp
      rcases hloop with hloop | ⟨-, hend, hloop | ⟨e, hloop⟩⟩
      · exact .inl (hloop.trans hl)
      · cases p' with
        | ended result => exact .inr ⟨hloop, result, hp'⟩
        | _ => cases hend
      · obtain ⟨w, hwi, hmessage, -⟩ := hgood.raised i e hloop
        obtain rfl := Option.some.inj (hw'.symm.trans hwi)
        exact absurd rfl (hmessage text)
    · obtain ⟨p', -, -, hloop⟩ := hs
      rcases hloop with hloop | ⟨hawait, -⟩
      · exact .inl (hloop.trans hl)
      · cases hl.symm.trans hawait
        exact absurd rfl hij
  | creates w p n loop ha hb hloop hs =>
    have hlt := (List.getElem?_eq_some_iff.1 hjob).1
    rcases hloop with rfl | ⟨hread, -⟩
    · obtain ⟨p', -, -, hloop⟩ := hs
      rcases hloop with hloop | ⟨hawait, -⟩
      · exact .inl (hloop.trans hl)
      · cases hl.symm.trans hawait
        exact absurd hlt (Nat.lt_irrefl _)
    · cases hl.symm.trans hread
  | aside ha hb hj hloop =>
    rcases hloop with hloop | ⟨-, hno⟩
    · exact .inl (hloop.trans hl)
    · exact absurd hl (hno i)

/-- What a step does not do to the loop, where nothing outside ends it. -/
theorem Stepped.alive (h : Stepped rt s a s') (hs : ∀ e, s.loop ≠ .raised none e)
    (hout : ¬ Outside rt a) (e : Exn) : s'.loop ≠ .raised none e := by
  intro he
  have hturn : ∀ {n j : Nat} {s : Server}, Settles n j s s' → s.loop = .raised none e := by
    intro n j s hset
    obtain ⟨p, -, -, hl⟩ := hset
    rcases hl with hl | ⟨-, -, hl | ⟨e', hl⟩⟩
    · exact hl.symm.trans he
    · rcases s'.again_cases with ha | ⟨ha, -⟩
      · cases (ha.symm.trans hl.symm).trans he
      · cases (ha.symm.trans hl.symm).trans he
    · cases hl.symm.trans he
  cases h with
  | own i n p ha hp hn hset => exact hs e (hturn hset)
  | creates w p n loop ha hb hl hset =>
    have hloop : loop = .raised none e := hturn hset
    rcases hl with hl | ⟨-, hl⟩
    · exact hs e (hl.symm.trans hloop)
    · cases hl.symm.trans hloop
  | aside ha hb hj hl =>
    rcases hl with hl | ⟨hno, -⟩
    · exact hs e (hl.symm.trans he)
    · exact hout hno

/-- The answer to a line that is no message: one frame without an identifier, for which `serve`
waits before it reads on. -/
structure Refused (rt : Runtime) (raised : DecodeError → Exn) (version : Str) (s : Server)
    (i : Nat) (text : Str) : Prop where
  answered : Answered rt raised version s i (.malformed text)
  awaited : (∃ result, s.pc i = some (.ended result)) ∨ s.loop = .awaiting i
  next : s.loop = .awaiting i → ∀ a s', (undisturbed rt raised version).step s a = some s' →
    s'.loop = .awaiting i ∨ s'.loop = s'.again ∧ (s'.written i).length = 1

theorem refused_of_good (hn : 2 ≤ rt.py.nesting) (h : Good rt IsMessage s)
    (hw : s.works[i]? = some (.malformed text))
    (hl : (∃ result, s.pc i = some (.ended result)) ∨ s.loop = .awaiting i) :
    Refused rt raised version s i text := by
  have hanswered : ∀ {s : Server}, Good rt IsMessage s → s.works[i]? = some (.malformed text) →
      Answered rt raised version s i (.malformed text) := by
    intro s h hw
    exact h.answered raised version hw (fun hno => hno text rfl) (by rintro params ⟨⟩)
  refine ⟨hanswered h hw, hl, ?_⟩
  intro hawait a s' hs
  obtain ⟨h', hstepped⟩ := undisturbed_step hn h hs
  rcases hstepped.awaiting h' hw hawait with hsame | ⟨hagain, result, hend⟩
  · exact .inl hsame
  · exact .inr ⟨hagain, ((hanswered h' (hstepped.getElem?_works hw)).ended result hend).2⟩

theorem refused_run (hn : 2 ≤ rt.py.nesting) (h : Good rt IsMessage s)
    (hw : s.works[i]? = some (.malformed text))
    (hl : (∃ result, s.pc i = some (.ended result)) ∨ s.loop = .awaiting i) (as : List Action)
    (hs : (undisturbed rt raised version).runFrom s as = some s') :
    Refused rt raised version s' i text := by
  have hrun := Machine.runFrom_invariant (m := undisturbed rt raised version)
    (p := fun s => Good rt IsMessage s ∧ s.works[i]? = some (.malformed text) ∧
      ((∃ result, s.pc i = some (.ended result)) ∨ s.loop = .awaiting i)) ?_ as ⟨h, hw, hl⟩ hs
  · exact refused_of_good hn hrun.1 hrun.2.1 hrun.2.2
  · intro s a s' ⟨h, hw, hl⟩ ha
    obtain ⟨h', hstepped⟩ := undisturbed_step hn h ha
    refine ⟨h', hstepped.getElem?_works hw, ?_⟩
    rcases hl with ⟨result, hend⟩ | hawait
    · exact .inl ⟨result, hstepped.ended hend⟩
    · rcases hstepped.awaiting h' hw hawait with hsame | ⟨-, hend⟩
      · exact .inr hsame
      · exact .inl hend

theorem refuse_awaited (hn : 2 ≤ rt.py.nesting) (h : Good rt IsMessage s) (hl : s.loop = .reading)
    (text : Str) : (∃ result, (s.refuse rt text).pc s.jobs.length = some (.ended result)) ∨
      (s.refuse rt text).loop = .awaiting s.jobs.length := by
  have hev : ∀ params, IsMessage (.event params) := by rintro params text ⟨⟩
  obtain ⟨-, p, n, hset⟩ := refuse_good hn hev h hl text
  have hp : ({ s.create (.malformed text) p with loop := .awaiting s.jobs.length } : Server).pc
      s.jobs.length = some p := by
    unfold pc Server.create
    rw [List.getElem?_concat_length]
    rfl
  obtain ⟨p', hp', -, hloop⟩ := pc_of_settles hset hp
  rcases hloop with hloop | ⟨-, hend, -⟩
  · exact .inr hloop
  · cases p' with
    | ended result => exact .inl ⟨result, hp'⟩
    | _ => cases hend

/-- `serve` survives a line: its content raises nothing in the loop, and a line that is no message
is refused, in every run from there. -/
structure Survives (rt : Runtime) (raised : DecodeError → Exn) (version : Str) (b : Bytes)
    (s s' : Server) : Prop where
  alive : ∀ e, s'.loop ≠ .raised none e
  refused : (∀ m, decodeMessage rt.py b ≠ .ok m) → ∃ text, s'.works = s.works ++ [.malformed text] ∧
    ∀ as s'', (undisturbed rt raised version).runFrom s' as = some s'' →
      Refused rt raised version s'' s.jobs.length text

/-- `serve` survives exactly the lines that are UTF-8 and that `json.loads` reads or refuses with a
`JSONDecodeError`. -/
theorem survives_iff_loads (hn : 2 ≤ rt.py.nesting)
    (hs : (undisturbed rt raised version).Reachable s) (hb : b ≠ [])
    (h : (undisturbed rt raised version).step s (.line b) = some s') :
    Survives rt raised version b s s' ↔ Loads rt.py b := by
  have hgood := undisturbed_good hn hs
  obtain ⟨hgood', hstepped⟩ := undisturbed_step hn hgood h
  obtain ⟨hread, hs'⟩ : s.loop = .reading ∧ s.readLine rt raised b = s' := by
    obtain ⟨-, h⟩ := Machine.restrict_step h
    simp only [service, step] at h
    split at h
    · rename_i hread
      exact ⟨hread, Option.some.inj h⟩
    · cases h
  rw [loads_iff]
  constructor
  · intro hsurvives e he
    by_contra hno
    have hraised : s.readLine rt raised b = { s with loop := .raised none (raised e) } := by
      unfold readLine
      rw [if_neg hb, he]
      cases e with
      | protocol text => exact absurd ⟨text, rfl⟩ hno
      | _ => rfl
    exact hsurvives.alive (raised e) (by rw [← hs', hraised])
  · intro hloads
    constructor
    · refine hstepped.alive (fun e he => by cases hread.symm.trans he) ?_
      rintro (hnil | ⟨e, he, hno⟩)
      · exact hb hnil
      · obtain ⟨text, rfl⟩ := hloads e he
        exact hno text rfl
    · intro hno
      cases hd : decodeMessage rt.py b with
      | ok m => exact absurd hd (hno m)
      | error e =>
        obtain ⟨text, rfl⟩ := hloads e hd
        have hrefuse : s' = s.refuse rt text := by
          rw [← hs']
          unfold readLine
          rw [if_neg hb, hd]
        have hworks := hstepped.works
        simp only [brings, hd, hb, if_false] at hworks
        refine ⟨text, hworks, fun as s'' hrun => ?_⟩
        have hlen : s.works.length = s.jobs.length := List.length_map _
        refine refused_run hn hgood' ?_ ?_ as hrun
        · rw [hworks, ← hlen, List.getElem?_concat_length]
        · rw [hrefuse]
          exact refuse_awaited hn hgood hread text

theorem survives_iff_loads_text : ∃ s s',
    Survives sampleRuntime (fun _ => .cancelled) [] [120, 10] s s' := by
  have hn : 2 ≤ sampleRuntime.py.nesting := by decide
  have hs : (undisturbed sampleRuntime (fun _ => .cancelled) []).Reachable
      { loop := .reading, connected := true } := ⟨[.serve], rfl⟩
  have hb : ([120, 10] : Bytes) ≠ [] := List.cons_ne_nil _ _
  obtain ⟨s', hs'⟩ : ∃ s', (undisturbed sampleRuntime (fun _ => .cancelled) []).step
      { loop := .reading, connected := true } (.line [120, 10]) = some s' := ⟨_, rfl⟩
  have hloads : Loads sampleRuntime.py [120, 10] := ⟨[120, 10], rfl, by rintro ⟨⟩, by rintro ⟨⟩⟩
  exact ⟨_, s', (survives_iff_loads hn hs hb hs').2 hloads⟩

/-- A line that is not UTF-8 ends `serve`. -/
theorem serve_dies_of_latin : ∃ s,
    (∀ m, decodeMessage sampleRuntime.py [0xff, 10] ≠ .ok m) ∧
      (undisturbed sampleRuntime (fun _ => .exception (some (str "invalid start byte"))) []).runFrom
        {} [.serve, .line [0xff, 10]] = some s ∧
      s.loop = .raised none (.exception (some (str "invalid start byte"))) ∧ s.works = [] ∧ s.frames = [] := by
  refine ⟨_, ?_, rfl, rfl, rfl, rfl⟩
  rintro m ⟨⟩

end KestrelSdk.Service
