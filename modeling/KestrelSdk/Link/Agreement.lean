import Mathlib.Data.List.Nodup
import KestrelSdk.Link.Streams

/-! Host and child agree on a config transition. -/

namespace KestrelSdk.Link

open Json Protocol Asyncio Service

variable {k : Peers} {s s' : Session}

/-- The request of a config transition, as the service decodes it. -/
def transitionRequest (k : Peers) (id : Nat) (next : Dict) : JsonRpcRequest :=
  ⟨CONFIG_TRANSITION, [(.str (str "config"), .dict (imageEntries k.child.py.floatOf [] next))], .int id⟩

/-- The config transition of request `id` came to `o`: the service found `old` as it read the
request, and `now` stood as it replied. -/
def Session.Replies (k : Peers) (s : Session) (id : Nat) (next : Dict) (o : Transition)
    (old now : Lifecycle) : Prop :=
  ∃ (i : Nat) (bytes : Bytes),
    s.service.server.works[i]? = some (.request (transitionRequest k id next)) ∧
    s.service.found[i]? = some old ∧
    (⟨i, transitionReply (transitionRequest k id next) o, bytes⟩, now) ∈ s.service.posted

/-- No turn of request `id` changed what a config transition changes. -/
def Session.Spared (s : Session) (id : Nat) : Prop :=
  ∀ turn ∈ s.service.turns, ∀ r, s.service.server.works[turn.job]? = some (.request r) →
    r.id = .int id → Agree turn.before turn.after

/-- What the service did with a config transition that it answered. -/
inductive Session.Settled (k : Peers) (s : Session) (id : Nat) (next : Dict) : Answer → Prop where
  | refused (e : JsonRpcError) (h : s.Spared id) : Settled k s id next (.error e)
  | decided (o : Transition) (old now : Lifecycle) (h : s.Replies k id next o old now)
      (hf : old.restartRequired = false)
      (ha : Agree (committed old (imageEntries k.child.py.floatOf [] next) o) now) :
      Settled k s id next (.result o.toDict)

/-- What the service's reply to a config transition tells: `applied` commits the config that was
sent, and `restart` raises the fence over the old one. -/
def Session.Agreed (k : Peers) (s : Session) (id : Nat) (next : Dict) (o : Transition) : Prop :=
  ∃ old now, s.Replies k id next o old now ∧
    match o with
    | .applied =>
      .dict now.hostConfig = image k.child.py.floatOf (.dict next) ∧ now.restartRequired = false
    | .restart =>
      now.hostConfig = old.hostConfig ∧ now.restartRequired = true ∧ s.service.Fenced old

theorem image_config (f : Str → PyFloat) (next : Dict) :
    imageEntries f [] [(.str (str "config"), .dict next)] =
      [(.str (str "config"), .dict (imageEntries f [] next))] := by
  have hconfig : imageStr (str "config") = str "config" := by decide
  simp only [imageEntries, Key.text, hconfig, Dict.set, image]

theorem requested_transition {id : Nat} {next : Dict} {r : JsonRpcRequest}
    (h : requested k (Client.transitionFrame id next) = some r) : r = transitionRequest k id next := by
  obtain ⟨b, hb, hr⟩ := Option.bind_eq_some_iff.1 h
  have hd := requestOf_some hr
  have hmethod : imageStr CONFIG_TRANSITION = CONFIG_TRANSITION := by decide
  have hne : CONFIG_TRANSITION ≠ [] := by decide
  have hparse : parseMessage (image k.child.py.floatOf (JsonRpcRequest.toDict
      ⟨CONFIG_TRANSITION, [(.str (str "config"), .dict next)], .int id⟩)) =
      .ok (.request (transitionRequest k id next)) := by
    have hid : image k.child.py.floatOf (.int (id : Int)) = .int id := rfl
    have hi : IsId (.int (id : Int)) := rfl
    rw [parse_request hmethod hne (List.isEmpty_cons) hid hi, image_config]
    rfl
  have hframe := frameBytes_some hb
  unfold Client.transitionFrame at hframe
  rw [decodeMessage_encodeMessage hframe] at hd
  split at hd
  · rw [hparse] at hd
    cases hd
    rfl
  · cases hd

theorem image_toDict (f : Str → PyFloat) (o : Transition) : image f o.toDict = o.toDict := by
  have haction : imageStr (str "action") = str "action" := by decide
  have hkept : imageStr o.action = o.action := by
    cases o with
    | restart => decide
    | applied => decide
  unfold Transition.toDict
  simp only [image, imageEntries, Key.text, haction, hkept, Dict.set]

theorem fromDict_toDict {o : Transition} {d : Dict} (h : o.toDict = .dict d) :
    Transition.fromDict d = .ok o := by
  cases h
  cases o with
  | restart => rfl
  | applied => rfl

theorem toDict_injective {o o' : Transition} (h : o.toDict = o'.toDict) : o = o' := by
  obtain ⟨d, hd⟩ : ∃ d, o.toDict = .dict d := ⟨_, rfl⟩
  have ho := fromDict_toDict hd
  rw [fromDict_toDict (h.symm.trans hd)] at ho
  cases ho
  rfl

/-- A client that decodes an error or an object in a response decodes two levels. -/
theorem nesting_of_answer {rt : Runtime} {peer : Interpreter} {id : Value} {answer : Answer}
    {b : Bytes} {x : JsonRpcResponse} (hid : Identifies id)
    (hb : encodeMessage rt.py (JsonRpcResponse.toDict ⟨id, answer⟩) = .ok b)
    (hx : decodeMessage peer b = .ok (.response x))
    (hanswer : (∃ d, x.answer = .result (.dict d)) ∨ ∃ e, x.answer = .error e) :
    2 ≤ peer.nesting := by
  cases answer with
  | error e =>
    rw [decodeMessage_encodeMessage hb] at hx
    split at hx
    · rename_i hdeep
      have hdepth : 2 ≤ depth (JsonRpcResponse.toDict ⟨id, .error e⟩) := by
        simp only [JsonRpcResponse.toDict, JsonRpcError.toDict, depth, depthEntries]
        omega
      omega
    · cases hx
  | result v =>
    rw [decode_result peer hid hb] at hx
    split at hx
    · rename_i hdeep
      cases hx
      rcases hanswer with ⟨d, hd⟩ | ⟨e, he⟩
      · have hpos : 1 ≤ depth v := by
          cases v with
          | dict es =>
            simp only [depth]
            omega
          | float z => cases z <;> cases hd
          | _ => cases hd
        omega
      · cases he
    · cases hx

/-- What a client decodes in the frames of a config transition. -/
theorem decodes_transition {rt : Runtime} {peer : Interpreter} {r : JsonRpcRequest} {data : Value}
    {b : Bytes} (hm : r.method = CONFIG_TRANSITION) (hid : Identifies r.id)
    (hb : encodeMessage rt.py data = .ok b) (hn : 2 ≤ peer.nesting) :
    (Refusal r data → ∃ e, decodeMessage peer b = .ok (.response ⟨r.id, .error e⟩)) ∧
      ∀ o, data = transitionReply r o →
        decodeMessage peer b = .ok (.response ⟨r.id, .result o.toDict⟩) := by
  constructor
  · rintro ⟨code, message, rfl, hshows⟩
    have hne : message ≠ [] := fun hnil => (hshows hnil).1 hm
    have hd := decode_failure peer hid hb
    rw [if_pos hn, if_neg hne] at hd
    exact ⟨_, hd⟩
  · rintro o rfl
    have hdepth : depth o.toDict < peer.nesting := by
      have hone : depth o.toDict = 1 := by
        simp [Transition.toDict, depth, depthEntries]
      omega
    have hd := decode_result peer hid hb
    rw [if_pos hdepth, image_toDict] at hd
    exact hd

/-- The first frame of a job, with its lifecycle. -/
theorem head_posted {l : Ledger} (h : l.posted.map Prod.fst = l.server.frames) (i : Nat) :
    (l.postedBy i).head?.map Prod.fst = l.server.frames.find? fun f => f.job = i := by
  unfold Ledger.postedBy
  rw [List.head?_filter, ← h, List.find?_map]
  rfl

namespace Session.Linked

/-- The frame that the client decoded to its first response under an identifier. -/
theorem first_frame (h : s.Linked k) {id : Nat} {x : JsonRpcResponse}
    (hx : Client.First s.client.desk.responses id x) :
    ∃ before f after, s.service.server.frames = before ++ f :: after ∧
      decodeMessage k.host f.bytes = .ok (.response x) ∧
      ∀ g ∈ before, ∀ y, decodeMessage k.host g.bytes = .ok (.response y) → y.id ≠ .int id := by
  obtain ⟨pre, post, heq, -, hpre⟩ := hx
  rw [h.heard] at heq
  obtain ⟨l₁, l₂, hl, h₁, h₂⟩ := List.filterMap_eq_append_iff.1 heq
  obtain ⟨m₁, f, m₂, hm, hnone, hf, -⟩ := List.filterMap_eq_cons_iff.1 h₂
  refine ⟨l₁ ++ m₁, f, m₂ ++ s.service.server.frames.drop s.read, ?_, responseOf_some hf, ?_⟩
  · have hall := List.take_append_drop s.read s.service.server.frames
    rw [hl, hm] at hall
    refine hall.symm.trans ?_
    simp only [List.append_assoc, List.cons_append]
  · intro g hg y hy
    have hresponse : responseOf (decodeMessage k.host g.bytes) = some y := by
      rw [hy]
      rfl
    rcases List.mem_append.1 hg with hg | hg
    · apply hpre
      rw [← h₁]
      exact List.mem_filterMap.2 ⟨g, hg, hresponse⟩
    · rw [hnone g hg] at hresponse
      cases hresponse

/-- No two jobs of the service handle the same request. -/
theorem distinct (h : s.Linked k) {i j : Nat} {r r' : JsonRpcRequest}
    (hi : s.service.server.works[i]? = some (.request r))
    (hj : s.service.server.works[j]? = some (.request r')) (hid : r.id = r'.id) : i = j := by
  have hframes : s.client.desk.written.Pairwise fun f g => f.id < g.id :=
    List.pairwise_map.1 h.told.tabled.desk.written
  have hrequests : (requests s.service.server.works).Pairwise fun r r' => r.id ≠ r'.id := by
    rw [h.asked]
    apply List.pairwise_filterMap.2
    apply (hframes.sublist (List.take_sublist _ _)).imp
    intro f g hlt r hr r' hr' heq
    rw [requested_id hr, requested_id hr'] at heq
    injection heq with heq
    have := Int.ofNat.inj heq
    omega
  have hworks := List.pairwise_filterMap.1 hrequests
  obtain ⟨hilt, hi⟩ := List.getElem?_eq_some_iff.1 hi
  obtain ⟨hjlt, hj⟩ := List.getElem?_eq_some_iff.1 hj
  by_contra hne
  rcases Nat.lt_or_gt_of_ne hne with hlt | hlt
  · have hpair := List.pairwise_iff_getElem.1 hworks i j hilt hjlt hlt
    exact hpair r (by rw [hi]; rfl) r' (by rw [hj]; rfl) hid
  · have hpair := List.pairwise_iff_getElem.1 hworks j i hjlt hilt hlt
    exact hpair r' (by rw [hj]; rfl) r (by rw [hi]; rfl) hid.symm

/-- The service's request under the identifier of a config transition. -/
theorem request_of_frame (h : s.Linked k) {id i : Nat} {next : Dict} {r : JsonRpcRequest}
    (hw : Client.transitionFrame id next ∈ s.client.desk.written)
    (hi : s.service.server.works[i]? = some (.request r)) (hid : r.id = .int id) :
    r = transitionRequest k id next := by
  obtain ⟨g, hg, hr⟩ := h.written hi
  have hgid : g.id = id := by
    have heq := (requested_id hr).symm.trans hid
    injection heq with heq
    exact Int.ofNat.inj heq
  have hnodup : (s.client.desk.written.map Client.Frame.id).Nodup :=
    h.told.tabled.desk.written.imp Nat.ne_of_lt
  have hsame : g = Client.transitionFrame id next := List.inj_on_of_nodup_map hnodup hg hw hgid
  rw [hsame] at hr
  exact requested_transition hr

/-- What the service did before its first frame for a config transition, and what the client decodes
in that frame. -/
theorem first_settled (h : s.Linked k) {id i : Nat} {next : Dict} {y : Sent × Lifecycle}
    (hi : s.service.server.works[i]? = some (.request (transitionRequest k id next)))
    (hy : (s.service.postedBy i).head? = some y) (hn : 2 ≤ k.host.nesting) :
    ∃ answer, decodeMessage k.host y.1.bytes = .ok (.response ⟨.int id, answer⟩) ∧
      s.Settled k id next answer := by
  obtain ⟨hposted, hjob⟩ := List.mem_filter.1 (List.mem_of_mem_head? hy)
  have hjob : y.1.job = i := of_decide_eq_true hjob
  have hframe : y.1 ∈ s.service.server.frames :=
    h.accounted.posted ▸ List.mem_map_of_mem hposted
  obtain ⟨w, -, -, -, hb⟩ := h.accounted.orderly.frames y.1 hframe
  have hlt : i < s.service.server.jobs.length := by
    rw [← Server.length_works]
    exact (List.getElem?_eq_some_iff.1 hi).1
  obtain ⟨old, hold⟩ : ∃ old, s.service.found[i]? = some old :=
    ⟨_, List.getElem?_eq_getElem (h.accounted.found ▸ hlt)⟩
  obtain ⟨p, hp⟩ : ∃ p, s.service.server.pc i = some p := by
    unfold Server.pc
    rw [List.getElem?_eq_getElem hlt]
    exact ⟨_, rfl⟩
  have hid := h.accounted.identifies _ (List.mem_of_getElem? hi)
  have hdecodes := decodes_transition (r := transitionRequest k id next) rfl hid hb hn
  cases h.accounted.accounts i _ old p hi rfl hold hp with
  | unmoved hunmoved hl =>
    have hmem : y ∈ s.service.postedBy i := List.mem_of_mem_head? hy
    obtain ⟨e, he⟩ := hdecodes.1 (hunmoved.posted y hmem)
    refine ⟨.error e, he, .refused e ?_⟩
    intro turn hturn r hr hrid
    have hsame : turn.job = i := h.distinct hr hi hrid
    apply hunmoved.turns turn
    exact List.mem_filter.2 ⟨hturn, decide_eq_true hsame⟩
  | decided next' o hdecided hl =>
    obtain ⟨hdata, hagree⟩ := hdecided.first y hy
    obtain rfl : next' = imageEntries k.child.py.floatOf [] next := by
      have hconfig := hdecided.config
      cases hconfig
      rfl
    refine ⟨.result o.toDict, hdecodes.2 o hdata, .decided o old y.2 ?_ hdecided.fresh hagree⟩
    refine ⟨i, y.1.bytes, hi, hold, ?_⟩
    rw [← hdata, ← hjob]
    exact hposted

/-- The response to a config transition tells what the service did. -/
theorem settled (h : s.Linked k) {id : Nat} {next : Dict} {x : JsonRpcResponse}
    (hw : Client.transitionFrame id next ∈ s.client.desk.written)
    (hx : Client.First s.client.desk.responses id x)
    (ha : (∃ d, x.answer = .result (.dict d)) ∨ ∃ e, x.answer = .error e) :
    s.Settled k id next x.answer := by
  obtain ⟨before, f, after, hframes, hf, hbefore⟩ := h.first_frame hx
  have hid : x.id = .int id := by
    obtain ⟨pre, post, -, hid, -⟩ := hx
    exact hid
  have hmem : f ∈ s.service.server.frames := by
    rw [hframes]
    exact List.mem_append_right _ List.mem_cons_self
  rcases h.frame_response hmem hf with hnone | ⟨r, hi, hxid⟩
  · rw [hid] at hnone
    cases hnone
  · obtain rfl := h.request_of_frame hw hi (hxid.symm.trans hid)
    have hn : 2 ≤ k.host.nesting := by
      obtain ⟨w, hw', -, hanswers, hb⟩ := h.accounted.orderly.frames f hmem
      obtain rfl := Option.some.inj (hw'.symm.trans hi)
      obtain ⟨answer, hdata⟩ := hanswers
      rw [hdata] at hb
      exact nesting_of_answer (h.accounted.identifies _ (List.mem_of_getElem? hi)) hb hf ha
    have hhead := head_posted h.accounted.posted f.job
    have hown : (f :: after).find? (fun g => g.job = f.job) = some f :=
      List.find?_cons_of_pos (decide_eq_true rfl)
    rw [hframes, List.find?_append, hown] at hhead
    cases hfind : before.find? (fun g => g.job = f.job) with
    | none =>
      rw [hfind] at hhead
      obtain ⟨y, hy, rfl⟩ := Option.map_eq_some_iff.1 hhead
      obtain ⟨answer, hanswer, hsettled⟩ := h.first_settled hi hy hn
      rw [hf] at hanswer
      cases hanswer
      exact hsettled
    | some g =>
      rw [hfind] at hhead
      obtain ⟨y, hy, rfl⟩ := Option.map_eq_some_iff.1 hhead
      obtain ⟨answer, hanswer, -⟩ := h.first_settled hi hy hn
      exact absurd rfl (hbefore y.1 (List.mem_of_find?_eq_some hfind) _ hanswer)

/-- A response with an action tells what the service did. -/
theorem agreed (h : s.Linked k) {t : Client.Tid} {v : Value} {d : Dict}
    (hop : (s.client.calls t).op = .prepareConfigTransition v)
    (hreplied : Client.State.Replied s.client.desk.responses (s.client.calls t)
      (.result (.dict d))) :
    ∃ next id o, v = .dict next ∧ (s.client.calls t).id = some id ∧
      Transition.fromDict d = .ok o ∧ s.Agreed k id next o := by
  obtain ⟨id, x, hid, hx, ha⟩ := hreplied
  obtain ⟨next, rfl, hw⟩ := h.told.leased.announced t v id hop hid
  have hsettled := h.settled hw hx (.inl ⟨d, ha⟩)
  rw [ha] at hsettled
  generalize hanswer : Answer.result (.dict d) = answer at hsettled
  cases hsettled with
  | refused e hspared => cases hanswer
  | decided o old now hreplies hfresh hagree =>
    injection hanswer with hd
    refine ⟨next, id, o, rfl, hid, fromDict_toDict hd.symm, ?_⟩
    refine ⟨old, now, hreplies, ?_⟩
    cases o with
    | applied =>
      have himage : image k.child.py.floatOf (.dict next) =
          .dict (imageEntries k.child.py.floatOf [] next) := by
        simp only [image]
      exact ⟨(congrArg Value.dict hagree.hostConfig).trans himage.symm,
        hagree.restartRequired.trans hfresh⟩
    | restart =>
      obtain ⟨i, bytes, -, -, hposted⟩ := hreplies
      have hfenced := h.fenced _ hposted hagree.restartRequired
      refine ⟨hagree.hostConfig, hagree.restartRequired, hfenced.restartRequired, ?_⟩
      rw [← show now.hostConfig = old.hostConfig from hagree.hostConfig]
      exact hfenced.hostConfig

/-- An error response tells that the service did nothing. -/
theorem spared (h : s.Linked k) {t : Client.Tid} {v : Value} {e : JsonRpcError} {id : Nat}
    (hop : (s.client.calls t).op = .prepareConfigTransition v)
    (hreplied : Client.State.Replied s.client.desk.responses (s.client.calls t) (.error e))
    (hid : (s.client.calls t).id = some id) : s.Spared id := by
  obtain ⟨id', x, hid', hx, ha⟩ := hreplied
  obtain rfl := Option.some.inj (hid.symm.trans hid')
  obtain ⟨next, -, hw⟩ := h.told.leased.announced t v id hop hid
  have hsettled := h.settled hw hx (.inr ⟨e, ha⟩)
  rw [ha] at hsettled
  cases hsettled with
  | refused e hspared => exact hspared

end Session.Linked

/-- A step of a session, seen from its client. -/
theorem step_client {a : Action} (h : step k s a = some s') :
    s'.client = s.client ∨ ∃ b, Client.step k.host k.hostVersion s.client b = some s'.client := by
  cases a with
  | client a =>
    simp only [step] at h
    split at h
    · cases h
    · obtain ⟨c, hc, rfl⟩ := Option.map_eq_some_iff.1 h
      exact .inr ⟨a, hc⟩
  | service a =>
    simp only [step] at h
    split at h
    · cases h
    · obtain ⟨l, -, rfl⟩ := Option.map_eq_some_iff.1 h
      exact .inl rfl
  | takes =>
    simp only [step] at h
    split at h
    · cases h
    · obtain ⟨l, -, rfl⟩ := Option.map_eq_some_iff.1 h
      exact .inl rfl
  | reads =>
    simp only [step] at h
    split at h
    · cases h
    · rename_i f hf
      obtain ⟨c, hc, rfl⟩ := Option.map_eq_some_iff.1 h
      exact .inr ⟨_, hc⟩

/-- A call that has ended stays, and so do the responses. -/
theorem step_finished {a : Action} {t : Client.Tid} {r : Except Client.Raised Value}
    (hl : s.Linked k) (hr : (s.client.calls t).pc = .finished r) (h : step k s a = some s') :
    s'.client.calls t = s.client.calls t ∧
      ∃ new, s'.client.desk.responses = s.client.desk.responses ++ new := by
  rcases step_client h with hc | ⟨b, hb⟩
  · rw [hc]
    exact ⟨rfl, [], (List.append_nil _).symm⟩
  · exact ⟨Client.finished_same hl.told.tabled hr hb, Client.step_responses hl.told.tabled hb⟩

theorem run_finished (as : List Action) {t : Client.Tid} {r : Except Client.Raised Value}
    (hl : s.Linked k) (hr : (s.client.calls t).pc = .finished r)
    (hrun : (session k).runFrom s as = some s') :
    s'.Linked k ∧ s'.client.calls t = s.client.calls t ∧
      ∃ new, s'.client.desk.responses = s.client.desk.responses ++ new := by
  induction as generalizing s with
  | nil =>
    cases hrun
    exact ⟨hl, rfl, [], (List.append_nil _).symm⟩
  | cons a as ih =>
    simp only [Machine.runFrom] at hrun
    split at hrun
    · rename_i s₁ h₁
      obtain ⟨hsame, new, hnew⟩ := step_finished hl hr h₁
      have hr₁ : (s₁.client.calls t).pc = .finished r := by
        rw [hsame]
        exact hr
      obtain ⟨hl', hsame', new', hnew'⟩ := ih (hl.step h₁) hr₁ hrun
      refine ⟨hl', hsame'.trans hsame, new ++ new', ?_⟩
      rw [hnew', hnew, List.append_assoc]
    · cases hrun

/-- A config transition that raises without a fence changes nothing of the service, then or later. -/
theorem raised_spared {a : Action} {t : Client.Tid} {v : Value} {e : Client.Raised}
    (hl : s.Linked k) (h : step k s a = some s')
    (hopen : ∀ r, (s.client.calls t).pc ≠ .finished r)
    (hop : (s'.client.calls t).op = .prepareConfigTransition v)
    (hpc : (s'.client.calls t).pc = .finished (.error e))
    (hcalm : s'.client.restartRequired = s.client.restartRequired) (as : List Action)
    {s'' : Session} (hrun : (session k).runFrom s' as = some s'') {id : Nat}
    (hid : (s''.client.calls t).id = some id) : s''.Spared id := by
  have hl' := hl.step h
  obtain ⟨b, hb⟩ : ∃ b, Client.step k.host k.hostVersion s.client b = some s'.client := by
    rcases step_client h with hc | hb
    · rw [hc] at hpc
      exact absurd hpc (hopen _)
    · exact hb
  have hends := Client.transition_ends hl.told.tabled hl.told.leased hl.told.heard hb hop hpc hopen
  obtain ⟨new, hnew⟩ := Client.step_responses hl.told.tabled hb
  obtain ⟨hl'', hsame, new', hnew'⟩ := run_finished as hl' hpc hrun
  have hop'' : (s''.client.calls t).op = .prepareConfigTransition v := by
    rw [hsame]
    exact hop
  have hheard : ∀ answer, Client.State.Replied s.client.desk.responses (s'.client.calls t) answer →
      Client.State.Replied s''.client.desk.responses (s''.client.calls t) answer := by
    intro answer hreplied
    rw [hnew', hnew, hsame]
    exact Client.Replied.append (Client.Replied.append hreplied new) new'
  rcases hends.raises e rfl hcalm with hunsent | ⟨failure, hreplied⟩ | ⟨d, hreplied, hunhashable⟩
  · rw [hsame, hunsent] at hid
    cases hid
  · exact hl''.spared hop'' (hheard _ hreplied) hid
  · obtain ⟨next, id', o, -, -, ho, -⟩ := hl''.agreed hop'' (hheard _ hreplied)
    rw [ho] at hunhashable
    cases hunhashable

/-- Host and child agree on a config transition. A call that returns tells what the service replied,
and the turns of the request of a call that raises without a fence change neither the config nor the
fence of the service, in every later state. -/
theorem host_child_agree (h : (session k).Reachable s) :
    (∀ t v w, (s.client.calls t).op = .prepareConfigTransition v →
      (s.client.calls t).pc = .finished (.ok w) →
      ∃ next id o, v = .dict next ∧ (s.client.calls t).id = some id ∧ w = o.toDict ∧
        s.Agreed k id next o) ∧
    ∀ a s', (session k).step s a = some s' → ∀ t v e,
      (∀ r, (s.client.calls t).pc ≠ .finished r) →
      (s'.client.calls t).op = .prepareConfigTransition v →
      (s'.client.calls t).pc = .finished (.error e) →
      s'.client.restartRequired = s.client.restartRequired →
      ∀ as s'', (session k).runFrom s' as = some s'' →
        ∀ id, (s''.client.calls t).id = some id → s''.Spared id := by
  have hl := session_linked h
  constructor
  · intro t v w hop hpc
    obtain ⟨d, o, hreplied, ho, hw⟩ := hl.told.returned t v w hop hpc
    obtain ⟨next, id, o', hv, hid, ho', hagreed⟩ := hl.agreed hop hreplied
    obtain rfl : o = o' := by
      rw [ho] at ho'
      cases ho'
      rfl
    exact ⟨next, id, o, hv, hid, hw, hagreed⟩
  · intro a s' hs t v e hopen hop hpc hcalm as s'' hrun id hid
    exact raised_spared hl hs hopen hop hpc hcalm as hrun hid

/-- A session whose service has taken a request. -/
def Session.take (k : Peers) (s : Session) (r : JsonRpcRequest) : Session :=
  let server := s.service.server.accept k.child r
  { s with
    service :=
      { server
        found := s.service.found ++ [s.service.server.life]
        posted := s.service.posted ++
          (server.frames.drop s.service.server.frames.length).map fun f => (f, server.life)
        turns := s.service.turns ++
          [⟨s.service.server.jobs.length, s.service.server.life, server.life⟩] }
    taken := s.taken + 1 }

/-- A session whose client has read a response. -/
def Session.hear (s : Session) (x : JsonRpcResponse) : Session :=
  { s with client := s.client.setEngine (s.client.readMessage (.response x)), read := s.read + 1 }

theorem step_takes {f : Client.Frame} {b : Bytes} {r : JsonRpcRequest}
    (hf : s.client.desk.written[s.taken]? = some f) (hloop : s.service.server.loop = .reading)
    (hb : encodeMessage k.host (JsonRpcRequest.toDict ⟨f.method, f.params, .int f.id⟩) = .ok b)
    (hdeep : depth (JsonRpcRequest.toDict ⟨f.method, f.params, .int f.id⟩) ≤ k.child.py.nesting)
    (hr : parseMessage (image k.child.py.floatOf
      (JsonRpcRequest.toDict ⟨f.method, f.params, .int f.id⟩)) = .ok (.request r)) :
    (session k).step s .takes = some (s.take k r) := by
  have hbytes : frameBytes k.host f = some b := by
    unfold frameBytes
    rw [hb]
    rfl
  have hd : decodeMessage k.child.py b = .ok (.request r) := by
    rw [decodeMessage_encodeMessage hb, if_pos hdeep]
    exact hr
  have hbrings : brings k.child s.service.server (.line b) = [.request r] := by
    simp only [brings, ne_nil_of_decodeMessage hd, if_false, hd]
  have hactor : actor k.child s.service.server (.line b) = some s.service.server.jobs.length := by
    simp only [actor, hbrings]
  have hstep : (service k.child k.raised k.childVersion).step s.service.server (.line b) =
      some (s.service.server.accept k.child r) := step_request hloop hd
  simp only [service] at hstep
  simp only [session, step, hf, Option.bind_some, hbytes, Ledger.step, hstep, Option.map_some,
    hbrings, hactor]
  rfl

theorem step_reads {data : Value} {x : JsonRpcResponse} (hl : s.Linked k)
    (hf : (s.service.server.frames[s.read]?).map Sent.data = some data)
    (hread : s.client.mail.read = .reading) (hd : depth data ≤ k.host.nesting)
    (hx : parseMessage (image k.host.floatOf data) = .ok (.response x)) :
    (session k).step s .reads = some (s.hear x) := by
  obtain ⟨f, hsent, rfl⟩ := Option.map_eq_some_iff.1 hf
  obtain ⟨w, -, -, -, hb⟩ := hl.accounted.orderly.frames f (List.mem_of_getElem? hsent)
  have hstep : (Client.machine k.host k.hostVersion).step s.client (.signal (.line f.bytes)) =
      some (s.client.setEngine (s.client.readMessage (.response x))) :=
    Client.step_line hread hb hd hx
  simp only [Client.machine] at hstep
  simp only [session, step, hsent, hstep, Option.map_some]
  rfl

/-- Two interpreters at one protocol version. -/
def samplePeers : Peers := ⟨.floatless, [], sampleRuntime, fun _ => .cancelled, []⟩

def sampleConfig : Dict := [(.str (str "retries"), .int 3)]

/-- What the service answers an `initialize`. -/
def greeting : Value :=
  .dict [(.str (str "protocolVersion"), .str []),
    (.str (str "capabilities"), .dict
      [(.str CONFIG_TRANSITION_CAPABILITY, ConfigTransitionCapabilities.toDict ⟨true⟩)])]

/-- A session whose client has written its `initialize`. -/
def opened : Session :=
  (session samplePeers).after [.client (.call 0 (.initializeCall none none) true),
    .client (.signal .begin), .client (.resume 0 true),
    .service (.registers { transitions := some ⟨true⟩ }), .service .serve]

def initializeRequest : JsonRpcRequest :=
  ⟨INITIALIZE, Client.State.initializeParams [] none none, .int 1⟩

/-- A session whose service has answered it. -/
def greeted : Option Session :=
  (session samplePeers).runFrom (opened.take samplePeers initializeRequest)
    [.service (.hook 0 (.value greeting)), .service (.drained 0 none)]

/-- A session whose client has written a config transition. -/
def proposed : Option Session :=
  greeted.bind fun s => (session samplePeers).runFrom (s.hear ⟨.int 1, .result greeting⟩)
    [.client (.resume 0 true), .client (.call 1 (.prepareConfigTransition (.dict sampleConfig)) true),
      .client (.resume 1 true)]

/-- A session whose service has applied it. -/
def applied : Option Session :=
  proposed.bind fun s => (session samplePeers).runFrom
    (s.take samplePeers (transitionRequest samplePeers 2 sampleConfig))
    [.service (.hook 1 (.transition .applied 0)), .service (.drained 1 none)]

/-- A session whose client has returned. -/
def concluded : Option Session :=
  applied.bind fun s => (session samplePeers).runFrom
    (s.hear ⟨.int 2, .result Transition.applied.toDict⟩) [.client (.resume 1 true)]

theorem greeted_reachable (h : greeted = some s) : (session samplePeers).Reachable s := by
  obtain ⟨b, hb⟩ : ∃ b, encodeMessage samplePeers.host initializeRequest.toDict = .ok b := ⟨_, rfl⟩
  have hopened : (session samplePeers).Reachable opened := Machine.reachable_after rfl
  have hstep : (session samplePeers).step opened .takes =
      some (opened.take samplePeers initializeRequest) :=
    step_takes (f := ⟨1, INITIALIZE, initializeRequest.params⟩) rfl rfl hb (by decide) rfl
  exact (hopened.step hstep).run h

theorem proposed_reachable (h : proposed = some s) : (session samplePeers).Reachable s := by
  obtain ⟨s₀, hs₀, hrun⟩ := Option.bind_eq_some_iff.1 h
  have hf : (greeted.bind fun s => (s.service.server.frames[s.read]?).map Sent.data) =
      some (JsonRpcResponse.toDict ⟨.int 1, .result greeting⟩) := rfl
  have hread : (greeted.map fun s => s.client.mail.read) = some .reading := rfl
  simp only [hs₀, Option.bind_some, Option.map_some, Option.some.injEq] at hf hread
  have hreach := greeted_reachable hs₀
  have hstep := step_reads (session_linked hreach) hf hread (by decide)
    (x := ⟨.int 1, .result greeting⟩) rfl
  exact (hreach.step hstep).run hrun

theorem applied_reachable (h : applied = some s) : (session samplePeers).Reachable s := by
  obtain ⟨s₀, hs₀, hrun⟩ := Option.bind_eq_some_iff.1 h
  obtain ⟨b, hb⟩ : ∃ b, encodeMessage samplePeers.host (JsonRpcRequest.toDict
      ⟨CONFIG_TRANSITION, [(.str (str "config"), .dict sampleConfig)], .int (2 : Nat)⟩) = .ok b :=
    ⟨_, rfl⟩
  have hf : (proposed.bind fun s => s.client.desk.written[s.taken]?) =
      some (Client.transitionFrame 2 sampleConfig) := rfl
  have hloop : (proposed.map fun s => s.service.server.loop) = some .reading := rfl
  simp only [hs₀, Option.bind_some, Option.map_some, Option.some.injEq] at hf hloop
  have hreach := proposed_reachable hs₀
  have hstep := step_takes (k := samplePeers) hf hloop hb (by decide)
    (r := transitionRequest samplePeers 2 sampleConfig) rfl
  exact (hreach.step hstep).run hrun

theorem concluded_reachable (h : concluded = some s) : (session samplePeers).Reachable s := by
  obtain ⟨s₀, hs₀, hrun⟩ := Option.bind_eq_some_iff.1 h
  have hf : (applied.bind fun s => (s.service.server.frames[s.read]?).map Sent.data) =
      some (JsonRpcResponse.toDict ⟨.int 2, .result Transition.applied.toDict⟩) := rfl
  have hread : (applied.map fun s => s.client.mail.read) = some .reading := rfl
  simp only [hs₀, Option.bind_some, Option.map_some, Option.some.injEq] at hf hread
  have hreach := applied_reachable hs₀
  have hstep := step_reads (session_linked hreach) hf hread (by decide)
    (x := ⟨.int 2, .result Transition.applied.toDict⟩) rfl
  exact (hreach.step hstep).run hrun

/-- The host holds a config applied, and it stood as the service replied. -/
theorem host_child_agree_applied :
    ∃ s, concluded = some s ∧ (session samplePeers).Reachable s ∧
      ∃ old now, s.Replies samplePeers 2 sampleConfig .applied old now ∧
        now.hostConfig = sampleConfig ∧ now.restartRequired = false := by
  obtain ⟨s, hs⟩ : ∃ s, concluded = some s := ⟨_, rfl⟩
  have hop : (concluded.map fun s => (s.client.calls 1).op) =
      some (.prepareConfigTransition (.dict sampleConfig)) := rfl
  have hpc : (concluded.map fun s => (s.client.calls 1).pc) =
      some (.finished (.ok Transition.applied.toDict)) := rfl
  have hid : (concluded.map fun s => (s.client.calls 1).id) = some (some 2) := rfl
  simp only [hs, Option.map_some, Option.some.injEq] at hop hpc hid
  have hreach := concluded_reachable hs
  obtain ⟨next, id, o, hnext, hid', ho, old, now, hreplies, hagreed⟩ :=
    (host_child_agree hreach).1 1 _ _ hop hpc
  obtain rfl : next = sampleConfig := (Value.dict.inj hnext).symm
  obtain rfl : id = 2 := Option.some.inj (hid'.symm.trans hid)
  obtain rfl : o = .applied := (toDict_injective ho).symm
  exact ⟨s, hs, hreach, old, now, hreplies, Value.dict.inj hagreed.1, hagreed.2⟩

end KestrelSdk.Link
