import KestrelSdk.Link.Calls
import KestrelSdk.Service.Emissions

/-! What the handlers of a host hear of the events of its child. -/

namespace KestrelSdk.Link

open Json Protocol Asyncio Service

variable {k : Peers} {s s' : Session}

/-- The parameters of a feature event, as the read loop takes them. -/
def eventOf : Except DecodeError JsonRpcMessage → Option Dict
  | .ok (.notification n) => if n.method = FEATURE_EVENT then some n.params else none
  | _ => none

def Work.params? : Work → Option Dict
  | .event params => some params
  | _ => none

/-- The event that a frame carries to a host: its job, and the parameters that the host decodes. The
host decodes no frame that nests deeper than its interpreter allows. -/
def carried (host : Interpreter) (ws : List Work) (f : Sent) : Option (Nat × Dict) :=
  ((ws[f.job]?).bind Work.params?).bind fun params =>
    if depth (JsonRpcNotification.toDict ⟨FEATURE_EVENT, params⟩) ≤ host.nesting then
      some (f.job, imageEntries host.floatOf [] params)
    else none

/-- The events that a client has read. -/
def Session.relayed (k : Peers) (s : Session) : List (Nat × Dict) :=
  (s.service.server.frames.take s.read).filterMap (carried k.host s.service.server.works)

section Frames

variable {f : Str → PyFloat}

/-- A notification has a method. -/
theorem parse_notification_method {d : Dict} {n : JsonRpcNotification}
    (h : parseMessage (.dict d) = .ok (.notification n)) : d.get (str "method") ≠ none := by
  intro hm
  simp only [parseMessage, Dict.has, hm, Option.isSome_none, Bool.false_eq_true, if_false] at h
  split at h
  · split at h
    · split at h
      · cases h
      · split at h
        · obtain ⟨_, -, h⟩ := Checks.bind_ok_iff.1 h
          obtain ⟨_, -, h⟩ := Checks.bind_ok_iff.1 h
          obtain ⟨_, -, h⟩ := Checks.bind_ok_iff.1 h
          cases h
        · cases h
        · split at h
          · cases h
          · obtain ⟨_, -, h⟩ := Checks.bind_ok_iff.1 h
            cases h
    · cases h
  · cases h

/-- A response is no notification. -/
theorem response_no_notification {r : JsonRpcResponse} {n : JsonRpcNotification} :
    parseMessage (image f r.toDict) ≠ .ok (.notification n) := by
  intro h
  unfold JsonRpcResponse.toDict at h
  cases ha : r.answer with
  | error e =>
    simp only [ha] at h
    rw [image_fields f ["jsonrpc", "id", "error"] rfl (by decide)] at h
    refine parse_notification_method h ?_
    simp only [List.map_cons, List.map_nil]
    rw [get_field (by decide), get_field (by decide), get_field (by decide)]
    rfl
  | result v =>
    simp only [ha] at h
    rw [image_fields f ["jsonrpc", "id", "result"] rfl (by decide)] at h
    refine parse_notification_method h ?_
    simp only [List.map_cons, List.map_nil]
    rw [get_field (by decide), get_field (by decide), get_field (by decide)]
    rfl

/-- An event is decoded as itself. -/
theorem parse_event (f : Str → PyFloat) (params : Dict) :
    parseMessage (image f (JsonRpcNotification.toDict ⟨FEATURE_EVENT, params⟩)) =
      .ok (.notification ⟨FEATURE_EVENT, imageEntries f [] params⟩) := by
  have hversion : imageStr JSONRPC_VERSION = JSONRPC_VERSION := by decide
  have hm : imageStr FEATURE_EVENT = FEATURE_EVENT := by decide
  have hne : FEATURE_EVENT ≠ [] := by decide
  rw [image_notificationDict]
  simp only [List.cons_append, List.nil_append, image, hversion, hm]
  have hid : Dict.get ((.str (str "jsonrpc"), .str JSONRPC_VERSION) ::
      (.str (str "method"), .str FEATURE_EVENT) :: if params.isEmpty then [] else
        [(.str (str "params"), .dict (imageEntries f [] params))]) (str "id") = none := by
    rw [get_field (by decide), get_field (by decide)]
    split
    · rfl
    · rw [get_field (by decide)]
      rfl
  rw [parse_method FEATURE_EVENT (imageEntries f [] params) (get_field_self _ _ _) ?_ hne ?_, hid]
  · rw [get_field (by decide), get_field_self]
  · rw [get_field (by decide), get_field (by decide)]
    exact read_image f params

/-- What a host takes from a frame of its child. -/
theorem eventOf_frame {rt : Runtime} {host : Interpreter} {ws : List Work} {g : Sent} {w : Work}
    (hw : ws[g.job]? = some w) (hg : g.Of rt g.job w) :
    eventOf (decodeMessage host g.bytes) = (carried host ws g).map Prod.snd := by
  obtain ⟨-, hanswers, hb⟩ := hg
  rw [decodeMessage_encodeMessage hb]
  unfold carried
  rw [hw, Option.bind_some]
  have hresponse : ∀ (r : JsonRpcResponse), g.data = r.toDict → Work.params? w = none →
      eventOf (if depth g.data ≤ host.nesting then parseMessage (image host.floatOf g.data)
        else .error .recursion) = ((Work.params? w).bind fun params =>
          if depth (JsonRpcNotification.toDict ⟨FEATURE_EVENT, params⟩) ≤ host.nesting then
            some (g.job, imageEntries host.floatOf [] params)
          else none).map Prod.snd := by
    intro r hr hnone
    rw [hnone]
    split
    · cases hp : parseMessage (image host.floatOf g.data) with
      | error e => rfl
      | ok m =>
        cases m with
        | notification n =>
          rw [hr] at hp
          exact absurd hp response_no_notification
        | _ => rfl
    · rfl
  cases w with
  | request r =>
    obtain ⟨answer, hdata⟩ := hanswers
    exact hresponse _ hdata rfl
  | malformed text => exact hresponse _ hanswers rfl
  | event params =>
    have hdata : g.data = JsonRpcNotification.toDict ⟨FEATURE_EVENT, params⟩ := hanswers
    rw [hdata, parse_event]
    simp only [Work.params?, Option.bind_some]
    split
    · rfl
    · rfl

end Frames

section Client

variable {py : Interpreter} {p : Str} {c c' : Client.State} {a : Client.Action}

/-- A signal that is no line leaves the stream of events alone. -/
theorem step_stream {shut : Bool} {g : Client.Signal} {e e' : Client.Engine}
    (hg : ∀ b, g ≠ .line b) (h : e.step py shut g = some e') : e'.mail.stream = e.mail.stream := by
  have hclose : ∀ (e₀ : Client.Engine) read, (e₀.closeEnter read).mail.stream = e₀.mail.stream := by
    intro e₀ read
    unfold Client.Engine.closeEnter
    split
    · rfl
    · rfl
  cases Client.Engine.step_move h with
  | idle he => exact he ▸ rfl
  | registers _ he =>
    subst he
    exact (Client.Mail.onEvent_frame e.mail).2.2.1
  | beginsRead _ _ he => exact he ▸ rfl
  | beginsDrain drain _ _ he =>
    subst he
    dsimp only
    split
    · rfl
    · exact (Client.Mail.enter_only e.mail (.drain drain) none).stream
  | beginsClose l _ he =>
    subst he
    unfold Client.Engine.closeBegin
    dsimp only
    split
    · exact hclose _ false
    · rfl
  | answers _ _ _ _ _ he => exact he ▸ rfl
  | receives b _ hline => exact absurd hline (hg b)
  | readEnds _ _ he =>
    subst he
    exact (Client.Mail.stop_only e.mail .read).stream
  | drainEnds drain _ _ he =>
    subst he
    exact (Client.Mail.stop_only e.mail (.drain drain)).stream
  | works w m hm he =>
    subst he
    exact (Client.Mail.works_only hm).2.stream
  | gathers read _ _ _ _ he =>
    rw [he]
    exact hclose e read
  | clears _ _ _ he => exact he ▸ rfl
  | closes _ _ he => exact he ▸ rfl

/-- A client hears events in lines only. -/
theorem stream_local (hc : c.Tabled) (ha : clientReads a = false)
    (h : Client.step py p c a = some c') : c'.mail.stream = c.mail.stream := by
  rcases Client.step_cases h hc with ⟨t, -, hcalled⟩ | ⟨g, e, rfl, he, rfl⟩
  · obtain ⟨d, he | ⟨-, he⟩ | ⟨-, he⟩⟩ := hcalled.move.engine
    · rw [he]
    · rw [he]
      unfold Client.Engine.createCloseTask
      split
      · rfl
      · rfl
    · rw [he]
      show c.createReadTask.mail.stream = _
      unfold Client.Engine.createReadTask
      split
      · rfl
      · rfl
  · refine step_stream ?_ he
    rintro b rfl
    cases ha

/-- A line adds the event that it holds. -/
theorem line_streams {b : Bytes} (h : Client.step py p c (.signal (.line b)) = some c') :
    c'.mail.stream.map Client.Event.params =
      c.mail.stream.map Client.Event.params ++ (eventOf (decodeMessage py b)).toList := by
  obtain ⟨e, he, rfl⟩ := Option.map_eq_some_iff.1 h
  simp only [Client.Engine.step] at he
  split at he
  · cases he
    show (c.toEngine.readLine py b).mail.stream.map Client.Event.params = _
    unfold Client.Engine.readLine
    have hstop : ∀ x, (c.toEngine.endRead x).mail.stream = c.mail.stream :=
      fun x => (Client.Mail.stop_only c.mail .read).stream
    cases hd : decodeMessage py b with
    | error e =>
      cases e with
      | protocol text =>
        simp only [hstop, eventOf, Option.toList_none, List.append_nil]
      | _ => simp only [hstop, eventOf, Option.toList_none, List.append_nil]
    | ok m =>
      cases m with
      | response r => exact (List.append_nil _).symm
      | request r => exact (List.append_nil _).symm
      | notification n =>
        simp only [Client.Engine.readMessage, eventOf]
        split
        · show (c.mail.receive n.params).stream.map Client.Event.params = _
          rw [(Client.Mail.receive_only c.mail n.params).stream, List.map_append]
          rfl
        · exact (List.append_nil _).symm
  · cases he

end Client

theorem carried_some {host : Interpreter} {ws : List Work} {f : Sent} {x : Nat × Dict}
    (h : carried host ws f = some x) :
    x.1 = f.job ∧ ∃ params, ws[x.1]? = some (.event params) ∧
      x.2 = imageEntries host.floatOf [] params := by
  obtain ⟨params, hparams, hx⟩ := Option.bind_eq_some_iff.1 h
  obtain ⟨w, hw, hevent⟩ := Option.bind_eq_some_iff.1 hparams
  split at hx
  · cases hx
    cases w with
    | event params' =>
      cases hevent
      exact ⟨rfl, params, hw, rfl⟩
    | _ => cases hevent
  · cases hx

/-- The jobs of a service that come later change nothing of its frames. -/
theorem carried_append {rt : Runtime} {host : Interpreter} {server : Server} {new : List Work}
    {f : Sent} (ho : Orderly rt server) (hf : f ∈ server.frames) :
    carried host (server.works ++ new) f = carried host server.works f := by
  unfold carried
  rw [List.getElem?_append_left (ho.lt_of_frame hf)]

/-- What holds of the events of a session. -/
structure Session.Relays (k : Peers) (s : Session) : Prop where
  linked : s.Linked k
  sequenced : ∃ q, Sequenced s.service.server q
  ordered : s.client.Ordered
  inOrder : s.client.mail.InOrder
  stream : s.client.mail.stream.map Client.Event.params = (s.relayed k).map Prod.snd

namespace Session.Relays

/-- The service goes on. -/
theorem relayed_service (h : s.Relays k) {a : Service.Action} {l : Ledger}
    (hl : s.service.step k.child k.raised k.childVersion a = some l) (n : Nat) :
    Session.relayed k { s with service := l, taken := n } = s.relayed k := by
  obtain ⟨server, hserver, rfl⟩ := Option.map_eq_some_iff.1 hl
  have hi := step_interleaves hserver
  obtain ⟨new, hnew⟩ := hi.frames
  show (server.frames.take s.read).filterMap (carried k.host server.works) = _
  rw [hnew, List.take_append_of_le_length h.linked.read_le, hi.works]
  apply List.filterMap_congr
  intro f hf
  exact carried_append h.linked.accounted.orderly (List.mem_of_mem_take hf)

/-- The client reads a frame. -/
theorem relayed_reads (h : s.Relays k) {f : Sent} {c : Client.State}
    (hf : s.service.server.frames[s.read]? = some f)
    (hc : Client.step k.host k.hostVersion s.client (.signal (.line f.bytes)) = some c) :
    c.mail.stream.map Client.Event.params =
      (Session.relayed k { s with client := c, read := s.read + 1 }).map Prod.snd := by
  have hmem := List.mem_of_getElem? hf
  obtain ⟨w, hw, hof⟩ := h.linked.accounted.orderly.frames f hmem
  have hone : [f].filterMap (carried k.host s.service.server.works) =
      (carried k.host s.service.server.works f).toList := by
    simp only [List.filterMap_cons, List.filterMap_nil]
    cases carried k.host s.service.server.works f with
    | none => rfl
    | some x => rfl
  unfold Session.relayed
  rw [line_streams hc, h.stream, eventOf_frame hw hof, List.take_add_one, hf, Option.toList_some,
    List.filterMap_append, hone, List.map_append]
  congr 1
  cases carried k.host s.service.server.works f with
  | none => rfl
  | some x => rfl

theorem step {a : Action} (h : s.Relays k) (hs : Link.step k s a = some s') : s'.Relays k := by
  have hlinked := h.linked.step hs
  have hclient : s'.client.Ordered ∧ s'.client.mail.InOrder := by
    rcases step_answering h.linked hs with hc | ⟨b, hb⟩
    · rw [hc]
      exact ⟨h.ordered, h.inOrder⟩
    · obtain ⟨-, hb⟩ := Machine.restrict_step hb
      exact ⟨Client.step_ordered h.ordered hb, Client.step_inOrder h.ordered h.inOrder hb⟩
  have hserver : ∃ q, Sequenced s'.service.server q := by
    obtain ⟨q, hq⟩ := h.sequenced
    rcases step_served hs with ⟨hl, -⟩ | ⟨b, hb, -⟩
    · rw [hl]
      exact ⟨q, hq⟩
    · exact hq.step h.linked.accounted.orderly hb
  refine ⟨hlinked, hserver, hclient.1, hclient.2, ?_⟩
  cases a with
  | client a =>
    simp only [Link.step] at hs
    split at hs
    · cases hs
    · rename_i ha
      obtain ⟨c, hc, rfl⟩ := Option.map_eq_some_iff.1 hs
      show c.mail.stream.map Client.Event.params = (s.relayed k).map Prod.snd
      rw [stream_local h.ordered.tabled (Bool.eq_false_iff.2 ha) hc]
      exact h.stream
  | service a =>
    simp only [Link.step] at hs
    split at hs
    · cases hs
    · obtain ⟨l, hl, rfl⟩ := Option.map_eq_some_iff.1 hs
      have hsame := h.relayed_service hl s.taken
      rw [hsame]
      exact h.stream
  | takes =>
    simp only [Link.step] at hs
    split at hs
    · cases hs
    · obtain ⟨l, hl, rfl⟩ := Option.map_eq_some_iff.1 hs
      rw [h.relayed_service hl (s.taken + 1)]
      exact h.stream
  | reads =>
    simp only [Link.step] at hs
    split at hs
    · cases hs
    · rename_i f hf
      obtain ⟨c, hc, rfl⟩ := Option.map_eq_some_iff.1 hs
      exact h.relayed_reads hf hc

/-- The jobs of the events that a client has read. -/
theorem ascending (h : s.Relays k) : ((s.relayed k).map Prod.fst).Pairwise (· < ·) := by
  obtain ⟨q, hq⟩ := h.sequenced
  have hwire := List.pairwise_filter.1 hq.wire
  refine List.pairwise_map.2 (List.pairwise_filterMap.2 ?_)
  apply (hwire.sublist (List.take_sublist _ _)).imp
  intro f g hlt x hx y hy
  obtain ⟨hxjob, params, hxw, -⟩ := carried_some hx
  obtain ⟨hyjob, params', hyw, -⟩ := carried_some hy
  rw [hxjob, hyjob]
  rw [hxjob] at hxw
  rw [hyjob] at hyw
  apply hlt
  · unfold Server.emits
    rw [hxw]
    rfl
  · unfold Server.emits
    rw [hyw]
    rfl

end Session.Relays

end KestrelSdk.Link
