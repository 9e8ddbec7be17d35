import EmbedMq.Bus.Replies
import EmbedMq.Network.Provenance

/-!
# Agreement of request and reply

A requester matches replies by correlation id alone, every node uses the same ids, and
a provider may answer out of its cache. Still, if every node uses an id for one request
only, the value of a completed request is what a handler of the service has returned
for this request: a REPLY goes back to the endpoint that the REQUEST came from, and the
cache is keyed by requester and correlation id.

Again a BestEffort message that does not fit the header spoils the picture: its topic
may be taken for a REPLY that no handler has produced.
-/

namespace EmbedMq

namespace World

open MessageBus (Call Invokes Issues Responds)
open MessageCodec (DecodeResult EncodeArgs Encodable encode decode)

variable {ι : Type} [DecidableEq ι] {D : Deployment ι} {w : World ι}

/-- A handler was registered under a service and has then run for a request. -/
def Invoked (log : List (LogEntry ι)) (service payload : Bytes) (sourceId : UInt16)
    (corrId : UInt32) (response : Bytes) : Prop :=
  ∃ recent e older, log = recent ++ e :: older ∧ ∃ handler req,
    .handle handler req response ∈ e.effects ∧ req.topic = service ∧ req.payload = payload ∧
    req.sourceId = sourceId ∧ req.correlationId = corrId ∧
    ∃ registered ∈ older, registered.node = e.node ∧
      registered.call = .createReplier service handler

section Invoked

variable {log : List (LogEntry ι)} {service payload response : Bytes} {sourceId : UInt16}
  {corrId : UInt32}

omit [DecidableEq ι] in
theorem Invoked.append (h : Invoked log service payload sourceId corrId response)
    (more : List (LogEntry ι)) :
    Invoked (more ++ log) service payload sourceId corrId response := by
  obtain ⟨recent, e, older, rfl, hrest⟩ := h
  exact ⟨more ++ recent, e, older, (List.append_assoc _ _ _).symm, hrest⟩

theorem handler_registered (hw : (system D).Reachable w) {n : ι} {handler : Nat}
    (h : (w.nodes n).serviceHandlers.lookup service = some handler) :
    ∃ e ∈ w.log, e.node = n ∧ e.call = .createReplier service handler := by
  induction hw with
  | init hinit =>
      rw [hinit.1] at h
      cases h
  | @step s l _ _ ih =>
      change ((s.step l).nodes n).serviceHandlers.lookup service = some handler at h
      obtain ⟨rfl, hafter⟩ | ⟨_, hafter⟩ := step_node_cases (w := s) l n
      · rw [hafter] at h
        obtain hold | hcall := MessageBus.exec_serviceHandlers h
        · obtain ⟨e, hmem, hrest⟩ := ih hold
          exact ⟨e, List.mem_cons_of_mem _ hmem, hrest⟩
        · exact ⟨_, List.mem_cons_self, rfl, hcall⟩
      · rw [hafter] at h
        obtain ⟨e, hmem, hrest⟩ := ih h
        exact ⟨e, List.mem_cons_of_mem _ hmem, hrest⟩

/-- A call that runs a handler, with the log before it. -/
theorem invoked_of_invokes (hw : (system D).Reachable w) {e : LogEntry ι}
    (h : Invokes (w.nodes e.node) e.effects service payload sourceId corrId response) :
    Invoked (e :: w.log) service payload sourceId corrId response := by
  obtain ⟨handler, req, hhandle, hlookup, htopic, hpayload, hsource, hcorr⟩ := h
  exact ⟨[], e, w.log, rfl, handler, req, hhandle, htopic, hpayload, hsource, hcorr,
    handler_registered hw hlookup⟩

end Invoked

/-! ### Requests -/

/-- A node has issued a request. -/
def Issued (log : List (LogEntry ι)) (node : ι) (service payload : Bytes) (corrId : UInt32) :
    Prop :=
  ∃ e ∈ log, e.node = node ∧ ∃ qos timeout,
    e.call = .sendRequest service payload qos corrId timeout

omit [DecidableEq ι] in
theorem Issued.mono {log more : List (LogEntry ι)} {node : ι} {service payload : Bytes}
    {corrId : UInt32} (h : Issued log node service payload corrId)
    (hsub : ∀ e ∈ log, e ∈ more) : Issued more node service payload corrId := by
  obtain ⟨e, hmem, hrest⟩ := h
  exact ⟨e, hsub e hmem, hrest⟩

/-- A pending request was issued, and is stored under its own id. -/
theorem pendingRequest_issued (hw : (system D).Reachable w) {n : ι} {key : UInt32}
    {pr : PendingRequest} (h : (w.nodes n).pendingRequests.lookup key = some pr) :
    pr.corrId = key ∧ Issued w.log n pr.service pr.payload key := by
  induction hw generalizing pr with
  | init hinit =>
      rw [hinit.1] at h
      cases h
  | @step s l _ _ ih =>
      have hsub : ∀ e ∈ s.log, e ∈ (s.step l).log := fun e hmem => List.mem_cons_of_mem _ hmem
      change ((s.step l).nodes n).pendingRequests.lookup key = some pr at h
      obtain ⟨rfl, hafter⟩ | ⟨_, hafter⟩ := step_node_cases (w := s) l n
      · rw [hafter] at h
        obtain ⟨old, hold, hservice, hpayload, hcorr, -⟩ |
          ⟨service, payload, qos, timeout, hcall, rfl⟩ := MessageBus.exec_pendingRequests h
        · rw [hservice, hpayload, hcorr]
          obtain ⟨hkey, hissued⟩ := ih hold
          exact ⟨hkey, hissued.mono hsub⟩
        · exact ⟨rfl, _, List.mem_cons_self, rfl, qos, timeout, hcall⟩
      · rw [hafter] at h
        obtain ⟨hkey, hissued⟩ := ih h
        exact ⟨hkey, hissued.mono hsub⟩

/-- A node has received a REQUEST frame. -/
structure RequestReceived (D : Deployment ι) (w : World ι) (node : ι) (source : Endpoint)
    (r : DecodeResult) : Prop where
  entry : ∃ e ∈ w.log, e.node = node ∧ ∃ data, e.call = .received source data ∧
    decode (D.sizeT node) data = r
  valid : r.valid = true
  type : MessageType.ofByte r.header.msgType = .request

omit [DecidableEq ι] in
theorem RequestReceived.mono {w' : World ι} {n : ι} {source : Endpoint} {r : DecodeResult}
    (h : RequestReceived D w n source r) (hsub : ∀ e ∈ w.log, e ∈ w'.log) :
    RequestReceived D w' n source r := by
  obtain ⟨⟨e, hmem, hrest⟩, hvalid, htype⟩ := h
  exact ⟨⟨e, hsub e hmem, hrest⟩, hvalid, htype⟩

section Received

variable (hw : (fitting D).Reachable w) {n : ι} {source : Endpoint} {r : DecodeResult}
include hw

/-- A REQUEST frame says what its node has issued. -/
theorem request_issued (h : RequestReceived D w n source r) :
    ∃ requester service, Issued w.log requester service r.payload r.header.correlationId ∧
      MessageBus.serviceName r.topic = service ∧ r.header.sourceId = D.nodeId requester ∧
      (D.owner source = some requester ∨ D.owner source = none) := by
  obtain ⟨⟨e, hmem, rfl, data, hcall, rfl⟩, hvalid, htype⟩ := h
  have hcontent : MessageBus.isAcknowledgement
      (MessageType.ofByte (decode (D.sizeT e.node) data).header.msgType) = false := by
    rw [htype]
    rfl
  obtain ⟨origin, horigin, number, dest, slices, a, stamp, hframe, hflatten, hdata, henc, hargs, _,
    hsource⟩ := received_data hw hmem hcall hvalid hcontent
  have hdecoded := MessageCodec.decode_encode henc stamp (D.sizeT e.node)
  have hrequest : a.type = .request := by
    rw [hdata, hdecoded] at htype
    exact (MessageCodec.encodedHeader_type a stamp).symm.trans htype
  have hsourceId : (decode (D.sizeT e.node) data).header.sourceId = D.nodeId origin.node := by
    rw [hdata, hdecoded]
    exact hargs.source
  obtain ⟨post, pre, hlog⟩ := List.append_of_mem horigin
  obtain ⟨before, hbefore, hpre, _, heffects⟩ := entry_before hw.of_restrict hlog
  have hsub : ∀ x ∈ pre, x ∈ w.log := by
    intro x hx
    rw [hlog]
    exact List.mem_append_right _ (List.mem_cons_of_mem _ hx)
  rw [heffects] at hframe
  have hexchange :=
    MessageBus.exec_exchanges origin.env (before.nodes origin.node) origin.call _ hframe
  obtain ⟨_, _, _, _, hpublish⟩ | ⟨_, _, hreceived, _⟩ | ⟨service, payload, corrId, hissues, b, qos,
    stamp', hbytes⟩ := hexchange
  · obtain htick | ⟨_, _, _, _, _, hsend⟩ := hargs.request hrequest
    · cases hpublish.symm.trans htick
    · cases hpublish.symm.trans hsend
  · obtain htick | ⟨_, _, _, _, _, hsend⟩ := hargs.request hrequest
    · cases hreceived.symm.trans htick
    · cases hreceived.symm.trans hsend
  · have hsame := hflatten.symm.trans hbytes
    rw [hsame] at hvalid
    have hbytesDecoded := MessageCodec.decode_encode (MessageCodec.encodable_of_valid hvalid) stamp'
      (D.sizeT e.node)
    refine ⟨origin.node, service, ?_, ?_, hsourceId, hsource⟩
    · rw [hsame, hbytesDecoded]
      cases hissues with
      | made hcall => exact ⟨origin, horigin, rfl, _, _, hcall⟩
      | pending _ hlookup hservice hpayload hcorr =>
          obtain ⟨hkey, hissued⟩ := pendingRequest_issued hbefore hlookup
          rw [hpre, hservice, hpayload, ← hkey, hcorr] at hissued
          exact hissued.mono hsub
    · rw [hsame, hbytesDecoded]
      exact MessageBus.serviceName_svcPrefix service

end Received

/-! ### Replies -/

/-- A cached reply is the response of a handler to a REQUEST with its key. -/
theorem cached_invoked (hw : (system D).Reachable w) {n : ι} {key : UInt64} {cached : CachedReply}
    (h : (w.nodes n).replyCache.lookup key = some cached) :
    ∃ source r, RequestReceived D w n source r ∧
      key = MessageBus.replyKey r.header.sourceId r.header.correlationId ∧
      Invoked w.log (MessageBus.serviceName r.topic) r.payload r.header.sourceId
        r.header.correlationId cached.response := by
  induction hw with
  | init hinit =>
      rw [hinit.1] at h
      cases h
  | @step s l hreach _ ih =>
      have hsub : ∀ e ∈ s.log, e ∈ (s.step l).log := fun e hmem => List.mem_cons_of_mem _ hmem
      change ((s.step l).nodes n).replyCache.lookup key = some cached at h
      have hold : (s.nodes n).replyCache.lookup key = some cached →
          ∃ source r, RequestReceived D (s.step l) n source r ∧
            key = MessageBus.replyKey r.header.sourceId r.header.correlationId ∧
            Invoked (s.step l).log (MessageBus.serviceName r.topic) r.payload r.header.sourceId
              r.header.correlationId cached.response := by
        intro hlookup
        obtain ⟨source, r, hreceived, hkey, hinvoked⟩ := ih hlookup
        exact ⟨source, r, hreceived.mono hsub, hkey, hinvoked.append [_]⟩
      obtain ⟨rfl, hafter⟩ | ⟨_, hafter⟩ := step_node_cases (w := s) l n
      · rw [hafter] at h
        obtain hlookup | ⟨source, data, r, hcall, hr, hvalid, htype, hkey, hinvokes⟩ :=
          MessageBus.exec_replyCache h
        · exact hold hlookup
        · rw [(reachable_node hreach l.node).2] at hr
          exact ⟨source, r, ⟨⟨_, List.mem_cons_self, rfl, data, hcall, hr⟩, hvalid, htype⟩, hkey,
            invoked_of_invokes hreach hinvokes⟩
      · rw [hafter] at h
        exact hold h

/-- A REPLY frame answers a REQUEST that came from its destination, with the response of a
handler to a REQUEST of the same node and id. -/
theorem reply_invoked (hw : (fitting D).Reachable w) {e : LogEntry ι} (hmem : e ∈ w.log)
    {source : Endpoint} {data : Bytes} {r : DecodeResult} (hcall : e.call = .received source data)
    (hr : decode (D.sizeT e.node) data = r) (hvalid : r.valid = true)
    (htype : MessageType.ofByte r.header.msgType = .reply) :
    ∃ provider dest asked origin served, RequestReceived D w provider dest asked ∧
      D.owner dest = some e.node ∧ RequestReceived D w provider origin served ∧
      asked.header.correlationId = r.header.correlationId ∧
      served.header.sourceId = asked.header.sourceId ∧
      served.header.correlationId = r.header.correlationId ∧
      Invoked w.log (MessageBus.serviceName served.topic) served.payload served.header.sourceId
        served.header.correlationId r.payload := by
  subst hr
  have hcontent : MessageBus.isAcknowledgement
      (MessageType.ofByte (decode (D.sizeT e.node) data).header.msgType) = false := by
    rw [htype]
    rfl
  obtain ⟨sent, hsent, number, dest, slices, a, stamp, hframe, hflatten, hdata, henc, hargs, howner,
    _⟩ := received_data hw hmem hcall hvalid hcontent
  have hreply : a.type = .reply := by
    rw [hdata, MessageCodec.decode_encode henc] at htype
    exact (MessageCodec.encodedHeader_type a stamp).symm.trans htype
  obtain ⟨_, _, hsentCall⟩ := hargs.reply hreply
  obtain ⟨post, pre, hlog⟩ := List.append_of_mem hsent
  obtain ⟨before, hbefore, rfl, _, heffects⟩ := entry_before hw.of_restrict hlog
  have hsub : ∀ x ∈ before.log, x ∈ w.log := by
    intro x hx
    rw [hlog]
    exact List.mem_append_right _ (List.mem_cons_of_mem _ hx)
  rw [heffects] at hframe
  have hexchange := MessageBus.exec_exchanges sent.env (before.nodes sent.node) sent.call _ hframe
  obtain ⟨_, _, _, _, hpublish⟩ | ⟨input, asked, hinput, hasked, haskedValid, haskedType, b,
    response, qos, stamp', hbytes, hresponds⟩ | ⟨_, _, _, hissues, _⟩ := hexchange
  · cases hpublish.symm.trans hsentCall
  · have hsame := hflatten.symm.trans hbytes
    rw [hsame] at hvalid ⊢
    rw [MessageCodec.decode_encode (MessageCodec.encodable_of_valid hvalid)]
    rw [(reachable_node hbefore sent.node).2] at hasked
    have hreceived : RequestReceived D w sent.node dest asked :=
      ⟨⟨sent, hsent, rfl, input, hinput, hasked⟩, haskedValid, haskedType⟩
    cases hresponds with
    | cached hlookup hresponse =>
        obtain ⟨origin, served, hserved, hkey, hinvoked⟩ := cached_invoked hbefore hlookup
        obtain ⟨hsource, hcorr⟩ := MessageBus.replyKey_inj hkey
        refine ⟨sent.node, dest, asked, origin, served, hreceived, howner, hserved.mono hsub, rfl,
          hsource.symm, hcorr.symm, ?_⟩
        rw [hlog]
        rw [hresponse] at hinvoked
        exact (hinvoked.append [sent]).append post
    | invoked hinvokes =>
        refine ⟨sent.node, dest, asked, dest, asked, hreceived, howner, hreceived, rfl, rfl, rfl,
          ?_⟩
        rw [hlog]
        rw [← heffects] at hinvokes
        exact (invoked_of_invokes hbefore hinvokes).append post
  · cases hissues with
    | made hmade => cases hmade.symm.trans hsentCall
    | pending htick _ _ _ _ => cases htick.symm.trans hsentCall

/-! ### Values -/

/-- A request that completes with a value was issued, and a handler has returned the value for
a request of the same node and id. -/
theorem value_invoked (hids : Function.Injective D.nodeId) (hw : (fitting D).Reachable w)
    {done : LogEntry ι} (hmem : done ∈ w.log) {corrId : UInt32} {v : Bytes}
    (h : .settle corrId (.value v) ∈ done.effects) :
    ∃ service payload, Issued w.log done.node service payload corrId ∧
      Invoked w.log service payload (D.nodeId done.node) corrId v := by
  obtain ⟨post, pre, hlog⟩ := List.append_of_mem hmem
  obtain ⟨before, hbefore, rfl, _, heffects⟩ := entry_before hw.of_restrict hlog
  obtain ⟨hnode, hsize⟩ := reachable_node hbefore done.node
  rw [heffects] at h
  have hexchange := MessageBus.exec_exchanges done.env (before.nodes done.node) done.call _ h
  obtain ⟨service, payload, qos, timeout, hcall, hinvokes⟩ | ⟨source, data, r, hcall, hr, hvalid,
    htype, rfl, rfl⟩ := hexchange
  · refine ⟨service, payload, ⟨done, hmem, rfl, qos, timeout, hcall⟩, ?_⟩
    rw [hlog]
    rw [← heffects, hnode] at hinvokes
    exact (invoked_of_invokes hbefore hinvokes).append post
  · rw [hsize] at hr
    obtain ⟨provider, dest, asked, origin, served, hasked, howner, hserved, hcorr, hsource, hcorr',
      hinvoked⟩ := reply_invoked hw hmem hcall hr hvalid htype
    -- The REQUEST that was answered came from this node; the one that was served has its key.
    obtain ⟨asker, _, _, _, haskerId, hasker⟩ := request_issued hw hasked
    have hthis : asker = done.node := by
      obtain h | h := hasker
      · exact Option.some.inj (h.symm.trans howner)
      · cases h.symm.trans howner
    obtain ⟨requester, service, hissued, hservice, hrequesterId, _⟩ := request_issued hw hserved
    have hsame : requester = done.node := by
      apply hids
      rw [← hrequesterId, hsource, haskerId, hthis]
    rw [hservice, hrequesterId, hcorr', hsame] at hinvoked
    rw [hsame, hcorr'] at hissued
    exact ⟨service, served.payload, hissued, hinvoked⟩

/-- A correlation id is used by a node for one request only. -/
def NewId (w : World ι) (l : Label ι) : Prop :=
  ∀ service payload qos corrId timeout,
    l.call = .sendRequest service payload qos corrId timeout →
      ∀ s p, ¬ Issued w.log l.node s p corrId

/-- The runs whose BestEffort messages fit the header, and whose requests have ids of their
own. -/
def agreeing (D : Deployment ι) : TransitionSystem (World ι) (Label ι) :=
  (system D).restrict fun w l => Fits l.call ∧ NewId w l

theorem issued_unique (hw : (agreeing D).Reachable w) {n : ι} {s₁ p₁ s₂ p₂ : Bytes}
    {corrId : UInt32} (h₁ : Issued w.log n s₁ p₁ corrId) (h₂ : Issued w.log n s₂ p₂ corrId) :
    s₁ = s₂ ∧ p₁ = p₂ := by
  induction hw with
  | init hinit =>
      obtain ⟨e, hmem, _⟩ := h₁
      exact absurd hmem (not_mem_log_of_init hinit)
  | @step s l _ henabled ih =>
      obtain ⟨_, _, hnew⟩ := henabled
      obtain ⟨e₁, hmem₁, hnode₁, q₁, t₁, hcall₁⟩ := h₁
      obtain ⟨e₂, hmem₂, hnode₂, q₂, t₂, hcall₂⟩ := h₂
      obtain rfl | hold₁ := List.mem_cons.mp hmem₁
      · obtain rfl | hold₂ := List.mem_cons.mp hmem₂
        · obtain ⟨hs, hp, _⟩ := Call.sendRequest.inj (hcall₁.symm.trans hcall₂)
          exact ⟨hs, hp⟩
        · exact absurd ⟨e₂, hold₂, hnode₂.trans hnode₁.symm, q₂, t₂, hcall₂⟩
            (hnew _ _ _ _ _ hcall₁ s₂ p₂)
      · obtain rfl | hold₂ := List.mem_cons.mp hmem₂
        · exact absurd ⟨e₁, hold₁, hnode₁.trans hnode₂.symm, q₁, t₁, hcall₁⟩
            (hnew _ _ _ _ _ hcall₂ s₁ p₁)
        · exact ih ⟨e₁, hold₁, hnode₁, q₁, t₁, hcall₁⟩ ⟨e₂, hold₂, hnode₂, q₂, t₂, hcall₂⟩

/-- Agreement of a completed request with the handlers that have run. -/
def Agreement (D : Deployment ι) (w : World ι) : Prop :=
  ∀ issue ∈ w.log, ∀ service payload qos corrId timeout,
    issue.call = .sendRequest service payload qos corrId timeout →
    ∀ post done pre v, w.log = post ++ done :: pre → done.node = issue.node →
      .settle corrId (.value v) ∈ done.effects →
      Invoked (done :: pre) service payload (D.nodeId issue.node) corrId v

/-- The value of a completed request is what a handler of the service has returned for this
request. -/
theorem request_reply_agreement (hids : Function.Injective D.nodeId)
    (hw : (agreeing D).Reachable w) : w.Agreement D := by
  intro issue hissue service payload qos corrId timeout hcall post done pre v hlog hnode hsettle
  obtain ⟨before, hbefore, rfl, henabled, hcond, heffects⟩ := entry_origin hw hlog
  -- The state right after the request has completed.
  have hafter : (agreeing D).Reachable (before.step ⟨done.node, done.env, done.call⟩) :=
    hbefore.step ⟨henabled, hcond⟩
  have hdone : (before.step ⟨done.node, done.env, done.call⟩).log = done :: before.log := by
    rw [step_log, ← heffects]
  have hfits : (fitting D).Reachable (before.step ⟨done.node, done.env, done.call⟩) :=
    hafter.weaken fun _ _ h => h.1
  have hmem : done ∈ (before.step ⟨done.node, done.env, done.call⟩).log := by
    rw [hdone]
    exact List.mem_cons_self
  obtain ⟨s, p, hissued, hinvoked⟩ := value_invoked hids hfits hmem hsettle
  rw [hdone] at hissued hinvoked
  have hsub : ∀ e ∈ done :: before.log, e ∈ w.log := by
    intro e he
    rw [hlog]
    exact List.mem_append_right _ he
  obtain ⟨rfl, rfl⟩ := issued_unique hw (hissued.mono hsub)
    ⟨issue, hissue, hnode.symm, qos, timeout, hcall⟩
  rw [← hnode]
  exact hinvoked

end World

/-! ### A request that is served -/

namespace Party

/-- The topic under which a service is announced. -/
def serviceTopic : Bytes := MessageBus.svcPrefix ++ [0x73]

/-- The REQUEST for the service. -/
def requestFrame : Bytes :=
  MessageCodec.encode
    { type := .request, sourceId := nodeId sender, destId := 0xFFFF, topic := serviceTopic,
      payload := [42], qos := {}, sequenceId := 1, correlationId := 7 } 0

/-- The REPLY to it. -/
def replyFrame : Bytes :=
  MessageCodec.encode
    { type := .reply, sourceId := nodeId receiver, destId := 0, topic := [], payload := [],
      qos := {}, sequenceId := 1, correlationId := 7 } 0

def servedRun : List (World.Label Party) :=
  [call receiver 0 (.createReplier [0x73] 0),
    call sender 0 (.peerDiscovered (receiverInfo [serviceTopic])),
    call sender 0 (.sendRequest [0x73] [42] {} 7 1000),
    call receiver 0 (.received (endpoint sender) requestFrame),
    call sender 0 (.received (endpoint receiver) replyFrame)]

def servedWorld : World Party := (World.system deployment).exec start servedRun

theorem newId_of_not_request {w : World Party} {l : World.Label Party}
    (h : ∀ s p q c t, l.call ≠ .sendRequest s p q c t) : w.NewId l :=
  fun s p q c t hcall => absurd hcall (h s p q c t)

theorem servedWorld_reachable : (World.agreeing deployment).Reachable servedWorld := by
  refine TransitionSystem.Reachable.exec (.init ⟨rfl, rfl⟩) ?_
  refine ⟨⟨enabled_of_not_received (by simp), World.fits_of_not_publish (by simp),
      newId_of_not_request (by simp)⟩,
    ⟨enabled_of_not_received (by simp), World.fits_of_not_publish (by simp),
      newId_of_not_request (by simp)⟩,
    ⟨enabled_of_not_received (by simp), World.fits_of_not_publish (by simp), ?_⟩,
    ⟨enabled_of_sent ?_, World.fits_of_not_publish (by simp), newId_of_not_request (by simp)⟩,
    ⟨enabled_of_answered ?_, World.fits_of_not_publish (by simp), newId_of_not_request (by simp)⟩,
    trivial⟩
  · rintro _ _ _ _ _ _ s p ⟨e, hmem, _, _, _, hcall⟩
    obtain rfl | hmem := List.mem_cons.mp hmem
    · cases hcall
    · obtain rfl := List.mem_singleton.mp hmem
      cases hcall
  · decide +kernel
  · decide +kernel

end Party

open Party

theorem World.request_reply_agreement_served : servedWorld.Agreement deployment ∧
    ∃ e ∈ servedWorld.log, e.node = sender ∧ .settle 7 (.value []) ∈ e.effects :=
  ⟨World.request_reply_agreement nodeId_injective servedWorld_reachable, by decide +kernel⟩

/-! ### A value that no handler has returned -/

namespace Party

open MessageCodec (decode frameBytes)

/-- A REPLY to the request of the sender. -/
def forgedArgs : MessageCodec.EncodeArgs where
  type := .reply
  sourceId := nodeId receiver
  destId := 0
  topic := []
  payload := [9]
  qos := {}
  sequenceId := 1
  correlationId := 7

/-- A topic that begins like this REPLY and is too long for a header. -/
def replyTopic : Bytes := frameBytes forgedArgs 0 ++ List.replicate 65536 0

theorem replyTopic_length : 65535 < replyTopic.length := by
  rw [replyTopic, List.length_append, List.length_replicate]
  exact Nat.lt_of_lt_of_le (by decide) (Nat.le_add_left _ _)

/-- What the sender reads out of the topic. -/
def forgedReply : MessageCodec.DecodeResult :=
  { valid := true, header := MessageCodec.encodedHeader forgedArgs 0, topic := [], payload := [9] }

theorem decode_replyTopic (sz : SizeT) : decode sz replyTopic = forgedReply :=
  MessageCodec.decode_frame 0 _ ⟨Nat.zero_le _, by decide⟩ sz

/-- The sender waits for a reply, and nobody offers the service. -/
def afterRequest : World Party := (World.system deployment).exec start
  [call receiver 0 (.peerDiscovered (info sender (streamEndpoint sender) [[TopicRouter.hash]])),
    call sender 0 (.sendRequest [0x73] [42] {} 7 1000)]

/-- The receiver publishes a message, which the sender takes for the reply. -/
def forgedWorld (topic : Bytes) : World Party := (World.system deployment).exec afterRequest
  [call receiver 0 (.publish topic [] {} 0),
    call sender 0 (.received (streamEndpoint receiver) topic)]

theorem forgedWorld_reachable {topic : Bytes} (hlong : 65535 < topic.length) :
    ((World.system deployment).restrict World.NewId).Reachable (forgedWorld topic) := by
  have hstart : ((World.system deployment).restrict World.NewId).Reachable afterRequest := by
    refine TransitionSystem.Reachable.exec (.init ⟨rfl, rfl⟩) ?_
    refine ⟨⟨enabled_of_not_received (by simp), newId_of_not_request (by simp)⟩,
      ⟨enabled_of_not_received (by simp), ?_⟩, trivial⟩
    rintro _ _ _ _ _ _ s p ⟨e, hmem, _, _, _, hcall⟩
    obtain rfl := List.mem_singleton.mp hmem
    cases hcall
  refine hstart.exec ⟨⟨enabled_of_not_received (by simp), newId_of_not_request (by simp)⟩,
    ⟨?_, newId_of_not_request (by simp)⟩, trivial⟩
  intro source data hcall
  cases hcall
  exact ⟨receiver, streamEndpoint sender, oversized_sent rfl hlong, rfl, Or.inl rfl⟩

/-- A node that waits for the reply completes its request with the payload that it reads. -/
theorem forged_value {bus : MessageBus} {topic : Bytes}
    (hdecode : decode bus.sizeT topic = forgedReply)
    (hpending : (bus.pendingRequests.lookup 7).isSome = true) (env : Env) (source : Endpoint) :
    .settle 7 (.value [9]) ∈ (bus.onReceived env source topic).2 := by
  obtain ⟨pr, hpr⟩ := Option.isSome_iff_exists.mp hpending
  have hlevel : QoSLevel.ofByte forgedReply.header.qosLevel ≠ .exactlyOnce := by decide
  have hreliable : ¬ QoSLevel.reliable ≤ QoSLevel.ofByte forgedReply.header.qosLevel := by decide
  have hlookup : bus.pendingRequests.lookup forgedReply.header.correlationId = some pr := hpr
  rw [MessageBus.onReceived_reply hdecode rfl rfl, if_neg hlevel]
  simp only [MessageBus.completeRequest, hlookup, if_neg hreliable]
  exact List.mem_singleton.mpr rfl

theorem forgedWorld_disagrees {topic : Bytes} (hdecode : decode .bits64 topic = forgedReply) :
    ¬ (forgedWorld topic).Agreement deployment := by
  intro hclaim
  have hsize : (afterRequest.nodes sender).sizeT = .bits64 := by decide +kernel
  have hpending : ((afterRequest.nodes sender).pendingRequests.lookup 7).isSome = true := by
    decide +kernel
  have hvalue := forged_value (by rw [hsize, hdecode]) hpending (call sender 0 .tick).env
    (streamEndpoint receiver)
  obtain ⟨recent, e, older, hlog, handler, _, _, _, _, _, _, registered, hmem, _, hcall⟩ :=
    hclaim _ (List.mem_cons_of_mem _ (List.mem_cons_of_mem _ List.mem_cons_self))
      [0x73] [42] {} 7 1000 rfl [] _ _ [9] rfl rfl hvalue
  have hregistered : registered ∈ (forgedWorld topic).log := by
    change registered ∈ _ :: _
    rw [hlog]
    exact List.mem_append_right _ (List.mem_cons_of_mem _ hmem)
  -- No call of this run registers a handler.
  have hnone : ∀ entry ∈ (forgedWorld topic).log, entry.call ≠ .createReplier [0x73] handler :=
    List.forall_mem_cons.mpr ⟨by simp, List.forall_mem_cons.mpr ⟨by simp,
      List.forall_mem_cons.mpr ⟨by simp,
        List.forall_mem_cons.mpr ⟨by simp, List.forall_mem_nil _⟩⟩⟩⟩
  exact hnone registered hregistered hcall

end Party

/-- A run of two nodes with distinct ids in which a request completes although no handler has
run: a BestEffort message of the peer is taken for the REPLY. -/
theorem World.request_reply_disagreement : ¬ ∀ w : World Party,
    ((World.system deployment).restrict World.NewId).Reachable w → w.Agreement deployment := by
  intro hclaim
  exact forgedWorld_disagrees (decode_replyTopic .bits64)
    (hclaim _ (forgedWorld_reachable replyTopic_length))

end EmbedMq
