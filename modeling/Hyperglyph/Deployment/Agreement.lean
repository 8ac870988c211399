import Hyperglyph.Deployment.Once

/-! Reattachment: a process that attaches agrees with the creator of its generation on the
objects, the addresses and the identity of the cache. -/
namespace Hyperglyph

open History Octets

/-- The pair a message carried is a pair of memfds made together. -/
theorem Records.pair_of_sent {log : List Event} {next : Nat} (h : Records log next) {c : ConnId}
    {m : MessageV1} {cache lock : Object} (hsent : Event.sent c m [cache, lock] ∈ log) :
    ∃ p, cache = .memfd p ∧ lock = .memfd (p + 1) ∧ Given log c m p (p + 1) := by
  obtain hnil | ⟨p, hp, -⟩ := h.pairs c m _ (.inl hsent)
  · cases hnil
  · cases hp
    exact ⟨p, rfl, rfl, hsent⟩

/-- What the process `a` with its acquisition shares with the creator `c` of the generation
`p`, `q`, which published the globals `g`. -/
structure SharesWith (config : ConnId → Config) (s : Deployment) (a : ConnId)
    (attached : Acquisition) (c : ConnId) (created : Acquisition) (g : UInt64) (p q : Nat) : Prop where
  /-- `c` was answered `CREATE` with the pair, then its `READY` was taken, then `a` was
  answered `ATTACH` with the pair. -/
  lineage : ∃ m, CreatedSentGiven s.log c p q (readyRequest created.client g) a m ∧
    m.type = MessageType.attach.code
  creator : created.status = .allocSuccess ∧ publishRefused created.client g = false
  earlier : [.acquired c created, .startupComplete c g, .sent c (readyRequest created.client g),
    .acquired a attached].Sublist s.history
  cache : attached.cache = some (.memfd p) ∧ created.cache = some (.memfd p)
  lock : attached.lock = some (.memfd q) ∧ created.lock = some (.memfd q)
  mapping : attached.client.mapping = created.client.mapping
  mappingSize : attached.client.mappingSize = created.client.mappingSize
  key : ∃ path path' key, (config a).key = .ok (path, key) ∧ (config c).key = .ok (path', key)
  globals : attached.outputs.reattachedSharedGlobals = g

theorem SharesWith.extend {config : ConnId → Config} {s t : Deployment} {a c : ConnId}
    {attached created : Acquisition} {g : UInt64} {p q : Nat}
    (h : SharesWith config s a attached c created g p q) {events : List Event}
    {happened : List Happening} (hlog : t.log = s.log ++ events)
    (hhistory : t.history = s.history ++ happened) :
    SharesWith config t a attached c created g p q where
  lineage := by
    obtain ⟨m, hm, htype⟩ := h.lineage
    rw [hlog]
    exact ⟨m, hm.extend events, htype⟩
  creator := h.creator
  earlier := by
    rw [hhistory]
    exact h.earlier.trans (List.sublist_append_left _ _)
  cache := h.cache
  lock := h.lock
  mapping := h.mapping
  mappingSize := h.mappingSize
  key := h.key
  globals := h.globals

/-- Two requests the broker takes for the same come from the same key. -/
theorem key_of_strcmpEq {config : ConnId → Config} {a c : ConnId} {path path' key key' : List UInt8}
    (ha : (config a).key = .ok (path, key)) (hc : (config c).key = .ok (path', key'))
    (hcmp : strcmpEq (acquireRequest key (config a).requestedSize).cacheKey.bytes
      (acquireRequest key' (config c).requestedSize).cacheKey.bytes = true) : key = key' := by
  have heq := strcmpEq_iff.mp hcmp
  simp only [acquireRequest] at heq
  rwa [Environment.cString_key ha, Environment.cString_key hc] at heq

namespace Deployment

variable {config : ConnId → Config} {s t : Deployment} {c a : ConnId}

theorem Reachable.records (h : Reachable config s) : Records s.log s.broker.kernel.nextMemfd :=
  h.broker.refines.inv.records

/-- The pair a creator holds is the one of its only `CREATE` reply. -/
theorem Reachable.created_pair (h : Reachable config s) {created : Acquisition}
    (hmem : .acquired c created ∈ s.history) (hstatus : created.status = .allocSuccess) {p q : Nat}
    (hcreated : Created s.log c p q) :
    created.cache = some (.memfd p) ∧ created.lock = some (.memfd q) ∧
      created.client.mappingSize = (config c).requestedSize := by
  rcases h.provenance.acquisitions c created hmem with hfail | ⟨packet, hsent, hfollows⟩
  · rw [hstatus] at hfail
    cases hfail
  · obtain ⟨cache, lock, hattached, hcache, hlock⟩ := hfollows.objects
    rw [hattached] at hsent
    obtain ⟨p', rfl, rfl, hgiven⟩ := h.records.pair_of_sent hsent
    obtain ⟨m, hgiven', -⟩ := hcreated
    obtain ⟨-, rfl, rfl⟩ := h.given_unique hgiven hgiven'
    exact ⟨hcache, hlock, hfollows.mappingSize⟩

/-- The acquisition about to be made shares with the creator. -/
theorem Reachable.shares_obtained (h : Reachable config s) {packet : Packet}
    {attached : Acquisition} (hpacket : packet ∈ (s.channels a).toPeer)
    (hfollows : attached.Follows (config a).requestedSize packet)
    (hstatus : attached.status = .successfullyReattached) (ht : t.log = s.log)
    (hhistory : t.history = s.history ++ [.acquired a attached]) :
    ∃ c created g p q, SharesWith config t a attached c created g p q := by
  have hprov := h.provenance
  obtain ⟨cache, lock, hattached, hcache, hlock⟩ := hfollows.objects
  have hsent := hprov.replies a packet hpacket
  rw [hattached] at hsent
  obtain ⟨p, rfl, rfl, hgiven⟩ := h.records.pair_of_sent hsent
  rcases hfollows.kind with hcreate | ⟨-, -, htype, hmapping, hglobals⟩
  · rw [hstatus] at hcreate
    cases hcreate.1
  obtain ⟨c, acquire, ready, request, hacquire, hatype, hready, hrtype, hrequest, hqtype, hsize,
    -, hbase, hoffset, hreqsize, hkey⟩ := h.records.attached_after a packet.message p (p + 1) hgiven htype
  obtain ⟨created, g, horder, hcstatus, haccepted, rfl⟩ :=
    (hprov.requested hready.requested).of_ready hrtype
  obtain ⟨pathC, keyC, hkeyC, rfl⟩ := (hprov.requested hacquire).of_acquire hatype
  obtain ⟨pathA, keyA, hkeyA, rfl⟩ := (hprov.requested hrequest).of_acquire hqtype
  obtain ⟨hccache, hclock, hcsize⟩ :=
    h.created_pair horder.left hcstatus hready.created
  obtain rfl := key_of_strcmpEq hkeyA hkeyC hkey
  refine ⟨c, created, g, p, p + 1, ⟨packet.message, by rw [ht]; exact hready, htype⟩,
    ⟨hcstatus, haccepted⟩, ?_, ⟨hcache, hccache⟩, ⟨hlock, hclock⟩, hmapping.trans hbase, ?_,
    ⟨pathA, pathC, keyA, hkeyA, hkeyC⟩, ?_⟩
  · rw [hhistory]
    exact List.Sublist.append horder (List.Sublist.refl [Happening.acquired a attached])
  · rw [hfollows.mappingSize, hcsize]
    exact hreqsize
  · rw [hglobals, hbase, hoffset]
    simp only [readyRequest]
    rw [UInt64.add_comm, UInt64.sub_add_cancel]

/-- Every reattached process shares with a creator. -/
def Agreement (config : ConnId → Config) (s : Deployment) : Prop :=
  ∀ a attached, .acquired a attached ∈ s.history → attached.status = .successfullyReattached →
    ∃ c created g p q, SharesWith config s a attached c created g p q

theorem Agreement.mono (h : s.Agreement config) {events : List Event}
    (hlog : t.log = s.log ++ events) {happened : List Happening}
    (hhistory : t.history = s.history ++ happened)
    (hnew : ∀ a attached, .acquired a attached ∈ happened →
      attached.status = .successfullyReattached →
      ∃ c created g p q, SharesWith config t a attached c created g p q) :
    t.Agreement config := by
  intro a attached hmem hstatus
  rw [hhistory] at hmem
  rcases List.mem_append.mp hmem with hold | hin
  · obtain ⟨c, created, g, p, q, hshares⟩ := h a attached hold hstatus
    exact ⟨c, created, g, p, q, hshares.extend hlog hhistory⟩
  · exact hnew a attached hin hstatus

/-- The happenings of an act hold no acquisition that attached, but for one that follows a
reply. -/
theorem ActStep.reattached {happened : List Happening} (hstep : ActStep config s c t happened)
    {attached : Acquisition} (hmem : .acquired a attached ∈ happened)
    (hstatus : attached.status = .successfullyReattached) :
    happened = [.acquired a attached] ∧ a = c ∧ ∃ packet ∈ (s.channels a).toPeer,
      attached.Follows (config a).requestedSize packet := by
  have hact := hstep.acted
  generalize t.participants c = x', t.channels c = ch' at hact
  cases hact with
  | stayed | begun => cases hmem
  | asked | offered | confirmed | notified => simp at hmem
  | @obtained _ packet rest acquisition _ _ hq _ _ _ hfollows =>
      obtain ⟨rfl, rfl⟩ : a = c ∧ attached = acquisition := by simpa using hmem
      refine ⟨rfl, rfl, packet, ?_, hfollows⟩
      rw [hq]
      exact List.mem_cons_self
  | silent _ _ _ _ _ hidle =>
      obtain ⟨-, hfail⟩ := hidle _ hmem
      rw [hstatus] at hfail
      cases hfail

theorem Reachable.agreement (h : Reachable config s) : s.Agreement config := by
  refine Execution.Reachable.invariant_with (I := Agreement config) ?_ ?_ h
  · rintro s ⟨maxClients, listenerFd, rfl⟩ a attached hmem
    cases hmem
  · intro s label t hs hagree hstep
    cases label with
    | broker i =>
        obtain ⟨hbroker, -, hhistory, -⟩ := stepBroker_eq_some hstep
        have hlog : t.log = s.log ++ s.broker.newEvents (s.broker.step i) := by
          rw [log, hbroker]
          exact (Reachable.broker hs).log_step i
        have hsame : t.history = s.history ++ [] := by rw [hhistory, List.append_nil]
        exact hagree.mono hlog hsame (by simp)
    | participant c act =>
        cases hstep
        obtain ⟨happened, hact⟩ := stepParticipant_spec config s c act
        have hlog : (s.stepParticipant config c act).log = s.log := by rw [log, hact.broker]
        have hsame : (s.stepParticipant config c act).log = s.log ++ [] := by
          rw [hlog, List.append_nil]
        refine hagree.mono hsame hact.history ?_
        intro a attached hmem hstatus
        obtain ⟨rfl, rfl, packet, hpacket, hfollows⟩ := hact.reattached hmem hstatus
        exact Reachable.shares_obtained hs hpacket hfollows hstatus hlog hact.history

/-- A process that reattached shares everything with exactly one process: the one that was
answered `CREATE` for its generation. -/
theorem reattachment_agreement (h : Reachable config s) {attached : Acquisition}
    (hmem : .acquired a attached ∈ s.history) (hstatus : attached.status = .successfullyReattached) :
    ∃ c created g p q, SharesWith config s a attached c created g p q ∧
      ∀ c', Created s.log c' p q → c' = c := by
  obtain ⟨c, created, g, p, q, hshares⟩ := h.agreement a attached hmem hstatus
  refine ⟨c, created, g, p, q, hshares, ?_⟩
  intro c' hcreated
  obtain ⟨m, hlineage, -⟩ := hshares.lineage
  exact h.records.creator_unique c' c p q hcreated hlineage.created

/-! ### Two processes that share one page -/

def pageEnvironment : Environment where
  providerEnabled := true
  brokerSocket := some ⟨[115], by decide⟩
  cacheNamespace := none
  forceRestartTimeout := 0
  configurationDigest := some ⟨[100], by decide⟩
  effectiveUid := 1000
  sapiName := none
  systemId := [112]
  executeEx := 4096
  snprintfFails := false

def pageConfig (_ : ConnId) : Config := ⟨pageEnvironment, 4096⟩

def pageAcquire : MessageV1 :=
  match (pageConfig 0).key with
  | .ok (_, cacheKey) => acquireRequest cacheKey 4096
  | .error _ => brokerMessageInit .acquire

def pageReady : MessageV1 :=
  { brokerMessageInit .ready with
    mappingSize := 4096, mappingBase := 65536, sharedGlobalsOffset := 16 }

/-- Every call of `ahe_broker_connect` succeeds. -/
def connecting : ConnectAnswers where
  socket := some 3
  receiveTimeoutSet := true
  sendTimeoutSet := true
  connected := true
  credentials := some ⟨true, 1, 1000⟩
  socketStatus := some ⟨true, 1000, 0o600⟩

/-- A round of the broker's loop with `n` clients in which only entry `index` of the poll
table is readable, with the datagram `d`. -/
def round (n index : Nat) (d : List UInt8) (accepted : Option (Nat × ConnId)) : List Label :=
  let revents := (List.range (n + 1)).map fun i =>
    if i = index then Broker.readable else .clear
  let inputs : List Input := .head true (.ready revents) ::
    List.replicate (n + 1) (.dispatch (Broker.answering d)) ++
      [.accept (accepted.elim Broker.acceptNone fun (n, c) => Broker.accepting n c)]
  inputs.map .broker

/-- The process `c` has sent its `ACQUIRE`. -/
def asking (c : ConnId) : List Label :=
  [.participant c (.createSegments connecting), .participant c (.sendAcquire (.ok ()))]

/-- The process `c` takes the reply to its `ACQUIRE` and maps the page. -/
def obtaining (c : ConnId) : Label :=
  .participant c (.receiveAllocation (.arrived [4, 5])
    { mapped := some 65536, unmapped := true, allocated := 64 })

def offering (c : ConnId) : Label := .participant c (.startupComplete false 65552 (.ok ()))

/-- Process 0 creates and publishes, then process 1 attaches. -/
def sharing : List Label :=
  asking 0 ++ round 0 0 [] (some (4, 0)) ++ round 1 1 pageAcquire.encode none ++
    [obtaining 0, offering 0] ++ round 1 1 pageReady.encode none ++
    [.participant 0 (.receivePublication (.arrived []))] ++
    asking 1 ++ round 1 0 [] (some (7, 1)) ++ round 2 2 pageAcquire.encode none ++ [obtaining 1]

/-- The client of process 0 or 1 once it has the page. -/
def pageClient (creator : Bool) : BrokerClient where
  socketFd := 3
  cacheFd := 4
  lockFd := 5
  mapping := 65536
  mappingSize := 4096
  segmentAllocation := 64
  creator := creator
  reattached := !creator
  acquired := true
  ready := false
  timedOut := false

def pageAcquisition (status : ShmStatus) (creator : Bool) (globals : UInt64) : Acquisition where
  status := status
  client := pageClient creator
  outputs := ⟨some ⟨64, ⟨4096, 4096, 0, 65536⟩⟩, 1, globals, none⟩
  cache := some (.memfd 0)
  lock := some (.memfd 1)

theorem sharing_history : ((start 0 3).run pageConfig sharing).map (·.history) = some
    [.sent 0 pageAcquire, .acquired 0 (pageAcquisition .allocSuccess true 0),
      .startupComplete 0 65552, .sent 0 pageReady,
      .published 0 ⟨65552, (pageClient true).published, some (.memfd 0), some (.memfd 1)⟩,
      .sent 1 pageAcquire, .acquired 1 (pageAcquisition .successfullyReattached false 65552)] := by
  decide +kernel

theorem reattachment_agreement_of_two : ∃ s, (start 0 3).run pageConfig sharing = some s ∧
    ∃ attached, .acquired 1 attached ∈ s.history ∧ attached.status = .successfullyReattached ∧
      ∃ c created g p q, SharesWith pageConfig s 1 attached c created g p q ∧
        ∀ c', Created s.log c' p q → c' = c := by
  obtain ⟨s, hrun, hhistory⟩ := Option.map_eq_some_iff.mp sharing_history
  have hmem : .acquired 1 (pageAcquisition .successfullyReattached false 65552) ∈ s.history := by
    rw [hhistory]
    decide
  exact ⟨s, hrun, _, hmem, rfl, reattachment_agreement ((reachable_start 0 3).run hrun) hmem rfl⟩

end Deployment

end Hyperglyph
