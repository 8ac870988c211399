import Hyperglyph.Broker.Generation

/-! The request handlers of `ahe_broker.c`, from `ahe_broker_send_message` to
`ahe_broker_handle_client_message`, and one inversion theorem that lists everything a call of
the dispatcher can do. -/
namespace Hyperglyph

open Octets

/-- `ahe_broker_client_connection`. -/
structure ClientConnection where
  fd : Fd
  handledMessage : Bool
  deriving DecidableEq

/-- The kernel's answers while one client message is handled. -/
structure Answers extends CreateAnswers where
  recv : Recv
  sent : Bool
  deriving DecidableEq

/-- The three results `0`, `-1` and `1` of `ahe_broker_receive_message`. -/
inductive Received
  | closed
  | bad
  | message (m : MessageV1)
  deriving DecidableEq

/-- `recv` copies at most `sizeof(message)` octets and drops the rest unreported. -/
def brokerReceive (d : List UInt8) : Received :=
  let received := min d.length sizeofMessage
  if received = 0 then .closed
  else
    let message := MessageV1.decode (d.take sizeofMessage)
    if received ≠ sizeofMessage ∨ !message.framed then .bad else .message message

def brokerReceiveMessage (k : Kernel) (clientFd : Fd) (a : Answers) : Kernel × Received :=
  match k.recv clientFd a.recv with
  | (k, .error) => (k, .bad)
  | (k, .datagram d) => (k, brokerReceive d)

def brokerSendMessage (k : Kernel) (clientFd : Fd) (message : MessageV1) (fds : List Fd)
    (a : Answers) : Kernel × Bool :=
  if fds.length > brokerDescriptorCount then (k, false) else k.sendmsg clientFd message fds a.sent

/-- The `CREATE` or `ATTACH` reply for the current generation. -/
def shareResponse (g : Generation) : MessageV1 :=
  { brokerMessageInit (if g.state = .ready then .attach else .create) with
    mappingSize := g.mappingSize
    mappingBase := g.mappingBase
    sharedGlobalsOffset := g.sharedGlobalsOffset }

def brokerHandleAcquire (k : Kernel) (clientFd : Fd) (g : Generation) (request : MessageV1)
    (a : Answers) : Kernel × Generation × Bool :=
  let (k, g, created) :=
    if g.state = .empty then generationCreate k g clientFd request a.toCreateAnswers
    else (k, g, true)
  if !created then
    let (k, sent) := brokerSendMessage k clientFd (brokerMessageInit .error) [] a
    (k, g, sent)
  else if !generationMatches g request || (g.state == .initializing && g.creatorFd != clientFd) then
    let (k, sent) := brokerSendMessage k clientFd (brokerMessageInit .decline) [] a
    (k, g, sent)
  else
    let (k, sent) := brokerSendMessage k clientFd (shareResponse g) [g.cacheFd, g.lockFd] a
    (k, g, sent)

/-- The five tests of `ahe_broker_handle_ready`. -/
def readyRefused (g : Generation) (clientFd : Fd) (request : MessageV1) : Bool :=
  g.state != .initializing || g.creatorFd != clientFd || request.mappingSize != g.mappingSize
    || request.mappingBase == 0 || decide (request.sharedGlobalsOffset ≥ request.mappingSize)

/-- The generation after an acknowledged `READY`. -/
def publishedGeneration (g : Generation) (request : MessageV1) : Generation :=
  { g with
    mappingBase := request.mappingBase
    sharedGlobalsOffset := request.sharedGlobalsOffset
    state := .ready
    creatorFd := -1 }

def brokerHandleReady (k : Kernel) (clientFd : Fd) (g : Generation) (request : MessageV1)
    (a : Answers) : Kernel × Generation × Bool :=
  if readyRefused g clientFd request then
    let (k, sent) := brokerSendMessage k clientFd (brokerMessageInit .error) [] a
    (k, g, sent)
  else
    let (k, sent) := brokerSendMessage k clientFd (brokerMessageInit .ack) [] a
    if !sent then (k, g, false) else (k, publishedGeneration g request, true)

/-- The returned flag is `keep_open`. -/
def brokerHandleClientMessage (k : Kernel) (client : ClientConnection) (g : Generation)
    (a : Answers) : Kernel × ClientConnection × Generation × Bool :=
  match brokerReceiveMessage k client.fd a with
  | (k, .message request) =>
      let client := { client with handledMessage := true }
      if request.type = MessageType.acquire.code then
        let (k, g, sent) := brokerHandleAcquire k client.fd g request a
        (k, client, g, sent)
      else if request.type = MessageType.ready.code then
        let (k, g, sent) := brokerHandleReady k client.fd g request a
        (k, client, g, sent)
      else if request.type = MessageType.abort.code then
        let (k, g) :=
          if g.state = .initializing ∧ g.creatorFd = client.fd then generationReset k g else (k, g)
        let (k, sent) := brokerSendMessage k client.fd (brokerMessageInit .ack) [] a
        (k, client, g, sent)
      else if request.type = MessageType.detach.code then
        let (k, _) := brokerSendMessage k client.fd (brokerMessageInit .ack) [] a
        (k, client, g, false)
      else
        let (k, _) := brokerSendMessage k client.fd (brokerMessageInit .error) [] a
        (k, client, g, false)
  | (k, _) => (k, client, g, false)

/-! ### What a call can do -/

def replyEvent (c : ConnId) (message : MessageV1) (attached : List Object) (sent : Bool) : Event :=
  if sent then .sent c message attached else .unsent c message attached

section Reply

variable {c c' : ConnId} {d : List UInt8} {m m' : MessageV1} {attached attached' : List Object}
  {sent : Bool} {o : Object}

@[simp] theorem received_ne_reply : (Event.received c' d = replyEvent c m attached sent) ↔ False := by
  cases sent <;> simp [replyEvent]

@[simp] theorem closed_ne_reply : (Event.closed o = replyEvent c m attached sent) ↔ False := by
  cases sent <;> simp [replyEvent]

@[simp] theorem accepted_ne_reply : (Event.accepted c' = replyEvent c m attached sent) ↔ False := by
  cases sent <;> simp [replyEvent]

@[simp] theorem sent_eq_reply : (Event.sent c' m' attached' = replyEvent c m attached sent) ↔
    sent = true ∧ c' = c ∧ m' = m ∧ attached' = attached := by
  cases sent <;> simp [replyEvent]

@[simp] theorem unsent_eq_reply : (Event.unsent c' m' attached' = replyEvent c m attached sent) ↔
    sent = false ∧ c' = c ∧ m' = m ∧ attached' = attached := by
  cases sent <;> simp [replyEvent]

end Reply

/-- The generation holds the memfds `p` and `q` as its cache and lock. -/
structure Holds (fds : DescriptorTable Object) (g : Generation) (p q : Nat) : Prop where
  cache : fds.get g.cacheFd = some (.memfd p)
  lock : fds.get g.lockFd = some (.memfd q)
  distinct : p ≠ q

theorem Holds.fd_ne {fds : DescriptorTable Object} {g : Generation} {p q : Nat}
    (h : Holds fds g p q) : g.cacheFd ≠ g.lockFd := by
  intro heq
  have hlock := h.lock
  rw [← heq, h.cache] at hlock
  cases hlock
  exact h.distinct rfl

/-- Replies that carry no descriptors and leave the generation alone. -/
inductive PlainReply (g : Generation) (fd : Fd) (m : MessageV1) (sent : Bool) :
    MessageType → Bool → Prop
  | declined : m.type = MessageType.acquire.code → g.state ≠ .empty →
      (generationMatches g m = false ∨ (g.state = .initializing ∧ g.creatorFd ≠ fd)) →
      PlainReply g fd m sent .decline sent
  | rejected : m.type = MessageType.ready.code → readyRefused g fd m = true →
      PlainReply g fd m sent .error sent
  | unacknowledged : m.type = MessageType.ready.code → readyRefused g fd m = false →
      sent = false → PlainReply g fd m sent .ack false
  | ignored : m.type = MessageType.abort.code →
      ¬ (g.state = .initializing ∧ g.creatorFd = fd) → PlainReply g fd m sent .ack sent
  | detached : m.type = MessageType.detach.code → PlainReply g fd m sent .ack false
  | unknown : m.type ≠ MessageType.acquire.code → m.type ≠ MessageType.ready.code →
      m.type ≠ MessageType.abort.code → m.type ≠ MessageType.detach.code →
      PlainReply g fd m sent .error false

/-- Everything `ahe_broker_handle_client_message` can do for the connection `c`. -/
inductive HandleMessage (k : Kernel) (client : ClientConnection) (c : ConnId) (g : Generation)
    (a : Answers) : Kernel × ClientConnection × Generation × Bool → Prop
  | failed : a.recv = .error → HandleMessage k client c g a (k, client, g, false)
  | dropped (d : List UInt8) : a.recv = .datagram d → (∀ m, brokerReceive d ≠ .message m) →
      HandleMessage k client c g a (k.emit [.received c d], client, g, false)
  | plain (d : List UInt8) (m : MessageV1) (reply : MessageType) (keep : Bool) :
      a.recv = .datagram d → brokerReceive d = .message m →
      PlainReply g client.fd m a.sent reply keep →
      HandleMessage k client c g a
        (k.emit [.received c d, replyEvent c (brokerMessageInit reply) [] a.sent],
          { client with handledMessage := true }, g, keep)
  | shared (d : List UInt8) (m : MessageV1) (p q : Nat) :
      a.recv = .datagram d → brokerReceive d = .message m → m.type = MessageType.acquire.code →
      g.state ≠ .empty → Holds k.fds g p q → generationMatches g m = true →
      (g.state = .initializing → g.creatorFd = client.fd) →
      HandleMessage k client c g a
        (k.emit [.received c d,
            replyEvent c (shareResponse g) [.memfd p, .memfd q] a.sent],
          { client with handledMessage := true }, g, a.sent)
  | created (d : List UInt8) (m : MessageV1) (cacheFd lockFd : Nat) :
      a.recv = .datagram d → brokerReceive d = .message m → m.type = MessageType.acquire.code →
      g = generationInit → requestInvalid m = false →
      memfdsMade (k.emit [.received c d]) a.toCreateAnswers = true →
      k.fds.Free cacheFd → k.fds.Free lockFd → cacheFd ≠ lockFd →
      HandleMessage k client c g a
        (((k.emit [.received c d]).withPair cacheFd lockFd).emit
            [replyEvent c (shareResponse (createdGeneration cacheFd lockFd client.fd m))
              [.memfd k.nextMemfd, .memfd (k.nextMemfd + 1)] a.sent],
          { client with handledMessage := true },
          createdGeneration cacheFd lockFd client.fd m, a.sent)
  | notCreated (d : List UInt8) (m : MessageV1) (made : Nat) :
      a.recv = .datagram d → brokerReceive d = .message m → m.type = MessageType.acquire.code →
      g = generationInit → made ≤ 2 →
      (requestInvalid m = true ∨
        memfdsMade (k.emit [.received c d]) a.toCreateAnswers = false) →
      HandleMessage k client c g a
        (((k.emit [.received c d]).discarded made).emit
            [replyEvent c (brokerMessageInit .error) [] a.sent],
          { client with handledMessage := true }, generationInit, a.sent)
  | published (d : List UInt8) (m : MessageV1) :
      a.recv = .datagram d → brokerReceive d = .message m → m.type = MessageType.ready.code →
      readyRefused g client.fd m = false → a.sent = true →
      HandleMessage k client c g a
        (k.emit [.received c d, .sent c (brokerMessageInit .ack) []],
          { client with handledMessage := true }, publishedGeneration g m, true)
  | aborted (d : List UInt8) (m : MessageV1) (p q : Nat) :
      a.recv = .datagram d → brokerReceive d = .message m → m.type = MessageType.abort.code →
      g.state = .initializing → g.creatorFd = client.fd → Holds k.fds g p q →
      HandleMessage k client c g a
        ({ k with
            fds := (k.fds.remove g.cacheFd).remove g.lockFd
            log := k.log ++ [.received c d, .closed (.memfd p), .closed (.memfd q),
              replyEvent c (brokerMessageInit .ack) [] a.sent] },
          { client with handledMessage := true }, generationInit, a.sent)

section Inversion

variable {k : Kernel} {client : ClientConnection} {c : ConnId} {g : Generation} {a : Answers}

theorem replyEvent_eq (c : ConnId) (message : MessageV1) (attached : List Object) (sent : Bool) :
    (if sent then Event.sent c message attached else .unsent c message attached) =
      replyEvent c message attached sent := rfl

theorem brokerSendMessage_plain (hc : k.fds.get client.fd = some (.conn c)) (r : MessageV1)
    (a : Answers) :
    brokerSendMessage k client.fd r [] a = (k.emit [replyEvent c r [] a.sent], a.sent) := by
  rw [brokerSendMessage, if_neg (by decide), Kernel.sendmsg_plain hc, replyEvent_eq]

theorem brokerSendMessage_pair (hc : k.fds.get client.fd = some (.conn c)) {p q : Nat}
    (h : Holds k.fds g p q) (r : MessageV1) (a : Answers) :
    brokerSendMessage k client.fd r [g.cacheFd, g.lockFd] a =
      (k.emit [replyEvent c r [.memfd p, .memfd q] a.sent], a.sent) := by
  rw [brokerSendMessage, if_neg (by simp [brokerDescriptorCount]),
    Kernel.sendmsg_pair hc h.cache h.lock, replyEvent_eq]

theorem generationMatches_created {cacheFd lockFd : Nat} {fd : Fd} {m : MessageV1}
    (h : requestInvalid m = false) :
    generationMatches (createdGeneration cacheFd lockFd fd m) m = true := by
  simp only [requestInvalid, Bool.or_eq_false_iff, Bool.not_eq_false'] at h
  simp [generationMatches, createdGeneration, h.1.2]

theorem holds_created {cacheFd lockFd : Nat} (fd : Fd) (m : MessageV1) (hne : cacheFd ≠ lockFd) :
    Holds (k.withPair cacheFd lockFd).fds (createdGeneration cacheFd lockFd fd m)
      k.nextMemfd (k.nextMemfd + 1) := by
  refine ⟨?_, ?_, by omega⟩
  · have hinner := DescriptorTable.get_install_self (t := k.fds) cacheFd (.memfd k.nextMemfd)
    exact (DescriptorTable.get_install_of_ne (Int.ofNat_inj.not.mpr hne) _).trans hinner
  · exact DescriptorTable.get_install_self lockFd _

/-- What is open beside the new pair was open before. -/
theorem get_of_get_withPair {fd : Fd} {o : Object} {cacheFd lockFd : Nat}
    (h : (k.withPair cacheFd lockFd).fds.get fd = some o) :
    (fd = lockFd ∧ o = .memfd (k.nextMemfd + 1)) ∨ (fd = cacheFd ∧ o = .memfd k.nextMemfd) ∨
      k.fds.get fd = some o := by
  simp only [Kernel.withPair, DescriptorTable.get_install] at h
  split at h
  · next heq => exact .inl ⟨heq, (Option.some.inj h).symm⟩
  · split at h
    · next heq => exact .inr (.inl ⟨heq, (Option.some.inj h).symm⟩)
    · exact .inr (.inr h)

/-- A free number never names the connection being served. -/
theorem get_withPair_of_open {fd : Fd} {o : Object} {cacheFd lockFd : Nat}
    (h : k.fds.get fd = some o) (hcache : k.fds.Free cacheFd) (hlock : k.fds.Free lockFd)
    (hne : cacheFd ≠ lockFd) : (k.withPair cacheFd lockFd).fds.get fd = some o := by
  have hlock' : (k.fds.install cacheFd (.memfd k.nextMemfd)).Free lockFd := by
    have hget : (k.fds.install cacheFd (.memfd k.nextMemfd)).get (lockFd : Int) =
        k.fds.get (lockFd : Int) :=
      DescriptorTable.get_install_of_ne (Int.ofNat_inj.not.mpr hne.symm) _
    exact hget.trans hlock
  exact DescriptorTable.get_install_of_open hlock' (DescriptorTable.get_install_of_open hcache h)

theorem handleAcquire_empty (hc : k.fds.get client.fd = some (.conn c))
    {d : List UInt8} {m : MessageV1} (hrecv : a.recv = .datagram d)
    (hm : brokerReceive d = .message m) (htype : m.type = MessageType.acquire.code)
    (hg : g = generationInit) :
    HandleMessage k client c g a
      ((brokerHandleAcquire (k.emit [.received c d]) client.fd g m a).1,
        { client with handledMessage := true },
        (brokerHandleAcquire (k.emit [.received c d]) client.fd g m a).2) := by
  have hc' : (k.emit [.received c d]).fds.get client.fd = some (.conn c) := hc
  subst hg
  have hempty : generationInit.state = .empty := rfl
  simp only [brokerHandleAcquire, hempty, if_true]
  generalize hcreate : generationCreate (k.emit [.received c d]) generationInit client.fd m
    a.toCreateAnswers = created
  have hspec := generationCreate_spec (k.emit [.received c d]) client.fd m a.toCreateAnswers
  rw [hcreate] at hspec
  cases hspec with
  | invalid hinvalid =>
      simp only [Bool.not_false, if_true]
      rw [brokerSendMessage_plain hc']
      have hspec : HandleMessage k client c generationInit a
          (((k.emit [.received c d]).discarded 0).emit
            [replyEvent c (brokerMessageInit .error) [] a.sent],
            { client with handledMessage := true }, generationInit, a.sent) :=
        .notCreated d m 0 hrecv hm htype rfl (Nat.zero_le 2) (.inl hinvalid)
      simpa [Kernel.discarded, Kernel.emit] using hspec
  | failed made hvalid hfail hmade =>
      simp only [Bool.not_false, if_true]
      rw [brokerSendMessage_plain (c := c) (by exact hc')]
      exact .notCreated d m made hrecv hm htype rfl hmade (.inr hfail)
  | created cacheFd lockFd hvalid hmade hcache hlock hne =>
      have hmatch : generationMatches (createdGeneration cacheFd lockFd client.fd m) m = true :=
        generationMatches_created hvalid
      have hown : ((createdGeneration cacheFd lockFd client.fd m).creatorFd != client.fd) = false := by
        simp [createdGeneration]
      simp only [Bool.not_true, Bool.false_eq_true, if_false, hmatch, hown, Bool.and_false, Bool.or_self]
      rw [brokerSendMessage_pair (get_withPair_of_open hc' hcache hlock hne)
        (holds_created client.fd m hne)]
      exact .created d m cacheFd lockFd hrecv hm htype rfl hvalid hmade hcache hlock hne

theorem handleAcquire_held (hc : k.fds.get client.fd = some (.conn c))
    {d : List UInt8} {m : MessageV1} (hrecv : a.recv = .datagram d)
    (hm : brokerReceive d = .message m) (htype : m.type = MessageType.acquire.code)
    (hg : g.state ≠ .empty) {p q : Nat} (hheld : Holds k.fds g p q) :
    HandleMessage k client c g a
      ((brokerHandleAcquire (k.emit [.received c d]) client.fd g m a).1,
        { client with handledMessage := true },
        (brokerHandleAcquire (k.emit [.received c d]) client.fd g m a).2) := by
  have hc' : (k.emit [.received c d]).fds.get client.fd = some (.conn c) := hc
  simp only [brokerHandleAcquire, if_neg hg, Bool.not_true, Bool.false_eq_true, if_false]
  split
  · next hrefuse =>
      rw [brokerSendMessage_plain hc', Kernel.emit_emit]
      refine .plain d m .decline a.sent hrecv hm (.declined htype hg ?_)
      simpa using hrefuse
  · next hserve =>
      rw [brokerSendMessage_pair hc' (by exact hheld), Kernel.emit_emit]
      simp only [Bool.or_eq_true, Bool.not_eq_true', Bool.and_eq_true, beq_iff_eq, bne_iff_ne,
        not_or, not_and, not_not, Bool.not_eq_false] at hserve
      exact .shared d m p q hrecv hm htype hg hheld hserve.1 hserve.2

theorem handleReady_spec (hc : k.fds.get client.fd = some (.conn c))
    {d : List UInt8} {m : MessageV1} (hrecv : a.recv = .datagram d)
    (hm : brokerReceive d = .message m) (htype : m.type = MessageType.ready.code) :
    HandleMessage k client c g a
      ((brokerHandleReady (k.emit [.received c d]) client.fd g m a).1,
        { client with handledMessage := true },
        (brokerHandleReady (k.emit [.received c d]) client.fd g m a).2) := by
  have hc' : (k.emit [.received c d]).fds.get client.fd = some (.conn c) := hc
  unfold brokerHandleReady
  cases hrefused : readyRefused g client.fd m with
  | true =>
      simp only [if_true, brokerSendMessage_plain hc', Kernel.emit_emit]
      exact .plain d m .error a.sent hrecv hm (.rejected htype hrefused)
  | false =>
      simp only [Bool.false_eq_true, if_false, brokerSendMessage_plain hc', Kernel.emit_emit]
      cases hsent : a.sent with
      | false =>
          have hspec : HandleMessage k client c g a
              (k.emit [.received c d, replyEvent c (brokerMessageInit .ack) [] a.sent],
                { client with handledMessage := true }, g, false) :=
            .plain d m .ack false hrecv hm (.unacknowledged htype hrefused hsent)
          simpa [hsent] using hspec
      | true => exact .published d m hrecv hm htype hrefused hsent

/-- The inversion theorem. Its hypotheses are what the broker's invariant provides. -/
theorem brokerHandleClientMessage_spec (hc : k.fds.get client.fd = some (.conn c))
    (hempty : g.state = .empty → g = generationInit)
    (hheld : g.state ≠ .empty → ∃ p q, Holds k.fds g p q) :
    HandleMessage k client c g a (brokerHandleClientMessage k client g a) := by
  unfold brokerHandleClientMessage brokerReceiveMessage Kernel.recv
  rw [hc]
  cases hrecv : a.recv with
  | error => exact .failed hrecv
  | datagram d =>
      have hc' : (k.emit [.received c d]).fds.get client.fd = some (.conn c) := hc
      dsimp only
      cases hm : brokerReceive d with
      | closed => exact .dropped d hrecv (by simp [hm])
      | bad => exact .dropped d hrecv (by simp [hm])
      | message m =>
          dsimp only
          split_ifs with hacquire hready habort hcreator hdetach
          · by_cases hg : g.state = .empty
            · exact handleAcquire_empty hc hrecv hm hacquire (hempty hg)
            · obtain ⟨p, q, hpq⟩ := hheld hg
              exact handleAcquire_held hc hrecv hm hacquire hg hpq
          · exact handleReady_spec hc hrecv hm hready
          · obtain ⟨p, q, hpq⟩ := hheld (by rw [hcreator.1]; decide)
            have hreset := generationReset_of_open (k := k.emit [.received c d]) hpq.cache hpq.lock
              hpq.fd_ne
            have hstay : ((k.fds.remove g.cacheFd).remove g.lockFd).get client.fd =
                some (.conn c) := by
              rw [DescriptorTable.get_remove_of_ne, DescriptorTable.get_remove_of_ne, hc]
              · rintro heq
                rw [heq, hpq.cache] at hc
                cases hc
              · rintro heq
                rw [heq, hpq.lock] at hc
                cases hc
            simp only [hreset, Kernel.emit_fds]
            rw [brokerSendMessage_plain (c := c) (by exact hstay)]
            have hspec : HandleMessage k client c g a
                ({ k with
                    fds := (k.fds.remove g.cacheFd).remove g.lockFd
                    log := k.log ++ [.received c d, .closed (.memfd p), .closed (.memfd q),
                      replyEvent c (brokerMessageInit .ack) [] a.sent] },
                  { client with handledMessage := true }, generationInit, a.sent) :=
              .aborted d m p q hrecv hm habort hcreator.1 hcreator.2 hpq
            simpa [Kernel.emit] using hspec
          · rw [brokerSendMessage_plain hc', Kernel.emit_emit]
            exact .plain d m .ack a.sent hrecv hm (.ignored habort hcreator)
          · rw [brokerSendMessage_plain hc', Kernel.emit_emit]
            exact .plain d m .ack false hrecv hm (.detached hdetach)
          · rw [brokerSendMessage_plain hc', Kernel.emit_emit]
            exact .plain d m .error false hrecv hm (.unknown hacquire hready habort hdetach)

end Inversion

end Hyperglyph
