import Hyperglyph.Broker.SingleCreator
import Hyperglyph.Deployment.Agreement
import Hyperglyph.Deployment.Dialogue

/-! The checks on both sides of the socket. What an honest client sends passes the broker's,
what the broker sends with descriptors passes the client's. -/
namespace Hyperglyph

/-! ### The broker's checks on `ACQUIRE` -/

section Acquire

variable {k : Kernel} {client : ClientConnection} {c : ConnId} {g : Generation} {a : Answers}
  {r : Kernel × ClientConnection × Generation × Bool} {d : List UInt8} {m : MessageV1}

theorem requestInvalid_acquireRequest {e : Environment} {size : UInt64} {path key : List UInt8}
    (hkey : e.createCacheKey size = .ok (path, key)) (hpos : 1 ≤ size.toNat)
    (hmax : size.toNat ≤ int64Max) : requestInvalid (acquireRequest key size) = false := by
  obtain ⟨hterminated, hhead⟩ := Environment.key_valid hkey
  have hzero : size ≠ 0 := by
    rintro rfl
    exact absurd hpos (by decide)
  have hbound : size.toNat ≤ sizeMax := Nat.le_of_lt_succ size.toNat_lt
  simp only [requestInvalid, acquireRequest, hterminated, Bool.or_eq_false_iff, beq_eq_false_iff_ne,
    decide_eq_false_iff_not, gt_iff_lt, not_lt, Bool.not_true, and_true]
  exact ⟨⟨⟨hzero, hbound⟩, hmax⟩, hhead⟩

/-- A well-formed `ACQUIRE` is answered `ERROR` only when the kernel made no memfds. -/
theorem HandleMessage.error_of_acquire (h : HandleMessage k client c g a r) {events : List Event}
    (hlog : r.1.log = k.log ++ events) (hrecv : a.recv = .datagram d)
    (hm : brokerReceive d = .message m) (htype : m.type = MessageType.acquire.code)
    (hvalid : requestInvalid m = false) {sent : Bool}
    (herror : replyEvent c (brokerMessageInit .error) [] sent ∈ events) :
    memfdsMade (k.emit [.received c d]) a.toCreateAnswers = false := by
  have hevents : ∀ {more}, k.log ++ events = k.log ++ more →
      replyEvent c (brokerMessageInit .error) [] sent ∈ more := by
    intro more heq
    rwa [← List.append_cancel_left heq]
  have hsame : ∀ {d' m'}, a.recv = .datagram d' → brokerReceive d' = .message m' →
      d' = d ∧ m' = m := by
    intro d' m' hrecv' hm'
    obtain rfl : d' = d := by simpa [hrecv] using hrecv'.symm
    exact ⟨rfl, by simpa [hm] using hm'.symm⟩
  have hother : ∀ {type : MessageType}, m.type = type.code → type = .acquire := by
    intro type htype'
    exact MessageType.code_injective (htype'.symm.trans htype)
  cases h with
  | failed hrecv' =>
      rw [hrecv] at hrecv'
      cases hrecv'
  | dropped d' hrecv' hd =>
      obtain rfl : d' = d := by simpa [hrecv] using hrecv'.symm
      exact absurd hm (hd m)
  | plain d' m' reply keep hrecv' hm' hreply =>
      obtain ⟨rfl, rfl⟩ := hsame hrecv' hm'
      cases hreply with
      | declined =>
          have hin := hevents hlog.symm
          cases sent <;> cases hs : a.sent <;> simp [replyEvent, hs] at hin
          all_goals exact absurd (congrArg MessageV1.type hin) (by decide)
      | rejected h' | unacknowledged h' | ignored h' | detached h' => cases hother h'
      | unknown h' => exact absurd htype h'
  | shared d' m' p q =>
      have hin := hevents hlog.symm
      cases sent <;> cases hs : a.sent <;> simp [replyEvent, hs] at hin
  | created d' m' cacheFd lockFd =>
      have hin := hevents (hlog.symm.trans (List.append_assoc _ _ _))
      cases sent <;> cases hs : a.sent <;> simp [replyEvent, hs] at hin
  | notCreated d' m' made hrecv' hm' _ _ _ hwhy =>
      obtain ⟨rfl, rfl⟩ := hsame hrecv' hm'
      rw [hvalid] at hwhy
      exact hwhy.resolve_left Bool.false_ne_true
  | published d' m' hrecv' hm' htype' =>
      obtain ⟨rfl, rfl⟩ := hsame hrecv' hm'
      cases hother htype'
  | aborted d' m' p q hrecv' hm' htype' =>
      obtain ⟨rfl, rfl⟩ := hsame hrecv' hm'
      cases hother htype'

end Acquire

/-! ### The client's checks on a reply with descriptors -/

section Reply

variable {p p' : Process} {client : BrokerClient} {out : Outputs} {size : UInt64} {m : MessageV1}
  {packet : Packet} {numbers : List Nat} {fds : List Fd} {a : MapAnswers}

/-- A reply with its two descriptors that fits the request goes on to `mmap`. -/
theorem acquireReply_of_fits {r : MessageV1} (hfits : Fits r m) (hsize : r.mappingSize = size)
    (hcount : fds.length = brokerDescriptorCount) :
    acquireReply p client out size m fds a =
      acquireMap p { client with cacheFd := fds.getD 0 (-1), lockFd := fds.getD 1 (-1) } out size m
        a := by
  have hne : ∀ {type type' : MessageType}, m.type = type.code → type ≠ type' →
      m.type ≠ type'.code := fun htype hne heq =>
    hne (MessageType.code_injective (htype.symm.trans heq))
  have hrefused : ¬ (m.type = MessageType.decline.code ∨ m.type = MessageType.error.code) := by
    rcases hfits.metadata with htype | ⟨htype, -⟩
    · exact not_or.mpr ⟨hne htype (by decide), hne htype (by decide)⟩
    · exact not_or.mpr ⟨hne htype (by decide), hne htype (by decide)⟩
  have hvalid : ¬ (fds.length ≠ brokerDescriptorCount ∨ m.mappingSize ≠ size ∨
      (m.type ≠ MessageType.create.code ∧ m.type ≠ MessageType.attach.code)) := by
    rintro (hlength | hmapping | ⟨hcreate, hattach⟩)
    · exact hlength hcount
    · exact hmapping (hfits.mappingSize.trans hsize)
    · exact hfits.metadata.elim hcreate fun h => hattach h.1
  have hmetadata : ¬ (m.type = MessageType.attach.code ∧
      (m.mappingBase = 0 ∨ m.sharedGlobalsOffset ≥ m.mappingSize)) := by
    rintro ⟨hattach, hbad⟩
    rcases hfits.metadata with hcreate | ⟨-, hbase, hoffset⟩
    · exact hne hcreate (by decide) hattach
    · exact hbad.elim hbase (UInt64.not_le.mpr hoffset)
  simp only [acquireReply, if_neg hrefused, if_neg hvalid, if_neg hmetadata]

/-- `acquire` fails after the reply only if `mmap` fails or maps elsewhere than `ATTACH` says,
or if there is no memory for the segment. -/
def FailsOnlyInMapping (size : UInt64) (packet : Packet) : Prop :=
  ∀ p p' client out numbers m fds a,
    clientReceiveMessage p client.socketFd brokerDescriptorCount
        (.ok (packet.reception numbers)) = (p', .ok (m, fds)) →
      ((acquireReceive p client out size (.ok (packet.reception numbers)) a).2.2.2 = .allocFailure ↔
        match (p'.mmap (fds.getD 0 (-1)) size a.mapped).2 with
        | none => True
        | some address =>
            packet.message.type = MessageType.attach.code ∧ address ≠ packet.message.mappingBase ∨
              a.allocated = 0)

/-- Two free numbers are all that receiving the reply takes. -/
def Receivable (packet : Packet) : Prop :=
  ∀ p fd c n n', p.fds.get fd = some (.conn c) → p.fds.Free n → p.fds.Free n' → n ≠ n' →
    ∃ p', clientReceiveMessage p fd brokerDescriptorCount (.ok (packet.reception [n, n'])) =
      (p', .ok (packet.message, [(n : Fd), (n' : Fd)]))

theorem failsOnlyInMapping_of_fits {r : MessageV1} {cache lock : Object} (hfits : Fits r m)
    (hsize : r.mappingSize = size) : FailsOnlyInMapping size ⟨m, [cache, lock]⟩ := by
  intro p p' client out numbers m' fds a hreceive
  obtain ⟨r', hr', htook⟩ := clientReceiveMessage_ok hreceive
  cases hr'
  have hsame : m = m' := htook.message_eq.symm
  subst hsame
  have hcount : fds.length = brokerDescriptorCount := by
    have hall : ¬ numbers.length < 2 := of_decide_eq_false htook.whole
    rw [htook.names, Packet.installed_reception, List.length_map, List.length_zip]
    exact Nat.min_eq_right (Nat.le_of_not_lt hall)
  have hreply : acquireReceive p client out size (.ok (Packet.reception ⟨m, [cache, lock]⟩ numbers)) a =
      acquireReply p' client out size m fds a := by
    simp only [acquireReceive, hreceive]
  rw [hreply, acquireReply_of_fits hfits hsize hcount]
  exact acquireMap_fails_iff

theorem receivable_of_framed {cache lock : Object} (hframed : m.framed = true) :
    Receivable ⟨m, [cache, lock]⟩ := by
  intro p fd c n n' hfd hn hn' hne
  have hn'' : (p.fds.install n cache).Free n' := by
    have hget : (p.fds.install n cache).get (n' : Int) = p.fds.get (n' : Int) :=
      DescriptorTable.get_install_of_ne (Int.ofNat_inj.not.mpr hne.symm) _
    exact hget.trans hn'
  have hinstall : installAll p.fds (Packet.reception ⟨m, [cache, lock]⟩ [n, n']).installed =
      some ((p.fds.install n cache).install n' lock) := by
    rw [Packet.installed_reception]
    simp [installAll, hn, hn'']
  have hlength : m.encode.length = sizeofMessage := MessageV1.length_encode m
  have htake : m.encode.take sizeofMessage = m.encode := List.take_of_length_le hlength.le
  refine ⟨{ p with
    fds := (p.fds.install n cache).install n' lock
    log := p.log ++ (Packet.reception ⟨m, [cache, lock]⟩ [n, n']).installed.map fun i =>
      .opened i.2 }, ?_⟩
  simp only [clientReceiveMessage, Process.recvmsg, hfd, hinstall]
  simp [Packet.reception, collectFds, brokerDescriptorCount, hlength, htake,
    MessageV1.decode_encode, hframed]

end Reply

/-! ### Honest traffic -/

namespace Deployment

variable {config : ConnId → Config} {s t : Deployment} {c : ConnId} {d : List UInt8} {m : MessageV1}
  {i : Input}

/-- What a step takes was at the head of the queue, or is the end of the stream. -/
theorem Reachable.taken_queued (hstep : s.stepBroker i = some t)
    (hmem : Event.received c d ∈ s.broker.newEvents (s.broker.step i))
    (hm : brokerReceive d = .message m) (hs : Reachable config s) :
    ∃ rest, (s.channels c).toBroker = d :: rest := by
  obtain ⟨-, -, -, habsorb⟩ := stepBroker_eq_some hstep
  have hdrain := (absorbed habsorb c).toBroker
  cases hs.broker.view i c with
  | apart htaken =>
      rw [takenFrom_eq_nil] at htaken
      exact absurd hmem (htaken d)
  | active _ _ _ _ htaken =>
      have hone := mem_takenFrom.mpr hmem
      rw [htaken, List.mem_singleton] at hone
      subst hone
      rw [htaken] at hdrain
      rcases hdrain.single with hq | ⟨-, -, rfl, -⟩
      · exact ⟨_, hq⟩
      · exact absurd hm brokerReceive_nil

theorem Reachable.honest_taken (hs : Reachable config s) (hstep : s.stepBroker i = some t)
    (hmem : Event.received c d ∈ s.broker.newEvents (s.broker.step i))
    (hm : brokerReceive d = .message m) : Honest config s.history c m := by
  obtain ⟨rest, hq⟩ := hs.taken_queued hstep hmem hm
  have hin : d ∈ (s.channels c).toBroker := by
    rw [hq]
    exact List.mem_cons_self
  obtain ⟨m', rfl, hhonest⟩ := hs.provenance.queued c d hin
  rw [brokerReceive_encode hhonest.framed] at hm
  cases hm
  exact hhonest

theorem Reachable.error_of_acquire (hs : Reachable config s)
    (hsize : 1 ≤ (config c).requestedSize.toNat ∧ (config c).requestedSize.toNat ≤ int64Max)
    {a : Answers} {sent : Bool} (hstep : s.stepBroker (.dispatch a) = some t)
    (hmem : Event.received c d ∈ s.broker.newEvents (s.broker.step (.dispatch a)))
    (hm : brokerReceive d = .message m) (htype : m.type = MessageType.acquire.code)
    (herror : replyEvent c (brokerMessageInit .error) [] sent ∈
      s.broker.newEvents (s.broker.step (.dispatch a))) :
    memfdsMade (s.broker.kernel.emit [.received c d]) a.toCreateAnswers = false := by
  obtain ⟨path, key, hkey, rfl⟩ := (hs.honest_taken hstep hmem hm).of_acquire htype
  obtain ⟨a', client, r, events, more, hi, hmsg, hrecv, hlog, hnew, hmore⟩ := hs.broker.takes hmem
  cases hi
  rw [hnew] at herror
  have hin := (List.mem_append.mp herror).resolve_right fun hclosed => by
    obtain ⟨o, ho⟩ := hmore _ hclosed
    exact absurd ho.symm (by simp)
  exact hmsg.error_of_acquire hlog hrecv hm htype
    (requestInvalid_acquireRequest hkey hsize.1 hsize.2) hin

/-- A creator that runs can publish any globals inside its mapping. -/
theorem Reachable.publish_inside (hs : Reachable config s) {g : UInt64}
    (hpc : (s.participants c).pc = .running) (hcreator : (s.participants c).client.creator = true)
    (hlow : (s.participants c).client.mapping.toNat ≤ g.toNat)
    (hhigh : g.toNat < (s.participants c).client.mapping.toNat +
      (s.participants c).client.mappingSize.toNat) :
    publishRefused (s.participants c).client g = false := by
  obtain ⟨acquisition, hmem, hsame, hstatus⟩ := hs.provenance.running c hpc
  rcases hs.provenance.acquisitions c acquisition hmem with hfail | ⟨packet, -, hfollows⟩
  · exact absurd hfail hstatus
  · exact publishRefused_of_inside hcreator (hsame ▸ hfollows.mapping) hlow hhigh

/-- The broker answers `ACK` to `READY`, and nothing else. -/
theorem Reachable.ready_acknowledged (hs : Reachable config s) (hstep : s.stepBroker i = some t)
    (hmem : Event.received c d ∈ s.broker.newEvents (s.broker.step i))
    (hm : brokerReceive d = .message m) (htype : m.type = MessageType.ready.code) :
    (∃ sent, replyEvent c (brokerMessageInit .ack) [] sent ∈ s.broker.newEvents (s.broker.step i)) ∧
      ∀ m' attached sent, replyEvent c m' attached sent ∈ s.broker.newEvents (s.broker.step i) →
        m' = brokerMessageInit .ack := by
  obtain ⟨rest, hq⟩ := hs.taken_queued hstep hmem hm
  obtain ⟨p, hbuild⟩ := (hs.inStep c).ready_first d rest m hq ⟨hm, htype⟩
  obtain ⟨acquisition, g, -, -, haccepted, rfl⟩ :=
    (hs.honest_taken hstep hmem hm).of_ready htype
  cases hs.broker.view i c with
  | apart htaken =>
      rw [takenFrom_eq_nil] at htaken
      exact absurd hmem (htaken d)
  | @active served _ _ _ d' hopen hserved hin htaken _ hback hall _ =>
      have hone := mem_takenFrom.mpr hmem
      rw [htaken, List.mem_singleton] at hone
      subst hone
      obtain ⟨key, hbuilding⟩ := hbuild.resolve_left hopen.2
      rw [hbuilding] at hserved
      have hevents : ∃ sent, served = [.received c d, replyEvent c (brokerMessageInit .ack) [] sent] := by
        rcases hserved.ready_reply hin hm htype (accepts_readyRequest haccepted) with
          ⟨hevents, -, -⟩ | ⟨hevents, -, -⟩
        · exact ⟨false, hevents⟩
        · exact ⟨true, hevents⟩
      obtain ⟨sent, rfl⟩ := hevents
      refine ⟨⟨sent, hback _ (by simp)⟩, ?_⟩
      intro m' attached sent' hreply
      rcases hall _ hreply with hserve | ⟨o, ho⟩
      · cases sent <;> cases sent' <;> simp [replyEvent] at hserve
        · exact hserve.1
        · exact hserve.1
      · exact absurd ho.symm (by simp)

theorem Reachable.reply_fits (hs : Reachable config s) {attached : List Object}
    (hsent : Event.sent c m attached ∈ s.log)
    (htype : m.type = MessageType.create.code ∨ m.type = MessageType.attach.code) :
    ∃ cache lock r, attached = [cache, lock] ∧ Fits r m ∧
      r.mappingSize = (config c).requestedSize := by
  have hcustody := hs.broker.refines.custody
  rcases hs.records.pairs c m attached (.inl hsent) with rfl | ⟨p, rfl, -⟩
  · obtain ⟨hcreate, hattach⟩ := hcustody.bare c m hsent
    exact (htype.elim hcreate hattach).elim
  · obtain ⟨r, hrequested, hfits⟩ := hcustody.fits c m p (p + 1) hsent
    obtain ⟨path, key, -, rfl⟩ := (hs.provenance.requested hrequested).of_acquire hfits.request
    exact ⟨_, _, _, rfl, hfits, rfl⟩

/-- No check of one side refuses what the other side sends in good faith. -/
structure ValidationAgrees (config : ConnId → Config) (s : Deployment) : Prop where
  acquired : ∀ a t c d m sent, s.stepBroker (.dispatch a) = some t →
    Event.received c d ∈ s.broker.newEvents (s.broker.step (.dispatch a)) →
    brokerReceive d = .message m → m.type = MessageType.acquire.code →
    replyEvent c (brokerMessageInit .error) [] sent ∈
      s.broker.newEvents (s.broker.step (.dispatch a)) →
    memfdsMade (s.broker.kernel.emit [.received c d]) a.toCreateAnswers = false
  offered : ∀ c g, (s.participants c).pc = .running → (s.participants c).client.creator = true →
    (s.participants c).client.mapping.toNat ≤ g.toNat →
    g.toNat < (s.participants c).client.mapping.toNat +
      (s.participants c).client.mappingSize.toNat →
    publishRefused (s.participants c).client g = false
  acknowledged : ∀ i t c d m, s.stepBroker i = some t →
    Event.received c d ∈ s.broker.newEvents (s.broker.step i) → brokerReceive d = .message m →
    m.type = MessageType.ready.code →
    (∃ sent, replyEvent c (brokerMessageInit .ack) [] sent ∈
        s.broker.newEvents (s.broker.step i)) ∧
      ∀ m' attached sent, replyEvent c m' attached sent ∈ s.broker.newEvents (s.broker.step i) →
        m' = brokerMessageInit .ack
  shared : ∀ c m attached, Event.sent c m attached ∈ s.log →
    m.type = MessageType.create.code ∨ m.type = MessageType.attach.code →
    Receivable ⟨m, attached⟩ ∧ FailsOnlyInMapping (config c).requestedSize ⟨m, attached⟩

theorem validation_agrees (h : Reachable config s)
    (hsize : ∀ c, 1 ≤ (config c).requestedSize.toNat ∧ (config c).requestedSize.toNat ≤ int64Max) :
    s.ValidationAgrees config where
  acquired := fun _ _ c _ _ _ hstep hmem hm htype herror =>
    h.error_of_acquire (hsize c) hstep hmem hm htype herror
  offered := fun _ _ hpc hcreator hlow hhigh => h.publish_inside hpc hcreator hlow hhigh
  acknowledged := fun _ _ _ _ _ hstep hmem hm htype => h.ready_acknowledged hstep hmem hm htype
  shared := by
    intro c m attached hsent htype
    obtain ⟨cache, lock, r, rfl, hfits, hrequested⟩ := h.reply_fits hsent htype
    exact ⟨receivable_of_framed hfits.framed, failsOnlyInMapping_of_fits hfits hrequested⟩

theorem validation_agrees_of_two : ∃ s, (start 0 3).run pageConfig sharing = some s ∧
    .acquired 1 (pageAcquisition .successfullyReattached false 65552) ∈ s.history ∧
      s.ValidationAgrees pageConfig := by
  obtain ⟨s, hrun, hhistory⟩ := Option.map_eq_some_iff.mp sharing_history
  have hsize : 1 ≤ (4096 : UInt64).toNat ∧ (4096 : UInt64).toNat ≤ int64Max := by decide
  refine ⟨s, hrun, ?_, validation_agrees ((reachable_start 0 3).run hrun) fun _ => hsize⟩
  rw [hhistory]
  decide

end Deployment

end Hyperglyph
