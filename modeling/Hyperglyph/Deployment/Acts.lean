import Hyperglyph.Client.Specification
import Hyperglyph.Deployment.Participant

/-! What one act of a process can come to, for the process, its connection and the history.
Once the process is past its startup only what it still sends matters. -/
namespace Hyperglyph

/-- Past the startup hooks. -/
def ParticipantPc.late : ParticipantPc → Bool
  | .abortDue | .awaitAbort | .settled | .awaitDetach | .ended => true
  | _ => false

/-- The acquisition came from this reply. -/
structure Acquisition.Follows (acquisition : Acquisition) (size : UInt64) (packet : Packet) :
    Prop where
  objects : ∃ cache lock, packet.attached = [cache, lock] ∧ acquisition.cache = some cache ∧
    acquisition.lock = some lock
  requested : packet.message.mappingSize = size
  mappingSize : acquisition.client.mappingSize = size
  mapping : acquisition.client.mapping ≠ 0
  kind : (acquisition.status = .allocSuccess ∧ acquisition.client.creator = true ∧
      packet.message.type = MessageType.create.code) ∨
    (acquisition.status = .successfullyReattached ∧ acquisition.client.creator = false ∧
      packet.message.type = MessageType.attach.code ∧
      acquisition.client.mapping = packet.message.mappingBase ∧
      acquisition.outputs.reattachedSharedGlobals =
        packet.message.mappingBase + packet.message.sharedGlobalsOffset)

theorem Acquisition.Follows.status_ne {acquisition : Acquisition} {size : UInt64} {packet : Packet}
    (h : acquisition.Follows size packet) : acquisition.status ≠ .allocFailure := by
  rcases h.kind with hcreate | hattach
  · rw [hcreate.1]
    decide
  · rw [hattach.1]
    decide

/-- Happenings that promise nothing. -/
def Happening.Idle (c : ConnId) : Happening → Prop
  | .abandoned c' => c' = c
  | .startupComplete c' _ => c' = c
  | .acquired c' acquisition => c' = c ∧ acquisition.status = .allocFailure
  | _ => False

inductive Acted (config : Config) (c : ConnId) (x : Participant) (ch : Channel) :
    Participant.Outcome → Prop
  | stayed : Acted config c x ch (x, ch, [])
  | begun {x' : Participant} {made : Bool} {built : List UInt8 × List UInt8} :
      x.pc = .idle → x'.pc = .connected → config.key = .ok built →
      Acted config c x ch (x', { ch with connected := made }, [])
  | asked {x' : Participant} {path key : List UInt8} :
      x.pc = .connected → x'.pc = .awaitAllocation → config.key = .ok (path, key) →
      Acted config c x ch (x', ch.push (acquireRequest key config.requestedSize),
        [.sent c (acquireRequest key config.requestedSize)])
  | obtained {x' : Participant} {packet : Packet} {rest : List Packet} {acquisition : Acquisition} :
      x.pc = .awaitAllocation → x'.pc = .running → ch.toPeer = packet :: rest →
      acquisition.client = x'.client →
      acquisition.cache = x'.process.fds.get x'.client.cacheFd →
      acquisition.lock = x'.process.fds.get x'.client.lockFd →
      acquisition.Follows config.requestedSize packet →
      Acted config c x ch (x', { ch with toPeer := rest }, [.acquired c acquisition])
  | offered {x' : Participant} {sharedGlobals : UInt64} :
      x.pc = .running → x'.pc = .awaitPublication sharedGlobals → x'.client = x.client →
      x'.process.fds = x.process.fds →
      publishRefused x.client sharedGlobals = false →
      Acted config c x ch (x', ch.push (readyRequest x.client sharedGlobals),
        [.startupComplete c sharedGlobals, .sent c (readyRequest x.client sharedGlobals)])
  | confirmed {x' : Participant} {sharedGlobals : UInt64} {packet : Packet} {rest : List Packet} :
      x.pc = .awaitPublication sharedGlobals → x'.pc.late = true → ch.toPeer = packet :: rest →
      packet.message.type = MessageType.ack.code →
      Acted config c x ch (x', { ch with toPeer := rest }, [.published c
        ⟨sharedGlobals, x.client.published, x.process.fds.get x.client.cacheFd,
          x.process.fds.get x.client.lockFd⟩])
  | notified {x' : Participant} {type : MessageType} :
      x.pc = .running ∨ x.pc.late = true → x.pc ≠ .ended → x'.pc.late = true →
      type = .abort ∨ type = .detach →
      Acted config c x ch (x', ch.push (brokerMessageInit type), [.sent c (brokerMessageInit type)])
  | silent {x' : Participant} {ch' : Channel} {happened : List Happening} :
      x'.pc.late = true → (x.pc = .ended → x'.pc = .ended) → ch'.toBroker = ch.toBroker →
      (ch'.toPeer = ch.toPeer ∨ ch'.toPeer = ch.toPeer.tail) →
      (ch'.peerClosed = ch.peerClosed ∨ x'.pc = .ended) → (∀ h ∈ happened, h.Idle c) →
      Acted config c x ch (x', ch', happened)

section Packet

variable {p p' : Process} {capacity : Nat} {packet : Packet} {numbers : List Nat} {m : MessageV1}
  {fds : List Fd}

theorem Packet.installed_reception (packet : Packet) (numbers : List Nat) :
    (packet.reception numbers).installed = numbers.zip packet.attached := by
  unfold Packet.reception Reception.installed
  dsimp only
  split
  · next hnone => simp [hnone]
  · simp [ControlMessage.installed]

/-- The message a client takes is the message of the packet. -/
theorem Took.message_eq (h : Took p capacity (packet.reception numbers) p' m fds) :
    m = packet.message := by
  have hm := h.message
  simp only [Packet.reception] at hm
  rw [hm, MessageV1.decode_encode]

/-- Two descriptors taken are the two that were attached. -/
theorem Took.objects {cacheFd lockFd : Fd}
    (h : Took p capacity (packet.reception numbers) p' m [cacheFd, lockFd]) :
    ∃ cache lock, packet.attached = [cache, lock] ∧ p'.fds.get cacheFd = some cache ∧
      p'.fds.get lockFd = some lock := by
  have hnames := h.names
  have hinstalled := h.installed
  rw [Packet.installed_reception] at hnames hinstalled
  have hall : packet.attached.length ≤ numbers.length := by
    have hwhole := h.whole
    simpa [Packet.reception] using hwhole
  have hlen := congrArg List.length hnames
  rw [List.length_map, List.length_zip, Nat.min_eq_right hall] at hlen
  obtain ⟨cache, lock, hattached⟩ := List.length_eq_two.mp hlen.symm
  rw [hattached] at hnames hinstalled hall
  match numbers, hall with
  | n :: n' :: more, _ =>
      simp only [List.zip_cons_cons, List.zip_nil_right, List.map_cons, List.map_nil,
        List.cons.injEq, and_true] at hnames hinstalled
      obtain ⟨rfl, rfl⟩ := hnames
      exact ⟨cache, lock, hattached, installAll_self hinstalled (by simp),
        installAll_self hinstalled (by simp)⟩

/-- A message without descriptors leaves the table alone. -/
theorem Took.nothing_installed {r : Reception} (h : Took p 0 r p' m fds) : p'.fds = p.fds := by
  have hfits := h.fits
  rw [h.names, List.length_map, Nat.le_zero, List.length_eq_zero_iff] at hfits
  have hinstalled := h.installed
  rw [hfits, installAll] at hinstalled
  exact (Option.some.inj hinstalled).symm

/-- A message on a queue that yielded one is the packet at its head. -/
theorem Channel.receive_ok {ch ch' : Channel} {delivery : Delivery} {r : Reception}
    (h : ch.receive delivery = (.ok r, ch')) (hlen : r.octets.length = sizeofMessage) :
    ∃ packet rest numbers, ch.toPeer = packet :: rest ∧ r = packet.reception numbers ∧
      ch' = { ch with toPeer := rest } := by
  cases delivery with
  | failed e => cases h
  | arrived numbers =>
      simp only [Channel.receive] at h
      split at h
      · next packet rest hq =>
          cases h
          exact ⟨packet, rest, numbers, hq, rfl, rfl⟩
      · split at h
        · cases h
          cases hlen
        · cases h

end Packet

namespace Participant

variable {config : Config} {c : ConnId} {x : Participant} {ch : Channel}

theorem acted_finish {x' : Participant} {ch' : Channel} {happened : List Happening}
    (hb : ch'.toBroker = ch.toBroker)
    (hp : ch'.toPeer = ch.toPeer ∨ ch'.toPeer = ch.toPeer.tail)
    (hh : ∀ h ∈ happened, h.Idle c) : Acted config c x ch (x'.finish ch' happened) :=
  .silent rfl (fun _ => rfl) hb hp (.inr rfl) hh

theorem acted_settle {x' : Participant} {ch' : Channel} (hx : x.pc ≠ .ended)
    (hb : ch'.toBroker = ch.toBroker)
    (hp : ch'.toPeer = ch.toPeer ∨ ch'.toPeer = ch.toPeer.tail)
    (hc : ch'.peerClosed = ch.peerClosed) : Acted config c x ch (x'.settle ch') :=
  .silent rfl (fun hend => absurd hend hx) hb hp (.inl hc) (by simp)

theorem acted_createSegments (hpc : x.pc = .idle) (a : ConnectAnswers) :
    Acted config c x ch (x.createSegments config c ch a) := by
  unfold createSegments
  split
  · exact .silent rfl (fun _ => rfl) rfl (.inl rfl) (.inl rfl) (by simp)
  · next path key hkey =>
      dsimp only
      split
      · exact acted_finish rfl (.inl rfl) (by simp)
      · exact .begun hpc rfl hkey

theorem acted_sendAcquire (hpc : x.pc = .connected) (answer : Except Errno Unit) :
    Acted config c x ch (x.sendAcquire config c ch answer) := by
  unfold sendAcquire
  split
  · exact .stayed
  · next path key hkey =>
      split
      · exact acted_finish rfl (.inl rfl) (by simp)
      · exact .asked hpc rfl hkey

theorem acted_receiveAllocation (hpc : x.pc = .awaitAllocation) (delivery : Delivery)
    (a : MapAnswers) : Acted config c x ch (x.receiveAllocation config c ch delivery a) := by
  unfold receiveAllocation
  have hb := ch.receive_toBroker delivery
  have hp := ch.receive_toPeer delivery
  generalize hreceive : ch.receive delivery = received at hb hp
  obtain ⟨reply, ch'⟩ := received
  dsimp only
  split
  · next hfail =>
      refine acted_finish hb hp ?_
      intro h hmem
      rw [List.mem_singleton.mp hmem]
      exact ⟨rfl, hfail⟩
  · next hsuccess =>
      obtain ⟨r, p', response, cacheFd, lockFd, hreply, htook, hsize, hsucc, hfds, -, hcache, hlock⟩ :=
        acquireReceive_success hsuccess
      subst hreply
      obtain ⟨packet, rest, numbers, hq, rfl, rfl⟩ := Channel.receive_ok hreceive htook.length
      obtain ⟨cache, lock, hattached, hcacheGet, hlockGet⟩ := htook.objects
      obtain rfl := htook.message_eq
      refine .obtained hpc rfl hq rfl rfl rfl ⟨⟨cache, lock, hattached, ?_, ?_⟩, hsize, hsucc.mappingSize,
        hsucc.mapping, hsucc.kind⟩
      · dsimp only
        rw [hfds, hcache, hcacheGet]
      · dsimp only
        rw [hfds, hlock, hlockGet]

theorem acted_startupComplete (hpc : x.pc = .running) (reattached : Bool) (sharedGlobals : UInt64)
    (answer : Except Errno Unit) :
    Acted config c x ch (x.startupComplete c ch reattached sharedGlobals answer) := by
  have hne : x.pc ≠ .ended := by rw [hpc]; decide
  unfold startupComplete
  split
  · dsimp only
    split
    · exact .silent rfl (fun hend => absurd hend hne) rfl (.inl rfl) (.inl rfl) (by simp [Happening.Idle])
    · next haccepted =>
        split
        · exact .silent rfl (fun hend => absurd hend hne) rfl (.inl rfl) (.inl rfl) (by simp [Happening.Idle])
        · next process hsend =>
            have hfds : process.fds = x.process.fds := by
              have h := Process.send_fds x.process x.client.socketFd answer
              rwa [hsend] at h
            exact .offered hpc rfl rfl hfds (by simpa using haccepted)
  · exact acted_settle hne rfl (.inl rfl) rfl

theorem acted_receivePublication {sharedGlobals : UInt64} (hpc : x.pc = .awaitPublication sharedGlobals)
    (delivery : Delivery) :
    Acted config c x ch (x.receivePublication c ch sharedGlobals delivery) := by
  have hne : x.pc ≠ .ended := by rw [hpc]; exact ParticipantPc.noConfusion
  unfold receivePublication
  have hb := ch.receive_toBroker delivery
  have hp := ch.receive_toPeer delivery
  have hclosed := ch.receive_peerClosed delivery
  generalize hreceive : ch.receive delivery = received at hb hp hclosed
  obtain ⟨reply, ch'⟩ := received
  dsimp only
  split
  · next process hack =>
      have htrue : (receiveAck x.process x.client reply).2 = true := congrArg Prod.snd hack
      obtain ⟨r, m, fds, hreply, htook, htype⟩ := receiveAck_true htrue
      rw [hack] at htook
      subst hreply
      obtain ⟨packet, rest, numbers, hq, rfl, rfl⟩ := Channel.receive_ok hreceive htook.length
      obtain rfl := htook.message_eq
      have hfds := htook.nothing_installed
      dsimp only at hfds ⊢
      rw [hfds]
      exact .confirmed hpc rfl hq htype
  · exact .silent rfl (fun hend => absurd hend hne) hb hp (.inl hclosed) (by simp [Happening.Idle])

theorem acted_notify {type : MessageType} {awaiting : ParticipantPc} {otherwise : Participant → Outcome}
    (answer : Except Errno Unit) (hx : x.pc = .running ∨ x.pc.late = true) (hne : x.pc ≠ .ended)
    (hawait : awaiting.late = true) (htype : type = .abort ∨ type = .detach)
    (hother : ∀ x', Acted config c x ch (otherwise x')) :
    Acted config c x ch (x.notify c ch type answer awaiting otherwise) := by
  unfold notify
  split
  · exact hother x
  · split
    · exact hother _
    · exact .notified hx hne hawait htype

theorem acted_close {x' : Participant} {ch' : Channel} (unmapped : Bool)
    (hb : ch'.toBroker = ch.toBroker)
    (hp : ch'.toPeer = ch.toPeer ∨ ch'.toPeer = ch.toPeer.tail) :
    Acted config c x ch (x'.close ch' unmapped) := acted_finish hb hp (by simp)

/-- The inversion theorem for acts. -/
theorem act_spec (config : Config) (c : ConnId) (x : Participant) (ch : Channel) (act : Act) :
    Acted config c x ch (x.act config c ch act) := by
  cases act with
  | createSegments a =>
      simp only [Participant.act]
      split
      · next hpc => exact acted_createSegments hpc a
      · exact .stayed
  | sendAcquire answer =>
      simp only [Participant.act]
      split
      · next hpc => exact acted_sendAcquire hpc answer
      · exact .stayed
  | receiveAllocation delivery a =>
      simp only [Participant.act]
      split
      · next hpc => exact acted_receiveAllocation hpc delivery a
      · exact .stayed
  | startupComplete reattached sharedGlobals answer =>
      simp only [Participant.act]
      split
      · next hpc => exact acted_startupComplete hpc reattached sharedGlobals answer
      · exact .stayed
  | receivePublication delivery =>
      simp only [Participant.act]
      split
      · next hpc => exact acted_receivePublication hpc delivery
      · exact .stayed
  | startupAborted =>
      simp only [Participant.act]
      split
      · next hpc =>
          exact .silent rfl (fun hend => by rw [hpc] at hend; cases hend) rfl (.inl rfl) (.inl rfl)
            (by simp)
      · exact .stayed
  | sendAbort answer =>
      simp only [Participant.act]
      split
      · next hpc =>
          have hne : x.pc ≠ .ended := by rw [hpc]; decide
          exact acted_notify answer (.inr (by rw [hpc]; rfl)) hne rfl (.inl rfl) fun x' =>
            acted_settle hne rfl (.inl rfl) rfl
      · exact .stayed
  | receiveAbort delivery =>
      simp only [Participant.act]
      split
      · next hpc =>
          exact acted_settle (by rw [hpc]; decide) (ch.receive_toBroker delivery)
            (ch.receive_toPeer delivery) (ch.receive_peerClosed delivery)
      · exact .stayed
  | detach address segment unmapped =>
      simp only [Participant.act]
      split
      · next hpc => exact acted_settle (by rw [hpc]; decide) rfl (.inl rfl) rfl
      · next hpc => exact acted_settle (by rw [hpc]; decide) rfl (.inl rfl) rfl
      · exact .stayed
  | shutdown answer unmapped =>
      simp only [Participant.act]
      split
      · next hpc =>
          exact acted_notify answer (.inl hpc) (by rw [hpc]; decide) rfl (.inr rfl) fun x' =>
            acted_close unmapped rfl (.inl rfl)
      · next hpc =>
          exact acted_notify answer (.inr (by rw [hpc]; rfl)) (by rw [hpc]; decide) rfl (.inr rfl)
            fun x' => acted_close unmapped rfl (.inl rfl)
      · exact .stayed
  | receiveDetach delivery unmapped =>
      simp only [Participant.act]
      split
      · exact acted_close unmapped (ch.receive_toBroker delivery) (ch.receive_toPeer delivery)
      · exact .stayed
  | crash => exact acted_finish rfl (.inl rfl) (by simp)

end Participant

end Hyperglyph
