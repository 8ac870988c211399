import Hyperglyph.Broker.Handlers
import Hyperglyph.Client.BrokerClient

/-! One wire format with two receivers: `ahe_broker_receive_message` of the broker, which calls
`recv`, and of the client, which calls `recvmsg` and looks at `MSG_TRUNC`. -/
namespace Hyperglyph

/-- One message with the protocol's magic and version, and nothing else. -/
def WellFramed (d : List UInt8) : Prop :=
  d.length = sizeofMessage ∧ (MessageV1.decode d).framed = true

instance (d : List UInt8) : Decidable (WellFramed d) := inferInstanceAs (Decidable (_ ∧ _))

/-- More than a message, with a message at its beginning. -/
def Overlong (d : List UInt8) : Prop :=
  sizeofMessage < d.length ∧ WellFramed (d.take sizeofMessage)

instance (d : List UInt8) : Decidable (Overlong d) := inferInstanceAs (Decidable (_ ∧ _))

/-- A datagram without descriptors, as `recvmsg` reports it. -/
def Reception.plain (d : List UInt8) : Reception := ⟨d, [], false⟩

section Receivers

variable {d : List UInt8} {m : MessageV1} {fds : List Fd}

theorem WellFramed.take_eq (h : WellFramed d) : d.take sizeofMessage = d :=
  List.take_of_length_le h.1.le

/-- The broker reads a message that is there, or the one that a longer datagram begins with. -/
theorem brokerReceive_eq_message : brokerReceive d = .message m ↔
    (WellFramed d ∨ Overlong d) ∧ m = MessageV1.decode (d.take sizeofMessage) := by
  have hpos : sizeofMessage ≠ 0 := by decide
  unfold brokerReceive
  dsimp only
  constructor
  · intro h
    split at h
    · cases h
    · split at h
      · cases h
      · next hgood =>
          simp only [ne_eq, not_or, not_not, Bool.not_eq_true', Bool.not_eq_false] at hgood
          obtain ⟨hsize, hframed⟩ := hgood
          have hlength : (d.take sizeofMessage).length = sizeofMessage := by
            rw [List.length_take]
            omega
          refine ⟨?_, (Received.message.inj h).symm⟩
          rcases Nat.lt_or_ge sizeofMessage d.length with hlong | hshort
          · exact .inr ⟨hlong, hlength, hframed⟩
          · left
            rw [List.take_of_length_le hshort] at hlength hframed
            exact ⟨hlength, hframed⟩
  · rintro ⟨haccepted, rfl⟩
    have hreceived : min d.length sizeofMessage = sizeofMessage := by
      rcases haccepted with hwhole | hlong
      · rw [hwhole.1, Nat.min_self]
      · exact Nat.min_eq_right hlong.1.le
    have hframed : (MessageV1.decode (d.take sizeofMessage)).framed = true := by
      rcases haccepted with hwhole | hlong
      · rw [hwhole.take_eq]
        exact hwhole.2
      · exact hlong.2.2
    rw [hreceived, if_neg hpos, hframed]
    simp

theorem brokerReceiveMessage_datagram {k : Kernel} {clientFd : Fd} {c : ConnId} {a : Answers}
    (hopen : k.fds.get clientFd = some (.conn c)) (hrecv : a.recv = .datagram d) :
    (brokerReceiveMessage k clientFd a).2 = brokerReceive d := by
  simp only [brokerReceiveMessage, Kernel.recv, hopen, hrecv]

/-- The client reads nothing but a message. -/
theorem clientReceiveMessage_eq_ok {p : Process} {socketFd : Fd} {c : ConnId} {capacity : Nat}
    (hopen : p.fds.get socketFd = some (.conn c)) :
    (clientReceiveMessage p socketFd capacity (.ok (.plain d))).2 = .ok (m, fds) ↔
      WellFramed d ∧ m = MessageV1.decode d ∧ fds = [] := by
  have hrecv : p.recvmsg socketFd (.ok (.plain d)) =
      ({ p with log := p.log ++ [] }, .ok (.plain d)) := by
    unfold Process.recvmsg
    rw [hopen]
    rfl
  unfold clientReceiveMessage
  rw [hrecv]
  show (if min d.length sizeofMessage ≠ sizeofMessage ∨ d.length > sizeofMessage ∨ false = true ∨
      (!(MessageV1.decode (d.take sizeofMessage)).framed) = true then _ else _ :
    Process × Except Errno (MessageV1 × List Fd)).2 = _ ↔ _
  by_cases hwhole : WellFramed d
  · rw [if_neg]
    · show Except.ok (MessageV1.decode (d.take sizeofMessage), ([] : List Fd)) = .ok (m, fds) ↔ _
      rw [hwhole.take_eq]
      simp [hwhole, eq_comm]
    · rw [hwhole.take_eq, hwhole.1, hwhole.2]
      simp
  · rw [if_pos]
    · simp [hwhole]
    · by_contra hgood
      simp only [ne_eq, not_or, not_not, Bool.not_eq_true', Bool.not_eq_false] at hgood
      obtain ⟨hsize, hlong, -, hframed⟩ := hgood
      rw [List.take_of_length_le (by omega)] at hframed
      exact hwhole ⟨by omega, hframed⟩

end Receivers

/-- What the two receivers are to make of the datagram `d`: they take it as a message when it is
one, and then they read the same. -/
structure SameFrames (d : List UInt8) : Prop where
  broker : ∀ {k clientFd c a}, k.fds.get clientFd = some (.conn c) → a.recv = .datagram d →
    ((∃ m, (brokerReceiveMessage k clientFd a).2 = .message m) ↔ WellFramed d)
  client : ∀ {p socketFd c capacity}, p.fds.get socketFd = some (.conn c) →
    ((∃ r, (clientReceiveMessage p socketFd capacity (.ok (.plain d))).2 = .ok r) ↔ WellFramed d)
  message : ∀ {k clientFd c a p socketFd c' capacity m r},
    k.fds.get clientFd = some (.conn c) → a.recv = .datagram d →
      p.fds.get socketFd = some (.conn c') → (brokerReceiveMessage k clientFd a).2 = .message m →
        (clientReceiveMessage p socketFd capacity (.ok (.plain d))).2 = .ok r → r = (m, [])

theorem WellFramed.not_overlong {d : List UInt8} (h : WellFramed d) : ¬ Overlong d := by
  intro hlong
  have hlt := hlong.1
  rw [h.1] at hlt
  exact Nat.lt_irrefl _ hlt

/-- A kernel and a process with one connection, at descriptor 0. -/
def connected : Kernel × Process :=
  (⟨DescriptorTable.empty.install 0 (.conn 0), 0, []⟩,
    ⟨DescriptorTable.empty.install 0 (.conn 0), []⟩)

theorem not_sameFrames_of_overlong {d : List UInt8} (h : Overlong d) : ¬ SameFrames d := by
  intro hsame
  let a : Answers :=
    { cacheMemfdExec := none, execRejected := false, cacheMemfd := none, cacheTruncated := false,
      lockMemfd := none, lockTruncated := false, recv := .datagram d, sent := false }
  have hopen : connected.1.fds.get (0 : Nat) = some (.conn 0) := DescriptorTable.get_install_self 0 _
  have haccepts : ∃ m, (brokerReceiveMessage connected.1 (0 : Nat) a).2 = .message m := by
    refine ⟨MessageV1.decode (d.take sizeofMessage), ?_⟩
    rw [brokerReceiveMessage_datagram (a := a) hopen rfl]
    exact brokerReceive_eq_message.mpr ⟨.inr h, rfl⟩
  exact ((hsame.broker (a := a) hopen rfl).mp haccepts).not_overlong h

/-- The receivers agree on every datagram but those that are longer than a message and begin with
one. -/
theorem same_frames_iff (d : List UInt8) : SameFrames d ↔ ¬ Overlong d := by
  constructor
  · exact fun hsame hlong => not_sameFrames_of_overlong hlong hsame
  · intro hlong
    refine ⟨?_, ?_, ?_⟩
    · intro k clientFd c a hopen hrecv
      rw [brokerReceiveMessage_datagram hopen hrecv]
      simp only [brokerReceive_eq_message, or_iff_left hlong, exists_and_left, exists_eq, and_true]
    · intro p socketFd c capacity hopen
      simp only [Prod.exists, clientReceiveMessage_eq_ok hopen, exists_and_left, exists_eq, and_true]
    · rintro k clientFd c a p socketFd c' capacity m ⟨m', fds⟩ hopen hrecv hopen' hbroker hclient
      rw [brokerReceiveMessage_datagram hopen hrecv, brokerReceive_eq_message] at hbroker
      obtain ⟨hwhole, rfl, rfl⟩ := (clientReceiveMessage_eq_ok hopen').mp hclient
      rw [hbroker.2, hwhole.take_eq]

/-- A `DETACH` with one octet behind it. -/
def overlongDetach : List UInt8 := (brokerMessageInit .detach).encode ++ [0]

theorem overlong_detach_accepted : ¬ SameFrames overlongDetach :=
  not_sameFrames_of_overlong (by decide +kernel)

end Hyperglyph
