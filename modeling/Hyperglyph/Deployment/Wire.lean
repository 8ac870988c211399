import Hyperglyph.Deployment.Receivers

/-! The wire format is exact: every datagram of the right size is one message and every message one
such datagram, and what either receiver takes is what the other side sent. -/
namespace Hyperglyph

open Octets

section Codec

variable {d : List UInt8} {m : MessageV1}

private theorem word_octets {octets : List UInt8} (h : octets.length = 4) :
    ofNat 4 (UInt32.ofNat (toNat octets)).toNat = octets := by
  have hbound : toNat octets < 2 ^ 32 := by
    have hlt := toNat_lt octets
    rwa [h] at hlt
  rw [UInt32.toNat_ofNat_of_lt' hbound, ← h, ofNat_toNat]

private theorem long_octets {octets : List UInt8} (h : octets.length = 8) :
    ofNat 8 (UInt64.ofNat (toNat octets)).toNat = octets := by
  have hbound : toNat octets < 2 ^ 64 := by
    have hlt := toNat_lt octets
    rwa [h] at hlt
  rw [UInt64.toNat_ofNat_of_lt' hbound, ← h, ofNat_toNat]

theorem KeyBuffer.bytes_ofBytes {octets : List UInt8} (h : octets.length = brokerCacheKeySize) :
    (KeyBuffer.ofBytes octets).bytes = octets := by
  simp only [KeyBuffer.ofBytes]
  exact List.take_left' h

/-- Every octet of a datagram of the right size is part of the message in it. -/
theorem MessageV1.encode_decode (h : d.length = sizeofMessage) : (decode d).encode = d := by
  have hword : ∀ offset, offset + 4 ≤ 296 →
      ofNat 4 (UInt32.ofNat (toNat (field d offset 4))).toNat = field d offset 4 :=
    fun offset hfits => word_octets (length_field (h ▸ hfits))
  have hlong : ∀ offset, offset + 8 ≤ 296 →
      ofNat 8 (UInt64.ofNat (toNat (field d offset 8))).toNat = field d offset 8 :=
    fun offset hfits => long_octets (length_field (h ▸ hfits))
  have hbuffer : (KeyBuffer.ofBytes (field d 40 brokerCacheKeySize)).bytes =
      field d 40 brokerCacheKeySize := KeyBuffer.bytes_ofBytes (length_field (h ▸ le_refl 296))
  have hkey : field d 40 brokerCacheKeySize = d.drop 40 := by
    refine List.take_of_length_le ?_
    rw [List.length_drop, h]
    decide
  have hnext := field_append_drop d
  calc (decode d).encode
      _ = field d 0 4 ++ (field d 4 4 ++ (field d 8 4 ++ (field d 12 4 ++ (field d 16 8 ++
            (field d 24 8 ++ (field d 32 8 ++ field d 40 brokerCacheKeySize)))))) := by
          simp (disch := decide) only [encode, decode, hword, hlong, hbuffer]
      _ = d := by
          rw [hkey, hnext 32 8, hnext 24 8, hnext 16 8, hnext 12 4, hnext 8 4, hnext 4 4,
            hnext 0 4, List.drop_zero]

end Codec

section Receivers

variable {d : List UInt8} {m : MessageV1} {p : Process} {socketFd : Fd} {capacity : Nat}
  {acc fds : List Fd} {control : List ControlMessage} {r : Reception}

theorem brokerReceive_iff : brokerReceive d = .message m ↔ m.framed = true ∧ m.encode <+: d := by
  rw [brokerReceive_eq_message]
  constructor
  · rintro ⟨haccepted, rfl⟩
    have hwhole : WellFramed (d.take sizeofMessage) := by
      rcases haccepted with hwhole | hlong
      · rwa [hwhole.take_eq]
      · exact hlong.2
    refine ⟨hwhole.2, ?_⟩
    rw [MessageV1.encode_decode hwhole.1]
    exact List.take_prefix _ d
  · rintro ⟨hframed, rest, rfl⟩
    have htake : (m.encode ++ rest).take sizeofMessage = m.encode :=
      List.take_left' m.length_encode
    have hwhole : WellFramed m.encode := ⟨m.length_encode, by rwa [m.decode_encode]⟩
    refine ⟨?_, by rw [htake, m.decode_encode]⟩
    cases rest with
    | nil => exact .inl (by rwa [List.append_nil])
    | cons b rest =>
        refine .inr ⟨?_, by rwa [htake]⟩
        rw [List.length_append, m.length_encode, List.length_cons]
        omega

/-- The payload is a whole number of descriptors. -/
def ControlMessage.whole : ControlMessage → Bool
  | .other => true
  | .rights _ ragged => !ragged

/-- The numbers of all descriptors that came are collected, or the call fails. -/
theorem collectFds_eq_some (hacc : acc.length ≤ capacity) :
    (collectFds p capacity acc control).2 = some fds ↔
      (∀ c ∈ control, c.whole = true) ∧
        fds = acc ++ (control.flatMap ControlMessage.installed).map (fun i => (i.1 : Fd)) ∧
          fds.length ≤ capacity := by
  induction control generalizing p acc with
  | nil =>
      simp only [collectFds, Option.some_inj, List.not_mem_nil, false_imp_iff, implies_true,
        List.flatMap_nil, List.map_nil, List.append_nil, true_and]
      constructor
      · rintro rfl
        exact ⟨rfl, hacc⟩
      · rintro ⟨rfl, -⟩
        rfl
  | cons c control ih =>
      cases c with
      | other => simpa [collectFds, ControlMessage.whole, ControlMessage.installed] using ih hacc
      | rights installed ragged =>
          rw [collectFds]
          split
          · next hbad =>
              simp only [reduceCtorEq, false_iff, List.forall_mem_cons, ControlMessage.whole]
              rintro ⟨⟨hwhole, -⟩, rfl, hfits⟩
              rcases hbad with hragged | hlong
              · simp [hragged] at hwhole
              · simp [ControlMessage.installed] at hfits hlong
                omega
          · next hgood =>
              obtain ⟨hragged, hfits⟩ := not_or.mp hgood
              rw [ih (by simpa using hfits)]
              simp [ControlMessage.whole, ControlMessage.installed, hragged]

/-- The client takes whole messages only, with all the descriptors they came with. -/
theorem clientReceiveMessage_iff (hrecv : (p.recvmsg socketFd (.ok r)).2 = .ok r) :
    (clientReceiveMessage p socketFd capacity (.ok r)).2 = .ok (m, fds) ↔
      m.framed = true ∧ r.octets = m.encode ∧ r.controlTruncated = false ∧
        (∀ c ∈ r.control, c.whole = true) ∧ fds = r.installed.map (fun i => (i.1 : Fd)) ∧
          fds.length ≤ capacity := by
  have hcollect : (collectFds (p.recvmsg socketFd (.ok r)).1 capacity [] r.control).2 = some fds ↔
      (∀ c ∈ r.control, c.whole = true) ∧ fds = r.installed.map (fun i => (i.1 : Fd)) ∧
        fds.length ≤ capacity := by
    rw [collectFds_eq_some (Nat.zero_le capacity), List.nil_append, Reception.installed]
  unfold clientReceiveMessage
  generalize p.recvmsg socketFd (.ok r) = received at hrecv hcollect ⊢
  obtain ⟨p', _⟩ := received
  obtain rfl := hrecv
  dsimp only at hcollect ⊢
  generalize collectFds p' capacity [] r.control = collected at hcollect ⊢
  obtain ⟨q, found⟩ := collected
  have hrest : (∀ c ∈ r.control, c.whole = true) ∧ fds = r.installed.map (fun i => (i.1 : Fd)) ∧
      fds.length ≤ capacity ↔ found = some fds := hcollect.symm
  have hframe : WellFramed r.octets ∧ m = MessageV1.decode r.octets ↔
      m.framed = true ∧ r.octets = m.encode := by
    constructor
    · rintro ⟨hwhole, rfl⟩
      exact ⟨hwhole.2, (MessageV1.encode_decode hwhole.1).symm⟩
    · rintro ⟨hframed, hoctets⟩
      rw [hoctets, m.decode_encode]
      exact ⟨⟨m.length_encode, by rwa [m.decode_encode]⟩, rfl⟩
  rw [hrest, ← and_assoc, ← hframe]
  cases found with
  | none => simp
  | some fds' =>
      dsimp only
      split
      · next hbad =>
          simp only [reduceCtorEq, false_iff]
          rintro ⟨⟨hwhole, -⟩, hcontrol, -⟩
          simp [hwhole.1, hwhole.2, hcontrol, hwhole.take_eq] at hbad
      · next hgood =>
          simp only [ne_eq, not_or, not_not, Bool.not_eq_true, Bool.not_eq_true',
            Bool.not_eq_false] at hgood
          obtain ⟨hsize, hlong, hcontrol, hframed⟩ := hgood
          rw [List.take_of_length_le (by omega)] at hframed ⊢
          have hwhole : WellFramed r.octets := ⟨by omega, hframed⟩
          simp [hwhole, hcontrol, eq_comm]

end Receivers

/-- What the wire carries of the message `m`. -/
structure WireExact (m : MessageV1) : Prop where
  /-- The datagrams of the right size are the messages, one each. -/
  codec : ∀ d : List UInt8, d.length = sizeofMessage ∧ MessageV1.decode d = m ↔ d = m.encode
  broker : ∀ d, brokerReceive d = .message m ↔ m.framed = true ∧ m.encode <+: d
  client : ∀ {p : Process} {socketFd : Fd} {capacity : Nat} {r : Reception} {fds : List Fd},
    (p.recvmsg socketFd (.ok r)).2 = .ok r →
    ((clientReceiveMessage p socketFd capacity (.ok r)).2 = .ok (m, fds) ↔
      m.framed = true ∧ r.octets = m.encode ∧ r.controlTruncated = false ∧
        (∀ c ∈ r.control, c.whole = true) ∧ fds = r.installed.map (fun i => (i.1 : Fd)) ∧
          fds.length ≤ capacity)

theorem wire_exact (m : MessageV1) : WireExact m where
  codec := by
    intro d
    constructor
    · rintro ⟨hsize, rfl⟩
      exact (MessageV1.encode_decode hsize).symm
    · rintro rfl
      exact ⟨m.length_encode, m.decode_encode⟩
  broker := fun _ => brokerReceive_iff
  client := clientReceiveMessage_iff

end Hyperglyph
