import Mathlib.Data.List.Basic
import Hyperglyph.Client.BrokerClient

/-! What the client's functions come to: the messages its receiver takes, and the state a
successful acquisition leaves. -/
namespace Hyperglyph

section Receive

variable {p p' : Process} {fd : Fd} {capacity : Nat} {fds fds' : List Fd}

/-- The descriptors of a message that is not refused are those the kernel installed. -/
theorem collectFds_some {control : List ControlMessage}
    (h : collectFds p capacity fds control = (p', some fds')) :
    p' = p ∧ fds' = fds ++ (control.flatMap ControlMessage.installed).map (fun i => (i.1 : Fd)) ∧
      (fds.length ≤ capacity → fds'.length ≤ capacity) := by
  induction control generalizing fds with
  | nil =>
      cases h
      exact ⟨rfl, (List.append_nil _).symm, id⟩
  | cons message rest ih =>
      cases message with
      | other => exact ih h
      | rights installed ragged =>
          simp only [collectFds] at h
          split at h
          · cases h
          · next hfits =>
              obtain ⟨hp, hfds, hlen⟩ := ih h
              refine ⟨hp, ?_, fun _ => hlen ?_⟩
              · rw [hfds, List.append_assoc, List.flatMap_cons, List.map_append]
                rfl
              · rw [List.length_append]
                exact Nat.le_of_not_lt fun hlt => hfits (.inr hlt)

/-- A message the client takes is whole, well framed, and the one that was sent. -/
structure Took (p : Process) (capacity : Nat) (r : Reception) (p' : Process) (m : MessageV1)
    (fds : List Fd) : Prop where
  installed : installAll p.fds r.installed = some p'.fds
  names : fds = r.installed.map fun i => (i.1 : Fd)
  fits : fds.length ≤ capacity
  length : r.octets.length = sizeofMessage
  message : m = MessageV1.decode r.octets
  whole : r.controlTruncated = false

theorem recvmsg_ok {r : Reception} {a : Except Errno Reception}
    (h : p.recvmsg fd a = (p', .ok r)) : a = .ok r ∧ installAll p.fds r.installed = some p'.fds := by
  unfold Process.recvmsg at h
  split at h
  · split at h
    · cases h
    · split at h
      · next hinstall =>
          cases h
          exact ⟨rfl, hinstall⟩
      · cases h
  · cases h

theorem clientReceiveMessage_ok {a : Except Errno Reception} {m : MessageV1}
    (h : clientReceiveMessage p fd capacity a = (p', .ok (m, fds))) :
    ∃ r, a = .ok r ∧ Took p capacity r p' m fds := by
  unfold clientReceiveMessage at h
  split at h
  · cases h
  · next p₁ r hrecv =>
      obtain ⟨ha, hinstall⟩ := recvmsg_ok hrecv
      split at h
      · cases h
      · next p₂ fds₂ hcollect =>
          obtain ⟨rfl, hfds, hfits⟩ := collectFds_some hcollect
          dsimp only at h
          split at h
          · cases h
          · next hgood =>
              simp only [not_or, not_not] at hgood
              obtain ⟨hsize, hlong, hwhole, -⟩ := hgood
              cases h
              have hlen : r.octets.length = sizeofMessage := by omega
              refine ⟨r, ha, hinstall, hfds, hfits (Nat.zero_le _), hlen, ?_, by simpa using hwhole⟩
              rw [List.take_of_length_le hlen.le]

end Receive

section Acquire

variable {p : Process} {client : BrokerClient} {out : Outputs} {size : UInt64}
  {response : MessageV1} {a : MapAnswers}

@[simp] theorem acquireAbandoned_status (p : Process) (client : BrokerClient) (out : Outputs)
    (text : String) : (acquireAbandoned p client out text).2.2.2 = .allocFailure := rfl

@[simp] theorem acquireRefused_status (p : Process) (client : BrokerClient) (out : Outputs)
    (fds : List Fd) (text : String) :
    (acquireRefused p client out fds text).2.2.2 = .allocFailure := rfl

@[simp] theorem acquireUnanswered_status (p : Process) (client : BrokerClient) (out : Outputs)
    (e : Errno) : (acquireUnanswered p client out e).2.2.2 = .allocFailure := rfl

/-- The client after an acquisition that succeeded with this reply. -/
structure AcquireSucceeded (size : UInt64) (response : MessageV1)
    (r : Process × BrokerClient × Outputs × ShmStatus) : Prop where
  mappingSize : r.2.1.mappingSize = size
  mapping : r.2.1.mapping ≠ 0
  acquired : r.2.1.acquired = true
  kind : (r.2.2.2 = .allocSuccess ∧ r.2.1.creator = true ∧
      response.type = MessageType.create.code) ∨
    (r.2.2.2 = .successfullyReattached ∧ r.2.1.creator = false ∧
      response.type = MessageType.attach.code ∧ r.2.1.mapping = response.mappingBase ∧
      r.2.2.1.reattachedSharedGlobals = response.mappingBase + response.sharedGlobalsOffset)

theorem allocateSegment_some {p' : Process} {client' : BrokerClient} {out' : Outputs}
    {answer : UInt64} (h : allocateSegment p client out answer = (p', some (client', out'))) :
    p'.fds = p.fds ∧ ∃ allocation, client' = { client with segmentAllocation := allocation } := by
  unfold allocateSegment at h
  dsimp only at h
  split at h
  · cases h
  · cases h
    exact ⟨Process.calloc_fds p answer, _, rfl⟩

theorem allocateSegment_eq_none_iff {answer : UInt64} :
    (allocateSegment p client out answer).2 = none ↔ answer = 0 := by
  have hcalloc : (p.calloc answer).2 = answer := by
    unfold Process.calloc
    split
    · next h => exact h.symm
    · rfl
  simp only [allocateSegment, hcalloc]
  split <;> simp_all

/-- Mapping and allocation either fail or complete the acquisition. -/
theorem acquireMap_cases (htype : response.type = MessageType.create.code ∨
      response.type = MessageType.attach.code) :
    (acquireMap p client out size response a).2.2.2 = .allocFailure ∨
      (AcquireSucceeded size response (acquireMap p client out size response a) ∧
        (acquireMap p client out size response a).1.fds = p.fds ∧
        (acquireMap p client out size response a).2.1.socketFd = client.socketFd ∧
        (acquireMap p client out size response a).2.1.cacheFd = client.cacheFd ∧
        (acquireMap p client out size response a).2.1.lockFd = client.lockFd) := by
  have hne : MessageType.create.code ≠ MessageType.attach.code := by decide
  unfold acquireMap
  dsimp only
  split
  · exact .inl rfl
  · next p₁ address hmap =>
      have hfds : p₁.fds = p.fds := by
        have h := Process.mmap_fds p client.cacheFd size a.mapped
        rwa [hmap] at h
      have hmapped : (p.mmap client.cacheFd size a.mapped).2 = some address := congrArg Prod.snd hmap
      have haddress : address ≠ 0 := (Process.mmap_ne_zero hmapped).1
      split
      · exact .inl rfl
      · next hright =>
          split
          · exact .inl rfl
          · next p₂ client₂ out₂ halloc =>
              obtain ⟨hfds₂, allocation, rfl⟩ := allocateSegment_some halloc
              right
              rcases htype with hcreate | hattach
              · simp only [hcreate, beq_self_eq_true, beq_eq_false_iff_ne.mpr hne, Bool.false_eq_true,
                  if_false]
                exact ⟨⟨rfl, haddress, rfl, .inl ⟨rfl, rfl, hcreate⟩⟩, hfds₂.trans hfds, trivial, trivial, trivial⟩
              · have heq : address = response.mappingBase := by
                  simpa [hattach] using hright
                simp only [hattach, beq_self_eq_true, beq_eq_false_iff_ne.mpr hne.symm, if_true]
                exact ⟨⟨rfl, haddress, rfl, .inr ⟨rfl, rfl, hattach, heq, by rw [heq]⟩⟩,
                  hfds₂.trans hfds, trivial, trivial, trivial⟩

/-- It fails only in `mmap` or in `calloc`. -/
theorem acquireMap_fails_iff :
    (acquireMap p client out size response a).2.2.2 = .allocFailure ↔
      match (p.mmap client.cacheFd size a.mapped).2 with
      | none => True
      | some address =>
          response.type = MessageType.attach.code ∧ address ≠ response.mappingBase ∨
            a.allocated = 0 := by
  unfold acquireMap
  dsimp only
  cases hmap : p.mmap client.cacheFd size a.mapped with
  | mk p₁ mapped =>
      cases mapped with
      | none => simp
      | some address =>
          dsimp only
          split
          · next hwrong => simp_all
          · next hright =>
              have hiff : (allocateSegment p₁ { client with mapping := address, mappingSize := size }
                  out a.allocated).2 = none ↔ a.allocated = 0 := allocateSegment_eq_none_iff
              split
              · next p₂ halloc =>
                  rw [halloc] at hiff
                  simp [hiff.mp rfl]
              · next p₂ client₂ out₂ halloc =>
                  rw [halloc] at hiff
                  have hne : a.allocated ≠ 0 := fun h => by simpa using hiff.mpr h
                  simp only [beq_iff_eq, ne_eq, not_and, not_not] at hright
                  simp only [hne, or_false]
                  constructor
                  · intro hfail
                    split at hfail
                    · cases hfail
                    · cases hfail
                  · exact fun hwrong => absurd (hright hwrong.1) hwrong.2

/-- A success comes from a `CREATE` or `ATTACH` reply with two descriptors, of the requested
size. -/
theorem acquireReply_success {fds : List Fd}
    (h : (acquireReply p client out size response fds a).2.2.2 ≠ .allocFailure) :
    response.mappingSize = size ∧ ∃ cacheFd lockFd, fds = [cacheFd, lockFd] ∧
      AcquireSucceeded size response (acquireReply p client out size response fds a) ∧
      (acquireReply p client out size response fds a).1.fds = p.fds ∧
      (acquireReply p client out size response fds a).2.1.socketFd = client.socketFd ∧
      (acquireReply p client out size response fds a).2.1.cacheFd = cacheFd ∧
      (acquireReply p client out size response fds a).2.1.lockFd = lockFd := by
  unfold acquireReply at h ⊢
  split
  · next hrefused => rw [if_pos hrefused] at h; exact absurd rfl h
  next hrefused =>
    rw [if_neg hrefused] at h
    split
    · next hinvalid => rw [if_pos hinvalid] at h; exact absurd rfl h
    next hinvalid =>
      rw [if_neg hinvalid] at h
      dsimp only at h ⊢
      split
      · next hmeta => rw [if_pos hmeta] at h; exact absurd rfl h
      next hmeta =>
        rw [if_neg hmeta] at h
        simp only [not_or, not_and, not_not] at hinvalid
        obtain ⟨hcount, hsize, htype⟩ := hinvalid
        obtain ⟨cacheFd, lockFd, rfl⟩ := List.length_eq_two.mp hcount
        have hkind : response.type = MessageType.create.code ∨
            response.type = MessageType.attach.code := by
          by_cases hcreate : response.type = MessageType.create.code
          · exact .inl hcreate
          · exact .inr (htype hcreate)
        exact ⟨hsize, cacheFd, lockFd, rfl, (acquireMap_cases hkind).resolve_left h⟩

/-- A success of the whole receiving part. -/
theorem acquireReceive_success {reply : Except Errno Reception}
    (h : (acquireReceive p client out size reply a).2.2.2 ≠ .allocFailure) :
    ∃ r p' response cacheFd lockFd, reply = .ok r ∧
      Took p brokerDescriptorCount r p' response [cacheFd, lockFd] ∧
      response.mappingSize = size ∧
      AcquireSucceeded size response (acquireReceive p client out size reply a) ∧
      (acquireReceive p client out size reply a).1.fds = p'.fds ∧
      (acquireReceive p client out size reply a).2.1.socketFd = client.socketFd ∧
      (acquireReceive p client out size reply a).2.1.cacheFd = cacheFd ∧
      (acquireReceive p client out size reply a).2.1.lockFd = lockFd := by
  unfold acquireReceive at h ⊢
  split
  · next hrecv => rw [hrecv] at h; exact absurd rfl h
  · next p' response fds hrecv =>
      rw [hrecv] at h
      obtain ⟨hsize, cacheFd, lockFd, rfl, hrest⟩ := acquireReply_success h
      obtain ⟨r, hreply, htook⟩ := clientReceiveMessage_ok hrecv
      exact ⟨r, p', response, cacheFd, lockFd, hreply, htook, hsize, hrest⟩

end Acquire

section Acknowledge

variable {p : Process} {client : BrokerClient} {reply : Except Errno Reception}

theorem receiveAck_true (h : (receiveAck p client reply).2 = true) :
    ∃ r m fds, reply = .ok r ∧ Took p 0 r (receiveAck p client reply).1 m fds ∧
      m.type = MessageType.ack.code := by
  unfold receiveAck at h ⊢
  split at h
  · cases h
  · next p' m fds hrecv =>
      obtain ⟨r, hreply, htook⟩ := clientReceiveMessage_ok hrecv
      exact ⟨r, m, fds, hreply, htook, by simpa using h⟩

theorem publishRefused_eq_false {sharedGlobals : UInt64}
    (h : publishRefused client sharedGlobals = false) :
    client.creator = true ∧ client.mapping ≠ 0 ∧ client.mapping ≤ sharedGlobals ∧
      sharedGlobals - client.mapping < client.mappingSize := by
  simp only [publishRefused, Bool.or_eq_false_iff, Bool.not_eq_false', beq_eq_false_iff_ne,
    decide_eq_false_iff_not, UInt64.not_lt, ge_iff_le, UInt64.not_le] at h
  obtain ⟨⟨⟨⟨hcreator, hmapping⟩, -⟩, hlow⟩, hhigh⟩ := h
  exact ⟨hcreator, hmapping, hlow, hhigh⟩

/-- A globals pointer inside the mapping is not refused. -/
theorem publishRefused_of_inside {sharedGlobals : UInt64} (hcreator : client.creator = true)
    (hmapping : client.mapping ≠ 0) (hlow : client.mapping.toNat ≤ sharedGlobals.toNat)
    (hhigh : sharedGlobals.toNat < client.mapping.toNat + client.mappingSize.toNat) :
    publishRefused client sharedGlobals = false := by
  have hle : client.mapping ≤ sharedGlobals := UInt64.le_iff_toNat_le.mpr hlow
  have hoffset : (sharedGlobals - client.mapping).toNat =
      sharedGlobals.toNat - client.mapping.toNat := UInt64.toNat_sub_of_le _ _ hle
  have hpos : client.mapping.toNat ≠ 0 := fun h => hmapping (UInt64.toNat_inj.mp h)
  have hglobals : sharedGlobals ≠ 0 := by
    rintro rfl
    exact hpos (Nat.le_zero.mp hlow)
  have hlt : sharedGlobals - client.mapping < client.mappingSize := by
    rw [UInt64.lt_iff_toNat_lt, hoffset]
    omega
  simp [publishRefused, hcreator, hmapping, hglobals, hle, hlt]

end Acknowledge

end Hyperglyph
