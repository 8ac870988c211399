import Mathlib.Data.List.Nodup
import Hyperglyph.Broker.Moves

/-! The invariant of the generation record and the client table. The handlers and
`ahe_broker_close_client` keep it separately, so it also holds between the two, when the
state is already `INITIALIZING` and the reply has not gone out. -/
namespace Hyperglyph

open Octets

/-- What each generation state promises. -/
def GenerationCoherent (fds : DescriptorTable Object) (clients : List ClientConnection)
    (g : Generation) : Prop :=
  match g.state with
  | .empty => g = generationInit
  | .initializing =>
      (∃ p q, Holds fds g p q) ∧ 0 < g.mappingSize.toNat ∧ g.mappingSize.toNat ≤ int64Max ∧
        terminated g.cacheKey.bytes = true ∧ g.cacheKey.bytes.headD 0 ≠ 0 ∧
        g.mappingBase = 0 ∧ g.sharedGlobalsOffset = 0 ∧
        ∃ client ∈ clients, client.fd = g.creatorFd ∧ client.handledMessage = true
  | .ready =>
      (∃ p q, Holds fds g p q) ∧ g.creatorFd = -1 ∧ g.mappingBase ≠ 0 ∧
        g.sharedGlobalsOffset < g.mappingSize

/-- The invariant of the tables. -/
structure Coherent (fds : DescriptorTable Object) (clients : List ClientConnection)
    (g : Generation) (listenerFd : Fd) : Prop where
  clients_open : ∀ client ∈ clients, ∃ c, fds.get client.fd = some (.conn c)
  clients_distinct : (clients.map (·.fd)).Nodup
  generation : GenerationCoherent fds clients g
  listener : listenerFd = -1 ∨ fds.get listenerFd = some .listener

section Generation

variable {fds fds' : DescriptorTable Object} {clients clients' : List ClientConnection}
  {g : Generation}

theorem GenerationCoherent.of_empty (h : GenerationCoherent fds clients g)
    (hg : g.state = .empty) : g = generationInit := by
  rw [GenerationCoherent, hg] at h
  exact h

theorem GenerationCoherent.held (h : GenerationCoherent fds clients g) (hg : g.state ≠ .empty) :
    ∃ p q, Holds fds g p q := by
  cases hs : g.state with
  | empty => exact absurd hs hg
  | initializing => rw [GenerationCoherent, hs] at h; exact h.1
  | ready => rw [GenerationCoherent, hs] at h; exact h.1

theorem GenerationCoherent.creator (h : GenerationCoherent fds clients g)
    (hg : g.state = .initializing) :
    ∃ client ∈ clients, client.fd = g.creatorFd ∧ client.handledMessage = true := by
  rw [GenerationCoherent, hg] at h
  exact h.2.2.2.2.2.2.2

theorem generationCoherent_init : GenerationCoherent fds clients generationInit := rfl

theorem Holds.mono {p q : Nat} (h : Holds fds g p q)
    (hfds : ∀ fd n, fds.get fd = some (.memfd n) → fds'.get fd = some (.memfd n)) :
    Holds fds' g p q := ⟨hfds _ _ h.cache, hfds _ _ h.lock, h.distinct⟩

/-- The generation keeps its promise while its memfds stay open and its creator stays
in the table. -/
theorem GenerationCoherent.mono (h : GenerationCoherent fds clients g)
    (hfds : ∀ fd n, fds.get fd = some (.memfd n) → fds'.get fd = some (.memfd n))
    (hcreator : g.state = .initializing →
      ∃ client ∈ clients', client.fd = g.creatorFd ∧ client.handledMessage = true) :
    GenerationCoherent fds' clients' g := by
  unfold GenerationCoherent at h ⊢
  cases hs : g.state with
  | empty => simpa only [hs] using h
  | initializing =>
      simp only [hs] at h ⊢
      obtain ⟨⟨p, q, hpq⟩, hpos, hmax, hterm, hkey, hbase, hoffset, _⟩ := h
      exact ⟨⟨p, q, hpq.mono hfds⟩, hpos, hmax, hterm, hkey, hbase, hoffset, hcreator hs⟩
  | ready =>
      simp only [hs] at h ⊢
      obtain ⟨⟨p, q, hpq⟩, hrest⟩ := h
      exact ⟨⟨p, q, hpq.mono hfds⟩, hrest⟩

theorem requestInvalid_eq_false {m : MessageV1} (h : requestInvalid m = false) :
    0 < m.mappingSize.toNat ∧ m.mappingSize.toNat ≤ int64Max ∧
      terminated m.cacheKey.bytes = true ∧ m.cacheKey.bytes.headD 0 ≠ 0 := by
  simp only [requestInvalid, Bool.or_eq_false_iff, beq_eq_false_iff_ne, decide_eq_false_iff_not,
    Bool.not_eq_false', not_lt, gt_iff_lt] at h
  obtain ⟨⟨⟨⟨hzero, _⟩, hmax⟩, hterm⟩, hkey⟩ := h
  refine ⟨?_, hmax, hterm, hkey⟩
  rw [Nat.pos_iff_ne_zero]
  intro h0
  exact hzero (UInt64.toNat_inj.mp h0)

theorem generationCoherent_created {cacheFd lockFd : Nat} {fd : Fd} {m : MessageV1} {p q : Nat}
    (hvalid : requestInvalid m = false)
    (hheld : Holds fds (createdGeneration cacheFd lockFd fd m) p q)
    (hclient : ∃ client ∈ clients, client.fd = fd ∧ client.handledMessage = true) :
    GenerationCoherent fds clients (createdGeneration cacheFd lockFd fd m) := by
  obtain ⟨hpos, hmax, hterm, hkey⟩ := requestInvalid_eq_false hvalid
  exact ⟨⟨p, q, hheld⟩, hpos, hmax, hterm, hkey, rfl, rfl, hclient⟩

theorem readyRefused_eq_false {fd : Fd} {m : MessageV1} (h : readyRefused g fd m = false) :
    g.state = .initializing ∧ g.creatorFd = fd ∧ m.mappingSize = g.mappingSize ∧
      m.mappingBase ≠ 0 ∧ m.sharedGlobalsOffset < m.mappingSize := by
  simp only [readyRefused, Bool.or_eq_false_iff, bne_eq_false_iff_eq, beq_eq_false_iff_ne,
    decide_eq_false_iff_not, ge_iff_le, UInt64.not_le] at h
  obtain ⟨⟨⟨⟨hstate, hcreator⟩, hsize⟩, hbase⟩, hoffset⟩ := h
  exact ⟨hstate, hcreator, hsize, hbase, hoffset⟩

theorem generationCoherent_published {fd : Fd} {m : MessageV1}
    (h : GenerationCoherent fds clients g) (hready : readyRefused g fd m = false) :
    GenerationCoherent fds clients' (publishedGeneration g m) := by
  obtain ⟨hstate, _, hsize, hbase, hoffset⟩ := readyRefused_eq_false hready
  obtain ⟨p, q, hpq⟩ := h.held (by rw [hstate]; decide)
  exact ⟨⟨p, q, hpq.cache, hpq.lock, hpq.distinct⟩, rfl, hbase, hsize ▸ hoffset⟩

end Generation

section Moves

variable {k k' : Kernel} {clients : List ClientConnection} {g g' : Generation} {listenerFd : Fd}
  {client served : ClientConnection} {c : ConnId} {a : Answers} {keep : Bool} {index : Nat}
  {r : Kernel × ClientConnection × Generation × Bool}

/-- Handling a message closes memfds only. -/
theorem HandleMessage.keeps_open (h : HandleMessage k client c g a r) {fd : Fd} {o : Object}
    (hfd : k.fds.get fd = some o) (ho : ∀ n, o ≠ .memfd n) : r.1.fds.get fd = some o := by
  cases h with
  | failed | dropped | plain | shared | notCreated | published => exact hfd
  | created d m cacheFd lockFd _ _ _ _ _ _ hcache hlock hne =>
      exact get_withPair_of_open hfd hcache hlock hne
  | aborted d m p q _ _ _ _ _ hpq =>
      have hne₁ : fd ≠ g.cacheFd := by
        rintro rfl
        rw [hpq.cache] at hfd
        exact ho p (Option.some.inj hfd).symm
      have hne₂ : fd ≠ g.lockFd := by
        rintro rfl
        rw [hpq.lock] at hfd
        exact ho q (Option.some.inj hfd).symm
      exact (DescriptorTable.get_remove_of_ne hne₂).trans
        ((DescriptorTable.get_remove_of_ne hne₁).trans hfd)

theorem HandleMessage.served_fd (h : HandleMessage k client c g a r) : r.2.1.fd = client.fd := by
  cases h <;> rfl

theorem HandleMessage.served_handled (h : HandleMessage k client c g a r) :
    client.handledMessage = true → r.2.1.handledMessage = true := by
  cases h <;> first | exact id | exact fun _ => rfl

theorem mem_set_of_mem {client' : ClientConnection} (hindex : clients[index]? = some client)
    (hfd : served.fd = client.fd)
    (hhandled : client.handledMessage = true → served.handledMessage = true)
    (hmem : client' ∈ clients) (hclient' : client'.handledMessage = true) :
    ∃ client'' ∈ clients.set index served,
      client''.fd = client'.fd ∧ client''.handledMessage = true := by
  obtain ⟨i, hi, hget⟩ := List.mem_iff_getElem.mp hmem
  by_cases heq : index = i
  · subst heq
    rw [List.getElem?_eq_getElem hi, Option.some_inj] at hindex
    subst hget
    subst hindex
    exact ⟨served, List.mem_set hi served, hfd, hhandled hclient'⟩
  · have hset : (clients.set index served)[i]? = some client' := by
      rw [List.getElem?_set_ne heq, List.getElem?_eq_getElem hi, hget]
    exact ⟨client', List.mem_of_getElem? hset, rfl, hclient'⟩

/-- Handling a message of a client keeps the tables coherent, whether or not the reply
went out. -/
theorem Coherent.handle (h : Coherent k.fds clients g listenerFd)
    (hindex : clients[index]? = some client)
    (hmsg : HandleMessage k client c g a (k', served, g', keep)) :
    Coherent k'.fds (clients.set index served) g' listenerFd := by
  have hfd : served.fd = client.fd := hmsg.served_fd
  have hmapfd : (clients.set index served).map (·.fd) = clients.map (·.fd) := by
    obtain ⟨hlt, hget⟩ := List.getElem?_eq_some_iff.mp hindex
    have hlt' : index < (clients.map (·.fd)).length := by rwa [List.length_map]
    have hself : (clients.map (·.fd))[index] = served.fd := by
      rw [List.getElem_map, hget, hfd]
    rw [List.map_set, ← hself, List.set_getElem_self]
  have hstay : g.state = .initializing → ∃ client ∈ clients.set index served,
      client.fd = g.creatorFd ∧ client.handledMessage = true := by
    intro hg
    obtain ⟨creator, hmem, hcreator, hhandled⟩ := h.generation.creator hg
    rw [← hcreator]
    exact mem_set_of_mem hindex hfd hmsg.served_handled hmem hhandled
  refine ⟨?_, hmapfd ▸ h.clients_distinct, ?_, h.listener.imp id ?_⟩
  · intro client' hmem
    have hfd' : client'.fd ∈ clients.map (·.fd) := hmapfd ▸ List.mem_map_of_mem hmem
    obtain ⟨old, hold, heq⟩ := List.mem_map.mp hfd'
    obtain ⟨c', hc'⟩ := h.clients_open old hold
    exact ⟨c', hmsg.keeps_open (heq ▸ hc') (by simp)⟩
  · cases hmsg with
    | failed | dropped | plain | shared => exact h.generation.mono (fun _ _ hn => hn) hstay
    | notCreated => exact generationCoherent_init
    | aborted => exact generationCoherent_init
    | published d m _ _ _ hready _ => exact generationCoherent_published h.generation hready
    | created d m cacheFd lockFd _ _ _ _ hvalid _ hcache hlock hne =>
        refine generationCoherent_created hvalid (holds_created client.fd m hne) ?_
        exact ⟨_, List.mem_set (List.getElem?_eq_some_iff.mp hindex).1 _, rfl, rfl⟩
  · exact fun hl => hmsg.keeps_open hl (by simp)

theorem Coherent.held_ne_client (h : Coherent k.fds clients g listenerFd) {p q : Nat}
    (hpq : Holds k.fds g p q) {client : ClientConnection} (hmem : client ∈ clients) :
    client.fd ≠ g.cacheFd ∧ client.fd ≠ g.lockFd := by
  obtain ⟨c, hc⟩ := h.clients_open client hmem
  constructor
  · intro heq
    rw [heq, hpq.cache] at hc
    cases hc
  · intro heq
    rw [heq, hpq.lock] at hc
    cases hc

/-- The tables after a generation was discarded: everything but its memfds is as before. -/
theorem Coherent.reset (h : Coherent k.fds clients g listenerFd) {p q : Nat}
    (hpq : Holds k.fds g p q) :
    Coherent (generationReset k g).1.fds clients (generationReset k g).2 listenerFd := by
  rw [generationReset_of_open hpq.cache hpq.lock hpq.fd_ne]
  have hkeep : ∀ {fd o}, k.fds.get fd = some o → (∀ n, o ≠ Object.memfd n) →
      ((k.fds.remove g.cacheFd).remove g.lockFd).get fd = some o := by
    intro fd o hfd ho
    rw [DescriptorTable.get_remove_of_ne, DescriptorTable.get_remove_of_ne, hfd]
    · rintro rfl
      exact ho p (Option.some.inj (hfd.symm.trans hpq.cache))
    · rintro rfl
      exact ho q (Option.some.inj (hfd.symm.trans hpq.lock))
  refine ⟨?_, h.clients_distinct, generationCoherent_init, h.listener.imp id ?_⟩
  · intro client hmem
    obtain ⟨c, hc⟩ := h.clients_open client hmem
    exact ⟨c, hkeep hc (by simp)⟩
  · exact fun hl => hkeep hl (by simp)

/-- Removing a client that is not the creator of a generation under construction. -/
theorem Coherent.drop (h : Coherent k.fds clients g listenerFd) (hindex : index < clients.length)
    (hother : ¬ (g.state = .initializing ∧ g.creatorFd = clients[index].fd)) :
    Coherent (k.close clients[index].fd).fds (SwapRemove.swapRemove clients index) g
      listenerFd := by
  obtain ⟨c, hc⟩ := h.clients_open _ (List.getElem_mem hindex)
  have hnodup : clients[index].fd ∉ (SwapRemove.swapRemove clients index).map (·.fd) ∧
      ((SwapRemove.swapRemove clients index).map (·.fd)).Nodup := by
    rw [SwapRemove.map_swapRemove]
    have hlt : index < (clients.map (·.fd)).length := by rwa [List.length_map]
    have hmap := SwapRemove.nodup_swapRemove hlt h.clients_distinct
    rwa [List.getElem_map] at hmap
  rw [Kernel.close_fds]
  refine ⟨?_, hnodup.2, h.generation.mono ?_ ?_, h.listener.imp id ?_⟩
  · intro client hmem
    obtain ⟨c', hc'⟩ := h.clients_open client (SwapRemove.mem_of_mem_swapRemove hindex hmem)
    refine ⟨c', ?_⟩
    rw [DescriptorTable.get_remove_of_ne, hc']
    exact fun heq => hnodup.1 (heq ▸ List.mem_map_of_mem hmem)
  · intro fd n hn
    rw [DescriptorTable.get_remove_of_ne, hn]
    rintro rfl
    rw [hc] at hn
    cases hn
  · intro hg
    obtain ⟨creator, hmem, hcreator, hhandled⟩ := h.generation.creator hg
    refine ⟨creator, ?_, hcreator, hhandled⟩
    rcases List.mem_cons.mp ((SwapRemove.perm_swapRemove hindex).mem_iff.mp hmem) with heq | hrest
    · exact absurd ⟨hg, by rw [← hcreator, heq]⟩ hother
    · exact hrest
  · intro hl
    rw [DescriptorTable.get_remove_of_ne, hl]
    rintro heq
    rw [heq, hc] at hl
    cases hl

/-- `ahe_broker_close_client` keeps the tables coherent. -/
theorem Coherent.closeClient (h : Coherent k.fds clients g listenerFd) (index : Nat) :
    Coherent (brokerCloseClient k clients index g).1.fds (brokerCloseClient k clients index g).2.1
      (brokerCloseClient k clients index g).2.2 listenerFd := by
  unfold brokerCloseClient
  cases hindex : clients[index]? with
  | none => exact h
  | some client =>
      obtain ⟨hlt, rfl⟩ := List.getElem?_eq_some_iff.mp hindex
      dsimp only
      split
      · next hcreator =>
          obtain ⟨p, q, hpq⟩ := h.generation.held (by rw [hcreator.1]; decide)
          exact (h.reset hpq).drop hlt (by
            rw [generationReset_of_open hpq.cache hpq.lock hpq.fd_ne]
            exact fun hinit => GenerationState.noConfusion hinit.1)
      · next hother => exact h.drop hlt hother

theorem Coherent.accept (h : Coherent k.fds clients g listenerFd) {n : Nat} (c : ConnId)
    (hn : k.fds.Free n) :
    Coherent (k.withConn n c).fds (clients ++ [{ fd := n, handledMessage := false }]) g
      listenerFd := by
  have hkeep : ∀ {fd o}, k.fds.get fd = some o → (k.withConn n c).fds.get fd = some o :=
    fun hfd => DescriptorTable.get_install_of_open hn hfd
  refine ⟨?_, ?_, h.generation.mono (fun _ _ => hkeep) ?_, h.listener.imp id hkeep⟩
  · intro client hmem
    rcases List.mem_append.mp hmem with hold | hnew
    · obtain ⟨c', hc'⟩ := h.clients_open client hold
      exact ⟨c', hkeep hc'⟩
    · rw [List.mem_singleton.mp hnew]
      exact ⟨c, DescriptorTable.get_install_self n _⟩
  · rw [List.map_append, List.map_singleton, List.nodup_append]
    refine ⟨h.clients_distinct, List.nodup_singleton _, ?_⟩
    intro fd hfd fd' hfd' heq
    obtain ⟨client, hmem, rfl⟩ := List.mem_map.mp hfd
    obtain ⟨c', hc'⟩ := h.clients_open client hmem
    rw [heq, List.mem_singleton.mp hfd', hn.get] at hc'
    cases hc'
  · intro hg
    obtain ⟨creator, hmem, hcreator, hhandled⟩ := h.generation.creator hg
    exact ⟨creator, List.mem_append_left _ hmem, hcreator, hhandled⟩

theorem Coherent.closeListener (h : Coherent k.fds clients g listenerFd)
    (hl : k.fds.get listenerFd = some .listener) :
    Coherent (k.close listenerFd).fds clients g (-1) := by
  have hkeep : ∀ {fd o}, k.fds.get fd = some o → o ≠ .listener →
      (k.close listenerFd).fds.get fd = some o := by
    intro fd o hfd ho
    rw [Kernel.close_fds, DescriptorTable.get_remove_of_ne, hfd]
    rintro rfl
    exact ho (Option.some.inj (hfd.symm.trans hl))
  refine ⟨?_, h.clients_distinct, h.generation.mono (fun _ _ hn => hkeep hn (by simp)) ?_, .inl rfl⟩
  · intro client hmem
    obtain ⟨c, hc⟩ := h.clients_open client hmem
    exact ⟨c, hkeep hc (by simp)⟩
  · exact h.generation.creator

end Moves

namespace Broker

abbrev Inv (b : Broker) : Prop := Coherent b.kernel.fds b.clients b.generation b.listenerFd

theorem Inv.served {b : Broker} (h : b.Inv) {index : Nat} {client : ClientConnection}
    (hindex : b.clients[index]? = some client) (a : Answers) :
    ∃ c, b.kernel.fds.get client.fd = some (.conn c) ∧
      HandleMessage b.kernel client c b.generation a
        (brokerHandleClientMessage b.kernel client b.generation a) := by
  obtain ⟨c, hc⟩ := h.clients_open client (List.mem_of_getElem? hindex)
  exact ⟨c, hc, brokerHandleClientMessage_spec hc h.generation.of_empty h.generation.held⟩

theorem Inv.serveClient {b : Broker} (h : b.Inv) {index : Nat} {client : ClientConnection}
    (hindex : b.clients[index]? = some client) (a : Answers) :
    (b.serveClient index client a).1.Inv := by
  obtain ⟨c, _, hmsg⟩ := h.served hindex a
  exact h.handle hindex hmsg

theorem Inv.closeClient {b : Broker} (h : b.Inv) (index : Nat) : (b.closeClient index).Inv :=
  Coherent.closeClient h index

theorem Inv.upkeep {b b' : Broker} (h : b.Inv) (hmove : Upkeep b b') : b'.Inv := by
  cases hmove with
  | control hk hc hg hl => rw [Inv, hk, hc, hg, hl]; exact h
  | close => exact h.closeClient _
  | closeListener =>
      unfold Broker.closeListener
      split
      · next hpos =>
          have hl := h.listener.resolve_left (fun heq => by rw [heq] at hpos; cases hpos)
          exact Coherent.closeListener h hl
      · exact h
  | accept hn _ => exact Coherent.accept h _ hn
  | @refuse n c hn _ =>
      have hfds : ((b.kernel.withConn n c).close n).fds = b.kernel.fds := by
        rw [Kernel.close_fds]
        exact DescriptorTable.remove_install hn _
      unfold Inv
      rw [hfds]
      exact h
  | reset hnone =>
      cases hs : b.generation.state with
      | empty =>
          have hinit := h.generation.of_empty hs
          have hreset : generationReset b.kernel b.generation = (b.kernel, b.generation) := by
            rw [hinit]
            rfl
          unfold Inv
          rw [hreset]
          exact h
      | initializing =>
          obtain ⟨p, q, hpq⟩ := h.generation.held (by rw [hs]; decide)
          exact Coherent.reset h hpq
      | ready =>
          obtain ⟨p, q, hpq⟩ := h.generation.held (by rw [hs]; decide)
          exact Coherent.reset h hpq

theorem Inv.move {b b' : Broker} (h : b.Inv) (hmove : Move b b') : b'.Inv := by
  cases hmove with
  | upkeep hupkeep => exact h.upkeep hupkeep
  | serve a hindex _ => exact h.serveClient hindex a
  | serveClose a hindex => exact (h.serveClient hindex a).closeClient _

theorem inv_start (maxClients listenerFd : Nat) : (start maxClients listenerFd).Inv where
  clients_open := by simp [start]
  clients_distinct := List.nodup_nil
  generation := rfl
  listener := .inr (DescriptorTable.get_install_self listenerFd _)

theorem Reachable.inv {b : Broker} (h : Reachable b) : b.Inv :=
  h.moves_invariant inv_start Inv.move

/-! ### The invariant, field by field -/

def Open (b : Broker) (fd : Fd) : Prop := ∃ o, b.kernel.fds.get fd = some o

/-- Slot `index` is the only one whose descriptor is `fd`. -/
def OnlySlot (b : Broker) (fd : Fd) (index : Nat) : Prop :=
  ∀ i client, b.clients[i]? = some client → client.fd = fd → i = index

structure TableInvariant (b : Broker) : Prop where
  clients_open : ∀ client ∈ b.clients, b.Open client.fd
  clients_distinct : (b.clients.map (·.fd)).Nodup
  empty : b.generation.state = .empty →
    b.generation.cacheFd = -1 ∧ b.generation.lockFd = -1 ∧ b.generation.creatorFd = -1 ∧
      b.generation.mappingSize = 0 ∧ b.generation.mappingBase = 0 ∧
      b.generation.sharedGlobalsOffset = 0 ∧ b.generation.cacheKey = .zero
  initializing : b.generation.state = .initializing →
    b.Open b.generation.cacheFd ∧ b.Open b.generation.lockFd ∧
      b.generation.cacheFd ≠ b.generation.lockFd ∧
      (∀ client ∈ b.clients,
        client.fd ≠ b.generation.cacheFd ∧ client.fd ≠ b.generation.lockFd) ∧
      1 ≤ b.generation.mappingSize.toNat ∧ b.generation.mappingSize.toNat ≤ int64Max ∧
      b.generation.cacheKey.bytes.headD 0 ≠ 0 ∧
      terminated b.generation.cacheKey.bytes = true ∧
      b.generation.mappingBase = 0 ∧ b.generation.sharedGlobalsOffset = 0 ∧
      ∃ index creator, b.clients[index]? = some creator ∧
        creator.fd = b.generation.creatorFd ∧ creator.handledMessage = true ∧
        b.OnlySlot b.generation.creatorFd index
  ready : b.generation.state = .ready →
    b.Open b.generation.cacheFd ∧ b.Open b.generation.lockFd ∧ b.generation.creatorFd = -1 ∧
      b.generation.mappingBase ≠ 0 ∧
      b.generation.sharedGlobalsOffset < b.generation.mappingSize

theorem Inv.onlySlot {b : Broker} (h : b.Inv) {index : Nat} {client : ClientConnection}
    (hindex : b.clients[index]? = some client) : b.OnlySlot client.fd index := by
  intro i other hother heq
  obtain ⟨hi, hget⟩ := List.getElem?_eq_some_iff.mp hother
  obtain ⟨hlt, hget'⟩ := List.getElem?_eq_some_iff.mp hindex
  have hi' : i < (b.clients.map (·.fd)).length := by rwa [List.length_map]
  have hlt' : index < (b.clients.map (·.fd)).length := by rwa [List.length_map]
  have hsame : (b.clients.map (·.fd))[i] = (b.clients.map (·.fd))[index] := by
    rw [List.getElem_map, List.getElem_map, hget, hget', heq]
  exact h.clients_distinct.getElem_inj_iff.mp hsame

/-- The generation and client-table invariant holds in every run, at the head of the loop
and between any two system calls. -/
theorem table_invariant {b : Broker} (h : Reachable b) : b.TableInvariant := by
  have hinv := h.inv
  refine ⟨?_, hinv.clients_distinct, ?_, ?_, ?_⟩
  · intro client hmem
    obtain ⟨c, hc⟩ := hinv.clients_open client hmem
    exact ⟨_, hc⟩
  · intro hs
    rw [hinv.generation.of_empty hs]
    exact ⟨rfl, rfl, rfl, rfl, rfl, rfl, rfl⟩
  · intro hs
    have hg := hinv.generation
    rw [GenerationCoherent, hs] at hg
    obtain ⟨⟨p, q, hpq⟩, hpos, hmax, hterm, hkey, hbase, hoffset, creator, hmem, hfd, hhandled⟩ := hg
    obtain ⟨index, hindex⟩ := List.mem_iff_getElem?.mp hmem
    exact ⟨⟨_, hpq.cache⟩, ⟨_, hpq.lock⟩, hpq.fd_ne, fun _ hclient => hinv.held_ne_client hpq hclient,
      hpos, hmax, hkey, hterm, hbase, hoffset, index, creator, hindex, hfd, hhandled,
      hfd ▸ hinv.onlySlot hindex⟩
  · intro hs
    have hg := hinv.generation
    rw [GenerationCoherent, hs] at hg
    obtain ⟨⟨p, q, hpq⟩, hcreator, hbase, hoffset⟩ := hg
    exact ⟨⟨_, hpq.cache⟩, ⟨_, hpq.lock⟩, hcreator, hbase, hoffset⟩

/-- An `ACQUIRE` for one page under the key `k`. -/
def pageRequest : MessageV1 :=
  { brokerMessageInit .acquire with mappingSize := 4096, cacheKey := .ofBytes [107] }

/-- The kernel delivers `d` and lets every other call succeed. -/
def answering (d : List UInt8) : Answers where
  cacheMemfdExec := some 5
  execRejected := false
  cacheMemfd := none
  cacheTruncated := true
  lockMemfd := some 6
  lockTruncated := true
  recv := .datagram d
  sent := true

def readable : Revents := { Revents.clear with pollin := true }

/-- A process of the broker's user connects. -/
def accepting (n : Nat) (c : ConnId) : AcceptAnswers where
  accepted := some (n, c)
  retry := false
  credentials := some ⟨true, 1, 1000⟩
  effectiveUid := 1000
  reallocated := true

/-- Nobody connects. -/
def acceptNone : AcceptAnswers where
  accepted := none
  retry := true
  credentials := none
  effectiveUid := 1000
  reallocated := true

/-- One connection was accepted at descriptor 4 and its `ACQUIRE` answered. -/
def underConstruction : Broker :=
  [.head true (.ready [readable]), .dispatch (answering []),
    .accept (accepting 4 0),
    .head true (.ready [.clear, readable]), .dispatch (answering pageRequest.encode)].foldl step
    (start 0 3)

theorem table_invariant_under_construction :
    underConstruction.generation.state = .initializing ∧ underConstruction.generation.creatorFd = 4 ∧
      underConstruction.TableInvariant :=
  ⟨by decide +kernel, by decide +kernel, table_invariant ((reachable_start 0 3).foldl _)⟩

end Broker

end Hyperglyph
