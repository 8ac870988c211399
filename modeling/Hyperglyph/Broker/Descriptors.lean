import Hyperglyph.Library.Holdings
import Hyperglyph.Broker.SingleCreator

/-! Who owns which descriptor of the broker. A descriptor passes from a local variable to the
client array or to the generation record; at any time each open one has one owner, and every
close is the owner's. -/
namespace Hyperglyph

open DescriptorTable (Balanced)

/-- The object whose descriptor the event made. -/
def Event.opened? : Event → Option Object
  | .accepted c => some (.conn c)
  | _ => none

def Event.closed? : Event → Option Object
  | .closed o => some o
  | _ => none

/-- The objects the event's system call worked on. -/
def Event.Uses : Event → Object → Prop
  | .accepted c, o => o = .conn c
  | .received c _, o => o = .conn c
  | .sent c _ attached, o | .unsent c _ attached, o => o = .conn c ∨ o ∈ attached
  | .closed _, _ | .badClose _, _ => False

namespace Kernel

variable {k k' : Kernel} {fd : Fd} {o : Object} {c : ConnId} {n : Nat}

/-- Everything the broker obtained a descriptor of. -/
def opened (k : Kernel) : List Object :=
  .listener :: (k.log.filterMap Event.opened? ++ (List.range k.nextMemfd).map .memfd)

def closedObjects (k : Kernel) : List Object := k.log.filterMap Event.closed?

theorem mem_opened : o ∈ k.opened ↔
    o = .listener ∨ (∃ c, o = .conn c ∧ Event.accepted c ∈ k.log) ∨
      ∃ n, o = .memfd n ∧ n < k.nextMemfd := by
  have haccepted : o ∈ k.log.filterMap Event.opened? ↔
      ∃ c, o = .conn c ∧ Event.accepted c ∈ k.log := by
    rw [List.mem_filterMap]
    constructor
    · rintro ⟨e, hmem, he⟩
      cases e with
      | accepted c =>
          cases he
          exact ⟨c, rfl, hmem⟩
      | _ => cases he
    · rintro ⟨c, rfl, hmem⟩
      exact ⟨_, hmem, rfl⟩
  have hmade : o ∈ (List.range k.nextMemfd).map Object.memfd ↔
      ∃ n, o = .memfd n ∧ n < k.nextMemfd := by
    rw [List.mem_map]
    constructor
    · rintro ⟨n, hn, rfl⟩
      exact ⟨n, rfl, List.mem_range.mp hn⟩
    · rintro ⟨n, rfl, hn⟩
      exact ⟨n, List.mem_range.mpr hn, rfl⟩
  rw [opened, List.mem_cons, List.mem_append, haccepted, hmade]

theorem mem_closedObjects : o ∈ k.closedObjects ↔ Event.closed o ∈ k.log := by
  rw [closedObjects, List.mem_filterMap]
  constructor
  · rintro ⟨e, hmem, he⟩
    cases e with
    | closed p =>
        cases he
        exact hmem
    | _ => cases he
  · intro hmem
    exact ⟨_, hmem, rfl⟩

/-- The accounts of the kernel are in order: nothing was closed twice or without being open,
and nothing was used after it was closed. -/
structure Accounted (k : Kernel) : Prop where
  balanced : Balanced k.fds k.opened k.closedObjects
  distinct : k.opened.Nodup
  sound : ∀ fd, Event.badClose fd ∉ k.log
  ordered : k.log.Pairwise fun earlier later => ∀ o, earlier = .closed o → ¬ later.Uses o

theorem Accounted.not_closed (h : k.Accounted) (hfd : k.fds.get fd = some o) :
    Event.closed o ∉ k.log :=
  fun hmem => h.balanced.not_closed h.distinct hfd (mem_closedObjects.mpr hmem)

/-- Events that use open descriptors and neither open nor close any. -/
def Plain (k : Kernel) (e : Event) : Prop :=
  e.opened? = none ∧ e.closed? = none ∧ (∀ fd, e ≠ .badClose fd) ∧
    ∀ o, e.Uses o → ∃ fd, k.fds.get fd = some o

theorem Accounted.ordered_append (h : k.Accounted) {events : List Event}
    (hnone : ∀ e ∈ events, e.closed? = none)
    (huses : ∀ e ∈ events, ∀ o, e.Uses o → Event.closed o ∉ k.log) :
    (k.log ++ events).Pairwise fun earlier later =>
      ∀ o, earlier = .closed o → ¬ later.Uses o := by
  rw [List.pairwise_append]
  refine ⟨h.ordered, ?_, ?_⟩
  · apply List.pairwise_of_forall_mem_list
    rintro earlier hearlier later _ o rfl
    cases hnone _ hearlier
  · rintro earlier hearlier later hlater o rfl hused
    exact huses later hlater o hused hearlier

theorem Accounted.emit (h : k.Accounted) {events : List Event}
    (hplain : ∀ e ∈ events, k.Plain e) : (k.emit events).Accounted := by
  have hopened : (k.emit events).opened = k.opened := by
    simp only [opened, emit_log, emit_nextMemfd, List.filterMap_append,
      List.filterMap_eq_nil_iff.mpr fun e he => (hplain e he).1, List.append_nil]
  have hclosed : (k.emit events).closedObjects = k.closedObjects := by
    simp only [closedObjects, emit_log, List.filterMap_append,
      List.filterMap_eq_nil_iff.mpr fun e he => (hplain e he).2.1, List.append_nil]
  constructor
  · rw [hopened, hclosed]
    exact h.balanced
  · rw [hopened]
    exact h.distinct
  · intro fd hmem
    rcases List.mem_append.mp hmem with hold | hnew
    · exact h.sound fd hold
    · exact (hplain _ hnew).2.2.1 fd rfl
  · refine h.ordered_append (fun e he => (hplain e he).2.1) ?_
    intro e he o hused
    obtain ⟨fd, hfd⟩ := (hplain e he).2.2.2 o hused
    exact h.not_closed hfd

/-- Closing an open descriptor. -/
theorem Accounted.close (h : k.Accounted) (hfd : k.fds.get fd = some o) :
    (k.close fd).Accounted := by
  rw [close_of_open hfd]
  have hopened : opened { k with fds := k.fds.remove fd, log := k.log ++ [.closed o] } = k.opened := by
    simp [opened, Event.opened?]
  have hclosed : closedObjects { k with fds := k.fds.remove fd, log := k.log ++ [.closed o] } =
      k.closedObjects ++ [o] := by
    simp [closedObjects, Event.closed?]
  constructor
  · rw [hopened, hclosed]
    exact h.balanced.remove hfd
  · rw [hopened]
    exact h.distinct
  · intro fd' hmem
    rcases List.mem_append.mp hmem with hold | hnew
    · exact h.sound fd' hold
    · cases List.mem_singleton.mp hnew
  · rw [List.pairwise_append]
    refine ⟨h.ordered, List.pairwise_singleton _ _, ?_⟩
    rintro earlier hearlier later hlater o' rfl
    cases List.mem_singleton.mp hlater
    exact id

/-- A connection the kernel had not handed out before. -/
theorem Accounted.withConn (h : k.Accounted) (hn : k.fds.Free n)
    (hc : Event.accepted c ∉ k.log) : (k.withConn n c).Accounted := by
  have hopened : (k.withConn n c).opened.Perm (k.opened ++ [.conn c]) := by
    simp only [opened, Kernel.withConn, List.filterMap_append, List.cons_append]
    refine List.Perm.cons _ ?_
    rw [List.append_assoc, List.append_assoc]
    exact List.perm_append_comm.append_left _
  have hfresh : Object.conn c ∉ k.opened := by
    rw [mem_opened]
    rintro (heq | ⟨c', heq, hmem⟩ | ⟨n, heq, -⟩)
    · cases heq
    · cases heq
      exact hc hmem
    · cases heq
  have hclosed : (k.withConn n c).closedObjects = k.closedObjects := by
    simp [closedObjects, Kernel.withConn, Event.closed?]
  constructor
  · rw [hclosed]
    exact (h.balanced.install hn _).perm hopened (List.Perm.refl _)
  · rw [hopened.nodup_iff, List.nodup_append_comm]
    exact List.nodup_cons.mpr ⟨hfresh, h.distinct⟩
  · intro fd' hmem
    rcases List.mem_append.mp hmem with hold | hnew
    · exact h.sound fd' hold
    · cases List.mem_singleton.mp hnew
  · refine h.ordered_append (by simp [Event.closed?]) ?_
    intro e he o hused hmem
    cases List.mem_singleton.mp he
    cases hused
    exact hfresh (h.balanced.opened_of_closed (mem_closedObjects.mpr hmem))

theorem opened_memfd (made : Nat) {k' : Kernel} (hlog : k'.log.filterMap Event.opened? =
    k.log.filterMap Event.opened?) (hnext : k'.nextMemfd = k.nextMemfd + made) :
    k'.opened = k.opened ++ (List.range made).map fun i => .memfd (k.nextMemfd + i) := by
  simp only [opened, hlog, hnext, List.range_add, List.map_append, List.map_map, List.cons_append,
    List.append_assoc]
  rfl

theorem distinct_memfd (h : k.Accounted) (made : Nat) :
    (k.opened ++ (List.range made).map fun i => Object.memfd (k.nextMemfd + i)).Nodup := by
  rw [List.nodup_append]
  refine ⟨h.distinct, ?_, ?_⟩
  · refine List.nodup_range.map ?_
    intro i j heq
    simpa using heq
  · rintro o ho p hp rfl
    obtain ⟨i, -, rfl⟩ := List.mem_map.mp hp
    rcases mem_opened.mp ho with heq | ⟨c, heq, -⟩ | ⟨n, heq, hlt⟩
    · cases heq
    · cases heq
    · cases heq
      omega

/-- Memfds that were made and closed again at once. -/
theorem Accounted.discarded (h : k.Accounted) (made : Nat) : (k.discarded made).Accounted := by
  have hmade : ∀ e ∈ (List.range made).map fun i => Event.closed (.memfd (k.nextMemfd + i)),
      ∃ i, e = .closed (.memfd (k.nextMemfd + i)) := by
    intro e he
    obtain ⟨i, -, rfl⟩ := List.mem_map.mp he
    exact ⟨i, rfl⟩
  have hlog : (k.discarded made).log.filterMap Event.opened? = k.log.filterMap Event.opened? := by
    have hnone : ((List.range made).map fun i => Event.closed (.memfd (k.nextMemfd + i))).filterMap
        Event.opened? = [] := by
      apply List.filterMap_eq_nil_iff.mpr
      intro e he
      obtain ⟨i, rfl⟩ := hmade e he
      rfl
    simp only [Kernel.discarded, List.filterMap_append, hnone, List.append_nil]
  have hclosed : (k.discarded made).closedObjects =
      k.closedObjects ++ (List.range made).map fun i => .memfd (k.nextMemfd + i) := by
    simp only [closedObjects, Kernel.discarded, List.filterMap_append, List.filterMap_map]
    congr 1
    exact List.filterMap_eq_map.symm ▸ rfl
  constructor
  · rw [opened_memfd made hlog rfl, hclosed]
    exact h.balanced.append _
  · rw [opened_memfd made hlog rfl]
    exact distinct_memfd h made
  · intro fd' hmem
    rcases List.mem_append.mp hmem with hold | hnew
    · exact h.sound fd' hold
    · obtain ⟨i, heq⟩ := hmade _ hnew
      cases heq
  · show (k.log ++ _).Pairwise _
    rw [List.pairwise_append]
    refine ⟨h.ordered, ?_, ?_⟩
    · apply List.pairwise_of_forall_mem_list
      rintro earlier - later hlater o -
      obtain ⟨i, rfl⟩ := hmade _ hlater
      exact id
    · rintro earlier - later hlater o -
      obtain ⟨i, rfl⟩ := hmade _ hlater
      exact id

/-- The two memfds of a new generation. -/
theorem Accounted.withPair (h : k.Accounted) {cacheFd lockFd : Nat} (hcache : k.fds.Free cacheFd)
    (hlock : k.fds.Free lockFd) (hne : cacheFd ≠ lockFd) :
    (k.withPair cacheFd lockFd).Accounted := by
  have hlock' : (k.fds.install cacheFd (.memfd k.nextMemfd)).Free lockFd := by
    have hget : (k.fds.install cacheFd (.memfd k.nextMemfd)).get (lockFd : Int) =
        k.fds.get (lockFd : Int) :=
      DescriptorTable.get_install_of_ne (Int.ofNat_inj.not.mpr hne.symm) _
    exact hget.trans hlock
  have hopened : (k.withPair cacheFd lockFd).opened =
      k.opened ++ (List.range 2).map fun i => .memfd (k.nextMemfd + i) := opened_memfd 2 rfl rfl
  constructor
  · have hboth := (h.balanced.install hcache (.memfd k.nextMemfd)).install hlock'
      (.memfd (k.nextMemfd + 1))
    rw [hopened]
    refine hboth.perm ?_ (List.Perm.refl _)
    rw [List.append_assoc]
    exact List.Perm.refl _
  · rw [hopened]
    exact distinct_memfd h 2
  · exact h.sound
  · exact h.ordered

theorem plain_received (hc : k.fds.get fd = some (.conn c)) (d : List UInt8) :
    k.Plain (.received c d) := by
  refine ⟨rfl, rfl, by simp, ?_⟩
  rintro o rfl
  exact ⟨fd, hc⟩

theorem plain_reply (hc : k.fds.get fd = some (.conn c)) (m : MessageV1) {attached : List Object}
    (hopen : ∀ o ∈ attached, ∃ fd, k.fds.get fd = some o) (sent : Bool) :
    k.Plain (replyEvent c m attached sent) := by
  have huses : ∀ o, o = .conn c ∨ o ∈ attached → ∃ fd, k.fds.get fd = some o := by
    rintro o (rfl | hmem)
    · exact ⟨fd, hc⟩
    · exact hopen o hmem
  cases sent <;> exact ⟨rfl, rfl, by simp [replyEvent], huses⟩

end Kernel

theorem Holds.opened {fds : DescriptorTable Object} {g : Generation} {p q : Nat}
    (h : Holds fds g p q) : ∀ o ∈ [Object.memfd p, .memfd q], ∃ fd, fds.get fd = some o := by
  intro o hmem
  rcases List.mem_pair.mp hmem with rfl | rfl
  · exact ⟨_, h.cache⟩
  · exact ⟨_, h.lock⟩

theorem generationReset_of_held {k : Kernel} {g : Generation} {p q : Nat}
    (h : Holds k.fds g p q) :
    generationReset k g = ((k.close g.cacheFd).close g.lockFd, generationInit) := by
  simp only [generationReset, ge_iff_le, if_pos (DescriptorTable.nonneg_of_get h.cache),
    if_pos (DescriptorTable.nonneg_of_get h.lock)]

theorem Kernel.Accounted.reset {k : Kernel} {g : Generation} {p q : Nat} (h : k.Accounted)
    (hheld : Holds k.fds g p q) : ((k.close g.cacheFd).close g.lockFd).Accounted := by
  refine (h.close hheld.cache).close (o := .memfd q) ?_
  rw [Kernel.close_fds, DescriptorTable.get_remove_of_ne hheld.fd_ne.symm, hheld.lock]

/-- Handling a message keeps the accounts in order, whatever it is and whatever fails. -/
theorem HandleMessage.accounted {k : Kernel} {client : ClientConnection} {c : ConnId}
    {g : Generation} {a : Answers} {r : Kernel × ClientConnection × Generation × Bool}
    (hmsg : HandleMessage k client c g a r) (h : k.Accounted)
    (hc : k.fds.get client.fd = some (.conn c)) : r.1.Accounted := by
  have hreceived : ∀ d, (k.emit [.received c d]).Accounted := by
    intro d
    refine h.emit ?_
    intro e he
    rw [List.mem_singleton.mp he]
    exact Kernel.plain_received hc d
  have hreplied : ∀ d m attached, (∀ o ∈ attached, ∃ fd, k.fds.get fd = some o) →
      (k.emit [.received c d, replyEvent c m attached a.sent]).Accounted := by
    intro d m attached hopen
    refine h.emit ?_
    intro e he
    rcases List.mem_pair.mp he with rfl | rfl
    · exact Kernel.plain_received hc d
    · exact Kernel.plain_reply hc m hopen a.sent
  cases hmsg with
  | failed => exact h
  | dropped d => exact hreceived d
  | plain d m reply => exact hreplied d _ [] (by simp)
  | shared d m p q _ _ _ _ hheld => exact hreplied d _ _ hheld.opened
  | created d m cacheFd lockFd _ _ _ _ _ _ hcache hlock hne =>
      refine ((hreceived d).withPair hcache hlock hne).emit ?_
      intro e he
      rw [List.mem_singleton.mp he]
      exact Kernel.plain_reply (get_withPair_of_open hc hcache hlock hne) _
        (holds_created client.fd m hne).opened a.sent
  | notCreated d m made =>
      refine ((hreceived d).discarded made).emit ?_
      intro e he
      rw [List.mem_singleton.mp he]
      exact Kernel.plain_reply (by exact hc) _ (by simp) a.sent
  | published d m _ _ _ _ hsent =>
      have hack := hreplied d (brokerMessageInit .ack) [] (by simp)
      rwa [hsent] at hack
  | aborted d m p q _ _ _ _ _ hheld =>
      have hstay : (((k.emit [.received c d]).close g.cacheFd).close g.lockFd).fds.get client.fd =
          some (.conn c) := by
        rw [Kernel.close_fds, Kernel.close_fds, DescriptorTable.get_remove_of_ne,
          DescriptorTable.get_remove_of_ne]
        · exact hc
        · intro heq
          rw [heq, hheld.cache] at hc
          cases hc
        · intro heq
          rw [heq, hheld.lock] at hc
          cases hc
      have hdone : ((((k.emit [.received c d]).close g.cacheFd).close g.lockFd).emit
          [replyEvent c (brokerMessageInit .ack) [] a.sent]).Accounted := by
        refine ((hreceived d).reset (by exact hheld)).emit ?_
        intro e he
        rw [List.mem_singleton.mp he]
        exact Kernel.plain_reply hstay _ (by simp) a.sent
      have hreset := generationReset_of_open (k := k.emit [.received c d]) hheld.cache hheld.lock
        hheld.fd_ne
      rw [generationReset_of_held (k := k.emit [.received c d]) (by exact hheld)] at hreset
      rw [(Prod.mk.inj hreset).1] at hdone
      simpa [Kernel.emit] using hdone

/-- Handling a message opens memfds only. -/
theorem HandleMessage.opens_memfds {k : Kernel} {client : ClientConnection} {c : ConnId}
    {g : Generation} {a : Answers} {r : Kernel × ClientConnection × Generation × Bool}
    (hmsg : HandleMessage k client c g a r) {fd : Fd} {o : Object}
    (hfd : r.1.fds.get fd = some o) : k.fds.get fd = some o ∨ k.fds.get fd = none ∧ ∃ n, o = .memfd n := by
  cases hmsg with
  | failed | dropped | plain | shared | notCreated | published => exact .inl hfd
  | created d m cacheFd lockFd _ _ _ _ _ _ hcache hlock hne =>
      have hget : ((k.fds.install cacheFd (.memfd k.nextMemfd)).install lockFd
          (.memfd (k.nextMemfd + 1))).get fd = some o := hfd
      rw [DescriptorTable.get_install] at hget
      split at hget
      · next heq =>
          cases hget
          exact .inr ⟨heq ▸ hlock.get, _, rfl⟩
      · rw [DescriptorTable.get_install] at hget
        split at hget
        · next heq =>
            cases hget
            exact .inr ⟨heq ▸ hcache.get, _, rfl⟩
        · exact .inl hget
  | aborted d m p q =>
      exact .inl (DescriptorTable.get_of_get_remove (DescriptorTable.get_of_get_remove hfd).2).2

namespace Broker

variable {b b' : Broker} {index : Nat} {client : ClientConnection} {c : ConnId} {n : Nat}

/-- Every open descriptor has an owner; that of a memfd is the generation. -/
structure Owned (b : Broker) : Prop where
  accounted : b.kernel.Accounted
  conn_held : ∀ fd c, b.kernel.fds.get fd = some (.conn c) → ∃ client ∈ b.clients, client.fd = fd
  listener_held : ∀ fd, b.kernel.fds.get fd = some .listener → fd = b.listenerFd

theorem owned_start (maxClients listenerFd : Nat) : (start maxClients listenerFd).Owned where
  accounted :=
    { balanced := Balanced.empty.install rfl _
      distinct := List.nodup_singleton _
      sound := by simp [start]
      ordered := .nil }
  conn_held := by
    intro fd c hc
    rw [start, DescriptorTable.get_install] at hc
    split at hc
    · cases hc
    · simp at hc
  listener_held := by
    intro fd hl
    rw [start, DescriptorTable.get_install] at hl
    split at hl
    · next heq => exact heq
    · simp at hl

/-- Which descriptors are open after a reset: fewer. -/
theorem get_of_reset {k : Kernel} {g : Generation} {fd : Fd} {o : Object}
    (h : (generationReset k g).1.fds.get fd = some o) : k.fds.get fd = some o := by
  have hclose : ∀ {k : Kernel} {fd' : Fd}, (k.close fd').fds.get fd = some o →
      k.fds.get fd = some o := by
    intro k fd' h
    rw [Kernel.close_fds] at h
    exact (DescriptorTable.get_of_get_remove h).2
  unfold generationReset at h
  dsimp only at h
  split at h
  · have hrest := hclose h
    split at hrest
    · exact hclose hrest
    · exact hrest
  · split at h
    · exact hclose h
    · exact h

theorem Inv.accounted_reset (h : b.Inv) (ha : b.kernel.Accounted) :
    (generationReset b.kernel b.generation).1.Accounted := by
  by_cases hs : b.generation.state = .empty
  · rw [h.generation.of_empty hs]
    exact ha
  · obtain ⟨p, q, hheld⟩ := h.generation.held hs
    rw [generationReset_of_held hheld]
    exact ha.reset hheld

theorem Owned.closeClient (h : b.Owned) (hinv : b.Inv) (hindex : index < b.clients.length) :
    (b.closeClient index).Owned := by
  obtain ⟨c, hc⟩ := hinv.clients_open b.clients[index] (List.getElem_mem hindex)
  -- the table and the accounts after the generation of this client was discarded
  obtain ⟨k, g, hk, haccounted, hopen, hsub⟩ : ∃ k g,
      (if b.generation.state = .initializing ∧ b.generation.creatorFd = b.clients[index].fd then
        generationReset b.kernel b.generation else (b.kernel, b.generation)) = (k, g) ∧
      k.Accounted ∧ k.fds.get b.clients[index].fd = some (.conn c) ∧
      ∀ fd o, k.fds.get fd = some o → b.kernel.fds.get fd = some o := by
    split
    · next hown =>
        obtain ⟨p, q, hheld⟩ := hinv.generation.held (by rw [hown.1]; decide)
        exact ⟨_, _, rfl, hinv.accounted_reset h.accounted, get_reset_of_conn hheld hc,
          fun _ _ => get_of_reset⟩
    · exact ⟨_, _, rfl, h.accounted, hc, fun _ _ => id⟩
  have hclose : b.closeClient index = { b with
      kernel := k.close b.clients[index].fd
      clients := SwapRemove.swapRemove b.clients index
      generation := g } := by
    simp only [Broker.closeClient, brokerCloseClient, List.getElem?_eq_getElem hindex, hk]
  rw [hclose]
  constructor
  · exact haccounted.close hopen
  · intro fd c' hc'
    obtain ⟨hne, hk'⟩ := DescriptorTable.get_of_get_remove (by rwa [Kernel.close_fds] at hc')
    obtain ⟨client, hmem, hfd⟩ := h.conn_held fd c' (hsub fd _ hk')
    rcases List.mem_cons.mp ((SwapRemove.perm_swapRemove hindex).mem_iff.mp hmem) with heq | hrest
    · rw [heq] at hfd
      exact absurd hfd.symm hne
    · exact ⟨client, hrest, hfd⟩
  · intro fd hl
    have hk' := DescriptorTable.get_of_get_remove (by rwa [Kernel.close_fds] at hl)
    exact h.listener_held fd (hsub fd _ hk'.2)

theorem Owned.closeListener (h : b.Owned) (hinv : b.Inv) : b.closeListener.Owned := by
  unfold Broker.closeListener
  split
  · next hpos =>
      have hl : b.kernel.fds.get b.listenerFd = some .listener :=
        hinv.listener.resolve_left (fun heq => by rw [heq] at hpos; cases hpos)
      constructor
      · exact h.accounted.close hl
      · intro fd c hc
        rw [Kernel.close_fds] at hc
        exact h.conn_held fd c (DescriptorTable.get_of_get_remove hc).2
      · intro fd hfd
        rw [Kernel.close_fds] at hfd
        obtain ⟨hne, hget⟩ := DescriptorTable.get_of_get_remove hfd
        exact absurd (h.listener_held fd hget) hne
  · exact h

theorem Owned.accept (h : b.Owned) (hn : b.kernel.fds.Free n)
    (hc : Event.accepted c ∉ b.kernel.log) :
    Owned { b with
      kernel := b.kernel.withConn n c
      clients := b.clients ++ [{ fd := n, handledMessage := false }] } where
  accounted := h.accounted.withConn hn hc
  conn_held := by
    intro fd c' hc'
    have hget : (b.kernel.fds.install n (.conn c)).get fd = some (.conn c') := hc'
    rw [DescriptorTable.get_install] at hget
    split at hget
    · next heq => exact ⟨_, List.mem_append_right _ (List.mem_singleton_self _), heq.symm⟩
    · obtain ⟨client, hmem, hfd⟩ := h.conn_held fd c' hget
      exact ⟨client, List.mem_append_left _ hmem, hfd⟩
  listener_held := by
    intro fd hl
    have hget : (b.kernel.fds.install n (.conn c)).get fd = some .listener := hl
    rw [DescriptorTable.get_install] at hget
    split at hget
    · cases hget
    · exact h.listener_held fd hget

theorem Owned.refuse (h : b.Owned) (hn : b.kernel.fds.Free n)
    (hc : Event.accepted c ∉ b.kernel.log) :
    Owned { b with kernel := (b.kernel.withConn n c).close n } := by
  have hfds : ((b.kernel.withConn n c).close n).fds = b.kernel.fds := by
    rw [Kernel.close_fds]
    exact DescriptorTable.remove_install hn _
  constructor
  · exact (h.accounted.withConn hn hc).close (DescriptorTable.get_install_self n _)
  · intro fd c' hc'
    rw [hfds] at hc'
    exact h.conn_held fd c' hc'
  · intro fd hl
    rw [hfds] at hl
    exact h.listener_held fd hl

theorem Owned.reset (h : b.Owned) (hinv : b.Inv) :
    Owned { b with
      kernel := (generationReset b.kernel b.generation).1
      generation := (generationReset b.kernel b.generation).2 } where
  accounted := hinv.accounted_reset h.accounted
  conn_held := fun fd c hc => h.conn_held fd c (get_of_reset hc)
  listener_held := fun fd hl => h.listener_held fd (get_of_reset hl)

theorem Owned.upkeep (h : b.Owned) (hinv : b.Inv) (hmove : Upkeep b b') : b'.Owned := by
  cases hmove with
  | control hk hc hg hl =>
      constructor
      · rw [hk]
        exact h.accounted
      · rw [hk, hc]
        exact h.conn_held
      · rw [hk, hl]
        exact h.listener_held
  | close hindex => exact h.closeClient hinv hindex
  | closeListener => exact h.closeListener hinv
  | accept hn hc => exact h.accept hn hc
  | refuse hn hc => exact h.refuse hn hc
  | reset => exact h.reset hinv

theorem Owned.serveClient (h : b.Owned) (hinv : b.Inv) (hindex : b.clients[index]? = some client)
    (a : Answers) : (b.serveClient index client a).1.Owned := by
  obtain ⟨c, hc, hmsg⟩ := hinv.served hindex a
  have hold : ∀ {fd o}, (b.serveClient index client a).1.kernel.fds.get fd = some o →
      (∀ n, o ≠ .memfd n) → b.kernel.fds.get fd = some o := by
    intro fd o hfd ho
    rcases hmsg.opens_memfds hfd with hsame | ⟨-, n, heq⟩
    · exact hsame
    · exact absurd heq (ho n)
  constructor
  · exact hmsg.accounted h.accounted hc
  · intro fd c' hc'
    obtain ⟨other, hmem, hfd⟩ := h.conn_held fd c' (hold hc' (by simp))
    obtain ⟨i, hi⟩ := List.mem_iff_getElem?.mp hmem
    have hlt : index < b.clients.length := (List.getElem?_eq_some_iff.mp hindex).1
    by_cases heq : index = i
    · subst heq
      rw [hindex] at hi
      cases hi
      exact ⟨_, List.mem_set hlt _, hmsg.served_fd.trans hfd⟩
    · refine ⟨other, List.mem_of_getElem? (i := i) ?_, hfd⟩
      rw [← hi]
      exact List.getElem?_set_ne heq
  · intro fd hl
    exact h.listener_held fd (hold hl (by simp))

theorem Owned.move (h : b.Owned) (hinv : b.Inv) (hmove : Move b b') : b'.Owned := by
  cases hmove with
  | upkeep hupkeep => exact h.upkeep hinv hupkeep
  | serve a hindex _ => exact h.serveClient hinv hindex a
  | @serveClose index client a hindex =>
      have hserved := h.serveClient hinv hindex a
      have hlt : index < (b.serveClient index client a).1.clients.length := by
        rw [Broker.serveClient, List.length_set]
        exact (List.getElem?_eq_some_iff.mp hindex).1
      exact hserved.closeClient (hinv.serveClient hindex a) hlt

theorem Reachable.owned (h : Reachable b) : b.Owned := by
  refine (h.moves_invariant (I := fun b => b.Inv ∧ b.Owned) ?_ ?_).2
  · exact fun maxClients listenerFd =>
      ⟨inv_start maxClients listenerFd, owned_start maxClients listenerFd⟩
  · exact fun hb hmove => ⟨hb.1.move hmove, hb.2.move hb.1 hmove⟩

end Broker

end Hyperglyph
