import Hyperglyph.Broker.Invariant
import Hyperglyph.Broker.Ledger

/-! The broker of the source refines the ledger: what its descriptors name, and the
simulation of each move. -/
namespace Hyperglyph

open Octets

/-- What the broker's descriptors name: the pair of the generation and the open connections,
each once, and nothing else. -/
structure Tidy (k : Kernel) (g : Generation) : Prop where
  memfd_made : ∀ fd n, k.fds.get fd = some (.memfd n) → n < k.nextMemfd
  memfd_held : ∀ fd n, k.fds.get fd = some (.memfd n) → fd = g.cacheFd ∨ fd = g.lockFd
  consecutive : ∀ p q, Holds k.fds g p q → q = p + 1
  conn_open : ∀ fd c, k.fds.get fd = some (.conn c) → OpenConn k.log c
  conn_once : ∀ fd fd' c, k.fds.get fd = some (.conn c) → k.fds.get fd' = some (.conn c) → fd = fd'
  closed_accepted : ∀ c, Event.closed (.conn c) ∈ k.log → Event.accepted c ∈ k.log

def phaseOf (fds : DescriptorTable Object) (g : Generation) : Phase :=
  match g.state, fds.get g.cacheFd, fds.get g.creatorFd with
  | .initializing, some (.memfd p), some (.conn c) => .building c p g.mappingSize g.cacheKey
  | .ready, some (.memfd p), _ =>
      .published p g.mappingSize g.mappingBase g.sharedGlobalsOffset g.cacheKey
  | _, _, _ => .empty

/-- The generation record stands for this phase. -/
inductive Represents (fds : DescriptorTable Object) (g : Generation) : Phase → Prop
  | empty : g = generationInit → Represents fds g .empty
  | building {c : ConnId} {p : Nat} : g.state = .initializing → Holds fds g p (p + 1) →
      fds.get g.creatorFd = some (.conn c) → g.mappingBase = 0 → g.sharedGlobalsOffset = 0 →
      Represents fds g (.building c p g.mappingSize g.cacheKey)
  | published {p : Nat} : g.state = .ready → Holds fds g p (p + 1) →
      Represents fds g (.published p g.mappingSize g.mappingBase g.sharedGlobalsOffset g.cacheKey)

section Represents

variable {fds fds' : DescriptorTable Object} {g : Generation} {ph : Phase}

theorem Represents.phaseOf_eq (h : Represents fds g ph) : phaseOf fds g = ph := by
  cases h with
  | empty hg => rw [hg]; rfl
  | building hs hpq hc _ _ => simp only [phaseOf, hs, hpq.cache, hc]
  | published hs hpq => simp only [phaseOf, hs, hpq.cache]

theorem Represents.mono (h : Represents fds g ph)
    (hmemfd : ∀ fd n, fds.get fd = some (.memfd n) → fds'.get fd = some (.memfd n))
    (hconn : ∀ c, ph.creator? = some c → fds'.get g.creatorFd = fds.get g.creatorFd) :
    Represents fds' g ph := by
  cases h with
  | empty hg => exact .empty hg
  | building hs hpq hc hbase hoffset =>
      exact .building hs (hpq.mono hmemfd) ((hconn _ rfl).trans hc) hbase hoffset
  | published hs hpq => exact .published hs (hpq.mono hmemfd)

theorem Represents.state_empty (h : Represents fds g .empty) : g = generationInit := by
  cases h with
  | empty hg => exact hg

theorem Represents.of_init (h : Represents fds generationInit ph) : ph = .empty := by
  cases h with
  | empty => rfl
  | building hs _ _ _ _ | published hs _ => cases hs

theorem Represents.ne_empty (h : Represents fds g ph) (hs : g.state ≠ .empty) : ph ≠ .empty := by
  rintro rfl
  exact hs (by rw [h.state_empty]; rfl)

/-- A generation that holds something represents a phase that holds the same. -/
theorem Represents.pair (h : Represents fds g ph) {p q : Nat} (hpq : Holds fds g p q) :
    ph.pair? = some p ∧ q = p + 1 := by
  cases h with
  | empty hg =>
      have hcache := hpq.cache
      rw [hg, DescriptorTable.get_neg (by decide)] at hcache
      cases hcache
  | building _ hpq' _ _ _ | published _ hpq' =>
      have hcache := hpq.cache
      rw [hpq'.cache] at hcache
      cases hcache
      have hlock := hpq.lock
      rw [hpq'.lock] at hlock
      cases hlock
      exact ⟨rfl, rfl⟩

theorem Represents.share_eq (h : Represents fds g ph) (hne : ph ≠ .empty) :
    shareResponse g = ph.share := by
  cases h with
  | empty => exact absurd rfl hne
  | building hs _ _ hbase hoffset =>
      simp [shareResponse, Phase.share, hs, hbase, hoffset, brokerMessageInit]
  | published hs _ => simp [shareResponse, Phase.share, hs]

theorem generationMatches_iff {m : MessageV1} :
    generationMatches g m = true ↔ Asks m g.mappingSize g.cacheKey := by
  simp only [generationMatches, Asks, Bool.and_eq_true, beq_iff_eq, and_assoc]

end Represents

section Client

variable {k : Kernel} {g : Generation} {ph : Phase} {c : ConnId} {fd : Fd} {m : MessageV1}

theorem creator_iff (h : Represents k.fds g ph) (ht : Tidy k g)
    (hc : k.fds.get fd = some (.conn c)) :
    (g.state = .initializing ∧ g.creatorFd = fd) ↔ ph.creator? = some c := by
  cases h with
  | empty hg => rw [hg]; simp [Phase.creator?, generationInit]
  | @building creator p hs hpq hcreator _ _ =>
      simp only [Phase.creator?, hs, true_and, Option.some_inj]
      constructor
      · intro heq
        rw [heq, hc] at hcreator
        cases hcreator
        rfl
      · intro heq
        rw [heq] at hcreator
        exact ht.conn_once _ _ c hcreator hc
  | published hs _ => simp [Phase.creator?, hs]

theorem accepts_iff (h : Represents k.fds g ph) (ht : Tidy k g)
    (hc : k.fds.get fd = some (.conn c)) :
    ph.Accepts c m ↔ readyRefused g fd m = false := by
  have hcreator := creator_iff h ht hc
  constructor
  · intro haccepts
    cases h with
    | empty | published => exact haccepts.elim
    | building hs _ _ _ _ =>
        obtain ⟨hcc, hsize, hbase, hoffset⟩ := haccepts
        obtain ⟨-, hfd⟩ := hcreator.mpr (congrArg some hcc)
        rw [hsize] at hoffset
        simp [readyRefused, hs, hfd, hsize, hbase, hoffset]
  · intro hready
    obtain ⟨hs, hfd, hsize, hbase, hoffset⟩ := readyRefused_eq_false hready
    cases h with
    | empty hg => rw [hg] at hs; cases hs
    | published hs' _ => rw [hs'] at hs; cases hs
    | building _ _ _ _ _ =>
        exact ⟨Option.some_inj.mp (hcreator.mp ⟨hs, hfd⟩), hsize, hbase, hoffset⟩

theorem serves_iff (h : Represents k.fds g ph) (ht : Tidy k g)
    (hc : k.fds.get fd = some (.conn c)) (hg : g.state ≠ .empty) :
    ph.Serves c m ↔ generationMatches g m = true ∧ (g.state = .initializing → g.creatorFd = fd) := by
  have hcreator := creator_iff h ht hc
  rw [generationMatches_iff]
  cases h with
  | empty hinit => exact absurd (by rw [hinit]; rfl) hg
  | building hs _ _ _ _ =>
      simp only [hs, true_and, Phase.creator?, Option.some_inj] at hcreator
      simp only [Phase.Serves, hs, hcreator, forall_const]
      exact And.comm
  | published hs _ => simp [Phase.Serves, hs]

theorem PlainReply.answered (h : Represents k.fds g ph) (ht : Tidy k g)
    (hc : k.fds.get fd = some (.conn c)) {sent keep : Bool} {reply : MessageType}
    (hreply : PlainReply g fd m sent reply keep) : Answered ph c m sent reply keep := by
  cases hreply with
  | declined htype hg hrefuse =>
      refine .declined htype (h.ne_empty hg) ?_
      rw [serves_iff h ht hc hg]
      rintro ⟨hmatch, hown⟩
      rcases hrefuse with hno | ⟨hs, hfd⟩
      · rw [hmatch] at hno
        cases hno
      · exact hfd (hown hs)
  | rejected htype hrefused =>
      refine .rejected htype ?_
      rw [accepts_iff h ht hc, hrefused]
      exact Bool.noConfusion
  | unacknowledged htype hready hsent =>
      exact .unacknowledged htype ((accepts_iff h ht hc).mpr hready) hsent
  | ignored htype hother => exact .ignored htype fun hc' => hother ((creator_iff h ht hc).mpr hc')
  | detached htype => exact .detached htype
  | unknown h₁ h₂ h₃ h₄ => exact .unknown h₁ h₂ h₃ h₄

end Client

section Moves

variable {k k' : Kernel} {g g' : Generation} {ph : Phase} {client : ClientConnection}
  {c : ConnId} {a : Answers} {r : Kernel × ClientConnection × Generation × Bool}

theorem OpenConn.append {log more : List Event} (h : OpenConn log c)
    (hmore : Event.closed (.conn c) ∉ more) : OpenConn (log ++ more) c := by
  refine ⟨List.mem_append_left _ h.1, ?_⟩
  rw [List.mem_append]
  rintro (hold | hnew)
  · exact h.2 hold
  · exact hmore hnew

/-- The table after some descriptors were closed. -/
theorem Tidy.shrink (h : Tidy k g) (more : List Event) (hlog : k'.log = k.log ++ more)
    (hsub : ∀ fd o, k'.fds.get fd = some o → k.fds.get fd = some o)
    (hnext : k.nextMemfd ≤ k'.nextMemfd)
    (hheld : g'.cacheFd = g.cacheFd ∧ g'.lockFd = g.lockFd ∨ ∀ fd n, k'.fds.get fd ≠ some (.memfd n))
    (hclosed : ∀ c, Event.closed (.conn c) ∈ more →
      Event.accepted c ∈ k.log ++ more ∧ ∀ fd, k'.fds.get fd ≠ some (.conn c)) :
    Tidy k' g' where
  memfd_made := fun fd n hn => Nat.lt_of_lt_of_le (h.memfd_made fd n (hsub fd _ hn)) hnext
  memfd_held := by
    intro fd n hn
    rcases hheld with ⟨hcache, hlock⟩ | hnone
    · rw [hcache, hlock]
      exact h.memfd_held fd n (hsub fd _ hn)
    · exact absurd hn (hnone fd n)
  consecutive := by
    intro p q hpq
    rcases hheld with ⟨hcache, hlock⟩ | hnone
    · refine h.consecutive p q ⟨?_, ?_, hpq.distinct⟩
      · rw [← hcache]
        exact hsub _ _ hpq.cache
      · rw [← hlock]
        exact hsub _ _ hpq.lock
    · exact absurd hpq.cache (hnone _ p)
  conn_open := by
    intro fd c hc
    rw [hlog]
    exact (h.conn_open fd c (hsub fd _ hc)).append fun hmem => (hclosed c hmem).2 fd hc
  conn_once := fun fd fd' c hc hc' => h.conn_once fd fd' c (hsub fd _ hc) (hsub fd' _ hc')
  closed_accepted := by
    intro c hmem
    rw [hlog] at hmem ⊢
    rcases List.mem_append.mp hmem with hold | hnew
    · exact List.mem_append_left _ (h.closed_accepted c hold)
    · exact (hclosed c hnew).1

/-- No memfd is open once the two of the generation are closed. -/
theorem Tidy.no_memfd (h : Tidy k g) (fd : Fd) (n : Nat) :
    ((k.fds.remove g.cacheFd).remove g.lockFd).get fd ≠ some (.memfd n) := by
  intro hn
  obtain ⟨hlock, hrest⟩ := DescriptorTable.get_of_get_remove hn
  obtain ⟨hcache, hopen⟩ := DescriptorTable.get_of_get_remove hrest
  rcases h.memfd_held fd n hopen with heq | heq
  · exact hcache heq
  · exact hlock heq

/-- An empty generation holds no memfd, so the new pair is all there is. -/
theorem Tidy.withPair (h : Tidy k generationInit) {cacheFd lockFd : Nat} (fd : Fd) (m : MessageV1)
    (hne : cacheFd ≠ lockFd) :
    Tidy (k.withPair cacheFd lockFd) (createdGeneration cacheFd lockFd fd m) := by
  have hnone : ∀ fd n, k.fds.get fd ≠ some (.memfd n) := by
    intro fd n hn
    have hneg : fd = -1 := (h.memfd_held fd n hn).elim id id
    rw [hneg, DescriptorTable.get_neg (by decide)] at hn
    cases hn
  have hconn : ∀ {fd c}, (k.withPair cacheFd lockFd).fds.get fd = some (.conn c) →
      k.fds.get fd = some (.conn c) := by
    intro fd c hopen
    rcases get_of_get_withPair hopen with ⟨-, heq⟩ | ⟨-, heq⟩ | hold
    · cases heq
    · cases heq
    · exact hold
  refine ⟨?_, ?_, ?_, ?_, ?_, h.closed_accepted⟩
  · intro fd n hn
    rcases get_of_get_withPair hn with ⟨-, heq⟩ | ⟨-, heq⟩ | hold
    · cases heq
      exact Nat.lt_succ_self _
    · cases heq
      exact Nat.lt_succ_of_lt (Nat.lt_succ_self _)
    · exact absurd hold (hnone fd n)
  · intro fd n hn
    rcases get_of_get_withPair hn with ⟨heq, -⟩ | ⟨heq, -⟩ | hold
    · exact .inr heq
    · exact .inl heq
    · exact absurd hold (hnone fd n)
  · intro p q hpq
    have hholds := holds_created (k := k) fd m hne
    have hp : some (Object.memfd p) = some (.memfd k.nextMemfd) :=
      hpq.cache.symm.trans hholds.cache
    have hq : some (Object.memfd q) = some (.memfd (k.nextMemfd + 1)) :=
      hpq.lock.symm.trans hholds.lock
    cases hp
    cases hq
    rfl
  · intro fd c hopen
    exact h.conn_open fd c (hconn hopen)
  · intro fd fd' c hopen hopen'
    exact h.conn_once fd fd' c (hconn hopen) (hconn hopen')

/-- Handling a message keeps the descriptors tidy. -/
theorem HandleMessage.tidy (ht : Tidy k g) (hmsg : HandleMessage k client c g a r) :
    Tidy r.1 r.2.2.1 := by
  cases hmsg with
  | failed => exact ht
  | dropped d _ _ =>
      exact ht.shrink [.received c d] rfl (fun _ _ h => h) le_rfl (.inl ⟨rfl, rfl⟩)
        (by simp)
  | plain d m reply keep _ _ _ =>
      exact ht.shrink [.received c d, replyEvent c (brokerMessageInit reply) [] a.sent] rfl
        (fun _ _ h => h) le_rfl (.inl ⟨rfl, rfl⟩) (by simp)
  | shared d m p q _ _ _ _ _ _ _ =>
      exact ht.shrink
        [.received c d, replyEvent c (shareResponse g) [.memfd p, .memfd q] a.sent] rfl
        (fun _ _ h => h) le_rfl (.inl ⟨rfl, rfl⟩) (by simp)
  | published d m _ _ _ _ _ =>
      exact ht.shrink [.received c d, .sent c (brokerMessageInit .ack) []] rfl
        (fun _ _ h => h) le_rfl (.inl ⟨rfl, rfl⟩) (by simp)
  | notCreated d m made _ _ _ hg _ _ =>
      refine ht.shrink (.received c d ::
        ((List.range made).map fun i => Event.closed (.memfd (k.nextMemfd + i))) ++
          [replyEvent c (brokerMessageInit .error) [] a.sent]) ?_ (fun _ _ h => h)
        (Nat.le_add_right _ _) (.inl (by rw [hg]; exact ⟨rfl, rfl⟩)) (by simp)
      simp [Kernel.discarded, Kernel.emit]
  | aborted d m p q _ _ _ _ _ _ =>
      refine ht.shrink [.received c d, .closed (.memfd p), .closed (.memfd q),
        replyEvent c (brokerMessageInit .ack) [] a.sent] rfl ?_ le_rfl (.inr ht.no_memfd)
        (by simp)
      intro fd o h
      exact (DescriptorTable.get_of_get_remove (DescriptorTable.get_of_get_remove h).2).2
  | created d m cacheFd lockFd _ _ _ hg _ _ _ _ hne =>
      have hreceived : Tidy (k.emit [.received c d]) g :=
        ht.shrink [.received c d] rfl (fun _ _ h => h) le_rfl (.inl ⟨rfl, rfl⟩) (by simp)
      rw [hg] at hreceived
      have hpair := hreceived.withPair client.fd m hne
      exact hpair.shrink [replyEvent c (shareResponse (createdGeneration cacheFd lockFd client.fd m))
        [.memfd k.nextMemfd, .memfd (k.nextMemfd + 1)] a.sent] rfl (fun _ _ h => h) le_rfl
        (.inl ⟨rfl, rfl⟩) (by simp)

/-- Handling a message is one activation of the ledger. -/
theorem HandleMessage.refines (h : Represents k.fds g ph) (ht : Tidy k g)
    (hc : k.fds.get client.fd = some (.conn c))
    (hmsg : HandleMessage k client c g a r) :
    ∃ events ph', r.1.log = k.log ++ events ∧ Represents r.1.fds r.2.2.1 ph' ∧
      Served ph k.nextMemfd c events ph' r.1.nextMemfd r.2.2.2 := by
  cases hmsg with
  | failed => exact ⟨[], ph, (List.append_nil _).symm, h, .unread⟩
  | dropped d _ hd => exact ⟨_, ph, rfl, h, .dropped d hd⟩
  | plain d m reply keep _ hm hreply =>
      exact ⟨_, ph, rfl, h, .answered d m reply a.sent keep hm (hreply.answered h ht hc)⟩
  | shared d m p q _ hm htype hg hpq hmatch hown =>
      obtain ⟨hpair, rfl⟩ := h.pair hpq
      have hserves := (serves_iff (m := m) h ht hc hg).mpr ⟨hmatch, hown⟩
      refine ⟨_, ph, rfl, h, ?_⟩
      rw [h.share_eq (h.ne_empty hg)]
      exact .shared d m p a.sent hm htype hserves hpair
  | created d m cacheFd lockFd _ hm htype hg hvalid _ hcache hlock hne =>
      subst hg
      have hholds := holds_created (k := k.emit [.received c d]) client.fd m hne
      refine ⟨_, .building c k.nextMemfd m.mappingSize m.cacheKey, ?_,
        .building rfl hholds (get_withPair_of_open hc hcache hlock hne) rfl rfl,
        .created d m a.sent hm htype h.of_init hvalid⟩
      simp only [Kernel.withPair, Kernel.emit, List.append_assoc, List.cons_append, List.nil_append]
      rfl
  | notCreated d m made _ hm htype hg _ _ =>
      subst hg
      refine ⟨_, .empty, ?_, .empty rfl, .notCreated d m made a.sent hm htype h.of_init⟩
      simp [Kernel.discarded, Kernel.emit]
  | published d m _ hm htype hready _ =>
      have haccepts := (accepts_iff (m := m) h ht hc).mpr hready
      refine ⟨_, ph.publish m, rfl, ?_, .published d m hm htype haccepts⟩
      cases h with
      | empty | published => exact haccepts.elim
      | building _ hpq _ _ _ => exact .published rfl ⟨hpq.cache, hpq.lock, hpq.distinct⟩
  | aborted d m p q _ hm htype hs hfd hpq =>
      have hcreator := (creator_iff h ht hc).mp ⟨hs, hfd⟩
      refine ⟨_, .empty, ?_, .empty rfl, .aborted d m a.sent hm htype hcreator⟩
      cases h with
      | empty | published => cases hcreator
      | building _ hpq' _ _ _ =>
          obtain ⟨hpair, rfl⟩ := (Represents.building hs hpq' ‹_› ‹_› ‹_›).pair hpq
          cases hpair
          cases hcreator
          simp [Phase.leaveEvents]

theorem Coherent.represents {clients : List ClientConnection} {listenerFd : Fd}
    (h : Coherent k.fds clients g listenerFd) (ht : Tidy k g) : ∃ ph, Represents k.fds g ph := by
  have hg := h.generation
  cases hs : g.state with
  | empty => exact ⟨.empty, .empty (hg.of_empty hs)⟩
  | initializing =>
      obtain ⟨creator, hmem, hfd, _⟩ := hg.creator hs
      obtain ⟨c, hc⟩ := h.clients_open creator hmem
      rw [GenerationCoherent, hs] at hg
      obtain ⟨⟨p, q, hpq⟩, -, -, -, -, hbase, hoffset, -⟩ := hg
      obtain rfl := ht.consecutive p q hpq
      exact ⟨_, .building hs hpq (hfd ▸ hc) hbase hoffset⟩
  | ready =>
      obtain ⟨p, q, hpq⟩ := hg.held (by rw [hs]; decide)
      obtain rfl := ht.consecutive p q hpq
      exact ⟨_, .published hs hpq⟩

/-- Closing the connection `c`, which builds nothing. -/
theorem close_conn_refines {fd : Fd} (h : Represents k.fds g ph) (ht : Tidy k g)
    (hc : k.fds.get fd = some (.conn c)) (hother : ph.creator? ≠ some c) :
    (k.close fd).log = k.log ++ [.closed (.conn c)] ∧ Represents (k.close fd).fds g ph ∧
      Tidy (k.close fd) g := by
  have hlog : (k.close fd).log = k.log ++ [.closed (.conn c)] := by rw [Kernel.close_of_open hc]
  refine ⟨hlog, ?_, ?_⟩
  · rw [Kernel.close_fds]
    refine h.mono ?_ ?_
    · intro fd' n hn
      rw [DescriptorTable.get_remove_of_ne, hn]
      rintro rfl
      rw [hc] at hn
      cases hn
    · intro c' hc'
      rw [DescriptorTable.get_remove_of_ne]
      rintro heq
      have hs := (creator_iff h ht hc).mp
      cases h with
      | empty | published => cases hc'
      | building hs' _ _ _ _ => exact hother (hs ⟨hs', heq⟩)
  · refine ht.shrink _ hlog ?_ (by rw [Kernel.close_nextMemfd]) (.inl ⟨rfl, rfl⟩) ?_
    · intro fd' o ho
      rw [Kernel.close_fds] at ho
      exact (DescriptorTable.get_of_get_remove ho).2
    · intro c' hmem
      obtain rfl : c' = c := by simpa using hmem
      refine ⟨List.mem_append_left _ (ht.conn_open fd c' hc).1, ?_⟩
      intro fd' hc'
      rw [Kernel.close_fds] at hc'
      obtain ⟨hne, hget⟩ := DescriptorTable.get_of_get_remove hc'
      exact hne (ht.conn_once fd' fd c' hget hc)

/-- Discarding the generation. -/
theorem reset_refines {p q : Nat} (ht : Tidy k g) (hpq : Holds k.fds g p q) :
    (generationReset k g).1.log = k.log ++ [.closed (.memfd p), .closed (.memfd q)] ∧
      (generationReset k g).1.nextMemfd = k.nextMemfd ∧ (generationReset k g).2 = generationInit ∧
      Tidy (generationReset k g).1 (generationReset k g).2 := by
  rw [generationReset_of_open hpq.cache hpq.lock hpq.fd_ne]
  refine ⟨rfl, rfl, rfl, ht.shrink _ rfl ?_ le_rfl (.inr ht.no_memfd) (by simp)⟩
  intro fd o h
  exact (DescriptorTable.get_of_get_remove (DescriptorTable.get_of_get_remove h).2).2

theorem get_reset_of_conn {p q : Nat} {fd : Fd} (hpq : Holds k.fds g p q)
    (hc : k.fds.get fd = some (.conn c)) :
    (generationReset k g).1.fds.get fd = some (.conn c) := by
  rw [generationReset_of_open hpq.cache hpq.lock hpq.fd_ne]
  have hne₁ : fd ≠ g.lockFd := by
    rintro rfl
    rw [hpq.lock] at hc
    cases hc
  have hne₂ : fd ≠ g.cacheFd := by
    rintro rfl
    rw [hpq.cache] at hc
    cases hc
  exact (DescriptorTable.get_remove_of_ne hne₁).trans
    ((DescriptorTable.get_remove_of_ne hne₂).trans hc)

/-- `ahe_broker_close_client` of the connection `c`. -/
theorem closeClient_refines {clients : List ClientConnection} {index : Nat}
    (h : Represents k.fds g ph) (ht : Tidy k g) (hindex : clients[index]? = some client)
    (hc : k.fds.get client.fd = some (.conn c)) :
    (brokerCloseClient k clients index g).1.log =
        k.log ++ (ph.leaveEvents c ++ [.closed (.conn c)]) ∧
      (brokerCloseClient k clients index g).1.nextMemfd = k.nextMemfd ∧
      Represents (brokerCloseClient k clients index g).1.fds (brokerCloseClient k clients index g).2.2
        (ph.leave c) ∧
      Tidy (brokerCloseClient k clients index g).1 (brokerCloseClient k clients index g).2.2 := by
  have hcreator := creator_iff h ht hc
  simp only [brokerCloseClient, hindex]
  split
  · next hown =>
      have hph := hcreator.mp hown
      cases h with
      | empty | published => cases hph
      | @building creator p hs hpq hcreator' hbase hoffset =>
          cases hph
          obtain ⟨hlog, hnext, hinit, htidy⟩ := reset_refines ht hpq
          have hrep : Represents (generationReset k g).1.fds (generationReset k g).2 .empty :=
            .empty hinit
          obtain ⟨hlog', hrep', htidy'⟩ :=
            close_conn_refines hrep htidy (get_reset_of_conn hpq hc) (by simp [Phase.creator?])
          refine ⟨?_, ?_, ?_, htidy'⟩
          · rw [hlog', hlog]
            simp [Phase.leaveEvents]
          · rw [Kernel.close_nextMemfd, hnext]
          · rw [Phase.leave, if_pos (by rfl)]
            exact hrep'
  · next hother =>
      have hph : ph.creator? ≠ some c := fun heq => hother (hcreator.mpr heq)
      obtain ⟨hlog, hrep, htidy⟩ := close_conn_refines h ht hc hph
      refine ⟨?_, by rw [Kernel.close_nextMemfd], ?_, htidy⟩
      · rw [hlog]
        cases ph with
        | empty | published => rfl
        | building creator p size key =>
            have hne : creator ≠ c := fun heq => hph (congrArg some heq)
            simp [Phase.leaveEvents, hne]
      · rw [Phase.leave, if_neg hph]
        exact hrep

/-- Accepting the connection `c`. -/
theorem accept_refines {n : Nat} (h : Represents k.fds g ph) (ht : Tidy k g) (hn : k.fds.Free n)
    (hc : Event.accepted c ∉ k.log) :
    Represents (k.withConn n c).fds g ph ∧ Tidy (k.withConn n c) g := by
  have hget : ∀ {fd o}, (k.withConn n c).fds.get fd = some o →
      (fd = n ∧ o = .conn c) ∨ k.fds.get fd = some o := by
    intro fd o ho
    simp only [Kernel.withConn, DescriptorTable.get_install] at ho
    split at ho
    · next heq => exact .inl ⟨heq, (Option.some.inj ho).symm⟩
    · exact .inr ho
  have hmemfd : ∀ {fd m}, (k.withConn n c).fds.get fd = some (.memfd m) →
      k.fds.get fd = some (.memfd m) := by
    intro fd m hm
    rcases hget hm with ⟨-, heq⟩ | hold
    · cases heq
    · exact hold
  have hkeep : ∀ {fd o}, k.fds.get fd = some o → (k.withConn n c).fds.get fd = some o :=
    fun ho => DescriptorTable.get_install_of_open hn ho
  have hfresh : ∀ {fd c'}, k.fds.get fd = some (.conn c') → c' ≠ c := by
    rintro fd c' hc' rfl
    exact hc (ht.conn_open fd c' hc').1
  constructor
  · refine h.mono (fun fd m hm => hkeep hm) ?_
    intro c' hc'
    cases h with
    | empty | published => cases hc'
    | building _ _ hcreator _ _ => exact (hkeep hcreator).trans hcreator.symm
  · refine ⟨?_, ?_, ?_, ?_, ?_, ?_⟩
    · exact fun fd m hm => ht.memfd_made fd m (hmemfd hm)
    · exact fun fd m hm => ht.memfd_held fd m (hmemfd hm)
    · exact fun p q hpq => ht.consecutive p q ⟨hmemfd hpq.cache, hmemfd hpq.lock, hpq.distinct⟩
    · intro fd c' hc'
      rcases hget hc' with ⟨-, heq⟩ | hold
      · cases heq
        refine ⟨by simp [Kernel.withConn], ?_⟩
        intro hmem
        refine hc (ht.closed_accepted c ?_)
        simpa [Kernel.withConn] using hmem
      · exact (ht.conn_open fd c' hold).append (by simp)
    · intro fd fd' c' hc₁ hc₂
      rcases hget hc₁ with ⟨rfl, heq⟩ | hold
      · cases heq
        rcases hget hc₂ with ⟨rfl, -⟩ | hold'
        · rfl
        · exact absurd rfl (hfresh hold')
      · rcases hget hc₂ with ⟨-, heq⟩ | hold'
        · cases heq
          exact absurd rfl (hfresh hold)
        · exact ht.conn_once fd fd' c' hold hold'
    · intro c' hmem
      refine List.mem_append_left _ (ht.closed_accepted c' ?_)
      simpa [Kernel.withConn] using hmem

end Moves

namespace Broker

/-- The ledger the broker keeps with its descriptors. -/
def ledger (b : Broker) : Ledger :=
  ⟨phaseOf b.kernel.fds b.generation, b.kernel.nextMemfd, b.kernel.log⟩

abbrev Tidied (b : Broker) : Prop := Tidy b.kernel b.generation

theorem ledger_of_represents {b : Broker} {ph : Phase}
    (h : Represents b.kernel.fds b.generation ph) :
    b.ledger = ⟨ph, b.kernel.nextMemfd, b.kernel.log⟩ := by
  rw [ledger, h.phaseOf_eq]

theorem ledger_eq {b : Broker} {ph : Phase} {next : Nat} {log : List Event}
    (h : Represents b.kernel.fds b.generation ph) (hnext : b.kernel.nextMemfd = next)
    (hlog : b.kernel.log = log) : b.ledger = ⟨ph, next, log⟩ := by
  rw [ledger_of_represents h, hnext, hlog]

/-- The closing of a client, as a move of the ledger. -/
theorem closeClient_step {b : Broker} {index : Nat} (hinv : b.Inv) (ht : b.Tidied)
    (hindex : index < b.clients.length) :
    ∃ c ph, Represents b.kernel.fds b.generation ph ∧ OpenConn b.kernel.log c ∧
      (b.closeClient index).ledger = ⟨ph.leave c, b.kernel.nextMemfd,
        b.kernel.log ++ (ph.leaveEvents c ++ [.closed (.conn c)])⟩ ∧
      (b.closeClient index).Tidied := by
  obtain ⟨c, hc⟩ := hinv.clients_open _ (List.getElem_mem hindex)
  obtain ⟨ph, hrep⟩ := hinv.represents ht
  obtain ⟨hlog, hnext, hrep', htidy⟩ :=
    closeClient_refines hrep ht (List.getElem?_eq_getElem hindex) hc
  exact ⟨c, ph, hrep, ht.conn_open _ c hc, ledger_eq hrep' hnext hlog, htidy⟩

/-- The move is one of `step` on the ledger, and keeps the descriptors tidy. -/
def Refines (step : Ledger → List Event → Ledger → Prop) (b b' : Broker) : Prop :=
  b'.Tidied ∧ ∃ events, step b.ledger events b'.ledger

theorem refines_serve {b : Broker} {index : Nat} {client : ClientConnection} {a : Answers}
    (hinv : b.Inv) (ht : b.Tidied) (hindex : b.clients[index]? = some client)
    (hkeep : (b.serveClient index client a).2 = true) :
    Refines Ledger.Step b (b.serveClient index client a).1 := by
  obtain ⟨c, hc, hmsg⟩ := hinv.served hindex a
  obtain ⟨ph, hrep⟩ := hinv.represents ht
  obtain ⟨events, ph', hlog, hrep', hserved⟩ := hmsg.refines hrep ht hc
  refine ⟨hmsg.tidy ht, events, ?_⟩
  have hledger : (b.serveClient index client a).1.ledger = ⟨ph', _, b.kernel.log ++ events⟩ :=
    ledger_eq hrep' rfl hlog
  rw [ledger_of_represents hrep, hledger]
  exact .served (ht.conn_open _ c hc) (hkeep ▸ hserved)

theorem refines_serveClose {b : Broker} {index : Nat} {client : ClientConnection} {a : Answers}
    (hinv : b.Inv) (ht : b.Tidied) (hindex : b.clients[index]? = some client) :
    Refines Ledger.Step b ((b.serveClient index client a).1.closeClient index) := by
  obtain ⟨c, hc, hmsg⟩ := hinv.served hindex a
  obtain ⟨ph, hrep⟩ := hinv.represents ht
  obtain ⟨events, ph', hlog, hrep', hserved⟩ := hmsg.refines hrep ht hc
  have hslot : (b.serveClient index client a).1.clients[index]? =
      some (brokerHandleClientMessage b.kernel client b.generation a).2.1 :=
    List.getElem?_set_self (List.getElem?_eq_some_iff.mp hindex).1
  have hconn : (b.serveClient index client a).1.kernel.fds.get
      (brokerHandleClientMessage b.kernel client b.generation a).2.1.fd = some (.conn c) := by
    rw [hmsg.served_fd]
    exact hmsg.keeps_open hc (by simp)
  obtain ⟨hlog', hnext, hrep'', htidy⟩ :=
    closeClient_refines hrep' (hmsg.tidy ht) hslot hconn
  refine ⟨htidy, events ++ (ph'.leaveEvents c ++ [.closed (.conn c)]), ?_⟩
  have hledger : ((b.serveClient index client a).1.closeClient index).ledger = ⟨ph'.leave c, _,
      b.kernel.log ++ (events ++ (ph'.leaveEvents c ++ [.closed (.conn c)]))⟩ :=
    ledger_eq hrep'' hnext (hlog'.trans (by rw [hlog, List.append_assoc]))
  rw [ledger_of_represents hrep, hledger]
  exact .dismissed (ht.conn_open _ c hc) hserved

theorem refines_close {b : Broker} {index : Nat} (hinv : b.Inv) (ht : b.Tidied)
    (hindex : index < b.clients.length) : Refines Ledger.Upkeep b (b.closeClient index) := by
  obtain ⟨c, ph, hrep, hopen, hledger, htidy⟩ := closeClient_step hinv ht hindex
  refine ⟨htidy, ph.leaveEvents c ++ [.closed (.conn c)], ?_⟩
  rw [hledger, ledger_of_represents hrep]
  exact .left hopen

/-- Moves that change nothing the ledger keeps but its log. -/
theorem refines_quiet {b b' : Broker} {ph : Phase} {events : List Event}
    (hrep : Represents b.kernel.fds b.generation ph)
    (hrep' : Represents b'.kernel.fds b'.generation ph) (ht : b'.Tidied)
    (hnext : b'.kernel.nextMemfd = b.kernel.nextMemfd)
    (hlog : b'.kernel.log = b.kernel.log ++ events) (hquiet : Quiet b.kernel.log events) :
    Refines Ledger.Upkeep b b' := by
  refine ⟨ht, events, ?_⟩
  rw [ledger_of_represents hrep, ledger_eq hrep' hnext hlog]
  exact .quiet hquiet

theorem refines_closeListener {b : Broker} (hinv : b.Inv) (ht : b.Tidied) :
    Refines Ledger.Upkeep b b.closeListener := by
  obtain ⟨ph, hrep⟩ := hinv.represents ht
  unfold closeListener
  split
  · next hpos =>
      have hl := hinv.listener.resolve_left (fun heq => by rw [heq] at hpos; cases hpos)
      have hlog : (b.kernel.close b.listenerFd).log = b.kernel.log ++ [.closed .listener] := by
        rw [Kernel.close_of_open hl]
      have hkeep : ∀ {fd o}, b.kernel.fds.get fd = some o → o ≠ .listener →
          (b.kernel.close b.listenerFd).fds.get fd = some o := by
        intro fd o hfd ho
        rw [Kernel.close_fds, DescriptorTable.get_remove_of_ne, hfd]
        rintro rfl
        exact ho (Option.some.inj (hfd.symm.trans hl))
      refine refines_quiet hrep (hrep.mono (fun fd n hn => hkeep hn (by simp)) ?_)
        (ht.shrink _ hlog ?_ (by rw [Kernel.close_nextMemfd]) (.inl ⟨rfl, rfl⟩) (by simp))
        (Kernel.close_nextMemfd _ _) hlog (.inr (.inl rfl))
      · intro c hc
        cases hrep with
        | empty | published => cases hc
        | building _ _ hcreator _ _ => exact (hkeep hcreator (by simp)).trans hcreator.symm
      · intro fd o ho
        rw [Kernel.close_fds] at ho
        exact (DescriptorTable.get_of_get_remove ho).2
  · exact refines_quiet hrep hrep ht rfl (List.append_nil _).symm (.inl rfl)

theorem refines_refuse {b : Broker} {n : Nat} {c : ConnId} (hinv : b.Inv) (ht : b.Tidied)
    (hn : b.kernel.fds.Free n) (hc : Event.accepted c ∉ b.kernel.log) :
    Refines Ledger.Upkeep b { b with kernel := (b.kernel.withConn n c).close n } := by
  obtain ⟨ph, hrep⟩ := hinv.represents ht
  have hfds : ((b.kernel.withConn n c).close n).fds = b.kernel.fds := by
    rw [Kernel.close_fds]
    exact DescriptorTable.remove_install hn _
  have hlog : ((b.kernel.withConn n c).close n).log =
      b.kernel.log ++ [.accepted c, .closed (.conn c)] := by
    have hget : (b.kernel.withConn n c).fds.get (n : Int) = some (.conn c) :=
      DescriptorTable.get_install_self n _
    rw [Kernel.close_of_open hget]
    simp [Kernel.withConn]
  have hnext : ((b.kernel.withConn n c).close n).nextMemfd = b.kernel.nextMemfd := by
    rw [Kernel.close_nextMemfd]
    rfl
  refine refines_quiet hrep (by rw [hfds]; exact hrep)
    (ht.shrink _ hlog (fun fd o ho => by rwa [hfds] at ho) hnext.ge (.inl ⟨rfl, rfl⟩) ?_) hnext hlog
    (.inr (.inr ⟨c, hc, .inr rfl⟩))
  intro c' hmem
  obtain rfl : c' = c := by simpa using hmem
  refine ⟨by simp, fun fd hfd => ?_⟩
  rw [hfds] at hfd
  exact hc (ht.conn_open fd c' hfd).1

theorem refines_reset {b : Broker} (hinv : b.Inv) (ht : b.Tidied) (hnone : b.clients = []) :
    Refines Ledger.Upkeep b { b with
      kernel := (generationReset b.kernel b.generation).1
      generation := (generationReset b.kernel b.generation).2 } := by
  obtain ⟨ph, hrep⟩ := hinv.represents ht
  have hrep₀ := hrep
  cases hrep with
  | empty hg =>
      have hreset : generationReset b.kernel b.generation = (b.kernel, b.generation) := by
        rw [hg]
        rfl
      rw [hreset]
      exact refines_quiet hrep₀ hrep₀ ht rfl (List.append_nil _).symm (.inl rfl)
  | building hs _ _ _ _ =>
      obtain ⟨creator, hmem, -⟩ := hinv.generation.creator hs
      rw [hnone] at hmem
      exact absurd hmem List.not_mem_nil
  | published hs hpq =>
      obtain ⟨hlog, hnext, hinit, htidy⟩ := reset_refines ht hpq
      rw [Refines, ledger_of_represents hrep₀, ledger_eq (Represents.empty hinit) hnext hlog]
      exact ⟨htidy, _, .dissolved rfl⟩

theorem Upkeep.refines {b b' : Broker} (hmove : Upkeep b b') (hinv : b.Inv) (ht : b.Tidied) :
    Refines Ledger.Upkeep b b' := by
  cases hmove with
  | control hk hclients hg hl =>
      obtain ⟨ph, hrep⟩ := hinv.represents ht
      refine refines_quiet hrep ?_ ?_ (by rw [hk]) (by rw [hk, List.append_nil]) (.inl rfl)
      · rw [hk, hg]
        exact hrep
      · rw [Tidied, hk, hg]
        exact ht
  | close hindex => exact refines_close hinv ht hindex
  | closeListener => exact refines_closeListener hinv ht
  | @accept n c hn hc =>
      obtain ⟨ph, hrep⟩ := hinv.represents ht
      obtain ⟨hrep', ht'⟩ := accept_refines hrep ht hn hc
      exact refines_quiet hrep hrep' ht' rfl rfl (.inr (.inr ⟨c, hc, .inl rfl⟩))
  | refuse hn hc => exact refines_refuse hinv ht hn hc
  | reset hnone => exact refines_reset hinv ht hnone

/-- Every move of the broker is a step of the ledger. -/
theorem Move.refines {b b' : Broker} (hmove : Move b b') (hinv : b.Inv) (ht : b.Tidied) :
    Refines Ledger.Step b b' := by
  cases hmove with
  | upkeep hupkeep =>
      obtain ⟨ht', events, hstep⟩ := hupkeep.refines hinv ht
      exact ⟨ht', events, .upkeep hstep⟩
  | serve a hindex hkeep => exact refines_serve hinv ht hindex hkeep
  | serveClose a hindex => exact refines_serveClose hinv ht hindex

theorem tidied_start (maxClients listenerFd : Nat) : (start maxClients listenerFd).Tidied := by
  have hlisten : ∀ {fd o}, (start maxClients listenerFd).kernel.fds.get fd = some o →
      o = .listener := by
    intro fd o ho
    simp only [start, DescriptorTable.get_install, DescriptorTable.get_empty] at ho
    split at ho
    · exact (Option.some.inj ho).symm
    · cases ho
  refine ⟨?_, ?_, ?_, ?_, ?_, ?_⟩
  · intro fd n hn
    cases hlisten hn
  · intro fd n hn
    cases hlisten hn
  · intro p q hpq
    cases hlisten hpq.cache
  · intro fd c hc
    cases hlisten hc
  · intro fd fd' c hc _
    cases hlisten hc
  · intro c hc
    cases hc

theorem ledger_start (maxClients listenerFd : Nat) :
    (start maxClients listenerFd).ledger = Ledger.start := rfl

/-- The simulation over any number of moves. -/
theorem Moves.refines {b b' : Broker} (h : Moves b b') (hinv : b.Inv) (ht : b.Tidied) :
    b'.Inv ∧ b'.Tidied ∧ ∃ events, Ledger.Run b.ledger events b'.ledger := by
  induction h with
  | refl => exact ⟨hinv, ht, [], .start⟩
  | tail _ hmove ih =>
      obtain ⟨hinv', ht', events, hrun⟩ := ih
      obtain ⟨ht'', last, hstep⟩ := hmove.refines hinv' ht'
      exact ⟨hinv'.move hmove, ht'', events ++ [last], hrun.next hstep⟩

theorem Reachable.tidied {b : Broker} (h : Reachable b) : b.Tidied := by
  refine (h.moves_invariant (I := fun b => b.Inv ∧ b.Tidied) ?_ ?_).2
  · exact fun maxClients listenerFd =>
      ⟨inv_start maxClients listenerFd, tidied_start maxClients listenerFd⟩
  · exact fun hb hmove => ⟨hb.1.move hmove, (hmove.refines hb.1 hb.2).1⟩

/-- One step of the main loop is a run of the ledger. -/
theorem Reachable.step_refines {b : Broker} (h : Reachable b) (i : Input) :
    ∃ events, Ledger.Run b.ledger events (b.step i).ledger :=
  ((moves_step b i).refines h.inv h.tidied).2.2

/-- Every run of the broker is a run of the ledger. -/
theorem Reachable.refines {b : Broker} (h : Reachable b) : Ledger.Reachable b.ledger := by
  refine Execution.Reachable.invariant_with (I := fun b => Ledger.Reachable b.ledger) ?_ ?_ h
  · rintro b ⟨maxClients, listenerFd, rfl⟩
    exact .of_init (ledger_start maxClients listenerFd)
  · rintro b i b' hb hledger rfl
    obtain ⟨events, hrun⟩ := Reachable.step_refines hb i
    exact hledger.extend hrun

end Broker

end Hyperglyph
