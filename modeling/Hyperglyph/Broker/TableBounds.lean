import Hyperglyph.Broker.Invariant
import Hyperglyph.Broker.Tables

/-! The arrays stay inside their blocks. Every step of the broker in memory is defined and is the
step of the broker whose tables are lists. -/
namespace Hyperglyph

theorem sizeAdd_eq {a b : Nat} (h : a + b ≤ sizeMax) : sizeAdd a b = some (a + b) := if_pos h

theorem sizeSub_eq {a b : Nat} (h : b ≤ a) : sizeSub a b = some (a - b) := if_pos h

/-- A byte size behind its guard, and the entries it makes room for. -/
theorem sizeMul_eq {count size : Nat} (hsize : 0 < size) (h : count ≤ sizeMax / size) :
    sizeMul count size = some (count * size) ∧ count * size / size = count :=
  ⟨if_pos ((Nat.le_div_iff_mul_le hsize).mp h), Nat.mul_div_cancel count hsize⟩

/-! ### `clients` -/

namespace ClientTable

/-- The table in memory has the clients of the list, in a block of `clientCapacity` entries. -/
structure Holds (t : ClientTable) (clients : List ClientConnection) (clientCapacity : Nat) :
    Prop where
  entries : t.clients.Holds clients
  count : t.clientCount = clients.length
  capacity : t.clientCapacity = clientCapacity
  size : t.clients.size = clientCapacity
  fits : clientCapacity ≤ sizeMax

variable {t : ClientTable} {clients : List ClientConnection} {clientCapacity index : Nat}

theorem Holds.within (h : t.Holds clients clientCapacity) : clients.length ≤ clientCapacity :=
  h.size ▸ h.entries.length_le

theorem Holds.read (h : t.Holds clients clientCapacity) {client : ClientConnection}
    (hclient : clients[index]? = some client) : t.read index = some client := by
  apply h.entries.read hclient
  rw [h.count]
  exact (List.getElem?_eq_some_iff.mp hclient).1

/-- An index below the count may be closed, and the count was not zero. -/
theorem Holds.closeClient (h : t.Holds clients clientCapacity) (hindex : index < clients.length)
    (k : Kernel) (g : Generation) :
    ∃ t', t.closeClient k index g = some ((brokerCloseClient k clients index g).1, t',
        (brokerCloseClient k clients index g).2.2) ∧
      t'.Holds (brokerCloseClient k clients index g).2.1 clientCapacity := by
  have hclient : clients[index]? = some clients[index] := List.getElem?_eq_getElem hindex
  obtain ⟨last, entries, hlast, hwrite, hholds, hsize⟩ := h.entries.swapRemove hindex
  refine ⟨{ t with clients := entries, clientCount := clients.length - 1 }, ?_, ?_⟩
  · have hone : sizeSub t.clientCount 1 = some (clients.length - 1) := by
      rw [h.count]
      exact sizeSub_eq (by omega)
    have hread : t.read (clients.length - 1) = some last := by
      rw [ClientTable.read, h.count, hlast]
    rw [← h.count] at hwrite
    simp only [ClientTable.closeClient, brokerCloseClient, h.read hclient, hone, hread, hwrite,
      hclient, Option.bind_eq_bind, Option.bind_some]
  · have hremoved : (brokerCloseClient k clients index g).2.1 =
        SwapRemove.swapRemove clients index := by
      simp only [brokerCloseClient, hclient]
    rw [hremoved]
    refine ⟨hholds, ?_, h.capacity, hsize.trans h.size, h.fits⟩
    have hlength := SwapRemove.length_swapRemove hindex
    exact (Nat.eq_sub_of_add_eq hlength).symm

/-- A failed growth leaves the table as it was. -/
theorem grow_failed {t' : ClientTable} {reallocated : Bool}
    (h : t.grow reallocated = some (t', false)) : t' = t := by
  unfold grow at h
  split at h
  · split at h
    · cases h
      rfl
    · obtain ⟨newCapacity, -, hrest⟩ := Option.bind_eq_some_iff.mp h
      split at hrest
      · cases hrest
        rfl
      · obtain ⟨octets, -, hlast⟩ := Option.bind_eq_some_iff.mp hrest
        split at hlast <;> cases hlast
        rfl
  · cases h

theorem addClient_failed {t' : ClientTable} {clientFd : Fd} {reallocated : Bool}
    (h : t.addClient clientFd reallocated = some (t', false)) : t' = t := by
  obtain ⟨⟨grown, ok⟩, hgrow, hrest⟩ := Option.bind_eq_some_iff.mp h
  cases ok with
  | true =>
      obtain ⟨entries, -, hadd⟩ := Option.bind_eq_some_iff.mp hrest
      obtain ⟨clientCount, -, hlast⟩ := Option.bind_eq_some_iff.mp hadd
      cases hlast
  | false =>
      cases hrest
      exact grow_failed hgrow

/-- What `ahe_broker_add_client` asks of its growth: room for one more, or nothing changed. -/
inductive Grown (t : ClientTable) (clients : List ClientConnection) (clientCapacity : Nat)
    (reallocated : Bool) : Prop
  | room {t' : ClientTable} {newCapacity : Nat} (grown : t.grow reallocated = some (t', true))
      (holds : t'.Holds clients newCapacity) (room : clients.length < newCapacity)
      (adds : ∀ clientFd, brokerAddClient clients clientCapacity clientFd reallocated =
        some (clients ++ [{ fd := clientFd, handledMessage := false }], newCapacity))
  | failed (kept : t.grow reallocated = some (t, false))
      (fails : ∀ clientFd, brokerAddClient clients clientCapacity clientFd reallocated = none)

def nextCapacity (clientCapacity : Nat) : Nat :=
  if clientCapacity ≠ 0 then clientCapacity * 2 else 8

theorem lt_nextCapacity (clientCapacity : Nat) : clientCapacity < nextCapacity clientCapacity := by
  unfold nextCapacity
  split <;> omega

/-- Behind its guards, the growth of a full table loses nothing to wrapping. -/
theorem grow_of_full (hfull : t.clientCount = t.clientCapacity)
    (hhalf : ¬ t.clientCapacity > sizeMax / 2) (reallocated : Bool) :
    t.grow reallocated =
      if nextCapacity t.clientCapacity > sizeMax / sizeofClient ∨ (!reallocated) = true then
        some (t, false)
      else
        some ({ t with
          clients := t.clients.resize (nextCapacity t.clientCapacity)
          clientCapacity := nextCapacity t.clientCapacity }, true) := by
  have hdouble : (if t.clientCapacity ≠ 0 then sizeMul t.clientCapacity 2 else some 8) =
      some (nextCapacity t.clientCapacity) := by
    unfold nextCapacity
    split
    · exact (sizeMul_eq Nat.two_pos (Nat.le_of_not_lt hhalf)).1
    · rfl
  rw [grow, if_pos hfull, if_neg hhalf, hdouble]
  simp only [Option.bind_eq_bind, Option.bind_some]
  by_cases hlarge : nextCapacity t.clientCapacity > sizeMax / sizeofClient
  · rw [if_pos hlarge, if_pos (.inl hlarge)]
  · obtain ⟨hoctets, hback⟩ := sizeMul_eq (by decide) (Nat.le_of_not_lt hlarge)
    rw [if_neg hlarge, hoctets, Option.bind_some, hback]
    simp only [hlarge, false_or]

theorem brokerAddClient_of_full (hfull : clients.length = clientCapacity)
    (hhalf : ¬ clientCapacity > sizeMax / 2) (clientFd : Fd) (reallocated : Bool) :
    brokerAddClient clients clientCapacity clientFd reallocated =
      if nextCapacity clientCapacity > sizeMax / sizeofClient ∨ (!reallocated) = true then none
      else some (clients ++ [{ fd := clientFd, handledMessage := false }],
        nextCapacity clientCapacity) := by
  rw [brokerAddClient, if_pos hfull, if_neg hhalf]
  show (if nextCapacity clientCapacity > _ then _ else _) = _
  by_cases hlarge : nextCapacity clientCapacity > sizeMax / sizeofClient
  · rw [if_pos hlarge, if_pos (.inl hlarge)]
  · simp only [hlarge, if_false, false_or]
    rfl

theorem Holds.grow (h : t.Holds clients clientCapacity) (reallocated : Bool) :
    t.Grown clients clientCapacity reallocated := by
  have hcount := h.count
  obtain rfl := h.capacity
  by_cases hfull : clients.length = t.clientCapacity
  · have hfull' : t.clientCount = t.clientCapacity := hcount.trans hfull
    by_cases hhalf : t.clientCapacity > sizeMax / 2
    · apply Grown.failed
      · rw [ClientTable.grow, if_pos hfull', if_pos hhalf]
      · intro clientFd
        rw [brokerAddClient, if_pos hfull, if_pos hhalf]
    · by_cases hno : nextCapacity t.clientCapacity > sizeMax / sizeofClient ∨ (!reallocated) = true
      · apply Grown.failed
        · rw [grow_of_full hfull' hhalf, if_pos hno]
        · intro clientFd
          rw [brokerAddClient_of_full hfull hhalf, if_pos hno]
      · have hroom : clients.length < nextCapacity t.clientCapacity := by
          rw [hfull]
          exact lt_nextCapacity t.clientCapacity
        have hfits : nextCapacity t.clientCapacity ≤ sizeMax :=
          (Nat.le_of_not_lt fun hlarge => hno (.inl hlarge)).trans (Nat.div_le_self _ _)
        refine .room ((grow_of_full hfull' hhalf reallocated).trans (if_neg hno))
          ⟨h.entries.resize hroom.le, hcount, rfl, Block.size_resize _ _, hfits⟩ hroom ?_
        intro clientFd
        rw [brokerAddClient_of_full hfull hhalf, if_neg hno]
  · have hfull' : ¬ t.clientCount = t.clientCapacity := by omega
    refine .room (if_neg hfull') h (Nat.lt_of_le_of_ne h.within hfull) ?_
    intro clientFd
    exact if_neg hfull

/-- A new client goes behind the others, inside the block. -/
theorem Holds.addClient (h : t.Holds clients clientCapacity) {clientFd : Fd} {reallocated : Bool}
    {clients' : List ClientConnection} {newCapacity : Nat}
    (hadd : brokerAddClient clients clientCapacity clientFd reallocated =
      some (clients', newCapacity)) :
    ∃ t', t.addClient clientFd reallocated = some (t', true) ∧ t'.Holds clients' newCapacity := by
  cases h.grow reallocated with
  | failed _ fails =>
      rw [fails clientFd] at hadd
      cases hadd
  | @room grown newCapacity' hgrown hholds hroom adds =>
      rw [adds clientFd] at hadd
      cases hadd
      obtain ⟨entries, hwrite, hentries, hsize⟩ := hholds.entries.push _
        (hholds.size ▸ hroom) hroom { fd := clientFd, handledMessage := false }
      refine ⟨{ grown with clients := entries, clientCount := clients.length + 1 }, ?_, ?_⟩
      · have hnext : sizeAdd clients.length 1 = some (clients.length + 1) :=
          sizeAdd_eq (Nat.le_trans hroom hholds.fits)
        rw [← hholds.capacity] at hwrite
        simp only [ClientTable.addClient, hgrown, Option.bind_eq_bind, Option.bind_some, if_true,
          hholds.count, hwrite, hnext]
      · refine ⟨hentries, ?_, hholds.capacity, hsize.trans hholds.size, hholds.fits⟩
        rw [List.length_append, List.length_singleton]

theorem Holds.addClient_none (h : t.Holds clients clientCapacity) {clientFd : Fd}
    {reallocated : Bool}
    (hadd : brokerAddClient clients clientCapacity clientFd reallocated = none) :
    t.addClient clientFd reallocated = some (t, false) := by
  cases h.grow reallocated with
  | failed kept _ =>
      rw [ClientTable.addClient, kept]
      rfl
  | room _ _ _ adds =>
      rw [adds clientFd] at hadd
      cases hadd

/-- The handler's update of an entry. -/
theorem Holds.update (h : t.Holds clients clientCapacity) (hindex : index < clients.length)
    (client : ClientConnection) :
    ∃ entries, t.clients.write t.clientCount index client = some entries ∧
      ({ t with clients := entries } : ClientTable).Holds (clients.set index client)
        clientCapacity := by
  obtain ⟨entries, hwrite, hentries, hsize⟩ :=
    h.entries.write hindex (h.count ▸ hindex) client
  refine ⟨entries, hwrite, hentries, ?_, h.capacity, hsize.trans h.size, h.fits⟩
  rw [List.length_set]
  exact h.count

end ClientTable

/-! ### `poll_fds` -/

namespace PollTable

/-- The block has `pollCapacity` entries. -/
structure Sized (p : PollTable) (pollCapacity : Nat) : Prop where
  capacity : p.pollCapacity = pollCapacity
  size : p.pollFds.size = pollCapacity

/-- The entries before `poll`: the listener's and one for each client. -/
def setUpEntries (listenerFd : Fd) (clients : List ClientConnection) : List PollFd :=
  (listenerFd :: clients.map (·.fd)).map fun fd => { fd, revents := .clear }

variable {p : PollTable} {t : ClientTable} {clients : List ClientConnection} {listenerFd : Fd}
  {pollCapacity clientCapacity pollFdCount : Nat} {reallocated : Bool}

/-- A failed growth leaves the table as it was. -/
theorem grow_failed {p' : PollTable} (h : p.grow pollFdCount reallocated = some (p', false)) :
    p' = p := by
  unfold grow at h
  split at h
  · split at h
    · cases h
      rfl
    · obtain ⟨octets, -, hrest⟩ := Option.bind_eq_some_iff.mp h
      split at hrest <;> cases hrest
      rfl
  · cases h

theorem Sized.grow (h : p.Sized pollCapacity)
    (hroom : ¬ (pollFdCount > pollCapacity ∧
      (pollFdCount > sizeMax / sizeofPollFd ∨ (!reallocated) = true))) :
    ∃ p', p.grow pollFdCount reallocated = some (p', true) ∧
      p'.Sized (max pollCapacity pollFdCount) := by
  by_cases hmore : pollFdCount > pollCapacity
  · rw [Nat.max_eq_right (Nat.le_of_lt hmore)]
    have hsmall : ¬ pollFdCount > sizeMax / sizeofPollFd := fun hlarge => hroom ⟨hmore, .inl hlarge⟩
    have hreallocated : ¬ (!reallocated) = true := fun hno => hroom ⟨hmore, .inr hno⟩
    obtain ⟨hoctets, hback⟩ :=
      sizeMul_eq (by decide) (Nat.le_of_not_lt hsmall)
    refine ⟨⟨p.pollFds.resize pollFdCount, pollFdCount⟩, ?_, rfl, Block.size_resize _ _⟩
    rw [PollTable.grow, h.capacity, if_pos hmore, if_neg hsmall, hoctets]
    simp only [Option.bind_eq_bind, Option.bind_some, hback, if_neg hreallocated]
  · rw [Nat.max_eq_left (Nat.le_of_not_lt hmore)]
    refine ⟨p, ?_, h⟩
    rw [PollTable.grow, h.capacity, if_neg hmore]

theorem Sized.grow_none (h : p.Sized pollCapacity)
    (hno : pollFdCount > pollCapacity ∧
      (pollFdCount > sizeMax / sizeofPollFd ∨ (!reallocated) = true)) :
    p.grow pollFdCount reallocated = some (p, false) := by
  rw [PollTable.grow, h.capacity, if_pos hno.1]
  by_cases hlarge : pollFdCount > sizeMax / sizeofPollFd
  · exact if_pos hlarge
  · obtain ⟨hoctets, -⟩ := sizeMul_eq (by decide) (Nat.le_of_not_lt hlarge)
    rw [if_neg hlarge, hoctets]
    exact if_pos (hno.2.resolve_left hlarge)

/-- The set-up loop after `n` turns. -/
theorem setUp_loop (listenerFd : Fd) (ht : t.Holds clients clientCapacity)
    (hfits : clients.length + 1 ≤ sizeMax)
    {pollFds : Block PollFd} (hsize : clients.length + 1 ≤ pollFds.size)
    (hfirst : pollFds.Holds (setUpEntries listenerFd [])) {n : Nat} (hn : n ≤ clients.length) :
    ∃ pollFds', (List.range n).foldlM (setUpClient t (clients.length + 1)) pollFds = some pollFds' ∧
      pollFds'.Holds (setUpEntries listenerFd (clients.take n)) ∧ pollFds'.size = pollFds.size := by
  induction n with
  | zero => exact ⟨pollFds, rfl, hfirst, rfl⟩
  | succ n ih =>
      obtain ⟨before, hbefore, hholds, hsame⟩ := ih (Nat.le_of_succ_le hn)
      have hclient : clients[n]? = some clients[n] := List.getElem?_eq_getElem hn
      have hlength : (setUpEntries listenerFd (clients.take n)).length = n + 1 := by
        rw [setUpEntries, List.length_map, List.length_cons, List.length_map,
          List.length_take_of_le (Nat.le_of_succ_le hn)]
      have hposition : sizeAdd n 1 = some (n + 1) := sizeAdd_eq (by omega)
      obtain ⟨after, hwrite, hholds', hsame'⟩ := hholds.push (clients.length + 1)
        (by omega) (by omega) { fd := clients[n].fd, revents := .clear }
      refine ⟨after, ?_, ?_, hsame'.trans hsame⟩
      · rw [hlength] at hwrite
        have hbody : setUpClient t (clients.length + 1) before n = some after := by
          simp only [setUpClient, ht.read hclient, hposition, hwrite, Option.bind_eq_bind,
            Option.bind_some]
        rw [List.range_succ, List.foldlM_append, hbefore]
        simp only [List.foldlM_cons, List.foldlM_nil, hbody, Option.bind_eq_bind, Option.bind_some]
        rfl
      · rw [List.take_add_one, hclient]
        simpa only [setUpEntries, Option.toList_some, List.map_append, List.map_cons, List.map_nil,
          List.cons_append] using hholds'

theorem Sized.setUp (h : p.Sized pollCapacity) (ht : t.Holds clients clientCapacity)
    (hfits : clients.length + 1 ≤ sizeMax) (hroom : clients.length + 1 ≤ pollCapacity)
    (listenerFd : Fd) :
    ∃ p', p.setUp t listenerFd (clients.length + 1) = some p' ∧ p'.Sized pollCapacity ∧
      p'.pollFds.Holds (setUpEntries listenerFd clients) := by
  have hsize := h.size
  obtain ⟨first, hwrite, hfirst, hsame⟩ := (Block.holds_nil p.pollFds).push
    (clients.length + 1) (show 0 < _ by omega) (show 0 < _ by omega)
    { fd := listenerFd, revents := .clear }
  obtain ⟨pollFds, hloop, hholds, hsame'⟩ :=
    setUp_loop listenerFd ht hfits (by omega) hfirst (Nat.le_refl _)
  rw [List.take_length] at hholds
  refine ⟨{ p with pollFds }, ?_, ⟨h.capacity, ?_⟩, hholds⟩
  · rw [List.length_nil] at hwrite
    rw [PollTable.setUp, hwrite, ht.count]
    simp only [Option.bind_eq_bind, Option.bind_some, hloop]
  · exact (hsame'.trans hsame).trans hsize

/-- `poll` finds all entries it is given written, and changes their events only. -/
theorem Sized.poll (h : p.Sized pollCapacity) {entries : List PollFd}
    (hentries : p.pollFds.Holds entries) (revents : List Revents) :
    ∃ p', p.poll entries.length revents = some p' ∧ p'.Sized pollCapacity ∧
      p'.pollFds.Holds (entries.mapIdx (report revents)) := by
  refine ⟨{ p with pollFds := p.pollFds.overwrite (entries.mapIdx (report revents)) }, ?_,
    ⟨h.capacity, ?_⟩, Block.overwrite_holds p.pollFds _⟩
  · rw [PollTable.poll, hentries.first]
    rfl
  · rw [Block.size_overwrite]
    · exact h.size
    · rw [List.length_mapIdx]
      exact hentries.length_le

end PollTable

/-! ### The broker in memory -/

namespace Broker

/-- The variables of `b`, with its tables in memory. -/
def inMemory (b : Broker) (table : ClientTable) (polls : PollTable) (place : Place) :
    BrokerMemory where
  kernel := b.kernel
  stopping := b.stopping
  maxClients := b.maxClients
  handledClients := b.handledClients
  table := table
  polls := polls
  generation := b.generation
  listenerFd := b.listenerFd
  exitFailure := b.exitFailure
  place := place

section

variable (b : Broker) (table : ClientTable) (polls : PollTable) (place : Place)

@[simp] theorem inMemory_kernel : (b.inMemory table polls place).kernel = b.kernel := rfl
@[simp] theorem inMemory_stopping : (b.inMemory table polls place).stopping = b.stopping := rfl
@[simp] theorem inMemory_table : (b.inMemory table polls place).table = table := rfl
@[simp] theorem inMemory_polls : (b.inMemory table polls place).polls = polls := rfl
@[simp] theorem inMemory_generation :
    (b.inMemory table polls place).generation = b.generation := rfl
@[simp] theorem inMemory_listenerFd :
    (b.inMemory table polls place).listenerFd = b.listenerFd := rfl
@[simp] theorem inMemory_place : (b.inMemory table polls place).place = place := rfl
@[simp] theorem inMemory_limitReached :
    (b.inMemory table polls place).limitReached = b.limitReached := rfl

end

end Broker

/-- The places of the two loops. On the way down the event loop stands on a client, and `poll_fds`
still has the entries `poll` was called with. -/
inductive At (polls : PollTable) (clients : List ClientConnection) : Place → Pc → Prop
  | top : At polls clients .top .top
  | dispatch {clientIndex : Nat} {entries : List PollFd} (held : polls.pollFds.Holds entries)
      (client : clientIndex ≤ clients.length) (entry : clientIndex < entries.length) :
      At polls clients (.dispatch clientIndex entries.length) (.dispatch clientIndex entries)
  | accept {entry : PollFd} {entries : List PollFd}
      (held : polls.pollFds.Holds (entry :: entries)) :
      At polls clients (.accept (entries.length + 1)) (.accept entry.revents)
  | leaving : At polls clients .leaving .leaving
  | returned : At polls clients .returned .returned

/-- The memory holds the tables of the broker `b`, and all else is the same. -/
inductive Stores : BrokerMemory → Broker → Prop
  | intro {b : Broker} {t : ClientTable} {p : PollTable} {place : Place}
      (table : t.Holds b.clients b.clientCapacity) (polls : p.Sized b.pollCapacity)
      (here : At p b.clients place b.pc) : Stores (b.inMemory t p place) b

namespace BrokerMemory

section Tables

variable {b : Broker} {t : ClientTable} {index : Nat}

theorem closeClient_inMemory (ht : t.Holds b.clients b.clientCapacity)
    (hindex : index < b.clients.length) (p : PollTable) (place : Place) :
    ∃ t', (b.inMemory t p place).closeClient index =
        some ((b.closeClient index).inMemory t' p place) ∧
      t'.Holds (b.closeClient index).clients (b.closeClient index).clientCapacity := by
  obtain ⟨t', hclose, hholds⟩ := ht.closeClient hindex b.kernel b.generation
  refine ⟨t', ?_, hholds⟩
  simp only [closeClient, Broker.inMemory_table, Broker.inMemory_kernel,
    Broker.inMemory_generation, hclose, Option.bind_eq_bind, Option.bind_some]
  rfl

theorem closeListener_inMemory (b : Broker) (t : ClientTable) (p : PollTable) (place : Place) :
    (b.inMemory t p place).closeListener = b.closeListener.inMemory t p place := by
  unfold closeListener Broker.closeListener
  rw [Broker.inMemory_listenerFd]
  split <;> rfl

theorem holds_closeListener (ht : t.Holds b.clients b.clientCapacity) :
    t.Holds b.closeListener.clients b.closeListener.clientCapacity := by
  unfold Broker.closeListener
  split <;> exact ht

theorem sized_closeListener {p : PollTable} (hp : p.Sized b.pollCapacity) :
    p.Sized b.closeListener.pollCapacity := by
  unfold Broker.closeListener
  split <;> exact hp

theorem evict_pollCapacity (n : Nat) (b : Broker) : (b.evict n).pollCapacity = b.pollCapacity := by
  induction n generalizing b with
  | zero => rfl
  | succ index ih =>
      rw [Broker.evict]
      split
      · rw [ih]
        split <;> rfl
      · exact ih b

theorem closeAll_pollCapacity (n : Nat) (b : Broker) :
    (b.closeAll n).pollCapacity = b.pollCapacity := by
  induction n generalizing b with
  | zero => rfl
  | succ index ih => exact ih (b.closeClient index)

/-- The eviction pass stands below the count at each of its turns. -/
theorem evict_inMemory (p : PollTable) (place : Place) {n : Nat} (hn : n ≤ b.clients.length)
    (ht : t.Holds b.clients b.clientCapacity) :
    ∃ t', evict n (b.inMemory t p place) = some ((b.evict n).inMemory t' p place) ∧
      t'.Holds (b.evict n).clients (b.evict n).clientCapacity := by
  induction n generalizing b t with
  | zero => exact ⟨t, rfl, ht⟩
  | succ index ih =>
      have hclient : b.clients[index]? = some b.clients[index] := List.getElem?_eq_getElem hn
      simp only [evict, Broker.evict, hclient, Broker.inMemory_table, ht.read hclient,
        Option.bind_eq_bind, Option.bind_some]
      split
      · exact ih (Nat.le_of_succ_le hn) ht
      · obtain ⟨t₁, hclose, ht₁⟩ := closeClient_inMemory ht hn p place
        have hlength := Broker.length_closeClient hn
        obtain ⟨t₂, hevict, ht₂⟩ := ih (by omega) ht₁
        refine ⟨t₂, ?_, ht₂⟩
        rw [hclose]
        exact hevict

/-- The loop of the exit path closes as many clients as there are. -/
theorem closeAll_inMemory (p : PollTable) (place : Place) {n : Nat} (hn : b.clients.length = n)
    (ht : t.Holds b.clients b.clientCapacity) :
    ∃ t', closeAll n (b.inMemory t p place) = some ((b.closeAll n).inMemory t' p place) ∧
      t'.Holds (b.closeAll n).clients (b.closeAll n).clientCapacity := by
  induction n generalizing b t with
  | zero =>
      refine ⟨t, if_pos ?_, ht⟩
      exact ht.count.trans hn
  | succ index ih =>
      have hcount : t.clientCount = index + 1 := ht.count.trans hn
      have hindex : index < b.clients.length := by omega
      obtain ⟨t₁, hclose, ht₁⟩ := closeClient_inMemory ht hindex p place
      have hlength := Broker.length_closeClient hindex
      obtain ⟨t₂, hall, ht₂⟩ := ih (by omega) ht₁
      refine ⟨t₂, ?_, ht₂⟩
      have hlast : sizeSub t.clientCount 1 = some index := by
        rw [hcount]
        exact sizeSub_eq (Nat.le_add_left 1 index)
      have hpos : ¬ t.clientCount = 0 := by omega
      rw [closeAll, Broker.inMemory_table, if_neg hpos]
      simp only [hlast, hclose, Option.bind_eq_bind, Option.bind_some]
      exact hall

end Tables

/-! #### The head of the loop -/

/-- What follows a call of `poll`. -/
def polled (b : Broker) : PollAnswer → Broker
  | .interrupted => { b with pc := .top }
  | .error => b.fail
  | .ready revents => { b with pc := .dispatch b.clients.length (b.pollFds revents) }

/-- The head of the loop goes the way of `next`, and calls `poll` with the entries of all clients
and room for them. -/
inductive Follows (next : PollAnswer → Broker) : Round → Prop
  | ended {m : BrokerMemory} (stores : ∀ answer, Stores m (next answer)) : Follows next (.ended m)
  | polling {b : Broker} {t : ClientTable} {p : PollTable} {place : Place}
      (table : t.Holds b.clients b.clientCapacity) (polls : p.Sized b.pollCapacity)
      (entries : p.pollFds.Holds (PollTable.setUpEntries b.listenerFd b.clients))
      (room : b.clients.length + 1 ≤ b.pollCapacity)
      (next_eq : ∀ answer, next answer = polled b answer) :
      Follows next (.polling (b.inMemory t p place) (b.clients.length + 1))

section Head

variable {b : Broker} {t : ClientTable} {p : PollTable} {place : Place}

theorem length_pollFds (b : Broker) (revents : List Revents) :
    (b.pollFds revents).length = b.clients.length + 1 := by
  rw [Broker.pollFds, List.length_mapIdx, List.length_cons, List.length_map]

theorem setUpEntries_report (b : Broker) (revents : List Revents) :
    (PollTable.setUpEntries b.listenerFd b.clients).mapIdx (PollTable.report revents) =
      b.pollFds revents := by
  apply List.ext_getElem?
  intro i
  simp only [PollTable.setUpEntries, Broker.pollFds, List.getElem?_mapIdx, List.getElem?_map,
    Option.map_map]
  rfl

theorem stores_top (ht : t.Holds b.clients b.clientCapacity) (hp : p.Sized b.pollCapacity) :
    Stores (b.inMemory t p .top) { b with pc := .top } :=
  Stores.intro (b := { b with pc := .top }) ht hp .top

theorem stores_leaving (ht : t.Holds b.clients b.clientCapacity) (hp : p.Sized b.pollCapacity) :
    Stores (b.inMemory t p .leaving) { b with pc := .leaving } :=
  Stores.intro (b := { b with pc := .leaving }) ht hp .leaving

theorem stores_fail (ht : t.Holds b.clients b.clientCapacity) (hp : p.Sized b.pollCapacity) :
    Stores (b.fail.inMemory t p .leaving) b.fail :=
  .intro ht hp .leaving

theorem setUpPoll_follows (ht : t.Holds b.clients b.clientCapacity)
    (hp : p.Sized b.pollCapacity) (place : Place) (reallocated : Bool) :
    ∃ round, (b.inMemory t p place).setUpPoll reallocated = some round ∧
      Follows (b.growAndPoll reallocated) round := by
  have hwithin : b.clients.length ≤ sizeMax := ht.within.trans ht.fits
  rw [setUpPoll, Broker.inMemory_table, ht.count]
  by_cases hmax : b.clients.length = sizeMax
  · refine ⟨_, if_pos hmax, .ended fun answer => ?_⟩
    rw [Broker.growAndPoll, if_pos hmax]
    exact stores_fail ht hp
  · have hfits : b.clients.length + 1 ≤ sizeMax := by omega
    rw [if_neg hmax, sizeAdd_eq hfits]
    simp only [Broker.inMemory_polls, Broker.inMemory_listenerFd, Option.bind_eq_bind,
      Option.bind_some]
    by_cases hno : b.clients.length + 1 > b.pollCapacity ∧
        (b.clients.length + 1 > sizeMax / sizeofPollFd ∨ (!reallocated) = true)
    · rw [hp.grow_none hno]
      refine ⟨_, rfl, .ended fun answer => ?_⟩
      rw [Broker.growAndPoll, if_neg hmax]
      dsimp only
      rw [if_pos hno]
      exact stores_fail ht hp
    · obtain ⟨grown, hgrow, hsized⟩ := hp.grow hno
      obtain ⟨ready, hsetUp, hready, hentries⟩ :=
        hsized.setUp ht hfits (Nat.le_max_right _ _) b.listenerFd
      let b' : Broker := { b with pollCapacity := max b.pollCapacity (b.clients.length + 1) }
      refine ⟨.polling (b'.inMemory t ready place) (b'.clients.length + 1), ?_, ?_⟩
      · rw [hgrow, Option.bind_some, if_pos rfl, hsetUp]
        rfl
      · refine .polling ht hready hentries (Nat.le_max_right _ _) fun answer => ?_
        rw [Broker.growAndPoll, if_neg hmax]
        dsimp only
        rw [if_neg hno]
        cases answer <;> rfl

/-- The head of the loop when the limit is reached, with the listener closed. -/
theorem evict_follows (ht : t.Holds b.clients b.clientCapacity) (hp : p.Sized b.pollCapacity)
    (place : Place) (reallocated : Bool) :
    ∃ round, ((evict t.clientCount (b.inMemory t p place)).bind fun m =>
        if m.table.clientCount = 0 then some (.ended { m with place := .leaving })
        else m.setUpPoll reallocated) = some round ∧
      Follows (fun answer =>
        if (b.evict b.clients.length).clients = [] then
          { b.evict b.clients.length with pc := .leaving }
        else (b.evict b.clients.length).growAndPoll reallocated answer) round := by
  obtain ⟨t', hevict, ht'⟩ := evict_inMemory p place (Nat.le_refl b.clients.length) ht
  have hp' : p.Sized (b.evict b.clients.length).pollCapacity := by
    rwa [evict_pollCapacity]
  rw [ht.count, hevict, Option.bind_some]
  by_cases hnone : (b.evict b.clients.length).clients = []
  · have hzero : t'.clientCount = 0 := by
      rw [ht'.count, hnone, List.length_nil]
    refine ⟨_, if_pos hzero, .ended fun answer => ?_⟩
    rw [if_pos hnone]
    exact stores_leaving ht' hp'
  · have hpos : ¬ t'.clientCount = 0 := by
      rw [ht'.count]
      exact fun hzero => hnone (List.length_eq_zero_iff.mp hzero)
    obtain ⟨round, hround, hfollows⟩ := setUpPoll_follows ht' hp' place reallocated
    refine ⟨round, (if_neg hpos).trans hround, ?_⟩
    simpa only [if_neg hnone] using hfollows

theorem round_follows (ht : t.Holds b.clients b.clientCapacity) (hp : p.Sized b.pollCapacity)
    (place : Place) (reallocated : Bool) :
    ∃ round, (b.inMemory t p place).round reallocated = some round ∧
      Follows (b.loopHead reallocated) round := by
  rw [round, Broker.inMemory_stopping, Broker.inMemory_limitReached]
  by_cases hstop : b.stopping = true
  · refine ⟨_, if_pos hstop, .ended fun answer => ?_⟩
    rw [Broker.loopHead, if_pos hstop]
    exact stores_leaving ht hp
  · rw [if_neg hstop]
    by_cases hreached : b.limitReached = true
    · have hnext : b.loopHead reallocated = fun answer =>
          if (b.closeListener.evict b.closeListener.clients.length).clients = [] then
            { b.closeListener.evict b.closeListener.clients.length with pc := .leaving }
          else (b.closeListener.evict b.closeListener.clients.length).growAndPoll reallocated
            answer := by
        funext answer
        rw [Broker.loopHead, if_neg hstop, if_pos hreached]
      rw [if_pos hreached, hnext]
      dsimp only
      rw [closeListener_inMemory]
      exact evict_follows (holds_closeListener ht) (sized_closeListener hp) place reallocated
    · rw [if_neg hreached]
      obtain ⟨round, hround, hfollows⟩ := setUpPoll_follows ht hp place reallocated
      refine ⟨round, hround, ?_⟩
      have hnext : b.loopHead reallocated = b.growAndPoll reallocated := by
        funext answer
        rw [Broker.loopHead, if_neg hstop, if_neg hreached]
      rwa [hnext]

/-- After `poll` the loop goes on as the broker's does. -/
theorem Follows.finish {next : PollAnswer → Broker} {round : Round} (h : Follows next round)
    (answer : PollAnswer) :
    ∃ m', (match round with
        | .ended m => some m
        | .polling m pollFdCount => m.poll pollFdCount answer) = some m' ∧
      Stores m' (next answer) := by
  cases h with
  | @ended m stores => exact ⟨m, rfl, stores answer⟩
  | @polling b t p place ht hp hentries hroom next_eq =>
      rw [next_eq answer]
      cases answer with
      | interrupted => exact ⟨_, rfl, stores_top ht hp⟩
      | error => exact ⟨_, rfl, stores_fail ht hp⟩
      | ready revents =>
          have hlength : (PollTable.setUpEntries b.listenerFd b.clients).length =
              b.clients.length + 1 := by
            rw [PollTable.setUpEntries, List.length_map, List.length_cons, List.length_map]
          obtain ⟨p', hpoll, hp', hreported⟩ := hp.poll hentries revents
          rw [setUpEntries_report] at hreported
          have hat : At p' b.clients (.dispatch b.clients.length (b.clients.length + 1))
              (.dispatch b.clients.length (b.pollFds revents)) := by
            rw [← length_pollFds b revents]
            refine .dispatch hreported (Nat.le_refl _) ?_
            rw [length_pollFds]
            exact Nat.lt_succ_self _
          refine ⟨_, ?_, .intro (b := { b with pc := _ }) ht hp' hat⟩
          rw [hlength] at hpoll
          simp only [poll, Broker.inMemory_polls, Broker.inMemory_table, hpoll, ht.count,
            Option.bind_eq_bind, Option.bind_some]
          rfl

end Head

/-! #### The event loop and the rest -/

section Events

variable {b : Broker} {t : ClientTable} {index : Nat}

theorem serveClient_inMemory (ht : t.Holds b.clients b.clientCapacity)
    (hindex : index < b.clients.length) (client : ClientConnection) (p : PollTable)
    (place : Place) (a : Answers) :
    ∃ t', (b.inMemory t p place).serveClient index client a =
        some ((b.serveClient index client a).1.inMemory t' p place,
          (b.serveClient index client a).2) ∧
      t'.Holds (b.serveClient index client a).1.clients b.clientCapacity := by
  rcases hhandled : brokerHandleClientMessage b.kernel client b.generation a with
    ⟨kernel, served, generation, keepOpen⟩
  obtain ⟨entries, hwrite, hholds⟩ := ht.update hindex served
  rw [serveClient, Broker.inMemory_kernel, Broker.inMemory_generation, Broker.serveClient, hhandled]
  refine ⟨{ t with clients := entries }, ?_, hholds⟩
  simp only [Broker.inMemory_table, hwrite, Option.bind_eq_bind, Option.bind_some]
  rfl

theorem examineClient_inMemory (ht : t.Holds b.clients b.clientCapacity)
    (hindex : index < b.clients.length) (client : ClientConnection) (p : PollTable)
    (place : Place) (events : Revents) (a : Answers) :
    ∃ t', (b.inMemory t p place).examineClient index client events a =
        some ((b.examineClient index client events a).1.inMemory t' p place,
          (b.examineClient index client events a).2) ∧
      t'.Holds (b.examineClient index client events a).1.clients b.clientCapacity ∧
        (b.examineClient index client events a).1.clientCapacity = b.clientCapacity ∧
          (b.examineClient index client events a).1.pollCapacity = b.pollCapacity ∧
            (b.examineClient index client events a).1.clients.length = b.clients.length := by
  unfold examineClient Broker.examineClient
  rw [Broker.inMemory_limitReached]
  split
  · exact ⟨t, rfl, ht, rfl, rfl, rfl⟩
  · split
    · obtain ⟨t', hserve, hholds⟩ := serveClient_inMemory ht hindex client p place a
      exact ⟨t', hserve, hholds, rfl, rfl, List.length_set⟩
    · exact ⟨t, rfl, ht, rfl, rfl, rfl⟩

/-- One turn of the event loop. The count may go down, but not below the turns that are left. -/
theorem dispatchClient_inMemory {p : PollTable} {entries : List PollFd} {pollFd : PollFd}
    (ht : t.Holds b.clients b.clientCapacity) (hindex : index < b.clients.length)
    (hheld : p.pollFds.Holds entries) (hentry : entries[index + 1]? = some pollFd)
    (place : Place) (a : Answers) :
    ∃ t', (b.inMemory t p place).dispatchClient index entries.length a =
        some ((b.dispatchClient index pollFd.revents a).inMemory t' p place) ∧
      t'.Holds (b.dispatchClient index pollFd.revents a).clients b.clientCapacity ∧
        (b.dispatchClient index pollFd.revents a).clientCapacity = b.clientCapacity ∧
          (b.dispatchClient index pollFd.revents a).pollCapacity = b.pollCapacity ∧
            index ≤ (b.dispatchClient index pollFd.revents a).clients.length := by
  have hwithin := ht.within
  have hfits := ht.fits
  have hposition : sizeAdd index 1 = some (index + 1) := sizeAdd_eq (by omega)
  have hread : p.pollFds.read entries.length (index + 1) = some pollFd :=
    hheld.read hentry (List.getElem?_eq_some_iff.mp hentry).1
  have hclient : b.clients[index]? = some b.clients[index] := List.getElem?_eq_getElem hindex
  simp only [dispatchClient, Broker.dispatchClient, Broker.inMemory_polls, hposition, hread, hclient,
    Option.bind_eq_bind, Option.bind_some]
  by_cases hclear : pollFd.revents = .clear
  · rw [if_pos hclear, if_pos hclear]
    exact ⟨t, rfl, ht, rfl, rfl, Nat.le_of_lt hindex⟩
  · rw [if_neg hclear, if_neg hclear]
    rw [Broker.inMemory_table, ht.read hclient, Option.bind_some]
    obtain ⟨t', hexamine, hholds, hcapacity, hpolls, hlength⟩ :=
      examineClient_inMemory ht hindex b.clients[index] p place pollFd.revents a
    rw [hexamine, Option.bind_some]
    dsimp only
    split
    · exact ⟨t', rfl, hholds, hcapacity, hpolls, by omega⟩
    · rw [← hcapacity] at hholds
      have hindex' := hlength ▸ hindex
      obtain ⟨t'', hclose, hholds'⟩ := closeClient_inMemory hholds hindex' p place
      have hshorter := Broker.length_closeClient hindex'
      refine ⟨t'', hclose, ?_, hcapacity, hpolls, by omega⟩
      rw [← hcapacity]
      exact hholds'

theorem acceptClient_stores {p : PollTable} {entry : PollFd} {entries : List PollFd}
    (ht : t.Holds b.clients b.clientCapacity) (hp : p.Sized b.pollCapacity)
    (hheld : p.pollFds.Holds (entry :: entries)) (place : Place) (a : AcceptAnswers) :
    ∃ m', (b.inMemory t p place).acceptClient (entries.length + 1) a = some m' ∧
      Stores m' (b.acceptClient entry.revents a) := by
  have hread : p.pollFds.read (entries.length + 1) 0 = some entry :=
    hheld.read (by rfl) (Nat.succ_pos _)
  rw [acceptClient, Broker.acceptClient, Broker.inMemory_polls, hread, Option.bind_eq_bind,
    Option.bind_some, Broker.inMemory_limitReached]
  split
  · split
    · exact ⟨_, rfl, stores_fail ht hp⟩
    · exact ⟨_, rfl, stores_top ht hp⟩
  · rcases haccept : b.kernel.accept4 a.accepted with ⟨kernel, clientFd⟩
    rw [Broker.inMemory_kernel, haccept]
    dsimp only
    split
    · split
      · exact ⟨_, rfl, stores_top ht hp⟩
      · exact ⟨_, rfl, stores_fail ht hp⟩
    · split
      · exact ⟨_, rfl, stores_top (b := { b with kernel := kernel.close clientFd }) ht hp⟩
      · rw [Broker.inMemory_table]
        cases hadd : brokerAddClient b.clients b.clientCapacity clientFd a.reallocated with
        | none =>
            rw [ht.addClient_none hadd]
            exact ⟨_, rfl, stores_fail (b := { b with kernel := kernel.close clientFd }) ht hp⟩
        | some added =>
            obtain ⟨clients, clientCapacity⟩ := added
            obtain ⟨t', hadded, ht'⟩ := ht.addClient hadd
            rw [hadded]
            exact ⟨_, rfl, stores_top (b := { b with kernel, clients, clientCapacity }) ht' hp⟩

theorem leave_stores {p : PollTable} (ht : t.Holds b.clients b.clientCapacity)
    (hp : p.Sized b.pollCapacity) (place : Place) :
    ∃ m', (b.inMemory t p place).leave = some m' ∧ Stores m' b.leave := by
  obtain ⟨t', hall, ht'⟩ := closeAll_inMemory p place rfl ht
  rw [leave, Broker.inMemory_table, ht.count, hall]
  let b' : Broker := { b.closeAll b.clients.length with
    kernel := (generationReset (b.closeAll b.clients.length).kernel
      (b.closeAll b.clients.length).generation).1
    generation := (generationReset (b.closeAll b.clients.length).kernel
      (b.closeAll b.clients.length).generation).2 }
  refine ⟨_, rfl, ?_⟩
  show Stores { (b'.inMemory t' p place).closeListener with place := .returned }
    { b'.closeListener with pc := .returned }
  rw [closeListener_inMemory]
  have hp' : p.Sized b'.pollCapacity := by
    show p.Sized (b.closeAll b.clients.length).pollCapacity
    rwa [closeAll_pollCapacity]
  exact Stores.intro (b := { b'.closeListener with pc := .returned })
    (holds_closeListener (b := b') ht') (sized_closeListener hp') .returned

end Events

section Steps

variable {b : Broker} {t : ClientTable} {p : PollTable} {entries : List PollFd}

/-- The event loop with no client left, or its turn for `clients[index]`. -/
theorem dispatch_stores {clientIndex : Nat} (ht : t.Holds b.clients b.clientCapacity)
    (hp : p.Sized b.pollCapacity) (hheld : p.pollFds.Holds entries)
    (hclient : clientIndex ≤ b.clients.length) (hentry : clientIndex < entries.length)
    (hpc : b.pc = .dispatch clientIndex entries) (a : Answers) :
    ∃ m', (b.inMemory t p (.dispatch clientIndex entries.length)).step (.dispatch a) = some m' ∧
      Stores m' (b.step (.dispatch a)) := by
  cases clientIndex with
  | zero =>
      cases entries with
      | nil => exact absurd hentry (Nat.lt_irrefl 0)
      | cons entry entries =>
          refine ⟨_, rfl, ?_⟩
          simp only [Broker.step, hpc]
          exact Stores.intro (b := { b with pc := .accept entry.revents }) ht hp (.accept hheld)
  | succ index =>
      have hpollFd : entries[index + 1]? = some entries[index + 1] :=
        List.getElem?_eq_getElem hentry
      obtain ⟨t', hdispatch, hholds, hcapacity, hpolls, hleft⟩ := dispatchClient_inMemory ht hclient
        hheld hpollFd (.dispatch (index + 1) entries.length) a
      let b' : Broker :=
        { b.dispatchClient index entries[index + 1].revents a with pc := .dispatch index entries }
      refine ⟨b'.inMemory t' p (.dispatch index entries.length), ?_, ?_⟩
      · simp only [step, Broker.inMemory_place, hdispatch, Option.bind_eq_bind, Option.bind_some]
        rfl
      · simp only [Broker.step, hpc, hpollFd, Option.elim_some]
        refine Stores.intro (b := b') ?_ ?_ (.dispatch hheld hleft (Nat.lt_of_succ_lt hentry))
        · show t'.Holds _ (b.dispatchClient index entries[index + 1].revents a).clientCapacity
          rw [hcapacity]
          exact hholds
        · show p.Sized (b.dispatchClient index entries[index + 1].revents a).pollCapacity
          rwa [hpolls]

/-- Every step of the broker in memory is defined, and is the broker's. -/
theorem step_stores {m : BrokerMemory} (h : Stores m b) (i : Input) :
    ∃ m', m.step i = some m' ∧ Stores m' (b.step i) := by
  cases h with
  | @intro _ t p place ht hp hat =>
      -- an input for another place is not taken
      have hidle : (b.inMemory t p place).step i = some (b.inMemory t p place) → b.step i = b →
          ∃ m', (b.inMemory t p place).step i = some m' ∧ Stores m' (b.step i) := by
        intro hm hb
        rw [hb]
        exact ⟨_, hm, .intro ht hp hat⟩
      generalize hpc : b.pc = pc at hat
      cases i with
      | signal =>
          exact ⟨_, rfl, Stores.intro (b := { b with stopping := true }) ht hp (hpc ▸ hat)⟩
      | head reallocated answer =>
          cases hat with
          | top =>
              obtain ⟨round, hround, hfollows⟩ := round_follows ht hp .top reallocated
              obtain ⟨m', hfinish, hstores⟩ := hfollows.finish answer
              refine ⟨m', ?_, ?_⟩
              · simp only [step, Broker.inMemory_place, loopHead, hround, Option.bind_eq_bind,
                  Option.bind_some]
                exact hfinish
              · simpa only [Broker.step, hpc] using hstores
          | _ => exact hidle rfl (by simp only [Broker.step, hpc])
      | dispatch a =>
          cases hat with
          | dispatch hheld hclient hentry =>
              exact dispatch_stores ht hp hheld hclient hentry hpc a
          | _ => exact hidle rfl (by simp only [Broker.step, hpc])
      | accept a =>
          cases hat with
          | accept hheld =>
              simp only [Broker.step, hpc]
              exact acceptClient_stores ht hp hheld _ a
          | _ => exact hidle rfl (by simp only [Broker.step, hpc])
      | leave =>
          cases hat with
          | leaving =>
              simp only [Broker.step, hpc]
              exact leave_stores ht hp .leaving
          | _ => exact hidle rfl (by simp only [Broker.step, hpc])

end Steps

theorem stores_start (maxClients listenerFd : Nat) :
    Stores (start maxClients listenerFd) (Broker.start maxClients listenerFd) := by
  refine .intro (b := Broker.start maxClients listenerFd) ?_ ⟨rfl, rfl⟩ .top
  exact ⟨Block.holds_nil _, rfl, rfl, rfl, Nat.zero_le _⟩

/-- The broker in memory refines the one whose tables are lists. -/
theorem reachable_stores {m : BrokerMemory} (h : Reachable m) :
    ∃ b, Broker.Reachable b ∧ Stores m b := by
  refine Execution.Reachable.invariant (I := fun m => ∃ b, Broker.Reachable b ∧ Stores m b) ?_ ?_ h
  · rintro m ⟨maxClients, listenerFd, rfl⟩
    exact ⟨_, Broker.reachable_start maxClients listenerFd, stores_start maxClients listenerFd⟩
  · rintro m i m' ⟨b, hreachable, hstores⟩ hstep
    obtain ⟨next, hnext, hstores'⟩ := step_stores hstores i
    obtain rfl := Option.some_inj.mp (hstep.symm.trans hnext)
    exact ⟨_, hreachable.tail rfl, hstores'⟩

/-! #### The bounds -/

/-- What holds of the tables between any two steps. -/
structure Bounded (m : BrokerMemory) : Prop where
  within : m.table.clientCount ≤ m.table.clientCapacity
  block : m.table.clients.size = m.table.clientCapacity
  pollBlock : m.polls.pollFds.size = m.polls.pollCapacity
  /-- `poll` is called with the listener's entry and one for each client. -/
  polling : ∀ {reallocated m' pollFdCount}, m.place = .top →
    m.round reallocated = some (.polling m' pollFdCount) →
      pollFdCount = m'.table.clientCount + 1 ∧ pollFdCount ≤ m'.polls.pollCapacity ∧
        m'.polls.pollFds.size = m'.polls.pollCapacity
  dispatching : ∀ {clientIndex pollFdCount}, m.place = .dispatch clientIndex pollFdCount →
    clientIndex ≤ m.table.clientCount ∧ clientIndex < pollFdCount ∧
      pollFdCount ≤ m.polls.pollCapacity
  /-- Whatever comes, no index is out of its count, no entry is read before it was written, and
  no sum, difference or product leaves `size_t`. -/
  defined : ∀ i, ∃ m', m.step i = some m'
  addFailed : ∀ {clientFd reallocated table},
    m.table.addClient clientFd reallocated = some (table, false) → table = m.table
  growFailed : ∀ {pollFdCount reallocated polls},
    m.polls.grow pollFdCount reallocated = some (polls, false) → polls = m.polls
  /-- A failing `realloc` is such a failure. -/
  addRealloc : ∀ clientFd, m.table.clientCount = m.table.clientCapacity →
    m.table.addClient clientFd false = some (m.table, false)
  growRealloc : ∀ pollFdCount, m.polls.pollCapacity < pollFdCount →
    m.polls.grow pollFdCount false = some (m.polls, false)

theorem Follows.polling_bounds {next : PollAnswer → Broker} {m : BrokerMemory} {pollFdCount : Nat}
    (h : Follows next (.polling m pollFdCount)) :
    pollFdCount = m.table.clientCount + 1 ∧ pollFdCount ≤ m.polls.pollCapacity ∧
      m.polls.pollFds.size = m.polls.pollCapacity := by
  cases h with
  | @polling b t p place ht hp _ hroom _ =>
      refine ⟨congrArg (· + 1) ht.count.symm, ?_, hp.size.trans hp.capacity.symm⟩
      show b.clients.length + 1 ≤ p.pollCapacity
      rwa [hp.capacity]

theorem dispatching_of_stores {m : BrokerMemory} {b : Broker} (h : Stores m b)
    {clientIndex pollFdCount : Nat} (hplace : m.place = .dispatch clientIndex pollFdCount) :
    clientIndex ≤ m.table.clientCount ∧ clientIndex < pollFdCount ∧
      pollFdCount ≤ m.polls.pollCapacity := by
  cases h with
  | @intro _ t p place ht hp hat =>
      obtain rfl : place = .dispatch clientIndex pollFdCount := hplace
      generalize b.pc = pc at hat
      cases hat with
      | @dispatch _ entries hheld hclient hentry =>
          refine ⟨hclient.trans ht.count.ge, hentry, ?_⟩
          show entries.length ≤ p.pollCapacity
          rw [hp.capacity, ← hp.size]
          exact hheld.length_le

theorem bounded_of_stores {m : BrokerMemory} {b : Broker} (h : Stores m b) : m.Bounded := by
  have hsteps := step_stores h
  have hturns : ∀ {clientIndex pollFdCount}, m.place = .dispatch clientIndex pollFdCount → _ :=
    dispatching_of_stores h
  cases h with
  | @intro _ t p place ht hp hat =>
      refine ⟨?_, ht.size.trans ht.capacity.symm, hp.size.trans hp.capacity.symm, ?_, hturns, ?_,
        ClientTable.addClient_failed, PollTable.grow_failed, ?_, ?_⟩
      · show t.clientCount ≤ t.clientCapacity
        rw [ht.count, ht.capacity]
        exact ht.within
      · intro reallocated m' pollFdCount _ hround
        obtain ⟨round, hround', hfollows⟩ := round_follows ht hp place reallocated
        obtain rfl := Option.some_inj.mp (hround.symm.trans hround')
        exact hfollows.polling_bounds
      · intro i
        obtain ⟨m', hstep, -⟩ := hsteps i
        exact ⟨m', hstep⟩
      · intro clientFd hfull
        apply ht.addClient_none
        have hfull' : b.clients.length = b.clientCapacity := by
          rw [← ht.count, ← ht.capacity]
          exact hfull
        simp only [brokerAddClient, if_pos hfull', Bool.not_false, if_true, ite_self]
      · intro pollFdCount hmore
        refine hp.grow_none ⟨?_, .inr rfl⟩
        rw [← hp.capacity]
        exact hmore

/-- In every run, whatever connections come and go and whichever `realloc` fails, the tables stay
inside their blocks. -/
theorem tables_bounded {m : BrokerMemory} (h : Reachable m) : m.Bounded := by
  obtain ⟨b, -, hstores⟩ := reachable_stores h
  exact bounded_of_stores hstores

/-- The first connection was accepted. -/
def firstAccepted : Option BrokerMemory :=
  [.head true (.ready [Broker.readable]), .dispatch (Broker.answering []),
    .accept (Broker.accepting 4 0)]
    |>.foldlM step (start 0 3)

theorem tables_bounded_accepted : ∃ m, firstAccepted = some m ∧ m.Bounded ∧
    firstAccepted.map (fun m => (m.table.clientCount, m.table.clientCapacity)) = some (1, 8) := by
  have hstart : Reachable (start 0 3) := .of_init ⟨0, 3, rfl⟩
  have hdefined : firstAccepted.isSome = true := by decide +kernel
  obtain ⟨m, hm⟩ := Option.isSome_iff_exists.mp hdefined
  exact ⟨m, hm, tables_bounded (hstart.extend (Execution.run_of_foldlM hm)), by decide +kernel⟩

end BrokerMemory

end Hyperglyph
