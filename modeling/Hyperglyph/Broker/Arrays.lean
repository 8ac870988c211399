import Hyperglyph.Broker.TableBounds

/-! The arrays in memory implement the lists. Whoever reads them through their counts finds, after
any inputs, the broker whose tables are lists; so what holds of every run of the one holds of the
other. -/
namespace Hyperglyph

/-- The same place in the loop. -/
inductive Place.Is : Place → Pc → Prop
  | top : Place.Is .top .top
  | dispatch {clientIndex : Nat} {pollFds : List PollFd} :
      Place.Is (.dispatch clientIndex pollFds.length) (.dispatch clientIndex pollFds)
  | accept {pollFdCount : Nat} {events : Revents} : Place.Is (.accept pollFdCount) (.accept events)
  | leaving : Place.Is .leaving .leaving
  | returned : Place.Is .returned .returned

namespace BrokerMemory

variable {m : BrokerMemory} {b : Broker}

/-- The memory is that of the broker `b`. -/
structure Shows (m : BrokerMemory) (b : Broker) : Prop where
  kernel : m.kernel = b.kernel
  generation : m.generation = b.generation
  stopping : m.stopping = b.stopping
  maxClients : m.maxClients = b.maxClients
  handledClients : m.handledClients = b.handledClients
  listenerFd : m.listenerFd = b.listenerFd
  exitFailure : m.exitFailure = b.exitFailure
  clientCount : m.table.clientCount = b.clients.length
  clients : ∀ index, m.table.read index = b.clients[index]?
  clientCapacity : m.table.clientCapacity = b.clientCapacity
  pollCapacity : m.polls.pollCapacity = b.pollCapacity
  place : m.place.Is b.pc
  /-- What is left of the answer of `poll`. -/
  pollFds : ∀ clientIndex pollFds, b.pc = .dispatch clientIndex pollFds →
    ∀ position, m.polls.pollFds.read pollFds.length position = pollFds[position]?
  listenerEvents : ∀ pollFdCount events, m.place = .accept pollFdCount → b.pc = .accept events →
    (m.polls.pollFds.read pollFdCount 0).map (·.revents) = some events

theorem shows_of_stores (h : Stores m b) : m.Shows b := by
  cases h with
  | @intro _ t p place ht hp hat =>
      refine ⟨rfl, rfl, rfl, rfl, rfl, rfl, rfl, ht.count, ?_, ht.capacity, hp.capacity, ?_, ?_, ?_⟩
      · intro index
        show t.clients.read t.clientCount index = _
        rw [ht.count]
        exact ht.entries.read_eq index
      · show place.Is b.pc
        generalize b.pc = pc at hat
        cases hat <;> constructor
      · intro clientIndex pollFds hpc
        rw [hpc] at hat
        cases hat with
        | dispatch held => exact held.read_eq
      · intro pollFdCount events hplace hpc
        obtain rfl : place = .accept pollFdCount := hplace
        rw [hpc] at hat
        cases hat with
        | accept held =>
            show (p.pollFds.read _ 0).map (·.revents) = _
            rw [held.read rfl (Nat.succ_pos _)]
            rfl

/-- Whatever the inputs, the memory is never stuck, and it is that of the broker with lists. -/
theorem arrays_refine (maxClients listenerFd : Nat) (inputs : List Input) :
    ∃ m, inputs.foldlM step (start maxClients listenerFd) = some m ∧
      m.Shows (inputs.foldl Broker.step (Broker.start maxClients listenerFd)) := by
  have hrun : ∀ {m b} (inputs : List Input), Stores m b →
      ∃ m', inputs.foldlM step m = some m' ∧ Stores m' (inputs.foldl Broker.step b) := by
    intro m b inputs hstores
    induction inputs generalizing m b with
    | nil => exact ⟨m, rfl, hstores⟩
    | cons i inputs ih =>
        obtain ⟨next, hnext, hstores'⟩ := step_stores hstores i
        obtain ⟨m', hrest, hdone⟩ := ih hstores'
        refine ⟨m', ?_, hdone⟩
        rw [List.foldlM_cons, hnext]
        exact hrest
  obtain ⟨m, hdefined, hstores⟩ := hrun inputs (stores_start maxClients listenerFd)
  exact ⟨m, hdefined, shows_of_stores hstores⟩

end BrokerMemory

end Hyperglyph
