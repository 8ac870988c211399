import Hyperglyph.Broker.Invariant

/-! The event loop without the array. `Desk.round` says what a round of the event loop is for:
every client that was polled has one turn, with its own `revents`. The loop of `main` gets there
although it removes clients from the array it walks. -/
namespace Hyperglyph

/-- What a turn works on besides the client whose turn it is. -/
structure Desk where
  kernel : Kernel
  generation : Generation
  handledClients : Nat

/-- A client and the entry it was polled with. -/
structure Polled where
  client : ClientConnection
  entry : PollFd
  deriving DecidableEq

/-- How a client leaves its turn. -/
structure Outcome where
  client : ClientConnection
  kept : Bool
  deriving DecidableEq

namespace Desk

def release (s : Desk) (fd : Fd) : Desk :=
  let (kernel, generation) :=
    if s.generation.state = .initializing ∧ s.generation.creatorFd = fd then
      generationReset s.kernel s.generation
    else (s.kernel, s.generation)
  { s with kernel := kernel.close fd, generation }

/-- Handling one message; the client comes back with its flag, and whether to keep it. -/
def serve (s : Desk) (client : ClientConnection) (a : Answers) : Desk × Outcome :=
  let (kernel, served, generation, keepOpen) :=
    brokerHandleClientMessage s.kernel client s.generation a
  let handledClients :=
    if !client.handledMessage && served.handledMessage && decide (s.handledClients < ulongMax) then
      s.handledClients + 1
    else s.handledClients
  ({ kernel, generation, handledClients }, { client := served, kept := keepOpen })

def examine (maxClients : Nat) (s : Desk) (polled : Polled) (a : Answers) : Desk × Outcome :=
  if decide (maxClients ≠ 0) && decide (s.handledClients ≥ maxClients) &&
      !polled.client.handledMessage then
    (s, { client := polled.client, kept := false })
  else if polled.entry.revents.pollin then s.serve polled.client a
  else (s, { client := polled.client, kept := true })

/-- One turn: at most one message is handled, and the client is closed at most once. -/
def turn (maxClients : Nat) (s : Desk) (polled : Polled) (a : Answers) : Desk × Outcome :=
  if polled.entry.revents = .clear then (s, { client := polled.client, kept := true })
  else
    let (s, outcome) := s.examine maxClients polled a
    if outcome.kept && !polled.entry.revents.failed then (s, { outcome with kept := true })
    else (s.release outcome.client.fd, { outcome with kept := false })

/-- The turns of a round, in the order they are taken. -/
def round (maxClients : Nat) : Desk → List (Polled × Answers) → Desk × List Outcome
  | s, [] => (s, [])
  | s, (polled, a) :: rest =>
      let (s, outcome) := s.turn maxClients polled a
      let (s, outcomes) := round maxClients s rest
      (s, outcome :: outcomes)

variable {maxClients : Nat} {s : Desk} {polled : Polled} {a : Answers}

theorem round_concat (turns : List (Polled × Answers)) (s : Desk) (polled : Polled) (a : Answers) :
    s.round maxClients (turns ++ [(polled, a)]) =
      (((s.round maxClients turns).1.turn maxClients polled a).1,
        (s.round maxClients turns).2 ++ [((s.round maxClients turns).1.turn maxClients polled a).2]) := by
  induction turns generalizing s with
  | nil => rfl
  | cons first rest ih => simp only [List.cons_append, round, ih]

/-- A client is the same connection before and after a message of its was handled. -/
theorem brokerHandleClientMessage_client (k : Kernel) (client : ClientConnection) (g : Generation)
    (a : Answers) :
    (brokerHandleClientMessage k client g a).2.1 = client ∨
      (brokerHandleClientMessage k client g a).2.1 = { client with handledMessage := true } := by
  unfold brokerHandleClientMessage
  split
  · right
    dsimp only
    split_ifs <;> rfl
  · exact .inl rfl

/-- Descriptor and flag stay together: a turn leaves a client alone but for setting its flag,
which only handling its message does. -/
theorem turn_client (maxClients : Nat) (s : Desk) (polled : Polled) (a : Answers) :
    (s.turn maxClients polled a).2.client = polled.client ∨
      polled.entry.revents.pollin = true ∧
        (s.turn maxClients polled a).2.client = { polled.client with handledMessage := true } := by
  have hexamine : (s.examine maxClients polled a).2.client = polled.client ∨
      polled.entry.revents.pollin = true ∧ (s.examine maxClients polled a).2.client =
        { polled.client with handledMessage := true } := by
    unfold examine
    split
    · exact .inl rfl
    · split
      · next hpollin =>
          rcases brokerHandleClientMessage_client s.kernel polled.client s.generation a with
            hsame | hserved
          · exact .inl hsame
          · exact .inr ⟨hpollin, hserved⟩
      · exact .inl rfl
  unfold turn
  split
  · exact .inl rfl
  · dsimp only
    split <;> exact hexamine

/-- The outcomes of a round belong to its turns, one each. -/
theorem round_outcomes (turns : List (Polled × Answers)) (s : Desk) :
    List.Forall₂ (fun taken outcome => outcome.client = taken.1.client ∨
        taken.1.entry.revents.pollin = true ∧
          outcome.client = { taken.1.client with handledMessage := true })
      turns (s.round maxClients turns).2 := by
  induction turns generalizing s with
  | nil => exact .nil
  | cons first rest ih => exact .cons (turn_client maxClients s first.1 first.2) (ih _)

/-- The clients that are still connected after the round. -/
def survivors (outcomes : List Outcome) : List ClientConnection :=
  (outcomes.filter (·.kept)).map (·.client)

theorem survivors_concat (outcomes : List Outcome) (outcome : Outcome) :
    survivors (outcomes ++ [outcome]) =
      survivors outcomes ++ if outcome.kept then [outcome.client] else [] := by
  cases h : outcome.kept <;> simp [survivors, h]

end Desk

namespace Broker

open SwapRemove

def desk (b : Broker) : Desk :=
  { kernel := b.kernel, generation := b.generation, handledClients := b.handledClients }

theorem desk_closeClient {b : Broker} {index : Nat} {client : ClientConnection}
    (hindex : b.clients[index]? = some client) :
    (b.closeClient index).desk = b.desk.release client.fd ∧
      (b.closeClient index).clients = swapRemove b.clients index := by
  unfold closeClient brokerCloseClient
  rw [hindex]
  exact ⟨rfl, rfl⟩

theorem desk_serveClient (b : Broker) (index : Nat) (client : ClientConnection) (a : Answers) :
    (b.serveClient index client a).1.desk = (b.desk.serve client a).1 ∧
      (b.serveClient index client a).1.clients =
        b.clients.set index (b.desk.serve client a).2.client ∧
      (b.serveClient index client a).2 = (b.desk.serve client a).2.kept :=
  ⟨rfl, rfl, rfl⟩

theorem desk_examineClient {b : Broker} {index : Nat} {polled : Polled}
    (hindex : b.clients[index]? = some polled.client) (a : Answers) :
    (b.examineClient index polled.client polled.entry.revents a).1.desk =
        (b.desk.examine b.maxClients polled a).1 ∧
      (b.examineClient index polled.client polled.entry.revents a).1.clients =
        b.clients.set index (b.desk.examine b.maxClients polled a).2.client ∧
      (b.examineClient index polled.client polled.entry.revents a).2 =
        (b.desk.examine b.maxClients polled a).2.kept := by
  obtain ⟨hlt, hget⟩ := List.getElem?_eq_some_iff.mp hindex
  have hset : b.clients.set index polled.client = b.clients := by
    rw [← hget, List.set_getElem_self]
  have hlimit : (decide (b.maxClients ≠ 0) && decide (b.desk.handledClients ≥ b.maxClients) &&
      !polled.client.handledMessage) = (b.limitReached && !polled.client.handledMessage) := rfl
  unfold examineClient Desk.examine
  rw [hlimit]
  split
  · exact ⟨rfl, hset.symm, rfl⟩
  · split
    · exact desk_serveClient b index polled.client a
    · exact ⟨rfl, hset.symm, rfl⟩

/-- The loop body is a turn of the client it stands on. -/
theorem dispatchClient_turn {b : Broker} {index : Nat} {polled : Polled}
    (hindex : b.clients[index]? = some polled.client) (a : Answers) :
    (b.dispatchClient index polled.entry.revents a).desk =
        (b.desk.turn b.maxClients polled a).1 ∧
      (b.dispatchClient index polled.entry.revents a).clients =
        if (b.desk.turn b.maxClients polled a).2.kept then
          b.clients.set index (b.desk.turn b.maxClients polled a).2.client
        else swapRemove b.clients index := by
  obtain ⟨hlt, hget⟩ := List.getElem?_eq_some_iff.mp hindex
  have hset : b.clients.set index polled.client = b.clients := by
    rw [← hget, List.set_getElem_self]
  obtain ⟨hdesk, hclients, hkept⟩ := desk_examineClient hindex a
  simp only [dispatchClient, hindex, Desk.turn, hkept]
  split
  · exact ⟨rfl, hset.symm⟩
  · split
    · exact ⟨hdesk, hclients⟩
    · have hexamined : (b.examineClient index polled.client polled.entry.revents a).1.clients[index]? =
          some (b.desk.examine b.maxClients polled a).2.client := by
        rw [hclients, List.getElem?_set_self hlt]
      obtain ⟨hrelease, hremove⟩ := desk_closeClient hexamined
      rw [hrelease, hremove, hdesk, hclients, swapRemove_set]
      exact ⟨rfl, rfl⟩

theorem dispatchClient_maxClients (b : Broker) (index : Nat) (events : Revents) (a : Answers) :
    (b.dispatchClient index events a).maxClients = b.maxClients := by
  unfold dispatchClient examineClient
  split
  · rfl
  · dsimp only
    split_ifs <;> rfl

/-- Every client with the entry it was polled with. -/
def polled (b : Broker) (fds : List PollFd) : List Polled :=
  (b.clients.zip fds.tail).map fun p => { client := p.1, entry := p.2 }

/-- The answers to the turns among these inputs. -/
def turnAnswers (inputs : List Input) : List Answers :=
  inputs.filterMap fun i => match i with
    | .dispatch a => some a
    | _ => none

theorem pollFds_succ (b : Broker) (revents : List Revents) {index : Nat} {client : ClientConnection}
    (hindex : b.clients[index]? = some client) :
    (b.pollFds revents)[index + 1]? = some
      { fd := client.fd,
        revents := if client.fd < 0 then .clear else revents.getD (index + 1) .clear } := by
  simp [pollFds, hindex]

theorem polled_getElem? (b : Broker) (revents : List Revents) {index : Nat}
    {client : ClientConnection} (hindex : b.clients[index]? = some client) :
    ∃ entry, (b.pollFds revents)[index + 1]? = some entry ∧ entry.fd = client.fd ∧
      (b.polled (b.pollFds revents))[index]? = some (.mk client entry) := by
  refine ⟨_, pollFds_succ b revents hindex, rfl, ?_⟩
  have htail : (b.pollFds revents).tail[index]? = some
      { fd := client.fd,
        revents := if client.fd < 0 then .clear else revents.getD (index + 1) .clear } := by
    rw [List.getElem?_tail, pollFds_succ b revents hindex]
  have hzip : (b.clients.zip (b.pollFds revents).tail)[index]? = some (client, _) :=
    List.getElem?_zip_eq_some.mpr ⟨hindex, htail⟩
  simp only [polled, List.getElem?_map, hzip, Option.map_some]

theorem length_polled (b : Broker) (revents : List Revents) :
    (b.polled (b.pollFds revents)).length = b.clients.length := by
  simp [polled, pollFds]

/-- Where a round stands once these answers were given: the clients at the end of the array
have had their turns, each with its own entry, and those below are as they were polled. -/
structure RoundTaken (b : Broker) (fds : List PollFd) (answers : List Answers) (b' : Broker) :
    Prop where
  place : b'.pc = .dispatch (b.clients.length - answers.length) fds
  limit : b'.maxClients = b.maxClients
  desk : b'.desk = (b.desk.round b.maxClients
    (((b.polled fds).drop (b.clients.length - answers.length)).reverse.zip answers)).1
  swept : Swept b.clients (b.clients.length - answers.length) b'.clients
    (Desk.survivors (b.desk.round b.maxClients
      (((b.polled fds).drop (b.clients.length - answers.length)).reverse.zip answers)).2).reverse

theorem roundTaken_start {b : Broker} {revents : List Revents}
    (hpc : b.pc = .dispatch b.clients.length (b.pollFds revents)) :
    RoundTaken b (b.pollFds revents) [] b where
  place := hpc
  limit := rfl
  desk := by rw [List.zip_nil_right]; rfl
  swept := by rw [List.zip_nil_right]; exact Swept.begin b.clients

/-- The turns of a round after one more was taken. -/
theorem turns_succ {b : Broker} {revents : List Revents} {answers : List Answers} {index : Nat}
    {polled : Polled} (hlength : answers.length + (index + 1) = b.clients.length)
    (hpolled : (b.polled (b.pollFds revents))[index]? = some polled) (a : Answers) :
    ((b.polled (b.pollFds revents)).drop index).reverse.zip (answers ++ [a]) =
      ((b.polled (b.pollFds revents)).drop (index + 1)).reverse.zip answers ++ [(polled, a)] := by
  obtain ⟨hlt, hget⟩ := List.getElem?_eq_some_iff.mp hpolled
  have hsame : ((b.polled (b.pollFds revents)).drop (index + 1)).reverse.length = answers.length := by
    rw [List.length_reverse, List.length_drop, length_polled]
    omega
  rw [List.drop_eq_getElem_cons hlt, hget, List.reverse_cons, List.zip_append hsame]
  rfl

theorem RoundTaken.turn {b b' : Broker} {revents : List Revents} {answers : List Answers}
    (h : RoundTaken b (b.pollFds revents) answers b') (hmore : answers.length < b.clients.length)
    (a : Answers) : RoundTaken b (b.pollFds revents) (answers ++ [a]) (b'.step (.dispatch a)) := by
  obtain ⟨index, hlength⟩ : ∃ index, answers.length + (index + 1) = b.clients.length :=
    ⟨b.clients.length - answers.length - 1, by omega⟩
  have hbefore : b.clients.length - answers.length = index + 1 := by omega
  have hafter : b.clients.length - (answers ++ [a]).length = index := by
    rw [List.length_append, List.length_singleton]
    omega
  have hclient : b.clients[index]? = some b.clients[index] := List.getElem?_eq_getElem (by omega)
  obtain ⟨entry, hentry, -, hpolled⟩ := polled_getElem? b revents hclient
  obtain ⟨hplace, hlimit, hdesk, hswept⟩ := h
  rw [hbefore] at hplace hdesk hswept
  have hstep : b'.step (.dispatch a) =
      { b'.dispatchClient index entry.revents a with pc := .dispatch index (b.pollFds revents) } := by
    simp only [step, hplace, hentry, Option.elim_some]
  have hstands : b'.clients[index]? = some (Polled.mk b.clients[index] entry).client :=
    hswept.at_index.trans hclient
  have hturn := dispatchClient_turn hstands a
  rw [hlimit, hdesk] at hturn
  obtain ⟨hdesk', hclients'⟩ := hturn
  constructor
  · rw [hafter, hstep]
  · rw [hstep]
    exact (dispatchClient_maxClients b' index entry.revents a).trans hlimit
  · rw [hafter, turns_succ hlength hpolled, Desk.round_concat, hstep]
    exact hdesk'
  · rw [hafter, turns_succ hlength hpolled, Desk.round_concat, hstep, Desk.survivors_concat]
    show Swept b.clients index (b'.dispatchClient index entry.revents a).clients _
    rw [hclients', List.reverse_append]
    split
    · exact hswept.keep hclient _
    · exact hswept.drop hclient

/-- The invariant of a round. -/
theorem RoundTaken.run {b b' : Broker} {revents : List Revents} {inputs : List Input}
    (hpc : b.pc = .dispatch b.clients.length (b.pollFds revents))
    (hrun : Execution.Run Step b inputs b')
    (hturns : (turnAnswers inputs).length ≤ b.clients.length) :
    RoundTaken b (b.pollFds revents) (turnAnswers inputs) b' := by
  induction hrun with
  | start => exact roundTaken_start hpc
  | @next inputs b' i b'' hrun hlast ih =>
      have happend : turnAnswers (inputs ++ [i]) = turnAnswers inputs ++ turnAnswers [i] :=
        List.filterMap_append
      rw [happend, List.length_append] at hturns
      have hbefore := ih (by omega)
      rw [happend]
      cases hlast
      cases i with
      | dispatch a =>
          have hmore : (turnAnswers inputs).length + 1 ≤ b.clients.length := hturns
          exact hbefore.turn (by omega) a
      | signal =>
          rw [show turnAnswers inputs ++ turnAnswers [.signal] = turnAnswers inputs from
            List.append_nil _]
          exact ⟨hbefore.place, hbefore.limit, hbefore.desk, hbefore.swept⟩
      | head | accept | leave =>
          rw [show turnAnswers inputs ++ turnAnswers [_] = turnAnswers inputs from
            List.append_nil _]
          have hplace := hbefore.place
          simpa only [step, hplace] using hbefore

/-! ### The eviction pass -/

/-- What evicting leaves of a walk that has come down to `n`. -/
theorem evict_swept {start : List ClientConnection} (n : Nat) {b : Broker}
    {kept : List ClientConnection} (h : Swept start n b.clients kept) (hn : n ≤ start.length) :
    (b.evict n).clients.Perm ((start.take n).filter (·.handledMessage) ++ kept) ∧
      (b.evict n).desk = ((start.take n).filter (!·.handledMessage)).reverse.foldl
        (fun s client => s.release client.fd) b.desk := by
  induction n generalizing b kept with
  | zero => exact ⟨by simpa [evict] using h.finish, rfl⟩
  | succ index ih =>
      have hclient : start[index]? = some start[index] := List.getElem?_eq_getElem hn
      have htake : start.take (index + 1) = start.take index ++ [start[index]] := by
        rw [List.take_add_one, hclient, Option.toList_some]
      have hget := h.at_index.trans hclient
      rw [htake, List.filter_append, List.filter_append]
      unfold evict
      rw [hget]
      dsimp only
      cases hhandled : start[index].handledMessage with
      | true =>
          obtain ⟨hlt, helem⟩ := List.getElem?_eq_some_iff.mp hget
          have hkeep := h.keep hclient start[index]
          rw [← helem, List.set_getElem_self, helem] at hkeep
          obtain ⟨hclients, hdesk⟩ := ih hkeep (by omega)
          refine ⟨?_, ?_⟩
          · simpa [hhandled] using hclients
          · simpa [hhandled] using hdesk
      | false =>
          obtain ⟨hrelease, hremove⟩ := desk_closeClient hget
          have hdrop := h.drop hclient
          rw [← hremove] at hdrop
          obtain ⟨hclients, hdesk⟩ := ih hdrop (by omega)
          refine ⟨?_, ?_⟩
          · simpa [hhandled] using hclients
          · simpa [hhandled, hrelease] using hdesk

/-- The pass closes the clients that never spoke, each once, and keeps the others. -/
structure EvictionExact (b b' : Broker) : Prop where
  clients : b'.clients.Perm (b.clients.filter (·.handledMessage))
  desk : b'.desk = (b.clients.filter (!·.handledMessage)).reverse.foldl
    (fun s client => s.release client.fd) b.desk

/-- A round that is over: every polled client had one turn, with the entry that was polled
for it, and those who stayed are in the table. -/
structure RoundExact (b : Broker) (revents : List Revents) (answers : List Answers)
    (b' : Broker) : Prop where
  finished : b'.pc = .dispatch 0 (b.pollFds revents)
  own : ∀ index client, b.clients[index]? = some client →
    ∃ entry, (b.pollFds revents)[index + 1]? = some entry ∧ entry.fd = client.fd ∧
      (b.polled (b.pollFds revents))[index]? = some (.mk client entry)
  desk : b'.desk =
    (b.desk.round b.maxClients ((b.polled (b.pollFds revents)).reverse.zip answers)).1
  survivors : b'.clients.Perm (Desk.survivors
    (b.desk.round b.maxClients ((b.polled (b.pollFds revents)).reverse.zip answers)).2)
  together : List.Forall₂ (fun taken outcome => outcome.client = taken.1.client ∨
      taken.1.entry.revents.pollin = true ∧
        outcome.client = { taken.1.client with handledMessage := true })
    ((b.polled (b.pollFds revents)).reverse.zip answers)
    (b.desk.round b.maxClients ((b.polled (b.pollFds revents)).reverse.zip answers)).2

/-- The loop over the array it removes from is the round, for every table and every vector of
poll results; so is the eviction pass. -/
theorem dispatch_exact (b : Broker) :
    EvictionExact b (b.evict b.clients.length) ∧
      ∀ revents inputs b', b.pc = .dispatch b.clients.length (b.pollFds revents) →
        Execution.Run Step b inputs b' → (turnAnswers inputs).length ≤ b.clients.length →
        RoundTaken b (b.pollFds revents) (turnAnswers inputs) b' ∧
          ((turnAnswers inputs).length = b.clients.length →
            RoundExact b revents (turnAnswers inputs) b') := by
  constructor
  · obtain ⟨hclients, hdesk⟩ := evict_swept b.clients.length (Swept.begin b.clients) le_rfl
    rw [List.take_length] at hclients hdesk
    exact ⟨by simpa using hclients, hdesk⟩
  · intro revents inputs b' hpc hrun hturns
    have htaken := RoundTaken.run hpc hrun hturns
    refine ⟨htaken, fun hall => ?_⟩
    obtain ⟨hplace, -, hdesk, hswept⟩ := htaken
    rw [hall, Nat.sub_self] at hplace hdesk hswept
    rw [List.drop_zero] at hdesk hswept
    refine ⟨hplace, fun index client hindex => polled_getElem? b revents hindex, hdesk, ?_,
      Desk.round_outcomes _ _⟩
    exact hswept.finish.trans (List.reverse_perm _)

def hungUp : Revents := { Revents.clear with pollhup := true }

/-- Two clients are connected; the one at descriptor 4 has hung up and the one at 5 has sent
a message. -/
def twoPolled : Broker :=
  [.head true (.ready [readable]), .dispatch (answering []),
    .accept (accepting 4 0),
    .head true (.ready [readable]), .dispatch (answering []), .dispatch (answering []),
    .accept (accepting 5 1),
    .head true (.ready [.clear, hungUp, readable])].foldl step (start 0 3)

theorem dispatch_exact_of_two :
    ∃ b', b'.clients = [⟨5, true⟩] ∧ RoundExact twoPolled [.clear, hungUp, readable]
      [answering pageRequest.encode, answering []] b' := by
  refine ⟨[.dispatch (answering pageRequest.encode), .signal, .dispatch (answering [])].foldl step
    twoPolled, by decide +kernel, ?_⟩
  have hround := (dispatch_exact twoPolled).2 [.clear, hungUp, readable]
    [.dispatch (answering pageRequest.encode), .signal, .dispatch (answering [])] _
    (by decide +kernel) (run_foldl _ _) (by decide +kernel)
  exact hround.2 (by decide +kernel)

end Broker

end Hyperglyph
