import Hyperglyph.Library.Holdings
import Hyperglyph.Client.Specification

/-! The descriptors a client has in its hands while `ahe_broker_client.c` runs. The rest of its
process has descriptors of its own, which the client never touches. -/
namespace Hyperglyph

open DescriptorTable

/-- The control buffer has room for one message of two descriptors. -/
def Reception.Fits (r : Reception) : Prop :=
  r.control.length ≤ 1 ∧ r.installed.length ≤ brokerDescriptorCount

/-- An answer of `recvmsg` that the kernel can give. -/
def Deliverable (reply : Except Errno Reception) : Prop := ∀ r, reply = .ok r → r.Fits

def ProcessEvent.opened? : ProcessEvent → Option Object
  | .opened o => some o
  | _ => none

def ProcessEvent.closed? : ProcessEvent → Option Object
  | .closed o => some o
  | _ => none

def ProcessEvent.isMemory : ProcessEvent → Bool
  | .mapped .. | .unmapped .. | .allocated _ | .freed _ => true
  | _ => false

namespace Process

variable {base : DescriptorTable Object} {p p' : Process} {held held' : List (Nat × Object)}

def opened (p : Process) : List Object := p.log.filterMap ProcessEvent.opened?
def closed (p : Process) : List Object := p.log.filterMap ProcessEvent.closed?

/-- What was mapped, unmapped, allocated and freed. -/
def memory (p : Process) : List ProcessEvent := p.log.filter ProcessEvent.isMemory

/-- The process has what is `held`, and never used a descriptor that is not open. -/
structure Holds (base : DescriptorTable Object) (p : Process) (held : List (Nat × Object)) :
    Prop where
  custody : Custody base p.fds p.opened p.closed held
  sound : ∀ fd, ProcessEvent.badUse fd ∉ p.log

theorem Holds.start (fds : DescriptorTable Object) : Holds fds ⟨fds, []⟩ [] :=
  ⟨.start fds, by simp⟩

theorem Holds.perm (h : p.Holds base held) (hheld : held.Perm held') : p.Holds base held' :=
  ⟨h.custody.perm hheld, h.sound⟩

theorem Holds.get {n : Nat} {o : Object} (h : p.Holds base held) (hmem : (n, o) ∈ held) :
    p.fds.get (n : Fd) = some o :=
  h.custody.table n o hmem

@[simp] theorem emit_nil (p : Process) : p.emit [] = p := by
  simp only [emit, List.append_nil]

@[simp] theorem emit_emit (p : Process) (first second : List ProcessEvent) :
    (p.emit first).emit second = p.emit (first ++ second) := by
  simp only [emit, List.append_assoc]

@[simp] theorem opened_emit (p : Process) (events : List ProcessEvent) :
    (p.emit events).opened = p.opened ++ events.filterMap ProcessEvent.opened? :=
  List.filterMap_append

@[simp] theorem closed_emit (p : Process) (events : List ProcessEvent) :
    (p.emit events).closed = p.closed ++ events.filterMap ProcessEvent.closed? :=
  List.filterMap_append

@[simp] theorem memory_emit (p : Process) (events : List ProcessEvent) :
    (p.emit events).memory = p.memory ++ events.filter ProcessEvent.isMemory :=
  List.filter_append ..

/-- Mapping and allocating are not about descriptors. -/
theorem Holds.memory (h : p.Holds base held) {events : List ProcessEvent}
    (hmemory : ∀ e ∈ events, e.isMemory = true) : (p.emit events).Holds base held := by
  have hopened : events.filterMap ProcessEvent.opened? = [] := by
    apply List.filterMap_eq_nil_iff.mpr
    intro e he
    have := hmemory e he
    cases e <;> first | rfl | cases this
  have hclosed : events.filterMap ProcessEvent.closed? = [] := by
    apply List.filterMap_eq_nil_iff.mpr
    intro e he
    have := hmemory e he
    cases e <;> first | rfl | cases this
  constructor
  · rw [opened_emit, closed_emit, hopened, hclosed, List.append_nil, List.append_nil]
    exact h.custody
  · intro fd hmem
    rcases List.mem_append.mp hmem with hold | hnew
    · exact h.sound fd hold
    · cases hmemory _ hnew

/-! ### One descriptor -/

theorem close_of_held {n : Nat} {o : Object} (hopen : p.fds.get (n : Fd) = some o) :
    p.close (n : Fd) = { p with fds := p.fds.remove (n : Fd), log := p.log ++ [.closed o] } := by
  simp only [close, hopen]

theorem Holds.close {n : Nat} {o : Object} (h : p.Holds base ((n, o) :: held)) :
    (p.close (n : Fd)).Holds base held := by
  have hopen := h.get List.mem_cons_self
  rw [close_of_held hopen]
  have hopened : (p.emit [.closed o]).opened = p.opened := by
    rw [opened_emit]
    exact List.append_nil _
  constructor
  · show Custody base (p.fds.remove (n : Fd)) (p.emit [.closed o]).opened (p.emit [.closed o]).closed
      held
    have hfront : Custody base p.fds p.opened p.closed ([] ++ (n, o) :: held) := h.custody
    rw [hopened, closed_emit]
    exact hfront.remove
  · intro fd hmem
    rcases List.mem_append.mp hmem with hold | hnew
    · exact h.sound fd hold
    · cases List.mem_singleton.mp hnew

@[simp] theorem memory_close (p : Process) (fd : Fd) : (p.close fd).memory = p.memory := by
  unfold Process.close
  split
  · next o _ =>
      show (p.emit [.closed o]).memory = p.memory
      rw [memory_emit]
      exact List.append_nil _
  · rw [memory_emit]
    exact List.append_nil _

theorem Holds.install {n : Nat} (h : p.Holds base held) (hn : p.fds.Free n) (o : Object) :
    Holds base { p with fds := p.fds.install n o, log := p.log ++ [.opened o] } ((n, o) :: held) := by
  have hclosed : (p.emit [.opened o]).closed = p.closed := by
    rw [closed_emit]
    exact List.append_nil _
  constructor
  · show Custody base (p.fds.install n o) (p.emit [.opened o]).opened (p.emit [.opened o]).closed _
    rw [hclosed, opened_emit]
    exact h.custody.install hn o
  · intro fd hmem
    rcases List.mem_append.mp hmem with hold | hnew
    · exact h.sound fd hold
    · cases List.mem_singleton.mp hnew

/-- Descriptors that arrive together are held together. -/
theorem Holds.installAll {installed : List (Nat × Object)} {fds : DescriptorTable Object}
    (h : p.Holds base held) (hinstall : Hyperglyph.installAll p.fds installed = some fds) :
    Holds base { p with fds, log := p.log ++ installed.map fun i => .opened i.2 }
      (installed ++ held) := by
  induction installed generalizing p held with
  | nil =>
      cases hinstall
      rw [List.map_nil, List.append_nil]
      exact h
  | cons i rest ih =>
      simp only [Hyperglyph.installAll] at hinstall
      split at hinstall
      · next hfree =>
          have hrest := ih (h.install hfree i.2) hinstall
          rw [List.append_assoc] at hrest
          exact hrest.perm List.perm_middle
      · cases hinstall

/-! ### Several descriptors -/

@[simp] theorem memory_closeAll (p : Process) (fds : List Fd) :
    (fds.foldl Process.close p).memory = p.memory := by
  induction fds generalizing p with
  | nil => rfl
  | cons fd fds ih => exact (ih (p.close fd)).trans (memory_close p fd)

theorem Holds.closeAll {installed : List (Nat × Object)} (h : p.Holds base (installed ++ held)) :
    Holds base ((installed.map fun i => (i.1 : Fd)).foldl Process.close p) held := by
  induction installed generalizing p with
  | nil => exact h
  | cons i rest ih => exact ih h.close

theorem closeReceivedFds_eq (p : Process) (installed : List (Nat × Object)) :
    closeReceivedFds p (installed.map fun i => (i.1 : Fd)) =
      (installed.map fun i => (i.1 : Fd)).foldl Process.close p := by
  unfold closeReceivedFds
  induction installed generalizing p with
  | nil => rfl
  | cons i rest ih =>
      rw [List.map_cons, List.foldl_cons, List.foldl_cons, if_pos (Int.natCast_nonneg i.1)]
      exact ih (p.close i.1)

@[simp] theorem memory_closeReceivedFds (p : Process) (fds : List Fd) :
    (closeReceivedFds p fds).memory = p.memory := by
  unfold closeReceivedFds
  induction fds generalizing p with
  | nil => rfl
  | cons fd fds ih =>
      rw [List.foldl_cons, ih]
      split
      · exact memory_close p fd
      · rfl

/-! ### Messages -/

@[simp] theorem memory_send (p : Process) (fd : Fd) (answer : Except Errno Unit) :
    (p.send fd answer).1.memory = p.memory := by
  unfold send
  split
  · rfl
  · rw [memory_emit]
    exact List.append_nil _

@[simp] theorem memory_recvmsg (p : Process) (fd : Fd) (answer : Except Errno Reception) :
    (p.recvmsg fd answer).1.memory = p.memory := by
  unfold Process.recvmsg
  split
  · cases answer with
    | error e => rfl
    | ok r =>
        dsimp only
        split
        · have hquiet : (r.installed.map fun i => ProcessEvent.opened i.2).filter
              ProcessEvent.isMemory = [] := by
            apply List.filter_eq_nil_iff.mpr
            intro e he
            obtain ⟨i, -, rfl⟩ := List.mem_map.mp he
            exact Bool.false_ne_true
          show (p.emit (r.installed.map fun i => .opened i.2)).memory = p.memory
          rw [memory_emit, hquiet, List.append_nil]
        · rfl
  · rw [memory_emit]
    exact List.append_nil _

@[simp] theorem memory_collectFds (p : Process) (capacity : Nat) (fds : List Fd)
    (control : List ControlMessage) :
    (collectFds p capacity fds control).1.memory = p.memory := by
  induction control generalizing fds with
  | nil => rfl
  | cons message rest ih =>
      cases message with
      | other => exact ih fds
      | rights installed ragged =>
          unfold Hyperglyph.collectFds
          dsimp only
          split
          · rw [memory_closeReceivedFds, memory_closeAll]
          · exact ih _

@[simp] theorem memory_clientReceiveMessage (p : Process) (fd : Fd) (capacity : Nat)
    (answer : Except Errno Reception) :
    (clientReceiveMessage p fd capacity answer).1.memory = p.memory := by
  have hreceived := memory_recvmsg p fd answer
  unfold clientReceiveMessage
  generalize p.recvmsg fd answer = received at hreceived ⊢
  obtain ⟨p', answer'⟩ := received
  cases answer' with
  | error e => exact hreceived
  | ok r =>
      have hcollected := memory_collectFds p' capacity [] r.control
      dsimp only
      generalize Hyperglyph.collectFds p' capacity [] r.control = collected at hcollected ⊢
      obtain ⟨p'', fds⟩ := collected
      cases fds with
      | none => exact hcollected.trans hreceived
      | some fds =>
          dsimp only
          split
          · rw [memory_closeReceivedFds]
            exact hcollected.trans hreceived
          · exact hcollected.trans hreceived

theorem send_of_held {n : Nat} {c : ConnId} (h : p.Holds base held) (hmem : (n, .conn c) ∈ held)
    (answer : Except Errno Unit) : p.send n answer = (p, answer) := by
  simp only [send, h.get hmem]

theorem Holds.recvmsg {n : Nat} {c : ConnId} (h : p.Holds base held) (hmem : (n, .conn c) ∈ held)
    (answer : Except Errno Reception) :
    (∃ e, p.recvmsg n answer = (p, .error e) ∧ (e = .again ↔ answer = .error .again)) ∨
      ∃ r p', answer = .ok r ∧ p.recvmsg n answer = (p', .ok r) ∧
        p'.Holds base (r.installed ++ held) := by
  unfold Process.recvmsg
  rw [h.get hmem]
  cases answer with
  | error e => exact .inl ⟨e, rfl, by simp⟩
  | ok r =>
      dsimp only
      split
      · next fds hinstall => exact .inr ⟨r, _, rfl, rfl, h.installAll hinstall⟩
      · exact .inl ⟨.other, rfl, by simp⟩

/-- The loop over the control messages keeps the descriptors, or closes them all. -/
theorem Holds.collectFds {capacity : Nat} {r : Reception} (h : p.Holds base (r.installed ++ held))
    (hfits : r.control.length ≤ 1) :
    ((collectFds p capacity [] r.control).2 = none ∧
        (collectFds p capacity [] r.control).1.Holds base held) ∨
      collectFds p capacity [] r.control = (p, some (r.installed.map fun i => (i.1 : Fd))) ∧
        r.installed.length ≤ capacity := by
  obtain ⟨octets, control, controlTruncated⟩ := r
  rcases control with _ | ⟨message, _ | ⟨second, rest⟩⟩
  · exact .inr ⟨rfl, Nat.zero_le capacity⟩
  · cases message with
    | other => exact .inr ⟨rfl, Nat.zero_le capacity⟩
    | rights installed ragged =>
        have hinstalled : Reception.installed ⟨octets, [.rights installed ragged], controlTruncated⟩ =
            installed := List.append_nil installed
        rw [hinstalled] at h ⊢
        unfold Hyperglyph.collectFds
        dsimp only
        split
        · exact .inl ⟨rfl, h.closeAll⟩
        · next hroom =>
            rw [not_or, not_lt, List.length_map, List.length_nil, Nat.zero_add] at hroom
            exact .inr ⟨rfl, hroom.2⟩
  · exact absurd hfits (by simp)

/-- A message the client does not take leaves no descriptor behind. -/
theorem Holds.receive {n : Nat} {c : ConnId} (h : p.Holds base held) (hmem : (n, .conn c) ∈ held)
    (capacity : Nat) {answer : Except Errno Reception} (hanswer : Deliverable answer) :
    (∃ e, (clientReceiveMessage p n capacity answer).2 = .error e ∧
        (e = .again ↔ answer = .error .again) ∧
        (clientReceiveMessage p n capacity answer).1.Holds base held) ∨
      ∃ m installed, answer ≠ .error .again ∧ installed.length ≤ capacity ∧
        (clientReceiveMessage p n capacity answer).2 =
          .ok (m, installed.map fun i => (i.1 : Fd)) ∧
        (clientReceiveMessage p n capacity answer).1.Holds base (installed ++ held) := by
  unfold clientReceiveMessage
  rcases h.recvmsg hmem answer with ⟨e, heq, hagain⟩ | ⟨r, p', rfl, heq, hreceived⟩
  · rw [heq]
    exact .inl ⟨e, rfl, hagain, h⟩
  · rw [heq]
    have hfits := (hanswer r rfl).1
    dsimp only
    rcases hreceived.collectFds hfits with ⟨hnone, hheld⟩ | ⟨hsome, hroom⟩
    · generalize Hyperglyph.collectFds p' capacity [] r.control = collected at hnone hheld ⊢
      obtain ⟨p'', fds⟩ := collected
      cases hnone
      exact .inl ⟨.proto, rfl, by simp, hheld⟩
    · rw [hsome]
      dsimp only
      split
      · rw [closeReceivedFds_eq]
        exact .inl ⟨.proto, rfl, by simp, hreceived.closeAll⟩
      · exact .inr ⟨_, r.installed, by simp, hroom, rfl, hreceived⟩

end Process

end Hyperglyph
