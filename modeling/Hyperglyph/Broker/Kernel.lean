import Hyperglyph.Library.DescriptorTable
import Hyperglyph.Protocol

/-! The broker's view of the kernel: its descriptor table, and a log of what its system calls
did. Every call takes the kernel's answer as an argument. An answer the kernel cannot give,
such as a descriptor number that is still open, is read as failure of the call, so every
choice of answers is a possible behaviour and nothing else is. -/
namespace Hyperglyph

/-- `sizeof(sun_path)`. -/
def sizeofSunPath : Nat := 108

/-- Open file descriptions. Memfds are numbered in the order they were made. -/
inductive Object
  | listener
  | conn (c : ConnId)
  | memfd (n : Nat)
  deriving DecidableEq

inductive Event
  | accepted (c : ConnId)
  | received (c : ConnId) (datagram : List UInt8)
  | sent (c : ConnId) (message : MessageV1) (attached : List Object)
  | unsent (c : ConnId) (message : MessageV1) (attached : List Object)
  | closed (o : Object)
  | badClose (fd : Fd)
  deriving DecidableEq

/-- `struct ucred` as `getsockopt` fills it in. -/
structure PeerCredentials where
  sizeMatches : Bool
  pid : Int
  uid : Nat

structure Kernel where
  fds : DescriptorTable Object
  nextMemfd : Nat
  log : List Event

/-- `recv` after the `EINTR` loop: an error, or the datagram at the head of the queue.
The empty datagram is also what a closed peer reads as. -/
inductive Recv
  | error
  | datagram (octets : List UInt8)
  deriving DecidableEq

namespace Kernel

def emit (k : Kernel) (events : List Event) : Kernel := { k with log := k.log ++ events }

def close (k : Kernel) (fd : Fd) : Kernel :=
  match k.fds.get fd with
  | some o => { k with fds := k.fds.remove fd, log := k.log ++ [.closed o] }
  | none => k.emit [.badClose fd]

def memfdCreate (k : Kernel) (answer : Option Nat) : Kernel × Fd :=
  match answer with
  | some n =>
      if k.fds.Free n then
        ({ k with fds := k.fds.install n (.memfd k.nextMemfd), nextMemfd := k.nextMemfd + 1 }, n)
      else (k, -1)
  | none => (k, -1)

def recv (k : Kernel) (fd : Fd) (answer : Recv) : Kernel × Recv :=
  match k.fds.get fd, answer with
  | some (.conn c), .datagram d => (k.emit [.received c d], .datagram d)
  | _, _ => (k, .error)

/-- `sendmsg` with the descriptors as ancillary data; the peer gets the objects. -/
def sendmsg (k : Kernel) (fd : Fd) (message : MessageV1) (attached : List Fd)
    (answer : Bool) : Kernel × Bool :=
  match k.fds.get fd, attached.mapM k.fds.get with
  | some (.conn c), some objects =>
      if answer then (k.emit [.sent c message objects], true)
      else (k.emit [.unsent c message objects], false)
  | some (.conn c), none => (k.emit [.unsent c message []], false)
  | _, _ => (k, false)

/-- The kernel after the connection `c` was accepted at the number `n`. -/
def withConn (k : Kernel) (n : Nat) (c : ConnId) : Kernel :=
  { k with fds := k.fds.install n (.conn c), log := k.log ++ [.accepted c] }

/-- A connection is accepted once: `c` must not have been accepted before. -/
def accept4 (k : Kernel) (answer : Option (Nat × ConnId)) : Kernel × Fd :=
  match answer with
  | some (n, c) =>
      if k.fds.Free n ∧ Event.accepted c ∉ k.log then
        (k.withConn n c, n)
      else (k, -1)
  | none => (k, -1)

@[simp] theorem emit_fds (k : Kernel) (events : List Event) : (k.emit events).fds = k.fds := rfl
@[simp] theorem emit_nextMemfd (k : Kernel) (events : List Event) :
    (k.emit events).nextMemfd = k.nextMemfd := rfl
@[simp] theorem emit_log (k : Kernel) (events : List Event) :
    (k.emit events).log = k.log ++ events := rfl
@[simp] theorem emit_nil (k : Kernel) : k.emit [] = k := by
  simp only [emit, List.append_nil]
@[simp] theorem emit_emit (k : Kernel) (first second : List Event) :
    (k.emit first).emit second = k.emit (first ++ second) := by
  simp only [emit, List.append_assoc]

theorem close_of_open {k : Kernel} {fd : Fd} {o : Object} (h : k.fds.get fd = some o) :
    k.close fd = { k with fds := k.fds.remove fd, log := k.log ++ [.closed o] } := by
  simp only [close, h]

@[simp] theorem close_nextMemfd (k : Kernel) (fd : Fd) :
    (k.close fd).nextMemfd = k.nextMemfd := by
  unfold close
  split <;> rfl

theorem close_fds (k : Kernel) (fd : Fd) : (k.close fd).fds = k.fds.remove fd := by
  unfold close
  split
  · rfl
  · next h => exact (DescriptorTable.remove_of_closed h).symm

theorem memfdCreate_of_free {k : Kernel} {n : Nat} (h : k.fds.Free n) :
    k.memfdCreate (some n) =
      ({ k with fds := k.fds.install n (.memfd k.nextMemfd), nextMemfd := k.nextMemfd + 1 },
        (n : Fd)) := by
  simp only [memfdCreate, if_pos h]

/-- `memfd_create` either fails without effect or opens a new object at a free number. -/
theorem memfdCreate_cases (k : Kernel) (answer : Option Nat) :
    k.memfdCreate answer = (k, -1) ∨ ∃ n, answer = some n ∧ k.fds.Free n := by
  cases answer with
  | none => exact .inl rfl
  | some n =>
      by_cases h : k.fds.Free n
      · exact .inr ⟨n, rfl, h⟩
      · exact .inl (by simp only [memfdCreate, if_neg h])

theorem accept4_of_fresh {k : Kernel} {n : Nat} {c : ConnId} (hn : k.fds.Free n)
    (hc : Event.accepted c ∉ k.log) :
    k.accept4 (some (n, c)) = (k.withConn n c, (n : Fd)) := by
  simp only [accept4, if_pos (And.intro hn hc)]

theorem accept4_cases (k : Kernel) (answer : Option (Nat × ConnId)) :
    k.accept4 answer = (k, -1) ∨
      ∃ n c, answer = some (n, c) ∧ k.fds.Free n ∧ Event.accepted c ∉ k.log := by
  cases answer with
  | none => exact .inl rfl
  | some p =>
      by_cases h : k.fds.Free p.1 ∧ Event.accepted p.2 ∉ k.log
      · exact .inr ⟨p.1, p.2, rfl, h.1, h.2⟩
      · exact .inl (by simp only [accept4, if_neg h])

/-- A reply without descriptors on an open connection. -/
theorem sendmsg_plain {k : Kernel} {fd : Fd} {c : ConnId} (h : k.fds.get fd = some (.conn c))
    (message : MessageV1) (answer : Bool) :
    k.sendmsg fd message [] answer =
      (k.emit [if answer then .sent c message [] else .unsent c message []], answer) := by
  cases answer <;> simp [sendmsg, h]

theorem sendmsg_pair {k : Kernel} {fd first second : Fd} {c : ConnId} {p q : Object}
    (h : k.fds.get fd = some (.conn c)) (hp : k.fds.get first = some p)
    (hq : k.fds.get second = some q) (message : MessageV1) (answer : Bool) :
    k.sendmsg fd message [first, second] answer =
      (k.emit [if answer then .sent c message [p, q] else .unsent c message [p, q]], answer) := by
  cases answer <;> simp [sendmsg, h, hp, hq]

end Kernel

end Hyperglyph
