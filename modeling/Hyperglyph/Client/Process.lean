import Hyperglyph.Broker.Kernel

/-! A PHP process as its system calls see it: the descriptor table, and a log of what it
opened, closed, mapped and allocated. The process numbered `c` makes the connection `c`. As
for the broker, every call takes the kernel's answer, and an answer the kernel cannot give is
read as failure. -/
namespace Hyperglyph

/-- The error numbers the client tells apart. -/
inductive Errno
  | again | proto | other
  deriving DecidableEq

inductive ProcessEvent
  | opened (o : Object)
  | closed (o : Object)
  | badUse (fd : Fd)
  | mapped (address size : UInt64) (o : Object)
  | unmapped (address size : UInt64)
  | allocated (address : UInt64)
  | freed (address : UInt64)
  deriving DecidableEq

structure Process where
  fds : DescriptorTable Object
  log : List ProcessEvent

/-- A control message of `recvmsg`. The kernel has installed the objects of an `SCM_RIGHTS`
message at the numbers that go with them; `ragged` marks a payload that is not a whole number
of descriptors. -/
inductive ControlMessage
  | other
  | rights (installed : List (Nat × Object)) (ragged : Bool)
  deriving DecidableEq

/-- Numbers and objects the message carries. -/
def ControlMessage.installed : ControlMessage → List (Nat × Object)
  | .other => []
  | .rights installed _ => installed

structure Reception where
  octets : List UInt8
  control : List ControlMessage
  controlTruncated : Bool
  deriving DecidableEq

def Reception.installed (r : Reception) : List (Nat × Object) :=
  r.control.flatMap ControlMessage.installed

/-- Opening the objects one after the other, if each number is free when it is used. -/
def installAll (t : DescriptorTable Object) : List (Nat × Object) → Option (DescriptorTable Object)
  | [] => some t
  | (n, o) :: rest => if t.Free n then installAll (t.install n o) rest else none

namespace Process

def start : Process := ⟨.empty, []⟩

def emit (p : Process) (events : List ProcessEvent) : Process := { p with log := p.log ++ events }

def close (p : Process) (fd : Fd) : Process :=
  match p.fds.get fd with
  | some o => { p with fds := p.fds.remove fd, log := p.log ++ [.closed o] }
  | none => p.emit [.badUse fd]

def socket (p : Process) (c : ConnId) (answer : Option Nat) : Process × Fd :=
  match answer with
  | some n =>
      if p.fds.Free n then
        ({ p with fds := p.fds.install n (.conn c), log := p.log ++ [.opened (.conn c)] }, n)
      else (p, -1)
  | none => (p, -1)

/-- `send` after the `EINTR` loop. The socket takes a message whole or not at all. -/
def send (p : Process) (fd : Fd) (answer : Except Errno Unit) : Process × Except Errno Unit :=
  match p.fds.get fd with
  | some (.conn _) => (p, answer)
  | _ => (p.emit [.badUse fd], .error .other)

/-- `recvmsg` after the `EINTR` loop. -/
def recvmsg (p : Process) (fd : Fd) (answer : Except Errno Reception) :
    Process × Except Errno Reception :=
  match p.fds.get fd with
  | some (.conn _) =>
      match answer with
      | .error e => (p, .error e)
      | .ok r =>
          match installAll p.fds r.installed with
          | some fds =>
              ({ p with fds, log := p.log ++ r.installed.map fun i => .opened i.2 }, .ok r)
          | none => (p, .error .other)
  | _ => (p.emit [.badUse fd], .error .other)

/-- `mmap` of a descriptor; `none` is `MAP_FAILED`. The kernel never maps address zero. -/
def mmap (p : Process) (fd : Fd) (size : UInt64) (answer : Option UInt64) :
    Process × Option UInt64 :=
  match p.fds.get fd, answer with
  | some o, some address =>
      if address = 0 then (p, none) else (p.emit [.mapped address size o], some address)
  | some _, none => (p, none)
  | none, _ => (p.emit [.badUse fd], none)

def munmap (p : Process) (address size : UInt64) (answer : Bool) : Process × Bool :=
  if answer then (p.emit [.unmapped address size], true) else (p, false)

/-- `calloc`; zero is `NULL`. -/
def calloc (p : Process) (answer : UInt64) : Process × UInt64 :=
  if answer = 0 then (p, 0) else (p.emit [.allocated answer], answer)

def free (p : Process) (address : UInt64) : Process := p.emit [.freed address]

@[simp] theorem emit_fds (p : Process) (events : List ProcessEvent) :
    (p.emit events).fds = p.fds := rfl

@[simp] theorem send_fds (p : Process) (fd : Fd) (answer : Except Errno Unit) :
    (p.send fd answer).1.fds = p.fds := by
  unfold send
  split <;> rfl

@[simp] theorem munmap_fds (p : Process) (address size : UInt64) (answer : Bool) :
    (p.munmap address size answer).1.fds = p.fds := by
  unfold munmap
  split <;> rfl

theorem close_fds (p : Process) (fd : Fd) : (p.close fd).fds = p.fds.remove fd := by
  unfold close
  split
  · rfl
  · next h => exact (DescriptorTable.remove_of_closed h).symm

@[simp] theorem calloc_fds (p : Process) (answer : UInt64) : (p.calloc answer).1.fds = p.fds := by
  unfold calloc
  split <;> rfl

@[simp] theorem mmap_fds (p : Process) (fd : Fd) (size : UInt64) (answer : Option UInt64) :
    (p.mmap fd size answer).1.fds = p.fds := by
  unfold mmap
  split
  · split <;> rfl
  · rfl
  · rfl

theorem mmap_ne_zero {p : Process} {fd : Fd} {size address : UInt64} {answer : Option UInt64}
    (h : (p.mmap fd size answer).2 = some address) : address ≠ 0 ∧ answer = some address := by
  unfold mmap at h
  split at h
  · split at h
    · cases h
    · next hne =>
        cases h
        exact ⟨hne, rfl⟩
  · cases h
  · cases h

theorem socket_cases (p : Process) (c : ConnId) (answer : Option Nat) :
    p.socket c answer = (p, -1) ∨ ∃ n, p.fds.Free n ∧ p.socket c answer =
      ({ p with fds := p.fds.install n (.conn c), log := p.log ++ [.opened (.conn c)] }, (n : Fd)) := by
  unfold socket
  split
  · next n =>
      split
      · next hfree => exact .inr ⟨n, hfree, rfl⟩
      · exact .inl rfl
  · exact .inl rfl

end Process

/-- Descriptors that were open stay what they were. -/
theorem get_installAll {t t' : DescriptorTable Object} {installed : List (Nat × Object)}
    (h : installAll t installed = some t') {fd : Fd} {o : Object} (ho : t.get fd = some o) :
    t'.get fd = some o := by
  induction installed generalizing t with
  | nil =>
      cases h
      exact ho
  | cons i rest ih =>
      simp only [installAll] at h
      split at h
      · next hfree => exact ih h (DescriptorTable.get_install_of_open hfree ho)
      · cases h

theorem installAll_self {t t' : DescriptorTable Object} {installed : List (Nat × Object)}
    (h : installAll t installed = some t') {n : Nat} {o : Object} (hi : (n, o) ∈ installed) :
    t'.get (n : Int) = some o := by
  induction installed generalizing t with
  | nil => cases hi
  | cons i rest ih =>
      simp only [installAll] at h
      split at h
      · rcases List.mem_cons.mp hi with heq | hrest
        · subst heq
          exact get_installAll h (DescriptorTable.get_install_self n o)
        · exact ih h hrest
      · cases h

end Hyperglyph
