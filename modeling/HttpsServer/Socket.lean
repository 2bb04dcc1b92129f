import HttpsServer.Machine
import HttpsServer.Transport

/-!
# HttpsServer.Socket

The members of `net::Socket` that pass descriptors on (`socket.hpp`,
`socket.cpp`): the constructors and the destructor, the moves, `close` and
`release`; and a program that calls them on any number of sockets, in any
order.

A descriptor is the number the system knows it by.  The system may hand out a
number again once it was given up, so what happens to a number is a sequence of
`Event`s and not one opening and one closing.
-/

namespace HttpsServer.Socket

/-- `Socket::InvalidHandle`. -/
abbrev invalidHandle : Int := -1

/-- What happens to a descriptor. -/
inductive Event where
  /-- A system call opened it, and a `Socket` was constructed from it. -/
  | acquired (fd : Int)
  /-- A member function made a system call on it. -/
  | used (fd : Int)
  /-- `::close` was called on it. -/
  | closed (fd : Int)
  /-- `release` returned it. -/
  | released (fd : Int)
  deriving DecidableEq

def Event.descriptor : Event → Int
  | .acquired fd | .used fd | .closed fd | .released fd => fd

/-! ## Members -/

/-- `Socket(Socket&& other)`: the new socket, and `other` after it. -/
def moveConstruct (other : Socket) : Socket × Socket :=
  ({ handle := other.handle }, { handle := invalidHandle })

/-- What `close` tells the system. -/
def closeCalls (s : Socket) : List Event := if s.valid then [.closed s.handle] else []

/-- `operator=(Socket&& other)` where `other` is another object: `this`, and
`other` after it.  The old descriptor is closed first (`closeCalls`). -/
def moveAssign (this other : Socket) : Socket × Socket :=
  ({ this.close with handle := other.handle }, { handle := invalidHandle })

/-- `release`: the socket after it, and the value it returns. -/
def release (s : Socket) : Socket × Int := ({ handle := invalidHandle }, s.handle)

/-- What a caller of `release` is handed out. -/
def handedOut (returned : Int) : List Event :=
  if returned = invalidHandle then [] else [.released returned]

/-- The system calls of every other member function (`bind`, `listen`,
`accept`, `receive`, `send`, the options and `shutdown`): each calls on
`handle_`, and none does without checking `valid` first. -/
def memberCalls (s : Socket) : List Event := if s.valid then [.used s.handle] else []

/-! ## Programs -/

/-- The `Socket` objects of a program in the order of their construction,
`none` once destroyed, and what their descriptors have seen. -/
structure Program where
  objects : List (Option Socket)
  log : List Event
  deriving DecidableEq

inductive Action where
  /-- `Socket()` -/
  | construct
  /-- `Socket(fd)`, as `tcp_ipv4`, `tcp_ipv6` and `accept` return it: the
  system has just opened `fd`. -/
  | acquire (fd : Int)
  | moveConstruct (other : Nat)
  | moveAssign (this other : Nat)
  /-- A member function makes one system call. -/
  | use (this : Nat)
  | close (this : Nat)
  | release (this : Nat)
  /-- `~Socket()` -/
  | destroy (this : Nat)
  deriving DecidableEq

namespace Program

/-- The object, if it has been constructed and not yet destroyed. -/
def object (p : Program) (i : Nat) : Option Socket := p.objects[i]?.join

/-- Some object holds the descriptor. -/
def owns (p : Program) (fd : Int) : Bool := p.objects.contains (some { handle := fd })

/-- What one operation does, where its operands are alive.  The system does
not open a descriptor that is open, so a fresh one is held by no object. -/
def step (p : Program) : Action → Option Program
  | .construct => some { p with objects := p.objects ++ [some {}] }
  | .acquire fd =>
    if fd = invalidHandle || p.owns fd then none
    else
      some
        { objects := p.objects ++ [some { handle := fd }]
          log := p.log ++ [.acquired fd] }
  | .moveConstruct j =>
    (p.object j).map fun other =>
      { p with
        objects := p.objects.set j (some other.moveConstruct.2) ++ [some other.moveConstruct.1] }
  | .moveAssign i j =>
    (p.object i).bind fun this => (p.object j).map fun other =>
      -- `this != &other`
      if i = j then p
      else
        { objects :=
            (p.objects.set i (some (this.moveAssign other).1)).set j (some (this.moveAssign other).2)
          log := p.log ++ this.closeCalls }
  | .use i => (p.object i).map fun this => { p with log := p.log ++ this.memberCalls }
  | .close i =>
    (p.object i).map fun this =>
      { objects := p.objects.set i (some this.close), log := p.log ++ this.closeCalls }
  | .release i =>
    (p.object i).map fun this =>
      { objects := p.objects.set i (some this.release.1), log := p.log ++ handedOut this.release.2 }
  | .destroy i =>
    (p.object i).map fun this =>
      { objects := p.objects.set i none, log := p.log ++ this.closeCalls }

/-- Programs made of these operations. -/
def machine : Machine Program Action where
  init := { objects := [], log := [] }
  step := step

end Program

end HttpsServer.Socket
