import KeyedStore.Wire.Response

/-!
# Sharing out connections

An acceptor lets clients in and puts their connections into a bounded queue, from which workers take
them. A worker serves a connection for a while, and then closes it or puts it back into the queue. The
registry holds every connection that is open and limits their number. Each time that the acceptor or a
worker uses what they share (the queue, the registry, the order to stop) is a step of its own, and the
steps of all of them may come in any order.
-/

namespace KeyedStore

/-- What the acceptor does next. -/
inductive Acceptor where
  /-- It sees whether the service is to stop. -/
  | looking
  /-- It takes the next client, lets it in or turns it away. -/
  | accepting
  /-- It puts a connection that was let in into the queue. -/
  | sending (id : UInt64)
  /-- It takes no more clients, and ends the open connections. -/
  | leaving
  /-- It has ended the open connections, and waits for the workers. -/
  | gone
deriving DecidableEq, Repr

/-- What a worker does next. -/
inductive Worker where
  /-- It waits for a connection from the queue. -/
  | waiting
  | serving (id : UInt64)
  /-- It puts its connection back into the queue. -/
  | returning (id : UInt64)
  /-- It takes its connection, which is over, off the registry. -/
  | closing (id : UInt64)
  | ended
deriving DecidableEq, Repr

/-- The connection that the acceptor has. -/
def Acceptor.connection? : Acceptor → Option UInt64
  | sending id => some id
  | looking | accepting | leaving | gone => none

/-- The connection that a worker has. -/
def Worker.connection? : Worker → Option UInt64
  | serving id | returning id | closing id => some id
  | waiting | ended => none

/-- The acceptor, the workers, and what they share. -/
structure Dispatch where
  /-- The largest number of open connections. -/
  limit : Nat
  workers : List Worker
  acceptor : Acceptor := .looking
  /-- The connections that are open; a number is in it only once. -/
  registry : List UInt64 := []
  queue : List UInt64 := []
  /-- How many connections were ever let in. -/
  admitted : Nat := 0
  /-- Whether the service was told to stop. -/
  stopping : Bool := false
deriving DecidableEq, Repr

namespace Dispatch

/-- The service before the first client comes; it has at least one worker. -/
def start (limit workers : Nat) : Dispatch where
  limit
  workers := List.replicate (max workers 1) .waiting

def capacity (d : Dispatch) : Nat := max d.limit 1

def hasRoom (d : Dispatch) : Bool := d.queue.length < d.capacity

def admits (d : Dispatch) : Bool := d.registry.length < d.limit

/-- The number of the next connection. The numbers have 64 bits and start over when none is left. -/
def nextId (d : Dispatch) : UInt64 := .ofNat d.admitted

/-! ### Where connections are -/

/-- The connection that the acceptor is about to put into the queue. -/
def entering (d : Dispatch) : List UInt64 := d.acceptor.connection?.toList

/-- The connections that workers have. -/
def held (d : Dispatch) : List UInt64 := d.workers.filterMap Worker.connection?

/-- The connections with the acceptor, in the queue and with a worker. -/
def connections (d : Dispatch) : List UInt64 := d.entering ++ (d.queue ++ d.held)

/-! ### Steps -/

/-- Registers a new connection, which replaces another one of the same number. -/
def letIn (d : Dispatch) : Dispatch :=
  { d with
    acceptor := .sending d.nextId
    registry := d.registry.insert d.nextId
    admitted := d.admitted + 1 }

def forget (id : UInt64) (d : Dispatch) : Dispatch := { d with registry := d.registry.erase id }

def enqueue (id : UInt64) (d : Dispatch) : Dispatch := { d with queue := d.queue ++ [id] }

def setWorker (i : Nat) (w : Worker) (d : Dispatch) : Dispatch :=
  { d with workers := d.workers.set i w }

def allEnded (d : Dispatch) : Bool := d.workers.all (· = .ended)

/-- Ends a worker; what is in the queue is lost with the last one. -/
def endWorker (i : Nat) (d : Dispatch) : Dispatch :=
  { d.setWorker i .ended with
    queue := if (d.setWorker i .ended).allEnded then [] else d.queue }

/-- One step of the acceptor, of a worker, or of who tells the service to stop. -/
inductive Step (d : Dispatch) : Dispatch → Prop
  | look (ha : d.acceptor = .looking) (hs : d.stopping = false) :
      Step d { d with acceptor := .accepting }
  | leave (ha : d.acceptor = .looking) (hs : d.stopping = true) : Step d { d with acceptor := .leaving }
  /-- No client has come, or its connection could not be set up. -/
  | pass (ha : d.acceptor = .accepting) : Step d { d with acceptor := .looking }
  | refuse (ha : d.acceptor = .accepting) (hfull : d.admits = false) :
      Step d { d with acceptor := .looking }
  | letIn (ha : d.acceptor = .accepting) (hroom : d.admits = true) : Step d d.letIn
  /-- The acceptor waits until there is room in the queue. -/
  | send {id : UInt64} (ha : d.acceptor = .sending id) (hroom : d.hasRoom = true)
      (hw : d.allEnded = false) : Step d { d.enqueue id with acceptor := .looking }
  /-- The connection is given up, as there is no worker left to take it. -/
  | abandon {id : UInt64} (ha : d.acceptor = .sending id) (hw : d.allEnded = true) :
      Step d { d.forget id with acceptor := .leaving }
  /-- Every open connection is ended and forgotten, so that its worker will find it ended. -/
  | drain (ha : d.acceptor = .leaving) : Step d { d with acceptor := .gone, registry := [] }
  | receive {i : Nat} {id : UInt64} {rest : List UInt64} (hw : d.workers[i]? = some .waiting)
      (hq : d.queue = id :: rest) : Step d { d.setWorker i (.serving id) with queue := rest }
  | close {i : Nat} {id : UInt64} (hw : d.workers[i]? = some (.serving id)) :
      Step d (d.setWorker i (.closing id))
  /-- A worker interrupts its connection only when others are waiting. -/
  | interrupt {i : Nat} {id : UInt64} (hw : d.workers[i]? = some (.serving id)) (hq : d.queue ≠ []) :
      Step d (d.setWorker i (.returning id))
  | requeue {i : Nat} {id : UInt64} (hw : d.workers[i]? = some (.returning id))
      (hroom : d.hasRoom = true) : Step d ((d.setWorker i .waiting).enqueue id)
  /-- A worker does not wait for room in the queue, but drops its connection. -/
  | drop {i : Nat} {id : UInt64} (hw : d.workers[i]? = some (.returning id))
      (hfull : d.hasRoom = false) : Step d (d.setWorker i (.closing id))
  | deregister {i : Nat} {id : UInt64} (hw : d.workers[i]? = some (.closing id)) :
      Step d ((d.setWorker i .waiting).forget id)
  | finish {i : Nat} (hw : d.workers[i]? = some .waiting) (hs : d.stopping = true) :
      Step d (d.endWorker i)
  | stop : Step d { d with stopping := true }

/-- The states that a service with a limit and a number of workers can come to. -/
inductive Reachable (limit workers : Nat) : Dispatch → Prop
  | start : Reachable limit workers (start limit workers)
  | step {d d' : Dispatch} (hr : Reachable limit workers d) (hs : Step d d') : Reachable limit workers d'

end Dispatch

end KeyedStore
