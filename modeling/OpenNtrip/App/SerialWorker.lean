import OpenNtrip.App.CorrQueue

/-!
# The serial worker and its switch

`run` of `workers/serial.rs`, one step for each access to the queue, the cancel flag or the port,
and `toggle_serial` of the window. Workers, user interface and the pushes of the NTRIP worker
interleave in any order. A stop waits for its worker at most 2 s and a port may take any time, so
the wait may end whether or not the worker has.
-/

namespace OpenNtrip

/-- Where a serial worker stands. `opened` is the point before `set_active(true)`, `looping` the
guard of the forwarding loop, `draining` the guard of `drain_corrections`, `writing` the guard of
`forward_block`, and `sending` and `reading` are calls of the port. -/
inductive SerialPoint where
  | opening
  | opened
  | configuring (left : Nat)
  | looping
  | draining
  | popping
  | writing (rest : Bytes)
  | sending (rest : Bytes)
  | reading
  | deactivating
  | clearing
  | ended
  deriving DecidableEq, Repr

/-- A serial worker: its point, its cancel flag, whether it has failed, and the number of commands
with which it configures the receiver. -/
structure SerialWorker where
  point : SerialPoint
  cancel : Bool
  failed : Bool
  commands : Nat
  deriving DecidableEq, Repr

/-- How a call of the port ends. `ok n` says of a write that it accepted `n` bytes. -/
inductive PortOutcome where
  | ok (n : Nat)
  | error
  deriving DecidableEq, Repr

namespace SerialWorker

/-- `spawn`. The auto-configuration of a receiver sends 4 commands. -/
def spawn (autoconfig : Bool) : SerialWorker where
  point := .opening
  cancel := false
  failed := false
  commands := if autoconfig then 4 else 0

/-- One step of `run`. -/
def step (w : SerialWorker) (queue : CorrQueue) (outcome : PortOutcome) :
    Option (SerialWorker × CorrQueue) :=
  match w.point with
  | .opening =>
    match outcome with
    | .ok _ => some ({ w with point := .opened }, queue)
    | .error => some ({ w with point := .ended }, queue)
  | .opened => some ({ w with point := .configuring w.commands }, queue.storeActive true)
  | .configuring 0 => some ({ w with point := .looping }, queue)
  | .configuring (left + 1) =>
    match outcome with
    | .ok _ => some ({ w with point := .configuring left }, queue)
    | .error => some ({ w with point := .looping, failed := true }, queue)
  | .looping =>
    some ({ w with point := if w.failed || w.cancel then .deactivating else .draining }, queue)
  | .draining => some ({ w with point := if w.cancel then .reading else .popping }, queue)
  | .popping =>
    match queue.tryPop with
    | (queue, none) => some ({ w with point := .reading }, queue)
    | (queue, some block) => some ({ w with point := .writing block }, queue)
  | .writing rest =>
    some ({ w with
      point := if rest.isEmpty || w.cancel then .draining else .sending rest }, queue)
  | .sending rest =>
    match outcome with
    | .ok (n + 1) => some ({ w with point := .writing (rest.drop (n + 1)) }, queue)
    | .ok 0 | .error => some ({ w with point := .deactivating, failed := true }, queue)
  | .reading =>
    match outcome with
    | .ok _ => some ({ w with point := .looping }, queue)
    | .error => some ({ w with point := .looping, failed := true }, queue)
  | .deactivating => some ({ w with point := .clearing }, queue.storeActive false)
  | .clearing => some ({ w with point := .ended }, queue.clear)
  | .ended => none

/-- The worker is in its forwarding loop. -/
def forwards (w : SerialWorker) : Bool :=
  match w.point with
  | .looping | .draining | .popping | .writing _ | .sending _ | .reading => true
  | _ => false

/-- The worker has activated the queue and means to go on: it has not failed and is not cancelled.
-/
def serves (w : SerialWorker) : Bool :=
  (w.forwards || w.point matches .configuring _) && !w.cancel && !w.failed

/-- The worker has not opened its port yet, or has ended. -/
def atRest (w : SerialWorker) : Bool := w.point = .opening || w.point = .ended

end SerialWorker

/-- The queue, all serial workers in the order they were started, the worker whose handle the user
interface holds, and the worker that a stop waits for. -/
structure SerialSystem where
  queue : CorrQueue
  workers : List SerialWorker
  slot : Option Nat
  joining : Option Nat
  deriving DecidableEq, Repr

/-- What can happen: `toggle_serial` starts or stops a worker, its wait ends, a frame reaps a worker
that ended by itself, the NTRIP worker pushes a block, or a serial worker takes a step. -/
inductive SerialEvent where
  | start (autoconfig : Bool)
  | stop
  | joined
  | reap
  | push (bytes : Bytes)
  | work (i : Nat) (outcome : PortOutcome)
  deriving DecidableEq, Repr

namespace SerialSystem

def init (cap : Nat) : SerialSystem where
  queue := CorrQueue.new cap
  workers := []
  slot := none
  joining := none

/-- One step of the system. -/
def next (s : SerialSystem) : SerialEvent → Option SerialSystem
  | .start autoconfig =>
    match s.joining, s.slot with
    | none, none =>
      some { s with
        workers := s.workers ++ [SerialWorker.spawn autoconfig]
        slot := some s.workers.length }
    | _, _ => none
  | .stop =>
    match s.joining, s.slot with
    | none, some i =>
      match s.workers[i]? with
      | some w =>
        some { s with
          workers := s.workers.set i { w with cancel := true }, slot := none, joining := some i }
      | none => none
    | _, _ => none
  | .joined => s.joining.map fun _ => { s with joining := none }
  | .reap =>
    match s.joining, s.slot with
    | none, some i =>
      match s.workers[i]? with
      | some w => if w.point = .ended then some { s with slot := none } else none
      | none => none
    | _, _ => none
  | .push bytes => some { s with queue := (s.queue.push bytes).1 }
  | .work i outcome =>
    match s.workers[i]? with
    | some w =>
      (w.step s.queue outcome).map fun (w, queue) => { s with workers := s.workers.set i w, queue }
    | none => none

end SerialSystem
end OpenNtrip
