/-
One `Client` shared by threads, and the daemon's thread for its connection.

A call holds the lock of the stream from its request to its last response. The bytes of
both directions are queues; a frame is written as a whole, since no reader can tell. The
daemon reads one request at a time and writes its frames before the next. The rest of
the state records history: the requests in the order of their sending, what the daemon
has written for each that it has read, and the calls that have returned.
-/

import PostgreOS.Daemon
import PostgreOS.Library.Transition

namespace PostgreOS.Protocol

open Library.Frames Library.Transition

inductive ClientError where
  | protocol (error : ProtocolError)
  | version (version : Nat)
  | remote (message : Text)
  | unexpectedResponse
  | poisoned
  deriving DecidableEq, Repr

/-- What a client makes of a response. -/
inductive Received where
  | answer (output : Output)
  | more (data : Bytes)
  | failed (error : ClientError)
  deriving DecidableEq, Repr

/-- The checks of `Client::call` and, for a stream, of `Client::stream_output`. -/
def receive (streaming : Bool) (response : Response) : Received :=
  if response.version ≠ VERSION then .failed (.version response.version)
  else
    match response.result with
    | .error error => .failed (.remote error.message)
    | .ok output =>
        if streaming = true then
          match output with
          | .data data => .more data
          | .searchDone found => .answer (.searchDone found)
          | _ => .failed .unexpectedResponse
        else .answer output

theorem receive_data (data : Bytes) : receive true (Response.data data) = .more data := rfl

theorem receive_final {streaming : Bool} {response : Response}
    (final : FinalResponse streaming response) :
    (∃ output, response = { version := VERSION, result := .ok output } ∧
      receive streaming response = .answer output) ∨
    ∃ error : RemoteError, response = { version := VERSION, result := .error error } ∧
      receive streaming response = .failed (.remote error.message) := by
  obtain ⟨version, result⟩ := response
  obtain ⟨rfl, ending⟩ := final
  cases result with
  | error error => exact Or.inr ⟨error, rfl, rfl⟩
  | ok output =>
      left
      refine ⟨output, rfl, ?_⟩
      cases streaming with
      | false => rfl
      | true =>
          obtain ⟨found, rfl⟩ := ending rfl output rfl
          rfl

/-- The call that holds the lock. `number` is the place of its request among those sent,
`written` what its output writer has taken. -/
structure Holder where
  thread : Nat
  request : Request
  number : Option Nat
  written : Bytes
  deriving DecidableEq, Repr

/-- A call that has given the lock back. -/
structure Returned extends Holder where
  result : Except ClientError Output
  writerFailed : Bool
  deriving DecidableEq, Repr

inductive Daemon where
  | idle
  | serving (frames : List (Response × Bytes)) (goesOn : Bool)
  | ended
  deriving DecidableEq, Repr

/-- The daemon with the frames that it has yet to write. -/
def Daemon.next (frames : List (Response × Bytes)) (goesOn : Bool) : Daemon :=
  if frames ≠ [] then .serving frames goesOn
  else if goesOn = true then .idle
  else .ended

structure Connection where
  volume : Text
  requests : Bytes
  responses : Bytes
  shutdown : Bool
  poisoned : Bool
  daemon : Daemon
  holder : Option Holder
  sent : List Request
  log : List (Request × List Response)
  returned : List Returned
  deriving DecidableEq, Repr

/-- `Client::connect`. -/
def Connection.connect (volume : Text) : Connection :=
  { volume := volume, requests := [], responses := [], shutdown := false, poisoned := false
    daemon := .idle, holder := none, sent := [], log := [], returned := [] }

/-- What the caller's output writer does with a piece of data. -/
inductive Writer where
  | accepts
  | fails
  | panics
  deriving DecidableEq, Repr

/-- The steps of the threads and of the daemon. A request that is written while the daemon
has gone may or may not be taken by the socket. -/
inductive Event where
  | lock (thread : Nat) (operation : Operation)
  | writeRequest (delivered : Bool)
  | readRequest (handling : Handling)
  | writeResponse
  | endService
  | readResponse (writer : Writer)

def Connection.finish (state : Connection) (holder : Holder) (result : Except ClientError Output)
    (writerFailed : Bool) : Connection :=
  { state with
    holder := none
    returned := state.returned ++
      [{ toHolder := holder, result := result, writerFailed := writerFailed }] }

/-- `self.stream.lock()?` and the request of the call. -/
def Connection.lock (state : Connection) (thread : Nat) (operation : Operation) :
    Option Connection :=
  let holder : Holder :=
    { thread := thread, request := .new state.volume operation, number := none, written := [] }
  match state.holder with
  | some _ => none
  | none =>
      if state.poisoned = true then some (state.finish holder (.error .poisoned) false)
      else some { state with holder := some holder }

/-- `write_frame(&mut *stream, &request)?`. -/
def Connection.writeRequest (codecs : Codecs) (state : Connection) (delivered : Bool) :
    Option Connection :=
  match state.holder with
  | none => none
  | some holder =>
      if holder.number ≠ none then none
      else
        match writeFrame codecs.request MAX_FRAME_SIZE holder.request with
        | .error error => some (state.finish holder (.error (.protocol (.frame error))) false)
        | .ok bytes =>
            if state.shutdown = true then
              some (state.finish holder (.error (.protocol .io)) false)
            else if delivered = true then
              some { state with
                requests := state.requests ++ bytes
                sent := state.sent ++ [holder.request]
                holder := some { holder with number := some state.sent.length } }
            else if state.daemon = .ended then
              some (state.finish holder (.error (.protocol .io)) false)
            else none

/-- The daemon reads a request and works out its frames. -/
def Connection.readRequest (codecs : Codecs) (state : Connection) (handling : Handling) :
    Option Connection :=
  if state.daemon ≠ .idle then none
  else
    match readFrame codecs.request MAX_FRAME_SIZE state.requests with
    | .incomplete => if state.shutdown = true then some { state with daemon := .ended } else none
    | .failed _ _ => some { state with daemon := .ended }
    | .value request rest =>
        let service := serveRequest codecs.response request handling
        some { state with
          requests := rest
          daemon := .next service.1 service.2
          log := state.log ++ [(request, [])] }

/-- The last request that the daemon has read gets one more response. -/
def addResponse (response : Response) : List (Request × List Response) →
    List (Request × List Response)
  | [] => []
  | [(request, responses)] => [(request, responses ++ [response])]
  | first :: rest => first :: addResponse response rest

def Connection.writeResponse (state : Connection) : Option Connection :=
  match state.daemon with
  | .serving (frame :: frames) goesOn =>
      some { state with
        responses := state.responses ++ frame.2
        daemon := .next frames goesOn
        log := addResponse frame.1 state.log }
  | _ => none

/-- `read_frame(&mut *stream)?` and what follows. A panic of the writer gives no result. -/
def Connection.readResponse (codecs : Codecs) (state : Connection) (writer : Writer) :
    Option Connection :=
  match state.holder with
  | none => none
  | some holder =>
      if holder.number = none then none
      else
        match readFrame codecs.response MAX_FRAME_SIZE state.responses with
        | .incomplete =>
            if state.daemon = .ended then
              some ({ state with responses := [] }.finish holder (.error (.protocol .io)) false)
            else none
        | .failed error rest =>
            some ({ state with responses := rest }.finish holder
              (.error (.protocol (.frame error))) false)
        | .value response rest =>
            let state := { state with responses := rest }
            match receive holder.request.operation.streaming response with
            | .answer output => some (state.finish holder (.ok output) false)
            | .failed error => some (state.finish holder (.error error) false)
            | .more data =>
                match writer with
                | .accepts =>
                    some { state with
                      holder := some { holder with written := holder.written ++ data } }
                | .fails =>
                    some ({ state with shutdown := true }.finish holder
                      (.error (.protocol .io)) true)
                | .panics =>
                    some ({ state with poisoned := true }.finish holder (.error .poisoned) true)

def Connection.step (codecs : Codecs) (state : Connection) : Event → Option Connection
  | .lock thread operation => state.lock thread operation
  | .writeRequest delivered => state.writeRequest codecs delivered
  | .readRequest handling => state.readRequest codecs handling
  | .writeResponse => state.writeResponse
  | .endService => some { state with daemon := .ended }
  | .readResponse writer => state.readResponse codecs writer

def Connection.Moves (codecs : Codecs) (before : Connection) (event : Event)
    (after : Connection) : Prop :=
  before.step codecs event = some after

def Connection.run (codecs : Codecs) (start : Connection) (events : List Event) :
    Option Connection :=
  events.foldlM (Connection.step codecs) start

end PostgreOS.Protocol
