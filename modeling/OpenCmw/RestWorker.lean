import OpenCmw.RestClientSteps
import OpenCmw.UriPort

/-!
# The worker of the native REST client

The worker thread of `RestClient` takes the commands off its queue in order,
makes a session for each endpoint it has not met, and lets the sessions read
and write. A session that fails is erased: with a report to all of its
requests if the connection could not be made or poll found an error, and
without one if reading or writing failed.

Whether a new session can be made is left open, and so is the library of each
(`created`). The queue is left out, and so are the sockets: anything may
happen to a session at any time. A port that is no number ends the process, as
`port()` is `noexcept`.
-/

namespace OpenCmw.RestClient

/-! ## Endpoints -/

structure Endpoint where
  scheme : Bytes
  host : Bytes
  port : UInt16
  deriving DecidableEq

/-- The port of a topic, or that of its scheme. -/
def portOf (topic : Uri .strict) : Option UInt16 :=
  let port := (parseHost topic.parts.authority).2
  if port.isEmpty then some (if topic.parts.scheme = str "https" then 443 else 80)
  else (stoi port).map fun value => UInt16.ofInt value

/-! ## Commands -/

structure Worker where
  mimeType : Bytes
  sessions : UMap Endpoint Session := ∅
  /-- How many commands were handled. -/
  handled : Nat := 0

def preferredMimeType (mimeType : Bytes) (topic : Uri .strict) : Except UriError Bytes :=
  topic.queryParamMap.map fun parameters =>
    match parameters.lookup (str "contentType") with
    | some (some value) => value
    | _ => mimeType

/-- The worker's own `reportError`. -/
def ClientCommand.reportError (cmd : ClientCommand) (error : Bytes) : List Output :=
  let msg : BrokerMessage :=
    { protocolName := cmd.topic.parts.scheme, command := .final
      clientRequestID := cmd.clientRequestID, topic := cmd.topic, error }
  match cmd.callback with
  | none => []
  | some n => [if cmd.command = .get ∨ cmd.command = .set then .reply n msg else .update n msg]

namespace Worker

variable (env : Environment) (w : Worker)

/-- `ensureSession`: the endpoint and its session, which may be new, or why
there is none. -/
def ensureSession (topic : Uri .strict) (created : Except Bytes Library) :
    Option (Except Bytes (Endpoint × Session)) :=
  let scheme := topic.parts.scheme
  let host := (parseHost topic.parts.authority).1
  if scheme ≠ str "http" ∧ scheme ≠ str "https" then
    some (.error (str "Unsupported protocol '" ++ scheme ++ str "' for endpoint '" ++ topic.str ++
      str "'"))
  else if host.isEmpty then
    some (.error (str "No host provided for endpoint '" ++ topic.str ++ str "'"))
  else (portOf topic).map fun port =>
    let endpoint : Endpoint := { scheme, host, port }
    match w.sessions.lookup endpoint with
    | some session => .ok (endpoint, session)
    | none => created.map fun library => (endpoint, { library })

def setSession (endpoint : Endpoint) (session : Session) : Worker :=
  { w with sessions := w.sessions.insert endpoint session }

/-- `sessions.erase`. -/
def eraseSession (endpoint : Endpoint) : Worker :=
  { w with sessions := w.sessions.erase endpoint }

/-- A command of a session; `failed` is what is reported if there is none. -/
def withSession (cmd : ClientCommand) (created : Except Bytes Library)
    (failed : Bytes) (f : Session → Option (Session × List Output)) :
    Option (Worker × List Output) :=
  (w.ensureSession cmd.topic created).bind fun found =>
    match found with
    | .error e => some (w, cmd.reportError (failed ++ str " '" ++ cmd.topic.str ++ str "': " ++ e))
    | .ok (endpoint, session) => (f session).map fun r => (w.setSession endpoint r.1, r.2)

def handleCommand (cmd : ClientCommand) (created : Except Bytes Library) :
    Option (Worker × List Output) :=
  let w := { w with handled := w.handled + 1 }
  match cmd.command with
  | .get | .set =>
    match preferredMimeType w.mimeType cmd.topic with
    | .error e => some (w, cmd.reportError (env.platform.what (.uri e)))
    | .ok preferred =>
      w.withSession cmd created (str "Could not create REST session for endpoint") fun session =>
        session.submitRequest env cmd .none preferred none
  | .subscribe =>
    w.withSession cmd created (str "Unsupported endpoint") fun session =>
      session.startSubscription env cmd .next
  | .unsubscribe =>
    w.withSession cmd created (str "Unsupported endpoint") fun session =>
      some (session.stopSubscription env cmd)
  | _ => none

end Worker

/-! ## Events -/

inductive WorkerEvent where
  | command (cmd : ClientCommand) (created : Except Bytes Library)
  /-- The library of a session calls back. -/
  | stream (endpoint : Endpoint) (event : StreamEvent)
  | writeFailed (endpoint : Endpoint)
  /-- Reading failed, or the connection ended. -/
  | readFailed (endpoint : Endpoint)
  | pollError (endpoint : Endpoint) (error : Bytes)
  | connectFailed (endpoint : Endpoint) (error : Bytes)

/-- An event of a session that is not there is none. -/
def Worker.step (env : Environment) (w : Worker) : WorkerEvent → Option (Worker × List Output)
  | .command cmd created => w.handleCommand env cmd created
  | .stream endpoint event =>
    (w.sessions.lookup endpoint).bind fun session =>
      (session.receive env event).map fun r => (w.setSession endpoint r.1, r.2)
  | .writeFailed endpoint | .readFailed endpoint =>
    (w.sessions.lookup endpoint).map fun _ => (w.eraseSession endpoint, [])
  | .pollError endpoint error | .connectFailed endpoint error =>
    (w.sessions.lookup endpoint).map fun session =>
      (w.eraseSession endpoint, (session.reportErrorToAllPendingRequests error).2)

end OpenCmw.RestClient
