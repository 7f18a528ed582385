import OpenCmw.RestSession
import OpenCmw.Machine

/-!
# The REST server

`RestServer`: the sessions, the subscription cache and the id generator they
share, and the events that reach them - connections, the callbacks of the
HTTP libraries, the collection of requests, replies and notifications from
the broker.

The source's tables hold pointers. That matters for HTTP/3, where one session
stands in the table under each of its connection ids, so the tables here map
to addresses of a heap, and a loop over a table may come to one session more
than once.
-/

namespace OpenCmw

namespace Rest

/-- How a session is found: by socket or by QUIC connection id. -/
inductive Connection where
  | h2 (fd : Int)
  | h3 (cid : Bytes)
  deriving DecidableEq

structure Server where
  handlers : List Handler
  sessions : Nat → Session Int
  cache : SubscriptionCache := ∅
  h2Sessions : SortedMap Int Nat := ∅
  h3Sessions : UMap Bytes Nat := ∅
  nextRequestId : UInt64 := 0

/-- `handle` of `handleResponse` in the session that was found. -/
def Session.handleResponse {StreamId : Type} [LinearOrder StreamId] (s : Session StreamId)
    (id : UInt64) (message : BrokerMessage) : Session StreamId :=
  match s.pendingRequests.find? fun request => request.1 == id with
  | none => s
  | some (_, streamId) =>
    let code := if message.error.isEmpty then kHttpOk else kHttpError
    { s.sendResponse streamId (.message code message []) with
      pendingRequests := s.pendingRequests.eraseP fun request => request.1 == id }

namespace Server

def find (s : Server) : Connection → Option Nat
  | .h2 fd => s.h2Sessions.find? fd
  | .h3 cid => s.h3Sessions.lookup cid

variable (s : Server)

/-- The sessions in the order the loops go through them. -/
def pointers : List Nat :=
  s.h2Sessions.entries.map (·.2) ++ s.h3Sessions.entries.map (·.2)

def setSession (ptr : Nat) (session : Session Int) : Server :=
  { s with sessions := Function.update s.sessions ptr session }

/-- `handleResponse`; what follows the digits of the id is not looked at. -/
def handleResponse (s : Server) (message : BrokerMessage) : Server :=
  match fromChars message.clientRequestID with
  | none => s
  | some (id, _) =>
    match s.pointers.find? fun ptr =>
      (s.sessions ptr).pendingRequests.any fun request => request.1 == id with
    | none => s
    | some ptr => s.setSession ptr ((s.sessions ptr).handleResponse id message)

/-- The loops of `handleNotification` over the sessions. -/
def notifySessions (zmqTopic : Bytes) (index : UInt64) (message : BrokerMessage) :
    List Nat → Server → Option Server
  | [], s => some s
  | ptr :: ptrs, s =>
    ((s.sessions ptr).handleNotification s.cache zmqTopic index message).bind fun session =>
      notifySessions zmqTopic index message ptrs (s.setSession ptr session)

def handleNotification (topic : Topic) (message : BrokerMessage) : Option Server :=
  match s.cache.find? topic.toZmqTopic with
  | none => some s
  | some entry =>
    let entry := entry.add message
    notifySessions topic.toZmqTopic entry.lastIndex message s.pointers
      { s with cache := s.cache.insert topic.toZmqTopic entry }

/-- `getMessages` on one of the sessions. -/
def getMessages (platform : Platform) (s : Server) (ptr : Nat) :
    Option (Server × List BrokerMessage) :=
  (Work.getMessages platform ⟨s.cache, s.nextRequestId, s.sessions ptr, []⟩).map fun w =>
    ({ s.setSession ptr w.session with cache := w.cache, nextRequestId := w.nextRequestId },
      w.messages)

/-- A new session, at an address that no table holds. -/
def newSession (ptr : Nat) (accepts : Nat → Bool) : Option Server :=
  if ptr ∈ s.pointers then none else some (s.setSession ptr { library := { accepts } })

end Server

/-! ## Events -/

inductive Event where
  /-- A TCP connection; the library answers submissions by `accepts`. -/
  | acceptTcp (fd : Int) (ptr : Nat) (accepts : Nat → Bool)
  /-- A QUIC connection with its first connection ids. -/
  | acceptQuic (cids : List Bytes) (ptr : Nat) (accepts : Nat → Bool)
  /-- `associate_cid`. -/
  | associateCid (cid newCid : Bytes)
  /-- `_h2Sessions.erase`, when a handshake, a read or a write failed. -/
  | eraseTcp (fd : Int)
  /-- `_sessionsToRemove` is worked off. -/
  | eraseQuic (cids : List Bytes)
  /-- The unordered table comes to another order. -/
  | rehash (h3Sessions : UMap Bytes Nat)
  | header (connection : Connection) (streamId : Int) (name value : Bytes)
  | data (connection : Connection) (streamId : Int) (data : Bytes)
  /-- The end of a request's stream (`frame_recv_callback`, `end_stream`). -/
  | endStream (connection : Connection) (streamId : Int)
  | getMessages (connection : Connection)
  | frameSend (fd : Int) (streamId : Int) (endStream : Bool)
  | frameNotSend (fd : Int) (streamId : Int) (isData : Bool)
  | streamClosed (fd : Int) (streamId : Int)
  /-- `handleResponse`. -/
  | response (message : BrokerMessage)
  /-- `handleNotification`. -/
  | notification (topic : Topic) (message : BrokerMessage)

namespace Server

/-- A callback that concerns one session. -/
def onSession (s : Server) (connection : Connection)
    (callback : Session Int → Option (Session Int)) : Option (Server × List BrokerMessage) :=
  (s.find connection).bind fun ptr =>
    (callback (s.sessions ptr)).map fun session => (s.setSession ptr session, [])

/-- A callback about a stream; the library makes none for a closed one. -/
def onStream (s : Server) (connection : Connection) (streamId : Int)
    (callback : Session Int → Option (Session Int)) : Option (Server × List BrokerMessage) :=
  s.onSession connection fun session =>
    if streamId ∈ session.library.closed then none else callback session

def step (platform : Platform) (s : Server) : Event → Option (Server × List BrokerMessage)
  | .acceptTcp fd ptr accepts =>
    if fd ∈ s.h2Sessions.keys then none
    else (s.newSession ptr accepts).map fun s =>
      ({ s with h2Sessions := s.h2Sessions.insert fd ptr }, [])
  | .acceptQuic cids ptr accepts =>
    (s.newSession ptr accepts).map fun s =>
      ({ s with
        h3Sessions := cids.foldl (fun m cid => UMap.tryEmplace m cid ptr) s.h3Sessions }, [])
  | .associateCid cid newCid =>
    (s.h3Sessions.lookup cid).map fun ptr =>
      ({ s with h3Sessions := UMap.tryEmplace s.h3Sessions newCid ptr }, [])
  | .eraseTcp fd => some ({ s with h2Sessions := s.h2Sessions.erase fd }, [])
  | .eraseQuic cids =>
    some ({ s with h3Sessions := UMap.eraseIf s.h3Sessions fun cid _ => cids.contains cid }, [])
  | .rehash h3Sessions =>
    if h3Sessions.entries.Perm s.h3Sessions.entries then some ({ s with h3Sessions }, [])
    else none
  | .header connection streamId name value =>
    s.onStream connection streamId fun session => some (session.addHeader streamId name value)
  | .data connection streamId data =>
    s.onStream connection streamId fun session => some (session.addData streamId data)
  | .endStream connection streamId =>
    s.onStream connection streamId fun session =>
      session.processCompletedRequest platform s.handlers streamId
  | .getMessages connection => (s.find connection).bind (s.getMessages platform)
  | .frameSend fd streamId endStream =>
    s.onSession (.h2 fd) fun session => some (session.frameSendCallback streamId endStream)
  | .frameNotSend fd streamId isData =>
    s.onSession (.h2 fd) fun session => some (session.frameNotSendCallback streamId isData)
  | .streamClosed fd streamId =>
    s.onStream (.h2 fd) streamId fun session => some (session.streamClosedCallback streamId)
  | .response message => some (s.handleResponse message, [])
  | .notification topic message => (s.handleNotification topic message).map fun s => (s, [])

def machine (platform : Platform) : StepFn Server Event BrokerMessage := step platform

/-- Before the first connection. -/
def initial (handlers : List Handler) : Server where
  handlers := handlers
  sessions := fun _ => { library := { accepts := fun _ => true } }

end Server

end Rest

end OpenCmw
