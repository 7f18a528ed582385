import OpenCmw.MdpTopic
import OpenCmw.Message
import OpenCmw.LongPollingBatch
import OpenCmw.PartitionPoint

/-!
# Sessions of the REST server

`SessionBase` and the callbacks of `Http2Session`: requests arrive header by
header and chunk by chunk, are completed by the end of their stream,
collected by `getMessages` and answered - at once, when a worker replies, or,
for a long poll, when a notification comes.

The HTTP library behind a session is a record of its own (`Library`): the
responses it was given, whether it takes them, and the streams it has
reported closed. It accepts or refuses what it likes; all the model says of
it is that a closed stream gets no further callback, and that none is
reported closed twice.

A computation that the source leaves undefined - an index beyond the end of
the cached messages, an iterator at the end of a map, an exception nothing
catches - is `none`. Left out are the `x-timestamp` header, which is a clock
reading, and how a response is cut into header and data frames.
-/

namespace OpenCmw

namespace Rest

open LongPolling

/-! ## Requests -/

inductive RestMethod where
  | options
  | get
  | longPoll
  | post
  | invalid
  deriving DecidableEq, Repr

def parseMethod (methodString : Bytes) : RestMethod :=
  if methodString = str "OPTIONS" then .options
  else if methodString = str "PUT" then .post
  else if methodString = str "POST" then .post
  else if methodString = str "GET" then .get
  else .invalid

/-- A request as far as it was received. A topic of `none` is the
default-constructed one, which stands only where no method was read. -/
structure Request where
  rawHeaders : List (Bytes × Bytes) := []
  topic : Option Topic := none
  method : RestMethod := .invalid
  longPollIndex : Option Bytes := none
  longPollBatch : Option Bytes := none
  contentType : Bytes := []
  accept : Bytes := []
  payload : Bytes := []
  complete : Bool := false
  topic_set : topic = none → method = .invalid := by exact fun _ => rfl
  deriving DecidableEq

def acceptableMimeTypes : List Bytes :=
  [str "application/json", str "text/html", str "application/octet-stream"]

def isDelimiter (c : UInt8) : Bool := c == chr ' ' || c == chr ','

variable (request : Request)

/-- `acceptedMime()`: the content type, the topic's parameter of that name, the
first acceptable entry of the accept header, or the first acceptable type. -/
def acceptedMime (topic : Topic) : Bytes :=
  if acceptableMimeTypes.contains request.contentType then request.contentType
  else
    match topic.params.find? (str "contentType") with
    | some (some value) =>
      if acceptableMimeTypes.contains value then value else fromAccept
    | _ => fromAccept
where
  fromAccept : Bytes :=
    ((request.accept.splitOnP isDelimiter).find? acceptableMimeTypes.contains).getD
      (str "application/json")

/-! ## Responses -/

/-- `majordomo::rest::Response` with a body it owns. -/
structure RestResponse where
  code : Nat
  headers : List (Bytes × Bytes)
  body : Bytes := []
  deriving DecidableEq

/-- The two overloads of `sendResponse`. -/
inductive Response where
  | rest (response : RestResponse)
  | message (code : Nat) (message : BrokerMessage) (extraHeaders : List (Bytes × Bytes))
  deriving DecidableEq

def kHttpOk : Nat := 200
def kHttpBadRequest : Nat := 400
def kHttpError : Nat := 500
def kFileNotFound : Nat := 404

/-- The argument of an external handler. -/
structure HandlerRequest where
  method : Bytes
  path : Bytes
  headers : List (Bytes × Bytes)

structure Handler where
  method : Bytes
  path : Bytes
  handler : HandlerRequest → RestResponse

/-- `findHandler`, with the best match so far. -/
def findHandler (method path : Bytes) : List Handler → Option Handler → Option Handler
  | [], bestMatch => bestMatch
  | h :: handlers, bestMatch =>
    if h.method ≠ method then findHandler method path handlers bestMatch
    else if h.path = path then some h
    else if h.path.getLast? = some (chr '*') ∧ startsWith path h.path.dropLast = true ∧
        (∀ best ∈ bestMatch, best.path.length < h.path.length) then
      findHandler method path handlers (some h)
    else findHandler method path handlers bestMatch

/-! ## The subscription cache -/

def kCapacity : Nat := 100

structure SubscriptionCacheEntry where
  firstIndex : UInt64 := 0
  messages : List BrokerMessage := []

namespace SubscriptionCacheEntry

variable (entry : SubscriptionCacheEntry)

def add (message : BrokerMessage) : SubscriptionCacheEntry :=
  if entry.messages.length = kCapacity then
    { firstIndex := entry.firstIndex + 1, messages := entry.messages.tail ++ [message] }
  else { entry with messages := entry.messages ++ [message] }

def nextIndex : UInt64 :=
  entry.firstIndex + UInt64.ofNat entry.messages.length

/-- Asked of entries with messages only. -/
def lastIndex : UInt64 :=
  entry.firstIndex + UInt64.ofNat entry.messages.length - 1

end SubscriptionCacheEntry

abbrev SubscriptionCache := SortedMap Bytes SubscriptionCacheEntry

/-- `LongPollingBatchRequest::Mode`. -/
inductive BatchMode where
  | none
  | allAvailable
  | fixedCount
  deriving DecidableEq, Repr

structure LongPollingBatchRequest where
  mode : BatchMode := .none
  count : UInt64 := 1
  inRange : 1 ≤ count.toNat ∧ count.toNat ≤ kCapacity := by decide
  deriving DecidableEq

def parseLongPollingBatch : Except Bytes LongPollingBatchRequest :=
  match request.longPollBatch with
  | none => .ok {}
  | some batch =>
    if batch = kAllAvailable then .ok { mode := .allAvailable }
    else
      match parseUnsigned batch kBatchParameter with
      | .error e => .error e
      | .ok parsed =>
        if h : 1 ≤ parsed.toNat ∧ parsed.toNat ≤ kCapacity then
          .ok { mode := .fixedCount, count := parsed, inRange := h }
        else
          .error (str "LongPollingBatch must be between 1 and " ++ toDec kCapacity)

/-! ## Sessions -/

/-- The library's side of a connection: the responses `sendResponse` was
called with, whether the library accepts the `n`-th of them, and the streams
it has reported closed. -/
structure Library (StreamId : Type) where
  accepts : Nat → Bool
  submitted : List (StreamId × Response) := []
  closed : List StreamId := []

structure PendingPoll (StreamId : Type) where
  zmqTopic : Bytes
  index : UInt64
  batch : LongPollingBatchRequest
  streamId : StreamId

structure Session (StreamId : Type) [LinearOrder StreamId] where
  library : Library StreamId
  requestsByStreamId : SortedMap StreamId Request := ∅
  responsesByStreamId : SortedMap StreamId Response := ∅
  pendingRequests : List (UInt64 × StreamId) := []
  pendingPolls : List (PendingPoll StreamId) := []

variable {StreamId : Type} [LinearOrder StreamId]

namespace Session

variable (s : Session StreamId) (streamId : StreamId)

/-- `sendResponse`: a response that is already stored for the stream stays,
and one that the library refuses is not kept. -/
def sendResponse (response : Response) : Session StreamId :=
  let responses := s.responsesByStreamId.tryEmplace streamId response
  { s with
    responsesByStreamId :=
      if s.library.accepts s.library.submitted.length then responses
      else responses.erase streamId
    library := { s.library with submitted := s.library.submitted ++ [(streamId, response)] } }

def respondToCorsPreflight : Session StreamId :=
  s.sendResponse streamId (.rest
    { code := 204
      headers :=
        [(str "access-control-allow-methods", str "GET, POST, OPTIONS"),
         (str "access-control-allow-headers", str "content-type, accept"),
         (str "access-control-max-age", str "86400"), (str "content-length", str "0")] })

def idxHeaderName : Bytes := str "x-opencmw-long-polling-idx"

/-- What `respondToLongPoll` sends. -/
def pollResponse (index : UInt64) (message : BrokerMessage) : Response :=
  .message kHttpOk message [(idxHeaderName, toDec index.toNat)]

def respondToLongPoll (index : UInt64) (message : BrokerMessage) : Session StreamId :=
  s.sendResponse streamId (pollResponse index message)

/-- What `respondToLongPollWithError` sends. -/
def pollErrorResponse (error : Bytes) (code : Nat) (index : UInt64) : Response :=
  .message code { error } [(idxHeaderName, toDec index.toNat)]

def respondToLongPollWithError (error : Bytes) (code : Nat) (index : UInt64) : Session StreamId :=
  s.sendResponse streamId (pollErrorResponse error code index)

def respondWithError (error : Bytes) (code : Nat) : Session StreamId :=
  s.sendResponse streamId (.message code { error } [])

/-- The URI a client is sent on to. -/
def redirectFactory (topic : Uri .strict) (longPollIdx : UInt64) (batch : Option Bytes) :
    UriFactory :=
  let factory := (UriFactory.ofUri topic).addQueryParameter kIndexParameter
    (some (toDec longPollIdx.toNat))
  match batch with
  | some batch => factory.addQueryParameter kBatchParameter (some batch)
  | none => factory

def redirectResponse (location : Bytes) : Response :=
  .rest { code := 302, headers := [(str "location", location), (str "content-length", str "0")] }

def respondWithLongPollingRedirect (platform : Platform) (s : Session StreamId)
    (streamId : StreamId) (topic : Uri .strict) (longPollIdx : UInt64) (batch : Option Bytes) :
    Option (Session StreamId) :=
  match (redirectFactory topic longPollIdx batch).build platform with
  | .ok location => some (s.sendResponse streamId (redirectResponse location.str))
  | .error _ => none

/-- One part of a batch. -/
def batchPart (index : UInt64) (message : BrokerMessage) : BatchPart where
  index := index
  topic := message.topic.str
  serviceName := message.serviceName
  payload := if message.error.isEmpty then message.data else message.error

/-- The loop of `respondToLongPollBatch`. -/
def batchParts (entry : SubscriptionCacheEntry) (firstIndex count : UInt64) :
    Option (List BatchPart) :=
  let firstOffset := firstIndex - entry.firstIndex
  (List.range count.toNat).mapM fun offset =>
    entry.messages[(firstOffset + UInt64.ofNat offset).toNat]?.map
      (batchPart (firstIndex + UInt64.ofNat offset))

/-- What `respondToLongPollBatch` sends for its parts. -/
def batchResponse (firstIndex : UInt64) (parts : List BatchPart) : Response :=
  match encodeBatch parts with
  | .error e => pollErrorResponse e kHttpError firstIndex
  | .ok encoded => .rest
      { code := kHttpOk
        headers :=
          [(str "content-type", str "multipart/mixed; boundary=" ++ kBoundary),
           (str "content-length", toDec encoded.length), (idxHeaderName, toDec firstIndex.toNat)]
        body := encoded }

def respondToLongPollBatch
    (entry : SubscriptionCacheEntry) (firstIndex count : UInt64) : Option (Session StreamId) :=
  (batchParts entry firstIndex count).map fun parts =>
    s.sendResponse streamId (batchResponse firstIndex parts)

/-! ## Long polls -/

def addPoll (poll : PendingPoll StreamId) : Session StreamId :=
  { s with pendingPolls := s.pendingPolls ++ [poll] }

def overflowError : Bytes := str "LongPollingIdx + LongPollingBatch overflows"

/-- `index > max - (count - 1)`. -/
def overflows (index count : UInt64) : Bool := index > uint64Max - (count - 1)

/-- The part of `processLongPollRequest` for a numeric index. -/
def answerPoll (platform : Platform) (s : Session StreamId) (streamId : StreamId) (topic : Topic)
    (entry : SubscriptionCacheEntry) (index : UInt64) (batch : LongPollingBatchRequest) :
    Option (Session StreamId) :=
  match batch.mode with
  | .allAvailable =>
    if !entry.messages.isEmpty && index ≤ entry.lastIndex then
      let first := max index entry.firstIndex
      s.respondToLongPollBatch streamId entry first (entry.nextIndex - first)
    else some (s.addPoll ⟨topic.toZmqTopic, index, batch, streamId⟩)
  | .fixedCount =>
    let first := if entry.messages.isEmpty then index else max index entry.firstIndex
    if overflows first batch.count then
      some (s.respondToLongPollWithError streamId overflowError kHttpBadRequest first)
    else
      let lastRequested := first + batch.count - 1
      if entry.messages.isEmpty || lastRequested > entry.lastIndex then
        some (s.addPoll ⟨topic.toZmqTopic, first, batch, streamId⟩)
      else s.respondToLongPollBatch streamId entry first batch.count
  | .none =>
    if index < entry.firstIndex then
      s.respondWithLongPollingRedirect platform streamId (topic.toMdpTopic platform)
        entry.nextIndex none
    else if entry.messages.isEmpty || index > entry.lastIndex then
      some (s.addPoll ⟨topic.toZmqTopic, index, batch, streamId⟩)
    else
      entry.messages[(index - entry.firstIndex).toNat]?.map (s.respondToLongPoll streamId index)

end Session

/-- The index of a poll; `none` for "Next" and "Last". -/
def parsePollIndex : Except Bytes (Option UInt64) :=
  if request.longPollIndex ≠ some (str "Next") ∧ request.longPollIndex ≠ some (str "Last") then
    (parseUnsigned (request.longPollIndex.getD []) kIndexParameter).map some
  else .ok none

/-- The index and the batch of a poll, or the error response to it. -/
def parsePoll : Except Response (Option UInt64 × LongPollingBatchRequest) :=
  match parsePollIndex request with
  | .error e => .error (.message kHttpBadRequest { error := e } [])
  | .ok parsedIndex =>
    match parseLongPollingBatch request, parsedIndex with
    | .error e, some index => .error (Session.pollErrorResponse e kHttpBadRequest index)
    | .error e, none => .error (.message kHttpBadRequest { error := e } [])
    | .ok batch, some index =>
      if batch.mode = .fixedCount ∧ Session.overflows index batch.count = true then
        .error (Session.pollErrorResponse Session.overflowError kHttpBadRequest index)
      else .ok (some index, batch)
    | .ok batch, none => .ok (none, batch)

variable (platform : Platform)

/-- The subscription a first poll for a topic asks the broker for. -/
def subscribeMessage (topic : Topic) : BrokerMessage :=
  { command := .subscribe, topic := topic.toMdpTopic platform }

/-- What `getMessages` works on: the cache and the id generator, which all
sessions share, the session, and the messages collected so far. -/
structure Work (StreamId : Type) [LinearOrder StreamId] where
  cache : SubscriptionCache
  nextRequestId : UInt64
  session : Session StreamId
  messages : List BrokerMessage := []

namespace Work

variable (platform : Platform) (w : Work StreamId)

/-- `entry` is found or made; a made one asks for the subscription. -/
def requireEntry (topic : Topic) : SubscriptionCacheEntry × Work StreamId :=
  match w.cache.find? topic.toZmqTopic with
  | some entry => (entry, w)
  | none => ({}, { w with
      cache := w.cache.insert topic.toZmqTopic {}
      messages := w.messages ++ [subscribeMessage platform topic] })

def processLongPollRequest (streamId : StreamId)
    (request : Request) (topic : Topic) : Option (Work StreamId) :=
  match parsePoll request with
  | .error response => some { w with session := w.session.sendResponse streamId response }
  | .ok (parsedIndex, batch) =>
    let (entry, w) := w.requireEntry platform topic
    let session :=
      match parsedIndex with
      | some index => w.session.answerPoll platform streamId topic entry index batch
      | none =>
        let index :=
          if request.longPollIndex = some (str "Next") then entry.nextIndex
          else if entry.messages.isEmpty then entry.nextIndex
          else entry.lastIndex
        w.session.respondWithLongPollingRedirect platform streamId (topic.toMdpTopic platform)
          index request.longPollBatch
    session.map fun session => { w with session }

def processGetSetRequest (streamId : StreamId)
    (request : Request) (topic : Topic) : Work StreamId :=
  let topic := topic.addParam (str "contentType") (acceptedMime request topic)
  let id := w.nextRequestId
  { w with
    nextRequestId := id + 1
    session := { w.session with
      pendingRequests := w.session.pendingRequests ++ [(id, streamId)] }
    messages := w.messages ++ [
      { command := if request.method = .get then .get else .set
        serviceName := topic.service
        topic := topic.toMdpTopic platform
        data := request.payload
        clientRequestID := toDec id.toNat }] }

/-- One round of `getMessages`. -/
def handleRequest (entry : StreamId × Request) : Option (Work StreamId) :=
  let (streamId, request) := entry
  match request.method with
  | .options => some { w with session := w.session.respondToCorsPreflight streamId }
  | .get => request.topic.map (w.processGetSetRequest platform streamId request)
  | .post => request.topic.map (w.processGetSetRequest platform streamId request)
  | .longPoll => request.topic.bind (w.processLongPollRequest platform streamId request)
  | .invalid => some { w with
      session := w.session.respondWithError streamId (str "Invalid REST method") kHttpError }

end Work

namespace Session

/-- The requests `getMessages` collects: those before the partition point. -/
def completeEnd (s : Session StreamId) : Nat :=
  partitionPoint (fun entry => entry.2.complete) s.requestsByStreamId.entries

end Session

def Work.getMessages (w : Work StreamId) : Option (Work StreamId) :=
  let completeEnd := w.session.completeEnd
  ((w.session.requestsByStreamId.entries.take completeEnd).foldlM
    (Work.handleRequest platform) w).map fun w => { w with
      session := { w.session with
        requestsByStreamId := w.session.requestsByStreamId.eraseFirst completeEnd } }

/-! ## Notifications -/

namespace PendingPoll

def lastRequested (poll : PendingPoll StreamId) : UInt64 :=
  if poll.batch.mode = .fixedCount then poll.index + poll.batch.count - 1 else poll.index

def ready (poll : PendingPoll StreamId) (index : UInt64) : Bool :=
  if poll.batch.mode = .none then index == poll.index else index ≥ poll.lastRequested

end PendingPoll

namespace Session

/-- The answer to a poll that is ready. -/
def answerReady (cache : SubscriptionCache) (message : BrokerMessage) (s : Session StreamId)
    (poll : PendingPoll StreamId) : Option (Session StreamId) :=
  if poll.batch.mode = .none then some (s.respondToLongPoll poll.streamId poll.index message)
  else
    match cache.find? poll.zmqTopic with
    | none => some s
    | some entry =>
      if poll.batch.mode = .allAvailable then
        let first := max poll.index entry.firstIndex
        s.respondToLongPollBatch poll.streamId entry first (entry.nextIndex - first)
      else s.respondToLongPollBatch poll.streamId entry poll.index poll.batch.count

/-- The loop of `handleNotification` over the polls, with those it keeps. -/
def notifyPolls (cache : SubscriptionCache) (zmqTopic : Bytes) (index : UInt64)
    (message : BrokerMessage) :
    List (PendingPoll StreamId) → Session StreamId →
      Option (List (PendingPoll StreamId) × Session StreamId)
  | [], s => some ([], s)
  | poll :: polls, s =>
    if poll.zmqTopic = zmqTopic ∧ poll.ready index = true then
      (s.answerReady cache message poll).bind (notifyPolls cache zmqTopic index message polls)
    else
      (notifyPolls cache zmqTopic index message polls s).map fun r => (poll :: r.1, r.2)

def handleNotification (cache : SubscriptionCache) (zmqTopic : Bytes) (index : UInt64)
    (message : BrokerMessage) (s : Session StreamId) : Option (Session StreamId) :=
  (notifyPolls cache zmqTopic index message s.pendingPolls s).map fun r =>
    { r.2 with pendingPolls := r.1 }

/-! ## Callbacks -/

def addData (s : Session StreamId) (streamId : StreamId) (data : Bytes) : Session StreamId :=
  let request := (s.requestsByStreamId.find? streamId).getD {}
  { s with
    requestsByStreamId := s.requestsByStreamId.insert streamId
      { request with payload := request.payload ++ data } }

def addHeader (s : Session StreamId) (streamId : StreamId) (name value : Bytes) :
    Session StreamId :=
  let request := (s.requestsByStreamId.find? streamId).getD {}
  { s with
    requestsByStreamId := s.requestsByStreamId.insert streamId
      { request with rawHeaders := request.rawHeaders ++ [(name, value)] } }

end Session

/-- What `processCompletedRequest` takes from the headers. -/
structure HeaderValues where
  path : Bytes := []
  method : Bytes := []
  contentType : Bytes := []
  accept : Bytes := []

def readHeader (values : HeaderValues) (header : Bytes × Bytes) : HeaderValues :=
  if header.1 = str ":path" then { values with path := header.2 }
  else if header.1 = str ":method" then { values with method := header.2 }
  else if header.1 = str "content-type" then { values with contentType := header.2 }
  else if header.1 = str "accept" then { values with accept := header.2 }
  else values

/-- What `processCompletedRequest` takes from the parameters of the path. -/
structure Target where
  factory : UriFactory
  longPollIndex : Option Bytes := none
  longPollBatch : Option Bytes := none
  subscriptionContext : Option Topic := none

def readParam (target : Target) (param : Bytes × Option Bytes) : Except TopicError Target :=
  if param.1 = kIndexParameter then
    .ok { target with longPollIndex := some (param.2.getD []) }
  else if param.1 = kBatchParameter then
    .ok { target with longPollBatch := some (param.2.getD []) }
  else if param.1 = str "SubscriptionContext" then do
    let uri ← (Uri.ofBytes .strict (param.2.getD [])).mapError .uri
    let topic ← Topic.fromMdpTopic uri
    return { target with subscriptionContext := some topic }
  else .ok { target with factory := target.factory.addQueryParameter param.1 param.2 }

/-- The topic of a path, with the parameters of a poll. -/
def parseTarget (path : Bytes) : Except TopicError (Topic × Target) := do
  let pathUri ← (Uri.ofBytes .strict path).mapError .uri
  let queryMap ← pathUri.queryParamMap.mapError .uri
  let target ← (platform.iterate queryMap).foldlM readParam
    { factory := (UriFactory.ofUri pathUri).setQuery ∅ }
  match target.subscriptionContext with
  | some topic => return (topic, target)
  | none =>
    let uri ← (target.factory.build platform).mapError .uri
    let topic ← Topic.fromMdpTopic uri
    return (topic, target)

/-- The request once its path was read. -/
def Request.completed (values : HeaderValues) (topic : Topic) (target : Target) : Request :=
  { request with
    contentType := values.contentType
    accept := values.accept
    topic := some topic
    longPollIndex := target.longPollIndex
    longPollBatch := target.longPollBatch
    method :=
      if parseMethod values.method = .get ∧
          (target.longPollIndex.isSome ∨ target.longPollBatch.isSome) then .longPoll
      else parseMethod values.method
    complete := true
    topic_set := nofun }

namespace Session

variable (s : Session StreamId) (streamId : StreamId)

def eraseRequest : Session StreamId :=
  { s with requestsByStreamId := s.requestsByStreamId.erase streamId }

def processCompletedRequest (platform : Platform) (handlers : List Handler)
    (s : Session StreamId) (streamId : StreamId) : Option (Session StreamId) :=
  match s.requestsByStreamId.find? streamId with
  | none => none
  | some request =>
    let values := request.rawHeaders.foldl readHeader {}
    match findHandler values.method values.path handlers none with
    | some handler =>
      let response := handler.handler ⟨values.method, values.path, request.rawHeaders⟩
      some ((s.sendResponse streamId (.rest response)).eraseRequest streamId)
    | none =>
      let path := if values.path = str "/" then str "/mmi.service" else values.path
      match parseTarget platform path with
      | .error (.uri .indeterminate) => none
      | .error e =>
        let response : BrokerMessage := { error := platform.what e }
        some ((s.sendResponse streamId (.message kFileNotFound response [])).eraseRequest streamId)
      | .ok (topic, target) =>
        some { s with
          requestsByStreamId := s.requestsByStreamId.insert streamId
            (request.completed values topic target) }

def eraseResponse : Session StreamId :=
  { s with responsesByStreamId := s.responsesByStreamId.erase streamId }

def frameSendCallback (endStream : Bool) : Session StreamId :=
  if endStream then s.eraseResponse streamId else s

def frameNotSendCallback (isData : Bool) : Session StreamId :=
  if isData then s.eraseResponse streamId else s

/-- `stream_closed_callback`; the library will not name the stream again. -/
def streamClosedCallback : Session StreamId :=
  let erased := (s.responsesByStreamId.find? streamId).isSome
  let s := { s.eraseResponse streamId with
    library := { s.library with closed := streamId :: s.library.closed } }
  if erased then
    { s with
      pendingRequests := s.pendingRequests.filter fun request => request.2 ≠ streamId
      pendingPolls := s.pendingPolls.filter fun poll => poll.streamId ≠ streamId }
  else s

end Session

end Rest

end OpenCmw
