import OpenCmw.MdpTopic
import OpenCmw.Message
import OpenCmw.LongPollingBatch
import OpenCmw.Machine

/-!
# Sessions of the native REST client

`ClientSessionBase` and the callbacks of `Http2ClientSession`: a request is
submitted and recorded under the stream that the library gives it, the response
arrives header by header and chunk by chunk, and the end of the stream hands it
to `processResponse`. A subscription is a chain of long polls: the response to
one is delivered and the next index polled, a redirect is followed, and an
error either ends the subscription or is polled again.

The library is a record of the stream ids that it gives to the requests, one
after the other, and never twice; a negative one says that the request could
not be submitted. Callbacks are named by numbers; what a step calls is its
output. A computation that the source leaves undefined, an exception that
nothing catches and a loop without end are `none`.

Left out are the arrival times of messages, the headers of a request other
than its method, path and accepted type, and how a body is cut into frames.
-/

namespace OpenCmw.RestClient

open LongPolling

inductive SubscriptionMode where
  | next
  | last
  | none
  deriving DecidableEq, Repr

/-- `client::Command`, with the name of its callback. -/
structure ClientCommand where
  command : Command := .invalid
  topic : Uri .strict := rootUri
  callback : Option Nat := none
  clientRequestID : Bytes := []
  data : Bytes := []
  deriving DecidableEq

/-- What the client does not decide itself. -/
structure Environment where
  platform : Platform
  /-- `nghttp2_strerror`. -/
  strerror : Int → Bytes

def plainEnvironment : Environment := ⟨.inOrder, fun _ => str "error"⟩

inductive Output where
  /-- The callback of a GET or SET is called. -/
  | reply (callback : Nat) (message : BrokerMessage)
  /-- The callback of a subscription is called. -/
  | update (callback : Nat) (message : BrokerMessage)
  | submitted (streamId : Int) (method path accept body : Bytes)
  | cancelled (streamId : Int)
  /-- A callback of the library returned a failure; the library resets the
  stream. -/
  | rejected (streamId : Int)
  deriving DecidableEq

/-! ## Topics -/

def usesLongPollingBatch (topic : Uri .strict) : Except UriError Bool :=
  topic.queryParamMap.map fun parameters => decide (kBatchParameter ∈ parameters)

variable (platform : Platform)

def subscriptionKey (topic : Uri .strict) : Except TopicError Bytes := do
  let parameters ← topic.queryParamMap.mapError .uri
  let parameters := (parameters.erase kIndexParameter).erase kBatchParameter
  let subscriptionTopic ←
    (((UriFactory.ofUri topic).setQuery parameters).build platform).mapError .uri
  let topic ← Topic.fromMdpTopic subscriptionTopic
  return topic.toZmqTopic

/-- `takeInitialLongPollingIndex`: the index a topic starts with, the topic
without it, and the mode. -/
def takeInitialLongPollingIndex (topic : Uri .strict) (mode : SubscriptionMode) :
    Except Bytes (Option UInt64 × Uri .strict × SubscriptionMode) := do
  let parameters ← topic.queryParamMap.mapError fun e => platform.what (.uri e)
  let rest := ((UriFactory.ofUri topic).setQuery (parameters.erase kIndexParameter)).build platform
  match parameters.lookup kIndexParameter with
  | none => return (none, topic, mode)
  | some none => throw (str "LongPollingIdx requires a value")
  | some (some value) =>
    let (index, mode) ←
      if value = str "Next" then pure (none, .next)
      else if value = str "Last" then pure (none, .last)
      else (parseUnsigned value kIndexParameter).map fun index => (some index, mode)
    let topic ← rest.mapError fun e => platform.what (.uri e)
    return (index, topic, mode)

/-- `relativeRefNoFragment()`. -/
def relativeRefNoFragment (uri : Uri .strict) : Option Bytes :=
  if uri.parts.path.isEmpty && uri.parts.query.isEmpty then none
  else
    let optSlash := if uri.parts.path.isEmpty || startsWith uri.parts.path (str "/") then []
      else str "/"
    let qMark := if uri.parts.query.isEmpty || startsWith uri.parts.query (str "?") then []
      else str "?"
    some (optSlash ++ uri.parts.path ++ qMark ++ uri.parts.query)

/-! ## Requests -/

structure RequestResponse where
  request : ClientCommand := {}
  normalizedTopic : Bytes := []
  responseStatus : Bytes := []
  location : Bytes := []
  longPollingIdx : Option UInt64 := none
  payload : Bytes := []
  response : BrokerMessage := {}
  deriving DecidableEq

namespace RequestResponse

variable (rr : RequestResponse)

/-- The response with what `fillResponse` sets. -/
def fillResponse : BrokerMessage :=
  let response := { rr.response with protocolName := rr.request.topic.parts.scheme, rbac := [] }
  match rr.request.command with
  | .get | .set =>
    { response with command := .final, clientRequestID := rr.request.clientRequestID }
  | .subscribe => { response with command := .notify }
  | _ => response

/-- A call of the request's callback. -/
def call (message : BrokerMessage) : List Output :=
  match rr.request.callback with
  | none => []
  | some n =>
    [if rr.request.command = .subscribe then .update n message else .reply n message]

def reportError (error : Bytes) : List Output :=
  rr.call { rr.fillResponse with topic := rr.request.topic, error, data := [] }

end RequestResponse

structure Subscription where
  request : ClientCommand
  mode : SubscriptionMode
  lastReceivedLongPollingIdx : Option UInt64 := none
  callbacks : List (Option Nat) := []
  deriving DecidableEq

/-- The results of `nghttp2_submit_request2`, in order. -/
structure Library where
  results : Nat → Int
  distinct : ∀ i j, 0 ≤ results i → results i = results j → i = j
  submitted : Nat := 0

/-- The streams that a client opens have odd numbers. -/
def oddStreams : Library where
  results n := 2 * n + 1
  distinct i j _ h := by omega

structure Session where
  library : Library
  subscriptions : SortedMap Bytes Subscription := ∅
  requestsByStreamId : SortedMap Int RequestResponse := ∅

/-- The parameter that makes a request a long poll. -/
def pollParameter (mode : SubscriptionMode) : Option UInt64 → Option Bytes
  | some longPollIdx => some (toDec longPollIdx.toNat)
  | none =>
    match mode with
    | .next => some (str "Next")
    | .last => some (str "Last")
    | .none => none

/-- The URI that is requested. -/
def polledTopic (topic : Uri .strict) (parameter : Option Bytes) : Except UriError (Uri .strict) :=
  match parameter with
  | none => .ok topic
  | some value =>
    ((UriFactory.ofUri topic).addQueryParameter kIndexParameter (some value)).build platform

/-- What the record of a request is filed under; the text of the topic if that
fails. -/
def normalizedTopic (request : ClientCommand) : Bytes :=
  let key := if request.command = .subscribe then subscriptionKey platform request.topic
    else (Topic.fromMdpTopic request.topic).map Topic.toZmqTopic
  match key with
  | .ok key => key
  | .error _ => request.topic.str

namespace Session

variable (env : Environment) (s : Session)

def eraseRequest (streamId : Int) : Session :=
  { s with requestsByStreamId := s.requestsByStreamId.erase streamId }

/-- `submitRequestImpl`: the library's answer. -/
def nextStreamId : Int := s.library.results s.library.submitted

def record (env : Environment) (cmd : ClientCommand) : RequestResponse :=
  { request := { cmd with data := [] }, normalizedTopic := normalizedTopic env.platform cmd }

def submitRequest (cmd : ClientCommand) (mode : SubscriptionMode)
    (preferredMimeType : Bytes) (longPollIdx : Option UInt64) : Option (Session × List Output) :=
  match polledTopic env.platform cmd.topic (pollParameter mode longPollIdx) with
  | .error _ => none
  | .ok topic =>
    let rr := record env cmd
    let streamId := s.nextStreamId
    let s := { s with library := { s.library with submitted := s.library.submitted + 1 } }
    if streamId < 0 then
      some (s, rr.reportError (str "Could not submit request: " ++ env.strerror streamId))
    else
      some ({ s with requestsByStreamId := s.requestsByStreamId.tryEmplace streamId rr },
        [.submitted streamId (if cmd.command = .set then str "POST" else str "GET")
          ((relativeRefNoFragment topic).getD (str "/")) preferredMimeType cmd.data])

/-! ## Subscriptions -/

/-- The next poll of a subscription. -/
def pollSubscription (sub : Subscription) (mode : SubscriptionMode)
    (longPollIdx : Option UInt64) : Option (Session × List Output) :=
  s.submitRequest env sub.request mode [] longPollIdx

variable (zmqTopic : Bytes)

def setSubscription (sub : Subscription) : Session :=
  { s with subscriptions := s.subscriptions.insert zmqTopic sub }

def invokeSubscriptionCallbacks (sub : Subscription) (response : BrokerMessage) : List Output :=
  sub.callbacks.flatMap fun callback =>
    match callback with
    | some n => [.update n response]
    | none => []

/-- The loop of `sendLongPollRequests`. -/
def longPollLoop (sub : Subscription) : Nat → UInt64 → Session → Option (Session × List Output)
  | 0, _, s => some (s, [])
  | rounds + 1, longPollingIdx, s => do
    let (s, out) ← s.pollSubscription env sub sub.mode (some longPollingIdx)
    let (s, out') ← longPollLoop sub rounds (longPollingIdx + 1) s
    return (s, out ++ out')

/-- An upper end that no index exceeds is never passed. -/
def sendLongPollRequests
    (fromLongPollingIdx toLongPollingIdx : UInt64) : Option (Session × List Output) :=
  match s.subscriptions.find? zmqTopic with
  | none => some (s, [])
  | some sub =>
    if toLongPollingIdx = uint64Max then none
    else if fromLongPollingIdx ≤ toLongPollingIdx then
      longPollLoop env sub ((toLongPollingIdx - fromLongPollingIdx).toNat + 1) fromLongPollingIdx s
    else some (s, [])

def makeSkippedWarning (lastDelivered : Option UInt64) (index : UInt64) : Bytes :=
  match lastDelivered with
  | none => []
  | some last =>
    if index - last ≤ 1 then []
    else str "Warning: skipped " ++ toDec (index - last - 1).toNat ++ str " samples"

def handleSubscriptionResponse (longPollingIdx : UInt64)
    (response : BrokerMessage) (hasError : Bool) : Option (Session × List Output) :=
  match s.subscriptions.find? zmqTopic with
  | none => some (s, [])
  | some sub =>
    let last := sub.lastReceivedLongPollingIdx
    if !hasError && last.any (longPollingIdx ≤ ·) then
      s.pollSubscription env sub sub.mode (last.map (· + 1))
    else
      let response := if hasError then response
        else { response with error := makeSkippedWarning last longPollingIdx }
      let sub := { sub with lastReceivedLongPollingIdx := some longPollingIdx }
      ((s.setSubscription zmqTopic sub).pollSubscription env sub sub.mode
        (some (longPollingIdx + 1))).map fun r =>
          (r.1, r.2 ++ invokeSubscriptionCallbacks sub response)

/-- The messages of a batch that were not delivered before, and the last index
then delivered; `.error` if the topic of a part is no URI. -/
def batchMessages (response : BrokerMessage) :
    List BatchPart → Option UInt64 → Except UriError (List BrokerMessage × Option UInt64)
  | [], lastDelivered => .ok ([], lastDelivered)
  | part :: parts, lastDelivered =>
    if lastDelivered.any (part.index ≤ ·) then batchMessages response parts lastDelivered
    else do
      let topic ← Uri.ofBytes .strict part.topic
      let message := { response with
        topic, serviceName := part.serviceName, data := part.payload
        error := makeSkippedWarning lastDelivered part.index }
      let (messages, lastDelivered) ← batchMessages response parts (some part.index)
      return (message :: messages, lastDelivered)

def resumeSubscriptionAfterBatchError (response : BrokerMessage)
    (nextIndex : Option UInt64) : Option (Session × List Output) :=
  match s.subscriptions.find? zmqTopic with
  | none => some (s, [])
  | some sub =>
    let response := { response with topic := sub.request.topic, data := [] }
    (s.pollSubscription env sub .next nextIndex).map fun r =>
      (r.1, r.2 ++ invokeSubscriptionCallbacks sub response)

def handleSubscriptionBatchResponse (parts : List BatchPart)
    (response : BrokerMessage) : Option (Session × List Output) :=
  match s.subscriptions.find? zmqTopic with
  | none => some (s, [])
  | some sub =>
    match batchMessages response parts sub.lastReceivedLongPollingIdx with
    | .error e =>
      let error := str "Could not parse long-polling batch metadata: " ++ env.platform.what (.uri e)
      parts.getLast?.bind fun part =>
        s.resumeSubscriptionAfterBatchError env zmqTopic { response with error }
          (if part.index < uint64Max then some (part.index + 1) else none)
    | .ok (messages, lastDelivered) =>
      let sub := { sub with lastReceivedLongPollingIdx := lastDelivered }
      lastDelivered.bind fun last =>
        ((s.setSubscription zmqTopic sub).pollSubscription env sub sub.mode
          (some (last + 1))).map fun r =>
            (r.1, r.2 ++ messages.flatMap (invokeSubscriptionCallbacks sub))

def reportSubscriptionError (response : BrokerMessage) : Session × List Output :=
  match s.subscriptions.find? zmqTopic with
  | none => (s, [])
  | some sub =>
    ({ s with subscriptions := s.subscriptions.erase zmqTopic },
      invokeSubscriptionCallbacks sub response)

end Session

/-! ## Responses -/

/-- The index a redirect leads to, or what is reported. -/
def redirectIndex (location : Bytes) : Except Bytes UInt64 := do
  let parse := str "Could not parse redirect URI '" ++ location ++ str "': "
  let uri ← (Uri.ofBytes .strict location).mapError fun e => parse ++ platform.what (.uri e)
  let queryParams ← uri.queryParamMap.mapError fun e => parse ++ platform.what (.uri e)
  match queryParams.lookup kIndexParameter with
  | some (some value) =>
    match fromChars value with
    | some (longPollingIdx, _) => return longPollingIdx
    | none => throw (str "Could not parse numerical LongPollingIdx from '" ++ value ++ str "'")
  | _ => throw (str "Could not find LongPollingIdx in URI '" ++ location ++ str "'")

namespace RequestResponse

variable (rr : RequestResponse)

def hasError : Bool :=
  !startsWith rr.responseStatus (str "2") && !startsWith rr.responseStatus (str "3")

/-- The index to poll again if the server gave up waiting. -/
def timedOut : Option UInt64 :=
  if rr.responseStatus = str "504" then rr.longPollingIdx else none

/-- The response as it goes on to a callback. -/
def filled : BrokerMessage :=
  if rr.hasError then { rr.fillResponse with error := rr.payload }
  else { rr.fillResponse with data := rr.payload }

end RequestResponse

namespace Session

variable (env : Environment) (s : Session)

/-- The part of `processResponse` for subscriptions. -/
def processUpdate (rr : RequestResponse) : Option (Session × List Output) :=
  match usesLongPollingBatch rr.request.topic with
  | .error _ => none
  | .ok batch =>
    if rr.hasError then
      match batch, rr.longPollingIdx with
      | false, some index =>
        s.handleSubscriptionResponse env rr.normalizedTopic index rr.filled true
      | _, _ => some (s.reportSubscriptionError rr.normalizedTopic rr.filled)
    else if batch then
      match decodeBatch rr.payload with
      | .error e =>
        s.resumeSubscriptionAfterBatchError env rr.normalizedTopic
          { rr.fillResponse with error := str "Could not decode long-polling batch: " ++ e } none
      | .ok parts =>
        s.handleSubscriptionBatchResponse env rr.normalizedTopic parts rr.fillResponse
    else
      match rr.longPollingIdx with
      | none => some (s.reportSubscriptionError rr.normalizedTopic
          { rr.filled with
            error := str "Long-polling response is missing x-opencmw-long-polling-idx" })
      | some index => s.handleSubscriptionResponse env rr.normalizedTopic index rr.filled false

/-- What `processResponse` does with a response that is no redirect. -/
def respond (rr : RequestResponse) : Option (Session × List Output) :=
  match rr.timedOut with
  | some index => s.sendLongPollRequests env rr.normalizedTopic index index
  | none =>
    if rr.request.command = .subscribe then s.processUpdate env rr
    else some (s, rr.call rr.filled)

variable (streamId : Int)

def processResponse : Option (Session × List Output) :=
  match s.requestsByStreamId.find? streamId with
  | none => some (s, [])
  | some rr =>
    if rr.responseStatus = str "302" then
      match redirectIndex env.platform rr.location with
      | .error error =>
        some (s.eraseRequest streamId, rr.reportError error ++ [.rejected streamId])
      | .ok index =>
        (s.sendLongPollRequests env rr.normalizedTopic index index).map fun r =>
          (r.1.eraseRequest streamId, r.2)
    else (s.respond env rr).map fun r => (r.1.eraseRequest streamId, r.2)

/-! ## Callbacks of the library -/

/-- `_requestsByStreamId[streamId]` is changed, and made if there is none. -/
def updateRecord (f : RequestResponse → RequestResponse) : Session :=
  let rr := (s.requestsByStreamId.find? streamId).getD {}
  { s with requestsByStreamId := s.requestsByStreamId.insert streamId (f rr) }

/-- `addHeader`; `none` where it returns false. -/
def addHeader (name value : Bytes) : Option Session :=
  if name = str ":status" then
    some (s.updateRecord streamId fun rr => { rr with responseStatus := value })
  else if name = str "location" then
    some (s.updateRecord streamId fun rr => { rr with location := value })
  else if name = str "x-opencmw-topic" then
    match Uri.ofBytes .strict value with
    | .ok topic => some (s.updateRecord streamId fun rr =>
      { rr with response := { rr.response with topic } })
    | .error _ => none
  else if name = str "x-opencmw-service-name" then
    some (s.updateRecord streamId fun rr =>
      { rr with response := { rr.response with serviceName := value } })
  else if name = str "x-opencmw-long-polling-idx" then
    match fromChars value with
    | some (longPollingIdx, _) =>
      some (s.updateRecord streamId fun rr => { rr with longPollingIdx := some longPollingIdx })
    | none => none
  else some s

/-- `on_data_chunk_recv_callback`. -/
def addData (data : Bytes) : Session :=
  s.updateRecord streamId fun rr => { rr with payload := rr.payload ++ data }

/-! ## Starting and stopping -/

variable (command : ClientCommand)

/-- The error message of `startSubscription`. -/
def startError (error : Bytes) : List Output :=
  match command.callback with
  | none => []
  | some n => [.update n { command := .notify, topic := command.topic, error }]

def alreadyActive : Bytes :=
  str ("A subscription for this topic is already active; " ++
    "concurrent batch subscriptions are not supported")

def startSubscription (mode : SubscriptionMode) : Option (Session × List Output) :=
  match takeInitialLongPollingIndex env.platform command.topic mode with
  | .error e => some (s, startError command e)
  | .ok (initialIndex, topic, mode) =>
    let command := { command with topic }
    match usesLongPollingBatch topic, subscriptionKey env.platform topic with
    | .error e, _ => some (s, startError command (env.platform.what (.uri e)))
    | .ok _, .error e => some (s, startError command (env.platform.what e))
    | .ok usesBatch, .ok key =>
      match s.subscriptions.find? key with
      | some sub =>
        match usesLongPollingBatch sub.request.topic with
        | .error _ => if usesBatch then some (s, startError command alreadyActive) else none
        | .ok activeBatch =>
          if usesBatch || activeBatch then some (s, startError command alreadyActive)
          else
            some (s.setSubscription key { sub with
              request := command, mode, callbacks := sub.callbacks ++ [command.callback] }, [])
      | none =>
        let sub : Subscription :=
          { request := command, mode, callbacks := [command.callback]
            lastReceivedLongPollingIdx := initialIndex.bind fun index =>
              if index > 0 then some (index - 1) else none }
        (s.setSubscription key sub).submitRequest env command mode [] initialIndex

/-- The streams of a subscription. -/
def polls (key : Bytes) : List Int :=
  (s.requestsByStreamId.entries.filter fun e =>
    e.2.request.command = .subscribe ∧ e.2.normalizedTopic = key).map (·.1)

def stopSubscription : Session × List Output :=
  match subscriptionKey env.platform command.topic with
  | .error _ => (s, [])
  | .ok key =>
    match s.subscriptions.find? key with
    | none => (s, [])
    | some _ =>
      ({ s with
          requestsByStreamId := ⟨s.requestsByStreamId.entries.filter fun e =>
            ¬(e.2.request.command = .subscribe ∧ e.2.normalizedTopic = key),
            s.requestsByStreamId.sorted.filter _⟩
          subscriptions := s.subscriptions.erase key },
        (s.polls key).map .cancelled)

def reportErrorToAllPendingRequests (error : Bytes) : Session × List Output :=
  ({ s with requestsByStreamId := ∅ },
    s.requestsByStreamId.entries.flatMap fun e => e.2.reportError error)

end Session

end OpenCmw.RestClient
