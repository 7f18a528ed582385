import OpenCmw.BrokerDns
import OpenCmw.ServiceQueue

/-!
# The broker

`majordomo::Broker`: one function per member function, on the part of the
state that the member function touches. `Subscriptions`, `Pool` and `Dns`
group the members `_subscribedTopics` and `_subscribedClientsByTopic`,
`_workers` and `_services`, `_dnsCache`, `_dnsAddresses` and
`_dnsHeartbeatAt`; what a function cannot reach it does not take.

A waiting worker is a raw pointer into `_workers` in the source. Here every
worker has an address of its own, a service's `waiting` holds addresses, and
dereferencing one that no worker has any more is a `Fault`, as is everything
else after which the program is in no defined state.

What the broker sends is recorded with the place it is sent from (`Output`);
arguments that are not part of the message on the wire say what it was sent
for. Clock readings come with the event (`Clock`). The order in which an
unordered map is iterated may change at any time (`Event.rehash`).
-/

namespace OpenCmw

/-! ## Configuration and state -/

/-- `mdp::Settings` and `majordomo::Settings`; durations in milliseconds. -/
structure Settings where
  heartbeatLiveness : Int := 3
  heartbeatInterval : Int := 1000
  clientTimeout : Int := 10000
  dnsTimeout : Int := 10000

/-- What is set up before the broker runs: its roles are those of the
template, by name, and `restServer` says whether `bindRest` was called. -/
structure Config where
  brokerName : Bytes
  settings : Settings := {}
  roles : List Bytes := []
  restServer : Bool := false
  rbacHandler : Option (BrokerMessage → BrokerMessage) := none
  filters : Filters := ∅

/-- The `Clock::now()` readings of one step, by where they are made:
`arrival` when a client or worker is first seen or renewed, `waiting` in
`workerWaiting`, `purge` in `purgeWorkers`, `dns` in `updatedDnsExpiry` and
`dnsCheck` in `sendDnsHeartbeats`. -/
structure Clock where
  arrival : Int := 0
  waiting : Int := 0
  purge : Int := 0
  dns : Int := 0
  dnsCheck : Int := 0

inductive Socket where
  | router
  | pub
  | sub
  | dns
  deriving DecidableEq, Repr

structure Client where
  socket : Option Socket
  id : Bytes
  requests : List BrokerMessage := []
  expiry : Int := 0
  deriving DecidableEq

/-- `addr` is the address of the worker, which no other worker ever has. -/
structure Worker where
  addr : Nat
  socket : Socket
  id : Bytes
  serviceName : Bytes
  expiry : Int
  deriving DecidableEq

/-- The handlers of the internal services. -/
inductive InternalHandler where
  | dns
  | echo
  | service
  | openapi
  deriving DecidableEq, Repr

structure Service where
  internalHandler : Option InternalHandler
  name : Bytes
  description : Bytes
  waiting : List Nat
  requests : RequestQueue
  deriving DecidableEq

structure Pool where
  workers : UMap Bytes Worker
  services : UMap Bytes Service
  nextAddr : Nat
  deriving DecidableEq

structure Subscriptions where
  subscribedClientsByTopic : UMap Topic (SortedMap Bytes Unit)
  subscribedTopics : UMap Topic Int
  deriving DecidableEq

structure Dns where
  dnsCache : DnsCache
  dnsAddresses : SortedMap Bytes (Uri .strict)
  dnsHeartbeatAt : Int
  deriving DecidableEq

structure Broker where
  subscriptions : Subscriptions
  clients : UMap Bytes Client
  pool : Pool
  dns : Dns
  heartbeatAt : Int
  deriving DecidableEq

/-- Why a step has no defined result. -/
inductive Fault where
  /-- A pointer to a worker that was erased is dereferenced. -/
  | dangling
  /-- `_services.find(...)` is `end()` and is dereferenced. -/
  | noService
  /-- The assertion in `takeNextMessage` fails. -/
  | assertion
  /-- The subscription count of a topic overflows. -/
  | overflow
  /-- An exception leaves the broker. -/
  | exception
  /-- A topic is decoded from a number that was never read. -/
  | indeterminate
  deriving DecidableEq, Repr

/-- Where a reply to a client comes from. -/
inductive Origin where
  | worker (id : Bytes)
  | internal
  | unknownService
  deriving DecidableEq, Repr

inductive Output where
  /-- `dispatch`: a request of the service's queue to a worker. -/
  | request (service : Bytes) (socket : Socket) (message : BrokerMessage)
  /-- A reply to the client with that id. -/
  | reply (origin : Origin) (client : Bytes) (socket : Socket) (message : BrokerMessage)
  /-- `_restServer->handleResponse`. -/
  | restResponse (origin : Origin) (message : BrokerMessage)
  /-- A notification on the publisher socket, for that subscription. -/
  | publication (topic : Topic) (message : BrokerMessage)
  /-- A notification to a router client, for that subscription. -/
  | notification (topic : Topic) (message : BrokerMessage)
  /-- `_restServer->handleNotification`. -/
  | restNotification (topic : Topic) (message : BrokerMessage)
  | serviceNames (message : BrokerMessage)
  | disconnect (socket : Socket) (message : BrokerMessage)
  | heartbeat (socket : Socket) (message : BrokerMessage)
  | dnsChallenge (message : BrokerMessage)
  | dnsReady (message : BrokerMessage)
  /-- `ZMQ_SUBSCRIBE` or `ZMQ_UNSUBSCRIBE` on the subscriber socket. -/
  | subSocket (subscribe : Bool) (topic : Bytes)
  deriving DecidableEq

def kRestSourceId : Bytes := str "rest"

/-- `_rbac`. -/
def brokerRbac : Bytes := str "RBAC=ADMIN,abcdef12345"

def internalServiceNames : Bytes := str "/mmi.service"

def internalServiceNamesUri : Uri .strict where
  str := internalServiceNames
  parts := { path := internalServiceNames }
  parsed := by decide +kernel

variable (cfg : Config) (now : Int)

def updatedWorkerExpiry : Int :=
  now + cfg.settings.heartbeatInterval * cfg.settings.heartbeatLiveness

/-- `worker.expiry = updatedWorkerExpiry()`. -/
def Worker.renew (worker : Worker) : Worker :=
  { worker with expiry := updatedWorkerExpiry cfg now }

def updatedClientExpiry : Int := now + cfg.settings.clientTimeout

def updatedDnsExpiry : Int :=
  now + cfg.settings.dnsTimeout * cfg.settings.heartbeatLiveness

/-- The handlers' `catch (...)` around the parsing of a topic. -/
def wellFormedTopic : Except TopicError Topic → Except Fault (Option Topic)
  | .ok topic => .ok (some topic)
  | .error (.uri .indeterminate) => .error .indeterminate
  | .error _ => .ok none

/-! ## Subscriptions -/

namespace Subscriptions

def intMax : Int := 2147483647

variable (s : Subscriptions) (topic : Topic)

def subscribe : Except Fault (Subscriptions × List Output) :=
  let count := (s.subscribedTopics.lookup topic).getD 0
  if count = intMax then .error .overflow
  else .ok ({ s with subscribedTopics := s.subscribedTopics.insert topic (count + 1) },
    if count + 1 = 1 then [.subSocket true topic.toZmqTopic] else [])

def unsubscribe : Subscriptions × List Output :=
  match s.subscribedTopics.lookup topic with
  | none => (s, [])
  | some count =>
    if count - 1 = 0 then
      ({ s with subscribedTopics := s.subscribedTopics.erase topic },
        [.subSocket false topic.toZmqTopic])
    else ({ s with subscribedTopics := s.subscribedTopics.insert topic (count - 1) }, [])

variable (client : Bytes)

/-- `_subscribedClientsByTopic.try_emplace(topic).first->second.emplace(client)`. -/
def insertClient : Subscriptions :=
  let clients := (s.subscribedClientsByTopic.lookup topic).getD ∅
  { s with subscribedClientsByTopic :=
      s.subscribedClientsByTopic.insert topic (clients.insert client ()) }

/-- The client leaves the set of the topic, and an empty set is erased. -/
def eraseClient : Subscriptions :=
  match s.subscribedClientsByTopic.lookup topic with
  | none => s
  | some clients =>
    let clients := clients.erase client
    { s with subscribedClientsByTopic :=
        if clients = ∅ then s.subscribedClientsByTopic.erase topic
        else s.subscribedClientsByTopic.insert topic clients }

/-- A SUBSCRIBE of a client. -/
def addClient : Except Fault (Subscriptions × List Output) :=
  (s.subscribe topic).map fun r => (r.1.insertClient topic client, r.2)

/-- An UNSUBSCRIBE of a client. -/
def removeClient : Subscriptions × List Output :=
  let r := s.unsubscribe topic
  (r.1.eraseClient topic client, r.2)

def receivePubMessage (data : Bytes) : Except Fault (Subscriptions × List Output) :=
  match data with
  | kind :: c :: rest =>
    if kind = 0 ∨ kind = 1 then
      (wellFormedTopic (Topic.fromZmqTopic (c :: rest))).bind fun
        | none => .ok (s, [])
        | some topic => if kind = 1 then s.subscribe topic else .ok (s.unsubscribe topic)
    else .ok (s, [])
  | _ => .ok (s, [])

/-- The copies for one entry of `_subscribedTopics` that matches. -/
def copiesFor (cfg : Config) (s : Subscriptions) (message : BrokerMessage) (topic : Topic) :
    List Output :=
  .publication topic { message with sourceId := topic.toZmqTopic } ::
    match s.subscribedClientsByTopic.lookup topic with
    | none => []
    | some clients => clients.keys.flatMap fun clientId =>
      if clientId = kRestSourceId then
        if cfg.restServer then [.restNotification topic message] else []
      else [.notification topic { message with sourceId := clientId }]

/-- The copies for all entries of `_subscribedTopics`. -/
def matchingCopies (cfg : Config) (s : Subscriptions) (notification : Topic)
    (message : BrokerMessage) : List Output :=
  s.subscribedTopics.keys.flatMap fun topic =>
    if subscriptionMatches cfg.filters notification topic then s.copiesFor cfg message topic
    else []

def dispatchMessageToMatchingSubscribers (cfg : Config) (s : Subscriptions)
    (message : BrokerMessage) : Except Fault (List Output) :=
  (wellFormedTopic (Topic.fromMdpTopic message.topic)).map fun
    | none => []
    | some notification => s.matchingCopies cfg notification message

end Subscriptions

/-! ## Workers and services -/

namespace Pool

variable (p : Pool)

def setService (name : Bytes) (service : Service) : Pool :=
  { p with services := p.services.insert name service }

variable (worker : Worker)

def setWorker : Pool :=
  { p with workers := p.workers.insert worker.id worker }

/-- The worker at an address, unless it was erased. -/
def workerAt (workers : UMap Bytes Worker) (addr : Nat) : Option Worker :=
  (workers.entries.find? fun e => e.2.addr = addr).map (·.2)

/-- `*worker`. -/
def deref (workers : UMap Bytes Worker) (addr : Nat) : Except Fault Worker :=
  match workerAt workers addr with
  | some worker => .ok worker
  | none => .error .dangling

/-- The loop of `purgeWorkers` over one `waiting`. -/
def purgeWaiting (now : Int) : List Nat → UMap Bytes Worker →
    Except Fault (List Nat × UMap Bytes Worker)
  | [], workers => .ok ([], workers)
  | addr :: rest, workers =>
    (deref workers addr).bind fun worker =>
      if worker.expiry < now then purgeWaiting now rest (workers.erase worker.id)
      else (purgeWaiting now rest workers).map fun r => (addr :: r.1, r.2)

variable (now : Int)

def purgeService (name : Bytes) (p : Pool) : Except Fault (Pool × List Output) :=
  match p.services.lookup name with
  | none => .ok (p, [])
  | some service =>
    (purgeWaiting now service.waiting p.workers).map fun r =>
      ({ p with workers := r.2 }.setService name { service with waiting := r.1 }, [])

def purgeWorkers (p : Pool) : Except Fault (Pool × List Output) :=
  forEach (purgeService now) p.services.keys p

/-- What `dispatch` makes of a request before it sends it to a worker. -/
def toWorker (message : BrokerMessage) (worker : Worker) : BrokerMessage :=
  { message with
    serviceName := message.sourceId
    sourceId := worker.id
    protocolName := workerProtocol }

/-- The loop of `dispatch`. -/
def dispatchLoop (name : Bytes) (workers : UMap Bytes Worker) :
    List Nat → RequestQueue → Except Fault (List Nat × RequestQueue × List Output)
  | [], q => .ok ([], q, [])
  | addr :: rest, q =>
    if q.requestCount > 0 then
      match q.takeNextMessage with
      | none => .error .assertion
      | some (message, q) =>
        (deref workers addr).bind fun worker =>
          (dispatchLoop name workers rest q).map fun r =>
            (r.1, r.2.1, .request name worker.socket (toWorker message worker) :: r.2.2)
    else .ok (addr :: rest, q, [])

/-- `dispatch` on the service of that name. -/
def dispatch (p : Pool) (name : Bytes) : Except Fault (Pool × List Output) :=
  (purgeWorkers now p).bind fun r =>
    match r.1.services.lookup name with
    | none => .error .noService
    | some service =>
      (dispatchLoop name r.1.workers service.waiting service.requests).map fun d =>
        (r.1.setService name { service with waiting := d.1, requests := d.2.1 }, d.2.2)

/-- `putMessage`, then `dispatch`. -/
def handOver (p : Pool) (name : Bytes) (message : BrokerMessage) :
    Except Fault (Pool × List Output) :=
  match p.services.lookup name with
  | none => .error .noService
  | some service =>
    dispatch now
      (p.setService name { service with requests := service.requests.putMessage message }) name

variable (cfg : Config)

/-- `_workers.try_emplace(...)`. -/
def emplaceWorker (clock : Clock) (p : Pool) (socket : Socket)
    (id serviceName : Bytes) : Pool × Worker :=
  match p.workers.lookup id with
  | some worker => (p, worker)
  | none =>
    let worker : Worker :=
      { addr := p.nextAddr, socket, id, serviceName,
        expiry := updatedWorkerExpiry cfg clock.arrival }
    ({ p with nextAddr := p.nextAddr + 1 }.setWorker worker, worker)

def newService (name description : Bytes) : Service :=
  { internalHandler := none, name, description, waiting := [],
    requests := RequestQueue.empty cfg.roles }

def requireService (p : Pool) (name description : Bytes) : Pool :=
  { p with services := p.services.tryEmplace name (newService cfg name description) }

def workerWaiting (clock : Clock) (p : Pool) (worker : Worker) :
    Except Fault (Pool × List Output) :=
  match p.services.lookup worker.serviceName with
  | none => .error .noService
  | some service =>
    let p := p.setService worker.serviceName
      { service with waiting := service.waiting ++ [worker.addr] }
    dispatch clock.purge (p.setWorker (worker.renew cfg clock.waiting)) worker.serviceName

def deleteWorker : Pool :=
  let p := match p.services.lookup worker.serviceName with
    | none => p
    | some service =>
      p.setService worker.serviceName
        { service with waiting := service.waiting.filter (· ≠ worker.addr) }
  { p with workers := p.workers.erase worker.id }

def disconnectWorker : Pool × List Output :=
  (p.deleteWorker worker, [.disconnect worker.socket
      { protocolName := workerProtocol
        command := .disconnect
        sourceId := worker.id
        serviceName := worker.serviceName
        data := str "broker shutdown"
        rbac := brokerRbac }])

def heartbeatTo : Output :=
  .heartbeat worker.socket
    { protocolName := workerProtocol
      command := .heartbeat
      sourceId := worker.id
      serviceName := worker.serviceName
      rbac := brokerRbac }

/-- The heartbeats to all waiting workers. -/
def heartbeats : Except Fault (Unit × List Output) :=
  forEach (fun addr _ => (deref p.workers addr).map fun worker => ((), [heartbeatTo worker]))
    (p.services.entries.flatMap fun e => e.2.waiting) ()

def removeSlash (s : Bytes) : Bytes := if s.head? = some (chr '/') then s.tail else s

def lessByLength (lhs rhs : Bytes) : Bool :=
  if lhs.length = rhs.length then lhs < rhs else lhs.length < rhs.length

/-- One round of the loop of `bestMatchingService`; `best` is the best name
so far without its slash, and the service that has it. -/
def betterService (serviceName : Bytes) (best : Option (Bytes × Bytes))
    (entry : Sigma fun _ : Bytes => Service) : Option (Bytes × Bytes) :=
  let n := removeSlash entry.1
  if startsWith (removeSlash serviceName) n then
    match best with
    | none => some (n, entry.1)
    | some (bestServiceName, _) =>
      if lessByLength n bestServiceName then some (n, entry.1) else best
  else best

/-- The key of the best matching service. -/
def bestMatchingService (serviceName : Bytes) : Option Bytes :=
  (p.services.entries.foldl (betterService serviceName) none).map (·.2)

end Pool

/-! ## DNS registration -/

namespace Dns

variable (cfg : Config)

def createDnsReadyMessage : BrokerMessage :=
  { protocolName := clientProtocol
    command := .ready
    serviceName := cfg.brokerName
    clientRequestID := str "clientID"
    rbac := brokerRbac }

variable (clock : Clock)

def registerWithDnsServices (dns : Dns) (readyMessage : BrokerMessage) : Dns × List Output :=
  let item := (dns.dnsCache.lookup cfg.brokerName).getD
    { address := [], serviceName := cfg.brokerName }
  let item := { item with
    uris := item.uris.tryEmplace readyMessage.topic.str readyMessage.topic.relax
    expiry := updatedDnsExpiry cfg clock.dns }
  ({ dns with dnsCache := dns.dnsCache.insert cfg.brokerName item }, [.dnsReady readyMessage])

/-- The address of a service behind one of the broker's addresses is parsed
strictly, which throws for some service names. -/
def registerNewService (serviceName : Bytes) (dns : Dns) : Except Fault (Dns × List Output) :=
  forEach (fun dnsAddress dns => do
    let address := dnsAddress ++ str "/" ++ Detail.stripStart serviceName (str "/")
    let topic ← (Uri.ofBytes .strict address).mapError fun _ => Fault.exception
    return registerWithDnsServices cfg clock dns { createDnsReadyMessage cfg with topic })
    dns.dnsAddresses.keys dns

def sendDnsHeartbeats (force : Bool) (services : List Bytes)
    (dns : Dns) : Except Fault (Dns × List Output) :=
  if clock.dnsCheck > dns.dnsHeartbeatAt ∨ force then
    (forEach (fun (address : Bytes × Uri .strict) dns =>
      Except.ok (registerWithDnsServices cfg clock dns
        { createDnsReadyMessage cfg with topic := address.2 })) dns.dnsAddresses.entries dns).bind
      fun r => (forEach (registerNewService cfg clock) services r.1).map
        fun r' => (r'.1, r.2 ++ r'.2)
  else .ok (dns, [])

/-- `READY` of another broker: its address is a URI with a scheme. -/
def enterBroker (dns : Dns) (message : BrokerMessage) : Dns :=
  let topicURI := message.topic.relax
  if topicURI.parts.scheme.isEmpty then dns
  else
    let item := (dns.dnsCache.lookup message.serviceName).getD
      { address := message.sourceId, serviceName := message.serviceName }
    let item := { item with
      uris := item.uris.tryEmplace topicURI.str topicURI
      expiry := updatedDnsExpiry cfg clock.dns }
    { dns with dnsCache := dns.dnsCache.insert message.serviceName item }

def challenge (item : DnsServiceItem) : Output :=
  .dnsChallenge
    { protocolName := clientProtocol
      command := .heartbeat
      clientRequestID := str "dnsChallenge"
      rbac := brokerRbac
      sourceId := item.address
      serviceName := item.serviceName }

def purgeDnsServices (now : Int) (services : List Bytes)
    (dns : Dns) : Except Fault (Dns × List Output) :=
  if now < dns.dnsHeartbeatAt then .ok (dns, [])
  else
    (sendDnsHeartbeats cfg clock false services dns).map fun r =>
      let isOwn := fun (item : DnsServiceItem) => item.serviceName == cfg.brokerName
      let renewed : DnsCache := r.1.dnsCache.keys.foldl (fun cache broker =>
        match cache.lookup broker with
        | some item =>
          if isOwn item then
            cache.insert broker { item with expiry := updatedDnsExpiry cfg clock.dns }
          else cache
        | none => cache) r.1.dnsCache
      let challenged := (renewed.entries.map (·.2)).filter (!isOwn ·)
      ({ r.1 with
          dnsCache := renewed.eraseIf fun _ item => item.expiry < now
          dnsHeartbeatAt := now + cfg.settings.dnsTimeout },
        r.2 ++ challenged.map challenge)

end Dns

/-! ## Messages -/

namespace Broker

variable (cfg : Config)

/-- The internal handler of a service. -/
def handleInternally (b : Broker) (message : BrokerMessage) :
    InternalHandler → Except Fault BrokerMessage
  | .dns => do
    let reply ← (Detail.mmiDns cfg.brokerName b.dns.dnsCache message.data).mapError
      fun _ => Fault.exception
    return { message with command := .final, data := reply }
  | .echo => .ok message
  | .service =>
    let data :=
      if message.data.isEmpty then
        Detail.join (str ",") (b.pool.services.keys.insertionSort (· ≤ ·))
      else if message.data ∈ b.pool.services then str "200" else str "404"
    .ok { message with command := .final, data }
  | .openapi =>
    match b.pool.services.lookup message.data with
    | some service =>
      .ok { message with command := .final, data := service.description, error := [] }
    | none =>
      .ok { message with
        command := .final
        data := []
        error := str "Requested invalid service '" ++ message.data ++ str "'" }

/-- A reply to a client: to the REST server, if there is one, for the REST
client and through its socket for every other. -/
def sendReply (origin : Origin) (id : Bytes) (socket : Option Socket)
    (message : BrokerMessage) : Except Fault (List Output) :=
  if id = kRestSourceId then
    .ok (if cfg.restServer then [.restResponse origin message] else [])
  else match socket with
    | some socket => .ok [.reply origin id socket message]
    | none => .error .exception

variable (message : BrokerMessage)

/-- The reply to a request for a service that does not exist. -/
def unknownServiceReply : BrokerMessage :=
  { message with
    command := .final
    topic := internalServiceNamesUri
    data := []
    error := str "unknown service (error 501): '" ++ message.serviceName ++ str "'"
    rbac := brokerRbac }

variable (clock : Clock)

/-- A request at a service that exists. -/
def serveRequest (b : Broker) (client : Client)
    (message : BrokerMessage) (name : Bytes) : Except Fault (Broker × List Output) :=
  match b.pool.services.lookup name with
  | none => .error .noService
  | some service =>
    match service.internalHandler with
    | some handler =>
      (b.handleInternally cfg message handler).bind fun reply =>
        (sendReply cfg .internal client.id client.socket reply).map fun out => (b, out)
    | none =>
      (b.pool.handOver clock.purge name message).map fun r => ({ b with pool := r.1 }, r.2)

/-- `_rbacHandler(clientMessage)`. -/
def applyRbacHandler : BrokerMessage :=
  match cfg.rbacHandler with
  | some handler => handler message
  | none => message

/-- The loop of `processClients` over the clients with these ids: the first
request that finds its service ends it. -/
def processClientsLoop (cfg : Config) (clock : Clock) :
    List Bytes → Broker → Except Fault (Broker × List Output)
  | [], b => .ok (b, [])
  | id :: ids, b =>
    match b.clients.lookup id with
    | none => processClientsLoop cfg clock ids b
    | some client =>
      match client.requests with
      | [] => processClientsLoop cfg clock ids b
      | request :: requests =>
        let b := { b with clients := b.clients.insert id { client with requests } }
        let message := applyRbacHandler cfg request
        match b.pool.bestMatchingService message.serviceName with
        | some name => serveRequest cfg clock b client message name
        | none =>
          (sendReply cfg .unknownService client.id client.socket
              (unknownServiceReply message)).bind fun out =>
            (processClientsLoop cfg clock ids b).map fun r => (r.1, out ++ r.2)

def processClients (b : Broker) : Except Fault (Broker × List Output) :=
  processClientsLoop cfg clock b.clients.keys b

def purgeClients (now : Int) (b : Broker) : Broker :=
  if cfg.settings.clientTimeout = 0 then b
  else { b with clients :=
    b.clients.eraseIf fun senderId client => senderId != kRestSourceId && client.expiry < now }

/-- What is published when a worker registers. -/
def serviceNamesMessage : BrokerMessage :=
  { serviceName := internalServiceNames
    topic := internalServiceNamesUri
    clientRequestID := cfg.brokerName
    sourceId := internalServiceNames }

/-- READY. -/
def workerReady (b : Broker) (worker : Worker)
    (message : BrokerMessage) : Except Fault (Broker × List Output) :=
  ((b.pool.requireService cfg message.serviceName message.data).workerWaiting cfg clock
      worker).bind fun r =>
    (b.dns.registerNewService cfg clock message.serviceName).map fun d =>
      ({ b with pool := r.1, dns := d.1 }, r.2 ++ d.2 ++ [.serviceNames (serviceNamesMessage cfg)])

/-- What a worker's reply is on its way to the client. -/
def toClient (worker : Worker) : BrokerMessage :=
  { message with
    sourceId := message.serviceName
    serviceName := worker.serviceName
    protocolName := clientProtocol }

/-- What a notification is on its way to the subscribers. -/
def toSubscribers (worker : Worker) : BrokerMessage :=
  { message with
    protocolName := clientProtocol
    command := .final
    serviceName := worker.serviceName }

/-- PARTIAL or FINAL from a known worker: dropped, and the worker not queued
again, if the client is not known. -/
def workerReply (b : Broker) (worker : Worker)
    (message : BrokerMessage) : Except Fault (Broker × List Output) :=
  match b.clients.lookup message.serviceName with
  | none => .ok (b, [])
  | some client =>
    (sendReply cfg (.worker worker.id) message.serviceName client.socket
        (toClient message worker)).bind fun sent =>
      (b.pool.workerWaiting cfg clock worker).map fun r =>
        ({ b with pool := r.1 }, sent ++ r.2)

variable (socket : Socket)

def processWorker (b : Broker) (message : BrokerMessage) : Except Fault (Broker × List Output) :=
  let knownWorker := decide (message.sourceId ∈ b.pool.workers)
  let (pool, worker) :=
    b.pool.emplaceWorker cfg clock socket message.sourceId message.serviceName
  let b := { b with pool }
  let disconnected := b.pool.disconnectWorker worker
  let disconnect := ({ b with pool := disconnected.1 }, disconnected.2)
  match message.command with
  | .ready => b.workerReady cfg clock worker message
  | .partial_ | .final =>
    if knownWorker then b.workerReply cfg clock worker message else .ok disconnect
  | .notify =>
    (b.subscriptions.dispatchMessageToMatchingSubscribers cfg
      (toSubscribers message worker)).map fun out => (b, out)
  | .heartbeat =>
    if knownWorker then
      .ok ({ b with pool := b.pool.setWorker (worker.renew cfg clock.arrival) }, [])
    else .ok disconnect
  | _ => .ok (b, [])

/-- A message that is queued for `processClients`. -/
def queueRequest (b : Broker) (message : BrokerMessage) (newClient : Client) : Broker :=
  let client := (b.clients.lookup message.sourceId).getD newClient
  let client := { client with requests := client.requests ++ [message] }
  { b with clients := b.clients.insert message.sourceId client }

/-- SUBSCRIBE and UNSUBSCRIBE of a client. -/
def changeSubscription (b : Broker) (message : BrokerMessage) (isSubscribe : Bool) :
    Except Fault (Broker × List Output) :=
  (wellFormedTopic (Topic.fromMdpTopic message.topic)).bind fun
    | none => .ok (b, [])
    | some topic =>
      (if isSubscribe then b.subscriptions.addClient topic message.sourceId
        else .ok (b.subscriptions.removeClient topic message.sourceId)).map fun r =>
        ({ b with subscriptions := r.1 }, r.2)

/-- A message of the REST server, under the id of the REST client. -/
def fromRest : BrokerMessage :=
  { message with sourceId := kRestSourceId, protocolName := clientProtocol }

def handleRestMessage (b : Broker) (message : BrokerMessage) :
    Except Fault (Broker × List Output) :=
  match message.command with
  | .get | .set =>
    .ok (b.queueRequest (fromRest message) { socket := none, id := kRestSourceId }, [])
  | .subscribe => b.changeSubscription (fromRest message) true
  | .unsubscribe => b.changeSubscription (fromRest message) false
  | _ => .ok (b, [])

/-- A message of the client protocol. -/
def receiveClientMessage (b : Broker)
    (message : BrokerMessage) : Except Fault (Broker × List Output) :=
  let newClient : Client :=
    { socket := some socket, id := message.sourceId,
      expiry := updatedClientExpiry cfg clock.arrival }
  match message.command with
  | .ready => .ok ({ b with dns := b.dns.enterBroker cfg clock message }, [])
  | .subscribe => b.changeSubscription message true
  | .unsubscribe => b.changeSubscription message false
  | .heartbeat =>
    (b.dns.sendDnsHeartbeats cfg clock true b.pool.services.keys).map fun r =>
      ({ b with dns := r.1 }.queueRequest message newClient, r.2)
  | _ => .ok (b.queueRequest message newClient, [])

def receiveMessage (b : Broker) (message : BrokerMessage) : Except Fault (Broker × List Output) :=
  if message.protocolName = clientProtocol then b.receiveClientMessage cfg clock socket message
  else b.processWorker cfg clock socket message

def sendHeartbeats (now sent : Int) (b : Broker) : Except Fault (Broker × List Output) :=
  if now < b.heartbeatAt then .ok (b, [])
  else b.pool.heartbeats.map fun r =>
    ({ b with heartbeatAt := sent + cfg.settings.heartbeatInterval }, r.2)

/-- Disconnects the worker with this id. -/
def cleanupWorker (id : Bytes) (b : Broker) : Except Fault (Broker × List Output) :=
  match b.pool.workers.lookup id with
  | none => .ok (b, [])
  | some worker =>
    let r := b.pool.disconnectWorker worker
    .ok ({ b with pool := r.1 }, r.2)

def cleanup (b : Broker) : Except Fault (Broker × List Output) :=
  forEach cleanupWorker b.pool.workers.keys b

/-- The effect of a successful `bind`, and of `registerDnsAddress`, which also
enters the address in the cache at once. -/
def addDnsAddress (register : Bool) (b : Broker)
    (address : Uri .strict) : Except Fault (Broker × List Output) :=
  let dns := { b.dns with
    dnsAddresses := b.dns.dnsAddresses.tryEmplace address.str address }
  let item := (dns.dnsCache.lookup cfg.brokerName).getD
    { address := [], serviceName := cfg.brokerName }
  let item := { item with uris := item.uris.tryEmplace address.str address.relax }
  let dns :=
    if register then { dns with dnsCache := dns.dnsCache.insert cfg.brokerName item } else dns
  (dns.sendDnsHeartbeats cfg clock true b.pool.services.keys).map fun r =>
    ({ b with dns := r.1 }, r.2)

/-! ## Steps -/

/-- The same tables, iterated in another order. -/
def Reordered (b b' : Broker) : Prop :=
  b.subscriptions.subscribedClientsByTopic.entries.Perm
      b'.subscriptions.subscribedClientsByTopic.entries ∧
    b.subscriptions.subscribedTopics.entries.Perm b'.subscriptions.subscribedTopics.entries ∧
    b.clients.entries.Perm b'.clients.entries ∧
    b.pool.workers.entries.Perm b'.pool.workers.entries ∧
    b.pool.services.entries.Perm b'.pool.services.entries ∧
    b.pool.nextAddr = b'.pool.nextAddr ∧
    b.dns.dnsCache.entries.Perm b'.dns.dnsCache.entries ∧
    b.dns.dnsAddresses = b'.dns.dnsAddresses ∧
    b.dns.dnsHeartbeatAt = b'.dns.dnsHeartbeatAt ∧
    b.heartbeatAt = b'.heartbeatAt
  deriving Decidable

/-- The calls that make up `processMessages`, and the public calls around it.
`processMessages` makes them in a fixed order; here they come in any. -/
inductive Event where
  | message (clock : Clock) (socket : Socket) (message : BrokerMessage)
  | pubMessage (data : Bytes)
  | restMessage (message : BrokerMessage)
  | processClients (clock : Clock)
  | purgeWorkers (now : Int)
  | purgeClients (now : Int)
  | sendHeartbeats (now sent : Int)
  | purgeDnsServices (clock : Clock) (now : Int)
  | addDnsAddress (clock : Clock) (register : Bool) (address : Uri .strict)
  | run (clock : Clock)
  | cleanup
  | rehash (b : Broker)

/-- One call. Without a REST server there are no REST messages. -/
def step (b : Broker) : Event → Except Fault (Broker × List Output)
  | .message clock socket message => b.receiveMessage cfg clock socket message
  | .pubMessage data =>
    (b.subscriptions.receivePubMessage data).map fun r =>
      ({ b with subscriptions := r.1 }, r.2)
  | .restMessage message =>
    if cfg.restServer then b.handleRestMessage message else .ok (b, [])
  | .processClients clock => b.processClients cfg clock
  | .purgeWorkers now =>
    (b.pool.purgeWorkers now).map fun r => ({ b with pool := r.1 }, r.2)
  | .purgeClients now => .ok (b.purgeClients cfg now, [])
  | .sendHeartbeats now sent => b.sendHeartbeats cfg now sent
  | .purgeDnsServices clock now =>
    (b.dns.purgeDnsServices cfg clock now b.pool.services.keys).map fun r =>
      ({ b with dns := r.1 }, r.2)
  | .addDnsAddress clock register address => b.addDnsAddress cfg clock register address
  | .run clock =>
    (b.dns.sendDnsHeartbeats cfg clock true b.pool.services.keys).map fun r =>
      ({ b with dns := r.1 }, r.2)
  | .cleanup => b.cleanup
  | .rehash b' => if Reordered b b' then .ok (b', []) else .ok (b, [])

/-- The broker as a machine. -/
def machine : StepFn Broker Event Output := fun b e => (step cfg b e).toOption

theorem machine_eq_some {cfg : Config} {b b' : Broker} {e : Event} {out : List Output} :
    machine cfg b e = some (b', out) ↔ step cfg b e = .ok (b', out) := toOption_eq_some

/-- The state after construction, with the internal services. -/
def initial (now : Int) : Broker where
  subscriptions := { subscribedClientsByTopic := ∅, subscribedTopics := ∅ }
  clients := ∅
  pool :=
    { workers := ∅
      services := [(str "/mmi.dns", InternalHandler.dns), (str "/mmi.echo", .echo),
          (str "/mmi.service", .service), (str "/mmi.openapi", .openapi)].foldl
        (fun (services : UMap Bytes Service) e => services.tryEmplace e.1
          { Pool.newService cfg e.1 [] with internalHandler := some e.2 }) ∅
      nextAddr := 0 }
  dns := { dnsCache := ∅, dnsAddresses := ∅, dnsHeartbeatAt := 0 }
  heartbeatAt := now + cfg.settings.heartbeatInterval

end Broker

end OpenCmw
