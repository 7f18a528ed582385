import OpenCmw.Uri

/-!
# Topics and subscription matching

`mdp::Topic`: a service name with query parameters. Every constructor ends
in the check of the service name, so `Topic` carries it. `subscriptionMatches`
is `SubscriptionMatcher::operator()`; the filters it looks up by parameter
name are functions on the two parameter texts.
-/

namespace OpenCmw

def isServiceNameChar (c : UInt8) : Bool := isAlnum c || (str "/._").contains c

def isValidServiceName (s : Bytes) : Bool :=
  startsWith s (str "/") && s.length > 1 && s.getLast? != some (chr '/')
    && s.all isServiceNameChar

theorem isValidServiceName_service : isValidServiceName (str "/service") = true := by decide

theorem isValidServiceName_news : isValidServiceName (str "/news") = true := by decide

abbrev Params := SortedMap Bytes (Option Bytes)

structure Topic where
  service : Bytes
  params : Params
  valid : isValidServiceName service = true
  deriving DecidableEq

/-- What a constructor of `Topic` throws, with the values its message is
formatted from. -/
inductive TopicError where
  | uri (e : UriError)
  /-- "Parameters are not empty ({}), and there are more in the service string ({})" -/
  | parametersNotEmpty (params : Params) (str : Bytes)
  /-- "Invalid service name '{}'" -/
  | invalidServiceName (service : Bytes)
  deriving DecidableEq

namespace Topic

def stripTrailingSlashes (s : Bytes) : Bytes := s.rdropWhile (· == chr '/')

def parseService (s : Bytes) : Bytes :=
  let r := stripTrailingSlashes (s.takeWhile (· != chr '?'))
  if startsWith r (str "/") then r else chr '/' :: r

/-- The parameters of a `std::unordered_map`, in the order of their keys. -/
def paramsOf (queryMap : QueryMap) : Params :=
  .ofEntries (queryMap.entries.map fun e => (e.1, e.2))

/-- The constructor. -/
def make (serviceOrServiceAndQuery : Bytes) (params : Params) : Except TopicError Topic := do
  let params ←
    if serviceOrServiceAndQuery.contains (chr '?') then
      if params != ∅ then
        throw (.parametersNotEmpty params serviceOrServiceAndQuery)
      let parsed ← (Uri.ofBytes .relaxed serviceOrServiceAndQuery).mapError .uri
      let queryMap ← parsed.queryParamMap.mapError .uri
      pure (paramsOf queryMap)
    else pure params
  let service := parseService serviceOrServiceAndQuery
  if h : isValidServiceName service = true then return ⟨service, params, h⟩
  else throw (.invalidServiceName service)

def fromString (s : Bytes) (params : Params) : Except TopicError Topic := make s params

def fromMdpTopic {check : UriCheck} (topic : Uri check) : Except TopicError Topic := do
  let queryMap ← topic.queryParamMap.mapError .uri
  make (if topic.parts.path.isEmpty then str "/" else topic.parts.path) (paramsOf queryMap)

def fromZmqTopic (topic : Bytes) : Except TopicError Topic :=
  fromString (if topic.getLast? == some (chr '#') then topic.dropLast else topic) ∅

/-- One `key[=value]` of a ZMQ topic. -/
def zmqParam (p : Bytes × Option Bytes) : Bytes :=
  p.1 ++ match p.2 with
    | some value => chr '=' :: encode value
    | none => []

/-- `toZmqTopic()`, delimited with '#'. -/
def toZmqTopic (t : Topic) : Bytes :=
  let query := if t.params = ∅ then []
    else chr '?' :: (str "&").intercalate (t.params.entries.map zmqParam)
  t.service ++ query ++ str "#"

end Topic

/-! ## Matching -/

/-- `_filters`: what each filtered parameter requires of the notified and
the subscribed text. -/
abbrev Filters := UMap Bytes (Bytes → Bytes → Bool)

def testQueries (filters : Filters) (notified subscriber : Topic) : Bool :=
  subscriber.params.entries.all fun (key, value) =>
    match filters.lookup key with
    | none => true
    | some filter =>
      match notified.params.find? key with
      | none => false
      | some notifiedValue => filter (notifiedValue.getD []) (value.getD [])

/-- `SubscriptionMatcher::operator()`. -/
def subscriptionMatches (filters : Filters) (notified subscriber : Topic) : Bool :=
  notified.service == subscriber.service && testQueries filters notified subscriber

end OpenCmw
