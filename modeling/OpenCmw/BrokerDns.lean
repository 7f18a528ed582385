import OpenCmw.Message

/-!
# The DNS cache of the broker

`detail::DnsServiceItem` and the text functions behind the internal service
"/mmi.dns", which lists the cache or looks up the entries that match each of
a list of queries.
-/

namespace OpenCmw

structure DnsServiceItem where
  address : Bytes
  serviceName : Bytes
  /-- A set of URIs, ordered by their texts. -/
  uris : SortedMap Bytes (Uri .relaxed) := ∅
  expiry : Int := 0
  deriving DecidableEq

abbrev DnsCache := UMap Bytes DnsServiceItem

namespace Detail

/-- `opencmw::join`. -/
def join (sep : Bytes) (texts : List Bytes) : Bytes := sep.intercalate texts

def trimmed (s : Bytes) : Bytes := (s.dropWhile isSpace).rdropWhile isSpace

/-- The segments between single characters `delim`. -/
def split (delim : UInt8) (s : Bytes) : List Bytes := s.splitOn delim

def stripStart (s stripChars : Bytes) : Bytes := s.dropWhile stripChars.contains

def toLower (c : UInt8) : UInt8 := if chr 'A' ≤ c && c ≤ chr 'Z' then c + 32 else c

def iequal (left right : Bytes) : Bool := left.map toLower == right.map toLower

/-- The URIs of the cache that match one query. The query is parsed as a URI,
which throws for some texts of one character. -/
def findDnsEntry (brokerName : Bytes) (dnsCache : DnsCache) (s : Bytes) :
    Except UriError Bytes := do
  let query ← Uri.ofBytes .relaxed s
  let queryScheme := query.parts.scheme
  let strippedQueryPath := stripStart query.parts.path (str "/")
  let stripStartFromSearchPath :=
    if startsWith strippedQueryPath (str "/mmi.") then chr '/' :: brokerName else str "/"
  let entryMatches := fun (dnsEntry : Uri .relaxed) =>
    (queryScheme.isEmpty || iequal dnsEntry.parts.scheme queryScheme)
      && startsWith (stripStart dnsEntry.parts.path stripStartFromSearchPath) strippedQueryPath
  let matching := dnsCache.entries.flatMap fun entry =>
    ((entry.2.uris.entries.map (·.2)).filter entryMatches).map (·.str)
  let results := if matching.isEmpty then [str "null"] else matching.insertionSort (· ≤ ·)
  return str "[" ++ s ++ str ": " ++ join (str ",") results ++ str "]"

def formatItem (item : DnsServiceItem) : Bytes :=
  str "[" ++ item.serviceName ++ str ": " ++ join (str ",") item.uris.keys ++ str "]"

/-- The reply of "/mmi.dns" to a request body. -/
def mmiDns (brokerName : Bytes) (dnsCache : DnsCache) (body : Bytes) : Except UriError Bytes :=
  if body.all fun c => !(str ",:/").contains c then
    let entries := (dnsCache.entries.map (·.2)).insertionSort
      fun a b => a.serviceName ≤ b.serviceName
    .ok (join (str ",") (entries.map formatItem))
  else do
    let results ← (split (chr ',') body).mapM fun v =>
      findDnsEntry brokerName dnsCache (trimmed v)
    return join (str ",") results

end Detail

end OpenCmw
