import OpenCmw.Topic

/-!
# Messages of the Majordomo protocol

`mdp::BasicMessage` in the format with a source id, as the broker sees it.
The fields `id`, `arrivalTime` and `timeout` are not read by the broker and
are left out.
-/

namespace OpenCmw

/-- `mdp::Command`. -/
inductive Command where
  | invalid
  | get
  | set
  | partial_
  | final
  | ready
  | disconnect
  | subscribe
  | unsubscribe
  | notify
  | heartbeat
  deriving DecidableEq, Repr

def clientProtocol : Bytes := str "MDPC03"

def workerProtocol : Bytes := str "MDPW03"

/-- The topic "/". -/
def rootUri : Uri .strict where
  str := str "/"
  parts := { path := str "/" }
  parsed := by decide +kernel

structure BrokerMessage where
  sourceId : Bytes := []
  protocolName : Bytes := []
  command : Command := .invalid
  serviceName : Bytes := str "/"
  clientRequestID : Bytes := []
  topic : Uri .strict := rootUri
  data : Bytes := []
  error : Bytes := []
  rbac : Bytes := []
  deriving DecidableEq

end OpenCmw
