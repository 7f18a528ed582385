import OpenCmw.Message

/-!
# The frames of a message

`zmq::send` and `zmq::receive`: a message is a multipart message of nine
frames, or of eight in the format without a source id, where the frame
numbers shift by one. ZeroMQ delivers the frames intact and in order, so
what is received is a list of frames; a call of the library that fails on
the way is a `none` in it.

The receiver keeps what fits into its array and counts the rest. It accepts
exactly what the sender writes (`receive_eq_ok_iff`). It does not return on
every input, though: the topic frame is made into a URI after the other
checks, and the constructor throws.
-/

namespace OpenCmw

open Command (heartbeat)
open List

/-- `mdp::MessageFormat`. -/
inductive MessageFormat where
  | withSourceId
  | withoutSourceId
  deriving DecidableEq, Repr

namespace MessageFormat

/-- The type of the field `sourceId`. -/
def SourceId : MessageFormat → Type
  | .withSourceId => Bytes
  | .withoutSourceId => Unit

def requiredFrameCount : MessageFormat → Nat
  | .withSourceId => 9
  | .withoutSourceId => 8

end MessageFormat

/-- `mdp::BasicMessage`, with the fields that are sent. -/
structure BasicMessage (format : MessageFormat) where
  sourceId : format.SourceId
  protocolName : Bytes
  command : Command
  serviceName : Bytes
  clientRequestID : Bytes
  topic : Uri .strict
  data : Bytes
  error : Bytes
  rbac : Bytes

/-- The messages of the broker are those with a source id. -/
def BrokerMessage.equivBasicMessage : BrokerMessage ≃ BasicMessage .withSourceId where
  toFun m := { m with sourceId := (m.sourceId : Bytes) }
  invFun m := { m with sourceId := (m.sourceId : Bytes) }
  left_inv _ := rfl
  right_inv _ := rfl

/-! ## Commands -/

/-- The value of the enumerator. -/
def Command.toByte : Command → UInt8
  | .invalid => 0x00
  | .get => 0x01
  | .set => 0x02
  | .partial_ => 0x03
  | .final => 0x04
  | .ready => 0x05
  | .disconnect => 0x06
  | .subscribe => 0x07
  | .unsubscribe => 0x08
  | .notify => 0x09
  | .heartbeat => 0x0a

/-- `static_cast<mdp::Command>` of a byte that is at most `Heartbeat`. -/
def Command.ofByte (b : UInt8) : Command :=
  if b = 0x00 then .invalid
  else if b = 0x01 then .get
  else if b = 0x02 then .set
  else if b = 0x03 then .partial_
  else if b = 0x04 then .final
  else if b = 0x05 then .ready
  else if b = 0x06 then .disconnect
  else if b = 0x07 then .subscribe
  else if b = 0x08 then .unsubscribe
  else if b = 0x09 then .notify
  else .heartbeat

@[simp] theorem Command.ofByte_toByte (c : Command) : Command.ofByte c.toByte = c := by
  cases c <;> rfl

theorem Command.toByte_le (c : Command) : c.toByte ≤ heartbeat.toByte := by
  cases c <;> decide

theorem Command.toByte_ofByte {b : UInt8} (h : b ≤ heartbeat.toByte) :
    (Command.ofByte b).toByte = b := by
  have hall : ∀ i : Fin 256, UInt8.ofFin i ≤ heartbeat.toByte →
      (Command.ofByte (UInt8.ofFin i)).toByte = UInt8.ofFin i := by decide +kernel
  exact hall b.toFin h

/-! ## Frames -/

/-- `ZmqMessage::Frame`. -/
inductive Frame where
  | sourceId
  | protocol
  | command
  | serviceName
  | clientRequestId
  | topic
  | body
  | error
  | rbac
  deriving DecidableEq, Repr

/-- The value of the enumerator; those behind `Protocol` count on from it. -/
def Frame.index (format : MessageFormat) : Frame → Nat :=
  let protocol := if format = .withSourceId then 1 else 0
  fun
  | .sourceId => 0
  | .protocol => protocol
  | .command => protocol + 1
  | .serviceName => protocol + 2
  | .clientRequestId => protocol + 3
  | .topic => protocol + 4
  | .body => protocol + 5
  | .error => protocol + 6
  | .rbac => protocol + 7

/-- The array of frames. -/
@[ext]
structure ZmqMessage (format : MessageFormat) where
  frames : List Bytes
  count : frames.length = format.requiredFrameCount

namespace ZmqMessage

variable {format : MessageFormat}

/-- All frames are empty. -/
def empty : ZmqMessage format :=
  ⟨replicate format.requiredFrameCount [], length_replicate⟩

def setAt (z : ZmqMessage format) (i : Nat) (frame : Bytes) : ZmqMessage format :=
  ⟨z.frames.set i frame, length_set.trans z.count⟩

def set (z : ZmqMessage format) (frame : Frame) (data : Bytes) : ZmqMessage format :=
  z.setAt (frame.index format) data

def frame (z : ZmqMessage format) (frame : Frame) : Bytes :=
  (z.frames[frame.index format]?).getD []

end ZmqMessage

/-- `zmq::send`: the frames, in the order in which they are sent. -/
def send {format : MessageFormat} (message : BasicMessage format) : List Bytes :=
  let zmsg : ZmqMessage format := match format, message with
    | .withSourceId, message => ZmqMessage.empty.set .sourceId (message.sourceId : Bytes)
    | .withoutSourceId, _ => ZmqMessage.empty
  let zmsg := zmsg.set .protocol message.protocolName
  let zmsg := zmsg.set .command [message.command.toByte]
  let zmsg := zmsg.set .serviceName message.serviceName
  let zmsg := zmsg.set .clientRequestId message.clientRequestID
  let zmsg := zmsg.set .topic message.topic.str
  let zmsg := zmsg.set .body message.data
  let zmsg := zmsg.set .error message.error
  let zmsg := zmsg.set .rbac message.rbac
  zmsg.frames

/-- The loop of `zmq::receive`: the number of frames, and those that fit. -/
def receiveFrames {format : MessageFormat} :
    List (Option Bytes) → Nat → ZmqMessage format → Option (Nat × ZmqMessage format)
  | [], _, _ => none
  | none :: _, _, _ => none
  | some frame :: rest, framesReceived, zmsg =>
    let zmsg := if framesReceived < format.requiredFrameCount then zmsg.setAt framesReceived frame
      else zmsg
    if rest.isEmpty then some (framesReceived + 1, zmsg)
    else receiveFrames rest (framesReceived + 1) zmsg

/-- The message in the frames, if the command is one; the constructor of the
topic throws. -/
def readMessage {format : MessageFormat} (zmsg : ZmqMessage format) :
    Except UriError (Option (BasicMessage format)) :=
  match zmsg.frame .command with
  | [command] =>
    if command > heartbeat.toByte then .ok none
    else
      let sourceId : format.SourceId := match format, zmsg with
        | .withSourceId, zmsg => zmsg.frame .sourceId
        | .withoutSourceId, _ => ()
      (Uri.ofBytes .strict (zmsg.frame .topic)).map fun topic => some {
        sourceId
        protocolName := zmsg.frame .protocol
        command := Command.ofByte command
        serviceName := zmsg.frame .serviceName
        clientRequestID := zmsg.frame .clientRequestId
        topic
        data := zmsg.frame .body
        error := zmsg.frame .error
        rbac := zmsg.frame .rbac }
  | _ => .ok none

/-- `zmq::receive`. -/
def receive (format : MessageFormat) (arrivals : List (Option Bytes)) :
    Except UriError (Option (BasicMessage format)) :=
  match receiveFrames arrivals 0 (ZmqMessage.empty : ZmqMessage format) with
  | none => .ok none
  | some (framesReceived, zmsg) =>
    if framesReceived ≠ format.requiredFrameCount then .ok none else readMessage zmsg

/-! ## The loop -/

section

variable {format : MessageFormat}

theorem receiveFrames_eq_some : ∀ {arrivals : List (Option Bytes)} {n k : Nat}
    {z z' : ZmqMessage format}, receiveFrames arrivals n z = some (k, z') →
      ∃ frames : List Bytes, arrivals = frames.map some ∧ k = n + frames.length ∧
        (k = format.requiredFrameCount → z'.frames = z.frames.take n ++ frames)
  | [], n, k, z, z', h => by cases h
  | none :: rest, n, k, z, z', h => by cases h
  | some frame :: rest, n, k, z, z', h => by
    rw [receiveFrames] at h
    -- what the array holds up to the next frame, if that frame still fits
    have htake : n < format.requiredFrameCount →
        (if n < format.requiredFrameCount then z.setAt n frame else z).frames.take (n + 1)
          = z.frames.take n ++ [frame] := by
      intro hn
      have hlen : n < (z.frames.set n frame).length := by rw [length_set, z.count]; exact hn
      rw [if_pos hn, ZmqMessage.setAt, take_succ_eq_append_getElem hlen, getElem_set_self,
        take_set_of_le le_rfl]
    by_cases hrest : rest.isEmpty = true
    · rw [if_pos hrest] at h
      cases h
      obtain rfl := isEmpty_iff.mp hrest
      refine ⟨[frame], rfl, rfl, fun hk => ?_⟩
      have hn : n < format.requiredFrameCount := by omega
      rw [← htake hn, take_of_length_le]
      rw [ZmqMessage.count, hk]
    · rw [if_neg hrest] at h
      obtain ⟨frames, rfl, hk, hframes⟩ := receiveFrames_eq_some h
      refine ⟨frame :: frames, rfl, by rw [hk, length_cons]; omega, fun hcnt => ?_⟩
      have hn : n < format.requiredFrameCount := by omega
      rw [hframes hcnt, htake hn, append_assoc]
      rfl

theorem receiveFrames_of_length : ∀ {frames : List Bytes} {n : Nat} (z : ZmqMessage format),
    frames ≠ [] → ∃ z', receiveFrames (frames.map some) n z = some (n + frames.length, z')
  | [], _, _, h => absurd rfl h
  | frame :: frames, n, z, _ => by
    rw [map_cons, receiveFrames]
    by_cases hrest : frames = []
    · subst hrest
      exact ⟨_, rfl⟩
    · rw [if_neg (by simpa using hrest)]
      obtain ⟨z', hz'⟩ := receiveFrames_of_length
        (if n < format.requiredFrameCount then z.setAt n frame else z) hrest
      exact ⟨z', by rw [hz', length_cons]; congr 2; omega⟩

/-- The frames of a message, in a list of the right length. -/
theorem receiveFrames_eq {frames : List Bytes} (h : frames.length = format.requiredFrameCount) :
    receiveFrames (frames.map some) 0 (ZmqMessage.empty : ZmqMessage format)
      = some (format.requiredFrameCount, ⟨frames, h⟩) := by
  have hne : frames ≠ [] := by
    rintro rfl
    cases format <;> cases h
  obtain ⟨z', hz'⟩ := receiveFrames_of_length (ZmqMessage.empty : ZmqMessage format) hne
  obtain ⟨_, hmap, -, hframes⟩ := receiveFrames_eq_some hz'
  obtain rfl := map_injective_iff.mpr (Option.some_injective _) hmap
  rw [hz', Nat.zero_add, h]
  have heq : z' = ⟨frames, h⟩ := ZmqMessage.ext (by simpa using hframes (by omega))
  rw [heq]

/-! ## The message in the frames -/

theorem send_withSourceId (m : BasicMessage .withSourceId) :
    send m = [m.sourceId, m.protocolName, [m.command.toByte], m.serviceName, m.clientRequestID,
      m.topic.str, m.data, m.error, m.rbac] := rfl

theorem send_withoutSourceId (m : BasicMessage .withoutSourceId) :
    send m = [m.protocolName, [m.command.toByte], m.serviceName, m.clientRequestID,
      m.topic.str, m.data, m.error, m.rbac] := rfl

theorem length_send (m : BasicMessage format) : (send m).length = format.requiredFrameCount := by
  cases format <;> rfl

/-- The frames are those the enumeration names. -/
theorem frames_withSourceId (z : ZmqMessage .withSourceId) :
    z.frames = [z.frame .sourceId, z.frame .protocol, z.frame .command, z.frame .serviceName,
      z.frame .clientRequestId, z.frame .topic, z.frame .body, z.frame .error, z.frame .rbac] := by
  obtain ⟨frames, count⟩ := z
  match frames, count with
  | [_, _, _, _, _, _, _, _, _], _ => rfl

theorem frames_withoutSourceId (z : ZmqMessage .withoutSourceId) :
    z.frames = [z.frame .protocol, z.frame .command, z.frame .serviceName,
      z.frame .clientRequestId, z.frame .topic, z.frame .body, z.frame .error, z.frame .rbac] := by
  obtain ⟨frames, count⟩ := z
  match frames, count with
  | [_, _, _, _, _, _, _, _], _ => rfl

/-- What a message is read from. -/
theorem readMessage_eq_ok {z : ZmqMessage format} {m : BasicMessage format}
    (h : readMessage z = .ok (some m)) : z.frames = send m := by
  unfold readMessage at h
  split at h
  · rename_i command hcmd
    by_cases hle : command > heartbeat.toByte
    · rw [if_pos hle] at h
      cases h
    rw [if_neg hle] at h
    obtain ⟨_, htopic, hm⟩ := map_eq_ok.mp h
    have hbyte : (Command.ofByte command).toByte = command :=
      Command.toByte_ofByte (UInt8.not_lt.mp hle)
    have hstr := Uri.str_of_ofBytes htopic
    cases hm
    cases format with
    | withSourceId =>
      rw [send_withSourceId, frames_withSourceId]
      rw [hbyte, hcmd, hstr]
      rfl
    | withoutSourceId =>
      rw [send_withoutSourceId, frames_withoutSourceId]
      rw [hbyte, hcmd, hstr]
  · cases h

theorem readMessage_send (m : BasicMessage format) :
    readMessage ⟨send m, length_send m⟩ = .ok (some m) := by
  have hcmd : ¬m.command.toByte > heartbeat.toByte :=
    UInt8.not_lt.mpr m.command.toByte_le
  cases format with
  | withSourceId | withoutSourceId =>
    show (if m.command.toByte > _ then _ else (Uri.ofBytes .strict m.topic.str).map _) = _
    rw [if_neg hcmd, Uri.ofBytes_str, Command.ofByte_toByte]
    rfl

/-- What is received as a message is what was sent for it, and the other way round. -/
theorem receive_eq_ok_iff (format : MessageFormat) (arrivals : List (Option Bytes))
    (m : BasicMessage format) :
    receive format arrivals = .ok (some m) ↔ arrivals = (send m).map some := by
  constructor
  · intro h
    unfold receive at h
    split at h
    · cases h
    · rename_i k z hframes
      by_cases hcnt : k = format.requiredFrameCount
      swap
      · rw [if_pos hcnt] at h
        cases h
      rw [if_neg (not_not.mpr hcnt)] at h
      obtain ⟨_, rfl, -, hz⟩ := receiveFrames_eq_some hframes
      have hz := hz hcnt
      rw [take_zero, nil_append] at hz
      rw [← readMessage_eq_ok h, hz]
  · rintro rfl
    rw [receive, receiveFrames_eq (length_send m)]
    dsimp only
    rw [if_neg (by simp)]
    exact readMessage_send m

/-! ## Exceptions -/

/-- If the frames are counted and the command is one, the topic is a URI. -/
def TopicAccepted (format : MessageFormat) (arrivals : List (Option Bytes)) : Prop :=
  ∀ frames : List Bytes, arrivals = frames.map some → frames.length = format.requiredFrameCount →
    ∀ command ≤ heartbeat.toByte, frames[Frame.index format .command]? = some [command] →
      ∃ topic, frames[Frame.index format .topic]? = some topic ∧
        ∃ parts, parseURI .strict topic = .ok parts

theorem frame_eq (z : ZmqMessage format) (f : Frame) :
    z.frames[f.index format]? = some (z.frame f) := by
  have hidx : f.index format < z.frames.length := by
    rw [z.count]
    cases format <;> cases f <;> decide
  rw [ZmqMessage.frame, getElem?_eq_getElem hidx]
  rfl

/-- The constructor of the topic is the only thing that throws. -/
theorem readMessage_returns_iff (z : ZmqMessage format) :
    (∃ r, readMessage z = .ok r) ↔ ∀ command ≤ heartbeat.toByte,
      z.frame .command = [command] → ∃ parts, parseURI .strict (z.frame .topic) = .ok parts := by
  unfold readMessage
  split
  · rename_i command hcmd
    by_cases hle : command > heartbeat.toByte
    · rw [if_pos hle]
      refine iff_of_true ⟨none, rfl⟩ fun c hc hframe => ?_
      rw [hcmd] at hframe
      obtain rfl := (cons.inj hframe).1
      exact absurd hle (UInt8.not_lt.mpr hc)
    · rw [if_neg hle]
      constructor
      · rintro ⟨r, hr⟩ c - -
        obtain ⟨topic, htopic, -⟩ := map_eq_ok.mp hr
        exact ⟨topic.parts, Uri.str_of_ofBytes htopic ▸ topic.parsed⟩
      · intro h
        obtain ⟨parts, hparts⟩ := h command (UInt8.not_lt.mp hle) hcmd
        rw [Uri.ofBytes_eq_ok hparts]
        exact ⟨_, rfl⟩
  · rename_i hcmd
    exact iff_of_true ⟨none, rfl⟩ fun c _ hframe => absurd hframe (hcmd c)

theorem receive_returns_iff (format : MessageFormat) (arrivals : List (Option Bytes)) :
    (∃ r, receive format arrivals = .ok r) ↔ TopicAccepted format arrivals := by
  by_cases hframes : ∃ frames : List Bytes, arrivals = frames.map some ∧
      frames.length = format.requiredFrameCount
  · obtain ⟨frames, rfl, hlen⟩ := hframes
    have hread : receive format (frames.map some) = readMessage ⟨frames, hlen⟩ := by
      rw [receive, receiveFrames_eq hlen]
      exact if_neg (not_not.mpr rfl)
    rw [hread, readMessage_returns_iff, TopicAccepted]
    have hframe := frame_eq (⟨frames, hlen⟩ : ZmqMessage format)
    constructor
    · intro h frames' hmap _ command hle hcmd
      obtain rfl := map_injective_iff.mpr (Option.some_injective _) hmap
      obtain ⟨parts, hparts⟩ := h command hle
        (Option.some.inj ((hframe .command).symm.trans hcmd))
      exact ⟨_, hframe .topic, parts, hparts⟩
    · intro h command hle hcmd
      obtain ⟨_, htopic, hparts⟩ := h frames rfl hlen command hle
        ((hframe .command).trans (congrArg some hcmd))
      rwa [Option.some.inj ((hframe .topic).symm.trans htopic)]
  · refine iff_of_true ?_ fun frames hmap hlen => absurd ⟨frames, hmap, hlen⟩ hframes
    rw [receive]
    split
    · exact ⟨none, rfl⟩
    · rename_i k z hsome
      obtain ⟨frames, hmap, hk, -⟩ := receiveFrames_eq_some hsome
      rw [Nat.zero_add] at hk
      rw [if_pos fun hcnt => hframes ⟨frames, hmap, hk.symm.trans hcnt⟩]
      exact ⟨none, rfl⟩

/-- Frames as a client sends them, with a blank in the topic. -/
def blankTopicFrames : List Bytes :=
  [clientProtocol, [Command.get.toByte], str "/service", str "1", str "/a b", [], [], []]

/-- It throws on the broker's sockets and on a worker's. -/
theorem blank_in_topic_throws :
    (receive .withSourceId ((str "client" :: blankTopicFrames).map some)).isOk = false ∧
    (receive .withoutSourceId (blankTopicFrames.map some)).isOk = false := by
  decide +kernel

end

end OpenCmw
