import FastTransfer.Server.Calls
import FastTransfer.Cli.Signaling

/-!
# How a sender and a receiver meet

`send_file` and `receive_file` up to the streams, with the signaling server between
them. The server has any other clients, and the handlers, the sockets and the two
programs take their steps in any order. A message passes through two JSON
libraries, `encoding/json` and `serde_json`, which are parameters.
-/

namespace FastTransfer.Cli.Rendezvous

open Server (Role)
open Server.Signaling (Message Exchange Hub Sent Attends Opposite Seated Addressed Called Met
  OfServer anywhere peerJoined peerDisconnected)
open Cli.Signaling (SignalMessage ConnectInfo Frame Error Outcome verdict onPeerJoined onReady
  onConnectInfo)

/-- The JSON libraries of the server and of the programs. -/
structure Json (V : Type) where
  marshal : Message → String
  unmarshal : String → Option Message
  toStr : SignalMessage V → String
  fromStr : String → Option (SignalMessage V)
  toValue : ConnectInfo → V
  fromValue : V → Option ConnectInfo
  /-- `Value::String` -/
  string : String → V
  asStr : V → Option String

/-- `&s[..n]` does not panic. -/
def sliceable (s : String) (n : Nat) : Bool :=
  (List.range (s.toList.length + 1)).any fun k => ((s.toList.take k).map Char.utf8Size).sum = n

/-- Where `send_file` stands. -/
inductive SendFile where
  | waitingPeer
  | waitingReady
  /-- It is about to accept the streams. -/
  | accepting (receiverAddr : Option String)
  | failed (e : Error)
  | panicked
  deriving DecidableEq

/-- Where `receive_file` stands. -/
inductive ReceiveFile where
  | waitingInfo
  /-- It is about to open the streams. -/
  | connecting (info : ConnectInfo)
  | failed (e : Error)
  | panicked
  deriving DecidableEq

variable {V : Type}

section Programs

variable (json : Json V) (info : ConnectInfo)

/-- The message with which the sender offers its streams. -/
def connectInfoMessage : SignalMessage V :=
  { msgType := "connect-info", payload := some (json.toValue info), roomId := none }

/-- The receiver's answer to it. -/
def readyMessage : SignalMessage V :=
  { msgType := "ready", payload := some (json.string "direct"), roomId := none }

/-- `send_file` gets a frame; with the message that it sends then. -/
def sendFile (frame : Frame) : SendFile → Option (SendFile × Option (SignalMessage V))
  | .waitingPeer => some <|
      match verdict json.fromStr onPeerJoined frame with
      | none => (.waitingPeer, none)
      | some (.ok ()) => (.waitingReady, some (connectInfoMessage json info))
      | some (.err e) => (.failed e, none)
      | some .panic => (.panicked, none)
  | .waitingReady => some <|
      match verdict json.fromStr (onReady json.asStr) frame with
      | none => (.waitingReady, none)
      | some (.ok receiverAddr) => (.accepting receiverAddr, none)
      | some (.err e) => (.failed e, none)
      | some .panic => (.panicked, none)
  | .accepting _ | .failed _ | .panicked => none

/-- `receive_file` gets a frame; with the message that it sends then. -/
def receiveFile (frame : Frame) : ReceiveFile → Option (ReceiveFile × Option (SignalMessage V))
  | .waitingInfo => some <|
      match verdict json.fromStr (onConnectInfo json.fromValue) frame with
      | none => (.waitingInfo, none)
      | some (.ok info) =>
          -- it prints the first part of the checksum
          if sliceable info.fileHeader.checksum 16 then
            (.connecting info, some (readyMessage json))
          else (.panicked, none)
      | some (.err e) => (.failed e, none)
      | some .panic => (.panicked, none)
  | .connecting _ | .failed _ | .panicked => none

end Programs

/-- The signaling server and the two programs. -/
structure Session (V : Type) where
  exchange : Exchange := {}
  sendFile : SendFile := .waitingPeer
  receiveFile : ReceiveFile := .waitingInfo
  /-- How many messages of the server each program has got. -/
  taken : Role → Nat := fun _ => 0
  /-- What each program has sent. -/
  said : Role → List (SignalMessage V) := fun _ => []

/-- What can happen to the two programs and around them. -/
inductive Action where
  /-- A step of the server or of another client. -/
  | network (a : Exchange.Action)
  /-- A program gets the next message of the server. -/
  | recv (role : Role)
  /-- The socket of a program fails. -/
  | breaks (role : Role)

section System

variable (json : Json V) (info : ConnectInfo) (who : Role → Nat)

/-- What the server has sent to a program, whose connection has the number `who`. -/
def inbox (x : Session V) (role : Role) : List Message :=
  (x.exchange.hub.sent.filter (·.client = who role)).map (·.message)

/-- `SignalingClient::send`, if there is something to send. -/
def say (x : Session V) (role : Role) (msg : Option (SignalMessage V)) : Session V :=
  { x with
    exchange := { x.exchange with
      outbox := Function.update x.exchange.outbox (who role) (x.exchange.outbox (who role) ++
        msg.toList.map fun msg => json.unmarshal (json.toStr msg)) }
    said := Function.update x.said role (x.said role ++ msg.toList) }

/-- A program gets a frame. -/
def get (x : Session V) (frame : Frame) : Role → Option (Session V)
  | .sender => do
      let (next, msg) ← sendFile json info frame x.sendFile
      some (say json who { x with sendFile := next } .sender msg)
  | .receiver => do
      let (next, msg) ← receiveFile json frame x.receiveFile
      some (say json who { x with receiveFile := next } .receiver msg)

/-- One step of the programs and the server. -/
def step (x : Session V) : Action → Option (Session V)
  | .network (.send c frame) =>
      if c = who .sender ∨ c = who .receiver then none
      else (Exchange.step x.exchange (.send c frame)).map fun exchange => { x with exchange }
  | .network a => (Exchange.step x.exchange a).map fun exchange => { x with exchange }
  | .recv role => do
      let message ← (inbox who x role)[x.taken role]?
      let x ← get json info who x (.text (json.marshal message)) role
      some { x with taken := Function.update x.taken role (x.taken role + 1) }
  | .breaks role => get json info who x .error role

end System

/-! ## What the programs make of a message -/

/-- A message that the server sends of its own. -/
def OfServerKind (m : Message) : Prop :=
  m = peerDisconnected ∨ m = peerJoined "receiver" ∨ m = peerJoined "sender"

/-- What the libraries are relied on for: the server makes `offer` and `ready` of the
messages of the programs, and each program gets back what the other one has sent. -/
structure Json.Lawful (json : Json V) (info : ConnectInfo) (offer ready : Message) : Prop where
  joined : ∀ role ∈ ["receiver", "sender"],
    (json.fromStr (json.marshal (peerJoined role))).map (·.msgType) = some "peer-joined"
  disconnected : (json.fromStr (json.marshal peerDisconnected)).map (·.msgType) =
    some "peer-disconnected"
  read_offer : json.unmarshal (json.toStr (connectInfoMessage json info)) = some offer
  parse_offer : json.fromStr (json.marshal offer) = some (connectInfoMessage json info)
  read_ready : json.unmarshal (json.toStr (readyMessage json)) = some ready
  parse_ready : json.fromStr (json.marshal ready) = some (readyMessage json)
  value : json.fromValue (json.toValue info) = some info
  string : json.asStr (json.string "direct") = some "direct"
  /-- `send_file` has printed the same part of it. -/
  checksum : sliceable info.fileHeader.checksum 16 = true

section Verdicts

variable {json : Json V} {info : ConnectInfo} {offer ready m : Message}

/-- The type of a message tells what it is. -/
def kind (json : Json V) (m : Message) : Option String :=
  (json.fromStr (json.marshal m)).map (·.msgType)

theorem Json.Lawful.kind_offer (h : json.Lawful info offer ready) :
    kind json offer = some "connect-info" := by
  rw [kind, h.parse_offer]
  rfl

theorem Json.Lawful.kind_ready (h : json.Lawful info offer ready) :
    kind json ready = some "ready" := by
  rw [kind, h.parse_ready]
  rfl

theorem Json.Lawful.kind_ofServer (h : json.Lawful info offer ready) (hm : OfServerKind m) :
    kind json m = some "peer-disconnected" ∨ kind json m = some "peer-joined" := by
  rcases hm with rfl | rfl | rfl
  · exact .inl h.disconnected
  · exact .inr (h.joined _ (by simp))
  · exact .inr (h.joined _ (by simp))

theorem Json.Lawful.offer_ne (h : json.Lawful info offer ready) (hm : OfServerKind m) :
    m ≠ offer := by
  rintro rfl
  rcases h.kind_ofServer hm with hkind | hkind <;> simp [h.kind_offer] at hkind

theorem Json.Lawful.ready_ne (h : json.Lawful info offer ready) (hm : OfServerKind m) :
    m ≠ ready := by
  rintro rfl
  rcases h.kind_ofServer hm with hkind | hkind <;> simp [h.kind_ready] at hkind

theorem verdict_onPeerJoined {type : String} (hkind : kind json m = some type) :
    verdict json.fromStr onPeerJoined (.text (json.marshal m)) =
      if type = "peer-joined" then some (.ok ()) else none := by
  obtain ⟨msg, hparse, rfl⟩ := Option.map_eq_some_iff.mp hkind
  simp only [verdict, hparse, onPeerJoined]

theorem verdict_onReady {type : String} (hkind : kind json m = some type) (hne : type ≠ "ready") :
    verdict json.fromStr (onReady json.asStr) (.text (json.marshal m)) = none := by
  obtain ⟨msg, hparse, rfl⟩ := Option.map_eq_some_iff.mp hkind
  simp only [verdict, hparse, onReady, if_neg hne]

theorem verdict_onConnectInfo {type : String} (hkind : kind json m = some type)
    (hne : type ≠ "connect-info") :
    verdict json.fromStr (onConnectInfo json.fromValue) (.text (json.marshal m)) = none := by
  obtain ⟨msg, hparse, rfl⟩ := Option.map_eq_some_iff.mp hkind
  simp only [verdict, hparse]
  exact Cli.Signaling.onConnectInfo_of_ne json.fromValue hne

end Verdicts

/-! ## Where the programs stand -/

section Stages

variable (json : Json V) (info : ConnectInfo) (offer ready : Message)

/-- What `send_file` has sent and what it has been sent, by where it stands. -/
def SendFile.Stage (said : List (SignalMessage V)) (heard : List Message) : SendFile → Prop
  | .waitingPeer => said = [] ∧ peerJoined "receiver" ∉ heard
  | .waitingReady => said = [connectInfoMessage json info] ∧ ready ∉ heard
  | .accepting receiverAddr => said = [connectInfoMessage json info] ∧ ready ∈ heard ∧
      receiverAddr = some "direct"
  | .failed e => (said = [] ∨ said = [connectInfoMessage json info]) ∧ e = .webSocket
  | .panicked => False

/-- What `receive_file` has sent and what it has been sent, by where it stands. -/
def ReceiveFile.Stage (said : List (SignalMessage V)) (heard : List Message) : ReceiveFile → Prop
  | .waitingInfo => said = [] ∧ offer ∉ heard
  | .connecting info' => said = [readyMessage json] ∧ offer ∈ heard ∧ info' = info
  | .failed e => said = [] ∧ e = .webSocket
  | .panicked => False

/-- What a program gets: an error of its socket, or a message of a kind. -/
inductive Gets (p : Message → Prop) : Frame → List Message → Prop where
  | error : Gets p .error []
  | message (m : Message) (hm : p m) : Gets p (.text (json.marshal m)) [m]

variable {json info offer ready} {said : List (SignalMessage V)} {heard new : List Message}
  {frame : Frame} {msg : Option (SignalMessage V)}

theorem SendFile.Stage.get (hlaw : json.Lawful info offer ready) {place next : SendFile}
    (h : place.Stage json info ready said heard)
    (hgets : Gets json (fun m => OfServerKind m ∨ m = ready ∧ said ≠ []) frame new)
    (hheard : said = [] → ready ∉ heard)
    (hget : sendFile json info frame place = some (next, msg)) :
    next.Stage json info ready (said ++ msg.toList) (heard ++ new) := by
  cases place with
  | waitingPeer =>
      obtain ⟨rfl, hjoined⟩ := h
      cases hgets with
      | error =>
          obtain ⟨rfl, rfl⟩ := Prod.mk.inj (Option.some.inj hget)
          exact ⟨.inl rfl, rfl⟩
      | message m hm =>
          have hkind : OfServerKind m := hm.resolve_right fun h => h.2 rfl
          rcases hlaw.kind_ofServer hkind with hkind' | hkind'
          · simp only [sendFile, verdict_onPeerJoined hkind'] at hget
            obtain ⟨rfl, rfl⟩ := Prod.mk.inj (Option.some.inj hget)
            refine ⟨rfl, ?_⟩
            have hne : peerJoined "receiver" ≠ m := by
              rintro rfl
              have hjoined' := hlaw.joined "receiver" (by simp)
              simp [kind, hjoined'] at hkind'
            simpa [hjoined] using hne
          · simp only [sendFile, verdict_onPeerJoined hkind'] at hget
            obtain ⟨rfl, rfl⟩ := Prod.mk.inj (Option.some.inj hget)
            refine ⟨rfl, ?_⟩
            simpa [hheard rfl] using (hlaw.ready_ne hkind).symm
  | waitingReady =>
      obtain ⟨rfl, hready⟩ := h
      cases hgets with
      | error =>
          obtain ⟨rfl, rfl⟩ := Prod.mk.inj (Option.some.inj hget)
          exact ⟨.inr rfl, rfl⟩
      | message m hm =>
          rcases hm with hm | ⟨rfl, -⟩
          · have hverdict : verdict json.fromStr (onReady json.asStr) (.text (json.marshal m)) =
                none := by
              rcases hlaw.kind_ofServer hm with hkind | hkind
              · exact verdict_onReady hkind (by decide)
              · exact verdict_onReady hkind (by decide)
            simp only [sendFile, hverdict] at hget
            obtain ⟨rfl, rfl⟩ := Prod.mk.inj (Option.some.inj hget)
            refine ⟨rfl, ?_⟩
            simpa [hready] using (hlaw.ready_ne hm).symm
          · have hverdict : verdict json.fromStr (onReady json.asStr) (.text (json.marshal m)) =
                some (.ok (some "direct")) := by
              simp [verdict, hlaw.parse_ready, onReady, readyMessage, hlaw.string]
            simp only [sendFile, hverdict] at hget
            obtain ⟨rfl, rfl⟩ := Prod.mk.inj (Option.some.inj hget)
            exact ⟨rfl, by simp, rfl⟩
  | accepting _ | failed _ | panicked => cases hget

theorem ReceiveFile.Stage.get (hlaw : json.Lawful info offer ready) {place next : ReceiveFile}
    (h : place.Stage json info offer said heard)
    (hgets : Gets json (fun m => OfServerKind m ∨ m = offer) frame new)
    (hget : receiveFile json frame place = some (next, msg)) :
    next.Stage json info offer (said ++ msg.toList) (heard ++ new) := by
  cases place with
  | waitingInfo =>
      obtain ⟨rfl, hoffer⟩ := h
      cases hgets with
      | error =>
          obtain ⟨rfl, rfl⟩ := Prod.mk.inj (Option.some.inj hget)
          exact ⟨rfl, rfl⟩
      | message m hm =>
          rcases hm with hm | rfl
          · have hverdict : verdict json.fromStr (onConnectInfo json.fromValue)
                (.text (json.marshal m)) = none := by
              rcases hlaw.kind_ofServer hm with hkind | hkind
              · exact verdict_onConnectInfo hkind (by decide)
              · exact verdict_onConnectInfo hkind (by decide)
            simp only [receiveFile, hverdict] at hget
            obtain ⟨rfl, rfl⟩ := Prod.mk.inj (Option.some.inj hget)
            refine ⟨rfl, ?_⟩
            simpa [hoffer] using (hlaw.offer_ne hm).symm
          · have hverdict : verdict json.fromStr (onConnectInfo json.fromValue)
                (.text (json.marshal m)) = some (.ok info) := by
              simp [verdict, hlaw.parse_offer, onConnectInfo, connectInfoMessage, hlaw.value]
            simp only [receiveFile, hverdict, hlaw.checksum, if_true] at hget
            obtain ⟨rfl, rfl⟩ := Prod.mk.inj (Option.some.inj hget)
            exact ⟨rfl, by simp, rfl⟩
  | connecting _ | failed _ | panicked => cases hget

end Stages

end FastTransfer.Cli.Rendezvous
