import FastTransfer.Server.RelayHub

/-!
# Rooms and signaling handlers

`internal/signaling` and `HandleWebSocket`, `HandleCreateRoom` of
`internal/handlers/handlers.go`, for any number of requests. A step runs one
handler up to its next operation on shared data: the map of rooms, the fields of
a room under its lock, a message sent to a client. Clients have the number of
their handler. `Send` is logged whether or not the connection still works: the
handlers ignore its error.
-/

namespace FastTransfer.Server.Signaling

/-- A `Message` of the signaling protocol. -/
structure Message where
  type : String
  /-- As JSON text; empty if there is none. -/
  payload : String := ""
  roomID : String := ""
  deriving DecidableEq

/-- "peer-joined", with the role of the peer. -/
def peerJoined (role : String) : Message := { type := "peer-joined", payload := role }

/-- What the peer of a client that leaves is sent. -/
def peerDisconnected : Message := { type := "peer-disconnected" }

/-- A `Room`; a client is the number of its handler. -/
structure Room where
  id : String
  sender : Option Nat := none
  receiver : Option Nat := none
  deriving DecidableEq

namespace Room

/-- `SetSender`. -/
def setSender (room : Room) (c : Nat) : Room := { room with sender := some c }

/-- `SetReceiver`. -/
def setReceiver (room : Room) (c : Nat) : Room := { room with receiver := some c }

/-- The other peer in the room. -/
def getPeer (room : Room) : Role → Option Nat
  | .sender => room.receiver
  | .receiver => room.sender

/-- `IsReady`: both sender and receiver are there. -/
def isReady (room : Room) : Bool := room.sender.isSome && room.receiver.isSome

/-- `SetSender` or `SetReceiver`, by the role. -/
def set (room : Room) (c : Nat) : Role → Room
  | .sender => room.setSender c
  | .receiver => room.setReceiver c

end Room

/-- Where a handler of `HandleWebSocket` stands, with its variable `room` from
the lookup on. -/
inductive Pc where
  | started
  /-- A sender has found no room. -/
  | noRoom
  | gotRoom (room : Nat)
  | upgraded (room : Nat)
  /-- The client is stored in the room. -/
  | attached (room : Nat)
  /-- `IsReady` was true. -/
  | ready (room : Nat)
  /-- The sender has been sent "peer-joined". -/
  | toldSender (room : Nat)
  /-- In `ReadMessage`. -/
  | reading (room : Nat)
  | forwarding (room : Nat) (message : Message)
  | forwardingTo (room : Nat) (message : Message) (peer : Nat)
  /-- `ReadMessage` has failed, and the connection is closed. -/
  | closed (room : Nat)
  | telling (room : Nat) (peer : Option Nat)
  | told (room : Nat)
  | ended (room : Nat)
  /-- Answered 404, or not upgraded. -/
  | rejected
  deriving DecidableEq

/-- A call of `HandleWebSocket`. -/
structure Handler where
  room : String
  role : Role
  pc : Pc := .started
  deriving DecidableEq

/-- A call of `Send`; `origin` is the client whose message is forwarded. -/
structure Sent where
  client : Nat
  message : Message
  origin : Option Nat := none
  deriving DecidableEq

/-- The hub with its map of rooms, and the handlers in the order of their requests. -/
structure Hub where
  rooms : String → Option Nat := fun _ => none
  /-- All rooms that were ever created. -/
  heap : List Room := []
  handlers : List Handler := []
  /-- The calls of `Send`, in their order. -/
  sent : List Sent := []
  /-- The clients in the order in which they were stored in their rooms. -/
  arrivals : List Nat := []

namespace Hub

/-- `CreateRoom` and `CreateRoomWithID`: whatever the id was mapped to is
replaced. -/
def createRoomWithID (s : Hub) (id : String) : Nat × Hub :=
  (s.heap.length, { s with
    rooms := Function.update s.rooms id (some s.heap.length), heap := s.heap ++ [{ id }] })

/-- `GetRoom`. -/
def getRoom (s : Hub) (id : String) : Option Nat := s.rooms id

/-- `RemoveRoom`. -/
def removeRoom (s : Hub) (id : String) : Hub :=
  { s with rooms := Function.update s.rooms id none }

/-- The handler `h` goes on to `pc`. -/
def goto (s : Hub) (h : Nat) (handler : Handler) (pc : Pc) : Hub :=
  { s with handlers := s.handlers.set h { handler with pc } }

/-- `client.Send(message)`, with the client that the message came from. -/
def send (s : Hub) (client : Nat) (message : Message) (origin : Option Nat) : Hub :=
  { s with sent := s.sent ++ [⟨client, message, origin⟩] }

/-- The end of a handler. -/
def cleanUp (s : Hub) (handler : Handler) : Hub :=
  match handler.role with
  | .sender => s.removeRoom handler.room
  | .receiver => s

/-- The client of `h` is stored in a room. -/
def setClient (s : Hub) (r : Nat) (room : Room) (h : Nat) (role : Role) : Hub :=
  { s with heap := s.heap.set r (room.set h role), arrivals := s.arrivals ++ [h] }

/-- The next step of the handler `h`, except where it waits for its connection. -/
def handleWebSocket (s : Hub) (h : Nat) : Option Hub := do
  let handler ← s.handlers[h]?
  match handler.pc with
  | .started =>
      match s.getRoom handler.room, handler.role with
      | some r, _ => some (s.goto h handler (.gotRoom r))
      -- a sender creates the room if it comes first
      | none, .sender => some (s.goto h handler .noRoom)
      | none, .receiver => some (s.goto h handler .rejected)
  | .noRoom =>
      let (r, s) := s.createRoomWithID handler.room
      some (s.goto h handler (.gotRoom r))
  | .gotRoom r => some (s.goto h handler (.upgraded r))
  | .upgraded r => do
      let room ← s.heap[r]?
      some ((s.setClient r room h handler.role).goto h handler (.attached r))
  | .attached r => do
      let room ← s.heap[r]?
      some (s.goto h handler (if room.isReady then .ready r else .reading r))
  | .ready r => do
      let room ← s.heap[r]?
      let client ← room.sender
      some ((s.send client (peerJoined "receiver") none).goto h handler (.toldSender r))
  | .toldSender r => do
      let room ← s.heap[r]?
      let client ← room.receiver
      some ((s.send client (peerJoined "sender") none).goto h handler (.reading r))
  | .forwarding r message => do
      let room ← s.heap[r]?
      match room.getPeer handler.role with
      | some peer => some (s.goto h handler (.forwardingTo r message peer))
      | none => some (s.goto h handler (.reading r))
  | .forwardingTo r message peer =>
      some ((s.send peer message (some h)).goto h handler (.reading r))
  | .closed r => do
      let room ← s.heap[r]?
      some (s.goto h handler (.telling r (room.getPeer handler.role)))
  | .telling r (some peer) => some ((s.send peer peerDisconnected none).goto h handler (.told r))
  | .telling r none => some (s.goto h handler (.told r))
  | .told r => some ((s.cleanUp handler).goto h handler (.ended r))
  | .reading _ | .ended _ | .rejected => none

/-- `Upgrade` fails. -/
def upgradeFails (s : Hub) (h : Nat) : Option Hub := do
  let handler ← s.handlers[h]?
  match handler.pc with
  | .gotRoom _ => some (s.goto h handler .rejected)
  | _ => none

/-- `ReadMessage` returns a message; `none` if it is no JSON of a message. -/
def readMessage (s : Hub) (h : Nat) (message : Option Message) : Option Hub := do
  let handler ← s.handlers[h]?
  match handler.pc, message with
  | .reading r, some message => some (s.goto h handler (.forwarding r message))
  | .reading r, none => some (s.goto h handler (.reading r))
  | _, _ => none

/-- `ReadMessage` fails; the connection is closed. -/
def readFails (s : Hub) (h : Nat) : Option Hub := do
  let handler ← s.handlers[h]?
  match handler.pc with
  | .reading r => some (s.goto h handler (.closed r))
  | _ => none

/-- The checks of the parameters of `/ws`; `none` is the answer 400. -/
def connect (s : Hub) (room role : String) : Option Hub :=
  if room = "" then none
  else if role = "sender" then some { s with handlers := s.handlers ++ [{ room, role := .sender }] }
  else if role = "receiver" then
    some { s with handlers := s.handlers ++ [{ room, role := .receiver }] }
  else none

/-- `HandleCreateRoom`, with the id that `generateRoomID` returns. -/
def createRoom (s : Hub) (method id : String) : Option Hub :=
  if method ≠ "POST" then none else some (s.createRoomWithID id).2

end Hub

/-- A request comes, or a handler goes on. -/
inductive Action where
  | createRoom (method id : String)
  | connect (room role : String)
  | handle (h : Nat)
  | upgradeFails (h : Nat)
  | readMessage (h : Nat) (message : Option Message)
  | readFails (h : Nat)

/-- The handler that an action is about. -/
def Action.mover : Action → Option Nat
  | .handle h | .upgradeFails h | .readMessage h _ | .readFails h => some h
  | .createRoom _ _ | .connect _ _ => none

/-- One step of the server. -/
def step (s : Hub) : Action → Option Hub
  | .createRoom method id => s.createRoom method id
  | .connect room role => s.connect room role
  | .handle h => s.handleWebSocket h
  | .upgradeFails h => s.upgradeFails h
  | .readMessage h message => s.readMessage h message
  | .readFails h => s.readFails h

/-! ## The steps -/

/-- The hub after more calls of `Send`. -/
def Hub.log (s : Hub) (calls : List Sent) : Hub := { s with sent := s.sent ++ calls }

@[simp] theorem Hub.log_nil (s : Hub) : s.log [] = s := by
  simp [log]

/-- A handler goes on to a place, with the calls of `Send` it makes on the way,
and changes nothing but the log. -/
inductive Moves (s : Hub) (h : Nat) (handler : Handler) : Pc → List Sent → Prop where
  | found {r : Nat} (hpc : handler.pc = .started) (hroom : s.rooms handler.room = some r) :
      Moves s h handler (.gotRoom r) []
  | absent (hpc : handler.pc = .started) (hroom : s.rooms handler.room = none)
      (hrole : handler.role = .sender) : Moves s h handler .noRoom []
  | notFound (hpc : handler.pc = .started) : Moves s h handler .rejected []
  | upgrade {r : Nat} (hpc : handler.pc = .gotRoom r) : Moves s h handler (.upgraded r) []
  | upgradeFails {r : Nat} (hpc : handler.pc = .gotRoom r) : Moves s h handler .rejected []
  | test {r : Nat} {room : Room} (hpc : handler.pc = .attached r) (hroom : s.heap[r]? = some room) :
      Moves s h handler (if room.isReady then .ready r else .reading r) []
  | tellSender {r client : Nat} {room : Room} (hpc : handler.pc = .ready r)
      (hroom : s.heap[r]? = some room) (hclient : room.sender = some client) :
      Moves s h handler (.toldSender r) [⟨client, peerJoined "receiver", none⟩]
  | tellReceiver {r client : Nat} {room : Room} (hpc : handler.pc = .toldSender r)
      (hroom : s.heap[r]? = some room) (hclient : room.receiver = some client) :
      Moves s h handler (.reading r) [⟨client, peerJoined "sender", none⟩]
  | read {r : Nat} (hpc : handler.pc = .reading r) (message : Message) :
      Moves s h handler (.forwarding r message) []
  | skip {r : Nat} (hpc : handler.pc = .reading r) : Moves s h handler (.reading r) []
  | readFails {r : Nat} (hpc : handler.pc = .reading r) : Moves s h handler (.closed r) []
  | peer {r peer : Nat} {message : Message} (hpc : handler.pc = .forwarding r message) :
      Moves s h handler (.forwardingTo r message peer) []
  | noPeer {r : Nat} {message : Message} (hpc : handler.pc = .forwarding r message) :
      Moves s h handler (.reading r) []
  | forward {r peer : Nat} {message : Message} (hpc : handler.pc = .forwardingTo r message peer) :
      Moves s h handler (.reading r) [⟨peer, message, some h⟩]
  | lookUp {r : Nat} {room : Room} (hpc : handler.pc = .closed r) (hroom : s.heap[r]? = some room) :
      Moves s h handler (.telling r (room.getPeer handler.role)) []
  | tellPeer {r peer : Nat} (hpc : handler.pc = .telling r (some peer)) :
      Moves s h handler (.told r) [⟨peer, peerDisconnected, none⟩]
  | tellNobody {r : Nat} (hpc : handler.pc = .telling r none) : Moves s h handler (.told r) []

/-- Everything that a step can do. -/
inductive Steps (s : Hub) : Action → Hub → Prop where
  | create (method id : String) : Steps s (.createRoom method id) (s.createRoomWithID id).2
  | connect (room role : String) (role' : Role) :
      Steps s (.connect room role) { s with handlers := s.handlers ++ [{ room, role := role' }] }
  | move {a : Action} {h : Nat} {handler : Handler} {pc : Pc} {calls : List Sent}
      (ha : a.mover = some h) (hh : s.handlers[h]? = some handler)
      (hmove : Moves s h handler pc calls) : Steps s a ((s.log calls).goto h handler pc)
  | createFor {h : Nat} {handler : Handler} (hh : s.handlers[h]? = some handler)
      (hpc : handler.pc = .noRoom) :
      Steps s (.handle h) ((s.createRoomWithID handler.room).2.goto h handler
        (.gotRoom (s.createRoomWithID handler.room).1))
  | attach {h r : Nat} {handler : Handler} {room : Room} (hh : s.handlers[h]? = some handler)
      (hpc : handler.pc = .upgraded r) (hroom : s.heap[r]? = some room) :
      Steps s (.handle h) ((s.setClient r room h handler.role).goto h handler (.attached r))
  | leave {h r : Nat} {handler : Handler} (hh : s.handlers[h]? = some handler)
      (hpc : handler.pc = .told r) :
      Steps s (.handle h) ((s.cleanUp handler).goto h handler (.ended r))

/-- A move that calls no `Send`. -/
theorem Steps.silent {s : Hub} {a : Action} {h : Nat} {handler : Handler} {pc : Pc}
    (ha : a.mover = some h) (hh : s.handlers[h]? = some handler) (hmove : Moves s h handler pc []) :
    Steps s a (s.goto h handler pc) := by
  simpa using Steps.move ha hh hmove

theorem steps_of_handle {s t : Hub} {h : Nat} (hs : s.handleWebSocket h = some t) :
    Steps s (.handle h) t := by
  obtain ⟨handler, hh, hs⟩ := Option.bind_eq_some_iff.mp hs
  cases hpc : handler.pc with
  | started =>
      simp only [hpc] at hs
      split at hs
      next hroom => exact Option.some.inj hs ▸ .silent rfl hh (.found hpc hroom)
      next hroom hrole => exact Option.some.inj hs ▸ .silent rfl hh (.absent hpc hroom hrole)
      next => exact Option.some.inj hs ▸ .silent rfl hh (.notFound hpc)
  | noRoom =>
      simp only [hpc] at hs
      exact Option.some.inj hs ▸ .createFor hh hpc
  | gotRoom r =>
      simp only [hpc] at hs
      exact Option.some.inj hs ▸ .silent rfl hh (.upgrade hpc)
  | upgraded r =>
      simp only [hpc] at hs
      obtain ⟨room, hroom, hs⟩ := Option.bind_eq_some_iff.mp hs
      exact Option.some.inj hs ▸ .attach hh hpc hroom
  | attached r =>
      simp only [hpc] at hs
      obtain ⟨room, hroom, hs⟩ := Option.bind_eq_some_iff.mp hs
      exact Option.some.inj hs ▸ .silent rfl hh (.test hpc hroom)
  | ready r =>
      simp only [hpc] at hs
      obtain ⟨room, hroom, hs⟩ := Option.bind_eq_some_iff.mp hs
      obtain ⟨client, hclient, hs⟩ := Option.bind_eq_some_iff.mp hs
      exact Option.some.inj hs ▸ .move rfl hh (.tellSender hpc hroom hclient)
  | toldSender r =>
      simp only [hpc] at hs
      obtain ⟨room, hroom, hs⟩ := Option.bind_eq_some_iff.mp hs
      obtain ⟨client, hclient, hs⟩ := Option.bind_eq_some_iff.mp hs
      exact Option.some.inj hs ▸ .move rfl hh (.tellReceiver hpc hroom hclient)
  | forwarding r message =>
      simp only [hpc] at hs
      obtain ⟨room, -, hs⟩ := Option.bind_eq_some_iff.mp hs
      split at hs
      next => exact Option.some.inj hs ▸ .silent rfl hh (.peer hpc)
      next => exact Option.some.inj hs ▸ .silent rfl hh (.noPeer hpc)
  | forwardingTo r message peer =>
      simp only [hpc] at hs
      exact Option.some.inj hs ▸ .move rfl hh (.forward hpc)
  | closed r =>
      simp only [hpc] at hs
      obtain ⟨room, hroom, hs⟩ := Option.bind_eq_some_iff.mp hs
      exact Option.some.inj hs ▸ .silent rfl hh (.lookUp hpc hroom)
  | telling r peer =>
      cases peer with
      | some peer =>
          simp only [hpc] at hs
          exact Option.some.inj hs ▸ .move rfl hh (.tellPeer hpc)
      | none =>
          simp only [hpc] at hs
          exact Option.some.inj hs ▸ .silent rfl hh (.tellNobody hpc)
  | told r =>
      simp only [hpc] at hs
      exact Option.some.inj hs ▸ .leave hh hpc
  | reading r | ended r | rejected => simp [hpc] at hs

theorem steps_of_step {s t : Hub} {a : Action} (hs : step s a = some t) : Steps s a t := by
  cases a with
  | createRoom method id =>
      obtain ⟨-, ht⟩ := Option.ite_none_left_eq_some.mp hs
      exact Option.some.inj ht ▸ .create method id
  | connect room role =>
      simp only [step, Hub.connect] at hs
      split_ifs at hs
      · exact Option.some.inj hs ▸ .connect room role .sender
      · exact Option.some.inj hs ▸ .connect room role .receiver
  | handle h => exact steps_of_handle hs
  | upgradeFails h =>
      obtain ⟨handler, hh, hs⟩ := Option.bind_eq_some_iff.mp hs
      split at hs
      next hpc => exact Option.some.inj hs ▸ .silent rfl hh (.upgradeFails hpc)
      next => cases hs
  | readMessage h message =>
      obtain ⟨handler, hh, hs⟩ := Option.bind_eq_some_iff.mp hs
      cases hpc : handler.pc with
      | reading r =>
          cases message with
          | some message =>
              simp only [hpc] at hs
              exact Option.some.inj hs ▸ .silent rfl hh (.read hpc message)
          | none =>
              simp only [hpc] at hs
              exact Option.some.inj hs ▸ .silent rfl hh (.skip hpc)
      | _ => simp [hpc] at hs
  | readFails h =>
      obtain ⟨handler, hh, hs⟩ := Option.bind_eq_some_iff.mp hs
      split at hs
      next hpc => exact Option.some.inj hs ▸ .silent rfl hh (.readFails hpc)
      next => cases hs

end FastTransfer.Server.Signaling
