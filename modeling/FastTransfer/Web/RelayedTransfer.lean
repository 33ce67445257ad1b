import Std.Data.String.ToNat
import FastTransfer.Server.RelayKeys
import FastTransfer.Web.LossyTransfer

/-!
# The transfer through the server

The sending and the receiving page with the relay between them: the relay
connections of both pages are handled by `HandleRelayWS` of the server, which
relays what arrives on them together with whatever other clients do. Seen from the
pages this is the transfer of `LossyTransfer`: a relay is a transport that delivers
the frames that have left it in their order, some of them never.

`createOffer` is called once, so relay `i` is transport `i`.
-/

namespace FastTransfer.Web

open Server (Role Query Request Reading RelayWSHub RelayTraffic messages)

/-- `JSON.stringify` and `JSON.parse`, for the texts on the relays. -/
structure Json where
  stringify : FileInfo → Bytes
  /-- `none` for a text that is not a message of type `file-info`. -/
  parse : Bytes → Option FileInfo

/-- The WebSocket message that carries a frame. -/
def Frame.onWire (json : Json) : Frame → Server.Message
  | .fileInfo info => ⟨.text, json.stringify info⟩
  | .chunk entry => ⟨.binary, entry.data⟩

/-- `ws.onmessage` of `startRelayReceiver`. -/
def Receiver.onRelayMessage (json : Json) (r : Receiver) (m : Server.Message) : Receiver :=
  match m.type with
  | .text =>
      match json.parse m.bytes with
      | some info => r.onmessage (.fileInfo info)
      | none => r
  | .binary => r.onmessage (.chunk m.bytes)

/-- Both pages and the relay between them. -/
structure Relayed where
  sender : Sender
  receiver : Receiver := {}
  relay : RelayTraffic
  /-- The connection of the relay `i` of the page with a role, once the server has
  accepted it. -/
  conns : Role → Nat → Option Nat := fun _ _ => none
  /-- How many frames of each relay have arrived at the server. -/
  arrived : Nat → Nat := fun _ => 0
  /-- How many frames of each transport the receiver has handled. -/
  delivered : Nat → Nat := fun _ => 0

namespace Relayed

/-- `role=` in the address of a relay. -/
def roleParam : Role → String
  | .sender => "sender"
  | .receiver => "receiver"

/-- The address that `_openRelaySender` and `startRelayReceiver` connect to. -/
def query (room : String) (role : Role) (i : Nat) : Query := ⟨room, roleParam role, toString i⟩

/-- What `HandleRelayWS` makes of the query of relay `i`. -/
def request (room : String) (role : Role) (i : Nat) : Request := ⟨room, role, toString i⟩

/-- A step of a page, of the network or of the server. -/
inductive Action where
  | sender (a : Sender.Action)
  /-- The server accepts the connection of relay `i` of the page with this role. -/
  | accept (role : Role) (i : Nat)
  /-- The next frame of relay `i` arrives at the server. -/
  | arrive (i : Nat) (reader : Reading)
  /-- A handler of the server takes a step, or another client does something. -/
  | relay (a : RelayTraffic.Action)
  /-- The receiver gets the next message of transport `t`. -/
  | deliver (t : Nat)

/-- A relay opens after the server has accepted it. -/
def unaccepted (cfg : Config) (x : Relayed) : Sender.Action → Bool
  | .onopen t => t < cfg.numRelay && (x.conns .sender t).isNone
  | _ => false

/-- The connection of relay `i` is `c`. -/
def setConn (x : Relayed) (role : Role) (i c : Nat) : Role → Nat → Option Nat :=
  Function.update x.conns role (Function.update (x.conns role) i (some c))

/-- One step of the whole system. -/
def step (cfg : Config) (file : File) (room : String) (json : Json) (x : Relayed) :
    Action → Option Relayed
  | .sender a =>
      if x.unaccepted cfg a then none
      else (Sender.step cfg file x.sender a).map fun s => { x with sender := s }
  | .accept role i =>
      if i < cfg.numRelay ∧ x.conns role i = none then
        (x.relay.step (.hub (.connect (query room role i)))).map fun relay =>
          { x with relay, conns := x.setConn role i x.relay.hub.handlers.length }
      else none
  | .arrive i reader => do
      let c ← x.conns .sender i
      let f ← (x.sender.out i)[x.arrived i]?
      if reader.message = f.onWire json then
        (x.relay.step (.arrive c reader)).map fun relay =>
          { x with relay, arrived := Function.update x.arrived i (x.arrived i + 1) }
      else none
  | .relay a => (x.relay.step a).map fun relay => { x with relay }
  | .deliver t =>
      if t < cfg.numRelay then do
        let d ← x.conns .receiver t
        let m ← (x.relay.destinations d).delivered[x.delivered t]?
        some { x with
          receiver := x.receiver.onRelayMessage json m
          delivered := Function.update x.delivered t (x.delivered t + 1) }
      else do
        -- a data channel between the pages
        let f ← (x.sender.out t)[x.delivered t]?
        some { x with
          receiver := x.receiver.onmessage f.message
          delivered := Function.update x.delivered t (x.delivered t + 1) }

/-- After `createOffer`, with the relay connections of both pages still to be
accepted; the connections fail whenever they do. -/
def start (cfg : Config) (file : File) (destinations : Nat → Server.Destination) : Relayed where
  sender := Sender.start cfg file
  relay := { destinations }

/-- The key of the relay `i`. -/
def key (room : String) (i : Nat) : String := (request room .sender i).key

/-- `createOffer` is called once, the frames of the sender are read whole, and no
other client asks for a relay of these pages. What others ask for and send, and what
fails, is arbitrary. -/
def Undisturbed (cfg : Config) (room : String) (x : Relayed) : Action → Prop
  | .sender a => a ≠ .createOffer
  | .arrive _ reader => reader.failed = false
  | .relay (.hub (.connect q)) => ∀ r ∈ q.request, ∀ i < cfg.numRelay, r.key ≠ key room i
  | .relay (.arrive c _) => c < x.relay.hub.handlers.length ∧
      ∀ i < cfg.numRelay, x.conns .sender i ≠ some c ∧ x.conns .receiver i ≠ some c
  | .relay (.hub (.handle _)) | .relay (.turn _) | .accept _ _ | .deliver _ => True

instance decidableUndisturbed (cfg : Config) (room : String) (x : Relayed) :
    (a : Action) → Decidable (Undisturbed cfg room x a)
  | .sender a => inferInstanceAs (Decidable (a ≠ .createOffer))
  | .arrive _ reader => inferInstanceAs (Decidable (reader.failed = false))
  | .relay (.hub (.connect q)) =>
      inferInstanceAs (Decidable (∀ r ∈ q.request, ∀ i < cfg.numRelay, r.key ≠ key room i))
  | .relay (.arrive c _) => inferInstanceAs (Decidable (c < x.relay.hub.handlers.length ∧
      ∀ i < cfg.numRelay, x.conns .sender i ≠ some c ∧ x.conns .receiver i ≠ some c))
  | .relay (.hub (.handle _)) | .relay (.turn _) | .accept _ _ | .deliver _ =>
      inferInstanceAs (Decidable True)

/-- What the pages see of it. -/
def transfer (x : Relayed) : Transfer := ⟨x.sender, x.receiver, x.delivered⟩

/-! ## The connections of the pages -/

section Keys

variable {room : String} {role : Role} {i j : Nat}

theorem key_injective (h : key room i = key room j) : i = j := by
  have hidx : toString i = toString j := String.append_right_inj _ |>.mp h
  exact Nat.repr_injective hidx

theorem request_query {r : Request} (h : (query room role i).request = some r) :
    r = request room role i := by
  have hidx : toString i ≠ "" := Nat.repr_ne_empty
  unfold Query.request query at h
  simp only [hidx, if_false] at h
  cases role with
  | sender | receiver =>
      simp [roleParam] at h
      exact h.2.symm

end Keys

/-- **What every undisturbed run keeps**: the connections of the pages are those that
have asked for their keys; what has arrived from a relay are the frames that have left
it, and what the relay makes of them is in order. -/
structure Connected (cfg : Config) (room : String) (json : Json) (x : Relayed) : Prop where
  carried : RelayTraffic.Carried Set.univ x.relay
  conn : ∀ role i c, x.conns role i = some c →
    i < cfg.numRelay ∧ x.relay.hub.requests[c]? = some (request room role i)
  only : ∀ (c : Nat) (r : Request) i, x.relay.hub.requests[c]? = some r → i < cfg.numRelay →
    r.key = key room i → x.conns r.role i = some c
  unused : ∀ c, x.relay.hub.handlers.length ≤ c →
    x.relay.incoming c = [] ∧ (x.relay.destinations c).delivered = []
  waiting : ∀ i, x.conns .sender i = none → x.arrived i = 0
  whole : ∀ i c, x.conns .sender i = some c → ∀ reader ∈ x.relay.incoming c, reader.failed = false
  sent : ∀ i c, x.conns .sender i = some c → x.arrived i ≤ (x.sender.out i).length ∧
    x.relay.takenFrom c ++ messages (x.relay.incoming c) =
      ((x.sender.out i).take (x.arrived i)).map (·.onWire json)
  inOrder : ∀ i d, x.conns .receiver i = some d → x.relay.InOrder d

section Steps

variable {cfg : Config} {room : String} {json : Json} {x : Relayed} {i c d : Nat}

theorem connected_start (cfg : Config) (file : File) (room : String) (json : Json)
    {destinations : Nat → Server.Destination} (hfresh : ∀ d, (destinations d).delivered = []) :
    Connected cfg room json (start cfg file destinations) where
  carried := RelayTraffic.carried_start _ _
  conn := by simp [start]
  only := by simp [start, RelayWSHub.requests]
  unused c _ := ⟨rfl, hfresh c⟩
  waiting _ _ := rfl
  whole := by simp [start]
  sent := by simp [start]
  inOrder := by simp [start]

/-- Connections of one key in opposite roles belong to the same relay of both pages, or to
none. -/
theorem Connected.peer (hx : Connected cfg room json x) {r r' : Request}
    (hr : x.relay.hub.requests[c]? = some r) (hr' : x.relay.hub.requests[d]? = some r')
    (hrole : r'.role = r.role.opposite) (hkey : r.key = r'.key) (i : Nat) :
    x.conns .sender i = some c ↔ x.conns .receiver i = some d := by
  constructor
  · intro hsrc
    obtain ⟨hi, hreq⟩ := hx.conn _ _ _ hsrc
    obtain rfl := Option.mem_unique hr hreq
    have hdst := hx.only d r' i hr' hi hkey.symm
    rwa [hrole] at hdst
  · intro hdst
    obtain ⟨hi, hreq⟩ := hx.conn _ _ _ hdst
    obtain rfl := Option.mem_unique hr' hreq
    have hsrc := hx.only c r i hr hi hkey
    have hopposite : r.role.opposite = Role.opposite .sender := hrole.symm
    rwa [Role.opposite_injective hopposite] at hsrc

/-- What is taken from a page's connection is taken for the other page's. -/
theorem Connected.taken (hx : Connected cfg room json x) (hsrc : x.conns .sender i = some c)
    (hdst : x.conns .receiver i = some d) : x.relay.takenFor d = x.relay.takenFrom c := by
  rw [RelayTraffic.takenFor, RelayTraffic.takenFrom]
  congr 1
  apply List.filter_congr
  intro f hf
  obtain ⟨r, r', hr, hr', hrole, hkey⟩ := hx.carried.ends hf
  have hpeer := hx.peer hr hr' hrole hkey i
  rw [hsrc, hdst, Option.some.injEq, Option.some.injEq] at hpeer
  exact decide_eq_decide.mpr ⟨fun h => (hpeer.mpr h.symm).symm, fun h => (hpeer.mp h.symm).symm⟩

theorem Connected.taken_of_none (hx : Connected cfg room json x)
    (hsrc : x.conns .sender i = none) (hdst : x.conns .receiver i = some d) :
    x.relay.takenFor d = [] := by
  rw [RelayTraffic.takenFor, List.map_eq_nil_iff, List.filter_eq_nil_iff]
  intro f hf heq
  obtain ⟨r, r', hr, hr', hrole, hkey⟩ := hx.carried.ends hf
  have hpeer := hx.peer hr hr' hrole hkey i
  rw [hsrc, hdst, of_decide_eq_true heq] at hpeer
  cases hpeer.mpr rfl

/-- **A relay delivers frames that have left it, in their order.** -/
theorem Connected.delivered (hx : Connected cfg room json x)
    (hdst : x.conns .receiver i = some d) :
    (x.relay.destinations d).delivered <+: (x.sender.out i).map (·.onWire json) := by
  refine (hx.inOrder i d hdst).isPrefix.trans ?_
  cases hsrc : x.conns .sender i with
  | none =>
      rw [hx.taken_of_none hsrc hdst]
      exact List.nil_prefix
  | some c =>
      rw [hx.taken hsrc hdst]
      obtain ⟨-, hsent⟩ := hx.sent i c hsrc
      have htaken : x.relay.takenFrom c <+:
          ((x.sender.out i).take (x.arrived i)).map (·.onWire json) := ⟨_, hsent⟩
      exact htaken.trans ((List.take_prefix _ _).map _)

/-- The pages and other clients at their ends, with the connections as they are. -/
theorem Connected.hub (hx : Connected cfg room json x) {a : RelayWSHub.Action} {s : RelayWSHub}
    (hstep : RelayWSHub.step x.relay.hub a = some s)
    (hsame : s.requests = x.relay.hub.requests) :
    Connected cfg room json { x with relay := { x.relay with hub := s } } where
  carried := hx.carried.hub (by cases a <;> trivial) hstep
  conn := by
    simp only [hsame]
    exact hx.conn
  only := by
    simp only [hsame]
    exact hx.only
  unused c hc := by
    refine hx.unused c ?_
    rwa [← RelayWSHub.length_requests, ← hsame, RelayWSHub.length_requests]
  waiting := hx.waiting
  whole := hx.whole
  sent := hx.sent
  inOrder i d hd := (hx.inOrder i d hd).congr rfl rfl

/-- The sender goes on. -/
theorem Connected.sender (hx : Connected cfg room json x) {s : Sender}
    (hout : ∀ t, x.sender.out t <+: s.out t) :
    Connected cfg room json { x with sender := s } where
  carried := hx.carried
  conn := hx.conn
  only := hx.only
  unused := hx.unused
  waiting := hx.waiting
  whole := hx.whole
  sent i c hc := by
    obtain ⟨hle, hsent⟩ := hx.sent i c hc
    obtain ⟨rest, hrest⟩ := hout i
    rw [← hrest, List.take_append_of_le_length hle]
    exact ⟨hle.trans (by simp), hsent⟩
  inOrder := hx.inOrder

/-- Another client connects. -/
theorem Connected.connect (hx : Connected cfg room json x) {q : Query} {s : RelayWSHub}
    (hstep : RelayWSHub.step x.relay.hub (.connect q) = some s)
    (hkeys : ∀ r ∈ q.request, ∀ i < cfg.numRelay, r.key ≠ key room i) :
    Connected cfg room json { x with relay := { x.relay with hub := s } } := by
  obtain ⟨r, hr, hrequests⟩ := RelayWSHub.requests_connect hstep
  have hlength : x.relay.hub.handlers.length ≤ s.handlers.length := by
    rw [← RelayWSHub.length_requests, ← RelayWSHub.length_requests, hrequests, List.length_append]
    exact Nat.le_add_right _ _
  refine {
    carried := hx.carried.hub (a := .connect q) trivial hstep
    conn := fun role i c hc => ?_
    only := fun c r' i hr' hi hkey => ?_
    unused := fun c hc => hx.unused c (hlength.trans hc)
    waiting := hx.waiting
    whole := hx.whole
    sent := hx.sent
    inOrder := fun i d hd => (hx.inOrder i d hd).congr rfl rfl }
  · obtain ⟨hi, hreq⟩ := hx.conn role i c hc
    refine ⟨hi, ?_⟩
    simp only [hrequests]
    exact Tally.getElem?_concat_of_some hreq
  · simp only [hrequests] at hr'
    rcases Tally.getElem?_concat_cases hr' with hr' | ⟨-, rfl⟩
    · exact hx.only c r' i hr' hi hkey
    · exact absurd hkey (hkeys _ hr i hi)

theorem setConn_self (x : Relayed) (role : Role) (i c : Nat) :
    x.setConn role i c role i = some c := by
  simp [setConn]

theorem setConn_of_ne {role role' : Role} {j : Nat} (hne : ¬ (role' = role ∧ j = i)) :
    x.setConn role i c role' j = x.conns role' j := by
  unfold setConn
  by_cases hrole : role' = role
  · subst hrole
    have hj : j ≠ i := fun hj => hne ⟨rfl, hj⟩
    rw [Function.update_self, Function.update_of_ne hj]
  · rw [Function.update_of_ne hrole]

/-- A connection in the table is the new one, or was there. -/
theorem setConn_cases {role role' : Role} {j c' : Nat}
    (h : x.setConn role i c role' j = some c') :
    (role' = role ∧ j = i ∧ c' = c) ∨ x.conns role' j = some c' := by
  by_cases hsame : role' = role ∧ j = i
  · obtain ⟨rfl, rfl⟩ := hsame
    rw [setConn_self] at h
    exact .inl ⟨rfl, rfl, (Option.some.inj h).symm⟩
  · rw [setConn_of_ne hsame] at h
    exact .inr h

/-- The server accepts a connection of one of the pages. -/
theorem Connected.accept (hx : Connected cfg room json x) {role : Role} {s : RelayWSHub}
    (hi : i < cfg.numRelay) (hnone : x.conns role i = none)
    (hstep : RelayWSHub.step x.relay.hub (.connect (query room role i)) = some s) :
    Connected cfg room json { x with
      relay := { x.relay with hub := s }
      conns := x.setConn role i x.relay.hub.handlers.length } := by
  obtain ⟨r, hr, hrequests⟩ := RelayWSHub.requests_connect hstep
  obtain rfl := request_query hr
  have hlength : x.relay.hub.requests.length = x.relay.hub.handlers.length :=
    RelayWSHub.length_requests _
  have hlonger : x.relay.hub.handlers.length ≤ s.handlers.length := by
    rw [← hlength, ← RelayWSHub.length_requests, hrequests, List.length_append]
    exact Nat.le_add_right _ _
  obtain ⟨hincoming, hdelivered⟩ := hx.unused _ (Nat.le_refl x.relay.hub.handlers.length)
  obtain ⟨hfrom, hfor⟩ := hx.carried.taken_eq_nil (Nat.le_refl x.relay.hub.handlers.length)
  refine {
    carried := hx.carried.hub (a := .connect (query room role i)) trivial hstep
    conn := fun role' j c hc => ?_
    only := fun c r' j hr' hj hkey => ?_
    unused := fun c hc => hx.unused c (hlonger.trans hc)
    waiting := fun j hj => ?_
    whole := fun j c hc => ?_
    sent := fun j c hc => ?_
    inOrder := fun j d hd => ?_ }
  · simp only [hrequests]
    rcases setConn_cases hc with ⟨rfl, rfl, rfl⟩ | hold
    · refine ⟨hi, ?_⟩
      rw [← hlength]
      exact List.getElem?_concat_length
    · obtain ⟨hj, hreq⟩ := hx.conn role' j c hold
      exact ⟨hj, Tally.getElem?_concat_of_some hreq⟩
  · simp only [hrequests] at hr'
    rcases Tally.getElem?_concat_cases hr' with hr' | ⟨rfl, rfl⟩
    · have hold := hx.only c r' j hr' hj hkey
      have hne : ¬ (r'.role = role ∧ j = i) := by
        rintro ⟨rfl, rfl⟩
        rw [hnone] at hold
        cases hold
      simpa only [setConn_of_ne hne] using hold
    · have hij : i = j := key_injective hkey
      subst hij
      rw [hlength]
      exact setConn_self x role i _
  · refine hx.waiting j ?_
    by_cases hsame : Role.sender = role ∧ j = i
    · obtain ⟨rfl, rfl⟩ := hsame
      exact hnone
    · simp only [setConn_of_ne hsame] at hj
      exact hj
  · rcases setConn_cases hc with ⟨-, -, rfl⟩ | hold
    · simp [hincoming]
    · exact hx.whole j c hold
  · rcases setConn_cases hc with ⟨rfl, rfl, rfl⟩ | hold
    · have htaken : ({ x.relay with hub := s } : RelayTraffic).takenFrom
          x.relay.hub.handlers.length = [] := hfrom
      simp [hincoming, hx.waiting j hnone, messages, htaken]
    · exact hx.sent j c hold
  · rcases setConn_cases hd with ⟨-, -, rfl⟩ | hold
    · have hall : (x.relay.destinations x.relay.hub.handlers.length).delivered =
          x.relay.takenFor x.relay.hub.handlers.length := by
        rw [hdelivered, hfor]
      exact ⟨hall ▸ List.prefix_rfl, .inl hall⟩
    · exact (hx.inOrder j d hold).congr rfl rfl

/-- A frame of a relay arrives at the server. -/
theorem Connected.arrive (hx : Connected cfg room json x) {reader : Reading} {f : Frame}
    (hc : x.conns .sender i = some c) (hf : (x.sender.out i)[x.arrived i]? = some f)
    (hmessage : reader.message = f.onWire json) (hwhole : reader.failed = false)
    {relay : RelayTraffic} (hstep : x.relay.step (.arrive c reader) = some relay) :
    Connected cfg room json { x with
      relay, arrived := Function.update x.arrived i (x.arrived i + 1) } := by
  obtain rfl := Option.some.inj hstep
  obtain ⟨hlt, hget⟩ := List.getElem?_eq_some_iff.mp hf
  obtain ⟨hi, hreq⟩ := hx.conn _ _ _ hc
  have hclt : c < x.relay.hub.handlers.length := by
    rw [← RelayWSHub.length_requests]
    exact (List.getElem?_eq_some_iff.mp hreq).1
  -- no other relay has this connection
  have hother : ∀ {j c'}, x.conns .sender j = some c' → j ≠ i → c' ≠ c := by
    rintro j c' hc' hj rfl
    obtain ⟨-, hreq'⟩ := hx.conn _ _ _ hc'
    exact hj (key_injective (congrArg Request.key (Option.mem_unique hreq' hreq)))
  refine {
    carried := ⟨hx.carried.joined, hx.carried.keyed, hx.carried.asked, hx.carried.messages⟩
    conn := hx.conn
    only := hx.only
    unused := fun c' hc' => ?_
    waiting := fun j hj => ?_
    whole := fun j c' hc' => ?_
    sent := fun j c' hc' => ?_
    inOrder := fun j d hd => (hx.inOrder j d hd).congr rfl rfl }
  · have hne : c' ≠ c := by
      simp only at hc'
      omega
    obtain ⟨hincoming, hdelivered⟩ := hx.unused c' hc'
    refine ⟨?_, hdelivered⟩
    simpa only [Function.update_of_ne hne] using hincoming
  · have hne : j ≠ i := by
      rintro rfl
      simp only [hc] at hj
      cases hj
    simpa only [Function.update_of_ne hne] using hx.waiting j hj
  · by_cases hji : j = i
    · subst hji
      obtain rfl := Option.mem_unique hc hc'
      simp only [Function.update_self]
      intro reader' hmem
      rcases List.mem_append.mp hmem with hmem | hmem
      · exact hx.whole j c hc reader' hmem
      · obtain rfl := List.mem_singleton.mp hmem
        exact hwhole
    · simpa only [Function.update_of_ne (hother hc' hji)] using hx.whole j c' hc'
  · by_cases hji : j = i
    · subst hji
      obtain rfl := Option.mem_unique hc hc'
      obtain ⟨-, hsent⟩ := hx.sent j c hc
      simp only [Function.update_self]
      refine ⟨hlt, ?_⟩
      rw [List.take_succ_eq_append_getElem hlt, hget, List.map_append, ← hsent, messages,
        List.map_append, ← List.append_assoc]
      simp only [List.map_cons, List.map_nil, hmessage, messages]
      rfl
    · simp only [Function.update_of_ne (hother hc' hji), Function.update_of_ne hji]
      exact hx.sent j c' hc'

/-- Something arrives from another client. -/
theorem Connected.other (hx : Connected cfg room json x) {reader : Reading}
    (hc : c < x.relay.hub.handlers.length)
    (hours : ∀ i < cfg.numRelay, x.conns .sender i ≠ some c ∧ x.conns .receiver i ≠ some c)
    {relay : RelayTraffic}
    (hstep : x.relay.step (.arrive c reader) = some relay) :
    Connected cfg room json { x with relay } := by
  obtain rfl := Option.some.inj hstep
  have hother : ∀ {role j c'}, x.conns role j = some c' → c' ≠ c := by
    rintro role j c' hc' rfl
    obtain ⟨hsender, hreceiver⟩ := hours j (hx.conn _ _ _ hc').1
    cases role with
    | sender => exact hsender hc'
    | receiver => exact hreceiver hc'
  refine {
    carried := ⟨hx.carried.joined, hx.carried.keyed, hx.carried.asked, hx.carried.messages⟩
    conn := hx.conn
    only := hx.only
    unused := fun c' hc' => ?_
    waiting := hx.waiting
    whole := fun j c' hc' => ?_
    sent := fun j c' hc' => ?_
    inOrder := fun j d hd => (hx.inOrder j d hd).congr rfl rfl }
  · have hne : c' ≠ c := by
      simp only at hc'
      omega
    simpa only [Function.update_of_ne hne] using hx.unused c' hc'
  · simpa only [Function.update_of_ne (hother hc')] using hx.whole j c' hc'
  · simp only [Function.update_of_ne (hother hc')]
    exact hx.sent j c' hc'

/-- A relay loop takes a turn. -/
theorem Connected.turn (hx : Connected cfg room json x) {h : Nat} {relay : RelayTraffic}
    (hturn : x.relay.turn h = some relay) : Connected cfg room json { x with relay } := by
  obtain ⟨-, -, src, dst, reader, rest, -, -, hin, hin', hdestinations, hforwarded⟩ :=
    RelayTraffic.turn_taken hturn
  have hcarried := hx.carried.turn hturn
  have hrequests := RelayTraffic.requests_turn hturn
  have hlength : relay.hub.handlers.length = x.relay.hub.handlers.length := by
    rw [← RelayWSHub.length_requests, hrequests, RelayWSHub.length_requests]
  obtain ⟨r, r', hr, hr', hrole, hkey⟩ := hcarried.ends
    (f := ⟨src, dst, reader.message⟩) (by simp [hforwarded])
  rw [hrequests] at hr hr'
  refine {
    carried := hcarried
    conn := fun role i c hc => ?_
    only := fun c r i hr hi hkey => ?_
    unused := fun c hc => ?_
    waiting := hx.waiting
    whole := fun i c hc reader' hmem => ?_
    sent := fun i c hc => ?_
    inOrder := fun i d hd => ?_ }
  · simp only [hrequests]
    exact hx.conn role i c hc
  · simp only [hrequests] at hr
    exact hx.only c r i hr hi hkey
  · simp only [hlength] at hc
    obtain ⟨hincoming, hdelivered⟩ := hx.unused c hc
    have hsrc : c ≠ src := by
      rintro rfl
      rw [hin] at hincoming
      cases hincoming
    have hdst : c ≠ dst := by
      rintro rfl
      have hlt : c < x.relay.hub.requests.length := (List.getElem?_eq_some_iff.mp hr').1
      rw [RelayWSHub.length_requests] at hlt
      omega
    simp only [hin', hdestinations, Function.update_of_ne hsrc, Function.update_of_ne hdst]
    exact ⟨hincoming, hdelivered⟩
  · simp only [hin'] at hmem
    by_cases hcs : c = src
    · subst hcs
      rw [Function.update_self] at hmem
      exact hx.whole i c hc reader' (by simp [hin, hmem])
    · rw [Function.update_of_ne hcs] at hmem
      exact hx.whole i c hc reader' hmem
  · obtain ⟨hle, hsent⟩ := hx.sent i c hc
    have htaken := RelayTraffic.takenFrom_step (a := .turn h) hturn c
    rw [hsent] at htaken
    exact ⟨hle, by simpa [RelayTraffic.arrivals, messages] using htaken⟩
  · by_cases hdd : d = dst
    · subst hdd
      have hsrc := (hx.peer hr hr' hrole hkey i).mpr hd
      apply (hx.inOrder i d hd).taken (hx.whole i src hsrc reader (by simp [hin]))
      · rw [hdestinations, Function.update_self]
      · simp [RelayTraffic.takenFor, hforwarded]
    · have hsame : relay.destinations d = x.relay.destinations d := by
        rw [hdestinations, Function.update_of_ne hdd]
      have htaken : relay.takenFor d = x.relay.takenFor d := by
        simp [RelayTraffic.takenFor, hforwarded, Ne.symm hdd]
      have hold := hx.inOrder i d hd
      refine ⟨?_, ?_⟩
      · simp only [hsame, htaken]
        exact hold.isPrefix
      · simp only [hsame, htaken]
        exact hold.all

/-- The receiver gets a message. -/
theorem Connected.deliver (hx : Connected cfg room json x) (r : Receiver) (delivered : Nat → Nat) :
    Connected cfg room json { x with receiver := r, delivered } :=
  ⟨hx.carried, hx.conn, hx.only, hx.unused, hx.waiting, hx.whole, hx.sent, hx.inOrder⟩

/-! ## The relay as a transport -/

/-- The receiver reads the frame that was sent. -/
theorem onRelayMessage_onWire {file : File}
    (hjson : json.parse (json.stringify (fileInfo file)) = some (fileInfo file)) (r : Receiver)
    {f : Frame} (hf : f = .fileInfo (fileInfo file) ∨ ∃ i, f = .chunk (readChunk file i)) :
    r.onRelayMessage json (f.onWire json) = r.onmessage f.message := by
  rcases hf with rfl | ⟨i, rfl⟩
  · simp [Receiver.onRelayMessage, Frame.onWire, Frame.message, hjson]
  · rfl

theorem transfer_deliver (cfg : Config) (file : File) {t : Nat} {f : Frame}
    (hf : (x.sender.out t)[x.delivered t]? = some f) :
    Transfer.step cfg file x.transfer (.deliver t) = some (transfer { x with
      receiver := x.receiver.onmessage f.message
      delivered := Function.update x.delivered t (x.delivered t + 1) }) := by
  cases ht : x.sender.transports[t]? with
  | none => simp [Sender.out, ht] at hf
  | some tr =>
      rw [Sender.out_of_some ht] at hf
      simp [Transfer.step, transfer, ht, hf]

/-- A step of the whole system is one of the transfer between the pages, or none. -/
theorem Connected.step {file : File}
    (hjson : json.parse (json.stringify (fileInfo file)) = some (fileInfo file))
    (hx : Connected cfg room json x) (hsending : Sender.Sending file x.sender) {a : Action}
    (hok : Undisturbed cfg room x a) {y : Relayed}
    (hstep : step cfg file room json x a = some y) :
    Connected cfg room json y ∧ (y.transfer = x.transfer ∨
      ∃ b, (∀ t, b = .deliver t → a = .deliver t) ∧
        Transfer.step cfg file x.transfer b = some y.transfer) := by
  cases a with
  | sender a =>
      simp only [Relayed.step] at hstep
      split_ifs at hstep
      obtain ⟨s, hs, rfl⟩ := Option.map_eq_some_iff.mp hstep
      refine ⟨hx.sender (Sender.out_step (Sender.step_iff.mp hs)), .inr ⟨.sender a, by simp, ?_⟩⟩
      simp [Transfer.step, transfer, hs]
  | accept role i =>
      simp only [Relayed.step] at hstep
      split_ifs at hstep with hguard
      obtain ⟨relay, hrelay, rfl⟩ := Option.map_eq_some_iff.mp hstep
      obtain ⟨s, hs, rfl⟩ := Option.map_eq_some_iff.mp hrelay
      exact ⟨hx.accept hguard.1 hguard.2 hs, .inl rfl⟩
  | arrive i reader =>
      obtain ⟨c, hc, hstep⟩ := Option.bind_eq_some_iff.mp hstep
      obtain ⟨f, hf, hstep⟩ := Option.bind_eq_some_iff.mp hstep
      split_ifs at hstep with hmessage
      obtain ⟨relay, hrelay, rfl⟩ := Option.map_eq_some_iff.mp hstep
      exact ⟨hx.arrive hc hf hmessage hok hrelay, .inl rfl⟩
  | relay a =>
      obtain ⟨relay, hrelay, rfl⟩ := Option.map_eq_some_iff.mp hstep
      refine ⟨?_, .inl rfl⟩
      rcases a with (q | h) | ⟨c, reader⟩ | h
      · obtain ⟨s, hs, rfl⟩ := Option.map_eq_some_iff.mp hrelay
        exact hx.connect hs hok
      · obtain ⟨s, hs, rfl⟩ := Option.map_eq_some_iff.mp hrelay
        exact hx.hub hs (RelayWSHub.requests_handle hs)
      · exact hx.other hok.1 hok.2 hrelay
      · exact hx.turn hrelay
  | deliver t =>
      simp only [Relayed.step] at hstep
      split_ifs at hstep
      · obtain ⟨d, hd, hstep⟩ := Option.bind_eq_some_iff.mp hstep
        obtain ⟨m, hm, hstep⟩ := Option.bind_eq_some_iff.mp hstep
        obtain rfl := Option.some.inj hstep
        obtain ⟨rest, hrest⟩ := hx.delivered hd
        -- the message is the next frame that has left the relay
        have hout : ((x.sender.out t).map (·.onWire json))[x.delivered t]? = some m := by
          rw [← hrest, List.getElem?_append_left (List.getElem?_eq_some_iff.mp hm).1, hm]
        rw [List.getElem?_map] at hout
        obtain ⟨f, hf, rfl⟩ := Option.map_eq_some_iff.mp hout
        have hframe : f = .fileInfo (fileInfo file) ∨ ∃ i, f = .chunk (readChunk file i) := by
          rcases hsending.mem_out (List.mem_of_getElem? hf) with hinfo | ⟨i, -, hi⟩
          · exact .inl hinfo
          · exact .inr ⟨i, hi⟩
        rw [onRelayMessage_onWire hjson _ hframe]
        exact ⟨hx.deliver _ _, .inr ⟨.deliver t, by simp, transfer_deliver cfg file hf⟩⟩
      · obtain ⟨f, hf, hstep⟩ := Option.bind_eq_some_iff.mp hstep
        obtain rfl := Option.some.inj hstep
        exact ⟨hx.deliver _ _, .inr ⟨.deliver t, by simp, transfer_deliver cfg file hf⟩⟩

/-- The sender goes on as the transfer says, if at all. -/
theorem sending_of_step {file : File} {y : Relayed} (hx : Sender.Sending file x.sender)
    (hseen : y.transfer = x.transfer ∨
      ∃ b, Transfer.step cfg file x.transfer b = some y.transfer) :
    Sender.Sending file y.sender := by
  rcases hseen with hsame | ⟨b, hb⟩
  · have hsender : y.sender = x.sender := congrArg Transfer.sender hsame
    rwa [hsender]
  · cases b with
    | sender a =>
        obtain ⟨s, hs, hy⟩ := Option.map_eq_some_iff.mp hb
        have hsender : s = y.sender := congrArg Transfer.sender hy
        exact hsender ▸ hx.step (Sender.step_iff.mp hs)
    | deliver t =>
        obtain ⟨tr, -, hb⟩ := Option.bind_eq_some_iff.mp hb
        obtain ⟨f, -, hb⟩ := Option.bind_eq_some_iff.mp hb
        have hsender : x.sender = y.sender := congrArg Transfer.sender (Option.some.inj hb)
        exact hsender ▸ hx

end Steps

/-- "The file-info arrives before chunk 0", as a condition on the steps of a run. -/
def InfoFirst (x : Relayed) : Action → Prop
  | .deliver t => Transfer.InfoFirst x.transfer (.deliver t)
  | .sender _ | .accept _ _ | .arrive _ _ | .relay _ => True

instance decidableInfoFirst (x : Relayed) : (a : Action) → Decidable (InfoFirst x a)
  | .deliver t => inferInstanceAs (Decidable (Transfer.InfoFirst x.transfer (.deliver t)))
  | .sender _ | .accept _ _ | .arrive _ _ | .relay _ => inferInstanceAs (Decidable True)

section Runs

variable {cfg : Config} {file : File} {room : String} {json : Json}

/-- What every undisturbed run keeps, and what it is seen as; a condition on what the
receiver gets carries over. -/
theorem refines_of_reach (ok : Transfer → Transfer.Action → Prop)
    (hsender : ∀ u a, ok u (.sender a))
    (hjson : json.parse (json.stringify (fileInfo file)) = some (fileInfo file))
    {destinations : Nat → Server.Destination} (hfresh : ∀ d, (destinations d).delivered = [])
    {x : Relayed} (h : Runs.ReachWhen (step cfg file room json)
      (fun x a => Undisturbed cfg room x a ∧ ∀ t, a = .deliver t → ok x.transfer (.deliver t))
      (start cfg file destinations) x) :
    Connected cfg room json x ∧
      Runs.ReachWhen (Transfer.step cfg file) ok (Transfer.fresh cfg file) x.transfer := by
  have hstart : Connected cfg room json (start cfg file destinations) ∧
      Sender.Sending file (start cfg file destinations).sender :=
    ⟨connected_start cfg file room json hfresh, Sender.sending_start cfg file⟩
  have hkeep : ∀ u a v, Connected cfg room json u ∧ Sender.Sending file u.sender →
      (Undisturbed cfg room u a ∧ ∀ t, a = .deliver t → ok u.transfer (.deliver t)) →
      step cfg file room json u a = some v →
      (Connected cfg room json v ∧ Sender.Sending file v.sender) ∧ (v.transfer = u.transfer ∨
        ∃ b, ok u.transfer b ∧ Transfer.step cfg file u.transfer b = some v.transfer) := by
    rintro u a v ⟨hu, hsending⟩ ⟨hok, hdeliver⟩ hs
    obtain ⟨hv, hseen⟩ := hu.step hjson hsending hok hs
    have hseen' : v.transfer = u.transfer ∨
        ∃ b, ok u.transfer b ∧ Transfer.step cfg file u.transfer b = some v.transfer := by
      rcases hseen with hsame | ⟨b, hb, hbs⟩
      · exact .inl hsame
      · cases b with
        | sender a' => exact .inr ⟨_, hsender _ a', hbs⟩
        | deliver t => exact .inr ⟨_, hdeliver t (hb t rfl), hbs⟩
    have hsteps : v.transfer = u.transfer ∨
        ∃ b, Transfer.step cfg file u.transfer b = some v.transfer := by
      rcases hseen' with hsame | ⟨b, -, hbs⟩
      · exact .inl hsame
      · exact .inr ⟨b, hbs⟩
    exact ⟨⟨hv, sending_of_step hsending hsteps⟩, hseen'⟩
  refine ⟨?_, h.refines hstart hkeep⟩
  exact (h.invariant hstart fun u a v hu hok hs => (hkeep u a v hu hok hs).1).1

end Runs

/-- **The server's relay refines the transports of the transfer**: every run of the
pages, the server and other clients in which nobody else asks for these relays is, seen
from the pages, a run of the transfer with transports that lose frames and keep their
order. -/
theorem relay_refines_transport (cfg : Config) (file : File) (room : String) (json : Json)
    (hjson : json.parse (json.stringify (fileInfo file)) = some (fileInfo file))
    (destinations : Nat → Server.Destination) (hfresh : ∀ d, (destinations d).delivered = [])
    (x : Relayed) (h : Runs.ReachWhen (step cfg file room json) (Undisturbed cfg room)
      (start cfg file destinations) x) :
    Runs.Reach (Transfer.step cfg file) (Transfer.fresh cfg file) x.transfer ∧
      ∀ i d, x.conns .receiver i = some d →
        (x.relay.destinations d).delivered <+: (x.sender.out i).map (·.onWire json) := by
  have hwhen : Runs.ReachWhen (step cfg file room json)
      (fun x a => Undisturbed cfg room x a ∧ ∀ t, a = .deliver t → True)
      (start cfg file destinations) x := h.mono fun _ _ hok => ⟨hok, fun _ _ => trivial⟩
  obtain ⟨hx, hreach⟩ := refines_of_reach (fun _ _ => True) (fun _ _ => trivial) hjson hfresh hwhen
  exact ⟨hreach, fun i d hd => hx.delivered hd⟩

/-! ### The file of one byte through relay 0 -/

/-- The text of the file-info message. -/
def oneByteText : Bytes :=
  ("\x7b\"type\":\"file-info\",\"payload\":\x7b\"name\":\"a.txt\",\"size\":1," ++
    "\"type\":\"text/plain\",\"totalChunks\":1\x7d\x7d").toList.map fun c => UInt8.ofNat c.toNat

def oneByteTexts : Json where
  stringify _ := oneByteText
  parse text := if text = oneByteText then some (fileInfo oneByteFile) else none

theorem parse_oneByteText : oneByteTexts.parse (oneByteTexts.stringify (fileInfo oneByteFile)) =
    some (fileInfo oneByteFile) := by
  simp [oneByteTexts]

def oneByteRelays : Config where
  numRelay := 2
  numP2P := 0
  infoLength info := (oneByteTexts.stringify info).length

/-- A message that is read in one piece. -/
def inOnePiece (message : Server.Message) : Reading where
  message
  reads := [message.bytes]
  reads_prefix := by simp
  reads_all := by simp

/-- A message of `n` bytes leaves the buffer of relay 0 and goes through the relay. -/
def sendThrough (message : Server.Message) : List Action :=
  List.replicate message.bytes.length (.sender (.drain 0)) ++
    [.arrive 0 (inOnePiece message), .relay (.turn 0), .deliver 0]

/-- Another client is there, and sends something too. -/
def relayedRun : List Action :=
  [.accept .sender 0, .accept .receiver 0, .relay (.hub (.connect ⟨"other", "sender", "0"⟩))] ++
    [0, 0, 1, 1, 1, 2, 0, 0].map (fun h => .relay (.hub (.handle h))) ++
    [.relay (.arrive 2 (inOnePiece ⟨.binary, [1]⟩)), .sender (.onopen 0)] ++
    sendThrough ((Frame.fileInfo (fileInfo oneByteFile)).onWire oneByteTexts) ++
    [.sender (.pump 0 (.read true)), .sender (.pump 0 (.send false))] ++
    sendThrough ((Frame.chunk (readChunk oneByteFile 0)).onWire oneByteTexts)

def relayedEnd : Option Relayed :=
  Runs.run (step oneByteRelays oneByteFile "room" oneByteTexts)
    (start oneByteRelays oneByteFile fun _ => { opsLeft := none }) relayedRun

theorem undisturbed_relayedRun :
    Runs.Meets (step oneByteRelays oneByteFile "room" oneByteTexts)
      (fun x a => Undisturbed oneByteRelays "room" x a ∧ InfoFirst x a)
      (start oneByteRelays oneByteFile fun _ => { opsLeft := none }) relayedRun := by
  decide +kernel

theorem exists_relayedEnd : ∃ x ∈ relayedEnd, x.receiver.completions = [("a.txt", 1)] := by
  have hend : relayedEnd.map (·.receiver.completions) = some [("a.txt", 1)] := by decide +kernel
  exact Option.map_eq_some_iff.mp hend

theorem relay_refines_transport_oneByteFile :
    ∃ x ∈ relayedEnd, x.receiver.completions = [("a.txt", 1)] ∧
      Runs.Reach (Transfer.step oneByteRelays oneByteFile)
        (Transfer.fresh oneByteRelays oneByteFile) x.transfer := by
  obtain ⟨x, hx, hcompletions⟩ := exists_relayedEnd
  have hreach := Runs.reachWhen_of_run relayedRun hx undisturbed_relayedRun
  exact ⟨x, hx, hcompletions, (relay_refines_transport oneByteRelays oneByteFile "room"
    oneByteTexts parse_oneByteText (fun _ => { opsLeft := none }) (fun _ => rfl) x
    (hreach.mono fun _ _ hok => hok.1)).1⟩

/-- In every run in which the file-info comes first the transfer is safe. -/
theorem safe_of_reach {cfg : Config} {file : File} {room : String} {json : Json}
    (h32 : totalChunks file ≤ 2 ^ 32)
    (hjson : json.parse (json.stringify (fileInfo file)) = some (fileInfo file))
    {destinations : Nat → Server.Destination} (hfresh : ∀ d, (destinations d).delivered = [])
    {x : Relayed} (h : Runs.ReachWhen (step cfg file room json)
      (fun x a => Undisturbed cfg room x a ∧ InfoFirst x a) (start cfg file destinations) x) :
    Transfer.Safe file x.transfer := by
  have hwhen : Runs.ReachWhen (step cfg file room json)
      (fun x a => Undisturbed cfg room x a ∧
        ∀ t, a = .deliver t → Transfer.InfoFirst x.transfer (.deliver t))
      (start cfg file destinations) x := by
    apply h.mono
    rintro u a ⟨hok, hinfo⟩
    refine ⟨hok, fun t ht => ?_⟩
    subst ht
    exact hinfo
  obtain ⟨-, hreach⟩ := refines_of_reach Transfer.InfoFirst (fun _ _ => trivial) hjson hfresh
    hwhen
  obtain ⟨evs, hlossy, hinformed⟩ := Transfer.informed_of_reach hreach
  exact hlossy.heard.safe hinformed h32

/-- **The transfer through the server**: in every undisturbed run in which the file-info
comes first, whatever fails, the bytes written are a prefix of the file, and the
download is completed once, with the whole file, when the last chunk has come through;
the file has at most 2 ^ 32 chunks. -/
theorem relayed_transfer_safe (cfg : Config) (file : File) (h32 : totalChunks file ≤ 2 ^ 32)
    (room : String) (json : Json)
    (hjson : json.parse (json.stringify (fileInfo file)) = some (fileInfo file))
    (destinations : Nat → Server.Destination) (hfresh : ∀ d, (destinations d).delivered = [])
    (x : Relayed) (h : Runs.ReachWhen (step cfg file room json)
      (fun x a => Undisturbed cfg room x a ∧ InfoFirst x a) (start cfg file destinations) x) :
    Transfer.Safe file x.transfer := safe_of_reach h32 hjson hfresh h

theorem relayed_transfer_safe_oneByteFile :
    ∃ x ∈ relayedEnd, x.receiver.completions ≠ [] ∧ Transfer.Safe oneByteFile x.transfer := by
  obtain ⟨x, hx, hcompletions⟩ := exists_relayedEnd
  have hsome : x.receiver.completions ≠ [] := by simp [hcompletions]
  exact ⟨x, hx, hsome, relayed_transfer_safe oneByteRelays oneByteFile (by decide)
    "room" oneByteTexts parse_oneByteText (fun _ => { opsLeft := none }) (fun _ => rfl) x
    (Runs.reachWhen_of_run relayedRun hx undisturbed_relayedRun)⟩

end Relayed

end FastTransfer.Web
