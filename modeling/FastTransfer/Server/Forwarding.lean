import Mathlib.Data.List.ReduceOption
import FastTransfer.Server.Presence

/-!
# Messages between the peers of a room

`HandleWebSocket` with the frames that the clients send it. A frame waits until
the handler of its client reads it; the handler then looks up who is the peer at
that moment, and sends the message on.
-/

namespace FastTransfer.Server.Signaling

/-- The signaling hub with the frames on their way to it. -/
structure Exchange where
  hub : Hub := {}
  /-- What each client has sent and its handler has not read; `none` is no JSON
  of a message. -/
  outbox : Nat → List (Option Message) := fun _ => []

namespace Exchange

/-- `ReadMessage` returns the next frame. -/
def readMessage (x : Exchange) (c : Nat) : Option Exchange := do
  let frame ← (x.outbox c).head?
  let hub ← x.hub.readMessage c frame
  some { hub, outbox := Function.update x.outbox c (x.outbox c).tail }

/-- A step of the server, or of a client that sends. -/
inductive Action where
  /-- A step of the hub other than the reading of a message. -/
  | server (a : Signaling.Action)
  | send (c : Nat) (frame : Option Message)
  | read (c : Nat)

/-- One step of the server with its clients. -/
def step (x : Exchange) : Action → Option Exchange
  | .server (.readMessage _ _) => none
  | .server a => (Signaling.step x.hub a).map fun hub => { x with hub }
  | .send c frame => some { x with outbox := Function.update x.outbox c (x.outbox c ++ [frame]) }
  | .read c => x.readMessage c

/-- The well-formed messages that a client sends in a run. -/
def sends (c : Nat) : List Action → List Message
  | [] => []
  | .send c' (some message) :: as => if c' = c then message :: sends c as else sends c as
  | _ :: as => sends c as

end Exchange

/-! ## What becomes of a message -/

/-- The messages of a client that were sent on. -/
def forwards (s : Hub) (c : Nat) : List Sent := s.sent.filter (·.origin = some c)

/-- The message that a handler is about to send on, and to whom, once it has
looked that up. -/
def Pc.held : Pc → Option (Message × Option Nat)
  | .forwarding _ message => some (message, none)
  | .forwardingTo _ message peer => some (message, some peer)
  | _ => none

/-- What the handler of a client is about to send on. -/
def held (s : Hub) (c : Nat) : Option (Message × Option Nat) :=
  s.handlers[c]?.bind fun handler => handler.pc.held

/-- What a step does with the messages of a client; the second argument is the
message that it reads. -/
inductive Carries (s : Hub) (c : Nat) : Option Message → Hub → Prop where
  | idle {t : Hub} (hheld : held t c = held s c) (hsent : forwards t c = forwards s c) :
      Carries s c none t
  | read {t : Hub} {message : Message} (hheld : held s c = none)
      (hheld' : held t c = some (message, none)) (hsent : forwards t c = forwards s c) :
      Carries s c (some message) t
  | lookUp {t : Hub} {handler : Handler} {r : Nat} {room : Room} {message : Message}
      (hh : s.handlers[c]? = some handler) (hpc : handler.pc = .forwarding r message)
      (hroom : s.heap[r]? = some room)
      (hheld : held t c = (room.getPeer handler.role).map fun peer => (message, some peer))
      (hsent : forwards t c = forwards s c) : Carries s c none t
  | send {t : Hub} {message : Message} {peer : Nat} (hheld : held s c = some (message, some peer))
      (hheld' : held t c = none)
      (hsent : forwards t c = forwards s c ++ [⟨peer, message, some c⟩]) :
      Carries s c none t

section Carries

variable {s t : Hub} {h c r : Nat} {handler : Handler} {pc : Pc}

theorem held_eq (hh : s.handlers[h]? = some handler) : held s h = handler.pc.held := by
  rw [held, hh, Option.bind_some]

theorem held_set (hh : s.handlers[h]? = some handler)
    (ht : t.handlers = s.handlers.set h { handler with pc }) (c : Nat) :
    held t c = if c = h then pc.held else held s c := by
  by_cases hch : c = h
  · subst hch
    have hlt := (List.getElem?_eq_some_iff.mp hh).1
    rw [if_pos rfl, held, ht, List.getElem?_set_self hlt, Option.bind_some]
  · rw [if_neg hch, held, ht, List.getElem?_set_ne (Ne.symm hch), held]

theorem forwards_log (s : Hub) (calls : List Sent) (c : Nat) :
    forwards (s.log calls) c = forwards s c ++ calls.filter (·.origin = some c) := by
  rw [forwards, Hub.log, List.filter_append, forwards]

/-- The calls of a move are made for the client of the handler, or for nobody. -/
theorem Moves.origin {calls : List Sent} (hmove : Moves s h handler pc calls) :
    ∀ call ∈ calls, call.origin = none ∨ call.origin = some h := by
  cases hmove with
  | tellSender | tellReceiver | tellPeer => simp
  | forward hpc => simp
  | _ => simp

/-- A handler that neither holds a message nor waits for one gets none. -/
theorem Moves.idle {calls : List Sent} (hmove : Moves s h handler pc calls)
    (hheld : handler.pc.held = none) (hreading : ∀ r, handler.pc ≠ .reading r) :
    pc.held = none ∧ calls.filter (·.origin = some h) = [] := by
  cases hmove with
  | test hpc hroom =>
      refine ⟨?_, rfl⟩
      split <;> rfl
  | read hpc | skip hpc | readFails hpc => exact absurd hpc (hreading _)
  | peer hpc | noPeer hpc | forward hpc =>
      rw [hpc] at hheld
      cases hheld
  | _ => exact ⟨rfl, rfl⟩

theorem Steps.idle {a : Action} (hstep : Steps s a t)
    (hidle : ∀ handler ∈ s.handlers[c]?, a.mover = some c →
      handler.pc.held = none ∧ ∀ r, handler.pc ≠ .reading r) : Carries s c none t := by
  have hset : ∀ {h handler pc} {u : Hub}, a.mover = some h → s.handlers[h]? = some handler →
      u.handlers = s.handlers.set h { handler with pc } →
      (c = h → handler.pc.held = none → pc.held = none) → held u c = held s c := by
    intro h handler pc u ha hh hu hpc
    rw [held_set hh hu]
    by_cases hch : c = h
    · subst hch
      have hnone := (hidle handler hh ha).1
      rw [if_pos rfl, held_eq hh, hpc rfl hnone, hnone]
    · rw [if_neg hch]
  cases hstep with
  | create method id => exact .idle rfl rfl
  | connect room role role' =>
      refine .idle ?_ rfl
      show (s.handlers ++ [_])[c]?.bind _ = s.handlers[c]?.bind _
      rcases Nat.lt_or_ge c s.handlers.length with hc | hc
      · rw [List.getElem?_append_left hc]
      · rw [List.getElem?_append_right hc, List.getElem?_eq_none hc]
        cases c - s.handlers.length <;> rfl
  | @move a h handler pc calls ha hh hmove =>
      refine .idle (hset ha hh rfl ?_) ?_
      · rintro rfl hnone
        exact (hmove.idle hnone (hidle handler hh ha).2).1
      · show forwards (s.log calls) c = forwards s c
        rw [forwards_log]
        by_cases hch : c = h
        · subst hch
          obtain ⟨hnone, hreading⟩ := hidle handler hh ha
          rw [(hmove.idle hnone hreading).2, List.append_nil]
        · have hother : calls.filter (·.origin = some c) = [] := by
            rw [List.filter_eq_nil_iff]
            intro call hcall
            rcases hmove.origin call hcall with horigin | horigin
            · simp [horigin]
            · simp [horigin, Ne.symm hch]
          rw [hother, List.append_nil]
  | createFor hh hpc => exact .idle (hset rfl hh rfl fun _ _ => rfl) rfl
  | attach hh hpc hroom => exact .idle (hset rfl hh rfl fun _ _ => rfl) rfl
  | @leave h r handler hh hpc =>
      refine .idle (hset rfl hh (Hub.handlers_leave s handler h r) fun _ _ => rfl) ?_
      show List.filter _ (s.cleanUp handler).sent = _
      rw [Hub.sent_cleanUp, forwards]

theorem carries_of_handle (hstep : s.handleWebSocket h = some t) (c : Nat) :
    Carries s c none t := by
  have hsteps := steps_of_handle hstep
  by_cases hch : h = c
  · subst hch
    obtain ⟨handler, hh, hs⟩ := Option.bind_eq_some_iff.mp hstep
    cases hpc : handler.pc with
    | reading r => simp [hpc] at hs
    | forwarding r message =>
        simp only [hpc] at hs
        obtain ⟨room, hroom, hs⟩ := Option.bind_eq_some_iff.mp hs
        cases hpeer : room.getPeer handler.role with
        | none =>
            simp only [hpeer] at hs
            obtain rfl := Option.some.inj hs
            refine .lookUp hh hpc hroom ?_ rfl
            rw [held_set hh rfl, if_pos rfl, hpeer]
            rfl
        | some peer =>
            simp only [hpeer] at hs
            obtain rfl := Option.some.inj hs
            refine .lookUp hh hpc hroom ?_ rfl
            rw [held_set hh rfl, if_pos rfl, hpeer]
            rfl
    | forwardingTo r message peer =>
        simp only [hpc] at hs
        obtain rfl := Option.some.inj hs
        refine .send (by rw [held_eq hh, hpc]; rfl) ?_ ?_
        · rw [held_set hh rfl, if_pos rfl]
          rfl
        · exact (forwards_log s [⟨peer, message, some h⟩] h).trans (by simp)
    | _ =>
        apply hsteps.idle
        intro handler' hh' _
        obtain rfl := Option.mem_unique hh hh'
        simp [hpc, Pc.held]
  · exact hsteps.idle fun _ _ ha => absurd (Option.some.inj ha) hch

theorem carries_of_read {frame : Option Message} (hread : s.readMessage h frame = some t)
    (c : Nat) : Carries s c (if c = h then frame else none) t := by
  by_cases hch : c = h
  · subst hch
    rw [if_pos rfl]
    obtain ⟨handler, hh, hs⟩ := Option.bind_eq_some_iff.mp hread
    cases hpc : handler.pc with
    | reading r =>
        have hnone : held s c = none := by
          rw [held_eq hh, hpc]
          rfl
        cases frame with
        | none =>
            simp only [hpc] at hs
            obtain rfl := Option.some.inj hs
            refine .idle ?_ rfl
            rw [held_set hh rfl, if_pos rfl, hnone]
            rfl
        | some message =>
            simp only [hpc] at hs
            obtain rfl := Option.some.inj hs
            refine .read hnone ?_ rfl
            rw [held_set hh rfl, if_pos rfl]
            rfl
    | _ => simp [hpc] at hs
  · rw [if_neg hch]
    apply (steps_of_step (a := .readMessage h frame) hread).idle
    exact fun _ _ ha => absurd (Option.some.inj ha).symm hch

/-- A step of the hub that reads no message. -/
theorem carries_of_step {a : Action} (hstep : step s a = some t)
    (ha : ∀ h frame, a ≠ .readMessage h frame) (c : Nat) : Carries s c none t := by
  have hsteps := steps_of_step hstep
  cases a with
  | createRoom method id => exact hsteps.idle fun _ _ ha => by cases ha
  | connect room role => exact hsteps.idle fun _ _ ha => by cases ha
  | handle h => exact carries_of_handle hstep c
  | upgradeFails h =>
      apply hsteps.idle
      intro handler hh hmover
      obtain rfl := Option.some.inj hmover
      obtain ⟨handler', hh', hs⟩ := Option.bind_eq_some_iff.mp hstep
      obtain rfl := Option.mem_unique hh hh'
      cases hpc : handler.pc with
      | gotRoom r => simp [Pc.held]
      | _ => simp [hpc] at hs
  | readMessage h frame => exact absurd rfl (ha h frame)
  | readFails h =>
      obtain ⟨handler, hh, hs⟩ := Option.bind_eq_some_iff.mp hstep
      cases hpc : handler.pc with
      | reading r =>
          simp only [hpc] at hs
          obtain rfl := Option.some.inj hs
          refine .idle ?_ rfl
          rw [held_set hh rfl]
          split
          next hch =>
            rw [hch, held_eq hh, hpc]
            rfl
          next => rfl
      | _ => simp [hpc] at hs

end Carries

/-- The messages that a handler has read and not dropped. -/
def passed (s : Hub) (c : Nat) : List Message :=
  (forwards s c).map (·.message) ++ (held s c).toList.map Prod.fst

/-- `c` and `d` are each other's peers in a room, and both are connected. -/
def Peers (s : Hub) (r : Nat) (role : Role) (c d : Nat) : Prop :=
  (∃ room ∈ s.heap[r]?, room.slot role = some c ∧ room.slot role.opposite = some d) ∧
    Attends s Pc.connected c role r ∧ Attends s Pc.connected d role.opposite r

instance decidablePeers (s : Hub) (r : Nat) (role : Role) (c d : Nat) :
    Decidable (Peers s r role c d) :=
  inferInstanceAs (Decidable ((∃ room ∈ s.heap[r]?, room.slot role = some c ∧
    room.slot role.opposite = some d) ∧
    Attends s Pc.connected c role r ∧ Attends s Pc.connected d role.opposite r))

/-- What `c` gets forwarded if `d` stays its peer: the messages that were sent
on, and the one that the handler has in hand. -/
def due (s : Hub) (d c : Nat) : List Sent :=
  forwards s c ++ (held s c).toList.map fun message => ⟨message.2.getD d, message.1, some c⟩

section Carries

variable {s t : Hub} {c d r : Nat} {role : Role} {read : Option Message}

/-- No message is sent on twice, and none overtakes another. -/
theorem Carries.passed (h : Carries s c read t) :
    List.Sublist (passed t c) (passed s c ++ read.toList) := by
  cases h with
  | idle hheld hsent => simp [Signaling.passed, hheld, hsent]
  | read hheld hheld' hsent => simp [Signaling.passed, hheld, hheld', hsent]
  | @lookUp t handler r room message hh hpc hroom hheld hsent =>
      have hold : held s c = some (message, none) := by
        rw [held_eq hh, hpc]
        rfl
      cases hpeer : room.getPeer handler.role with
      | none => simp [Signaling.passed, hold, hheld, hsent, hpeer]
      | some peer => simp [Signaling.passed, hold, hheld, hsent, hpeer]
  | send hheld hheld' hsent => simp [Signaling.passed, hheld, hheld', hsent]

/-- A message that is looked up goes to whoever stands in the room. -/
theorem Carries.due_of_slot (h : Carries s c read t) (hc : Attends s anywhere c role r)
    (hslot : ∃ room ∈ s.heap[r]?, room.slot role.opposite = some d) :
    due t d c = due s d c ++ read.toList.map fun message => ⟨d, message, some c⟩ := by
  cases h with
  | idle hheld hsent => simp [Signaling.due, hheld, hsent]
  | read hheld hheld' hsent => simp [Signaling.due, hheld, hheld', hsent]
  | @lookUp t handler r' room message hh hpc hroom hheld hsent =>
      obtain ⟨room', hroom', hslot⟩ := hslot
      obtain ⟨handler', hh', hrole, hjoined, -⟩ := hc
      obtain rfl := Option.mem_unique hh hh'
      obtain rfl : r' = r := by
        rw [hpc] at hjoined
        exact Option.some.inj hjoined
      obtain rfl := Option.mem_unique hroom hroom'
      have hold : held s c = some (message, none) := by
        rw [held_eq hh, hpc]
        rfl
      have hpeer : room.getPeer handler.role = some d := by
        rw [room.getPeer_eq, hrole, hslot]
      simp [Signaling.due, hold, hheld, hsent, hpeer]
  | send hheld hheld' hsent => simp [Signaling.due, hheld, hheld', hsent]

/-- Between peers no message is lost. -/
theorem Carries.due (h : Carries s c read t) (hpeers : Peers s r role c d) :
    due t d c = due s d c ++ read.toList.map fun message => ⟨d, message, some c⟩ := by
  obtain ⟨⟨room, hroom, -, hslot⟩, hc, -⟩ := hpeers
  exact h.due_of_slot (hc.imp fun _ _ => rfl) ⟨room, hroom, hslot⟩

/-- The handler of a connected client has a step, or waits for its next frame. -/
theorem Peers.reading (hpeers : Peers s r role c d) (hwait : s.handleWebSocket c = none) :
    ∃ handler, s.handlers[c]? = some handler ∧ handler.pc = .reading r := by
  obtain ⟨⟨room, hroom, hmine, htheirs⟩, ⟨handler, hh, hrole, hjoined, hconnected⟩, -⟩ := hpeers
  have hslots : ∀ role, room.slot role ≠ none := by
    intro role'
    rcases role.eq_or_eq_opposite role' with rfl | rfl
    · simp [hmine]
    · simp [htheirs]
  obtain ⟨sender, hsender⟩ := Option.ne_none_iff_exists'.mp (hslots .sender)
  obtain ⟨receiver, hreceiver⟩ := Option.ne_none_iff_exists'.mp (hslots .receiver)
  rw [Hub.handleWebSocket, (show s.handlers[c]? = some handler from hh)] at hwait
  cases hpc : handler.pc with
  | reading r' =>
      rw [hpc] at hjoined
      exact ⟨handler, hh, by rw [hpc, Option.some.inj hjoined]⟩
  | attached r' | ready r' | toldSender r' | forwarding r' message
  | forwardingTo r' message peer =>
      obtain rfl : r' = r := by
        rw [hpc] at hjoined
        exact Option.some.inj hjoined
      have hroom' : s.heap[r']? = some room := hroom
      have hsender' : room.sender = some sender := hsender
      have hreceiver' : room.receiver = some receiver := hreceiver
      simp only [Option.bind_eq_bind, Option.bind_some, hpc, hroom', hsender', hreceiver'] at hwait
      first
        | cases hwait
        | split at hwait <;> cases hwait
  | _ => simp [hpc, Pc.connected] at hconnected

end Carries

/-! ## Whose messages a client gets -/

/-- `d` is attached to the room of `c`, in the other role. -/
def Opposite (s : Hub) (c d : Nat) : Prop :=
  ∃ role r, Attends s anywhere c role r ∧ Attends s anywhere d role.opposite r

/-- What is sent on, or is about to be, is for somebody of the other role. -/
structure Addressed (s : Hub) : Prop where
  hand : ∀ (c : Nat) (message : Message) (peer : Nat), held s c = some (message, some peer) →
    Opposite s c peer
  sent : ∀ (c : Nat), ∀ call ∈ forwards s c, Opposite s c call.client

/-- The value of the handler's variable `room`. -/
def Pc.room : Pc → Option Nat
  | .gotRoom r | .upgraded r => some r
  | pc => pc.joined

/-- The rooms have the ids under which they were looked up or created. -/
structure Placed (s : Hub) : Prop where
  rooms : ∀ (id : String) (r : Nat), s.rooms id = some r → ∃ room ∈ s.heap[r]?, room.id = id
  own : ∀ (h : Nat) (handler : Handler) (r : Nat), s.handlers[h]? = some handler →
    handler.pc.room = some r → ∃ room ∈ s.heap[r]?, room.id = handler.room

theorem addressed_empty : Addressed {} where
  hand := by simp [held]
  sent := by simp [forwards]

theorem placed_empty : Placed {} where
  rooms := by simp
  own := by simp

section Steps

variable {s t : Hub} {h r : Nat} {handler : Handler} {pc : Pc}

theorem Addressed.steps (hs : Addressed s) (hj : Seated s) {a : Action} (hsteps : Steps s a t)
    (hcarries : ∀ c, ∃ read, Carries s c read t) : Addressed t := by
  have hforth : ∀ {c d}, Opposite s c d → Opposite t c d := fun ⟨role, r, hc, hd⟩ =>
    ⟨role, r, hsteps.attends hc, hsteps.attends hd⟩
  refine ⟨fun c message peer hhand => ?_, fun c call hcall => ?_⟩
  · obtain ⟨read, hc⟩ := hcarries c
    cases hc with
    | idle hheld hsent => exact hforth (hs.hand c message peer (hheld ▸ hhand))
    | read hheld hheld' hsent => simp [hheld'] at hhand
    | @lookUp t handler r room message' hh hpc hroom hheld hsent =>
        rw [hheld] at hhand
        obtain ⟨peer', hpeer, heq⟩ := Option.map_eq_some_iff.mp hhand
        obtain ⟨rfl, rfl⟩ : message' = message ∧ peer' = peer := by simpa using heq
        rw [room.getPeer_eq] at hpeer
        exact hforth ⟨handler.role, r, ⟨handler, hh, rfl, by rw [hpc]; rfl, rfl⟩,
          hj.slots r room _ peer' hroom hpeer⟩
    | send hheld hheld' hsent => simp [hheld'] at hhand
  · obtain ⟨read, hc⟩ := hcarries c
    cases hc with
    | idle hheld hsent | lookUp hh hpc hroom hheld hsent =>
        exact hforth (hs.sent c call (hsent ▸ hcall))
    | read hheld hheld' hsent => exact hforth (hs.sent c call (hsent ▸ hcall))
    | @send t message peer hheld hheld' hsent =>
        rw [hsent] at hcall
        rcases List.mem_append.mp hcall with hcall | hcall
        · exact hforth (hs.sent c call hcall)
        · obtain rfl := List.mem_singleton.mp hcall
          exact hforth (hs.hand c message peer hheld)

theorem Pc.room_of_joined (hpc : pc.joined = some r) : pc.room = some r := by
  cases pc <;> first | exact hpc | cases hpc

/-- The variable of a handler is looked up once. -/
theorem Moves.room_cases {calls : List Sent} (hmove : Moves s h handler pc calls)
    (hpc : pc.room = some r) :
    handler.pc.room = some r ∨ s.rooms handler.room = some r := by
  cases hmove with
  | found hp hroom =>
      obtain rfl := Option.some.inj hpc
      exact .inr hroom
  | test hp hroom =>
      rw [hp]
      left
      split at hpc <;> exact hpc
  | absent hp | notFound hp | upgradeFails hp => cases hpc
  | upgrade hp | tellSender hp | tellReceiver hp | read hp | skip hp | readFails hp | peer hp
  | noPeer hp | forward hp | lookUp hp | tellPeer hp | tellNobody hp =>
      rw [hp]
      exact .inl hpc

theorem Placed.create (hs : Placed s) (id : String) : Placed (s.createRoomWithID id).2 where
  rooms id' r hr := by
    have hr' : Function.update s.rooms id (some s.heap.length) id' = some r := hr
    by_cases hid : id' = id
    · subst hid
      rw [Function.update_self] at hr'
      obtain rfl := Option.some.inj hr'
      exact ⟨{ id := id' }, List.getElem?_concat_length, rfl⟩
    · rw [Function.update_of_ne hid] at hr'
      obtain ⟨room, hroom, hid⟩ := hs.rooms id' r hr'
      exact ⟨room, Tally.getElem?_concat_of_some hroom, hid⟩
  own h handler r hh hr := by
    obtain ⟨room, hroom, hid⟩ := hs.own h handler r hh hr
    exact ⟨room, Tally.getElem?_concat_of_some hroom, hid⟩

/-- A handler goes on, and the rooms keep their ids. -/
theorem Placed.set (hs : Placed s) (ht : t.handlers = s.handlers.set h { handler with pc })
    (hrooms : ∀ id r, t.rooms id = some r → s.rooms id = some r)
    (hheap : ∀ r : Nat, ∀ room ∈ s.heap[r]?, ∃ room' ∈ t.heap[r]?, room'.id = room.id)
    (hown : ∀ r, pc.room = some r → ∃ room ∈ s.heap[r]?, room.id = handler.room) : Placed t where
  rooms id r hr := by
    obtain ⟨room, hroom, rfl⟩ := hs.rooms id r (hrooms id r hr)
    exact hheap r room hroom
  own h' handler' r hh' hr := by
    have hold : ∃ room ∈ s.heap[r]?, room.id = handler'.room := by
      rw [ht] at hh'
      rcases Tally.getElem?_set_cases hh' with ⟨-, rfl⟩ | ⟨-, hh'⟩
      · exact hown r hr
      · exact hs.own h' handler' r hh' hr
    obtain ⟨room, hroom, hid⟩ := hold
    obtain ⟨room', hroom', hid'⟩ := hheap r room hroom
    exact ⟨room', hroom', hid'.trans hid⟩

theorem Placed.steps (hs : Placed s) {a : Action} (hsteps : Steps s a t) : Placed t := by
  cases hsteps with
  | create method id => exact hs.create id
  | connect room role role' =>
      refine ⟨hs.rooms, fun h handler r hh hr => ?_⟩
      rcases Tally.getElem?_concat_cases hh with hh | ⟨-, rfl⟩
      · exact hs.own h handler r hh hr
      · cases hr
  | @move a h handler pc calls ha hh hmove =>
      refine hs.set rfl (fun _ _ hr => hr) (fun r room hroom => ⟨room, hroom, rfl⟩)
        fun r hr => ?_
      rcases hmove.room_cases hr with hr | hr
      · exact hs.own h handler r hh hr
      · exact hs.rooms handler.room r hr
  | @createFor h handler hh hpc =>
      refine (hs.create handler.room).set rfl (fun _ _ hr => hr)
        (fun r room hroom => ⟨room, hroom, rfl⟩) fun r hr => ?_
      obtain rfl := Option.some.inj hr
      exact ⟨{ id := handler.room }, List.getElem?_concat_length, rfl⟩
  | @attach h r handler room hh hpc hroom =>
      refine hs.set rfl (fun _ _ hr => hr) (fun r' room' hroom' => ?_) fun r' hr' =>
        hs.own h handler r' hh (by rw [hpc]; exact hr')
      show ∃ room'' ∈ (s.heap.set r (room.set h handler.role))[r']?, room''.id = room'.id
      by_cases hrr : r' = r
      · subst hrr
        obtain rfl := Option.mem_unique hroom hroom'
        refine ⟨_, List.getElem?_set_self (List.getElem?_eq_some_iff.mp hroom).1, ?_⟩
        cases handler.role <;> rfl
      · exact ⟨room', (List.getElem?_set_ne (Ne.symm hrr)).trans hroom', rfl⟩
  | @leave h r handler hh hpc =>
      refine hs.set (Hub.handlers_leave s handler h r) (fun id r' hr' => ?_)
        (fun r' room' hroom' => ⟨room', ?_, rfl⟩) fun r' hr' =>
          hs.own h handler r' hh (by rw [hpc]; exact hr')
      · have hr : (s.cleanUp handler).rooms id = some r' := hr'
        rw [Hub.cleanUp] at hr
        split at hr
        next =>
          by_cases hid : id = handler.room
          · simp [Hub.removeRoom, hid] at hr
          · exact (Function.update_of_ne hid _ _).symm.trans hr
        next => exact hr
      · show room' ∈ (s.cleanUp handler).heap[r']?
        rw [Hub.heap_cleanUp]
        exact hroom'

/-- Clients of one room have asked for one id. -/
theorem Placed.room_eq (hs : Placed s) {c d : Nat} {role role' : Role} {client client' : Handler}
    (hc : Attends s anywhere c role r) (hd : Attends s anywhere d role' r)
    (hclient : s.handlers[c]? = some client) (hclient' : s.handlers[d]? = some client') :
    client.room = client'.room := by
  obtain ⟨handler, hh, -, hr, -⟩ := hc
  obtain ⟨handler', hh', -, hr', -⟩ := hd
  obtain rfl := Option.mem_unique hclient hh
  obtain rfl := Option.mem_unique hclient' hh'
  obtain ⟨room, hroom, hid⟩ := hs.own c client r hclient (Pc.room_of_joined hr)
  obtain ⟨room', hroom', hid'⟩ := hs.own d client' r hclient' (Pc.room_of_joined hr')
  obtain rfl := Option.mem_unique hroom hroom'
  exact hid.symm.trans hid'

end Steps

namespace Exchange

/-- What `c` gets forwarded if `d` stays its peer, with the frames that are yet
to be read. -/
def due (x : Exchange) (d c : Nat) : List Sent :=
  Signaling.due x.hub d c ++ (x.outbox c).reduceOption.map fun message => ⟨d, message, some c⟩

/-- The handler of `c` has no step left to take. -/
def Settled (x : Exchange) (c : Nat) : Prop :=
  step x (.server (.handle c)) = none ∧ step x (.read c) = none

section Steps

variable {x y : Exchange} {c d r : Nat} {role : Role}

theorem sends_cons (c : Nat) (a : Action) (as : List Action) :
    sends c (a :: as) = sends c [a] ++ sends c as := by
  cases a with
  | server a => rfl
  | read c' => rfl
  | send c' frame =>
      cases frame with
      | none => rfl
      | some message =>
          simp only [sends]
          split <;> rfl

theorem readMessage_eq (hread : x.readMessage c = some y) :
    ∃ frame rest, x.outbox c = frame :: rest ∧ x.hub.readMessage c frame = some y.hub ∧
      y.outbox = Function.update x.outbox c rest := by
  obtain ⟨frame, hframe, hread⟩ := Option.bind_eq_some_iff.mp hread
  obtain ⟨hub, hhub, hread⟩ := Option.bind_eq_some_iff.mp hread
  obtain rfl := Option.some.inj hread
  obtain ⟨rest, hrest⟩ := List.head?_eq_some_iff.mp hframe
  exact ⟨frame, rest, hrest, hhub, by rw [hrest, List.tail_cons]⟩

/-- A step of the hub, or none, with what is read and what is sent. -/
theorem step_carries {a : Action} (hstep : step x a = some y) (c : Nat) :
    ∃ read, Carries x.hub c read y.hub ∧
      read.toList ++ (y.outbox c).reduceOption = (x.outbox c).reduceOption ++ sends c [a] := by
  cases a with
  | server a =>
      have hserver : (∀ h frame, a ≠ .readMessage h frame) ∧
          (Signaling.step x.hub a).map (fun hub => { x with hub }) = some y := by
        cases a with
        | readMessage h frame => cases hstep
        | _ => exact ⟨fun _ _ => Signaling.Action.noConfusion, hstep⟩
      obtain ⟨hub, hhub, rfl⟩ := Option.map_eq_some_iff.mp hserver.2
      exact ⟨none, carries_of_step hhub hserver.1 c, by simp [sends]⟩
  | send c' frame =>
      obtain rfl := Option.some.inj hstep
      refine ⟨none, .idle rfl rfl, ?_⟩
      show (Function.update x.outbox c' (x.outbox c' ++ [frame]) c).reduceOption = _
      by_cases hcc : c = c'
      · subst hcc
        rw [Function.update_self, List.reduceOption_append]
        cases frame <;> simp [sends]
      · rw [Function.update_of_ne hcc]
        cases frame <;> simp [sends, Ne.symm hcc]
  | read c' =>
      obtain ⟨frame, rest, hout, hhub, hout'⟩ := readMessage_eq hstep
      refine ⟨_, carries_of_read hhub c, ?_⟩
      rw [hout']
      by_cases hcc : c = c'
      · subst hcc
        rw [if_pos rfl, Function.update_self, hout]
        cases frame <;> simp [sends]
      · rw [if_neg hcc, Function.update_of_ne hcc]
        simp [sends]

theorem step_steps {a : Action} (hstep : step x a = some y) :
    y.hub = x.hub ∨ ∃ a, Steps x.hub a y.hub := by
  cases a with
  | server a =>
      cases a with
      | readMessage h frame => cases hstep
      | _ =>
          obtain ⟨hub, hhub, rfl⟩ := Option.map_eq_some_iff.mp hstep
          exact .inr ⟨_, steps_of_step hhub⟩
  | send c frame =>
      obtain rfl := Option.some.inj hstep
      exact .inl rfl
  | read c =>
      obtain ⟨frame, rest, -, hhub, -⟩ := readMessage_eq hstep
      exact .inr ⟨_, steps_of_step (a := .readMessage c frame) hhub⟩

/-- What is sent on, in hand or on its way was sent before, in this order. -/
theorem passed_sublist {as : List Action} (hrun : Runs.run step x as = some y) (c : Nat) :
    List.Sublist (passed y.hub c ++ (y.outbox c).reduceOption)
      (passed x.hub c ++ (x.outbox c).reduceOption ++ sends c as) := by
  induction as generalizing x with
  | nil =>
      obtain rfl := Option.some.inj hrun
      simp [sends]
  | cons a as ih =>
      obtain ⟨z, hstep, hrest⟩ := Option.bind_eq_some_iff.mp hrun
      obtain ⟨read, hcarries, hread⟩ := step_carries hstep c
      have hlast := ih hrest
      have hfirst : List.Sublist (passed z.hub c ++ (z.outbox c).reduceOption)
          (passed x.hub c ++ ((x.outbox c).reduceOption ++ sends c [a])) := by
        rw [← hread, ← List.append_assoc]
        exact hcarries.passed.append_right _
      rw [sends_cons, ← List.append_assoc, List.append_assoc (passed x.hub c)]
      exact hlast.trans (hfirst.append_right _)

/-- While `c` and `d` are peers, every message of `c` is for `d`. -/
theorem due_run {as : List Action} (hrun : Runs.run step x as = some y)
    (hpeers : Runs.Always step (fun x => Peers x.hub r role c d) x as) :
    y.due d c = x.due d c ++ (sends c as).map fun message => ⟨d, message, some c⟩ := by
  induction as generalizing x with
  | nil =>
      obtain rfl := Option.some.inj hrun
      simp [sends]
  | cons a as ih =>
      obtain ⟨z, hstep, hrest⟩ := Option.bind_eq_some_iff.mp hrun
      obtain ⟨read, hcarries, hread⟩ := step_carries hstep c
      have hfirst : z.due d c = x.due d c ++ (sends c [a]).map fun message =>
          ⟨d, message, some c⟩ := by
        rw [due, hcarries.due hpeers.1, List.append_assoc, ← List.map_append, hread,
          List.map_append,
          ← List.append_assoc, due]
      rw [ih hrest (hpeers.2 z hstep), hfirst, sends_cons c a as, List.map_append,
        List.append_assoc]

/-- When nothing is left to do, all that is due has been sent on. -/
theorem forwards_settled (hpeers : Peers x.hub r role c d) (hsettled : Settled x c) :
    forwards x.hub c = x.due d c := by
  obtain ⟨hhandle, hread⟩ := hsettled
  obtain ⟨handler, hh, hpc⟩ := hpeers.reading (Option.map_eq_none_iff.mp hhandle)
  have hhand : held x.hub c = none := by
    rw [held_eq hh, hpc]
    rfl
  have hout : x.outbox c = [] := by
    cases hout : x.outbox c with
    | nil => rfl
    | cons frame rest =>
        have hsome : (x.hub.readMessage c frame).isSome := by
          rw [Hub.readMessage, hh]
          cases frame <;> simp [hpc]
        obtain ⟨hub, hhub⟩ := Option.isSome_iff_exists.mp hsome
        simp [step, Exchange.readMessage, hout, hhub] at hread
  simp [due, Signaling.due, hhand, hout]

end Steps

/-- **Signaling is isolated, in order and complete**, in every run. Whatever is
forwarded was sent by a client of the other role that asked for the same room;
the messages of a client are sent on in their order and at most once each; and
as long as two clients are each other's peers, the messages of each are sent on
to the other, once each and in their order. -/
theorem messages_forwarded (as : List Action) (x : Exchange)
    (hrun : Runs.run step {} as = some x) :
    (∀ call ∈ x.hub.sent, ∀ c, call.origin = some c → call.message ∈ sends c as ∧
      ∃ author ∈ x.hub.handlers[c]?, ∃ client ∈ x.hub.handlers[call.client]?,
        client.role = author.role.opposite ∧ client.room = author.room) ∧
    (∀ c, List.Sublist ((forwards x.hub c).map (·.message)) (sends c as)) ∧
    ∀ r role c d bs y, Runs.run step x bs = some y →
      Runs.Always step (fun x => Peers x.hub r role c d) x bs →
      y.due d c = x.due d c ++ (sends c bs).map (fun message => ⟨d, message, some c⟩) ∧
      (Settled y c → forwards y.hub c =
        x.due d c ++ (sends c bs).map fun message => ⟨d, message, some c⟩) := by
  have horder : ∀ c, List.Sublist ((forwards x.hub c).map (·.message)) (sends c as) := by
    intro c
    have hsub := passed_sublist hrun c
    simp only [passed, forwards, held, List.filter_nil, List.map_nil, List.getElem?_nil,
      Option.bind_none, Option.toList_none, List.reduceOption_nil, List.nil_append] at hsub
    rw [List.append_assoc] at hsub
    exact (List.sublist_append_left _ _).trans hsub
  have hall : Seated x.hub ∧ Placed x.hub ∧ Addressed x.hub := by
    apply (Runs.reach_of_run as hrun).invariant ⟨seated_empty, placed_empty, addressed_empty⟩
    intro u a v hu hstep
    obtain ⟨hseated, hplaced, haddressed⟩ := hu
    rcases step_steps hstep with hsame | ⟨a', hsteps⟩
    · rw [hsame]
      exact ⟨hseated, hplaced, haddressed⟩
    · refine ⟨hseated.steps hsteps, hplaced.steps hsteps, haddressed.steps hseated hsteps ?_⟩
      intro c
      obtain ⟨read, hcarries, -⟩ := step_carries hstep c
      exact ⟨read, hcarries⟩
  obtain ⟨-, hplaced, haddressed⟩ := hall
  refine ⟨fun call hcall c horigin => ?_, horder, fun r role c d bs y hrun' hpeers => ?_⟩
  · have hmem : call ∈ forwards x.hub c := List.mem_filter.mpr ⟨hcall, by simp [horigin]⟩
    refine ⟨(horder c).subset (List.mem_map_of_mem hmem), ?_⟩
    obtain ⟨role, r, hc, hd⟩ := haddressed.sent c call hmem
    obtain ⟨author, hauthor, hrole, -⟩ := id hc
    obtain ⟨client, hclient, hrole', -⟩ := id hd
    exact ⟨author, hauthor, client, hclient, by rw [hrole, hrole'],
      hplaced.room_eq hd hc hclient hauthor⟩
  · have hdue := due_run hrun' hpeers
    exact ⟨hdue, fun hsettled => (forwards_settled (hpeers.last hrun') hsettled).trans hdue⟩

def offer : Message := { type := "offer", payload := "sdp" }

def candidate : Message := { type := "ice-candidate", payload := "host" }

/-- A sender and a receiver are attached to a room and told so. -/
def meet : List Action :=
  [.connect "room" "sender", .handle 0, .handle 0, .handle 0, .handle 0, .handle 0,
    .connect "room" "receiver", .handle 1, .handle 1, .handle 1, .handle 1, .handle 1,
    .handle 1].map .server

/-- The state after that. -/
def met : Exchange where
  hub := {
    rooms := Function.update (fun _ => none) "room" (some 0)
    heap := [⟨"room", some 0, some 1⟩]
    handlers := [⟨"room", .sender, .reading 0⟩, ⟨"room", .receiver, .reading 0⟩]
    sent := [⟨0, peerJoined "receiver", none⟩, ⟨1, peerJoined "sender", none⟩]
    arrivals := [0, 1] }

/-- The sender sends two messages and a frame that is none. -/
def negotiate : List Action :=
  [.send 0 offer, .send 0 none, .read 0, .send 0 candidate, .server (.handle 0),
    .server (.handle 0), .read 0, .read 0, .server (.handle 0), .server (.handle 0)]

theorem messages_forwarded_negotiate :
    ∃ y, Runs.run step met negotiate = some y ∧
      forwards y.hub 0 = [⟨1, offer, some 0⟩, ⟨1, candidate, some 0⟩] := by
  obtain ⟨-, -, hpeers⟩ := messages_forwarded meet met rfl
  have hmet : Runs.Always step (fun x => Peers x.hub 0 .sender 0 1) met negotiate := by
    decide
  refine ⟨_, rfl, ?_⟩
  exact (hpeers 0 .sender 0 1 negotiate _ rfl hmet).2 ⟨rfl, rfl⟩

end Exchange

end FastTransfer.Server.Signaling
