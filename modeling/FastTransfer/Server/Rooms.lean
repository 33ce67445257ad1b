import FastTransfer.Server.Signaling

/-!
# Who is attached to a room

The clients of a room, by the handlers that have stored them there. `Seated` says
what every run keeps: what stands in a room was stored there, and a place once
taken stays taken (the handlers clear none).
-/

namespace FastTransfer.Server.Signaling

/-- The client of a role. -/
def Room.slot (room : Room) : Role → Option Nat
  | .sender => room.sender
  | .receiver => room.receiver

section Slots

variable (room : Room) (role : Role) (c : Nat)

theorem Room.getPeer_eq : room.getPeer role = room.slot role.opposite := by
  cases role <;> rfl

@[simp] theorem Room.slot_set :
    (room.set c role).slot = Function.update room.slot role (some c) := by
  funext role'
  cases role <;> cases role' <;> rfl

theorem Room.isReady_iff : room.isReady = true ↔ ∀ role, room.slot role ≠ none :=
  Role.both_isSome room.slot

end Slots

namespace Pc

/-- The room that the client of a handler has been stored in. -/
def joined : Pc → Option Nat
  | .started | .noRoom | .gotRoom _ | .upgraded _ | .rejected => none
  | .attached r | .ready r | .toldSender r | .reading r | .forwarding r _ | .forwardingTo r _ _
  | .closed r | .telling r _ | .told r | .ended r => some r

/-- The handler has not ended. -/
def present : Pc → Bool
  | .ended _ => false
  | _ => true

end Pc

/-- The client `c` has been stored in the room `r` in a role, and its handler is
at a place of a kind. -/
def Attends (s : Hub) (place : Pc → Bool) (c : Nat) (role : Role) (r : Nat) : Prop :=
  ∃ handler ∈ s.handlers[c]?, handler.role = role ∧ handler.pc.joined = some r ∧
    place handler.pc = true

/-- At any place. -/
def anywhere : Pc → Bool := fun _ => true

instance decidableAttends (s : Hub) (place : Pc → Bool) (c : Nat) (role : Role) (r : Nat) :
    Decidable (Attends s place c role r) :=
  inferInstanceAs (Decidable (∃ handler ∈ s.handlers[c]?, handler.role = role ∧
    handler.pc.joined = some r ∧ place handler.pc = true))

section Attends

variable {s t : Hub} {place place' : Pc → Bool} {c h r : Nat} {role : Role} {handler : Handler}
  {pc : Pc}

theorem Attends.lt (hc : Attends s place c role r) : c < s.handlers.length := by
  obtain ⟨handler, hc, -⟩ := hc
  exact (List.getElem?_eq_some_iff.mp hc).1

theorem Attends.imp (hc : Attends s place c role r)
    (himp : ∀ pc, place pc = true → place' pc = true) : Attends s place' c role r := by
  obtain ⟨handler, hc, hrole, hr, hplace⟩ := hc
  exact ⟨handler, hc, hrole, hr, himp _ hplace⟩

/-- A client is attached in one role to one room. -/
theorem Attends.unique {role' : Role} {r' : Nat} (hc : Attends s place c role r)
    (hc' : Attends s place' c role' r') : role = role' ∧ r = r' := by
  obtain ⟨handler, hc, rfl, hr, -⟩ := hc
  obtain ⟨handler', hc', rfl, hr', -⟩ := hc'
  obtain rfl := Option.mem_unique hc hc'
  exact ⟨rfl, Option.mem_unique hr hr'⟩

/-- What one handler's step to `pc` means for who is attached. -/
theorem attends_set_iff (hh : s.handlers[h]? = some handler)
    (ht : t.handlers = s.handlers.set h { handler with pc }) :
    Attends t place c role r ↔
      c = h ∧ handler.role = role ∧ pc.joined = some r ∧ place pc = true ∨
        c ≠ h ∧ Attends s place c role r := by
  have hlt := (List.getElem?_eq_some_iff.mp hh).1
  by_cases hch : c = h
  · subst hch
    simp [Attends, ht, List.getElem?_set_self hlt]
  · simp [Attends, ht, List.getElem?_set_ne (Ne.symm hch), hch]

theorem attends_append (request : Handler) (hpc : request.pc = .started) :
    Attends { s with handlers := s.handlers ++ [request] } place c role r ↔
      Attends s place c role r := by
  constructor
  · rintro ⟨handler, hc, hrest⟩
    rcases Tally.getElem?_concat_cases hc with hc | ⟨-, rfl⟩
    · exact ⟨handler, hc, hrest⟩
    · rw [hpc] at hrest
      cases hrest.2.1
  · rintro ⟨handler, hc, hrest⟩
    exact ⟨handler, Tally.getElem?_concat_of_some hc, hrest⟩

/-- A handler that stays where it is attached: what it was before. -/
theorem Attends.back (hh : s.handlers[h]? = some handler)
    (ht : t.handlers = s.handlers.set h { handler with pc })
    (hjoined : pc.joined = handler.pc.joined)
    (hplace : place pc = true → place' handler.pc = true)
    (hother : ∀ pc, place pc = true → place' pc = true) (hc : Attends t place c role r) :
    Attends s place' c role r := by
  rcases (attends_set_iff hh ht).mp hc with ⟨rfl, hrole, hr, hp⟩ | ⟨-, hc⟩
  · exact ⟨handler, hh, hrole, hjoined ▸ hr, hplace hp⟩
  · exact hc.imp hother

/-- A handler that stays where it is attached: what it is after. -/
theorem Attends.forth (hh : s.handlers[h]? = some handler)
    (ht : t.handlers = s.handlers.set h { handler with pc })
    (hjoined : ∀ r, handler.pc.joined = some r → pc.joined = some r)
    (hplace : place handler.pc = true → place pc = true) (hc : Attends s place c role r) :
    Attends t place c role r := by
  rw [attends_set_iff hh ht]
  by_cases hch : c = h
  · subst hch
    obtain ⟨handler', hc, hrole, hr, hp⟩ := hc
    obtain rfl := Option.mem_unique hh hc
    exact .inl ⟨rfl, hrole, hjoined r hr, hplace hp⟩
  · exact .inr ⟨hch, hc⟩

/-- A step of a handler says nothing about the rooms it is not attached to. -/
theorem attends_set_other (hh : s.handlers[h]? = some handler)
    (ht : t.handlers = s.handlers.set h { handler with pc }) (hbefore : handler.pc.joined ≠ some r)
    (hafter : pc.joined ≠ some r) : Attends t place c role r ↔ Attends s place c role r := by
  rw [attends_set_iff hh ht]
  constructor
  · rintro (⟨-, -, hr, -⟩ | ⟨-, hc⟩)
    · exact absurd hr hafter
    · exact hc
  · intro hc
    refine .inr ⟨?_, hc⟩
    rintro rfl
    obtain ⟨handler', hh', -, hr, -⟩ := hc
    obtain rfl := Option.mem_unique hh hh'
    exact hbefore hr

/-- A client is stored in a room: it attends it, besides those who did before. -/
theorem attends_attach_iff {r' : Nat} (hh : s.handlers[h]? = some handler)
    (hpc : handler.pc = .upgraded r)
    (ht : t.handlers = s.handlers.set h { handler with pc := .attached r }) :
    Attends t place c role r' ↔
      c = h ∧ handler.role = role ∧ r = r' ∧ place (.attached r) = true ∨
        Attends s place c role r' := by
  rw [attends_set_iff hh ht]
  constructor
  · rintro (⟨hch, hrole, hr, hp⟩ | ⟨-, hc⟩)
    · exact .inl ⟨hch, hrole, Option.some.inj hr, hp⟩
    · exact .inr hc
  · rintro (⟨hch, hrole, rfl, hp⟩ | hc)
    · exact .inl ⟨hch, hrole, rfl, hp⟩
    · refine .inr ⟨?_, hc⟩
      rintro rfl
      obtain ⟨handler', hh', -, hr, -⟩ := hc
      obtain rfl := Option.mem_unique hh hh'
      rw [hpc] at hr
      cases hr

end Attends

@[simp] theorem Hub.handlers_cleanUp (s : Hub) (handler : Handler) :
    (s.cleanUp handler).handlers = s.handlers := by
  rw [cleanUp]
  split <;> rfl

theorem Hub.handlers_leave (s : Hub) (handler : Handler) (h r : Nat) :
    ((s.cleanUp handler).goto h handler (.ended r)).handlers =
      s.handlers.set h { handler with pc := .ended r } := by
  rw [goto, handlers_cleanUp]

@[simp] theorem Hub.heap_cleanUp (s : Hub) (handler : Handler) :
    (s.cleanUp handler).heap = s.heap := by
  rw [cleanUp]
  split <;> rfl

theorem Moves.joined {s : Hub} {h : Nat} {handler : Handler} {pc : Pc} {calls : List Sent}
    (hmove : Moves s h handler pc calls) : pc.joined = handler.pc.joined := by
  cases hmove with
  | test hpc hroom =>
      rw [hpc]
      split <;> rfl
  | found hpc | absent hpc | notFound hpc | upgrade hpc | upgradeFails hpc | tellSender hpc
  | tellReceiver hpc | read hpc | skip hpc | readFails hpc | peer hpc | noPeer hpc | forward hpc
  | lookUp hpc | tellPeer hpc | tellNobody hpc => simp only [hpc, Pc.joined]

theorem Moves.present {s : Hub} {h : Nat} {handler : Handler} {pc : Pc} {calls : List Sent}
    (hmove : Moves s h handler pc calls) : pc.present = handler.pc.present := by
  cases hmove with
  | test hpc hroom =>
      rw [hpc]
      split <;> rfl
  | found hpc | absent hpc | notFound hpc | upgrade hpc | upgradeFails hpc | tellSender hpc
  | tellReceiver hpc | read hpc | skip hpc | readFails hpc | peer hpc | noPeer hpc | forward hpc
  | lookUp hpc | tellPeer hpc | tellNobody hpc => simp only [hpc, Pc.present]

/-- Once stored in a room, a client stays attached to it. -/
theorem Steps.attends {s t : Hub} {a : Action} (h : Steps s a t) {c : Nat} {role : Role} {r : Nat}
    (hc : Attends s anywhere c role r) : Attends t anywhere c role r := by
  cases h with
  | create method id => exact hc
  | connect room role' role'' => exact (attends_append _ rfl).mpr hc
  | move ha hh hmove => exact hc.forth hh rfl (fun r hr => hmove.joined.trans hr) id
  | createFor hh hpc => exact hc.forth hh rfl (by simp [hpc, Pc.joined]) id
  | attach hh hpc hroom => exact (attends_attach_iff hh hpc rfl).mpr (.inr hc)
  | leave hh hpc => exact hc.forth hh (Hub.handlers_leave _ _ _ _) (by simp [hpc, Pc.joined]) id

/-! ## What holds in every run -/

/-- **What every run keeps**. -/
structure Seated (s : Hub) : Prop where
  slots : ∀ (r : Nat) (room : Room) (role : Role) (c : Nat), s.heap[r]? = some room →
    room.slot role = some c → Attends s anywhere c role r
  seat : ∀ (c : Nat) (role : Role) (r : Nat), Attends s anywhere c role r →
    ∃ room, s.heap[r]? = some room ∧ room.slot role ≠ none
  addressee : ∀ (h : Nat) (handler : Handler) (r peer : Nat), s.handlers[h]? = some handler →
    handler.pc = .telling r (some peer) → Attends s anywhere peer handler.role.opposite r

theorem seated_empty : Seated {} where
  slots := by simp
  seat := by simp [Attends]
  addressee := by simp

section Seated

variable {s t : Hub} {h r : Nat} {handler : Handler} {pc : Pc} {room : Room}

theorem Seated.create (hs : Seated s) (id : String) : Seated (s.createRoomWithID id).2 where
  slots r room role c hr hslot := by
    rcases Tally.getElem?_concat_cases hr with hr | ⟨-, rfl⟩
    · exact hs.slots r room role c hr hslot
    · cases role <;> cases hslot
  seat c role r hc := by
    obtain ⟨room, hr, hslot⟩ := hs.seat c role r hc
    exact ⟨room, Tally.getElem?_concat_of_some hr, hslot⟩
  addressee := hs.addressee

theorem Seated.connect (hs : Seated s) (request : Handler) (hpc : request.pc = .started) :
    Seated { s with handlers := s.handlers ++ [request] } where
  slots r room role c hr hslot :=
    (attends_append request hpc).mpr (hs.slots r room role c hr hslot)
  seat c role r hc := hs.seat c role r ((attends_append request hpc).mp hc)
  addressee h handler r peer hh hp := by
    rcases Tally.getElem?_concat_cases hh with hh | ⟨-, rfl⟩
    · exact (attends_append request hpc).mpr (hs.addressee h handler r peer hh hp)
    · rw [hpc] at hp
      cases hp

/-- A handler goes on where it is attached. -/
theorem Seated.set (hs : Seated s) (hh : s.handlers[h]? = some handler)
    (ht : t.handlers = s.handlers.set h { handler with pc }) (hheap : t.heap = s.heap)
    (hjoined : pc.joined = handler.pc.joined)
    (htelling : ∀ r peer, pc = .telling r (some peer) →
      Attends s anywhere peer handler.role.opposite r) : Seated t := by
  have hforth : ∀ {c role r}, Attends s anywhere c role r → Attends t anywhere c role r :=
    fun hc => hc.forth hh ht (fun r hr => hjoined.trans hr) id
  refine ⟨fun r room role c hr hslot => ?_, fun c role r hc => ?_,
    fun h' handler' r peer hh' hp => ?_⟩
  · rw [hheap] at hr
    exact hforth (hs.slots r room role c hr hslot)
  · rw [hheap]
    exact hs.seat c role r (hc.back hh ht hjoined (fun _ => rfl) fun _ => id)
  · rw [ht] at hh'
    rcases Tally.getElem?_set_cases hh' with ⟨-, rfl⟩ | ⟨-, hh'⟩
    · exact hforth (htelling r peer hp)
    · exact hforth (hs.addressee h' handler' r peer hh' hp)

theorem Seated.attach (hs : Seated s) (hh : s.handlers[h]? = some handler)
    (hpc : handler.pc = .upgraded r) (hroom : s.heap[r]? = some room) :
    Seated ((s.setClient r room h handler.role).goto h handler (.attached r)) := by
  have hset : (s.heap.set r (room.set h handler.role))[r]? = some (room.set h handler.role) :=
    List.getElem?_set_self (List.getElem?_eq_some_iff.mp hroom).1
  refine ⟨fun r' room' role c hr hslot => ?_, fun c role r' hc => ?_,
    fun h' handler' r' peer hh' hp => ?_⟩
  · rw [attends_attach_iff hh hpc rfl]
    rcases Tally.getElem?_set_cases hr with ⟨rfl, rfl⟩ | ⟨-, hr⟩
    · by_cases hrole : role = handler.role
      · subst hrole
        rw [Room.slot_set, Function.update_self] at hslot
        exact .inl ⟨(Option.some.inj hslot).symm, rfl, rfl, rfl⟩
      · rw [Room.slot_set, Function.update_of_ne hrole] at hslot
        exact .inr (hs.slots r' room role c hroom hslot)
    · exact .inr (hs.slots r' room' role c hr hslot)
  · rcases (attends_attach_iff hh hpc rfl).mp hc with ⟨rfl, rfl, rfl, -⟩ | hc
    · exact ⟨_, hset, by simp⟩
    · obtain ⟨room', hr, hslot⟩ := hs.seat c role r' hc
      by_cases hrr : r' = r
      · subst hrr
        obtain rfl := Option.mem_unique hroom hr
        refine ⟨_, hset, ?_⟩
        rw [Room.slot_set]
        exact Role.update_ne_none hslot _ _
      · exact ⟨room', (List.getElem?_set_ne (Ne.symm hrr)).trans hr, hslot⟩
  · rw [attends_attach_iff hh hpc rfl]
    rcases Tally.getElem?_set_cases hh' with ⟨-, rfl⟩ | ⟨-, hh'⟩
    · cases hp
    · exact .inr (hs.addressee h' handler' r' peer hh' hp)

theorem Seated.move (hs : Seated s) (hh : s.handlers[h]? = some handler) {calls : List Sent}
    (hmove : Moves s h handler pc calls) : Seated ((s.log calls).goto h handler pc) := by
  refine hs.set hh rfl rfl hmove.joined fun r peer hp => ?_
  cases hmove with
  | @lookUp r' room hpc hroom =>
      obtain ⟨rfl, hpeer⟩ := Pc.telling.inj hp
      rw [room.getPeer_eq] at hpeer
      exact hs.slots r' room _ peer hroom hpeer
  | test hpc hroom => split at hp <;> cases hp
  | _ => cases hp

theorem Seated.steps (hs : Seated s) {a : Action} (h : Steps s a t) : Seated t := by
  cases h with
  | create method id => exact hs.create id
  | connect room role role' => exact hs.connect _ rfl
  | move ha hh hmove => exact hs.move hh hmove
  | createFor hh hpc =>
      exact (hs.create _).set hh rfl rfl (by simp [hpc, Pc.joined]) (by simp)
  | attach hh hpc hroom => exact hs.attach hh hpc hroom
  | leave hh hpc =>
      exact hs.set hh (Hub.handlers_leave _ _ _ _) (Hub.heap_cleanUp _ _)
        (by simp [hpc, Pc.joined]) (by simp)

end Seated

end FastTransfer.Server.Signaling
