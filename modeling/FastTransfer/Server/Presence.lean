import FastTransfer.Server.Rooms

/-!
# What the presence messages say

When a client is told that its peer has joined, or has left. A room keeps the
clients that were stored in it last, whether or not their handlers have ended,
so what the messages say depends on the order in which clients come and go.
-/

namespace FastTransfer.Server.Signaling

namespace Pc

/-- The connection of the client is open. -/
def connected : Pc → Bool
  | .attached _ | .ready _ | .toldSender _ | .reading _ | .forwarding _ _
  | .forwardingTo _ _ _ => true
  | _ => false

/-- The handler may still send "peer-disconnected". -/
def untold : Pc → Bool
  | .closed _ | .telling _ (some _) => true
  | pc => pc.connected

/-- The handler has yet to test `IsReady`. -/
def untested : Pc → Bool
  | .attached _ => true
  | _ => false

/-- The handler of a role is about to send "peer-joined" to the client of its
own role. -/
def announcing (role : Role) : Pc → Bool
  | .ready _ => true
  | .toldSender _ => role = .receiver
  | _ => false

/-- The room in which the client is about to be stored. -/
def attaching : Pc → Option Nat
  | .upgraded r => some r
  | _ => none

/-- The room of a handler that is about to end. -/
def leaving : Pc → Option Nat
  | .told r => some r
  | _ => none

end Pc

/-- No client of the role has its "peer-disconnected" ahead, and if the room has
a client of the other role, one is still there. -/
def MayAttach (s : Hub) (role : Role) (r : Nat) : Prop :=
  (∀ d ∈ List.range s.handlers.length, ¬ Attends s Pc.untold d role r) ∧
    ∀ room ∈ s.heap[r]?, room.slot role.opposite ≠ none →
      ∃ d ∈ List.range s.handlers.length, Attends s Pc.present d role.opposite r

instance decidableMayAttach (s : Hub) (role : Role) (r : Nat) : Decidable (MayAttach s role r) :=
  inferInstanceAs (Decidable ((∀ d ∈ List.range s.handlers.length, ¬ Attends s Pc.untold d role r) ∧
    ∀ room ∈ s.heap[r]?, room.slot role.opposite ≠ none →
      ∃ d ∈ List.range s.handlers.length, Attends s Pc.present d role.opposite r))

/-- If a handler of the other role is still to tell its own side that a peer has
joined, another one of this role stays. -/
def MayLeave (s : Hub) (h : Nat) (role : Role) (r : Nat) : Prop :=
  (∃ c ∈ List.range s.handlers.length, Attends s Pc.untested c role.opposite r ∨
      Attends s (Pc.announcing role.opposite) c role.opposite r) →
    ∃ d ∈ List.range s.handlers.length, d ≠ h ∧ Attends s Pc.present d role r

instance decidableMayLeave (s : Hub) (h : Nat) (role : Role) (r : Nat) :
    Decidable (MayLeave s h role r) :=
  inferInstanceAs (Decidable ((∃ c ∈ List.range s.handlers.length,
      Attends s Pc.untested c role.opposite r ∨
        Attends s (Pc.announcing role.opposite) c role.opposite r) →
    ∃ d ∈ List.range s.handlers.length, d ≠ h ∧ Attends s Pc.present d role r))

/-- The clients of a room come and go one after the other. -/
def InTurn (s : Hub) : Action → Prop
  | .handle h => ∀ handler ∈ s.handlers[h]?,
      (∀ r ∈ handler.pc.attaching, MayAttach s handler.role r) ∧
        ∀ r ∈ handler.pc.leaving, MayLeave s h handler.role r
  | _ => True

instance decidableInTurn (s : Hub) : ∀ a, Decidable (InTurn s a)
  | .handle h => inferInstanceAs (Decidable (∀ handler ∈ s.handlers[h]?,
      (∀ r ∈ handler.pc.attaching, MayAttach s handler.role r) ∧
        ∀ r ∈ handler.pc.leaving, MayLeave s h handler.role r))
  | .createRoom _ _ | .connect _ _ | .upgradeFails _ | .readMessage _ _ | .readFails _ =>
      inferInstanceAs (Decidable True)

/-- **The presence invariant**: one handler of each role has its
"peer-disconnected" ahead, and who is to tell its own side that a peer has
joined has one. -/
structure Presence (s : Hub) : Prop where
  one : ∀ (c d : Nat) (role : Role) (r : Nat), Attends s Pc.untold c role r →
    Attends s Pc.untold d role r → c = d
  untested : ∀ (c : Nat) (role : Role) (r : Nat) (room : Room), Attends s Pc.untested c role r →
    s.heap[r]? = some room → room.slot role.opposite ≠ none →
      ∃ d, Attends s Pc.present d role.opposite r
  announcing : ∀ (c : Nat) (role : Role) (r : Nat), Attends s (Pc.announcing role) c role r →
    ∃ d, Attends s Pc.present d role.opposite r

theorem presence_empty : Presence {} where
  one := by simp [Attends]
  untested := by simp
  announcing := by simp [Attends]

section Moves

variable {s : Hub} {h : Nat} {handler : Handler} {pc : Pc} {calls : List Sent}

theorem Moves.untold (hmove : Moves s h handler pc calls) (hpc : pc.untold = true) :
    handler.pc.untold = true := by
  cases hmove with
  | test hp | tellSender hp | tellReceiver hp | read hp | skip hp | readFails hp | peer hp
  | noPeer hp | forward hp | lookUp hp => rw [hp]; rfl
  | _ => cases hpc

theorem Moves.untested (hmove : Moves s h handler pc calls) : pc.untested = false := by
  cases hmove with
  | test hpc hroom => split <;> rfl
  | _ => rfl

/-- Who is about to announce a peer was so before, or has just found the room
complete. -/
theorem Moves.announcing (hmove : Moves s h handler pc calls)
    (hpc : pc.announcing handler.role = true) :
    handler.pc.announcing handler.role = true ∨
      ∃ r room, handler.pc = .attached r ∧ s.heap[r]? = some room ∧ room.isReady = true := by
  cases hmove with
  | @test r room hp hroom =>
      by_cases hready : room.isReady = true
      · exact .inr ⟨r, room, hp, hroom, hready⟩
      · rw [if_neg hready] at hpc
        cases hpc
  | tellSender hp =>
      rw [hp]
      exact .inl rfl
  | _ => cases hpc

end Moves

section Steps

variable {s t : Hub} {h r : Nat} {handler : Handler} {pc : Pc} {room : Room}

theorem Presence.create (hs : Presence s) (id : String) :
    Presence (s.createRoomWithID id).2 where
  one := hs.one
  untested c role r room hc hr hslot := by
    rcases Tally.getElem?_concat_cases hr with hr | ⟨-, rfl⟩
    · exact hs.untested c role r room hc hr hslot
    · cases role <;> exact absurd rfl hslot
  announcing := hs.announcing

/-- A handler goes on, and stays if it was there. -/
theorem Presence.set (hs : Presence s) (hh : s.handlers[h]? = some handler)
    (ht : t.handlers = s.handlers.set h { handler with pc }) (hheap : t.heap = s.heap)
    (hjoined : pc.joined = handler.pc.joined) (hpresent : pc.present = handler.pc.present)
    (huntold : pc.untold = true → handler.pc.untold = true) (huntested : pc.untested = false)
    (hannouncing : pc.announcing handler.role = true →
      handler.pc.announcing handler.role = true ∨
        ∃ r room, handler.pc = .attached r ∧ s.heap[r]? = some room ∧ room.isReady = true) :
    Presence t := by
  have hforth : ∀ {role r}, (∃ d, Attends s Pc.present d role r) →
      ∃ d, Attends t Pc.present d role r := fun ⟨d, hd⟩ =>
    ⟨d, hd.forth hh ht (fun r hr => hjoined.trans hr) (hpresent.trans ·)⟩
  refine ⟨fun c d role r hc hd => ?_, fun c role r room hc hr hslot => ?_, fun c role r hc => ?_⟩
  · exact hs.one c d role r (hc.back hh ht hjoined huntold fun _ => id)
      (hd.back hh ht hjoined huntold fun _ => id)
  · rw [hheap] at hr
    have hold : Attends s Pc.untested c role r :=
      hc.back hh ht hjoined (fun hp => by rw [huntested] at hp; cases hp) fun _ => id
    exact hforth (hs.untested c role r room hold hr hslot)
  · rcases (attends_set_iff hh ht).mp hc with ⟨rfl, rfl, hr, hp⟩ | ⟨-, hc⟩
    · rw [hjoined] at hr
      rcases hannouncing hp with hp | ⟨r', room, hpc, hroom, hready⟩
      · exact hforth (hs.announcing c _ r ⟨handler, hh, rfl, hr, hp⟩)
      · obtain rfl : r' = r := by
          rw [hpc] at hr
          exact Option.some.inj hr
        have hc : Attends s Pc.untested c handler.role r' :=
          ⟨handler, hh, rfl, hr, by rw [hpc]; rfl⟩
        exact hforth (hs.untested c _ r' room hc hroom (room.isReady_iff.mp hready _))
    · exact hforth (hs.announcing c role r hc)

theorem Presence.attach (hs : Presence s) (hh : s.handlers[h]? = some handler)
    (hpc : handler.pc = .upgraded r) (hroom : s.heap[r]? = some room)
    (hok : MayAttach s handler.role r) :
    Presence ((s.setClient r room h handler.role).goto h handler (.attached r)) := by
  obtain ⟨halone, hpeer⟩ := hok
  have hnone : ∀ d, ¬ Attends s Pc.untold d handler.role r := fun d hd =>
    halone d (List.mem_range.mpr hd.lt) hd
  have hforth : ∀ {d role r'}, Attends s Pc.present d role r' →
      Attends ((s.setClient r room h handler.role).goto h handler (.attached r)) Pc.present d
        role r' := fun hd => (attends_attach_iff hh hpc rfl).mpr (.inr hd)
  refine ⟨fun c d role r' hc hd => ?_, fun c role r' room' hc hr hslot => ?_,
    fun c role r' hc => ?_⟩
  · rcases (attends_attach_iff hh hpc rfl).mp hc with ⟨rfl, rfl, rfl, -⟩ | hcold
    · rcases (attends_attach_iff hh hpc rfl).mp hd with ⟨rfl, -, -, -⟩ | hdold
      · rfl
      · exact absurd hdold (hnone d)
    · rcases (attends_attach_iff hh hpc rfl).mp hd with ⟨rfl, rfl, rfl, -⟩ | hdold
      · exact absurd hcold (hnone c)
      · exact hs.one c d role r' hcold hdold
  · rcases (attends_attach_iff hh hpc rfl).mp hc with ⟨rfl, rfl, rfl, -⟩ | hcold
    · rcases Tally.getElem?_set_cases hr with ⟨-, rfl⟩ | ⟨hrr, -⟩
      · rw [Room.slot_set, Function.update_of_ne handler.role.opposite_ne] at hslot
        obtain ⟨d, -, hd⟩ := hpeer room hroom hslot
        exact ⟨d, hforth hd⟩
      · exact absurd rfl hrr
    · rcases Tally.getElem?_set_cases hr with ⟨rfl, rfl⟩ | ⟨-, hr⟩
      · -- the newcomer is the peer, or the peer's place is as before
        by_cases hrole : role.opposite = handler.role
        · exact ⟨h, (attends_attach_iff hh hpc rfl).mpr (.inl ⟨rfl, hrole.symm, rfl, rfl⟩)⟩
        · rw [Room.slot_set, Function.update_of_ne hrole] at hslot
          obtain ⟨d, hd⟩ := hs.untested c role r' room hcold hroom hslot
          exact ⟨d, hforth hd⟩
      · obtain ⟨d, hd⟩ := hs.untested c role r' room' hcold hr hslot
        exact ⟨d, hforth hd⟩
  · rcases (attends_attach_iff hh hpc rfl).mp hc with ⟨-, -, -, hp⟩ | hcold
    · cases hp
    · obtain ⟨d, hd⟩ := hs.announcing c role r' hcold
      exact ⟨d, hforth hd⟩

theorem Presence.leave (hs : Presence s) (hh : s.handlers[h]? = some handler)
    (hpc : handler.pc = .told r) (hok : MayLeave s h handler.role r) :
    Presence ((s.cleanUp handler).goto h handler (.ended r)) := by
  have ht := Hub.handlers_leave s handler h r
  have hjoined : Pc.joined (.ended r) = handler.pc.joined := by
    rw [hpc]
    rfl
  -- a peer that is needed stays, or another one does
  have hforth : ∀ {c role r'}, Attends s Pc.untested c role r' ∨
      Attends s (Pc.announcing role) c role r' → (∃ d, Attends s Pc.present d role.opposite r') →
      ∃ d, Attends ((s.cleanUp handler).goto h handler (.ended r)) Pc.present d role.opposite
        r' := by
    rintro c role r' hc ⟨d, hd⟩
    by_cases hdh : d = h
    · subst hdh
      obtain ⟨handler', hd, hrole, hr, -⟩ := hd
      obtain rfl := Option.mem_unique hh hd
      obtain rfl : r = r' := by
        rw [hpc] at hr
        exact Option.some.inj hr
      have hopp : role = handler.role.opposite := by
        rw [hrole]
        cases role <;> rfl
      rw [hopp] at hc
      have hclt : c < s.handlers.length := hc.elim Attends.lt Attends.lt
      obtain ⟨e, -, hed, he⟩ := hok ⟨c, List.mem_range.mpr hclt, hc⟩
      exact ⟨e, (attends_set_iff hh ht).mpr (.inr ⟨hed, hrole ▸ he⟩)⟩
    · exact ⟨d, (attends_set_iff hh ht).mpr (.inr ⟨hdh, hd⟩)⟩
  refine ⟨fun c d role r' hc hd => ?_, fun c role r' room hc hr hslot => ?_, fun c role r' hc => ?_⟩
  · exact hs.one c d role r' (hc.back hh ht hjoined (by simp [Pc.untold, Pc.connected]) fun _ => id)
      (hd.back hh ht hjoined (by simp [Pc.untold, Pc.connected]) fun _ => id)
  · have hold : Attends s Pc.untested c role r' :=
      hc.back hh ht hjoined (by simp [Pc.untested]) fun _ => id
    have hroom : s.heap[r']? = some room := Hub.heap_cleanUp s handler ▸ hr
    exact hforth (.inl hold) (hs.untested c role r' room hold hroom hslot)
  · have hold : Attends s (Pc.announcing role) c role r' :=
      hc.back hh ht hjoined (by simp [Pc.announcing]) fun _ => id
    exact hforth (.inr hold) (hs.announcing c role r' hold)

/-- **Every step keeps the presence invariant**, if it meets the condition. -/
theorem Presence.steps (hs : Presence s) {a : Action} (hok : InTurn s a)
    (h : Steps s a t) : Presence t := by
  cases h with
  | create method id => exact hs.create id
  | connect room role role' =>
      refine ⟨fun c d role r hc hd => ?_, fun c role r room hc hr hslot => ?_,
        fun c role r hc => ?_⟩
      · exact hs.one c d role r ((attends_append _ rfl).mp hc) ((attends_append _ rfl).mp hd)
      · obtain ⟨d, hd⟩ := hs.untested c role r room ((attends_append _ rfl).mp hc) hr hslot
        exact ⟨d, (attends_append _ rfl).mpr hd⟩
      · obtain ⟨d, hd⟩ := hs.announcing c role r ((attends_append _ rfl).mp hc)
        exact ⟨d, (attends_append _ rfl).mpr hd⟩
  | move ha hh hmove =>
      exact hs.set hh rfl rfl hmove.joined hmove.present hmove.untold hmove.untested
        hmove.announcing
  | createFor hh hpc =>
      exact (hs.create _).set hh rfl rfl (by simp [hpc, Pc.joined]) (by simp [hpc, Pc.present])
        (by simp [Pc.untold, Pc.connected]) rfl (by simp [Pc.announcing])
  | attach hh hpc hroom =>
      exact hs.attach hh hpc hroom ((hok _ hh).1 _ (by rw [hpc]; rfl))
  | leave hh hpc => exact hs.leave hh hpc ((hok _ hh).2 _ (by rw [hpc]; rfl))

end Steps

/-! ## The messages -/

/-- The server's messages about peers are true when they are sent: the peer that
has joined is attached and has not ended its handler; nobody is left of the role
that has left. -/
structure Truthful (s : Hub) : Prop where
  joined : ∀ a t c who, step s a = some t → t.sent = s.sent ++ [⟨c, peerJoined who, none⟩] →
    ∃ role r, Attends s anywhere c role r ∧ ∃ d, Attends s Pc.present d role.opposite r
  disconnected : ∀ a t c, step s a = some t → t.sent = s.sent ++ [⟨c, peerDisconnected, none⟩] →
    ∃ role r, Attends s anywhere c role r ∧ ∀ d, ¬ Attends s Pc.connected d role.opposite r

section Messages

variable {s t : Hub}

theorem Hub.sent_cleanUp (s : Hub) (handler : Handler) : (s.cleanUp handler).sent = s.sent := by
  rw [cleanUp]
  split <;> rfl

/-- A call of `Send` is part of a move. -/
theorem Steps.call {a : Action} (h : Steps s a t) {call : Sent}
    (hsent : t.sent = s.sent ++ [call]) :
    ∃ (c : Nat) (handler : Handler) (pc : Pc), s.handlers[c]? = some handler ∧
      Moves s c handler pc [call] := by
  have hsilent : s.sent ≠ s.sent ++ [call] := by simp
  cases h with
  | create | connect | createFor | attach => exact absurd hsent hsilent
  | @move a h handler pc calls ha hh hmove =>
      obtain rfl := List.append_cancel_left hsent
      exact ⟨h, handler, pc, hh, hmove⟩
  | @leave h r handler hh hpc =>
      exact absurd ((Hub.sent_cleanUp s handler).symm.trans hsent) hsilent

theorem peerJoined_ne (who : String) : peerJoined who ≠ peerDisconnected := by
  intro h
  exact absurd (congrArg Message.type h) (by simp [peerJoined, peerDisconnected])

theorem Presence.joined (hs : Presence s) (hj : Seated s) {c h : Nat} {handler : Handler} {pc : Pc}
    {who : String} (hh : s.handlers[h]? = some handler)
    (hmove : Moves s h handler pc [⟨c, peerJoined who, none⟩]) :
    ∃ role r, Attends s anywhere c role r ∧ ∃ d, Attends s Pc.present d role.opposite r := by
  generalize hcalls : [Sent.mk c (peerJoined who) none] = calls at hmove
  cases hmove with
  | @tellSender r client room hpc hroom hclient =>
      obtain ⟨rfl, -⟩ := Sent.mk.inj (List.singleton_inj.mp hcalls)
      refine ⟨.sender, r, hj.slots r room .sender c hroom hclient, ?_⟩
      cases hrole : handler.role with
      | sender =>
          exact hs.announcing h .sender r ⟨handler, hh, hrole, by rw [hpc]; rfl, by rw [hpc]; rfl⟩
      | receiver => exact ⟨h, handler, hh, hrole, by rw [hpc]; rfl, by rw [hpc]; rfl⟩
  | @tellReceiver r client room hpc hroom hclient =>
      obtain ⟨rfl, -⟩ := Sent.mk.inj (List.singleton_inj.mp hcalls)
      refine ⟨.receiver, r, hj.slots r room .receiver c hroom hclient, ?_⟩
      cases hrole : handler.role with
      | sender => exact ⟨h, handler, hh, hrole, by rw [hpc]; rfl, by rw [hpc]; rfl⟩
      | receiver =>
          exact hs.announcing h .receiver r ⟨handler, hh, hrole, by rw [hpc]; rfl, by rw [hpc]; rfl⟩
  | tellPeer hpc =>
      obtain ⟨-, hmessage, -⟩ := Sent.mk.inj (List.singleton_inj.mp hcalls)
      exact absurd hmessage (peerJoined_ne who)
  | forward hpc =>
      obtain ⟨-, -, horigin⟩ := Sent.mk.inj (List.singleton_inj.mp hcalls)
      cases horigin
  | _ => cases hcalls

theorem Presence.disconnected (hs : Presence s) (hj : Seated s) {c h : Nat} {handler : Handler}
    {pc : Pc} (hh : s.handlers[h]? = some handler)
    (hmove : Moves s h handler pc [⟨c, peerDisconnected, none⟩]) :
    ∃ role r, Attends s anywhere c role r ∧ ∀ d, ¬ Attends s Pc.connected d role.opposite r := by
  generalize hcalls : [Sent.mk c peerDisconnected none] = calls at hmove
  cases hmove with
  | @tellPeer r peer hpc =>
      obtain ⟨rfl, -⟩ := Sent.mk.inj (List.singleton_inj.mp hcalls)
      refine ⟨handler.role.opposite, r, hj.addressee h handler r c hh hpc, fun d hd => ?_⟩
      rw [Role.opposite_opposite] at hd
      have hmine : Attends s Pc.untold h handler.role r :=
        ⟨handler, hh, rfl, by rw [hpc]; rfl, by rw [hpc]; rfl⟩
      have htheirs : Attends s Pc.untold d handler.role r := by
        apply hd.imp
        intro pc hpc
        cases pc <;> first | exact hpc | cases hpc
      obtain rfl := hs.one h d handler.role r hmine htheirs
      obtain ⟨handler', hh', -, -, hp⟩ := hd
      obtain rfl := Option.mem_unique hh hh'
      rw [hpc] at hp
      cases hp
  | tellSender hpc | tellReceiver hpc =>
      obtain ⟨-, hmessage, -⟩ := Sent.mk.inj (List.singleton_inj.mp hcalls)
      exact absurd hmessage.symm (peerJoined_ne _)
  | forward hpc =>
      obtain ⟨-, -, horigin⟩ := Sent.mk.inj (List.singleton_inj.mp hcalls)
      cases horigin
  | _ => cases hcalls

theorem Presence.truthful (hs : Presence s) (hj : Seated s) : Truthful s where
  joined a t c who hstep hsent := by
    obtain ⟨h, handler, pc, hh, hmove⟩ := (steps_of_step hstep).call hsent
    exact hs.joined hj hh hmove
  disconnected a t c hstep hsent := by
    obtain ⟨h, handler, pc, hh, hmove⟩ := (steps_of_step hstep).call hsent
    exact hs.disconnected hj hh hmove

end Messages

/-- **The presence messages tell the truth**, in every run in which the clients
of a room come and go one after the other. -/
theorem presence_truthful (s : Hub) (h : Runs.ReachWhen step InTurn {} s) : Truthful s := by
  have hs : Seated s ∧ Presence s := by
    apply h.invariant ⟨seated_empty, presence_empty⟩
    intro u a v hu hok hstep
    exact ⟨hu.1.steps (steps_of_step hstep), hu.2.steps hok (steps_of_step hstep)⟩
  exact hs.2.truthful hs.1

/-- A sender and a receiver meet; the receiver leaves. -/
def receiverLeaves : List Action :=
  [.connect "room" "sender", .handle 0, .handle 0, .handle 0, .handle 0, .handle 0,
    .connect "room" "receiver", .handle 1, .handle 1, .handle 1, .handle 1, .handle 1, .handle 1,
    .readFails 1, .handle 1, .handle 1, .handle 1]

theorem presence_truthful_receiverLeaves :
    ∃ s, Runs.run step {} receiverLeaves = some s ∧
      s.sent = [⟨0, peerJoined "receiver", none⟩, ⟨1, peerJoined "sender", none⟩,
        ⟨0, peerDisconnected, none⟩] ∧ Truthful s :=
  ⟨_, rfl, rfl, presence_truthful _ (Runs.reachWhen_of_run receiverLeaves rfl (by decide))⟩

/-- A receiver has found the room; the sender leaves; the receiver is stored in
the room, and is about to be told that a sender has joined. -/
def staleSender : List Action :=
  [.connect "room" "sender", .handle 0, .handle 0, .handle 0, .handle 0, .handle 0,
    .connect "room" "receiver", .handle 1, .handle 1,
    .readFails 0, .handle 0, .handle 0, .handle 0, .handle 1, .handle 1, .handle 1]

theorem not_presence_truthful_staleSender :
    ¬ ∀ s, Runs.Reach step {} s → Truthful s := by
  intro h
  have htrue := h _ (Runs.reach_of_run staleSender rfl)
  obtain ⟨role, r, hc, d, hd⟩ := htrue.joined (.handle 1) _ 1 "sender" rfl rfl
  obtain ⟨rfl, rfl⟩ := hc.unique (⟨_, rfl, rfl, rfl, rfl⟩ : Attends _ anywhere 1 .receiver 0)
  have hnone : ∀ d ∈ List.range 2, ¬ Attends ((Runs.run step {} staleSender).getD {}) Pc.present d
      .sender 0 := by decide
  exact hnone d (List.mem_range.mpr hd.lt) hd

end FastTransfer.Server.Signaling
