import FastTransfer.Server.PeerJoined
import FastTransfer.Server.Forwarding

/-!
# Who is sent what

What the server sends of its own is a "peer-joined" or a "peer-disconnected", and
goes to clients that share their room with a client of the other role. Once two
such clients are there, a handler is about to tell the sender so, or has told it.
Nothing is assumed about the order of storing and testing.
-/

namespace FastTransfer.Server.Signaling

/-- The handler has not yet told the sender of its room. -/
def Pc.unannounced : Pc → Bool
  | .attached _ | .ready _ => true
  | _ => false

/-- A client of each role has been stored in the room `r`. -/
def Met (s : Hub) (r : Nat) : Prop := ∀ role, ∃ c, Attends s anywhere c role r

/-- The call is the server's own, and for somebody who is not alone. -/
structure OfServer (s : Hub) (call : Sent) : Prop where
  message : call.message = peerDisconnected ∨ call.message = peerJoined "receiver" ∨
    call.message = peerJoined "sender"
  opposite : ∃ d, Opposite s d call.client

/-- The call tells the sender of the room `r` that its peer has joined. -/
def Announces (s : Hub) (r : Nat) (call : Sent) : Prop :=
  call.message = peerJoined "receiver" ∧ Attends s anywhere call.client .sender r

/-- **What every run keeps**. -/
structure Called (s : Hub) : Prop where
  block : ∀ (c : Nat) (role : Role) (r : Nat), Attends s Pc.inBlock c role r → Met s r
  server : ∀ call ∈ s.sent, call.origin = none → OfServer s call
  told : ∀ r, Met s r →
    (∃ c role, Attends s Pc.unannounced c role r) ∨ ∃ call ∈ s.sent, Announces s r call

theorem called_empty : Called {} where
  block := by simp [Attends]
  server := by simp
  told r h := by simpa [Attends] using h .sender

section Steps

variable {s t : Hub} {h r : Nat} {handler : Handler} {pc : Pc} {calls : List Sent}

/-- A room with a client of each role is ready. -/
theorem Seated.isReady_of_met (hj : Seated s) {room : Room} (hroom : s.heap[r]? = some room)
    (hmet : Met s r) : room.isReady = true := by
  rw [room.isReady_iff]
  intro role
  obtain ⟨c, hc⟩ := hmet role
  obtain ⟨room', hroom', hslot⟩ := hj.seat c role r hc
  obtain rfl := Option.mem_unique hroom hroom'
  exact hslot

theorem Seated.met_of_isReady (hj : Seated s) {room : Room} (hroom : s.heap[r]? = some room)
    (hready : room.isReady = true) : Met s r := by
  intro role
  obtain ⟨c, hc⟩ := Option.ne_none_iff_exists'.mp (room.isReady_iff.mp hready role)
  exact ⟨c, hj.slots r room role c hroom hc⟩

theorem Met.opposite (hmet : Met s r) {c : Nat} {role : Role} (hc : Attends s anywhere c role r) :
    ∃ d, Opposite s d c := by
  obtain ⟨d, hd⟩ := hmet role.opposite
  exact ⟨d, role.opposite, r, hd, by rwa [role.opposite_opposite]⟩

theorem Opposite.steps {a : Action} (hsteps : Steps s a t) {c d : Nat} (hcd : Opposite s c d) :
    Opposite t c d := by
  obtain ⟨role, r, hc, hd⟩ := hcd
  exact ⟨role, r, hsteps.attends hc, hsteps.attends hd⟩

theorem OfServer.steps {a : Action} (hsteps : Steps s a t) {call : Sent} (hcall : OfServer s call) :
    OfServer t call where
  message := hcall.message
  opposite := by
    obtain ⟨d, hd⟩ := hcall.opposite
    exact ⟨d, hd.steps hsteps⟩

theorem Met.steps {a : Action} (hsteps : Steps s a t) (hmet : Met s r) : Met t r := by
  intro role
  obtain ⟨c, hc⟩ := hmet role
  exact ⟨c, hsteps.attends hc⟩

/-- A handler goes on where it is attached, or before it is. -/
theorem Called.set (hs : Called s) {a : Action} (hsteps : Steps s a t)
    (hh : s.handlers[h]? = some handler)
    (ht : t.handlers = s.handlers.set h { handler with pc }) (hsent : t.sent = s.sent ++ calls)
    (hjoined : pc.joined = handler.pc.joined)
    (hblock : pc.inBlock = true → ∀ r, pc.joined = some r → Met s r)
    (hcalls : ∀ call ∈ calls, call.origin = none → OfServer s call)
    (htold : handler.pc.unannounced = true → ∀ r, handler.pc.joined = some r → Met s r →
      pc.unannounced = true ∨ ∃ call ∈ calls, Announces s r call) : Called t := by
  refine ⟨fun c role r hc => ?_, fun call hcall horigin => ?_, fun r hmet => ?_⟩
  · rcases (attends_set_iff hh ht).mp hc with ⟨-, -, hr, hp⟩ | ⟨-, hc⟩
    · exact (hblock hp r hr).steps hsteps
    · exact (hs.block c role r hc).steps hsteps
  · rw [hsent] at hcall
    rcases List.mem_append.mp hcall with hcall | hcall
    · exact (hs.server call hcall horigin).steps hsteps
    · exact (hcalls call hcall horigin).steps hsteps
  · have hmet' : Met s r := by
      intro role
      obtain ⟨c, hc⟩ := hmet role
      exact ⟨c, hc.back hh ht hjoined (fun _ => rfl) fun _ => id⟩
    have hannounced : ∀ call ∈ t.sent, Announces s r call → ∃ call ∈ t.sent, Announces t r call :=
      fun call hcall hann => ⟨call, hcall, hann.1, hsteps.attends hann.2⟩
    rcases hs.told r hmet' with ⟨c, role, hc⟩ | ⟨call, hcall, hann⟩
    · by_cases hch : c = h
      · subst hch
        obtain ⟨handler', hh', hrole, hr, hp⟩ := hc
        obtain rfl := Option.mem_unique hh hh'
        rcases htold hp r hr hmet' with hp' | ⟨call, hcall, hann⟩
        · exact .inl ⟨c, role, (attends_set_iff hh ht).mpr
            (.inl ⟨rfl, hrole, hjoined.trans hr, hp'⟩)⟩
        · exact .inr (hannounced call (by simp [hsent, hcall]) hann)
      · exact .inl ⟨c, role, (attends_set_iff hh ht).mpr (.inr ⟨hch, hc⟩)⟩
    · exact .inr (hannounced call (by simp [hsent, hcall]) hann)

/-- No handler goes on, and nobody is sent anything. -/
theorem Called.same (hs : Called s) (hsent : t.sent = s.sent)
    (hattends : ∀ place c role r, Attends t place c role r ↔ Attends s place c role r) :
    Called t := by
  have hmet : ∀ r, Met t r ↔ Met s r := fun r => by simp only [Met, hattends]
  refine ⟨fun c role r hc => ?_, fun call hcall horigin => ?_, fun r hr => ?_⟩
  · exact (hmet r).mpr (hs.block c role r ((hattends _ c role r).mp hc))
  · obtain ⟨hmessage, hopposite⟩ := hs.server call (hsent ▸ hcall) horigin
    exact ⟨hmessage, by simpa only [Opposite, hattends] using hopposite⟩
  · simpa only [hattends, hsent, Announces] using hs.told r ((hmet r).mp hr)

theorem Called.attach (hs : Called s) {room : Room} (hh : s.handlers[h]? = some handler)
    (hpc : handler.pc = .upgraded r) (hroom : s.heap[r]? = some room) :
    Called ((s.setClient r room h handler.role).goto h handler (.attached r)) := by
  have hsteps : Steps s _ _ := .attach hh hpc hroom
  refine ⟨fun c role r' hc => ?_, fun call hcall horigin => ?_, fun r' hmet => ?_⟩
  · rcases (attends_attach_iff hh hpc rfl).mp hc with ⟨-, -, -, hp⟩ | hc
    · cases hp
    · exact (hs.block c role r' hc).steps hsteps
  · exact (hs.server call hcall horigin).steps hsteps
  · by_cases hr : r' = r
    · exact .inl ⟨h, handler.role, (attends_attach_iff hh hpc rfl).mpr
        (.inl ⟨rfl, rfl, hr.symm, rfl⟩)⟩
    · have hmet' : Met s r' := by
        intro role
        obtain ⟨c, hc⟩ := hmet role
        rcases (attends_attach_iff hh hpc rfl).mp hc with ⟨-, -, heq, -⟩ | hc
        · exact absurd heq.symm hr
        · exact ⟨c, hc⟩
      rcases hs.told r' hmet' with ⟨c, role, hc⟩ | ⟨call, hcall, hann⟩
      · exact .inl ⟨c, role, (attends_attach_iff hh hpc rfl).mpr (.inr hc)⟩
      · exact .inr ⟨call, hcall, hann.1, hsteps.attends hann.2⟩

theorem Called.move (hs : Called s) (hj : Seated s) {a : Action} (ha : a.mover = some h)
    (hh : s.handlers[h]? = some handler) (hmove : Moves s h handler pc calls) :
    Called ((s.log calls).goto h handler pc) := by
  have hsteps : Steps s a _ := .move ha hh hmove
  have hjoined := hmove.joined
  have hblock : ∀ {r}, handler.pc.inBlock = true → handler.pc.joined = some r → Met s r :=
    fun hp hr => hs.block h handler.role _ ⟨handler, hh, rfl, hr, hp⟩
  cases hmove with
  | @test r room hpc hroom =>
      have hr : handler.pc.joined = some r := by
        rw [hpc]
        rfl
      refine hs.set hsteps hh rfl rfl hjoined (fun hp r' hr' => ?_) (by simp)
        fun _ r' hr' hmet => ?_
      · obtain rfl : r' = r := Option.some.inj (hr'.symm.trans (hjoined.trans hr))
        split at hp
        next hready => exact hj.met_of_isReady hroom hready
        next => cases hp
      · obtain rfl : r' = r := Option.some.inj (hr'.symm.trans hr)
        rw [if_pos (hj.isReady_of_met hroom hmet)]
        exact .inl rfl
  | @tellSender r client room hpc hroom hclient =>
      have hr : handler.pc.joined = some r := by
        rw [hpc]
        rfl
      have hmet : Met s r := hblock (by rw [hpc]; rfl) hr
      have hattends := hj.slots r room .sender client hroom hclient
      refine hs.set hsteps hh rfl rfl hjoined (fun _ r' hr' => ?_) ?_ fun _ r' hr' _ => ?_
      · obtain rfl : r' = r := Option.some.inj (hr'.symm.trans (hjoined.trans hr))
        exact hmet
      · intro call hcall _
        obtain rfl := List.mem_singleton.mp hcall
        exact ⟨.inr (.inl rfl), hmet.opposite hattends⟩
      · obtain rfl : r' = r := Option.some.inj (hr'.symm.trans hr)
        exact .inr ⟨_, List.mem_singleton_self _, rfl, hattends⟩
  | @tellReceiver r client room hpc hroom hclient =>
      have hmet : Met s r := hblock (by rw [hpc]; rfl) (by rw [hpc]; rfl)
      refine hs.set hsteps hh rfl rfl hjoined (fun hp => by cases hp) ?_ fun hp => ?_
      · intro call hcall _
        obtain rfl := List.mem_singleton.mp hcall
        exact ⟨.inr (.inr rfl), hmet.opposite (hj.slots r room .receiver client hroom hclient)⟩
      · rw [hpc] at hp
        cases hp
  | @tellPeer r peer hpc =>
      refine hs.set hsteps hh rfl rfl hjoined (fun hp => by cases hp) ?_ fun hp => ?_
      · intro call hcall _
        obtain rfl := List.mem_singleton.mp hcall
        exact ⟨.inl rfl, h, handler.role, r, ⟨handler, hh, rfl, by rw [hpc]; rfl, rfl⟩,
          hj.addressee h handler r peer hh hpc⟩
      · rw [hpc] at hp
        cases hp
  | forward hpc =>
      refine hs.set hsteps hh rfl rfl hjoined (fun hp => by cases hp) (by simp) fun hp => ?_
      rw [hpc] at hp
      cases hp
  | found hpc | absent hpc | notFound hpc | upgrade hpc | upgradeFails hpc | read hpc | skip hpc
  | readFails hpc | peer hpc | noPeer hpc | lookUp hpc | tellNobody hpc =>
      refine hs.set hsteps hh rfl rfl hjoined (fun hp => by cases hp) (by simp) fun hp => ?_
      rw [hpc] at hp
      cases hp

theorem Called.steps (hs : Called s) (hj : Seated s) {a : Action} (hsteps : Steps s a t) :
    Called t := by
  cases hsteps with
  | create method id => exact hs.same rfl fun _ _ _ _ => Iff.rfl
  | connect room role role' => exact hs.same rfl fun _ _ _ _ => attends_append _ rfl
  | move ha hh hmove => exact hs.move hj ha hh hmove
  | createFor hh hpc =>
      refine hs.set (.createFor hh hpc) hh rfl (List.append_nil s.sent).symm (by rw [hpc]; rfl)
        (fun hp => by cases hp) (by simp) fun hp => ?_
      rw [hpc] at hp
      cases hp
  | attach hh hpc hroom => exact hs.attach hh hpc hroom
  | @leave h r handler hh hpc =>
      refine hs.set (.leave hh hpc) hh (Hub.handlers_leave _ _ _ _)
        ((Hub.sent_cleanUp s handler).trans (List.append_nil s.sent).symm) (by rw [hpc]; rfl)
        (fun hp => by cases hp) (by simp) fun hp => ?_
      rw [hpc] at hp
      cases hp

end Steps

end FastTransfer.Server.Signaling
