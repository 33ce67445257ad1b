import FastTransfer.Server.Presence

/-!
# One "peer-joined" for each pairing

Storing the client and testing `IsReady` are two critical sections. When they
do not overlap, the handler that is stored second finds the room complete, alone
of the two, and tells both clients.
-/

namespace FastTransfer.Server.Signaling

namespace Pc

/-- The handler has found the room complete, and has not told both clients. -/
def inBlock : Pc → Bool
  | .ready _ | .toldSender _ => true
  | _ => false

/-- The handler has passed the notification of both clients. -/
def past : Pc → Bool
  | .reading _ | .forwarding _ _ | .forwardingTo _ _ _ | .closed _ | .telling _ _ | .told _
  | .ended _ => true
  | _ => false

/-- How often the client of a role has been told, by a handler that finds the
room complete. -/
def announced (role : Role) : Pc → Nat
  | .attached _ | .ready _ => 0
  | .toldSender _ => if role = .sender then 1 else 0
  | _ => 1

/-- A handler at `pc` has told the client of the role `n` times. -/
def hasAnnounced (role : Role) (n : Nat) (pc : Pc) : Bool := pc.announced role = n

end Pc

/-- The server tells `c` that its peer has joined. -/
def Sent.tells (c : Nat) (call : Sent) : Bool :=
  call.client = c ∧ call.message.type = "peer-joined" ∧ call.origin = none

/-- How often `c` has been sent "peer-joined". -/
def joinedCalls (s : Hub) (c : Nat) : Nat := s.sent.countP (Sent.tells c)

/-- No client is stored in a room while another handler there has yet to test
`IsReady`. -/
def TestsFirst (s : Hub) : Action → Prop
  | .handle h => ∀ handler ∈ s.handlers[h]?, ∀ r ∈ handler.pc.attaching,
      ∀ other ∈ s.handlers, other.pc ≠ .attached r
  | _ => True

instance decidableTestsFirst (s : Hub) : ∀ a, Decidable (TestsFirst s a)
  | .handle h => inferInstanceAs (Decidable (∀ handler ∈ s.handlers[h]?,
      ∀ r ∈ handler.pc.attaching, ∀ other ∈ s.handlers, other.pc ≠ .attached r))
  | .createRoom _ _ | .connect _ _ | .upgradeFails _ | .readMessage _ _ | .readFails _ =>
      inferInstanceAs (Decidable True)

/-- One client of each role has been stored in the room `r`, at most. -/
def OnlyTwo (s : Hub) (r : Nat) (who : Role → Nat) : Prop :=
  ∀ c role, Attends s anywhere c role r → c = who role

/-- **The pairing invariant** of a room with at most one client of each role. A
client that is alone has not been told anything. Of two clients one has passed
the notification, and the handler of the other has told them what they know. -/
structure Paired (s : Hub) (r : Nat) (who : Role → Nat) : Prop where
  alone : ∀ role, Attends s anywhere (who role) role r →
    ¬ Attends s anywhere (who role.opposite) role.opposite r →
      joinedCalls s (who role) = 0 ∧ ¬ Attends s Pc.inBlock (who role) role r
  both : (∀ role, Attends s anywhere (who role) role r) →
    ∃ role, Attends s Pc.past (who role.opposite) role.opposite r ∧ ∀ role',
      Attends s (Pc.hasAnnounced role' (joinedCalls s (who role'))) (who role) role r

/-- The invariant of all rooms; a client that has been stored nowhere has not
been told anything. -/
structure Pairings (s : Hub) : Prop where
  unsent : ∀ c, (∀ role r, ¬ Attends s anywhere c role r) → joinedCalls s c = 0
  paired : ∀ r who, OnlyTwo s r who → Paired s r who

theorem pairings_empty : Pairings {} where
  unsent := by simp [joinedCalls]
  paired r who _ := ⟨by simp [Attends], fun h => by simpa [Attends] using h .sender⟩

section Steps

variable {s t : Hub} {h r : Nat} {handler : Handler} {pc : Pc} {room : Room} {who : Role → Nat}

theorem joinedCalls_append {calls : List Sent} (ht : t.sent = s.sent ++ calls) (c : Nat) :
    joinedCalls t c = joinedCalls s c + calls.countP (Sent.tells c) := by
  rw [joinedCalls, ht, List.countP_append, joinedCalls]

/-- The places that the invariant looks at. -/
inductive Watched : (Pc → Bool) → Prop where
  | anywhere : Watched anywhere
  | inBlock : Watched Pc.inBlock
  | past : Watched Pc.past
  | hasAnnounced (role : Role) (n : Nat) : Watched (Pc.hasAnnounced role n)

/-- A room where nobody is told anything, and nobody moves as far as the
notification goes. -/
theorem Paired.same (hs : Paired s r who)
    (hcalls : ∀ role, Attends s anywhere (who role) role r →
      joinedCalls t (who role) = joinedCalls s (who role))
    (hattends : ∀ place, Watched place → ∀ c role,
      Attends t place c role r ↔ Attends s place c role r) : Paired t r who where
  alone role hc hother := by
    rw [hattends _ .anywhere] at hc hother
    rw [hattends _ .inBlock, hcalls role hc]
    exact hs.alone role hc hother
  both hboth := by
    simp only [hattends _ .anywhere] at hboth
    obtain ⟨role, hpast, hcount⟩ := hs.both hboth
    refine ⟨role, (hattends _ .past _ _).mpr hpast, fun role' => ?_⟩
    rw [hattends _ (.hasAnnounced _ _), hcalls role' (hboth role')]
    exact hcount role'

theorem Pairings.same (hs : Pairings s) (hcalls : ∀ c, joinedCalls t c = joinedCalls s c)
    (hattends : ∀ place, Watched place → ∀ c role r,
      Attends t place c role r ↔ Attends s place c role r) : Pairings t where
  unsent c hc := by
    simp only [hattends _ .anywhere] at hc
    rw [hcalls]
    exact hs.unsent c hc
  paired r who honly := by
    simp only [OnlyTwo, hattends _ .anywhere] at honly
    exact (hs.paired r who honly).same (fun role _ => hcalls _) fun place hplace c role =>
      hattends place hplace c role r

/-- A handler goes on outside the notification. -/
theorem Pairings.set (hs : Pairings s) (hh : s.handlers[h]? = some handler)
    (ht : t.handlers = s.handlers.set h { handler with pc })
    (hcalls : ∀ c, joinedCalls t c = joinedCalls s c)
    (hjoined : pc.joined = handler.pc.joined) (hblock : pc.inBlock = handler.pc.inBlock)
    (hpast : pc.past = handler.pc.past)
    (hannounced : handler.pc.joined ≠ none →
      ∀ role, pc.announced role = handler.pc.announced role) :
    Pairings t := by
  apply hs.same hcalls
  intro place hplace c role r
  have heq : handler.pc.joined ≠ none → place pc = place handler.pc := by
    intro hne
    cases hplace with
    | anywhere => rfl
    | inBlock => exact hblock
    | past => exact hpast
    | hasAnnounced role n => rw [Pc.hasAnnounced, hannounced hne role, Pc.hasAnnounced]
  rw [attends_set_iff hh ht]
  constructor
  · rintro (⟨rfl, hrole, hr, hp⟩ | ⟨-, hc⟩)
    · rw [hjoined] at hr
      exact ⟨handler, hh, hrole, hr, heq (by rw [hr]; simp) ▸ hp⟩
    · exact hc
  · intro hc
    by_cases hch : c = h
    · subst hch
      obtain ⟨handler', hc, hrole, hr, hp⟩ := hc
      obtain rfl := Option.mem_unique hh hc
      exact .inl ⟨rfl, hrole, hjoined.trans hr, (heq (by rw [hr]; simp)).trans hp⟩
    · exact .inr ⟨hch, hc⟩

/-- Who is attached has passed the notification if it is neither before it nor
in it. -/
theorem past_of_attends {c : Nat} {role : Role} (hc : Attends s anywhere c role r)
    (hblock : ¬ Attends s Pc.inBlock c role r)
    (hnew : ∀ other ∈ s.handlers, other.pc ≠ .attached r) : Attends s Pc.past c role r := by
  obtain ⟨handler, hh, hrole, hr, -⟩ := hc
  refine ⟨handler, hh, hrole, hr, ?_⟩
  have hnot : handler.pc.inBlock = false := by
    by_contra hin
    exact hblock ⟨handler, hh, hrole, hr, by simpa using hin⟩
  have hatt := hnew handler (List.mem_of_getElem? hh)
  cases hpc : handler.pc with
  | attached r' =>
      rw [hpc] at hr hatt
      exact absurd (congrArg Pc.attached (Option.some.inj hr)) hatt
  | ready r' | toldSender r' =>
      rw [hpc] at hnot
      cases hnot
  | started | noRoom | gotRoom r' | upgraded r' | rejected =>
      rw [hpc] at hr
      cases hr
  | _ => rfl

/-- A client is stored in a room. -/
theorem Pairings.attach (hs : Pairings s) (hh : s.handlers[h]? = some handler)
    (hpc : handler.pc = .upgraded r) (hok : TestsFirst s (.handle h)) :
    Pairings ((s.setClient r room h handler.role).goto h handler (.attached r)) := by
  have hiff : ∀ {place c role r'}, Attends ((s.setClient r room h handler.role).goto h handler
      (.attached r)) place c role r' ↔ _ := attends_attach_iff hh hpc rfl
  have hfresh : ∀ place role r', ¬ Attends s place h role r' := by
    rintro place role r' ⟨handler', hh', -, hr, -⟩
    obtain rfl := Option.mem_unique hh hh'
    rw [hpc] at hr
    cases hr
  have hzero : joinedCalls s h = 0 := hs.unsent h (hfresh anywhere)
  refine ⟨fun c hc => hs.unsent c fun role r' hc' => hc role r' (hiff.mpr (.inr hc')), ?_⟩
  intro r' who honly
  have hold : Paired s r' who := hs.paired r' who fun c role hc => honly c role (hiff.mpr (.inr hc))
  by_cases hr : r = r'
  · subst hr
    have hself : Attends ((s.setClient r room h handler.role).goto h handler (.attached r)) anywhere
        h handler.role r := hiff.mpr (.inl ⟨rfl, rfl, rfl, rfl⟩)
    obtain rfl : h = who handler.role := honly _ _ hself
    refine ⟨fun role hc hother => ?_, fun hboth => ?_⟩
    · rcases handler.role.eq_or_eq_opposite role with rfl | rfl
      · refine ⟨hzero, fun hc => ?_⟩
        rcases hiff.mp hc with ⟨-, -, -, hp⟩ | hc
        · cases hp
        · exact hfresh _ _ _ hc
      · rw [Role.opposite_opposite] at hother
        exact absurd hself hother
    · -- the other client was alone before
      have hother : Attends s anywhere (who handler.role.opposite) handler.role.opposite r := by
        rcases hiff.mp (hboth handler.role.opposite) with ⟨-, hrole, -⟩ | hc
        · exact absurd hrole.symm handler.role.opposite_ne
        · exact hc
      obtain ⟨hcount, hblock⟩ := hold.alone handler.role.opposite hother (by
        rw [Role.opposite_opposite]
        exact hfresh _ _ _)
      have hnew := hok handler hh r (by rw [hpc]; rfl)
      refine ⟨handler.role, hiff.mpr (.inr (past_of_attends hother hblock hnew)), fun role' => ?_⟩
      refine hiff.mpr (.inl ⟨rfl, rfl, rfl, ?_⟩)
      have hnone : joinedCalls s (who role') = 0 := by
        rcases handler.role.eq_or_eq_opposite role' with rfl | rfl
        · exact hzero
        · exact hcount
      exact decide_eq_true hnone.symm
  · refine hold.same (fun _ _ => rfl) fun place _ c role => hiff.trans ?_
    simp [hr]

/-- `IsReady` is true exactly if the other client is attached. -/
theorem Seated.isReady_iff (hj : Seated s) (honly : OnlyTwo s r who)
    (hroom : s.heap[r]? = some room) {role : Role} (hself : Attends s anywhere (who role) role r) :
    room.isReady = true ↔ Attends s anywhere (who role.opposite) role.opposite r := by
  rw [room.isReady_iff]
  constructor
  · intro hready
    obtain ⟨c, hc⟩ := Option.ne_none_iff_exists'.mp (hready role.opposite)
    have hpeer := hj.slots r room role.opposite c hroom hc
    rwa [← honly c _ hpeer]
  · intro hother role'
    have hslot : ∃ room', s.heap[r]? = some room' ∧ room'.slot role' ≠ none := by
      rcases role.eq_or_eq_opposite role' with rfl | rfl
      · exact hj.seat _ _ _ hself
      · exact hj.seat _ _ _ hother
    obtain ⟨room', hroom', hslot⟩ := hslot
    obtain rfl := Option.mem_unique hroom hroom'
    exact hslot

/-- Of two clients, the one whose handler has not passed the notification is the
one that tells. -/
theorem Paired.teller (hs : Paired s r who) (hall : ∀ role, Attends s anywhere (who role) role r)
    (hh : s.handlers[who handler.role]? = some handler) (hnot : handler.pc.past = false) :
    Attends s Pc.past (who handler.role.opposite) handler.role.opposite r ∧ ∀ role',
      Attends s (Pc.hasAnnounced role' (joinedCalls s (who role'))) (who handler.role)
        handler.role r := by
  obtain ⟨role, hpast, hcount⟩ := hs.both hall
  rcases handler.role.eq_or_eq_opposite role with rfl | rfl
  · exact ⟨hpast, hcount⟩
  · rw [Role.opposite_opposite] at hpast
    obtain ⟨handler', hh', -, -, hp⟩ := hpast
    obtain rfl := Option.mem_unique hh hh'
    rw [hnot] at hp
    cases hp

/-- A handler has tested `IsReady`. -/
theorem Paired.test (hs : Paired s r who) (hj : Seated s) (honly : OnlyTwo s r who)
    (hh : s.handlers[who handler.role]? = some handler) (hpc : handler.pc = .attached r)
    (hroom : s.heap[r]? = some room)
    (hresult : pc = .ready r ∧ room.isReady = true ∨ pc = .reading r ∧ room.isReady = false) :
    Paired (s.goto (who handler.role) handler pc) r who := by
  have hbefore : handler.pc.joined = some r := by
    rw [hpc]
    rfl
  have hafter : pc.joined = handler.pc.joined := by
    rw [hbefore]
    rcases hresult with ⟨rfl, -⟩ | ⟨rfl, -⟩ <;> rfl
  have hany : ∀ {c role}, Attends (s.goto (who handler.role) handler pc) anywhere c role r →
      Attends s anywhere c role r := fun hc => hc.back hh rfl hafter (fun _ => rfl) fun _ => id
  have hself : Attends s anywhere (who handler.role) handler.role r :=
    ⟨handler, hh, rfl, hbefore, rfl⟩
  have hforth : ∀ {place role'}, (place handler.pc = true → place pc = true) →
      Attends s place (who role') role' r →
      Attends (s.goto (who handler.role) handler pc) place (who role') role' r :=
    fun hplace hc => hc.forth hh rfl (fun r hr => hafter.trans hr) hplace
  have hiff := hj.isReady_iff honly hroom hself
  rcases hresult with ⟨rfl, hready⟩ | ⟨rfl, hready⟩
  · have hother := hiff.mp hready
    have hall : ∀ role, Attends s anywhere (who role) role r :=
      Role.forall_of_opposite hself hother
    refine ⟨fun role _ hnot => absurd (hforth id (hall role.opposite)) hnot, fun _ => ?_⟩
    obtain ⟨hpast, hcount⟩ := hs.teller hall hh (by rw [hpc]; rfl)
    refine ⟨handler.role, hforth (by simp [hpc, Pc.past]) hpast, fun role' => ?_⟩
    refine hforth (fun hp => ?_) (hcount role')
    rw [hpc] at hp
    exact hp
  · have hother : ¬ Attends s anywhere (who handler.role.opposite) handler.role.opposite r := by
      rw [← hiff, hready]
      simp
    refine ⟨fun role hc hnot => ?_, fun hboth => absurd (hany (hboth _)) hother⟩
    rcases handler.role.eq_or_eq_opposite role with rfl | rfl
    · obtain ⟨hzero, -⟩ := hs.alone handler.role hself hother
      refine ⟨hzero, fun hblock => ?_⟩
      rcases (attends_set_iff hh rfl).mp hblock with ⟨-, -, -, hp⟩ | ⟨hne, -⟩
      · cases hp
      · exact hne rfl
    · exact absurd (hany hc) hother

/-- A handler in the notification tells the client of a role. -/
theorem Paired.tell (hs : Paired s r who)
    (hh : s.handlers[who handler.role]? = some handler)
    (ht : t.handlers = s.handlers.set (who handler.role) { handler with pc })
    (hbefore : handler.pc.joined = some r) (hblock : handler.pc.inBlock = true)
    (hafter : pc.joined = handler.pc.joined) {role : Role}
    (hcalls : ∀ c, joinedCalls t c = joinedCalls s c + if c = who role then 1 else 0)
    (hannounced : ∀ role', pc.announced role' = handler.pc.announced role' +
      if role' = role then 1 else 0) : Paired t r who := by
  have hself : Attends s anywhere (who handler.role) handler.role r :=
    ⟨handler, hh, rfl, hbefore, rfl⟩
  have hother : Attends s anywhere (who handler.role.opposite) handler.role.opposite r := by
    by_contra hnot
    exact (hs.alone handler.role hself hnot).2 ⟨handler, hh, rfl, hbefore, hblock⟩
  have hall : ∀ role, Attends s anywhere (who role) role r :=
    Role.forall_of_opposite hself hother
  have hnot : handler.pc.past = false := by
    cases hpc : handler.pc <;> first | rfl | (rw [hpc] at hblock; cases hblock)
  obtain ⟨hpast, hcount⟩ := hs.teller hall hh hnot
  have hjoined : ∀ r, handler.pc.joined = some r → pc.joined = some r := fun r hr => hafter.trans hr
  refine ⟨fun role' _ hnot' => absurd ((hall role'.opposite).forth hh ht hjoined id) hnot',
    fun _ => ?_⟩
  refine ⟨handler.role, hpast.forth hh ht hjoined (by simp [hnot]), fun role' => ?_⟩
  have hwho : who role' = who role ↔ role' = role :=
    ⟨fun heq => ((hall role').unique (heq ▸ hall role)).1, fun heq => heq ▸ rfl⟩
  rw [attends_set_iff hh ht]
  refine .inl ⟨rfl, rfl, hjoined r hbefore, ?_⟩
  obtain ⟨handler', hh', -, -, hp⟩ := hcount role'
  obtain rfl := Option.mem_unique hh hh'
  simp only [Pc.hasAnnounced, decide_eq_true_eq] at hp ⊢
  rw [hannounced, hcalls, hp]
  simp only [hwho]

/-- A handler in the notification goes on, in all rooms. -/
theorem Pairings.block (hs : Pairings s) (hh : s.handlers[h]? = some handler)
    (ht : t.handlers = s.handlers.set h { handler with pc }) (hbefore : handler.pc.joined = some r)
    (hafter : pc.joined = handler.pc.joined)
    (hunsent : ∀ c, (∀ role r', ¬ Attends s anywhere c role r') → joinedCalls t c = joinedCalls s c)
    (hothers : ∀ c role r', r' ≠ r → Attends s anywhere c role r' →
      joinedCalls t c = joinedCalls s c)
    (hmine : ∀ who, OnlyTwo s r who → Paired s r who → h = who handler.role → Paired t r who) :
    Pairings t := by
  have hany : ∀ {c role r'}, Attends t anywhere c role r' ↔ Attends s anywhere c role r' :=
    fun {c role r'} => ⟨fun hc => hc.back hh ht hafter (fun _ => rfl) fun _ => id,
      fun hc => hc.forth hh ht (fun r' hr' => hafter.trans hr') id⟩
  refine ⟨fun c hc => ?_, fun r' who honly => ?_⟩
  · simp only [hany] at hc
    rw [hunsent c hc]
    exact hs.unsent c hc
  · simp only [OnlyTwo, hany] at honly
    have hold := hs.paired r' who honly
    by_cases hr : r' = r
    · subst hr
      exact hmine who honly hold (honly h handler.role ⟨handler, hh, rfl, hbefore, rfl⟩)
    · refine hold.same (fun role hc => hothers _ role r' hr hc) fun place _ c role => ?_
      have hne : handler.pc.joined ≠ some r' := by
        rw [hbefore]
        simpa using Ne.symm hr
      exact attends_set_other hh ht hne (hafter ▸ hne)

/-- What the two calls of the notification have in common. -/
theorem Pairings.tell (hs : Pairings s) (hj : Seated s) (hh : s.handlers[h]? = some handler)
    (hbefore : handler.pc.joined = some r) (hblock : handler.pc.inBlock = true)
    (hafter : pc.joined = handler.pc.joined) (hroom : s.heap[r]? = some room) {role : Role}
    {client : Nat} (hclient : room.slot role = some client) {message : Message}
    (hmessage : message.type = "peer-joined")
    (hannounced : ∀ role', pc.announced role' = handler.pc.announced role' +
      if role' = role then 1 else 0) :
    Pairings ((s.log [⟨client, message, none⟩]).goto h handler pc) := by
  have hpeer := hj.slots r room role client hroom hclient
  have hcalls : ∀ c, joinedCalls ((s.log [⟨client, message, none⟩]).goto h handler pc) c =
      joinedCalls s c + if c = client then 1 else 0 := by
    intro c
    rw [joinedCalls_append rfl, List.countP_singleton]
    simp [Sent.tells, hmessage, eq_comm]
  apply hs.block hh rfl hbefore hafter
  · intro c hc
    have hne : c ≠ client := fun heq => hc role r (heq ▸ hpeer)
    rw [hcalls, if_neg hne, Nat.add_zero]
  · intro c role' r' hr hc
    have hne : c ≠ client := fun heq => hr (hc.unique (heq ▸ hpeer)).2
    rw [hcalls, if_neg hne, Nat.add_zero]
  · rintro who honly hold rfl
    obtain rfl := honly client role hpeer
    exact hold.tell hh rfl hbefore hblock hafter hcalls hannounced

theorem Pairings.move (hs : Pairings s) (hj : Seated s) (hh : s.handlers[h]? = some handler)
    {calls : List Sent} (hmove : Moves s h handler pc calls) :
    Pairings ((s.log calls).goto h handler pc) := by
  have hjoined := hmove.joined
  cases hmove with
  | @test r room hpc hroom =>
      have hbefore : handler.pc.joined = some r := by
        rw [hpc]
        rfl
      rw [Hub.log_nil]
      refine hs.block hh rfl hbefore hjoined (fun c _ => rfl) (fun c _ _ _ _ => rfl) ?_
      rintro who honly hold rfl
      apply hold.test hj honly hh hpc hroom
      cases hready : room.isReady with
      | true => exact .inl ⟨if_pos rfl, rfl⟩
      | false => exact .inr ⟨if_neg (by simp), rfl⟩
  | @tellSender r client room hpc hroom hclient =>
      apply hs.tell hj hh (by rw [hpc]; rfl) (by rw [hpc]; rfl) hjoined hroom
        (show room.slot .sender = some client from hclient) rfl
      intro role'
      cases role' <;> simp [hpc, Pc.announced]
  | @tellReceiver r client room hpc hroom hclient =>
      apply hs.tell hj hh (by rw [hpc]; rfl) (by rw [hpc]; rfl) hjoined hroom
        (show room.slot .receiver = some client from hclient) rfl
      intro role'
      cases role' <;> simp [hpc, Pc.announced]
  | found hpc | absent hpc | notFound hpc | upgrade hpc | upgradeFails hpc =>
      rw [Hub.log_nil]
      have hnone : handler.pc.joined = none := by
        rw [hpc]
        rfl
      exact hs.set hh rfl (fun _ => rfl) hjoined (by rw [hpc]; rfl) (by rw [hpc]; rfl)
        fun hne => absurd hnone hne
  | read hpc | skip hpc | readFails hpc | peer hpc | noPeer hpc | lookUp hpc | tellNobody hpc =>
      rw [Hub.log_nil]
      exact hs.set hh rfl (fun _ => rfl) hjoined (by simp only [hpc, Pc.inBlock])
        (by simp only [hpc, Pc.past]) fun _ role => by simp only [hpc, Pc.announced]
  | forward hpc | tellPeer hpc =>
      refine hs.set hh rfl (fun c => ?_) hjoined (by rw [hpc]; rfl) (by rw [hpc]; rfl)
        fun _ role => by rw [hpc]; rfl
      rw [joinedCalls_append rfl, List.countP_singleton]
      simp [Sent.tells, peerDisconnected]

/-- **Every step keeps the pairings**, if it meets the condition. -/
theorem Pairings.steps (hs : Pairings s) (hj : Seated s) {a : Action} (hok : TestsFirst s a)
    (h : Steps s a t) : Pairings t := by
  cases h with
  | create method id => exact hs.same (fun _ => rfl) fun _ _ _ _ _ => Iff.rfl
  | connect room role role' => exact hs.same (fun _ => rfl) fun _ _ _ _ _ => attends_append _ rfl
  | move ha hh hmove => exact hs.move hj hh hmove
  | @createFor h handler hh hpc =>
      have hnone : handler.pc.joined = none := by
        rw [hpc]
        rfl
      exact hs.set hh rfl (fun _ => rfl) hnone.symm (by rw [hpc]; rfl) (by rw [hpc]; rfl)
        fun hne => absurd hnone hne
  | attach hh hpc hroom => exact hs.attach hh hpc hok
  | @leave h r handler hh hpc =>
      refine hs.set hh (Hub.handlers_leave _ _ _ _) (fun c => ?_)
        (by simp only [hpc, Pc.joined]) (by simp only [hpc, Pc.inBlock])
        (by simp only [hpc, Pc.past]) fun _ role => by simp only [hpc, Pc.announced]
      rw [joinedCalls, joinedCalls]
      exact congrArg _ (Hub.sent_cleanUp s handler)

end Steps

/-- Both clients of a room have been sent "peer-joined" once, when their handlers
have passed the notification. -/
def JoinedOnce (s : Hub) : Prop :=
  ∀ r who, OnlyTwo s r who → (∀ role, Attends s Pc.past (who role) role r) →
    ∀ role, joinedCalls s (who role) = 1

theorem Pairings.joinedOnce {s : Hub} (hs : Pairings s) : JoinedOnce s := by
  intro r who honly hpast role'
  obtain ⟨role, -, hcount⟩ := (hs.paired r who honly).both fun role =>
    (hpast role).imp fun _ _ => rfl
  obtain ⟨handler, hh, -, -, hp⟩ := hcount role'
  obtain ⟨handler', hh', -, -, hpast⟩ := hpast role
  obtain rfl := Option.mem_unique hh hh'
  have hone : handler.pc.announced role' = 1 := by
    cases hpc : handler.pc <;> first | rfl | (rw [hpc] at hpast; cases hpast)
  rw [Pc.hasAnnounced, hone, decide_eq_true_eq] at hp
  exact hp.symm

/-- **One "peer-joined" for each pairing**, in every run in which no client is
stored in a room while another handler there has yet to test `IsReady`. -/
theorem joined_once (s : Hub) (h : Runs.ReachWhen step TestsFirst {} s) : JoinedOnce s := by
  have hs : Seated s ∧ Pairings s := by
    apply h.invariant ⟨seated_empty, pairings_empty⟩
    intro u a v hu hok hstep
    exact ⟨hu.1.steps (steps_of_step hstep), hu.2.steps hu.1 hok (steps_of_step hstep)⟩
  exact hs.2.joinedOnce

theorem joined_once_receiverLeaves :
    ∃ s, Runs.run step {} receiverLeaves = some s ∧ joinedCalls s 0 = 1 ∧ joinedCalls s 1 = 1 ∧
      JoinedOnce s :=
  ⟨_, rfl, rfl, rfl, joined_once _ (Runs.reachWhen_of_run receiverLeaves rfl (by decide))⟩

/-- Both clients are stored before either handler tests `IsReady`. -/
def bothStored : List Action :=
  [.connect "room" "sender", .handle 0, .handle 0, .handle 0, .handle 0,
    .connect "room" "receiver", .handle 1, .handle 1, .handle 1,
    .handle 0, .handle 0, .handle 0, .handle 1, .handle 1, .handle 1]

theorem not_joined_once_bothStored :
    ¬ ∀ s, Runs.Reach step {} s → JoinedOnce s := by
  intro h
  have honce := h _ (Runs.reach_of_run bothStored rfl) 0
    (fun role => if role = .sender then 0 else 1) ?_ ?_ .sender
  · exact absurd honce (by decide)
  · intro c role hc
    have hall : ∀ c ∈ List.range 2,
        (Attends ((Runs.run step {} bothStored).getD {}) anywhere c .sender 0 → c = 0) ∧
          (Attends ((Runs.run step {} bothStored).getD {}) anywhere c .receiver 0 → c = 1) := by
      decide
    cases role
    · exact (hall c (List.mem_range.mpr hc.lt)).1 hc
    · exact (hall c (List.mem_range.mpr hc.lt)).2 hc
  · intro role
    cases role <;> decide

end FastTransfer.Server.Signaling
