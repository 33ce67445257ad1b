import FastTransfer.Server.Presence

/-!
# The room of a connected sender

Whether the hub still maps a room id to the room where the senders of that id
are. Looking a room up and creating it are two critical sections, creation
overwrites, and removal goes by the id.
-/

namespace FastTransfer.Server.Signaling

/-- The room to which `c` is attached, if it is a sender under an id and its
handler has not ended. -/
def liveRoom (s : Hub) (id : String) (c : Nat) : Option Nat :=
  s.handlers[c]?.bind fun handler =>
    if handler.role = .sender ∧ handler.room = id ∧ handler.pc.present = true then
      handler.pc.joined
    else none

/-- The rooms of the live senders under an id, in the order in which these were
attached. -/
def senderRooms (s : Hub) (id : String) : List Nat := s.arrivals.filterMap (liveRoom s id)

/-- Under every id the hub finds the room of the live sender that was attached
last. -/
def SenderReachable (s : Hub) : Prop :=
  ∀ id, ∀ r ∈ (senderRooms s id).getLast?, s.getRoom id = some r

/-- No room is created under the id of a live sender, a sender is attached only
to the room that its id is mapped to, and no sender leaves before another live
one of its id. -/
def KeepsRooms (s : Hub) : Action → Prop
  | .createRoom _ id => senderRooms s id = []
  | .handle h => ∀ handler ∈ s.handlers[h]?,
      (handler.pc = .noRoom → senderRooms s handler.room = []) ∧
      (handler.role = .sender → ∀ r ∈ handler.pc.attaching, s.getRoom handler.room = some r) ∧
      (handler.role = .sender → ∀ _r ∈ handler.pc.leaving, ∀ c ∈ s.arrivals, c ≠ h →
        liveRoom s handler.room c = none)
  | _ => True

instance decidableKeepsRooms (s : Hub) : ∀ a, Decidable (KeepsRooms s a)
  | .createRoom _ id => inferInstanceAs (Decidable (senderRooms s id = []))
  | .handle h => inferInstanceAs (Decidable (∀ handler ∈ s.handlers[h]?,
      (handler.pc = .noRoom → senderRooms s handler.room = []) ∧
      (handler.role = .sender → ∀ r ∈ handler.pc.attaching, s.getRoom handler.room = some r) ∧
      (handler.role = .sender → ∀ _r ∈ handler.pc.leaving, ∀ c ∈ s.arrivals, c ≠ h →
        liveRoom s handler.room c = none)))
  | .connect _ _ | .upgradeFails _ | .readMessage _ _ | .readFails _ =>
      inferInstanceAs (Decidable True)

/-- Whoever has arrived is attached to a room. -/
def Arrived (s : Hub) : Prop := ∀ c ∈ s.arrivals, ∃ role r, Attends s anywhere c role r

section Steps

variable {s t : Hub} {h r : Nat} {id : String} {handler : Handler} {pc : Pc} {room : Room}

/-- The live room of a sender, of a handler that takes the place of an old one. -/
theorem liveRoom_set (hh : s.handlers[h]? = some handler)
    (ht : t.handlers = s.handlers.set h { handler with pc }) (c : Nat) :
    liveRoom t id c =
      if c = h then
        if handler.role = .sender ∧ handler.room = id ∧ pc.present = true then pc.joined else none
      else liveRoom s id c := by
  have hlt := (List.getElem?_eq_some_iff.mp hh).1
  by_cases hch : c = h
  · subst hch
    rw [liveRoom, ht, List.getElem?_set_self hlt, Option.bind_some, if_pos rfl]
  · rw [liveRoom, ht, List.getElem?_set_ne (Ne.symm hch), if_neg hch, liveRoom]

/-- The rooms of the senders change with the rooms of single senders only. -/
theorem senderRooms_congr (harrivals : t.arrivals = s.arrivals)
    (hlive : ∀ c ∈ s.arrivals, liveRoom t id c = liveRoom s id c) :
    senderRooms t id = senderRooms s id := by
  rw [senderRooms, senderRooms, harrivals]
  exact List.filterMap_congr hlive

theorem senderRooms_move (hh : s.handlers[h]? = some handler)
    (ht : t.handlers = s.handlers.set h { handler with pc }) (harrivals : t.arrivals = s.arrivals)
    (hjoined : pc.joined = handler.pc.joined) (hpresent : pc.present = handler.pc.present)
    (id : String) : senderRooms t id = senderRooms s id := by
  apply senderRooms_congr harrivals
  intro c _
  rw [liveRoom_set hh ht, hjoined, hpresent]
  split_ifs with hch hlive
  · rw [liveRoom, hch, hh, Option.bind_some, if_pos hlive]
  · rw [liveRoom, hch, hh, Option.bind_some, if_neg hlive]
  · rfl

/-- Nothing changes for the senders. -/
theorem senderReachable_same (hsenders : ∀ id, senderRooms t id = senderRooms s id)
    (hrooms : t.rooms = s.rooms) : SenderReachable t ↔ SenderReachable s := by
  simp only [SenderReachable, hsenders, Hub.getRoom, hrooms]

/-- A room of a live sender is one that has been created. -/
theorem Seated.lt_of_senderRooms (hj : Seated s) (hr : r ∈ senderRooms s id) :
    r < s.heap.length := by
  obtain ⟨c, -, hc⟩ := List.mem_filterMap.mp hr
  obtain ⟨handler, hh, hlive⟩ := Option.bind_eq_some_iff.mp hc
  split_ifs at hlive
  obtain ⟨room, hroom, -⟩ := hj.seat c handler.role r ⟨handler, hh, rfl, hlive, rfl⟩
  exact (List.getElem?_eq_some_iff.mp hroom).1

/-- An id with no room, or with a room of no live sender, has no live sender. -/
theorem senderRooms_eq_nil (ht : SenderReachable t)
    (hnot : ∀ r ∈ senderRooms t id, t.getRoom id ≠ some r) : senderRooms t id = [] := by
  rcases List.eq_nil_or_concat (senderRooms t id) with hnil | ⟨rest, r, hrest⟩
  · exact hnil
  · exact absurd (ht id r (by rw [hrest]; simp)) (hnot r (by rw [hrest]; simp))

/-- A room is created under an id. -/
theorem senderReachable_create (hj : Seated s) (hs : SenderReachable s)
    (hsenders : ∀ id, senderRooms t id = senderRooms s id)
    (hrooms : t.rooms = Function.update s.rooms id (some s.heap.length)) :
    SenderReachable t ↔ senderRooms s id = [] := by
  constructor
  · intro ht
    rw [← hsenders]
    apply senderRooms_eq_nil ht
    intro r hr hnew
    rw [hsenders] at hr
    rw [Hub.getRoom, hrooms, Function.update_self] at hnew
    obtain rfl := Option.some.inj hnew
    exact absurd (hj.lt_of_senderRooms hr) (Nat.lt_irrefl _)
  · intro hnil id' r hr
    rw [hsenders] at hr
    have hne : id' ≠ id := by
      rintro rfl
      rw [hnil] at hr
      cases hr
    rw [Hub.getRoom, hrooms, Function.update_of_ne hne]
    exact hs id' r hr

/-- A sender or a receiver is attached to a room. -/
theorem senderRooms_attach (hs : Arrived s) (hh : s.handlers[h]? = some handler)
    (hpc : handler.pc = .upgraded r) (id : String) :
    senderRooms ((s.setClient r room h handler.role).goto h handler (.attached r)) id =
      senderRooms s id ++ if handler.role = .sender ∧ handler.room = id then [r] else [] := by
  have hne : ∀ c ∈ s.arrivals, c ≠ h := by
    rintro c hc rfl
    obtain ⟨role, r', handler', hh', -, hr, -⟩ := hs c hc
    obtain rfl := Option.mem_unique hh hh'
    rw [hpc] at hr
    cases hr
  have hlive : ∀ c, liveRoom ((s.setClient r room h handler.role).goto h handler (.attached r))
      id c = if c = h then
        if handler.role = .sender ∧ handler.room = id ∧ (Pc.attached r).present = true then
          (Pc.attached r).joined
        else none
      else liveRoom s id c := liveRoom_set hh rfl
  show (s.arrivals ++ [h]).filterMap _ = _
  rw [List.filterMap_append, List.filterMap_congr fun c hc => (hlive c).trans (if_neg (hne c hc)),
    senderRooms]
  congr 1
  rw [List.filterMap_cons, hlive, if_pos rfl]
  by_cases hsender : handler.role = .sender ∧ handler.room = id
  · simp [hsender, Pc.present, Pc.joined]
  · rw [if_neg hsender, if_neg fun h => hsender ⟨h.1, h.2.1⟩]
    rfl

theorem senderReachable_attach (hs : SenderReachable s) (harr : Arrived s)
    (hh : s.handlers[h]? = some handler) (hpc : handler.pc = .upgraded r) :
    SenderReachable ((s.setClient r room h handler.role).goto h handler (.attached r)) ↔
      (handler.role = .sender → s.getRoom handler.room = some r) := by
  have hsenders : ∀ id, senderRooms ((s.setClient r room h handler.role).goto h handler
      (.attached r)) id = senderRooms s id ++
        if handler.role = .sender ∧ handler.room = id then [r] else [] :=
    senderRooms_attach harr hh hpc
  constructor
  · intro ht hrole
    refine ht handler.room r ?_
    rw [hsenders, if_pos ⟨hrole, rfl⟩, List.getLast?_concat]
    rfl
  · intro hok id r' hr
    rw [hsenders] at hr
    split_ifs at hr with hsender
    · rw [List.getLast?_concat] at hr
      obtain rfl := Option.some.inj hr
      exact hsender.2 ▸ hok hsender.1
    · rw [List.append_nil] at hr
      exact hs id r' hr

/-- A handler ends. -/
theorem senderReachable_leave (hs : SenderReachable s) (hh : s.handlers[h]? = some handler) :
    SenderReachable ((s.cleanUp handler).goto h handler (.ended r)) ↔
      (handler.role = .sender → ∀ c ∈ s.arrivals, c ≠ h → liveRoom s handler.room c = none) := by
  have ht := Hub.handlers_leave s handler h r
  have harrivals : ((s.cleanUp handler).goto h handler (.ended r)).arrivals = s.arrivals := by
    rw [Hub.goto, Hub.cleanUp]
    split <;> rfl
  have hlive : ∀ id c, liveRoom ((s.cleanUp handler).goto h handler (.ended r)) id c =
      if c = h then none else liveRoom s id c := by
    intro id c
    rw [liveRoom_set hh ht]
    simp [Pc.present]
  -- the ids of the other senders are not affected
  have hsame : ∀ id, ¬ (handler.role = .sender ∧ handler.room = id) →
      senderRooms ((s.cleanUp handler).goto h handler (.ended r)) id = senderRooms s id := by
    intro id hid
    apply senderRooms_congr harrivals
    intro c _
    rw [hlive]
    split_ifs with hch
    · rw [liveRoom, hch, hh, Option.bind_some, if_neg fun h => hid ⟨h.1, h.2.1⟩]
    · rfl
  cases hrole : handler.role with
  | receiver =>
      refine iff_of_true ?_ (by simp)
      rw [senderReachable_same (s := s) (fun id => hsame id (by simp [hrole])) (by
        rw [Hub.goto, Hub.cleanUp, hrole])]
      exact hs
  | sender =>
      have hrooms : ((s.cleanUp handler).goto h handler (.ended r)).rooms =
          Function.update s.rooms handler.room none := by
        rw [Hub.goto, Hub.cleanUp, hrole]
        rfl
      have hempty : senderRooms ((s.cleanUp handler).goto h handler (.ended r)) handler.room = [] ↔
          ∀ c ∈ s.arrivals, c ≠ h → liveRoom s handler.room c = none := by
        rw [senderRooms, List.filterMap_eq_nil_iff, harrivals]
        simp only [hlive, ite_eq_left_iff]
      rw [← hempty]
      constructor
      · intro ht _
        apply senderRooms_eq_nil ht
        intro r' _ hr
        rw [Hub.getRoom, hrooms, Function.update_self] at hr
        cases hr
      · intro hnil id r' hr
        by_cases hid : handler.room = id
        · rw [← hid, hnil rfl] at hr
          cases hr
        · rw [hsame id fun h => hid h.2] at hr
          rw [Hub.getRoom, hrooms, Function.update_of_ne (Ne.symm hid)]
          exact hs id r' hr

theorem Moves.still {calls : List Sent} (hmove : Moves s h handler pc calls) :
    handler.pc ≠ .noRoom ∧ handler.pc.attaching = none ∧ handler.pc.leaving = none := by
  cases hmove with
  | found hpc | absent hpc | notFound hpc | upgrade hpc | upgradeFails hpc | test hpc
  | tellSender hpc | tellReceiver hpc | read hpc | skip hpc | readFails hpc | peer hpc | noPeer hpc
  | forward hpc | lookUp hpc | tellPeer hpc | tellNobody hpc =>
      simp [hpc, Pc.attaching, Pc.leaving]

/-- **A step keeps the rooms of the senders in sight exactly when it meets the
condition.** -/
theorem SenderReachable.steps_iff (hs : SenderReachable s) (hj : Seated s) (harr : Arrived s)
    {a : Action} (hstep : Steps s a t) : SenderReachable t ↔ KeepsRooms s a := by
  cases hstep with
  | create method id => exact senderReachable_create hj hs (fun _ => rfl) rfl
  | connect room role role' =>
      have hlive : ∀ id, ∀ c ∈ s.arrivals,
          liveRoom { s with handlers := s.handlers ++ [{ room, role := role' }] } id c =
            liveRoom s id c := by
        intro id c hc
        obtain ⟨-, -, handler, hh, -⟩ := harr c hc
        rw [liveRoom, liveRoom, Tally.getElem?_concat_of_some hh, hh]
      have hsenders : ∀ id, senderRooms { s with
          handlers := s.handlers ++ [{ room, role := role' }] } id = senderRooms s id :=
        fun id => senderRooms_congr rfl (hlive id)
      exact iff_of_true ((senderReachable_same hsenders rfl).mpr hs) trivial
  | @move a h handler pc calls ha hh hmove =>
      obtain ⟨hroom, hattach, hleave⟩ := hmove.still
      refine iff_of_true ?_ ?_
      · have hsenders := senderRooms_move hh (t := (s.log calls).goto h handler pc) rfl rfl
          hmove.joined hmove.present
        exact (senderReachable_same hsenders rfl).mpr hs
      · cases a with
        | handle h' =>
            obtain rfl := Option.some.inj ha
            intro handler' hh'
            obtain rfl := Option.mem_unique hh hh'
            simp [hroom, hattach, hleave]
        | createRoom | connect => cases ha
        | upgradeFails | readMessage | readFails => trivial
  | @createFor h handler hh hpc =>
      have hok : KeepsRooms s (.handle h) ↔ senderRooms s handler.room = [] := by
        simp [KeepsRooms, show s.handlers[h]? = some handler from hh, hpc, Pc.attaching, Pc.leaving]
      have ht : ((s.createRoomWithID handler.room).2.goto h handler
          (.gotRoom (s.createRoomWithID handler.room).1)).handlers = s.handlers.set h
            { handler with pc := .gotRoom (s.createRoomWithID handler.room).1 } := rfl
      rw [hok]
      exact senderReachable_create hj hs (senderRooms_move hh ht rfl (by simp [hpc, Pc.joined])
        (by simp [hpc, Pc.present])) rfl
  | @attach h r handler room hh hpc hroom =>
      have hok : KeepsRooms s (.handle h) ↔
          (handler.role = .sender → s.getRoom handler.room = some r) := by
        simp [KeepsRooms, show s.handlers[h]? = some handler from hh, hpc, Pc.attaching, Pc.leaving]
      rw [hok]
      exact senderReachable_attach hs harr hh hpc
  | @leave h r handler hh hpc =>
      have hok : KeepsRooms s (.handle h) ↔ (handler.role = .sender → ∀ c ∈ s.arrivals, c ≠ h →
          liveRoom s handler.room c = none) := by
        simp [KeepsRooms, show s.handlers[h]? = some handler from hh, hpc, Pc.attaching, Pc.leaving]
      rw [hok]
      exact senderReachable_leave hs hh

theorem Arrived.steps (hs : Arrived s) {a : Action} (hstep : Steps s a t) : Arrived t := by
  intro c hc
  have hold : c ∈ s.arrivals → ∃ role r, Attends t anywhere c role r := fun hc =>
    let ⟨role, r, hc⟩ := hs c hc
    ⟨role, r, hstep.attends hc⟩
  cases hstep with
  | create | connect | move | createFor => exact hold hc
  | attach hh hpc hroom =>
      rcases List.mem_append.mp hc with hc | hc
      · exact hold hc
      · obtain rfl := List.mem_singleton.mp hc
        exact ⟨_, _, (attends_attach_iff hh hpc rfl).mpr (.inl ⟨rfl, rfl, rfl, rfl⟩)⟩
  | @leave h r handler hh hpc =>
      apply hold
      rw [Hub.goto, Hub.cleanUp] at hc
      split at hc <;> exact hc

end Steps

/-- **A connected sender's room stays reachable** all through a run if and only
if its actions meet the condition. -/
theorem sender_reachable_iff (as : List Action) (s : Hub)
    (hrun : Runs.run step {} as = some s) :
    Runs.Always step SenderReachable {} as ↔ Runs.Meets step KeepsRooms {} as := by
  apply Runs.always_iff_meets (I := fun u => Seated u ∧ Arrived u) hrun
  · exact ⟨seated_empty, by simp [Arrived]⟩
  · simp [SenderReachable, senderRooms]
  · rintro u a v ⟨hj, harr⟩ hstep
    have hsteps := steps_of_step hstep
    exact ⟨⟨hj.steps hsteps, harr.steps hsteps⟩, fun hu => hu.steps_iff hj harr hsteps⟩

theorem sender_reachable_iff_receiverLeaves :
    ∃ s, Runs.run step {} receiverLeaves = some s ∧
      Runs.Always step SenderReachable {} receiverLeaves :=
  ⟨_, rfl, (sender_reachable_iff receiverLeaves _ rfl).mpr (by decide)⟩

/-- A second sender of the room is attached when the first one leaves. -/
def senderLeaves : List Action :=
  [.connect "room" "sender", .handle 0, .handle 0, .handle 0, .handle 0, .handle 0,
    .connect "room" "sender", .handle 1, .handle 1, .handle 1, .handle 1,
    .readFails 0, .handle 0, .handle 0, .handle 0]

theorem not_sender_reachable_senderLeaves :
    ¬ ∀ s, Runs.Reach step {} s → SenderReachable s := by
  intro h
  have hroom := h _ (Runs.reach_of_run senderLeaves rfl) "room" 0 rfl
  exact absurd hroom (by decide)

end FastTransfer.Server.Signaling
