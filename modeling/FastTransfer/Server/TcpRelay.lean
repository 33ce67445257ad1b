import Mathlib.Logic.Function.Basic
import FastTransfer.Lib.Runs
import FastTransfer.Lib.Tally

/-!
# The pending map of the TCP relay

`handleRelayConn` of `internal/handlers/relay.go`, for any number of accepted
connections. The goroutine of a connection and the timer that it arms have the
number of the connection. A section under the mutex is one step; a header may
arrive or fail at any time, a timer may run at any time after it is armed, and
each pipe of a session may end at any time.
-/

namespace FastTransfer.Server

/-- What a connection sends first. -/
abbrev Header := Vector UInt8 13

/-- The first 12 bytes of the header. -/
def Header.roomID (header : Header) : List UInt8 := header.toList.take 12

/-- Its last byte. -/
def Header.role (header : Header) : UInt8 := header[12]

/-- Where the goroutine of a connection, or its timer after it, stands. -/
inductive Stage where
  | readingHeader
  /-- `io.ReadFull` has failed. -/
  | shortHeader
  /-- The header has been read, the mutex is not held yet. -/
  | gotHeader (header : Header)
  /-- Put into the pending map, no timer yet. -/
  | stored (header : Header)
  | armed (header : Header)
  /-- The timer has run; `expired` if it closed the connection. -/
  | timerRan (header : Header) (expired : Bool)
  /-- In `relay(conn, peer)`, and which of the two pipes have ended. -/
  | relaying (header : Header) (peer : Nat) (connDone peerDone : Bool)
  deriving DecidableEq

/-- The map of the relay, and its connections in the order in which they were accepted. -/
structure RelayHub where
  pending : List UInt8 → Option Nat := fun _ => none
  conns : List Stage := []
  /-- The calls of `Close`, in their order. -/
  closed : List Nat := []

namespace RelayHub

/-- The handler of connection `c` goes on. -/
def goto (s : RelayHub) (c : Nat) (stage : Stage) : RelayHub :=
  { s with conns := s.conns.set c stage }

/-- `conn.Close()`. -/
def close (s : RelayHub) (c : Nat) : RelayHub := { s with closed := s.closed ++ [c] }

/-- `pending[roomID]` is set or deleted. -/
def setPending (s : RelayHub) (room : List UInt8) (c : Option Nat) : RelayHub :=
  { s with pending := Function.update s.pending room c }

/-- `io.ReadFull` returns; `none` if the header is short. -/
def readHeader (s : RelayHub) (c : Nat) (header : Option Header) : Option RelayHub :=
  match s.conns[c]?, header with
  | some .readingHeader, some header => some (s.goto c (.gotHeader header))
  | some .readingHeader, none => some ((s.goto c .shortHeader).close c)
  | _, _ => none

/-- The section under the mutex: pair with the pending connection of the room,
or become it. -/
def pair (s : RelayHub) (c : Nat) : Option RelayHub :=
  match s.conns[c]? with
  | some (.gotHeader header) =>
      match s.pending header.roomID with
      | some peer =>
          some ((s.setPending header.roomID none).goto c (.relaying header peer false false))
      | none => some ((s.setPending header.roomID (some c)).goto c (.stored header))
  | _ => none

/-- `time.AfterFunc`, after the lock is given back. -/
def afterFunc (s : RelayHub) (c : Nat) : Option RelayHub :=
  match s.conns[c]? with
  | some (.stored header) => some (s.goto c (.armed header))
  | _ => none

/-- The function of the timer that `c` armed. -/
def timer (s : RelayHub) (c : Nat) : Option RelayHub :=
  match s.conns[c]? with
  | some (.armed header) =>
      if s.pending header.roomID = some c then
        some (((s.setPending header.roomID none).goto c (.timerRan header true)).close c)
      else some (s.goto c (.timerRan header false))
  | _ => none

/-- A pipe of the session that `c` started ends and closes its destination. -/
def pipeEnd (s : RelayHub) (c : Nat) (toPeer : Bool) : Option RelayHub :=
  match s.conns[c]?, toPeer with
  | some (.relaying header peer connDone false), true =>
      some ((s.goto c (.relaying header peer connDone true)).close peer)
  | some (.relaying header peer false peerDone), false =>
      some ((s.goto c (.relaying header peer true peerDone)).close c)
  | _, _ => none

/-- A connection comes, or the handler of one goes on. -/
inductive Action where
  | accept
  | readHeader (c : Nat) (header : Option Header)
  | pair (c : Nat)
  | afterFunc (c : Nat)
  | timer (c : Nat)
  | pipeEnd (c : Nat) (toPeer : Bool)

/-- One step of the relay. -/
def step (s : RelayHub) : Action → Option RelayHub
  | .accept => some { s with conns := s.conns ++ [.readingHeader] }
  | .readHeader c header => s.readHeader c header
  | .pair c => s.pair c
  | .afterFunc c => s.afterFunc c
  | .timer c => s.timer c
  | .pipeEnd c toPeer => s.pipeEnd c toPeer

end RelayHub

namespace Stage

/-- The header of a connection that was put into the pending map, unless its
timer has closed it. -/
def registered : Stage → Option Header
  | .stored header | .armed header | .timerRan header false => some header
  | _ => none

/-- The header, once it is read. -/
def header : Stage → Option Header
  | .readingHeader | .shortHeader => none
  | .gotHeader header | .stored header | .armed header | .timerRan header _
  | .relaying header _ _ _ => some header

/-- The session that a connection has started: its header, and the peer. -/
def session : Stage → Option (Header × Nat)
  | .relaying header peer _ _ => some (header, peer)
  | _ => none

end Stage

namespace RelayHub

/-- The header of a connection that was put into the map, and has not timed out. -/
def registered (s : RelayHub) (c : Nat) : Option Header := s.conns[c]?.bind Stage.registered

/-- The session that a connection started: its own header, and the peer. -/
def session (s : RelayHub) (c : Nat) : Option (Header × Nat) := s.conns[c]?.bind Stage.session

/-- The header that a connection has presented. -/
def header (s : RelayHub) (c : Nat) : Option Header := s.conns[c]?.bind Stage.header

/-! ## The steps -/

/-- Everything that a step can do. Only `start`, `wait` and `expire` change the
pending map. -/
inductive Steps (s : RelayHub) : Action → RelayHub → Prop where
  | accept : Steps s .accept { s with conns := s.conns ++ [.readingHeader] }
  | read {c : Nat} (hc : s.conns[c]? = some .readingHeader) (header : Header) :
      Steps s (.readHeader c (some header)) (s.goto c (.gotHeader header))
  | fail {c : Nat} (hc : s.conns[c]? = some .readingHeader) :
      Steps s (.readHeader c none) ((s.goto c .shortHeader).close c)
  | start {c peer : Nat} {header : Header} (hc : s.conns[c]? = some (.gotHeader header))
      (hpeer : s.pending header.roomID = some peer) :
      Steps s (.pair c)
        ((s.setPending header.roomID none).goto c (.relaying header peer false false))
  | wait {c : Nat} {header : Header} (hc : s.conns[c]? = some (.gotHeader header))
      (hfree : s.pending header.roomID = none) :
      Steps s (.pair c) ((s.setPending header.roomID (some c)).goto c (.stored header))
  | arm {c : Nat} {header : Header} (hc : s.conns[c]? = some (.stored header)) :
      Steps s (.afterFunc c) (s.goto c (.armed header))
  | expire {c : Nat} {header : Header} (hc : s.conns[c]? = some (.armed header))
      (hmine : s.pending header.roomID = some c) :
      Steps s (.timer c)
        (((s.setPending header.roomID none).goto c (.timerRan header true)).close c)
  | stale {c : Nat} {header : Header} (hc : s.conns[c]? = some (.armed header))
      (hother : s.pending header.roomID ≠ some c) :
      Steps s (.timer c) (s.goto c (.timerRan header false))
  | endToPeer {c peer : Nat} {header : Header} {connDone : Bool}
      (hc : s.conns[c]? = some (.relaying header peer connDone false)) :
      Steps s (.pipeEnd c true) ((s.goto c (.relaying header peer connDone true)).close peer)
  | endToConn {c peer : Nat} {header : Header} {peerDone : Bool}
      (hc : s.conns[c]? = some (.relaying header peer false peerDone)) :
      Steps s (.pipeEnd c false) ((s.goto c (.relaying header peer true peerDone)).close c)

theorem steps_of_step {s s' : RelayHub} {a : Action} (h : step s a = some s') : Steps s a s' := by
  cases a with
  | accept =>
      cases h
      exact .accept
  | readHeader c header =>
      simp only [step] at h
      unfold readHeader at h
      cases hc : s.conns[c]? with
      | none =>
          rw [hc] at h
          cases h
      | some stage =>
          rw [hc] at h
          cases stage with
          | readingHeader =>
              cases header with
              | none =>
                  cases h
                  exact .fail hc
              | some header =>
                  cases h
                  exact .read hc header
          | shortHeader | gotHeader header | stored header | armed header
          | timerRan header expired | relaying header peer connDone peerDone => cases h
  | pair c =>
      simp only [step, pair] at h
      split at h
      next header hc =>
        split at h
        next peer hpeer => exact Option.some.inj h ▸ .start hc hpeer
        next hfree => exact Option.some.inj h ▸ .wait hc hfree
      next => cases h
  | afterFunc c =>
      simp only [step, afterFunc] at h
      split at h
      next header hc => exact Option.some.inj h ▸ .arm hc
      next => cases h
  | timer c =>
      simp only [step, timer] at h
      split at h
      next header hc =>
        split_ifs at h with hmine
        · exact Option.some.inj h ▸ .expire hc hmine
        · exact Option.some.inj h ▸ .stale hc hmine
      next => cases h
  | pipeEnd c toPeer =>
      simp only [step, pipeEnd] at h
      split at h
      next hc => exact Option.some.inj h ▸ .endToPeer hc
      next hc => exact Option.some.inj h ▸ .endToConn hc
      next => cases h

/-! ## The map, the registered connections and the sessions -/

/-- **The invariant of the pending map**: it holds connections of its rooms, a
session has taken its peer out of it, no two sessions took the same one, and
whoever was put into the map is still there or has been taken. -/
structure Discipline (pending : List UInt8 → Option Nat) (registered : Nat → Option Header)
    (session : Nat → Option (Header × Nat)) : Prop where
  own : ∀ room c, pending room = some c →
    ∃ header, registered c = some header ∧ header.roomID = room
  taken : ∀ c header d, session c = some (header, d) →
    ∃ header', registered d = some header' ∧ header'.roomID = header.roomID ∧
      ∀ room, pending room ≠ some d
  once : ∀ c c' header header' d, session c = some (header, d) →
    session c' = some (header', d) → c = c'
  left : ∀ c header, registered c = some header →
    pending header.roomID = some c ∨ ∃ d header', session d = some (header', c)

section Discipline

variable {pending : List UInt8 → Option Nat} {registered : Nat → Option Header}
  {session : Nat → Option (Header × Nat)} {c : Nat} {header : Header}

/-- A connection is pending in one room. -/
theorem Discipline.room_unique (h : Discipline pending registered session) {room room' : List UInt8}
    (hroom : pending room = some c) (hroom' : pending room' = some c) : room = room' := by
  obtain ⟨header, hreg, rfl⟩ := h.own room c hroom
  obtain ⟨header', hreg', rfl⟩ := h.own room' c hroom'
  rw [Option.mem_unique hreg hreg']

/-- The connection that waits in a room is taken into a session. -/
theorem Discipline.start (h : Discipline pending registered session) {peer : Nat}
    (hpeer : pending header.roomID = some peer) (hnew : session c = none) :
    Discipline (Function.update pending header.roomID none) registered
      (Function.update session c (some (header, peer))) where
  own room d hd := by
    rw [Function.update_apply] at hd
    split_ifs at hd
    exact h.own room d hd
  taken d header' e hd := by
    rw [Function.update_apply] at hd
    split_ifs at hd with hdc
    · obtain ⟨rfl, rfl⟩ := Prod.mk.inj (Option.some.inj hd)
      obtain ⟨header', hreg, hroom⟩ := h.own _ peer hpeer
      refine ⟨header', hreg, hroom, fun room hroom' => ?_⟩
      rw [Function.update_apply] at hroom'
      split_ifs at hroom' with hne
      exact hne (h.room_unique hroom' hpeer)
    · obtain ⟨header'', hreg, hroom, hnot⟩ := h.taken d header' e hd
      refine ⟨header'', hreg, hroom, fun room hroom' => ?_⟩
      rw [Function.update_apply] at hroom'
      split_ifs at hroom'
      exact hnot room hroom'
  once d d' header₁ header₂ e hd hd' := by
    rw [Function.update_apply] at hd hd'
    split_ifs at hd hd' with hdc hdc' hdc'
    · rw [hdc, hdc']
    · obtain ⟨rfl, rfl⟩ := Prod.mk.inj (Option.some.inj hd)
      obtain ⟨-, -, -, hnot⟩ := h.taken d' header₂ peer hd'
      exact absurd hpeer (hnot _)
    · obtain ⟨rfl, rfl⟩ := Prod.mk.inj (Option.some.inj hd')
      obtain ⟨-, -, -, hnot⟩ := h.taken d header₁ peer hd
      exact absurd hpeer (hnot _)
    · exact h.once d d' header₁ header₂ e hd hd'
  left d header' hreg := by
    rcases h.left d header' hreg with hd | ⟨e, header'', he⟩
    · by_cases hroom : header'.roomID = header.roomID
      · rw [hroom] at hd
        obtain rfl := Option.mem_unique hpeer hd
        exact .inr ⟨c, header, Function.update_self _ _ _⟩
      · exact .inl ((Function.update_of_ne hroom _ _).trans hd)
    · have hec : e ≠ c := by
        rintro rfl
        rw [hnew] at he
        cases he
      exact .inr ⟨e, header'', (Function.update_of_ne hec _ _).trans he⟩

/-- A connection becomes the one that waits in its room. -/
theorem Discipline.wait (h : Discipline pending registered session)
    (hfree : pending header.roomID = none) (hnew : registered c = none) :
    Discipline (Function.update pending header.roomID (some c))
      (Function.update registered c (some header)) session where
  own room d hd := by
    rw [Function.update_apply] at hd
    split_ifs at hd with hroom
    · obtain rfl := Option.some.inj hd
      exact ⟨header, Function.update_self _ _ _, hroom.symm⟩
    · obtain ⟨header', hreg, hroom'⟩ := h.own room d hd
      have hdc : d ≠ c := by
        rintro rfl
        rw [hnew] at hreg
        cases hreg
      exact ⟨header', (Function.update_of_ne hdc _ _).trans hreg, hroom'⟩
  taken d header' e hd := by
    obtain ⟨header'', hreg, hroom, hnot⟩ := h.taken d header' e hd
    have hec : e ≠ c := by
      rintro rfl
      rw [hnew] at hreg
      cases hreg
    refine ⟨header'', (Function.update_of_ne hec _ _).trans hreg, hroom, fun room hroom' => ?_⟩
    rw [Function.update_apply] at hroom'
    split_ifs at hroom'
    · exact hec (Option.some.inj hroom').symm
    · exact hnot room hroom'
  once := h.once
  left d header' hreg := by
    rw [Function.update_apply] at hreg
    split_ifs at hreg with hdc
    · obtain rfl := Option.some.inj hreg
      exact .inl (hdc ▸ Function.update_self _ _ _)
    · rcases h.left d header' hreg with hd | hd
      · refine .inl ((Function.update_of_ne (fun hroom => ?_) _ _).trans hd)
        rw [hroom, hfree] at hd
        cases hd
      · exact .inr hd

/-- The connection that waits in its room is closed by its timer. -/
theorem Discipline.expire (h : Discipline pending registered session)
    (hmine : pending header.roomID = some c) :
    Discipline (Function.update pending header.roomID none) (Function.update registered c none)
      session where
  own room d hd := by
    rw [Function.update_apply] at hd
    split_ifs at hd with hroom
    obtain ⟨header', hreg, hroom'⟩ := h.own room d hd
    have hdc : d ≠ c := by
      rintro rfl
      exact hroom (h.room_unique hd hmine)
    exact ⟨header', (Function.update_of_ne hdc _ _).trans hreg, hroom'⟩
  taken d header' e hd := by
    obtain ⟨header'', hreg, hroom, hnot⟩ := h.taken d header' e hd
    have hec : e ≠ c := by
      rintro rfl
      exact hnot _ hmine
    refine ⟨header'', (Function.update_of_ne hec _ _).trans hreg, hroom, fun room hroom' => ?_⟩
    rw [Function.update_apply] at hroom'
    split_ifs at hroom'
    exact hnot room hroom'
  once := h.once
  left d header' hreg := by
    rw [Function.update_apply] at hreg
    split_ifs at hreg with hdc
    rcases h.left d header' hreg with hd | hd
    · refine .inl ((Function.update_of_ne (fun hroom => ?_) _ _).trans hd)
      rw [hroom] at hd
      exact hdc (Option.mem_unique hd hmine)
    · exact .inr hd

end Discipline

/-- The invariant, of a state of the relay. -/
def Disciplined (s : RelayHub) : Prop := Discipline s.pending s.registered s.session

theorem disciplined_empty : Disciplined {} :=
  ⟨by simp, by simp [session], by simp [session], by simp [registered]⟩

section Steps

variable {s t : RelayHub} {c : Nat} {stage : Stage}

theorem registered_of (hc : s.conns[c]? = some stage) : s.registered c = stage.registered := by
  rw [registered, hc, Option.bind_some]

theorem session_of (hc : s.conns[c]? = some stage) : s.session c = stage.session := by
  rw [session, hc, Option.bind_some]

theorem registered_goto (hc : s.conns[c]? = some stage) (stage' : Stage) :
    (s.goto c stage').registered = Function.update s.registered c stage'.registered := by
  funext d
  have hlt := (List.getElem?_eq_some_iff.mp hc).1
  by_cases hdc : d = c
  · simp [hdc, registered, goto, List.getElem?_set_self hlt]
  · simp [registered, goto, List.getElem?_set_ne (Ne.symm hdc), Function.update_of_ne hdc]

theorem session_goto (hc : s.conns[c]? = some stage) (stage' : Stage) :
    (s.goto c stage').session = Function.update s.session c stage'.session := by
  funext d
  have hlt := (List.getElem?_eq_some_iff.mp hc).1
  by_cases hdc : d = c
  · simp [hdc, session, goto, List.getElem?_set_self hlt]
  · simp [session, goto, List.getElem?_set_ne (Ne.symm hdc), Function.update_of_ne hdc]

theorem registered_goto_same (hc : s.conns[c]? = some stage) (stage' : Stage)
    (h : stage'.registered = stage.registered) : (s.goto c stage').registered = s.registered := by
  rw [registered_goto hc, h, ← registered_of hc, Function.update_eq_self]

theorem session_goto_same (hc : s.conns[c]? = some stage) (stage' : Stage)
    (h : stage'.session = stage.session) : (s.goto c stage').session = s.session := by
  rw [session_goto hc, h, ← session_of hc, Function.update_eq_self]

/-- A connection that has just been accepted is neither registered nor in a
session. -/
theorem bind_accept {β : Type} (f : Stage → Option β) (hf : f .readingHeader = none) (d : Nat) :
    (s.conns ++ [.readingHeader])[d]?.bind f = s.conns[d]?.bind f := by
  rw [List.getElem?_append]
  split_ifs with hd
  · rfl
  · rw [List.getElem?_eq_none (show s.conns.length ≤ d by omega)]
    rcases Nat.eq_zero_or_pos (d - s.conns.length) with h0 | hpos
    · simp [h0, hf]
    · rw [List.getElem?_eq_none (show [Stage.readingHeader].length ≤ _ from hpos)]

/-- A step of one connection that neither registers it nor starts a session. -/
theorem Disciplined.goto (hs : Disciplined s) (hc : s.conns[c]? = some stage) {stage' : Stage}
    (hregistered : stage'.registered = stage.registered)
    (hsession : stage'.session = stage.session) : Disciplined (s.goto c stage') := by
  rw [Disciplined, registered_goto_same hc _ hregistered, session_goto_same hc _ hsession]
  exact hs

/-- **Every step keeps the invariant.** -/
theorem Disciplined.steps (hs : Disciplined s) {a : Action} (h : Steps s a t) : Disciplined t := by
  cases h with
  | accept =>
      have hregistered : registered { s with conns := s.conns ++ [.readingHeader] } =
          s.registered := funext (bind_accept Stage.registered rfl)
      have hsession : session { s with conns := s.conns ++ [.readingHeader] } = s.session :=
        funext (bind_accept Stage.session rfl)
      rw [Disciplined, hregistered, hsession]
      exact hs
  | read hc => exact hs.goto hc rfl rfl
  | fail hc => exact hs.goto hc rfl rfl
  | @start c peer header hc hpeer =>
      show Discipline _ (s.goto c (.relaying header peer false false)).registered
        (s.goto c (.relaying header peer false false)).session
      rw [registered_goto_same hc (.relaying header peer false false) rfl, session_goto hc]
      exact Discipline.start hs hpeer (session_of hc)
  | @wait c header hc hfree =>
      show Discipline _ (s.goto c (.stored header)).registered (s.goto c (.stored header)).session
      rw [registered_goto hc, session_goto_same hc (.stored header) rfl]
      exact Discipline.wait hs hfree (registered_of hc)
  | arm hc => exact hs.goto hc rfl rfl
  | @expire c header hc hmine =>
      show Discipline _ (s.goto c (.timerRan header true)).registered
        (s.goto c (.timerRan header true)).session
      rw [registered_goto hc, session_goto_same hc (.timerRan header true) rfl]
      exact Discipline.expire hs hmine
  | stale hc => exact hs.goto hc rfl rfl
  | endToPeer hc => exact hs.goto hc rfl rfl
  | endToConn hc => exact hs.goto hc rfl rfl

end Steps

/-! ## What the map promises -/

/-- What may become of a connection. -/
inductive Situation where
  | readingHeader
  | pending
  | inSession
  | shortHeader
  | timedOut

/-- The session that `c` started with `d`. -/
def JoinedBy (s : RelayHub) (c d : Nat) : Prop := ∃ header, s.session c = some (header, d)

/-- The situation of `c`, by its stage and the map. -/
def InSituation (s : RelayHub) (c : Nat) : Situation → Prop
  | .readingHeader => s.conns[c]? = some .readingHeader ∨
      ∃ header, s.conns[c]? = some (.gotHeader header)
  | .pending => ∃ room, s.pending room = some c
  | .inSession => ∃ d, JoinedBy s c d ∨ JoinedBy s d c
  | .shortHeader => s.conns[c]? = some .shortHeader
  | .timedOut => ∃ header, s.conns[c]? = some (.timerRan header true)

/-- The situation that a stage shows. Whether a registered connection still
waits is for the map to say. -/
def situation : Stage → Option Situation
  | .readingHeader | .gotHeader _ => some .readingHeader
  | .shortHeader => some .shortHeader
  | .stored _ | .armed _ | .timerRan _ false => none
  | .timerRan _ true => some .timedOut
  | .relaying _ _ _ _ => some .inSession

/-- What holds of the map at every moment, and of a timer that runs then. -/
structure Orderly (s : RelayHub) : Prop where
  situation : ∀ c < s.conns.length, ∃! x, InSituation s c x
  one_pending : ∀ c d header header', s.header c = some header → s.header d = some header' →
    header.roomID = header'.roomID → InSituation s c .pending → InSituation s d .pending → c = d
  one_session : ∀ a b a' b', JoinedBy s a b → JoinedBy s a' b' →
    a = a' ∨ a = b' ∨ b = a' ∨ b = b' → a = a' ∧ b = b'
  same_room : ∀ a b, JoinedBy s a b → a ≠ b ∧
    ∃ header header', s.header a = some header ∧ s.header b = some header' ∧
      header.roomID = header'.roomID
  timer : ∀ c t, step s (.timer c) = some t →
    t.closed = s.closed ∧ t.pending = s.pending ∨
    t.closed = s.closed ++ [c] ∧ InSituation s c .pending ∧ ¬ InSituation s c .inSession ∧
      ∀ room d, d ≠ c → (t.pending room = some d ↔ s.pending room = some d)

section Orderly

variable {s : RelayHub} {c d : Nat} {stage : Stage}

theorem header_of_registered {header : Header} (h : s.registered c = some header) :
    s.header c = some header := by
  obtain ⟨stage, hc, hstage⟩ := Option.bind_eq_some_iff.mp h
  rw [RelayHub.header, hc, Option.bind_some]
  cases stage with
  | stored _ | armed _ => exact hstage
  | timerRan _ expired =>
      cases expired with
      | true => cases hstage
      | false => exact hstage
  | _ => cases hstage

theorem header_of_session {header : Header} (h : s.session c = some (header, d)) :
    s.header c = some header := by
  obtain ⟨stage, hc, hstage⟩ := Option.bind_eq_some_iff.mp h
  rw [RelayHub.header, hc, Option.bind_some]
  cases stage with
  | relaying _ _ _ _ =>
      obtain ⟨rfl, -⟩ := Prod.mk.inj (Option.some.inj hstage)
      rfl
  | _ => cases hstage

theorem registered_of_session {header : Header} (h : s.session c = some (header, d)) :
    s.registered c = none := by
  obtain ⟨stage, hc, hstage⟩ := Option.bind_eq_some_iff.mp h
  rw [registered_of hc]
  cases stage with
  | relaying _ _ _ _ => rfl
  | _ => cases hstage

theorem Disciplined.registered_of_pending (hs : Disciplined s) (h : InSituation s c .pending) :
    ∃ header, s.registered c = some header := by
  obtain ⟨room, hroom⟩ := h
  obtain ⟨header, hreg, -⟩ := hs.own room c hroom
  exact ⟨header, hreg⟩

theorem Disciplined.registered_of_joined (hs : Disciplined s) (h : JoinedBy s c d) :
    ∃ header, s.registered d = some header := by
  obtain ⟨header, hc⟩ := h
  obtain ⟨header', hreg, -⟩ := hs.taken c header d hc
  exact ⟨header', hreg⟩

/-- Who waits in the map is in no session. -/
theorem Disciplined.not_inSession (hs : Disciplined s) (h : InSituation s c .pending) :
    ¬ InSituation s c .inSession := by
  rintro ⟨d, ⟨header, hc⟩ | ⟨header, hd⟩⟩
  · obtain ⟨header', hreg⟩ := hs.registered_of_pending h
    rw [registered_of_session hc] at hreg
    cases hreg
  · obtain ⟨room, hroom⟩ := h
    obtain ⟨-, -, -, hnot⟩ := hs.taken d header c hd
    exact hnot room hroom

theorem Disciplined.situation_unregistered (hs : Disciplined s) (hc : s.conns[c]? = some stage)
    (hreg : stage.registered = none) (x : Situation) :
    InSituation s c x ↔ situation stage = some x := by
  have hnone : ∀ header, s.registered c ≠ some header := by
    simp [registered_of hc, hreg]
  have hpending : ¬ InSituation s c .pending := fun h =>
    (hs.registered_of_pending h).elim hnone
  have hjoined : ∀ d, ¬ JoinedBy s d c := fun d h => (hs.registered_of_joined h).elim hnone
  have hsession : ∀ d, JoinedBy s c d ↔ ∃ header, stage.session = some (header, d) := by
    simp [JoinedBy, session_of hc]
  cases x with
  | pending =>
      refine iff_of_false hpending ?_
      cases stage with
      | timerRan header expired => cases expired <;> simp [situation]
      | _ => simp [situation]
  | inSession =>
      simp only [InSituation, hsession, hjoined, or_false]
      cases stage with
      | timerRan header expired => cases expired <;> simp [situation, Stage.session]
      | _ => simp [situation, Stage.session]
  | readingHeader | shortHeader | timedOut =>
      simp only [InSituation, hc]
      cases stage with
      | timerRan header expired => cases expired <;> simp [situation]
      | _ => simp [situation]

/-- A registered connection waits or is in a session. -/
theorem Disciplined.situation_registered (hs : Disciplined s) (hc : s.conns[c]? = some stage)
    {header : Header} (hreg : stage.registered = some header) :
    ∃! x, InSituation s c x := by
  have hother : ∀ x, InSituation s c x → x = .pending ∨ x = .inSession := by
    intro x hx
    cases x with
    | pending => exact .inl rfl
    | inSession => exact .inr rfl
    | readingHeader =>
        rcases hx with hx | ⟨header', hx⟩
        · obtain rfl := Option.mem_unique hc hx
          cases hreg
        · obtain rfl := Option.mem_unique hc hx
          cases hreg
    | shortHeader =>
        obtain rfl := Option.mem_unique hc hx
        cases hreg
    | timedOut =>
        obtain ⟨header', hx⟩ := hx
        obtain rfl := Option.mem_unique hc hx
        cases hreg
  have hreg' : s.registered c = some header := (registered_of hc).trans hreg
  rcases hs.left c header hreg' with hpending | ⟨d, header', hd⟩
  · have hmine : InSituation s c .pending := ⟨_, hpending⟩
    refine ⟨.pending, hmine, fun x hx => ?_⟩
    rcases hother x hx with rfl | rfl
    · rfl
    · exact absurd hx (hs.not_inSession hmine)
  · have hmine : InSituation s c .inSession := ⟨d, .inr ⟨header', hd⟩⟩
    refine ⟨.inSession, hmine, fun x hx => ?_⟩
    rcases hother x hx with rfl | rfl
    · exact absurd hmine (hs.not_inSession hx)
    · rfl

theorem Disciplined.situation (hs : Disciplined s) (hc : s.conns[c]? = some stage) :
    ∃! x, InSituation s c x := by
  cases hreg : stage.registered with
  | some header => exact hs.situation_registered hc hreg
  | none =>
      have hiff := hs.situation_unregistered hc hreg
      cases hsit : RelayHub.situation stage with
      | some x =>
          refine ⟨x, (hiff x).mpr hsit, fun y hy => ?_⟩
          exact Option.mem_unique ((hiff y).mp hy) hsit
      | none =>
          cases stage with
          | timerRan header expired =>
              cases expired with
              | true => cases hsit
              | false => cases hreg
          | stored header | armed header => cases hreg
          | _ => cases hsit

/-- The sessions are disjoint. -/
theorem Disciplined.one_session (hs : Disciplined s) {a b a' b' : Nat} (h : JoinedBy s a b)
    (h' : JoinedBy s a' b') (hmeet : a = a' ∨ a = b' ∨ b = a' ∨ b = b') : a = a' ∧ b = b' := by
  have hcross : ∀ {a b d : Nat}, JoinedBy s a b → ¬ JoinedBy s d a := by
    rintro a b d ⟨header, ha⟩ hd
    obtain ⟨header', hreg⟩ := hs.registered_of_joined hd
    rw [registered_of_session ha] at hreg
    cases hreg
  rcases hmeet with rfl | rfl | rfl | rfl
  · obtain ⟨header, ha⟩ := h
    obtain ⟨header', ha'⟩ := h'
    exact ⟨rfl, (Prod.mk.inj (Option.mem_unique ha ha')).2⟩
  · exact absurd h' (hcross h)
  · exact absurd h (hcross h')
  · obtain ⟨header, ha⟩ := h
    obtain ⟨header', ha'⟩ := h'
    exact ⟨hs.once a a' header header' b ha ha', rfl⟩

theorem Disciplined.timer (hs : Disciplined s) {t : RelayHub}
    (h : step s (.timer c) = some t) :
    t.closed = s.closed ∧ t.pending = s.pending ∨
      t.closed = s.closed ++ [c] ∧ InSituation s c .pending ∧ ¬ InSituation s c .inSession ∧
        ∀ room d, d ≠ c → (t.pending room = some d ↔ s.pending room = some d) := by
  cases steps_of_step h with
  | stale hc hother => exact .inl ⟨rfl, rfl⟩
  | @expire _ header hc hmine =>
      have hpending : InSituation s c .pending := ⟨_, hmine⟩
      refine .inr ⟨rfl, hpending, hs.not_inSession hpending, fun room d hd => ?_⟩
      show Function.update s.pending header.roomID none room = some d ↔ _
      rw [Function.update_apply]
      split_ifs with hroom
      · rw [hroom, hmine]
        simp [Ne.symm hd]
      · rfl

theorem Disciplined.orderly (hs : Disciplined s) : Orderly s where
  situation c hc := hs.situation (List.getElem?_eq_getElem hc)
  one_pending := by
    rintro c d header header' hc hd hroom ⟨room, hrc⟩ ⟨room', hrd⟩
    obtain ⟨hdr, hreg, hrc'⟩ := hs.own room c hrc
    obtain ⟨hdr', hreg', hrd'⟩ := hs.own room' d hrd
    obtain rfl := Option.mem_unique (header_of_registered hreg) hc
    obtain rfl := Option.mem_unique (header_of_registered hreg') hd
    rw [← hrc', hroom, hrd', hrd] at hrc
    exact (Option.some.inj hrc).symm
  one_session a b a' b' h h' := hs.one_session h h'
  same_room := by
    rintro a b ⟨header, ha⟩
    obtain ⟨header', hreg, hroom, -⟩ := hs.taken a header b ha
    refine ⟨?_, header, header', header_of_session ha, header_of_registered hreg, hroom.symm⟩
    rintro rfl
    rw [registered_of_session ha] at hreg
    cases hreg
  timer c t := hs.timer

end Orderly

theorem Disciplined.reach {s : RelayHub} (h : Runs.Reach step {} s) : Disciplined s :=
  h.invariant disciplined_empty fun _ _ _ hu hstep => hu.steps (steps_of_step hstep)

/-- **The discipline of the pending map**, at every moment of every run. -/
theorem pending_orderly (s : RelayHub) (h : Runs.Reach step {} s) : Orderly s :=
  (Disciplined.reach h).orderly

def roomHeader (role : UInt8) : Header := #v[49, 50, 51, 52, 53, 54, 55, 56, 57, 48, 49, 50, role]

/-- A room is used again: the timer of its first connection finds the third. -/
def reuseRun : List Action :=
  [.accept, .accept, .accept, .readHeader 0 (some (roomHeader 83)), .pair 0, .afterFunc 0,
    .readHeader 1 (some (roomHeader 82)), .pair 1, .pipeEnd 1 true, .pipeEnd 1 false,
    .readHeader 2 (some (roomHeader 83)), .pair 2, .timer 0]

theorem pending_orderly_reuse :
    ∃ s, Runs.run step {} reuseRun = some s ∧ s.pending (roomHeader 83).roomID = some 2 ∧
      s.closed = [0, 1] ∧ Orderly s :=
  ⟨_, rfl, rfl, rfl, pending_orderly _ (Runs.reach_of_run reuseRun rfl)⟩

end RelayHub

end FastTransfer.Server
