import FastTransfer.Server.RelayMeeting
import FastTransfer.Web.RelayedTransfer

/-!
# The transfer through the server completes

The pages and the server when nothing of theirs fails: once no step is left, every
frame has gone through the relay, and both pages have completed the transfer. Other
clients come, go and fail as they like.
-/

namespace FastTransfer.Web

open Server (Role Request Reading RelayWSHub RelayTraffic messages)
open Server.RelayWSHub (Reserved Tended)

/-- The handler is in its loop. -/
def looping : Server.Pc → Bool
  | .relaying _ _ _ => true
  | _ => false

theorem looping_eq_false {pc : Server.Pc} (h : looping pc = false) (p : Nat)
    (src dst : Option Nat) : pc ≠ .relaying p src dst := by
  rintro rfl
  cases h

namespace Relayed

/-- Nothing fails: no step of the sender, no connection of the pages and no loop of
their relays. -/
def Unbroken (cfg : Config) (room : String) (x : Relayed) : Action → Prop
  | .sender a => Sender.FailureFree a
  | .accept _ _ => (x.relay.destinations x.relay.hub.handlers.length).opsLeft = none
  | .relay (.hub (.handle h)) => ∀ handler ∈ x.relay.hub.handlers[h]?,
      (∃ i < cfg.numRelay, handler.request.key = key room i) → looping handler.pc = false
  | .relay (.hub (.connect _)) | .relay (.arrive _ _) | .relay (.turn _) | .arrive _ _
  | .deliver _ => True

instance decidableUnbroken (cfg : Config) (room : String) (x : Relayed) :
    (a : Action) → Decidable (Unbroken cfg room x a)
  | .sender a => inferInstanceAs (Decidable (Sender.FailureFree a))
  | .accept _ _ => inferInstanceAs
      (Decidable ((x.relay.destinations x.relay.hub.handlers.length).opsLeft = none))
  | .relay (.hub (.handle h)) => inferInstanceAs
      (Decidable (∀ handler ∈ x.relay.hub.handlers[h]?,
        (∃ i < cfg.numRelay, handler.request.key = key room i) → looping handler.pc = false))
  | .relay (.hub (.connect _)) | .relay (.arrive _ _) | .relay (.turn _) | .arrive _ _
  | .deliver _ => inferInstanceAs (Decidable True)

/-- **What every such run keeps**, besides `Connected`. -/
structure Unfailing (cfg : Config) (file : File) (room : String) (x : Relayed) : Prop where
  working : Sender.Working file x.sender
  tended : Tended x.relay.hub
  reserved : ∀ i < cfg.numRelay, Reserved (key room i) x.relay.hub
  works : ∀ role i d, x.conns role i = some d → (x.relay.destinations d).opsLeft = none
  /-- The receiving page sends nothing over its relays. -/
  silent : ∀ i d, x.conns .receiver i = some d → x.relay.incoming d = []

section Steps

variable {cfg : Config} {file : File} {room : String} {json : Json} {x y : Relayed} {i c d : Nat}

theorem unfailing_start (cfg : Config) (file : File) (room : String)
    (destinations : Nat → Server.Destination) :
    Unfailing cfg file room (start cfg file destinations) where
  working := Sender.working_start cfg file
  tended := Server.RelayWSHub.tended_empty
  reserved i _ := Server.RelayWSHub.reserved_empty (key room i)
  works := by simp [start]
  silent := by simp [start]

theorem Connected.oneEach (hx : Connected cfg room json x) (hi : i < cfg.numRelay) :
    Server.RelayWSHub.OneEach (key room i) x.relay.hub := by
  intro c d r r' hr hr' hkey hkey' hrole
  have hc := hx.only c r i hr hi hkey
  have hd := hx.only d r' i hr' hi hkey'
  rw [← hrole, hc] at hd
  exact Option.some.inj hd

/-- The hub goes on. -/
theorem Unfailing.hub (hu : Unfailing cfg file room x) {s : RelayWSHub} (htended : Tended s)
    (hreserved : ∀ i < cfg.numRelay, Reserved (key room i) s) :
    Unfailing cfg file room { x with relay := { x.relay with hub := s } } :=
  ⟨hu.working, htended, hreserved, hu.works, hu.silent⟩

theorem reserved_connect {s t : RelayWSHub} {q : Server.Query} {key : String}
    (hs : Reserved key s) (hstep : RelayWSHub.step s (.connect q) = some t) : Reserved key t := by
  obtain ⟨request, -, rfl⟩ := Option.map_eq_some_iff.mp hstep
  exact hs.connect request

theorem Unfailing.accept (hu : Unfailing cfg file room x) (hx : Connected cfg room json x)
    {role : Role} {s : RelayWSHub} (hworks : (x.relay.destinations
      x.relay.hub.handlers.length).opsLeft = none)
    (hstep : RelayWSHub.step x.relay.hub (.connect (query room role i)) = some s) :
    Unfailing cfg file room { x with
      relay := { x.relay with hub := s }
      conns := x.setConn role i x.relay.hub.handlers.length } where
  working := hu.working
  tended := hu.tended.step hstep
  reserved j hj := reserved_connect (hu.reserved j hj) hstep
  works role' j d hd := by
    rcases setConn_cases hd with ⟨-, -, rfl⟩ | hold
    · exact hworks
    · exact hu.works role' j d hold
  silent j d hd := by
    rcases setConn_cases hd with ⟨-, -, rfl⟩ | hold
    · exact (hx.unused _ (Nat.le_refl _)).1
    · exact hu.silent j d hold

/-- Something arrives that the receiving page has not sent. -/
theorem Unfailing.arrive (hu : Unfailing cfg file room x) {reader : Reading} {relay : RelayTraffic}
    (hc : ∀ i, x.conns .receiver i ≠ some c)
    (hstep : x.relay.step (.arrive c reader) = some relay) (arrived : Nat → Nat) :
    Unfailing cfg file room { x with relay, arrived } := by
  obtain rfl := Option.some.inj hstep
  refine ⟨hu.working, hu.tended, hu.reserved, hu.works, fun i d hd => ?_⟩
  have hne : d ≠ c := by
    rintro rfl
    exact hc i hd
  simpa only [Function.update_of_ne hne] using hu.silent i d hd

/-- The ends of a loop of relay `i` are connections of relay `i`. -/
theorem Connected.ends (hx : Connected cfg room json x) {h p : Nat} {src dst : Option Nat}
    {handler : Server.Handler} (hi : i < cfg.numRelay)
    (hh : x.relay.hub.handlers[h]? = some handler) (hkey : handler.request.key = key room i)
    (hpc : handler.pc = .relaying p src dst) :
    (∀ c ∈ src, x.conns handler.request.role i = some c) ∧
      ∀ d ∈ dst, x.conns handler.request.role.opposite i = some d := by
  obtain ⟨keyOf, hkeyed⟩ := hx.carried.keyed
  have hmem := List.mem_of_getElem? hh
  obtain ⟨hsrc, hdst⟩ := hkeyed.ends handler hmem p _ _ hpc
  have hpair : keyOf p = key room i :=
    (hkeyed.shared handler hmem p (by rw [hpc]; rfl)).symm.trans hkey
  have hconn : ∀ {role c}, RelayWSHub.Member x.relay.hub p role c → x.conns role i = some c := by
    intro role c hc
    obtain ⟨r, hr, rfl, hrkey⟩ := hkeyed.request hc
    exact hx.only c r i hr hi (hrkey.trans hpair)
  exact ⟨fun c hc => hconn (hsrc c hc), fun d hd => hconn (hdst d hd)⟩

/-- A loop of the pages goes on. -/
theorem Unfailing.goesOn (hu : Unfailing cfg file room x) (hx : Connected cfg room json x)
    {h p src dst : Nat} {handler : Server.Handler} {reader : Reading} {rest : List Reading}
    (hi : i < cfg.numRelay) (hh : x.relay.hub.handlers[h]? = some handler)
    (hkey : handler.request.key = key room i)
    (hpc : handler.pc = .relaying p (some src) (some dst))
    (hincoming : x.relay.incoming src = reader :: rest) :
    (Server.relayTurn reader (x.relay.destinations dst)).1 = true := by
  obtain ⟨hsrc, hdst⟩ := hx.ends hi hh hkey hpc
  have hsrc' := hsrc src rfl
  have hdst' := hdst dst rfl
  cases hrole : handler.request.role with
  | sender =>
      rw [hrole] at hsrc'
      have hwhole := hx.whole i src hsrc' reader (by simp [hincoming])
      exact Server.relayTurn_goesOn hwhole (hu.works _ i dst hdst')
  | receiver =>
      rw [hrole] at hsrc'
      rw [hu.silent i src hsrc'] at hincoming
      cases hincoming

theorem Unfailing.turn (hu : Unfailing cfg file room x) (hx : Connected cfg room json x) {h : Nat}
    {relay : RelayTraffic} (hturn : x.relay.turn h = some relay) :
    Unfailing cfg file room { x with relay } := by
  obtain ⟨-, -, src, dst, reader, rest, -, -, hin, hin', hdestinations, -⟩ :=
    RelayTraffic.turn_taken hturn
  obtain ⟨handler, p, src', dst', reader', rest', hh, hpc, hincoming, hhub⟩ :=
    RelayTraffic.turn_hub hturn
  obtain ⟨keyOf, hkeyed⟩ := hx.carried.keyed
  have hends : RelayWSHub.Steps x.relay.hub h handler (x.relay.hub.goto h handler (.relayed p)) :=
    .relayEnd hpc
  refine ⟨hu.working, ?_, fun i hi => ?_, fun role i d hd => ?_, fun i d hd => ?_⟩
  · simp only [hhub]
    split
    · exact hu.tended
    · exact hu.tended.step_handle hh hends
  · simp only [hhub]
    by_cases hkey : handler.request.key = key room i
    · rw [if_pos (hu.goesOn hx hi hh hkey hpc hincoming)]
      exact hu.reserved i hi
    · split
      · exact hu.reserved i hi
      · exact (hu.reserved i hi).other hx.carried.joined hkeyed hh hkey hends
  · have hworks := hu.works role i d hd
    simp only [hdestinations]
    by_cases hdd : d = dst
    · subst hdd
      rw [Function.update_self]
      exact Server.relayTurn_works hworks
    · rwa [Function.update_of_ne hdd]
  · have hsilent := hu.silent i d hd
    have hne : d ≠ src := by
      rintro rfl
      rw [hin] at hsilent
      cases hsilent
    simp only [hin']
    rwa [Function.update_of_ne hne]

/-- **Every step keeps it.** -/
theorem Unfailing.step (hu : Unfailing cfg file room x) (hx : Connected cfg room json x)
    {a : Action} (hok : Undisturbed cfg room x a) (hunbroken : Unbroken cfg room x a)
    (hstep : step cfg file room json x a = some y) : Unfailing cfg file room y := by
  cases a with
  | sender a =>
      simp only [Relayed.step] at hstep
      split_ifs at hstep
      obtain ⟨s, hs, rfl⟩ := Option.map_eq_some_iff.mp hstep
      exact ⟨hu.working.step hunbroken (Sender.step_iff.mp hs), hu.tended, hu.reserved, hu.works,
        hu.silent⟩
  | accept role i =>
      simp only [Relayed.step] at hstep
      split_ifs at hstep
      obtain ⟨relay, hrelay, rfl⟩ := Option.map_eq_some_iff.mp hstep
      obtain ⟨s, hs, rfl⟩ := Option.map_eq_some_iff.mp hrelay
      exact hu.accept hx hunbroken hs
  | arrive i reader =>
      obtain ⟨c, hc, hstep⟩ := Option.bind_eq_some_iff.mp hstep
      obtain ⟨f, -, hstep⟩ := Option.bind_eq_some_iff.mp hstep
      split_ifs at hstep
      obtain ⟨relay, hrelay, rfl⟩ := Option.map_eq_some_iff.mp hstep
      apply hu.arrive _ hrelay
      intro j hj
      have hrequest := Option.mem_unique (hx.conn _ _ _ hc).2 (hx.conn _ _ _ hj).2
      cases congrArg Request.role hrequest
  | relay a =>
      obtain ⟨relay, hrelay, rfl⟩ := Option.map_eq_some_iff.mp hstep
      rcases a with (q | h) | ⟨c, reader⟩ | h
      · obtain ⟨s, hs, rfl⟩ := Option.map_eq_some_iff.mp hrelay
        exact hu.hub (hu.tended.step hs) fun i hi => reserved_connect (hu.reserved i hi) hs
      · obtain ⟨s, hs, rfl⟩ := Option.map_eq_some_iff.mp hrelay
        obtain ⟨keyOf, hkeyed⟩ := hx.carried.keyed
        obtain ⟨handler, hh, hsteps⟩ := Server.RelayWSHub.steps_of_handle hs
        refine hu.hub (hu.tended.step_handle hh hsteps) fun i hi => ?_
        apply (hu.reserved i hi).step_handle hx.carried.joined hkeyed (hx.oneEach hi) hh _ hsteps
        exact fun hkey => looping_eq_false (hunbroken handler hh ⟨i, hi, hkey⟩)
      · apply hu.arrive _ hrelay
        intro i hi
        exact (hok.2 i (hx.conn _ _ _ hi).1).2 hi
      · exact hu.turn hx hrelay
  | deliver t =>
      have hsame : y.sender = x.sender ∧ y.relay = x.relay ∧ y.conns = x.conns := by
        simp only [Relayed.step] at hstep
        split_ifs at hstep
        · obtain ⟨d, -, hstep⟩ := Option.bind_eq_some_iff.mp hstep
          obtain ⟨m, -, hstep⟩ := Option.bind_eq_some_iff.mp hstep
          obtain rfl := Option.some.inj hstep
          exact ⟨rfl, rfl, rfl⟩
        · obtain ⟨f, -, hstep⟩ := Option.bind_eq_some_iff.mp hstep
          obtain rfl := Option.some.inj hstep
          exact ⟨rfl, rfl, rfl⟩
      obtain ⟨hsender, hrelay, hconns⟩ := hsame
      exact ⟨hsender ▸ hu.working, hrelay ▸ hu.tended, hrelay ▸ hu.reserved,
        hrelay ▸ hconns ▸ hu.works, hrelay ▸ hconns ▸ hu.silent⟩

theorem sending_of_working (h : Sender.Working file x.sender) : Sender.Sending file x.sender :=
  ⟨⟨[], h.owned⟩, fun tr htr => (h.healthy tr htr).frames⟩

theorem unfailing_of_reach
    (hjson : json.parse (json.stringify (fileInfo file)) = some (fileInfo file))
    {destinations : Nat → Server.Destination} (hfresh : ∀ d, (destinations d).delivered = [])
    (h : Runs.ReachWhen (step cfg file room json)
      (fun x a => Undisturbed cfg room x a ∧ Unbroken cfg room x a)
      (start cfg file destinations) x) :
    Connected cfg room json x ∧ Unfailing cfg file room x := by
  apply h.invariant ⟨connected_start cfg file room json hfresh,
    unfailing_start cfg file room destinations⟩
  rintro u a v ⟨hx, hu⟩ ⟨hok, hunbroken⟩ hs
  obtain ⟨hy, -⟩ := hx.step hjson (sending_of_working hu.working) hok hs
  exact ⟨hy, hu.step hx hok hunbroken hs⟩

end Steps

/-! ## The final states -/

/-- No step of the pages and of their relays is left but failures and the opening of
further transports. -/
structure Final (cfg : Config) (file : File) (room : String) (json : Json) (x : Relayed) :
    Prop where
  sender : ∀ a, Sender.FailureFree a → (∀ t, a ≠ .onopen t) →
    step cfg file room json x (.sender a) = none
  accept : ∀ role i, step cfg file room json x (.accept role i) = none
  arrive : ∀ i reader, step cfg file room json x (.arrive i reader) = none
  handlers : ∀ i < cfg.numRelay, ∀ (h : Nat) (handler : Server.Handler),
    x.relay.hub.handlers[h]? = some handler → handler.request.key = key room i →
      looping handler.pc = false → step cfg file room json x (.relay (.hub (.handle h))) = none
  turns : ∀ i < cfg.numRelay, ∀ (h : Nat) (handler : Server.Handler),
    x.relay.hub.handlers[h]? = some handler → handler.request.key = key room i →
      step cfg file room json x (.relay (.turn h)) = none
  deliver : ∀ t, step cfg file room json x (.deliver t) = none

section Final

variable {cfg : Config} {file : File} {room : String} {json : Json} {x : Relayed} {i : Nat}

/-- The server has accepted all relays. -/
theorem Final.accepted (h : Final cfg file room json x) (hroom : room ≠ "") (hi : i < cfg.numRelay)
    (role : Role) : ∃ c, x.conns role i = some c := by
  cases hconn : x.conns role i with
  | some c => exact ⟨c, rfl⟩
  | none =>
      have hnone := h.accept role i
      have hquery : (query room role i).request = some (request room role i) := by
        cases role <;> simp [query, Server.Query.request, request, roleParam, hroom]
      simp [step, hi, hconn, RelayTraffic.step, RelayWSHub.step, hquery] at hnone

/-- The loop of relay `i` has nothing left to forward. -/
theorem Final.incoming (h : Final cfg file room json x) (hx : Connected cfg room json x)
    (hu : Unfailing cfg file room x) (hroom : room ≠ "") (hi : i < cfg.numRelay) {c : Nat}
    (hc : x.conns .sender i = some c) : x.relay.incoming c = [] := by
  obtain ⟨who, hwho⟩ : ∃ who : Role → Nat, ∀ role, x.conns role i = some (who role) :=
    ⟨_, fun role => (h.accepted hroom hi role).choose_spec⟩
  obtain rfl := Option.mem_unique (hwho .sender) hc
  obtain ⟨keyOf, hkeyed⟩ := hx.carried.keyed
  have hwaiting : Server.RelayWSHub.Waiting (key room i) x.relay.hub := by
    intro k handler hk hkey hnot
    have hloop : looping handler.pc = false := by
      cases hpc : handler.pc with
      | relaying p src dst => exact absurd hpc (hnot p src dst)
      | _ => rfl
    have hnone := h.handlers i hi k handler hk hkey hloop
    simpa [step, RelayTraffic.step, RelayWSHub.step] using hnone
  obtain ⟨handler, p, hh, hpc⟩ := (hu.reserved i hi).relays hx.carried.joined hu.tended hkeyed
    (hx.oneEach hi) hwaiting (fun role => ⟨_, (hx.conn _ _ _ (hwho role)).2, rfl, rfl⟩) .sender
  have hkey : handler.request.key = key room i := by
    have hreq := (hx.conn _ _ _ (hwho .sender)).2
    rw [RelayWSHub.requests, List.getElem?_map, hh] at hreq
    exact congrArg Request.key (Option.some.inj hreq)
  have hnone := h.turns i hi _ handler hh hkey
  cases hin : x.relay.incoming (who .sender) with
  | nil => rfl
  | cons reader rest =>
      simp [step, RelayTraffic.step, RelayTraffic.turn, hh, hpc, hin] at hnone

/-- Everything that has left relay `i` has come out of the server. -/
theorem Final.through (h : Final cfg file room json x) (hx : Connected cfg room json x)
    (hu : Unfailing cfg file room x) (hroom : room ≠ "") (hi : i < cfg.numRelay) :
    ∃ d, x.conns .receiver i = some d ∧
      (x.relay.destinations d).delivered = (x.sender.out i).map (·.onWire json) := by
  obtain ⟨c, hc⟩ := h.accepted hroom hi .sender
  obtain ⟨d, hd⟩ := h.accepted hroom hi .receiver
  obtain ⟨hle, hsent⟩ := hx.sent i c hc
  have harrived : x.arrived i = (x.sender.out i).length := by
    by_contra hne
    have hlt : x.arrived i < (x.sender.out i).length := by omega
    have hnone := h.arrive i (inOnePiece ((x.sender.out i)[x.arrived i].onWire json))
    simp [step, hc, List.getElem?_eq_getElem hlt, inOnePiece, RelayTraffic.step] at hnone
  have hworks : ¬ (x.relay.destinations d).Dead := by
    rw [Server.Destination.Dead, hu.works _ _ _ hd]
    simp [Server.Allows]
  refine ⟨d, hd, ?_⟩
  calc
    (x.relay.destinations d).delivered = x.relay.takenFor d :=
      (hx.inOrder i d hd).all.resolve_right hworks
    _ = x.relay.takenFrom c := hx.taken hc hd
    _ = x.relay.takenFrom c ++ messages (x.relay.incoming c) := by
      rw [h.incoming hx hu hroom hi hc]
      exact (List.append_nil _).symm
    _ = (x.sender.out i).map (·.onWire json) := by rw [hsent, harrived, List.take_length]

/-- Everything that has left a transport has been handled by the receiver. -/
theorem Final.delivered (h : Final cfg file room json x) (hx : Connected cfg room json x)
    (hu : Unfailing cfg file room x) (hroom : room ≠ "") (t : Nat) :
    (x.sender.out t).length ≤ x.delivered t := by
  by_contra hlt
  have hlt : x.delivered t < (x.sender.out t).length := by omega
  have hnone := h.deliver t
  by_cases ht : t < cfg.numRelay
  · obtain ⟨d, hd, hthrough⟩ := h.through hx hu hroom ht
    simp [step, ht, hd, hthrough, List.getElem?_eq_getElem hlt] at hnone
  · simp [step, ht, List.getElem?_eq_getElem hlt] at hnone

theorem Final.sender_step (h : Final cfg file room json x) {a : Sender.Action}
    (hok : Sender.FailureFree a) (hne : ∀ t, a ≠ .onopen t) :
    Sender.step cfg file x.sender a = none := by
  have hnone := h.sender a hok hne
  have haccepted : x.unaccepted cfg a = false := by
    cases a with
    | onopen t => exact absurd rfl (hne t)
    | _ => rfl
  simpa [step, haccepted] using hnone

/-- Every frame has left the buffers. -/
theorem Final.buffer (h : Final cfg file room json x) (hu : Unfailing cfg file room x) :
    ∀ tr ∈ x.sender.transports, tr.buffer = [] := by
  intro tr htr
  by_contra hne
  obtain ⟨t, ht⟩ := List.mem_iff_getElem?.mp htr
  have hopen : tr.readyState = .opened :=
    (hu.working.healthy tr htr).opened.resolve_right fun hfresh => hne (by rw [hfresh])
  obtain ⟨q, rest, hbuffer⟩ := List.exists_cons_of_ne_nil hne
  obtain ⟨tr', hdrain⟩ : ∃ tr', tr.drain = some tr' := by
    simp only [Transport.drain, hbuffer]
    split_ifs
    · exact ⟨_, rfl⟩
    · exact ⟨_, rfl⟩
  have hok : Sender.FailureFree (.drain t) := trivial
  have hnone := h.sender_step hok (by simp)
  simp [Sender.step, ht, hopen, hdrain] at hnone

/-- Every chunk has been sent. -/
theorem Final.sent (h : Final cfg file room json x) (hu : Unfailing cfg file room x)
    (hopen : ∃ tr ∈ x.sender.transports, tr.readyState = .opened) :
    x.sender.sentIndices.Perm (List.range (totalChunks file)) := by
  apply hu.working.sent _ hopen
  apply Sender.atWork_eq_false
  intro t ev hev
  have hok : Sender.FailureFree (.pump t ev) := hev
  exact h.sender_step hok (by simp)

/-- Every chunk has arrived. -/
theorem Final.arrived (h : Final cfg file room json x) (hx : Connected cfg room json x)
    (hu : Unfailing cfg file room x) (hroom : room ≠ "")
    (hopen : ∃ tr ∈ x.sender.transports, tr.readyState = .opened) :
    ∀ i < totalChunks file, x.transfer.Arrived i := by
  intro i hi
  have hsent : i ∈ x.sender.sentIndices :=
    (h.sent hu hopen).mem_iff.mpr (List.mem_range.mpr hi)
  obtain ⟨tr, htr, hmem⟩ := List.mem_flatMap.mp hsent
  rw [Transport.handed, h.buffer hu tr htr, List.map_nil, List.append_nil] at hmem
  obtain ⟨f, hf, hidx⟩ := List.mem_filterMap.mp hmem
  obtain ⟨t, ht⟩ := List.mem_iff_getElem?.mp htr
  refine ⟨t, f, ?_, hidx⟩
  show f ∈ (x.sender.out t).take (x.delivered t)
  rwa [List.take_of_length_le (h.delivered hx hu hroom t), Sender.out_of_some ht]

/-- The sender has called `onComplete`. -/
theorem Final.onCompleteCalls (h : Final cfg file room json x) (hu : Unfailing cfg file room x)
    (hopen : ∃ tr ∈ x.sender.transports, tr.readyState = .opened)
    (hpos : 0 < totalChunks file) : x.sender.onCompleteCalls = 1 := by
  have hown := hu.working.owned
  have hsent : x.sender.sentChunks = totalChunks file := by
    rw [hown.sentChunks_eq, (h.sent hu hopen).length_eq, List.length_range]
  have hfired := hown.done (show 0 < x.sender.sentChunks by omega) (hsent.trans hown.total.symm)
  have hwaits : ¬ 0 < x.sender.drainWaits := by
    intro hwait
    have hok : Sender.FailureFree .pollDrain := trivial
    have hnone := h.sender_step hok (by simp)
    simp [Sender.step, hwait] at hnone
  have hcalls := hown.completions
  rw [hfired, Bool.toNat_true] at hcalls
  omega

/-- A state is final when all relays are accepted and loop, nothing waits in buffers or
at the server, and what has left a transport has been handled. -/
theorem final_of_idle (hx : Connected cfg room json x)
    (hidle : ∀ tr ∈ x.sender.transports,
      (tr.pump = .notStarted ∨ tr.pump = .ended) ∧ tr.buffer = [])
    (hwaits : x.sender.drainWaits = 0)
    (haccepted : ∀ i < cfg.numRelay, x.conns .sender i ≠ none ∧ x.conns .receiver i ≠ none)
    (harrived : ∀ i < cfg.numRelay, (x.sender.out i).length ≤ x.arrived i)
    (hloops : ∀ handler ∈ x.relay.hub.handlers, ∀ i < cfg.numRelay,
      handler.request.key = key room i → looping handler.pc = true)
    (hincoming : ∀ i < cfg.numRelay, (∀ c ∈ x.conns .sender i, x.relay.incoming c = []) ∧
      ∀ c ∈ x.conns .receiver i, x.relay.incoming c = [])
    (hdelivered : ∀ t < x.sender.transports.length, (x.sender.out t).length ≤ x.delivered t) :
    Final cfg file room json x := by
  have hnext : ∀ t, (x.sender.out t).length ≤ x.delivered t := by
    intro t
    by_cases ht : t < x.sender.transports.length
    · exact hdelivered t ht
    · have hnone : x.sender.transports[t]? = none := List.getElem?_eq_none (Nat.le_of_not_lt ht)
      simp [Sender.out, hnone]
  refine ⟨fun a hok hne => ?_, fun role i => ?_, fun i reader => ?_,
    fun i hi h handler hh hkey hpc => ?_, fun i hi h handler hh hkey => ?_, fun t => ?_⟩
  · have hnone : Sender.step cfg file x.sender a = none :=
      Sender.step_eq_none_of_idle hidle hwaits hok hne
    simp [step, hnone]
  · simp only [step]
    split_ifs with hguard
    · obtain ⟨hsender, hreceiver⟩ := haccepted i hguard.1
      cases role with
      | sender => exact absurd hguard.2 hsender
      | receiver => exact absurd hguard.2 hreceiver
    · rfl
  · cases hc : x.conns .sender i with
    | none => simp [step, hc]
    | some c =>
        have hle := harrived i (hx.conn _ _ _ hc).1
        simp [step, hc, List.getElem?_eq_none hle]
  · have htrue := hloops handler (List.mem_of_getElem? hh) i hi hkey
    rw [hpc] at htrue
    cases htrue
  · cases hturn : x.relay.turn h with
    | none => simp [step, RelayTraffic.step, hturn]
    | some y =>
        obtain ⟨handler', p, src, dst, reader, rest, hh', hpc, hin, -⟩ :=
          RelayTraffic.turn_hub hturn
        obtain rfl := Option.mem_unique hh hh'
        have hsrc := (hx.ends hi hh hkey hpc).1 src rfl
        obtain ⟨hsender, hreceiver⟩ := hincoming i hi
        have hempty : x.relay.incoming src = [] := by
          cases hrole : handler.request.role with
          | sender => exact hsender src (hrole ▸ hsrc)
          | receiver => exact hreceiver src (hrole ▸ hsrc)
        rw [hempty] at hin
        cases hin
  · simp only [step]
    split_ifs
    · cases hd : x.conns .receiver t with
      | none => rfl
      | some d =>
          have hle := (hx.delivered hd).length_le
          rw [List.length_map] at hle
          simp [List.getElem?_eq_none (hle.trans (hnext t))]
    · simp [List.getElem?_eq_none (hnext t)]

end Final

/-- **The transfer through the server completes**: whatever other clients do, in every
run without failures of the pages and of their relays in which the file-info comes
first, once no step is left and a transport has opened, the receiver has written the
whole file, of at least one byte and at most 2 ^ 32 chunks, and both pages have
completed the transfer once. -/
theorem relayed_transfer_completes (cfg : Config) (file : File) (h32 : totalChunks file ≤ 2 ^ 32)
    (hsize : 0 < file.size) (room : String) (hroom : room ≠ "") (json : Json)
    (hjson : json.parse (json.stringify (fileInfo file)) = some (fileInfo file))
    (destinations : Nat → Server.Destination) (hfresh : ∀ d, (destinations d).delivered = [])
    (x : Relayed) (h : Runs.ReachWhen (step cfg file room json)
      (fun x a => Undisturbed cfg room x a ∧ InfoFirst x a ∧ Unbroken cfg room x a)
      (start cfg file destinations) x)
    (hfinal : Final cfg file room json x)
    (hopen : ∃ tr ∈ x.sender.transports, tr.readyState = .opened) :
    Transfer.Complete file x.transfer := by
  have hpos : 0 < totalChunks file := Nat.pos_of_ne_zero fun hzero => by
    rw [File.size, totalChunks_eq_zero.mp hzero] at hsize
    simp at hsize
  obtain ⟨hx, hu⟩ := unfailing_of_reach hjson hfresh (h.mono fun _ _ hok => ⟨hok.1, hok.2.2⟩)
  have hsafe := safe_of_reach h32 hjson hfresh (h.mono fun _ _ hok => ⟨hok.1, hok.2.1⟩)
  have hdone := hsafe.completed_iff.mpr ⟨hpos, hfinal.arrived hx hu hroom hopen⟩
  obtain ⟨hlength, hwritten⟩ := hsafe.completed hdone
  exact ⟨hwritten, hfinal.onCompleteCalls hu hopen hpos, hlength⟩

/-- The file of one byte has gone through relay 0; relay 1 is accepted, and has not
opened. -/
def completedRun : List Action :=
  relayedRun ++ [.accept .sender 1, .accept .receiver 1] ++
    [1, 3, 3, 4, 4, 4, 3, 3, 4].map (fun h => .relay (.hub (.handle h))) ++ [.sender .pollDrain]

def completedEnd : Option Relayed :=
  Runs.run (step oneByteRelays oneByteFile "room" oneByteTexts)
    (start oneByteRelays oneByteFile fun _ => { opsLeft := none }) completedRun

theorem relayed_transfer_completes_oneByteFile :
    ∃ x ∈ completedEnd, Transfer.Complete oneByteFile x.transfer := by
  have hsome : completedEnd.isSome := by decide +kernel
  have hmeets : Runs.Meets (step oneByteRelays oneByteFile "room" oneByteTexts)
      (fun x a => Undisturbed oneByteRelays "room" x a ∧ InfoFirst x a ∧
        Unbroken oneByteRelays "room" x a)
      (start oneByteRelays oneByteFile fun _ => { opsLeft := none }) completedRun := by
    decide +kernel
  have hidle : ∀ x ∈ completedEnd, (∀ tr ∈ x.sender.transports,
      (tr.pump = .notStarted ∨ tr.pump = .ended) ∧ tr.buffer = []) ∧
      x.sender.drainWaits = 0 ∧ (∃ tr ∈ x.sender.transports, tr.readyState = .opened) := by
    decide +kernel
  have hrelays : ∀ x ∈ completedEnd, ∀ i < 2,
      (x.conns .sender i ≠ none ∧ x.conns .receiver i ≠ none) ∧
      (x.sender.out i).length ≤ x.arrived i ∧ (∀ handler ∈ x.relay.hub.handlers,
        handler.request.key = key "room" i → looping handler.pc = true) ∧
      (∀ c ∈ x.conns .sender i, x.relay.incoming c = []) ∧
      ∀ c ∈ x.conns .receiver i, x.relay.incoming c = [] := by
    decide +kernel
  have hdelivered : ∀ x ∈ completedEnd, ∀ t < x.sender.transports.length,
      (x.sender.out t).length ≤ x.delivered t := by
    decide +kernel
  obtain ⟨x, hx⟩ := Option.isSome_iff_exists.mp hsome
  obtain ⟨hpumps, hwaits, hopen⟩ := hidle x hx
  have hreach := Runs.reachWhen_of_run completedRun hx hmeets
  obtain ⟨hconnected, -⟩ := unfailing_of_reach parse_oneByteText (fun _ => rfl)
    (hreach.mono fun _ _ hok => ⟨hok.1, hok.2.2⟩)
  refine ⟨x, hx, relayed_transfer_completes oneByteRelays oneByteFile (by decide) (by decide) "room"
    (by decide) oneByteTexts parse_oneByteText (fun _ => { opsLeft := none }) (fun _ => rfl) x
    hreach (final_of_idle hconnected hpumps hwaits (fun i hi => (hrelays x hx i hi).1)
      (fun i hi => (hrelays x hx i hi).2.1)
      (fun handler hmem i hi => (hrelays x hx i hi).2.2.1 handler hmem)
      (fun i hi => (hrelays x hx i hi).2.2.2) (hdelivered x hx)) hopen⟩

end Relayed

end FastTransfer.Web
