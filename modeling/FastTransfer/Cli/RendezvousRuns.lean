import FastTransfer.Cli.StripedTransfer
import FastTransfer.Cli.Rendezvous

/-!
# A sender and a receiver meet

Two programs that have a room to themselves. Whatever the other clients do and in
whatever order things happen, neither program goes on without the other, they go
on with the same connection info, and nothing but a broken socket can keep them
from it.
-/

namespace FastTransfer.Cli.Rendezvous

open Server (Role)
open Server.Signaling (Message Exchange Hub Sent Attends Opposite Seated Addressed Called Met
  OfServer Peers Carries Steps anywhere peerJoined peerDisconnected)
open Cli.Signaling (SignalMessage ConnectInfo Frame)

/-- The room `r` is for the clients `who` alone, and they are in no other. -/
structure Private (s : Hub) (r : Nat) (who : Role → Nat) : Prop where
  distinct : who .sender ≠ who .receiver
  only : ∀ c role, Attends s anywhere c role r → c = who role
  own : ∀ role role' r', Attends s anywhere (who role) role' r' → r' = r

variable {V : Type}

section Server

variable {s t : Hub} {r : Nat} {who : Role → Nat} {role : Role}

theorem Private.ne (h : Private s r who) (role : Role) : who role ≠ who role.opposite := by
  cases role
  · exact h.distinct
  · exact h.distinct.symm

/-- The room was private before a step if it is after it. -/
theorem Private.back (h : Private t r who)
    (hattends : ∀ c role r, Attends s anywhere c role r → Attends t anywhere c role r) :
    Private s r who where
  distinct := h.distinct
  only c role hc := h.only c role (hattends c role r hc)
  own role role' r' hc := h.own role role' r' (hattends _ role' r' hc)

theorem Private.role_eq (h : Private s r who) {role' : Role} {r' : Nat}
    (hc : Attends s anywhere (who role) role' r') : role' = role ∧ r' = r := by
  obtain rfl := h.own role role' r' hc
  refine ⟨?_, rfl⟩
  rcases role.eq_or_eq_opposite role' with hrole | rfl
  · exact hrole
  · exact absurd (h.only _ _ hc) (h.ne role)

/-- Who is opposite to one of the two is the other one. -/
theorem Private.opposite (h : Private s r who) {c : Nat} (hc : Opposite s c (who role)) :
    c = who role.opposite ∧ Met s r := by
  obtain ⟨role', r', hc, hd⟩ := hc
  obtain ⟨hrole, rfl⟩ := h.role_eq hd
  obtain rfl : role' = role.opposite := by
    rw [← hrole, role'.opposite_opposite]
  refine ⟨h.only c _ hc, ?_⟩
  exact Role.forall_of_opposite ⟨_, hd⟩ ⟨c, by rwa [Role.opposite_opposite]⟩

/-- Once both are there, each stands in the room as the peer of the other. -/
theorem Private.slot (h : Private s r who) (hj : Seated s) (hmet : Met s r) (role : Role) :
    Attends s anywhere (who role) role r ∧
      ∃ room ∈ s.heap[r]?, room.slot role.opposite = some (who role.opposite) := by
  have hall : ∀ role, Attends s anywhere (who role) role r := by
    intro role
    obtain ⟨c, hc⟩ := hmet role
    exact h.only c role hc ▸ hc
  obtain ⟨room, hroom, hslot⟩ := hj.seat _ _ _ (hall role.opposite)
  obtain ⟨c, hc⟩ := Option.ne_none_iff_exists'.mp hslot
  refine ⟨hall role, room, hroom, ?_⟩
  rw [hc, h.only c _ (hj.slots r room _ c hroom hc)]

theorem sent_prefix {a : Server.Signaling.Action} (hsteps : Steps s a t) : s.sent <+: t.sent := by
  cases hsteps with
  | create | connect | createFor | attach => exact List.prefix_rfl
  | @move a h handler pc calls ha hh hmove => exact List.prefix_append s.sent calls
  | @leave h r handler hh hpc =>
      have hsent : s.sent ++ [] = (s.cleanUp handler).sent :=
        (List.append_nil _).trans (Server.Signaling.Hub.sent_cleanUp s handler).symm
      exact ⟨[], hsent⟩

end Server

section Exchange

variable {x y : Exchange} {r : Nat} {who : Role → Nat} {role : Role} {c d : Nat}
  {a : Exchange.Action}

theorem due_eq_nil : x.due d c = [] ↔
    Server.Signaling.passed x.hub c = [] ∧ (x.outbox c).reduceOption = [] := by
  simp [Exchange.due, Server.Signaling.due, Server.Signaling.passed, and_assoc]

/-- Of a client that has sent nothing, nothing is ever on its way. -/
theorem due_nil_step (hstep : Exchange.step x a = some y) (hsends : Exchange.sends c [a] = [])
    (h : x.due d c = []) : y.due d c = [] := by
  obtain ⟨read, hcarries, hread⟩ := Exchange.step_carries hstep c
  obtain ⟨hpassed, hout⟩ := due_eq_nil.mp h
  rw [hout, hsends, List.append_nil, List.append_eq_nil_iff] at hread
  have hsub := hcarries.passed
  rw [hpassed, hread.1, List.append_nil] at hsub
  exact due_eq_nil.mpr ⟨List.sublist_nil.mp hsub, hread.2⟩

/-- Of one of two peers, everything stays on its way to the other. -/
theorem due_step (hj : Seated x.hub) (hprivate : Private x.hub r who) (hmet : Met x.hub r)
    (hstep : Exchange.step x a = some y) (hsends : Exchange.sends (who role) [a] = []) :
    y.due (who role.opposite) (who role) = x.due (who role.opposite) (who role) := by
  obtain ⟨read, hcarries, hread⟩ := Exchange.step_carries hstep (who role)
  obtain ⟨hattends, hslot⟩ := hprivate.slot hj hmet role
  rw [Exchange.due, hcarries.due_of_slot hattends hslot, List.append_assoc, ← List.map_append,
    hread, hsends, List.append_nil, Exchange.due]

end Exchange

/-! ## The invariant -/

section Invariant

variable (json : Json V) (info : ConnectInfo) (offer ready : Message) (who : Role → Nat) (r : Nat)

/-- What a program has got of the server's messages. -/
def heard (x : Session V) (role : Role) : List Message := (inbox who x role).take (x.taken role)

/-- What the server makes of the messages that a program has sent. -/
def wired (x : Session V) (role : Role) : List Message :=
  (x.said role).filterMap fun msg => json.unmarshal (json.toStr msg)

/-- What a program has sent is on its way to the other one. -/
structure Underway (x : Session V) : Prop where
  taken : ∀ role, x.taken role ≤ (inbox who x role).length
  met : ∀ role, x.said role ≠ [] → Met x.exchange.hub r
  due : ∀ role, x.exchange.due (who role.opposite) (who role) =
    (wired json x role).map fun m => ⟨who role.opposite, m, some (who role)⟩

/-- **What every run keeps** in a room that two programs have to themselves. -/
structure Meeting (x : Session V) : Prop extends Underway json who r x where
  sender : x.sendFile.Stage json info ready (x.said .sender) (heard who x .sender)
  receiver : x.receiveFile.Stage json info offer (x.said .receiver) (heard who x .receiver)

variable {json info offer ready who r} {x y z : Session V}

theorem meeting_empty : Meeting json info offer ready who r ({} : Session V) where
  taken role := Nat.le_refl 0
  met role h := absurd rfl h
  due role := by simp [due_eq_nil, wired, Server.Signaling.passed, Server.Signaling.forwards,
    Server.Signaling.held]
  sender := ⟨rfl, by simp [heard, inbox]⟩
  receiver := ⟨rfl, by simp [heard, inbox]⟩

/-- What a program is sent is the server's own, or the other one has sent it. -/
theorem Underway.mem_inbox (h : Underway json who r x)
    (haddressed : Addressed x.exchange.hub) (hcalled : Called x.exchange.hub)
    (hprivate : Private x.exchange.hub r who) {role : Role} {m : Message}
    (hm : m ∈ inbox who x role) :
    Met x.exchange.hub r ∧ (OfServerKind m ∨ m ∈ wired json x role.opposite) := by
  obtain ⟨call, hcall, rfl⟩ := List.mem_map.mp hm
  obtain ⟨hsent, hclient⟩ := List.mem_filter.mp hcall
  have hclient : call.client = who role := of_decide_eq_true hclient
  cases horigin : call.origin with
  | none =>
      obtain ⟨hmessage, d, hd⟩ := hcalled.server call hsent horigin
      rw [hclient] at hd
      exact ⟨(hprivate.opposite hd).2, .inl hmessage⟩
  | some c =>
      have hforward : call ∈ Server.Signaling.forwards x.exchange.hub c :=
        List.mem_filter.mpr ⟨hsent, by simp [horigin]⟩
      have hc := haddressed.sent c call hforward
      rw [hclient] at hc
      obtain ⟨rfl, hmet⟩ := hprivate.opposite hc
      refine ⟨hmet, .inr ?_⟩
      have hdue : call ∈ x.exchange.due (who role.opposite.opposite) (who role.opposite) := by
        rw [Exchange.due, Server.Signaling.due]
        simp [hforward]
      rw [h.due role.opposite] at hdue
      obtain ⟨m', hm', rfl⟩ := List.mem_map.mp hdue
      exact hm'

theorem mem_inbox_of_mem_heard {role : Role} {m : Message} (hm : m ∈ heard who x role) :
    m ∈ inbox who x role := List.mem_of_mem_take hm

theorem mem_wired_sender (hlaw : json.Lawful info offer ready) {m : Message}
    (h : x.sendFile.Stage json info ready (x.said .sender) (heard who x .sender))
    (hm : m ∈ wired json x .sender) :
    m = offer ∧ x.said .sender = [connectInfoMessage json info] := by
  have hsaid : x.said .sender = [] ∨ x.said .sender = [connectInfoMessage json info] := by
    cases hplace : x.sendFile with
    | waitingPeer => exact .inl (hplace ▸ h).1
    | waitingReady => exact .inr (hplace ▸ h).1
    | accepting receiverAddr => exact .inr (hplace ▸ h).1
    | failed e => exact (hplace ▸ h).1
    | panicked => exact (hplace ▸ h).elim
  rcases hsaid with hsaid | hsaid
  · simp [wired, hsaid] at hm
  · refine ⟨?_, hsaid⟩
    simpa [wired, hsaid, hlaw.read_offer] using hm

theorem mem_wired_receiver (hlaw : json.Lawful info offer ready) {m : Message}
    (h : x.receiveFile.Stage json info offer (x.said .receiver) (heard who x .receiver))
    (hm : m ∈ wired json x .receiver) : m = ready ∧ x.receiveFile = .connecting info := by
  cases hplace : x.receiveFile with
  | waitingInfo =>
      have hsaid : x.said .receiver = [] := (hplace ▸ h).1
      simp [wired, hsaid] at hm
  | connecting info' =>
      obtain ⟨hsaid, -, rfl⟩ : _ ∧ _ ∧ _ := hplace ▸ h
      refine ⟨?_, rfl⟩
      simpa [wired, hsaid, hlaw.read_ready] using hm
  | failed e =>
      have hsaid : x.said .receiver = [] := (hplace ▸ h).1
      simp [wired, hsaid] at hm
  | panicked => exact (hplace ▸ h).elim

/-- The receiver answers nobody but the sender. -/
theorem Meeting.offered (h : Meeting json info offer ready who r x)
    (hlaw : json.Lawful info offer ready) (haddressed : Addressed x.exchange.hub)
    (hcalled : Called x.exchange.hub) (hprivate : Private x.exchange.hub r who)
    (hready : ready ∈ inbox who x .sender) :
    x.receiveFile = .connecting info ∧ x.said .sender = [connectInfoMessage json info] := by
  obtain ⟨-, hkind | hwired⟩ := h.mem_inbox haddressed hcalled hprivate hready
  · exact absurd rfl (hlaw.ready_ne hkind)
  · obtain ⟨-, hplace⟩ := mem_wired_receiver hlaw h.receiver hwired
    obtain ⟨-, hoffer, -⟩ : _ ∧ offer ∈ heard who x .receiver ∧ _ := hplace ▸ h.receiver
    obtain ⟨-, hkind | hwired⟩ :=
      h.mem_inbox haddressed hcalled hprivate (mem_inbox_of_mem_heard hoffer)
    · exact absurd rfl (hlaw.offer_ne hkind)
    · exact ⟨hplace, (mem_wired_sender hlaw h.sender hwired).2⟩

/-! ## One step -/

/-- Everything that a step can do. -/
inductive Moves (json : Json V) (info : ConnectInfo) (who : Role → Nat) (x : Session V) :
    Session V → Prop where
  | network {e : Exchange} {a : Exchange.Action} (hstep : Exchange.step x.exchange a = some e)
      (hsends : ∀ role, Exchange.sends (who role) [a] = []) :
      Moves json info who x { x with exchange := e }
  | sender {frame : Frame} {new : List Message} {next : SendFile} {msg : Option (SignalMessage V)}
      (hgets : Gets json (fun m => (inbox who x .sender)[x.taken .sender]? = some m) frame new)
      (hget : sendFile json info frame x.sendFile = some (next, msg)) :
      Moves json info who x { say json who { x with sendFile := next } .sender msg with
        taken := Function.update x.taken .sender (x.taken .sender + new.length) }
  | receiver {frame : Frame} {new : List Message} {next : ReceiveFile}
      {msg : Option (SignalMessage V)}
      (hgets : Gets json (fun m => (inbox who x .receiver)[x.taken .receiver]? = some m) frame new)
      (hget : receiveFile json frame x.receiveFile = some (next, msg)) :
      Moves json info who x { say json who { x with receiveFile := next } .receiver msg with
        taken := Function.update x.taken .receiver (x.taken .receiver + new.length) }

theorem moves_of_get {frame : Frame} {new : List Message} {role : Role}
    (hgets : Gets json (fun m => (inbox who x role)[x.taken role]? = some m) frame new)
    (hget : get json info who x frame role = some z) :
    Moves json info who x
      { z with taken := Function.update x.taken role (x.taken role + new.length) } := by
  cases role with
  | sender =>
      obtain ⟨⟨next, msg⟩, hnext, hz⟩ := Option.bind_eq_some_iff.mp hget
      obtain rfl := Option.some.inj hz
      exact .sender hgets hnext
  | receiver =>
      obtain ⟨⟨next, msg⟩, hnext, hz⟩ := Option.bind_eq_some_iff.mp hget
      obtain rfl := Option.some.inj hz
      exact .receiver hgets hnext

theorem get_taken {frame : Frame} {role : Role} (hget : get json info who x frame role = some z) :
    z.taken = x.taken := by
  cases role with
  | sender | receiver =>
      obtain ⟨⟨next, msg⟩, hnext, hz⟩ := Option.bind_eq_some_iff.mp hget
      obtain rfl := Option.some.inj hz
      rfl

theorem moves_of_step {a : Action} (h : step json info who x a = some y) :
    Moves json info who x y := by
  cases a with
  | network a =>
      cases a with
      | send c frame =>
          simp only [step] at h
          split_ifs at h with hc
          obtain ⟨e, he, rfl⟩ := Option.map_eq_some_iff.mp h
          refine .network he fun role => ?_
          have hne : c ≠ who role := by
            intro heq
            cases role
            · exact hc (.inl heq)
            · exact hc (.inr heq)
          cases frame <;> simp [Exchange.sends, hne]
      | server a | read c =>
          obtain ⟨e, he, rfl⟩ := Option.map_eq_some_iff.mp h
          exact .network he fun role => rfl
  | recv role =>
      obtain ⟨m, hm, h⟩ := Option.bind_eq_some_iff.mp h
      obtain ⟨z, hz, h⟩ := Option.bind_eq_some_iff.mp h
      obtain rfl := Option.some.inj h
      rw [get_taken hz]
      exact moves_of_get (.message m hm) hz
  | breaks role =>
      have hmove := moves_of_get .error h
      rw [List.length_nil, Nat.add_zero, Function.update_eq_self, ← get_taken h] at hmove
      exact hmove

/-- What the programs have got does not change when the server sends more. -/
theorem heard_network {e : Exchange} (hsent : x.exchange.hub.sent <+: e.hub.sent) (role : Role)
    (htaken : x.taken role ≤ (inbox who x role).length) :
    (inbox who x role).length ≤ (inbox who { x with exchange := e } role).length ∧
      heard who { x with exchange := e } role = heard who x role := by
  obtain ⟨calls, hcalls⟩ := hsent
  have hinbox : inbox who { x with exchange := e } role = inbox who x role ++
      (calls.filter (·.client = who role)).map (·.message) := by
    simp [inbox, ← hcalls]
  refine ⟨by simp [hinbox], ?_⟩
  rw [heard, hinbox, List.take_append_of_le_length htaken, heard]

theorem Meeting.network (h : Meeting json info offer ready who r x)
    (hj : Seated x.exchange.hub) (hprivate : Private x.exchange.hub r who) {e : Exchange}
    {a : Exchange.Action} (hstep : Exchange.step x.exchange a = some e)
    (hsends : ∀ role, Exchange.sends (who role) [a] = []) :
    Meeting json info offer ready who r { x with exchange := e } := by
  have hsent : x.exchange.hub.sent <+: e.hub.sent := by
    rcases Exchange.step_steps hstep with hsame | ⟨a', hsteps⟩
    · exact hsame ▸ List.prefix_rfl
    · exact sent_prefix hsteps
  have hmet : Met x.exchange.hub r → Met e.hub r := by
    intro hr
    rcases Exchange.step_steps hstep with hsame | ⟨a', hsteps⟩
    · rwa [hsame]
    · exact hr.steps hsteps
  have hheard := fun role => heard_network hsent role (h.taken role)
  refine ⟨⟨fun role => (h.taken role).trans (hheard role).1,
    fun role hsaid => hmet (h.met role hsaid), fun role => ?_⟩, ?_, ?_⟩
  · by_cases hsaid : x.said role = []
    · have hold : x.exchange.due (who role.opposite) (who role) = [] := by
        rw [h.due role, wired, hsaid]
        rfl
      show e.due _ _ = _
      rw [due_nil_step hstep (hsends role) hold, wired, hsaid]
      rfl
    · exact (due_step hj hprivate (h.met role hsaid) hstep (hsends role)).trans (h.due role)
  · rw [(hheard .sender).2]
    exact h.sender
  · rw [(hheard .receiver).2]
    exact h.receiver

/-- What a program has got with the next message. -/
theorem heard_gets {frame : Frame} {new : List Message} {role : Role}
    (hgets : Gets json (fun m => (inbox who x role)[x.taken role]? = some m) frame new)
    (htaken : x.taken role ≤ (inbox who x role).length) :
    x.taken role + new.length ≤ (inbox who x role).length ∧
      (inbox who x role).take (x.taken role + new.length) = heard who x role ++ new := by
  cases hgets with
  | error => exact ⟨htaken, (List.append_nil _).symm⟩
  | message m hm =>
      refine ⟨(List.getElem?_eq_some_iff.mp hm).1, ?_⟩
      rw [List.length_singleton, List.take_add_one, hm, heard]
      rfl

/-- A program has got a message, and may have answered it. -/
theorem Underway.get (h : Underway json who r x) (hprivate : Private x.exchange.hub r who)
    {frame : Frame} {new : List Message} {role : Role} {msg : Option (SignalMessage V)}
    {p : SendFile} {q : ReceiveFile}
    (hgets : Gets json (fun m => (inbox who x role)[x.taken role]? = some m) frame new)
    (hmet : msg ≠ none → Met x.exchange.hub r) :
    Underway json who r
      { say json who { x with sendFile := p, receiveFile := q } role msg with
        taken := Function.update x.taken role (x.taken role + new.length) } := by
  obtain ⟨hlength, -⟩ := heard_gets hgets (h.taken role)
  have htaken : ∀ role', Function.update x.taken role (x.taken role + new.length) role' ≤
      (inbox who x role').length := by
    intro role'
    by_cases hrole : role' = role
    · subst hrole
      rwa [Function.update_self]
    · rw [Function.update_of_ne hrole]
      exact h.taken role'
  refine ⟨htaken, fun role' hsaid => ?_, fun role' => ?_⟩
  · cases msg with
    | some msg => exact hmet (by simp)
    | none =>
        apply h.met role'
        simpa [say] using hsaid
  · have hdue := h.due role'
    simp only [Exchange.due, wired, say] at hdue ⊢
    by_cases hrole : role' = role
    · subst hrole
      rw [Function.update_self, Function.update_self, List.reduceOption_append, List.map_append,
        ← List.append_assoc, hdue, List.filterMap_append, List.map_append, List.reduceOption,
        List.filterMap_map]
      rfl
    · have hwho : who role' ≠ who role := by
        intro heq
        rcases role.eq_or_eq_opposite role' with hsame | rfl
        · exact hrole hsame
        · exact hprivate.ne role heq.symm
      rw [Function.update_of_ne hwho, Function.update_of_ne hrole, hdue]

theorem msg_of_error_sender {next : SendFile} {msg : Option (SignalMessage V)}
    (hget : sendFile json info .error x.sendFile = some (next, msg)) : msg = none := by
  cases hplace : x.sendFile with
  | waitingPeer | waitingReady =>
      rw [hplace] at hget
      exact (Prod.mk.inj (Option.some.inj hget)).2.symm
  | accepting _ | failed _ | panicked =>
      rw [hplace] at hget
      cases hget

theorem msg_of_error_receiver {next : ReceiveFile} {msg : Option (SignalMessage V)}
    (hget : receiveFile json .error x.receiveFile = some (next, msg)) : msg = none := by
  cases hplace : x.receiveFile with
  | waitingInfo =>
      rw [hplace] at hget
      exact (Prod.mk.inj (Option.some.inj hget)).2.symm
  | connecting _ | failed _ | panicked =>
      rw [hplace] at hget
      cases hget

theorem Gets.imp {p q : Message → Prop} {frame : Frame} {new : List Message}
    (h : Gets json p frame new) (himp : ∀ m, p m → q m) : Gets json q frame new := by
  cases h with
  | error => exact .error
  | message m hm => exact .message m (himp m hm)

/-- The server keeps its invariants. -/
structure Served (s : Hub) : Prop where
  seated : Seated s
  addressed : Addressed s
  called : Called s

theorem Meeting.moves (h : Meeting json info offer ready who r x)
    (hlaw : json.Lawful info offer ready) (hs : Served x.exchange.hub)
    (hprivate : Private x.exchange.hub r who) (hmoves : Moves json info who x y) :
    Meeting json info offer ready who r y := by
  have hinbox : ∀ {role m}, (inbox who x role)[x.taken role]? = some m →
      Met x.exchange.hub r ∧ (OfServerKind m ∨ m ∈ wired json x role.opposite) := fun hm =>
    h.mem_inbox hs.addressed hs.called hprivate (List.mem_of_getElem? hm)
  cases hmoves with
  | network hstep hsends => exact h.network hs.seated hprivate hstep hsends
  | @sender frame new next msg hgets hget =>
      have hmet : msg ≠ none → Met x.exchange.hub r := by
        intro hmsg
        cases hgets with
        | error => exact absurd (msg_of_error_sender hget) hmsg
        | message m hm => exact (hinbox hm).1
      have hoffered := h.offered hlaw hs.addressed hs.called hprivate
      have hstage : next.Stage json info ready (x.said .sender ++ msg.toList)
          (heard who x .sender ++ new) := by
        apply h.sender.get hlaw (hgets.imp fun m hm => ?_) (fun hsaid hready => ?_) hget
        · obtain ⟨-, hkind | hwired⟩ := hinbox hm
          · exact .inl hkind
          · obtain ⟨rfl, -⟩ := mem_wired_receiver hlaw h.receiver hwired
            refine .inr ⟨rfl, ?_⟩
            rw [(hoffered (List.mem_of_getElem? hm)).2]
            simp
        · have hsaid' := (hoffered (mem_inbox_of_mem_heard hready)).2
          rw [hsaid] at hsaid'
          cases hsaid'
      refine ⟨h.toUnderway.get hprivate hgets hmet, ?_, ?_⟩
      · rw [← (heard_gets hgets (h.taken .sender)).2] at hstage
        simpa [heard, inbox, say] using hstage
      · simpa [heard, inbox, say] using h.receiver
  | @receiver frame new next msg hgets hget =>
      have hmet : msg ≠ none → Met x.exchange.hub r := by
        intro hmsg
        cases hgets with
        | error => exact absurd (msg_of_error_receiver hget) hmsg
        | message m hm => exact (hinbox hm).1
      have hstage : next.Stage json info offer (x.said .receiver ++ msg.toList)
          (heard who x .receiver ++ new) := by
        apply h.receiver.get hlaw (hgets.imp fun m hm => ?_) hget
        obtain ⟨-, hkind | hwired⟩ := hinbox hm
        · exact .inl hkind
        · exact .inr (mem_wired_sender hlaw h.sender hwired).1
      refine ⟨h.toUnderway.get hprivate hgets hmet, ?_, ?_⟩
      · simpa [heard, inbox, say] using h.sender
      · rw [← (heard_gets hgets (h.taken .receiver)).2] at hstage
        simpa [heard, inbox, say] using hstage

/-! ## Whole runs -/

theorem served_empty : Served {} where
  seated := Server.Signaling.seated_empty
  addressed := Server.Signaling.addressed_empty
  called := Server.Signaling.called_empty

theorem Served.step {u v : Exchange} (hs : Served u.hub) {a : Exchange.Action}
    (hstep : Exchange.step u a = some v) : Served v.hub := by
  rcases Exchange.step_steps hstep with hsame | ⟨a', hsteps⟩
  · exact hsame ▸ hs
  · refine ⟨hs.seated.steps hsteps, hs.addressed.steps hs.seated hsteps fun c => ?_,
      hs.called.steps hs.seated hsteps⟩
    obtain ⟨read, hcarries, -⟩ := Exchange.step_carries hstep c
    exact ⟨read, hcarries⟩

theorem Moves.attends (hmoves : Moves json info who x y) {c : Nat} {role : Role} {r : Nat}
    (hc : Attends x.exchange.hub anywhere c role r) : Attends y.exchange.hub anywhere c role r := by
  cases hmoves with
  | network hstep hsends =>
      rcases Exchange.step_steps hstep with hsame | ⟨a', hsteps⟩
      · exact hsame ▸ hc
      · exact hsteps.attends hc
  | sender | receiver => exact hc

theorem Moves.served (hmoves : Moves json info who x y) (hs : Served x.exchange.hub) :
    Served y.exchange.hub := by
  cases hmoves with
  | network hstep hsends => exact hs.step hstep
  | sender | receiver => exact hs

theorem meeting_of_reach (hlaw : json.Lawful info offer ready)
    (h : Runs.Reach (step json info who) {} x) :
    Served x.exchange.hub ∧
      (Private x.exchange.hub r who → Meeting json info offer ready who r x) := by
  apply h.invariant ⟨served_empty, fun _ => meeting_empty⟩
  intro u a v hu hstep
  have hmoves := moves_of_step hstep
  refine ⟨hmoves.served hu.1, fun hprivate => ?_⟩
  have hbefore := hprivate.back fun c role r hc => hmoves.attends hc
  exact (hu.2 hbefore).moves hlaw hu.1 hbefore hmoves

/-! ## When nothing is left to do -/

/-- The programs and their handlers have no step left to take. -/
def Settled (json : Json V) (info : ConnectInfo) (who : Role → Nat) (x : Session V) : Prop :=
  ∀ role, x.exchange.Settled (who role) ∧ step json info who x (.recv role) = none

/-- A program that still waits has got all that there is. -/
theorem Settled.heard (h : Settled json info who x) {role : Role}
    (hwaits : ∀ frame, get json info who x frame role ≠ none) :
    heard who x role = inbox who x role := by
  have hrecv := (h role).2
  rw [Rendezvous.heard]
  apply List.take_of_length_le
  cases hm : (inbox who x role)[x.taken role]? with
  | none => exact List.getElem?_eq_none_iff.mp hm
  | some m =>
      obtain ⟨z, hz⟩ := Option.ne_none_iff_exists'.mp (hwaits (.text (json.marshal m)))
      simp [step, hm, hz] at hrecv

theorem waits_sender (hplace : x.sendFile = .waitingPeer ∨ x.sendFile = .waitingReady)
    (frame : Frame) : get json info who x frame .sender ≠ none := by
  rcases hplace with hplace | hplace <;> simp [get, hplace, sendFile]

theorem waits_receiver (hplace : x.receiveFile = .waitingInfo) (frame : Frame) :
    get json info who x frame .receiver ≠ none := by
  simp [get, hplace, receiveFile]

/-- What a program has sent has reached the other one. -/
theorem Meeting.delivered (h : Meeting json info offer ready who r x)
    (hsettled : Settled json info who x) {role : Role}
    (hpeers : Peers x.exchange.hub r role (who role) (who role.opposite)) {m : Message}
    (hm : m ∈ wired json x role) : m ∈ inbox who x role.opposite := by
  have hforwards := Exchange.forwards_settled hpeers (hsettled role).1
  rw [h.due role] at hforwards
  have hcall : ⟨who role.opposite, m, some (who role)⟩ ∈
      Server.Signaling.forwards x.exchange.hub (who role) := by
    rw [hforwards]
    exact List.mem_map_of_mem hm
  have hsent := (List.mem_filter.mp hcall).1
  exact List.mem_map.mpr ⟨_, List.mem_filter.mpr ⟨hsent, by simp⟩, rfl⟩

/-- The sender has been told. -/
theorem Served.told (hs : Served x.exchange.hub) (hprivate : Private x.exchange.hub r who)
    (hsettled : Settled json info who x)
    (hpeers : ∀ role, Peers x.exchange.hub r role (who role) (who role.opposite)) :
    peerJoined "receiver" ∈ inbox who x .sender := by
  have hmet : Met x.exchange.hub r := by
    intro role
    obtain ⟨-, hattends, -⟩ := hpeers role
    exact ⟨_, hattends.imp fun _ _ => rfl⟩
  rcases hs.called.told r hmet with ⟨c, role, hc⟩ | ⟨call, hcall, hmessage, hclient⟩
  · obtain rfl := hprivate.only c role (hc.imp fun _ _ => rfl)
    obtain ⟨handler, hh, hpc⟩ :=
      (hpeers role).reading (Option.map_eq_none_iff.mp (hsettled role).1.1)
    obtain ⟨handler', hh', -, -, hplace⟩ := hc
    obtain rfl := Option.mem_unique hh hh'
    rw [hpc] at hplace
    cases hplace
  · have hwho := hprivate.only _ _ hclient
    exact List.mem_map.mpr ⟨call, List.mem_filter.mpr ⟨hcall, by simp [hwho]⟩, hmessage⟩

end Invariant

/-- The programs agree, as far as they have come. -/
structure Agreed (json : Json V) (info : ConnectInfo) (x : Session V) : Prop where
  sender : ∀ receiverAddr, x.sendFile = .accepting receiverAddr →
    receiverAddr = some "direct" ∧ x.receiveFile = .connecting info
  receiver : ∀ info', x.receiveFile = .connecting info' →
    info' = info ∧ x.said .sender = [connectInfoMessage json info]
  errors : ∀ e, x.sendFile = .failed e ∨ x.receiveFile = .failed e → e = .webSocket
  panics : x.sendFile ≠ .panicked ∧ x.receiveFile ≠ .panicked

section Results

variable {json : Json V} {info : ConnectInfo} {offer ready : Message} {who : Role → Nat} {r : Nat}
  {x : Session V}

theorem Meeting.agreed (h : Meeting json info offer ready who r x)
    (hlaw : json.Lawful info offer ready) (hs : Served x.exchange.hub)
    (hprivate : Private x.exchange.hub r who) : Agreed json info x where
  sender receiverAddr hplace := by
    obtain ⟨-, hready, haddr⟩ : _ ∧ ready ∈ heard who x .sender ∧ _ := hplace ▸ h.sender
    exact ⟨haddr, (h.offered hlaw hs.addressed hs.called hprivate
      (mem_inbox_of_mem_heard hready)).1⟩
  receiver info' hplace := by
    obtain ⟨-, hoffer, hinfo⟩ : _ ∧ offer ∈ heard who x .receiver ∧ _ := hplace ▸ h.receiver
    obtain ⟨-, hkind | hwired⟩ :=
      h.mem_inbox hs.addressed hs.called hprivate (mem_inbox_of_mem_heard hoffer)
    · exact absurd rfl (hlaw.offer_ne hkind)
    · exact ⟨hinfo, (mem_wired_sender hlaw h.sender hwired).2⟩
  errors e hplace := by
    rcases hplace with hplace | hplace
    · exact (hplace ▸ h.sender).2
    · exact (hplace ▸ h.receiver).2
  panics := by
    refine ⟨fun hplace => ?_, fun hplace => ?_⟩
    · have hstage := h.sender
      rwa [hplace] at hstage
    · have hstage := h.receiver
      rwa [hplace] at hstage

/-- When nothing is left to do, the two have met. -/
theorem Meeting.ended (h : Meeting json info offer ready who r x)
    (hlaw : json.Lawful info offer ready) (hs : Served x.exchange.hub)
    (hprivate : Private x.exchange.hub r who) (hsettled : Settled json info who x)
    (hpeers : ∀ role, Peers x.exchange.hub r role (who role) (who role.opposite))
    (hsockets : ∀ e, x.sendFile ≠ .failed e ∧ x.receiveFile ≠ .failed e) :
    x.sendFile = .accepting (some "direct") ∧ x.receiveFile = .connecting info := by
  have hagreed := h.agreed hlaw hs hprivate
  cases hplace : x.sendFile with
  | waitingPeer =>
      -- it has got all that there is, and it has been told
      have htold := hs.told hprivate hsettled hpeers
      rw [← hsettled.heard (waits_sender (.inl hplace))] at htold
      exact absurd htold (hplace ▸ h.sender).2
  | waitingReady =>
      have hsender : _ ∧ ready ∉ heard who x .sender := hplace ▸ h.sender
      have hoffer : offer ∈ inbox who x .receiver :=
        h.delivered hsettled (hpeers .sender) (by simp [wired, hsender.1, hlaw.read_offer])
      cases hplace' : x.receiveFile with
      | waitingInfo =>
          rw [← hsettled.heard (waits_receiver hplace')] at hoffer
          exact absurd hoffer (hplace' ▸ h.receiver).2
      | connecting info' =>
          have hreceiver : x.said .receiver = [readyMessage json] := (hplace' ▸ h.receiver).1
          have hready : ready ∈ inbox who x .sender :=
            h.delivered hsettled (hpeers .receiver) (by simp [wired, hreceiver, hlaw.read_ready])
          rw [← hsettled.heard (waits_sender (.inr hplace))] at hready
          exact absurd hready hsender.2
      | failed e => exact absurd hplace' (hsockets e).2
      | panicked => exact absurd hplace' hagreed.panics.2
  | accepting receiverAddr =>
      obtain ⟨rfl, hreceiver⟩ := hagreed.sender receiverAddr hplace
      exact ⟨rfl, hreceiver⟩
  | failed e => exact absurd hplace (hsockets e).1
  | panicked => exact absurd hplace hagreed.panics.1

end Results

/-- **The sender and the receiver meet.** In every run, with any other clients of
the server and in any order: two programs with a room to themselves agree, the
sender does not go on before the receiver has its connection info, and nothing
stops them but their sockets. When they and their handlers have no step left, both
connected and no socket broken, both have gone on to the streams. -/
theorem programs_meet {json : Json V} {info : ConnectInfo} {offer ready : Message}
    (hlaw : json.Lawful info offer ready) (who : Role → Nat) (r : Nat) (x : Session V)
    (hx : Runs.Reach (step json info who) {} x) (hprivate : Private x.exchange.hub r who) :
    Agreed json info x ∧
      (Settled json info who x →
        (∀ role, Peers x.exchange.hub r role (who role) (who role.opposite)) →
        (∀ e, x.sendFile ≠ .failed e ∧ x.receiveFile ≠ .failed e) →
        x.sendFile = .accepting (some "direct") ∧ x.receiveFile = .connecting info) := by
  obtain ⟨hs, hmeeting⟩ := meeting_of_reach hlaw hx
  have h := hmeeting hprivate
  exact ⟨h.agreed hlaw hs hprivate, fun hsettled hpeers hsockets =>
    h.ended hlaw hs hprivate hsettled hpeers hsockets⟩

/-! ## The file of one byte -/

def oneByteInfo : ConnectInfo where
  addr := "0.0.0.0"
  port := 9900
  fileHeader := Striped.oneByteHeader

/-- The keys are in the order of `serde_json::Value`, which is also Go's. -/
def oneBytePayload : String :=
  "\x7b\"addr\":\"0.0.0.0\",\"file_header\":\x7b\"checksum\":\"" ++
    Striped.oneByteHeader.checksum ++
    "\",\"chunk_size\":1048576,\"name\":\"a\",\"num_streams\":8,\"size\":1," ++
    "\"total_chunks\":1\x7d,\"port\":9900\x7d"

def oneByteOffer : Message := { type := "connect-info", payload := oneBytePayload }

def directReady : Message := { type := "ready", payload := "\"direct\"" }

/-- The text of a message with a payload. -/
def textOf (type payload : String) : String :=
  "\x7b\"type\":\"" ++ type ++ "\",\"payload\":" ++ payload ++ "\x7d"

/-- The values are connection infos and strings. -/
def oneByteMessages : Json (ConnectInfo ⊕ String) where
  marshal m :=
    if m = peerDisconnected then "\x7b\"type\":\"peer-disconnected\"\x7d"
    else if m.type = "peer-joined" then textOf m.type ("\"" ++ m.payload ++ "\"")
    else textOf m.type m.payload
  unmarshal text :=
    if text = textOf "connect-info" oneBytePayload then some oneByteOffer
    else if text = textOf "ready" "\"direct\"" then some directReady
    else none
  toStr msg :=
    match msg.payload with
    | some (.inl _) => textOf msg.msgType oneBytePayload
    | some (.inr string) => textOf msg.msgType ("\"" ++ string ++ "\"")
    | none => ""
  fromStr text :=
    if text = "\x7b\"type\":\"peer-disconnected\"\x7d" then some ⟨"peer-disconnected", none, none⟩
    else if text = textOf "peer-joined" "\"receiver\"" then
      some ⟨"peer-joined", some (.inr "receiver"), none⟩
    else if text = textOf "peer-joined" "\"sender\"" then
      some ⟨"peer-joined", some (.inr "sender"), none⟩
    else if text = textOf "connect-info" oneBytePayload then
      some ⟨"connect-info", some (.inl oneByteInfo), none⟩
    else if text = textOf "ready" "\"direct\"" then some ⟨"ready", some (.inr "direct"), none⟩
    else none
  toValue := .inl
  fromValue := Sum.getLeft?
  string := .inr
  asStr := Sum.getRight?

theorem oneByte_lawful : oneByteMessages.Lawful oneByteInfo oneByteOffer directReady where
  joined := by decide +kernel
  disconnected := by decide +kernel
  read_offer := by decide +kernel
  parse_offer := by decide +kernel
  read_ready := by decide +kernel
  parse_ready := by decide +kernel
  value := rfl
  string := rfl
  checksum := by decide +kernel

/-- The sender is the first client, the receiver the second. -/
def firstTwo : Role → Nat
  | .sender => 0
  | .receiver => 1

/-- `n` steps of the handler of the client `c`. -/
def handles (c n : Nat) : List Action := List.replicate n (.network (.server (.handle c)))

/-- The receiver comes second, and so its handler tells both. -/
def meetRun : List Action := List.flatten
  [[.network (.server (.createRoom "POST" "room")), .network (.server (.connect "room" "sender"))],
    handles 0 4, [.network (.server (.connect "room" "receiver"))], handles 1 6,
    [.recv .sender, .recv .receiver, .network (.read 0)], handles 0 2,
    [.recv .receiver, .network (.read 1)], handles 1 2, [.recv .sender]]

def metEnd : Option (Session (ConnectInfo ⊕ String)) :=
  Runs.run (step oneByteMessages oneByteInfo firstTwo) {} meetRun

theorem private_of_two {s : Hub} {name : String} (h : s.handlers =
    [⟨name, .sender, .reading 0⟩, ⟨name, .receiver, .reading 0⟩]) : Private s 0 firstTwo where
  distinct := by decide
  only c role hc := by
    obtain ⟨handler, hh, rfl, -⟩ := hc
    rw [h] at hh
    match c with
    | 0 => exact Option.some.inj hh ▸ rfl
    | 1 => exact Option.some.inj hh ▸ rfl
    | c + 2 => cases hh
  own role role' r' hc := by
    obtain ⟨handler, hh, -, hr, -⟩ := hc
    rw [h] at hh
    cases role
    · obtain rfl := Option.some.inj hh
      exact (Option.some.inj hr).symm
    · obtain rfl := Option.some.inj hh
      exact (Option.some.inj hr).symm

/-- At the end nothing is left to do. -/
theorem metEnd_settled : ∃ x, metEnd = some x ∧ Private x.exchange.hub 0 firstTwo ∧
    Settled oneByteMessages oneByteInfo firstTwo x ∧
    (∀ role, Peers x.exchange.hub 0 role (firstTwo role) (firstTwo role.opposite)) ∧
    ∀ e, x.sendFile ≠ .failed e ∧ x.receiveFile ≠ .failed e := by
  have hsome : metEnd.isSome = true := by decide +kernel
  obtain ⟨x, hx⟩ := Option.isSome_iff_exists.mp hsome
  have hhandlers : metEnd.map (·.exchange.hub.handlers) =
      some [⟨"room", .sender, .reading 0⟩, ⟨"room", .receiver, .reading 0⟩] := by decide +kernel
  have hnone : ∀ role ∈ [Role.sender, Role.receiver], ∀ x ∈ metEnd,
      (Exchange.step x.exchange (.server (.handle (firstTwo role)))).isNone ∧
        (Exchange.step x.exchange (.read (firstTwo role))).isNone ∧
        (step oneByteMessages oneByteInfo firstTwo x (.recv role)).isNone := by decide +kernel
  have hpeers : ∀ role ∈ [Role.sender, Role.receiver], ∀ x ∈ metEnd,
      Peers x.exchange.hub 0 role (firstTwo role) (firstTwo role.opposite) := by decide +kernel
  have hplaces : metEnd.map (fun x => (x.sendFile, x.receiveFile)) =
      some (.accepting (some "direct"), .connecting oneByteInfo) := by decide +kernel
  have hroles : ∀ role, role ∈ [Role.sender, Role.receiver] := by
    intro role
    cases role <;> decide
  rw [hx] at hhandlers hplaces
  obtain ⟨hsender, hreceiver⟩ := Prod.mk.inj (Option.some.inj hplaces)
  refine ⟨x, hx, private_of_two (Option.some.inj hhandlers), fun role => ?_, fun role =>
    hpeers role (hroles role) x hx, fun e => ⟨?_, ?_⟩⟩
  · obtain ⟨hhandle, hread, hrecv⟩ := hnone role (hroles role) x hx
    simp only [Option.isNone_iff_eq_none] at hhandle hread hrecv
    exact ⟨⟨hhandle, hread⟩, hrecv⟩
  · simp [hsender]
  · simp [hreceiver]

theorem programs_meet_oneByteFile : ∃ x, metEnd = some x ∧
    Agreed oneByteMessages oneByteInfo x ∧ x.sendFile = .accepting (some "direct") ∧
    x.receiveFile = .connecting oneByteInfo := by
  obtain ⟨x, hx, hprivate, hsettled, hpeers, hsockets⟩ := metEnd_settled
  obtain ⟨hagreed, hend⟩ := programs_meet oneByte_lawful firstTwo 0 x
    (Runs.reach_of_run meetRun hx) hprivate
  exact ⟨x, hx, hagreed, hend hsettled hpeers hsockets⟩

end FastTransfer.Cli.Rendezvous
