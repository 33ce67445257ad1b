import FastTransfer.Server.RelayOrder

/-!
# The connections of one key

What the connections of the relay have asked for, and what follows for the messages
of connections whose key nobody else asks for.
-/

namespace FastTransfer.Server

namespace RelayWSHub

/-- What the connections have asked for, in the order in which they were accepted. -/
def requests (s : RelayWSHub) : List Request := s.handlers.map (·.request)

section Requests

variable {s t : RelayWSHub} {c h p : Nat} {role : Role}

@[simp] theorem length_requests (s : RelayWSHub) : s.requests.length = s.handlers.length :=
  List.length_map _

/-- A handler keeps its request. -/
theorem requests_handle (hstep : s.handleRelayWS h = some t) : t.requests = s.requests := by
  obtain ⟨handler, hh, hsteps⟩ := steps_of_handle hstep
  have hset : ∃ pc, t.handlers = s.handlers.set h { handler with pc } := by
    rcases hsteps.pair with ⟨-, rfl⟩ | ⟨pc, ht, -⟩
    · exact ⟨_, by rw [RelayWSHub.goto, handlers_getOrCreatePair]⟩
    · exact ⟨pc, ht⟩
  obtain ⟨pc, ht⟩ := hset
  have hget : s.requests[h]? = some handler.request := by
    rw [requests, List.getElem?_map, hh]
    rfl
  obtain ⟨hlt, hget⟩ := List.getElem?_eq_some_iff.mp hget
  calc
    t.requests = s.requests.set h handler.request := by rw [requests, ht, List.map_set, requests]
    _ = s.requests := by rw [← hget, List.set_getElem_self]

theorem requests_connect {q : Query} (hstep : step s (.connect q) = some t) :
    ∃ r, q.request = some r ∧ t.requests = s.requests ++ [r] := by
  obtain ⟨r, hr, rfl⟩ := Option.map_eq_some_iff.mp hstep
  exact ⟨r, hr, by simp [requests]⟩

/-- The connections of a pair have asked for its key. -/
theorem Keyed.request {keyOf : Nat → String} (hs : Keyed keyOf s) (hc : Member s p role c) :
    ∃ r, s.requests[c]? = some r ∧ r.role = role ∧ r.key = keyOf p := by
  obtain ⟨handler, hc, rfl, hp⟩ := hc
  refine ⟨handler.request, ?_, rfl, ?_⟩
  · rw [requests, List.getElem?_map, hc]
    rfl
  · exact hs.shared handler (List.mem_of_getElem? hc) p (Pc.pair_of_joined hp)

end Requests

end RelayWSHub

namespace RelayTraffic

open RelayWSHub

variable {x y : RelayTraffic} {c d h : Nat}

/-- No turn changes what has been asked for. -/
theorem requests_turn (hturn : x.turn h = some y) : y.hub.requests = x.hub.requests := by
  obtain ⟨-, -, -, -, -, -, -, -, hsame | hstep⟩ := turn_eq hturn
  · rw [hsame]
  · exact requests_handle hstep

/-- Who sends and who gets a message have asked for the same key, in opposite roles. -/
theorem Carried.ends {queries : Set Query} (hx : Carried queries x) {f : Forwarded}
    (hf : f ∈ x.forwarded) :
    ∃ r r', x.hub.requests[f.source]? = some r ∧ x.hub.requests[f.destination]? = some r' ∧
      r'.role = r.role.opposite ∧ r.key = r'.key := by
  obtain ⟨keyOf, hkeyed⟩ := hx.keyed
  obtain ⟨p, role, hsrc, hdst⟩ := hx.messages f hf
  obtain ⟨r, hr, hrole, hkey⟩ := hkeyed.request hsrc
  obtain ⟨r', hr', hrole', hkey'⟩ := hkeyed.request hdst
  exact ⟨r, r', hr, hr', by rw [hrole, hrole'], by rw [hkey, hkey']⟩

/-- Nothing is sent or got by connections that are yet to come. -/
theorem Carried.taken_eq_nil {queries : Set Query} (hx : Carried queries x)
    (hc : x.hub.handlers.length ≤ c) : x.takenFrom c = [] ∧ x.takenFor c = [] := by
  rw [← length_requests] at hc
  have hnone : x.hub.requests[c]? = none := List.getElem?_eq_none hc
  constructor
  · rw [takenFrom, List.map_eq_nil_iff, List.filter_eq_nil_iff]
    intro f hf hsrc
    obtain ⟨r, r', hr, -⟩ := hx.ends hf
    rw [of_decide_eq_true hsrc, hnone] at hr
    cases hr
  · rw [takenFor, List.map_eq_nil_iff, List.filter_eq_nil_iff]
    intro f hf hdst
    obtain ⟨r, r', -, hr', -⟩ := hx.ends hf
    rw [of_decide_eq_true hdst, hnone] at hr'
    cases hr'

end RelayTraffic

end FastTransfer.Server
