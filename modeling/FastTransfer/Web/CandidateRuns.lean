import FastTransfer.Web.Candidates

/-!
# Candidates are applied once

For an index with one description, where its candidates are at each await, and
that they have all come to its connection when the calls have returned.
-/

namespace FastTransfer.Web.Candidates

variable {κ : Type*}

open Engine

/-! ## Between two awaits -/

/-- `pc` has been given its remote description, and after it these candidates. -/
def applied (cs : List κ) : List (Given κ) := .remoteDescription :: cs.map .iceCandidate

/-- The connection is described, and has been given all of `received` but `todo`. -/
structure Gave (conn : Connection κ) (todo received : List κ) : Prop where
  described : conn.remoteDescriptionSet = true
  given : ∃ cs, conn.pc = applied cs ∧ (cs ++ todo).Perm received

/-- Where the candidates received for an index are, while the call that describes
its connection is at an await, and when it has returned. -/
def Carries (conn : Connection κ) (globals : Option (List κ)) (received : List κ) :
    Call κ → Prop
  | .handle type _ _ .remoteDescription =>
      conn.remoteDescriptionSet = false ∧ conn.pc = [] ∧ (type = .answer → globals = none) ∧
        (globals.getD [] ++ conn.pendingCandidates).Perm received
  | .handle _ _ _ (.globalPending rest) => Gave conn (rest ++ conn.pendingCandidates) received
  | .handle _ _ _ (.pending rest) => globals = none ∧ Gave conn rest received
  | .handle _ _ _ .createAnswer | .handle _ _ _ .localDescription | .returned =>
      globals = none ∧ conn.pendingCandidates = [] ∧ Gave conn [] received
  | .addIceCandidate => False

section Carries

variable {conn : Connection κ} {globals : Option (List κ)} {rs todo cs : List κ}
  {call : Call κ} {c : κ} {e : Engine κ} {i p : Nat} {type : SdpType}

/-- The next candidate of a loop. -/
theorem Gave.next (h : Gave conn (c :: todo) rs) :
    Gave { conn with pc := conn.pc ++ [.iceCandidate c] } todo rs := by
  obtain ⟨cs, hpc, hperm⟩ := h.given
  refine ⟨h.described, cs ++ [c], ?_, by simpa using hperm⟩
  rw [hpc, applied, applied, List.map_append]
  rfl

/-- A candidate that has just been received. -/
theorem Gave.receive (h : Gave conn todo rs) (c : κ) :
    Gave { conn with pc := conn.pc ++ [.iceCandidate c] } todo (rs ++ [c]) := by
  apply Gave.next
  obtain ⟨cs, hpc, hperm⟩ := h.given
  refine ⟨h.described, cs, hpc, ?_⟩
  exact List.perm_middle.trans (hperm.cons c) |>.trans (List.perm_append_singleton c rs).symm

/-- A described connection is given the candidate at once. -/
theorem Carries.receive (h : Carries conn globals rs call)
    (hset : conn.remoteDescriptionSet = true) (c : κ) :
    Carries { conn with pc := conn.pc ++ [.iceCandidate c] } globals (rs ++ [c]) call := by
  cases call with
  | handle type j p w =>
      cases w with
      | remoteDescription => exact absurd hset (by simp [h.1])
      | globalPending rest => exact Gave.receive h c
      | pending rest => exact ⟨h.1, h.2.receive c⟩
      | createAnswer | localDescription => exact ⟨h.1, h.2.1, h.2.2.receive c⟩
  | addIceCandidate => exact h
  | returned => exact ⟨h.1, h.2.1, h.2.2.receive c⟩

/-- Before that it waits. -/
theorem Carries.wait (h : Carries conn globals rs call)
    (hset : conn.remoteDescriptionSet = false) (c : κ) :
    Carries { conn with pendingCandidates := conn.pendingCandidates ++ [c] } globals
      (rs ++ [c]) call := by
  have hnot : ∀ {todo}, ¬ Gave conn todo rs := fun hgave => by
    rw [hgave.described] at hset
    cases hset
  cases call with
  | handle type j p w =>
      cases w with
      | remoteDescription =>
          refine ⟨h.1, h.2.1, h.2.2.1, ?_⟩
          rw [← List.append_assoc]
          exact h.2.2.2.append_right [c]
      | globalPending rest => exact absurd h hnot
      | pending rest => exact absurd h.2 hnot
      | createAnswer | localDescription => exact absurd h.2.2 hnot
  | addIceCandidate => exact h
  | returned => exact absurd h.2.2 hnot

/-- What a call leaves behind at its next await. -/
def Leaves (i p : Nat) (rs : List κ) (x : Engine κ × Call κ) : Prop :=
  ∃ conn, x.1.heap[p]? = some conn ∧ Carries conn (x.1.globalPendingIce i) rs x.2

theorem leaves_applyPending (hconn : e.heap[p]? = some conn)
    (hglobals : e.globalPendingIce i = none) (hgave : Gave conn cs rs) :
    Leaves i p rs (e.applyPending type i p cs) := by
  cases cs with
  | nil =>
      refine ⟨_, heap_modify_self hconn, ?_⟩
      cases type with
      | offer => exact ⟨hglobals, rfl, hgave.described, hgave.given⟩
      | answer => exact ⟨hglobals, rfl, hgave.described, hgave.given⟩
  | cons c rest => exact ⟨_, heap_modify_self hconn, hglobals, hgave.next⟩

theorem leaves_afterGlobal (hconn : e.heap[p]? = some conn)
    (hglobals : e.globalPendingIce i = none) (hgave : Gave conn conn.pendingCandidates rs) :
    Leaves i p rs (e.afterGlobal type i p) := by
  rw [afterGlobal, hconn]
  exact leaves_applyPending hconn hglobals hgave

theorem leaves_applyGlobal (hconn : e.heap[p]? = some conn)
    (hgave : Gave conn (cs ++ conn.pendingCandidates) rs) :
    Leaves i p rs (e.applyGlobal type i p cs) := by
  cases cs with
  | nil =>
      have hdeleted : Function.update e.globalPendingIce i none i = none := by
        rw [Function.update_self]
      exact leaves_afterGlobal hconn hdeleted hgave
  | cons c rest => exact ⟨_, heap_modify_self hconn, hgave.next⟩

theorem leaves_settled {w : Awaits κ} {fulfilled : Bool} (hconn : e.heap[p]? = some conn)
    (h : Carries conn (e.globalPendingIce i) rs (.handle type i p w))
    (hok : w = .remoteDescription → fulfilled = true) :
    Leaves i p rs (e.settled type i p fulfilled w) := by
  cases w with
  | remoteDescription =>
      obtain ⟨-, hpc, hanswer, hperm⟩ := h
      rw [hok rfl]
      show Leaves i p rs ((e.describe p).described type i p)
      have hconn' : (e.describe p).heap[p]? = some { conn with
          remoteDescriptionSet := true, pc := conn.pc ++ [.remoteDescription] } :=
        heap_modify_self hconn
      have happlied : conn.pc ++ [.remoteDescription] = applied [] := by
        rw [hpc]
        rfl
      unfold described
      split
      · rename_i candidates hglobals
        replace hglobals : e.globalPendingIce i = some candidates := hglobals
        rw [hglobals] at hperm
        exact leaves_applyGlobal hconn' ⟨rfl, [], happlied, hperm⟩
      · rename_i hglobals
        replace hglobals : e.globalPendingIce i = none := hglobals
        rw [hglobals] at hperm
        exact leaves_afterGlobal hconn' hglobals ⟨rfl, [], happlied, hperm⟩
      · have hglobals := hanswer rfl
        rw [hglobals] at hperm
        exact leaves_afterGlobal hconn' hglobals ⟨rfl, [], happlied, hperm⟩
  | globalPending rest => exact leaves_applyGlobal hconn h
  | pending rest => exact leaves_applyPending hconn h.1 h.2
  | createAnswer =>
      cases fulfilled with
      | true => exact ⟨conn, hconn, h⟩
      | false => exact ⟨conn, hconn, h⟩
  | localDescription => exact ⟨conn, hconn, h⟩

end Carries

/-! ## Runs -/

/-- The call that describes the connection of an index is still to come: `handleOffer`
makes the connection, `handleAnswer` finds it. -/
def Waiting (type : SdpType) (i : Nat) (rs : List κ) (e : Engine κ) : Prop :=
  e.callsOf i = [] ∧
    match type with
    | .offer => e.connection i = none ∧ (e.globalPendingIce i).getD [] = rs
    | .answer =>
        ∃ p, e.connection i = some p ∧
          e.heap[p]? = some { index := i, pendingCandidates := rs } ∧
          e.globalPendingIce i = none

/-- It has come; it is the only such call. -/
def Served (i : Nat) (rs : List κ) (e : Engine κ) : Prop :=
  ∃ p conn call, e.connection i = some p ∧ e.heap[p]? = some conn ∧ conn.index = i ∧
    (call = .returned ∨ ∃ type w, call = .handle type i p w) ∧
    e.callsOf i = [call].filter (fun call => call.index = some i) ∧
    Carries conn (e.globalPendingIce i) rs call

/-- The handler for a description of this type. -/
def SdpType.handler (i : Nat) : SdpType → Action κ
  | .offer => .handleOffer i
  | .answer => .handleAnswer i

/-- The calls of `handleOffer` and `handleAnswer` for an index. -/
def Action.describes (i : Nat) : Action κ → Bool
  | .handleOffer j | .handleAnswer j => j = i
  | .addIceCandidate _ _ | .settle _ _ => false

/-- The candidate that comes for an index. -/
def Action.candidate (i : Nat) : Action κ → Option κ
  | .addIceCandidate j candidate => if j = i then candidate else none
  | .handleOffer _ | .handleAnswer _ | .settle _ _ => none

/-- The call awaits `setRemoteDescription`. -/
def Call.describing : Call κ → Bool
  | .handle _ _ _ .remoteDescription => true
  | .handle _ _ _ _ | .addIceCandidate | .returned => false

/-- `setRemoteDescription` succeeds. -/
def DescriptionsSet (e : Engine κ) : Action κ → Prop
  | .settle n fulfilled => e.calls[n]?.any Call.describing → fulfilled = true
  | .handleOffer _ | .handleAnswer _ | .addIceCandidate _ _ => True

instance (e : Engine κ) : (a : Action κ) → Decidable (DescriptionsSet e a)
  | .settle n fulfilled =>
      inferInstanceAs (Decidable (e.calls[n]?.any Call.describing → fulfilled = true))
  | .handleOffer _ | .handleAnswer _ | .addIceCandidate _ _ => inferInstanceAs (Decidable True)

section Index

variable {e e' : Engine κ} {a : Action κ} {i : Nat} {type : SdpType} {rs : List κ}

theorem Waiting.untouched (h : Waiting type i rs e) (hsame : Untouched i e e') :
    Waiting type i rs e' := by
  refine ⟨hsame.calls.trans h.1, ?_⟩
  have hrest := h.2
  cases type with
  | offer =>
      dsimp only at hrest ⊢
      rw [hsame.connection, hsame.globals]
      exact hrest
  | answer =>
      obtain ⟨p, hp, hconn, hglobals⟩ := hrest
      refine ⟨p, hsame.connection.trans hp, ?_, hsame.globals.trans hglobals⟩
      rw [hsame.heap p (by rw [owner, hconn]; rfl)]
      exact hconn

theorem Served.untouched (h : Served i rs e) (hsame : Untouched i e e') :
    Served i rs e' := by
  obtain ⟨p, conn, call, hp, hconn, hindex, hcall, hcalls, hcarries⟩ := h
  refine ⟨p, conn, call, hsame.connection.trans hp, ?_, hindex, hcall, hsame.calls.trans hcalls, ?_⟩
  · rw [hsame.heap p (by rw [owner, hconn]; exact congrArg some hindex)]
    exact hconn
  · rw [hsame.globals]
    exact hcarries

/-- The first call for an index. -/
theorem callsOf_push_first {call : Call κ} (h : e.callsOf i = []) :
    { e with calls := e.calls ++ [call] }.callsOf i =
      [call].filter fun call => call.index = some i := by
  refine (List.filter_append _ _).trans ?_
  rw [show e.calls.filter _ = [] from h, List.nil_append]

/-- The offer comes. -/
theorem Waiting.offered (h : Waiting .offer i rs e) : Served i rs (e.handleOffer i) := by
  obtain ⟨hcalls, -, hglobals⟩ := h
  refine ⟨e.heap.length, _, .handle .offer i e.heap.length .remoteDescription,
    connection_handleOffer_self e i, heap_handleOffer_self e i, rfl, .inr ⟨_, _, rfl⟩, ?_, rfl, rfl,
    nofun, ?_⟩
  · exact callsOf_push_first hcalls
  · rw [List.append_nil]
    exact List.Perm.of_eq hglobals

/-- The answer comes. -/
theorem Waiting.answered (h : Waiting .answer i rs e) :
    Served i rs (e.handleAnswer i) := by
  obtain ⟨hcalls, p, hp, hconn, hglobals⟩ := h
  rw [handleAnswer, hp]
  refine ⟨p, _, .handle .answer i p .remoteDescription, hp, hconn, rfl, .inr ⟨_, _, rfl⟩, ?_, rfl,
    rfl, fun _ => hglobals, ?_⟩
  · exact callsOf_push_first hcalls
  · show ((e.globalPendingIce i).getD [] ++ rs).Perm rs
    rw [hglobals]
    exact List.Perm.refl _

/-- A candidate comes first. -/
theorem Waiting.receive (h : Waiting type i rs e) (candidate : Option κ) :
    Waiting type i (rs ++ candidate.toList) (e.addIceCandidate i candidate) := by
  cases candidate with
  | none => simpa [addIceCandidate] using h
  | some c =>
      have hcalls := h.1
      have hrest := h.2
      cases type with
      | offer =>
          obtain ⟨hnone, hglobals⟩ := hrest
          simp only [addIceCandidate, hnone]
          refine ⟨hcalls, hnone, ?_⟩
          dsimp only
          rw [Function.update_self, hglobals]
          rfl
      | answer =>
          obtain ⟨p, hp, hconn, hglobals⟩ := hrest
          simp only [addIceCandidate, hp, hconn]
          exact ⟨hcalls, p, hp, heap_modify_self hconn, hglobals⟩

/-- A candidate comes later. -/
theorem Served.receive (h : Served i rs e) (candidate : Option κ) :
    Served i (rs ++ candidate.toList) (e.addIceCandidate i candidate) := by
  cases candidate with
  | none => simpa [addIceCandidate] using h
  | some c =>
      obtain ⟨p, conn, call, hp, hconn, hindex, hcall, hcalls, hcarries⟩ := h
      simp only [addIceCandidate, hp, hconn, Option.any_some]
      split_ifs with hset
      · exact ⟨p, _, call, hp, heap_modify_self hconn, hindex, hcall,
          (callsOf_push (by simp [Call.index])).trans hcalls, hcarries.receive hset c⟩
      · exact ⟨p, _, call, hp, heap_modify_self hconn, hindex, hcall, hcalls,
          hcarries.wait (by simpa using hset) c⟩

/-- The call goes on. -/
theorem Served.settle {n q : Nat} {w : Awaits κ} {fulfilled : Bool} (h : Served i rs e)
    (hn : e.calls[n]? = some (.handle type i q w))
    (hok : w = .remoteDescription → fulfilled = true) :
    Served i rs
      ((e.settled type i q fulfilled w).1.resume n (e.settled type i q fulfilled w).2) := by
  obtain ⟨p, conn, call, hp, hconn, hindex, hcall, hcalls, hcarries⟩ := h
  have hmem : .handle type i q w ∈ e.callsOf i :=
    List.mem_filter.mpr ⟨List.mem_of_getElem? hn, decide_eq_true rfl⟩
  have honly : [Call.handle type i q w].filter (fun call => call.index = some i) =
      [.handle type i q w] := List.filter_cons_of_pos (decide_eq_true rfl)
  rw [hcalls] at hmem
  obtain rfl := List.mem_singleton.mp (List.mem_filter.mp hmem).1
  obtain ⟨type', w', heq⟩ := hcall.resolve_left nofun
  cases heq
  have hgoes := goesOn_settled e type i q fulfilled w
  obtain ⟨conn', hconn', hcarries'⟩ := leaves_settled hconn hcarries hok
  refine ⟨q, conn', _, ?_, hconn', ?_, hgoes.call.imp_right fun ⟨w', hw'⟩ => ⟨type, w', hw'⟩, ?_,
    hcarries'⟩
  · rw [Engine.connection, resume, hgoes.within.connections]
    exact hp
  · have howner := hgoes.within.owner q
    rw [owner, owner, hconn, hconn'] at howner
    exact (Option.some.inj howner).trans hindex
  · rw [resume, callsOf, hgoes.within.calls]
    exact Tally.filter_set_of_only hn (decide_eq_true rfl) (hcalls.trans honly)

theorem candidate_eq_none (h : a.index e ≠ some i) : a.candidate i = none := by
  cases a with
  | addIceCandidate j candidate => exact if_neg fun heq => h (congrArg some heq)
  | handleOffer j | handleAnswer j | settle n fulfilled => rfl

theorem describes_of_index (h : a.index e = some i) (ha : a.describes i = false) :
    (∃ candidate, a = .addIceCandidate i candidate) ∨ ∃ n fulfilled, a = .settle n fulfilled := by
  cases a with
  | addIceCandidate j candidate =>
      cases h
      exact .inl ⟨candidate, rfl⟩
  | settle n fulfilled => exact .inr ⟨n, fulfilled, rfl⟩
  | handleOffer j | handleAnswer j =>
      cases h
      simp [Action.describes] at ha

theorem Waiting.keep (h : Waiting type i rs e) (hown : Owned e) (hs : Steps e a e')
    (ha : a.describes i = false) : Waiting type i (rs ++ (a.candidate i).toList) e' := by
  by_cases hindex : a.index e = some i
  · rcases describes_of_index hindex ha with ⟨candidate, rfl⟩ | ⟨n, fulfilled, rfl⟩
    · cases hs
      rw [Action.candidate, if_pos rfl]
      exact h.receive candidate
    · obtain ⟨call, hn, hcall⟩ := Option.bind_eq_some_iff.mp hindex
      have hmem : call ∈ e.callsOf i :=
        List.mem_filter.mpr ⟨List.mem_of_getElem? hn, decide_eq_true hcall⟩
      rw [h.1] at hmem
      cases hmem
  · rw [candidate_eq_none hindex, Option.toList_none, List.append_nil]
    exact h.untouched (hs.untouched hown hindex)

theorem Served.keep (h : Served i rs e) (hown : Owned e) (hs : Steps e a e')
    (ha : a.describes i = false) (hok : DescriptionsSet e a) :
    Served i (rs ++ (a.candidate i).toList) e' := by
  by_cases hindex : a.index e = some i
  · rcases describes_of_index hindex ha with ⟨candidate, rfl⟩ | ⟨n, fulfilled, rfl⟩
    · cases hs
      rw [Action.candidate, if_pos rfl]
      exact h.receive candidate
    · rw [Action.candidate, Option.toList_none, List.append_nil]
      cases hs with
      | @handle n j q type w fulfilled hn =>
          obtain rfl : j = i := by simpa [Action.index, hn, Call.index] using hindex
          apply h.settle hn
          rintro rfl
          apply hok
          rw [hn]
          rfl
      | @added n fulfilled hn => simp [Action.index, hn, Call.index] at hindex
  · rw [candidate_eq_none hindex, Option.toList_none, List.append_nil]
    exact h.untouched (hs.untouched hown hindex)

/-- The call that the index waits for comes. -/
theorem Waiting.described (h : Waiting type i rs e) (hs : Steps e (type.handler i) e') :
    Served i rs e' := by
  cases type with
  | offer =>
      cases hs
      exact h.offered
  | answer =>
      cases hs
      exact h.answered

theorem candidate_handler (type : SdpType) (i : Nat) :
    (type.handler i : Action κ).candidate i = none := by
  cases type <;> rfl

/-- The candidates that come for an index, in order. -/
def received (i : Nat) (as : List (Action κ)) : List κ := as.filterMap (Action.candidate i)

/-- The call that describes the connection of an index: an answer, if the engine
has a connection for the index, and an offer if it has not. -/
def description (n i : Nat) : Action κ := if i < n then .handleAnswer i else .handleOffer i

/-- Its type. -/
def descriptionType (n i : Nat) : SdpType := if i < n then .answer else .offer

theorem handler_descriptionType (n i : Nat) :
    (descriptionType n i).handler i = (description n i : Action κ) := by
  rw [descriptionType, description]
  split_ifs
  · rfl
  · rfl

/-- Every candidate received for an index has been given to its connection once,
after its remote description, and none waits any more. -/
def Applied (i : Nat) (rs : List κ) (e : Engine κ) : Prop :=
  ∃ p conn cs, e.connection i = some p ∧ e.heap[p]? = some conn ∧ conn.index = i ∧
    conn.pc = applied cs ∧ cs.Perm rs ∧
    conn.pendingCandidates = [] ∧ e.globalPendingIce i = none

theorem received_cons (i : Nat) (a : Action κ) (as : List (Action κ)) :
    received i (a :: as) = (a.candidate i).toList ++ received i as := by
  rw [received, List.filterMap_cons]
  cases a.candidate i with
  | none => rfl
  | some c => rfl

section Runs

variable {as : List (Action κ)}

/-- **The run rule**, once the description has come. -/
theorem Served.run (h : Served i rs e) (hown : Owned e) (hrun : Runs.run step e as = some e')
    (hset : Runs.Meets step DescriptionsSet e as) (has : as.filter (Action.describes i) = []) :
    Served i (rs ++ received i as) e' := by
  induction as generalizing e rs with
  | nil =>
      cases hrun
      simpa [received] using h
  | cons a as ih =>
      obtain ⟨u, hu, hrest⟩ := Option.bind_eq_some_iff.mp hrun
      have hs := steps_of_step hu
      rw [List.filter_eq_nil_iff] at has
      have ha : a.describes i = false := by simpa using has a List.mem_cons_self
      have hnext := h.keep hown hs ha hset.1
      rw [received_cons, ← List.append_assoc]
      apply ih hnext (hs.owned hown) hrest (hset.2 u hu)
      exact List.filter_eq_nil_iff.mpr fun b hb => has b (List.mem_cons_of_mem a hb)

/-- **The run rule**, as long as it has not. -/
theorem Waiting.run (h : Waiting type i rs e) (hown : Owned e)
    (hrun : Runs.run step e as = some e') (hset : Runs.Meets step DescriptionsSet e as)
    (has : as.filter (Action.describes i) = [type.handler i]) :
    Served i (rs ++ received i as) e' := by
  induction as generalizing e rs with
  | nil => cases has
  | cons a as ih =>
      obtain ⟨u, hu, hrest⟩ := Option.bind_eq_some_iff.mp hrun
      have hs := steps_of_step hu
      rw [received_cons, ← List.append_assoc]
      cases ha : a.describes i with
      | true =>
          rw [List.filter_cons_of_pos ha] at has
          obtain ⟨rfl, hnone⟩ := List.cons.inj has
          rw [candidate_handler, Option.toList_none, List.append_nil]
          exact (h.described hs).run (hs.owned hown) hrest (hset.2 u hu) hnone
      | false =>
          rw [List.filter_cons_of_neg (by simp [ha])] at has
          exact ih (h.keep hown hs ha) (hs.owned hown) hrest (hset.2 u hu) has

end Runs

theorem connection_start (n i : Nat) :
    (start n : Engine κ).connection i = if i < n then some i else none := by
  rw [Engine.connection, start, List.getElem?_map]
  split_ifs with hi
  · rw [List.getElem?_range hi]
    rfl
  · rw [List.getElem?_eq_none (by simpa using hi)]
    rfl

theorem heap_start {n i : Nat} (hi : i < n) :
    (start n : Engine κ).heap[i]? = some { index := i } := by
  rw [start, List.getElem?_map, List.getElem?_range hi]
  rfl

theorem owned_start (n : Nat) : Owned (start n : Engine κ) where
  placed i p hp := by
    have hlt := (connection_start n i).symm.trans hp
    split_ifs at hlt with hi
    obtain rfl := Option.some.inj hlt
    rw [owner, heap_start hi]
    rfl
  called type i p w hmem := nomatch hmem

theorem waiting_start (n i : Nat) :
    Waiting (descriptionType n i) i [] (start n : Engine κ) := by
  rw [descriptionType]
  split_ifs with hi
  · exact ⟨rfl, i, (connection_start n i).trans (if_pos hi), heap_start hi, rfl⟩
  · exact ⟨rfl, (connection_start n i).trans (if_neg hi), rfl⟩

/-- When the call has returned, nothing is left. -/
theorem Served.applied (h : Served i rs e) (hended : ∀ call ∈ e.calls, call = .returned) :
    Applied i rs e := by
  obtain ⟨p, conn, call, hp, hconn, hindex, hcall, hcalls, hcarries⟩ := h
  have hnone : e.callsOf i = [] := by
    apply List.filter_eq_nil_iff.mpr
    intro call hmem
    rw [hended call hmem]
    exact nofun
  rw [hnone] at hcalls
  rcases hcall with rfl | ⟨type, w, rfl⟩
  · obtain ⟨hglobals, hpending, hgave⟩ := hcarries
    obtain ⟨cs, hpc, hperm⟩ := hgave.given
    rw [List.append_nil] at hperm
    exact ⟨p, conn, cs, hp, hconn, hindex, hpc, hperm, hpending, hglobals⟩
  · simp [Call.index] at hcalls

end Index

/-- **Candidates are applied exactly once**, whatever the order of the calls and of
what they await: on the receiver's side, with one offer for the index, and on the
sender's, with one connection and one answer. A candidate is a truthy `candidate`
of a payload that `new RTCIceCandidate` accepts, as it does what the peer's
`onicecandidate` sends; where it throws, the code catches that and gives nothing. -/
theorem candidates_applied {n i : Nat} {as : List (Action κ)} {e : Engine κ}
    (hrun : Runs.run step (start n) as = some e)
    (hdescription : as.filter (Action.describes i) = [description n i])
    (hset : Runs.Meets step DescriptionsSet (start n) as)
    (hended : ∀ call ∈ e.calls, call = .returned) : Applied i (received i as) e := by
  have hserved := (waiting_start n i).run (owned_start n) hrun hset
    (hdescription.trans (by rw [handler_descriptionType]))
  exact hserved.applied hended

/-- Candidates 5, 6 and 7 of index 1 come before its offer, during the await of its
description, and while 5 is being added, which fails. -/
def threeRoutes : List (Action Nat) :=
  [.addIceCandidate 1 (some 5), .handleOffer 1, .addIceCandidate 1 (some 6), .settle 0 true,
    .addIceCandidate 1 (some 7), .addIceCandidate 1 none, .settle 0 false, .settle 0 true,
    .settle 1 true, .settle 0 true, .settle 0 true]

def threeRoutesEnd : Engine Nat := (Runs.run step (start 0) threeRoutes).getD {}

theorem candidates_applied_threeRoutes : Applied 1 [5, 6, 7] threeRoutesEnd :=
  have hrun : Runs.run step (start 0) threeRoutes = some threeRoutesEnd := rfl
  candidates_applied hrun (by decide) (by decide) (by decide)

end FastTransfer.Web.Candidates
