import FastTransfer.Web.SenderWork

/-!
# What a pump gives back

The books of one pump: the indices that it has claimed, those that it handed to
its transport while this was open, and those that it has put back into
`retryIndices`. A pump whose transport dies should end with its unsent chunks
put back; the module says in which runs it does.
-/

namespace FastTransfer.Web

/-- What one pump has claimed, sent and given back. -/
structure Ledger where
  claimed : List Nat := []
  sent : List Nat := []
  returned : List Nat := []
  deriving DecidableEq

/-- The claim of a pump that has just begun to read a batch. -/
def newlyClaimed : Pump → Pump → List Nat
  | .reading _, _ => []
  | _, .reading claim => claim.indices
  | _, _ => []

/-- What goes to the transport while it is open. A closed one drops it. -/
def sentOpen (tr tr' : Transport) : List Nat :=
  if tr.readyState = .opened then tr'.handed.drop tr.handed.length else []

/-- What is added to `retryIndices`. -/
def putBack (e e' : Engine) : List Nat := e'.retryIndices.drop e.retryIndices.length

/-- Of a P2P pump that waits for an event of a closed channel. -/
def Transport.stuck (tr : Transport) : Bool :=
  match tr.pump, tr.kind with
  | .waiting _, .p2p _ => tr.readyState = .closed
  | _, _ => false

/-- The read succeeds, and no chunk goes to a closed transport. -/
def Transport.keepsChunks (tr : Transport) (ev : PumpEvent) : Prop :=
  ev ≠ .read false ∧ (tr.sends ev = true → tr.readyState = .opened)

instance decidableKeepsChunks (tr : Transport) (ev : PumpEvent) :
    Decidable (tr.keepsChunks ev) :=
  inferInstanceAs (Decidable (ev ≠ .read false ∧ (tr.sends ev = true → tr.readyState = .opened)))

/-- A pump at work has something in hand. -/
def Transport.Filled (tr : Transport) : Prop :=
  match tr.pump with
  | .reading claim => claim.indices ≠ []
  | .sending batch | .waiting batch => batch ≠ []
  | .resolved batch failed => batch ≠ [] → failed = true ∨ tr.readyState = .closed
  | .notStarted | .ended => True

/-! ## The books of one step -/

/-- The books of a step of a pump: what it held and claims is what it sends,
holds and puts back, but for the chunks that are lost. -/
structure Booked (e : Engine) (tr : Transport) (ev : PumpEvent) (x : Engine × Transport) :
    Prop where
  sublist : List.Sublist (sentOpen tr x.2 ++ x.2.pump.held ++ putBack e x.1)
    (tr.pump.held ++ newlyClaimed tr.pump x.2.pump)
  complete : (tr.pump.held ++ newlyClaimed tr.pump x.2.pump).length =
    (sentOpen tr x.2 ++ x.2.pump.held ++ putBack e x.1).length ↔ tr.keepsChunks ev
  returned : x.2.pump ≠ .ended → putBack e x.1 = []
  filled : x.2.Filled
  notStuck : x.2.stuck = false

section Booked

variable {e e' : Engine} {tr tr' : Transport} {ev : PumpEvent} {b : Entry} {rest : List Entry}

@[simp] theorem sentOpen_setPump (tr : Transport) (p : Pump) :
    sentOpen tr { tr with pump := p } = [] := by
  simp [sentOpen]

theorem sentOpen_push (tr : Transport) (b : Entry) (size : Nat) (p : Pump) :
    sentOpen tr { tr.push (.chunk b) size with pump := p } =
      if tr.readyState = .opened then [b.index] else [] := by
  simp [sentOpen, Transport.handed_push]

@[simp] theorem putBack_self (e : Engine) : putBack e e = [] := by
  simp [putBack]

@[simp] theorem putBack_requeue (e : Engine) (is : List Nat) : putBack e (e.requeue is) = is := by
  simp [putBack, Engine.requeue]

theorem retryIndices_countSent (e : Engine) (size : Nat) :
    (e.countSent size).retryIndices = e.retryIndices := by
  obtain ⟨fired, waits, heq, -⟩ := countSent_spec e size
  rw [heq]

/-- A new claim is taken off the front of the queue. -/
theorem putBack_pumpLoop (he : e'.retryIndices = e.retryIndices) :
    putBack e (pumpLoop e' tr).1 = [] := by
  rw [putBack, pumpLoop]
  split_ifs
  · simp [Engine.claimBatch, he]
  · simp [he]

theorem filled_pumpLoop (e : Engine) (tr : Transport) : (pumpLoop e tr).2.Filled := by
  rw [pumpLoop]
  split_ifs with hwork
  · exact claimBatch_indices_ne_nil hwork
  · exact trivial

theorem stuck_pumpLoop (e : Engine) (tr : Transport) : (pumpLoop e tr).2.stuck = false := by
  rw [pumpLoop]
  split_ifs <;> rfl

theorem pumpLoop_claims {p : Pump} (hp : ∀ claim, p ≠ .reading claim) :
    newlyClaimed p (pumpLoop e tr).2.pump = (pumpLoop e tr).2.pump.held := by
  rw [pumpLoop]
  split_ifs
  · cases p with
    | reading claim => exact absurd rfl (hp claim)
    | _ => rfl
  · cases p <;> rfl

theorem newlyClaimed_ended (p : Pump) : newlyClaimed p .ended = [] := by
  cases p <;> rfl

/-- The pump keeps what it holds. -/
theorem booked_setPump {p : Pump} (hheld : p.held = tr.pump.held)
    (hnew : newlyClaimed tr.pump p = []) (hkeeps : tr.keepsChunks ev)
    (hfilled : Transport.Filled { tr with pump := p })
    (hstuck : Transport.stuck { tr with pump := p } = false) :
    Booked e tr ev (e, { tr with pump := p }) where
  sublist := by simp [hheld, hnew]
  complete := by simp [hheld, hnew, hkeeps]
  returned _ := putBack_self e
  filled := hfilled
  notStuck := hstuck

theorem booked_giveUp {batch : List Entry} (hheld : tr.pump.held = batch.map (·.index))
    (hkeeps : tr.keepsChunks ev) : Booked e tr ev (giveUp e tr batch) where
  sublist := by simp [giveUp, hheld, newlyClaimed_ended]
  complete := by simp [giveUp, hheld, newlyClaimed_ended, hkeeps]
  returned h := absurd rfl h
  filled := trivial
  notStuck := rfl

/-- The first chunk of the batch is sent, and the pump goes on to `p`. -/
theorem booked_send {p : Pump} {size : Nat} (hheld : tr.pump.held = (b :: rest).map (·.index))
    (hnew : p.held = rest.map (·.index) ++ newlyClaimed tr.pump p)
    (hback : putBack e e' = []) (hkeeps : tr.keepsChunks ev ↔ tr.readyState = .opened)
    (hfilled : Transport.Filled { tr.push (.chunk b) size with pump := p })
    (hstuck : Transport.stuck { tr.push (.chunk b) size with pump := p } = false) :
    Booked e tr ev (e', { tr.push (.chunk b) size with pump := p }) where
  sublist := by
    simp only [sentOpen_push, hheld, hnew, hback, List.append_nil, List.map_cons, List.cons_append]
    split_ifs with hopen
    · exact List.Sublist.refl _
    · exact List.sublist_cons_self _ _
  complete := by
    rw [hkeeps, sentOpen_push, hheld, hnew, hback]
    split_ifs with hopen
    · simp [hopen]
    · simp [hopen]
  returned _ := hback
  filled := hfilled
  notStuck := hstuck

/-- After its last chunk the pump takes its next batch, or ends. -/
theorem booked_sendLast {size size' : Nat} (hheld : tr.pump.held = [b].map (·.index))
    (hpump : ∀ claim, tr.pump ≠ .reading claim)
    (hkeeps : tr.keepsChunks ev ↔ tr.readyState = .opened) :
    Booked e tr ev (pumpLoop (e.countSent size) (tr.push (.chunk b) size')) := by
  have hclaims : newlyClaimed tr.pump
      (pumpLoop (e.countSent size) (tr.push (.chunk b) size')).2.pump = _ := pumpLoop_claims hpump
  have hback : putBack e (pumpLoop (e.countSent size) (tr.push (.chunk b) size')).1 = [] :=
    putBack_pumpLoop (retryIndices_countSent e size)
  have hfilled := filled_pumpLoop (e.countSent size) (tr.push (.chunk b) size')
  have hstuck := stuck_pumpLoop (e.countSent size) (tr.push (.chunk b) size')
  obtain ⟨p, hp⟩ := pumpLoop_snd (e.countSent size) (tr.push (.chunk b) size')
  rw [hp] at hclaims hfilled hstuck
  have heq : pumpLoop (e.countSent size) (tr.push (.chunk b) size') =
      ((pumpLoop (e.countSent size) (tr.push (.chunk b) size')).1,
        { tr.push (.chunk b) size' with pump := p }) := Prod.ext rfl hp
  rw [heq]
  exact booked_send hheld (by simpa using hclaims.symm) hback hkeeps hfilled hstuck

theorem booked_relayBackpressure {idx : Nat} {throws : Bool} (hkind : tr.kind = .relay idx)
    (hheld : tr.pump.held = (b :: rest).map (·.index))
    (hpump : ∀ claim, tr.pump ≠ .reading claim)
    (hkeeps : tr.keepsChunks ev ↔
      (¬ relayBufHigh < tr.bufferedAmount → throws = false → tr.readyState = .opened)) :
    Booked e tr ev (relayBackpressure e tr b rest throws) := by
  have hnew : ∀ batch, newlyClaimed tr.pump (.sending batch) = [] ∧
      newlyClaimed tr.pump (.waiting batch) = [] := by
    intro batch
    cases tr.pump <;> exact ⟨rfl, rfl⟩
  rw [relayBackpressure]
  split_ifs with hfull hclosed hthrows hrest
  · exact booked_giveUp hheld (hkeeps.mpr fun h => absurd hfull h)
  · exact booked_setPump hheld.symm (hnew _).2 (hkeeps.mpr fun h => absurd hfull h)
      (List.cons_ne_nil _ _) (by simp [Transport.stuck, hkind])
  · exact booked_giveUp hheld (hkeeps.mpr fun _ h => absurd (h.symm.trans hthrows) (by decide))
  · subst hrest
    apply booked_sendLast hheld hpump
    exact hkeeps.trans ⟨fun h => h hfull (by simpa using hthrows), fun h _ _ => h⟩
  · refine booked_send hheld (by rw [(hnew _).1, List.append_nil]; rfl) ?_
      (hkeeps.trans ⟨fun h => h hfull (by simpa using hthrows), fun h _ _ => h⟩) hrest rfl
    rw [putBack, retryIndices_countSent, List.drop_length]

theorem booked_blast {throws : Bool} (hheld : tr.pump.held = (b :: rest).map (·.index))
    (hunopened : tr.readyState ≠ .connecting) (hkeeps : tr.keepsChunks ev) :
    Booked e tr ev (blast e tr b rest throws) := by
  have hnew : ∀ batch failed, newlyClaimed tr.pump (.sending batch) = [] ∧
      newlyClaimed tr.pump (.waiting batch) = [] ∧
      newlyClaimed tr.pump (.resolved batch failed) = [] := by
    intro batch failed
    cases tr.pump <;> exact ⟨rfl, rfl, rfl⟩
  rw [blast]
  split_ifs with hclosed hfull hthrows hrest
  · refine booked_setPump hheld.symm (hnew _ _).2.2 hkeeps (fun _ => .inr ?_) rfl
    show tr.readyState = .closed
    cases hstate : tr.readyState with
    | connecting => exact absurd hstate hunopened
    | opened => exact absurd hstate hclosed
    | closed => rfl
  · have hopen : tr.readyState = .opened := by simpa using hclosed
    refine booked_setPump hheld.symm (hnew _ false).2.1 hkeeps (List.cons_ne_nil _ _) ?_
    cases tr.kind <;> simp [Transport.stuck, hopen]
  · exact booked_setPump hheld.symm (hnew _ _).2.2 hkeeps (fun _ => .inl rfl) rfl
  · have hopen : tr.readyState = .opened := by simpa using hclosed
    subst hrest
    refine booked_send hheld (by rw [(hnew [] false).2.2]; rfl) ?_ (iff_of_true hkeeps hopen)
      (fun h => absurd rfl h) rfl
    rw [putBack, retryIndices_countSent, List.drop_length]
  · have hopen : tr.readyState = .opened := by simpa using hclosed
    refine booked_send hheld (by rw [(hnew _ false).1, List.append_nil]; rfl) ?_
      (iff_of_true hkeeps hopen) hrest rfl
    rw [putBack, retryIndices_countSent, List.drop_length]

theorem booked_afterBlast {batch : List Entry} {failed : Bool}
    (hpump : tr.pump = .resolved batch failed) (hfilled : tr.Filled)
    (hkeeps : tr.keepsChunks ev) : Booked e tr ev (afterBlast e tr batch failed) := by
  rw [afterBlast_eq]
  split_ifs with hquit
  · exact booked_giveUp (by rw [hpump]; rfl) hkeeps
  · -- the pump goes on, so the whole batch was sent
    have hempty : batch = [] := by
      by_contra hne
      rw [Transport.Filled, hpump] at hfilled
      rcases hfilled hne with hfailed | hclosed
      · exact hquit (.inl hfailed)
      · exact hquit (.inr (by rw [hclosed]; decide))
    subst hempty
    have hclaims : newlyClaimed tr.pump (pumpLoop (e.requeue []) tr).2.pump = _ :=
      pumpLoop_claims (by simp [hpump])
    have hback : putBack e (pumpLoop (e.requeue []) tr).1 = [] :=
      putBack_pumpLoop (by simp [Engine.requeue])
    have hsent : sentOpen tr (pumpLoop (e.requeue []) tr).2 = [] := by
      obtain ⟨p, hp⟩ := pumpLoop_snd (e.requeue []) tr
      rw [hp, sentOpen_setPump]
    have hheld : tr.pump.held = [] := by
      rw [hpump]
      rfl
    refine ⟨?_, ?_, fun _ => hback, filled_pumpLoop _ _, stuck_pumpLoop _ _⟩
    · simp [hsent, hheld, hclaims, hback]
    · simp [hsent, hheld, hclaims, hback, hkeeps]

theorem booked_finishRead {claim : Claim} (hpump : tr.pump = .reading claim) (hfilled : tr.Filled)
    (ok : Bool) : Booked e tr (.read ok) (finishRead e tr claim ok) := by
  have hsends : tr.sends (.read ok) = false := rfl
  have hne : claim.indices ≠ [] := by
    rwa [Transport.Filled, hpump] at hfilled
  cases ok with
  | true =>
      rw [finishRead_ok, if_neg hne]
      refine booked_setPump ?_ (by rw [hpump]; rfl) ⟨by simp, by simp [hsends]⟩ ?_ rfl
      · simp [hpump, Pump.held, Function.comp_def]
      · simpa [Transport.Filled] using hne
  | false =>
      -- nobody has the claim any more
      have hlost : ¬ tr.keepsChunks (.read false) := fun h => h.1 rfl
      refine ⟨?_, ?_, fun h => absurd rfl h, trivial, rfl⟩
      · simp [finishRead]
      · simp [finishRead, hpump, newlyClaimed, hne, hlost]

end Booked

/-- **Every step of a pump keeps its books.** -/
theorem Turn.booked {e : Engine} {tr : Transport} {ev : PumpEvent} {x : Engine × Transport}
    (h : Turn e tr ev x) (hfilled : tr.Filled) (hunopened : tr.readyState ≠ .connecting) :
    Booked e tr ev x := by
  cases h with
  | read ok hpump => exact booked_finishRead hpump hfilled ok
  | @relaySend idx b rest throws hkind hpump =>
      have hkeeps : tr.keepsChunks (.send throws) := by
        refine ⟨by simp, fun hsends => ?_⟩
        simp only [Transport.sends, hkind, Bool.and_eq_true, decide_eq_true_eq] at hsends
        exact hsends.1.1
      rw [Web.relaySend]
      split_ifs with hclosed
      · exact booked_giveUp (by rw [hpump]; rfl) hkeeps
      · apply booked_relayBackpressure hkind (by rw [hpump]; rfl) (by simp [hpump])
        exact iff_of_true hkeeps fun _ _ => by simpa using hclosed
  | p2pSend throws hkind hpump =>
      apply booked_blast (by rw [hpump]; rfl) hunopened
      refine ⟨by simp, fun hsends => ?_⟩
      simp only [Transport.sends, hkind, Bool.and_eq_true, decide_eq_true_eq] at hsends
      exact hsends.1.1
  | relayWake throws hkind hpump =>
      apply booked_relayBackpressure hkind (by rw [hpump]; rfl) (by simp [hpump])
      simp [Transport.keepsChunks, Transport.sends, hkind]
  | p2pWake throws hkind hpump hopen =>
      exact booked_blast (by rw [hpump]; rfl) hunopened ⟨by simp, fun _ => hopen⟩
  | resume hpump =>
      exact booked_afterBlast hpump hfilled ⟨by simp, by simp [Transport.sends]⟩

/-- A pump that takes a turn does not wait for an event of a closed channel. -/
theorem Turn.notStuck {e : Engine} {tr : Transport} {ev : PumpEvent} {x : Engine × Transport}
    (h : Turn e tr ev x) : tr.stuck = false := by
  cases h with
  | read ok hpump | resume hpump => rw [Transport.stuck, hpump]
  | relaySend throws hkind hpump | p2pSend throws hkind hpump | relayWake throws hkind hpump =>
      rw [Transport.stuck, hpump, hkind]
  | p2pWake throws hkind hpump hopen =>
      rw [Transport.stuck, hpump, hkind, hopen]
      rfl

/-- How many steps a pump has left at most once its transport is closed. -/
def Pump.stepsLeft : Pump → Nat
  | .waiting _ => 4
  | .reading _ => 3
  | .sending _ => 2
  | .resolved _ _ => 1
  | .notStarted | .ended => 0

theorem stepsLeft_pumpLoop (e : Engine) (tr : Transport) :
    (pumpLoop e tr).2.pump.stepsLeft ≤ 3 := by
  rw [pumpLoop]
  split_ifs
  · exact le_rfl
  · exact Nat.zero_le _

/-- The pump of a closed transport comes to its end. -/
theorem Turn.stepsLeft {e : Engine} {tr : Transport} {ev : PumpEvent} {x : Engine × Transport}
    (h : Turn e tr ev x) (hclosed : tr.readyState ≠ .opened) :
    x.2.pump.stepsLeft < tr.pump.stepsLeft := by
  cases h with
  | @read claim ok hpump =>
      rw [hpump]
      cases ok with
      | true =>
          rw [finishRead_ok]
          by_cases hempty : claim.indices = []
          · rw [if_pos hempty]
            show 0 < 3
            omega
          · rw [if_neg hempty]
            show 2 < 3
            omega
      | false =>
          show 0 < 3
          omega
  | relaySend throws hkind hpump =>
      rw [hpump, Web.relaySend, if_pos hclosed]
      show 0 < 2
      omega
  | p2pSend throws hkind hpump =>
      rw [hpump, blast, if_pos hclosed]
      show 1 < 2
      omega
  | @relayWake idx b rest throws hkind hpump =>
      rw [hpump, relayBackpressure]
      show _ < 4
      split_ifs with hfull hthrows hrest
      · show 0 < 4
        omega
      · show 0 < 4
        omega
      · exact (stepsLeft_pumpLoop _ _).trans_lt (show 3 < 4 by omega)
      · show 2 < 4
        omega
  | p2pWake throws hkind hpump hopen => exact absurd hopen hclosed
  | @resume batch failed hpump =>
      rw [hpump, afterBlast_eq, if_pos (.inr hclosed)]
      show 0 < 1
      omega

namespace Sender

/-- The books of the pump of transport `t` after a step. -/
def note (t : Nat) (s : Sender) (a : Action) (s' : Sender) (l : Ledger) : Ledger :=
  match s.transports[t]?, s'.transports[t]? with
  | some tr, some tr' =>
      { claimed := l.claimed ++ newlyClaimed tr.pump tr'.pump
        sent := l.sent ++ sentOpen tr tr'
        returned := l.returned ++ match a with
          | .pump u _ => if u = t then putBack s.toEngine s'.toEngine else []
          | _ => [] }
  | _, _ => l

/-- No channel closes while the pump of `t` waits for its event, no file read of
this pump fails, and it does not resume its sends on a closed socket. -/
def PumpSafe (t : Nat) (s : Sender) : Action → Prop
  | .onclose u => u = t → ∀ tr ∈ s.transports[t]?,
      Transport.stuck { tr with readyState := .closed } = false
  | .pump u ev => u = t → ∀ tr ∈ s.transports[t]?, tr.keepsChunks ev
  | _ => True

instance decidablePumpSafe (t : Nat) (s : Sender) : ∀ a, Decidable (PumpSafe t s a)
  | .onclose u => inferInstanceAs (Decidable (u = t → ∀ tr ∈ s.transports[t]?,
      Transport.stuck { tr with readyState := .closed } = false))
  | .pump u ev => inferInstanceAs (Decidable (u = t → ∀ tr ∈ s.transports[t]?, tr.keepsChunks ev))
  | .createOffer | .onopen _ | .drain _ | .pollDrain => inferInstanceAs (Decidable True)

/-! ## What a step does to one transport -/

/-- The transport `t` in a step: it stays, it is started, it closes, or its pump
takes a turn. -/
inductive Lane (t : Nat) (s : Sender) (tr : Transport) : Action → Sender → Transport → Prop where
  | stays {a : Action} {s' : Sender} {tr' : Transport} (hkind : tr'.kind = tr.kind)
      (hpump : tr'.pump = tr.pump) (hhanded : tr'.handed = tr.handed)
      (hstate : tr'.readyState = tr.readyState ∨ tr.pump = .notStarted)
      (ha : a ≠ .onclose t ∧ ∀ ev, a ≠ .pump t ev) : Lane t s tr a s' tr'
  | starts {a : Action} {s' : Sender} {tr' : Transport} (hpump : tr.pump = .notStarted)
      (hhanded : tr'.handed = tr.handed) (hfilled : tr'.Filled) (hstuck : tr'.stuck = false)
      (hclaims : newlyClaimed .notStarted tr'.pump = tr'.pump.held)
      (ha : a ≠ .onclose t ∧ ∀ ev, a ≠ .pump t ev) : Lane t s tr a s' tr'
  | closes {s' : Sender} (hstate : tr.readyState ≠ .closed) :
      Lane t s tr (.onclose t) s' { tr with readyState := .closed }
  | turn {s' : Sender} {tr' : Transport} {ev : PumpEvent}
      (hturn : Turn s.toEngine tr ev (s'.toEngine, tr')) : Lane t s tr (.pump t ev) s' tr'

section Lane

variable {cfg : Config} {file : File} {s s' : Sender} {t : Nat} {tr : Transport} {a : Action}

/-- What `tryStart` does to a transport: it starts its pump, or leaves it. -/
theorem tryStart_getElem? (ht : s.transports[t]? = some tr) :
    ∃ tr', s.tryStart.transports[t]? = some tr' ∧
      (tr' = tr ∨ tr.pump = .notStarted ∧ ∃ e, tr' = (pumpLoop e tr).2) := by
  have hP := tryStart_rule (P := fun s => ∃ tr', s.transports[t]? = some tr' ∧
    (tr' = tr ∨ tr.pump = .notStarted ∧ ∃ e, tr' = (pumpLoop e tr).2)) (s := s) ?_
    (fun _ h _ => h) ⟨tr, ht, .inl rfl⟩
  · exact hP
  · rintro s u v ⟨tr', ht', htr'⟩ - hu hpump -
    by_cases hut : u = t
    · subst hut
      obtain rfl := Option.mem_unique ht' hu
      have hlt := (List.getElem?_eq_some_iff.mp hu).1
      refine ⟨_, List.getElem?_set_self hlt, .inr ?_⟩
      rcases htr' with rfl | ⟨hpump', e, rfl⟩
      · exact ⟨hpump, s.toEngine, rfl⟩
      · obtain ⟨p, hp⟩ := pumpLoop_snd e tr
        refine ⟨hpump', s.toEngine, ?_⟩
        rw [hp, pumpLoop_setPump]
    · exact ⟨tr', (List.getElem?_set_ne hut).trans ht', htr'⟩

/-- The socket or channel `u` opens, and `tryStart` starts what is ready. -/
theorem lane_onopen {u : Nat} {v : Transport} (hw : Wired s) (ht : s.transports[t]? = some tr)
    (hu : s.transports[u]? = some v) (hstate : v.readyState = .connecting) :
    ∃ tr', (s.onopen cfg u v).transports[t]? = some tr' ∧
      Lane t s tr (.onopen u) (s.onopen cfg u v) tr' := by
  obtain ⟨hpump, hhanded⟩ := opened_spec s cfg v
  obtain ⟨tr₁, ht₁, hkind₁, hpump₁, hhanded₁, hstate₁⟩ :
      ∃ tr₁, (s.transports.set u (s.opened cfg v))[t]? = some tr₁ ∧
        tr₁.kind = tr.kind ∧ tr₁.pump = tr.pump ∧ tr₁.handed = tr.handed ∧
        (tr₁.readyState = tr.readyState ∨ tr.pump = .notStarted) := by
    by_cases hut : u = t
    · subst hut
      obtain rfl := Option.mem_unique hu ht
      exact ⟨_, List.getElem?_set_self (List.getElem?_eq_some_iff.mp ht).1,
        (opened_wire s cfg v).1, hpump, hhanded,
        .inr (hw.unopened v (List.mem_of_getElem? hu) hstate).1⟩
    · exact ⟨tr, (List.getElem?_set_ne hut).trans ht, rfl, rfl, rfl, .inl rfl⟩
  obtain ⟨tr', ht', htr'⟩ : ∃ tr', (s.onopen cfg u v).transports[t]? = some tr' ∧
      (tr' = tr₁ ∨ tr₁.pump = .notStarted ∧ ∃ e, tr' = (pumpLoop e tr₁).2) :=
    tryStart_getElem? ht₁
  refine ⟨tr', ht', ?_⟩
  rcases htr' with rfl | ⟨hstart, e, rfl⟩
  · exact .stays hkind₁ hpump₁ hhanded₁ hstate₁ (by simp)
  · refine .starts (hpump₁ ▸ hstart) ?_ (filled_pumpLoop e tr₁) (stuck_pumpLoop e tr₁)
      (pumpLoop_claims (by simp)) (by simp)
    obtain ⟨p, hp⟩ := pumpLoop_snd e tr₁
    rw [hp, Transport.handed_setPump, hhanded₁]

theorem Steps.lane (h : Steps cfg file s a s') (hw : Wired s) (ht : s.transports[t]? = some tr) :
    ∃ tr', s'.transports[t]? = some tr' ∧ Lane t s tr a s' tr' := by
  have hlt := (List.getElem?_eq_some_iff.mp ht).1
  have hsame : ∀ {a s'}, s'.transports[t]? = some tr →
      (a ≠ .onclose t ∧ ∀ ev, a ≠ .pump t ev) →
      ∃ tr', s'.transports[t]? = some tr' ∧ Lane t s tr a s' tr' := by
    intro a s' ht' ha
    exact ⟨tr, ht', .stays rfl rfl rfl (.inl rfl) ha⟩
  cases h with
  | createOffer =>
      refine hsame ?_ (by simp)
      simp only [Sender.createOffer, List.append_assoc]
      rw [List.getElem?_append_left hlt, ht]
  | onopen hu hstate => exact lane_onopen hw ht hu hstate
  | @onclose u v hu hstate =>
      by_cases hut : u = t
      · subst hut
        obtain rfl := Option.mem_unique hu ht
        exact ⟨_, List.getElem?_set_self hlt, .closes hstate⟩
      · exact hsame ((List.getElem?_set_ne hut).trans ht) (by simpa using hut)
  | @drain u v v' hu hstate hdrain =>
      by_cases hut : u = t
      · subst hut
        obtain rfl := Option.mem_unique hu ht
        obtain ⟨hpump, hhanded⟩ := handed_drain hdrain
        obtain ⟨hkind, hready, -⟩ := drain_wire hdrain
        exact ⟨v', List.getElem?_set_self hlt, .stays hkind hpump hhanded (.inl hready) (by simp)⟩
      · exact hsame ((List.getElem?_set_ne hut).trans ht) (by simp)
  | @pump u v ev x hu hturn =>
      by_cases hut : u = t
      · subst hut
        obtain rfl := Option.mem_unique hu ht
        exact ⟨x.2, List.getElem?_set_self hlt, .turn hturn⟩
      · exact hsame ((List.getElem?_set_ne hut).trans ht) (by simp [hut])
  | pollDrain hwait =>
      refine hsame ?_ (by simp)
      rw [Sender.pollDrain]
      split_ifs
      · exact ht
      · exact ht

/-- A transport that appears has no pump yet. -/
theorem Steps.pump_of_new (h : Steps cfg file s a s') (ht : s.transports[t]? = none)
    (ht' : s'.transports[t]? = some tr) : tr.pump = .notStarted := by
  have hsame : ∀ {s' : Sender}, s'.transports.length = s.transports.length →
      s'.transports[t]? = some tr → tr.pump = .notStarted := by
    intro s' hlen ht'
    have hlt := (List.getElem?_eq_some_iff.mp ht').1
    have hge := List.getElem?_eq_none_iff.mp ht
    omega
  cases h with
  | createOffer =>
      rcases createOffer_getElem? ht' with hold | ⟨i, rfl⟩ | ⟨i, -, -, rfl⟩
      · rw [ht] at hold
        cases hold
      · rfl
      · rfl
  | @onopen u v hu hstate =>
      refine hsame (tryStart_rule (P := fun s' => s'.transports.length = s.transports.length)
        (fun s' u v hlen _ _ _ _ => ?_) (fun _ h _ => h) ?_) ht'
      · show (s'.transports.set u _).length = _
        rw [List.length_set, hlen]
      · show (s.transports.set u _).length = _
        rw [List.length_set]
  | onclose hu hstate => exact hsame List.length_set ht'
  | drain hu hstate hdrain => exact hsame List.length_set ht'
  | pump hu hturn => exact hsame List.length_set ht'
  | pollDrain hwait =>
      refine hsame ?_ ht'
      rw [Sender.pollDrain]
      split_ifs <;> rfl

end Lane

/-! ## The books of a run -/

/-- **The invariant of the books**: nothing is sent, held or put back that was
not claimed, in this order, and what is put back is put back at the end. -/
structure Account (tr : Transport) (l : Ledger) : Prop where
  books : List.Sublist (l.sent ++ tr.pump.held ++ l.returned) l.claimed
  active : tr.pump ≠ .ended → l.returned = []
  filled : tr.Filled

/-- Nothing is missing from the books, and the pump does not wait for ever. -/
def Complete (tr : Transport) (l : Ledger) : Prop :=
  l.claimed.length = (l.sent ++ tr.pump.held ++ l.returned).length ∧ tr.stuck = false

section Account

variable {cfg : Config} {file : File} {s s' : Sender} {t : Nat} {tr tr' : Transport} {l : Ledger}
  {a : Action}

theorem newlyClaimed_self (p : Pump) : newlyClaimed p p = [] := by
  cases p <;> rfl

theorem sentOpen_of_handed (hhanded : tr'.handed = tr.handed) : sentOpen tr tr' = [] := by
  simp [sentOpen, hhanded]

/-- Other actions put nothing back for the pump of `t`. -/
theorem note_other (ht : s.transports[t]? = some tr) (ht' : s'.transports[t]? = some tr')
    (hhanded : tr'.handed = tr.handed) (ha : ∀ ev, a ≠ .pump t ev) :
    note t s a s' l = { l with claimed := l.claimed ++ newlyClaimed tr.pump tr'.pump } := by
  cases a with
  | pump u ev =>
      have hut : u ≠ t := by
        rintro rfl
        exact ha ev rfl
      simp [note, ht, ht', hut, sentOpen_of_handed hhanded]
  | _ => simp [note, ht, ht', sentOpen_of_handed hhanded]

theorem pumpSafe_other (ha : a ≠ .onclose t ∧ ∀ ev, a ≠ .pump t ev) : PumpSafe t s a := by
  cases a with
  | onclose u =>
      rintro rfl
      exact absurd rfl ha.1
  | pump u ev =>
      rintro rfl
      exact absurd rfl (ha.2 ev)
  | _ => exact trivial

theorem stuck_of_notStarted (hpump : tr.pump = .notStarted) : tr.stuck = false := by
  rw [Transport.stuck, hpump]

/-- The books after a step: in order, and complete exactly if they were before
and the step is safe. -/
structure Accounted (tr : Transport) (l : Ledger) (safe : Prop) (tr' : Transport)
    (l' : Ledger) : Prop where
  account : Account tr' l'
  complete : Complete tr' l' ↔ Complete tr l ∧ safe

/-- Nothing changes for the pump. -/
theorem Account.stays {safe : Prop} (h : Account tr l) (hkind : tr'.kind = tr.kind)
    (hpump : tr'.pump = tr.pump)
    (hstate : tr'.readyState = tr.readyState ∨ tr.pump = .notStarted) (hsafe : safe) :
    Accounted tr l safe tr' l := by
  have hstuck : tr'.stuck = tr.stuck := by
    rcases hstate with hstate | hnot
    · rw [Transport.stuck, Transport.stuck, hpump, hkind, hstate]
    · rw [stuck_of_notStarted hnot, stuck_of_notStarted (hpump.trans hnot)]
  refine ⟨⟨by rw [hpump]; exact h.books, by rw [hpump]; exact h.active, ?_⟩, ?_⟩
  · have hfilled := h.filled
    rw [Transport.Filled] at hfilled ⊢
    rcases hstate with hstate | hnot
    · rwa [hpump, hstate]
    · rw [hpump, hnot]
      exact trivial
  · rw [Complete, Complete, hpump, hstuck]
    exact (and_iff_left hsafe).symm

/-- The pump starts, and claims what it reads first. -/
theorem Account.starts {safe : Prop} (h : Account tr l) (hpump : tr.pump = .notStarted)
    (hfilled : tr'.Filled) (hstuck : tr'.stuck = false) (hsafe : safe) :
    Accounted tr l safe tr' { l with claimed := l.claimed ++ tr'.pump.held } := by
  have hreturned := h.active (by rw [hpump]; decide)
  have hheld : Pump.held .notStarted = [] := rfl
  have hbooks := h.books
  rw [hpump, hreturned, List.append_nil, hheld, List.append_nil] at hbooks
  refine ⟨⟨?_, fun _ => hreturned, hfilled⟩, ?_⟩
  · rw [hreturned, List.append_nil]
    exact hbooks.append (List.Sublist.refl _)
  · simp [Complete, hpump, hreturned, hstuck, stuck_of_notStarted hpump, hsafe, hheld]

/-- The socket or channel closes. -/
theorem Account.closes (h : Account tr l) (hstate : tr.readyState ≠ .closed) :
    Accounted tr l (Transport.stuck { tr with readyState := .closed } = false)
      { tr with readyState := .closed } l := by
  refine ⟨⟨h.books, h.active, ?_⟩, ?_⟩
  · have hfilled := h.filled
    rw [Transport.Filled] at hfilled ⊢
    cases hp : tr.pump with
    | resolved batch failed => exact fun _ => .inr rfl
    | _ =>
        rw [hp] at hfilled
        exact hfilled
  · have hopen : tr.stuck = false := by
      simp only [Transport.stuck, hstate, decide_false]
      split <;> rfl
    rw [Complete, Complete, hopen, and_iff_left rfl]

/-- The pump takes a turn. -/
theorem Account.turn {e e' : Engine} {ev : PumpEvent} (h : Account tr l)
    (hopened : tr.readyState ≠ .connecting) (hturn : Turn e tr ev (e', tr')) :
    Accounted tr l (tr.keepsChunks ev) tr'
      { claimed := l.claimed ++ newlyClaimed tr.pump tr'.pump
        sent := l.sent ++ sentOpen tr tr'
        returned := putBack e e' } := by
  have hbooked := hturn.booked h.filled hopened
  have hreturned := h.active hturn.running.2
  have hbooks := h.books
  rw [hreturned, List.append_nil] at hbooks
  have hnew := hbooked.sublist
  refine ⟨⟨?_, hbooked.returned, hbooked.filled⟩, ?_⟩
  · have hall := (List.Sublist.refl l.sent).append hnew
    have hold := hbooks.append (List.Sublist.refl (newlyClaimed tr.pump tr'.pump))
    simp only [List.append_assoc] at hall hold ⊢
    exact hall.trans hold
  · have hle := hbooks.length_le
    have hle' := hnew.length_le
    rw [← hbooked.complete, Complete, Complete, hbooked.notStuck, hturn.notStuck, hreturned]
    simp only [List.length_append, List.length_nil, and_true] at *
    omega

/-- **Every step keeps the books, and keeps them complete exactly if it is safe
for the pump.** -/
theorem Account.step (h : Account tr l) (hw : Wired s) (ht : s.transports[t]? = some tr)
    (ht' : s'.transports[t]? = some tr') (hlane : Lane t s tr a s' tr') :
    Accounted tr l (PumpSafe t s a) tr' (note t s a s' l) := by
  cases hlane with
  | stays hkind hpump hhanded hstate ha =>
      rw [note_other ht ht' hhanded ha.2, hpump, newlyClaimed_self, List.append_nil]
      exact h.stays hkind hpump hstate (pumpSafe_other ha)
  | starts hpump hhanded hfilled hstuck hclaims ha =>
      rw [note_other ht ht' hhanded ha.2, hpump, hclaims]
      exact h.starts hpump hfilled hstuck (pumpSafe_other ha)
  | closes hstate =>
      have hsafe : PumpSafe t s (.onclose t) ↔
          Transport.stuck { tr with readyState := .closed } = false := by
        simp [PumpSafe, ht]
      rw [note_other ht ht' rfl (by simp), newlyClaimed_self, List.append_nil, hsafe]
      exact h.closes hstate
  | @turn _ _ ev hturn =>
      have hopened : tr.readyState ≠ .connecting := fun hc =>
        hturn.running.1 (hw.unopened tr (List.mem_of_getElem? ht) hc).1
      have hl : note t s (.pump t ev) s' l =
          { claimed := l.claimed ++ newlyClaimed tr.pump tr'.pump
            sent := l.sent ++ sentOpen tr tr'
            returned := putBack s.toEngine s'.toEngine } := by
        simp [note, ht, ht', h.active hturn.running.2]
      have hsafe : PumpSafe t s (.pump t ev) ↔ tr.keepsChunks ev := by
        simp [PumpSafe, ht]
      rw [hl, hsafe]
      exact h.turn hopened hturn

end Account

/-- The books of the pump of `t`, also before there is a transport `t`. -/
structure Books (t : Nat) (x : Sender × Ledger) : Prop where
  wired : Wired x.1
  none : x.1.transports[t]? = none → x.2 = {}
  some : ∀ tr, x.1.transports[t]? = some tr → Account tr x.2

/-- `Complete` for transport `t`, once there is one. -/
def AllComplete (t : Nat) (x : Sender × Ledger) : Prop :=
  ∀ tr, x.1.transports[t]? = some tr → Complete tr x.2

theorem account_notStarted {tr : Transport} (hpump : tr.pump = .notStarted) :
    Account tr {} ∧ Complete tr {} := by
  refine ⟨⟨by rw [hpump]; exact List.Sublist.refl _, fun _ => rfl, ?_⟩, by rw [hpump]; rfl,
    stuck_of_notStarted hpump⟩
  rw [Transport.Filled, hpump]
  exact trivial

theorem books_start (cfg : Config) (file : File) (t : Nat) :
    Books t (start cfg file, {}) ∧ AllComplete t (start cfg file, {}) := by
  have hnew : ∀ tr, (start cfg file).transports[t]? = some tr → tr.pump = .notStarted := by
    intro tr ht
    rcases createOffer_getElem? (s := { file }) ht with hold | ⟨i, rfl⟩ | ⟨i, -, -, rfl⟩
    · simp at hold
    · rfl
    · rfl
  exact ⟨⟨wired_start cfg file, fun _ => rfl, fun tr ht => (account_notStarted (hnew tr ht)).1⟩,
    fun tr ht => (account_notStarted (hnew tr ht)).2⟩

theorem Books.step {cfg : Config} {file : File} {t : Nat} {x y : Sender × Ledger} {a : Action}
    (h : Books t x) (hstep : Runs.recorded (step cfg file) (note t) x a = .some y) :
    Books t y ∧ (AllComplete t y ↔ AllComplete t x ∧ PumpSafe t x.1 a) := by
  obtain ⟨hs, hl⟩ := Runs.recorded_eq_some hstep
  have hsteps := step_iff.mp hs
  have hw := h.wired.step hsteps
  cases ht : x.1.transports[t]? with
  | none =>
      have hempty : y.2 = {} := by
        rw [hl, note.eq_def, ht]
        exact h.none ht
      have hsafe : PumpSafe t x.1 a := by
        cases a with
        | onclose u | pump u ev =>
            rintro rfl
            simp [ht]
        | _ => exact trivial
      have hnew : ∀ tr, y.1.transports[t]? = .some tr → Account tr y.2 ∧ Complete tr y.2 := by
        intro tr ht'
        rw [hempty]
        exact account_notStarted (hsteps.pump_of_new ht ht')
      exact ⟨⟨hw, fun _ => hempty, fun tr ht' => (hnew tr ht').1⟩,
        iff_of_true (fun tr ht' => (hnew tr ht').2) ⟨fun tr ht' => by simp [ht] at ht', hsafe⟩⟩
  | some tr =>
      obtain ⟨tr', ht', hlane⟩ := hsteps.lane h.wired ht
      obtain ⟨haccount, hcomplete⟩ := (h.some tr ht).step h.wired ht ht' hlane
      rw [← hl] at haccount hcomplete
      refine ⟨⟨hw, fun hnone => by simp [ht'] at hnone, ?_⟩, ?_⟩
      · intro v hv
        obtain rfl := Option.mem_unique ht' hv
        exact haccount
      · simpa [AllComplete, ht, ht'] using hcomplete

/-- The pump of `t` has no step left. -/
def PumpOver (cfg : Config) (file : File) (s : Sender) (t : Nat) : Prop :=
  ∀ ev, step cfg file s (.pump t ev) = none

/-- The pump of `t` holds no chunk, and what it claimed went to its open
transport up to some chunk and from there back into the queue. -/
def GivenBack (t : Nat) (x : Sender × Ledger) : Prop :=
  (∀ tr ∈ x.1.transports[t]?, tr.pump.held = []) ∧ x.2.claimed = x.2.sent ++ x.2.returned

/-- A pump that is over has ended, or waits for ever. -/
theorem PumpOver.pump {cfg : Config} {file : File} {s : Sender} {t : Nat} {tr : Transport}
    (h : PumpOver cfg file s t) (hw : Wired s) (ht : s.transports[t]? = some tr)
    (hfilled : tr.Filled) :
    tr.pump = .notStarted ∨ tr.pump = .ended ∨ tr.stuck = true ∧ tr.pump.held ≠ [] := by
  have hidle : tr.atWork = false := by
    by_contra hwork
    obtain ⟨ev, x, -, hturn⟩ := exists_turn (e := s.toEngine) (Bool.not_eq_false _ ▸ hwork)
    have hstep : step cfg file s (.pump t ev) = some (s.put t x) := step_iff.mpr (.pump ht hturn)
    exact absurd ((h ev).symm.trans hstep) (by simp)
  cases hp : tr.pump with
  | notStarted => exact .inl rfl
  | ended => exact .inr (.inl rfl)
  | reading claim | sending batch => simp_all [Transport.atWork, Transport.Filled]
  | resolved batch failed => simp [Transport.atWork, hp] at hidle
  | waiting batch =>
      rw [Transport.Filled, hp] at hfilled
      have hunopened : tr.readyState ≠ .connecting := by
        intro hc
        have hnot := (hw.unopened tr (List.mem_of_getElem? ht) hc).1
        rw [hp] at hnot
        cases hnot
      cases hk : tr.kind with
      | relay idx => simp [Transport.atWork, hp, hk, hfilled] at hidle
      | p2p idx =>
          have hopen : tr.readyState ≠ .opened := by
            simpa [Transport.atWork, hp, hk, hfilled] using hidle
          refine .inr (.inr ⟨?_, by simpa [Pump.held] using hfilled⟩)
          cases hstate : tr.readyState with
          | connecting => exact absurd hstate hunopened
          | opened => exact absurd hstate hopen
          | closed => simp [Transport.stuck, hp, hk, hstate]

/-- **A pump gives back what it does not send**: the pump of a closed transport
has at most four steps left, and when it has none it holds nothing and has put
its unsent chunks back, exactly in the runs whose steps are all safe for it. -/
theorem gives_back_iff (cfg : Config) (file : File) (t : Nat) (as : List Action)
    (x : Sender × Ledger)
    (hrun : Runs.run (Runs.recorded (step cfg file) (note t)) (start cfg file, {}) as = some x) :
    (∀ tr ∈ x.1.transports[t]?, tr.readyState = .closed → ∀ ev y,
      pumpStep x.1.toEngine tr ev = some y →
        y.2.pump.stepsLeft < tr.pump.stepsLeft ∧ tr.pump.stepsLeft ≤ 4) ∧
    (PumpOver cfg file x.1 t →
      (GivenBack t x ↔ Runs.Meets (step cfg file) (PumpSafe t) (start cfg file) as)) := by
  obtain ⟨hbooks, hall⟩ := books_start cfg file t
  have hx : Books t x := (Runs.reach_of_run as hrun).invariant hbooks
    fun u a v hu hstep => (hu.step hstep).1
  refine ⟨fun tr ht hclosed ev y hy => ?_, fun hover => ?_⟩
  · have hturn := pumpStep_iff.mp hy
    refine ⟨hturn.stepsLeft (by rw [hclosed]; decide), ?_⟩
    cases tr.pump <;> simp [Pump.stepsLeft]
  · have hmeets : AllComplete t x ↔ AllComplete t _ ∧
        Runs.Meets _ (fun (x : Sender × Ledger) a => PumpSafe t x.1 a) _ as :=
      Runs.good_iff_meets hrun hbooks fun a _ u v hu hstep => hu.step hstep
    rw [Runs.meets_recorded, and_iff_right hall] at hmeets
    rw [← hmeets]
    cases ht : x.1.transports[t]? with
    | none => simp [GivenBack, AllComplete, ht, hx.none ht]
    | some tr =>
        have haccount := hx.some tr ht
        have hgiven : GivenBack t x ↔
            tr.pump.held = [] ∧ x.2.claimed = x.2.sent ++ x.2.returned := by
          simp [GivenBack, ht]
        have hcomplete : AllComplete t x ↔ Complete tr x.2 := by
          simp [AllComplete, ht]
        rw [hgiven, hcomplete]
        have hbooks' := haccount.books
        constructor
        · rintro ⟨hheld, hclaimed⟩
          refine ⟨by rw [hheld, hclaimed, List.append_nil], ?_⟩
          rcases hover.pump hx.wired ht haccount.filled with hp | hp | ⟨-, hne⟩
          · exact stuck_of_notStarted hp
          · rw [Transport.stuck, hp]
          · exact absurd hheld hne
        · rintro ⟨hlen, hstuck⟩
          have hheld : tr.pump.held = [] := by
            rcases hover.pump hx.wired ht haccount.filled with hp | hp | ⟨hs, -⟩
            · rw [hp]
              rfl
            · rw [hp]
              rfl
            · exact absurd (hstuck.symm.trans hs) Bool.false_ne_true
          refine ⟨hheld, ?_⟩
          have heq := hbooks'.eq_of_length hlen.symm
          rw [← heq, hheld, List.append_nil]

/-- Relay 0 closes while its pump reads, and the pump puts its chunk back. -/
theorem gives_back_iff_requeued :
    ∃ x, Runs.run (Runs.recorded (step sampleConfig oneByteFile) (note 0))
        (start sampleConfig oneByteFile, {}) requeuedRun = some x ∧
      x.2 = ⟨[0], [], [0]⟩ ∧ GivenBack 0 x := by
  refine ⟨_, rfl, rfl, ?_⟩
  refine ((gives_back_iff sampleConfig oneByteFile 0 requeuedRun _ rfl).2 ?_).mpr (by decide)
  intro ev
  cases ev <;> rfl

/-! ### A channel that closes while its pump waits -/

/-- One data channel and no relay. -/
def oneChannel : Config := { numRelay := 0, numP2P := 1, infoLength := fun _ => 90 }

/-- The pump of the channel has sent the chunks below `i` of 18, and nothing has
left the buffer. -/
def Burst (file : File) (i : Nat) (s : Sender) : Prop :=
  ∃ tr, s.transports[0]? = some tr ∧ tr.kind = .p2p 0 ∧ tr.readyState = .opened ∧
    tr.pump = .sending ((List.range' i (18 - i)).map (readChunk file)) ∧
    tr.bufferedAmount = i * (64 * 1024)

/-- The pump of the channel reads its first batch, which is the whole file. -/
def readingAll (file : File) : Sender where
  file := file
  totalChunks := Web.totalChunks file
  nextChunkIndex := 18
  sendingStarted := true
  transports := [{
    kind := .p2p 0, readyState := .opened, ready := true, pump := .reading ⟨[], 0, 18⟩ }]
  connections := [0]

section Burst

variable {file : File} {s : Sender} {i : Nat}

theorem onopen_oneChannel (hchunks : Web.totalChunks file = 18) :
    step oneChannel file (start oneChannel file) (.onopen 0) = some (readingAll file) := by
  have hstart : start oneChannel file = {
      file := file
      totalChunks := Web.totalChunks file
      transports := [{ kind := .p2p 0 }]
      connections := [0] } := rfl
  rw [hstart]
  simp [step, onopen, opened, tryStart, relayReady, p2pReady, launch, put, pumpLoop,
    Engine.moreWork, Engine.claimBatch, hchunks, Pump.started, readingAll, batchSize]

theorem burst_read (file : File) :
    ∃ s, step oneChannel file (readingAll file) (.pump 0 (.read true)) = some s ∧
      Burst file 0 s := by
  have hturn : Turn (readingAll file).toEngine {
      kind := .p2p 0, readyState := .opened, ready := true, pump := .reading ⟨[], 0, 18⟩ }
      (.read true) _ := .read true rfl
  rw [finishRead_ok] at hturn
  exact ⟨_, step_iff.mpr (.pump rfl hturn), _, rfl, rfl, rfl, rfl, (Nat.zero_mul _).symm⟩

/-- A chunk that is not the last one goes into the buffer, while this is below
its limit. -/
theorem burst_send (h : Burst file i s) (hi : i < 17)
    (hfull : (readChunk file i).data.length = 64 * 1024) :
    ∃ s', step oneChannel file s (.pump 0 (.send false)) = some s' ∧ Burst file (i + 1) s' := by
  obtain ⟨tr, ht, hkind, hopen, hpump, hbuffer⟩ := h
  obtain ⟨n, hn⟩ : ∃ n, 18 - i = n + 2 := ⟨16 - i, by omega⟩
  rw [hn, List.range'_succ, List.map_cons] at hpump
  have hturn := Turn.p2pSend (e := s.toEngine) false hkind hpump
  have hroom : ¬ p2pBufHigh < tr.bufferedAmount := by
    rw [hbuffer, p2pBufHigh]
    omega
  have hrest : (List.range' (i + 1) (n + 1)).map (readChunk file) ≠ [] := by
    simp [List.range'_succ]
  rw [blast, if_neg (not_not.mpr hopen), if_neg hroom, if_neg Bool.false_ne_true,
    if_neg hrest] at hturn
  refine ⟨_, step_iff.mpr (.pump ht hturn), _,
    List.getElem?_set_self (List.getElem?_eq_some_iff.mp ht).1, hkind, hopen, ?_, ?_⟩
  · rw [(show 18 - (i + 1) = n + 1 by omega)]
  · have hpush : ∀ p : Pump, ({ tr.push (.chunk (readChunk file i)) (readChunk file i).data.length
        with pump := p } : Transport).bufferedAmount =
          tr.bufferedAmount + (readChunk file i).data.length := by
      intro p
      simp [Transport.bufferedAmount, Transport.push]
    rw [hpush, hbuffer, hfull]
    omega

theorem burst_sends (hfull : ∀ i < 17, (readChunk file i).data.length = 64 * 1024) (k : Nat)
    (h : Burst file i s) (hik : i + k ≤ 17) :
    ∃ s', Runs.run (step oneChannel file) s (List.replicate k (.pump 0 (.send false))) = some s' ∧
      Burst file (i + k) s' := by
  induction k generalizing i s with
  | zero => exact ⟨s, rfl, h⟩
  | succ k ih =>
      obtain ⟨s₁, hs₁, h₁⟩ := burst_send h (by omega) (hfull i (by omega))
      obtain ⟨s₂, hs₂, h₂⟩ := ih h₁ (by omega)
      refine ⟨s₂, ?_, by rwa [(show i + (k + 1) = i + 1 + k by omega)]⟩
      simpa [List.replicate_succ, Runs.run, hs₁] using hs₂

/-- The last chunk waits for room in the buffer, and the channel closes. -/
theorem burst_stuck (h : Burst file 17 s) :
    ∃ s' tr, Runs.run (step oneChannel file) s [.pump 0 (.send false), .onclose 0] = some s' ∧
      s'.transports[0]? = some tr ∧ tr.kind = .p2p 0 ∧ tr.readyState = .closed ∧
      tr.pump = .waiting [readChunk file 17] := by
  obtain ⟨tr, ht, hkind, hopen, hpump, hbuffer⟩ := h
  have hlt := (List.getElem?_eq_some_iff.mp ht).1
  have hlast : tr.pump = .sending [readChunk file 17] := hpump
  have hturn : Turn s.toEngine tr (.send false) _ := .p2pSend false hkind hlast
  have hroom : p2pBufHigh < tr.bufferedAmount := by
    rw [hbuffer, p2pBufHigh]
    omega
  rw [blast, if_neg (not_not.mpr hopen), if_pos hroom] at hturn
  generalize hw : ({ tr with pump := .waiting [readChunk file 17] } : Transport) = w at hturn
  have hset : (s.put 0 (s.toEngine, w)).transports[0]? = some w := List.getElem?_set_self hlt
  have hnotClosed : w.readyState ≠ .closed := by
    rw [← hw]
    simp [hopen]
  have hcloses : step oneChannel file (s.put 0 (s.toEngine, w)) (.onclose 0) = some _ :=
    step_iff.mpr (.onclose hset hnotClosed)
  have hwaits : step oneChannel file s (.pump 0 (.send false)) = some _ :=
    step_iff.mpr (.pump ht hturn)
  have hrun : Runs.run (step oneChannel file) s [.pump 0 (.send false), .onclose 0] =
      step oneChannel file (s.put 0 (s.toEngine, w)) (.onclose 0) := by
    simp [Runs.run, hwaits]
  have hlt' := (List.getElem?_eq_some_iff.mp hset).1
  refine ⟨_, _, hrun.trans hcloses, List.getElem?_set_self hlt', ?_, rfl, ?_⟩
  · rw [← hw]
    exact hkind
  · rw [← hw]

end Burst

/-- 18 full chunks. -/
def bigFile : File := ⟨"a.bin", "", List.replicate (18 * chunkPayloadSize) 0⟩

theorem totalChunks_bigFile : Web.totalChunks bigFile = 18 := by
  rw [Web.totalChunks, bigFile, File.size, List.length_replicate]
  rfl

theorem readChunk_bigFile {i : Nat} (hi : i < 18) :
    (readChunk bigFile i).data.length = 64 * 1024 := by
  have hindex : (setUint32 i).length = 4 := BigEndian.length_toBytes 4 i
  have hblock : (payload bigFile i).length = chunkPayloadSize := by
    rw [payload, Tiling.length_block, bigFile, List.length_replicate, chunkPayloadSize]
    omega
  rw [readChunk_data, List.length_append, hindex, hblock]
  rfl

/-- Seventeen chunks are sent, the eighteenth waits for room in the buffer, and
the channel closes. -/
def stuckRun : List Action :=
  .onopen 0 :: .pump 0 (.read true) :: (List.replicate 17 (.pump 0 (.send false)) ++
    [.pump 0 (.send false), .onclose 0])

theorem run_stuckRun : ∃ s tr,
    Runs.run (step oneChannel bigFile) (start oneChannel bigFile) stuckRun = some s ∧
      s.transports[0]? = some tr ∧ tr.kind = .p2p 0 ∧ tr.readyState = .closed ∧
      tr.pump = .waiting [readChunk bigFile 17] := by
  obtain ⟨s₀, hread, h₀⟩ := burst_read bigFile
  obtain ⟨s₁, hsends, h₁⟩ := burst_sends (fun i hi => readChunk_bigFile (by omega)) 17 h₀ le_rfl
  obtain ⟨s₂, tr, hlast, htr⟩ := burst_stuck h₁
  refine ⟨s₂, tr, ?_, htr⟩
  rw [stuckRun, Runs.run, onopen_oneChannel totalChunks_bigFile, Option.bind_some, Runs.run, hread,
    Option.bind_some, Runs.run_append, hsends, Option.bind_some, hlast]

/-- The last chunk stays with the pump, which has no step left. -/
theorem not_gives_back_stuck :
    ¬ ∀ (cfg : Config) (file : File) (t : Nat) (as : List Action) (x : Sender × Ledger),
      Runs.run (Runs.recorded (step cfg file) (note t)) (start cfg file, {}) as = some x →
        Runs.Meets (step cfg file) ReadsSucceed (start cfg file) as →
          PumpOver cfg file x.1 t → GivenBack t x := by
  intro h
  obtain ⟨s, tr, hrun, ht, hkind, hclosed, hpump⟩ := run_stuckRun
  obtain ⟨l, hl⟩ := @Runs.exists_recorded _ _ _ _ (note 0) _ _ _ hrun {}
  have hreads : Runs.Meets (step oneChannel bigFile) ReadsSucceed (start oneChannel bigFile)
      stuckRun := by
    apply Runs.meets_of_forall
    simp [stuckRun, ReadsSucceed]
  have hover : PumpOver oneChannel bigFile s 0 := by
    intro ev
    cases ev <;> simp [step, ht, pumpStep, hpump, hkind, hclosed]
  have hheld := (h oneChannel bigFile 0 stuckRun (s, l) hl hreads hover).1 tr ht
  simp [hpump, Pump.held] at hheld

end Sender

end FastTransfer.Web
