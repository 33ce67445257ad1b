import FastTransfer.Server.TcpRelay

/-!
# Senders and receivers at the TCP relay

The protocol gives every connection a role byte, `S` or `R`; `handleRelayConn`
reads it and pairs by room alone.
-/

namespace FastTransfer.Server

namespace RelayHub

/-- The role byte `S`. -/
def senderRole : UInt8 := 83

/-- The role byte `R`. -/
def receiverRole : UInt8 := 82

/-- Of two connections of the same room one has the role of a sender, the other
of a receiver. -/
def Opposite (s : RelayHub) (a b : Nat) : Prop :=
  ∃ header header', s.header a = some header ∧ s.header b = some header' ∧
    header.roomID = header'.roomID ∧
    (header.role = senderRole ∧ header'.role = receiverRole ∨
      header.role = receiverRole ∧ header'.role = senderRole)

/-- No connection asks for a peer while one of its own role is pending in its
room. -/
def OtherRolePending (s : RelayHub) : Action → Prop
  | .pair c => ∀ header ∈ s.header c, ∀ peer ∈ s.pending header.roomID,
      ∀ header' ∈ s.header peer, header'.role ≠ header.role
  | _ => True

instance decidableOtherRolePending (s : RelayHub) : ∀ a, Decidable (OtherRolePending s a)
  | .pair c =>
      -- each quantifier is over an option; there are too many headers to try them all
      @Option.decidableForallMem Header _ (fun header =>
        @Option.decidableForallMem Nat _ (fun peer =>
          @Option.decidableForallMem Header _ (fun header' =>
            inferInstanceAs (Decidable (header'.role ≠ header.role))) (s.header peer))
          (s.pending header.roomID)) (s.header c)
  | .accept | .readHeader _ _ | .afterFunc _ | .timer _ | .pipeEnd _ _ =>
      inferInstanceAs (Decidable True)

/-- Every header so far has the role of a sender or of a receiver. -/
def ValidRoles (s : RelayHub) : Prop :=
  ∀ c header, s.header c = some header → header.role = senderRole ∨ header.role = receiverRole

section Roles

variable {s t : RelayHub} {c : Nat} {stage stage' : Stage} {a : Action}

theorem header_of (hc : s.conns[c]? = some stage) : s.header c = stage.header := by
  rw [RelayHub.header, hc, Option.bind_some]

theorem header_goto (hc : s.conns[c]? = some stage) (stage' : Stage) :
    (s.goto c stage').header = Function.update s.header c stage'.header := by
  funext d
  have hlt := (List.getElem?_eq_some_iff.mp hc).1
  by_cases hdc : d = c
  · simp [hdc, RelayHub.header, goto, List.getElem?_set_self hlt]
  · simp [RelayHub.header, goto, List.getElem?_set_ne (Ne.symm hdc), Function.update_of_ne hdc]

theorem header_goto_same (hc : s.conns[c]? = some stage) (stage' : Stage)
    (h : stage'.header = stage.header) : (s.goto c stage').header = s.header := by
  rw [header_goto hc, h, ← header_of hc, Function.update_eq_self]

/-- Only a connection that has read its header gets one. -/
theorem header_steps (h : Steps s a t) :
    t.header = s.header ∨ ∃ c header, a = .readHeader c (some header) ∧ s.header c = none ∧
      t.header = Function.update s.header c (some header) := by
  cases h with
  | accept => exact .inl (funext (bind_accept Stage.header rfl))
  | @read c hc header => exact .inr ⟨c, header, rfl, header_of hc, header_goto hc _⟩
  | fail hc => exact .inl (header_goto_same hc .shortHeader rfl)
  | @start c peer header hc =>
      exact .inl (header_goto_same hc (.relaying header peer false false) rfl)
  | @wait c header hc => exact .inl (header_goto_same hc (.stored header) rfl)
  | @arm c header hc => exact .inl (header_goto_same hc (.armed header) rfl)
  | @expire c header hc => exact .inl (header_goto_same hc (.timerRan header true) rfl)
  | @stale c header hc => exact .inl (header_goto_same hc (.timerRan header false) rfl)
  | @endToPeer c peer header connDone hc =>
      exact .inl (header_goto_same hc (.relaying header peer connDone true) rfl)
  | @endToConn c peer header peerDone hc =>
      exact .inl (header_goto_same hc (.relaying header peer true peerDone) rfl)

theorem header_mono (h : Steps s a t) {header : Header} (hc : s.header c = some header) :
    t.header c = some header := by
  rcases header_steps h with ht | ⟨d, header', -, hd, ht⟩
  · rw [ht, hc]
  · have hcd : c ≠ d := by
      rintro rfl
      rw [hd] at hc
      cases hc
    rw [ht, Function.update_of_ne hcd, hc]

theorem ValidRoles.steps (hs : ValidRoles s) (h : Steps s a t)
    (ha : ∀ c header, a = .readHeader c (some header) →
      header.role = senderRole ∨ header.role = receiverRole) : ValidRoles t := by
  intro c header hc
  rcases header_steps h with ht | ⟨d, header', rfl, -, ht⟩
  · rw [ht] at hc
    exact hs c header hc
  · rw [ht, Function.update_apply] at hc
    split_ifs at hc
    · obtain rfl := Option.some.inj hc
      exact ha d header' rfl
    · exact hs c header hc

theorem opposite_iff (hs : ValidRoles s) {d : Nat} {header header' : Header}
    (hc : s.header c = some header) (hd : s.header d = some header')
    (hroom : header.roomID = header'.roomID) :
    Opposite s c d ↔ header'.role ≠ header.role := by
  have hdiff : senderRole ≠ receiverRole := by decide
  constructor
  · rintro ⟨header₁, header₂, hc', hd', -, hroles⟩
    obtain rfl := Option.mem_unique hc hc'
    obtain rfl := Option.mem_unique hd hd'
    rcases hroles with ⟨h, h'⟩ | ⟨h, h'⟩
    · rw [h, h']
      exact hdiff.symm
    · rw [h, h']
      exact hdiff
  · intro hne
    refine ⟨header, header', hc, hd, hroom, ?_⟩
    rcases hs c header hc with h | h <;> rcases hs d header' hd with h' | h'
    · exact absurd (h'.trans h.symm) hne
    · exact .inl ⟨h, h'⟩
    · exact .inr ⟨h, h'⟩
    · exact absurd (h'.trans h.symm) hne

/-- Every session joins a sender with a receiver of the same room. -/
def AllOpposite (s : RelayHub) : Prop := ∀ a b, JoinedBy s a b → Opposite s a b

/-- A session that was there before joins what it joined. -/
theorem Disciplined.opposite_steps (hs : Disciplined s) (h : Steps s a t) {x y : Nat}
    (hxy : JoinedBy s x y) : Opposite t x y ↔ Opposite s x y := by
  obtain ⟨-, header, header', hx, hy, -⟩ := hs.orderly.same_room x y hxy
  simp only [Opposite, hx, hy, header_mono h hx, header_mono h hy]

/-- A step that starts no session meets the condition. -/
theorem Disciplined.allOpposite_same (hs : Disciplined s) (h : Steps s a t)
    (hsession : t.session = s.session) (hok : OtherRolePending s a) :
    AllOpposite t ↔ AllOpposite s ∧ OtherRolePending s a := by
  have hjoined : ∀ x y, JoinedBy t x y ↔ JoinedBy s x y := by
    simp only [JoinedBy, hsession, implies_true]
  rw [and_iff_left hok]
  refine forall_congr' fun x => forall_congr' fun y => ?_
  rw [hjoined]
  exact forall_congr' fun hxy => hs.opposite_steps h hxy

theorem Disciplined.allOpposite_start (hs : Disciplined s) (hv : ValidRoles s) {peer : Nat}
    {header : Header} (h : Steps s a t) (hc : s.header c = some header) (hnew : s.session c = none)
    (hpeer : s.pending header.roomID = some peer)
    (hsession : t.session = Function.update s.session c (some (header, peer)))
    (hheader : t.header = s.header) :
    AllOpposite t ↔ AllOpposite s ∧ OtherRolePending s (.pair c) := by
  obtain ⟨header', hreg, hroom⟩ := hs.own _ peer hpeer
  have hp := header_of_registered hreg
  have hok : OtherRolePending s (.pair c) ↔ Opposite t c peer := by
    have hvt : ValidRoles t := by rwa [ValidRoles, hheader]
    rw [opposite_iff hvt (by rw [hheader, hc]) (by rw [hheader, hp]) hroom.symm]
    simp [OtherRolePending, hc, hpeer, hp]
  have hold : ∀ x y, JoinedBy s x y → JoinedBy t x y := by
    rintro x y ⟨header₀, hx⟩
    have hxc : x ≠ c := by
      rintro rfl
      rw [hnew] at hx
      cases hx
    exact ⟨header₀, by rw [hsession, Function.update_of_ne hxc, hx]⟩
  rw [hok]
  constructor
  · refine fun hall => ⟨fun x y hxy => ?_, hall c peer ⟨header, ?_⟩⟩
    · exact (hs.opposite_steps h hxy).mp (hall x y (hold x y hxy))
    · rw [hsession, Function.update_self]
  · rintro ⟨hall, hcp⟩ x y ⟨header₀, hx⟩
    rw [hsession, Function.update_apply] at hx
    split_ifs at hx with hxc
    · obtain ⟨rfl, rfl⟩ := Prod.mk.inj (Option.some.inj hx)
      exact hxc ▸ hcp
    · have hxy : JoinedBy s x y := ⟨header₀, hx⟩
      exact (hs.opposite_steps h hxy).mpr (hall x y hxy)

/-- **A step keeps every session between a sender and a receiver exactly when it
meets the condition.** -/
theorem Disciplined.allOpposite_steps (hs : Disciplined s) (hv : ValidRoles s)
    (h : Steps s a t) : AllOpposite t ↔ AllOpposite s ∧ OtherRolePending s a := by
  have hsteps := h
  cases h with
  | accept =>
      exact hs.allOpposite_same hsteps (funext (bind_accept Stage.session rfl)) trivial
  | @read c hc header =>
      exact hs.allOpposite_same hsteps (session_goto_same hc (.gotHeader header) rfl) trivial
  | fail hc => exact hs.allOpposite_same hsteps (session_goto_same hc .shortHeader rfl) trivial
  | @start c peer header hc hpeer =>
      exact hs.allOpposite_start hv hsteps (header_of hc) (session_of hc) hpeer
        (session_goto hc (.relaying header peer false false))
        (header_goto_same hc (.relaying header peer false false) rfl)
  | @wait c header hc hfree =>
      apply hs.allOpposite_same hsteps (session_goto_same hc (.stored header) rfl)
      simp [OtherRolePending, header_of hc, Stage.header, hfree]
  | @arm c header hc =>
      exact hs.allOpposite_same hsteps (session_goto_same hc (.armed header) rfl) trivial
  | @expire c header hc =>
      exact hs.allOpposite_same hsteps (session_goto_same hc (.timerRan header true) rfl) trivial
  | @stale c header hc =>
      exact hs.allOpposite_same hsteps (session_goto_same hc (.timerRan header false) rfl) trivial
  | @endToPeer c peer header connDone hc =>
      exact hs.allOpposite_same hsteps
        (session_goto_same hc (.relaying header peer connDone true) rfl) trivial
  | @endToConn c peer header peerDone hc =>
      exact hs.allOpposite_same hsteps
        (session_goto_same hc (.relaying header peer true peerDone) rfl) trivial

end Roles

/-- **The relay joins a sender with a receiver** of the same room in every session
of a run if and only if no connection asks for a peer while one of its own role is pending
in its room. -/
theorem joins_opposite_iff (as : List Action) (s : RelayHub) (hrun : Runs.run step {} as = some s)
    (hroles : ∀ c header, .readHeader c (some header) ∈ as →
      header.role = senderRole ∨ header.role = receiverRole) :
    AllOpposite s ↔ Runs.Meets step OtherRolePending {} as := by
  have hempty : Disciplined {} ∧ ValidRoles {} := ⟨disciplined_empty, by simp [ValidRoles, header]⟩
  have hiff : AllOpposite s ↔ AllOpposite {} ∧ Runs.Meets step OtherRolePending {} as := by
    apply Runs.good_iff_meets (I := fun u => Disciplined u ∧ ValidRoles u) hrun hempty
    rintro a ha u v ⟨hu, hv⟩ hstep
    have hsteps := steps_of_step hstep
    refine ⟨⟨hu.steps hsteps, hv.steps hsteps ?_⟩, hu.allOpposite_steps hv hsteps⟩
    rintro c header rfl
    exact hroles c header ha
  rw [hiff]
  exact and_iff_right (by simp [AllOpposite, JoinedBy, session])

theorem joins_opposite_iff_reuse :
    ∃ s, Runs.run step {} reuseRun = some s ∧ AllOpposite s := by
  refine ⟨_, rfl, (joins_opposite_iff reuseRun _ rfl fun c header h => ?_).mpr (by decide)⟩
  simp only [reuseRun, List.mem_cons, Action.readHeader.injEq, Option.some.injEq, reduceCtorEq,
    List.not_mem_nil, false_or, or_false] at h
  rcases h with ⟨-, rfl⟩ | ⟨-, rfl⟩ | ⟨-, rfl⟩
  · exact .inl rfl
  · exact .inr rfl
  · exact .inl rfl

/-- A sender opens two streams before its receiver opens any. -/
theorem not_joins_opposite_twoStreams :
    ¬ ∀ (as : List Action) (s : RelayHub), Runs.run step {} as = some s →
      (∀ c header, .readHeader c (some header) ∈ as →
        header.role = senderRole ∨ header.role = receiverRole) → AllOpposite s := by
  intro h
  have hjoined := h [.accept, .accept, .readHeader 0 (some (roomHeader senderRole)), .pair 0,
    .readHeader 1 (some (roomHeader senderRole)), .pair 1] _ rfl ?_ 1 0 ⟨_, rfl⟩
  · obtain ⟨header, header', hc, hd, -, hroles⟩ := hjoined
    obtain rfl := Option.some.inj hc
    obtain rfl := Option.some.inj hd
    exact absurd hroles (by decide)
  · intro c header hmem
    simp only [List.mem_cons, Action.readHeader.injEq, Option.some.injEq, reduceCtorEq,
      List.not_mem_nil, false_or, or_false] at hmem
    rcases hmem with ⟨-, rfl⟩ | ⟨-, rfl⟩
    · exact .inl rfl
    · exact .inl rfl

end RelayHub

end FastTransfer.Server
