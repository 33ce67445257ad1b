import Mathlib.Data.List.Nodup
import FastTransfer.Web.Sender

/-!
# What a step of a pump does to the chunks

An index below `totalChunks` is unclaimed, waiting in `retryIndices`, in the
unsent part of a pump's batch, or handed to a transport. `Moves` says once
what a step of a pump does to these places; everything that is proved about
the counts is read off from it.
-/

namespace FastTransfer.Web

/-! ## The places of an index -/

/-- The indices that a claim takes, in their order. -/
def Claim.indices (c : Claim) : List Nat := c.retryIdx ++ List.range' c.startIdx c.count

/-- The indices that a pump has claimed and not sent. -/
def Pump.held : Pump → List Nat
  | .reading claim => claim.indices
  | .sending batch | .waiting batch | .resolved batch _ => batch.map (·.index)
  | .notStarted | .ended => []

/-- The entries that a pump has read and not sent. -/
def Pump.entries : Pump → List Entry
  | .sending batch | .waiting batch | .resolved batch _ => batch
  | .notStarted | .reading _ | .ended => []

/-- The index of a chunk frame. -/
def Frame.chunkIndex : Frame → Option Nat
  | .chunk entry => some entry.index
  | .fileInfo _ => none

/-- The indices handed to a transport: drained, or still in its buffer. -/
def Transport.handed (tr : Transport) : List Nat :=
  (tr.drained ++ tr.buffer.map (·.frame)).filterMap Frame.chunkIndex

/-- How many times the index is in the hands of the transport or its pump. -/
def Transport.holds (tr : Transport) (i : Nat) : Nat :=
  tr.pump.held.count i + tr.handed.count i

/-- How many claims have taken `i` as a new index. -/
def Engine.claimed (e : Engine) (i : Nat) : Nat := if i < e.nextChunkIndex then 1 else 0

/-- The payload bytes of a list of indices. -/
def payloadSize (file : File) (is : List Nat) : Nat :=
  (is.map fun i => (payload file i).length).sum

/-- What the pump is about to send was read from the file. -/
def Transport.WellRead (file : File) (tr : Transport) : Prop :=
  ∀ b ∈ tr.pump.entries, b = readChunk file b.index

@[simp] theorem Pump.held_reading (c : Claim) : (Pump.reading c).held = c.indices := rfl

@[simp] theorem Pump.held_ended : Pump.ended.held = [] := rfl

@[simp] theorem Transport.handed_setPump (tr : Transport) (p : Pump) :
    ({ tr with pump := p } : Transport).handed = tr.handed := rfl

theorem Transport.handed_push (tr : Transport) (b : Entry) (size : Nat) :
    (tr.push (.chunk b) size).handed = tr.handed ++ [b.index] := by
  simp [handed, push, Frame.chunkIndex]

theorem readBatch_eq (e : Engine) (c : Claim) :
    e.readBatch c = c.indices.map (readChunk e.file) := by
  rw [Engine.readBatch, readBulk_eq, Claim.indices, List.map_append, List.range'_eq_map_range,
    List.map_map]
  rfl

/-! ## What a step of a pump does -/

/-- Chunks move between the queue, the pump's batch and the transport; none
appears, only those in `lost` disappear, and the counters follow. -/
structure Moves (lost : List Nat) (e : Engine) (tr : Transport) (e' : Engine) (tr' : Transport) :
    Prop where
  file : e'.file = e.file
  total : e'.totalChunks = e.totalChunks
  started : e'.sendingStarted = e.sendingStarted
  next_le : e.nextChunkIndex ≤ e.totalChunks → e'.nextChunkIndex ≤ e.totalChunks
  balance : ∀ i, e'.retryIndices.count i + tr'.holds i + lost.count i + e.claimed i =
    e.retryIndices.count i + tr.holds i + e'.claimed i
  sent : e'.sentChunks + tr.handed.length = e.sentChunks + tr'.handed.length
  bytes : e'.bytesTransferred + payloadSize e.file tr.handed =
    e.bytesTransferred + payloadSize e.file tr'.handed
  wellRead : tr'.WellRead e.file
  completions : e'.drainWaits + e'.onCompleteCalls + e.completeFired.toNat =
    e.drainWaits + e.onCompleteCalls + e'.completeFired.toNat
  calls : e'.onCompleteCalls = e.onCompleteCalls
  sent_le : e.sentChunks ≤ e'.sentChunks
  fired : e'.completeFired = true → e.completeFired = true ∨ e.totalChunks ≤ e'.sentChunks
  kept : e.completeFired = true → e'.completeFired = true
  done : e'.sentChunks = e.totalChunks → e.sentChunks = e'.sentChunks ∨ e'.completeFired = true

theorem Moves.trans {l l' : List Nat} {e e₁ e₂ : Engine} {tr tr₁ tr₂ : Transport}
    (h : Moves l e tr e₁ tr₁) (h' : Moves l' e₁ tr₁ e₂ tr₂) : Moves (l ++ l') e tr e₂ tr₂ where
  file := h'.file.trans h.file
  total := h'.total.trans h.total
  started := h'.started.trans h.started
  next_le hle := h.total ▸ h'.next_le (h.total.symm ▸ h.next_le hle)
  balance i := by
    have := h.balance i
    have := h'.balance i
    rw [List.count_append]
    omega
  sent := by
    have := h.sent
    have := h'.sent
    omega
  bytes := by
    have := h.bytes
    have := h'.bytes
    rw [h.file] at this
    omega
  wellRead := h.file ▸ h'.wellRead
  completions := by
    have := h.completions
    have := h'.completions
    omega
  calls := h'.calls.trans h.calls
  sent_le := h.sent_le.trans h'.sent_le
  fired hfired := by
    rcases h'.fired hfired with hfired | hle
    · exact (h.fired hfired).imp id fun hle => hle.trans h'.sent_le
    · exact .inr (h.total ▸ hle)
  kept hfired := h'.kept (h.kept hfired)
  done hdone := by
    rcases h'.done (hdone.trans h.total.symm) with heq | hfired
    · rcases h.done (heq.trans hdone) with heq' | hfired
      · exact .inl (heq'.trans heq)
      · exact .inr (h'.kept hfired)
    · exact .inr hfired

/-- A pump that only changes its state keeps everything, if it keeps its chunks. -/
theorem moves_setPump (e : Engine) (tr : Transport) (p : Pump) (hheld : p.held = tr.pump.held)
    (hread : ({ tr with pump := p } : Transport).WellRead e.file) :
    Moves [] e tr e { tr with pump := p } where
  file := rfl
  total := rfl
  started := rfl
  next_le := id
  balance i := by simp [Transport.holds, hheld]
  sent := rfl
  bytes := rfl
  wellRead := hread
  completions := rfl
  calls := rfl
  sent_le := le_rfl
  fired := .inl
  kept := id
  done _ := .inl rfl

theorem moves_giveUp (e : Engine) (tr : Transport) (batch : List Entry)
    (hheld : tr.pump.held = batch.map (·.index)) :
    Moves [] e tr (giveUp e tr batch).1 (giveUp e tr batch).2 where
  file := rfl
  total := rfl
  started := rfl
  next_le := id
  balance i := by
    have hclaimed : (giveUp e tr batch).1.claimed i = e.claimed i := rfl
    rw [hclaimed]
    simp only [giveUp, Engine.requeue, Transport.holds, hheld, List.count_append, Pump.held_ended,
      List.count_nil, Transport.handed_setPump]
    omega
  sent := rfl
  bytes := rfl
  wellRead := by simp [giveUp, Transport.WellRead, Pump.entries]
  completions := rfl
  calls := rfl
  sent_le := le_rfl
  fired := .inl
  kept := id
  done _ := .inl rfl

theorem count_range' (s n i : Nat) :
    (List.range' s n).count i = if s ≤ i ∧ i < s + n then 1 else 0 := by
  rw [List.Nodup.count List.nodup_range']
  simp only [List.mem_range'_1]

theorem moves_pumpLoop (e : Engine) (tr : Transport) (hheld : tr.pump.held = []) :
    Moves [] e tr (pumpLoop e tr).1 (pumpLoop e tr).2 := by
  by_cases hwork : e.moreWork = true
  · rw [pumpLoop, if_pos hwork]
    refine ⟨rfl, rfl, rfl, ?_, ?_, rfl, rfl, ?_, rfl, rfl, le_rfl, .inl, id, fun _ => .inl rfl⟩
    · intro hle
      simp only [Engine.claimBatch]
      omega
    · intro i
      have hsplit : e.retryIndices.count i =
          (e.retryIndices.take batchSize).count i + (e.retryIndices.drop batchSize).count i := by
        rw [← List.count_append, List.take_append_drop]
      -- the claimed range moves from "unclaimed" into the batch
      have hrange : (List.range' e.nextChunkIndex e.claimBatch.1.count).count i + e.claimed i =
          e.claimBatch.2.claimed i := by
        rw [count_range', Engine.claimed, Engine.claimed]
        show _ = if i < e.nextChunkIndex + e.claimBatch.1.count then 1 else 0
        split_ifs <;> omega
      simp only [Transport.holds, hheld, Pump.held_reading, Claim.indices, List.count_append,
        Transport.handed_setPump, List.count_nil, hsplit, ← hrange]
      simp only [Engine.claimBatch]
      omega
    · simp [Transport.WellRead, Pump.entries]
  · rw [pumpLoop, if_neg hwork]
    exact moves_setPump e tr .ended hheld.symm (by simp [Transport.WellRead, Pump.entries])

theorem payloadSize_append (file : File) (is js : List Nat) :
    payloadSize file (is ++ js) = payloadSize file is + payloadSize file js := by
  simp [payloadSize]

theorem payloadSize_singleton (file : File) (i : Nat) :
    payloadSize file [i] = (payload file i).length := by
  rw [payloadSize, List.map_singleton, List.sum_singleton]

/-- The bookkeeping of a send: the two counters, and the completion block when
the last chunk has been sent. -/
theorem countSent_spec (e : Engine) (size : Nat) : ∃ fired waits,
    e.countSent size = { e with
      sentChunks := e.sentChunks + 1
      bytesTransferred := e.bytesTransferred + size
      completeFired := fired
      drainWaits := waits } ∧
    (fired = true ↔ e.completeFired = true ∨ e.sentChunks + 1 = e.totalChunks) ∧
    waits + e.completeFired.toNat = e.drainWaits + fired.toNat := by
  rw [Engine.countSent, Engine.checkDone]
  split_ifs with h
  · have hlast : e.sentChunks + 1 = e.totalChunks := h.1
    have hf : e.completeFired = false := h.2
    exact ⟨_, _, rfl, by simp [hlast], by simp [hf]⟩
  · rw [not_and, Bool.not_eq_false] at h
    exact ⟨_, _, rfl, ⟨.inl, fun hor => hor.elim id h⟩, rfl⟩

theorem pumpLoop_setPump (e : Engine) (tr : Transport) (p : Pump) :
    pumpLoop e { tr with pump := p } = pumpLoop e tr := rfl

/-- A successful send: the first chunk of the batch goes to the transport. -/
theorem moves_send (e : Engine) (tr : Transport) (b : Entry) (p : Pump)
    (hheld : tr.pump.held = b.index :: p.held) (hb : b = readChunk e.file b.index)
    (hread : ({ tr with pump := p } : Transport).WellRead e.file) :
    Moves [] e tr (e.countSent b.size) { tr.push (.chunk b) b.data.length with pump := p } := by
  have hsize : b.size = payloadSize e.file [b.index] :=
    calc b.size = (readChunk e.file b.index).size := congrArg Entry.size hb
      _ = (payload e.file b.index).length := readChunk_size _ _
      _ = payloadSize e.file [b.index] := (payloadSize_singleton _ _).symm
  have hhanded := Transport.handed_push tr b b.data.length
  obtain ⟨fired, waits, heq, hfired, hwaits⟩ := countSent_spec e b.size
  rw [heq]
  refine ⟨rfl, rfl, rfl, id, ?_, ?_, ?_, hread, ?_, rfl, Nat.le_succ _, ?_,
    fun h => hfired.mpr (.inl h), fun h => .inr (hfired.mpr (.inr h))⟩
  · intro i
    simp only [Transport.holds, Transport.handed_setPump, hheld, hhanded, List.count_append,
      List.count_cons, List.count_nil, Engine.claimed]
    omega
  · simp only [Transport.handed_setPump, hhanded, List.length_append, List.length_singleton]
    omega
  · simp only [Transport.handed_setPump, hhanded, payloadSize_append, hsize]
    omega
  · simp only
    omega
  · intro h
    exact (hfired.mp h).imp id fun heq => heq.ge

/-! ## Every step of a pump moves chunks -/

theorem finishRead_ok (e : Engine) (tr : Transport) (claim : Claim) :
    finishRead e tr claim true = (e, { tr with
      pump := if claim.indices = [] then .ended
        else .sending (claim.indices.map (readChunk e.file)) }) := by
  by_cases h : claim.indices = []
  · simp [finishRead, readBatch_eq, h]
  · simp [finishRead, readBatch_eq, h]

/-- After `blast` a pump gives up as a relay pump does, or goes on to its next
batch; either way the unsent chunks are back in the queue. -/
theorem afterBlast_eq (e : Engine) (tr : Transport) (batch : List Entry) (failed : Bool) :
    afterBlast e tr batch failed =
      if failed = true ∨ tr.readyState ≠ .opened then giveUp e tr batch
      else pumpLoop (e.requeue (batch.map (·.index))) tr := by
  -- an empty batch is put back as well: it changes nothing
  have hput : (if batch = [] then e else e.requeue (batch.map (·.index))) =
      e.requeue (batch.map (·.index)) := by
    split_ifs with hempty
    · simp [hempty, Engine.requeue]
    · rfl
  simp only [afterBlast, hput, giveUp, Bool.or_eq_true, decide_eq_true_eq]

/-- A failed read ends the pump, and what it had claimed is nowhere any more. -/
theorem moves_failedRead {e : Engine} {tr : Transport} {claim : Claim}
    (hpump : tr.pump = .reading claim) :
    Moves claim.indices e tr (finishRead e tr claim false).1 (finishRead e tr claim false).2 where
  file := rfl
  total := rfl
  started := rfl
  next_le := id
  balance i := by
    simp [finishRead, Transport.holds, hpump]
    omega
  sent := rfl
  bytes := rfl
  wellRead := by simp [finishRead, Transport.WellRead, Pump.entries]
  completions := rfl
  calls := rfl
  sent_le := le_rfl
  fired := .inl
  kept := id
  done _ := .inl rfl

theorem moves_finishRead {e : Engine} {tr : Transport} {claim : Claim}
    (hpump : tr.pump = .reading claim) :
    Moves [] e tr (finishRead e tr claim true).1 (finishRead e tr claim true).2 := by
  rw [finishRead_ok]
  by_cases hempty : claim.indices = []
  · rw [if_pos hempty]
    refine moves_setPump e tr .ended ?_ (by simp [Transport.WellRead, Pump.entries])
    rw [hpump, Pump.held_reading, hempty, Pump.held_ended]
  · rw [if_neg hempty]
    apply moves_setPump e tr
    · simp [hpump, Pump.held, Function.comp_def]
    · intro b hb
      obtain ⟨i, -, rfl⟩ := List.mem_map.mp hb
      rfl

section Batch

/-! The pump's batch is `b :: rest`, read from the file. -/

variable {e : Engine} {tr : Transport} {b : Entry} {rest : List Entry}
  (hheld : tr.pump.held = (b :: rest).map (·.index))
  (hread : ∀ c ∈ b :: rest, c = readChunk e.file c.index)

include hheld hread

/-- After the send the pump holds the rest of the batch. -/
theorem moves_sendRest (p : Pump) (hp : p.held = rest.map (·.index)) (hpe : p.entries = rest) :
    Moves [] e tr (e.countSent b.size) { tr.push (.chunk b) b.data.length with pump := p } := by
  apply moves_send e tr b p (by rw [hheld, hp, List.map_cons]) (hread b List.mem_cons_self)
  intro c hc
  exact hread c (List.mem_cons_of_mem _ (hpe ▸ hc))

/-- The pump keeps the whole batch. -/
theorem moves_keepBatch (p : Pump) (hp : p.held = (b :: rest).map (·.index))
    (hpe : p.entries = b :: rest) : Moves [] e tr e { tr with pump := p } :=
  moves_setPump e tr p (hp.trans hheld.symm) fun c hc => hread c (hpe ▸ hc)

theorem moves_relayBackpressure (throws : Bool) :
    Moves [] e tr (relayBackpressure e tr b rest throws).1
      (relayBackpressure e tr b rest throws).2 := by
  rw [relayBackpressure]
  split_ifs with hfull hclosed hthrows hrest
  · exact moves_giveUp e tr _ hheld
  · exact moves_keepBatch hheld hread _ rfl rfl
  · exact moves_giveUp e tr _ hheld
  · -- the batch is finished, and the pump goes on to the next one
    subst hrest
    have hsend := moves_sendRest hheld hread (.sending []) rfl rfl
    have hloop := hsend.trans (moves_pumpLoop _ _ rfl)
    rwa [pumpLoop_setPump] at hloop
  · exact moves_sendRest hheld hread _ rfl rfl

theorem moves_relaySend (throws : Bool) :
    Moves [] e tr (relaySend e tr b rest throws).1 (relaySend e tr b rest throws).2 := by
  rw [relaySend]
  split_ifs with hclosed
  · exact moves_giveUp e tr _ hheld
  · exact moves_relayBackpressure hheld hread throws

theorem moves_blast (throws : Bool) :
    Moves [] e tr (blast e tr b rest throws).1 (blast e tr b rest throws).2 := by
  rw [blast]
  split_ifs with hclosed hfull hthrows hrest
  · exact moves_keepBatch hheld hread _ rfl rfl
  · exact moves_keepBatch hheld hread _ rfl rfl
  · exact moves_keepBatch hheld hread _ rfl rfl
  · subst hrest
    exact moves_sendRest hheld hread _ rfl rfl
  · exact moves_sendRest hheld hread _ rfl rfl

end Batch

theorem moves_afterBlast {e : Engine} {tr : Transport} {batch : List Entry} {failed : Bool}
    (hpump : tr.pump = .resolved batch failed) :
    Moves [] e tr (afterBlast e tr batch failed).1 (afterBlast e tr batch failed).2 := by
  have hheld : tr.pump.held = batch.map (·.index) := by rw [hpump]; rfl
  have hgive := moves_giveUp e tr batch hheld
  rw [afterBlast_eq]
  split_ifs with hquit
  · exact hgive
  · have hloop := hgive.trans (moves_pumpLoop _ _ rfl)
    simpa only [giveUp, pumpLoop_setPump, List.append_nil] using hloop

/-- The indices that a step of a pump loses: a failed read drops its claim. -/
def Transport.lostBy (tr : Transport) (ev : PumpEvent) : List Nat :=
  if ev = .read false then tr.pump.held else []

/-- **Every step of a pump moves chunks**, and only a failed file read loses any. -/
theorem Turn.moves {e : Engine} {tr : Transport} {ev : PumpEvent} {x : Engine × Transport}
    (h : Turn e tr ev x) (hread : tr.WellRead e.file) :
    Moves (tr.lostBy ev) e tr x.1 x.2 := by
  have hbatch : ∀ batch, tr.pump.entries = batch → ∀ c ∈ batch, c = readChunk e.file c.index := by
    rintro batch rfl
    exact hread
  cases h with
  | read ok hpump =>
      cases ok with
      | true => exact moves_finishRead hpump
      | false =>
          rw [Transport.lostBy, if_pos rfl, hpump]
          exact moves_failedRead hpump
  | relaySend throws hkind hpump =>
      exact moves_relaySend (by rw [hpump]; rfl) (hbatch _ (by rw [hpump]; rfl)) throws
  | p2pSend throws hkind hpump | p2pWake throws hkind hpump hopen =>
      exact moves_blast (by rw [hpump]; rfl) (hbatch _ (by rw [hpump]; rfl)) throws
  | relayWake throws hkind hpump =>
      exact moves_relayBackpressure (by rw [hpump]; rfl) (hbatch _ (by rw [hpump]; rfl)) throws
  | resume hpump => exact moves_afterBlast hpump

end FastTransfer.Web
