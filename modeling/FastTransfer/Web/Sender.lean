import Mathlib.Tactic.SplitIfs
import FastTransfer.Lib.Runs
import FastTransfer.Lib.Tally
import FastTransfer.Web.Chunks

/-!
# The sending engine

The sender side of `TransferEngine` (`web/static/js/transfer.js`):
`createOffer`, the open handlers, `_tryStart`, the two kinds of pump,
`_readBatch`, `_requeue`, `_checkDone` and `_waitForDrain`. Statistics, the
progress callback and the WebRTC negotiation are left out: the engine reads
nothing back from them. So is the control channel of P2P connection 0, on which
`createOffer` sends the file-info once more: the one of relay 0 is modelled.

A step runs one pump from where it stands to its next await, or to the send of
its next frame: the runs of the source are among the runs of this system, which
also has those where other steps come between two sends of one burst.
Transports are numbered in the order of their creation.
-/

namespace FastTransfer.Web

/-- A relay WebSocket, or the data channel of a P2P connection. -/
inductive TransportKind where
  | relay (idx : Nat)
  | p2p (idx : Nat)
  deriving DecidableEq

/-- `readyState`; `closed` also stands for `CLOSING`, which the code never
tells apart from it. -/
inductive ReadyState where
  | connecting
  | opened
  | closed
  deriving DecidableEq

/-- What a transport sends: the file-info text, or a chunk. -/
inductive Frame where
  | fileInfo (info : FileInfo)
  | chunk (entry : Entry)
  deriving DecidableEq

/-- A frame in a send buffer, with how many of its bytes are still there. -/
structure Queued where
  frame : Frame
  left : Nat
  deriving DecidableEq

/-- What a call of `_readBatch` takes before its first await. -/
structure Claim where
  retryIdx : List Nat
  startIdx : Nat
  count : Nat
  deriving DecidableEq

/-- Where a pump stands. -/
inductive Pump where
  | notStarted
  /-- Awaiting `_readBatch`. -/
  | reading (claim : Claim)
  /-- In the send loop, with this part of the batch unsent. -/
  | sending (batch : List Entry)
  /-- Waiting for the buffer to go below the high-water mark. -/
  | waiting (batch : List Entry)
  /-- P2P only: the promise around `blast` is resolved, and the pump not yet resumed. -/
  | resolved (batch : List Entry) (failed : Bool)
  | ended
  deriving DecidableEq

/-- The pump has been launched, and may have ended. -/
def Pump.started (p : Pump) : Bool := p ≠ .notStarted

/-- A transport with its pump and its send buffer. -/
structure Transport where
  kind : TransportKind
  readyState : ReadyState := .connecting
  /-- `conn.ready`, set when a P2P data channel opens. -/
  ready : Bool := false
  pump : Pump := .notStarted
  buffer : List Queued := []
  /-- The frames that have left the buffer, in order. -/
  drained : List Frame := []
  deriving DecidableEq

namespace Transport

/-- `bufferedAmount`. -/
def bufferedAmount (tr : Transport) : Nat := (tr.buffer.map (·.left)).sum

/-- What `send` does with a frame of `size` bytes. A closed socket takes it
too, and never sends it. -/
def push (tr : Transport) (f : Frame) (size : Nat) : Transport :=
  { tr with buffer := tr.buffer ++ [⟨f, size⟩] }

/-- One byte leaves the buffer; with its last byte the frame has left. -/
def drain (tr : Transport) : Option Transport :=
  match tr.buffer with
  | [] => none
  | q :: rest =>
      if 1 < q.left then some { tr with buffer := { q with left := q.left - 1 } :: rest }
      else some { tr with buffer := rest, drained := tr.drained ++ [q.frame] }

end Transport

/-! ## The fields that the pumps share -/

/-- The fields of a sending `TransferEngine` that its pumps use. -/
structure Engine where
  file : File
  totalChunks : Nat := 0
  sentChunks : Nat := 0
  bytesTransferred : Nat := 0
  nextChunkIndex : Nat := 0
  retryIndices : List Nat := []
  completeFired : Bool := false
  sendingStarted : Bool := false
  /-- The calls of `_waitForDrain` that have not returned. -/
  drainWaits : Nat := 0
  onCompleteCalls : Nat := 0

namespace Engine

/-- `_moreWork`. -/
def moreWork (e : Engine) : Bool :=
  e.nextChunkIndex < e.totalChunks || e.retryIndices ≠ []

/-- `_requeue`. -/
def requeue (e : Engine) (indices : List Nat) : Engine :=
  { e with retryIndices := e.retryIndices ++ indices }

/-- `_readBatch` up to its first await. -/
def claimBatch (e : Engine) : Claim × Engine :=
  let retryIdx := e.retryIndices.take batchSize
  let remaining := batchSize - retryIdx.length
  let startIdx := e.nextChunkIndex
  let count := min remaining (e.totalChunks - startIdx)
  (⟨retryIdx, startIdx, count⟩,
    { e with
      retryIndices := e.retryIndices.drop batchSize
      nextChunkIndex := e.nextChunkIndex + count })

/-- The rest of `_readBatch`. -/
def readBatch (e : Engine) (c : Claim) : List Entry :=
  c.retryIdx.map (readChunk e.file) ++ readBulk e.file c.startIdx c.count

/-- `_checkDone`. -/
def checkDone (e : Engine) : Engine :=
  if e.sentChunks = e.totalChunks ∧ e.completeFired = false then
    { e with completeFired := true, drainWaits := e.drainWaits + 1 }
  else e

/-- The bookkeeping after a successful send. -/
def countSent (e : Engine) (size : Nat) : Engine :=
  { e with
    sentChunks := e.sentChunks + 1
    bytesTransferred := e.bytesTransferred + size }.checkDone

end Engine

/-! ## The pumps -/

section Pumps

variable (e : Engine) (tr : Transport)

/-- The head of a pump's outer loop: claim the next batch, or end. -/
def pumpLoop : Engine × Transport :=
  if e.moreWork then (e.claimBatch.2, { tr with pump := .reading e.claimBatch.1 })
  else (e, { tr with pump := .ended })

theorem pumpLoop_snd : ∃ p, (pumpLoop e tr).2 = { tr with pump := p } := by
  rw [pumpLoop]
  split_ifs
  · exact ⟨_, rfl⟩
  · exact ⟨_, rfl⟩

/-- Return the unsent chunks so that another pump can send them, and end. -/
def giveUp (batch : List Entry) : Engine × Transport :=
  (e.requeue (batch.map (·.index)), { tr with pump := .ended })

/-- The batch read: an empty one ends the pump, and a failed read ends it with
the error. -/
def finishRead (claim : Claim) (ok : Bool) : Engine × Transport :=
  if ok then
    let batch := e.readBatch claim
    if batch = [] then (e, { tr with pump := .ended }) else (e, { tr with pump := .sending batch })
  else (e, { tr with pump := .ended })

/-- `_relayPump` from the backpressure loop of a chunk to the next chunk. -/
def relayBackpressure (b : Entry) (rest : List Entry) (throws : Bool) : Engine × Transport :=
  if relayBufHigh < tr.bufferedAmount then
    if tr.readyState ≠ .opened then giveUp e tr (b :: rest)
    else (e, { tr with pump := .waiting (b :: rest) })
  else if throws then giveUp e tr (b :: rest)
  else
    let e := e.countSent b.size
    let tr := tr.push (.chunk b) b.data.length
    if rest = [] then pumpLoop e tr else (e, { tr with pump := .sending rest })

/-- One turn of the send loop of `_relayPump`. -/
def relaySend (b : Entry) (rest : List Entry) (throws : Bool) : Engine × Transport :=
  if tr.readyState ≠ .opened then giveUp e tr (b :: rest)
  else relayBackpressure e tr b rest throws

/-- One turn of the loop of `blast`, in `_p2pPump`. -/
def blast (b : Entry) (rest : List Entry) (throws : Bool) : Engine × Transport :=
  if tr.readyState ≠ .opened then (e, { tr with pump := .resolved (b :: rest) false })
  else if p2pBufHigh < tr.bufferedAmount then (e, { tr with pump := .waiting (b :: rest) })
  else if throws then (e, { tr with pump := .resolved (b :: rest) true })
  else
    let e := e.countSent b.size
    let tr := tr.push (.chunk b) b.data.length
    (e, { tr with pump := if rest = [] then .resolved [] false else .sending rest })

/-- `_p2pPump` after the promise around `blast`. -/
def afterBlast (batch : List Entry) (failed : Bool) : Engine × Transport :=
  let e := if batch = [] then e else e.requeue (batch.map (·.index))
  if failed || tr.readyState ≠ .opened then (e, { tr with pump := .ended })
  else pumpLoop e tr

/-- What makes a pump go on. -/
inductive PumpEvent where
  /-- The file reads of the batch succeed, or one of them fails. -/
  | read (ok : Bool)
  /-- The next turn of the send loop; `throws` is what `send` does if it gets that far. -/
  | send (throws : Bool)
  /-- The yield of a relay pump returns, or a P2P channel fires `bufferedamountlow`. -/
  | wake (throws : Bool)
  /-- The P2P pump resumes after `blast`. -/
  | resume
  deriving DecidableEq

/-- One step of the pump of a transport. -/
def pumpStep : PumpEvent → Option (Engine × Transport)
  | .read ok =>
      match tr.pump with
      | .reading claim => some (finishRead e tr claim ok)
      | _ => none
  | .send throws =>
      match tr.pump, tr.kind with
      | .sending (b :: rest), .relay _ => some (relaySend e tr b rest throws)
      | .sending (b :: rest), .p2p _ => some (blast e tr b rest throws)
      | _, _ => none
  | .wake throws =>
      match tr.pump, tr.kind with
      | .waiting (b :: rest), .relay _ => some (relayBackpressure e tr b rest throws)
      | .waiting (b :: rest), .p2p _ =>
          -- a closed channel fires no event
          if tr.readyState = .opened then some (blast e tr b rest throws) else none
      | _, _ => none
  | .resume =>
      match tr.pump with
      | .resolved batch failed => some (afterBlast e tr batch failed)
      | _ => none

end Pumps

/-! ## The steps of a pump -/

/-- The steps of a pump, by where it stands and what it waits for. -/
inductive Turn (e : Engine) (tr : Transport) : PumpEvent → Engine × Transport → Prop where
  | read {claim : Claim} (ok : Bool) (hpump : tr.pump = .reading claim) :
      Turn e tr (.read ok) (finishRead e tr claim ok)
  | relaySend {idx : Nat} {b : Entry} {rest : List Entry} (throws : Bool)
      (hkind : tr.kind = .relay idx) (hpump : tr.pump = .sending (b :: rest)) :
      Turn e tr (.send throws) (relaySend e tr b rest throws)
  | p2pSend {idx : Nat} {b : Entry} {rest : List Entry} (throws : Bool)
      (hkind : tr.kind = .p2p idx) (hpump : tr.pump = .sending (b :: rest)) :
      Turn e tr (.send throws) (blast e tr b rest throws)
  | relayWake {idx : Nat} {b : Entry} {rest : List Entry} (throws : Bool)
      (hkind : tr.kind = .relay idx) (hpump : tr.pump = .waiting (b :: rest)) :
      Turn e tr (.wake throws) (relayBackpressure e tr b rest throws)
  | p2pWake {idx : Nat} {b : Entry} {rest : List Entry} (throws : Bool)
      (hkind : tr.kind = .p2p idx) (hpump : tr.pump = .waiting (b :: rest))
      (hopen : tr.readyState = .opened) : Turn e tr (.wake throws) (blast e tr b rest throws)
  | resume {batch : List Entry} {failed : Bool} (hpump : tr.pump = .resolved batch failed) :
      Turn e tr .resume (afterBlast e tr batch failed)

theorem pumpStep_iff {e : Engine} {tr : Transport} {ev : PumpEvent} {x : Engine × Transport} :
    pumpStep e tr ev = some x ↔ Turn e tr ev x := by
  constructor
  · intro h
    cases ev with
    | read ok =>
        cases hp : tr.pump with
        | reading claim =>
            simp only [pumpStep, hp, Option.some.injEq] at h
            exact h ▸ .read ok hp
        | notStarted | sending batch | waiting batch | resolved batch failed | ended =>
            simp [pumpStep, hp] at h
    | send throws =>
        cases hp : tr.pump with
        | sending batch =>
            cases batch with
            | nil => simp [pumpStep, hp] at h
            | cons b rest =>
                cases hk : tr.kind with
                | relay idx =>
                    simp only [pumpStep, hp, hk, Option.some.injEq] at h
                    exact h ▸ .relaySend throws hk hp
                | p2p idx =>
                    simp only [pumpStep, hp, hk, Option.some.injEq] at h
                    exact h ▸ .p2pSend throws hk hp
        | notStarted | reading claim | waiting batch | resolved batch failed | ended =>
            simp [pumpStep, hp] at h
    | wake throws =>
        cases hp : tr.pump with
        | waiting batch =>
            cases batch with
            | nil => simp [pumpStep, hp] at h
            | cons b rest =>
                cases hk : tr.kind with
                | relay idx =>
                    simp only [pumpStep, hp, hk, Option.some.injEq] at h
                    exact h ▸ .relayWake throws hk hp
                | p2p idx =>
                    simp only [pumpStep, hp, hk, Option.ite_none_right_eq_some,
                      Option.some.injEq] at h
                    exact h.2 ▸ .p2pWake throws hk hp h.1
        | notStarted | reading claim | sending batch | resolved batch failed | ended =>
            simp [pumpStep, hp] at h
    | resume =>
        cases hp : tr.pump with
        | resolved batch failed =>
            simp only [pumpStep, hp, Option.some.injEq] at h
            exact h ▸ .resume hp
        | notStarted | reading claim | sending batch | waiting batch | ended =>
            simp [pumpStep, hp] at h
  · intro h
    cases h with
    | read ok hp | resume hp => simp [pumpStep, hp]
    | relaySend throws hk hp | p2pSend throws hk hp | relayWake throws hk hp =>
        simp [pumpStep, hp, hk]
    | p2pWake throws hk hp hopen => simp [pumpStep, hp, hk, hopen]

/-- A pump that takes a step has been started, and is not over. -/
theorem Turn.running {e : Engine} {tr : Transport} {ev : PumpEvent} {x : Engine × Transport}
    (h : Turn e tr ev x) : tr.pump ≠ .notStarted ∧ tr.pump ≠ .ended := by
  cases h with
  | read ok hpump | relaySend throws hkind hpump | p2pSend throws hkind hpump
  | relayWake throws hkind hpump | p2pWake throws hkind hpump hopen | resume hpump =>
      simp [hpump]

/-! ## The engine with its transports -/

/-- How many transports a `createOffer` call opens, and how long the text of
the file-info message is. -/
structure Config where
  numRelay : Nat := Web.numRelay
  numP2P : Nat := Web.numP2P
  infoLength : FileInfo → Nat

/-- The engine with its transports. -/
structure Sender extends Engine where
  transports : List Transport := []
  /-- `this.relayConns`: the transport of each relay index. -/
  relayConns : List (Option Nat) := []
  /-- `this.connections`: the P2P transports. -/
  connections : List Nat := []

namespace Sender

/-- The engine and transport `t` after a step of its pump. -/
def put (s : Sender) (t : Nat) (x : Engine × Transport) : Sender :=
  { s with toEngine := x.1, transports := s.transports.set t x.2 }

/-- `arr[idx] = t`; the array grows if it has to. -/
def assign (arr : List (Option Nat)) (idx t : Nat) : List (Option Nat) :=
  (arr ++ List.replicate (idx + 1 - arr.length) none).set idx (some t)

/-- The part of `createOffer` that the engine reads. -/
def createOffer (s : Sender) (cfg : Config) (file : File) : Sender :=
  let relays := (List.range cfg.numRelay).map fun i => ({ kind := .relay i } : Transport)
  let p2ps := (List.range cfg.numP2P).map fun i => ({ kind := .p2p i } : Transport)
  { s with
    file := file
    totalChunks := Web.totalChunks file
    transports := s.transports ++ relays ++ p2ps
    connections := s.connections ++ List.range' (s.transports.length + cfg.numRelay) cfg.numP2P }

/-- `readyState === OPEN`. -/
def isOpen (s : Sender) (t : Nat) : Bool :=
  (s.transports[t]?).any fun tr => tr.readyState = .opened

/-- `relayReady` of `_tryStart`. -/
def relayReady (s : Sender) : List Nat := (s.relayConns.filterMap id).filter s.isOpen

/-- `p2pReady` of `_tryStart`. -/
def p2pReady (s : Sender) : List Nat :=
  s.connections.filter fun t => (s.transports[t]?).any fun tr => tr.ready && !tr.pump.started

/-- Start the pump of a transport, unless it has been started. -/
def launch (s : Sender) (t : Nat) : Sender :=
  match s.transports[t]? with
  | some tr => if tr.pump.started then s else s.put t (pumpLoop s.toEngine tr)
  | none => s

/-- `_tryStart`. -/
def tryStart (s : Sender) : Sender :=
  let ready := s.relayReady ++ s.p2pReady
  if s.sendingStarted then ready.foldl launch s
  else if ready = [] then s
  else
    ready.foldl launch
      { s with sendingStarted := true, sentChunks := 0, bytesTransferred := 0, nextChunkIndex := 0 }

/-- A transport as its open handler leaves it. -/
def opened (s : Sender) (cfg : Config) (tr : Transport) : Transport :=
  let opened := { tr with readyState := .opened }
  match tr.kind with
  | .relay idx =>
      let info := fileInfo s.file
      -- the file-info goes out on the first relay only
      if idx = 0 then opened.push (.fileInfo info) (cfg.infoLength info) else opened
  | .p2p _ => { opened with ready := true }

/-- `ws.onopen` of a relay and `ch.onopen` of a P2P data channel. -/
def onopen (s : Sender) (cfg : Config) (t : Nat) (tr : Transport) : Sender :=
  { s with
    transports := s.transports.set t (s.opened cfg tr)
    relayConns := match tr.kind with
      | .relay idx => assign s.relayConns idx t
      | .p2p _ => s.relayConns }.tryStart

/-- The sum that `_waitForDrain` waits for. -/
def totalBuffered (s : Sender) : Nat :=
  ((s.relayConns.filterMap id ++ s.connections).map fun t =>
    match s.transports[t]? with
    | some tr => if tr.readyState = .opened then tr.bufferedAmount else 0
    | none => 0).sum

/-- One look of `_waitForDrain` at the buffers, and `onComplete` if they are empty. -/
def pollDrain (s : Sender) : Sender :=
  if s.totalBuffered = 0 then
    { s with drainWaits := s.drainWaits - 1, onCompleteCalls := s.onCompleteCalls + 1 }
  else s

/-- A call of `createOffer`, an event of a transport, or a turn of a pump or of the drain wait. -/
inductive Action where
  | createOffer
  | onopen (t : Nat)
  | onclose (t : Nat)
  | drain (t : Nat)
  | pump (t : Nat) (ev : PumpEvent)
  | pollDrain
  deriving DecidableEq

/-- A step of the sender with a file. A transport drains only while it is open. -/
def step (cfg : Config) (file : File) (s : Sender) : Action → Option Sender
  | .createOffer => some (s.createOffer cfg file)
  | .onopen t => do
      let tr ← s.transports[t]?
      if tr.readyState = .connecting then some (s.onopen cfg t tr) else none
  | .onclose t => do
      let tr ← s.transports[t]?
      if tr.readyState ≠ .closed then
        some { s with transports := s.transports.set t { tr with readyState := .closed } }
      else none
  | .drain t => do
      let tr ← s.transports[t]?
      if tr.readyState = .opened then
        let tr ← tr.drain
        some { s with transports := s.transports.set t tr }
      else none
  | .pump t ev => do
      let tr ← s.transports[t]?
      let x ← pumpStep s.toEngine tr ev
      some (s.put t x)
  | .pollDrain => if 0 < s.drainWaits then some s.pollDrain else none

/-- The engine right after its first `createOffer`. -/
def start (cfg : Config) (file : File) : Sender := createOffer { file } cfg file

/-- "File reads succeed", as a condition on the steps of a run. -/
def ReadsSucceed (_ : Sender) : Action → Prop
  | .pump _ ev => ev ≠ .read false
  | .createOffer | .onopen _ | .onclose _ | .drain _ | .pollDrain => True

instance decidableReadsSucceed (s : Sender) (a : Action) : Decidable (ReadsSucceed s a) := by
  cases a <;> unfold ReadsSucceed <;> infer_instance

/-- The steps of the sender. -/
inductive Steps (cfg : Config) (file : File) (s : Sender) : Action → Sender → Prop where
  | createOffer : Steps cfg file s .createOffer (s.createOffer cfg file)
  | onopen {t : Nat} {tr : Transport} (ht : s.transports[t]? = some tr)
      (hstate : tr.readyState = .connecting) : Steps cfg file s (.onopen t) (s.onopen cfg t tr)
  | onclose {t : Nat} {tr : Transport} (ht : s.transports[t]? = some tr)
      (hstate : tr.readyState ≠ .closed) :
      Steps cfg file s (.onclose t)
        { s with transports := s.transports.set t { tr with readyState := .closed } }
  | drain {t : Nat} {tr tr' : Transport} (ht : s.transports[t]? = some tr)
      (hstate : tr.readyState = .opened) (hdrain : tr.drain = some tr') :
      Steps cfg file s (.drain t) { s with transports := s.transports.set t tr' }
  | pump {t : Nat} {tr : Transport} {ev : PumpEvent} {x : Engine × Transport}
      (ht : s.transports[t]? = some tr) (hturn : Turn s.toEngine tr ev x) :
      Steps cfg file s (.pump t ev) (s.put t x)
  | pollDrain (hwait : 0 < s.drainWaits) : Steps cfg file s .pollDrain s.pollDrain

theorem step_iff {cfg : Config} {file : File} {s s' : Sender} {a : Action} :
    step cfg file s a = some s' ↔ Steps cfg file s a s' := by
  constructor
  · intro h
    cases a with
    | createOffer =>
        cases h
        exact .createOffer
    | onopen t =>
        obtain ⟨tr, ht, h⟩ := Option.bind_eq_some_iff.mp h
        obtain ⟨hstate, h⟩ := Option.ite_none_right_eq_some.mp h
        exact Option.some.inj h ▸ .onopen ht hstate
    | onclose t =>
        obtain ⟨tr, ht, h⟩ := Option.bind_eq_some_iff.mp h
        obtain ⟨hstate, h⟩ := Option.ite_none_right_eq_some.mp h
        exact Option.some.inj h ▸ .onclose ht hstate
    | drain t =>
        obtain ⟨tr, ht, h⟩ := Option.bind_eq_some_iff.mp h
        obtain ⟨hstate, h⟩ := Option.ite_none_right_eq_some.mp h
        obtain ⟨tr', hdrain, h⟩ := Option.bind_eq_some_iff.mp h
        exact Option.some.inj h ▸ .drain ht hstate hdrain
    | pump t ev =>
        obtain ⟨tr, ht, h⟩ := Option.bind_eq_some_iff.mp h
        obtain ⟨x, hx, h⟩ := Option.bind_eq_some_iff.mp h
        exact Option.some.inj h ▸ .pump ht (pumpStep_iff.mp hx)
    | pollDrain =>
        obtain ⟨hwait, h⟩ := Option.ite_none_right_eq_some.mp h
        exact Option.some.inj h ▸ .pollDrain hwait
  · intro h
    cases h with
    | createOffer => rfl
    | onopen ht hstate | onclose ht hstate => simp [step, ht, hstate]
    | drain ht hstate hdrain => simp [step, ht, hstate, hdrain]
    | pump ht hturn => simp [step, ht, pumpStep_iff.mpr hturn]
    | pollDrain hwait => simp [step, hwait]

/-! ## Starting the pumps -/

/-- What `launch` leaves of the other transports and of the one it starts. -/
theorem getElem?_launch {s : Sender} {t u : Nat} {v : Transport}
    (h : (s.launch t).transports[u]? = some v) :
    ∃ v₀, s.transports[u]? = some v₀ ∧ v.readyState = v₀.readyState ∧ v.ready = v₀.ready := by
  rw [launch] at h
  split at h
  next tr ht =>
    split_ifs at h
    · exact ⟨v, h, rfl, rfl⟩
    · obtain ⟨p, hp⟩ := pumpLoop_snd s.toEngine tr
      rw [put, hp] at h
      rcases Tally.getElem?_set_cases h with ⟨rfl, rfl⟩ | ⟨-, h⟩
      · exact ⟨tr, ht, rfl, rfl⟩
      · exact ⟨v, h, rfl, rfl⟩
  next => exact ⟨v, h, rfl, rfl⟩

/-- **The rule of `tryStart`**: it keeps what the reset of the first start and
the start of the pump of an opened transport keep. -/
theorem tryStart_rule {P : Sender → Prop}
    (hlaunch : ∀ (s : Sender) (t : Nat) (tr : Transport), P s → s.sendingStarted = true →
      s.transports[t]? = some tr → tr.pump = .notStarted →
      tr.readyState = .opened ∨ tr.ready = true → P (s.put t (pumpLoop s.toEngine tr)))
    (hreset : ∀ s : Sender, P s → s.sendingStarted = false → P { s with
      sendingStarted := true, sentChunks := 0, bytesTransferred := 0, nextChunkIndex := 0 })
    {s : Sender} (h : P s) : P s.tryStart := by
  have hfold : ∀ (ts : List Nat) (s : Sender), P s → s.sendingStarted = true →
      (∀ t ∈ ts, ∀ tr, s.transports[t]? = some tr → tr.readyState = .opened ∨ tr.ready = true) →
      P (ts.foldl launch s) := by
    intro ts
    induction ts with
    | nil => exact fun s h _ _ => h
    | cons t ts ih =>
        intro s h hstarted hready
        have hnext : P (s.launch t) ∧ (s.launch t).sendingStarted = true := by
          rw [launch]
          split
          next tr ht =>
            split_ifs with hp
            · exact ⟨h, hstarted⟩
            · refine ⟨hlaunch s t tr h hstarted ht (by simpa [Pump.started] using hp)
                (hready t List.mem_cons_self tr ht), ?_⟩
              rw [← hstarted, put, pumpLoop]
              split_ifs <;> rfl
          next => exact ⟨h, hstarted⟩
        apply ih _ hnext.1 hnext.2
        intro u hu v hv
        obtain ⟨v₀, hv₀, hstate, hr⟩ := getElem?_launch hv
        rw [hstate, hr]
        exact hready u (List.mem_cons_of_mem _ hu) v₀ hv₀
  have hready : ∀ t ∈ s.relayReady ++ s.p2pReady, ∀ tr, s.transports[t]? = some tr →
      tr.readyState = .opened ∨ tr.ready = true := by
    intro t ht tr htr
    rcases List.mem_append.mp ht with ht | ht
    · have := (List.mem_filter.mp ht).2
      exact .inl (by simpa [isOpen, htr] using this)
    · have := (List.mem_filter.mp ht).2
      simp only [htr, Option.any_some, Bool.and_eq_true] at this
      exact .inr this.1
  rw [tryStart]
  split_ifs with hstarted hnone
  · exact hfold _ s h hstarted hready
  · exact h
  · exact hfold _ _ (hreset s h (by simpa using hstarted)) rfl hready

end Sender

end FastTransfer.Web
