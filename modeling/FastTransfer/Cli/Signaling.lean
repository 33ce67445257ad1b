import FastTransfer.Cli.Protocol

/-!
# Waiting for a signaling message

`SignalingClient::recv` of `cli/src/signaling.rs`, and the three loops of
`send_file` and `receive_file` that wait with it. What a text or a value parses to
is for `serde_json` to say, so its functions are parameters.
-/

namespace FastTransfer.Cli.Signaling

/-- What the socket yields. -/
inductive Frame where
  | text (text : String)
  | close
  /-- Binary data, a ping or a pong. -/
  | other
  | error
  deriving DecidableEq

/-- Signaling message exchanged via WebSocket; a payload is a `serde_json::Value`. -/
structure SignalMessage (V : Type) where
  msgType : String
  payload : Option V
  roomId : Option String
  deriving DecidableEq

/-- Connection info exchanged between peers via signaling. -/
structure ConnectInfo where
  addr : String
  port : Nat
  fileHeader : FileHeader
  deriving DecidableEq

/-- The errors that end a program. -/
inductive Error where
  /-- `WebSocket error: {}` -/
  | webSocket
  | json
  deriving DecidableEq

/-- How a loop is left. -/
inductive Outcome (α : Type) where
  | ok (a : α)
  | err (e : Error)
  | panic
  deriving DecidableEq

variable {V α : Type}

section Loops

variable (fromStr : String → Option (SignalMessage V))
  (onMessage : SignalMessage V → Option (Outcome α))

/-- Wait for the next signaling message. After the last frame the socket is
closed, and goes on to yield nothing. -/
def recv : List Frame → Except Error (Option (SignalMessage V)) × List Frame
  | [] => (.ok none, [])
  | .text text :: frames =>
      match fromStr text with
      | some signal => (.ok (some signal), frames)
      | none => (.error .json, frames)
  | .close :: frames => (.ok none, frames)
  | .error :: frames => (.error .webSocket, frames)
  | .other :: frames => recv frames

/-- `loop { if let Some(msg) = signaling.recv().await? { … } }`, where the body
leaves the loop with an outcome or goes on. `none` when the fuel is used up. -/
def waitFor : Nat → List Frame → Option (Outcome α × List Frame)
  | 0, _ => none
  | fuel + 1, frames =>
      match recv fromStr frames with
      | (.error e, rest) => some (.err e, rest)
      | (.ok none, rest) => waitFor fuel rest
      | (.ok (some msg), rest) =>
          match onMessage msg with
          | some outcome => some (outcome, rest)
          | none => waitFor fuel rest

/-- The loop ends, with what it waits for or with an error. -/
def Ends (frames : List Frame) : Prop :=
  ∃ fuel outcome rest, waitFor fromStr onMessage fuel frames = some (outcome, rest) ∧
    outcome ≠ .panic

end Loops

/-! ## The three loops -/

/-- `send_file`: wait for receiver to join. -/
def onPeerJoined (msg : SignalMessage V) : Option (Outcome Unit) :=
  if msg.msgType = "peer-joined" then some (.ok ()) else none

/-- `send_file`: wait for receiver to signal ready; this sets `receiver_addr`. -/
def onReady (asStr : V → Option String) (msg : SignalMessage V) :
    Option (Outcome (Option String)) :=
  if msg.msgType = "ready" then some (.ok (msg.payload.bind asStr)) else none

/-- `receive_file`: wait for sender's connection info. -/
def onConnectInfo (fromValue : V → Option ConnectInfo) (msg : SignalMessage V) :
    Option (Outcome ConnectInfo) :=
  match msg.msgType with
  | "peer-joined" => none
  | "connect-info" =>
      match msg.payload with
      -- `msg.payload.unwrap()`
      | none => some .panic
      | some value =>
          match fromValue value with
          | some info => some (.ok info)
          | none => some (.err .json)
  | _ => none

/-! ## How a loop is left -/

section Waiting

variable {fromStr : String → Option (SignalMessage V)}
  {onMessage : SignalMessage V → Option (Outcome α)} {fuel : Nat} {frames : List Frame}
  {x : Outcome α × List Frame}

/-- What a frame makes of a loop. -/
def verdict (fromStr : String → Option (SignalMessage V))
    (onMessage : SignalMessage V → Option (Outcome α)) : Frame → Option (Outcome α)
  | .text text =>
      match fromStr text with
      | some signal => onMessage signal
      | none => some (.err .json)
  | .error => some (.err .webSocket)
  | .close | .other => none

/-- **A closed socket is asked for ever.** -/
theorem waitFor_nil (fuel : Nat) : waitFor fromStr onMessage fuel [] = none := by
  induction fuel with
  | zero => rfl
  | succ fuel ih => exact ih

theorem waitFor_other (fuel : Nat) (frames : List Frame) :
    waitFor fromStr onMessage fuel (.other :: frames) = waitFor fromStr onMessage fuel frames := by
  cases fuel with
  | zero => rfl
  | succ fuel => rfl

/-- **The first frame that decides a loop decides its outcome.** -/
theorem fst_waitFor (h : frames.length < fuel) :
    (waitFor fromStr onMessage fuel frames).map Prod.fst =
      frames.findSome? (verdict fromStr onMessage) := by
  induction frames generalizing fuel with
  | nil =>
      rw [waitFor_nil]
      rfl
  | cons frame frames ih =>
      obtain ⟨fuel, rfl⟩ : ∃ k, fuel = k + 1 := ⟨fuel - 1, by omega⟩
      have hrest := ih (Nat.lt_of_succ_lt_succ h)
      rw [List.findSome?_cons]
      cases frame with
      | close => exact hrest
      | other =>
          rw [waitFor_other]
          exact ih (Nat.lt_of_succ_lt h)
      | error => rfl
      | text text =>
          rw [waitFor, recv, verdict]
          cases fromStr text with
          | none => rfl
          | some signal =>
              dsimp only
              cases onMessage signal with
              | none => exact hrest
              | some outcome => rfl

theorem waitFor_mono (h : waitFor fromStr onMessage fuel frames = some x) (k : Nat) :
    waitFor fromStr onMessage (fuel + k) frames = some x := by
  induction fuel generalizing frames with
  | zero => cases h
  | succ fuel ih =>
      rw [Nat.add_right_comm, waitFor]
      rw [waitFor] at h
      split at h
      · exact h
      · exact ih h
      · split at h
        · exact h
        · exact ih h

/-- **When a loop ends**: a frame decides it, and not by a panic. -/
theorem ends_iff : Ends fromStr onMessage frames ↔
    ∃ outcome, frames.findSome? (verdict fromStr onMessage) = some outcome ∧ outcome ≠ .panic := by
  constructor
  · rintro ⟨fuel, outcome, rest, hrun, houtcome⟩
    have hmore := waitFor_mono hrun (frames.length + 1)
    have hlong : frames.length < fuel + (frames.length + 1) := by omega
    refine ⟨outcome, ?_, houtcome⟩
    rw [← fst_waitFor hlong, hmore]
    rfl
  · rintro ⟨outcome, hfirst, houtcome⟩
    rw [← fst_waitFor (Nat.lt_succ_self _)] at hfirst
    obtain ⟨⟨outcome', rest⟩, hrun, rfl⟩ := Option.map_eq_some_iff.mp hfirst
    exact ⟨_, _, _, hrun, houtcome⟩

end Waiting

/-! ## When the loops end -/

section Deciding

variable (fromStr : String → Option (SignalMessage V))

/-- A frame that must lead out of a loop: an error, a text that is no message, or
a message of the type that is waited for. -/
def Decides (type : String) : Frame → Bool
  | .text text =>
      match fromStr text with
      | some signal => signal.msgType = type
      | none => true
  | .error => true
  | .close | .other => false

/-- A message without a payload. -/
def Bare : Frame → Bool
  | .text text => (fromStr text).any fun signal => signal.payload.isNone
  | .error | .close | .other => false

variable {fromStr} {onMessage : SignalMessage V → Option (Outcome α)} {type : String}

theorem isSome_verdict (h : ∀ msg, (onMessage msg).isSome = decide (msg.msgType = type))
    (frame : Frame) : (verdict fromStr onMessage frame).isSome = Decides fromStr type frame := by
  cases frame with
  | text text =>
      rw [verdict, Decides]
      cases fromStr text with
      | none => rfl
      | some signal => exact h signal
  | close | other | error => rfl

/-- The frame that decides a loop is the first one that must. -/
theorem findSome?_verdict (h : ∀ msg, (onMessage msg).isSome = decide (msg.msgType = type))
    (frames : List Frame) :
    frames.findSome? (verdict fromStr onMessage) =
      (frames.find? (Decides fromStr type)).bind (verdict fromStr onMessage) := by
  induction frames with
  | nil => rfl
  | cons frame frames ih =>
      have hframe : (verdict fromStr onMessage frame).isSome = _ := isSome_verdict h frame
      rw [List.findSome?_cons, List.find?_cons, ← hframe]
      cases hverdict : verdict fromStr onMessage frame with
      | none => exact ih
      | some outcome => exact hverdict.symm

theorem ends_iff_find? (h : ∀ msg, (onMessage msg).isSome = decide (msg.msgType = type))
    (frames : List Frame) : Ends fromStr onMessage frames ↔
      ∃ frame, frames.find? (Decides fromStr type) = some frame ∧
        verdict fromStr onMessage frame ≠ some .panic := by
  rw [ends_iff, findSome?_verdict h]
  constructor
  · rintro ⟨outcome, hbind, houtcome⟩
    obtain ⟨frame, hfind, hverdict⟩ := Option.bind_eq_some_iff.mp hbind
    refine ⟨frame, hfind, ?_⟩
    rw [hverdict]
    exact fun heq => houtcome (Option.some.inj heq)
  · rintro ⟨frame, hfind, hne⟩
    have hdecides := List.find?_some hfind
    rw [← isSome_verdict h] at hdecides
    obtain ⟨outcome, hverdict⟩ := Option.isSome_iff_exists.mp hdecides
    refine ⟨outcome, by rw [hfind]; exact hverdict, ?_⟩
    rintro rfl
    exact hne hverdict

/-- A loop whose body does not panic. -/
theorem ends_iff_exists (h : ∀ msg, (onMessage msg).isSome = decide (msg.msgType = type))
    (hpanic : ∀ msg, onMessage msg ≠ some .panic) (frames : List Frame) :
    Ends fromStr onMessage frames ↔ ∃ frame ∈ frames, Decides fromStr type frame := by
  rw [ends_iff_find? h]
  have hverdict : ∀ frame, verdict fromStr onMessage frame ≠ some .panic := by
    intro frame
    cases frame with
    | text text =>
        rw [verdict]
        cases fromStr text with
        | none => exact nofun
        | some signal => exact hpanic signal
    | close | other | error => exact nofun
  rw [← List.find?_isSome, Option.isSome_iff_exists]
  exact exists_congr fun frame => and_iff_left (hverdict frame)

theorem isSome_onPeerJoined (msg : SignalMessage V) :
    (onPeerJoined msg).isSome = decide (msg.msgType = "peer-joined") := by
  rw [onPeerJoined]
  split_ifs with h <;> simp [h]

theorem isSome_onReady (asStr : V → Option String) (msg : SignalMessage V) :
    (onReady asStr msg).isSome = decide (msg.msgType = "ready") := by
  rw [onReady]
  split_ifs with h <;> simp [h]

theorem onConnectInfo_of_eq (fromValue : V → Option ConnectInfo) {msg : SignalMessage V}
    (h : msg.msgType = "connect-info") :
    onConnectInfo fromValue msg =
      match msg.payload with
      | none => some .panic
      | some value =>
          match fromValue value with
          | some info => some (.ok info)
          | none => some (.err .json) := by
  simp only [onConnectInfo, h]

theorem onConnectInfo_of_ne (fromValue : V → Option ConnectInfo) {msg : SignalMessage V}
    (h : msg.msgType ≠ "connect-info") : onConnectInfo fromValue msg = none := by
  rw [onConnectInfo]
  split
  · rfl
  · exact absurd ‹_› h
  · rfl

theorem isSome_onConnectInfo (fromValue : V → Option ConnectInfo) (msg : SignalMessage V) :
    (onConnectInfo fromValue msg).isSome = decide (msg.msgType = "connect-info") := by
  by_cases h : msg.msgType = "connect-info"
  · rw [onConnectInfo_of_eq fromValue h, decide_eq_true h]
    cases msg.payload with
    | none => rfl
    | some value =>
        dsimp only
        cases fromValue value <;> rfl
  · rw [onConnectInfo_of_ne fromValue h, decide_eq_false h]
    rfl

/-- **The panic**: `unwrap` on the payload of a connect-info that has none. -/
theorem verdict_onConnectInfo (fromValue : V → Option ConnectInfo) {frame : Frame}
    (h : Decides fromStr "connect-info" frame) :
    verdict fromStr (onConnectInfo fromValue) frame = some .panic ↔ Bare fromStr frame := by
  cases frame with
  | text text =>
      rw [Decides] at h
      rw [verdict, Bare]
      cases hparse : fromStr text with
      | none => simp
      | some signal =>
          simp only [hparse, decide_eq_true_eq] at h
          dsimp only
          rw [onConnectInfo_of_eq fromValue h, Option.any_some]
          cases signal.payload with
          | none => simp
          | some value =>
              dsimp only
              cases fromValue value <;> simp
  | error => simp [verdict, Bare]
  | close | other => cases h

end Deciding

/-- **When the waits end**: the two loops of `send_file` exactly if a frame comes
that must lead out of them, and the loop of `receive_file` exactly if one comes and
the first one is not a connect-info without a payload. -/
theorem waits_end_iff (fromStr : String → Option (SignalMessage V)) (asStr : V → Option String)
    (fromValue : V → Option ConnectInfo) (frames : List Frame) :
    (Ends fromStr onPeerJoined frames ↔ ∃ frame ∈ frames, Decides fromStr "peer-joined" frame) ∧
    (Ends fromStr (onReady asStr) frames ↔ ∃ frame ∈ frames, Decides fromStr "ready" frame) ∧
    (Ends fromStr (onConnectInfo fromValue) frames ↔
      ∃ frame, frames.find? (Decides fromStr "connect-info") = some frame ∧
        ¬ Bare fromStr frame) := by
  refine ⟨?_, ?_, ?_⟩
  · apply ends_iff_exists isSome_onPeerJoined
    intro msg
    rw [onPeerJoined]
    split_ifs <;> exact nofun
  · apply ends_iff_exists (isSome_onReady asStr)
    intro msg
    rw [onReady]
    split_ifs <;> exact nofun
  · rw [ends_iff_find? (isSome_onConnectInfo fromValue)]
    apply exists_congr
    intro frame
    apply and_congr_right
    intro hfind
    rw [Ne, verdict_onConnectInfo fromValue (List.find?_some hfind)]

/-- The socket is closed before a message has come. -/
theorem not_waits_end_close : ¬ ∀ frames : List Frame,
    Ends (fun _ => none) (@onPeerJoined String) frames ∧
    Ends (fun _ => none) (@onReady String some) frames ∧
    Ends (fun _ => none) (@onConnectInfo String fun _ => none) frames := by
  intro h
  obtain ⟨fuel, outcome, rest, hrun, -⟩ := (h [.close]).1
  cases fuel with
  | zero => cases hrun
  | succ fuel =>
      have hnil : waitFor (fun _ => none) onPeerJoined fuel [] = some (outcome, rest) := hrun
      rw [waitFor_nil] at hnil
      cases hnil

end FastTransfer.Cli.Signaling
