import FastTransfer.Server.RelayIsolation

/-!
# The room ids of the server

`HandleCreateRoom` names a room with six random bytes in hexadecimal. Such names
hold no colon, and so the keys of the relay, the name and the index put together
with one, cannot be mistaken for each other: as long as clients ask for rooms of
the server only, whatever indices they ask for, no relay message leaves its room.
-/

namespace FastTransfer.Server

/-- The digits of `encoding/hex`. -/
def hextable : List Char := "0123456789abcdef".toList

/-- The digit of a number below 16. -/
def hexDigit (n : Nat) : Char := hextable.getD n '0'

/-- `hex.EncodeToString` -/
def encodeToString (src : List UInt8) : String :=
  String.ofList <| src.flatMap fun (v : UInt8) =>
    [hexDigit (v >>> 4).toNat, hexDigit (v &&& 0x0f).toNat]

/-- `generateRoomID`, with the bytes that `rand.Read` has put into its buffer. -/
def generateRoomID (b : List UInt8) : String := encodeToString b

/-! ## Hexadecimal digits -/

theorem hexDigit_inj {m n : Nat} (hm : m < 16) (hn : n < 16) (h : hexDigit m = hexDigit n) :
    m = n := by
  have hall : ∀ m < 16, ∀ n < 16, hexDigit m = hexDigit n → m = n := by decide
  exact hall m hm n hn h

theorem hexDigit_ne_colon (n : Nat) : hexDigit n ≠ ':' := by
  have hall : ∀ n < 16, hexDigit n ≠ ':' := by decide
  rcases Nat.lt_or_ge n 16 with hn | hn
  · exact hall n hn
  · have hlength : hextable.length ≤ n := hn
    rw [hexDigit, List.getD_eq_getElem?_getD, List.getElem?_eq_none hlength]
    decide

theorem highDigit (v : UInt8) : (v >>> 4).toNat = v.toNat / 16 := by
  rw [UInt8.toNat_shiftRight]
  exact Nat.shiftRight_eq_div_pow _ 4

theorem lowDigit (v : UInt8) : (v &&& 0x0f).toNat = v.toNat % 16 := by
  rw [UInt8.toNat_and]
  exact Nat.and_two_pow_sub_one_eq_mod _ 4

/-- A byte can be read back from its digits. -/
theorem digits_inj {v w : UInt8} (hhigh : hexDigit (v >>> 4).toNat = hexDigit (w >>> 4).toNat)
    (hlow : hexDigit (v &&& 0x0f).toNat = hexDigit (w &&& 0x0f).toNat) : v = w := by
  have hv := v.toNat_lt
  have hw := w.toNat_lt
  rw [highDigit, highDigit] at hhigh
  rw [lowDigit, lowDigit] at hlow
  have hdiv := hexDigit_inj (by omega) (by omega) hhigh
  have hmod := hexDigit_inj (by omega) (by omega) hlow
  apply UInt8.toNat_inj.mp
  omega

theorem generateRoomID_injective : Function.Injective generateRoomID := by
  intro b b' h
  have hlist := String.ofList_injective h
  induction b generalizing b' with
  | nil =>
      cases b' with
      | nil => rfl
      | cons w b' => cases hlist
  | cons v b ih =>
      cases b' with
      | nil => cases hlist
      | cons w b' =>
          simp only [List.flatMap_cons, List.cons_append, List.nil_append, List.cons.injEq] at hlist
          obtain ⟨hhigh, hlow, hrest⟩ := hlist
          rw [digits_inj hhigh hlow, ih (congrArg String.ofList hrest) hrest]

theorem colon_notMem_generateRoomID (b : List UInt8) : ':' ∉ (generateRoomID b).toList := by
  intro h
  rw [generateRoomID, encodeToString, String.toList_ofList, List.mem_flatMap] at h
  obtain ⟨v, -, hv⟩ := h
  rcases List.mem_cons.mp hv with hv | hv
  · exact hexDigit_ne_colon _ hv.symm
  · exact hexDigit_ne_colon _ (List.mem_singleton.mp hv).symm

/-! ## Relay connections of such rooms -/

/-- A room without a colon is not part of another one and an index. -/
theorem not_ambiguous_of_colon {r r' : Request} (h : ':' ∉ r'.room.toList) : ¬ Ambiguous r r' := by
  rintro ⟨text, hroom, -⟩
  apply h
  rw [hroom]
  simp [String.toList_append]

theorem room_of_request {q : Query} {r : Request} (h : q.request = some r) : r.room = q.room := by
  simp only [Query.request] at h
  split_ifs at h <;> exact Option.some.inj h ▸ rfl

namespace RelayTraffic

open RelayWSHub

/-- **No relay message leaves its room**, in every run in which clients ask for
rooms of the server. Who sends and who gets a message, and all who share a pair,
have asked for one index of one room, made of the same bytes. -/
theorem generated_rooms_apart (queries : Set Query) (destinations : Nat → Destination)
    (hrooms : ∀ q ∈ queries, ∃ b, q.room = generateRoomID b) (x : RelayTraffic)
    (hx : Runs.ReachWhen step (Within queries) { destinations } x) :
    Isolated x ∧ ∀ handler ∈ x.hub.handlers, ∃ b, handler.request.room = generateRoomID b ∧
      ∀ handler' ∈ x.hub.handlers, ∀ p ∈ Pc.pair handler.pc, p ∈ Pc.pair handler'.pc →
        ∀ b', handler'.request.room = generateRoomID b' → b' = b := by
  have hcarried : Carried queries x := by
    apply hx.invariant (carried_start queries destinations)
    exact fun u a v hu hok hstep => hu.step hok hstep
  have hisolated : Isolated x := by
    apply hcarried.isolated
    intro q _ q' hq' r _ r' hr'
    obtain ⟨b, hb⟩ := hrooms q' hq'
    apply not_ambiguous_of_colon
    rw [room_of_request hr', hb]
    exact colon_notMem_generateRoomID b
  refine ⟨hisolated, fun handler hh => ?_⟩
  obtain ⟨q, hq, hr⟩ := hcarried.asked handler hh
  obtain ⟨b, hb⟩ := hrooms q hq
  have hroom : handler.request.room = generateRoomID b := (room_of_request hr).trans hb
  refine ⟨b, hroom, fun handler' hh' p hp hp' b' hb' => ?_⟩
  obtain ⟨hsame, -⟩ := hisolated.pairs handler hh handler' hh' p hp hp'
  apply generateRoomID_injective
  rw [← hb', ← hsame, hroom]

/-- Clients of a room of the server, with an index that has a colon. -/
def generatedRun : List Action :=
  [.hub (.connect ⟨"0123456789ab", "sender", "b:c"⟩),
    .hub (.connect ⟨"0123456789ab", "receiver", "b:c"⟩),
    .hub (.handle 0), .hub (.handle 0), .hub (.handle 1), .hub (.handle 1), .hub (.handle 1),
    .hub (.handle 0), .hub (.handle 0), .arrive 0 wholeReading, .turn 0]

theorem generated_rooms_apart_two :
    ∃ x, Runs.run step { destinations := fun _ => { opsLeft := none } } generatedRun = some x ∧
      x.forwarded = [⟨0, 1, wholeReading.message⟩] ∧ Isolated x := by
  have hroom : generateRoomID [0x01, 0x23, 0x45, 0x67, 0x89, 0xab] = "0123456789ab" := by
    decide +kernel
  have hok : Runs.Meets step (Within fun q => q.room = "0123456789ab")
      { destinations := fun _ => { opsLeft := none } } generatedRun := by
    apply Runs.meets_of_forall
    intro a ha s
    simp only [generatedRun, List.mem_cons, List.not_mem_nil, or_false] at ha
    rcases ha with rfl | rfl | rfl | rfl | rfl | rfl | rfl | rfl | rfl | rfl | rfl <;>
      first | exact rfl | trivial
  refine ⟨_, rfl, rfl, ?_⟩
  exact (generated_rooms_apart _ _ (fun q hq => ⟨_, hq.trans hroom.symm⟩) _
    (Runs.reachWhen_of_run generatedRun rfl hok)).1

end RelayTraffic

end FastTransfer.Server
