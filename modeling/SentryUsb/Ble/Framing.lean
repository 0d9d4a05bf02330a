import SentryUsb.Ble.SignedSession
import SentryUsb.Library.CursorLoop
import SentryUsb.Library.Framing
import SentryUsb.Library.Reassembly

/-! # Framing of the link to the car

A message goes to the car as a length in two bytes and the payload, written in pieces of the size the link allows. What
the car sends comes in pieces as well and is put together again by the lengths (`transport.rs`), among them messages the
query did not ask for (`gatt.rs`).

* **`frame`**, **`tryUnframe`** — the two ends of the link;
* **`feed_tryUnframe`** — what was framed arrives, however it is cut;
* **`framing_iff`** — the length in front is the payload's only below 2^16;
* **`roundTrip`** — the receiving part of a query, **`roundTrip_of_stream`** — it takes the first reply of the stream. -/

namespace SentryUsb.Ble

open Library (Unframed Frames Turn bigEndian16 ofBigEndian16 chunksOf feed loop)

/-- Puts the length in front of a payload, as a `u16` (`frame`). -/
def frame (payload : Octets) : Octets := bigEndian16 payload.length ++ payload

/-- The longest payload the receiver takes. -/
def maxPayload : Nat := 1024

/-- Takes a payload off the front of the buffer (`try_unframe`). -/
def tryUnframe : Octets → Unframed Octets UInt8 String
  | hi :: lo :: body =>
    let len := ofBigEndian16 hi lo
    if maxPayload < len then .garbage s!"framed payload claims length {len}, refusing (cap is 1024)"
    else if body.length < len then .wait
    else .item (body.take len) (body.drop len)
  | _ => .wait

/-- The number in the first two bytes. -/
def lengthPrefix : Octets → Option Nat
  | hi :: lo :: _ => some (ofBigEndian16 hi lo)
  | _ => none

/-- The size of the pieces for a link (`chunks_for_mtu`). -/
def chunkSize (mtu : Nat) : Nat := min 512 (max 20 (mtu - 3))

/-- A frame in pieces for a link (`chunks_for_mtu`). -/
def chunksForMtu (bytes : Octets) (mtu : Nat) : List Octets := chunksOf (chunkSize mtu) bytes

/-- What one write may carry: the size of the link less three bytes, of at least 23, and never more than 512. -/
def attLimit (mtu : Nat) : Nat := min 512 (max 23 mtu - 3)

/-! ## The two ends -/

theorem lengthPrefix_frame (payload : Octets) : lengthPrefix (frame payload) = some (payload.length % 2 ^ 16) :=
  congrArg some (Library.ofBigEndian16_bigEndian16 payload.length)

/-- **A frame within the limit** is taken off the front. -/
theorem tryUnframe_frame {payload : Octets} (h : payload.length ≤ maxPayload) (rest : Octets) :
    tryUnframe (frame payload ++ rest) = .item payload rest := by
  have hlen : ofBigEndian16 (UInt8.ofNat (payload.length / 256)) (UInt8.ofNat payload.length) = payload.length := by
    rw [Library.ofBigEndian16_bigEndian16]
    rw [maxPayload] at h
    omega
  rw [frame, bigEndian16, List.append_assoc, List.cons_append, List.cons_append, List.nil_append]
  dsimp only [tryUnframe]
  rw [hlen, if_neg (not_lt.mpr h), if_neg (by rw [List.length_append]; omega), List.take_left, List.drop_left]

/-- **A part of a frame** is waited on. -/
theorem tryUnframe_part {payload : Octets} (h : payload.length ≤ maxPayload) {buf rest : Octets}
    (hpart : buf ++ rest = frame payload) (hrest : rest ≠ []) : tryUnframe buf = .wait := by
  have hpos := List.length_pos_of_ne_nil hrest
  cases buf with
  | nil => rfl
  | cons hi buf =>
    cases buf with
    | nil => rfl
    | cons lo body =>
      -- both bytes of the length are there, not all of the payload
      obtain ⟨rfl, htail⟩ := List.cons.inj hpart
      obtain ⟨rfl, hbody⟩ := List.cons.inj htail
      have hlen := Library.ofBigEndian16_bigEndian16 payload.length
      have hshort : body.length + rest.length = payload.length := by
        rw [← List.length_append]
        exact congrArg List.length hbody
      rw [maxPayload] at h
      dsimp only [tryUnframe]
      rw [hlen, if_neg (by rw [maxPayload]; omega), if_pos (by omega)]

theorem frames_tryUnframe : Frames tryUnframe frame fun payload => payload.length ≤ maxPayload where
  empty := rfl
  ne_nil _ := nofun
  item _ h := tryUnframe_frame h
  wait _ h _ _ := tryUnframe_part h

/-- **However the frames are cut, the payloads arrive in order** and the buffer is empty after them. -/
theorem feed_tryUnframe {payloads pieces : List Octets} (hcap : ∀ payload ∈ payloads, payload.length ≤ maxPayload)
    (hcut : pieces.flatten = payloads.flatMap frame) : feed tryUnframe pieces [] = some (payloads, []) :=
  frames_tryUnframe.feed hcap rfl hcut

theorem chunkSize_pos (mtu : Nat) : 0 < chunkSize mtu := by
  rw [chunkSize]
  omega

theorem chunkSize_eq_attLimit (mtu : Nat) : chunkSize mtu = attLimit mtu := by
  rw [chunkSize, attLimit]
  omega

theorem flatten_chunksForMtu (bytes : Octets) (mtu : Nat) : (chunksForMtu bytes mtu).flatten = bytes :=
  Library.flatten_chunksOf (chunkSize_pos mtu) bytes

theorem chunk_within {bytes chunk : Octets} {mtu : Nat} (h : chunk ∈ chunksForMtu bytes mtu) :
    chunk ≠ [] ∧ chunk.length ≤ attLimit mtu := by
  rw [← chunkSize_eq_attLimit]
  exact Library.length_of_mem_chunksOf (chunkSize_pos mtu) h

/-- **Framing works both ways exactly for payloads below 2^16 bytes**: within the receiver's limit every cut of the frames is
put together again, and every frame is cut into pieces the link can carry, but the length of a longer payload does not fit
the two bytes in front. -/
theorem framing_iff (payloads pieces : List Octets) (hcap : ∀ payload ∈ payloads, payload.length ≤ maxPayload)
    (hcut : pieces.flatten = payloads.flatMap frame) (payload : Octets) (mtu : Nat) :
    (feed tryUnframe pieces [] = some (payloads, [])
        ∧ lengthPrefix (frame payload) = some payload.length
        ∧ (chunksForMtu (frame payload) mtu).flatten = frame payload
        ∧ ∀ chunk ∈ chunksForMtu (frame payload) mtu, chunk ≠ [] ∧ chunk.length ≤ attLimit mtu)
      ↔ payload.length < 2 ^ 16 := by
  constructor
  · rintro ⟨-, hlength, -, -⟩
    rw [lengthPrefix_frame] at hlength
    have hmod := Option.some.inj hlength
    omega
  · intro hlt
    refine ⟨feed_tryUnframe hcap hcut, ?_, flatten_chunksForMtu (frame payload) mtu, fun chunk => chunk_within⟩
    rw [lengthPrefix_frame, Nat.mod_eq_of_lt hlt]

/-- Two payloads, the first length cut in two. -/
theorem framing_iff_twoPayloads :
    (feed tryUnframe [[0], [1, 7, 0], [1, 9]] [] = some ([[7], [9]], [])
        ∧ lengthPrefix (frame [7]) = some 1
        ∧ (chunksForMtu (frame [7]) 23).flatten = frame [7]
        ∧ ∀ chunk ∈ chunksForMtu (frame [7]) 23, chunk ≠ [] ∧ chunk.length ≤ attLimit 23)
      ↔ 1 < 2 ^ 16 :=
  framing_iff [[7], [9]] [[0], [1, 7, 0], [1, 9]] (by decide) rfl [7] 23

/-- The length in front of 65536 bytes is zero. -/
theorem not_lengthPrefix_frame :
    ¬ ∀ payload : Octets, lengthPrefix (frame payload) = some payload.length := by
  intro h
  have hlength := h (List.replicate (2 ^ 16) 0)
  rw [lengthPrefix_frame, List.length_replicate] at hlength
  exact absurd hlength (by decide)

/-! ## The receiving part of a query -/

/-- A notification, and whether it comes on the characteristic the car answers on. -/
structure Notification where
  fromVehicle : Bool
  value : Octets

/-- What begins the car's unsolicited messages (`BROADCAST_FRAME_PREFIX`). -/
def broadcastFramePrefix : Octets := [0x32, 0x02, 0x08, 0x00]

def maxDesyncs : Nat := 64

/-- A query that waits: the buffer, the lengths refused so far, and the notifications that are to come. -/
structure Receiver where
  rxBuffer : Octets
  desyncs : Nat
  coming : List Notification

/-- A payload is taken for the reply: long enough, not unsolicited, and of the form the caller expects. -/
def takes (accept : Octets → Bool) (payload : Octets) : Bool :=
  decide (8 ≤ payload.length) && !broadcastFramePrefix.isPrefixOf payload && accept payload

/-- One pass of the loop that waits for a reply (`round_trip`). -/
def receive (accept : Octets → Bool) (s : Receiver) : Turn Receiver (Except String Octets × Receiver) :=
  match tryUnframe s.rxBuffer with
  | .garbage e =>
    let s := { s with rxBuffer := [], desyncs := s.desyncs + 1 }
    if maxDesyncs < s.desyncs then .done (.error e, s) else .again s
  | .item payload rest =>
    let s := { s with rxBuffer := rest }
    if takes accept payload then .done (.ok payload, s) else .again s
  | .wait => match s.coming with
    | [] => .done (.error "notification stream ended", s)
    | n :: coming =>
      let s := { s with coming := coming }
      .again (if n.fromVehicle then { s with rxBuffer := s.rxBuffer ++ n.value } else s)

/-- The bytes that are in the buffer or will be. -/
def Receiver.stream (s : Receiver) : Octets :=
  s.rxBuffer ++ (s.coming.flatMap fun n => if n.fromVehicle then n.value else [])

/-- How a query ends whose replies these are. -/
def outcome : List Octets → Except String Octets
  | [] => .error "notification stream ended"
  | payload :: _ => .ok payload

/-- A notification that is taken in leaves the stream as it was. -/
theorem stream_of_notification (rxBuffer : Octets) (desyncs : Nat) (n : Notification) (coming : List Notification) :
    (if n.fromVehicle then Receiver.mk (rxBuffer ++ n.value) desyncs coming
      else Receiver.mk rxBuffer desyncs coming).stream = (Receiver.mk rxBuffer desyncs (n :: coming)).stream := by
  cases hfrom : n.fromVehicle with
  | true => simp only [Receiver.stream, if_pos, List.flatMap_cons, hfrom, List.append_assoc]
  | false => simp only [Receiver.stream, List.flatMap_cons, hfrom, Bool.false_eq_true, if_false, List.nil_append]

/-- **A query over a stream of frames** takes the first payload that passes for a reply and leaves the frames after it;
without one it waits until the notifications end. -/
theorem roundTrip_of_stream (accept : Octets → Bool) {payloads : List Octets}
    (hcap : ∀ payload ∈ payloads, payload.length ≤ maxPayload) {s : Receiver}
    (hstream : s.stream = payloads.flatMap frame) :
    ∃ fuel s', loop (receive accept) fuel s = some (outcome (payloads.dropWhile fun p => !takes accept p), s')
      ∧ s'.stream = (payloads.dropWhile fun p => !takes accept p).tail.flatMap frame := by
  -- each pass takes a notification or a payload
  obtain ⟨left, hleft⟩ : ∃ left, s.stream.length + s.coming.length = left := ⟨_, rfl⟩
  induction left using Nat.strongRecOn generalizing s payloads with
  | ind left ih =>
    obtain ⟨rxBuffer, desyncs, coming⟩ := s
    rcases frames_tryUnframe.front hcap hstream with hwait | ⟨payload, payloads, buf, rfl, hitem, hbuf, hshort⟩
    · cases coming with
      | nil =>
        -- nothing is left but a part of a frame, so nothing at all
        have hnil : payloads = [] := by
          cases payloads with
          | nil => rfl
          | cons payload payloads =>
            have hall : rxBuffer = frame payload ++ payloads.flatMap frame := by
              rw [← List.flatMap_cons, ← hstream, Receiver.stream, List.flatMap_nil, List.append_nil]
            rw [hall, tryUnframe_frame (hcap payload List.mem_cons_self)] at hwait
            exact nomatch hwait
        subst hnil
        refine ⟨1, ⟨rxBuffer, desyncs, []⟩, Library.loop_done ?_ 0, hstream⟩
        simp only [receive, hwait]
        rfl
      | cons n coming =>
        have hagain : receive accept ⟨rxBuffer, desyncs, n :: coming⟩
            = .again (if n.fromVehicle then ⟨rxBuffer ++ n.value, desyncs, coming⟩
              else ⟨rxBuffer, desyncs, coming⟩) := by
          simp only [receive, hwait]
        have hsame := stream_of_notification rxBuffer desyncs n coming
        have hless : (if n.fromVehicle then Receiver.mk (rxBuffer ++ n.value) desyncs coming
            else Receiver.mk rxBuffer desyncs coming).coming = coming := by
          cases n.fromVehicle <;> rfl
        obtain ⟨fuel, s', hloop, hrest⟩ := ih _ (by rw [hsame, hless, ← hleft]; exact Nat.lt_succ_self _) hcap
          (hsame.trans hstream) rfl
        exact ⟨fuel + 1, s', (Library.loop_again hagain fuel).trans hloop, hrest⟩
    · cases htakes : takes accept payload with
      | true =>
        have hdone : receive accept ⟨rxBuffer, desyncs, coming⟩ = .done (.ok payload, ⟨buf, desyncs, coming⟩) := by
          simp only [receive, hitem, htakes, if_true]
        refine ⟨1, ⟨buf, desyncs, coming⟩, ?_, ?_⟩
        · rw [Library.loop_done hdone 0, List.dropWhile_cons_of_neg (by rw [htakes]; decide), outcome]
        · rw [List.dropWhile_cons_of_neg (by rw [htakes]; decide), List.tail_cons, ← hbuf, Receiver.stream]
      | false =>
        have hagain : receive accept ⟨rxBuffer, desyncs, coming⟩ = .again ⟨buf, desyncs, coming⟩ := by
          simp only [receive, hitem, htakes, Bool.false_eq_true, if_false]
        have hlt : (Receiver.mk buf desyncs coming).stream.length + coming.length < left := by
          simp only [Receiver.stream, List.length_append] at hleft hshort ⊢
          omega
        obtain ⟨fuel, s', hloop, hrest⟩ := ih _ hlt (fun p hp => hcap p (List.mem_cons_of_mem payload hp))
          (s := ⟨buf, desyncs, coming⟩) hbuf rfl
        refine ⟨fuel + 1, s', ?_, ?_⟩
        · rw [Library.loop_again hagain fuel, hloop, List.dropWhile_cons_of_pos (by rw [htakes]; rfl)]
        · rw [hrest, List.dropWhile_cons_of_pos (by rw [htakes]; rfl)]

/-- A frame too short for a reply, and one that passes, cut in the middle. -/
theorem roundTrip_of_stream_two : ∃ fuel s', loop (receive fun _ => true) fuel
      ⟨[0, 1], 0, [⟨true, [1, 0]⟩, ⟨true, 8 :: List.replicate 8 2⟩]⟩ = some (.ok (List.replicate 8 2), s')
    ∧ s'.stream = [] :=
  @roundTrip_of_stream (fun _ => true) [[1], List.replicate 8 2] (by decide) _ (by decide)

end SentryUsb.Ble
