/-
  The messages of a successor's redemption (`successor.rs`).  A request is the only one with
  its bytes, and an acknowledgement is accepted exactly for its request
  (`successor_canonical`).  `sha256` is any function.
-/
import Reverie.Lib.Buffer
import Reverie.Lib.Bytes

namespace Reverie.Successor
open Buffer
open Bytes (length_toBe ofBe ofBe_toBe toBe toBe_ofBe)
open List hiding Vector

/-! ## Messages -/

/-- A SHA-256 digest. -/
abbrev Digest := Vector UInt8 32

def MAX_TICKET_LEN : ℕ := 256

def REQUEST_HEADER_LEN : ℕ := 76

def ACK_LEN : ℕ := 106

def VERSION : ℕ := 1

/-- `b"RVSUCCRQ"`. -/
def REQUEST_MAGIC : List UInt8 := [0x52, 0x56, 0x53, 0x55, 0x43, 0x43, 0x52, 0x51]

/-- `b"RVSUCCAK"`. -/
def ACK_MAGIC : List UInt8 := [0x52, 0x56, 0x53, 0x55, 0x43, 0x43, 0x41, 0x4b]

/-- The digests that a successor must have. -/
structure ExpectedSuccessor where
  config : Digest
  state : Digest
  deriving DecidableEq

/-- A successor's ticket and digests. -/
structure SuccessorRequest where
  ticket : List UInt8
  expected : ExpectedSuccessor
  deriving DecidableEq

/-- Why a message is refused. -/
inductive RpcError where
  | invalidData (message : String)

def invalid (message : String) : RpcError := .invalidData message

/-- `bytes[offset..offset + 32].try_into().unwrap()`. -/
def digestAt (bytes : List UInt8) (offset : ℕ) (h : offset + 32 ≤ bytes.length) : Digest :=
  ⟨(Buffer.read bytes offset 32).toArray, length_read h⟩

def checkHeader (bytes magic : List UInt8) : Except RpcError Unit :=
  if bytes.length < 10 ∨ Buffer.read bytes 0 8 ≠ magic ∨ Buffer.read bytes 8 2 ≠ toBe 2 VERSION then
    .error (invalid "successor magic or version differs")
  else .ok ()

def requestBytes (request : SuccessorRequest) : List UInt8 :=
  REQUEST_MAGIC ++ toBe 2 VERSION ++ toBe 2 request.ticket.length ++
    request.expected.config.toList ++ request.expected.state.toList ++ request.ticket

def encodeRedemption (request : SuccessorRequest) : Except RpcError (List UInt8) :=
  if 1 ≤ request.ticket.length ∧ request.ticket.length ≤ MAX_TICKET_LEN then
    .ok (requestBytes request)
  else .error (invalid "successor ticket length is invalid")

def decodeRedemption (bytes : List UInt8) : Except RpcError SuccessorRequest :=
  if h : REQUEST_HEADER_LEN + 1 ≤ bytes.length ∧
      bytes.length ≤ REQUEST_HEADER_LEN + MAX_TICKET_LEN then
    match checkHeader bytes REQUEST_MAGIC with
    | .error e => .error e
    | .ok () =>
      let length := ofBe (Buffer.read bytes 10 2)
      if length = 0 ∨ length > MAX_TICKET_LEN ∨ REQUEST_HEADER_LEN + length ≠ bytes.length then
        .error (invalid "successor ticket does not consume its frame")
      else
        let config := digestAt bytes 12 (le_trans (by decide) h.1)
        let state := digestAt bytes 44 (le_trans (by decide) h.1)
        .ok ⟨bytes.drop REQUEST_HEADER_LEN, ⟨config, state⟩⟩
  else .error (invalid "successor request length is invalid")

section
variable (sha256 : List UInt8 → Digest)

def encodeAck (request : SuccessorRequest) : List UInt8 :=
  ACK_MAGIC ++ toBe 2 VERSION ++ request.expected.config.toList ++ request.expected.state.toList ++
    (sha256 request.ticket).toList

def checkAck (bytes : List UInt8) (request : SuccessorRequest) : Except RpcError Unit :=
  if bytes.length ≠ ACK_LEN then .error (invalid "successor acknowledgement length is invalid")
  else match checkHeader bytes ACK_MAGIC with
    | .error e => .error e
    | .ok () =>
      if Buffer.read bytes 10 32 ≠ request.expected.config.toList ∨
          Buffer.read bytes 42 32 ≠ request.expected.state.toList ∨
          Buffer.read bytes 74 32 ≠ (sha256 request.ticket).toList then
        .error (invalid "successor acknowledgement binding differs")
      else .ok ()

end

/-! ## Fields -/

section
variable {bytes magic : List UInt8} {request : SuccessorRequest}

theorem checkHeader_eq_ok_iff : checkHeader bytes magic = .ok () ↔
    10 ≤ bytes.length ∧ Buffer.read bytes 0 8 = magic ∧ Buffer.read bytes 8 2 = toBe 2 VERSION := by
  unfold checkHeader
  split_ifs with h
  · refine ⟨fun herror => (by cases herror), fun ⟨hlen, hmagic, hversion⟩ => ?_⟩
    rcases h with h | h | h
    · omega
    · exact absurd hmagic h
    · exact absurd hversion h
  · rw [not_or, not_or, not_not, not_not, not_lt] at h
    exact ⟨fun _ => h, fun _ => rfl⟩

theorem toList_digestAt {offset : ℕ} (h : offset + 32 ≤ bytes.length) :
    (digestAt bytes offset h).toList = Buffer.read bytes offset 32 := by
  rw [digestAt, Vector.toList_mk]

theorem digestAt_eq {offset : ℕ} {digest : Digest} (h : offset + 32 ≤ bytes.length)
    (hread : Buffer.read bytes offset 32 = digest.toList) : digestAt bytes offset h = digest := by
  refine Vector.toList_inj.1 ?_
  rw [toList_digestAt, hread]

theorem read_zero_append (bytes : List UInt8) (offset len : ℕ) :
    Buffer.read bytes 0 offset ++ Buffer.read bytes offset len = Buffer.read bytes 0 (offset + len) := by
  rw [read_add, Nat.zero_add]

/-! ## Requests -/

theorem length_requestBytes (request : SuccessorRequest) :
    (requestBytes request).length = REQUEST_HEADER_LEN + request.ticket.length := by
  simp only [requestBytes, length_append, length_toBe, Vector.length_toList, REQUEST_MAGIC,
    length_cons, length_nil, REQUEST_HEADER_LEN]

/-- The fields of a request stand at their offsets. -/
structure RequestFields (bytes : List UInt8) (request : SuccessorRequest) : Prop where
  magic : Buffer.read bytes 0 8 = REQUEST_MAGIC
  version : Buffer.read bytes 8 2 = toBe 2 VERSION
  length : Buffer.read bytes 10 2 = toBe 2 request.ticket.length
  config : Buffer.read bytes 12 32 = request.expected.config.toList
  state : Buffer.read bytes 44 32 = request.expected.state.toList
  ticket : bytes.drop REQUEST_HEADER_LEN = request.ticket

theorem requestFields_requestBytes (request : SuccessorRequest) :
    RequestFields (requestBytes request) request := by
  obtain ⟨ticket, config, state⟩ := request
  have hm : REQUEST_MAGIC.length = 8 := rfl
  have hv := length_toBe 2 VERSION
  have hl := length_toBe 2 ticket.length
  have hc : config.toList.length = 32 := Vector.length_toList
  have hs : state.toList.length = 32 := Vector.length_toList
  simp only [requestBytes]
  refine ⟨?_, ?_, ?_, ?_, ?_, ?_⟩
  · have h := read_piece [] REQUEST_MAGIC
      (toBe 2 VERSION ++ toBe 2 ticket.length ++ config.toList ++ state.toList ++ ticket)
      length_nil hm
    simpa only [append_assoc, nil_append] using h
  · have h := read_piece REQUEST_MAGIC (toBe 2 VERSION)
      (toBe 2 ticket.length ++ config.toList ++ state.toList ++ ticket) hm hv
    simpa only [append_assoc] using h
  · have h := read_piece (REQUEST_MAGIC ++ toBe 2 VERSION) (toBe 2 ticket.length)
      (config.toList ++ state.toList ++ ticket) (length_append.trans (by rw [hm, hv])) hl
    simpa only [append_assoc] using h
  · have h := read_piece (REQUEST_MAGIC ++ toBe 2 VERSION ++ toBe 2 ticket.length)
      config.toList (state.toList ++ ticket)
      (by rw [length_append, length_append, hm, hv, hl]) hc
    simpa only [append_assoc] using h
  · exact read_piece (REQUEST_MAGIC ++ toBe 2 VERSION ++ toBe 2 ticket.length ++ config.toList)
      state.toList ticket (by simp only [length_append, hm, hv, hl, hc]) hs
  · refine drop_left' ?_
    simp only [length_append, hm, hv, hl, hc, hs, REQUEST_HEADER_LEN]

theorem RequestFields.eq (h : RequestFields bytes request) : bytes = requestBytes request := by
  have hsplit : bytes = Buffer.read bytes 0 76 ++ bytes.drop 76 := (take_append_drop 76 bytes).symm
  rw [hsplit, ← read_zero_append bytes 44 32, ← read_zero_append bytes 12 32,
    ← read_zero_append bytes 10 2, ← read_zero_append bytes 8 2]
  rw [h.magic, h.version, h.length, h.config, h.state]
  exact congrArg _ h.ticket

/-- What is decoded are the fields, if the header and the length are right. -/
theorem RequestFields.of_decode (h : decodeRedemption bytes = .ok request) :
    RequestFields bytes request ∧ 1 ≤ request.ticket.length ∧
      request.ticket.length ≤ MAX_TICKET_LEN := by
  unfold decodeRedemption at h
  by_cases hlen : REQUEST_HEADER_LEN + 1 ≤ bytes.length ∧
      bytes.length ≤ REQUEST_HEADER_LEN + MAX_TICKET_LEN
  swap
  · rw [dif_neg hlen] at h
    cases h
  rw [dif_pos hlen] at h
  rcases hheader : checkHeader bytes REQUEST_MAGIC with e | ⟨⟩
  · rw [hheader] at h
    cases h
  · rw [hheader] at h
    obtain ⟨-, hmagic, hversion⟩ := checkHeader_eq_ok_iff.1 hheader
    dsimp only at h
    split_ifs at h with hticket
    · rw [not_or, not_or, not_not] at hticket
      obtain ⟨hpos, hmax, hall⟩ := hticket
      cases h
      have hdrop : (bytes.drop REQUEST_HEADER_LEN).length = ofBe (Buffer.read bytes 10 2) := by
        rw [length_drop, ← hall, Nat.add_sub_cancel_left]
      have hfield : (Buffer.read bytes 10 2).length = 2 :=
        length_read (le_trans (by decide) hlen.1)
      refine ⟨⟨hmagic, hversion, ?_, ?_, ?_, rfl⟩, ?_, ?_⟩
      · rw [hdrop, toBe_ofBe hfield]
      · rw [toList_digestAt]
      · rw [toList_digestAt]
      · rw [hdrop]
        exact Nat.pos_of_ne_zero hpos
      · rw [hdrop]
        exact not_lt.1 hmax

theorem RequestFields.decode (h : RequestFields bytes request) (hpos : 1 ≤ request.ticket.length)
    (hmax : request.ticket.length ≤ MAX_TICKET_LEN) : decodeRedemption bytes = .ok request := by
  have hlen : bytes.length = REQUEST_HEADER_LEN + request.ticket.length := by
    rw [h.eq, length_requestBytes]
  have hbound : REQUEST_HEADER_LEN + 1 ≤ bytes.length ∧
      bytes.length ≤ REQUEST_HEADER_LEN + MAX_TICKET_LEN := by omega
  have hheader : checkHeader bytes REQUEST_MAGIC = .ok () :=
    checkHeader_eq_ok_iff.2 ⟨le_trans (by decide) hbound.1, h.magic, h.version⟩
  have hfield : ofBe (Buffer.read bytes 10 2) = request.ticket.length := by
    rw [h.length, ofBe_toBe (hmax.trans_lt (by decide))]
  have hticket : ¬ (ofBe (Buffer.read bytes 10 2) = 0 ∨
      ofBe (Buffer.read bytes 10 2) > MAX_TICKET_LEN ∨
      REQUEST_HEADER_LEN + ofBe (Buffer.read bytes 10 2) ≠ bytes.length) := by
    omega
  unfold decodeRedemption
  rw [dif_pos hbound, hheader]
  rw [if_neg hticket, digestAt_eq _ h.config, digestAt_eq _ h.state, h.ticket]

theorem decodeRedemption_eq_ok_iff :
    decodeRedemption bytes = .ok request ↔ encodeRedemption request = .ok bytes := by
  unfold encodeRedemption
  constructor
  · intro h
    obtain ⟨hfields, hticket⟩ := RequestFields.of_decode h
    rw [if_pos hticket, ← hfields.eq]
  · intro h
    split_ifs at h with hticket
    cases h
    exact (requestFields_requestBytes request).decode hticket.1 hticket.2

/-! ## Acknowledgements -/

section
variable {sha256 : List UInt8 → Digest}

/-- The fields of an acknowledgement stand at their offsets. -/
structure AckFields (sha256 : List UInt8 → Digest) (bytes : List UInt8)
    (request : SuccessorRequest) : Prop where
  length : bytes.length = ACK_LEN
  magic : Buffer.read bytes 0 8 = ACK_MAGIC
  version : Buffer.read bytes 8 2 = toBe 2 VERSION
  config : Buffer.read bytes 10 32 = request.expected.config.toList
  state : Buffer.read bytes 42 32 = request.expected.state.toList
  ticket : Buffer.read bytes 74 32 = (sha256 request.ticket).toList

theorem ackFields_encodeAck (request : SuccessorRequest) :
    AckFields sha256 (encodeAck sha256 request) request := by
  obtain ⟨ticket, config, state⟩ := request
  have hm : ACK_MAGIC.length = 8 := rfl
  have hv := length_toBe 2 VERSION
  have hc : config.toList.length = 32 := Vector.length_toList
  have hs : state.toList.length = 32 := Vector.length_toList
  have ht : (sha256 ticket).toList.length = 32 := Vector.length_toList
  simp only [encodeAck]
  refine ⟨?_, ?_, ?_, ?_, ?_, ?_⟩
  · simp only [length_append, hm, hv, hc, hs, ht, ACK_LEN]
  · have h := read_piece [] ACK_MAGIC
      (toBe 2 VERSION ++ config.toList ++ state.toList ++ (sha256 ticket).toList) length_nil hm
    simpa only [append_assoc, nil_append] using h
  · have h := read_piece ACK_MAGIC (toBe 2 VERSION)
      (config.toList ++ state.toList ++ (sha256 ticket).toList) hm hv
    simpa only [append_assoc] using h
  · have h := read_piece (ACK_MAGIC ++ toBe 2 VERSION) config.toList
      (state.toList ++ (sha256 ticket).toList) (by rw [length_append, hm, hv]) hc
    simpa only [append_assoc] using h
  · exact read_piece (ACK_MAGIC ++ toBe 2 VERSION ++ config.toList) state.toList
      (sha256 ticket).toList (by rw [length_append, length_append, hm, hv, hc]) hs
  · have h := read_piece (ACK_MAGIC ++ toBe 2 VERSION ++ config.toList ++ state.toList)
      (sha256 ticket).toList []
      (by rw [length_append, length_append, length_append, hm, hv, hc, hs]) ht
    simpa only [append_nil] using h

theorem AckFields.eq (h : AckFields sha256 bytes request) : bytes = encodeAck sha256 request := by
  have hall : bytes = Buffer.read bytes 0 106 := (take_of_length_le h.length.le).symm
  rw [hall, ← read_zero_append bytes 74 32, ← read_zero_append bytes 42 32,
    ← read_zero_append bytes 10 32, ← read_zero_append bytes 8 2]
  rw [h.magic, h.version, h.config, h.state, h.ticket, encodeAck]

/-- An acknowledgement is accepted exactly if it is the one of the request. -/
theorem checkAck_eq_ok_iff : checkAck sha256 bytes request = .ok () ↔
    bytes = encodeAck sha256 request := by
  unfold checkAck
  constructor
  · intro h
    by_cases hlen : bytes.length = ACK_LEN
    swap
    · rw [if_pos hlen] at h
      cases h
    rw [if_neg (not_not.2 hlen)] at h
    rcases hheader : checkHeader bytes ACK_MAGIC with e | ⟨⟩
    · rw [hheader] at h
      cases h
    · rw [hheader] at h
      obtain ⟨-, hmagic, hversion⟩ := checkHeader_eq_ok_iff.1 hheader
      split_ifs at h with hbinding
      · rw [not_or, not_or, not_not, not_not, not_not] at hbinding
        exact AckFields.eq ⟨hlen, hmagic, hversion, hbinding.1, hbinding.2.1, hbinding.2.2⟩
  · rintro rfl
    have hfields : AckFields sha256 _ request := ackFields_encodeAck request
    have hheader : checkHeader (encodeAck sha256 request) ACK_MAGIC = .ok () :=
      checkHeader_eq_ok_iff.2 ⟨hfields.length ▸ (by decide), hfields.magic, hfields.version⟩
    rw [if_neg (not_not.2 hfields.length), hheader]
    rw [if_neg]
    · rw [not_or, not_or, not_not, not_not, not_not]
      exact ⟨hfields.config, hfields.state, hfields.ticket⟩

/-- Two requests with one acknowledgement agree in the digests and in the ticket's. -/
theorem encodeAck_inj {other : SuccessorRequest}
    (h : encodeAck sha256 other = encodeAck sha256 request) :
    other.expected = request.expected ∧ sha256 other.ticket = sha256 request.ticket := by
  have hother : AckFields sha256 _ other := ackFields_encodeAck other
  have hrequest : AckFields sha256 _ request := ackFields_encodeAck request
  rw [h] at hother
  have hconfig := Vector.toList_inj.1 (hother.config.symm.trans hrequest.config)
  have hstate := Vector.toList_inj.1 (hother.state.symm.trans hrequest.state)
  refine ⟨?_, Vector.toList_inj.1 (hother.ticket.symm.trans hrequest.ticket)⟩
  calc other.expected = ⟨other.expected.config, other.expected.state⟩ := rfl
    _ = ⟨request.expected.config, request.expected.state⟩ := by rw [hconfig, hstate]

end

/-- **Successor messages are canonical.**  A request is decoded from its bytes, if it has a
    ticket that may be sent, and from no others; the acknowledgement that is accepted for a
    request is the one made for it.  So one made for another request is refused, as long as
    the two tickets do not collide under the hash. -/
theorem successor_canonical (sha256 : List UInt8 → Digest) (request : SuccessorRequest) :
    (match encodeRedemption request with
      | .ok bytes => decodeRedemption bytes = .ok request
      | .error _ => ¬ (1 ≤ request.ticket.length ∧ request.ticket.length ≤ MAX_TICKET_LEN)) ∧
    (∀ bytes, decodeRedemption bytes = .ok request → encodeRedemption request = .ok bytes) ∧
    (∀ bytes, checkAck sha256 bytes request = .ok () ↔ bytes = encodeAck sha256 request) ∧
    (∀ other : SuccessorRequest, other ≠ request →
      (sha256 other.ticket = sha256 request.ticket → other.ticket = request.ticket) →
        ∃ e, checkAck sha256 (encodeAck sha256 other) request = .error e) := by
  refine ⟨?_, fun bytes => decodeRedemption_eq_ok_iff.1, fun bytes => checkAck_eq_ok_iff, ?_⟩
  · rcases hencode : encodeRedemption request with e | bytes
    · intro hticket
      rw [encodeRedemption, if_pos hticket] at hencode
      cases hencode
    · exact decodeRedemption_eq_ok_iff.2 hencode
  · intro other hne hcollision
    rcases hcheck : checkAck sha256 (encodeAck sha256 other) request with e | ⟨⟩
    · exact ⟨e, rfl⟩
    · obtain ⟨hexpected, hticket⟩ := encodeAck_inj (checkAck_eq_ok_iff.1 hcheck)
      refine absurd ?_ hne
      calc other = ⟨other.ticket, other.expected⟩ := rfl
        _ = ⟨request.ticket, request.expected⟩ := by rw [hcollision hticket, hexpected]

/-- The acknowledgement of another ticket and another state digest is refused. -/
theorem successor_canonical_other_state :
    let sha256 (ticket : List UInt8) : Digest := Vector.replicate 32 (ticket.foldl (31 * · + ·) 7)
    let request : SuccessorRequest := ⟨[3, 1, 4], Vector.replicate 32 21, Vector.replicate 32 9⟩
    let other : SuccessorRequest := ⟨[2, 7], Vector.replicate 32 21, Vector.replicate 32 8⟩
    ∃ e, checkAck sha256 (encodeAck sha256 other) request = .error e :=
  (successor_canonical _ ⟨[3, 1, 4], _, _⟩).2.2.2 ⟨[2, 7], _, _⟩ (by decide)
    fun hticket => absurd hticket (by decide)

end

end Reverie.Successor
