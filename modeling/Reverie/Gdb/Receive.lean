/-
  The receiver of gdb's packets (`GdbServerImpl::recv_packet` of `server.rs`), which keeps the
  bytes of an incomplete packet, and how far it has scanned them, from read to read.
  `recv_packet_of_items`: however a stream of well-formed items is split.
-/
import Reverie.Gdb.Render

namespace Reverie.Gdb
open List Option

/-! ## The receiver -/

def packetDataCapacity : ℕ := 0x8000
def packetBufferCapacity : ℕ := packetDataCapacity + 4

/-- The state of the escape that `checksum_delimiter` leaves after the bytes. -/
def escapedAfter : List UInt8 → Bool → Bool
  | [], escaped => escaped
  | _ :: rest, true => escapedAfter rest false
  | byte :: rest, false =>
    if byte = '}'.toUInt8 then escapedAfter rest true
    else if byte = '#'.toUInt8 then false
    else escapedAfter rest false

/-- The receiver's buffer and what the transport has yet to deliver, one list for each read.
    A stream that ends delivers nothing. -/
structure Server where
  rxBuf : List UInt8 := []
  reads : List (List UInt8)

/-- The locals of `recv_packet`. -/
structure Scan where
  withAck : Bool := false
  searched : ℕ := 0
  escaped : Bool := false
  frameLen : Option ℕ := none

/-- What a call of `recv_packet` comes to: a frame that went to `Packet::new`, with whether
    an acknowledgement was taken off before it; an error; or a panic of the call's own. -/
inductive Received where
  | packet (withAck : Bool) (parsed : Except Panic (Except PacketParseError Packet))
  | failed (error : PacketParseError)
  | panicked (panic : Panic)

/-- Look for the end of the frame at the front of the buffer. -/
def Scan.search (scan : Scan) (rxBuf : List UInt8) : Except Panic Scan :=
  if rxBuf.head? = some '$'.toUInt8 then
    if scan.frameLen = none then do
      let bytes ← sliceFrom rxBuf scan.searched
      pure { scan with
        frameLen := (checksumDelimiter bytes scan.escaped).map (scan.searched + · + 3)
        searched := rxBuf.length
        escaped := escapedAfter bytes scan.escaped }
    else pure scan
  else pure { scan with frameLen := some 1 }

/-- The part of the loop before its read: the call returns, or goes on to read. -/
def Scan.look (scan : Scan) : List UInt8 → (Received ⊕ Scan) × List UInt8
  | [] => (.inr scan, [])
  | first :: rest =>
    if first = '+'.toUInt8 ∧ scan.withAck = false ∧ 1 < (first :: rest).length then
      look { scan with withAck := true } rest
    else
      match scan.search (first :: rest) with
      | .error p => (.inl (.panicked p), first :: rest)
      | .ok scan =>
        match scan.frameLen with
        | none => (.inr scan, first :: rest)
        | some len =>
          if packetBufferCapacity < len then
            (.inl (.failed (.packetTooLarge packetDataCapacity)), first :: rest)
          else if len ≤ (first :: rest).length then
            (.inl (.packet scan.withAck (Packet.tryFrom ((first :: rest).take len)).run),
              (first :: rest).drop len)
          else (.inr scan, first :: rest)

/-- One read of at most `remaining` bytes, and the reads left. -/
def readSome (remaining : ℕ) : List (List UInt8) → List UInt8 × List (List UInt8)
  | [] => ([], [])
  | segment :: reads =>
    (segment.take remaining,
      if segment.length ≤ remaining then reads else segment.drop remaining :: reads)

theorem readSome_flatten (remaining : ℕ) (reads : List (List UInt8)) :
    (readSome remaining reads).1 ++ (readSome remaining reads).2.flatten = reads.flatten := by
  cases reads with
  | nil => rfl
  | cons segment reads =>
    rw [readSome]
    split_ifs with h
    · rw [take_of_length_le h, flatten_cons]
    · rw [flatten_cons, ← append_assoc, take_append_drop, flatten_cons]

/-- The loop of `recv_packet`. -/
def Scan.recv (scan : Scan) (server : Server) : Received × Server :=
  match scan.look server.rxBuf with
  | (.inl received, rxBuf) => (received, { server with rxBuf })
  | (.inr scan, rxBuf) =>
    match subtract packetBufferCapacity rxBuf.length with
    | .error p => (.panicked p, { server with rxBuf })
    | .ok remaining =>
      if remaining = 0 then (.failed (.packetTooLarge packetDataCapacity), { server with rxBuf })
      else
        if _hread : (readSome remaining server.reads).1 = [] then
          (.failed (if rxBuf = [] then .emptyBuf else .missingChecksum),
            ⟨rxBuf, (readSome remaining server.reads).2⟩)
        else
          recv scan ⟨rxBuf ++ (readSome remaining server.reads).1, (readSome remaining server.reads).2⟩
termination_by server.reads.flatten.length
decreasing_by
  have hlen := congrArg List.length (readSome_flatten remaining server.reads)
  have hpos := length_pos_iff.2 _hread
  rw [length_append] at hlen
  omega

def recvPacket (server : Server) : Received × Server := Scan.recv {} server

/-- Calls of `recv_packet`, one after the other. -/
inductive Receives : Server → List Received → Server → Prop where
  | refl {server : Server} : Receives server [] server
  | call {server final : Server} {rest : List Received}
      (h : Receives (recvPacket server).2 rest final) :
      Receives server ((recvPacket server).1 :: rest) final

/-! ## Items -/

/-- What gdb sends.  A command has its body, with the escapes in it, and the two digits of
    its checksum. -/
inductive Item where
  | ack
  | nack
  | interrupt
  | command (body : List UInt8) (hi lo : UInt8)

namespace Item

def bytes : Item → List UInt8
  | ack => ['+'.toUInt8]
  | nack => ['-'.toUInt8]
  | interrupt => [0x03]
  | command body hi lo => '$'.toUInt8 :: body ++ ['#'.toUInt8, hi, lo]

/-- The body is in bounds and its checksum right. -/
def WellFormed : Item → Prop
  | command body hi lo =>
    Sealed body ∧ body.length ≤ packetDataCapacity ∧
      decodeHex .u8 [hi, lo] = .ok (checksum body).toNat
  | _ => True

def packet : Item → Except Panic (Except PacketParseError Packet)
  | ack => .ok (.ok .ack)
  | nack => .ok (.ok .nack)
  | interrupt => .ok (.ok .interrupt)
  | command body _ _ => (Packet.command <$> ofCommand (Command.tryParse body)).run

end Item

/-- The command or the interrupt in what was received. -/
def commandOrInterrupt : Except Panic (Except PacketParseError Packet) →
    Option (Except Panic (Except PacketParseError Packet))
  | .ok (.ok .ack) | .ok (.ok .nack) => none
  | parsed => some parsed

def Received.event : Received → Option (Except Panic (Except PacketParseError Packet))
  | packet _ parsed => commandOrInterrupt parsed
  | failed error => some (.ok (.error error))
  | panicked p => some (.error p)

/-- A packet with a body above the limit is at the front. -/
def Oversized (bytes : List UInt8) : Prop :=
  ∃ body rest, bytes = '$'.toUInt8 :: body ++ '#'.toUInt8 :: rest ∧ Sealed body ∧
    packetDataCapacity < body.length

namespace Server

def pending (server : Server) : List UInt8 := server.rxBuf ++ server.reads.flatten

/-- No empty segment is to come, and the buffer is in bounds. -/
structure Ready (server : Server) : Prop where
  nonempty : ∀ segment ∈ server.reads, segment ≠ []
  fits : server.rxBuf.length ≤ packetBufferCapacity

end Server

/-! ## The scan -/

variable {buf more pending tail : List UInt8} {scan : Scan} {server : Server} {len remaining : ℕ}

theorem checksumDelimiter_append (left right : List UInt8) (escaped : Bool) :
    checksumDelimiter (left ++ right) escaped = (checksumDelimiter left escaped).or
      ((checksumDelimiter right (escapedAfter left escaped)).map (· + left.length)) := by
  induction left generalizing escaped with
  | nil => simp [checksumDelimiter, escapedAfter]
  | cons b left ih =>
    cases escaped with
    | true => simp [checksumDelimiter, escapedAfter, ih, map_or]
    | false =>
      rw [cons_append, checksumDelimiter, checksumDelimiter, escapedAfter]
      split_ifs
      · simp [ih, map_or]
      · rfl
      · simp [ih, map_or]

theorem escapedAfter_append (left right : List UInt8) (escaped : Bool)
    (h : checksumDelimiter left escaped = none) :
    escapedAfter (left ++ right) escaped = escapedAfter right (escapedAfter left escaped) := by
  induction left generalizing escaped with
  | nil => rfl
  | cons b left ih =>
    cases escaped with
    | true => exact ih false (map_eq_none_iff.1 h)
    | false =>
      rw [checksumDelimiter] at h
      rw [cons_append, escapedAfter, escapedAfter]
      split_ifs at h ⊢
      · exact ih true (map_eq_none_iff.1 h)
      · exact ih false (map_eq_none_iff.1 h)

/-- The length of the frame at the front of a buffer, once its end is there. -/
def frameLength (buf : List UInt8) : Option ℕ :=
  if buf.head? = some '$'.toUInt8 then (checksumDelimiter buf false).map (· + 3)
  else buf.head?.map fun _ => 1

/-- The scan has seen a part of the buffer, and knows of it what one look at it shows. -/
structure Scan.Fits (scan : Scan) (buf : List UInt8) : Prop where
  searched : scan.searched ≤ buf.length
  frameLen : scan.frameLen = (checksumDelimiter (buf.take scan.searched) false).map (· + 3)
  escaped : scan.frameLen = none → scan.escaped = escapedAfter (buf.take scan.searched) false

theorem Scan.fits_start (ack : Bool) (buf : List UInt8) : Scan.Fits { withAck := ack } buf :=
  ⟨Nat.zero_le _, rfl, fun _ => rfl⟩

theorem Scan.Fits.append (h : scan.Fits buf) (more : List UInt8) : scan.Fits (buf ++ more) := by
  have htake : (buf ++ more).take scan.searched = buf.take scan.searched :=
    take_append_of_le_length h.searched
  refine ⟨?_, ?_, ?_⟩
  · rw [length_append]
    exact Nat.le_add_right_of_le h.searched
  · rw [htake, h.frameLen]
  · rw [htake]
    exact h.escaped

theorem Scan.Fits.search (h : scan.Fits buf) (hne : buf ≠ []) :
    ∃ scan' : Scan, scan.search buf = .ok scan' ∧
    scan'.withAck = scan.withAck ∧ scan'.frameLen = frameLength buf ∧
    (frameLength buf ≠ some 1 → scan'.Fits buf) := by
  have hsplit := checksumDelimiter_append (buf.take scan.searched) (buf.drop scan.searched) false
  rw [List.take_append_drop, List.length_take_of_le h.searched] at hsplit
  by_cases hdollar : buf.head? = some '$'.toUInt8
  · rw [Scan.search, if_pos hdollar, frameLength, if_pos hdollar]
    by_cases hnone : scan.frameLen = none
    · have hstart : checksumDelimiter (buf.take scan.searched) false = none :=
        Option.map_eq_none_iff.1 (h.frameLen.symm.trans hnone)
      rw [hstart, Option.none_or, ← h.escaped hnone] at hsplit
      have hescaped := escapedAfter_append _ (buf.drop scan.searched) _ hstart
      rw [List.take_append_drop, ← h.escaped hnone] at hescaped
      have hlen : (checksumDelimiter (buf.drop scan.searched) scan.escaped).map
          (scan.searched + · + 3) = (checksumDelimiter buf false).map (· + 3) := by
        rw [hsplit, Option.map_map]
        exact congrArg (Option.map · _) (funext fun n => by simp [Nat.add_comm])
      rw [if_pos hnone, sliceFrom, if_pos h.searched]
      refine ⟨_, rfl, rfl, hlen, fun _ => ⟨le_rfl, ?_, fun _ => ?_⟩⟩
      · exact hlen.trans (by rw [List.take_length])
      · exact hescaped.symm.trans (by rw [List.take_length])
    · rw [if_neg hnone]
      refine ⟨scan, rfl, rfl, ?_, fun _ => h⟩
      rw [h.frameLen] at hnone ⊢
      obtain ⟨i, hi⟩ := Option.ne_none_iff_exists'.1 fun hn => hnone (Option.map_eq_none_iff.2 hn)
      rw [hsplit, hi, Option.some_or]
  · rw [Scan.search, if_neg hdollar, frameLength, if_neg hdollar]
    obtain ⟨first, rest, rfl⟩ := List.exists_cons_of_ne_nil hne
    exact ⟨_, rfl, rfl, rfl, fun hne => absurd rfl hne⟩

/-- The call returns from the bytes `buf` if the frame in front is complete or above the
    limit, and goes on to read otherwise. -/
def Scan.Looked (scan : Scan) (buf : List UInt8) : (Received ⊕ Scan) × List UInt8 → Prop
  | (.inr scan', rxBuf) => rxBuf = buf ∧ scan'.Fits buf ∧ scan'.withAck = scan.withAck ∧
    ∀ len, frameLength buf = some len → len ≤ packetBufferCapacity ∧ buf.length < len
  | (.inl received, rxBuf) => ∃ len, frameLength buf = some len ∧
    if packetBufferCapacity < len then
      received = .failed (.packetTooLarge packetDataCapacity) ∧ rxBuf = buf
    else len ≤ buf.length ∧ rxBuf = buf.drop len ∧
      received = .packet scan.withAck (Packet.tryFrom (buf.take len)).run

theorem Scan.Fits.look (h : scan.Fits buf)
    (hack : scan.withAck = true ∨ buf.head? ≠ some '+'.toUInt8 ∨ buf.length ≤ 1) :
    scan.Looked buf (scan.look buf) := by
  cases buf with
  | nil => exact ⟨rfl, h, rfl, nofun⟩
  | cons first rest =>
    rw [Scan.look, if_neg]
    · obtain ⟨scan', hsearch, hwith, hframe, hfits⟩ := h.search (cons_ne_nil _ _)
      rw [hsearch]
      dsimp only
      rw [hframe]
      rcases hlen : frameLength (first :: rest) with - | len
      · exact ⟨rfl, hfits (by simp [hlen]), hwith, fun _ hsome => by simp [hlen] at hsome⟩
      · dsimp only
        split_ifs with hcap hle
        · exact ⟨len, hlen, by rw [if_pos hcap]; exact ⟨rfl, rfl⟩⟩
        · exact ⟨len, hlen, by rw [if_neg hcap, hwith]; exact ⟨hle, rfl, rfl⟩⟩
        · refine ⟨rfl, hfits ?_, hwith, fun n hn => ?_⟩
          · rw [hlen]
            rintro ⟨⟩
            exact hle (Nat.succ_pos _)
          · obtain rfl := Option.some.inj (hlen.symm.trans hn)
            exact ⟨Nat.le_of_not_lt hcap, Nat.lt_of_not_le hle⟩
    · rintro ⟨hplus, hwith, hlong⟩
      rcases hack with hack | hack | hack
      · exact Bool.false_ne_true (hwith.symm.trans hack)
      · exact hack (congrArg some hplus)
      · exact absurd hack (Nat.not_le_of_lt hlong)

theorem Scan.look_ack (hwith : scan.withAck = false) {rest : List UInt8} (hrest : rest ≠ []) :
    scan.look ('+'.toUInt8 :: rest) = { scan with withAck := true }.look rest := by
  rw [Scan.look, if_pos]
  exact ⟨rfl, hwith, Nat.succ_lt_succ (length_pos_iff.2 hrest)⟩

theorem Scan.recv_ack (hwith : scan.withAck = false) {rest : List UInt8} (hrest : rest ≠ [])
    (hbuf : server.rxBuf = '+'.toUInt8 :: rest) :
    scan.recv server = { scan with withAck := true }.recv { server with rxBuf := rest } := by
  rw [Scan.recv, Scan.recv, hbuf, look_ack hwith hrest]

/-! ## One call -/

theorem readSome_nonempty {reads : List (List UInt8)} (h : ∀ segment ∈ reads, segment ≠ []) :
    ∀ segment ∈ (readSome remaining reads).2, segment ≠ [] := by
  cases reads with
  | nil => exact h
  | cons segment reads =>
    obtain ⟨-, hreads⟩ := forall_mem_cons.1 h
    rw [readSome]
    split_ifs with hle
    · exact hreads
    · refine forall_mem_cons.2 ⟨fun hnil => hle ?_, hreads⟩
      exact drop_eq_nil_iff.1 hnil

theorem readSome_length (remaining : ℕ) (reads : List (List UInt8)) :
    (readSome remaining reads).1.length ≤ remaining := by
  cases reads with
  | nil => exact Nat.zero_le _
  | cons segment reads => exact length_take_le _ _

theorem Scan.recv_more {scan' : Scan} (hs : server.Ready)
    (hlook : scan.look server.rxBuf = (.inr scan', server.rxBuf))
    (hroom : server.rxBuf.length < packetBufferCapacity)
    (hmore : server.rxBuf.length < server.pending.length) :
    ∃ server' : Server, scan.recv server = scan'.recv server' ∧ server'.Ready ∧
      server'.pending = server.pending ∧
      server'.reads.flatten.length < server.reads.flatten.length ∧
      ∃ more, more ≠ [] ∧ server'.rxBuf = server.rxBuf ++ more := by
  have hflat := readSome_flatten (packetBufferCapacity - server.rxBuf.length) server.reads
  have hle := readSome_length (packetBufferCapacity - server.rxBuf.length) server.reads
  have hnonempty : ∀ segment ∈ (readSome (packetBufferCapacity - server.rxBuf.length) server.reads).2,
    segment ≠ [] := readSome_nonempty hs.nonempty
  have hread : (readSome (packetBufferCapacity - server.rxBuf.length) server.reads).1 ≠ [] := by
    rcases hreads : server.reads with - | ⟨segment, reads⟩
    · simp [Server.pending, hreads] at hmore
    · have hne := hs.nonempty segment (by simp [hreads])
      rw [readSome]
      simpa [hne] using Nat.sub_ne_zero_of_lt hroom
  have hrecv : scan.recv server = scan'.recv
      ⟨server.rxBuf ++ (readSome (packetBufferCapacity - server.rxBuf.length) server.reads).1,
        (readSome (packetBufferCapacity - server.rxBuf.length) server.reads).2⟩ := by
    rw [Scan.recv, hlook]
    dsimp only
    rw [subtract, if_pos hroom.le]
    dsimp only [pure, Except.pure]
    rw [if_neg (Nat.sub_ne_zero_of_lt hroom), dif_neg hread]
  generalize readSome (packetBufferCapacity - server.rxBuf.length) server.reads = some at *
  have hlen := congrArg List.length hflat
  have hpos := length_pos_iff.2 hread
  rw [length_append] at hlen
  refine ⟨_, hrecv, ⟨hnonempty, ?_⟩, ?_, ?_, some.1, hread, rfl⟩
  · rw [length_append]
    omega
  · rw [Server.pending, append_assoc, hflat, Server.pending]
  · show some.2.flatten.length < _
    omega

/-- A frame of length `len` is at the front: a look at any part of it shows this length or
    that the frame is not complete. -/
def Framed (len : ℕ) (pending : List UInt8) : Prop :=
  ∀ buf more, buf ++ more = pending → buf ≠ [] →
    frameLength buf = some len ∨ (frameLength buf = none ∧ buf.length + 3 ≤ len)

theorem Scan.Fits.recv (h : scan.Fits server.rxBuf) (hs : server.Ready)
    (hack : scan.withAck = true ∨ server.pending.head? ≠ some '+'.toUInt8)
    (hframed : Framed len server.pending) (hne : server.pending ≠ [])
    (hlen : len ≤ server.pending.length ∨ packetBufferCapacity < len ∧ len ≤ server.pending.length + 2) :
    ∃ server' : Server, server'.Ready ∧
      if packetBufferCapacity < len then
        scan.recv server = (.failed (.packetTooLarge packetDataCapacity), server') ∧
          server'.pending = server.pending
      else scan.recv server =
          (.packet scan.withAck (Packet.tryFrom (server.pending.take len)).run, server') ∧
        server'.pending = server.pending.drop len := by
  -- by induction on what the transport has yet to deliver
  induction hn : server.reads.flatten.length using Nat.strong_induction_on generalizing scan server with
  | _ n ih =>
  have hlooked := h.look (hack.imp_right fun hplus => ?_)
  swap
  · refine .inl fun hhead => hplus ?_
    rw [Server.pending, head?_append, hhead, some_or]
  have hpart := hframed server.rxBuf server.reads.flatten rfl
  rcases hlook : scan.look server.rxBuf with ⟨received | scan', rxBuf⟩ <;> rw [hlook] at hlooked
  · obtain ⟨len', hlen', hreceived⟩ := hlooked
    have hbuf : server.rxBuf ≠ [] := by
      intro hnil
      rw [hnil] at hlen'
      cases hlen'
    obtain rfl : len' = len := by
      rcases hpart hbuf with heq | ⟨hnone, -⟩
      · exact Option.some.inj (hlen'.symm.trans heq)
      · rw [hnone] at hlen'
        cases hlen'
    refine ⟨{ server with rxBuf }, ⟨hs.nonempty, ?_⟩, ?_⟩ <;> split_ifs at hreceived ⊢ with hcap
    · rw [hreceived.2]
      exact hs.fits
    · rw [hreceived.2.1, length_drop]
      exact (Nat.sub_le _ _).trans hs.fits
    · obtain ⟨rfl, rfl⟩ := hreceived
      exact ⟨by rw [Scan.recv, hlook], rfl⟩
    · obtain ⟨hle, rfl, rfl⟩ := hreceived
      rw [Scan.recv, hlook, Server.pending, take_append_of_le_length hle,
        drop_append_of_le_length hle]
      exact ⟨rfl, rfl⟩
  · obtain ⟨rfl, hfits, hwith, hshort⟩ := hlooked
    have hpos := length_pos_iff.2 hne
    have hcap : 0 < packetBufferCapacity := by decide
    have hroom : server.rxBuf.length < packetBufferCapacity ∧
          server.rxBuf.length < server.pending.length ∨
        server.rxBuf.length = packetBufferCapacity ∧ packetBufferCapacity < len := by
      have hle := hs.fits
      by_cases hbuf : server.rxBuf = []
      · rw [hbuf]
        exact .inl ⟨hcap, hpos⟩
      · rcases hpart hbuf with heq | ⟨-, hpart⟩
        · obtain ⟨hlimit, hless⟩ := hshort len heq
          omega
        · omega
    rcases hroom with ⟨hroom, hmore⟩ | ⟨hfull, hlimit⟩
    · obtain ⟨server', heq, hs', hpending, hless, more, -, hbuf⟩ := recv_more hs hlook hroom hmore
      rw [← hpending] at hack hframed hne hlen ⊢
      rw [heq, ← hwith]
      rw [← hwith] at hack
      exact ih _ (hn ▸ hless) (hbuf ▸ hfits.append more) hs' hack hframed hne hlen rfl
    · refine ⟨server, hs, ?_⟩
      rw [if_pos hlimit, Scan.recv, hlook]
      dsimp only
      rw [hfull, subtract]
      dsimp only [pure]
      exact ⟨rfl, rfl⟩

/-! ## The frames of the items -/

theorem frameLength_append (h : frameLength buf = some len) (more : List UInt8) :
    frameLength (buf ++ more) = some len := by
  have hne : buf.head? ≠ none := by
    intro hnone
    rw [head?_eq_none_iff.1 hnone] at h
    cases h
  obtain ⟨first, hfirst⟩ := ne_none_iff_exists'.1 hne
  rw [frameLength, hfirst] at h
  rw [frameLength, head?_append, hfirst, some_or]
  split_ifs at h ⊢
  · obtain ⟨i, hi, rfl⟩ := map_eq_some_iff.1 h
    rw [checksumDelimiter_append, hi, some_or, map_some]
  · exact h

theorem framed_packet {body : List UInt8} (h : Sealed body) (rest : List UInt8) :
    Framed (body.length + 4) ('$'.toUInt8 :: body ++ '#'.toUInt8 :: rest) := by
  intro buf more heq hne
  have hwhole : frameLength ('$'.toUInt8 :: body ++ '#'.toUInt8 :: rest) = some (body.length + 4) := by
    rw [frameLength, cons_append, head?_cons, if_pos rfl, ← cons_append,
      checksumDelimiter_frame h, map_some]
  by_cases hlong : body.length + 2 ≤ buf.length
  · -- the buffer reaches past the delimiter
    obtain ⟨rest', rfl⟩ : ∃ rest', buf = '$'.toUInt8 :: body ++ '#'.toUInt8 :: rest' := by
      obtain ⟨n, hn⟩ := Nat.exists_eq_add_of_le hlong
      have htake := congrArg (List.take buf.length) heq
      rw [take_left, hn] at htake
      refine ⟨rest.take n, htake.trans ?_⟩
      rw [show body.length + 2 + n = ('$'.toUInt8 :: body).length + (n + 1) by
        rw [length_cons]; omega, take_length_add_append, take_succ_cons]
    left
    rw [frameLength, cons_append, head?_cons, if_pos rfl, ← cons_append,
      checksumDelimiter_frame h, map_some]
  · rcases hlen : frameLength buf with - | len
    · exact .inr ⟨rfl, by omega⟩
    · left
      rw [← heq, frameLength_append hlen more] at hwhole
      exact hwhole

theorem framed_byte {byte : UInt8} (h : byte ≠ '$'.toUInt8) (rest : List UInt8) :
    Framed 1 (byte :: rest) := by
  intro buf more heq hne
  obtain ⟨first, buf, rfl⟩ := exists_cons_of_ne_nil hne
  obtain ⟨rfl, -⟩ := List.cons.inj heq
  left
  rw [frameLength, head?_cons, if_neg fun hb => h (Option.some.inj hb)]
  rfl

theorem Item.framed (item : Item) (h : item.WellFormed) (rest : List UInt8) :
    Framed item.bytes.length (item.bytes ++ rest) := by
  cases item with
  | command body hi lo =>
    have hlen : (Item.command body hi lo).bytes.length = body.length + 4 := by simp [Item.bytes]
    rw [hlen, Item.bytes, append_assoc]
    exact framed_packet h.1 _
  | _ => exact framed_byte (by decide) rest

theorem Item.tryFrom_bytes (item : Item) (h : item.WellFormed) :
    (Packet.tryFrom item.bytes).run = item.packet := by
  cases item with
  | command body hi lo =>
    show (ExceptT.run do
      let body ← decodePacket ('$'.toUInt8 :: body ++ ['#'.toUInt8, hi, lo])
      let command ← ofCommand (Command.tryParse body)
      pure (Packet.command command)) = _
    rw [ExceptT.run_bind, decodePacket_frame h.1 h.2.2]
    rfl
  | _ => rfl

/-! ## Calls in a row -/

variable {item : Item}

theorem Server.Ready.recv_item (hs : server.Ready) (h : item.WellFormed) {ack : Bool}
    (hack : ack = true ∨ item ≠ .ack) (hpending : server.pending = item.bytes ++ tail) :
    ∃ server' : Server, server'.Ready ∧ server'.pending = tail ∧
      Scan.recv { withAck := ack } server = (.packet ack item.packet, server') := by
  have hle : item.bytes.length ≤ packetBufferCapacity := by
    cases item with
    | command body hi lo => simpa [Item.bytes, packetBufferCapacity] using h.2.1
    | _ => decide
  have hhead : ack = true ∨ server.pending.head? ≠ some '+'.toUInt8 := by
    refine hack.imp_right fun hne => ?_
    rw [hpending]
    cases item with
    | ack => exact absurd rfl hne
    | _ => exact fun hplus => absurd (Option.some.inj hplus) (by decide)
  have hne : server.pending ≠ [] := by
    rw [hpending]
    cases item <;> exact cons_ne_nil _ _
  obtain ⟨server', hs', hcall⟩ := (Scan.fits_start ack server.rxBuf).recv hs hhead
    (hpending ▸ item.framed h tail) hne (.inl (by simp [hpending]))
  rw [if_neg (Nat.not_lt_of_le hle), hpending, take_left, drop_left,
    item.tryFrom_bytes h] at hcall
  exact ⟨server', hs', hcall.2, hcall.1⟩

theorem Server.Ready.recv_oversized (hs : server.Ready) (h : Oversized server.pending) (ack : Bool) :
    ∃ server' : Server, server'.pending = server.pending ∧
      Scan.recv { withAck := ack } server = (.failed (.packetTooLarge packetDataCapacity), server') := by
  obtain ⟨body, rest, hpending, hsealed, hlong⟩ := h
  have hcap : packetBufferCapacity < body.length + 4 := Nat.add_lt_add_right hlong 4
  obtain ⟨server', -, hcall⟩ := (Scan.fits_start ack server.rxBuf).recv hs
    (.inr (by rw [hpending]; exact ne_of_beq_false rfl)) (hpending ▸ framed_packet hsealed rest)
    (hpending ▸ cons_ne_nil _ _) (.inr ⟨hcap, by simp [hpending]⟩)
  rw [if_pos hcap] at hcall
  exact ⟨server', hcall.2, hcall.1⟩

/-- An acknowledgement is a packet of its own if nothing else has arrived, and goes with the
    packet after it otherwise. -/
theorem Server.Ready.recv_ack (hs : server.Ready) (hpending : server.pending = '+'.toUInt8 :: tail) :
    ∃ server' : Server, server'.Ready ∧ server'.pending = tail ∧
      (recvPacket server = (.packet false Item.ack.packet, server') ∨
        tail ≠ [] ∧ recvPacket server = Scan.recv { withAck := true } server') := by
  have hcons : ∀ {server : Server}, server.Ready → server.pending = '+'.toUInt8 :: tail →
      server.rxBuf ≠ [] → ∃ server' : Server, server'.Ready ∧ server'.pending = tail ∧
        (recvPacket server = (.packet false Item.ack.packet, server') ∨
          tail ≠ [] ∧ recvPacket server = Scan.recv { withAck := true } server') := by
    intro server hs hpending hne
    obtain ⟨first, rest, hbuf⟩ := exists_cons_of_ne_nil hne
    rw [Server.pending, hbuf] at hpending
    obtain ⟨rfl, htail⟩ := List.cons.inj hpending
    have hfits := hs.fits
    rw [hbuf] at hfits
    refine ⟨{ server with rxBuf := rest }, ⟨hs.nonempty, Nat.le_of_succ_le hfits⟩, htail, ?_⟩
    by_cases hrest : rest = []
    · subst hrest
      left
      rw [recvPacket, Scan.recv, hbuf]
      rfl
    · refine .inr ⟨?_, Scan.recv_ack rfl hrest hbuf⟩
      rintro rfl
      exact hrest (append_eq_nil_iff.1 htail).1
  by_cases hbuf : server.rxBuf = []
  · -- the first read
    obtain ⟨server', heq, hs', hpending', -, more, hmore, hbuf'⟩ := Scan.recv_more hs
      (by rw [hbuf, Scan.look])
      (by rw [hbuf]; decide) (by rw [hbuf, hpending]; exact Nat.succ_pos _)
    rw [recvPacket, heq]
    refine hcons hs' (hpending'.trans hpending) ?_
    rw [hbuf', hbuf]
    exact hmore
  · exact hcons hs hpending hbuf

theorem Server.Ready.recv_nil (hs : server.Ready) (hpending : server.pending = []) :
    recvPacket server = (.failed .emptyBuf, server) := by
  obtain ⟨hbuf, hreads⟩ := append_eq_nil_iff.1 hpending
  have hnone : server.reads = [] := by
    rcases hr : server.reads with - | ⟨segment, reads⟩
    · rfl
    · rw [hr] at hreads
      exact absurd (append_eq_nil_iff.1 hreads).1 (hs.nonempty segment (by simp [hr]))
  rw [recvPacket, Scan.recv]
  obtain ⟨rxBuf, reads⟩ := server
  subst hbuf hnone
  rfl

/-- The result of the call after the last item. -/
def lastResult (tail : List UInt8) : Received :=
  .failed (if tail = [] then .emptyBuf else .packetTooLarge packetDataCapacity)

/-- The calls of a connection, up to the first that no item answers. -/
structure Receipt (server : Server) (items : List Item) (tail : List UInt8) (outcomes : List Received)
    (server' : Server) : Prop where
  calls : Receives server outcomes server'
  packets : ∀ outcome ∈ outcomes, ∃ ack parsed, outcome = .packet ack parsed
  events : outcomes.filterMap Received.event =
    items.filterMap fun item => commandOrInterrupt item.packet
  last : (recvPacket server').1 = lastResult tail
  consumed : (recvPacket server').2.pending = tail

theorem filterMap_acks {items : List Item} (h : ∀ item ∈ items, item = .ack) :
    items.filterMap (fun item => commandOrInterrupt item.packet) = [] := by
  refine filterMap_eq_nil_iff.2 fun item hitem => ?_
  rw [h item hitem]
  rfl

theorem Receipt.stop {items : List Item} {server' : Server} (hitems : ∀ item ∈ items, item = .ack)
    (hcall : recvPacket server = (lastResult tail, server')) (hpending : server'.pending = tail) :
    Receipt server items tail [] server where
  calls := .refl
  packets := nofun
  events := (filterMap_acks hitems).symm
  last := by rw [hcall]
  consumed := by rw [hcall, hpending]

theorem Receipt.call {items : List Item} (skipped : List Item) {outcomes : List Received}
    {server₁ server' : Server}
    {ack : Bool} (hskipped : ∀ item ∈ skipped, item = .ack)
    (hcall : recvPacket server = (.packet ack item.packet, server₁))
    (h : Receipt server₁ items tail outcomes server') :
    Receipt server (skipped ++ item :: items) tail (.packet ack item.packet :: outcomes) server' where
  calls := by
    have hcalls : Receives server ((recvPacket server).1 :: outcomes) server' :=
      .call (by rw [hcall]; exact h.calls)
    rwa [hcall] at hcalls
  packets := forall_mem_cons.2 ⟨⟨ack, _, rfl⟩, h.packets⟩
  events := by
    rw [filterMap_append, filterMap_acks hskipped, filterMap_cons, h.events]
    rfl
  last := h.last
  consumed := h.consumed

theorem Server.Ready.receipt {items : List Item} (hitems : ∀ item ∈ items, item.WellFormed)
    (htail : tail = [] ∨ Oversized tail) (hs : server.Ready)
    (hpending : server.pending = items.flatMap Item.bytes ++ tail) :
    ∃ outcomes server', Receipt server items tail outcomes server' := by
  have hover : tail ≠ [] → ∀ {server₁ : Server} (ack : Bool), server₁.Ready → server₁.pending = tail →
      ∃ server', server'.pending = tail ∧
        Scan.recv { withAck := ack } server₁ = (lastResult tail, server') := by
    intro hne server₁ ack hs₁ hp₁
    have hsize := htail.resolve_left hne
    rw [← hp₁] at hsize
    rw [lastResult, if_neg hne, ← hp₁]
    exact hs₁.recv_oversized hsize ack
  -- an acknowledgement may go with the item after it, so that a call may take two items
  induction hn : items.length using Nat.strong_induction_on generalizing items server with
  | _ n ih =>
  rcases items with - | ⟨item, items⟩
  · by_cases hnil : tail = []
    · have hcall := hs.recv_nil (hpending.trans hnil)
      exact ⟨[], server, .stop nofun (hcall.trans (by rw [lastResult, if_pos hnil])) hpending⟩
    · obtain ⟨server', hp, hcall⟩ := hover hnil false hs hpending
      exact ⟨[], server, .stop nofun hcall hp⟩
  · obtain ⟨hitem, hrest⟩ := forall_mem_cons.1 hitems
    rw [flatMap_cons, append_assoc] at hpending
    subst hn
    by_cases hack : item = .ack
    · subst hack
      obtain ⟨server₁, hs₁, hp₁, hcall | ⟨hne, hcall⟩⟩ := hs.recv_ack hpending
      · obtain ⟨outcomes, server', h⟩ := ih _ (Nat.lt_succ_self _) hrest hs₁ hp₁ rfl
        exact ⟨_, server', h.call [] nofun hcall⟩
      · rcases items with - | ⟨item, items⟩
        · obtain ⟨server', hp, hlast⟩ := hover hne true hs₁ hp₁
          exact ⟨[], server, .stop (by simp) (hcall.trans hlast) hp⟩
        · obtain ⟨hnext, hrest⟩ := forall_mem_cons.1 hrest
          rw [flatMap_cons, append_assoc] at hp₁
          obtain ⟨server₂, hs₂, hp₂, hpacket⟩ := hs₁.recv_item hnext (.inl rfl) hp₁
          obtain ⟨outcomes, server', h⟩ := ih _ (by simp) hrest hs₂ hp₂ rfl
          exact ⟨_, server', h.call [.ack] (by simp) (hcall.trans hpacket)⟩
    · obtain ⟨server₁, hs₁, hp₁, hcall⟩ := hs.recv_item hitem (.inr hack) hpending
      obtain ⟨outcomes, server', h⟩ := ih _ (Nat.lt_succ_self _) hrest hs₁ hp₁ rfl
      exact ⟨_, server', h.call [] nofun hcall⟩

/-- **Packets are received independently of segmentation.** -/
theorem recv_packet_of_items (items : List Item) (tail : List UInt8) (reads : List (List UInt8))
    (hitems : ∀ item ∈ items, item.WellFormed) (htail : tail = [] ∨ Oversized tail)
    (hreads : ∀ segment ∈ reads, segment ≠ [])
    (hstream : reads.flatten = items.flatMap Item.bytes ++ tail) :
    ∃ outcomes server', Receipt { reads } items tail outcomes server' :=
  Server.Ready.receipt hitems htail ⟨hreads, Nat.zero_le _⟩ hstream

/-- `+$g#67` and an interrupt, in three reads. -/
theorem recv_packet_of_split_items :
    ∃ outcomes server', Receipt
      { reads := [ascii "+$", ascii "g#6", ascii "7" ++ [0x03]] }
      [.ack, .command (ascii "g") '6'.toUInt8 '7'.toUInt8, .interrupt] [] outcomes server' := by
  refine recv_packet_of_items _ _ _ ?_ (.inl rfl) (by decide) (by decide)
  refine forall_mem_cons.2 ⟨trivial, forall_mem_cons.2 ⟨⟨?_, by decide, rfl⟩, by simp [Item.WellFormed]⟩⟩
  exact .cons (by decide) (by decide) .nil

end Reverie.Gdb
