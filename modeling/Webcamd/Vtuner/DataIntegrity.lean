import Webcamd.Vtuner.DataChannel

/-!
# The integrity of the data channel

`data_channel_integrity` says of every run of the data channel that the bytes of the
successful reads are a prefix of the bytes of the blocks, and that no access to the buffer
of either side is outside of it.

* `frame` — what the server sends for a block.  `Client.parseHeader_eq` says that the
  client finds the length of the block in the header, whatever the byte orders.
* `Client.Keeps` — what a step of the client does to the bytes it is responsible for, one
  lemma for each stretch of code between two operations on the socket.
* `Inv` — every byte of every block has its place (`Intact`): given away, in the window of
  the client's buffer, in its unfinished frame, in the socket, or still with the server.
  After the end of the stream inside a frame the rest is lost (`Broken`), and nothing more
  is given away.
-/

namespace Webcamd.Vtuner.DataChannel

open Webcamd.Library

/-! ### What the history says -/

/-- The blocks the device has delivered. -/
def blocks (history : List Event) : List (List Byte) :=
  history.filterMap fun event => match event with
    | .block payload => some payload
    | _ => none

/-- What the successful reads have returned, one after the other. -/
def delivered (history : List Event) : List Byte :=
  (history.filterMap fun event => match event with
    | .returned bytes => some bytes
    | _ => none).flatten

/-- The access is inside the buffer. -/
def Event.InBounds : Event → Prop
  | .serverAccess start length => start + length ≤ serverBufferSize
  | .clientAccess start length => start + length ≤ clientBufferSize
  | _ => True

@[simp] theorem blocks_append (past events : List Event) :
    blocks (past ++ events) = blocks past ++ blocks events := by
  simp [blocks]

@[simp] theorem delivered_append (past events : List Event) :
    delivered (past ++ events) = delivered past ++ delivered events := by
  simp [delivered]

/-! ### Frames -/

/-- The header in front of a block of this length. -/
def dataHdr (order : ByteOrder) (length : ℕ) : List Byte :=
  (fillBuffer order (fun _ => 0) (List.replicate length 0)).slice 0 8

/-- A block with its header. -/
def frame (order : ByteOrder) (block : List Byte) : List Byte :=
  dataHdr order block.length ++ block

/-- What the server sends for these blocks. -/
def frames (order : ByteOrder) (blocks : List (List Byte)) : List Byte :=
  (blocks.map (frame order)).flatten

@[simp] theorem length_dataHdr (order : ByteOrder) (length : ℕ) :
    (dataHdr order length).length = 8 := by
  simp [dataHdr]

@[simp] theorem frames_nil (order : ByteOrder) : frames order [] = [] := rfl

@[simp] theorem frames_cons (order : ByteOrder) (block : List Byte)
    (others : List (List Byte)) :
    frames order (block :: others) = frame order block ++ frames order others := rfl

theorem frames_concat (order : ByteOrder) (rest : List (List Byte)) (block : List Byte) :
    frames order (rest ++ [block]) = frames order rest ++ frame order block := by
  simp [frames]

/-- The first eight bytes of the server's buffer do not depend on what was there before. -/
theorem fillBuffer_header (order : ByteOrder) (buffer : Bytes) (payload : List Byte) :
    (fillBuffer order buffer payload).slice 0 8 = dataHdr order payload.length := by
  refine List.map_congr_left fun k hk => ?_
  rw [List.mem_range] at hk
  by_cases hsecond : 4 ≤ k
  · simp [fillBuffer, Bytes.store32, hsecond, hk]
  · have hfirst : k < 4 := by omega
    simp [fillBuffer, Bytes.store32, hsecond, hfirst]

/-- What is about to be sent is the frame of the block. -/
theorem fillBuffer_slice (order : ByteOrder) (buffer : Bytes) (payload : List Byte) :
    (fillBuffer order buffer payload).slice 0 (payload.length + 8) = frame order payload := by
  have hpayload : (fillBuffer order buffer payload).slice 8 payload.length = payload := by
    rw [fillBuffer, Bytes.slice_store32_of_disjoint _ _ _ (by omega),
      Bytes.slice_store32_of_disjoint _ _ _ (by omega), Bytes.slice_write]
  have hsplit := Bytes.slice_append (fillBuffer order buffer payload) 0 8 payload.length
  rw [Nat.zero_add, hpayload, fillBuffer_header] at hsplit
  rw [Nat.add_comm, ← hsplit, frame]

/-! ### The client reads a header -/

/-- The words of a header, as the server has written them. -/
theorem load32_of_header {order : ByteOrder} {buffer : Bytes} {length : ℕ}
    (h : buffer.slice 0 8 = dataHdr order length) :
    buffer.load32 order 0 = magic ∧ buffer.load32 order 4 = BitVec.ofNat 32 length := by
  have hbyte : ∀ k < 8, buffer (0 + k) =
      fillBuffer order (fun _ => 0) (List.replicate length 0) (0 + k) :=
    fun k hk => Bytes.apply_eq_of_slice_eq h hk
  constructor
  · rw [Bytes.load32_congr fun k hk => hbyte k (by omega), fillBuffer,
      Bytes.load32_store32_of_disjoint _ _ _ (by omega), Bytes.load32_store32]
  · have hsecond : ∀ k < 4, buffer (4 + k) =
        fillBuffer order (fun _ => 0) (List.replicate length 0) (4 + k) := by
      intro k hk
      have hk' := hbyte (4 + k) (by omega)
      rwa [Nat.zero_add] at hk'
    rw [Bytes.load32_congr hsecond, fillBuffer, Bytes.load32_store32, List.length_replicate]

/-- The magic number is not its own reversal, so the byte orders can be told apart. -/
theorem load32_other_ne_magic {order : ByteOrder} {buffer : Bytes}
    (h : buffer.load32 order 0 = magic) : buffer.load32 order.other 0 ≠ magic := by
  rw [Bytes.load32_other, h]
  decide

theorem load32_dataHdrByteswap (order : ByteOrder) (buffer : Bytes) :
    (vtunerDataHdrByteswap buffer).load32 order 0 = buffer.load32 order.other 0 ∧
      (vtunerDataHdrByteswap buffer).load32 order 4 = buffer.load32 order.other 4 := by
  constructor
  · rw [vtunerDataHdrByteswap, Bytes.load32_bswap_of_disjoint _ _ (by omega),
      Bytes.load32_bswap]
  · rw [vtunerDataHdrByteswap, Bytes.load32_bswap,
      Bytes.load32_bswap_of_disjoint _ _ (by omega)]

/-- The client finds the length of the block in the header, whatever the byte orders. -/
theorem Client.parseHeader_eq {serverOrder : ByteOrder} (clientOrder : ByteOrder)
    {client : Client} {size : ℕ} (h : client.buffer.slice 0 8 = dataHdr serverOrder size)
    (hmax : size ≤ bufferMax) (nonblock : Bool) (length : ℕ) :
    ∃ buffer, client.parseHeader clientOrder nonblock length =
      let next := { client with buffer := buffer }.receivePayload nonblock length size 0
      (next.1, .clientAccess 0 4 :: .clientAccess 4 4 :: next.2) := by
  obtain ⟨hmagic, hlength⟩ := load32_of_header h
  have htoInt : (BitVec.ofNat 32 size).toInt = size := by
    rw [bufferMax] at hmax
    have htoNat : (BitVec.ofNat 32 size).toNat = size := by
      rw [BitVec.toNat_ofNat, Nat.mod_eq_of_lt (by omega)]
    rw [BitVec.toInt_eq_toNat_of_lt (by omega), htoNat]
  -- with the right bytes in the buffer, no test of the header fails
  have hparse : ∀ buffer : Bytes, buffer.load32 clientOrder 0 = magic →
      buffer.load32 clientOrder 4 = BitVec.ofNat 32 size →
      (buffer = if client.buffer.load32 clientOrder 0 ≠ magic then
        vtunerDataHdrByteswap client.buffer else client.buffer) →
      client.parseHeader clientOrder nonblock length =
        let next := { client with buffer := buffer }.receivePayload nonblock length size 0
        (next.1, .clientAccess 0 4 :: .clientAccess 4 4 :: next.2) := by
    intro buffer hfirst hsecond hbuffer
    have hrange : ¬ ((size : ℤ) < 0 ∨ (bufferMax : ℤ) < size) := by omega
    rw [Client.parseHeader, ← hbuffer]
    simp only [hfirst, hsecond, htoInt, ne_eq, not_true_eq_false, if_false, hrange,
      Int.toNat_natCast]
  rcases ByteOrder.eq_or_eq_other clientOrder serverOrder with rfl | rfl
  · refine ⟨client.buffer, hparse _ hmagic hlength ?_⟩
    simp [hmagic]
  · refine ⟨vtunerDataHdrByteswap client.buffer, hparse _ ?_ ?_ ?_⟩
    · rw [(load32_dataHdrByteswap _ _).1, ByteOrder.other_other, hmagic]
    · rw [(load32_dataHdrByteswap _ _).2, ByteOrder.other_other, hlength]
    · rw [if_pos (load32_other_ne_magic hmagic)]

/-! ### Where the bytes are -/

/-- What the server has still to send. -/
def Server.Unsent (server : Server) (unsent : List Byte) : Prop :=
  match server.writer with
  | .idle => unsent = []
  | .writing length offset =>
      offset < length ∧ length ≤ serverBufferSize ∧
        unsent = server.buffer.slice offset (length - offset)
  | .closed => True

/-- The client has given away `past`, and with what is in the window of its buffer these
are the blocks `done`. -/
structure Client.Holds (client : Client) (past : List Byte) (done : List (List Byte)) :
    Prop where
  bytes : past ++ client.buffer.slice client.bufferOff client.bufferRem = done.flatten
  bound : client.bufferOff + client.bufferRem ≤ bufferMax

/-- The frames of the blocks `rest` are what the reader has of an unfinished frame, and
`tail`. -/
def Client.Awaits (order : ByteOrder) (client : Client) (rest : List (List Byte))
    (tail : List Byte) : Prop :=
  match client.reader with
  | .idle | .repeating _ _ | .filled _ _ | .delivering _ _ => tail = frames order rest
  | .header _ _ offset =>
      client.bufferRem = 0 ∧ offset < 8 ∧
        client.buffer.slice 0 offset ++ tail = frames order rest
  | .payload _ _ size offset =>
      client.bufferRem = 0 ∧ offset < size ∧ ∃ block others,
        rest = block :: others ∧ block.length = size ∧
          client.buffer.slice 0 offset ++ tail = block ++ frames order others

/-- Of all the blocks, some are with the client or beyond, the others are awaited. -/
def Client.Intact (order : ByteOrder) (client : Client) (all : List (List Byte))
    (past tail : List Byte) : Prop :=
  ∃ done rest, all = done ++ rest ∧ client.Holds past done ∧ client.Awaits order rest tail

/-- A step of the client leaves every byte in its place. -/
structure Client.Keeps (order : ByteOrder) (all : List (List Byte)) (past tail : List Byte)
    (next : Client × List Event) : Prop where
  intact : next.1.Intact order all (past ++ delivered next.2) tail
  blocks : blocks next.2 = []
  inBounds : ∀ event ∈ next.2, event.InBounds

section

variable {order clientOrder : ByteOrder} {client : Client} {all done rest : List (List Byte)}
variable {past tail : List Byte}

/-- An access before a step. -/
theorem Client.Keeps.access {next : Client × List Event}
    (h : Client.Keeps order all past tail next) {start length : ℕ}
    (hbound : start + length ≤ clientBufferSize) :
    Client.Keeps order all past tail (next.1, .clientAccess start length :: next.2) := by
  refine ⟨h.intact, h.blocks, fun event hmem => ?_⟩
  rcases List.mem_cons.mp hmem with rfl | hmem
  · exact hbound
  · exact h.inBounds event hmem

/-- With nothing in the window, the buffer is free. -/
theorem Client.Holds.of_empty (h : client.Holds past done) (hrem : client.bufferRem = 0)
    (buffer : Bytes) : { client with buffer := buffer }.Holds past done := by
  refine ⟨?_, h.bound⟩
  have hbytes := h.bytes
  simpa [hrem] using hbytes

theorem Client.Holds.refill (h : client.Holds past done) (hrem : client.bufferRem = 0)
    {block : List Byte} (hmax : block.length ≤ bufferMax)
    (hblock : client.buffer.slice 0 block.length = block) (nonblock : Bool) (length : ℕ) :
    (client.refill nonblock length block.length).Holds past (done ++ [block]) := by
  have hbytes := h.bytes
  rw [hrem, Bytes.slice_zero, List.append_nil] at hbytes
  refine ⟨?_, ?_⟩
  · simp only [Client.refill]
    rw [hblock, hbytes]
    simp
  · simpa [Client.refill] using hmax

/-- The client passes on the front of its window. -/
theorem Client.deliver_keeps (hall : all = done ++ rest) (hholds : client.Holds past done)
    (htail : tail = frames order rest) (nonblock : Bool) (length : ℕ) (fault : Bool) :
    Client.Keeps order all past tail (client.deliver nonblock length fault) := by
  have hawaits : ∀ {next : Client}, (next.reader = .idle ∨ ∃ nonblock length,
      next.reader = .repeating nonblock length) → next.Awaits order rest tail := by
    rintro next (hreader | ⟨_, _, hreader⟩) <;> simpa [Client.Awaits, hreader] using htail
  have hbytes := hholds.bytes
  have hbound := hholds.bound
  have hsize : bufferMax ≤ clientBufferSize := by decide
  simp only [Client.deliver]
  set delta := if client.bufferRem < length then client.bufferRem else length with hdelta
  have hle : delta ≤ client.bufferRem := by rw [hdelta]; split <;> omega
  have haccess : client.bufferOff + delta ≤ clientBufferSize := by omega
  split
  · split
    · exact ⟨⟨done, rest, hall, by simpa [delivered] using ⟨hbytes, hbound⟩,
        hawaits (.inl rfl)⟩, rfl, by simp [Event.InBounds]⟩
    · exact ⟨⟨done, rest, hall, by simpa [delivered] using ⟨hbytes, hbound⟩,
        hawaits (.inr ⟨_, _, rfl⟩)⟩, rfl, by simp⟩
  · split
    · exact ⟨⟨done, rest, hall, by simpa [delivered] using ⟨hbytes, hbound⟩,
        hawaits (.inl rfl)⟩, rfl, by simpa [Event.InBounds] using haccess⟩
    · refine ⟨⟨done, rest, hall, ⟨?_, ?_⟩, hawaits (.inl rfl)⟩, rfl,
        by simpa [Event.InBounds] using haccess⟩
      · have hsplit := Bytes.slice_append client.buffer client.bufferOff delta
          (client.bufferRem - delta)
        rw [Nat.add_sub_cancel' hle] at hsplit
        simp only [delivered, List.filterMap_cons, List.filterMap_nil, List.flatten_cons,
          List.flatten_nil, List.append_nil, List.append_assoc]
        rw [hsplit, hbytes]
      · simp only
        omega

/-- The client has read some of a payload, or all of it. -/
theorem Client.receivePayload_keeps {block : List Byte} {others : List (List Byte)}
    (hall : all = done ++ block :: others) (hholds : client.Holds past done)
    (hrem : client.bufferRem = 0) (hmax : block.length ≤ bufferMax) {offset : ℕ}
    (hoffset : offset ≤ block.length)
    (hbytes : client.buffer.slice 0 offset ++ tail = block ++ frames order others)
    (nonblock : Bool) (length : ℕ) :
    Client.Keeps order all past tail
      (client.receivePayload nonblock length block.length offset) := by
  rw [Client.receivePayload]
  split
  · rename_i hlt
    refine ⟨⟨done, block :: others, hall, ?_, ?_⟩, rfl, by simp⟩
    · simpa [delivered] using ⟨hholds.bytes, hholds.bound⟩
    · exact ⟨hrem, hlt, block, others, rfl, rfl, hbytes⟩
  · obtain rfl : offset = block.length := by omega
    obtain ⟨hblock, htail⟩ := List.append_inj hbytes (by simp)
    refine ⟨⟨done ++ [block], others, by simp [hall], ?_, htail⟩, rfl, by simp⟩
    rw [show DataChannel.delivered [] = [] from rfl, List.append_nil]
    exact hholds.refill hrem hmax hblock nonblock length

/-- The client has read some of a header, or all of it. -/
theorem Client.receiveHeader_keeps (hall : all = done ++ rest)
    (hmax : ∀ block ∈ all, block.length ≤ bufferMax) (hholds : client.Holds past done)
    (hrem : client.bufferRem = 0) {offset : ℕ} (hoffset : offset ≤ 8)
    (hbytes : client.buffer.slice 0 offset ++ tail = frames order rest)
    (nonblock : Bool) (length : ℕ) :
    Client.Keeps order all past tail
      (client.receiveHeader clientOrder nonblock length offset) := by
  rw [Client.receiveHeader]
  split
  · rename_i hlt
    refine ⟨⟨done, rest, hall, ?_, ?_⟩, rfl, by simp⟩
    · simpa [delivered] using ⟨hholds.bytes, hholds.bound⟩
    · exact ⟨hrem, hlt, hbytes⟩
  · obtain rfl : offset = 8 := by omega
    cases rest with
    | nil => simpa using congrArg List.length hbytes
    | cons block others =>
        rw [frames_cons, frame, List.append_assoc] at hbytes
        obtain ⟨hheader, htail⟩ := List.append_inj hbytes (by simp)
        have hblock : block.length ≤ bufferMax := hmax block (by simp [hall])
        obtain ⟨buffer, hparse⟩ :=
          Client.parseHeader_eq clientOrder hheader hblock nonblock length
        rw [hparse]
        have hpayload : Client.Keeps order all past tail
            ({ client with buffer := buffer }.receivePayload nonblock length
              block.length 0) :=
          Client.receivePayload_keeps hall (hholds.of_empty hrem buffer) hrem hblock
            (Nat.zero_le _) (by simpa using htail) nonblock length
        exact (hpayload.access (by decide)).access (by decide)

/-- From the label `repeat` on. -/
theorem Client.proceed_keeps (hmax : ∀ block ∈ all, block.length ≤ bufferMax)
    (h : client.Intact order all past tail) {nonblock : Bool} {length : ℕ}
    (hreader : client.reader = .repeating nonblock length) (signal : Bool) :
    Client.Keeps order all past tail
      (client.proceed clientOrder nonblock length signal) := by
  obtain ⟨done, rest, hall, hholds, hawaits⟩ := h
  have htail : tail = frames order rest := by simpa [Client.Awaits, hreader] using hawaits
  rw [Client.proceed]
  split
  · refine ⟨⟨done, rest, hall, ?_, htail⟩, rfl, by simp [Event.InBounds]⟩
    simpa [delivered] using ⟨hholds.bytes, hholds.bound⟩
  · split
    · rename_i hempty
      exact Client.receiveHeader_keeps hall hmax hholds hempty.2 (Nat.zero_le _)
        (by simpa using htail) nonblock length
    · refine ⟨⟨done, rest, hall, ?_, htail⟩, rfl, by simp⟩
      simpa [delivered] using ⟨hholds.bytes, hholds.bound⟩

/-- While the reader waits for bytes its window is empty, and there is room for them. -/
theorem Client.Intact.wants (hmax : ∀ block ∈ all, block.length ≤ bufferMax)
    (h : client.Intact order all past tail) {start length : ℕ}
    (hwants : client.reader.wants = some (start, length)) :
    client.bufferRem = 0 ∧ start + length ≤ clientBufferSize := by
  obtain ⟨done, rest, hall, -, hawaits⟩ := h
  rw [Client.Awaits] at hawaits
  cases hreader : client.reader with
  | idle | repeating _ _ | filled _ _ | delivering _ _ =>
      rw [hreader] at hwants
      cases hwants
  | header nonblock asked offset =>
      rw [hreader] at hwants hawaits
      obtain ⟨rfl, rfl⟩ := Prod.mk.inj (Option.some.inj hwants)
      obtain ⟨hrem, hlt, -⟩ := hawaits
      rw [clientBufferSize, bufferMax]
      exact ⟨hrem, by omega⟩
  | payload nonblock asked size offset =>
      rw [hreader] at hwants hawaits
      obtain ⟨rfl, rfl⟩ := Prod.mk.inj (Option.some.inj hwants)
      obtain ⟨hrem, hlt, block, others, rfl, rfl, -⟩ := hawaits
      have hblock : block.length ≤ bufferMax := hmax block (by simp [hall])
      rw [clientBufferSize]
      exact ⟨hrem, by omega⟩

/-- A `read` call of the client. -/
theorem Client.receive_keeps (clientOrder : ByteOrder)
    (hmax : ∀ block ∈ all, block.length ≤ bufferMax) {received : List Byte}
    (h : client.Intact order all past (received ++ tail)) {start length : ℕ}
    (hwants : client.reader.wants = some (start, length))
    (hreceived : received.length ≤ length) :
    Client.Keeps order all past tail (client.receive clientOrder received) := by
  obtain ⟨done, rest, hall, hholds, hawaits⟩ := h
  obtain ⟨buffer, bufferOff, bufferRem, rdMessage, closing, reader, poller⟩ := client
  cases reader with
  | idle | repeating _ _ | filled _ _ | delivering _ _ => cases hwants
  | header nonblock asked offset =>
      obtain ⟨rfl, rfl⟩ := Prod.mk.inj (Option.some.inj hwants)
      obtain ⟨hrem, hlt, hbytes⟩ := hawaits
      refine Client.receiveHeader_keeps hall hmax
        (hholds.of_empty hrem (buffer.write offset received)) hrem ?_ ?_ nonblock asked
      · omega
      · rw [Bytes.slice_write_append, List.append_assoc]
        exact hbytes
  | payload nonblock asked size offset =>
      obtain ⟨rfl, rfl⟩ := Prod.mk.inj (Option.some.inj hwants)
      obtain ⟨hrem, hlt, block, others, rfl, rfl, hbytes⟩ := hawaits
      have hblock : block.length ≤ bufferMax := hmax block (by simp [hall])
      refine Client.receivePayload_keeps hall
        (hholds.of_empty hrem (buffer.write offset received)) hrem hblock ?_ ?_ nonblock asked
      · omega
      · rw [Bytes.slice_write_append, List.append_assoc]
        exact hbytes

/-- Up to the next operation on the socket nothing is passed on, and the reader is the only
thing that changes. -/
theorem Client.proceed_eq (clientOrder : ByteOrder) (client : Client) (nonblock : Bool)
    (length : ℕ) (signal : Bool) :
    ∃ reader events,
      client.proceed clientOrder nonblock length signal =
        ({ client with reader := reader }, events) ∧
      (reader.wants = none ∨ reader.wants = some (0, 8)) ∧
      blocks events = [] ∧ delivered events = [] ∧ ∀ event ∈ events, event.InBounds := by
  rw [Client.proceed]
  split
  · exact ⟨_, _, rfl, .inl rfl, rfl, rfl, by simp [Event.InBounds]⟩
  · split
    · exact ⟨_, _, rfl, .inr rfl, rfl, rfl, by simp⟩
    · exact ⟨_, _, rfl, .inl rfl, rfl, rfl, by simp⟩

/-- With nothing in the window, nothing is passed on at all. -/
theorem Client.deliver_of_empty (hrem : client.bufferRem = 0) (nonblock : Bool) (length : ℕ)
    (fault : Bool) :
    ∃ reader events,
      client.deliver nonblock length fault = ({ client with reader := reader }, events) ∧
      reader.wants = none ∧ blocks events = [] ∧ delivered events = [] ∧
      ∀ event ∈ events, event.InBounds := by
  have hdelta : (if client.bufferRem < length then client.bufferRem else length) = 0 := by
    rw [hrem]
    split <;> omega
  simp only [Client.deliver, hdelta, if_true]
  split
  · exact ⟨_, _, rfl, rfl, rfl, rfl, by simp [Event.InBounds]⟩
  · exact ⟨_, _, rfl, rfl, rfl, rfl, by simp⟩

end

/-! ### The invariant -/

/-- Every byte of every block has its place. -/
def Intact (order : ByteOrder) (state : State) (history : List Event) : Prop :=
  ∃ unsent, state.server.Unsent unsent ∧
    state.client.Intact order (blocks history) (delivered history) (state.stream ++ unsent)

/-- The client has met the end of the stream. -/
structure Broken (state : State) (history : List Event) : Prop where
  stream : state.stream = []
  closed : state.server.writer = .closed
  empty : state.client.bufferRem = 0
  reader : state.client.reader.wants = none ∨ state.client.reader.wants = some (0, 8)
  delivered : delivered history <+: (blocks history).flatten

/-- What holds in every run. -/
structure Inv (order : ByteOrder) (state : State) (history : List Event) : Prop where
  place : Intact order state history ∨ Broken state history
  sizes : ∀ block ∈ blocks history, block.length ≤ bufferMax
  inBounds : ∀ event ∈ history, event.InBounds

section

variable {order clientOrder : ByteOrder} {state next : State} {history events : List Event}

theorem inv_start (order : ByteOrder) : Inv order start [] := by
  refine ⟨.inl ⟨[], rfl, [], [], rfl, ⟨rfl, ?_⟩, rfl⟩, by simp [blocks], by simp⟩
  simp [start]

theorem Intact.delivered (h : Intact order state history) :
    delivered history <+: (blocks history).flatten := by
  obtain ⟨unsent, -, done, rest, hall, hholds, -⟩ := h
  rw [hall, List.flatten_append, ← hholds.bytes, List.append_assoc]
  exact List.prefix_append _ _

theorem Inv.delivered (h : Inv order state history) :
    delivered history <+: (blocks history).flatten :=
  h.place.elim Intact.delivered Broken.delivered

/-- Events of one step join the history. -/
theorem Inv.extend (h : Inv order state history)
    (hplace : Intact order next (history ++ events) ∨ Broken next (history ++ events))
    (hsizes : ∀ block ∈ blocks events, block.length ≤ bufferMax)
    (hbounds : ∀ event ∈ events, event.InBounds) : Inv order next (history ++ events) := by
  refine ⟨hplace, fun block hmem => ?_, fun event hmem => ?_⟩
  · rw [blocks_append, List.mem_append] at hmem
    exact hmem.elim (h.sizes block) (hsizes block)
  · rw [List.mem_append] at hmem
    exact hmem.elim (h.inBounds event) (hbounds event)

/-- A step of the client that leaves every byte in its place. -/
theorem Inv.client (h : Inv order state history) {unsent : List Byte}
    (hunsent : state.server.Unsent unsent) {stream : List Byte} {after : Client × List Event}
    (hkeeps : Client.Keeps order (blocks history) (DataChannel.delivered history)
      (stream ++ unsent) after) :
    Inv order { state with client := after.1, stream := stream } (history ++ after.2) := by
  refine h.extend (.inl ⟨unsent, hunsent, ?_⟩) (by simp [hkeeps.blocks]) hkeeps.inBounds
  rw [blocks_append, hkeeps.blocks, List.append_nil, delivered_append]
  exact hkeeps.intact

/-- A step that touches neither the bytes nor the reader. -/
theorem Inv.quiet (h : Inv order state history) (hserver : next.server = state.server)
    (hstream : next.stream = state.stream) (hbuffer : next.client.buffer = state.client.buffer)
    (hoff : next.client.bufferOff = state.client.bufferOff)
    (hrem : next.client.bufferRem = state.client.bufferRem)
    (hreader : next.client.reader = state.client.reader) : Inv order next history := by
  refine ⟨?_, h.sizes, h.inBounds⟩
  rcases h.place with ⟨unsent, hunsent, done, rest, hall, ⟨hbytes, hbound⟩, hawaits⟩ | hbroken
  · refine .inl ⟨unsent, hserver ▸ hunsent, done, rest, hall, ⟨?_, ?_⟩, ?_⟩
    · rw [hbuffer, hoff, hrem]
      exact hbytes
    · rw [hoff, hrem]
      exact hbound
    · rw [Client.Awaits, hreader, hbuffer, hrem, hstream]
      exact hawaits
  · exact .inr ⟨hstream.trans hbroken.stream, hserver ▸ hbroken.closed,
      hrem.trans hbroken.empty, hreader ▸ hbroken.reader, hbroken.delivered⟩

/-! ### The steps -/

theorem Client.Awaits.concat {client : Client} {rest : List (List Byte)} {tail : List Byte}
    (h : client.Awaits order rest tail) (block : List Byte) :
    client.Awaits order (rest ++ [block]) (tail ++ frame order block) := by
  rw [Client.Awaits] at h ⊢
  cases hreader : client.reader with
  | idle | repeating _ _ | filled _ _ | delivering _ _ =>
      simp only [hreader] at h
      rw [h, frames_concat]
  | header nonblock length offset =>
      simp only [hreader] at h
      obtain ⟨hrem, hlt, hbytes⟩ := h
      exact ⟨hrem, hlt, by rw [← List.append_assoc, hbytes, frames_concat]⟩
  | payload nonblock length size offset =>
      simp only [hreader] at h
      obtain ⟨hrem, hlt, first, others, rfl, hlength, hbytes⟩ := h
      exact ⟨hrem, hlt, first, others ++ [block], rfl, hlength,
        by rw [← List.append_assoc, hbytes, frames_concat, List.append_assoc]⟩

/-- The device delivers a block. -/
theorem inv_deviceRead (h : Inv order state history) {payload : List Byte}
    (hidle : state.server.writer = .idle) (hmax : payload.length ≤ bufferMax) :
    Inv order { state with server := (state.server.deviceRead order payload).1 }
      (history ++ (state.server.deviceRead order payload).2) := by
  refine h.extend ?_ ?_ ?_
  · rcases h.place with ⟨unsent, hunsent, done, rest, hall, hholds, hawaits⟩ | hbroken
    · simp only [Server.Unsent, hidle] at hunsent
      subst hunsent
      rw [List.append_nil] at hawaits
      refine .inl ⟨frame order payload, ⟨by omega, ?_, ?_⟩, done, rest ++ [payload], ?_, ?_,
        hawaits.concat payload⟩
      · rw [serverBufferSize]
        rw [bufferMax] at hmax ⊢
        omega
      · exact (fillBuffer_slice order _ payload).symm
      · rw [blocks_append, hall, List.append_assoc]
        rfl
      · simpa [delivered, Server.deviceRead] using hholds
    · cases hidle.symm.trans hbroken.closed
  · simpa [blocks, Server.deviceRead] using hmax
  · simp [Server.deviceRead, Event.InBounds, serverBufferSize, bufferMax]

/-- The server sends some bytes. -/
theorem inv_serverWrite (h : Inv order state history) {length offset count : ℕ}
    (hwriting : state.server.writer = .writing length offset)
    (hcount : count ≤ length - offset) :
    Inv order
      { state with
        server := state.server.advance length (offset + count)
        stream := state.stream ++ state.server.buffer.slice offset count }
      (history ++ [.serverAccess offset (length - offset)]) := by
  rcases h.place with ⟨unsent, hunsent, hclient⟩ | hbroken
  · simp only [Server.Unsent, hwriting] at hunsent
    obtain ⟨hlt, hlength, rfl⟩ := hunsent
    -- the bytes on their way and the bytes to be sent are the same together
    have hsplit := Bytes.slice_append state.server.buffer offset count
      (length - (offset + count))
    have hsum : count + (length - (offset + count)) = length - offset := by omega
    rw [hsum] at hsplit
    refine h.extend (.inl ⟨state.server.buffer.slice (offset + count)
      (length - (offset + count)), ?_, ?_⟩) (by simp [blocks]) ?_
    · rw [Server.advance]
      split
      · rename_i hmore
        exact ⟨hmore, hlength, rfl⟩
      · rename_i hdone
        have hzero : length - (offset + count) = 0 := by omega
        rw [hzero]
        rfl
    · rw [List.append_assoc, hsplit]
      simpa [blocks, delivered] using hclient
    · simp only [List.mem_singleton, forall_eq, Event.InBounds]
      omega
  · cases hwriting.symm.trans hbroken.closed

theorem inv_serverClose (h : Inv order state history) :
    Inv order { state with server.writer := .closed } history := by
  refine ⟨?_, h.sizes, h.inBounds⟩
  rcases h.place with ⟨unsent, -, hclient⟩ | hbroken
  · exact .inl ⟨unsent, trivial, hclient⟩
  · exact .inr ⟨hbroken.stream, rfl, hbroken.empty, hbroken.reader, hbroken.delivered⟩

theorem inv_call (h : Inv order state history) (hidle : state.client.reader = .idle)
    (nonblock : Bool) (length : ℕ) :
    Inv order { state with client.reader := .repeating nonblock length } history := by
  refine ⟨?_, h.sizes, h.inBounds⟩
  rcases h.place with ⟨unsent, hunsent, done, rest, hall, ⟨hbytes, hbound⟩, hawaits⟩ | hbroken
  · refine .inl ⟨unsent, hunsent, done, rest, hall, ⟨hbytes, hbound⟩, ?_⟩
    simpa [Client.Awaits, hidle] using hawaits
  · exact .inr ⟨hbroken.stream, hbroken.closed, hbroken.empty, .inl rfl, hbroken.delivered⟩

theorem inv_proceed (h : Inv order state history) {nonblock : Bool} {length : ℕ}
    (hreader : state.client.reader = .repeating nonblock length) (signal : Bool) :
    Inv order
      { state with client := (state.client.proceed clientOrder nonblock length signal).1 }
      (history ++ (state.client.proceed clientOrder nonblock length signal).2) := by
  rcases h.place with ⟨unsent, hunsent, hclient⟩ | hbroken
  · exact h.client hunsent (Client.proceed_keeps h.sizes hclient hreader signal)
  · obtain ⟨reader, events, heq, hwants, hblocks, hdelivered, hbounds⟩ :=
      Client.proceed_eq clientOrder state.client nonblock length signal
    rw [heq]
    refine h.extend (.inr ⟨hbroken.stream, hbroken.closed, hbroken.empty, hwants, ?_⟩)
      (by simp [hblocks]) hbounds
    rw [blocks_append, hblocks, delivered_append, hdelivered, List.append_nil, List.append_nil]
    exact hbroken.delivered

/-- The reader has the payload in its window, and takes the flag down. -/
theorem inv_clearFlag (h : Inv order state history) {nonblock : Bool} {length : ℕ}
    (hreader : state.client.reader = .filled nonblock length) :
    Inv order { state with client := state.client.clearFlag nonblock length } history := by
  refine ⟨?_, h.sizes, h.inBounds⟩
  rcases h.place with ⟨unsent, hunsent, done, rest, hall, hholds, hawaits⟩ | hbroken
  · have htail : state.stream ++ unsent = frames order rest := by
      simpa [Client.Awaits, hreader] using hawaits
    exact .inl ⟨unsent, hunsent, done, rest, hall, ⟨hholds.bytes, hholds.bound⟩, htail⟩
  · exact .inr ⟨hbroken.stream, hbroken.closed, hbroken.empty, .inl rfl, hbroken.delivered⟩

/-- The reader passes on what it has been asked for. -/
theorem inv_deliver (h : Inv order state history) {nonblock : Bool} {length : ℕ}
    (hreader : state.client.reader = .delivering nonblock length) (fault : Bool) :
    Inv order { state with client := (state.client.deliver nonblock length fault).1 }
      (history ++ (state.client.deliver nonblock length fault).2) := by
  rcases h.place with ⟨unsent, hunsent, done, rest, hall, hholds, hawaits⟩ | hbroken
  · have htail : state.stream ++ unsent = frames order rest := by
      simpa [Client.Awaits, hreader] using hawaits
    exact h.client hunsent (Client.deliver_keeps hall hholds htail nonblock length fault)
  · obtain ⟨reader, events, heq, hwants, hblocks, hdelivered, hbounds⟩ :=
      Client.deliver_of_empty hbroken.empty nonblock length fault
    rw [heq]
    refine h.extend (.inr ⟨hbroken.stream, hbroken.closed, hbroken.empty, .inl hwants, ?_⟩)
      (by simp [hblocks]) hbounds
    rw [blocks_append, hblocks, delivered_append, hdelivered, List.append_nil, List.append_nil]
    exact hbroken.delivered

theorem inv_receive (h : Inv order state history) {start length count : ℕ}
    (hwants : state.client.reader.wants = some (start, length)) (hpos : 1 ≤ count)
    (hcount : count ≤ length) (hstream : count ≤ state.stream.length) :
    Inv order
      { state with
        client := (state.client.receive clientOrder (state.stream.take count)).1
        stream := state.stream.drop count }
      (history ++ .clientAccess start length ::
        (state.client.receive clientOrder (state.stream.take count)).2) := by
  rcases h.place with ⟨unsent, hunsent, hclient⟩ | hbroken
  · rw [← List.take_append_drop count state.stream, List.append_assoc] at hclient
    have hbound := (hclient.wants h.sizes hwants).2
    have hkeeps := Client.receive_keeps clientOrder h.sizes hclient hwants
      (by rw [List.length_take]; omega)
    exact h.client hunsent (hkeeps.access hbound)
  · rw [hbroken.stream] at hstream
    simp only [List.length_nil] at hstream
    omega

theorem inv_endOfStream (h : Inv order state history) {start length : ℕ}
    (hwants : state.client.reader.wants = some (start, length)) (hstream : state.stream = [])
    (hclosed : state.server.writer = .closed) :
    Inv order { state with client := state.client.giveUp.1 }
      (history ++ .clientAccess start length :: state.client.giveUp.2) := by
  obtain ⟨hrem, hbound⟩ : state.client.bufferRem = 0 ∧ start + length ≤ clientBufferSize := by
    rcases h.place with ⟨unsent, -, hclient⟩ | hbroken
    · exact hclient.wants h.sizes hwants
    · rcases hbroken.reader with hnone | hsome
      · cases hnone.symm.trans hwants
      · obtain ⟨rfl, rfl⟩ := Prod.mk.inj (Option.some.inj (hwants.symm.trans hsome))
        exact ⟨hbroken.empty, by decide⟩
  refine h.extend (.inr ⟨hstream, hclosed, hrem, .inl rfl, ?_⟩) ?_ ?_
  · rw [blocks_append, delivered_append]
    simpa [blocks, delivered, Client.giveUp] using h.delivered
  · simp [blocks, Client.giveUp]
  · simpa [Client.giveUp, Event.InBounds] using hbound

/-- One step of any thread. -/
theorem inv_step (h : Inv order state history) {action : Action}
    (hstep : (machine order clientOrder).step state action = some (next, events)) :
    Inv order next (history ++ events) := by
  cases move_of_step hstep with
  | deviceRead hidle hmax => exact inv_deviceRead h hidle hmax
  | serverWrite hwriting hcount => exact inv_serverWrite h hwriting hcount
  | serverClose =>
      rw [List.append_nil]
      exact inv_serverClose h
  | call hidle _ =>
      rw [List.append_nil]
      exact inv_call h hidle _ _
  | proceed hreader => exact inv_proceed h hreader _
  | receive hwants hpos hcount hstream => exact inv_receive h hwants hpos hcount hstream
  | endOfStream hwants hstream hclosed => exact inv_endOfStream h hwants hstream hclosed
  | clearFlag hreader =>
      rw [List.append_nil]
      exact inv_clearFlag h hreader
  | deliver hreader => exact inv_deliver h hreader _
  | pollSee =>
      rw [List.append_nil]
      split
      · exact h.quiet rfl rfl rfl rfl rfl rfl
      · exact h
  | pollSet | pollExit _ | close _ =>
      rw [List.append_nil]
      exact h.quiet rfl rfl rfl rfl rfl rfl

end

theorem inv_of_run {serverOrder clientOrder : ByteOrder} {schedule : List Action}
    {last : State} {history : List Event}
    (hrun : (machine serverOrder clientOrder).run start schedule = some (last, history)) :
    Inv serverOrder last history := by
  have hinv := (machine serverOrder clientOrder).run_invariant
    (fun hprevious hnext => inv_step hprevious hnext) (inv_start serverOrder) hrun
  rwa [List.nil_append] at hinv

/-- **The data channel loses, repeats and reorders nothing.**  For machines of any byte
orders, and in every run of the threads: the bytes that the successful reads have returned
are a prefix of the bytes of the blocks that the device has delivered, and every access to
the buffers is inside them. -/
theorem data_channel_integrity (serverOrder clientOrder : ByteOrder)
    {schedule : List Action} {last : State} {history : List Event}
    (hrun : (machine serverOrder clientOrder).run start schedule = some (last, history)) :
    delivered history <+: (blocks history).flatten ∧ ∀ event ∈ history, event.InBounds := by
  have hinv := inv_of_run hrun
  exact ⟨hinv.delivered, hinv.inBounds⟩

/-- A block of three bytes between machines of different byte orders, fetched with two
reads, the second of which finds the last byte in the buffer. -/
def shortReads : List Action :=
  [.deviceRead [1, 2, 3], .serverWrite 5, .call false 2, .proceed false, .receive 4,
    .serverWrite 6, .receive 4, .pollSee, .receive 1, .receive 2, .clearFlag, .pollSet,
    .deliver false, .call true 10, .proceed false, .deliver false]

theorem data_channel_integrity_shortReads :
    ∃ last history, (machine .big .little).run start shortReads = some (last, history) ∧
      delivered history = [1, 2, 3] ∧ blocks history = [[1, 2, 3]] ∧
      delivered history <+: (blocks history).flatten ∧
      ∀ event ∈ history, event.InBounds := by
  have hsome : ((machine .big .little).run start shortReads).isSome = true := by decide
  obtain ⟨⟨last, history⟩, hrun⟩ := Option.isSome_iff_exists.mp hsome
  have hhistory : ((machine .big .little).run start shortReads).map
      (fun result => (delivered result.2, blocks result.2)) =
        some ([1, 2, 3], [[1, 2, 3]]) := by
    decide
  rw [hrun] at hhistory
  obtain ⟨hdelivered, hblocks⟩ := Prod.mk.inj (Option.some.inj hhistory)
  exact ⟨last, history, hrun, hdelivered, hblocks,
    data_channel_integrity .big .little hrun⟩

/-- **Nothing is held back either**: when the server has sent all it has, the socket is
empty and the client neither waits nor holds anything, all has been delivered. -/
theorem delivered_eq_of_drained {serverOrder clientOrder : ByteOrder}
    {schedule : List Action} {last : State} {history : List Event}
    (hrun : (machine serverOrder clientOrder).run start schedule = some (last, history))
    (hwriter : last.server.writer = .idle) (hstream : last.stream = [])
    (hreader : last.client.reader = .idle) (hrem : last.client.bufferRem = 0) :
    delivered history = (blocks history).flatten := by
  rcases (inv_of_run hrun).place with ⟨unsent, hunsent, done, rest, hall, hholds, hawaits⟩ |
    hbroken
  · have hempty : unsent = [] := by simpa [Server.Unsent, hwriter] using hunsent
    have hframes : [] = frames serverOrder rest := by
      simpa [Client.Awaits, hreader, hstream, hempty] using hawaits
    have hbytes := hholds.bytes
    rw [hrem, Bytes.slice_zero, List.append_nil] at hbytes
    cases rest with
    | nil => rw [hall, List.append_nil, hbytes]
    | cons block others =>
        have hlength := congrArg List.length hframes
        simp only [List.length_nil, frames_cons, frame, List.length_append,
          length_dataHdr] at hlength
        omega
  · cases hwriter.symm.trans hbroken.closed

end Webcamd.Vtuner.DataChannel
