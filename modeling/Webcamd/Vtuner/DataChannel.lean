import Webcamd.Library.Machine
import Webcamd.Vtuner.Buffer

/-!
# The data channel

The server sends what its device delivers, the client passes it on to the program that has
its device open (`vtuners_writer_thread` of `vtuner/vtuner_server.c`,
`vtunerc_do_peer_read`, `vtunerc_do_peer_poll` and `vtunerc_read` of
`vtuner/vtuner_client.c`).  The server puts a header of eight bytes in front of each block;
the client reads header and payload into one and the same buffer, and gives the payload
away in pieces of the size the program asks for.

The three threads and the socket between them are one machine:

* the writer thread reads a block from the device, and sends it in any number of short
  `write` calls; it may stop at any time;
* one reader calls `vtunerc_read`, blocking or not, with any positive length; the call
  goes through short `read` calls;
* the poll thread looks at `rd_message` and sets it, in two steps, at any time.

Code between two operations on the socket is one step, up to where it writes `buffer_rem` or
`rd_message`: no lock is held, and `vtunerc_poll` or the poll thread may look in between.
Everything the surroundings decide is in the action: the block, the size of each transfer, a
pending signal, a failing `copy_to_user`.

Both ends keep their own byte order; the client finds out about the server's from the
magic number of the header.
-/

namespace Webcamd.Vtuner.DataChannel

open Webcamd.Library

/-- `VTUNER_BUFFER_MAX` -/
def bufferMax : ℕ := 2 * 65536

/-- The size of `u32 buffer[2 + (VTUNER_BUFFER_MAX / 4)]` in `struct vtuners_ctx`. -/
def serverBufferSize : ℕ := 4 * (2 + bufferMax / 4)

/-- The size of `u32 buffer[VTUNER_BUFFER_MAX]` in `struct vtunerc_ctx`. -/
def clientBufferSize : ℕ := 4 * bufferMax

/-! ### The state -/

/-- Where the writer thread is. -/
inductive Writer where
  /-- about to read from the device -/
  | idle
  /-- in `vtuners_write`, with its `len` and `off` -/
  | writing (length offset : ℕ)
  | closed
  deriving DecidableEq

/-- What the writer thread uses of `struct vtuners_ctx`. -/
structure Server where
  buffer : Bytes
  writer : Writer

/-- Where the reader is, with the arguments of `vtunerc_read`. -/
inductive Reader where
  | idle
  /-- at the label `repeat` -/
  | repeating (nonblock : Bool) (length : ℕ)
  /-- in `vtunerc_fd_read`, for the header -/
  | header (nonblock : Bool) (length : ℕ) (offset : ℕ)
  /-- in `vtunerc_fd_read`, for a payload of this size -/
  | payload (nonblock : Bool) (length : ℕ) (size offset : ℕ)
  /-- at the end of `vtunerc_do_peer_read`, before the test of `rd_message` -/
  | filled (nonblock : Bool) (length : ℕ)
  /-- behind `vtunerc_do_peer_read` -/
  | delivering (nonblock : Bool) (length : ℕ)
  deriving DecidableEq

/-- Where the poll thread is. -/
inductive Poller where
  | waiting
  /-- between the test of `rd_message` and the assignment -/
  | seen
  | done
  deriving DecidableEq

/-- What the data channel uses of `struct vtunerc_ctx`, and where its threads are. -/
structure Client where
  buffer : Bytes
  bufferOff : ℕ
  bufferRem : ℕ
  rdMessage : ℤ
  closing : Bool
  reader : Reader
  poller : Poller

structure State where
  server : Server
  /-- the bytes on their way -/
  stream : List Byte
  client : Client

/-- The errors of `vtunerc_read`. -/
inductive ReadError where
  | signal
  | other
  | fault
  | wouldBlock
  deriving DecidableEq

inductive Event where
  /-- the device has delivered a block -/
  | block (payload : List Byte)
  /-- a range of the buffer is handed to a call, or a word of it is used -/
  | serverAccess (start length : ℕ)
  | clientAccess (start length : ℕ)
  /-- `vtunerc_read` returns with these bytes copied to the program -/
  | returned (bytes : List Byte)
  | failed (error : ReadError)
  deriving DecidableEq

inductive Action where
  /-- `linux_read` -/
  | deviceRead (payload : List Byte)
  /-- a `write` call that takes this many bytes -/
  | serverWrite (count : ℕ)
  | serverClose
  /-- `vtunerc_read` is called -/
  | call (nonblock : Bool) (length : ℕ)
  /-- from the label `repeat` on -/
  | proceed (signal : Bool)
  /-- a `read` call that gives this many bytes, and what follows it -/
  | receive (count : ℕ)
  /-- a `read` call that gives none -/
  | endOfStream
  /-- the end of `vtunerc_do_peer_read` -/
  | clearFlag
  /-- what `vtunerc_read` does behind it -/
  | deliver (fault : Bool)
  | pollSee
  | pollSet
  | pollExit
  /-- `vtunerc_close` -/
  | close
  deriving DecidableEq

/-! ### The server -/

/-- The server's buffer when a block has been read and its header filled in. -/
def fillBuffer (order : ByteOrder) (buffer : Bytes) (payload : List Byte) : Bytes :=
  ((buffer.write 8 payload).store32 order 0 magic).store32 order 4
    (BitVec.ofNat 32 payload.length)

/-- `vtuners_writer_thread` as far as the first `write`. -/
def Server.deviceRead (order : ByteOrder) (server : Server) (payload : List Byte) :
    Server × List Event :=
  (⟨fillBuffer order server.buffer payload, .writing (payload.length + 8) 0⟩,
    [.block payload, .serverAccess 8 (serverBufferSize - 8), .serverAccess 0 4,
      .serverAccess 4 4])

/-- The loop of `vtuners_write` after a `write` call. -/
def Server.advance (server : Server) (length offset : ℕ) : Server :=
  { server with writer := if offset < length then .writing length offset else .idle }

/-! ### The client -/

/-- `vtuner_data_hdr_byteswap` -/
def vtunerDataHdrByteswap (buffer : Bytes) : Bytes :=
  (buffer.bswap 0 4).bswap 4 4

/-- `vtunerc_read` after its call of `vtunerc_do_peer_read`. -/
def Client.deliver (client : Client) (nonblock : Bool) (length : ℕ) (fault : Bool) :
    Client × List Event :=
  let delta := if client.bufferRem < length then client.bufferRem else length
  if delta = 0 then
    if nonblock then ({ client with reader := .idle }, [.failed .wouldBlock])
    else ({ client with reader := .repeating nonblock length }, [])
  else if fault then
    ({ client with reader := .idle }, [.clientAccess client.bufferOff delta, .failed .fault])
  else
    ({ client with
        bufferOff := client.bufferOff + delta
        bufferRem := client.bufferRem - delta
        reader := .idle },
      [.clientAccess client.bufferOff delta,
        .returned (client.buffer.slice client.bufferOff delta)])

/-- `vtunerc_do_peer_read` with the payload in the buffer, up to the test of `rd_message`. -/
def Client.refill (client : Client) (nonblock : Bool) (length size : ℕ) : Client :=
  { client with
    bufferRem := size
    bufferOff := 0
    reader := .filled nonblock length }

/-- That test, and the assignment.  Nobody else writes the flag while it is one. -/
def Client.clearFlag (client : Client) (nonblock : Bool) (length : ℕ) : Client :=
  { client with
    rdMessage := if client.rdMessage = 1 then 0 else client.rdMessage
    reader := .delivering nonblock length }

/-- `vtunerc_do_peer_read` fails, and `vtunerc_read` with it. -/
def Client.giveUp (client : Client) : Client × List Event :=
  ({ client with reader := .idle }, [.failed .other])

/-- `vtunerc_fd_read` of the payload, before a `read` call or instead of one. -/
def Client.receivePayload (client : Client) (nonblock : Bool) (length size offset : ℕ) :
    Client × List Event :=
  if offset < size then ({ client with reader := .payload nonblock length size offset }, [])
  else (client.refill nonblock length size, [])

/-- `vtunerc_do_peer_read` from the test of the magic number on. -/
def Client.parseHeader (order : ByteOrder) (client : Client) (nonblock : Bool) (length : ℕ) :
    Client × List Event :=
  let buffer := if client.buffer.load32 order 0 ≠ magic then
    vtunerDataHdrByteswap client.buffer else client.buffer
  let parsed := { client with buffer := buffer }
  let len := (buffer.load32 order 4).toInt
  let next := if buffer.load32 order 0 ≠ magic then parsed.giveUp
    else if len < 0 ∨ (bufferMax : ℤ) < len then parsed.giveUp
    else parsed.receivePayload nonblock length len.toNat 0
  (next.1, .clientAccess 0 4 :: .clientAccess 4 4 :: next.2)

/-- `vtunerc_fd_read` of the header, before a `read` call or instead of one. -/
def Client.receiveHeader (order : ByteOrder) (client : Client) (nonblock : Bool)
    (length offset : ℕ) : Client × List Event :=
  if offset < 8 then ({ client with reader := .header nonblock length offset }, [])
  else client.parseHeader order nonblock length

/-- `vtunerc_read` from the label `repeat` to the first operation on the socket, or past
`vtunerc_do_peer_read` if it has nothing to do. -/
def Client.proceed (order : ByteOrder) (client : Client) (nonblock : Bool) (length : ℕ)
    (signal : Bool) : Client × List Event :=
  if signal then ({ client with reader := .idle }, [.failed .signal])
  else if (nonblock = false ∨ client.rdMessage = 1) ∧ client.bufferRem = 0 then
    client.receiveHeader order nonblock length 0
  else ({ client with reader := .delivering nonblock length }, [])

/-- How many bytes the `read` call in which the reader is asks for, and where they go. -/
def Reader.wants : Reader → Option (ℕ × ℕ)
  | .idle | .repeating _ _ | .filled _ _ | .delivering _ _ => none
  | .header _ _ offset => some (offset, 8 - offset)
  | .payload _ _ size offset => some (offset, size - offset)

/-- A `read` call has put `received` into the buffer. -/
def Client.receive (order : ByteOrder) (client : Client) (received : List Byte) :
    Client × List Event :=
  match client.reader with
  | .idle | .repeating _ _ | .filled _ _ | .delivering _ _ => (client, [])
  | .header nonblock length offset =>
      { client with buffer := client.buffer.write offset received }.receiveHeader order
        nonblock length (offset + received.length)
  | .payload nonblock length size offset =>
      { client with buffer := client.buffer.write offset received }.receivePayload nonblock
        length size (offset + received.length)

/-! ### The machine -/

/-- One step of one of the threads, on machines of these byte orders. -/
def step (serverOrder clientOrder : ByteOrder) (state : State) :
    Action → Option (State × List Event)
  | .deviceRead payload =>
      if state.server.writer = .idle ∧ 1 ≤ payload.length ∧ payload.length ≤ bufferMax then
        let next := state.server.deviceRead serverOrder payload
        some ({ state with server := next.1 }, next.2)
      else none
  | .serverWrite count =>
      match state.server.writer with
      | .writing length offset =>
          if 1 ≤ count ∧ count ≤ length - offset then
            some ({ state with
                server := state.server.advance length (offset + count)
                stream := state.stream ++ state.server.buffer.slice offset count },
              [.serverAccess offset (length - offset)])
          else none
      | _ => none
  | .serverClose => some ({ state with server.writer := .closed }, [])
  | .call nonblock length =>
      if state.client.reader = .idle ∧ state.client.closing = false ∧ 0 < length then
        some ({ state with client.reader := .repeating nonblock length }, [])
      else none
  | .proceed signal =>
      match state.client.reader with
      | .repeating nonblock length =>
          let next := state.client.proceed clientOrder nonblock length signal
          some ({ state with client := next.1 }, next.2)
      | _ => none
  | .receive count =>
      match state.client.reader.wants with
      | some (start, length) =>
          if 1 ≤ count ∧ count ≤ length ∧ count ≤ state.stream.length then
            let next := state.client.receive clientOrder (state.stream.take count)
            some ({ state with client := next.1, stream := state.stream.drop count },
              .clientAccess start length :: next.2)
          else none
      | none => none
  | .endOfStream =>
      match state.client.reader.wants with
      | some (start, length) =>
          if state.stream = [] ∧ state.server.writer = .closed then
            let next := state.client.giveUp
            some ({ state with client := next.1 }, .clientAccess start length :: next.2)
          else none
      | none => none
  | .clearFlag =>
      match state.client.reader with
      | .filled nonblock length =>
          some ({ state with client := state.client.clearFlag nonblock length }, [])
      | _ => none
  | .deliver fault =>
      match state.client.reader with
      | .delivering nonblock length =>
          let next := state.client.deliver nonblock length fault
          some ({ state with client := next.1 }, next.2)
      | _ => none
  | .pollSee =>
      if state.client.poller = .waiting then
        some (if state.client.rdMessage = 0 then { state with client.poller := .seen }
          else state, [])
      else none
  | .pollSet =>
      if state.client.poller = .seen then
        some ({ state with client.rdMessage := 1, client.poller := .waiting }, [])
      else none
  | .pollExit =>
      if state.client.poller = .waiting ∧ state.client.closing = true then
        some ({ state with client.rdMessage := -1, client.poller := .done }, [])
      else none
  | .close =>
      if state.client.reader = .idle then some ({ state with client.closing := true }, [])
      else none

/-- The data channel. -/
def machine (serverOrder clientOrder : ByteOrder) : Machine State Action Event where
  step := step serverOrder clientOrder

/-- What the steps do, each with what has to be the case before it. -/
inductive Move (serverOrder clientOrder : ByteOrder) (state : State) :
    Action → State → List Event → Prop where
  | deviceRead {payload : List Byte} (hidle : state.server.writer = .idle)
      (hmax : payload.length ≤ bufferMax) :
      Move serverOrder clientOrder state (.deviceRead payload)
        { state with server := (state.server.deviceRead serverOrder payload).1 }
        (state.server.deviceRead serverOrder payload).2
  | serverWrite {count length offset : ℕ} (hwriting : state.server.writer = .writing length offset)
      (hcount : count ≤ length - offset) :
      Move serverOrder clientOrder state (.serverWrite count)
        { state with
          server := state.server.advance length (offset + count)
          stream := state.stream ++ state.server.buffer.slice offset count }
        [.serverAccess offset (length - offset)]
  | serverClose :
      Move serverOrder clientOrder state .serverClose
        { state with server.writer := .closed } []
  | call {nonblock : Bool} {length : ℕ} (hidle : state.client.reader = .idle)
      (hopen : state.client.closing = false) :
      Move serverOrder clientOrder state (.call nonblock length)
        { state with client.reader := .repeating nonblock length } []
  | proceed {signal nonblock : Bool} {length : ℕ}
      (hreader : state.client.reader = .repeating nonblock length) :
      Move serverOrder clientOrder state (.proceed signal)
        { state with client := (state.client.proceed clientOrder nonblock length signal).1 }
        (state.client.proceed clientOrder nonblock length signal).2
  | receive {count start length : ℕ}
      (hwants : state.client.reader.wants = some (start, length)) (hpos : 1 ≤ count)
      (hcount : count ≤ length) (hstream : count ≤ state.stream.length) :
      Move serverOrder clientOrder state (.receive count)
        { state with
          client := (state.client.receive clientOrder (state.stream.take count)).1
          stream := state.stream.drop count }
        (.clientAccess start length ::
          (state.client.receive clientOrder (state.stream.take count)).2)
  | endOfStream {start length : ℕ}
      (hwants : state.client.reader.wants = some (start, length)) (hstream : state.stream = [])
      (hclosed : state.server.writer = .closed) :
      Move serverOrder clientOrder state .endOfStream
        { state with client := state.client.giveUp.1 }
        (.clientAccess start length :: state.client.giveUp.2)
  | clearFlag {nonblock : Bool} {length : ℕ}
      (hreader : state.client.reader = .filled nonblock length) :
      Move serverOrder clientOrder state .clearFlag
        { state with client := state.client.clearFlag nonblock length } []
  | deliver {nonblock fault : Bool} {length : ℕ}
      (hreader : state.client.reader = .delivering nonblock length) :
      Move serverOrder clientOrder state (.deliver fault)
        { state with client := (state.client.deliver nonblock length fault).1 }
        (state.client.deliver nonblock length fault).2
  | pollSee :
      Move serverOrder clientOrder state .pollSee
        (if state.client.rdMessage = 0 then { state with client.poller := .seen } else state) []
  | pollSet :
      Move serverOrder clientOrder state .pollSet
        { state with client.rdMessage := 1, client.poller := .waiting } []
  | pollExit (hclosing : state.client.closing = true) :
      Move serverOrder clientOrder state .pollExit
        { state with client.rdMessage := -1, client.poller := .done } []
  | close (hidle : state.client.reader = .idle) :
      Move serverOrder clientOrder state .close { state with client.closing := true } []

/-- **Every step is one of these.** -/
theorem move_of_step {serverOrder clientOrder : ByteOrder} {state next : State}
    {action : Action} {events : List Event}
    (h : step serverOrder clientOrder state action = some (next, events)) :
    Move serverOrder clientOrder state action next events := by
  cases action with
  | deviceRead payload =>
      simp only [step, Option.ite_none_right_eq_some, Option.some.injEq, Prod.mk.injEq] at h
      obtain ⟨⟨hidle, -, hmax⟩, rfl, rfl⟩ := h
      exact .deviceRead hidle hmax
  | serverWrite count =>
      simp only [step] at h
      split at h
      · rename_i length offset hwriting
        simp only [Option.ite_none_right_eq_some, Option.some.injEq, Prod.mk.injEq] at h
        obtain ⟨⟨-, hcount⟩, rfl, rfl⟩ := h
        exact .serverWrite hwriting hcount
      · cases h
  | serverClose =>
      simp only [step, Option.some.injEq, Prod.mk.injEq] at h
      obtain ⟨rfl, rfl⟩ := h
      exact .serverClose
  | call nonblock length =>
      simp only [step, Option.ite_none_right_eq_some, Option.some.injEq, Prod.mk.injEq] at h
      obtain ⟨⟨hidle, hopen, -⟩, rfl, rfl⟩ := h
      exact .call hidle hopen
  | proceed signal =>
      simp only [step] at h
      split at h
      · rename_i nonblock length hreader
        simp only [Option.some.injEq, Prod.mk.injEq] at h
        obtain ⟨rfl, rfl⟩ := h
        exact .proceed hreader
      · cases h
  | receive count =>
      simp only [step] at h
      split at h
      · rename_i start length hwants
        simp only [Option.ite_none_right_eq_some, Option.some.injEq, Prod.mk.injEq] at h
        obtain ⟨⟨hpos, hcount, hstream⟩, rfl, rfl⟩ := h
        exact .receive hwants hpos hcount hstream
      · cases h
  | endOfStream =>
      simp only [step] at h
      split at h
      · rename_i start length hwants
        simp only [Option.ite_none_right_eq_some, Option.some.injEq, Prod.mk.injEq] at h
        obtain ⟨⟨hstream, hclosed⟩, rfl, rfl⟩ := h
        exact .endOfStream hwants hstream hclosed
      · cases h
  | clearFlag =>
      simp only [step] at h
      split at h
      · rename_i nonblock length hreader
        simp only [Option.some.injEq, Prod.mk.injEq] at h
        obtain ⟨rfl, rfl⟩ := h
        exact .clearFlag hreader
      · cases h
  | deliver fault =>
      simp only [step] at h
      split at h
      · rename_i nonblock length hreader
        simp only [Option.some.injEq, Prod.mk.injEq] at h
        obtain ⟨rfl, rfl⟩ := h
        exact .deliver hreader
      · cases h
  | pollSee =>
      simp only [step, Option.ite_none_right_eq_some, Option.some.injEq, Prod.mk.injEq] at h
      obtain ⟨-, rfl, rfl⟩ := h
      exact .pollSee
  | pollSet =>
      simp only [step, Option.ite_none_right_eq_some, Option.some.injEq, Prod.mk.injEq] at h
      obtain ⟨-, rfl, rfl⟩ := h
      exact .pollSet
  | pollExit =>
      simp only [step, Option.ite_none_right_eq_some, Option.some.injEq, Prod.mk.injEq] at h
      obtain ⟨⟨-, hclosing⟩, rfl, rfl⟩ := h
      exact .pollExit hclosing
  | close =>
      simp only [step, Option.ite_none_right_eq_some, Option.some.injEq, Prod.mk.injEq] at h
      obtain ⟨hidle, rfl, rfl⟩ := h
      exact .close hidle

/-- Both contexts are allocated with `kzalloc`. -/
def start : State where
  server := ⟨fun _ => 0, .idle⟩
  stream := []
  client := ⟨fun _ => 0, 0, 0, 0, false, .idle, .waiting⟩

end Webcamd.Vtuner.DataChannel
