import Webcamd.Library.Machine
import Webcamd.Vtuner.Client

/-!
# The control channel

The client sends a request and waits for the reply; the server waits for a request and
sends the reply (`vtunerc_do_message` of `vtuner/vtuner_client.c`,
`vtuners_control_thread` of `vtuner/vtuner_server.c`).  Nothing in the stream marks where a
message ends: the client computes the two sizes and puts them into the header, and the
server goes by the header.

The two sides and the two directions of the socket between them are one machine:

* the client takes up a request, with any argument, when it is done with the one before;
* each `read` and `write` call of `vtunerc_fd_read`, `vtunerc_fd_write`, `vtuners_read` and
  `vtuners_write` transfers between one byte and what it was asked for, the number being
  part of the action;
* when the last byte of a message has arrived, what follows up to the next operation on the
  socket is part of the same step.

Both sides have the same byte order.  The socket neither fails nor is closed.

The history has the messages as each side sees them: sent by the client, processed and
answered by the server, replied to the client.
-/

namespace Webcamd.Vtuner.Control

open Webcamd.Library

variable {D : Type}

/-- `sizeof(struct vtuner_message)` -/
def sizeMessage : ℕ := 16 + sizeBody

/-- The bytes of `struct vtuner_message`. -/
def messageBytes (order : ByteOrder) (hdr : Hdr) (body : Bytes) : Bytes := fun k =>
  if k < 16 then hdr.toBytes order k else body (k - 16)

/-- A message as it is sent: the header, and the bytes that follow it. -/
structure Message where
  hdr : Hdr
  payload : List Byte
  deriving DecidableEq

/-- What goes through the socket. -/
def Message.bytes (order : ByteOrder) (message : Message) : List Byte :=
  (message.hdr.toBytes order).slice 0 16 ++ message.payload

/-! ### The state -/

/-- Where the client is. -/
inductive Client.Pc where
  | idle
  /-- in `vtunerc_fd_write`, with the two sizes -/
  | writing (rxSize txSize offset : ℕ)
  /-- in `vtunerc_fd_read` -/
  | reading (txSize offset : ℕ)
  deriving DecidableEq

/-- The client: `msgbuf`, and where it is. -/
structure Client where
  msgbuf : Bytes
  pc : Client.Pc

/-- Where the server is. -/
inductive Server.Pc where
  /-- in `vtuners_read`, for the header -/
  | header (offset : ℕ)
  /-- in `vtuners_read`, for a body of this length -/
  | body (length offset : ℕ)
  /-- in `vtuners_write`, with its `len` and `off` -/
  | writing (length offset : ℕ)
  | closed
  deriving DecidableEq

/-- The server: its context, what it has received of a message, what it sends, and where it
is. -/
structure Server (D : Type) where
  ctx : VtunersCtx D
  header : Bytes
  payload : Bytes
  reply : Bytes
  pc : Server.Pc

structure State (D : Type) where
  client : Client
  /-- the bytes on their way to the server -/
  up : List Byte
  server : Server D
  /-- the bytes on their way to the client -/
  down : List Byte

inductive Event where
  /-- the client has made up a message -/
  | sent (message : Message)
  /-- the server has read these bytes -/
  | consumed (bytes : List Byte)
  /-- `vtuners_process_msg` has been called; the result is the driver's -/
  | processed (message : Message) (ret : ℤ) (answer : Message)
  /-- the client has got a reply, and `vtunerc_process_ioctl` returns -/
  | replied (answer : Message) (ret : ℤ)
  /-- `vtunerc_process_ioctl` returns an error of its own -/
  | refused (ret : ℤ)
  /-- a range of `struct vtuner_message` is handed to a call -/
  | access (start length : ℕ)
  deriving DecidableEq

inductive Action where
  /-- `vtunerc_process_ioctl` is called -/
  | issue (request : Request) (arg : Arg) (own : Option Bytes)
  | clientWrite (count : ℕ)
  | serverRead (count : ℕ)
  | serverWrite (count : ℕ)
  | clientRead (count : ℕ)

/-! ### The client -/

/-- The body of `msgbuf`. -/
def Client.body (client : Client) : Bytes := fun k => client.msgbuf (16 + k)

/-- `vtunerc_process_ioctl` as far as the first `write`.  A client that reads an address it
does not have is gone. -/
def Client.issue (uapi : Uapi) (order : ByteOrder) (client : Client) (request : Request)
    (arg : Arg) (own : Option Bytes) : Option (Client × List Event) :=
  match vtunercPrepare uapi order request arg own client.body with
  | .crashed => none
  | .refused ret body =>
      some (⟨fun k => if k < 16 then client.msgbuf k else body (k - 16), .idle⟩,
        [.refused ret])
  | .message mtype rxSize txSize body =>
      let hdr := vtunercHdr mtype rxSize txSize
      some (⟨messageBytes order hdr body, .writing rxSize txSize 0⟩,
        [.sent ⟨hdr, body.slice 0 rxSize⟩])

/-- The loop of `vtunerc_fd_write` after a `write` call. -/
def Client.advance (client : Client) (rxSize txSize offset : ℕ) : Client :=
  if offset < 16 + rxSize then { client with pc := .writing rxSize txSize offset }
  else { client with pc := .reading txSize 0 }

/-- The loop of `vtunerc_fd_read` after a `read` call that has given these bytes, and the
end of `vtunerc_process_ioctl`. -/
def Client.receive (order : ByteOrder) (client : Client) (txSize offset : ℕ)
    (received : List Byte) : Client × List Event :=
  let msgbuf := client.msgbuf.write offset received
  if offset + received.length < 16 + txSize then
    (⟨msgbuf, .reading txSize (offset + received.length)⟩, [])
  else
    let hdr := Hdr.ofBytes order msgbuf
    (⟨msgbuf, .idle⟩, [.replied ⟨hdr, msgbuf.slice 16 txSize⟩ hdr.error.toInt])

/-! ### The server -/

/-- The control thread when it has read a message: it processes the message and makes up the
reply, or gives up. -/
def Server.process (uapi : Uapi) (order : ByteOrder) (driver : Driver D)
    (server : Server D) : Server D × List Event :=
  let turn := vtunersControlStep uapi order driver server.ctx server.header server.payload
  match readMsg uapi order server.ctx server.header server.payload with
  | none => ({ server with pc := .closed }, [])
  | some msg =>
      match (vtunersProcessMsg uapi order driver msg.hdr.mtype
          { server.ctx with body := msg.body }).result, turn.next, turn.reply with
      | some (ret, _), some ctx, some reply =>
          ({ server with
              ctx := ctx
              reply := messageBytes order reply.hdr reply.body
              pc := .writing reply.length 0 },
            [.processed ⟨msg.hdr, msg.body.slice 0 msg.hdr.rxSize.toNat⟩ ret
              ⟨reply.hdr, reply.body.slice 0 (reply.length - 16)⟩])
      | _, _, _ => ({ server with pc := .closed }, [])

/-- The control thread when it has read a header: how many bytes it reads next. -/
def announced (order : ByteOrder) (header : Bytes) : Option ℕ :=
  let plain := Hdr.ofBytes order header
  let hdr := if plain.magic ≠ magic then vtunerHdrByteswap plain else plain
  if hdr.magic ≠ magic then none
  else if sizeBody < hdr.rxSize.toNat then none
  else some hdr.rxSize.toNat

/-- The control thread after a `read` call for the body, or instead of one. -/
def Server.receiveBody (uapi : Uapi) (order : ByteOrder) (driver : Driver D)
    (server : Server D) (length offset : ℕ) : Server D × List Event :=
  if offset < length then ({ server with pc := .body length offset }, [])
  else server.process uapi order driver

/-- The control thread after a `read` call for the header. -/
def Server.receiveHeader (uapi : Uapi) (order : ByteOrder) (driver : Driver D)
    (server : Server D) (offset : ℕ) : Server D × List Event :=
  if offset < 16 then ({ server with pc := .header offset }, [])
  else
    match announced order server.header with
    | none => ({ server with pc := .closed }, [])
    | some length => server.receiveBody uapi order driver length 0

/-- A `read` call has given these bytes. -/
def Server.receive (uapi : Uapi) (order : ByteOrder) (driver : Driver D) (server : Server D)
    (received : List Byte) : Server D × List Event :=
  match server.pc with
  | .header offset =>
      { server with header := server.header.write offset received }.receiveHeader uapi order
        driver (offset + received.length)
  | .body length offset =>
      { server with payload := server.payload.write offset received }.receiveBody uapi order
        driver length (offset + received.length)
  | _ => (server, [])

/-- The range of `msgbuf` that the `read` call of the server gets. -/
def Server.Pc.wants : Server.Pc → Option (ℕ × ℕ)
  | .header offset => some (offset, 16 - offset)
  | .body length offset => some (16 + offset, length - offset)
  | _ => none

/-- The loop of `vtuners_write` after a `write` call. -/
def Server.advance (server : Server D) (length offset : ℕ) : Server D :=
  if offset < length then { server with pc := .writing length offset }
  else { server with pc := .header 0 }

/-! ### The machine -/

/-- One step of one of the sides. -/
def step (uapi : Uapi) (order : ByteOrder) (driver : Driver D) (state : State D) :
    Action → Option (State D × List Event)
  | .issue request arg own =>
      if state.client.pc = .idle then
        (state.client.issue uapi order request arg own).map fun next =>
          ({ state with client := next.1 }, next.2)
      else none
  | .clientWrite count =>
      match state.client.pc with
      | .writing rxSize txSize offset =>
          if 1 ≤ count ∧ count ≤ 16 + rxSize - offset then
            some ({ state with
                client := state.client.advance rxSize txSize (offset + count)
                up := state.up ++ state.client.msgbuf.slice offset count },
              [.access offset (16 + rxSize - offset)])
          else none
      | _ => none
  | .serverRead count =>
      match state.server.pc.wants with
      | some (start, length) =>
          if 1 ≤ count ∧ count ≤ length ∧ count ≤ state.up.length then
            let next := state.server.receive uapi order driver (state.up.take count)
            some ({ state with server := next.1, up := state.up.drop count },
              .access start length :: .consumed (state.up.take count) :: next.2)
          else none
      | none => none
  | .serverWrite count =>
      match state.server.pc with
      | .writing length offset =>
          if 1 ≤ count ∧ count ≤ length - offset then
            some ({ state with
                server := state.server.advance length (offset + count)
                down := state.down ++ state.server.reply.slice offset count },
              [.access offset (length - offset)])
          else none
      | _ => none
  | .clientRead count =>
      match state.client.pc with
      | .reading txSize offset =>
          if 1 ≤ count ∧ count ≤ 16 + txSize - offset ∧ count ≤ state.down.length then
            let next := state.client.receive order txSize offset (state.down.take count)
            some ({ state with client := next.1, down := state.down.drop count },
              .access offset (16 + txSize - offset) :: next.2)
          else none
      | _ => none

/-- The control channel. -/
def machine (uapi : Uapi) (order : ByteOrder) (driver : Driver D) :
    Machine (State D) Action Event where
  step := step uapi order driver

/-- What the steps do, each with what has to be the case before it. -/
inductive Move (uapi : Uapi) (order : ByteOrder) (driver : Driver D) (state : State D) :
    Action → State D → List Event → Prop where
  | issue {request : Request} {arg : Arg} {own : Option Bytes} {after : Client × List Event}
      (hidle : state.client.pc = .idle)
      (hissue : state.client.issue uapi order request arg own = some after) :
      Move uapi order driver state (.issue request arg own)
        { state with client := after.1 } after.2
  | clientWrite {count rxSize txSize offset : ℕ}
      (hwriting : state.client.pc = .writing rxSize txSize offset) (hpos : 1 ≤ count)
      (hcount : count ≤ 16 + rxSize - offset) :
      Move uapi order driver state (.clientWrite count)
        { state with
          client := state.client.advance rxSize txSize (offset + count)
          up := state.up ++ state.client.msgbuf.slice offset count }
        [.access offset (16 + rxSize - offset)]
  | serverRead {count start length : ℕ} (hwants : state.server.pc.wants = some (start, length))
      (hpos : 1 ≤ count) (hcount : count ≤ length) (hup : count ≤ state.up.length) :
      Move uapi order driver state (.serverRead count)
        { state with
          server := (state.server.receive uapi order driver (state.up.take count)).1
          up := state.up.drop count }
        (.access start length :: .consumed (state.up.take count) ::
          (state.server.receive uapi order driver (state.up.take count)).2)
  | serverWrite {count length offset : ℕ} (hwriting : state.server.pc = .writing length offset)
      (hpos : 1 ≤ count) (hcount : count ≤ length - offset) :
      Move uapi order driver state (.serverWrite count)
        { state with
          server := state.server.advance length (offset + count)
          down := state.down ++ state.server.reply.slice offset count }
        [.access offset (length - offset)]
  | clientRead {count txSize offset : ℕ} (hreading : state.client.pc = .reading txSize offset)
      (hpos : 1 ≤ count) (hcount : count ≤ 16 + txSize - offset)
      (hdown : count ≤ state.down.length) :
      Move uapi order driver state (.clientRead count)
        { state with
          client := (state.client.receive order txSize offset (state.down.take count)).1
          down := state.down.drop count }
        (.access offset (16 + txSize - offset) ::
          (state.client.receive order txSize offset (state.down.take count)).2)

/-- **Every step is one of these.** -/
theorem move_of_step {uapi : Uapi} {order : ByteOrder} {driver : Driver D}
    {state next : State D} {action : Action} {events : List Event}
    (h : step uapi order driver state action = some (next, events)) :
    Move uapi order driver state action next events := by
  cases action with
  | issue request arg own =>
      simp only [step, Option.ite_none_right_eq_some, Option.map_eq_some_iff] at h
      obtain ⟨hidle, after, hissue, heq⟩ := h
      obtain ⟨rfl, rfl⟩ := Prod.mk.inj heq
      exact .issue hidle hissue
  | clientWrite count =>
      simp only [step] at h
      split at h
      · rename_i rxSize txSize offset hwriting
        simp only [Option.ite_none_right_eq_some, Option.some.injEq, Prod.mk.injEq] at h
        obtain ⟨⟨hpos, hcount⟩, rfl, rfl⟩ := h
        exact .clientWrite hwriting hpos hcount
      · cases h
  | serverRead count =>
      simp only [step] at h
      split at h
      · rename_i start length hwants
        simp only [Option.ite_none_right_eq_some, Option.some.injEq, Prod.mk.injEq] at h
        obtain ⟨⟨hpos, hcount, hup⟩, rfl, rfl⟩ := h
        exact .serverRead hwants hpos hcount hup
      · cases h
  | serverWrite count =>
      simp only [step] at h
      split at h
      · rename_i length offset hwriting
        simp only [Option.ite_none_right_eq_some, Option.some.injEq, Prod.mk.injEq] at h
        obtain ⟨⟨hpos, hcount⟩, rfl, rfl⟩ := h
        exact .serverWrite hwriting hpos hcount
      · cases h
  | clientRead count =>
      simp only [step] at h
      split at h
      · rename_i txSize offset hreading
        simp only [Option.ite_none_right_eq_some, Option.some.injEq, Prod.mk.injEq] at h
        obtain ⟨⟨hpos, hcount, hdown⟩, rfl, rfl⟩ := h
        exact .clientRead hreading hpos hcount hdown
      · cases h

/-- The client is connected and has not sent anything. -/
def start (ctx : VtunersCtx D) : State D where
  client := ⟨fun _ => 0, .idle⟩
  up := []
  server := ⟨ctx, fun _ => 0, fun _ => 0, fun _ => 0, .header 0⟩
  down := []

end Webcamd.Vtuner.Control
