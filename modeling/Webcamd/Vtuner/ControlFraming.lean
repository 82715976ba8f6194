import Webcamd.Vtuner.Control
import Webcamd.Vtuner.PropertyList

/-!
# The framing of the control channel

`control_channel_framing` says of every run of the control channel, whatever the requests
and however the transfers are cut up: the server has processed the client's messages, in
their order; the client has got the server's answers to them, in their order; between two
requests no byte is left anywhere; no call is given a range outside `struct vtuner_message`;
and a result of the driver that fits into sixteen bits is the value `vtunerc_process_ioctl`
returns.

* `WellFormed` — what the server relies on: the sizes in the header are those of the
  message, and a property list has a number that the server's loops can deal with.
* `Server.process_spec` — what the server makes of a whole message.
* `Phase` — the invariant.  Either nothing is going on, or a request is under way, its
  bytes being with the server, in the socket or with the client, or a reply is.
-/

namespace Webcamd.Vtuner.Control

open Webcamd.Library

variable {D : Type}

/-! ### What the history says -/

/-- The messages the client has made up. -/
def sent (history : List Event) : List Message :=
  history.filterMap fun event => match event with
    | .sent message => some message
    | _ => none

/-- The messages the server has processed, with the driver's results and the answers. -/
def processed (history : List Event) : List (Message × ℤ × Message) :=
  history.filterMap fun event => match event with
    | .processed message ret answer => some (message, ret, answer)
    | _ => none

/-- The replies the client has got, with the values it has returned. -/
def replied (history : List Event) : List (Message × ℤ) :=
  history.filterMap fun event => match event with
    | .replied answer ret => some (answer, ret)
    | _ => none

/-- The bytes the server has read. -/
def consumed (history : List Event) : List Byte :=
  (history.filterMap fun event => match event with
    | .consumed bytes => some bytes
    | _ => none).flatten

/-- What an event says for itself: ranges are inside the structure, the error of an answer
is the driver's result, and the client returns the error of the reply. -/
def Event.Sound : Event → Prop
  | .access start length => start + length ≤ sizeMessage
  | .processed _ ret answer => answer.hdr.error = BitVec.ofInt 16 ret
  | .replied answer ret => ret = answer.hdr.error.toInt
  | _ => True

@[simp] theorem sent_append (past events : List Event) :
    sent (past ++ events) = sent past ++ sent events := by
  simp [sent]

@[simp] theorem processed_append (past events : List Event) :
    processed (past ++ events) = processed past ++ processed events := by
  simp [processed]

@[simp] theorem replied_append (past events : List Event) :
    replied (past ++ events) = replied past ++ replied events := by
  simp [replied]

@[simp] theorem consumed_append (past events : List Event) :
    consumed (past ++ events) = consumed past ++ consumed events := by
  simp [consumed]

/-! ### The bytes of a message -/

@[simp] theorem length_bytes (order : ByteOrder) (message : Message) :
    (message.bytes order).length = 16 + message.payload.length := by
  simp [Message.bytes]

/-- The bytes that are sent are those of the message. -/
theorem slice_messageBytes (order : ByteOrder) (hdr : Hdr) (body : Bytes) (size : ℕ) :
    (messageBytes order hdr body).slice 0 (16 + size) =
      Message.bytes order ⟨hdr, body.slice 0 size⟩ := by
  have hheader : (messageBytes order hdr body).slice 0 16 = (hdr.toBytes order).slice 0 16 := by
    refine Bytes.slice_congr fun k hk => ?_
    have hlt : 0 + k < 16 := by omega
    simp only [messageBytes, hlt, if_true]
  have hbody : (messageBytes order hdr body).slice (0 + 16) size = body.slice 0 size := by
    refine List.map_congr_left fun k hk => ?_
    have hge : ¬ 0 + 16 + k < 16 := by omega
    have hsub : 0 + 16 + k - 16 = 0 + k := by omega
    simp only [messageBytes, hge, if_false, hsub]
  rw [← Bytes.slice_append, hheader, hbody, Message.bytes]

/-- A header is read from the bytes of its message. -/
theorem ofBytes_of_slice {order : ByteOrder} {buffer : Bytes} {hdr : Hdr}
    (h : buffer.slice 0 16 = (hdr.toBytes order).slice 0 16) :
    Hdr.ofBytes order buffer = hdr := by
  have hbytes : ∀ k < 16, buffer k = hdr.toBytes order k := by
    intro k hk
    have hk' := Bytes.apply_eq_of_slice_eq h hk
    rwa [Nat.zero_add] at hk'
  rw [Hdr.ofBytes_congr hbytes, Hdr.ofBytes_toBytes]

/-! ### The messages of the client -/

/-- What the server relies on. -/
structure WellFormed (order : ByteOrder) (message : Message) (txSize : ℕ) : Prop where
  hdr : ∃ mtype, message.hdr = vtunercHdr mtype message.payload.length txSize
  rxSize_le : message.payload.length ≤ sizeBody
  txSize_le : txSize ≤ sizeBody
  num : IsProperty message.hdr.mtype → ∀ body : Bytes,
    body.slice 0 message.payload.length = message.payload →
      (body.num order).toNat < 2 ^ 31

/-- A word is read from any buffer that has its bytes. -/
theorem load32_of_slice {order : ByteOrder} {buffer another : Bytes} {size : ℕ}
    (h : buffer.slice 0 size = another.slice 0 size) (hsize : 4 ≤ size) :
    buffer.load32 order 0 = another.load32 order 0 :=
  Bytes.load32_congr fun _ hk => Bytes.apply_eq_of_slice_eq h (by omega)

/-- A message type that stands for a request other than the two has no properties. -/
theorem not_isProperty_of_command {request : Request} {command : Command}
    (h : request.command = some command) : ¬ IsProperty command.mtype.code := by
  rw [IsProperty, MsgType.decode_code]
  cases request <;> cases h <;> decide

/-- **The client's messages are well formed.** -/
theorem wellFormed_of_prepare {uapi : Uapi} {order : ByteOrder} {request : Request}
    {arg : Arg} {own : Option Bytes} {body prepared : Bytes} {mtype : MsgType}
    {rxSize txSize : ℕ}
    (h : vtunercPrepare uapi order request arg own body =
      .message mtype rxSize txSize prepared) :
    WellFormed order ⟨vtunercHdr mtype rxSize txSize, prepared.slice 0 rxSize⟩ txSize := by
  obtain ⟨-, hrx, htx⟩ := vtunercPrepare_message h
  refine ⟨⟨mtype, by simp⟩, by simpa using hrx, htx, fun hproperty buffer hbuffer => ?_⟩
  simp only [Bytes.length_slice] at hbuffer
  rw [vtunercPrepare] at h
  split at h
  · rename_i command hcommand
    obtain ⟨rfl, -, -⟩ := Command.prepare_message h
    exact absurd hproperty (not_isProperty_of_command hcommand)
  · simp only [prepareProperties] at h
    split at h
    · cases h
    · rename_i hmax
      -- both branches send the same bytes, the number in front
      have hnum : (prepared.num order).toNat = arg.num.toNat ∧ 4 ≤ rxSize := by
        split at h <;>
        · obtain ⟨-, rfl, -, rfl⟩ := Prepared.message.inj h
          rw [num_putProps, Bytes.num, Bytes.load32_store32]
          exact ⟨rfl, Nat.le_add_right _ _⟩
      rw [Bytes.num, load32_of_slice hbuffer hnum.2]
      have hsmall : (prepared.load32 order 0).toNat = arg.num.toNat := hnum.1
      rw [hsmall]
      rw [propMax] at hmax
      omega

/-! ### The server deals with a message -/

section

variable {uapi : Uapi} {order : ByteOrder} {driver : Driver D} {server : Server D}
variable {message : Message} {txSize : ℕ}

/-- What the server sends back for a message. -/
structure Answered (order : ByteOrder) (message : Message) (txSize : ℕ)
    (next : Server D × List Event) (ret : ℤ) (answer : Message) : Prop where
  events : next.2 = [.processed message ret answer]
  error : answer.hdr.error = BitVec.ofInt 16 ret
  length : answer.payload.length = txSize
  pc : next.1.pc = .writing (16 + txSize) 0
  bytes : next.1.reply.slice 0 (16 + txSize) = answer.bytes order

theorem WellFormed.hdr_magic (h : WellFormed order message txSize) :
    message.hdr.magic = Vtuner.magic := by
  obtain ⟨mtype, hhdr⟩ := h.hdr
  rw [hhdr]
  rfl

theorem WellFormed.hdr_rxSize (h : WellFormed order message txSize) :
    message.hdr.rxSize.toNat = message.payload.length := by
  obtain ⟨mtype, hhdr⟩ := h.hdr
  have hle := h.rxSize_le
  rw [sizeBody] at hle
  rw [hhdr, vtunercHdr, BitVec.toNat_ofNat, Nat.mod_eq_of_lt (by omega)]

theorem WellFormed.hdr_txSize (h : WellFormed order message txSize) :
    message.hdr.txSize.toNat = txSize := by
  obtain ⟨mtype, hhdr⟩ := h.hdr
  have hle := h.txSize_le
  rw [sizeBody] at hle
  rw [hhdr, vtunercHdr, BitVec.toNat_ofNat, Nat.mod_eq_of_lt (by omega)]

/-- The server takes from the header how long the body is. -/
theorem announced_eq (h : WellFormed order message txSize) {header : Bytes}
    (hheader : header.slice 0 16 = (message.hdr.toBytes order).slice 0 16) :
    announced order header = some message.payload.length := by
  have hle : ¬ sizeBody < message.payload.length := not_lt.mpr h.rxSize_le
  simp only [announced, ofBytes_of_slice hheader, h.hdr_magic, ne_eq, not_true_eq_false, if_false,
    h.hdr_rxSize, hle]

/-- A message of the same byte order is presented as it was sent. -/
theorem readMsg_eq (h : WellFormed order message txSize) (ctx : VtunersCtx D)
    {header payload : Bytes}
    (hheader : header.slice 0 16 = (message.hdr.toBytes order).slice 0 16) :
    readMsg uapi order ctx header payload =
      some ⟨message.hdr, ctx.body.overlay 0 message.payload.length payload, false⟩ := by
  have hle : ¬ sizeBody < message.payload.length := not_lt.mpr h.rxSize_le
  simp only [readMsg, ofBytes_of_slice hheader, h.hdr_magic, ne_eq, not_true_eq_false,
    decide_false, Bool.false_eq_true, if_false, h.hdr_rxSize, hle]

/-- **The server answers every well-formed message.** -/
theorem Server.process_spec (h : WellFormed order message txSize)
    (hheader : server.header.slice 0 16 = (message.hdr.toBytes order).slice 0 16)
    (hpayload : server.payload.slice 0 message.payload.length = message.payload) :
    ∃ ret answer, Answered order message txSize (server.process uapi order driver) ret
      answer := by
  have hread : readMsg uapi order server.ctx server.header server.payload =
      some ⟨message.hdr, server.ctx.body.overlay 0 message.payload.length server.payload,
        false⟩ :=
    readMsg_eq h server.ctx hheader
  have hbody : (server.ctx.body.overlay 0 message.payload.length server.payload).slice 0
      message.payload.length = message.payload :=
    (Bytes.slice_front_overlay _ _ (by omega)).trans hpayload
  have hlive : (vtunersProcessMsg uapi order driver message.hdr.mtype { server.ctx with
      body := server.ctx.body.overlay 0 message.payload.length server.payload }).result ≠
        none := by
    rw [ne_eq, vtunersProcessMsg_result_eq_none_iff, not_not, vtunersProcessMsg_inBounds_iff]
    exact fun hproperty => h.num hproperty _ hbody
  obtain ⟨⟨ret, after⟩, hresult⟩ := Option.ne_none_iff_exists'.mp hlive
  have hle : ¬ sizeBody < txSize := not_lt.mpr h.txSize_le
  have hturn : vtunersControlStep uapi order driver server.ctx server.header server.payload =
      ⟨(vtunersProcessMsg uapi order driver message.hdr.mtype { server.ctx with
          body := server.ctx.body.overlay 0 message.payload.length server.payload }).loops,
        some after,
        some ⟨{ message.hdr with error := BitVec.ofInt 16 ret }, after.body,
          txSize + 16⟩⟩ := by
    rw [vtunersControlStep, hread]
    simp only [hresult, h.hdr_txSize, hle, if_false, Bool.false_eq_true]
  refine ⟨ret, ⟨{ message.hdr with error := BitVec.ofInt 16 ret }, after.body.slice 0 txSize⟩,
    ?_⟩
  simp only [Server.process, hread, hturn, hresult, h.hdr_rxSize, hbody, Nat.add_sub_cancel]
  refine ⟨rfl, rfl, by simp, by rw [Nat.add_comm], ?_⟩
  exact slice_messageBytes order _ _ _

/-- The server has received these bytes of a message. -/
def Server.Received (order : ByteOrder) (server : Server D) (bytes : List Byte) : Prop :=
  match server.pc with
  | .header offset => offset < 16 ∧ bytes = server.header.slice 0 offset
  | .body length offset =>
      offset < length ∧ announced order server.header = some length ∧
        bytes = server.header.slice 0 16 ++ server.payload.slice 0 offset
  | .writing _ _ | .closed => False

/-- After a `read` call the server waits for more of the message, or it has had all of it
and answers. -/
def Server.Proceeds (order : ByteOrder) (message : Message) (txSize : ℕ)
    (received rest : List Byte) (next : Server D × List Event) : Prop :=
  (next.1.Received order received ∧ next.2 = []) ∨
    (rest = [] ∧ ∃ ret answer, Answered order message txSize next ret answer)

theorem Server.receiveBody_spec (h : WellFormed order message txSize)
    (hheader : server.header.slice 0 16 = (message.hdr.toBytes order).slice 0 16)
    {offset : ℕ} (hoffset : offset ≤ message.payload.length) {rest : List Byte}
    (hbytes : server.payload.slice 0 offset ++ rest = message.payload) :
    Server.Proceeds order message txSize
      (server.header.slice 0 16 ++ server.payload.slice 0 offset) rest
      (server.receiveBody uapi order driver message.payload.length offset) := by
  rw [Server.receiveBody]
  split
  · rename_i hlt
    exact .inl ⟨⟨hlt, announced_eq h hheader, rfl⟩, rfl⟩
  · obtain rfl : offset = message.payload.length := by omega
    have hlength := congrArg List.length hbytes
    rw [List.length_append, Bytes.length_slice] at hlength
    obtain rfl : rest = [] := List.length_eq_zero_iff.mp (by omega)
    rw [List.append_nil] at hbytes
    exact .inr ⟨rfl, Server.process_spec h hheader hbytes⟩

theorem Server.receiveHeader_spec (h : WellFormed order message txSize) {offset : ℕ}
    (hoffset : offset ≤ 16) {rest : List Byte}
    (hbytes : server.header.slice 0 offset ++ rest = message.bytes order) :
    Server.Proceeds order message txSize (server.header.slice 0 offset) rest
      (server.receiveHeader uapi order driver offset) := by
  rw [Server.receiveHeader]
  split
  · rename_i hlt
    exact .inl ⟨⟨hlt, rfl⟩, rfl⟩
  · obtain rfl : offset = 16 := by omega
    obtain ⟨hheader, hrest⟩ := List.append_inj hbytes (by simp)
    rw [announced_eq h hheader]
    have hbody : Server.Proceeds order message txSize
        (server.header.slice 0 16 ++ server.payload.slice 0 0) rest
        (server.receiveBody uapi order driver message.payload.length 0) :=
      Server.receiveBody_spec h hheader (Nat.zero_le _) hrest
    simpa using hbody

/-- **One `read` call of the server.** -/
theorem Server.receive_spec (uapi : Uapi) (driver : Driver D)
    (h : WellFormed order message txSize) {past received rest : List Byte}
    (hpast : server.Received order past)
    (hbytes : past ++ (received ++ rest) = message.bytes order) {start length : ℕ}
    (hwants : server.pc.wants = some (start, length)) (hreceived : received.length ≤ length) :
    start + length ≤ sizeMessage ∧
      Server.Proceeds order message txSize (past ++ received) rest
        (server.receive uapi order driver received) := by
  obtain ⟨ctx, header, payload, reply, pc⟩ := server
  cases pc with
  | header offset =>
      obtain ⟨rfl, rfl⟩ := Prod.mk.inj (Option.some.inj hwants)
      obtain ⟨hlt, rfl⟩ := hpast
      have hfilled := Bytes.slice_write_append header offset received
      have hnext : Server.Proceeds order message txSize
          ((header.write offset received).slice 0 (offset + received.length)) rest
          (Server.receiveHeader uapi order driver
            ⟨ctx, header.write offset received, payload, reply, .header offset⟩
            (offset + received.length)) := by
        refine Server.receiveHeader_spec h (by omega) ?_
        rw [hfilled, List.append_assoc]
        exact hbytes
      rw [hfilled] at hnext
      rw [sizeMessage]
      exact ⟨by omega, hnext⟩
  | body size offset =>
      obtain ⟨rfl, rfl⟩ := Prod.mk.inj (Option.some.inj hwants)
      obtain ⟨hlt, hannounced, rfl⟩ := hpast
      rw [List.append_assoc] at hbytes
      obtain ⟨hheader, hpayload⟩ := List.append_inj hbytes (by simp)
      obtain rfl : size = message.payload.length :=
        Option.some.inj (hannounced.symm.trans (announced_eq h hheader))
      have hfilled := Bytes.slice_write_append payload offset received
      have hnext : Server.Proceeds order message txSize
          (header.slice 0 16 ++ (payload.write offset received).slice 0
            (offset + received.length)) rest
          (Server.receiveBody uapi order driver
            ⟨ctx, header, payload.write offset received, reply, .body message.payload.length
              offset⟩ message.payload.length (offset + received.length)) := by
        have hoffset : offset + received.length ≤ message.payload.length := by omega
        refine @Server.receiveBody_spec _ uapi order driver
          ⟨ctx, header, payload.write offset received, reply, _⟩ message txSize h hheader _
          hoffset rest ?_
        rw [hfilled, List.append_assoc]
        exact hpayload
      rw [hfilled, ← List.append_assoc] at hnext
      have hle := h.rxSize_le
      rw [sizeMessage]
      exact ⟨by omega, hnext⟩
  | writing size offset => cases hwants
  | closed => cases hwants

end

/-! ### The invariant -/

/-- What the client has still to send of a message. -/
def Client.Unsent (client : Client) (message : Message) (txSize : ℕ) (unsent : List Byte) :
    Prop :=
  match client.pc with
  | .idle => False
  | .writing rxSize size offset =>
      rxSize = message.payload.length ∧ size = txSize ∧ offset < 16 + rxSize ∧
        unsent = client.msgbuf.slice offset (16 + rxSize - offset)
  | .reading size offset => size = txSize ∧ offset = 0 ∧ unsent = []

/-- A client that has sent all of its message waits for the reply. -/
theorem Client.Unsent.reading {client : Client} {message : Message} {txSize : ℕ}
    (h : client.Unsent message txSize []) : client.pc = .reading txSize 0 := by
  rw [Client.Unsent] at h
  split at h
  · exact h.elim
  · obtain ⟨-, -, hlt, hnil⟩ := h
    have hlength := congrArg List.length hnil
    rw [Bytes.length_slice, List.length_nil] at hlength
    omega
  · rename_i hpc
    obtain ⟨rfl, rfl, -⟩ := h
    exact hpc

/-- What the server has still to send of an answer. -/
def Server.Unsent (server : Server D) (txSize : ℕ) (unsent : List Byte) : Prop :=
  match server.pc with
  | .writing length offset =>
      length = 16 + txSize ∧ offset < length ∧
        unsent = server.reply.slice offset (length - offset)
  | .header offset => offset = 0 ∧ unsent = []
  | .body _ _ | .closed => False

/-- A server that has sent all of its answer waits for the next message. -/
theorem Server.Unsent.header {server : Server D} {txSize : ℕ} (h : server.Unsent txSize []) :
    server.pc = .header 0 := by
  rw [Server.Unsent] at h
  split at h
  · obtain ⟨-, hlt, hnil⟩ := h
    have hlength := congrArg List.length hnil
    rw [Bytes.length_slice, List.length_nil] at hlength
    omega
  · rename_i hpc
    obtain ⟨rfl, -⟩ := h
    exact hpc
  · exact h.elim
  · exact h.elim

/-- The bytes of all these messages. -/
def messagesBytes (order : ByteOrder) (messages : List Message) : List Byte :=
  (messages.map (Message.bytes order)).flatten

/-- The messages the server has processed. -/
def processedMessages (history : List Event) : List Message :=
  (processed history).map fun entry => entry.1

/-- The answers the server has given. -/
def answers (history : List Event) : List Message :=
  (processed history).map fun entry => entry.2.2

/-- The replies the client has got. -/
def replies (history : List Event) : List Message :=
  (replied history).map fun entry => entry.1

/-- What is going on. -/
inductive Phase (order : ByteOrder) (state : State D) (history : List Event) : Prop where
  /-- nothing -/
  | idle (hclient : state.client.pc = .idle) (hserver : state.server.pc = .header 0)
      (hup : state.up = []) (hdown : state.down = [])
      (hprocessed : processedMessages history = sent history)
      (hreplies : replies history = answers history)
      (hconsumed : consumed history = messagesBytes order (sent history))
  /-- the last message the client has made up is on its way -/
  | request (past : List Message) (message : Message) (txSize : ℕ)
      (received unsent : List Byte) (hmessage : WellFormed order message txSize)
      (hclient : state.client.Unsent message txSize unsent)
      (hserver : state.server.Received order received) (hdown : state.down = [])
      (hbytes : received ++ (state.up ++ unsent) = message.bytes order)
      (hsent : sent history = past ++ [message])
      (hprocessed : processedMessages history = past)
      (hreplies : replies history = answers history)
      (hconsumed : consumed history = messagesBytes order past ++ received)
  /-- the last answer the server has given is on its way -/
  | reply (past : List Message) (answer : Message) (txSize offset : ℕ) (unsent : List Byte)
      (hlength : answer.payload.length = txSize) (htx : txSize ≤ sizeBody)
      (hclient : state.client.pc = .reading txSize offset) (hoffset : offset < 16 + txSize)
      (hserver : state.server.Unsent txSize unsent) (hup : state.up = [])
      (hbytes : state.client.msgbuf.slice 0 offset ++ (state.down ++ unsent) =
        answer.bytes order)
      (hprocessed : processedMessages history = sent history)
      (hanswers : answers history = past ++ [answer])
      (hreplies : replies history = past)
      (hconsumed : consumed history = messagesBytes order (sent history))

@[simp] theorem processedMessages_append (past events : List Event) :
    processedMessages (past ++ events) = processedMessages past ++ processedMessages events := by
  simp [processedMessages]

@[simp] theorem answers_append (past events : List Event) :
    answers (past ++ events) = answers past ++ answers events := by
  simp [answers]

@[simp] theorem replies_append (past events : List Event) :
    replies (past ++ events) = replies past ++ replies events := by
  simp [replies]

/-- What holds in every run. -/
structure Inv (order : ByteOrder) (state : State D) (history : List Event) : Prop where
  phase : Phase order state history
  sound : ∀ event ∈ history, event.Sound

section

variable {uapi : Uapi} {order : ByteOrder} {driver : Driver D}
variable {state next : State D} {history events : List Event}

theorem inv_start (order : ByteOrder) (ctx : VtunersCtx D) : Inv order (start ctx) [] :=
  ⟨.idle rfl rfl rfl rfl rfl rfl rfl, by simp⟩

/-- Events of one step join the history. -/
theorem Inv.extend (h : Inv order state history) (hphase : Phase order next (history ++ events))
    (hsound : ∀ event ∈ events, event.Sound) : Inv order next (history ++ events) := by
  refine ⟨hphase, fun event hmem => ?_⟩
  rw [List.mem_append] at hmem
  exact hmem.elim (h.sound event) (hsound event)

/-! ### The steps -/

theorem inv_issue (h : Inv order state history) (hidle : state.client.pc = .idle)
    {request : Request} {arg : Arg} {own : Option Bytes} {after : Client × List Event}
    (hissue : state.client.issue uapi order request arg own = some after) :
    Inv order { state with client := after.1 } (history ++ after.2) := by
  cases h.phase with
  | idle hclient hserver hup hdown hprocessed hreplies hconsumed =>
      simp only [Client.issue] at hissue
      split at hissue
      · cases hissue
      · obtain rfl := Option.some.inj hissue
        refine h.extend (.idle rfl hserver hup hdown ?_ ?_ ?_) (by simp [Event.Sound])
        · simpa [processedMessages, processed, sent] using hprocessed
        · simpa [replies, replied, answers, processed] using hreplies
        · simpa [consumed, sent] using hconsumed
      · rename_i mtype rxSize txSize body hprepare
        obtain rfl := Option.some.inj hissue
        refine h.extend (.request (sent history)
          ⟨vtunercHdr mtype rxSize txSize, body.slice 0 rxSize⟩ txSize [] _
          (wellFormed_of_prepare hprepare) ⟨by simp, rfl, by omega, rfl⟩ ?_ hdown ?_ ?_ ?_ ?_ ?_)
          (by simp [Event.Sound])
        · simp [Server.Received, hserver]
        · simpa [hup] using slice_messageBytes order (vtunercHdr mtype rxSize txSize) body rxSize
        · rw [sent_append]
          rfl
        · simpa [processedMessages, processed] using hprocessed
        · simpa [replies, replied, answers, processed] using hreplies
        · simpa [consumed] using hconsumed
  | request past message txSize received unsent hmessage hclient =>
      simp [Client.Unsent, hidle] at hclient
  | reply past answer txSize offset unsent hlength htx hclient =>
      cases hidle.symm.trans hclient

theorem inv_clientWrite (h : Inv order state history) {rxSize txSize offset count : ℕ}
    (hwriting : state.client.pc = .writing rxSize txSize offset)
    (hcount : count ≤ 16 + rxSize - offset) :
    Inv order
      { state with
        client := state.client.advance rxSize txSize (offset + count)
        up := state.up ++ state.client.msgbuf.slice offset count }
      (history ++ [.access offset (16 + rxSize - offset)]) := by
  cases h.phase with
  | idle hclient => cases hwriting.symm.trans hclient
  | reply past answer size start unsent hlength htx hclient =>
      cases hwriting.symm.trans hclient
  | request past message size received unsent hmessage hclient hserver hdown hbytes hsent
      hprocessed hreplies hconsumed =>
      simp only [Client.Unsent, hwriting] at hclient
      obtain ⟨rfl, rfl, hlt, rfl⟩ := hclient
      -- what has left the client is in the socket
      have hsplit := Bytes.slice_append state.client.msgbuf offset count
        (16 + message.payload.length - (offset + count))
      have hsum : count + (16 + message.payload.length - (offset + count)) =
          16 + message.payload.length - offset := by omega
      rw [hsum] at hsplit
      refine h.extend (.request past message txSize received
        (state.client.msgbuf.slice (offset + count)
          (16 + message.payload.length - (offset + count))) hmessage ?_ hserver hdown ?_ ?_ ?_
          ?_ ?_) ?_
      · rw [Client.advance]
        split
        · rename_i hmore
          exact ⟨rfl, rfl, hmore, rfl⟩
        · have hzero : 16 + message.payload.length - (offset + count) = 0 := by omega
          rw [hzero]
          exact ⟨rfl, rfl, rfl⟩
      · rw [List.append_assoc, hsplit]
        exact hbytes
      · simpa [sent] using hsent
      · simpa [processedMessages, processed] using hprocessed
      · simpa [replies, replied, answers, processed] using hreplies
      · simpa [consumed] using hconsumed
      · have hle := hmessage.rxSize_le
        simp only [List.mem_singleton, forall_eq, Event.Sound, sizeMessage]
        omega

theorem inv_serverRead (h : Inv order state history) {start length count : ℕ}
    (hwants : state.server.pc.wants = some (start, length)) (hpos : 1 ≤ count)
    (hcount : count ≤ length) (hup : count ≤ state.up.length) :
    Inv order
      { state with
        server := (state.server.receive uapi order driver (state.up.take count)).1
        up := state.up.drop count }
      (history ++ .access start length :: .consumed (state.up.take count) ::
        (state.server.receive uapi order driver (state.up.take count)).2) := by
  have hnonempty : state.up ≠ [] := by
    rintro hnil
    rw [hnil, List.length_nil] at hup
    omega
  cases h.phase with
  | idle hclient hserver hnil => exact absurd hnil hnonempty
  | reply past answer size offset unsent hlength htx hclient hoffset hserver hnil =>
      exact absurd hnil hnonempty
  | request past message size received unsent hmessage hclient hserver hdown hbytes hsent
      hprocessed hreplies hconsumed =>
      rw [← List.take_append_drop count state.up, List.append_assoc] at hbytes
      obtain ⟨hbound, hnext | ⟨hrest, ret, answer, hanswered⟩⟩ :=
        Server.receive_spec uapi driver hmessage hserver hbytes hwants
          (by rw [List.length_take]; omega)
      · obtain ⟨hreceived, hevents⟩ := hnext
        rw [hevents]
        refine h.extend (.request past message size (received ++ state.up.take count) unsent
          hmessage hclient hreceived hdown ?_ ?_ ?_ ?_ ?_) ?_
        · rw [List.append_assoc]
          exact hbytes
        · simpa [sent] using hsent
        · simpa [processedMessages, processed] using hprocessed
        · simpa [replies, replied, answers, processed] using hreplies
        · rw [consumed_append, hconsumed, List.append_assoc]
          simp [consumed]
        · simpa [Event.Sound] using hbound
      · obtain ⟨hdrop, rfl⟩ := List.append_eq_nil_iff.mp hrest
        have hreading := hclient.reading
        rw [hanswered.events]
        refine h.extend (.reply (answers history) answer size 0 (answer.bytes order)
          hanswered.length hmessage.txSize_le hreading (by omega) ?_ hdrop ?_ ?_ ?_ ?_ ?_) ?_
        · rw [Server.Unsent, hanswered.pc]
          exact ⟨rfl, by omega, by simpa using hanswered.bytes.symm⟩
        · simp [hdown]
        · rw [processedMessages_append, hprocessed, sent_append, hsent]
          simp [processedMessages, processed, sent]
        · rw [answers_append]
          rfl
        · simpa [replies, replied] using hreplies
        · rw [hdrop, List.append_nil, List.append_nil] at hbytes
          rw [consumed_append, hconsumed, sent_append, hsent]
          simp [consumed, sent, messagesBytes, ← hbytes]
        · simpa [Event.Sound, hanswered.error] using hbound

theorem inv_serverWrite (h : Inv order state history) {length offset count : ℕ}
    (hwriting : state.server.pc = .writing length offset) (hcount : count ≤ length - offset) :
    Inv order
      { state with
        server := state.server.advance length (offset + count)
        down := state.down ++ state.server.reply.slice offset count }
      (history ++ [.access offset (length - offset)]) := by
  cases h.phase with
  | idle hclient hserver => cases hwriting.symm.trans hserver
  | request past message size received unsent hmessage hclient hserver =>
      simp only [Server.Received, hwriting] at hserver
  | reply past answer size start unsent hlength htx hclient hoffset hserver hup hbytes
      hprocessed hanswers hreplies hconsumed =>
      simp only [Server.Unsent, hwriting] at hserver
      obtain ⟨rfl, hlt, rfl⟩ := hserver
      -- what has left the server is in the socket
      have hsplit := Bytes.slice_append state.server.reply offset count
        (16 + size - (offset + count))
      have hsum : count + (16 + size - (offset + count)) = 16 + size - offset := by omega
      rw [hsum] at hsplit
      refine h.extend (.reply past answer size start (state.server.reply.slice (offset + count)
        (16 + size - (offset + count))) hlength htx hclient hoffset ?_ hup ?_ ?_ ?_ ?_ ?_) ?_
      · rw [Server.advance]
        split
        · rename_i hmore
          exact ⟨rfl, hmore, rfl⟩
        · have hzero : 16 + size - (offset + count) = 0 := by omega
          rw [hzero]
          exact ⟨rfl, rfl⟩
      · rw [List.append_assoc, hsplit]
        exact hbytes
      · simpa [processedMessages, processed, sent] using hprocessed
      · simpa [answers, processed] using hanswers
      · simpa [replies, replied] using hreplies
      · simpa [consumed, sent] using hconsumed
      · simp only [List.mem_singleton, forall_eq, Event.Sound, sizeMessage]
        omega

/-- A reply that has arrived is the answer. -/
theorem reply_eq {msgbuf : Bytes} {answer : Message} {txSize : ℕ}
    (h : msgbuf.slice 0 (16 + txSize) = answer.bytes order) :
    (⟨Hdr.ofBytes order msgbuf, msgbuf.slice 16 txSize⟩ : Message) = answer := by
  have hsplit := Bytes.slice_append msgbuf 0 16 txSize
  rw [h, Message.bytes, Nat.zero_add] at hsplit
  obtain ⟨hheader, hpayload⟩ := List.append_inj hsplit (by simp)
  rw [ofBytes_of_slice hheader, hpayload]

theorem inv_clientRead (h : Inv order state history) {txSize offset count : ℕ}
    (hreading : state.client.pc = .reading txSize offset) (hpos : 1 ≤ count)
    (hcount : count ≤ 16 + txSize - offset) (hdown : count ≤ state.down.length) :
    Inv order
      { state with
        client := (state.client.receive order txSize offset (state.down.take count)).1
        down := state.down.drop count }
      (history ++ .access offset (16 + txSize - offset) ::
        (state.client.receive order txSize offset (state.down.take count)).2) := by
  cases h.phase with
  | idle hclient => cases hreading.symm.trans hclient
  | request past message size received unsent hmessage hclient hserver hnil =>
      rw [hnil, List.length_nil] at hdown
      omega
  | reply past answer size start unsent hlength htx hclient hoffset hserver hup hbytes
      hprocessed hanswers hreplies hconsumed =>
      obtain ⟨rfl, rfl⟩ := Client.Pc.reading.inj (hreading.symm.trans hclient)
      have hreceived : (state.down.take count).length = count := List.length_take_of_le hdown
      have hfilled := Bytes.slice_write_append state.client.msgbuf offset
        (state.down.take count)
      rw [← List.take_append_drop count state.down, List.append_assoc, ← List.append_assoc,
        ← hfilled, hreceived] at hbytes
      have hbound : offset + (16 + txSize - offset) ≤ sizeMessage := by
        rw [sizeMessage]
        omega
      simp only [Client.receive, hreceived]
      split
      · rename_i hmore
        refine h.extend (.reply past answer txSize (offset + count) unsent hlength htx rfl hmore
          hserver hup hbytes ?_ ?_ ?_ ?_) ?_
        · simpa [processedMessages, processed, sent] using hprocessed
        · simpa [answers, processed] using hanswers
        · simpa [replies, replied] using hreplies
        · simpa [consumed, sent] using hconsumed
        · simpa [Event.Sound] using hbound
      · rename_i hall
        obtain hsum : offset + count = 16 + txSize := by omega
        rw [hsum] at hbytes
        -- the answer is complete, so nothing is left behind it
        have hrest : state.down.drop count ++ unsent = [] := by
          have htotal := congrArg List.length hbytes
          rw [List.length_append, Bytes.length_slice, length_bytes, hlength] at htotal
          exact List.length_eq_zero_iff.mp (by omega)
        rw [hrest, List.append_nil] at hbytes
        obtain ⟨hdrop, rfl⟩ := List.append_eq_nil_iff.mp hrest
        have hreply := reply_eq hbytes
        have hhdr := congrArg Message.hdr hreply
        rw [hreply]
        refine h.extend (.idle rfl hserver.header hup hdrop ?_ ?_ ?_) ?_
        · simpa [processedMessages, processed, sent] using hprocessed
        · rw [replies_append, hreplies, answers_append, hanswers]
          simp [replies, replied, answers, processed]
        · simpa [consumed, sent] using hconsumed
        · intro event hmem
          simp only [List.mem_cons, List.not_mem_nil, or_false] at hmem
          rcases hmem with rfl | rfl
          · exact hbound
          · exact congrArg (fun hdr => hdr.error.toInt) hhdr

/-- One step of either side. -/
theorem inv_step (h : Inv order state history) {action : Action}
    (hstep : (machine uapi order driver).step state action = some (next, events)) :
    Inv order next (history ++ events) := by
  cases move_of_step hstep with
  | issue hidle hissue => exact inv_issue h hidle hissue
  | clientWrite hwriting _ hcount => exact inv_clientWrite h hwriting hcount
  | serverRead hwants hpos hcount hup => exact inv_serverRead h hwants hpos hcount hup
  | serverWrite hwriting _ hcount => exact inv_serverWrite h hwriting hcount
  | clientRead hreading hpos hcount hdown => exact inv_clientRead h hreading hpos hcount hdown

end

/-! ### Every run -/

section

variable {uapi : Uapi} {order : ByteOrder} {driver : Driver D} {ctx : VtunersCtx D}
variable {schedule : List Action} {last : State D} {history : List Event}

theorem inv_of_run (hrun : (machine uapi order driver).run (start ctx) schedule =
    some (last, history)) : Inv order last history := by
  have hinv := (machine uapi order driver).run_invariant
    (fun hprevious hnext => inv_step hprevious hnext) (inv_start order ctx) hrun
  rwa [List.nil_append] at hinv

/-- The messages and their bytes are in step, on both sides. -/
structure Framed (order : ByteOrder) (state : State D) (history : List Event) : Prop where
  /-- the `k`-th message processed is the `k`-th message sent -/
  processed : processedMessages history <+: sent history
  /-- the `k`-th reply is the `k`-th answer -/
  replies : replies history <+: answers history
  /-- the server reads the bytes of the messages, in order -/
  consumed : consumed history <+: messagesBytes order (sent history)
  /-- between two requests nothing is left -/
  quiet : state.client.pc = .idle →
    state.up = [] ∧ state.down = [] ∧ state.server.pc = .header 0 ∧
      processedMessages history = sent history ∧
      Control.replies history = answers history ∧
      Control.consumed history = messagesBytes order (sent history)

theorem Phase.framed {state : State D} (h : Phase order state history) :
    Framed order state history := by
  cases h with
  | idle hclient hserver hup hdown hprocessed hreplies hconsumed =>
      exact ⟨hprocessed ▸ List.prefix_rfl, hreplies ▸ List.prefix_rfl,
        hconsumed ▸ List.prefix_rfl,
        fun _ => ⟨hup, hdown, hserver, hprocessed, hreplies, hconsumed⟩⟩
  | request past message txSize received unsent hmessage hclient hserver hdown hbytes hsent
      hprocessed hreplies hconsumed =>
      refine ⟨?_, hreplies ▸ List.prefix_rfl, ?_, fun hidle => ?_⟩
      · rw [hprocessed, hsent]
        exact List.prefix_append _ _
      · rw [hconsumed, hsent]
        simp only [messagesBytes, List.map_append, List.map_cons, List.map_nil,
          List.flatten_append, List.flatten_cons, List.flatten_nil, List.append_nil]
        rw [List.prefix_append_right_inj, ← hbytes]
        exact List.prefix_append _ _
      · simp [Client.Unsent, hidle] at hclient
  | reply past answer txSize offset unsent hlength htx hclient hoffset hserver hup hbytes
      hprocessed hanswers hreplies hconsumed =>
      refine ⟨hprocessed ▸ List.prefix_rfl, ?_, hconsumed ▸ List.prefix_rfl, fun hidle => ?_⟩
      · rw [hreplies, hanswers]
        exact List.prefix_append _ _
      · cases hidle.symm.trans hclient

/-- A result that fits into the sixteen bits of `error` survives them. -/
theorem toInt_ofInt_of_fits {ret : ℤ} (hlow : -32768 ≤ ret) (hhigh : ret ≤ 32767) :
    (BitVec.ofInt 16 ret).toInt = ret := by
  rw [BitVec.toInt_ofInt, Int.bmod_eq_of_le (by omega) (by omega)]

/-- The value the client returns is the driver's. -/
theorem Inv.result {state : State D} (h : Inv order state history) {k : ℕ}
    {message answer reply : Message} {ret value : ℤ}
    (hprocessed : (processed history)[k]? = some (message, ret, answer))
    (hreplied : (replied history)[k]? = some (reply, value)) :
    reply = answer ∧ (-32768 ≤ ret → ret ≤ 32767 → value = ret) := by
  have hreply : (replies history)[k]? = some reply := by
    rw [replies, List.getElem?_map, hreplied]
    rfl
  have hanswer : (answers history)[k]? = some answer := by
    rw [answers, List.getElem?_map, hprocessed]
    rfl
  obtain ⟨rest, hrest⟩ := h.phase.framed.replies
  have hlater : (answers history)[k]? = some reply := by
    obtain ⟨hk, -⟩ := List.getElem?_eq_some_iff.mp hreply
    rw [← hrest, List.getElem?_append_left hk, hreply]
  obtain rfl : reply = answer := Option.some.inj (hlater.symm.trans hanswer)
  -- each side says what it does with the error of the message
  have herror : reply.hdr.error = BitVec.ofInt 16 ret := by
    obtain ⟨event, hmem, hevent⟩ := List.mem_filterMap.mp (List.mem_of_getElem? hprocessed)
    have hsound := h.sound event hmem
    split at hevent
    · obtain ⟨rfl, rfl, rfl⟩ := by simpa using hevent
      exact hsound
    · cases hevent
  have hvalue : value = reply.hdr.error.toInt := by
    obtain ⟨event, hmem, hevent⟩ := List.mem_filterMap.mp (List.mem_of_getElem? hreplied)
    have hsound := h.sound event hmem
    split at hevent
    · obtain ⟨rfl, rfl⟩ := by simpa using hevent
      exact hsound
    · cases hevent
  refine ⟨rfl, fun hlow hhigh => ?_⟩
  rw [hvalue, herror, toInt_ofInt_of_fits hlow hhigh]

end

/-- **The control channel keeps its messages apart.**  For every driver and every state of
the server, in every run, whatever the requests and however the transfers are cut up: the
messages, the replies and the bytes are in step; every call is given a range inside
`struct vtuner_message`; and the client's `k`-th reply is the server's answer to its `k`-th
message, with the driver's result as its value if that fits into sixteen bits. -/
theorem control_channel_framing (uapi : Uapi) (order : ByteOrder) (driver : Driver D)
    (ctx : VtunersCtx D) {schedule : List Action} {last : State D} {history : List Event}
    (hrun : (machine uapi order driver).run (start ctx) schedule = some (last, history)) :
    Framed order last history ∧
      (∀ start length, .access start length ∈ history → start + length ≤ sizeMessage) ∧
      ∀ (k : ℕ) (message : Message) (ret : ℤ) (answer reply : Message) (value : ℤ),
        (processed history)[k]? = some (message, ret, answer) →
        (replied history)[k]? = some (reply, value) →
        reply = answer ∧ (-32768 ≤ ret → ret ≤ 32767 → value = ret) := by
  have hinv := inv_of_run hrun
  exact ⟨hinv.phase.framed, fun start length hmem => hinv.sound _ hmem,
    fun k message ret answer reply value hprocessed hreplied =>
      hinv.result hprocessed hreplied⟩

/-- A device that refuses everything. -/
def refusingDriver : Driver Unit where
  property := fun _ _ dvb props => (-22, dvb, props)
  other := fun _ dvb body => (-22, dvb, body)

/-- `FE_SET_TONE` with the argument one, in pieces. -/
def setTone : List Action :=
  [.issue .feSetTone ⟨1, fun _ _ => 0, 0, fun _ => ⟨⟨0, fun _ => 0, fun _ => 0, 0, 0⟩,
      fun _ => 0⟩⟩ none,
    .clientWrite 7, .serverRead 5, .clientWrite 13, .serverRead 11, .serverRead 4,
    .serverWrite 16, .clientRead 3, .clientRead 13]

theorem control_channel_framing_setTone :
    ∃ last history, (machine idleUapi .little refusingDriver).run (start emptyCtx) setTone =
        some (last, history) ∧
      (sent history).map (fun message => (message.hdr.mtype, message.payload)) =
        [(39, [1, 0, 0, 0])] ∧
      (replied history).map Prod.snd = [-22] ∧ Framed .little last history := by
  have hsome : ((machine idleUapi .little refusingDriver).run (start emptyCtx)
      setTone).isSome = true := by
    decide
  obtain ⟨⟨last, history⟩, hrun⟩ := Option.isSome_iff_exists.mp hsome
  have hhistory : ((machine idleUapi .little refusingDriver).run (start emptyCtx) setTone).map
      (fun result => ((sent result.2).map (fun message => (message.hdr.mtype,
        message.payload)), (replied result.2).map Prod.snd)) =
      some ([(39, [1, 0, 0, 0])], [-22]) := by
    decide
  rw [hrun] at hhistory
  obtain ⟨hsent, hreplied⟩ := Prod.mk.inj (Option.some.inj hhistory)
  exact ⟨last, history, hrun, hsent, hreplied,
    (control_channel_framing idleUapi .little refusingDriver emptyCtx hrun).1⟩

end Webcamd.Vtuner.Control
