import Webcamd.Kernel.Smbus

/-!
# The SMBus functions for drivers

A model of the functions `i2c_smbus_read_byte` to `i2c_smbus_write_i2c_block_data` of
`kernel/linux_i2c.c`, for an adapter that has no `smbus_xfer` of its own.

* `Call.run` — a call of one of them.
* `Call.performed` — what SMBus says of it: the exchange, and what is made of the reply.
* `smbus_calls` — **every call does what SMBus says**, and no access is outside a buffer.
* `pec_detects_burst` — with the error code on, a reply is refused if there was an error burst of up
  to eight bits, in what was sent, in the reply or in both.
-/

namespace Webcamd.Kernel.Smbus

open Webcamd.Library CheckedBuffer

/-! ### The functions for drivers -/

/-- `struct i2c_client`, without its adapter -/
structure Client where
  addr : BitVec 16
  flags : BitVec 16

/-- The arguments that `i2c_smbus_xfer` passes on, with the flags that it lets through. -/
def Client.args (client : Client) (read : Bool) (command : Byte) (protocol : Protocol) : Args :=
  ⟨client.addr, client.flags &&& xferFlags, read, command, protocol⟩

/-- `i2c_smbus_xfer`, of an adapter that has no `smbus_xfer` -/
def i2cSmbusXfer (bus : Bus) (client : Client) (frame : Frame) (read : Bool) (command : Byte)
    (protocol : Protocol) (data : List Byte) : Option (ℤ × List Byte) :=
  i2cSmbusXferEmulated bus (client.args read command protocol) frame data

/-- A failure is passed on, and else a value taken from the data. -/
def valueOr (value : List Byte → Option ℤ) (result : ℤ × List Byte) : Option ℤ :=
  if result.1 < 0 then some result.1 else value result.2

/-- `data.byte` -/
def byteValue (data : List Byte) : Option ℤ := (load data 0).map fun byte => (byte.toNat : ℤ)

/-- `data.word` -/
def wordValue (data : List Byte) : Option ℤ := (loadWord data).map fun word => (word.toNat : ℤ)

/-- `memcpy(values, &data.block[1], data.block[0]); return data.block[0];` -/
def blockValue (values data : List Byte) : Option (ℤ × List Byte) :=
  (load data 0).bind fun count =>
    (copyLoop data 1 0 count.toNat values).map fun values => ((count.toNat : ℤ), values)

/-- `data.block[0] = length;` with the length not above the maximum -/
def putLength (length : Byte) (data : List Byte) : Option (List Byte) :=
  store data 0 (if length.toNat > blockMax then 32#8 else length)

/-- `memcpy(&data.block[1], values, length);` too -/
def putBlock (length : Byte) (values data : List Byte) : Option (List Byte) :=
  (putLength length data).bind fun data => copyLoop values 0 1 (min length.toNat blockMax) data

/-- `i2c_smbus_read_byte` -/
def i2cSmbusReadByte (bus : Bus) (client : Client) (frame : Frame) : Option ℤ :=
  (i2cSmbusXfer bus client frame true 0#8 .byte frame.data).bind (valueOr byteValue)

/-- `i2c_smbus_write_byte`; the data are `NULL`. -/
def i2cSmbusWriteByte (bus : Bus) (client : Client) (frame : Frame) (value : Byte) : Option ℤ :=
  (i2cSmbusXfer bus client frame false value .byte []).map Prod.fst

/-- `i2c_smbus_read_byte_data` -/
def i2cSmbusReadByteData (bus : Bus) (client : Client) (frame : Frame) (command : Byte) :
    Option ℤ :=
  (i2cSmbusXfer bus client frame true command .byteData frame.data).bind (valueOr byteValue)

/-- `i2c_smbus_write_byte_data` -/
def i2cSmbusWriteByteData (bus : Bus) (client : Client) (frame : Frame) (command value : Byte) :
    Option ℤ :=
  (store frame.data 0 value).bind fun data =>
    (i2cSmbusXfer bus client frame false command .byteData data).map Prod.fst

/-- `i2c_smbus_read_word_data` -/
def i2cSmbusReadWordData (bus : Bus) (client : Client) (frame : Frame) (command : Byte) :
    Option ℤ :=
  (i2cSmbusXfer bus client frame true command .wordData frame.data).bind (valueOr wordValue)

/-- `i2c_smbus_write_word_data` -/
def i2cSmbusWriteWordData (bus : Bus) (client : Client) (frame : Frame) (command : Byte)
    (value : BitVec 16) : Option ℤ :=
  (storeWord frame.data value).bind fun data =>
    (i2cSmbusXfer bus client frame false command .wordData data).map Prod.fst

/-- `i2c_smbus_process_call` -/
def i2cSmbusProcessCall (bus : Bus) (client : Client) (frame : Frame) (command : Byte)
    (value : BitVec 16) : Option ℤ :=
  (storeWord frame.data value).bind fun data =>
    (i2cSmbusXfer bus client frame false command .procCall data).bind (valueOr wordValue)

/-- `i2c_smbus_read_block_data`: the result, and the values after it. -/
def i2cSmbusReadBlockData (bus : Bus) (client : Client) (frame : Frame) (command : Byte)
    (values : List Byte) : Option (ℤ × List Byte) :=
  (i2cSmbusXfer bus client frame true command .blockData frame.data).bind fun result =>
    if result.1 ≠ 0 then some (result.1, values) else blockValue values result.2

/-- `i2c_smbus_write_block_data` -/
def i2cSmbusWriteBlockData (bus : Bus) (client : Client) (frame : Frame) (command length : Byte)
    (values : List Byte) : Option ℤ :=
  (putBlock length values frame.data).bind fun data =>
    (i2cSmbusXfer bus client frame false command .blockData data).map Prod.fst

/-- `i2c_smbus_read_i2c_block_data`: the result, and the values after it. -/
def i2cSmbusReadI2cBlockData (bus : Bus) (client : Client) (frame : Frame) (command length : Byte)
    (values : List Byte) : Option (ℤ × List Byte) :=
  (putLength length frame.data).bind fun data =>
    (i2cSmbusXfer bus client frame true command .i2cBlockData data).bind fun result =>
      if result.1 < 0 then some (result.1, values) else blockValue values result.2

/-- `i2c_smbus_write_i2c_block_data` -/
def i2cSmbusWriteI2cBlockData (bus : Bus) (client : Client) (frame : Frame)
    (command length : Byte) (values : List Byte) : Option ℤ :=
  (putBlock length values frame.data).bind fun data =>
    (i2cSmbusXfer bus client frame false command .i2cBlockData data).map Prod.fst

/-- A call of one of these functions. -/
inductive Call where
  | readByte
  | writeByte (value : Byte)
  | readByteData (command : Byte)
  | writeByteData (command value : Byte)
  | readWordData (command : Byte)
  | writeWordData (command : Byte) (value : BitVec 16)
  | processCall (command : Byte) (value : BitVec 16)
  | readBlockData (command : Byte) (values : List Byte)
  | writeBlockData (command length : Byte) (values : List Byte)
  | readI2cBlockData (command length : Byte) (values : List Byte)
  | writeI2cBlockData (command length : Byte) (values : List Byte)

/-- The driver's buffer, if it is written to. -/
def Call.values : Call → List Byte
  | readBlockData _ values | readI2cBlockData _ _ values => values
  | _ => []

/-- The call: the result, and the driver's buffer after it. -/
def Call.run (bus : Bus) (client : Client) (frame : Frame) : Call → Option (ℤ × List Byte)
  | readByte => (i2cSmbusReadByte bus client frame).map (·, [])
  | writeByte value => (i2cSmbusWriteByte bus client frame value).map (·, [])
  | readByteData command => (i2cSmbusReadByteData bus client frame command).map (·, [])
  | writeByteData command value =>
      (i2cSmbusWriteByteData bus client frame command value).map (·, [])
  | readWordData command => (i2cSmbusReadWordData bus client frame command).map (·, [])
  | writeWordData command value =>
      (i2cSmbusWriteWordData bus client frame command value).map (·, [])
  | processCall command value => (i2cSmbusProcessCall bus client frame command value).map (·, [])
  | readBlockData command values => i2cSmbusReadBlockData bus client frame command values
  | writeBlockData command length values =>
      (i2cSmbusWriteBlockData bus client frame command length values).map (·, [])
  | readI2cBlockData command length values =>
      i2cSmbusReadI2cBlockData bus client frame command length values
  | writeI2cBlockData command length values =>
      (i2cSmbusWriteI2cBlockData bus client frame command length values).map (·, [])

/-- The driver's buffer is as long as the call needs. -/
def Call.HasRoom : Call → Prop
  | readBlockData _ values => blockMax ≤ values.length
  | writeBlockData _ length values | readI2cBlockData _ length values
  | writeI2cBlockData _ length values => min length.toNat blockMax ≤ values.length
  | _ => True

/-! ### What the functions for drivers mean -/

/-- **The exchange of a call**; there always is one. -/
def Call.exchange : Call → Exchange
  | readByte => ⟨none, some (.bytes 1)⟩
  | writeByte value => ⟨some [value], none⟩
  | readByteData command => ⟨some [command], some (.bytes 1)⟩
  | writeByteData command value => ⟨some [command, value], none⟩
  | readWordData command => ⟨some [command], some (.bytes 2)⟩
  | writeWordData command value => ⟨some (command :: toBytes 2 value), none⟩
  | processCall command value => ⟨some (command :: toBytes 2 value), some (.bytes 2)⟩
  | readBlockData command _ => ⟨some [command], some .block⟩
  | writeBlockData command length values =>
      let count := min length.toNat blockMax
      ⟨some (command :: BitVec.ofNat 8 count :: values.take count), none⟩
  | readI2cBlockData command length _ => ⟨some [command], some (.bytes (min length.toNat blockMax))⟩
  | writeI2cBlockData command length values =>
      ⟨some (command :: values.take (min length.toNat blockMax)), none⟩

/-- The call has an error code, if the client has. -/
def Call.coded : Call → Bool
  | readI2cBlockData _ _ _ | writeI2cBlockData _ _ _ => false
  | _ => true

/-- **What a call makes of its reply.** -/
def Call.answer (reply : List Byte) : Call → ℤ × List Byte
  | readByte | readByteData _ | readWordData _ | processCall _ _ => ((ofBytes 16 reply).toNat, [])
  | readBlockData _ values =>
      ((reply.length : ℤ) - 1, overlay 0 reply.tail values)
  | readI2cBlockData _ _ values => (reply.length, overlay 0 reply values)
  | _ => (0, [])

/-- What becomes of the exchange of a call. -/
def Call.outcome (bus : Bus) (client : Client) (call : Call) : Except ℤ (List Byte) :=
  call.exchange.run bus client.addr (client.flags &&& xferFlags)
    (has (client.flags &&& xferFlags) clientPec && call.coded)

/-- The messages of a call. -/
def Call.wires (client : Client) (call : Call) : List Wire :=
  call.exchange.wires client.addr (client.flags &&& xferFlags)
    (has (client.flags &&& xferFlags) clientPec && call.coded)

/-- The bytes that come before a reply, with the addresses. -/
def Call.covered (client : Client) (call : Call) : List Byte :=
  call.exchange.covered client.addr (client.flags &&& xferFlags)

/-- What becomes of a call whose exchange came to an end. -/
def Call.settle (call : Call) : Except ℤ (List Byte) → ℤ × List Byte
  | .error status => (status, call.values)
  | .ok reply => call.answer reply

/-- **What SMBus says of a call.** -/
def Call.performed (bus : Bus) (client : Client) (call : Call) : ℤ × List Byte :=
  call.settle (call.outcome bus client)

variable {bus : Bus} {client : Client} {frame : Frame} {call : Call} {read : Bool} {command : Byte}
variable {protocol : Protocol} {data values : List Byte} {length : Byte}

theorem Client.masked (client : Client) (read : Bool) (command : Byte) (protocol : Protocol) :
    (client.args read command protocol).Masked := by
  unfold Args.Masked Client.args
  rw [BitVec.and_assoc, BitVec.and_self]

theorem Client.has_pec (client : Client) :
    has (client.flags &&& xferFlags) clientPec = has client.flags clientPec := by
  unfold has
  rw [BitVec.and_assoc, show xferFlags &&& clientPec = clientPec from rfl]

/-- The arguments ask for the exchange of the call. -/
structure Call.Asks (call : Call) (client : Client) (read : Bool) (command : Byte)
    (protocol : Protocol) (data : List Byte) : Prop where
  exchange : Smbus.exchange (client.args read command protocol) data = .ok call.exchange
  fits : (client.args read command protocol).Fits data
  coded : (decide (protocol ≠ .quick) && decide (protocol ≠ .i2cBlockData)) = call.coded

theorem Call.Asks.pec (h : call.Asks client read command protocol data) :
    (client.args read command protocol).pec =
      (has (client.flags &&& xferFlags) clientPec && call.coded) := by
  rw [← h.coded, ← Bool.and_assoc]
  rfl

/-- **What is left to show of a call**: a failure is passed on, and a reply is taken from where it
has been stored. -/
theorem Call.Asks.bind {next : ℤ × List Byte → Option (ℤ × List Byte)}
    (h : call.Asks client read command protocol data) (hhonest : Honest bus)
    (herror : ∀ status < 0, next (status, data) = some (status, call.values))
    (hreply : ∀ reply, (∀ expect, call.exchange.expects = some expect → expect.Replies reply) →
      next (0, overlay (client.args read command protocol).replyAt reply data) =
        some (call.answer reply)) :
    (i2cSmbusXfer bus client frame read command protocol data).bind next =
      some (call.performed bus client) := by
  unfold i2cSmbusXfer
  rw [i2cSmbusXferEmulated_exchange h.fits hhonest frame h.exchange, Option.bind_some]
  have houtcome : call.outcome bus client = call.exchange.run bus
      (client.args read command protocol).addr (client.args read command protocol).flags
      (client.args read command protocol).pec := by
    rw [h.pec]
    rfl
  unfold Call.performed
  rw [← houtcome]
  cases hrun : call.outcome bus client with
  | error status => exact herror status (Exchange.run_error hrun)
  | ok reply =>
      exact hreply reply fun expect hexpects =>
        Exchange.run_replies h.fits.masked hhonest (houtcome ▸ hrun) hexpects

/-! ### The data of a call -/

theorem Frame.data_cons (frame : Frame) :
    ∃ d0 d1 rest, frame.data = d0 :: d1 :: rest ∧ rest.length = blockMax := by
  obtain ⟨d0, data, hdata⟩ := List.exists_cons_of_length_eq_add_one frame.length_data
  have hlength := frame.length_data
  rw [hdata, List.length_cons] at hlength
  obtain ⟨d1, rest, rfl⟩ := List.exists_cons_of_length_eq_add_one (Nat.succ_injective hlength)
  exact ⟨d0, d1, rest, hdata, by simpa using hlength⟩

theorem storeWord_eq (word : BitVec 16) (old old' : Byte) (rest : List Byte) :
    storeWord (old :: old' :: rest) word = some (toBytes 2 word ++ rest) := rfl

/-- The length in the first byte is not above the maximum. -/
theorem putLength_eq (length old : Byte) (rest : List Byte) :
    putLength length (old :: rest) = some (BitVec.ofNat 8 (min length.toNat blockMax) :: rest) := by
  have hmax : blockMax = 32 := rfl
  have hbyte : (if length.toNat > blockMax then 32#8 else length) =
      BitVec.ofNat 8 (min length.toNat blockMax) := by
    by_cases hlength : length.toNat > blockMax
    · rw [if_pos hlength, Nat.min_eq_right hlength.le]
      rfl
    · rw [if_neg hlength, Nat.min_eq_left (not_lt.mp hlength), BitVec.ofNat_toNat,
        BitVec.setWidth_eq]
  unfold putLength
  rw [hbyte]
  rfl

/-- The length is what the first byte says. -/
theorem toNat_length (length : Byte) :
    (BitVec.ofNat 8 (min length.toNat blockMax)).toNat = min length.toNat blockMax := by
  have hmax : blockMax = 32 := rfl
  rw [BitVec.toNat_ofNat, Nat.mod_eq_of_lt (by omega)]

theorem putBlock_eq (old old' : Byte) {rest : List Byte} (hrest : rest.length = blockMax)
    (hvalues : min length.toNat blockMax ≤ values.length) :
    ∃ rest', rest'.length + min length.toNat blockMax = blockMax + 1 ∧
      putBlock length values (old :: old' :: rest) =
        some (BitVec.ofNat 8 (min length.toNat blockMax) ::
          values.take (min length.toNat blockMax) ++ rest') := by
  have hlength : (values.take (min length.toNat blockMax)).length = min length.toNat blockMax := by
    rw [List.length_take]
    omega
  refine ⟨(old' :: rest).drop (min length.toNat blockMax), ?_, ?_⟩
  · rw [List.length_drop, List.length_cons, hrest]
    omega
  · unfold putBlock
    rw [putLength_eq, Option.bind_some, copyLoop_eq (by omega)
      (by rw [List.length_cons, List.length_cons, hrest]; omega), List.drop_zero, overlay, hlength,
      Nat.add_comm 1]
    rfl

/-- The bytes of a block are copied to the driver. -/
theorem blockValue_eq {count : Byte} {block rest : List Byte} (hcount : block.length = count.toNat)
    (hvalues : block.length ≤ values.length) :
    blockValue values (count :: block ++ rest) =
      some ((block.length : ℤ), overlay 0 block values) := by
  unfold blockValue
  rw [List.cons_append, show load (count :: (block ++ rest)) 0 = some count from rfl,
    Option.bind_some, ← hcount, copyLoop_eq (by simp [Nat.add_comm]) (by omega), Option.map_some,
    List.drop_one, List.tail_cons, List.take_left]

theorem exchange_blockData {count : Byte} {sent : List Byte} (hsent : sent.length = count.toNat)
    (hcount : count.toNat ≤ blockMax) (client : Client) (command : Byte) (rest : List Byte) :
    exchange (client.args false command .blockData) (count :: sent ++ rest) =
      .ok ⟨some (command :: count :: sent), none⟩ := by
  refine (if_pos hcount).trans ?_
  show (.ok ⟨some (command :: (count :: sent ++ rest).take (count.toNat + 1)), none⟩ :
    Except ℤ Exchange) = _
  rw [List.cons_append, List.take_succ_cons, ← hsent, List.take_left]

theorem exchange_i2cBlockData {count : Byte} {sent : List Byte} (hsent : sent.length = count.toNat)
    (hcount : count.toNat ≤ blockMax) (client : Client) (command : Byte) (rest : List Byte) :
    exchange (client.args false command .i2cBlockData) (count :: sent ++ rest) =
      .ok ⟨some (command :: sent), none⟩ := by
  refine (if_pos hcount).trans ?_
  show (.ok ⟨some (command :: (sent ++ rest).take count.toNat), none⟩ : Except ℤ Exchange) = _
  rw [← hsent, List.take_left]

/-! ### The calls -/

/-- A call that only has a status. -/
theorem Call.Asks.status (h : call.Asks client read command protocol data)
    (hhonest : Honest bus) (hvalues : call.values = [])
    (hanswer : ∀ reply, call.answer reply = (0, [])) :
    ((i2cSmbusXfer bus client frame read command protocol data).map Prod.fst).map (·, []) =
      some (call.performed bus client) := by
  rw [Option.map_map, Option.map_eq_bind]
  refine h.bind hhonest (fun status _ => ?_) fun reply _ => ?_
  · rw [hvalues]
    rfl
  · rw [hanswer]
    rfl

/-- A call that returns a value. -/
theorem Call.Asks.value {value : List Byte → Option ℤ}
    (h : call.Asks client read command protocol data) (hhonest : Honest bus)
    (hvalues : call.values = [])
    (hanswer : ∀ reply, (∀ expect, call.exchange.expects = some expect → expect.Replies reply) →
      (value (overlay (client.args read command protocol).replyAt reply data)).map (·, []) =
        some (call.answer reply)) :
    ((i2cSmbusXfer bus client frame read command protocol data).bind (valueOr value)).map (·, []) =
      some (call.performed bus client) := by
  rw [Option.map_bind]
  refine h.bind hhonest (fun status hstatus => ?_) fun reply hreply => ?_
  · rw [Function.comp_apply, valueOr, if_pos hstatus, hvalues]
    rfl
  · rw [Function.comp_apply, valueOr, if_neg (lt_irrefl 0)]
    exact hanswer reply hreply

theorem byteValue_overlay {reply : List Byte} (hlength : reply.length = 1) (data : List Byte) :
    byteValue (overlay 0 reply data) = some ((ofBytes 16 reply).toNat : ℤ) := by
  obtain ⟨byte, rfl⟩ := List.length_eq_one_iff.mp hlength
  have hvalue : (ofBytes 16 [byte]).toNat = byte.toNat := by
    simp [ofBytes]
    omega
  rw [hvalue]
  rfl

theorem wordValue_overlay {reply : List Byte} (hlength : reply.length = 2) (data : List Byte) :
    wordValue (overlay 0 reply data) = some ((ofBytes 16 reply).toNat : ℤ) := by
  obtain ⟨low, high, rfl⟩ := List.length_eq_two.mp hlength
  rfl

theorem Client.fits (client : Client) (hprotocol : protocol ≠ .i2cBlockData)
    (hlength : data.length = blockMax + 2) : (client.args read command protocol).Fits data :=
  ⟨client.masked _ _ _, fun _ => hlength, fun h => absurd h hprotocol⟩

theorem Call.run_readByte (hhonest : Honest bus) (client : Client) (frame : Frame) :
    Call.readByte.run bus client frame = some (Call.readByte.performed bus client) := by
  refine Call.Asks.value ⟨rfl, client.fits (by decide) frame.length_data, rfl⟩ hhonest rfl
    fun reply hreply => ?_
  rw [show Args.replyAt _ = 0 from rfl, byteValue_overlay (hreply _ rfl)]
  rfl

theorem Call.run_writeByte (hhonest : Honest bus) (client : Client) (frame : Frame) (value : Byte) :
    (Call.writeByte value).run bus client frame =
      some ((Call.writeByte value).performed bus client) := by
  have hfits : (client.args false value .byte).Fits [] :=
    ⟨client.masked _ _ _, fun h => (by cases h), fun h => (by cases h)⟩
  exact Call.Asks.status ⟨rfl, hfits, rfl⟩ hhonest rfl fun _ => rfl

theorem Call.run_readByteData (hhonest : Honest bus) (client : Client) (frame : Frame)
    (command : Byte) :
    (Call.readByteData command).run bus client frame =
      some ((Call.readByteData command).performed bus client) := by
  refine Call.Asks.value ⟨rfl, client.fits (by decide) frame.length_data, rfl⟩ hhonest rfl
    fun reply hreply => ?_
  rw [show Args.replyAt _ = 0 from rfl, byteValue_overlay (hreply _ rfl)]
  rfl

theorem Call.run_writeByteData (hhonest : Honest bus) (client : Client) (frame : Frame)
    (command value : Byte) :
    (Call.writeByteData command value).run bus client frame =
      some ((Call.writeByteData command value).performed bus client) := by
  obtain ⟨d0, d1, rest, hdata, hrest⟩ := frame.data_cons
  have hlength : (value :: d1 :: rest).length = blockMax + 2 := by simp [hrest]
  unfold Call.run i2cSmbusWriteByteData
  dsimp only
  rw [hdata, show store (d0 :: d1 :: rest) 0 value = some (value :: d1 :: rest) from rfl,
    Option.bind_some]
  exact Call.Asks.status ⟨rfl, client.fits (by decide) hlength, rfl⟩ hhonest rfl fun _ => rfl

theorem Call.run_readWordData (hhonest : Honest bus) (client : Client) (frame : Frame)
    (command : Byte) :
    (Call.readWordData command).run bus client frame =
      some ((Call.readWordData command).performed bus client) := by
  refine Call.Asks.value ⟨rfl, client.fits (by decide) frame.length_data, rfl⟩ hhonest rfl
    fun reply hreply => ?_
  rw [show Args.replyAt _ = 0 from rfl, wordValue_overlay (hreply _ rfl)]
  rfl

theorem Call.run_writeWordData (hhonest : Honest bus) (client : Client) (frame : Frame)
    (command : Byte) (value : BitVec 16) :
    (Call.writeWordData command value).run bus client frame =
      some ((Call.writeWordData command value).performed bus client) := by
  obtain ⟨d0, d1, rest, hdata, hrest⟩ := frame.data_cons
  have hlength : (toBytes 2 value ++ rest).length = blockMax + 2 := by simp [toBytes, hrest]
  unfold Call.run i2cSmbusWriteWordData
  dsimp only
  rw [hdata, storeWord_eq, Option.bind_some]
  exact Call.Asks.status ⟨rfl, client.fits (by decide) hlength, rfl⟩ hhonest rfl fun _ => rfl

theorem Call.run_processCall (hhonest : Honest bus) (client : Client) (frame : Frame)
    (command : Byte) (value : BitVec 16) :
    (Call.processCall command value).run bus client frame =
      some ((Call.processCall command value).performed bus client) := by
  obtain ⟨d0, d1, rest, hdata, hrest⟩ := frame.data_cons
  have hlength : (toBytes 2 value ++ rest).length = blockMax + 2 := by simp [toBytes, hrest]
  unfold Call.run i2cSmbusProcessCall
  dsimp only
  rw [hdata, storeWord_eq, Option.bind_some]
  refine Call.Asks.value ⟨rfl, client.fits (by decide) hlength, rfl⟩ hhonest rfl
    fun reply hreply => ?_
  rw [show Args.replyAt _ = 0 from rfl, wordValue_overlay (hreply _ rfl)]
  rfl

theorem Call.run_readBlockData (hhonest : Honest bus) (client : Client) (frame : Frame)
    (command : Byte) (hroom : blockMax ≤ values.length) :
    (Call.readBlockData command values).run bus client frame =
      some ((Call.readBlockData command values).performed bus client) := by
  refine Call.Asks.bind ⟨rfl, client.fits (by decide) frame.length_data, rfl⟩ hhonest
    (fun status hstatus => if_pos hstatus.ne) fun reply hreply => ?_
  obtain ⟨count, hhead, hcount, hblock⟩ := hreply _ rfl
  obtain ⟨byte, block, rfl⟩ := List.exists_cons_of_length_eq_add_one hblock
  obtain rfl : byte = count := Option.some.inj hhead
  replace hblock : block.length = byte.toNat := Nat.succ_injective hblock
  rw [if_neg (by simp)]
  refine (blockValue_eq hblock (by omega)).trans ?_
  simp [Call.answer]

/-- The first bytes of what is sent, as many as the length says. -/
theorem length_take_toNat (hroom : min length.toNat blockMax ≤ values.length) :
    (values.take (min length.toNat blockMax)).length =
      (BitVec.ofNat 8 (min length.toNat blockMax)).toNat := by
  rw [toNat_length, List.length_take, Nat.min_eq_left hroom]

theorem Call.run_writeBlockData (hhonest : Honest bus) (client : Client) (frame : Frame)
    (command : Byte) (hroom : min length.toNat blockMax ≤ values.length) :
    (Call.writeBlockData command length values).run bus client frame =
      some ((Call.writeBlockData command length values).performed bus client) := by
  obtain ⟨d0, d1, rest, hdata, hrest⟩ := frame.data_cons
  have hcount := toNat_length length
  have hsent := length_take_toNat hroom
  obtain ⟨rest', hrest', hput⟩ := putBlock_eq d0 d1 hrest hroom
  unfold Call.run i2cSmbusWriteBlockData
  dsimp only
  rw [hdata, hput, Option.bind_some]
  have hasks := exchange_blockData hsent (hcount.trans_le (Nat.min_le_right _ _)) client command
    rest'
  refine Call.Asks.status ⟨hasks, client.fits (by decide) ?_, rfl⟩ hhonest rfl fun _ => rfl
  rw [List.length_append, List.length_cons, hsent, hcount]
  omega

theorem Call.run_readI2cBlockData (hhonest : Honest bus) (client : Client) (frame : Frame)
    (command : Byte) (hroom : min length.toNat blockMax ≤ values.length) :
    (Call.readI2cBlockData command length values).run bus client frame =
      some ((Call.readI2cBlockData command length values).performed bus client) := by
  obtain ⟨d0, d1, rest, hdata, hrest⟩ := frame.data_cons
  have hlength : (BitVec.ofNat 8 (min length.toNat blockMax) :: d1 :: rest).length =
      blockMax + 2 := by simp [hrest]
  have hcount := toNat_length length
  unfold Call.run i2cSmbusReadI2cBlockData
  dsimp only
  rw [hdata, putLength_eq, Option.bind_some]
  refine Call.Asks.bind ⟨?_, ⟨client.masked _ _ _, fun _ => hlength, fun _ _ => ?_⟩, rfl⟩
    hhonest (fun status hstatus => if_pos hstatus) fun reply hreply => ?_
  · show (.ok ⟨some [command], some (.bytes (BitVec.ofNat 8 _).toNat)⟩ : Except ℤ Exchange) = _
    rw [hcount]
    rfl
  · rw [List.getD_cons_zero, hcount]
    exact (Nat.min_le_right _ _).trans (Nat.le_succ _)
  · replace hreply : reply.length = min length.toNat blockMax := hreply _ rfl
    rw [if_neg (lt_irrefl 0)]
    exact blockValue_eq (hreply.trans hcount.symm) (hreply.trans_le hroom)

theorem Call.run_writeI2cBlockData (hhonest : Honest bus) (client : Client) (frame : Frame)
    (command : Byte) (hroom : min length.toNat blockMax ≤ values.length) :
    (Call.writeI2cBlockData command length values).run bus client frame =
      some ((Call.writeI2cBlockData command length values).performed bus client) := by
  obtain ⟨d0, d1, rest, hdata, hrest⟩ := frame.data_cons
  have hcount := toNat_length length
  have hsent := length_take_toNat hroom
  obtain ⟨rest', hrest', hput⟩ := putBlock_eq d0 d1 hrest hroom
  unfold Call.run i2cSmbusWriteI2cBlockData
  dsimp only
  rw [hdata, hput, Option.bind_some]
  have hasks := exchange_i2cBlockData hsent (hcount.trans_le (Nat.min_le_right _ _)) client
    command rest'
  refine Call.Asks.status ⟨hasks, ⟨client.masked _ _ _, fun _ => ?_, fun _ h => (by cases h)⟩, rfl⟩
    hhonest rfl fun _ => rfl
  rw [List.length_append, List.length_cons, hsent, hcount]
  omega

theorem Call.run_eq (hhonest : Honest bus) (client : Client) (frame : Frame) (call : Call)
    (hroom : call.HasRoom) : call.run bus client frame = some (call.performed bus client) := by
  cases call with
  | readByte => exact Call.run_readByte hhonest client frame
  | writeByte value => exact Call.run_writeByte hhonest client frame value
  | readByteData command => exact Call.run_readByteData hhonest client frame command
  | writeByteData command value => exact Call.run_writeByteData hhonest client frame command value
  | readWordData command => exact Call.run_readWordData hhonest client frame command
  | writeWordData command value => exact Call.run_writeWordData hhonest client frame command value
  | processCall command value => exact Call.run_processCall hhonest client frame command value
  | readBlockData command values => exact Call.run_readBlockData hhonest client frame command hroom
  | writeBlockData command length values =>
      exact Call.run_writeBlockData hhonest client frame command hroom
  | readI2cBlockData command length values =>
      exact Call.run_readI2cBlockData hhonest client frame command hroom
  | writeI2cBlockData command length values =>
      exact Call.run_writeI2cBlockData hhonest client frame command hroom

/-- **Every call does what SMBus says**: for every adapter that keeps to the interface, whatever is
on the stack, the result is that of the exchange, and no access is outside a buffer. -/
theorem smbus_calls (hhonest : Honest bus) (client : Client) (frame : Frame) (call : Call)
    (hroom : call.HasRoom) : call.run bus client frame = some (call.performed bus client) :=
  Call.run_eq hhonest client frame call hroom

/-- An adapter that has an answer to some messages, and `ENXIO` for all others. -/
def answering (wires : List Wire) (bytes : List Byte) : Bus :=
  fun wires' => if wires' = wires then (wires.length, [bytes]) else (-6, [])

theorem answering_honest {wires : List Wire} {wire : Wire} {bytes : List Byte}
    (hwire : wires.filter Wire.isRead = [wire]) (hbytes : Received wire bytes) :
    Honest (answering wires bytes) := by
  intro wires' hstatus
  unfold answering at hstatus ⊢
  split_ifs at hstatus ⊢ with hwires
  · rw [hwires, hwire]
    exact .cons hbytes .nil
  · cases hstatus

/-- A stack that is all zeros. -/
def Frame.zero : Frame where
  msgbuf0 := List.replicate (blockMax + 3) 0#8
  msgbuf1 := List.replicate (blockMax + 2) 0#8
  data := List.replicate (blockMax + 2) 0#8
  length_msgbuf0 := List.length_replicate
  length_msgbuf1 := List.length_replicate
  length_data := List.length_replicate

/-- A byte is read from a register. -/
theorem smbus_calls_register :
    (Call.readByteData 0x10#8).run
      (answering [.write 0x50#16 0#16 [0x10#8], .read 0x50#16 1#16 1] [0x2a#8]) ⟨0x50#16, 0#16⟩
      .zero = some (42, []) :=
  smbus_calls (by exact answering_honest rfl rfl) ⟨0x50#16, 0#16⟩ .zero (.readByteData 0x10#8)
    trivial

/-! ### Errors on the wire -/

/-- The exchange of a call with an error code, where the adapter has not failed. -/
theorem Call.outcome_coded (hpec : has client.flags clientPec = true) (hcoded : call.coded = true)
    (hexpects : call.exchange.expects.isSome = true)
    (hstatus : 0 ≤ (bus (call.wires client)).1) :
    call.outcome bus client =
      if i2cSmbusPec 0#8 (call.covered client ++ (bus (call.wires client)).2.flatten) = 0#8 then
        .ok (bus (call.wires client)).2.flatten.dropLast
      else .error (-ebadmsg) := by
  have hflag := client.has_pec
  rw [hpec] at hflag
  have hwires : call.wires client = call.exchange.wires client.addr (client.flags &&& xferFlags)
      true := by
    unfold Call.wires
    rw [hflag, hcoded]
    rfl
  rw [hwires] at hstatus ⊢
  unfold Call.outcome Exchange.run
  rw [hflag, hcoded, Bool.and_self]
  dsimp only
  rw [if_neg (not_lt.mpr hstatus), if_neg (by simpa [Option.isSome_iff_ne_none] using hexpects),
    if_pos rfl]
  rfl

/-- **An error burst is detected.**  The device has seen or sent some bytes, the addresses among
them, and sends the error code of all of them last.  The reply is accepted if the two sides agree on
all bytes, and refused if they differ in a burst of up to eight bits. -/
theorem pec_detects_burst (hhonest : Honest bus) (client : Client) (frame : Frame) (call : Call)
    (hroom : call.HasRoom) (hpec : has client.flags clientPec = true) (hcoded : call.coded = true)
    (hexpects : call.exchange.expects.isSome = true)
    (hstatus : 0 ≤ (bus (call.wires client)).1) (seen : List Byte) :
    (call.covered client ++ (bus (call.wires client)).2.flatten = seen ++ [i2cSmbusPec 0#8 seen] →
        call.run bus client frame =
          some (call.answer (bus (call.wires client)).2.flatten.dropLast)) ∧
      (Burst 8 ((seen ++ [i2cSmbusPec 0#8 seen]).flatMap bitsOf)
          ((call.covered client ++ (bus (call.wires client)).2.flatten).flatMap bitsOf) →
        call.run bus client frame = some (-ebadmsg, call.values)) := by
  have hzero : i2cSmbusPec 0#8 (seen ++ [i2cSmbusPec 0#8 seen]) = 0#8 :=
    (i2cSmbusPec_concat_eq_zero_iff _ _).mpr rfl
  rw [Call.run_eq hhonest client frame call hroom]
  unfold Call.performed
  rw [Call.outcome_coded hpec hcoded hexpects hstatus]
  refine ⟨fun hagree => ?_, fun hburst => ?_⟩
  · rw [hagree, if_pos hzero]
    rfl
  · rw [if_neg (hzero ▸ i2cSmbusPec_ne_of_burst 0#8 hburst).symm]
    rfl

/-- The same byte with its error code, and with one bit of it wrong. -/
theorem pec_detects_burst_register :
    (Call.readByteData 0x10#8).run
        (answering [.write 0x50#16 4#16 [0x10#8], .read 0x50#16 5#16 2] [0x2a#8, 0x86#8])
        ⟨0x50#16, 4#16⟩ .zero = some (42, []) ∧
      (Call.readByteData 0x10#8).run
        (answering [.write 0x50#16 4#16 [0x10#8], .read 0x50#16 5#16 2] [0x2b#8, 0x86#8])
        ⟨0x50#16, 4#16⟩ .zero = some (-ebadmsg, []) :=
  ⟨(pec_detects_burst (by exact answering_honest rfl rfl) ⟨0x50#16, 4#16⟩ .zero
      (.readByteData 0x10#8) trivial (by decide) rfl rfl (by decide)
      [0xa0#8, 0x10#8, 0xa1#8, 0x2a#8]).1 (by decide +kernel),
    (pec_detects_burst (by exact answering_honest rfl rfl) ⟨0x50#16, 4#16⟩ .zero
      (.readByteData 0x10#8) trivial (by decide) rfl rfl (by decide)
      [0xa0#8, 0x10#8, 0xa1#8, 0x2a#8]).2
        ⟨([0xa0#8, 0x10#8, 0xa1#8, 0x2a#8].flatMap bitsOf).take 31, [false], [true], bitsOf 0x86#8,
          by decide +kernel, by decide +kernel, rfl, by decide, by decide⟩⟩

/-- The same of what is written: the device finds the error code in order, and not after a burst. -/
theorem written_burst (client : Client) (call : Call) (hpec : has client.flags clientPec = true)
    (hcoded : call.coded = true) (hexpects : call.exchange.expects = none) :
    ∃ bytes, call.wires client = [.write client.addr (client.flags &&& xferFlags) bytes] ∧
      i2cSmbusPec 0#8 (addr8 client.addr (client.flags &&& xferFlags) :: bytes) = 0#8 ∧
      ∀ seen, Burst 8 (seen.flatMap bitsOf)
          ((addr8 client.addr (client.flags &&& xferFlags) :: bytes).flatMap bitsOf) →
        i2cSmbusPec 0#8 seen ≠ 0#8 := by
  have hflag := client.has_pec
  rw [hpec] at hflag
  obtain ⟨sent, hsent⟩ : ∃ sent, call.exchange = ⟨some sent, none⟩ := by
    cases call <;> first | exact ⟨_, rfl⟩ | cases hexpects
  have hzero := (i2cSmbusPec_concat_eq_zero_iff
    (addr8 client.addr (client.flags &&& xferFlags) :: sent) _).mpr rfl
  refine ⟨_, ?_, hzero, fun seen hburst hseen =>
    i2cSmbusPec_ne_of_burst 0#8 hburst (hseen.trans hzero.symm)⟩
  unfold Call.wires
  rw [hflag, hcoded, hsent, wires_write]
  rfl

end Webcamd.Kernel.Smbus
