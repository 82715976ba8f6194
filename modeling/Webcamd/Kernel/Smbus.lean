import Mathlib
import Webcamd.Library.BurstDetection
import Webcamd.Library.CheckedBuffer
import Webcamd.Library.LittleEndian

/-!
# SMBus over I2C messages

A model of `i2c_smbus_xfer_emulated` of `kernel/linux_i2c.c` and of the packet error code (PEC).
The two message buffers are on the stack, with whatever was there, and every access to them and to
the caller's data is checked.

* `i2cSmbusPec`, `i2cSmbusAddPec`, `i2cSmbusCheckPec` — the error code.
* `i2cSmbusXferEmulated` — the messages are put together, transferred, and taken apart.
* `Exchange` — what SMBus says: some bytes are sent, some are expected, and the error code of all
  of them, with the addresses, comes last.
* `i2cSmbusXferEmulated_eq` — **the messages are those of the exchange**, and the reply is what was
  received; no access is outside a buffer.
* `i2cSmbusPec_ne_of_burst` — an error burst of up to eight bits changes the code.

What the adapter does is a function `Bus`.  A word is stored with its low byte first.
-/

namespace Webcamd.Kernel.Smbus

open Webcamd.Library CheckedBuffer

abbrev Byte := BitVec 8

/-! ### The error code -/

/-- `POLY` -/
def poly : BitVec 16 := 0x1070#16 <<< 3

/-- The body of the loop of `crc8`. -/
def crc8Step (data : BitVec 16) : BitVec 16 :=
  (if data &&& 0x8000#16 ≠ 0#16 then data ^^^ poly else data) <<< 1

/-- `crc8` -/
def crc8 (data : BitVec 16) : Byte := (crc8Step^[8] data >>> 8).setWidth 8

/-- `i2c_smbus_pec`, of the `count` bytes from `p` on. -/
def i2cSmbusPec (crc : Byte) (p : List Byte) : Byte :=
  p.foldl (fun crc byte => crc8 ((crc ^^^ byte).setWidth 16 <<< 8)) crc

/-- `I2C_M_RD` -/
def mRd : BitVec 16 := 0x0001#16

/-- `I2C_M_RECV_LEN` -/
def mRecvLen : BitVec 16 := 0x0400#16

/-- `I2C_CLIENT_PEC` -/
def clientPec : BitVec 16 := 0x0004#16

/-- `I2C_M_TEN | I2C_CLIENT_PEC | I2C_CLIENT_SCCB`, the flags that `i2c_smbus_xfer` lets through -/
def xferFlags : BitVec 16 := 0x0010#16 ||| clientPec ||| 0x9000#16

/-- `struct i2c_msg` -/
structure Msg where
  addr : BitVec 16
  flags : BitVec 16
  len : ℕ
  buf : List Byte

/-- Some bit of the mask is set. -/
def has (flags mask : BitVec 16) : Bool := decide (flags &&& mask ≠ 0#16)

/-- `i2c_8bit_addr_from_msg` -/
def addr8 (addr flags : BitVec 16) : Byte :=
  (addr <<< 1 ||| if has flags mRd then 1#16 else 0#16).setWidth 8

/-- The bytes of a message, if they are inside its buffer. -/
def Msg.bytes (msg : Msg) : Option (List Byte) :=
  if msg.len ≤ msg.buf.length then some (msg.buf.take msg.len) else none

/-- `i2c_smbus_msg_pec` -/
def i2cSmbusMsgPec (pec : Byte) (msg : Msg) : Option Byte :=
  msg.bytes.map fun bytes => i2cSmbusPec (i2cSmbusPec pec [addr8 msg.addr msg.flags]) bytes

/-- `i2c_smbus_add_pec` -/
def i2cSmbusAddPec (msg : Msg) : Option Msg :=
  (i2cSmbusMsgPec 0#8 msg).bind fun pec =>
    (store msg.buf msg.len pec).map fun buf => { msg with buf := buf, len := msg.len + 1 }

/-- `EBADMSG` -/
def ebadmsg : ℤ := 89

/-- `EINVAL` -/
def einval : ℤ := 22

/-- `EOPNOTSUPP` -/
def eopnotsupp : ℤ := 45

/-- `i2c_smbus_check_pec` -/
def i2cSmbusCheckPec (cpec : Byte) (msg : Msg) : Option ℤ :=
  (load msg.buf ((msg.len : ℤ) - 1)).bind fun rpec =>
    (i2cSmbusMsgPec cpec { msg with len := msg.len - 1 }).map fun cpec =>
      if rpec ≠ cpec then -ebadmsg else 0

/-! ### The adapter -/

/-- What the adapter sees of a message. -/
inductive Wire where
  | write (addr flags : BitVec 16) (bytes : List Byte)
  | read (addr flags : BitVec 16) (len : ℕ)
  deriving DecidableEq

/-- `i2c_transfer`: the status, and what is received for the messages that read. -/
abbrev Bus := List Wire → ℤ × List (List Byte)

/-- The adapter reads a message that is inside its buffer. -/
def Msg.wire (msg : Msg) : Option Wire :=
  if has msg.flags mRd then
    if msg.len ≤ msg.buf.length then some (.read msg.addr msg.flags msg.len) else none
  else msg.bytes.map (.write msg.addr msg.flags)

/-- The adapter stores what it has received, and says how much that is. -/
def Msg.receive (msg : Msg) (bytes : List Byte) : Option Msg :=
  if bytes.length ≤ msg.buf.length then some { msg with
    buf := bytes ++ msg.buf.drop bytes.length
    len := if has msg.flags mRecvLen then bytes.length else msg.len }
  else none

/-- Every message that reads gets its bytes. -/
def receiveAll : List Msg → List (List Byte) → Option (List Msg)
  | [], _ => some []
  | msg :: msgs, received =>
      if has msg.flags mRd then
        received.head?.bind fun bytes => (msg.receive bytes).bind fun msg =>
          (receiveAll msgs received.tail).map (msg :: ·)
      else (receiveAll msgs received).map (msg :: ·)

/-- `i2c_transfer` of some messages -/
def i2cTransfer (bus : Bus) (msgs : List Msg) : Option (ℤ × List Msg) :=
  (msgs.mapM Msg.wire).bind fun wires =>
    if (bus wires).1 < 0 then some ((bus wires).1, msgs)
    else (receiveAll msgs (bus wires).2).map fun msgs => ((bus wires).1, msgs)

/-! ### `i2c_smbus_xfer_emulated` -/

/-- `size` -/
inductive Protocol where
  | quick
  | byte
  | byteData
  | wordData
  | procCall
  | blockData
  | blockProcCall
  | i2cBlockData
  | other
  deriving DecidableEq

/-- The arguments, without the data. -/
structure Args where
  addr : BitVec 16
  flags : BitVec 16
  /-- `read_write == I2C_SMBUS_READ` -/
  read : Bool
  command : Byte
  size : Protocol

/-- `I2C_SMBUS_BLOCK_MAX` -/
def blockMax : ℕ := 32

/-- What is on the stack: the two message buffers, and the `union i2c_smbus_data` of a caller. -/
structure Frame where
  msgbuf0 : List Byte
  msgbuf1 : List Byte
  data : List Byte
  length_msgbuf0 : msgbuf0.length = blockMax + 3
  length_msgbuf1 : msgbuf1.length = blockMax + 2
  length_data : data.length = blockMax + 2

/-- A loop that copies bytes, from `src[i]` on to `dst[j]` on. -/
def copyLoop (src : List Byte) : (i j count : ℕ) → List Byte → Option (List Byte)
  | _, _, 0, dst => some dst
  | i, j, count + 1, dst => (load src i).bind fun byte =>
      (store dst j byte).bind (copyLoop src (i + 1) (j + 1) count)

/-- `data->word` -/
def loadWord (buf : List Byte) : Option (BitVec 16) :=
  (load buf 0).bind fun low => (load buf 1).map fun high => ofBytes 16 [low, high]

/-- `data->word = word` -/
def storeWord (buf : List Byte) (word : BitVec 16) : Option (List Byte) :=
  (store buf 0 (word.setWidth 8)).bind fun buf => store buf 1 ((word >>> 8).setWidth 8)

/-- `msgbuf0[1] = data->word & 0xff; msgbuf0[2] = data->word >> 8;` -/
def putWord (data buf : List Byte) : Option (List Byte) :=
  (loadWord data).bind fun word => (store buf 1 ((word &&& 0xff#16).setWidth 8)).bind fun buf =>
    store buf 2 ((word >>> 8).setWidth 8)

/-- `num`, `read_write` and `msg`, as the `switch` leaves them. -/
structure Prepared where
  num : ℕ
  read : Bool
  msg0 : Msg
  msg1 : Msg

/-- The code up to the end of the first `switch`. -/
def prepare (args : Args) (frame : Frame) (data : List Byte) : Option (Except ℤ Prepared) :=
  (store frame.msgbuf0 0 args.command).bind fun buf =>
    let msg0 : Msg := ⟨args.addr, args.flags, 1, buf⟩
    let msg1 : Msg := ⟨args.addr, args.flags ||| mRd, 0, frame.msgbuf1⟩
    let num := if args.read then 2 else 1
    match args.size with
    | .quick => some (.ok ⟨1, args.read, { msg0 with
        len := 0, flags := args.flags ||| if args.read then mRd else 0#16 }, msg1⟩)
    | .byte =>
        if args.read then some (.ok ⟨1, args.read, { msg0 with flags := mRd ||| args.flags }, msg1⟩)
        else some (.ok ⟨num, args.read, msg0, msg1⟩)
    | .byteData =>
        if args.read then some (.ok ⟨num, args.read, msg0, { msg1 with len := 1 }⟩)
        else (load data 0).bind fun byte => (store buf 1 byte).map fun buf =>
          .ok ⟨num, args.read, { msg0 with len := 2, buf := buf }, msg1⟩
    | .wordData =>
        if args.read then some (.ok ⟨num, args.read, msg0, { msg1 with len := 2 }⟩)
        else (putWord data buf).map fun buf =>
          .ok ⟨num, args.read, { msg0 with len := 3, buf := buf }, msg1⟩
    | .procCall => (putWord data buf).map fun buf =>
        .ok ⟨2, true, { msg0 with len := 3, buf := buf }, { msg1 with len := 2 }⟩
    | .blockData =>
        if args.read then some (.ok ⟨num, args.read, msg0, { msg1 with
          flags := msg1.flags ||| mRecvLen, len := 1 }⟩)
        else (load data 0).bind fun count =>
          if count.toNat + 2 > blockMax + 2 then some (.error einval)
          else (copyLoop data 0 1 (count.toNat + 1) buf).map fun buf =>
            .ok ⟨num, args.read, { msg0 with len := count.toNat + 2, buf := buf }, msg1⟩
    | .blockProcCall => (load data 0).bind fun count =>
        if count.toNat > blockMax then some (.error einval)
        else (copyLoop data 0 1 (count.toNat + 1) buf).map fun buf =>
          .ok ⟨2, true, { msg0 with len := count.toNat + 2, buf := buf }, { msg1 with
            flags := msg1.flags ||| mRecvLen, len := 1 }⟩
    | .i2cBlockData => (load data 0).bind fun count =>
        if args.read then some (.ok ⟨num, args.read, msg0, { msg1 with len := count.toNat }⟩)
        else if count.toNat + 1 > blockMax + 1 then some (.error einval)
        else (copyLoop data 1 1 count.toNat buf).map fun buf =>
          .ok ⟨num, args.read, { msg0 with len := count.toNat + 1, buf := buf }, msg1⟩
    | .other => some (.error eopnotsupp)

/-- `i`: the transfer has an error code. -/
def Args.pec (args : Args) : Bool :=
  has args.flags clientPec && decide (args.size ≠ .quick) && decide (args.size ≠ .i2cBlockData)

/-- `msg[num - 1]` -/
def Prepared.last (p : Prepared) : Msg := if p.num = 1 then p.msg0 else p.msg1

/-- The first `num` messages. -/
def Prepared.msgs (p : Prepared) : List Msg := if p.num = 1 then [p.msg0] else [p.msg0, p.msg1]

/-- The messages again, after the transfer. -/
def Prepared.update (p : Prepared) : List Msg → Prepared
  | [msg0] => { p with msg0 := msg0 }
  | [msg0, msg1] => { p with msg0 := msg0, msg1 := msg1 }
  | _ => p

/-- `msg[num - 1].len++` -/
def Prepared.lengthen (p : Prepared) : Prepared :=
  if p.num = 1 then { p with msg0 := { p.msg0 with len := p.msg0.len + 1 } }
  else { p with msg1 := { p.msg1 with len := p.msg1.len + 1 } }

/-- The error code is added to what is written, or room for it to what is read: the messages, and
`partial_pec`. -/
def protect (p : Prepared) : Option (Prepared × Byte) :=
  (if has p.msg0.flags mRd then some (p, 0#8)
    else if p.num = 1 then (i2cSmbusAddPec p.msg0).map fun msg0 => ({ p with msg0 := msg0 }, 0#8)
    else (i2cSmbusMsgPec 0#8 p.msg0).map fun cpec => (p, cpec)).map fun guarded =>
      (if has guarded.1.last.flags mRd then guarded.1.lengthen else guarded.1, guarded.2)

/-- The second `switch`: the data after it. -/
def finish (args : Args) (p : Prepared) (data : List Byte) : Option (List Byte) :=
  if p.read then
    match args.size with
    | .byte => (load p.msg0.buf 0).bind (store data 0)
    | .byteData => (load p.msg1.buf 0).bind (store data 0)
    | .wordData | .procCall => (loadWord p.msg1.buf).bind (storeWord data)
    | .i2cBlockData => (load data 0).bind fun count => copyLoop p.msg1.buf 0 1 count.toNat data
    | .blockData | .blockProcCall =>
        (load p.msg1.buf 0).bind fun count => copyLoop p.msg1.buf 0 0 (count.toNat + 1) data
    | .quick | .other => some data
  else some data

/-- **`i2c_smbus_xfer_emulated`**: the result and the data after it; `none` is an access outside a
buffer. -/
def i2cSmbusXferEmulated (bus : Bus) (args : Args) (frame : Frame) (data : List Byte) :
    Option (ℤ × List Byte) :=
  (prepare args frame data).bind fun
    | .error error => some (-error, data)
    | .ok p =>
        (if args.pec then protect p else some (p, 0#8)).bind fun guarded =>
          (i2cTransfer bus guarded.1.msgs).bind fun transferred =>
            if transferred.1 < 0 then some (transferred.1, data)
            else
              let p := guarded.1.update transferred.2
              (if args.pec && has p.last.flags mRd then i2cSmbusCheckPec guarded.2 p.last
                else some 0).bind fun status =>
                  if status < 0 then some (status, data)
                  else (finish args p data).map fun data => (0, data)

/-! ### The error code as a register -/

/-- `POLY`, as the register takes it. -/
def feedback : Byte := 0x07#8

theorem crc8Step_eq (x : Byte) :
    crc8Step (x.setWidth 16 <<< 8) = (shiftHigh feedback x).setWidth 16 <<< 8 := by
  revert x
  decide +kernel

theorem iterate_crc8Step_eq (x : Byte) (count : ℕ) :
    crc8Step^[count] (x.setWidth 16 <<< 8) =
      ((shiftHigh feedback)^[count] x).setWidth 16 <<< 8 := by
  induction count generalizing x with
  | zero => rfl
  | succ count ih =>
      rw [Function.iterate_succ_apply, crc8Step_eq, ih, ← Function.iterate_succ_apply]

theorem setWidth_shift (x : Byte) : ((x.setWidth 16 <<< 8) >>> 8).setWidth 8 = x := by
  revert x
  decide +kernel

/-- **The error code is a shift register** over the bytes. -/
theorem i2cSmbusPec_eq (crc : Byte) (p : List Byte) :
    i2cSmbusPec crc p = p.foldl (absorbHigh feedback) crc := by
  have hbyte : (fun crc byte : Byte => crc8 ((crc ^^^ byte).setWidth 16 <<< 8)) =
      absorbHigh feedback := by
    funext crc byte
    unfold crc8 absorbHigh
    rw [iterate_crc8Step_eq, setWidth_shift, Nat.sub_self, BitVec.shiftLeft_zero,
      BitVec.setWidth_eq]
  unfold i2cSmbusPec
  rw [hbyte]

theorem i2cSmbusPec_append (crc : Byte) (p q : List Byte) :
    i2cSmbusPec crc (p ++ q) = i2cSmbusPec (i2cSmbusPec crc p) q :=
  List.foldl_append

/-- A message ends with its error code just if the code of all of it is zero. -/
theorem i2cSmbusPec_concat_eq_zero_iff (p : List Byte) (pec : Byte) :
    i2cSmbusPec 0#8 (p ++ [pec]) = 0#8 ↔ pec = i2cSmbusPec 0#8 p := by
  rw [i2cSmbusPec_append, i2cSmbusPec_eq _ [pec]]
  exact absorbHigh_eq_zero_iff rfl _ _

/-- **A burst changes the error code**, wherever it begins and whatever comes after it. -/
theorem i2cSmbusPec_ne_of_burst (crc : Byte) {p q : List Byte}
    (h : Burst 8 (p.flatMap bitsOf) (q.flatMap bitsOf)) :
    i2cSmbusPec crc p ≠ i2cSmbusPec crc q := by
  rw [i2cSmbusPec_eq, i2cSmbusPec_eq]
  exact foldl_absorbHigh_ne_of_burst le_rfl rfl crc h

/-! ### What SMBus says -/

/-- What is expected of a reply. -/
inductive Expect where
  | bytes (count : ℕ)
  /-- A byte that says how many bytes follow. -/
  | block
  deriving DecidableEq

/-- **What is sent, and what is expected**, in this order. -/
structure Exchange where
  sent : Option (List Byte)
  expects : Option Expect
  deriving DecidableEq

/-- The length that the adapter is told. -/
def Expect.len : Expect → ℕ
  | bytes count => count
  | block => 1

/-- The flags of a message that reads. -/
def Expect.flags (flags : BitVec 16) : Expect → BitVec 16
  | bytes _ => flags ||| mRd
  | block => flags ||| mRd ||| mRecvLen

/-- Whom the message is for and whether it reads, and what is written. -/
def Exchange.covered (addr flags : BitVec 16) (x : Exchange) : List Byte :=
  (match x.sent with
    | some sent => addr8 addr flags :: sent
    | none => []) ++
  match x.expects with
    | some expect => [addr8 addr (expect.flags flags)]
    | none => []

/-- **The messages of an exchange.**  The error code of all bytes comes last. -/
def Exchange.wires (addr flags : BitVec 16) (pec : Bool) (x : Exchange) : List Wire :=
  (match x.sent with
    | some sent => [.write addr flags (sent ++
        if pec && x.expects.isNone then [i2cSmbusPec 0#8 (x.covered addr flags)] else [])]
    | none => []) ++
  match x.expects with
    | some expect => [.read addr (expect.flags flags) (expect.len + if pec then 1 else 0)]
    | none => []

/-- **What becomes of an exchange**: the reply, if the error code is right. -/
def Exchange.run (bus : Bus) (addr flags : BitVec 16) (pec : Bool) (x : Exchange) :
    Except ℤ (List Byte) :=
  let status := bus (x.wires addr flags pec)
  if status.1 < 0 then .error status.1
  else if x.expects.isNone then .ok []
  else
    let bytes := status.2.flatten
    if pec then
      if i2cSmbusPec 0#8 (x.covered addr flags ++ bytes) = 0#8 then .ok bytes.dropLast
      else .error (-ebadmsg)
    else .ok bytes

/-- The exchange for some arguments, or why there is none. -/
def exchange (args : Args) (data : List Byte) : Except ℤ Exchange :=
  let command := args.command
  let count := (data.getD 0 0#8).toNat
  match args.size, args.read with
  | .quick, true => .ok ⟨none, some (.bytes 0)⟩
  | .quick, false => .ok ⟨some [], none⟩
  | .byte, true => .ok ⟨none, some (.bytes 1)⟩
  | .byte, false => .ok ⟨some [command], none⟩
  | .byteData, true => .ok ⟨some [command], some (.bytes 1)⟩
  | .byteData, false => .ok ⟨some (command :: data.take 1), none⟩
  | .wordData, true => .ok ⟨some [command], some (.bytes 2)⟩
  | .wordData, false => .ok ⟨some (command :: data.take 2), none⟩
  | .procCall, _ => .ok ⟨some (command :: data.take 2), some (.bytes 2)⟩
  | .blockData, true => .ok ⟨some [command], some .block⟩
  | .blockData, false =>
      if count ≤ blockMax then .ok ⟨some (command :: data.take (count + 1)), none⟩
      else .error einval
  | .blockProcCall, _ =>
      if count ≤ blockMax then .ok ⟨some (command :: data.take (count + 1)), some .block⟩
      else .error einval
  | .i2cBlockData, true => .ok ⟨some [command], some (.bytes count)⟩
  | .i2cBlockData, false =>
      if count ≤ blockMax then .ok ⟨some (command :: (data.drop 1).take count), none⟩
      else .error einval
  | .other, _ => .error eopnotsupp

/-- Where a reply is stored in the data. -/
def Args.replyAt (args : Args) : ℕ := if args.size = .i2cBlockData then 1 else 0

/-- Some bytes of a buffer are replaced. -/
def overlay (at_ : ℕ) (bytes buf : List Byte) : List Byte :=
  buf.take at_ ++ bytes ++ buf.drop (at_ + bytes.length)

/-- What an adapter receives: what it was told, or as many bytes more as the first one says. -/
def Received : Wire → List Byte → Prop
  | .read _ flags len, bytes =>
      if has flags mRecvLen then
        ∃ count : Byte, bytes.head? = some count ∧ count.toNat ≤ blockMax ∧
          bytes.length = len + count.toNat
      else bytes.length = len
  | .write _ _ _, _ => False

def Wire.isRead : Wire → Bool
  | .read _ _ _ => true
  | .write _ _ _ => false

/-- **An adapter that keeps to the interface**: if it succeeds, every message that reads got its
bytes. -/
def Honest (bus : Bus) : Prop :=
  ∀ wires, 0 ≤ (bus wires).1 → List.Forall₂ Received (wires.filter Wire.isRead) (bus wires).2

/-! ### Buffers -/

variable {args : Args} {frame : Frame} {data buf src dst bytes reply rest sent : List Byte}
variable {bus : Bus} {p : Prepared} {x : Exchange} {msg : Msg} {expect : Expect}

theorem copyLoop_append (front bytes back before after mid : List Byte)
    (hmid : mid.length = bytes.length) :
    copyLoop (before ++ bytes ++ after) before.length front.length bytes.length
      (front ++ mid ++ back) = some (front ++ bytes ++ back) := by
  induction bytes generalizing front before mid with
  | nil =>
      rw [List.length_nil, List.length_eq_zero_iff] at hmid
      rw [hmid]
      rfl
  | cons byte bytes ih =>
      obtain ⟨old, mid, rfl⟩ := List.exists_cons_of_length_eq_add_one hmid
      have hnext := ih (front ++ [byte]) (before ++ [byte]) mid (Nat.succ_injective hmid)
      rw [List.length_append, List.length_append, List.length_singleton] at hnext
      rw [List.length_cons, copyLoop, List.append_assoc, List.cons_append, load_append,
        Option.bind_some, List.append_assoc, List.cons_append, store_append, Option.bind_some]
      simpa [List.append_assoc] using hnext

/-- **What a copying loop does**, if it stays inside both buffers. -/
theorem copyLoop_eq {i j count : ℕ} (hsrc : i + count ≤ src.length)
    (hdst : j + count ≤ dst.length) :
    copyLoop src i j count dst = some (overlay j ((src.drop i).take count) dst) := by
  have hcopy := copyLoop_append (dst.take j) ((src.drop i).take count)
    (dst.drop (j + count)) (src.take i) (src.drop (i + count)) ((dst.drop j).take count)
    (by rw [List.length_take, List.length_take, List.length_drop, List.length_drop]; omega)
  have hlength : ((src.drop i).take count).length = count := by
    rw [List.length_take, List.length_drop]
    omega
  rw [hlength, List.length_take, List.length_take, Nat.min_eq_left (by omega),
    Nat.min_eq_left (by omega)] at hcopy
  rw [overlay, hlength, ← hcopy]
  congr 1
  · rw [List.append_assoc, ← List.drop_drop, List.take_append_drop, List.take_append_drop]
  · rw [List.append_assoc, ← List.drop_drop, List.take_append_drop, List.take_append_drop]

/-! ### Flags -/

theorem has_or (flags flags' mask : BitVec 16) :
    has (flags ||| flags') mask = (has flags mask || has flags' mask) := by
  unfold has
  rw [BitVec.and_comm, BitVec.and_or_distrib_left]
  by_cases hleft : mask &&& flags = 0#16 <;> by_cases hright : mask &&& flags' = 0#16 <;>
    simp [hleft, hright, BitVec.and_comm flags mask, BitVec.and_comm flags' mask]

/-- The flags that are let through do not say that a message reads. -/
def Args.Masked (args : Args) : Prop := args.flags &&& xferFlags = args.flags

theorem has_of_masked (h : args.Masked) {mask : BitVec 16} (hmask : xferFlags &&& mask = 0#16) :
    has args.flags mask = false := by
  unfold has
  rw [← h, BitVec.and_assoc, hmask, BitVec.and_zero]
  rfl

theorem has_rd_of_masked (h : args.Masked) : has args.flags mRd = false := has_of_masked h rfl

theorem has_rd_flags (flags : BitVec 16) (expect : Expect) :
    has (expect.flags flags) mRd = true := by
  cases expect with
  | bytes count => rw [Expect.flags, has_or, show has mRd mRd = true from rfl, Bool.or_true]
  | block =>
      rw [Expect.flags, has_or, has_or, show has mRd mRd = true from rfl, Bool.or_true,
        Bool.true_or]

/-- Only a block has its length in its first byte. -/
theorem has_recvLen_flags (h : args.Masked) (expect : Expect) :
    has (expect.flags args.flags) mRecvLen = decide (expect = .block) := by
  have hnone : has args.flags mRecvLen = false := has_of_masked h rfl
  cases expect with
  | bytes count =>
      rw [Expect.flags, has_or, hnone]
      rfl
  | block =>
      rw [Expect.flags, has_or, show has mRecvLen mRecvLen = true from rfl, Bool.or_true]
      rfl

/-! ### The messages -/

/-- A message that writes some bytes, with room for the error code. -/
structure Msg.Writes (msg : Msg) (args : Args) (sent : List Byte) : Prop where
  addr : msg.addr = args.addr
  flags : msg.flags = args.flags
  len : msg.len = sent.length
  bytes : ∃ rest, msg.buf = sent ++ rest ∧ rest ≠ []

/-- How many bytes may come, without the error code. -/
def Expect.most : Expect → ℕ
  | .bytes count => count
  | .block => blockMax + 1

/-- A message that reads so many bytes more than are expected, with room for all that may come. -/
structure Msg.Reads (msg : Msg) (args : Args) (expect : Expect) (more : ℕ) : Prop where
  addr : msg.addr = args.addr
  flags : msg.flags = expect.flags args.flags
  len : msg.len = expect.len + more
  room : expect.most + (if args.pec then 1 else 0) ≤ msg.buf.length

/-- **The messages are those of an exchange**, before the error code. -/
def Prepared.Carries (p : Prepared) (args : Args) (more : ℕ) : Exchange → Prop
  | ⟨some sent, none⟩ => p.num = 1 ∧ p.msg0.Writes args sent
  | ⟨none, some expect⟩ => p.num = 1 ∧ p.msg0.Reads args expect more
  | ⟨some sent, some expect⟩ => p.num = 2 ∧ p.msg0.Writes args sent ∧ p.msg1.Reads args expect more
  | ⟨none, none⟩ => False

theorem Msg.Writes.bytes_eq (h : msg.Writes args sent) : msg.bytes = some sent := by
  obtain ⟨rest, hbuf, -⟩ := h.bytes
  unfold Msg.bytes
  rw [hbuf, h.len, List.length_append, if_pos (Nat.le_add_right _ _), List.take_left]

theorem Msg.Writes.wire (h : msg.Writes args sent) (hmasked : args.Masked) :
    msg.wire = some (.write args.addr args.flags sent) := by
  unfold Msg.wire
  rw [h.flags, has_rd_of_masked hmasked, if_neg Bool.false_ne_true, h.bytes_eq, h.addr]
  rfl

theorem Msg.Writes.msgPec (h : msg.Writes args sent) (pec : Byte) :
    i2cSmbusMsgPec pec msg = some (i2cSmbusPec pec (addr8 args.addr args.flags :: sent)) := by
  unfold i2cSmbusMsgPec
  rw [h.bytes_eq, h.addr, h.flags]
  rfl

/-- The error code comes after the bytes. -/
theorem Msg.Writes.addPec (h : msg.Writes args sent) (hmasked : args.Masked) :
    ∃ msg', i2cSmbusAddPec msg = some msg' ∧ msg'.flags = args.flags ∧
      msg'.wire = some (.write args.addr args.flags
        (sent ++ [i2cSmbusPec 0#8 (addr8 args.addr args.flags :: sent)])) := by
  obtain ⟨rest, hbuf, hrest⟩ := h.bytes
  obtain ⟨byte, rest, rfl⟩ := List.exists_cons_of_ne_nil hrest
  unfold i2cSmbusAddPec
  rw [h.msgPec, Option.bind_some, hbuf, h.len, store_append, Option.map_some]
  refine ⟨_, rfl, h.flags, ?_⟩
  unfold Msg.wire Msg.bytes
  have hlength : sent.length + 1 ≤ (sent ++ i2cSmbusPec 0#8 (addr8 args.addr args.flags :: sent) ::
      rest).length := by
    rw [List.length_append, List.length_cons]
    omega
  dsimp only
  rw [h.flags, h.addr, has_rd_of_masked hmasked, if_neg Bool.false_ne_true, if_pos hlength,
    Option.map_some, List.append_cons, List.take_left' (by rw [List.length_append]; rfl)]

theorem Expect.len_le_most (expect : Expect) : expect.len ≤ expect.most := by
  cases expect with
  | bytes count => exact le_rfl
  | block => exact Nat.le_add_left _ _

theorem Msg.Reads.wire {more : ℕ} (h : msg.Reads args expect more)
    (hmore : more ≤ if args.pec then 1 else 0) :
    msg.wire = some (.read args.addr (expect.flags args.flags) (expect.len + more)) := by
  have hroom := h.room
  have hlen := expect.len_le_most
  unfold Msg.wire
  rw [h.flags, has_rd_flags, if_pos rfl, h.len, h.addr, if_pos (by omega)]

/-- **What is received is stored**, and the message ends where it ends. -/
theorem Msg.Reads.receive {more : ℕ} (h : msg.Reads args expect more)
    (hmore : more = if args.pec then 1 else 0) (hmasked : args.Masked)
    (hreceived : Received (.read args.addr (expect.flags args.flags) (expect.len + more)) bytes) :
    ∃ rest, msg.receive bytes = some
      ⟨args.addr, expect.flags args.flags, bytes.length, bytes ++ rest⟩ := by
  have hroom := h.room
  replace hreceived : if has (expect.flags args.flags) mRecvLen then
      ∃ count : Byte, bytes.head? = some count ∧ count.toNat ≤ blockMax ∧
        bytes.length = expect.len + more + count.toNat
    else bytes.length = expect.len + more := hreceived
  unfold Msg.receive
  rw [h.flags, h.addr]
  rw [has_recvLen_flags hmasked] at hreceived ⊢
  cases expect with
  | bytes count =>
      replace hreceived : bytes.length = count + more := hreceived
      have hlen : msg.len = count + more := h.len
      replace hroom : count + (if args.pec then 1 else 0) ≤ msg.buf.length := hroom
      rw [if_pos (by omega), if_neg (by simp), hlen, hreceived]
      exact ⟨_, rfl⟩
  | block =>
      obtain ⟨count, -, hcount, hlength⟩ : ∃ count : Byte, _ := hreceived
      replace hlength : bytes.length = 1 + more + count.toNat := hlength
      replace hroom : blockMax + 1 + (if args.pec then 1 else 0) ≤ msg.buf.length := hroom
      rw [if_pos (by omega), if_pos (by decide)]
      exact ⟨_, rfl⟩

/-- **The messages with the error code** are those of the exchange. -/
structure Prepared.Guarded (p : Prepared) (args : Args) (cpec : Byte) (x : Exchange) : Prop where
  wires : p.msgs.mapM Msg.wire = some (x.wires args.addr args.flags args.pec)
  num : p.num = if x.sent.isSome && x.expects.isSome then 2 else 1
  first : x.sent.isSome = true → has p.msg0.flags mRd = false
  receives : ∀ expect, x.expects = some expect →
    p.last.Reads args expect (if args.pec then 1 else 0) ∧
      (args.pec = true → ∀ bytes, i2cSmbusPec 0#8 (x.covered args.addr args.flags ++ bytes) =
        i2cSmbusPec cpec (addr8 args.addr (expect.flags args.flags) :: bytes))

theorem wires_write (addr flags : BitVec 16) (pec : Bool) (sent : List Byte) :
    Exchange.wires addr flags pec ⟨some sent, none⟩ = [.write addr flags (sent ++
      if pec then [i2cSmbusPec 0#8 (addr8 addr flags :: sent)] else [])] := by
  simp [Exchange.wires, Exchange.covered]

theorem wires_both (addr flags : BitVec 16) (pec : Bool) (sent : List Byte) (expect : Expect) :
    Exchange.wires addr flags pec ⟨some sent, some expect⟩ = [.write addr flags sent,
      .read addr (expect.flags flags) (expect.len + if pec then 1 else 0)] := by
  simp [Exchange.wires]

theorem wires_read (addr flags : BitVec 16) (pec : Bool) (expect : Expect) :
    Exchange.wires addr flags pec ⟨none, some expect⟩ =
      [.read addr (expect.flags flags) (expect.len + if pec then 1 else 0)] := by
  simp [Exchange.wires]

/-- A message is read that is one byte longer. -/
theorem Msg.Reads.longer (h : msg.Reads args expect 0) :
    Msg.Reads { msg with len := msg.len + 1 } args expect 1 :=
  ⟨h.addr, h.flags, congrArg (· + 1) h.len, h.room⟩

theorem Prepared.Carries.guarded (h : p.Carries args 0 x) (hmasked : args.Masked) :
    ∃ p' cpec, (if args.pec then protect p else some (p, 0#8)) = some (p', cpec) ∧
      p'.Guarded args cpec x ∧ p'.read = p.read := by
  obtain ⟨_ | sent, _ | expect⟩ := x
  · exact h.elim
  · obtain ⟨hnum, hreads⟩ : p.num = 1 ∧ p.msg0.Reads args expect 0 := h
    have hrd : has p.msg0.flags mRd = true := hreads.flags ▸ has_rd_flags _ _
    cases hpec : args.pec with
    | false =>
        refine ⟨p, 0#8, rfl, ⟨?_, hnum, fun hsent => (by cases hsent), fun expect' heq => ?_⟩, rfl⟩
        · simp [Prepared.msgs, hnum, hreads.wire (Nat.zero_le _), wires_read, hpec]
        · obtain rfl := Option.some.inj heq
          simp [Prepared.last, hnum, hpec, hreads]
    | true =>
        have hlonger := hreads.longer
        refine ⟨{ p with msg0 := { p.msg0 with len := p.msg0.len + 1 } }, 0#8, ?_,
          ⟨?_, hnum, fun hsent => (by cases hsent), fun expect' heq => ?_⟩, rfl⟩
        · simp [protect, hrd, Prepared.last, hnum, Prepared.lengthen]
        · simp [Prepared.msgs, hnum, hlonger.wire (by rw [hpec]; rfl), wires_read, hpec]
        · obtain rfl := Option.some.inj heq
          simp [Prepared.last, hnum, hpec, hlonger, Exchange.covered]
  · obtain ⟨hnum, hwrites⟩ : p.num = 1 ∧ p.msg0.Writes args sent := h
    have hrd : has p.msg0.flags mRd = false := hwrites.flags ▸ has_rd_of_masked hmasked
    cases hpec : args.pec with
    | false =>
        refine ⟨p, 0#8, rfl, ⟨?_, hnum, fun _ => hrd, fun expect' heq => by cases heq⟩, rfl⟩
        simp [Prepared.msgs, hnum, hwrites.wire hmasked, wires_write, hpec]
    | true =>
        obtain ⟨msg', hadd, hflags, hwire⟩ := hwrites.addPec hmasked
        have hrd' : has msg'.flags mRd = false := hflags ▸ has_rd_of_masked hmasked
        refine ⟨{ p with msg0 := msg' }, 0#8, ?_,
          ⟨?_, hnum, fun _ => hrd', fun expect' heq => by cases heq⟩, rfl⟩
        · simp [protect, hrd, hnum, hadd, Prepared.last, hrd']
        · simp [Prepared.msgs, hnum, hwire, wires_write, hpec]
  · obtain ⟨hnum, hwrites, hreads⟩ :
      p.num = 2 ∧ p.msg0.Writes args sent ∧ p.msg1.Reads args expect 0 := h
    have hrd : has p.msg0.flags mRd = false := hwrites.flags ▸ has_rd_of_masked hmasked
    have hrd' : has p.msg1.flags mRd = true := hreads.flags ▸ has_rd_flags _ _
    cases hpec : args.pec with
    | false =>
        refine ⟨p, 0#8, rfl, ⟨?_, hnum, fun _ => hrd, fun expect' heq => ?_⟩, rfl⟩
        · simp [Prepared.msgs, hnum, hwrites.wire hmasked, hreads.wire (Nat.zero_le _), wires_both,
            hpec]
        · obtain rfl := Option.some.inj heq
          simp [Prepared.last, hnum, hpec, hreads]
    | true =>
        have hlonger := hreads.longer
        refine ⟨{ p with msg1 := { p.msg1 with len := p.msg1.len + 1 } },
          i2cSmbusPec 0#8 (addr8 args.addr args.flags :: sent), ?_,
          ⟨?_, hnum, fun _ => hrd, fun expect' heq => ?_⟩, rfl⟩
        · simp [protect, hrd, hnum, hwrites.msgPec, Prepared.last, hrd', Prepared.lengthen]
        · simp [Prepared.msgs, hnum, hwrites.wire hmasked, hlonger.wire (by rw [hpec]; rfl),
            wires_both, hpec]
        · obtain rfl := Option.some.inj heq
          refine ⟨by simp [Prepared.last, hnum, hpec, hlonger], fun _ bytes => ?_⟩
          rw [← i2cSmbusPec_append]
          simp [Exchange.covered]

/-! ### The transfer -/

/-- **What is received** ends up at the beginning of the last message. -/
theorem Prepared.Guarded.transfer {cpec : Byte} (h : p.Guarded args cpec x) (hmasked : args.Masked)
    (hhonest : Honest bus) (hstatus : 0 ≤ (bus (x.wires args.addr args.flags args.pec)).1) :
    ∃ msgs, i2cTransfer bus p.msgs =
        some ((bus (x.wires args.addr args.flags args.pec)).1, msgs) ∧
      (p.update msgs).num = p.num ∧ (p.update msgs).read = p.read ∧
      (x.expects = none → has (p.update msgs).last.flags mRd = false) ∧
      ∀ expect, x.expects = some expect → ∃ bytes rest,
        (bus (x.wires args.addr args.flags args.pec)).2.flatten = bytes ∧
        Received (.read args.addr (expect.flags args.flags)
          (expect.len + if args.pec then 1 else 0)) bytes ∧
        (p.update msgs).last =
          ⟨args.addr, expect.flags args.flags, bytes.length, bytes ++ rest⟩ := by
  have hreceived := hhonest _ hstatus
  have htransfer : i2cTransfer bus p.msgs =
      (receiveAll p.msgs (bus (x.wires args.addr args.flags args.pec)).2).map fun msgs =>
        ((bus (x.wires args.addr args.flags args.pec)).1, msgs) := by
    unfold i2cTransfer
    rw [h.wires, Option.bind_some, if_neg (not_lt.mpr hstatus)]
  rw [htransfer]
  have hwires := h.wires
  have hnum := h.num
  have hfirst := h.first
  have hreceives := h.receives
  generalize (bus (x.wires args.addr args.flags args.pec)) = outcome at hreceived ⊢
  obtain ⟨_ | sent, _ | expect⟩ := x
  · replace hnum : p.num = 1 := hnum
    rw [Prepared.msgs, if_pos hnum, List.mapM_cons, Option.bind_eq_bind] at hwires
    obtain ⟨wire, -, hwires⟩ := Option.bind_eq_some_iff.mp hwires
    cases hwires
  · replace hnum : p.num = 1 := hnum
    obtain ⟨hreads, -⟩ := hreceives expect rfl
    have hlast : p.last = p.msg0 := if_pos hnum
    rw [hlast] at hreads
    have hrd : has p.msg0.flags mRd = true := hreads.flags ▸ has_rd_flags _ _
    rw [wires_read] at hreceived
    obtain ⟨bytes, received, hbytes, hrest, houtcome⟩ :=
      List.forall₂_cons_left_iff.mp hreceived
    obtain rfl := List.forall₂_nil_left_iff.mp hrest
    obtain ⟨rest, hreceive⟩ := hreads.receive rfl hmasked hbytes
    refine ⟨[⟨args.addr, expect.flags args.flags, bytes.length, bytes ++ rest⟩], ?_, ?_⟩
    · rw [Prepared.msgs, if_pos hnum, receiveAll, if_pos hrd, houtcome, List.head?_cons,
        Option.bind_some, hreceive, Option.bind_some]
      rfl
    · refine ⟨rfl, rfl, fun hnone => (by cases hnone), fun expect' heq => ?_⟩
      obtain rfl := Option.some.inj heq
      exact ⟨bytes, rest, by simp [houtcome], hbytes, if_pos hnum⟩
  · replace hnum : p.num = 1 := hnum
    have hrd := hfirst rfl
    refine ⟨[p.msg0], ?_, rfl, rfl, fun _ => ?_, fun expect' heq => by cases heq⟩
    · rw [Prepared.msgs, if_pos hnum, receiveAll, if_neg (Bool.eq_false_iff.mp hrd)]
      rfl
    · rw [Prepared.last, Prepared.update, if_pos hnum]
      exact hrd
  · replace hnum : p.num = 2 := hnum
    have hne : p.num ≠ 1 := by omega
    obtain ⟨hreads, -⟩ := hreceives expect rfl
    have hlast : p.last = p.msg1 := if_neg hne
    rw [hlast] at hreads
    have hrd : has p.msg1.flags mRd = true := hreads.flags ▸ has_rd_flags _ _
    rw [wires_both] at hreceived
    obtain ⟨bytes, received, hbytes, hrest, houtcome⟩ :=
      List.forall₂_cons_left_iff.mp hreceived
    obtain rfl := List.forall₂_nil_left_iff.mp hrest
    obtain ⟨rest, hreceive⟩ := hreads.receive rfl hmasked hbytes
    refine ⟨[p.msg0, ⟨args.addr, expect.flags args.flags, bytes.length, bytes ++ rest⟩], ?_, ?_⟩
    · rw [Prepared.msgs, if_neg hne, receiveAll, if_neg (Bool.eq_false_iff.mp (hfirst rfl)),
        receiveAll, if_pos hrd, houtcome, List.head?_cons, Option.bind_some, hreceive,
        Option.bind_some]
      rfl
    · refine ⟨rfl, rfl, fun hnone => (by cases hnone), fun expect' heq => ?_⟩
      obtain rfl := Option.some.inj heq
      exact ⟨bytes, rest, by simp [houtcome], hbytes, if_neg hne⟩

/-- **The error code is checked** over all bytes of the exchange. -/
theorem checkPec_eq {addr flags : BitVec 16} (cpec : Byte) (hbytes : bytes ≠ []) :
    i2cSmbusCheckPec cpec ⟨addr, flags, bytes.length, bytes ++ rest⟩ =
      some (if i2cSmbusPec cpec (addr8 addr flags :: bytes) = 0#8 then 0 else -ebadmsg) := by
  obtain ⟨init, last, rfl⟩ := (List.eq_nil_or_concat' bytes).resolve_left hbytes
  unfold i2cSmbusCheckPec i2cSmbusMsgPec Msg.bytes
  have hplace : (((init ++ [last]).length : ℕ) : ℤ) - 1 = (init.length : ℕ) := by
    rw [List.length_append, List.length_singleton]
    omega
  have hlen : (init ++ [last]).length - 1 = init.length := by
    rw [List.length_append, List.length_singleton, Nat.add_sub_cancel]
  dsimp only
  rw [hplace, List.append_assoc, List.singleton_append, load_append, Option.bind_some, hlen,
    if_pos (by simp), List.take_left, Option.map_some, Option.map_some]
  have hcode : i2cSmbusPec cpec (addr8 addr flags :: (init ++ [last])) = 0#8 ↔
      last = i2cSmbusPec (i2cSmbusPec cpec [addr8 addr flags]) init := by
    rw [← List.singleton_append, i2cSmbusPec_append, i2cSmbusPec_append, i2cSmbusPec_eq _ [last]]
    exact absorbHigh_eq_zero_iff rfl _ _
  rw [Option.some_inj, ite_not]
  exact if_congr hcode.symm rfl rfl

/-! ### The two switches -/

/-- The data are looked at; else the caller may pass `NULL`. -/
def Args.usesData (args : Args) : Bool :=
  decide (args.size ≠ .quick) && (args.read || decide (args.size ≠ .byte))

/-- The flags are those that `i2c_smbus_xfer` lets through, the data are as long as the union, and a
reply of the length that the caller asks for has room in the second buffer and in the data. -/
structure Args.Fits (args : Args) (data : List Byte) : Prop where
  masked : args.Masked
  length : args.usesData = true → data.length = blockMax + 2
  count : args.size = .i2cBlockData → args.read = true → (data.getD 0 0#8).toNat ≤ blockMax + 1

/-- `read_write == I2C_SMBUS_READ`, after the first switch -/
def Args.reads (args : Args) : Bool :=
  args.read || decide (args.size = .procCall) || decide (args.size = .blockProcCall)

theorem bytes_word (low high : Byte) : (ofBytes 16 [low, high]).setWidth 8 = low ∧
    (ofBytes 16 [low, high] >>> 8).setWidth 8 = high := by
  have hbytes : toBytes 2 (ofBytes 16 [low, high]) = [low, high] :=
    @toBytes_ofBytes 16 [low, high] le_rfl
  obtain ⟨hlow, hrest⟩ := List.cons.inj hbytes
  exact ⟨hlow, (List.cons.inj hrest).1⟩

theorem putWord_eq (low high command old old' : Byte) (rest rest' : List Byte) :
    putWord (low :: high :: rest) (command :: old :: old' :: rest') =
      some (command :: low :: high :: rest') := by
  obtain ⟨hlow, hhigh⟩ := bytes_word low high
  have hmask : (ofBytes 16 [low, high]).setWidth 8 &&& 255#8 = low := by
    rw [hlow]
    exact BitVec.and_allOnes
  unfold putWord loadWord
  simp only [load, store]
  simp [hmask, hhigh]

theorem storeWord_loadWord (low high old old' : Byte) (rest rest' : List Byte) :
    (loadWord (low :: high :: rest)).bind (storeWord (old :: old' :: rest')) =
      some (low :: high :: rest') := by
  obtain ⟨hlow, hhigh⟩ := bytes_word low high
  unfold storeWord loadWord
  simp [load, store, hlow, hhigh]

/-- The messages are those of the exchange, or there is none, for the same reason. -/
def Prepares (args : Args) (data : List Byte) (result : Option (Except ℤ Prepared)) : Prop :=
  (∀ error, exchange args data = .error error → result = some (.error error)) ∧
    ∀ x, exchange args data = .ok x → ∃ p, result = some (.ok p) ∧ p.Carries args 0 x ∧
      p.read = args.reads

theorem Prepares.ok (hx : exchange args data = .ok x) (hcarries : p.Carries args 0 x)
    (hread : p.read = args.reads) : Prepares args data (some (.ok p)) := by
  refine ⟨fun error herror => ?_, fun x' hx' => ?_⟩
  · rw [hx] at herror
    cases herror
  · obtain rfl := Except.ok.inj (hx.symm.trans hx')
    exact ⟨p, rfl, hcarries, hread⟩

theorem Prepares.error {error : ℤ} (herror : exchange args data = .error error) :
    Prepares args data (some (.error error)) := by
  refine ⟨fun error' herror' => ?_, fun x hx => ?_⟩
  · obtain rfl := Except.error.inj (herror.symm.trans herror')
    rfl
  · rw [herror] at hx
    cases hx

theorem usesData_cases (h : args.usesData = false) :
    args.size = .quick ∨ args.size = .byte ∧ args.read = false := by
  obtain ⟨addr, flags, read, command, size⟩ := args
  cases size <;> cases read <;> first | exact Or.inl rfl | exact Or.inr ⟨rfl, rfl⟩ | cases h

/-- The first switch, where the data are not looked at. -/
theorem prepare_unused (h : args.usesData = false) (frame : Frame) (data : List Byte) :
    Prepares args data (prepare args frame data) := by
  obtain ⟨addr, flags, read, command, size⟩ := args
  obtain ⟨msgbuf0, msgbuf1, stack, hbuf0, hbuf1, -⟩ := frame
  obtain ⟨b0, buf, rfl⟩ := List.exists_cons_of_length_eq_add_one hbuf0
  obtain ⟨b1, buf, rfl⟩ := List.exists_cons_of_length_eq_add_one (Nat.succ_injective hbuf0)
  have hcommand : store (b0 :: b1 :: buf) 0 command = some (command :: b1 :: buf) := by
    simp [store]
  unfold prepare
  dsimp only
  rw [hcommand, Option.bind_some]
  obtain rfl | ⟨rfl, rfl⟩ := usesData_cases h
  · cases read with
    | true => exact .ok rfl ⟨rfl, rfl, rfl, rfl, by simp [Expect.most, Args.pec]⟩ rfl
    | false =>
        refine .ok rfl ⟨rfl, rfl, ?_, rfl, command :: b1 :: buf, rfl, by simp⟩ rfl
        exact BitVec.or_zero
  · exact .ok rfl ⟨rfl, rfl, rfl, rfl, b1 :: buf, rfl, by simp⟩ rfl

/-- **The first switch**, one case for each protocol. -/
theorem prepare_prepares (h : args.Fits data) (frame : Frame) :
    Prepares args data (prepare args frame data) := by
  cases huses : args.usesData with
  | false => exact prepare_unused huses frame data
  | true =>
  have hlength := h.length huses
  obtain ⟨addr, flags, read, command, size⟩ := args
  obtain ⟨msgbuf0, msgbuf1, stack, hbuf0, hbuf1, -⟩ := frame
  obtain ⟨b0, buf, rfl⟩ := List.exists_cons_of_length_eq_add_one hbuf0
  obtain ⟨b1, buf, rfl⟩ := List.exists_cons_of_length_eq_add_one (Nat.succ_injective hbuf0)
  obtain ⟨b2, buf, rfl⟩ := List.exists_cons_of_length_eq_add_one
    (Nat.succ_injective (Nat.succ_injective hbuf0))
  obtain ⟨d0, data, rfl⟩ := List.exists_cons_of_length_eq_add_one hlength
  obtain ⟨d1, data, rfl⟩ := List.exists_cons_of_length_eq_add_one (Nat.succ_injective hlength)
  have hbuf : buf.length = blockMax := by simpa using hbuf0
  have hdata : data.length = blockMax := by simpa using hlength
  have hmax : blockMax = 32 := rfl
  have hcommand : store (b0 :: b1 :: b2 :: buf) 0 command = some (command :: b1 :: b2 :: buf) := by
    simp [store]
  have hbyte : store (command :: b1 :: b2 :: buf) 1 d0 = some (command :: d0 :: b2 :: buf) := by
    simp [store]
  have hload : load (d0 :: d1 :: data) 0 = some d0 := rfl
  have hword := putWord_eq d0 d1 command b1 b2 data buf
  have hcopy : ∀ i count, i + count ≤ 34 → count ≤ 33 →
      copyLoop (d0 :: d1 :: data) i 1 count (command :: b1 :: b2 :: buf) =
        some (command :: ((d0 :: d1 :: data).drop i).take count ++
          (b1 :: b2 :: buf).drop count) := by
    intro i count hi hcount
    have hlength : (((d0 :: d1 :: data).drop i).take count).length = count := by
      rw [List.length_take, List.length_drop, List.length_cons, List.length_cons, hdata]
      omega
    rw [copyLoop_eq (by rw [List.length_cons, List.length_cons, hdata]; omega)
      (by rw [List.length_cons, List.length_cons, List.length_cons, hbuf]; omega), overlay, hlength]
    simp [Nat.add_comm 1 count]
  have hroom : ∀ count ≤ 33, (b1 :: b2 :: buf).drop count ≠ [] := by
    intro count hcount
    rw [← List.length_pos_iff, List.length_drop, List.length_cons, List.length_cons, hbuf]
    omega
  have hone : Msg.Writes ⟨addr, flags, 1, command :: b1 :: b2 :: buf⟩
      ⟨addr, flags, read, command, size⟩ [command] :=
    ⟨rfl, rfl, rfl, b1 :: b2 :: buf, rfl, by simp⟩
  unfold prepare
  dsimp only
  rw [hcommand, Option.bind_some]
  cases size with
  | quick => cases huses
  | byte =>
      cases read with
      | true =>
          refine .ok rfl ⟨rfl, rfl, BitVec.or_comm _ _, rfl, ?_⟩ rfl
          simp only [Expect.most, List.length_cons]
          split <;> omega
      | false => cases huses
  | byteData =>
      cases read with
      | true =>
          refine .ok rfl ⟨rfl, hone, rfl, rfl, rfl, ?_⟩ rfl
          rw [hbuf1]
          simp only [Expect.most]
          split <;> omega
      | false =>
          rw [if_neg Bool.false_ne_true, hload, Option.bind_some, hbyte]
          exact .ok rfl ⟨rfl, rfl, rfl, rfl, b2 :: buf, rfl, by simp⟩ rfl
  | wordData =>
      cases read with
      | true =>
          refine .ok rfl ⟨rfl, hone, rfl, rfl, rfl, ?_⟩ rfl
          rw [hbuf1]
          simp only [Expect.most]
          split <;> omega
      | false =>
          rw [if_neg Bool.false_ne_true, hword]
          refine .ok rfl ⟨rfl, rfl, rfl, rfl, buf, rfl, ?_⟩ rfl
          exact List.length_pos_iff.mp (by omega)
  | procCall =>
      rw [hword]
      refine .ok rfl ⟨rfl, ⟨rfl, rfl, rfl, buf, rfl, ?_⟩, rfl, rfl, rfl, ?_⟩ ?_
      · exact List.length_pos_iff.mp (by omega)
      · rw [hbuf1]
        simp only [Expect.most]
        split <;> omega
      · cases read <;> rfl
  | blockData =>
      cases read with
      | true =>
          refine .ok rfl ⟨rfl, hone, rfl, rfl, rfl, ?_⟩ rfl
          rw [hbuf1]
          simp only [Expect.most]
          split <;> omega
      | false =>
          dsimp only
          rw [if_neg Bool.false_ne_true, hload, Option.bind_some]
          by_cases hcount : d0.toNat ≤ blockMax
          · rw [if_neg (by omega), hcopy 0 _ (by omega) (by omega), Option.map_some]
            refine .ok (if_pos hcount) ⟨rfl, rfl, rfl, ?_, _, rfl, hroom _ (by omega)⟩ rfl
            simp [hdata]
            omega
          · rw [if_pos (by omega)]
            exact .error (if_neg hcount)
  | blockProcCall =>
      dsimp only
      rw [hload, Option.bind_some]
      by_cases hcount : d0.toNat ≤ blockMax
      · rw [if_neg (by omega), hcopy 0 _ (by omega) (by omega), Option.map_some]
        refine .ok (if_pos hcount) ⟨rfl, ⟨rfl, rfl, ?_, _, rfl, hroom _ (by omega)⟩, rfl, rfl, rfl,
          ?_⟩ ?_
        · simp [hdata]
          omega
        · rw [hbuf1]
          simp only [Expect.most]
          split <;> omega
        · cases read <;> rfl
      · rw [if_pos (by omega)]
        exact .error (if_neg hcount)
  | i2cBlockData =>
      dsimp only
      rw [hload, Option.bind_some]
      cases read with
      | true =>
          have hcount : d0.toNat ≤ blockMax + 1 := h.count rfl rfl
          refine .ok rfl ⟨rfl, hone, rfl, rfl, rfl, ?_⟩ rfl
          rw [hbuf1]
          show d0.toNat + (if Args.pec _ then 1 else 0) ≤ _
          split <;> omega
      | false =>
          rw [if_neg Bool.false_ne_true]
          by_cases hcount : d0.toNat ≤ blockMax
          · rw [if_neg (by omega), hcopy 1 _ (by omega) (by omega), Option.map_some]
            refine .ok (if_pos hcount) ⟨rfl, rfl, rfl, ?_, _, rfl, hroom _ (by omega)⟩ rfl
            simp [hdata]
            omega
          · rw [if_pos (by omega)]
            exact .error (if_neg hcount)
  | other => exact .error rfl

/-- A reply without its error code. -/
def Expect.Replies (reply : List Byte) : Expect → Prop
  | .bytes count => reply.length = count
  | .block => ∃ count : Byte, reply.head? = some count ∧ count.toNat ≤ blockMax ∧
      reply.length = count.toNat + 1

theorem overlay_nil (at_ : ℕ) (buf : List Byte) : overlay at_ [] buf = buf := by
  rw [overlay, List.append_nil, List.length_nil, Nat.add_zero, List.take_append_drop]

/-- The second switch, where the data are not looked at. -/
theorem finish_unused (h : args.usesData = false) (hx : exchange args data = .ok x)
    (hread : p.read = args.reads) (hexpects : x.expects = some expect)
    (hreply : expect.Replies reply) :
    finish args p data = some (overlay args.replyAt reply data) := by
  obtain ⟨addr, flags, read, command, size⟩ := args
  obtain rfl | ⟨rfl, rfl⟩ := usesData_cases h
  · cases read with
    | false =>
        obtain rfl := Except.ok.inj hx
        cases hexpects
    | true =>
        obtain rfl := Except.ok.inj hx
        obtain rfl := Option.some.inj hexpects
        obtain rfl := List.length_eq_zero_iff.mp hreply
        rw [finish, hread, overlay_nil]
        rfl
  · obtain rfl := Except.ok.inj hx
    cases hexpects

theorem copyLoop_reply {j : ℕ} (hdst : j + reply.length ≤ dst.length) :
    copyLoop (reply ++ rest) 0 j reply.length dst = some (overlay j reply dst) := by
  rw [copyLoop_eq (by rw [Nat.zero_add, List.length_append]; exact Nat.le_add_right _ _) hdst,
    List.drop_zero, List.take_left]

theorem load_head {count : Byte} (hhead : reply.head? = some count) :
    load (reply ++ rest) 0 = some count := by
  cases reply with
  | nil => cases hhead
  | cons byte reply => exact hhead

/-- **The second switch**: the reply is stored in the data. -/
theorem finish_eq (h : args.Fits data) (hx : exchange args data = .ok x)
    (hread : p.read = args.reads) (hexpects : x.expects = some expect)
    (hnum : p.num = if x.sent.isSome then 2 else 1) (hlast : p.last.buf = reply ++ rest)
    (hreply : expect.Replies reply) :
    finish args p data = some (overlay args.replyAt reply data) := by
  cases huses : args.usesData with
  | false => exact finish_unused huses hx hread hexpects hreply
  | true =>
  have hlength := h.length huses
  obtain ⟨addr, flags, read, command, size⟩ := args
  obtain ⟨d0, data, rfl⟩ := List.exists_cons_of_length_eq_add_one hlength
  obtain ⟨d1, data, rfl⟩ := List.exists_cons_of_length_eq_add_one (Nat.succ_injective hlength)
  have hdata : data.length = blockMax := by simpa using hlength
  have hmax : blockMax = 32 := rfl
  have hbyte : ∀ buf, buf = reply ++ rest → reply.length = 1 →
      (load buf 0).bind (store (d0 :: d1 :: data) 0) =
        some (overlay 0 reply (d0 :: d1 :: data)) := by
    rintro _ rfl hlength
    obtain ⟨byte, rfl⟩ := List.length_eq_one_iff.mp hlength
    rfl
  have hword : ∀ buf, buf = reply ++ rest → reply.length = 2 →
      (loadWord buf).bind (storeWord (d0 :: d1 :: data)) =
        some (overlay 0 reply (d0 :: d1 :: data)) := by
    rintro _ rfl hlength
    obtain ⟨low, high, rfl⟩ := List.length_eq_two.mp hlength
    exact storeWord_loadWord low high d0 d1 rest data
  have hblock : ∀ buf, buf = reply ++ rest → Expect.block.Replies reply →
      (load buf 0).bind (fun count => copyLoop buf 0 0 (count.toNat + 1) (d0 :: d1 :: data)) =
        some (overlay 0 reply (d0 :: d1 :: data)) := by
    rintro _ rfl ⟨count, hhead, hcount, hlength⟩
    rw [load_head hhead, Option.bind_some, ← hlength]
    refine copyLoop_reply ?_
    rw [hlength, List.length_cons, List.length_cons, hdata]
    omega
  have hone : x.sent.isSome = false → p.msg0.buf = reply ++ rest := by
    intro hsent
    rw [hsent, if_neg Bool.false_ne_true] at hnum
    rwa [Prepared.last, if_pos hnum] at hlast
  have htwo : x.sent.isSome = true → p.msg1.buf = reply ++ rest := by
    intro hsent
    rw [hsent, if_pos rfl] at hnum
    rwa [Prepared.last, if_neg (by omega)] at hlast
  unfold finish
  rw [hread]
  cases size with
  | quick => cases huses
  | byte =>
      cases read with
      | false => cases huses
      | true =>
          obtain rfl := Except.ok.inj hx
          obtain rfl := Option.some.inj hexpects
          exact hbyte _ (hone rfl) hreply
  | byteData =>
      cases read with
      | false =>
          obtain rfl := Except.ok.inj hx
          cases hexpects
      | true =>
          obtain rfl := Except.ok.inj hx
          obtain rfl := Option.some.inj hexpects
          exact hbyte _ (htwo rfl) hreply
  | wordData =>
      cases read with
      | false =>
          obtain rfl := Except.ok.inj hx
          cases hexpects
      | true =>
          obtain rfl := Except.ok.inj hx
          obtain rfl := Option.some.inj hexpects
          exact hword _ (htwo rfl) hreply
  | procCall =>
      obtain rfl := Except.ok.inj hx
      obtain rfl := Option.some.inj hexpects
      have hreads : Args.reads ⟨addr, flags, read, command, .procCall⟩ = true := by
        cases read <;> rfl
      rw [hreads, if_pos rfl]
      exact hword _ (htwo rfl) hreply
  | blockData =>
      cases read with
      | false =>
          replace hx : (if d0.toNat ≤ blockMax then _ else _) = Except.ok x := hx
          split at hx
          · obtain rfl := Except.ok.inj hx
            cases hexpects
          · cases hx
      | true =>
          obtain rfl := Except.ok.inj hx
          obtain rfl := Option.some.inj hexpects
          exact hblock _ (htwo rfl) hreply
  | blockProcCall =>
      replace hx : (if d0.toNat ≤ blockMax then _ else _) = Except.ok x := hx
      split at hx
      · obtain rfl := Except.ok.inj hx
        obtain rfl := Option.some.inj hexpects
        have hreads : Args.reads ⟨addr, flags, read, command, .blockProcCall⟩ = true := by
          cases read <;> rfl
        rw [hreads, if_pos rfl]
        exact hblock _ (htwo rfl) hreply
      · cases hx
  | i2cBlockData =>
      cases read with
      | false =>
          replace hx : (if d0.toNat ≤ blockMax then _ else _) = Except.ok x := hx
          split at hx
          · obtain rfl := Except.ok.inj hx
            cases hexpects
          · cases hx
      | true =>
          obtain rfl := Except.ok.inj hx
          obtain rfl := Option.some.inj hexpects
          replace hreply : reply.length = d0.toNat := hreply
          have hcount : d0.toNat ≤ blockMax + 1 := h.count rfl rfl
          show copyLoop p.msg1.buf 0 1 d0.toNat (d0 :: d1 :: data) = _
          rw [htwo rfl, ← hreply]
          refine copyLoop_reply ?_
          rw [hreply, List.length_cons, List.length_cons, hdata]
          omega
  | other => cases hx

/-! ### The function -/

/-- The result, and the data after it: where there is a reply it is stored. -/
def conclude (args : Args) (data : List Byte) : Except ℤ (List Byte) → ℤ × List Byte
  | .error status => (status, data)
  | .ok reply => (0, overlay args.replyAt reply data)

/-- **What SMBus says of a request.** -/
def performed (bus : Bus) (args : Args) (data : List Byte) : ℤ × List Byte :=
  match exchange args data with
  | .error error => (-error, data)
  | .ok x => conclude args data (x.run bus args.addr args.flags args.pec)

/-- What is received, with an error code or without, has a reply in front. -/
theorem received_replies (hmasked : args.Masked) {more : ℕ}
    (hreceived : Received (.read args.addr (expect.flags args.flags) (expect.len + more))
      (reply ++ rest)) (hrest : rest.length = more) : expect.Replies reply := by
  replace hreceived : if has (expect.flags args.flags) mRecvLen then
      ∃ count : Byte, (reply ++ rest).head? = some count ∧ count.toNat ≤ blockMax ∧
        (reply ++ rest).length = expect.len + more + count.toNat
    else (reply ++ rest).length = expect.len + more := hreceived
  rw [has_recvLen_flags hmasked, List.length_append, hrest] at hreceived
  cases expect with
  | bytes count => exact Nat.add_right_cancel hreceived
  | block =>
      rw [if_pos (by simp)] at hreceived
      obtain ⟨count, hhead, hcount, hlength⟩ := hreceived
      replace hlength : reply.length + more = 1 + more + count.toNat := hlength
      refine ⟨count, ?_, hcount, by omega⟩
      cases reply with
      | nil =>
          rw [List.length_nil] at hlength
          omega
      | cons byte reply => exact hhead

/-- An error code has been received. -/
theorem received_ne_nil
    (hreceived : Received (.read args.addr (expect.flags args.flags) (expect.len + 1)) bytes) :
    bytes ≠ [] := by
  rintro rfl
  replace hreceived : if has (expect.flags args.flags) mRecvLen then
      ∃ count : Byte, [].head? = some count ∧ count.toNat ≤ blockMax ∧
        0 = expect.len + 1 + count.toNat
    else 0 = expect.len + 1 := hreceived
  split at hreceived
  · obtain ⟨count, hhead, -⟩ := hreceived
    cases hhead
  · omega

theorem isSome_expects (hx : exchange args data = .ok x) : x.expects.isSome = args.reads := by
  obtain ⟨addr, flags, read, command, size⟩ := args
  unfold exchange at hx
  cases size <;> cases read <;> dsimp only at hx <;> try split_ifs at hx
  all_goals first | obtain rfl := Except.ok.inj hx; rfl | cases hx

/-- **`i2c_smbus_xfer_emulated` does what SMBus says**, and no access is outside a buffer. -/
theorem i2cSmbusXferEmulated_eq (h : args.Fits data) (hhonest : Honest bus)
    (frame : Frame) :
    i2cSmbusXferEmulated bus args frame data = some (performed bus args data) := by
  obtain ⟨herror, hok⟩ := prepare_prepares h frame
  unfold i2cSmbusXferEmulated performed
  cases hexchange : exchange args data with
  | error error =>
      rw [herror error hexchange]
      rfl
  | ok x =>
      obtain ⟨p, hprepare, hcarries, hread⟩ := hok x hexchange
      obtain ⟨p', cpec, hguard, hguarded, hread'⟩ := hcarries.guarded h.masked
      rw [hprepare, Option.bind_some]
      dsimp only
      rw [hguard, Option.bind_some]
      have hwires := hguarded.wires
      unfold Exchange.run
      dsimp only
      by_cases hstatus : (bus (x.wires args.addr args.flags args.pec)).1 < 0
      · have htransfer : i2cTransfer bus p'.msgs =
            some ((bus (x.wires args.addr args.flags args.pec)).1, p'.msgs) := by
          unfold i2cTransfer
          rw [hwires, Option.bind_some, if_pos hstatus]
        rw [htransfer, Option.bind_some, if_pos hstatus, if_pos hstatus]
        rfl
      · obtain ⟨msgs, htransfer, hnum, hsame, hnone, hsome⟩ :=
          hguarded.transfer h.masked hhonest (not_lt.mp hstatus)
        rw [htransfer, Option.bind_some, if_neg hstatus, if_neg hstatus]
        dsimp only
        cases hexpects : x.expects with
        | none =>
            have hwrites : (p'.update msgs).read = false := by
              rw [hsame, hread', hread, ← isSome_expects hexchange, hexpects]
              rfl
            rw [hnone hexpects, Bool.and_false, if_neg Bool.false_ne_true, Option.bind_some,
              if_neg (lt_irrefl 0), finish, hwrites, if_neg Bool.false_ne_true]
            show some (0, data) = some (0, overlay args.replyAt [] data)
            rw [overlay_nil]
        | some expect =>
            obtain ⟨bytes, rest, hbytes, hreceived, hlast⟩ := hsome expect hexpects
            obtain ⟨-, hcode⟩ := hguarded.receives expect hexpects
            have hreads : (p'.update msgs).read = args.reads := hsame.trans (hread'.trans hread)
            have htwo : (p'.update msgs).num = if x.sent.isSome then 2 else 1 := by
              rw [hnum, hguarded.num, hexpects, Option.isSome_some, Bool.and_true]
            have hfinish : ∀ reply rest', bytes ++ rest = reply ++ rest' → expect.Replies reply →
                finish args (p'.update msgs) data = some (overlay args.replyAt reply data) :=
              fun reply rest' hreply => finish_eq h hexchange hreads hexpects htwo
                ((congrArg Msg.buf hlast).trans hreply)
            rw [hbytes, Option.isNone_some, if_neg Bool.false_ne_true, hlast, has_rd_flags,
              Bool.and_true]
            cases hpec : args.pec with
            | false =>
                rw [hpec, if_neg Bool.false_ne_true] at hreceived
                have hreply : expect.Replies bytes :=
                  received_replies h.masked ((List.append_nil bytes).symm ▸ hreceived) rfl
                rw [if_neg Bool.false_ne_true, if_neg Bool.false_ne_true, Option.bind_some,
                  if_neg (lt_irrefl 0), hfinish bytes rest rfl hreply]
                rfl
            | true =>
                rw [hpec, if_pos rfl] at hreceived
                have hbytes := received_ne_nil hreceived
                rw [if_pos rfl, if_pos rfl, checkPec_eq cpec hbytes, ← hcode hpec,
                  Option.bind_some]
                by_cases hzero : i2cSmbusPec 0#8 (x.covered args.addr args.flags ++ bytes) = 0#8
                · rw [if_pos hzero, if_neg (lt_irrefl 0), if_pos hzero]
                  obtain ⟨reply, pec, rfl⟩ := (List.eq_nil_or_concat' bytes).resolve_left hbytes
                  rw [List.dropLast_concat, hfinish reply (pec :: rest) (by simp)
                    (received_replies h.masked hreceived rfl)]
                  rfl
                · rw [if_neg hzero, if_pos (by decide), if_neg hzero]
                  rfl

/-- What a request becomes that has an exchange. -/
theorem i2cSmbusXferEmulated_exchange (h : args.Fits data) (hhonest : Honest bus) (frame : Frame)
    (hx : exchange args data = .ok x) : i2cSmbusXferEmulated bus args frame data =
      some (conclude args data (x.run bus args.addr args.flags args.pec)) := by
  rw [i2cSmbusXferEmulated_eq h hhonest]
  unfold performed
  rw [hx]

/-- What is received has the form that was expected. -/
theorem Exchange.run_replies (hmasked : args.Masked) (hhonest : Honest bus)
    (hrun : x.run bus args.addr args.flags args.pec = .ok reply)
    (hexpects : x.expects = some expect) : expect.Replies reply := by
  unfold Exchange.run at hrun
  dsimp only at hrun
  split_ifs at hrun with hstatus hnone hpec hzero
  · rw [hexpects] at hnone
    cases hnone
  all_goals obtain rfl := Except.ok.inj hrun
  all_goals
    have hreceived := hhonest _ (not_lt.mp hstatus)
    have hreads : (x.wires args.addr args.flags args.pec).filter Wire.isRead =
        [.read args.addr (expect.flags args.flags) (expect.len + if args.pec then 1 else 0)] := by
      unfold Exchange.wires
      rw [hexpects]
      cases x.sent <;> rfl
    rw [hreads] at hreceived
    obtain ⟨bytes, received, hbytes, hrest, houtcome⟩ := List.forall₂_cons_left_iff.mp hreceived
    obtain rfl := List.forall₂_nil_left_iff.mp hrest
    rw [houtcome, List.flatten_singleton]
  · rw [hpec, if_pos rfl] at hbytes
    obtain ⟨reply, pec, rfl⟩ := (List.eq_nil_or_concat' bytes).resolve_left (received_ne_nil hbytes)
    rw [List.dropLast_concat]
    exact received_replies hmasked hbytes rfl
  · rw [if_neg hpec] at hbytes
    exact received_replies hmasked ((List.append_nil bytes).symm ▸ hbytes) rfl

/-- A failure is a negative number. -/
theorem Exchange.run_error {addr flags : BitVec 16} {pec : Bool} {status : ℤ}
    (hrun : x.run bus addr flags pec = .error status) : status < 0 := by
  unfold Exchange.run at hrun
  dsimp only at hrun
  split_ifs at hrun with hstatus
  · exact Except.error.inj hrun ▸ hstatus
  · exact Except.error.inj hrun ▸ by decide

end Webcamd.Kernel.Smbus
