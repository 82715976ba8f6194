import Webcamd.Vtuner.ControlFraming
import Webcamd.Vtuner.Device

/-!
# The vTuner pair as a proxy

A request on the client's device becomes a message, the server performs it on its own
device, and the reply becomes the result.  The caller should not see a difference to a
request on the server's device.  Every field is copied four times for that: into the message
and out of it, on the way there and on the way back.

* `proxyIoctl` — `vtunerc_process_ioctl` with the server's control thread at the other end.
  `directIoctl` is the request without the two.
* `Transparent` — the driver is called in the same way, and if it succeeds, the caller's
  argument is left the same.
* `Paired` — a branch of the client and one of the server that fit together.  All branches
  do, so one proof for each kind of branch is enough (`transparent_of_command_iff`).
* `PropertyValue.carried` — what is left of a property that was copied
  (`transparent_props_iff`).

**Where the pair is not transparent** (`transparent_iff`): `DMX_ADD_PID` and
`DMX_REMOVE_PID` read the caller's address in the client's own memory, and of the union of a
property the copies know only `data` and `buffer`, and nothing of its `result`.  The
statistics of a frontend are another member of that union; they are cut off after four
bytes.
-/

namespace Webcamd.Vtuner

variable {K : Type}

/-! ### The pair -/

/-- `vtunerc_do_message`, with the control thread at the other end of the socket.  The
client overwrites as much of its message as it has asked for. -/
def exchange {D : Type} (uapi : Uapi) (order : ByteOrder) (driver : Driver D)
    (ctx : VtunersCtx D) (hdr : Hdr) (body : Bytes) : VtunersCtx D × Bytes × Option Hdr :=
  let turn := vtunersControlStep uapi order driver ctx (hdr.toBytes order) body
  match turn.next, turn.reply with
  | some next, some reply =>
      (next, body.overlay 0 (reply.length - 16) reply.body, some reply.hdr)
  | next, _ => (next.getD ctx, body, none)

section

variable (uapi : Uapi) (order : ByteOrder) (kernel : Kernel K) (ctx : VtunersCtx (Host K))
variable (body : Bytes) (request : Request) (arg : Arg) (own : Option Bytes)

/-- A request on the client's device.  The server has the context `ctx`, and the client's
message buffer the bytes `body`. -/
def proxyIoctl : Option (Ioctl (VtunersCtx (Host K))) :=
  vtunercProcessIoctl uapi order (exchange uapi order (vtunersDriver order kernel)) ctx body
    request arg own

/-- The same request on the server's device. -/
def directIoctl : ℤ × Device K × Arg := linuxIoctl kernel request arg ctx.dvb.device

/-- Two arguments agree in every field that is not reserved. -/
structure Arg.Agrees (arg another : Arg) : Prop where
  value : arg.value = another.value
  num : arg.num = another.num
  fields : ∀ field, ∀ k < Field.size field, arg.fields field k = another.fields field k
  props : ∀ i < another.num.toNat, (arg.props i).value = (another.props i).value ∧
    (arg.props i).result = (another.props i).result

/-- The server's device has been called as it would have been without the pair, and a
caller whose request has succeeded cannot tell the difference either. -/
def Transparent : Prop :=
  ∃ outcome, proxyIoctl uapi order kernel ctx body request arg own = some outcome ∧
    outcome.peer.dvb.device = (directIoctl kernel ctx request arg).2.1 ∧
    (0 ≤ (directIoctl kernel ctx request arg).1 →
      outcome.arg.Agrees (directIoctl kernel ctx request arg).2.2)

end

/-- What is left of a property value when one of the four loops has copied it: the first
four bytes of the union, or the buffer if the command has one. -/
def PropertyValue.carried (uapi : Uapi) (value : PropertyValue) : PropertyValue where
  cmd := value.cmd
  bufferData := fun k =>
    if uapi.hasBuffer value.cmd || decide (k.val < 4) then value.bufferData k else 0
  bufferLen := if uapi.hasBuffer value.cmd then value.bufferLen else 0
  bufferReserved := fun _ => 0

/-- The union has nothing but zeros outside of what is copied. -/
structure PropertyValue.Fits (uapi : Uapi) (value : PropertyValue) : Prop where
  bufferData : uapi.hasBuffer value.cmd = false → ∀ k : Fin 32, 4 ≤ k.val →
    value.bufferData k = 0
  bufferLen : uapi.hasBuffer value.cmd = false → value.bufferLen = 0
  bufferReserved : ∀ k, value.bufferReserved k = 0

instance (uapi : Uapi) (value : PropertyValue) : Decidable (value.Fits uapi) :=
  decidable_of_iff
    ((uapi.hasBuffer value.cmd = false → ∀ k : Fin 32, 4 ≤ k.val → value.bufferData k = 0) ∧
      (uapi.hasBuffer value.cmd = false → value.bufferLen = 0) ∧
      ∀ k, value.bufferReserved k = 0)
    ⟨fun h => ⟨h.1, h.2.1, h.2.2⟩, fun h => ⟨h.bufferData, h.bufferLen, h.bufferReserved⟩⟩

/-- What the client's own memory has to have for the two requests that read it. -/
def OwnHas (own : Option Bytes) (arg : Arg) : Prop :=
  ∃ bytes, own = some bytes ∧ ∀ k < 2, bytes k = arg.fields .value16 k

/-! ### One exchange -/

section

variable {D : Type} {uapi : Uapi} {order : ByteOrder} {driver : Driver D}
variable {ctx : VtunersCtx D} {request : Request} {arg : Arg} {own : Option Bytes}
variable {body prepared : Bytes} {mtype : MsgType} {rxSize txSize : ℕ}

/-- The client's message is processed, and the client gets the reply. -/
theorem exchange_eq
    (h : vtunercPrepare uapi order request arg own body =
      .message mtype rxSize txSize prepared)
    {ret : ℤ} {after : VtunersCtx D}
    (hresult : (vtunersProcessMsg uapi order driver mtype.code
      { ctx with body := ctx.body.overlay 0 rxSize prepared }).result = some (ret, after)) :
    exchange uapi order driver ctx (vtunercHdr mtype rxSize txSize) prepared =
      (after, prepared.overlay 0 txSize after.body,
        some { vtunercHdr mtype rxSize txSize with error := BitVec.ofInt 16 ret }) := by
  have hwell := Control.wellFormed_of_prepare h
  have hread : readMsg uapi order ctx ((vtunercHdr mtype rxSize txSize).toBytes order)
      prepared = some ⟨vtunercHdr mtype rxSize txSize,
        ctx.body.overlay 0 (prepared.slice 0 rxSize).length prepared, false⟩ :=
    Control.readMsg_eq hwell ctx rfl
  rw [Bytes.length_slice] at hread
  have htx : (vtunercHdr mtype rxSize txSize).txSize.toNat = txSize := hwell.hdr_txSize
  have hfits : ¬ sizeBody < txSize := not_lt.mpr hwell.txSize_le
  have hprocess : (vtunersProcessMsg uapi order driver (vtunercHdr mtype rxSize txSize).mtype
      { ctx with body := ctx.body.overlay 0 rxSize prepared }).result = some (ret, after) :=
    hresult
  simp only [exchange, vtunersControlStep, hread, hprocess, htx, hfits, if_false,
    Bool.false_eq_true, Nat.add_sub_cancel]

end

/-! ### The two tables -/

/-- These fields are in one member, and each is there once. -/
def OfMember (member : Member) (fields : List Field) : Prop :=
  fields.Nodup ∧ ∀ field ∈ fields, field.member = member

instance (member : Member) (fields : List Field) : Decidable (OfMember member fields) :=
  inferInstanceAs (Decidable (_ ∧ _))

/-- A branch of the client and one of the server that fit together, and carry what the
request reads and writes. -/
inductive Paired (request : Request) : Command → Service → Prop where
  | plain (mtype : MsgType) (hreads : request.reads = []) (hwrites : request.writes = []) :
      Paired request (.plain mtype) .plain
  | immediate (mtype : MsgType) (hreads : request.reads = [])
      (hwrites : request.writes = []) : Paired request (.immediate mtype) .immediate
  | set (mtype : MsgType) (member : Member) (hreads : OfMember member request.reads)
      (hwrites : request.writes = []) :
      Paired request (.set mtype member request.reads) (.set member request.reads)
  | get (mtype : MsgType) (member : Member) (hreads : request.reads = [])
      (hwrites : OfMember member request.writes) :
      Paired request (.get mtype member request.writes) .inBody
  /-- nothing is lost when the whole structure of the caller is cleared -/
  | getCleared (mtype : MsgType) (member : Member) (hreads : request.reads = [])
      (hwrites : OfMember member request.writes)
      (hall : ∀ field ∈ Field.all, field.member = member → field ∈ request.writes) :
      Paired request (.getCleared mtype member request.writes) (.get member request.writes)
  | exchange (mtype : MsgType) (member : Member) (hreads : OfMember member request.reads)
      (hwrites : OfMember member request.writes) :
      Paired request ⟨mtype, .copied member request.reads, member.size, member.size,
        .copied request.writes⟩ (.exchange member request.reads request.writes)
  | dereferenced (mtype : MsgType) (hreads : request.reads = [.value16])
      (hwrites : request.writes = []) :
      Paired request ⟨mtype, .dereferenced, Member.size .value16, 0, .nothing⟩ .inBody

/-- **The two tables fit together.** -/
theorem Request.paired {request : Request} {command : Command}
    (h : request.command = some command) :
    ∃ service, request.service = some service ∧ Paired request command service := by
  cases request <;> cases h <;> first
    | exact ⟨_, rfl, .plain _ rfl rfl⟩
    | exact ⟨_, rfl, .immediate _ rfl rfl⟩
    | exact ⟨_, rfl, .set _ _ (by decide) rfl⟩
    | exact ⟨_, rfl, .get _ _ rfl (by decide)⟩
    | exact ⟨_, rfl, .getCleared _ _ rfl (by decide) (by decide +kernel)⟩
    | exact ⟨_, rfl, .exchange _ _ (by decide) (by decide)⟩
    | exact ⟨_, rfl, .dereferenced _ rfl rfl⟩

theorem Request.isImmediate_iff {request : Request} {command : Command}
    (h : request.command = some command) :
    request.isImmediate = true ↔ command.input = .immediate := by
  cases request <;> cases h <;>
    simp [Request.isImmediate, Command.plain, Command.immediate, Command.set, Command.get,
      Command.getCleared]

theorem Request.hasProps_of_command {request : Request} {command : Command}
    (h : request.command = some command) : request.hasProps = false := by
  cases request <;> cases h <;> rfl

theorem Request.dereferenced_iff {request : Request} {command : Command}
    (h : request.command = some command) :
    command.input = .dereferenced ↔ request = .dmxAddPid ∨ request = .dmxRemovePid := by
  cases request <;> cases h <;>
    simp [Command.plain, Command.immediate, Command.set, Command.get, Command.getCleared]

/-! ### The fields of a request -/

section

variable {order : ByteOrder} {request : Request} {command : Command} {service : Service}
variable {arg : Arg} {own : Option Bytes} {body old prepared : Bytes} {mtype : MsgType}
variable {rxSize txSize : ℕ} {kernel : Kernel K}

/-- A field that is put into a member arrives with the bytes of the member. -/
theorem getFields_overlay_putFields {member : Member} {fields : List Field}
    (h : OfMember member fields) (values : Fields) {field : Field} (hfield : field ∈ fields)
    {k : ℕ} (hk : k < field.size) :
    (old.overlay 0 member.size (body.putFields fields values)).getFields field k =
      values field k := by
  have hend := field.end_le
  rw [h.2 field hfield] at hend
  rw [Bytes.getFields, Bytes.front_overlay _ _ (by omega)]
  exact Bytes.getFields_putFields h.1 h.2 hfield hk

/-- The two bytes from the client's own memory arrive. -/
theorem getFields_overlay_dereferenced (bytes : Bytes) {k : ℕ} (hk : k < 2) :
    (old.overlay 0 2 (body.putFields [.value16] fun _ => bytes)).getFields .value16 k =
      bytes k := by
  have hmember : OfMember .value16 [.value16] := by decide
  exact getFields_overlay_putFields hmember (fun _ => bytes) (List.mem_singleton_self _) hk

/-- A number arrives. -/
theorem load32_overlay_store32 (value : BitVec 32) :
    (old.overlay 0 4 (body.store32 order 0 value)).load32 order 0 = value := by
  rw [Bytes.load32_front_overlay _ _ _ (by omega), Bytes.load32_store32]

theorem setWidth_setWidth_of_lt {value : BitVec 64} (h : value.toNat < 2 ^ 32) :
    (value.setWidth 32).setWidth 64 = value := by
  refine BitVec.eq_of_toNat_eq ?_
  rw [BitVec.toNat_setWidth, BitVec.toNat_setWidth, Nat.mod_eq_of_lt h,
    Nat.mod_eq_of_lt (by omega)]

/-- **The driver gets what the caller has given.**  In the two requests whose argument is
read from the client's own memory, that memory has to have it. -/
theorem Paired.call_argument (h : Paired request command service)
    (hcommand : request.command = some command)
    (hvalue : request.isImmediate = true → arg.value.toNat < 2 ^ 32)
    (hprepare : command.prepare order arg own body = .message mtype rxSize txSize prepared)
    (hown : command.input = .dereferenced → OwnHas own arg) (dvb : Fields) :
    kernel.call request (service.argument order dvb (old.overlay 0 command.rxSize prepared)) =
      kernel.call request arg := by
  have himmediate := Request.isImmediate_iff hcommand
  have hprops := Request.hasProps_of_command hcommand
  cases h with
  | plain _ hreads _ | get _ _ hreads _ | getCleared _ _ hreads _ _ =>
      refine Kernel.call_congr (fun hi => ?_) (by simp [hreads]) hprops
      cases himmediate.mp hi
  | immediate _ hreads _ =>
      refine Kernel.call_congr (fun hi => ?_) (by simp [hreads]) hprops
      cases hprepare
      change ((old.overlay 0 4 _).load32 order 0).setWidth 64 = arg.value
      rw [load32_overlay_store32, setWidth_setWidth_of_lt (hvalue hi)]
  | set _ _ hreads _ | exchange _ _ hreads _ =>
      refine Kernel.call_congr (fun hi => ?_) (fun field hfield k hk => ?_) hprops
      · cases himmediate.mp hi
      · cases hprepare
        change Fields.copy _ _ _ field k = _
        rw [Fields.copy, if_pos hfield]
        exact getFields_overlay_putFields hreads arg.fields hfield hk
  | dereferenced _ hreads _ =>
      refine Kernel.call_congr (fun hi => ?_) (fun field hfield k hk => ?_) hprops
      · cases himmediate.mp hi
      · rw [hreads, List.mem_singleton] at hfield
        subst hfield
        obtain ⟨bytes, rfl, hbytes⟩ := hown rfl
        cases hprepare
        exact (getFields_overlay_dereferenced bytes hk).trans (hbytes k hk)

/-- **The caller gets what the driver has given**, and keeps the rest. -/
theorem Paired.apply_output (h : Paired request command service)
    (fields handed answer : Fields) (presented : Bytes) {field : Field} {k : ℕ}
    (hk : k < field.size) :
    command.output.apply (old.overlay 0 command.txSize
        (service.reply request (handed.copy request.writes answer) presented)) fields field k =
      fields.copy request.writes answer field k := by
  have hcopied : ∀ (member : Member) (buffer : Bytes), OfMember member request.writes →
      field ∈ request.writes →
      (old.overlay 0 member.size (buffer.putFields request.writes
        (handed.copy request.writes answer))).getFields field k = answer field k := by
    intro member buffer hmember hfield
    rw [getFields_overlay_putFields hmember _ hfield hk, Fields.copy, if_pos hfield]
  cases h with
  | plain _ _ hwrites | immediate _ _ hwrites | set _ _ _ hwrites
  | dereferenced _ _ hwrites =>
      rw [hwrites]
      rfl
  | get _ member _ hwrites | exchange _ member _ hwrites =>
      change Fields.copy _ _ _ field k = _
      by_cases hfield : field ∈ request.writes
      · rw [Fields.copy, if_pos hfield, Fields.copy, if_pos hfield]
        exact hcopied member _ hwrites hfield
      · rw [Fields.copy, if_neg hfield, Fields.copy, if_neg hfield]
  | getCleared _ member _ hwrites hall =>
      change Fields.copy _ _ _ field k = _
      by_cases hfield : field ∈ request.writes
      · rw [Fields.copy, if_pos hfield, Fields.copy, if_pos hfield]
        exact hcopied member _ hwrites hfield
      · have hmember : field.member ≠ member := fun heq =>
          hfield (hall field field.mem_all heq)
        rw [Fields.copy, if_neg hfield, Fields.copy, if_neg hfield, Fields.clear,
          if_neg hmember]

end

/-! ### The requests of the table -/

section

variable (uapi : Uapi) (order : ByteOrder) (kernel : Kernel K) (ctx : VtunersCtx (Host K))
variable {body prepared : Bytes} {request : Request} {arg : Arg} {own : Option Bytes}
variable {command : Command} {service : Service}

/-- The server performs the branch of the request. -/
theorem vtunersProcessMsg_of_command (hcommand : request.command = some command)
    (hservice : request.service = some service) :
    (vtunersProcessMsg uapi order (vtunersDriver order kernel) command.mtype.code ctx).result =
      some ((service.perform order kernel request ctx.dvb ctx.body).1,
        { ctx with
          dvb := (service.perform order kernel request ctx.dvb ctx.body).2.1
          body := (service.perform order kernel request ctx.dvb ctx.body).2.2 }) := by
  obtain ⟨hrequest, -, -⟩ := Request.command_fits hcommand
  have hproperty := Control.not_isProperty_of_command hcommand
  rw [IsProperty, MsgType.decode_code] at hproperty
  simp only [vtunersProcessMsg, MsgType.decode_code]
  split
  · contradiction
  · rename_i heq
    exact absurd (.inl heq) hproperty
  · rename_i heq
    exact absurd (.inr heq) hproperty
  · rename_i type _ _ heq
    obtain rfl := Option.some.inj heq
    simp only [hrequest, vtunersDriver, hservice]

/-- The argument that the server hands to the driver, if the client sends this message. -/
def handedArg (command : Command) (service : Service) (prepared : Bytes) : Arg :=
  service.argument order ctx.dvb.dvb (ctx.body.overlay 0 command.rxSize prepared)

/-- In the two requests that read the client's own memory, this is what is there. -/
theorem Paired.handedArg_dereferenced (h : Paired request command service) {bytes : Bytes}
    (hinput : command.input = .dereferenced)
    (hprepare : command.prepare order arg (some bytes) body =
      .message command.mtype command.rxSize command.txSize prepared) :
    Field.value16 ∈ request.reads ∧ ∀ k < 2,
      (handedArg order ctx command service prepared).fields .value16 k = bytes k := by
  cases h with
  | dereferenced _ hreads _ =>
      cases hprepare
      rw [hreads]
      exact ⟨List.mem_singleton_self _, fun k hk => getFields_overlay_dereferenced bytes hk⟩
  | _ => cases hinput

/-- The outcome of a request of the table. -/
theorem proxyIoctl_of_command (hcommand : request.command = some command)
    (hpaired : Paired request command service) (hservice : request.service = some service)
    (hprepare : command.prepare order arg own body =
      .message command.mtype command.rxSize command.txSize prepared) :
    let handed := handedArg order ctx command service prepared
    ∃ outcome, proxyIoctl uapi order kernel ctx body request arg own = some outcome ∧
      outcome.peer.dvb.device = (linuxIoctl kernel request handed ctx.dvb.device).2.1 ∧
      outcome.arg.Agrees (request.fill arg
        (kernel.perform (kernel.call request handed) ctx.dvb.device.state).2) := by
  have hmessage : vtunercPrepare uapi order request arg own body =
      .message command.mtype command.rxSize command.txSize prepared := by
    rw [vtunercPrepare, hcommand]
    exact hprepare
  have hexchange := exchange_eq hmessage (vtunersProcessMsg_of_command uapi order kernel
    { ctx with body := ctx.body.overlay 0 command.rxSize prepared } hcommand hservice)
  have hget : request ≠ .feGetProperty := by
    rintro rfl
    cases hcommand
  simp only [proxyIoctl, vtunercProcessIoctl, hmessage, hexchange]
  refine ⟨_, rfl, rfl, ?_⟩
  simp only [vtunercFinish, hcommand]
  refine ⟨rfl, rfl, fun field k hk => hpaired.apply_output arg.fields _ _ _ hk, fun i _ => ?_⟩
  simp only [Request.fill, hget, false_and, if_false, and_self]

/-- The message of a request of the table is made up, if the argument can be read. -/
theorem Command.prepare_eq_message (command : Command) (arg : Arg) (body : Bytes)
    (hown : command.input = .dereferenced → own ≠ none) :
    ∃ prepared, command.prepare order arg own body =
      .message command.mtype command.rxSize command.txSize prepared := by
  simp only [Command.prepare]
  split
  · exact ⟨_, rfl⟩
  · exact ⟨_, rfl⟩
  · exact ⟨_, rfl⟩
  · rename_i hinput
    cases own with
    | none => exact absurd rfl (hown hinput)
    | some bytes => exact ⟨_, rfl⟩

/-- A request that reads an address the client does not have ends the client. -/
theorem proxyIoctl_crashed (hcommand : request.command = some command)
    (hinput : command.input = .dereferenced) :
    proxyIoctl uapi order kernel ctx body request arg none = none := by
  simp only [proxyIoctl, vtunercProcessIoctl, vtunercPrepare, hcommand, Command.prepare, hinput]

/-- **The requests of the table** are transparent; but those that read the client's own
memory only if it has what the caller's has. -/
theorem transparent_of_command_iff (hcommand : request.command = some command)
    (hvalue : request.isImmediate = true → arg.value.toNat < 2 ^ 32) :
    Transparent uapi order kernel ctx body request arg own ↔
      (command.input = .dereferenced → OwnHas own arg) := by
  obtain ⟨service, hservice, hpaired⟩ := Request.paired hcommand
  constructor
  · rintro ⟨outcome, houtcome, hdevice, -⟩ hinput
    cases own with
    | none =>
        rw [proxyIoctl_crashed uapi order kernel ctx hcommand hinput] at houtcome
        cases houtcome
    | some bytes =>
        obtain ⟨prepared, hprepare⟩ := command.prepare_eq_message order arg body
          fun _ => Option.some_ne_none bytes
        obtain ⟨another, hanother, hpeer, -⟩ :=
          proxyIoctl_of_command uapi order kernel ctx hcommand hpaired hservice hprepare
        obtain rfl := Option.some.inj (houtcome.symm.trans hanother)
        have hcall := call_eq_of_device_eq (hpeer.symm.trans hdevice)
        obtain ⟨hreads, hbytes⟩ := hpaired.handedArg_dereferenced order ctx hinput hprepare
        exact ⟨bytes, rfl, fun k hk =>
          (hbytes k hk).symm.trans (Kernel.fields_eq_of_call_eq hcall hreads hk)⟩
  · intro hown
    have hreadable : command.input = .dereferenced → own ≠ none := by
      intro hinput hnone
      obtain ⟨bytes, hsome, -⟩ := hown hinput
      cases hnone.symm.trans hsome
    obtain ⟨prepared, hprepare⟩ := command.prepare_eq_message order arg body hreadable
    obtain ⟨outcome, houtcome, hpeer, harg⟩ :=
      proxyIoctl_of_command uapi order kernel ctx hcommand hpaired hservice hprepare
    have hcall : kernel.call request (handedArg order ctx command service prepared) =
        kernel.call request arg :=
      hpaired.call_argument hcommand hvalue hprepare hown ctx.dvb.dvb
    refine ⟨outcome, houtcome, hpeer.trans (linuxIoctl_of_call_eq hcall).2, fun _ => ?_⟩
    rw [hcall] at harg
    exact harg

end

/-! ### The property lists -/

/-- The copies lose what is outside of them, and nothing else. -/
theorem PropertyValue.carried_eq_iff (uapi : Uapi) (value : PropertyValue) :
    value.carried uapi = value ↔ value.Fits uapi := by
  obtain ⟨cmd, bufferData, bufferLen, bufferReserved⟩ := value
  simp only [PropertyValue.carried, PropertyValue.mk.injEq, true_and]
  constructor
  · rintro ⟨hdata, hlen, hreserved⟩
    refine ⟨fun hbuffer k hk => ?_, fun hbuffer => ?_, fun k => (congrFun hreserved k).symm⟩
    · have hout : ¬ k.val < 4 := by omega
      have hbyte := congrFun hdata k
      simp only [hbuffer, hout, decide_false, Bool.or_self, Bool.false_eq_true, if_false]
        at hbyte
      exact hbyte.symm
    · simp only [hbuffer, Bool.false_eq_true, if_false] at hlen
      exact hlen.symm
  · rintro ⟨hdata, hlen, hreserved⟩
    refine ⟨?_, ?_, ?_⟩
    · funext k
      split
      · rfl
      · rename_i hout
        simp only [Bool.or_eq_true, decide_eq_true_eq, not_or, not_lt, Bool.not_eq_true] at hout
        exact (hdata hout.1 k hout.2).symm
    · split
      · rfl
      · rename_i hbuffer
        exact (hlen (by simpa using hbuffer)).symm
    · funext k
      exact (hreserved k).symm

/-- A property that was copied. -/
theorem value_peerProperty (uapi : Uapi) (prop : LinuxProperty) :
    (peerProperty uapi prop.toDtvProperty).value = prop.value.carried uapi := rfl

section

variable {uapi : Uapi} {order : ByteOrder} {old body : Bytes} {size i : ℕ}

theorem prop_overlay (h : propOffset i + 56 ≤ size) :
    (old.overlay 0 size body).prop order i = body.prop order i :=
  Bytes.prop_congr fun _ hk => Bytes.front_overlay old body (by omega)

/-- The properties of a list are inside of it. -/
theorem propOffset_add_le {max : ℕ} (h : i < max) : propOffset i + 56 ≤ propOffset max := by
  simp only [propOffset]
  omega

/-- The request of a property message. -/
def propertyRequest (isSet : Bool) : Request :=
  if isSet then .feSetProperty else .feGetProperty

/-- The server hands the properties of the message to the driver, and puts those the driver
leaves into the message. -/
theorem processProperties_spec {D : Type} (uapi : Uapi) (driver : Driver D)
    (ctx : VtunersCtx D) (isSet : Bool) {num : BitVec 32} (hnum : ctx.body.num order = num)
    (hle : num.toNat ≤ propMax) :
    ∃ (props : Fin propMax → DtvProperty) (bytes : Bytes),
      let answer := driver.property (propertyRequest isSet) num ctx.dvb props
      (∀ i : Fin propMax, i.val < num.toNat →
        props i = copyProperty uapi (ctx.body.prop order i)) ∧
      (isSet = false → ∀ i : Fin propMax, i.val < num.toNat →
        bytes.prop order i = copyProperty uapi (answer.2.2 i)) ∧
      (processProperties uapi order driver isSet ctx).result =
        some (answer.1, ⟨answer.2.2, answer.2.1, bytes⟩) := by
  have hsmall : ¬ (propMax : ℤ) < (num.toNat : ℤ) := by omega
  obtain ⟨props, hloop, hprops⟩ := propLoop_copy uapi hle (ctx.body.prop order) ctx.dtvProps
  cases isSet with
  | true =>
      refine ⟨props, ctx.body, hprops, fun hset => (by cases hset), ?_⟩
      simp only [processProperties, hnum, clampNum_of_le hle, toInt_of_le hle, hsmall, if_false,
        hloop, if_true, propertyRequest]
  | false =>
      obtain ⟨bytes, hback, hbytes⟩ := propLoop_setProp uapi order hle
        (driver.property .feGetProperty num ctx.dvb props).2.2 ctx.body
      refine ⟨props, bytes, hprops, fun _ => hbytes, ?_⟩
      simp only [processProperties, hnum, clampNum_of_le hle, toInt_of_le hle, hsmall, if_false,
        hloop, Bool.false_eq_true, hback, Option.map_some, propertyRequest]

/-- The body of the message with the caller's property list. -/
def listBody (uapi : Uapi) (order : ByteOrder) (arg : Arg) (body : Bytes) : Bytes :=
  putProps uapi order arg.props arg.num.toNat
    ((body.clear sizeProperties).store32 order 0 arg.num)

theorem num_listBody (arg : Arg) : (listBody uapi order arg body).num order = arg.num := by
  rw [listBody, num_putProps]
  exact Bytes.load32_store32 _ order 0 arg.num

/-- The body that the server gets, after an old one. -/
def listPresented (uapi : Uapi) (order : ByteOrder) (arg : Arg) (old body : Bytes) : Bytes :=
  old.overlay 0 (propOffset arg.num.toNat) (listBody uapi order arg body)

/-- The server reads the number and the properties from what has arrived. -/
theorem num_listPresented (arg : Arg) :
    (listPresented uapi order arg old body).num order = arg.num :=
  (Bytes.load32_front_overlay old _ order (Nat.le_add_right 4 _)).trans (num_listBody arg)

theorem prop_listPresented {arg : Arg} (hi : i < arg.num.toNat) :
    (listPresented uapi order arg old body).prop order i =
      copyProperty uapi (arg.props i).toDtvProperty := by
  rw [listPresented, prop_overlay (propOffset_add_le hi)]
  exact prop_putProps uapi order arg.props hi _

/-- The argument that the server hands to the driver has the copies of the caller's
properties. -/
def HandsCopies (uapi : Uapi) (arg handed : Arg) : Prop :=
  handed.num = arg.num ∧
    ∀ i < arg.num.toNat, handed.props i = peerProperty uapi (arg.props i).toDtvProperty

/-- The argument that the server makes up from the message. -/
theorem handsCopies_properties {arg : Arg} {props : Fin propMax → DtvProperty}
    (hnum : arg.num.toNat ≤ propMax)
    (h : ∀ i : Fin propMax, i.val < arg.num.toNat →
      props i = copyProperty uapi (copyProperty uapi (arg.props i).toDtvProperty)) :
    HandsCopies uapi arg (Arg.properties arg.num props) := by
  refine ⟨rfl, fun i hi => ?_⟩
  have hin : i < propMax := by omega
  simp only [Arg.properties, hin, dif_pos, h ⟨i, hin⟩ hi, copyProperty_copyProperty]
  rfl

end

section

variable (uapi : Uapi) (order : ByteOrder) (kernel : Kernel K) (ctx : VtunersCtx (Host K))
variable {arg : Arg} {own : Option Bytes}

/-- The client's message with a property list. -/
theorem vtunercPrepare_props (isSet : Bool) (hnum : arg.num.toNat ≤ propMax)
    (own : Option Bytes) (body : Bytes) :
    vtunercPrepare uapi order (propertyRequest isSet) arg own body =
      .message (if isSet then .feSetProperty else .feGetProperty) (propOffset arg.num.toNat)
        (if isSet then 0 else propOffset arg.num.toNat) (listBody uapi order arg body) := by
  have hsmall : ¬ propMax < arg.num.toNat := not_lt.mpr hnum
  cases isSet <;>
    simp [propertyRequest, vtunercPrepare, Request.command, prepareProperties, hsmall, listBody]

/-- The server takes the branch of the property messages. -/
theorem vtunersProcessMsg_isSet {D : Type} (driver : Driver D) (ctx : VtunersCtx D)
    (isSet : Bool) :
    vtunersProcessMsg uapi order driver
        (MsgType.code (if isSet then .feSetProperty else .feGetProperty)) ctx =
      processProperties uapi order driver isSet ctx := by
  rw [vtunersProcessMsg, MsgType.decode_code]
  cases isSet with
  | true => rfl
  | false => rfl

/-- The server's part of a request with properties: the driver gets the copies of the
caller's, and what it leaves is copied. -/
theorem vtunersProcessMsg_props (isSet : Bool) (hnum : arg.num.toNat ≤ propMax)
    (body : Bytes) :
    ∃ handed : Arg, HandsCopies uapi arg handed ∧
      let performed := linuxIoctl kernel (propertyRequest isSet) handed ctx.dvb.device
      ∃ after, (vtunersProcessMsg uapi order (vtunersDriver order kernel)
          (MsgType.code (if isSet then .feSetProperty else .feGetProperty))
          { ctx with body := listPresented uapi order arg ctx.body body }).result =
            some (performed.1, after) ∧
        after.dvb.device = performed.2.1 ∧
        (isSet = false → ∀ i < arg.num.toNat, after.body.prop order i =
          copyProperty uapi (performed.2.2.props i).toDtvProperty) := by
  obtain ⟨props, bytes, hprops, hbytes, hresult⟩ := processProperties_spec uapi
    (vtunersDriver order kernel)
    { ctx with body := listPresented uapi order arg ctx.body body } isSet
    (num_listPresented arg) hnum
  have hcopies : HandsCopies uapi arg (Arg.properties arg.num props) :=
    handsCopies_properties hnum fun i hi => by rw [hprops i hi, prop_listPresented hi]
  rw [← vtunersProcessMsg_isSet] at hresult
  exact ⟨_, hcopies, _, hresult, rfl, fun hget i hi => hbytes hget ⟨i, by omega⟩ hi⟩

/-- The outcome of a request with properties: the caller of `FE_GET_PROPERTY` gets the copies
of what the driver has left. -/
theorem proxyIoctl_props (isSet : Bool) (hnum : arg.num.toNat ≤ propMax)
    (own : Option Bytes) (body : Bytes) :
    ∃ handed : Arg, HandsCopies uapi arg handed ∧
      let performed := linuxIoctl kernel (propertyRequest isSet) handed ctx.dvb.device
      ∃ outcome, proxyIoctl uapi order kernel ctx body (propertyRequest isSet) arg own =
          some outcome ∧
        outcome.peer.dvb.device = performed.2.1 ∧
        outcome.arg.value = arg.value ∧ outcome.arg.num = arg.num ∧
        outcome.arg.fields = arg.fields ∧
        ∀ i < arg.num.toNat, outcome.arg.props i =
          if isSet then arg.props i
          else peerProperty uapi (performed.2.2.props i).toDtvProperty := by
  obtain ⟨handed, hcopies, after, hresult, hdevice, hreply⟩ :=
    vtunersProcessMsg_props uapi order kernel ctx isSet hnum body
  have hmessage := vtunercPrepare_props uapi order isSet hnum own body
  have hexchange := exchange_eq hmessage hresult
  refine ⟨handed, hcopies, ?_⟩
  simp only [proxyIoctl, vtunercProcessIoctl, hmessage, hexchange]
  refine ⟨_, rfl, hdevice, ?_⟩
  cases isSet with
  | true => exact ⟨rfl, rfl, rfl, fun i _ => rfl⟩
  | false =>
      refine ⟨rfl, rfl, rfl, fun i hi => ?_⟩
      -- the client reads the property from the reply
      have hprop : (Bytes.overlay (listBody uapi order arg body) 0 (propOffset arg.num.toNat)
          after.body).prop order i = after.body.prop order i :=
        prop_overlay (propOffset_add_le hi)
      have hmember : ∀ prop : DtvProperty,
          peerProperty uapi (copyProperty uapi prop) = peerProperty uapi prop := by
        intro prop
        simp only [peerProperty, copyProperty_copyProperty]
      change (if i < arg.num.toNat then _ else _) = peerProperty uapi _
      rw [if_pos hi]
      exact (congrArg (peerProperty uapi) (hprop.trans (hreply rfl i hi))).trans (hmember _)

/-- A request with properties as the driver sees it. -/
theorem call_propertyRequest (isSet : Bool) (arg : Arg) :
    kernel.call (propertyRequest isSet) arg = ⟨propertyRequest isSet, 0, fun _ _ => 0,
      (List.range arg.num.toNat).map fun i =>
        kernel.sees (propertyRequest isSet) (arg.props i)⟩ := by
  have hfields : arg.fields.only [] = fun _ _ => 0 := by
    funext field k
    simp [Fields.only]
  cases isSet <;>
    simp [propertyRequest, Kernel.call, Request.isImmediate, Request.reads, Request.hasProps,
      hfields]

/-- The driver sees the same of a property and of its copy, if it does not look at what is
lost. -/
theorem sees_peerProperty_iff (request : Request) (prop : LinuxProperty) :
    kernel.sees request (peerProperty uapi prop.toDtvProperty) = kernel.sees request prop ↔
      (kernel.usesUnion request prop.cmd = true → prop.value.Fits uapi) := by
  have hcmd : (peerProperty uapi prop.toDtvProperty).cmd = prop.cmd := rfl
  rw [Kernel.sees, Kernel.sees, hcmd, value_peerProperty]
  split
  · rename_i huses
    rw [PropertyValue.carried_eq_iff]
    exact ⟨fun hfits _ => hfits, fun hfits => hfits huses⟩
  · rename_i hunused
    exact iff_of_true rfl fun huses => absurd huses hunused

/-- The driver is called with the caller's properties if nothing is lost in the copies. -/
theorem call_eq_iff_fits (isSet : Bool) {handed : Arg} (h : HandsCopies uapi arg handed) :
    kernel.call (propertyRequest isSet) handed = kernel.call (propertyRequest isSet) arg ↔
      ∀ i < arg.num.toNat,
        kernel.usesUnion (propertyRequest isSet) (arg.props i).cmd = true →
          (arg.props i).value.Fits uapi := by
  obtain ⟨hnum, hprops⟩ := h
  rw [call_propertyRequest, call_propertyRequest, hnum, Call.mk.injEq, List.map_inj_left]
  simp only [true_and, List.mem_range]
  refine forall_congr' fun i => forall_congr' fun hi => ?_
  rw [hprops i hi, sees_peerProperty_iff]

/-- A driver that is called in the same way leaves the same in the properties. -/
theorem value_props_of_call_eq {handed : Arg} {device : Device K}
    (hcall : kernel.call .feGetProperty handed = kernel.call .feGetProperty arg)
    (hnum : handed.num = arg.num) {i : ℕ} (hi : i < arg.num.toNat) :
    ((linuxIoctl kernel .feGetProperty handed device).2.2.props i).value =
      ((linuxIoctl kernel .feGetProperty arg device).2.2.props i).value := by
  simp only [linuxIoctl, Request.fill, hcall, hnum, hi, and_self, if_true,
    LinuxProperty.answered, LinuxProperty.value]

/-- **The requests with properties** are transparent exactly if nothing is lost in the
copies, neither on the way to the driver nor, if the caller asks for the properties, on the
way back. -/
theorem transparent_props_iff (isSet : Bool) (hnum : arg.num.toNat ≤ propMax)
    (own : Option Bytes) (body : Bytes) :
    Transparent uapi order kernel ctx body (propertyRequest isSet) arg own ↔
      (∀ i < arg.num.toNat,
        kernel.usesUnion (propertyRequest isSet) (arg.props i).cmd = true →
          (arg.props i).value.Fits uapi) ∧
      (isSet = false → 0 ≤ (directIoctl kernel ctx (propertyRequest isSet) arg).1 →
        ∀ i < arg.num.toNat,
          ((directIoctl kernel ctx (propertyRequest isSet) arg).2.2.props i).value.Fits uapi ∧
          ((directIoctl kernel ctx (propertyRequest isSet) arg).2.2.props i).result = 0) := by
  obtain ⟨handed, hcopies, outcome, houtcome, hdevice, hvalue, hnumber, hfields, hprops⟩ :=
    proxyIoctl_props uapi order kernel ctx isSet hnum own body
  have hfits := call_eq_iff_fits uapi kernel isSet hcopies
  -- what the caller of `FE_GET_PROPERTY` gets, if the driver has got everything
  have hgot : isSet = false →
      kernel.call (propertyRequest isSet) handed = kernel.call (propertyRequest isSet) arg →
      ∀ i < arg.num.toNat,
        (outcome.arg.props i).value = ((directIoctl kernel ctx (propertyRequest isSet)
          arg).2.2.props i).value.carried uapi ∧ (outcome.arg.props i).result = 0 := by
    rintro rfl hcall i hi
    rw [hprops i hi]
    refine ⟨?_, rfl⟩
    simp only [Bool.false_eq_true, if_false]
    rw [value_peerProperty]
    exact congrArg _ (value_props_of_call_eq kernel hcall hcopies.1 hi)
  constructor
  · rintro ⟨another, hanother, hsame, hagrees⟩
    obtain rfl := Option.some.inj (houtcome.symm.trans hanother)
    have hcall := call_eq_of_device_eq (hdevice.symm.trans hsame)
    refine ⟨hfits.mp hcall, fun hget hret i hi => ?_⟩
    obtain ⟨hcarried, hresult⟩ := hgot hget hcall i hi
    have hagree := (hagrees hret).props i (by rwa [← (hagrees hret).num, hnumber])
    refine ⟨?_, hagree.2.symm.trans hresult⟩
    rw [← PropertyValue.carried_eq_iff]
    exact hcarried.symm.trans hagree.1
  · rintro ⟨hargs, hanswers⟩
    have hcall := hfits.mpr hargs
    refine ⟨outcome, houtcome, hdevice.trans (linuxIoctl_of_call_eq hcall).2, fun hret => ?_⟩
    refine ⟨hvalue, hnumber, fun field k _ => ?_, fun i hi => ?_⟩
    · rw [hfields]
      cases isSet <;> rfl
    · cases isSet with
      | true =>
          have hkept : outcome.arg.props i = arg.props i := hprops i hi
          rw [hkept]
          exact ⟨rfl, rfl⟩
      | false =>
          obtain ⟨hcarried, hresult⟩ := hgot rfl hcall i hi
          obtain ⟨hfit, hzero⟩ := hanswers rfl hret i hi
          refine ⟨hcarried.trans ?_, hresult.trans hzero.symm⟩
          exact (PropertyValue.carried_eq_iff uapi _).mpr hfit

end

/-! ### The whole interface -/

/-- **When the pair is transparent.**  For every request, every argument, every driver and
whatever is in the buffers of the two sides: the driver is called as it would be directly,
and a caller whose request succeeds finds in its argument what a direct request would have
left there, exactly if

* the two requests that read the client's own memory find the caller's value there;
* the unions of the properties in the argument have nothing outside of what is copied, as
  far as the driver uses them;
* neither have those that it leaves for `FE_GET_PROPERTY`, and the results are zero.

All other requests are transparent. -/
theorem transparent_iff (uapi : Uapi) (order : ByteOrder) (kernel : Kernel K)
    (ctx : VtunersCtx (Host K)) (body : Bytes) (request : Request) (arg : Arg)
    (own : Option Bytes) (hvalue : request.isImmediate = true → arg.value.toNat < 2 ^ 32)
    (hnum : request.hasProps = true → arg.num.toNat ≤ propMax) :
    Transparent uapi order kernel ctx body request arg own ↔
      (request = .dmxAddPid ∨ request = .dmxRemovePid → OwnHas own arg) ∧
      (request.hasProps = true → ∀ i < arg.num.toNat,
        kernel.usesUnion request (arg.props i).cmd = true → (arg.props i).value.Fits uapi) ∧
      (request = .feGetProperty → 0 ≤ (directIoctl kernel ctx request arg).1 →
        ∀ i < arg.num.toNat,
          ((directIoctl kernel ctx request arg).2.2.props i).value.Fits uapi ∧
          ((directIoctl kernel ctx request arg).2.2.props i).result = 0) := by
  cases hcommand : request.command with
  | some command =>
      have hprops := Request.hasProps_of_command hcommand
      have hget : request ≠ .feGetProperty := by
        rintro rfl
        cases hprops
      rw [transparent_of_command_iff uapi order kernel ctx hcommand hvalue,
        Request.dereferenced_iff hcommand]
      simp [hprops, hget]
  | none =>
      rcases Request.command_eq_none hcommand with rfl | rfl
      · have hset := transparent_props_iff uapi order kernel ctx true (hnum rfl) own body
        simpa [propertyRequest, Request.hasProps] using hset
      · have hget := transparent_props_iff uapi order kernel ctx false (hnum rfl) own body
        simpa [propertyRequest, Request.hasProps] using hget

/-- A driver that gives this value to every property. -/
def constantKernel (value : PropertyValue) : Kernel Unit where
  usesUnion := fun _ _ => false
  perform := fun _ state => (state, ⟨0, fun _ _ => 0, fun _ => value, fun _ => none⟩)

/-- A property value with a union that starts with these bytes. -/
def unionValue (cmd : BitVec 32) (bytes : List Byte) : PropertyValue :=
  ⟨cmd, fun k => bytes.getD k 0, 0, fun _ => 0⟩

/-- The argument that asks for one property. -/
def askProperty (cmd : BitVec 32) : Arg :=
  ⟨0, fun _ _ => 0, 1, fun _ => { noProperty with cmd := cmd }⟩

def emptyHost : VtunersCtx (Host Unit) where
  dtvProps := fun _ => ⟨0, fun _ => 0, fun _ => 0, 0, 0⟩
  dvb := ⟨⟨(), []⟩, fun _ _ => 0⟩
  body := fun _ => 0

/-- `DTV_FREQUENCY`: 474 MHz are four bytes. -/
theorem transparent_iff_frequency :
    Transparent idleUapi .little (constantKernel (unionValue 3 [0x80, 0xAA, 0x40, 0x1C]))
      emptyHost (fun _ => 0) .feGetProperty (askProperty 3) none := by
  refine (transparent_iff idleUapi .little _ emptyHost _ .feGetProperty (askProperty 3) none
    (by decide) (by decide)).mpr ⟨?_, fun _ => by decide, fun _ _ => by decide⟩
  rintro (hpid | hpid) <;> cases hpid

/-- `DTV_STAT_SIGNAL_STRENGTH`: one statistic, in decibels, of -50000. -/
def strengthValue : PropertyValue :=
  unionValue 62 [1, 1, 0xB0, 0x3C, 0xFF, 0xFF, 0xFF, 0xFF, 0xFF, 0xFF]

/-- The caller gets 15536. -/
theorem transparent_strength_lost :
    (proxyIoctl idleUapi .little (constantKernel strengthValue) emptyHost (fun _ => 0)
        .feGetProperty (askProperty 62) none).map (fun outcome =>
          ((List.finRange 32).map (outcome.arg.props 0).bufferData).take 10) =
      some [1, 1, 0xB0, 0x3C, 0, 0, 0, 0, 0, 0] ∧
    ((List.finRange 32).map ((directIoctl (constantKernel strengthValue) emptyHost
        .feGetProperty (askProperty 62)).2.2.props 0).bufferData).take 10 =
      [1, 1, 0xB0, 0x3C, 0xFF, 0xFF, 0xFF, 0xFF, 0xFF, 0xFF] ∧
    ¬ Transparent idleUapi .little (constantKernel strengthValue) emptyHost (fun _ => 0)
      .feGetProperty (askProperty 62) none := by
  refine ⟨by decide +kernel, by decide +kernel, fun htransparent => ?_⟩
  have hfits := ((transparent_props_iff idleUapi .little _ emptyHost false (by decide) none
    _).mp htransparent).2 rfl (by decide) 0 (by decide)
  exact absurd hfits.1 (by decide)

end Webcamd.Vtuner
