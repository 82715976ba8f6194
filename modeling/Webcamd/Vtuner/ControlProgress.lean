import Webcamd.Vtuner.ControlFraming

/-!
# Every exchange on the control channel ends

The invariant of `ControlFraming` says where the bytes of an exchange are, and so how many
transfers are left at most (`work`).  Every transfer takes at least one off (`work_lt`), and
while the client waits one side or the other can transfer a byte (`exists_transfer`).  So
`vtunerc_do_message` returns, however the transfers are cut up
(`control_channel_completes`).
-/

namespace Webcamd.Vtuner.Control

open Webcamd.Library

variable {D : Type}

/-! ### What is left to do -/

/-- The action is a `read` or `write` call. -/
def Action.IsTransfer : Action → Prop
  | .issue _ _ _ => False
  | _ => True

/-- The bytes the server has still to send. -/
def Server.toSend (server : Server D) : ℕ :=
  match server.pc with
  | .writing length offset => length - offset
  | _ => 0

/-- How often bytes have still to be moved until the client is done: twice if they have not
been sent, once if they are in the socket. -/
def work (state : State D) : ℕ :=
  match state.client.pc with
  | .idle => 0
  | .writing rxSize txSize offset =>
      2 * (16 + rxSize - offset) + state.up.length + 2 * (16 + txSize)
  | .reading txSize _ =>
      if state.up = [] then state.down.length + 2 * state.server.toSend
      else state.up.length + 2 * (16 + txSize)

section

variable {uapi : Uapi} {order : ByteOrder} {driver : Driver D}
variable {state next : State D} {history events : List Event}

/-- A server that waits has not had all of the message. -/
theorem Server.Received.ne_nil {server : Server D} {message : Message} {txSize : ℕ}
    (hmessage : WellFormed order message txSize) {received rest : List Byte}
    (h : server.Received order received) (hbytes : received ++ rest = message.bytes order) :
    rest ≠ [] := by
  rintro rfl
  have hlength := congrArg List.length hbytes
  rw [List.append_nil, length_bytes] at hlength
  rw [Server.Received] at h
  split at h
  · obtain ⟨hlt, rfl⟩ := h
    rw [Bytes.length_slice] at hlength
    omega
  · obtain ⟨hlt, hannounced, rfl⟩ := h
    rw [List.append_nil] at hbytes
    obtain ⟨hheader, -⟩ := List.append_inj hbytes (by simp)
    obtain rfl := Option.some.inj (hannounced.symm.trans (announced_eq hmessage hheader))
    rw [List.length_append, Bytes.length_slice, Bytes.length_slice] at hlength
    omega
  · exact h
  · exact h

/-- What it waits for is at least one byte. -/
theorem Server.Received.wants {server : Server D} {received : List Byte}
    (h : server.Received order received) :
    ∃ start length, server.pc.wants = some (start, length) ∧ 1 ≤ length := by
  rw [Server.Received] at h
  split at h
  · rename_i hpc
    rw [hpc]
    exact ⟨_, _, rfl, by omega⟩
  · rename_i hpc
    rw [hpc]
    exact ⟨_, _, rfl, by omega⟩
  · exact h.elim
  · exact h.elim

theorem Server.Unsent.toSend {server : Server D} {txSize : ℕ} {unsent : List Byte}
    (h : server.Unsent txSize unsent) : server.toSend = unsent.length := by
  rw [Server.Unsent] at h
  rw [Server.toSend]
  split at h
  · rename_i hpc
    obtain ⟨-, -, rfl⟩ := h
    rw [hpc, Bytes.length_slice]
  · rename_i hpc
    obtain ⟨-, rfl⟩ := h
    rw [hpc]
    rfl
  · exact h.elim
  · exact h.elim

/-- The client waits, and nothing is on its way to the server: what is left is the
reply. -/
theorem Phase.reply_work {txSize offset : ℕ} (h : Phase order state history)
    (hclient : state.client.pc = .reading txSize offset) (hup : state.up = []) :
    0 < state.down.length + state.server.toSend ∧
      state.down.length + state.server.toSend ≤ 16 + txSize := by
  cases h with
  | idle hidle => cases hclient.symm.trans hidle
  | request past message size received unsent hmessage hunsent hserver hdown hbytes =>
      simp only [Client.Unsent, hclient] at hunsent
      obtain ⟨-, -, rfl⟩ := hunsent
      rw [hup] at hbytes
      exact absurd rfl (hserver.ne_nil hmessage hbytes)
  | reply past answer size start unsent hlength htx hreading hoffset hserver hnil hbytes =>
      obtain ⟨rfl, rfl⟩ := Client.Pc.reading.inj (hclient.symm.trans hreading)
      have htotal := congrArg List.length hbytes
      rw [List.length_append, Bytes.length_slice, List.length_append, length_bytes,
        hlength] at htotal
      rw [hserver.toSend]
      omega

theorem work_idle (h : state.client.pc = .idle) : work state = 0 := by
  rw [work, h]

theorem work_writing {rxSize txSize offset : ℕ}
    (h : state.client.pc = .writing rxSize txSize offset) :
    work state = 2 * (16 + rxSize - offset) + state.up.length + 2 * (16 + txSize) := by
  rw [work, h]

theorem work_request {txSize offset : ℕ} (h : state.client.pc = .reading txSize offset)
    (hup : state.up ≠ []) : work state = state.up.length + 2 * (16 + txSize) := by
  rw [work, h]
  exact if_neg hup

theorem work_reply {txSize offset : ℕ} (h : state.client.pc = .reading txSize offset)
    (hup : state.up = []) : work state = state.down.length + 2 * state.server.toSend := by
  rw [work, h]
  exact if_pos hup

theorem work_clientWrite {rxSize txSize offset count : ℕ}
    (hwriting : state.client.pc = .writing rxSize txSize offset) (hpos : 1 ≤ count)
    (hcount : count ≤ 16 + rxSize - offset) :
    work { state with
      client := state.client.advance rxSize txSize (offset + count)
      up := state.up ++ state.client.msgbuf.slice offset count } < work state := by
  have hlength : (state.up ++ state.client.msgbuf.slice offset count).length =
      state.up.length + count := by
    simp
  rw [work_writing hwriting]
  by_cases hmore : offset + count < 16 + rxSize
  · have hpc : (state.client.advance rxSize txSize (offset + count)).pc =
        .writing rxSize txSize (offset + count) := by
      rw [Client.advance, if_pos hmore]
    rw [work_writing hpc, hlength]
    omega
  · have hpc : (state.client.advance rxSize txSize (offset + count)).pc =
        .reading txSize 0 := by
      rw [Client.advance, if_neg hmore]
    have hup : state.up ++ state.client.msgbuf.slice offset count ≠ [] := by
      intro hnil
      rw [hnil, List.length_nil] at hlength
      omega
    rw [work_request hpc hup, hlength]
    omega

/-- The server reads: there is less on its way, or the reply is. -/
theorem work_serverRead {server : Server D} {count : ℕ} (hpos : 1 ≤ count)
    (hup : count ≤ state.up.length) (hphase : Phase order state history)
    (hnext : Phase order { state with server := server, up := state.up.drop count } events) :
    work { state with server := server, up := state.up.drop count } < work state := by
  have hlength : (state.up.drop count).length = state.up.length - count := List.length_drop
  have hnonempty : state.up ≠ [] := by
    rintro hnil
    rw [hnil, List.length_nil] at hup
    omega
  cases hpc : state.client.pc with
  | idle =>
      cases hphase with
      | idle hclient hserver hnil => exact absurd hnil hnonempty
      | request past message size received unsent hmessage hclient =>
          simp [Client.Unsent, hpc] at hclient
      | reply past answer size start unsent hsize htx hclient => cases hpc.symm.trans hclient
  | writing rxSize txSize offset =>
      have hafter : work { state with server := server, up := state.up.drop count } =
          2 * (16 + rxSize - offset) + (state.up.drop count).length + 2 * (16 + txSize) :=
        work_writing hpc
      rw [hafter, work_writing hpc, hlength]
      omega
  | reading txSize offset =>
      rw [work_request hpc hnonempty]
      by_cases hdrop : state.up.drop count = []
      · have hafter : work { state with server := server, up := state.up.drop count } =
            state.down.length + 2 * server.toSend :=
          work_reply hpc hdrop
        have hle : state.down.length + server.toSend ≤ 16 + txSize :=
          (hnext.reply_work hpc hdrop).2
        rw [hafter]
        omega
      · have hafter : work { state with server := server, up := state.up.drop count } =
            (state.up.drop count).length + 2 * (16 + txSize) :=
          work_request hpc hdrop
        rw [hafter, hlength]
        omega

theorem work_serverWrite {length offset count : ℕ}
    (hwriting : state.server.pc = .writing length offset) (hpos : 1 ≤ count)
    (hcount : count ≤ length - offset) (hphase : Phase order state history) :
    work { state with
      server := state.server.advance length (offset + count)
      down := state.down ++ state.server.reply.slice offset count } < work state := by
  cases hphase with
  | idle hclient hserver => cases hwriting.symm.trans hserver
  | request past message size received unsent hmessage hclient hserver =>
      simp only [Server.Received, hwriting] at hserver
  | reply past answer size start unsent hsize htx hclient hstart hserver hup =>
      have htoSend : state.server.toSend = length - offset := by
        rw [Server.toSend, hwriting]
      have hadvance : (state.server.advance length (offset + count)).toSend =
          length - (offset + count) := by
        rw [Server.advance]
        split
        · rfl
        · simp only [Server.toSend]
          omega
      have hafter : work { state with
          server := state.server.advance length (offset + count)
          down := state.down ++ state.server.reply.slice offset count } =
            (state.down ++ state.server.reply.slice offset count).length +
              2 * (state.server.advance length (offset + count)).toSend :=
        work_reply hclient hup
      rw [hafter, work_reply hclient hup, hadvance, htoSend, List.length_append,
        Bytes.length_slice]
      omega

theorem work_clientRead {txSize offset count : ℕ}
    (hreading : state.client.pc = .reading txSize offset) (hpos : 1 ≤ count)
    (hdown : count ≤ state.down.length) (hphase : Phase order state history) :
    work { state with
      client := (state.client.receive order txSize offset (state.down.take count)).1
      down := state.down.drop count } < work state := by
  cases hphase with
  | idle hclient => cases hreading.symm.trans hclient
  | request past message size received unsent hmessage hclient hserver hnil =>
      rw [hnil, List.length_nil] at hdown
      omega
  | reply past answer size start unsent hsize htx hclient hstart hserver hup =>
      rw [work_reply hreading hup]
      by_cases hmore : offset + (state.down.take count).length < 16 + txSize
      · have hpc : (state.client.receive order txSize offset (state.down.take count)).1.pc =
            .reading txSize (offset + (state.down.take count).length) := by
          simp only [Client.receive, hmore, if_true]
        have hafter : work { state with
            client := (state.client.receive order txSize offset (state.down.take count)).1
            down := state.down.drop count } =
              (state.down.drop count).length + 2 * state.server.toSend :=
          work_reply hpc hup
        rw [hafter, List.length_drop]
        omega
      · have hpc : (state.client.receive order txSize offset (state.down.take count)).1.pc =
            .idle := by
          simp only [Client.receive, hmore, if_false]
        have hafter : work { state with
            client := (state.client.receive order txSize offset (state.down.take count)).1
            down := state.down.drop count } = 0 :=
          work_idle hpc
        rw [hafter]
        omega

/-- Every transfer brings the client nearer to its end. -/
theorem work_lt (h : Inv order state history) {action : Action} (htransfer : action.IsTransfer)
    (hstep : (machine uapi order driver).step state action = some (next, events)) :
    work next < work state := by
  have hnext := (inv_step h hstep).phase
  cases move_of_step hstep with
  | issue _ _ => exact htransfer.elim
  | clientWrite hwriting hpos hcount => exact work_clientWrite hwriting hpos hcount
  | serverRead _ hpos _ hup => exact work_serverRead hpos hup h.phase hnext
  | serverWrite hwriting hpos hcount => exact work_serverWrite hwriting hpos hcount h.phase
  | clientRead hreading hpos _ hdown => exact work_clientRead hreading hpos hdown h.phase

/-- Until then, a transfer of one byte is possible. -/
theorem exists_transfer (h : Inv order state history) (hbusy : state.client.pc ≠ .idle) :
    ∃ action : Action, action.IsTransfer ∧
      ((machine uapi order driver).step state action).isSome = true := by
  cases h.phase with
  | idle hclient => exact absurd hclient hbusy
  | request past message size received unsent hmessage hclient hserver hdown hbytes =>
      cases hpc : state.client.pc with
      | idle => exact absurd hpc hbusy
      | writing rxSize txSize offset =>
          refine ⟨.clientWrite 1, trivial, ?_⟩
          simp only [Client.Unsent, hpc] at hclient
          have hcount : 1 ≤ 16 + rxSize - offset := by omega
          simp [machine, step, hpc, hcount]
      | reading txSize offset =>
          refine ⟨.serverRead 1, trivial, ?_⟩
          simp only [Client.Unsent, hpc] at hclient
          obtain ⟨-, -, rfl⟩ := hclient
          rw [List.append_nil] at hbytes
          have hup : 1 ≤ state.up.length :=
            List.length_pos_iff.mpr (hserver.ne_nil hmessage hbytes)
          obtain ⟨start, length, hwants, hlength⟩ := hserver.wants
          simp [machine, step, hwants, hlength, hup]
  | reply past answer size offset unsent hsize htx hclient hoffset hserver hup hbytes =>
      rw [Server.Unsent] at hserver
      split at hserver
      · rename_i length start hpc
        refine ⟨.serverWrite 1, trivial, ?_⟩
        have hcount : 1 ≤ length - start := by omega
        simp [machine, step, hpc, hcount]
      · refine ⟨.clientRead 1, trivial, ?_⟩
        obtain ⟨-, rfl⟩ := hserver
        have htotal := congrArg List.length hbytes
        rw [List.append_nil, List.length_append, Bytes.length_slice, length_bytes,
          hsize] at htotal
        have hcount : 1 ≤ 16 + size - offset := by omega
        have hdown : 1 ≤ state.down.length := by omega
        simp [machine, step, hclient, hcount, hdown]
      · exact hserver.elim
      · exact hserver.elim

end

/-- **Every exchange comes to its end.**  From every state a run reaches, no sequence of
transfers is longer than `work` says, and as long as the client is not done there is a
transfer that can be made. -/
theorem control_channel_completes {uapi : Uapi} {order : ByteOrder} {driver : Driver D}
    {ctx : VtunersCtx D} {schedule : List Action} {last : State D} {history : List Event}
    (hrun : (machine uapi order driver).run (start ctx) schedule = some (last, history)) :
    (∀ transfers : List Action, (∀ action ∈ transfers, action.IsTransfer) →
      ∀ after events, (machine uapi order driver).run last transfers = some (after, events) →
        transfers.length ≤ work last) ∧
      (last.client.pc ≠ .idle → ∃ action : Action, action.IsTransfer ∧
        ((machine uapi order driver).step last action).isSome = true) := by
  have hinv := inv_of_run hrun
  refine ⟨fun transfers => ?_, exists_transfer hinv⟩
  -- by induction on the transfers: each of them takes at least one off
  clear hrun
  induction transfers generalizing last history with
  | nil => simp
  | cons action rest ih =>
      intro htransfers after events hafter
      obtain ⟨next, first, tail, hfirst, hrest, -⟩ :=
        (machine uapi order driver).run_cons_eq_some hafter
      have hlt := work_lt hinv (htransfers action List.mem_cons_self) hfirst
      have hle := ih (inv_step hinv hfirst)
        (fun other hmem => htransfers other (List.mem_cons_of_mem _ hmem)) after tail hrest
      rw [List.length_cons]
      omega

end Webcamd.Vtuner.Control
