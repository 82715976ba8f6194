import Webcamd.Vtuner.Control

/-!
# An exchange on a socket that may fail

A model of `vtunerc_do_message` of `vtuner/vtuner_client.c`, of the loops `vtunerc_fd_write`
and `vtunerc_fd_read` in it, and of the socket as these see it: what every call of `write`
and `read` yields.  Each of them may fail, and the end of the stream is a failure too.

* `vtunercDoMessage` — the exchange.  `msgbuf` keeps what had arrived when a `read` failed.
* `vtunercDoMessage_replied` — if the message is taken and a reply delivered, in pieces of
  any sizes, then the exchange yields that reply.
-/

namespace Webcamd.Vtuner

open Control (messageBytes)

/-- What the calls on the control socket yield.  When there are no more, they fail. -/
structure Socket where
  /-- how many bytes each `write` takes; none if it fails -/
  writes : List ℕ
  /-- the bytes each `read` gets; none if it fails, or at the end of the stream -/
  reads : List (List Byte)

/-- `vtunerc_fd_write` from an offset: whether it returns `len`, and the calls that are
left. -/
def vtunercFdWrite (len : ℕ) : List ℕ → ℕ → Bool × List ℕ
  | [], off => (decide (len ≤ off), [])
  | count :: rest, off =>
      if len ≤ off then (true, count :: rest)
      else if count = 0 then (false, rest)
      else vtunercFdWrite len rest (off + min count (len - off))

/-- `vtunerc_fd_read` from an offset: the buffer, whether it returns `len`, and the calls
that are left. -/
def vtunercFdRead (len : ℕ) : List (List Byte) → ℕ → Bytes → Bytes × Bool × List (List Byte)
  | [], off, ptr => (ptr, decide (len ≤ off), [])
  | piece :: rest, off, ptr =>
      if len ≤ off then (ptr, true, piece :: rest)
      else if piece = [] then (ptr, false, rest)
      else
        let received := piece.take (len - off)
        vtunercFdRead len rest (off + received.length) (ptr.write off received)

/-- `vtunerc_do_message`, with the header it stamps: the body of `msgbuf` afterwards, and the
header of the reply if there is one.  Without one the result is `-ENXIO`. -/
def vtunercDoMessage (order : ByteOrder) (socket : Socket) (hdr : Hdr) (body : Bytes) :
    Socket × Bytes × Option Hdr :=
  let written := vtunercFdWrite (16 + hdr.rxSize.toNat) socket.writes 0
  if written.1 then
    let msg := messageBytes order hdr body
    let read := vtunercFdRead (16 + hdr.txSize.toNat) socket.reads 0 msg
    (⟨written.2, read.2.2⟩, fun k => read.1 (16 + k),
      if read.2.1 then some (Hdr.ofBytes order read.1) else none)
  else (⟨written.2, socket.reads⟩, body, none)

/-! ### Exchanges that succeed -/

/-- A message is taken in pieces. -/
theorem vtunercFdWrite_pieces {len : ℕ} (pieces : List ℕ) (off : ℕ)
    (hpieces : ∀ count ∈ pieces, count ≠ 0) (hlen : off + pieces.sum = len) :
    vtunercFdWrite len pieces off = (true, []) := by
  induction pieces generalizing off with
  | nil =>
      rw [List.sum_nil, Nat.add_zero] at hlen
      rw [vtunercFdWrite, decide_eq_true hlen.ge]
  | cons count rest ih =>
      rw [List.forall_mem_cons] at hpieces
      rw [List.sum_cons] at hlen
      have hcount := Nat.pos_of_ne_zero hpieces.1
      have hmin : min count (len - off) = count := by omega
      have hbefore : ¬ len ≤ off := by omega
      rw [vtunercFdWrite, if_neg hbefore, if_neg hpieces.1, hmin]
      exact ih (off + count) hpieces.2 (by omega)

/-- A message arrives in pieces, one behind the other. -/
theorem vtunercFdRead_pieces {len : ℕ} (pieces : List (List Byte)) (off : ℕ) (ptr : Bytes)
    (hpieces : ∀ piece ∈ pieces, piece ≠ []) (hlen : off + pieces.flatten.length = len) :
    ∃ after, vtunercFdRead len pieces off ptr = (after, true, []) ∧
      after.slice 0 len = ptr.slice 0 off ++ pieces.flatten := by
  induction pieces generalizing off ptr with
  | nil =>
      obtain rfl : off = len := hlen
      exact ⟨ptr, by rw [vtunercFdRead, decide_eq_true le_rfl], (List.append_nil _).symm⟩
  | cons piece rest ih =>
      rw [List.forall_mem_cons] at hpieces
      rw [List.flatten_cons, List.length_append] at hlen
      have hpiece := List.length_pos_iff.mpr hpieces.1
      have htake : piece.take (len - off) = piece := List.take_of_length_le (by omega)
      have hbefore : ¬ len ≤ off := by omega
      obtain ⟨after, hread, hslice⟩ := ih (off + piece.length) (ptr.write off piece) hpieces.2
        (by omega)
      refine ⟨after, ?_, ?_⟩
      · rw [vtunercFdRead, if_neg hbefore, if_neg hpieces.1, htake]
        exact hread
      · rw [hslice, Bytes.slice_write_append, List.append_assoc, List.flatten_cons]

/-- **An exchange that is answered** yields the reply, whatever the pieces it arrives in. -/
theorem vtunercDoMessage_replied {order : ByteOrder} {hdr answer : Hdr} {body received : Bytes}
    {socket : Socket} (hwrites : ∀ count ∈ socket.writes, count ≠ 0)
    (hsent : socket.writes.sum = 16 + hdr.rxSize.toNat)
    (hreads : ∀ piece ∈ socket.reads, piece ≠ [])
    (hreply : socket.reads.flatten =
      (messageBytes order answer received).slice 0 (16 + hdr.txSize.toNat)) :
    ∃ after, vtunercDoMessage order socket hdr body = (⟨[], []⟩, after, some answer) ∧
      ∀ k < hdr.txSize.toNat, after k = received k := by
  have hlength : 0 + socket.reads.flatten.length = 16 + hdr.txSize.toNat := by
    rw [hreply, Bytes.length_slice, Nat.zero_add]
  obtain ⟨msg, hread, hslice⟩ := vtunercFdRead_pieces socket.reads 0
    (messageBytes order hdr body) hreads hlength
  rw [Bytes.slice_zero, List.nil_append, hreply] at hslice
  have hbytes : ∀ k < 16 + hdr.txSize.toNat, msg k = messageBytes order answer received k := by
    intro k hk
    have hbyte := Bytes.apply_eq_of_slice_eq hslice hk
    rwa [Nat.zero_add] at hbyte
  have hanswer : Hdr.ofBytes order msg = answer := by
    rw [← Hdr.ofBytes_toBytes order answer]
    refine Hdr.ofBytes_congr fun k hk => ?_
    rw [hbytes k (by omega), messageBytes, if_pos hk]
  refine ⟨fun k => msg (16 + k), ?_, fun k hk => ?_⟩
  · have hwrite := vtunercFdWrite_pieces socket.writes 0 hwrites ((Nat.zero_add _).trans hsent)
    simp only [vtunercDoMessage, hwrite, hread, if_true, hanswer]
  · show msg (16 + k) = received k
    rw [hbytes (16 + k) (by omega), messageBytes, if_neg (by omega), Nat.add_sub_cancel_left]

end Webcamd.Vtuner
