import RobotFactory.Marshalling

/-!
# The loops of the socket

`Send` and `Recv` transfer a buffer piece by piece. A socket is followed with respect
to the bytes that arrive on it before the stream ends: it stays in step with them as
long as no call fails and the stream lasts, and is closed at the first that does not.
If it is a call of `send` that fails, with `EPIPE`, the process ends with it: the flags
are 0 everywhere, and no handler is set for `SIGPIPE`.
-/
namespace RobotFactory.Marshalling
open RecordStream Fragmentation

/-- What the network makes of the calls of `recv` and of `send` on a socket, and whether
it is with `EPIPE` that a call of `send` fails. -/
structure Network where
  recv : ℕ → Piece
  send : ℕ → Piece
  epipe : ℕ → Bool

namespace Network

structure Unfailed (network : Network) (recvs sends : ℕ) : Prop where
  recv : ∀ k < recvs, network.recv k ≠ .failed
  send : ∀ k < sends, network.send k ≠ .failed

/-- One of the first calls of `send` has raised `SIGPIPE`. -/
def Signals (network : Network) (sends : ℕ) : Prop :=
  ∃ k < sends, network.send k = .failed ∧ network.epipe k = true

instance (network : Network) (sends : ℕ) : Decidable (network.Signals sends) :=
  inferInstanceAs (Decidable (∃ k < sends, _))

theorem Unfailed.not_signals {network : Network} {recvs sends : ℕ}
    (h : network.Unfailed recvs sends) : ¬network.Signals sends :=
  fun ⟨k, hk, hfailed, _⟩ => h.send k hk hfailed

theorem Unfailed.recv_succ {network : Network} {recvs sends : ℕ}
    (h : network.Unfailed recvs sends) (hpiece : network.recv recvs ≠ .failed) :
    network.Unfailed (recvs + 1) sends := by
  refine ⟨fun k hk => ?_, h.send⟩
  rcases Nat.lt_succ_iff_lt_or_eq.mp hk with hlt | rfl
  · exact h.recv k hlt
  · exact hpiece

theorem Unfailed.send_succ {network : Network} {recvs sends : ℕ}
    (h : network.Unfailed recvs sends) (hpiece : network.send sends ≠ .failed) :
    network.Unfailed recvs (sends + 1) := by
  refine ⟨h.recv, fun k hk => ?_⟩
  rcases Nat.lt_succ_iff_lt_or_eq.mp hk with hlt | rfl
  · exact h.send k hlt
  · exact hpiece

theorem Unfailed.signals_succ_iff {network : Network} {recvs sends : ℕ}
    (h : network.Unfailed recvs sends) (hfailed : network.send sends = .failed) :
    network.Signals (sends + 1) ↔ network.epipe sends = true := by
  constructor
  · rintro ⟨k, hk, hk', hepipe⟩
    rcases Nat.lt_succ_iff_lt_or_eq.mp hk with hlt | rfl
    · exact absurd hk' (h.send k hlt)
    · exact hepipe
  · exact fun hepipe => ⟨sends, Nat.lt_succ_self _, hfailed, hepipe⟩

end Network

/-- A connected socket: the bytes that still arrive before the stream ends, those that
it has written, what the network makes of its system calls, how many it has made, and
whether one of them has ended the process. -/
structure Socket where
  isInitialized : Bool
  incoming : List UInt8
  outgoing : List UInt8
  network : Network
  recvs : ℕ
  sends : ℕ
  killed : Bool

namespace Socket

def connected (network : Network) (incoming : List UInt8) : Socket :=
  ⟨true, incoming, [], network, 0, 0, false⟩

def close (s : Socket) : Socket := { s with isInitialized := false }

/-- The system call `send` with flags 0: the number of bytes written, `none` for -1, which
the process does not live to see if it is for `EPIPE`. On a closed descriptor it fails. -/
def sysSend (data : List UInt8) (size : ℕ) (s : Socket) : Option ℕ × Socket :=
  if s.isInitialized then
    match (s.network.send s.sends).count size with
    | none => (none, { s with sends := s.sends + 1, killed := s.network.epipe s.sends })
    | some written =>
      (some written,
        { s with outgoing := s.outgoing ++ data.take written, sends := s.sends + 1 })
  else (none, s)

/-- The system call `recv`: the bytes read, `none` for -1. -/
def sysRecv (size : ℕ) (s : Socket) : Option (List UInt8) × Socket :=
  if s.isInitialized then
    match receive s.incoming size (s.network.recv s.recvs) with
    | none => (none, { s with recvs := s.recvs + 1 })
    | some (got, rest) => (some got, { s with incoming := rest, recvs := s.recvs + 1 })
  else (none, s)

theorem sysSend_pos {data : List UInt8} {size written : ℕ} {s s' : Socket}
    (h : s.sysSend data size = (some written, s')) (hsize : 0 < size) :
    0 < written ∧ written ≤ size := by
  unfold sysSend at h
  split_ifs at h
  · split at h
    · cases h
    · rename_i hcount
      cases h
      exact Piece.count_pos hcount hsize
  · cases h

def sendLoop (buffer : List UInt8) (offset size : ℕ) (s : Socket) : Bool × Socket :=
  if _hsize : 0 < size then
    match _h : s.sysSend (buffer.drop offset) size with
    | (none, s) => (false, s.close)
    | (some written, s) => sendLoop buffer (offset + written) (size - written) s
  else (true, s)
termination_by size
decreasing_by have := (sysSend_pos _h _hsize).1; omega

def recvLoop (buffer : List UInt8) (offset size : ℕ) (s : Socket) : Bool × List UInt8 × Socket :=
  if 0 < size then
    match s.sysRecv size with
    | (none, s) => (false, buffer, s.close)
    | (some got, s) =>
      if _hgot : got = [] then (false, buffer, s.close)
      else recvLoop (overwrite buffer offset got) (offset + got.length) (size - got.length) s
  else (true, buffer, s)
termination_by size
decreasing_by have := List.length_pos_of_ne_nil _hgot; omega

def send (buffer : List UInt8) (size : ℕ) (s : Socket) : Bool × Socket := s.sendLoop buffer 0 size

def recv (buffer : List UInt8) (size : ℕ) (s : Socket) : Bool × List UInt8 × Socket :=
  s.recvLoop buffer 0 size

/-- The socket has got the bytes `read` of the stream and written `sent`, and no call has
failed. -/
structure InStep (network : Network) (stream read sent : List UInt8) (s : Socket) : Prop where
  opened : s.isInitialized = true
  living : s.killed = false
  network_eq : s.network = network
  position : stream = read ++ s.incoming
  written : s.outgoing = sent
  unfailed : network.Unfailed s.recvs s.sends

/-- The socket is closed, since a call has failed or the stream does not have `need`
bytes; no more than `sent` has been written. -/
structure Lost (network : Network) (stream : List UInt8) (need : ℕ) (sent : List UInt8)
    (s : Socket) : Prop where
  closed : s.isInitialized = false
  killed_iff : s.killed = true ↔ network.Signals s.sends
  written : s.outgoing <+: sent
  cause : ¬network.Unfailed s.recvs s.sends ∨ stream.length < need

/-- What becomes of a `Recv` of `size` bytes behind the bytes `read`. -/
inductive RecvResult (network : Network) (stream read sent buffer : List UInt8)
    (offset size : ℕ) : Bool × List UInt8 × Socket → Prop
  | whole (got : List UInt8) (s : Socket) (hlen : got.length = size)
      (h : s.InStep network stream (read ++ got) sent) :
      RecvResult network stream read sent buffer offset size (true, overwrite buffer offset got, s)
  | lost (buffer' : List UInt8) (s : Socket) (hlen : buffer'.length = buffer.length)
      (h : s.Lost network stream (read.length + size) sent) :
      RecvResult network stream read sent buffer offset size (false, buffer', s)

/-- What becomes of a `Send` of the bytes `data`. -/
inductive SendResult (network : Network) (stream read sent data : List UInt8) :
    Bool × Socket → Prop
  | whole (s : Socket) (h : s.InStep network stream read (sent ++ data)) :
      SendResult network stream read sent data (true, s)
  | lost (s : Socket) (h : s.Lost network stream read.length (sent ++ data)) :
      SendResult network stream read sent data (false, s)

section Steps

variable {network : Network} {stream read sent : List UInt8} {s : Socket}

theorem Lost.mono {need need' : ℕ} {sent' : List UInt8} (h : s.Lost network stream need sent)
    (hneed : need ≤ need') (hsent : sent <+: sent') : s.Lost network stream need' sent' where
  closed := h.closed
  killed_iff := h.killed_iff
  written := h.written.trans hsent
  cause := h.cause.imp_right fun hlt => hlt.trans_le hneed

theorem InStep.killed_iff (h : s.InStep network stream read sent) :
    s.killed = true ↔ network.Signals s.sends := by
  simp [h.living, h.unfailed.not_signals]

theorem InStep.lost_of_recv (h : s.InStep network stream read sent) (need : ℕ)
    (hfailed : network.recv s.recvs = .failed) :
    ({ s with recvs := s.recvs + 1 } : Socket).close.Lost network stream need sent where
  closed := rfl
  killed_iff := h.killed_iff
  written := h.written ▸ List.prefix_rfl
  cause := .inl fun hunfailed => hunfailed.recv _ (Nat.lt_succ_self _) hfailed

theorem InStep.lost_of_send (h : s.InStep network stream read sent) (need : ℕ)
    (hfailed : network.send s.sends = .failed) :
    ({ s with sends := s.sends + 1, killed := s.network.epipe s.sends } : Socket).close.Lost
      network stream need sent where
  closed := rfl
  killed_iff := by
    rw [h.network_eq]
    exact (h.unfailed.signals_succ_iff hfailed).symm
  written := h.written ▸ List.prefix_rfl
  cause := .inl fun hunfailed => hunfailed.send _ (Nat.lt_succ_self _) hfailed

theorem InStep.sysRecv_none {size : ℕ} {s' : Socket} (h : s.InStep network stream read sent)
    (hrecv : s.sysRecv size = (none, s')) (need : ℕ) :
    s'.close.Lost network stream need sent := by
  rw [sysRecv, if_pos h.opened] at hrecv
  cases hreceive : receive s.incoming size (s.network.recv s.recvs) with
  | none =>
    rw [hreceive] at hrecv
    obtain ⟨-, rfl⟩ := Prod.mk.inj hrecv
    rw [h.network_eq] at hreceive
    exact h.lost_of_recv need (Piece.count_eq_none_iff.mp (Option.map_eq_none_iff.mp hreceive))
  | some result => simp [hreceive] at hrecv

theorem InStep.sysRecv_some {size : ℕ} {got : List UInt8} {s' : Socket}
    (h : s.InStep network stream read sent) (hrecv : s.sysRecv size = (some got, s'))
    (hsize : 0 < size) : got.length ≤ size ∧ s'.InStep network stream (read ++ got) sent ∧
      (got = [] → s'.incoming = []) := by
  rw [sysRecv, if_pos h.opened] at hrecv
  cases hreceive : receive s.incoming size (s.network.recv s.recvs) with
  | none => simp [hreceive] at hrecv
  | some result =>
    obtain ⟨got', rest⟩ := result
    rw [hreceive] at hrecv
    obtain ⟨hgot, rfl⟩ := Prod.mk.inj hrecv
    obtain rfl := Option.some.inj hgot
    obtain ⟨hsplit, hle⟩ := receive_eq_some hreceive
    have hpiece : network.recv s.recvs ≠ .failed := by
      intro hfailed
      simp [h.network_eq, hfailed] at hreceive
    refine ⟨hle, ⟨h.opened, h.living, h.network_eq, ?_, h.written, h.unfailed.recv_succ hpiece⟩,
      fun hnil => ?_⟩
    · rw [h.position, hsplit, List.append_assoc]
    · have hend := (receive_nil_iff hreceive hsize).mp hnil
      rw [hsplit] at hend
      exact (List.append_eq_nil_iff.mp hend).2

theorem InStep.lost_of_end {size : ℕ} (h : s.InStep network stream read sent)
    (hend : s.incoming = []) (hsize : 0 < size) :
    s.close.Lost network stream (read.length + size) sent where
  closed := rfl
  killed_iff := h.killed_iff
  written := h.written ▸ List.prefix_rfl
  cause := .inr (by rw [h.position, hend, List.append_nil]; omega)

/-- The loop of `Recv` gets all it asks for, or the socket is lost. -/
theorem InStep.recvLoop {buffer : List UInt8} {offset size : ℕ}
    (h : s.InStep network stream read sent) (hle : offset + size ≤ buffer.length) :
    RecvResult network stream read sent buffer offset size (s.recvLoop buffer offset size) := by
  induction buffer, offset, size, s using recvLoop.induct generalizing read with
  | case1 buffer offset size s hsize s' hrecv =>
    rw [Socket.recvLoop, if_pos hsize, hrecv]
    exact .lost buffer _ rfl (h.sysRecv_none hrecv _)
  | case2 buffer offset size s hsize s' hrecv =>
    obtain ⟨-, hstep, hend⟩ := h.sysRecv_some hrecv hsize
    rw [List.append_nil] at hstep
    rw [Socket.recvLoop, if_pos hsize, hrecv]
    exact .lost buffer _ rfl (hstep.lost_of_end (hend rfl) hsize)
  | case3 buffer offset size s hsize got s' hrecv hgot ih =>
    obtain ⟨hgotle, hstep, -⟩ := h.sysRecv_some hrecv hsize
    have hlen : (overwrite buffer offset got).length = buffer.length := by
      rw [length_overwrite]
      omega
    have hrest := ih hstep (by omega)
    rw [Socket.recvLoop, if_pos hsize, hrecv]
    simp only [hgot, dite_false]
    generalize s'.recvLoop _ _ _ = result at hrest
    cases hrest with
    | whole more s'' hmore hwhole =>
      rw [overwrite_overwrite got more (by omega)]
      rw [List.append_assoc] at hwhole
      exact .whole _ s'' (by rw [List.length_append]; omega) hwhole
    | lost buffer' s'' hbuffer hlost =>
      refine .lost buffer' s'' (hbuffer.trans hlen) (hlost.mono ?_ List.prefix_rfl)
      rw [List.length_append]
      omega
  | case4 buffer offset size s hsize =>
    obtain rfl : size = 0 := by omega
    have hwhole : RecvResult network stream read sent buffer offset 0
        (true, overwrite buffer offset [], s) := .whole [] s rfl (by rwa [List.append_nil])
    rw [Socket.recvLoop, if_neg hsize]
    rwa [overwrite_nil] at hwhole

theorem InStep.sysSend_none {data : List UInt8} {size : ℕ} {s' : Socket}
    (h : s.InStep network stream read sent) (hsend : s.sysSend data size = (none, s'))
    (need : ℕ) : s'.close.Lost network stream need sent := by
  rw [sysSend, if_pos h.opened] at hsend
  cases hcount : (s.network.send s.sends).count size with
  | none =>
    rw [hcount] at hsend
    obtain ⟨-, rfl⟩ := Prod.mk.inj hsend
    have hfailed := Piece.count_eq_none_iff.mp hcount
    rw [h.network_eq] at hfailed
    exact h.lost_of_send need hfailed
  | some count => simp [hcount] at hsend

/-- A call of `send` that does not fail writes the front of the data. -/
theorem InStep.sysSend_some {data : List UInt8} {size count : ℕ} {s' : Socket}
    (h : s.InStep network stream read sent) (hsend : s.sysSend data size = (some count, s')) :
    s'.InStep network stream read (sent ++ data.take count) := by
  rw [sysSend, if_pos h.opened] at hsend
  cases hcount : (s.network.send s.sends).count size with
  | none => simp [hcount] at hsend
  | some count' =>
    rw [hcount] at hsend
    obtain ⟨hsome, rfl⟩ := Prod.mk.inj hsend
    obtain rfl := Option.some.inj hsome
    have hpiece : network.send s.sends ≠ .failed := by
      intro hfailed
      simp [h.network_eq, hfailed] at hcount
    exact ⟨h.opened, h.living, h.network_eq, h.position, by rw [h.written],
      h.unfailed.send_succ hpiece⟩

theorem sendLoop_of_none {buffer : List UInt8} {offset size : ℕ} {s' : Socket}
    (hsend : s.sysSend (buffer.drop offset) size = (none, s')) (hsize : 0 < size) :
    s.sendLoop buffer offset size = (false, s'.close) := by
  rw [sendLoop, dif_pos hsize]
  split <;> simp_all

theorem sendLoop_of_some {buffer : List UInt8} {offset size count : ℕ} {s' : Socket}
    (hsend : s.sysSend (buffer.drop offset) size = (some count, s')) (hsize : 0 < size) :
    s.sendLoop buffer offset size = s'.sendLoop buffer (offset + count) (size - count) := by
  rw [sendLoop, dif_pos hsize]
  split <;> simp_all

theorem SendResult.append {front data : List UInt8} {result : Bool × Socket}
    (h : SendResult network stream read (sent ++ front) data result) :
    SendResult network stream read sent (front ++ data) result := by
  cases h with
  | whole s h => exact .whole s (by rwa [← List.append_assoc])
  | lost s h => exact .lost s (by rwa [← List.append_assoc])

/-- The loop of `Send` writes all of the buffer that it is to write, or the socket is lost. -/
theorem InStep.sendLoop {buffer : List UInt8} {offset size : ℕ}
    (h : s.InStep network stream read sent) :
    SendResult network stream read sent ((buffer.drop offset).take size)
      (s.sendLoop buffer offset size) := by
  induction offset, size, s using sendLoop.induct buffer generalizing sent with
  | case1 offset size s hsize s' hsend =>
    rw [sendLoop_of_none hsend hsize]
    exact .lost _ ((h.sysSend_none hsend _).mono le_rfl (List.prefix_append _ _))
  | case2 offset size s hsize count s' hsend ih =>
    have hle := (sysSend_pos hsend hsize).2
    have hdata : (buffer.drop offset).take size = (buffer.drop offset).take count ++
        (buffer.drop (offset + count)).take (size - count) := by
      rw [← List.drop_drop, ← List.take_add, Nat.add_sub_cancel' hle]
    rw [sendLoop_of_some hsend hsize, hdata]
    exact (ih (h.sysSend_some hsend)).append
  | case3 offset size s hsize =>
    obtain rfl : size = 0 := by omega
    rw [Socket.sendLoop, dif_neg hsize]
    exact .whole s (by rwa [List.take_zero, List.append_nil])

theorem Lost.close_eq {need : ℕ} (h : s.Lost network stream need sent) : s.close = s := by
  rw [close, ← h.closed]

theorem Lost.recvLoop {buffer : List UInt8} {offset size need : ℕ}
    (h : s.Lost network stream need sent) (hsize : 0 < size) :
    s.recvLoop buffer offset size = (false, buffer, s) := by
  rw [Socket.recvLoop, if_pos hsize, sysRecv, h.closed]
  exact congrArg (fun s => (false, buffer, s)) h.close_eq

theorem Lost.sendLoop {buffer : List UInt8} {offset size need : ℕ}
    (h : s.Lost network stream need sent) (hsize : 0 < size) :
    s.sendLoop buffer offset size = (false, s) := by
  have hsend : s.sysSend (buffer.drop offset) size = (none, s) := by simp [sysSend, h.closed]
  rw [sendLoop_of_none hsend hsize, h.close_eq]

/-- Whatever has happened to a socket that has read the bytes `read` and written `sent`
as far as it could. -/
def Tracks (network : Network) (stream read sent : List UInt8) (s : Socket) : Prop :=
  s.InStep network stream read sent ∨ s.Lost network stream read.length sent

theorem tracks_connected (network : Network) (stream : List UInt8) :
    (connected network stream).Tracks network stream [] [] :=
  .inl ⟨rfl, rfl, rfl, rfl, rfl, fun _ hk => absurd hk (Nat.not_lt_zero _),
    fun _ hk => absurd hk (Nat.not_lt_zero _)⟩

theorem Tracks.killed_iff (h : s.Tracks network stream read sent) :
    s.killed = true ↔ network.Signals s.sends := by
  rcases h with hstep | hlost
  · exact hstep.killed_iff
  · exact hlost.killed_iff

theorem Tracks.outgoing (h : s.Tracks network stream read sent) : s.outgoing <+: sent := by
  rcases h with hstep | hlost
  · rw [hstep.written]
  · exact hlost.written

theorem Tracks.recv {buffer : List UInt8} {size : ℕ} (h : s.Tracks network stream read sent)
    (hsize : 0 < size) (hle : size ≤ buffer.length) :
    RecvResult network stream read sent buffer 0 size (s.recv buffer size) := by
  rcases h with hstep | hlost
  · exact hstep.recvLoop (by rwa [Nat.zero_add])
  · rw [Socket.recv, hlost.recvLoop hsize]
    exact .lost buffer s rfl (hlost.mono (Nat.le_add_right _ _) List.prefix_rfl)

theorem Tracks.send (buffer : List UInt8) {size : ℕ} (h : s.Tracks network stream read sent)
    (hsize : 0 < size) :
    SendResult network stream read sent (buffer.take size) (s.send buffer size) := by
  rcases h with hstep | hlost
  · have hloop : SendResult network stream read sent ((buffer.drop 0).take size)
        (s.sendLoop buffer 0 size) := hstep.sendLoop
    rwa [List.drop_zero] at hloop
  · rw [Socket.send, hlost.sendLoop hsize]
    exact .lost s (hlost.mono le_rfl (List.prefix_append _ _))

end Steps

end Socket

end RobotFactory.Marshalling
