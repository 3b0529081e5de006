import TwilightLine.Tun2socks.TcpClientLifecycle

/-! The bytes from SOCKS to a TCP client.

What SOCKS delivers is written to lwIP piece by piece, as far as its send buffer
goes, and the rest waits for a later `client_sent_func`. `downloads_exact` says that
the bytes written are the first bytes received, that nothing more is received before
everything is written, that whoever waits will be woken, and that after the end of
SOCKS the pcb is only closed once everything arrived. -/
namespace TwilightLine.Tcp

open Trace

/-- The bytes a completion of a receive brings. -/
def Ev.receivedData : Ev → List UInt8
  | .received data => data
  | _ => []

/-- A receive is only started with everything written. -/
def receiving (pre : List Ev) (e : Ev) : Prop :=
  e = .socks .recv → gather Ev.writtenData pre = gather Ev.receivedData pre

/-- After the end of SOCKS, the pcb is only closed with everything written and acknowledged. -/
def closing (pre : List Ev) (e : Ev) : Prop :=
  e = .lwip .close → .socksFree ∈ pre →
    gather Ev.writtenData pre = gather Ev.receivedData pre ∧
    total Ev.ackedLen pre = (gather Ev.writtenData pre).length

/-- The download half of a client, against its trace. Only a closed client drops data. -/
structure Downloads (c : Conn) : Prop where
  bytes : ∃ dropped, gather Ev.receivedData c.trace = gather Ev.writtenData c.trace ++ unwritten c.cl ++ dropped ∧
    (c.cl.clientClosed = false → dropped = [])
  pending : CountsPending c
  received : Always receiving c.trace
  closed : Always closing c.trace

theorem Downloads.bytes_open {c : Conn} (h : Downloads c) (hopen : c.cl.clientClosed = false) :
    gather Ev.receivedData c.trace = gather Ev.writtenData c.trace ++ unwritten c.cl := by
  obtain ⟨dropped, hbytes, hnone⟩ := h.bytes
  rw [hbytes, hnone hopen, List.append_nil]

/-- An entry that is not about this half changes nothing. -/
theorem Downloads.idle {c c' : Conn} (h : Downloads c) {e : Ev} (htrace : c'.trace = c.trace ++ [e])
    (hunwritten : unwritten c'.cl = unwritten c.cl)
    (hclosed : c'.cl.clientClosed = false → c.cl.clientClosed = false) (hpend : CountsPending c')
    (hr : e.receivedData = []) (hw : e.writtenData = []) (hrecv : receiving c.trace e) (hclose : closing c.trace e) :
    Downloads c' := by
  obtain ⟨dropped, hbytes, hnone⟩ := h.bytes
  refine ⟨⟨dropped, ?_, fun hc => hnone (hclosed hc)⟩, hpend, ?_, ?_⟩
  · simp [htrace, hunwritten, hr, hw, hbytes]
  · rw [htrace]
    exact always_concat.2 ⟨h.received, hrecv⟩
  · rw [htrace]
    exact always_concat.2 ⟨h.closed, hclose⟩

theorem Entry.downloads {c c' : Conn} (h : Entry c c') (hlog : Logged c) (hc : Downloads c) : Downloads c' := by
  have hpend := h.countsPending hc.pending
  cases h with
  | fields h => exact ⟨by simpa [h.unwritten, h.clientClosed] using hc.bytes, hpend, hc.received, hc.closed⟩
  | @mark e _ _ _ he =>
    cases e <;> cases he <;> exact hc.idle rfl rfl id hpend rfl rfl (by rintro ⟨⟩) (by rintro ⟨⟩)
  | @lwip call _ hopen hq =>
    refine hc.idle rfl rfl id hpend rfl (writtenData_quiet hq) (by rintro ⟨⟩) ?_
    rintro ⟨⟩
    cases hq
  | close hopen hdone =>
    refine hc.idle rfl rfl id hpend rfl rfl (by rintro ⟨⟩) fun _ hfreed => ?_
    obtain ⟨hempty, hnone⟩ := hdone (hlog.freed.1 hfreed)
    have hcount := hc.pending
    unfold CountsPending at hcount
    rw [hc.bytes_open hopen, hempty, List.append_nil]
    exact ⟨rfl, by omega⟩
  | closeClient hopen hal => exact hc.idle rfl rfl (by rintro ⟨⟩) hpend rfl rfl (by rintro ⟨⟩) (by rintro ⟨⟩)
  | sentOpen hopen hle =>
    obtain ⟨dropped, hbytes, hnone⟩ := hc.bytes
    exact ⟨⟨dropped, by simp [hbytes, Ev.receivedData, Ev.writtenData, unwritten], hnone⟩, hpend,
      always_concat.2 ⟨always_concat.2 ⟨hc.received, (by rintro ⟨⟩)⟩, (by rintro ⟨⟩)⟩,
      always_concat.2 ⟨always_concat.2 ⟨hc.closed, (by rintro ⟨⟩)⟩, (by rintro ⟨⟩)⟩⟩
  | socks hopen hrecv =>
    refine hc.idle rfl rfl id hpend rfl rfl ?_ (by rintro ⟨⟩)
    rintro ⟨⟩
    obtain ⟨hc', hempty⟩ := hrecv rfl
    rw [hc.bytes_open hc', hempty, List.append_nil]
  | @load data hopen hempty hdata =>
    have hpos : 0 < data.length := List.length_pos_iff.2 hdata
    have hbytes := hc.bytes_open hopen
    rw [hempty, List.append_nil] at hbytes
    refine ⟨⟨[], ?_, fun _ => rfl⟩, hpend, always_concat.2 ⟨hc.received, (by rintro ⟨⟩)⟩, always_concat.2 ⟨hc.closed, (by rintro ⟨⟩)⟩⟩
    simp [hbytes, unwritten, hpos, Ev.receivedData, Ev.writtenData]
  | @drop data hclosed =>
    obtain ⟨dropped, hbytes, hnone⟩ := hc.bytes
    refine ⟨⟨dropped ++ data, ?_, fun hopen => absurd (hopen.symm.trans hclosed) Bool.false_ne_true⟩, hpend,
      always_concat.2 ⟨hc.received, (by rintro ⟨⟩)⟩, always_concat.2 ⟨hc.closed, (by rintro ⟨⟩)⟩⟩
    simp [hbytes, Ev.receivedData, Ev.writtenData]
  | @write n hopen hused hle =>
    refine ⟨⟨[], ?_, fun _ => rfl⟩, hpend, always_concat.2 ⟨hc.received, (by rintro ⟨⟩)⟩, always_concat.2 ⟨hc.closed, (by rintro ⟨⟩)⟩⟩
    have hrest : (c.cl.socksRecvBuf.drop c.cl.socksRecvBufSent).take n ++
        c.cl.socksRecvBuf.drop (c.cl.socksRecvBufSent + n) = c.cl.socksRecvBuf.drop c.cl.socksRecvBufSent := by
      rw [← List.drop_drop, List.take_append_drop]
    simp [hc.bytes_open hopen, unwritten, hused, Ev.receivedData, Ev.writtenData, hrest]
  | _ => exact hc.idle rfl rfl id hpend rfl rfl (by rintro ⟨⟩) (by rintro ⟨⟩)

theorem Reachable.downloads {s : Sys} (h : Reachable s) (i : Nat) : Downloads (s.conns i) := by
  have hboth : Logged (s.conns i) ∧ Downloads (s.conns i) := by
    refine conn_invariant_of_entries (I := fun c => Logged c ∧ Downloads c) ?_ ?_ ?_
      (fun _ _ he hc => ⟨he.logged hc.1, he.downloads hc.1 hc.2⟩) h i
    · exact ⟨logged_none, ⟨[], rfl, fun _ => rfl⟩, rfl, always_nil, always_nil⟩
    · exact ⟨logged_failed, ⟨[], rfl, fun _ => rfl⟩, rfl, always_iff_from.2 (by simp [failedConn, receiving]),
        always_iff_from.2 (by simp [failedConn, closing])⟩
    · exact ⟨logged_accepted, ⟨[], rfl, fun _ => rfl⟩, rfl, always_iff_from.2 (by simp [acceptedConn, receiving]),
        always_iff_from.2 (by simp [acceptedConn, closing])⟩
  exact hboth.2

end TwilightLine.Tcp
