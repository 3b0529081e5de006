import TwilightLine.Tun2socks.TcpClientLifecycle

/-! The bytes from a TCP client to SOCKS.

`client_recv_func` appends to `buf` while a prefix of it is being sent, and each
completed send takes bytes off its front. `uploads_exact` says that no byte is lost,
duplicated or reordered on the way, that a send is outstanding whenever it can be,
that lwIP gets back as much window as SOCKS has taken, and that a closed client's
data is still sent. `window_never_exceeded` is what follows for an lwIP that keeps
to the window: `buf` is never too small. -/
namespace TwilightLine.Tcp

open Trace

/-- The contents of a pbuf taken into `buf`. -/
def Ev.acceptedData : Ev → List UInt8
  | .accepted data => data
  | _ => []

/-- The bytes a completion of a send reports. -/
def Ev.sentData : Ev → List UInt8
  | .sent data => data
  | _ => []

/-- The argument of `tcp_recved`. -/
def Ev.recvedLen : Ev → Nat
  | .lwip (.recved n) => n
  | _ => 0

/-- The length of a pbuf handed to `client_recv_func`. -/
def Ev.deliveredLen : Ev → Nat
  | .accepted data => data.length
  | .noBuffer n => n
  | _ => 0

/-- What happened before `client_closed` was set. -/
def openPart (t : List Ev) : List Ev := t.takeWhile (fun e => e != .clientClosed)

theorem openPart_of_closed {t : List Ev} (h : .clientClosed ∈ t) (u : List Ev) :
    openPart (t ++ u) = openPart t := by
  induction t with
  | nil => cases h
  | cons e t ih =>
    by_cases he : e = .clientClosed
    · simp [openPart, he]
    · have : .clientClosed ∈ t := (List.mem_cons.1 h).resolve_left (Ne.symm he)
      simpa [openPart, he] using ih this

theorem openPart_of_open {t : List Ev} (h : .clientClosed ∉ t) (u : List Ev) :
    openPart (t ++ u) = t ++ openPart u := by
  refine List.takeWhile_append_of_pos fun e he => ?_
  simpa using fun hce : e = .clientClosed => h (hce ▸ he)

theorem openPart_self {t : List Ev} (h : .clientClosed ∉ t) : openPart t = t := by
  simpa [openPart] using openPart_of_open h []

theorem sentData_openPart_concat (t : List Ev) {e : Ev} (hs : e.sentData = []) :
    gather Ev.sentData (openPart (t ++ [e])) = gather Ev.sentData (openPart t) := by
  by_cases hc : .clientClosed ∈ t
  · rw [openPart_of_closed hc]
  · have hlast : gather Ev.sentData (openPart [e]) = [] := by
      by_cases he : e = .clientClosed <;> simp [openPart, he, hs]
    rw [openPart_of_open hc, openPart_self hc, gather_append, hlast, List.append_nil]

/-- Each pbuf that is refused would not have fit, with the window given back so far. -/
def refusal (pre : List Ev) (e : Ev) : Prop :=
  ∀ n, e = .noBuffer n → tcpWnd + total Ev.recvedLen pre < (gather Ev.acceptedData pre).length + n

/-- The SOCKS client is freed with everything sent, unless it failed or the client was murdered. -/
def freeing (pre : List Ev) (e : Ev) : Prop :=
  e = .socksFree → gather Ev.sentData pre = gather Ev.acceptedData pre ∨ .socksFailed ∈ pre ∨ .murdered ∈ pre

/-- The upload half of a client, against its trace. -/
structure Uploads (c : Conn) : Prop where
  bytes : gather Ev.sentData c.trace ++ c.cl.buf = gather Ev.acceptedData c.trace
  credit : total Ev.recvedLen c.trace = (gather Ev.sentData (openPart c.trace)).length
  refused : Always refusal c.trace
  freed : Always freeing c.trace

/-- While the client is open, what was given back is what was sent. -/
theorem Uploads.credit_open {c : Conn} (h : Uploads c) (hlog : Logged c) (hopen : c.cl.clientClosed = false) :
    total Ev.recvedLen c.trace = (gather Ev.sentData c.trace).length := by
  have hnot : .clientClosed ∉ c.trace := fun hin => by simp [hlog.closed.1 hin] at hopen
  rw [h.credit, openPart_self hnot]

/-- An entry that is not about this half changes nothing. -/
theorem Uploads.idle {c c' : Conn} (h : Uploads c) {e : Ev} (htrace : c'.trace = c.trace ++ [e])
    (hbuf : c'.cl.buf = c.cl.buf) (hs : e.sentData = []) (ha : e.acceptedData = []) (hr : e.recvedLen = 0)
    (hn : refusal c.trace e) (hf : freeing c.trace e) : Uploads c' := by
  refine ⟨?_, ?_, ?_, ?_⟩
  · simpa [htrace, hbuf, hs, ha] using h.bytes
  · rw [htrace, sentData_openPart_concat _ hs, total_append, h.credit]
    simp [hr]
  · rw [htrace]
    exact always_concat.2 ⟨h.refused, hn⟩
  · rw [htrace]
    exact always_concat.2 ⟨h.freed, hf⟩

theorem Entry.uploads {c c' : Conn} (h : Entry c c') (hlog : Logged c) (hc : Uploads c) : Uploads c' := by
  cases h with
  | fields h => exact ⟨by simpa [h.buf] using hc.bytes, hc.credit, hc.refused, hc.freed⟩
  | @mark e _ _ _ he =>
    cases e <;> cases he <;> exact hc.idle rfl rfl rfl rfl rfl nofun nofun
  | @lwip call _ hopen hq =>
    cases call with
    | recved n => cases hq
    | _ => exact hc.idle rfl rfl rfl rfl rfl nofun nofun
  | closeSocks hopen hal hmay =>
    refine hc.idle rfl rfl rfl rfl rfl nofun fun _ => hmay.imp_left fun hb => ?_
    simpa [hb] using hc.bytes
  | accept hopen hfit =>
    refine ⟨by simp [← hc.bytes, Ev.sentData, Ev.acceptedData], ?_, always_concat.2 ⟨hc.refused, nofun⟩,
      always_concat.2 ⟨hc.freed, nofun⟩⟩
    rw [sentData_openPart_concat _ rfl, ← hc.credit]
    simp [Ev.recvedLen]
  | refuse hopen hfit =>
    refine hc.idle rfl rfl rfl rfl rfl ?_ nofun
    rintro n ⟨⟩
    rw [← hc.bytes, hc.credit_open hlog hopen, List.length_append]
    omega
  | @sentOpen n hopen hle =>
    have hnot : .clientClosed ∉ c.trace := fun hin => by simp [hlog.closed.1 hin] at hopen
    refine ⟨?_, ?_, ?_, ?_⟩
    · simp [← hc.bytes, Ev.sentData, Ev.acceptedData]
    · rw [List.append_assoc, openPart_of_open hnot, total_append, gather_append, List.length_append,
        hc.credit_open hlog hopen]
      simp [openPart, Ev.sentData, Ev.recvedLen, hle]
    · exact always_concat.2 ⟨always_concat.2 ⟨hc.refused, nofun⟩, nofun⟩
    · exact always_concat.2 ⟨always_concat.2 ⟨hc.freed, nofun⟩, nofun⟩
  | @sentClosed n hclosed hle =>
    refine ⟨?_, ?_, always_concat.2 ⟨hc.refused, nofun⟩, always_concat.2 ⟨hc.freed, nofun⟩⟩
    · simp [← hc.bytes, Ev.sentData, Ev.acceptedData]
    · rw [openPart_of_closed (hlog.closed.2 hclosed), ← hc.credit]
      simp [Ev.recvedLen]
  | _ => exact hc.idle rfl rfl rfl rfl rfl nofun nofun

theorem Reachable.uploads {s : Sys} (h : Reachable s) (i : Nat) : Uploads (s.conns i) := by
  have hboth : Logged (s.conns i) ∧ Uploads (s.conns i) := by
    refine conn_invariant_of_entries (I := fun c => Logged c ∧ Uploads c) ?_ ?_ ?_
      (fun _ _ he hc => ⟨he.logged hc.1, he.uploads hc.1 hc.2⟩) h i
    · exact ⟨logged_none, rfl, rfl, always_nil, always_nil⟩
    · exact ⟨logged_failed, rfl, rfl, always_iff_from.2 (by simp [failedConn, refusal]),
        always_iff_from.2 (by simp [failedConn, freeing])⟩
    · exact ⟨logged_accepted, rfl, rfl, always_iff_from.2 (by simp [acceptedConn, refusal]),
        always_iff_from.2 (by simp [acceptedConn, freeing])⟩
  exact hboth.2

/-- **No byte is lost on the way to SOCKS.** In every reachable state of every client: what SOCKS sent and
what is in `buf` is what was accepted; a send is outstanding exactly if SOCKS is up, not closed and has data
to take, and it is of the first bytes of `buf`; lwIP got back what SOCKS sent while the client was open; and
the SOCKS client was only freed with nothing left, after it failed, or by `client_murder`. -/
theorem uploads_exact {s : Sys} (h : Reachable s) (i : Nat) :
    gather Ev.sentData (s.conns i).trace ++ (s.conns i).cl.buf = gather Ev.acceptedData (s.conns i).trace ∧
    ((s.conns i).socks.sending ≠ none ↔
      (s.conns i).cl.socksUp = true ∧ (s.conns i).cl.socksClosed = false ∧ 0 < (s.conns i).cl.buf.length) ∧
    (∀ data ∈ (s.conns i).socks.sending, data ≠ [] ∧ data <+: (s.conns i).cl.buf) ∧
    total Ev.recvedLen (s.conns i).trace = (gather Ev.sentData (openPart (s.conns i).trace)).length ∧
    Always freeing (s.conns i).trace := by
  have hup := h.uploads i
  refine ⟨hup.bytes, ?_, ?_, hup.credit, hup.freed⟩
  all_goals rcases h.inv.clients i with ⟨hno, -⟩ | hrest
  · rcases hno with hno | hno <;> simp [hno, failedConn]
  · cases hs : (s.conns i).cl.socksClosed
    · have hsend : (s.conns i).socks.sending ≠ none ↔
          (s.conns i).cl.socksUp = true ∧ (s.conns i).cl.buf ≠ [] := hrest.sending hs
      simpa [List.length_pos_iff] using hsend
    · have hsend : (s.conns i).socks.sending = none := (hrest.socksFreed hs).1
      simp [hsend]
  · rcases hno with hno | hno <;> simp [hno, failedConn]
  · exact hrest.sendingPrefix

theorem uploads_exact_sample : ∃ s, Run.run sysStep {} sampleEvents = some s ∧ (s.conns 0).cl.buf = [71, 69, 84] ∧
    gather Ev.sentData (s.conns 0).trace ++ (s.conns 0).cl.buf = gather Ev.acceptedData (s.conns 0).trace :=
  ⟨_, rfl, rfl, (uploads_exact ⟨sampleEvents, rfl⟩ 0).1⟩

/-! ### The window -/

/-- At every moment, lwIP had delivered at most `TCP_WND` bytes more than it had been given back. -/
def WithinWindow (t : List Ev) : Prop :=
  Always (fun pre e => total Ev.deliveredLen (pre ++ [e]) ≤ tcpWnd + total Ev.recvedLen pre) t

instance (t : List Ev) : Decidable (WithinWindow t) := inferInstanceAs (Decidable (Always _ t))

theorem acceptedData_le_delivered (t : List Ev) :
    (gather Ev.acceptedData t).length ≤ total Ev.deliveredLen t := by
  induction t with
  | nil => simp
  | cons e t ih =>
    have he : e.acceptedData.length ≤ e.deliveredLen := by cases e <;> simp [Ev.acceptedData, Ev.deliveredLen]
    simp only [gather_cons, total_cons, List.length_append]
    omega

/-- **The buffer is large enough.** If lwIP keeps to the window, no pbuf is ever refused. -/
theorem window_never_exceeded {s : Sys} (h : Reachable s) (i : Nat) (hw : WithinWindow (s.conns i).trace) :
    (s.conns i).cl.buf.length ≤ tcpWnd ∧ ∀ n, .noBuffer n ∉ (s.conns i).trace := by
  constructor
  · rcases h.inv.clients i with ⟨hno, -⟩ | hrest
    · rcases hno with hno | hno <;> simp [hno, failedConn]
    · exact hrest.bufFits
  · intro n hin
    obtain ⟨pre, post, hsplit⟩ := List.append_of_mem hin
    have hwindow := hw pre _ post hsplit
    have hrefused := (h.uploads i).refused pre _ post hsplit n rfl
    have hle := acceptedData_le_delivered pre
    simp only [total_append, total_cons, total_nil, Ev.deliveredLen] at hwindow
    omega

theorem window_never_exceeded_sample : ∃ s, Run.run sysStep {} sampleEvents = some s ∧
    (s.conns 0).cl.buf.length ≤ tcpWnd ∧ ∀ n, .noBuffer n ∉ (s.conns 0).trace :=
  ⟨_, rfl, window_never_exceeded ⟨sampleEvents, rfl⟩ 0 (by decide)⟩

end TwilightLine.Tcp
