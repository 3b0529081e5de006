import TwilightLine.Tun2socks.TcpClientRuns

/-! How the two halves of a TCP client are closed.

In every run, whatever the order of events: a client is in `tcp_clients` exactly
while its two flags are not both set; it is deallocated once, in the step that sets
the second flag; lwIP is not called with a pcb after `client_closed`, nor the SOCKS
client used after it was freed; and no assertion fails. -/
namespace TwilightLine.Tcp

open Trace

/-- What must have happened, and not happened, before an entry of the trace. -/
def lifecycle (pre : List Ev) : Ev → Prop
  | .lwip _ | .clientClosed => .clientClosed ∉ pre
  | .socks _ | .socksFree => .socksFree ∉ pre
  | .dealloc => .clientClosed ∈ pre ∧ .socksFree ∈ pre ∧ .dealloc ∉ pre
  | .assertFailed => False
  | _ => True

theorem lifecycle_mark {pre : List Ev} {e : Ev} (he : e.isMark) : lifecycle pre e := by
  cases e <;> trivial

/-- How the flags of a client show in its trace. -/
structure Logged (c : Conn) : Prop where
  closed : .clientClosed ∈ c.trace ↔ c.cl.clientClosed = true
  freed : .socksFree ∈ c.trace ↔ c.cl.socksClosed = true
  deallocated : c.trace.count .dealloc = if c.cl.clientClosed && c.cl.socksClosed && !c.allocated then 1 else 0
  created : c.allocated = true ∨ c.cl.clientClosed = true ∨ c.cl.socksClosed = true → .socks .init ∈ c.trace
  unallocated : c.allocated = false → c.cl.clientClosed = c.cl.socksClosed
  ordered : Always lifecycle c.trace

theorem Entry.logged {c c' : Conn} (h : Entry c c') (hc : Logged c) : Logged c' := by
  obtain ⟨hclosed, hfreed, hdealloc, hcreated, hunalloc, hordered⟩ := hc
  cases h with
  | fields h =>
    exact ⟨by simpa [h.clientClosed], by simpa [h.socksClosed], by rw [h.clientClosed, h.socksClosed, hdealloc],
      by simpa [h.clientClosed, h.socksClosed], by simpa [h.clientClosed, h.socksClosed], hordered⟩
  | @mark e _ _ _ he =>
    have hother : ∀ x : Ev, x.isMark = false → x ≠ e := by
      rintro x hx rfl
      exact absurd (hx.symm.trans he) nofun
    have h₁ := hother .clientClosed rfl
    have h₂ := hother .socksFree rfl
    have h₃ := hother .dealloc rfl
    exact ⟨by simp [h₁, hclosed], by simp [h₂, hfreed], by simp [List.count_append, h₃.symm, hdealloc],
      by simp_all, hunalloc, by simp [hordered, lifecycle_mark he]⟩
  | closeClient hopen hal => constructor <;> simp_all [lifecycle]
  | closeSocks hopen hal hmay => constructor <;> simp_all [lifecycle]
  | dealloc hc hs hal => constructor <;> simp_all [lifecycle, List.count_eq_zero]
  | _ => constructor <;> simp_all [lifecycle]

theorem logged_none : Logged {} := ⟨by simp, by simp, rfl, by simp, fun _ => rfl, always_nil⟩

theorem logged_failed : Logged failedConn :=
  ⟨by decide, by decide, by decide, by decide, by decide, always_iff_from.2 (by simp [failedConn, lifecycle])⟩

theorem logged_accepted : Logged acceptedConn :=
  ⟨by decide, by decide, by decide, by decide, by decide, always_iff_from.2 (by simp [acceptedConn, lifecycle])⟩

theorem Reachable.logged {s : Sys} (h : Reachable s) (i : Nat) : Logged (s.conns i) :=
  conn_invariant_of_entries logged_none logged_failed logged_accepted (fun _ _ => Entry.logged) h i

/-! ### The list of clients -/

/-- `listener_accept_func` made a client here. -/
def Created (c : Conn) : Prop := .socks .init ∈ c.trace

/-- Both halves of the client are closed. -/
def BothClosed (c : Conn) : Prop := c.cl.clientClosed = true ∧ c.cl.socksClosed = true

instance (c : Conn) : Decidable (BothClosed c) := inferInstanceAs (Decidable (_ ∧ _))

theorem NoClient.not_created {c : Conn} (h : NoClient c) : ¬ Created c ∧ ¬ BothClosed c := by
  rcases h with rfl | rfl
  · exact ⟨by simp [Created], by decide⟩
  · exact ⟨by simp [Created, failedConn], by decide⟩

theorem AtRest.allocated_iff {w : World} (h : AtRest w) : w.allocated = true ↔ ¬ BothClosed w.toConn := by
  rw [h.allocated, BothClosed]
  cases w.cl.clientClosed <;> cases w.cl.socksClosed <;> simp

theorem Reachable.listed_iff {s : Sys} (h : Reachable s) (i : Nat) :
    i ∈ s.tcpClients ↔ Created (s.conns i) ∧ ¬ BothClosed (s.conns i) := by
  rcases h.inv.clients i with ⟨hno, hout⟩ | hrest
  · exact iff_of_false hout fun hc => hno.not_created.1 hc.1
  · have hal : (s.conns i).allocated = true ↔ ¬ BothClosed (s.conns i) := hrest.allocated_iff
    have hlisted : i ∈ s.tcpClients ↔ (s.conns i).allocated = true := hrest.listed
    rw [hlisted, ← hal]
    exact ⟨fun ha => ⟨(h.logged i).created (.inl ha), ha⟩, And.right⟩

/-- Between events a client has been deallocated once if its flags are both set, and not at all
otherwise. -/
theorem Reachable.count_dealloc {s : Sys} (h : Reachable s) (i : Nat) :
    (s.conns i).trace.count .dealloc = if BothClosed (s.conns i) then 1 else 0 := by
  rw [(h.logged i).deallocated]
  rcases h.inv.clients i with ⟨hno, -⟩ | hrest
  · rw [if_neg hno.not_created.2, if_neg fun hc => hno.not_created.2 ?_]
    simp only [Bool.and_eq_true] at hc
    exact hc.1
  · have hal : (s.conns i).allocated = !((s.conns i).cl.clientClosed && (s.conns i).cl.socksClosed) :=
      hrest.allocated
    simp only [hal, Bool.not_not, Bool.and_self, Bool.and_eq_true, BothClosed]
    congr

theorem Reachable.step {s s' : Sys} (h : Reachable s) {e : SysEvent} (hstep : sysStep s e = some s') :
    Reachable s' := by
  obtain ⟨es, hrun⟩ := h
  exact ⟨es ++ [e], Run.run_concat hrun hstep⟩

/-- **The life of the clients.** In every state tun2socks can reach, and in every step from there. -/
theorem clients_lifecycle {s : Sys} (h : Reachable s) :
    s.tcpClients.Nodup ∧ s.numClients = s.tcpClients.length ∧
    (∀ i, i ∈ s.tcpClients ↔ Created (s.conns i) ∧ ¬ BothClosed (s.conns i)) ∧
    (∀ i, (s.conns i).trace.count .dealloc = if BothClosed (s.conns i) then 1 else 0) ∧
    (∀ e s', sysStep s e = some s' → ∀ i,
      (s'.conns i).trace.count .dealloc = (s.conns i).trace.count .dealloc + 1 ↔
        ¬ BothClosed (s.conns i) ∧ BothClosed (s'.conns i)) ∧
    (∀ i, Always lifecycle (s.conns i).trace) := by
  refine ⟨h.inv.nodup, h.inv.counted, h.listed_iff, h.count_dealloc, fun e s' hstep i => ?_,
    fun i => (h.logged i).ordered⟩
  rw [h.count_dealloc i, (h.step hstep).count_dealloc i]
  by_cases hb : BothClosed (s.conns i) <;> by_cases hb' : BothClosed (s'.conns i) <;> simp [hb, hb']

/-- Two clients, one of which has had data and is back from the callback. -/
def sampleEvents : List SysEvent :=
  [.accept true, .client 0 .ret, .accept false, .accept true,
    .client 0 (.recv (some [71, 69, 84]) ⟨.ok, [], .ok⟩), .client 0 .ret]

theorem clients_lifecycle_sample : ∃ s, Run.run sysStep {} sampleEvents = some s ∧
    s.tcpClients = [0, 2] ∧ s.numClients = 2 ∧ (∀ i, Always lifecycle (s.conns i).trace) :=
  ⟨_, rfl, rfl, rfl, (clients_lifecycle ⟨sampleEvents, rfl⟩).2.2.2.2.2⟩

end TwilightLine.Tcp
