import TwilightLine.Tun2socks.TcpClientEntries
import Mathlib.Data.List.Nodup

/-! Runs of tun2socks with any number of TCP clients.

`SysInv` holds in every reachable state: what was never accepted is untouched, and
every client is at rest. `conn_invariant` is the rule the later modules use: a
property of one client that its actions preserve, and that holds of a client just
accepted, holds of every client in every reachable state, whatever happens to the
others. -/
namespace TwilightLine.Tcp

open Trace

/-- A client right after its accept, still inside `listener_accept_func`. -/
def acceptedConn : Conn where
  cl := {deadAborted := some 0}
  allocated := true
  pcb := {alive := true, err := true, recv := true}
  socks := {alive := true}
  frames := [⟨0, 0, none⟩]
  nextFrame := 1
  trace := [.enter 0, .socks .init, .lwip .arg, .lwip (.err true), .lwip (.recv true)]

/-- What an accept that fails leaves behind. -/
def failedConn : Conn where
  nextFrame := 1
  trace := [.enter 0, .ret 0 .mem]

theorem listenerAcceptFunc_eq (self : Nat) (tcpClients : List Nat) {numClients : Int} (hnum : 0 ≤ numClients) :
    listenerAcceptFunc {self, tcpClients, numClients} =
      {acceptedConn with self, tcpClients := tcpClients ++ [self], numClients := numClients + 1} := by
  simp [listenerAcceptFunc, acceptedConn, World.assert, World.log, tcpArg, tcpErr, tcpRecv, hnum]

/-! ### Written bytes and acknowledgements -/

/-- `socks_recv_tcp_pending` counts the written bytes that are not acknowledged. -/
def CountsPending (c : Conn) : Prop :=
  (gather Ev.writtenData c.trace).length = total Ev.ackedLen c.trace + c.cl.socksRecvTcpPending

@[simp]
theorem writtenData_quiet {c : LwipCall} (hc : c.quiet) : (Ev.lwip c).writtenData = [] := by
  cases c with
  | write data result => cases result <;> first | rfl | cases hc
  | _ => rfl

@[simp]
theorem writtenData_mark {e : Ev} (he : e.isMark) : e.writtenData = [] := by
  cases e <;> first | rfl | cases he

@[simp]
theorem ackedLen_mark {e : Ev} (he : e.isMark) : e.ackedLen = 0 := by
  cases e <;> first | rfl | cases he

theorem Entry.countsPending {c c' : Conn} (h : Entry c c') (hc : CountsPending c) : CountsPending c' := by
  unfold CountsPending at *
  cases h with
  | fields h => simpa [h.pending] using hc
  | lwip hopen hq => simpa [hq, Ev.ackedLen] using hc
  | mark he => simpa [he] using hc
  | write hopen hused hle =>
    simp [Ev.writtenData, Ev.ackedLen, hc]
    omega
  | acked hle =>
    simp [Ev.writtenData, Ev.ackedLen, hc]
    omega
  | _ => simpa [Ev.writtenData, Ev.ackedLen] using hc

/-! ### Every client at rest -/

/-- An action of one client does not touch the place of another in the list. -/
theorem Act.others {w w' : World} (h : Act w w') :
    w'.self = w.self ∧ ∀ j, j ≠ w.self → (j ∈ w'.tcpClients ↔ j ∈ w.tcpClients) := by
  cases h with
  | abort hopen hnot hal =>
    rw [clientAbortPcb_eq hnot]
    exact ⟨rfl, fun _ _ => .rfl⟩
  | dealloc hc hs hal hnum =>
    rw [clientDealloc_eq hc hs hnum]
    exact ⟨rfl, fun j hj => List.mem_erase_of_ne hj⟩
  | ret =>
    unfold callbackReturn
    split
    · exact ⟨rfl, fun _ _ => .rfl⟩
    · rw [deadLeave_eq]
      exact ⟨rfl, fun _ _ => .rfl⟩
  | refuse hopen hnot hal hfit hfr =>
    rw [deadLeave_eq]
    exact ⟨rfl, fun _ _ => .rfl⟩
  | sent hle hw' =>
    subst hw'
    split <;> exact ⟨rfl, fun _ _ => .rfl⟩
  | _ => exact ⟨rfl, fun _ _ => .rfl⟩

theorem Acts.others {w w' : World} (h : Acts w w') :
    w'.self = w.self ∧ ∀ j, j ≠ w.self → (j ∈ w'.tcpClients ↔ j ∈ w.tcpClients) := by
  induction h with
  | refl => exact ⟨rfl, fun _ _ => .rfl⟩
  | tail _ hact ih =>
    obtain ⟨hself, hmem⟩ := hact.others
    exact ⟨hself.trans ih.1, fun j hj => (hmem j (ih.1 ▸ hj)).trans (ih.2 j hj)⟩

/-- A client at rest stays so when the globals change for another. -/
theorem AtRest.globals {w : World} (h : AtRest w) {tcpClients : List Nat} {numClients : Int}
    (hnodup : tcpClients.Nodup) (hmem : w.self ∈ tcpClients ↔ w.self ∈ w.tcpClients)
    (hnum : numClients = tcpClients.length) : AtRest {w with tcpClients, numClients} :=
  {h with
    nodup := hnodup
    listed := hmem.trans h.listed
    counted := hnum
    ofOpen := fun ho => {h.ofOpen ho with}
    ofClosed := h.ofClosed}

/-- Nothing was ever allocated here. -/
def NoClient (c : Conn) : Prop := c = {} ∨ c = failedConn

theorem NoClient.not_enabled {w : World} (h : NoClient w.toConn) (hmem : w.self ∉ w.tcpClients) (e : Event) :
    ¬ Enabled w e := by
  obtain ⟨c, self, tcpClients, numClients⟩ := w
  rcases h with rfl | rfl
  all_goals cases e <;> simp_all [Enabled, failedConn]

/-- What holds of the whole system between events. -/
structure SysInv (s : Sys) : Prop where
  nodup : s.tcpClients.Nodup
  counted : s.numClients = s.tcpClients.length
  fresh : ∀ i, s.next ≤ i → s.conns i = {}
  clients : ∀ i, NoClient (s.conns i) ∧ i ∉ s.tcpClients ∨ AtRest (s.world i)
  pending : ∀ i, CountsPending (s.conns i)

theorem sysInv_init : SysInv {} :=
  ⟨.nil, rfl, fun _ _ => rfl, fun _ => .inl ⟨.inl rfl, List.not_mem_nil⟩, fun _ => rfl⟩

theorem SysInv.next_not_listed {s : Sys} (h : SysInv s) : s.next ∉ s.tcpClients := by
  rcases h.clients s.next with ⟨-, hmem⟩ | hrest
  · exact hmem
  · have hfresh := h.fresh s.next le_rfl
    have := hrest.listed
    simpa [Sys.world, hfresh] using this

/-- Something happened to client `i`, and left the list and the counter in order. -/
theorem SysInv.put {s : Sys} (h : SysInv s) {i next : Nat} {w : World} (hself : w.self = i)
    (hnodup : w.tcpClients.Nodup) (hnum : w.numClients = w.tcpClients.length)
    (hmem : ∀ j, j ≠ i → (j ∈ w.tcpClients ↔ j ∈ s.tcpClients))
    (hconn : NoClient w.toConn ∧ i ∉ w.tcpClients ∨ AtRest w) (hpend : CountsPending w.toConn)
    (hi : i < next) (hnext : s.next ≤ next) : SysInv {s.put i w with next} := by
  have hother : ∀ j, j ≠ i → (s.put i w).conns j = s.conns j := fun j hj => if_neg hj
  have hsame : (s.put i w).conns i = w.toConn := if_pos rfl
  have hworld : (s.put i w).world i = w := by
    subst hself
    simp only [Sys.world, hsame]
    rfl
  refine ⟨hnodup, hnum, fun j hj => ?_, fun j => ?_, fun j => ?_⟩
  · have hj : next ≤ j := hj
    rw [← h.fresh j (hnext.trans hj)]
    exact hother j (by omega)
  · by_cases hj : j = i
    · subst hj
      change NoClient ((s.put j w).conns j) ∧ j ∉ w.tcpClients ∨ AtRest ((s.put j w).world j)
      rwa [hsame, hworld]
    · simp only [Sys.world, hother j hj]
      rcases h.clients j with ⟨hno, hout⟩ | hrest
      · exact .inl ⟨hno, fun hin => hout ((hmem j hj).1 hin)⟩
      · exact .inr (hrest.globals hnodup (hmem j hj) hnum)
  · by_cases hj : j = i
    · subst hj
      simpa only [hsame] using hpend
    · simpa only [hother j hj] using h.pending j

/-- A step of the system, as what it makes of one client. -/
inductive StepOf (s s' : Sys) : SysEvent → Prop where
  | accepted (h : s' = {s.put s.next {acceptedConn with
      self := s.next, tcpClients := s.tcpClients ++ [s.next], numClients := s.numClients + 1} with
      next := s.next + 1}) : StepOf s s' (.accept true)
  | failed (h : s' = {s.put s.next {failedConn with
      self := s.next, tcpClients := s.tcpClients, numClients := s.numClients} with
      next := s.next + 1}) : StepOf s s' (.accept false)
  | client {i : Nat} {e : Event} (henabled : Enabled (s.world i) e) (hrest : AtRest (s.world i))
      (hf : Finishes (s.world i) (handle (s.world i) e)) (h : s' = s.put i (handle (s.world i) e)) :
      StepOf s s' (.client i e)

/-- **Inversion of a step.** -/
theorem SysInv.stepOf {s s' : Sys} (h : SysInv s) {e : SysEvent} (hstep : sysStep s e = some s') :
    StepOf s s' e := by
  have hfresh : s.world s.next =
      {self := s.next, tcpClients := s.tcpClients, numClients := s.numClients} := by
    simp only [Sys.world, h.fresh s.next le_rfl]
  cases e with
  | accept ok =>
    simp only [sysStep, Option.some.injEq, hfresh] at hstep
    cases ok with
    | true =>
      rw [if_pos rfl, listenerAcceptFunc_eq _ _ (by rw [h.counted]; omega)] at hstep
      exact .accepted hstep.symm
    | false => exact .failed hstep.symm
  | client i e =>
    simp only [sysStep, Option.map_eq_some_iff] at hstep
    obtain ⟨w', hw', rfl⟩ := hstep
    obtain ⟨henabled, rfl⟩ := step_some hw'
    have hrest : AtRest (s.world i) := by
      rcases h.clients i with ⟨hno, hout⟩ | hrest
      · exact absurd henabled (hno.not_enabled (w := s.world i) hout e)
      · exact hrest
    exact .client henabled hrest (handle_finishes hrest henabled (h.pending i)) rfl

theorem acceptedConn_atRest {self : Nat} {tcpClients : List Nat} {numClients : Int} (hnodup : tcpClients.Nodup)
    (hmem : self ∈ tcpClients) (hnum : numClients = tcpClients.length) :
    AtRest {acceptedConn with self, tcpClients, numClients} where
  nodup := hnodup
  listed := iff_of_true hmem rfl
  counted := hnum
  socksAlive := rfl
  socksUp := rfl
  sending := fun _ => by simp [acceptedConn]
  sendingPrefix := nofun
  socksFreed := nofun
  receiving := nofun
  waiting := nofun
  notUp := fun _ => ⟨rfl, rfl⟩
  bufFits := by simp [acceptedConn]
  allocated := rfl
  ofOpen := fun _ => ⟨rfl, rfl, rfl, rfl, rfl, nofun, nofun⟩
  ofClosed := nofun

theorem sysStep_inv {s s' : Sys} {e : SysEvent} (h : SysInv s) (hstep : sysStep s e = some s') : SysInv s' := by
  have hout := h.next_not_listed
  cases h.stepOf hstep with
  | accepted hs' =>
    have hnodup : (s.tcpClients ++ [s.next]).Nodup := by simpa using List.Nodup.concat hout h.nodup
    have hnum : s.numClients + 1 = ((s.tcpClients ++ [s.next]).length : Int) := by simp [h.counted]
    subst hs'
    refine h.put rfl hnodup hnum (fun j hj => by simp [hj]) (.inr ?_) rfl (Nat.lt_succ_self _) (Nat.le_succ _)
    exact acceptedConn_atRest hnodup (by simp) hnum
  | failed hs' =>
    subst hs'
    exact h.put rfl h.nodup h.counted (fun _ _ => .rfl) (.inl ⟨.inr rfl, hout⟩) rfl (Nat.lt_succ_self _)
      (Nat.le_succ _)
  | @client i e henabled hrest hf hs' =>
    obtain ⟨hacts, hrest'⟩ := hf
    obtain ⟨hself, hmem⟩ := hacts.others
    have hi : i < s.next := by
      by_contra hi
      have hal := hrest.allocated
      simp [Sys.world, h.fresh i (not_lt.1 hi)] at hal
    subst hs'
    exact h.put hself hrest'.nodup hrest'.counted hmem (.inr hrest') (hacts.preserve (fun _ _ => Entry.countsPending) (h.pending i)) hi le_rfl

theorem Reachable.inv {s : Sys} (h : Reachable s) : SysInv s := by
  obtain ⟨es, hrun⟩ := h
  exact Run.run_invariant SysInv (fun _ _ _ => sysStep_inv) hrun sysInv_init

/-- **The rule for one client.** What holds of a client just accepted and is preserved by
its actions holds of every client in every reachable state. -/
theorem conn_invariant {I : Conn → Prop} (hnone : I {}) (hfailed : I failedConn) (haccepted : I acceptedConn)
    (hact : ∀ w w', Act w w' → I w.toConn → I w'.toConn) {s : Sys} (h : Reachable s) (i : Nat) :
    I (s.conns i) := by
  obtain ⟨es, hrun⟩ := h
  have hboth : SysInv s ∧ ∀ i, I (s.conns i) := by
    refine Run.run_invariant (fun s => SysInv s ∧ ∀ i, I (s.conns i)) ?_ hrun ⟨sysInv_init, fun _ => hnone⟩
    intro s e s' ⟨hinv, hI⟩ hstep
    refine ⟨sysStep_inv hinv hstep, fun j => ?_⟩
    have hput : ∀ (i : Nat) (w : World), I w.toConn → I ((s.put i w).conns j) := fun i w hw => by
      simp only [Sys.put]
      split
      · exact hw
      · exact hI j
    cases hinv.stepOf hstep with
    | accepted hs' => exact hs' ▸ hput _ _ haccepted
    | failed hs' => exact hs' ▸ hput _ _ hfailed
    | client henabled hrest hf hs' =>
      rw [hs']
      refine hput _ _ ?_
      have hacts := hf.1
      generalize handle _ _ = w' at hacts
      induction hacts with
      | refl => exact hI _
      | tail _ ha ih => exact hact _ _ ha ih
  exact hboth.2 i

/-- The same, for properties of the trace that are preserved entry by entry. -/
theorem conn_invariant_of_entries {I : Conn → Prop} (hnone : I {}) (hfailed : I failedConn)
    (haccepted : I acceptedConn) (hentry : ∀ c c', Entry c c' → I c → I c') {s : Sys} (h : Reachable s) (i : Nat) :
    I (s.conns i) :=
  conn_invariant hnone hfailed haccepted (fun _ _ ha => ha.acts.preserve hentry) h i

end TwilightLine.Tcp
