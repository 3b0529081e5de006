import Mathlib.Data.Finset.Card
import TwilightLine.UdpgwClient.UdpGwClientTables

/-! The search for a conid that is not in use.

The loop of `find_unused_conid` has no bound of its own. From any conid it comes to every other
one in `max_connections` turns (`findUnusedConid_none`), and fewer connections than that cannot
have all of them. -/
namespace TwilightLine.UdpGw

variable {o o' : Client} {fuel n : Nat}

/-- A connection that has the conid is found. -/
theorem exists_of_findConid (h : o.table.Consistent) {c : UInt16} (hf : o.findConnectionByConid c ≠ none) :
    ∃ p ∈ o.connectionsList, (o.con p).conid = c := by
  obtain ⟨p, hp⟩ := Option.ne_none_iff_exists'.mp hf
  have heq := List.find?_some hp
  rw [decide_eq_true_eq, uint16Comparator_eq_zero] at heq
  exact ⟨p, h.conid_perm.subset (List.mem_of_find?_eq_some hp), heq.symm⟩

/-- The next conid, which is the first one after the last. -/
theorem next_mod (hn : n < o.maxConnections) :
    (if n = o.maxConnections - 1 then 0 else n + 1) = (n + 1) % o.maxConnections := by
  split
  · next hlast =>
    rw [hlast, Nat.sub_add_cancel (Nat.zero_lt_of_lt hn), Nat.mod_self]
  · exact (Nat.mod_eq_of_lt (by omega)).symm

/-- Where the search has not ended, it has found a connection for each conid. -/
theorem findUnusedConid_none (h : o.findUnusedConid fuel n = none) (hn : n < o.maxConnections) :
    ∀ i < fuel, o.findConnectionByConid (UInt16.ofNat ((n + i) % o.maxConnections)) ≠ none := by
  induction fuel generalizing n with
  | zero => exact fun i hi => absurd hi (Nat.not_lt_zero i)
  | succ fuel ih =>
    rw [Client.findUnusedConid] at h
    split at h
    · cases h
    · next hused =>
      rw [next_mod hn] at h
      intro i hi
      cases i with
      | zero =>
        rw [Nat.add_zero, Nat.mod_eq_of_lt hn]
        exact hused
      | succ i =>
        have hrest := ih h (Nat.mod_lt _ (Nat.zero_lt_of_lt hn)) i (Nat.lt_of_succ_lt_succ hi)
        rwa [Nat.mod_add_mod, Nat.add_assoc, Nat.add_comm 1 i] at hrest

/-- Every conid comes within as many turns. -/
theorem exists_turn {c max : Nat} (hn : n < max) (hc : c < max) : ∃ i < max, (n + i) % max = c := by
  by_cases hle : n ≤ c
  · refine ⟨c - n, by omega, ?_⟩
    rw [Nat.add_sub_cancel' hle, Nat.mod_eq_of_lt hc]
  · refine ⟨c + max - n, by omega, ?_⟩
    rw [show n + (c + max - n) = c + max by omega, Nat.add_mod_right, Nat.mod_eq_of_lt hc]

/-- **With a connection to spare the search ends**, wherever it begins. -/
theorem exists_findUnusedConid (h : o.table.Consistent) (hroom : o.numConnections < o.maxConnections) (hn : n < o.maxConnections) :
    ∃ conid, o.findUnusedConid o.maxConnections n = some conid := by
  rw [← Option.isSome_iff_exists, ← Option.ne_none_iff_isSome]
  intro hnone
  have hall := findUnusedConid_none hnone hn
  -- each conid is that of a connection, so that there are as many connections
  have hsub : Finset.range o.maxConnections ⊆ (o.connectionsList.map fun p => (o.con p).conid.toNat).toFinset := by
    intro c hc
    obtain ⟨i, hi, hturn⟩ := exists_turn hn (Finset.mem_range.mp hc)
    obtain ⟨p, hp, hconid⟩ := exists_of_findConid h (hturn ▸ hall i hi)
    have hmax : o.maxConnections ≤ 65536 := h.max_le
    have hlt := Finset.mem_range.mp hc
    refine List.mem_toFinset.mpr (List.mem_map.mpr ⟨p, hp, ?_⟩)
    rw [hconid, UInt16.toNat_ofNat']
    omega
  have hcard := (Finset.card_le_card hsub).trans (List.toFinset_card_le _)
  have hnum : o.numConnections = o.connectionsList.length := h.num
  rw [Finset.card_range, List.length_map] at hcard
  omega

/-- The containers of a client agree in every reachable state. -/
theorem consistent_of_run {cfg : Config} {es : List Event} (h : Run.run step (init cfg) es = some o) : o.table.Consistent :=
  (Run.run_invariant (fun o => Inv o ∧ o.table.Consistent)
    (fun _ _ _ hi hs => ⟨hi.1.step hs, (tableChange_of_step hi.1 hi.2 hs).consistent hi.1 hi.2⟩) h
    ⟨inv_init cfg, table_init cfg⟩).2

/-- **In every reachable state with a connection to spare, `find_unused_conid` ends within `max_connections` turns**, with a
conid that no connection has, from the next conid as from any other. -/
theorem findUnusedConid_ends {cfg : Config} {es : List Event} (h : Run.run step (init cfg) es = some o)
    (hroom : o.numConnections < o.maxConnections) :
    o.nextConid < o.maxConnections ∧ ∀ n < o.maxConnections, ∃ conid, o.findUnusedConid o.maxConnections n = some conid ∧
      conid < o.maxConnections ∧ (UInt16.ofNat conid).toNat = conid ∧
      ∀ p ∈ o.connectionsList, (o.con p).conid ≠ UInt16.ofNat conid := by
  have htable := consistent_of_run h
  refine ⟨htable.next_lt, fun n hn => ?_⟩
  obtain ⟨conid, hfind⟩ := exists_findUnusedConid htable hroom hn
  have hlt := findUnusedConid_lt hfind hn
  have hmax : o.maxConnections ≤ 65536 := htable.max_le
  refine ⟨conid, hfind, hlt, ?_, Table.findConid_none htable (findUnusedConid_unused hfind)⟩
  rw [UInt16.toNat_ofNat']
  omega

/-- As many connections as there are conids, one of which is made. -/
theorem findUnusedConid_ends_submitted :
    ∃ o, Run.run step (init {oneConnection with maxConnections := 65536, maxConnections_pos := by decide})
        (submitRun (.ipv4 1 1) (.ipv4 9 1) 7) = some o ∧
      (o.numConnections = 1 ∧ o.maxConnections = 65536) ∧
      (o.nextConid < o.maxConnections ∧ ∀ n < o.maxConnections, ∃ conid, o.findUnusedConid o.maxConnections n = some conid ∧
        conid < o.maxConnections ∧ (UInt16.ofNat conid).toNat = conid ∧
        ∀ p ∈ o.connectionsList, (o.con p).conid ≠ UInt16.ofNat conid) := by
  have hrun : (Run.run step (init {oneConnection with maxConnections := 65536, maxConnections_pos := by decide})
      (submitRun (.ipv4 1 1) (.ipv4 9 1) 7)).any (fun o => decide (o.numConnections = 1 ∧ o.maxConnections = 65536)) = true := by
    decide +kernel
  obtain ⟨o, ho, hone⟩ := (Option.any_eq_true _ _).mp hrun
  have hone := of_decide_eq_true hone
  exact ⟨o, ho, hone, findUnusedConid_ends ho (by omega)⟩

end TwilightLine.UdpGw
