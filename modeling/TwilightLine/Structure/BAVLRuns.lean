import TwilightLine.Misc.Memcmp
import TwilightLine.Structure.SearchTree

/-! Runs of a `BAVL`.

Its client inserts nodes, removes nodes of the tree, looks for values, and may assign other
values to the nodes as long as those of the tree compare as before. Whatever it does, the tree
is the set of the nodes that were inserted and not removed (`SetRun`), and remains a search
tree (`implements_set`). -/
namespace TwilightLine.BAVL

variable {P V : Type*} [DecidableEq P]

inductive Op (P V : Type*) where
  | insert (node : P)
  | remove (node : P)
  | lookupExact (val : V)
  | assign (value : P → V)

inductive Result (P : Type*) where
  /-- `BAVL_Insert` returns 1. -/
  | added
  /-- It returns 0, with the reference to an equal node. -/
  | existing (c : Option P)
  | removed
  | found (c : Option P)
  | assigned

/-! ### The tree -/

def step (comparator : V → V → Int) (fuel : Nat) (o : BAVL P V) : Op P V → Option (BAVL P V × Result P)
  | .insert node => (insert comparator fuel o node).map fun (o, added, ref) => (o, if added then .added else .existing ref)
  | .remove node => (remove fuel o node).map (·, .removed)
  | .lookupExact val => (lookupExact comparator fuel o val).map fun c => (o, .found c)
  | .assign value => some ({o with value := value}, .assigned)

def run (comparator : V → V → Int) (fuel : Nat) (o : BAVL P V) : List (Op P V) → Option (BAVL P V × List (Result P))
  | [] => some (o, [])
  | op :: ops => (step comparator fuel o op).bind fun (o, result) => (run comparator fuel o ops).map fun r => (r.1, result :: r.2)

/-! ### The set -/

variable (comparator : V → V → Int)

/-- What the client may do. -/
def Permitted (S : KeyedSet P V) : Op P V → Prop
  | .remove node => node ∈ S.entries
  | .assign value => ∀ a ∈ S.entries, ∀ b ∈ S.entries, comparator (value a) (value b) = comparator (S.value a) (S.value b)
  | _ => True

/-- What an operation does with the set, and its result. -/
inductive SetStep (S : KeyedSet P V) : Op P V → Result P → KeyedSet P V → Prop
  | added {node} : (∀ c ∈ S.entries, comparator (S.value node) (S.value c) ≠ 0) →
      SetStep S (.insert node) .added {S with entries := Insert.insert node S.entries}
  | existing {node c} : c ∈ S.entries → comparator (S.value node) (S.value c) = 0 →
      SetStep S (.insert node) (.existing (some c)) S
  | removed {node} : node ∈ S.entries → SetStep S (.remove node) .removed {S with entries := S.entries.erase node}
  | found {val c} : c ∈ S.entries → comparator val (S.value c) = 0 → SetStep S (.lookupExact val) (.found (some c)) S
  | missing {val} : (∀ c ∈ S.entries, comparator val (S.value c) ≠ 0) → SetStep S (.lookupExact val) (.found none) S
  | assigned {value} : SetStep S (.assign value) .assigned {S with value := value}

inductive SetRun : KeyedSet P V → List (Op P V) → List (Result P) → KeyedSet P V → Prop
  | nil {S} : SetRun S [] [] S
  | cons {S S' S'' op ops result results} : SetStep comparator S op result S' → SetRun S' ops results S'' →
      SetRun S (op :: ops) (result :: results) S''

/-- The client does only what it may, whatever the results are. -/
def AllPermitted (S : KeyedSet P V) : List (Op P V) → Prop
  | [] => True
  | op :: ops => Permitted comparator S op ∧ ∀ result S', SetStep comparator S op result S' → AllPermitted S' ops

/-- The tree is a search tree of the set. -/
def Holds (o : BAVL P V) (S : KeyedSet P V) : Prop :=
  ∃ t, SearchTree comparator o.mem o.value t ∧ t.toList.toFinset = S.entries ∧ o.value = S.value

variable {comparator} {fuel : Nat} {o : BAVL P V} {S S' : KeyedSet P V} {op : Op P V} {ops : List (Op P V)}

theorem compareValues_eq (h : TotalComparison comparator) (v1 v2 : V) :
    compareValues comparator v1 v2 = some (comparator v1 v2) := if_pos (h.range v1 v2)

theorem holds_init (mem : TreeMemory P) (value : P → V) : Holds comparator (init mem value) ⟨∅, value⟩ := by
  refine ⟨.nil, .of_list ⟨trivial, rfl, ?_⟩ trivial .nil, rfl, rfl⟩
  simp [AvlTree.leftOf, AvlTree.rightOf, AvlTree.toList]

/-- The set grows by one entry at most. -/
theorem card_step {result : Result P} (h : SetStep comparator S op result S') : S'.entries.card ≤ S.entries.card + 1 := by
  cases h with
  | added => exact Finset.card_insert_le ..
  | removed => exact (Finset.card_erase_le).trans (Nat.le_succ _)
  | _ => exact Nat.le_succ _

/-- **An operation of the tree is the operation of the set.** -/
theorem step_refines (hcomparator : TotalComparison comparator) (h : Holds comparator o S) (hop : Permitted comparator S op)
    (hfuel : S.entries.card ≤ fuel) :
    ∃ o' result S', step comparator fuel o op = some (o', result) ∧ SetStep comparator S op result S' ∧ Holds comparator o' S' := by
  obtain ⟨t, htree, hentries, hvalue⟩ := h
  have hmem : ∀ {q}, q ∈ t.toList ↔ q ∈ S.entries := fun {q} => by rw [← hentries, List.mem_toFinset]
  rw [htree.card_eq hentries] at hfuel
  cases op with
  | insert node =>
    rcases htree.insert routines_correct hcomparator (fun q => compareValues_eq hcomparator (o.value node) (o.value q)) hfuel with
      ⟨c, hc, hequal, hrun⟩ | ⟨hnone, mem', t', ref, hrun, htree', hentries', -⟩
    · refine ⟨o, .existing (some c), S, ?_, .existing (hmem.mp hc) (hvalue ▸ hequal), t, htree, hentries, hvalue⟩
      rw [step, insert, hrun]
      rfl
    · refine ⟨{o with mem := mem'}, .added, _, ?_, .added fun c hc => hvalue ▸ hnone c (hmem.mpr hc), t', htree', ?_, hvalue⟩
      · rw [step, insert, hrun]
        rfl
      · rw [hentries', hentries]
  | remove node =>
    obtain ⟨mem', t', hrun, htree', -, hentries'⟩ := htree.remove routines_correct (hmem.mpr hop) hfuel
    refine ⟨{o with mem := mem'}, .removed, _, ?_, .removed hop, t', htree', ?_, hvalue⟩
    · rw [step, remove, hrun]
      rfl
    · rw [hentries', hentries]
  | lookupExact val =>
    rcases htree.lookupExact hcomparator (fun q => compareValues_eq hcomparator val (o.value q)) hfuel with
      ⟨c, hc, hequal, hrun⟩ | ⟨hnone, hrun⟩
    · refine ⟨o, .found (some c), S, ?_, .found (hmem.mp hc) (hvalue ▸ hequal), t, htree, hentries, hvalue⟩
      rw [step, lookupExact, hrun]
      rfl
    · refine ⟨o, .found none, S, ?_, .missing fun c hc => hvalue ▸ hnone c (hmem.mpr hc), t, htree, hentries, hvalue⟩
      rw [step, lookupExact, hrun]
      rfl
  | assign value =>
    refine ⟨_, _, _, rfl, .assigned, t, htree.rewrite fun a ha b hb => ?_, hentries, rfl⟩
    rw [hvalue]
    exact hop a (hmem.mp ha) b (hmem.mp hb)

theorem run_refines (hcomparator : TotalComparison comparator) (h : Holds comparator o S) (hops : AllPermitted comparator S ops)
    (hfuel : S.entries.card + ops.length ≤ fuel) :
    ∃ o' results S', run comparator fuel o ops = some (o', results) ∧ SetRun comparator S ops results S' ∧
      Holds comparator o' S' := by
  induction ops generalizing o S with
  | nil => exact ⟨o, [], S, rfl, .nil, h⟩
  | cons op ops ih =>
    rw [List.length_cons] at hfuel
    have hentries : S.entries.card ≤ fuel := by omega
    obtain ⟨o', result, S', hstep, hset, h'⟩ := step_refines hcomparator h hops.1 hentries
    have hcard := card_step hset
    obtain ⟨o'', results, S'', hrun, hsets, h''⟩ := ih h' (hops.2 result S' hset) (by omega)
    refine ⟨o'', result :: results, S'', ?_, .cons hset hsets, h''⟩
    rw [run, hstep, Option.bind_some]
    dsimp only
    rw [hrun]
    rfl

/-- Where there is an equal node, `BAVL_Insert` changes nothing. -/
theorem insert_unchanged {o' : BAVL P V} {node : P} {c : Option P} (h : insert comparator fuel o node = some (o', false, c)) :
    o' = o := by
  obtain ⟨⟨mem, added, ref⟩, hrun, heq⟩ := Option.map_eq_some_iff.mp h
  cases heq
  rw [Avl.insert_false hrun]

/-- **A tree implements the set of its nodes, and remains a search tree that is balanced and linked.** -/
theorem implements_set (hcomparator : TotalComparison comparator) (mem : TreeMemory P) (value : P → V)
    (hops : AllPermitted comparator ⟨∅, value⟩ ops) (hfuel : ops.length ≤ fuel) :
    ∃ o results S, run comparator fuel (init mem value) ops = some (o, results) ∧
      SetRun comparator ⟨∅, value⟩ ops results S ∧
      (∃ t, SearchTree comparator o.mem o.value t ∧ t.toList.toFinset = S.entries ∧ o.value = S.value) ∧
      ∀ node o' c, insert comparator fuel o node = some (o', false, c) → o' = o := by
  obtain ⟨o, results, S, hrun, hset, hholds⟩ := run_refines hcomparator (holds_init mem value) hops (by simpa using hfuel)
  exact ⟨o, results, S, hrun, hset, hholds, fun _ _ _ => insert_unchanged⟩

/-- For instance, where the root is removed. -/
theorem implements_set_removed :
    ∃ o results S, run bCompare 4 (init (⟨none, fun _ => none, fun _ _ => none, fun _ => 0⟩ : TreeMemory Nat) id)
        [.insert 5, .insert 3, .remove 5, .lookupExact 3] = some (o, results) ∧
      SetRun bCompare ⟨∅, id⟩ [.insert 5, .insert 3, .remove 5, .lookupExact 3] results S ∧
      (∃ t, SearchTree bCompare o.mem o.value t ∧ t.toList.toFinset = S.entries ∧ o.value = S.value) ∧
      ∀ node o' c, insert bCompare 4 o node = some (o', false, c) → o' = o := by
  refine implements_set TotalComparison.ofLinearOrder _ id ⟨trivial, fun _ _ h => ⟨trivial, fun _ _ h' => ⟨?_, ?_⟩⟩⟩ (le_refl 4)
  · cases h with
    | existing hc => exact absurd hc (Finset.notMem_empty _)
    | added =>
      cases h' with
      | existing => exact Finset.mem_insert_self ..
      | added => exact Finset.mem_insert_of_mem (Finset.mem_insert_self ..)
  · exact fun _ _ _ => ⟨trivial, fun _ _ _ => trivial⟩

end TwilightLine.BAVL
