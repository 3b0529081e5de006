import TwilightLine.Lib.Run
import Mathlib.Data.List.Nodup
import Mathlib.Logic.Function.Basic

/-! The file descriptors of `system/BReactor_badvpn.c`, where it uses epoll.

`epoll_wait` returns a batch of entries that point to file descriptor objects, and the loop
dispatches them one after the other. The handlers may remove objects that appear later in
the batch, and free and reuse their memory. So each object points back to its entry until
that is dispatched, and a removal clears the entry through this pointer. The list of the
epoll instance is part of the model; each function fails where an assertion does. -/
namespace TwilightLine.Epoll

/-- `BREACTOR_READ` and `BREACTOR_WRITE`, in `waitEvents`. -/
structure Awaited where
  read : Bool
  write : Bool
  deriving DecidableEq, Repr

/-- `EPOLLIN`, `EPOLLOUT`, `EPOLLERR` and `EPOLLHUP`. -/
structure EpollEvents where
  epollin : Bool
  epollout : Bool
  epollerr : Bool
  epollhup : Bool
  deriving DecidableEq, Repr

/-- `BREACTOR_READ`, `BREACTOR_WRITE`, `BREACTOR_ERROR` and `BREACTOR_HUP`, as reported. -/
structure Events where
  read : Bool
  write : Bool
  error : Bool
  hup : Bool
  deriving DecidableEq, Repr

structure BFileDescriptor where
  fd : Int
  active : Bool
  waitEvents : Awaited
  /-- `epoll_returned_ptr`, as an index of the results. -/
  epollReturnedPtr : Option Nat
  deriving DecidableEq, Repr

/-- `struct epoll_event`. -/
structure EpollEvent (O : Type*) where
  ptr : Option O
  events : EpollEvents
  deriving DecidableEq, Repr

/-- `BReactor`, with objects known by their addresses. -/
structure BReactor (O : Type*) where
  objects : O → BFileDescriptor
  /-- The list of the epoll instance: for a file descriptor, the object and the events. -/
  efd : Int → Option (O × Awaited)
  epollResults : Nat → EpollEvent O
  epollResultsNum : Nat
  epollResultsPos : Nat

/-- `BSYSTEM_MAX_RESULTS`. -/
def maxResults : Nat := 64

namespace BReactor
variable {O : Type*} [DecidableEq O]

def setObject (s : BReactor O) (b : O) (d : BFileDescriptor) : BReactor O :=
  {s with objects := Function.update s.objects b d}

/-- `set_epoll_fd_pointers`, for so many entries. -/
def setEpollFdPointers (s : BReactor O) : Nat → Option (BReactor O)
  | 0 => some s
  | i + 1 =>
    (s.setEpollFdPointers i).bind fun s =>
      match (s.epollResults i).ptr with
      | none => none
      | some b =>
        if (s.objects b).active = true ∧ (s.objects b).epollReturnedPtr = none then
          some (s.setObject b {s.objects b with epollReturnedPtr := some i})
        else none

/-- `wait_for_events`, where `epoll_wait` returns these entries. -/
def waitForEvents (s : BReactor O) (batch : List (O × EpollEvents)) : Option (BReactor O) :=
  if s.epollResultsPos = s.epollResultsNum ∧ batch.length ≤ maxResults then
    let results i :=
      match batch[i]? with
      | some (b, events) => ⟨some b, events⟩
      | none => s.epollResults i
    {s with
      epollResults := results
      epollResultsNum := batch.length
      epollResultsPos := 0}.setEpollFdPointers batch.length
  else none

/-- The events to report. -/
def eventsOf (bfd : BFileDescriptor) (events : EpollEvents) : Events where
  read := bfd.waitEvents.read && events.epollin
  write := bfd.waitEvents.write && events.epollout
  error := events.epollerr
  hup := events.epollhup

/-- The next entry, as `BReactor_Exec` dispatches it. -/
def dispatch (s : BReactor O) : Option (BReactor O) :=
  let pos := s.epollResultsPos
  let s := {s with epollResultsPos := pos + 1}
  match (s.epollResults pos).ptr with
  | none => some s
  | some b =>
    if (s.objects b).active = true ∧ (s.objects b).epollReturnedPtr = some pos then
      some (s.setObject b {s.objects b with epollReturnedPtr := none})
    else none

/-- The handler that is called then, and its events. -/
def dispatched (s : BReactor O) : Option (O × Events) :=
  let event := s.epollResults s.epollResultsPos
  event.ptr.bind fun b =>
    let events := eventsOf (s.objects b) event.events
    if events = ⟨false, false, false, false⟩ then none else some (b, events)

/-- `BReactor_AddFileDescriptor`. `epoll_ctl` fails where the file descriptor is in the list,
and may fail otherwise. -/
def addFileDescriptor (s : BReactor O) (b : O) (works : Bool) : Option (BReactor O) :=
  let bs := s.objects b
  if bs.active = false then
    if works = true ∧ s.efd bs.fd = none then
      some {s.setObject b {bs with active := true, waitEvents := ⟨false, false⟩, epollReturnedPtr := none} with
        efd := Function.update s.efd bs.fd (some (b, ⟨false, false⟩))}
    else some s
  else none

/-- `*bs->epoll_returned_ptr = NULL`. -/
def clearEntry (s : BReactor O) (i : Nat) : BReactor O :=
  {s with epollResults := Function.update s.epollResults i {s.epollResults i with ptr := none}}

/-- `BReactor_RemoveFileDescriptor`. -/
def removeFileDescriptor (s : BReactor O) (b : O) : Option (BReactor O) :=
  let bs := s.objects b
  if bs.active = true ∧ (s.efd bs.fd).isSome then
    let s := {s.setObject b {bs with active := false} with efd := Function.update s.efd bs.fd none}
    match bs.epollReturnedPtr with
    | none => some s
    | some i => some (s.clearEntry i)
  else none

/-- `BReactor_SetFileDescriptorEvents`. -/
def setFileDescriptorEvents (s : BReactor O) (b : O) (events : Awaited) : Option (BReactor O) :=
  let bs := s.objects b
  if bs.active = true then
    if bs.waitEvents = events then some s
    else if (s.efd bs.fd).isSome then
      some {s.setObject b {bs with waitEvents := events} with
        efd := Function.update s.efd bs.fd (some (b, events))}
    else none
  else none

/-- `BFileDescriptor_Init`, in memory with any content. -/
def initFileDescriptor (s : BReactor O) (b : O) (fd : Int) (content : BFileDescriptor) : BReactor O :=
  s.setObject b {content with fd := fd, active := false}

end BReactor

inductive Event (O : Type*) where
  | wait (batch : List (O × EpollEvents))
  | dispatch
  | add (b : O) (works : Bool)
  | remove (b : O)
  | setEvents (b : O) (events : Awaited)
  | init (b : O) (fd : Int) (content : BFileDescriptor)

namespace BReactor
variable {O : Type*} [DecidableEq O]

/-- What can happen: the loop waits when it has dispatched all entries, and gets one entry for
an object of the list at most; handlers add objects that are not active, and remove those
that are; the memory of an object that is not active may be used for anything. -/
def Allowed (s : BReactor O) : Event O → Prop
  | .wait batch => s.epollResultsPos = s.epollResultsNum ∧ batch.length ≤ maxResults ∧
      (batch.map Prod.fst).Nodup ∧ ∀ b ∈ batch.map Prod.fst, ∃ fd events, s.efd fd = some (b, events)
  | .dispatch => s.epollResultsPos < s.epollResultsNum
  | .add b _ => (s.objects b).active = false
  | .remove b => (s.objects b).active = true
  | .setEvents b _ => (s.objects b).active = true
  | .init b _ _ => (s.objects b).active = false

def step (s : BReactor O) : Event O → Option (BReactor O)
  | .wait batch => s.waitForEvents batch
  | .dispatch => s.dispatch
  | .add b works => s.addFileDescriptor b works
  | .remove b => s.removeFileDescriptor b
  | .setEvents b events => s.setFileDescriptorEvents b events
  | .init b fd content => some (s.initFileDescriptor b fd content)

/-- What one step reports. -/
def reported (s : BReactor O) : Event O → List (O × Events)
  | .dispatch => s.dispatched.toList
  | _ => []

/-- The handlers that are called, with the events. -/
def reports : BReactor O → List (Event O) → List (O × Events) := Run.trace step fun s e _ => s.reported e

/-- No wait: the rest of a batch. -/
def InBatch (es : List (Event O)) : Prop := ∀ batch, .wait batch ∉ es

/-- `BReactor_Init`: no entries, and nothing is monitored. -/
structure Initial (s : BReactor O) : Prop where
  num : s.epollResultsNum = 0
  pos : s.epollResultsPos = 0
  efd : ∀ fd, s.efd fd = none
  objects : ∀ b, (s.objects b).active = false

/-! ### The invariant -/

/-- An entry that is not dispatched yet points to its object, and this back to it. -/
structure Inv (s : BReactor O) : Prop where
  pos_le : s.epollResultsPos ≤ s.epollResultsNum
  /-- The active objects are those of the list. -/
  listed : ∀ b, (s.objects b).active = true → s.efd (s.objects b).fd = some (b, (s.objects b).waitEvents)
  active : ∀ fd b events, s.efd fd = some (b, events) → (s.objects b).active = true ∧ (s.objects b).fd = fd
  back : ∀ b i, (s.objects b).active = true → (s.objects b).epollReturnedPtr = some i →
    s.epollResultsPos ≤ i ∧ i < s.epollResultsNum ∧ (s.epollResults i).ptr = some b
  entry : ∀ b i, s.epollResultsPos ≤ i → i < s.epollResultsNum → (s.epollResults i).ptr = some b →
    (s.objects b).active = true ∧ (s.objects b).epollReturnedPtr = some i

variable {s s' : BReactor O} {b : O}

omit [DecidableEq O] in
theorem Initial.inv (h : Initial s) : Inv s where
  pos_le := Nat.le_of_eq (h.pos.trans h.num.symm)
  listed b hb := absurd ((h.objects b).symm.trans hb) nofun
  active fd _ _ hfd := absurd ((h.efd fd).symm.trans hfd) nofun
  back b _ hb := absurd ((h.objects b).symm.trans hb) nofun
  entry _ i _ hi := by
    rw [h.num] at hi
    exact absurd hi (Nat.not_lt_zero i)

@[simp] theorem setObject_self (s : BReactor O) (b : O) (d : BFileDescriptor) : (s.setObject b d).objects b = d :=
  Function.update_self ..

@[simp] theorem setObject_of_ne {c : O} (s : BReactor O) (d : BFileDescriptor) (h : c ≠ b) :
    (s.setObject b d).objects c = s.objects c := Function.update_of_ne h ..

/-- After the first entries of a batch were pointed to. -/
structure Pointed (s : BReactor O) (n : Nat) (s' : BReactor O) : Prop where
  objects : ∀ c, s'.objects c = {s.objects c with epollReturnedPtr := (s'.objects c).epollReturnedPtr}
  pointed : ∀ c i, (s'.objects c).epollReturnedPtr = some i → (s.objects c).active = true →
    i < n ∧ (s.epollResults i).ptr = some c
  entries : ∀ c i, i < n → (s.epollResults i).ptr = some c → (s'.objects c).epollReturnedPtr = some i
  efd : s'.efd = s.efd
  results : s'.epollResults = s.epollResults
  num : s'.epollResultsNum = s.epollResultsNum
  pos : s'.epollResultsPos = s.epollResultsPos

/-- With distinct active objects in the entries, and none pointing to an entry before. -/
theorem setEpollFdPointers_eq (n : Nat) (hsome : ∀ i < n, ∃ c, (s.epollResults i).ptr = some c ∧ (s.objects c).active = true)
    (hdistinct : ∀ i < n, ∀ j < n, (s.epollResults i).ptr = (s.epollResults j).ptr → i = j)
    (hnull : ∀ c, (s.objects c).active = true → (s.objects c).epollReturnedPtr = none) :
    ∃ s', s.setEpollFdPointers n = some s' ∧ Pointed s n s' := by
  induction n with
  | zero =>
    refine ⟨s, rfl, fun _ => rfl, fun c i hptr hactive => ?_, fun c i hi => absurd hi (Nat.not_lt_zero i), rfl, rfl, rfl, rfl⟩
    exact absurd ((hnull c hactive).symm.trans hptr) nofun
  | succ n ih =>
    obtain ⟨s₁, h₁, hp⟩ := ih (fun i hi => hsome i (by omega)) (fun i hi j hj => hdistinct i (by omega) j (by omega))
    obtain ⟨b, hb, hactive⟩ := hsome n (Nat.lt_succ_self n)
    have hfree : (s₁.objects b).epollReturnedPtr = none := by
      cases hptr : (s₁.objects b).epollReturnedPtr with
      | none => rfl
      | some i =>
        obtain ⟨hi, hentry⟩ := hp.pointed b i hptr hactive
        have := hdistinct i (by omega) n (by omega) (hentry.trans hb.symm)
        omega
    have hactive₁ : (s₁.objects b).active = true := by
      rw [hp.objects b]
      exact hactive
    refine ⟨s₁.setObject b {s₁.objects b with epollReturnedPtr := some n}, ?_, ?_, ?_, ?_, hp.efd, hp.results, hp.num, hp.pos⟩
    · rw [setEpollFdPointers, h₁, Option.bind_some, hp.results, hb]
      exact if_pos ⟨hactive₁, hfree⟩
    · intro c
      by_cases hc : c = b
      · rw [hc, setObject_self, hp.objects b]
      · rw [setObject_of_ne _ _ hc]
        exact hp.objects c
    · intro c i hptr hactive
      by_cases hc : c = b
      · rw [hc, setObject_self] at hptr
        obtain rfl := Option.some.inj hptr
        exact ⟨Nat.lt_succ_self n, hc ▸ hb⟩
      · rw [setObject_of_ne _ _ hc] at hptr
        obtain ⟨hi, hentry⟩ := hp.pointed c i hptr hactive
        exact ⟨by omega, hentry⟩
    · intro c i hi hentry
      by_cases hin : i = n
      · rw [hin, hb] at hentry
        obtain rfl := Option.some.inj hentry
        rw [setObject_self, hin]
      · have hptr := hp.entries c i (by omega) hentry
        by_cases hc : c = b
        · rw [hc, hfree] at hptr
          cases hptr
        · rw [setObject_of_ne _ _ hc]
          exact hptr

/-! ### Steps -/

theorem Inv.wait (h : Inv s) {batch : List (O × EpollEvents)} (hallowed : s.Allowed (.wait batch)) :
    ∃ s', s.step (.wait batch) = some s' ∧ Inv s' := by
  obtain ⟨hpos, hlen, hnodup, hlisted⟩ := hallowed
  let results : Nat → EpollEvent O := fun i =>
    match batch[i]? with
    | some (b, events) => ⟨some b, events⟩
    | none => s.epollResults i
  let s₀ : BReactor O := {s with epollResults := results, epollResultsNum := batch.length, epollResultsPos := 0}
  have hentry : ∀ i < batch.length, (results i).ptr = (batch.map Prod.fst)[i]? := by
    intro i hi
    show (match batch[i]? with | some (b, events) => (⟨some b, events⟩ : EpollEvent O) | none => s.epollResults i).ptr = _
    rw [List.getElem?_map, List.getElem?_eq_getElem hi]
    rfl
  have hlist : ∀ c i, i < batch.length → (results i).ptr = some c → (s.objects c).active = true := by
    intro c i hi hc
    rw [hentry i hi] at hc
    obtain ⟨fd, events, hfd⟩ := hlisted c (List.mem_of_getElem? hc)
    exact (h.active fd c events hfd).1
  -- all entries of the batch before were dispatched
  have hnull : ∀ c, (s.objects c).active = true → (s.objects c).epollReturnedPtr = none := by
    intro c hc
    cases hptr : (s.objects c).epollReturnedPtr with
    | none => rfl
    | some i =>
      obtain ⟨hle, hlt, -⟩ := h.back c i hc hptr
      omega
  obtain ⟨s', hs', hp⟩ := setEpollFdPointers_eq (s := s₀) batch.length
    (by
      intro i hi
      have hsome : (results i).ptr = some (batch[i].1) := by
        rw [hentry i hi, List.getElem?_map, List.getElem?_eq_getElem hi]
        rfl
      exact ⟨_, hsome, hlist _ i hi hsome⟩)
    (by
      intro i hi j hj heq
      have heq : (results i).ptr = (results j).ptr := heq
      rw [hentry i hi, hentry j hj] at heq
      exact (List.getElem?_inj (by rw [List.length_map]; exact hi) hnodup).mp heq)
    hnull
  refine ⟨s', (if_pos ⟨hpos, hlen⟩).trans hs', ?_⟩
  have hactive : ∀ c, (s'.objects c).active = (s.objects c).active := fun c => by rw [hp.objects c]
  have hfd : ∀ c, (s'.objects c).fd = (s.objects c).fd := fun c => by rw [hp.objects c]
  have hwait : ∀ c, (s'.objects c).waitEvents = (s.objects c).waitEvents := fun c => by rw [hp.objects c]
  refine ⟨?_, ?_, ?_, ?_, ?_⟩
  · rw [hp.pos]
    exact Nat.zero_le _
  · intro c hc
    rw [hactive] at hc
    rw [hp.efd, hfd, hwait]
    exact h.listed c hc
  · intro fd c events hc
    rw [hp.efd] at hc
    rw [hactive, hfd]
    exact h.active fd c events hc
  · intro c i hc hptr
    rw [hactive] at hc
    obtain ⟨hi, hres⟩ := hp.pointed c i hptr hc
    rw [hp.pos, hp.num, hp.results]
    exact ⟨Nat.zero_le i, hi, hres⟩
  · intro c i _ hi hres
    rw [hp.num] at hi
    rw [hp.results] at hres
    have hptr := hp.entries c i hi hres
    exact ⟨(hactive c).trans (hlist c i hi hres), hptr⟩

theorem Inv.dispatch (h : Inv s) (hallowed : s.Allowed .dispatch) : ∃ s', s.step .dispatch = some s' ∧ Inv s' := by
  have hpos : s.epollResultsPos < s.epollResultsNum := hallowed
  cases hentry : (s.epollResults s.epollResultsPos).ptr with
  | none =>
    refine ⟨{s with epollResultsPos := s.epollResultsPos + 1}, ?_, hpos, h.listed, h.active, ?_, ?_⟩
    · simp only [step, BReactor.dispatch, hentry]
    · intro c i hc hptr
      obtain ⟨hle, hlt, hres⟩ := h.back c i hc hptr
      refine ⟨?_, hlt, hres⟩
      by_contra hnext
      obtain rfl : i = s.epollResultsPos := by
        dsimp only at hnext
        omega
      exact absurd (hentry.symm.trans hres) nofun
    · intro c i hle hi hres
      exact h.entry c i (Nat.le_of_succ_le hle) hi hres
  | some b =>
    obtain ⟨hactive, hptr⟩ := h.entry b s.epollResultsPos (Nat.le_refl _) hpos hentry
    refine ⟨({s with epollResultsPos := s.epollResultsPos + 1} : BReactor O).setObject b
      {s.objects b with epollReturnedPtr := none}, ?_, hpos, ?_, ?_, ?_, ?_⟩
    · simp only [step, BReactor.dispatch, hentry]
      exact if_pos ⟨hactive, hptr⟩
    · intro c hc
      by_cases hcb : c = b
      · subst hcb
        rw [setObject_self]
        exact h.listed c hactive
      · rw [setObject_of_ne _ _ hcb] at hc ⊢
        exact h.listed c hc
    · intro fd c events hc
      obtain ⟨hca, hcf⟩ := h.active fd c events hc
      by_cases hcb : c = b
      · subst hcb
        rw [setObject_self]
        exact ⟨hca, hcf⟩
      · rw [setObject_of_ne _ _ hcb]
        exact ⟨hca, hcf⟩
    · intro c i hc hci
      by_cases hcb : c = b
      · subst hcb
        rw [setObject_self] at hci
        cases hci
      · rw [setObject_of_ne _ _ hcb] at hc hci
        obtain ⟨hle, hlt, hres⟩ := h.back c i hc hci
        refine ⟨?_, hlt, hres⟩
        by_contra hnext
        obtain rfl : i = s.epollResultsPos := by
          have hnext : ¬s.epollResultsPos + 1 ≤ i := hnext
          omega
        exact hcb (Option.some.inj (hres.symm.trans hentry))
    · intro c i hle hi hres
      obtain ⟨hca, hci⟩ := h.entry c i (Nat.le_of_succ_le hle) hi hres
      have hcb : c ≠ b := by
        rintro rfl
        have heq : s.epollResultsPos = i := Option.some.inj (hptr.symm.trans hci)
        have hle : s.epollResultsPos + 1 ≤ i := hle
        omega
      rw [setObject_of_ne _ _ hcb]
      exact ⟨hca, hci⟩

/-- An object that is not active may change: nothing points to it. -/
theorem Inv.setInactive (h : Inv s) (hb : (s.objects b).active = false) {d : BFileDescriptor} (hd : d.active = false) :
    Inv (s.setObject b d) := by
  have hne : ∀ {c}, (s.objects c).active = true → c ≠ b := by
    rintro c hc rfl
    exact absurd (hc.symm.trans hb) nofun
  have hkept : ∀ {c}, ((s.setObject b d).objects c).active = true → c ≠ b := by
    rintro c hc rfl
    rw [setObject_self] at hc
    exact absurd (hc.symm.trans hd) nofun
  refine ⟨h.pos_le, ?_, ?_, ?_, ?_⟩
  · intro c hc
    have hcb := hkept hc
    rw [setObject_of_ne _ _ hcb] at hc ⊢
    exact h.listed c hc
  · intro fd c events hc
    obtain ⟨hca, hcf⟩ := h.active fd c events hc
    rw [setObject_of_ne _ _ (hne hca)]
    exact ⟨hca, hcf⟩
  · intro c i hc hci
    have hcb := hkept hc
    rw [setObject_of_ne _ _ hcb] at hc hci
    exact h.back c i hc hci
  · intro c i hle hi hres
    obtain ⟨hca, hci⟩ := h.entry c i hle hi hres
    rw [setObject_of_ne _ _ (hne hca)]
    exact ⟨hca, hci⟩

theorem Inv.add (h : Inv s) {works : Bool} (hallowed : s.Allowed (.add b works)) :
    ∃ s', s.step (.add b works) = some s' ∧ Inv s' := by
  have hb : (s.objects b).active = false := hallowed
  by_cases hworks : works = true ∧ s.efd (s.objects b).fd = none
  · refine ⟨_, (if_pos hb).trans (if_pos hworks), ?_⟩
    have hne : ∀ {c}, (s.objects c).active = true → c ≠ b := by
      rintro c hc rfl
      exact absurd (hc.symm.trans hb) nofun
    -- no other object has its file descriptor in the list
    have hfd : ∀ {c}, (s.objects c).active = true → (s.objects c).fd ≠ (s.objects b).fd := by
      intro c hc heq
      have hlisted := h.listed c hc
      rw [heq, hworks.2] at hlisted
      cases hlisted
    refine ⟨h.pos_le, ?_, ?_, ?_, ?_⟩
    · intro c hc
      by_cases hcb : c = b
      · subst hcb
        dsimp only
        rw [setObject_self]
        exact Function.update_self ..
      · have hc : ((s.setObject b _).objects c).active = true := hc
        dsimp only
        rw [setObject_of_ne _ _ hcb] at hc ⊢
        rw [Function.update_of_ne (hfd hc)]
        exact h.listed c hc
    · intro fd c events hc
      have hc : Function.update s.efd (s.objects b).fd (some (b, _)) fd = some (c, events) := hc
      dsimp only
      by_cases hfdb : fd = (s.objects b).fd
      · rw [hfdb, Function.update_self] at hc
        cases hc
        rw [setObject_self]
        exact ⟨rfl, hfdb.symm⟩
      · rw [Function.update_of_ne hfdb] at hc
        obtain ⟨hca, hcf⟩ := h.active fd c events hc
        rw [setObject_of_ne _ _ (hne hca)]
        exact ⟨hca, hcf⟩
    · intro c i hc hci
      by_cases hcb : c = b
      · subst hcb
        have hci : ((s.setObject c _).objects c).epollReturnedPtr = some i := hci
        rw [setObject_self] at hci
        cases hci
      · have hc : ((s.setObject b _).objects c).active = true := hc
        have hci : ((s.setObject b _).objects c).epollReturnedPtr = some i := hci
        rw [setObject_of_ne _ _ hcb] at hc hci
        exact h.back c i hc hci
    · intro c i hle hi hres
      obtain ⟨hca, hci⟩ := h.entry c i hle hi hres
      dsimp only
      rw [setObject_of_ne _ _ (hne hca)]
      exact ⟨hca, hci⟩
  · exact ⟨s, (if_pos hb).trans (if_neg hworks), h⟩

/-- The object is not active any more, and its file descriptor is off the list. -/
def delist (s : BReactor O) (b : O) : BReactor O :=
  {s.setObject b {s.objects b with active := false} with efd := Function.update s.efd (s.objects b).fd none}

theorem delist_of_ne {c : O} (s : BReactor O) (h : c ≠ b) : (s.delist b).objects c = s.objects c := setObject_of_ne _ _ h

theorem ne_of_delist {c : O} (h : ((s.delist b).objects c).active = true) : c ≠ b := by
  rintro rfl
  have h : ((s.setObject c _).objects c).active = true := h
  rw [setObject_self] at h
  cases h

/-- The others are those of the list still. -/
theorem Inv.delist_listed (h : Inv s) (hb : (s.objects b).active = true) {c : O} (hc : ((s.delist b).objects c).active = true) :
    (s.delist b).efd ((s.delist b).objects c).fd = some (c, ((s.delist b).objects c).waitEvents) := by
  have hcb := ne_of_delist hc
  rw [delist_of_ne s hcb] at hc ⊢
  have hfd : (s.objects c).fd ≠ (s.objects b).fd := by
    intro heq
    have hother := h.listed c hc
    rw [heq, h.listed b hb] at hother
    exact hcb (congrArg Prod.fst (Option.some.inj hother)).symm
  exact (Function.update_of_ne hfd _ _).trans (h.listed c hc)

theorem Inv.delist_active (h : Inv s) {fd : Int} {c : O} {events : Awaited} (hc : (s.delist b).efd fd = some (c, events)) :
    ((s.delist b).objects c).active = true ∧ ((s.delist b).objects c).fd = fd := by
  have hc : Function.update s.efd (s.objects b).fd none fd = some (c, events) := hc
  have hfdb : fd ≠ (s.objects b).fd := by
    rintro rfl
    rw [Function.update_self] at hc
    cases hc
  rw [Function.update_of_ne hfdb] at hc
  obtain ⟨hca, hcf⟩ := h.active fd c events hc
  have hcb : c ≠ b := by
    rintro rfl
    exact hfdb hcf.symm
  rw [delist_of_ne s hcb]
  exact ⟨hca, hcf⟩

/-- The removed object leaves no entry behind. -/
theorem Inv.remove (h : Inv s) (hallowed : s.Allowed (.remove b)) : ∃ s', s.step (.remove b) = some s' ∧ Inv s' := by
  have hb : (s.objects b).active = true := hallowed
  have hguard : (s.objects b).active = true ∧ (s.efd (s.objects b).fd).isSome := ⟨hb, by rw [h.listed b hb]; rfl⟩
  cases hptr : (s.objects b).epollReturnedPtr with
  | none =>
    refine ⟨s.delist b, ?_, h.pos_le, fun _ => h.delist_listed hb, fun _ _ _ => h.delist_active, ?_, ?_⟩
    · show s.removeFileDescriptor b = some (s.delist b)
      rw [removeFileDescriptor, if_pos hguard]
      split
      · rfl
      · next i hi => exact absurd (hptr.symm.trans hi) nofun
    · intro c i hc hci
      have hcb := ne_of_delist hc
      rw [delist_of_ne s hcb] at hc hci
      exact h.back c i hc hci
    · intro c i hle hi hres
      obtain ⟨hca, hci⟩ := h.entry c i hle hi hres
      have hcb : c ≠ b := by
        rintro rfl
        exact absurd (hptr.symm.trans hci) nofun
      rw [delist_of_ne s hcb]
      exact ⟨hca, hci⟩
  | some j =>
    obtain ⟨-, -, hentry⟩ := h.back b j hb hptr
    refine ⟨(s.delist b).clearEntry j, ?_, h.pos_le, fun _ => h.delist_listed hb, fun _ _ _ => h.delist_active, ?_, ?_⟩
    · show s.removeFileDescriptor b = some ((s.delist b).clearEntry j)
      rw [removeFileDescriptor, if_pos hguard]
      split
      · next hnone => exact absurd (hptr.symm.trans hnone) nofun
      · next i hi =>
        obtain rfl := Option.some.inj (hptr.symm.trans hi)
        rfl
    · intro c i hc hci
      have hc : ((s.delist b).objects c).active = true := hc
      have hci : ((s.delist b).objects c).epollReturnedPtr = some i := hci
      have hcb := ne_of_delist hc
      rw [delist_of_ne s hcb] at hc hci
      obtain ⟨hle, hi, hres⟩ := h.back c i hc hci
      have hij : i ≠ j := by
        rintro rfl
        exact hcb (Option.some.inj (hres.symm.trans hentry))
      refine ⟨hle, hi, ?_⟩
      show (Function.update s.epollResults j _ i).ptr = some c
      rw [Function.update_of_ne hij]
      exact hres
    · intro c i hle hi hres
      have hres : (Function.update s.epollResults j {s.epollResults j with ptr := none} i).ptr = some c := hres
      have hij : i ≠ j := by
        rintro rfl
        rw [Function.update_self] at hres
        cases hres
      rw [Function.update_of_ne hij] at hres
      obtain ⟨hca, hci⟩ := h.entry c i hle hi hres
      have hcb : c ≠ b := by
        rintro rfl
        exact hij (Option.some.inj (hci.symm.trans hptr))
      show ((s.delist b).objects c).active = true ∧ ((s.delist b).objects c).epollReturnedPtr = some i
      rw [delist_of_ne s hcb]
      exact ⟨hca, hci⟩

theorem Inv.setEvents (h : Inv s) {events : Awaited} (hallowed : s.Allowed (.setEvents b events)) :
    ∃ s', s.step (.setEvents b events) = some s' ∧ Inv s' := by
  have hb : (s.objects b).active = true := hallowed
  have hlisted := h.listed b hb
  by_cases hsame : (s.objects b).waitEvents = events
  · exact ⟨s, (if_pos hb).trans (if_pos hsame), h⟩
  · refine ⟨_, (if_pos hb).trans ((if_neg hsame).trans (if_pos (by rw [hlisted]; rfl))), h.pos_le, ?_, ?_, ?_, ?_⟩
    · intro c hc
      by_cases hcb : c = b
      · subst hcb
        dsimp only
        rw [setObject_self]
        exact Function.update_self ..
      · have hc : ((s.setObject b _).objects c).active = true := hc
        dsimp only
        rw [setObject_of_ne _ _ hcb] at hc ⊢
        rw [Function.update_of_ne, h.listed c hc]
        intro heq
        have hother := h.listed c hc
        rw [heq, hlisted] at hother
        exact hcb (congrArg Prod.fst (Option.some.inj hother)).symm
    · intro fd c others hc
      have hc : Function.update s.efd (s.objects b).fd (some (b, events)) fd = some (c, others) := hc
      dsimp only
      by_cases hcb : c = b
      · subst hcb
        rw [setObject_self]
        refine ⟨hb, ?_⟩
        by_contra hfd
        rw [Function.update_of_ne fun heq => hfd heq.symm] at hc
        exact hfd (h.active fd c others hc).2
      · rw [setObject_of_ne _ _ hcb]
        have hfd : fd ≠ (s.objects b).fd := by
          rintro rfl
          rw [Function.update_self] at hc
          exact hcb (congrArg Prod.fst (Option.some.inj hc)).symm
        rw [Function.update_of_ne hfd] at hc
        exact h.active fd c others hc
    · intro c i hc hci
      by_cases hcb : c = b
      · subst hcb
        have hci : ((s.setObject c _).objects c).epollReturnedPtr = some i := hci
        rw [setObject_self] at hci
        exact h.back c i hb hci
      · have hc : ((s.setObject b _).objects c).active = true := hc
        have hci : ((s.setObject b _).objects c).epollReturnedPtr = some i := hci
        rw [setObject_of_ne _ _ hcb] at hc hci
        exact h.back c i hc hci
    · intro c i hle hi hres
      obtain ⟨hca, hci⟩ := h.entry c i hle hi hres
      dsimp only
      by_cases hcb : c = b
      · subst hcb
        rw [setObject_self]
        exact ⟨hca, hci⟩
      · rw [setObject_of_ne _ _ hcb]
        exact ⟨hca, hci⟩

/-- **Nothing that is allowed fails, and the pointers stay right.** -/
theorem Inv.step (h : Inv s) {e : Event O} (hallowed : s.Allowed e) : ∃ s', s.step e = some s' ∧ Inv s' := by
  cases e with
  | wait batch => exact h.wait hallowed
  | dispatch => exact h.dispatch hallowed
  | add b works => exact h.add hallowed
  | remove b => exact h.remove hallowed
  | setEvents b events => exact h.setEvents hallowed
  | init b fd content => exact ⟨_, rfl, h.setInactive hallowed rfl⟩

/-! ### The rest of a batch -/

/-- The objects of the entries that are not dispatched yet. -/
def pending (s : BReactor O) : List O :=
  (List.range' s.epollResultsPos (s.epollResultsNum - s.epollResultsPos)).filterMap fun i => (s.epollResults i).ptr

omit [DecidableEq O] in
theorem mem_pending : b ∈ s.pending ↔
    ∃ i, s.epollResultsPos ≤ i ∧ i < s.epollResultsNum ∧ (s.epollResults i).ptr = some b := by
  simp only [pending, List.mem_filterMap, List.mem_range'_1]
  constructor
  · rintro ⟨i, ⟨hle, hlt⟩, hres⟩
    exact ⟨i, hle, by omega, hres⟩
  · rintro ⟨i, hle, hlt, hres⟩
    exact ⟨i, ⟨hle, by omega⟩, hres⟩

omit [DecidableEq O] in
theorem Inv.pending_nodup (h : Inv s) : s.pending.Nodup := by
  refine List.pairwise_filterMap.mpr ((List.nodup_range' 1).imp_of_mem ?_)
  intro i j hi hj hne c hc c' hc' heq
  subst heq
  rw [List.mem_range'_1] at hi hj
  obtain ⟨-, hci⟩ := h.entry c i hi.1 (by omega) hc
  obtain ⟨-, hcj⟩ := h.entry c j hj.1 (by omega) hc'
  exact hne (Option.some.inj (hci.symm.trans hcj))

omit [DecidableEq O] in
/-- An object that is not active is in no entry. -/
theorem Inv.not_mem_pending (h : Inv s) (hb : (s.objects b).active = false) : b ∉ s.pending := by
  intro hmem
  obtain ⟨i, hle, hlt, hres⟩ := mem_pending.mp hmem
  exact absurd ((h.entry b i hle hlt hres).1.symm.trans hb) nofun

omit [DecidableEq O] in
/-- Entries are cleared, not written. -/
theorem pending_sublist {results : Nat → EpollEvent O}
    (h : ∀ i, (results i).ptr = none ∨ (results i).ptr = (s.epollResults i).ptr) :
    List.Sublist ({s with epollResults := results} : BReactor O).pending s.pending := by
  unfold pending
  dsimp only
  generalize List.range' s.epollResultsPos (s.epollResultsNum - s.epollResultsPos) = is
  induction is with
  | nil => exact List.Sublist.slnil
  | cons i is ih =>
    rw [List.filterMap_cons, List.filterMap_cons]
    rcases h i with hnone | hsame
    · rw [hnone]
      cases (s.epollResults i).ptr with
      | none => exact ih
      | some c => exact ih.cons c
    · rw [hsame]
      cases (s.epollResults i).ptr with
      | none => exact ih
      | some c => exact ih.cons_cons c

/-- What a step reports was pending, and is not any more. -/
theorem step_pending {e : Event O} (hallowed : s.Allowed e) (hbatch : ∀ batch, e ≠ .wait batch) (he : s.step e = some s') :
    List.Sublist ((s.reported e).map Prod.fst ++ s'.pending) s.pending := by
  cases e with
  | wait batch => exact absurd rfl (hbatch batch)
  | dispatch =>
    have hpos : s.epollResultsPos < s.epollResultsNum := hallowed
    have hnext : s'.pending = (({s with epollResultsPos := s.epollResultsPos + 1}) : BReactor O).pending := by
      have he : s.dispatch = some s' := he
      unfold BReactor.dispatch at he
      dsimp only at he
      split at he
      · cases he
        rfl
      · obtain ⟨-, he⟩ := Option.ite_none_right_eq_some.mp he
        cases he
        rfl
    have hall : s.pending = (s.epollResults s.epollResultsPos).ptr.toList ++ s'.pending := by
      rw [hnext]
      unfold pending
      dsimp only
      rw [show s.epollResultsNum - s.epollResultsPos = (s.epollResultsNum - (s.epollResultsPos + 1)) + 1 by omega,
        List.range'_succ, List.filterMap_cons]
      cases (s.epollResults s.epollResultsPos).ptr <;> rfl
    rw [hall]
    refine List.Sublist.append_right ?_ _
    show List.Sublist (s.dispatched.toList.map Prod.fst) _
    unfold dispatched
    dsimp only
    cases (s.epollResults s.epollResultsPos).ptr with
    | none => exact List.Sublist.slnil
    | some c =>
      rw [Option.bind_some]
      split
      · exact List.nil_sublist _
      · exact List.Sublist.refl _
  | add b works =>
    obtain ⟨-, he⟩ := Option.ite_none_right_eq_some.mp he
    split at he <;> cases he <;> exact List.Sublist.refl _
  | remove b =>
    obtain ⟨-, he⟩ := Option.ite_none_right_eq_some.mp he
    dsimp only at he
    split at he
    · cases he
      exact List.Sublist.refl _
    · next j _ =>
      cases he
      refine pending_sublist (s := s) fun i => ?_
      by_cases hij : i = j
      · left
        show (Function.update s.epollResults j {s.epollResults j with ptr := none} i).ptr = none
        rw [hij, Function.update_self]
      · right
        show (Function.update s.epollResults j {s.epollResults j with ptr := none} i).ptr = (s.epollResults i).ptr
        rw [Function.update_of_ne hij]
  | setEvents b events =>
    obtain ⟨-, he⟩ := Option.ite_none_right_eq_some.mp he
    split at he
    · cases he
      exact List.Sublist.refl _
    · obtain ⟨-, he⟩ := Option.ite_none_right_eq_some.mp he
      cases he
      exact List.Sublist.refl _
  | init b fd content =>
    cases he
    exact List.Sublist.refl _

/-- **What is reported in the rest of a batch was pending.** -/
theorem Inv.reports_sublist (h : Inv s) {es : List (Event O)} (hallowed : Run.AllSteps BReactor.step Allowed s es)
    (hbatch : InBatch es) : List.Sublist ((s.reports es).map Prod.fst) s.pending := by
  induction es generalizing s with
  | nil => exact List.nil_sublist _
  | cons e rest ih =>
    obtain ⟨s', he, h'⟩ := h.step hallowed.1
    have hrest := ih h' (hallowed.2 s' he) fun batch hmem => hbatch batch (List.mem_cons_of_mem _ hmem)
    have hfirst := step_pending hallowed.1 (fun batch heq => hbatch batch (heq ▸ List.mem_cons_self ..)) he
    have hreports : s.reports (e :: rest) = s.reported e ++ s'.reports rest := by
      unfold reports
      rw [Run.trace, he]
    rw [hreports, List.map_append]
    exact (hrest.append_left _).trans hfirst

omit [DecidableEq O] in
theorem filterMap_getElem? (l : List O) : (List.range' 0 l.length).filterMap (l[·]?) = l := by
  rw [← List.range_eq_range']
  induction l with
  | nil => rfl
  | cons c l ih =>
    rw [List.length_cons, List.range_succ_eq_map, List.filterMap_cons, List.filterMap_map]
    exact congrArg (c :: ·) ih

/-- Only the objects are written. -/
theorem setEpollFdPointers_frame {n : Nat} (h : s.setEpollFdPointers n = some s') :
    s'.epollResults = s.epollResults ∧ s'.epollResultsNum = s.epollResultsNum ∧ s'.epollResultsPos = s.epollResultsPos := by
  induction n generalizing s' with
  | zero =>
    cases h
    exact ⟨rfl, rfl, rfl⟩
  | succ n ih =>
    obtain ⟨s₁, h₁, h⟩ := Option.bind_eq_some_iff.mp h
    split at h
    · cases h
    · obtain ⟨-, h⟩ := Option.ite_none_right_eq_some.mp h
      cases h
      obtain ⟨hresults, hnum, hpos⟩ := ih h₁
      exact ⟨hresults, hnum, hpos⟩

/-- After a wait the entries are those of its batch. -/
theorem pending_wait {batch : List (O × EpollEvents)} (he : s.step (.wait batch) = some s') :
    s'.pending = batch.map Prod.fst := by
  obtain ⟨-, he⟩ := Option.ite_none_right_eq_some.mp he
  obtain ⟨hresults, hnum, hpos⟩ := setEpollFdPointers_frame he
  have hall := filterMap_getElem? (batch.map Prod.fst)
  rw [List.length_map] at hall
  unfold pending
  rw [hresults, hnum, hpos]
  refine Eq.trans (List.filterMap_congr fun i hi => ?_) hall
  have hlt : i < batch.length := by
    have := (List.mem_range'_1.mp hi).2
    dsimp only at this
    omega
  dsimp only
  rw [List.getElem?_map, List.getElem?_eq_getElem hlt]
  rfl

omit [DecidableEq O] in
/-- What is reported. -/
theorem Inv.dispatched (h : Inv s) (hpos : s.epollResultsPos < s.epollResultsNum) {events : Events}
    (he : s.dispatched = some (b, events)) : (s.objects b).active = true ∧
      (events.read = true → (s.objects b).waitEvents.read = true) ∧
      (events.write = true → (s.objects b).waitEvents.write = true) ∧ events ≠ ⟨false, false, false, false⟩ := by
  obtain ⟨c, hentry, he⟩ := Option.bind_eq_some_iff.mp he
  dsimp only at he
  split at he
  · cases he
  · next hsome =>
    cases he
    refine ⟨(h.entry b _ (Nat.le_refl _) hpos hentry).1, fun hread => ?_, fun hwrite => ?_, hsome⟩
    · exact (Bool.and_eq_true_iff.mp hread).1
    · exact (Bool.and_eq_true_iff.mp hwrite).1

/-- What holds in a reactor that has objects in a batch. -/
structure Safe (s : BReactor O) : Prop where
  /-- No assertion fails. -/
  can : ∀ e, s.Allowed e → (s.step e).isSome
  /-- An object points back to its own entry, which is not dispatched yet. -/
  back : ∀ b i, (s.objects b).active = true → (s.objects b).epollReturnedPtr = some i →
    s.epollResultsPos ≤ i ∧ i < s.epollResultsNum ∧ (s.epollResults i).ptr = some b
  /-- Handlers are called for active objects, with events that are awaited or errors. -/
  awaited : ∀ b events, s.Allowed .dispatch → s.dispatched = some (b, events) → (s.objects b).active = true ∧
    (events.read = true → (s.objects b).waitEvents.read = true) ∧
    (events.write = true → (s.objects b).waitEvents.write = true) ∧ events ≠ ⟨false, false, false, false⟩
  /-- An object that is not active now is not dispatched in the rest of the batch. -/
  removed : ∀ b, (s.objects b).active = false → ∀ es, Run.AllSteps step Allowed s es → InBatch es →
    b ∉ (s.reports es).map Prod.fst
  /-- Each entry is dispatched at most once. -/
  once : s.pending.Nodup ∧ ∀ es, Run.AllSteps step Allowed s es → InBatch es →
    List.Sublist ((s.reports es).map Prod.fst) s.pending
  /-- The entries after a wait are those that it returned. -/
  batch : ∀ batch s', s.step (.wait batch) = some s' → s'.pending = batch.map Prod.fst

theorem Inv.safe (h : Inv s) : Safe s where
  can e hallowed := by
    obtain ⟨s', he, -⟩ := h.step hallowed
    rw [he]
    rfl
  back := h.back
  awaited _ _ hpos he := h.dispatched hpos he
  removed _ hb _ hallowed hbatch hmem := h.not_mem_pending hb ((h.reports_sublist hallowed hbatch).subset hmem)
  once := ⟨h.pending_nodup, fun _ => h.reports_sublist⟩
  batch _ _ := pending_wait

/-- **In every run, what handlers add and remove while a batch is dispatched is safe.** -/
theorem fds_safe (s₀ : BReactor O) (h : Initial s₀) (es : List (Event O)) (hallowed : Run.AllSteps step Allowed s₀ es) :
    ∃ s, Run.run step s₀ es = some s ∧ Safe s := by
  obtain ⟨s, hrun, hinv⟩ := Run.run_progress Inv (fun _ _ hs he => hs.step he) hallowed h.inv
  exact ⟨s, hrun, hinv.safe⟩

/-- Two objects in a batch, of which the handler of the first removes the second and adds it again. -/
def readded : List (Event Nat) :=
  [.add 1 true, .add 2 true, .setEvents 1 ⟨true, false⟩,
    .wait [(1, ⟨true, true, false, false⟩), (2, ⟨true, false, false, true⟩)], .dispatch, .remove 2, .add 2 true, .dispatch]

def unused : BReactor Nat where
  objects b := ⟨b, false, ⟨true, true⟩, some b⟩
  efd _ := none
  epollResults _ := ⟨some 2, ⟨true, true, true, true⟩⟩
  epollResultsNum := 0
  epollResultsPos := 0

theorem fds_safe_readded : unused.reports readded = [(1, ⟨true, false, false, false⟩)] ∧
    ∃ s, Run.run step unused readded = some s ∧ Safe s := by
  refine ⟨by decide, fds_safe unused ⟨rfl, rfl, fun _ => rfl, fun _ => rfl⟩ readded ?_⟩
  refine ⟨rfl, fun s₁ h₁ => ?_⟩
  cases h₁
  refine ⟨rfl, fun s₂ h₂ => ?_⟩
  cases h₂
  refine ⟨rfl, fun s₃ h₃ => ?_⟩
  cases h₃
  refine ⟨⟨rfl, by decide, by decide, fun b hb => ⟨b, ?_⟩⟩, fun s₄ h₄ => ?_⟩
  · have hb : b = 1 ∨ b = 2 := by simpa using hb
    rcases hb with rfl | rfl
    · exact ⟨_, rfl⟩
    · exact ⟨_, rfl⟩
  cases h₄
  refine ⟨(by decide : 0 < 2), fun s₅ h₅ => ?_⟩
  cases h₅
  refine ⟨rfl, fun s₆ h₆ => ?_⟩
  cases h₆
  refine ⟨rfl, fun s₇ h₇ => ?_⟩
  cases h₇
  exact ⟨(by decide : 1 < 2), fun _ _ => trivial⟩

end BReactor

end TwilightLine.Epoll
