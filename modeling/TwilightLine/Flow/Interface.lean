import Mathlib.Data.Option.Basic

/-! The interfaces between the parts of a flow.

A `PacketPassInterface`, a `StreamPassInterface` and a `StreamRecvInterface` work alike. The
user requests an operation; a job hands it to the provider; the provider is done with it,
now or later; and another job tells the user. In between the interface is in one of four
states. Each function here fails where the assertion on the state does. -/
namespace TwilightLine

/-- The states `…_STATE_NONE`, `…_STATE_OPERATION_PENDING`, `…_STATE_BUSY` and
`…_STATE_DONE_PENDING`. -/
inductive Transfer (Op Res : Type*) where
  | idle
  | operationPending (op : Op)
  | busy (op : Op)
  | donePending (res : Res)
  deriving DecidableEq, Repr

namespace Transfer
variable {Op Res : Type*}

/-- The user requests an operation. -/
def send (i : Transfer Op Res) (op : Op) : Option (Transfer Op Res) :=
  match i with
  | .idle => some (.operationPending op)
  | _ => none

/-- `job_operation`, up to the call of the provider's handler. -/
def jobOperation : Transfer Op Res → Option (Op × Transfer Op Res)
  | .operationPending op => some (op, .busy op)
  | _ => none

/-- The provider is done. -/
def done (i : Transfer Op Res) (res : Res) : Option (Transfer Op Res) :=
  match i with
  | .busy _ => some (.donePending res)
  | _ => none

/-- `job_done`, up to the call of the user's handler. -/
def jobDone : Transfer Op Res → Option (Res × Transfer Op Res)
  | .donePending res => some (res, .idle)
  | _ => none

variable {i i' : Transfer Op Res} {op : Op} {res : Res}

theorem jobOperation_eq (h : i.jobOperation = some (op, i')) : i = .operationPending op := by
  unfold jobOperation at h
  split at h
  · cases h
    rfl
  · cases h

theorem done_busy (h : i.done res = some i') : ∃ op, i = .busy op := by
  unfold done at h
  split at h
  · exact ⟨_, rfl⟩
  · cases h

theorem jobDone_eq (h : i.jobDone = some (res, i')) : i = .donePending res := by
  unfold jobDone at h
  split at h
  · cases h
    rfl
  · cases h

end Transfer

/-- `PacketPassInterface`, for users that cancel nothing. -/
structure PacketPassInterface where
  mtu : Nat
  state : Transfer (List UInt8) Unit
  deriving DecidableEq, Repr

namespace PacketPassInterface

/-- `PacketPassInterface_Init`. -/
def init (mtu : Nat) : PacketPassInterface := ⟨mtu, .idle⟩

/-- `PacketPassInterface_Sender_Send`. -/
def send (i : PacketPassInterface) (data : List UInt8) : Option PacketPassInterface :=
  if data.length ≤ i.mtu then (i.state.send data).map fun state => {i with state := state} else none

/-- `_PacketPassInterface_job_operation`. -/
def jobOperation (i : PacketPassInterface) : Option (List UInt8 × PacketPassInterface) :=
  i.state.jobOperation.map fun r => (r.1, {i with state := r.2})

/-- `PacketPassInterface_Done`. -/
def done (i : PacketPassInterface) : Option PacketPassInterface :=
  (i.state.done ()).map fun state => {i with state := state}

/-- `_PacketPassInterface_job_done`. -/
def jobDone (i : PacketPassInterface) : Option PacketPassInterface :=
  i.state.jobDone.map fun r => {i with state := r.2}

variable {i i' : PacketPassInterface} {data : List UInt8}

theorem send_eq (h : i.send data = some i') :
    i.state = .idle ∧ data.length ≤ i.mtu ∧ i' = ⟨i.mtu, .operationPending data⟩ := by
  obtain ⟨hlen, h⟩ := Option.ite_none_right_eq_some.mp h
  obtain ⟨state, hstate, rfl⟩ := Option.map_eq_some_iff.mp h
  unfold Transfer.send at hstate
  split at hstate
  · next hidle =>
    cases hstate
    exact ⟨hidle, hlen, rfl⟩
  · cases hstate

theorem send_of_idle (h : i.state = .idle) (hlen : data.length ≤ i.mtu) :
    i.send data = some ⟨i.mtu, .operationPending data⟩ := by
  rw [send, if_pos hlen, h]
  rfl

theorem jobOperation_eq (h : i.jobOperation = some (data, i')) :
    i.state = .operationPending data ∧ i' = ⟨i.mtu, .busy data⟩ := by
  obtain ⟨⟨op, state⟩, hstate, heq⟩ := Option.map_eq_some_iff.mp h
  cases heq
  unfold Transfer.jobOperation at hstate
  split at hstate
  · next hpending =>
    cases hstate
    exact ⟨hpending, rfl⟩
  · cases hstate

theorem done_eq (h : i.done = some i') : (∃ data, i.state = .busy data) ∧ i' = ⟨i.mtu, .donePending ()⟩ := by
  obtain ⟨state, hstate, rfl⟩ := Option.map_eq_some_iff.mp h
  unfold Transfer.done at hstate
  split at hstate
  · next hbusy =>
    cases hstate
    exact ⟨⟨_, hbusy⟩, rfl⟩
  · cases hstate

theorem jobDone_eq (h : i.jobDone = some i') : i.state = .donePending () ∧ i' = ⟨i.mtu, .idle⟩ := by
  obtain ⟨⟨res, state⟩, hstate, rfl⟩ := Option.map_eq_some_iff.mp h
  unfold Transfer.jobDone at hstate
  split at hstate
  · next hdone =>
    cases hstate
    exact ⟨hdone, rfl⟩
  · cases hstate

end PacketPassInterface

/-- `StreamPassInterface`: the result is the number of bytes that were sent. -/
abbrev StreamPassInterface := Transfer (List UInt8) Nat

namespace StreamPassInterface

/-- `StreamPassInterface_Sender_Send`. -/
def send (i : StreamPassInterface) (data : List UInt8) : Option StreamPassInterface :=
  if 0 < data.length then Transfer.send i data else none

/-- `StreamPassInterface_Done`, with the bytes that were sent. -/
def done (i : StreamPassInterface) (dataLen : Nat) : Option (List UInt8 × StreamPassInterface) :=
  match i with
  | .busy data => if 0 < dataLen ∧ dataLen ≤ data.length then some (data.take dataLen, .donePending dataLen) else none
  | _ => none

end StreamPassInterface

end TwilightLine
