import TwilightLine.Lib.ByteMemory
import TwilightLine.Tun2socks.DeviceReads
import TwilightLine.UdpgwClient.UdpGwClientChanges

/-! From the buffer of the device into the udpgw client.

`device_read_buffer` has one buffer. It sends the packet in it to
`device_read_handler_send`, and the device may write the next packet there when the
completion of that send has run. The handler accepts the packet first, which makes the
completion pending, and submits the datagram then. A connection that is made for it keeps
a pointer into the buffer, and its first job is what follows the pointer.

`step` is one event: of the client and the jobs of other modules (`UdpGw.step`), or of the
device and its buffer. The jobs 0 and 1 of other modules are the two of
`device_read_interface`. -/
namespace TwilightLine.DeviceUdpGw

open UdpGw (Ptr Client Job Alloc Config)

/-- What the buffer is used for. -/
inductive DeviceRead where
  /-- The device may write to it. -/
  | receiving
  /-- Its packet was sent to `device_read_interface`. -/
  | sent
  /-- Its packet was accepted; the completion is still to run. -/
  | accepted
  deriving DecidableEq, Repr

/-- `job_operation` of `device_read_interface`, which runs `device_read_handler_send`. -/
def readOperation : Job := .foreign 0

/-- `job_done` of `device_read_interface`, which runs `output_handler_done`. -/
def readDone : Job := .foreign 1

structure Tun where
  device : DeviceConfig
  client : Client
  read : DeviceRead
  /-- `device_read_buffer.buf`. -/
  buf : Lib.Memory
  /-- The length of the packet in it. -/
  dataLen : Nat
  /-- `first_data`, from the start of the buffer, and `first_data_len`. -/
  firstData : Ptr → Nat × Nat

/-- `UdpGwClient_Init` gets the `udp_mtu` of the device. -/
def init (device : DeviceConfig) (cfg : Config) : Tun where
  device := {device with udpMtu := cfg.udpMtu}
  client := UdpGw.init cfg
  read := .receiving
  buf := fun _ => 0
  dataLen := 0
  firstData := fun _ => (0, 0)

/-- Where the UDP payload of a packet begins. -/
def payloadOffset (data : List UInt8) : Nat :=
  if ipVersion data = 4 then (Ipv4Header.read data).ihl.toNat * 4 + udpHeaderSize else ipv6HeaderSize + udpHeaderSize

namespace Tun

/-- The packet in the buffer. -/
def data (t : Tun) : List UInt8 := Lib.readBytes t.buf 0 t.dataLen

/-- What `first_data` of a connection points to. -/
def pointed (t : Tun) (p : Ptr) : List UInt8 := Lib.readBytes t.buf (t.firstData p).1 (t.firstData p).2

/-- The client as the first job of a connection finds it. -/
def deref (t : Tun) (p : Ptr) : Client :=
  {t.client with con := Function.update t.client.con p {t.client.con p with firstData := t.pointed p}}

/-- `device_read_handler_send`. A packet that is not taken goes to lwIP in the same
handler. -/
def deviceReadHandlerSend (t : Tun) (alloc : Alloc) : Option Tun :=
  -- accept packet
  let t := {t with client := {t.client with jobs := BPending.set readDone t.client.jobs}, read := .accepted}
  match processDeviceUdpPacket t.device t.data with
  | none => some t
  | some d =>
    if t.device.udpMode = .udpgw then
      (t.client.submitPacket d.localAddr d.remoteAddr d.isDns d.data alloc).map fun client =>
        {t with
          client := {client with running := false}
          firstData := Function.update t.firstData t.client.fresh (payloadOffset t.data, d.data.length)}
    else some t

/-- `BPendingGroup_ExecuteJob`. -/
def executeJob (t : Tun) (alloc : Alloc) : Option Tun :=
  match t.client.jobs with
  | [] => none
  | .foreign 0 :: jobs => {t with client := {t.client with jobs := jobs, running := true}}.deviceReadHandlerSend alloc
  | .foreign 1 :: jobs =>
    some {t with client := {t.client with jobs := jobs, running := true}, read := .receiving}
  | .first p :: _ => (t.deref p).executeJob.map fun client => {t with client := client}
  | _ :: _ => t.client.executeJob.map fun client => {t with client := client}

end Tun

inductive Event where
  /-- An event of the client or of another module, for which see `elsewhere`. -/
  | client (e : UdpGw.Event)
  /-- The next pending job runs; a connection may be allocated in it. -/
  | job (alloc : Alloc)
  /-- `input_handler_done` of the buffer. -/
  | received (dataLen : Nat)
  /-- The device writes to the buffer. -/
  | write (offset : Int) (bytes : List UInt8)

/-- Datagrams are submitted by `device_read_handler_send` only, and no other module sets its
two jobs. -/
def elsewhere : UdpGw.Event → Bool
  | .job => false
  | .submit .. => false
  | .set n => 1 < n
  | .unset n => 1 < n
  | _ => true

/-- An event, where it can happen. -/
def step (t : Tun) : Event → Option Tun
  | .client e =>
    if elsewhere e then (UdpGw.step t.client e).map fun client => {t with client := client} else none
  | .job alloc => if t.client.running then none else t.executeJob alloc
  | .received dataLen =>
    if t.client.running ∧ t.read = .receiving then
      some {t with
        client := {t.client with jobs := BPending.set readOperation t.client.jobs}
        read := .sent
        dataLen := dataLen}
    else none
  | .write offset bytes =>
    if t.read = .receiving then some {t with buf := Lib.writeBytes t.buf offset bytes} else none

/-- How many jobs a list of events runs. -/
def jobsRun (es : List Event) : Nat :=
  es.countP fun
    | .job _ => true
    | _ => false

/-! ### The payload in the packet -/

theorem readPacket_append (before data after : List UInt8) :
    readPacket (before ++ (data ++ after)) before.length data.length = some data := by
  rw [readPacket_eq (by simp), List.drop_left' rfl, List.take_left' rfl]

theorem parseDevice4_payload {data payload : List UInt8} {iph : Ipv4Header} {udph : UdpHeader}
    (h : parseDevice4 data = some (iph, udph, payload)) :
    readPacket data ((Ipv4Header.read data).ihl.toNat * 4 + udpHeaderSize) payload.length = some payload := by
  obtain ⟨-, h⟩ := Option.ite_none_left_eq_some.mp h
  obtain ⟨⟨iph', body⟩, hip, h⟩ := Option.bind_eq_some_iff.mp h
  obtain ⟨⟨udph', payload'⟩, hudp, h⟩ := Option.bind_eq_some_iff.mp h
  cases h
  obtain ⟨options, stray, hf, rfl⟩ := ipv4Check_eq_some_iff.mp hip
  obtain ⟨-, stray', rfl⟩ := udpCheck_eq_some_iff.mp hudp
  have hlen : (iph.bytes ++ (options ++ udph.bytes)).length = iph.ihl.toNat * 4 + udpHeaderSize := by
    rw [hf.ihl]
    simp [Nat.add_assoc]
  have hread := readPacket_append (iph.bytes ++ (options ++ udph.bytes)) payload (stray' ++ stray)
  rw [hlen] at hread
  rw [Ipv4Header.read_bytes]
  simpa using hread

theorem parseDevice6_payload {data payload : List UInt8} {iph : Ipv6Header} {udph : UdpHeader}
    (h : parseDevice6 data = some (iph, udph, payload)) :
    readPacket data (ipv6HeaderSize + udpHeaderSize) payload.length = some payload := by
  obtain ⟨hshort, h⟩ := Option.ite_none_left_eq_some.mp h
  obtain ⟨⟨iph', body⟩, hip, h⟩ := Option.bind_eq_some_iff.mp h
  obtain ⟨⟨udph', payload'⟩, hudp, h⟩ := Option.bind_eq_some_iff.mp h
  cases h
  obtain ⟨-, hip⟩ := Option.ite_none_left_eq_some.mp hip
  obtain ⟨-, hip⟩ := Option.ite_none_left_eq_some.mp hip
  obtain ⟨-, hip⟩ := Option.ite_none_left_eq_some.mp hip
  obtain ⟨-, stray, hbody⟩ := udpCheck_eq_some_iff.mp hudp
  injection hip with hip
  injection hip with _ hip
  obtain ⟨hlong, -⟩ := not_or.mp hshort
  have hsplit : data = (data.take ipv6HeaderSize ++ udph.bytes) ++ (payload ++ (stray ++
      (data.drop ipv6HeaderSize).drop (ntoh16 (Ipv6Header.read data).payloadLength).toNat)) := by
    conv_lhs =>
      rw [← List.take_append_drop ipv6HeaderSize data,
        ← List.take_append_drop (ntoh16 (Ipv6Header.read data).payloadLength).toNat (data.drop ipv6HeaderSize), hip, hbody]
    simp
  have hread := readPacket_append (data.take ipv6HeaderSize ++ udph.bytes) payload (stray ++
    (data.drop ipv6HeaderSize).drop (ntoh16 (Ipv6Header.read data).payloadLength).toNat)
  rw [← hsplit, List.length_append, List.length_take, Nat.min_eq_left (not_lt.mp hlong)] at hread
  exact hread

/-- **The datagram is what lies in the packet at the pointer that is submitted.** -/
theorem payload_at {cfg : DeviceConfig} {data : List UInt8} {d : DeviceDatagram}
    (h : processDeviceUdpPacket cfg data = some d) : readPacket data (payloadOffset data) d.data.length = some d.data := by
  obtain ⟨-, h⟩ := Option.ite_none_left_eq_some.mp h
  obtain ⟨d', h, hmtu⟩ := Option.bind_eq_some_iff.mp h
  obtain ⟨-, hmtu⟩ := Option.ite_none_left_eq_some.mp hmtu
  cases hmtu
  unfold parseDeviceUdp at h
  unfold payloadOffset
  split at h
  · next hversion =>
    obtain ⟨⟨iph, udph, payload⟩, hparse, h⟩ := Option.bind_eq_some_iff.mp h
    obtain ⟨-, h⟩ := Option.ite_none_right_eq_some.mp h
    cases h
    rw [if_pos hversion]
    exact parseDevice4_payload hparse
  · next hversion =>
    rw [if_neg hversion]
    obtain ⟨-, h⟩ := Option.ite_none_right_eq_some.mp h
    obtain ⟨-, h⟩ := Option.ite_none_left_eq_some.mp h
    obtain ⟨⟨iph, udph, payload⟩, hparse, h⟩ := Option.bind_eq_some_iff.mp h
    obtain ⟨-, h⟩ := Option.ite_none_right_eq_some.mp h
    cases h
    exact parseDevice6_payload hparse

end TwilightLine.DeviceUdpGw
