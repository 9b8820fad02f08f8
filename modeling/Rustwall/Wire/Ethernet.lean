import Rustwall.Wire.Bytes

/-!
# Errors and Ethernet frames

The pipeline's functions return smoltcp's `Result<T>`; a call can also panic, which aborts the
whole component, or reach undefined behaviour, after which nothing the code does is defined.
`Fault` names the three ways a call ends without a value, so a Rust function of result type
`Result<T>` is a Lean function into `Except Fault T`.

The Ethernet layer is smoltcp's `EthernetFrame` over a byte buffer: `new_checked` asks for the
14-byte header, the EtherType is the big-endian word at byte 12 and the payload starts at
`ETHERNET_FRAME_PAYLOAD`.
-/

namespace Rustwall

/-- smoltcp's `Error`, with the variants the pipeline produces. -/
inductive Error
  | truncated
  | checksum
  | malformed
  | unrecognized
  | fragmented
  | dropped
  | fragmentSetFull
  | tooManyFragments
  deriving DecidableEq, Repr

/-- How a Rust call ends without a value: `Err(e)`, a panic, or undefined behaviour, where the
model stops the call. A run's results speak for the code up to its first `undefined`. -/
inductive Fault
  | err (e : Error)
  | panic
  | undefined
  deriving DecidableEq, Repr

/-- Lift a smoltcp `Result` into a call that may also panic. -/
def liftErr {α : Type} : Except Error α → Except Fault α
  | .ok a => .ok a
  | .error e => .error (.err e)

@[simp] theorem except_ok_bind {ε α β : Type} (a : α) (f : α → Except ε β) :
    (Except.ok a >>= f) = f a := rfl

@[simp] theorem except_error_bind {ε α β : Type} (e : ε) (f : α → Except ε β) :
    (Except.error e >>= f) = Except.error e := rfl

@[simp] theorem liftErr_ok {α : Type} (a : α) : liftErr (.ok a : Except Error α) = .ok a := rfl

@[simp] theorem liftErr_error {α : Type} (e : Error) :
    liftErr (.error e : Except Error α) = .error (.err e) := rfl

theorem except_bind_eq_ok {ε α β : Type} {x : Except ε α} {f : α → Except ε β} {b : β}
    (h : (x >>= f) = .ok b) : ∃ a, x = .ok a ∧ f a = .ok b := by
  cases x with
  | error e => cases h
  | ok a => exact ⟨a, rfl, h⟩

@[simp] theorem liftErr_eq_ok {α : Type} {x : Except Error α} {a : α} : liftErr x = .ok a ↔ x = .ok a := by
  cases x <;> simp [liftErr]

/-- `ETHERNET_FRAME_PAYLOAD`: the offset of the layer-3 payload in an Ethernet frame. -/
def ethernetFramePayload : Nat := 14

/-- `ETH_CRC_LEN`: the length of a trailing frame check sequence. -/
def ethCrcLen : Nat := 4

/-- smoltcp's `EthernetProtocol`. -/
inductive EthernetProtocol
  | ipv4
  | arp
  | ipv6
  | unknown (v : Nat)
  deriving DecidableEq, Repr

/-- `EthernetProtocol::from(u16)`. -/
def EthernetProtocol.ofU16 (v : Nat) : EthernetProtocol :=
  if v = 0x0800 then .ipv4
  else if v = 0x0806 then .arp
  else if v = 0x86DD then .ipv6
  else .unknown v

namespace EthernetFrame

/-- `EthernetFrame::new_checked`: the buffer must hold the 14-byte header. -/
def newChecked (b : Bytes) : Except Error Bytes :=
  if b.length < ethernetFramePayload then .error .truncated else .ok b

/-- `dst_addr()`. -/
def dstAddr (b : Bytes) : Bytes := b.take 6

/-- `ethertype()`. -/
def ethertype (b : Bytes) : EthernetProtocol := EthernetProtocol.ofU16 (readU16 b 12)

/-- `payload()`. -/
def payload (b : Bytes) : Bytes := b.drop ethernetFramePayload

theorem newChecked_eq_ok (b : Bytes) (h : ethernetFramePayload ≤ b.length) :
    newChecked b = .ok b := by
  simp [newChecked, Nat.not_lt.mpr h]

end EthernetFrame

/-- `EthernetAddress::is_broadcast`. -/
def isBroadcast (a : Bytes) : Bool := a == [0xff, 0xff, 0xff, 0xff, 0xff, 0xff]

/-- `EthernetAddress::is_multicast`: the group bit of the first octet. -/
def isMulticast (a : Bytes) : Bool := (a.getD 0 0 &&& 0x01) != 0

end Rustwall
