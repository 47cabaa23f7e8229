import Mathlib.Algebra.Group.Nat.Defs
import LoxWebsocket.Error

/-!
# Message headers

Every Loxone message is announced by an eight-byte header frame. `parseHeader`
reads one; a frame of another length or without the magic byte is no header.
`encodeHeader` is the header a Miniserver writes, and `parseHeader` reads it
back (`parseHeader_encode`).
-/

namespace Lox

inductive MessageType
  | text
  | binaryFile
  | valueStates
  | textStates
  | daytimerStates
  | outOfService
  | keepalive
  | weatherStates
  deriving DecidableEq

def MessageType.fromU8 (v : UInt8) : Option MessageType :=
  if v = 0 then some .text
  else if v = 1 then some .binaryFile
  else if v = 2 then some .valueStates
  else if v = 3 then some .textStates
  else if v = 4 then some .daytimerStates
  else if v = 5 then some .outOfService
  else if v = 6 then some .keepalive
  else if v = 7 then some .weatherStates
  else none

/-- The identifier of a message type. -/
def MessageType.toU8 : MessageType → UInt8
  | text => 0
  | binaryFile => 1
  | valueStates => 2
  | textStates => 3
  | daytimerStates => 4
  | outOfService => 5
  | keepalive => 6
  | weatherStates => 7

/-- Little-endian bytes as a number. -/
def leNat (b : Bytes) : Nat := b.foldr (fun x acc => x.toNat + 256 * acc) 0

structure WsBinHdr where
  binType : UInt8
  identifier : UInt8
  info : UInt8
  reserved : UInt8
  len : UInt32
  deriving DecidableEq

namespace WsBinHdr

def size : Nat := 8
def magic : UInt8 := 0x03
/-- Info bit 0: the length is estimated, an exact header follows. -/
def infoEstimated : UInt8 := 0x01

def isEstimated (hdr : WsBinHdr) : Bool := hdr.info &&& infoEstimated ≠ 0

end WsBinHdr

/-- A header frame; `none` when the frame is no header. Reading eight bytes
cannot fail, so there is no error. -/
def parseHeader : Bytes → Except Error (Option WsBinHdr)
  | [binType, identifier, info, reserved, l₀, l₁, l₂, l₃] =>
    if binType ≠ WsBinHdr.magic then .ok none
    else .ok (some ⟨binType, identifier, info, reserved, UInt32.ofNat (leNat [l₀, l₁, l₂, l₃])⟩)
  | _ => .ok none

/-- The header frame of a message of `n` bytes. -/
def encodeHeader (identifier info reserved : UInt8) (n : Nat) : Bytes :=
  [WsBinHdr.magic, identifier, info, reserved, UInt8.ofNat n, UInt8.ofNat (n / 256),
    UInt8.ofNat (n / 65536), UInt8.ofNat (n / 16777216)]

theorem parseHeader_encode (identifier info reserved : UInt8) {n : Nat} (hn : n < 2 ^ 32) :
    parseHeader (encodeHeader identifier info reserved n) =
      .ok (some ⟨WsBinHdr.magic, identifier, info, reserved, UInt32.ofNat n⟩) := by
  have hl : leNat [UInt8.ofNat n, UInt8.ofNat (n / 256), UInt8.ofNat (n / 65536),
      UInt8.ofNat (n / 16777216)] = n := by
    simp only [leNat, List.foldr_cons, List.foldr_nil, UInt8.toNat_ofNat']
    omega
  rw [encodeHeader, parseHeader, if_neg (fun h => h rfl), hl]

end Lox
