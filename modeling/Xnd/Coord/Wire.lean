import Mathlib.Tactic.NormNum
import Xnd.Coord.Msg
import Xnd.Lib.Bytes

/-!
# `struct xnd_msg` on a socket

The fields of a message as they lie in its 80 bytes: the three enumerations, the
16 bytes of the uuid, three ids, the epoch at its alignment, the rest, and four
bytes of padding.  A sender hands `sizeof(msg)` bytes to the socket whatever it
has assigned of them, and a receiver takes 80 bytes for a message whatever they
are, so a field is the bits it has and nothing is out of range.

**A message is what its 80 bytes say** (`WireMsg.ofBytes_bytes`).
-/
namespace Xnd.Coord

/-- `struct xnd_msg`, with its padding. -/
structure WireMsg where
  hdr : BitVec 32
  cmd : BitVec 32
  ret : BitVec 32
  xndUuid : BitVec 128
  xndPid : BitVec 32
  xndPpid : BitVec 32
  xndPgid : BitVec 32
  epoch : BitVec 64
  numPeers : BitVec 32
  isRootOfTree : BitVec 32
  ckptInterval : BitVec 32
  realPid : BitVec 32
  realPpid : BitVec 32
  virtPid : BitVec 32
  virtPpid : BitVec 32
  padding : BitVec 32
  deriving DecidableEq, Repr, Inhabited

/-- The value of an enumerator. -/
def XndMsghdr.code (h : XndMsghdr) : BitVec 32 := .ofNat 32 h.ctorIdx

/-- The value of an enumerator. -/
def XndCoordReturn.code (r : XndCoordReturn) : BitVec 32 := .ofNat 32 r.ctorIdx

namespace WireMsg

/-- `sizeof(struct xnd_msg)`. -/
def size : Nat := 80

/-- The widths of the fields in bytes, in their order. -/
def widths : List Nat := [4, 4, 4, 16, 4, 4, 4, 8, 4, 4, 4, 4, 4, 4, 4, 4]

def fields (m : WireMsg) : List (Nat × Nat) :=
  [(4, m.hdr.toNat), (4, m.cmd.toNat), (4, m.ret.toNat), (16, m.xndUuid.toNat),
    (4, m.xndPid.toNat), (4, m.xndPpid.toNat), (4, m.xndPgid.toNat), (8, m.epoch.toNat),
    (4, m.numPeers.toNat), (4, m.isRootOfTree.toNat), (4, m.ckptInterval.toNat),
    (4, m.realPid.toNat), (4, m.realPpid.toNat), (4, m.virtPid.toNat), (4, m.virtPpid.toNat),
    (4, m.padding.toNat)]

/-- What a sender hands to the socket. -/
def bytes (m : WireMsg) : List UInt8 := encodeFields m.fields

/-- What a receiver takes 80 bytes for. -/
def ofBytes (bs : List UInt8) : WireMsg :=
  match decodeFields widths bs with
  | [hdr, cmd, ret, xndUuid, xndPid, xndPpid, xndPgid, epoch, numPeers, isRootOfTree,
      ckptInterval, realPid, realPpid, virtPid, virtPpid, padding] =>
    ⟨.ofNat 32 hdr, .ofNat 32 cmd, .ofNat 32 ret, .ofNat 128 xndUuid, .ofNat 32 xndPid,
      .ofNat 32 xndPpid, .ofNat 32 xndPgid, .ofNat 64 epoch, .ofNat 32 numPeers,
      .ofNat 32 isRootOfTree, .ofNat 32 ckptInterval, .ofNat 32 realPid, .ofNat 32 realPpid,
      .ofNat 32 virtPid, .ofNat 32 virtPpid, .ofNat 32 padding⟩
  | _ => default

@[simp] theorem length_bytes (m : WireMsg) : m.bytes.length = size := by
  rw [bytes, length_encodeFields]
  rfl

/-- The bytes of a field hold all of its bits. -/
theorem ofNat_toNat_mod {w n : Nat} (h : 256 ^ n = 2 ^ w) (x : BitVec w) :
    BitVec.ofNat w (x.toNat % 256 ^ n) = x := by
  rw [h, Nat.mod_eq_of_lt x.isLt, BitVec.ofNat_toNat, BitVec.setWidth_eq]

/-- **A message is what its bytes say.** -/
@[simp] theorem ofBytes_bytes (m : WireMsg) : ofBytes m.bytes = m := by
  have hdecode : decodeFields widths m.bytes = m.fields.map fun f => f.2 % 256 ^ f.1 :=
    decodeFields_encodeFields m.fields
  have h4 : ∀ x : BitVec 32, BitVec.ofNat 32 (x.toNat % 256 ^ 4) = x :=
    ofNat_toNat_mod (by norm_num)
  have h8 : ∀ x : BitVec 64, BitVec.ofNat 64 (x.toNat % 256 ^ 8) = x :=
    ofNat_toNat_mod (by norm_num)
  have h16 : ∀ x : BitVec 128, BitVec.ofNat 128 (x.toNat % 256 ^ 16) = x :=
    ofNat_toNat_mod (by norm_num)
  simp only [ofBytes, hdecode, fields, List.map_cons, List.map_nil, h4, h8, h16]

end WireMsg

end Xnd.Coord
