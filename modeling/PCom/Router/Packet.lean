import Mathlib.Logic.Function.Basic
import PCom.Lib.OnesComplement

/-! Frames as bytes in memory, the header fields `router.c` and `skel.c` read through their
structure pointers, and the checksums. -/

namespace PCom.Router

open Lib

/-- A buffer, by offset.  Only the first `MAX_LEN` bytes of one are ever used. -/
abbrev Mem := Nat → Byte

def maxLen : Nat := 1600

abbrev Mac := Vector Byte 6

def load16 (p : Mem) (off : Nat) : Word16 := le16 (p off) (p (off + 1))

def load32 (p : Mem) (off : Nat) : Word32 := le32 (p off) (p (off + 1)) (p (off + 2)) (p (off + 3))

def loadBytes (p : Mem) (off n : Nat) : List Byte := (List.range n).map fun i => p (off + i)

def loadMac (p : Mem) (off : Nat) : Mac := .ofFn fun i => p (off + i)

def storeBytes (p : Mem) (off : Nat) (bs : List Byte) : Mem := fun i =>
  if off ≤ i ∧ i < off + bs.length then bs.getD (i - off) 0 else p i

def store16 (p : Mem) (off : Nat) (w : Word16) : Mem := storeBytes p off (bytes16 w)

abbrev routerNumInterfaces : Nat := 3

instance : NeZero routerNumInterfaces := ⟨by decide⟩

structure Packet where
  len : Nat
  payload : Mem
  interface : Fin routerNumInterfaces

def Packet.bytes (m : Packet) : List Byte := loadBytes m.payload 0 m.len

section Fields

variable (p : Mem)

def etherType : Word16 := load16 p 12
def arpOp : Word16 := load16 p 20
def arpSha : Mac := loadMac p 22
def arpSpa : Word32 := load32 p 28
def arpTpa : Word32 := load32 p 38
def ipTtl : Byte := p 22
def ipProtocol : Byte := p 23
def ipCheck : Word16 := load16 p 24
def ipSaddr : Word32 := load32 p 26
def ipDaddr : Word32 := load32 p 30
def icmpType : Byte := p 34
def icmpId : Word16 := load16 p 38
def icmpSequence : Word16 := load16 p 40

def ipHeader : List Byte := loadBytes p 14 20

def etherDhost : Mac := loadMac p 0
def etherShost : Mac := loadMac p 6

def setEtherDhost (mac : Mac) : Mem := storeBytes p 0 mac.toList
def setEtherShost (mac : Mac) : Mem := storeBytes p 6 mac.toList

end Fields

/-- A zeroed word with `bs` copied to its first bytes. -/
def blockWord (bs : List Byte) : Word32 :=
  le32 (bs.getD 0 0) (bs.getD 1 0) (bs.getD 2 0) (bs.getD 3 0)

def addWord (acc : Nat) (bs : List Byte) : Nat := (acc + (ntohl (blockWord bs)).toNat) % 2 ^ 64

def addBlocks (acc : Nat) : List Byte → Nat
  | [] => acc
  | b0 :: b1 :: b2 :: b3 :: bs => addBlocks (addWord acc [b0, b1, b2, b3]) bs
  | bs => addWord acc bs

def swapBytes (acc : Nat) : Nat := ((acc &&& 0xff00) >>> 8) ||| ((acc &&& 0x00ff) <<< 8)

/-- The accumulator of `ip_checksum` once all blocks are added.  The first one is padded at the
front when the data, whose address is `offset` modulo 4, are not aligned. -/
def blockAcc (offset : Nat) (data : List Byte) : Nat :=
  let count := min (4 - offset) data.length
  if offset ≠ 0 then
    addBlocks (addWord 0xffff (List.replicate offset 0 ++ data.take count)) (data.drop count)
  else addBlocks 0xffff data

def ipChecksum (offset : Nat) (data : List Byte) : Word16 :=
  let acc := blockAcc offset data
  let acc := (acc &&& 0xffffffff) + (acc >>> 32)
  let acc := foldCarries acc
  let acc := if offset % 2 = 1 then swapBytes acc else acc
  htons (~~~ BitVec.ofNat 16 acc)

/-- The address of `main`'s IP header modulo 4: 14 bytes into a member at offset 4 of an aligned
structure. -/
def ipAlign : Nat := 2

def sumWords : List Byte → Nat
  | [] => 0
  | [b0] => b0.toNat
  | b0 :: b1 :: bs => (le16 b0 b1).toNat + sumWords bs

def icmpChecksum (buffer : List Byte) : Word16 :=
  let cksum := sumWords buffer % 2 ^ 64
  let cksum := (cksum >>> 16) + (cksum &&& 0xffff)
  let cksum := cksum + (cksum >>> 16)
  ~~~ BitVec.ofNat 16 cksum

/-- `calculate_checksum`: an `int` expression cut to 16 bits. -/
def calculateChecksum (p : Mem) : Word16 :=
  let check : Int := (ipCheck p).toNat
  let ttl : Int := (ipTtl p).toNat
  BitVec.ofInt 16 ((check - ~~~(ttl + 1) - ttl) - 1)

def decrementTtl (p : Mem) : Mem :=
  let p := Function.update p 22 (ipTtl p - 1)
  store16 p 24 (calculateChecksum p)

end PCom.Router
