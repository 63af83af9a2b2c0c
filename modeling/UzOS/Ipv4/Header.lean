import UzOS.Lib.OnesComplement
import UzOS.Lib.Buffer

/-! Byte order and the Internet checksum (core/inet/inet.c), the IPv4 header
(core/ipv4/ipv4.h) and how it is filled in (core/ipv4/ipv4.c). -/
namespace UzOS.Ipv4

open OnesComplement BitVec

def htons (x : U16) : U16 := (x <<< 8) ||| (x >>> 8)
def ntohs (x : U16) : U16 := htons x

def htonl (x : U32) : U32 :=
  (x <<< 24) ||| ((x &&& 0xFF00#32) <<< 8) ||| ((x >>> 8) &&& 0xFF00#32) ||| (x >>> 24)

/-- Add bytes to a running sum, as 16-bit words. -/
def sumWords (sum : U32) : List U8 → U32
  | a :: b :: rest => sumWords (sum + (a.setWidth 32 ||| (b.setWidth 32 <<< 8))) rest
  | [a] => sum + a.setWidth 32
  | [] => sum

/-- The loop of fold. Two rounds bring any 32-bit sum below 2^16. -/
def foldLoop : Nat → U32 → U32
  | 0, sum => sum
  | rounds + 1, sum =>
    if sum >>> 16 ≠ 0 then foldLoop rounds ((sum &&& 0xFFFF#32) + (sum >>> 16)) else sum

def fold (sum : U32) : U16 := ~~~((foldLoop 2 sum).setWidth 16)

def inetChecksum (data : List U8) : U16 := fold (sumWords 0 data)

/-! What the checksum computes. -/

theorem toNat_word (a b : U8) :
    (a.setWidth 32 ||| (b.setWidth 32 <<< 8)).toNat = a.toNat + 256 * b.toNat := by
  have parts : a.setWidth 32 ||| (b.setWidth 32 <<< 8) = a.setWidth 32 + (b.setWidth 32 <<< 8) := by
    rw [add_eq_or_of_and_eq_zero]
    ext i
    by_cases inLow : i < 8
    · simp [inLow]
    · simp [getLsbD_of_ge a i (by omega)]
  rw [parts]
  simp only [toNat_add, toNat_setWidth, toNat_shiftLeft]
  omega

variable (sum : U32) (data : List U8)

theorem sumWords_toNat : (sumWords sum data).toNat = (sum.toNat + wordSum data) % 2 ^ 32 := by
  fun_induction sumWords sum data with
  | case1 sum a b rest ih =>
    rw [ih, toNat_add, toNat_word, wordSum]
    omega
  | case2 sum a =>
    rw [toNat_add, toNat_setWidth, wordSum]
    omega
  | case3 sum =>
    rw [wordSum]
    omega

theorem carry_toNat : ((sum &&& 0xFFFF#32) + (sum >>> 16)).toNat = endAround sum.toNat := by
  have low : (sum &&& 0xFFFF#32).toNat = sum.toNat % 65536 := by
    exact Nat.and_two_pow_sub_one_eq_mod sum.toNat 16
  rw [toNat_add, toNat_ushiftRight, Nat.shiftRight_eq_div_pow, endAround]
  omega

theorem high_eq_zero : sum >>> 16 = 0 ↔ sum.toNat < 65536 := by
  rw [← toNat_inj, toNat_ushiftRight, Nat.shiftRight_eq_div_pow]
  simp

theorem foldLoop_norm (rounds : Nat) (sum : U32) :
    norm (foldLoop rounds sum).toNat = norm sum.toNat := by
  induction rounds generalizing sum with
  | zero => rfl
  | succ rounds ih =>
    rw [foldLoop]
    split
    · rw [ih, carry_toNat, norm_endAround]
    · rfl

theorem foldLoop_small : (foldLoop 2 sum).toNat < 65536 := by
  rw [foldLoop]
  split
  · have once := carry_toNat sum
    generalize (sum &&& 0xFFFF#32) + (sum >>> 16) = next at once
    rw [foldLoop]
    split
    · rw [foldLoop, carry_toNat, once]
      rename_i high
      simp only [endAround] at high ⊢
      omega
    · rename_i low
      exact (high_eq_zero next).mp (not_not.mp low)
  · rename_i low
    exact (high_eq_zero sum).mp (not_not.mp low)

theorem fold_toNat : (fold sum).toNat = 65535 - norm sum.toNat := by
  have small := foldLoop_small sum
  have value := foldLoop_norm 2 sum
  rw [norm_of_lt small] at value
  simp only [fold, toNat_not, toNat_setWidth]
  omega

theorem inetChecksum_toNat (short : data.length ≤ 65535) :
    (inetChecksum data).toNat = 65535 - norm (wordSum data) := by
  have bound := wordSum_le data
  rw [inetChecksum, fold_toNat, sumWords_toNat]
  congr 2
  simp
  omega

/-! Headers. -/

def ipv4Hlen : Nat := 20
def ipv4FlagMf : U16 := 0x2000
def ipv4OffsetMask : U16 := 0x1FFF

/-- ipv4_header_t. Fields of more than one byte are in network order, as the
processor reads them from the packet. -/
structure Header where
  versionIhl : U8
  tos : U8
  totalLength : U16
  id : U16
  frag : U16
  ttl : U8
  protocol : U8
  checksum : U16
  src : U32
  dst : U32
  deriving DecidableEq

def Header.bytes (h : Header) : List U8 :=
  [h.versionIhl, h.tos] ++ (bytes16 h.totalLength ++ (bytes16 h.id ++ (bytes16 h.frag ++
    ([h.ttl, h.protocol] ++ (bytes16 h.checksum ++ (bytes32 h.src ++ bytes32 h.dst))))))

def Header.unsealed (h : Header) : Header := { h with checksum := 0 }

/-- The last step of filling a header in: its checksum, over the header with
the field zero. -/
def Header.sealed (h : Header) : Header := { h with checksum := inetChecksum h.unsealed.bytes }

def fillHeader (total id frag : U16) (ttl protocol : U8) (src dst : U32) : Header :=
  Header.sealed
    { versionIhl := 0x45, tos := 0, totalLength := htons total, id := htons id, frag := htons frag
      ttl := ttl, protocol := protocol, checksum := 0, src := htonl src, dst := htonl dst }

/-- Header length in bytes, from the IHL field. -/
def Header.hlen (h : Header) : Nat := (h.versionIhl &&& 0x0F#8).toNat * 4

variable (h : Header)

theorem bytes_length : h.bytes.length = ipv4Hlen := rfl

/-- The checksum field is one of the words of the header. -/
theorem wordSum_bytes : wordSum h.bytes = wordSum h.unsealed.bytes + h.checksum.toNat := by
  simp only [Header.bytes, Header.unsealed, List.cons_append, List.nil_append, wordSum, wordSum_bytes16]
  simp
  omega

theorem sealed_checksum : inetChecksum h.sealed.bytes = 0 := by
  have field : h.sealed.checksum.toNat = 65535 - norm (wordSum h.unsealed.bytes) :=
    inetChecksum_toNat _ (by rw [bytes_length]; decide)
  have sum := wordSum_bytes h.sealed
  rw [show h.sealed.unsealed = h.unsealed from rfl, field] at sum
  apply eq_of_toNat_eq
  rw [inetChecksum_toNat _ (by rw [bytes_length]; decide), sum, norm_complement]
  rfl

end UzOS.Ipv4
