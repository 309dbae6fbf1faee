import KafkaJs.Data.Utf8
import KafkaJs.Data.Words
import KafkaJs.Producer.Partitioner
import KafkaJs.Utils.Long

/-!
# The hash of the default partitioner

`murmur2` is `partitioners/default/murmur2.js`: it computes on `Long`s, which do not overflow, and
is cut to 32 bits at its end. `Java.murmur2` is the method of `Test.java`, on 32-bit words that
wrap. `java_murmur2` relates them: after every round the word of the Java method is that of the
number of the JavaScript function.
-/

namespace KafkaJs.Producer

open KafkaJs.Data

/-! ## The JavaScript function -/

namespace Murmur2

/-- `SEED`. -/
def SEED : Int := 0x9747b28c

/-- `M`. -/
def M : Int := 0x5bd1e995

/-- `R`. -/
def R : Nat := 24

/-- `data[index] & 0xff`: outside of the buffer there is `undefined`, which counts as zero. -/
def octet (data : Bytes) (index : Int) : Int :=
  if 0 ≤ index then
    match data[index.toNat]? with
    | some byte => bitAnd byte.toNat 0xff
    | none => bitAnd 0 0xff
  else bitAnd 0 0xff

/-- The four bytes of a block as a number, the first the lowest. -/
def block (data : Bytes) (i : Nat) : Int :=
  octet data (i * 4 + 0 : Nat) + shiftLeft (octet data (i * 4 + 1 : Nat)) 8 +
    shiftLeft (octet data (i * 4 + 2 : Nat)) 16 + shiftLeft (octet data (i * 4 + 3 : Nat)) 24

/-- One iteration of the loop. -/
def mixBlock (data : Bytes) (h : Int) (i : Nat) : Int :=
  let k := Long.multiply (block data i) M
  let k := Long.xor k (unsignedShiftRight (Long.toInt k) R)
  let k := Long.multiply k M
  Long.xor (Long.multiply h M) k

/-- The `switch`, whose cases fall through. -/
def mixTail (data : Bytes) (h : Int) : Int :=
  let tail := bitAnd data.length (bitNot 3)
  let h := if data.length % 4 = 3 then Long.xor h (shiftLeft (octet data (tail + 2)) 16) else h
  let h := if 2 ≤ data.length % 4 then Long.xor h (shiftLeft (octet data (tail + 1)) 8) else h
  if 1 ≤ data.length % 4 then Long.multiply (Long.xor h (octet data tail)) M else h

/-- The last mixing of the bits. -/
def finish (h : Int) : Int :=
  let h := Long.xor h (unsignedShiftRight (Long.toInt h) 13)
  let h := Long.multiply h M
  Long.xor h (unsignedShiftRight (Long.toInt h) 15)

/-- The function on the bytes of a key. -/
def hash (data : Bytes) : Int :=
  let h := Long.xor SEED data.length
  let h := (List.range (data.length / 4)).foldl (mixBlock data) h
  Long.toInt (finish (mixTail data h))

end Murmur2

/-- A key: a buffer, or any other value, which is hashed as the text `String` makes of it. -/
inductive Key where
  | buffer (bytes : Bytes)
  | string (text : Text)
  deriving DecidableEq, Repr

/-- `data`. -/
def Key.data : Key → Bytes
  | .buffer bytes => bytes
  | .string text => text.toUtf8

/-- `default/murmur2.js`. -/
def murmur2 (key : Key) : Int := Murmur2.hash key.data

/-- `partitioners/default`. -/
def defaultPartitioner (seed : String → Int) : Partitioner (Message Key) Counters :=
  legacyPartitioner murmur2 seed

/-! ## The Java method -/

namespace Java

/-- A `byte[]`: its length is an `int`. -/
abbrev ByteArray := { bytes : Bytes // bytes.length < 2 ^ 31 }

/-- `data[index] & 0xff`, on a signed byte that is widened to an `int`; outside of the array an
exception. -/
def octet (data : ByteArray) (index : BitVec 32) : Option (BitVec 32) :=
  data.val[index.toNat]?.map fun byte => byte.toBitVec.signExtend 32 &&& 0xff#32

/-- The four bytes of a block. -/
def block (data : ByteArray) (i4 : BitVec 32) : Option (BitVec 32) := do
  let first ← octet data (i4 + 0#32)
  let second ← octet data (i4 + 1#32)
  let third ← octet data (i4 + 2#32)
  let fourth ← octet data (i4 + 3#32)
  return first + second <<< 8 + third <<< 16 + fourth <<< 24

/-- `m`. -/
def m : BitVec 32 := 0x5bd1e995

/-- One iteration of the loop. -/
def mixBlock (data : ByteArray) (h : BitVec 32) (i : Nat) : Option (BitVec 32) := do
  let k ← block data (BitVec.ofNat 32 i * 4#32)
  let k := k * m
  let k := k ^^^ k >>> 24
  let k := k * m
  return h * m ^^^ k

/-- `h ^= (data[index] & 0xff) << count`. -/
def xorOctet (data : ByteArray) (index : BitVec 32) (count : Nat) (h : BitVec 32) :
    Option (BitVec 32) := do
  return h ^^^ (← octet data index) <<< count

/-- A case of the `switch`, which the ones above it fall through to. -/
def switchCase (entered : Prop) [Decidable entered] (body : BitVec 32 → Option (BitVec 32))
    (h : BitVec 32) : Option (BitVec 32) :=
  if entered then body h else some h

/-- The `switch`. -/
def mixTail (data : ByteArray) (h : BitVec 32) : Option (BitVec 32) := do
  let length := data.val.length
  let tail := BitVec.ofNat 32 length &&& ~~~3#32
  let h ← switchCase (length % 4 = 3) (xorOctet data (tail + 2#32) 16) h
  let h ← switchCase (2 ≤ length % 4) (xorOctet data (tail + 1#32) 8) h
  switchCase (1 ≤ length % 4) (fun h => do return (h ^^^ (← octet data tail)) * m) h

/-- The last mixing of the bits. -/
def finish (h : BitVec 32) : BitVec 32 :=
  let h := h ^^^ h >>> 13
  let h := h * m
  h ^^^ h >>> 15

/-- `murmur2` of `Test.java`. -/
def murmur2 (data : ByteArray) : Option (BitVec 32) := do
  let h := 0x9747b28c#32 ^^^ BitVec.ofNat 32 data.val.length
  let h ← (List.range (data.val.length / 4)).foldlM (mixBlock data) h
  let h ← mixTail data h
  return finish h

/-- The partition that the Java client chooses for a key:
`(murmur2(key) & 0x7fffffff) % numPartitions`. -/
def partition (data : ByteArray) (numPartitions : Nat) : Option Nat :=
  (murmur2 data).map fun hash => (hash &&& 0x7fffffff#32).toNat % numPartitions

end Java

/-! ## The two agree -/

open Murmur2

/-- The mask takes the sign of a widened byte away. -/
theorem signExtend_and_mask (byte : UInt8) :
    byte.toBitVec.signExtend 32 &&& 0xff#32 = BitVec.ofInt 32 (bitAnd byte.toNat 0xff) := by
  have hmask : ∀ word : BitVec 8,
      word.signExtend 32 &&& 0xff#32 = BitVec.ofNat 32 word.toNat &&& 0xff#32 := by
    decide +kernel
  rw [ofInt_bitAnd, BitVec.ofInt_natCast]
  exact hmask byte.toBitVec

/-- The octets of both programs agree. -/
theorem java_octet (data : Java.ByteArray) {index : BitVec 32} {i : Nat}
    (hindex : index.toNat = i) (hi : i < data.val.length) :
    Java.octet data index = some (BitVec.ofInt 32 (octet data.val i)) := by
  rw [Java.octet, hindex, List.getElem?_eq_getElem hi, octet, if_pos (Int.natCast_nonneg i),
    Int.toNat_natCast, List.getElem?_eq_getElem hi, Option.map_some, signExtend_and_mask]

/-- The words of a sum and of the blocks of four bytes. -/
theorem java_block (data : Java.ByteArray) {i : Nat} (hi : i < data.val.length / 4) :
    Java.block data (BitVec.ofNat 32 i * 4#32) = some (BitVec.ofInt 32 (block data.val i)) := by
  have hlength := data.property
  have hindex (position : Nat) (hposition : position < 4) :
      (BitVec.ofNat 32 i * 4#32 + BitVec.ofNat 32 position).toNat = i * 4 + position := by
    simp only [BitVec.toNat_add, BitVec.toNat_mul, BitVec.toNat_ofNat]
    omega
  have hoctet (position : Nat) (hposition : position < 4) :
      Java.octet data (BitVec.ofNat 32 i * 4#32 + BitVec.ofNat 32 position) =
        some (BitVec.ofInt 32 (octet data.val (i * 4 + position : Nat))) :=
    java_octet data (hindex position hposition) (by omega)
  have h0 := hoctet 0 (by omega)
  have h1 := hoctet 1 (by omega)
  have h2 := hoctet 2 (by omega)
  have h3 := hoctet 3 (by omega)
  simp only [Java.block, h0, h1, h2, h3, block, BitVec.ofInt_add, ofInt_shiftLeft,
    Option.bind_eq_bind, Option.bind_some]
  rfl

/-- The low 32 bits survive the conversion to a `Long`. -/
theorem ofInt_toInt_long (value : Int) :
    BitVec.ofInt 32 (Long.toInt value) = BitVec.ofInt 32 value := by
  rw [Long.toInt, Long.asIntN, ← BitVec.toInt_ofInt, BitVec.ofInt_toInt]

/-- The constants agree. -/
theorem java_m : BitVec.ofInt 32 M = Java.m := by decide

/-- A block is mixed alike. -/
theorem java_mixBlock (data : Java.ByteArray) (h : Int) {i : Nat}
    (hi : i < data.val.length / 4) :
    Java.mixBlock data (BitVec.ofInt 32 h) i =
      some (BitVec.ofInt 32 (mixBlock data.val h i)) := by
  simp only [Java.mixBlock, java_block data hi, Option.bind_eq_bind, Option.bind_some, mixBlock,
    Long.xor, Long.multiply_eq, ofInt_xor, BitVec.ofInt_mul, ofInt_unsignedShiftRight,
    ofInt_toInt_long, java_m]
  rfl

/-- All blocks are mixed alike. -/
theorem java_foldlM (data : Java.ByteArray) (blocks : List Nat)
    (hblocks : ∀ i ∈ blocks, i < data.val.length / 4) (h : Int) :
    blocks.foldlM (Java.mixBlock data) (BitVec.ofInt 32 h) =
      some (BitVec.ofInt 32 (blocks.foldl (mixBlock data.val) h)) := by
  induction blocks generalizing h with
  | nil => rfl
  | cons i blocks ih =>
      have hi := hblocks i List.mem_cons_self
      rw [List.foldlM_cons, java_mixBlock data h hi, List.foldl_cons]
      exact ih (fun j hj => hblocks j (List.mem_cons_of_mem i hj)) _

/-- The bytes behind the last block. -/
theorem java_tail (data : Java.ByteArray) (position : Nat)
    (hposition : position < data.val.length % 4) :
    Java.octet data ((BitVec.ofNat 32 data.val.length &&& ~~~3#32) + BitVec.ofNat 32 position) =
      some (BitVec.ofInt 32
        (octet data.val (bitAnd data.val.length (bitNot 3) + position))) := by
  have hlength := data.property
  have htail : (BitVec.ofNat 32 data.val.length &&& ~~~3#32).toNat =
      4 * (data.val.length / 4) := by
    rw [toNat_and_not_three, BitVec.toNat_ofNat]
    omega
  have hindex : ((BitVec.ofNat 32 data.val.length &&& ~~~3#32) +
      BitVec.ofNat 32 position).toNat = 4 * (data.val.length / 4) + position := by
    rw [BitVec.toNat_add, htail, BitVec.toNat_ofNat]
    omega
  rw [bitAnd_bitNot_three hlength]
  exact java_octet data hindex (by omega)

/-- An octet of the tail is mixed alike. -/
theorem java_xorOctet (data : Java.ByteArray) (h : Int) (position count : Nat)
    (hposition : position < data.val.length % 4) :
    Java.xorOctet data ((BitVec.ofNat 32 data.val.length &&& ~~~3#32) +
        BitVec.ofNat 32 position) count (BitVec.ofInt 32 h) =
      some (BitVec.ofInt 32 (Long.xor h (shiftLeft
        (octet data.val (bitAnd data.val.length (bitNot 3) + position)) count))) := by
  rw [Java.xorOctet, java_tail data position hposition, Long.xor, ofInt_xor, ofInt_shiftLeft]
  rfl

/-- A case of the `switch` that does the same on both sides where it is entered. -/
theorem java_switchCase {entered : Prop} [Decidable entered]
    {body : BitVec 32 → Option (BitVec 32)} {h value : Int}
    (hbody : entered → body (BitVec.ofInt 32 h) = some (BitVec.ofInt 32 value)) :
    Java.switchCase entered body (BitVec.ofInt 32 h) =
      some (BitVec.ofInt 32 (if entered then value else h)) := by
  unfold Java.switchCase
  split
  · next hentered => exact hbody hentered
  · rfl

/-- The tail is mixed alike. -/
theorem java_mixTail (data : Java.ByteArray) (h : Int) :
    Java.mixTail data (BitVec.ofInt 32 h) = some (BitVec.ofInt 32 (mixTail data.val h)) := by
  have hthird (h : Int) := java_switchCase fun hentered : data.val.length % 4 = 3 =>
    java_xorOctet data h 2 16 (by omega)
  have hsecond (h : Int) := java_switchCase fun hentered : 2 ≤ data.val.length % 4 =>
    java_xorOctet data h 1 8 (by omega)
  have hfirst (h : Int) :
      1 ≤ data.val.length % 4 →
        (do return (BitVec.ofInt 32 h ^^^ (← Java.octet data
            (BitVec.ofNat 32 data.val.length &&& ~~~3#32))) * Java.m : Option (BitVec 32)) =
          some (BitVec.ofInt 32 (Long.multiply (Long.xor h
            (octet data.val (bitAnd data.val.length (bitNot 3)))) M)) := by
    intro hentered
    have hoctet := java_tail data 0 (by omega)
    rw [BitVec.add_zero, Nat.cast_zero, Int.add_zero] at hoctet
    rw [hoctet, Long.multiply_eq, BitVec.ofInt_mul, Long.xor, ofInt_xor, java_m]
    rfl
  show Option.bind (Java.switchCase _ _ _) _ = _
  rw [hthird, Option.bind_some]
  show Option.bind (Java.switchCase _ _ _) _ = _
  rw [hsecond, Option.bind_some]
  exact java_switchCase (hfirst _)

/-- The last steps are alike. -/
theorem java_finish (h : Int) :
    Java.finish (BitVec.ofInt 32 h) = BitVec.ofInt 32 (finish h) := by
  simp only [Java.finish, finish, Long.xor, Long.multiply_eq, ofInt_xor, BitVec.ofInt_mul,
    ofInt_unsignedShiftRight, ofInt_toInt_long, java_m]

/-- After the last round the word of the Java method is that of the number. -/
theorem java_murmur2 (data : Java.ByteArray) :
    ∃ word, Java.murmur2 data = some word ∧ word.toInt = murmur2 (.buffer data.val) := by
  have hstart : 0x9747b28c#32 ^^^ BitVec.ofNat 32 data.val.length =
      BitVec.ofInt 32 (Long.xor SEED data.val.length) := by
    rw [Long.xor, ofInt_xor, BitVec.ofInt_natCast]
    rfl
  have hloop := java_foldlM data (List.range (data.val.length / 4))
    (fun i hi => List.mem_range.mp hi) (Long.xor SEED data.val.length)
  refine ⟨_, ?_, BitVec.toInt_ofInt _⟩
  simp only [Java.murmur2, hstart, hloop, java_mixTail, java_finish, Option.bind_eq_bind,
    Option.bind_some]
  rfl

/-- The low 31 bits of a word are the positive number made of its signed value. -/
theorem toPositive_toInt (word : BitVec 32) :
    toPositive (some word.toInt) = (word &&& 0x7fffffff#32).toNat := by
  have hmask : (word &&& 0x7fffffff#32).toNat = word.toNat % 2 ^ 31 :=
    (BitVec.toNat_and word 0x7fffffff#32).trans (Nat.and_two_pow_sub_one_eq_mod word.toNat 31)
  have hlt := word.isLt
  rw [hmask, toPositive, Option.getD_some, BitVec.toInt_eq_toNat_cond]
  split <;> omega

/-- The default partitioner hashes every array as the Java method does, and chooses the partition
of the Java client, for every topic with partitions. -/
theorem defaultPartitioner_eq_java (data : Java.ByteArray) :
    (Java.murmur2 data).map BitVec.toInt = some (murmur2 (.buffer data.val)) ∧
      ∀ (seed : String → Int) (counters : Counters) (topic : String)
        (partitionMetadata : List Cluster.PartitionMetadata) (message : Message Key),
        partitionMetadata ≠ [] → message.partition = none →
        message.key = some (.buffer data.val) →
          let partition :=
            (defaultPartitioner seed counters topic partitionMetadata message).1
          (Java.partition data partitionMetadata.length).map Nat.cast = some partition ∧
            0 ≤ partition ∧ partition < partitionMetadata.length := by
  obtain ⟨word, hjava, hhash⟩ := java_murmur2 data
  refine ⟨by rw [hjava, ← hhash]; rfl, ?_⟩
  intro seed counters topic partitionMetadata message hmetadata hpartition hkey
  have hlength : 0 < partitionMetadata.length := List.length_pos_iff.mpr hmetadata
  have hchosen : (defaultPartitioner seed counters topic partitionMetadata message).1 =
      ((word &&& 0x7fffffff#32).toNat % partitionMetadata.length : Nat) := by
    simp only [defaultPartitioner, legacyPartitioner, hpartition, hkey]
    rw [← hhash, toPositive_toInt, Int.natCast_emod]
  have hlt := Nat.mod_lt (word &&& 0x7fffffff#32).toNat hlength
  simp only [hchosen]
  refine ⟨?_, by omega, by omega⟩
  rw [Java.partition, hjava]
  rfl

/-- A key of two bytes, on a topic of three partitions. -/
theorem defaultPartitioner_eq_java_key :
    let key : Java.ByteArray := ⟨[50, 49], by decide⟩
    (Java.murmur2 key).map BitVec.toInt = some (murmur2 (.buffer key.val)) ∧
      (Java.partition key 3).map Nat.cast = some (defaultPartitioner (fun _ => 0) .empty "topic"
        [⟨0, some 0⟩, ⟨1, some 0⟩, ⟨2, some 0⟩] { id := 0, key := some (.buffer key.val) }).1 :=
  ⟨(defaultPartitioner_eq_java ⟨[50, 49], by decide⟩).1,
    ((defaultPartitioner_eq_java ⟨[50, 49], by decide⟩).2 (fun _ => 0) .empty "topic"
      [⟨0, some 0⟩, ⟨1, some 0⟩, ⟨2, some 0⟩] { id := 0, key := some (.buffer [50, 49]) }
      (by decide) rfl rfl).1⟩

/-- The hash of the text `4782969` in the tests of the source. -/
example : murmur2 (.string (Text.ofString "4782969")) = -1182699775 := by decide +kernel

end KafkaJs.Producer
