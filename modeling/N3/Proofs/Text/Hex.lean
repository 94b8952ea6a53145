import N3.Bytes.HashText
import N3.Proofs.Curve.Compressed

/-!
# Hexadecimal read back

The digits of bytes are characters of ASCII, so that a text of them has them for its bytes (`toUTF8_encode`), and two
digits have one byte between them (`digit_pair`). So bytes are read back from their digits (`Hex.decode_encode`), a
hash from its text (`FixedBytes.parse_toText`), and a key from the digits of its short form, none of which can be taken
for the mark of hexadecimal (`Point.ofHex_toHex`).
-/

set_option autoImplicit false

namespace N3

/-! ## The bytes of a text -/

namespace Bytes

theorem toList_loop (bs : ByteArray) (i : Nat) (acc : List UInt8) :
    ByteArray.toList.loop bs i acc = acc.reverse ++ bs.data.toList.drop i := by
  fun_induction ByteArray.toList.loop bs i acc with
  | case1 i acc hi ih =>
    have hlength : i < bs.data.toList.length := by simpa using hi
    have hget : bs.get! i = bs.data.toList[i] := by
      rw [ByteArray.get!, Array.getElem_toList]
      exact getElem!_pos bs.data i (by simpa using hi)
    rw [ih, List.drop_eq_getElem_cons hlength, hget]
    simp
  | case2 i acc hi =>
    have hlength : bs.data.toList.length ≤ i := by simpa using hi
    rw [List.drop_eq_nil_of_le hlength, List.append_nil]

theorem toList_eq (bs : ByteArray) : bs.toList = bs.data.toList := by
  rw [ByteArray.toList, toList_loop]
  rfl

theorem toUTF8_inj {s t : String} : s.toUTF8.toList = t.toUTF8.toList ↔ s = t := by
  rw [toList_eq, toList_eq, Array.toList_inj, ← ByteArray.ext_iff, String.toUTF8_eq_toByteArray,
    String.toUTF8_eq_toByteArray, String.toByteArray_inj]

/-- A text of ASCII characters has one byte for each of them. -/
theorem toUTF8_of_ascii {cs : List Char} (h : ∀ c ∈ cs, c.toNat < 0x80) :
    (String.ofList cs).toUTF8.toList = cs.map fun c => UInt8.ofNat c.toNat := by
  have hencode : ∀ cs : List Char, (∀ c ∈ cs, c.toNat < 0x80) →
      cs.flatMap String.utf8EncodeChar = cs.map fun c => UInt8.ofNat c.toNat := by
    intro cs h
    induction cs with
    | nil => rfl
    | cons c cs ih =>
      obtain ⟨hc, hcs⟩ := List.forall_mem_cons.mp h
      have hone : String.utf8EncodeChar c = [UInt8.ofNat c.toNat] := if_pos (Nat.le_of_lt_succ hc)
      rw [List.flatMap_cons, hone, ih hcs]
      rfl
  rw [toList_eq, String.toUTF8_eq_toByteArray, String.toByteArray_ofList, List.utf8Encode,
    List.toList_data_toByteArray, hencode cs h]

end Bytes

namespace Hex

/-! ## Digits -/

/-- The two digits of a byte are in ASCII, and have the halves of the byte for their values. -/
theorem digit_pair (b : UInt8) :
    ((digit (b >>> 4)).toNat < 0x80 ∧ (digit (b &&& 0x0F)).toNat < 0x80) ∧
    value? (digit (b >>> 4)) = some (b >>> 4) ∧ value? (digit (b &&& 0x0F)) = some (b &&& 0x0F) ∧
      (b >>> 4) <<< 4 ||| b &&& 0x0F = b := by
  have hall : ∀ n < 256, let b := UInt8.ofNat n;
      ((digit (b >>> 4)).toNat < 0x80 ∧ (digit (b &&& 0x0F)).toNat < 0x80) ∧
      value? (digit (b >>> 4)) = some (b >>> 4) ∧ value? (digit (b &&& 0x0F)) = some (b &&& 0x0F) ∧
        (b >>> 4) <<< 4 ||| b &&& 0x0F = b := by
    decide +kernel
  have hb := hall b.toNat b.toNat_lt
  rwa [UInt8.ofNat_toNat] at hb

/-- The digits of the bytes, as bytes. -/
def digitBytes : Bytes → Bytes
  | [] => []
  | b :: bs => digit (b >>> 4) :: digit (b &&& 0x0F) :: digitBytes bs

theorem length_digitBytes (bs : Bytes) : (digitBytes bs).length = 2 * bs.length := by
  induction bs with
  | nil => rfl
  | cons b bs ih =>
    rw [digitBytes, List.length_cons, List.length_cons, List.length_cons, ih]
    omega

theorem digits_cons (b : UInt8) (bs : Bytes) :
    digits (b :: bs) = Char.ofUInt8 (digit (b >>> 4)) :: Char.ofUInt8 (digit (b &&& 0x0F)) :: digits bs := rfl

theorem exists_of_mem_digits {bs : Bytes} {c : Char} (h : c ∈ digits bs) :
    ∃ v < 16, c = Char.ofUInt8 (digit (UInt8.ofNat v)) := by
  have hhalves : ∀ n < 256, let b := UInt8.ofNat n; (b >>> 4).toNat < 16 ∧ (b &&& 0x0F).toNat < 16 := by
    decide +kernel
  obtain ⟨b, -, hc⟩ := List.mem_flatMap.mp h
  have hb := hhalves b.toNat b.toNat_lt
  rw [UInt8.ofNat_toNat] at hb
  rcases List.mem_pair.mp hc with rfl | rfl
  · exact ⟨_, hb.1, by rw [UInt8.ofNat_toNat]⟩
  · exact ⟨_, hb.2, by rw [UInt8.ofNat_toNat]⟩

theorem toNat_ofUInt8 (d : UInt8) : (Char.ofUInt8 d).toNat = d.toNat := UInt8.toNat_toUInt32 d

theorem toUTF8_encode (bs : Bytes) : (encode bs).toUTF8.toList = digitBytes bs := by
  have hascii : ∀ c ∈ digits bs, c.toNat < 0x80 := by
    intro c hc
    obtain ⟨b, -, hc⟩ := List.mem_flatMap.mp hc
    obtain ⟨⟨hhigh, hlow⟩, -⟩ := digit_pair b
    rcases List.mem_cons.mp hc with rfl | hc
    · rwa [toNat_ofUInt8]
    · obtain rfl := List.mem_singleton.mp hc
      rwa [toNat_ofUInt8]
  rw [encode, Bytes.toUTF8_of_ascii hascii]
  clear hascii
  induction bs with
  | nil => rfl
  | cons b bs ih =>
    rw [digits_cons, List.map_cons, List.map_cons, ih, toNat_ofUInt8, toNat_ofUInt8, UInt8.ofNat_toNat,
      UInt8.ofNat_toNat, digitBytes]

/-! ## Reading them -/

theorem decodePairs_digitBytes (bs : Bytes) (i : Nat) (acc : Bytes) :
    decodePairs i acc (digitBytes bs) = .ok (acc.reverse ++ bs) := by
  induction bs generalizing i acc with
  | nil => rw [digitBytes, decodePairs.eq_def, List.append_nil]
  | cons b bs ih =>
    obtain ⟨-, hhigh, hlow, hbyte⟩ := digit_pair b
    rw [digitBytes, decodePairs, hhigh, hlow]
    dsimp only
    rw [hbyte, ih, List.reverse_cons, List.append_assoc, List.singleton_append]

theorem decode_encode (bs : Bytes) : decode (encode bs) = .ok bs := by
  have heven : (digitBytes bs).length % 2 ≠ 1 := by
    rw [length_digitBytes]
    omega
  rw [decode, toUTF8_encode, decodeBytes, if_neg heven, decodePairs_digitBytes]
  rfl

theorem toList_encode (bs : Bytes) : (encode bs).toList = digits bs := String.toList_ofList

theorem dropMark_of_not_mem {cs : List Char} (h : 'x' ∉ cs) : dropMark cs = cs := by
  unfold dropMark
  split
  · exact absurd (List.mem_cons_of_mem _ List.mem_cons_self) h
  · rfl

end Hex

namespace FixedBytes

variable {n : Nat}

theorem toList_toText (a : FixedBytes n) : a.toText.toList = '0' :: 'x' :: a.toHex.toList := by
  rw [toText, String.toList_append]
  rfl

theorem parse_toText (a : FixedBytes n) : parse n a.toText = .ok a := by
  rw [parse, toList_toText, Hex.dropMark, String.ofList_toList, toHex, Hex.decode_encode]
  dsimp only
  rw [List.reverse_reverse, ofBytes, ofBytes?_bytes]
  rfl

end FixedBytes

namespace Point

/-- The first digits of a key are no mark of hexadecimal. -/
theorem dropMarks_toHex (a : Point) : Hex.dropMarks a.toHex.toList = a.toHex.toList := by
  rw [toHex, Hex.toList_encode, compressed]
  split
  · rfl
  · rfl

theorem ofHex_toHex (a : Point) : ofHex a.toHex = .ok a := by
  rw [ofHex, dropMarks_toHex, String.ofList_toList, toHex, Hex.decode_encode]
  dsimp only
  rw [ofBytes, a.compressed.length_eq, if_neg (by decide), ofCompressed_compressed]

end Point

end N3
