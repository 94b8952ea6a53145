import Mathlib.Data.List.TakeWhile
import Mathlib.Data.Nat.Digits.Lemmas
import N3.Proofs.Bytes
import N3.Proofs.Outcome
import N3.Proofs.Text.Hex
import N3.Text.Base58

/-!
# Base 58 read back

Writing bytes in base 58 and reading them are the same change of base, once in either direction: leading zeros stand for
themselves, and the digits behind them for a number (`rebase`). A change of base is undone by the one back
(`rebase_rebase`), so that bytes and texts of the alphabet determine each other, and with a checksum a text is read
exactly if it is what its payload is written as (`decodeChecked_eq_ok_iff`).
-/

set_option autoImplicit false

namespace N3.Base58

/-! ## Digits -/

section Digits

variable {b : ℕ} (hb : 1 < b)

theorem digits_eq (v : ℕ) : digits b hb v = Nat.digits b v := by
  fun_induction digits b hb v with
  | case1 => rw [Nat.digits_zero]
  | case2 v hv ih => rw [Nat.digits_def' hb (Nat.pos_of_ne_zero hv), ih]

/-- The most significant digit comes first here. -/
theorem ofDigits_eq (b : ℕ) (ds : List ℕ) : ofDigits b ds = Nat.ofDigits b ds.reverse := by
  induction ds using List.reverseRecOn with
  | nil => rfl
  | append_singleton ds d ih =>
    rw [ofDigits, List.foldl_append, ← ofDigits, ih, List.reverse_append, List.reverse_singleton, List.singleton_append,
      Nat.ofDigits_cons, List.foldl_cons, List.foldl_nil, Nat.mul_comm, Nat.add_comm]

theorem ofDigits_digits (v : ℕ) : ofDigits b (digits b hb v).reverse = v := by
  rw [ofDigits_eq, List.reverse_reverse, digits_eq, Nat.ofDigits_digits]

theorem lt_of_mem_digits {v d : ℕ} (h : d ∈ digits b hb v) : d < b := by
  rw [digits_eq] at h
  exact Nat.digits_lt_base hb h

/-- Digits do not begin with a zero. -/
theorem head?_digits (v : ℕ) : (digits b hb v).reverse.head? ≠ some 0 := by
  rw [digits_eq, List.head?_reverse]
  rcases Nat.eq_zero_or_pos v with rfl | hv
  · rw [Nat.digits_zero]
    exact nofun
  · rw [List.getLast?_eq_some_getLast (Nat.digits_ne_nil_iff_ne_zero.mpr hv.ne')]
    exact fun h => Nat.getLast_digit_ne_zero b hv.ne' (Option.some.inj h)

/-- Without a leading zero, digits are those of their number. -/
theorem digits_ofDigits {ds : List ℕ} (hlt : ∀ d ∈ ds, d < b) (hhead : ds.head? ≠ some 0) :
    (digits b hb (ofDigits b ds)).reverse = ds := by
  rw [digits_eq, ofDigits_eq, Nat.digits_ofDigits b hb _ (fun d hd => hlt d (List.mem_reverse.mp hd)),
    List.reverse_reverse]
  intro hne hlast
  rw [List.getLast_reverse] at hlast
  exact hhead (List.head?_eq_some_head _ ▸ congrArg some hlast)

end Digits

/-! ## The change of base -/

/-- The digits in base `b` of what the digits stand for in base `a`. Leading zeros stand for themselves. -/
def rebase (a b : ℕ) (hb : 1 < b) (ds : List ℕ) : List ℕ :=
  ds.takeWhile (· == 0) ++ (digits b hb (ofDigits a ds)).reverse

theorem eq_of_mem_takeWhile {α : Type} [BEq α] [LawfulBEq α] {a zero : α} {as : List α}
    (h : a ∈ as.takeWhile (· == zero)) : a = zero := by
  have hzero := List.mem_takeWhile_imp h
  exact beq_iff_eq.mp hzero

/-- Leading zeros come apart from what follows them. -/
theorem exists_zeros (ds : List ℕ) : ∃ z rest, ds = List.replicate z 0 ++ rest ∧ rest.head? ≠ some 0 := by
  induction ds with
  | nil => exact ⟨0, [], rfl, nofun⟩
  | cons d ds ih =>
    by_cases hd : d = 0
    · obtain ⟨z, rest, rfl, hrest⟩ := ih
      exact ⟨z + 1, rest, by rw [hd, List.replicate_succ, List.cons_append], hrest⟩
    · exact ⟨0, d :: ds, rfl, fun h => hd (Option.some.inj h)⟩

theorem takeWhile_zeros_append (z : ℕ) {rest : List ℕ} (h : rest.head? ≠ some 0) :
    (List.replicate z 0 ++ rest).takeWhile (· == 0) = List.replicate z 0 := by
  have hrest : rest.takeWhile (· == 0) = [] := by
    cases rest with
    | nil => rfl
    | cons d rest => exact List.takeWhile_cons_of_neg fun hd => h (congrArg some (beq_iff_eq.mp hd))
  rw [List.takeWhile_append_of_pos fun d hd => beq_iff_eq.mpr (List.eq_of_mem_replicate hd), hrest, List.append_nil]

theorem ofDigits_zeros_append (b z : ℕ) (rest : List ℕ) :
    ofDigits b (List.replicate z 0 ++ rest) = ofDigits b rest := by
  induction z with
  | zero => rfl
  | succ z ih =>
    rw [← ih, List.replicate_succ, List.cons_append, ofDigits, List.foldl_cons, Nat.zero_mul]
    rfl

section Rebase

variable {a b : ℕ}

theorem rebase_zeros_append (hb : 1 < b) (z : ℕ) {rest : List ℕ} (h : rest.head? ≠ some 0) :
    rebase a b hb (List.replicate z 0 ++ rest) = List.replicate z 0 ++ (digits b hb (ofDigits a rest)).reverse := by
  rw [rebase, takeWhile_zeros_append z h, ofDigits_zeros_append]

theorem lt_of_mem_rebase (hb : 1 < b) {ds : List ℕ} : ∀ d ∈ rebase a b hb ds, d < b := by
  intro d hd
  rcases List.mem_append.mp hd with hzero | hdigit
  · rw [eq_of_mem_takeWhile hzero]
    exact Nat.zero_lt_of_lt hb
  · exact lt_of_mem_digits hb (List.mem_reverse.mp hdigit)

/-- The change of base is undone by the one back. -/
theorem rebase_rebase (ha : 1 < a) (hb : 1 < b) {ds : List ℕ} (h : ∀ d ∈ ds, d < a) :
    rebase b a ha (rebase a b hb ds) = ds := by
  obtain ⟨z, rest, rfl, hrest⟩ := exists_zeros ds
  rw [rebase_zeros_append hb z hrest, rebase_zeros_append ha z (head?_digits hb _), ofDigits_digits,
    digits_ofDigits ha (fun d hd => h d (List.mem_append_right _ hd)) hrest]

end Rebase

/-! ## Bytes as digits -/

theorem toNatBE_eq (bs : Bytes) : Bytes.toNatBE bs = ofDigits 256 (bs.map UInt8.toNat) := by
  rw [ofDigits, List.foldl_map, Bytes.toNatBE]
  simp only [Nat.mul_comm]

theorem takeWhile_toNat (bs : Bytes) :
    (bs.map UInt8.toNat).takeWhile (· == 0) = (bs.takeWhile (· == 0)).map UInt8.toNat := by
  rw [List.takeWhile_map]
  congr 2
  funext b
  rw [Function.comp_apply, Bool.eq_iff_iff, beq_iff_eq, beq_iff_eq, ← UInt8.toNat_inj]
  rfl

theorem one_lt_digits : 1 < 58 := by decide

/-- The digits that bytes are written with. -/
def toDigits (bs : Bytes) : List ℕ := rebase 256 58 one_lt_digits (bs.map UInt8.toNat)

theorem char_zero : char 0 = '1' := by decide +kernel

theorem encodeChars_eq (bs : Bytes) : encodeChars bs = (toDigits bs).map char := by
  have hzeros : (bs.takeWhile (· == 0)).map (fun _ => '1') = ((bs.takeWhile (· == 0)).map UInt8.toNat).map char := by
    rw [List.map_map]
    refine List.map_congr_left fun b hb => ?_
    rw [Function.comp_apply, eq_of_mem_takeWhile hb, UInt8.toNat_zero, char_zero]
  rw [encodeChars, toDigits, rebase, List.map_append, takeWhile_toNat, ← toNatBE_eq, hzeros]

theorem bytesOfDigits_eq (ds : List ℕ) : bytesOfDigits ds = (rebase 58 256 (by decide) ds).map UInt8.ofNat := by
  have hzeros : (ds.takeWhile (· == 0)).map (fun _ => (0 : UInt8)) = (ds.takeWhile (· == 0)).map UInt8.ofNat := by
    refine List.map_congr_left fun d hd => ?_
    rw [eq_of_mem_takeWhile hd]
    rfl
  rw [bytesOfDigits, rebase, List.map_append, hzeros]

theorem lt_of_mem_toDigits {bs : Bytes} : ∀ d ∈ toDigits bs, d < 58 := lt_of_mem_rebase _

theorem bytesOfDigits_toDigits (bs : Bytes) : bytesOfDigits (toDigits bs) = bs := by
  have hlt : ∀ d ∈ bs.map UInt8.toNat, d < 256 := by
    intro d hd
    obtain ⟨b, -, rfl⟩ := List.mem_map.mp hd
    exact b.toNat_lt
  rw [bytesOfDigits_eq, toDigits, rebase_rebase _ _ hlt, List.map_map]
  exact (List.map_congr_left fun b _ => UInt8.ofNat_toNat).trans (List.map_id bs)

theorem toDigits_bytesOfDigits {ds : List ℕ} (h : ∀ d ∈ ds, d < 58) : toDigits (bytesOfDigits ds) = ds := by
  have hbytes : (bytesOfDigits ds).map UInt8.toNat = rebase 58 256 (by decide) ds := by
    rw [bytesOfDigits_eq, List.map_map]
    exact (List.map_congr_left fun d hd => UInt8.toNat_ofNat_of_lt' (lt_of_mem_rebase _ d hd)).trans (List.map_id _)
  rw [toDigits, hbytes, rebase_rebase _ _ h]

/-! ## Texts -/

def charByte (d : ℕ) : UInt8 := UInt8.ofNat (char d).toNat

theorem char_spec {d : ℕ} (h : d < 58) :
    (char d).toNat < 0x80 ∧ ¬ 0x7F < charByte d ∧ value? (charByte d) = some d := by
  have hall : ∀ d < 58, (char d).toNat < 0x80 ∧ ¬ 0x7F < charByte d ∧ value? (charByte d) = some d := by decide +kernel
  exact hall d h

theorem eq_charByte_of_value? {c : UInt8} {d : ℕ} (h : value? c = some d) : d < 58 ∧ c = charByte d := by
  obtain ⟨hd, hchar, -⟩ := List.findIdx?_eq_some_iff_getElem.mp h
  have hlength : alphabet.length = 58 := by decide
  refine ⟨hlength ▸ hd, ?_⟩
  rw [charByte, char, List.getD_eq_getElem?_getD, List.getElem?_eq_getElem hd, Option.getD_some, beq_iff_eq.mp hchar,
    Hex.toNat_ofUInt8, UInt8.ofNat_toNat]

theorem readDigits_eq_ok_iff {i : ℕ} {acc ds : List ℕ} {text : Bytes} : readDigits i acc text = .ok ds ↔
    ∃ new, ds = acc.reverse ++ new ∧ text = new.map charByte ∧ ∀ d ∈ new, d < 58 := by
  -- What was read before the text stands in `acc`, so that the statement is about all of it.
  induction text generalizing i acc with
  | nil =>
    rw [readDigits]
    constructor
    · intro h
      exact ⟨[], by rw [List.append_nil, Except.ok.inj h], rfl, nofun⟩
    · rintro ⟨new, rfl, hnew, -⟩
      rw [List.map_eq_nil_iff.mp hnew.symm, List.append_nil]
  | cons c text ih =>
    constructor
    · intro h
      rw [readDigits] at h
      split at h
      · cases h
      · split at h
        · next d hd =>
          obtain ⟨new, rfl, rfl, hnew⟩ := ih.mp h
          obtain ⟨hlt, rfl⟩ := eq_charByte_of_value? hd
          exact ⟨d :: new, by rw [List.reverse_cons, List.append_assoc, List.singleton_append], rfl,
            List.forall_mem_cons.mpr ⟨hlt, hnew⟩⟩
        · cases h
    · rintro ⟨new, rfl, htext, hnew⟩
      obtain ⟨d, new, rfl, rfl, rfl⟩ := List.map_eq_cons_iff.mp htext.symm
      obtain ⟨hd, hnew⟩ := List.forall_mem_cons.mp hnew
      obtain ⟨-, hascii, hvalue⟩ := char_spec hd
      rw [readDigits, if_neg hascii, hvalue]
      exact ih.mpr ⟨new, by rw [List.reverse_cons, List.append_assoc, List.singleton_append], rfl, hnew⟩

/-- The texts of bytes are in ASCII. -/
theorem toUTF8_encodeChars (bs : Bytes) :
    (String.ofList (encodeChars bs)).toUTF8.toList = (toDigits bs).map charByte := by
  rw [encodeChars_eq, Bytes.toUTF8_of_ascii, List.map_map]
  · rfl
  · intro c hc
    obtain ⟨d, hd, rfl⟩ := List.mem_map.mp hc
    exact (char_spec (lt_of_mem_toDigits d hd)).1

theorem decodeBytes_eq_ok_iff {text bs : Bytes} :
    decodeBytes text = .ok bs ↔ text = (String.ofList (encodeChars bs)).toUTF8.toList := by
  have hmap : decodeBytes text = .ok bs ↔ ∃ ds, readDigits 0 [] text = .ok ds ∧ bytesOfDigits ds = bs := by
    rw [decodeBytes]
    cases readDigits 0 [] text with
    | error e => exact ⟨nofun, nofun⟩
    | ok ds => simp [Except.map]
  rw [hmap, toUTF8_encodeChars]
  constructor
  · rintro ⟨ds, hread, rfl⟩
    obtain ⟨new, hds, rfl, hnew⟩ := readDigits_eq_ok_iff.mp hread
    rw [List.reverse_nil, List.nil_append] at hds
    rw [hds, toDigits_bytesOfDigits hnew]
  · rintro rfl
    exact ⟨toDigits bs, readDigits_eq_ok_iff.mpr ⟨_, rfl, rfl, lt_of_mem_toDigits⟩, bytesOfDigits_toDigits bs⟩

/-! ## With a checksum -/

theorem length_checksum (payload : Bytes) : (checksum payload).length = 4 := by
  rw [checksum, List.length_take, (Hash.hash256 payload).length_eq]
  rfl

/-- The payload and its checksum come apart at the last four bytes. -/
theorem decodeChecked_eq_ok_iff_decodeBytes {s : String} {payload : Bytes} : decodeChecked s = .ok payload ↔
    decodeBytes s.toUTF8.toList = .ok (payload ++ checksum payload) := by
  have hchecksum := length_checksum payload
  constructor
  · intro h
    obtain ⟨bs, hbs, h⟩ := Outcome.bind_eq_ok.mp h
    dsimp only at h
    split at h
    · cases h
    · split at h
      · next hfound =>
        cases h
        rw [hbs, hfound, List.take_append_drop]
      · cases h
  · intro h
    have hlength : (payload ++ checksum payload).length - 4 = payload.length := by
      rw [List.length_append, hchecksum, Nat.add_sub_cancel]
    refine Outcome.bind_eq_ok.mpr ⟨_, h, ?_⟩
    dsimp only
    rw [hlength, List.take_left, List.drop_left, if_neg (by rw [List.length_append]; omega), if_pos rfl]
    rfl

/-- A text with a checksum is read exactly if it is what its payload is written as. -/
theorem decodeChecked_eq_ok_iff {s : String} {payload : Bytes} :
    decodeChecked s = .ok payload ↔ s = encodeChecked payload := by
  rw [decodeChecked_eq_ok_iff_decodeBytes, decodeBytes_eq_ok_iff, Bytes.toUTF8_inj, encodeChecked]

end N3.Base58
