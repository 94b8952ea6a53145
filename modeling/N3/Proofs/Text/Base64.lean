import N3.Text.Base64

/-!
# Base 64 read back

Bytes are read back from their text in base 64 (`decode?_encode`), and so are determined by it (`encode_injective`). A
value below 64 is that of its character, which is no padding (`char_spec`), so that a group of four characters without
padding is read as three bytes (`decodeGroups_group`); only the last group may have one byte or two.
-/

set_option autoImplicit false

namespace N3.Base64

/-! ## Characters -/

theorem char_spec {v : Nat} (h : v < 64) : value? (char v) = some v ∧ char v ≠ '=' := by
  have hall : ∀ v < 64, value? (char v) = some v ∧ char v ≠ '=' := by decide
  exact hall v h

/-! ## Writing -/

def group (v : Nat) : List Char :=
  [char (v / 262144), char (v / 4096 % 64), char (v / 64 % 64), char (v % 64)]

/-- What was written before stands in front. -/
theorem encodeGroups_eq : ∀ (acc : List Char) (bs : Bytes), encodeGroups acc bs = acc.reverse ++ encodeGroups [] bs
  | acc, a :: b :: c :: rest => by
    rw [encodeGroups, encodeGroups, encodeGroups_eq (_ :: _ :: _ :: _ :: acc), encodeGroups_eq [_, _, _, _]]
    simp
  | acc, [a, b] => by simp [encodeGroups]
  | acc, [a] => by simp [encodeGroups]
  | acc, [] => by simp [encodeGroups]

theorem encodeGroups_cons (a b c : UInt8) (rest : Bytes) :
    encodeGroups [] (a :: b :: c :: rest) =
      group (a.toNat * 65536 + b.toNat * 256 + c.toNat) ++ encodeGroups [] rest := by
  rw [encodeGroups, encodeGroups_eq]
  rfl

/-! ## Reading -/

theorem decodeGroups_cons (acc : Bytes) (a b c : Char) {d : Char} (hd : d ≠ '=') (rest : List Char) :
    decodeGroups acc (a :: b :: c :: d :: rest) =
      match value? a, value? b, value? c, value? d with
      | some a, some b, some c, some d =>
        let v := a * 262144 + b * 4096 + c * 64 + d
        decodeGroups (UInt8.ofNat v :: UInt8.ofNat (v / 256) :: UInt8.ofNat (v / 65536) :: acc) rest
      | _, _, _, _ => none := by
  have htwo : c = '=' → d = '=' → rest = [] → False := fun _ h _ => hd h
  have hone : d = '=' → rest = [] → False := fun h _ => hd h
  exact decodeGroups.eq_4 acc a b c d rest htwo hone

/-- A group without padding is three bytes. -/
theorem decodeGroups_group {v : Nat} (h : v < 16777216) (acc : Bytes) (rest : List Char) :
    decodeGroups acc (group v ++ rest) =
      decodeGroups (UInt8.ofNat v :: UInt8.ofNat (v / 256) :: UInt8.ofNat (v / 65536) :: acc) rest := by
  obtain ⟨h1, -⟩ := char_spec (v := v / 262144) (by omega)
  obtain ⟨h2, -⟩ := char_spec (v := v / 4096 % 64) (by omega)
  obtain ⟨h3, -⟩ := char_spec (v := v / 64 % 64) (by omega)
  obtain ⟨h4, hne⟩ := char_spec (v := v % 64) (by omega)
  have hv : v / 262144 * 262144 + v / 4096 % 64 * 4096 + v / 64 % 64 * 64 + v % 64 = v := by omega
  show decodeGroups acc (_ :: _ :: _ :: _ :: rest) = _
  rw [decodeGroups_cons _ _ _ _ hne, h1, h2, h3, h4]
  dsimp only
  rw [hv]

theorem ofNat_eq_of_mod {v : Nat} {b : UInt8} (h : v % 256 = b.toNat) : UInt8.ofNat v = b := by
  apply UInt8.toNat_inj.mp
  simpa using h

theorem decodeGroups_encodeGroups : ∀ (acc bs : Bytes), decodeGroups acc (encodeGroups [] bs) = some (acc.reverse ++ bs)
  | acc, a :: b :: c :: rest => by
    have ha : a.toNat < 256 := a.toNat_lt
    have hb : b.toNat < 256 := b.toNat_lt
    have hc : c.toNat < 256 := c.toNat_lt
    rw [encodeGroups_cons, decodeGroups_group (by omega), decodeGroups_encodeGroups,
      ofNat_eq_of_mod (b := c) (by omega), ofNat_eq_of_mod (b := b) (by omega), ofNat_eq_of_mod (b := a) (by omega)]
    simp
  | acc, [a, b] => by
    have ha : a.toNat < 256 := a.toNat_lt
    have hb : b.toNat < 256 := b.toNat_lt
    obtain ⟨v, hv⟩ : ∃ v, v = a.toNat * 256 + b.toNat := ⟨_, rfl⟩
    obtain ⟨h1, -⟩ := char_spec (v := v / 1024) (by omega)
    obtain ⟨h2, -⟩ := char_spec (v := v / 16 % 64) (by omega)
    obtain ⟨h3, hne3⟩ := char_spec (v := v % 16 * 4) (by omega)
    have hall : v / 1024 * 4096 + v / 16 % 64 * 64 + v % 16 * 4 = v * 4 := by omega
    have hwritten : encodeGroups [] [a, b] = [char (v / 1024), char (v / 16 % 64), char (v % 16 * 4), '='] := by
      rw [hv]
      rfl
    rw [hwritten, decodeGroups, h1, h2, h3]
    · simp only [bind, Option.bind_some, hall]
      rw [if_pos (by omega), ofNat_eq_of_mod (b := b) (by omega), ofNat_eq_of_mod (b := a) (by omega)]
      simp
    · exact fun h => absurd h hne3
  | acc, [a] => by
    have ha : a.toNat < 256 := a.toNat_lt
    obtain ⟨h1, -⟩ := char_spec (v := a.toNat / 4) (by omega)
    obtain ⟨h2, -⟩ := char_spec (v := a.toNat % 4 * 16) (by omega)
    have hall : a.toNat / 4 * 64 + a.toNat % 4 * 16 = a.toNat * 16 := by omega
    have hwritten : encodeGroups [] [a] = [char (a.toNat / 4), char (a.toNat % 4 * 16), '=', '='] := rfl
    rw [hwritten, decodeGroups, h1, h2]
    simp only [bind, Option.bind_some, hall]
    rw [if_pos (by omega), ofNat_eq_of_mod (b := a) (by omega)]
    simp
  | acc, [] => by simp [encodeGroups, decodeGroups]

theorem decode?_encode (bs : Bytes) : decode? (encode bs) = some bs := by
  rw [decode?, encode, String.toList_ofList, decodeGroups_encodeGroups]
  rfl

theorem encode_injective {bs cs : Bytes} (h : encode bs = encode cs) : bs = cs := by
  have hread := decode?_encode bs
  rw [h, decode?_encode] at hread
  exact (Option.some.inj hread).symm

end N3.Base64
