import N3.Proofs.Curve.Parity
import N3.Proofs.Script.Verification
import N3.Proofs.Vm.Constant
import N3.Script.Call

/-!
# The scripts that count as templates

Whatever bytes a verification script is made of, it counts as a template of several keys exactly if its instructions
are a threshold, so many short pushes of keys, their number and the call (`isMultiSig_iff`), and as the template of one
key exactly if they are the push of a key and the call (`isSingleSig_iff`). The integers may be pushed in any width.
`classify` puts together what the rest of a script says once it counts as either.
-/

set_option autoImplicit false

namespace N3.VerificationScript

open Instruction (split?_eq_some)

/-! ## The lists of instructions -/

def pushKey (key : Bytes) : Instruction := ⟨.PUSHDATA1, key⟩

structure IsSingle (key : Bytes) (is : List Instruction) : Prop where
  length_key : key.length = 33
  eq : is = [pushKey key, Script.call .checkSig]

/-- The instructions of a template of several keys, `k` of which have to sign. -/
structure IsMulti (k : Nat) (keys : List Bytes) (is : List Instruction) : Prop where
  pos : 1 ≤ k
  le_length : k ≤ keys.length
  length_le : keys.length ≤ 1024
  length_key : ∀ key ∈ keys, key.length = 33
  eq : ∃ threshold count : Instruction, threshold.integer? = some (k : Int) ∧
    count.integer? = some (keys.length : Int) ∧
    is = threshold :: keys.map pushKey ++ [count, Script.call .checkMultisig]

theorem isWhole_pushKey {key : Bytes} (h : key.length = 33) : (pushKey key).IsWhole := by
  show key.length < 256
  omega

theorem isWhole_call (s : Service) : (Script.call s).IsWhole := s.length_hash

theorem encode_pushKey {key : Bytes} (h : key.length = 33) :
    (pushKey key).encode = OpCode.PUSHDATA1.byte :: 33 :: key := by
  show OpCode.PUSHDATA1.byte :: (Bytes.ofNatLE 1 key.length ++ key) = _
  rw [h]
  rfl

/-! ## One key -/

theorem encode_single {key : Bytes} (h : key.length = 33) :
    [pushKey key, Script.call .checkSig].flatMap Instruction.encode =
      OpCode.PUSHDATA1.byte :: 33 :: (key ++ Push.service .checkSig) := by
  rw [List.flatMap_cons, List.flatMap_singleton, encode_pushKey h]
  rfl

theorem singleKey?_eq_some {v : VerificationScript} {key : Bytes} : v.singleKey? = some key ↔
    key.length = 33 ∧ v.bytes = [pushKey key, Script.call .checkSig].flatMap Instruction.encode := by
  unfold singleKey?
  constructor
  · intro h
    split at h
    · next op length rest hbytes =>
      dsimp only at h
      split at h
      · next hform =>
        obtain ⟨hlength, rfl, rfl, hrest⟩ := hform
        obtain rfl := Option.some.inj h
        have hkey : (rest.take 33).length = 33 := by
          rw [hbytes] at hlength
          simp only [List.length_cons] at hlength
          rw [List.length_take]
          omega
        refine ⟨hkey, ?_⟩
        rw [encode_single hkey, hbytes, show Push.service .checkSig = rest.drop 33 from hrest.symm,
          List.take_append_drop]
      · cases h
    · cases h
  · rintro ⟨hkey, hbytes⟩
    rw [encode_single hkey] at hbytes
    have hservice : (Push.service .checkSig).length = 5 := by
      show (OpCode.SYSCALL.byte :: (Bytes.ofNatLE 0 _ ++ Service.checkSig.hash)).length = 5
      simp [Service.length_hash]
    have hlength : v.bytes.length = 40 := by
      rw [hbytes]
      simp only [List.length_cons, List.length_append, hkey, hservice]
    rw [hbytes] at hlength ⊢
    dsimp only
    rw [List.take_left' hkey, List.drop_left' hkey, if_pos ⟨hlength, rfl, rfl, rfl⟩]

theorem singleKey?_ofKey (key : Point) : (ofKey key).singleKey? = some key.compressed.bytes := by
  rw [singleKey?_eq_some, encode_single key.compressed.length_eq, ofKey, data_key]
  exact ⟨key.compressed.length_eq, rfl⟩

theorem isSingleSig_ofKey (key : Point) : (ofKey key).isSingleSig = true := by
  rw [isSingleSig, singleKey?_ofKey]
  rfl

theorem keys_ofKey (key : Point) : (ofKey key).keys = .ok [key] := by
  unfold VerificationScript.keys
  rw [singleKey?_ofKey]
  exact mapM_compressed [key]

/-! ## Several keys -/

theorem readNat?_eq_some {bs rest : Bytes} {k : Nat} : readNat? bs = some (k, rest) ↔
    ∃ i : Instruction, i.IsWhole ∧ i.integer? = some (k : Int) ∧ k < 0x8000000000000000 ∧ bs = i.encode ++ rest := by
  unfold readNat?
  constructor
  · intro h
    split at h
    · next v r hread =>
      split at h
      · next hpos =>
        simp only [Option.some.injEq, Prod.mk.injEq] at h
        obtain ⟨rfl, rfl⟩ := h
        obtain ⟨bs', hbs, i, hi, hv, rfl⟩ := Push.takes_readInt _ _ _ hread
        have hlt := v.toInt_lt
        refine ⟨i, hi, ?_, by omega, hbs⟩
        rw [hv, Int.toNat_of_nonneg hpos]
      · cases h
    · cases h
  · rintro ⟨i, hi, hk, hlt, rfl⟩
    have hint : (Int64.ofNat k).toInt = k := Int64.toInt_ofNat_of_lt hlt
    have hread : Push.readInt (Reader.start (i.encode ++ rest)) = (.ok (Int64.ofNat k), _) :=
      Push.reads_readInt_encode hi (hk.trans (congrArg some hint.symm)) rest 0 (i.encode ++ rest, 0)
    rw [hread]
    dsimp only
    rw [hint, if_pos (Int.natCast_nonneg k), Int.toNat_natCast]

/-- What is read as keys is a run of their pushes. -/
theorem readKeys_eq_some {fuel : Nat} {bs rest : Bytes} {keys : List Bytes}
    (h : readKeys fuel bs = some (keys, rest)) :
    (∀ key ∈ keys, key.length = 33) ∧ bs = (keys.map pushKey).flatMap Instruction.encode ++ rest := by
  induction fuel generalizing bs keys with
  | zero => cases h
  | succ fuel ih =>
    unfold readKeys at h
    split at h
    · next op rest' =>
      split at h
      · next hop =>
        subst hop
        cases rest' with
        | nil => cases h
        | cons length rest' =>
          dsimp only at h
          split at h
          · cases h
          · next hlength =>
            simp only [Option.bind_eq_bind, Option.bind_eq_some_iff] at h
            obtain ⟨⟨key, more⟩, hkey, ⟨keys', rest''⟩, hkeys, h⟩ := h
            cases h
            obtain ⟨rfl, hlengthKey⟩ := split?_eq_some.mp hkey
            obtain ⟨hall, rfl⟩ := ih hkeys
            refine ⟨List.forall_mem_cons.mpr ⟨hlengthKey, hall⟩, ?_⟩
            rw [List.map_cons, List.flatMap_cons, encode_pushKey hlengthKey, Classical.not_not.mp hlength]
            simp
      · cases h
        exact ⟨by simp, rfl⟩
    · cases h

/-- The push of an integer does not begin as the push of a key does. -/
theorem encode_integer_eq_cons {i : Instruction} (hi : i.IsWhole) {v : Int} (h : i.integer? = some v) :
    ∃ b bs, i.encode = b :: bs ∧ b ≠ OpCode.PUSHDATA1.byte := by
  rcases Instruction.integer?_eq_some hi h with ⟨⟨hlow, -⟩, hencode, -⟩ | ⟨hwide, hencode, -⟩
  · refine ⟨_, _, hencode, ?_⟩
    intro heq
    rw [heq] at hlow
    exact absurd hlow (by decide)
  · have hne : ∀ op ∈ OpCode.wideIntegers, op.byte ≠ OpCode.PUSHDATA1.byte := by decide
    exact ⟨_, _, hencode, hne i.op hwide⟩

theorem readKeys_pushKeys {keys : List Bytes} (hkeys : ∀ key ∈ keys, key.length = 33) {b : UInt8} (bs : Bytes)
    {fuel : Nat} (hb : b ≠ OpCode.PUSHDATA1.byte) (hfuel : keys.length < fuel) :
    readKeys fuel ((keys.map pushKey).flatMap Instruction.encode ++ b :: bs) = some (keys, b :: bs) := by
  obtain ⟨fixed, rfl⟩ : ∃ fixed : List (FixedBytes 33), fixed.map FixedBytes.bytes = keys :=
    ⟨keys.pmap FixedBytes.mk hkeys, by simp [List.map_pmap]⟩
  have hpush : ∀ k : FixedBytes 33, Push.data k.bytes = (pushKey k.bytes).encode := by
    intro k
    rw [data_key, encode_pushKey k.length_eq]
  rw [List.length_map] at hfuel
  have hread := readKeys_pushes fixed bs fuel hb hfuel
  simp only [hpush] at hread
  rwa [List.flatMap_map, List.flatMap_map]

section Several

variable {k : Nat} {keys : List Bytes} {threshold count : Instruction}

theorem encode_multi (threshold count : Instruction) (keys : List Bytes) :
    (threshold :: keys.map pushKey ++ [count, Script.call .checkMultisig]).flatMap Instruction.encode =
      threshold.encode ++ ((keys.map pushKey).flatMap Instruction.encode ++
        (count.encode ++ Push.service .checkMultisig)) := by
  rw [List.cons_append, List.flatMap_cons, List.flatMap_append, List.flatMap_cons, List.flatMap_singleton]
  rfl

theorem forall_isWhole_multi (hkeys : ∀ key ∈ keys, key.length = 33) :
    (∀ i ∈ threshold :: keys.map pushKey ++ [count, Script.call .checkMultisig], i.IsWhole) ↔
      threshold.IsWhole ∧ count.IsWhole := by
  have hpush : ∀ i ∈ keys.map pushKey, i.IsWhole := by
    intro i hi
    obtain ⟨key, hkey, rfl⟩ := List.mem_map.mp hi
    exact isWhole_pushKey (hkeys key hkey)
  simp only [List.cons_append, List.forall_mem_cons, List.forall_mem_append, isWhole_call, and_true,
    List.not_mem_nil, false_imp_iff, implies_true]
  exact and_congr_right fun _ => and_iff_right hpush

/-- What is taken for a template of several keys is made of whole instructions. -/
theorem isMulti_of_multisig? {v : VerificationScript} (h : v.multisig? = some ⟨k, keys⟩) :
    ∃ is, IsMulti k keys is ∧ (∀ i ∈ is, i.IsWhole) ∧ v.bytes = is.flatMap Instruction.encode := by
  unfold multisig? at h
  simp only [Option.bind_eq_bind, Option.bind_eq_some_iff] at h
  obtain ⟨⟨threshold, rest⟩, hthreshold, h⟩ := h
  dsimp only at h
  split at h
  · cases h
  · next hk =>
    simp only [Option.bind_eq_some_iff] at h
    obtain ⟨⟨found, rest'⟩, hfound, h⟩ := h
    dsimp only at h
    split at h
    · cases h
    · next hn =>
      simp only [Option.bind_eq_some_iff] at h
      obtain ⟨⟨count, rest''⟩, hcount, h⟩ := h
      dsimp only at h
      split at h
      · cases h
      · next hend =>
        cases h
        rw [not_or, Classical.not_not, Classical.not_not] at hend
        obtain ⟨rfl, rfl⟩ := hend
        obtain ⟨i, hi, hik, -, hbytes⟩ := readNat?_eq_some.mp hthreshold
        obtain ⟨hkeys, rfl⟩ := readKeys_eq_some hfound
        obtain ⟨j, hj, hjn, -, rfl⟩ := readNat?_eq_some.mp hcount
        have hmax : keys.length ≤ 1024 := Nat.not_lt.mp fun h => hn (.inr h)
        refine ⟨_, ⟨by omega, by omega, hmax, hkeys, i, j, hik, hjn, rfl⟩, ?_, ?_⟩
        · exact (forall_isWhole_multi hkeys).mpr ⟨hi, hj⟩
        · rw [hbytes, encode_multi]

/-- The keys of a template are read up to their number. -/
theorem readKeys_multi (hkeys : ∀ key ∈ keys, key.length = 33) (hwhole : count.IsWhole) {n : Int}
    (hcount : count.integer? = some n) (rest : Bytes) :
    readKeys ((keys.map pushKey).flatMap Instruction.encode ++ (count.encode ++ rest)).length
      ((keys.map pushKey).flatMap Instruction.encode ++ (count.encode ++ rest)) = some (keys, count.encode ++ rest) := by
  obtain ⟨b, bs, hfirst, hb⟩ := encode_integer_eq_cons hwhole hcount
  have hfuel : keys.length < ((keys.map pushKey).flatMap Instruction.encode ++ b :: (bs ++ rest)).length := by
    have hextent := Instruction.length_le_extent (keys.map pushKey)
    rw [List.length_map] at hextent
    rw [List.length_append, Instruction.length_flatMap_encode, List.length_cons]
    omega
  rw [hfirst, List.cons_append]
  exact readKeys_pushKeys hkeys _ hb hfuel

theorem multisig?_of_isMulti {v : VerificationScript} {is : List Instruction} (h : IsMulti k keys is)
    (hwhole : ∀ i ∈ is, i.IsWhole) (hbytes : v.bytes = is.flatMap Instruction.encode) :
    v.multisig? = some ⟨k, keys⟩ := by
  obtain ⟨hpos, hreach, hmax, hkeys, threshold, count, hthreshold, hcount, rfl⟩ := h
  obtain ⟨hi, hj⟩ := (forall_isWhole_multi hkeys).mp hwhole
  have hlimit : keys.length ≤ Limits.multisigKeys := hmax
  rw [encode_multi] at hbytes
  have hk : readNat? v.bytes = some (k, _) := readNat?_eq_some.mpr ⟨threshold, hi, hthreshold, by omega, hbytes⟩
  have hn : readNat? (count.encode ++ Push.service .checkMultisig) = some (keys.length, Push.service .checkMultisig) :=
    readNat?_eq_some.mpr ⟨count, hj, hcount, by omega, rfl⟩
  unfold multisig?
  rw [hk, Option.bind_eq_bind, Option.bind_some]
  dsimp only
  rw [if_neg (by omega), readKeys_multi hkeys hj hcount, Option.bind_eq_bind, Option.bind_some]
  dsimp only
  rw [if_neg (by omega), hn, Option.bind_eq_bind, Option.bind_some]
  simp

end Several

/-! ## What a script says -/

section Says

variable {v : VerificationScript}

theorem singleKey?_eq_some_iff {key : Bytes} : v.singleKey? = some key ↔
    ∃ l, Instruction.disassemble v.bytes = .ok l ∧ IsSingle key (l.map (·.2)) := by
  rw [Instruction.exists_disassemble_iff, singleKey?_eq_some]
  constructor
  · rintro ⟨hkey, hbytes⟩
    refine ⟨_, ⟨hkey, rfl⟩, ?_, hbytes⟩
    simp only [List.forall_mem_cons, List.not_mem_nil, false_imp_iff, implies_true, and_true]
    exact ⟨isWhole_pushKey hkey, isWhole_call _⟩
  · rintro ⟨is, ⟨hkey, rfl⟩, -, hbytes⟩
    exact ⟨hkey, hbytes⟩

theorem multisig?_eq_some_iff {k : Nat} {keys : List Bytes} : v.multisig? = some ⟨k, keys⟩ ↔
    ∃ l, Instruction.disassemble v.bytes = .ok l ∧ IsMulti k keys (l.map (·.2)) := by
  rw [Instruction.exists_disassemble_iff]
  constructor
  · exact isMulti_of_multisig?
  · rintro ⟨is, his, hwhole, hbytes⟩
    exact multisig?_of_isMulti his hwhole hbytes

theorem isSingleSig_iff : v.isSingleSig = true ↔
    ∃ l key, Instruction.disassemble v.bytes = .ok l ∧ IsSingle key (l.map (·.2)) := by
  rw [isSingleSig, Option.isSome_iff_exists]
  simp only [singleKey?_eq_some_iff]
  exact exists_comm

theorem isMultiSig_iff : v.isMultiSig = true ↔
    ∃ l k keys, Instruction.disassemble v.bytes = .ok l ∧ IsMulti k keys (l.map (·.2)) := by
  rw [isMultiSig, Option.isSome_iff_exists]
  constructor
  · rintro ⟨⟨k, keys⟩, h⟩
    obtain ⟨l, hl, his⟩ := multisig?_eq_some_iff.mp h
    exact ⟨l, k, keys, hl, his⟩
  · rintro ⟨l, k, keys, hl, his⟩
    exact ⟨⟨k, keys⟩, multisig?_eq_some_iff.mpr ⟨l, hl, his⟩⟩

/-- The template of several keys has an instruction for each key and three more, and there is a key. -/
theorem IsMulti.lt_length {k : Nat} {keys : List Bytes} {is : List Instruction} (h : IsMulti k keys is) :
    2 < is.length := by
  obtain ⟨hpos, hreach, -, -, threshold, count, -, -, rfl⟩ := h
  simp only [List.cons_append, List.length_cons, List.length_append, List.length_map]
  omega

theorem multisig?_of_isSingleSig (h : v.isSingleSig = true) : v.multisig? = none := by
  obtain ⟨l, key, hl, hsingle⟩ := isSingleSig_iff.mp h
  rw [Option.eq_none_iff_forall_ne_some]
  rintro ⟨k, keys⟩ hmulti
  obtain ⟨l', hl', his⟩ := multisig?_eq_some_iff.mp hmulti
  obtain rfl := Except.ok.inj (hl.symm.trans hl')
  have hlength := his.lt_length
  rw [hsingle.eq] at hlength
  exact absurd hlength (Nat.lt_irrefl 2)

theorem threshold_eq_ok {k : Nat} : v.threshold = .ok k ↔
    v.isSingleSig = true ∧ k = 1 ∨ ∃ keys, v.multisig? = some ⟨k, keys⟩ := by
  unfold threshold
  split
  · next hsingle =>
    simp [hsingle, multisig?_of_isSingleSig hsingle, eq_comm]
  · next hsingle =>
    rcases v.multisig? with _ | ⟨k', keys⟩ <;> simp [hsingle]

theorem accounts_eq_ok {n : Nat} : v.accounts = .ok n ↔
    v.isSingleSig = true ∧ n = 1 ∨ ∃ k keys, v.multisig? = some ⟨k, keys⟩ ∧ n = keys.length := by
  unfold accounts
  split
  · next hsingle =>
    simp [hsingle, multisig?_of_isSingleSig hsingle, eq_comm]
  · next hsingle =>
    rcases v.multisig? with _ | ⟨k', keys⟩ <;> simp [hsingle, eq_comm]

theorem compressed_of_mapM {found : List Bytes} {read : List Point}
    (h : (found.mapM fun key => (Point.ofCompressed key).mapError Error.ofKey) = .ok read) :
    read.map (fun a => a.compressed.bytes) = found := by
  have hread : List.Forall₂ (fun key (a : Point) => key = a.compressed.bytes) found read := by
    refine (Outcome.mapM_eq_ok.mp h).imp ?_
    intro key a ha
    exact (Point.compressed_of_ofCompressed (Outcome.mapError_eq_ok.mp ha)).symm
  rw [← List.forall₂_map_right_iff, List.forall₂_eq_eq_eq] at hread
  exact hread.symm

/-- The keys that are read are the ones that are pushed. -/
theorem keys_eq_ok {read : List Point} (h : v.keys = .ok read) :
    (∃ a, read = [a] ∧ v.singleKey? = some a.compressed.bytes) ∨
      ∃ k, v.multisig? = some ⟨k, read.map fun a => a.compressed.bytes⟩ := by
  unfold VerificationScript.keys at h
  cases hsingle : v.singleKey? with
  | some key =>
    rw [hsingle] at h
    have hkeys : read.map (fun a => a.compressed.bytes) = [key] := compressed_of_mapM h
    obtain ⟨a, rfl, rfl⟩ := List.map_eq_singleton_iff.mp hkeys
    exact .inl ⟨a, rfl, rfl⟩
  | none =>
    rw [hsingle] at h
    cases hmulti : v.multisig? with
    | none =>
      rw [hmulti] at h
      cases h
    | some m =>
      rw [hmulti] at h
      exact .inr ⟨m.threshold, by rw [compressed_of_mapM h]⟩

theorem not_isSingleSig_of_isMultiSig (h : v.isMultiSig = true) : ¬ v.isSingleSig = true := by
  intro hsingle
  rw [isMultiSig, multisig?_of_isSingleSig hsingle] at h
  cases h

end Says

/-- A script counts as a template exactly if its instructions are those of one, and never as both. It has a threshold and
a number of accounts exactly then, which are what the instructions push, and its keys, if they can be read, are the keys
that the instructions push. -/
theorem isMultiSig_exact (v : VerificationScript) :
    (v.isMultiSig = true ↔ ∃ l k keys, Instruction.disassemble v.bytes = .ok l ∧ IsMulti k keys (l.map (·.2))) ∧
    (v.isSingleSig = true ↔ ∃ l key, Instruction.disassemble v.bytes = .ok l ∧ IsSingle key (l.map (·.2))) ∧
    ¬ (v.isMultiSig = true ∧ v.isSingleSig = true) ∧
    ((∃ k, v.threshold = .ok k) ↔ v.isMultiSig = true ∨ v.isSingleSig = true) ∧
    ((∃ n, v.accounts = .ok n) ↔ v.isMultiSig = true ∨ v.isSingleSig = true) ∧
    (v.isSingleSig = true → v.threshold = .ok 1 ∧ v.accounts = .ok 1) ∧
    (∀ l k keys, Instruction.disassemble v.bytes = .ok l → IsMulti k keys (l.map (·.2)) →
      v.threshold = .ok k ∧ v.accounts = .ok keys.length) ∧
    ∀ read, v.keys = .ok read → v.accounts = .ok read.length ∧
      ∃ l, Instruction.disassemble v.bytes = .ok l ∧
        ((∃ a, read = [a] ∧ IsSingle a.compressed.bytes (l.map (·.2))) ∨
          ∃ k, IsMulti k (read.map fun a => a.compressed.bytes) (l.map (·.2))) := by
  have hsome : v.isMultiSig = true ↔ ∃ k keys, v.multisig? = some ⟨k, keys⟩ := by
    rw [isMultiSig, Option.isSome_iff_exists]
    constructor
    · rintro ⟨⟨k, keys⟩, h⟩
      exact ⟨k, keys, h⟩
    · rintro ⟨k, keys, h⟩
      exact ⟨⟨k, keys⟩, h⟩
  refine ⟨isMultiSig_iff, isSingleSig_iff, fun h => not_isSingleSig_of_isMultiSig h.1 h.2, ?_, ?_, ?_, ?_, ?_⟩
  · rw [hsome]
    simp only [threshold_eq_ok, exists_or, exists_and_left, exists_eq, and_true]
    exact or_comm
  · rw [hsome]
    simp only [accounts_eq_ok, exists_or, exists_and_left, exists_eq, and_true]
    rw [or_comm]
    refine or_congr_left ⟨?_, ?_⟩
    · rintro ⟨_, k, keys, h, -⟩
      exact ⟨k, keys, h⟩
    · rintro ⟨k, keys, h⟩
      exact ⟨_, k, keys, h, rfl⟩
  · intro h
    exact ⟨threshold_eq_ok.mpr (.inl ⟨h, rfl⟩), accounts_eq_ok.mpr (.inl ⟨h, rfl⟩)⟩
  · intro l k keys hl his
    have hmulti := multisig?_eq_some_iff.mpr ⟨l, hl, his⟩
    exact ⟨threshold_eq_ok.mpr (.inr ⟨keys, hmulti⟩), accounts_eq_ok.mpr (.inr ⟨k, keys, hmulti, rfl⟩)⟩
  · intro read h
    rcases keys_eq_ok h with ⟨a, rfl, hkey⟩ | ⟨k, hmulti⟩
    · obtain ⟨l, hl, hsingle⟩ := singleKey?_eq_some_iff.mp hkey
      have hv : v.isSingleSig = true := isSingleSig_iff.mpr ⟨l, _, hl, hsingle⟩
      exact ⟨accounts_eq_ok.mpr (.inl ⟨hv, rfl⟩), l, hl, .inl ⟨a, rfl, hsingle⟩⟩
    · obtain ⟨l, hl, his⟩ := multisig?_eq_some_iff.mp hmulti
      refine ⟨accounts_eq_ok.mpr (.inr ⟨k, _, hmulti, ?_⟩), l, hl, .inr ⟨k, his⟩⟩
      rw [List.length_map]

/-- One of two keys has to sign, and the keys and both integers are written as no one would write them. -/
def lax : List Instruction :=
  ⟨.PUSHINT16, [1, 0]⟩ :: [Point.opposite.compressed.bytes, Point.base.compressed.bytes].map pushKey ++
    [⟨.PUSHINT256, 2 :: List.replicate 31 0⟩, Script.call .checkMultisig]

theorem isMultiSig_exact_lax :
    (⟨lax.flatMap Instruction.encode⟩ : VerificationScript).keys = .ok [.opposite, .base] ∧
      (⟨lax.flatMap Instruction.encode⟩ : VerificationScript).threshold = .ok 1 ∧
      (⟨lax.flatMap Instruction.encode⟩ : VerificationScript).accounts = .ok 2 := by
  have hkeys : ∀ key ∈ [Point.opposite.compressed.bytes, Point.base.compressed.bytes], key.length = 33 := by
    simp [FixedBytes.length_eq]
  have hmulti : IsMulti 1 [Point.opposite.compressed.bytes, Point.base.compressed.bytes] lax :=
    ⟨by decide, by decide, by decide, hkeys, ⟨.PUSHINT16, [1, 0]⟩, ⟨.PUSHINT256, 2 :: List.replicate 31 0⟩, by decide,
      by decide, rfl⟩
  have hwhole : ∀ i ∈ lax, i.IsWhole := (forall_isWhole_multi hkeys).mpr ⟨by decide, by decide⟩
  obtain ⟨l, hl, his⟩ := Instruction.exists_disassemble_iff.mpr ⟨lax, hmulti, hwhole, rfl⟩
  have hread : (⟨lax.flatMap Instruction.encode⟩ : VerificationScript).keys = .ok [.opposite, .base] := by
    have hsingle : (⟨lax.flatMap Instruction.encode⟩ : VerificationScript).singleKey? = none :=
      singleKey?_eq_none rfl (show OpCode.PUSHINT16.byte ≠ OpCode.PUSHDATA1.byte by decide)
    have hseveral : (⟨lax.flatMap Instruction.encode⟩ : VerificationScript).multisig? = some ⟨1, _⟩ :=
      multisig?_eq_some_iff.mpr ⟨l, hl, his⟩
    unfold VerificationScript.keys
    rw [hsingle, hseveral]
    refine Outcome.mapM_eq_ok.mpr (.cons ?_ (.cons ?_ .nil))
    · exact Outcome.mapError_eq_ok.mpr Point.opposite.ofCompressed_compressed
    · exact Outcome.mapError_eq_ok.mpr Point.base.ofCompressed_compressed
  obtain ⟨-, -, -, -, -, -, htells, hkeys⟩ := isMultiSig_exact ⟨lax.flatMap Instruction.encode⟩
  exact ⟨hread, (htells l 1 _ hl his).1, (hkeys _ hread).1⟩

end N3.VerificationScript
