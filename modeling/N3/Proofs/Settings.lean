import N3.Draft.Build
import N3.Proofs.Outcome
import N3.Proofs.Rpc.Session
import N3.Proofs.Text.Hex

/-!
# Whether checked settings can be used

The hash of the token that fees are paid in is a text until a balance is asked for. The check of the settings skips the
mark of hexadecimal as often as it is there, and the reader of a hash takes it off once. So a text that passes the check
is a hash unless it begins with two marks, and a balance is then not asked for at all (`feeToken_usable`);
`load_doubled` reads such settings from a file.
-/

set_option autoImplicit false

namespace N3

/-! ## Digits -/

namespace Settings

theorem ascii_of_isHexDigit {c : Char} (h : isHexDigit c = true) : c.toNat < 0x80 := by
  have hle : ∀ d : Char, d.toNat < 0x80 → c ≤ d → c.toNat < 0x80 :=
    fun d hd hcd => Nat.lt_of_le_of_lt (UInt32.le_iff_toNat_le.mp (Char.le_def.mp hcd)) hd
  unfold isHexDigit Json.hexValue? at h
  split at h
  · next hrange => exact hle '9' (by decide) hrange.2
  · split at h
    · next hrange => exact hle 'f' (by decide) hrange.2
    · split at h
      · next hrange => exact hle 'F' (by decide) hrange.2
      · cases h

/-- A digit of the check is one for the reader of bytes. -/
theorem value?_of_isHexDigit {c : Char} (h : isHexDigit c = true) : (Hex.value? (UInt8.ofNat c.toNat)).isSome := by
  have hall : ∀ n < 0x80, isHexDigit (Char.ofNat n) = true → (Hex.value? (UInt8.ofNat n)).isSome := by decide +kernel
  exact hall c.toNat (ascii_of_isHexDigit h) (by rwa [Char.ofNat_toNat])

end Settings

namespace Hex

/-- Digits in pairs are read as half as many bytes. -/
theorem exists_decodePairs (i : Nat) (acc ds : Bytes) (hdigits : ∀ d ∈ ds, (value? d).isSome)
    (heven : ds.length % 2 = 0) :
    ∃ bs, decodePairs i acc ds = .ok bs ∧ 2 * bs.length = 2 * acc.length + ds.length := by
  match ds, hdigits, heven with
  | [], _, _ =>
    refine ⟨acc.reverse, by rw [decodePairs.eq_def], ?_⟩
    rw [List.length_reverse]
    rfl
  | [_], _, heven => cases heven
  | hi :: lo :: rest, hdigits, heven =>
    obtain ⟨hhi, hlo, hrest⟩ : _ ∧ _ ∧ ∀ d ∈ rest, (value? d).isSome := by simpa using hdigits
    obtain ⟨h, hh⟩ := Option.isSome_iff_exists.mp hhi
    obtain ⟨l, hl⟩ := Option.isSome_iff_exists.mp hlo
    rw [List.length_cons, List.length_cons] at heven
    obtain ⟨bs, hbs, hlength⟩ := exists_decodePairs (i + 2) ((h <<< 4 ||| l) :: acc) rest hrest (by omega)
    rw [decodePairs, hh, hl]
    refine ⟨bs, hbs, ?_⟩
    rw [hlength, List.length_cons, List.length_cons, List.length_cons]
    omega

theorem exists_decode {cs : List Char} (hdigits : ∀ c ∈ cs, Settings.isHexDigit c = true) (heven : cs.length % 2 = 0) :
    ∃ bs, decode (String.ofList cs) = .ok bs ∧ 2 * bs.length = cs.length := by
  rw [decode, Bytes.toUTF8_of_ascii fun c hc => Settings.ascii_of_isHexDigit (hdigits c hc), decodeBytes,
    List.length_map, if_neg (by omega)]
  have hvalues : ∀ d ∈ cs.map fun c => UInt8.ofNat c.toNat, (value? d).isSome := by
    intro d hd
    obtain ⟨c, hc, rfl⟩ := List.mem_map.mp hd
    exact Settings.value?_of_isHexDigit (hdigits c hc)
  obtain ⟨bs, hbs, hlength⟩ := exists_decodePairs 0 [] _ hvalues (by rwa [List.length_map])
  rw [List.length_map, List.length_nil, Nat.mul_zero, Nat.zero_add] at hlength
  exact ⟨bs, hbs, hlength⟩

/-! ## Marks -/

def doubledMark : List Char := ['0', 'x', '0', 'x']

theorem dropMarks_of_not_marked {cs : List Char} (h : ¬ ['0', 'x'] <+: cs) : dropMarks cs = cs := by
  unfold dropMarks
  split
  · exact absurd ⟨_, rfl⟩ h
  · rfl

/-- Without a second mark it does not matter how many are dropped. -/
theorem dropMark_eq_dropMarks {cs : List Char} (h : ¬ doubledMark <+: cs) : dropMark cs = dropMarks cs := by
  unfold dropMark
  split
  · next rest =>
    have hrest : ¬ ['0', 'x'] <+: rest := by
      rintro ⟨later, rfl⟩
      exact h ⟨later, rfl⟩
    rw [dropMarks, dropMarks_of_not_marked hrest]
  · next hunmarked =>
    refine (dropMarks_of_not_marked ?_).symm
    rintro ⟨rest, rfl⟩
    exact hunmarked rest rfl

/-- Marks have an even length. -/
theorem length_dropMarks (cs : List Char) : (dropMarks cs).length % 2 = cs.length % 2 := by
  fun_induction dropMarks cs with
  | case1 rest ih =>
    rw [ih, List.length_cons, List.length_cons]
    omega
  | case2 => rfl

/-- Marks are of ASCII. -/
theorem ascii_of_dropMarks {cs : List Char} (h : ∀ c ∈ dropMarks cs, c.toNat < 0x80) : ∀ c ∈ cs, c.toNat < 0x80 := by
  fun_induction dropMarks cs with
  | case1 rest ih =>
    exact List.forall_mem_cons.mpr ⟨by decide, List.forall_mem_cons.mpr ⟨by decide, ih h⟩⟩
  | case2 => exact h

/-- The second mark is no digit. -/
theorem decode_marked {cs : List Char} (hdigits : ∀ c ∈ dropMarks cs, Settings.isHexDigit c = true)
    (heven : (dropMarks cs).length % 2 = 0) :
    decode (String.ofList ('0' :: 'x' :: cs)) = .error (.invalidCharacter 0x78 1) := by
  have hascii : ∀ c ∈ '0' :: 'x' :: cs, c.toNat < 0x80 :=
    ascii_of_dropMarks fun c hc => Settings.ascii_of_isHexDigit (hdigits c hc)
  rw [length_dropMarks] at heven
  rw [decode, Bytes.toUTF8_of_ascii hascii, decodeBytes, List.length_map, List.length_cons, List.length_cons,
    if_neg (by omega)]
  rfl

end Hex

/-! ## The hash of a token -/

namespace Settings

theorem isTokenHash_iff {text : String} : isTokenHash text = true ↔
    (Hex.dropMarks text.toList).length = 40 ∧ ∀ c ∈ Hex.dropMarks text.toList, isHexDigit c = true := by
  rw [isTokenHash, Bool.and_eq_true, beq_iff_eq, List.all_eq_true]

theorem exists_parse {text : String} (h : isTokenHash text = true) (hmark : ¬ Hex.doubledMark <+: text.toList) :
    ∃ token, FixedBytes.parse 20 text = .ok token := by
  obtain ⟨hlength, hdigits⟩ := isTokenHash_iff.mp h
  obtain ⟨bs, hbs, hbytes⟩ := Hex.exists_decode hdigits (by rw [hlength])
  refine ⟨⟨bs.reverse, by rw [List.length_reverse]; omega⟩, ?_⟩
  rw [FixedBytes.parse, Hex.dropMark_eq_dropMarks hmark, hbs]
  dsimp only
  rw [FixedBytes.ofBytes, FixedBytes.ofBytes?, dif_pos (by rw [List.length_reverse]; omega)]
  rfl

def doubledMarkError (text : String) : HashError := .notHex 20 text (.invalidCharacter 0x78 1)

theorem parse_of_doubledMark {text : String} (h : isTokenHash text = true) (hmark : Hex.doubledMark <+: text.toList) :
    FixedBytes.parse 20 text = .error (doubledMarkError text) := by
  obtain ⟨hlength, hdigits⟩ := isTokenHash_iff.mp h
  obtain ⟨rest, hrest⟩ := hmark
  have hmarks : Hex.dropMarks text.toList = Hex.dropMarks rest := by
    rw [← hrest]
    rfl
  have hmarked : Hex.dropMark text.toList = '0' :: 'x' :: rest := by
    rw [← hrest]
    rfl
  rw [hmarks] at hlength hdigits
  rw [FixedBytes.parse, hmarked, Hex.decode_marked hdigits (by rw [hlength])]
  rfl

theorem isTokenHash_of_validate {s : Settings} (h : s.validate = .ok ()) : isTokenHash s.feeToken = true := by
  unfold validate at h
  split at h
  · cases h
  · split at h
    · cases h
    · split at h
      · cases h
      · next htoken => simpa using htoken

theorem validate_of_load {text : String} {s : Settings} (h : load text = .ok s) : s.validate = .ok () := by
  obtain ⟨read, -, h⟩ := Outcome.bind_eq_ok.mp h
  obtain ⟨hvalid, h⟩ := Outcome.bind_unit_eq_ok.mp h
  cases h
  exact hvalid

end Settings

/-! ## The balance -/

namespace Draft

open Rpc

variable {c : Client} (account : Hash160) (tr : Trace)

def balanceRequest (token account : Hash160) (tr : Trace) : Request :=
  { method := "invokefunction"
    params := [.str token.toText, .str "balanceOf", .arr [(Parameter.hash160 account).toJson], signersToJson []]
    id := tr.nextId }

/-- Without a hash of the token nothing is asked. -/
theorem balanceOf_of_error {e : HashError} (h : FixedBytes.parse 20 c.settings.feeToken = .error e) :
    balanceOf account c tr = (.error (.model (.ofHash e)), tr) := by
  unfold balanceOf
  rw [Session.bind_apply]
  dsimp only [Session.settings]
  rw [Session.bind_apply, h]
  rfl

/-- With one, its contract is asked, and all that can fail comes from the node. -/
theorem balanceOf_of_ok {token : Hash160} (h : FixedBytes.parse 20 c.settings.feeToken = .ok token) :
    (balanceOf account c tr).2.requests = tr.requests ++ [balanceRequest token account tr] ∧
      ∀ e, (balanceOf account c tr).1 = .error e → ∃ x, e = .rpc x := by
  have hcall : (invokeFunction token "balanceOf" [.hash160 account] []).mapError BuildError.rpc c tr =
      (((balanceRequest token account tr).outcome InvokeResult.ofJson
        (c.node tr.requests (balanceRequest token account tr))).mapError BuildError.rpc,
        { tr with requests := tr.requests ++ [balanceRequest token account tr] }) := rfl
  unfold balanceOf
  rw [Session.bind_apply]
  dsimp only [Session.settings]
  rw [Session.bind_apply, h]
  dsimp only [Except.mapError, Session.ofExcept]
  rw [Session.bind_apply, hcall]
  cases (balanceRequest token account tr).outcome InvokeResult.ofJson
    (c.node tr.requests (balanceRequest token account tr)) with
  | error x =>
    refine ⟨rfl, fun e he => ?_⟩
    cases he
    exact ⟨x, rfl⟩
  | ok result =>
    dsimp only [Except.mapError]
    cases result.stack.head?.bind StackItem.asInteger? with
    | some balance =>
      refine ⟨rfl, fun e he => ?_⟩
      cases he
    | none =>
      refine ⟨rfl, fun e he => ?_⟩
      cases he
      exact ⟨_, rfl⟩

end Draft

namespace Settings

open Rpc

/-- Settings that pass the check, or are read from a file, have a hash of the token exactly if its text does not begin
with two marks. If it does not, a balance is asked for, and all that can fail comes from the node; if it does, asking for
a balance fails without a question. -/
theorem feeToken_usable {s : Settings} (h : s.validate = .ok () ∨ ∃ text, load text = .ok s) :
    (¬ Hex.doubledMark <+: s.feeToken.toList → ∃ token, FixedBytes.parse 20 s.feeToken = .ok token ∧
      ∀ (node : Node) (account : Hash160) (tr : Trace),
        (Draft.balanceOf account ⟨s, node⟩ tr).2.requests =
          tr.requests ++ [Draft.balanceRequest token account tr] ∧
        ∀ e, (Draft.balanceOf account ⟨s, node⟩ tr).1 = .error e → ∃ x, e = .rpc x) ∧
    (Hex.doubledMark <+: s.feeToken.toList → FixedBytes.parse 20 s.feeToken = .error (doubledMarkError s.feeToken) ∧
      ∀ (node : Node) (account : Hash160) (tr : Trace), Draft.balanceOf account ⟨s, node⟩ tr =
        (.error (.model (.ofHash (doubledMarkError s.feeToken))), tr)) := by
  have hvalid : s.validate = .ok () := by
    rcases h with hvalid | ⟨text, hload⟩
    · exact hvalid
    · exact validate_of_load hload
  have htoken := isTokenHash_of_validate hvalid
  constructor
  · intro hmark
    obtain ⟨token, hparse⟩ := exists_parse htoken hmark
    exact ⟨token, hparse, fun node account tr => Draft.balanceOf_of_ok account tr hparse⟩
  · intro hmark
    have hparse := parse_of_doubledMark htoken hmark
    exact ⟨hparse, fun node account tr => Draft.balanceOf_of_error account tr hparse⟩

theorem feeToken_usable_default :
    ({} : Settings).validate = .ok () ∧ ∃ token, FixedBytes.parse 20 ({} : Settings).feeToken = .ok token := by
  have hvalid : ({} : Settings).validate = .ok () := by
    refine Outcome.eq_ok_of_toOption ?_
    decide +kernel
  obtain ⟨token, hparse, -⟩ := (feeToken_usable (.inl hvalid)).1 (by decide +kernel)
  exact ⟨hvalid, token, hparse⟩

def doubledToken : String := "0x0xd2a4cba551fd2c1bd2d4bc26e5ad1d6d1f1a0b04"

def doubledText : String := "fee_token_hash = \"0x0xd2a4cba551fd2c1bd2d4bc26e5ad1d6d1f1a0b04\"\n"

theorem load_doubled :
    load doubledText = .ok { feeToken := doubledToken } ∧
      validate { feeToken := doubledToken } = .ok () ∧
      (¬ ∃ token, FixedBytes.parse 20 doubledToken = .ok token) ∧
      ∀ (node : Node) (account : Hash160) (tr : Trace),
        Draft.balanceOf account ⟨{ feeToken := doubledToken }, node⟩ tr =
          (.error (.model (.ofHash (doubledMarkError doubledToken))), tr) := by
  have hload : load doubledText = .ok { feeToken := doubledToken } := by
    refine Outcome.eq_ok_of_toOption ?_
    decide +kernel
  have hvalid := validate_of_load hload
  have hmark : Hex.doubledMark <+: doubledToken.toList := by decide +kernel
  have hparse := parse_of_doubledMark (isTokenHash_of_validate hvalid) hmark
  refine ⟨hload, hvalid, ?_, fun node account tr => Draft.balanceOf_of_error account tr hparse⟩
  rintro ⟨token, htoken⟩
  exact nomatch htoken.symm.trans hparse

end Settings

end N3
