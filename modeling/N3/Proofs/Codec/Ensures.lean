import N3.Proofs.Codec.Reads

/-!
# What readers accept

`d.Ensures Q` says of every value that `d` gives, on any bytes at all, that `Q` holds of it and of the number of bytes
that were read for it. `d.Accepts good size longest` is the form that most readers have: the value is good, its
shortest form has `size` bytes and took no fewer, and no more than `longest` were read.

Counts may be read from a form that is longer than need be, so that a value may take more bytes than its size; the
bound on how many is what makes a count of 64 bits enough for all that can be read.
-/

set_option autoImplicit false

namespace N3

namespace Encode

/-! ## Sizes -/

theorem countSize_pos (v : Nat) : 1 ≤ countSize v := by
  unfold countSize
  split
  · decide
  · split
    · decide
    · split <;> decide

theorem length_le_totalSize {α : Type} {size : α → Nat} (as : List α) (h : ∀ a ∈ as, 1 ≤ size a) :
    as.length ≤ totalSize size as := by
  induction as with
  | nil => exact Nat.le_refl 0
  | cons a as ih =>
    obtain ⟨ha, has⟩ := List.forall_mem_cons.mp h
    rw [List.length_cons, totalSize]
    have htail := ih has
    omega

theorem le_totalSize {α : Type} {size : α → Nat} {a : α} {as : List α} (h : a ∈ as) : size a ≤ totalSize size as := by
  induction as with
  | nil => exact absurd h List.not_mem_nil
  | cons b as ih =>
    rw [totalSize]
    rcases List.mem_cons.mp h with rfl | h
    · exact Nat.le_add_right _ _
    · exact Nat.le_trans (ih h) (Nat.le_add_left _ _)

theorem countSize_le_three {v : Nat} (h : v ≤ 0xFFFF) : countSize v ≤ 3 := by
  unfold countSize
  split <;> decide

theorem countSize_le_five {v : Nat} (h : v ≤ 0xFFFFFFFF) : countSize v ≤ 5 := by
  unfold countSize
  split
  · decide
  · split <;> decide

theorem countSize_le_nine (v : Nat) : countSize v ≤ 9 := by
  unfold countSize
  split
  · decide
  · split
    · decide
    · split <;> decide

end Encode

namespace Decoder

variable {ε ε' α β : Type}

/-- Whatever `d` gives satisfies `Q`, together with the number of bytes that were read. -/
def Ensures (d : Decoder ε α) (Q : α → Nat → Prop) : Prop :=
  ∀ r a r', d r = (.ok a, r') → ∃ n, r.rest.length = n + r'.rest.length ∧ Q a n

/-- Whatever `d` gives is good, and took at least its size and at most `longest` bytes. -/
def Accepts (d : Decoder ε α) (good : α → Prop) (size : α → Nat) (longest : Nat) : Prop :=
  d.Ensures fun a n => good a ∧ size a ≤ n ∧ n ≤ longest

theorem Ensures.mono {d : Decoder ε α} {P Q : α → Nat → Prop} (hd : d.Ensures P) (h : ∀ a n, P a n → Q a n) :
    d.Ensures Q := by
  intro r a r' hr
  obtain ⟨n, hn, hP⟩ := hd r a r' hr
  exact ⟨n, hn, h a n hP⟩

/-! ## Sequencing -/

theorem ensures_pure {a : α} {Q : α → Nat → Prop} (h : Q a 0) : (pure a : Decoder ε α).Ensures Q := by
  rintro r b r' hr
  cases hr
  exact ⟨0, (Nat.zero_add _).symm, h⟩

theorem ensures_fail (e : ε) (Q : α → Nat → Prop) : (fail e : Decoder ε α).Ensures Q := by
  intro r a r' hr
  cases hr

theorem Ensures.bind {d : Decoder ε α} {f : α → Decoder ε β} {P : α → Nat → Prop} {Q : β → Nat → Prop}
    (hd : d.Ensures P) (hf : ∀ a n, P a n → (f a).Ensures fun b m => Q b (n + m)) : (d >>= f).Ensures Q := by
  intro r b r'' hr
  rcases hfirst : d r with ⟨x, r'⟩
  rw [bind_apply, hfirst] at hr
  cases x with
  | error e => cases hr
  | ok a =>
    obtain ⟨n, hn, hP⟩ := hd r a r' hfirst
    obtain ⟨m, hm, hQ⟩ := hf a n hP r' b r'' hr
    exact ⟨n + m, by omega, hQ⟩

theorem Ensures.map {d : Decoder ε α} {Q : β → Nat → Prop} {f : α → β} (hd : d.Ensures fun a n => Q (f a) n) :
    (do return f (← d) : Decoder ε β).Ensures Q :=
  hd.bind fun _ _ h => ensures_pure h

theorem ensures_ofOption {o : Option α} {e : ε} {Q : α → Nat → Prop} (h : ∀ a, o = some a → Q a 0) :
    (ofOption o e).Ensures Q := by
  intro r a r' hr
  cases o with
  | none => cases hr
  | some b =>
    cases hr
    exact ⟨0, (Nat.zero_add _).symm, h a rfl⟩

theorem ensures_ofExcept {x : Except ε α} {Q : α → Nat → Prop} (h : ∀ a, x = .ok a → Q a 0) :
    (ofExcept x).Ensures Q := by
  intro r a r' hr
  cases hr
  exact ⟨0, (Nat.zero_add _).symm, h a rfl⟩

theorem ensures_isAtEnd : (isAtEnd : Decoder ε Bool).Ensures fun _ n => n = 0 := by
  intro r a r' hr
  cases hr
  exact ⟨0, (Nat.zero_add _).symm, rfl⟩

/-! ## Bytes and words -/

theorem ensures_byte : byte.Ensures fun _ n => n = 1 := by
  intro r a r' hr
  obtain ⟨rest, pos, marked⟩ := r
  cases rest with
  | nil => cases hr
  | cons b rest =>
    cases hr
    exact ⟨1, Nat.add_comm _ _, rfl⟩

/-- The length of what was asked for and of what is left. -/
theorem length_of_length_take {n : Nat} {bs : Bytes} (h : (bs.take n).length = n) :
    bs.length = n + (bs.drop n).length := by
  rw [List.length_take] at h
  rw [List.length_drop]
  omega

theorem ensures_take (n : Nat) : (take n).Ensures fun bs m => bs.length = n ∧ m = n := by
  intro r bs r' hr
  unfold take at hr
  rw [List.splitAt_eq] at hr
  dsimp only at hr
  split at hr
  · next hlength =>
    cases hr
    exact ⟨n, length_of_length_take hlength, hlength, rfl⟩
  · cases hr

theorem ensures_fixed (n : Nat) : (fixed n).Ensures fun _ m => m = n := by
  intro r a r' hr
  unfold fixed at hr
  rw [List.splitAt_eq] at hr
  dsimp only at hr
  split at hr
  · next hlength =>
    cases hr
    exact ⟨n, length_of_length_take hlength, rfl⟩
  · cases hr

theorem ensures_natLE (n : Nat) : (natLE n).Ensures fun v m => v < Bytes.range n ∧ m = n := by
  refine Ensures.map ((ensures_take n).mono fun bs m h => ⟨?_, h.2⟩)
  rw [← h.1]
  exact Bytes.toNatLE_lt_range bs

theorem ensures_u32 : u32.Ensures fun _ m => m = 4 := Ensures.map ((ensures_natLE 4).mono fun _ _ h => h.2)

theorem ensures_u64 : u64.Ensures fun _ m => m = 8 := Ensures.map ((ensures_natLE 8).mono fun _ _ h => h.2)

theorem ensures_i64 : i64.Ensures fun _ m => m = 8 :=
  Ensures.map (Ensures.map ((ensures_take 8).mono fun _ _ h => h.2))

theorem ensures_bool : bool.Ensures fun _ m => m = 1 := by
  refine ensures_byte.bind fun b n hn => ?_
  subst hn
  split
  · exact ensures_pure rfl
  · exact ensures_pure rfl
  · exact ensures_fail _ _

/-! ## Counts and what they count -/

/-- A form of a count has no fewer bytes than the shortest. -/
theorem ensures_countValue (b : UInt8) : (countValue b).Ensures fun v n => Encode.countSize v ≤ 1 + n ∧ 1 + n ≤ 9 := by
  unfold countValue
  split
  · refine (ensures_natLE 2).mono fun v n h => ?_
    rw [h.2]
    exact ⟨Encode.countSize_le_three (Nat.le_of_lt_succ h.1), by decide⟩
  · refine (ensures_natLE 4).mono fun v n h => ?_
    rw [h.2]
    exact ⟨Encode.countSize_le_five (Nat.le_of_lt_succ h.1), by decide⟩
  · refine (ensures_natLE 8).mono fun v n h => ?_
    rw [h.2]
    exact ⟨Encode.countSize_le_nine v, by decide⟩
  · next h2 h4 h8 =>
    have hne : ∀ c : UInt8, b ≠ c → b.toNat ≠ c.toNat := fun c h heq => h (UInt8.toNat_inj.mp heq)
    have hb : b.toNat < 0xFD := by
      have hbyte : b.toNat < 256 := b.toNat_lt
      have h2 : b.toNat ≠ 0xFD := hne 0xFD h2
      have h4 : b.toNat ≠ 0xFE := hne 0xFE h4
      have h8 : b.toNat ≠ 0xFF := hne 0xFF h8
      omega
    refine ensures_pure ?_
    rw [Encode.countSize, if_pos hb]
    decide

theorem ensures_count (max : Nat) :
    (count max).Ensures fun v n => v ≤ max ∧ Encode.countSize v ≤ n ∧ n ≤ 9 := by
  rw [count_eq]
  refine ensures_byte.bind fun b n hn => (ensures_countValue b).bind fun v m hm => ?_
  unfold atMost
  split
  · exact ensures_fail _ _
  · refine ensures_pure ?_
    omega

theorem accepts_counted (max : Nat) :
    (counted max).Accepts (fun bs => bs.length ≤ max) (fun bs => Encode.countedSize bs.length) (9 + max) := by
  refine (ensures_count max).bind fun v n hv => (ensures_take v).mono fun bs m hm => ?_
  obtain ⟨rfl, rfl⟩ := hm
  refine ⟨hv.1, ?_, by omega⟩
  show Encode.countSize bs.length + bs.length ≤ n + bs.length
  omega

theorem ensures_times {item : Decoder ε α} {good : α → Prop} {size : α → Nat} {longest : Nat}
    (h : item.Accepts good size longest) (k : Nat) :
    (times k item).Ensures fun as n =>
      as.length = k ∧ (∀ a ∈ as, good a) ∧ Encode.totalSize size as ≤ n ∧ n ≤ k * longest := by
  induction k with
  | zero => exact ensures_pure ⟨rfl, fun _ ha => absurd ha List.not_mem_nil, Nat.le_refl _, Nat.zero_le _⟩
  | succ k ih =>
    refine h.bind fun a n ha => ih.bind fun as m has => ensures_pure ?_
    obtain ⟨hgood, hsize, hlong⟩ := ha
    obtain ⟨hlength, hall, htotal, hlongs⟩ := has
    refine ⟨by rw [List.length_cons, hlength], List.forall_mem_cons.mpr ⟨hgood, hall⟩, ?_, ?_⟩
    · rw [Encode.totalSize]
      omega
    · rw [Nat.succ_mul]
      omega

theorem accepts_list {item : Decoder DecodeError α} {good : α → Prop} {size : α → Nat} {longest : Nat}
    (h : item.Accepts good size longest) (max : Nat) :
    (list max item).Accepts (fun as => as.length ≤ max ∧ ∀ a ∈ as, good a) (Encode.listSize size)
      (9 + max * longest) := by
  refine (ensures_count max).bind fun v n hv => (ensures_times h v).mono fun as m hm => ?_
  obtain ⟨rfl, hall, htotal, hlongs⟩ := hm
  have hmul := Nat.mul_le_mul_right longest hv.1
  refine ⟨⟨hv.1, hall⟩, ?_, by omega⟩
  unfold Encode.listSize
  omega

/-! ## Whole values -/

theorem ensures_of_parse {d : Decoder DecodeError α} {Q : α → Nat → Prop} (hd : d.Ensures Q) {bs : Bytes} {a : α}
    (h : parse d bs = .ok a) : Q a bs.length := by
  unfold parse at h
  rcases hr : d (Reader.start bs) with ⟨x, r⟩
  rw [hr] at h
  cases x with
  | error e => cases h
  | ok b =>
    dsimp only at h
    split at h
    · next hend =>
      cases h
      obtain ⟨n, hn, hQ⟩ := hd _ _ _ hr
      have hrest : r.rest = [] := List.isEmpty_iff.mp hend
      rw [hrest, List.length_nil, Nat.add_zero] at hn
      rwa [show bs.length = n from hn]
    · cases h

end Decoder

end N3
