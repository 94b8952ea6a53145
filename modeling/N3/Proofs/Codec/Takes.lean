import N3.Proofs.Codec.Reads

/-!
# What was read

`d.Takes R` says of every value that `d` gives, on any bytes at all, that `R` relates it to the bytes that were taken
for it from the front. Together with `Reads` it says which bytes a reader accepts: those that it reads, and no others
(`Takes.eq_ok_iff`).
-/

set_option autoImplicit false

namespace N3

/-- The reader that has taken `k` bytes, and still has its mark before the first. -/
def Reader.after (bs : Bytes) (k : Nat) : Reader := ⟨bs.drop k, k, bs, 0⟩

namespace Decoder

variable {ε ε' α β : Type}

/-- Whatever `d` gives is related to the bytes that it took. -/
def Takes (d : Decoder ε α) (R : Bytes → α → Prop) : Prop :=
  ∀ r a r', d r = (.ok a, r') → ∃ bs, r.rest = bs ++ r'.rest ∧ R bs a

theorem Takes.mono {d : Decoder ε α} {P R : Bytes → α → Prop} (hd : d.Takes P) (h : ∀ bs a, P bs a → R bs a) :
    d.Takes R := by
  intro r a r' hr
  obtain ⟨bs, hbs, hP⟩ := hd r a r' hr
  exact ⟨bs, hbs, h bs a hP⟩

/-- A reader that takes nothing but what it reads gives a value exactly if the front of the bytes goes with it. -/
theorem Takes.eq_ok_iff {d : Decoder ε α} {R : Bytes → α → Prop} (htakes : d.Takes R)
    (hreads : ∀ bs a, R bs a → d.Reads bs a) {s : Bytes} {a : α} {r : Reader} :
    d (Reader.start s) = (.ok a, r) ↔ ∃ k ≤ s.length, r = Reader.after s k ∧ R (s.take k) a := by
  constructor
  · intro h
    obtain ⟨rest, pos, marked⟩ := r
    obtain ⟨bs, hs, hR⟩ := htakes _ _ _ h
    obtain rfl : s = bs ++ rest := hs
    have hread := h.symm.trans (hreads bs a hR rest 0 (bs ++ rest, 0))
    obtain ⟨rfl, rfl⟩ : pos = bs.length ∧ marked = (bs ++ rest, 0) := by simpa using hread
    refine ⟨bs.length, ?_, ?_, ?_⟩
    · rw [List.length_append]
      exact Nat.le_add_right _ _
    · rw [Reader.after, List.drop_left]
    · rwa [List.take_left]
  · rintro ⟨k, hk, rfl, hR⟩
    have hread := hreads _ a hR (s.drop k) 0 (s, 0)
    rw [List.take_append_drop, List.length_take, Nat.min_eq_left hk, Nat.zero_add] at hread
    exact hread

/-! ## Sequencing -/

theorem takes_pure {a : α} {R : Bytes → α → Prop} (h : R [] a) : (pure a : Decoder ε α).Takes R := by
  intro r b r' hr
  cases hr
  exact ⟨[], rfl, h⟩

theorem takes_fail (e : ε) (R : Bytes → α → Prop) : (fail e : Decoder ε α).Takes R := by
  intro r a r' hr
  cases hr

theorem Takes.bind {d : Decoder ε α} {f : α → Decoder ε β} {P : Bytes → α → Prop} {R : Bytes → β → Prop}
    (hd : d.Takes P) (hf : ∀ bs a, P bs a → (f a).Takes fun cs b => R (bs ++ cs) b) : (d >>= f).Takes R := by
  intro r b r'' hr
  rcases hfirst : d r with ⟨x, r'⟩
  rw [bind_apply, hfirst] at hr
  cases x with
  | error e => cases hr
  | ok a =>
    obtain ⟨bs, hbs, hP⟩ := hd r a r' hfirst
    obtain ⟨cs, hcs, hR⟩ := hf bs a hP r' b r'' hr
    exact ⟨bs ++ cs, by rw [hbs, hcs, List.append_assoc], hR⟩

theorem Takes.map {d : Decoder ε α} {f : α → β} {R : Bytes → β → Prop} (hd : d.Takes fun bs a => R bs (f a)) :
    (do return f (← d) : Decoder ε β).Takes R := by
  refine hd.bind fun bs a h => takes_pure ?_
  rwa [List.append_nil]

theorem Takes.mapError {d : Decoder ε α} {f : ε → ε'} {R : Bytes → α → Prop} (hd : d.Takes R) :
    (d.mapError f).Takes R := by
  intro r a r' hr
  unfold Decoder.mapError at hr
  rcases hfirst : d r with ⟨x, s⟩
  rw [hfirst] at hr
  cases x with
  | error e => cases hr
  | ok b =>
    cases hr
    exact hd r _ _ hfirst

theorem takes_position_bind {f : Nat → Decoder ε α} {R : Bytes → α → Prop} (h : ∀ n, (f n).Takes R) :
    (position >>= f).Takes R :=
  fun r a r' hr => h r.pos r a r' hr

theorem takes_ofOption {o : Option α} {e : ε} {R : Bytes → α → Prop} (h : ∀ a, o = some a → R [] a) :
    (ofOption o e).Takes R := by
  intro r a r' hr
  cases o with
  | none => cases hr
  | some b =>
    cases hr
    exact ⟨[], rfl, h _ rfl⟩

/-! ## Bytes and words -/

theorem takes_byte : byte.Takes fun bs b => bs = [b] := by
  intro r a r' hr
  obtain ⟨rest, pos, marked⟩ := r
  cases rest with
  | nil => cases hr
  | cons b rest =>
    cases hr
    exact ⟨[_], rfl, rfl⟩

theorem takes_take (n : Nat) : (take n).Takes fun bs a => bs = a ∧ a.length = n := by
  intro r a r' hr
  unfold take at hr
  rw [List.splitAt_eq] at hr
  dsimp only at hr
  split at hr
  · next hlength =>
    cases hr
    exact ⟨_, (List.take_append_drop n r.rest).symm, rfl, hlength⟩
  · cases hr

theorem takes_natLE (n : Nat) : (natLE n).Takes fun bs v => bs.length = n ∧ v = Bytes.toNatLE bs := by
  refine ((takes_take n).bind fun bs a h => takes_pure ?_)
  obtain ⟨rfl, hlength⟩ := h
  rw [List.append_nil]
  exact ⟨hlength, rfl⟩

theorem takes_intLE (n : Nat) : (intLE n).Takes fun bs v => bs.length = n ∧ v = Bytes.toIntLE bs := by
  refine ((takes_take n).bind fun bs a h => takes_pure ?_)
  obtain ⟨rfl, hlength⟩ := h
  rw [List.append_nil]
  exact ⟨hlength, rfl⟩

end Decoder

end N3
