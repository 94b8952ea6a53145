import N3.Proofs.Codec.Reads

/-!
# Forms that end by themselves

Two values that are written in front of other bytes, and give the same bytes together, are equal, and so are the bytes
behind them. Of a form that some reader reads this is plain (`Reads.append_inj`). It also holds of forms that no
reader reads: of a list whose items have the property, however long it is (`list_append_inj`), and of the bytes behind
a count, whether or not it fits 64 bits (`count_append_inj_right`).
-/

set_option autoImplicit false

namespace N3

theorem Decoder.Reads.append_inj {ε α : Type} {d : Decoder ε α} {bs cs r s : Bytes} {a b : α} (ha : d.Reads bs a)
    (hb : d.Reads cs b) (h : bs ++ r = cs ++ s) : a = b ∧ r = s := by
  have hleft := ha r 0 ([], 0)
  rw [h, hb s 0 ([], 0)] at hleft
  simp only [Prod.mk.injEq, Except.ok.injEq, Reader.mk.injEq] at hleft
  exact ⟨hleft.1.symm, hleft.2.1.symm⟩

namespace Encode

/-- What is written so that it can be read back is written differently for each value. -/
theorem injective_of_read {α β : Type} {write : α → β} {read : β → Option α} (h : ∀ a, read (write a) = some a)
    {a b : α} (hab : write a = write b) : a = b := by
  have ha := h a
  rw [hab, h b] at ha
  exact (Option.some.inj ha).symm

/-! ## Counts -/

/-- How many bytes a form of a count has after its first byte. -/
def restSize (first : UInt8) : Nat :=
  if first = 0xFD then 2 else if first = 0xFE then 4 else if first = 0xFF then 8 else 0

theorem count_eq_cons (v : Nat) : ∃ b bs, count v = b :: bs ∧ bs.length = restSize b := by
  unfold count
  split
  · next h =>
    have h2 : UInt8.ofNat v ≠ 0xFD := Bytes.ofNat_ne_of_lt h
    have h4 : UInt8.ofNat v ≠ 0xFE := Bytes.ofNat_ne_of_lt (Nat.lt_trans h (by decide))
    have h8 : UInt8.ofNat v ≠ 0xFF := Bytes.ofNat_ne_of_lt (Nat.lt_trans h (by decide))
    refine ⟨_, _, rfl, ?_⟩
    rw [restSize, if_neg h2, if_neg h4, if_neg h8]
    rfl
  · split
    · exact ⟨_, _, rfl, Bytes.length_ofNatLE 2 v⟩
    · split
      · exact ⟨_, _, rfl, Bytes.length_ofNatLE 4 v⟩
      · exact ⟨_, _, rfl, Bytes.length_ofNatLE 8 v⟩

/-- The first byte of a count says where the form ends. -/
theorem count_append_inj_right {v w : Nat} {r s : Bytes} (h : count v ++ r = count w ++ s) : r = s := by
  obtain ⟨b, bs, hv, hbs⟩ := count_eq_cons v
  obtain ⟨c, cs, hw, hcs⟩ := count_eq_cons w
  rw [hv, hw, List.cons_append, List.cons_append] at h
  obtain ⟨rfl, hrest⟩ := List.cons.inj h
  exact (List.append_inj hrest (hbs.trans hcs.symm)).2

theorem count_append_inj {v w : Nat} {r s : Bytes} (hv : v < UInt64.size) (hw : w < UInt64.size)
    (h : count v ++ r = count w ++ s) : v = w ∧ r = s := by
  have hreads : ∀ n < UInt64.size, (Decoder.count UInt64.size).Reads (count n) n :=
    fun n hn => Decoder.reads_count hn (Nat.le_of_lt hn)
  exact (hreads v hv).append_inj (hreads w hw) h

/-! ## What they count -/

theorem counted_append_inj {bs cs r s : Bytes} (hbs : bs.length < UInt64.size) (hcs : cs.length < UInt64.size)
    (h : counted bs ++ r = counted cs ++ s) : bs = cs ∧ r = s := by
  unfold counted at h
  rw [List.append_assoc, List.append_assoc] at h
  obtain ⟨hlength, hrest⟩ := count_append_inj hbs hcs h
  exact List.append_inj hrest hlength

/-- Behind the count there is nothing else, so that it does not matter whether the count is right. -/
theorem counted_injective {bs cs : Bytes} (h : counted bs = counted cs) : bs = cs := count_append_inj_right h

theorem flatMap_append_inj {α : Type} {item : α → Bytes} {as bs : List α} {r s : Bytes}
    (hlength : as.length = bs.length)
    (hitem : ∀ a ∈ as, ∀ b ∈ bs, ∀ r s, item a ++ r = item b ++ s → a = b ∧ r = s)
    (h : as.flatMap item ++ r = bs.flatMap item ++ s) : as = bs ∧ r = s := by
  induction as generalizing bs with
  | nil =>
    obtain rfl := List.length_eq_zero_iff.mp hlength.symm
    exact ⟨rfl, h⟩
  | cons a as ih =>
    rcases bs with _ | ⟨b, bs⟩
    · cases hlength
    · rw [List.flatMap_cons, List.flatMap_cons, List.append_assoc, List.append_assoc] at h
      obtain ⟨rfl, htail⟩ := hitem a List.mem_cons_self b List.mem_cons_self _ _ h
      have hrest : ∀ c ∈ as, ∀ d ∈ bs, ∀ r s, item c ++ r = item d ++ s → c = d ∧ r = s :=
        fun c hc d hd => hitem c (List.mem_cons_of_mem a hc) d (List.mem_cons_of_mem a hd)
      obtain ⟨rfl, hend⟩ := ih (Nat.succ.inj hlength) hrest htail
      exact ⟨rfl, hend⟩

theorem list_append_inj {α : Type} {item : α → Bytes} {as bs : List α} {r s : Bytes}
    (has : as.length < UInt64.size) (hbs : bs.length < UInt64.size)
    (hitem : ∀ a ∈ as, ∀ b ∈ bs, ∀ r s, item a ++ r = item b ++ s → a = b ∧ r = s)
    (h : list item as ++ r = list item bs ++ s) : as = bs ∧ r = s := by
  unfold list at h
  rw [List.append_assoc, List.append_assoc] at h
  obtain ⟨hlength, hrest⟩ := count_append_inj has hbs h
  exact flatMap_append_inj hlength hitem hrest

end Encode

end N3
