import N3.Codec.Reader
import N3.Codec.Writer
import N3.Proofs.Bytes

/-!
# Reading what was written

`d.Reads bs a` says that `d` takes exactly the bytes `bs` from the front of whatever follows them and gives `a`;
`d.Refuses bs` says that it fails on all bytes that begin with `bs`. Both go through sequencing, so that a reader of
a whole value is followed one part at a time, as its writer puts the parts together.

* `Reads.bind`, `Reads.bind_refuses`, `Refuses.bind`: sequencing;
* `reads_count`, `refuses_count`: a count is read if it is no more than the reader allows, and refused otherwise;
* `reads_list`, `refuses_list`: a list is read if its length is allowed and each item is read, and refused otherwise.

A count takes 64 bits. That a count fits them is a hypothesis here (`UInt64.size`), since a list of the model may be
longer than any that a machine holds.
-/

set_option autoImplicit false

namespace N3.Decoder

variable {ε ε' α β : Type}

/-- From the front of any bytes, `d` takes exactly `bs` and gives `a`. -/
def Reads (d : Decoder ε α) (bs : Bytes) (a : α) : Prop :=
  ∀ rest pos marked, d ⟨bs ++ rest, pos, marked⟩ = (.ok a, ⟨rest, pos + bs.length, marked⟩)

/-- Whatever follows `bs`, `d` fails. -/
def Refuses (d : Decoder ε α) (bs : Bytes) : Prop :=
  ∀ rest pos marked, ∃ e, (d ⟨bs ++ rest, pos, marked⟩).1 = .error e

/-! ## Sequencing -/

theorem bind_apply (d : Decoder ε α) (f : α → Decoder ε β) (r : Reader) :
    (d >>= f) r = match d r with
      | (.ok a, r') => f a r'
      | (.error e, r') => (.error e, r') := rfl

theorem bind_of_ok {d : Decoder ε α} {f : α → Decoder ε β} {r r' : Reader} {a : α} (h : d r = (.ok a, r')) :
    (d >>= f) r = f a r' := by
  rw [bind_apply, h]

theorem bind_eq_of_error {d : Decoder ε α} {f : α → Decoder ε β} {r r' : Reader} {e : ε} (h : d r = (.error e, r')) :
    (d >>= f) r = (.error e, r') := by
  rw [bind_apply, h]

theorem bind_of_error {d : Decoder ε α} {f : α → Decoder ε β} {r : Reader} {e : ε} (h : (d r).1 = .error e) :
    ((d >>= f) r).1 = .error e := by
  rw [bind_apply]
  rcases hd : d r with ⟨x, r'⟩
  rw [hd] at h
  subst h
  rfl

theorem bind_bind {γ : Type} (d : Decoder ε α) (f : α → Decoder ε β) (g : β → Decoder ε γ) :
    (d >>= f) >>= g = d >>= fun a => f a >>= g := by
  funext r
  rw [bind_apply, bind_apply, bind_apply]
  rcases d r with ⟨_ | a, r'⟩
  · rfl
  · rfl

theorem reads_pure (a : α) : (pure a : Decoder ε α).Reads [] a := fun _ _ _ => rfl

theorem Reads.bind {d : Decoder ε α} {f : α → Decoder ε β} {bs cs : Bytes} {a : α} {b : β} (hd : d.Reads bs a)
    (hf : (f a).Reads cs b) : (d >>= f).Reads (bs ++ cs) b := by
  intro rest pos marked
  rw [List.append_assoc, bind_of_ok (hd (cs ++ rest) pos marked), hf, List.length_append, Nat.add_assoc]

theorem Reads.map {d : Decoder ε α} {bs : Bytes} {a : α} (hd : d.Reads bs a) (f : α → β) :
    (do return f (← d) : Decoder ε β).Reads bs (f a) := by
  have h := hd.bind (f := fun x => pure (f x)) (reads_pure (f a))
  rwa [List.append_nil] at h

theorem Refuses.append {d : Decoder ε α} {bs : Bytes} (hd : d.Refuses bs) (cs : Bytes) : d.Refuses (bs ++ cs) := by
  intro rest pos marked
  rw [List.append_assoc]
  exact hd (cs ++ rest) pos marked

theorem Refuses.bind {d : Decoder ε α} {bs : Bytes} (hd : d.Refuses bs) (f : α → Decoder ε β) :
    (d >>= f).Refuses bs := by
  intro rest pos marked
  obtain ⟨e, he⟩ := hd rest pos marked
  exact ⟨e, bind_of_error he⟩

theorem Reads.bind_refuses {d : Decoder ε α} {f : α → Decoder ε β} {bs cs : Bytes} {a : α} (hd : d.Reads bs a)
    (hf : (f a).Refuses cs) : (d >>= f).Refuses (bs ++ cs) := by
  intro rest pos marked
  rw [List.append_assoc, bind_of_ok (hd (cs ++ rest) pos marked)]
  exact hf rest _ marked

theorem refuses_fail (e : ε) : (fail e : Decoder ε α).Refuses [] := fun _ _ _ => ⟨e, rfl⟩

theorem reads_ofOption {o : Option α} {a : α} (h : o = some a) (e : ε) : (ofOption o e).Reads [] a := by
  subst h
  exact fun _ _ _ => rfl

theorem reads_ofExcept {x : Except ε α} {a : α} (h : x = .ok a) : (ofExcept x).Reads [] a := by
  subst h
  exact fun _ _ _ => rfl

theorem Reads.mapError {d : Decoder ε α} {f : ε → ε'} {bs : Bytes} {a : α} (hd : d.Reads bs a) :
    (d.mapError f).Reads bs a := by
  intro rest pos marked
  unfold Decoder.mapError
  rw [hd]

/-- A reader that asks where it is. -/
theorem reads_position_bind {f : Nat → Decoder ε α} {bs : Bytes} {a : α} (h : ∀ n, (f n).Reads bs a) :
    (position >>= f).Reads bs a :=
  fun rest pos marked => h pos rest pos marked

/-- A reader that asks whether bytes are left goes on as if there are, on bytes that are not empty. -/
theorem reads_isAtEnd_bind {f : Bool → Decoder ε α} {bs : Bytes} {a : α} (hne : bs ≠ []) (h : (f false).Reads bs a) :
    (isAtEnd >>= f).Reads bs a := by
  intro rest pos marked
  rw [← h rest pos marked]
  cases bs with
  | nil => exact absurd rfl hne
  | cons b bs => rfl

theorem refuses_isAtEnd_bind {f : Bool → Decoder ε α} {bs : Bytes} (hne : bs ≠ []) (h : (f false).Refuses bs) :
    (isAtEnd >>= f).Refuses bs := by
  intro rest pos marked
  obtain ⟨e, he⟩ := h rest pos marked
  refine ⟨e, ?_⟩
  rw [← he]
  cases bs with
  | nil => exact absurd rfl hne
  | cons b bs => rfl

/-! ## Whole values -/

theorem parse_of_reads {d : Decoder DecodeError α} {bs : Bytes} {a : α} (h : d.Reads bs a) : parse d bs = .ok a := by
  have h' := h [] 0 (bs, 0)
  rw [List.append_nil] at h'
  unfold parse Reader.start
  rw [h']
  rfl

theorem parse_of_refuses {d : Decoder DecodeError α} {bs : Bytes} (h : d.Refuses bs) : ∃ e, parse d bs = .error e := by
  obtain ⟨e, he⟩ := h [] 0 (bs, 0)
  rw [List.append_nil] at he
  unfold parse Reader.start
  rcases hd : d ⟨bs, 0, bs, 0⟩ with ⟨x, r⟩
  rw [hd] at he
  subst he
  exact ⟨e, rfl⟩

/-! ## Bytes and words -/

theorem reads_byte (b : UInt8) : byte.Reads [b] b := fun _ _ _ => rfl

theorem reads_take (bs : Bytes) : (take bs.length).Reads bs bs := by
  intro rest pos marked
  simp [take]

theorem reads_fixed {n : Nat} (a : FixedBytes n) : (fixed n).Reads a.bytes a := by
  intro rest pos marked
  obtain ⟨bs, rfl⟩ := a
  simp [fixed]

theorem reads_natLE {n v : Nat} (h : v < Bytes.range n) : (natLE n).Reads (Bytes.ofNatLE n v) v := by
  have ht := (reads_take (Bytes.ofNatLE n v)).map Bytes.toNatLE
  rwa [Bytes.toNatLE_ofNatLE_of_lt h, Bytes.length_ofNatLE] at ht

theorem reads_intLE {n : Nat} {v : Int} (h : Bytes.fits n v = true) : (intLE n).Reads (Bytes.ofIntLE n v) v := by
  have ht := (reads_take (Bytes.ofIntLE n v)).map Bytes.toIntLE
  rwa [Bytes.toIntLE_ofIntLE h, Bytes.length_ofIntLE] at ht

theorem reads_u16 (v : UInt16) : u16.Reads (Encode.u16 v) v := by
  have h := (reads_natLE (n := 2) (v := v.toNat) v.toNat_lt).map UInt16.ofNat
  rwa [UInt16.ofNat_toNat] at h

theorem reads_u32 (v : UInt32) : u32.Reads (Encode.u32 v) v := by
  have h := (reads_natLE (n := 4) (v := v.toNat) v.toNat_lt).map UInt32.ofNat
  rwa [UInt32.ofNat_toNat] at h

theorem reads_u64 (v : UInt64) : u64.Reads (Encode.u64 v) v := by
  have h := (reads_natLE (n := 8) (v := v.toNat) v.toNat_lt).map UInt64.ofNat
  rwa [UInt64.ofNat_toNat] at h

theorem reads_i32 (v : Int32) : i32.Reads (Encode.i32 v) v := by
  have h := (reads_intLE (Bytes.fits_toInt_int32 v)).map Int32.ofInt
  rwa [Int32.ofInt_toInt] at h

theorem reads_i64 (v : Int64) : i64.Reads (Encode.i64 v) v := by
  have h := (reads_intLE (Bytes.fits_toInt v)).map Int64.ofInt
  rwa [Int64.ofInt_toInt] at h

theorem reads_bool (v : Bool) : bool.Reads (Encode.bool v) v := by
  intro rest pos marked
  cases v <;> rfl

/-! ## Counts and what they count -/

/-- What a count says, given its first byte. -/
def countValue (first : UInt8) : Decoder DecodeError Nat :=
  match first with
  | 0xFD => natLE 2
  | 0xFE => natLE 4
  | 0xFF => natLE 8
  | b => pure b.toNat

def atMost (max value : Nat) : Decoder DecodeError Nat :=
  if max < value then fail (.format (.countAbove value max)) else pure value

theorem countValue_eq_pure {b : UInt8} (h2 : b ≠ 0xFD) (h4 : b ≠ 0xFE) (h8 : b ≠ 0xFF) :
    countValue b = pure b.toNat := by
  unfold countValue
  split
  · exact absurd rfl h2
  · exact absurd rfl h4
  · exact absurd rfl h8
  · rfl

theorem count_eq (max : Nat) : count max = (do let b ← byte; let value ← countValue b; atMost max value) := by
  unfold count
  congr 1
  funext b
  split
  · rfl
  · rfl
  · rfl
  · next h2 h4 h8 =>
    rw [countValue_eq_pure h2 h4 h8]
    rfl

/-- The value of a count is read from the form that it takes, whatever the reader allows. -/
theorem reads_value_of_count {v : Nat} (hv : v < UInt64.size) :
    ∃ b bs, Encode.count v = b :: bs ∧ (countValue b).Reads bs v := by
  unfold Encode.count
  split
  · next h =>
    have hb : (UInt8.ofNat v).toNat = v := UInt8.toNat_ofNat_of_lt' (Nat.lt_trans h (by decide))
    have h2 : UInt8.ofNat v ≠ 0xFD := Bytes.ofNat_ne_of_lt h
    have h4 : UInt8.ofNat v ≠ 0xFE := Bytes.ofNat_ne_of_lt (Nat.lt_trans h (by decide))
    have h8 : UInt8.ofNat v ≠ 0xFF := Bytes.ofNat_ne_of_lt (Nat.lt_trans h (by decide))
    refine ⟨UInt8.ofNat v, [], rfl, ?_⟩
    rw [countValue_eq_pure h2 h4 h8, hb]
    exact reads_pure v
  · split
    · exact ⟨0xFD, _, rfl, reads_natLE (by simp [Bytes.range]; omega)⟩
    · split
      · exact ⟨0xFE, _, rfl, reads_natLE (by simp [Bytes.range]; omega)⟩
      · exact ⟨0xFF, _, rfl, reads_natLE hv⟩

theorem reads_count {max v : Nat} (hv : v < UInt64.size) (h : v ≤ max) : (count max).Reads (Encode.count v) v := by
  obtain ⟨b, bs, hform, hvalue⟩ := reads_value_of_count hv
  have hmax : (atMost max v).Reads [] v := by
    rw [atMost, if_neg (by omega)]
    exact reads_pure v
  have hread := (reads_byte b).bind (f := fun b => countValue b >>= atMost max) (hvalue.bind hmax)
  rw [hform, count_eq]
  rwa [List.append_nil] at hread

theorem refuses_count {max v : Nat} (hv : v < UInt64.size) (h : max < v) : (count max).Refuses (Encode.count v) := by
  obtain ⟨b, bs, hform, hvalue⟩ := reads_value_of_count hv
  have hmax : (atMost max v).Refuses [] := by
    rw [atMost, if_pos h]
    exact refuses_fail _
  have hrefuse := (reads_byte b).bind_refuses (f := fun b => countValue b >>= atMost max) (hvalue.bind_refuses hmax)
  rw [hform, count_eq]
  rwa [List.append_nil] at hrefuse

theorem reads_counted {max : Nat} {bs : Bytes} (hv : bs.length < UInt64.size) (h : bs.length ≤ max) :
    (counted max).Reads (Encode.counted bs) bs :=
  (reads_count hv h).bind (reads_take bs)

theorem refuses_counted {max : Nat} {bs : Bytes} (hv : bs.length < UInt64.size) (h : max < bs.length) :
    (counted max).Refuses (Encode.counted bs) :=
  ((refuses_count hv h).bind take).append bs

theorem reads_times {item : Decoder ε α} {encode : α → Bytes} (as : List α) (h : ∀ a ∈ as, item.Reads (encode a) a) :
    (times as.length item).Reads (as.flatMap encode) as := by
  induction as with
  | nil => exact reads_pure []
  | cons a as ih =>
    have htail := (ih fun b hb => h b (List.mem_cons_of_mem a hb)).map (a :: ·)
    exact (h a List.mem_cons_self).bind (f := fun a => do return a :: (← times as.length item)) htail

/-- The first item that is refused ends the reading; those before it are read. -/
theorem refuses_times {item : Decoder ε α} {encode : α → Bytes} (as : List α)
    (h : ∀ a ∈ as, item.Reads (encode a) a ∨ item.Refuses (encode a)) (hbad : ∃ a ∈ as, item.Refuses (encode a)) :
    (times as.length item).Refuses (as.flatMap encode) := by
  induction as with
  | nil =>
    obtain ⟨a, ha, _⟩ := hbad
    exact absurd ha List.not_mem_nil
  | cons a as ih =>
    rw [List.flatMap_cons]
    rcases h a List.mem_cons_self with hread | hrefuse
    · obtain ⟨b, hb, hrefuse⟩ := hbad
      rcases List.mem_cons.mp hb with rfl | hb
      · exact (hrefuse.append _).bind _
      · have htail := ih (fun c hc => h c (List.mem_cons_of_mem a hc)) ⟨b, hb, hrefuse⟩
        exact hread.bind_refuses (f := fun a => do return a :: (← times as.length item)) (htail.bind _)
    · exact (hrefuse.append _).bind _

theorem reads_list {max : Nat} {item : Decoder DecodeError α} {encode : α → Bytes} {as : List α}
    (hv : as.length < UInt64.size) (hmax : as.length ≤ max) (h : ∀ a ∈ as, item.Reads (encode a) a) :
    (list max item).Reads (Encode.list encode as) as :=
  (reads_count hv hmax).bind (reads_times as h)

theorem refuses_list_of_length {max : Nat} {item : Decoder DecodeError α} {encode : α → Bytes} {as : List α}
    (hv : as.length < UInt64.size) (hmax : max < as.length) : (list max item).Refuses (Encode.list encode as) :=
  ((refuses_count hv hmax).bind _).append _

/-- A list is refused if it is too long, and otherwise as soon as one of its items is refused. -/
theorem refuses_list {max : Nat} {item : Decoder DecodeError α} {encode : α → Bytes} {good : α → Prop} {as : List α}
    (hv : as.length < UInt64.size) (hread : ∀ a ∈ as, good a → item.Reads (encode a) a)
    (hrefuse : ∀ a ∈ as, ¬ good a → item.Refuses (encode a)) (h : ¬ (as.length ≤ max ∧ ∀ a ∈ as, good a)) :
    (list max item).Refuses (Encode.list encode as) := by
  by_cases hmax : as.length ≤ max
  · obtain ⟨b, hb⟩ := Classical.not_forall.mp fun hall => h ⟨hmax, hall⟩
    obtain ⟨hmem, hbad⟩ := Classical.not_imp.mp hb
    refine (reads_count hv hmax).bind_refuses (refuses_times as (fun a ha => ?_) ⟨b, hmem, hrefuse b hmem hbad⟩)
    by_cases hgood : good a
    · exact .inl (hread a ha hgood)
    · exact .inr (hrefuse a ha hgood)
  · exact refuses_list_of_length hv (Nat.not_le.mp hmax)

end N3.Decoder
