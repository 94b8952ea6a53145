import N3.Parameter
import N3.Proofs.Vm.Machine

/-!
# What a parameter pushes

The instructions of a parameter leave one item on the stack, which stands for the parameter's value (`pushes_value`). There
are none if some part of the parameter cannot be pushed (`fault_push`). `push_exact` puts both together for a script that
the parameter is added to.

An emission that `Leaves` items is a run of whole instructions that puts them on any stack. The items of an array are
pushed last first, so that they are popped in order, and a map's entries come out in reverse.
-/

set_option autoImplicit false

namespace N3

open Machine (Value Item Object Shows ShowsItems ShowsPairs)

/-! ## Constants -/

namespace Push

theorem exists_data {bs : Bytes} (h : bs.length < 0x100000000) :
    ∃ i : Instruction, i.IsWhole ∧ Machine.constant? i = some (.bytes bs) ∧ data bs = i.encode := by
  unfold data
  dsimp only
  split
  · next hshort => exact ⟨⟨.PUSHDATA1, bs⟩, hshort, rfl, rfl⟩
  · split
    · next hmiddle => exact ⟨⟨.PUSHDATA2, bs⟩, hmiddle, rfl, rfl⟩
    · exact ⟨⟨.PUSHDATA4, bs⟩, h, rfl, rfl⟩

end Push

/-! ## Emissions that leave items on the stack -/

namespace Emission

/-- The emission is a run of whole instructions that puts items on any stack, with new objects in the memory, and `R`
holds of the memory and the items. -/
def Leaves (e : Emission) (R : List Object → List Item → Prop) : Prop :=
  ∃ is, (∀ i ∈ is, Instruction.IsWhole i) ∧ e = ofBytes (is.flatMap Instruction.encode) ∧
    ∀ contracts (s : Machine.State), ∃ items fresh,
      Machine.run contracts is s = some ⟨items ++ s.stack, s.memory ++ fresh⟩ ∧ R (s.memory ++ fresh) items

/-- The emission leaves one item, which stands for the value. -/
def Pushes (e : Emission) (v : Value) : Prop := e.Leaves fun memory items => ∃ i, items = [i] ∧ Shows memory v i

section

variable {R S : List Object → List Item → Prop} {a b : Emission}

theorem leaves_nil (h : ∀ memory, R memory []) : (ofBytes []).Leaves R :=
  ⟨[], by simp, rfl, fun _ s => ⟨[], [], by simp [Machine.run], h _⟩⟩

/-- What is run after an emission may take the items that it left. -/
theorem Leaves.andThen {is : List Instruction} (ha : a.Leaves R) (his : ∀ i ∈ is, i.IsWhole)
    (h : ∀ contracts memory items stack, R memory items → ∃ items' fresh,
      Machine.run contracts is ⟨items ++ stack, memory⟩ = some ⟨items' ++ stack, memory ++ fresh⟩ ∧
        S (memory ++ fresh) items') : (a ++ ofBytes (is.flatMap Instruction.encode)).Leaves S := by
  obtain ⟨js, hjs, rfl, hrun⟩ := ha
  refine ⟨js ++ is, List.forall_mem_append.mpr ⟨hjs, his⟩, ?_, ?_⟩
  · rw [List.flatMap_append]
    rfl
  · intro contracts s
    obtain ⟨items, fresh, hjs, hR⟩ := hrun contracts s
    obtain ⟨items', fresh', his, hS⟩ := h contracts _ items s.stack hR
    rw [List.append_assoc] at his hS
    exact ⟨items', fresh ++ fresh', by rw [Machine.run_append, hjs, Option.bind_some, his], hS⟩

theorem Leaves.append (ha : a.Leaves R) (hb : b.Leaves S)
    (hR : ∀ memory fresh items, R memory items → R (memory ++ fresh) items) :
    (a ++ b).Leaves fun memory items => ∃ xs ys, items = ys ++ xs ∧ R memory xs ∧ S memory ys := by
  obtain ⟨is, his, rfl, hrun⟩ := hb
  refine ha.andThen his ?_
  intro contracts memory items stack h
  obtain ⟨items', fresh, hrun, hS⟩ := hrun contracts ⟨items ++ stack, memory⟩
  refine ⟨items' ++ items, fresh, ?_, items, items', rfl, hR _ _ _ h, hS⟩
  rw [hrun, List.append_assoc]

theorem Leaves.imp (ha : a.Leaves R) (h : ∀ memory items, R memory items → S memory items) : a.Leaves S := by
  obtain ⟨is, his, rfl, hrun⟩ := ha
  refine ⟨is, his, rfl, ?_⟩
  intro contracts s
  obtain ⟨items, fresh, hrun, hR⟩ := hrun contracts s
  exact ⟨items, fresh, hrun, h _ _ hR⟩

end

/-- An instruction that pushes a constant leaves it. -/
theorem pushes_constant {i : Instruction} (hi : i.IsWhole) {c : Item} (hc : Machine.constant? i = some c) {v : Value}
    (hv : ∀ memory, Shows memory v c) : (ofBytes i.encode).Pushes v := by
  refine ⟨[i], by simpa using hi, by simp, ?_⟩
  intro contracts s
  refine ⟨[c], [], ?_, c, rfl, hv _⟩
  rw [Machine.run, Machine.execute, hc]
  simp [Machine.run]

theorem pushes_data {bs : Bytes} (h : bs.length < 0x100000000) : (ofBytes (Push.data bs)).Pushes (.bytes bs) := by
  obtain ⟨i, hi, hconstant, hdata⟩ := Push.exists_data h
  rw [hdata]
  exact pushes_constant hi hconstant fun _ => .bytes bs

theorem pushes_bool (v : Bool) : (ofBytes (Push.bool v)).Pushes (.boolean v) := by
  cases v with
  | true => exact pushes_constant (i := ⟨.PUSHT, []⟩) (by decide) rfl fun _ => .boolean true
  | false => exact pushes_constant (i := ⟨.PUSHF, []⟩) (by decide) rfl fun _ => .boolean false

theorem pushes_integer {v : Int} (h : -2 ^ 255 ≤ v ∧ v < 2 ^ 255) : (Push.integer v).Pushes (.integer v) := by
  obtain ⟨bs, hbs⟩ := Option.isSome_iff_exists.mp (Push.integer?_isSome_iff.mpr h)
  obtain ⟨i, hi, hv, rfl⟩ := Push.exists_integer hbs
  rw [Push.integer, hbs]
  exact pushes_constant hi (Machine.constant?_of_integer? hv) fun _ => .integer v

theorem pushes_sequence {es : List Emission} {vs : List Value} (h : List.Forall₂ Pushes es vs) :
    (sequence es).Leaves fun memory items => ShowsItems memory vs items.reverse := by
  induction h with
  | nil => exact leaves_nil fun _ => .nil
  | cons hhead _ ih =>
    refine (hhead.append ih ?_).imp ?_
    · rintro memory fresh items ⟨i, rfl, hi⟩
      exact ⟨i, rfl, hi.mono (List.prefix_append _ _)⟩
    · rintro memory items ⟨xs, ys, rfl, ⟨i, rfl, hi⟩, hys⟩
      rw [List.reverse_append]
      exact .cons hi hys

theorem pushes_array {es : List Emission} {vs : List Value} (h : List.Forall₂ Pushes es vs)
    (hlength : es.length < 0x8000000000000000) : (Push.array es).Pushes (.array vs) := by
  unfold Push.array
  split
  · next hempty =>
    obtain rfl := List.isEmpty_iff.mp hempty
    cases h
    refine ⟨[⟨.NEWARRAY0, []⟩], by decide, rfl, ?_⟩
    intro contracts s
    refine ⟨[.reference s.memory.length], [.array []], rfl, _, rfl, .array ?_ .nil⟩
    simp
  · obtain ⟨count, hwhole, hcount, hbytes⟩ := Push.exists_count (show OpCode.PACK.operand = .none from rfl) hlength
    rw [hbytes]
    refine (pushes_sequence (List.forall₂_reverse_iff.mpr h)).andThen hwhole ?_
    · intro contracts memory items stack hitems
      have hall := List.forall₂_reverse_iff.mp (Machine.showsItems_iff.mp hitems)
      rw [h.length_eq, hall.length_eq] at hcount
      have hplace : (memory ++ [Object.array items])[memory.length]? = some (.array items) := by simp
      refine ⟨[.reference memory.length], [.array items], Machine.run_pack stack memory hcount, _, rfl, ?_⟩
      exact .array hplace ((Machine.showsItems_iff.mpr hall).mono (List.prefix_append _ _))

theorem pushes_entries {es : List (Emission × Emission)} {vs : List (Value × Value)}
    (h : List.Forall₂ (fun e v => e.1.Pushes v.1 ∧ e.2.Pushes v.2) es vs) :
    (sequence (es.map fun (key, value) => value ++ key)).Leaves fun memory items =>
      ∃ pairs, items = pairs.reverse.flatMap (fun p => [p.1, p.2]) ∧ ShowsPairs memory vs pairs := by
  have hmono : ∀ (v : Value) memory fresh items, (∃ i, items = [i] ∧ Shows memory v i) →
      ∃ i, items = [i] ∧ Shows (memory ++ fresh) v i := by
    rintro v memory fresh items ⟨i, rfl, hi⟩
    exact ⟨i, rfl, hi.mono (List.prefix_append _ _)⟩
  induction h with
  | nil => exact leaves_nil fun _ => ⟨[], rfl, .nil⟩
  | @cons e v es vs hhead _ ih =>
    obtain ⟨hkey, hvalue⟩ := hhead
    refine ((hvalue.append hkey (hmono v.2)).append ih ?_).imp ?_
    · rintro memory fresh items ⟨xs, ys, rfl, hxs, hys⟩
      exact ⟨xs, ys, rfl, hmono _ _ _ _ hxs, hmono _ _ _ _ hys⟩
    · rintro memory items ⟨xs, ys, rfl, ⟨_, _, rfl, ⟨j, rfl, hj⟩, ⟨i, rfl, hi⟩⟩, pairs, rfl, hpairs⟩
      exact ⟨(i, j) :: pairs, by simp, .cons hi hj hpairs⟩

theorem pushes_map {es : List (Emission × Emission)} {vs : List (Value × Value)}
    (h : List.Forall₂ (fun e v => e.1.Pushes v.1 ∧ e.2.Pushes v.2) es vs)
    (hlength : es.length < 0x8000000000000000) : (Push.map es).Pushes (.map vs) := by
  obtain ⟨count, hwhole, hcount, hbytes⟩ := Push.exists_count (show OpCode.PACKMAP.operand = .none from rfl) hlength
  unfold Push.map
  rw [hbytes]
  refine (pushes_entries h).andThen hwhole ?_
  · rintro contracts memory items stack ⟨pairs, rfl, hpairs⟩
    rw [h.length_eq, ← hpairs.length_eq, ← List.length_reverse] at hcount
    have hplace : (memory ++ [Object.map pairs.reverse])[memory.length]? = some (.map pairs.reverse) := by simp
    refine ⟨[.reference memory.length], [.map pairs.reverse], Machine.run_packMap stack memory hcount, _, rfl, ?_⟩
    exact .map hplace (List.reverse_perm pairs).symm (hpairs.mono (List.prefix_append _ _))

/-! ## Emissions that stop short -/

theorem fault_append (a b : Emission) : (a ++ b).fault = none ↔ a.fault = none ∧ b.fault = none := by
  show (andThen a b).fault = none ↔ _
  unfold andThen
  cases ha : a.fault <;> simp [ha]

theorem fault_sequence (es : List Emission) : (sequence es).fault = none ↔ ∀ e ∈ es, e.fault = none := by
  induction es with
  | nil => simp [sequence, ofBytes]
  | cons e es ih => rw [sequence, fault_append, ih, List.forall_mem_cons]

theorem fault_array (es : List Emission) : (Push.array es).fault = none ↔ ∀ e ∈ es, e.fault = none := by
  unfold Push.array
  split
  · next hempty =>
    rw [List.isEmpty_iff.mp hempty]
    simp [ofBytes]
  · simp [fault_append, fault_sequence, ofBytes]

theorem fault_map (es : List (Emission × Emission)) :
    (Push.map es).fault = none ↔ ∀ e ∈ es, e.1.fault = none ∧ e.2.fault = none := by
  unfold Push.map
  rw [fault_append, fault_sequence, List.forall_mem_map]
  simp [fault_append, ofBytes, and_comm]

theorem prefix_append (before : Bytes) (e : Emission) : before <+: (ofBytes before ++ e).bytes :=
  List.prefix_append before e.bytes

end Emission

/-! ## The values of parameters -/

namespace Parameter

mutual

/-- What the parameter stands for once it is pushed. Where nothing can be pushed, nothing is said. -/
def value (p : Parameter) : Value :=
  match p with
  | any | interopInterface | void => .null
  | boolean v => .boolean v
  | integer v => .integer v
  | byteArray bs | signature bs => .bytes bs
  | string s => .bytes s.toUTF8.toList
  | hash160 h => .bytes h.bytes
  | hash256 h => .bytes h.bytes
  | publicKey k => .bytes k.compressed.bytes
  | array items => .array (valueItems items)
  | map entries => .map (valueEntries entries)

def valueItems : List Parameter → List Value
  | [] => []
  | p :: ps => p.value :: valueItems ps

def valueEntries : List (Parameter × Parameter) → List (Value × Value)
  | [] => []
  | (k, v) :: es => (k.value, v.value) :: valueEntries es

end

mutual

/-- The parameter and all that it contains. -/
def parts (p : Parameter) : List Parameter :=
  match p with
  | array items => array items :: partsItems items
  | map entries => map entries :: partsEntries entries
  | p => [p]

def partsItems : List Parameter → List Parameter
  | [] => []
  | p :: ps => p.parts ++ partsItems ps

def partsEntries : List (Parameter × Parameter) → List Parameter
  | [] => []
  | (k, v) :: es => k.parts ++ (v.parts ++ partsEntries es)

end

/-- Whether no instruction pushes the parameter, whatever it contains. -/
def Refused : Parameter → Prop
  | interopInterface | void => True
  | integer v => ¬ (-2 ^ 255 ≤ v ∧ v < 2 ^ 255)
  | _ => False

/-- Whether the parameter's own length is one that an instruction can say. -/
def InBounds : Parameter → Prop
  | byteArray bs | signature bs => bs.length < 0x100000000
  | string s => s.toUTF8.toList.length < 0x100000000
  | array items => items.length < 0x8000000000000000
  | map entries => entries.length < 0x8000000000000000
  | _ => True

instance (p : Parameter) : Decidable p.Refused :=
  match p with
  | interopInterface | void => inferInstanceAs (Decidable True)
  | integer v => inferInstanceAs (Decidable ¬ (-2 ^ 255 ≤ v ∧ v < 2 ^ 255))
  | any | boolean _ | byteArray _ | signature _ | string _ | hash160 _ | hash256 _ | publicKey _ | array _ | map _ =>
    inferInstanceAs (Decidable False)

instance (p : Parameter) : Decidable p.InBounds :=
  match p with
  | byteArray bs | signature bs => inferInstanceAs (Decidable (bs.length < 0x100000000))
  | string s => inferInstanceAs (Decidable (s.toUTF8.toList.length < 0x100000000))
  | array items => inferInstanceAs (Decidable (items.length < 0x8000000000000000))
  | map entries => inferInstanceAs (Decidable (entries.length < 0x8000000000000000))
  | any | boolean _ | integer _ | hash160 _ | hash256 _ | publicKey _ | interopInterface | void =>
    inferInstanceAs (Decidable True)

/-- What holds of arrays and maps if it holds of what is in them, and of all others, holds of every parameter. -/
theorem induct {motive : Parameter → Prop} (array : ∀ items, (∀ p ∈ items, motive p) → motive (array items))
    (map : ∀ entries, (∀ e ∈ entries, motive e.1 ∧ motive e.2) → motive (map entries))
    (other : ∀ p, (∀ items, p ≠ .array items) → (∀ entries, p ≠ .map entries) → motive p) (p : Parameter) :
    motive p := by
  cases p with
  | array items => exact array items fun p hp => induct array map other p
  | map entries =>
    refine map entries ?_
    rintro ⟨k, v⟩ he
    have hlt : 1 + sizeOf k + sizeOf v < sizeOf entries := List.sizeOf_lt_of_mem he
    exact ⟨induct array map other k, induct array map other v⟩
  | _ => exact other _ nofun nofun

theorem pushItems_eq (items : List Parameter) : pushItems items = items.map push := by
  induction items with
  | nil => rfl
  | cons p ps ih => rw [pushItems, ih, List.map_cons]

theorem pushEntries_eq (entries : List (Parameter × Parameter)) :
    pushEntries entries = entries.map fun e => (e.1.push, e.2.push) := by
  induction entries with
  | nil => rfl
  | cons e es ih => rw [pushEntries, ih, List.map_cons]

theorem valueItems_eq (items : List Parameter) : valueItems items = items.map value := by
  induction items with
  | nil => rfl
  | cons p ps ih => rw [valueItems, ih, List.map_cons]

theorem valueEntries_eq (entries : List (Parameter × Parameter)) :
    valueEntries entries = entries.map fun e => (e.1.value, e.2.value) := by
  induction entries with
  | nil => rfl
  | cons e es ih => rw [valueEntries, ih, List.map_cons]

section Parts

variable {P : Parameter → Prop}

theorem forall_partsItems (items : List Parameter) :
    (∀ q ∈ partsItems items, P q) ↔ ∀ p ∈ items, ∀ q ∈ p.parts, P q := by
  induction items with
  | nil => simp [partsItems]
  | cons p ps ih => rw [partsItems, List.forall_mem_append, ih, List.forall_mem_cons]

theorem forall_partsEntries (entries : List (Parameter × Parameter)) :
    (∀ q ∈ partsEntries entries, P q) ↔ ∀ e ∈ entries, (∀ q ∈ e.1.parts, P q) ∧ ∀ q ∈ e.2.parts, P q := by
  induction entries with
  | nil => simp [partsEntries]
  | cons e es ih =>
    rw [partsEntries, List.forall_mem_append, List.forall_mem_append, ih, List.forall_mem_cons, and_assoc]

theorem forall_parts_array (items : List Parameter) :
    (∀ q ∈ (array items).parts, P q) ↔ P (array items) ∧ ∀ p ∈ items, ∀ q ∈ p.parts, P q := by
  rw [parts, List.forall_mem_cons, forall_partsItems]

theorem forall_parts_map (entries : List (Parameter × Parameter)) : (∀ q ∈ (map entries).parts, P q) ↔
    P (map entries) ∧ ∀ e ∈ entries, (∀ q ∈ e.1.parts, P q) ∧ ∀ q ∈ e.2.parts, P q := by
  rw [parts, List.forall_mem_cons, forall_partsEntries]

end Parts

/-! ## Pushing a parameter -/

/-- Nothing but a part that no instruction pushes stops the pushing. -/
theorem fault_push (p : Parameter) : p.push.fault = none ↔ ∀ q ∈ p.parts, ¬ q.Refused := by
  induction p using induct with
  | array items ih =>
    rw [push, pushItems_eq, Emission.fault_array, List.forall_mem_map, forall_parts_array]
    simp only [Refused, not_false_eq_true, true_and]
    exact forall₂_congr ih
  | map entries ih =>
    rw [push, pushEntries_eq, Emission.fault_map, List.forall_mem_map, forall_parts_map]
    simp only [Refused, not_false_eq_true, true_and]
    exact forall₂_congr fun e he => and_congr (ih e he).1 (ih e he).2
  | other p harray hmap =>
    cases p with
    | array items => exact absurd rfl (harray items)
    | map entries => exact absurd rfl (hmap entries)
    | integer v =>
      simp only [push, parts, List.forall_mem_singleton, Refused, Classical.not_not]
      rw [← Push.integer?_isSome_iff]
      unfold Push.integer
      cases Push.integer? v <;> simp [Emission.ofBytes, Emission.fail]
    | _ => simp [push, parts, Refused, Emission.ofBytes, Emission.fail]

/-- A parameter without such a part leaves one item, which stands for its value. -/
theorem pushes_value (p : Parameter) (h : ∀ q ∈ p.parts, ¬ q.Refused ∧ q.InBounds) : p.push.Pushes p.value := by
  induction p using induct with
  | array items ih =>
    obtain ⟨⟨-, hlength⟩, hitems⟩ := (forall_parts_array items).mp h
    rw [push, value, pushItems_eq, valueItems_eq]
    refine Emission.pushes_array ?_ (by rwa [List.length_map])
    rw [List.forall₂_map_left_iff, List.forall₂_map_right_iff, List.forall₂_same]
    exact fun p hp => ih p hp (hitems p hp)
  | map entries ih =>
    obtain ⟨⟨-, hlength⟩, hentries⟩ := (forall_parts_map entries).mp h
    rw [push, value, pushEntries_eq, valueEntries_eq]
    refine Emission.pushes_map ?_ (by rwa [List.length_map])
    rw [List.forall₂_map_left_iff, List.forall₂_map_right_iff, List.forall₂_same]
    exact fun e he => ⟨(ih e he).1 (hentries e he).1, (ih e he).2 (hentries e he).2⟩
  | other p harray hmap =>
    cases p with
    | array items => exact absurd rfl (harray items)
    | map entries => exact absurd rfl (hmap entries)
    | any => exact Emission.pushes_constant (i := ⟨.PUSHNULL, []⟩) (by decide) rfl fun _ => .null
    | boolean v => exact Emission.pushes_bool v
    | integer v => exact Emission.pushes_integer (Classical.not_not.mp (h _ List.mem_cons_self).1)
    | byteArray bs | signature bs => exact Emission.pushes_data (h _ List.mem_cons_self).2
    | string s => exact Emission.pushes_data (h _ List.mem_cons_self).2
    | hash160 hash | hash256 hash => exact Emission.pushes_data (by rw [hash.length_eq]; decide)
    | publicKey key => exact Emission.pushes_data (by rw [key.compressed.length_eq]; decide)
    | interopInterface | void => exact absurd trivial (h _ List.mem_cons_self).1

/-- A parameter is pushed unless some part of it cannot be, and what was there before stays in front in both cases. What
is added is a run of instructions, and running them leaves one more item, which stands for the parameter's value. -/
theorem push_exact (p : Parameter) (before : Bytes) :
    ((Emission.ofBytes before ++ p.push).fault ≠ none ↔ ∃ q ∈ p.parts, q.Refused) ∧
    before <+: (Emission.ofBytes before ++ p.push).bytes ∧
    ((Emission.ofBytes before ++ p.push).fault = none → (∀ q ∈ p.parts, q.InBounds) →
      ∃ added l, (Emission.ofBytes before ++ p.push).bytes = before ++ added ∧ Instruction.disassemble added = .ok l ∧
        ∀ contracts (s : Machine.State), ∃ item fresh,
          Machine.run contracts (l.map (·.2)) s = some ⟨item :: s.stack, s.memory ++ fresh⟩ ∧
            Shows (s.memory ++ fresh) p.value item) := by
  have hfault : (Emission.ofBytes before ++ p.push).fault = none ↔ ∀ q ∈ p.parts, ¬ q.Refused := by
    rw [Emission.fault_append, fault_push]
    exact and_iff_right rfl
  refine ⟨?_, Emission.prefix_append before p.push, ?_⟩
  · rw [ne_eq, hfault]
    simp
  · intro hnone hbounds
    obtain ⟨is, his, hpush, hrun⟩ := p.pushes_value fun q hq => ⟨hfault.mp hnone q hq, hbounds q hq⟩
    refine ⟨is.flatMap Instruction.encode, Instruction.located 0 is, ?_, Instruction.disassemble_run his, ?_⟩
    · rw [hpush]
      rfl
    · intro contracts s
      obtain ⟨_, fresh, hrun, item, rfl, hitem⟩ := hrun contracts s
      rw [Instruction.map_snd_located]
      exact ⟨item, fresh, hrun, hitem⟩

def nested : Parameter :=
  .array [.map [(.string "key", .integer (-2 ^ 255)), (.byteArray [], .array [.any])], .array [], .boolean true]

theorem push_exact_nested : ∃ added l, (Emission.ofBytes [0x40] ++ nested.push).bytes = 0x40 :: added ∧
    Instruction.disassemble added = .ok l ∧
    ∀ contracts (s : Machine.State), ∃ item fresh,
      Machine.run contracts (l.map (·.2)) s = some ⟨item :: s.stack, s.memory ++ fresh⟩ ∧
        Shows (s.memory ++ fresh) nested.value item := by
  exact (push_exact nested [0x40]).2.2 (by decide +kernel) (by decide +kernel)

end Parameter

end N3
