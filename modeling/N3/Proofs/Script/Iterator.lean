import N3.Proofs.Parameter
import N3.Script.Call

/-!
# The loop over an iterator

The script that `unwrapIterator` makes calls a contract and takes items from the iterator that the call answers with. Its
three jumps lead behind the loop and to its front (`jumps_callAndDrain`). The loop keeps the limit, the iterator and
the array on the stack, and each pass takes one item over (`steps_loop`). Whether the array is full is asked behind the
item that was added, so that an iterator with an item fills an array of one even if the limit is zero.
-/

set_option autoImplicit false

namespace N3.Script

open Machine (Item Object State Contracts Steps Holds Shows run)

/-! ## The passages between the jumps -/

/-- The stack of the loop: the array, the iterator and the limit. -/
def loopStack (place iterator limit : Nat) (stack : List Item) : List Item :=
  .reference place :: .reference iterator :: .integer limit :: stack

section Passages

variable {contracts : Contracts} {place iterator limit : Nat} {stack : List Item} {memory : List Object}
variable {current : Option Item} {item : Item} {rest items : List Item}

theorem run_advance_cons (h : memory[iterator]? = some (.iterator current (item :: rest))) :
    run contracts advance ⟨loopStack place iterator limit stack, memory⟩ =
      some ⟨.boolean true :: loopStack place iterator limit stack,
        memory.set iterator (.iterator (some item) rest)⟩ := by
  unfold advance plain call loopStack
  rw [Machine.run_over, Machine.run_service, Machine.serve]
  simp only [h]
  rfl

theorem run_advance_nil (h : memory[iterator]? = some (.iterator current [])) :
    run contracts advance ⟨loopStack place iterator limit stack, memory⟩ =
      some ⟨.boolean false :: loopStack place iterator limit stack,
        memory.set iterator (.iterator none [])⟩ := by
  unfold advance plain call loopStack
  rw [Machine.run_over, Machine.run_service, Machine.serve]
  simp only [h]
  rfl

theorem run_collect (hiterator : memory[iterator]? = some (.iterator (some item) rest))
    (hplace : memory[place]? = some (.array items)) :
    run contracts collect ⟨loopStack place iterator limit stack, memory⟩ =
      some ⟨.boolean ((limit : Int) ≤ (items ++ [item]).length) :: loopStack place iterator limit stack,
        memory.set place (.array (items ++ [item]))⟩ := by
  have hlt : place < memory.length := (List.getElem?_eq_some_iff.mp hplace).1
  have hnew : (memory.set place (.array (items ++ [item])))[place]? = some (.array (items ++ [item])) :=
    List.getElem?_set_self hlt
  unfold collect plain call loopStack
  rw [Machine.run_dup, Machine.run_pick (n := 2) _ _ _ rfl rfl, Machine.run_service, Machine.serve]
  simp only [hiterator, Option.bind_some]
  rw [Machine.run_appendItem _ _ _ hplace, Machine.run_dup, Machine.run_size _ _ _ hnew,
    Machine.run_pick (n := 3) _ _ _ rfl rfl, Machine.run_ge, Machine.run_nil]

end Passages

/-! ## Where the jumps are and where they lead -/

theorem size_call (s : Service) : (call s).size = 5 := by
  show 1 + 0 + s.hash.length = 5
  rw [s.length_hash]

theorem extent_advance : Instruction.extent advance = 6 := by
  simp only [advance, Instruction.extent_cons, Instruction.extent_nil, size_call]
  rfl

theorem extent_collect : Instruction.extent collect = 14 := by
  simp only [collect, Instruction.extent_cons, Instruction.extent_nil, size_call]
  rfl

theorem drain_eq :
    drain = advance ++ ([jump .JMPIFNOT 20] ++ (collect ++ ([jump .JMPIF 4] ++ [jump .JMP (-24)]))) := by
  rw [drain, extent_advance, extent_collect]
  rfl

theorem extent_drain : Instruction.extent drain = 26 := by
  simp only [drain_eq, Instruction.extent_append, extent_advance, extent_collect]
  rfl

theorem target_jump (op : OpCode) {distance : Int} (h : Bytes.fits 1 distance = true) (place : Nat) :
    Machine.target place (jump op distance) = place + distance := by
  rw [Machine.target, jump, Bytes.toIntLE_ofIntLE h]

theorem jumps_jump {op : OpCode} {distance : Int} (hop : Machine.isJump op = true)
    (h : Bytes.fits 1 distance = true) (place : Nat) :
    Machine.jumps (Instruction.located place [jump op distance]) = [(op, place + distance)] := by
  rw [← target_jump op h place]
  simp [Machine.jumps, Instruction.located, jump, hop]

theorem holds_drain {script : Bytes} {start : Nat} (h : Holds script start drain) :
    Holds script start advance ∧ Holds script (start + 6) [jump .JMPIFNOT 20] ∧ Holds script (start + 8) collect ∧
      Holds script (start + 22) [jump .JMPIF 4] ∧ Holds script (start + 24) [jump .JMP (-24)] := by
  rw [drain_eq, Machine.holds_append, Machine.holds_append, Machine.holds_append, Machine.holds_append,
    extent_advance, extent_collect] at h
  exact h

/-! ## The loop -/

section Loop

variable {contracts : Contracts} {script : Bytes} {start : Nat} (hscript : Holds script start drain)
include hscript

variable {place iterator limit : Nat} {stack : List Item} {memory : List Object}
variable {current : Option Item} {item : Item} {rest items : List Item}

/-- The pass that finds the iterator exhausted leads behind the loop. -/
theorem steps_exhausted (h : memory[iterator]? = some (.iterator current [])) :
    Steps contracts script (start, ⟨loopStack place iterator limit stack, memory⟩)
      (start + 26, ⟨loopStack place iterator limit stack, memory.set iterator (.iterator none [])⟩) := by
  obtain ⟨hadvance, hexhausted, -⟩ := holds_drain hscript
  have hsteps : Steps contracts script (start, ⟨loopStack place iterator limit stack, memory⟩) (start + 6, _) :=
    extent_advance ▸ Machine.steps_run hadvance (run_advance_nil h)
  have htarget : Machine.target (start + 6) (jump .JMPIFNOT 20) = (start + 26 : Nat) := by
    rw [target_jump _ (by decide)]
    omega
  exact hsteps.tail (Machine.step_of_taken hexhausted rfl rfl htarget)

/-- Any other pass moves an item from the iterator to the array. It leads behind the loop if the array is full. -/
theorem steps_pass (hne : iterator ≠ place) (hiterator : memory[iterator]? = some (.iterator current (item :: rest)))
    (hplace : memory[place]? = some (.array items)) :
    Steps contracts script (start, ⟨loopStack place iterator limit stack, memory⟩)
      (if limit ≤ (items ++ [item]).length then start + 26 else start, ⟨loopStack place iterator limit stack,
        (memory.set iterator (.iterator (some item) rest)).set place (.array (items ++ [item]))⟩) := by
  obtain ⟨hadvance, hexhausted, hcollect, hfull, hback⟩ := holds_drain hscript
  have hlt : iterator < memory.length := (List.getElem?_eq_some_iff.mp hiterator).1
  have hiterator' : (memory.set iterator (.iterator (some item) rest))[iterator]? =
      some (.iterator (some item) rest) := List.getElem?_set_self hlt
  have hplace' : (memory.set iterator (.iterator (some item) rest))[place]? = some (.array items) := by
    rw [List.getElem?_set_ne hne, hplace]
  have hfirst : Steps contracts script (start, ⟨loopStack place iterator limit stack, memory⟩) (start + 6, _) :=
    extent_advance ▸ Machine.steps_run hadvance (run_advance_cons hiterator)
  have hsecond : Steps contracts script (start + 8, ⟨loopStack place iterator limit stack, _⟩) (start + 22, _) :=
    extent_collect ▸ Machine.steps_run hcollect (run_collect hiterator' hplace')
  have hsteps := (hfirst.tail (Machine.step_of_not_taken hexhausted rfl rfl)).trans hsecond
  by_cases hlimit : limit ≤ (items ++ [item]).length
  · have htarget : Machine.target (start + 22) (jump .JMPIF 4) = (start + 26 : Nat) := by
      rw [target_jump _ (by decide)]
      omega
    have hanswer : decide ((limit : Int) ≤ (items ++ [item]).length) = true := decide_eq_true (Int.ofNat_le.mpr hlimit)
    rw [if_pos hlimit]
    refine hsteps.tail (Machine.step_of_taken hfull rfl ?_ htarget)
    rw [hanswer]
    rfl
  · have htarget : Machine.target (start + 24) (jump .JMP (-24)) = (start : Nat) := by
      rw [target_jump _ (by decide)]
      omega
    have hanswer : decide ((limit : Int) ≤ (items ++ [item]).length) = false :=
      decide_eq_false fun h => hlimit (Int.ofNat_le.mp h)
    rw [if_neg hlimit]
    refine (hsteps.tail (Machine.step_of_not_taken hfull rfl ?_)).tail (Machine.step_of_taken hback rfl rfl htarget)
    rw [hanswer]
    rfl

/-- As long as there is room for an item, the loop fills the array with the items to come. The induction is on these; a
limit of zero leaves room for one item at first. -/
theorem steps_loop (hne : iterator ≠ place) (hiterator : memory[iterator]? = some (.iterator current rest))
    (hplace : memory[place]? = some (.array items)) (hroom : items.length < max limit 1) :
    ∃ memory', Steps contracts script (start, ⟨loopStack place iterator limit stack, memory⟩)
        (start + 26, ⟨loopStack place iterator limit stack, memory'⟩) ∧
      memory'[place]? = some (.array (items ++ rest.take (max limit 1 - items.length))) ∧
      ∀ other, other ≠ iterator → other ≠ place → memory'[other]? = memory[other]? := by
  induction rest generalizing current items memory with
  | nil =>
    refine ⟨_, steps_exhausted hscript hiterator, ?_, ?_⟩
    · rw [List.getElem?_set_ne hne, hplace, List.take_nil, List.append_nil]
    · intro other hother _
      exact List.getElem?_set_ne hother.symm
  | cons item rest ih =>
    have hpass : Steps contracts script (start, ⟨loopStack place iterator limit stack, memory⟩) (_, _) :=
      steps_pass hscript hne hiterator hplace
    have hiteratorLt : iterator < memory.length := (List.getElem?_eq_some_iff.mp hiterator).1
    have hplaceLt : place < memory.length := (List.getElem?_eq_some_iff.mp hplace).1
    generalize hmoved : (memory.set iterator (.iterator (some item) rest)).set place (.array (items ++ [item])) = moved
      at hpass
    have hplace' : moved[place]? = some (.array (items ++ [item])) := by
      rw [← hmoved, List.getElem?_set_self (by rwa [List.length_set])]
    have hiterator' : moved[iterator]? = some (.iterator (some item) rest) := by
      rw [← hmoved, List.getElem?_set_ne hne.symm, List.getElem?_set_self hiteratorLt]
    have hother' : ∀ other, other ≠ iterator → other ≠ place → moved[other]? = memory[other]? := by
      intro other hiterator hplace
      rw [← hmoved, List.getElem?_set_ne hplace.symm, List.getElem?_set_ne hiterator.symm]
    have hlength : (items ++ [item]).length = items.length + 1 := List.length_append
    by_cases hlimit : limit ≤ (items ++ [item]).length
    · have hlast : max limit 1 - items.length = 1 := by omega
      rw [if_pos hlimit] at hpass
      refine ⟨moved, hpass, ?_, hother'⟩
      rw [hplace', hlast, List.take_succ_cons, List.take_zero]
    · have hmore : max limit 1 - items.length = max limit 1 - (items ++ [item]).length + 1 := by omega
      rw [if_neg hlimit] at hpass
      obtain ⟨memory', hsteps, hresult, hother⟩ := ih hiterator' hplace' (by omega)
      refine ⟨memory', hpass.trans hsteps, ?_, ?_⟩
      · rw [hresult, hmore, List.take_succ_cons, List.append_assoc, List.singleton_append]
      · intro other hiterator hplace
        rw [hother other hiterator hplace, hother' other hiterator hplace]

end Loop

/-! ## The whole script -/

/-- What stands behind the pushes: the call, a new array, the loop, and what clears the stack. -/
def callAndDrain : List Instruction :=
  [call .contractCall, plain .NEWARRAY0] ++ (drain ++ [plain .NIP, plain .NIP])

theorem extent_call : Instruction.extent [call .contractCall, plain .NEWARRAY0] = 6 := by
  simp only [Instruction.extent_cons, Instruction.extent_nil, size_call]
  rfl

theorem extent_callAndDrain : Instruction.extent callAndDrain = 34 := by
  rw [callAndDrain, Instruction.extent_append, Instruction.extent_append, extent_call, extent_drain]
  rfl

theorem isWhole_callAndDrain : ∀ i ∈ callAndDrain, i.IsWhole := by
  have hcall : ∀ s : Service, (call s).IsWhole := fun s => s.length_hash
  simp only [callAndDrain, drain_eq, advance, collect, List.cons_append, List.nil_append, List.forall_mem_cons, hcall]
  decide

/-- The jumps of the loop lead to its front and behind it. -/
theorem jumps_callAndDrain (start : Nat) : Machine.jumps (Instruction.located start callAndDrain) =
    [(.JMPIFNOT, ((start + 32 : Nat) : Int)), (.JMPIF, ((start + 32 : Nat) : Int)), (.JMP, ((start + 6 : Nat) : Int))] := by
  have hadvance : ∀ i ∈ advance, Machine.isJump i.op = false := by decide
  have hcollect : ∀ i ∈ collect, Machine.isJump i.op = false := by decide
  have hfront : ∀ i ∈ [call .contractCall, plain .NEWARRAY0], Machine.isJump i.op = false := by decide
  have hexit : ∀ i ∈ [plain .NIP, plain .NIP], Machine.isJump i.op = false := by decide
  rw [callAndDrain, drain_eq]
  simp only [Instruction.located_append, Machine.jumps_append, Machine.jumps_located hadvance,
    Machine.jumps_located hcollect, Machine.jumps_located hfront, Machine.jumps_located hexit]
  rw [jumps_jump rfl (by decide), jumps_jump rfl (by decide), jumps_jump rfl (by decide), extent_call,
    extent_advance, extent_collect, show Instruction.extent [jump .JMPIFNOT 20] = 2 from rfl,
    show Instruction.extent [jump .JMPIF 4] = 2 from rfl]
  simp
  omega

/-- The first instruction of the loop and the two behind it. -/
theorem located_callAndDrain (start : Nat) : ∃ inner : List (Nat × Instruction),
    Instruction.located start callAndDrain = inner ++ [(start + 32, plain .NIP), (start + 32 + 1, plain .NIP)] ∧
      (start + 6, plain .OVER) ∈ inner := by
  refine ⟨Instruction.located start [call .contractCall, plain .NEWARRAY0] ++ Instruction.located (start + 6) drain,
    ?_, ?_⟩
  · rw [callAndDrain, Instruction.located_append, Instruction.located_append, extent_call, extent_drain,
      List.append_assoc]
    rfl
  · exact List.mem_append_right _ List.mem_cons_self

section Front

variable {contract : Hash160} {method : String} {params : List Parameter} {flags : CallFlags}

/-- The script is a run of instructions, the first of which push the limit and all that the call needs. -/
theorem exists_front (contract : Hash160) (limit : UInt32) (flags : CallFlags)
    (hparams : ∀ q ∈ (Parameter.array params).parts, ¬ q.Refused ∧ q.InBounds)
    (hmethod : method.toUTF8.toList.length < 0x100000000) : ∃ front : List Instruction, (∀ i ∈ front, i.IsWhole) ∧
      unwrapIterator contract method (params.map Parameter.push) limit flags =
        .ofBytes ((front ++ callAndDrain).flatMap Instruction.encode) ∧
      ∀ contracts (s : State), ∃ item fresh,
        run contracts front s = some ⟨.bytes contract.bytes :: .bytes method.toUTF8.toList ::
          .integer flags.bits.toNat :: item :: .integer limit.toNat :: s.stack, s.memory ++ fresh⟩ ∧
        Shows (s.memory ++ fresh) (Parameter.array params).value item := by
  have hlimit := limit.toNat_lt
  have hflags := flags.bits.toNat_lt
  have hcontract : contract.bytes.length < 0x100000000 := by
    rw [contract.length_eq]
    decide
  obtain ⟨pushLimit, hlimitWhole, hlimitValue, hlimitBytes⟩ := Push.exists_nat (n := limit.toNat) (by omega)
  obtain ⟨pushFlags, hflagsWhole, hflagsValue, hflagsBytes⟩ := Push.exists_nat (n := flags.bits.toNat) (by omega)
  obtain ⟨pushMethod, hmethodWhole, hmethodValue, hmethodBytes⟩ := Push.exists_data hmethod
  obtain ⟨pushContract, hcontractWhole, hcontractValue, hcontractBytes⟩ := Push.exists_data hcontract
  obtain ⟨is, his, hbytes, hrun⟩ := (Parameter.array params).pushes_value hparams
  rw [Parameter.push, Parameter.pushItems_eq] at hbytes
  refine ⟨pushLimit :: is ++ [pushFlags, pushMethod, pushContract], ?_, ?_, ?_⟩
  · simp only [List.cons_append, List.forall_mem_cons, List.forall_mem_append]
    exact ⟨hlimitWhole, his, hflagsWhole, hmethodWhole, hcontractWhole, by simp⟩
  · have hrest : callAndDrain.flatMap Instruction.encode =
        Push.service .contractCall ++ assemble (plain .NEWARRAY0 :: drain ++ [plain .NIP, plain .NIP]) := rfl
    unfold unwrapIterator contractCall Push.text
    rw [hbytes, hlimitBytes, hflagsBytes, hmethodBytes, hcontractBytes, List.flatMap_append, hrest]
    show Emission.ofBytes (pushLimit.encode ++ (is.flatMap Instruction.encode ++
      (pushFlags.encode ++ pushMethod.encode ++ pushContract.encode ++ Push.service .contractCall)) ++
        assemble (plain .NEWARRAY0 :: drain ++ [plain .NIP, plain .NIP])) = _
    simp
  · intro contracts s
    obtain ⟨_, fresh, hrun, item, rfl, hitem⟩ := hrun contracts ⟨.integer limit.toNat :: s.stack, s.memory⟩
    refine ⟨item, fresh, ?_, hitem⟩
    rw [List.cons_append, Machine.run_constant (Machine.constant?_of_integer? hlimitValue), Machine.run_append, hrun,
      Option.bind_some, Machine.run_constant (Machine.constant?_of_integer? hflagsValue),
      Machine.run_constant hmethodValue, Machine.run_constant hcontractValue, Machine.run_nil]
    rfl

end Front

/-- From the call on, the script leaves one item on the stack: the array with the items of the answer that there is room
for. -/
theorem steps_callAndDrain {contracts : Contracts} {script contract method : Bytes} {place limit iterator : Nat}
    {flags : Int} {item : Item} {stack items : List Item} {memory called : List Object} {current : Option Item}
    (hscript : Holds script place callAndDrain)
    (hcall : contracts contract method flags item memory = some (.reference iterator, called))
    (hiterator : called[iterator]? = some (.iterator current items)) :
    ∃ memory', Steps contracts script
        (place, ⟨.bytes contract :: .bytes method :: .integer flags :: item :: .integer limit :: stack, memory⟩)
        (place + 34, ⟨.reference called.length :: stack, memory'⟩) ∧
      memory'[called.length]? = some (.array (items.take (max limit 1))) := by
  have hlt : iterator < called.length := (List.getElem?_eq_some_iff.mp hiterator).1
  rw [callAndDrain, Machine.holds_append, Machine.holds_append, extent_call, extent_drain] at hscript
  obtain ⟨hfront, hdrain, hexit⟩ := hscript
  have hrun : run contracts [call .contractCall, plain .NEWARRAY0]
      ⟨.bytes contract :: .bytes method :: .integer flags :: item :: .integer limit :: stack, memory⟩ =
        some ⟨loopStack called.length iterator limit stack, called ++ [.array []]⟩ := by
    unfold call plain
    rw [Machine.run_service, Machine.serve, hcall, Option.map_some, Option.bind_some, Machine.run_newArray,
      Machine.run_nil, loopStack]
  have hiterator' : (called ++ [Object.array []])[iterator]? = some (.iterator current items) := by
    rw [List.getElem?_append_left hlt, hiterator]
  have hplace : (called ++ [Object.array []])[called.length]? = some (.array []) := by simp
  obtain ⟨memory', hloop, hresult, -⟩ : ∃ memory', Steps contracts script
      (place + 6, ⟨loopStack called.length iterator limit stack, called ++ [.array []]⟩)
      (place + 6 + 26, ⟨loopStack called.length iterator limit stack, memory'⟩) ∧ _ ∧ _ :=
    steps_loop hdrain (Nat.ne_of_lt hlt) hiterator' hplace (by simp)
  have hclear : run contracts [plain .NIP, plain .NIP] ⟨loopStack called.length iterator limit stack, memory'⟩ =
      some ⟨.reference called.length :: stack, memory'⟩ := by
    unfold plain loopStack
    rw [Machine.run_nip, Machine.run_nip, Machine.run_nil]
  have hfirst : Steps contracts script (place, _) (place + 6, _) := extent_call ▸ Machine.steps_run hfront hrun
  have hlast : Steps contracts script (place + 6 + 26, _) (place + 6 + 26 + 2, _) := Machine.steps_run hexit hclear
  exact ⟨memory', hfirst.trans (hloop.trans hlast), hresult⟩

/-- The call is answered with an iterator over the items, whatever objects the arguments have added to the memory. -/
def Answers (contracts : Contracts) (contract : Hash160) (method : String) (params : List Parameter)
    (flags : CallFlags) (s : State) (items : List Item) : Prop :=
  ∀ memory item, s.memory <+: memory → Shows memory (Parameter.array params).value item →
    ∃ iterator called,
      contracts contract.bytes method.toUTF8.toList flags.bits.toNat item memory = some (.reference iterator, called) ∧
        called[iterator]? = some (.iterator none items)

/-- The script goes through to its end and leaves one more item, an array of the items. -/
def Collects (contracts : Contracts) (script : Bytes) (s : State) (items : List Item) : Prop :=
  ∃ place memory, Steps contracts script (0, s) (script.length, ⟨.reference place :: s.stack, memory⟩) ∧
    memory[place]? = some (.array items)

/-- No script ends with two arrays. -/
theorem Collects.unique {contracts : Contracts} {script : Bytes} {s : State} {items items' : List Item}
    (h : Collects contracts script s items) (h' : Collects contracts script s items') : items = items' := by
  obtain ⟨place, memory, hsteps, hplace⟩ := h
  obtain ⟨place', memory', hsteps', hplace'⟩ := h'
  have hend := hsteps.unique hsteps' (Machine.step_length _) (Machine.step_length _)
  simp only [Prod.mk.injEq, State.mk.injEq, List.cons.injEq, Item.reference.injEq, true_and, and_true] at hend
  obtain ⟨rfl, rfl⟩ := hend
  rw [hplace] at hplace'
  cases hplace'
  rfl

section Collected

variable {contracts : Contracts} {contract : Hash160} {method : String} {params : List Parameter} {flags : CallFlags}
variable {front : List Instruction} {s : State}

/-- The jumps of a script that has none before the call. -/
theorem jumps_front (hfront : ∀ i ∈ front, Machine.isJump i.op = false) :
    ∃ (before : List (Nat × Instruction)) (start exit : Nat),
      Instruction.located 0 (front ++ callAndDrain) = before ++ [(exit, plain .NIP), (exit + 1, plain .NIP)] ∧
      (start, plain .OVER) ∈ Instruction.located 0 (front ++ callAndDrain) ∧
      Machine.jumps (Instruction.located 0 (front ++ callAndDrain)) =
        [(.JMPIFNOT, (exit : Int)), (.JMPIF, (exit : Int)), (.JMP, (start : Int))] := by
  obtain ⟨inner, hinner, hstart⟩ := located_callAndDrain (Instruction.extent front)
  have hlocated : Instruction.located 0 (front ++ callAndDrain) =
      Instruction.located 0 front ++ Instruction.located (Instruction.extent front) callAndDrain := by
    rw [Instruction.located_append, Nat.zero_add]
  refine ⟨Instruction.located 0 front ++ inner, Instruction.extent front + 6, Instruction.extent front + 32, ?_, ?_, ?_⟩
  · rw [hlocated, hinner, List.append_assoc]
  · rw [hlocated, hinner]
    exact List.mem_append_right _ (List.mem_append_left _ hstart)
  · rw [hlocated, Machine.jumps_append, Machine.jumps_located hfront, List.nil_append, jumps_callAndDrain]

/-- A script that calls a contract collects the first items of the answer, one of them even if the limit is zero. -/
theorem collects_front {limit : Nat} {items : List Item} {item : Item} {fresh : List Object}
    (hfront : ∀ i ∈ front, i.IsWhole)
    (hrun : run contracts front s = some ⟨.bytes contract.bytes :: .bytes method.toUTF8.toList ::
      .integer flags.bits.toNat :: item :: .integer limit :: s.stack, s.memory ++ fresh⟩)
    (hitem : Shows (s.memory ++ fresh) (Parameter.array params).value item)
    (hanswer : Answers contracts contract method params flags s items) :
    Collects contracts ((front ++ callAndDrain).flatMap Instruction.encode) s (items.take (max limit 1)) := by
  obtain ⟨iterator, called, hcall, hiterator⟩ := hanswer (s.memory ++ fresh) item (List.prefix_append _ _) hitem
  have hwhole : ∀ i ∈ front ++ callAndDrain, i.IsWhole := List.forall_mem_append.mpr ⟨hfront, isWhole_callAndDrain⟩
  obtain ⟨hstart, hrest⟩ := Machine.holds_append.mp (Machine.holds_flatMap hwhole)
  have hfirst := Machine.steps_run hstart hrun
  obtain ⟨memory', hsteps, hplace⟩ : ∃ memory', Steps contracts _ _ (_, ⟨.reference called.length :: s.stack, memory'⟩) ∧
      memory'[called.length]? = some (.array (items.take (max limit 1))) :=
    steps_callAndDrain hrest hcall hiterator
  have hend : ((front ++ callAndDrain).flatMap Instruction.encode).length = 0 + Instruction.extent front + 34 := by
    rw [Instruction.length_flatMap_encode, Instruction.extent_append, extent_callAndDrain, Nat.zero_add]
  refine ⟨called.length, memory', ?_, hplace⟩
  rw [hend]
  exact hfirst.trans hsteps

end Collected

/-- The script is a run of instructions. Two of its three jumps lead to the first of the two instructions behind the loop
and the third to the loop's first. If the call is answered with an iterator, the script goes through to its end and
leaves one more item: an array of the first items, as many as the limit says, but one even if it is zero. -/
theorem unwrapIterator_collects (contract : Hash160) (method : String) (params : List Parameter) (limit : UInt32)
    (flags : CallFlags) (hparams : ∀ q ∈ (Parameter.array params).parts, ¬ q.Refused ∧ q.InBounds)
    (hmethod : method.toUTF8.toList.length < 0x100000000) :
    ∃ script l, unwrapIterator contract method (params.map Parameter.push) limit flags = .ofBytes script ∧
      Instruction.disassemble script = .ok l ∧
      (∃ (before : List (Nat × Instruction)) (start exit : Nat),
        l = before ++ [(exit, plain .NIP), (exit + 1, plain .NIP)] ∧ (start, plain .OVER) ∈ l ∧
        Machine.jumps l = [(.JMPIFNOT, (exit : Int)), (.JMPIF, (exit : Int)), (.JMP, (start : Int))]) ∧
      ∀ contracts s items, Answers contracts contract method params flags s items →
        Collects contracts script s (items.take (max limit.toNat 1)) := by
  obtain ⟨front, hfront, hscript, hrun⟩ := exists_front contract limit flags hparams hmethod
  have hwhole : ∀ i ∈ front ++ callAndDrain, i.IsWhole := List.forall_mem_append.mpr ⟨hfront, isWhole_callAndDrain⟩
  refine ⟨_, _, hscript, Instruction.disassemble_run hwhole, ?_, ?_⟩
  · -- what is run in some state has no jumps
    obtain ⟨item, fresh, hstraight, -⟩ := hrun (fun _ _ _ _ _ => none) ⟨[], []⟩
    exact jumps_front (Machine.not_isJump_of_run hstraight)
  · intro contracts s items hanswer
    obtain ⟨item, fresh, hstraight, hitem⟩ := hrun contracts s
    exact collects_front hfront hstraight hitem hanswer

/-- Contracts that answer every call with an iterator over the same items. -/
def answering (items : List Item) : Contracts := fun _ _ _ _ memory =>
  some (.reference memory.length, memory ++ [.iterator none items])

theorem answers_answering (items : List Item) (contract : Hash160) (method : String) (params : List Parameter)
    (flags : CallFlags) (s : State) : Answers (answering items) contract method params flags s items := by
  intro memory item _ _
  refine ⟨memory.length, memory ++ [.iterator none items], rfl, ?_⟩
  simp

/-- Two of three items are asked for. -/
theorem unwrapIterator_collects_two : ∃ script,
    unwrapIterator ⟨List.replicate 20 1, by decide⟩ "tokensOf" [Parameter.push (.integer 5)] 2 .all = .ofBytes script ∧
      Collects (answering [.integer 7, .null, .integer 9]) script ⟨[.null], []⟩ [.integer 7, .null] := by
  obtain ⟨script, l, hscript, -, -, hcollects⟩ := unwrapIterator_collects ⟨List.replicate 20 1, by decide⟩ "tokensOf"
    [.integer 5] 2 .all (by decide +kernel) (by decide +kernel)
  exact ⟨script, hscript, hcollects _ _ _ (answers_answering _ _ _ _ _ _)⟩

/-- If no item is asked for and there is one, it is collected all the same. -/
theorem unwrapIterator_zero : ∃ script,
    unwrapIterator ⟨List.replicate 20 1, by decide⟩ "tokensOf" [] 0 .all = .ofBytes script ∧
      Answers (answering [.integer 7]) ⟨List.replicate 20 1, by decide⟩ "tokensOf" [] .all ⟨[], []⟩ [.integer 7] ∧
      ¬ Collects (answering [.integer 7]) script ⟨[], []⟩ ([Item.integer 7].take (0 : UInt32).toNat) := by
  have hanswer : Answers (answering [.integer 7]) ⟨List.replicate 20 1, by decide⟩ "tokensOf" [] .all ⟨[], []⟩
      [.integer 7] := answers_answering _ _ _ _ _ _
  have hparams : ∀ q ∈ (Parameter.array []).parts, ¬ q.Refused ∧ q.InBounds := by decide
  have hmethod : "tokensOf".toUTF8.toList.length < 0x100000000 := by decide +kernel
  obtain ⟨front, hfront, hscript, hrun⟩ := exists_front ⟨List.replicate 20 1, by decide⟩ 0 .all hparams hmethod
  obtain ⟨item, fresh, hstraight, hitem⟩ := hrun (answering [.integer 7]) ⟨[], []⟩
  refine ⟨_, hscript, hanswer, ?_⟩
  intro hnone
  have hone := collects_front hfront hstraight hitem hanswer
  exact absurd (hone.unique hnone) (by decide)

end N3.Script
