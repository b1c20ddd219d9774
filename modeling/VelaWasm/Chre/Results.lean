/-
Structures that CHRE fills in for a module: `chreGetSensorInfoWrapper`, `chreAudioGetSourceWrapper` and
`chreWifiNanSubscribeWrapper` copy what each pointer field leads to into a block of the module and replace the field
by its offset. One flag has the outcome of the last allocation, and no block is freed.
-/
import VelaWasm.Wamr
import Mathlib.Data.List.Forall2
import Mathlib.Data.List.Nodup

namespace VelaWasm.Chre

/-! ## Data -/

/-- A pointer field of a structure: a native address, or an offset in the module's memory. -/
inductive PointerField where
  | native (address : Addr)
  | app (offset : UInt32)
  deriving DecidableEq, Repr

/-- A string that CHRE supplies: native memory from its address on. -/
structure ChreString where
  address : Addr
  memory : List UInt8
  address_ne : address ≠ null
  terminated : 0 ∈ memory

/-- An array of bytes that CHRE supplies. -/
structure ChreBuffer where
  address : Addr
  memory : List UInt8
  size : ℕ
  size_le : size ≤ memory.length

/-- `strlen` -/
def strlen (memory : List UInt8) : ℕ := (memory.takeWhile fun c => c != 0).length

/-- A block of the module's heap, with the bytes copied into it. -/
structure Block where
  offset : UInt32
  size : ℕ
  bytes : List UInt8
  deriving DecidableEq, Repr

/-- What `wasm_runtime_module_malloc` returns, call by call: the offset of a block that is not in use, or 0. -/
structure Allocations (before : List Block) where
  malloc : ℕ → UInt32
  fresh : ∀ i, malloc i ≠ 0 → ∀ b ∈ before, b.offset ≠ malloc i
  distinct : ∀ i j, malloc i ≠ 0 → malloc i = malloc j → i = j

/-! ## The wrappers -/

/-- What the copy of a field takes: its native address, the bytes read there and the size of the block. -/
structure Source where
  address : Addr
  bytes : List UInt8
  size : ℕ

/-- A string is copied with its terminator, into a block of one byte more. -/
def ChreString.source (s : ChreString) : Source :=
  let length := strlen s.memory + 1
  ⟨s.address, s.memory.take length, length + 1⟩

def ChreBuffer.source (b : ChreBuffer) : Source := ⟨b.address, b.memory.take b.size, b.size⟩

/-- What the copying of a field leaves: the field, the module's blocks and `success`. -/
abbrev Copied := PointerField × List Block × Bool

/-- The copying of a field, with the allocation `i`. -/
def copyField (malloc : ℕ → UInt32) (i : ℕ) (source : Source) (blocks : List Block) : Copied :=
  let offset := malloc i
  if offset = 0 then (.native source.address, blocks, false)
  else (.app offset, blocks ++ [⟨offset, source.size, source.bytes⟩], true)

/-- What a wrapper returns, the structure and the module's blocks. -/
structure Outcome (S : Type) where
  ret : Bool
  info : S
  blocks : List Block

/-- `chreSensorInfo`, its pointer field -/
structure ChreSensorInfo where
  sensorName : PointerField

/-- `chreAudioSource` -/
structure ChreAudioSource where
  name : PointerField

/-- `chreWifiNanSubscribeConfig` -/
structure ChreWifiNanSubscribeConfig where
  service : PointerField
  serviceSpecificInfo : PointerField
  matchFilter : PointerField

/-- What CHRE supplies for a subscription. -/
structure NanSupply where
  service : ChreString
  serviceSpecificInfo : ChreBuffer
  matchFilter : ChreBuffer

section

variable (malloc : ℕ → UInt32) (valid : Bool) (blocks : List Block)

/-- `chreGetSensorInfoWrapper`; `chreGetSensorInfo` supplies a name or fails. -/
def chreGetSensorInfoWrapper (chreGetSensorInfo : Option ChreString) (info : ChreSensorInfo) :
    Outcome ChreSensorInfo :=
  if ¬ valid then ⟨false, info, blocks⟩
  else
    match chreGetSensorInfo with
    | none => ⟨false, info, blocks⟩
    | some name =>
      let (sensorName, blocks, success) := copyField malloc 0 name.source blocks
      ⟨success, ⟨sensorName⟩, blocks⟩

/-- `chreAudioGetSourceWrapper` -/
def chreAudioGetSourceWrapper (chreAudioGetSource : Option ChreString) (audioSource : ChreAudioSource) :
    Outcome ChreAudioSource :=
  if ¬ valid then ⟨false, audioSource, blocks⟩
  else
    match chreAudioGetSource with
    | none => ⟨false, audioSource, blocks⟩
    | some name =>
      let (name, blocks, success) := copyField malloc 0 name.source blocks
      ⟨success, ⟨name⟩, blocks⟩

/-- `chreWifiNanSubscribeWrapper`, where each copy overwrites `success`. -/
def chreWifiNanSubscribeWrapper (chreWifiNanSubscribe : Option NanSupply) (config : ChreWifiNanSubscribeConfig) :
    Outcome ChreWifiNanSubscribeConfig :=
  if ¬ valid then ⟨false, config, blocks⟩
  else
    match chreWifiNanSubscribe with
    | none => ⟨false, config, blocks⟩
    | some supply =>
      let (service, blocks, _) := copyField malloc 0 supply.service.source blocks
      let (serviceSpecificInfo, blocks, _) := copyField malloc 1 supply.serviceSpecificInfo.source blocks
      let (matchFilter, blocks, success) := copyField malloc 2 supply.matchFilter.source blocks
      ⟨success, ⟨service, serviceSpecificInfo, matchFilter⟩, blocks⟩

end

/-! ## The property -/

/-- A call of one of the wrappers, with what CHRE supplies and the offsets that the module's structure has
before. -/
inductive ResultCall where
  | getSensorInfo (supply : Option ChreString) (sensorName : UInt32)
  | audioGetSource (supply : Option ChreString) (name : UInt32)
  | nanSubscribe (supply : Option NanSupply) (service serviceSpecificInfo matchFilter : UInt32)

/-- The pointer fields before the call. -/
def ResultCall.pointersBefore : ResultCall → List PointerField
  | getSensorInfo _ sensorName => [.app sensorName]
  | audioGetSource _ name => [.app name]
  | nanSubscribe _ service serviceSpecificInfo matchFilter =>
    [.app service, .app serviceSpecificInfo, .app matchFilter]

/-- What CHRE supplies, field by field: the native address and the bytes, a string's with its terminator. -/
def ResultCall.supplied : ResultCall → Option (List (Addr × List UInt8))
  | getSensorInfo supply _ | audioGetSource supply _ =>
    supply.map fun name => [(name.address, name.memory.takeWhile (fun c => c != 0) ++ [0])]
  | nanSubscribe supply _ _ _ =>
    supply.map fun s => [(s.service.address, s.service.memory.takeWhile (fun c => c != 0) ++ [0]),
      (s.serviceSpecificInfo.address, s.serviceSpecificInfo.memory.take s.serviceSpecificInfo.size),
      (s.matchFilter.address, s.matchFilter.memory.take s.matchFilter.size)]

/-- The outcome of a call, with the pointer fields of its structure. -/
def ResultCall.outcome (malloc : ℕ → UInt32) (valid : Bool) (blocks : List Block) :
    ResultCall → Outcome (List PointerField)
  | getSensorInfo supply sensorName =>
    let o := chreGetSensorInfoWrapper malloc valid blocks supply ⟨.app sensorName⟩
    ⟨o.ret, [o.info.sensorName], o.blocks⟩
  | audioGetSource supply name =>
    let o := chreAudioGetSourceWrapper malloc valid blocks supply ⟨.app name⟩
    ⟨o.ret, [o.info.name], o.blocks⟩
  | nanSubscribe supply service serviceSpecificInfo matchFilter =>
    let o := chreWifiNanSubscribeWrapper malloc valid blocks supply
      ⟨.app service, .app serviceSpecificInfo, .app matchFilter⟩
    ⟨o.ret, [o.info.service, o.info.serviceSpecificInfo, o.info.matchFilter], o.blocks⟩

/-- The field is the offset of a new block with the bytes. -/
def HoldsCopy (before after : List Block) (field : PointerField) (bytes : List UInt8) : Prop :=
  ∃ b ∈ after, field = .app b.offset ∧ b.bytes = bytes ∧ ∀ c ∈ before, c.offset ≠ b.offset

/-- A call that returns true leaves in each field a block of its own with the bytes supplied for it. One that
returns false leaves no native pointer, replaces all fields or none, and has freed its blocks. -/
structure AllOrNothing (before : List Block) (filled : List PointerField) (supplied : List (Addr × List UInt8))
    (o : Outcome (List PointerField)) : Prop where
  copied : o.ret = true → List.Forall₂ (fun field s => HoldsCopy before o.blocks field s.2) o.info supplied
  ownBlocks : o.ret = true → o.info.Nodup
  noNative : o.ret = false → ∀ address, .native address ∈ o.info → address = null
  unmixed : o.ret = false → o.info = filled ∨ ∀ field ∈ o.info, field ∉ filled
  freed : o.ret = false → o.blocks = before

/-- The property of a call: CHRE fills the fields with native pointers if it is called and succeeds. -/
def ResultCall.Whole (malloc : ℕ → UInt32) (valid : Bool) (before : List Block) (c : ResultCall) : Prop :=
  match if valid then c.supplied else none with
  | none => AllOrNothing before c.pointersBefore [] (c.outcome malloc valid before)
  | some supplied =>
    AllOrNothing before (supplied.map fun s => .native s.1) supplied (c.outcome malloc valid before)

/-! ## Copying a list of fields -/

/-- The fields of a call in the order in which they are copied. -/
def ResultCall.sources : ResultCall → Option (List Source)
  | getSensorInfo supply _ | audioGetSource supply _ => supply.map fun name => [name.source]
  | nanSubscribe supply _ _ _ =>
    supply.map fun s => [s.service.source, s.serviceSpecificInfo.source, s.matchFilter.source]

/-- The fields copied one after the other, from the allocation `i` on. -/
def copyFields (malloc : ℕ → UInt32) : ℕ → List Source → List Block → Bool → List PointerField × List Block × Bool
  | _, [], blocks, success => ([], blocks, success)
  | i, source :: sources, blocks, _ =>
    let (field, blocks, success) := copyField malloc i source blocks
    let (fields, blocks, success) := copyFields malloc (i + 1) sources blocks success
    (field :: fields, blocks, success)

variable {malloc : ℕ → UInt32} {i : ℕ} {before blocks : List Block} {b : Bool} {sources : List Source}
  {source : Source}

theorem copyFields_cons_zero (h : malloc i = 0) : copyFields malloc i (source :: sources) blocks b =
    (.native source.address :: (copyFields malloc (i + 1) sources blocks false).1,
      (copyFields malloc (i + 1) sources blocks false).2) := by
  simp only [copyFields, copyField, if_pos h]

theorem copyFields_cons_ne (h : malloc i ≠ 0) : copyFields malloc i (source :: sources) blocks b =
    (.app (malloc i) ::
        (copyFields malloc (i + 1) sources (blocks ++ [⟨malloc i, source.size, source.bytes⟩]) true).1,
      (copyFields malloc (i + 1) sources (blocks ++ [⟨malloc i, source.size, source.bytes⟩]) true).2) := by
  simp only [copyFields, copyField, if_neg h]

/-- No block is freed. -/
theorem copyFields_subset : blocks ⊆ (copyFields malloc i sources blocks b).2.1 := by
  induction sources generalizing i blocks b with
  | nil => exact fun _ h => h
  | cons source sources ih =>
    by_cases h : malloc i = 0
    · rw [copyFields_cons_zero h]
      exact ih
    · rw [copyFields_cons_ne h]
      exact fun _ hx => ih (List.mem_append_left _ hx)

/-- A field whose allocation failed keeps its native address. -/
theorem malloc_ne_of_app (h : ∀ field ∈ (copyFields malloc i sources blocks b).1, ∃ offset, field = .app offset) :
    ∀ j < sources.length, malloc (i + j) ≠ 0 := by
  induction sources generalizing i blocks b with
  | nil => exact fun j hj => absurd hj (Nat.not_lt_zero j)
  | cons source sources ih =>
    by_cases hi : malloc i = 0
    · rw [copyFields_cons_zero hi, List.forall_mem_cons] at h
      obtain ⟨offset, hoffset⟩ := h.1
      cases hoffset
    · rw [copyFields_cons_ne hi, List.forall_mem_cons] at h
      intro j hj
      cases j with
      | zero => exact hi
      | succ j =>
        have hj' := ih h.2 j (Nat.lt_of_succ_lt_succ hj)
        rwa [Nat.add_right_comm] at hj'

/-- When no allocation fails, each field gets a new block with its bytes. -/
theorem copyFields_all (hfresh : ∀ i, malloc i ≠ 0 → ∀ c ∈ before, c.offset ≠ malloc i)
    (h : ∀ j < sources.length, malloc (i + j) ≠ 0) :
    (copyFields malloc i sources blocks b).2.2 = (b || !sources.isEmpty) ∧
      List.Forall₂ (fun field s => HoldsCopy before (copyFields malloc i sources blocks b).2.1 field s.bytes)
        (copyFields malloc i sources blocks b).1 sources ∧
      (copyFields malloc i sources blocks b).1 = (List.range' i sources.length).map fun j => .app (malloc j) := by
  induction sources generalizing i blocks b with
  | nil => exact ⟨by simp [copyFields], .nil, rfl⟩
  | cons source sources ih =>
    have hi : malloc i ≠ 0 := h 0 (Nat.zero_lt_succ _)
    have hrest : ∀ j < sources.length, malloc (i + 1 + j) ≠ 0 := fun j hj => by
      have hj' := h (j + 1) (Nat.succ_lt_succ hj)
      rwa [← Nat.add_assoc, Nat.add_right_comm] at hj'
    rw [copyFields_cons_ne hi]
    obtain ⟨hsuccess, hcopies, hfields⟩ := @ih (i + 1) (blocks ++ [⟨malloc i, source.size, source.bytes⟩]) true hrest
    refine ⟨by simp [hsuccess], .cons ?_ hcopies, ?_⟩
    · exact ⟨⟨malloc i, source.size, source.bytes⟩,
        copyFields_subset (List.mem_append_right _ (List.mem_singleton_self _)), rfl, rfl, hfresh i hi⟩
    · rw [hfields, List.length_cons, List.range'_succ, List.map_cons]

theorem app_of_holdsCopy {after : List Block} {fields : List PointerField} {supplied : List (Addr × List UInt8)}
    (h : List.Forall₂ (fun field s => HoldsCopy before after field s.2) fields supplied) :
    ∀ field ∈ fields, ∃ offset, field = .app offset := by
  induction h with
  | nil => exact fun _ hf => (by cases hf)
  | cons hcopy _ ih =>
    obtain ⟨b, -, hb, -⟩ := hcopy
    exact List.forall_mem_cons.2 ⟨⟨b.offset, hb⟩, ih⟩

/-- The copying of fields, the first of which is no null pointer, cannot fail cleanly: the first field keeps its
native pointer, or its block is not freed. -/
theorem ret_of_allOrNothing (A : Allocations before) (hne : source.address ≠ null) {filled : List PointerField}
    {supplied : List (Addr × List UInt8)} :
    let r := copyFields A.malloc 0 (source :: sources) before false
    AllOrNothing before filled supplied ⟨r.2.2, r.1, r.2.1⟩ → r.2.2 = true := by
  intro r h
  by_contra hret
  rw [Bool.not_eq_true] at hret
  by_cases h0 : A.malloc 0 = 0
  · have hfirst : .native source.address ∈ r.1 := by
      show _ ∈ (copyFields A.malloc 0 (source :: sources) before false).1
      rw [copyFields_cons_zero h0]
      exact List.mem_cons_self
    exact hne (h.noNative hret _ hfirst)
  · have hblock : (⟨A.malloc 0, source.size, source.bytes⟩ : Block) ∈ r.2.1 := by
      show _ ∈ (copyFields A.malloc 0 (source :: sources) before false).2.1
      rw [copyFields_cons_ne h0]
      exact copyFields_subset (List.mem_append_right _ (List.mem_singleton_self _))
    have hfreed : r.2.1 = before := h.freed hret
    exact A.fresh 0 h0 _ (hfreed ▸ hblock) rfl

/-- When no allocation fails, the copying succeeds. -/
theorem allOrNothing_of_malloc (A : Allocations before) (hcons : sources ≠ [])
    (hall : ∀ j < sources.length, A.malloc j ≠ 0) :
    let r := copyFields A.malloc 0 sources before false
    AllOrNothing before (sources.map fun s => .native s.address) (sources.map fun s => (s.address, s.bytes))
      ⟨r.2.2, r.1, r.2.1⟩ := by
  intro r
  have hall' : ∀ j < sources.length, A.malloc (0 + j) ≠ 0 := fun j hj => by
    rw [Nat.zero_add]
    exact hall j hj
  obtain ⟨hsuccess, hcopies, hfields⟩ := @copyFields_all _ 0 before before false _ A.fresh hall'
  have hret : r.2.2 = true := by
    show (copyFields A.malloc 0 sources before false).2.2 = true
    rw [hsuccess]
    simp [hcons]
  have hfail : ∀ {P : Prop}, r.2.2 = false → P := fun hfalse => by
    rw [hret] at hfalse
    cases hfalse
  refine ⟨fun _ => List.forall₂_map_right_iff.2 hcopies, fun _ => ?_, fun hfalse => hfail hfalse,
    fun hfalse => hfail hfalse, fun hfalse => hfail hfalse⟩
  show r.1.Nodup
  rw [hfields]
  refine List.Nodup.map_on (fun j hj k _ hjk => ?_) List.nodup_range'
  have hj' : A.malloc j ≠ 0 := hall j (by simpa using hj)
  exact A.distinct j k hj' (PointerField.app.inj hjk)

/-- The copying of fields, the first of which is no null pointer, is all or nothing exactly when no allocation
fails. -/
theorem copyFields_allOrNothing_iff (A : Allocations before) (hne : source.address ≠ null) :
    let r := copyFields A.malloc 0 (source :: sources) before false
    AllOrNothing before ((source :: sources).map fun s => .native s.address)
        ((source :: sources).map fun s => (s.address, s.bytes)) ⟨r.2.2, r.1, r.2.1⟩ ↔
      ∀ j < (source :: sources).length, A.malloc j ≠ 0 := by
  constructor
  · intro h j hj
    have hret := ret_of_allOrNothing A hne h
    have hj' := malloc_ne_of_app (app_of_holdsCopy (h.copied hret)) j hj
    rwa [Nat.zero_add] at hj'
  · exact allOrNothing_of_malloc A (List.cons_ne_nil _ _)

/-! ## The wrappers -/

/-- A string's terminator is the last byte copied. -/
theorem take_strlen {memory : List UInt8} (h : 0 ∈ memory) :
    memory.take (strlen memory + 1) = memory.takeWhile (fun c => c != 0) ++ [0] := by
  induction memory with
  | nil => cases h
  | cons c memory ih =>
    unfold strlen
    by_cases hc : c = 0
    · simp [hc]
    · have hrest : 0 ∈ memory := (List.mem_cons.1 h).resolve_left (Ne.symm hc)
      have htake := ih hrest
      unfold strlen at htake
      rw [List.takeWhile_cons_of_pos (by simpa using hc), List.length_cons, List.take_succ_cons, htake,
        List.cons_append]

variable {valid : Bool} {c : ResultCall}

/-- A wrapper that does not call CHRE, or whose call fails, leaves everything as it was. -/
theorem whole_of_none (h : valid = false ∨ c.supplied = none) : c.Whole malloc valid before := by
  have hsupply : (if valid then c.supplied else none) = none := by
    rcases h with h | h
    · rw [h]
      rfl
    · rw [h, ite_self]
  have houtcome : c.outcome malloc valid before = ⟨false, c.pointersBefore, before⟩ := by
    rcases h with h | h
    · subst h
      cases c <;> rfl
    · cases c with
      | getSensorInfo supply | audioGetSource supply | nanSubscribe supply =>
        obtain rfl : supply = none := Option.map_eq_none_iff.1 h
        cases valid <;> rfl
  have hpointers : ∀ address, .native address ∉ c.pointersBefore := by
    intro address
    cases c <;> simp [ResultCall.pointersBefore]
  unfold ResultCall.Whole
  rw [hsupply, houtcome]
  exact ⟨fun h => (by cases h), fun h => (by cases h), fun _ address ha => absurd ha (hpointers address),
    fun _ => .inl rfl, fun _ => rfl⟩

theorem ChreString.source_bytes (s : ChreString) :
    s.source.bytes = s.memory.takeWhile (fun c => c != 0) ++ [0] := take_strlen s.terminated

/-- What is copied is what CHRE supplies. -/
theorem supplied_eq : c.supplied = c.sources.map (List.map fun s => (s.address, s.bytes)) := by
  cases c with
  | getSensorInfo supply | audioGetSource supply =>
    cases supply with
    | none => rfl
    | some name =>
      simp only [ResultCall.supplied, ResultCall.sources, Option.map_some, List.map_cons, List.map_nil,
        name.source_bytes]
      rfl
  | nanSubscribe supply =>
    cases supply with
    | none => rfl
    | some s =>
      simp only [ResultCall.supplied, ResultCall.sources, Option.map_some, List.map_cons, List.map_nil,
        s.service.source_bytes]
      rfl

theorem outcome_eq (h : c.sources = some sources) : c.outcome malloc true before =
    ⟨(copyFields malloc 0 sources before false).2.2, (copyFields malloc 0 sources before false).1,
      (copyFields malloc 0 sources before false).2.1⟩ := by
  cases c with
  | getSensorInfo supply | audioGetSource supply | nanSubscribe supply =>
    obtain ⟨s, rfl, rfl⟩ := Option.map_eq_some_iff.1 h
    rfl

/-- The first field is a string. -/
theorem sources_cons (h : c.sources = some sources) :
    sources.length = c.pointersBefore.length ∧ ∃ source rest, sources = source :: rest ∧ source.address ≠ null := by
  cases c with
  | getSensorInfo supply | audioGetSource supply =>
    obtain ⟨name, rfl, rfl⟩ := Option.map_eq_some_iff.1 h
    exact ⟨rfl, _, _, rfl, name.address_ne⟩
  | nanSubscribe supply =>
    obtain ⟨s, rfl, rfl⟩ := Option.map_eq_some_iff.1 h
    exact ⟨rfl, _, _, rfl, s.service.address_ne⟩

theorem whole_some_iff (A : Allocations before) (h : c.sources = some sources) :
    c.Whole A.malloc true before ↔ ∀ j < c.pointersBefore.length, A.malloc j ≠ 0 := by
  obtain ⟨hlen, source, rest, rfl, hne⟩ := sources_cons h
  have hcopy := @copyFields_allOrNothing_iff before rest source A hne
  unfold ResultCall.Whole
  rw [if_pos rfl, supplied_eq, h, Option.map_some, outcome_eq h, ← hlen]
  simp only [List.map_map]
  exact hcopy

/-- A call is all or nothing exactly when, once CHRE has filled the structure, no allocation fails. -/
theorem whole_iff (A : Allocations before) (valid : Bool) (c : ResultCall) : c.Whole A.malloc valid before ↔
    (valid = true → c.supplied ≠ none → ∀ j < c.pointersBefore.length, A.malloc j ≠ 0) := by
  cases valid with
  | false => exact iff_of_true (whole_of_none (.inl rfl)) fun h => (by cases h)
  | true =>
    cases h : c.sources with
    | none =>
      have hsupplied : c.supplied = none := by rw [supplied_eq, h, Option.map_none]
      exact iff_of_true (whole_of_none (.inr hsupplied)) fun _ hne => absurd hsupplied hne
    | some sources =>
      have hsupplied : c.supplied ≠ none := by
        rw [supplied_eq, h]
        exact Option.some_ne_none _
      rw [whole_some_iff A h]
      exact ⟨fun hall _ _ => hall, fun hall => hall rfl hsupplied⟩

/-- Only the third allocation succeeds. -/
def thirdOnly : Allocations [] where
  malloc i := if i = 2 then 0x100 else 0
  fresh _ _ _ hb := by cases hb
  distinct i j hi hij := by
    by_cases h : i = 2
    · by_cases hj : j = 2
      · rw [h, hj]
      · rw [if_neg hj] at hij
        exact absurd hij hi
    · exact absurd (if_neg h) hi

def subscription : NanSupply :=
  ⟨⟨0x9000, [0x41, 0], by decide, by decide⟩, ⟨0x9100, [1, 2], 2, by decide⟩, ⟨0x9200, [3], 1, by decide⟩⟩

/-- The subscription returns true with the native pointer of its service. -/
theorem subscription_not_whole :
    ¬ ∀ (before : List Block) (A : Allocations before) (valid : Bool) (c : ResultCall),
      c.Whole A.malloc valid before := by
  intro h
  have hwhole := h [] thirdOnly true (.nanSubscribe (some subscription) 0 0 0)
  have hservice := app_of_holdsCopy (hwhole.copied rfl) (.native 0x9000) List.mem_cons_self
  obtain ⟨offset, hoffset⟩ := hservice
  cases hoffset

end VelaWasm.Chre
