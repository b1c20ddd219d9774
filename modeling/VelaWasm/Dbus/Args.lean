/-
The argument walker of the libdbus wrappers, `dbus_message_args_conv`: it goes through a varargs
area of alternating pointers and type tags and translates the pointers. A type that belongs to none
of its classes leaves the cursor where it is, so the pointer is read as the next tag.
-/
import VelaWasm.Wamr

namespace VelaWasm.Dbus

/-! ## Types -/

/-- libdbus's basic types. -/
inductive BasicType where
  | byte | boolean | int16 | uint16 | int32 | uint32 | int64 | uint64 | double | string | objectPath
  | signature | unixFd
  deriving DecidableEq, Repr

/-- `DBUS_TYPE_INVALID` -/
def dbusTypeInvalid : UInt32 := 0
/-- `DBUS_TYPE_ARRAY` -/
def dbusTypeArray : UInt32 := 'a'.val

/-- The type code `DBUS_TYPE_…` of a basic type. -/
def BasicType.code : BasicType → UInt32
  | byte => 'y'.val
  | boolean => 'b'.val
  | int16 => 'n'.val
  | uint16 => 'q'.val
  | int32 => 'i'.val
  | uint32 => 'u'.val
  | int64 => 'x'.val
  | uint64 => 't'.val
  | double => 'd'.val
  | string => 's'.val
  | objectPath => 'o'.val
  | signature => 'g'.val
  | unixFd => 'h'.val

/-- `dbus_message_arg_type_is_number`, which compares with `DBUS_TYPE_INT32` twice -/
def dbusMessageArgTypeIsNumber (type : UInt32) : Bool :=
  type == BasicType.int32.code || type == BasicType.int32.code || type == BasicType.uint16.code ||
    type == BasicType.byte.code || type == BasicType.boolean.code || type == BasicType.unixFd.code

/-- `dbus_message_arg_type_is_string` -/
def dbusMessageArgTypeIsString (type : UInt32) : Bool :=
  type == BasicType.string.code || type == BasicType.objectPath.code || type == BasicType.signature.code

/-! ## The walker -/

/-- What the walker does: it reads a tag, or translates the word at `pos` of the area or a word that
a pointer of the area leads to. -/
inductive ArgEvent where
  | tag (pos : Addr) (type : UInt32)
  | slot (pos : Addr)
  | pointee (addr : Addr)
  deriving DecidableEq, Repr

variable (W : Wamr) (env : Addr) (toNative : Bool)

/-- The element loop of the array branch, from element `i` on. -/
def arrayConv (array : Addr) : Nat → Nat → Mem → Mem × List ArgEvent
  | 0, _, m => (m, [])
  | n + 1, i, m =>
    let p := array + 4 * UInt32.ofNat i
    let (m, evs) := arrayConv array n (i + 1) (translateAt W env toNative p m)
    (m, .pointee p :: evs)

/-- A signed `int`, as the number of iterations of `for (i = 0; i < n; i++)`. -/
def loopCount (n : UInt32) : Nat := n.toInt32.toInt.toNat

/-- One pass of the loop before the next tag is read: memory, cursor and what was done. -/
def argConv (specType : UInt32) (pos : Addr) (m : Mem) : Mem × Addr × List ArgEvent :=
  if dbusMessageArgTypeIsString specType then
    if toNative then
      let m := translateAt W env true pos m
      (translateAt W env true (m pos) m, pos + 4, [.slot pos, .pointee (m pos)])
    else
      let p := m pos
      (translateAt W env false pos (translateAt W env false p m), pos + 4, [.pointee p, .slot pos])
  else if specType == dbusTypeArray then
    -- the element type stands at `pos`, the array and the element count follow
    if toNative then
      let m := translateAt W env true (pos + 4) m
      let array := W.addrAppToNative (W.getModuleInst env) (m (pos + 4))
      let m := translateAt W env true (pos + 8) m
      let (m, evs) := arrayConv W env true array (loopCount (m (pos + 8))) 0 m
      (m, pos + 12, .slot (pos + 4) :: .slot (pos + 8) :: evs)
    else
      let array := m (pos + 4)
      let m := translateAt W env false (pos + 4) m
      let n := m (pos + 8)
      let m := translateAt W env false (pos + 8) m
      let (m, evs) := arrayConv W env false array (loopCount n) 0 m
      (m, pos + 12, .slot (pos + 4) :: .slot (pos + 8) :: evs)
  else if dbusMessageArgTypeIsNumber specType then
    (translateAt W env toNative pos m, pos + 4, [.slot pos])
  else (m, pos, [])

/-- `dbus_message_args_conv` from the cursor `pos` on, for at most `fuel` passes: the memory it
leaves and what it did, once it has read `DBUS_TYPE_INVALID`. -/
def dbusMessageArgsConv : Nat → UInt32 → Addr → Mem → Option (Mem × List ArgEvent)
  | fuel, specType, pos, m =>
    if specType == dbusTypeInvalid then some (m, [])
    else
      match fuel with
      | 0 => none
      | fuel + 1 =>
        let (m, pos, evs) := argConv W env toNative specType pos m
        (dbusMessageArgsConv fuel (m pos) (pos + 4) m).map fun r => (r.1, evs ++ .tag pos (m pos) :: r.2)

/-! ## Argument lists -/

/-- The tag in front of the list, or at its end. -/
def tagOf : List (BasicType × Addr) → UInt32
  | [] => dbusTypeInvalid
  | (type, _) :: _ => type.code

/-- The area from `pos` on holds the pointers of the list, each followed by the next tag. -/
def LaidOut (m : Mem) : Addr → List (BasicType × Addr) → Prop
  | _, [] => True
  | pos, (_, p) :: args => m pos = p ∧ m (pos + 4) = tagOf args ∧ LaidOut m (pos + 8) args

/-- The words of an area of `n` arguments. -/
def area (pos : Addr) : Nat → List Addr
  | 0 => []
  | n + 1 => pos :: (pos + 4) :: area (pos + 8) n

/-- The native address of an argument's value. -/
def nativeOf (p : Addr) : Addr := if toNative then W.addrAppToNative (W.getModuleInst env) p else p

/-- The area of a list, in distinct words, with the strings' values outside of it. -/
structure ArgArea (m : Mem) (ap : Addr) (args : List (BasicType × Addr)) : Prop where
  words : LaidOut m ap args
  distinct : (area ap args.length).Nodup
  apart : ∀ a ∈ args, dbusMessageArgTypeIsString a.1.code → nativeOf W env toNative a.2 ∉ area ap args.length

/-- The tags after the first one, where they stand. -/
def tagEvents : Addr → List (BasicType × Addr) → List (Addr × UInt32)
  | _, [] => []
  | pos, _ :: args => (pos + 4, tagOf args) :: tagEvents (pos + 8) args

/-- The pointer slots. -/
def slots : Addr → List (BasicType × Addr) → List Addr
  | _, [] => []
  | pos, _ :: args => pos :: slots (pos + 8) args

def ArgEvent.tag? : ArgEvent → Option (Addr × UInt32)
  | tag pos type => some (pos, type)
  | _ => none

def ArgEvent.slot? : ArgEvent → Option Addr
  | slot pos => some pos
  | _ => none

/-- The walker stops, has read the list's tags in order from where they stand, and has translated
each pointer slot once. -/
def InStep (m : Mem) (ap : Addr) (args : List (BasicType × Addr)) : Prop :=
  ∃ fuel r, dbusMessageArgsConv W env toNative fuel (tagOf args) ap m = some r ∧
    r.2.filterMap ArgEvent.tag? = tagEvents ap args ∧ r.2.filterMap ArgEvent.slot? = slots ap args

/-- The basic types that neither class of the walker has. -/
def unclassified : List BasicType := [.int16, .uint32, .int64, .uint64, .double]

/-! ## One argument -/

variable {W env toNative} {m : Mem} {pos : Addr}

theorem class_iff (type : BasicType) : type ∉ unclassified ↔
    dbusMessageArgTypeIsString type.code = true ∨ dbusMessageArgTypeIsNumber type.code = true := by
  cases type <;> decide

theorem code_ne_array (type : BasicType) : (type.code == dbusTypeArray) = false := by
  cases type <;> decide

theorem code_ne_invalid (type : BasicType) : (type.code == dbusTypeInvalid) = false := by
  cases type <;> decide

/-- A pass over a classified type translates the slot at the cursor, and writes no other word but
the value of a string. -/
theorem argConv_classified {type : BasicType} (h : type ∉ unclassified) :
    ∃ m' evs, argConv W env toNative type.code pos m = (m', pos + 4, evs) ∧
      evs.filterMap ArgEvent.tag? = [] ∧ evs.filterMap ArgEvent.slot? = [pos] ∧
      ∀ q, q ≠ pos → (dbusMessageArgTypeIsString type.code → q ≠ nativeOf W env toNative (m pos)) → m' q = m q := by
  unfold argConv
  rw [code_ne_array]
  cases hs : dbusMessageArgTypeIsString type.code with
  | true =>
    cases toNative with
    | true =>
      refine ⟨_, _, rfl, rfl, rfl, fun q hq hp => ?_⟩
      have hself : translateAt W env true pos m pos = nativeOf W env true (m pos) :=
        Function.update_self _ _ _
      rw [hself, translateAt_of_ne (hp rfl), translateAt_of_ne hq]
    | false =>
      refine ⟨_, _, rfl, rfl, rfl, fun q hq hp => ?_⟩
      rw [translateAt_of_ne hq]
      exact translateAt_of_ne (hp rfl)
  | false =>
    have hn : dbusMessageArgTypeIsNumber type.code = true := by
      rcases (class_iff type).1 h with h | h
      · rw [hs] at h
        cases h
      · exact h
    rw [hn]
    exact ⟨_, _, rfl, rfl, rfl, fun q hq _ => translateAt_of_ne hq⟩

/-- A pass over any other basic type does nothing. -/
theorem argConv_unclassified {type : BasicType} (h : type ∈ unclassified) :
    argConv W env toNative type.code pos m = (m, pos, []) := by
  have hc := mt (class_iff type).2 (not_not.2 h)
  simp only [not_or, Bool.not_eq_true] at hc
  unfold argConv
  rw [code_ne_array, hc.1, hc.2]
  rfl

theorem dbusMessageArgsConv_succ {fuel : Nat} (type : BasicType) :
    dbusMessageArgsConv W env toNative (fuel + 1) type.code pos m =
      let (m, pos, evs) := argConv W env toNative type.code pos m
      (dbusMessageArgsConv W env toNative fuel (m pos) (pos + 4) m).map fun r =>
        (r.1, evs ++ .tag pos (m pos) :: r.2) := by
  rw [dbusMessageArgsConv, code_ne_invalid]
  rfl

/-! ## The area -/

theorem laidOut_congr {m m' : Mem} : ∀ {pos : Addr} {args : List (BasicType × Addr)},
    (∀ q ∈ area pos args.length, m' q = m q) → LaidOut m pos args → LaidOut m' pos args
  | _, [], _, _ => trivial
  | pos, _ :: args, h, ⟨hp, ht, hl⟩ => by
    simp only [List.length_cons, area, List.forall_mem_cons] at h
    exact ⟨h.1.trans hp, h.2.1.trans ht, laidOut_congr h.2.2 hl⟩

/-- After a pass over the first argument the rest of the area is as it was. -/
theorem ArgArea.tail {type : BasicType} {p : Addr} {args : List (BasicType × Addr)} {m' : Mem}
    (h : ArgArea W env toNative m pos ((type, p) :: args))
    (hm : ∀ q, q ≠ pos → (dbusMessageArgTypeIsString type.code → q ≠ nativeOf W env toNative (m pos)) → m' q = m q) :
    m' (pos + 4) = tagOf args ∧ ArgArea W env toNative m' (pos + 8) args := by
  obtain ⟨⟨hp, ht, hl⟩, hd, ha⟩ := h
  simp only [List.length_cons, area, List.nodup_cons, List.mem_cons, not_or] at hd
  rw [List.forall_mem_cons] at ha
  simp only [List.length_cons, area, List.mem_cons, not_or] at ha
  have hout : ∀ q, q = pos + 4 ∨ q ∈ area (pos + 8) args.length → m' q = m q := by
    intro q hq
    refine hm q ?_ fun hs => ?_
    · rintro rfl
      rcases hq with hq | hq
      · exact hd.1.1 hq
      · exact hd.1.2 hq
    · rw [hp]
      rintro rfl
      rcases hq with hq | hq
      · exact (ha.1 hs).2.1 hq
      · exact (ha.1 hs).2.2 hq
  refine ⟨(hout _ (.inl rfl)).trans ht, laidOut_congr (fun q hq => hout q (.inr hq)) hl, hd.2.2, ?_⟩
  exact fun a ha' hs => (ha.2 a ha' hs).2.2

/-! ## Keeping in step -/

theorem inStep_nil : InStep W env toNative m pos [] := ⟨0, (m, []), rfl, rfl, rfl⟩

/-- Over a classified argument the walker stays in step exactly when it does over the rest. -/
theorem inStep_cons {type : BasicType} {p : Addr} {args : List (BasicType × Addr)} (hc : type ∉ unclassified)
    (h : ArgArea W env toNative m pos ((type, p) :: args)) : ∃ m', ArgArea W env toNative m' (pos + 8) args ∧
      (InStep W env toNative m pos ((type, p) :: args) ↔ InStep W env toNative m' (pos + 8) args) := by
  obtain ⟨m', evs, hconv, htag, hslot, hm⟩ := @argConv_classified W env toNative m pos type hc
  obtain ⟨hnext, harea⟩ := h.tail hm
  have hpos : pos + 4 + 4 = pos + 8 := by grind
  have hstep : ∀ fuel, dbusMessageArgsConv W env toNative (fuel + 1) type.code pos m =
      (dbusMessageArgsConv W env toNative fuel (tagOf args) (pos + 8) m').map fun r =>
        (r.1, evs ++ .tag (pos + 4) (tagOf args) :: r.2) := by
    intro fuel
    rw [dbusMessageArgsConv_succ, hconv]
    simp only [hnext, hpos]
  refine ⟨m', harea, ⟨?_, ?_⟩⟩
  · rintro ⟨fuel, r, hr, htags, hslots⟩
    cases fuel with
    | zero =>
      rw [tagOf, dbusMessageArgsConv, code_ne_invalid] at hr
      cases hr
    | succ fuel =>
      rw [tagOf, hstep] at hr
      obtain ⟨q, hq, rfl⟩ := Option.map_eq_some_iff.1 hr
      refine ⟨fuel, q, hq, ?_, ?_⟩
      · simpa [htag, List.filterMap_cons, ArgEvent.tag?, tagEvents] using htags
      · simpa [hslot, List.filterMap_cons, ArgEvent.slot?, slots] using hslots
  · rintro ⟨fuel, r, hr, htags, hslots⟩
    refine ⟨fuel + 1, (r.1, evs ++ .tag (pos + 4) (tagOf args) :: r.2), ?_, ?_, ?_⟩
    · rw [tagOf, hstep, hr]
      rfl
    · simp [htag, ArgEvent.tag?, tagEvents, htags]
    · simp [hslot, List.filterMap_cons, ArgEvent.slot?, slots, hslots]

/-- An argument of an unclassified type is read as a tag. -/
theorem not_inStep_unclassified {type : BasicType} {p : Addr} {args : List (BasicType × Addr)}
    (hc : type ∈ unclassified) : ¬ InStep W env toNative m pos ((type, p) :: args) := by
  rintro ⟨fuel, r, hr, htags, -⟩
  cases fuel with
  | zero =>
    rw [tagOf, dbusMessageArgsConv, code_ne_invalid] at hr
    cases hr
  | succ fuel =>
    rw [tagOf, dbusMessageArgsConv_succ, argConv_unclassified hc] at hr
    obtain ⟨r, -, rfl⟩ := Option.map_eq_some_iff.1 hr
    simp only [List.nil_append, List.filterMap_cons, ArgEvent.tag?, tagEvents, List.cons.injEq, Prod.mk.injEq] at htags
    have hne : pos ≠ pos + 4 := by grind
    exact hne htags.1.1

/-- The walker keeps in step with a list of basic types exactly when the list has none of the types
`INT16`, `UINT32`, `INT64`, `UINT64` and `DOUBLE`. -/
theorem inStep_iff_classified {args : List (BasicType × Addr)} (h : ArgArea W env toNative m pos args) :
    InStep W env toNative m pos args ↔ ∀ a ∈ args, a.1 ∉ unclassified := by
  induction args generalizing m pos with
  | nil => exact iff_of_true inStep_nil (by simp)
  | cons a args ih =>
    obtain ⟨type, p⟩ := a
    rw [List.forall_mem_cons]
    by_cases hc : type ∈ unclassified
    · exact iff_of_false (not_inStep_unclassified hc) fun hall => hall.1 hc
    · obtain ⟨m', harea, hiff⟩ := inStep_cons hc h
      rw [hiff, ih harea]
      exact ⟨fun hall => ⟨hc, hall⟩, fun hall => hall.2⟩

def argWamr : Wamr := .linear id fun _ => 0x1000

/-- The memory of an argument area at `0x2000`. -/
def argMem (words : List UInt32) : Mem := fun a => words.getD ((a - 0x2000) / 4).toNat 0

def stringAndInt : List (BasicType × Addr) := [(.string, 0x5000), (.int32, 0x5004)]

theorem inStep_stringAndInt :
    InStep argWamr 1 true (argMem [0x5000, 'i'.val, 0x5004, 0]) 0x2000 stringAndInt := by
  have h : ArgArea argWamr 1 true (argMem [0x5000, 'i'.val, 0x5004, 0]) 0x2000 stringAndInt :=
    ⟨⟨by decide, by decide, by decide, by decide, trivial⟩, by decide, by decide⟩
  exact (inStep_iff_classified h).2 (by decide)

def oneUint32 : List (BasicType × Addr) := [(.uint32, 0x5000)]

/-- A `DBUS_TYPE_UINT32` argument: its pointer is read as a tag. -/
theorem uint32_out_of_step :
    ¬ ∀ (W : Wamr) (env : Addr) (toNative : Bool) (m : Mem) (ap : Addr) (args : List (BasicType × Addr)),
      ArgArea W env toNative m ap args → InStep W env toNative m ap args := by
  intro h
  have harea : ArgArea argWamr 1 true (argMem [0x5000, 0]) 0x2000 oneUint32 :=
    ⟨⟨by decide, by decide, trivial⟩, by decide, by decide⟩
  exact not_inStep_unclassified (by decide) (h _ _ _ _ _ _ harea)

end VelaWasm.Dbus
