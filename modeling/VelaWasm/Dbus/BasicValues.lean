/-
Basic values of a message: `glue_dbus_message_iter_append_basic` and `glue_dbus_message_iter_get_basic`. The writer
translates the pointers of the three string types; the reader translates what it reads of these, and of
file descriptors.
-/
import VelaWasm.Dbus.ArgsRoundTrip

namespace VelaWasm.Dbus

/-! ## Variables -/

/-- 1, 2, 4 or 8 bytes. -/
inductive Width where
  | byte | half | word | long
  deriving DecidableEq, Repr

/-- The width of a variable of the type; the string types have pointers. -/
def BasicType.width : BasicType → Width
  | byte => .byte
  | int16 | uint16 => .half
  | boolean | int32 | uint32 | unixFd | string | objectPath | signature => .word
  | int64 | uint64 | double => .long

/-- The value at `p`, the first byte lowest. -/
def load (m : Mem) (p : Addr) : Width → UInt64
  | .byte => (m p % 256).toUInt64
  | .half => (m p % 65536).toUInt64
  | .word => (m p).toUInt64
  | .long => (m p).toUInt64 + (m (p + 4)).toUInt64 * 0x100000000

/-- Write a value at `p`. -/
def store (m : Mem) (p : Addr) (v : UInt64) : Width → Mem
  | .byte => Function.update m p (m p / 256 * 256 + v.toUInt32 % 256)
  | .half => Function.update m p (m p / 65536 * 65536 + v.toUInt32 % 65536)
  | .word => Function.update m p v.toUInt32
  | .long => Function.update (Function.update m p v.toUInt32) (p + 4) (v / 0x100000000).toUInt32

/-! ## The glue -/

/-- A value in a message; of a string type, the pointer that was given for it. -/
structure Item where
  type : BasicType
  value : UInt64
  deriving DecidableEq, Repr

section

variable (W : Wamr) (env : Addr)

/-- `glue_dbus_message_iter_append_basic`: libdbus reads the variable at `parm3`. -/
def glueDbusMessageIterAppendBasic (type : BasicType) (parm3 : Addr) (m : Mem) (message : List Item) :
    Mem × List Item :=
  let m := if dbusMessageArgTypeIsString type.code then translateAt W env true parm3 m else m
  let message := message ++ [⟨type, load m parm3 type.width⟩]
  (if dbusMessageArgTypeIsString type.code then translateAt W env false parm3 m else m, message)

/-- The variables appended one after the other. -/
def appendAll : List (BasicType × Addr) → Mem → List Item → Mem × List Item
  | [], m, message => (m, message)
  | (type, p) :: vars, m, message =>
    let (m, message) := glueDbusMessageIterAppendBasic W env type p m message
    appendAll vars m message

/-- `dbus_message_iter_get_arg_type`, with the iterator at the value `i`. -/
def dbusMessageIterGetArgType (message : List Item) (i : ℕ) : UInt32 :=
  match message[i]? with
  | none => dbusTypeInvalid
  | some item => item.type.code

/-- `dbus_message_iter_get_basic` at the value `i`, of which the message has a string at `home i`. -/
def dbusMessageIterGetBasic (home : ℕ → Addr) (message : List Item) (i : ℕ) (value : Addr) (m : Mem) : Mem :=
  match message[i]? with
  | none => m
  | some item =>
    store m value (if dbusMessageArgTypeIsString item.type.code then (home i).toUInt64 else item.value)
      item.type.width

/-- `glue_dbus_message_iter_get_basic` -/
def glueDbusMessageIterGetBasic (home : ℕ → Addr) (message : List Item) (i : ℕ) (parm2 : Addr) (m : Mem) : Mem :=
  let type := dbusMessageIterGetArgType message i
  let m := dbusMessageIterGetBasic home message i parm2 m
  if dbusMessageArgTypeIsString type || type == dbusTypeArray || type == BasicType.unixFd.code then
    translateAt W env false parm2 m
  else m

/-! ## The property -/

/-- libdbus has a copy of each string that was appended, by the strings that stand in native memory. -/
def Copied (strings : Addr → List Char) (home : ℕ → Addr) (message : List Item) : Prop :=
  ∀ i item, message[i]? = some item → dbusMessageArgTypeIsString item.type.code = true →
    strings (home i) = strings item.value.toUInt32

/-- The variable at `q` has the value that the one at `p` has: for a string type, the application address of
an equal string. -/
def SameValue (strings : Addr → List Char) (type : BasicType) (m : Mem) (p : Addr) (m' : Mem) (q : Addr) : Prop :=
  if dbusMessageArgTypeIsString type.code then
    strings (translate W env true (m' q)) = strings (translate W env true (m p))
  else load m' q type.width = load m p type.width

/-- Appending leaves memory as it was, and each value read back, into any variable, is the one appended. -/
structure Survives (strings : Addr → List Char) (home : ℕ → Addr) (vars : List (BasicType × Addr)) (m : Mem) :
    Prop where
  unchanged : (appendAll W env vars m []).1 = m
  read : ∀ i type p, vars[i]? = some (type, p) → ∀ m' q, SameValue W env strings type m p
    (glueDbusMessageIterGetBasic W env home (appendAll W env vars m []).2 i q m') q

end

/-! ## Loads and stores -/

variable {W : Wamr} {env : Addr} {m m' : Mem} {p q : Addr}

/-- A value loaded with a width is read back after it is stored. -/
theorem load_store (width : Width) : load (store m q (load m' p width) width) q width = load m' p width := by
  have hne : q ≠ q + 4 := by grind
  cases width with
  | byte =>
    simp only [load, store, Function.update_self]
    rw [← UInt64.toNat_inj]
    simp
  | half =>
    simp only [load, store, Function.update_self]
    rw [← UInt64.toNat_inj]
    simp
  | word => simp only [load, store, Function.update_self, UInt32.toUInt32_toUInt64]
  | long =>
    simp only [load, store, Function.update_self, Function.update_of_ne hne]
    generalize (m' p).toUInt64 + (m' (p + 4)).toUInt64 * 0x100000000 = v
    have hv := v.toNat_lt
    rw [← UInt64.toNat_inj]
    simp
    omega

/-! ## Appending -/

/-- What libdbus takes from a variable: the pointer to a string is native by then. -/
def itemOf (W : Wamr) (env : Addr) (m : Mem) (var : BasicType × Addr) : Item where
  type := var.1
  value := if dbusMessageArgTypeIsString var.1.code then (translate W env true (m var.2)).toUInt64
    else load m var.2 var.1.width

theorem width_of_string {type : BasicType} (h : dbusMessageArgTypeIsString type.code = true) : type.width = .word := by
  cases type <;> first | rfl | exact absurd h (by decide)

/-- The second translation of a string's pointer undoes the first. -/
theorem append_eq (hinv : Function.LeftInverse (translate W env false) (translate W env true)) (type : BasicType)
    (message : List Item) :
    glueDbusMessageIterAppendBasic W env type p m message = (m, message ++ [itemOf W env m (type, p)]) := by
  unfold glueDbusMessageIterAppendBasic itemOf
  cases hs : dbusMessageArgTypeIsString type.code with
  | false => rfl
  | true =>
    have hundo : translateAt W env false p (translateAt W env true p m) = m := by
      unfold translateAt
      rw [Function.update_self, hinv, Function.update_idem, Function.update_eq_self]
    have hload : load (translateAt W env true p m) p .word = (translate W env true (m p)).toUInt64 := by
      rw [load, translateAt, Function.update_self]
    simp only [if_true, hundo, width_of_string hs, hload]

theorem appendAll_eq (hinv : Function.LeftInverse (translate W env false) (translate W env true))
    (vars : List (BasicType × Addr)) (message : List Item) :
    appendAll W env vars m message = (m, message ++ vars.map (itemOf W env m)) := by
  induction vars generalizing message with
  | nil => simp [appendAll]
  | cons var vars ih =>
    obtain ⟨type, p⟩ := var
    rw [appendAll, append_eq hinv]
    show appendAll W env vars m (message ++ [itemOf W env m (type, p)]) = _
    rw [ih, List.map_cons, List.append_assoc]
    rfl

/-! ## Reading -/

section

variable {strings : Addr → List Char} {home : ℕ → Addr} {message : List Item} {i : ℕ} {item : Item}

/-- Of the basic types the reader translates those of the writer and `UNIX_FD`. -/
theorem get_eq (hi : message[i]? = some item) : glueDbusMessageIterGetBasic W env home message i q m =
    if dbusMessageArgTypeIsString item.type.code = true ∨ item.type = .unixFd then
      translateAt W env false q (dbusMessageIterGetBasic home message i q m)
    else dbusMessageIterGetBasic home message i q m := by
  have hcase : (dbusMessageArgTypeIsString item.type.code || item.type.code == dbusTypeArray ||
      item.type.code == BasicType.unixFd.code) = true ↔
      dbusMessageArgTypeIsString item.type.code = true ∨ item.type = .unixFd := by
    cases item.type <;> decide
  unfold glueDbusMessageIterGetBasic dbusMessageIterGetArgType
  simp only [hi, hcase]

theorem get_string (hi : message[i]? = some item) (hs : dbusMessageArgTypeIsString item.type.code = true) :
    glueDbusMessageIterGetBasic W env home message i q m q = translate W env false (home i) := by
  rw [get_eq hi, if_pos (.inl hs)]
  unfold dbusMessageIterGetBasic
  simp only [hi, hs, if_true, width_of_string hs, store, translateAt, Function.update_self,
    UInt32.toUInt32_toUInt64]

theorem get_unixFd (hi : message[i]? = some item) (hf : item.type = .unixFd) :
    glueDbusMessageIterGetBasic W env home message i q m q = translate W env false item.value.toUInt32 := by
  have hs : dbusMessageArgTypeIsString item.type.code = false := by
    rw [hf]
    decide
  have hwidth : item.type.width = .word := by
    rw [hf]
    rfl
  rw [get_eq hi, if_pos (.inr hf)]
  unfold dbusMessageIterGetBasic
  simp only [hi, hs, Bool.false_eq_true, if_false, hwidth, store, translateAt, Function.update_self]

theorem get_fixed (hi : message[i]? = some item) (hs : dbusMessageArgTypeIsString item.type.code = false)
    (hf : item.type ≠ .unixFd) :
    glueDbusMessageIterGetBasic W env home message i q m = store m q item.value item.type.width := by
  have hno : ¬ (dbusMessageArgTypeIsString item.type.code = true ∨ item.type = .unixFd) := by simp [hs, hf]
  rw [get_eq hi, if_neg hno]
  unfold dbusMessageIterGetBasic
  simp [hi, hs]

/-- A value is read back exactly when it is no file descriptor that the translation changes. -/
theorem sameValue_iff (hright : Function.LeftInverse (translate W env true) (translate W env false)) {type : BasicType}
    (hi : message[i]? = some (itemOf W env m (type, p))) (hcopy : Copied strings home message) :
    SameValue W env strings type m p (glueDbusMessageIterGetBasic W env home message i q m') q ↔
      (type = .unixFd → translate W env false (m p) = m p) := by
  unfold SameValue
  cases hs : dbusMessageArgTypeIsString type.code with
  | true =>
    have hf : type ≠ .unixFd := by
      rintro rfl
      exact absurd hs (by decide)
    have hhome := hcopy i _ hi hs
    simp only [itemOf, hs, if_true, UInt32.toUInt32_toUInt64] at hhome
    rw [if_pos rfl, get_string hi hs, hright]
    exact iff_of_true hhome fun h => absurd h hf
  | false =>
    rw [if_neg Bool.false_ne_true]
    by_cases hf : type = .unixFd
    · subst hf
      have hvalue : (itemOf W env m (.unixFd, p)).value.toUInt32 = m p := UInt32.toUInt32_toUInt64 _
      show (glueDbusMessageIterGetBasic W env home message i q m' q).toUInt64 = (m p).toUInt64 ↔ _
      rw [get_unixFd hi rfl, hvalue, UInt32.toUInt64_inj]
      exact ⟨fun h _ => h, fun h => h rfl⟩
    · have hvalue : (itemOf W env m (type, p)).value = load m p type.width := by simp [itemOf, hs]
      rw [get_fixed hi hs hf, hvalue]
      exact iff_of_true (load_store _) fun h => absurd h hf

/-- Basic values survive exactly when the translation leaves each file descriptor as it is. -/
theorem survives_iff (hleft : Function.LeftInverse (translate W env false) (translate W env true))
    (hright : Function.LeftInverse (translate W env true) (translate W env false)) {vars : List (BasicType × Addr)}
    (hcopy : Copied strings home (appendAll W env vars m []).2) :
    Survives W env strings home vars m ↔ ∀ var ∈ vars, var.1 = .unixFd → translate W env false (m var.2) = m var.2 := by
  have happend : appendAll W env vars m [] = (m, vars.map (itemOf W env m)) := appendAll_eq hleft vars []
  rw [happend] at hcopy
  have hitem : ∀ i type p, vars[i]? = some (type, p) →
      (vars.map (itemOf W env m))[i]? = some (itemOf W env m (type, p)) := fun i type p hi => by
    rw [List.getElem?_map, hi]
    rfl
  constructor
  · rintro ⟨-, hread⟩ ⟨type, p⟩ hvar
    obtain ⟨i, hi⟩ := List.getElem?_of_mem hvar
    have hsame := hread i type p hi m p
    rw [happend] at hsame
    exact (sameValue_iff hright (hitem i type p hi) hcopy).1 hsame
  · intro hfd
    refine ⟨by rw [happend], fun i type p hi m' q => ?_⟩
    rw [happend]
    exact (sameValue_iff hright (hitem i type p hi) hcopy).2 (hfd _ (List.mem_of_getElem? hi))

end

/-- A string at 0x3000, a byte, a 64-bit integer, and no file descriptor. -/
def appended : List (BasicType × Addr) := [(.string, 0x2000), (.byte, 0x2004), (.int64, 0x2008)]

/-- The native strings: the one of the application and the copy in the message. -/
def nativeStrings : Addr → List Char := fun a => if a = 0x4000 ∨ a = 0x9000 then "eth0".toList else []

theorem survives_appended :
    Survives (nullWamr 0x1000) 1 nativeStrings (fun _ => 0x9000) appended (argMem [0x3000, 0x7f, 5, 0xffffffff]) := by
  have hcopy : Copied nativeStrings (fun _ => 0x9000)
      (appendAll (nullWamr 0x1000) 1 appended (argMem [0x3000, 0x7f, 5, 0xffffffff]) []).2 := by
    intro i item hi hs
    have hall : ∀ item ∈ (appendAll (nullWamr 0x1000) 1 appended (argMem [0x3000, 0x7f, 5, 0xffffffff]) []).2,
        dbusMessageArgTypeIsString item.type.code = true →
          nativeStrings 0x9000 = nativeStrings item.value.toUInt32 := by decide
    exact hall item (List.mem_of_getElem? hi) hs
  exact (survives_iff (nullWamr_leftInverse (by decide) 1) (nullWamr_rightInverse (by decide) 1) hcopy).2 (by decide)

/-- A file descriptor is read back as an application address. -/
theorem unixFd_not_survives :
    ¬ ∀ (W : Wamr) (env : Addr) (strings : Addr → List Char) (home : ℕ → Addr) (vars : List (BasicType × Addr))
        (m : Mem),
      Function.LeftInverse (translate W env false) (translate W env true) →
      Function.LeftInverse (translate W env true) (translate W env false) →
      Copied strings home (appendAll W env vars m []).2 → Survives W env strings home vars m := by
  intro h
  have hcopy : Copied nativeStrings (fun _ => 0x9000)
      (appendAll (nullWamr 0x1000) 1 [(.unixFd, 0x2000)] (argMem [3]) []).2 := by
    intro i item hi hs
    have hall : ∀ item ∈ (appendAll (nullWamr 0x1000) 1 [(.unixFd, 0x2000)] (argMem [3]) []).2,
        dbusMessageArgTypeIsString item.type.code = false := by decide
    rw [hall item (List.mem_of_getElem? hi)] at hs
    cases hs
  have hread := (h _ 1 nativeStrings _ _ _ (nullWamr_leftInverse (by decide) 1) (nullWamr_rightInverse (by decide) 1)
    hcopy).read 0 .unixFd 0x2000 rfl (argMem []) 0x2004
  unfold SameValue at hread
  exact absurd hread (by decide)

end VelaWasm.Dbus
