/-
`glue_execl` and `glue_dbus_set_error`, whose native functions take C varargs. Of the application's arguments
they have the address of the area alone, and that address is what they pass on in their place: one argument,
whatever the application's are.
-/
import VelaWasm.Dbus.ArgsRoundTrip
import VelaWasm.Lib.CString
import VelaWasm.LibcBypass.FormatReading
import VelaWasm.LibcBypass.Scanf

namespace VelaWasm.LibcBypass

open VelaWasm.CString VelaWasm.Dbus VelaWasm.InPlace

/-! ## Strings of the word memory -/

/-- The bytes of the words, the lowest first. -/
def bytes (m : Mem) (p : Addr) : UInt8 := (m (p &&& ~~~3) >>> (8 * (p &&& 3))).toUInt8

def stringAt (m : Mem) (p : Addr) : List UInt8 := text (bytes m) p

def formatAt (m : Mem) (p : Addr) : List Char := (stringAt m p).map fun b => Char.ofNat b.toNat

/-! ## `execl` -/

/-- What the native function is given. -/
structure ExeclArgs where
  path : List UInt8
  args : List (List UInt8)
  deriving DecidableEq, Repr

/-- `execl` with the pointers of its argument list, which it reads up to NULL. -/
def execlArgs (m : Mem) (path : Addr) (args : List Addr) : ExeclArgs where
  path := stringAt m path
  args := (args.takeWhile (· ≠ null)).map (stringAt m)

section

variable (W : Wamr) (env : Addr) (execl : ExeclArgs → Callee) (parm1 format ap : Addr) (m : Mem)

/-- The memory that the native function is called on. -/
def execlMem : Mem := (vaListString2conv W env true (formatAt m format) ap m).1

/-- `glue_execl`: what it calls `execl` with, what it returns and the memory it leaves. The first argument of
the new program stands for the format. -/
def glueExecl : ExeclArgs × UInt32 × Mem :=
  let called := execlMem W env format ap m
  let passed := execlArgs called parm1 [format, ap, null]
  let (ret, left) := execl passed called
  (passed, ret, (vaListString2conv W env false (formatAt m format) ap left).1)

/-- The application's call: after the first argument, the words of the area up to the first zero one. -/
def execlRequest : Option ExeclArgs :=
  if format = null then some ⟨stringAt m parm1, []⟩
  else
    (walked m ap).map fun l =>
      ⟨stringAt m parm1, stringAt m format :: l.map fun q => stringAt m (translate W env true (m q))⟩

/-- The memory with the words translated that the walk over the area takes for strings. -/
def convertedArea (format : List Char) : Mem := applyAll (translate W env true) (stringWords format ap) m

/-- The translated words leave the strings passed as they are, and there is one argument at most behind the
first, which is what the area itself reads as. -/
def AreaReadsAsArgument : Prop :=
  let area := convertedArea W env ap m (formatAt m format)
  stringAt area parm1 = stringAt m parm1 ∧
    (format = null ∨ stringAt area format = stringAt m format ∧
      (ap = null ∨ ∃ q, walked m ap = some [q] ∧ stringAt area ap = stringAt m (translate W env true (m q))))

end

/-! ## `dbus_set_error` -/

/-- The bytes from an address on. -/
def textAt (m : Mem) (p : Addr) : UInt32 → UInt8 := fun i => bytes m (p + i)

/-- An argument of a format: the words of a value, or the bytes that a pointer leads to. -/
inductive FormatArg where
  | value (words : List UInt32)
  | text (bytes : UInt32 → UInt8)

/-- `vsnprintf` of the C library: the arguments it takes for a format, and the text it makes of the format and them. -/
structure Vsnprintf where
  reading : Reading
  expand : List Char → List FormatArg → List Char

/-- The argument that native code takes where the word `w` is passed, if a word is enough for it. -/
def takeWord (m : Mem) (w : UInt32) : VarargKind → Option FormatArg
  | .word => some (.value [w])
  | .text => some (.text (textAt m w))
  | .wide | .longDouble => none

/-- The arguments that native code takes where the word `w` is all that is passed. Taking more is undefined behaviour. -/
def takeVararg (m : Mem) (w : UInt32) : List VarargKind → Option (List FormatArg)
  | [] => some []
  | [k] => (takeWord m w k).map ([·])
  | _ => none

section

variable (W : Wamr) (env : Addr) (printf : Vsnprintf) (store : Option (List Char) → Mem → Mem) (format : List Char)
  (ap : Addr) (m : Mem)

/-- The memory that the native function is called on. -/
def setErrorMem : Mem := (vaListString2conv W env true format ap m).1

/-- `glue_dbus_set_error`: the message that `dbus_set_error` stores, if it has the arguments for it, and the
memory it leaves. -/
def glueDbusSetError : Option (List Char) × Mem :=
  let called := setErrorMem W env format ap m
  let message := (takeVararg called ap (printf.reading format)).map (printf.expand format)
  (message, (vaListString2conv W env false format ap (store message called)).1)

/-- An argument of the application, which stands at `q`. -/
def appArg (k : VarargKind) (q : ℕ) : FormatArg :=
  match k with
  | .text => .text (textAt m (translate W env true (m (UInt32.ofNat q))))
  | k => .value ((List.range k.words).map fun i => m (UInt32.ofNat (q + 4 * i)))

/-- The application's arguments. -/
def appArgs : List FormatArg :=
  (varargPlaces ap.toNat (printf.reading format)).map fun arg => appArg W env m arg.1 arg.2

/-- The format takes nothing, or a single argument for which the address of the area gives the same text. -/
def AreaExpandsAlike : Prop :=
  printf.reading format = [] ∨
    ∃ k arg, printf.reading format = [k] ∧ takeWord (convertedArea W env ap m format) ap k = some arg ∧
      printf.expand format [arg] = printf.expand format [appArg W env m k ap.toNat]

end

/-! ## What gets through -/

variable {W : Wamr} {env : Addr} {m : Mem} {ap : Addr}

theorem execl_forwards_iff {execl : ExeclArgs → Callee} {parm1 format : Addr} :
    execlRequest W env parm1 format ap m = some (glueExecl W env execl parm1 format ap m).1 ↔
      AreaReadsAsArgument W env parm1 format ap m := by
  show execlRequest W env parm1 format ap m = some (execlArgs (execlMem W env format ap m) parm1 [format, ap, null]) ↔ _
  have hmem : execlMem W env format ap m = convertedArea W env ap m (formatAt m format) := vaListString2conv_mem m
  rw [hmem]
  unfold execlRequest execlArgs AreaReadsAsArgument
  generalize convertedArea W env ap m (formatAt m format) = called
  by_cases hf : format = null
  · simp [hf, eq_comm]
  · by_cases ha : ap = null
    · simp [hf, ha, walked, eq_comm]
    · rw [if_neg hf]
      cases walked m ap with
      | none => simp [hf, ha]
      | some l =>
        have hone : [stringAt called ap] = l.map (fun q => stringAt m (translate W env true (m q))) ↔
            ∃ q, l = [q] ∧ stringAt m (translate W env true (m q)) = stringAt called ap := by
          rw [eq_comm, List.map_eq_singleton_iff]
        simp [hf, ha, eq_comm, hone]

section

variable {printf : Vsnprintf} {store : Option (List Char) → Mem → Mem} {format : List Char}

theorem place_of_takeWord {w : UInt32} {k : VarargKind} {arg : FormatArg} (h : takeWord m w k = some arg) (p : ℕ) :
    k.place p = p := by
  cases k with
  | word | text => rfl
  | wide | longDouble => cases h

theorem setError_forwards_iff :
    (glueDbusSetError W env printf store format ap m).1 =
        some (printf.expand format (appArgs W env printf format ap m)) ↔
      AreaExpandsAlike W env printf format ap m := by
  show (takeVararg (setErrorMem W env format ap m) ap (printf.reading format)).map (printf.expand format) = _ ↔ _
  have hmem : setErrorMem W env format ap m = convertedArea W env ap m format := vaListString2conv_mem m
  rw [hmem]
  unfold appArgs AreaExpandsAlike
  match printf.reading format with
  | [] => exact iff_of_true rfl (.inl rfl)
  | [k] =>
    cases harg : takeWord (convertedArea W env ap m format) ap k with
    | none =>
      refine iff_of_false (fun h => ?_) ?_
      · rw [takeVararg, harg] at h
        cases h
      · rintro (h | ⟨k', arg, hk, ha, -⟩)
        · cases h
        · rw [← List.singleton_inj.1 hk, harg] at ha
          cases ha
    | some arg =>
      rw [takeVararg, harg, varargPlaces, place_of_takeWord harg]
      constructor
      · exact fun h => .inr ⟨k, arg, rfl, harg, Option.some.inj h⟩
      · rintro (h | ⟨k', arg', hk', ha, h⟩)
        · cases h
        · rw [← List.singleton_inj.1 hk', harg] at ha
          cases ha
          rw [← List.singleton_inj.1 hk'] at h
          exact congrArg some h
  | k :: k' :: ks =>
    refine iff_of_false (fun h => ?_) ?_
    · cases h
    · rintro (h | ⟨_, _, h, -⟩) <;> cases h

end

/-- Both functions hand their native function the application's arguments exactly when these are what the
address of the area is taken for. -/
theorem varargs_forwarded_iff {execl : ExeclArgs → Callee} {parm1 arg : Addr} {printf : Vsnprintf}
    {store : Option (List Char) → Mem → Mem} {format : List Char} :
    (execlRequest W env parm1 arg ap m = some (glueExecl W env execl parm1 arg ap m).1 ↔
      AreaReadsAsArgument W env parm1 arg ap m) ∧
    ((glueDbusSetError W env printf store format ap m).1 =
        some (printf.expand format (appArgs W env printf format ap m)) ↔
      AreaExpandsAlike W env printf format ap m) :=
  ⟨execl_forwards_iff, setError_forwards_iff⟩

/-- The program name `p`, without arguments behind it. -/
def noArgsMem : Mem := Function.update (fun _ => 0) 0x5000 'p'.val

/-- `%c` takes a word, and the messages below have no other conversion. -/
def charReading : Reading
  | '%' :: 'c' :: format => .word :: charReading format
  | _ :: format => charReading format
  | [] => []

def expandChar : List Char → List FormatArg → List Char
  | '%' :: 'c' :: format, .value [w] :: args => Char.ofNat w.toUInt8.toNat :: expandChar format args
  | c :: format, args => c :: expandChar format args
  | [], _ => []

/-- A program with its name alone gets the area as a second argument, and a character of a message is one of the
address of the area. -/
theorem varargs_not_forwarded :
    (¬ ∀ (W : Wamr) (env : Addr) (execl : ExeclArgs → Callee) (parm1 arg ap : Addr) (m : Mem),
      Function.LeftInverse (translate W env false) (translate W env true) →
      Function.LeftInverse (translate W env true) (translate W env false) →
      translate W env true null = null → translate W env false null = null → (walked m ap).isSome →
      execlRequest W env parm1 arg ap m = some (glueExecl W env execl parm1 arg ap m).1) ∧
    ¬ ∀ (W : Wamr) (env : Addr) (printf : Vsnprintf) (store : Option (List Char) → Mem → Mem) (format : List Char)
      (ap : Addr) (m : Mem),
      Function.LeftInverse (translate W env false) (translate W env true) →
      Function.LeftInverse (translate W env true) (translate W env false) →
      translate W env true null = null → translate W env false null = null →
      (glueDbusSetError W env printf store format ap m).1 =
        some (printf.expand format (appArgs W env printf format ap m)) := by
  constructor
  · intro h
    have := execl_forwards_iff.1 (h (nullWamr 0x1000) 1 (fun _ m => (0, m)) 0x5000 0x5000 0x2000 noArgsMem
      (nullWamr_leftInverse (by decide) 1) (nullWamr_rightInverse (by decide) 1) (by decide) (by decide) (by decide))
    rcases this with ⟨-, h | ⟨-, h | ⟨q, h, -⟩⟩⟩
    · cases h
    · cases h
    · have hw : walked noArgsMem 0x2000 = some [] := rfl
      rw [hw] at h
      cases h
  · intro h
    have := h (nullWamr 0x1000) 1 ⟨charReading, expandChar⟩ (fun _ m => m) "%c".toList 0x2000 (fun _ => 'a'.val)
      (nullWamr_leftInverse (by decide) 1) (nullWamr_rightInverse (by decide) 1) (by decide) (by decide)
    revert this
    decide

end VelaWasm.LibcBypass
