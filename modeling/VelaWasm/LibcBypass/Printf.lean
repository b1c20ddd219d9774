/-
`_vprintf_wa`, the formatter behind `glue_printf`'s siblings `glue_snprintf` and `glue_sprintf`. It
walks the format and an argument area in wasm memory, copies each directive into a buffer of its own
and has the native `snprintf` render it. What it does is recorded as a list of events; the outcomes of
its allocations, the validity of strings and the rendering are given by the environment.
-/
import VelaWasm.LibcBypass.Format
import VelaWasm.Wamr

namespace VelaWasm.LibcBypass

/-! ## Data -/

/-- The character that ends a C string. -/
def nul : Char := Char.ofNat 0

/-- The variadic argument of the native `snprintf`. -/
inductive PrintfArg where
  | int (d : UInt32)
  | long (lld : UInt64)
  | double (bits : UInt64)
  | str (s : Option (List Char))
  deriving DecidableEq, Repr

/-- What `_vprintf_wa` finds around it. -/
structure PrintfEnv where
  moduleInst : Addr
  wamr : Wamr
  /-- `native_end_addr`, if `wasm_runtime_get_native_addr_range` finds the arguments' memory -/
  nativeEndAddr : Option Addr
  /-- `wasm_runtime_validate_app_str_addr` -/
  validateAppStrAddr : Addr → Bool
  mem : Mem
  /-- the characters of the C string at a native address -/
  cstring : Addr → List Char
  /-- whether the `n`-th call of `malloc` succeeds -/
  mallocOk : Nat → Bool
  /-- the complete rendering of a directive, if the native `snprintf` does not fail -/
  render : List Char → PrintfArg → Option (List Char)

inductive PrintfEvent where
  | out (c : Char)
  /-- an argument is fetched from the area -/
  | fetch (kind : ArgKind) (pos : Addr)
  /-- the `id`-th call of `malloc` -/
  | malloc (id len : Nat) (ok : Bool)
  /-- the block of the `id`-th call is freed -/
  | free (id : Nat)
  /-- `n` characters of the format are copied to a cleared `fmt_buf` of `len` characters -/
  | copy (len n : Nat)
  /-- a character of a `fmt_buf` of `len` characters is written -/
  | write (len idx : Nat)
  | snprintf (fmtBuf : List Char) (size : Nat) (arg : PrintfArg)
  /-- `wasm_runtime_set_exception` -/
  | exception
  deriving DecidableEq, Repr

/-- How a call ends: with `true`, by `goto fail`, or with `false` at an invalid string. -/
inductive PrintfEnd where
  | done | outOfBounds | invalidString
  deriving DecidableEq, Repr

/-- The locals of the loop. `directive` is the format from `fmt_start_addr` up to `fmt`. -/
structure PrintfState where
  mightFormat : Bool
  longCtr : Nat
  directive : List Char
  ap : Addr
  /-- the calls of `malloc` so far -/
  mallocs : Nat

abbrev PrintfStep := List PrintfEvent × Except PrintfEnd PrintfState

/-- `fmt_buf`, and the call of `malloc` it comes from unless it is `temp_fmt`. -/
structure TempFormat where
  buf : List Char
  heap : Option Nat

/-! ## Macros -/

/-- `print_err` -/
def printErr : List PrintfEvent := [.out 'E', .out 'R', .out 'R']

/-- The loop goes on after the directive. -/
def PrintfState.leave (s : PrintfState) : PrintfState := { s with mightFormat := false }

def TempFormat.release (t : TempFormat) : List PrintfEvent :=
  match t.heap with
  | none => []
  | some id => [.free id]

/-- `PREPARE_TEMP_FORMAT` at the conversion character `c`; no buffer when `malloc` fails. -/
def prepareTempFormat (env : PrintfEnv) (s : PrintfState) (c : Char) :
    List PrintfEvent × PrintfState × Option TempFormat :=
  let k := s.directive.length
  if 32 ≤ k + 2 then
    let id := s.mallocs
    let s := { s with mallocs := id + 1 }
    if env.mallocOk id then
      ([.malloc id (k + 2) true, .copy (k + 2) (k + 1)], s,
        some ⟨(s.directive ++ [c]).rightpad (k + 2) nul, some id⟩)
    else (.malloc id (k + 2) false :: printErr, s, none)
  else ([.copy 32 (k + 1)], s, some ⟨(s.directive ++ [c]).rightpad 32 nul, none⟩)

/-- `CHECK_VA_ARG` for an argument of `n` bytes -/
def checkVaArg (nativeEndAddr ap : Addr) (n : UInt32) : Bool := !decide (nativeEndAddr < ap + n)

/-- The exit of a failing `CHECK_VA_ARG`. -/
def TempFormat.fail (t : TempFormat) : List PrintfEvent × Except PrintfEnd PrintfState :=
  (t.release ++ [.exception], .error .outOfBounds)

/-- The native `snprintf` on a buffer of `size` characters, and `OUTPUT_TEMP_FORMAT`, which stops at
the first null character. -/
def outputTempFormat (env : PrintfEnv) (t : TempFormat) (size : Nat) (fmtBuf : List Char) (arg : PrintfArg) :
    List PrintfEvent :=
  let s := ((env.render (fmtBuf.takeWhile (· ≠ nul)) arg).getD []).take (size - 1)
  .snprintf fmtBuf size arg :: (s.takeWhile (· ≠ nul)).map .out ++ t.release

/-- The removal of the modifier of `%ld`, `%zd` and `%td`, at `fmt_end_idx`. -/
def removeModifier (fmtBuf : List Char) (fmtEndIdx : Nat) : List Char × List PrintfEvent :=
  let c := fmtBuf.getD (fmtEndIdx - 1) nul
  if c = 'l' ∨ c = 'z' ∨ c = 't' then
    ((fmtBuf.set (fmtEndIdx - 1) (fmtBuf.getD fmtEndIdx nul)).set fmtEndIdx nul,
      [.write fmtBuf.length (fmtEndIdx - 1), .write fmtBuf.length fmtEndIdx])
  else (fmtBuf, [])

/-- The next multiple of 8. -/
def alignAp (ap : Addr) : Addr := (ap + 7) &&& ~~~7

def load64 (m : Mem) (p : Addr) : UInt64 := (m (p + 4)).toUInt64 <<< 32 ||| (m p).toUInt64

/-! ## Directives -/

/-- An 8-byte argument. -/
def wideCase (env : PrintfEnv) (nativeEndAddr : Addr) (s : PrintfState) (t : TempFormat)
    (arg : UInt64 → PrintfArg) : PrintfStep :=
  let ap := alignAp s.ap
  if checkVaArg nativeEndAddr ap 8 then
    (.fetch .wide ap :: outputTempFormat env t 64 t.buf (arg (load64 env.mem ap)), .ok { s.leave with ap := ap + 8 })
  else t.fail

/-- `case 'o'` to `case 'c'` -/
def intCase (env : PrintfEnv) (nativeEndAddr : Addr) (s : PrintfState) (t : TempFormat) : PrintfStep :=
  if s.longCtr < 2 then
    if checkVaArg nativeEndAddr s.ap 4 then
      let (buf, ws) := if s.longCtr = 1 then removeModifier t.buf s.directive.length else (t.buf, [])
      (.fetch .word s.ap :: ws ++ outputTempFormat env t 64 buf (.int (env.mem s.ap)),
        .ok { s.leave with ap := s.ap + 4 })
    else t.fail
  else wideCase env nativeEndAddr s t .long

/-- `case 'e'` to `case 'F'` -/
def floatCase (env : PrintfEnv) (nativeEndAddr : Addr) (s : PrintfState) (t : TempFormat) : PrintfStep :=
  wideCase env nativeEndAddr s t .double

/-- `case 's'`, once the string's address is known to be valid -/
def strOutput (env : PrintfEnv) (s : PrintfState) (t : TempFormat) (sOffset : Addr) : PrintfStep :=
  let str := env.cstring (env.wamr.addrAppToNative env.moduleInst sOffset)
  let arg := PrintfArg.str (if sOffset = 0 ∧ str.length = 0 then none else some str)
  let bufLen := str.length + 64
  if 4294967295 - 64 ≤ str.length then (printErr ++ t.release, .ok s)
  else if 128 < bufLen then
    let id := s.mallocs
    let s := { s with mallocs := id + 1 }
    if env.mallocOk id then
      (.malloc id bufLen true :: outputTempFormat env t bufLen t.buf arg ++ [.free id], .ok s)
    else (.malloc id bufLen false :: printErr ++ t.release, .ok s)
  else (outputTempFormat env t bufLen t.buf arg, .ok s)

/-- `case 's'` -/
def strCase (env : PrintfEnv) (nativeEndAddr : Addr) (s : PrintfState) (t : TempFormat) : PrintfStep :=
  if checkVaArg nativeEndAddr s.ap 4 then
    let sOffset := env.mem s.ap
    let s' := { s.leave with ap := s.ap + 4 }
    if env.validateAppStrAddr sOffset then
      let (evs, r) := strOutput env s' t sOffset
      (.fetch .string s.ap :: evs, r)
    else (.fetch .string s.ap :: t.release, .error .invalidString)
  else t.fail

/-- A directive that uses `fmt_buf`: `PREPARE_TEMP_FORMAT` and, if it succeeds, the rest of the case. -/
def withTempFormat (env : PrintfEnv) (s : PrintfState) (c : Char) (k : PrintfState → TempFormat → PrintfStep) :
    PrintfStep :=
  match prepareTempFormat env s c with
  | (evs, s, none) => (evs, .ok s.leave)
  | (evs, s, some t) => (evs ++ (k s t).1, (k s t).2)

/-! ## The loop -/

/-- One character of the format. -/
def vprintfStep (env : PrintfEnv) (nativeEndAddr : Addr) (s : PrintfState) (c : Char) : PrintfStep :=
  if !s.mightFormat then
    if c = '%' then ([], .ok { s with mightFormat := true, longCtr := 0, directive := [c] })
    else ([.out c], .ok s)
  else
    let s' := { s with directive := s.directive ++ [c] }
    match charClass c with
    | .flag | .half => ([], .ok s')
    | .size => ([], .ok { s' with longCtr := 1 })
    | .max => ([], .ok { s' with longCtr := 2 })
    | .long => ([], .ok { s' with longCtr := s.longCtr + 1 })
    | .int => withTempFormat env s c (intCase env nativeEndAddr)
    | .float => withTempFormat env s c (floatCase env nativeEndAddr)
    | .str => withTempFormat env s c (strCase env nativeEndAddr)
    | .other =>
      if c = '%' then ([.out '%'], .ok s.leave)
      else if c = 'n' then ([], .ok s.leave)
      else ([.out '%', .out c], .ok s.leave)

section

variable {env : PrintfEnv} {e : Addr} {s : PrintfState} {c : Char}

theorem vprintfStep_percent (hm : s.mightFormat = false) :
    vprintfStep env e s '%' = ([], .ok { s with mightFormat := true, longCtr := 0, directive := ['%'] }) := by
  simp only [vprintfStep, hm, Bool.not_false, if_true]

theorem vprintfStep_literal (hm : s.mightFormat = false) (hc : c ≠ '%') :
    vprintfStep env e s c = ([.out c], .ok s) := by
  simp only [vprintfStep, hm, if_neg hc, Bool.not_false, if_true]

/-- Inside a directive the class of the character decides. -/
theorem vprintfStep_directive (hm : s.mightFormat = true) (c : Char) :
    vprintfStep env e s c =
      match charClass c with
      | .flag | .half => ([], .ok { s with directive := s.directive ++ [c] })
      | .size => ([], .ok { s with directive := s.directive ++ [c], longCtr := 1 })
      | .max => ([], .ok { s with directive := s.directive ++ [c], longCtr := 2 })
      | .long => ([], .ok { s with directive := s.directive ++ [c], longCtr := s.longCtr + 1 })
      | .int => withTempFormat env s c (intCase env e)
      | .float => withTempFormat env s c (floatCase env e)
      | .str => withTempFormat env s c (strCase env e)
      | .other =>
        if c = '%' then ([.out '%'], .ok s.leave)
        else if c = 'n' then ([], .ok s.leave)
        else ([.out '%', .out c], .ok s.leave) := by
  simp only [vprintfStep, hm, Bool.not_true, Bool.false_eq_true, if_false]

end

def vprintfLoop (env : PrintfEnv) (nativeEndAddr : Addr) :
    PrintfState → List Char → List PrintfEvent × PrintfEnd
  | _, [] => ([], .done)
  | s, c :: fmt =>
    match vprintfStep env nativeEndAddr s c with
    | (evs, .error r) => (evs, r)
    | (evs, .ok s) => (evs ++ (vprintfLoop env nativeEndAddr s fmt).1, (vprintfLoop env nativeEndAddr s fmt).2)

/-- `_vprintf_wa`: what it does, and how it ends -/
def vprintfWa (env : PrintfEnv) (fmt : List Char) (ap : Addr) : List PrintfEvent × PrintfEnd :=
  match env.nativeEndAddr with
  | none => ([.exception], .outOfBounds)
  | some e => vprintfLoop env e ⟨false, 0, [], ap, 0⟩ fmt

end VelaWasm.LibcBypass
