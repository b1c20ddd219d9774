/-
What C's `snprintf` makes of a directive for `o d i u x X c s`, for the types of wasm32: the well-formed
directives, format strings as pieces, and the complete rendering of an argument, with flags, width and
precision.
-/
import VelaWasm.LibcBypass.Printf
import Mathlib.Data.Bool.AllAny

namespace VelaWasm.LibcBypass

/-! ## Format strings -/

inductive IntConversion where
  | o | d | i | u | x | X
  deriving DecidableEq, Repr

def IntConversion.char : IntConversion → Char
  | o => 'o'
  | d => 'd'
  | i => 'i'
  | u => 'u'
  | x => 'x'
  | X => 'X'

/-- The length modifiers; `none` for the lack of one. -/
inductive Modifier where
  | none | h | l | ll | z | t | j
  deriving DecidableEq, Repr

def Modifier.text : Modifier → List Char
  | none => []
  | h => ['h']
  | l => ['l']
  | ll => ['l', 'l']
  | z => ['z']
  | t => ['t']
  | j => ['j']

/-- The modifiers of the 64-bit types. -/
def Modifier.wide : Modifier → Bool
  | ll | j => true
  | none | h | l | z | t => false

inductive Conversion where
  | int (c : IntConversion) (m : Modifier)
  | char
  | str
  deriving DecidableEq, Repr

def Conversion.text : Conversion → List Char
  | int c m => m.text ++ [c.char]
  | char => ['c']
  | str => ['s']

def flagChars : List Char := ['-', '+', ' ', '#', '0']

def digitChars : List Char := ['0', '1', '2', '3', '4', '5', '6', '7', '8', '9']

/-- A directive behind its `%`: flags, a decimal width, a decimal precision behind a period, and the
conversion with its length modifier. -/
structure Directive where
  flags : List Char
  width : List Char
  precision : Option (List Char)
  conversion : Conversion
  flags_mem : ∀ c ∈ flags, c ∈ flagChars
  width_mem : ∀ c ∈ width, c ∈ digitChars
  precision_mem : ∀ ds ∈ precision, ∀ c ∈ ds, c ∈ digitChars

/-- Flags, width and precision. -/
def Directive.spec (d : Directive) : List Char :=
  d.flags ++ d.width ++
    match d.precision with
    | none => []
    | some ds => '.' :: ds

def Directive.text (d : Directive) : List Char := '%' :: d.spec ++ d.conversion.text

inductive Piece where
  | literal (c : Char) (ok : c ≠ '%' ∧ c ≠ nul)
  | percent
  | directive (d : Directive)

def Piece.text : Piece → List Char
  | literal c _ => [c]
  | percent => ['%', '%']
  | directive d => d.text

def formatText (ps : List Piece) : List Char := ps.flatMap Piece.text

/-! ## Rendering -/

structure RenderSpec where
  flags : List Char
  width : Nat
  precision : Option Nat
  deriving DecidableEq, Repr

def natOf (ds : List Char) : Nat := ds.foldl (fun n c => 10 * n + (c.toNat - '0'.toNat)) 0

def parseSpec (cs : List Char) : RenderSpec :=
  let rest := cs.dropWhile (· ∈ flagChars)
  { flags := cs.takeWhile (· ∈ flagChars)
    width := natOf (rest.takeWhile (· ∈ digitChars))
    precision :=
      match rest.dropWhile (· ∈ digitChars) with
      | '.' :: ds => some (natOf (ds.takeWhile (· ∈ digitChars)))
      | _ => none }

/-- Padding with spaces to the field width. -/
def RenderSpec.pad (s : RenderSpec) (body : List Char) : List Char :=
  if '-' ∈ s.flags then body.rightpad s.width ' ' else body.leftpad s.width ' '

/-- The digits of an integer, at least as many as the precision says; none for a zero of precision
zero. -/
def RenderSpec.digits (s : RenderSpec) (c : IntConversion) (v : Int) : List Char :=
  let ds :=
    match c with
    | .o => Nat.toDigits 8 v.natAbs
    | .d | .i | .u => Nat.toDigits 10 v.natAbs
    | .x => Nat.toDigits 16 v.natAbs
    | .X => (Nat.toDigits 16 v.natAbs).map Char.toUpper
  let ds := (if v = 0 ∧ s.precision = some 0 then [] else ds).leftpad (s.precision.getD 1) '0'
  -- the alternative form of an octal number starts with a zero
  if c = .o ∧ '#' ∈ s.flags ∧ ds.head? ≠ some '0' then '0' :: ds else ds

/-- The sign of a signed conversion, the base of a hexadecimal one. -/
def RenderSpec.sign (s : RenderSpec) (c : IntConversion) (v : Int) : List Char :=
  match c with
  | .d | .i => if v < 0 then ['-'] else if '+' ∈ s.flags then ['+'] else if ' ' ∈ s.flags then [' '] else []
  | .x | .X => if '#' ∈ s.flags ∧ v ≠ 0 then ['0', c.char] else []
  | .o | .u => []

def RenderSpec.integer (s : RenderSpec) (c : IntConversion) (v : Int) : List Char :=
  let sign := s.sign c v
  if '0' ∈ s.flags ∧ '-' ∉ s.flags ∧ s.precision = none then sign ++ (s.digits c v).leftpad (s.width - sign.length) '0'
  else s.pad (sign ++ s.digits c v)

/-- The value of a 4-byte argument: `int` or `unsigned int`, and for `h` the `short` it is converted
to. -/
def wordValue (c : IntConversion) (half : Bool) (w : UInt32) : Int :=
  match c with
  | .d | .i => if half then w.toUInt16.toInt16.toInt else w.toInt32.toInt
  | .o | .u | .x | .X => if half then w.toUInt16.toNat else w.toNat

def longValue (c : IntConversion) (v : UInt64) : Int :=
  match c with
  | .d | .i => v.toInt64.toInt
  | .o | .u | .x | .X => v.toNat

/-- The complete rendering of an argument in wasm32's C, where `long`, `size_t` and `ptrdiff_t` have the
size of `int`. -/
def render (spec : List Char) (c : Conversion) (arg : PrintfArg) : List Char :=
  let s := parseSpec spec
  match c, arg with
  | .int c m, .int w => s.integer c (wordValue c (m = .h) w)
  | .int c _, .long v => s.integer c (longValue c v)
  | .char, .int w => s.pad [Char.ofNat (w.toNat % 256)]
  | .str, .str (some str) =>
    s.pad <|
      match s.precision with
      | none => str
      | some p => str.take p
  | _, _ => []

def Directive.render (d : Directive) (arg : PrintfArg) : List Char := LibcBypass.render d.spec d.conversion arg

/-! ## Reading a directive -/

theorem charClass_flagChars : ∀ c ∈ flagChars, charClass c = .flag := List.all_iff_forall_prop.1 rfl

theorem charClass_digitChars : ∀ c ∈ digitChars, charClass c = .flag := List.all_iff_forall_prop.1 rfl

theorem Directive.charClass_spec (d : Directive) : ∀ c ∈ d.spec, charClass c = .flag := by
  intro c hc
  rcases List.mem_append.1 hc with hc | hc
  · rcases List.mem_append.1 hc with hc | hc
    · exact charClass_flagChars c (d.flags_mem c hc)
    · exact charClass_digitChars c (d.width_mem c hc)
  · cases hp : d.precision with
    | none =>
      rw [hp] at hc
      cases hc
    | some ds =>
      rw [hp] at hc
      rcases List.mem_cons.1 hc with rfl | hc
      · rfl
      · exact charClass_digitChars c (d.precision_mem ds hp c hc)

theorem charClass_conversion (c : Conversion) : ∀ x ∈ c.text, charClass x ≠ .flag := by
  refine List.all_iff_forall_prop.1 ?_
  cases c with
  | int c m => cases c <;> cases m <;> rfl
  | char => rfl
  | str => rfl

/-- The text of a directive, cut where its conversion begins. -/
theorem Directive.text_eq (d : Directive) :
    (d.text.drop 1).takeWhile (fun c => charClass c = .flag) = d.spec ∧
      (d.text.drop 1).dropWhile (fun c => charClass c = .flag) = d.conversion.text := by
  have hspec : ∀ c ∈ d.spec, decide (charClass c = .flag) = true := by simpa using d.charClass_spec
  have hconv := charClass_conversion d.conversion
  have hdrop : d.text.drop 1 = d.spec ++ d.conversion.text := rfl
  rw [hdrop, List.takeWhile_append_of_pos hspec, List.dropWhile_append_of_pos hspec]
  cases ht : d.conversion.text with
  | nil => simp
  | cons c cs =>
    have hc : charClass c ≠ .flag := hconv c (ht ▸ List.mem_cons_self)
    simp [hc]

def intConversions : List IntConversion := [.o, .d, .i, .u, .x, .X]

def modifiers : List Modifier := [.none, .h, .l, .ll, .z, .t, .j]

def conversions : List Conversion :=
  .char :: .str :: intConversions.flatMap fun c => modifiers.map fun m => .int c m

/-- `snprintf` of a directive and an argument, without a bound on the length. -/
def cSnprintf (text : List Char) (arg : PrintfArg) : Option (List Char) :=
  (conversions.find? fun c => c.text = (text.drop 1).dropWhile fun c => charClass c = .flag).map fun c =>
    render ((text.drop 1).takeWhile fun c => charClass c = .flag) c arg

theorem find_conversion (c : Conversion) : (conversions.find? fun b => b.text = c.text) = some c := by
  cases c with
  | int c m => cases c <;> cases m <;> rfl
  | char => rfl
  | str => rfl

theorem cSnprintf_text (d : Directive) (arg : PrintfArg) : cSnprintf d.text arg = some (d.render arg) := by
  rw [cSnprintf, d.text_eq.1, d.text_eq.2, find_conversion]
  rfl

example : cSnprintf "%#08x".toList (.int 255) = some "0x0000ff".toList := by decide

example : cSnprintf "%-+6.3lld".toList (.long 7) = some "+007  ".toList := by decide

end VelaWasm.LibcBypass
