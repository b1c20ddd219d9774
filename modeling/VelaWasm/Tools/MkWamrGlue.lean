/-
The glue generator `mkwamrglue.py`: a row of its CSV input, the parameters `generate_functions`
declares for it, and the signature `generate_table` registers it under. Each of the two passes goes
through the parameter types in a loop of its own, with substring tests of its own.
-/
import Mathlib.Tactic.Common

namespace VelaWasm.Tools

/-- A Python string. -/
abbrev Text := List Char

/-! ## Rows -/

/-- Python's `sub in t`. -/
def contains (sub t : Text) : Bool := t.tails.any fun s => sub.isPrefixOf s

/-- Python's `t.strip()` on a line of ASCII text. -/
def isSpace (c : Char) : Bool := c == ' ' || (9 ≤ c.toNat && c.toNat ≤ 13) || (28 ≤ c.toNat && c.toNat ≤ 31)

def stripWith (p : Char → Bool) (t : Text) : Text := ((t.dropWhile p).reverse.dropWhile p).reverse

/-- The double quote. -/
def quote : Char := Char.ofNat 34

/-- Python's `t.split(sep)`, inside a separator for `skip` more characters. -/
def splitAux (sep : Text) (skip : Nat) (cur : Text) : Text → List Text
  | [] => [cur]
  | c :: t =>
    match skip with
    | skip + 1 => splitAux sep skip cur t
    | 0 =>
      if sep.isPrefixOf (c :: t) then cur :: splitAux sep (sep.length - 1) [] t
      else splitAux sep 0 (cur ++ [c]) t

/-- The fields of a line: it is split at each quote that a comma follows. -/
def splitLine (line : Text) : List Text :=
  (splitAux [quote, ','] 0 [] (stripWith isSpace line)).map fun arg =>
    stripWith (· == quote) (stripWith isSpace arg)

/-- The fields of a row, from `NAME_INDEX` to `PARM1_INDEX` and on. -/
structure Row where
  name : Text
  header : Text
  cond : Text
  rettype : Text
  parms : List Text
  deriving DecidableEq, Repr

/-- `PARM1_INDEX` -/
def parm1Index : Nat := 4

/-- A line with too few fields ends the generator with an error. -/
def Row.ofLine (line : Text) : Option Row :=
  match splitLine line with
  | name :: header :: cond :: rettype :: parms => some ⟨name, header, cond, rettype, parms⟩
  | _ => none

/-- `len(args)` -/
def Row.length (row : Row) : Nat := row.parms.length + parm1Index

def dots : Text := "...".toList
def vaList : Text := "va_list".toList
def void : Text := "void".toList

/-- `POINTER_SIGNATURE` -/
def pointerSignature : List Text := [dots, "*".toList, "_sa_handler_t".toList, ",mbstate_t".toList]

/-- `BLACK_LIST` -/
def blackList : List Text :=
  ["sigqueue", "pthread_create", "pthread_detach", "pthread_cancel", "pthread_key_create", "pthread_key_delete",
    "pthread_getspecific", "pthread_setspecific", "mallinfo", "crypt", "crypt_r"].map String.toList

/-- `VA_ADDITIONAL_FUNCS` -/
def vaAdditionalFuncs : List Text :=
  ["asprintf", "fprintf", "fscanf", "printf", "snprintf", "sprintf", "sprintf", "sscanf", "sscanf", "swprintf",
    "syslog"].map String.toList

/-- `VA_LIST_FUNCS` -/
def vaListFuncs : List Text :=
  ["vasprintf", "vfprintf", "vprintf", "vscanf", "vsnprintf", "vsprintf", "vsscanf", "vsyslog"].map String.toList

/-- `is_strip_function` -/
def isStripFunction (name : Text) : Bool := blackList.any (· == name)

/-- `is_va_additional_function` -/
def isVaAdditionalFunction (name : Text) : Bool := vaAdditionalFuncs.any (· == name)

/-- `is_va_list_function` -/
def isVaListFunction (name : Text) : Bool := vaListFuncs.any (· == name)

/-- `noreturn` of both passes -/
def noreturn (rettype : Text) : Bool := rettype == void || rettype == "noreturn".toList

/-! ## The prototype -/

/-- A parameter declared after `env`. -/
inductive Parm where
  /-- `uintptr_t format` -/
  | format
  /-- `va_list ap` -/
  | ap
  /-- `uintptr_t parm<n>` -/
  | parm (n : Nat)
  deriving DecidableEq, Repr

/-- `findex` -/
def findex (row : Row) : Nat :=
  if isVaAdditionalFunction row.name then row.length - 2
  else if isVaListFunction row.name then row.length - 2
  else 0

/-- The parameter loop of `generate_functions`, from column `index` on. -/
def declareParms (findex : Nat) : Nat → List Text → List Parm
  | _, [] => []
  | index, arg :: args =>
    if findex = index then .format :: declareParms findex (index + 1) args
    else if arg = dots then [.ap]
    else if arg = vaList ∧ findex ≠ 0 then [.ap]
    else if arg = void then declareParms findex (index + 1) args
    else .parm (index - parm1Index + 1) :: declareParms findex (index + 1) args

/-- The parameters `generate_functions` declares for a row. -/
def Row.declared (row : Row) : List Parm := declareParms (findex row) parm1Index row.parms

/-! ## The signature -/

/-- The `elif` chain of `generate_table` before its last branch. -/
def typeLetter (arg : Text) : Option Char :=
  if contains "(*)".toList arg then some 'i'
  else if contains "float".toList arg then some 'f'
  else if contains "double".toList arg then some 'F'
  else if contains "long long".toList arg then some 'I'
  else if contains "char *".toList arg then some '$'
  else if contains "off_t".toList arg then some 'I'
  else if contains "uintptr_t".toList arg then some 'i'
  else if contains vaList arg then some '*'
  else none

/-- The last branch. -/
def defaultLetter (arg : Text) : Char :=
  if pointerSignature.any fun sig => contains sig arg then '*' else 'i'

/-- The letter of a parameter type. -/
def letter (arg : Text) : Char := (typeLetter arg).getD (defaultLetter arg)

/-- The loop of `generate_table`, which only the last branch breaks off. -/
def signature : List Text → Text
  | [] => []
  | arg :: args =>
    match typeLetter arg with
    | some l => l :: signature args
    | none => defaultLetter arg :: if contains dots arg then [] else signature args

/-- `retval` -/
def retval (rettype : Text) : Option Char :=
  if noreturn rettype then none
  else if contains "*".toList rettype then some 'i'
  else if contains "off_t".toList rettype then some 'I'
  else if contains "time_t".toList rettype then some 'I'
  else if contains "double".toList rettype then some 'F'
  else if contains "float".toList rettype then some 'f'
  else if contains "long long".toList rettype then some 'I'
  else some 'i'

end VelaWasm.Tools
