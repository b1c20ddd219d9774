/-
`generate_include`, `generate_table` and the two files that `generate_glue` writes: the glue file with the functions
and the table of their symbols, and the signature library. Both passes over the rows write each row as a guarded block
for the C preprocessor, the functions under one macro and the table entries under another.
-/
import VelaWasm.Lib.Preprocessor
import VelaWasm.Tools.GenerateFunctions
import Mathlib.Data.List.Sort

namespace VelaWasm.Tools

open VelaWasm.Cpp

/-! ## The include lines -/

/-- The fields of a line as `generate_include` splits it. -/
def splitCommas (line : Text) : List Text :=
  (splitAux [','] 0 [] (stripWith isSpace line)).map fun arg => stripWith (· == quote) (stripWith isSpace arg)

/-- The loop of `generate_include` that collects the headers; none when a line has one field. -/
def collectHeaders (headers : List Text) : List Text → Option (List Text)
  | [] => some headers
  | line :: lines =>
    if stripWith isSpace line = [] then some headers
    else if (splitCommas line).head?.any isStripFunction then collectHeaders headers lines
    else
      match splitCommas line with
      | _ :: header :: _ =>
        if header ≠ [] && !headers.any (· == header) then collectHeaders (headers ++ [header]) lines
        else collectHeaders headers lines
      | _ => none

/-- Python's order of strings, by code points. -/
def textLe : Text → Text → Bool
  | [], _ => true
  | _ :: _, [] => false
  | a :: as, b :: bs => decide (a.toNat < b.toNat) || (a == b && textLe as bs)

def generateInclude (lines : List Text) : Option Text :=
  (collectHeaders [] lines).map fun headers =>
    ((headers.insertionSort fun a b => textLe a b = true).flatMap fun header =>
      "#include <".toList ++ header ++ ">\n".toList) ++ "\n#include <wasm_export.h>\n\n".toList

/-! ## The table -/

/-- The line of a row's symbol, in both files. -/
def tableEntry (row : Row) : Text :=
  "  native_function(".toList ++ row.name ++ ",\"(".toList ++ signature row.parms ++ ")".toList ++
    (retval row.rettype).toList ++ "\"),\n".toList

/-- What the loop of `generate_table` writes to the glue file for a row. -/
def guardedEntry (row : Row) : Text :=
  (if row.cond = [] then [] else "#if ".toList ++ row.cond ++ "\n".toList) ++
    "#ifndef GLUE_ENTRY_".toList ++ row.name ++ "\n#define GLUE_ENTRY_".toList ++ row.name ++ "\n".toList ++
    tableEntry row ++ "#endif /* GLUE_ENTRY_".toList ++ row.name ++ " */\n".toList ++
    (if row.cond = [] then [] else "#endif /* ".toList ++ row.cond ++ " */\n\n".toList)

/-- The rows that a pass works on: the blank line ends the input, black-listed lines are passed over, and a line
with too few fields is an error. -/
def readRows : List Text → Option (List Row)
  | [] => some []
  | line :: lines =>
    if stripWith isSpace line = [] then some []
    else if (splitLine line).head?.any isStripFunction then readRows lines
    else (Row.ofLine line).bind fun row => (readRows lines).map (row :: ·)

/-- `g_<csv>_native_symbols`, where `csv` is the name of the CSV file without its extension. -/
def symbolsName (csv : Text) : Text := "g_".toList ++ csv ++ "_native_symbols".toList

/-- The glue file up to the rows of the table. -/
def tableHead (csv : Text) : Text :=
  ("#ifndef native_function\n#define native_function(func_name, signature) \\\n" ++
    "  \x7b #func_name, glue_##func_name, signature, NULL \x7d\n\n#endif\nstatic NativeSymbol ").toList ++
    symbolsName csv ++ "[] =\n\x7b\n".toList

/-- The signature library up to the rows of the table. -/
def libHead (csv : Text) : Text :=
  ("static void empty_stub(void) \x7b\x7d\n\n#ifndef native_function\n" ++
    "#define native_function(func_name, signature) \\\n  \x7b #func_name, empty_stub, signature, NULL \x7d\n\n" ++
    "#endif\nstatic NativeSymbol ").toList ++ symbolsName csv ++ "[] =\n\x7b\n".toList

/-- The signature library behind the rows. -/
def libTail (csv : Text) : Text :=
  ("\x7d;\n\nuint32_t get_native_lib(char **p_module_name, NativeSymbol **p_base_lib_apis) \x7b\n" ++
    "  *p_module_name = \"env\";\n  *p_base_lib_apis = ").toList ++ symbolsName csv ++
    ";\n  return sizeof(".toList ++ symbolsName csv ++ ") / sizeof(NativeSymbol);\n\x7d\n\n".toList

/-- What `generate_table` writes to the glue file and to the signature library. -/
def generateTable (csv : Text) (lines : List Text) : Option (Text × Text) :=
  (readRows lines).map fun rows =>
    (tableHead csv ++ rows.flatMap guardedEntry ++ "\x7d;\n".toList,
      libHead csv ++ rows.flatMap tableEntry ++ libTail csv)

/-- `generate_glue`: the glue file and the signature library behind their first lines; none where a pass ends with
an error. -/
def generateGlue (csv : Text) (lines : List Text) : Option (Text × Text) :=
  (generateInclude lines).bind fun include_ =>
    (generateFunctions none lines).bind fun functions =>
      (generateTable csv lines).map fun table => (include_ ++ functions ++ table.1, table.2)

/-! ## The text as a source -/

/-- The code that is compiled for a row. -/
inductive Piece where
  /-- the glue function, with the `v` it calls the native one under -/
  | function (row : Row) (vp : Text)
  /-- the entry in the table of symbols -/
  | entry (row : Row)
  deriving DecidableEq, Repr

/-- The definition of the glue function. -/
def functionText (row : Row) (vp : Text) : Text :=
  let noreturn := noreturn row.rettype
  let findex := findex row
  let scanf := contains "scanf".toList row.name
  let addrcov := if contains star row.rettype then "addr_native_to_app((uintptr_t)".toList else []
  (if noreturn then "void glue_".toList else "uintptr_t glue_".toList) ++ row.name ++
    "(wasm_exec_env_t env".toList ++ row.declared.flatMap Parm.declaration ++
    ")\n\x7b\n  wasm_module_inst_t module_inst = get_module_inst(env);\n  uintptr_t ret;\n".toList ++
    (if isAddr false row.parms then
      "  void *addr_app = addr_app_to_native((uintptr_t)NULL);\n".toList ++ addrChecks parm1Index row.parms
    else []) ++
    (if findex = 0 then []
      else if scanf then "  scanf_begin(module_inst, ap);\n".toList
      else "  va_list_string2native(env, format, ap);\n".toList) ++
    (if noreturn then "  ".toList else "  ret = ".toList) ++ addrcov ++ vp ++ row.name ++ "(".toList ++
    callArgs row.name findex parm1Index row.parms ++ (if addrcov = [] then [] else ")".toList) ++ ");\n".toList ++
    (if findex = 0 then []
      else if scanf then "  scanf_end(module_inst, ap);\n".toList
      else "  va_list_string2app(env, format, ap);\n".toList) ++
    (if noreturn then [] else "  return ret;\n".toList) ++ "\x7d\n\n".toList

def Piece.text : Piece → Text
  | .function row vp => functionText row vp
  | .entry row => tableEntry row

/-- The text of a line; `blank` is what follows an `#if`. -/
def lineText (blank : Text) : Line Text Text Piece → Text
  | .if_ cond => "#if ".toList ++ cond ++ "\n".toList ++ blank
  | .ifndef name => "#ifndef ".toList ++ name ++ "\n".toList
  | .define name => "#define ".toList ++ name ++ "\n".toList
  | .endif (.inl cond) => "#endif /* ".toList ++ cond ++ " */\n\n".toList
  | .endif (.inr name) => "#endif /* ".toList ++ name ++ " */\n".toList
  | .code piece => piece.text

theorem lineText_if (blank cond : Text) :
    lineText blank (.if_ cond) = "#if ".toList ++ cond ++ "\n".toList ++ blank := rfl

theorem lineText_ifndef (blank name : Text) :
    lineText blank (.ifndef name) = "#ifndef ".toList ++ name ++ "\n".toList := rfl

theorem lineText_define (blank name : Text) :
    lineText blank (.define name) = "#define ".toList ++ name ++ "\n".toList := rfl

theorem lineText_endif_cond (blank cond : Text) :
    lineText blank (.endif (.inl cond)) = "#endif /* ".toList ++ cond ++ " */\n\n".toList := rfl

theorem lineText_endif_name (blank name : Text) :
    lineText blank (.endif (.inr name)) = "#endif /* ".toList ++ name ++ " */\n".toList := rfl

theorem lineText_code (blank : Text) (piece : Piece) : lineText blank (.code piece) = piece.text := rfl

def Row.condition (row : Row) : Option Text := if row.cond = [] then none else some row.cond

def functionMacro (name : Text) : Text := "GLUE_FUNCTION_".toList ++ name

def entryMacro (name : Text) : Text := "GLUE_ENTRY_".toList ++ name

theorem functionMacro_eq (name : Text) : functionMacro name = "GLUE_FUNCTION_".toList ++ name := rfl

theorem entryMacro_eq (name : Text) : entryMacro name = "GLUE_ENTRY_".toList ++ name := rfl

def functionBlock (row : Row × Text) : Guarded Text Text Piece :=
  ⟨row.1.condition, functionMacro row.1.name, .function row.1 row.2⟩

def entryBlock (row : Row × Text) : Guarded Text Text Piece :=
  ⟨row.1.condition, entryMacro row.1.name, .entry row.1⟩

/-- The rows that `generate_functions` works on, each with the `v` of its text. -/
def functionRows (vp : Option Text) : List Text → Option (List (Row × Text))
  | [] => some []
  | line :: lines =>
    if stripWith isSpace line = [] then some []
    else if (splitLine line).head?.any isStripFunction then functionRows vp lines
    else
      (Row.ofLine line).bind fun row =>
        (vprefixAfter row.name vp).bind fun v => (functionRows (some v) lines).map ((row, v) :: ·)

/-- The text of a block from the texts of its directives. -/
theorem text_block (blank : Text) (g : Guarded Text Text Piece) :
    g.block.flatMap (lineText blank) = "#ifndef ".toList ++ g.name ++ "\n".toList ++ ("#define ".toList ++ g.name ++
      "\n".toList ++ (g.text.text ++ ("#endif /* ".toList ++ g.name ++ " */\n".toList))) := by
  simp only [Guarded.block, List.flatMap_cons, List.flatMap_nil, lineText_ifndef, lineText_define, lineText_code,
    lineText_endif_name, List.append_nil]

theorem text_lines (blank : Text) (g : Guarded Text Text Piece) :
    g.lines.flatMap (lineText blank) = match g.cond with
      | none => g.block.flatMap (lineText blank)
      | some cond => "#if ".toList ++ cond ++ "\n".toList ++ blank ++ (g.block.flatMap (lineText blank) ++
          ("#endif /* ".toList ++ cond ++ " */\n\n".toList)) := by
  unfold Guarded.lines
  cases g.cond with
  | none => rfl
  | some cond =>
    simp only [List.cons_append, List.flatMap_cons, List.flatMap_append, List.flatMap_nil, lineText_if,
      lineText_endif_cond, List.append_nil]

theorem glueFunction_eq_lines (row : Row) (vp : Text) :
    glueFunction row vp = (functionBlock (row, vp)).lines.flatMap (lineText "\n".toList) := by
  have hifndef : "#ifndef GLUE_FUNCTION_".toList = "#ifndef ".toList ++ "GLUE_FUNCTION_".toList := by decide
  have hdefine : "\n#define GLUE_FUNCTION_".toList = "\n".toList ++ ("#define ".toList ++ "GLUE_FUNCTION_".toList) := by
    decide
  have hendif : "\x7d\n\n#endif /* GLUE_FUNCTION_".toList =
      "\x7d\n\n".toList ++ ("#endif /* ".toList ++ "GLUE_FUNCTION_".toList) := by decide
  have hblank : "\n\n".toList = "\n".toList ++ "\n".toList := by decide
  rw [text_lines, text_block]
  simp only [functionBlock, Row.condition, functionMacro_eq, Piece.text]
  delta glueFunction functionText
  dsimp only
  by_cases hc : row.cond = []
  · rw [if_pos hc, if_pos hc, if_pos hc, hifndef, hdefine, hendif]
    simp only [List.append_assoc, List.nil_append, List.append_nil]
  · rw [if_neg hc, if_neg hc, if_neg hc, hifndef, hdefine, hendif]
    simp only [hblank, List.append_assoc]

theorem guardedEntry_eq_lines (row : Row) (vp : Text) :
    guardedEntry row = (entryBlock (row, vp)).lines.flatMap (lineText []) := by
  have hifndef : "#ifndef GLUE_ENTRY_".toList = "#ifndef ".toList ++ "GLUE_ENTRY_".toList := by decide
  have hdefine : "\n#define GLUE_ENTRY_".toList = "\n".toList ++ ("#define ".toList ++ "GLUE_ENTRY_".toList) := by
    decide
  have hendif : "#endif /* GLUE_ENTRY_".toList = "#endif /* ".toList ++ "GLUE_ENTRY_".toList := by decide
  rw [text_lines, text_block]
  simp only [guardedEntry, entryBlock, Row.condition, entryMacro_eq]
  by_cases hc : row.cond = []
  · rw [if_pos hc, if_pos hc, if_pos hc, hifndef, hdefine, hendif]
    simp only [Piece.text, List.append_assoc, List.nil_append, List.append_nil]
  · rw [if_neg hc, if_neg hc, if_neg hc, hifndef, hdefine, hendif]
    simp only [Piece.text, List.append_assoc, List.nil_append]

end VelaWasm.Tools
