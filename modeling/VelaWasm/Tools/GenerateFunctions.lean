/-
`generate_functions`: the glue function that it writes for each row of the CSV input. Of the locals that its
loop keeps from one row to the next the body reads only `vprefix` before it is set, in the rows of functions
that take a `va_list`: what such a row gets depends on the row before, and is an error in the first row.
-/
import VelaWasm.Tools.MkWamrGlue
import Mathlib.Data.List.Perm.Basic

namespace VelaWasm.Tools

/-! ## The text of a row -/

def star : Text := "*".toList

/-- An integer in an f-string. -/
def decimal (n : Nat) : Text := (toString n).toList

/-- What the parameter loop writes for a parameter. -/
def Parm.declaration : Parm → Text
  | .format => ", uintptr_t format".toList
  | .ap => ", va_list ap".toList
  | .parm n => ", uintptr_t parm".toList ++ decimal n

/-- The loop that sets `is_addr`. -/
def isAddr (acc : Bool) : List Text → Bool
  | [] => acc
  | arg :: args =>
    if contains star arg then isAddr true args
    else if contains vaList arg || contains dots arg then false
    else isAddr acc args

/-- The loop that writes the comparisons with `addr_app`, from column `index` on. -/
def addrChecks : Nat → List Text → Text
  | _, [] => []
  | index, arg :: args =>
    let parm := "parm".toList ++ decimal (index - parm1Index + 1)
    (if contains star arg then
      "  if ((void *)".toList ++ parm ++ " == addr_app)\n    ".toList ++ parm ++ " = (uintptr_t)NULL;\n\n".toList
    else []) ++ addrChecks (index + 1) args

/-- The argument written for `...`, given the columns behind it. -/
def dotsArg (name : Text) : List Text → Text
  | [] => "ap".toList
  | type :: _ =>
    let test := "(*(uintptr_t **)&ap != NULL && **(uintptr_t **)&ap != (uintptr_t)NULL) ? ".toList
    if name = "ioctl".toList then
      test ++ "(uintptr_t)addr_app_to_native((uintptr_t)va_arg(ap, ".toList ++ type ++ ")) : (uintptr_t)NULL".toList
    else test ++ "(uintptr_t)va_arg(ap, ".toList ++ type ++ ") : (uintptr_t)NULL".toList

/-- The type an argument is cast to: the second alternative if there is one. -/
def castType (arg : Text) : Text :=
  if contains ['|'] arg then (splitAux ['|'] 0 [] arg).getD 1 [] else arg

/-- The argument loop of the call, from column `index` on. -/
def callArgs (name : Text) (findex : Nat) : Nat → List Text → Text
  | _, [] => []
  | index, arg :: args =>
    (if parm1Index < index then ", ".toList else []) ++
      if arg = dots then dotsArg name args
      else if arg = vaList ∧ findex ≠ 0 then "ap".toList
      else if arg = void then callArgs name findex (index + 1) args
      else
        "(".toList ++ castType arg ++ (if findex = index then ")format".toList
          else ")parm".toList ++ decimal (index - parm1Index + 1)) ++ callArgs name findex (index + 1) args

/-- What the loop body writes for a row, with the value that `vprefix` has there. -/
def glueFunction (row : Row) (vp : Text) : Text :=
  let noreturn := noreturn row.rettype
  let findex := findex row
  let scanf := contains "scanf".toList row.name
  let addrcov := if contains star row.rettype then "addr_native_to_app((uintptr_t)".toList else []
  (if row.cond = [] then [] else "#if ".toList ++ row.cond ++ "\n\n".toList) ++
    "#ifndef GLUE_FUNCTION_".toList ++ row.name ++ "\n#define GLUE_FUNCTION_".toList ++ row.name ++ "\n".toList ++
    (if noreturn then "void glue_".toList else "uintptr_t glue_".toList) ++ row.name ++
    "(wasm_exec_env_t env".toList ++ row.declared.flatMap Parm.declaration ++
    ")\n\x7b\n  wasm_module_inst_t module_inst = get_module_inst(env);\n  uintptr_t ret;\n".toList ++
    (if isAddr false row.parms then
      "  void *addr_app = addr_app_to_native((uintptr_t)NULL);\n".toList ++ addrChecks parm1Index row.parms
    else []) ++
    (if findex = 0 then []
      else if scanf then "  scanf_begin(module_inst, ap);\n".toList
      else "  va_list_string2native(env, format, ap);\n".toList) ++
    (if noreturn then "  ".toList else "  ret = ".toList) ++ addrcov ++ vp ++ row.name ++ "(".toList ++
    callArgs row.name findex parm1Index row.parms ++ (if addrcov = [] then [] else ")".toList) ++ ");\n".toList ++
    (if findex = 0 then []
      else if scanf then "  scanf_end(module_inst, ap);\n".toList
      else "  va_list_string2app(env, format, ap);\n".toList) ++
    (if noreturn then [] else "  return ret;\n".toList) ++
    "\x7d\n\n#endif /* GLUE_FUNCTION_".toList ++ row.name ++ " */\n".toList ++
    (if row.cond = [] then [] else "#endif /* ".toList ++ row.cond ++ " */\n\n".toList)

/-! ## The pass -/

/-- `vprefix` after the branches that set it. The branch of the `va_list` functions does not, so it is what
the row before left, none while the local is unbound. -/
def vprefixAfter (name : Text) (vp : Option Text) : Option Text :=
  if isVaAdditionalFunction name then some ['v']
  else if isVaListFunction name then vp
  else some []

/-- `generate_functions` from a line on: what it writes, or none when it ends with an error. -/
def generateFunctions (vp : Option Text) : List Text → Option Text
  | [] => some []
  | line :: lines =>
    if stripWith isSpace line = [] then some []
    else if (splitLine line).head?.any isStripFunction then generateFunctions vp lines
    else
      (Row.ofLine line).bind fun row =>
        (vprefixAfter row.name vp).bind fun v =>
          (generateFunctions (some v) lines).map fun text => glueFunction row v ++ text

/-- The rows of the lines that are not passed over. -/
def retained (lines : List Text) : List Row :=
  (lines.filterMap Row.ofLine).filter fun row => !isStripFunction row.name

/-- In every order of the lines the pass ends without an error, and each row gets a text of its own. -/
def RowLocal (lines : List Text) : Prop :=
  ∃ text : Row → Text, ∀ lines' : List Text, lines'.Perm lines →
    generateFunctions none lines' = some ((retained lines').flatMap text)

/-! ## One line -/

variable {line : Text} {lines : List Text} {row : Row} {vp : Option Text}

theorem head?_splitLine (h : Row.ofLine line = some row) : (splitLine line).head? = some row.name := by
  unfold Row.ofLine at h
  split at h
  · rename_i hsplit
    cases h
    rw [hsplit]
    rfl
  · cases h

/-- A blank line has one field, so it is no row. -/
theorem strip_ne_nil (h : Row.ofLine line = some row) : stripWith isSpace line ≠ [] := by
  intro hblank
  have hsplit : splitLine line = [[]] := by
    unfold splitLine
    rw [hblank]
    decide
  unfold Row.ofLine at h
  rw [hsplit] at h
  cases h

theorem retained_cons (h : Row.ofLine line = some row) :
    retained (line :: lines) = if isStripFunction row.name then retained lines else row :: retained lines := by
  unfold retained
  rw [List.filterMap_cons_some h, List.filter_cons]
  cases isStripFunction row.name <;> rfl

theorem generateFunctions_cons (h : Row.ofLine line = some row) :
    generateFunctions vp (line :: lines) =
      if isStripFunction row.name then generateFunctions vp lines
      else (vprefixAfter row.name vp).bind fun v =>
        (generateFunctions (some v) lines).map fun text => glueFunction row v ++ text := by
  rw [generateFunctions, if_neg (strip_ne_nil h), head?_splitLine h, h]
  rfl

/-! ## Rows of their own -/

/-- The `vprefix` that a row's own branch sets. -/
def ownVprefixOf (name : Text) : Text := if isVaAdditionalFunction name then ['v'] else []

theorem vprefixAfter_own (h : isVaListFunction row.name = false) :
    vprefixAfter row.name vp = some (ownVprefixOf row.name) := by
  unfold vprefixAfter ownVprefixOf
  rw [h]
  cases isVaAdditionalFunction row.name <;> rfl

/-- The two name lists have no name in common. -/
theorem vaAdditional_of_vaList {name : Text} (h : isVaListFunction name = true) :
    isVaAdditionalFunction name = false := by
  obtain ⟨va, hva, he⟩ := List.any_eq_true.1 h
  rw [beq_iff_eq] at he
  subst he
  have hall : ∀ va ∈ vaListFuncs, isVaAdditionalFunction va = false := by decide
  exact hall va hva

theorem mem_retained : row ∈ retained lines ↔
    (∃ line ∈ lines, Row.ofLine line = some row) ∧ isStripFunction row.name = false := by
  unfold retained
  rw [List.mem_filter, List.mem_filterMap]
  simp

/-- Without `va_list` functions the pass writes each row's own text, whatever `vprefix` is before. -/
theorem generateFunctions_own (hrows : ∀ line ∈ lines, (Row.ofLine line).isSome)
    (hva : ∀ row ∈ retained lines, isVaListFunction row.name = false) :
    generateFunctions vp lines =
      some ((retained lines).flatMap fun row => glueFunction row (ownVprefixOf row.name)) := by
  induction lines generalizing vp with
  | nil => rfl
  | cons line lines ih =>
    rw [List.forall_mem_cons] at hrows
    obtain ⟨row, hrow⟩ := Option.isSome_iff_exists.1 hrows.1
    rw [generateFunctions_cons hrow]
    rw [retained_cons hrow] at hva ⊢
    cases hs : isStripFunction row.name with
    | true =>
      rw [hs, if_pos rfl] at hva
      rw [if_pos rfl, if_pos rfl]
      exact ih hrows.2 hva
    | false =>
      rw [hs, if_neg Bool.false_ne_true, List.forall_mem_cons] at hva
      rw [if_neg Bool.false_ne_true, if_neg Bool.false_ne_true, vprefixAfter_own hva.1, Option.bind_some,
        ih hrows.2 hva.2, Option.map_some, List.flatMap_cons]

/-- The row of a `va_list` function in front reads the local before it is bound. -/
theorem generateFunctions_vaList (hrow : Row.ofLine line = some row) (hs : isStripFunction row.name = false)
    (hva : isVaListFunction row.name = true) : generateFunctions none (line :: lines) = none := by
  rw [generateFunctions_cons hrow, hs, if_neg Bool.false_ne_true]
  unfold vprefixAfter
  rw [vaAdditional_of_vaList hva, hva]
  rfl

/-- The pass is local to the rows exactly when none of them is of a function that takes a `va_list`. -/
theorem rowLocal_iff (hrows : ∀ line ∈ lines, (Row.ofLine line).isSome) :
    RowLocal lines ↔ ∀ row ∈ retained lines, isVaListFunction row.name = false := by
  constructor
  · rintro ⟨text, hlocal⟩ row hr
    obtain ⟨⟨line, hline, hrow⟩, hs⟩ := mem_retained.1 hr
    by_contra hva
    rw [Bool.not_eq_false] at hva
    have hfirst := hlocal (line :: lines.erase line) (List.perm_cons_erase hline).symm
    rw [generateFunctions_vaList hrow hs hva] at hfirst
    cases hfirst
  · intro hva
    refine ⟨fun row => glueFunction row (ownVprefixOf row.name), fun lines' hperm => ?_⟩
    refine generateFunctions_own (fun line hline => hrows line (hperm.mem_iff.1 hline)) fun row hr => hva row ?_
    obtain ⟨⟨line, hline, hrow⟩, hs⟩ := mem_retained.1 hr
    exact mem_retained.2 ⟨⟨line, hperm.mem_iff.1 hline, hrow⟩, hs⟩

def snprintfLine : Text :=
  "\"snprintf\",\"stdio.h\",\"\",\"int\",\"FAR char *\",\"size_t\",\"FAR const IPTR char *\",\"...\"".toList

def vsnprintfLine : Text :=
  "\"vsnprintf\",\"stdio.h\",\"\",\"int\",\"FAR char *\",\"size_t\",\"FAR const IPTR char *\",\"va_list\"".toList

def strlenLine : Text := "\"strlen\",\"string.h\",\"\",\"size_t\",\"FAR const char *\"".toList

theorem rowLocal_snprintf : RowLocal [snprintfLine, strlenLine] :=
  (rowLocal_iff (by decide)).2 (by decide)

/-- A `va_list` function behind a variadic one is called with another `v`, and in front with none at all. -/
theorem vsnprintf_not_rowLocal :
    ¬ ∀ lines : List Text, (∀ line ∈ lines, (Row.ofLine line).isSome) →
      ((lines.filterMap Row.ofLine).map Row.name).Nodup → RowLocal lines := by
  intro h
  obtain ⟨text, hlocal⟩ := h [snprintfLine, vsnprintfLine] (by decide) (by decide)
  have hfirst := hlocal [vsnprintfLine, snprintfLine] (List.Perm.swap _ _ _)
  have herror : generateFunctions none [vsnprintfLine, snprintfLine] = none := by decide
  rw [herror] at hfirst
  cases hfirst

end VelaWasm.Tools
