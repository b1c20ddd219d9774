/-
The generated glue as the C compiler sees it. A source includes several generated files behind functions written by
hand; each table entry names a glue function, and rows of one name stand in several files or under several conditions.
In every configuration the functions compiled are those of the entries, less the functions written by hand.
-/
import VelaWasm.Tools.GenerateTable
import Mathlib.Data.List.Induction

namespace VelaWasm.Tools

open VelaWasm.Cpp

/-! ## Compilation -/

/-- The blocks of a generated file: its functions, then its table. -/
def fileBlocks (rows : List (Row × Text)) : List (Guarded Text Text Piece) :=
  rows.map functionBlock ++ rows.map entryBlock

/-- The rows of each file that a source includes, in order. -/
def unitRows : List (List Text) → Option (List (List (Row × Text)))
  | [] => some []
  | lines :: files => (functionRows none lines).bind fun rows => (unitRows files).map (rows :: ·)

/-- What is compiled of the generated files, in a configuration and behind the functions written by hand. -/
def compileUnit (holds : Text → Bool) (hand : List Text) (files : List (List Text)) : Option (List Piece) :=
  (unitRows files).bind fun unit =>
    preprocess holds (hand.map functionMacro) ((unit.flatMap fileBlocks).flatMap Guarded.lines)

/-- The rows whose functions are compiled. -/
def functions (out : List Piece) : List Row :=
  out.filterMap fun
    | .function row _ => some row
    | .entry _ => none

/-- The rows whose symbols are in the tables. -/
def entries (out : List Piece) : List Row :=
  out.filterMap fun
    | .function .. => none
    | .entry row => some row

/-- The row is compiled in the configuration. -/
def Row.enabled (holds : Text → Bool) (row : Row) : Bool := row.condition.all holds

/-- What a table refers to is defined. -/
structure Linked (holds : Text → Bool) (hand : List Text) (rows : List Row) (out : List Piece) : Prop where
  /-- the function of each symbol is written by hand or compiled once, from the row of the symbol -/
  functions : functions out = (entries out).filter fun row => decide (row.name ∉ hand)
  nodup : ((entries out).map Row.name).Nodup
  /-- each symbol is of the first enabled row of its name -/
  entries : ∀ name, (entries out).find? (fun row => decide (row.name = name)) =
    rows.find? fun row => row.enabled holds && decide (row.name = name)
  /-- it stands before the table -/
  before : ∀ pre post row, out = pre ++ .entry row :: post → row.name ∈ hand ∨ ∃ vp, .function row vp ∈ pre

/-! ## The text and its blocks -/

variable {holds : Text → Bool} {hand : List Text}

/-- The text of the functions is that of their blocks. -/
theorem generateFunctions_eq (vp : Option Text) (lines : List Text) :
    generateFunctions vp lines = (functionRows vp lines).map fun rows =>
      ((rows.map functionBlock).flatMap Guarded.lines).flatMap (lineText "\n".toList) := by
  induction lines generalizing vp with
  | nil => rfl
  | cons line lines ih =>
    rw [generateFunctions, functionRows]
    split_ifs
    · rfl
    · exact ih vp
    · cases Row.ofLine line with
      | none => rfl
      | some row =>
        rw [Option.bind_some, Option.bind_some]
        cases vprefixAfter row.name vp with
        | none => rfl
        | some v =>
          rw [Option.bind_some, Option.bind_some, ih]
          cases functionRows (some v) lines with
          | none => rfl
          | some rows =>
            simp only [Option.map_some, List.map_cons, List.flatMap_cons, List.flatMap_append, glueFunction_eq_lines]

/-- Both passes work on the same rows. -/
theorem readRows_eq {vp : Option Text} {lines : List Text} {rows : List (Row × Text)}
    (h : functionRows vp lines = some rows) : readRows lines = some (rows.map Prod.fst) := by
  induction lines generalizing vp rows with
  | nil =>
    cases h
    rfl
  | cons line lines ih =>
    rw [functionRows] at h
    rw [readRows]
    split_ifs at h ⊢
    · cases h
      rfl
    · exact ih h
    · obtain ⟨row, hrow, h⟩ := Option.bind_eq_some_iff.1 h
      obtain ⟨v, -, h⟩ := Option.bind_eq_some_iff.1 h
      obtain ⟨rest, hrest, rfl⟩ := Option.map_eq_some_iff.1 h
      rw [hrow, Option.bind_some, ih hrest]
      rfl

theorem guardedEntries_eq (rows : List (Row × Text)) : (rows.map Prod.fst).flatMap guardedEntry =
    ((rows.map entryBlock).flatMap Guarded.lines).flatMap (lineText []) := by
  induction rows with
  | nil => rfl
  | cons row rows ih =>
    rw [List.map_cons, List.flatMap_cons, ih, List.map_cons, List.flatMap_cons, List.flatMap_append,
      guardedEntry_eq_lines row.1 row.2]

/-- The glue file is the text of the blocks of its rows, and the signature library lists the rows. -/
theorem generateGlue_eq {csv out lib : Text} {lines : List Text} (h : generateGlue csv lines = some (out, lib)) :
    ∃ rows include_, functionRows none lines = some rows ∧ generateInclude lines = some include_ ∧
      out = include_ ++ ((rows.map functionBlock).flatMap Guarded.lines).flatMap (lineText "\n".toList) ++
        (tableHead csv ++ ((rows.map entryBlock).flatMap Guarded.lines).flatMap (lineText []) ++ "\x7d;\n".toList) ∧
      lib = libHead csv ++ (rows.map Prod.fst).flatMap tableEntry ++ libTail csv := by
  unfold generateGlue at h
  obtain ⟨include_, hinclude, h⟩ := Option.bind_eq_some_iff.1 h
  obtain ⟨functions, hfunctions, h⟩ := Option.bind_eq_some_iff.1 h
  obtain ⟨table, htable, h⟩ := Option.map_eq_some_iff.1 h
  rw [generateFunctions_eq] at hfunctions
  obtain ⟨rows, hrows, rfl⟩ := Option.map_eq_some_iff.1 hfunctions
  rw [generateTable, readRows_eq hrows, Option.map_some, Option.some_inj] at htable
  subst htable
  simp only [Prod.mk.injEq] at h
  exact ⟨rows, include_, hrows, hinclude, by rw [← h.1, guardedEntries_eq], h.2.symm⟩

/-! ## The two kinds of macros -/

def isFunctionMacro (name : Text) : Bool := "GLUE_FUNCTION_".toList.isPrefixOf name

theorem isFunctionMacro_functionMacro (name : Text) : isFunctionMacro (functionMacro name) = true :=
  List.isPrefixOf_iff_prefix.2 (List.prefix_append _ _)

theorem isFunctionMacro_entryMacro (name : Text) : isFunctionMacro (entryMacro name) = false := by
  rw [isFunctionMacro, Bool.eq_false_iff, ne_eq, List.isPrefixOf_iff_prefix, entryMacro_eq]
  rintro ⟨rest, h⟩
  have hsixth : ("GLUE_FUNCTION_".toList ++ rest)[5]? = ("GLUE_ENTRY_".toList ++ name)[5]? := by rw [h]
  rw [List.getElem?_append_left (by decide), List.getElem?_append_left (by decide)] at hsixth
  exact absurd hsixth (by decide)

theorem functionMacro_inj {a b : Text} : functionMacro a = functionMacro b ↔ a = b := by
  rw [functionMacro_eq, functionMacro_eq, List.append_right_inj]

theorem entryMacro_inj {a b : Text} : entryMacro a = entryMacro b ↔ a = b := by
  rw [entryMacro_eq, entryMacro_eq, List.append_right_inj]

theorem filter_functionBlocks (rows : List (Row × Text)) (b : Bool) :
    (rows.map functionBlock).filter (fun g => isFunctionMacro g.name == b) =
      if b then rows.map functionBlock else [] := by
  rw [List.filter_map]
  cases b <;> simp [Function.comp_def, functionBlock, isFunctionMacro_functionMacro]

theorem filter_entryBlocks (rows : List (Row × Text)) (b : Bool) :
    (rows.map entryBlock).filter (fun g => isFunctionMacro g.name == b) =
      if b then [] else rows.map entryBlock := by
  rw [List.filter_map]
  cases b <;> simp [Function.comp_def, entryBlock, isFunctionMacro_entryMacro]

/-- The blocks of one kind are those of the rows of all files. -/
theorem filter_fileBlocks (unit : List (List (Row × Text))) (b : Bool) :
    (unit.flatMap fileBlocks).filter (fun g => isFunctionMacro g.name == b) =
      unit.flatten.map (if b then functionBlock else entryBlock) := by
  induction unit with
  | nil => rfl
  | cons rows unit ih =>
    rw [List.flatMap_cons, List.filter_append, ih, fileBlocks, List.filter_append, filter_functionBlocks,
      filter_entryBlocks, List.flatten_cons, List.map_append]
    cases b <;> simp

/-! ## What is compiled -/

/-- The blocks that are compiled of the generated files. -/
def compiled (holds : Text → Bool) (hand : List Text) (unit : List (List (Row × Text))) :
    List (Guarded Text Text Piece) :=
  taken holds (hand.map functionMacro) (unit.flatMap fileBlocks)

theorem compileUnit_eq {files : List (List Text)} {out : List Piece} (h : compileUnit holds hand files = some out) :
    ∃ unit, unitRows files = some unit ∧ out = (compiled holds hand unit).map Guarded.text := by
  obtain ⟨unit, hunit, h⟩ := Option.bind_eq_some_iff.1 h
  rw [preprocess_blocks, Option.some_inj] at h
  exact ⟨unit, hunit, h.symm⟩

/-- There are rows of which the entries are compiled, and the functions where they are not written by hand. -/
theorem compiled_kinds (holds : Text → Bool) (hand : List Text) (unit : List (List (Row × Text))) :
    ∃ rows : List (Row × Text),
      (compiled holds hand unit).filter (fun g => isFunctionMacro g.name == false) = rows.map entryBlock ∧
      taken holds [] (unit.flatten.map entryBlock) = rows.map entryBlock ∧
      (compiled holds hand unit).filter (fun g => isFunctionMacro g.name == true) =
        (rows.filter fun row => decide (row.1.name ∉ hand)).map functionBlock := by
  obtain ⟨rows, hfunctions, hentries⟩ := @taken_map _ _ _ _ holds _ functionBlock entryBlock (fun _ => rfl)
    (fun _ _ => functionMacro_inj.trans entryMacro_inj.symm) [] unit.flatten
  refine ⟨rows, ?_, hentries, ?_⟩
  · rw [compiled, taken_filter (fun n => isFunctionMacro n == false), filter_fileBlocks, ← hentries]
    refine taken_congr fun g hg => ?_
    -- no macro of an entry is one of a function
    obtain ⟨row, -, rfl⟩ := List.mem_map.1 hg
    refine iff_of_false (fun hmem => ?_) (by simp)
    obtain ⟨name, -, he⟩ := List.mem_map.1 hmem
    have hkind := isFunctionMacro_functionMacro name
    rw [he] at hkind
    exact absurd hkind (by simp [entryBlock, isFunctionMacro_entryMacro])
  · have hdefs := taken_defs_append holds (hand.map functionMacro) [] (unit.flatten.map functionBlock)
    rw [List.append_nil] at hdefs
    rw [compiled, taken_filter (fun n => isFunctionMacro n == true), filter_fileBlocks, if_pos rfl, hdefs,
      show taken holds [] (unit.flatten.map functionBlock) = _ from hfunctions, List.filter_map]
    refine congrArg (List.map functionBlock) (List.filter_congr fun row _ => ?_)
    exact decide_eq_decide.2 (not_congr (by simp [functionBlock, functionMacro_inj]))

/-- A block of either kind. -/
def IsBlock (g : Guarded Text Text Piece) : Prop := ∃ row, g = functionBlock row ∨ g = entryBlock row

theorem isBlock_of_compiled {unit : List (List (Row × Text))} {g : Guarded Text Text Piece}
    (h : g ∈ compiled holds hand unit) : IsBlock g := by
  obtain ⟨rows, -, hg⟩ := List.mem_flatMap.1 ((taken_sublist holds _ _).subset h)
  rcases List.mem_append.1 hg with hg | hg
  · obtain ⟨row, -, rfl⟩ := List.mem_map.1 hg
    exact ⟨row, .inl rfl⟩
  · obtain ⟨row, -, rfl⟩ := List.mem_map.1 hg
    exact ⟨row, .inr rfl⟩

theorem functions_filter {gs : List (Guarded Text Text Piece)} (hg : ∀ g ∈ gs, IsBlock g) :
    functions (gs.map Guarded.text) =
      functions ((gs.filter fun g => isFunctionMacro g.name == true).map Guarded.text) := by
  induction gs with
  | nil => rfl
  | cons g gs ih =>
    rw [List.forall_mem_cons] at hg
    obtain ⟨row, rfl | rfl⟩ := hg.1
    · rw [List.filter_cons_of_pos (by simp [functionBlock, isFunctionMacro_functionMacro])]
      exact congrArg (row.1 :: ·) (ih hg.2)
    · rw [List.filter_cons_of_neg (by simp [entryBlock, isFunctionMacro_entryMacro])]
      exact ih hg.2

theorem entries_filter {gs : List (Guarded Text Text Piece)} (hg : ∀ g ∈ gs, IsBlock g) :
    entries (gs.map Guarded.text) =
      entries ((gs.filter fun g => isFunctionMacro g.name == false).map Guarded.text) := by
  induction gs with
  | nil => rfl
  | cons g gs ih =>
    rw [List.forall_mem_cons] at hg
    obtain ⟨row, rfl | rfl⟩ := hg.1
    · rw [List.filter_cons_of_neg (by simp [functionBlock, isFunctionMacro_functionMacro])]
      exact ih hg.2
    · rw [List.filter_cons_of_pos (by simp [entryBlock, isFunctionMacro_entryMacro])]
      exact congrArg (row.1 :: ·) (ih hg.2)

theorem functions_functionBlocks (rows : List (Row × Text)) :
    functions ((rows.map functionBlock).map Guarded.text) = rows.map Prod.fst := by
  simp [functions, List.filterMap_map, Function.comp_def, functionBlock]

theorem entries_entryBlocks (rows : List (Row × Text)) :
    entries ((rows.map entryBlock).map Guarded.text) = rows.map Prod.fst := by
  simp [entries, List.filterMap_map, Function.comp_def, entryBlock]

/-- The functions that are compiled are those of the entries, less the ones written by hand. -/
theorem functions_compiled (holds : Text → Bool) (hand : List Text) (unit : List (List (Row × Text))) :
    functions ((compiled holds hand unit).map Guarded.text) =
      (entries ((compiled holds hand unit).map Guarded.text)).filter fun row => decide (row.name ∉ hand) := by
  obtain ⟨rows, hentries, -, hfunctions⟩ := compiled_kinds holds hand unit
  rw [functions_filter fun _ => isBlock_of_compiled, entries_filter fun _ => isBlock_of_compiled, hentries, hfunctions,
    functions_functionBlocks, entries_entryBlocks, List.filter_map]
  rfl

/-- The entries that are compiled do not depend on what is written by hand. -/
theorem entries_compiled (holds : Text → Bool) (hand : List Text) (unit : List (List (Row × Text))) :
    ∃ rows : List (Row × Text), entries ((compiled holds hand unit).map Guarded.text) = rows.map Prod.fst ∧
      taken holds [] (unit.flatten.map entryBlock) = rows.map entryBlock := by
  obtain ⟨rows, hentries, htaken, -⟩ := compiled_kinds holds hand unit
  refine ⟨rows, ?_, htaken⟩
  rw [entries_filter fun _ => isBlock_of_compiled, hentries, entries_entryBlocks]

theorem mem_functions {out : List Piece} {row : Row} : row ∈ functions out ↔ ∃ vp, Piece.function row vp ∈ out := by
  simp only [functions, List.mem_filterMap]
  constructor
  · rintro ⟨piece, hpiece, he⟩
    cases piece with
    | function row' vp =>
      cases he
      exact ⟨vp, hpiece⟩
    | entry row' => cases he
  · rintro ⟨vp, hvp⟩
    exact ⟨_, hvp, rfl⟩

/-- The text of a file behind what was compiled before it: an entry stands before it or in its table. -/
theorem entry_cases {before funs table pre post : List Piece} {row : Row} (hfuns : ∀ row, .entry row ∉ funs)
    (h : before ++ funs ++ table = pre ++ .entry row :: post) :
    (∃ post', before = pre ++ .entry row :: post') ∨ before ++ funs <+: pre := by
  rcases List.append_eq_append_iff.1 h with ⟨rest, hpre, -⟩ | ⟨rest, hbefore, hpost⟩
  · exact .inr ⟨rest, hpre.symm⟩
  · cases rest with
    | nil => exact .inr ⟨[], by rw [hbefore, List.append_nil, List.append_nil]⟩
    | cons piece rest =>
      cases hpost
      rcases List.append_eq_append_iff.1 hbefore with ⟨rest', -, hfun⟩ | ⟨rest', hpre, hfun⟩
      · exact absurd (by rw [hfun]; simp) (hfuns row)
      · cases rest' with
        | nil => exact absurd (by rw [← List.nil_append funs, ← hfun]; simp) (hfuns row)
        | cons piece' rest' =>
          cases hfun
          exact .inl ⟨rest', hpre⟩

/-- A further file compiles functions, then entries. -/
theorem compiled_concat (holds : Text → Bool) (hand : List Text) (unit : List (List (Row × Text))) (rows : List (Row × Text)) :
    ∃ funs table : List (Row × Text), compiled holds hand (unit ++ [rows]) =
      compiled holds hand unit ++ funs.map functionBlock ++ table.map entryBlock := by
  rw [compiled, List.flatMap_append, List.flatMap_singleton, fileBlocks, taken_append, taken_append, ← List.append_assoc]
  obtain ⟨funs, -, hfuns⟩ := List.sublist_map_iff.1 (taken_sublist holds
    ((compiled holds hand unit).map Guarded.name ++ hand.map functionMacro) (rows.map functionBlock))
  obtain ⟨table, -, htable⟩ := List.sublist_map_iff.1 (taken_sublist holds _ (rows.map entryBlock))
  refine ⟨funs, table, ?_⟩
  rw [← hfuns, ← htable]
  rfl

/-- An entry stands behind the function that it names. -/
theorem function_before_entry (hand : List Text) (unit : List (List (Row × Text))) {pre post : List Piece} {row : Row}
    (h : (compiled holds hand unit).map Guarded.text = pre ++ .entry row :: post) :
    row.name ∈ hand ∨ ∃ vp, Piece.function row vp ∈ pre := by
  induction unit using List.reverseRecOn generalizing post with
  | nil => simp [compiled, taken] at h
  | append_singleton unit rows ih =>
    have hall := functions_compiled holds hand (unit ++ [rows])
    have hentry : row ∈ entries ((compiled holds hand (unit ++ [rows])).map Guarded.text) := by
      rw [h]
      exact List.mem_filterMap.2 ⟨.entry row, by simp, rfl⟩
    obtain ⟨funs, table, hconcat⟩ := compiled_concat holds hand unit rows
    rw [hconcat, List.map_append, List.map_append] at h
    rcases entry_cases (fun row => by simp [functionBlock]) h with ⟨post', hbefore⟩ | hprefix
    · exact ih hbefore
    · by_cases hname : row.name ∈ hand
      · exact .inl hname
      · have hfunction : row ∈ functions ((compiled holds hand (unit ++ [rows])).map Guarded.text) := by
          rw [hall]
          exact List.mem_filter.2 ⟨hentry, decide_eq_true hname⟩
        obtain ⟨vp, hvp⟩ := mem_functions.1 hfunction
        rw [hconcat, List.map_append, List.map_append, List.mem_append] at hvp
        -- the function is not in the table
        refine .inr ⟨vp, hprefix.subset (hvp.resolve_right ?_)⟩
        simp [entryBlock]

/-! ## Linking -/

/-- The rows of the files. -/
def fileRows (files : List (List Text)) : List Row := files.flatMap fun lines => (readRows lines).getD []

theorem fileRows_eq {files : List (List Text)} {unit : List (List (Row × Text))} (h : unitRows files = some unit) :
    fileRows files = unit.flatten.map Prod.fst := by
  induction files generalizing unit with
  | nil =>
    cases h
    rfl
  | cons lines files ih =>
    rw [unitRows] at h
    obtain ⟨rows, hrows, h⟩ := Option.bind_eq_some_iff.1 h
    obtain ⟨unit, hunit, rfl⟩ := Option.map_eq_some_iff.1 h
    rw [fileRows, List.flatMap_cons, readRows_eq hrows, ← fileRows, ih hunit, List.flatten_cons, List.map_append]
    rfl

theorem find?_rows (rows : List (Row × Text)) (p : Guarded Text Text Piece → Bool) (q : Row → Bool)
    (h : ∀ row, p (entryBlock row) = q row.1) :
    ((rows.map entryBlock).find? p).map Guarded.text = ((rows.map Prod.fst).find? q).map Piece.entry := by
  rw [List.find?_map, List.find?_map, Option.map_map, Option.map_map]
  exact congrArg (fun r => (rows.find? r).map (Guarded.text ∘ entryBlock)) (funext h)

/-- In every configuration, for all CSV files that the generator accepts and whatever is written by hand in front of
them, each symbol in the tables is of the first enabled row of its name, stands in them once, and names a function
that is defined before it: by hand, or else exactly once, from that row. -/
theorem linked_of_compileUnit {files : List (List Text)} {out : List Piece}
    (h : compileUnit holds hand files = some out) : Linked holds hand (fileRows files) out := by
  obtain ⟨unit, hunit, rfl⟩ := compileUnit_eq h
  obtain ⟨rows, hentries, htaken⟩ := entries_compiled holds hand unit
  refine ⟨functions_compiled holds hand unit, ?_, fun name => ?_, fun pre post row => function_before_entry hand unit⟩
  · have hnodup := nodup_taken holds [] (unit.flatten.map entryBlock)
    have hnames : (rows.map entryBlock).map Guarded.name = ((rows.map Prod.fst).map Row.name).map entryMacro := by
      rw [List.map_map, List.map_map, List.map_map]
      rfl
    rw [htaken, hnames] at hnodup
    rw [hentries]
    exact hnodup.of_map entryMacro
  · have hfind := congrArg (Option.map Guarded.text)
      (find?_taken holds (List.not_mem_nil (a := entryMacro name)) (unit.flatten.map entryBlock))
    rw [htaken, find?_rows rows _ (fun row => decide (row.name = name)) fun row => decide_eq_decide.2 entryMacro_inj,
      find?_rows unit.flatten _ (fun row => row.enabled holds && decide (row.name = name)) fun row =>
        congrArg (_ && ·) (decide_eq_decide.2 entryMacro_inj)] at hfind
    rw [hentries, fileRows_eq hunit]
    exact Option.map_injective (fun _ _ he => Piece.entry.inj he) hfind

/-- `asctime` stands in two files, and `strlen` under two conditions of which the second holds. -/
def sharedLines : List (List Text) :=
  [["\"asctime\",\"time.h\",\"\",\"FAR char *\",\"FAR const struct tm *\"".toList,
      "\"strlen\",\"string.h\",\"A\",\"size_t\",\"FAR const char *\"".toList,
      "\"strlen\",\"string.h\",\"B\",\"size_t\",\"FAR const char *\"".toList],
    ["\"asctime\",\"time.h\",\"\",\"FAR char *\",\"FAR const struct tm *\"".toList]]

theorem linked_shared : Linked (fun cond => cond == ['B']) ["asctime".toList] (fileRows sharedLines)
    ((compileUnit (fun cond => cond == ['B']) ["asctime".toList] sharedLines).get (by decide)) :=
  linked_of_compileUnit (Option.some_get _).symm

/-! ## The signature libraries -/

/-- The libraries list the row of every symbol in the tables, with the same text, and in their order. They list other
rows too unless the configuration enables all rows and no name stands twice. -/
theorem signatureLibs_complete {files : List (List Text)} {out : List Piece}
    (h : compileUnit holds hand files = some out) :
    (∀ csv glue lib lines, lines ∈ files → generateGlue csv lines = some (glue, lib) →
      lib = libHead csv ++ (fileRows [lines]).flatMap tableEntry ++ libTail csv) ∧
      (entries out).Sublist (fileRows files) ∧
        (entries out = fileRows files ↔
          (∀ row ∈ fileRows files, row.enabled holds = true) ∧ ((fileRows files).map Row.name).Nodup) := by
  refine ⟨fun csv glue lib lines _ hg => ?_, ?_⟩
  · obtain ⟨rows, -, hrows, -, -, hlib⟩ := generateGlue_eq hg
    have hfile : fileRows [lines] = rows.map Prod.fst := by
      simp only [fileRows, List.flatMap_cons, List.flatMap_nil, readRows_eq hrows, Option.getD_some, List.append_nil]
    rw [hlib, hfile]
  · obtain ⟨unit, hunit, rfl⟩ := compileUnit_eq h
    obtain ⟨rows, hentries, htaken⟩ := entries_compiled holds hand unit
    have hall := taken_eq_self_iff holds (unit.flatten.map entryBlock)
    have hsub := taken_sublist holds [] (unit.flatten.map entryBlock)
    rw [htaken] at hall hsub
    have htext : ∀ rows : List (Row × Text), entries ((rows.map entryBlock).map Guarded.text) = rows.map Prod.fst :=
      entries_entryBlocks
    rw [hentries, fileRows_eq hunit]
    have hrows : (rows.map Prod.fst).Sublist (unit.flatten.map Prod.fst) := by
      rw [← htext rows, ← htext unit.flatten]
      exact (hsub.map _).filterMap _
    refine ⟨hrows, ?_⟩
    have hname : (unit.flatten.map entryBlock).map Guarded.name =
        ((unit.flatten.map Prod.fst).map Row.name).map entryMacro := by
      rw [List.map_map, List.map_map, List.map_map]
      rfl
    rw [hname, List.nodup_map_iff fun _ _ he => entryMacro_inj.1 he, List.forall_mem_map] at hall
    rw [List.forall_mem_map]
    refine Iff.trans ⟨fun he => ?_, fun he => ?_⟩ hall
    · have hlength := congrArg List.length he
      rw [List.length_map, List.length_map] at hlength
      exact hsub.eq_of_length (by rw [List.length_map, List.length_map, hlength])
    · rw [← htext rows, ← htext unit.flatten, he]

/-- What is compiled of the files of `sharedLines` under the second condition. -/
def sharedPieces : List Piece := (compileUnit (fun cond => cond == ['B']) [] sharedLines).get (by decide)

theorem signatureLibs_shared : entries sharedPieces ≠ fileRows sharedLines := by
  intro he
  have hall := (@signatureLibs_complete _ [] sharedLines sharedPieces (Option.some_get _).symm).2.2.1 he
  exact absurd hall.2 (by decide)

end VelaWasm.Tools
