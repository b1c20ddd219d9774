/-
The include lines of a generated glue file. `generate_include` splits the lines in a way of its own and sorts the headers
it finds: whatever the order of the rows and however often a header is used, each header has one line, and two files
with the same headers have the same lines.
-/
import VelaWasm.Tools.GenerateTable

namespace VelaWasm.Tools

/-! ## The order of strings -/

theorem textLe_total : ∀ a b : Text, textLe a b = true ∨ textLe b a = true
  | [], _ => .inl rfl
  | _ :: _, [] => .inr rfl
  | a :: as, b :: bs => by
    simp only [textLe, Bool.or_eq_true, decide_eq_true_eq, Bool.and_eq_true, beq_iff_eq]
    rcases Nat.lt_trichotomy a.toNat b.toNat with h | h | h
    · exact .inl (.inl h)
    · obtain rfl := Char.toNat_inj.1 h
      rcases textLe_total as bs with h | h
      · exact .inl (.inr ⟨rfl, h⟩)
      · exact .inr (.inr ⟨rfl, h⟩)
    · exact .inr (.inl h)

theorem textLe_antisymm : ∀ a b : Text, textLe a b = true → textLe b a = true → a = b
  | [], [], _, _ => rfl
  | [], _ :: _, _, h => by cases h
  | _ :: _, [], h, _ => by cases h
  | a :: as, b :: bs, hab, hba => by
    simp only [textLe, Bool.or_eq_true, decide_eq_true_eq, Bool.and_eq_true, beq_iff_eq] at hab hba
    rcases hab with hlt | ⟨rfl, hab⟩
    · rcases hba with hgt | ⟨rfl, -⟩
      · exact absurd hgt (Nat.lt_asymm hlt)
      · exact absurd hlt (Nat.lt_irrefl _)
    · rcases hba with hgt | ⟨-, hba⟩
      · exact absurd hgt (Nat.lt_irrefl _)
      · rw [textLe_antisymm as bs hab hba]

theorem textLe_trans : ∀ a b c : Text, textLe a b = true → textLe b c = true → textLe a c = true
  | [], _, _, _, _ => rfl
  | _ :: _, [], _, h, _ => by cases h
  | _ :: _, _ :: _, [], _, h => by cases h
  | a :: as, b :: bs, c :: cs, hab, hbc => by
    simp only [textLe, Bool.or_eq_true, decide_eq_true_eq, Bool.and_eq_true, beq_iff_eq] at hab hbc ⊢
    rcases hab with hab | ⟨rfl, hab⟩
    · rcases hbc with hbc | ⟨rfl, -⟩
      · exact .inl (hab.trans hbc)
      · exact .inl hab
    · rcases hbc with hbc | ⟨rfl, hbc⟩
      · exact .inl hbc
      · exact .inr ⟨rfl, textLe_trans as bs cs hab hbc⟩

/-- Python's order as a relation. -/
abbrev TextLe (a b : Text) : Prop := textLe a b = true

instance : Std.Total TextLe := ⟨textLe_total⟩

instance : Std.Antisymm TextLe := ⟨textLe_antisymm⟩

instance : IsTrans Text TextLe := ⟨textLe_trans⟩

/-! ## The headers -/

/-- The headers of the lines that are not passed over, with the empty ones left out. -/
def headerColumns : List Text → Option (List Text)
  | [] => some []
  | line :: lines =>
    if stripWith isSpace line = [] then some []
    else if (splitCommas line).head?.any isStripFunction then headerColumns lines
    else
      match splitCommas line with
      | _ :: header :: _ => (headerColumns lines).map fun headers => if header = [] then headers else header :: headers
      | _ => none

/-- The headers behind those that were collected before. -/
def addHeaders (headers : List Text) : List Text → List Text
  | [] => headers
  | header :: rest => addHeaders (if headers.any (· == header) then headers else headers ++ [header]) rest

theorem collectHeaders_eq (headers : List Text) (lines : List Text) :
    collectHeaders headers lines = (headerColumns lines).map (addHeaders headers) := by
  induction lines generalizing headers with
  | nil => rfl
  | cons line lines ih =>
    rw [collectHeaders, headerColumns]
    split_ifs
    · rfl
    · exact ih headers
    · match splitCommas line with
      | _ :: header :: _ =>
        rw [Option.map_map]
        by_cases hempty : header = []
        · simp [hempty, ih, Function.comp_def]
        · cases hmem : headers.any (· == header) <;> simp [hempty, hmem, ih, Function.comp_def, addHeaders]
      | [] | [_] => rfl

theorem mem_addHeaders {headers rest : List Text} {t : Text} :
    t ∈ addHeaders headers rest ↔ t ∈ headers ∨ t ∈ rest := by
  induction rest generalizing headers with
  | nil => simp [addHeaders]
  | cons header rest ih =>
    rw [addHeaders, ih, List.mem_cons]
    split_ifs with hmem
    · obtain ⟨h, hh, he⟩ := List.any_eq_true.1 hmem
      rw [beq_iff_eq] at he
      subst he
      constructor
      · rintro (ht | ht)
        · exact .inl ht
        · exact .inr (.inr ht)
      · rintro (ht | rfl | ht)
        · exact .inl ht
        · exact .inl hh
        · exact .inr ht
    · rw [List.mem_append, List.mem_singleton, or_assoc]

theorem nodup_addHeaders {headers rest : List Text} (h : headers.Nodup) : (addHeaders headers rest).Nodup := by
  induction rest generalizing headers with
  | nil => exact h
  | cons header rest ih =>
    rw [addHeaders]
    split_ifs with hmem
    · exact ih h
    · refine ih (List.nodup_append.2 ⟨h, List.nodup_singleton _, ?_⟩)
      intro a ha b hb hab
      rw [List.mem_singleton.1 hb] at hab
      exact hmem (List.any_eq_true.2 ⟨a, ha, by rw [hab, beq_self_eq_true]⟩)

/-! ## The lines -/

def includeText (headers : List Text) : Text :=
  headers.flatMap (fun header => "#include <".toList ++ header ++ ">\n".toList) ++
    "\n#include <wasm_export.h>\n\n".toList

/-- The headers in order, each once. -/
structure Listing (headers listed : List Text) : Prop where
  mem : ∀ t, t ∈ listed ↔ t ∈ headers
  nodup : listed.Nodup
  sorted : listed.Pairwise TextLe

/-- There is only one way to list headers. -/
theorem Listing.unique {headers headers' listed listed' : List Text} (h : Listing headers listed)
    (h' : Listing headers' listed') (hsame : ∀ t, t ∈ headers ↔ t ∈ headers') : listed = listed' := by
  have hperm : listed.Perm listed' :=
    (List.perm_ext_iff_of_nodup h.nodup h'.nodup).2 fun t => (h.mem t).trans ((hsame t).trans (h'.mem t).symm)
  exact hperm.eq_of_pairwise' h.sorted h'.sorted

/-- `generate_include` lists the headers of the rows, and writes the same for all rows with the same headers. -/
theorem generateInclude_canonical {lines headers : List Text} (h : headerColumns lines = some headers) :
    ∃ listed, Listing headers listed ∧ generateInclude lines = some (includeText listed) ∧
      ∀ lines' headers', headerColumns lines' = some headers' → (∀ t, t ∈ headers ↔ t ∈ headers') →
        generateInclude lines' = some (includeText listed) := by
  have hlisting : ∀ headers, Listing headers ((addHeaders [] headers).insertionSort TextLe) := fun headers =>
    ⟨fun t => by rw [List.mem_insertionSort, mem_addHeaders]; simp,
      ((List.perm_insertionSort TextLe _).nodup_iff).2 (nodup_addHeaders List.nodup_nil),
      List.pairwise_insertionSort TextLe _⟩
  have htext : ∀ {lines headers : List Text}, headerColumns lines = some headers →
      generateInclude lines = some (includeText ((addHeaders [] headers).insertionSort TextLe)) := by
    intro lines headers h
    rw [generateInclude, collectHeaders_eq, h]
    rfl
  refine ⟨_, hlisting headers, htext h, fun lines' headers' h' hsame => ?_⟩
  rw [htext h', (hlisting headers).unique (hlisting headers') hsame]

theorem generateInclude_snprintf : ∃ listed, Listing ["stdio.h".toList, "string.h".toList, "stdio.h".toList] listed ∧
    generateInclude [snprintfLine, strlenLine, vsnprintfLine] = some (includeText listed) ∧
      ∀ lines' headers', headerColumns lines' = some headers' →
        (∀ t, t ∈ ["stdio.h".toList, "string.h".toList, "stdio.h".toList] ↔ t ∈ headers') →
          generateInclude lines' = some (includeText listed) :=
  generateInclude_canonical (by decide)

end VelaWasm.Tools
