/-
Functions that are given pointers to pointers: `glue_iconv`, `glue_versionsort`, `glue_strtod`,
`glue_dbus_connection_get_object_path_data`, `glue_dbus_message_iter_get_fixed_array` and
`glue_dbus_connection_send_with_reply`. Some translate the pointers before the native call, all behind it. Over every
sequence of such calls the native functions see the pointers that the application means, and it reads what they store,
exactly as long as it passes no null pointer where the glue does not look for one, the pointers that are read are not
null or passed twice, and none that is stored changes places with null.
-/
import VelaWasm.Lib.InPlace
import VelaWasm.Lib.LockStep
import VelaWasm.Pointers

namespace VelaWasm.LibcBypass

open VelaWasm.InPlace VelaWasm.LockStep

/-! ## The glue -/

/-- What a glue function does about the pointers to pointers among its parameters. -/
structure CellGlue where
  /-- it translates what they point to before the call -/
  reads : Bool
  /-- it compares them with `addr_app`, and passes null on -/
  checksNull : Bool
  /-- it dereferences them behind the call without another look -/
  derefs : Bool
  /-- it translates the result -/
  resultPointer : Bool
  deriving DecidableEq, Repr

/-- The pointers that are pointed to, by the native addresses that they stand at, and all other memory. -/
structure CellState (D : Type*) where
  cells : Addr → Addr
  data : D

/-- A native function: given the pointers it reads and the other memory, its result, what it stores in each place, if
anything, and the other memory that it leaves. -/
abbrev CellNative (D : Type*) := List Addr → D → UInt32 × List (Option Addr) × D

/-- The stores of the native function. -/
def storeCells : List Addr → List (Option Addr) → (Addr → Addr) → Addr → Addr
  | p :: slots, some v :: out, cells => storeCells slots out (Function.update cells p v)
  | _ :: slots, none :: out, cells => storeCells slots out cells
  | _, _, cells => cells

/-- The pointers that the native function is given and the result of the call. -/
structure CellAnswer where
  given : List Addr
  result : UInt32
  deriving DecidableEq, Repr

variable {D : Type*}

section

variable (W : Wamr) (env : Addr)

/-- A call of the glue function, given the native addresses of the pointers; none where it dereferences null. -/
def CellGlue.call (g : CellGlue) (native : CellNative D) (parms : List Addr) (s : CellState D) :
    CellState D × Option CellAnswer :=
  let addrApp := translate W env true null
  let slots := if g.checksNull then parms.filter fun p => p ≠ addrApp else parms
  let cells := if g.reads then applyAll (translate W env true) slots s.cells else s.cells
  let given := slots.map fun p => if g.reads then cells p else null
  let (ret, out, data) := native given s.data
  (⟨applyAll (translate W env false) slots (storeCells slots out cells), data⟩,
    if g.derefs && slots.length != parms.length then none
    else some ⟨given, if g.resultPointer then translate W env false ret else ret⟩)

/-- `glue_iconv`, whose other pointers are to numbers -/
def glueIconv (iconv : CellNative D) (parm2 parm4 : Addr) : CellState D → CellState D × Option CellAnswer :=
  CellGlue.call W env ⟨true, false, true, false⟩ iconv [parm2, parm4]

/-- `glue_versionsort` -/
def glueVersionsort (versionsort : CellNative D) (parm1 parm2 : Addr) :
    CellState D → CellState D × Option CellAnswer :=
  CellGlue.call W env ⟨true, false, true, false⟩ versionsort [parm1, parm2]

/-- `glue_strtod`, which converts the number to `uintptr_t` -/
def glueStrtod (strtod : CellNative D) (parm2 : Addr) : CellState D → CellState D × Option CellAnswer :=
  CellGlue.call W env ⟨false, true, false, false⟩ strtod [parm2]

/-- `glue_dbus_connection_get_object_path_data` -/
def glueDbusConnectionGetObjectPathData (getObjectPathData : CellNative D) (parm3 : Addr) :
    CellState D → CellState D × Option CellAnswer :=
  CellGlue.call W env ⟨true, false, true, false⟩ getObjectPathData [parm3]

/-- `glue_dbus_message_iter_get_fixed_array` -/
def glueDbusMessageIterGetFixedArray (getFixedArray : CellNative D) (parm2 : Addr) :
    CellState D → CellState D × Option CellAnswer :=
  CellGlue.call W env ⟨false, false, true, false⟩ getFixedArray [parm2]

/-- `glue_dbus_connection_send_with_reply`, which translates the truth value that it returns -/
def glueDbusConnectionSendWithReply (sendWithReply : CellNative D) (parm3 : Addr) :
    CellState D → CellState D × Option CellAnswer :=
  CellGlue.call W env ⟨false, true, true, true⟩ sendWithReply [parm3]

end

/-! ## Runs -/

/-- A call of the application, with the app addresses of the pointers to pointers. -/
inductive CellAction (D : Type*) where
  | iconv (inbuf outbuf : Addr) (native : CellNative D)
  | versionsort (a b : Addr) (native : CellNative D)
  | strtod (endptr : Addr) (native : CellNative D)
  | getObjectPathData (data : Addr) (native : CellNative D)
  | getFixedArray (value : Addr) (native : CellNative D)
  | sendWithReply (pending : Addr) (native : CellNative D)

def CellAction.native : CellAction D → CellNative D
  | iconv _ _ native | versionsort _ _ native | strtod _ native | getObjectPathData _ native
  | getFixedArray _ native | sendWithReply _ native => native

/-- The pointers passed. -/
def CellAction.parms : CellAction D → List Addr
  | iconv a b _ | versionsort a b _ => [a, b]
  | strtod a _ | getObjectPathData a _ | getFixedArray a _ | sendWithReply a _ => [a]

variable (W : Wamr) (env : Addr)

/-- The call through the glue; WAMR translates the addresses that the application passes. -/
def cellGlueStep (s : CellState D) : CellAction D → CellState D × Option CellAnswer
  | .iconv a b native => glueIconv W env native (translate W env true a) (translate W env true b) s
  | .versionsort a b native => glueVersionsort W env native (translate W env true a) (translate W env true b) s
  | .strtod a native => glueStrtod W env native (translate W env true a) s
  | .getObjectPathData a native => glueDbusConnectionGetObjectPathData W env native (translate W env true a) s
  | .getFixedArray a native => glueDbusMessageIterGetFixedArray W env native (translate W env true a) s
  | .sendWithReply a native => glueDbusConnectionSendWithReply W env native (translate W env true a) s

/-- How the glue function of the call treats its pointers. -/
def CellAction.glue : CellAction D → CellGlue
  | iconv .. | versionsort .. | getObjectPathData .. => ⟨true, false, true, false⟩
  | strtod .. => ⟨false, true, false, false⟩
  | getFixedArray .. => ⟨false, false, true, false⟩
  | sendWithReply .. => ⟨false, true, true, true⟩

theorem cellGlueStep_eq (s : CellState D) (a : CellAction D) :
    cellGlueStep W env s a = a.glue.call W env a.native (a.parms.map (translate W env true)) s := by
  cases a <;> rfl

/-! ## The specification -/

/-- The native addresses of the pointers that are not null. -/
def CellAction.slots (a : CellAction D) : List Addr := (a.parms.filter fun p => p ≠ null).map (translate W env true)

/-- The pointers the native function is given: those that it reads. -/
def CellAction.given (a : CellAction D) (n : CellState D) : List Addr :=
  (a.slots W env).map fun q => if a.glue.reads then n.cells q else null

/-- What the native function does. -/
def CellAction.answer (a : CellAction D) (n : CellState D) : UInt32 × List (Option Addr) × D :=
  a.native (a.given W env n) n.data

/-- The call without the bridge: the cells hold native addresses. -/
def cellNativeStep (n : CellState D) (a : CellAction D) : CellState D × Option CellAnswer :=
  let (ret, out, data) := a.answer W env n
  (⟨storeCells (a.slots W env) out n.cells, data⟩, some ⟨a.given W env n, ret⟩)

/-- Every pointer of the application stands for the native one, and all other memory is the same. -/
structure CellsDenote (s n : CellState D) : Prop where
  cells : ∀ q, Denotes W env (s.cells q) (n.cells q)
  data : s.data = n.data

/-- The native function stores to the place. -/
def Stores (slots : List Addr) (out : List (Option Addr)) (q : Addr) : Prop := ∃ v, (q, some v) ∈ slots.zip out

instance (slots : List Addr) (out : List (Option Addr)) (q : Addr) : Decidable (Stores slots out q) :=
  decidable_of_iff ((slots.zip out).any fun e => e.1 == q && e.2.isSome) <| by
    simp only [List.any_eq_true, Bool.and_eq_true, beq_iff_eq, Option.isSome_iff_exists, Stores]
    constructor
    · rintro ⟨⟨p, o⟩, hmem, rfl, v, rfl⟩
      exact ⟨v, hmem⟩
    · rintro ⟨v, hmem⟩
      exact ⟨_, hmem, rfl, v, rfl⟩

/-- The pointer that the application has for `n`, translated `k` times, is `n`. -/
def Arrives (k : ℕ) (n : Addr) : Prop := (translate W env true)^[k] (readAs W env n) = n

/-- A pointer translated back `k` times stands for `n`. -/
def Returns (k : ℕ) (v n : Addr) : Prop := Denotes W env ((translate W env false)^[k] v) n

instance (k : ℕ) (n : Addr) : Decidable (Arrives W env k n) := inferInstanceAs (Decidable (_ = _))

instance (k : ℕ) (v n : Addr) : Decidable (Returns W env k v n) := inferInstanceAs (Decidable (Denotes ..))

/-- Null pointers are passed only where the glue looks for them, a result that is translated stays what it is, and each
pointer arrives and what is left in its place returns, translated as often as the place is passed. -/
structure CellsKept (n : CellState D) (a : CellAction D) : Prop where
  nulls : a.glue.checksNull = true ∧ a.glue.derefs = false ∨ ∀ p ∈ a.parms, p ≠ null
  reads : a.glue.reads = true → ∀ q ∈ a.slots W env, Arrives W env ((a.slots W env).count q) (n.cells q)
  result : a.glue.resultPointer = true → translate W env false (a.answer W env n).1 = (a.answer W env n).1
  stored : ∀ q ∈ a.slots W env,
    let left := (cellNativeStep W env n a).1.cells q
    Returns W env ((a.slots W env).count q)
      (if a.glue.reads = true ∨ Stores (a.slots W env) (a.answer W env n).2.1 q then left else readAs W env left) left

instance (n : CellState D) (a : CellAction D) : Decidable (CellsKept W env n a) :=
  -- over the places of the call, not over all addresses
  have : Decidable (∀ p ∈ a.parms, p ≠ null) := List.decidableBAll _ _
  have : Decidable (∀ q ∈ a.slots W env, Arrives W env ((a.slots W env).count q) (n.cells q)) := List.decidableBAll _ _
  have : Decidable (∀ q ∈ a.slots W env,
      let left := (cellNativeStep W env n a).1.cells q
      Returns W env ((a.slots W env).count q)
        (if a.glue.reads = true ∨ Stores (a.slots W env) (a.answer W env n).2.1 q then left else readAs W env left)
        left) := List.decidableBAll _ _
  decidable_of_iff (_ ∧ _ ∧ _ ∧ _)
    ⟨fun ⟨nulls, reads, result, stored⟩ => ⟨nulls, reads, result, stored⟩, fun h => ⟨h.nulls, h.reads, h.result, h.stored⟩⟩

section

variable {W env} (hright : Function.RightInverse (translate W env false) (translate W env true)) {n : Addr}

include hright

/-- A pointer that is passed once arrives unless it is null, which does where it is its own translation. -/
theorem arrives_once_iff : Arrives W env 1 n ↔ (n = null → translate W env true null = null) := by
  rw [Arrives, Function.iterate_one, readAs]
  by_cases hn : n = null
  · simp [hn]
  · simp [hn, hright n]

theorem returns_once_iff : Returns W env 1 n n ↔ (translate W env false n = null ↔ n = null) :=
  denotes_translate_iff hright

end

/-! ## The stores -/

variable {W env} {ps : List Addr} {out : List (Option Addr)} {cells : Addr → Addr} {q v : Addr}

theorem stores_cons {p : Addr} {o : Option Addr} :
    Stores (p :: ps) (o :: out) q ↔ (q = p ∧ o.isSome = true) ∨ Stores ps out q := by
  simp only [Stores, List.zip_cons_cons, List.mem_cons, Prod.mk.injEq, exists_or]
  refine or_congr ⟨?_, ?_⟩ Iff.rfl
  · rintro ⟨v, rfl, rfl⟩
    exact ⟨rfl, rfl⟩
  · rintro ⟨rfl, ho⟩
    obtain ⟨v, rfl⟩ := Option.isSome_iff_exists.1 ho
    exact ⟨v, rfl, rfl⟩

/-- A place that nothing is stored to keeps its pointer. -/
theorem storeCells_of_not_stores (h : ¬ Stores ps out q) : storeCells ps out cells q = cells q := by
  induction ps generalizing out cells with
  | nil => rfl
  | cons p ps ih =>
    cases out with
    | nil => rfl
    | cons o out =>
      rw [stores_cons, not_or] at h
      cases o with
      | none => exact ih h.2
      | some v =>
        have hq : q ≠ p := fun hq => h.1 ⟨hq, rfl⟩
        exact (ih h.2).trans (Function.update_of_ne hq _ _)

/-- What is stored does not depend on what was there. -/
theorem storeCells_congr {cells' : Addr → Addr} (h : Stores ps out q ∨ cells q = cells' q) :
    storeCells ps out cells q = storeCells ps out cells' q := by
  induction ps generalizing out cells cells' with
  | nil => exact h.resolve_left (by simp [Stores])
  | cons p ps ih =>
    cases out with
    | nil => exact h.resolve_left (by simp [Stores])
    | cons o out =>
      rw [stores_cons] at h
      cases o with
      | none => exact ih (h.imp_left fun h => h.resolve_left (by simp))
      | some v =>
        refine ih ?_
        by_cases hq : q = p
        · subst hq
          exact .inr (by rw [Function.update_self, Function.update_self])
        · rw [Function.update_of_ne hq, Function.update_of_ne hq]
          exact h.imp_left fun h => h.resolve_left fun h => hq h.1

theorem storeCells_of_notMem (h : q ∉ ps) : storeCells ps out cells q = cells q :=
  storeCells_of_not_stores fun ⟨_, hv⟩ => h (List.of_mem_zip hv).1

/-! ## The pieces of a call -/

variable {g : CellGlue} {native : CellNative D} {parms : List Addr} {s n : CellState D} {a : CellAction D}

/-- The places of the pointers that the glue passes on. -/
def CellGlue.slots (W : Wamr) (env : Addr) (g : CellGlue) (parms : List Addr) : List Addr :=
  if g.checksNull then parms.filter fun p => p ≠ translate W env true null else parms

/-- The pointers when the native function is called. -/
def CellGlue.before (W : Wamr) (env : Addr) (g : CellGlue) (parms : List Addr) (s : CellState D) : Addr → Addr :=
  if g.reads then applyAll (translate W env true) (g.slots W env parms) s.cells else s.cells

def CellGlue.given (W : Wamr) (env : Addr) (g : CellGlue) (parms : List Addr) (s : CellState D) : List Addr :=
  (g.slots W env parms).map fun p => if g.reads then g.before W env parms s p else null

theorem call_eq : g.call W env native parms s =
    let slots := g.slots W env parms
    let r := native (g.given W env parms s) s.data
    (⟨applyAll (translate W env false) slots (storeCells slots r.2.1 (g.before W env parms s)), r.2.2⟩,
      if g.derefs && slots.length != parms.length then none
      else some ⟨g.given W env parms s, if g.resultPointer then translate W env false r.1 else r.1⟩) := rfl

theorem length_slots_iff (a : CellAction D) :
    (a.slots W env).length = a.parms.length ↔ ∀ p ∈ a.parms, p ≠ null := by
  rw [CellAction.slots, List.length_map, List.length_filter_eq_length_iff]
  simp

section

variable (hleft : Function.LeftInverse (translate W env false) (translate W env true))

include hleft

/-- The glue passes on the pointers that are not null where it looks for null, and else where there is none. -/
theorem slots_eq (h : a.glue.checksNull = true ∨ ∀ p ∈ a.parms, p ≠ null) :
    a.glue.slots W env (a.parms.map (translate W env true)) = a.slots W env := by
  have hfilter : (a.parms.map (translate W env true)).filter (fun p => p ≠ translate W env true null) =
      a.slots W env := by
    rw [CellAction.slots, List.filter_map]
    refine congrArg (List.map _) (List.filter_congr fun p _ => ?_)
    simp only [Function.comp_apply, ne_eq, translate_eq_base_iff hleft]
  rw [CellGlue.slots]
  split_ifs with hc
  · exact hfilter
  · rw [CellAction.slots, List.filter_eq_self.2]
    exact fun p hp => decide_eq_true (h.resolve_left hc p hp)

/-! ## One call -/

/-- The native function is given the pointers that are meant exactly when those it reads arrive. -/
theorem given_eq_iff (h : CellsDenote W env s n) (hslots : a.glue.slots W env (a.parms.map (translate W env true)) =
      a.slots W env) : a.glue.given W env (a.parms.map (translate W env true)) s = a.given W env n ↔
    (a.glue.reads = true → ∀ q ∈ a.slots W env, Arrives W env ((a.slots W env).count q) (n.cells q)) := by
  rw [CellGlue.given, CellAction.given, CellGlue.before, hslots, List.map_inj_left]
  cases a.glue.reads with
  | false => simp
  | true =>
    simp only [if_true, forall_const]
    refine forall₂_congr fun q _ => ?_
    rw [applyAll_apply, (h.cells q).eq_readAs hleft, Arrives]

/-- A null pointer that the glue does not look for is dereferenced or passed on as the base of the linear memory. -/
theorem not_cellsMatch_of_null
    (hnulls : ¬ (a.glue.checksNull = true ∧ a.glue.derefs = false ∨ ∀ p ∈ a.parms, p ≠ null)) :
    ¬ StepMatches (cellGlueStep W env) (cellNativeStep W env) (CellsDenote W env) Eq s n a := by
  rintro ⟨hanswer, -⟩
  rw [not_or] at hnulls
  have hshort : (a.slots W env).length ≠ a.parms.length := mt (length_slots_iff a).1 hnulls.2
  rw [cellGlueStep_eq, call_eq] at hanswer
  cases hc : a.glue.checksNull with
  | true =>
    have hderefs : a.glue.derefs = true := by simpa [hc] using hnulls.1
    have hslots := slots_eq hleft (a := a) (.inl hc)
    simp [hslots, hderefs, hshort, cellNativeStep] at hanswer
  | false =>
    have hslots : a.glue.slots W env (a.parms.map (translate W env true)) = a.parms.map (translate W env true) := by
      rw [CellGlue.slots, hc, if_neg Bool.false_ne_true]
    simp only [hslots, bne_self_eq_false, Bool.and_false, Bool.false_eq_true, if_false, cellNativeStep, Option.some_inj,
      CellAnswer.mk.injEq] at hanswer
    have hlength := congrArg List.length hanswer.1
    simp only [CellGlue.given, CellAction.given, hslots, List.length_map] at hlength
    exact hshort hlength.symm

/-- What the call leaves in a place stands for what the native function leaves there. -/
theorem denotes_after_iff (h : CellsDenote W env s n)
    (hslots : a.glue.slots W env (a.parms.map (translate W env true)) = a.slots W env)
    (hgiven : a.glue.given W env (a.parms.map (translate W env true)) s = a.given W env n) {q : Addr} :
    Denotes W env ((cellGlueStep W env s a).1.cells q) ((cellNativeStep W env n a).1.cells q) ↔
      (q ∈ a.slots W env →
        let left := (cellNativeStep W env n a).1.cells q
        Returns W env ((a.slots W env).count q)
          (if a.glue.reads = true ∨ Stores (a.slots W env) (a.answer W env n).2.1 q then left else readAs W env left)
          left) := by
  have hout : (a.native (a.given W env n) s.data).2.1 = (a.answer W env n).2.1 := by rw [CellAction.answer, h.data]
  rw [cellGlueStep_eq, call_eq, hslots, hgiven]
  simp only [hout, cellNativeStep]
  by_cases hq : q ∈ a.slots W env
  · simp only [hq, forall_const, applyAll_apply, Returns]
    -- where the pointer is read it is the native one by now, and where it is stored to it does not matter
    by_cases hcase : a.glue.reads = true ∨ Stores (a.slots W env) (a.answer W env n).2.1 q
    · have hsame : storeCells (a.slots W env) (a.answer W env n).2.1
          (a.glue.before W env (a.parms.map (translate W env true)) s) q =
            storeCells (a.slots W env) (a.answer W env n).2.1 n.cells q := by
        refine storeCells_congr (hcase.symm.imp_right fun hreads => ?_)
        rw [CellGlue.given, hslots, CellAction.given, List.map_inj_left] at hgiven
        simpa [hreads] using hgiven q hq
      rw [if_pos hcase, hsame]
    · rw [not_or] at hcase
      rw [if_neg (not_or.2 hcase), storeCells_of_not_stores hcase.2, storeCells_of_not_stores hcase.2, CellGlue.before,
        if_neg hcase.1, ← (h.cells q).eq_readAs hleft]
  · have hbefore : a.glue.before W env (a.parms.map (translate W env true)) s q = s.cells q := by
      rw [CellGlue.before, hslots]
      split_ifs
      · exact applyAll_of_notMem hq
      · rfl
    rw [applyAll_of_notMem hq, storeCells_of_notMem hq, storeCells_of_notMem hq, hbefore]
    exact iff_of_true (h.cells q) fun hmem => absurd hmem hq

/-- With the null pointers where the glue looks for them, a call matches exactly when the rest of the condition holds. -/
theorem cellsMatch_iff_of_nulls (h : CellsDenote W env s n)
    (hnulls : a.glue.checksNull = true ∧ a.glue.derefs = false ∨ ∀ p ∈ a.parms, p ≠ null) :
    StepMatches (cellGlueStep W env) (cellNativeStep W env) (CellsDenote W env) Eq s n a ↔ CellsKept W env n a := by
  have hslots := slots_eq hleft (hnulls.imp_left And.left)
  have hderefs : (a.glue.derefs && (a.slots W env).length != (a.parms.map (translate W env true)).length) = false := by
    rcases hnulls with ⟨-, hd⟩ | hp
    · rw [hd, Bool.false_and]
    · rw [List.length_map, (length_slots_iff a).2 hp, bne_self_eq_false, Bool.and_false]
  have hanswer : (cellGlueStep W env s a).2 = some
      ⟨a.glue.given W env (a.parms.map (translate W env true)) s,
        let ret := (a.native (a.glue.given W env (a.parms.map (translate W env true)) s) s.data).1
        if a.glue.resultPointer then translate W env false ret else ret⟩ := by
    rw [cellGlueStep_eq, call_eq]
    simp only [hslots, hderefs, Bool.false_eq_true, if_false]
  rw [StepMatches, hanswer, show (cellNativeStep W env n a).2 = some ⟨a.given W env n, (a.answer W env n).1⟩ from rfl,
    Option.some_inj, CellAnswer.mk.injEq]
  by_cases hgiven : a.glue.given W env (a.parms.map (translate W env true)) s = a.given W env n
  · have hret : (a.native (a.given W env n) s.data).1 = (a.answer W env n).1 := by rw [CellAction.answer, h.data]
    have hdata : (cellGlueStep W env s a).1.data = (cellNativeStep W env n a).1.data := by
      rw [cellGlueStep_eq, call_eq, hgiven, h.data]
      rfl
    simp only [hgiven, true_and, hret]
    constructor
    · rintro ⟨hresult, hnext⟩
      refine ⟨hnulls, (given_eq_iff hleft h hslots).1 hgiven, fun hp => ?_, fun q hq => ?_⟩
      · rwa [if_pos hp] at hresult
      · exact (denotes_after_iff hleft h hslots hgiven).1 (hnext.cells q) hq
    · intro hkept
      refine ⟨?_, fun q => (denotes_after_iff hleft h hslots hgiven).2 (hkept.stored q), hdata⟩
      split_ifs with hp
      · exact hkept.result hp
      · rfl
  · refine iff_of_false (fun hm => hgiven hm.1.1) fun hkept => ?_
    exact hgiven ((given_eq_iff hleft h hslots).2 hkept.reads)

theorem cellsMatch_iff (h : CellsDenote W env s n) :
    StepMatches (cellGlueStep W env) (cellNativeStep W env) (CellsDenote W env) Eq s n a ↔ CellsKept W env n a := by
  by_cases hnulls : a.glue.checksNull = true ∧ a.glue.derefs = false ∨ ∀ p ∈ a.parms, p ≠ null
  · exact cellsMatch_iff_of_nulls hleft h hnulls
  · exact iff_of_false (not_cellsMatch_of_null hleft hnulls) fun hkept => hnulls hkept.nulls

end

/-! ## Runs -/

/-- From pointers that stand for native ones, in a run of calls the native functions see the pointers that are meant, and
what they leave and return is read as what it is, exactly when each call meets the condition. -/
theorem cellRun_matches_iff (hleft : Function.LeftInverse (translate W env false) (translate W env true))
    (h : CellsDenote W env s n) (as : List (CellAction D)) :
    RunMatches (cellGlueStep W env) (cellNativeStep W env) (CellsDenote W env) Eq s n as ↔
      Permits (cellNativeStep W env) (CellsKept W env) n as :=
  runMatches_iff (fun _ _ _ hst => cellsMatch_iff hleft hst) h as

def cellWamr : Wamr := .linear id fun _ => 0x1000

/-- A text is converted in two chunks, a number is read twice, once without its end, and an array and user data are
looked up. -/
def convertedAndRead : List (CellAction Unit) :=
  let chunk : CellNative Unit := fun ps d => (0, ps.map fun p => some (p + 4), d)
  [.iconv 0x100 0x200 chunk, .iconv 0x100 0x200 chunk, .strtod null fun _ d => (7, [], d),
    .strtod 0x300 fun _ d => (7, [some 0x1203], d), .getFixedArray 0x400 fun _ d => (0, [some 0x9000], d),
    .getObjectPathData 0x300 fun _ d => (1, [some 0x9100], d)]

theorem cellRun_convertedAndRead :
    RunMatches (cellGlueStep cellWamr null) (cellNativeStep cellWamr null) (CellsDenote cellWamr null) Eq
      ⟨fun _ => 0x10, ()⟩ ⟨fun _ => 0x1010, ()⟩ convertedAndRead := by
  have hstart : CellsDenote (D := Unit) cellWamr null ⟨fun _ => 0x10, ()⟩ ⟨fun _ => 0x1010, ()⟩ :=
    ⟨fun _ => (by decide : Denotes cellWamr null 0x10 0x1010), rfl⟩
  exact (cellRun_matches_iff (Wamr.linear_leftInverse _ _ null) hstart _).2 (by decide +kernel)

end VelaWasm.LibcBypass
