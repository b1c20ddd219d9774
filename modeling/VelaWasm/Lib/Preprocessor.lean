/-
Conditional compilation. A source is a list of lines, of which the directives open and close groups and define
macros; preprocessing keeps the code lines that stand in no skipped group. A guarded block compiles its code where its
condition holds and its macro is not yet defined, so of the blocks of one macro the first with a condition that holds.
-/
import VelaWasm.Lib.Run
import Mathlib.Data.List.Nodup

namespace VelaWasm.Cpp

open VelaWasm.Run

/-! ## Lines -/

/-- A line of a source with conditions `C`, macro names `N` and code `B`. -/
inductive Line (C N B : Type*) where
  | if_ (cond : C)
  | ifndef (name : N)
  | define (name : N)
  /-- `#endif`, with the condition or the macro that its comment names -/
  | endif (comment : C ⊕ N)
  | code (text : B)

/-- The macros defined, whether each open group is kept, the innermost first, and the code so far. -/
structure State (N B : Type*) where
  defs : List N
  groups : List Bool
  out : List B

variable {C N B : Type*} [DecidableEq N] (holds : C → Bool)

/-- No open group is skipped. -/
def State.kept (s : State N B) : Bool := s.groups.all id

def preprocessLine (s : State N B) : Line C N B → Option (State N B)
  | .if_ cond => some { s with groups := holds cond :: s.groups }
  | .ifndef name => some { s with groups := decide (name ∉ s.defs) :: s.groups }
  | .define name => some (if s.kept then { s with defs := name :: s.defs } else s)
  | .endif _ =>
    match s.groups with
    | [] => none
    | _ :: groups => some { s with groups }
  | .code text => some (if s.kept then { s with out := s.out ++ [text] } else s)

/-- The code that is compiled of a source, with the macros `defs` defined before it; none where an `#endif` has no
group or a group no `#endif`. -/
def preprocess (defs : List N) (lines : List (Line C N B)) : Option (List B) :=
  (exec (preprocessLine holds) ⟨defs, [], []⟩ lines).bind fun s => if s.groups = [] then some s.out else none

/-! ## Guarded blocks -/

/-- Code that is compiled once, under a condition if there is one. -/
structure Guarded (C N B : Type*) where
  cond : Option C
  name : N
  text : B

namespace Guarded

def block (g : Guarded C N B) : List (Line C N B) :=
  [.ifndef g.name, .define g.name, .code g.text, .endif (.inr g.name)]

def lines (g : Guarded C N B) : List (Line C N B) :=
  match g.cond with
  | none => g.block
  | some cond => .if_ cond :: g.block ++ [.endif (.inl cond)]

def enabled (g : Guarded C N B) : Bool := g.cond.all holds

end Guarded

/-- The blocks that are compiled: of each macro that is not defined before, the first that is enabled. -/
def taken (defs : List N) : List (Guarded C N B) → List (Guarded C N B)
  | [] => []
  | g :: gs =>
    if g.enabled holds = true ∧ g.name ∉ defs then g :: taken (g.name :: defs) gs else taken defs gs

/-! ## Preprocessing of blocks -/

variable {holds} {defs : List N} {g : Guarded C N B} {gs hs : List (Guarded C N B)}

/-- The state after a block whose group is not skipped. -/
def State.after (s : State N B) (taken : Bool) (g : Guarded C N B) : State N B :=
  if taken then { s with defs := g.name :: s.defs, out := s.out ++ [g.text] } else s

theorem exec_block (s : State N B) (g : Guarded C N B) :
    exec (preprocessLine holds) s g.block = some (s.after (s.kept && decide (g.name ∉ s.defs)) g) := by
  unfold State.after
  by_cases hd : g.name ∈ s.defs <;> cases hk : s.groups.all id <;>
    simp [Guarded.block, exec, preprocessLine, State.kept, hd, hk]

theorem exec_lines {s : State N B} (hs : s.kept = true) (g : Guarded C N B) :
    exec (preprocessLine holds) s g.lines = some (s.after (g.enabled holds && decide (g.name ∉ s.defs)) g) := by
  unfold Guarded.lines Guarded.enabled
  cases hc : g.cond with
  | none => simp [exec_block, hs]
  | some cond =>
    have hkept : ({ s with groups := holds cond :: s.groups } : State N B).kept = holds cond := by
      simp only [State.kept] at hs
      simp [State.kept, hs]
    simp only [List.cons_append, exec_cons, preprocessLine, Option.bind_some, exec_append, exec_block, hkept]
    unfold State.after
    cases hcond : holds cond <;> by_cases hd : g.name ∈ s.defs <;> simp [exec, hcond, hd]

/-- Preprocessing compiles the blocks that are taken. -/
theorem exec_blocks {s : State N B} (hs : s.kept = true) (gs : List (Guarded C N B)) :
    ∃ defs, exec (preprocessLine holds) s (gs.flatMap Guarded.lines) =
      some ⟨defs, s.groups, s.out ++ (taken holds s.defs gs).map Guarded.text⟩ := by
  induction gs generalizing s with
  | nil => exact ⟨s.defs, by simp [exec, taken]⟩
  | cons g gs ih =>
    rw [List.flatMap_cons, exec_append, exec_lines hs, Option.bind_some, taken]
    by_cases ht : g.enabled holds = true ∧ g.name ∉ s.defs
    · rw [if_pos ht]
      have hafter : s.after (g.enabled holds && decide (g.name ∉ s.defs)) g =
          ⟨g.name :: s.defs, s.groups, s.out ++ [g.text]⟩ := by simp [State.after, ht.1, ht.2]
      rw [hafter]
      obtain ⟨defs, h⟩ := ih (s := ⟨g.name :: s.defs, s.groups, s.out ++ [g.text]⟩) hs
      exact ⟨defs, by simp [h]⟩
    · rw [if_neg ht]
      have hafter : s.after (g.enabled holds && decide (g.name ∉ s.defs)) g = s := by
        rw [State.after, if_neg]
        simpa using ht
      rw [hafter]
      exact ih hs

theorem preprocess_blocks (defs : List N) (gs : List (Guarded C N B)) :
    preprocess holds defs (gs.flatMap Guarded.lines) = some ((taken holds defs gs).map Guarded.text) := by
  obtain ⟨defs', h⟩ := @exec_blocks _ _ _ _ holds ⟨defs, [], []⟩ rfl gs
  unfold preprocess
  rw [h]
  simp

/-! ## The blocks that are taken -/

theorem taken_sublist (holds : C → Bool) (defs : List N) (gs : List (Guarded C N B)) : (taken holds defs gs).Sublist gs := by
  induction gs generalizing defs with
  | nil => exact List.Sublist.refl _
  | cons g gs ih =>
    unfold taken
    split_ifs
    · exact (ih _).cons_cons g
    · exact (ih _).cons g

/-- Only the macros of the blocks matter. -/
theorem taken_congr {defs' : List N} (h : ∀ g ∈ gs, g.name ∈ defs ↔ g.name ∈ defs') :
    taken holds defs gs = taken holds defs' gs := by
  induction gs generalizing defs defs' with
  | nil => rfl
  | cons g gs ih =>
    rw [List.forall_mem_cons] at h
    simp only [taken, h.1]
    split_ifs
    · exact congrArg (g :: ·) (ih fun g' hg' => by simp [h.2 g' hg'])
    · exact ih h.2

theorem taken_append (defs : List N) (gs hs : List (Guarded C N B)) :
    taken holds defs (gs ++ hs) =
      taken holds defs gs ++ taken holds ((taken holds defs gs).map Guarded.name ++ defs) hs := by
  induction gs generalizing defs with
  | nil => rfl
  | cons g gs ih =>
    rw [List.cons_append, taken, taken]
    split_ifs
    · rw [ih, List.cons_append]
      refine congrArg (fun l => g :: (_ ++ l)) (taken_congr fun g' _ => ?_)
      simp [or_left_comm]
    · exact ih defs

/-- Blocks of other macros do not matter. -/
theorem taken_filter (P : N → Bool) (defs : List N) (gs : List (Guarded C N B)) :
    (taken holds defs gs).filter (fun g => P g.name) = taken holds defs (gs.filter fun g => P g.name) := by
  induction gs generalizing defs with
  | nil => rfl
  | cons g gs ih =>
    rw [taken, List.filter_cons]
    cases hP : P g.name with
    | true =>
      rw [if_pos rfl, taken]
      split_ifs
      · rw [List.filter_cons, hP, if_pos rfl, ih]
      · exact ih defs
    | false =>
      rw [if_neg Bool.false_ne_true]
      split_ifs
      · rw [List.filter_cons, hP, if_neg Bool.false_ne_true, ih]
        refine taken_congr fun g' hg' => ?_
        have hne : g'.name ≠ g.name := fun he => by
          have := (List.mem_filter.1 hg').2
          rw [he, hP] at this
          cases this
        simp [hne]
      · exact ih defs

theorem notMem_defs_of_taken (h : g ∈ taken holds defs gs) : g.name ∉ defs := by
  induction gs generalizing defs with
  | nil => cases h
  | cons g' gs ih =>
    unfold taken at h
    split_ifs at h with ht
    · rcases List.mem_cons.1 h with rfl | h
      · exact ht.2
      · exact fun hmem => ih h (List.mem_cons_of_mem _ hmem)
    · exact ih h

/-- No macro is taken twice. -/
theorem nodup_taken (holds : C → Bool) (defs : List N) (gs : List (Guarded C N B)) : ((taken holds defs gs).map Guarded.name).Nodup := by
  induction gs generalizing defs with
  | nil => exact List.nodup_nil
  | cons g gs ih =>
    unfold taken
    split_ifs
    · refine List.nodup_cons.2 ⟨fun hmem => ?_, ih _⟩
      obtain ⟨g', hg', he⟩ := List.mem_map.1 hmem
      exact notMem_defs_of_taken hg' (he ▸ List.mem_cons_self)
    · exact ih defs

/-- Of the blocks of a macro that is not defined before, the first that is enabled is taken. -/
theorem find?_taken (holds : C → Bool) {name : N} (hd : name ∉ defs) (gs : List (Guarded C N B)) :
    (taken holds defs gs).find? (fun g => decide (g.name = name)) =
      gs.find? fun g => g.enabled holds && decide (g.name = name) := by
  induction gs generalizing defs with
  | nil => rfl
  | cons g gs ih =>
    rw [taken, List.find?_cons]
    by_cases hname : g.name = name
    · subst hname
      cases he : g.enabled holds with
      | true => simp [hd]
      | false => simpa using ih hd
    · split_ifs
      · rw [List.find?_cons]
        simp only [hname, decide_false, Bool.and_false]
        exact ih (by simp [Ne.symm hname, hd])
      · simp only [hname, decide_false, Bool.and_false]
        exact ih hd

theorem enabled_of_taken (h : g ∈ taken holds defs gs) : g.enabled holds = true := by
  induction gs generalizing defs with
  | nil => cases h
  | cons g' gs ih =>
    unfold taken at h
    split_ifs at h with ht
    · rcases List.mem_cons.1 h with rfl | h
      · exact ht.1
      · exact ih h
    · exact ih h

/-- All blocks are taken when they are enabled and their macros distinct. -/
theorem taken_eq_self_iff (holds : C → Bool) (gs : List (Guarded C N B)) :
    taken holds [] gs = gs ↔ (∀ g ∈ gs, g.enabled holds = true) ∧ (gs.map Guarded.name).Nodup := by
  constructor
  · intro h
    rw [← h]
    exact ⟨fun g hg => enabled_of_taken hg, nodup_taken holds [] gs⟩
  · rintro ⟨henabled, hnodup⟩
    have hall : ∀ defs : List N, (∀ g ∈ gs, g.name ∉ defs) → taken holds defs gs = gs := by
      induction gs with
      | nil => exact fun _ _ => rfl
      | cons g gs ih =>
        intro defs hd
        rw [List.forall_mem_cons] at henabled hd
        obtain ⟨hnew, hnodup⟩ := List.nodup_cons.1 hnodup
        rw [taken, if_pos ⟨henabled.1, hd.1⟩]
        refine congrArg (g :: ·) (ih henabled.2 hnodup _ fun g' hg' => ?_)
        rw [List.mem_cons, not_or]
        exact ⟨fun he => hnew (he ▸ List.mem_map_of_mem hg'), hd.2 g' hg'⟩
    exact hall [] fun _ _ => List.not_mem_nil

/-- Macros that are defined before leave out their blocks and no others. -/
theorem taken_defs_append (holds : C → Bool) (defs defs' : List N) (gs : List (Guarded C N B)) :
    taken holds (defs ++ defs') gs = (taken holds defs' gs).filter fun g => decide (g.name ∉ defs) := by
  induction gs generalizing defs' with
  | nil => rfl
  | cons g gs ih =>
    rw [taken, taken]
    by_cases ht : g.enabled holds = true ∧ g.name ∉ defs'
    · rw [if_pos ht, List.filter_cons, ← ih]
      by_cases hd : g.name ∈ defs
      · rw [if_neg (by simp [hd]), if_neg (by simp [hd])]
        refine taken_congr fun g' _ => ?_
        simp only [List.mem_append, List.mem_cons]
        have hname : g'.name = g.name → g'.name ∈ defs := fun he => he ▸ hd
        tauto
      · rw [if_pos (by simp [ht.1, ht.2, hd]), if_pos (by simp [hd])]
        exact congrArg (g :: ·) (taken_congr fun g' _ => by simp [or_left_comm])
    · rw [if_neg ht, if_neg (by simp only [List.mem_append]; tauto)]
      exact ih defs'

/-- Two families of blocks with the same conditions, whose macros tell the same members apart, are taken alike. -/
theorem taken_map {X : Type*} {f f' : X → Guarded C N B} (hcond : ∀ x, (f x).cond = (f' x).cond)
    (hname : ∀ x y, (f x).name = (f y).name ↔ (f' x).name = (f' y).name) (ds xs : List X) :
    ∃ ys : List X, taken holds (ds.map fun x => (f x).name) (xs.map f) = ys.map f ∧
      taken holds (ds.map fun x => (f' x).name) (xs.map f') = ys.map f' := by
  induction xs generalizing ds with
  | nil => exact ⟨[], rfl, rfl⟩
  | cons x xs ih =>
    have henabled : (f x).enabled holds = (f' x).enabled holds := by rw [Guarded.enabled, Guarded.enabled, hcond]
    have hmem : (f x).name ∈ ds.map (fun x => (f x).name) ↔ (f' x).name ∈ ds.map fun x => (f' x).name := by
      simp only [List.mem_map, hname]
    rw [List.map_cons, List.map_cons, taken, taken]
    by_cases ht : (f x).enabled holds = true ∧ (f x).name ∉ ds.map fun x => (f x).name
    · rw [if_pos ht, if_pos ⟨henabled ▸ ht.1, fun hm => ht.2 (hmem.2 hm)⟩]
      obtain ⟨ys, h, h'⟩ := ih (x :: ds)
      exact ⟨x :: ys, congrArg (f x :: ·) h, congrArg (f' x :: ·) h'⟩
    · rw [if_neg ht, if_neg fun ht' => ht ⟨henabled ▸ ht'.1, fun hm => ht'.2 (hmem.1 hm)⟩]
      exact ih ds

end VelaWasm.Cpp
