/-
The two directions of `dbus_message_args_conv` over lists of strings, numbers and array groups. What a
walk does is the list of the words it translates: on the way back it has to be the same list, in any order.
In the array branch the pointer that has just been translated is translated once more before its elements
are, so the elements are others than those on the way back.
-/
import VelaWasm.Dbus.Args
import VelaWasm.Lib.InPlace
import Mathlib.Data.Bool.AllAny

namespace VelaWasm.Dbus

open VelaWasm.InPlace

/-! ## Lists with array groups -/

/-- An argument after its tag: a string or a number of one of the walker's classes, or the words of an
array group, of which the count is the element count or a pointer to it. -/
inductive Arg where
  | value (type : BasicType) (classified : type ∉ unclassified) (p : Addr)
  | array (elementType : UInt32) (p : Addr) (count : UInt32)

def Arg.code : Arg → UInt32
  | value type .. => type.code
  | array .. => dbusTypeArray

/-- The next argument's tag. -/
def nextTag : List Arg → UInt32
  | [] => dbusTypeInvalid
  | a :: _ => a.code

/-- The argument pointers. -/
def Arg.pointer : Arg → Addr
  | value _ _ p => p
  | array _ p _ => p

/-- The length of its words; the next tag stands behind them. -/
def Arg.width : Arg → UInt32
  | value .. => 4
  | array .. => 12

/-- Where its words stand. -/
def Arg.area (pos : Addr) : Arg → List Addr
  | value .. => [pos]
  | array .. => [pos, pos + 4, pos + 8]

/-- The words of a list after its first tag. -/
def listArea : Addr → List Arg → List Addr
  | _, [] => []
  | pos, a :: args => a.area pos ++ (pos + a.width) :: listArea (pos + a.width + 4) args

section

variable (W : Wamr) (env : Addr)

/-- The native address of an app address. -/
def toNativeAddr (p : Addr) : Addr := W.addrAppToNative (W.getModuleInst env) p

/-- The words of an argument stand at `pos`, with app addresses or, after the first walk, with native
ones. -/
def Arg.HeldAt (native : Bool) (m : Mem) (pos : Addr) : Arg → Prop
  | value _ _ p => m pos = if native then toNativeAddr W env p else p
  | array type p n => m pos = type ∧ (m (pos + 4) = if native then toNativeAddr W env p else p) ∧
    m (pos + 8) = if native then toNativeAddr W env n else n

/-- The area from `pos` on holds the list. -/
def Held (native : Bool) (m : Mem) : Addr → List Arg → Prop
  | _, [] => True
  | pos, a :: args => a.HeldAt W env native m pos ∧ m (pos + a.width) = nextTag args ∧
    Held native m (pos + a.width + 4) args

/-- The first `n` words of an array. -/
def elements (array : Addr) (n : ℕ) : List Addr := (List.range' 0 n).map fun i => array + 4 * UInt32.ofNat i

/-- The values that an argument leads to: a string's, or the elements of an array that the walker
translates. -/
def Arg.pointees : Arg → List Addr
  | value type _ p => if dbusMessageArgTypeIsString type.code then [toNativeAddr W env p] else []
  | array _ p n => elements (toNativeAddr W env p) (loopCount (toNativeAddr W env n))

/-- The words of an argument's translation, each pointer translated once, in the order of the walker: on
the way back a string's value comes first. -/
def Arg.order (toNative : Bool) (pos : Addr) : Arg → List Addr
  | a@(value ..) => if toNative then pos :: a.pointees W env else a.pointees W env ++ [pos]
  | a@(array ..) => (pos + 4) :: (pos + 8) :: a.pointees W env

/-- The words that the translation of a list translates. -/
def order (toNative : Bool) : Addr → List Arg → List Addr
  | _, [] => []
  | pos, a :: args => a.order W env toNative pos ++ order toNative (pos + a.width + 4) args

/-- The element loop of an array group is not entered, or a second translation of its pointer leaves it
as it is. -/
def Arg.Settled : Arg → Prop
  | value .. => True
  | array _ p n =>
    loopCount (toNativeAddr W env n) = 0 ∨ toNativeAddr W env (toNativeAddr W env p) = toNativeAddr W env p

instance (native : Bool) (m : Mem) (pos : Addr) : DecidablePred (Arg.HeldAt W env native m pos)
  | .value .. => inferInstanceAs (Decidable (_ = _))
  | .array .. => inferInstanceAs (Decidable (_ ∧ _ ∧ _))

instance heldDecidable (native : Bool) (m : Mem) : ∀ pos args, Decidable (Held W env native m pos args)
  | _, [] => isTrue trivial
  | pos, a :: args =>
    have := heldDecidable native m (pos + a.width + 4) args
    inferInstanceAs (Decidable (_ ∧ _ ∧ _))

instance : DecidablePred (Arg.Settled W env)
  | .value .. => isTrue trivial
  | .array .. => inferInstanceAs (Decidable (_ ∨ _))

/-- The words of the area are distinct, and what the arguments lead to is outside of it. -/
structure AreaApart (ap : Addr) (args : List Arg) : Prop where
  distinct : (listArea ap args).Nodup
  apart : ∀ a ∈ args, a.Settled W env → ∀ q ∈ a.pointees W env, q ∉ listArea ap args

end

/-- The word that a translation is of. -/
def ArgEvent.addr? : ArgEvent → Option Addr
  | tag .. => none
  | slot pos => some pos
  | pointee p => some p

/-- Both walks stop; the first translates each argument pointer once, and the values at the addresses that
the pointers have then; the second leaves every word as it was. -/
def RoundTrip (W : Wamr) (env : Addr) (m : Mem) (ap : Addr) (args : List Arg) : Prop :=
  ∃ fuel r fuel' r', dbusMessageArgsConv W env true fuel (nextTag args) ap m = some r ∧
    dbusMessageArgsConv W env false fuel' (nextTag args) ap r.1 = some r' ∧
    r.2.filterMap ArgEvent.addr? = order W env true ap args ∧ r'.1 = m

/-! ## Translations in place -/

variable {W : Wamr} {env : Addr} {toNative : Bool} {m : Mem} {pos : Addr}

theorem arrayConv_eq (array : Addr) (n i : ℕ) (m : Mem) :
    (arrayConv W env toNative array n i m).2.filterMap ArgEvent.addr? =
        (List.range' i n).map (fun i => array + 4 * UInt32.ofNat i) ∧
      (arrayConv W env toNative array n i m).1 = applyAll (translate W env toNative)
        ((List.range' i n).map fun i => array + 4 * UInt32.ofNat i) m := by
  induction n generalizing i m with
  | zero => exact ⟨rfl, rfl⟩
  | succ n ih =>
    obtain ⟨hevs, hm⟩ := ih (i + 1) (translateAt W env toNative (array + 4 * UInt32.ofNat i) m)
    constructor
    · simp only [arrayConv, List.filterMap_cons, ArgEvent.addr?, hevs, List.range'_succ, List.map_cons]
    · simp only [arrayConv, hm, List.range'_succ, List.map_cons, applyAll_cons]
      rfl

/-- A pass changes memory by the translations it makes. -/
theorem argConv_mem (type : UInt32) : (argConv W env toNative type pos m).1 =
    applyAll (translate W env toNative) ((argConv W env toNative type pos m).2.2.filterMap ArgEvent.addr?) m := by
  unfold argConv
  split_ifs with hstr hd harr hd hnum
  · subst hd
    rfl
  · simp only [Bool.not_eq_true] at hd
    subst hd
    rfl
  · subst hd
    simp only [List.filterMap_cons, ArgEvent.addr?, (arrayConv_eq _ _ _ _).1, (arrayConv_eq _ _ _ _).2]
    rfl
  · simp only [Bool.not_eq_true] at hd
    subst hd
    simp only [List.filterMap_cons, ArgEvent.addr?, (arrayConv_eq _ _ _ _).1, (arrayConv_eq _ _ _ _).2]
    rfl
  · rfl
  · rfl

theorem dbusMessageArgsConv_invalid (fuel : ℕ) :
    dbusMessageArgsConv W env toNative fuel dbusTypeInvalid pos m = some (m, []) := by
  unfold dbusMessageArgsConv
  rfl

/-- A walk goes on at the tag behind the argument. -/
theorem dbusMessageArgsConv_step {type : UInt32} (h : (type == dbusTypeInvalid) = false) (fuel : ℕ) {m' : Mem}
    {pos' : Addr} {evs : List ArgEvent} (hconv : argConv W env toNative type pos m = (m', pos', evs)) :
    dbusMessageArgsConv W env toNative (fuel + 1) type pos m =
      (dbusMessageArgsConv W env toNative fuel (m' pos') (pos' + 4) m').map fun r =>
        (r.1, evs ++ .tag pos' (m' pos') :: r.2) := by
  rw [dbusMessageArgsConv, h]
  simp only [hconv]
  rfl

theorem dbusMessageArgsConv_zero {type : UInt32} (h : (type == dbusTypeInvalid) = false) :
    dbusMessageArgsConv W env toNative 0 type pos m = none := by
  rw [dbusMessageArgsConv, h]
  rfl

/-- A walk that stops is at the end of the list, or goes on behind an argument with a pass less. -/
theorem dbusMessageArgsConv_cases {fuel : ℕ} {type : UInt32} {r : Mem × List ArgEvent}
    (h : dbusMessageArgsConv W env toNative fuel type pos m = some r) :
    (type = dbusTypeInvalid ∧ r = (m, [])) ∨
      ∃ fuel' m' pos' evs u, fuel = fuel' + 1 ∧ (type == dbusTypeInvalid) = false ∧
        argConv W env toNative type pos m = (m', pos', evs) ∧
        dbusMessageArgsConv W env toNative fuel' (m' pos') (pos' + 4) m' = some u ∧
        r = (u.1, evs ++ .tag pos' (m' pos') :: u.2) := by
  cases ht : type == dbusTypeInvalid with
  | true =>
    have htype := eq_of_beq ht
    rw [htype, dbusMessageArgsConv_invalid] at h
    exact .inl ⟨htype, (Option.some_inj.1 h).symm⟩
  | false =>
    cases fuel with
    | zero =>
      rw [dbusMessageArgsConv_zero ht] at h
      cases h
    | succ fuel =>
      rcases hconv : argConv W env toNative type pos m with ⟨m', pos', evs⟩
      rw [dbusMessageArgsConv_step ht fuel hconv] at h
      obtain ⟨u, hu, rfl⟩ := Option.map_eq_some_iff.1 h
      exact .inr ⟨fuel, m', pos', evs, u, rfl, rfl, rfl, hu, rfl⟩

theorem dbusMessageArgsConv_mem {fuel : ℕ} {type : UInt32} {r : Mem × List ArgEvent}
    (h : dbusMessageArgsConv W env toNative fuel type pos m = some r) :
    r.1 = applyAll (translate W env toNative) (r.2.filterMap ArgEvent.addr?) m := by
  induction fuel generalizing type pos m r with
  | zero =>
    obtain ⟨-, rfl⟩ | ⟨_, _, _, _, _, hfuel, -⟩ := dbusMessageArgsConv_cases h
    · rfl
    · cases hfuel
  | succ fuel ih =>
    obtain ⟨-, rfl⟩ | ⟨_, m', pos', evs, u, hfuel, -, hconv, hu, rfl⟩ := dbusMessageArgsConv_cases h
    · rfl
    · cases hfuel
      have hm : (argConv W env toNative type pos m).1 = _ := argConv_mem type
      rw [hconv] at hm
      simp only [List.filterMap_append, List.filterMap_cons, ArgEvent.addr?, applyAll_append]
      rw [ih hu]
      exact congrArg _ hm

/-! ## One argument -/

theorem Arg.code_ne_invalid (a : Arg) : (a.code == dbusTypeInvalid) = false := by
  cases a with
  | value type _ _ => exact Dbus.code_ne_invalid type
  | array _ _ _ => rfl

/-- The array branch on the way to native, which goes through the pointer translated twice. -/
theorem argConv_array_native {type p n : UInt32} (h : (Arg.array type p n).HeldAt W env false m pos) :
    ∃ m' evs, argConv W env true dbusTypeArray pos m = (m', pos + 12, evs) ∧ evs.filterMap ArgEvent.addr? =
      (pos + 4) :: (pos + 8) ::
        elements (toNativeAddr W env (toNativeAddr W env p)) (loopCount (toNativeAddr W env n)) := by
  obtain ⟨-, hp, hn⟩ := h
  simp only [Bool.false_eq_true, if_false] at hp hn
  have hne : pos + 8 ≠ pos + 4 := by grind
  have hp' : translateAt W env true (pos + 4) m (pos + 4) = toNativeAddr W env p :=
    (Function.update_self _ _ _).trans (congrArg _ hp)
  have hn' : translateAt W env true (pos + 8) (translateAt W env true (pos + 4) m) (pos + 8) =
      toNativeAddr W env n := by
    refine (Function.update_self _ _ _).trans (congrArg _ ?_)
    rw [translateAt_of_ne hne, hn]
  refine ⟨_, _, rfl, ?_⟩
  simp only [List.filterMap_cons, ArgEvent.addr?, (arrayConv_eq _ _ _ _).1, hp', hn']
  rfl

theorem argConv_array_app {type p n : UInt32} (h : (Arg.array type p n).HeldAt W env true m pos) :
    ∃ m' evs, argConv W env false dbusTypeArray pos m = (m', pos + 12, evs) ∧ evs.filterMap ArgEvent.addr? =
      (pos + 4) :: (pos + 8) :: elements (toNativeAddr W env p) (loopCount (toNativeAddr W env n)) := by
  obtain ⟨-, hp, hn⟩ := h
  simp only [if_true] at hp hn
  have hne : pos + 8 ≠ pos + 4 := by grind
  have hn' : translateAt W env false (pos + 4) m (pos + 8) = toNativeAddr W env n := by
    rw [translateAt_of_ne hne, hn]
  refine ⟨_, _, rfl, ?_⟩
  simp only [List.filterMap_cons, ArgEvent.addr?, (arrayConv_eq _ _ _ _).1, hp, hn']
  rfl

theorem argConv_value (toNative : Bool) {type : BasicType} (hc : type ∉ unclassified) {p : Addr}
    (h : (Arg.value type hc p).HeldAt W env (!toNative) m pos) :
    ∃ m' evs, argConv W env toNative type.code pos m = (m', pos + 4, evs) ∧
      evs.filterMap ArgEvent.addr? = (Arg.value type hc p).order W env toNative pos := by
  unfold argConv
  rw [code_ne_array]
  cases hs : dbusMessageArgTypeIsString type.code with
  | true =>
    cases toNative with
    | true =>
      have hp : translateAt W env true pos m pos = toNativeAddr W env p :=
        (Function.update_self _ _ _).trans (congrArg _ h)
      refine ⟨_, _, rfl, ?_⟩
      simp only [List.filterMap_cons, List.filterMap_nil, ArgEvent.addr?, hp, Arg.order, Arg.pointees, hs, if_true]
    | false =>
      have hp : m pos = toNativeAddr W env p := h
      refine ⟨_, _, rfl, ?_⟩
      simp [List.filterMap_nil, ArgEvent.addr?, hp, Arg.order, Arg.pointees, hs]
  | false =>
    have hn : dbusMessageArgTypeIsNumber type.code = true := by
      rcases (class_iff type).1 hc with h | h
      · rw [hs] at h
        cases h
      · exact h
    rw [hn]
    refine ⟨_, _, rfl, ?_⟩
    simp [ArgEvent.addr?, Arg.order, Arg.pointees, hs]

/-- A pass over an argument translates each of its pointers once, if a second translation does no harm. -/
theorem argConv_order {a : Arg} (ha : a.Settled W env) (h : a.HeldAt W env (!toNative) m pos) :
    ∃ m' evs, argConv W env toNative a.code pos m = (m', pos + a.width, evs) ∧
      evs.filterMap ArgEvent.addr? = a.order W env toNative pos := by
  cases a with
  | value type hc p => exact argConv_value toNative hc h
  | array type p n =>
    cases toNative with
    | false => exact argConv_array_app h
    | true =>
      obtain ⟨m', evs, hconv, hevs⟩ := argConv_array_native h
      refine ⟨m', evs, hconv, hevs.trans ?_⟩
      rcases ha with hzero | hsame
      · simp only [Arg.order, Arg.pointees, hzero, elements]
        rfl
      · simp only [Arg.order, Arg.pointees, hsame]

/-! ## The area -/

variable {a : Arg} {args : List Arg} {native : Bool} {m' : Mem}

theorem held_congr (h : ∀ q ∈ listArea pos args, m' q = m q) (hm : Held W env native m pos args) :
    Held W env native m' pos args := by
  induction args generalizing pos with
  | nil => trivial
  | cons a args ih =>
    obtain ⟨ha, ht, hl⟩ := hm
    simp only [listArea, List.forall_mem_append, List.forall_mem_cons] at h
    refine ⟨?_, h.2.1.trans ht, ih h.2.2 hl⟩
    cases a with
    | value _ _ _ => exact (h.1 pos (by simp [Arg.area])).trans ha
    | array _ _ _ =>
      exact ⟨(h.1 pos (by simp [Arg.area])).trans ha.1, (h.1 (pos + 4) (by simp [Arg.area])).trans ha.2.1,
        (h.1 (pos + 8) (by simp [Arg.area])).trans ha.2.2⟩

theorem AreaApart.tail (h : AreaApart W env pos (a :: args)) : AreaApart W env (pos + a.width + 4) args := by
  have hd : (a.area pos ++ (pos + a.width) :: listArea (pos + a.width + 4) args).Nodup := h.distinct
  refine ⟨(List.nodup_cons.1 (List.nodup_append.1 hd).2.1).2, fun b hb hs q hq hmem => ?_⟩
  refine h.apart b (List.mem_cons_of_mem _ hb) hs q hq ?_
  rw [listArea]
  exact List.mem_append_right _ (List.mem_cons_of_mem _ hmem)

/-- What a pass translates is in the words of its argument or outside of the area. -/
theorem Arg.mem_order {q : Addr} (h : q ∈ a.order W env toNative pos) : q ∈ a.area pos ∨ q ∈ a.pointees W env := by
  cases a with
  | value _ _ _ =>
    cases toNative with
    | true => exact (List.mem_cons.1 h).imp (fun hq => List.mem_singleton.2 hq) id
    | false => exact (List.mem_append.1 h).symm
  | array _ _ _ =>
    rcases List.mem_cons.1 h with rfl | h
    · exact .inl (by simp [Arg.area])
    · rcases List.mem_cons.1 h with rfl | h
      · exact .inl (by simp [Arg.area])
      · exact .inr h

/-- A pass leaves the tag behind its argument and the rest of the area as they are. -/
theorem AreaApart.notMem_order (h : AreaApart W env pos (a :: args)) (ha : a.Settled W env) {q : Addr}
    (hq : q = pos + a.width ∨ q ∈ listArea (pos + a.width + 4) args) : q ∉ a.order W env toNative pos := by
  have hd : (a.area pos ++ (pos + a.width) :: listArea (pos + a.width + 4) args).Nodup := h.distinct
  have hrest : q ∈ (pos + a.width) :: listArea (pos + a.width + 4) args := List.mem_cons.2 hq
  intro hmem
  rcases Arg.mem_order hmem with hmem | hmem
  · exact (List.nodup_append.1 hd).2.2 q hmem q hrest rfl
  · exact h.apart a List.mem_cons_self ha q hmem (List.mem_append_right _ hrest)

theorem mem_order {q : Addr} (h : q ∈ order W env toNative pos args) :
    q ∈ listArea pos args ∨ ∃ a ∈ args, q ∈ a.pointees W env := by
  induction args generalizing pos with
  | nil => cases h
  | cons a args ih =>
    rcases List.mem_append.1 h with h | h
    · rcases Arg.mem_order h with h | h
      · exact .inl (List.mem_append_left _ h)
      · exact .inr ⟨a, List.mem_cons_self, h⟩
    · rcases ih h with h | ⟨b, hb, h⟩
      · exact .inl (List.mem_append_right _ (List.mem_cons_of_mem _ h))
      · exact .inr ⟨b, List.mem_cons_of_mem _ hb, h⟩

/-- The rest of a walk leaves the words of the first argument and the tag behind it as they are. -/
theorem AreaApart.notMem_rest (h : AreaApart W env pos (a :: args)) (hs : ∀ b ∈ args, b.Settled W env) {q : Addr}
    (hq : q ∈ a.area pos ∨ q = pos + a.width) : q ∉ order W env toNative (pos + a.width + 4) args := by
  have hd : (a.area pos ++ (pos + a.width) :: listArea (pos + a.width + 4) args).Nodup := h.distinct
  have hall : q ∈ listArea pos (a :: args) := by
    rcases hq with hq | rfl
    · exact List.mem_append_left _ hq
    · exact List.mem_append_right _ List.mem_cons_self
  intro hmem
  rcases mem_order hmem with hmem | ⟨b, hb, hmem⟩
  · rcases hq with hq | rfl
    · exact (List.nodup_append.1 hd).2.2 q hq q (List.mem_cons_of_mem _ hmem) rfl
    · exact (List.nodup_cons.1 (List.nodup_append.1 hd).2.1).1 hmem
  · exact h.apart b (List.mem_cons_of_mem _ hb) (hs b hb) q hmem hall

/-! ## A walk over the list -/

theorem argsConv_order (toNative : Bool) (hm : Held W env (!toNative) m pos args) (h : AreaApart W env pos args)
    (hs : ∀ a ∈ args, a.Settled W env) :
    ∃ fuel r, dbusMessageArgsConv W env toNative fuel (nextTag args) pos m = some r ∧
      r.2.filterMap ArgEvent.addr? = order W env toNative pos args := by
  induction args generalizing pos m with
  | nil => exact ⟨0, (m, []), dbusMessageArgsConv_invalid 0, rfl⟩
  | cons a args ih =>
    obtain ⟨ha, ht, hl⟩ := hm
    have hsa := hs a List.mem_cons_self
    have hmem : (argConv W env toNative a.code pos m).1 = _ := argConv_mem a.code
    obtain ⟨m', evs, hconv, hevs⟩ := argConv_order hsa ha
    rw [hconv] at hmem
    simp only [hevs] at hmem
    have hkeep : ∀ q, q = pos + a.width ∨ q ∈ listArea (pos + a.width + 4) args → m' q = m q := by
      intro q hq
      rw [hmem, applyAll_of_notMem (h.notMem_order hsa hq)]
    obtain ⟨fuel, r, hr, horder⟩ := ih (held_congr (fun q hq => hkeep q (.inr hq)) hl) h.tail
      fun b hb => hs b (List.mem_cons_of_mem _ hb)
    refine ⟨fuel + 1, (r.1, evs ++ .tag (pos + a.width) (m' (pos + a.width)) :: r.2), ?_, ?_⟩
    · rw [nextTag, dbusMessageArgsConv_step a.code_ne_invalid fuel hconv, hkeep _ (.inl rfl), ht, hr]
      rfl
    · simp only [List.filterMap_append, List.filterMap_cons, ArgEvent.addr?, hevs, horder]
      rfl

/-- The words of an argument after its pass. -/
theorem heldAt_native (ha : a.HeldAt W env false m pos) (hout : ∀ q ∈ a.pointees W env, q ∉ a.area pos) :
    a.HeldAt W env true (applyAll (translate W env true) (a.order W env true pos) m) pos := by
  cases a with
  | value type hc p =>
    have hnot : pos ∉ (Arg.value type hc p).pointees W env := fun h => hout pos h (List.mem_singleton_self pos)
    show applyAll (translate W env true) (pos :: (Arg.value type hc p).pointees W env) m pos = toNativeAddr W env p
    rw [applyAll_cons, applyAll_of_notMem hnot, Function.update_self]
    exact congrArg _ ha
  | array type p n =>
    obtain ⟨ht, hp, hn⟩ := ha
    have hnot : ∀ q ∈ (Arg.array type p n).area pos, q ∉ (Arg.array type p n).pointees W env :=
      fun q hq h => hout q h hq
    simp only [Arg.area, List.forall_mem_cons] at hnot
    have h4 : pos ≠ pos + 4 := by grind
    have h8 : pos ≠ pos + 8 := by grind
    have h48 : pos + 4 ≠ pos + 8 := by grind
    simp only [Arg.HeldAt, Arg.order, applyAll_cons]
    refine ⟨?_, ?_, ?_⟩
    · rw [applyAll_of_notMem hnot.1, Function.update_of_ne h8, Function.update_of_ne h4, ht]
    · rw [applyAll_of_notMem hnot.2.1, Function.update_of_ne h48, Function.update_self]
      exact congrArg _ hp
    · rw [applyAll_of_notMem hnot.2.2.1, Function.update_self, Function.update_of_ne (Ne.symm h48)]
      exact congrArg _ hn

/-- After the first walk the area holds the list with native addresses. -/
theorem held_native (hm : Held W env false m pos args) (h : AreaApart W env pos args)
    (hs : ∀ a ∈ args, a.Settled W env) :
    Held W env true (applyAll (translate W env true) (order W env true pos args) m) pos args := by
  induction args generalizing pos m with
  | nil => trivial
  | cons a args ih =>
    obtain ⟨ha, ht, hl⟩ := hm
    have hsa := hs a List.mem_cons_self
    have hsr : ∀ b ∈ args, b.Settled W env := fun b hb => hs b (List.mem_cons_of_mem _ hb)
    let m₁ := applyAll (translate W env true) (a.order W env true pos) m
    have hkeep : ∀ q, q = pos + a.width ∨ q ∈ listArea (pos + a.width + 4) args → m₁ q = m q :=
      fun q hq => applyAll_of_notMem (h.notMem_order hsa hq)
    have hfirst : ∀ q, q ∈ a.area pos ∨ q = pos + a.width →
        applyAll (translate W env true) (order W env true (pos + a.width + 4) args) m₁ q = m₁ q :=
      fun q hq => applyAll_of_notMem (h.notMem_rest hsr hq)
    have hout : ∀ q ∈ a.pointees W env, q ∉ a.area pos := fun q hq hmem =>
      h.apart a List.mem_cons_self hsa q hq (List.mem_append_left _ hmem)
    have ha₁ : a.HeldAt W env true m₁ pos := heldAt_native ha hout
    rw [order, applyAll_append]
    refine ⟨?_, ?_, ih (held_congr (fun q hq => hkeep q (.inr hq)) hl) h.tail hsr⟩
    · cases a with
      | value _ _ _ => exact (hfirst pos (.inl (by simp [Arg.area]))).trans ha₁
      | array _ _ _ =>
        exact ⟨(hfirst pos (.inl (by simp [Arg.area]))).trans ha₁.1,
          (hfirst (pos + 4) (.inl (by simp [Arg.area]))).trans ha₁.2.1,
          (hfirst (pos + 8) (.inl (by simp [Arg.area]))).trans ha₁.2.2⟩
    · exact (hfirst _ (.inr rfl)).trans ((hkeep _ (.inl rfl)).trans ht)

/-- The way back translates the same words. -/
theorem order_perm (pos : Addr) (args : List Arg) : (order W env true pos args).Perm (order W env false pos args) := by
  induction args generalizing pos with
  | nil => exact .nil
  | cons a args ih =>
    refine List.Perm.append ?_ (ih _)
    cases a with
    | value _ _ _ => exact (List.perm_append_singleton pos _).symm
    | array _ _ _ => exact .refl _

/-! ## Round trips -/

theorem roundTrip_of_settled (hinv : Function.LeftInverse (translate W env false) (translate W env true))
    (hm : Held W env false m pos args) (h : AreaApart W env pos args) (hs : ∀ a ∈ args, a.Settled W env) :
    RoundTrip W env m pos args := by
  obtain ⟨fuel, r, hr, horder⟩ := argsConv_order true hm h hs
  have hmem : r.1 = applyAll (translate W env true) (order W env true pos args) m := by
    rw [dbusMessageArgsConv_mem hr, horder]
  have hnative : Held W env true r.1 pos args := hmem ▸ held_native hm h hs
  obtain ⟨fuel', r', hr', horder'⟩ := argsConv_order false hnative h hs
  refine ⟨fuel, r, fuel', r', hr, hr', horder, ?_⟩
  rw [dbusMessageArgsConv_mem hr', horder', hmem]
  exact applyAll_undo hinv (order_perm pos args)

/-- A walk that translates each pointer once enters no element loop through a pointer translated twice. -/
theorem settled_of_order {fuel : ℕ} {r : Mem × List ArgEvent} (hm : Held W env false m pos args)
    (h : AreaApart W env pos args) (hr : dbusMessageArgsConv W env true fuel (nextTag args) pos m = some r)
    (horder : r.2.filterMap ArgEvent.addr? = order W env true pos args) : ∀ a ∈ args, a.Settled W env := by
  induction args generalizing pos m fuel r with
  | nil => simp
  | cons a args ih =>
    cases fuel with
    | zero =>
      rw [nextTag, dbusMessageArgsConv_zero a.code_ne_invalid] at hr
      cases hr
    | succ fuel =>
      obtain ⟨ha, ht, hl⟩ := hm
      have hmem : (argConv W env true a.code pos m).1 = _ := argConv_mem a.code
      -- the pass over the first argument, and what it has to translate
      obtain ⟨m', evs, hconv, hlen, hsa⟩ : ∃ m' evs, argConv W env true a.code pos m = (m', pos + a.width, evs) ∧
          (evs.filterMap ArgEvent.addr?).length = (a.order W env true pos).length ∧
          (evs.filterMap ArgEvent.addr? = a.order W env true pos → a.Settled W env) := by
        cases a with
        | value type hc p =>
          obtain ⟨m', evs, hconv, hevs⟩ := argConv_value true hc ha
          exact ⟨m', evs, hconv, congrArg _ hevs, fun _ => trivial⟩
        | array type p n =>
          obtain ⟨m', evs, hconv, hevs⟩ := argConv_array_native ha
          refine ⟨m', evs, hconv, ?_, fun h => ?_⟩
          · simp [hevs, Arg.order, Arg.pointees, elements]
          · rw [hevs] at h
            simp only [Arg.order, Arg.pointees, List.cons.injEq, true_and] at h
            rcases Nat.eq_zero_or_pos (loopCount (toNativeAddr W env n)) with hzero | hpos
            · exact .inl hzero
            · have hhead := congrArg (fun l => l[0]?) h
              refine .inr ?_
              simpa [elements, hpos] using hhead
      rw [nextTag, dbusMessageArgsConv_step a.code_ne_invalid fuel hconv] at hr
      obtain ⟨q, hq, rfl⟩ := Option.map_eq_some_iff.1 hr
      simp only [List.filterMap_append, List.filterMap_cons, ArgEvent.addr?] at horder
      obtain ⟨hfirst, hrest⟩ := List.append_inj horder hlen
      have hset := hsa hfirst
      rw [hconv] at hmem
      simp only [hfirst] at hmem
      have hkeep : ∀ q, q = pos + a.width ∨ q ∈ listArea (pos + a.width + 4) args → m' q = m q := by
        intro q hq
        rw [hmem, applyAll_of_notMem (h.notMem_order hset hq)]
      rw [hkeep _ (.inl rfl), ht] at hq
      exact List.forall_mem_cons.2 ⟨hset, ih (held_congr (fun q hq => hkeep q (.inr hq)) hl) h.tail hq hrest⟩

/-- The two walks are a round trip exactly when no element loop is entered through a pointer that a second
translation changes. -/
theorem roundTrip_iff_settled (hinv : Function.LeftInverse (translate W env false) (translate W env true))
    (hm : Held W env false m pos args) (h : AreaApart W env pos args) :
    RoundTrip W env m pos args ↔ ∀ a ∈ args, a.Settled W env := by
  constructor
  · rintro ⟨fuel, r, -, -, hr, -, horder, -⟩
    exact settled_of_order hm h hr horder
  · exact roundTrip_of_settled hinv hm h

/-- Addresses `base` apart, with null for null. -/
def nullWamr (base : UInt32) : Wamr where
  getModuleInst := id
  addrAppToNative _ a := if a = 0 then 0 else if a = -base then base else a + base
  addrNativeToApp _ a := if a = 0 then 0 else if a = base then -base else a - base

theorem nullWamr_leftInverse {base : UInt32} (h : base ≠ 0) (env : Addr) :
    Function.LeftInverse (translate (nullWamr base) env false) (translate (nullWamr base) env true) := by
  intro a
  simp only [translate, nullWamr, Bool.false_eq_true, if_false, if_true]
  grind

theorem nullWamr_rightInverse {base : UInt32} (h : base ≠ 0) (env : Addr) :
    Function.RightInverse (translate (nullWamr base) env false) (translate (nullWamr base) env true) := by
  intro a
  simp only [translate, nullWamr, Bool.false_eq_true, if_false, if_true]
  grind

/-- A string, an array without elements and a number. -/
def emptyArray : List Arg :=
  [.value .string (by decide) 0x5000, .array (BasicType.int32.code) 0x5400 null, .value .int32 (by decide) 0x5800]

def emptyArrayMem : Mem := argMem [0x5000, 'a'.val, 'i'.val, 0x5400, 0, 'i'.val, 0x5800, 0]

theorem emptyArray_apart : AreaApart (nullWamr 0x1000) 1 0x2000 emptyArray := by
  refine ⟨by decide, ?_⟩
  have hout : (emptyArray.all fun a => (a.pointees (nullWamr 0x1000) 1).all
      fun q => q ∉ listArea 0x2000 emptyArray) = true := by decide
  exact fun a ha _ => List.all_iff_forall_prop.1 (List.all_eq_true.1 hout a ha)

theorem roundTrip_emptyArray : RoundTrip (nullWamr 0x1000) 1 emptyArrayMem 0x2000 emptyArray := by
  have hm : Held (nullWamr 0x1000) 1 false emptyArrayMem 0x2000 emptyArray := by decide
  exact (roundTrip_iff_settled (nullWamr_leftInverse (by decide) 1) hm emptyArray_apart).2 (by decide)

/-- An array with one element, given by its count. -/
def oneElement : List Arg := [.array (BasicType.int32.code) 0x5000 1]

def oneElementMem : Mem := Function.update (argMem ['i'.val, 0x5000, 1, 0]) 0x5010 0x6000

theorem oneElement_not_settled : ¬ ∀ a ∈ oneElement, a.Settled (nullWamr 0x10) 1 := by decide

/-- The array is left with an element that has been translated back and not forth. -/
example :
    ((dbusMessageArgsConv (nullWamr 0x10) 1 true 1 (nextTag oneElement) 0x2000 oneElementMem).bind fun r =>
      dbusMessageArgsConv (nullWamr 0x10) 1 false 1 (nextTag oneElement) 0x2000 r.1).map (fun r => r.1 0x5010) =
      some 0x5ff0 := by decide

theorem array_not_roundTrip :
    ¬ ∀ (W : Wamr) (env : Addr) (m : Mem) (ap : Addr) (args : List Arg),
      Function.LeftInverse (translate W env false) (translate W env true) →
      Function.RightInverse (translate W env false) (translate W env true) → toNativeAddr W env null = null →
      Held W env false m ap args → AreaApart W env ap args → (args.map Arg.pointer).Nodup →
      RoundTrip W env m ap args := by
  intro h
  have hm : Held (nullWamr 0x10) 1 false oneElementMem 0x2000 oneElement := by decide
  have ha : AreaApart (nullWamr 0x10) 1 0x2000 oneElement := by
    refine ⟨by decide, fun a ha hs => absurd (fun b hb => ?_) oneElement_not_settled⟩
    rwa [List.mem_singleton.1 hb, ← List.mem_singleton.1 ha]
  obtain ⟨fuel, r, -, -, hr, -, horder, -⟩ := h _ 1 _ _ _ (nullWamr_leftInverse (by decide) 1)
    (nullWamr_rightInverse (by decide) 1) (by decide) hm ha (by decide)
  exact oneElement_not_settled (settled_of_order hm ha hr horder)

end VelaWasm.Dbus
