/-
The registry in memory: records linked by their `next` fields from `g_module_list_head`, which
`lwac__unregister_wasm_module` edits with a pointer that trails behind its cursor. After any operations it is a
sequence of records, as they were registered, to which each operation does what it is for; a name is cut to what
the record has room for.
-/
import VelaWasm.Lib.Chain
import VelaWasm.Lib.Run
import VelaWasm.Lwac.Registry
import Mathlib.Algebra.Group.Nat.Defs
import Mathlib.Data.List.Find
import Mathlib.Data.List.Perm.Subperm

namespace VelaWasm.Lwac

open VelaWasm.Chain VelaWasm.Run

/-! ## The registry -/

/-- A `wasm_module_info_t` with its `next`. -/
structure Node where
  info : WasmModuleInfo
  next : Addr
  deriving DecidableEq, Repr

/-- The allocated records, `g_module_list_head` and `g_module_id_counter`. -/
structure LinkedRegistry where
  memory : Addr → Option Node
  moduleListHead : Addr
  moduleIdCounter : UInt32

def LinkedRegistry.start : LinkedRegistry := ⟨fun _ => none, null, 0⟩

/-- The iterations a loop over the list is given: more than there are addresses for records. -/
def loopFuel : ℕ := 2 ^ 32

namespace LinkedRegistry

variable (r : LinkedRegistry)

/-- `lwac__register_wasm_module`, given what `malloc` returns; the result is the pointer to the record. -/
def registerWasmModule (malloc : Option Addr) (now : Int64) (name : CString) (stackSize heapSize : Int32)
    (wasmModule moduleInst execEnv : Addr) : LinkedRegistry × Addr :=
  match malloc with
  | none => (r, null)
  | some a =>
    let moduleInfo : WasmModuleInfo :=
      ⟨r.moduleIdCounter + 1, name.take (nameSize - 1), stackSize, heapSize, now, wasmModule, moduleInst, execEnv⟩
    (⟨Function.update r.memory a (some ⟨moduleInfo, r.moduleListHead⟩), a, r.moduleIdCounter + 1⟩, a)

/-- `free` of a record -/
def free (a : Addr) : LinkedRegistry := { r with memory := Function.update r.memory a none }

/-- The loop of `lwac__unregister_wasm_module`; `none` for a pointer to no record, or without fuel. -/
def unregisterLoop (moduleInst : Addr) : ℕ → (current prev : Addr) → Option (LinkedRegistry × Int32)
  | 0, _, _ => none
  | n + 1, current, prev =>
    if current = null then some (r, -1)
    else
      (r.memory current).bind fun node =>
        if node.info.moduleInst = moduleInst then
          -- `current->next` is read before `current` is freed
          if prev ≠ null then
            (r.memory prev).map fun before =>
              (free { r with memory := Function.update r.memory prev (some { before with next := node.next }) }
                current, 0)
          else some (free { r with moduleListHead := node.next } current, 0)
        else unregisterLoop moduleInst n node.next current

/-- `lwac__unregister_wasm_module` -/
def unregisterWasmModule (moduleInst : Addr) : Option (LinkedRegistry × Int32) :=
  r.unregisterLoop moduleInst loopFuel r.moduleListHead null

/-- The loops of the lookups: the first record from `current` on that passes the test, or null. -/
def findLoop (test : WasmModuleInfo → Bool) : ℕ → (current : Addr) → Option Addr
  | 0, _ => none
  | n + 1, current =>
    if current = null then some null
    else
      (r.memory current).bind fun node => if test node.info then some current else findLoop test n node.next

/-- `lwac__find_wasm_module_by_id` -/
def findWasmModuleById (moduleId : UInt32) : Option Addr :=
  r.findLoop (fun info => decide (info.moduleId = moduleId)) loopFuel r.moduleListHead

/-- Whether `strncmp` of the first `n` characters is 0. -/
def strncmpEq (a b : CString) (n : ℕ) : Bool := decide (a.take n = b.take n)

def enoent : Int32 := 2

def einval : Int32 := 22

/-- `lwac__find_wasm_module_by_name`, with the record it copies to `*module_info`; `name` may be null, and
`moduleInfo` says whether `module_info` is not. -/
def findWasmModuleByName (name : Option CString) (moduleInfo : Bool) : Option (Int32 × Option Node) :=
  match name with
  | none => some (-einval, none)
  | some name =>
    if !moduleInfo then some (-einval, none)
    else
      (r.findLoop (fun info => strncmpEq info.name name nameSize) loopFuel r.moduleListHead).bind fun current =>
        if current = null then some (-enoent, none)
        else (r.memory current).map fun node => (0, some { node with next := null })

/-- The loop of `lwac__get_running_module_count`; `++` of an `int` at `INT_MAX` is undefined. -/
def countLoop : ℕ → (current : Addr) → (count : Int32) → Option Int32
  | 0, _, _ => none
  | n + 1, current, count =>
    if current = null then some count
    else if count = 2147483647 then none
    else (r.memory current).bind fun node => countLoop n node.next (count + 1)

/-- `lwac__get_running_module_count` -/
def getRunningModuleCount : Option Int32 := r.countLoop loopFuel r.moduleListHead 0

end LinkedRegistry

/-! ## Operations -/

inductive RegistryOp where
  | register (malloc : Option Addr) (now : Int64) (name : CString) (stackSize heapSize : Int32)
    (wasmModule moduleInst execEnv : Addr)
  | unregister (moduleInst : Addr)
  | findById (moduleId : UInt32)
  | findByName (name : Option CString) (moduleInfo : Bool)
  | count
  deriving DecidableEq

inductive RegistryResult where
  /-- a pointer to a record, or null -/
  | record (a : Addr)
  | status (ret : Int32)
  /-- the value returned and the record copied -/
  | copied (ret : Int32) (moduleInfo : Option Node)
  | count (count : Int32)
  deriving DecidableEq

def LinkedRegistry.perform (r : LinkedRegistry) : RegistryOp → Option (LinkedRegistry × RegistryResult)
  | .register malloc now name stackSize heapSize wasmModule moduleInst execEnv =>
    some ((r.registerWasmModule malloc now name stackSize heapSize wasmModule moduleInst execEnv).map id .record)
  | .unregister moduleInst => (r.unregisterWasmModule moduleInst).map (Prod.map id .status)
  | .findById moduleId => (r.findWasmModuleById moduleId).map fun a => (r, .record a)
  | .findByName name moduleInfo =>
    (r.findWasmModuleByName name moduleInfo).map fun (ret, copy) => (r, .copied ret copy)
  | .count => r.getRunningModuleCount.map fun n => (r, .count n)

/-- `malloc` returns no memory, or memory that is aligned and not in use. -/
def LinkedRegistry.Allocates (r : LinkedRegistry) : RegistryOp → Prop
  | .register (some a) .. => a ≠ null ∧ a.toNat % 4 = 0 ∧ r.memory a = none
  | _ => True

instance (r : LinkedRegistry) : DecidablePred r.Allocates
  | .register (some _) .. => inferInstanceAs (Decidable (_ ∧ _ ∧ _))
  | .register none .. | .unregister _ | .findById _ | .findByName .. | .count => isTrue trivial

/-! ## The sequence -/

/-- The registry as a sequence of records, each at its address, with the counts of successful operations. -/
structure RegistrySpec where
  entries : List (Addr × WasmModuleInfo)
  registered : ℕ
  unregistered : ℕ

def RegistrySpec.start : RegistrySpec := ⟨[], 0, 0⟩

/-- What the operations are for; `keep` is what a record keeps of a name. -/
def RegistrySpec.perform (keep : CString → CString) (s : RegistrySpec) : RegistryOp → RegistrySpec × RegistryResult
  | .register none .. => (s, .record null)
  | .register (some a) now name stackSize heapSize wasmModule moduleInst execEnv =>
    let info : WasmModuleInfo :=
      ⟨.ofNat (s.registered + 1), keep name, stackSize, heapSize, now, wasmModule, moduleInst, execEnv⟩
    (⟨(a, info) :: s.entries, s.registered + 1, s.unregistered⟩, .record a)
  | .unregister moduleInst =>
    if ∃ e ∈ s.entries, e.2.moduleInst = moduleInst then
      (⟨s.entries.eraseP fun e => e.2.moduleInst = moduleInst, s.registered, s.unregistered + 1⟩, .status 0)
    else (s, .status (-1))
  | .findById moduleId => (s, .record ((s.entries.find? fun e => e.2.moduleId = moduleId).elim null Prod.fst))
  | .findByName (some name) true =>
    (s, (s.entries.find? fun e => e.2.name = name).elim (.copied (-LinkedRegistry.enoent) none) fun e =>
      .copied 0 (some ⟨e.2, null⟩))
  | .findByName .. => (s, .copied (-LinkedRegistry.einval) none)
  | .count => (s, .count (.ofNat (s.registered - s.unregistered)))

/-- What a record has room for. -/
def keptName (name : CString) : CString := name.take (nameSize - 1)

/-- An operation after others, with the results so far. -/
def registryStep (s : LinkedRegistry × List RegistryResult) (op : RegistryOp) :
    Option (LinkedRegistry × List RegistryResult) :=
  (s.1.perform op).map fun (r, result) => (r, s.2 ++ [result])

def specStep (keep : CString → CString) (s : RegistrySpec × List RegistryResult) (op : RegistryOp) :
    RegistrySpec × List RegistryResult :=
  ((s.1.perform keep op).1, s.2 ++ [(s.1.perform keep op).2])

def specRun (keep : CString → CString) (ops : List RegistryOp) : RegistrySpec × List RegistryResult :=
  ops.foldl (specStep keep) (.start, [])

/-- The address in a record's `next`. -/
def LinkedRegistry.next (r : LinkedRegistry) (a : Addr) : Addr := (r.memory a).elim null Node.next

/-- From its head on, the list has the records of the entries at their addresses. -/
structure LinkedRegistry.Sequence (r : LinkedRegistry) (entries : List (Addr × WasmModuleInfo)) : Prop where
  linked : Linked null r.next r.moduleListHead (entries.map Prod.fst)
  records : ∀ e ∈ entries, ∃ node, r.memory e.1 = some node ∧ node.info = e.2

/-- The operations return what those of the sequence return, and leave its records; it has one for each
registration that was not undone, few enough for an `int`. -/
def Refines (keep : CString → CString) (ops : List RegistryOp) : Prop :=
  ∃ s, exec registryStep (.start, []) ops = some s ∧ s.2 = (specRun keep ops).2 ∧
    s.1.Sequence (specRun keep ops).1.entries ∧
    (specRun keep ops).1.registered = (specRun keep ops).1.unregistered + (specRun keep ops).1.entries.length ∧
    (specRun keep ops).1.entries.length < 2 ^ 31

/-! ## Records in memory -/

namespace LinkedRegistry

variable {r : LinkedRegistry} {l l' : List (Addr × WasmModuleInfo)} {d e : Addr × WasmModuleInfo} {node before : Node}
  {inst a current prev : Addr} {n : ℕ}

theorem next_of_memory (h : r.memory a = some node) : r.next a = node.next := by
  rw [next, h]
  rfl

theorem next_congr {r' : LinkedRegistry} (h : r'.memory a = r.memory a) : r'.next a = r.next a := by
  rw [next, next, h]

theorem Sequence.start : LinkedRegistry.start.Sequence [] := ⟨rfl, fun _ h => (by cases h)⟩

theorem Sequence.nodup (h : r.Sequence l) : (l.map Prod.fst).Nodup := h.linked.nodup

/-- The records behind the head. -/
theorem Sequence.ne_of_mem (h : r.Sequence (e :: l)) (hd : d ∈ l) : d.1 ≠ e.1 := by
  intro hde
  have hnotMem : e.1 ∉ l.map Prod.fst := h.linked.notMem_tail
  exact hnotMem (hde ▸ List.mem_map_of_mem hd)

/-- A record linked at the head. -/
theorem Sequence.push {info : WasmModuleInfo} {counter : UInt32} (h : r.Sequence l) (ha : a ≠ null)
    (hfree : r.memory a = none) :
    Sequence ⟨Function.update r.memory a (some ⟨info, r.moduleListHead⟩), a, counter⟩ ((a, info) :: l) := by
  have hne : ∀ e ∈ l, e.1 ≠ a := by
    rintro e he rfl
    obtain ⟨node, hnode, -⟩ := h.records e he
    rw [hfree] at hnode
    cases hnode
  refine ⟨h.linked.push ha ?_ fun b hb => ?_, fun e he => ?_⟩
  · simp only [next, Function.update_self, Option.elim_some]
  · obtain ⟨e, he, rfl⟩ := List.mem_map.1 hb
    exact next_congr (Function.update_of_ne (hne e he) _ _)
  · rcases List.mem_cons.1 he with rfl | he
    · exact ⟨_, Function.update_self _ _ _, rfl⟩
    · obtain ⟨node, hnode, hinfo⟩ := h.records e he
      exact ⟨node, (Function.update_of_ne (hne e he) _ _).trans hnode, hinfo⟩

/-- The head unlinked and freed. -/
theorem Sequence.pop (h : r.Sequence (e :: l)) (he : r.memory e.1 = some node) :
    (free { r with moduleListHead := node.next } e.1).Sequence l := by
  have hkeep : ∀ d ∈ l, Function.update r.memory e.1 none d.1 = r.memory d.1 :=
    fun d hd => Function.update_of_ne (h.ne_of_mem hd) _ _
  refine ⟨?_, fun d hd => ?_⟩
  · have hlinked : Linked null r.next r.moduleListHead (e.1 :: l.map Prod.fst) := h.linked
    rw [← next_of_memory he]
    refine hlinked.pop fun b hb => ?_
    obtain ⟨d, hd, rfl⟩ := List.mem_map.1 hb
    exact next_congr (hkeep d hd)
  · obtain ⟨node, hnode, hinfo⟩ := h.records d (List.mem_cons_of_mem _ hd)
    exact ⟨node, (hkeep d hd).trans hnode, hinfo⟩

/-- A record behind another one unlinked and freed. -/
theorem Sequence.unlink (h : r.Sequence (l ++ d :: e :: l')) (hd : r.memory d.1 = some before)
    (he : r.memory e.1 = some node) :
    (free { r with memory := Function.update r.memory d.1 (some { before with next := node.next }) } e.1).Sequence
      (l ++ d :: l') := by
  have hnodup := h.nodup
  simp only [List.map_append, List.map_cons, List.nodup_append, List.nodup_cons, List.mem_cons, not_or] at hnodup
  obtain ⟨-, ⟨⟨hde, hdl'⟩, hel', -⟩, hleft⟩ := hnodup
  have hdl : ∀ c ∈ l, c.1 ≠ d.1 ∧ c.1 ≠ e.1 := fun c hc =>
    ⟨hleft _ (List.mem_map_of_mem hc) _ (.inl rfl), hleft _ (List.mem_map_of_mem hc) _ (.inr (.inl rfl))⟩
  have hdr : ∀ c ∈ l', c.1 ≠ d.1 ∧ c.1 ≠ e.1 := fun c hc =>
    ⟨fun h => hdl' (h ▸ List.mem_map_of_mem hc), fun h => hel' (h ▸ List.mem_map_of_mem hc)⟩
  let r' := free { r with memory := Function.update r.memory d.1 (some { before with next := node.next }) } e.1
  have hkeep : ∀ c : Addr × WasmModuleInfo, c.1 ≠ d.1 ∧ c.1 ≠ e.1 → r'.memory c.1 = r.memory c.1 := fun c hc =>
    (Function.update_of_ne hc.2 _ _).trans (Function.update_of_ne hc.1 _ _)
  have hbefore : r'.memory d.1 = some { before with next := node.next } :=
    (Function.update_of_ne hde _ _).trans (Function.update_self _ _ _)
  refine ⟨?_, fun c hc => ?_⟩
  · have hlinked := h.linked
    rw [List.map_append, List.map_cons, List.map_cons] at hlinked
    rw [List.map_append, List.map_cons]
    refine hlinked.unlink ?_ (fun b hb => ?_) fun b hb => ?_
    · rw [next_of_memory he]
      exact (next_of_memory hbefore).trans rfl
    · obtain ⟨c, hc, rfl⟩ := List.mem_map.1 hb
      exact next_congr (hkeep c (hdl c hc))
    · obtain ⟨c, hc, rfl⟩ := List.mem_map.1 hb
      exact next_congr (hkeep c (hdr c hc))
  · rcases List.mem_append.1 hc with hc | hc
    · obtain ⟨node, hnode, hinfo⟩ := h.records c (List.mem_append_left _ hc)
      exact ⟨node, (hkeep c (hdl c hc)).trans hnode, hinfo⟩
    rcases List.mem_cons.1 hc with rfl | hc
    · obtain ⟨node', hnode, hinfo⟩ := h.records c (by simp)
      rw [hd] at hnode
      cases hnode
      exact ⟨_, hbefore, hinfo⟩
    · obtain ⟨node, hnode, hinfo⟩ := h.records c (by simp [hc])
      exact ⟨node, (hkeep c (hdr c hc)).trans hnode, hinfo⟩

/-! ## The loops -/

/-- The cursor at the records that are left. -/
theorem Sequence.cursor (h : r.Sequence (l ++ e :: l')) (hc : Linked null r.next current ((e :: l').map Prod.fst)) :
    current = e.1 ∧ current ≠ null ∧
      ∃ node, r.memory current = some node ∧ node.info = e.2 ∧ Linked null r.next node.next (l'.map Prod.fst) := by
  obtain ⟨hce, hne, -⟩ := id hc
  obtain ⟨node, hnode, hinfo⟩ := h.records e (by simp)
  have htail : Linked null r.next (r.next e.1) (l'.map Prod.fst) := hc.tail
  rw [next_of_memory hnode] at htail
  subst hce
  exact ⟨rfl, hne, node, hnode, hinfo, htail⟩

/-- The trailing pointer: the last of the records passed, or null before the first. -/
def lastAddr (l : List (Addr × WasmModuleInfo)) : Addr := (l.map Prod.fst).getLastD null

/-- The loop unlinks the first record of the instance among those that are left. -/
theorem unregisterLoop_of_mem (h : r.Sequence (l ++ l')) (hc : Linked null r.next current (l'.map Prod.fst))
    (hn : l'.length < n) (hmem : ∃ e ∈ l', e.2.moduleInst = inst) :
    ∃ r', r.unregisterLoop inst n current (lastAddr l) = some (r', 0) ∧
      r'.Sequence (l ++ l'.eraseP fun e => e.2.moduleInst = inst) ∧ r'.moduleIdCounter = r.moduleIdCounter := by
  induction l' generalizing l current n with
  | nil =>
    obtain ⟨e, he, -⟩ := hmem
    cases he
  | cons e l' ih =>
    obtain ⟨n, rfl⟩ := Nat.exists_eq_succ_of_ne_zero (Nat.ne_zero_of_lt hn)
    obtain ⟨hce, hne, node, hnode, hinfo, htail⟩ := h.cursor hc
    rw [unregisterLoop, if_neg hne, hnode, Option.bind_some, hinfo]
    by_cases hinst : e.2.moduleInst = inst
    · rw [if_pos hinst, List.eraseP_cons_of_pos (by simpa using hinst)]
      subst hce
      -- the record is unlinked at the head or behind the last one passed
      rcases List.eq_nil_or_concat l with rfl | ⟨l, d, rfl⟩
      · exact ⟨_, rfl, h.pop hnode, rfl⟩
      · rw [List.concat_eq_append] at h ⊢
        have hd : lastAddr (l ++ [d]) = d.1 := by simp [lastAddr]
        obtain ⟨before, hbefore, -⟩ := h.records d (by simp)
        have hdnull : d.1 ≠ null := h.linked.ne_null (by simp)
        rw [List.append_assoc] at h
        rw [hd, if_pos hdnull, hbefore, Option.map_some, List.append_assoc]
        exact ⟨_, rfl, h.unlink hbefore hnode, rfl⟩
    · rw [if_neg hinst, List.eraseP_cons_of_neg (by simpa using hinst)]
      have hlast : current = lastAddr (l ++ [e]) := by simp [lastAddr, hce]
      have hseq : r.Sequence ((l ++ [e]) ++ l') := by simpa using h
      have hrest : ∃ e ∈ l', e.2.moduleInst = inst := by
        obtain ⟨d, hd, hdi⟩ := hmem
        rcases List.mem_cons.1 hd with rfl | hd
        · exact absurd hdi hinst
        · exact ⟨d, hd, hdi⟩
      obtain ⟨r', hr, hseq', hcounter⟩ := ih hseq htail (Nat.lt_of_succ_lt_succ hn) hrest
      refine ⟨r', ?_, by simpa using hseq', hcounter⟩
      rw [hlast]
      exact hr

/-- Without a record of the instance the loop runs to the end. -/
theorem unregisterLoop_of_notMem (h : r.Sequence (l ++ l')) (hc : Linked null r.next current (l'.map Prod.fst))
    (hn : l'.length < n) (hmem : ∀ e ∈ l', e.2.moduleInst ≠ inst) :
    r.unregisterLoop inst n current prev = some (r, -1) := by
  induction l' generalizing l current prev n with
  | nil =>
    obtain ⟨n, rfl⟩ := Nat.exists_eq_succ_of_ne_zero (Nat.ne_zero_of_lt hn)
    exact if_pos hc
  | cons e l' ih =>
    obtain ⟨n, rfl⟩ := Nat.exists_eq_succ_of_ne_zero (Nat.ne_zero_of_lt hn)
    obtain ⟨-, hne, node, hnode, hinfo, htail⟩ := h.cursor hc
    rw [unregisterLoop, if_neg hne, hnode, Option.bind_some, hinfo, if_neg (hmem e List.mem_cons_self)]
    have hseq : r.Sequence ((l ++ [e]) ++ l') := by simpa using h
    exact ih hseq htail (Nat.lt_of_succ_lt_succ hn) fun d hd => hmem d (List.mem_cons_of_mem _ hd)

/-- The lookups find the first record that passes. -/
theorem findLoop_eq (test : WasmModuleInfo → Bool) (h : r.Sequence (l ++ l'))
    (hc : Linked null r.next current (l'.map Prod.fst)) (hn : l'.length < n) :
    r.findLoop test n current = some ((l'.find? fun e => test e.2).elim null Prod.fst) := by
  induction l' generalizing l current n with
  | nil =>
    obtain ⟨n, rfl⟩ := Nat.exists_eq_succ_of_ne_zero (Nat.ne_zero_of_lt hn)
    exact if_pos hc
  | cons e l' ih =>
    obtain ⟨n, rfl⟩ := Nat.exists_eq_succ_of_ne_zero (Nat.ne_zero_of_lt hn)
    obtain ⟨hce, hne, node, hnode, hinfo, htail⟩ := h.cursor hc
    rw [findLoop, if_neg hne, hnode, Option.bind_some, hinfo, List.find?_cons]
    cases htest : test e.2 with
    | true => simp [hce]
    | false =>
      have hseq : r.Sequence ((l ++ [e]) ++ l') := by simpa using h
      exact ih hseq htail (Nat.lt_of_succ_lt_succ hn)

theorem ofNat_ne_intMax {k : ℕ} (h : k + 1 < 2 ^ 31) : Int32.ofNat k ≠ 2147483647 := by
  intro hk
  have hto := Int32.toInt_ofNat_of_lt (n := k) (by omega)
  rw [hk] at hto
  have : (2147483647 : Int) = k := hto
  omega

theorem countLoop_eq {k : ℕ} (h : r.Sequence (l ++ l')) (hc : Linked null r.next current (l'.map Prod.fst))
    (hn : l'.length < n) (hk : k + l'.length < 2 ^ 31) :
    r.countLoop n current (.ofNat k) = some (.ofNat (k + l'.length)) := by
  induction l' generalizing l current n k with
  | nil =>
    obtain ⟨n, rfl⟩ := Nat.exists_eq_succ_of_ne_zero (Nat.ne_zero_of_lt hn)
    exact if_pos hc
  | cons e l' ih =>
    obtain ⟨n, rfl⟩ := Nat.exists_eq_succ_of_ne_zero (Nat.ne_zero_of_lt hn)
    obtain ⟨-, hne, node, hnode, -, htail⟩ := h.cursor hc
    rw [List.length_cons] at hk ⊢
    rw [countLoop, if_neg hne, if_neg (ofNat_ne_intMax (by omega)), hnode, Option.bind_some]
    have hseq : r.Sequence ((l ++ [e]) ++ l') := by simpa using h
    have hsucc : Int32.ofNat k + 1 = Int32.ofNat (k + 1) := (Int32.ofNat_add k 1).symm
    rw [hsucc, ih hseq htail (Nat.lt_of_succ_lt_succ hn) (by omega)]
    congr 2
    omega

end LinkedRegistry

/-! ## The simulation -/

/-- The registry is the sequence: its records are the entries, at aligned addresses and with names that end in the
record, and its counter has counted the registrations. -/
structure Represents (r : LinkedRegistry) (s : RegistrySpec) : Prop where
  sequence : r.Sequence s.entries
  aligned : ∀ e ∈ s.entries, e.1.toNat % 4 = 0
  names : ∀ e ∈ s.entries, e.2.name.length < nameSize
  counter : r.moduleIdCounter = .ofNat s.registered
  balance : s.registered = s.unregistered + s.entries.length

theorem represents_start : Represents .start .start :=
  ⟨.start, fun _ h => (by cases h), fun _ h => (by cases h), rfl, rfl⟩

variable {r t : LinkedRegistry} {s : RegistrySpec} {op : RegistryOp} {result : RegistryResult}

/-- There is room for 2^30 aligned addresses. -/
theorem length_le_of_aligned {l : List Addr} (hl : l.Nodup) (h : ∀ a ∈ l, a.toNat % 4 = 0) : l.length ≤ 2 ^ 30 := by
  have hnodup : (l.map fun a => a.toNat / 4).Nodup := by
    refine List.Nodup.map_on (fun a ha b hb hab => UInt32.toNat_inj.1 ?_) hl
    have h1 := h a ha
    have h2 := h b hb
    omega
  have hsub : (l.map fun a => a.toNat / 4) ⊆ List.range (2 ^ 30) := by
    intro k hk
    obtain ⟨a, -, rfl⟩ := List.mem_map.1 hk
    have := a.toNat_lt
    rw [List.mem_range]
    omega
  have hlen := (hnodup.subperm hsub).length_le
  rwa [List.length_map, List.length_range] at hlen

theorem Represents.length_le (h : Represents r s) : s.entries.length ≤ 2 ^ 30 := by
  have hlen := length_le_of_aligned h.sequence.nodup fun a ha => by
    obtain ⟨e, he, rfl⟩ := List.mem_map.1 ha
    exact h.aligned e he
  rwa [List.length_map] at hlen

theorem Represents.lt_loopFuel (h : Represents r s) : s.entries.length < loopFuel := by
  have := h.length_le
  unfold loopFuel
  omega

/-- An unregistered entry leaves the others. -/
theorem Represents.unregister {inst : Addr} (h : Represents r s) (ht : t.Sequence
    (s.entries.eraseP fun e => e.2.moduleInst = inst)) (hc : t.moduleIdCounter = r.moduleIdCounter)
    (hmem : ∃ e ∈ s.entries, e.2.moduleInst = inst) :
    Represents t ⟨s.entries.eraseP fun e => e.2.moduleInst = inst, s.registered, s.unregistered + 1⟩ where
  sequence := ht
  aligned e he := h.aligned e (List.mem_of_mem_eraseP he)
  names e he := h.names e (List.mem_of_mem_eraseP he)
  counter := hc.trans h.counter
  balance := by
    obtain ⟨e, he, hinst⟩ := hmem
    have hpos := List.length_pos_of_mem he
    have hlen : (s.entries.eraseP fun e => e.2.moduleInst = inst).length = s.entries.length - 1 :=
      List.length_eraseP_of_mem he (by simpa using hinst)
    have hbalance := h.balance
    show s.registered = s.unregistered + 1 + (s.entries.eraseP fun e => e.2.moduleInst = inst).length
    rw [hlen]
    omega

/-- The first 64 characters of a name that ends before tell it from every other. -/
theorem strncmpEq_eq {a b : CString} (ha : a.length < nameSize) :
    LinkedRegistry.strncmpEq a b nameSize = decide (a = b) := by
  have hiff : a.take nameSize = b.take nameSize ↔ a = b := by
    constructor
    · intro h
      rw [List.take_of_length_le (Nat.le_of_lt ha)] at h
      have hlen := congrArg List.length h
      rw [List.length_take] at hlen
      have hb : b.length ≤ nameSize := by omega
      rwa [List.take_of_length_le hb] at h
    · rintro rfl
      rfl
  exact decide_eq_decide.2 hiff

theorem findByName_eq (h : Represents r s) (name : CString) :
    r.findLoop (fun info => LinkedRegistry.strncmpEq info.name name nameSize) loopFuel r.moduleListHead =
      some ((s.entries.find? fun e => e.2.name = name).elim null Prod.fst) := by
  have hfind := LinkedRegistry.findLoop_eq (l := []) (fun info => LinkedRegistry.strncmpEq info.name name nameSize)
    h.sequence h.sequence.linked h.lt_loopFuel
  rw [hfind]
  congr 2
  exact List.find?_congr fun e he => strncmpEq_eq (h.names e he)

theorem represents_register {a : Addr} {now : Int64} {name : CString} {stackSize heapSize : Int32}
    {wasmModule moduleInst execEnv : Addr} (h : Represents r s)
    (hop : r.Allocates (.register (some a) now name stackSize heapSize wasmModule moduleInst execEnv)) :
    Represents (r.registerWasmModule (some a) now name stackSize heapSize wasmModule moduleInst execEnv).1
      (s.perform keptName (.register (some a) now name stackSize heapSize wasmModule moduleInst execEnv)).1 := by
  obtain ⟨hnull, haligned, hfree⟩ := hop
  have hid : r.moduleIdCounter + 1 = .ofNat (s.registered + 1) := by
    rw [h.counter]
    exact (UInt32.ofNat_add s.registered 1).symm
  show Represents ⟨_, a, r.moduleIdCounter + 1⟩ _
  rw [hid]
  refine ⟨h.sequence.push hnull hfree, fun e he => ?_, fun e he => ?_, rfl, ?_⟩
  · rcases List.mem_cons.1 he with rfl | he
    · exact haligned
    · exact h.aligned e he
  · rcases List.mem_cons.1 he with rfl | he
    · show (name.take (nameSize - 1)).length < nameSize
      rw [List.length_take]
      unfold nameSize
      omega
    · exact h.names e he
  · have hbalance := h.balance
    show s.registered + 1 = s.unregistered + (s.entries.length + 1)
    omega

/-- The loop finds a record of the instance exactly if there is one. -/
theorem represents_unregister (h : Represents r s) (inst : Addr) : ∃ t ret, r.unregisterWasmModule inst = some (t, ret) ∧
    (s.perform keptName (.unregister inst)).2 = .status ret ∧
    Represents t (s.perform keptName (.unregister inst)).1 := by
  by_cases hmem : ∃ e ∈ s.entries, e.2.moduleInst = inst
  · obtain ⟨t, ht, hseq, hcounter⟩ := LinkedRegistry.unregisterLoop_of_mem (l := []) h.sequence h.sequence.linked
      h.lt_loopFuel hmem
    rw [RegistrySpec.perform, if_pos hmem]
    exact ⟨t, 0, ht, rfl, h.unregister hseq hcounter hmem⟩
  · have hcall : r.unregisterWasmModule inst = some (r, -1) :=
      LinkedRegistry.unregisterLoop_of_notMem (l := []) h.sequence h.sequence.linked h.lt_loopFuel
        fun e he hinst => hmem ⟨e, he, hinst⟩
    rw [RegistrySpec.perform, if_neg hmem]
    exact ⟨r, -1, hcall, rfl, h⟩

theorem represents_findById (h : Represents r s) (moduleId : UInt32) : r.findWasmModuleById moduleId =
    some ((s.entries.find? fun e => e.2.moduleId = moduleId).elim null Prod.fst) :=
  LinkedRegistry.findLoop_eq (l := []) _ h.sequence h.sequence.linked h.lt_loopFuel

theorem represents_findByName (h : Represents r s) (name : CString) : r.findWasmModuleByName (some name) true =
    some ((s.entries.find? fun e => e.2.name = name).elim (-LinkedRegistry.enoent, none) fun e =>
      (0, some ⟨e.2, null⟩)) := by
  simp only [LinkedRegistry.findWasmModuleByName, Bool.not_true, Bool.false_eq_true, if_false, findByName_eq h,
    Option.bind_some]
  cases hf : s.entries.find? fun e => e.2.name = name with
  | none => rfl
  | some e =>
    have he : e ∈ s.entries := List.mem_of_find?_eq_some hf
    obtain ⟨node, hnode, hinfo⟩ := h.sequence.records e he
    have hnull : e.1 ≠ null := h.sequence.linked.ne_null (List.mem_map_of_mem he)
    simp only [Option.elim_some, if_neg hnull, hnode, Option.map_some, hinfo]

theorem represents_count (h : Represents r s) :
    r.getRunningModuleCount = some (.ofNat (s.registered - s.unregistered)) := by
  have hk : 0 + s.entries.length < 2 ^ 31 := by
    have := h.length_le
    omega
  have hsub : s.registered - s.unregistered = 0 + s.entries.length := by
    have := h.balance
    omega
  rw [hsub]
  exact LinkedRegistry.countLoop_eq (l := []) h.sequence h.sequence.linked h.lt_loopFuel hk

/-- Each operation does to the list what it is for. -/
theorem represents_step (h : Represents r s) (hop : r.Allocates op) :
    ∃ t, r.perform op = some (t, (s.perform keptName op).2) ∧ Represents t (s.perform keptName op).1 := by
  cases op with
  | register malloc =>
    cases malloc with
    | none => exact ⟨r, rfl, h⟩
    | some a => exact ⟨_, rfl, represents_register h hop⟩
  | unregister inst =>
    obtain ⟨t, ret, hcall, hstatus, ht⟩ := represents_unregister h inst
    refine ⟨t, ?_, ht⟩
    rw [LinkedRegistry.perform, hcall, hstatus]
    rfl
  | findById moduleId =>
    refine ⟨r, ?_, h⟩
    rw [LinkedRegistry.perform, represents_findById h]
    rfl
  | findByName name moduleInfo =>
    cases name with
    | none => exact ⟨r, rfl, h⟩
    | some name =>
      cases moduleInfo with
      | false => exact ⟨r, rfl, h⟩
      | true =>
        refine ⟨r, ?_, h⟩
        rw [LinkedRegistry.perform, represents_findByName h, RegistrySpec.perform]
        cases s.entries.find? fun e => e.2.name = name <;> rfl
  | count =>
    refine ⟨r, ?_, h⟩
    rw [LinkedRegistry.perform, represents_count h]
    rfl

/-! ## The list of records -/

/-- The records without their addresses. -/
def RegistrySpec.registry (s : RegistrySpec) : Registry := ⟨s.entries.map Prod.snd, .ofNat s.registered⟩

theorem registry_register (s : RegistrySpec) (a : Addr) (now : Int64) (name : CString) (stackSize heapSize : Int32)
    (wasmModule moduleInst execEnv : Addr) :
    (s.perform keptName (.register (some a) now name stackSize heapSize wasmModule moduleInst execEnv)).1.registry =
      (lwacRegisterWasmModule s.registry true now name stackSize heapSize wasmModule moduleInst execEnv).1 := by
  have hid : UInt32.ofNat (s.registered + 1) = .ofNat s.registered + 1 := UInt32.ofNat_add s.registered 1
  simp only [RegistrySpec.perform, RegistrySpec.registry, lwacRegisterWasmModule, if_true, List.map_cons, hid]
  rfl

theorem registry_unregister (keep : CString → CString) (s : RegistrySpec) (inst : Addr) :
    (s.perform keep (.unregister inst)).1.registry = (lwacUnregisterWasmModule s.registry inst).1 := by
  by_cases h : ∃ e ∈ s.entries, e.2.moduleInst = inst
  · obtain ⟨e, he, hinst⟩ := h
    have hmem : e.2 ∈ s.registry.moduleListHead := List.mem_map_of_mem he
    rw [lwacUnregister_of_mem hmem hinst, RegistrySpec.perform, if_pos ⟨e, he, hinst⟩]
    simp only [RegistrySpec.registry, List.eraseP_map]
    rfl
  · have hne : ∀ m ∈ s.registry.moduleListHead, m.moduleInst ≠ inst := by
      intro m hm hinst
      obtain ⟨e, he, rfl⟩ := List.mem_map.1 hm
      exact h ⟨e, he, hinst⟩
    rw [lwacUnregister_of_ne hne, RegistrySpec.perform, if_neg h]

/-! ## Runs -/

theorem represents_run {ops : List RegistryOp} : ∀ {r : LinkedRegistry} {s : RegistrySpec}
    {results : List RegistryResult}, Represents r s → Meets registryStep (fun s => s.1.Allocates) (r, results) ops →
    ∃ t, exec registryStep (r, results) ops = some (t, (ops.foldl (specStep keptName) (s, results)).2) ∧
      Represents t (ops.foldl (specStep keptName) (s, results)).1 := by
  induction ops with
  | nil => exact fun {r s results} h _ => ⟨r, rfl, h⟩
  | cons op ops ih =>
    intro r s results h hmeets
    obtain ⟨t, ht, hrep⟩ := represents_step h hmeets.1
    have hstep : registryStep (r, results) op = some (t, results ++ [(s.perform keptName op).2]) := by
      rw [registryStep, ht]
      rfl
    rw [exec_cons, hstep]
    exact ih hrep ((meets_cons _ hstep).1 hmeets).2

/-- After any operations the registry is the sequence of its records, with names cut to what a record has room
for, and each operation has returned what it is to return. -/
theorem refines_keptName (ops : List RegistryOp) (h : Meets registryStep (fun s => s.1.Allocates) (.start, []) ops) :
    Refines keptName ops := by
  obtain ⟨t, ht, hrep⟩ := represents_run represents_start h
  exact ⟨(t, _), ht, rfl, hrep.sequence, hrep.balance, Nat.lt_of_le_of_lt hrep.length_le (by decide)⟩

/-- Two records, of which the first in the list is unregistered, before and after which they are looked up. -/
def twoRecords : List RegistryOp :=
  [.register (some 0x1000) 10 "/inc/inc_demo.wasm.aot".toList 2048 4096 0x100 0x200 0x300,
    .register none 11 "nomem".toList 2048 4096 0x110 0x210 0x310,
    .register (some 0x2000) 12 "other".toList 2048 4096 0x120 0x220 0x320, .findById 2, .count, .unregister 0x220,
    .unregister 0x220, .findByName (some "other".toList) true, .findByName (some "/inc/inc_demo.wasm.aot".toList) true,
    .count]

theorem refines_twoRecords : Refines keptName twoRecords := refines_keptName twoRecords (by decide)

/-- A name of 64 characters has lost its last one in the record. -/
theorem longName_not_refines : ¬ ∀ ops : List RegistryOp,
    Meets registryStep (fun s => s.1.Allocates) (.start, []) ops → Refines id ops := by
  intro h
  obtain ⟨s, hs, -, hseq, -⟩ := h [.register (some 0x1000) 10 (List.replicate 64 'a') 2048 4096 0x100 0x200 0x300]
    (by decide)
  obtain ⟨node, hnode, hinfo⟩ := hseq.records _ List.mem_cons_self
  cases hs
  cases hnode
  exact absurd (congrArg (fun info => info.name.length) hinfo) (by decide)

end VelaWasm.Lwac
