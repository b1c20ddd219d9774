/-
Aligned and plain allocations of several module instances that share the map of aligned addresses.
The map is keyed on an address relative to the instance, so two instances can be handed the same
key; the frees are paired with their allocations exactly as long as they are not.
-/
import VelaWasm.LibcBypass.AlignedMap
import VelaWasm.Lib.Run

namespace VelaWasm.LibcBypass

open VelaWasm.Run VelaWasm.SlotTable

/-! ## Runs -/

/-- A live allocation of `glue_posix_memalign`: the instance's env, the app address it was given, the
native block, and the entry of the map. -/
structure AlignedAlloc where
  env : Addr
  app : Addr
  raw : Addr
  slot : Option Nat
  deriving DecidableEq, Repr

def AlignedAlloc.entry (r : AlignedAlloc) : AlignedEntry := (r.app, r.raw)

/-- A live plain native allocation of an instance. -/
structure PlainAlloc where
  env : Addr
  block : Addr
  deriving DecidableEq, Repr

structure HeapState where
  map : List AlignedEntry
  aligned : List AlignedAlloc
  plain : List PlainAlloc

inductive HeapAction where
  /-- `glue_posix_memalign` with the outcome of the native call -/
  | memalign (env : Addr) (align : UInt32) (native : Except UInt32 Addr)
  /-- a native function returns a block to an instance -/
  | alloc (env block : Addr)
  /-- an instance frees an aligned allocation -/
  | freeAligned (i : Nat)
  /-- an instance frees a plain allocation -/
  | freePlain (i : Nat)

variable (inst base : Addr → Addr)

/-- The app address of a plain allocation. -/
def PlainAlloc.app (p : PlainAlloc) : Addr := (Wamr.linear inst base).addrNativeToApp (inst p.env) p.block

/-- `glue_free` called with the app address `app`, which reaches it as a native address. -/
def freeApp (map : List AlignedEntry) (env app : Addr) : List AlignedEntry × Addr :=
  glueFree (.linear inst base) map env ((Wamr.linear inst base).addrAppToNative (inst env) app)

/-- The native blocks that are allocated. -/
def HeapState.blocks (s : HeapState) : List Addr :=
  s.aligned.map AlignedAlloc.raw ++ s.plain.map PlainAlloc.block

/-- The map of capacity `n` before the first allocation. -/
def HeapState.start (n : Nat) : HeapState := ⟨List.replicate n (0, 0), [], []⟩

/-- One call of the application. The native allocator returns no null pointer and no block that is
still allocated. -/
def heapStep (s : HeapState) : HeapAction → Option HeapState
  | .memalign env align native =>
    let r := gluePosixMemalign (.linear inst base) s.map env align native
    match native with
    | .error _ => some s
    | .ok raw =>
      if raw = null ∨ raw ∈ s.blocks then none
      else if r.freed.isSome then some s
      else
        let app := alignedAddr (.linear inst base) env raw align
        some { s with map := r.map, aligned := s.aligned ++ [⟨env, app, raw, find id (0, 0) s.map⟩] }
  | .alloc env block =>
    if block = null ∨ block ∈ s.blocks then none else some { s with plain := s.plain ++ [⟨env, block⟩] }
  | .freeAligned i =>
    s.aligned[i]?.map fun r =>
      { s with map := (freeApp inst base s.map r.env r.app).1, aligned := s.aligned.eraseIdx i }
  | .freePlain i =>
    s.plain[i]?.map fun p =>
      { s with map := (freeApp inst base s.map p.env (p.app inst base)).1, plain := s.plain.eraseIdx i }

/-- A free of each live allocation passes its own block to the native `free`. -/
structure Paired (s : HeapState) : Prop where
  aligned : ∀ r ∈ s.aligned, (freeApp inst base s.map r.env r.app).2 = r.raw
  plain : ∀ p ∈ s.plain, (freeApp inst base s.map p.env (p.app inst base)).2 = p.block
  blocks : s.blocks.Nodup

/-- The address is null neither for the application of `env` nor natively. -/
def NonNull (env app : Addr) : Prop :=
  app ≠ 0 ∧ (Wamr.linear inst base).addrAppToNative (inst env) app ≠ null

instance (env app : Addr) : Decidable (NonNull inst base env app) := inferInstanceAs (Decidable (_ ∧ _))

/-- The app address of an allocation is not null; that of an aligned one is no live allocation's, that
of a plain one no live aligned allocation's, of any instance. -/
def FreshApp (s : HeapState) : HeapAction → Prop
  | .memalign env align native =>
    ∀ raw ∈ native.toOption, find id (0, 0) s.map ≠ none →
      let app := alignedAddr (.linear inst base) env raw align
      NonNull inst base env app ∧ (∀ r ∈ s.aligned, r.app ≠ app) ∧ ∀ p ∈ s.plain, p.app inst base ≠ app
  | .alloc env block =>
    let app := PlainAlloc.app inst base ⟨env, block⟩
    app ≠ 0 ∧ ∀ r ∈ s.aligned, r.app ≠ app
  | _ => True

instance (s : HeapState) : DecidablePred (FreshApp inst base s)
  | .memalign env align native =>
    have (raw : Addr) : Decidable (find id (0, 0) s.map ≠ none →
        let app := alignedAddr (.linear inst base) env raw align
        NonNull inst base env app ∧ (∀ r ∈ s.aligned, r.app ≠ app) ∧ ∀ p ∈ s.plain, p.app inst base ≠ app) :=
      inferInstanceAs (Decidable (_ → _ ∧ (∀ r ∈ s.aligned, _) ∧ ∀ p ∈ s.plain, _))
    Option.decidableForallMem native.toOption
  | .alloc .. => inferInstanceAs (Decidable (_ ≠ 0 ∧ ∀ r ∈ s.aligned, _))
  | .freeAligned _ | .freePlain _ => isTrue trivial

/-! ## The invariant -/

/-- The entries of the map are those of the live aligned allocations, and a search for the app address
of an allocation ends in its own entry or, for a plain one, nowhere. -/
structure HeapKept (s : HeapState) : Prop where
  recorded : Recorded id (0, 0) AlignedAlloc.slot AlignedAlloc.entry s.map s.aligned
  found : Found Prod.fst AlignedAlloc.slot AlignedAlloc.entry s.map s.aligned
  covered : ∀ j e, s.map[j]? = some e → e ≠ (0, 0) → ∃ r ∈ s.aligned, r.slot = some j
  aligned : ∀ r ∈ s.aligned, NonNull inst base r.env r.app ∧ r.raw ≠ null
  plain : ∀ p ∈ s.plain, p.app inst base ≠ 0 ∧ p.block ≠ null ∧ find Prod.fst (p.app inst base) s.map = none
  blocks : s.blocks.Nodup

variable {inst base} {s t : HeapState} {map : List AlignedEntry}

theorem heapKept_start (n : Nat) : HeapKept inst base (HeapState.start n) := by
  refine ⟨recorded_nil _, fun _ hr => (by cases hr), fun j e he hne => absurd ?_ hne, fun _ hr => (by cases hr),
    fun _ hp => (by cases hp), List.nodup_nil⟩
  exact List.eq_of_mem_replicate (List.mem_of_getElem? he)

theorem freeApp_eq {env app : Addr} (h : NonNull inst base env app) :
    freeApp inst base map env app = ((removeFromAlignedMap map app).1,
      if (removeFromAlignedMap map app).2 ≠ 0 then (removeFromAlignedMap map app).2
      else app + base (inst env)) := by
  obtain ⟨h0, hn⟩ := h
  have hbase : app + base (inst env) ≠ null + base (inst env) := fun he => h0 (by grind)
  have hback : app + base (inst env) - base (inst env) = app := by grind
  refine (glueFree_of_ne hbase hn).trans ?_
  simp only [Wamr.linear, hback]

/-- A free of an address that is null passes the null pointer on. -/
theorem freeApp_null {env app : Addr} (h : ¬ NonNull inst base env app) :
    freeApp inst base map env app = (map, null) := by
  refine glueFree_null ?_
  by_cases h0 : app = 0
  · exact .inl (by rw [h0]; rfl)
  · refine .inr ?_
    by_contra hn
    exact h ⟨h0, hn⟩

/-- A free of an address recorded in the map passes the recorded block on and clears the entry. -/
theorem freeApp_some {env app raw : Addr} {i : Nat} (h : NonNull inst base env app) (hr : raw ≠ null)
    (hf : find Prod.fst app map = some i) (he : map[i]? = some (app, raw)) :
    freeApp inst base map env app = (map.set i (0, 0), raw) := by
  rw [freeApp_eq h, removeFromAlignedMap_some h.1 hf he, if_pos hr]

/-- A free of an address that is not in the map passes the address itself on. -/
theorem freeApp_none {env app : Addr} (h : NonNull inst base env app) (hf : find Prod.fst app map = none) :
    freeApp inst base map env app = (map, app + base (inst env)) := by
  rw [freeApp_eq h, removeFromAlignedMap_none hf]
  rfl

theorem plain_native (p : PlainAlloc) : p.app inst base + base (inst p.env) = p.block := by
  simp only [PlainAlloc.app, Wamr.linear]
  grind

theorem nonNull_plain {p : PlainAlloc} (h0 : p.app inst base ≠ 0) (hb : p.block ≠ null) :
    NonNull inst base p.env (p.app inst base) := by
  refine ⟨h0, ?_⟩
  show p.app inst base + base (inst p.env) ≠ null
  rwa [plain_native]

theorem paired_of_kept (h : HeapKept inst base s) : Paired inst base s := by
  refine ⟨fun r hr => ?_, fun p hp => ?_, h.blocks⟩
  · obtain ⟨hn, hraw⟩ := h.aligned r hr
    obtain ⟨i, hi, he⟩ := h.recorded.at_slot r hr
    rw [freeApp_some hn hraw ((h.found r hr).trans hi) he]
  · obtain ⟨h0, hb, hf⟩ := h.plain p hp
    rw [freeApp_none (nonNull_plain h0 hb) hf, plain_native]

/-- A search for an app address ends nowhere exactly when it is no live aligned allocation's. -/
theorem find_app_none (h : HeapKept inst base s) {app : Addr} (h0 : app ≠ 0) :
    find Prod.fst app s.map = none ↔ ∀ r ∈ s.aligned, r.app ≠ app := by
  rw [find_eq_none]
  constructor
  · intro hall r hr
    obtain ⟨i, -, he⟩ := h.recorded.at_slot r hr
    exact hall _ (List.mem_of_getElem? he)
  · intro hall e he hk
    obtain ⟨j, hj, rfl⟩ := List.getElem_of_mem he
    have hat : s.map[j]? = some s.map[j] := List.getElem?_eq_getElem hj
    have hne : s.map[j] ≠ (0, 0) := fun hz => h0 (by rw [← hk, hz])
    obtain ⟨r, hr, hs⟩ := h.covered j _ hat hne
    obtain ⟨i, hi, he'⟩ := h.recorded.at_slot r hr
    rw [hs] at hi
    cases hi
    rw [hat] at he'
    have happ : s.map[j].1 = r.app := congrArg Prod.fst (Option.some.inj he')
    exact hall r hr (happ.symm.trans hk)

/-! ## Allocations -/

/-- The state after a successful `glue_posix_memalign` that wrote entry `i`. -/
def HeapState.addAligned (s : HeapState) (i : Nat) (env app raw : Addr) : HeapState :=
  { s with map := s.map.set i (app, raw), aligned := s.aligned ++ [⟨env, app, raw, some i⟩] }

/-- What `glue_posix_memalign` does: it fails, finds the map full, or writes the first free entry. -/
theorem heapStep_memalign {env : Addr} {align : UInt32} {native : Except UInt32 Addr}
    (ht : heapStep inst base s (.memalign env align native) = some t) :
    (t = s ∧ ∀ raw ∈ native.toOption, find id (0, 0) s.map = none) ∨ ∃ raw i, native = .ok raw ∧ raw ≠ null ∧
      raw ∉ s.blocks ∧ find id (0, 0) s.map = some i ∧
      t = s.addAligned i env (alignedAddr (.linear inst base) env raw align) raw := by
  cases native with
  | error e =>
    cases ht
    exact .inl ⟨rfl, fun _ h => (by cases h)⟩
  | ok raw =>
    by_cases hraw : raw = null ∨ raw ∈ s.blocks
    · simp only [heapStep, if_pos hraw] at ht
      cases ht
    · simp only [heapStep, if_neg hraw] at ht
      rw [not_or] at hraw
      cases hi : find id (0, 0) s.map with
      | none =>
        rw [gluePosixMemalign_full hi] at ht
        cases ht
        exact .inl ⟨rfl, fun _ _ => rfl⟩
      | some i =>
        rw [gluePosixMemalign_free hi] at ht
        refine .inr ⟨raw, i, rfl, hraw.1, hraw.2, rfl, ?_⟩
        rw [hi] at ht
        exact (Option.some.inj ht).symm

theorem heapStep_alloc {env block : Addr} (ht : heapStep inst base s (.alloc env block) = some t) :
    block ≠ null ∧ block ∉ s.blocks ∧ t = { s with plain := s.plain ++ [⟨env, block⟩] } := by
  simp only [heapStep] at ht
  split_ifs at ht with h
  cases ht
  rw [not_or] at h
  exact ⟨h.1, h.2, rfl⟩

theorem heapKept_addAligned {i : Nat} {env app raw : Addr} (h : HeapKept inst base s)
    (hi : find id (0, 0) s.map = some i) (hraw : raw ≠ null) (hnew : raw ∉ s.blocks)
    (hn : NonNull inst base env app) (hal : ∀ r ∈ s.aligned, r.app ≠ app)
    (hpl : ∀ p ∈ s.plain, p.app inst base ≠ app) : HeapKept inst base (s.addAligned i env app raw) := by
  have hother := h.recorded.slot_ne_free hi
  obtain ⟨f, hf, hfree, -⟩ := find_eq_some.1 hi
  have hlt : i < s.map.length := (List.getElem?_eq_some_iff.1 hf).1
  have habsent := find_eq_none.1 ((find_app_none h hn.1).2 hal)
  let r : AlignedAlloc := ⟨env, app, raw, some i⟩
  refine ⟨?_, fun q hq => ?_, fun j e he hne => ?_, fun q hq => ?_, fun p hp => ?_, ?_⟩
  · exact h.recorded.alloc (r := r) hf hfree rfl fun hz => hn.1 (congrArg Prod.fst hz)
  · rcases List.mem_append.1 hq with hq | hq
    · exact (h.recorded.find_set_iff hq (h.found q hq) _ (hother q hq)).2 fun hk => absurd hk (hal q hq)
    · rw [List.mem_singleton.1 hq]
      have hself : find Prod.fst app (s.map.set i (app, raw)) = some i :=
        (@find_set_self AlignedEntry Addr _ Prod.fst s.map i (app, raw) hlt).2
          fun g hg => habsent g (List.mem_of_mem_take hg)
      exact hself
  · by_cases hj : j = i
    · exact ⟨r, List.mem_append_right _ (List.mem_singleton_self r), by rw [hj]⟩
    · have he' : s.map[j]? = some e := by
        rw [← he]
        exact (List.getElem?_set_ne (Ne.symm hj)).symm
      obtain ⟨q, hq, hs⟩ := h.covered j e he' hne
      exact ⟨q, List.mem_append_left _ hq, hs⟩
  · rcases List.mem_append.1 hq with hq | hq
    · exact h.aligned q hq
    · rw [List.mem_singleton.1 hq]
      exact ⟨hn, hraw⟩
  · obtain ⟨h0, hb, hfind⟩ := h.plain p hp
    refine ⟨h0, hb, find_eq_none.2 fun e he => ?_⟩
    rcases List.mem_or_eq_of_mem_set he with he | rfl
    · exact find_eq_none.1 hfind e he
    · exact Ne.symm (hpl p hp)
  · have hperm : (s.addAligned i env app raw).blocks.Perm (raw :: s.blocks) := by
      simp only [HeapState.blocks, HeapState.addAligned, List.map_append, List.map_singleton]
      rw [List.append_assoc]
      exact List.perm_middle
    exact hperm.nodup_iff.2 (List.nodup_cons.2 ⟨hnew, h.blocks⟩)

theorem heapKept_alloc {env block : Addr} (h : HeapKept inst base s) (hb : block ≠ null) (hnew : block ∉ s.blocks)
    (h0 : PlainAlloc.app inst base ⟨env, block⟩ ≠ 0)
    (hal : ∀ r ∈ s.aligned, r.app ≠ PlainAlloc.app inst base ⟨env, block⟩) :
    HeapKept inst base { s with plain := s.plain ++ [⟨env, block⟩] } := by
  refine ⟨h.recorded, h.found, h.covered, h.aligned, fun p hp => ?_, ?_⟩
  · rcases List.mem_append.1 hp with hp | hp
    · exact h.plain p hp
    · rw [List.mem_singleton.1 hp]
      exact ⟨h0, hb, (find_app_none h h0).2 hal⟩
  · simp only [HeapState.blocks, List.map_append, List.map_singleton]
    rw [← List.append_assoc]
    refine List.nodup_append.2 ⟨h.blocks, List.nodup_singleton _, fun a ha b hb' => ?_⟩
    rw [List.mem_singleton.1 hb']
    rintro rfl
    exact hnew ha

/-! ## Frees -/

theorem heapKept_freeAligned {i : Nat} {r : AlignedAlloc} (h : HeapKept inst base s) (hr : s.aligned[i]? = some r) :
    HeapKept inst base
      { s with map := (freeApp inst base s.map r.env r.app).1, aligned := s.aligned.eraseIdx i } := by
  have hmem := List.mem_of_getElem? hr
  have hsub : (s.aligned.eraseIdx i).Sublist s.aligned := List.eraseIdx_sublist _ _
  obtain ⟨hn, hraw⟩ := h.aligned r hmem
  obtain ⟨k, hk, he⟩ := h.recorded.at_slot r hmem
  rw [freeApp_some hn hraw ((h.found r hmem).trans hk) he]
  have hgone := h.recorded.slot_ne_dropped hsub hmem (h.recorded.not_mem_eraseIdx hr) hk
  have hrec := h.recorded.sublist hsub
  refine ⟨hrec.set_other _ hgone, fun q hq => ?_, fun j e he hne => ?_, fun q hq => h.aligned q (hsub.subset hq),
    fun p hp => ?_, ?_⟩
  · refine (hrec.find_set_iff hq (h.found q (hsub.subset hq)) _ (hgone q hq)).2 fun hz => ?_
    exact absurd hz (h.aligned q (hsub.subset hq)).1.1
  · rcases getElem?_set_some he with ⟨-, rfl⟩ | ⟨hj, he⟩
    · exact absurd rfl hne
    · obtain ⟨q, hq, hs⟩ := h.covered j e he hne
      refine ⟨q, ?_, hs⟩
      -- the allocation at `i` stands in entry `k`
      have hqr : q ≠ r := by
        rintro rfl
        rw [hk] at hs
        exact hj (Option.some.inj hs).symm
      obtain ⟨hi, rfl⟩ := List.getElem?_eq_some_iff.1 hr
      rw [List.mem_eraseIdx_iff_getElem]
      obtain ⟨m, hm, rfl⟩ := List.getElem_of_mem hq
      exact ⟨m, hm, fun hmi => hqr (by subst hmi; rfl), rfl⟩
  · obtain ⟨h0, hb, hfind⟩ := h.plain p hp
    refine ⟨h0, hb, find_eq_none.2 fun e he => ?_⟩
    rcases List.mem_or_eq_of_mem_set he with he | rfl
    · exact find_eq_none.1 hfind e he
    · exact Ne.symm h0
  · exact ((hsub.map _).append (List.Sublist.refl _)).nodup h.blocks

theorem heapKept_freePlain {i : Nat} {p : PlainAlloc} (h : HeapKept inst base s) (hp : s.plain[i]? = some p) :
    HeapKept inst base
      { s with map := (freeApp inst base s.map p.env (p.app inst base)).1, plain := s.plain.eraseIdx i } := by
  have hsub : (s.plain.eraseIdx i).Sublist s.plain := List.eraseIdx_sublist _ _
  obtain ⟨h0, hb, hfind⟩ := h.plain p (List.mem_of_getElem? hp)
  rw [freeApp_none (nonNull_plain h0 hb) hfind]
  exact ⟨h.recorded, h.found, h.covered, h.aligned, fun q hq => h.plain q (hsub.subset hq),
    ((List.Sublist.refl _).append (hsub.map _)).nodup h.blocks⟩

theorem heapKept_step {a : HeapAction} (h : HeapKept inst base s) (hok : FreshApp inst base s a)
    (ht : heapStep inst base s a = some t) : HeapKept inst base t := by
  cases a with
  | memalign env align native =>
    rcases heapStep_memalign ht with ⟨rfl, -⟩ | ⟨raw, i, rfl, hraw, hnew, hi, rfl⟩
    · exact h
    · obtain ⟨hn, hal, hpl⟩ := hok raw rfl (by rw [hi]; exact Option.some_ne_none i)
      exact heapKept_addAligned h hi hraw hnew hn hal hpl
  | alloc env block =>
    obtain ⟨hb, hnew, rfl⟩ := heapStep_alloc ht
    exact heapKept_alloc h hb hnew hok.1 hok.2
  | freeAligned i =>
    obtain ⟨r, hr, rfl⟩ := Option.map_eq_some_iff.1 ht
    exact heapKept_freeAligned h hr
  | freePlain i =>
    obtain ⟨p, hp, rfl⟩ := Option.map_eq_some_iff.1 ht
    exact heapKept_freePlain h hp

/-! ## Collisions -/

/-- If the frees are paired after an aligned allocation, its app address is null for no one and no
other allocation's: frees of one app address pass the same block on. -/
theorem fresh_of_paired_addAligned {i : Nat} {env app raw : Addr} (h : HeapKept inst base s)
    (hi : find id (0, 0) s.map = some i) (hraw : raw ≠ null) (hnew : raw ∉ s.blocks)
    (hp : Paired inst base (s.addAligned i env app raw)) :
    NonNull inst base env app ∧ (∀ r ∈ s.aligned, r.app ≠ app) ∧ ∀ p ∈ s.plain, p.app inst base ≠ app := by
  have hself : (freeApp inst base (s.map.set i (app, raw)) env app).2 = raw :=
    hp.aligned ⟨env, app, raw, some i⟩ (List.mem_append_right _ (List.mem_singleton_self _))
  have hn : NonNull inst base env app := by
    by_contra hn
    rw [freeApp_null hn] at hself
    exact hraw hself.symm
  obtain ⟨f, hf, -⟩ := find_eq_some.1 hi
  have hlt : i < s.map.length := (List.getElem?_eq_some_iff.1 hf).1
  have hsame : ∀ env', NonNull inst base env' app → (freeApp inst base (s.map.set i (app, raw)) env' app).2 = raw := by
    intro env' hn'
    cases hj : find Prod.fst app (s.map.set i (app, raw)) with
    | none =>
      have hat : (s.map.set i (app, raw))[i]? = some (app, raw) := List.getElem?_set_self hlt
      exact absurd rfl (find_eq_none.1 hj _ (List.mem_of_getElem? hat))
    | some j =>
      obtain ⟨⟨app', raw'⟩, he, rfl, -⟩ := find_eq_some.1 hj
      have hraw' : raw' ≠ null := by
        rcases getElem?_set_some he with ⟨-, hnew⟩ | ⟨-, he⟩
        · exact (Prod.mk.inj hnew).2 ▸ hraw
        · obtain ⟨r, hr, hs⟩ := h.covered j _ he fun hz => hn.1 (congrArg Prod.fst hz)
          obtain ⟨k, hk, he'⟩ := h.recorded.at_slot r hr
          rw [hs] at hk
          cases hk
          rw [he] at he'
          have hrr : raw' = r.raw := congrArg Prod.snd (Option.some.inj he')
          exact hrr ▸ (h.aligned r hr).2
      rw [freeApp_some hn hraw' hj he] at hself
      rw [freeApp_some hn' hraw' hj he]
      exact hself
  refine ⟨hn, fun r hr happ => hnew ?_, fun p hp' happ => hnew ?_⟩
  · have hown := hp.aligned r (List.mem_append_left _ hr)
    rw [happ] at hown
    have hblock : raw = r.raw := (hsame r.env (happ ▸ (h.aligned r hr).1)).symm.trans hown
    rw [hblock]
    exact List.mem_append_left _ (List.mem_map_of_mem hr)
  · obtain ⟨h0, hb, -⟩ := h.plain p hp'
    have hown := hp.plain p hp'
    rw [happ] at hown
    have hblock : raw = p.block := (hsame p.env (happ ▸ nonNull_plain h0 hb)).symm.trans hown
    rw [hblock]
    exact List.mem_append_right _ (List.mem_map_of_mem hp')

theorem fresh_of_paired_alloc {env block : Addr} (h : HeapKept inst base s) (hb : block ≠ null)
    (hnew : block ∉ s.blocks) (hp : Paired inst base { s with plain := s.plain ++ [⟨env, block⟩] }) :
    PlainAlloc.app inst base ⟨env, block⟩ ≠ 0 ∧ ∀ r ∈ s.aligned, r.app ≠ PlainAlloc.app inst base ⟨env, block⟩ := by
  have hself : (freeApp inst base s.map env (PlainAlloc.app inst base ⟨env, block⟩)).2 = block :=
    hp.plain ⟨env, block⟩ (List.mem_append_right _ (List.mem_singleton_self _))
  have h0 : PlainAlloc.app inst base ⟨env, block⟩ ≠ 0 := by
    intro h0
    rw [freeApp_null fun hn => hn.1 h0] at hself
    exact hb hself.symm
  refine ⟨h0, fun r hr happ => hnew ?_⟩
  obtain ⟨k, hk, he⟩ := h.recorded.at_slot r hr
  have hfind : find Prod.fst r.app s.map = some k := (h.found r hr).trans hk
  have hn : NonNull inst base env (PlainAlloc.app inst base ⟨env, block⟩) :=
    nonNull_plain (p := ⟨env, block⟩) h0 hb
  rw [← happ] at hself hn
  rw [freeApp_some hn (h.aligned r hr).2 hfind he] at hself
  have hblock : r.raw = block := hself
  rw [← hblock]
  exact List.mem_append_left _ (List.mem_map_of_mem hr)

/-- An allocation whose app address is not fresh leaves an allocation whose free is misdirected. -/
theorem not_paired_step {a : HeapAction} (h : HeapKept inst base s) (hok : ¬ FreshApp inst base s a)
    (ht : heapStep inst base s a = some t) : ¬ Paired inst base t := by
  intro hp
  cases a with
  | memalign env align native =>
    rcases heapStep_memalign ht with ⟨rfl, hfull⟩ | ⟨raw, i, rfl, hraw, hnew, hi, rfl⟩
    · exact hok fun raw hr hne => absurd (hfull raw hr) hne
    · refine hok fun raw' hr _ => ?_
      cases hr
      exact fresh_of_paired_addAligned h hi hraw hnew hp
  | alloc env block =>
    obtain ⟨hb, hnew, rfl⟩ := heapStep_alloc ht
    exact hok (fresh_of_paired_alloc h hb hnew hp)
  | freeAligned i => exact hok trivial
  | freePlain i => exact hok trivial

/-! ## Pairing -/

/-- Along a run of allocations and frees of any instances every free is paired with its allocation,
exactly when the app address of every allocation is fresh. -/
theorem paired_iff_fresh {n : Nat} {as : List HeapAction}
    (h : exec (heapStep inst base) (HeapState.start n) as = some s) :
    Along (heapStep inst base) (Paired inst base) (HeapState.start n) as ↔
      Meets (heapStep inst base) (FreshApp inst base) (HeapState.start n) as :=
  along_iff_meets (fun _ hk => paired_of_kept hk) (fun _ _ _ hk hok ht => heapKept_step hk hok ht)
    (fun _ _ _ hk hok ht => not_paired_step hk hok ht) (heapKept_start n) h

/-- Each env is its own instance, and instance `n` has its memory at `0x1000 * n`. -/
def heapBase (i : Addr) : Addr := 0x1000 * i

/-- Two instances that are given app addresses `0x510`, `0x520` and `0x304`. -/
def freshRun : List HeapAction :=
  [.memalign 1 16 (.ok 0x1504), .memalign 2 16 (.ok 0x2518), .alloc 2 0x2304, .freeAligned 0, .freePlain 0]

theorem paired_freshRun :
    ∃ s, exec (heapStep id heapBase) (HeapState.start 4) freshRun = some s ∧
      Along (heapStep id heapBase) (Paired id heapBase) (HeapState.start 4) freshRun :=
  ⟨_, rfl, (paired_iff_fresh rfl).2 (by decide)⟩

/-- Two instances that are given the same app address `0x510`. -/
def collidingRun : List HeapAction :=
  [.memalign 1 16 (.ok 0x1504), .memalign 2 16 (.ok 0x2504)]

/-- The second instance's free of its address frees the first one's block. -/
theorem shared_key_misdirected :
    ¬ ∀ (inst base : Addr → Addr) (n : Nat) (as : List HeapAction) (s : HeapState),
      exec (heapStep inst base) (HeapState.start n) as = some s → Paired inst base s := by
  intro h
  have hp := h id heapBase 4 collidingRun _ rfl
  exact absurd (hp.aligned ⟨2, 0x510, 0x2504, some 1⟩ (by decide)) (by decide)

end VelaWasm.LibcBypass
