/-
`scanf_begin` and `scanf_end`, between which the generated wrappers of the scanf family call the native
function. They do not know the format: both walk from the first argument to the first zero word, the second
one over what the scan has stored. Scanning is right exactly when each pointer used stands in front of the
first zero word and what the walks do to the other words, and to the words that the scan stores, comes to
nothing.
-/
import VelaWasm.Dbus.ArgsRoundTrip
import VelaWasm.Wamr
import Mathlib.Algebra.Group.Nat.Defs

namespace VelaWasm.LibcBypass

open VelaWasm.Dbus VelaWasm.InPlace

/-! ## The walks -/

section

variable (W : Wamr) (env : Addr) (toNative : Bool)

/-- `while (*apv != 0)`, over at most `n` words; there is no word behind them. -/
def convPointers : ℕ → Addr → Mem → Option Mem
  | 0, _, _ => none
  | n + 1, apv, m => if m apv = 0 then some m else convPointers n (apv + 4) (translateAt W env toNative apv m)

/-- The words from `p` to the end of the address space. -/
def wordsFrom (p : Addr) : ℕ := (2 ^ 32 - p.toNat) / 4

/-- `scanf_begin` -/
def scanfBegin (ap : Addr) (m : Mem) : Option Mem :=
  if ap = null then some m else convPointers W env true (wordsFrom ap) ap m

/-- `scanf_end` -/
def scanfEnd (ap : Addr) (m : Mem) : Option Mem :=
  if ap = null then some m else convPointers W env false (wordsFrom ap) ap m

end

/-! ## The native scan -/

/-- A store through one of `k` pointers: the word at `offset` from where it points, and what the store makes
of that word, of which it may change a part. -/
structure ScanStore (k : ℕ) where
  arg : Fin k
  offset : Addr
  value : UInt32 → UInt32

/-- The `i`-th word of the area. -/
def argAddr (ap : Addr) (i : ℕ) : Addr := ap + 4 * UInt32.ofNat i

variable {k : ℕ}

/-- The scan fetches its pointers from the area and stores through them. -/
def nativeScan (ap : Addr) (stores : List (ScanStore k)) (m : Mem) : Mem :=
  applyEach (stores.map fun s => (m (argAddr ap s.arg) + s.offset, s.value)) m

/-- A generated wrapper: `scanf_begin`, the native call, `scanf_end`. -/
def glueScanf (W : Wamr) (env ap : Addr) (stores : List (ScanStore k)) (m : Mem) : Option Mem :=
  (scanfBegin W env ap m).bind fun m => scanfEnd W env ap (nativeScan ap stores m)

section

variable (W : Wamr) (env ap : Addr) (stores : List (ScanStore k)) (m : Mem)

/-- The stores where the application wants them, through its own pointers. -/
def destinations : List (Addr × (UInt32 → UInt32)) :=
  stores.map fun s => (translate W env true (m (argAddr ap s.arg)) + s.offset, s.value)

/-- Every store of the scan goes through the application's pointer; in the end the argument words are as
they were, each destination is what the stores make of it and every other word is as it was. -/
def ScansArgumentsOnly : Prop :=
  ∃ begun ended, scanfBegin W env ap m = some begun ∧ scanfEnd W env ap (nativeScan ap stores begun) = some ended ∧
    (∀ s ∈ stores, begun (argAddr ap s.arg) = translate W env true (m (argAddr ap s.arg))) ∧
    (∀ i : Fin k, ended (argAddr ap i) = m (argAddr ap i)) ∧
    ∀ q, ended q = effectAt q (destinations W env ap stores m) (m q)

end

/-! ## The words of a walk -/

/-- The words from `p` on up to the first zero word, which is one of `n`. -/
def nonzeroWords (m : Mem) : ℕ → Addr → Option (List Addr)
  | 0, _ => none
  | n + 1, p => if m p = 0 then some [] else (nonzeroWords m n (p + 4)).map (p :: ·)

/-- The words that a walk over the area at `ap` translates. -/
def walked (m : Mem) (ap : Addr) : Option (List Addr) :=
  if ap = null then some [] else nonzeroWords m (wordsFrom ap) ap

variable {W : Wamr} {env ap : Addr} {toNative : Bool} {m m' : Mem} {n : ℕ} {p : Addr} {l : List Addr}

theorem toNat_add4 (h : p.toNat + 4 * (n + 1) ≤ 2 ^ 32) (hn : 0 < n) : (p + 4).toNat = p.toNat + 4 := by
  have h4 : (4 : UInt32).toNat = 4 := rfl
  rw [UInt32.toNat_add, h4]
  omega

/-- A walk does not come back to the words behind it. -/
theorem le_of_mem_nonzeroWords (hn : p.toNat + 4 * n ≤ 2 ^ 32) (h : nonzeroWords m n p = some l) {q : Addr}
    (hq : q ∈ l) : p.toNat ≤ q.toNat := by
  induction n generalizing p l with
  | zero => cases h
  | succ n ih =>
    rw [nonzeroWords] at h
    split_ifs at h
    · cases h
      cases hq
    · obtain ⟨r, hr, rfl⟩ := Option.map_eq_some_iff.1 h
      rcases List.mem_cons.1 hq with rfl | hq
      · exact Nat.le_refl _
      · cases n with
        | zero => cases hr
        | succ n =>
          have hadd := toNat_add4 hn (Nat.succ_pos n)
          have := ih (by omega) hr hq
          omega

/-- The word at the cursor is not among those still to come. -/
theorem notMem_nonzeroWords (hn : p.toNat + 4 * (n + 1) ≤ 2 ^ 32) (h : nonzeroWords m n (p + 4) = some l) : p ∉ l := by
  intro hp
  cases n with
  | zero => cases h
  | succ n =>
    have hadd := toNat_add4 hn (Nat.succ_pos n)
    have := le_of_mem_nonzeroWords (by omega) h hp
    omega

theorem nodup_nonzeroWords (hn : p.toNat + 4 * n ≤ 2 ^ 32) (h : nonzeroWords m n p = some l) : l.Nodup := by
  induction n generalizing p l with
  | zero => cases h
  | succ n ih =>
    rw [nonzeroWords] at h
    split_ifs at h
    · cases h
      exact List.nodup_nil
    · obtain ⟨r, hr, rfl⟩ := Option.map_eq_some_iff.1 h
      refine List.nodup_cons.2 ⟨notMem_nonzeroWords hn hr, ?_⟩
      cases n with
      | zero => cases hr
      | succ n =>
        have hadd := toNat_add4 hn (Nat.succ_pos n)
        exact ih (by omega) hr

/-- A walk reads each word before it has changed it. -/
theorem nonzeroWords_congr (h : ∀ q, p.toNat ≤ q.toNat → m' q = m q) (hn : p.toNat + 4 * n ≤ 2 ^ 32) :
    nonzeroWords m' n p = nonzeroWords m n p := by
  induction n generalizing p with
  | zero => rfl
  | succ n ih =>
    rw [nonzeroWords, nonzeroWords, h p (Nat.le_refl _)]
    cases n with
    | zero => rfl
    | succ n =>
      have hadd := toNat_add4 hn (Nat.succ_pos n)
      rw [ih (fun q hq => h q (by omega)) (by omega)]

theorem convPointers_eq (hn : p.toNat + 4 * n ≤ 2 ^ 32) : convPointers W env toNative n p m =
    (nonzeroWords m n p).map fun l => applyAll (translate W env toNative) l m := by
  induction n generalizing p m with
  | zero => rfl
  | succ n ih =>
    rw [convPointers, nonzeroWords]
    split_ifs with hz
    · rfl
    · cases n with
      | zero => rfl
      | succ n =>
        have hadd := toNat_add4 hn (Nat.succ_pos n)
        have hkeep : ∀ q : Addr, (p + 4).toNat ≤ q.toNat → translateAt W env toNative p m q = m q := by
          intro q hq
          refine translateAt_of_ne fun h => ?_
          rw [h] at hq
          omega
        rw [ih (by omega), nonzeroWords_congr hkeep (by omega), Option.map_map]
        rfl

theorem wordsFrom_le (p : Addr) : p.toNat + 4 * wordsFrom p ≤ 2 ^ 32 := by
  have := p.toNat_lt
  unfold wordsFrom
  omega

theorem nodup_walked (h : walked m ap = some l) : l.Nodup := by
  unfold walked at h
  split_ifs at h
  · cases h
    exact List.nodup_nil
  · exact nodup_nonzeroWords (wordsFrom_le ap) h

theorem scanfBegin_eq :
    scanfBegin W env ap m = (walked m ap).map fun l => applyAll (translate W env true) l m := by
  unfold scanfBegin walked
  split_ifs
  · rfl
  · exact convPointers_eq (wordsFrom_le ap)

theorem scanfEnd_eq : scanfEnd W env ap m = (walked m ap).map fun l => applyAll (translate W env false) l m := by
  unfold scanfEnd walked
  split_ifs
  · rfl
  · exact convPointers_eq (wordsFrom_le ap)

/-! ## When scanning is right -/

section

variable (W : Wamr) (env ap : Addr) (stores : List (ScanStore k)) (m : Mem)

/-- The scan's stores to `q`. -/
def storedAt (q : Addr) : UInt32 → UInt32 := effectAt q (destinations W env ap stores m)

/-- The words in front of the first zero word, `begun`, and those in front of the first zero word of the
memory with these translated and the stores made, `ended`, are such that all three changes of a word come to
what the stores alone make of it. -/
structure Undisturbed (begun ended : List Addr) : Prop where
  begins : walked m ap = some begun
  ends : walked (fun q => storedAt W env ap stores m q (if q ∈ begun then translate W env true (m q) else m q)) ap =
    some ended
  pointers : ∀ s ∈ stores, argAddr ap s.arg ∈ begun ∨
    translate W env true (m (argAddr ap s.arg)) = m (argAddr ap s.arg)
  args : ∀ i : Fin k, storedAt W env ap stores m (argAddr ap i) (m (argAddr ap i)) = m (argAddr ap i)
  both : ∀ q ∈ begun, q ∈ ended → q ∈ (destinations W env ap stores m).map Prod.fst →
    translate W env false (storedAt W env ap stores m q (translate W env true (m q))) =
      storedAt W env ap stores m q (m q)
  begunOnly : ∀ q ∈ begun, q ∉ ended →
    storedAt W env ap stores m q (translate W env true (m q)) = storedAt W env ap stores m q (m q)
  endedOnly : ∀ q ∈ ended, q ∉ begun →
    translate W env false (storedAt W env ap stores m q (m q)) = storedAt W env ap stores m q (m q)

end

variable {stores : List (ScanStore k)} {begun ended : List Addr}

/-- With the pointers translated the scan's stores go to the destinations. -/
theorem nativeScan_apply (hm : ∀ s ∈ stores, m' (argAddr ap s.arg) = translate W env true (m (argAddr ap s.arg)))
    (q : Addr) : nativeScan ap stores m' q = storedAt W env ap stores m q (m' q) := by
  have hdest : (stores.map fun s => (m' (argAddr ap s.arg) + s.offset, s.value)) = destinations W env ap stores m :=
    List.map_congr_left fun s hs => by rw [hm s hs]
  unfold nativeScan storedAt
  rw [hdest, applyEach_apply]

/-- A word that no store goes to. -/
theorem storedAt_of_notMem {q : Addr} (h : q ∉ (destinations W env ap stores m).map Prod.fst) (v : UInt32) :
    storedAt W env ap stores m q v = v := effectAt_of_notMem h v

/-- Translating, storing and translating back comes to storing at every word, when it does at the words where
something can go wrong. -/
theorem restored_iff (hinv : Function.LeftInverse (translate W env false) (translate W env true)) (q : Addr) :
    (if q ∈ ended then
        translate W env false (storedAt W env ap stores m q (if q ∈ begun then translate W env true (m q) else m q))
      else storedAt W env ap stores m q (if q ∈ begun then translate W env true (m q) else m q)) =
        storedAt W env ap stores m q (m q) ↔
      (q ∈ begun → q ∈ ended → q ∈ (destinations W env ap stores m).map Prod.fst →
        translate W env false (storedAt W env ap stores m q (translate W env true (m q))) =
          storedAt W env ap stores m q (m q)) ∧
      (q ∈ begun → q ∉ ended →
        storedAt W env ap stores m q (translate W env true (m q)) = storedAt W env ap stores m q (m q)) ∧
      (q ∈ ended → q ∉ begun →
        translate W env false (storedAt W env ap stores m q (m q)) = storedAt W env ap stores m q (m q)) := by
  by_cases hb : q ∈ begun
  · by_cases he : q ∈ ended
    · simp only [hb, he, if_true, forall_const, not_true, false_implies, and_true]
      refine ⟨fun h _ => h, fun h => ?_⟩
      by_cases hd : q ∈ (destinations W env ap stores m).map Prod.fst
      · exact h hd
      · rw [storedAt_of_notMem hd, storedAt_of_notMem hd]
        exact hinv (m q)
    · simp [hb, he]
  · simp [hb]

/-- The memory that the scan leaves when its pointers are translated. -/
theorem nativeScan_begun (hw : walked m ap = some begun)
    (hp : ∀ s ∈ stores, applyAll (translate W env true) begun m (argAddr ap s.arg) =
      translate W env true (m (argAddr ap s.arg))) :
    nativeScan ap stores (applyAll (translate W env true) begun m) =
      fun q => storedAt W env ap stores m q (if q ∈ begun then translate W env true (m q) else m q) := by
  funext q
  rw [nativeScan_apply hp, applyAll_of_nodup (nodup_walked hw)]

/-- Scanning is right exactly when the walks leave the scan's stores, and everything else, undisturbed. -/
theorem scansArgumentsOnly_iff (hinv : Function.LeftInverse (translate W env false) (translate W env true)) :
    ScansArgumentsOnly W env ap stores m ↔ ∃ begun ended, Undisturbed W env ap stores m begun ended := by
  constructor
  · rintro ⟨b, e, hb, he, hp, hargs, hall⟩
    rw [scanfBegin_eq] at hb
    obtain ⟨begun, hbegin, rfl⟩ := Option.map_eq_some_iff.1 hb
    rw [nativeScan_begun hbegin hp, scanfEnd_eq] at he
    obtain ⟨ended, hend, rfl⟩ := Option.map_eq_some_iff.1 he
    have hword : ∀ q, _ := fun q =>
      (restored_iff hinv q).1 ((applyAll_of_nodup (nodup_walked hend) q).symm.trans (hall q))
    refine ⟨begun, ended, hbegin, hend, fun s hs => ?_, fun i => ?_, fun q => (hword q).1, fun q => (hword q).2.1,
      fun q => (hword q).2.2⟩
    · have h := hp s hs
      rw [applyAll_of_nodup (nodup_walked hbegin)] at h
      by_cases hmem : argAddr ap s.arg ∈ begun
      · exact .inl hmem
      · rw [if_neg hmem] at h
        exact .inr h.symm
    · exact (hall _).symm.trans (hargs i)
  · rintro ⟨begun, ended, h⟩
    have hp : ∀ s ∈ stores, applyAll (translate W env true) begun m (argAddr ap s.arg) =
        translate W env true (m (argAddr ap s.arg)) := by
      intro s hs
      rw [applyAll_of_nodup (nodup_walked h.begins)]
      split_ifs with hmem
      · rfl
      · exact ((h.pointers s hs).resolve_left hmem).symm
    have hall : ∀ q, applyAll (translate W env false) ended
        (nativeScan ap stores (applyAll (translate W env true) begun m)) q = storedAt W env ap stores m q (m q) := by
      intro q
      rw [nativeScan_begun h.begins hp, applyAll_of_nodup (nodup_walked h.ends)]
      exact (restored_iff hinv q).2 ⟨h.both q, h.begunOnly q, h.endedOnly q⟩
    refine ⟨_, _, ?_, ?_, hp, fun i => (hall _).trans (h.args i), hall⟩
    · rw [scanfBegin_eq, h.begins]
      rfl
    · rw [scanfEnd_eq, nativeScan_begun h.begins hp, h.ends]
      rfl

theorem argAddr_succ (p : Addr) (i : ℕ) : argAddr p (i + 1) = argAddr (p + 4) i := by
  unfold argAddr
  rw [UInt32.ofNat_add, UInt32.mul_add, UInt32.add_comm (4 * UInt32.ofNat i), ← UInt32.add_assoc]
  rfl

/-- A walk over other words ends at the same zero word. -/
theorem nonzeroWords_of_zero (h : nonzeroWords m n p = some l) (hne : ∀ q ∈ l, m' q ≠ 0)
    (hz : m' (argAddr p l.length) = 0) : nonzeroWords m' n p = some l := by
  induction n generalizing p l with
  | zero => cases h
  | succ n ih =>
    rw [nonzeroWords] at h ⊢
    split_ifs at h with hp
    · cases h
      have hp0 : argAddr p 0 = p := by
        unfold argAddr
        simp
      rw [List.length_nil, hp0] at hz
      rw [if_pos hz]
    · obtain ⟨r, hr, rfl⟩ := Option.map_eq_some_iff.1 h
      rw [if_neg (hne p List.mem_cons_self)]
      rw [List.length_cons, argAddr_succ] at hz
      rw [ih hr (fun q hq => hne q (List.mem_cons_of_mem _ hq)) hz]
      rfl

theorem nonzeroWords_ne_zero (h : nonzeroWords m n p = some l) {q : Addr} (hq : q ∈ l) : m q ≠ 0 := by
  induction n generalizing p l with
  | zero => cases h
  | succ n ih =>
    rw [nonzeroWords] at h
    split_ifs at h with hp
    · cases h
      cases hq
    · obtain ⟨r, hr, rfl⟩ := Option.map_eq_some_iff.1 h
      rcases List.mem_cons.1 hq with rfl | hq
      · exact hp
      · exact ih hr hq

theorem nonzeroWords_end (h : nonzeroWords m n p = some l) : m (argAddr p l.length) = 0 := by
  induction n generalizing p l with
  | zero => cases h
  | succ n ih =>
    rw [nonzeroWords] at h
    split_ifs at h with hp
    · cases h
      simpa [argAddr] using hp
    · obtain ⟨r, hr, rfl⟩ := Option.map_eq_some_iff.1 h
      rw [List.length_cons, argAddr_succ]
      exact ih hr

/-- Scanning is right when every pointer is in front of the first zero word and no store goes to a word up to
there. -/
theorem undisturbed_of_apart (hz : ∀ w, translate W env true w = 0 → w = 0) (hbegin : walked m ap = some begun)
    (hp : ∀ i : Fin k, argAddr ap i ∈ begun)
    (hd : ∀ q, q ∈ begun ∨ q = argAddr ap begun.length → q ∉ (destinations W env ap stores m).map Prod.fst) :
    Undisturbed W env ap stores m begun begun where
  begins := hbegin
  ends := by
    unfold walked at hbegin ⊢
    split_ifs at hbegin ⊢
    · exact hbegin
    · refine nonzeroWords_of_zero hbegin (fun q hq => ?_) ?_
      · rw [storedAt_of_notMem (hd q (.inl hq)), if_pos hq]
        exact fun h => nonzeroWords_ne_zero hbegin hq (hz _ h)
      · have h0 := nonzeroWords_end hbegin
        have hn : argAddr ap begun.length ∉ begun := fun h => nonzeroWords_ne_zero hbegin h h0
        rw [storedAt_of_notMem (hd _ (.inr rfl)), if_neg hn, h0]
  pointers s _ := .inl (hp s.arg)
  args i := storedAt_of_notMem (hd _ (.inl (hp i))) _
  both q hq _ hm := absurd hm (hd q (.inl hq))
  begunOnly _ hq hn := absurd hq hn
  endedOnly _ hq hn := absurd hq hn

/-- Two arguments at 0x2000 and the zero word behind them; their variables are elsewhere. -/
def twoVariablesMem : Mem := Function.update (Function.update (fun _ => 0) 0x2000 0x2100) 0x2004 0x2104

/-- A number for the first variable and a character for the second. -/
def twoVariablesStores : List (ScanStore 2) := [⟨0, 0, fun _ => 5⟩, ⟨1, 0, fun w => w &&& 0xffffff00 ||| 0x41⟩]

theorem scansArgumentsOnly_twoVariables :
    ScansArgumentsOnly (nullWamr 0x1000) 1 0x2000 twoVariablesStores twoVariablesMem := by
  refine (scansArgumentsOnly_iff (nullWamr_leftInverse (by decide) 1)).2 ⟨[0x2000, 0x2004], [0x2000, 0x2004], ?_⟩
  refine undisturbed_of_apart (fun w h => ?_) rfl (by decide) (fun q hq => ?_)
  · have hw := @nullWamr_leftInverse 0x1000 (by decide) 1 w
    rw [h] at hw
    exact hw.symm
  · simp only [List.mem_cons, List.not_mem_nil, or_false] at hq
    rcases hq with (rfl | rfl) | rfl <;> decide

/-- One argument with its variable right behind it. -/
def adjacentMem : Mem := Function.update (fun _ => 0) 0x2000 0x1004

/-- The scan stores 5 to the variable, which was 0; `scanf_end` then takes it for an argument. -/
theorem adjacent_not_scansArgumentsOnly :
    ¬ ∀ (W : Wamr) (env ap : Addr) (k : ℕ) (stores : List (ScanStore k)) (m : Mem),
      Function.LeftInverse (translate W env false) (translate W env true) →
      Function.RightInverse (translate W env false) (translate W env true) →
      translate W env true null = null → translate W env false null = null →
      ScansArgumentsOnly W env ap stores m := by
  intro h
  obtain ⟨b, e, hb, he, -, -, hall⟩ := h (nullWamr 0x1000) 1 0x2000 1 [⟨0, 0, fun _ => 5⟩] adjacentMem
    (nullWamr_leftInverse (by decide) 1) (nullWamr_rightInverse (by decide) 1) (by decide) (by decide)
  have hbegin : walked adjacentMem 0x2000 = some [0x2000] := rfl
  rw [scanfBegin_eq, hbegin] at hb
  cases hb
  rw [scanfEnd_eq] at he
  have hend : walked (nativeScan (k := 1) 0x2000 [⟨0, 0, fun _ => 5⟩]
      (applyAll (translate (nullWamr 0x1000) 1 true) [0x2000] adjacentMem)) 0x2000 = some [0x2000, 0x2004] := rfl
  rw [hend] at he
  cases he
  have := hall 0x2004
  revert this
  decide

end VelaWasm.LibcBypass
