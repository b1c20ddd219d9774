/-
`glue_wapi_scan_coll` and `glue_wapi_scan_coll_free`, which translate the links of a list of scan results in
place: to native addresses, and back after the scan. The first keeps every list. The second stores the cursor
of its walk as the new head, and so hands over the last node alone.
-/
import VelaWasm.Dbus.ArgsRoundTrip
import VelaWasm.Lib.Chain
import VelaWasm.Wamr

namespace VelaWasm.Wapi

open VelaWasm.Chain VelaWasm.Dbus

/-! ## The wrappers -/

/-- A `wapi_list_s` with its `head.scan`, and the `next` fields of the `wapi_scan_info_s`. -/
structure ScanList where
  head : Addr
  next : Addr → Addr

/-- What a call does: the list that the native function is given, if it is called, and the list in the end. -/
structure ScanCall where
  ret : UInt32
  given : Option ScanList
  list : ScanList

def efault : UInt32 := 14

section

variable (W : Wamr) (env : Addr)

/-- The loop that translates the links to native addresses: where its cursor stops, and the links. At the last
node `glue_wapi_scan_coll` stores the null that is there already. -/
def toNativeLoop : ℕ → Addr → (Addr → Addr) → Option (Addr × (Addr → Addr))
  | 0, _, _ => none
  | n + 1, info, next =>
    if info = null then some (info, next)
    else if next info ≠ null then
      toNativeLoop n (translate W env true (next info))
        (Function.update next info (translate W env true (next info)))
    else some (info, next)

/-- The loop that translates the links back. -/
def toAppLoop : ℕ → Addr → (Addr → Addr) → Option (Addr → Addr)
  | 0, _, _ => none
  | n + 1, info, next =>
    if info = null then some next
    else if next info ≠ null then
      toAppLoop n (next info) (Function.update next info (translate W env false (next info)))
    else some next

/-- `glue_wapi_scan_coll`, with the native function `wapiScanColl`, given the interface's name and the list. -/
def glueWapiScanColl (wapiScanColl : Addr → ScanList → UInt32 × ScanList) (fuel : ℕ) (parm2 parm3 : Addr)
    (list : ScanList) : Option ScanCall :=
  let addrApp := translate W env true null
  let parm2 := if parm2 = addrApp then null else parm2
  if parm3 = addrApp then some ⟨-efault, none, list⟩
  else
    let head := translate W env true list.head
    (toNativeLoop W env fuel head list.next).bind fun (_, next) =>
      let given := ⟨head, next⟩
      let (ret, list) := wapiScanColl parm2 given
      (toAppLoop W env fuel list.head list.next).map fun next =>
        ⟨ret, some given, translate W env false list.head, next⟩

/-- `glue_wapi_scan_coll_free`, with the native function `wapiScanCollFree`. -/
def glueWapiScanCollFree (wapiScanCollFree : ScanList → ScanList) (fuel : ℕ) (parm1 : Addr) (list : ScanList) :
    Option ScanCall :=
  let addrApp := translate W env true null
  if parm1 = addrApp then some ⟨0, none, list⟩
  else
    (toNativeLoop W env fuel (translate W env true list.head) list.next).map fun (info, next) =>
      let given := ⟨info, next⟩
      ⟨0, some given, { wapiScanCollFree given with head := null }⟩

/-! ## Lists -/

/-- A list of the nodes, linked by native addresses. -/
def ScanList.Native (list : ScanList) (nodes : List Addr) : Prop := Linked null list.next list.head nodes

/-- A list of the nodes, linked by the addresses that the application has for them. -/
def ScanList.App (list : ScanList) (nodes : List Addr) : Prop :=
  Linked null (fun a => translate W env true (list.next a)) (translate W env true list.head) nodes

instance (list : ScanList) (nodes : List Addr) : Decidable (list.Native nodes) :=
  inferInstanceAs (Decidable (Linked _ _ _ _))

instance (list : ScanList) (nodes : List Addr) : Decidable (list.App W env nodes) :=
  inferInstanceAs (Decidable (Linked _ _ _ _))

/-- The scan is given the application's list; its own list is left to the application, which passes it on to be
freed: `wapi_scan_coll_free` is given a list of all the nodes. -/
def ListKept (wapiScanColl : Addr → ScanList → UInt32 × ScanList) (wapiScanCollFree : ScanList → ScanList)
    (parm2 parm3 : Addr) (list : ScanList) (nodes result : List Addr) : Prop :=
  ∃ fuel coll given free passed freed, glueWapiScanColl W env wapiScanColl fuel parm2 parm3 list = some coll ∧
    coll.given = some given ∧ given.Native nodes ∧ coll.list.App W env result ∧
    glueWapiScanCollFree W env wapiScanCollFree fuel parm3 coll.list = some free ∧
    free.given = some passed ∧ passed.Native freed ∧ freed.Perm result

end

/-! ## The loops -/

variable {W : Wamr} {env : Addr} {next : Addr → Addr} {p a : Addr} {l : List Addr} {n : ℕ}

/-- The translations are each other's inverse, and null is null on both sides. -/
structure Inverse (W : Wamr) (env : Addr) : Prop where
  left : Function.LeftInverse (translate W env false) (translate W env true)
  right : Function.RightInverse (translate W env false) (translate W env true)
  nullNative : translate W env true null = null

theorem Inverse.native_eq_null_iff (hW : Inverse W env) : translate W env true a = null ↔ a = null := by
  constructor
  · intro h
    exact hW.left.injective (h.trans hW.nullNative.symm)
  · rintro rfl
    exact hW.nullNative

/-- The loop translates the links of the list, and its cursor stops at the last node. -/
theorem toNativeLoop_linked (hW : Inverse W env) (h : Linked null (fun a => translate W env true (next a)) p l)
    (hn : l.length < n) : ∃ next', toNativeLoop W env n p next = some (l.getLastD null, next') ∧
      Linked null next' p l ∧ ∀ q ∉ l, next' q = next q := by
  induction l generalizing p next n with
  | nil =>
    obtain ⟨n, rfl⟩ := Nat.exists_eq_succ_of_ne_zero (Nat.ne_zero_of_lt hn)
    have hp : p = null := h
    exact ⟨next, by simp [toNativeLoop, hp], hp, fun _ _ => rfl⟩
  | cons a l ih =>
    obtain ⟨n, rfl⟩ := Nat.exists_eq_succ_of_ne_zero (Nat.ne_zero_of_lt hn)
    have ha := h.notMem_tail
    have hl := h.tail
    obtain ⟨rfl, hp, -⟩ := h
    rw [toNativeLoop, if_neg hp]
    by_cases hnext : next p = null
    · have hnil : l = [] := hl.eq_nil_iff.2 (hW.native_eq_null_iff.2 hnext)
      subst hnil
      exact ⟨next, by simp [hnext], ⟨rfl, hp, hnext⟩, fun _ _ => rfl⟩
    · rw [if_pos hnext]
      have hl' : Linked null (fun b => translate W env true (Function.update next p (translate W env true (next p)) b))
          (translate W env true (next p)) l := by
        refine hl.congr fun b hb => ?_
        rw [Function.update_of_ne (ne_of_mem_of_not_mem hb ha)]
      obtain ⟨next', hloop, hlink, hkeep⟩ := ih hl' (Nat.lt_of_succ_lt_succ hn)
      have hp' : next' p = translate W env true (next p) := (hkeep p ha).trans (Function.update_self _ _ _)
      refine ⟨next', ?_, ⟨rfl, hp, ?_⟩, fun q hq => ?_⟩
      · have hne : l ≠ [] := fun h => hnext (hW.native_eq_null_iff.1 (hl.eq_nil_iff.1 h))
        rw [hloop, getLastD_cons_of_ne_nil hne]
      · rw [hp']
        exact hlink
      · rw [List.mem_cons, not_or] at hq
        rw [hkeep q hq.2, Function.update_of_ne hq.1]

/-- The loop translates the links back. -/
theorem toAppLoop_linked (hW : Inverse W env) (h : Linked null next p l) (hn : l.length < n) :
    ∃ next', toAppLoop W env n p next = some next' ∧
      Linked null (fun a => translate W env true (next' a)) p l ∧ ∀ q ∉ l, next' q = next q := by
  induction l generalizing p next n with
  | nil =>
    obtain ⟨n, rfl⟩ := Nat.exists_eq_succ_of_ne_zero (Nat.ne_zero_of_lt hn)
    have hp : p = null := h
    exact ⟨next, by simp [toAppLoop, hp], hp, fun _ _ => rfl⟩
  | cons a l ih =>
    obtain ⟨n, rfl⟩ := Nat.exists_eq_succ_of_ne_zero (Nat.ne_zero_of_lt hn)
    have ha := h.notMem_tail
    have hl := h.tail
    obtain ⟨rfl, hp, -⟩ := h
    rw [toAppLoop, if_neg hp]
    by_cases hnext : next p = null
    · have hnil : l = [] := hl.eq_nil_iff.2 hnext
      subst hnil
      exact ⟨next, by simp [hnext], ⟨rfl, hp, hW.native_eq_null_iff.2 hnext⟩, fun _ _ => rfl⟩
    · rw [if_pos hnext]
      have hl' : Linked null (Function.update next p (translate W env false (next p))) (next p) l :=
        hl.congr fun b hb => Function.update_of_ne (ne_of_mem_of_not_mem hb ha) _ _
      obtain ⟨next', hloop, hlink, hkeep⟩ := ih hl' (Nat.lt_of_succ_lt_succ hn)
      have hp' : next' p = translate W env false (next p) := (hkeep p ha).trans (Function.update_self _ _ _)
      refine ⟨next', hloop, ⟨rfl, hp, ?_⟩, fun q hq => ?_⟩
      · show Linked null _ (translate W env true (next' p)) l
        rw [hp', hW.right]
        exact hlink
      · rw [List.mem_cons, not_or] at hq
        rw [hkeep q hq.2, Function.update_of_ne hq.1]

/-- More fuel does not change where a loop ends. -/
theorem toNativeLoop_mono {n m : ℕ} {r r' : Addr × (Addr → Addr)} (h : toNativeLoop W env n p next = some r)
    (h' : toNativeLoop W env m p next = some r') : r = r' := by
  induction n generalizing m p next with
  | zero => cases h
  | succ n ih =>
    cases m with
    | zero => cases h'
    | succ m =>
      rw [toNativeLoop] at h h'
      split_ifs at h h'
      · exact Option.some.inj (h.symm.trans h')
      · exact ih h h'
      · exact Option.some.inj (h.symm.trans h')

/-! ## The wrappers -/

section

variable {scanColl : Addr → ScanList → UInt32 × ScanList} {collFree : ScanList → ScanList} {parm2 parm3 : Addr}
  {list : ScanList} {nodes result : List Addr}

/-- The scan is given the list, and leaves its own to the application. -/
theorem glueWapiScanColl_app (hW : Inverse W env) (hp : parm3 ≠ null) (h : list.App W env nodes)
    (hcoll : ∀ name given, given.Native nodes → (scanColl name given).2.Native result) {fuel : ℕ}
    (hn : nodes.length < fuel) (hr : result.length < fuel) :
    ∃ coll given, glueWapiScanColl W env scanColl fuel parm2 parm3 list = some coll ∧ coll.given = some given ∧
      given.Native nodes ∧ coll.list.App W env result := by
  obtain ⟨next, hbegin, hnative, -⟩ := toNativeLoop_linked hW h hn
  have hres := hcoll (if parm2 = null then null else parm2) ⟨translate W env true list.head, next⟩ hnative
  generalize hscan : scanColl (if parm2 = null then null else parm2) ⟨translate W env true list.head, next⟩ = r at hres
  obtain ⟨next', hend, happ, -⟩ := toAppLoop_linked hW hres hr
  refine ⟨⟨r.1, some ⟨translate W env true list.head, next⟩, ⟨translate W env false r.2.head, next'⟩⟩,
    ⟨translate W env true list.head, next⟩, ?_, rfl, hnative, ?_⟩
  · unfold glueWapiScanColl
    simp only [hW.nullNative, if_neg hp, hbegin, Option.bind_some, hscan, hend, Option.map_some]
  · show Linked null _ (translate W env true (translate W env false r.2.head)) result
    rw [hW.right]
    exact happ

/-- The list is freed from its last node on. -/
theorem glueWapiScanCollFree_app (hW : Inverse W env) (hp : parm3 ≠ null) (h : list.App W env result) {fuel : ℕ}
    (hr : result.length < fuel) :
    ∃ free passed, glueWapiScanCollFree W env collFree fuel parm3 list = some free ∧ free.given = some passed ∧
      passed.Native (result.drop (result.length - 1)) := by
  obtain ⟨next, hloop, hnative, -⟩ := toNativeLoop_linked hW h hr
  refine ⟨⟨0, some ⟨result.getLastD null, next⟩, { collFree ⟨result.getLastD null, next⟩ with head := null }⟩,
    ⟨result.getLastD null, next⟩, ?_, rfl, hnative.last⟩
  unfold glueWapiScanCollFree
  simp only [hW.nullNative, if_neg hp, hloop, Option.map_some]

/-- Of a list that is kept, the last node is the first. -/
theorem ListKept.length_le (hW : Inverse W env) (hp : parm3 ≠ null)
    (h : ListKept W env scanColl collFree parm2 parm3 list nodes result) : result.length ≤ 1 := by
  obtain ⟨fuel, coll, given, free, passed, freed, -, -, -, happ, hfree, hpassed, hfreed, hperm⟩ := h
  obtain ⟨next, hloop, hnative, -⟩ := toNativeLoop_linked hW happ (Nat.lt_succ_self _)
  unfold glueWapiScanCollFree at hfree
  simp only [hW.nullNative, if_neg hp] at hfree
  obtain ⟨r, hr, rfl⟩ := Option.map_eq_some_iff.1 hfree
  cases toNativeLoop_mono hr hloop
  cases hpassed
  have hlen := hperm.length_eq
  rw [Linked.unique hfreed hnative.last, List.length_drop] at hlen
  omega

/-- The lists are kept exactly when the resulting one has at most one node. -/
theorem listKept_iff (hW : Inverse W env) (hp : parm3 ≠ null) (h : list.App W env nodes)
    (hcoll : ∀ name given, given.Native nodes → (scanColl name given).2.Native result) :
    ListKept W env scanColl collFree parm2 parm3 list nodes result ↔ result.length ≤ 1 := by
  refine ⟨ListKept.length_le hW hp, fun hle => ?_⟩
  have hn : nodes.length < nodes.length + result.length + 1 := by omega
  have hr : result.length < nodes.length + result.length + 1 := by omega
  obtain ⟨coll, given, hcall, hgiven, hnative, happ⟩ := glueWapiScanColl_app hW hp h hcoll hn hr
  obtain ⟨free, passed, hfree, hpassed, hfreed⟩ := glueWapiScanCollFree_app hW hp happ hr
  refine ⟨_, coll, given, free, passed, _, hcall, hgiven, hnative, happ, hfree, hpassed, hfreed, ?_⟩
  rw [Nat.sub_eq_zero_of_le hle, List.drop_zero]

end

/-- An empty list of the application. -/
def emptyScanList : ScanList := ⟨null, fun _ => null⟩

/-- A native list of the nodes. -/
def linkedScanList (nodes : List Addr) : ScanList :=
  ⟨nodes.headD null, fun a => ((nodes.zip nodes.tail).lookup a).getD null⟩

theorem nullWamr_inverse : Inverse (nullWamr 0x1000) 1 where
  left := nullWamr_leftInverse (by decide) 1
  right := nullWamr_rightInverse (by decide) 1
  nullNative := by decide

theorem listKept_oneNode : ListKept (nullWamr 0x1000) 1 (fun _ _ => (0, linkedScanList [0x2000])) id 0x3000 0x4000
    emptyScanList [] [0x2000] :=
  (listKept_iff nullWamr_inverse (by decide) (by decide) fun _ _ _ => by decide).2 (by decide)

/-- Of two nodes the first is not freed. -/
theorem twoNodes_not_listKept :
    ¬ ∀ (W : Wamr) (env : Addr) (scanColl : Addr → ScanList → UInt32 × ScanList) (collFree : ScanList → ScanList)
      (parm2 parm3 : Addr) (list : ScanList) (nodes result : List Addr), Inverse W env → parm3 ≠ null →
      list.App W env nodes → (∀ name given, given.Native nodes → (scanColl name given).2.Native result) →
      ListKept W env scanColl collFree parm2 parm3 list nodes result := by
  intro h
  have hkept := h (nullWamr 0x1000) 1 (fun _ _ => (0, linkedScanList [0x2000, 0x3000])) id 0x3000 0x4000
    emptyScanList [] [0x2000, 0x3000] nullWamr_inverse (by decide) (by decide) fun _ _ _ => by decide
  have hle := ListKept.length_le nullWamr_inverse (by decide) hkept
  simp at hle

end VelaWasm.Wapi
