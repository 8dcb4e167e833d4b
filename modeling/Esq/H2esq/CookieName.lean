import Esq.H2esq.Cookie
import Esq.Infra.CircleOrder

/-!
# cookie の名前

`h2esq_rbtree_cmp_name` は、`unsigned long` の hash の差を `int` に切り詰めて返す。hash は `int` の範囲を越えて
広がるので、差の符号が順序になるのは、hash が円周の半分に収まる名前の集まりに限る。

順序になる間は名前の木も並んでいるので、保存した名前は、初めて保存した値と共に必ず見つかる
（`cookie_lookup_iff`）。順序にならないと、保存した名前が見つからなくなることがある
（`cookie_lost_at_half`）。
-/

namespace Esq

open Infra

/-! ## 比較 -/

/-- **比較は、hash、長さ、文字列の順に見る。** -/
theorem cookieNameCmp_eq_lexCmp : cookieNameCmp =
    lexCmp cookieNameHash (fun x y => toInt32 (x - y))
      (lexCmp List.length (fun x y => (x : Int) - y)
        fun a b => strcmp (.ofBytes a) (.ofBytes b)) := rfl

/-- **比較が順序になるのは、hash が円周の半分に収まるときである。** -/
theorem orderedOn_cookieNameCmp_iff (S : List (List UInt8)) :
    OrderedOn cookieNameCmp S ↔ InArc (S.map cookieNameHash) := by
  rw [cookieNameCmp_eq_lexCmp]
  exact orderedOn_hash_length_iff (fun _ _ => cookieNameHash_diff_eq_zero)
    (orderedOn_memcmp fun a => (CStr.ofBytes a).bytes ++ [0]) S

theorem cookieKeyOf_eq_bytes {l : List UInt8} {name : CStr} :
    cookieKeyOf l = cookieKeyOf name.bytes ↔ l = name.bytes := by
  constructor
  · intro h
    have hlen : l.length = name.bytes.length := congrArg CookieKey.nameLen h
    have hname : CStr.ofBytes l = name := (congrArg CookieKey.name h).trans (ofBytes_bytes name)
    have hcut : cstring l = name.bytes := congrArg CStr.bytes hname
    have hstart : cstring l <+: l := List.takeWhile_prefix _
    rw [hcut] at hstart
    exact (hstart.eq_of_length hlen.symm).symm
  · rintro rfl
    rfl

/-! ## 保存した cookie -/

/-- 保存した名前と値を、順に並べる。同じ名前は何度も並ぶ。 -/
def savedCookies (calls : List CookieCall) : List (List UInt8 × List UInt8) :=
  calls.filterMap CookieCall.saved

def firstValue (calls : List CookieCall) (name : CStr) : Option CStr :=
  ((savedCookies calls).find? fun c => c.1 = name.bytes).map fun c => .ofBytes c.2

/-- 名前の木には、保存した名前が一つずつ、初めて保存した値と共に並ぶ。 -/
structure CookieNames (cs : List (List UInt8 × List UInt8)) (st : H2esqCookies) : Prop where
  lt : ∀ p ∈ st.rootByName.toList, p < st.next
  first : ∀ p ∈ st.rootByName.toList, ∃ c,
    cs.find? (fun d => cookieKeyOf d.1 = (st.cookie p).key) = some c ∧
      (st.cookie p).value = .ofBytes c.2
  complete : ∀ c ∈ cs, ∃ p ∈ st.rootByName.toList, (st.cookie p).key = cookieKeyOf c.1
  sorted : st.rootByName.Sorted st.cmpName

section

variable {cs : List (List UInt8 × List UInt8)} {st : H2esqCookies} {call : CookieCall}
  {calls : List CookieCall} {name value : List UInt8} {p q : Nat} {S : List (List UInt8)}

theorem CookieNames.exists_key (h : CookieNames cs st) (hp : p ∈ st.rootByName.toList) :
    ∃ c ∈ cs, (st.cookie p).key = cookieKeyOf c.1 := by
  obtain ⟨c, hc, -⟩ := h.first p hp
  have hkey := List.find?_some hc
  exact ⟨c, List.mem_of_find?_eq_some hc, (of_decide_eq_true hkey).symm⟩

theorem orderedOn_cmpName (ho : OrderedOn cookieNameCmp S) {l : List Nat}
    (hl : ∀ p ∈ l, ∃ n ∈ S, (st.cookie p).key = cookieKeyOf n) : OrderedOn st.cmpName l := by
  have hkeys : OrderedOn h2esqRbtreeCmpName (S.map cookieKeyOf) := OrderedOn.map_iff.mpr ho
  show OrderedOn (fun p q => h2esqRbtreeCmpName (st.cookie p).key (st.cookie q).key) l
  refine OrderedOn.map_iff.mp (hkeys.mono fun k hk => ?_)
  obtain ⟨p, hp, rfl⟩ := List.mem_map.mp hk
  obtain ⟨n, hn, he⟩ := hl p hp
  rw [he]
  exact List.mem_map_of_mem hn

theorem CookieNames.key_of_find (h : CookieNames cs st)
    (hf : st.rootByName.find (fun q => h2esqRbtreeCmpName (cookieKeyOf name) (st.cookie q).key)
      = some p) : p ∈ st.rootByName.toList ∧ (st.cookie p).key = cookieKeyOf name := by
  obtain ⟨hp, hz⟩ := SearchTree.find_eq_some hf
  obtain ⟨c, -, hkey⟩ := h.exists_key hp
  rw [hkey] at hz
  exact ⟨hp, hkey.trans (cookieNameCmp_eq_zero.mp hz).symm⟩

theorem CookieNames.find_alloc (h : CookieNames cs st) (name value : List UInt8) :
    st.rootByName.find ((st.alloc (.of name value 0)).cmpName st.next)
      = st.rootByName.find fun q => h2esqRbtreeCmpName (cookieKeyOf name) (st.cookie q).key :=
  (SearchTree.descend_congr st.next fun q hq => H2esqCookies.cmpName_alloc (h.lt q hq)).1

theorem CookieNames.again (h : CookieNames cs st)
    (hf : st.rootByName.find (fun q => h2esqRbtreeCmpName (cookieKeyOf name) (st.cookie q).key)
      = some p) (value : List UInt8) : CookieNames (cs ++ [(name, value)]) st where
  lt := h.lt
  first q hq := by
    obtain ⟨c, hc, hv⟩ := h.first q hq
    exact ⟨c, by rw [List.find?_append, hc]; rfl, hv⟩
  complete c hc := by
    rcases List.mem_append.mp hc with hc | hc
    · exact h.complete c hc
    · cases List.mem_singleton.mp hc
      exact ⟨p, h.key_of_find hf⟩
  sorted := h.sorted

theorem CookieNames.fresh (h : CookieNames cs st) (ho : OrderedOn cookieNameCmp S)
    (hcs : ∀ c ∈ cs, c.1 ∈ S)
    (hf : st.rootByName.find (fun q => h2esqRbtreeCmpName (cookieKeyOf name) (st.cookie q).key)
      = none) : ∀ c ∈ cs, cookieKeyOf c.1 ≠ cookieKeyOf name := by
  intro c hc he
  obtain ⟨p, hp, hkey⟩ := h.complete c hc
  have hord : OrderedOn st.cmpName st.rootByName.toList := orderedOn_cmpName ho fun q hq => by
    obtain ⟨d, hd, hk⟩ := h.exists_key hq
    exact ⟨d.1, hcs d hd, hk⟩
  refine h.sorted.find_ne_none hord hp ?_
  rw [← he, ← hkey] at hf
  exact hf

theorem key_update (st : H2esqCookies) (name value : List UInt8) (idx : Int) (p : Nat) :
    (Function.update st.cookie st.next (.of name value idx) p).key
      = if p = st.next then cookieKeyOf name else (st.cookie p).key := by
  split
  · next hp => rw [hp, Function.update_self, H2esqCookie.key_of]
  · next hp => rw [Function.update_of_ne hp]

theorem CookieNames.insert (h : CookieNames cs st) (ho : OrderedOn cookieNameCmp S)
    (hcs : ∀ c ∈ cs, c.1 ∈ S) (hname : name ∈ S)
    (hf : st.rootByName.find (fun q => h2esqRbtreeCmpName (cookieKeyOf name) (st.cookie q).key)
      = none) (value : List UInt8) :
    (st.inserted name value).rootByName.Sorted (st.alloc (.of name value 0)).cmpName ∧
      (st.inserted name value).rootByName.toList.Perm (st.next :: st.rootByName.toList) := by
  have hkey := key_update st name value 0
  have hold : ∀ p ∈ st.rootByName.toList,
      ((st.alloc (.of name value 0)).cookie p).key = (st.cookie p).key := fun p hp =>
    (hkey p).trans (if_neg (h.lt p hp).ne)
  have hsorted : st.rootByName.Sorted (st.alloc (.of name value 0)).cmpName := by
    refine List.Pairwise.imp_of_mem (fun {p q} hp hq hlt => ?_) h.sorted
    unfold H2esqCookies.cmpName
    rw [hold p hp, hold q hq]
    exact hlt
  have hord : OrderedOn (st.alloc (.of name value 0)).cmpName
      (st.next :: st.rootByName.toList) := orderedOn_cmpName ho fun p hp => by
    rcases List.mem_cons.mp hp with rfl | hp
    · exact ⟨name, hname, (hkey _).trans (if_pos rfl)⟩
    · obtain ⟨c, hc, hk⟩ := h.exists_key hp
      exact ⟨c.1, hcs c hc, (hold p hp).trans hk⟩
  exact hsorted.insert hord ((h.find_alloc name value).trans hf)

/-- **新しい名前を保存すると、木に一つ加わる。** -/
theorem CookieNames.new (h : CookieNames cs st) (ho : OrderedOn cookieNameCmp S)
    (hcs : ∀ c ∈ cs, c.1 ∈ S) (hname : name ∈ S)
    (hf : st.rootByName.find (fun q => h2esqRbtreeCmpName (cookieKeyOf name) (st.cookie q).key)
      = none) (value : List UInt8) (idx : Int) :
    CookieNames (cs ++ [(name, value)]) ((st.inserted name value).insertIdx st.next idx) := by
  obtain ⟨hsorted, hperm⟩ := h.insert ho hcs hname hf value
  have hkey := key_update st name value idx
  have hmem : ∀ p ∈ (st.inserted name value).rootByName.toList,
      p = st.next ∨ p ∈ st.rootByName.toList := fun p hp =>
    List.mem_cons.mp (hperm.mem_iff.mp hp)
  rw [H2esqCookies.insertIdx_inserted]
  refine ⟨fun p hp => ?_, fun p hp => ?_, fun c hc => ?_, ?_⟩
  · rcases hmem p hp with rfl | hp
    · exact Nat.lt_succ_self _
    · exact Nat.lt_succ_of_lt (h.lt p hp)
  · show ∃ c, (cs ++ [(name, value)]).find? (fun d => cookieKeyOf d.1
      = (Function.update st.cookie st.next (.of name value idx) p).key) = some c ∧
        (Function.update st.cookie st.next (.of name value idx) p).value = .ofBytes c.2
    rcases hmem p hp with rfl | hp
    · have hnone : cs.find? (fun d => cookieKeyOf d.1 = cookieKeyOf name) = none :=
        List.find?_eq_none.mpr fun c hc he => h.fresh ho hcs hf c hc (of_decide_eq_true he)
      refine ⟨(name, value), ?_, ?_⟩
      · rw [hkey, if_pos rfl, List.find?_append, hnone]
        simp
      · rw [Function.update_self, H2esqCookie.value_of]
    · have hne := (h.lt p hp).ne
      obtain ⟨c, hc, hv⟩ := h.first p hp
      refine ⟨c, ?_, ?_⟩
      · rw [hkey, if_neg hne, List.find?_append, hc]
        rfl
      · rw [Function.update_of_ne hne, hv]
  · show ∃ p ∈ (st.inserted name value).rootByName.toList,
      (Function.update st.cookie st.next (.of name value idx) p).key = cookieKeyOf c.1
    rcases List.mem_append.mp hc with hc | hc
    · obtain ⟨p, hp, hk⟩ := h.complete c hc
      exact ⟨p, hperm.mem_iff.mpr (List.mem_cons_of_mem _ hp),
        by rw [hkey, if_neg (h.lt p hp).ne, hk]⟩
    · cases List.mem_singleton.mp hc
      exact ⟨st.next, hperm.mem_iff.mpr List.mem_cons_self, by rw [hkey, if_pos rfl]⟩
  · refine List.Pairwise.imp (fun {p q} hlt => ?_) hsorted
    show h2esqRbtreeCmpName (Function.update st.cookie st.next (.of name value idx) p).key
      (Function.update st.cookie st.next (.of name value idx) q).key < 0
    rw [hkey, hkey, ← key_update st name value 0, ← key_update st name value 0]
    exact hlt

/-- **比較が順序になる名前だけを保存する間、木は並んでいる。** -/
theorem CookieNames.run (h : CookieNames cs st) (ho : OrderedOn cookieNameCmp S)
    (hcs : ∀ c ∈ cs, c.1 ∈ S) (hcall : ∀ c ∈ call.saved, c.1 ∈ S) :
    CookieNames (cs ++ call.saved.toList) (call.run st) := by
  cases hs : call.saved with
  | none =>
    rw [CookieCall.run_of_saved_none hs]
    exact (List.append_nil cs).symm ▸ h
  | some c =>
    obtain ⟨name, value⟩ := c
    rw [CookieCall.run_of_saved hs]
    have halloc := h.find_alloc name value
    have hroot : (st.alloc (.of name value 0)).rootByName = st.rootByName := rfl
    rw [hroot, halloc]
    cases hf : st.rootByName.find fun q =>
        h2esqRbtreeCmpName (cookieKeyOf name) (st.cookie q).key with
    | some p => exact h.again hf value
    | none => exact h.new ho hcs (hcall _ hs) hf value _

theorem savedCookies_concat (pre : List CookieCall) (call : CookieCall) :
    savedCookies (pre ++ [call]) = savedCookies pre ++ call.saved.toList := by
  unfold savedCookies
  rw [List.filterMap_append]
  cases hs : call.saved <;> simp [hs]

/-- **名前の比較が順序なら、どの並びで保存しても、木は並んでいる。** -/
theorem cookieNames_run (ho : OrderedOn cookieNameCmp S) (calls : List CookieCall)
    (hcs : ∀ c ∈ savedCookies calls, c.1 ∈ S) :
    CookieNames (savedCookies calls) (cookieRun calls) := by
  induction calls using List.reverseRecOn with
  | nil =>
    exact ⟨fun p hp => (List.not_mem_nil hp).elim, fun p hp => (List.not_mem_nil hp).elim,
      fun c hc => (List.not_mem_nil hc).elim, List.Pairwise.nil⟩
  | append_singleton pre call ih =>
    rw [savedCookies_concat] at hcs ⊢
    rw [cookieRun_concat]
    have hpre : ∀ c ∈ savedCookies pre, c.1 ∈ S := fun c hc =>
      hcs c (List.mem_append_left _ hc)
    exact (ih hpre).run ho hpre fun c hc =>
      hcs c (List.mem_append_right _ (Option.mem_toList.mpr hc))

/-! ## 名前で引く -/

theorem h2esqGetCookieValueByName_eq (st : H2esqCookies) {name : CStr} (hne : name.bytes ≠ [])
    (hlt : name.bytes.length < cookieNameMax) : h2esqGetCookieValueByName st name =
      (st.rootByName.find fun q => h2esqRbtreeCmpName (cookieKeyOf name.bytes) (st.cookie q).key).map
        fun p => (st.cookie p).value := by
  have hpos : name.bytes.length ≠ 0 := fun h => hne (List.eq_nil_of_length_eq_zero h)
  have hlen : name.strnlen cookieNameMax = name.bytes.length := Nat.min_eq_left hlt.le
  have hkey : (⟨h2esqGetCookieStringHash name.bytes name.bytes.length, name.bytes.length, name⟩
      : CookieKey) = cookieKeyOf name.bytes := by
    unfold cookieKeyOf
    rw [ofBytes_bytes, ← h2esqGetCookieStringHash_eq]
  unfold h2esqGetCookieValueByName
  dsimp only
  rw [hlen, if_neg (by omega), hkey]

theorem h2esqGetCookieValueByName_none (st : H2esqCookies) {name : CStr}
    (h : name.bytes = [] ∨ cookieNameMax ≤ name.bytes.length) :
    h2esqGetCookieValueByName st name = none := by
  refine if_pos ?_
  show min name.bytes.length cookieNameMax ≤ 0 ∨
    cookieNameMax ≤ min name.bytes.length cookieNameMax
  rcases h with h | h
  · rw [h]
    exact Or.inl (Nat.min_le_left ..)
  · exact Or.inr (le_min h le_rfl)

theorem CookieNames.value_eq (h : CookieNames (savedCookies calls) st) {name : CStr}
    (hp : p ∈ st.rootByName.toList) (hkey : (st.cookie p).key = cookieKeyOf name.bytes) :
    firstValue calls name = some (st.cookie p).value := by
  obtain ⟨c, hc, hv⟩ := h.first p hp
  rw [hkey] at hc
  simp only [cookieKeyOf_eq_bytes] at hc
  unfold firstValue
  rw [hc, Option.map_some, hv]

/-- **木が並んでいれば、名前で引いて返るのは、その名前で初めて保存した値である。** -/
theorem CookieNames.lookup (h : CookieNames (savedCookies calls) st)
    (ho : OrderedOn cookieNameCmp S) (hcs : ∀ c ∈ savedCookies calls, c.1 ∈ S) {name : CStr}
    (hne : name.bytes ≠ []) (hlt : name.bytes.length < cookieNameMax) :
    h2esqGetCookieValueByName st name = firstValue calls name := by
  rw [h2esqGetCookieValueByName_eq st hne hlt]
  cases hf : st.rootByName.find fun q =>
      h2esqRbtreeCmpName (cookieKeyOf name.bytes) (st.cookie q).key with
  | some p =>
    obtain ⟨hp, hkey⟩ := h.key_of_find hf
    exact (h.value_eq hp hkey).symm
  | none =>
    have hnone : (savedCookies calls).find? (fun c => c.1 = name.bytes) = none :=
      List.find?_eq_none.mpr fun c hc he => h.fresh ho hcs hf c hc
        (congrArg cookieKeyOf (of_decide_eq_true he))
    unfold firstValue
    rw [hnone]
    rfl

end

/-! ## 比較の性質 -/

/-- 保存する文字列の hash と、引く名前の hash は一致する。 -/
def HashesAgree : Prop := ∀ name value, 61 ∉ name → name ≠ [] →
  (name ++ 61 :: value).length < cookieStrMax →
    h2esqGetCookieStringFeatures (name ++ 61 :: value) (name ++ 61 :: value).length
      = some (h2esqGetCookieStringHash name name.length, name.length)

/-- 保存の列での、比較と、名前で引いた値の性質。 -/
structure CookieLookup (calls : List CookieCall) : Prop where
  antisymm : ∀ a ∈ (savedCookies calls).map Prod.fst, ∀ b ∈ (savedCookies calls).map Prod.fst,
    cookieNameCmp a b < 0 ↔ 0 < cookieNameCmp b a
  trans : ∀ a ∈ (savedCookies calls).map Prod.fst, ∀ b ∈ (savedCookies calls).map Prod.fst,
    ∀ c ∈ (savedCookies calls).map Prod.fst,
      cookieNameCmp a b < 0 → cookieNameCmp b c < 0 → cookieNameCmp a c < 0
  zero : ∀ a ∈ (savedCookies calls).map Prod.fst, ∀ b ∈ (savedCookies calls).map Prod.fst,
    cookieNameCmp a b = 0 ↔ cookieKeyOf a = cookieKeyOf b
  hashes : HashesAgree
  /-- 保存した名前では、初めて保存した値が返る -/
  found : ∀ name v, name.bytes.length < cookieNameMax → firstValue calls name = some v →
    h2esqGetCookieValueByName (cookieRun calls) name = some v
  /-- 保存していない名前では、NULL が返る -/
  unsaved : ∀ name, firstValue calls name = none →
    h2esqGetCookieValueByName (cookieRun calls) name = none

theorem firstValue_nil {calls : List CookieCall} {name : CStr} (h : name.bytes = []) :
    firstValue calls name = none := by
  have hnone : (savedCookies calls).find? (fun c => c.1 = name.bytes) = none := by
    refine List.find?_eq_none.mpr fun c hc he => ?_
    obtain ⟨call, -, hs⟩ := List.mem_filterMap.mp hc
    exact (CookieCall.saved_eq_some.mp hs).2.2.2.1 ((of_decide_eq_true he).trans h)
  unfold firstValue
  rw [hnone]
  rfl

/--
**比較が全順序になり、保存した名前が初めの値と共に必ず見つかることは、保存した名前の hash が円周の半分に
収まることと同値である。**
-/
theorem cookie_lookup_iff (calls : List CookieCall) :
    CookieLookup calls ↔ InArc ((savedCookies calls).map fun c => cookieNameHash c.1) := by
  have harc : OrderedOn cookieNameCmp ((savedCookies calls).map Prod.fst) ↔
      InArc ((savedCookies calls).map fun c => cookieNameHash c.1) := by
    rw [orderedOn_cookieNameCmp_iff, List.map_map]
    rfl
  rw [← harc]
  constructor
  · intro h
    exact .of_antisymm h.antisymm h.trans
  · intro ho
    have hcs : ∀ c ∈ savedCookies calls, c.1 ∈ (savedCookies calls).map Prod.fst := fun c hc =>
      List.mem_map_of_mem hc
    have hnames := cookieNames_run ho calls hcs
    refine ⟨fun a ha b hb => ho.antisymm (fun a b he => ?_) ha hb, ho.trans,
      fun _ _ _ _ => cookieNameCmp_eq_zero,
      fun name value hn hne hl => h2esqGetCookieStringFeatures_eq hn hne hl,
      fun name v hlt hv => ?_, fun name hnone => ?_⟩
    · exact cookieNameCmp_eq_zero.mpr (cookieNameCmp_eq_zero.mp he).symm
    · by_cases hne : name.bytes = []
      · rw [firstValue_nil hne] at hv
        cases hv
      · rw [hnames.lookup ho hcs hne hlt, hv]
    · by_cases hlen : name.bytes = [] ∨ cookieNameMax ≤ name.bytes.length
      · exact h2esqGetCookieValueByName_none _ hlen
      · rw [not_or, not_le] at hlen
        rw [hnames.lookup ho hcs hlen.1 hlen.2, hnone]

/-- `sPU0O0UPsPV=1`、`bP=2`、`aP=3`。初めの名前の hash は、残りの二つと円周の半分だけ離れている。 -/
def halfwayCalls : List CookieCall :=
  [⟨true, [115, 80, 85, 48, 79, 48, 85, 80, 115, 80, 86, 61, 49]⟩, ⟨true, [98, 80, 61, 50]⟩,
    ⟨true, [97, 80, 61, 51]⟩]

/-- **hash が円周の半分だけ離れた名前を保存すると、初めに保存した cookie が名前で見つからなくなる。** -/
theorem cookie_lost_at_half : ¬ CookieLookup halfwayCalls := by
  intro h
  have hfound := h.found (.ofBytes [115, 80, 85, 48, 79, 48, 85, 80, 115, 80, 86]) (.ofBytes [49])
    (by decide) (by decide)
  exact absurd hfound (by decide +kernel)

end Esq
