import Esq.Infra.Run
import Esq.Libs.HeadMatch

/-!
# service の登録

`nghttp2_wrapper/instance.c` の `h2esq_instance_bind_service` と `h2esq_instance_find_service`。

登録は三つの段からなる。`hmt_add2` が path を pattern の並びに加え、`hmt_compile` が表を作り直し、最後に
空いている service を埋める。`malloc` はどの段でも失敗しうる。

`hmt_compile` が失敗しても、並びに加えた path は取り除かれない。表は初めに捨てられるので、それまでの
path もすべて NULL になる。次に成功した登録は同じ service を使い、残った path もそこへ導く。
したがって登録が不可分なのは、`hmt_add2` の後の `hmt_compile` が失敗しない run においてである
（`bind_service_atomic`）。
-/

namespace Esq

open Infra

/-! ## `malloc` の失敗 -/

def hmtAdd2Malloc (malloc : Bool) (pt : Hmt) (pattern : CStr) (userdata : Nat) : Int × Hmt :=
  let l := pattern.strnlen pt.patternLenMax
  if pt.patternLenMax ≤ l ∨ l = 0 then (-2, pt)
  else if !malloc then (-4, pt)
  else hmtAddItem pt { pattern, userdata, mallocItem := true }

/-- `hmt_compile` の五つの `malloc` の結果と、得た表の中身。 -/
structure HmtMalloc where
  higherJumpTable : Bool
  lowerJumpTable : Bool
  someoneElseMatchedTable : Bool
  nextLevelEnterPointTable : Bool
  patternsLength : Bool
  heap : HmtTables

def HmtMalloc.ok (m : HmtMalloc) : Bool :=
  m.higherJumpTable && m.lowerJumpTable && m.someoneElseMatchedTable
    && m.nextLevelEnterPointTable && m.patternsLength

def Hmt.freeContent (pt : Hmt) : Hmt := { pt with enterPoint := -1, tables := .null }

/-- `hmt_compile`。`malloc` の結果を与える。失敗すると `__exx` で表をすべて捨てる。 -/
def hmtCompileMalloc (m : HmtMalloc) (pt : Hmt) : Int × Hmt :=
  if !m.higherJumpTable then (-1, pt.freeContent)
  else if !m.lowerJumpTable then (-1, pt.freeContent)
  else if !m.someoneElseMatchedTable then (-1, pt.freeContent)
  else if !m.nextLevelEnterPointTable then (-1, pt.freeContent)
  else if !m.patternsLength then (-1, pt.freeContent)
  else hmtCompile pt m.heap

/-! ## instance -/

def h2esqPathHandlerMax : Int := 100

def h2esqInstanceServiceMax : Nat := 16

/-- `h2esq_service_t`。どちらも pointer の値で、NULL は 0 である。 -/
structure H2esqService where
  serviceClass : Nat
  ctx : Nat
deriving DecidableEq

def H2esqService.null : H2esqService := ⟨0, 0⟩

structure H2esqInstance where
  pathHmt : Hmt
  service : List H2esqService

namespace H2esqInstance

def started : H2esqInstance where
  pathHmt := (hmtNew2 h2esqPathHandlerMax hmtScale32).get rfl
  service := List.replicate h2esqInstanceServiceMax .null

def servicePtr (i : Nat) : Nat := i + 1

def deref (inst : H2esqInstance) : Nat → Option H2esqService
  | 0 => none
  | i + 1 => inst.service[i]?

def freeSlot (inst : H2esqInstance) : Option Nat :=
  inst.service.findIdx? fun s => s.serviceClass = 0

end H2esqInstance

/-- `h2esq_instance_bind_service` の呼び出し。`service_class` は呼ぶ側の静的な構造体なので NULL でない。 -/
structure BindCall where
  path : CStr
  ascii : Ascii path.bytes
  serviceClass : Nat
  serviceClass_ne : serviceClass ≠ 0
  ctx : Nat
  /-- `hmt_add2` の `malloc` -/
  add : Bool
  /-- `hmt_compile` の `malloc` -/
  compile : HmtMalloc

def BindCall.service (c : BindCall) : H2esqService := ⟨c.serviceClass, c.ctx⟩

def h2esqInstanceBindService (inst : H2esqInstance) (c : BindCall) : Int × H2esqInstance :=
  match inst.freeSlot with
  | none => (esqErrorLibcall, inst)
  | some i =>
    let (r, pathHmt) := hmtAdd2Malloc c.add inst.pathHmt c.path (H2esqInstance.servicePtr i)
    let inst := { inst with pathHmt }
    if r ≠ 0 then (esqErrorLibcall, inst)
    else
      let (r, pathHmt) := hmtCompileMalloc c.compile inst.pathHmt
      let inst := { inst with pathHmt }
      if r ≠ 0 then (esqErrorLibcall, inst)
      else (esqOk, { inst with service := inst.service.set i c.service })

def h2esqInstanceFindService (inst : H2esqInstance) (path : CStr) (fuel : Nat) :
    Except Fault HmtMatch :=
  hmtMatch inst.pathHmt path fuel

def H2esqInstance.Finds (inst : H2esqInstance) (path : CStr) (r : HmtMatch) : Prop :=
  ∃ n, ∀ fuel, n ≤ fuel → h2esqInstanceFindService inst path fuel = .ok r

/-- `path` は `o` に導かれる。`none` は NULL である。 -/
def H2esqInstance.Routes (inst : H2esqInstance) (path : CStr) (o : Option H2esqService) : Prop :=
  ∃ r, inst.Finds path r ∧ inst.deref r.userdata = o

/-! ## 登録の列 -/

structure Binding where
  inst : H2esqInstance
  /-- これまでに成功した登録 -/
  bound : List BindCall

def Binding.step (s : Binding) (c : BindCall) : Binding where
  inst := (h2esqInstanceBindService s.inst c).2
  bound := if (h2esqInstanceBindService s.inst c).1 = esqOk then s.bound ++ [c] else s.bound

def Binding.started : Binding := ⟨.started, []⟩

namespace Binding

/-- error を返した登録は、`h2esq_instance_find_service` の結果を変えない。 -/
def Unchanged (s : Binding) (c : BindCall) : Prop :=
  (h2esqInstanceBindService s.inst c).1 ≠ esqOk →
    ∀ path r, (s.step c).inst.Finds path r ↔ s.inst.Finds path r

/-- どの path も、その prefix である最も長い path の登録に導かれる。無ければ NULL である。 -/
structure Routed (s : Binding) : Prop where
  longest : ∀ path : CStr, Ascii path.bytes → ∀ c ∈ s.bound,
    IsLongestHead (s.bound.map fun c => c.path.bytes) path.bytes c.path.bytes →
      s.inst.Routes path (some c.service)
  none : ∀ path : CStr, Ascii path.bytes → (∀ c ∈ s.bound, ¬ c.path.bytes <+: path.bytes) →
    s.inst.Routes path none

def Adds (s : Binding) (c : BindCall) : Prop :=
  ∃ i, s.inst.freeSlot = some i ∧
    (hmtAdd2Malloc c.add s.inst.pathHmt c.path (H2esqInstance.servicePtr i)).1 = 0

/-- 登録が途中で終わらない。path が加われば、表も作れる。 -/
def Completes (s : Binding) (c : BindCall) : Prop := s.Adds c → c.compile.ok = true

end Binding

/-! ## 一つの登録の場合分け -/

theorem hmtCompileMalloc_eq (m : HmtMalloc) (pt : Hmt) : hmtCompileMalloc m pt
    = if m.ok then hmtCompile pt m.heap else (-1, pt.freeContent) := by
  unfold hmtCompileMalloc HmtMalloc.ok
  cases m.higherJumpTable <;> cases m.lowerJumpTable <;> cases m.someoneElseMatchedTable <;>
    cases m.nextLevelEnterPointTable <;> cases m.patternsLength <;> rfl

theorem hmtAddItem_ne {pt : Hmt} {k : HmtItem} (h : (hmtAddItem pt k).1 ≠ 0) :
    (hmtAddItem pt k).2 = pt := by
  unfold hmtAddItem at h ⊢
  split
  · rfl
  next hmax =>
    rw [if_neg hmax] at h
    cases hins : hmtInsert k pt.patternLenMax pt.items with
    | none => rfl
    | some items =>
      rw [hins] at h
      exact absurd rfl h

theorem hmtAdd2Malloc_ne {malloc : Bool} {pt : Hmt} {pattern : CStr} {userdata : Nat}
    (h : (hmtAdd2Malloc malloc pt pattern userdata).1 ≠ 0) :
    (hmtAdd2Malloc malloc pt pattern userdata).2 = pt := by
  unfold hmtAdd2Malloc at h ⊢
  dsimp only at h ⊢
  split
  · rfl
  next hl =>
    rw [if_neg hl] at h
    split
    · rfl
    next hm =>
      rw [if_neg hm] at h
      exact hmtAddItem_ne h

theorem hmtAdd2Malloc_zero {malloc : Bool} {pt : Hmt} {pattern : CStr} {userdata : Nat}
    (h : (hmtAdd2Malloc malloc pt pattern userdata).1 = 0) :
    hmtAdd2Malloc malloc pt pattern userdata
      = HmtItem.add pt { pattern, userdata, mallocItem := true } := by
  unfold hmtAdd2Malloc at h
  dsimp only at h
  split at h
  · cases h
  next hl =>
    split at h
    · cases h
    next hm =>
      rw [HmtItem.add_eq, hmtAdd2Malloc, hmtAddWith, if_neg hl, if_neg hl, if_neg hm]

namespace Binding

variable {s : Binding} {c : BindCall}

theorem bind_of_not_adds (h : ¬ s.Adds c) :
    h2esqInstanceBindService s.inst c = (esqErrorLibcall, s.inst) := by
  unfold h2esqInstanceBindService
  cases hslot : s.inst.freeSlot with
  | none => rfl
  | some i =>
    have hne : (hmtAdd2Malloc c.add s.inst.pathHmt c.path (H2esqInstance.servicePtr i)).1 ≠ 0 :=
      fun hzero => h ⟨i, hslot, hzero⟩
    dsimp only
    rw [if_pos hne, hmtAdd2Malloc_ne hne]

section

variable {i : Nat} (hslot : s.inst.freeSlot = some i)
  (hadd : (hmtAdd2Malloc c.add s.inst.pathHmt c.path (H2esqInstance.servicePtr i)).1 = 0)

def added (s : Binding) (c : BindCall) (i : Nat) : Hmt :=
  (hmtAdd2Malloc c.add s.inst.pathHmt c.path (H2esqInstance.servicePtr i)).2

include hslot hadd

theorem bind_of_failed (hm : c.compile.ok = false) : h2esqInstanceBindService s.inst c
    = (esqErrorLibcall, { s.inst with pathHmt := (s.added c i).freeContent }) := by
  unfold h2esqInstanceBindService
  rw [hslot]
  dsimp only
  rw [if_neg (not_not_intro hadd), hmtCompileMalloc_eq, hm]
  rfl

theorem bind_of_compiled (hm : c.compile.ok = true)
    (hc : (hmtCompile (s.added c i) c.compile.heap).1 = 0) :
    h2esqInstanceBindService s.inst c = (esqOk,
      { pathHmt := (hmtCompile (s.added c i) c.compile.heap).2
        service := s.inst.service.set i c.service }) := by
  unfold h2esqInstanceBindService
  rw [hslot]
  dsimp only
  rw [if_neg (not_not_intro hadd), hmtCompileMalloc_eq, if_pos hm]
  exact if_neg (not_not_intro hc)

end

/-! ## 不変条件 -/

def item (i : Nat) (c : BindCall) : HmtItem where
  pattern := c.path
  userdata := H2esqInstance.servicePtr i
  mallocItem := true

/-- 成功した登録の pattern。`i` 番の登録は `i` 番の service を指す。 -/
def boundItems (bound : List BindCall) : List HmtItem := bound.mapIdx item

structure Inv (s : Binding) : Prop where
  ready : s.inst.pathHmt.Ready
  items : s.inst.pathHmt.items.Perm (boundItems s.bound)
  tables : if s.bound = [] then s.inst.pathHmt.enterPoint = -1 else s.inst.pathHmt.Compiled
  service : ∃ n, s.inst.service
    = s.bound.map BindCall.service ++ List.replicate n H2esqService.null

theorem inv_started : Inv started where
  ready :=
    have hnew : hmtNew2 h2esqPathHandlerMax hmtScale32 = some started.inst.pathHmt := rfl
    (hmtNew2_ready hnew).1
  items := .refl _
  tables := rfl
  service := ⟨h2esqInstanceServiceMax, rfl⟩

theorem boundItems_concat (bound : List BindCall) (c : BindCall) :
    boundItems (bound ++ [c]) = boundItems bound ++ [item bound.length c] := List.mapIdx_concat

theorem boundItems_pattern (bound : List BindCall) :
    (boundItems bound).map (fun a => a.pattern.bytes) = bound.map fun c => c.path.bytes := by
  refine List.ext_getElem? fun i => ?_
  rw [List.getElem?_map, List.getElem?_map, boundItems, List.getElem?_mapIdx, Option.map_map]
  rfl

theorem exists_of_mem_boundItems {bound : List BindCall} {a : HmtItem} (h : a ∈ boundItems bound) :
    ∃ c ∈ bound, a.pattern = c.path := by
  obtain ⟨i, hi, rfl⟩ := List.mem_mapIdx.mp h
  exact ⟨bound[i], List.getElem_mem hi, rfl⟩

theorem Inv.slot (h : Inv s) {i : Nat} (hslot : s.inst.freeSlot = some i) :
    i = s.bound.length ∧ ∃ n, s.inst.service
      = s.bound.map BindCall.service ++ List.replicate (n + 1) H2esqService.null := by
  obtain ⟨n, hn⟩ := h.service
  have hbusy : (s.bound.map BindCall.service).findIdx? (fun v => v.serviceClass = 0) = none := by
    rw [List.findIdx?_eq_none_iff]
    intro v hv
    obtain ⟨c, -, rfl⟩ := List.mem_map.mp hv
    exact decide_eq_false c.serviceClass_ne
  unfold H2esqInstance.freeSlot at hslot
  rw [hn, List.findIdx?_append, hbusy, Option.none_or] at hslot
  cases n with
  | zero => cases hslot
  | succ n =>
    have hfree : decide (H2esqService.null.serviceClass = 0) = true := rfl
    rw [List.replicate_succ, List.findIdx?_cons, if_pos hfree, Option.map_some,
      List.length_map, Nat.zero_add] at hslot
    exact ⟨(Option.some.inj hslot).symm, n, hn⟩

section

variable {i : Nat}
  (hadd : (hmtAdd2Malloc c.add s.inst.pathHmt c.path (H2esqInstance.servicePtr i)).1 = 0)

include hadd

theorem added_ready (hr : s.inst.pathHmt.Ready) : (s.added c i).Ready ∧
    (s.added c i).items.Perm (item i c :: s.inst.pathHmt.items) := by
  have heq := hmtAdd2Malloc_zero hadd
  have hzero := hadd
  rw [heq] at hzero
  have hadded : s.added c i = (HmtItem.add s.inst.pathHmt (item i c)).2 := congrArg Prod.snd heq
  rw [hadded]
  exact HmtItem.add_zero hr hzero

theorem added_compiled (hr : s.inst.pathHmt.Ready) :
    (hmtCompile (s.added c i) c.compile.heap).1 = 0 ∧
      (hmtCompile (s.added c i) c.compile.heap).2.Compiled ∧
      (hmtCompile (s.added c i) c.compile.heap).2.items.Perm
        (item i c :: s.inst.pathHmt.items) := by
  obtain ⟨hready, hperm⟩ := added_ready hadd hr
  have hne : (s.added c i).items ≠ [] := fun hnil => by
    rw [hnil] at hperm
    exact absurd hperm.length_eq (Nat.zero_ne_add_one _)
  obtain ⟨hok, hcompiled, hsame⟩ := hmtCompile_compiled hready hne c.compile.heap
  exact ⟨hok, hcompiled, hsame.symm ▸ hperm⟩

theorem bind_ok (hr : s.inst.pathHmt.Ready) (hslot : s.inst.freeSlot = some i)
    (hm : c.compile.ok = true) : h2esqInstanceBindService s.inst c = (esqOk,
      { pathHmt := (hmtCompile (s.added c i) c.compile.heap).2
        service := s.inst.service.set i c.service }) :=
  bind_of_compiled hslot hadd hm (added_compiled hadd hr).1

end

/-- **途中で終わらない登録は、不変条件を保つ。** -/
theorem Inv.step (h : Inv s) (hc : s.Completes c) : Inv (s.step c) := by
  by_cases hadds : s.Adds c
  · obtain ⟨i, hslot, hadd⟩ := hadds
    have hbind := bind_ok hadd h.ready hslot (hc ⟨i, hslot, hadd⟩)
    obtain ⟨-, hcompiled, hperm⟩ := added_compiled hadd h.ready
    obtain ⟨rfl, n, hn⟩ := h.slot hslot
    have hinst : (s.step c).inst = _ := congrArg Prod.snd hbind
    have hbound : (s.step c).bound = s.bound ++ [c] := if_pos (congrArg Prod.fst hbind)
    constructor
    · rw [hinst]
      exact hcompiled.ready
    · rw [hinst, hbound, boundItems_concat]
      exact hperm.trans ((h.items.cons _).trans (List.perm_append_singleton _ _).symm)
    · rw [hinst, hbound, if_neg (by simp)]
      exact hcompiled
    · refine ⟨n, ?_⟩
      rw [hinst, hbound]
      show s.inst.service.set s.bound.length c.service = _
      rw [hn, List.set_append_right _ _ (by simp)]
      simp [List.replicate_succ]
  · have hstep : s.step c = s := by
      unfold Binding.step
      rw [bind_of_not_adds hadds]
      rfl
    rw [hstep]
    exact h

/-! ## 行き先 -/

theorem find_null {inst : H2esqInstance} (h : inst.pathHmt.enterPoint = -1) (path : CStr) :
    inst.Finds path .null :=
  ⟨0, fun _ _ => if_pos h⟩

theorem find_unique {inst : H2esqInstance} {path : CStr} {r r' : HmtMatch}
    (h : inst.Finds path r) (h' : inst.Finds path r') : r = r' := by
  obtain ⟨n, hn⟩ := h
  obtain ⟨n', hn'⟩ := h'
  have heq := (hn (max n n') (le_max_left ..)).symm.trans (hn' _ (le_max_right ..))
  exact Except.ok.inj heq

theorem ascii_boundItems (bound : List BindCall) :
    ∀ a ∈ boundItems bound, Ascii a.pattern.bytes := by
  intro a ha
  obtain ⟨c, -, hc⟩ := exists_of_mem_boundItems ha
  rw [hc]
  exact c.ascii

theorem Inv.deref (h : Inv s) {i : Nat} (hi : i < s.bound.length) :
    s.inst.deref (H2esqInstance.servicePtr i) = some s.bound[i].service := by
  obtain ⟨n, hn⟩ := h.service
  show s.inst.service[i]? = _
  rw [hn, List.getElem?_append_left (by rw [List.length_map]; exact hi),
    List.getElem?_map, List.getElem?_eq_getElem hi]
  rfl

/-- **不変条件の下では、どの path も最も長い登録に導かれる。** -/
theorem Inv.routed (h : Inv s) : Routed s := by
  have htables := h.tables
  split at htables
  next hnil =>
    refine ⟨fun path _ c hc => ?_, fun path _ _ => ⟨.null, find_null htables path, rfl⟩⟩
    rw [hnil] at hc
    exact absurd hc List.not_mem_nil
  · constructor
    · intro path hpath c hc hbest
      obtain ⟨r, hreach, hlongest, -⟩ := htables.longest h.items (ascii_boundItems _) hpath
      obtain ⟨i, hi, rfl⟩ := List.mem_iff_getElem.mp hc
      have hitem : item i s.bound[i] ∈ boundItems s.bound := List.mem_mapIdx.mpr ⟨i, hi, rfl⟩
      rw [← boundItems_pattern] at hbest
      refine ⟨r, hreach, ?_⟩
      rw [hlongest _ hitem hbest]
      exact h.deref hi
    · intro path hpath hnone
      obtain ⟨r, hreach, -, ⟨a, ha, hpre, -⟩ | ⟨-, rfl⟩⟩ := htables.longest h.items (ascii_boundItems _) hpath
      · obtain ⟨c, hc, hpat⟩ := exists_of_mem_boundItems ha
        rw [hpat] at hpre
        exact absurd hpre (hnone c hc)
      · exact ⟨.null, hreach, rfl⟩

theorem Inv.unchanged (h : Inv s) (hc : s.Completes c) : s.Unchanged c := by
  intro herr path r
  by_cases hadds : s.Adds c
  · obtain ⟨i, hslot, hadd⟩ := hadds
    have hbind := bind_ok hadd h.ready hslot (hc ⟨i, hslot, hadd⟩)
    exact absurd (congrArg Prod.fst hbind) herr
  · unfold Binding.step
    rw [bind_of_not_adds hadds]

theorem Inv.not_unchanged (h : Inv s) (hne : s.bound ≠ []) (hc : ¬ s.Completes c) :
    ¬ s.Unchanged c := by
  intro hun
  obtain ⟨⟨i, hslot, hadd⟩, hfail⟩ := Classical.not_imp.mp hc
  have hbind := bind_of_failed hslot hadd (Bool.not_eq_true _ ▸ hfail)
  obtain ⟨b, hb⟩ := List.exists_mem_of_ne_nil _ hne
  -- 登録された path は、それ自身に導かれていた
  obtain ⟨r, hr, hroute⟩ := h.routed.longest b.path b.ascii b hb
    ⟨List.mem_map_of_mem hb, List.prefix_rfl, fun q _ hq => hq.length_le⟩
  have herr : (h2esqInstanceBindService s.inst c).1 ≠ esqOk := by
    rw [hbind]
    show esqErrorLibcall ≠ esqOk
    decide
  have hnull : (s.step c).inst.Finds b.path .null := by
    unfold Binding.step
    rw [hbind]
    exact find_null rfl b.path
  rw [find_unique hr ((hun herr b.path .null).mp hnull)] at hroute
  cases hroute

def next (s : Binding) (c : BindCall) : Option Binding := some (s.step c)

end Binding

/--
**初めの登録が途中で終わらない列では、登録がすべて不可分なのは、どの登録も途中で終わらないときに限る。**
-/
theorem bindings_atomic_iff {calls : List BindCall}
    (hfirst : Along Binding.next (fun s c => s.bound = [] → s.Completes c) .started calls) :
    Throughout Binding.next Binding.Routed .started calls ∧
        Along Binding.next Binding.Unchanged .started calls ↔
      Along Binding.next Binding.Completes .started calls := by
  refine throughout_and_along_iff (fun s c t h _ hc ht => ?_) (fun s c h _ hc => h.unchanged hc)
    (fun s c h hok hc hun => ?_) (fun s h => h.routed) Binding.inv_started hfirst
  · cases ht
    exact h.step hc
  · exact absurd hun (h.not_unchanged (fun hnil => hc (hok hnil)) hc)

/--
**どの登録も途中で終わらない列では、登録は不可分である。** error を返した登録はどの path の行き先も
変えず、どの登録の後も、path は最も長い登録に導かれる。
-/
theorem bind_service_atomic {calls : List BindCall}
    (h : Along Binding.next Binding.Completes .started calls) :
    Throughout Binding.next Binding.Routed .started calls ∧
      Along Binding.next Binding.Unchanged .started calls := by
  have hfirst : Along Binding.next (fun s c => s.bound = [] → s.Completes c) .started calls :=
    h.mono fun s c hc => (fun _ => hc : s.bound = [] → s.Completes c)
  exact (bindings_atomic_iff hfirst).mpr h

def HmtMalloc.success : HmtMalloc where
  higherJumpTable := true
  lowerJumpTable := true
  someoneElseMatchedTable := true
  nextLevelEnterPointTable := true
  patternsLength := true
  heap := .null

theorem ascii_root : Ascii (CStr.ofBytes [47]).bytes := by decide

theorem ascii_lost : Ascii (CStr.ofBytes [47, 97]).bytes := by decide

theorem ascii_other : Ascii (CStr.ofBytes [47, 98]).bytes := by decide

def rootBind : BindCall where
  path := .ofBytes [47]
  ascii := ascii_root
  serviceClass := 1
  serviceClass_ne := Nat.succ_ne_zero 0
  ctx := 1
  add := true
  compile := .success

def lostBind : BindCall where
  path := .ofBytes [47, 97]
  ascii := ascii_lost
  serviceClass := 2
  serviceClass_ne := Nat.succ_ne_zero 1
  ctx := 2
  add := true
  compile := { HmtMalloc.success with patternsLength := false }

/-- `/` を二度登録する。二度目は断られるが、行き先は変わらない。 -/
theorem root_bind_twice : Throughout Binding.next Binding.Routed .started [rootBind, rootBind] ∧
    Along Binding.next Binding.Unchanged .started [rootBind, rootBind] :=
  bind_service_atomic (along_of_forall (List.forall_mem_cons.mpr
    ⟨fun _ _ => rfl, List.forall_mem_singleton.mpr fun _ _ => rfl⟩))

/-- `/` の登録の後で `/a` の表が作れないと、error が返り、`/` の行き先も失われる。 -/
theorem failed_compile_loses_root :
    (h2esqInstanceBindService (Binding.started.step rootBind).inst lostBind).1 = esqErrorLibcall ∧
      ¬ Along Binding.next Binding.Unchanged .started [rootBind, lostBind] := by
  have hinv : Binding.Inv (Binding.started.step rootBind) := Binding.inv_started.step fun _ => rfl
  have hadds : (Binding.started.step rootBind).Adds lostBind := ⟨1, rfl, rfl⟩
  have hbound : (Binding.started.step rootBind).bound ≠ [] := List.cons_ne_nil rootBind []
  constructor
  · obtain ⟨i, hslot, hadd⟩ := hadds
    exact congrArg Prod.fst (Binding.bind_of_failed hslot hadd rfl)
  · intro h
    have hlost : ¬ (Binding.started.step rootBind).Completes lostBind := fun hc =>
      absurd (hc hadds) Bool.false_ne_true
    exact hinv.not_unchanged hbound hlost (h.2 _ rfl).1

def otherBind : BindCall := { rootBind with
  path := .ofBytes [47, 98]
  ascii := ascii_other }

/--
始めの `/a` の登録が途中で終わると、次に成功した `/b` の登録が同じ service を使う。登録されていない `/a` が
`/b` の service に導かれる。
-/
theorem leftover_path_routed :
    (h2esqInstanceBindService (Binding.started.step lostBind).inst otherBind).1 = esqOk ∧
      ¬ Throughout Binding.next Binding.Routed .started [lostBind, otherBind] := by
  have hlost := Binding.bind_of_failed (s := .started) (c := lostBind) (i := 0) rfl rfl rfl
  obtain ⟨hready, hperm⟩ := Binding.added_ready (s := .started) (c := lostBind) (i := 0) rfl
    Binding.inv_started.ready
  generalize hs : Binding.started.step lostBind = s
  have hinst : s.inst = _ := (congrArg Binding.inst hs.symm).trans (congrArg Prod.snd hlost)
  have hbound : s.bound = [] := congrArg Binding.bound hs.symm
  have hr : s.inst.pathHmt.Ready := by
    rw [hinst]
    exact ⟨hready.sorted, hready.short, hready.lenMax, hready.max_lt, hready.few⟩
  have hadd : (hmtAdd2Malloc otherBind.add s.inst.pathHmt otherBind.path
      (H2esqInstance.servicePtr 0)).1 = 0 := by
    rw [← hs]
    rfl
  have hslot : s.inst.freeSlot = some 0 := by
    rw [← hs]
    rfl
  have hbind := Binding.bind_ok hadd hr hslot rfl
  obtain ⟨-, hcompiled, hitems⟩ := Binding.added_compiled hadd hr
  refine ⟨congrArg Prod.fst hbind, fun h => ?_⟩
  -- 残った `/a` は、`/b` と同じ service を指す
  have hleft : s.inst.pathHmt.items.Perm [Binding.item 0 lostBind] := by
    rw [hinst]
    exact hperm
  have hboth := hitems.trans (hleft.cons _)
  obtain ⟨r, hreach, hbest, -⟩ := hcompiled.longest hboth (by
    simpa [Binding.item] using ⟨otherBind.ascii, lostBind.ascii⟩) lostBind.ascii
  have hrouted : Binding.Routed (s.step otherBind) := (h.2 s (congrArg some hs)).2 _ rfl
  have hbound' : (s.step otherBind).bound = [otherBind] := by
    unfold Binding.step
    rw [hbind, hbound]
    rfl
  obtain ⟨r', hfind, hderef⟩ := hrouted.none lostBind.path lostBind.ascii (by
    rw [hbound']
    exact List.forall_mem_singleton.mpr (by decide))
  unfold Binding.step at hfind hderef
  rw [hbind] at hfind hderef
  obtain rfl := Binding.find_unique hfind hreach
  have hmem : Binding.item 0 lostBind ∈ [Binding.item 0 otherBind, Binding.item 0 lostBind] :=
    List.mem_cons_of_mem _ List.mem_cons_self
  rw [hbest _ hmem ⟨List.mem_map_of_mem hmem, List.prefix_rfl, fun q _ hq => hq.length_le⟩] at hderef
  have hservice : s.inst.service = Binding.started.inst.service := by rw [hinst]
  rw [hservice] at hderef
  cases hderef

end Esq
