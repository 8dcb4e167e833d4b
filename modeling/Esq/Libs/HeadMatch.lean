import Esq.Libs.HeadMatchCompile

/-!
# head match tree の照合

`hmt_match` の loop は探索木を入口から降りる。降りた先の範囲について、次の二つが保たれる。

* 範囲の pattern は、文字列と先頭 `depth` 文字が等しい。
* 文字列の prefix である pattern のうち `depth` 文字より長いものは、範囲の中にある。

行き止まりでは、長さが `depth` 以下の pattern しか残らない。`someone_else_matched_table` は、
その中で最も長いものを指す。
-/

namespace Esq

open Infra

variable {pt : Hmt} {s : CStr} {depth start stop bs be i m : Nat}

/-! ## 答え -/

/-- 最も長い pattern の答え。一致する pattern が無ければ NULL。 -/
def HmtAnswer (pt : Hmt) (s : CStr) (r : HmtMatch) : Prop :=
  (∃ i < pt.cnt, pt.pattern i <+: s.bytes
    ∧ (∀ j < pt.cnt, pt.pattern j <+: s.bytes → (pt.pattern j).length ≤ (pt.pattern i).length)
    ∧ r = hmtMatched pt i)
  ∨ (∀ j < pt.cnt, ¬ pt.pattern j <+: s.bytes) ∧ r = .null

def HmtReaches (pt : Hmt) (s : CStr) (m depth : Nat) : Prop :=
  ∃ r, HmtAnswer pt s r ∧ ∃ n, ∀ fuel, n ≤ fuel → hmtMatchLoop pt s fuel m depth = .ok r

structure HmtSearching (pt : Hmt) (s : CStr) (depth start stop : Nat) : Prop where
  le : start ≤ stop
  lt : stop < pt.cnt
  same : ∀ i, start ≤ i → i ≤ stop → (pt.pattern i).take depth = s.bytes.take depth
  long : ∀ i, start ≤ i → i ≤ stop → depth ≤ (pt.pattern i).length
  inside : ∀ j < pt.cnt, pt.pattern j <+: s.bytes → depth < (pt.pattern j).length →
    start ≤ j ∧ j ≤ stop

theorem toNat_string (s : CStr) (depth : Nat) :
    (s.bytes.getD depth 0).toNat = rankAt UInt8.toNat s.bytes depth := toNat_getD _ _

theorem char_of_head {j : Nat} (h : pt.pattern j <+: s.bytes) (hd : depth < (pt.pattern j).length) :
    pt.char j depth = s.bytes.getD depth 0 := by
  rw [← UInt8.toNat_inj, Hmt.Ready.toNat_char, toNat_string]
  exact rankAt_of_head h hd

theorem HmtReaches.step {m' depth' : Nat} (hstep : ∀ fuel,
      hmtMatchLoop pt s (fuel + 1) m depth = hmtMatchLoop pt s fuel m' depth')
    (h : HmtReaches pt s m' depth') : HmtReaches pt s m depth := by
  obtain ⟨r, hr, n, hn⟩ := h
  refine ⟨r, hr, n + 1, ?_⟩
  intro fuel hfuel
  obtain ⟨k, rfl⟩ : ∃ k, fuel = k + 1 := ⟨fuel - 1, by omega⟩
  rw [hstep k]
  exact hn k (by omega)

theorem HmtReaches.done {r : HmtMatch} (hr : HmtAnswer pt s r)
    (hdone : ∀ fuel, hmtMatchLoop pt s (fuel + 1) m depth = .ok r) : HmtReaches pt s m depth := by
  refine ⟨r, hr, 1, ?_⟩
  intro fuel hfuel
  obtain ⟨k, rfl⟩ : ∃ k, fuel = k + 1 := ⟨fuel - 1, by omega⟩
  exact hdone k

/-! ## 行き止まり -/

theorem hmtFindSomeoneElse_answer (hc : pt.Compiled) (hm : m < pt.cnt)
    (hd : depth < (pt.pattern m).length)
    (hsame : (pt.pattern m).take depth = s.bytes.take depth)
    (hnone : ∀ j < pt.cnt, pt.pattern j <+: s.bytes → (pt.pattern j).length ≤ depth) :
    HmtAnswer pt s (hmtFindSomeoneElse pt m depth) := by
  unfold hmtFindSomeoneElse
  rcases hc.someone m hm depth hd with ⟨hn, hall⟩ | ⟨k, hn, hk, hkd, hkpre, hall⟩
  · rw [if_pos hn]
    refine .inr ⟨?_, rfl⟩
    intro j hj hpre
    have hjd := hnone j hj hpre
    exact hall j hj hjd ((head_congr hsame hjd).mpr hpre)
  · have hne : pt.tables.someoneElseMatchedTable (pt.index m depth) ≠ -1 := by omega
    rw [if_neg hne, hn]
    refine .inl ⟨k, hk, (head_congr hsame hkd).mp hkpre, ?_, rfl⟩
    intro j hj hpre
    have hjd := hnone j hj hpre
    exact hall j hj hjd ((head_congr hsame hjd).mpr hpre)

/-! ## 一文字の比較 -/

def Ascii (p : List UInt8) : Prop := ∀ c ∈ p, c.toNat < 128

instance (p : List UInt8) : Decidable (Ascii p) :=
  decidable_of_iff (p.all fun c => decide (c.toNat < 128)) (by simp [Ascii])

theorem Ascii.getD_lt {p : List UInt8} (h : Ascii p) (d : Nat) : (p.getD d 0).toNat < 128 := by
  rw [List.getD_eq_getElem?_getD]
  cases hd : p[d]? with
  | none => decide
  | some c => exact h c (List.mem_of_getElem? hd)

theorem schar_of_lt {c : UInt8} (h : c.toNat < 128) : schar c = c.toNat := by
  show c.toBitVec.toInt = c.toNat
  exact BitVec.toInt_eq_toNat_of_lt (show 2 * c.toNat < 2 ^ 8 by omega)

/-- 表から引いた行き先へ移る。行き止まりなら、短い pattern を採る。 -/
def hmtJump (pt : Hmt) (s : CStr) (fuel m depth : Nat) (n : Int) (depth' : Nat) :
    Except Fault HmtMatch :=
  if n = -1 then .ok (hmtFindSomeoneElse pt m depth) else hmtMatchLoop pt s fuel n.toNat depth'

@[simp] theorem hmtJump_none (fuel depth' : Nat) :
    hmtJump pt s fuel m depth (-1) depth' = .ok (hmtFindSomeoneElse pt m depth) := rfl

@[simp] theorem hmtJump_natCast (fuel n depth' : Nat) :
    hmtJump pt s fuel m depth n depth' = hmtMatchLoop pt s fuel n depth' := by
  unfold hmtJump
  rw [if_neg (by omega), Int.toNat_natCast]

theorem hmtMatchLoop_succ (hs : Ascii s.bytes) (hp : Ascii (pt.pattern m)) (fuel : Nat)
    (hd : depth < pt.patternLenMax) (hpc : pt.char m depth ≠ 0) :
    hmtMatchLoop pt s (fuel + 1) m depth =
      if s.bytes.getD depth 0 = pt.char m depth then
        hmtJump pt s fuel m depth (pt.tables.nextLevelEnterPointTable (pt.index m depth)) (depth + 1)
      else if (pt.char m depth).toNat < (s.bytes.getD depth 0).toNat then
        hmtJump pt s fuel m depth (pt.tables.higherJumpTable (pt.index m depth)) depth
      else hmtJump pt s fuel m depth (pt.tables.lowerJumpTable (pt.index m depth)) depth := by
  have hsc := schar_of_lt (hs.getD_lt depth)
  have hsp : schar (pt.char m depth) = (pt.char m depth).toNat := schar_of_lt (hp.getD_lt depth)
  rw [hmtMatchLoop, if_pos hd]
  simp only [if_neg hpc, hsc, hsp, gt_iff_lt, Int.ofNat_lt, hmtJump]

/-! ## 探索 -/

namespace HmtSearching

variable (h : HmtSearching pt s depth start stop)
include h

theorem depth_lt (hr : pt.Ready) : depth < pt.patternLenMax :=
  Nat.lt_of_le_of_lt (h.long start (Nat.le_refl start) h.le)
    (hr.length_lt (Nat.lt_of_le_of_lt h.le h.lt))

theorem locate (hsplit : HmtSplit pt depth start stop bs be) {j : Nat} (hj : j < pt.cnt)
    (hpre : pt.pattern j <+: s.bytes) (hlen : depth < (pt.pattern j).length) :
    (start ≤ j ∧ j < bs ∧ (pt.char bs depth).toNat < (s.bytes.getD depth 0).toNat)
      ∨ (bs ≤ j ∧ j ≤ be ∧ s.bytes.getD depth 0 = pt.char bs depth)
      ∨ (be < j ∧ j ≤ stop ∧ (s.bytes.getD depth 0).toNat < (pt.char bs depth).toNat) := by
  obtain ⟨h1, h2⟩ := h.inside j hj hpre hlen
  rw [← char_of_head hpre hlen]
  by_cases hjs : j < bs
  · exact .inl ⟨h1, hjs, hsplit.higher j h1 hjs⟩
  · by_cases hje : j ≤ be
    · exact .inr (.inl ⟨by omega, hje, hsplit.group j (by omega) hje⟩)
    · exact .inr (.inr ⟨by omega, h2, hsplit.lower j (by omega) h2⟩)

theorem sub {start' stop' : Nat} (h1 : start ≤ start') (h2 : start' ≤ stop') (h3 : stop' ≤ stop)
    (hinside : ∀ j < pt.cnt, pt.pattern j <+: s.bytes → depth < (pt.pattern j).length →
      start' ≤ j ∧ j ≤ stop') : HmtSearching pt s depth start' stop' where
  le := h2
  lt := Nat.lt_of_le_of_lt h3 h.lt
  same i hi hi' := h.same i (Nat.le_trans h1 hi) (Nat.le_trans hi' h3)
  long i hi hi' := h.long i (Nat.le_trans h1 hi) (Nat.le_trans hi' h3)
  inside := hinside

theorem higher (hsplit : HmtSplit pt depth start stop bs be) (hbs : bs ≠ start)
    (hlt : (pt.char bs depth).toNat < (s.bytes.getD depth 0).toNat) :
    HmtSearching pt s depth start (bs - 1) := by
  have hb1 := hsplit.start_le
  have hb2 := hsplit.le
  have hb3 := hsplit.le_stop
  refine h.sub (Nat.le_refl start) (by omega) (by omega) ?_
  intro j hj hpre hlen
  rcases h.locate hsplit hj hpre hlen with hj' | ⟨-, -, heq⟩ | hj'
  · omega
  · rw [heq] at hlt
    omega
  · omega

theorem lower (hsplit : HmtSplit pt depth start stop bs be) (hbe : be ≠ stop)
    (hlt : (s.bytes.getD depth 0).toNat < (pt.char bs depth).toNat) :
    HmtSearching pt s depth (be + 1) stop := by
  have hb1 := hsplit.start_le
  have hb2 := hsplit.le
  have hb3 := hsplit.le_stop
  refine h.sub (by omega) (by omega) (Nat.le_refl stop) ?_
  intro j hj hpre hlen
  rcases h.locate hsplit hj hpre hlen with hj' | ⟨-, -, heq⟩ | hj'
  · omega
  · rw [heq] at hlt
    omega
  · omega

theorem next (hsplit : HmtSplit pt depth start stop bs be)
    (heq : s.bytes.getD depth 0 = pt.char bs depth) : HmtSearching pt s (depth + 1) bs be := by
  have hb1 := hsplit.start_le
  have hb3 := hsplit.le_stop
  refine ⟨hsplit.le, Nat.lt_of_le_of_lt hb3 h.lt, ?_, ?_, ?_⟩
  · intro i hi hi'
    have hchar := (hsplit.group i hi hi').trans heq.symm
    have hrank : rankAt UInt8.toNat (pt.pattern i) depth
        = rankAt UInt8.toNat s.bytes depth := by
      rw [← Hmt.Ready.toNat_char, ← toNat_string, hchar]
    have hpos : 0 < rankAt UInt8.toNat (pt.pattern i) depth := by
      refine rankAt_pos_of_lt (Hmt.Ready.ranked pt i) (Hmt.Ready.char_ne_zero.mp ?_)
      rw [hsplit.group i hi hi']
      exact hsplit.ne_zero
    exact take_succ_congr (fun _ _ h => UInt8.toNat_inj.mp h)
      (h.same i (Nat.le_trans hb1 hi) (Nat.le_trans hi' hb3)) hrank hpos
  · intro i hi hi'
    refine Hmt.Ready.char_ne_zero.mp ?_
    rw [hsplit.group i hi hi']
    exact hsplit.ne_zero
  · intro j hj hpre hlen
    rcases h.locate hsplit hj hpre (Nat.lt_of_succ_lt hlen) with ⟨-, -, hlt⟩ | hj' | ⟨-, -, hlt⟩
    · rw [heq] at hlt
      omega
    · exact ⟨hj'.1, hj'.2.1⟩
    · rw [heq] at hlt
      omega

theorem dead_end (hc : pt.Compiled) (hsplit : HmtSplit pt depth start stop bs be)
    (hne : s.bytes.getD depth 0 ≠ pt.char bs depth)
    (hhigher : (pt.char bs depth).toNat < (s.bytes.getD depth 0).toNat → bs = start)
    (hlower : (s.bytes.getD depth 0).toNat < (pt.char bs depth).toNat → be = stop) :
    HmtAnswer pt s (hmtFindSomeoneElse pt bs depth) := by
  have hb1 := hsplit.start_le
  have hb2 := hsplit.le
  have hb3 := hsplit.le_stop
  have hbs : bs < pt.cnt := Nat.lt_of_le_of_lt (Nat.le_trans hb2 hb3) h.lt
  refine hmtFindSomeoneElse_answer hc hbs (Hmt.Ready.char_ne_zero.mp hsplit.ne_zero)
    (h.same bs hb1 (Nat.le_trans hb2 hb3)) ?_
  intro j hj hpre
  by_contra hlen
  rcases h.locate hsplit hj hpre (Nat.lt_of_not_le hlen) with ⟨h1, h2, h3⟩ | ⟨-, -, heq⟩ | ⟨h1, h2, h3⟩
  · have hbs' := hhigher h3
    omega
  · exact hne heq
  · have hbe' := hlower h3
    omega

end HmtSearching

theorem HmtSearching.leaf_answer (h : HmtSearching pt s depth i i) (hend : pt.char i depth = 0) :
    HmtAnswer pt s (hmtMatched pt i) := by
  have hlen : (pt.pattern i).length ≤ depth := by
    by_contra hlong
    exact Hmt.Ready.char_ne_zero.mpr (Nat.lt_of_not_le hlong) hend
  have hpre : pt.pattern i <+: s.bytes := by
    rw [← List.take_of_length_le hlen, h.same i (Nat.le_refl i) (Nat.le_refl i)]
    exact List.take_prefix _ _
  refine .inl ⟨i, h.lt, hpre, ?_, rfl⟩
  intro j hj hjpre
  have hlong := h.long i (Nat.le_refl i) (Nat.le_refl i)
  by_contra hlt
  obtain ⟨h1, h2⟩ := h.inside j hj hjpre (by omega)
  rw [Nat.le_antisymm h2 h1] at hlt
  exact hlt (Nat.le_refl _)

theorem HmtEnter.reaches (hc : pt.Compiled) (hp : ∀ i, Ascii (pt.pattern i)) (hs : Ascii s.bytes)
    (henter : HmtEnter pt pt.tables depth start stop m)
    (h : HmtSearching pt s depth start stop) : HmtReaches pt s m depth := by
  induction henter with
  | @leaf depth i hend =>
    refine .done (h.leaf_answer hend) fun fuel => ?_
    rw [hmtMatchLoop, if_pos (h.depth_lt hc.ready)]
    exact if_pos hend
  | @node depth start stop bs be higher lower next hsplit hnoHigher hhigher hnoLower hlower hnext
      _ _ _ ihHigher ihLower ihNext =>
    have hloop := fun fuel => hmtMatchLoop_succ hs (hp bs) fuel (h.depth_lt hc.ready) hsplit.ne_zero
    by_cases heq : s.bytes.getD depth 0 = pt.char bs depth
    · refine .step (fun fuel => ?_) (ihNext (h.next hsplit heq))
      rw [hloop, if_pos heq, hnext, hmtJump_natCast]
    · have hne : (s.bytes.getD depth 0).toNat ≠ (pt.char bs depth).toNat :=
        fun hnat => heq (UInt8.toNat_inj.mp hnat)
      by_cases hlt : (pt.char bs depth).toNat < (s.bytes.getD depth 0).toNat
      · by_cases hbs : bs = start
        · refine .done (h.dead_end hc hsplit heq (fun _ => hbs) (by omega)) fun fuel => ?_
          rw [hloop, if_neg heq, if_pos hlt, hnoHigher hbs, hmtJump_none]
        · refine .step (fun fuel => ?_) (ihHigher hbs (h.higher hsplit hbs hlt))
          rw [hloop, if_neg heq, if_pos hlt, hhigher hbs, hmtJump_natCast]
      · by_cases hbe : be = stop
        · refine .done (h.dead_end hc hsplit heq (by omega) (fun _ => hbe)) fun fuel => ?_
          rw [hloop, if_neg heq, if_neg hlt, hnoLower hbe, hmtJump_none]
        · refine .step (fun fuel => ?_) (ihLower hbe (h.lower hsplit hbe (by omega)))
          rw [hloop, if_neg heq, if_neg hlt, hlower hbe, hmtJump_natCast]

theorem HmtSearching.all (h : 0 < pt.cnt) (s : CStr) : HmtSearching pt s 0 0 (pt.cnt - 1) where
  le := Nat.zero_le _
  lt := Nat.sub_one_lt_of_lt h
  same _ _ _ := rfl
  long _ _ _ := Nat.zero_le _
  inside _ hj _ _ := ⟨Nat.zero_le _, Nat.le_sub_one_of_lt hj⟩

/-! ## 最長一致 -/

theorem hmtMatch_answer (hc : pt.Compiled) (hp : ∀ i, Ascii (pt.pattern i)) (hs : Ascii s.bytes) :
    ∃ r, HmtAnswer pt s r ∧ ∃ n, ∀ fuel, n ≤ fuel → hmtMatch pt s fuel = .ok r := by
  obtain ⟨m, hm, henter⟩ := hc.enter
  obtain ⟨r, hr, n, hn⟩ := henter.reaches hc hp hs (.all hc.pos s)
  refine ⟨r, hr, n, ?_⟩
  intro fuel hfuel
  unfold hmtMatch
  rw [hm, if_neg (by omega), Int.toNat_natCast]
  exact hn fuel hfuel

theorem Hmt.exists_index {a : HmtItem} (h : a ∈ pt.items) :
    ∃ i < pt.cnt, pt.items.getD i default = a ∧ pt.pattern i = a.pattern.bytes := by
  obtain ⟨i, hi, rfl⟩ := List.mem_iff_getElem.mp h
  have hget : pt.items.getD i default = pt.items[i] := by
    rw [List.getD_eq_getElem?_getD, List.getElem?_eq_getElem hi]
    rfl
  exact ⟨i, hi, hget, by unfold Hmt.pattern; rw [hget]⟩

theorem Hmt.getD_mem (hi : i < pt.cnt) : pt.items.getD i default ∈ pt.items := by
  rw [List.getD_eq_getElem?_getD, List.getElem?_eq_getElem hi]
  exact List.getElem_mem hi

theorem Hmt.Ready.index_unique {j : Nat} (hr : pt.Ready) (hi : i < pt.cnt) (hj : j < pt.cnt)
    (hpi : pt.pattern i <+: s.bytes) (hpj : pt.pattern j <+: s.bytes)
    (hlen : (pt.pattern i).length = (pt.pattern j).length) : i = j := by
  rcases Nat.lt_trichotomy i j with hlt | heq | hlt
  · have h := (hr.above hlt hj).length_lt hpi hpj
    omega
  · exact heq
  · have h := (hr.above hlt hi).length_lt hpj hpi
    omega

theorem Hmt.Compiled.longest {tree : Hmt} (hc : tree.Compiled) {items : List HmtItem}
    (hperm : tree.items.Perm items) (hascii : ∀ a ∈ items, Ascii a.pattern.bytes)
    (hs : Ascii s.bytes) :
    ∃ r : HmtMatch, (∃ n, ∀ fuel, n ≤ fuel → hmtMatch tree s fuel = .ok r)
      ∧ (∀ a ∈ items, IsLongestHead (items.map fun b => b.pattern.bytes) s.bytes a.pattern.bytes →
        r = { userdata := a.userdata, matchedLength := some a.pattern.bytes.length })
      ∧ ((∃ a ∈ items, a.pattern.bytes <+: s.bytes ∧ r.userdata = a.userdata)
        ∨ (∀ a ∈ items, ¬ a.pattern.bytes <+: s.bytes) ∧ r = .null) := by
  have hpat : ∀ i, Ascii (tree.pattern i) := by
    intro i
    by_cases hi : i < tree.cnt
    · exact hascii _ (hperm.subset (Hmt.getD_mem hi))
    · intro c hc'
      unfold Hmt.pattern at hc'
      rw [List.getD_eq_getElem?_getD, List.getElem?_eq_none (Nat.le_of_not_lt hi)] at hc'
      cases hc'
  obtain ⟨r, hanswer, hreach⟩ := hmtMatch_answer hc hpat hs
  refine ⟨r, hreach, ?_⟩
  rcases hanswer with ⟨i, hi, hpre, hlongest, rfl⟩ | ⟨hnone, rfl⟩
  · refine ⟨?_, .inl ⟨_, hperm.subset (Hmt.getD_mem hi), hpre, rfl⟩⟩
    intro a ha hbest
    obtain ⟨j, hj, hitem, hpatj⟩ := Hmt.exists_index (hperm.symm.subset ha)
    have hprej : tree.pattern j <+: s.bytes := by
      rw [hpatj]
      exact hbest.head
    have hle := hlongest j hj hprej
    have hge : (tree.pattern i).length ≤ (tree.pattern j).length := by
      rw [hpatj]
      exact hbest.longest _ (List.mem_map_of_mem (hperm.subset (Hmt.getD_mem hi))) hpre
    obtain rfl := hc.ready.index_unique hi hj hpre hprej (Nat.le_antisymm hge hle)
    unfold hmtMatched
    rw [hitem, hc.lengths i hi, hpatj]
  · have hall : ∀ a ∈ items, ¬ a.pattern.bytes <+: s.bytes := by
      intro a ha
      obtain ⟨j, hj, -, hpatj⟩ := Hmt.exists_index (hperm.symm.subset ha)
      rw [← hpatj]
      exact hnone j hj
    exact ⟨fun a ha hbest => absurd hbest.head (hall a ha), .inr ⟨hall, rfl⟩⟩

/--
**head match tree は最長一致を返す。**

`hmt_new2` の受け付けるどの大きさと scale でも、`hmt_add` と `hmt_add2` でどの順に加えた pattern でも、
`hmt_compile` は成功し、`hmt_match` は、文字列の prefix である最も長い pattern の `userdata` と長さを返す。
NULL を返すのは、どの pattern も prefix でないとき、そのときに限る。
-/
theorem hmt_match_longest (max scale : Int) (pt0 pt : Hmt) (adds : List HmtItem)
    (heap : HmtTables) (s : CStr) (hnew : hmtNew2 max scale = some pt0) (hne : adds ≠ [])
    (hascii : ∀ a ∈ adds, Ascii a.pattern.bytes) (hdata : ∀ a ∈ adds, a.userdata ≠ 0)
    (hadd : hmtAddAll pt0 adds = some pt) (hs : Ascii s.bytes) :
    (hmtCompile pt heap).1 = 0 ∧
      ∃ r : HmtMatch, (∃ n, ∀ fuel, n ≤ fuel → hmtMatch (hmtCompile pt heap).2 s fuel = .ok r)
        ∧ (∀ a ∈ adds, IsLongestHead (adds.map fun b => b.pattern.bytes) s.bytes a.pattern.bytes →
          r = { userdata := a.userdata, matchedLength := some a.pattern.bytes.length })
        ∧ (r.userdata = 0 ↔ ∀ a ∈ adds, ¬ a.pattern.bytes <+: s.bytes) := by
  obtain ⟨hready0, hempty⟩ := hmtNew2_ready hnew
  obtain ⟨hready, hperm⟩ := hmtAddAll_some hready0 hadd
  rw [hempty, List.nil_append] at hperm
  have hitems : pt.items ≠ [] := by
    intro h
    rw [h] at hperm
    exact hne hperm.nil_eq.symm
  obtain ⟨hok, hc, hsame⟩ := hmtCompile_compiled hready hitems heap
  obtain ⟨r, hreach, hbest, hanswer⟩ :=
    hc.longest (hsame.symm ▸ hperm : (hmtCompile pt heap).2.items.Perm adds) hascii hs
  refine ⟨hok, r, hreach, hbest, ?_⟩
  rcases hanswer with ⟨a, ha, hpre, hr⟩ | ⟨hall, rfl⟩
  · constructor
    · intro h0
      exact absurd (hr.symm.trans h0) (hdata a ha)
    · intro hall
      exact absurd hpre (hall a ha)
  · exact ⟨fun _ => hall, fun _ => rfl⟩

def hmtSampleRes : HmtItem where
  pattern := ⟨[47, 114, 101, 115, 47], by decide⟩
  userdata := 2
  mallocItem := false

def hmtSampleAdds : List HmtItem :=
  [{ pattern := ⟨[47], by decide⟩, userdata := 1, mallocItem := true }, hmtSampleRes]

def hmtSampleString : CStr := ⟨[47, 114, 101, 115, 47, 120], by decide⟩

theorem hmt_match_res :
    ∃ pt0 pt, hmtNew2 20 hmtScale16 = some pt0 ∧ hmtAddAll pt0 hmtSampleAdds = some pt
      ∧ ∃ n, ∀ fuel, n ≤ fuel → hmtMatch (hmtCompile pt .null).2 hmtSampleString fuel
        = .ok { userdata := 2, matchedLength := some 5 } := by
  obtain ⟨-, r, ⟨n, hn⟩, hbest, -⟩ := hmt_match_longest 20 hmtScale16 _ _ hmtSampleAdds .null
    hmtSampleString rfl (by decide) (by decide) (by decide) rfl (by decide)
  refine ⟨_, _, rfl, rfl, n, ?_⟩
  intro fuel hfuel
  rw [hn fuel hfuel, hbest hmtSampleRes (by decide) ⟨by decide, by decide, by decide⟩]
  rfl

end Esq
