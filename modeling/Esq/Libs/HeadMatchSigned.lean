import Esq.Libs.HeadMatch

/-!
# 128 以上の文字を含む head match tree

`hmt_add` は `strncmp` で pattern を並べ、文字を `unsigned char` として比べる。`hmt_match` は文字を `char`
として比べる。`char` には符号があるので、127 までの文字と 128 以上の文字では大小が逆になる。

* `hmt_match_own_iff` — 登録したどの pattern もそれ自身に一致するのは、初めて異なる文字が一方だけ
  128 以上である二つの pattern が無いときに限る
-/

namespace Esq

open Infra

/-! ## 文字の大小 -/

/-- 初めて異なる文字は、どちらも 127 以下か、どちらも 128 以上である。 -/
def SameSide (p q : List UInt8) : Prop :=
  ∀ d, d < p.length → d < q.length → p.take d = q.take d →
    ((p.getD d 0).toNat < 128 ↔ (q.getD d 0).toNat < 128)

instance (p q : List UInt8) : Decidable (SameSide p q) :=
  inferInstanceAs (Decidable (∀ d, d < p.length → d < q.length → p.take d = q.take d →
    ((p.getD d 0).toNat < 128 ↔ (q.getD d 0).toNat < 128)))

theorem SameSide.refl (p : List UInt8) : SameSide p p := fun _ _ _ _ => Iff.rfl

theorem schar_eq (c : UInt8) : schar c = if c.toNat < 128 then (c.toNat : Int) else c.toNat - 256 := by
  have h : schar c = if 2 * c.toNat < 2 ^ 8 then (c.toNat : Int) else (c.toNat : Int) - (2 ^ 8 : Nat) :=
    BitVec.toInt_eq_toNat_cond c.toBitVec
  rw [h]
  by_cases hc : c.toNat < 128
  · rw [if_pos hc, if_pos (by omega)]
  · rw [if_neg hc, if_neg (by omega)]
    rfl

theorem schar_lt_iff {c d : UInt8} (h : c.toNat < 128 ↔ d.toNat < 128) :
    schar c < schar d ↔ c.toNat < d.toNat := by
  have hc := c.toNat_lt
  have hd := d.toNat_lt
  rw [schar_eq, schar_eq]
  split_ifs <;> omega

theorem schar_lt_of_mixed {c d : UInt8} (hc : 128 ≤ c.toNat) (hd : d.toNat < 128) :
    schar c < schar d := by
  have := c.toNat_lt
  rw [schar_eq, schar_eq, if_neg (by omega), if_pos hd]
  omega

/-! ## loop の結果 -/

variable {pt : Hmt} {s : CStr} {depth start stop bs be i m : Nat}

def HmtYields (pt : Hmt) (s : CStr) (m depth : Nat) (r : HmtMatch) : Prop :=
  ∃ n, ∀ fuel, n ≤ fuel → hmtMatchLoop pt s fuel m depth = .ok r

namespace HmtYields

theorem unique {r r' : HmtMatch} (h : HmtYields pt s m depth r) (h' : HmtYields pt s m depth r') :
    r = r' := by
  obtain ⟨n, hn⟩ := h
  obtain ⟨n', hn'⟩ := h'
  have heq := (hn (max n n') (Nat.le_max_left ..)).symm.trans (hn' (max n n') (Nat.le_max_right ..))
  exact Except.ok.inj heq

theorem step_iff {m' depth' : Nat} {r : HmtMatch} (hstep : ∀ fuel,
      hmtMatchLoop pt s (fuel + 1) m depth = hmtMatchLoop pt s fuel m' depth') :
    HmtYields pt s m depth r ↔ HmtYields pt s m' depth' r := by
  constructor
  · rintro ⟨n, hn⟩
    exact ⟨n, fun fuel hfuel => (hstep fuel).symm.trans (hn (fuel + 1) (by omega))⟩
  · rintro ⟨n, hn⟩
    refine ⟨n + 1, fun fuel hfuel => ?_⟩
    obtain ⟨k, rfl⟩ : ∃ k, fuel = k + 1 := ⟨fuel - 1, by omega⟩
    exact (hstep k).trans (hn k (by omega))

theorem done {r : HmtMatch} (hdone : ∀ fuel, hmtMatchLoop pt s (fuel + 1) m depth = .ok r) :
    HmtYields pt s m depth r := by
  refine ⟨1, fun fuel hfuel => ?_⟩
  obtain ⟨k, rfl⟩ : ∃ k, fuel = k + 1 := ⟨fuel - 1, by omega⟩
  exact hdone k

end HmtYields

theorem hmtMatchLoop_signed (fuel : Nat) (hd : depth < pt.patternLenMax)
    (hpc : pt.char m depth ≠ 0) :
    hmtMatchLoop pt s (fuel + 1) m depth =
      if s.bytes.getD depth 0 = pt.char m depth then
        hmtJump pt s fuel m depth (pt.tables.nextLevelEnterPointTable (pt.index m depth)) (depth + 1)
      else if schar (pt.char m depth) < schar (s.bytes.getD depth 0) then
        hmtJump pt s fuel m depth (pt.tables.higherJumpTable (pt.index m depth)) depth
      else hmtJump pt s fuel m depth (pt.tables.lowerJumpTable (pt.index m depth)) depth := by
  rw [hmtMatchLoop, if_pos hd]
  simp only [if_neg hpc, gt_iff_lt, hmtJump]

section

variable {r : HmtMatch} {n : Nat} (hd : depth < pt.patternLenMax) (hpc : pt.char m depth ≠ 0)

include hd hpc

theorem HmtYields.next_iff (heq : s.bytes.getD depth 0 = pt.char m depth)
    (hj : pt.tables.nextLevelEnterPointTable (pt.index m depth) = n) :
    HmtYields pt s m depth r ↔ HmtYields pt s n (depth + 1) r := by
  refine HmtYields.step_iff fun fuel => ?_
  rw [hmtMatchLoop_signed fuel hd hpc, if_pos heq, hj, hmtJump_natCast]

variable (hne : s.bytes.getD depth 0 ≠ pt.char m depth)

include hne

theorem HmtYields.higher_iff (hlt : schar (pt.char m depth) < schar (s.bytes.getD depth 0))
    (hj : pt.tables.higherJumpTable (pt.index m depth) = n) :
    HmtYields pt s m depth r ↔ HmtYields pt s n depth r := by
  refine HmtYields.step_iff fun fuel => ?_
  rw [hmtMatchLoop_signed fuel hd hpc, if_neg hne, if_pos hlt, hj, hmtJump_natCast]

theorem HmtYields.lower_iff (hlt : ¬ schar (pt.char m depth) < schar (s.bytes.getD depth 0))
    (hj : pt.tables.lowerJumpTable (pt.index m depth) = n) :
    HmtYields pt s m depth r ↔ HmtYields pt s n depth r := by
  refine HmtYields.step_iff fun fuel => ?_
  rw [hmtMatchLoop_signed fuel hd hpc, if_neg hne, if_neg hlt, hj, hmtJump_natCast]

theorem HmtYields.noHigher (hlt : schar (pt.char m depth) < schar (s.bytes.getD depth 0))
    (hj : pt.tables.higherJumpTable (pt.index m depth) = -1) :
    HmtYields pt s m depth (hmtFindSomeoneElse pt m depth) := by
  refine HmtYields.done fun fuel => ?_
  rw [hmtMatchLoop_signed fuel hd hpc, if_neg hne, if_pos hlt, hj, hmtJump_none]

theorem HmtYields.noLower (hlt : ¬ schar (pt.char m depth) < schar (s.bytes.getD depth 0))
    (hj : pt.tables.lowerJumpTable (pt.index m depth) = -1) :
    HmtYields pt s m depth (hmtFindSomeoneElse pt m depth) := by
  refine HmtYields.done fun fuel => ?_
  rw [hmtMatchLoop_signed fuel hd hpc, if_neg hne, if_neg hlt, hj, hmtJump_none]

end

/-- 長さが `depth` 以下の pattern のうち、最も長いものの答え。 -/
def HmtAnswerUpTo (pt : Hmt) (s : CStr) (depth : Nat) (r : HmtMatch) : Prop :=
  (∃ i < pt.cnt, (pt.pattern i).length ≤ depth ∧ pt.pattern i <+: s.bytes
    ∧ (∀ j < pt.cnt, (pt.pattern j).length ≤ depth → pt.pattern j <+: s.bytes →
      (pt.pattern j).length ≤ (pt.pattern i).length)
    ∧ r = hmtMatched pt i)
  ∨ (∀ j < pt.cnt, (pt.pattern j).length ≤ depth → ¬ pt.pattern j <+: s.bytes) ∧ r = .null

theorem hmtFindSomeoneElse_upTo (hc : pt.Compiled) (hm : m < pt.cnt)
    (hd : depth < (pt.pattern m).length)
    (hsame : (pt.pattern m).take depth = s.bytes.take depth) :
    HmtAnswerUpTo pt s depth (hmtFindSomeoneElse pt m depth) := by
  unfold hmtFindSomeoneElse
  rcases hc.someone m hm depth hd with ⟨hn, hall⟩ | ⟨k, hn, hk, hkd, hkpre, hall⟩
  · rw [if_pos hn]
    exact .inr ⟨fun j hj hjd hpre => hall j hj hjd ((head_congr hsame hjd).mpr hpre), rfl⟩
  · have hne : pt.tables.someoneElseMatchedTable (pt.index m depth) ≠ -1 := by omega
    rw [if_neg hne, hn]
    refine .inl ⟨k, hk, hkd, (head_congr hsame hkd).mp hkpre, fun j hj hjd hpre => ?_, rfl⟩
    exact hall j hj hjd ((head_congr hsame hjd).mpr hpre)

theorem HmtAnswerUpTo.ne_matched (hc : pt.Compiled) {r : HmtMatch}
    (h : HmtAnswerUpTo pt s depth r) (hi : i < pt.cnt) (hlen : depth < (pt.pattern i).length) :
    r ≠ hmtMatched pt i := by
  intro he
  have hlength := congrArg HmtMatch.matchedLength he
  rcases h with ⟨k, hk, hkd, -, -, rfl⟩ | ⟨-, rfl⟩
  · have hkl : pt.tables.patternsLength k = pt.tables.patternsLength i := Option.some.inj hlength
    rw [hc.lengths k hk, hc.lengths i hi] at hkl
    omega
  · cases hlength

theorem HmtAnswerUpTo.eq_matched (hc : pt.Compiled) {r : HmtMatch}
    (h : HmtAnswerUpTo pt s depth r) (hi : i < pt.cnt) (hs : pt.pattern i = s.bytes)
    (hlen : (pt.pattern i).length = depth) : r = hmtMatched pt i := by
  have hpre : pt.pattern i <+: s.bytes := by
    rw [hs]
  rcases h with ⟨k, hk, hkd, hkpre, hall, rfl⟩ | ⟨hall, -⟩
  · have hle := hall i hi hlen.le hpre
    rw [hc.ready.index_unique hk hi hkpre hpre (by omega)]
  · exact absurd hpre (hall i hi hlen.le)

/-! ## 探す文字の無い範囲 -/

theorem HmtCommon.depth_lt (h : HmtCommon pt depth start stop) (hr : pt.Ready) :
    depth < pt.patternLenMax :=
  Nat.lt_of_le_of_lt (h.long start (Nat.le_refl start) h.le)
    (hr.length_lt (Nat.lt_of_le_of_lt h.le h.lt))

/-- **次の文字が範囲に無ければ、loop は `depth` 以下の長さの答えを返す。** 文字の大小の付け方によらない。 -/
theorem HmtEnter.misses (hc : pt.Compiled) (henter : HmtEnter pt pt.tables depth start stop m)
    (hcommon : HmtCommon pt depth start stop)
    (hsame : (pt.pattern start).take depth = s.bytes.take depth)
    (hne : ∀ i, start ≤ i → i ≤ stop → pt.char i depth ≠ 0 →
      s.bytes.getD depth 0 ≠ pt.char i depth) :
    ∃ r, HmtYields pt s m depth r ∧ HmtAnswerUpTo pt s depth r := by
  induction henter with
  | @leaf depth i hend =>
    have hlen : (pt.pattern i).length ≤ depth := by
      by_contra hlong
      exact Hmt.Ready.char_ne_zero.mpr (Nat.lt_of_not_le hlong) hend
    have hlong := hcommon.long i (Nat.le_refl i) (Nat.le_refl i)
    have hpre : pt.pattern i <+: s.bytes := by
      rw [← List.take_of_length_le hlen, hsame]
      exact List.take_prefix _ _
    refine ⟨_, .done fun fuel => ?_, .inl ⟨i, hcommon.lt, hlen, hpre, fun j _ hjd _ => ?_, rfl⟩⟩
    · rw [hmtMatchLoop, if_pos (hcommon.depth_lt hc.ready)]
      exact if_pos hend
    · omega
  | @node depth start stop bs be higher lower next hsplit hnoHigher hhigher hnoLower hlower hnext
      _ _ _ ihHigher ihLower _ =>
    have hb1 := hsplit.start_le
    have hb2 := hsplit.le
    have hb3 := hsplit.le_stop
    have hsameAt : ∀ k, start ≤ k → k ≤ stop → (pt.pattern k).take depth = s.bytes.take depth :=
      fun k hk hk' => (hcommon.same k hk hk').trans hsame
    have hd := hcommon.depth_lt hc.ready
    have hpc := hne bs hb1 (Nat.le_trans hb2 hb3) hsplit.ne_zero
    have hdead : HmtAnswerUpTo pt s depth (hmtFindSomeoneElse pt bs depth) :=
      hmtFindSomeoneElse_upTo hc (Nat.lt_of_le_of_lt (Nat.le_trans hb2 hb3) hcommon.lt)
        (Hmt.Ready.char_ne_zero.mp hsplit.ne_zero) (hsameAt bs hb1 (Nat.le_trans hb2 hb3))
    by_cases hlt : schar (pt.char bs depth) < schar (s.bytes.getD depth 0)
    · by_cases hbs : bs = start
      · exact ⟨_, .noHigher hd hsplit.ne_zero hpc hlt (hnoHigher hbs), hdead⟩
      · obtain ⟨r, hr, hans⟩ := ihHigher hbs (hcommon.sub (Nat.le_refl start) (by omega) (by omega))
          hsame fun k hk hk' => hne k hk (by omega)
        exact ⟨r, (HmtYields.higher_iff hd hsplit.ne_zero hpc hlt (hhigher hbs)).mpr hr, hans⟩
    · by_cases hbe : be = stop
      · exact ⟨_, .noLower hd hsplit.ne_zero hpc hlt (hnoLower hbe), hdead⟩
      · obtain ⟨r, hr, hans⟩ := ihLower hbe (hcommon.sub (by omega) (by omega) (Nat.le_refl stop))
          (hsameAt (be + 1) (by omega) (by omega)) fun k hk hk' => hne k (by omega) hk'
        exact ⟨r, (HmtYields.lower_iff hd hsplit.ne_zero hpc hlt (hlower hbe)).mpr hr, hans⟩

/-! ## pattern 自身の照合 -/

/-- `i` 番の pattern を、照合する文字列とする。 -/
def Hmt.subject (pt : Hmt) (i : Nat) : CStr := (pt.items.getD i default).pattern

/-- 範囲のどの pattern も、それ自身に一致する。 -/
def HmtOwn (pt : Hmt) (m depth start stop : Nat) : Prop :=
  ∀ i, start ≤ i → i ≤ stop → HmtYields pt (pt.subject i) m depth (hmtMatched pt i)

/-- 範囲のどの二つの pattern も、初めて異なる文字が同じ側にある。 -/
def HmtOneSided (pt : Hmt) (start stop : Nat) : Prop :=
  ∀ i, start ≤ i → i ≤ stop → ∀ j, start ≤ j → j ≤ stop → SameSide (pt.pattern i) (pt.pattern j)

/-- 次の文字がある pattern は、どれも次の文字が `bs` と同じ側にある。 -/
def HmtLevel (pt : Hmt) (depth start stop bs : Nat) : Prop :=
  ∀ i, start ≤ i → i ≤ stop → pt.char i depth ≠ 0 →
    ((pt.char i depth).toNat < 128 ↔ (pt.char bs depth).toNat < 128)

theorem HmtEnter.own_of_end (hc : pt.Compiled)
    (henter : HmtEnter pt pt.tables depth start stop m) (hcommon : HmtCommon pt depth start stop)
    (hi : i < pt.cnt) (hsame : (pt.pattern i).take depth = (pt.pattern start).take depth)
    (hlen : (pt.pattern i).length = depth) :
    HmtYields pt (pt.subject i) m depth (hmtMatched pt i) := by
  have hzero : pt.char i depth = 0 := by
    by_contra h
    exact absurd (Hmt.Ready.char_ne_zero.mp h) (by omega)
  obtain ⟨r, hr, hans⟩ := henter.misses hc hcommon hsame.symm fun k _ _ hk he =>
    hk (he.symm.trans hzero)
  rw [← hans.eq_matched hc hi rfl hlen]
  exact hr

theorem HmtEnter.not_own (hc : pt.Compiled)
    (henter : HmtEnter pt pt.tables depth start stop m) (hcommon : HmtCommon pt depth start stop)
    (hi : i < pt.cnt) (hsame : (pt.pattern i).take depth = (pt.pattern start).take depth)
    (hlen : depth < (pt.pattern i).length)
    (hne : ∀ k, start ≤ k → k ≤ stop → pt.char i depth ≠ pt.char k depth) :
    ¬ HmtYields pt (pt.subject i) m depth (hmtMatched pt i) := by
  intro h
  obtain ⟨r, hr, hans⟩ := henter.misses hc hcommon hsame.symm fun k hk hk' _ => hne k hk hk'
  exact hans.ne_matched hc hi hlen (hr.unique h)

theorem HmtCommon.sameSide (h : HmtCommon pt depth start stop) {j : Nat} (hi : start ≤ i)
    (hi' : i ≤ stop) (hj : start ≤ j) (hj' : j ≤ stop) (hne : pt.char i depth ≠ pt.char j depth)
    (hside : pt.char i depth ≠ 0 → pt.char j depth ≠ 0 →
      ((pt.char i depth).toNat < 128 ↔ (pt.char j depth).toNat < 128)) :
    SameSide (pt.pattern i) (pt.pattern j) := by
  intro d hdi hdj htake
  have hsame : (pt.pattern i).take depth = (pt.pattern j).take depth :=
    (h.same i hi hi').trans (h.same j hj hj').symm
  have hget : ∀ {k n : Nat}, k < n → (pt.pattern i).take n = (pt.pattern j).take n →
      (pt.pattern i).getD k 0 = (pt.pattern j).getD k 0 := by
    intro k n hk hn
    have hk' := congrArg (fun l : List UInt8 => l[k]?) hn
    rw [List.getElem?_take_of_lt hk, List.getElem?_take_of_lt hk] at hk'
    rw [List.getD_eq_getElem?_getD, List.getD_eq_getElem?_getD, hk']
  rcases Nat.lt_trichotomy d depth with hlt | rfl | hlt
  · rw [hget hlt hsame]
  · exact hside (Hmt.Ready.char_ne_zero.mpr hdi) (Hmt.Ready.char_ne_zero.mpr hdj)
  · exact absurd (hget hlt htake) hne

theorem HmtLevel.oneSided_iff (hlevel : HmtLevel pt depth start stop bs)
    (hcommon : HmtCommon pt depth start stop) (hsplit : HmtSplit pt depth start stop bs be) :
    HmtOneSided pt start stop ↔
      (bs ≠ start → HmtOneSided pt start (bs - 1)) ∧ (be ≠ stop → HmtOneSided pt (be + 1) stop) ∧
        HmtOneSided pt bs be := by
  have hb1 := hsplit.start_le
  have hb2 := hsplit.le
  have hb3 := hsplit.le_stop
  constructor
  · intro h
    refine ⟨fun _ i hi hi' j hj hj' => ?_, fun _ i hi hi' j hj hj' => ?_, fun i hi hi' j hj hj' => ?_⟩
    all_goals exact h i (by omega) (by omega) j (by omega) (by omega)
  · rintro ⟨hhigher, hlower, hgroup⟩
    -- 分けた範囲がちがえば、次の文字がちがう
    have hcross : ∀ i, start ≤ i → i ≤ stop → ∀ j, start ≤ j → j ≤ stop →
        (pt.char j depth).toNat < (pt.char i depth).toNat →
        SameSide (pt.pattern i) (pt.pattern j) ∧ SameSide (pt.pattern j) (pt.pattern i) := by
      intro i hi hi' j hj hj' hlt
      have hne : pt.char i depth ≠ pt.char j depth := fun he => by
        rw [he] at hlt
        omega
      exact ⟨hcommon.sameSide hi hi' hj hj' hne fun h h' =>
          (hlevel i hi hi' h).trans (hlevel j hj hj' h').symm,
        hcommon.sameSide hj hj' hi hi' hne.symm fun h h' =>
          (hlevel j hj hj' h).trans (hlevel i hi hi' h').symm⟩
    have hplace : ∀ k, start ≤ k → k ≤ stop →
        (k < bs → (pt.char bs depth).toNat < (pt.char k depth).toNat) ∧
        (bs ≤ k → k ≤ be → (pt.char k depth).toNat = (pt.char bs depth).toNat) ∧
        (be < k → (pt.char k depth).toNat < (pt.char bs depth).toNat) := fun k hk hk' =>
      ⟨hsplit.higher k hk, fun h h' => by rw [hsplit.group k h h'], fun h => hsplit.lower k h hk'⟩
    intro i hi hi' j hj hj'
    obtain ⟨i1, i2, i3⟩ := hplace i hi hi'
    obtain ⟨j1, j2, j3⟩ := hplace j hj hj'
    rcases Nat.lt_trichotomy (pt.char j depth).toNat (pt.char i depth).toNat with hlt | heq | hlt
    · exact (hcross i hi hi' j hj hj' hlt).1
    · by_cases hib : i < bs
      · exact hhigher (by omega) i hi (by omega) j hj (by omega)
      · by_cases hie : i ≤ be
        · exact hgroup i (by omega) hie j (by omega) (by omega)
        · exact hlower (by omega) i (by omega) hi' j (by omega) hj'
    · exact (hcross j hj hj' i hi hi' hlt).2

section

variable {r : HmtMatch} {n : Nat} (hsplit : HmtSplit pt depth start stop bs be)
  (hd : depth < pt.patternLenMax)

include hsplit hd

theorem HmtSplit.next_iff (hi : bs ≤ i) (hi' : i ≤ be)
    (hj : pt.tables.nextLevelEnterPointTable (pt.index bs depth) = n) :
    HmtYields pt (pt.subject i) bs depth r ↔ HmtYields pt (pt.subject i) n (depth + 1) r :=
  HmtYields.next_iff hd hsplit.ne_zero (hsplit.group i hi hi') hj

variable (hlevel : HmtLevel pt depth start stop bs)

include hlevel

theorem HmtSplit.higher_iff (hi : start ≤ i) (hib : i < bs)
    (hj : pt.tables.higherJumpTable (pt.index bs depth) = n) :
    HmtYields pt (pt.subject i) bs depth r ↔ HmtYields pt (pt.subject i) n depth r := by
  have hgt := hsplit.higher i hi hib
  have hle := Nat.le_trans hib.le (Nat.le_trans hsplit.le hsplit.le_stop)
  have hne0 : pt.char i depth ≠ 0 := fun h0 => by
    rw [h0] at hgt
    exact Nat.not_lt_zero _ hgt
  have hne : (pt.subject i).bytes.getD depth 0 ≠ pt.char bs depth := fun he => by
    rw [← he] at hgt
    exact absurd hgt (Nat.lt_irrefl _)
  exact HmtYields.higher_iff hd hsplit.ne_zero hne
    ((schar_lt_iff (hlevel i hi hle hne0).symm).mpr hgt) hj

theorem HmtSplit.lower_iff (hi : be < i) (hi' : i ≤ stop) (hne0 : pt.char i depth ≠ 0)
    (hj : pt.tables.lowerJumpTable (pt.index bs depth) = n) :
    HmtYields pt (pt.subject i) bs depth r ↔ HmtYields pt (pt.subject i) n depth r := by
  have hlt := hsplit.lower i hi hi'
  have hle := Nat.le_trans hsplit.start_le (Nat.le_trans hsplit.le hi.le)
  have hne : (pt.subject i).bytes.getD depth 0 ≠ pt.char bs depth := fun he => by
    rw [← he] at hlt
    exact absurd hlt (Nat.lt_irrefl _)
  have hnot : ¬ schar (pt.char bs depth) < schar ((pt.subject i).bytes.getD depth 0) :=
    fun h => Nat.lt_asymm hlt ((schar_lt_iff (hlevel i hle hi' hne0).symm).mp h)
  exact HmtYields.lower_iff hd hsplit.ne_zero hne hnot hj

end

theorem HmtSplit.not_own_of_mixed (hc : pt.Compiled)
    (hcommon : HmtCommon pt depth start stop) (hsplit : HmtSplit pt depth start stop bs be)
    {higher lower : Nat}
    (hnoHigher : bs = start → pt.tables.higherJumpTable (pt.index bs depth) = -1)
    (hhigher : bs ≠ start → pt.tables.higherJumpTable (pt.index bs depth) = higher)
    (hnoLower : be = stop → pt.tables.lowerJumpTable (pt.index bs depth) = -1)
    (hlower : be ≠ stop → pt.tables.lowerJumpTable (pt.index bs depth) = lower)
    (enterHigher : bs ≠ start → HmtEnter pt pt.tables depth start (bs - 1) higher)
    (enterLower : be ≠ stop → HmtEnter pt pt.tables depth (be + 1) stop lower)
    (hi : start ≤ i) (hi' : i ≤ stop) (hne0 : pt.char i depth ≠ 0)
    (hmixed : ¬ ((pt.char i depth).toNat < 128 ↔ (pt.char bs depth).toNat < 128)) :
    ¬ HmtYields pt (pt.subject i) bs depth (hmtMatched pt i) := by
  have hb1 := hsplit.start_le
  have hb2 := hsplit.le
  have hb3 := hsplit.le_stop
  have hicnt : i < pt.cnt := Nat.lt_of_le_of_lt hi' hcommon.lt
  have hbscnt : bs < pt.cnt := by
    have := hcommon.lt
    omega
  have hlen := Hmt.Ready.char_ne_zero.mp hne0
  have hsame : ∀ k, start ≤ k → k ≤ stop →
      (pt.pattern i).take depth = (pt.pattern k).take depth := fun k hk hk' =>
    (hcommon.same i hi hi').trans (hcommon.same k hk hk').symm
  have hne : (pt.subject i).bytes.getD depth 0 ≠ pt.char bs depth := fun he =>
    hmixed (by rw [← he]; rfl)
  have hd := hcommon.depth_lt hc.ready
  have hdead : ¬ HmtAnswerUpTo pt (pt.subject i) depth (hmtMatched pt i) := fun h =>
    h.ne_matched hc hicnt hlen rfl
  have hfall := hmtFindSomeoneElse_upTo (s := pt.subject i) hc hbscnt
    (Hmt.Ready.char_ne_zero.mp hsplit.ne_zero) (hsame bs hb1 (Nat.le_trans hb2 hb3)).symm
  by_cases hbig : 128 ≤ (pt.char i depth).toNat
  · -- 大きい側にある pattern を、小さい側で探す
    have hpc : (pt.char bs depth).toNat < 128 := by omega
    have hnot : ¬ schar (pt.char bs depth) < schar ((pt.subject i).bytes.getD depth 0) :=
      (schar_lt_of_mixed hbig hpc).le.not_gt
    by_cases hbe : be = stop
    · intro h
      have hdone := HmtYields.noLower hd hsplit.ne_zero hne hnot (hnoLower hbe)
      exact hdead (h.unique hdone ▸ hfall)
    · rw [HmtYields.lower_iff hd hsplit.ne_zero hne hnot (hlower hbe)]
      refine (enterLower hbe).not_own hc (hcommon.sub (by omega) (by omega) (Nat.le_refl stop)) hicnt
        (hsame _ (by omega) (by omega)) hlen fun k hk hk' he => ?_
      have := hsplit.lower k (by omega) hk'
      rw [← he] at this
      omega
  · have hpc : 128 ≤ (pt.char bs depth).toNat := by omega
    have hlt : schar (pt.char bs depth) < schar ((pt.subject i).bytes.getD depth 0) :=
      schar_lt_of_mixed hpc (Nat.lt_of_not_le hbig)
    by_cases hbs : bs = start
    · intro h
      have hdone := HmtYields.noHigher hd hsplit.ne_zero hne hlt (hnoHigher hbs)
      exact hdead (h.unique hdone ▸ hfall)
    · rw [HmtYields.higher_iff hd hsplit.ne_zero hne hlt (hhigher hbs)]
      refine (enterHigher hbs).not_own hc (hcommon.sub (Nat.le_refl start) (by omega) (by omega))
        hicnt (hsame _ (by omega) (by omega)) hlen fun k hk hk' he => ?_
      have := hsplit.higher k hk (by omega)
      rw [← he] at this
      omega

/-- **範囲のどの pattern もそれ自身に一致するのは、どの二つも初めて異なる文字が同じ側にあるときである。** -/
theorem HmtEnter.own_iff (hc : pt.Compiled) (henter : HmtEnter pt pt.tables depth start stop m)
    (hcommon : HmtCommon pt depth start stop) :
    HmtOwn pt m depth start stop ↔ HmtOneSided pt start stop := by
  induction henter with
  | @leaf depth i hend =>
    have hlen : (pt.pattern i).length = depth := by
      refine Nat.le_antisymm ?_ (hcommon.long i (Nat.le_refl i) (Nat.le_refl i))
      by_contra hlong
      exact Hmt.Ready.char_ne_zero.mpr (Nat.lt_of_not_le hlong) hend
    constructor
    · intro _ a ha ha' b hb hb'
      obtain rfl := Nat.le_antisymm ha' ha
      obtain rfl := Nat.le_antisymm hb' hb
      exact .refl _
    · intro _ a ha ha'
      obtain rfl := Nat.le_antisymm ha' ha
      exact (HmtEnter.leaf hend).own_of_end hc hcommon hcommon.lt rfl hlen
  | @node depth start stop bs be higher lower next hsplit hnoHigher hhigher hnoLower hlower hnext
      enterHigher enterLower enterNext ihHigher ihLower ihNext =>
    have hb1 := hsplit.start_le
    have hb2 := hsplit.le
    have hb3 := hsplit.le_stop
    have hwhole := HmtEnter.node higher lower next hsplit hnoHigher hhigher hnoLower hlower hnext
      enterHigher enterLower enterNext
    have htake : ∀ k, start ≤ k → k ≤ stop → ∀ l, start ≤ l → l ≤ stop →
        (pt.pattern k).take depth = (pt.pattern l).take depth := fun k hk hk' l hl hl' =>
      (hcommon.same k hk hk').trans (hcommon.same l hl hl').symm
    have hcH : bs ≠ start → HmtCommon pt depth start (bs - 1) := fun hbs =>
      hcommon.sub (Nat.le_refl start) (by omega) (by omega)
    have hcL : be ≠ stop → HmtCommon pt depth (be + 1) stop := fun hbe =>
      hcommon.sub (by omega) (by omega) (Nat.le_refl stop)
    have hcN : HmtCommon pt (depth + 1) bs be :=
      (hcommon.sub hb1 hb2 hb3).succ hsplit.ne_zero hsplit.group
    by_cases hlevel : HmtLevel pt depth start stop bs
    · have hd := hcommon.depth_lt hc.ready
      have hend : ∀ i, start ≤ i → i ≤ stop → pt.char i depth = 0 →
          (pt.pattern i).length = depth := by
        intro i hi hi' h0
        refine Nat.le_antisymm ?_ (hcommon.long i hi hi')
        by_contra hlong
        exact Hmt.Ready.char_ne_zero.mpr (Nat.lt_of_not_le hlong) h0
      rw [hlevel.oneSided_iff hcommon hsplit, ← ihNext hcN]
      constructor
      · intro h
        refine ⟨fun hbs => (ihHigher hbs (hcH hbs)).mp fun i hi hi' => ?_,
          fun hbe => (ihLower hbe (hcL hbe)).mp fun i hi hi' => ?_, fun i hi hi' => ?_⟩
        · exact (hsplit.higher_iff hd hlevel hi (by omega) (hhigher hbs)).mp (h i hi (by omega))
        · by_cases h0 : pt.char i depth = 0
          · exact (enterLower hbe).own_of_end hc (hcL hbe) (Nat.lt_of_le_of_lt hi' hcommon.lt)
              (htake i (by omega) hi' _ (by omega) (by omega)) (hend i (by omega) hi' h0)
          · exact (hsplit.lower_iff hd hlevel hi hi' h0 (hlower hbe)).mp (h i (by omega) hi')
        · exact (hsplit.next_iff hd hi hi' hnext).mp (h i (by omega) (by omega))
      · rintro ⟨hH, hL, hN⟩ i hi hi'
        by_cases hib : i < bs
        · have hbs : bs ≠ start := by omega
          exact (hsplit.higher_iff hd hlevel hi hib (hhigher hbs)).mpr
            ((ihHigher hbs (hcH hbs)).mpr (hH hbs) i hi (by omega))
        · by_cases hie : i ≤ be
          · exact (hsplit.next_iff hd (by omega) hie hnext).mpr (hN i (by omega) hie)
          · by_cases h0 : pt.char i depth = 0
            · exact hwhole.own_of_end hc hcommon (Nat.lt_of_le_of_lt hi' hcommon.lt)
                (hcommon.same i hi hi') (hend i hi hi' h0)
            · have hbe : be ≠ stop := by omega
              exact (hsplit.lower_iff hd hlevel (by omega) hi' h0 (hlower hbe)).mpr
                ((ihLower hbe (hcL hbe)).mpr (hL hbe) i (by omega) hi')
    · constructor
      · intro h
        refine absurd (fun i hi hi' hne0 => ?_) hlevel
        by_contra hmixed
        exact hsplit.not_own_of_mixed hc hcommon hnoHigher hhigher hnoLower hlower enterHigher
          enterLower hi hi' hne0 hmixed (h i hi hi')
      · intro h
        refine absurd (fun i hi hi' hne0 => ?_) hlevel
        exact h i hi hi' bs hb1 (by omega) depth (Hmt.Ready.char_ne_zero.mp hne0)
          (Hmt.Ready.char_ne_zero.mp hsplit.ne_zero) (htake i hi hi' bs hb1 (by omega))

/-! ## 登録した pattern -/

theorem Hmt.Compiled.own_iff (hc : pt.Compiled) :
    (∀ i < pt.cnt, ∃ n, ∀ fuel, n ≤ fuel →
      hmtMatch pt (pt.subject i) fuel = .ok (hmtMatched pt i)) ↔
    ∀ i < pt.cnt, ∀ j < pt.cnt, SameSide (pt.pattern i) (pt.pattern j) := by
  obtain ⟨m, hm, henter⟩ := hc.enter
  have hloop : ∀ s fuel, hmtMatch pt s fuel = hmtMatchLoop pt s fuel m 0 := by
    intro s fuel
    unfold hmtMatch
    rw [hm, if_neg (by omega), Int.toNat_natCast]
  simp only [hloop]
  have hpos := hc.pos
  have hown := henter.own_iff hc (.all hpos)
  constructor
  · intro h i hi j hj
    exact hown.mp (fun k _ hk => h k (by omega)) i (Nat.zero_le i) (by omega) j (Nat.zero_le j)
      (by omega)
  · intro h i hi
    exact hown.mpr (fun k _ hk l _ hl => h k (by omega) l (by omega)) i (Nat.zero_le i) (by omega)

/-- `a` の pattern を照合すると、`a` の `userdata` と長さが返る。 -/
def HmtFinds (tree : Hmt) (a : HmtItem) : Prop :=
  ∃ n, ∀ fuel, n ≤ fuel → hmtMatch tree a.pattern fuel
    = .ok { userdata := a.userdata, matchedLength := some a.pattern.bytes.length }

theorem hmtCompile_finds_iff (hr : pt.Ready) (hne : pt.items ≠ []) (heap : HmtTables) :
    (∀ a ∈ pt.items, HmtFinds (hmtCompile pt heap).2 a) ↔
      ∀ a ∈ pt.items, ∀ b ∈ pt.items, SameSide a.pattern.bytes b.pattern.bytes := by
  obtain ⟨-, hc, hsame⟩ := hmtCompile_compiled hr hne heap
  generalize (hmtCompile pt heap).2 = tree at hc hsame ⊢
  rw [← hsame]
  have hmatched : ∀ i < tree.cnt, hmtMatched tree i
      = { userdata := (tree.items.getD i default).userdata
          matchedLength := some (tree.subject i).bytes.length } := by
    intro i hi
    unfold hmtMatched
    rw [hc.lengths i hi]
    rfl
  have hown := hc.own_iff
  constructor
  · intro h a ha b hb
    obtain ⟨i, hi, -, hpi⟩ := Hmt.exists_index ha
    obtain ⟨j, hj, -, hpj⟩ := Hmt.exists_index hb
    rw [← hpi, ← hpj]
    refine hown.mp (fun k hk => ?_) i hi j hj
    rw [hmatched k hk]
    exact h _ (Hmt.getD_mem hk)
  · intro h a ha
    obtain ⟨i, hi, hitem, -⟩ := Hmt.exists_index ha
    have hi' := hown.mpr (fun k hk l hl => h _ (Hmt.getD_mem hk) _ (Hmt.getD_mem hl)) i hi
    rw [hmatched i hi] at hi'
    unfold Hmt.subject at hi'
    rw [hitem] at hi'
    exact hi'

/--
**登録したどの pattern もそれ自身に一致するのは、初めて異なる文字が一方だけ 128 以上である二つの pattern が
無いときに限る。** pattern の文字は 1 から 255 までの何でもよく、加える順も大きさも選ばない。
-/
theorem hmt_match_own_iff (max scale : Int) (pt0 pt : Hmt) (adds : List HmtItem)
    (heap : HmtTables) (hnew : hmtNew2 max scale = some pt0) (hadd : hmtAddAll pt0 adds = some pt) :
    (∀ a ∈ adds, ∃ n, ∀ fuel, n ≤ fuel → hmtMatch (hmtCompile pt heap).2 a.pattern fuel
        = .ok { userdata := a.userdata, matchedLength := some a.pattern.bytes.length }) ↔
      ∀ a ∈ adds, ∀ b ∈ adds, SameSide a.pattern.bytes b.pattern.bytes := by
  obtain ⟨hready0, hempty⟩ := hmtNew2_ready hnew
  obtain ⟨hready, hperm⟩ := hmtAddAll_some hready0 hadd
  rw [hempty, List.nil_append] at hperm
  by_cases hne : adds = []
  · subst hne
    exact ⟨fun _ a ha => (nomatch ha), fun _ a ha => (nomatch ha)⟩
  have hitems : pt.items ≠ [] := by
    intro h
    rw [h] at hperm
    exact hne hperm.nil_eq.symm
  have hiff := hmtCompile_finds_iff hready hitems heap
  constructor
  · intro h a ha b hb
    exact hiff.mp (fun c hc => h c (hperm.subset hc)) a (hperm.symm.subset ha) b
      (hperm.symm.subset hb)
  · intro h a ha
    exact hiff.mpr (fun c hc d hd => h c (hperm.subset hc) d (hperm.subset hd)) a
      (hperm.symm.subset ha)

def hmtSampleAccent : HmtItem where
  pattern := ⟨[195, 169], by decide⟩
  userdata := 1
  mallocItem := false

def hmtSampleGrave : HmtItem where
  pattern := ⟨[195, 168], by decide⟩
  userdata := 2
  mallocItem := true

def hmtSampleLetter : HmtItem where
  pattern := .ofBytes [97]
  userdata := 2
  mallocItem := false

/-- `é` と `è` は、どちらもそれ自身に一致する。 -/
theorem hmt_match_accents : ∃ pt0 pt, hmtNew2 20 hmtScale16 = some pt0 ∧
    hmtAddAll pt0 [hmtSampleAccent, hmtSampleGrave] = some pt ∧
    ∃ n, ∀ fuel, n ≤ fuel → hmtMatch (hmtCompile pt .null).2 hmtSampleAccent.pattern fuel
      = .ok { userdata := 1, matchedLength := some 2 } := by
  refine ⟨_, _, rfl, rfl, ?_⟩
  exact (hmt_match_own_iff 20 hmtScale16 _ _ [hmtSampleAccent, hmtSampleGrave] .null rfl rfl).mpr
    (by decide) hmtSampleAccent (by decide)

/-- `é` と `a` を加えると、どちらかはそれ自身に一致しない。 -/
theorem hmt_match_letter_lost : ∃ pt0 pt, hmtNew2 20 hmtScale16 = some pt0 ∧
    hmtAddAll pt0 [hmtSampleAccent, hmtSampleLetter] = some pt ∧
    ¬ ∀ a ∈ [hmtSampleAccent, hmtSampleLetter], HmtFinds (hmtCompile pt .null).2 a := by
  obtain ⟨pt0, pt, hnew, hadd⟩ : ∃ pt0 pt, hmtNew2 20 hmtScale16 = some pt0 ∧
      hmtAddAll pt0 [hmtSampleAccent, hmtSampleLetter] = some pt := ⟨_, _, rfl, rfl⟩
  refine ⟨pt0, pt, hnew, hadd, fun h => ?_⟩
  obtain ⟨hready0, hempty⟩ := hmtNew2_ready hnew
  obtain ⟨hready, hperm⟩ := hmtAddAll_some hready0 hadd
  rw [hempty, List.nil_append] at hperm
  have hitems : pt.items ≠ [] := by
    intro hnil
    rw [hnil] at hperm
    cases hperm.nil_eq
  have hside := (hmtCompile_finds_iff hready hitems .null).mp
    (fun c hc => h c (hperm.subset hc)) hmtSampleLetter (hperm.symm.subset (by decide))
    hmtSampleAccent (hperm.symm.subset (by decide))
  exact absurd hside (by decide)

end Esq
