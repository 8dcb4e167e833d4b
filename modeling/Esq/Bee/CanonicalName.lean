import Esq.Bee.FileName
import Esq.RangeMap.AddressText

/-!
# 同じ bucket を指す file 名

`bee_open_bucket_file` は、名前の決まった位置の文字を見て、番地と番号を緩い関数で読む。読まれない文字や、
値を変えない文字があると、作る側の書かない名前が同じ bucket として開かれる。

* `bucket_file_names_exact_iff` — folder の名前が作る側の書く名前であり、bucket と一対一に対応するのは、
  番号の欄に余計な文字が無く、番地も番号も 0 の patch bucket が index 1 の local の bucket と並ばないときに限る
-/

namespace Esq

open Infra

/-! ## 余計な文字の無い数 -/

/-- 数字だけの並びで、先頭に余計な 0 が無い。 -/
def PlainNumber (t : List UInt8) : Prop :=
  (∀ c ∈ t, 48 ≤ c ∧ c ≤ 57) ∧ (t.head? = some 48 → t.length = 1)

instance (t : List UInt8) : Decidable (PlainNumber t) :=
  inferInstanceAs (Decidable (_ ∧ _))

theorem decimal_digit : ∀ n < 10, decimal n = [UInt8.ofNat (48 + n)] := by
  decide

theorem decimal_append {n d : Nat} (hn : 0 < n) (hd : d < 10) :
    decimal (10 * n + d) = decimal n ++ decimal d := by
  unfold decimal
  rw [← Nat.toDigits_append_toDigits (by decide) hn hd, List.map_append]

theorem ofNat_digit {c : UInt8} (h : 48 ≤ c ∧ c ≤ 57) : UInt8.ofNat (48 + (c.toNat - 48)) = c := by
  have hl : 48 ≤ c.toNat := h.1
  rw [show 48 + (c.toNat - 48) = c.toNat by omega, UInt8.ofNat_toNat]

theorem decimal_foldl (ds : List UInt8) : ∀ {n : Nat}, 0 < n → (∀ c ∈ ds, 48 ≤ c ∧ c ≤ 57) →
    decimal (ds.foldl (fun a c => a * 10 + digitValue c) n) = decimal n ++ ds := by
  induction ds with
  | nil =>
    intro n _ _
    rw [List.append_nil]
    rfl
  | cons c ds ih =>
    intro n hn hd
    obtain ⟨hc, hd⟩ := List.forall_mem_cons.mp hd
    have hu : c.toNat ≤ 57 := hc.2
    rw [List.foldl_cons, digitValue_of_range hc, ih (by omega) hd, Nat.mul_comm n 10,
      decimal_append hn (by omega), decimal_digit (c.toNat - 48) (by omega), ofNat_digit hc, List.append_assoc]
    rfl

/-- **余計な文字の無い数は、読んだ値を書き直しても変わらない。** -/
theorem PlainNumber.decimal {t : List UInt8} (h : PlainNumber t) (hne : t ≠ []) :
    decimal (digitsValue 10 t) = t := by
  obtain ⟨hd, hzero⟩ := h
  cases t with
  | nil => exact absurd rfl hne
  | cons c ds =>
    obtain ⟨hc, hd⟩ := List.forall_mem_cons.mp hd
    have hl : 48 ≤ c.toNat := hc.1
    have hu : c.toNat ≤ 57 := hc.2
    have hfirst : Esq.decimal (c.toNat - 48) = [c] := by
      rw [decimal_digit _ (by omega), ofNat_digit hc]
    by_cases h0 : c = 48
    · have hlen := hzero (by rw [h0]; rfl)
      have hnil : ds = [] := List.length_eq_zero_iff.mp (Nat.succ.inj hlen)
      subst h0 hnil
      rfl
    · have hpos : 0 < c.toNat - 48 := by
        have : c.toNat ≠ 48 := fun he => h0 (UInt8.toNat_inj.mp he)
        omega
      show Esq.decimal (ds.foldl (fun a c => a * 10 + digitValue c) (0 * 10 + digitValue c)) = _
      rw [Nat.zero_mul, Nat.zero_add, digitValue_of_range hc, decimal_foldl ds hpos hd, hfirst]
      rfl

theorem head?_decimal (n : Nat) : (decimal n).head? = some 48 → n = 0 := by
  induction n using Nat.strongRecOn with
  | ind n ih =>
    intro h
    by_cases hn : n < 10
    · rw [decimal_digit n hn, List.head?_cons, Option.some.injEq] at h
      have hv := congrArg UInt8.toNat h
      rw [UInt8.toNat_ofNat'] at hv
      have hv : (48 + n) % 256 = 48 := hv
      omega
    · have hsplit : n = 10 * (n / 10) + n % 10 := by omega
      rw [hsplit, decimal_append (by omega) (by omega), List.head?_append,
        Option.or_of_isSome (List.isSome_head?.mpr (decimal_run _).1)] at h
      have := ih (n / 10) (by omega) h
      omega

theorem plainNumber_decimal (n : Nat) : PlainNumber (decimal n) := by
  refine ⟨(decimal_run n).2.1, fun h => ?_⟩
  rw [head?_decimal n h]
  rfl

/-! ## 番号 -/

theorem getInteger1000000Loop_value (t : List UInt8) : ∀ {n i r v : Nat},
    (∀ c ∈ t, 48 ≤ c ∧ c ≤ 57) → getInteger1000000Loop (some n) i t = some (r, v) →
    v = t.foldl (fun a c => a * 10 + digitValue c) n := by
  induction t with
  | nil =>
    intro n i r v _ h
    cases h
    rfl
  | cons c t ih =>
    intro n i r v hd h
    obtain ⟨hc, hd⟩ := List.forall_mem_cons.mp hd
    rw [getInteger1000000Loop, if_pos hc] at h
    split at h
    · cases h
    · rw [List.foldl_cons, digitValue_of_range hc]
      exact ih hd h

theorem getInteger1000000_value {t : List UInt8} {r v : Nat} (hd : ∀ c ∈ t, 48 ≤ c ∧ c ≤ 57)
    (h : getInteger1000000 t = some (r, v)) : t ≠ [] ∧ v = digitsValue 10 t := by
  unfold getInteger1000000 at h
  cases t with
  | nil => cases h
  | cons c t =>
    obtain ⟨hc, hd⟩ := List.forall_mem_cons.mp hd
    rw [getInteger1000000Loop, if_pos hc] at h
    refine ⟨List.cons_ne_nil _ _, ?_⟩
    have hv := getInteger1000000Loop_value t hd h
    rw [← digitValue_of_range hc] at hv
    rw [hv]
    show _ = t.foldl _ (0 * 10 + digitValue c)
    rw [Nat.zero_mul, Nat.zero_add]

theorem getInteger1000000_plain_iff {t : List UInt8} {r v : Nat}
    (h : getInteger1000000 t = some (r, v)) : t = decimal v ↔ PlainNumber t := by
  constructor
  · intro ht
    rw [ht]
    exact plainNumber_decimal v
  · intro ht
    obtain ⟨hne, hv⟩ := getInteger1000000_value ht.1 h
    rw [hv, ht.decimal hne]

/-! ## 番地 -/

theorem betweenDots_at {xs : List UInt8} (pre mid post : List UInt8) {d e : Nat}
    (hx : xs = pre ++ 46 :: (mid ++ 46 :: post)) (hd : d = pre.length)
    (he : e = pre.length + 1 + mid.length) : betweenDots xs d e = mid := by
  rw [hx, betweenDots_part pre mid post hd he]

theorem dot_inj {p : List UInt8} : ∀ {q r s : List UInt8}, 46 ∉ p → 46 ∉ q →
    p ++ 46 :: r = q ++ 46 :: s → p = q ∧ r = s := by
  induction p with
  | nil =>
    intro q r s _ hq h
    cases q with
    | nil => exact ⟨rfl, List.cons.inj h |>.2⟩
    | cons d q => exact absurd List.mem_cons_self ((List.cons.inj h).1 ▸ hq)
  | cons c p ih =>
    intro q r s hp hq h
    obtain ⟨hc, hp⟩ := not_or.mp (mt List.mem_cons.mpr hp)
    cases q with
    | nil => exact absurd (List.cons.inj h).1.symm hc
    | cons d q =>
      obtain ⟨hcd, h⟩ := List.cons.inj h
      obtain ⟨hpq, hrs⟩ := ih hp (fun hm => hq (List.mem_cons_of_mem d hm)) h
      exact ⟨by rw [hcd, hpq], hrs⟩

theorem dot_inj_last {p q r s : List UInt8} (hr : 46 ∉ r) (hs : 46 ∉ s)
    (h : p ++ 46 :: r = q ++ 46 :: s) : p = q ∧ r = s := by
  have hrev : r.reverse ++ 46 :: p.reverse = s.reverse ++ 46 :: q.reverse := by
    simpa using congrArg List.reverse h
  obtain ⟨hrs, hpq⟩ := dot_inj (mt List.mem_reverse.mp hr) (mt List.mem_reverse.mp hs) hrev
  exact ⟨List.reverse_inj.mp hpq, List.reverse_inj.mp hrs⟩

namespace Ipv4Written

variable (w : Ipv4Written)

theorem bytes_eq : w.bytes = (w.blanks ++ w.n1) ++ 46 :: (w.n2 ++ 46 :: (w.n3 ++
    46 :: (w.n4 ++ w.tail))) := by
  simp [bytes, dotted]

theorem dottedText_value : dottedText w.value = decimal (digitsValue 10 w.n1) ++
    46 :: (decimal (digitsValue 10 w.n2) ++ 46 :: (decimal (digitsValue 10 w.n3) ++
      46 :: decimal (digitsValue 10 w.n4))) := by
  obtain ⟨⟨-, -, v1⟩, ⟨-, -, v2⟩, ⟨-, -, v3⟩, ⟨-, -, v4⟩, -⟩ := by
    simpa only [List.forall_mem_cons] using w.runs
  have e1 : w.value / 2 ^ 24 % 2 ^ 8 = digitsValue 10 w.n1 := by
    unfold value
    omega
  have e2 : w.value / 2 ^ 16 % 2 ^ 8 = digitsValue 10 w.n2 := by
    unfold value
    omega
  have e3 : w.value / 2 ^ 8 % 2 ^ 8 = digitsValue 10 w.n3 := by
    unfold value
    omega
  have e4 : w.value % 2 ^ 8 = digitsValue 10 w.n4 := by
    unfold value
    omega
  unfold dottedText
  rw [e1, e2, e3, e4]

theorem notMem_blanks : 46 ∉ w.blanks := fun h => by
  rcases w.blanks_blank 46 h with h | h | h | h <;> cases h

theorem notMem_run {n : List UInt8} (hn : n ∈ [w.n1, w.n2, w.n3, w.n4]) : 46 ∉ n := fun h =>
  absurd ((w.runs n hn).2.1 46 h).1 (by decide)

theorem eq_dottedText_iff : w.bytes = dottedText w.value ↔
    PlainNumber (w.blanks ++ w.n1) ∧ PlainNumber w.n2 ∧ PlainNumber w.n3 ∧
      PlainNumber (w.n4 ++ w.tail) := by
  obtain ⟨⟨ne1, -, -⟩, ⟨ne2, -, -⟩, ⟨ne3, -, -⟩, ⟨ne4, -, -⟩, -⟩ := by
    simpa only [List.forall_mem_cons] using w.runs
  rw [w.bytes_eq, w.dottedText_value]
  constructor
  · intro h
    have hdec : ∀ n : Nat, (46 : UInt8) ∉ decimal n := fun n => notMem_decimal (by decide)
    have h1 : 46 ∉ w.blanks ++ w.n1 := by
      rw [List.mem_append, not_or]
      exact ⟨w.notMem_blanks, w.notMem_run (by simp)⟩
    obtain ⟨h1, h⟩ := dot_inj h1 (hdec _) h
    obtain ⟨h2, h⟩ := dot_inj (w.notMem_run (by simp)) (hdec _) h
    obtain ⟨h3, h4⟩ := dot_inj (w.notMem_run (by simp)) (hdec _) h
    exact ⟨h1 ▸ plainNumber_decimal _, h2 ▸ plainNumber_decimal _, h3 ▸ plainNumber_decimal _,
      h4 ▸ plainNumber_decimal _⟩
  · rintro ⟨p1, p2, p3, p4⟩
    have hnum : ∀ {c : UInt8}, c = 9 ∨ c = 10 ∨ c = 13 ∨ c = 32 → ¬ (48 ≤ c ∧ c ≤ 57) := by
      rintro c (rfl | rfl | rfl | rfl) <;> decide
    have hblanks : w.blanks = [] := by
      by_contra hne
      obtain ⟨c, cs, hcs⟩ := List.exists_cons_of_ne_nil hne
      have hc : c ∈ w.blanks := hcs ▸ List.mem_cons_self
      exact hnum (w.blanks_blank c hc) (p1.1 c (List.mem_append_left _ hc))
    have htail : w.tail = [] := by
      by_contra hne
      obtain ⟨c, cs, hcs⟩ := List.exists_cons_of_ne_nil hne
      have hc : c ∈ w.tail := hcs ▸ List.mem_cons_self
      exact hnum (w.tail_blank c (by rw [hcs]; rfl)) (p4.1 c (List.mem_append_right _ hc))
    rw [hblanks, List.nil_append] at p1 ⊢
    rw [htail, List.append_nil] at p4 ⊢
    rw [p1.decimal ne1, p2.decimal ne2, p3.decimal ne3, p4.decimal ne4]

end Ipv4Written

/-! ## 欄 -/

theorem exists_fields (xs : List UInt8) :
    ∃ p ps, xs = p ++ ps.flatMap (46 :: ·) ∧ ∀ q ∈ p :: ps, 46 ∉ q := by
  induction xs with
  | nil => exact ⟨[], [], rfl, by simp⟩
  | cons c xs ih =>
    obtain ⟨p, ps, hxs, hdots⟩ := ih
    by_cases hc : c = 46
    · refine ⟨[], p :: ps, by rw [hxs, hc]; rfl, ?_⟩
      rintro q (_ | ⟨_, hq⟩)
      · exact List.not_mem_nil
      · exact hdots q hq
    · refine ⟨c :: p, ps, by rw [hxs]; rfl, ?_⟩
      rintro q (_ | ⟨_, hq⟩)
      · rintro (_ | ⟨_, hm⟩)
        · exact hc rfl
        · exact hdots p List.mem_cons_self hm
      · exact hdots q (List.mem_cons_of_mem p hq)

theorem length_dotsOf_fields {p : List UInt8} {ps : List (List UInt8)}
    (h : ∀ q ∈ p :: ps, 46 ∉ q) : (dotsOf (p ++ ps.flatMap (46 :: ·))).length = ps.length := by
  rw [length_dotsOf]
  induction ps generalizing p with
  | nil =>
    rw [List.flatMap_nil, List.append_nil]
    exact List.count_eq_zero.mpr (h p List.mem_cons_self)
  | cons q ps ih =>
    have hp := List.count_eq_zero.mpr (h p List.mem_cons_self)
    rw [List.flatMap_cons, List.count_append, hp, List.cons_append, List.count_cons_self,
      ih fun q hq => h q (List.mem_cons_of_mem p hq), List.length_cons, Nat.zero_add]

theorem isKct_eq {pre post : List UInt8} (h0 : 0 ∉ post) {i : Nat} (hi : i = pre.length)
    (h : isKct (pre ++ 46 :: post) i = true) : post = [107, 99, 116] := by
  subst hi
  unfold isKct at h
  simp only [List.getD_append_right _ _ _ _ (Nat.le_add_right ..), Nat.add_sub_cancel_left,
    Bool.and_eq_true, decide_eq_true_eq, List.getD_cons_succ] at h
  obtain ⟨⟨⟨hk, hc⟩, ht⟩, hend⟩ := h
  match post, h0, hk, hc, ht, hend with
  | [], _, hk, _, _, _ => cases hk
  | [_], _, _, hc, _, _ => cases hc
  | [_, _], _, _, _, ht, _ => cases ht
  | [a, b, c], _, hk, hc, ht, _ =>
    cases hk
    cases hc
    cases ht
    rfl
  | a :: b :: c :: d :: post, h0, _, _, _, hend =>
    have hd : d = 0 := hend
    exact absurd (by simp [hd]) h0

structure FileNamed (name hash : List UInt8) : Prop where
  name : rangeMapNameCheck2 name = none
  hash : getHashString (hash ++ [120]) = some (hash.length + 1, 0, hash.length)

theorem hashField {pre t post : List UInt8} {d e len : Nat} (hd : d = pre.length)
    (he : e = pre.length + 1 + t.length)
    (hx : (pre ++ 46 :: (t ++ 46 :: post)).getD (e - 1) 0 = 120)
    (h : hashBetweenDots (pre ++ 46 :: (t ++ 46 :: post)) d e = some len) :
    ∃ digits, t = digits ++ [120] ∧ digits.length = len ∧
      getHashString (digits ++ [120]) = some (digits.length + 1, 0, digits.length) := by
  unfold hashBetweenDots at h
  rw [betweenDots_part pre t post hd he] at h
  split at h
  · cases h
  next r start l hget =>
    split at h
    · cases h
    next hcond =>
      cases h
      simp only [not_or, not_not] at hcond
      obtain ⟨rfl, hlen⟩ := hcond
      obtain rfl | ⟨digits, x, rfl⟩ := List.eq_nil_or_concat' t
      · cases hget
      · have hlast : x = 120 := (getD_hash_last rfl he).symm.trans hx
        have hl : digits.length = len := by
          rw [List.length_append, List.length_singleton] at he
          omega
        obtain ⟨-, hr, -⟩ := getHashString_split hget
        subst hlast
        refine ⟨digits, rfl, hl, ?_⟩
        rw [hget, hr, hl, Nat.zero_add]

theorem ofBuf_named (folder name mid hashStr post : List UInt8) (ip : Nat) (port : Int)
    {dName : List UInt8} {at2 : Nat} (hd : dName = name ++ mid ++ (hashStr ++ post))
    (hat : at2 = folder.length + 1 + (name.length + mid.length)) :
    let b := BeeBucket.ofBuf (folder ++ [47] ++ dName) (folder.length + 1) name.length at2
      hashStr.length ip port
    b.rangeMapName = name ∧ b.hashStr = hashStr := by
  subst hd hat
  have hkey := ofBuf_key folder name mid hashStr post ip port rfl
  exact ⟨congrArg Prod.fst hkey, congrArg (fun k => k.2.1) hkey⟩

/-- **local の bucket として読まれる名前。** 番号の欄は、末尾の一文字だけが読まれる。 -/
theorem fileBucket_local_fields {folder dName : List UInt8} {b : BeeBucket} {idx : Fin 2}
    (h0 : 0 ∉ dName) (h3 : (dotsOf dName).length = 3)
    (hf : fileBucket folder dName = some (b, idx)) :
    ∃ junk c, dName = b.rangeMapName ++ 46 :: ((b.hashStr ++ [120]) ++
        46 :: ((junk ++ [c]) ++ [46, 107, 99, 116])) ∧
      (46 ∉ b.rangeMapName ∧ 46 ∉ b.hashStr ++ [120] ∧ 46 ∉ junk ++ [c]) ∧
      idxOfChar c = some idx ∧ FileNamed b.rangeMapName b.hashStr ∧ b.ip = 0 ∧ b.port = 0 := by
  obtain ⟨p0, ps, rfl, hdots⟩ := exists_fields dName
  obtain ⟨p1, p2, p3, rfl⟩ := List.length_eq_three.mp ((length_dotsOf_fields hdots).symm.trans h3)
  simp only [List.forall_mem_cons] at hdots
  obtain ⟨hp0, hp1, hp2, hp3, -⟩ := hdots
  rw [show p0 ++ [p1, p2, p3].flatMap (46 :: ·) = p0 ++ 46 :: (p1 ++ 46 :: (p2 ++ 46 :: p3)) by
    simp] at h0 hf ⊢
  have hd : dotsOf (p0 ++ 46 :: (p1 ++ 46 :: (p2 ++ 46 :: p3))) = [p0.length,
      p0.length + 1 + p1.length, p0.length + 1 + p1.length + 1 + p2.length] := by
    rw [dotsOf_part hp0, dotsOf_part hp1, dotsOf_part hp2, dotsOf_eq_nil hp3]
    simp only [List.map_cons, List.map_nil, Nat.add_assoc]
  unfold fileBucket at hf
  rw [hd] at hf
  dsimp only at hf
  unfold localBucketFile at hf
  split at hf
  · cases hf
  next hx =>
    split at hf
    · cases hf
    next i hi =>
      split at hf
      · cases hf
      next hkct =>
        split at hf
        · cases hf
        next hname =>
          split at hf
          · cases hf
          next len hhash =>
            cases hf
            rw [List.take_left, Bool.not_eq_true, Option.isSome_eq_false_iff,
              Option.isNone_iff_eq_none] at hname
            obtain ⟨digits, rfl, rfl, hget⟩ := hashField rfl rfl (not_not.mp hx) hhash
            have hk : p3 = [107, 99, 116] := by
              rw [show p0 ++ 46 :: (digits ++ [120] ++ 46 :: (p2 ++ 46 :: p3))
                = (p0 ++ 46 :: (digits ++ [120] ++ 46 :: p2)) ++ 46 :: p3 by simp,
                Bool.not_eq_true, Bool.not_eq_false'] at hkct
              refine isKct_eq ?_ ?_ hkct
              · exact fun hm => h0 (by simp [hm])
              · simp only [List.length_append, List.length_cons, List.length_nil]
                omega
            subst hk
            have hsplit : p0 ++ 46 :: (digits ++ [120] ++ 46 :: (p2 ++ [46, 107, 99, 116]))
                = p0 ++ [46] ++ (digits ++ 120 :: 46 :: (p2 ++ [46, 107, 99, 116])) := by
              simp
            obtain ⟨hn, hs⟩ := ofBuf_named folder p0 [46] digits _ 0 0 hsplit
              (Nat.add_assoc _ p0.length 1)
            obtain rfl | ⟨junk, c, rfl⟩ := List.eq_nil_or_concat' p2
            · rw [show p0 ++ 46 :: (digits ++ [120] ++ 46 :: ([] ++ 46 :: [107, 99, 116]))
                = (p0 ++ 46 :: (digits ++ [120])) ++ 46 :: ([] ++ 46 :: [107, 99, 116]) by simp,
                getD_last _ _ _ (by simp; omega)] at hi
              cases hi
            · rw [show p0 ++ 46 :: (digits ++ [120] ++ 46 :: (junk ++ [c] ++ 46 :: [107, 99, 116]))
                = (p0 ++ 46 :: (digits ++ [120] ++ 46 :: junk)) ++ c :: 46 :: [107, 99, 116] by simp,
                getD_last _ _ _ (by simp; omega)] at hi
              rw [hn, hs]
              exact ⟨junk, c, rfl, ⟨hp0, hp1, hp2⟩, hi, ⟨hname, hget⟩, rfl, rfl⟩

theorem dotsOf_seven {p0 p1 p2 p3 p4 p5 p6 p7 : List UInt8}
    (h : ∀ q ∈ [p0, p1, p2, p3, p4, p5, p6, p7], 46 ∉ q) :
    dotsOf (p0 ++ 46 :: (p1 ++ 46 :: (p2 ++ 46 :: (p3 ++ 46 :: (p4 ++ 46 :: (p5 ++
        46 :: (p6 ++ 46 :: p7)))))))
      = [p0.length, p0.length + 1 + p1.length, p0.length + 1 + p1.length + 1 + p2.length,
        p0.length + 1 + p1.length + 1 + p2.length + 1 + p3.length,
        p0.length + 1 + p1.length + 1 + p2.length + 1 + p3.length + 1 + p4.length,
        p0.length + 1 + p1.length + 1 + p2.length + 1 + p3.length + 1 + p4.length + 1 + p5.length,
        p0.length + 1 + p1.length + 1 + p2.length + 1 + p3.length + 1 + p4.length + 1 + p5.length
          + 1 + p6.length] := by
  simp only [List.forall_mem_cons] at h
  obtain ⟨h0, h1, h2, h3, h4, h5, h6, h7, -⟩ := h
  rw [dotsOf_part h0, dotsOf_part h1, dotsOf_part h2, dotsOf_part h3, dotsOf_part h4,
    dotsOf_part h5, dotsOf_part h6, dotsOf_eq_nil h7]
  simp only [List.map_cons, List.map_nil, Nat.add_assoc]

theorem remotePatchBucketFile_fields {folder p q t h post : List UInt8} {b : BeeBucket}
    {idx : Fin 2} {d4 d5 d6 : Nat} (h4 : d4 = p.length + 1 + q.length)
    (h5 : d5 = d4 + 1 + t.length) (h6 : d6 = d5 + 1 + h.length) (h0 : 0 ∉ post)
    (hf : remotePatchBucketFile folder (p ++ 46 :: (q ++ 46 :: (t ++ 46 :: (h ++ 46 :: post))))
      p.length d4 d5 d6 = some (b, idx)) :
    ∃ (digits : List UInt8) (ri ap rp n : Nat), h = digits ++ [120] ∧ post = [107, 99, 116] ∧
      getIpv4Addr q = some (ri, ap) ∧ getInteger1000000 t = some (rp, n) ∧ n ≤ 65535 ∧
      FileNamed p digits ∧ b.rangeMapName = p ∧ b.hashStr = digits ∧ b.ip = ap ∧
      b.port = (n : Int) ∧ idx = 1 := by
  have hpre : p ++ 46 :: (q ++ 46 :: (t ++ 46 :: (h ++ 46 :: post)))
      = (p ++ 46 :: (q ++ 46 :: t)) ++ 46 :: (h ++ 46 :: post) := by
    simp
  have hpre5 : d5 = (p ++ 46 :: (q ++ 46 :: t)).length := by
    simp only [List.length_append, List.length_cons]
    omega
  unfold remotePatchBucketFile at hf
  split at hf
  · cases hf
  next hx =>
    split at hf
    · cases hf
    next hkct =>
      split at hf
      · cases hf
      next hname =>
        split at hf
        · cases hf
        next ri ap hip =>
          split at hf
          · cases hf
          next rp n hport =>
            split at hf
            · cases hf
            next hvalid =>
              split at hf
              · cases hf
              next len hhash =>
                cases hf
                rw [List.take_left, Bool.not_eq_true, Option.isSome_eq_false_iff,
                  Option.isNone_iff_eq_none] at hname
                rw [betweenDots_part p q _ rfl h4] at hip
                rw [show p ++ 46 :: (q ++ 46 :: (t ++ 46 :: (h ++ 46 :: post)))
                  = (p ++ 46 :: q) ++ 46 :: (t ++ 46 :: (h ++ 46 :: post)) by simp,
                  betweenDots_part _ t _ (by simp; omega) (by simp; omega)] at hport
                rw [hpre] at hx hhash hkct
                obtain ⟨digits, rfl, rfl, hget⟩ :=
                  hashField hpre5 (by omega) (not_not.mp hx) hhash
                have hk : post = [107, 99, 116] := by
                  rw [show p ++ 46 :: (q ++ 46 :: t) ++ 46 :: (digits ++ [120] ++ 46 :: post)
                    = (p ++ 46 :: (q ++ 46 :: t) ++ 46 :: (digits ++ [120])) ++ 46 :: post by simp,
                    Bool.not_eq_true, Bool.not_eq_false'] at hkct
                  refine isKct_eq h0 ?_ hkct
                  rw [List.length_append, ← hpre5, List.length_cons]
                  omega
                subst hk
                have hn : n ≤ 65535 := by
                  unfold portNumberInvalid at hvalid
                  simp only [Bool.or_eq_true, decide_eq_true_eq, not_or] at hvalid
                  omega
                have hsplit : p ++ 46 :: (q ++ 46 :: (t ++ 46 :: (digits ++ [120] ++
                    46 :: [107, 99, 116])))
                    = p ++ (46 :: (q ++ 46 :: (t ++ [46]))) ++ (digits ++ [120, 46, 107, 99, 116]) := by
                  simp
                have hat : folder.length + 1 + d5 + 1 = folder.length + 1 +
                    (p.length + (46 :: (q ++ 46 :: (t ++ [46]))).length) := by
                  simp only [List.length_append, List.length_cons, List.length_nil]
                  omega
                obtain ⟨hn1, hn2⟩ := ofBuf_named folder p _ digits _ ap n hsplit hat
                exact ⟨digits, ri, ap, rp, n, rfl, rfl, hip, hport, hn, ⟨hname, hget⟩, hn1, hn2,
                  rfl, rfl, rfl⟩

/-- **remote patch bucket として読まれる名前。** 番地と番号の欄は、緩い関数が読む。 -/
theorem fileBucket_remote_fields {folder dName : List UInt8} {b : BeeBucket} {idx : Fin 2}
    (h0 : 0 ∉ dName) (h7 : (dotsOf dName).length = 7)
    (hf : fileBucket folder dName = some (b, idx)) :
    ∃ (w : Ipv4Written) (t : List UInt8) (r n : Nat),
      dName = b.rangeMapName ++ 46 :: (w.bytes ++ 46 :: (t ++ 46 :: ((b.hashStr ++ [120]) ++
        [46, 107, 99, 116]))) ∧
      (46 ∉ b.rangeMapName ∧ 46 ∉ w.tail ∧ 46 ∉ t ∧ 46 ∉ b.hashStr ++ [120]) ∧
      getInteger1000000 t = some (r, n) ∧ n ≤ 65535 ∧ FileNamed b.rangeMapName b.hashStr ∧
      b.ip = w.value ∧ b.port = (n : Int) ∧ idx = 1 := by
  obtain ⟨p0, ps, rfl, hdots⟩ := exists_fields dName
  have hlen := (length_dotsOf_fields hdots).symm.trans h7
  match ps, hlen with
  | [p1, p2, p3, p4, p5, p6, p7], _ =>
    have hd := dotsOf_seven hdots
    simp only [List.forall_mem_cons] at hdots
    obtain ⟨hp0, hp1, hp2, hp3, hp4, hp5, hp6, hp7, -⟩ := hdots
    rw [show p0 ++ [p1, p2, p3, p4, p5, p6, p7].flatMap (46 :: ·) = p0 ++ 46 :: (p1 ++ 46 :: (p2 ++
      46 :: (p3 ++ 46 :: (p4 ++ 46 :: (p5 ++ 46 :: (p6 ++ 46 :: p7)))))) by simp] at h0 hf ⊢
    unfold fileBucket at hf
    rw [hd] at hf
    dsimp only at hf
    clear hd
    obtain ⟨q, hq⟩ : ∃ q, q = p1 ++ 46 :: (p2 ++ 46 :: (p3 ++ 46 :: p4)) := ⟨_, rfl⟩
    -- 四つの欄をまとめて番地の欄とする
    have hname : p0 ++ 46 :: (p1 ++ 46 :: (p2 ++ 46 :: (p3 ++ 46 :: (p4 ++ 46 :: (p5 ++
        46 :: (p6 ++ 46 :: p7)))))) = p0 ++ 46 :: (q ++ 46 :: (p5 ++ 46 :: (p6 ++ 46 :: p7))) := by
      rw [hq]
      simp
    have hqlen : p0.length + 1 + p1.length + 1 + p2.length + 1 + p3.length + 1 + p4.length
        = p0.length + 1 + q.length := by
      rw [hq]
      simp only [List.length_append, List.length_cons]
      omega
    rw [hname] at h0 hf ⊢
    rw [hqlen] at hf
    obtain ⟨digits, ri, ap, rp, n, rfl, rfl, hip, hport, hn, hnamed, hmap, hstr, hbip, hbport,
      hidx⟩ := remotePatchBucketFile_fields rfl rfl rfl (fun hm => h0 (by simp [hm])) hf
    obtain ⟨w, hw, -, rfl⟩ := getIpv4Addr_iff.mp hip
    have htail : 46 ∉ w.tail := by
      have hbytes := hq.symm.trans (hw.trans w.bytes_eq)
      obtain ⟨-, hbytes⟩ := dot_inj hp1 (by
        rw [List.mem_append, not_or]
        exact ⟨w.notMem_blanks, w.notMem_run (by simp)⟩) hbytes
      obtain ⟨-, hbytes⟩ := dot_inj hp2 (w.notMem_run (by simp)) hbytes
      obtain ⟨-, h4⟩ := dot_inj hp3 (w.notMem_run (by simp)) hbytes
      exact fun hm => hp4 (h4 ▸ List.mem_append_right _ hm)
    rw [hmap, hstr]
    exact ⟨w, p5, rp, n, by rw [← hw], ⟨hp0, htail, hp5, hp6⟩, hport, hn, hnamed, hbip, hbport, hidx⟩

/-! ## 作る側の書く名前 -/

def localConfig (name hash : List UInt8) (idx : Fin 2) : DiskBucketConfig where
  folder := .empty
  rangeMap := name
  ip := none
  port := -1
  hash := hash ++ [120]
  idx := (idx : Nat)

def remoteConfig (name hash : List UInt8) (ip : Nat) (port : Int) : DiskBucketConfig where
  folder := .empty
  rangeMap := name
  ip := some (dottedText ip)
  port := port
  hash := hash ++ [120]
  idx := 1

def decodedConfig (dName : List UInt8) (b : BeeBucket) (idx : Fin 2) : DiskBucketConfig :=
  if (dotsOf dName).length = 3 then localConfig b.rangeMapName b.hashStr idx
  else remoteConfig b.rangeMapName b.hashStr b.ip b.port

/-- `dName` は、読んだ値から `bee_add_disk_bucket_by_config` が書く名前である。 -/
def Canonical (dName : List UInt8) (b : BeeBucket) (idx : Fin 2) : Prop :=
  ∃ k, checkConfig (decodedConfig dName b idx) = .ok k ∧
    dName = createdFileName (decodedConfig dName b idx) k

section

variable {name hash : List UInt8}

theorem FileNamed.checkNameHash (h : FileNamed name hash) (e1 e2 : String) :
    checkNameHash name (hash ++ [120]) e1 e2 = .ok hash.length := by
  unfold Esq.checkNameHash
  rw [h.name, h.hash]
  dsimp only
  rw [if_neg]
  simp

theorem checkConfig_localConfig (h : FileNamed name hash) (idx : Fin 2) :
    checkConfig (localConfig name hash idx) = .ok ⟨[46], none, idx, hash.length⟩ := by
  have hidx : idxOfInt ((idx : Nat) : Int) = some idx := by
    revert idx
    decide
  unfold checkConfig localConfig
  dsimp only
  rw [hidx, h.checkNameHash]
  rfl

theorem checkConfig_remoteConfig (h : FileNamed name hash) {ip n : Nat} (hip : ReadableIp ip)
    (hn : n ≤ 65535) : checkConfig (remoteConfig name hash ip n)
      = .ok ⟨[46], some (dottedText ip, ip), 1, hash.length⟩ := by
  have hne : dottedText ip ≠ [] := by
    unfold dottedText
    exact fun he => (decimal_run _).1 (List.append_eq_nil_iff.mp he).1
  have hremote : checkRemote (remoteConfig name hash ip n) = .ok (some (dottedText ip)) := by
    unfold checkRemote remoteConfig
    dsimp only
    rw [if_pos ⟨hne, by omega⟩]
  have hport : checkIpPort n (some (dottedText ip)) = .ok (some (dottedText ip, ip)) := by
    unfold checkIpPort
    dsimp only
    rw [getIpv4Addr_dottedText hip]
    dsimp only
    rw [if_neg (not_not.mpr rfl), if_neg]
    unfold portNumberInvalid
    simp only [Bool.or_eq_true, decide_eq_true_eq, not_or]
    omega
  refine bind_eq_ok.mpr ⟨_, hremote, bind_eq_ok.mpr ⟨_, hport, bind_eq_ok.mpr ⟨[46], rfl, ?_⟩⟩⟩
  exact bind_eq_ok.mpr ⟨_, h.checkNameHash _ _, rfl⟩

theorem canonical_local_iff {dName : List UInt8} {b : BeeBucket} {idx : Fin 2}
    (h3 : (dotsOf dName).length = 3) (h : FileNamed b.rangeMapName b.hashStr) :
    Canonical dName b idx ↔ dName = b.rangeMapName ++ 46 :: ((b.hashStr ++ [120]) ++
      46 :: (decimal idx ++ [46, 107, 99, 116])) := by
  have hname : ∀ k : ConfigChecked, k = ⟨[46], none, idx, b.hashStr.length⟩ →
      createdFileName (localConfig b.rangeMapName b.hashStr idx) k = b.rangeMapName ++
        46 :: ((b.hashStr ++ [120]) ++ 46 :: (decimal idx ++ [46, 107, 99, 116])) := by
    rintro k rfl
    exact createdFileName_local rfl
  unfold Canonical decodedConfig
  rw [if_pos h3, checkConfig_localConfig h]
  constructor
  · rintro ⟨k, hk, hd⟩
    cases hk
    rw [hd, hname _ rfl]
  · intro hd
    exact ⟨_, rfl, hd.trans (hname _ rfl).symm⟩

theorem canonical_remote_iff {dName : List UInt8} {b : BeeBucket} {n : Nat}
    (h7 : (dotsOf dName).length = 7) (h : FileNamed b.rangeMapName b.hashStr)
    (hip : ReadableIp b.ip) (hport : b.port = (n : Int)) (hn : n ≤ 65535) :
    Canonical dName b 1 ↔ dName = b.rangeMapName ++ 46 :: (dottedText b.ip ++
      46 :: (decimal n ++ 46 :: ((b.hashStr ++ [120]) ++ [46, 107, 99, 116]))) := by
  have hname : ∀ k : ConfigChecked, k = ⟨[46], some (dottedText b.ip, b.ip), 1, b.hashStr.length⟩ →
      createdFileName (remoteConfig b.rangeMapName b.hashStr b.ip n) k = b.rangeMapName ++
        46 :: (dottedText b.ip ++ 46 :: (decimal n ++ 46 :: ((b.hashStr ++ [120]) ++
          [46, 107, 99, 116]))) := by
    rintro k rfl
    exact createdFileName_remote rfl
  unfold Canonical decodedConfig
  rw [if_neg (by omega), hport, checkConfig_remoteConfig h hip hn]
  constructor
  · rintro ⟨k, hk, hd⟩
    cases hk
    rw [hd, hname _ rfl]
  · intro hd
    exact ⟨_, rfl, hd.trans (hname _ rfl).symm⟩

end

/-! ## 余計な文字の無い名前 -/

def PlainName (dName : List UInt8) : Prop :=
  match dotsOf dName with
  | [_, d1, d2] => d2 = d1 + 2
  | [d0, d1, d2, d3, d4, d5, _] => ∀ t ∈ [betweenDots dName d0 d1, betweenDots dName d1 d2,
      betweenDots dName d2 d3, betweenDots dName d3 d4, betweenDots dName d4 d5], PlainNumber t
  | _ => False

theorem plainName_local_iff {p h t : List UInt8} (hp : 46 ∉ p) (hh : 46 ∉ h) (ht : 46 ∉ t) :
    PlainName (p ++ 46 :: (h ++ 46 :: (t ++ [46, 107, 99, 116]))) ↔ t.length = 1 := by
  unfold PlainName
  rw [dotsOf_part hp, dotsOf_part hh, show t ++ [46, 107, 99, 116] = t ++ 46 :: [107, 99, 116] from
    rfl, dotsOf_part ht, dotsOf_eq_nil (by decide)]
  simp only [List.map_cons, List.map_nil]
  omega

theorem plainName_remote_iff {p0 p1 p2 p3 p4 p5 p6 p7 : List UInt8}
    (h : ∀ q ∈ [p0, p1, p2, p3, p4, p5, p6, p7], 46 ∉ q) :
    PlainName (p0 ++ 46 :: (p1 ++ 46 :: (p2 ++ 46 :: (p3 ++ 46 :: (p4 ++ 46 :: (p5 ++
        46 :: (p6 ++ 46 :: p7))))))) ↔ ∀ t ∈ [p1, p2, p3, p4, p5], PlainNumber t := by
  unfold PlainName
  rw [dotsOf_seven h]
  dsimp only
  rw [betweenDots_part p0 p1 _ rfl rfl,
    betweenDots_at (p0 ++ 46 :: p1) p2
      (p3 ++ 46 :: (p4 ++ 46 :: (p5 ++ 46 :: (p6 ++ 46 :: p7)))) (by simp) (by simp; omega)
      (by simp; omega),
    betweenDots_at (p0 ++ 46 :: (p1 ++ 46 :: p2)) p3
      (p4 ++ 46 :: (p5 ++ 46 :: (p6 ++ 46 :: p7))) (by simp) (by simp; omega) (by simp; omega),
    betweenDots_at (p0 ++ 46 :: (p1 ++ 46 :: (p2 ++ 46 :: p3))) p4
      (p5 ++ 46 :: (p6 ++ 46 :: p7)) (by simp) (by simp; omega) (by simp; omega),
    betweenDots_at (p0 ++ 46 :: (p1 ++ 46 :: (p2 ++ 46 :: (p3 ++ 46 :: p4)))) p5
      (p6 ++ 46 :: p7) (by simp) (by simp; omega) (by simp; omega)]

/-! ## 同じ bucket を指す名前 -/

/-- 番地も番号も 0 の patch bucket と、index 1 の local の bucket。 -/
def ZeroTwins (n m : List UInt8) : Prop :=
  ∃ name hash, FileNamed name hash ∧
    n = name ++ 46 :: ((hash ++ [120]) ++ 46 :: ([49] ++ [46, 107, 99, 116])) ∧
    m = name ++ 46 :: (dottedText 0 ++ 46 :: ([48] ++ 46 :: ((hash ++ [120]) ++ [46, 107, 99, 116])))

/-- folder の名前は、どれも作る側の書く名前で、違う名前は違う bucket を指す。 -/
structure FolderExact (folder : List UInt8) (names : List CStr) : Prop where
  canonical : ∀ n ∈ names, ∀ b idx, fileBucket folder n.bytes = some (b, idx) →
    Canonical n.bytes b idx
  slots : ∀ n ∈ names, ∀ m ∈ names, ∀ b c idx, fileBucket folder n.bytes = some (b, idx) →
    fileBucket folder m.bytes = some (c, idx) → b.key = c.key → n = m

section

variable {folder dName : List UInt8} {b : BeeBucket} {idx : Fin 2}

theorem fileBucket_dots (h : fileBucket folder dName = some (b, idx)) :
    (dotsOf dName).length = 3 ∨ (dotsOf dName).length = 7 := by
  unfold fileBucket at h
  split at h
  next hd => exact Or.inl (by rw [hd]; rfl)
  next hd => exact Or.inr (by rw [hd]; rfl)
  · cases h

theorem decimal_of_idxOfChar {c : UInt8} (h : idxOfChar c = some idx) : decimal idx = [c] := by
  unfold idxOfChar at h
  split_ifs at h with h0 h1
  · cases h
    rw [h0]
    rfl
  · cases h
    rw [h1]
    rfl

/-- **名前が作る側の書く名前であるのは、番号の欄に余計な文字が無いときである。** -/
theorem canonical_iff_plainName (h0 : 0 ∉ dName) (h : fileBucket folder dName = some (b, idx)) :
    Canonical dName b idx ↔ PlainName dName := by
  rcases fileBucket_dots h with h3 | h7
  · obtain ⟨junk, c, hname, ⟨hp, hh, ht⟩, hidx, hnamed, -, -⟩ := fileBucket_local_fields h0 h3 h
    rw [canonical_local_iff h3 hnamed, hname, plainName_local_iff hp hh ht,
      List.append_cancel_left_eq, List.cons.injEq, List.append_cancel_left_eq, List.cons.injEq,
      List.append_cancel_right_eq, decimal_of_idxOfChar hidx, List.length_append,
      List.length_singleton, List.append_left_eq_self, ← List.length_eq_zero_iff]
    constructor
    · rintro ⟨-, -, hj⟩
      rw [hj]
    · intro hl
      exact ⟨rfl, rfl, by omega⟩
  · obtain ⟨w, t, r, v, hname, ⟨hp, htail, ht, hh⟩, hport, hv, hnamed, hip, hbport, rfl⟩ :=
      fileBucket_remote_fields h0 h7 h
    rw [canonical_remote_iff h7 hnamed (hip ▸ readableIp_value w) hbport hv]
    have hfields : ∀ q ∈ [b.rangeMapName, w.blanks ++ w.n1, w.n2, w.n3, w.n4 ++ w.tail, t,
        b.hashStr ++ [120], [107, 99, 116]], 46 ∉ q := by
      simp only [List.forall_mem_cons]
      refine ⟨hp, ?_, w.notMem_run (by simp), w.notMem_run (by simp), ?_, ht, hh, by decide,
        List.forall_mem_nil _⟩
      · rw [List.mem_append, not_or]
        exact ⟨w.notMem_blanks, w.notMem_run (by simp)⟩
      · rw [List.mem_append, not_or]
        exact ⟨w.notMem_run (by simp), htail⟩
    have hplain := plainName_remote_iff hfields
    have hdName : dName = b.rangeMapName ++ 46 :: ((w.blanks ++ w.n1) ++ 46 :: (w.n2 ++
        46 :: (w.n3 ++ 46 :: ((w.n4 ++ w.tail) ++ 46 :: (t ++ 46 :: ((b.hashStr ++ [120]) ++
          46 :: [107, 99, 116])))))) := by
      rw [hname, w.bytes_eq]
      simp
    rw [← hdName] at hplain
    have haddr := w.eq_dottedText_iff
    rw [← hip] at haddr
    rw [hplain, hname, List.append_cancel_left_eq, List.cons.injEq]
    simp only [List.forall_mem_cons]
    constructor
    · rintro ⟨-, he⟩
      have hcancel : w.bytes ++ 46 :: t = dottedText b.ip ++ 46 :: decimal v := by
        have he' : (w.bytes ++ 46 :: t) ++ 46 :: ((b.hashStr ++ [120]) ++ [46, 107, 99, 116])
            = (dottedText b.ip ++ 46 :: decimal v) ++
              46 :: ((b.hashStr ++ [120]) ++ [46, 107, 99, 116]) := by
          rw [List.append_assoc (w.bytes), List.append_assoc (dottedText b.ip)]
          exact he
        exact List.append_cancel_right he'
      obtain ⟨hbytes, hv⟩ := dot_inj_last ht (notMem_decimal (by decide)) hcancel
      obtain ⟨p1, p2, p3, p4⟩ := haddr.mp hbytes
      exact ⟨p1, p2, p3, p4, (getInteger1000000_plain_iff hport).mp hv, List.forall_mem_nil _⟩
    · rintro ⟨p1, p2, p3, p4, p5, -⟩
      rw [haddr.mpr ⟨p1, p2, p3, p4⟩, (getInteger1000000_plain_iff hport).mpr p5]
      exact ⟨trivial, rfl⟩

/-! ## 番地も番号も 0 の名前 -/

theorem zeroTwins_local {name hash : List UInt8} (h : FileNamed name hash)
    (hd : dName = name ++ 46 :: ((hash ++ [120]) ++ 46 :: ([49] ++ [46, 107, 99, 116]))) :
    ∃ b, fileBucket folder dName = some (b, 1) ∧ b.key = (name, hash, 0, 0) := by
  have hk := checkConfig_localConfig h 1
  obtain ⟨b, hb, hkey⟩ := (fileBucket_local (checkConfig_file hk) rfl folder).1
    List.getLast?_concat
  have hone : decimal 1 = [49] := by
    decide
  rw [createdFileName_local rfl] at hb
  rw [← hone] at hd
  refine ⟨b, hd ▸ hb, hkey.trans ?_⟩
  show (name, (hash ++ [120]).take hash.length, (0 : Nat), (0 : Int)) = _
  rw [List.take_left]

theorem zeroTwins_remote {name hash : List UInt8} (h : FileNamed name hash)
    (hd : dName = name ++ 46 :: (dottedText 0 ++
      46 :: ([48] ++ 46 :: ((hash ++ [120]) ++ [46, 107, 99, 116])))) :
    ∃ b, fileBucket folder dName = some (b, 1) ∧ b.key = (name, hash, 0, 0) := by
  have hzero : ReadableIp 0 := by
    unfold ReadableIp
    decide
  have hk := checkConfig_remoteConfig h hzero (Nat.zero_le 65535)
  obtain ⟨b, hb, hkey⟩ := (fileBucket_remote (checkConfig_file hk) rfl folder).1
    List.getLast?_concat
  have hport : decimal 0 = [48] := by
    decide
  rw [createdFileName_remote rfl] at hb
  rw [← hport] at hd
  refine ⟨b, hd ▸ hb, hkey.trans ?_⟩
  show (name, (hash ++ [120]).take hash.length, (0 : Nat), (0 : Int)) = _
  rw [List.take_left]

/--
**folder の名前が作る側の書く名前で、bucket と一対一に対応するのは、番号の欄に余計な文字が無く、番地も
番号も 0 の patch bucket が index 1 の local の bucket と並ばないときに限る。**
-/
theorem bucket_file_names_exact_iff (folder : List UInt8) (names : List CStr) :
    FolderExact folder names ↔
      (∀ n ∈ names, (fileBucket folder n.bytes).isSome → PlainName n.bytes) ∧
        ∀ n ∈ names, ∀ m ∈ names, ¬ ZeroTwins n.bytes m.bytes := by
  constructor
  · intro h
    constructor
    · intro n hn hsome
      obtain ⟨⟨b, idx⟩, hb⟩ := Option.isSome_iff_exists.mp hsome
      exact (canonical_iff_plainName n.2 hb).mp (h.canonical n hn b idx hb)
    · rintro n hn m hm ⟨name, hash, hnamed, hdn, hdm⟩
      obtain ⟨b, hb, hbkey⟩ := zeroTwins_local hnamed hdn
      obtain ⟨c, hc, hckey⟩ := zeroTwins_remote hnamed hdm
      have heq := h.slots n hn m hm b c 1 hb hc (hbkey.trans hckey.symm)
      rw [heq, hdm] at hdn
      have hlen := congrArg List.length hdn
      rw [show dottedText 0 = [48, 46, 48, 46, 48, 46, 48] from rfl] at hlen
      simp only [List.length_append, List.length_cons, List.length_nil] at hlen
      omega
  · rintro ⟨hplain, htwins⟩
    have hcanonical : ∀ n ∈ names, ∀ b idx, fileBucket folder n.bytes = some (b, idx) →
        Canonical n.bytes b idx := by
      intro n hn b idx hb
      exact (canonical_iff_plainName n.2 hb).mpr (hplain n hn (by rw [hb]; rfl))
    refine ⟨hcanonical, fun n hn m hm b c idx hb hc hkey => ?_⟩
    obtain ⟨hname, hstr, hip, hport⟩ : b.rangeMapName = c.rangeMapName ∧ b.hashStr = c.hashStr ∧
        b.ip = c.ip ∧ b.port = c.port := by
      simpa only [BeeBucket.key, Prod.mk.injEq] using hkey
    have hcb := hcanonical n hn b idx hb
    have hcc := hcanonical m hm c idx hc
    -- 種類の違う名前が同じ bucket を指すのは、番地も番号も 0 のときだけである
    have hmixed : ∀ {x y : CStr} {b c : BeeBucket}, x ∈ names → y ∈ names →
        fileBucket folder x.bytes = some (b, idx) → fileBucket folder y.bytes = some (c, idx) →
        b.rangeMapName = c.rangeMapName → b.hashStr = c.hashStr → b.ip = c.ip → b.port = c.port →
        (dotsOf x.bytes).length = 3 → (dotsOf y.bytes).length ≠ 7 := by
      intro x y b c hx hy hb hc hname hstr hip hport h3 h7
      have hcb := hcanonical x hx b idx hb
      have hcc := hcanonical y hy c idx hc
      obtain ⟨-, -, -, -, -, hnb, hip0, hport0⟩ := fileBucket_local_fields x.2 h3 hb
      obtain ⟨w, t, r, v, -, -, -, hv, hnc, hipw, hportv, rfl⟩ :=
        fileBucket_remote_fields y.2 h7 hc
      have hv0 : v = 0 := by omega
      rw [canonical_local_iff h3 hnb] at hcb
      rw [canonical_remote_iff h7 hnc (hipw ▸ readableIp_value w) hportv hv, ← hname, ← hstr,
        ← hip, hip0, hv0] at hcc
      exact htwins x hx y hy ⟨_, _, hnb, hcb, hcc⟩
    apply Subtype.ext
    rcases fileBucket_dots hb with hb3 | hb7
    · rcases fileBucket_dots hc with hc3 | hc7
      · obtain ⟨-, -, -, -, -, hnb, -, -⟩ := fileBucket_local_fields n.2 hb3 hb
        obtain ⟨-, -, -, -, -, hnc, -, -⟩ := fileBucket_local_fields m.2 hc3 hc
        rw [canonical_local_iff hb3 hnb, hname, hstr] at hcb
        exact hcb.trans ((canonical_local_iff hc3 hnc).mp hcc).symm
      · exact absurd hc7 (hmixed hn hm hb hc hname hstr hip hport hb3)
    · rcases fileBucket_dots hc with hc3 | hc7
      · exact absurd hb7 (hmixed hm hn hc hb hname.symm hstr.symm hip.symm hport.symm hc3)
      · obtain ⟨wb, -, -, vb, -, -, -, hvb, hnb, hipb, hportb, rfl⟩ :=
          fileBucket_remote_fields n.2 hb7 hb
        obtain ⟨wc, -, -, vc, -, -, -, hvc, hnc, hipc, hportc, -⟩ :=
          fileBucket_remote_fields m.2 hc7 hc
        have hv : vb = vc := by omega
        rw [canonical_remote_iff hb7 hnb (hipb ▸ readableIp_value wb) hportb hvb, hname, hstr, hip,
          hv] at hcb
        exact hcb.trans
          ((canonical_remote_iff hc7 hnc (hipc ▸ readableIp_value wc) hportc hvc).mp hcc).symm

end

def plainFile : CStr := ⟨[109, 46, 120, 46, 48, 46, 107, 99, 116], by decide⟩

def junkFile : CStr := ⟨[109, 46, 120, 46, 122, 48, 46, 107, 99, 116], by decide⟩

/-- 番号の欄の前の文字は読まれず、`m.x.z0.kct` は `m.x.0.kct` と同じ bucket を指す。 -/
theorem junk_index_same_slot : plainFile ≠ junkFile ∧
    (∃ b c, fileBucket [46] plainFile.bytes = some (b, 0) ∧
      fileBucket [46] junkFile.bytes = some (c, 0) ∧ b.key = c.key) ∧
    ¬ FolderExact [46] [plainFile, junkFile] := by
  have hne : plainFile ≠ junkFile := by
    decide
  obtain ⟨b, hb, hbkey⟩ : ∃ b, fileBucket [46] plainFile.bytes = some (b, 0) ∧
      b.key = ([109], [], 0, 0) := ⟨_, rfl, rfl⟩
  obtain ⟨c, hc, hckey⟩ : ∃ c, fileBucket [46] junkFile.bytes = some (c, 0) ∧
      c.key = ([109], [], 0, 0) := ⟨_, rfl, rfl⟩
  refine ⟨hne, ⟨b, c, hb, hc, hbkey.trans hckey.symm⟩, fun h => hne ?_⟩
  exact h.slots plainFile (by simp) junkFile (by simp) b c 0 hb hc (hbkey.trans hckey.symm)

end Esq
